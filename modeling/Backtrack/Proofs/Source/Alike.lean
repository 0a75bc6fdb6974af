import Backtrack.Proofs.Source.Retention

/-! Sources at the same place of the same text. Where readers do not fail, the result of a read or a backup is settled
by the text, the window and the cursor. How much a source has decoded already makes no difference for that; only the
ranges that it gives out tell, and only those that are not retained yet. -/

namespace Backtrack.Source

variable {s t : Source} {journal journal' : Journal}

/-- Without failures, a read is determined by the text and the cursor. -/
theorem read_result (hvalid : s.Valid) (hreliable : s.Reliable) (journal : Journal) :
    (s.read journal).result =
        (if s.cursor < counterLimit then .ok (.ofText s.text s.cursor) else .error (.breach .counterOverflow)) ∧
      (s.read journal).state.cursor = if s.cursor < counterLimit then s.cursor + 1 else s.cursor := by
  have hreads := read_reads hvalid journal
  generalize s.read journal = o at hreads ⊢
  obtain ⟨result, after, journal'⟩ := o
  match result with
  | .ok symbol =>
      obtain ⟨-, -, rfl, hcursor, hlt⟩ := hreads
      rw [if_pos hlt, if_pos hlt]
      exact ⟨rfl, hcursor⟩
  | .error (.fault f) =>
      obtain ⟨-, -, reason, -, hsurfaces⟩ := hreads
      exact absurd hsurfaces hreliable.not_surfaces
  | .error (.breach b) =>
      obtain ⟨rfl, hlimit, -, -, hcursor⟩ := hreads
      rw [if_neg (Nat.not_lt.mpr hlimit), if_neg (Nat.not_lt.mpr hlimit)]
      exact ⟨rfl, hcursor⟩

/-- Without failures, a read settles the symbol at the cursor and no other. -/
theorem read_settles (hvalid : s.Valid) (hreliable : s.Reliable) (journal : Journal) :
    (s.read journal).state.retained = max s.retained (min s.text.length (s.cursor + 1)) := by
  have hbefore := s.retained_le
  obtain ⟨hkeeps, hbound⟩ := s.refill_keeps journal
  have hgrown := hkeeps.retained
  have hrefills := refill_refills hvalid journal
  rw [read_eq, Action.bind]
  generalize s.refill journal = o at hbound hgrown hrefills ⊢
  obtain ⟨result, ⟨history, decoder⟩, between⟩ := o
  cases result with
  | ok =>
      obtain ⟨hsame, -, hcursor, hsettled⟩ := hrefills
      have hafter := retained_le ⟨history, decoder⟩
      have hwhole := hsettled.imp_right retained_of_remaining
      rw [hsame.text] at hafter hwhole
      rw [hcursor] at hwhole
      dsimp only at hbound hgrown
      have hretained : retained ⟨history, decoder⟩ = max s.retained (min s.text.length (s.cursor + 1)) := by omega
      dsimp only [onHistory, History.next]
      split_ifs <;> exact hretained
  | error stop =>
      obtain ⟨-, -, reason, -, hsurfaces⟩ := hrefills
      exact absurd hsurfaces hreliable.not_surfaces

/-- Two sources that do not fail, at the same place of the same text; the second one may retain more of it. -/
structure Alike (s t : Source) : Prop where
  valid : s.Valid
  reliable : s.Reliable
  valid' : t.Valid
  reliable' : t.Reliable
  text : s.text = t.text
  window : s.history.window = t.history.window
  cursor : s.cursor = t.cursor
  retained : s.retained ≤ t.retained

namespace Alike

theorem refl (hvalid : s.Valid) (hreliable : s.Reliable) : Alike s s :=
  ⟨hvalid, hreliable, hvalid, hreliable, rfl, rfl, rfl, Nat.le_refl _⟩

/-- The second source may be read ahead of and taken back. -/
theorem of_leads {source : Source} (h : Alike s t) (hleads : t.Leads source) (hcursor : source.cursor = t.cursor) :
    Alike s source := by
  have hsame := hleads.evolves.same h.valid'
  exact ⟨h.valid, h.reliable, hsame.valid, hleads.evolves.reliable h.valid' h.reliable', h.text.trans hsame.text.symm,
    h.window.trans hsame.window.symm, h.cursor.trans hcursor.symm, h.retained.trans hleads.keeps.retained⟩

theorem read (h : Alike s t) (journal journal' : Journal) :
    (s.read journal).result = (t.read journal').result ∧ Alike (s.read journal).state (t.read journal').state := by
  have hsame := (s.read_evolves journal).same h.valid
  have hsame' := (t.read_evolves journal').same h.valid'
  have hsettles := read_settles h.valid h.reliable journal
  have hsettles' := read_settles h.valid' h.reliable' journal'
  have hretained := h.retained
  obtain ⟨hresult, hcursor⟩ := read_result h.valid h.reliable journal
  obtain ⟨hresult', hcursor'⟩ := read_result h.valid' h.reliable' journal'
  rw [hresult, hresult', h.text, h.cursor]
  refine ⟨rfl, hsame.valid, (s.read_evolves journal).reliable h.valid h.reliable, hsame'.valid,
    (t.read_evolves journal').reliable h.valid' h.reliable', ?_, ?_, ?_, ?_⟩
  · exact hsame.text.trans (h.text.trans hsame'.text.symm)
  · exact hsame.window.trans (h.window.trans hsame'.window.symm)
  · rw [hcursor, hcursor', h.cursor]
  · rw [hsettles, hsettles', h.text, h.cursor]
    omega

theorem takeBack (h : Alike s t) (count : Nat) : Alike (s.takeBack count) (t.takeBack count) :=
  ⟨(Same.takeBack h.valid count).valid, (Evolves.takeBack s count).reliable h.valid h.reliable,
    (Same.takeBack h.valid' count).valid, (Evolves.takeBack t count).reliable h.valid' h.reliable', h.text,
    h.window, congrArg (· - count) h.cursor, h.retained⟩

theorem admits (h : Alike s t) {count : Nat} : s.Admits count ↔ t.Admits count := by
  unfold Admits
  rw [h.window]

theorem backup (h : Alike s t) (count : Nat) (journal journal' : Journal) :
    (Source.backup count s journal).result = (Source.backup count t journal').result ∧
      Alike (Source.backup count s journal).state (Source.backup count t journal').state := by
  by_cases hadmits : s.Admits count
  · have hadmits' := h.admits.mp hadmits
    by_cases hle : count ≤ s.cursor
    · rw [backup_of_admits hadmits hle, backup_of_admits hadmits' (h.cursor ▸ hle)]
      exact ⟨rfl, h.takeBack count⟩
    · have hlt : s.cursor < count := Nat.lt_of_not_le hle
      rw [backup_of_lt hadmits hlt, backup_of_lt hadmits' (h.cursor ▸ hlt), h.cursor]
      exact ⟨rfl, h⟩
  · obtain ⟨window, hwindow, -, hbackup⟩ := backup_of_not_admits hadmits journal
    obtain ⟨window', hwindow', -, hbackup'⟩ := backup_of_not_admits (mt h.admits.mpr hadmits) journal'
    rw [h.window, hwindow'] at hwindow
    cases hwindow
    rw [hbackup, hbackup']
    exact ⟨rfl, h⟩

/-- Where nothing is left to decode, nothing more can be retained. -/
theorem retained_eq (h : Alike s t) (hempty : s.decoder.remaining = []) : s.retained = t.retained := by
  have hwhole := retained_of_remaining hempty
  have hle := t.retained_le
  rw [← h.text] at hle
  exact Nat.le_antisymm h.retained (hwhole ▸ hle)

/-- Ranges up to where the first source has settled its text are the same. -/
theorem range (h : Alike s t) {start stop : Nat} (hle : start ≤ stop)
    (hsettled : stop ≤ s.retained ∨ s.decoder.remaining = []) : s.range start stop = t.range start stop := by
  have hgrown := h.retained
  rw [range_eq, range_eq, h.text]
  rcases hsettled with hstop | hempty
  · rw [if_pos ⟨hle, hstop⟩, if_pos ⟨hle, hstop.trans hgrown⟩]
  · rw [h.retained_eq hempty]

end Alike

end Backtrack.Source
