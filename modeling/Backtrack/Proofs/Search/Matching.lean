import Backtrack.Proofs.Search.Comparing

/-! Matching a word at a place. Where the reader does not fail and there is no window, the stream is known
from the number of symbols that it has passed: every operation of a search comes to one result and leaves the
stream at one place. A word that matches is passed, and after one that does not the stream is back where it
was. -/

namespace Backtrack.Stream

/-- The stream is `n` symbols behind the position `p` of a text, with `saved` in its open marks. It can read
on without failures and go back as far as it likes. -/
structure Stands (text : List Char) (p : Position) (caseFold : Bool) (saved : List Position) (n : Nat)
    (s : Stream) : Prop where
  valid : s.source.Valid
  reliable : s.source.Reliable
  text_eq : s.source.text = text
  window : s.source.history.window = none
  cursor : s.source.cursor = p.index + n
  position : s.position = p.along text n
  marks : s.marks.Valid
  entries : s.marks.entries = saved
  folds : s.caseFold = caseFold

variable {text word : List Char} {p : Position} {caseFold : Bool} {saved : List Position} {n : Nat} {s : Stream}

namespace Stands

theorem admits (h : Stands text p caseFold saved n s) (count : Nat) : s.source.Admits count := by
  intro window hwindow
  rw [h.window] at hwindow
  cases hwindow

theorem depth (h : Stands text p caseFold saved n s) : s.marks.depth = saved.length := by
  rw [← MarkStack.length_entries h.marks, h.entries]

variable (hroom : p.HasRoom text) (hn : n ≤ text.length - p.index)

include hroom hn

theorem index (h : Stands text p caseFold saved n s) : s.index = p.index + n := by
  rw [Stream.index, h.position, hroom.index_along (Nat.le_succ_of_le hn)]

/-- The stream is behind one that has the position from which the symbols are counted. -/
theorem beyond (h : Stands text p caseFold saved n s) :
    { s with position := p }.Valid text ∧ Beyond text { s with position := p } saved n s := by
  have hlt := (hroom n hn).1
  rw [hroom.index_along (Nat.le_succ_of_le hn), ← h.cursor] at hlt
  have hahead : p.index ≤ s.source.cursor := h.cursor ▸ Nat.le_add_right _ _
  exact ⟨⟨h.valid, h.text_eq, h.marks, hahead, hlt.le⟩,
    ⟨.refl, h.cursor, h.index hroom hn, h.position, h.marks, h.entries, rfl⟩⟩

omit hroom hn

theorem of_beyond {m : Nat} {after : Stream} (h : Stands text p caseFold saved n s)
    (hafter : Beyond text { s with position := p } saved m after) : Stands text p caseFold saved m after := by
  have hevolves := hafter.leads.evolves
  have hsame := hevolves.same h.valid
  exact ⟨hsame.valid, hevolves.reliable h.valid h.reliable, hsame.text.trans h.text_eq, hsame.window.trans h.window,
    hafter.cursor, hafter.position, hafter.marks, hafter.entries, hafter.folds.trans h.folds⟩

include hroom hn

/-- The next symbol is seen, and the stream stays where it is. -/
theorem lookahead (h : Stands text p caseFold saved n s) (journal : Journal) :
    ∃ after journal',
      Stream.lookahead 1 s journal =
        ⟨.ok (some ((Symbol.ofText text (p.index + n)).seen caseFold)), after, journal'⟩ ∧
      Stands text p caseFold saved n after := by
  obtain ⟨hvalid, hbeyond⟩ := h.beyond hroom hn
  obtain ⟨_, after, journal', hlook, rfl, hafter⟩ :=
    (hbeyond.peek hvalid h.reliable id (h.admits 1) hn journal).exists (not_not.mpr hroom)
  refine ⟨after, journal', ?_, h.of_beyond hafter⟩
  rw [hlook, h.folds]
  rfl

/-- The stream passes the next symbol. -/
theorem advance (hlt : p.index + n < text.length) (h : Stands text p caseFold saved n s) (journal : Journal) :
    ∃ after journal', Stream.advance s journal = ⟨.ok (), after, journal'⟩ ∧
      Stands text p caseFold saved (n + 1) after := by
  obtain ⟨hvalid, hbeyond⟩ := h.beyond hroom hn
  obtain ⟨_, after, journal', hadvance, hafter⟩ :=
    (hbeyond.advance_of_reliable hvalid id h.reliable hlt journal).exists (not_not.mpr hroom)
  exact ⟨after, journal', hadvance, h.of_beyond hafter⟩

omit hn

/-- A word that stands next is passed; after one that does not, the stream is back where it was. -/
theorem matchesText (word : List Char) (hle : p.index + n ≤ text.length) (h : Stands text p caseFold saved n s)
    (journal : Journal) :
    ∃ m after journal', Stands text p caseFold saved m after ∧
      (Occurs caseFold text word (p.index + n) ∧ m = n + word.length ∧
          Stream.matchesText word s journal = ⟨.ok true, after, journal'⟩ ∨
        ¬Occurs caseFold text word (p.index + n) ∧ m = n ∧
          Stream.matchesText word s journal = ⟨.ok false, after, journal'⟩) := by
  obtain rfl := h.folds
  have hn : n ≤ text.length - p.index := by omega
  obtain ⟨hvalid, hbeyond⟩ := h.beyond hroom hn
  have hoccurs : Occurs s.caseFold text word (p.index + n) ↔ _ := occurs_iff_agreement hle
  have hends : (Stream.matchesText word s journal).Ends (¬p.HasRoom text) _ :=
    hbeyond.matchesText hvalid id (fun _ => h.admits 1) hn journal journal
  obtain ⟨m, hafter, htests⟩ := hends.ends fun hfull => hends.full hfull hroom
  replace hafter := h.of_beyond hafter
  generalize Stream.matchesText word s journal = o at hafter htests ⊢
  obtain ⟨result, after, journal'⟩ := o
  refine ⟨m, after, journal', hafter, ?_⟩
  cases htests with
  | agreed _ hk hm => exact .inl ⟨hoccurs.mpr hk, hk ▸ hm, rfl⟩
  | differed _ hk _ hm => exact .inr ⟨fun hyes => hk.ne (hoccurs.mp hyes), hm, rfl⟩
  | refused _ _ hwindow =>
      cases h.window.symm.trans hwindow
  | failed hread => exact absurd hread (hbeyond.readAhead_ne_fault hvalid h.reliable _ _ _)

end Stands

end Backtrack.Stream
