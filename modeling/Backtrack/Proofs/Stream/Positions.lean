import Mathlib.Data.List.DropRight
import Backtrack.Proofs.Stream.Clients
import Backtrack.Proofs.Stream.Cursor

/-! Positions count what has been consumed. The line and the column of a stream are never computed from its
text: they are counted on symbol by symbol and copied from marks. As long as the index moves back on the
way to a mark alone and no lookahead is refused, they are nevertheless what the text before the index says,
and so is every position that a mark has saved. -/

namespace Backtrack

/-- The first `n` symbols of a text. -/
def Symbol.upTo (text : List Char) (n : Nat) : List Symbol :=
  (List.range n).map (Symbol.ofText text)

theorem Symbol.upTo_succ (text : List Char) (n : Nat) :
    upTo text (n + 1) = upTo text n ++ [ofText text n] := by
  rw [upTo, List.range_succ, List.map_append]
  rfl

theorem Symbol.length_upTo (text : List Char) (n : Nat) : (upTo text n).length = n := by
  rw [upTo, List.length_map, List.length_range]

/-- The event is no seek backward but that of a way back to a mark which has just been announced. -/
def Event.OnRewind (previous : Option Event) : Event → Prop
  | .seekingBack source target =>
      ∃ m p q, previous = some (.rewinding m p q) ∧ p.index = source ∧ q.index = target
  | _ => True

namespace Position

/-- The line is one more than the line ends before the index, and the column is the number of symbols behind
the last of them. -/
structure Counts (text : List Char) (p : Position) : Prop where
  line : p.line = 1 + (Symbol.upTo text p.index).countP Symbol.isLineTerminator
  column : p.column = ((Symbol.upTo text p.index).rtakeWhile (!·.isLineTerminator)).length

variable {text : List Char} {p : Position}

theorem counts_start (text : List Char) : start.Counts text :=
  ⟨rfl, rfl⟩

theorem Counts.next (h : p.Counts text) : (p.next (.ofText text p.index)).Counts text := by
  obtain ⟨hline, hcolumn⟩ := h
  unfold Position.next
  split_ifs with hend
  · refine ⟨?_, ?_⟩
    · dsimp only
      rw [Symbol.upTo_succ, List.countP_append, List.countP_singleton, if_pos hend, hline, Nat.add_assoc]
    · dsimp only
      rw [Symbol.upTo_succ, List.rtakeWhile_concat_neg _ _ _ (by simp [hend])]
      rfl
  · refine ⟨?_, ?_⟩
    · dsimp only
      rw [Symbol.upTo_succ, List.countP_append, List.countP_singleton, if_neg hend, hline]
      rfl
    · dsimp only
      rw [Symbol.upTo_succ, List.rtakeWhile_concat_pos _ _ _ (by simp [hend]), hcolumn, List.length_append]
      rfl

/-- Marked elements and those behind the last of them are different elements. -/
theorem countP_add_length_rtakeWhile_le {α : Type} (marked : α → Bool) (l : List α) :
    l.countP marked + (l.rtakeWhile (!marked ·)).length ≤ l.length := by
  induction l using List.reverseRecOn with
  | nil => exact Nat.le_refl 0
  | append_singleton l x ih =>
      rw [List.countP_append, List.countP_singleton, List.length_append, List.length_singleton]
      have hcount : l.countP marked ≤ l.length := List.countP_le_length
      by_cases hx : marked x = true
      · rw [if_pos hx, List.rtakeWhile_concat_neg _ _ _ (by simp [hx])]
        exact Nat.add_le_add_right hcount 1
      · rw [if_neg hx, List.rtakeWhile_concat_pos _ _ _ (by simp [hx]), List.length_append,
          List.length_singleton]
        omega

/-- The line and the column never overtake the index. -/
theorem Counts.line_add_column_le (h : p.Counts text) : p.line + p.column ≤ p.index + 1 := by
  have hle := countP_add_length_rtakeWhile_le Symbol.isLineTerminator (Symbol.upTo text p.index)
  rw [Symbol.length_upTo] at hle
  rw [h.line, h.column]
  omega

end Position

namespace Stream

/-- The position and the saved positions count the text, and the saved ones follow one another up to the
index. -/
structure Tracks (text : List Char) (s : Stream) : Prop where
  position : s.position.Counts text
  entries : ∀ p ∈ s.marks.entries, p.Counts text
  sorted : s.marks.entries.Pairwise (·.index ≤ ·.index)
  below : ∀ p ∈ s.marks.entries, p.index ≤ s.index

variable {s after : Stream} {events : List Event} {text : List Char}

theorem Tracks.returnTo (h : Tracks text s) {m : Marker} {p : Position} (hopen : s.marks.isOpen m = true)
    (hsaved : s.marks.entries[m.depth - 1]? = some p) {source : Source} :
    Tracks text { s with source := source, position := p, marks := s.marks.close m } := by
  have hclose := MarkStack.entries_close hopen
  have hsorted : (s.marks.entries.take (m.depth - 1 + 1)).Pairwise (·.index ≤ ·.index) :=
    h.sorted.sublist (List.take_sublist _ _)
  rw [List.take_add_one, hsaved, ← hclose, List.pairwise_append] at hsorted
  refine ⟨h.entries p (List.mem_of_getElem? hsaved), fun q hq => ?_, hsorted.1, fun q hq => ?_⟩
  · dsimp only at hq
    rw [hclose] at hq
    exact h.entries q (List.mem_of_mem_take hq)
  · exact hsorted.2.2 q hq p (by simp)

theorem Move.tracks (h : Move False s events after) (htracks : Tracks text s) (hvalid : s.source.Valid)
    (htext : s.source.text = text) (hcursor : s.source.cursor = s.index)
    (hforward : ∀ target, target < s.index → events ≠ [.seekingBack s.index target]) :
    Tracks text after := by
  cases h with
  | pass hevolves hread hsymbol =>
      refine ⟨?_, htracks.entries, htracks.sorted, fun p hp => ?_⟩
      · rw [hsymbol hvalid, htext, hcursor]
        exact htracks.position.next
      · have hle := htracks.below p hp
        simp only [index, Position.index_next] at hle ⊢
        omega
  | back hlt => exact absurd rfl (hforward _ hlt)
  | setLine h => exact h.elim
  | setColumn h => exact h.elim
  | mark hmarks hdepth hentries =>
      refine ⟨htracks.position, ?_, ?_, ?_⟩
      · dsimp only
        rw [hentries]
        intro p hp
        rcases List.mem_append.mp hp with hp | hp
        · exact htracks.entries p hp
        · rw [List.mem_singleton.mp hp]
          exact htracks.position
      · dsimp only
        rw [hentries, List.pairwise_append]
        refine ⟨htracks.sorted, List.pairwise_singleton _ _, fun p hp q hq => ?_⟩
        rw [List.mem_singleton.mp hq]
        exact htracks.below p hp
      · dsimp only
        rw [hentries]
        intro p hp
        rcases List.mem_append.mp hp with hp | hp
        · exact htracks.below p hp
        · rw [List.mem_singleton.mp hp]
          exact Nat.le_refl _
  | release hopen =>
      have hclose := MarkStack.entries_close hopen
      refine ⟨htracks.position, fun p hp => ?_, ?_, fun p hp => ?_⟩
      · dsimp only at hp
        rw [hclose] at hp
        exact htracks.entries p (List.mem_of_mem_take hp)
      · dsimp only
        rw [hclose]
        exact htracks.sorted.sublist (List.take_sublist _ _)
      · dsimp only at hp
        rw [hclose] at hp
        exact htracks.below p (List.mem_of_mem_take hp)
  | arrive hopen hsaved => exact htracks.returnTo hopen hsaved
  | rewind hopen hsaved => exact htracks.returnTo hopen hsaved
  | _ => exact ⟨htracks.position, htracks.entries, htracks.sorted, htracks.below⟩

theorem Run.tracks (h : Run False s events after) (hfresh : s.IsFresh text) (hvalid : s.source.Valid)
    (hquiet : Journal.Each Event.RefusesSeek none events)
    (hforward : Journal.Each Event.OnRewind none events) :
    Tracks text after := by
  induction h with
  | refl =>
      have hentries := hfresh.entries
      refine ⟨?_, ?_, ?_, ?_⟩
      · rw [hfresh.position]
        exact Position.counts_start _
      · simp [hentries]
      · simp [hentries]
      · simp [hentries]
  | @move events more mid after hrun hmove ih =>
      have hsame := hrun.evolves.same hvalid
      have hcursor := hrun.cursor (.inr hquiet.of_append)
      rw [hfresh.index, hfresh.cursor, Nat.add_zero, Nat.zero_add] at hcursor
      refine hmove.tracks (ih hquiet.of_append hforward.of_append) hsame.valid
        (hsame.text.trans hfresh.text_eq) hcursor ?_
      rintro target hlt rfl
      obtain ⟨m, p, q, hlast, hp, hq⟩ := hforward.allowed_last
      have hle : p.index ≤ q.index := hrun.stands _ hlast
      omega

/-- Wherever a client takes a stream, unless it seeks backward on its own, a lookahead is refused or a counter
is full, the index is the cursor of the source, and the position and every saved position count the text of
the source up to their own index. The saved positions follow one another up to the index. -/
theorem client_positions {α : Type} {x : Action Stream α} (hx : Client False x) {text : List Char}
    {s : Stream} (hfresh : s.IsFresh text) (hfixed : s.source.decoder.reader.ending.IsFixed) (start : Journal)
    (hfull : ¬(x s start).IsFull)
    (hquiet : Journal.Each Event.RefusesSeek none (Journal.since start (x s start).journal))
    (hforward : Journal.Each Event.OnRewind none (Journal.since start (x s start).journal)) :
    let after := (x s start).state
    after.index = after.source.cursor ∧
      (∀ p ∈ after.marks.entries ++ [after.position],
        p.line = 1 + (Symbol.upTo text p.index).countP Symbol.isLineTerminator ∧
          p.column = ((Symbol.upTo text p.index).rtakeWhile (!·.isLineTerminator)).length ∧
          p.line + p.column ≤ p.index + 1) ∧
      after.marks.entries.Pairwise (·.index ≤ ·.index) ∧
      ∀ p ∈ after.marks.entries, p.index ≤ after.index := by
  intro after
  obtain ⟨events, hevents, hrun⟩ := hx.reaches hfresh.valid_marks hfull
  rw [Journal.since_eq_of_append hevents] at hquiet hforward
  have htracks := hrun.tracks hfresh (hfresh.valid_source hfixed) hquiet hforward
  have hcursor := hrun.cursor (.inr hquiet)
  rw [hfresh.index, hfresh.cursor, Nat.add_zero, Nat.zero_add] at hcursor
  refine ⟨hcursor.symm, fun p hp => ?_, htracks.sorted, htracks.below⟩
  have hcounts : p.Counts text := by
    rcases List.mem_append.mp hp with hp | hp
    · exact htracks.entries p hp
    · rw [List.mem_singleton.mp hp]
      exact htracks.position
  exact ⟨hcounts.line, hcounts.column, hcounts.line_add_column_le⟩

/-- A mark that stays open, a line that is passed behind it and a word that does not match: the way back to
the start of the word is counted as well. -/
theorem client_positions_mismatch :
    let o := (advance >>= fun _ => mark >>= fun _ => advance >>= fun _ => matchesText ['b', 'c'])
      (ofSource (.ofText ['a', '\n', 'b'] none) "text" false) #[]
    o.state.index = o.state.source.cursor ∧ ∀ p ∈ o.state.marks.entries, p.index ≤ o.state.index := by
  have hfresh : (ofSource (.ofText ['a', '\n', 'b'] none) "text" false).IsFresh ['a', '\n', 'b'] :=
    ⟨.inl ⟨none, rfl⟩, rfl, 0, rfl⟩
  have hclient : Client False
      (advance >>= fun _ => mark >>= fun _ => advance >>= fun _ => matchesText ['b', 'c']) :=
    Client.advance.bind fun _ => Client.mark.bind fun _ => Client.advance.bind fun _ => .matchesText _
  have hpositions := client_positions hclient hfresh trivial #[] (by unfold Outcome.IsFull; decide +kernel)
    ⟨trivial, trivial, trivial, trivial, trivial, trivial⟩
    ⟨trivial, trivial, trivial, ⟨_, _, _, rfl, rfl, rfl⟩, trivial, trivial⟩
  exact ⟨hpositions.1, hpositions.2.2.2⟩

end Stream

end Backtrack
