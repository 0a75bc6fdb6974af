import Backtrack.Proofs.Source.Alike

/-! Reading on after a failure. The failures among the deliveries of a reader bring no bytes and lose none, so a source
that meets them stays abreast of one whose reader does not fail: what is read on both is the same, or the first one has
met one of its failures and can be taken back to where it was. -/

namespace Backtrack

/-- A value, or the breach of a full counter: what is not changed by another try. -/
def Ended {α : Type} (result : Except Stop α) : Prop :=
  (∃ a, result = .ok a) ∨ result = .error (.breach .counterOverflow)

/-- A read that fails, and fails once. -/
def Delivery.isFailure : Delivery → Bool
  | .failure _ => true
  | _ => false

namespace Reader

def withoutFailures (deliveries : List Delivery) : List Delivery :=
  deliveries.filter fun delivery => !delivery.isFailure

theorem upcoming_withoutFailures (deliveries : List Delivery) :
    upcoming (withoutFailures deliveries) = upcoming deliveries := by
  induction deliveries with
  | nil => rfl
  | cons delivery rest ih =>
      cases delivery with
      | interrupted => exact ih
      | failure reason => exact ih
      | bytes bytes =>
          cases bytes with
          | nil => rfl
          | cons b bytes => exact congrArg (b :: bytes ++ ·) ih

theorem failures_withoutFailures (deliveries : List Delivery) : failures (withoutFailures deliveries) = [] := by
  induction deliveries with
  | nil => rfl
  | cons delivery rest ih => cases delivery <;> exact ih

end Reader

namespace Source

variable {α : Type} {s t : Source} {journal journal' : Journal}

/-- Sources at the same place of the same text under the same window: `t` is reliable, and `s` is a source over a reader
that may fail now and then, but not for ever. -/
structure Abreast (s t : Source) : Prop where
  valid : s.Valid
  ending : s.decoder.reader.ending = .finished
  valid' : t.Valid
  reliable' : t.Reliable
  text : s.text = t.text
  cursor : s.cursor = t.cursor
  window : s.history.window = t.history.window

/-- The outcomes of one action on both sources: the same result on sources that are still `Abreast`, or a failure of the
reader of `s`, which has been used up. -/
inductive KeepsUp (s t : Source) : Outcome Source α → Outcome Source α → Prop
  | level {result : Except Stop α} {after after' : Source} {journal journal' : Journal}
      (hafter : Abreast after after') (hfailures : after.decoder.failures = s.decoder.failures)
      (hresult : Ended result) :
      KeepsUp s t ⟨result, after, journal⟩ ⟨result, after', journal'⟩
  | failed {reason : String} {after : Source} {journal : Journal} {o : Outcome Source α}
      (hfailures : s.decoder.failures = reason :: after.decoder.failures) :
      KeepsUp s t ⟨.error (.fault (.io reason)), after, journal⟩ o

namespace Abreast

theorem of_evolves {after after' : Source} (h : Abreast s t) (hevolves : s.Evolves after)
    (hevolves' : t.Evolves after') (hcursor : after.cursor = after'.cursor) : Abreast after after' := by
  have hsame := hevolves.same h.valid
  have hsame' := hevolves'.same h.valid'
  exact ⟨hsame.valid, hsame.ending.trans h.ending, hsame'.valid, hevolves'.reliable h.valid' h.reliable',
    hsame.text.trans (h.text.trans hsame'.text.symm), hcursor, hsame.window.trans (h.window.trans hsame'.window.symm)⟩

theorem takeBack (h : Abreast s t) (count : Nat) : Abreast (s.takeBack count) (t.takeBack count) :=
  h.of_evolves (.takeBack s count) (.takeBack t count) (congrArg (· - count) h.cursor)

theorem admits (h : Abreast s t) {count : Nat} : t.Admits count ↔ s.Admits count := by
  unfold Admits
  rw [h.window]

/-- What has been read before a failure is taken back. -/
theorem takeBack_of_evolves {after : Source} (h : Abreast s t) (hevolves : s.Evolves after)
    (hle : s.cursor ≤ after.cursor) : Abreast (after.takeBack (after.cursor - s.cursor)) t := by
  refine h.of_evolves (hevolves.trans (.takeBack after _)) (.refl t) ?_
  have hback : after.cursor - (after.cursor - s.cursor) = s.cursor := Nat.sub_sub_self hle
  exact hback.trans h.cursor

theorem read (h : Abreast s t) (journal journal' : Journal) :
    KeepsUp s t (s.read journal) (t.read journal') := by
  have hreads := read_reads h.valid journal
  have hevolves := s.read_evolves journal
  have hevolves' := t.read_evolves journal'
  obtain ⟨hresult', hcursor'⟩ := read_result h.valid' h.reliable' journal'
  rw [← h.cursor, ← h.text] at hresult'
  rw [← h.cursor] at hcursor'
  generalize s.read journal = o at hreads hevolves ⊢
  generalize t.read journal' = o' at hevolves' hresult' hcursor' ⊢
  obtain ⟨result, after, between⟩ := o
  obtain ⟨result', after', between'⟩ := o'
  match result with
  | .ok symbol =>
      obtain ⟨-, hfailures, rfl, hcursor, hlt⟩ := hreads
      rw [if_pos hlt] at hresult' hcursor'
      cases hresult'
      exact .level (h.of_evolves hevolves hevolves' (hcursor.trans hcursor'.symm)) hfailures (.inl ⟨_, rfl⟩)
  | .error (.fault f) =>
      obtain ⟨-, -, reason, rfl, hsurfaces⟩ := hreads
      refine .failed (hsurfaces.resolve_right fun hfailing => ?_)
      rw [h.ending] at hfailing
      cases hfailing
  | .error (.breach b) =>
      obtain ⟨rfl, hlimit, -, hfailures, hcursor⟩ := hreads
      rw [if_neg (Nat.not_lt.mpr hlimit)] at hresult' hcursor'
      cases hresult'
      exact .level (h.of_evolves hevolves hevolves' (hcursor.trans hcursor'.symm)) hfailures (.inr rfl)

theorem readAhead (h : Abreast s t) (count : Nat) (journal journal' : Journal) :
    KeepsUp s t (Source.readAhead count s journal) (Source.readAhead count t journal') := by
  induction count generalizing s t journal journal' with
  | zero => exact .level h rfl (.inl ⟨(), rfl⟩)
  | succ count ih =>
      have hread := h.read journal journal'
      rw [readAhead_succ, readAhead_succ, Action.bind, Action.bind]
      generalize s.read journal = o at hread ⊢
      generalize t.read journal' = o' at hread ⊢
      cases hread with
      | @level result mid mid' between between' hmid hfailures hresult =>
          rcases hresult with ⟨symbol, rfl⟩ | rfl
          · have hrest := ih hmid between between'
            dsimp only
            generalize Source.readAhead count mid between = o at hrest ⊢
            generalize Source.readAhead count mid' between' = o' at hrest ⊢
            cases hrest with
            | level hafter hrest hresult => exact .level hafter (hrest.trans hfailures) hresult
            | failed hrest => exact .failed (hfailures.symm.trans hrest)
          · exact .level hmid hfailures (.inr rfl)
      | failed hfailures => exact .failed hfailures

end Abreast

end Source

end Backtrack
