import Backtrack.Proofs.Stream.RoundTrip
import Backtrack.Proofs.Stream.Reached
import Backtrack.Proofs.Stream.Windows

/-! Seeking in several steps. Forward, a seek is as many single steps; back, it is one move, which leaves the line and
the column. Seeks that go back one after another retreat as one seek to the last target does, so a way back that exceeds
the window can be gone in hops. What the hops leave of the line and the column, rewinding puts right. -/

namespace Backtrack.Stream

/-- Seeks to the targets one after another. -/
def seekAll : List Nat → Action Stream Unit
  | [] => pure ()
  | target :: rest => do
    seek target
    seekAll rest

variable {s : Stream} {n count : Nat} {journal : Journal}

/-! ### Forward and back -/

/-- Steps forward one by one, `count` of them or up to the first one that stops. -/
inductive Walks : Nat → Stream → Journal → Outcome Stream Unit → Prop
  | arrived {s : Stream} {journal : Journal} : Walks 0 s journal ⟨.ok (), s, journal⟩
  | step {count : Nat} {s mid : Stream} {journal between : Journal} {o : Outcome Stream Unit}
      (hstep : advance s journal = ⟨.ok (), mid, between⟩) (hrest : Walks count mid between o) :
      Walks (count + 1) s journal o
  | stopped {count : Nat} {s mid : Stream} {journal between : Journal} {reason : Stop}
      (hstep : advance s journal = ⟨.error reason, mid, between⟩) :
      Walks (count + 1) s journal ⟨.error reason, mid, between⟩

theorem walks_times_advance (count : Nat) (s : Stream) (journal : Journal) :
    Walks count s journal (advance.times count s journal) := by
  induction count generalizing s journal with
  | zero => exact .arrived
  | succ count ih =>
      rw [Action.times, Action.bind]
      cases hstep : advance s journal with
      | mk result mid between =>
          cases result with
          | ok => exact .step hstep (ih mid between)
          | error reason => exact .stopped hstep

theorem Walks.eq_times_advance {o : Outcome Stream Unit} (h : Walks count s journal o) :
    o = advance.times count s journal := by
  induction h with
  | arrived => rfl
  | step hstep hrest ih => rw [ih, Action.times, Action.bind, hstep]
  | stopped hstep => rw [Action.times, Action.bind, hstep]

/-- A seek forward is as many steps as the target is ahead. -/
theorem walks_iff_seek (hle : s.index ≤ n) {o : Outcome Stream Unit} :
    Walks (n - s.index) s journal o ↔ o = seek n s journal := by
  rw [seek_of_le hle]
  constructor
  · exact Walks.eq_times_advance
  · rintro rfl
    exact walks_times_advance _ s journal

theorem index_of_seek (hseek : (seek n s journal).result = .ok ()) : (seek n s journal).state.index = n := by
  by_cases hlt : n < s.index
  · have hseeks := seek_seeksBack hlt journal
    generalize seek n s journal = o at hseek hseeks ⊢
    cases hseeks with
    | moved hadmits hle => rfl
    | refused hwhy hrefused => cases hseek
  · rw [seek_of_le (Nat.not_lt.mp hlt)] at hseek ⊢
    have hgoes := @times_advance_goes False _ s journal (Outcome.not_isFull_of_ok hseek)
    rw [hgoes.index hseek]
    omega

/-- A second seek to the same target finds nothing left to do. -/
theorem seek_seek (n : Nat) : (seek n >>= fun _ => seek n) = seek n := by
  funext s journal
  rw [Action.bind_apply, Action.bind]
  have hindex := @index_of_seek s n journal
  generalize seek n s journal = o at hindex ⊢
  obtain ⟨result, after, journal'⟩ := o
  cases result with
  | ok =>
      obtain rfl : after.index = n := hindex rfl
      exact seek_index after journal'
  | error reason => rfl

/-- A seek back moves the index and the cursor alone, or nothing. -/
theorem seek_back (hlt : n < s.index) (journal : Journal) :
    let o := seek n s journal
    (o.result = .ok () → o.state.position = { s.position with index := n } ∧
      o.state.source.cursor + (s.index - n) = s.source.cursor ∧ o.state.marks = s.marks) ∧
    ∀ reason, o.result = .error reason → o.state = s := by
  have hseeks := seek_seeksBack hlt journal
  dsimp only
  generalize seek n s journal = o at hseeks ⊢
  cases hseeks with
  | moved hadmits hle => exact ⟨fun _ => ⟨rfl, Nat.sub_add_cancel hle, rfl⟩, fun _ hrefused => by cases hrefused⟩
  | refused => exact ⟨fun hmoved => (by cases hmoved), fun _ _ => rfl⟩

/-- The index is where the cursor is, there is no window, and the reader does not fail. -/
structure Steady (s : Stream) : Prop where
  valid : s.source.Valid
  reliable : s.source.Reliable
  window : s.source.history.window = none
  cursor : s.source.cursor = s.index

theorem seek_of_steady (h : s.Steady) (n : Nat) (journal : Journal) :
    (seek n s journal).Answers (s.Crowded (n - s.index)) fun _ after => after.Steady ∧ after.index = n := by
  have hok : (seek n s journal).result = .ok () ∨ (seek n s journal).IsFull ∧ s.Crowded (n - s.index) := by
    by_cases hlt : n < s.index
    · have hadmits := admits_of_window_none h.window (s.index - n)
      obtain ⟨journal', hseek⟩ := seek_retreats hlt.le hadmits (by rw [h.cursor]; omega) journal
      exact .inl (congrArg Outcome.result hseek)
    · rw [seek_of_le (Nat.not_lt.mp hlt)]
      exact times_advance_of_reliable _ h.valid h.reliable journal
  rcases hok with hok | ⟨hfull, hcrowded⟩
  · have hfull := Outcome.not_isFull_of_ok hok
    obtain ⟨events, -, hrun⟩ := @seek_reaches False n s journal hfull
    have hsame := hrun.evolves.same h.valid
    have hcursor := hrun.cursor (.inl h.window)
    refine .of_not_isFull hfull ⟨(), hok, ⟨hsame.valid, hrun.evolves.reliable h.valid h.reliable,
      hsame.window.trans h.window, ?_⟩, index_of_seek hok⟩
    have hbefore := h.cursor
    omega
  · exact Outcome.ends_full hfull hcrowded

/-- Seeks one after another end at the last target. -/
theorem seekAll_of_steady (targets : List Nat) (h : s.Steady) (journal : Journal) :
    (seekAll targets s journal).Answers True fun _ after =>
      after.Steady ∧ after.index = targets.getLast?.getD s.index := by
  induction targets generalizing s journal with
  | nil => exact Outcome.answers_ok ⟨h, rfl⟩
  | cons target rest ih =>
      refine Outcome.Answers.bind ((seek_of_steady h target journal).because fun _ => trivial) ?_
      rintro _ mid between ⟨hmid, rfl⟩
      rw [List.getLast?_cons]
      exact ih hmid between

/-! ### Hops -/

/-- Each target is at most `window` symbols behind the one before it, the first one behind `index`; none lies before
`floor`, and the last one is at most `window` symbols away from it. -/
def Hops (window floor : Nat) : Nat → List Nat → Prop
  | index, [] => index ≤ floor + window
  | index, target :: rest => floor ≤ target ∧ target ≤ index ∧ index ≤ target + window ∧ Hops window floor target rest

instance decidableHops (window floor : Nat) : (index : Nat) → (targets : List Nat) →
    Decidable (Hops window floor index targets)
  | index, [] => inferInstanceAs (Decidable (index ≤ floor + window))
  | index, target :: rest =>
    have := decidableHops window floor target rest
    inferInstanceAs (Decidable (floor ≤ target ∧ target ≤ index ∧ index ≤ target + window ∧ _))

theorem exists_hops {window : Nat} (hwindow : 0 < window) {floor index : Nat} (hle : floor ≤ index) :
    ∃ targets, Hops window floor index targets := by
  induction index using Nat.strong_induction_on with
  | h index ih =>
      by_cases hnear : index ≤ floor + window
      · exact ⟨[], hnear⟩
      · obtain ⟨targets, hhops⟩ := ih (index - window) (by omega) (by omega)
        exact ⟨(index - window) :: targets, by omega, by omega, by omega, hhops⟩

variable {window floor : Nat}

/-- Hops retreat to where the last one leads. -/
theorem seekAll_of_hops {targets : List Nat} (hhops : Hops window floor s.index targets)
    (hwindow : s.source.history.window = some window) (hcursor : s.index ≤ s.source.cursor) (hfloor : floor ≤ s.index)
    (journal : Journal) :
    ∃ stop journal', seekAll targets s journal = ⟨.ok (), s.retreat stop, journal'⟩ ∧ floor ≤ stop ∧ stop ≤ s.index ∧
      stop ≤ floor + window := by
  induction targets generalizing s journal with
  | nil => exact ⟨s.index, journal, by rw [retreat_index]; rfl, hfloor, Nat.le_refl _, hhops⟩
  | cons target rest ih =>
      obtain ⟨hfloor, hle, hnear, hrest⟩ := hhops
      have hadmits : s.source.Admits (s.index - target) := by
        intro own hown
        rw [hwindow] at hown
        cases hown
        omega
      obtain ⟨between, hseek⟩ := seek_retreats hle hadmits (by omega) journal
      have hcursorBack : (s.retreat target).index ≤ (s.retreat target).source.cursor := by
        show target ≤ s.source.cursor - (s.index - target)
        omega
      obtain ⟨stop, journal', hall, hstop, hback, hnear⟩ :=
        ih (s := s.retreat target) hrest hwindow hcursorBack hfloor between
      have hstay : (s.retreat target).retreat stop = s.retreat stop := retreat_retreat hback hle
      refine ⟨stop, journal', ?_, hstop, Nat.le_trans hback hle, hnear⟩
      rw [seekAll, Action.bind_of_ok hseek, hall, hstay]

/-- Having gone some of the way back to an open mark makes no difference for where rewinding leads. -/
theorem rewindTo_of_retreat {m : Marker} {p : Position} {stop : Nat} (hmarks : s.marks.Valid)
    (hcursor : s.index ≤ s.source.cursor) (hopen : s.marks.isOpen m = true)
    (hsaved : s.marks.entries[m.depth - 1]? = some p) (hstop : p.index ≤ stop) (hle : stop ≤ s.index)
    (hadmits : s.source.Admits (stop - p.index)) (journal : Journal) :
    ∃ journal', rewindTo m (s.retreat stop) journal = ⟨.ok (), (s.retreat p.index).returnTo m p, journal'⟩ := by
  have hcursorBack : stop - p.index ≤ (s.retreat stop).source.cursor := by
    show stop - p.index ≤ s.source.cursor - (s.index - stop)
    omega
  have hback := rewindTo_of_admits (s := s.retreat stop) hmarks hopen hsaved hstop hadmits hcursorBack journal
  rwa [retreat_retreat hstop hle] at hback

/-- `rewindTo` an open mark that is farther back than the window. It is refused with `backupWindowExceeded`, and the
stream is what it was, the mark still open. There are targets in `Hops` of the window, and after `seekAll` on any such
targets `rewindTo` leads to the state to which it leads without the window. -/
theorem rewindTo_in_hops {m : Marker} {p : Position} (hmarks : s.marks.Valid) (hcursor : s.index ≤ s.source.cursor)
    (hwindow : s.source.history.window = some window) (hpos : 0 < window) (hopen : s.marks.isOpen m = true)
    (hsaved : s.marks.entries[m.depth - 1]? = some p) (hfar : p.index + window < s.index) (journal : Journal) :
    let refused := rewindTo m s journal
    let free := rewindTo m (s.withWindow none) journal
    (refused.result = .error (.fault (.backupWindowExceeded (s.index - p.index) window)) ∧ refused.state = s) ∧
    (∃ targets, Hops window p.index s.index targets) ∧
    ∀ targets, Hops window p.index s.index targets →
      let back := (seekAll targets >>= fun _ => rewindTo m) refused.state refused.journal
      back.result = .ok () ∧ free.result = .ok () ∧ back.state = free.state.withWindow (some window) := by
  intro refused free
  have hle : p.index ≤ s.index := by omega
  obtain ⟨hresult, hstay⟩ := rewindTo_beyondWindow hmarks hwindow hopen hsaved (by omega) journal
  refine ⟨⟨hresult, hstay⟩, exists_hops hpos hle, fun targets hhops => ?_⟩
  intro back
  obtain ⟨stop, between, hall, hfloor, hstop, hnear⟩ := seekAll_of_hops hhops hwindow hcursor hle refused.journal
  have hadmits : s.source.Admits (stop - p.index) := by
    intro own hown
    rw [hwindow] at hown
    cases hown
    omega
  obtain ⟨journal', hback⟩ := rewindTo_of_retreat hmarks hcursor hopen hsaved hfloor hstop hadmits between
  obtain ⟨journal'', hfree⟩ := rewindTo_of_admits (s := s.withWindow none) hmarks hopen hsaved hle
    (admits_of_window_none rfl _) (Nat.le_trans (Nat.sub_le _ _) hcursor) journal
  have hbacked : back = ⟨.ok (), (s.retreat p.index).returnTo m p, journal'⟩ := by
    show (seekAll targets >>= fun _ => rewindTo m) (rewindTo m s journal).state refused.journal = _
    rw [hstay, Action.bind_of_ok hall, hback]
  have hwithout : free = ⟨.ok (), ((s.withWindow none).retreat p.index).returnTo m p, journal''⟩ := hfree
  have hsame : (s.retreat p.index).returnTo m p =
      (((s.withWindow none).retreat p.index).returnTo m p).withWindow (some window) := by
    rw [← hwindow]
    rfl
  rw [hbacked, hwithout]
  exact ⟨rfl, rfl, hsame⟩

/-- A mark behind the first line, from which the stream has gone five symbols on under a window of two. The way back is
refused; hops of two symbols and of one lead to it, and there the line and the column are those of the mark again. -/
theorem rewindTo_in_hops_two :
    let s := (seek 2 >>= fun _ => mark >>= fun _ => seek 7)
      (ofSource (.ofText ['a', '\n', 'b', 'c', '\n', 'd', 'e'] (some 2)) "text" false) #[]
    let refused := rewindTo ⟨1⟩ s.state s.journal
    let back := (seekAll [5, 4] >>= fun _ => rewindTo ⟨1⟩) refused.state refused.journal
    refused.result = .error (.fault (.backupWindowExceeded 5 2)) ∧ back.result = .ok () ∧
      back.state.position = ⟨2, 2, 0⟩ := by
  intro s refused back
  have hfresh : (ofSource (.ofText ['a', '\n', 'b', 'c', '\n', 'd', 'e'] (some 2)) "text" false).IsFresh
      ['a', '\n', 'b', 'c', '\n', 'd', 'e'] := ⟨.inl ⟨some 2, rfl⟩, rfl, 0, rfl⟩
  have hx : Uses .free (seek 2 >>= fun _ => mark >>= fun _ => seek 7)
      (ofSource (.ofText ['a', '\n', 'b', 'c', '\n', 'd', 'e'] (some 2)) "text" false) #[] :=
    (Uses.seek 2).bind fun _ _ => Uses.mark.bind fun _ _ => .seek 7
  have hvalid : s.state.Valid ['a', '\n', 'b', 'c', '\n', 'd', 'e'] := (hx.reached hfresh trivial).valid
  have hwindow : s.state.source.history.window = some 2 := by decide +kernel
  have hopen : s.state.marks.isOpen ⟨1⟩ = true := by decide +kernel
  have hsaved : s.state.marks.entries[1 - 1]? = some ⟨2, 2, 0⟩ := by decide +kernel
  have hindex : s.state.index = 7 := by decide +kernel
  have hfar : 2 + 2 < s.state.index := by rw [hindex]; decide
  have hhops := rewindTo_in_hops hvalid.marks hvalid.ahead hwindow (by decide) hopen hsaved hfar s.journal
  rw [hindex] at hhops
  obtain ⟨⟨hrefused, -⟩, -, hhopped⟩ := hhops
  have hposition : back.state.position = ⟨2, 2, 0⟩ := by decide +kernel
  exact ⟨hrefused, (hhopped [5, 4] (by decide)).1, hposition⟩

end Backtrack.Stream
