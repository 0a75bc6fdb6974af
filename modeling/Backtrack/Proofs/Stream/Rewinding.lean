import Backtrack.Proofs.Marks.Latest
import Backtrack.Proofs.Stream.Attempts
import Backtrack.Proofs.Stream.Course
import Backtrack.Proofs.Stream.Programs

/-! Rewinding without naming a mark. It goes by the mark that was opened last, wherever that may be by now. Closing
a mark leaves the stack less deep than that one, and it can only get as deep again by opening a mark, which is then
the last itself. So what is rewound to is the innermost mark and the latest one at that, or nothing. -/

namespace Backtrack.Stream

variable {α β : Type} {s created after : Stream} {start journal journal' : Journal}

theorem rewind_eq (s : Stream) (journal : Journal) : rewind s journal = rewindTo s.marks.lastOpened s journal :=
  rfl

theorem rewind_of_depth_lt (h : s.marks.depth < s.marks.last) (journal : Journal) :
    rewind s journal = ⟨.error (.breach (.markNotOpen s.marks.last s.marks.depth)), s, journal⟩ :=
  rewindTo_of_not_isOpen (MarkStack.not_isOpen_lastOpened h) journal

theorem saved_of_getLast? (hvalid : s.marks.Valid) (hpos : 1 ≤ s.marks.depth) {p : Position}
    (hp : s.marks.entries.getLast? = some p) (journal : Journal) :
    saved ⟨s.marks.depth⟩ s journal = ⟨.ok p, s, journal⟩ := by
  have hopen : s.marks.isOpen ⟨s.marks.depth⟩ = true := MarkStack.isOpen_iff.mpr ⟨hpos, Nat.le_refl _⟩
  obtain ⟨q, hq, hget⟩ := MarkStack.get_of_isOpen hvalid hopen journal
  rw [MarkStack.getElem?_entries_of_getLast? hvalid hp, Option.some.injEq] at hq
  rw [saved, onMarks_eq, hget, hq]

/-! ### What is known of the mark that was opened last -/

theorem Event.opened?_of_isReading {e : Event} (h : e.isReading = true) : e.opened? = none := by
  cases e <;> first | rfl | cases h

/-- What a stride does to the marks: it opens one and records it, or it records none and at most closes one. -/
theorem Stride.records (h : Stride s journal after journal') :
    ∃ more, journal'.toList = journal.toList ++ more ∧
      ((∃ m, more = [.marked m s.position] ∧
          MarkStack.push s.position s.marks journal = ⟨.ok m, after.marks, journal⟩) ∨
        (∀ e ∈ more, e.opened? = none) ∧
          (after.marks = s.marks ∨ ∃ m, s.marks.isOpen m = true ∧ after.marks = s.marks.close m)) := by
  cases h with
  | read =>
      obtain ⟨more, hmore, hreading⟩ := s.source.read_extends journal
      exact ⟨more, hmore, .inr ⟨fun e he => Event.opened?_of_isReading (hreading e he), .inl rfl⟩⟩
  | takeBack count => exact ⟨[], by simp, .inr ⟨by simp, .inl rfl⟩⟩
  | place p => exact ⟨[], by simp, .inr ⟨by simp, .inl rfl⟩⟩
  | @mark m marks hpush => exact ⟨[.marked m s.position], by simp, .inl ⟨m, rfl, hpush⟩⟩
  | @close m hopen => exact ⟨[], by simp, .inr ⟨by simp, .inr ⟨m, hopen, rfl⟩⟩⟩
  | @remark e he =>
      have hnone : e.opened? = none := by cases e <;> first | rfl | cases he
      exact ⟨[e], by simp, .inr ⟨by simpa using hnone, .inl rfl⟩⟩

/-- The marks remember what has been recorded since the journal `start`. -/
def Recalls (start : Journal) (s : Stream) (journal : Journal) : Prop :=
  ∃ events, journal.toList = start.toList ++ events ∧ s.marks.Remembers (Journal.latest events)

theorem Recalls.valid (h : Recalls start s journal) : s.marks.Valid := by
  obtain ⟨_, -, hmarks⟩ := h
  exact hmarks.valid

theorem Recalls.depth_le (h : Recalls start s journal) : s.marks.depth ≤ s.marks.last := by
  obtain ⟨_, -, hmarks⟩ := h
  exact hmarks.depth_le

theorem Recalls.of_stride (h : Recalls start s journal) (hstride : Stride s journal after journal') :
    Recalls start after journal' := by
  obtain ⟨events, hevents, hmarks⟩ := h
  obtain ⟨more, hmore, ⟨m, rfl, hpush⟩ | ⟨hnone, hafter⟩⟩ := hstride.records
  · refine ⟨events ++ [.marked m s.position], by simp [hmore, hevents], ?_⟩
    rw [Journal.latest_append_marked]
    exact .push hmarks.valid hpush
  · refine ⟨events ++ more, by simp [hmore, hevents], ?_⟩
    rw [Journal.latest_append_of_none hnone]
    rcases hafter with hsame | ⟨m, hopen, hclosed⟩
    · rwa [hsame]
    · rw [hclosed]
      exact hmarks.close hopen

theorem Recalls.of_course (h : Recalls start s journal) (hcourse : Course s journal after journal') :
    Recalls start after journal' := by
  induction hcourse with
  | refl => exact h
  | stride _ hstride ih => exact ih.of_stride hstride

/-- A program recalls what it has opened, if it has begun without marks. -/
theorem Uses.recalls {x : Action Stream α} (hx : Uses .free x created start) {capacity : Nat}
    (hmarks : created.marks = .withCapacity capacity) :
    Recalls start (x created start).state (x created start).journal := by
  have hremembers : created.marks.Remembers none := hmarks ▸ MarkStack.remembers_withCapacity capacity
  exact Recalls.of_course ⟨[], by simp, hremembers⟩ (hx.course hremembers.valid)

/-! ### Where a mark has been closed -/

/-- The stack is less deep than the mark that was opened last, unless one has been opened since the journal
`start`. -/
def Lowered (start : Journal) (s : Stream) (journal : Journal) : Prop :=
  ∃ events, journal.toList = start.toList ++ events ∧
    (Journal.latest events = none → s.marks.depth < s.marks.last)

theorem Lowered.of_stride (h : Lowered start s journal) (hstride : Stride s journal after journal') :
    Lowered start after journal' := by
  obtain ⟨events, hevents, hlowered⟩ := h
  obtain ⟨more, hmore, ⟨m, rfl, -⟩ | ⟨hnone, hafter⟩⟩ := hstride.records
  · refine ⟨events ++ [.marked m s.position], by simp [hmore, hevents], fun hlatest => ?_⟩
    rw [Journal.latest_append_marked] at hlatest
    cases hlatest
  · refine ⟨events ++ more, by simp [hmore, hevents], fun hlatest => ?_⟩
    rw [Journal.latest_append_of_none hnone] at hlatest
    have hdepth := hlowered hlatest
    rcases hafter with hsame | ⟨m, hopen, hclosed⟩
    · rwa [hsame]
    · obtain ⟨-, hle⟩ := MarkStack.isOpen_iff.mp hopen
      rw [hclosed]
      exact Nat.lt_of_le_of_lt ((Nat.sub_le _ _).trans hle) hdepth

theorem Lowered.of_course (h : Lowered start s journal) (hcourse : Course s journal after journal') :
    Lowered start after journal' := by
  induction hcourse with
  | refl => exact h
  | stride _ hstride ih => exact ih.of_stride hstride

/-- The action has ended at a breach, or where the stack is less deep than the mark that was opened last. -/
def Lowers (o : Outcome Stream α) : Prop :=
  (∀ b, o.result ≠ .error (.breach b)) → o.state.marks.depth < o.state.marks.last

variable {m : Marker}

theorem lowers_breach {b : Breach} : Lowers (⟨.error (.breach b), s, journal⟩ : Outcome Stream α) :=
  fun hcalm => absurd rfl (hcalm b)

theorem lowers_release (hle : s.marks.depth ≤ s.marks.last) {x : Action Stream α}
    (hx : ∀ t between, (x t between).state = t) : Lowers ((release m >>= fun _ => x) s journal) := by
  by_cases hopen : s.marks.isOpen m = true
  · rw [Action.bind_of_ok (release_of_isOpen hopen journal)]
    intro _
    rw [hx]
    exact MarkStack.depth_close_lt hle hopen
  · rw [Action.bind_of_error (release_of_not_isOpen hopen journal)]
    exact lowers_breach

theorem depth_lt_of_rewindTo (hvalid : s.marks.Valid) (hle : s.marks.depth ≤ s.marks.last)
    (h : (rewindTo m s journal).result = .ok ()) :
    (rewindTo m s journal).state.marks.depth < (rewindTo m s journal).state.marks.last := by
  have hrewinds := @rewindTo_rewinds False s hvalid m journal (Outcome.not_isFull_of_ok h)
  obtain ⟨hopen, -, hmarks, -⟩ := hrewinds.returned h
  rw [hmarks]
  exact MarkStack.depth_close_lt hle hopen

/-- Whichever way an attempt ends, it has closed a mark last. -/
theorem lowers_speculate {body : Action Stream (Option α)} (h : Recalls start s journal)
    (hbody : Uses .free body (mark s journal).state (mark s journal).journal) :
    Lowers (speculate body s journal) := by
  obtain ⟨marks, hmark, -⟩ := mark_of_valid h.valid journal
  have hmark' : Uses .free mark s journal := .mark
  have hmarked := h.of_course (hmark'.course h.valid)
  have htried := hmarked.of_course (hbody.course hmarked.valid)
  rw [hmark] at htried
  rw [speculate, Action.bind_of_ok (x := HasStream.onStream mark) hmark, Action.bind_apply, Action.bind,
    Action.attempt]
  generalize body _ _ = o at htried ⊢
  obtain ⟨result, tried, tail⟩ := o
  cases result with
  | error stop =>
      cases stop with
      | fault f => exact lowers_release htried.depth_le fun _ _ => rfl
      | breach b => exact lowers_breach
  | ok answer =>
      cases answer with
      | some a => exact lowers_release htried.depth_le fun _ _ => rfl
      | none =>
          -- a way back that succeeds has closed the mark, one that fails leaves it to a release
          have hback : (rewindTo ⟨s.marks.depth + 1⟩ tried tail).result = .ok () → _ :=
            depth_lt_of_rewindTo htried.valid htried.depth_le
          dsimp only
          rw [Action.bind_apply, Action.bind, Action.attempt]
          generalize hrewind : HasStream.onStream (rewindTo ⟨s.marks.depth + 1⟩) tried tail = o
          rw [show rewindTo ⟨s.marks.depth + 1⟩ tried tail = o from hrewind] at hback
          obtain ⟨result, back, rest⟩ := o
          cases result with
          | ok => exact fun _ => hback rfl
          | error stop =>
              cases stop with
              | fault f =>
                  have hsame := (rewindTo_of_fault htried.valid hrewind).1
                  exact lowers_release (hsame ▸ htried.depth_le) fun _ _ => rfl
              | breach b => exact lowers_breach

theorem Lowers.map {x : Action Stream α} (h : Lowers (x s journal)) (f : α → β) : Lowers ((f <$> x) s journal) := by
  show Lowers (Action.bind x (fun a => Action.pure (f a)) s journal)
  unfold Action.bind
  generalize x s journal = o at h ⊢
  obtain ⟨result, mid, between⟩ := o
  cases result with
  | ok a => exact fun _ => h fun b hb => by cases hb
  | error stop => exact fun hcalm => h fun b hb => hcalm b (by cases hb; rfl)

namespace Uses

theorem consume_free (word : List Char) (s : Stream) (journal : Journal) :
    Uses .free (Stream.consume word) s journal := by
  induction word generalizing s journal with
  | nil => exact .pure _
  | cons c word ih =>
      have hlook : Uses .free (Stream.lookahead 1) s journal := .lookahead trivial
      refine hlook.bind fun symbol _ => ?_
      split
      · exact Uses.advance.bind fun _ _ => ih _ _
      · exact .pure none

theorem speculate_free {body : Action Stream (Option α)}
    (hbody : Uses .free body (Stream.mark s journal).state (Stream.mark s journal).journal) :
    Uses .free (Stream.speculate body) s journal := by
  refine Uses.mark.bind fun m _ => hbody.attempt.bind fun result _ => ?_
  match result with
  | .ok (some a) => exact (Uses.release m).bind fun _ _ => .pure _
  | .ok none =>
      refine (Uses.rewindTo m).attempt.bind fun back _ => ?_
      cases back with
      | ok => exact .pure none
      | error f => exact (Uses.release m).bind fun _ _ => .stop trivial
  | .error f => exact (Uses.release m).bind fun _ _ => .stop trivial

end Uses

/-- The operations that have closed a mark where they end without a breach. What is tried in an attempt may be any
program. -/
inductive Closes (s : Stream) (journal : Journal) : {β : Type} → Action Stream β → Prop
  | release (m : Marker) (h : (release m s journal).result = .ok ()) : Closes s journal (release m)
  | rewindTo (m : Marker) (h : (rewindTo m s journal).result = .ok ()) : Closes s journal (rewindTo m)
  | rewind (h : (rewind s journal).result = .ok ()) : Closes s journal rewind
  | speculate {β : Type} {body : Action Stream (Option β)}
      (hbody : Uses .free body (mark s journal).state (mark s journal).journal)
      (h : ∀ b, (speculate body s journal).result ≠ .error (.breach b)) : Closes s journal (speculate body)
  | matchesText (word : List Char) (h : ∀ b, (matchesText word s journal).result ≠ .error (.breach b)) :
      Closes s journal (matchesText word)

theorem Closes.depth_lt {x : Action Stream β} (hx : Closes s journal x) (h : Recalls start s journal) :
    (x s journal).state.marks.depth < (x s journal).state.marks.last := by
  cases hx with
  | release m hok =>
      by_cases hopen : s.marks.isOpen m = true
      · rw [release_of_isOpen hopen]
        exact MarkStack.depth_close_lt h.depth_le hopen
      · rw [release_of_not_isOpen hopen] at hok
        cases hok
  | rewindTo m hok => exact depth_lt_of_rewindTo h.valid h.depth_le hok
  | rewind hok => exact depth_lt_of_rewindTo h.valid h.depth_le hok
  | speculate hbody hcalm => exact lowers_speculate h hbody hcalm
  | matchesText word hcalm => exact ((lowers_speculate h (.consume_free word _ _)).map Option.isSome) hcalm

theorem Closes.uses {x : Action Stream β} (hx : Closes s journal x) : Uses .free x s journal := by
  cases hx with
  | release m => exact .release m
  | rewindTo m => exact .rewindTo m
  | rewind => exact .rewind
  | speculate hbody => exact .speculate_free hbody
  | matchesText word => exact Uses.map (.speculate_free (.consume_free word _ _)) Option.isSome

/-- `rewind` goes to the innermost open mark, or it panics and nothing has changed. On a stack of marks alone, and on a
stream that any program has reached, `lastOpened` is not less deep than the stack; so it is open if and only if it is as
deep as the stack and the stack is not empty. Then `rewind` is `rewindTo` the innermost open mark, which is the `latest`
in the journal, with the position that it has saved. Otherwise `rewind` is the breach `markNotOpen`. After an action
that `Closes` a mark it is that breach, whatever a program does, until the next mark is opened. -/
theorem rewind_innermost {x : Action Stream α} (capacity : Nat) (hmarks : created.marks = .withCapacity capacity)
    (hx : Uses .free x created start) :
    let s := (x created start).state
    let journal := (x created start).journal
    let innermost := s.marks.lastOpened.depth = s.marks.depth ∧ 1 ≤ s.marks.depth
    (∀ handles commands,
        let stack := (MarkStack.Workbench.after ⟨.withCapacity capacity, handles⟩ commands).stack
        stack.depth ≤ stack.lastOpened.depth ∧
          (stack.isOpen stack.lastOpened = true ↔ stack.lastOpened.depth = stack.depth ∧ 1 ≤ stack.depth)) ∧
      s.marks.depth ≤ s.marks.lastOpened.depth ∧ (s.marks.isOpen s.marks.lastOpened = true ↔ innermost) ∧
      (innermost → rewind s journal = rewindTo ⟨s.marks.depth⟩ s journal ∧
        ∃ p, saved ⟨s.marks.depth⟩ s journal = ⟨.ok p, s, journal⟩ ∧
          Journal.latest (Journal.since start journal) = some (⟨s.marks.depth⟩, p)) ∧
      (¬innermost → rewind s journal =
        ⟨.error (.breach (.markNotOpen s.marks.lastOpened.depth s.marks.depth)), s, journal⟩) ∧
      ∀ {β γ : Type} (y : Action Stream β) (z : Action Stream γ), Closes s journal y →
        let closed := y s journal
        let o := z closed.state closed.journal
        Uses .free z closed.state closed.journal → Journal.latest (Journal.since closed.journal o.journal) = none →
          rewind o.state o.journal = ⟨.error (.breach
            (.markNotOpen o.state.marks.lastOpened.depth o.state.marks.depth)), o.state, o.journal⟩ := by
  intro s journal innermost
  have hrecalls : Recalls start s journal := hx.recalls hmarks
  have hopen : s.marks.isOpen s.marks.lastOpened = true ↔ innermost :=
    MarkStack.isOpen_lastOpened_iff hrecalls.depth_le
  refine ⟨fun handles commands => ?_, hrecalls.depth_le, hopen, fun hinner => ?_, fun hinner => ?_,
    ?_⟩
  · have hle := MarkStack.depth_after_le capacity handles commands
    exact ⟨hle, MarkStack.isOpen_lastOpened_iff hle⟩
  · obtain ⟨events, hevents, hremembers⟩ := hrecalls
    obtain ⟨p, hlatest, hp⟩ := hremembers.innermost hinner.1 hinner.2
    refine ⟨?_, p, saved_of_getLast? hremembers.valid hinner.2 hp journal, ?_⟩
    · rw [rewind_eq, ← hinner.1]
    · rw [Journal.since_eq_of_append hevents, hlatest]
  · exact rewindTo_of_not_isOpen (fun h => hinner (hopen.mp h)) journal
  · intro β γ y z hy closed o hz hnone
    have hclosed : Recalls start closed.state closed.journal := hrecalls.of_course (hy.uses.course hrecalls.valid)
    have hlowered : Lowered closed.journal closed.state closed.journal :=
      ⟨[], by simp, fun _ => hy.depth_lt hrecalls⟩
    obtain ⟨events, hevents, hlt⟩ := hlowered.of_course (hz.course hclosed.valid)
    rw [Journal.since_eq_of_append hevents] at hnone
    exact rewind_of_depth_lt (hlt hnone) _

/-- Two marks are opened and the inner one is rewound to. The outer one is still open, but once another symbol has
been passed rewinding panics. -/
theorem rewind_innermost_nested :
    let created := ofSource (.ofText ['a', 'b', 'c'] none) "text" false
    let opening := mark >>= fun _ => advance >>= fun _ => mark >>= fun _ => advance
    let s := (opening created #[]).state
    let journal := (opening created #[]).journal
    let closed := rewind s journal
    let o := advance closed.state closed.journal
    rewind s journal = rewindTo ⟨2⟩ s journal ∧ closed.state.position = ⟨1, 1, 1⟩ ∧
      o.state.marks.isOpen ⟨1⟩ = true ∧
      rewind o.state o.journal = ⟨.error (.breach (.markNotOpen 2 1)), o.state, o.journal⟩ := by
  intro created opening s journal closed o
  have hopening : Uses .free opening created #[] :=
    Uses.mark.bind fun _ _ => Uses.advance.bind fun _ _ => Uses.mark.bind fun _ _ => .advance
  obtain ⟨-, -, -, hinnermost, -, hclosed⟩ := rewind_innermost 0 rfl hopening
  refine ⟨(hinnermost (by decide +kernel)).1, by decide +kernel, by decide +kernel, ?_⟩
  exact hclosed rewind advance (.rewind (by decide +kernel)) .advance (by decide +kernel)

end Backtrack.Stream
