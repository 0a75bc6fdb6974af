import Backtrack.Proofs.Stream.Uses

/-! What the operations of a stream are made of. All but looking ahead are put together of a few parts, none of which
tells whether letters are folded, and looking ahead is but for its answer; so what holds of the parts, and of actions
one after another when it holds of each, holds of the operations. -/

namespace Backtrack

theorem Action.attempt_eq_capture {σ α : Type} (x : Action σ α) :
    x.attempt = x.capture >>= fun
      | .ok a => pure (.ok a)
      | .error (.fault f) => pure (.error f)
      | .error (.breach b) => stop (.breach b) := by
  funext s journal
  rw [bind_apply, Action.bind, attempt, Action.capture]
  generalize x s journal = o
  obtain ⟨result, s', journal'⟩ := o
  cases result with
  | ok a => rfl
  | error reason => cases reason <;> rfl

namespace Stream

/-- Actions that are put together of reads and backups of the source, of what is done to the marks and to the position,
of looks at these, and of reports. -/
inductive Composed : {α : Type} → Action Stream α → Prop
  | read : Composed (onSource Source.read)
  | backup (count : Nat) : Composed (onSource (Source.backup count))
  | onMarks {α : Type} {x : Action MarkStack α}
      (h : ∀ marks journal, x marks journal = ⟨(x marks #[]).result, (x marks #[]).state, journal⟩) :
      Composed (onMarks x)
  | pass (symbol : Symbol) : Composed (pass symbol)
  | setPosition (f : Position → Position) :
      Composed (Action.modify fun s => { s with position := f s.position })
  | look {α : Type} (f : Position → MarkStack → α) : Composed (query fun s => f s.position s.marks)
  | emit (e : Event) : Composed (Action.emit e)
  | pure {α : Type} (a : α) : Composed (Pure.pure a)
  | stop {α : Type} (reason : Stop) : Composed (Action.stop reason : Action Stream α)
  | bind {α β : Type} {x : Action Stream α} {f : α → Action Stream β} (hx : Composed x)
      (hf : ∀ a, Composed (f a)) : Composed (x >>= f)
  | capture {α : Type} {x : Action Stream α} (hx : Composed x) : Composed x.capture

namespace Composed

theorem attempt {α : Type} {x : Action Stream α} (hx : Composed x) : Composed x.attempt := by
  rw [Action.attempt_eq_capture]
  apply hx.capture.bind
  intro result
  match result with
  | .ok a => exact .pure _
  | .error (.fault f) => exact .pure _
  | .error (.breach b) => exact .stop _

theorem advance : Composed advance :=
  Composed.read.bind fun symbol => .pass symbol

theorem times_advance (count : Nat) : Composed (Stream.advance.times count) := by
  induction count with
  | zero => exact .pure ()
  | succ count ih => exact advance.bind fun _ => ih

theorem readOn (done : Nat) (last : Symbol) (count : Nat) : Composed (readOn done last count) := by
  induction count generalizing done last with
  | zero => exact .pure last
  | succ count ih =>
      apply Composed.read.attempt.bind
      intro result
      cases result with
      | ok symbol => exact ih (done + 1) symbol
      | error f => exact (Composed.backup done).attempt.bind fun _ => .stop _

theorem seek (target : Nat) : Composed (seek target) := by
  apply (Composed.look fun p _ => p.index).bind
  intro here
  by_cases hlt : target < here
  · rw [if_pos hlt]
    apply (Composed.emit _).bind
    intro _
    exact (Composed.backup _).bind fun _ => .setPosition fun p => { p with index := target }
  · rw [if_neg hlt]
    exact times_advance _

theorem mark : Composed mark := by
  apply (Composed.look fun p _ => p).bind
  intro here
  refine Composed.bind (.onMarks fun marks journal => ?_) fun m => (Composed.emit _).bind fun _ => .pure m
  unfold MarkStack.push
  dsimp only
  split_ifs <;> rfl

theorem release (m : Marker) : Composed (release m) := by
  refine (Composed.emit _).bind fun _ => .onMarks fun marks journal => ?_
  unfold MarkStack.release
  split_ifs <;> rfl

theorem rewindTo (m : Marker) : Composed (rewindTo m) := by
  have hsaved : Composed (saved m) := by
    refine .onMarks fun marks journal => ?_
    unfold MarkStack.get
    split_ifs
    · split <;> rfl
    · rfl
  apply hsaved.bind
  intro target
  apply (Composed.look fun p _ => p).bind
  intro here
  apply (Composed.emit _).bind
  intro _
  apply (seek target.index).bind
  intro _
  apply (Composed.setPosition fun p => { p with line := target.line }).bind
  intro _
  exact (Composed.setPosition fun p => { p with column := target.column }).bind fun _ => release m

theorem rewind : Composed rewind :=
  (Composed.look fun _ marks => marks.lastOpened).bind rewindTo

end Composed

end Stream

end Backtrack
