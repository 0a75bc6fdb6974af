import Backtrack.Proofs.Stream.Operations
import Backtrack.Proofs.Stream.Parts

/-! Courses of a stream. Whatever is done to a stream comes down to a few kinds of strides, and an operation that
breaks off, be it at a full counter, has made some of them. So what every stride keeps holds wherever a program
ends. -/

namespace Backtrack

/-- The event neither records a mark nor warns of bytes. -/
def Event.isRemark : Event → Bool
  | .marked .. | .invalidLead .. | .illFormed .. | .incomplete .. => false
  | _ => true

namespace Stream

/-- One stride of a stream, and the journal behind it. -/
inductive Stride (s : Stream) (journal : Journal) : Stream → Journal → Prop
  /-- The source is read, whatever comes of it. -/
  | read : Stride s journal { s with source := (s.source.read journal).state } (s.source.read journal).journal
  | takeBack (count : Nat) : Stride s journal { s with source := s.source.takeBack count } journal
  | place (p : Position) : Stride s journal { s with position := p } journal
  | mark {m : Marker} {marks : MarkStack}
      (hpush : MarkStack.push s.position s.marks journal = ⟨.ok m, marks, journal⟩) :
      Stride s journal { s with marks := marks } (journal.push (.marked m s.position))
  | close {m : Marker} (hopen : s.marks.isOpen m = true) :
      Stride s journal { s with marks := s.marks.close m } journal
  | remark {e : Event} (h : e.isRemark = true) : Stride s journal s (journal.push e)

/-- Strides one after another. -/
inductive Course (s : Stream) (journal : Journal) : Stream → Journal → Prop
  | refl : Course s journal s journal
  | stride {mid after : Stream} {between journal' : Journal} (h : Course s journal mid between)
      (hstride : Stride mid between after journal') : Course s journal after journal'

variable {α β : Type} {s mid after : Stream} {journal between journal' : Journal}

theorem Stride.course (h : Stride s journal after journal') : Course s journal after journal' :=
  Course.stride .refl h

theorem Stride.valid (h : Stride s journal after journal') (hvalid : s.marks.Valid) : after.marks.Valid := by
  cases h with
  | @mark m marks hpush =>
      obtain ⟨marks', hpush', hmarks, -⟩ := MarkStack.push_of_valid hvalid s.position journal
      rw [hpush] at hpush'
      cases hpush'
      exact hmarks
  | close hopen => exact hvalid.close hopen
  | _ => exact hvalid

namespace Course

theorem trans (h : Course s journal mid between) (h' : Course mid between after journal') :
    Course s journal after journal' := by
  induction h' with
  | refl => exact h
  | stride _ hstride ih => exact ih.stride hstride

theorem valid (h : Course s journal after journal') (hvalid : s.marks.Valid) : after.marks.Valid := by
  induction h with
  | refl => exact hvalid
  | stride _ hstride ih => exact hstride.valid ih

/-- One action after another follows the course of the first one, and goes on where that has answered. -/
theorem bind {x : Action Stream α} {f : α → Action Stream β}
    (hx : Course s journal (x s journal).state (x s journal).journal)
    (hf : ∀ a, (x s journal).result = .ok a →
      Course (x s journal).state (x s journal).journal (f a (x s journal).state (x s journal).journal).state
        (f a (x s journal).state (x s journal).journal).journal) :
    Course s journal ((x >>= f) s journal).state ((x >>= f) s journal).journal := by
  rw [Action.bind_apply, Action.bind]
  generalize x s journal = o at hx hf ⊢
  obtain ⟨result, mid, between⟩ := o
  cases result with
  | ok a => exact hx.trans (hf a rfl)
  | error stop => exact hx

theorem attempt {x : Action Stream α} (hx : Course s journal (x s journal).state (x s journal).journal) :
    Course s journal (x.attempt s journal).state (x.attempt s journal).journal := by
  unfold Action.attempt
  generalize x s journal = o at hx ⊢
  split <;> exact hx

end Course

/-- Whatever the action does is a course. -/
def Courses (x : Action Stream α) : Prop :=
  ∀ s journal, s.marks.Valid → Course s journal (x s journal).state (x s journal).journal

namespace Courses

theorem bind {x : Action Stream α} {f : α → Action Stream β} (hx : Courses x) (hf : ∀ a, Courses (f a)) :
    Courses (x >>= f) :=
  fun s journal hvalid => (hx s journal hvalid).bind fun a _ => hf a _ _ ((hx s journal hvalid).valid hvalid)

theorem attempt {x : Action Stream α} (hx : Courses x) : Courses x.attempt :=
  fun s journal hvalid => (hx s journal hvalid).attempt

theorem pure (a : α) : Courses (Pure.pure a : Action Stream α) :=
  fun _ _ _ => .refl

theorem stop (reason : Stop) : Courses (Action.stop reason : Action Stream α) :=
  fun _ _ _ => .refl

theorem query (f : Stream → α) : Courses (query f) :=
  fun _ _ _ => .refl

theorem emit {e : Event} (h : e.isRemark = true) : Courses (Action.emit e : Action Stream Unit) :=
  fun _ _ _ => (Stride.remark h).course

theorem place (f : Position → Position) :
    Courses (Action.modify fun s => { s with position := f s.position } : Action Stream Unit) :=
  fun s _ _ => (Stride.place (f s.position)).course

theorem read : Courses (onSource Source.read) :=
  fun _ _ _ => Stride.read.course

theorem backup (count : Nat) : Courses (onSource (Source.backup count)) := by
  intro s journal _
  have htakes := s.source.backup_takesBack count journal
  rw [onSource_eq]
  generalize Source.backup count s.source journal = o at htakes ⊢
  cases htakes with
  | taken => exact (Stride.takeBack count).course
  | beyondWindow => exact (Stride.remark rfl).course
  | beforeStart => exact (Stride.remark rfl).course

theorem pass (symbol : Symbol) : Courses (pass symbol) := by
  intro s journal _
  rw [pass_eq]
  exact (Stride.place _).course

theorem advance : Courses advance :=
  read.bind pass

theorem times {x : Action Stream Unit} (hx : Courses x) (count : Nat) : Courses (x.times count) := by
  induction count with
  | zero => exact .pure ()
  | succ count ih => exact hx.bind fun _ => ih

theorem readOn (done : Nat) (last : Symbol) (count : Nat) : Courses (readOn done last count) := by
  induction count generalizing done last with
  | zero => exact .pure last
  | succ count ih =>
      refine read.attempt.bind fun result => ?_
      cases result with
      | ok symbol => exact ih (done + 1) symbol
      | error f => exact (backup done).attempt.bind fun _ => .stop _

theorem lookahead (i : Nat) : Courses (lookahead i) := by
  unfold Stream.lookahead
  split
  · exact .pure none
  · exact (readOn 0 .eof i).bind fun _ => (backup i).bind fun _ => (query _).bind fun _ => .pure _

theorem seek (target : Nat) : Courses (seek target) := by
  refine (query index).bind fun here => ?_
  split
  · exact (emit rfl).bind fun _ => (backup _).bind fun _ => place fun p => { p with index := target }
  · exact advance.times _

theorem mark : Courses mark := by
  intro s journal hvalid
  obtain ⟨marks, hpush, -⟩ := MarkStack.push_of_valid hvalid s.position journal
  rw [mark_of_push hpush]
  exact (Stride.mark hpush).course

theorem release (m : Marker) : Courses (release m) := by
  refine (emit rfl).bind fun _ s journal _ => ?_
  rw [onMarks_eq]
  by_cases hopen : s.marks.isOpen m = true
  · rw [MarkStack.release_of_isOpen hopen]
    exact (Stride.close hopen).course
  · rw [MarkStack.release_of_not_isOpen hopen]
    exact .refl

theorem saved (m : Marker) : Courses (saved m) := by
  intro s journal hvalid
  rw [Stream.saved, onMarks_eq]
  by_cases hopen : s.marks.isOpen m = true
  · obtain ⟨p, -, hget⟩ := MarkStack.get_of_isOpen hvalid hopen journal
    rw [hget]
    exact .refl
  · rw [MarkStack.get_of_not_isOpen hopen]
    exact .refl

theorem rewindTo (m : Marker) : Courses (rewindTo m) :=
  (saved m).bind fun p => (query position).bind fun _ => (emit rfl).bind fun _ => (seek p.index).bind fun _ =>
    (place fun q => { q with line := p.line }).bind fun _ =>
      (place fun q => { q with column := p.column }).bind fun _ => release m

theorem substring (start stop : Nat) : Courses (substring start stop) := by
  intro s journal _
  rw [substring_eq]
  exact .refl

end Courses

/-- Whatever a program does is a course, wherever it ends. -/
theorem Uses.course {terms : Terms} {x : Action Stream α} (hx : Uses terms x s journal) (hvalid : s.marks.Valid) :
    Course s journal (x s journal).state (x s journal).journal := by
  induction hx with
  | advance => exact Courses.advance _ _ hvalid
  | lookahead => exact Courses.lookahead _ _ _ hvalid
  | seek target => exact Courses.seek target _ _ hvalid
  | setLine line => exact Courses.place (fun p => { p with line := line }) _ _ hvalid
  | setColumn column => exact Courses.place (fun p => { p with column := column }) _ _ hvalid
  | mark => exact Courses.mark _ _ hvalid
  | release m => exact Courses.release m _ _ hvalid
  | rewindTo m => exact Courses.rewindTo m _ _ hvalid
  | substring => exact Courses.substring _ _ _ _ hvalid
  | query | pure | stop => exact .refl
  | @report s journal e h =>
      have hremark : e.isRemark = true := by cases e <;> first | rfl | cases h
      exact (Stride.remark hremark).course
  | bind hx hf ihx ihf => exact (ihx hvalid).bind fun a ha => ihf a ha ((ihx hvalid).valid hvalid)
  | attempt hx ih => exact (ih hvalid).attempt
  | capture hx h ih => exact ih hvalid

end Stream

end Backtrack
