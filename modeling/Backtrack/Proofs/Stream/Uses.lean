import Backtrack.Search
import Backtrack.Proofs.Source.Ahead
import Backtrack.Proofs.Action

/-! Programs that use a stream. A program knows of the stream what its operations answer and what it shows
between them; it may do whatever it likes with that, go on after any stop, and try things in attempts. What
it may ask for is a matter of terms, which can depend on where the stream stands when it asks. Of the source
it sees no more than the cursor, so it can be carried out on two streams alike that have different ones. -/

namespace Backtrack

/-- Turns every stop into an answer, so that the caller can go on. -/
def Action.capture {σ α : Type} (x : Action σ α) : Action σ (Except Stop α) := fun s journal =>
  ⟨.ok (x s journal).result, (x s journal).state, (x s journal).journal⟩

namespace Stream

/-- What a stream shows between two operations. -/
structure Face where
  name : String
  position : Position
  marks : MarkStack
  caseFold : Bool
  cursor : Nat

def face (s : Stream) : Face :=
  ⟨s.name, s.position, s.marks, s.caseFold, s.source.cursor⟩

/-- What a program may do, and where: look ahead so far, get a range of the text, stop of its own accord, and
go on after any stop, which outside of attempts includes breaches. -/
structure Terms where
  lookahead : Stream → Journal → Nat → Prop
  substring : Stream → Nat → Nat → Prop
  stop : Stop → Prop
  resume : Stream → Prop

/-- Everything is allowed. -/
def Terms.free : Terms :=
  ⟨fun _ _ _ => True, fun _ _ _ => True, fun _ => True, fun _ => True⟩

/-- The programs that use a stream through its operations, each with a state and a journal from which it
is carried out on the given terms. -/
inductive Uses (terms : Terms) : {α : Type} → Action Stream α → Stream → Journal → Prop
  | advance {s : Stream} {journal : Journal} : Uses terms advance s journal
  | lookahead {s : Stream} {journal : Journal} {i : Nat} (h : terms.lookahead s journal i) :
      Uses terms (lookahead i) s journal
  | seek {s : Stream} {journal : Journal} (target : Nat) : Uses terms (seek target) s journal
  | setLine {s : Stream} {journal : Journal} (line : Nat) : Uses terms (setLine line) s journal
  | setColumn {s : Stream} {journal : Journal} (column : Nat) : Uses terms (setColumn column) s journal
  | mark {s : Stream} {journal : Journal} : Uses terms mark s journal
  | release {s : Stream} {journal : Journal} (m : Marker) : Uses terms (release m) s journal
  | rewindTo {s : Stream} {journal : Journal} (m : Marker) : Uses terms (rewindTo m) s journal
  | substring {s : Stream} {journal : Journal} {start stop : Nat} (h : terms.substring s start stop) :
      Uses terms (substring start stop) s journal
  | query {s : Stream} {journal : Journal} {α : Type} (f : Face → α) :
      Uses terms (query fun s => f s.face) s journal
  | report {s : Stream} {journal : Journal} {e : Event} (h : e.phase = .cli) :
      Uses terms (Action.emit e) s journal
  | pure {s : Stream} {journal : Journal} {α : Type} (a : α) :
      Uses terms (Pure.pure a : Action Stream α) s journal
  | stop {s : Stream} {journal : Journal} {α : Type} {reason : Stop} (h : terms.stop reason) :
      Uses terms (Action.stop reason : Action Stream α) s journal
  | bind {s : Stream} {journal : Journal} {α β : Type} {x : Action Stream α} {f : α → Action Stream β}
      (hx : Uses terms x s journal)
      (hf : ∀ a, (x s journal).result = .ok a → Uses terms (f a) (x s journal).state (x s journal).journal) :
      Uses terms (x >>= f) s journal
  | attempt {s : Stream} {journal : Journal} {α : Type} {x : Action Stream α} (hx : Uses terms x s journal) :
      Uses terms x.attempt s journal
  | capture {s : Stream} {journal : Journal} {α : Type} {x : Action Stream α} (hx : Uses terms x s journal)
      (h : terms.resume (x s journal).state) : Uses terms x.capture s journal

end Stream

end Backtrack
