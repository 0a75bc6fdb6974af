import Backtrack.Event

/-! Actions on a state. An action answers or stops, and either way leaves a state and a journal to which
it may have added: what was done before a stop is not undone. -/

namespace Backtrack

structure Outcome (σ α : Type) where
  result : Except Stop α
  state : σ
  journal : Journal

def Action (σ α : Type) : Type :=
  σ → Journal → Outcome σ α

namespace Action

variable {σ α β : Type}

@[inline]
protected def pure (a : α) : Action σ α :=
  fun s journal => ⟨.ok a, s, journal⟩

/-- One action after another; a stop of the first one is the end. -/
@[inline]
protected def bind (x : Action σ α) (f : α → Action σ β) : Action σ β := fun s journal =>
  match x s journal with
  | ⟨.ok a, s, journal⟩ => f a s journal
  | ⟨.error stop, s, journal⟩ => ⟨.error stop, s, journal⟩

@[always_inline]
instance : Monad (Action σ) where
  pure := Action.pure
  bind := Action.bind

@[inline]
def modify (f : σ → σ) : Action σ Unit :=
  fun s journal => ⟨.ok (), f s, journal⟩

@[inline]
def emit (e : Event) : Action σ Unit :=
  fun s journal => ⟨.ok (), s, journal.push e⟩

@[inline]
def stop (reason : Stop) : Action σ α :=
  fun s journal => ⟨.error reason, s, journal⟩

@[inline]
def fail (f : Fault) : Action σ α :=
  stop (.fault f)

@[inline]
def breach (b : Breach) : Action σ α :=
  stop (.breach b)

/-- Answers with the value of a computation that may breach a promise. -/
def ofExcept : Except Breach α → Action σ α
  | .ok a => Action.pure a
  | .error b => breach b

/-- Turns a fault into an answer, so that the caller can go on. A breach stays a breach. -/
@[inline]
def attempt (x : Action σ α) : Action σ (Except Fault α) := fun s journal =>
  match x s journal with
  | ⟨.ok a, s, journal⟩ => ⟨.ok (.ok a), s, journal⟩
  | ⟨.error (.fault f), s, journal⟩ => ⟨.ok (.error f), s, journal⟩
  | ⟨.error (.breach b), s, journal⟩ => ⟨.error (.breach b), s, journal⟩

/-- The action `n` times, as long as it does not stop. -/
def times (x : Action σ Unit) : Nat → Action σ Unit
  | 0 => Action.pure ()
  | n + 1 => Action.bind x fun _ => times x n

end Action

end Backtrack
