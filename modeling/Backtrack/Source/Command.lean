import Backtrack.Source

/-! Runs of operations on a source alone. -/

namespace Backtrack.Source

inductive Command where
  | read
  | text (count : Nat)
  | backup (count : Nat)
  | range (start stop : Nat)
deriving DecidableEq, Repr

inductive Reply where
  | done
  | symbol (symbol : Symbol)
  | text (text : String)
deriving DecidableEq, Repr

def perform : Command → Action Source Reply
  | .read => .symbol <$> read
  | .text count => .text <$> readText count
  | .backup count => do
    backup count
    pure .done
  | .range start stop => fun s journal =>
    match s.range start stop with
    | .ok text => ⟨.ok (.text text), s, journal⟩
    | .error f => ⟨.error (.fault f), s, journal⟩

/-- One step of a run: the answer or what stopped it, the cursor and the number of retained characters
after it, and what it reported. -/
structure Step where
  result : Except Stop Reply
  cursor : Nat
  retained : Nat
  journal : Journal

/-- Carries out commands one after another, each on the state that the one before has left. -/
def run (s : Source) : List Command → List Step
  | [] => []
  | command :: commands =>
    match perform command s #[] with
    | ⟨result, s, journal⟩ => ⟨result, s.cursor, s.retained, journal⟩ :: run s commands

end Backtrack.Source
