import Backtrack.Event

/-! Which events are let through. Directives set a level for all targets that begin with a text; of several
directives that apply to a target the longest decides, and if none applies the overall level does. An
event passes if it is at least as severe as the level that is decided on. -/

namespace Backtrack.Log

/-- A level for the targets that begin with a text. -/
structure Directive where
  start : List Char
  level : Level
deriving DecidableEq, Repr

structure Filter where
  overall : Level
  directives : List Directive
deriving DecidableEq, Repr

namespace Filter

/-- The longer of two directives; of equally long ones the later. -/
def longer (best : Option Directive) (d : Directive) : Option Directive :=
  match best with
  | none => some d
  | some b => if b.start.length ≤ d.start.length then some d else some b

def levelFor (f : Filter) (target : String) : Level :=
  let chars := target.toList
  let applying := f.directives.filter fun d => d.start.isPrefixOf chars
  ((applying.foldl longer none).map Directive.level).getD f.overall

def enables (f : Filter) (target : String) (level : Level) : Bool :=
  decide (f.levelFor target ≤ level)

def passes (f : Filter) (e : Event) : Bool :=
  f.enables e.target e.level

end Filter

end Backtrack.Log
