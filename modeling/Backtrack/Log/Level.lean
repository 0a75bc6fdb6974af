import Backtrack.Text.Lowercase

/-! Levels of severity and the layouts in which a journal is written, with the names that select them, and the phases:
the parts of the library that report on their work, each under a target of its own. -/

namespace Backtrack.Log

/-- From the most talkative to the most severe. -/
inductive Level where
  | trace
  | debug
  | info
  | warn
  | error
deriving DecidableEq, Repr, Inhabited

namespace Level

def all : List Level := [.trace, .debug, .info, .warn, .error]

def severity : Level → Nat
  | .trace => 0
  | .debug => 1
  | .info => 2
  | .warn => 3
  | .error => 4

instance : LE Level where
  le a b := a.severity ≤ b.severity

instance : LT Level where
  lt a b := a.severity < b.severity

instance (a b : Level) : Decidable (a ≤ b) :=
  inferInstanceAs (Decidable (a.severity ≤ b.severity))

instance (a b : Level) : Decidable (a < b) :=
  inferInstanceAs (Decidable (a.severity < b.severity))

def name : Level → String
  | .trace => "trace"
  | .debug => "debug"
  | .info => "info"
  | .warn => "warn"
  | .error => "error"

def label : Level → String
  | .trace => "TRACE"
  | .debug => "DEBUG"
  | .info => "INFO"
  | .warn => "WARN"
  | .error => "ERROR"

/-- The level with exactly this name. -/
def ofName? (name : String) : Option Level :=
  all.find? fun level => level.name = name

/-- The level that a user asks for, in letters of either case; `silent` asks for errors only. -/
def parse? (text : String) : Option Level :=
  let name := String.ofList (Text.lowercase text)
  if name = "silent" then some .error else ofName? name

end Level

inductive Layout where
  | pretty
  | compact
  | json
deriving DecidableEq, Repr, Inhabited

def Layout.parse? (text : String) : Option Layout :=
  let name := String.ofList (Text.lowercase text)
  if name = "pretty" then some .pretty
  else if name = "compact" then some .compact
  else if name = "json" then some .json
  else none

inductive Phase where
  | stream
  | source
  | cli
deriving DecidableEq, Repr

namespace Phase

def all : List Phase := [.stream, .source, .cli]

def name : Phase → String
  | .stream => "stream"
  | .source => "source"
  | .cli => "cli"

def target (p : Phase) : String :=
  "markstream::" ++ p.name

end Phase

end Backtrack.Log
