import Backtrack.CommandLine.Arguments
import Backtrack.Config.Document
import Backtrack.Report
import Backtrack.Session

/-! The program: it inspects a file or finds a word in it, in a session of its own. -/

namespace Backtrack.CommandLine

/-- Why the program ends without a result. -/
inductive Failure where
  | configUnreadable (path reason : String)
  | configRejected (path : String) (rejection : Json.Rejection)
  | unknownLevel (name : String)
  | unknownLayout (name : String)
  | logger (f : LoggerFault)
  | fileUnopened (path reason : String)
  | fileUnreadable (path reason : String)
  | fault (f : Fault)
  | breach (b : Breach)
deriving DecidableEq, Repr

def Failure.message : Failure → String
  | .configUnreadable path reason => s!"Cannot read config '{path}': {reason}"
  | .configRejected path _ => s!"Failed to parse config '{path}':"
  | .unknownLevel name => s!"Unknown log level '{name}'"
  | .unknownLayout name => s!"Unknown log format '{name}'"
  | .logger f => f.message
  | .fileUnopened path reason => s!"Cannot open '{path}': {reason}"
  | .fileUnreadable path reason => s!"Cannot read '{path}': {reason}"
  | .fault f => f.message
  | .breach b => b.message

def Failure.ofStop : Stop → Failure
  | .fault f => .fault f
  | .breach b => .breach b

def invalidText : String := "stream did not contain valid UTF-8"

def loadConfig (s : Session) : Option String → Except Failure Config
  | none => .ok default
  | some path =>
    match s.bytesAt path with
    | .error reason => .error (.configUnreadable path reason)
    | .ok bytes =>
      match Utf8.decodeStrict? bytes with
      | none => .error (.configUnreadable path invalidText)
      | some text =>
        match Config.ofJson (String.ofList text) with
        | .ok c => .ok c
        | .error rejection => .error (.configRejected path rejection)

def configure (s : Session) (i : Invocation) : Except Failure Config := do
  let c ← loadConfig s i.config
  match c.override ⟨i.logLevel, i.task.caseFold, some i.task.file⟩ with
  | .ok c => pure c
  | .error name => .error (.unknownLevel name)

/-- Carries out an action on a stream; what it reports goes to the journal of the session. -/
def act {α : Type} (s : Session) (stream : Stream) (x : Action Stream α) :
    Except Failure (α × Stream) × Session :=
  match x stream s.journal with
  | ⟨.ok a, stream, journal⟩ => (.ok (a, stream), { s with journal := journal })
  | ⟨.error stop, _, journal⟩ => (.error (.ofStop stop), { s with journal := journal })

def openFile (s : Session) (path : String) : Except Failure Stream × Session :=
  match s.openFile path with
  | (.error reason, s) => (.error (.fileUnopened path reason), s)
  | (.ok (.error b), s) => (.error (.breach b), s)
  | (.ok (.ok source), s) =>
    match s.openStream source with
    | ((.error b, _), s) => (.error (.breach b), s)
    | ((.ok stream, _), s) => (.ok stream, s)

def inspectFile (s : Session) (path : String) (lookahead : Nat) (limit : Option Nat) :
    Except Failure (List Char) × Session :=
  match openFile s path with
  | (.error f, s) => (.error f, s)
  | (.ok stream, s) =>
    let s := s.report #[.inspecting path]
    match act s stream (Stream.inspect lookahead limit) with
    | (.error f, s) => (.error f, s)
    | (.ok (reports, _), s) => (.ok (reports.flatMap fun r => r.chars ++ ['\n']), s)

/-- The occurrences of a word with the text around them. The text that is shown is read anew, and what
is not well-formed in it is shown as U+FFFD. -/
def showOccurrences (s : Session) (path name word : String) (found : List Occurrence) :
    Except Failure (List Char) :=
  if found.isEmpty then .ok ("No match for ".toList ++ Text.quoteText word.toList ++ ['\n'])
  else
    match s.bytesAt path with
    | .error reason => .error (.fileUnreadable path reason)
    | .ok bytes =>
      let lines := Text.lines (Utf8.decodeLossy bytes)
      .ok ((found.flatMap fun o => o.chars name lines) ++
        Text.decimal found.length ++ " match(es)\n".toList)

def findInFile (s : Session) (path word : String) (caseFold : Bool) :
    Except Failure (List Char) × Session :=
  match openFile s path with
  | (.error f, s) => (.error f, s)
  | (.ok stream, s) =>
    let s := s.report #[.finding path word]
    match act s stream (Stream.find (foldWord word.toList caseFold)) with
    | (.error f, s) => (.error f, s)
    | (.ok (found, stream), s) => (showOccurrences s path stream.name word found, s)

/-- Everything that an invocation does: what it writes to the standard output, or why it fails. -/
def perform (s : Session) (i : Invocation) : Except Failure (List Char) × Session :=
  match configure s i with
  | .error f => (.error f, s)
  | .ok c =>
    match Log.Layout.parse? i.layout with
    | none => (.error (.unknownLayout i.layout), s)
    | some layout =>
      match s.initLogger c.log layout i.logFile with
      | (some f, s) => (.error (.logger f), s)
      | (none, s) =>
        match s.init c with
        | (some b, s) => (.error (.breach b), s)
        | (none, s) =>
          match i.task with
          | .inspect file lookahead _ limit => inspectFile s file lookahead limit
          | .find file word _ => findInFile s file word c.stream.caseFold

/-- How the program ends: its exit code, its standard output, and the line that names the failure. -/
structure Ending where
  code : Nat
  output : List Char
  complaint : Option String
deriving DecidableEq, Repr

def Ending.ofResult : Except Failure (List Char) → Ending
  | .ok output => ⟨0, output, none⟩
  | .error (.breach _) => ⟨101, [], none⟩
  | .error f => ⟨1, [], some ("Error: " ++ f.message)⟩

def versionText : String := "markstream 0.1.0\n"

def helpText : String :=
  "Inspect and search files through a backtrackable character stream\n\n" ++
  "Usage: markstream [OPTIONS] <COMMAND>\n\nCommands:\n" ++
  "  inspect <FILE> [--lookahead <N>] [--case-fold] [--limit <N>]\n" ++
  "  find <FILE> <WORD> [--case-fold]\n\nOptions:\n" ++
  "  --config <FILE>  --log-level <LEVEL>  --log-format <FORMAT>  --log-file <FILE>\n"

/-- A run of the program in a new session. -/
def run (s : Session) (args : List String) : Ending × Session :=
  match Request.ofArguments args with
  | .usage => (⟨2, [], none⟩, s)
  | .help => (⟨0, helpText.toList, none⟩, s)
  | .version => (⟨0, versionText.toList, none⟩, s)
  | .run i =>
    match perform s i with
    | (result, s) => (Ending.ofResult result, s)

end Backtrack.CommandLine
