import Backtrack.Session

/-! Runs of calls in one session. -/

namespace Backtrack.Session

inductive Command where
  | isInitialized
  | config
  | configOrDefault
  | init (c : Config)
  | tryInit (c : Config)
  | initWithLogger (c : Config) (layout : Log.Layout)
  | initLogger (c : LogConfig) (layout : Log.Layout) (file : Option String)
  | initTestLogger
  /-- Opens a source and a stream over it, and carries out commands on the stream. -/
  | openText (text : String) (commands : List Stream.Command)
  | openReader (bytes : List UInt8) (commands : List Stream.Command)
  | openFile (path : String) (commands : List Stream.Command)

inductive Reply where
  | done
  | flag (b : Bool)
  | config (c : Config)
  | rejected (c : Config)
  | loggerFault (f : LoggerFault)
  | unopened (reason : String)
  | breached (b : Breach)
  /-- The stream as it was opened and the steps of its run. -/
  | streamed (fresh : Stream) (steps : List Stream.Step)

/-- Opens a stream over a source, if there is one, and carries out commands on it. -/
def stream (s : Session) (source : Except Breach Source) (commands : List Stream.Command) :
    Reply × Session :=
  match source with
  | .error b => (.breached b, s)
  | .ok source =>
    match s.openStream source with
    | ((.error b, _), s) => (.breached b, s)
    | ((.ok fresh, _), s) =>
      match s.runStream fresh commands with
      | (steps, s) => (.streamed fresh steps, s)

def perform (s : Session) : Command → Reply × Session
  | .isInitialized => (.flag s.isInitialized, s)
  | .config =>
    match s.theConfig with
    | .ok c => (.config c, s)
    | .error b => (.breached b, s)
  | .configOrDefault =>
    match s.configOrDefault with
    | (c, s) => (.config c, s)
  | .init c =>
    match s.init c with
    | (none, s) => (.done, s)
    | (some b, s) => (.breached b, s)
  | .tryInit c =>
    match s.tryInit c with
    | (none, s) => (.done, s)
    | (some c, s) => (.rejected c, s)
  | .initWithLogger c layout =>
    match s.initWithLogger c layout with
    | (.error b, s) => (.breached b, s)
    | (.ok none, s) => (.done, s)
    | (.ok (some f), s) => (.loggerFault f, s)
  | .initLogger c layout file =>
    match s.initLogger c layout file with
    | (none, s) => (.done, s)
    | (some f, s) => (.loggerFault f, s)
  | .initTestLogger => (.done, s.initTestLogger)
  | .openText text commands =>
    match s.openText text.toList with
    | (source, s) => s.stream (.ok source) commands
  | .openReader bytes commands =>
    match s.openReader (Reader.ofBytes bytes) with
    | (source, s) => s.stream source commands
  | .openFile path commands =>
    match s.openFile path with
    | (.error reason, s) => (.unopened reason, s)
    | (.ok source, s) => s.stream source commands

/-- Makes calls one after another. -/
def run (s : Session) : List Command → List Reply × Session
  | [] => ([], s)
  | command :: commands =>
    match s.perform command with
    | (reply, s) =>
      match s.run commands with
      | (replies, s) => (reply :: replies, s)

end Backtrack.Session
