import Backtrack.Config
import Backtrack.Files
import Backtrack.Stream.Command

/-! Sessions: what holds for a whole run of a program. A configuration is fixed once, by the first call that
states one or needs one, and logging begins once; sources and streams opened in a session follow its
configuration. All events go to the journal of the session. Those that happened before logging began,
and those that the filter does not let through, are not written. -/

namespace Backtrack

/-- Where the journal is written from the event with number `since` on: to the terminal in a layout, or to
the output of a test; and to a file. -/
structure Logger where
  filter : Log.Filter
  layout : Option Log.Layout
  file : Option String
  since : Nat
deriving DecidableEq, Repr

inductive LoggerFault where
  | file (reason : String)
  | alreadyInitialized
deriving DecidableEq, Repr

def LoggerFault.message : LoggerFault → String
  | .file reason => s!"Cannot open log file: {reason}"
  | .alreadyInitialized =>
    "Logger already initialized: a global default trace dispatcher has already been set"

/-- `time` is what is written before the events that are logged. -/
structure Session where
  files : Files
  time : String
  config : Option Config
  logger : Option Logger
  journal : Journal

namespace Session

def start (files : Files) (time : String) : Session :=
  ⟨files, time, none, none, #[]⟩

/-- The configuration that is fixed; asking for it before there is one is a breach. -/
def theConfig (s : Session) : Except Breach Config :=
  match s.config with
  | some c => .ok c
  | none => .error .configMissing

/-- The configuration that is fixed; without one, the default is fixed. -/
def configOrDefault (s : Session) : Config × Session :=
  match s.config with
  | some c => (c, s)
  | none => (default, { s with config := some default })

def isInitialized (s : Session) : Bool :=
  s.config.isSome

/-- Fixes a configuration, or gives it back if there is one already. -/
def tryInit (s : Session) (c : Config) : Option Config × Session :=
  match s.config with
  | some _ => (some c, s)
  | none => (none, { s with config := some c })

/-- Fixes a configuration, of which there must be none. -/
def init (s : Session) (c : Config) : Option Breach × Session :=
  match s.config with
  | some _ => (some .configPresent, s)
  | none => (none, { s with config := some c })

/-- Begins to log what happens from now on, unless that has begun already. -/
def install (s : Session) (filter : Log.Filter) (layout : Option Log.Layout) (file : Option String) :
    Option LoggerFault × Session :=
  match s.logger with
  | some _ => (some .alreadyInitialized, s)
  | none => (none, { s with logger := some ⟨filter, layout, file, s.journal.size⟩ })

/-- Begins to log. The file is opened, and created if need be, before it is known whether logging has begun
already. -/
def initLogger (s : Session) (c : LogConfig) (layout : Log.Layout) (file : Option String) :
    Option LoggerFault × Session :=
  match file with
  | none => s.install c.filter layout none
  | some path =>
    match s.files.openAppend path with
    | .error reason => (some (.file reason), s)
    | .ok (known, files) => { s with files := files }.install c.filter layout known

/-- Begins to log for a test, if that has not begun yet: everything but traces, and not to the terminal. -/
def initTestLogger (s : Session) : Session :=
  (s.install ⟨.debug, []⟩ none none).2

/-- Fixes a configuration and begins to log as it says. -/
def initWithLogger (s : Session) (c : Config) (layout : Log.Layout) :
    Except Breach (Option LoggerFault) × Session :=
  match s.init c with
  | (some b, s) => (.error b, s)
  | (none, s) =>
    match s.initLogger c.log layout none with
    | (fault, s) => (.ok fault, s)

/-- Adds events to the journal. -/
def report (s : Session) (events : Journal) : Session :=
  { s with journal := s.journal ++ events }

/-- The events that have been written. -/
def logged (s : Session) : Journal :=
  match s.logger with
  | none => #[]
  | some logger => (s.journal.extract logger.since s.journal.size).filter logger.filter.passes

/-- What the session has written to the terminal. -/
def terminalLines (s : Session) : List (List Char) :=
  match s.logger.bind Logger.layout with
  | none => []
  | some layout => s.logged.toList.map (Event.line layout s.time)

/-- What the session has written to its log file. -/
def fileLines (s : Session) : List (List Char) :=
  s.logged.toList.map (Event.fileLine s.time)

/-- What writes to the file at a place, if the session logs to that file. -/
def writerTo? (s : Session) (place : Files.Place) : Option (Log.Writer × Nat) :=
  match s.logger with
  | none => none
  | some logger => if logger.file = some place.path then some (⟨logger.filter, s.time⟩, logger.since) else none

/-- What is at a place now. A log file holds what has been written to it since logging began. -/
def entryAt (s : Session) (place : Files.Place) : Entry :=
  match s.files.entryAt place, s.writerTo? place with
  | .file bytes, some (writer, since) =>
    .file (bytes ++ writer.bytes (s.journal.extract since s.journal.size))
  | entry, _ => entry

def lookup (s : Session) (path : String) : Entry :=
  match s.files.resolve path with
  | .ok place => s.entryAt place
  | .error reason => .unavailable reason

/-- All bytes of the file that a path leads to. -/
def bytesAt (s : Session) (path : String) : Except String (List UInt8) :=
  match s.lookup path with
  | .file bytes => .ok bytes
  | .sink => .ok []
  | .directory => .error Files.isDirectory
  | .unavailable reason => .error reason

def openText (s : Session) (text : List Char) : Source × Session :=
  match s.configOrDefault with
  | (c, s) => (c.source.openText text, s)

def openReader (s : Session) (reader : Reader) : Except Breach Source × Session :=
  match s.configOrDefault with
  | (c, s) => (c.source.openReader reader, s)

/-- The size of the buffer between a file and its reader. -/
def fileBufferSize : Nat := 8192

/-- The bytes that are fetched from a file at a time. Chunks that are smaller than the buffer are served
from it. -/
def fetchSize (chunkSize : Nat) : Nat :=
  max chunkSize fileBufferSize

/-- Pieces of `size` bytes, but for the last one. -/
def pieces (size : Nat) (bytes : List UInt8) : List (List UInt8) :=
  if size = 0 ∨ bytes.length ≤ size then [bytes]
  else bytes.take size :: pieces size (bytes.drop size)
termination_by bytes.length
decreasing_by
  simp only [List.length_drop]
  omega

/-- The reader of a file that holds the given bytes. A file to which the session logs grows while it is
read. -/
def fileReader (s : Session) (place : Files.Place) (bytes : List UInt8) (chunkSize : Nat) : Reader :=
  match s.writerTo? place with
  | none => ⟨(pieces (fetchSize chunkSize) bytes).map .bytes, .finished⟩
  | some (writer, _) => ⟨[], .growing ⟨bytes, writer, s.journal.size, fetchSize chunkSize⟩⟩

/-- Opens a file. When it cannot be opened, no configuration is fixed. A directory can be opened, but
not read. -/
def openFile (s : Session) (path : String) : Except String (Except Breach Source) × Session :=
  match s.files.resolve path with
  | .error reason => (.error reason, s)
  | .ok place =>
    match s.entryAt place, s.configOrDefault with
    | .unavailable reason, _ => (.error reason, s)
    | .directory, (c, s) => (.ok (c.source.openReader ⟨[], .failing Files.isDirectory⟩), s)
    | .sink, (c, s) => (.ok (c.source.openReader ⟨[], .finished⟩), s)
    | .file bytes, (c, fixed) =>
      (.ok (c.source.openReader (s.fileReader place bytes c.source.readChunkSize)), fixed)

/-- Opens a stream over a source. -/
def openStream (s : Session) (source : Source) : (Except Breach Stream × Journal) × Session :=
  match s.configOrDefault with
  | (c, s) =>
    match c.stream.openStream source with
    | (stream, journal) => ((stream, journal), s.report journal)

/-- Carries out commands on a stream; what they report goes to the journal. -/
def runStream (s : Session) (stream : Stream) (commands : List Stream.Command) :
    List Stream.Step × Session :=
  match (Stream.Workbench.ofStream stream).run s.journal commands with
  | (steps, journal) => (steps, { s with journal := journal })

end Session

end Backtrack
