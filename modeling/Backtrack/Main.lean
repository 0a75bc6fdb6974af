import Backtrack.CommandLine

/-! The program as it is started from a shell. It reads the files that the arguments name, runs, and writes
what the run says; time is told in milliseconds. -/

namespace Backtrack.CommandLine

def entryOf (path : String) : IO Entry := do
  try
    let bytes ← IO.FS.readBinFile path
    pure (.file bytes.toList)
  catch
    | .noFileOrDirectory .. => pure (.unavailable Files.notFound)
    | .inappropriateType .. => pure .directory
    | e => pure (.unavailable (toString e))

/-- Creates a log file that is not there, where a run would get as far as that. -/
def touch (path : String) : IO Unit := do
  try
    let _ ← IO.FS.Handle.mk path .append
  catch _ => pure ()

/-- What is at the paths; where nothing is, nothing is known. -/
def entriesOf (paths : List String) : IO Files := do
  let entries ← paths.mapM fun path => do pure (path, ← entryOf path)
  pure ⟨entries.filter fun entry => entry.2 ≠ .unavailable Files.notFound⟩

def filesOf (i : Invocation) : IO Files := do
  let files ← entriesOf (i.config.toList ++ [i.task.file])
  match configure (Session.start files "") i, Log.Layout.parse? i.layout with
  | .ok _, some _ => do
    i.logFile.forM touch
    entriesOf (i.config.toList ++ [i.task.file] ++ i.logFile.toList)
  | _, _ => pure files

def textOf (lines : List (List Char)) : String :=
  String.ofList (lines.flatMap (· ++ ['\n']))

/-- Writes what a run of the program says. -/
def publish (ending : Ending) (s : Session) : IO Unit := do
  match s.logger.bind Logger.file with
  | none => pure ()
  | some path => do
    let handle ← IO.FS.Handle.mk path .append
    handle.putStr (textOf s.fileLines)
  IO.eprint (textOf s.terminalLines)
  IO.print (String.ofList ending.output)
  match ending.complaint with
  | none => pure ()
  | some complaint => IO.eprintln complaint

def start (args : List String) : IO UInt32 := do
  let files ← match Request.ofArguments args with
    | .run i => filesOf i
    | _ => pure ⟨[]⟩
  match run (Session.start files (toString (← IO.monoMsNow))) args with
  | (ending, session) => do
    publish ending session
    pure (UInt32.ofNat ending.code)

end Backtrack.CommandLine

def main (args : List String) : IO UInt32 :=
  Backtrack.CommandLine.start args
