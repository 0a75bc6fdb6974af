import Backtrack.Config
import Backtrack.Json.Record
import Backtrack.Text.Layout

/-! Configurations as JSON documents. Every field may be left out and then has its default. Written
documents have all fields, one on a line, indented by two blanks for each level of nesting. -/

namespace Backtrack

/-- The level with exactly this name in a document. -/
def Log.Level.ofChars? (name : List Char) : Option Log.Level :=
  Log.Level.ofName? (String.ofList name)

namespace StreamConfig

def fields : List (Json.Field StreamConfig) :=
  [⟨"source_name", Json.string.map fun v c => { c with sourceName := String.ofList v }⟩,
   ⟨"case_fold", Json.flag.map fun v c => { c with caseFold := v }⟩,
   ⟨"mark_capacity", Json.natural.map fun v c => { c with markCapacity := v }⟩]

end StreamConfig

namespace SourceConfig

def fields : List (Json.Field SourceConfig) :=
  [⟨"backup_window", (Json.optional Json.natural).map fun v c => { c with backupWindow := v }⟩,
   ⟨"read_chunk_size", Json.natural.map fun v c => { c with readChunkSize := v }⟩]

end SourceConfig

namespace LogConfig

def level : Json.Parser Log.Level :=
  Json.named Log.Level.ofChars?

def fields : List (Json.Field LogConfig) :=
  [⟨"global", level.map fun v c => { c with overall := v }⟩,
   ⟨"stream", (Json.optional level).map fun v c => { c with stream := v }⟩,
   ⟨"source", (Json.optional level).map fun v c => { c with source := v }⟩,
   ⟨"cli", (Json.optional level).map fun v c => { c with cli := v }⟩]

end LogConfig

namespace Config

def fields : List (Json.Field Config) :=
  [⟨"stream", (Json.record StreamConfig.fields default).map fun v c => { c with stream := v }⟩,
   ⟨"source", (Json.record SourceConfig.fields default).map fun v c => { c with source := v }⟩,
   ⟨"log", (Json.record LogConfig.fields default).map fun v c => { c with log := v }⟩]

def ofJson (text : String) : Except Json.Rejection Config :=
  Json.document (Json.record fields default) text.toList

end Config

namespace Json

def writeFlag (b : Bool) : List Char :=
  if b then ['t', 'r', 'u', 'e'] else ['f', 'a', 'l', 's', 'e']

def writeNatural (n : Nat) : List Char :=
  Text.decimal n

def writeOption {α : Type} (write : α → List Char) : Option α → List Char
  | none => ['n', 'u', 'l', 'l']
  | some a => write a

def newline (indent : Nat) : List Char :=
  '\n' :: List.replicate indent ' '

/-- An object with a member on each line, `indent` blanks from the margin. -/
def writeRecord (indent : Nat) (members : List (String × List Char)) : List Char :=
  ['\x7b'] ++
    [','].intercalate (members.map fun (name, value) =>
      newline (indent + 2) ++ writeText name.toList ++ [':', ' '] ++ value) ++
    newline indent ++ ['\x7d']

end Json

open Json (writeText writeFlag writeNatural writeOption writeRecord)

def Log.Level.write (level : Log.Level) : List Char :=
  writeText level.name.toList

def StreamConfig.write (indent : Nat) (c : StreamConfig) : List Char :=
  writeRecord indent
    [("source_name", writeText c.sourceName.toList), ("case_fold", writeFlag c.caseFold),
     ("mark_capacity", writeNatural c.markCapacity)]

def SourceConfig.write (indent : Nat) (c : SourceConfig) : List Char :=
  writeRecord indent
    [("backup_window", writeOption writeNatural c.backupWindow),
     ("read_chunk_size", writeNatural c.readChunkSize)]

def LogConfig.write (indent : Nat) (c : LogConfig) : List Char :=
  writeRecord indent
    [("global", c.overall.write), ("stream", writeOption Log.Level.write c.stream),
     ("source", writeOption Log.Level.write c.source), ("cli", writeOption Log.Level.write c.cli)]

namespace Config

def write (c : Config) : List Char :=
  writeRecord 0 [("stream", c.stream.write 2), ("source", c.source.write 2), ("log", c.log.write 2)]

def toJson (c : Config) : String :=
  String.ofList c.write

end Config

end Backtrack
