import Backtrack.Json.Text
import Backtrack.Log.Filter
import Backtrack.Text.Layout

/-! Events as lines of a journal. Layouts that show the time take it as a text. To a log file a journal adds
a line for every event that the filter lets through, with the time before it. -/

namespace Backtrack

def FieldValue.chars : FieldValue → List Char
  | .number n => Text.decimal n
  | .flag b => (toString b).toList
  | .plain text => text.toList
  | .quoted text => Text.quoteText text.toList

def FieldValue.jsonChars : FieldValue → List Char
  | .number n => Text.decimal n
  | .flag b => (toString b).toList
  | .plain text => Json.writeText text.toList
  | .quoted text => Json.writeText text.toList

namespace Event

def label (e : Event) : List Char :=
  e.level.label.toList.leftpad 5 ' '

/-- The message, then the named fields. -/
def body (e : Event) : List Char :=
  e.message.toList ++ e.fields.flatMap fun (name, value) => [' '] ++ name.toList ++ ['='] ++ value.chars

/-- The line for a terminal, without target and time. -/
def compactLine (e : Event) : List Char :=
  e.label ++ [' '] ++ e.body

/-- The line for a log file. -/
def fileLine (time : String) (e : Event) : List Char :=
  time.toList ++ [' '] ++ e.label ++ [' '] ++ e.target.toList ++ [':', ' '] ++ e.body

/-- The line for other programs: a JSON object. -/
def jsonLine (time : String) (e : Event) : List Char :=
  let member (name : String) (value : List Char) : List Char := Json.writeText name.toList ++ [':'] ++ value
  let object (members : List (List Char)) : List Char := ['\x7b'] ++ [','].intercalate members ++ ['\x7d']
  object [member "timestamp" (Json.writeText time.toList),
    member "level" (Json.writeText e.level.label.toList),
    member "fields" (object (member "message" (Json.writeText e.message.toList) ::
      e.fields.map fun (name, value) => member name value.jsonChars)),
    member "target" (Json.writeText e.target.toList)]

def prettyLine (time : String) (e : Event) : List Char :=
  [' ', ' '] ++ time.toList ++ [' '] ++ e.label ++ [' '] ++ e.target.toList ++ [':', ' '] ++
    e.message.toList ++
    e.fields.flatMap fun (name, value) => [',', ' '] ++ name.toList ++ [':', ' '] ++ value.chars

def line (layout : Log.Layout) (time : String) (e : Event) : List Char :=
  match layout with
  | .pretty => e.prettyLine time
  | .compact => e.compactLine
  | .json => e.jsonLine time

end Event

namespace Log

structure Writer where
  filter : Filter
  time : String
deriving DecidableEq, Repr

namespace Writer

def lines (w : Writer) (events : Journal) : List (List Char) :=
  ((events.filter w.filter.passes).map (Event.fileLine w.time)).toList

/-- The bytes that the events add to the file. -/
def bytes (w : Writer) (events : Journal) : List UInt8 :=
  Utf8.encode ((w.lines events).flatMap (· ++ ['\n']))

end Writer

end Log

end Backtrack
