import Backtrack.Search
import Backtrack.Text.Layout

/-! Reports for the reader of a terminal: a line for every inspected symbol, and the lines of a text around
a position with a caret below its column. -/

namespace Backtrack

namespace SymbolReport

/-- The symbols behind the reported one, in brackets; nothing if none were asked for. -/
def aheadChars (r : SymbolReport) : List Char :=
  if r.ahead.isEmpty then []
  else [' ', ' ', '['] ++ [' '].intercalate (r.ahead.map Symbol.chars) ++ [']']

/-- The index, the line and the column in columns of their own, then the symbol and what follows it. -/
def chars (r : SymbolReport) : List Char :=
  (Text.decimal r.position.index).leftpad 6 ' ' ++ [' '] ++
    (Text.decimal r.position.line).leftpad 4 ' ' ++ [':'] ++
    (Text.decimal r.position.column).rightpad 4 ' ' ++ [' '] ++
    r.symbol.chars ++ r.aheadChars

end SymbolReport

namespace Context

/-- Lines shown before and after the line in question. -/
def margin : Nat := 2

/-- A line of text behind its number, which is `width` characters wide. -/
def row (width number : Nat) (line : List Char) : List Char :=
  (Text.decimal number).leftpad width ' ' ++ [' ', '|', ' '] ++ line ++ ['\n']

/-- The caret below a column. -/
def caretRow (width column : Nat) : List Char :=
  List.replicate width ' ' ++ [' ', '|', ' '] ++ List.replicate column ' ' ++ ['^', '\n']

def separator (width : Nat) : List Char :=
  List.replicate (width + 1) '-' ++ ['|', '-', '-', '\n']

/-- Rows for lines numbered from `number` on, with the caret behind the row of `line`. -/
def rows (width line column number : Nat) : List (List Char) → List Char
  | [] => []
  | shown :: rest =>
    row width number shown ++ (if number = line then caretRow width column else []) ++
      rows width line column (number + 1) rest

/-- Whether there is a line with the given number, counted from one. -/
def hasLine (lines : List (List Char)) (line : Nat) : Bool :=
  1 ≤ line && line ≤ lines.length

/-- Of the lines of a text, those around line number `line`, with a caret below the column, counted from
zero. Nothing for a line that is not there. -/
def renderLines (lines : List (List Char)) (line column : Nat) : List Char :=
  if !hasLine lines line then []
  else
    let first := max (line - margin) 1
    let last := min (line + margin) lines.length
    let width := (Text.decimal last).length
    separator width ++
      rows width line column first ((lines.drop (first - 1)).take (last + 1 - first)) ++ separator width

def render (text : List Char) (line column : Nat) : List Char :=
  renderLines (Text.lines text) line column

/-- The context, unless the blanks before the caret cannot be allocated. -/
def render? (text : List Char) (line column : Nat) : Except Breach (List Char) :=
  if hasLine (Text.lines text) line && allocationLimit < column then .error .capacityOverflow
  else .ok (render text line column)

end Context

/-- An occurrence with its context in the lines of the text; `name` says where the text is from. -/
def Occurrence.chars (name : String) (lines : List (List Char)) (o : Occurrence) : List Char :=
  name.toList ++ [':'] ++ Text.decimal o.position.line ++ [':'] ++ Text.decimal o.position.column ++
    [':', ' '] ++ Text.quoteText o.text.toList ++ ['\n'] ++
    Context.renderLines lines o.position.line o.position.column

end Backtrack
