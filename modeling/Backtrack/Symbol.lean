import Backtrack.Text.Layout
import Backtrack.Text.Lowercase

/-! The symbols that a source delivers: the characters of its text, then the end of input for ever. -/

namespace Backtrack

inductive Symbol where
  | char (c : Char)
  | eof
deriving DecidableEq, Repr, Inhabited

namespace Symbol

def isLineTerminator (s : Symbol) : Bool :=
  s = .char '\n'

def char? : Symbol → Option Char
  | .char c => some c
  | .eof => none

/-- Letters in lower case; everything else, the end of input included, stays as it is. -/
def foldCase : Symbol → Symbol
  | .char c => .char (Text.foldCase c)
  | .eof => .eof

def chars : Symbol → List Char
  | .char c => Text.quoteChar c
  | .eof => ['<', 'E', 'O', 'F', '>']

instance : ToString Symbol where
  toString s := String.ofList s.chars

end Symbol

end Backtrack
