import Backtrack.Text.Printable

/-! Laying out text: numbers in decimal, the lines of a text, and quoted characters and texts. A character
stands in single quotes and a text in double quotes; a backslash, the enclosing quote, the four common
controls, every character that cannot be shown and every grapheme extender, which would be drawn on the
character before it, are escaped. So a quoted form is printable, has no line break and determines what it
quotes. -/

namespace Backtrack.Text

/-- Decimal digits without leading zeros. -/
def decimal (n : Nat) : List Char :=
  Nat.toDigits 10 n

/-- The lines of a text whose first line begins with `start`, read backwards. -/
def linesFrom (start : List Char) : List Char → List (List Char)
  | [] => [start.reverse]
  | c :: rest => if c = '\n' then start.reverse :: linesFrom [] rest else linesFrom (c :: start) rest

/-- The pieces between the line ends. There is one more than there are line ends. -/
def lines (text : List Char) : List (List Char) :=
  linesFrom [] text

def hexDigit (n : Nat) : Char :=
  if n < 10 then Char.ofNat (48 + n) else Char.ofNat (87 + n)

/-- Hexadecimal digits in lower case, without leading zeros. -/
def hexDigits (n : Nat) : List Char :=
  if n < 16 then [hexDigit n] else hexDigits (n / 16) ++ [hexDigit (n % 16)]

/-- The escape by code point: the digits stand in braces after `\u`. -/
def escapeByCode (c : Char) : List Char :=
  ['\\', 'u', '\x7b'] ++ hexDigits c.toNat ++ ['\x7d']

/-- The written form of one character between two quotes of the kind `quote`. -/
def escape (quote c : Char) : List Char :=
  if c = '\x00' then ['\\', '0']
  else if c = '\t' then ['\\', 't']
  else if c = '\r' then ['\\', 'r']
  else if c = '\n' then ['\\', 'n']
  else if c = '\\' || c = quote then ['\\', c]
  else if isGraphemeExtend c || !isPrintable c then escapeByCode c
  else [c]

def quoteChar (c : Char) : List Char :=
  ['\''] ++ escape '\'' c ++ ['\'']

def quoteText (text : List Char) : List Char :=
  ['"'] ++ text.flatMap (escape '"') ++ ['"']

end Backtrack.Text
