/-! The grammar of JSON texts, as it is written down apart from any way of reading them. Blanks may stand around
every token. A text between quotes spells characters one by one, raw or escaped; where nobody asks for its
characters, half a pair of surrogates may stand in it. Values are nested to any depth. -/

namespace Backtrack.Json

/-- White space between tokens. -/
def Blank (text : List Char) : Prop :=
  ∀ c ∈ text, c ∈ [' ', '\t', '\n', '\r']

theorem blank_nil : Blank [] := by
  simp [Blank]

/-- What is `P`, with blanks around it. -/
def Padded (P : List Char → Prop) (text : List Char) : Prop :=
  ∃ before inner after, Blank before ∧ P inner ∧ Blank after ∧ text = before ++ inner ++ after

theorem padded_self {P : List Char → Prop} {text : List Char} (h : P text) : Padded P ([] ++ text ++ []) :=
  ⟨[], text, [], blank_nil, h, blank_nil, rfl⟩

/-! ### Texts -/

/-- The letters behind a backslash, each with the character that it stands for. -/
def shortForms : List (Char × Char) :=
  [('"', '"'), ('\\', '\\'), ('/', '/'), ('b', '\x08'), ('f', '\x0c'), ('n', '\n'), ('r', '\r'), ('t', '\t')]

def lowerDigits : List Char :=
  ['0', '1', '2', '3', '4', '5', '6', '7', '8', '9', 'a', 'b', 'c', 'd', 'e', 'f']

def upperDigits : List Char :=
  ['0', '1', '2', '3', '4', '5', '6', '7', '8', '9', 'A', 'B', 'C', 'D', 'E', 'F']

/-- The digit of a number below sixteen, in a letter of either case. -/
def HexDigit (n : Nat) (c : Char) : Prop :=
  lowerDigits[n]? = some c ∨ upperDigits[n]? = some c

instance (n : Nat) (c : Char) : Decidable (HexDigit n c) :=
  inferInstanceAs (Decidable (_ ∨ _))

/-- The four digits of a number of sixteen bits. -/
inductive FourHex : Nat → List Char → Prop
  | digits {k l m n : Nat} {a b c d : Char} (ha : HexDigit k a) (hb : HexDigit l b) (hc : HexDigit m c)
      (hd : HexDigit n d) : FourHex (((k * 16 + l) * 16 + m) * 16 + n) [a, b, c, d]

/-- A character that can stand between quotes as it is. -/
def Raw (c : Char) : Prop :=
  c ≠ '"' ∧ c ≠ '\\' ∧ 0x20 ≤ c.toNat

instance (c : Char) : Decidable (Raw c) :=
  inferInstanceAs (Decidable (_ ∧ _))

/-- The forms in which a character can be written between quotes. -/
inductive SpellsChar : Char → List Char → Prop
  | raw {c : Char} (h : Raw c) : SpellsChar c [c]
  | short {letter c : Char} (h : (letter, c) ∈ shortForms) : SpellsChar c ['\\', letter]
  | code {c : Char} {digits : List Char} (h : FourHex c.toNat digits) : SpellsChar c ('\\' :: 'u' :: digits)
  | pair {c : Char} {high low : Nat} {first second : List Char} (hhigh : 0xD800 ≤ high ∧ high < 0xDC00)
      (hlow : 0xDC00 ≤ low ∧ low < 0xE000) (hc : c.toNat = 0x10000 + (high - 0xD800) * 0x400 + (low - 0xDC00))
      (hfirst : FourHex high first) (hsecond : FourHex low second) :
      SpellsChar c ('\\' :: 'u' :: (first ++ '\\' :: 'u' :: second))

/-- What stands between the quotes of a text. -/
inductive SpellsBody : List Char → List Char → Prop
  | nil : SpellsBody [] []
  | cons {c : Char} {value form body : List Char} (hc : SpellsChar c form) (h : SpellsBody value body) :
      SpellsBody (c :: value) (form ++ body)

def SpellsText (value text : List Char) : Prop :=
  ∃ body, SpellsBody value body ∧ text = '"' :: (body ++ ['"'])

theorem spellsText_self {text : List Char} (h : text.all (Raw ·)) : SpellsText text ('"' :: (text ++ ['"'])) := by
  refine ⟨text, ?_, rfl⟩
  induction text with
  | nil => exact .nil
  | cons c text ih =>
      rw [List.all_cons, Bool.and_eq_true, decide_eq_true_iff] at h
      exact .cons (.raw h.1) (ih h.2)

/-- What may stand between quotes where nobody asks for the characters. -/
inductive Body : List Char → Prop
  | nil : Body []
  | raw {c : Char} {body : List Char} (hc : Raw c) (h : Body body) : Body (c :: body)
  | short {letter c : Char} {body : List Char} (hc : (letter, c) ∈ shortForms) (h : Body body) :
      Body ('\\' :: letter :: body)
  | code {n : Nat} {digits body : List Char} (hn : FourHex n digits) (h : Body body) :
      Body ('\\' :: 'u' :: (digits ++ body))

/-! ### Numbers -/

def Digits (text : List Char) : Prop :=
  text ≠ [] ∧ ∀ c ∈ text, c.isDigit = true

/-- The digits before the point, without leading zeros. -/
inductive Whole : List Char → Prop
  | zero : Whole ['0']
  | more {first : Char} {others : List Char} (hfirst : first.isDigit = true) (hne : first ≠ '0')
      (hothers : ∀ c ∈ others, c.isDigit = true) : Whole (first :: others)

inductive Fraction : List Char → Prop
  | none : Fraction []
  | some {digits : List Char} (h : Digits digits) : Fraction ('.' :: digits)

inductive Exponent : List Char → Prop
  | none : Exponent []
  | some {mark : Char} {sign digits : List Char} (hmark : mark ∈ ['e', 'E']) (hsign : sign ∈ [[], ['+'], ['-']])
      (h : Digits digits) : Exponent (mark :: (sign ++ digits))

def Number (text : List Char) : Prop :=
  ∃ sign whole fraction exponent, sign ∈ [[], ['-']] ∧ Whole whole ∧ Fraction fraction ∧ Exponent exponent ∧
    text = sign ++ whole ++ fraction ++ exponent

/-! ### Values -/

inductive Scalar : List Char → Prop
  | null : Scalar ['n', 'u', 'l', 'l']
  | true : Scalar ['t', 'r', 'u', 'e']
  | false : Scalar ['f', 'a', 'l', 's', 'e']
  | text {body : List Char} (h : Body body) : Scalar ('"' :: (body ++ ['"']))
  | number {text : List Char} (h : Number text) : Scalar text

/-- The parts of which nested values are made. -/
inductive Part where
  | value
  /-- a value with blanks around it -/
  | item
  /-- one or more items of an array -/
  | items
  /-- one or more members of an object -/
  | members

inductive Wellformed : Part → List Char → Prop
  | scalar {text : List Char} (h : Scalar text) : Wellformed .value text
  | emptyArray {blanks : List Char} (h : Blank blanks) : Wellformed .value ('[' :: (blanks ++ [']']))
  | array {items : List Char} (h : Wellformed .items items) : Wellformed .value ('[' :: (items ++ [']']))
  | emptyObject {blanks : List Char} (h : Blank blanks) : Wellformed .value ('\x7b' :: (blanks ++ ['\x7d']))
  | object {members : List Char} (h : Wellformed .members members) :
      Wellformed .value ('\x7b' :: (members ++ ['\x7d']))
  | item {before value after : List Char} (hbefore : Blank before) (h : Wellformed .value value)
      (hafter : Blank after) : Wellformed .item (before ++ value ++ after)
  | lastItem {item : List Char} (h : Wellformed .item item) : Wellformed .items item
  | nextItem {item items : List Char} (h : Wellformed .item item) (hrest : Wellformed .items items) :
      Wellformed .items (item ++ ',' :: items)
  | lastMember {before name between item : List Char} (hbefore : Blank before) (hname : Body name)
      (hbetween : Blank between) (h : Wellformed .item item) :
      Wellformed .members (before ++ '"' :: (name ++ '"' :: (between ++ ':' :: item)))
  | nextMember {before name between item members : List Char} (hbefore : Blank before) (hname : Body name)
      (hbetween : Blank between) (h : Wellformed .item item) (hrest : Wellformed .members members) :
      Wellformed .members (before ++ '"' :: (name ++ '"' :: (between ++ ':' :: (item ++ ',' :: members))))

/-- A value of any kind and any depth. -/
def Value (text : List Char) : Prop :=
  Wellformed .value text

end Backtrack.Json
