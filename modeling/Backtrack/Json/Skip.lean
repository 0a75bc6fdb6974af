import Backtrack.Json.Number
import Backtrack.Json.Text

/-! Passing over values that nobody asked for. They have to be well-formed, however deeply they are nested,
but their texts may hold half a pair of surrogates and their numbers may have any size. The brackets
that are open are kept in a stack. -/

namespace Backtrack.Json

/-- Behind the opening quote of a text up to its closing quote. -/
def skipText (text : List Char) : Except Rejection (List Char) :=
  match text with
  | [] => .error .truncated
  | c :: rest =>
    if c = '"' then .ok rest
    else if c = '\\' then
      match rest with
      | [] => .error .truncated
      | d :: behind =>
        if d = 'u' then
          match hhex : hexFour behind with
          | .error r => .error r
          | .ok (_, behind) =>
            have := length_of_hexFour hhex
            skipText behind
        else if (shortEscape? d).isSome then skipText behind
        else .error .malformed
    else if isControl c then .error .malformed
    else skipText rest
termination_by text.length

theorem length_of_skipText {text rest : List Char} (h : skipText text = .ok rest) :
    rest.length < text.length := by
  fun_induction skipText text <;> simp_all
  all_goals omega

/-- Digits, of which there has to be at least one. -/
def skipDigits (text : List Char) : Except Rejection (List Char) :=
  if (text.takeWhile isDigit).isEmpty then .error .malformed else .ok (text.dropWhile isDigit)

theorem length_of_skipDigits {text rest : List Char} (h : skipDigits text = .ok rest) :
    rest.length < text.length := by
  have hsplit : (text.takeWhile isDigit).length + (text.dropWhile isDigit).length = text.length := by
    rw [← List.length_append, List.takeWhile_append_dropWhile]
  unfold skipDigits at h
  split at h
  · cases h
  · rename_i hne
    cases h
    have : 0 < (text.takeWhile isDigit).length := by
      rw [List.length_pos_iff]
      simpa using hne
    omega

/-- The exponent of a number, if there is one. -/
def skipExponent : List Char → Except Rejection (List Char)
  | [] => .ok []
  | c :: rest =>
    if isExponentMark c then
      match rest with
      | [] => .error .malformed
      | d :: behind => if d = '+' || d = '-' then skipDigits behind else skipDigits (d :: behind)
    else .ok (c :: rest)

theorem length_of_skipExponent {text rest : List Char} (h : skipExponent text = .ok rest) :
    rest.length ≤ text.length := by
  cases text with
  | nil =>
      cases h
      exact Nat.le_refl _
  | cons c text =>
      simp only [skipExponent] at h
      split at h
      · split at h
        · cases h
        · split at h
          · have := length_of_skipDigits h
            simp only [List.length_cons]
            omega
          · have := length_of_skipDigits h
            simp only [List.length_cons] at this ⊢
            omega
      · cases h
        exact Nat.le_refl _

/-- What may stand behind the digits before the point. -/
def skipFraction : List Char → Except Rejection (List Char)
  | [] => .ok []
  | c :: rest =>
    if c = '.' then
      match skipDigits rest with
      | .error r => .error r
      | .ok behind => skipExponent behind
    else skipExponent (c :: rest)

theorem length_of_skipFraction {text rest : List Char} (h : skipFraction text = .ok rest) :
    rest.length ≤ text.length := by
  cases text with
  | nil =>
      cases h
      exact Nat.le_refl _
  | cons c text =>
      simp only [skipFraction] at h
      split at h
      · split at h
        · cases h
        · rename_i behind hdigits
          have := length_of_skipDigits hdigits
          have := length_of_skipExponent h
          simp only [List.length_cons]
          omega
      · exact length_of_skipExponent h

/-- A number without its sign. It is malformed also where the text ends within it. -/
def skipUnsigned (text : List Char) : Except Rejection (List Char) :=
  match skipDigits text with
  | .error r => .error r
  | .ok behind =>
    if text.head? = some '0' ∧ 1 < (text.takeWhile isDigit).length then .error .malformed
    else skipFraction behind

theorem length_of_skipUnsigned {text rest : List Char} (h : skipUnsigned text = .ok rest) :
    rest.length < text.length := by
  unfold skipUnsigned at h
  split at h
  · cases h
  · rename_i behind hdigits
    have := length_of_skipDigits hdigits
    split at h
    · cases h
    · have := length_of_skipFraction h
      omega

/-- A value that begins with `c` and is neither an array nor an object. -/
def skipScalar (c : Char) (rest : List Char) : Except Rejection (List Char) :=
  if c = '"' then skipText rest
  else if c = 'n' then expect ['u', 'l', 'l'] rest
  else if c = 't' then expect ['r', 'u', 'e'] rest
  else if c = 'f' then expect ['a', 'l', 's', 'e'] rest
  else if c = '-' then skipUnsigned rest
  else if isDigit c then skipUnsigned (c :: rest)
  else .error .malformed

theorem length_of_skipScalar {c : Char} {text rest : List Char} (h : skipScalar c text = .ok rest) :
    rest.length ≤ text.length := by
  unfold skipScalar at h
  repeat' split at h
  · have := length_of_skipText h
    omega
  · have := length_of_expect h
    omega
  · have := length_of_expect h
    omega
  · have := length_of_expect h
    omega
  · have := length_of_skipUnsigned h
    omega
  · have := length_of_skipUnsigned h
    simp only [List.length_cons] at this
    omega
  · cases h

inductive Bracket where
  | array
  | object
deriving DecidableEq, Repr

def Bracket.closing : Bracket → Char
  | .array => ']'
  | .object => '}'

/-- What may come next. -/
inductive Place where
  /-- a value -/
  | value
  /-- the name of a member -/
  | name
  /-- the first item between brackets, or their end -/
  | opened
  /-- a comma or the end of the brackets -/
  | follow
deriving DecidableEq, Repr

/-- Where the items of brackets begin. -/
def Bracket.item : Bracket → Place
  | .array => .value
  | .object => .name

def Place.rank : Place → Nat
  | .opened => 1
  | _ => 0

/-- Passes over what is missing of a value at the given place, up to the end of the outermost brackets. -/
def skip (place : Place) (stack : List Bracket) (text : List Char) : Except Rejection (List Char) :=
  match text with
  | [] => .error .truncated
  | c :: rest =>
    if isBlank c then skip place stack rest
    else
      match place, stack with
      | .value, stack =>
        if c = '[' then skip .opened (.array :: stack) rest
        else if c = '{' then skip .opened (.object :: stack) rest
        else
          match hscalar : skipScalar c rest with
          | .error r => .error r
          | .ok behind =>
            have := length_of_skipScalar hscalar
            if stack.isEmpty then .ok behind else skip .follow stack behind
      | .name, stack =>
        if c = '"' then
          match hname : skipText rest with
          | .error r => .error r
          | .ok behind =>
            have := length_of_skipText hname
            match hcolon : expectColon behind with
            | .error r => .error r
            | .ok behind =>
              have := length_of_expectColon hcolon
              skip .value stack behind
        else .error .malformed
      | .opened, [] => .error .malformed
      | .opened, bracket :: outer =>
        if c = bracket.closing then
          if outer.isEmpty then .ok rest else skip .follow outer rest
        else skip bracket.item (bracket :: outer) (c :: rest)
      | .follow, [] => .error .malformed
      | .follow, bracket :: outer =>
        if c = bracket.closing then
          if outer.isEmpty then .ok rest else skip .follow outer rest
        else if c = ',' then skip bracket.item (bracket :: outer) rest
        else .error .malformed
termination_by (text.length, place.rank)
decreasing_by
  all_goals first
    | (apply Prod.Lex.left; simp only [List.length_cons]; omega)
    | (apply Prod.Lex.right; cases bracket <;> decide)

theorem length_of_skip {place : Place} {stack : List Bracket} {text rest : List Char}
    (h : skip place stack text = .ok rest) : rest.length < text.length := by
  fun_induction skip place stack text <;> simp_all
  all_goals omega

/-- Passes over one value. -/
def skipValue (text : List Char) : Except Rejection (List Char) :=
  skip .value [] text

end Backtrack.Json
