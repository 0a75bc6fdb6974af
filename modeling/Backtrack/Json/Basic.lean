/-! Reading JSON documents from left to right. The first problem decides why a document is rejected: the
text ends too early, it is not JSON, or a value is not of the kind that is wanted. A parser takes a value
from the front of a text; it always takes at least one character. -/

namespace Backtrack.Json

inductive Rejection where
  | truncated
  | malformed
  | mismatch
deriving DecidableEq, Repr

structure Parser (α : Type) where
  read : List Char → Except Rejection (α × List Char)
  progress : ∀ {text a rest}, read text = .ok (a, rest) → rest.length < text.length

def isBlank (c : Char) : Bool :=
  c = ' ' || c = '\t' || c = '\n' || c = '\r'

def skipBlanks (text : List Char) : List Char :=
  text.dropWhile isBlank

theorem length_skipBlanks_le (text : List Char) : (skipBlanks text).length ≤ text.length :=
  (List.dropWhile_sublist isBlank).length_le

/-- The text behind the characters that have to come next. -/
def expect : List Char → List Char → Except Rejection (List Char)
  | [], text => .ok text
  | _ :: _, [] => .error .truncated
  | w :: ws, c :: rest => if c = w then expect ws rest else .error .malformed

theorem length_of_expect {word text rest : List Char} (h : expect word text = .ok rest) :
    rest.length + word.length = text.length := by
  induction word generalizing text with
  | nil =>
      cases h
      rfl
  | cons w ws ih =>
      cases text with
      | nil => cases h
      | cons c text =>
          simp only [expect] at h
          split at h
          · have := ih h
            simp only [List.length_cons]
            omega
          · cases h

/-- Passes over blanks and the colon between a name and its value. -/
def expectColon (text : List Char) : Except Rejection (List Char) :=
  expect [':'] (skipBlanks text)

theorem length_of_expectColon {text rest : List Char} (h : expectColon text = .ok rest) :
    rest.length < text.length := by
  have hexpect := length_of_expect h
  have hblanks := length_skipBlanks_le text
  simp only [List.length_cons, List.length_nil] at hexpect
  omega

end Backtrack.Json
