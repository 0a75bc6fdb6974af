import Backtrack.Stop
import Backtrack.Json.Basic

/-! Numbers in JSON documents. Only natural numbers of 64 bits are wanted; other numbers are read to their
end, because a number whose value no floating-point number can hold is rejected as malformed, and any
other one as being of the wrong kind. -/

namespace Backtrack.Json

/-- What is known of a number when some of its digits have been read: the digits that fit into 64 bits
and the power of ten by which they have to be multiplied. -/
structure Magnitude where
  significand : Nat
  exponent : Int
deriving DecidableEq, Repr

namespace Magnitude

def extend (m : Magnitude) (digit : Char) : Nat :=
  m.significand * 10 + (digit.toNat - '0'.toNat)

/-- Reads digits before the point. Once one does not fit, it and all others only count as places. -/
def addWhole (m : Magnitude) : List Char → Magnitude
  | [] => m
  | d :: digits =>
    if m.extend d ≤ counterLimit then addWhole ⟨m.extend d, 0⟩ digits
    else ⟨m.significand, digits.length + 1⟩

/-- Reads digits behind the point. Once one does not fit, it and all others are ignored. -/
def addFraction (m : Magnitude) : List Char → Magnitude
  | [] => m
  | d :: digits =>
    if m.extend d ≤ counterLimit then addFraction ⟨m.extend d, m.exponent - 1⟩ digits else m

/-- The multiple of a power of two with 53 significant bits that is nearest to `n`; of two, the one with
the even quotient. -/
def roundToDouble (n : Nat) : Nat :=
  let unit := Nat.pow 2 (n.log2 - 52)
  let quotient := n / unit
  let rest := n % unit
  if unit < 2 * rest ∨ (unit = 2 * rest ∧ quotient % 2 = 1) then (quotient + 1) * unit
  else quotient * unit

/-- The least product that is rounded to infinity. -/
def overflowBound : Nat := Nat.pow 2 1024 - Nat.pow 2 970

/-- Whether the number is beyond the largest floating-point number. The product is taken of rounded
factors, and no power of ten beyond the 308th is formed. -/
def isBeyondDouble (m : Magnitude) : Bool :=
  m.significand ≠ 0 &&
    match m.exponent with
    | .ofNat e => 308 < e || overflowBound ≤ roundToDouble m.significand * roundToDouble (Nat.pow 10 e)
    | .negSucc _ => false

end Magnitude

def isDigit (c : Char) : Bool :=
  '0' ≤ c && c ≤ '9'

def isExponentMark (c : Char) : Bool :=
  c = 'e' || c = 'E'

/-- The largest exponent that is still added up. -/
def exponentLimit : Nat := Nat.pow 2 31 - 1

def naturalOf (digits : List Char) : Nat :=
  digits.foldl (fun n d => n * 10 + (d.toNat - '0'.toNat)) 0

/-- Why a number that is no natural number of 64 bits is rejected, once all of it has been read. -/
def rejectNumber (m : Magnitude) : Rejection :=
  if m.isBeyondDouble then .malformed else .mismatch

/-- Why a number with an exponent is rejected; the text begins behind the exponent mark. -/
def rejectExponent (m : Magnitude) (text : List Char) : Rejection :=
  let signed := text.dropWhile fun c => c = '+' || c = '-'
  let sign := text.takeWhile fun c => c = '+' || c = '-'
  if 1 < sign.length then .malformed
  else
    match signed with
    | [] => .truncated
    | c :: _ =>
      if isDigit c then
        let exponent := naturalOf (signed.takeWhile isDigit)
        if exponentLimit < exponent then
          if m.significand ≠ 0 ∧ sign ≠ ['-'] then .malformed else .mismatch
        else if sign = ['-'] then rejectNumber ⟨m.significand, m.exponent - exponent⟩
        else rejectNumber ⟨m.significand, m.exponent + exponent⟩
      else .malformed

/-- Why a number with a point is rejected; the text begins behind the point. -/
def rejectFraction (m : Magnitude) (text : List Char) : Rejection :=
  match text with
  | [] => .truncated
  | c :: _ =>
    if isDigit c then
      let m := m.addFraction (text.takeWhile isDigit)
      match text.dropWhile isDigit with
      | [] => rejectNumber m
      | c :: rest => if isExponentMark c then rejectExponent m rest else rejectNumber m
    else .malformed

/-- A number without its sign. Only a natural number is an answer. -/
def unsigned (negative : Bool) (text : List Char) : Except Rejection (Nat × List Char) :=
  let digits := text.takeWhile isDigit
  let rest := text.dropWhile isDigit
  match digits with
  | [] => .error (if text.isEmpty then .truncated else .malformed)
  | first :: others =>
    if first = '0' ∧ others ≠ [] then .error .malformed
    else
      let m := Magnitude.addWhole ⟨0, 0⟩ digits
      let whole : Except Rejection (Nat × List Char) :=
        if negative then .error (rejectNumber m)
        else if m.exponent = 0 then .ok (m.significand, rest)
        else .error (rejectNumber m)
      match rest with
      | [] => whole
      | c :: behind =>
        if c = '.' then .error (rejectFraction m behind)
        else if isExponentMark c then .error (rejectExponent m behind)
        else whole

/-- A number from its sign or its first digit on. -/
def number : List Char → Except Rejection (Nat × List Char)
  | [] => .error .truncated
  | c :: rest => if c = '-' then unsigned true rest else unsigned false (c :: rest)

theorem length_of_unsigned {negative : Bool} {text rest : List Char} {n : Nat}
    (h : unsigned negative text = .ok (n, rest)) : rest.length < text.length := by
  have hsplit : (text.takeWhile isDigit).length + (text.dropWhile isDigit).length = text.length := by
    rw [← List.length_append, List.takeWhile_append_dropWhile]
  unfold unsigned at h
  dsimp only at h
  split at h
  · cases h
  · rename_i first others hdigits
    rw [hdigits, List.length_cons] at hsplit
    split at h
    · cases h
    · have hrest : rest = text.dropWhile isDigit := by
        split at h <;> (repeat' split at h) <;> cases h <;> rfl
      rw [hrest]
      omega

theorem length_of_number {text rest : List Char} {n : Nat} (h : number text = .ok (n, rest)) :
    rest.length < text.length := by
  cases text with
  | nil => cases h
  | cons c text =>
      simp only [number] at h
      split at h
      · have := length_of_unsigned h
        simp only [List.length_cons]
        omega
      · exact length_of_unsigned h

end Backtrack.Json
