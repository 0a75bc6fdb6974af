import Backtrack.Json.Skip
import Backtrack.Json.Value

/-! Parsers of records. A record is written as an object that names its fields, in any order and among
members that nobody asked for, or as an array of its fields in their own order. Fields that are not
there keep the values of a base record. -/

namespace Backtrack.Json

/-- A field of a record: its name and how its value changes the record. -/
structure Field (ρ : Type) where
  name : String
  parser : Parser (ρ → ρ)

/-- What may follow the opening bracket or an item: the next item, with the text from its first character
on, or the closing bracket, with the text behind it. A comma stands before every item but the first. -/
inductive Turn where
  | item (text : List Char)
  | finish (rest : List Char)

def nextTurn (closing : Char) (first : Bool) (text : List Char) : Except Rejection Turn :=
  match skipBlanks text with
  | [] => .error .truncated
  | c :: rest =>
    if c = closing then .ok (.finish rest)
    else if first then .ok (.item (c :: rest))
    else if c = ',' then
      match skipBlanks rest with
      | [] => .error .truncated
      | d :: rest => if d = closing then .error .malformed else .ok (.item (d :: rest))
    else .error .malformed

theorem length_of_item {closing : Char} {first : Bool} {text item : List Char}
    (h : nextTurn closing first text = .ok (.item item)) : item.length ≤ text.length := by
  have hblanks := length_skipBlanks_le text
  unfold nextTurn at h
  split at h
  · cases h
  · rename_i c rest heq
    rw [heq, List.length_cons] at hblanks
    split at h
    · cases h
    · split at h
      · cases h
        simpa using hblanks
      · split at h
        · have hrest := length_skipBlanks_le rest
          split at h
          · cases h
          · rename_i d behind heq'
            split at h
            · cases h
            · cases h
              rw [heq'] at hrest
              omega
        · cases h

theorem length_of_finish {closing : Char} {first : Bool} {text rest : List Char}
    (h : nextTurn closing first text = .ok (.finish rest)) : rest.length < text.length := by
  have hblanks := length_skipBlanks_le text
  unfold nextTurn at h
  split at h
  · cases h
  · rename_i c behind heq
    rw [heq, List.length_cons] at hblanks
    split at h
    · cases h
      omega
    · split at h
      · cases h
      · split at h
        · split at h
          · cases h
          · split at h <;> cases h
        · cases h

/-- The end of an array all of whose items have been read. -/
def closeArray (text : List Char) : Except Rejection (List Char) :=
  expect [']'] (skipBlanks text)

/-- The items of an array that lists the fields in order, up to its end. -/
def readItems {ρ : Type} (first : Bool) (record : ρ) : List (Field ρ) → List Char →
    Except Rejection (ρ × List Char)
  | [], text => (closeArray text).map fun rest => (record, rest)
  | field :: fields, text =>
    match nextTurn ']' first text with
    | .error r => .error r
    | .ok (.finish rest) => .ok (record, rest)
    | .ok (.item item) =>
      match field.parser.read item with
      | .error r => .error r
      | .ok (update, rest) => readItems false (update record) fields rest

theorem length_of_readItems {ρ : Type} {fields : List (Field ρ)} {first : Bool} {record result : ρ}
    {text rest : List Char} (h : readItems first record fields text = .ok (result, rest)) :
    rest.length < text.length := by
  induction fields generalizing first record text with
  | nil =>
      obtain ⟨behind, hclose, hpair⟩ := ok_of_map h
      have hexpect := length_of_expect hclose
      have hblanks := length_skipBlanks_le text
      cases hpair
      simp only [List.length_cons, List.length_nil] at hexpect
      omega
  | cons field fields ih =>
      simp only [readItems] at h
      split at h
      · cases h
      · rename_i behind hfinish
        cases h
        exact length_of_finish hfinish
      · rename_i item hitem
        have := length_of_item hitem
        split at h
        · cases h
        · rename_i update behind hread
          have := field.parser.progress hread
          have := ih h
          omega

/-- The members of an object, up to its end. A field must not occur twice; other members are skipped. -/
def readMembers {ρ : Type} (fields : List (Field ρ)) (seen : List String) (first : Bool) (record : ρ)
    (text : List Char) : Except Rejection (ρ × List Char) :=
  match hturn : nextTurn '\x7d' first text with
  | .error r => .error r
  | .ok (.finish rest) => .ok (record, rest)
  | .ok (.item []) => .error .truncated
  | .ok (.item (c :: rest)) =>
    if c = '"' then
      match hname : textBody rest with
      | .error r => .error r
      | .ok (name, behind) =>
        match fields.find? fun field => field.name = String.ofList name with
        | none =>
          match hcolon : expectColon behind with
          | .error r => .error r
          | .ok value =>
            match hskip : skipValue value with
            | .error r => .error r
            | .ok behind =>
              have := length_of_item hturn
              have := length_of_textBody hname
              have := length_of_expectColon hcolon
              have := length_of_skip hskip
              readMembers fields seen false record behind
        | some field =>
          if seen.contains field.name then .error .mismatch
          else
            match hcolon : expectColon behind with
            | .error r => .error r
            | .ok value =>
              match hread : field.parser.read value with
              | .error r => .error r
              | .ok (update, behind) =>
                have := length_of_item hturn
                have := length_of_textBody hname
                have := length_of_expectColon hcolon
                have := field.parser.progress hread
                readMembers fields (field.name :: seen) false (update record) behind
    else .error .malformed
termination_by text.length
decreasing_by all_goals (simp only [List.length_cons] at *; omega)

theorem length_of_readMembers {ρ : Type} {fields : List (Field ρ)} {seen : List String} {first : Bool}
    {record result : ρ} {text rest : List Char}
    (h : readMembers fields seen first record text = .ok (result, rest)) : rest.length < text.length := by
  fun_induction readMembers fields seen first record text
  case case2 =>
    cases h
    exact length_of_finish (by assumption)
  all_goals simp_all
  all_goals omega

/-- A record that begins with the bracket `c`. -/
def beginRecord {ρ : Type} (fields : List (Field ρ)) (base : ρ) (c : Char) (rest : List Char) :
    Except Rejection (ρ × List Char) :=
  if c = '[' then readItems true base fields rest
  else if c = '\x7b' then readMembers fields [] true base rest
  else .error (rejectKind c rest)

def record {ρ : Type} (fields : List (Field ρ)) (base : ρ) : Parser ρ :=
  Parser.ofBegin (beginRecord fields base) fun {c text a rest} h => by
    unfold beginRecord at h
    split at h
    · exact Nat.le_of_lt (length_of_readItems h)
    · split at h
      · exact Nat.le_of_lt (length_of_readMembers h)
      · cases h

/-- A document: one value, with nothing but blanks behind it. -/
def document {α : Type} (r : Parser α) (text : List Char) : Except Rejection α :=
  match r.read text with
  | .error e => .error e
  | .ok (a, rest) => if (skipBlanks rest).isEmpty then .ok a else .error .malformed

end Backtrack.Json
