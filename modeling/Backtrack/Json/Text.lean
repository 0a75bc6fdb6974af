import Backtrack.Json.Basic

/-! Texts in JSON documents. Reading takes what follows the opening quote up to the closing one. An escape
by code takes four hexadecimal digits; characters beyond the first 65536 are escaped by a pair of
surrogates. Writing escapes the quote, the backslash and the controls, and nothing else. -/

namespace Backtrack.Json

def hexValue? (c : Char) : Option Nat :=
  if '0' ≤ c ∧ c ≤ '9' then some (c.toNat - '0'.toNat)
  else if 'a' ≤ c ∧ c ≤ 'f' then some (c.toNat - 'a'.toNat + 10)
  else if 'A' ≤ c ∧ c ≤ 'F' then some (c.toNat - 'A'.toNat + 10)
  else none

/-- Four hexadecimal digits. A text that has not even four bytes left is cut off, whatever they are. -/
def hexFour : List Char → Except Rejection (Nat × List Char)
  | a :: b :: c :: d :: rest =>
    match hexValue? a, hexValue? b, hexValue? c, hexValue? d with
    | some a, some b, some c, some d => .ok (((a * 16 + b) * 16 + c) * 16 + d, rest)
    | _, _, _, _ => .error .malformed
  | text => .error (if text.foldl (fun n c => n + c.utf8Size) 0 < 4 then .truncated else .malformed)

theorem length_of_hexFour {text rest : List Char} {n : Nat} (h : hexFour text = .ok (n, rest)) :
    rest.length < text.length := by
  unfold hexFour at h
  split at h
  · split at h
    · cases h
      simp only [List.length_cons]
      omega
    · cases h
  · cases h

def isHighSurrogate (n : Nat) : Bool :=
  0xD800 ≤ n && n < 0xDC00

def isLowSurrogate (n : Nat) : Bool :=
  0xDC00 ≤ n && n < 0xE000

/-- The character that an escape by code stands for, with the text behind its digits. -/
def unicodeEscape (text : List Char) : Except Rejection (Char × List Char) :=
  match hexFour text with
  | .error r => .error r
  | .ok (high, rest) =>
    if isLowSurrogate high then .error .malformed
    else if isHighSurrogate high then
      match expect ['\\', 'u'] rest with
      | .error r => .error r
      | .ok rest =>
        match hexFour rest with
        | .error r => .error r
        | .ok (low, rest) =>
          if isLowSurrogate low then
            .ok (Char.ofNat (0x10000 + (high - 0xD800) * 0x400 + (low - 0xDC00)), rest)
          else .error .malformed
    else .ok (Char.ofNat high, rest)

theorem length_of_unicodeEscape {text rest : List Char} {c : Char}
    (h : unicodeEscape text = .ok (c, rest)) : rest.length < text.length := by
  unfold unicodeEscape at h
  split at h
  · cases h
  · rename_i high after hhigh
    have hlt := length_of_hexFour hhigh
    split at h
    · cases h
    · split at h
      · split at h
        · cases h
        · rename_i after' hexpect
          have := length_of_expect hexpect
          split at h
          · cases h
          · rename_i low after'' hlow
            have := length_of_hexFour hlow
            split at h
            · simp only [Except.ok.injEq, Prod.mk.injEq] at h
              obtain ⟨_, rfl⟩ := h
              omega
            · cases h
      · simp only [Except.ok.injEq, Prod.mk.injEq] at h
        obtain ⟨_, rfl⟩ := h
        exact hlt

/-- The character that a letter behind a backslash stands for. -/
def shortEscape? (c : Char) : Option Char :=
  if c = '"' || c = '\\' || c = '/' then some c
  else if c = 'b' then some '\x08'
  else if c = 'f' then some '\x0c'
  else if c = 'n' then some '\n'
  else if c = 'r' then some '\r'
  else if c = 't' then some '\t'
  else none

/-- What stands behind a backslash. -/
def escape : List Char → Except Rejection (Char × List Char)
  | [] => .error .truncated
  | c :: rest =>
    if c = 'u' then unicodeEscape rest
    else
      match shortEscape? c with
      | some d => .ok (d, rest)
      | none => .error .malformed

theorem length_of_escape {text rest : List Char} {c : Char} (h : escape text = .ok (c, rest)) :
    rest.length < text.length := by
  cases text with
  | nil => cases h
  | cons d text =>
      simp only [escape] at h
      split at h
      · have := length_of_unicodeEscape h
        simp only [List.length_cons]
        omega
      · split at h
        · cases h
          simp
        · cases h

def isControl (c : Char) : Bool :=
  c.toNat < 0x20

/-- The text up to the closing quote, and what is behind it. -/
def textBody (text : List Char) : Except Rejection (List Char × List Char) :=
  match text with
  | [] => .error .truncated
  | c :: rest =>
    if c = '"' then .ok ([], rest)
    else if c = '\\' then
      match hescape : escape rest with
      | .error r => .error r
      | .ok (d, behind) =>
        have := length_of_escape hescape
        match textBody behind with
        | .error r => .error r
        | .ok (body, behind) => .ok (d :: body, behind)
    else if isControl c then .error .malformed
    else
      match textBody rest with
      | .error r => .error r
      | .ok (body, behind) => .ok (c :: body, behind)
termination_by text.length

theorem length_of_textBody {text body rest : List Char} (h : textBody text = .ok (body, rest)) :
    rest.length < text.length := by
  induction hlen : text.length using Nat.strongRecOn generalizing text body rest with
  | ind n ih =>
      subst hlen
      unfold textBody at h
      split at h
      · cases h
      · rename_i c after
        split at h
        · cases h
          simp
        · split at h
          · split at h
            · cases h
            · rename_i d behind hescape
              have hlt := length_of_escape hescape
              split at h
              · cases h
              · rename_i body' behind' hbody
                cases h
                have := ih behind.length (by simp only [List.length_cons]; omega) hbody rfl
                simp only [List.length_cons]
                omega
          · split at h
            · cases h
            · split at h
              · cases h
              · rename_i body' behind' hbody
                cases h
                have := ih after.length (by simp) hbody rfl
                simp only [List.length_cons]
                omega

/-- The written form of a character between quotes. -/
def escaped (c : Char) : List Char :=
  if c = '"' || c = '\\' then ['\\', c]
  else if c = '\x08' then ['\\', 'b']
  else if c = '\x0c' then ['\\', 'f']
  else if c = '\n' then ['\\', 'n']
  else if c = '\r' then ['\\', 'r']
  else if c = '\t' then ['\\', 't']
  else if isControl c then
    ['\\', 'u', '0', '0', Nat.digitChar (c.toNat / 16), Nat.digitChar (c.toNat % 16)]
  else [c]

def writeText (text : List Char) : List Char :=
  ['"'] ++ text.flatMap escaped ++ ['"']

end Backtrack.Json
