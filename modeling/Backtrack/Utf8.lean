/-! Reading UTF-8. A lead byte announces the length of its sequence; a sequence of that length either is
the well-formed encoding of one character or is ill-formed. Two decoders replace what is ill-formed by
U+FFFD: `decode` gives up one byte at a time, and `decodeLossy` gives up at once the longest prefix that
could still have become a character. -/

namespace Backtrack.Utf8

/-- The character that stands for bytes that are not text. -/
def replacement : Char := '\uFFFD'

/-- The number of bytes that a lead byte announces. Leads that announce a length but begin no
well-formed sequence are included. -/
def announcedLength (lead : UInt8) : Option Nat :=
  if lead.toNat < 0x80 then some 1
  else if lead.toNat < 0xC0 then none
  else if lead.toNat < 0xE0 then some 2
  else if lead.toNat < 0xF0 then some 3
  else if lead.toNat < 0xF8 then some 4
  else none

theorem announcedLength_le {lead : UInt8} {n : Nat} (h : announcedLength lead = some n) : n ≤ 4 := by
  unfold announcedLength at h
  (repeat' split at h) <;> simp at h <;> omega

def isContinuation (b : UInt8) : Bool :=
  0x80 ≤ b.toNat && b.toNat < 0xC0

/-- The number of bytes of the well-formed sequences that begin with a lead byte, if there are any. -/
def sequenceLength (lead : UInt8) : Option Nat :=
  if lead.toNat < 0x80 then some 1
  else if lead.toNat < 0xC2 then none
  else if lead.toNat < 0xE0 then some 2
  else if lead.toNat < 0xF0 then some 3
  else if lead.toNat < 0xF5 then some 4
  else none

/-- Whether `b` may follow the lead byte: a continuation byte that makes the sequence neither longer
than it has to be, nor a surrogate, nor a number beyond the last character. -/
def isSecond (lead b : UInt8) : Bool :=
  isContinuation b &&
    (if lead.toNat = 0xE0 then 0xA0 ≤ b.toNat
     else if lead.toNat = 0xED then b.toNat < 0xA0
     else if lead.toNat = 0xF0 then 0x90 ≤ b.toNat
     else if lead.toNat = 0xF4 then b.toNat < 0x90
     else true)

/-- The length of the longest prefix that can be continued to, or is, a well-formed sequence; one if
not even the first byte can. -/
def subpartLength : List UInt8 → Nat
  | [] => 0
  | lead :: rest =>
    match sequenceLength lead, rest with
    | some (n + 2), second :: rest =>
      if isSecond lead second then 2 + ((rest.take n).takeWhile isContinuation).length else 1
    | _, _ => 1

/-- The value of a sequence: the payload of the lead byte, then six bits from each further byte. -/
def value : List UInt8 → Nat
  | [a] => a.toNat
  | [a, b] => (a.toNat - 0xC0) * 64 + (b.toNat - 0x80)
  | [a, b, c] => ((a.toNat - 0xE0) * 64 + (b.toNat - 0x80)) * 64 + (c.toNat - 0x80)
  | [a, b, c, d] =>
    (((a.toNat - 0xF0) * 64 + (b.toNat - 0x80)) * 64 + (c.toNat - 0x80)) * 64 + (d.toNat - 0x80)
  | _ => 0

/-- The character of which the bytes are the encoding. -/
def char? (bytes : List UInt8) : Option Char :=
  match bytes with
  | [] => none
  | lead :: _ =>
    if sequenceLength lead = some bytes.length ∧ subpartLength bytes = bytes.length then
      some (Char.ofNat (value bytes))
    else none

/-- The text with every byte that begins no well-formed sequence replaced by U+FFFD. -/
def decode : List UInt8 → List Char
  | [] => []
  | lead :: rest =>
    match announcedLength lead with
    | none => replacement :: decode rest
    | some n =>
      match char? ((lead :: rest).take n) with
      | none => replacement :: decode rest
      | some c => c :: decode (rest.drop (n - 1))
termination_by bytes => bytes.length
decreasing_by all_goals (simp; try omega)

/-- The text with every longest beginning of a sequence that is not completed replaced by U+FFFD. -/
def decodeLossy : List UInt8 → List Char
  | [] => []
  | lead :: rest =>
    match char? ((lead :: rest).take ((sequenceLength lead).getD 1)) with
    | some c => c :: decodeLossy (rest.drop ((sequenceLength lead).getD 1 - 1))
    | none => replacement :: decodeLossy (rest.drop (subpartLength (lead :: rest) - 1))
termination_by bytes => bytes.length
decreasing_by all_goals (simp; try omega)

/-- The text, if the bytes are well-formed throughout. -/
def decodeStrict? : List UInt8 → Option (List Char)
  | [] => some []
  | lead :: rest =>
    match char? ((lead :: rest).take ((sequenceLength lead).getD 1)) with
    | some c => (decodeStrict? (rest.drop ((sequenceLength lead).getD 1 - 1))).map (c :: ·)
    | none => none
termination_by bytes => bytes.length
decreasing_by all_goals (simp; try omega)

def encode (text : List Char) : List UInt8 :=
  text.flatMap String.utf8EncodeChar

end Backtrack.Utf8
