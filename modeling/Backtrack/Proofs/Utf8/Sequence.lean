import Mathlib.Data.List.TakeWhile
import Mathlib.Tactic.SplitIfs
import Backtrack.Utf8

/-! Sequences of bytes as the encodings of characters. A byte that follows a lead byte in a well-formed
sequence is a continuation byte, and no lead byte is one; so where a sequence ends can be seen at every
single byte. Decoding takes what was encoded apart again, whatever comes behind it. -/

namespace Backtrack.Utf8

theorem announcedLength_of_sequenceLength {lead : UInt8} {n : Nat} (h : sequenceLength lead = some n) :
    announcedLength lead = some n := by
  unfold sequenceLength at h
  unfold announcedLength
  split_ifs at h ⊢ <;> first | exact h | (exfalso; omega)

theorem isContinuation_of_announcedLength {lead : UInt8} {n : Nat} (h : announcedLength lead = some n) :
    isContinuation lead = false := by
  unfold announcedLength at h
  simp only [isContinuation, Bool.and_eq_false_iff, decide_eq_false_iff_not]
  split_ifs at h <;> omega

theorem announcedLength_pos {lead : UInt8} {n : Nat} (h : announcedLength lead = some n) : 0 < n := by
  unfold announcedLength at h
  split_ifs at h <;> simp only [Option.some.injEq] at h <;> omega

theorem isContinuation_of_isSecond {lead b : UInt8} (h : isSecond lead b = true) :
    isContinuation b = true := by
  simp only [isSecond, Bool.and_eq_true] at h
  exact h.1

theorem char?_cons_eq_some_iff {lead : UInt8} {rest : List UInt8} {c : Char} :
    char? (lead :: rest) = some c ↔
      (sequenceLength lead = some (rest.length + 1) ∧ subpartLength (lead :: rest) = rest.length + 1) ∧
        Char.ofNat (value (lead :: rest)) = c := by
  simp only [char?, List.length_cons, Option.ite_none_right_eq_some, Option.some.injEq]

theorem announcedLength_of_char? {lead : UInt8} {rest : List UInt8} {c : Char}
    (h : char? (lead :: rest) = some c) : announcedLength lead = some (rest.length + 1) :=
  announcedLength_of_sequenceLength (char?_cons_eq_some_iff.mp h).1.1

theorem isContinuation_of_char? {lead : UInt8} {rest : List UInt8} {c : Char}
    (h : char? (lead :: rest) = some c) : ∀ b ∈ rest, isContinuation b = true := by
  obtain ⟨⟨hlength, hwhole⟩, -⟩ := char?_cons_eq_some_iff.mp h
  cases rest with
  | nil => simp
  | cons second rest =>
      simp only [subpartLength, hlength, List.length_cons] at hwhole
      split_ifs at hwhole with hsecond
      · rw [List.take_length] at hwhole
        have hall : rest.takeWhile isContinuation = rest :=
          (List.takeWhile_prefix isContinuation).eq_of_length (by omega)
        rw [List.takeWhile_eq_self_iff] at hall
        exact List.forall_mem_cons.mpr ⟨isContinuation_of_isSecond hsecond, hall⟩
      · omega

theorem char?_eq_none_of_length_ne {lead : UInt8} {rest : List UInt8} {n : Nat}
    (hannounced : announcedLength lead = some n) (hlength : rest.length + 1 ≠ n) :
    char? (lead :: rest) = none := by
  rw [Option.eq_none_iff_forall_ne_some]
  intro c hc
  rw [announcedLength_of_char? hc, Option.some.injEq] at hannounced
  exact hlength hannounced

/-! ### Encoding -/

theorem isContinuation_iff {b : UInt8} : isContinuation b = true ↔ 0x80 ≤ b.toNat ∧ b.toNat < 0xC0 := by
  simp only [isContinuation, Bool.and_eq_true, decide_eq_true_eq]

theorem char?_one {a : UInt8} (ha : a.toNat < 0x80) : char? [a] = some (Char.ofNat a.toNat) := by
  have hlength : sequenceLength a = some 1 := if_pos ha
  exact char?_cons_eq_some_iff.mpr ⟨⟨hlength, by simp [subpartLength, hlength]⟩, rfl⟩

theorem char?_two {a b : UInt8} (ha : 0xC2 ≤ a.toNat ∧ a.toNat < 0xE0) (hb : isSecond a b = true) :
    char? [a, b] = some (Char.ofNat (value [a, b])) := by
  have hlength : sequenceLength a = some 2 := by
    rw [sequenceLength, if_neg (by omega), if_neg (by omega), if_pos ha.2]
  exact char?_cons_eq_some_iff.mpr ⟨⟨hlength, by simp [subpartLength, hlength, hb]⟩, rfl⟩

theorem char?_three {a b c : UInt8} (ha : 0xE0 ≤ a.toNat ∧ a.toNat < 0xF0) (hb : isSecond a b = true)
    (hc : isContinuation c = true) : char? [a, b, c] = some (Char.ofNat (value [a, b, c])) := by
  have hlength : sequenceLength a = some 3 := by
    rw [sequenceLength, if_neg (by omega), if_neg (by omega), if_neg (by omega), if_pos ha.2]
  exact char?_cons_eq_some_iff.mpr ⟨⟨hlength, by simp [subpartLength, hlength, hb, hc]⟩, rfl⟩

theorem char?_four {a b c d : UInt8} (ha : 0xF0 ≤ a.toNat ∧ a.toNat < 0xF5) (hb : isSecond a b = true)
    (hc : isContinuation c = true) (hd : isContinuation d = true) :
    char? [a, b, c, d] = some (Char.ofNat (value [a, b, c, d])) := by
  have hlength : sequenceLength a = some 4 := by
    rw [sequenceLength, if_neg (by omega), if_neg (by omega), if_neg (by omega), if_neg (by omega), if_pos ha.2]
  exact char?_cons_eq_some_iff.mpr ⟨⟨hlength, by simp [subpartLength, hlength, hb, hc, hd]⟩, rfl⟩

theorem isSecond_of_toNat {a b : UInt8} (hb : 0x80 ≤ b.toNat ∧ b.toNat < 0xC0)
    (hE0 : a.toNat = 0xE0 → 0xA0 ≤ b.toNat) (hED : a.toNat = 0xED → b.toNat < 0xA0)
    (hF0 : a.toNat = 0xF0 → 0x90 ≤ b.toNat) (hF4 : a.toNat = 0xF4 → b.toNat < 0x90) :
    isSecond a b = true := by
  simp only [isSecond, Bool.and_eq_true, isContinuation_iff]
  refine ⟨hb, ?_⟩
  split_ifs with h h h h
  · exact decide_eq_true (hE0 h)
  · exact decide_eq_true (hED h)
  · exact decide_eq_true (hF0 h)
  · exact decide_eq_true (hF4 h)
  · rfl

theorem value_two (a b : UInt8) : value [a, b] = (a.toNat - 0xC0) * 64 + (b.toNat - 0x80) := rfl

theorem value_three (a b c : UInt8) :
    value [a, b, c] = ((a.toNat - 0xE0) * 64 + (b.toNat - 0x80)) * 64 + (c.toNat - 0x80) := rfl

theorem value_four (a b c d : UInt8) :
    value [a, b, c, d] =
      (((a.toNat - 0xF0) * 64 + (b.toNat - 0x80)) * 64 + (c.toNat - 0x80)) * 64 + (d.toNat - 0x80) := rfl

/-- What encodes a character is the well-formed sequence of that character. -/
theorem char?_utf8EncodeChar (c : Char) : char? (String.utf8EncodeChar c) = some c := by
  have hvalid : c.val.toNat < 0xD800 ∨ 0xDFFF < c.val.toNat ∧ c.val.toNat < 0x110000 := c.valid
  have hc : Char.ofNat c.val.toNat = c := Char.ofNat_toNat c
  unfold String.utf8EncodeChar
  generalize c.val.toNat = v at *
  dsimp only
  -- The payload of each byte stays below the bound of its place, so no byte wraps around.
  have hnat : ∀ n, n < 256 → (UInt8.ofNat n).toNat = n := fun n h => UInt8.toNat_ofNat_of_lt' h
  have hlast := hnat (v % 0x40 + 0x80) (by omega)
  have hmiddle := hnat (v / 64 % 0x40 + 0x80) (by omega)
  have hupper := hnat (v / 4096 % 0x40 + 0x80) (by omega)
  split_ifs with hone htwo hthree
  · have ha := hnat v (by omega)
    rw [char?_one (by omega), ha, hc]
  · have ha := hnat (v / 64 % 0x20 + 0xc0) (by omega)
    have hvalue : value [UInt8.ofNat (v / 64 % 0x20 + 0xc0), UInt8.ofNat (v % 0x40 + 0x80)] = v := by
      rw [value_two]
      omega
    rw [char?_two (by omega) (isSecond_of_toNat (by omega) (by omega) (by omega) (by omega) (by omega)),
      hvalue, hc]
  · have ha := hnat (v / 4096 % 0x10 + 0xe0) (by omega)
    have hvalue : value [UInt8.ofNat (v / 4096 % 0x10 + 0xe0), UInt8.ofNat (v / 64 % 0x40 + 0x80),
        UInt8.ofNat (v % 0x40 + 0x80)] = v := by
      rw [value_three]
      omega
    rw [char?_three (by omega) (isSecond_of_toNat (by omega) (by omega) (by omega) (by omega) (by omega))
      (isContinuation_iff.mpr (by omega)), hvalue, hc]
  · have ha := hnat (v / 262144 % 0x08 + 0xf0) (by omega)
    have hvalue : value [UInt8.ofNat (v / 262144 % 0x08 + 0xf0), UInt8.ofNat (v / 4096 % 0x40 + 0x80),
        UInt8.ofNat (v / 64 % 0x40 + 0x80), UInt8.ofNat (v % 0x40 + 0x80)] = v := by
      rw [value_four]
      omega
    rw [char?_four (by omega) (isSecond_of_toNat (by omega) (by omega) (by omega) (by omega) (by omega))
      (isContinuation_iff.mpr (by omega)) (isContinuation_iff.mpr (by omega)), hvalue, hc]

/-! ### Decoding -/

theorem decode_cons_of_none {lead : UInt8} {rest : List UInt8}
    (h : ∀ n, announcedLength lead = some n → char? ((lead :: rest).take n) = none) :
    decode (lead :: rest) = replacement :: decode rest := by
  rw [decode]
  cases hn : announcedLength lead with
  | none => rfl
  | some n => simp only [h n hn]

theorem decode_cons_of_some {lead : UInt8} {rest : List UInt8} {n : Nat} {c : Char}
    (hn : announcedLength lead = some n) (hc : char? ((lead :: rest).take n) = some c) :
    decode (lead :: rest) = c :: decode ((lead :: rest).drop n) := by
  obtain ⟨n, rfl⟩ := Nat.exists_eq_succ_of_ne_zero (announcedLength_pos hn).ne'
  rw [decode]
  simp only [hn, hc, Nat.succ_eq_add_one, Nat.add_sub_cancel, List.drop_succ_cons]

theorem length_decode_le (bytes : List UInt8) : (decode bytes).length ≤ bytes.length := by
  induction bytes using decode.induct with
  | case1 => simp [decode]
  | case2 lead rest hnone ih =>
      rw [decode_cons_of_none fun n hn => by rw [hnone] at hn; cases hn]
      exact Nat.succ_le_succ ih
  | case3 lead rest n hn hnone ih =>
      rw [decode_cons_of_none fun m hm => by rw [hn, Option.some.injEq] at hm; exact hm ▸ hnone]
      exact Nat.succ_le_succ ih
  | case4 lead rest n hn c hc ih =>
      obtain ⟨n, rfl⟩ := Nat.exists_eq_succ_of_ne_zero (announcedLength_pos hn).ne'
      rw [decode_cons_of_some hn hc, List.drop_succ_cons]
      rw [Nat.succ_eq_add_one, Nat.add_sub_cancel, List.length_drop] at ih
      simp only [List.length_cons]
      omega

/-- A well-formed sequence is decoded to its character, whatever comes behind it. -/
theorem decode_append_of_char? {bytes : List UInt8} {c : Char} (h : char? bytes = some c)
    (rest : List UInt8) : decode (bytes ++ rest) = c :: decode rest := by
  cases bytes with
  | nil => simp [char?] at h
  | cons lead tail =>
      have hn := announcedLength_of_char? h
      have htake : (lead :: tail ++ rest).take (tail.length + 1) = lead :: tail := List.take_left' rfl
      have hdrop : (lead :: tail ++ rest).drop (tail.length + 1) = rest := List.drop_left' rfl
      rw [List.cons_append] at htake hdrop ⊢
      rw [decode_cons_of_some hn (htake.symm ▸ h), hdrop]

theorem decode_encode_append (text : List Char) (rest : List UInt8) :
    decode (encode text ++ rest) = text ++ decode rest := by
  induction text with
  | nil => rfl
  | cons c text ih =>
      rw [encode, List.flatMap_cons, List.append_assoc, decode_append_of_char? (char?_utf8EncodeChar c),
        ← encode, ih, List.cons_append]

theorem decode_encode (text : List Char) : decode (encode text) = text := by
  simpa [decode] using decode_encode_append text []

/-! ### Synchronisation

A sequence that breaks off at the end of some bytes is not completed by what follows, unless that begins
with a continuation byte. -/

theorem le_length_of_char?_take {lead : UInt8} {rest : List UInt8} {n : Nat} {c : Char}
    (hn : announcedLength lead = some n) (hc : char? ((lead :: rest).take n) = some c) :
    n ≤ (lead :: rest).length := by
  obtain ⟨n, rfl⟩ := Nat.exists_eq_succ_of_ne_zero (announcedLength_pos hn).ne'
  rw [List.take_succ_cons] at hc
  have hlength := announcedLength_of_char? hc
  rw [hn, Option.some.injEq, List.length_take] at hlength
  rw [List.length_cons]
  omega

theorem char?_take_append_eq_none {lead : UInt8} {rest more : List UInt8} {n : Nat}
    (hnone : char? ((lead :: rest).take n) = none)
    (hmore : ∀ b ∈ more.head?, isContinuation b = false) :
    char? ((lead :: rest ++ more).take n) = none := by
  rw [Option.eq_none_iff_forall_ne_some]
  intro c hc
  have hle : ¬n ≤ (lead :: rest).length := by
    intro hle
    rw [List.take_append_of_le_length hle, hnone] at hc
    cases hc
  have htake : (lead :: rest ++ more).take n = lead :: (rest ++ more.take (n - (lead :: rest).length)) := by
    rw [List.take_append, List.take_of_length_le (by omega), List.cons_append]
  rw [htake] at hc
  have hall := isContinuation_of_char? hc
  cases more with
  | nil =>
      rw [List.append_nil] at htake
      rw [htake, hc] at hnone
      cases hnone
  | cons b more =>
      obtain ⟨k, hk⟩ : ∃ k, n - (lead :: rest).length = k + 1 := ⟨n - (lead :: rest).length - 1, by omega⟩
      rw [hk, List.take_succ_cons] at hall
      have hb := hall b (List.mem_append_right _ List.mem_cons_self)
      rw [hmore b (by simp)] at hb
      cases hb

theorem decode_append {left right : List UInt8} (h : ∀ b ∈ right.head?, isContinuation b = false) :
    decode (left ++ right) = decode left ++ decode right := by
  induction left using decode.induct with
  | case1 => simp [decode]
  | case2 lead rest hnone ih =>
      have hleft : decode (lead :: rest) = replacement :: decode rest :=
        decode_cons_of_none fun n hn => by rw [hnone] at hn; cases hn
      have hboth : decode (lead :: (rest ++ right)) = replacement :: decode (rest ++ right) :=
        decode_cons_of_none fun n hn => by rw [hnone] at hn; cases hn
      rw [List.cons_append, hboth, hleft, ih, List.cons_append]
  | case3 lead rest n hn hnone ih =>
      have hleft : decode (lead :: rest) = replacement :: decode rest :=
        decode_cons_of_none fun m hm => by
          rw [hn, Option.some.injEq] at hm
          exact hm ▸ hnone
      have hboth : decode (lead :: (rest ++ right)) = replacement :: decode (rest ++ right) :=
        decode_cons_of_none fun m hm => by
          rw [hn, Option.some.injEq] at hm
          exact hm ▸ char?_take_append_eq_none hnone h
      rw [List.cons_append, hboth, hleft, ih, List.cons_append]
  | case4 lead rest n hn c hc ih =>
      have hle := le_length_of_char?_take hn hc
      have hdrop : (lead :: rest).drop n = rest.drop (n - 1) := by
        obtain ⟨m, rfl⟩ := Nat.exists_eq_succ_of_ne_zero (announcedLength_pos hn).ne'
        rfl
      have htake : (lead :: rest ++ right).take n = (lead :: rest).take n :=
        List.take_append_of_le_length hle
      have hboth : decode (lead :: rest ++ right) = c :: decode ((lead :: rest ++ right).drop n) :=
        decode_cons_of_some hn ((congrArg char? htake).trans hc)
      rw [hboth, List.drop_append_of_le_length hle, decode_cons_of_some hn hc, hdrop, ih, List.cons_append]

/-- No text in the encoded form begins with a continuation byte. -/
theorem isContinuation_head_encode (text : List Char) :
    ∀ b ∈ (encode text).head?, isContinuation b = false := by
  intro b hb
  cases text with
  | nil => cases hb
  | cons c text =>
      have hc := char?_utf8EncodeChar c
      rw [encode, List.flatMap_cons] at hb
      cases hencoded : String.utf8EncodeChar c with
      | nil => exact absurd hencoded String.utf8EncodeChar_ne_nil
      | cons lead rest =>
          rw [hencoded] at hb hc
          rw [List.cons_append, List.head?_cons, Option.mem_some_iff] at hb
          exact hb ▸ isContinuation_of_announcedLength (announcedLength_of_char? hc)

end Backtrack.Utf8
