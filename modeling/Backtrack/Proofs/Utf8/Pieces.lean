import Mathlib.Data.List.Basic
import Mathlib.Data.List.Induction
import Mathlib.Tactic.TFAE
import Backtrack.Proofs.Utf8.Lossy

/-! What decoding takes bytes apart into. Every byte belongs to the well-formed sequence of a character or is given
up alone, and nothing is lost: the pieces put together again are the bytes. So what the decoded text is longer than
the bytes it comes from tells how many of them have been given up. -/

namespace Backtrack.Utf8

/-! ### Sequences and their characters -/

theorem sequenceLength_cases {lead : UInt8} {n : Nat} (h : sequenceLength lead = some n) :
    n = 1 ∧ lead.toNat < 0x80 ∨ n = 2 ∧ 0xC2 ≤ lead.toNat ∧ lead.toNat < 0xE0 ∨
      n = 3 ∧ 0xE0 ≤ lead.toNat ∧ lead.toNat < 0xF0 ∨ n = 4 ∧ 0xF0 ≤ lead.toNat ∧ lead.toNat < 0xF5 := by
  unfold sequenceLength at h
  split_ifs at h <;> simp only [Option.some.injEq] at h <;> omega

theorem isSecond_of_char? {lead b : UInt8} {rest : List UInt8} {c : Char} (h : char? (lead :: b :: rest) = some c) :
    isSecond lead b = true := by
  obtain ⟨⟨hlength, hwhole⟩, -⟩ := char?_cons_eq_some_iff.mp h
  simp only [subpartLength, hlength, List.length_cons] at hwhole
  split_ifs at hwhole with hsecond
  · exact hsecond
  · omega

theorem isSecond_bounds {a b : UInt8} (h : isSecond a b = true) :
    (0x80 ≤ b.toNat ∧ b.toNat < 0xC0) ∧ (a.toNat = 0xE0 → 0xA0 ≤ b.toNat) ∧ (a.toNat = 0xED → b.toNat < 0xA0) ∧
      (a.toNat = 0xF0 → 0x90 ≤ b.toNat) ∧ (a.toNat = 0xF4 → b.toNat < 0x90) := by
  simp only [isSecond, Bool.and_eq_true, isContinuation_iff] at h
  obtain ⟨hb, hrest⟩ := h
  split_ifs at hrest <;> simp only [decide_eq_true_eq] at hrest <;> omega

theorem ofNat_eq_of_toNat {b : UInt8} {n : Nat} (h : n = b.toNat) : UInt8.ofNat n = b := by
  rw [h, UInt8.ofNat_toNat]

theorem toNat_ofNat_of_isValidChar {n : Nat} (h : n.isValidChar) : (Char.ofNat n).val.toNat = n := by
  rw [Char.ofNat, dif_pos h]
  rfl

/-- A well-formed sequence is what encodes its character. -/
theorem utf8EncodeChar_of_char? {bytes : List UInt8} {c : Char} (h : char? bytes = some c) :
    String.utf8EncodeChar c = bytes := by
  cases bytes with
  | nil => simp [char?] at h
  | cons lead rest =>
      have hrest := isContinuation_of_char? h
      obtain ⟨⟨hlength, -⟩, hc⟩ := char?_cons_eq_some_iff.mp h
      have hlead := sequenceLength_cases hlength
      -- the value is that of a character, so it is the number of this one
      have hval : ∀ n, value (lead :: rest) = n → n.isValidChar → c.val.toNat = n := by
        rintro n rfl hvalid
        rw [← hc, toNat_ofNat_of_isValidChar hvalid]
      unfold String.utf8EncodeChar
      generalize c.val.toNat = v at hval
      dsimp only
      rcases rest with _ | ⟨b, _ | ⟨d, _ | ⟨e, _ | ⟨f, rest⟩⟩⟩⟩
      · have hone : lead.toNat < 0x80 := by simpa using hlead
        obtain rfl := hval lead.toNat rfl (.inl (by omega))
        rw [if_pos (by omega), UInt8.ofNat_toNat]
      · have htwo : 0xC2 ≤ lead.toNat ∧ lead.toNat < 0xE0 := by simpa using hlead
        simp only [List.forall_mem_cons, isContinuation_iff] at hrest
        have hv := hval _ (value_two lead b) (.inl (by omega))
        rw [if_neg (by omega), if_pos (by omega), ofNat_eq_of_toNat (b := lead) (by omega),
          ofNat_eq_of_toNat (b := b) (by omega)]
      · have hb := isSecond_bounds (isSecond_of_char? h)
        have hthree : 0xE0 ≤ lead.toNat ∧ lead.toNat < 0xF0 := by simpa using hlead
        simp only [List.forall_mem_cons, isContinuation_iff] at hrest
        have hv := hval _ (value_three lead b d) (by unfold Nat.isValidChar; omega)
        rw [if_neg (by omega), if_neg (by omega), if_pos (by omega), ofNat_eq_of_toNat (b := lead) (by omega),
          ofNat_eq_of_toNat (b := b) (by omega), ofNat_eq_of_toNat (b := d) (by omega)]
      · have hb := isSecond_bounds (isSecond_of_char? h)
        have hfour : 0xF0 ≤ lead.toNat ∧ lead.toNat < 0xF5 := by simpa using hlead
        simp only [List.forall_mem_cons, isContinuation_iff] at hrest
        have hv := hval _ (value_four lead b d e) (by unfold Nat.isValidChar; omega)
        rw [if_neg (by omega), if_neg (by omega), if_neg (by omega), ofNat_eq_of_toNat (b := lead) (by omega),
          ofNat_eq_of_toNat (b := b) (by omega), ofNat_eq_of_toNat (b := d) (by omega),
          ofNat_eq_of_toNat (b := e) (by omega)]
      · simp only [List.length_cons] at hlead
        omega

/-! ### Pieces -/

/-- A character, whose sequence is well-formed, or a byte that is given up. -/
inductive Piece where
  | char (c : Char)
  | stray (b : UInt8)
deriving DecidableEq, Repr

namespace Piece

/-- The character that is decoded. -/
def shown : Piece → Char
  | char c => c
  | stray _ => replacement

def bytes : Piece → List UInt8
  | char c => String.utf8EncodeChar c
  | stray b => [b]

def stray? : Piece → Option UInt8
  | char _ => none
  | stray b => some b

end Piece

/-- The pieces of some bytes. -/
def pieces : List UInt8 → List Piece
  | [] => []
  | lead :: rest =>
    match announcedLength lead with
    | none => .stray lead :: pieces rest
    | some n =>
      match char? ((lead :: rest).take n) with
      | none => .stray lead :: pieces rest
      | some c => .char c :: pieces (rest.drop (n - 1))
termination_by bytes => bytes.length
decreasing_by all_goals (simp; try omega)

theorem pieces_cons_of_none {lead : UInt8} {rest : List UInt8}
    (h : ∀ n, announcedLength lead = some n → char? ((lead :: rest).take n) = none) :
    pieces (lead :: rest) = .stray lead :: pieces rest := by
  rw [pieces]
  cases hn : announcedLength lead with
  | none => rfl
  | some n => simp only [h n hn]

theorem pieces_cons_of_some {lead : UInt8} {rest : List UInt8} {n : Nat} {c : Char}
    (hn : announcedLength lead = some n) (hc : char? ((lead :: rest).take n) = some c) :
    pieces (lead :: rest) = .char c :: pieces ((lead :: rest).drop n) := by
  obtain ⟨n, rfl⟩ := Nat.exists_eq_succ_of_ne_zero (announcedLength_pos hn).ne'
  rw [pieces]
  simp only [hn, hc, Nat.succ_eq_add_one, Nat.add_sub_cancel, List.drop_succ_cons]

/-- What is decoded is what the pieces show. -/
theorem decode_eq_shown (bytes : List UInt8) : decode bytes = (pieces bytes).map Piece.shown := by
  induction bytes using pieces.induct with
  | case1 => simp [decode, pieces]
  | case2 lead rest hnone ih =>
      rw [decode, pieces]
      simp [hnone, ih, Piece.shown]
  | case3 lead rest n hn hnone ih =>
      rw [decode, pieces]
      simp [hn, hnone, ih, Piece.shown]
  | case4 lead rest n hn c hc ih =>
      rw [decode, pieces]
      simp [hn, hc, ih, Piece.shown]

/-- The pieces put together again are the bytes. -/
theorem flatMap_pieces (bytes : List UInt8) : (pieces bytes).flatMap Piece.bytes = bytes := by
  induction bytes using pieces.induct with
  | case1 => simp [pieces]
  | case2 lead rest hnone ih =>
      rw [pieces]
      simp [hnone, ih, Piece.bytes]
  | case3 lead rest n hn hnone ih =>
      rw [pieces]
      simp [hn, hnone, ih, Piece.bytes]
  | case4 lead rest n hn c hc ih =>
      obtain ⟨n, rfl⟩ := Nat.exists_eq_succ_of_ne_zero (announcedLength_pos hn).ne'
      rw [pieces_cons_of_some hn hc, List.flatMap_cons, List.drop_succ_cons]
      rw [Nat.succ_eq_add_one, Nat.add_sub_cancel] at ih
      rw [ih, Piece.bytes, utf8EncodeChar_of_char? hc, List.take_succ_cons, List.cons_append, List.take_append_drop]

/-- Decoding goes on behind the first piece as if the bytes began there. -/
theorem exists_pieces_cons (lead : UInt8) (rest : List UInt8) :
    ∃ piece behind, pieces (lead :: rest) = piece :: pieces behind := by
  rw [pieces]
  split
  · exact ⟨_, _, rfl⟩
  · split <;> exact ⟨_, _, rfl⟩

theorem pieces_of_append {bytes : List UInt8} {front rest : List Piece} (h : pieces bytes = front ++ rest) :
    pieces (rest.flatMap Piece.bytes) = rest := by
  induction front generalizing bytes with
  | nil =>
      rw [List.nil_append] at h
      rw [← h, flatMap_pieces]
  | cons piece front ih =>
      cases bytes with
      | nil => simp [pieces] at h
      | cons lead tail =>
          obtain ⟨first, behind, hbehind⟩ := exists_pieces_cons lead tail
          rw [hbehind, List.cons_append] at h
          exact ih (List.cons.inj h).2

/-- Where a byte is given up, no well-formed sequence begins. -/
theorem char?_of_pieces_eq_append {bytes : List UInt8} {front behind : List Piece} {lead : UInt8}
    (h : pieces bytes = front ++ .stray lead :: behind) (n : Nat) :
    char? ((lead :: behind.flatMap Piece.bytes).take n) = none := by
  have hstray : pieces (lead :: behind.flatMap Piece.bytes) = .stray lead :: behind := pieces_of_append h
  generalize behind.flatMap Piece.bytes = rest at hstray
  rw [Option.eq_none_iff_forall_ne_some]
  intro c hc
  cases n with
  | zero => simp [char?] at hc
  | succ n =>
      rw [List.take_succ_cons] at hc
      have htake : (lead :: rest).take ((rest.take n).length + 1) = lead :: rest.take n := by
        rw [List.take_succ_cons, List.length_take, ← List.take_eq_take_min]
      rw [pieces_cons_of_some (announcedLength_of_char? hc) (htake ▸ hc)] at hstray
      cases hstray

/-! ### Bytes that are given up -/

/-- The bytes that are given up, each with the number of its piece; the first piece is number `start`. -/
def givenUp (start : Nat) (pieces : List Piece) : List (Nat × UInt8) :=
  (pieces.zipIdx start).filterMap fun (piece, index) => piece.stray?.map (index, ·)

@[simp]
theorem givenUp_nil (start : Nat) : givenUp start [] = [] :=
  rfl

@[simp]
theorem givenUp_char (start : Nat) (c : Char) : givenUp start [.char c] = [] :=
  rfl

@[simp]
theorem givenUp_stray (start : Nat) (b : UInt8) : givenUp start [.stray b] = [(start, b)] :=
  rfl

theorem givenUp_append (start : Nat) (pieces more : List Piece) :
    givenUp start (pieces ++ more) = givenUp start pieces ++ givenUp (start + pieces.length) more := by
  simp [givenUp, List.zipIdx_append]

theorem mem_givenUp {pieces : List Piece} {index : Nat} {b : UInt8} :
    (index, b) ∈ givenUp 0 pieces ↔ pieces[index]? = some (.stray b) := by
  simp only [givenUp, List.mem_filterMap, Prod.exists, List.mem_zipIdx_iff_getElem?]
  constructor
  · rintro ⟨piece, i, hpiece, hstray⟩
    cases piece with
    | char c => cases hstray
    | stray b' =>
        cases hstray
        exact hpiece
  · exact fun h => ⟨_, index, h, rfl⟩

/-- They are listed from left to right. -/
theorem pairwise_givenUp (pieces : List Piece) : ((givenUp 0 pieces).map Prod.fst).Pairwise (· < ·) := by
  induction pieces using List.reverseRecOn with
  | nil => simp
  | append_singleton pieces piece ih =>
      rw [givenUp_append, List.map_append, List.pairwise_append]
      refine ⟨ih, by cases piece <;> simp, fun i hi j hj => ?_⟩
      obtain ⟨⟨i, b⟩, hmem, rfl⟩ := List.mem_map.mp hi
      obtain ⟨hlt, -⟩ := List.getElem?_eq_some_iff.mp (mem_givenUp.mp hmem)
      cases piece <;> simp at hj
      exact hj ▸ hlt

/-- A byte that is given up comes out as a character of three bytes. -/
theorem length_shown (pieces : List Piece) :
    (encode (pieces.map Piece.shown)).length =
      (pieces.flatMap Piece.bytes).length + 2 * (givenUp 0 pieces).length := by
  have hreplacement : (String.utf8EncodeChar replacement).length = 3 := by decide
  induction pieces using List.reverseRecOn with
  | nil => rfl
  | append_singleton pieces piece ih =>
      rw [encode] at ih
      cases piece <;>
        simp [encode, givenUp_append, Piece.shown, Piece.bytes, ih, hreplacement] <;> omega

theorem length_encode_decode (bytes : List UInt8) :
    (encode (decode bytes)).length = bytes.length + 2 * (givenUp 0 (pieces bytes)).length := by
  rw [decode_eq_shown, length_shown, flatMap_pieces]

/-- Where nothing is given up, the bytes are what encodes the text. -/
theorem encode_decode_of_givenUp {bytes : List UInt8} (h : givenUp 0 (pieces bytes) = []) :
    encode (decode bytes) = bytes := by
  have hchars : ∀ piece ∈ pieces bytes, String.utf8EncodeChar piece.shown = piece.bytes := by
    intro piece hpiece
    cases piece with
    | char c => rfl
    | stray b =>
        obtain ⟨i, hi⟩ := List.mem_iff_getElem?.mp hpiece
        have hmem := mem_givenUp.mpr hi
        rw [h] at hmem
        cases hmem
  calc
    encode (decode bytes) = (pieces bytes).flatMap fun piece => String.utf8EncodeChar piece.shown := by
      rw [decode_eq_shown, encode, List.flatMap_map]
    _ = (pieces bytes).flatMap Piece.bytes := List.flatMap_congr hchars
    _ = bytes := flatMap_pieces bytes

/-! ### Well-formed bytes -/

theorem encode_of_decodeStrict? {bytes : List UInt8} {text : List Char} (h : decodeStrict? bytes = some text) :
    encode text = bytes := by
  induction bytes using decodeStrict?.induct generalizing text with
  | case1 =>
      rw [decodeStrict?, Option.some.injEq] at h
      rw [← h]
      rfl
  | case2 lead rest c hc ih =>
      rw [decodeStrict?] at h
      simp only [hc, Option.map_eq_some_iff] at h
      obtain ⟨others, hothers, rfl⟩ := h
      have hencode := ih hothers
      generalize (sequenceLength lead).getD 1 = n at hc hencode
      cases n with
      | zero => simp [char?] at hc
      | succ n =>
          rw [Nat.add_sub_cancel] at hencode
          rw [encode, List.flatMap_cons, ← encode, hencode, utf8EncodeChar_of_char? hc, List.take_succ_cons,
            List.cons_append, List.take_append_drop]
  | case3 lead rest hc =>
      rw [decodeStrict?] at h
      simp only [hc] at h
      cases h

theorem decodeStrict?_encode (text : List Char) : decodeStrict? (encode text) = some text := by
  induction text with
  | nil => simp [encode, decodeStrict?]
  | cons c text ih =>
      have hc := char?_utf8EncodeChar c
      rw [encode, List.flatMap_cons, ← encode]
      cases hencoded : String.utf8EncodeChar c with
      | nil => exact absurd hencoded String.utf8EncodeChar_ne_nil
      | cons lead tail =>
          rw [hencoded] at hc
          have hlength := (char?_cons_eq_some_iff.mp hc).1.1
          rw [List.cons_append, decodeStrict?, hlength]
          simp [hc, ih]

/-- Bytes are well-formed if and only if none is given up, and if and only if they are what their text is encoded
as. -/
theorem wellformed_tfae (bytes : List UInt8) :
    List.TFAE [givenUp 0 (pieces bytes) = [], (decodeStrict? bytes).isSome = true, encode (decode bytes) = bytes] := by
  tfae_have 1 → 3 := encode_decode_of_givenUp
  tfae_have 3 → 2 := fun h => by rw [← h, decodeStrict?_encode, Option.isSome_some]
  tfae_have 2 → 1 := by
    intro h
    obtain ⟨text, htext⟩ := Option.isSome_iff_exists.mp h
    have hencode := encode_of_decodeStrict? htext
    have hlength := length_encode_decode bytes
    rw [← hencode, decode_encode] at hlength
    rw [← List.length_eq_zero_iff, ← hencode]
    omega
  tfae_finish

end Backtrack.Utf8
