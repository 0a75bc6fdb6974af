import Backtrack.Proofs.Text.Lines
import Backtrack.Proofs.Utf8.Pieces

/-! Lines of bytes. In both decodings the byte that ends a line is a sequence of its own: nothing that is ill-formed has
it behind the first byte, and no other byte comes out as a line end. So it is the same to cut bytes into lines and to
decode these, and to decode the bytes and cut the text; and before every character there are as many line ends in the
text as in the bytes. -/

namespace Backtrack.Utf8

/-! ### Line ends in the pieces -/

theorem newline_mem_utf8EncodeChar {c : Char} (h : 0x0A ∈ String.utf8EncodeChar c) : c = '\n' := by
  have hc := char?_utf8EncodeChar c
  cases hencoded : String.utf8EncodeChar c with
  | nil => exact absurd hencoded String.utf8EncodeChar_ne_nil
  | cons lead rest =>
      rw [hencoded] at h hc
      have hrest := isContinuation_of_char? hc
      obtain ⟨⟨hlength, -⟩, hvalue⟩ := char?_cons_eq_some_iff.mp hc
      rw [List.mem_cons] at h
      rcases h with rfl | h
      · -- a sequence that begins with this byte has no other one
        have hone : rest.length + 1 = 1 := (Option.some.inj hlength).symm
        obtain rfl := List.length_eq_zero_iff.mp (Nat.succ.inj hone)
        exact hvalue.symm
      · exact absurd (hrest 0x0A h) (by decide)

/-- A byte that ends a line is never given up. -/
theorem newline_not_stray (bytes : List UInt8) : Piece.stray 0x0A ∉ pieces bytes := by
  intro h
  obtain ⟨front, behind, hpieces⟩ := List.append_of_mem h
  have hnone := char?_of_pieces_eq_append hpieces 1
  rw [List.take_succ_cons, List.take_zero] at hnone
  exact absurd hnone (by decide)

theorem count_newline_bytes {piece : Piece} (h : piece ≠ .stray 0x0A) :
    piece.bytes.count 0x0A = [piece.shown].count '\n' := by
  cases piece with
  | stray b =>
      have hb : b ≠ 0x0A := fun heq => h (congrArg Piece.stray heq)
      rw [Piece.bytes, Piece.shown, List.count_singleton, if_neg (by simpa using hb)]
      decide
  | char c =>
      rw [Piece.bytes, Piece.shown]
      by_cases hc : c = '\n'
      · rw [hc]
        decide
      · rw [List.count_singleton, if_neg (by simpa using hc), List.count_eq_zero]
        exact fun hmem => hc (newline_mem_utf8EncodeChar hmem)

theorem count_newline {pieces : List Piece} (h : .stray 0x0A ∉ pieces) :
    (pieces.map Piece.shown).count '\n' = (pieces.flatMap Piece.bytes).count 0x0A := by
  induction pieces with
  | nil => rfl
  | cons piece pieces ih =>
      rw [List.mem_cons, not_or] at h
      rw [List.map_cons, List.flatMap_cons, ← List.singleton_append, List.count_append, List.count_append, ih h.2,
        count_newline_bytes (Ne.symm h.1)]

/-! ### Cutting where a character begins -/

/-- The bytes before those of the character number `i`. -/
def bytesBefore (bytes : List UInt8) (i : Nat) : List UInt8 :=
  ((pieces bytes).take i).flatMap Piece.bytes

/-- The bytes from the first one of the character number `i` on. -/
def bytesFrom (bytes : List UInt8) (i : Nat) : List UInt8 :=
  ((pieces bytes).drop i).flatMap Piece.bytes

theorem bytesBefore_append_bytesFrom (bytes : List UInt8) (i : Nat) :
    bytesBefore bytes i ++ bytesFrom bytes i = bytes := by
  rw [bytesBefore, bytesFrom, ← List.flatMap_append, List.take_append_drop, flatMap_pieces]

theorem decode_bytesFrom (bytes : List UInt8) (i : Nat) : decode (bytesFrom bytes i) = (decode bytes).drop i := by
  have hpieces : pieces (bytesFrom bytes i) = (pieces bytes).drop i :=
    pieces_of_append (List.take_append_drop i (pieces bytes)).symm
  rw [decode_eq_shown, hpieces, decode_eq_shown, List.map_drop]

theorem count_bytesBefore (bytes : List UInt8) (i : Nat) :
    (bytesBefore bytes i).count 0x0A = ((decode bytes).take i).count '\n' := by
  have hplain : Piece.stray 0x0A ∉ (pieces bytes).take i := fun h => newline_not_stray bytes (List.mem_of_mem_take h)
  rw [bytesBefore, ← count_newline hplain, decode_eq_shown, List.map_take]

/-- The line of bytes on which the character number `i` begins. -/
def lineAt (bytes : List UInt8) (i : Nat) : List UInt8 :=
  (bytesBefore bytes i).rtakeWhile (· ≠ 0x0A) ++ (bytesFrom bytes i).takeWhile (· ≠ 0x0A)

theorem getElem?_lineAt (bytes : List UInt8) (i : Nat) :
    (bytes.splitOn 0x0A)[(bytesBefore bytes i).count 0x0A]? = some (lineAt bytes i) := by
  have hsplit := Text.getElem?_splitOn 0x0A (bytesBefore bytes i) (bytesFrom bytes i)
  rwa [bytesBefore_append_bytesFrom] at hsplit

/-! ### The lossy decoder -/

theorem decodeLossy_cons_of_some {lead : UInt8} {rest : List UInt8} {c : Char}
    (h : char? ((lead :: rest).take ((sequenceLength lead).getD 1)) = some c) :
    decodeLossy (lead :: rest) = c :: decodeLossy (rest.drop ((sequenceLength lead).getD 1 - 1)) := by
  rw [decodeLossy]
  simp only [h]

theorem decodeLossy_cons_of_none {lead : UInt8} {rest : List UInt8}
    (h : char? ((lead :: rest).take ((sequenceLength lead).getD 1)) = none) :
    decodeLossy (lead :: rest) = replacement :: decodeLossy (rest.drop (subpartLength (lead :: rest) - 1)) := by
  rw [decodeLossy]
  simp only [h]

section

variable {lead : UInt8} {rest more : List UInt8} (hmore : ∀ b ∈ more.head?, isContinuation b = false)

include hmore

theorem takeWhile_take_append (n : Nat) :
    ((rest ++ more).take n).takeWhile isContinuation = (rest.take n).takeWhile isContinuation := by
  induction rest generalizing n with
  | nil =>
      cases more with
      | nil => rfl
      | cons b more =>
          have hb := hmore b rfl
          cases n with
          | zero => rfl
          | succ n =>
              rw [List.nil_append, List.take_succ_cons, List.takeWhile_cons_of_neg (by simp [hb]), List.take_nil,
                List.takeWhile_nil]
  | cons b rest ih =>
      cases n with
      | zero => rfl
      | succ n =>
          rw [List.cons_append, List.take_succ_cons, List.take_succ_cons, List.takeWhile_cons, List.takeWhile_cons, ih]

/-- An ill-formed part ends before a byte that continues nothing. -/
theorem subpartLength_append : subpartLength (lead :: rest ++ more) = subpartLength (lead :: rest) := by
  simp only [List.cons_append, subpartLength]
  rcases sequenceLength lead with _ | _ | _ | n
  · rfl
  · rfl
  · rfl
  · cases rest with
    | cons second rest =>
        rw [List.cons_append]
        dsimp only
        rw [takeWhile_take_append hmore]
    | nil =>
        cases more with
        | nil => rfl
        | cons b more =>
            have hb : isSecond lead b = false := by
              rw [isSecond, hmore b rfl, Bool.false_and]
            rw [List.nil_append]
            dsimp only
            rw [hb, if_neg Bool.false_ne_true]

theorem decodeLossy_append {left : List UInt8} : decodeLossy (left ++ more) = decodeLossy left ++ decodeLossy more := by
  induction left using decodeLossy.induct with
  | case1 => simp [decodeLossy]
  | case2 lead rest c hc ih =>
      have hle : (sequenceLength lead).getD 1 ≤ (lead :: rest).length := by
        cases hn : sequenceLength lead with
        | none =>
            rw [Option.getD_none, List.length_cons]
            exact Nat.le_add_left 1 _
        | some n =>
            rw [hn, Option.getD_some] at hc
            exact le_length_of_char?_take (announcedLength_of_sequenceLength hn) hc
      have hboth : char? ((lead :: (rest ++ more)).take ((sequenceLength lead).getD 1)) = some c := by
        rw [← List.cons_append, List.take_append_of_le_length hle, hc]
      rw [List.cons_append, decodeLossy_cons_of_some hboth, decodeLossy_cons_of_some hc,
        List.drop_append_of_le_length (by rw [List.length_cons] at hle; omega), ih, List.cons_append]
  | case3 lead rest hc ih =>
      have hboth : char? ((lead :: (rest ++ more)).take ((sequenceLength lead).getD 1)) = none :=
        char?_take_append_eq_none hc hmore
      obtain ⟨tail, behind, hrest, hlength, -⟩ := exists_subpart lead rest
      have hle : subpartLength (lead :: rest) - 1 ≤ rest.length := by
        rw [hlength, hrest, List.length_append]
        omega
      rw [List.cons_append, decodeLossy_cons_of_none hboth, decodeLossy_cons_of_none hc, ← List.cons_append,
        subpartLength_append hmore, List.drop_append_of_le_length hle, ih, List.cons_append]

end

/-- Both decoders give the same characters, one of them more often. -/
theorem mem_decode_of_mem_decodeLossy {bytes : List UInt8} {c : Char} (h : c ∈ decodeLossy bytes) :
    c ∈ decode bytes := by
  rw [decodeLossy_eq, List.mem_map] at h
  obtain ⟨entry, hentry, rfl⟩ := h
  have hpos := (count_of_mem_shown hentry).1
  rw [decode_eq, spread, List.mem_flatMap]
  exact ⟨entry, hentry, List.mem_replicate.mpr ⟨hpos.ne', rfl⟩⟩

theorem newline_not_mem_decodeLossy {bytes : List UInt8} (h : 0x0A ∉ bytes) : '\n' ∉ decodeLossy bytes := by
  intro hmem
  have hdecoded := mem_decode_of_mem_decodeLossy hmem
  rw [decode_eq_shown, ← List.count_pos_iff, count_newline (newline_not_stray bytes), flatMap_pieces,
    List.count_pos_iff] at hdecoded
  exact h hdecoded

/-- The lines of the text are the lines of the bytes, decoded one by one. -/
theorem lines_decodeLossy (bytes : List UInt8) :
    Text.lines (decodeLossy bytes) = (bytes.splitOn 0x0A).map decodeLossy := by
  rw [Text.lines_eq_splitOn]
  -- from one line end to the next, so the induction is on the length of what is left
  induction hlength : bytes.length using Nat.strong_induction_on generalizing bytes with
  | _ length ih =>
      by_cases hmem : 0x0A ∈ bytes
      · obtain ⟨line, rest, rfl, hline⟩ := List.eq_append_cons_of_mem hmem
        have hend : decodeLossy (0x0A :: rest) = '\n' :: decodeLossy rest := decodeLossy_cons_of_some rfl
        have hrest := ih rest.length (by rw [← hlength, List.length_append, List.length_cons]; omega) rest rfl
        rw [decodeLossy_append (by simp [isContinuation]), hend,
          List.splitOn_append_cons_self_of_not_mem (newline_not_mem_decodeLossy hline), hrest,
          List.splitOn_append_cons_self_of_not_mem hline, List.map_cons]
      · rw [List.splitOn_eq_singleton (newline_not_mem_decodeLossy hmem), List.splitOn_eq_singleton hmem,
          List.map_singleton]

end Backtrack.Utf8
