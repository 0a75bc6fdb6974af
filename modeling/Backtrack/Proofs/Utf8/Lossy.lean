import Backtrack.Proofs.Utf8.Sequence

/-! The two decoders compared. Both agree on what is well-formed and on where the ill-formed parts are. For each of
these one decoder shows a single U+FFFD, the other as many as the part has bytes. -/

namespace Backtrack.Utf8

/-- The characters that the lossy decoder gives, each with the number of characters that the other decoder has in its
place. -/
def shown : List UInt8 → List (Char × Nat)
  | [] => []
  | lead :: rest =>
    match char? ((lead :: rest).take ((sequenceLength lead).getD 1)) with
    | some c => (c, 1) :: shown (rest.drop ((sequenceLength lead).getD 1 - 1))
    | none =>
      (replacement, subpartLength (lead :: rest)) :: shown (rest.drop (subpartLength (lead :: rest) - 1))
termination_by bytes => bytes.length
decreasing_by all_goals (simp; try omega)

/-- The characters that stand for those which are shown. -/
def spread (shown : List (Char × Nat)) : List Char :=
  shown.flatMap fun (c, count) => List.replicate count c

theorem spread_nil : spread [] = [] :=
  rfl

theorem spread_cons (c : Char) (count : Nat) (more : List (Char × Nat)) :
    spread ((c, count) :: more) = List.replicate count c ++ spread more :=
  rfl

/-- Where nothing stands for more than one character, nothing is left out. -/
theorem spread_of_one {shown : List (Char × Nat)} (h : ∀ entry ∈ shown, entry.2 = 1) :
    spread shown = shown.map Prod.fst := by
  induction shown with
  | nil => rfl
  | cons entry more ih =>
      obtain ⟨hentry, hmore⟩ := List.forall_mem_cons.mp h
      obtain ⟨c, count⟩ := entry
      obtain rfl : count = 1 := hentry
      rw [spread_cons, ih hmore]
      rfl

theorem decodeLossy_eq (bytes : List UInt8) : decodeLossy bytes = (shown bytes).map Prod.fst := by
  induction bytes using shown.induct with
  | case1 => rw [decodeLossy, shown, List.map_nil]
  | case2 lead rest c hc ih =>
      rw [decodeLossy, shown]
      simp only [hc, List.map_cons, ih]
  | case3 lead rest hc ih =>
      rw [decodeLossy, shown]
      simp only [hc, List.map_cons, ih]

/-- Behind the first byte an ill-formed part has nothing but continuation bytes. -/
theorem exists_subpart (lead : UInt8) (rest : List UInt8) :
    ∃ tail behind, rest = tail ++ behind ∧ subpartLength (lead :: rest) = tail.length + 1 ∧
      ∀ b ∈ tail, isContinuation b = true := by
  simp only [subpartLength]
  split
  · rename_i n second rest _
    split_ifs with hsecond
    · obtain ⟨behind, hbehind⟩ := (List.takeWhile_prefix isContinuation).trans (List.take_prefix n rest)
      refine ⟨second :: (rest.take n).takeWhile isContinuation, behind, ?_, ?_, ?_⟩
      · rw [List.cons_append, hbehind]
      · rw [List.length_cons]
        omega
      · exact List.forall_mem_cons.mpr ⟨isContinuation_of_isSecond hsecond, fun b hb => List.mem_takeWhile_imp hb⟩
    · exact ⟨[], _, rfl, rfl, by simp⟩
  · exact ⟨[], _, rfl, rfl, by simp⟩

theorem decode_cons_of_continuation {b : UInt8} (h : isContinuation b = true) (rest : List UInt8) :
    decode (b :: rest) = replacement :: decode rest := by
  refine decode_cons_of_none fun n hn => ?_
  rw [isContinuation_of_announcedLength hn] at h
  cases h

theorem decode_continuations {bytes : List UInt8} (h : ∀ b ∈ bytes, isContinuation b = true) (rest : List UInt8) :
    decode (bytes ++ rest) = List.replicate bytes.length replacement ++ decode rest := by
  induction bytes with
  | nil => rfl
  | cons b bytes ih =>
      obtain ⟨hb, hothers⟩ := List.forall_mem_cons.mp h
      rw [List.cons_append, decode_cons_of_continuation hb, ih hothers]
      rfl

/-- Where no sequence is well-formed, as many characters are given up as the ill-formed part has bytes. -/
theorem decode_subpart {lead : UInt8} {rest : List UInt8}
    (h : char? ((lead :: rest).take ((sequenceLength lead).getD 1)) = none) :
    decode (lead :: rest) = List.replicate (subpartLength (lead :: rest)) replacement ++
      decode (rest.drop (subpartLength (lead :: rest) - 1)) := by
  have hfirst : decode (lead :: rest) = replacement :: decode rest := by
    refine decode_cons_of_none fun n hn => ?_
    rw [Option.eq_none_iff_forall_ne_some]
    intro c hc
    obtain ⟨n, rfl⟩ := Nat.exists_eq_succ_of_ne_zero (announcedLength_pos hn).ne'
    rw [List.take_succ_cons] at hc
    have hlength := (char?_cons_eq_some_iff.mp hc).1.1
    have hn' := announcedLength_of_sequenceLength hlength
    rw [hn, Option.some.injEq] at hn'
    rw [hlength, Option.getD_some, ← hn', List.take_succ_cons, hc] at h
    cases h
  obtain ⟨tail, behind, rfl, hlength, htail⟩ := exists_subpart lead rest
  rw [hfirst, hlength, decode_continuations htail, Nat.add_sub_cancel, List.drop_left]
  rfl

/-- Where a sequence is well-formed, both decoders give its character. -/
theorem decode_sequence {lead : UInt8} {rest : List UInt8} {c : Char}
    (h : char? ((lead :: rest).take ((sequenceLength lead).getD 1)) = some c) :
    decode (lead :: rest) = c :: decode (rest.drop ((sequenceLength lead).getD 1 - 1)) := by
  cases hn : sequenceLength lead with
  | none =>
      rw [hn, Option.getD_none, List.take_succ_cons, char?_cons_eq_some_iff, hn] at h
      exact absurd h.1.1 (by simp)
  | some n =>
      have hannounced := announcedLength_of_sequenceLength hn
      rw [hn, Option.getD_some] at h
      rw [decode_cons_of_some hannounced h, Option.getD_some]
      obtain ⟨n, rfl⟩ := Nat.exists_eq_succ_of_ne_zero (announcedLength_pos hannounced).ne'
      rfl

theorem decode_eq (bytes : List UInt8) : decode bytes = spread (shown bytes) := by
  induction bytes using shown.induct with
  | case1 => rw [decode, shown, spread_nil]
  | case2 lead rest c hc ih =>
      rw [decode_sequence hc, shown]
      simp only [hc, spread_cons, ih, List.replicate_one, List.singleton_append]
  | case3 lead rest hc ih =>
      rw [decode_subpart hc, shown]
      simp only [hc, spread_cons, ih]

/-- Only what is ill-formed is shown in place of more than one character. -/
theorem count_of_mem_shown {bytes : List UInt8} {entry : Char × Nat} (h : entry ∈ shown bytes) :
    0 < entry.2 ∧ (entry.2 = 1 ∨ entry.1 = replacement) := by
  induction bytes using shown.induct with
  | case1 =>
      rw [shown] at h
      cases h
  | case2 lead rest c hc ih =>
      rw [shown] at h
      simp only [hc, List.mem_cons] at h
      rcases h with rfl | h
      · exact ⟨Nat.one_pos, Or.inl rfl⟩
      · exact ih h
  | case3 lead rest hc ih =>
      rw [shown] at h
      simp only [hc, List.mem_cons] at h
      rcases h with rfl | h
      · obtain ⟨tail, behind, -, hlength, -⟩ := exists_subpart lead rest
        exact ⟨by simp [hlength], Or.inr rfl⟩
      · exact ih h

end Backtrack.Utf8
