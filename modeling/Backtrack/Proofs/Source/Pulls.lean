import Backtrack.Proofs.Source.Retention

/-! Pulls from a reader. A decoder pulls only when its front settles nothing, and then fewer than four bytes are at
hand: so its buffer never holds more than three bytes beside a chunk, at most four pulls bring bytes for one character,
and the pull that finds the end of the input is the last one that there is. Five answers of a reader, not counting
interruptions, are enough for the next character, whatever comes behind them. -/

namespace Backtrack

namespace Reader

/-- A read brings no more bytes than there is room for. -/
theorem length_le_of_pull {size : Nat} {journal : Journal} {r : Reader} {bytes : List UInt8}
    (h : (r.pull size journal).1 = .ok bytes) : bytes.length ≤ size := by
  obtain ⟨deliveries, ending⟩ := r
  unfold pull at h
  induction deliveries with
  | nil =>
      cases ending with
      | finished =>
          cases h
          exact Nat.zero_le _
      | failing reason => cases h
      | growing file =>
          cases h
          exact List.length_take_le _ _
  | cons delivery rest ih =>
      cases delivery with
      | interrupted => exact ih h
      | failure reason => cases h
      | bytes bytes =>
          cases h
          exact List.length_take_le _ _

/-- How many deliveries end a read. -/
def answers (deliveries : List Delivery) : Nat :=
  deliveries.countP (· ≠ .interrupted)

theorem leave_append (size : Nat) (bytes : List UInt8) (front rest : List Delivery) :
    leave size bytes (front ++ rest) = leave size bytes front ++ rest := by
  unfold leave
  split_ifs <;> rfl

theorem answers_le_leave (size : Nat) (bytes : List UInt8) (front : List Delivery) :
    answers front ≤ answers (leave size bytes front) := by
  unfold leave
  split_ifs
  · exact Nat.le_refl _
  · exact ((List.sublist_cons_self _ _).countP_le)

/-- A read takes one answer, and does not look behind it. -/
theorem pull_of_answers {front : List Delivery} (h : 0 < answers front) (size : Nat) (journal : Journal) :
    ∃ result left, answers front ≤ answers left + 1 ∧
      ∀ rest ending, (⟨front ++ rest, ending⟩ : Reader).pull size journal = (result, ⟨left ++ rest, ending⟩) := by
  induction front with
  | nil => exact absurd h (Nat.lt_irrefl 0)
  | cons delivery front ih =>
      cases delivery with
      | interrupted =>
          rw [answers, List.countP_cons_of_neg (by simp)] at h ⊢
          exact ih h
      | failure reason =>
          refine ⟨.error reason, front, ?_, fun rest ending => rfl⟩
          rw [answers, List.countP_cons_of_pos (by simp)]
          rfl
      | bytes bytes =>
          refine ⟨.ok (bytes.take size), leave size bytes front, ?_, fun rest ending => ?_⟩
          · rw [answers, List.countP_cons_of_pos (by simp)]
            exact Nat.succ_le_succ (answers_le_leave size bytes front)
          · rw [← leave_append]
            rfl

/-- A reader that is not interrupted for ever answers as often as one likes. -/
theorem exists_answers {script : Nat → Delivery} (h : ∀ k, ∃ m, k ≤ m ∧ script m ≠ .interrupted) (n : Nat) :
    ∃ count, n ≤ answers ((List.range count).map script) := by
  induction n with
  | zero => exact ⟨0, Nat.zero_le _⟩
  | succ n ih =>
      obtain ⟨count, hcount⟩ := ih
      obtain ⟨m, hle, hm⟩ := h count
      refine ⟨m + 1, ?_⟩
      have hmono : answers ((List.range count).map script) ≤ answers ((List.range m).map script) :=
        ((List.range_sublist.mpr hle).map script).countP_le
      rw [List.range_succ, List.map_append, answers, List.countP_append, List.map_singleton,
        List.countP_singleton]
      rw [if_pos (by simpa using hm)]
      exact Nat.succ_le_succ (hcount.trans hmono)

end Reader

namespace Decoder

variable {index : Nat} {d mid : Decoder} {journal between : Journal} {bytes : List UInt8} {pulls : List (List UInt8)}

/-- The undecoded bytes are a part of the buffer, which holds at most three bytes beside a chunk. -/
structure Bounded (d : Decoder) : Prop where
  offset : d.offset ≤ d.buffer.size
  size : d.buffer.size ≤ d.chunkSize + 3

theorem bounded_ofReader (reader : Reader) (chunkSize : Nat) : (ofReader reader chunkSize).Bounded :=
  ⟨Nat.le_refl 0, Nat.zero_le _⟩

theorem length_undecoded (d : Decoder) : d.undecoded.length = d.buffer.size - d.offset := by
  rw [undecoded_eq_drop, List.length_drop, Array.length_toList]

theorem Bounded.skip (h : d.Bounded) {count : Nat} (hcount : count ≤ d.undecoded.length) : (d.skip count).Bounded := by
  have hoffset := h.offset
  rw [length_undecoded] at hcount
  refine ⟨?_, h.size⟩
  show d.offset + count ≤ d.buffer.size
  omega

/-! ### One pull -/

theorem fill_of_pull (h : (d.reader.pull d.chunkSize journal).1 = .ok bytes) :
    (d.fill journal).result = .ok () ∧
      (d.fill journal).state =
        ⟨(d.reader.pull d.chunkSize journal).2, d.chunkSize, d.buffer.extract d.offset d.buffer.size ++ bytes, 0,
          d.drained || bytes.isEmpty⟩ := by
  unfold fill
  cases bytes with
  | nil => simp [h]
  | cons b bytes => simp [h]

theorem fill_of_error {reason : String} (h : (d.reader.pull d.chunkSize journal).1 = .error reason) :
    (d.fill journal).result = .error (.fault (.io reason)) ∧
      (d.fill journal).state =
        ⟨(d.reader.pull d.chunkSize journal).2, d.chunkSize, d.buffer.extract d.offset d.buffer.size, 0,
          d.drained⟩ := by
  unfold fill
  simp [h]

theorem undecoded_of_pull (h : (d.reader.pull d.chunkSize journal).1 = .ok bytes) :
    (d.fill journal).state.undecoded = d.undecoded ++ bytes := by
  rw [(fill_of_pull h).2, undecoded_fill]

theorem drained_of_pull (h : (d.reader.pull d.chunkSize journal).1 = .ok bytes) :
    (d.fill journal).state.drained = (d.drained || bytes.isEmpty) := by
  rw [(fill_of_pull h).2]

/-- A pull leaves the buffer with what was undecoded and a chunk. -/
theorem bounded_fill (hshort : d.undecoded.length < 4) (journal : Journal) :
    (d.fill journal).state.Bounded ∧ (d.fill journal).state.chunkSize = d.chunkSize := by
  have hkept : (d.buffer.extract d.offset d.buffer.size).size < 4 := by
    rwa [undecoded, Array.length_toList] at hshort
  cases hpull : (d.reader.pull d.chunkSize journal).1 with
  | ok bytes =>
      have hchunk := Reader.length_le_of_pull hpull
      rw [(fill_of_pull hpull).2]
      refine ⟨⟨Nat.zero_le _, ?_⟩, rfl⟩
      rw [← Array.length_toList, Array.toList_appendList, List.length_append, Array.length_toList]
      dsimp only
      omega
  | error reason =>
      rw [(fill_of_error hpull).2]
      refine ⟨⟨Nat.zero_le _, ?_⟩, rfl⟩
      dsimp only
      omega

/-! ### The pulls for one character -/

/-- On the way to character number `index`, a decoder gets from one state to another by pulls that bring these
bytes. -/
inductive Proceeds (index : Nat) : Decoder → Journal → List (List UInt8) → Decoder → Journal → Prop
  | stay (d : Decoder) (journal : Journal) : Proceeds index d journal [] d journal
  | pull {d mid : Decoder} {journal between : Journal} {bytes : List UInt8} {pulls : List (List UInt8)}
      (htake : take? index d.front = none) (hdrained : d.drained = false)
      (hpull : (d.reader.pull d.chunkSize journal).1 = .ok bytes)
      (h : Proceeds index (d.fill journal).state (d.fill journal).journal pulls mid between) :
      Proceeds index d journal (bytes :: pulls) mid between

/-- No pull is made from here on: the front settles the next character, or the end of the input has been seen. -/
def Halts (index : Nat) (d : Decoder) : Prop :=
  take? index d.front ≠ none ∨ d.drained = true

theorem next_unfold (index : Nat) (d : Decoder) (journal : Journal) :
    d.next index journal =
      match take? index d.front with
      | some taken => ⟨.ok (some taken.char), d.skip taken.length, taken.warning.elim journal journal.push⟩
      | none =>
        if d.drained then
          match d.undecoded with
          | [] => ⟨.ok none, d, journal⟩
          | bytes => ⟨.ok (some Utf8.replacement), d.skip 1, journal.push (.incomplete bytes index)⟩
        else
          match d.fill journal with
          | ⟨.ok (), filled, after⟩ => filled.next index after
          | ⟨.error stop, filled, after⟩ => ⟨.error stop, filled, after⟩ := by
  fun_cases next index d journal with
  | case1 taken htake =>
      rw [htake]
      dsimp only
      cases taken.warning <;> rfl
  | case2 htake hdrained hempty => simp only [htake, hempty, if_pos hdrained]
  | case3 htake hdrained hne =>
      simp only [htake, if_pos hdrained]
  | case4 htake hdrained filled after hfill => simp only [htake, hfill, if_neg hdrained]
  | case5 htake hdrained stop filled after hfill => simp only [htake, hfill, if_neg hdrained]

theorem next_of_pull (htake : take? index d.front = none) (hdrained : d.drained = false)
    (hpull : (d.reader.pull d.chunkSize journal).1 = .ok bytes) :
    d.next index journal = (d.fill journal).state.next index (d.fill journal).journal := by
  have hresult := (fill_of_pull hpull).1
  rw [next_unfold, htake, hdrained]
  generalize d.fill journal = o at hresult ⊢
  obtain ⟨result, filled, after⟩ := o
  cases hresult
  rfl

/-- `next` has the same outcome from every decoder that it passes on the way. -/
theorem Proceeds.next_eq (h : d.Proceeds index journal pulls mid between) :
    d.next index journal = mid.next index between := by
  induction h with
  | stay => rfl
  | pull htake hdrained hpull _ ih => rw [next_of_pull htake hdrained hpull, ih]

/-- The decoder with other deliveries to come. -/
def onto (d : Decoder) (deliveries : List Delivery) (ending : Ending) : Decoder :=
  { d with reader := ⟨deliveries, ending⟩ }

/-- Where no pull is made, the next character is decoded or the end of the input found, and what is to come makes no
difference for it. -/
theorem next_of_halts (h : d.Halts index) (journal : Journal) :
    ∃ (found : Option Char) (count : Nat) (after : Journal), ∀ deliveries ending,
      (d.onto deliveries ending).next index journal = ⟨.ok found, (d.skip count).onto deliveries ending, after⟩ := by
  cases htake : take? index d.front with
  | some taken =>
      refine ⟨some taken.char, taken.length, taken.warning.elim journal journal.push, ?_⟩
      intro deliveries ending
      have hsome : take? index (d.onto deliveries ending).front = some taken := htake
      rw [next_unfold, hsome]
      rfl
  | none =>
      have hdrained : d.drained = true := h.resolve_left (by simp [htake])
      have hnext : ∀ deliveries ending, (d.onto deliveries ending).next index journal =
          match d.undecoded with
          | [] => ⟨.ok none, d.onto deliveries ending, journal⟩
          | bytes => ⟨.ok (some Utf8.replacement), (d.onto deliveries ending).skip 1,
              journal.push (.incomplete bytes index)⟩ := by
        intro deliveries ending
        have hnone : take? index (d.onto deliveries ending).front = none := htake
        rw [next_unfold, hnone]
        exact if_pos hdrained
      cases hbytes : d.undecoded with
      | nil =>
          rw [hbytes] at hnext
          exact ⟨_, 0, _, hnext⟩
      | cons lead rest =>
          rw [hbytes] at hnext
          exact ⟨_, 1, _, hnext⟩

/-- A character is delivered, or the end of the input found, where no further pull is made. -/
theorem exists_proceeds {found : Option Char} {after : Decoder} {journal' : Journal}
    (h : d.next index journal = ⟨.ok found, after, journal'⟩) :
    ∃ pulls mid between count, d.Proceeds index journal pulls mid between ∧ mid.Halts index ∧
      after = mid.skip count := by
  have hway : ∃ pulls mid between, d.Proceeds index journal pulls mid between ∧ mid.Halts index := by
    fun_induction next index d journal with
    | case1 d journal taken htake => exact ⟨[], d, journal, .stay d journal, .inl (by simp [htake])⟩
    | case2 d journal htake hdrained hempty => exact ⟨[], d, journal, .stay d journal, .inr hdrained⟩
    | case3 d journal htake hdrained hne => exact ⟨[], d, journal, .stay d journal, .inr hdrained⟩
    | case4 d journal htake hdrained filled after' hfill _ ih =>
        obtain ⟨pulls, mid, between, hproceeds, hhalts⟩ := ih h
        cases hpull : (d.reader.pull d.chunkSize journal).1 with
        | ok bytes =>
            refine ⟨bytes :: pulls, mid, between, .pull htake (by simpa using hdrained) hpull ?_, hhalts⟩
            rwa [hfill]
        | error reason =>
            have herror := (fill_of_error hpull).1
            rw [hfill] at herror
            cases herror
    | case5 => cases h
  obtain ⟨pulls, mid, between, hproceeds, hhalts⟩ := hway
  obtain ⟨_, count, _, hnext⟩ := next_of_halts hhalts between
  have hmid := (hnext mid.reader.deliveries mid.reader.ending).symm.trans (hproceeds.next_eq.symm.trans h)
  exact ⟨pulls, mid, between, count, hproceeds, hhalts, (congrArg Outcome.state hmid).symm⟩

theorem Proceeds.bounded (h : d.Proceeds index journal pulls mid between) (hbounded : d.Bounded) :
    mid.Bounded ∧ mid.chunkSize = d.chunkSize := by
  induction h with
  | stay => exact ⟨hbounded, rfl⟩
  | @pull d _ journal _ _ _ htake _ _ _ ih =>
      obtain ⟨hfilled, hchunk⟩ := bounded_fill (length_undecoded_lt htake) journal
      obtain ⟨hmid, hsame⟩ := ih hfilled
      exact ⟨hmid, hsame.trans hchunk⟩

/-- Behind the end of the input there is no pull. -/
theorem Proceeds.of_drained (h : d.Proceeds index journal pulls mid between) (hdrained : d.drained = true) :
    pulls = [] ∧ mid = d := by
  cases h with
  | stay => exact ⟨rfl, rfl⟩
  | pull _ hnot => rw [hdrained] at hnot; cases hnot

/-- Each pull that brings bytes brings one that was missing, and no more than four are ever missing. -/
theorem Proceeds.countP_le (h : d.Proceeds index journal pulls mid between) :
    pulls.countP (· ≠ []) ≤ 4 - d.undecoded.length := by
  induction h with
  | stay => exact Nat.zero_le _
  | @pull d _ journal _ bytes pulls htake hdrained hpull hrest ih =>
      have hshort := length_undecoded_lt htake
      rw [undecoded_of_pull hpull, List.length_append] at ih
      cases bytes with
      | nil =>
          obtain ⟨rfl, -⟩ := hrest.of_drained (by rw [drained_of_pull hpull, List.isEmpty_nil, Bool.or_true])
          exact Nat.zero_le _
      | cons b bytes =>
          rw [List.countP_cons_of_pos (by simp)]
          rw [List.length_cons] at ih
          omega

/-- The end of the input is found by one pull at most, and that is the last one. -/
theorem Proceeds.drained_iff (h : d.Proceeds index journal pulls mid between) (hdrained : d.drained = false) :
    pulls.count [] ≤ 1 ∧ ([] ∈ pulls ↔ mid.drained = true) := by
  induction h with
  | stay => exact ⟨Nat.zero_le _, by simp [hdrained]⟩
  | @pull d mid journal _ bytes pulls _ hnot hpull hrest ih =>
      have hafter := drained_of_pull hpull
      rw [hnot, Bool.false_or] at hafter
      cases bytes with
      | nil =>
          obtain ⟨rfl, rfl⟩ := hrest.of_drained hafter
          exact ⟨Nat.le_refl 1, by simp [hafter]⟩
      | cons b bytes =>
          obtain ⟨hcount, hmem⟩ := ih hafter
          refine ⟨?_, ?_⟩
          · rwa [List.count_cons_of_ne (by simp)]
          · rw [← hmem, List.mem_cons, or_iff_right (by simp)]

theorem next_bounded (h : d.Bounded) (index : Nat) (journal : Journal) :
    (d.next index journal).state.Bounded ∧ (d.next index journal).state.chunkSize = d.chunkSize := by
  fun_induction next index d journal with
  | case1 d journal taken htake =>
      rw [front_eq_take] at htake
      exact ⟨h.skip (decode_of_take? htake []).1, rfl⟩
  | case2 d journal htake hdrained hempty => exact ⟨h, rfl⟩
  | case3 d journal htake hdrained hne => exact ⟨h.skip (List.length_pos_iff.mpr hne), rfl⟩
  | case4 d journal htake hdrained filled after hfill _ ih =>
      obtain ⟨hfilled, hchunk⟩ := bounded_fill (length_undecoded_lt htake) journal
      rw [hfill] at hfilled hchunk
      obtain ⟨hafter, hsame⟩ := ih hfilled
      exact ⟨hafter, hsame.trans hchunk⟩
  | case5 d journal htake hdrained stop filled after hfill =>
      have hfilled := bounded_fill (length_undecoded_lt htake) journal
      rwa [hfill] at hfilled

/-- Once the end of the input has been seen, the reader is left alone. -/
theorem next_of_drained (h : d.drained = true) (index : Nat) (journal : Journal) :
    (d.next index journal).state.reader = d.reader ∧ (d.next index journal).state.drained = true := by
  fun_cases next index d journal with
  | case1 => exact ⟨rfl, h⟩
  | case2 => exact ⟨rfl, h⟩
  | case3 => exact ⟨rfl, h⟩
  | case4 htake hdrained => exact absurd h hdrained
  | case5 htake hdrained => exact absurd h hdrained

/-! ### How far decoding looks -/

theorem fill_of_answers {front : List Delivery} (h : 0 < Reader.answers front) (d : Decoder) (journal : Journal) :
    ∃ (result : Except Stop Unit) (filled : Decoder) (left : List Delivery) (after : Journal),
      Reader.answers front ≤ Reader.answers left + 1 ∧
        ∀ rest ending, (d.onto (front ++ rest) ending).fill journal =
          ⟨result, filled.onto (left ++ rest) ending, after⟩ := by
  obtain ⟨pulled, left, hleft, hpull⟩ := Reader.pull_of_answers h d.chunkSize journal
  let kept := d.buffer.extract d.offset d.buffer.size
  match pulled with
  | .ok [] =>
      refine ⟨.ok (), ⟨d.reader, d.chunkSize, kept, 0, true⟩, left, journal.push .readerDrained, hleft, ?_⟩
      intro rest ending
      simp only [fill, onto, hpull]
      rfl
  | .ok (b :: bytes) =>
      refine ⟨.ok (), ⟨d.reader, d.chunkSize, kept ++ b :: bytes, 0, d.drained⟩, left,
        journal.push (.chunkPulled (b :: bytes).length), hleft, ?_⟩
      intro rest ending
      simp only [fill, onto, hpull]
      rfl
  | .error reason =>
      refine ⟨.error (.fault (.io reason)), ⟨d.reader, d.chunkSize, kept, 0, d.drained⟩, left,
        journal.push (.readerFailed reason), hleft, ?_⟩
      intro rest ending
      simp only [fill, onto, hpull]
      rfl

/-- The reader is left alone: `next` has one result for all deliveries that may come and leaves them all to come. -/
def Detached (d : Decoder) : Prop :=
  ∀ (index : Nat) (journal : Journal),
    ∃ (result : Except Stop (Option Char)) (count : Nat) (after : Journal), ∀ deliveries ending,
      (d.onto deliveries ending).next index journal = ⟨result, (d.skip count).onto deliveries ending, after⟩

theorem detached_of_drained (h : d.drained = true) : d.Detached := by
  intro index journal
  obtain ⟨found, count, after, hnext⟩ := next_of_halts (.inr h : d.Halts index) journal
  exact ⟨.ok found, count, after, hnext⟩

/-- As many answers as a decoder may ask for are enough for the next character, whatever comes behind them. -/
theorem next_of_answers (front : List Delivery) (d : Decoder) (journal : Journal)
    (h : d.hunger ≤ Reader.answers front) :
    ∃ (result : Except Stop (Option Char)) (mid : Decoder) (left : List Delivery) (after : Journal),
      ∀ rest ending, (d.onto (front ++ rest) ending).next index journal =
        ⟨result, mid.onto (left ++ rest) ending, after⟩ := by
  induction hunger : d.hunger using Nat.strong_induction_on generalizing front d journal with
  | h n ih =>
      subst hunger
      by_cases hhalts : d.Halts index
      · obtain ⟨found, count, after, hnext⟩ := next_of_halts hhalts journal
        exact ⟨.ok found, d.skip count, front, after, fun rest ending => hnext (front ++ rest) ending⟩
      · obtain ⟨htake, hnot⟩ := not_or.mp hhalts
        rw [not_ne_iff] at htake
        have hdrained : d.drained = false := by simpa using hnot
        have hshort := length_undecoded_lt htake
        have hhungry : d.hunger = 5 - d.undecoded.length := if_neg hnot
        have hanswers : 0 < Reader.answers front := by omega
        obtain ⟨result, filled, left, between, hleft, hfill⟩ := fill_of_answers hanswers d journal
        have hnext : ∀ rest ending, (d.onto (front ++ rest) ending).next index journal =
            match (⟨result, filled.onto (left ++ rest) ending, between⟩ : Outcome Decoder Unit) with
            | ⟨.ok (), filled, after⟩ => filled.next index after
            | ⟨.error stop, filled, after⟩ => ⟨.error stop, filled, after⟩ := by
          intro rest ending
          rw [← hfill]
          have hnone : take? index (d.onto (front ++ rest) ending).front = none := htake
          rw [next_unfold, hnone]
          exact if_neg hnot
        cases result with
        | ok =>
            have hless : (filled.onto (left ++ []) .finished).hunger < (d.onto (front ++ []) .finished).hunger :=
              hunger_fill_lt hdrained hshort (hfill [] .finished)
            have hlt : filled.hunger < d.hunger := hless
            obtain ⟨result, mid, left', after, hrest⟩ := ih filled.hunger hlt left filled between (by omega) rfl
            exact ⟨result, mid, left', after, fun rest ending => (hnext rest ending).trans (hrest rest ending)⟩
        | error stop => exact ⟨.error stop, filled, left, between, hnext⟩

/-- Whatever a reader answers one after another, if it is not interrupted for ever, then a number of its answers is
enough for the next character. -/
theorem next_of_script (script : Nat → Delivery) (h : ∀ k, ∃ m, k ≤ m ∧ script m ≠ .interrupted) (d : Decoder)
    (index : Nat) (journal : Journal) :
    ∃ (count : Nat) (result : Except Stop (Option Char)) (mid : Decoder) (left : List Delivery) (after : Journal),
      ∀ rest ending, (d.onto ((List.range count).map script ++ rest) ending).next index journal =
        ⟨result, mid.onto (left ++ rest) ending, after⟩ := by
  obtain ⟨count, hcount⟩ := Reader.exists_answers h d.hunger
  exact ⟨count, next_of_answers _ d journal hcount⟩

/-- The bounds on a decoder `d` that `Proceeds` reaches by these pulls on the way to character number `index`, for
chunks of at most `chunk` bytes: on its buffer, on the undecoded bytes before another pull, and on the pulls made. -/
structure Moderate (index chunk : Nat) (pulls : List (List UInt8)) (d : Decoder) : Prop where
  offset : d.offset ≤ d.buffer.size
  size : d.buffer.size ≤ chunk + 3
  /-- A pull comes next only if there are at most three undecoded bytes. -/
  short : ¬d.Halts index → d.undecoded.length ≤ 3
  filling : pulls.countP (· ≠ []) ≤ 4
  empty : pulls.count [] ≤ 1
  /-- After the pull that brings nothing, there is none. -/
  last : [] ∈ pulls → d.drained = true

theorem Proceeds.moderate (h : d.Proceeds index journal pulls mid between) (hbounded : d.Bounded) :
    Moderate index d.chunkSize pulls mid := by
  obtain ⟨⟨hoffset, hsize⟩, hchunk⟩ := h.bounded hbounded
  rw [hchunk] at hsize
  have hshort : ¬mid.Halts index → mid.undecoded.length ≤ 3 := by
    intro hhalts
    exact Nat.le_of_lt_succ (length_undecoded_lt (not_ne_iff.mp (not_or.mp hhalts).1))
  have hfilling := h.countP_le.trans (Nat.sub_le 4 _)
  cases hdrained : d.drained with
  | true =>
      obtain ⟨rfl, rfl⟩ := h.of_drained hdrained
      exact ⟨hoffset, hsize, hshort, hfilling, Nat.zero_le _, fun hmem => absurd hmem List.not_mem_nil⟩
  | false =>
      obtain ⟨hempty, hlast⟩ := h.drained_iff hdrained
      exact ⟨hoffset, hsize, hshort, hfilling, hempty, hlast.mp⟩

end Decoder

end Backtrack
