import Mathlib.Tactic.SplitIfs
import Backtrack.Source.Decoder
import Backtrack.Proofs.Journal
import Backtrack.Proofs.Utf8.Sequence

/-! Decoding a reader, whatever the pieces in which its bytes arrive. The bytes that a decoder has still
to decode are those at hand and those to come; a decoded character, or U+FFFD for a byte that is given up,
is the first one of their text, and what is left is the text of the bytes left. A read that fails moves
nothing: bytes pulled before the failure stay at hand. -/

namespace Backtrack

/-- Whether an event reports how the reading from a reader goes on. -/
def Event.isReading : Event → Bool
  | .chunkPulled .. | .readerDrained | .readerFailed .. => true
  | e => e.isDecodingWarning

namespace Ending

/-- The ending does not depend on what happens until it is reached. -/
def IsFixed : Ending → Prop
  | .growing _ => False
  | _ => True

end Ending

namespace Reader

/-- The bytes that deliveries bring until the input ends: a delivery without bytes is its end. -/
def upcoming : List Delivery → List UInt8
  | [] => []
  | .interrupted :: rest => upcoming rest
  | .failure _ :: rest => upcoming rest
  | .bytes [] :: _ => []
  | .bytes (b :: bytes) :: rest => b :: bytes ++ upcoming rest

/-- The reasons of the failures among deliveries. -/
def failures (deliveries : List Delivery) : List String :=
  deliveries.filterMap fun
    | .failure reason => some reason
    | _ => none

theorem upcoming_bytes {bytes : List UInt8} (h : bytes ≠ []) (rest : List Delivery) :
    upcoming (.bytes bytes :: rest) = bytes ++ upcoming rest := by
  cases bytes with
  | nil => exact absurd rfl h
  | cons b bytes => rfl

/-- Reads that all bring bytes cut these bytes into pieces. -/
theorem upcoming_map_bytes {reads : List (List UInt8)} (h : ∀ bytes ∈ reads, bytes ≠ []) :
    upcoming (reads.map .bytes) = reads.flatten := by
  induction reads with
  | nil => rfl
  | cons bytes reads ih =>
      obtain ⟨hbytes, hothers⟩ := List.forall_mem_cons.mp h
      rw [List.map_cons, upcoming_bytes hbytes, ih hothers, List.flatten_cons]

theorem failures_map_bytes (reads : List (List UInt8)) : failures (reads.map .bytes) = [] := by
  rw [failures, List.filterMap_map]
  exact List.filterMap_eq_nil_iff.mpr fun _ _ => rfl

theorem upcoming_leave (size : Nat) (bytes : List UInt8) (rest : List Delivery) :
    upcoming (leave size bytes rest) = bytes.drop size ++ upcoming rest := by
  unfold leave
  split_ifs with h
  · rw [List.isEmpty_iff.mp h, List.nil_append]
  · exact upcoming_bytes (by simpa using h) rest

theorem failures_leave (size : Nat) (bytes : List UInt8) (rest : List Delivery) :
    failures (leave size bytes rest) = failures rest := by
  unfold leave
  split_ifs <;> rfl

/-- What a pull says about the bytes and the failures that a reader brings. -/
def Pulls (before : Reader) : Except String (List UInt8) × Reader → Prop
  | (.ok bytes, after) =>
      after.ending = before.ending ∧ failures after.deliveries = failures before.deliveries ∧
        if bytes = [] then upcoming before.deliveries = []
        else upcoming before.deliveries = bytes ++ upcoming after.deliveries
  | (.error reason, after) =>
      after.ending = before.ending ∧ upcoming after.deliveries = upcoming before.deliveries ∧
        (failures before.deliveries = reason :: failures after.deliveries ∨
          before.ending = .failing reason)

theorem pull_pulls {size : Nat} (hsize : 0 < size) (journal : Journal) {r : Reader}
    (hfixed : r.ending.IsFixed) : Pulls r (r.pull size journal) := by
  obtain ⟨deliveries, ending⟩ := r
  unfold pull
  induction deliveries with
  | nil =>
      cases ending with
      | finished => simp [pullFrom, pullEnding, Pulls, upcoming]
      | failing reason => simp [pullFrom, pullEnding, Pulls]
      | growing file => exact hfixed.elim
  | cons delivery rest ih =>
      cases delivery with
      | interrupted => exact ih hfixed
      | failure reason => exact ⟨rfl, rfl, .inl rfl⟩
      | bytes bytes =>
          refine ⟨rfl, failures_leave size bytes rest, ?_⟩
          split_ifs with hempty
          · rcases List.take_eq_nil_iff.mp hempty with h | h
            · omega
            · rw [h]
              rfl
          · have hbytes : bytes ≠ [] := by
              rintro rfl
              exact hempty List.take_nil
            rw [upcoming_bytes hbytes, upcoming_leave, ← List.append_assoc, List.take_append_drop]

end Reader

namespace Decoder

/-- A decoder that can go on: its chunks hold something and its reader ends in a fixed way. -/
structure Valid (d : Decoder) : Prop where
  chunk : 0 < d.chunkSize
  ending : d.reader.ending.IsFixed

/-- The bytes that have not been pulled yet. -/
def upcoming (d : Decoder) : List UInt8 :=
  if d.drained then [] else Reader.upcoming d.reader.deliveries

/-- The bytes that have not been decoded yet. -/
def remaining (d : Decoder) : List UInt8 :=
  d.undecoded ++ d.upcoming

theorem undecoded_eq_drop (d : Decoder) : d.undecoded = d.buffer.toList.drop d.offset := by
  rw [undecoded, Array.toList_extract, List.extract_eq_take_drop]
  exact List.take_of_length_le (by simp)

theorem front_eq_take (d : Decoder) : d.front = d.undecoded.take 4 := by
  rw [undecoded_eq_drop, front, Array.toList_extract, List.extract_eq_take_drop, Nat.add_sub_cancel_left]

theorem undecoded_skip (d : Decoder) (count : Nat) : (d.skip count).undecoded = d.undecoded.drop count := by
  rw [undecoded_eq_drop, undecoded_eq_drop, List.drop_drop]
  rfl

theorem remaining_skip {d : Decoder} {count : Nat} (h : count ≤ d.undecoded.length) :
    (d.skip count).remaining = d.remaining.drop count := by
  rw [remaining, undecoded_skip, remaining, List.drop_append_of_le_length h]
  rfl

/-! ### Taking a character from the front -/

/-- What the front settles, whatever comes behind it: that no well-formed sequence begins there, and then one byte is
given up with a warning, or that one does. -/
theorem take?_cases {index : Nat} {lead : UInt8} {rest : List UInt8} {taken : Taken}
    (h : take? index ((lead :: rest).take 4) = some taken) (more : List UInt8) :
    (∃ warning, (warning = .invalidLead lead index ∨
          ∃ bytes, bytes.head? = some lead ∧ warning = .illFormed bytes index) ∧
        taken = ⟨Utf8.replacement, 1, some warning⟩ ∧
        ∀ n, Utf8.announcedLength lead = some n → Utf8.char? ((lead :: rest ++ more).take n) = none) ∨
      ∃ n c, taken = ⟨c, n, none⟩ ∧ n ≤ (lead :: rest).length ∧ Utf8.announcedLength lead = some n ∧
        Utf8.char? ((lead :: rest ++ more).take n) = some c := by
  rw [List.take_succ_cons, take?] at h
  cases hn : Utf8.announcedLength lead with
  | none =>
      simp only [hn, Option.some.injEq] at h
      exact .inl ⟨_, .inl rfl, h.symm, fun n hsome => by cases hsome⟩
  | some n =>
      have hpos := Utf8.announcedLength_pos hn
      have hle := Utf8.announcedLength_le hn
      simp only [hn, List.length_cons, List.length_take] at h
      split_ifs at h with hshort
      have htake : (lead :: rest.take 3).take n = (lead :: rest).take n := by
        rw [← List.take_succ_cons, List.take_take, Nat.min_eq_left hle]
      have hlength : n ≤ (lead :: rest).length := by
        rw [List.length_cons]
        omega
      have hmore : ((lead :: rest) ++ more).take n = (lead :: rest).take n :=
        List.take_append_of_le_length hlength
      rw [htake] at h
      cases hc : Utf8.char? ((lead :: rest).take n) with
      | none =>
          simp only [hc, Option.some.injEq] at h
          refine .inl ⟨_, .inr ⟨_, ?_, rfl⟩, h.symm, fun m hm => ?_⟩
          · rw [List.head?_take, if_neg (by omega), List.head?_cons]
          · rw [Option.some.injEq] at hm
            subst hm
            exact (congrArg Utf8.char? hmore).trans hc
      | some c =>
          simp only [hc, Option.some.injEq] at h
          exact .inr ⟨n, c, h.symm, hlength, rfl, (congrArg Utf8.char? hmore).trans hc⟩

/-- What the front settles is the beginning of the text of all the bytes behind it. -/
theorem decode_of_take? {index : Nat} {bytes : List UInt8} {taken : Taken}
    (h : take? index (bytes.take 4) = some taken) (more : List UInt8) :
    taken.length ≤ bytes.length ∧
      Utf8.decode (bytes ++ more) = taken.char :: Utf8.decode ((bytes ++ more).drop taken.length) := by
  cases bytes with
  | nil => simp [take?] at h
  | cons lead rest =>
      rcases take?_cases h more with ⟨warning, -, rfl, hnone⟩ | ⟨n, c, rfl, hle, hn, hc⟩
      · exact ⟨by simp, Utf8.decode_cons_of_none hnone⟩
      · exact ⟨hle, Utf8.decode_cons_of_some hn hc⟩

/-- A sequence that the end of the input cuts off is not well-formed. -/
theorem char?_of_take?_eq_none {index : Nat} {lead : UInt8} {rest : List UInt8}
    (h : take? index ((lead :: rest).take 4) = none) (n : Nat) (hn : Utf8.announcedLength lead = some n) :
    Utf8.char? ((lead :: rest).take n) = none := by
  have hfour := length_lt_of_take? h
  rw [List.take_of_length_le (by rw [List.length_take] at hfour; omega), take?] at h
  simp only [hn] at h
  split_ifs at h with hshort
  · rw [List.take_of_length_le hshort.le]
    exact Utf8.char?_eq_none_of_length_ne hn hshort.ne
  · split at h <;> cases h

/-! ### Pulling -/

/-- Bytes have gone over from those that are `upcoming` to those that are `undecoded`; the chunk size and the ending of
the reader are as before. -/
structure Pulled (d d' : Decoder) : Prop where
  chunkSize : d'.chunkSize = d.chunkSize
  ending : d'.reader.ending = d.reader.ending
  bytes : ∃ pulled, d'.undecoded = d.undecoded ++ pulled ∧ d.upcoming = pulled ++ d'.upcoming

theorem Pulled.refl (d : Decoder) : Pulled d d :=
  ⟨rfl, rfl, [], by simp⟩

theorem Pulled.trans {d d' d'' : Decoder} (h : Pulled d d') (h' : Pulled d' d'') : Pulled d d'' := by
  obtain ⟨pulled, hundecoded, hupcoming⟩ := h.bytes
  obtain ⟨pulled', hundecoded', hupcoming'⟩ := h'.bytes
  refine ⟨h'.chunkSize.trans h.chunkSize, h'.ending.trans h.ending, pulled ++ pulled', ?_, ?_⟩
  · rw [hundecoded', hundecoded, List.append_assoc]
  · rw [hupcoming, hupcoming', List.append_assoc]

theorem Pulled.remaining_eq {d d' : Decoder} (h : Pulled d d') : d'.remaining = d.remaining := by
  obtain ⟨pulled, hundecoded, hupcoming⟩ := h.bytes
  calc
    d'.remaining = d.undecoded ++ pulled ++ d'.upcoming := by rw [remaining, hundecoded]
    _ = d.undecoded ++ (pulled ++ d'.upcoming) := List.append_assoc _ _ _
    _ = d.remaining := by rw [remaining, hupcoming]

theorem Pulled.valid {d d' : Decoder} (h : Pulled d d') (hvalid : d.Valid) : d'.Valid :=
  ⟨h.chunkSize ▸ hvalid.chunk, h.ending ▸ hvalid.ending⟩

def failures (d : Decoder) : List String :=
  Reader.failures d.reader.deliveries

/-- A failure surfaces when it is the next one that the reader brings. -/
def Surfaces (reason : String) (d d' : Decoder) : Prop :=
  d.failures = reason :: d'.failures ∨ d.reader.ending = .failing reason

theorem undecoded_fill {reader : Reader} {chunkSize : Nat} {drained : Bool} (d : Decoder)
    (bytes : List UInt8) :
    (⟨reader, chunkSize, d.buffer.extract d.offset d.buffer.size ++ bytes, 0, drained⟩ : Decoder).undecoded =
      d.undecoded ++ bytes := by
  rw [undecoded_eq_drop, List.drop_zero, Array.toList_appendList]
  rfl

/-- What one pull does when the end of the input has not been seen. -/
def Fills (d : Decoder) : Outcome Decoder Unit → Prop
  | ⟨.ok (), filled, _⟩ => Pulled d filled ∧ filled.failures = d.failures
  | ⟨.error stop, filled, _⟩ =>
      Pulled d filled ∧ ∃ reason, stop = .fault (.io reason) ∧ Surfaces reason d filled

theorem fill_fills {d : Decoder} (hvalid : d.Valid) (hdrained : d.drained = false) (journal : Journal) :
    d.Fills (d.fill journal) := by
  have hpull := Reader.pull_pulls hvalid.chunk journal hvalid.ending
  have hupcoming : d.upcoming = Reader.upcoming d.reader.deliveries := by simp [upcoming, hdrained]
  unfold fill
  generalize d.reader.pull d.chunkSize journal = pulled at hpull ⊢
  obtain ⟨result, after⟩ := pulled
  cases result with
  | error reason =>
      obtain ⟨hending, hbytes, hfailures⟩ := hpull
      refine ⟨⟨rfl, hending, [], ?_, ?_⟩, reason, rfl, hfailures⟩
      · simpa using undecoded_fill d []
      · simp [upcoming, hdrained, hbytes]
  | ok bytes =>
      obtain ⟨hending, hfailures, hbytes⟩ := hpull
      cases bytes with
      | nil =>
          refine ⟨⟨rfl, hending, [], ?_, ?_⟩, hfailures⟩
          · simpa using undecoded_fill d []
          · rw [hupcoming]
            simpa [upcoming] using hbytes
      | cons b bytes =>
          refine ⟨⟨rfl, hending, b :: bytes, undecoded_fill d (b :: bytes), ?_⟩, hfailures⟩
          simpa [hupcoming, upcoming, hdrained] using hbytes

/-! ### The next character -/

/-- What the next step of a decoder does: it decodes a character, finds the end of the input, or stops at a
failure of the reader with nothing decoded. -/
def Decodes (d : Decoder) : Outcome Decoder (Option Char) → Prop
  | ⟨.ok (some c), after, _⟩ =>
      after.Valid ∧ after.failures = d.failures ∧ after.reader.ending = d.reader.ending ∧
        Utf8.decode d.remaining = c :: Utf8.decode after.remaining
  | ⟨.ok none, after, _⟩ => Pulled d after ∧ after.failures = d.failures ∧ d.remaining = []
  | ⟨.error stop, after, _⟩ => Pulled d after ∧ ∃ reason, stop = .fault (.io reason) ∧ Surfaces reason d after

theorem Decodes.of_fills {d filled : Decoder} {o : Outcome Decoder (Option Char)}
    (hpulled : Pulled d filled) (hfailures : filled.failures = d.failures) (h : filled.Decodes o) :
    d.Decodes o := by
  obtain ⟨result, after, journal⟩ := o
  match result with
  | .ok (some c) =>
      obtain ⟨hvalid, hafter, hending, hdecode⟩ := h
      exact ⟨hvalid, hafter.trans hfailures, hending.trans hpulled.ending, hpulled.remaining_eq ▸ hdecode⟩
  | .ok none =>
      obtain ⟨hafter, hnone, hempty⟩ := h
      exact ⟨hpulled.trans hafter, hnone.trans hfailures, hpulled.remaining_eq ▸ hempty⟩
  | .error stop =>
      obtain ⟨hafter, reason, hstop, hsurfaces⟩ := h
      refine ⟨hpulled.trans hafter, reason, hstop, ?_⟩
      rwa [Surfaces, hfailures, hpulled.ending] at hsurfaces

theorem next_decodes {index : Nat} {d : Decoder} (hvalid : d.Valid) (journal : Journal) :
    d.Decodes (d.next index journal) := by
  fun_induction next index d journal with
  | case1 d journal taken htake =>
      rw [front_eq_take] at htake
      obtain ⟨hlength, hdecode⟩ := decode_of_take? htake d.upcoming
      refine ⟨⟨hvalid.chunk, hvalid.ending⟩, rfl, rfl, ?_⟩
      rw [remaining_skip hlength]
      exact hdecode
  | case2 d journal htake hdrained hempty =>
      exact ⟨Pulled.refl d, rfl, by simp [remaining, upcoming, hdrained, hempty]⟩
  | case3 d journal htake hdrained hne =>
      refine ⟨⟨hvalid.chunk, hvalid.ending⟩, rfl, rfl, ?_⟩
      rw [front_eq_take] at htake
      have hupcoming : d.upcoming = [] := if_pos hdrained
      cases hbytes : d.undecoded with
      | nil => exact absurd hbytes hne
      | cons lead rest =>
          rw [remaining_skip (by simp [hbytes]), remaining, hupcoming, List.append_nil, hbytes]
          rw [hbytes] at htake
          exact Utf8.decode_cons_of_none (char?_of_take?_eq_none htake)
  | case4 d journal htake hdrained filled journal' hfill _ ih =>
      have hfills := fill_fills hvalid (by simpa using hdrained) journal
      rw [hfill] at hfills
      exact (ih (hfills.1.valid hvalid)).of_fills hfills.1 hfills.2
  | case5 d journal htake hdrained stop filled journal' hfill =>
      have hfills := fill_fills hvalid (by simpa using hdrained) journal
      rw [hfill] at hfills
      exact hfills

/-- A decoder stops at nothing but a failure of its reader, wherever its bytes come from. -/
theorem next_error {index : Nat} {d : Decoder} {journal : Journal} {stop : Stop}
    (h : (d.next index journal).result = .error stop) : ∃ reason, stop = .fault (.io reason) := by
  fun_induction next index d journal with
  | case1 => cases h
  | case2 => cases h
  | case3 => cases h
  | case4 d journal htake hdrained filled journal' hfill _ ih => exact ih h
  | case5 d journal htake hdrained stop filled journal' hfill =>
      cases h
      unfold fill at hfill
      dsimp only at hfill
      split at hfill <;> cases hfill
      exact ⟨_, rfl⟩

/-! ### Reports -/

theorem isReading_of_take? {index : Nat} {bytes : List UInt8} {taken : Taken} {warning : Event}
    (h : take? index bytes = some taken) (hwarning : taken.warning = some warning) :
    warning.isReading = true := by
  unfold take? at h
  split at h
  · cases h
  · split at h
    · cases h
      cases hwarning
      rfl
    · split_ifs at h
      split at h <;> cases h <;> cases hwarning
      rfl

theorem fill_extends (d : Decoder) (journal : Journal) :
    Journal.Extends (·.isReading) journal (d.fill journal).journal := by
  unfold fill
  dsimp only
  split <;> exact (Journal.Extends.refl journal).push rfl

theorem next_extends (index : Nat) (d : Decoder) (journal : Journal) :
    Journal.Extends (·.isReading) journal (d.next index journal).journal := by
  fun_induction next index d journal with
  | case1 d journal taken htake =>
      cases hwarning : taken.warning with
      | none => exact .refl journal
      | some warning => exact (Journal.Extends.refl journal).push (isReading_of_take? htake hwarning)
  | case2 d journal => exact .refl journal
  | case3 d journal => exact (Journal.Extends.refl journal).push rfl
  | case4 d journal htake hdrained filled journal' hfill _ ih =>
      have hextends := fill_extends d journal
      rw [hfill] at hextends
      exact hextends.trans ih
  | case5 d journal htake hdrained stop filled journal' hfill =>
      have hextends := fill_extends d journal
      rw [hfill] at hextends
      exact hextends

end Decoder

end Backtrack
