import Backtrack.Proofs.Search.Passing

/-! Reports on a text. An inspection looks at every symbol and at those behind it before it passes the symbol, so all
that it asks the window for, it asks at its first symbol: if the way back over all symbols that it looks at is admitted
there, it is admitted everywhere. -/

namespace Backtrack.Stream

/-- The symbols number `k`, …, `k + count - 1` of a text, as they are seen. -/
def seenFrom (text : List Char) (caseFold : Bool) (k count : Nat) : List Symbol :=
  (List.range count).map fun l => (Symbol.ofText text (k + l)).seen caseFold

theorem seenFrom_succ (text : List Char) (caseFold : Bool) (k count : Nat) :
    seenFrom text caseFold k (count + 1) =
      (Symbol.ofText text k).seen caseFold :: seenFrom text caseFold (k + 1) count := by
  unfold seenFrom
  rw [List.range_succ_eq_map, List.map_cons, List.map_map, Nat.add_zero]
  refine congrArg _ (List.map_congr_left fun l _ => ?_)
  show (Symbol.ofText text (k + (l + 1))).seen caseFold = _
  rw [Nat.add_right_comm, Nat.add_assoc]

/-- What an inspection that begins at `p` reports of symbol number `j` from there, with `count` symbols behind it. -/
def reportAt (text : List Char) (caseFold : Bool) (count : Nat) (p : Position) (j : Nat) : SymbolReport :=
  ⟨p.along text j, (Symbol.ofText text (p.index + j)).seen caseFold,
    seenFrom text caseFold (p.index + j + 1) count⟩

variable {text : List Char} {origin s : Stream} {saved : List Position} {n : Nat} {full : Prop}

/-- The ends of `lookaheads` of `count` symbols, the first of which is number `i + 1`. `listed`: the source admits all
of the lookaheads. `refused`: the first one beyond the window stops with `backupWindowExceeded`. -/
inductive Lists (text : List Char) (origin : Stream) (saved : List Position) (n i count : Nat) :
    Except Stop (List Symbol) → Stream → Prop
  | listed {after : Stream} (hadmits : origin.source.Admits (i + count)) (hafter : Beyond text origin saved n after) :
      Lists text origin saved n i count (.ok (seenFrom text origin.caseFold (origin.index + n + i) count)) after
  | refused {window : Nat} {after : Stream} (hwindow : origin.source.history.window = some window)
      (hlt : window < i + count) (hposition : after.position = origin.position.along text n)
      (hentries : after.marks.entries = saved) :
      Lists text origin saved n i count (.error (.fault (.backupWindowExceeded (window + 1) window))) after

namespace Beyond

variable (hvalid : origin.Valid text) (hreliable : origin.source.Reliable)

include hvalid hreliable

/-- Symbols are looked at one after another, as far as the window admits it. -/
theorem lookaheads {i count : Nat} (hfar : counterLimit < origin.index + n + (i + count) → full)
    (hbefore : origin.source.Admits i) (h : Beyond text origin saved n s) (journal : Journal) :
    (Stream.lookaheads (i + 1) count s journal).Ends full (Lists text origin saved n i count) := by
  induction count generalizing i s journal with
  | zero => exact Outcome.ends_ok (.listed hbefore h)
  | succ count ih =>
      have hnear : counterLimit < origin.index + n + (i + 1) → full := fun hlimit => hfar (by omega)
      have hrest : i + 1 + count = i + (count + 1) := by omega
      rw [Stream.lookaheads]
      by_cases hadmits : origin.source.Admits (i + 1)
      · refine (h.lookahead hvalid hreliable hnear (Nat.succ_pos i) hadmits journal).bind ?_
        rintro _ looked between ⟨rfl, hlooked⟩
        refine (ih (by rwa [hrest]) hadmits hlooked between).bind ?_ ?_
        · rintro rest after _ hlists
          cases hlists with
          | listed hall hafter =>
              rw [hrest] at hall
              have hlisted := Lists.listed hall hafter
              rw [seenFrom_succ] at hlisted
              exact Outcome.ends_ok hlisted
        · rintro stop after hlists
          cases hlists with
          | refused hwindow hlt hposition hentries => exact .refused hwindow (hrest ▸ hlt) hposition hentries
      · refine (h.lookahead_of_not_admits hvalid hreliable hnear hadmits journal).bind ?_ ?_
        · rintro _ _ _ ⟨⟨_, _, _, herror⟩, -⟩
          cases herror
        · rintro stop after ⟨⟨window, hwindow, hlt, herror⟩, hposition, hmarks⟩
          obtain rfl : i = window := Nat.le_antisymm (hbefore window hwindow) (Nat.le_of_lt_succ hlt)
          cases herror
          exact .refused hwindow (by omega) (hposition.trans h.position) ((congrArg _ hmarks).trans h.entries)

variable (hfull : ¬origin.position.HasRoom text → full) (hone : origin.source.Admits 1)

include hfull hone

/-- An inspection ends at the end of the text. -/
theorem inspectRounds_of_end (hn : n ≤ text.length - origin.index) (hend : text.length ≤ origin.index + n)
    (h : Beyond text origin saved n s) (count : Nat) (seen : List SymbolReport) (rounds : Nat) (journal : Journal) :
    (Stream.inspectRounds count seen (rounds + 1) s journal).Answers full fun reports after =>
      reports = seen.reverse ∧ Beyond text origin saved n after := by
  refine (h.peek hvalid hreliable hfull hone hn journal).bind ?_
  rintro _ looked between ⟨rfl, hlooked⟩
  rw [Symbol.seen_eq_eof.mpr (Symbol.ofText_eq_eof.mpr hend)]
  exact Outcome.answers_ok ⟨rfl, hlooked⟩

variable {count : Nat} (hcount : count * symbolSize ≤ allocationLimit)
  (hfar : counterLimit < text.length + count → full)

include hcount hfar

/-- A round of an inspection at a symbol of the text: the symbol is reported and passed, or the window refuses the look
at the symbols behind it. -/
theorem inspectRounds_succ {Q : Except Stop (List SymbolReport) → Stream → Prop} {seen : List SymbolReport}
    {rounds : Nat} (hlt : origin.index + n < text.length) (h : Beyond text origin saved n s)
    (hnext : ∀ stepped between, origin.source.Admits (count + 1) → Beyond text origin saved (n + 1) stepped →
      (Stream.inspectRounds count (reportAt text origin.caseFold count origin.position n :: seen) rounds stepped
        between).Ends full Q)
    (hrefused : ∀ window after, origin.source.history.window = some window → window ≤ count →
      after.position = origin.position.along text n → after.marks.entries = saved →
      Q (.error (.fault (.backupWindowExceeded (window + 1) window))) after)
    (journal : Journal) : (Stream.inspectRounds count seen (rounds + 1) s journal).Ends full Q := by
  refine (h.peek hvalid hreliable hfull hone (by omega) journal).bind ?_
  rintro _ looked between ⟨rfl, hlooked⟩
  obtain ⟨c, hc⟩ : ∃ c, (Symbol.ofText text (origin.index + n)).seen origin.caseFold = .char c := by
    cases hseen : (Symbol.ofText text (origin.index + n)).seen origin.caseFold with
    | char c => exact ⟨c, rfl⟩
    | eof => exact absurd (Symbol.ofText_eq_eof.mp (Symbol.seen_eq_eof.mp hseen)) (Nat.not_le.mpr hlt)
  have hreserve : reserve count looked between = ⟨.ok (), looked, between⟩ := by
    rw [reserve, if_neg (Nat.not_lt.mpr hcount)]
    rfl
  rw [hc]
  dsimp only [Option.getD]
  rw [Action.bind_of_ok hreserve]
  refine (hlooked.lookaheads hvalid hreliable (fun hlimit => hfar (by omega)) hone between).bind ?_ ?_
  · rintro ahead listed between hlists
    cases hlists with
    | listed hadmits hlisted =>
        have hreport : (⟨listed.position, .char c, seenFrom text origin.caseFold (origin.index + n + 1) count⟩ :
            SymbolReport) = reportAt text origin.caseFold count origin.position n := by
          rw [hlisted.position, ← hc]
          rfl
        rw [Action.bind_of_ok (rfl : query Stream.position listed between = ⟨.ok listed.position, listed, between⟩),
          hreport]
        refine (hlisted.advance_of_reliable hvalid hfull hreliable hlt between).bind ?_
        rintro _ stepped between hstepped
        exact hnext stepped between (Nat.add_comm 1 count ▸ hadmits) hstepped
  · rintro stop after hlists
    cases hlists with
    | refused hwindow hle hposition hentries => exact hrefused _ _ hwindow (by omega) hposition hentries

/-- Where the window admits the way back over all symbols that are looked at, every symbol is reported, up to the end of
the text or as many as there are rounds. -/
theorem inspectRounds (hadmits : origin.source.Admits (count + 1)) (hn : n ≤ text.length - origin.index)
    (h : Beyond text origin saved n s) (seen : List SymbolReport) (rounds : Nat) (journal : Journal) :
    (Stream.inspectRounds count seen rounds s journal).Answers full fun reports after =>
      let m := min rounds (text.length - origin.index - n)
      reports = seen.reverse ++ (List.range' n m).map (reportAt text origin.caseFold count origin.position) ∧
        Beyond text origin saved (n + m) after := by
  induction rounds generalizing n s seen journal with
  | zero =>
      rw [Nat.zero_min]
      exact Outcome.answers_ok ⟨(List.append_nil _).symm, h⟩
  | succ rounds ih =>
      by_cases hend : text.length ≤ origin.index + n
      · have hleft : text.length - origin.index - n = 0 := by omega
        rw [hleft, Nat.min_zero]
        refine (h.inspectRounds_of_end hvalid hreliable hfull hone hn hend count seen rounds journal).mono ?_
        rintro _ after ⟨_, rfl, rfl, hafter⟩
        exact ⟨_, rfl, (List.append_nil _).symm, hafter⟩
      · have hlt : origin.index + n < text.length := Nat.lt_of_not_le hend
        have hleft : text.length - origin.index - n = text.length - origin.index - (n + 1) + 1 := by omega
        rw [hleft, Nat.add_min_add_right]
        refine h.inspectRounds_succ hvalid hreliable hfull hone hcount hfar hlt ?_ ?_ journal
        · intro stepped between _ hstepped
          refine (ih (by omega) hstepped _ between).mono ?_
          rintro _ after ⟨_, rfl, rfl, hafter⟩
          refine ⟨_, rfl, ?_, ?_⟩
          · rw [List.range'_succ, List.map_cons, List.reverse_cons, List.append_assoc]
            rfl
          · rwa [Nat.add_right_comm, Nat.add_assoc] at hafter
        · intro window after hwindow hle
          exact absurd (hadmits window hwindow) (by omega)

end Beyond

/-- An inspection of up to `limit` symbols of those that are left makes so many reports. -/
def reportCount (limit : Option Nat) (left : Nat) : Nat :=
  limit.elim left (min left)

/-- The window refuses something that an inspection asks for: it is of no symbols, or there is a symbol to report and
the way back over what is behind it is too long. -/
def Exceeds (text : List Char) (s : Stream) (count : Nat) (limit : Option Nat) (window : Nat) : Prop :=
  limit ≠ some 0 ∧ s.source.history.window = some window ∧ (window = 0 ∨ s.index < text.length ∧ window ≤ count)

/-- The ends of `inspect count limit` from `s`. `reported`: no window `Exceeds`, and the symbols reported are passed.
`refused`: the window `Exceeds`, and the stream stays at the position of `s`. -/
inductive Inspects (text : List Char) (s : Stream) (count : Nat) (limit : Option Nat) :
    Except Stop (List SymbolReport) → Stream → Prop
  | reported {after : Stream} (hclear : ∀ window, ¬Exceeds text s count limit window)
      (hafter : Beyond text s s.marks.entries (reportCount limit (text.length - s.index)) after) :
      Inspects text s count limit (.ok ((List.range (reportCount limit (text.length - s.index))).map
        (reportAt text s.caseFold count s.position))) after
  | refused {window : Nat} {after : Stream} (hexceeds : Exceeds text s count limit window)
      (hposition : after.position = s.position) (hentries : after.marks.entries = s.marks.entries) :
      Inspects text s count limit (.error (.fault (.backupWindowExceeded (window + 1) window))) after

theorem Inspects.nothing {count : Nat} {limit : Option Nat} {after : Stream}
    (hclear : ∀ window, ¬Exceeds text s count limit window) (hnone : reportCount limit (text.length - s.index) = 0)
    (hafter : Beyond text s s.marks.entries 0 after) : Inspects text s count limit (.ok []) after := by
  have hreported := @Inspects.reported text s count limit after hclear
  rw [hnone] at hreported
  exact hreported hafter

theorem inspect_eq (count : Nat) (limit : Option Nat) (s : Stream) (journal : Journal) :
    inspect count limit s journal =
      (inspectRounds count [] (limit.elim s.roundLimit (min s.roundLimit)) >>= fun reports => do
        Action.emit (.inspected reports.length)
        pure reports) s journal :=
  rfl

/-- No symbol is asked for: the source is left alone. -/
theorem inspect_zero (count : Nat) (s : Stream) (journal : Journal) :
    inspect count (some 0) s journal = ⟨.ok [], s, journal.push (.inspected 0)⟩ := by
  rw [inspect_eq]
  dsimp only [Option.elim]
  rw [Nat.min_zero]
  rfl

/-- The rounds that an inspection makes are as many as its reports, since the index stays below its limit. -/
theorem min_rounds_eq {left : Nat} {limit : Option Nat}
    (hreached : s.index + min (limit.elim s.roundLimit (min s.roundLimit)) left ≤ counterLimit) :
    min (limit.elim s.roundLimit (min s.roundLimit)) left = reportCount limit left := by
  unfold roundLimit at hreached ⊢
  unfold reportCount
  cases limit with
  | none =>
      dsimp only [Option.elim] at hreached ⊢
      omega
  | some l =>
      dsimp only [Option.elim] at hreached ⊢
      omega

theorem exists_rounds_eq_succ {limit : Option Nat} (hlimit : limit ≠ some 0) (hindex : s.index ≤ counterLimit) :
    ∃ rounds, limit.elim s.roundLimit (min s.roundLimit) = rounds + 1 := by
  have hpos : 1 ≤ s.roundLimit := by
    unfold roundLimit
    omega
  refine ⟨limit.elim s.roundLimit (min s.roundLimit) - 1, (Nat.sub_add_cancel ?_).symm⟩
  cases limit with
  | none => exact hpos
  | some l => exact Nat.le_min.mpr ⟨hpos, Nat.one_le_iff_ne_zero.mpr fun h => hlimit (congrArg some h)⟩

section

variable (hvalid : s.Valid text) (hreliable : s.source.Reliable) (hcursor : s.source.cursor = s.index)
  (hfull : ¬s.position.HasRoom text → full) {count : Nat} (hcount : count * symbolSize ≤ allocationLimit)
  (hfar : counterLimit < text.length + count → full) {limit : Option Nat}

include hvalid hreliable hcursor hfull hcount hfar

/-- What the window does not admit is refused in the first round. -/
theorem inspectRounds_of_not_admits (hlimit : limit ≠ some 0) (hadmits : ¬s.source.Admits (count + 1))
    (hopen : s.source.Admits 1 → s.index < text.length) (rounds : Nat) (journal : Journal) :
    (inspectRounds count [] (rounds + 1) s journal).Ends full fun result after =>
      ∃ window, Exceeds text s count limit window ∧
        result = .error (.fault (.backupWindowExceeded (window + 1) window)) ∧
        after.position = s.position ∧ after.marks.entries = s.marks.entries := by
  have hstart := hvalid.beyond hcursor
  by_cases hone : s.source.Admits 1
  · refine hstart.inspectRounds_succ hvalid hreliable hfull hone hcount hfar (hopen hone) ?_ ?_ journal
    · exact fun _ _ hadmitted => absurd hadmitted hadmits
    · exact fun window after hwindow hle hposition hentries =>
        ⟨window, ⟨hlimit, hwindow, .inr ⟨hopen hone, hle⟩⟩, rfl, hposition, hentries⟩
  · have hnear : counterLimit < s.index + 0 + 1 → full := fun hfar =>
      hfull (hstart.not_hasRoom (Nat.zero_le _) (by omega))
    refine (hstart.lookahead_of_not_admits hvalid hreliable hnear hone journal).bind ?_ ?_
    · rintro _ _ _ ⟨⟨_, _, _, herror⟩, -⟩
      cases herror
    · rintro stop after ⟨⟨window, hwindow, hlt, herror⟩, hposition, hmarks⟩
      obtain rfl : window = 0 := by omega
      cases herror
      exact ⟨0, ⟨hlimit, hwindow, .inl rfl⟩, rfl, hposition, congrArg MarkStack.entries hmarks⟩

theorem inspect_inspects (limit : Option Nat) (journal : Journal) :
    (inspect count limit s journal).Ends full (Inspects text s count limit) := by
  have hstart := hvalid.beyond hcursor
  by_cases hzero : limit = some 0
  · subst hzero
    rw [inspect_zero]
    exact Outcome.ends_ok (.nothing (fun window hexceeds => hexceeds.1 rfl) (Nat.min_zero _) hstart)
  obtain ⟨rounds, hrounds⟩ := exists_rounds_eq_succ hzero (hvalid.ahead.trans hvalid.limit)
  rw [inspect_eq]
  by_cases hadmits : s.source.Admits (count + 1)
  · have hone : s.source.Admits 1 := fun window hwindow => (Nat.le_add_left 1 count).trans (hadmits window hwindow)
    refine (hstart.inspectRounds hvalid hreliable hfull hone hcount hfar hadmits (Nat.zero_le _) [] _ journal).bind ?_
    rintro _ after between ⟨rfl, hafter⟩
    rw [Nat.sub_zero] at hafter ⊢
    rw [Nat.zero_add] at hafter
    have hreached := hafter.leads.cursor_le hvalid.limit
    rw [hafter.cursor] at hreached
    rw [min_rounds_eq hreached] at hafter ⊢
    rw [← List.range_eq_range']
    refine Outcome.ends_ok (.reported (fun window hexceeds => ?_) hafter)
    obtain ⟨-, hwindow, hwhy⟩ := hexceeds
    have hle := hadmits window hwindow
    omega
  rw [hrounds]
  by_cases hend : s.source.Admits 1 ∧ text.length ≤ s.index
  · obtain ⟨hone, hend⟩ := hend
    refine (hstart.inspectRounds_of_end hvalid hreliable hfull hone (Nat.zero_le _) hend count [] rounds journal).bind
      ?_
    rintro _ after between ⟨rfl, hafter⟩
    refine Outcome.ends_ok (.nothing ?_ ?_ hafter)
    · rintro window ⟨-, hwindow, hwhy⟩
      have hle := hone window hwindow
      omega
    · rw [Nat.sub_eq_zero_of_le hend, reportCount]
      cases limit with
      | none => rfl
      | some l => exact Nat.zero_min l
  · have hopen : s.source.Admits 1 → s.index < text.length := fun hone => Nat.lt_of_not_le fun hle => hend ⟨hone, hle⟩
    refine (inspectRounds_of_not_admits hvalid hreliable hcursor hfull hcount hfar hzero hadmits hopen rounds
      journal).bind ?_ ?_
    · rintro _ _ _ ⟨_, _, herror, -⟩
      cases herror
    · rintro stop after ⟨window, hexceeds, herror, hposition, hentries⟩
      cases herror
      exact .refused hexceeds hposition hentries

end

/-- `inspect` is exact, over a reader that does not fail and where a list of `count` symbols can be allocated. For the
limit `0` it answers without reading. Unless a counter is full, it fails if and only if a window `exceeds`: it is `0`,
or there is a symbol to report and it is not more than `count`; then with `backupWindowExceeded (window + 1) window`, at
the position of the start. Otherwise it gives `reportAt` of the `r` next symbols, those that are left up to the limit,
which have been passed, and the open marks are as before. -/
theorem inspect_exact (hs : s.Reached text) (hreliable : s.source.Reliable) (hcursor : s.source.cursor = s.index)
    {count : Nat} (hcount : count * symbolSize ≤ allocationLimit) (limit : Option Nat) (journal : Journal) :
    let o := inspect count limit s journal
    let r := limit.elim (text.length - s.index) (min (text.length - s.index))
    let exceeds := fun window => limit ≠ some 0 ∧ s.source.history.window = some window ∧
      (window = 0 ∨ s.index < text.length ∧ window ≤ count)
    (limit = some 0 → o = ⟨.ok [], s, journal.push (.inspected 0)⟩) ∧
    (s.position.HasRoom text → text.length + count ≤ counterLimit → ¬o.IsFull) ∧
    (¬o.IsFull →
      ((∃ reason, o.result = .error reason) ↔ ∃ window, exceeds window) ∧
      (∀ window, exceeds window → o.result = .error (.fault (.backupWindowExceeded (window + 1) window)) ∧
        o.state.position = s.position) ∧
      ((¬∃ window, exceeds window) →
        o.result = .ok ((List.range r).map (reportAt text s.caseFold count s.position)) ∧
          o.state.position = s.position.along text r ∧ o.state.index = s.index + r ∧
          o.state.source.cursor = o.state.index ∧ o.state.marks.depth = s.marks.depth ∧
          o.state.marks.entries = s.marks.entries)) := by
  intro o r exceeds
  have hvalid := hs.valid
  have hends : o.Ends (¬(s.position.HasRoom text ∧ text.length + count ≤ counterLimit)) (Inspects text s count limit) :=
    inspect_inspects hvalid hreliable hcursor (fun hroom hboth => hroom hboth.1) hcount
      (fun hlt hboth => absurd hboth.2 (Nat.not_le.mpr hlt)) limit journal
  refine ⟨?_, fun hroom hfar hfull => hends.full hfull ⟨hroom, hfar⟩, fun hfull => ?_⟩
  · rintro rfl
    exact inspect_zero count s journal
  have hinspects := hends.ends hfull
  generalize o.result = result, o.state = after at hinspects ⊢
  cases hinspects with
  | reported hclear hafter =>
      refine ⟨⟨?_, ?_⟩, fun window hexceeds => absurd hexceeds (hclear window), fun _ => ⟨rfl, hafter.position,
        hafter.index, hafter.cursor.trans hafter.index.symm, ?_, hafter.entries⟩⟩
      · rintro ⟨reason, hreason⟩
        cases hreason
      · rintro ⟨window, hexceeds⟩
        exact absurd hexceeds (hclear window)
      · rw [hafter.depth, MarkStack.length_entries hvalid.marks]
  | @refused window after hexceeds hposition hentries =>
      refine ⟨⟨fun _ => ⟨window, hexceeds⟩, fun _ => ⟨_, rfl⟩⟩, ?_, fun hnone => absurd ⟨window, hexceeds⟩ hnone⟩
      rintro other ⟨-, hother, -⟩
      obtain rfl : other = window := Option.some.inj (hother.symm.trans hexceeds.2.1)
      exact ⟨rfl, hposition⟩

/-- Two reports with one symbol behind, in a stream that folds letters and has passed a character, under a window of
two. -/
theorem inspect_exact_folded :
    let s := (advance (ofSource (.ofText ['x', 'A', '\n', 'B'] (some 2)) "text" true) #[]).state
    let o := inspect 1 (some 2) s #[]
    o.result = .ok [⟨⟨1, 1, 1⟩, .char 'a', [.char '\n']⟩, ⟨⟨2, 1, 2⟩, .char '\n', [.char 'b']⟩] ∧
      o.result = .ok ((List.range 2).map (reportAt ['x', 'A', '\n', 'B'] true 1 ⟨1, 1, 1⟩)) ∧
      o.state.index = 3 := by
  intro s o
  have hfresh : (ofSource (.ofText ['x', 'A', '\n', 'B'] (some 2)) "text" true).IsFresh ['x', 'A', '\n', 'B'] :=
    ⟨.inl ⟨some 2, rfl⟩, rfl, 0, rfl⟩
  have hs : s.Reached ['x', 'A', '\n', 'B'] := Uses.advance.reached hfresh trivial
  have hresult : o.result = .ok [⟨⟨1, 1, 1⟩, .char 'a', [.char '\n']⟩, ⟨⟨2, 1, 2⟩, .char '\n', [.char 'b']⟩] := by
    decide +kernel
  have hreliable : s.source.Reliable := ⟨by decide +kernel, by decide +kernel⟩
  have hcount : 1 * symbolSize ≤ allocationLimit := by decide
  obtain ⟨-, -, hexact⟩ := inspect_exact hs hreliable (by decide +kernel) hcount (some 2) #[]
  obtain ⟨-, -, hreported⟩ := hexact (Outcome.not_isFull_of_ok hresult)
  have hclear : ¬∃ window, some 2 ≠ some 0 ∧ s.source.history.window = some window ∧
      (window = 0 ∨ s.index < 4 ∧ window ≤ 1) := by
    rintro ⟨window, -, hwindow, hwhy⟩
    rw [show s.source.history.window = some 2 by decide +kernel] at hwindow
    cases hwindow
    omega
  obtain ⟨hreports, -, hindex, -⟩ := hreported hclear
  exact ⟨hresult, hreports.trans (by decide +kernel), hindex.trans (by decide +kernel)⟩

end Backtrack.Stream
