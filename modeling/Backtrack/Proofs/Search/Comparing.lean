import Backtrack.Proofs.Search.Passing

/-! Comparing a word with a text. A comparison looks at one symbol after another and passes those that agree with the
word. It comes as far as reading straight ahead comes, over the symbols that agree and the first one that does not; and
from there it stays, goes back, or cannot go back. -/

namespace Backtrack

/-- How many characters of the word agree with what stands at the place `i`, up to the first that does not. -/
def agreement (caseFold : Bool) (text : List Char) : List Char → Nat → Nat
  | [], _ => 0
  | c :: word, i =>
    if (Symbol.ofText text i).seen caseFold = .char c then agreement caseFold text word (i + 1) + 1 else 0

section

variable {caseFold : Bool} {text word : List Char} {c : Char} {i : Nat}

theorem agreement_cons (h : (Symbol.ofText text i).seen caseFold = .char c) :
    agreement caseFold text (c :: word) i = agreement caseFold text word (i + 1) + 1 :=
  if_pos h

theorem agreement_cons_of_ne (h : (Symbol.ofText text i).seen caseFold ≠ .char c) :
    agreement caseFold text (c :: word) i = 0 :=
  if_neg h

theorem exists_char_of_seen {symbol : Symbol} (h : symbol.seen caseFold = .char c) : ∃ char, symbol = .char char := by
  cases symbol with
  | char char => exact ⟨char, rfl⟩
  | eof =>
      rw [Symbol.seen_eq_eof.mpr rfl] at h
      cases h

theorem agreement_le : agreement caseFold text word i ≤ word.length := by
  induction word generalizing i with
  | nil => exact Nat.le_refl _
  | cons c word ih =>
      by_cases h : (Symbol.ofText text i).seen caseFold = .char c
      · rw [agreement_cons h, List.length_cons]
        exact Nat.succ_le_succ ih
      · rw [agreement_cons_of_ne h]
        exact Nat.zero_le _

/-- The agreement is the greatest number of characters that agree one by one. -/
theorem isGreatest_agreement (caseFold : Bool) (text word : List Char) (i : Nat) :
    IsGreatest {k | k ≤ word.length ∧ ∀ j, j < k → (Symbol.ofText text (i + j)).seen caseFold = .ofText word j}
      (agreement caseFold text word i) := by
  induction word generalizing i with
  | nil => exact ⟨⟨Nat.le_refl 0, fun j hj => absurd hj (Nat.not_lt_zero j)⟩, fun k hk => hk.1⟩
  | cons c word ih =>
      by_cases h : (Symbol.ofText text i).seen caseFold = .char c
      · obtain ⟨⟨-, hall⟩, hgreatest⟩ := ih (i + 1)
        rw [agreement_cons h]
        refine ⟨⟨Nat.succ_le_succ agreement_le, fun j hj => ?_⟩, fun k hk => ?_⟩
        · cases j with
          | zero => exact h
          | succ j =>
              rw [← Nat.add_assoc, Nat.add_right_comm]
              exact hall j (by omega)
        · cases k with
          | zero => exact Nat.zero_le _
          | succ k =>
              refine Nat.succ_le_succ (hgreatest ⟨Nat.le_of_succ_le_succ hk.1, fun j hj => ?_⟩)
              rw [Nat.add_right_comm, Nat.add_assoc]
              exact hk.2 (j + 1) (by omega)
      · rw [agreement_cons_of_ne h]
        refine ⟨⟨Nat.zero_le _, fun j hj => absurd hj (Nat.not_lt_zero j)⟩, fun k hk => ?_⟩
        exact Nat.le_of_not_lt fun hpos => h (hk.2 0 hpos)

/-- A word stands where all of it agrees. -/
theorem occurs_iff_agreement (hi : i ≤ text.length) :
    Occurs caseFold text word i ↔ agreement caseFold text word i = word.length := by
  induction word generalizing i with
  | nil => exact ⟨fun _ => rfl, fun _ => occurs_nil hi⟩
  | cons c word ih =>
      rw [occurs_cons]
      by_cases h : (Symbol.ofText text i).seen caseFold = .char c
      · rw [agreement_cons h, List.length_cons, Nat.add_right_cancel_iff, ← ih (lt_of_seen h)]
        exact ⟨fun hboth => hboth.2, fun hrest => ⟨h, hrest⟩⟩
      · rw [agreement_cons_of_ne h]
        exact ⟨fun hboth => absurd hboth.1 h, fun hzero => by cases hzero⟩

end

/-- Where symbols are read one after another, `j` of them are delivered and the next one fails. -/
def Source.FailsAt (s : Source) (journal : Journal) (j : Nat) (f : Fault) : Prop :=
  ∃ source between, readAhead j s journal = ⟨.ok (), source, between⟩ ∧ (source.read between).result = .error (.fault f)

/-- Reading ahead comes no further than to the symbol that fails. -/
theorem Source.FailsAt.readAhead {s : Source} {journal : Journal} {j count : Nat} {f : Fault}
    (h : s.FailsAt journal j f) (hj : j < count) : (readAhead count s journal).result = .error (.fault f) ∧
      (readAhead count s journal).state.cursor = s.cursor + j := by
  obtain ⟨source, between, hahead, hfail⟩ := h
  obtain ⟨count, rfl⟩ : ∃ more, count = more + 1 := ⟨count - 1, by omega⟩
  induction j generalizing s journal count with
  | zero =>
      cases hahead
      have hcursor := source.read_cursor between
      generalize hread : source.read between = o at hfail hcursor
      obtain ⟨result, after, rest⟩ := o
      cases hfail
      rw [readAhead_of_error hread]
      exact ⟨rfl, hcursor.2⟩
  | succ j ih =>
      have hcursor := s.read_cursor journal
      generalize hread : s.read journal = o at hcursor
      obtain ⟨result, mid, rest⟩ := o
      cases result with
      | error stop =>
          rw [readAhead_of_error hread] at hahead
          cases hahead
      | ok symbol =>
          obtain ⟨count, rfl⟩ : ∃ more, count = more + 1 := ⟨count - 1, by omega⟩
          rw [readAhead_of_ok hread] at hahead ⊢
          obtain ⟨hresult, hstop⟩ := ih hahead count (by omega)
          exact ⟨hresult, by omega⟩

namespace Stream

variable {text word : List Char} {origin s : Stream} {saved : List Position} {n k length : Nat} {full : Prop}
  {ahead : Outcome Source Unit} {journal : Journal}

/-- The ends of `consume` on a word of `length` characters, `k` of which agree, begun `n` symbols behind `start`, where
`ahead` is the outcome of `Source.readAhead` from there: all of the word agrees, or `k` characters and no more, or the
reading fails on the way. `m` is the number of symbols behind `start` at which it ends. -/
inductive Compares (start n k length : Nat) (ahead : Outcome Source Unit) : Except Stop (Option Unit) → Nat → Prop
  | agreed {m : Nat} (hread : ahead.result = .ok ()) (hk : k = length) (hm : m = n + k) :
      Compares start n k length ahead (.ok (some ())) m
  | differed {m : Nat} (hread : ahead.result = .ok ()) (hk : k < length) (hm : m = n + k) :
      Compares start n k length ahead (.ok none) m
  | failed {f : Fault} {m : Nat} (hread : ahead.result = .error (.fault f)) (hm : ahead.state.cursor = start + m)
      (hle : m ≤ n + k) (hlt : m < n + length) : Compares start n k length ahead (.error (.fault f)) m

/-- A comparison looks at the symbols that agree and the first one that does not, or at the whole word. -/
def reach (k length : Nat) : Nat :=
  min (k + 1) length

namespace Compares

variable {start m : Nat} {origin source : Source} {between : Journal} {result : Except Stop (Option Unit)}

/-- A first symbol that agrees is added to the rest of the comparison. -/
theorem cons {symbol : Symbol} (hread : origin.read journal = ⟨.ok symbol, source, between⟩)
    (h : Compares start (n + 1) k length (Source.readAhead (reach k length) source between) result m) :
    Compares start n (k + 1) (length + 1) (Source.readAhead (reach (k + 1) (length + 1)) origin journal) result m := by
  have hreach : reach (k + 1) (length + 1) = reach k length + 1 := Nat.add_min_add_right (k + 1) length 1
  rw [hreach, Source.readAhead_of_ok hread]
  cases h with
  | agreed hread hk hm => exact .agreed hread (congrArg (· + 1) hk) (by omega)
  | differed hread hk hm => exact .differed hread (Nat.succ_lt_succ hk) (by omega)
  | failed hread hm hle hlt => exact .failed hread hm (by omega) (by omega)

/-- A first symbol that does not agree ends the comparison. -/
theorem of_read {symbol : Symbol} (hread : origin.read journal = ⟨.ok symbol, source, between⟩) :
    Compares start n 0 (length + 1) (Source.readAhead (reach 0 (length + 1)) origin journal) (.ok none) n := by
  have hreach : reach 0 (length + 1) = 1 := Nat.min_eq_left (Nat.le_add_left 1 _)
  rw [hreach, Source.readAhead_of_ok hread]
  exact .differed rfl (Nat.succ_pos _) rfl

/-- A first symbol that cannot be read ends the comparison. -/
theorem of_read_error {f : Fault} (hread : origin.read journal = ⟨.error (.fault f), source, between⟩)
    (hcursor : source.cursor = start + n) :
    Compares start n k (length + 1) (Source.readAhead (reach k (length + 1)) origin journal) (.error (.fault f)) n := by
  have hreach : reach k (length + 1) = min k length + 1 := Nat.add_min_add_right k length 1
  rw [hreach, Source.readAhead_of_error hread]
  exact .failed rfl hcursor (Nat.le_add_right n k) (Nat.lt_add_of_pos_right (Nat.succ_pos _))

end Compares

namespace Beyond

variable (hvalid : origin.Valid text) (hfull : ¬origin.position.HasRoom text → full)

include hvalid hfull

/-- As much of a word is passed as agrees with the text. What is read on the way is what would be read straight ahead,
with whatever journal. -/
theorem consume (word : List Char) (hadmits : word ≠ [] → origin.source.Admits 1) (hn : n ≤ text.length - origin.index)
    (h : Beyond text origin saved n s) (journal straight : Journal) :
    let k := agreement origin.caseFold text word (origin.index + n)
    (Stream.consume word s journal).Ends full fun result after => ∃ m, Beyond text origin saved m after ∧
      Compares origin.index n k word.length (Source.readAhead (reach k word.length) s.source straight) result m := by
  induction word generalizing n s journal straight with
  | nil => exact Outcome.ends_ok ⟨n, h, .agreed rfl rfl rfl⟩
  | cons c word ih =>
      have hone := h.admits.mpr (hadmits (List.cons_ne_nil c word))
      have hreads := h.reads hvalid journal
      have hsame := Source.read_unlogged (h.valid_source hvalid).1 journal straight
      intro k
      rw [Stream.consume, List.length_cons]
      generalize hread : s.source.read journal = o at hreads hsame
      generalize hstraight : s.source.read straight = o' at hsame
      obtain ⟨result', source', between'⟩ := o'
      cases hreads with
      | @delivered source between hleads hcursor =>
          obtain ⟨rfl, rfl⟩ := hsame
          have hback : (source.takeBack 1).cursor = s.source.cursor := by
            show source.cursor - 1 = s.source.cursor
            omega
          have hlooked := h.of_leads (hleads.takeBack 1) hback
          have hseen : (Symbol.ofText text (origin.index + n)).seen s.caseFold =
              (Symbol.ofText text (origin.index + n)).seen origin.caseFold := by rw [h.folds]
          rw [Action.bind_of_ok (lookahead_of_read hread hone), hseen]
          by_cases hc : (Symbol.ofText text (origin.index + n)).seen origin.caseFold = .char c
          · -- The symbol is read once more, and the rest is compared behind it.
            have hlt := lt_of_seen hc
            obtain ⟨char, hchar⟩ := exists_char_of_seen hc
            rw [hchar] at hread
            have hagain := Source.read_takeBack_of_char hread between
            have hk : k = agreement origin.caseFold text word (origin.index + (n + 1)) + 1 := agreement_cons hc
            rw [if_pos (congrArg some hc), hk]
            refine (hlooked.advance hvalid hfull hlt hagain).bind ?_
            rintro - stepped between ⟨hstepped, rfl⟩
            refine (ih (fun _ => hadmits (List.cons_ne_nil c word)) (by omega) hstepped between between').mono ?_
            exact fun result after ⟨m, hafter, hcompares⟩ => ⟨m, hafter, hcompares.cons hstraight⟩
          · have hk : k = 0 := agreement_cons_of_ne hc
            rw [if_neg fun hsome => hc (Option.some.inj hsome), hk]
            exact Outcome.ends_ok ⟨n, hlooked, .of_read hstraight⟩
      | @failed f source between hleads hcursor =>
          obtain ⟨rfl, rfl⟩ := hsame
          have hstop := hcursor.trans h.cursor
          rw [Action.bind_of_error (lookahead_of_read_error hread)]
          exact Outcome.ends_fault ⟨n, h.of_leads hleads hcursor, .of_read_error hstraight hstop⟩
      | full hlimit =>
          rw [Action.bind_of_error (lookahead_of_read_error hread)]
          exact Outcome.ends_full rfl (hfull (h.not_hasRoom hn hlimit))

end Beyond

/-- The ends of `matchesText` on a word of `length` characters, `k` of which agree, begun `n` symbols behind `origin`.
`agreed`: the word is passed. `differed`: the way back is taken. `refused`: the window is less than `k`. `failed`: a
read has failed. `m` is the number of symbols behind `origin` at which it ends. -/
inductive Tests (origin : Stream) (n k length : Nat) (ahead : Outcome Source Unit) : Except Stop Bool → Nat → Prop
  | agreed {m : Nat} (hread : ahead.result = .ok ()) (hk : k = length) (hm : m = n + k) :
      Tests origin n k length ahead (.ok true) m
  | differed {m : Nat} (hread : ahead.result = .ok ()) (hk : k < length) (hadmits : origin.source.Admits k)
      (hm : m = n) : Tests origin n k length ahead (.ok false) m
  | refused {window m : Nat} (hread : ahead.result = .ok ()) (hk : k < length)
      (hwindow : origin.source.history.window = some window) (hlt : window < k) (hm : m = n + k) :
      Tests origin n k length ahead (.error (.fault (.backupWindowExceeded k window))) m
  | failed {f : Fault} {m : Nat} (hread : ahead.result = .error (.fault f)) (hm : ahead.state.cursor = origin.index + m)
      (hle : m ≤ n + k) (hlt : m < n + length) : Tests origin n k length ahead (.error (.fault f)) m

theorem Beyond.matchesText (hvalid : origin.Valid text) (hfull : ¬origin.position.HasRoom text → full)
    (hadmits : word ≠ [] → origin.source.Admits 1) (hn : n ≤ text.length - origin.index)
    (h : Beyond text origin saved n s) (journal straight : Journal) :
    let k := agreement origin.caseFold text word (origin.index + n)
    (Stream.matchesText word s journal).Ends full fun result after => ∃ m, Beyond text origin saved m after ∧
      Tests origin n k word.length (Source.readAhead (reach k word.length) s.source straight) result m := by
  intro k
  obtain ⟨marked, between, hmark, hmarked, hsource⟩ := h.mark journal
  have hback : (origin.position.along text n).index = origin.index + n := by
    rw [← h.position]
    exact h.index
  have hconsume := hmarked.consume hvalid hfull word hadmits hn between straight
  rw [hsource] at hconsume
  generalize hbody : Stream.consume word marked between = o at hconsume
  by_cases hisFull : o.IsFull
  · obtain ⟨result, tried, tail⟩ := o
    cases hisFull
    refine Outcome.ends_full ?_ (hconsume.full rfl)
    exact congrArg Outcome.result (Action.bind_of_error (speculate_of_breach hmark hbody))
  obtain ⟨m, htried, hcompares⟩ := hconsume.ends hisFull
  obtain ⟨result, tried, tail⟩ := o
  cases hcompares with
  | agreed hread hk hm =>
      obtain ⟨after, journal', hrelease, hafter, -⟩ := htried.release tail
      rw [Stream.matchesText, Action.bind_of_ok (speculate_of_some hmark hbody hrelease)]
      exact Outcome.ends_ok ⟨m, hafter, .agreed hread hk hm⟩
  | differed hread hk hm =>
      subst hm
      by_cases hadmits : tried.source.Admits k
      · obtain ⟨after, journal', hrewind, hafter⟩ := htried.rewindTo hback rfl hadmits tail
        rw [Stream.matchesText, Action.bind_of_ok (speculate_of_none hmark hbody hrewind)]
        exact Outcome.ends_ok ⟨n, hafter, .differed hread hk (htried.admits.mp hadmits) rfl⟩
      · obtain ⟨window, rest, hwindow, hlt, hrewind⟩ := htried.rewindTo_of_not_admits hback hadmits tail
        obtain ⟨after, journal', hrelease, hafter, -⟩ := htried.release rest
        rw [Stream.matchesText, Action.bind_of_error (speculate_of_none_of_fault hmark hbody hrewind hrelease)]
        rw [htried.leads.evolves.window] at hwindow
        exact Outcome.ends_fault ⟨n + k, hafter, .refused hread hk hwindow hlt rfl⟩
  | failed hread hm hle hlt =>
      obtain ⟨after, journal', hrelease, hafter, -⟩ := htried.release tail
      rw [Stream.matchesText, Action.bind_of_error (speculate_of_fault hmark hbody hrelease)]
      exact Outcome.ends_fault ⟨m, hafter, .failed hread hm hle hlt⟩

/-- `matchesText` is exact and fails cleanly. Of a stream whose cursor is at its index, let `k` be the `agreement` of
the word with the text there. Unless a counter is full, the marks are as before and the cursor is at the index. If no
read fails up to the first character that differs, then: all of the word agrees, it answers `true` and the word has been
passed; or it answers `false` and the stream has not moved; or the window is less than `k`, and it fails with
`backupWindowExceeded k` and `k` symbols passed. If the read of symbol `j` on the way fails, that is its fault, with `j`
symbols passed. -/
theorem matchesText_exact (hs : s.Reached text) (hcursor : s.source.cursor = s.index) (word : List Char)
    (hadmits : word = [] ∨ s.source.Admits 1) (journal : Journal) :
    let k := agreement s.caseFold text word s.index
    let ahead := Source.readAhead (reach k word.length) s.source journal
    let o := matchesText word s journal
    IsGreatest
        {k | k ≤ word.length ∧ ∀ j, j < k → (Symbol.ofText text (s.index + j)).seen s.caseFold = .ofText word j} k ∧
      (s.position.HasRoom text → ¬o.IsFull) ∧
      (¬o.IsFull →
        o.state.marks.depth = s.marks.depth ∧ o.state.marks.entries = s.marks.entries ∧
        o.state.source.cursor = o.state.index ∧
        (ahead.result = .ok () →
          (k = word.length → o.result = .ok true ∧ o.state.position = s.position.along text k ∧
            o.state.index = s.index + k) ∧
          (k < word.length → s.source.Admits k → o.result = .ok false ∧ o.state.position = s.position) ∧
          ∀ window, k < word.length → s.source.history.window = some window → window < k →
            o.result = .error (.fault (.backupWindowExceeded k window)) ∧
              o.state.position = s.position.along text k ∧ o.state.index = s.index + k) ∧
        ∀ j f, j ≤ k → j < word.length → s.source.FailsAt journal j f →
          o.result = .error (.fault f) ∧ o.state.position = s.position.along text j ∧ o.state.index = s.index + j) := by
  intro k ahead o
  have hvalid := hs.valid
  have hstart := hvalid.beyond hcursor
  have hends : o.Ends (¬s.position.HasRoom text) fun result after => ∃ m,
      Beyond text s s.marks.entries m after ∧ Tests s 0 k word.length ahead result m :=
    hstart.matchesText hvalid id hadmits.resolve_left (Nat.zero_le _) journal journal
  refine ⟨isGreatest_agreement _ _ _ _, fun hroom hfull => hends.full hfull hroom, fun hfull => ?_⟩
  obtain ⟨m, hafter, htests⟩ := hends.ends hfull
  have hindex : o.state.index = s.index + m := hafter.index
  have hposition : o.state.position = s.position.along text m := hafter.position
  obtain ⟨result, hresult⟩ : ∃ result, o.result = result := ⟨_, rfl⟩
  rw [hresult] at htests
  refine ⟨by rw [hafter.depth, hstart.depth], hafter.entries, hafter.cursor.trans hafter.index.symm, fun hread => ?_,
    fun j f hjk hj hfails => ?_⟩
  · cases htests with
    | agreed _ hk hm =>
        rw [Nat.zero_add] at hm
        subst hm
        exact ⟨fun _ => ⟨hresult, hposition, hindex⟩, fun hlt => absurd hk hlt.ne, fun _ hlt => absurd hk hlt.ne⟩
    | differed _ hk hback hm =>
        subst hm
        exact ⟨fun heq => absurd heq hk.ne, fun _ _ => ⟨hresult, hposition⟩,
          fun window _ hwindow hlt => absurd (hback window hwindow) (Nat.not_le.mpr hlt)⟩
    | @refused window m _ hk hwindow hlt hm =>
        rw [Nat.zero_add] at hm
        subst hm
        refine ⟨fun heq => absurd heq hk.ne, fun _ hback => absurd (hback window hwindow) (Nat.not_le.mpr hlt), ?_⟩
        intro window' _ hwindow' _
        rw [hwindow, Option.some.injEq] at hwindow'
        exact ⟨hwindow' ▸ hresult, hposition, hindex⟩
    | failed hfail =>
        rw [hread] at hfail
        cases hfail
  · have hreached : j < reach k word.length := lt_min (Nat.lt_succ_of_le hjk) hj
    obtain ⟨hfail, hstop⟩ := hfails.readAhead hreached
    have hahead : ahead.result = .error (.fault f) := hfail
    have hcursor : ahead.state.cursor = s.source.cursor + j := hstop
    cases htests with
    | agreed hread | differed hread | refused hread =>
        rw [hahead] at hread
        cases hread
    | failed hread hm =>
        rw [hahead] at hread
        obtain rfl : m = j := by omega
        cases hread
        exact ⟨hresult, hposition, hindex⟩

/-- Under a window of one symbol, with a mark open, a word agrees in two characters and then differs: the test ends with
a refused way back behind these two characters, and the mark is still open. -/
theorem matchesText_exact_refused :
    let s := (mark (ofSource (.ofText ['x', '\n', 'z'] (some 1)) "text" false) #[]).state
    let o := matchesText ['x', '\n', 'x'] s #[]
    o.result = .error (.fault (.backupWindowExceeded 2 1)) ∧ o.state.position = ⟨2, 2, 0⟩ ∧
      o.state.marks.entries = [.start] := by
  intro s o
  have hfresh : (ofSource (.ofText ['x', '\n', 'z'] (some 1)) "text" false).IsFresh ['x', '\n', 'z'] :=
    ⟨.inl ⟨some 1, rfl⟩, rfl, 0, rfl⟩
  have hs : s.Reached ['x', '\n', 'z'] := Uses.mark.reached hfresh trivial
  have hadmits : s.source.Admits 1 := fun window hwindow => by
    cases hwindow
    exact Nat.le_refl 1
  obtain ⟨-, -, hexact⟩ := matchesText_exact hs rfl ['x', '\n', 'x'] (.inr hadmits) #[]
  have hresult : o.result = .error (.fault (.backupWindowExceeded 2 1)) := by decide +kernel
  obtain ⟨-, hentries, -, hread, -⟩ := hexact fun hfull => by
    rw [Outcome.IsFull, hresult] at hfull
    cases hfull
  obtain ⟨-, -, hrefused⟩ := hread (by decide +kernel)
  obtain ⟨-, hposition, -⟩ := hrefused 1 (by decide +kernel) rfl (by decide +kernel)
  exact ⟨hresult, hposition.trans (by decide +kernel), hentries.trans (by decide +kernel)⟩

end Stream

end Backtrack
