import Backtrack.Proofs.Search.Comparing
import Backtrack.Proofs.Stream.Candid

/-! Searching under a window. A search tries the word at one place after another and goes back after each place where
some of it agrees but not all. What the window has to admit is therefore a matter of how far the word agrees at the
places that are tried, and of nothing else; at the first place where that is too far the search ends. -/

namespace Backtrack

/-- The places at which a search that begins at `start` tries a word, up to the end of the text: it goes on behind the
word where it stands, and behind one symbol elsewhere. -/
inductive Tries (caseFold : Bool) (text word : List Char) : Nat → Nat → Prop
  | here {start : Nat} (hlt : start < text.length) : Tries caseFold text word start start
  | behind {start i : Nat} (hlt : start < text.length) (h : Occurs caseFold text word start)
      (hrest : Tries caseFold text word (start + word.length) i) : Tries caseFold text word start i
  | beside {start i : Nat} (hlt : start < text.length) (h : ¬Occurs caseFold text word start)
      (hrest : Tries caseFold text word (start + 1) i) : Tries caseFold text word start i

section

variable {caseFold : Bool} {text word : List Char} {start i : Nat}

theorem not_tries_of_length_le (h : text.length ≤ start) : ¬Tries caseFold text word start i := by
  intro htries
  cases htries <;> omega

theorem Tries.le (h : Tries caseFold text word start i) : start ≤ i := by
  induction h with
  | here => exact Nat.le_refl _
  | behind _ _ _ ih => exact (Nat.le_add_right _ _).trans ih
  | beside _ _ _ ih => exact Nat.le_of_succ_le ih

theorem tries_of_occurs (hlt : start < text.length) (h : Occurs caseFold text word start) :
    Tries caseFold text word start i ↔ i = start ∨ Tries caseFold text word (start + word.length) i := by
  constructor
  · intro htries
    cases htries with
    | here => exact .inl rfl
    | behind _ _ hrest => exact .inr hrest
    | beside _ hnot => exact absurd h hnot
  · rintro (rfl | hrest)
    · exact .here hlt
    · exact .behind hlt h hrest

theorem tries_of_not_occurs (hlt : start < text.length) (h : ¬Occurs caseFold text word start) :
    Tries caseFold text word start i ↔ i = start ∨ Tries caseFold text word (start + 1) i := by
  constructor
  · intro htries
    cases htries with
    | here => exact .inl rfl
    | behind _ hoccurs => exact absurd hoccurs h
    | beside _ _ hrest => exact .inr hrest
  · rintro (rfl | hrest)
    · exact .here hlt
    · exact .beside hlt h hrest

end

/-- A window admits no more symbols than its own number. -/
theorem Source.admits_iff {s : Source} {window count : Nat} (h : s.history.window = some window) :
    s.Admits count ↔ count ≤ window := by
  constructor
  · exact fun hadmits => hadmits window h
  · intro hle window' hwindow'
    rw [h, Option.some.injEq] at hwindow'
    exact hwindow' ▸ hle

namespace Stream

variable {text word : List Char} {origin s : Stream} {saved : List Position} {n start : Nat} {full : Prop}

/-- The places that a search from `start` on `Tries` where the word differs behind more symbols than the source admits
to take back. -/
def stumbles (origin : Stream) (text word : List Char) (start : Nat) : Set Nat :=
  {i | Tries origin.caseFold text word start i ∧ agreement origin.caseFold text word i < word.length ∧
    ¬origin.source.Admits (agreement origin.caseFold text word i)}

/-- The ends of `findRounds` from `start` on. `completed`: it `stumbles` nowhere and reports what it has found.
`stumbled`: it stops with `backupWindowExceeded` at the least place where it `stumbles`, behind the symbols that agree
there. -/
inductive Scans (text word : List Char) (origin : Stream) (saved : List Position) (start : Nat) :
    Except Stop (List Occurrence) → Stream → Prop
  | completed {found : List Occurrence} {after : Stream} (hclear : ∀ i, i ∉ stumbles origin text word start) :
      Scans text word origin saved start (.ok found) after
  | stumbled {window i m : Nat} {after : Stream} (hleast : IsLeast (stumbles origin text word start) i)
      (hwindow : origin.source.history.window = some window) (hafter : Beyond text origin saved m after)
      (hm : origin.index + m = i + agreement origin.caseFold text word i) :
      Scans text word origin saved start
        (.error (.fault (.backupWindowExceeded (agreement origin.caseFold text word i) window))) after

/-- A search that does not stumble at a place goes on from the next one. -/
theorem Scans.of_next {next : Nat} {result : Except Stop (List Occurrence)} {after : Stream}
    (hnext : ∀ i, Tries origin.caseFold text word start i ↔ i = start ∨ Tries origin.caseFold text word next i)
    (hstart : start ∉ stumbles origin text word start) (h : Scans text word origin saved next result after) :
    Scans text word origin saved start result after := by
  have hsame : stumbles origin text word start = stumbles origin text word next := by
    ext i
    constructor
    · rintro ⟨htries, hrest⟩
      refine ⟨((hnext i).mp htries).resolve_left fun heq => ?_, hrest⟩
      subst heq
      exact hstart ⟨htries, hrest⟩
    · rintro ⟨htries, hrest⟩
      exact ⟨(hnext i).mpr (.inr htries), hrest⟩
  cases h with
  | completed hclear => exact .completed (hsame ▸ hclear)
  | stumbled hleast hwindow hafter hm => exact .stumbled (hsame ▸ hleast) hwindow hafter hm

namespace Beyond

variable (hvalid : origin.Valid text) (hfull : ¬origin.position.HasRoom text → full)
  (hreliable : origin.source.Reliable) (hone : origin.source.Admits 1)

include hvalid hfull hreliable hone

/-- One round of a search: it ends with the text, passes the word where it stands, passes one symbol elsewhere, or is
refused the way back over the symbols that agree. -/
theorem findRounds_succ {seen : List Occurrence} {rounds : Nat} {Q : Except Stop (List Occurrence) → Stream → Prop}
    (hn : n ≤ text.length - origin.index) (h : Beyond text origin saved n s)
    (hend : text.length ≤ origin.index + n → ∀ after, Q (.ok seen.reverse) after)
    (hhere : origin.index + n < text.length → Occurs origin.caseFold text word (origin.index + n) →
      ∀ occurrence passed between, Beyond text origin saved (n + word.length) passed →
        (Stream.findRounds word (occurrence :: seen) rounds passed between).Ends full Q)
    (hbeside : origin.index + n < text.length → ¬Occurs origin.caseFold text word (origin.index + n) →
      origin.index + n ∉ stumbles origin text word (origin.index + n) → ∀ stepped between,
        Beyond text origin saved (n + 1) stepped → (Stream.findRounds word seen rounds stepped between).Ends full Q)
    (hrefused : origin.index + n ∈ stumbles origin text word (origin.index + n) →
      ∀ window after, origin.source.history.window = some window →
        Beyond text origin saved (n + agreement origin.caseFold text word (origin.index + n)) after →
        Q (.error (.fault
          (.backupWindowExceeded (agreement origin.caseFold text word (origin.index + n)) window))) after)
    (journal : Journal) : (Stream.findRounds word seen (rounds + 1) s journal).Ends full Q := by
  refine (h.peek hvalid hreliable hfull hone hn journal).bind ?_
  rintro _ looked between ⟨rfl, hlooked⟩
  by_cases hlt : text.length ≤ origin.index + n
  · have heof : (Symbol.ofText text (origin.index + n)).seen origin.caseFold = .eof :=
      Symbol.seen_eq_eof.mpr (Symbol.ofText_eq_eof.mpr hlt)
    rw [heof, if_pos rfl]
    exact Outcome.ends_ok (hend hlt looked)
  have hseen : ¬some ((Symbol.ofText text (origin.index + n)).seen origin.caseFold) = some .eof := by
    rw [Option.some.injEq, Symbol.seen_eq_eof, Symbol.ofText_eq_eof]
    exact hlt
  rw [Nat.not_le] at hlt
  rw [if_neg hseen]
  rw [Action.bind_of_ok (rfl : query Stream.position looked between = ⟨.ok looked.position, looked, between⟩)]
  refine (hlooked.matchesText hvalid hfull (fun _ => hone) hn between between).bind ?_ ?_
  · rintro found passed between ⟨m, hpassed, htests⟩
    cases htests with
    | agreed hread hk hm =>
        have hoccurs := (occurs_iff_agreement hlt.le).mpr hk
        have hstart : looked.position.index = origin.index + n := hlooked.index
        rw [hk] at hm
        subst hm
        have hstop : passed.index = origin.index + n + word.length := hpassed.index.trans (Nat.add_assoc _ _ _).symm
        have hcut := hpassed.substring hvalid hoccurs.1 between
        rw [← hstop, ← hstart] at hcut
        rw [if_pos rfl,
          Action.bind_of_ok (rfl : query Stream.index passed between = ⟨.ok passed.index, passed, between⟩),
          Action.bind_of_ok hcut]
        exact hhere hlt hoccurs _ passed (between.push (.matched looked.position)) hpassed
    | differed hread hk hback hm =>
        subst hm
        have hoccurs := mt (occurs_iff_agreement hlt.le).mp hk.ne
        rw [if_neg Bool.false_ne_true]
        refine (hpassed.advance_of_reliable hvalid hfull hreliable hlt between).bind ?_
        exact fun _ stepped between => hbeside hlt hoccurs (fun hmem => hmem.2.2 hback) stepped between
  · rintro stop after ⟨m, hafter, htests⟩
    cases htests with
    | refused hread hk hwindow hexceeds hm =>
        subst hm
        refine hrefused ⟨.here hlt, hk, fun hadmits => ?_⟩ _ after hwindow hafter
        exact Nat.not_le.mpr hexceeds (hadmits _ hwindow)
    | failed hread => exact absurd hread (hlooked.readAhead_ne_fault hvalid hreliable _ _ _)

/-- A search with as many rounds as the index has values to come goes on until it stumbles or comes to the end. -/
theorem findRounds (hword : word ≠ []) (seen : List Occurrence) {rounds : Nat}
    (hrounds : counterLimit < origin.index + n + rounds) (hn : n ≤ text.length - origin.index)
    (h : Beyond text origin saved n s) (journal : Journal) :
    (Stream.findRounds word seen rounds s journal).Ends full (Scans text word origin saved (origin.index + n)) := by
  induction rounds generalizing n s seen journal with
  | zero =>
      have hlimit := h.leads.cursor_le hvalid.limit
      have hcursor := h.cursor
      omega
  | succ rounds ih =>
      refine h.findRounds_succ hvalid hfull hreliable hone hn ?_ ?_ ?_ ?_ journal
      · exact fun hend _ => .completed fun i hi => not_tries_of_length_le hend hi.1
      · intro hlt hoccurs occurrence passed between hpassed
        have hlength := hoccurs.1
        have hpos := List.length_pos_iff.mpr hword
        have hagrees := (occurs_iff_agreement hlt.le).mp hoccurs
        refine (ih _ (by omega) (by omega) hpassed between).mono fun result after hscans => ?_
        rw [← Nat.add_assoc] at hscans
        exact hscans.of_next (fun i => tries_of_occurs hlt hoccurs) fun hmem => hmem.2.1.ne hagrees
      · intro hlt hoccurs hclear stepped between hstepped
        refine (ih _ (by omega) (by omega) hstepped between).mono fun result after hscans => ?_
        exact hscans.of_next (fun i => tries_of_not_occurs hlt hoccurs) hclear
      · intro hmem window after hwindow hafter
        exact .stumbled ⟨hmem, fun i hi => hi.1.le⟩ hwindow hafter (Nat.add_assoc _ _ _).symm

end Beyond

section

variable (hvalid : s.Valid text) (hreliable : s.source.Reliable) (hcursor : s.source.cursor = s.index)
  (hword : word ≠ [])

include hvalid hreliable hcursor hword

theorem find_scans (hone : s.source.Admits 1) (journal : Journal) :
    (find word s journal).Ends (¬s.position.HasRoom text) (Scans text word s s.marks.entries s.index) := by
  have hrounds : counterLimit < s.index + 0 + roundLimit s := by
    unfold roundLimit
    omega
  rw [find, if_neg (by simpa using hword),
    Action.bind_of_ok (rfl : query roundLimit s journal = ⟨.ok s.roundLimit, s, journal⟩)]
  exact (hvalid.beyond hcursor).findRounds hvalid id hreliable hone hword [] hrounds (Nat.zero_le _) journal

/-- Under a window that does not admit that one symbol is taken back, a search cannot begin. -/
theorem find_of_not_admits (hone : ¬s.source.Admits 1) (journal : Journal) :
    (find word s journal).Ends (¬s.position.HasRoom text) fun result _ => ∃ reason, result = .error reason := by
  have hstart := hvalid.beyond hcursor
  have hfar : counterLimit < s.index + 0 + 1 → ¬s.position.HasRoom text := fun hlimit =>
    hstart.not_hasRoom (Nat.zero_le _) (by omega)
  obtain ⟨rounds, hrounds⟩ : ∃ rounds, roundLimit s = rounds + 1 := ⟨counterLimit - s.index, by
    have hle := hvalid.ahead.trans hvalid.limit
    unfold roundLimit
    omega⟩
  rw [find, if_neg (by simpa using hword),
    Action.bind_of_ok (rfl : query roundLimit s journal = ⟨.ok s.roundLimit, s, journal⟩), hrounds, findRounds]
  refine (hstart.lookahead_of_not_admits hvalid hreliable hfar hone journal).bind ?_ fun stop _ _ => ⟨stop, rfl⟩
  rintro _ _ _ ⟨⟨_, _, _, herror⟩, -⟩
  cases herror

end

/-- `find` under a window, over a reader that does not fail. Let `k i` be the `agreement` of the word at place `i`, and
`refused` the places that the search tries where `window < k i < word.length`. Unless a counter is full, `find` fails if
and only if the window is `0` or there is a place in `refused`. At the least of these places, `i`, it fails with
`backupWindowExceeded (k i) window`, with `k i` symbols passed and the open marks as before. Where it does not fail it
does what it does without the window; and a window of `max 1 (word.length - 1)` is enough. -/
theorem find_under_window (hs : s.Reached text) (hreliable : s.source.Reliable) (hcursor : s.source.cursor = s.index)
    {window : Nat} (hwindow : s.source.history.window = some window) (hword : word ≠ []) (journal : Journal) :
    let k := agreement s.caseFold text word
    let refused := {i | Tries s.caseFold text word s.index i ∧ window < k i ∧ k i < word.length}
    let o := find word s journal
    (s.position.HasRoom text → ¬o.IsFull) ∧
    (¬o.IsFull →
      ((∃ reason, o.result = .error reason) ↔ window = 0 ∨ ∃ i, i ∈ refused) ∧
      (∀ i, 1 ≤ window → IsLeast refused i →
        o.result = .error (.fault (.backupWindowExceeded (k i) window)) ∧ o.state.index = i + k i ∧
          o.state.source.cursor = o.state.index ∧ o.state.marks.depth = s.marks.depth ∧
          o.state.marks.entries = s.marks.entries) ∧
      (∀ found, o.result = .ok found →
        find word (s.withWindow none) journal = ⟨.ok found, o.state.withWindow none, o.journal⟩) ∧
      (max 1 (word.length - 1) ≤ window → ∃ found, o.result = .ok found)) := by
  intro k refused o
  have hvalid := hs.valid
  have hadmits : ∀ count, s.source.Admits count ↔ count ≤ window := fun count => Source.admits_iff hwindow
  have hrefused : stumbles s text word s.index = refused := by
    ext i
    show Tries s.caseFold text word s.index i ∧ k i < word.length ∧ ¬s.source.Admits (k i) ↔ _
    rw [hadmits, Nat.not_le, and_comm (a := k i < word.length)]
    rfl
  have hsame : ∀ found, o.result = .ok found →
      find word (s.withWindow none) journal = ⟨.ok found, o.state.withWindow none, o.journal⟩ := by
    intro found hfound
    refine find_withWindow_none hvalid.marks hvalid.ahead ?_
    rw [← hfound]
  by_cases hone : s.source.Admits 1
  · have hends : o.Ends (¬s.position.HasRoom text) (Scans text word s s.marks.entries s.index) :=
      find_scans hvalid hreliable hcursor hword hone journal
    have hpos : 1 ≤ window := (hadmits 1).mp hone
    refine ⟨fun hroom hfull => hends.full hfull hroom, fun hfull => ?_⟩
    have hcases : (∃ found, o.result = .ok found ∧ ∀ i, i ∉ refused) ∨ ∃ i m, IsLeast refused i ∧
        o.result = .error (.fault (.backupWindowExceeded (k i) window)) ∧
        Beyond text s s.marks.entries m o.state ∧ s.index + m = i + k i := by
      have hscans := hends.ends hfull
      rw [← hrefused]
      generalize o.result = result, o.state = after at hscans ⊢
      cases hscans with
      | completed hclear => exact .inl ⟨_, rfl, hclear⟩
      | stumbled hleast hown hafter hm =>
          rw [hwindow, Option.some.injEq] at hown
          exact .inr ⟨_, _, hleast, by rw [hown], hafter, hm⟩
    rcases hcases with ⟨found, hfound, hclear⟩ | ⟨i, m, hleast, herror, hafter, hm⟩
    · refine ⟨⟨?_, ?_⟩, fun i _ hi => absurd hi.1 (hclear i), hsame, fun _ => ⟨found, hfound⟩⟩
      · rintro ⟨reason, hreason⟩
        rw [hfound] at hreason
        cases hreason
      · rintro (rfl | ⟨i, hi⟩)
        · cases hpos
        · exact absurd hi (hclear i)
    · refine ⟨⟨fun _ => .inr ⟨i, hleast.1⟩, fun _ => ⟨_, herror⟩⟩, fun j _ hj => ?_, hsame, fun hle => ?_⟩
      · obtain rfl : j = i := Nat.le_antisymm (hj.2 hleast.1) (hleast.2 hj.1)
        refine ⟨herror, hafter.index.trans hm, hafter.cursor.trans hafter.index.symm, ?_, hafter.entries⟩
        rw [hafter.depth, MarkStack.length_entries hvalid.marks]
      · obtain ⟨-, hlt, hlength⟩ := hleast.1
        omega
  · have hends : o.Ends (¬s.position.HasRoom text) fun result _ => ∃ reason, result = .error reason :=
      find_of_not_admits hvalid hreliable hcursor hword hone journal
    have hzero : window = 0 := by
      rw [hadmits] at hone
      omega
    refine ⟨fun hroom hfull => hends.full hfull hroom, fun hfull => ?_⟩
    refine ⟨⟨fun _ => .inl hzero, fun _ => hends.ends hfull⟩, fun i hpos => absurd hpos ?_, hsame, fun hle => ?_⟩
    · rw [hzero]
      exact Nat.not_succ_le_zero 0
    · omega

/-- The word agrees in two characters at the third place, and the window is of one: the search ends behind them,
although the word stands further on. -/
theorem find_under_window_refused :
    let s := ofSource (.ofText ['a', 'b', 'a', 'a', 'b', 'a', 'a', 'c'] (some 1)) "text" false
    let o := find ['a', 'a', 'c'] s #[]
    o.result = .error (.fault (.backupWindowExceeded 2 1)) ∧ o.state.index = 4 := by
  intro s o
  have hfresh : s.IsFresh ['a', 'b', 'a', 'a', 'b', 'a', 'a', 'c'] := ⟨.inl ⟨some 1, rfl⟩, rfl, 0, rfl⟩
  have idle : Uses .free (pure () : Action Stream Unit) s #[] := .pure ()
  have hs : s.Reached ['a', 'b', 'a', 'a', 'b', 'a', 'a', 'c'] := idle.reached hfresh trivial
  have hresult : o.result = .error (.fault (.backupWindowExceeded 2 1)) := by decide +kernel
  have hfull : ¬o.IsFull := by
    intro hfull
    rw [Outcome.IsFull, hresult] at hfull
    cases hfull
  obtain ⟨-, hexact⟩ := find_under_window hs ⟨rfl, rfl⟩ rfl rfl (List.cons_ne_nil 'a' ['a', 'c']) #[]
  refine ⟨hresult, ((hexact hfull).2.1 2 (Nat.le_refl 1) ⟨⟨?_, by decide, by decide⟩, ?_⟩).2.1⟩
  · exact .beside (by decide) (by unfold Occurs; decide)
      (.beside (by decide) (by unfold Occurs; decide) (.here (by decide)))
  · rintro i ⟨-, hlt, -⟩
    rcases i with _ | _ | i
    · exact absurd hlt (by decide)
    · exact absurd hlt (by decide)
    · exact Nat.le_add_left 2 i

end Stream

end Backtrack
