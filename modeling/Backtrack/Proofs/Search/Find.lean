import Backtrack.Proofs.Search.Matching
import Backtrack.Proofs.Stream.Programs

/-! Searching a text. A search finds the leftmost places of a word that do not overlap, whatever has happened
to the stream before, as long as its cursor is at its index, and ends with the text. -/

namespace Backtrack.Stream

/-- What a search that begins at `p` reports of the place `i`. -/
def occurrenceAt (text word : List Char) (p : Position) (i : Nat) : Occurrence :=
  ⟨p.along text (i - p.index), String.ofList ((text.drop i).take word.length)⟩

namespace Stands

variable {text word : List Char} {p : Position} {caseFold : Bool} {saved : List Position} {n : Nat} {s : Stream}

variable (hroom : p.HasRoom text)

include hroom

/-- What has been passed can be cut out. -/
theorem substring (hle : p.index + n + word.length ≤ text.length)
    (h : Stands text p caseFold saved (n + word.length) s) (journal : Journal) :
    Stream.substring (p.index + n) (p.index + n + word.length) s journal =
      ⟨.ok (String.ofList ((text.drop (p.index + n)).take word.length)), s, journal⟩ := by
  obtain ⟨hvalid, hbeyond⟩ := h.beyond hroom (by omega)
  exact hbeyond.substring hvalid hle journal

/-- At the end of the text a search ends. -/
theorem findRounds_end (hn : n ≤ text.length - p.index) (hend : text.length ≤ p.index + n)
    (h : Stands text p caseFold saved n s) (seen : List Occurrence) (journal : Journal) :
    ∃ after journal', Stands text p caseFold saved (text.length - p.index) after ∧
      ∀ rounds, findRounds word seen (rounds + 1) s journal = ⟨.ok seen.reverse, after, journal'⟩ := by
  obtain ⟨looked, journal', hlook, hlooked⟩ := h.lookahead hroom hn journal
  obtain rfl : n = text.length - p.index := by omega
  refine ⟨looked, journal', hlooked, fun rounds => ?_⟩
  rw [Symbol.seen_eq_eof.mpr (Symbol.ofText_eq_eof.mpr hend)] at hlook
  rw [findRounds, Action.bind_of_ok hlook, if_pos rfl]
  rfl

/-- Where the word stands, a search reports it and goes on behind it. -/
theorem findRounds_of_occurs (hoccurs : Occurs caseFold text word (p.index + n)) (hlt : p.index + n < text.length)
    (h : Stands text p caseFold saved n s) (seen : List Occurrence) (journal : Journal) :
    ∃ passed journal', Stands text p caseFold saved (n + word.length) passed ∧
      ∀ rounds, Stream.findRounds word seen (rounds + 1) s journal =
        Stream.findRounds word (occurrenceAt text word p (p.index + n) :: seen) rounds passed journal' := by
  obtain ⟨looked, begun, hlook, hlooked⟩ := h.lookahead hroom (by omega) journal
  obtain ⟨m, passed, between, hpassed, hresult⟩ := hlooked.matchesText hroom word hlt.le begun
  obtain ⟨-, rfl, hmatch⟩ := hresult.resolve_right fun hno => hno.1 hoccurs
  have hstart : looked.position.index = p.index + n := hlooked.index hroom (by omega)
  have hstop : passed.index = p.index + n + word.length := by
    rw [hpassed.index hroom (by have := hoccurs.1; omega), Nat.add_assoc]
  have hcut : Stream.substring looked.position.index passed.index passed between =
      ⟨.ok (String.ofList ((text.drop (p.index + n)).take word.length)), passed, between⟩ := by
    rw [hstart, hstop]
    exact hpassed.substring hroom hoccurs.1 between
  have hreport : occurrenceAt text word p (p.index + n) =
      ⟨looked.position, String.ofList ((text.drop (p.index + n)).take word.length)⟩ := by
    rw [occurrenceAt, Nat.add_sub_cancel_left, hlooked.position]
  have hseen : ¬(some ((Symbol.ofText text (p.index + n)).seen caseFold) = some .eof) := by
    rw [Option.some.injEq, Symbol.seen_eq_eof, Symbol.ofText_eq_eof]
    exact Nat.not_le.mpr hlt
  refine ⟨passed, between.push (.matched looked.position), hpassed, fun rounds => ?_⟩
  rw [Stream.findRounds, Action.bind_of_ok hlook, if_neg hseen, hreport]
  refine (Action.bind_of_ok rfl).trans ((Action.bind_of_ok hmatch).trans ?_)
  rw [if_pos rfl]
  exact (Action.bind_of_ok rfl).trans ((Action.bind_of_ok hcut).trans (Action.bind_of_ok rfl))

/-- Where the word does not stand, a search goes on behind one symbol. -/
theorem findRounds_of_not_occurs (hoccurs : ¬Occurs caseFold text word (p.index + n))
    (hlt : p.index + n < text.length) (h : Stands text p caseFold saved n s) (seen : List Occurrence)
    (journal : Journal) :
    ∃ passed journal', Stands text p caseFold saved (n + 1) passed ∧
      ∀ rounds, Stream.findRounds word seen (rounds + 1) s journal =
        Stream.findRounds word seen rounds passed journal' := by
  obtain ⟨looked, begun, hlook, hlooked⟩ := h.lookahead hroom (by omega) journal
  obtain ⟨m, tried, _, htried, hresult⟩ := hlooked.matchesText hroom word hlt.le begun
  obtain ⟨-, hm, hmatch⟩ := hresult.resolve_left fun hyes => hoccurs hyes.1
  rw [hm] at htried
  obtain ⟨passed, journal', hadvance, hpassed⟩ := htried.advance hroom (by omega) hlt _
  have hseen : ¬(some ((Symbol.ofText text (p.index + n)).seen caseFold) = some .eof) := by
    rw [Option.some.injEq, Symbol.seen_eq_eof, Symbol.ofText_eq_eof]
    exact Nat.not_le.mpr hlt
  refine ⟨passed, journal', hpassed, fun rounds => ?_⟩
  rw [Stream.findRounds, Action.bind_of_ok hlook, if_neg hseen]
  refine (Action.bind_of_ok rfl).trans ((Action.bind_of_ok hmatch).trans ?_)
  exact Action.bind_of_ok hadvance

/-- A search with a round for every symbol that is left, and one for the end, finds what there is to find and
comes to the end of the text. More rounds are not made. -/
theorem findRounds (hword : word ≠ []) {left : Nat} (hn : n ≤ text.length - p.index)
    (hleft : text.length ≤ p.index + n + left) (h : Stands text p caseFold saved n s) (seen : List Occurrence)
    (journal : Journal) :
    ∃ places after journal', Leftmost (Occurs caseFold text word) word.length (p.index + n) places ∧
      Stands text p caseFold saved (text.length - p.index) after ∧
      ∀ rounds, left ≤ rounds → Stream.findRounds word seen (rounds + 1) s journal =
        ⟨.ok (seen.reverse ++ places.map (occurrenceAt text word p)), after, journal'⟩ := by
  induction left generalizing n s seen journal with
  | zero =>
      obtain ⟨after, journal', hafter, hrounds⟩ := h.findRounds_end hroom hn hleft seen journal
      refine ⟨[], after, journal', .none fun i hi => not_occurs_of_length_le hword (hleft.trans hi), hafter,
        fun rounds _ => ?_⟩
      rw [hrounds, List.map_nil, List.append_nil]
  | succ left ih =>
      by_cases hend : text.length ≤ p.index + n
      · obtain ⟨after, journal', hafter, hrounds⟩ := h.findRounds_end hroom hn hend seen journal
        refine ⟨[], after, journal', .none fun i hi => not_occurs_of_length_le hword (hend.trans hi), hafter,
          fun rounds _ => ?_⟩
        rw [hrounds, List.map_nil, List.append_nil]
      have hlt : p.index + n < text.length := Nat.lt_of_not_le hend
      by_cases hoccurs : Occurs caseFold text word (p.index + n)
      · have hpos := List.length_pos_iff.mpr hword
        have hlength := hoccurs.1
        obtain ⟨passed, between, hpassed, hround⟩ := h.findRounds_of_occurs hroom hoccurs hlt seen journal
        obtain ⟨places, after, journal', hplaces, hafter, hrounds⟩ :=
          ih (n := n + word.length) (by omega) (by omega) hpassed
            (occurrenceAt text word p (p.index + n) :: seen) between
        rw [← Nat.add_assoc] at hplaces
        refine ⟨(p.index + n) :: places, after, journal', .here hoccurs hplaces, hafter, fun rounds hle => ?_⟩
        obtain ⟨rounds, rfl⟩ : ∃ more, rounds = more + 1 := ⟨rounds - 1, by omega⟩
        rw [hround, hrounds rounds (by omega), List.reverse_cons, List.append_assoc]
        rfl
      · obtain ⟨passed, between, hpassed, hround⟩ := h.findRounds_of_not_occurs hroom hoccurs hlt seen journal
        obtain ⟨places, after, journal', hplaces, hafter, hrounds⟩ :=
          ih (n := n + 1) (by omega) (by omega) hpassed seen between
        refine ⟨places, after, journal', .of_not hoccurs hplaces, hafter, fun rounds hle => ?_⟩
        obtain ⟨rounds, rfl⟩ : ∃ more, rounds = more + 1 := ⟨rounds - 1, by omega⟩
        rw [hround, hrounds rounds (by omega)]

omit hroom

/-- A search from where the stream is. -/
theorem find (hroom : s.position.HasRoom text) (hword : word ≠ [])
    (h : Stands text s.position caseFold saved 0 s) (journal : Journal) :
    ∃ places after journal', Leftmost (Occurs caseFold text word) word.length s.index places ∧
      Stands text s.position caseFold saved (text.length - s.index) after ∧
      Stream.find word s journal = ⟨.ok (places.map (occurrenceAt text word s.position)), after, journal'⟩ ∧
      ∀ rounds, text.length - s.index < rounds →
        Stream.findRounds word [] rounds s journal = Stream.find word s journal := by
  have hindex : s.index = s.position.index := rfl
  have hend := (hroom _ (Nat.le_refl _)).1
  rw [hroom.index_along (Nat.le_succ _)] at hend
  have hleft : text.length ≤ s.position.index + 0 + (text.length - s.index) := by omega
  obtain ⟨places, after, journal', hplaces, hafter, hrounds⟩ :=
    h.findRounds hroom hword (Nat.zero_le _) hleft [] journal
  have hfind : Stream.find word s journal =
      ⟨.ok (places.map (occurrenceAt text word s.position)), after, journal'⟩ := by
    have hlimit : roundLimit s = counterLimit - s.index + 1 := by
      unfold roundLimit
      omega
    rw [Stream.find, if_neg (by simpa using hword)]
    refine (Action.bind_of_ok rfl).trans ?_
    rw [hlimit, hrounds _ (by omega)]
    rfl
  refine ⟨places, after, journal', hplaces, hafter, hfind, fun rounds hlt => ?_⟩
  obtain ⟨rounds, rfl⟩ : ∃ more, rounds = more + 1 := ⟨rounds - 1, by omega⟩
  rw [hfind, hrounds rounds (by omega)]
  rfl

end Stands

/-- A search through all of a text reports places of the word, with their positions. -/
theorem find_fresh {text : List Char} {s : Stream} (hfresh : s.IsFresh text) (hreliable : s.source.Reliable)
    (hwindow : s.source.history.window = none) (hroom : Position.start.HasRoom text) {word : List Char}
    (hword : word ≠ []) (journal : Journal) :
    ∃ places : List Nat, (find word s journal).result = .ok (places.map (occurrenceAt text word .start)) ∧
      ∀ i ∈ places, Occurs s.caseFold text word i := by
  have hposition := hfresh.position
  have hcursor : s.source.cursor = s.position.index + 0 := by
    rw [hposition]
    exact hfresh.cursor
  have hstands : Stands text s.position s.caseFold s.marks.entries 0 s :=
    ⟨hfresh.valid_of_reliable hreliable, hreliable, hfresh.text_eq, hwindow, hcursor, rfl, hfresh.valid_marks, rfl,
      rfl⟩
  rw [← hposition] at hroom ⊢
  obtain ⟨places, after, journal', hplaces, -, hfind, -⟩ := hstands.find hroom hword journal
  exact ⟨places, by rw [hfind], hplaces.occurs⟩

/-- `find` is exact. In whatever state a program has left a stream without a window, over a text or a reader that does
not fail, if the cursor is at the index and no counter is full before the end of the text, `find` of a word that is not
empty reports the `Leftmost` places from the index on where the word `Occurs`, without overlap, each as `occurrenceAt`
there. It then stands at the end of the text, with the open marks as they were, and one round more than there are
symbols left is enough. There is nothing to find of the empty word. -/
theorem find_finds {α : Type} {x : Action Stream α} {text : List Char} {fresh : Stream}
    (hfresh : fresh.IsFresh text) (hreliable : fresh.source.Reliable)
    (hwindow : fresh.source.history.window = none) {start : Journal} (hx : Uses .free x fresh start)
    (hcursor : (x fresh start).state.source.cursor = (x fresh start).state.index)
    (hroom : (x fresh start).state.position.HasRoom text) :
    let s := (x fresh start).state
    let journal := (x fresh start).journal
    find [] s journal = ⟨.ok [], s, journal⟩ ∧
      ∀ word, word ≠ [] →
        ∃ places after journal',
          find word s journal = ⟨.ok (places.map (occurrenceAt text word s.position)), after, journal'⟩ ∧
          Leftmost (Occurs s.caseFold text word) word.length s.index places ∧
          after.index = max s.index text.length ∧
          after.position = s.position.along text (text.length - s.index) ∧
          after.source.cursor = after.index ∧ after.marks.depth = s.marks.depth ∧
          after.marks.entries = s.marks.entries ∧
          ∀ rounds, text.length - s.index < rounds → findRounds word [] rounds s journal = find word s journal := by
  intro s journal
  refine ⟨rfl, fun word hword => ?_⟩
  obtain ⟨distance, hstrays, -⟩ := hx.strays hfresh.valid_marks hfresh.ahead
  have hvalid := hfresh.valid_of_reliable hreliable
  have hevolves := hstrays.leads.evolves
  have hsame := hevolves.same hvalid
  have hstands : Stands text s.position s.caseFold s.marks.entries 0 s :=
    ⟨hsame.valid, hevolves.reliable hvalid hreliable, hsame.text.trans hfresh.text_eq,
      hevolves.window.trans hwindow, hcursor, rfl, hstrays.marks hfresh.valid_marks, rfl, rfl⟩
  obtain ⟨places, after, journal', hplaces, hafter, hfind, hrounds⟩ := hstands.find hroom hword journal
  have hindex : after.index = s.index + (text.length - s.index) := hafter.index hroom (Nat.le_refl _)
  refine ⟨places, after, journal', hfind, hplaces, ?_, hafter.position, ?_, ?_, hafter.entries, hrounds⟩
  · rw [hindex, Nat.max_def]
    split <;> omega
  · rw [hindex]
    exact hafter.cursor
  · rw [hafter.depth, hstands.depth]

/-- The search for a word that overlaps itself, in a stream that folds letters, behind a character that has been
passed and with the line set. -/
theorem find_finds_overlap :
    let text := ['x', 'a', 'A', 'a', '\n', 'A', 'a']
    let o := (advance >>= fun _ => setLine 7) (ofSource (.ofText text none) "text" true) #[]
    let found := find ['a', 'a'] o.state o.journal
    found.result = .ok [⟨⟨1, 7, 1⟩, "aA"⟩, ⟨⟨5, 8, 0⟩, "Aa"⟩] ∧
      ∃ places, found.result = .ok (places.map (occurrenceAt text ['a', 'a'] o.state.position)) ∧
        Leftmost (Occurs true text ['a', 'a']) 2 1 places := by
  intro text o found
  have hfresh : (ofSource (.ofText text none) "text" true).IsFresh text := ⟨.inl ⟨none, rfl⟩, rfl, 0, rfl⟩
  have hx : Uses .free (advance >>= fun _ => setLine 7) (ofSource (.ofText text none) "text" true) #[] :=
    Uses.advance.bind fun _ _ => .setLine 7
  have hroom : o.state.position.HasRoom text := by
    unfold Position.HasRoom
    decide +kernel
  obtain ⟨places, after, journal', hfind, hplaces, -⟩ :=
    (find_finds hfresh ⟨rfl, rfl⟩ rfl hx (by decide +kernel) hroom).2 ['a', 'a'] (by decide)
  refine ⟨by decide +kernel, places, congrArg Outcome.result hfind, ?_⟩
  have hindex : o.state.index = 1 := by decide +kernel
  have hfolds : o.state.caseFold = true := by decide +kernel
  rw [hindex, hfolds] at hplaces
  exact hplaces

end Backtrack.Stream
