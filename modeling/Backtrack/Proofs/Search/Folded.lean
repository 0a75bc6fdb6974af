import Backtrack.Proofs.Search.Find
import Backtrack.Proofs.Search.Lines
import Backtrack.Proofs.Stream.Parts
import Backtrack.Proofs.Stream.Reached

/-! Searching without regard to case. The word is folded as a word and the text symbol by symbol, and both come to the
same: a stream that folds letters finds the slices of the text that are folded to the folded word, and no others. Since
what has been folded is not folded any further, a folded word can be found; a word that is not folded never is. -/

namespace Backtrack

/-! ### Folded words -/

theorem foldWord_cons (c : Char) (word : List Char) (caseFold : Bool) :
    foldWord (c :: word) caseFold = (if caseFold then Text.foldCase c else c) :: foldWord word caseFold := by
  cases caseFold <;> rfl

theorem length_foldWord (word : List Char) (caseFold : Bool) : (foldWord word caseFold).length = word.length := by
  induction word with
  | nil => cases caseFold <;> rfl
  | cons c word ih => rw [foldWord_cons, List.length_cons, List.length_cons, ih]

theorem foldWord_foldWord (word : List Char) : foldWord (foldWord word true) true = foldWord word true := by
  induction word with
  | nil => rfl
  | cons c word ih =>
      rw [foldWord_cons, foldWord_cons, ih, if_pos rfl, if_pos rfl, Text.foldCase_foldCase]

variable {caseFold : Bool} {text word : List Char} {i : Nat}

/-- A word stands where the slice of its length is folded to it. -/
theorem occurs_iff_slice : Occurs caseFold text word i ↔
    i + word.length ≤ text.length ∧ foldWord ((text.drop i).take word.length) caseFold = word := by
  induction word generalizing i with
  | nil =>
      have hnil : foldWord [] caseFold = [] := by
        cases caseFold <;> rfl
      rw [List.length_nil, List.take_zero, hnil, Nat.add_zero, and_iff_left rfl]
      exact ⟨fun h => h.1, occurs_nil⟩
  | cons c word ih =>
      rw [occurs_cons, ih, List.length_cons]
      by_cases hi : i < text.length
      · have hseen : (Symbol.ofText text i).seen caseFold =
            .char (if caseFold then Text.foldCase text[i] else text[i]) := by
          rw [Symbol.ofText, List.getElem?_eq_getElem hi]
          cases caseFold <;> rfl
        rw [hseen, List.drop_eq_getElem_cons hi, List.take_succ_cons, foldWord_cons, List.cons.injEq, Symbol.char.injEq]
        constructor
        · rintro ⟨hfirst, hlength, hrest⟩
          exact ⟨by omega, hfirst, hrest⟩
        · rintro ⟨hlength, hfirst, hrest⟩
          exact ⟨hfirst, by omega, hrest⟩
      · constructor
        · rintro ⟨hfirst, -⟩
          exact absurd (lt_of_seen hfirst) hi
        · rintro ⟨hlength, -⟩
          omega

/-- Where a folded word stands in a text that is folded, the text has a slice that is folded to the same. -/
theorem occurs_foldWord_iff : Occurs true text (foldWord word true) i ↔
    i + word.length ≤ text.length ∧ foldWord ((text.drop i).take word.length) true = foldWord word true := by
  rw [occurs_iff_slice, length_foldWord]

/-- What stands in a text stands there also without regard to case. -/
theorem Occurs.fold (h : Occurs false text word i) : Occurs true text (foldWord word true) i := by
  obtain ⟨hlength, hslice⟩ := occurs_iff_slice.mp h
  refine occurs_foldWord_iff.mpr ⟨hlength, ?_⟩
  exact congrArg (foldWord · true) hslice

namespace Stream

variable {α : Type} {x : Action Stream α} {s after : Stream} {journal journal' : Journal}

/-! ### Streams that fold letters -/

/-- A stream that folds letters goes on to fold them. -/
abbrev KeepsFolding (x : Action Stream α) : Prop :=
  Action.Keeps (fun s _ => s.caseFold = true) (fun s _ => s.caseFold = true) x

theorem folds_after {result : Except Stop α} (hx : KeepsFolding x) (hfolds : s.caseFold = true)
    (h : x s journal = ⟨result, after, journal'⟩) : after.caseFold = true := by
  have hkept : (x s journal).state.caseFold = true := hx.forall hfolds
  rwa [h] at hkept

theorem Composed.keepsFolding (hx : Composed x) : KeepsFolding x := by
  induction hx with
  | read => exact .of_forall fun _ _ h => h
  | backup count => exact .of_forall fun _ _ h => h
  | onMarks _ => exact .of_forall fun _ _ h => h
  | pass symbol =>
      apply Action.Keeps.of_forall
      intro s journal h
      rw [pass_eq]
      exact h
  | setPosition f => exact .of_forall fun _ _ h => h
  | look f => exact .of_forall fun _ _ h => h
  | emit e => exact .of_forall fun _ _ h => h
  | pure a => exact Action.keeps_pure a
  | stop reason => exact Action.keeps_stop (fun _ _ h => h) reason
  | bind hx hf ihx ihf => exact ihx.bind ihf
  | capture hx ih => exact .of_forall fun _ _ h => ih.forall h

theorem Client.keepsFolding (hx : Client True x) : KeepsFolding x := by
  induction hx with
  | advance => exact Composed.advance.keepsFolding
  | lookahead i =>
      unfold Stream.lookahead
      split_ifs
      · exact Action.keeps_pure none
      · apply (Composed.readOn 0 .eof i).keepsFolding.bind
        intro symbol
        apply (Composed.backup i).keepsFolding.bind
        intro _
        exact .of_forall fun _ _ h => h
  | seek target => exact (Composed.seek target).keepsFolding
  | setLine _ line => exact (Composed.setPosition fun p => { p with line := line }).keepsFolding
  | setColumn _ column => exact (Composed.setPosition fun p => { p with column := column }).keepsFolding
  | mark => exact Composed.mark.keepsFolding
  | release m => exact (Composed.release m).keepsFolding
  | rewindTo m => exact (Composed.rewindTo m).keepsFolding
  | query f => exact .of_forall fun _ _ h => h
  | report _ => exact .of_forall fun _ _ h => h
  | stop reason => exact Action.keeps_stop (fun _ _ h => h) reason
  | pure a => exact Action.keeps_pure a
  | bind hx hf ihx ihf => exact ihx.bind ihf
  | recover hx ih => exact ih.recover

/-! ### Words that can be found -/

/-- A stream that folds letters answers with folded symbols. -/
theorem exists_of_lookahead {symbol : Symbol} (hfolds : s.caseFold = true)
    (h : lookahead i s journal = ⟨.ok (some symbol), after, journal'⟩) : ∃ read : Symbol, symbol = read.foldCase := by
  unfold lookahead at h
  split_ifs at h
  · cases h
  · obtain ⟨read, mid, _, hread, h⟩ := Action.bind_eq_ok h
    obtain ⟨_, back, _, hback, h⟩ := Action.bind_eq_ok h
    have hmid : mid.caseFold = true := folds_after (Composed.readOn 0 .eof i).keepsFolding hfolds hread
    have hkept : back.caseFold = true := folds_after (Composed.backup i).keepsFolding hmid hback
    obtain ⟨folds, _, _, hquery, h⟩ := Action.bind_eq_ok h
    cases hquery
    cases h
    exact ⟨read, if_pos hkept⟩

theorem foldWord_of_consume (hfolds : s.caseFold = true)
    (h : consume word s journal = ⟨.ok (some ()), after, journal'⟩) : foldWord word true = word := by
  induction word generalizing s journal with
  | nil => rfl
  | cons c word ih =>
      obtain ⟨symbol, looked, _, hlook, h⟩ := Action.bind_eq_ok h
      split_ifs at h with hsymbol
      · obtain ⟨_, stepped, _, hstep, h⟩ := Action.bind_eq_ok h
        rw [hsymbol] at hlook
        obtain ⟨read, hread⟩ := exists_of_lookahead hfolds hlook
        have hlooked : looked.caseFold = true := folds_after (Client.lookahead 1).keepsFolding hfolds hlook
        have hstepped : stepped.caseFold = true := folds_after Composed.advance.keepsFolding hlooked hstep
        rw [foldWord_cons, if_pos rfl, ih hstepped h]
        cases read with
        | char d =>
            rw [Symbol.char.inj hread, Text.foldCase_foldCase]
        | eof => cases hread
      · cases h

theorem foldWord_of_matchesText (hfolds : s.caseFold = true)
    (h : matchesText word s journal = ⟨.ok true, after, journal'⟩) : foldWord word true = word := by
  obtain ⟨m, marked, begun, tried, _, hmark, hconsume, -⟩ := matchesText_eq_true h
  exact foldWord_of_consume (folds_after Composed.mark.keepsFolding hfolds hmark) hconsume

theorem foldWord_of_findRounds {seen found : List Occurrence} {rounds : Nat} (hfolds : s.caseFold = true)
    (h : findRounds word seen rounds s journal = ⟨.ok found, after, journal'⟩) :
    found = seen.reverse ∨ foldWord word true = word := by
  induction rounds generalizing s journal with
  | zero =>
      cases h
      exact .inl rfl
  | succ rounds ih =>
      obtain ⟨symbol, looked, _, hlook, h⟩ := Action.bind_eq_ok h
      split_ifs at h with hend
      · cases h
        exact .inl rfl
      · obtain ⟨start, here, _, hstart, h⟩ := Action.bind_eq_ok h
        obtain ⟨yes, passed, _, hmatch, h⟩ := Action.bind_eq_ok h
        have hlooked : looked.caseFold = true := folds_after (Client.lookahead 1).keepsFolding hfolds hlook
        cases hstart
        cases yes with
        | true =>
            -- one match is enough to know the word
            exact .inr (foldWord_of_matchesText hlooked hmatch)
        | false =>
            rw [if_neg Bool.false_ne_true] at h
            obtain ⟨_, stepped, _, hstep, h⟩ := Action.bind_eq_ok h
            have hpassed : passed.caseFold = true :=
              folds_after (Client.matchesText word).keepsFolding hlooked hmatch
            exact ih (folds_after Composed.advance.keepsFolding hpassed hstep) h

theorem foldWord_of_find {found : List Occurrence} (hfolds : s.caseFold = true)
    (h : find word s journal = ⟨.ok found, after, journal'⟩) (hfound : found ≠ []) : foldWord word true = word := by
  unfold find at h
  split_ifs at h
  · cases h
    exact absurd rfl hfound
  · obtain ⟨rounds, _, _, hquery, h⟩ := Action.bind_eq_ok h
    cases hquery
    exact (foldWord_of_findRounds hfolds h).resolve_left hfound

/-! ### What is found -/

/-- A stream over a text, in use, that can be read on without failures and taken back as far as one likes, with its
cursor where its index is and with room in its counters for the rest of the text. -/
structure Ready (text : List Char) (s : Stream) : Prop where
  reached : s.Reached text
  reliable : s.source.Reliable
  window : s.source.history.window = none
  cursor : s.source.cursor = s.index
  room : s.position.HasRoom text

theorem Ready.stands (h : s.Ready text) : Stands text s.position s.caseFold s.marks.entries 0 s := by
  have hvalid := h.reached.valid
  exact ⟨hvalid.source, h.reliable, hvalid.text_eq, h.window, h.cursor, rfl, hvalid.marks, rfl, rfl⟩

theorem IsFresh.ready (h : s.IsFresh text) (hreliable : s.source.Reliable) (hwindow : s.source.history.window = none)
    (hlength : text.length + 1 < counterLimit) : s.Ready text := by
  have hfixed : s.source.decoder.reader.ending.IsFixed := by
    rw [hreliable.ending]
    trivial
  have hused : Uses .free (Pure.pure () : Action Stream Unit) s #[] := .pure ()
  refine ⟨hused.reached h hfixed, hreliable, hwindow, h.cursor.trans h.index.symm, ?_⟩
  rw [h.position]
  exact Position.hasRoom_start hlength

theorem Ready.find (h : s.Ready text) (hword : word ≠ []) (journal : Journal) :
    ∃ places, (find word s journal).result = .ok (places.map (occurrenceAt text word s.position)) ∧
      Leftmost (Occurs s.caseFold text word) word.length s.index places := by
  obtain ⟨places, after, journal', hplaces, -, hfind, -⟩ := h.stands.find h.room hword journal
  exact ⟨places, by rw [hfind], hplaces⟩

theorem occurrenceAt_foldWord (text word : List Char) (caseFold : Bool) :
    occurrenceAt text (foldWord word caseFold) = occurrenceAt text word := by
  funext p i
  rw [occurrenceAt, occurrenceAt, length_foldWord]

/-- Where a plain search for a word finds something, there is something to be found without regard to case. -/
theorem Ready.ne_nil_of_find {found : List Occurrence} {places : List Nat} (h : s.Ready text)
    (hplain : s.caseFold = false) (hword : word ≠ []) (hfind : (Stream.find word s journal).result = .ok found)
    (hfound : found ≠ [])
    (hplaces : Leftmost (Occurs true text (foldWord word true)) word.length s.index places) : places ≠ [] := by
  rintro rfl
  obtain ⟨found', hfind', hleftmost⟩ := h.find hword journal
  rw [hplain] at hleftmost
  cases hfind.symm.trans hfind'
  cases hleftmost with
  | none => exact hfound rfl
  | next hi _ =>
      cases hplaces with
      | none hnone => exact hnone _ hi.1.1 hi.1.2.fold

/-- Searching with folded letters is exact. `foldWord` keeps the length, and folding twice is folding once. On a stream
that folds letters only a folded word is matched or found. There `find` of a folded word reports the leftmost slices of
the text that `foldWord` takes to it, without overlap, so words that are folded to the same find the same; and it finds
something wherever `find` of the word does on a stream that does not fold. -/
theorem folded_search_exact :
    (∀ word, (foldWord word true).length = word.length ∧ foldWord (foldWord word true) true = foldWord word true) ∧
      (∀ (s : Stream) (journal : Journal) (word : List Char), s.caseFold = true →
        ((matchesText word s journal).result = .ok true → foldWord word true = word) ∧
          ∀ found, (find word s journal).result = .ok found → found ≠ [] → foldWord word true = word) ∧
      ∀ (text word : List Char) (s : Stream) (journal : Journal), s.Ready text → s.caseFold = true → word ≠ [] →
        ∃ places,
          Leftmost (fun i => i + word.length ≤ text.length ∧
              foldWord ((text.drop i).take word.length) true = foldWord word true) word.length s.index places ∧
            (∀ other, foldWord other true = foldWord word true →
              (find (foldWord other true) s journal).result = .ok (places.map (occurrenceAt text word s.position))) ∧
            ∀ (plain : Stream) (journal' : Journal) (found : List Occurrence), plain.Ready text →
              plain.caseFold = false → plain.index = s.index → (find word plain journal').result = .ok found →
                found ≠ [] → places ≠ [] := by
  refine ⟨fun word => ⟨length_foldWord word true, foldWord_foldWord word⟩, fun s journal word hfolds => ⟨?_, ?_⟩, ?_⟩
  · intro hmatch
    exact foldWord_of_matchesText hfolds (Outcome.eq_of_result hmatch)
  · intro found hfind hfound
    exact foldWord_of_find hfolds (Outcome.eq_of_result hfind) hfound
  · intro text word s journal hready hfolds hword
    obtain ⟨places, hfind, hplaces⟩ := hready.find (foldWord_ne_nil hword true) journal
    rw [hfolds, length_foldWord] at hplaces
    rw [occurrenceAt_foldWord] at hfind
    refine ⟨places, ?_, ?_, ?_⟩
    · have hslices : Occurs true text (foldWord word true) = fun i => i + word.length ≤ text.length ∧
          foldWord ((text.drop i).take word.length) true = foldWord word true := by
        ext i
        exact occurs_foldWord_iff
      rwa [hslices] at hplaces
    · intro other hother
      rw [hother]
      exact hfind
    · intro plain journal' found hplain hregards hindex hfound hne
      rw [← hindex] at hplaces
      exact hplain.ne_nil_of_find hregards hword hfound hne hplaces

/-- A letter whose form in lower case has two characters is folded to the first of them. -/
theorem folded_search_exact_dotted :
    let text := ['a', 'İ', 'X', 'i', 'x']
    let s := ofSource (.ofText text none) "text" true
    let plain := ofSource (.ofText text none) "text" false
    (find ['i', 'x'] s #[]).result = .ok [⟨⟨1, 1, 1⟩, "İX"⟩, ⟨⟨3, 1, 3⟩, "ix"⟩] ∧
      (matchesText ['a'] s #[]).result = .ok true ∧ foldWord ['a'] true = ['a'] ∧
      foldWord ['i', 'x'] true = ['i', 'x'] ∧
      (find ['İ', 'X'] plain #[]).result = .ok [⟨⟨1, 1, 1⟩, "İX"⟩] ∧
      ∃ places,
        Leftmost (fun i => i + 2 ≤ text.length ∧ foldWord ((text.drop i).take 2) true = foldWord ['İ', 'X'] true) 2 0
            places ∧
          (find (foldWord ['i', 'x'] true) s #[]).result =
            .ok (places.map (occurrenceAt text ['İ', 'X'] s.position)) ∧ places ≠ [] := by
  intro text s plain
  have hready : s.Ready text :=
    IsFresh.ready ⟨.inl ⟨none, rfl⟩, rfl, 0, rfl⟩ ⟨rfl, rfl⟩ rfl (by decide)
  have hplain : plain.Ready text :=
    IsFresh.ready ⟨.inl ⟨none, rfl⟩, rfl, 0, rfl⟩ ⟨rfl, rfl⟩ rfl (by decide)
  have hfind : (find ['i', 'x'] s #[]).result = .ok [⟨⟨1, 1, 1⟩, "İX"⟩, ⟨⟨3, 1, 3⟩, "ix"⟩] := by decide +kernel
  have hmatch : (matchesText ['a'] s #[]).result = .ok true := by decide +kernel
  have hfound : (find ['İ', 'X'] plain #[]).result = .ok [⟨⟨1, 1, 1⟩, "İX"⟩] := by decide +kernel
  obtain ⟨-, honly, hexact⟩ := folded_search_exact
  obtain ⟨places, hplaces, hothers, hmore⟩ := hexact text ['İ', 'X'] s #[] hready rfl (by decide)
  exact ⟨hfind, hmatch, (honly s #[] ['a'] rfl).1 hmatch,
    (honly s #[] ['i', 'x'] rfl).2 _ hfind (List.cons_ne_nil _ _), hfound, places, hplaces,
    hothers ['i', 'x'] (by decide +kernel), hmore plain #[] _ hplain rfl rfl hfound (List.cons_ne_nil _ _)⟩

end Stream

end Backtrack
