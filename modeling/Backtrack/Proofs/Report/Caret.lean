import Mathlib.Data.List.Forall2
import Backtrack.Proofs.Search.Find
import Backtrack.Proofs.Search.Lines
import Backtrack.Proofs.Session.Opening
import Backtrack.Proofs.Utf8.Lossy

/-! The caret below an occurrence. A search counts columns in the text that a reader decodes, with a U+FFFD for every
byte that is given up; the lines that are shown have one for every ill-formed part. So the caret stands below the
occurrence as long as no ill-formed part on its line has more than one byte. Where one before the occurrence has more,
the caret stands too far to the right. -/

namespace Backtrack

open Utf8

/-! ### Lines of both texts -/

/-- A line of the decoded text and the line that is shown in its place. -/
def SameLine (entries : List (Char × Nat)) (decoded seen : List Char) : Prop :=
  ∃ line : List (Char × Nat), line ⊆ entries ∧ decoded = spread line ∧ seen = line.map Prod.fst

variable {entries : List (Char × Nat)} {decoded seen : List Char}

theorem sameLine_nil (entries : List (Char × Nat)) : SameLine entries [] [] :=
  ⟨[], List.nil_subset entries, rfl, rfl⟩

theorem SameLine.behind (h : SameLine entries decoded seen) (entry : Char × Nat) :
    SameLine (entry :: entries) decoded seen := by
  obtain ⟨line, hline, hdecoded, hseen⟩ := h
  exact ⟨line, List.subset_cons_of_subset entry hline, hdecoded, hseen⟩

theorem SameLine.cons (h : SameLine entries decoded seen) (c : Char) (count : Nat) :
    SameLine ((c, count) :: entries) (List.replicate count c ++ decoded) (c :: seen) := by
  obtain ⟨line, hline, rfl, rfl⟩ := h
  exact ⟨(c, count) :: line, List.cons_subset_cons _ hline, rfl, rfl⟩

/-- Both texts have the same lines, each shown in its own way. -/
theorem sameLine_lines (h : ∀ entry ∈ entries, entry.2 = 1 ∨ entry.1 ≠ '\n') :
    List.Forall₂ (SameLine entries) (Text.lines (spread entries)) (Text.lines (entries.map Prod.fst)) := by
  rw [Text.lines_eq_splitOn, Text.lines_eq_splitOn]
  induction entries with
  | nil => exact .cons (sameLine_nil []) .nil
  | cons entry entries ih =>
      obtain ⟨hentry, hothers⟩ := List.forall_mem_cons.mp h
      obtain ⟨c, count⟩ := entry
      have hlines := ih hothers
      rw [spread_cons, List.map_cons, List.splitOn_cons_eq_if_modifyHead]
      by_cases hc : c = '\n'
      · obtain rfl : count = 1 := hentry.resolve_right fun hne => hne hc
        rw [hc, if_pos (by simp), List.replicate_one, List.singleton_append, List.splitOn_cons_eq_if_modifyHead,
          if_pos (by simp)]
        exact .cons (sameLine_nil _) (hlines.imp fun _ _ hline => hline.behind _)
      · have hplain : '\n' ∉ List.replicate count c := fun hmem => hc (List.eq_of_mem_replicate hmem).symm
        rw [if_neg (by simpa using hc), Text.splitOn_append_of_not_mem hplain]
        generalize (spread entries).splitOn '\n' = decodedLines at hlines ⊢
        generalize (entries.map Prod.fst).splitOn '\n' = seenLines at hlines ⊢
        cases hlines with
        | nil => exact .nil
        | cons hfirst hrest => exact .cons (hfirst.cons c count) (hrest.imp fun _ _ hline => hline.behind _)

/-! ### Places on a line -/

/-- Every entry stands for a character at least, and for more than one only where something is ill-formed. -/
def Faithful (entries : List (Char × Nat)) : Prop :=
  ∀ entry ∈ entries, 0 < entry.2 ∧ (entry.2 = 1 ∨ entry.1 = replacement)

/-- Characters that replace nothing are shown one by one. -/
theorem Faithful.exists_front (h : Faithful entries) {word rest : List Char} (hword : replacement ∉ word)
    (hspread : spread entries = word ++ rest) :
    ∃ place behind, entries = place ++ behind ∧ spread place = word ∧ place.map Prod.fst = word := by
  induction word generalizing entries with
  | nil => exact ⟨[], entries, rfl, rfl, rfl⟩
  | cons d word ih =>
      cases entries with
      | nil => cases hspread
      | cons entry entries =>
          obtain ⟨⟨hpos, hone⟩, hothers⟩ := List.forall_mem_cons.mp h
          obtain ⟨c, count⟩ := entry
          rw [List.mem_cons, not_or] at hword
          obtain ⟨count, rfl⟩ := Nat.exists_eq_succ_of_ne_zero hpos.ne'
          rw [spread_cons, List.replicate_succ, List.cons_append, List.cons_append, List.cons.injEq] at hspread
          obtain ⟨rfl, hspread⟩ := hspread
          obtain rfl : count = 0 := Nat.succ.inj (hone.resolve_right (Ne.symm hword.1))
          obtain ⟨place, behind, rfl, hplace, hmap⟩ := ih hothers hword.2 hspread
          exact ⟨(c, 1) :: place, behind, rfl, by rw [spread_cons, hplace]; rfl, by rw [List.map_cons, hmap]⟩

/-- Where one character is repeated, another one can only come behind. -/
theorem exists_more_of_replicate_append {c first : Char} (hne : first ≠ c) {count : Nat} {front others more : List Char}
    (h : List.replicate count c ++ more = front ++ first :: others) :
    ∃ behind, front = List.replicate count c ++ behind ∧ more = behind ++ first :: others := by
  induction count generalizing front with
  | zero => exact ⟨front, rfl, h⟩
  | succ count ih =>
      rw [List.replicate_succ, List.cons_append] at h
      cases front with
      | nil =>
          rw [List.nil_append, List.cons.injEq] at h
          exact absurd h.1.symm hne
      | cons d front =>
          rw [List.cons_append, List.cons.injEq] at h
          obtain ⟨rfl, h⟩ := h
          obtain ⟨behind, rfl, hmore⟩ := ih h
          exact ⟨behind, rfl, hmore⟩

/-- A word in which nothing is replaced is shown where the characters before it are shown. -/
theorem Faithful.exists_place (h : Faithful entries) {front word rest : List Char} (hne : word ≠ [])
    (hword : replacement ∉ word) (hspread : spread entries = front ++ (word ++ rest)) :
    ∃ before place behind, entries = before ++ (place ++ behind) ∧ spread before = front ∧
      place.map Prod.fst = word := by
  obtain ⟨first, others, rfl⟩ := List.exists_cons_of_ne_nil hne
  have hfirst : first ≠ replacement := by
    intro heq
    rw [heq] at hword
    exact hword List.mem_cons_self
  induction entries generalizing front with
  | nil =>
      rw [spread_nil, eq_comm, List.append_eq_nil_iff, List.append_eq_nil_iff] at hspread
      exact absurd hspread.2.1 hne
  | cons entry entries ih =>
      obtain ⟨⟨-, hone⟩, hothers⟩ := List.forall_mem_cons.mp h
      obtain ⟨c, count⟩ := entry
      cases front with
      | nil =>
          obtain ⟨place, behind, hentries, -, hmap⟩ := h.exists_front hword hspread
          exact ⟨[], place, behind, hentries, rfl, hmap⟩
      | cons d front =>
          rw [spread_cons] at hspread
          -- the word does not begin within the entry, which has one character or nothing but U+FFFD
          have hbehind : ∃ more, d :: front = List.replicate count c ++ more ∧
              spread entries = more ++ (first :: others ++ rest) := by
            rcases hone with hcount | hreplaced
            · obtain rfl : count = 1 := hcount
              rw [List.replicate_one, List.singleton_append, List.cons_append, List.cons.injEq] at hspread
              obtain ⟨rfl, hspread⟩ := hspread
              exact ⟨front, rfl, hspread⟩
            · obtain rfl : c = replacement := hreplaced
              exact exists_more_of_replicate_append hfirst hspread
          obtain ⟨more, hfront, hmore⟩ := hbehind
          obtain ⟨before, place, behind, rfl, hbefore, hmap⟩ := ih hothers hmore
          exact ⟨(c, count) :: before, place, behind, rfl, by rw [spread_cons, hbefore, hfront], hmap⟩

theorem faithful_shown (bytes : List UInt8) : Faithful (shown bytes) :=
  fun _ hentry => count_of_mem_shown hentry

theorem Faithful.newline (h : Faithful entries) : ∀ entry ∈ entries, entry.2 = 1 ∨ entry.1 ≠ '\n' := by
  intro entry hentry
  refine (h entry hentry).2.imp_right fun hreplaced => ?_
  rw [hreplaced]
  decide

/-! ### Occurrences -/

/-- The caret is drawn below the first character of the occurrence. -/
def CaretBelow (lines : List (List Char)) (m : Occurrence) : Prop :=
  ∃ front rest, lines[m.position.line - 1]? = some (front ++ (m.text.toList ++ rest)) ∧
    front.length = m.position.column

/-- In the text that is searched every occurrence is on the line, and as far from its beginning, as reported. -/
theorem caretBelow_occurrenceAt {caseFold : Bool} {text word : List Char} {i : Nat}
    (hroom : Position.start.HasRoom text) (hplain : '\n' ∉ word) (h : Occurs caseFold text word i) :
    CaretBelow (Text.lines text) (Stream.occurrenceAt text word .start i) := by
  obtain ⟨front, hline, hcolumn⟩ := hroom.getElem?_lines (Nat.le_of_add_right_le h.1)
  refine ⟨front, ((text.drop i).drop word.length).takeWhile (· ≠ '\n'), ?_, hcolumn.symm⟩
  have htake : ((text.drop i).takeWhile (· ≠ '\n')) =
      (text.drop i).take word.length ++ ((text.drop i).drop word.length).takeWhile (· ≠ '\n') := by
    conv_lhs => rw [← List.take_append_drop word.length (text.drop i)]
    refine List.takeWhile_append_of_pos fun c hc => ?_
    have hne : c ≠ '\n' := fun heq => h.newline_not_mem hplain (heq ▸ hc)
    simpa using hne
  rw [htake] at hline
  rw [Stream.occurrenceAt, String.toList_ofList]
  exact hline

theorem Occurs.text_ne_nil {caseFold : Bool} {text word : List Char} {i : Nat} (h : Occurs caseFold text word i)
    (hword : word ≠ []) (p : Position) : (Stream.occurrenceAt text word p i).text.toList ≠ [] := by
  have hpos := List.length_pos_iff.mpr hword
  have hlength := h.1
  rw [Stream.occurrenceAt, String.toList_ofList, ← List.length_pos_iff, List.length_take, List.length_drop]
  omega

/-- An occurrence and the line on which it is shown: the line that its position names, which stands for the line of the
text that was searched, and there the occurrence is as far from the beginning as its column says. -/
structure IsShown (bytes : List UInt8) (m : Occurrence) (line : List (Char × Nat)) : Prop where
  entries : line ⊆ shown bytes
  seen : (Text.lines (decodeLossy bytes))[m.position.line - 1]? = some (line.map Prod.fst)
  searched : ∃ front rest, spread line = front ++ (m.text.toList ++ rest) ∧ front.length = m.position.column

namespace IsShown

variable {bytes : List UInt8} {m : Occurrence} {line : List (Char × Nat)}

theorem of_caretBelow (h : CaretBelow (Text.lines (decode bytes)) m) : ∃ line, IsShown bytes m line := by
  obtain ⟨front, rest, hsearched, hcolumn⟩ := h
  have hlines := sameLine_lines (faithful_shown bytes).newline
  rw [← decode_eq, ← decodeLossy_eq, List.forall₂_iff_get] at hlines
  obtain ⟨hlength, hsame⟩ := hlines
  obtain ⟨hline, hget⟩ := List.getElem?_eq_some_iff.mp hsearched
  obtain ⟨line, hentries, hdecoded, hseen⟩ := hsame _ hline (hlength ▸ hline)
  refine ⟨line, hentries, ?_, front, rest, ?_, hcolumn⟩
  · rw [← hseen]
    exact List.getElem?_eq_getElem _
  · rw [← hdecoded]
    exact hget

/-- Where every entry of the line stands for one character, the caret is below the occurrence. -/
theorem caretBelow (h : IsShown bytes m line) (hone : ∀ entry ∈ line, entry.2 = 1) :
    CaretBelow (Text.lines (decodeLossy bytes)) m := by
  obtain ⟨front, rest, hsearched, hcolumn⟩ := h.searched
  rw [spread_of_one hone] at hsearched
  exact ⟨front, rest, by rw [h.seen, hsearched], hcolumn⟩

/-- An occurrence without replaced characters is shown behind entries that stand for as many characters as its column
says. -/
theorem exists_place (h : IsShown bytes m line) (hne : m.text.toList ≠ []) (hplain : replacement ∉ m.text.toList) :
    ∃ before place behind, line = before ++ (place ++ behind) ∧ place.map Prod.fst = m.text.toList ∧
      (spread before).length = m.position.column := by
  obtain ⟨front, rest, hsearched, hcolumn⟩ := h.searched
  have hfaithful : Faithful line := fun entry hentry => faithful_shown bytes entry (h.entries hentry)
  obtain ⟨before, place, behind, hline, hbefore, hplace⟩ := hfaithful.exists_place hne hplain hsearched
  exact ⟨before, place, behind, hline, hplace, by rw [hbefore, hcolumn]⟩

end IsShown

/-! ### The search in a file -/

namespace CommandLine

/-- `findInFile` shows what `find` finds, whatever the bytes of the file are. Every occurrence is on the line that is
shown for it; its column counts the characters before it as `decode` gives them. So the caret is below it if every
ill-formed part of the line has one byte. -/
theorem findInFile_shows {s : Session} {path word : String} {bytes : List UInt8} (hfile : s.HasFile path bytes)
    (hfits : s.configOrDefault.1.Fits) (hwindow : s.configOrDefault.1.source.backupWindow = none)
    (hlength : bytes.length + 1 < counterLimit) (hword : word ≠ "") (hplain : '\n' ∉ word.toList) (caseFold : Bool) :
    ∃ found, (findInFile s path word caseFold).1 =
        showOccurrences s path s.configOrDefault.1.stream.sourceName word found ∧
      ∀ m ∈ found, ∃ line, IsShown bytes m line ∧
        ((∀ entry ∈ line, entry.2 = 1) → CaretBelow (Text.lines (decodeLossy bytes)) m) ∧
        (replacement ∉ m.text.toList → ∃ before place behind, line = before ++ (place ++ behind) ∧
          place.map Prod.fst = m.text.toList ∧ (spread before).length = m.position.column) := by
  obtain ⟨stream, opened, hopen, hopened, hfresh, hreliable, hunbounded, hname, -⟩ := openFile_of_hasFile hfile hfits
  have hne : foldWord word.toList caseFold ≠ [] := by
    apply foldWord_ne_nil
    simpa using hword
  have hroom : Position.start.HasRoom (decode bytes) := by
    apply Position.hasRoom_start
    have := length_decode_le bytes
    omega
  rw [← hunbounded] at hwindow
  obtain ⟨places, hfind, hplaces⟩ :=
    Stream.find_fresh hfresh hreliable hwindow hroom hne (opened.report #[.finding path word]).journal
  refine ⟨places.map (Stream.occurrenceAt (decode bytes) (foldWord word.toList caseFold) .start), ?_, ?_⟩
  · rw [← hname]
    exact findInFile_of_ok hfile hopen hopened hfresh.valid_marks hfind
  · intro m hm
    obtain ⟨i, hi, rfl⟩ := List.mem_map.mp hm
    have hoccurs := hplaces i hi
    have hcaret := caretBelow_occurrenceAt hroom (newline_not_mem_foldWord hplain caseFold) hoccurs
    obtain ⟨line, hline⟩ := IsShown.of_caretBelow hcaret
    exact ⟨line, hline, hline.caretBelow, hline.exists_place (hoccurs.text_ne_nil hne _)⟩

/-- A file that begins with two bytes of a sequence of three and has a letter behind them. -/
def truncated : List UInt8 := [0xE4, 0xB8, 0x61]

/-- The letter is reported in column two, and it is the second character of the line that is shown. -/
theorem findInFile_shows_truncated :
    let s := Session.start ⟨[("in.txt", .file truncated)]⟩ ""
    (findInFile s "in.txt" "a" false).1 =
        .ok "<input>:1:2: \"a\"\n--|--\n1 | \ufffda\n  |   ^\n--|--\n1 match(es)\n".toList ∧
      ∃ found, (findInFile s "in.txt" "a" false).1 = showOccurrences s "in.txt" "<input>" "a" found ∧
        ∀ m ∈ found, ∃ line, IsShown truncated m line ∧
          (replacement ∉ m.text.toList → ∃ before place behind, line = before ++ (place ++ behind) ∧
            place.map Prod.fst = m.text.toList ∧ (spread before).length = m.position.column) := by
  intro s
  have hfile : s.HasFile "in.txt" truncated := ⟨by decide +kernel, fun _ _ => rfl⟩
  obtain ⟨found, hshown, hfound⟩ :=
    findInFile_shows hfile Config.fits_default rfl (by decide) (show "a" ≠ "" by decide) (by decide) false
  refine ⟨by decide +kernel, found, hshown, fun m hm => ?_⟩
  obtain ⟨line, hline, -, hplace⟩ := hfound m hm
  exact ⟨line, hline, hplace⟩

/-- The occurrence that a search finds in this file is shown with the caret behind the letter, not below it. -/
theorem caret_beside_occurrence :
    let s := Session.start ⟨[("in.txt", .file truncated)]⟩ ""
    let m : Occurrence := ⟨⟨2, 1, 2⟩, "a"⟩
    (openFile s "in.txt").1.toOption.map (fun stream => (Stream.find ['a'] stream #[]).result) = some (.ok [m]) ∧
      (run s ["find", "in.txt", "a"]).1.output =
        "in.txt:1:2: \"a\"\n--|--\n1 | \ufffda\n  |   ^\n--|--\n1 match(es)\n".toList ∧
      ¬CaretBelow (Text.lines (decodeLossy truncated)) m := by
  refine ⟨by decide +kernel, by decide +kernel, ?_⟩
  rintro ⟨front, rest, hline, hcolumn⟩
  have hseen : (Text.lines (decodeLossy truncated))[1 - 1]? = some [replacement, 'a'] := by decide +kernel
  -- the line has two characters, and the occurrence would be behind two
  have hlength := congrArg List.length (Option.some.inj (hseen.symm.trans hline))
  rw [List.length_append, List.length_append, hcolumn] at hlength
  simp at hlength

end CommandLine

end Backtrack
