import Backtrack.Proofs.Report.Rows
import Backtrack.Proofs.Search.Find
import Backtrack.Proofs.Search.Lines
import Backtrack.Proofs.Session.Opening
import Backtrack.Proofs.Stream.Candid
import Backtrack.Proofs.Utf8.Lines

/-! The line of an occurrence, whatever the bytes of the file are. A search counts lines in the text that a reader
decodes, and the lines that are shown are those of another decoding; but both have the line ends of the bytes, so the
number of the line is that of the bytes' line in which the occurrence begins, and that line is shown. -/

namespace Backtrack

open Utf8

/-! ### Searches under a window -/

namespace Stream

variable {text word : List Char} {s : Stream} {journal : Journal}

theorem IsFresh.withWindow (h : s.IsFresh text) (window : Option Nat) : (s.withWindow window).IsFresh text := by
  refine ⟨?_, h.position, h.marks⟩
  rcases h.source with ⟨_, hsource⟩ | ⟨reader, _, chunkSize, hsource, htext⟩
  · left
    refine ⟨window, ?_⟩
    rw [Stream.withWindow, hsource]
    rfl
  · right
    refine ⟨reader, window, chunkSize, ?_, htext⟩
    rw [Stream.withWindow, hsource]
    rfl

/-- Whatever the window is, what a search through all of a text reports is places of the word. -/
theorem IsFresh.occurs_of_find {found : List Occurrence} (hfresh : s.IsFresh text) (hreliable : s.source.Reliable)
    (hroom : Position.start.HasRoom text) (hword : word ≠ []) (h : (find word s journal).result = .ok found) :
    ∃ places : List Nat, found = places.map (occurrenceAt text word .start) ∧
      ∀ i ∈ places, Occurs s.caseFold text word i := by
  -- what is found under a window is found as well without it, and there it is known what the search comes to
  have hwider := find_withWindow_none hfresh.valid_marks hfresh.ahead (Outcome.eq_of_result h)
  obtain ⟨places, hplaces, hoccurs⟩ :=
    find_fresh (hfresh.withWindow none) ⟨hreliable.ending, hreliable.failures⟩ rfl hroom hword journal
  rw [hwider] at hplaces
  exact ⟨places, Except.ok.inj hplaces, hoccurs⟩

end Stream

/-! ### Occurrences on their lines -/

/-- An occurrence and the bytes of a file: what is decoded from its first byte on begins with the occurrence, its line
has the number of the line ends before that byte, and the line shown for it is the line of bytes in which it begins. -/
structure OnLine (bytes : List UInt8) (m : Occurrence) : Prop where
  nonempty : m.text.toList ≠ []
  cut : bytes = bytesBefore bytes m.position.index ++ bytesFrom bytes m.position.index
  begins : ∃ rest, decode (bytesFrom bytes m.position.index) = m.text.toList ++ rest
  line_eq : m.position.line = 1 + (bytesBefore bytes m.position.index).count 0x0A
  line_le : m.position.line ≤ (Text.lines (decodeLossy bytes)).length
  byteLine : (bytes.splitOn 0x0A)[m.position.line - 1]? = some (lineAt bytes m.position.index)
  shown : (Text.lines (decodeLossy bytes))[m.position.line - 1]? = some (decodeLossy (lineAt bytes m.position.index))
  report : Context.PointsTo (Context.renderLines (Text.lines (decodeLossy bytes)) m.position.line m.position.column)
    m.position.line (decodeLossy (lineAt bytes m.position.index)) m.position.column

theorem onLine_occurrenceAt {bytes : List UInt8} {word : List Char} {caseFold : Bool} {i : Nat} (hword : word ≠ [])
    (hroom : Position.start.HasRoom (decode bytes)) (h : Occurs caseFold (decode bytes) word i) :
    OnLine bytes (Stream.occurrenceAt (decode bytes) word .start i) := by
  have hi : i ≤ (decode bytes).length := Nat.le_of_add_right_le h.1
  have hindex : (Position.start.along (decode bytes) i).index = i := by
    rw [hroom.index_along (Nat.le_succ_of_le hi)]
    exact Nat.zero_add i
  obtain ⟨hline, -⟩ := hroom.along_line hi
  -- the search counts line ends of the text, and before a character the bytes have as many
  rw [← count_bytesBefore, Nat.add_comm] at hline
  have hbyteLine := getElem?_lineAt bytes i
  have hshown : (Text.lines (decodeLossy bytes))[(bytesBefore bytes i).count 0x0A]? =
      some (decodeLossy (lineAt bytes i)) := by
    rw [lines_decodeLossy, List.getElem?_map, hbyteLine, Option.map_some]
  have hlt := (List.getElem?_eq_some_iff.mp hshown).1
  have hposition : (Stream.occurrenceAt (decode bytes) word .start i).position =
      Position.start.along (decode bytes) i := rfl
  have htext : (Stream.occurrenceAt (decode bytes) word .start i).text.toList =
      ((decode bytes).drop i).take word.length := String.toList_ofList
  have hpred : (Position.start.along (decode bytes) i).line - 1 = (bytesBefore bytes i).count 0x0A := by
    rw [hline, Nat.add_sub_cancel_left]
  refine ⟨?_, (bytesBefore_append_bytesFrom bytes _).symm, ⟨((decode bytes).drop i).drop word.length, ?_⟩, ?_, ?_, ?_,
    ?_, ?_⟩
  · have hpos := List.length_pos_iff.mpr hword
    have hlength := h.1
    rw [htext, ← List.length_pos_iff, List.length_take, List.length_drop]
    omega
  · rw [hposition, hindex, decode_bytesFrom, htext, List.take_append_drop]
  · rw [hposition, hindex, hline]
  · rw [hposition, hline]
    omega
  · rw [hposition, hindex, hpred, hbyteLine]
  · rw [hposition, hindex, hpred, hshown]
  · rw [hposition, hindex]
    refine Context.renderLines_pointsTo (fun l hl => Text.newline_not_mem_of_mem_lines hl) ?_ ?_ _
    · rw [hline]
      exact Nat.le_add_right 1 _
    · rw [hpred, hshown]

/-! ### The search in a file -/

namespace CommandLine

variable {s : Session} {path : String} {bytes : List UInt8}

/-- Where a stream over a file has been opened, there was room for what the configuration asks for. -/
theorem fits_of_openFile {stream : Stream} {opened : Session} (hfile : s.HasFile path bytes)
    (h : openFile s path = (.ok stream, opened)) : s.configOrDefault.1.Fits := by
  obtain ⟨reader, hopen, -⟩ := hfile.openFile
  have hagain := s.configOrDefault_configOrDefault
  generalize s.configOrDefault = found at *
  obtain ⟨c, fixed⟩ := found
  rw [openFile, hopen] at h
  dsimp only [SourceConfig.openReader, Source.openReader] at h
  by_cases hchunk : allocationLimit < max c.source.readChunkSize 1
  · rw [if_pos hchunk] at h
    cases h
  · rw [if_neg hchunk] at h
    dsimp only at h hagain
    rw [Session.openStream, hagain] at h
    dsimp only [StreamConfig.openStream, Stream.createWithCapacity, MarkStack.allocate] at h
    split_ifs at h with hcount hmarks
    · cases h
    · cases h
    · exact ⟨Nat.not_lt.mp hchunk, Nat.not_lt.mp hmarks⟩

/-- Whatever the bytes of a file are, every occurrence that `findInFile` shows is `OnLine`: its line number is that of
the line of bytes in which it begins, and the line shown is that line as `decodeLossy` gives it. Without a window, and
with room for what the configuration asks for, the search comes to an end. -/
theorem findInFile_lines {word : String} (hfile : s.HasFile path bytes) (hlength : bytes.length + 1 < counterLimit)
    (hword : word ≠ "") (caseFold : Bool) :
    (∀ stream opened found, openFile s path = (.ok stream, opened) →
      (Stream.find (foldWord word.toList caseFold) stream (opened.report #[.finding path word]).journal).result =
          .ok found →
        (findInFile s path word caseFold).1 = showOccurrences s path stream.name word found ∧
          ∀ m ∈ found, OnLine bytes m) ∧
      (s.configOrDefault.1.Fits → s.configOrDefault.1.source.backupWindow = none →
        ∃ stream opened found, openFile s path = (.ok stream, opened) ∧
          (Stream.find (foldWord word.toList caseFold) stream (opened.report #[.finding path word]).journal).result =
            .ok found) := by
  have hne : foldWord word.toList caseFold ≠ [] := by
    apply foldWord_ne_nil
    simpa using hword
  have hroom : Position.start.HasRoom (decode bytes) := by
    apply Position.hasRoom_start
    have := length_decode_le bytes
    omega
  constructor
  · intro stream opened found hopen hfind
    obtain ⟨stream', opened', hopen', hopened, hfresh, hreliable, -⟩ :=
      openFile_of_hasFile hfile (fits_of_openFile hfile hopen)
    cases hopen.symm.trans hopen'
    refine ⟨findInFile_of_ok hfile hopen hopened hfresh.valid_marks hfind, ?_⟩
    obtain ⟨places, rfl, hplaces⟩ := hfresh.occurs_of_find hreliable hroom hne hfind
    intro m hm
    obtain ⟨i, hi, rfl⟩ := List.mem_map.mp hm
    exact onLine_occurrenceAt hne hroom (hplaces i hi)
  · intro hfits hwindow
    obtain ⟨stream, opened, hopen, -, hfresh, hreliable, hunbounded, -⟩ := openFile_of_hasFile hfile hfits
    rw [← hunbounded] at hwindow
    obtain ⟨places, hfind, -⟩ :=
      Stream.find_fresh hfresh hreliable hwindow hroom hne (opened.report #[.finding path word]).journal
    exact ⟨stream, opened, _, hopen, hfind⟩

/-- Two bytes of a sequence of three with a line end behind them, and such a beginning again at the end of the file. -/
def broken : List UInt8 := [0xE4, 0xB8, 0x0A, 0x61, 0x0A, 0x62, 0xF0, 0x9F]

/-- The word goes over a line end; it begins on the second line. -/
theorem findInFile_lines_broken :
    let s := Session.start ⟨[("in.txt", .file broken)]⟩ ""
    (findInFile s "in.txt" "a\nb" false).1 =
        .ok "<input>:2:0: \"a\\nb\"\n--|--\n1 | \ufffd\n2 | a\n  | ^\n3 | b\ufffd\n--|--\n1 match(es)\n".toList ∧
      ∃ stream opened found, openFile s "in.txt" = (.ok stream, opened) ∧
        (findInFile s "in.txt" "a\nb" false).1 = showOccurrences s "in.txt" stream.name "a\nb" found ∧
        ∀ m ∈ found, OnLine broken m := by
  intro s
  have hfile : s.HasFile "in.txt" broken := ⟨by decide +kernel, fun _ _ => rfl⟩
  obtain ⟨hlines, hends⟩ := findInFile_lines hfile (by decide) (show "a\nb" ≠ "" by decide) false
  obtain ⟨stream, opened, found, hopen, hfind⟩ := hends Config.fits_default rfl
  obtain ⟨hshown, hfound⟩ := hlines stream opened found hopen hfind
  exact ⟨by decide +kernel, stream, opened, found, hopen, hshown, hfound⟩

end CommandLine

end Backtrack
