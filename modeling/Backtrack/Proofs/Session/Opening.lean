import Backtrack.CommandLine
import Backtrack.Proofs.Source.Reading
import Backtrack.Proofs.Stream.Clients

/-! Opening files. The stream that a session opens over a file is fresh, reads what the file holds and meets no failure,
unless the session logs to that very file. A search over it ends with the file as it was, so what it has found is shown
in the same bytes. -/

namespace Backtrack

/-- The chunks and the marks that a configuration asks for can be allocated. -/
structure Config.Fits (c : Config) : Prop where
  chunk : max c.source.readChunkSize 1 ≤ allocationLimit
  marks : (c.stream.markCapacity + 1) * MarkStack.slotSize ≤ allocationLimit

theorem Config.fits_default : Config.Fits default :=
  ⟨by decide, by decide⟩

theorem MarkStack.allocate_of_le {capacity : Nat} (h : (capacity + 1) * slotSize ≤ allocationLimit) :
    allocate capacity = .ok (withCapacity capacity) := by
  have hlimits : allocationLimit < counterLimit := by decide
  have hcount : capacity < counterLimit := by
    unfold slotSize at h
    omega
  rw [allocate, if_neg (Nat.not_le.mpr hcount), if_neg (Nat.not_lt.mpr h)]

namespace Session

variable {s : Session} {path : String} {bytes : List UInt8}

/-- The configuration that has been fixed stays as it is. -/
theorem configOrDefault_configOrDefault (s : Session) : s.configOrDefault.2.configOrDefault = s.configOrDefault := by
  obtain ⟨files, time, config, logger, journal⟩ := s
  cases config <;> rfl

/-! ### Pieces -/

theorem upcoming_pieces (size : Nat) (bytes : List UInt8) :
    Reader.upcoming ((pieces size bytes).map .bytes) = bytes := by
  induction bytes using pieces.induct size with
  | case1 bytes h =>
      rw [pieces, if_pos h]
      cases bytes with
      | nil => rfl
      | cons b bytes => exact List.append_nil (b :: bytes)
  | case2 bytes h ih =>
      rw [not_or, Nat.not_le] at h
      have htake : bytes.take size ≠ [] := by
        rw [← List.length_pos_iff, List.length_take]
        omega
      rw [pieces, if_neg (by omega), List.map_cons, Reader.upcoming_bytes htake, ih, List.take_append_drop]

/-! ### Files that are not written to -/

/-- A path leads to a file with the given bytes, to which nothing is logged. -/
structure HasFile (s : Session) (path : String) (bytes : List UInt8) : Prop where
  bytesAt : s.bytesAt path = .ok bytes
  unlogged : ∀ place, s.files.resolve path = .ok place → s.writerTo? place = none

theorem entryAt_of_unlogged {place : Files.Place} (h : s.writerTo? place = none) :
    s.entryAt place = s.files.entryAt place := by
  rw [entryAt, h]
  split
  · contradiction
  · rfl

theorem writerTo?_eq_none {place : Files.Place} :
    s.writerTo? place = none ↔ s.logger.bind Logger.file ≠ some place.path := by
  rw [writerTo?]
  cases s.logger <;> simp

namespace HasFile

/-- Whatever else happens in the session, the file stays as it is. -/
theorem congr (h : s.HasFile path bytes) {after : Session} (hfiles : after.files = s.files)
    (hlogger : after.logger = s.logger) : after.HasFile path bytes := by
  have hunlogged : ∀ place, s.files.resolve path = .ok place → after.writerTo? place = none := by
    intro place hplace
    rw [writerTo?_eq_none, hlogger, ← writerTo?_eq_none]
    exact h.unlogged place hplace
  refine ⟨?_, by rwa [hfiles]⟩
  rw [← h.bytesAt, Session.bytesAt, Session.bytesAt, lookup, lookup, hfiles]
  cases hplace : s.files.resolve path with
  | error reason => rfl
  | ok place =>
      dsimp only
      rw [entryAt_of_unlogged (hunlogged place hplace), entryAt_of_unlogged (h.unlogged place hplace), hfiles]

theorem configOrDefault (h : s.HasFile path bytes) : s.configOrDefault.2.HasFile path bytes := by
  unfold Session.configOrDefault
  split <;> exact h.congr rfl rfl

/-- The reader of the file brings its bytes and does not fail. -/
theorem openFile (h : s.HasFile path bytes) :
    ∃ reader, s.openFile path = (.ok (s.configOrDefault.1.source.openReader reader), s.configOrDefault.2) ∧
      reader.ending = .finished ∧ Reader.failures reader.deliveries = [] ∧
      Reader.upcoming reader.deliveries = bytes := by
  have hbytes := h.bytesAt
  rw [Session.bytesAt, lookup] at hbytes
  rw [Session.openFile]
  cases hplace : s.files.resolve path with
  | error reason =>
      rw [hplace] at hbytes
      cases hbytes
  | ok place =>
      rw [hplace] at hbytes
      dsimp only at hbytes ⊢
      cases hentry : s.entryAt place with
      | file held =>
          rw [hentry] at hbytes
          obtain rfl : held = bytes := Except.ok.inj hbytes
          refine ⟨s.fileReader place held s.configOrDefault.1.source.readChunkSize, rfl, ?_⟩
          rw [fileReader, h.unlogged place hplace]
          exact ⟨rfl, Reader.failures_map_bytes _, upcoming_pieces _ _⟩
      | sink =>
          rw [hentry] at hbytes
          cases hbytes
          exact ⟨⟨[], .finished⟩, rfl, rfl, rfl, rfl⟩
      | directory =>
          rw [hentry] at hbytes
          cases hbytes
      | unavailable reason =>
          rw [hentry] at hbytes
          cases hbytes

end HasFile

end Session

namespace CommandLine

/-- The stream over a file is there, as it is created, over what the file holds, and the file is still the same. -/
theorem openFile_of_hasFile {s : Session} {path : String} {bytes : List UInt8}
    (h : s.HasFile path bytes) (hfits : s.configOrDefault.1.Fits) :
    ∃ stream after, CommandLine.openFile s path = (.ok stream, after) ∧ after.HasFile path bytes ∧
      stream.IsFresh (Utf8.decode bytes) ∧ stream.source.Reliable ∧
      stream.source.history.window = s.configOrDefault.1.source.backupWindow ∧
      stream.name = s.configOrDefault.1.stream.sourceName ∧
      stream.caseFold = s.configOrDefault.1.stream.caseFold := by
  obtain ⟨reader, hopen, hending, hfailures, hbytes⟩ := h.openFile
  have hfixed := h.configOrDefault
  have hagain := s.configOrDefault_configOrDefault
  generalize s.configOrDefault = found at *
  obtain ⟨c, fixed⟩ := found
  dsimp only at *
  have hsource : c.source.openReader reader =
      .ok (Source.ofReader reader c.source.backupWindow c.source.readChunkSize) := by
    rw [SourceConfig.openReader, Source.openReader, if_neg (Nat.not_lt.mpr hfits.chunk)]
  rw [CommandLine.openFile, hopen, hsource]
  dsimp only
  rw [Session.openStream, hagain]
  dsimp only
  rw [StreamConfig.openStream, Stream.createWithCapacity, MarkStack.allocate_of_le hfits.marks]
  refine ⟨_, _, rfl, hfixed.congr rfl rfl, ⟨.inr ⟨reader, _, _, rfl, ?_⟩, rfl, _, rfl⟩, ⟨hending, hfailures⟩, rfl, rfl,
    rfl⟩
  rw [hbytes]

theorem act_of_ok {α : Type} {x : Action Stream α} {s : Session} {stream : Stream} {a : α}
    (h : (x stream s.journal).result = .ok a) :
    act s stream x =
      (.ok (a, (x stream s.journal).state), { s with journal := (x stream s.journal).journal }) := by
  unfold act
  generalize x stream s.journal = o at h ⊢
  obtain ⟨result, after, journal⟩ := o
  obtain rfl : result = .ok a := h
  rfl

/-- What is shown depends on the session only by what the file holds. -/
theorem showOccurrences_congr {s after : Session} {path : String} {bytes : List UInt8} (h : s.HasFile path bytes)
    (hafter : after.HasFile path bytes) (name word : String) (found : List Occurrence) :
    showOccurrences after path name word found = showOccurrences s path name word found := by
  rw [showOccurrences, showOccurrences, h.bytesAt, hafter.bytesAt]

/-- What a search has found in the stream over a file is what is shown of the file. -/
theorem findInFile_of_ok {s opened : Session} {path : String} {bytes : List UInt8} {stream : Stream}
    (h : s.HasFile path bytes) (hopen : openFile s path = (.ok stream, opened)) (hopened : opened.HasFile path bytes)
    (hvalid : stream.marks.Valid) {word : String} {caseFold : Bool} {found : List Occurrence}
    (hfind : (Stream.find (foldWord word.toList caseFold) stream
      (opened.report #[.finding path word]).journal).result = .ok found) :
    (findInFile s path word caseFold).1 = showOccurrences s path stream.name word found := by
  have hclient : Stream.Client False (Stream.find (foldWord word.toList caseFold)) := .find _
  obtain ⟨events, -, hrun⟩ := hclient.reaches hvalid (Outcome.not_isFull_of_ok hfind)
  rw [findInFile, hopen]
  dsimp only
  rw [act_of_ok hfind]
  dsimp only
  rw [hrun.name]
  apply showOccurrences_congr h
  exact hopened.congr rfl rfl

end CommandLine

end Backtrack
