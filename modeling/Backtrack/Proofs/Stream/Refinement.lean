import Backtrack.Proofs.Source.Alike
import Backtrack.Proofs.Stream.Beside
import Backtrack.Proofs.Stream.Programs

/-! A reader in place of its text. The text has everything at hand from the start, the reader decodes what is
asked for; a stream over the one and a stream over the other cannot be told apart by what can be asked of
both: the text up to where the cursor has been. Behind that, the reader does not know yet how much there is. -/

namespace Backtrack

namespace Source

variable {origin s t : Source} {journal journal' : Journal} {text : List Char}

/-- Sources that are `Alike`, the second one with all of the text decoded. The journals play no part. -/
structure Twins (text : List Char) (s : Source) (_ : Journal) (t : Source) (_ : Journal) : Prop where
  alike : s.Alike t
  text : t.text = text
  whole : t.decoder.remaining = []

/-- The text is retained from the start, to its end. -/
theorem Twins.retained (h : Twins text s journal t journal') : t.retained = text.length := by
  rw [retained_of_remaining h.whole, h.text]

theorem Twins.read (h : Twins text s journal t journal') :
    (s.read journal).result = (t.read journal').result ∧
      Twins text (s.read journal).state (s.read journal).journal (t.read journal').state
        (t.read journal').journal := by
  obtain ⟨hresult, hafter⟩ := h.alike.read journal journal'
  have hsame := (t.read_evolves journal').same h.alike.valid'
  exact ⟨hresult, hafter, hsame.text.trans h.text, (read_retains h.alike.valid' journal').remaining h.whole⟩

theorem Twins.backup (h : Twins text s journal t journal') (count : Nat) :
    (backup count s journal).result = (backup count t journal').result ∧
      Twins text (backup count s journal).state (backup count s journal).journal (backup count t journal').state
        (backup count t journal').journal := by
  obtain ⟨hresult, hafter⟩ := h.alike.backup count journal journal'
  have htakes := t.backup_takesBack count journal'
  have hsame := htakes.evolves.same h.alike.valid'
  refine ⟨hresult, hafter, hsame.text.trans h.text, ?_⟩
  generalize Source.backup count t journal' = o at htakes ⊢
  cases htakes <;> exact h.whole

/-! ### Ranges -/

/-- Some place where the cursor has been since `origin` is not before `stop`. -/
def Passed (origin s : Source) (stop : Nat) : Prop :=
  ∃ past, origin.Leads past ∧ past.Leads s ∧ stop ≤ past.cursor

/-- What has been passed is retained, up to the end of the text. -/
theorem Passed.retained {stop : Nat} (hvalid : origin.Valid) (h : Passed origin s stop) :
    stop ≤ s.retained ∨ s.decoder.remaining = [] := by
  obtain ⟨past, horigin, hleads, hstop⟩ := h
  have hpast := (horigin.evolves.same hvalid).valid
  have hretains := hleads.retains hpast
  exact hpast.reach.imp (fun hreach => hstop.trans (hreach.trans hretains.retained)) hretains.remaining

end Source

namespace Stream

variable {origin : Source} {s : Stream}

theorem coupling_twins (text : List Char) : Coupling (Source.Twins text) fun _ => True :=
  ⟨fun h => h.alike.cursor, fun _ _ => ⟨id, fun _ _ h _ => h.read⟩,
    fun count _ _ => ⟨id, fun _ _ h _ => h.backup count⟩, id, fun _ h => { h with }⟩

/-- Ranges are cut out of what has been passed; everything else is allowed. -/
def Terms.passed (origin : Source) : Terms :=
  ⟨fun _ _ _ => True, fun s start stop => start ≤ stop ∧ Source.Passed origin s.source stop, fun _ => True,
    fun _ => True⟩

/-- On these terms a stream can be searched. -/
theorem Terms.suits_passed (hleads : origin.Leads s.source) (hvalid : s.marks.Valid)
    (hahead : s.index ≤ s.source.cursor) : (Terms.passed origin).Suits s :=
  ⟨hvalid, hahead, fun _ => trivial, fun hafter hle hstop => ⟨hle, _, hleads.trans hafter, .refl, hstop⟩,
    fun _ => trivial⟩

theorem substring_of_lt {start stop : Nat} (h : stop < start) (s : Stream) (journal : Journal) :
    substring start stop s journal =
      ⟨.error (.fault (.rangeOutOfBounds start stop s.source.retained)), s, journal⟩ := by
  unfold substring Source.range History.range
  rw [if_neg fun hle => Nat.not_le.mpr h hle.1]
  rfl

/-- A reader stands for its text. Let `deliveries` bring the UTF-8 bytes of `text` without a failure; by
`Reader.upcoming_map_bytes` any cut of them into reads that are not empty does. For every chunk size and window, and for
every program on the terms `Terms.passed`, the stream over the reader and the stream over the text have the same result
and the same `face` in the end. A `substring` whose range ends before it starts is refused by both with
`rangeOutOfBounds` and leaves both as they are; the text names all of its characters there, the reader those that it has
decoded. -/
theorem reader_refines_text {α : Type} {x : Action Stream α} {text : List Char} {deliveries : List Delivery}
    (hfailures : Reader.failures deliveries = []) (hbytes : Reader.upcoming deliveries = Utf8.encode text)
    (window : Option Nat) (chunkSize : Nat) {reading : Stream}
    (hreading : reading.source = .ofReader ⟨deliveries, .finished⟩ window chunkSize) {start : Journal}
    (hx : Uses (.passed reading.source) x reading start) (start' : Journal) :
    let o := x reading start
    let o' := x { reading with source := .ofText text window } start'
    o.result = o'.result ∧ o.state.face = o'.state.face ∧
      ∀ first last, last < first →
        substring first last o.state o.journal =
          ⟨.error (.fault (.rangeOutOfBounds first last o.state.source.retained)), o.state, o.journal⟩ ∧
        substring first last o'.state o'.journal =
          ⟨.error (.fault (.rangeOutOfBounds first last text.length)), o'.state, o'.journal⟩ := by
  intro o o'
  have hvalid : (Source.ofReader ⟨deliveries, .finished⟩ window chunkSize).Valid := by
    refine Source.valid_ofReader ?_ window chunkSize
    exact trivial
  have htwins : Source.Twins text reading.source start (.ofText text window) start' := by
    refine ⟨?_, Source.text_ofText text window, rfl⟩
    rw [hreading]
    refine ⟨hvalid, ⟨rfl, hfailures⟩, Source.valid_ofText text window, ⟨rfl, rfl⟩, ?_, rfl, rfl, Nat.zero_le _⟩
    rw [Source.text_ofReader, Source.text_ofText, hbytes, Utf8.decode_encode]
  have hstep : Action.InStep (Beside (Source.Twins text)) (fun _ => True) x reading start := by
    refine hx.inStep (coupling_twins text) ?_
    rintro s first last ⟨hle, hpassed⟩ journal t journal' htwins
    exact htwins.alike.range hle (hpassed.retained (hreading ▸ hvalid))
  obtain ⟨hresult, hafter⟩ := hstep.beside { reading with source := .ofText text window } start'
    ⟨rfl, rfl, rfl, rfl, htwins⟩ trivial
  refine ⟨hresult, hafter.face hafter.source.alike.cursor, fun first last hlt => ⟨substring_of_lt hlt _ _, ?_⟩⟩
  rw [← hafter.source.retained]
  exact substring_of_lt hlt _ _

/-- A character cut in two, found behind another one, and both cut out afterwards. -/
theorem reader_refines_text_cut :
    let x := find ['é'] >>= fun _ => substring 0 2
    let reads : List (List UInt8) := [[0x61, 0xC3], [0xA9]]
    let reading := ofSource (.ofReader ⟨reads.map .bytes, .finished⟩ (some 1) 1) "in" false
    (x reading #[]).result = (x (ofSource (.ofText ['a', 'é'] (some 1)) "in" false) #[]).result ∧
      (x reading #[]).result = .ok "aé" := by
  intro x reads reading
  have hsuits : (Terms.passed reading.source).Suits reading :=
    Terms.suits_passed .refl (MarkStack.valid_withCapacity 0) (Nat.le_refl 0)
  have hfind : Uses (.passed reading.source) (find ['é']) reading #[] := .find _ hsuits
  have hx : Uses (.passed reading.source) x reading #[] := by
    have hcursor : (find ['é'] reading #[]).state.source.cursor = 2 := by decide +kernel
    refine hsuits.bind hfind fun {found after journal} hfound h => ?_
    rw [hfound] at hcursor
    exact .substring (h.substring .refl (Nat.zero_le 2) hcursor.ge)
  have htext : Reader.upcoming (reads.map .bytes) = Utf8.encode ['a', 'é'] := by
    rw [Reader.upcoming_map_bytes (by simp [reads])]
    decide +kernel
  refine ⟨(reader_refines_text (Reader.failures_map_bytes reads) htext (some 1) 1 rfl hx #[]).1, by decide +kernel⟩

/-- A range that ends before it starts, when the reader has delivered one of the two characters of its text. -/
theorem reader_differs_reversed :
    let x := advance >>= fun _ => substring 1 0
    let reading := x (ofSource (.ofReader ⟨[.bytes [0x61, 0x62]], .finished⟩ none 1) "in" false) #[]
    let whole := x (ofSource (.ofText ['a', 'b'] none) "in" false) #[]
    Reader.upcoming [.bytes [0x61, 0x62]] = Utf8.encode ['a', 'b'] ∧ reading.state.source.cursor = 1 ∧
      reading.result = .error (.fault (.rangeOutOfBounds 1 0 1)) ∧
      whole.result = .error (.fault (.rangeOutOfBounds 1 0 2)) := by
  decide +kernel

end Stream

end Backtrack
