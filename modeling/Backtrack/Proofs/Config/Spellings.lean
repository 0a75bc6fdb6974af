import Backtrack.Config.Document
import Backtrack.Proofs.Json.Records

/-! The documents that spell a configuration. The document itself, the stream, the source and the log are records,
each spelled over its own defaults in either form. Every spelling is read as the configuration that it spells. -/

namespace Backtrack

open Json

/-! ### The fields -/

def Log.Level.Spells (level : Log.Level) : List Char → Prop :=
  SpellsName level.name.toList

namespace StreamConfig

def keys : List (Key StreamConfig) :=
  [⟨"source_name", String, sourceName, fun v c => { c with sourceName := v }, fun v => SpellsText v.toList⟩,
   ⟨"case_fold", Bool, caseFold, fun v c => { c with caseFold := v }, SpellsFlag⟩,
   ⟨"mark_capacity", Nat, markCapacity, fun v c => { c with markCapacity := v }, SpellsNatural⟩]

def Spells : StreamConfig → List Char → Prop :=
  SpellsRecord keys default

/-- The numbers have 64 bits. -/
def InRange (c : StreamConfig) : Prop :=
  c.markCapacity ≤ counterLimit

theorem lawful : Lawful keys where
  nodup := by decide
  get_put := by simp [keys]
  get_put_of_ne := by simp [keys]
  ext := by
    rintro ⟨⟩ ⟨⟩
    simp [keys]

end StreamConfig

namespace SourceConfig

def keys : List (Key SourceConfig) :=
  [⟨"backup_window", Option Nat, backupWindow, fun v c => { c with backupWindow := v }, SpellsOption SpellsNatural⟩,
   ⟨"read_chunk_size", Nat, readChunkSize, fun v c => { c with readChunkSize := v }, SpellsNatural⟩]

def Spells : SourceConfig → List Char → Prop :=
  SpellsRecord keys default

def InRange (c : SourceConfig) : Prop :=
  (∀ window ∈ c.backupWindow, window ≤ counterLimit) ∧ c.readChunkSize ≤ counterLimit

theorem lawful : Lawful keys where
  nodup := by decide
  get_put := by simp [keys]
  get_put_of_ne := by simp [keys]
  ext := by
    rintro ⟨⟩ ⟨⟩
    simp [keys]

end SourceConfig

namespace LogConfig

def keys : List (Key LogConfig) :=
  [⟨"global", Log.Level, overall, fun v c => { c with overall := v }, Log.Level.Spells⟩,
   ⟨"stream", Option Log.Level, stream, fun v c => { c with stream := v }, SpellsOption Log.Level.Spells⟩,
   ⟨"source", Option Log.Level, source, fun v c => { c with source := v }, SpellsOption Log.Level.Spells⟩,
   ⟨"cli", Option Log.Level, cli, fun v c => { c with cli := v }, SpellsOption Log.Level.Spells⟩]

def Spells : LogConfig → List Char → Prop :=
  SpellsRecord keys default

theorem lawful : Lawful keys where
  nodup := by decide
  get_put := by simp [keys]
  get_put_of_ne := by simp [keys]
  ext := by
    rintro ⟨⟩ ⟨⟩
    simp [keys]

end LogConfig

namespace Config

def keys : List (Key Config) :=
  [⟨"stream", StreamConfig, stream, fun v c => { c with stream := v }, StreamConfig.Spells⟩,
   ⟨"source", SourceConfig, source, fun v c => { c with source := v }, SourceConfig.Spells⟩,
   ⟨"log", LogConfig, log, fun v c => { c with log := v }, LogConfig.Spells⟩]

def Spells (c : Config) (text : String) : Prop :=
  Padded (SpellsRecord keys default c) text.toList

def InRange (c : Config) : Prop :=
  c.stream.InRange ∧ c.source.InRange

theorem lawful : Lawful keys where
  nodup := by decide
  get_put := by simp [keys]
  get_put_of_ne := by simp [keys]
  ext := by
    rintro ⟨⟩ ⟨⟩
    simp [keys]

end Config

/-! ### Reading -/

theorem Log.Level.ofChars?_name (level : Log.Level) : Log.Level.ofChars? level.name.toList = some level := by
  rw [ofChars?, String.ofList_toList]
  cases level <;> decide

theorem Log.Level.takes {level : Log.Level} {text : List Char} (h : level.Spells text) :
    LogConfig.level.Takes text level :=
  named_takes level.ofChars?_name h

theorem optional_level_takes {level : Option Log.Level} {text : List Char}
    (h : SpellsOption Log.Level.Spells level text) : (Json.optional LogConfig.level).Takes text level :=
  optional_takes h fun _ _ _ hspells => ⟨Log.Level.takes hspells, hspells.head?⟩

theorem StreamConfig.fits {c : StreamConfig} (hrange : c.InRange) : List.Forall₂ (Field.Fits c) fields keys := by
  refine .cons ⟨rfl, ?_⟩ (.cons (Field.fits_put ?_) (.cons (Field.fits_put ?_) .nil))
  · intro text hname
    have htakes := (string_takes hname).map fun v (c : StreamConfig) => { c with sourceName := String.ofList v }
    simpa using htakes
  · exact flag_takes
  · exact fun hnatural => natural_takes hnatural hrange

theorem SourceConfig.fits {c : SourceConfig} (hrange : c.InRange) : List.Forall₂ (Field.Fits c) fields keys := by
  refine .cons (Field.fits_put fun hoption => ?_) (.cons (Field.fits_put fun hnatural => ?_) .nil)
  · refine optional_takes hoption fun window hwindow text hnatural => ?_
    exact ⟨natural_takes hnatural (hrange.1 window hwindow), hnatural.head?⟩
  · exact natural_takes hnatural hrange.2

theorem LogConfig.fits (c : LogConfig) : List.Forall₂ (Field.Fits c) fields keys :=
  .cons (Field.fits_put Log.Level.takes) <| .cons (Field.fits_put optional_level_takes) <|
    .cons (Field.fits_put optional_level_takes) <| .cons (Field.fits_put optional_level_takes) .nil

theorem Config.fits {c : Config} (hrange : c.InRange) : List.Forall₂ (Field.Fits c) fields keys := by
  refine .cons (Field.fits_put ?_) (.cons (Field.fits_put ?_) (.cons (Field.fits_put ?_) .nil))
  · exact record_takes (StreamConfig.fits hrange.1) StreamConfig.lawful
  · exact record_takes (SourceConfig.fits hrange.2) SourceConfig.lawful
  · exact record_takes (LogConfig.fits c.log) LogConfig.lawful

theorem Config.takes {c : Config} (hrange : c.InRange) (text : List Char) (h : SpellsRecord keys default c text) :
    (Json.record fields default).Takes text c :=
  record_takes (Config.fits hrange) lawful h

/-- A document is read as the configuration that it spells, whichever form each of its records has, in whatever order
and with whatever else its fields are written, and however its values are spelled. -/
theorem Config.ofJson_of_spells {c : Config} {text : String} (hrange : c.InRange) (h : c.Spells text) :
    ofJson text = .ok c :=
  document_of_takes (takes hrange) h

/-- The stream is an array, cut behind its second field, the log an object, the source is left out, and a member that
nobody asked for stands before them. -/
theorem Config.ofJson_of_spells_mixed :
    let c : Config := ⟨⟨"a\"", true, 8⟩, default, ⟨.info, some .warn, none, none⟩⟩
    let text := "\x7b\"x\":[\x7b\"y\":-1e5\x7d, null],\"log\":\x7b\"cli\":null,\"stream\":\"warn\"\x7d," ++
      "\n\"stream\":[\"\\u0061\\\"\", true]\x7d"
    c.InRange ∧ ofJson text = .ok c := by
  intro c text
  have hrange : c.InRange := by
    unfold InRange StreamConfig.InRange SourceConfig.InRange
    decide
  -- the member of another name
  have hblank : Blank [' '] := by simp [Blank]
  have hnumber : Number ['-', '1', 'e', '5'] :=
    ⟨['-'], ['1'], [], ['e', '5'], by decide, .more rfl (by decide) (by simp), .none,
      .some (by decide) List.mem_cons_self ⟨by simp, by simp⟩, rfl⟩
  have hnested : Wellformed .value _ :=
    .object (.lastMember blank_nil (.raw (by decide : Raw 'y') .nil) blank_nil
      (.item blank_nil (.scalar (.number hnumber)) blank_nil))
  have hvalue : Value _ :=
    .array (.nextItem (.item blank_nil hnested blank_nil) (.lastItem (.item hblank (.scalar .null) blank_nil)))
  have hother : Member keys c none _ :=
    .other (by decide) (padded_self (spellsText_self (by decide : ['x'].all (Raw ·)))) (padded_self hvalue)
  -- the log
  have hcli : Member LogConfig.keys c.log (some LogConfig.keys[3]) _ :=
    .field (by simp [LogConfig.keys]) (padded_self (spellsText_self (by decide))) (padded_self .none)
  have hlevel : Member LogConfig.keys c.log (some LogConfig.keys[1]) _ :=
    .field (by simp [LogConfig.keys]) (padded_self (spellsText_self (by decide)))
      (padded_self (.some (.text (spellsText_self (by decide)))))
  have hunwritten : ∀ key ∈ LogConfig.keys,
      some key ∈ [some LogConfig.keys[3], some LogConfig.keys[1]] ∨ key.get default = key.get c.log := by
    simp only [LogConfig.keys, List.forall_mem_cons]
    exact ⟨.inr rfl, .inl (by simp), .inr rfl, .inl (by simp), by simp⟩
  have hlog : LogConfig.Spells c.log _ :=
    @SpellsRecord.object _ LogConfig.keys default c.log [] [] [(some LogConfig.keys[3], _), (some LogConfig.keys[1], _)]
      blank_nil (List.forall_mem_cons.mpr ⟨hcli, List.forall_mem_singleton.mpr hlevel⟩) (by decide) hunwritten blank_nil
  have hsecond : Member keys c (some keys[2]) _ :=
    .field (by simp [keys]) (padded_self (spellsText_self (by decide))) (padded_self hlog)
  -- the stream
  have hcode : FourHex ('a' : Char).toNat ['0', '0', '6', '1'] :=
    .digits (k := 0) (l := 0) (m := 6) (n := 1) (by decide) (by decide) (by decide) (by decide)
  have hname : SpellsText ['a', '"'] _ :=
    ⟨_, .cons (.code hcode) (.cons (.short (by decide : ('"', '"') ∈ shortForms)) .nil), rfl⟩
  rw [show ['a', '"'] = c.stream.sourceName.toList by decide] at hname
  have hstream : StreamConfig.Spells c.stream _ :=
    .array 2 blank_nil (.cons (padded_self hname) (.cons ⟨[' '], _, [], hblank, .true, blank_nil, rfl⟩ .nil))
      (List.forall_mem_singleton.mpr rfl) blank_nil
  have hthird : Member keys c (some keys[0]) _ :=
    .field (by simp [keys]) ⟨['\n'], _, [], by simp [Blank], spellsText_self (by decide), blank_nil, rfl⟩
      (padded_self hstream)
  -- all of it
  have hdefault : ∀ key ∈ keys, some key ∈ [none, some keys[2], some keys[0]] ∨ key.get default = key.get c := by
    simp only [keys, List.forall_mem_cons]
    exact ⟨.inl (by simp), .inr rfl, .inl (by simp), by simp⟩
  have hdocument : SpellsRecord keys default c _ :=
    @SpellsRecord.object _ keys default c [] [] [(none, _), (some keys[2], _), (some keys[0], _)] blank_nil
      (List.forall_mem_cons.mpr ⟨hother, List.forall_mem_cons.mpr ⟨hsecond, List.forall_mem_singleton.mpr hthird⟩⟩)
      (by decide) hdefault blank_nil
  refine ⟨hrange, ofJson_of_spells hrange ⟨[], _, [], blank_nil, hdocument, blank_nil, ?_⟩⟩
  decide +kernel

end Backtrack
