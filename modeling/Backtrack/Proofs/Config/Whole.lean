import Backtrack.Proofs.Config.RoundTrip
import Backtrack.Proofs.Json.Cutting
import Backtrack.Proofs.Json.Steady

/-! Documents are read whole or not at all. All fields have defaults, so nothing but the closing brackets tells a
document that is cut off from one that leaves fields out; and that is enough, wherever the cut is made. -/

namespace Backtrack

open Json (Field Blank Cut Member SpellsRecord blank_nil padded_self spellsText_self spells_writeNatural)

/-! ### Documents that go on -/

theorem LogConfig.level_steady : level.Steady :=
  Json.named_steady Log.Level.ofChars?

theorem StreamConfig.fields_steady : ∀ field ∈ fields, field.parser.Steady := by
  simp only [fields, List.forall_mem_cons]
  exact ⟨Json.string_steady.map _, Json.flag_steady.map _, Json.natural_steady.map _, by simp⟩

theorem SourceConfig.fields_steady : ∀ field ∈ fields, field.parser.Steady := by
  simp only [fields, List.forall_mem_cons]
  exact ⟨(Json.optional_steady Json.natural_steady).map _, Json.natural_steady.map _, by simp⟩

theorem LogConfig.fields_steady : ∀ field ∈ fields, field.parser.Steady := by
  simp only [fields, List.forall_mem_cons]
  have hoption := Json.optional_steady level_steady
  exact ⟨level_steady.map _, hoption.map _, hoption.map _, hoption.map _, by simp⟩

theorem Config.fields_steady : ∀ field ∈ fields, field.parser.Steady := by
  simp only [fields, List.forall_mem_cons]
  exact ⟨(Json.record_steady StreamConfig.fields_steady).map _, (Json.record_steady SourceConfig.fields_steady).map _,
    (Json.record_steady LogConfig.fields_steady).map _, by simp⟩

/-! ### Written documents that are cut off -/

theorem Log.Level.write_breaks (level : Log.Level) : LogConfig.level.Breaks level.write :=
  Json.named_breaks (Json.spells_writeText level.name.toList)

theorem optional_level_breaks (level : Option Log.Level) :
    (Json.optional LogConfig.level).Breaks (Json.writeOption Log.Level.write level) := by
  have hwritten : Json.SpellsOption (fun (l : Log.Level) text => l.write = text) level
      (Json.writeOption Log.Level.write level) := @Json.spells_writeOption _ _ Log.Level.write (fun _ => rfl) level
  refine Json.optional_breaks hwritten ?_
  rintro l - _ rfl
  exact ⟨(Log.Level.takes l.spells_write).opens, l.write_breaks, l.spells_write.head?⟩

namespace StreamConfig

theorem write_breaks {c : StreamConfig} (hrange : c.InRange) (indent : Nat) :
    (Json.record fields default).Breaks (c.write indent) := by
  refine Json.writeRecord_breaks (.cons ?_ (.cons ?_ (.cons ?_ .nil))) (by decide) indent
  · have hname := Json.spells_writeText c.sourceName.toList
    exact Field.writes_map (Json.string_takes hname) (Json.string_breaks hname) _ _
  · have hflag := Json.spells_writeFlag c.caseFold
    exact Field.writes_map (Json.flag_takes hflag) (Json.flag_breaks hflag) _ _
  · have hnatural := Json.spells_writeNatural c.markCapacity
    exact Field.writes_map (Json.natural_takes hnatural hrange) (Json.natural_breaks hnatural hrange) _ _

end StreamConfig

namespace SourceConfig

theorem write_breaks {c : SourceConfig} (hrange : c.InRange) (indent : Nat) :
    (Json.record fields default).Breaks (c.write indent) := by
  refine Json.writeRecord_breaks (.cons ?_ (.cons ?_ .nil)) (by decide) indent
  · have hoption := Json.spells_writeOption Json.spells_writeNatural c.backupWindow
    have hnatural : ∀ window ∈ c.backupWindow, ∀ text, Json.SpellsNatural window text →
        Json.natural.Takes text window ∧ Json.natural.Breaks text ∧ text.head? ≠ some 'n' :=
      fun window hwindow text h => ⟨Json.natural_takes h (hrange.1 window hwindow),
        Json.natural_breaks h (hrange.1 window hwindow), h.head?⟩
    exact Field.writes_map
      (Json.optional_takes hoption fun window hwindow text h => ⟨(hnatural window hwindow text h).1, h.head?⟩)
      (Json.optional_breaks hoption fun window hwindow text h =>
        ⟨(hnatural window hwindow text h).1.opens, (hnatural window hwindow text h).2⟩) _ _
  · have hnatural := Json.spells_writeNatural c.readChunkSize
    exact Field.writes_map (Json.natural_takes hnatural hrange.2) (Json.natural_breaks hnatural hrange.2) _ _

end SourceConfig

namespace LogConfig

theorem write_breaks (c : LogConfig) (indent : Nat) : (Json.record fields default).Breaks (c.write indent) := by
  have hoption : ∀ (level : Option Log.Level) (name : String) (put : Option Log.Level → LogConfig → LogConfig),
      Field.Writes ⟨name, (Json.optional LogConfig.level).map put⟩ (name, Json.writeOption Log.Level.write level) :=
    fun level => Field.writes_map (optional_level_takes (Json.spells_writeOption Log.Level.spells_write level))
      (optional_level_breaks level)
  have hlevel : Field.Writes ⟨"global", level.map fun v (c : LogConfig) => { c with overall := v }⟩
      ("global", c.overall.write) :=
    Field.writes_map (Log.Level.takes c.overall.spells_write) c.overall.write_breaks _ _
  have hwrites : List.Forall₂ Field.Writes fields _ :=
    .cons hlevel (.cons (hoption c.stream _ _) (.cons (hoption c.source _ _) (.cons (hoption c.cli _ _) .nil)))
  exact Json.writeRecord_breaks hwrites (by decide) indent

end LogConfig

namespace Config

theorem write_cut {c : Config} (hrange : c.InRange) {front : List Char} (hcut : Cut front c.write) :
    (Json.record fields default).read front = .error .truncated := by
  have hwrites : List.Forall₂ Field.Writes fields
      [("stream", c.stream.write 2), ("source", c.source.write 2), ("log", c.log.write 2)] := by
    refine .cons ?_ (.cons ?_ (.cons ?_ .nil))
    · have htakes := Json.record_takes (StreamConfig.fits hrange.1) StreamConfig.lawful (c.stream.spells_write 2)
      exact Field.writes_map htakes (StreamConfig.write_breaks hrange.1 2) _ _
    · have htakes := Json.record_takes (SourceConfig.fits hrange.2) SourceConfig.lawful (c.source.spells_write 2)
      exact Field.writes_map htakes (SourceConfig.write_breaks hrange.2 2) _ _
    · have htakes := Json.record_takes (LogConfig.fits c.log) LogConfig.lawful (c.log.spells_write 2)
      exact Field.writes_map htakes (c.log.write_breaks 2) _ _
  exact Json.writeRecord_cut hwrites (by decide) Json.blank_nil hcut

/-- A document is read whole or not at all. If `ofJson` accepts `front ++ rest` and `rest` is not blank, it rejects
`front`. If it accepts `text`, then it accepts `text ++ more` if and only if `more` is blank, and as the same
configuration. A document of `toJson` that is cut off anywhere is `truncated`. -/
theorem ofJson_whole :
    (∀ (text : String) (c : Config), ofJson text = .ok c →
      (∀ front rest : String, text = front ++ rest → ¬Blank rest.toList → ∃ r, ofJson front = .error r) ∧
      ∀ (more : String) (d : Config), ofJson (text ++ more) = .ok d ↔ Blank more.toList ∧ d = c) ∧
    ∀ c : Config, c.InRange → ∀ front rest : String, c.toJson = front ++ rest → rest ≠ "" →
      ofJson front = .error .truncated := by
  refine ⟨fun text c htext => ⟨?_, ?_⟩, ?_⟩
  · rintro front rest rfl hrest
    rw [ofJson, String.toList_append] at htext
    exact Json.document_front fields_steady htext hrest
  · intro more d
    rw [ofJson, String.toList_append]
    exact Json.document_append fields_steady htext more.toList d
  · intro c hrange front rest hfront hrest
    have hcut : Cut front.toList c.write := by
      refine ⟨rest.toList, by simpa using hrest, ?_⟩
      rw [← String.toList_append, ← hfront, toJson, String.toList_ofList]
    rw [ofJson, Json.document, write_cut hrange hcut]

/-- A cut within a number and its brackets, white space behind a document, and a written one cut within an escape. -/
theorem ofJson_whole_number :
    let c : Config := ⟨default, ⟨none, 123⟩, default⟩
    let d : Config := ⟨⟨"\x01", false, 8⟩, default, default⟩
    let front := "\x7b\"source\":[null,12"
    let start := "\x7b\n  \"stream\": \x7b\n    \"source_name\": \"\\u00"
    ofJson (front ++ "3]\x7d") = .ok c ∧ (∃ r, ofJson front = .error r) ∧ ofJson (front ++ "3]\x7d" ++ "\n") = .ok c ∧
      (∃ rest ≠ "", d.toJson = start ++ rest) ∧ ofJson start = .error .truncated := by
  intro c d front start
  have hrange : c.InRange ∧ d.InRange := by
    unfold InRange StreamConfig.InRange SourceConfig.InRange
    decide
  have hsource : SourceConfig.Spells c.source _ :=
    .array 2 blank_nil (.cons (padded_self .none) (.cons (padded_self (spells_writeNatural 123)) .nil))
      (List.forall_mem_nil _) blank_nil
  have hmember : Member keys c (some keys[1]) _ :=
    .field (by simp [keys]) (padded_self (spellsText_self (by decide))) (padded_self hsource)
  have hothers : ∀ key ∈ keys, some key ∈ [some keys[1]] ∨ key.get default = key.get c := by
    simp only [keys, List.forall_mem_cons]
    exact ⟨.inr rfl, .inl (by simp), .inr rfl, by simp⟩
  have hdocument : SpellsRecord keys default c _ :=
    @SpellsRecord.object _ keys default c [] [] [(some keys[1], _)] blank_nil (List.forall_mem_singleton.mpr hmember)
      (by decide) hothers blank_nil
  have hspells : c.Spells (front ++ "3]\x7d") := by
    refine ⟨[], _, [], blank_nil, hdocument, blank_nil, ?_⟩
    decide +kernel
  have htext : ofJson (front ++ "3]\x7d") = .ok c := Json.document_of_takes (takes hrange.1) hspells
  obtain ⟨hfront, hmore⟩ := ofJson_whole.1 _ c htext
  obtain ⟨rest, hrest, hwritten⟩ : ∃ rest ≠ "", d.toJson = start ++ rest :=
    ⟨String.ofList (d.write.drop 40), by decide +kernel, by decide +kernel⟩
  refine ⟨htext, hfront front "3]\x7d" rfl ?_, (hmore "\n" c).mpr ⟨?_, rfl⟩, ⟨rest, hrest, hwritten⟩,
    ofJson_whole.2 d hrange.2 start rest hwritten hrest⟩
  · simp [Blank]
  · simp [Blank]

end Config

end Backtrack
