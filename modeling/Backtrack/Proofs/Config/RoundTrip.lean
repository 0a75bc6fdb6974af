import Backtrack.Proofs.Config.Spellings
import Backtrack.Proofs.Json.Writing

/-! Configurations are read back as they were written. The written document is one of the spellings of its
configuration, the one with every field. -/

namespace Backtrack

open Json (SpellsRecord SpellsOption)

theorem Log.Level.spells_write (level : Log.Level) : level.Spells level.write :=
  .text (Json.spells_writeText level.name.toList)

theorem StreamConfig.spells_write (indent : Nat) (c : StreamConfig) : c.Spells (c.write indent) := by
  refine Json.spells_writeRecord lawful.nodup indent (.cons ⟨rfl, ?_⟩ (.cons ⟨rfl, ?_⟩ (.cons ⟨rfl, ?_⟩ .nil)))
  · exact Json.spells_writeText c.sourceName.toList
  · exact Json.spells_writeFlag c.caseFold
  · exact Json.spells_writeNatural c.markCapacity

theorem SourceConfig.spells_write (indent : Nat) (c : SourceConfig) : c.Spells (c.write indent) := by
  refine Json.spells_writeRecord lawful.nodup indent (.cons ⟨rfl, ?_⟩ (.cons ⟨rfl, ?_⟩ .nil))
  · exact Json.spells_writeOption Json.spells_writeNatural c.backupWindow
  · exact Json.spells_writeNatural c.readChunkSize

theorem LogConfig.spells_write (indent : Nat) (c : LogConfig) : c.Spells (c.write indent) := by
  refine Json.spells_writeRecord lawful.nodup indent
    (.cons ⟨rfl, ?_⟩ (.cons ⟨rfl, ?_⟩ (.cons ⟨rfl, ?_⟩ (.cons ⟨rfl, ?_⟩ .nil))))
  · exact c.overall.spells_write
  · exact Json.spells_writeOption Log.Level.spells_write c.stream
  · exact Json.spells_writeOption Log.Level.spells_write c.source
  · exact Json.spells_writeOption Log.Level.spells_write c.cli

namespace Config

theorem spells_toJson (c : Config) : c.Spells c.toJson := by
  have hwrite : SpellsRecord keys default c c.write := by
    refine Json.spells_writeRecord lawful.nodup 0 (.cons ⟨rfl, ?_⟩ (.cons ⟨rfl, ?_⟩ (.cons ⟨rfl, ?_⟩ .nil)))
    · exact c.stream.spells_write 2
    · exact c.source.spells_write 2
    · exact c.log.spells_write 2
  refine ⟨[], c.write, [], Json.blank_nil, hwrite, Json.blank_nil, ?_⟩
  rw [toJson, String.toList_ofList, List.nil_append, List.append_nil]

/-- Every configuration is read back from its document, so no two are written alike. -/
theorem ofJson_toJson {c : Config} (hrange : c.InRange) :
    ofJson c.toJson = .ok c ∧ ∀ d : Config, d.InRange → d.toJson = c.toJson → d = c := by
  have hread : ∀ d : Config, d.InRange → ofJson d.toJson = .ok d := fun d h =>
    Json.document_of_takes (takes h) d.spells_toJson
  refine ⟨hread c hrange, fun d hd heq => ?_⟩
  have hok : (.ok d : Except Json.Rejection Config) = .ok c := by
    rw [← hread d hd, ← hread c hrange, heq]
  exact Except.ok.inj hok

/-- A name of quotes, backslashes, controls and a character beyond the first 65536, and the largest numbers; a
configuration that has another name for the same stream is written in another way. -/
theorem ofJson_toJson_extreme :
    let c : Config :=
      ⟨⟨"\"\\/\x00\x08\n\x1f\x7f🦀", true, counterLimit⟩, ⟨some counterLimit, 0⟩, ⟨.error, none, some .trace, none⟩⟩
    let d : Config := ⟨⟨"\\\"/\x00\x08\n\x1f\x7f🦀", true, counterLimit⟩, c.source, c.log⟩
    c.InRange ∧ ofJson c.toJson = .ok c ∧ d.InRange ∧ d.toJson ≠ c.toJson := by
  intro c d
  have hrange : c.InRange ∧ d.InRange := by
    unfold InRange StreamConfig.InRange SourceConfig.InRange
    decide
  obtain ⟨hread, hinjective⟩ := ofJson_toJson hrange.1
  refine ⟨hrange.1, hread, hrange.2, fun heq => ?_⟩
  have hsame := hinjective d hrange.2 heq
  exact absurd hsame (by decide)

end Config

end Backtrack
