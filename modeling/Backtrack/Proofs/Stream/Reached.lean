import Backtrack.Proofs.Source.Rereading
import Backtrack.Proofs.Stream.Drift

/-! Streams in use. Whatever a program has done with a stream, and whatever had been read from its source before the
stream was created, what its source is the source of can be told, and its marks are in order. -/

namespace Backtrack.Stream

variable {text : List Char} {s : Stream}

/-- A program on the terms `Terms.free`, carried out on the stream `created`, has ended in `s`. That stream had no marks
and stood at the start; its source came of a fresh `source` of the text, which may have been read and taken back. -/
def Reached (text : List Char) (s : Stream) : Prop :=
  ∃ (α : Type) (x : Action Stream α) (created : Stream) (start : Journal) (source : Source),
    { created with source := source }.IsFresh text ∧ source.decoder.reader.ending.IsFixed ∧
      source.Leads created.source ∧ Uses .free x created start ∧ (x created start).state = s

/-- The source of `s` is `Valid` and has the text, the marks are in order, and the cursor is not behind the index nor
beyond its limit. -/
structure Valid (text : List Char) (s : Stream) : Prop where
  source : s.source.Valid
  text_eq : s.source.text = text
  marks : s.marks.Valid
  ahead : s.index ≤ s.source.cursor
  limit : s.source.cursor ≤ counterLimit

theorem Reached.valid (h : s.Reached text) : s.Valid text := by
  obtain ⟨α, x, created, start, source, hfresh, hfixed, hleads, hx, rfl⟩ := h
  have hindex : created.index = 0 := hfresh.index
  have hmarks : created.marks.Valid := hfresh.valid_marks
  have hahead : created.index ≤ created.source.cursor := hindex ▸ Nat.zero_le _
  obtain ⟨distance, hstrays, -⟩ := hx.strays hmarks hahead
  have hall := hleads.trans hstrays.leads
  have hsame := hall.evolves.same (hfresh.valid_source hfixed)
  refine ⟨hsame.valid, hsame.text.trans hfresh.text_eq, hstrays.marks hmarks, hstrays.ahead hahead, ?_⟩
  exact hall.cursor_le (hfresh.cursor.trans_le (Nat.zero_le _))

/-- A program leads from a fresh stream to one that is reached. -/
theorem Uses.reached {α : Type} {x : Action Stream α} {journal : Journal} (hx : Uses .free x s journal)
    (hfresh : s.IsFresh text) (hfixed : s.source.decoder.reader.ending.IsFixed) :
    (x s journal).state.Reached text :=
  ⟨α, x, s, journal, s.source, hfresh, hfixed, .refl, hx, rfl⟩

end Backtrack.Stream
