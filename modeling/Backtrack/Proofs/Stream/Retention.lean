import Backtrack.Proofs.Source.Retention
import Backtrack.Proofs.Stream.Clients
import Backtrack.Proofs.Stream.Parts

/-! What a stream makes its source retain. A program on a stream is made of reads and backups of the source and of what
leaves the source alone, and the highest cursor that it comes to can be told from these. With a reader, all that the
cursor has passed there is retained and nothing else; a text is retained from the start. Either way it stays, and ranges
of it can be cut out at any time. -/

namespace Backtrack

open Source (Climbs highest)

namespace Stream

variable {α β : Type} {s mid : Stream} {journal between : Journal} {terms : Terms}

/-! ### The highest cursor of a program -/

/-- `x` neither uses nor changes the source: over any other source it has the same result and leaves that source in
place. -/
def Spares (x : Action Stream α) : Prop :=
  ∀ s journal source, x { s with source := source } journal =
    ⟨(x s journal).result, { (x s journal).state with source := source }, (x s journal).journal⟩

/-- The highest cursor that the source of a stream comes to while a program is carried out. A program is taken apart
down to reads and backups of the source, answers, which change nothing, and what spares the source. -/
inductive Tops : {α : Type} → Action Stream α → Stream → Journal → Nat → Prop
  | read {s : Stream} {journal : Journal} :
      Tops (onSource Source.read) s journal (max s.source.cursor (s.source.read journal).state.cursor)
  | backup {s : Stream} {journal : Journal} (count : Nat) :
      Tops (onSource (Source.backup count)) s journal s.source.cursor
  | answer {s : Stream} {journal : Journal} {α : Type} (f : Stream → Except Stop α) :
      Tops (fun s journal => ⟨f s, s, journal⟩) s journal s.source.cursor
  | spare {s : Stream} {journal : Journal} {α : Type} {x : Action Stream α} (h : Spares x) :
      Tops x s journal s.source.cursor
  | bind {s mid : Stream} {journal between : Journal} {α β : Type} {x : Action Stream α} {f : α → Action Stream β}
      {a : α} {top top' : Nat} (hx : Tops x s journal top) (h : x s journal = ⟨.ok a, mid, between⟩)
      (hf : Tops (f a) mid between top') : Tops (x >>= f) s journal (max top top')
  | stopped {s mid : Stream} {journal between : Journal} {α β : Type} {x : Action Stream α}
      {f : α → Action Stream β} {reason : Stop} {top : Nat} (hx : Tops x s journal top)
      (h : x s journal = ⟨.error reason, mid, between⟩) : Tops (x >>= f) s journal top
  | capture {s : Stream} {journal : Journal} {α : Type} {x : Action Stream α} {top : Nat}
      (hx : Tops x s journal top) : Tops x.capture s journal top

theorem Spares.source {x : Action Stream α} (h : Spares x) (s : Stream) (journal : Journal) :
    (x s journal).state.source = s.source :=
  congrArg (fun o => o.state.source) (h s journal s.source)

/-- A program takes its source to where its highest cursor is on the way. -/
theorem Tops.climbs {x : Action Stream α} {top : Nat} (hx : Tops x s journal top) {origin : Source} {before : Nat}
    (h : Climbs origin before s.source) : Climbs origin (max before top) (x s journal).state.source := by
  induction hx generalizing before with
  | @read s journal =>
      have hread := h.read journal
      have hle := h.cursor_le
      rwa [← Nat.max_assoc, Nat.max_eq_left hle]
  | @backup s journal count =>
      rw [Nat.max_eq_left h.cursor_le]
      exact h.backup count journal
  | answer f => rwa [Nat.max_eq_left h.cursor_le]
  | spare hspares => rwa [Nat.max_eq_left h.cursor_le, hspares.source]
  | bind hx heq hf ihx ihf =>
      have hmid := ihx h
      rw [heq] at hmid
      rw [Action.bind_of_ok heq, ← Nat.max_assoc]
      exact ihf hmid
  | stopped hx heq ih =>
      have hmid := ih h
      rw [heq] at hmid
      rwa [Action.bind_of_error heq]
  | capture hx ih => exact ih h

/-! ### Operations -/

theorem tops_bind {x : Action Stream α} {f : α → Action Stream β} (hx : ∃ top, Tops x s journal top)
    (hf : ∀ a, (x s journal).result = .ok a →
      ∃ top, Tops (f a) (x s journal).state (x s journal).journal top) :
    ∃ top, Tops (x >>= f) s journal top := by
  obtain ⟨top, hx⟩ := hx
  generalize ho : x s journal = o at hf
  obtain ⟨result, mid, between⟩ := o
  cases result with
  | ok a =>
      obtain ⟨top', ha⟩ := hf a rfl
      exact ⟨_, .bind hx ho ha⟩
  | error reason => exact ⟨top, .stopped hx ho⟩

theorem tops_pure (a : α) : ∃ top, Tops (pure a) s journal top :=
  ⟨_, .answer fun _ => .ok a⟩

theorem tops_stop (reason : Stop) : ∃ top, Tops (Action.stop reason : Action Stream α) s journal top :=
  ⟨_, .answer fun _ => .error reason⟩

theorem tops_query (f : Stream → α) : ∃ top, Tops (query f) s journal top :=
  ⟨_, .answer fun s => .ok (f s)⟩

theorem tops_capture {x : Action Stream α} (hx : ∃ top, Tops x s journal top) :
    ∃ top, Tops x.capture s journal top := by
  obtain ⟨top, hx⟩ := hx
  exact ⟨top, hx.capture⟩

theorem tops_attempt {x : Action Stream α} (hx : ∃ top, Tops x s journal top) :
    ∃ top, Tops x.attempt s journal top := by
  rw [Action.attempt_eq_capture]
  apply tops_bind (tops_capture hx)
  intro result _
  match result with
  | .ok a => exact tops_pure _
  | .error (.fault f) => exact tops_pure _
  | .error (.breach b) => exact tops_stop _

theorem Composed.tops {x : Action Stream α} (hx : Composed x) : ∃ top, Tops x s journal top := by
  induction hx generalizing s journal with
  | read => exact ⟨_, .read⟩
  | backup count => exact ⟨_, .backup count⟩
  | onMarks h => exact ⟨_, .spare fun _ _ _ => rfl⟩
  | pass symbol =>
      refine ⟨_, .spare fun s journal source => ?_⟩
      rw [pass_eq, pass_eq]
  | setPosition f => exact ⟨_, .spare fun _ _ _ => rfl⟩
  | look f => exact tops_query _
  | emit e => exact ⟨_, .spare fun _ _ _ => rfl⟩
  | pure a => exact tops_pure a
  | stop reason => exact tops_stop reason
  | bind hx hf ihx ihf => exact tops_bind ihx fun a _ => ihf a
  | capture hx ih => exact tops_capture ih

theorem tops_lookahead (i : Nat) : ∃ top, Tops (lookahead i) s journal top := by
  unfold lookahead
  by_cases hi : i = 0
  · rw [if_pos hi]
    exact tops_pure none
  · rw [if_neg hi]
    apply tops_bind (Composed.readOn 0 .eof i).tops
    intro symbol _
    apply tops_bind (Composed.backup i).tops
    intro _ _
    exact tops_bind (tops_query _) fun _ _ => tops_pure _

theorem tops_substring (start stop : Nat) : ∃ top, Tops (substring start stop) s journal top := by
  have hsubstring : substring start stop = fun s journal =>
      ⟨(s.source.range start stop).mapError Stop.fault, s, journal⟩ := by
    funext s journal
    exact substring_eq start stop s journal
  rw [hsubstring]
  exact ⟨_, .answer fun s => (s.source.range start stop).mapError Stop.fault⟩

/-- Every program has a highest cursor. -/
theorem Uses.tops {x : Action Stream α} (hx : Uses terms x s journal) : ∃ top, Tops x s journal top := by
  induction hx with
  | advance => exact Composed.advance.tops
  | @lookahead s journal i => exact tops_lookahead i
  | seek target => exact (Composed.seek target).tops
  | setLine line => exact ⟨_, .spare fun _ _ _ => rfl⟩
  | setColumn column => exact ⟨_, .spare fun _ _ _ => rfl⟩
  | mark => exact Composed.mark.tops
  | release m => exact (Composed.release m).tops
  | rewindTo m => exact (Composed.rewindTo m).tops
  | @substring s journal start stop => exact tops_substring start stop
  | query f => exact tops_query fun s => f s.face
  | report => exact ⟨_, .spare fun _ _ _ => rfl⟩
  | pure a => exact tops_pure a
  | stop => exact tops_stop _
  | bind hx hf ihx ihf => exact tops_bind ihx ihf
  | attempt hx ih => exact tops_attempt ih
  | capture hx hterms ih => exact tops_capture ih

/-! ### What is retained -/

/-- What is retained. Commands on a source and programs on a stream over it have a highest cursor, and `Source.Holds` of
it: a reader has decoded up to there and no further, a text is all there, and `range` cuts out of that. Whatever comes
afterwards, `Source.Persists`: what is retained only grows, and a range that has been given out stays the same. Ranges
that meet make one range, and `substring` is `range` on the source of the stream. -/
theorem retention {text : List Char} {stream : Stream} (hfresh : stream.IsFresh text)
    (hfixed : stream.source.decoder.reader.ending.IsFixed) :
    (∀ commands, Source.Holds text stream.source (highest (Source.run stream.source commands))
      (stream.source.after commands)) ∧
    (∀ {α : Type} {x : Action Stream α} {journal : Journal}, Uses .free x stream journal →
      (∃ top, Tops x stream journal top) ∧
        ∀ top, Tops x stream journal top → Source.Holds text stream.source top (x stream journal).state.source) ∧
    (∀ (s : Source) (commands : List Source.Command), s.Persists (s.after commands)) ∧
    (∀ {α : Type} {x : Action Stream α} {s : Stream} {journal : Journal}, Uses .free x s journal →
      s.source.Persists (x s journal).state.source) ∧
    (∀ (s : Source) (start middle stop : Nat) (left right : String), s.range start middle = .ok left →
      s.range middle stop = .ok right → s.range start stop = .ok (left ++ right)) ∧
    ∀ (s : Stream) (journal : Journal) (start stop : Nat),
      substring start stop s journal = ⟨(s.source.range start stop).mapError Stop.fault, s, journal⟩ := by
  have hvalid := hfresh.valid_source hfixed
  have hstart : Climbs stream.source 0 stream.source := hfresh.cursor ▸ Climbs.refl
  refine ⟨fun commands => ?_, fun hx => ⟨hx.tops, fun top htop => ?_⟩, fun s commands => ?_, fun hx => ?_, ?_, ?_⟩
  · have hclimbs := Source.after_climbs commands hstart
    rw [Nat.zero_max] at hclimbs
    exact hclimbs.holds hvalid hfresh.text_eq
  · have hclimbs := htop.climbs hstart
    rw [Nat.zero_max] at hclimbs
    exact hclimbs.holds hvalid hfresh.text_eq
  · exact (Source.after_climbs commands .refl).leads.persists
  · obtain ⟨top, htop⟩ := hx.tops
    exact (htop.climbs .refl).leads.persists
  · exact fun s start middle stop left right hleft hright => Source.range_append hleft hright
  · exact fun s journal start stop => substring_eq start stop s journal

/-- A failure in the middle of a character, which is then read and taken back: both characters are retained, and the
third one is not decoded. -/
theorem retention_interrupted :
    let reader : Reader := ⟨[.bytes [0x61, 0xC3], .failure "late", .bytes [0xA9, 0x62]], .finished⟩
    let stream := ofSource (.ofReader reader (some 1) 1) "in" false
    let s := stream.source.after [.read, .read, .read, .backup 1]
    s.cursor = 1 ∧ s.retained = 2 ∧ s.range 0 2 = .ok (String.ofList ['a', '\u00e9']) := by
  intro reader stream s
  have hfresh : stream.IsFresh ['a', '\u00e9', 'b'] :=
    ⟨.inr ⟨reader, some 1, 1, rfl, by decide +kernel⟩, rfl, 0, rfl⟩
  have hhighest : highest (Source.run stream.source [.read, .read, .read, .backup 1]) = 2 := by decide +kernel
  have hholds := (retention hfresh trivial).1 [.read, .read, .read, .backup 1]
  rw [hhighest] at hholds
  have hretained : s.retained = 2 := hholds.reader reader (some 1) 1 rfl (.inl (by decide))
  refine ⟨by decide +kernel, hretained, ?_⟩
  rw [hholds.range 0 2, if_pos ⟨Nat.zero_le 2, hretained.ge⟩]
  rfl

end Stream

end Backtrack
