import Backtrack.Proofs.Stream.Operations
import Backtrack.Proofs.Stream.Parts

/-! Two streams side by side. The same program is carried out on two streams that show the same and whose
sources are alike in some way. If reads and backups of the sources have the same results and leave the sources
alike, then whatever the program is told is the same on both sides, so it does the same on both sides. That
may hold up to a point only; the journal says whether it has been passed. -/

namespace Backtrack

namespace Action

variable {σ α β : Type} {R : σ → Journal → σ → Journal → Prop} {Calm : Journal → Prop}
  {x : Action σ α} {s : σ} {journal : Journal}

/-- If the journal that `x` leaves is `Calm`, then from any state and journal that `R` relates to `s` and `journal`, `x`
has the same result, and `R` relates the states and journals at the end. A journal that is `Calm` then was so before. -/
structure InStep (R : σ → Journal → σ → Journal → Prop) (Calm : Journal → Prop) (x : Action σ α) (s : σ)
    (journal : Journal) : Prop where
  calm : Calm (x s journal).journal → Calm journal
  beside : ∀ t journal', R s journal t journal' → Calm (x s journal).journal →
    (x s journal).result = (x t journal').result ∧
      R (x s journal).state (x s journal).journal (x t journal').state (x t journal').journal

theorem inStep_pure (a : α) : InStep R Calm (pure a) s journal :=
  ⟨id, fun _ _ h _ => ⟨rfl, h⟩⟩

theorem inStep_stop (reason : Stop) : InStep R Calm (stop reason : Action σ α) s journal :=
  ⟨id, fun _ _ h _ => ⟨rfl, h⟩⟩

theorem InStep.bind {f : α → Action σ β} (hx : InStep R Calm x s journal)
    (hf : ∀ a, (x s journal).result = .ok a → InStep R Calm (f a) (x s journal).state (x s journal).journal) :
    InStep R Calm (x >>= f) s journal := by
  obtain ⟨hcalm, hbeside⟩ := hx
  have hbind : ∀ t journal, (x >>= f) t journal = Action.bind x f t journal := fun _ _ => rfl
  constructor
  · intro hafter
    rw [hbind, Action.bind] at hafter
    generalize x s journal = o at hf hcalm hafter
    obtain ⟨result, mid, between⟩ := o
    cases result with
    | ok a => exact hcalm ((hf a rfl).calm hafter)
    | error reason => exact hcalm hafter
  · intro t journal' h hafter
    have hfirst := hbeside t journal' h
    rw [hbind, hbind, Action.bind, Action.bind] at *
    generalize x s journal = o at hf hfirst hafter ⊢
    generalize x t journal' = o' at hfirst ⊢
    obtain ⟨result, mid, between⟩ := o
    obtain ⟨result', mid', between'⟩ := o'
    cases result with
    | ok a =>
        obtain ⟨hresult, hmid⟩ := hfirst ((hf a rfl).calm hafter)
        dsimp only at hresult
        subst hresult
        exact (hf a rfl).beside mid' between' hmid hafter
    | error reason =>
        obtain ⟨hresult, hmid⟩ := hfirst hafter
        dsimp only at hresult
        subst hresult
        exact ⟨rfl, hmid⟩

theorem InStep.capture (hx : InStep R Calm x s journal) : InStep R Calm x.capture s journal :=
  ⟨hx.calm, fun t journal' h hafter => (hx.beside t journal' h hafter).imp_left (congrArg Except.ok)⟩

theorem InStep.attempt (hx : InStep R Calm x s journal) : InStep R Calm x.attempt s journal := by
  rw [attempt_eq_capture]
  refine hx.capture.bind fun result _ => ?_
  match result with
  | .ok a => exact inStep_pure _
  | .error (.fault f) => exact inStep_pure _
  | .error (.breach b) => exact inStep_stop _

end Action

namespace Stream

open Backtrack.Action (InStep)

/-- The streams show the same, and their sources are alike as `Q` says. -/
structure Beside (Q : Source → Journal → Source → Journal → Prop) (s : Stream) (journal : Journal) (t : Stream)
    (journal' : Journal) : Prop where
  name : s.name = t.name
  position : s.position = t.position
  marks : s.marks = t.marks
  caseFold : s.caseFold = t.caseFold
  source : Q s.source journal t.source journal'

theorem Beside.face {Q : Source → Journal → Source → Journal → Prop} {s t : Stream} {journal journal' : Journal}
    (h : Beside Q s journal t journal') (hcursor : s.source.cursor = t.source.cursor) : s.face = t.face := by
  simp only [Stream.face, h.name, h.position, h.marks, h.caseFold, hcursor]

/-- Sources related by `Q` have the same cursor, `Source.read` and `Source.backup` are `InStep` on them, and what is
pushed on both journals does not part them. -/
structure Coupling (Q : Source → Journal → Source → Journal → Prop) (Calm : Journal → Prop) : Prop where
  cursor : ∀ {s t : Source} {journal journal' : Journal}, Q s journal t journal' → s.cursor = t.cursor
  read : ∀ (s : Source) (journal : Journal), InStep Q Calm Source.read s journal
  backup : ∀ (count : Nat) (s : Source) (journal : Journal), InStep Q Calm (Source.backup count) s journal
  calm : ∀ {journal : Journal} {e : Event}, Calm (journal.push e) → Calm journal
  push : ∀ {s t : Source} {journal journal' : Journal} (e : Event), Q s journal t journal' →
    Q s (journal.push e) t (journal'.push e)

variable {Q : Source → Journal → Source → Journal → Prop} {Calm : Journal → Prop} {α : Type} {s : Stream}
  {journal : Journal}

/-! ### What operations are made of -/

theorem inStep_onSource {x : Action Source α} (hx : InStep Q Calm x s.source journal) :
    InStep (Beside Q) Calm (onSource x) s journal := by
  refine ⟨hx.calm, fun t journal' h hafter => ?_⟩
  obtain ⟨hresult, hsource⟩ := hx.beside t.source journal' h.source hafter
  exact ⟨hresult, h.name, h.position, h.marks, h.caseFold, hsource⟩

/-- An action on the marks alone. -/
theorem inStep_onMarks {x : Action MarkStack α}
    (hx : ∀ marks journal, x marks journal = ⟨(x marks #[]).result, (x marks #[]).state, journal⟩) :
    InStep (Beside Q) Calm (onMarks x) s journal := by
  have hsame : ∀ t journal, onMarks x t journal =
      ⟨(x t.marks #[]).result, { t with marks := (x t.marks #[]).state }, journal⟩ := by
    intro t journal
    rw [onMarks_eq, hx]
  constructor
  · intro hafter
    rw [hsame] at hafter
    exact hafter
  · intro t journal' h _
    rw [hsame, hsame, ← h.marks]
    exact ⟨rfl, h.name, h.position, rfl, h.caseFold, h.source⟩

theorem inStep_setPosition (f : Position → Position) :
    InStep (Beside Q) Calm (Action.modify fun s => { s with position := f s.position }) s journal :=
  ⟨id, fun _ _ h _ => ⟨rfl, h.name, congrArg f h.position, h.marks, h.caseFold, h.source⟩⟩

theorem inStep_pass (symbol : Symbol) : InStep (Beside Q) Calm (pass symbol) s journal := by
  constructor
  · intro hafter
    rw [pass_eq] at hafter
    exact hafter
  · intro t journal' h _
    rw [pass_eq, pass_eq, ← h.position]
    exact ⟨rfl, h.name, rfl, h.marks, h.caseFold, h.source⟩

theorem inStep_substring {start stop : Nat}
    (hrange : ∀ {t journal'}, Q s.source journal t journal' → s.source.range start stop = t.range start stop) :
    InStep (Beside Q) Calm (substring start stop) s journal := by
  constructor
  · intro hafter
    rw [substring_eq] at hafter
    exact hafter
  · intro t journal' h _
    rw [substring_eq, substring_eq, hrange h.source]
    exact ⟨rfl, h⟩

namespace Coupling

variable (h : Coupling Q Calm)

include h

theorem emit (e : Event) : InStep (Beside Q) Calm (Action.emit e) s journal :=
  ⟨h.calm, fun _ _ hbeside _ =>
    ⟨rfl, hbeside.name, hbeside.position, hbeside.marks, hbeside.caseFold, h.push e hbeside.source⟩⟩

theorem query (f : Face → α) : InStep (Beside Q) Calm (query fun s => f s.face) s journal := by
  refine ⟨id, fun t journal' hbeside _ => ⟨?_, hbeside⟩⟩
  have hface : s.face = t.face := hbeside.face (h.cursor hbeside.source)
  exact congrArg (fun face => Except.ok (f face)) hface

/-! ### Actions of parts -/

theorem composed {x : Action Stream α} (hx : Composed x) : InStep (Beside Q) Calm x s journal := by
  induction hx generalizing s journal with
  | read => exact inStep_onSource (h.read _ _)
  | backup count => exact inStep_onSource (h.backup count _ _)
  | onMarks hx => exact inStep_onMarks hx
  | pass symbol => exact inStep_pass symbol
  | setPosition f => exact inStep_setPosition f
  | look f => exact h.query fun face => f face.position face.marks
  | emit e => exact h.emit e
  | pure a => exact Action.inStep_pure a
  | stop reason => exact Action.inStep_stop reason
  | bind hx hf ihx ihf => exact ihx.bind fun a _ => ihf a
  | capture hx ih => exact ih.capture

theorem lookahead (i : Nat) : InStep (Beside Q) Calm (lookahead i) s journal := by
  unfold Stream.lookahead
  split
  · exact Action.inStep_pure none
  · refine (h.composed (.readOn 0 .eof i)).bind fun symbol _ => (h.composed (.backup i)).bind fun _ _ => ?_
    exact (h.query fun face => face.caseFold).bind fun _ _ => Action.inStep_pure _

end Coupling

/-! ### Programs -/

/-- Programs do the same on both sides, if the ranges that they cut out are the same. -/
theorem Uses.inStep {terms : Terms} {x : Action Stream α} (h : Coupling Q Calm)
    (hrange : ∀ {s start stop}, terms.substring s start stop → ∀ {journal t journal'},
      Q s.source journal t journal' → s.source.range start stop = t.range start stop)
    (hx : Uses terms x s journal) : InStep (Beside Q) Calm x s journal := by
  induction hx with
  | advance => exact h.composed .advance
  | @lookahead s journal i => exact h.lookahead i
  | seek target => exact h.composed (.seek target)
  | setLine line => exact inStep_setPosition fun p => { p with line := line }
  | setColumn column => exact inStep_setPosition fun p => { p with column := column }
  | mark => exact h.composed .mark
  | release m => exact h.composed (.release m)
  | rewindTo m => exact h.composed (.rewindTo m)
  | substring hterms => exact inStep_substring (hrange hterms)
  | query f => exact h.query f
  | report => exact h.emit _
  | pure a => exact Action.inStep_pure a
  | stop => exact Action.inStep_stop _
  | bind hx hf ihx ihf => exact ihx.bind ihf
  | attempt hx ih => exact ih.attempt
  | capture hx hterms ih => exact ih.capture

end Stream

end Backtrack
