import Backtrack.Proofs.Search.Passing
import Backtrack.Proofs.Stream.Refinement

/-! Looking ahead is pure. It reads further and takes back what it has read, so it leaves a source that has decoded
more, and nothing else. Where the window lets everything be taken back and the reader does not fail, a program into
which lookaheads are inserted cannot be told from the program itself, but for the ranges that it is given out of what
only the lookaheads have read. -/

namespace Backtrack.Stream

/-- Results with values related by `R`, or with the same error. -/
inductive Agrees {ε α β : Type} (R : α → β → Prop) : Except ε α → Except ε β → Prop
  | ok {a : α} {b : β} (h : R a b) : Agrees R (.ok a) (.ok b)
  | error (reason : ε) : Agrees R (.error reason) (.error reason)

/-- `a` is the result of `range start stop` on `source`, and `b` its result on a source that may retain more: they are
equal, or `source` has bytes left to decode and rejects the range, and `b` gives it out or rejects it with a larger
number of characters retained. -/
def CutsAlike (source : Source) (start stop : Nat) (a b : Except Stop String) : Prop :=
  a = b ∨ source.decoder.remaining ≠ [] ∧ a = .error (.fault (.rangeOutOfBounds start stop source.retained)) ∧
    (b = .ok (String.ofList ((source.text.drop start).take (stop - start))) ∨
      ∃ more, source.retained < more ∧ b = .error (.fault (.rangeOutOfBounds start stop more)))

/-- `Laced origin R x y s journal`: carried out from `s` and `journal`, `y` is `x` with calls of `lookahead` inserted,
and `R` relates their results. `same`: a program on the terms `Terms.passed origin` stays as it is. `look`: a
`lookahead` is inserted, which does not bring the cursor beyond `counterLimit`. `cut`: any `substring`, if its result is
captured; `CutsAlike` relates what is captured. `bind` judges the second part in the states to which `x` leads. -/
inductive Laced (origin : Source) :
    {α β : Type} → (α → β → Prop) → Action Stream α → Action Stream β → Stream → Journal → Prop
  | same {s : Stream} {journal : Journal} {α : Type} {x : Action Stream α} (hx : Uses (.passed origin) x s journal) :
      Laced origin Eq x x s journal
  | look {s : Stream} {journal : Journal} {i : Nat} (hroom : s.source.cursor + i ≤ counterLimit) :
      Laced origin (fun _ _ => True) (Pure.pure ()) (lookahead i) s journal
  | cut {s : Stream} {journal : Journal} (start stop : Nat) :
      Laced origin (CutsAlike s.source start stop) (substring start stop).capture (substring start stop).capture s
        journal
  | pure {s : Stream} {journal : Journal} {α β : Type} {R : α → β → Prop} {a : α} {b : β} (h : R a b) :
      Laced origin R (Pure.pure a) (Pure.pure b) s journal
  | stop {s : Stream} {journal : Journal} {α β : Type} {R : α → β → Prop} (reason : Stop) :
      Laced origin R (Action.stop reason) (Action.stop reason) s journal
  | bind {s : Stream} {journal : Journal} {α β γ δ : Type} {R : α → β → Prop} {S : γ → δ → Prop} {x : Action Stream α}
      {y : Action Stream β} {f : α → Action Stream γ} {g : β → Action Stream δ} (hx : Laced origin R x y s journal)
      (hf : ∀ a b, (x s journal).result = .ok a → R a b →
        Laced origin S (f a) (g b) (x s journal).state (x s journal).journal) :
      Laced origin S (x >>= f) (y >>= g) s journal
  | capture {s : Stream} {journal : Journal} {α β : Type} {R : α → β → Prop} {x : Action Stream α} {y : Action Stream β}
      (hx : Laced origin R x y s journal) : Laced origin (Agrees R) x.capture y.capture s journal

namespace Laced

variable {origin : Source} {s : Stream} {journal : Journal} {α β : Type} {R : α → β → Prop}

/-- The relation between the results may be weakened. -/
theorem mono {S : α → β → Prop} {x : Action Stream α} {y : Action Stream β} (h : Laced origin R x y s journal)
    (himp : ∀ a b, R a b → S a b) : Laced origin S x y s journal := by
  have hpure : ∀ {γ : Type} (z : Action Stream γ), (z >>= fun c => Pure.pure c) = z := by
    intro γ z
    funext s journal
    rw [Action.bind_apply, Action.bind]
    generalize z s journal = o
    obtain ⟨result, after, between⟩ := o
    cases result <;> rfl
  have hanswers : Laced origin S (x >>= fun a => Pure.pure a) (y >>= fun b => Pure.pure b) s journal :=
    h.bind fun a b _ hR => .pure (himp a b hR)
  rwa [hpure, hpure] at hanswers

/-- A `lookahead` is inserted before an action. -/
theorem ahead {x : Action Stream α} {y : Action Stream β} {i : Nat} (hroom : s.source.cursor + i ≤ counterLimit)
    (h : Laced origin R x y s journal) : Laced origin R x (lookahead i >>= fun _ => y) s journal :=
  (Laced.look hroom).bind fun _ _ _ _ => h

theorem attempt {x : Action Stream α} {y : Action Stream β} (h : Laced origin R x y s journal) :
    Laced origin (Agrees R) x.attempt y.attempt s journal := by
  rw [Action.attempt_eq_capture, Action.attempt_eq_capture]
  refine h.capture.bind fun a b _ hab => ?_
  cases hab with
  | ok hR => exact .pure (.ok hR)
  | error reason =>
      cases reason with
      | fault f => exact .pure (.error f)
      | breach b => exact .stop (.breach b)

/-- Calls of `lookahead` may be inserted into the body of `speculate`. -/
theorem speculate {x : Action Stream (Option α)} {y : Action Stream (Option β)}
    (hbody : ∀ m marked between, mark s journal = ⟨.ok m, marked, between⟩ →
      Laced origin (Option.Rel R) x y marked between) :
    Laced origin (Option.Rel R) (speculate x) (speculate y) s journal := by
  refine (Laced.same .mark).bind fun m _ hm heq => ?_
  subst heq
  refine (hbody m _ _ (by rw [← hm])).attempt.bind fun a b _ hab => ?_
  cases hab with
  | error f => exact (Laced.same (.release m)).bind fun _ _ _ _ => .stop (.fault f)
  | ok hrel =>
      cases hrel with
      | some hR => exact (Laced.same (.release m)).bind fun _ _ _ _ => .pure (.some hR)
      | none =>
          refine (Laced.same (Uses.rewindTo m).attempt).bind fun back _ _ heq => ?_
          subst heq
          cases back with
          | ok => exact .pure .none
          | error f => exact (Laced.same (.release m)).bind fun _ _ _ _ => .stop (.fault f)

end Laced

/-! ### The program and the one with lookaheads side by side -/

/-- Sources without a window that are `Alike`: at the same place of the same text, the second one retaining as much or
more. -/
structure Fuller (s : Source) (_ : Journal) (t : Source) (_ : Journal) : Prop where
  alike : s.Alike t
  window : s.history.window = none

theorem coupling_fuller : Coupling Fuller fun _ => True := by
  refine ⟨fun h => h.alike.cursor, fun s journal => ⟨id, fun t journal' h _ => ?_⟩,
    fun count s journal => ⟨id, fun t journal' h _ => ?_⟩, id, fun _ h => ⟨h.alike, h.window⟩⟩
  · obtain ⟨hresult, hafter⟩ := h.alike.read journal journal'
    exact ⟨hresult, hafter, (s.read_evolves journal).window.trans h.window⟩
  · obtain ⟨hresult, hafter⟩ := h.alike.backup count journal journal'
    exact ⟨hresult, hafter, (s.backup_takesBack count journal).evolves.window.trans h.window⟩

variable {origin : Source} {s t : Stream} {journal journal' : Journal} {α β : Type}

/-- An inserted `lookahead` has a value and leaves a stream with the same `face`. -/
theorem lookahead_beside (h : Beside Fuller s journal t journal') {i : Nat}
    (hroom : s.source.cursor + i ≤ counterLimit) :
    (∃ symbol, (lookahead i t journal').result = .ok symbol) ∧
      Beside Fuller s journal (lookahead i t journal').state (lookahead i t journal').journal := by
  have halike := h.source.alike
  rcases Nat.eq_zero_or_pos i with rfl | hi
  · exact ⟨⟨none, rfl⟩, h⟩
  · have hsees := lookahead_sees halike.valid' halike.reliable' hi journal'
    generalize lookahead i t journal' = o at hsees ⊢
    have hfull : ¬o.IsFull := fun hfull => by
      have hfar := hsees.full hfull
      rw [← halike.cursor] at hfar
      omega
    obtain ⟨result, after, between⟩ := o
    cases hsees.ends hfull with
    | seen hleads hcursor =>
        exact ⟨⟨_, rfl⟩, h.name, h.position, h.marks, h.caseFold, halike.of_leads hleads hcursor, h.source.window⟩
    | refused _ hwindow =>
        rw [← halike.window, h.source.window] at hwindow
        cases hwindow

theorem cutsAlike_of_alike {source source' : Source} (h : source.Alike source') (start stop : Nat) :
    CutsAlike source start stop ((source.range start stop).mapError Stop.fault)
      ((source'.range start stop).mapError Stop.fault) := by
  rw [Source.range_eq, Source.range_eq, ← h.text]
  have hgrown := h.retained
  by_cases hown : start ≤ stop ∧ stop ≤ source.retained
  · rw [if_pos hown, if_pos ⟨hown.1, hown.2.trans hgrown⟩]
    exact .inl rfl
  rw [if_neg hown]
  rcases Nat.eq_or_lt_of_le hgrown with hsame | hlt
  · rw [← hsame, if_neg hown]
    exact .inl rfl
  · refine .inr ⟨fun hempty => hlt.ne (h.retained_eq hempty), rfl, ?_⟩
    by_cases hmore : start ≤ stop ∧ stop ≤ source'.retained
    · rw [if_pos hmore]
      exact .inl rfl
    · rw [if_neg hmore]
      exact .inr ⟨_, hlt, rfl⟩

/-- The program and the one with lookaheads inserted answer alike, and leave streams that show the same. -/
theorem Laced.beside {R : α → β → Prop} {x : Action Stream α} {y : Action Stream β} (hvalid : origin.Valid)
    (h : Laced origin R x y s journal) (hbeside : Beside Fuller s journal t journal') :
    Agrees R (x s journal).result (y t journal').result ∧
      Beside Fuller (x s journal).state (x s journal).journal (y t journal').state (y t journal').journal := by
  induction h generalizing t journal' with
  | @same s journal α x hx =>
      have hstep : Action.InStep (Beside Fuller) (fun _ => True) x s journal := by
        refine hx.inStep coupling_fuller ?_
        rintro s start stop ⟨hle, hpassed⟩ journal t journal' hfuller
        exact hfuller.alike.range hle (hpassed.retained hvalid)
      obtain ⟨hresult, hafter⟩ := hstep.beside t journal' hbeside trivial
      refine ⟨?_, hafter⟩
      rw [← hresult]
      cases (x s journal).result with
      | ok a => exact .ok rfl
      | error reason => exact .error reason
  | look hroom =>
      obtain ⟨⟨symbol, hsymbol⟩, hafter⟩ := lookahead_beside hbeside hroom
      refine ⟨?_, hafter⟩
      rw [hsymbol]
      exact .ok trivial
  | cut start stop =>
      refine ⟨.ok ?_, ?_⟩
      · rw [substring_eq, substring_eq]
        exact cutsAlike_of_alike hbeside.source.alike start stop
      · show Beside Fuller (substring start stop _ _).state (substring start stop _ _).journal
          (substring start stop _ _).state (substring start stop _ _).journal
        rw [substring_eq, substring_eq]
        exact hbeside
  | pure hR => exact ⟨.ok hR, hbeside⟩
  | stop reason => exact ⟨.error reason, hbeside⟩
  | @bind s journal α β γ δ R S x y f g hx hf ihx ihf =>
      obtain ⟨hresult, hmid⟩ := ihx hbeside
      rw [Action.bind_apply, Action.bind_apply, Action.bind, Action.bind]
      generalize x s journal = o at hresult hmid hf ihf ⊢
      generalize y t journal' = o' at hresult hmid ⊢
      obtain ⟨result, mid, between⟩ := o
      obtain ⟨result', mid', between'⟩ := o'
      cases hresult with
      | ok hR => exact ihf _ _ rfl hR hmid
      | error reason => exact ⟨.error reason, hmid⟩
  | capture hx ihx =>
      obtain ⟨hresult, hafter⟩ := ihx hbeside
      exact ⟨.ok hresult, hafter⟩

/-- `lookahead` is pure. Let a program have reached `s`, over a text or a reliable reader and without a window. If the
cursor is at the index and `i` symbols do not bring it beyond `counterLimit`, then `lookahead i` for a positive `i`
answers with symbol number `s.index + (i - 1)` of the text, as `Symbol.seen` folds it, and leaves the same `face`. If
`y` is `x` with calls of `lookahead` inserted, `Laced s.source R x y`, then their results agree in `R`, both end with
the same `face`, and the source of `y` retains as much as that of `x` or more. -/
theorem lookahead_pure {text : List Char} (hs : s.Reached text) (hreliable : s.source.Reliable)
    (hwindow : s.source.history.window = none) (journal : Journal) :
    (∀ i, 0 < i → s.source.cursor = s.index → s.source.cursor + i ≤ counterLimit →
      let o := lookahead i s journal
      o.result = .ok (some ((Symbol.ofText text (s.index + (i - 1))).seen s.caseFold)) ∧ o.state.face = s.face) ∧
    ∀ {α β : Type} {R : α → β → Prop} {x : Action Stream α} {y : Action Stream β}, Laced s.source R x y s journal →
      let o := x s journal
      let o' := y s journal
      Agrees R o.result o'.result ∧ o.state.face = o'.state.face ∧
        o.state.source.retained ≤ o'.state.source.retained := by
  have hvalid := hs.valid
  refine ⟨fun i hi hcursor hroom => ?_, fun h => ?_⟩
  · have hsees := lookahead_sees hvalid.source hreliable hi journal
    generalize lookahead i s journal = o at hsees ⊢
    have hfull : ¬o.IsFull := fun hfull => absurd hroom (Nat.not_le.mpr (hsees.full hfull))
    obtain ⟨result, after, between⟩ := o
    cases hsees.ends hfull with
    | seen hleads hstay =>
        refine ⟨?_, ?_⟩
        · dsimp only
          rw [hvalid.text_eq, hcursor]
        · simp only [face, hstay]
    | refused _ hown =>
        rw [hwindow] at hown
        cases hown
  · have hbeside : Beside Fuller s journal s journal := ⟨rfl, rfl, rfl, rfl, .refl hvalid.source hreliable, hwindow⟩
    obtain ⟨hresult, hafter⟩ := h.beside hvalid.source hbeside
    exact ⟨hresult, hafter.face hafter.source.alike.cursor, hafter.source.alike.retained⟩

/-- `lookahead` inserted into the body of `speculate` and behind it, over a reader that is pulled byte by byte:
`speculate` has the same result, and `substring 0 3`, rejected without the insertions, gives out the range. -/
theorem lookahead_pure_inserted :
    let s := ofSource (.ofReader ⟨[.bytes [0x61, 0x62, 0x63]], .finished⟩ none 1) "in" false
    let body : Action Stream (Option Position) :=
      advance >>= fun _ => query (fun s => s.face.position) >>= fun p => pure (some p)
    let x := speculate body >>= fun passed => (substring 0 3).capture >>= fun cut => pure (passed, cut)
    let y := speculate (lookahead 2 >>= fun _ => body) >>= fun passed => lookahead 2 >>= fun _ =>
      (substring 0 3).capture >>= fun cut => pure (passed, cut)
    Agrees (fun a b => a.1 = b.1 ∧ ∃ source, CutsAlike source 0 3 a.2 b.2) (x s #[]).result (y s #[]).result ∧
      (x s #[]).result = .ok (some ⟨1, 1, 1⟩, .error (.fault (.rangeOutOfBounds 0 3 1))) ∧
      (y s #[]).result = .ok (some ⟨1, 1, 1⟩, .ok "abc") := by
  intro s body x y
  have hfresh : s.IsFresh ['a', 'b', 'c'] := by
    refine ⟨.inr ⟨⟨[.bytes [0x61, 0x62, 0x63]], .finished⟩, none, 1, rfl, ?_⟩, rfl, 0, rfl⟩
    exact (Utf8.decode_encode ['a', 'b', 'c']).symm
  have idle : Uses .free (pure () : Action Stream Unit) s #[] := .pure ()
  have hs : s.Reached ['a', 'b', 'c'] := idle.reached hfresh trivial
  have hbody : ∀ marked between, Uses (.passed s.source) body marked between := fun _ _ =>
    Uses.advance.bind fun _ _ => (Uses.query fun face => face.position).bind fun _ _ => .pure _
  have hattempt : Laced s.source (Option.Rel Eq) (speculate body) (speculate (lookahead 2 >>= fun _ => body)) s
      #[] := by
    refine Laced.speculate fun m marked between hmark => ?_
    have hcursor : marked.source.cursor = 0 := by
      rw [show marked = (mark s #[]).state by rw [hmark]]
      decide +kernel
    refine .ahead (by rw [hcursor]; decide) ((Laced.same (hbody marked between)).mono ?_)
    rintro a _ rfl
    cases a with
    | none => exact .none
    | some p => exact .some rfl
  have hroom : (speculate body s #[]).state.source.cursor + 2 ≤ counterLimit := by decide +kernel
  have hlaced : Laced s.source (fun a b => a.1 = b.1 ∧ ∃ source, CutsAlike source 0 3 a.2 b.2) x y s #[] := by
    refine hattempt.bind fun a b _ hab => .ahead hroom ((Laced.cut 0 3).bind fun c d _ hcd => .pure ⟨?_, _, hcd⟩)
    cases hab with
    | some heq => exact congrArg some heq
    | none => rfl
  obtain ⟨-, hinserted⟩ := lookahead_pure hs ⟨rfl, rfl⟩ rfl #[]
  exact ⟨(hinserted hlaced).1, by decide +kernel, by decide +kernel⟩

end Backtrack.Stream
