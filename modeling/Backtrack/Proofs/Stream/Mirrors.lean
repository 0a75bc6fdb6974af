import Backtrack.Proofs.Stream.Parts

/-! One action as the mirror image of another. An image of the states is given, and of the answers; the two actions do
the same up to it. What is put together of actions and their mirror images in the same way is mirrored again, so it
is enough to look at single actions. -/

namespace Backtrack.Action

variable {σ α β γ δ : Type} {P : σ → Prop} {F : σ → σ}

/-- `y` mirrors `x`: from a state with `P`, `x` ends in a state with `P`, and `y`, from the image of the first state
under `F`, ends in the image of the last one. It stops for the same reason as `x` or answers with the image under `f` of
its answer, and the journals are equal. -/
def Mirrors (P : σ → Prop) (F : σ → σ) (f : α → β) (x : Action σ α) (y : Action σ β) : Prop :=
  ∀ s journal, P s → P (x s journal).state ∧
    y (F s) journal = ⟨(x s journal).result.map f, F (x s journal).state, (x s journal).journal⟩

theorem mirrors_pure (f : α → β) (a : α) : Mirrors P F f (pure a) (pure (f a)) :=
  fun _ _ h => ⟨h, rfl⟩

theorem mirrors_stop (f : α → β) (reason : Stop) : Mirrors P F f (stop reason) (stop reason) :=
  fun _ _ h => ⟨h, rfl⟩

theorem mirrors_emit (e : Event) : Mirrors P F id (emit e) (emit e) :=
  fun _ _ h => ⟨h, rfl⟩

/-- An action that does not tell a state from its image. -/
theorem mirrors_of_eq {x : Action σ α} (hP : ∀ s journal, P s → P (x s journal).state)
    (h : ∀ s journal, P s →
      x (F s) journal = ⟨(x s journal).result, F (x s journal).state, (x s journal).journal⟩) :
    Mirrors P F id x x := by
  intro s journal hs
  refine ⟨hP s journal hs, ?_⟩
  rw [h s journal hs, Except.map_id]
  rfl

theorem Mirrors.bind {f : α → β} {g : γ → δ} {x : Action σ α} {y : Action σ β} {k : α → Action σ γ}
    {l : β → Action σ δ} (hx : Mirrors P F f x y) (hk : ∀ a, Mirrors P F g (k a) (l (f a))) :
    Mirrors P F g (x >>= k) (y >>= l) := by
  intro s journal hs
  obtain ⟨hP, hy⟩ := hx s journal hs
  rw [bind_apply, bind_apply, Action.bind, Action.bind, hy]
  generalize x s journal = o at hP ⊢
  obtain ⟨result, mid, between⟩ := o
  cases result with
  | ok a => exact hk a mid between hP
  | error reason => exact ⟨hP, rfl⟩

/-- Both answers are looked at in ways that agree. -/
theorem Mirrors.map {f : α → β} {x : Action σ α} {y : Action σ β} (hx : Mirrors P F f x y) {g : γ → δ} (u : α → γ)
    (v : β → δ) (h : ∀ a, v (f a) = g (u a)) : Mirrors P F g (u <$> x) (v <$> y) := by
  refine hx.bind (k := fun a => pure (u a)) (l := fun b => pure (v b)) fun a => ?_
  rw [h]
  exact mirrors_pure g (u a)

theorem Mirrors.capture {f : α → β} {x : Action σ α} {y : Action σ β} (hx : Mirrors P F f x y) :
    Mirrors P F (Except.map f) x.capture y.capture := by
  intro s journal hs
  obtain ⟨hP, hy⟩ := hx s journal hs
  refine ⟨hP, ?_⟩
  rw [Action.capture, hy]
  rfl

theorem Mirrors.attempt {f : α → β} {x : Action σ α} {y : Action σ β} (hx : Mirrors P F f x y) :
    Mirrors P F (Except.map f) x.attempt y.attempt := by
  rw [attempt_eq_capture, attempt_eq_capture]
  apply hx.capture.bind
  intro result
  match result with
  | .ok a => exact mirrors_pure _ (Except.ok a)
  | .error (.fault fault) => exact mirrors_pure _ (Except.error fault)
  | .error (.breach b) => exact mirrors_stop _ (.breach b)

end Backtrack.Action
