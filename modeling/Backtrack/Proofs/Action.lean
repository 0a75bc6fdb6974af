import Backtrack.Action

/-! What actions keep. An action that starts where something holds may end with an answer or a stop, and
the same has to hold there. A full counter is different: nothing goes on after it, and an action may break
off there with its work half done; so what is known at a full counter is stated apart. -/

namespace Backtrack

variable {σ τ α β : Type}

/-- The action has been stopped by a full counter. -/
def Outcome.IsFull (o : Outcome σ α) : Prop :=
  o.result = .error (.breach .counterOverflow)

theorem Outcome.eq_of_result {o : Outcome σ α} {result : Except Stop α} (h : o.result = result) :
    o = ⟨result, o.state, o.journal⟩ := by
  cases h
  rfl

theorem Outcome.not_isFull_of_ok {o : Outcome σ α} {a : α} (h : o.result = .ok a) : ¬o.IsFull := by
  intro hfull
  rw [IsFull, h] at hfull
  cases hfull

namespace Action

/-- Turns a stop into an answer, so that the caller can go on, unless a counter is full. -/
def recover (x : Action σ α) : Action σ (Except Stop α) := fun s journal =>
  match x s journal with
  | ⟨.error (.breach .counterOverflow), s, journal⟩ => ⟨.error (.breach .counterOverflow), s, journal⟩
  | ⟨result, s, journal⟩ => ⟨.ok result, s, journal⟩

/-- Started where `I` holds, the action ends where `I` holds, or at a full counter and where `Q` holds. -/
def Keeps (I Q : σ → Journal → Prop) (x : Action σ α) : Prop :=
  ∀ s journal, I s journal →
    ((x s journal).IsFull → Q (x s journal).state (x s journal).journal) ∧
      (¬(x s journal).IsFull → I (x s journal).state (x s journal).journal)

theorem bind_apply (x : Action σ α) (f : α → Action σ β) (s : σ) (journal : Journal) :
    (x >>= f) s journal = Action.bind x f s journal :=
  rfl

theorem bind_of_ok {x : Action σ α} {f : α → Action σ β} {s mid : σ} {journal between : Journal} {a : α}
    (h : x s journal = ⟨.ok a, mid, between⟩) : (x >>= f) s journal = f a mid between := by
  rw [bind_apply, Action.bind, h]

theorem bind_of_error {x : Action σ α} {f : α → Action σ β} {s mid : σ} {journal between : Journal} {reason : Stop}
    (h : x s journal = ⟨.error reason, mid, between⟩) : (x >>= f) s journal = ⟨.error reason, mid, between⟩ := by
  rw [bind_apply, Action.bind, h]

theorem map_of_ok {x : Action σ α} (f : α → β) {s mid : σ} {journal between : Journal} {a : α}
    (h : x s journal = ⟨.ok a, mid, between⟩) : (f <$> x) s journal = ⟨.ok (f a), mid, between⟩ :=
  bind_of_ok (f := fun a => pure (f a)) h

theorem map_of_error {x : Action σ α} (f : α → β) {s mid : σ} {journal between : Journal} {reason : Stop}
    (h : x s journal = ⟨.error reason, mid, between⟩) : (f <$> x) s journal = ⟨.error reason, mid, between⟩ :=
  bind_of_error (f := fun a => pure (f a)) h

theorem attempt_of_ok {x : Action σ α} {s mid : σ} {journal between : Journal} {a : α}
    (h : x s journal = ⟨.ok a, mid, between⟩) : x.attempt s journal = ⟨.ok (.ok a), mid, between⟩ := by
  rw [attempt, h]

theorem attempt_of_fault {x : Action σ α} {s mid : σ} {journal between : Journal} {f : Fault}
    (h : x s journal = ⟨.error (.fault f), mid, between⟩) : x.attempt s journal = ⟨.ok (.error f), mid, between⟩ := by
  rw [attempt, h]

theorem attempt_of_breach {x : Action σ α} {s mid : σ} {journal between : Journal} {b : Breach}
    (h : x s journal = ⟨.error (.breach b), mid, between⟩) :
    x.attempt s journal = ⟨.error (.breach b), mid, between⟩ := by
  rw [attempt, h]

theorem bind_eq_ok {x : Action σ α} {f : α → Action σ β} {s after : σ} {journal journal' : Journal} {b : β}
    (h : (x >>= f) s journal = ⟨.ok b, after, journal'⟩) :
    ∃ a mid between, x s journal = ⟨.ok a, mid, between⟩ ∧ f a mid between = ⟨.ok b, after, journal'⟩ := by
  rw [bind_apply, Action.bind] at h
  generalize x s journal = o at h ⊢
  obtain ⟨result, mid, between⟩ := o
  cases result with
  | ok a => exact ⟨a, mid, between, rfl, h⟩
  | error reason => cases h

theorem attempt_eq_ok {x : Action σ α} {s after : σ} {journal journal' : Journal} {a : α}
    (h : x.attempt s journal = ⟨.ok (.ok a), after, journal'⟩) : x s journal = ⟨.ok a, after, journal'⟩ := by
  unfold attempt at h
  generalize x s journal = o at h ⊢
  split at h <;> cases h
  rfl

theorem attempt_eq_error {x : Action σ α} {s after : σ} {journal journal' : Journal} {f : Fault}
    (h : x.attempt s journal = ⟨.ok (.error f), after, journal'⟩) :
    x s journal = ⟨.error (.fault f), after, journal'⟩ := by
  unfold attempt at h
  generalize x s journal = o at h ⊢
  split at h <;> cases h
  rfl

variable {I Q : σ → Journal → Prop}

theorem Keeps.of_forall {x : Action σ α}
    (h : ∀ s journal, I s journal → I (x s journal).state (x s journal).journal) : Keeps I I x :=
  fun s journal hI => ⟨fun _ => h s journal hI, fun _ => h s journal hI⟩

theorem Keeps.forall {x : Action σ α} (h : Keeps I I x) {s : σ} {journal : Journal} (hI : I s journal) :
    I (x s journal).state (x s journal).journal := by
  by_cases hfull : (x s journal).IsFull
  · exact (h s journal hI).1 hfull
  · exact (h s journal hI).2 hfull

theorem keeps_of_state {x : Action σ α} (h : ∀ s journal, ¬(x s journal).IsFull)
    (hI : ∀ s journal, I s journal → I (x s journal).state (x s journal).journal) : Keeps I Q x :=
  fun s journal hs => ⟨fun hfull => absurd hfull (h s journal), fun _ => hI s journal hs⟩

theorem keeps_pure (a : α) : Keeps I Q (pure a : Action σ α) :=
  keeps_of_state (fun _ _ => Outcome.not_isFull_of_ok rfl) fun _ _ h => h

theorem keeps_stop (hQ : ∀ s journal, I s journal → Q s journal) (reason : Stop) :
    Keeps I Q (stop reason : Action σ α) :=
  fun s journal h => ⟨fun _ => hQ s journal h, fun _ => h⟩

theorem Keeps.bind {x : Action σ α} {f : α → Action σ β} (hx : Keeps I Q x) (hf : ∀ a, Keeps I Q (f a)) :
    Keeps I Q (x >>= f) := by
  intro s journal hI
  have hkept := hx s journal hI
  rw [bind_apply, Action.bind]
  generalize x s journal = o at hkept ⊢
  obtain ⟨result, s', journal'⟩ := o
  cases result with
  | ok a => exact hf a s' journal' (hkept.2 (Outcome.not_isFull_of_ok rfl))
  | error reason =>
      refine ⟨fun hfull => hkept.1 ?_, fun hfull => hkept.2 fun h => hfull ?_⟩
      · cases hfull
        rfl
      · cases h
        rfl

theorem Keeps.map {x : Action σ α} (hx : Keeps I Q x) (f : α → β) : Keeps I Q (f <$> x) :=
  hx.bind fun _ => keeps_pure _

theorem recover_of_not_isFull {x : Action σ α} {s : σ} {journal : Journal} (h : ¬(x s journal).IsFull) :
    x.recover s journal = ⟨.ok (x s journal).result, (x s journal).state, (x s journal).journal⟩ := by
  unfold Outcome.IsFull at h
  unfold recover
  generalize x s journal = o at h ⊢
  split
  · exact absurd rfl h
  · rfl

theorem recover_of_isFull {x : Action σ α} {s : σ} {journal : Journal} (h : (x s journal).IsFull) :
    x.recover s journal =
      ⟨.error (.breach .counterOverflow), (x s journal).state, (x s journal).journal⟩ := by
  unfold Outcome.IsFull at h
  unfold recover
  generalize x s journal = o at h ⊢
  obtain ⟨result, s', journal'⟩ := o
  cases h
  rfl

theorem Keeps.recover {x : Action σ α} (hx : Keeps I Q x) : Keeps I Q x.recover := by
  intro s journal hI
  by_cases hfull : (x s journal).IsFull
  · rw [recover_of_isFull hfull]
    exact ⟨fun _ => (hx s journal hI).1 hfull, fun h => absurd rfl h⟩
  · rw [recover_of_not_isFull hfull]
    exact ⟨fun h => absurd h (Outcome.not_isFull_of_ok rfl), fun _ => (hx s journal hI).2 hfull⟩

/-- Going on after a fault is going on after any stop and passing the breaches on. -/
theorem attempt_eq_recover (x : Action σ α) :
    x.attempt = x.recover >>= fun
      | .ok a => pure (.ok a)
      | .error (.fault f) => pure (.error f)
      | .error (.breach b) => stop (.breach b) := by
  funext s journal
  rw [bind_apply, Action.bind, attempt, recover]
  generalize x s journal = o
  obtain ⟨result, s', journal'⟩ := o
  match result with
  | .ok a => rfl
  | .error (.fault f) => rfl
  | .error (.breach b) => cases b <;> rfl

end Action

/-! ### How actions end -/

namespace Outcome

variable {reason : Prop}

/-- The action has ended as `Q` says, or at a full counter, and then there was a `reason` for that. -/
structure Ends (reason : Prop) (Q : Except Stop α → σ → Prop) (o : Outcome σ α) : Prop where
  full : o.IsFull → reason
  ends : ¬o.IsFull → Q o.result o.state

/-- The action has answered, as `Q` says, or has ended at a full counter. -/
def Answers (reason : Prop) (Q : α → σ → Prop) (o : Outcome σ α) : Prop :=
  o.Ends reason fun result s => ∃ a, result = .ok a ∧ Q a s

theorem Ends.of_not_isFull {Q : Except Stop α → σ → Prop} {o : Outcome σ α} (hfull : ¬o.IsFull)
    (h : Q o.result o.state) : o.Ends reason Q :=
  ⟨fun hisFull => absurd hisFull hfull, fun _ => h⟩

theorem Ends.mono {Q R : Except Stop α → σ → Prop} {o : Outcome σ α} (h : o.Ends reason Q)
    (himp : ∀ result s, Q result s → R result s) : o.Ends reason R :=
  ⟨h.full, fun hfull => himp _ _ (h.ends hfull)⟩

theorem Ends.because {reason' : Prop} {Q : Except Stop α → σ → Prop} {o : Outcome σ α} (h : o.Ends reason Q)
    (himp : reason → reason') : o.Ends reason' Q :=
  ⟨fun hfull => himp (h.full hfull), h.ends⟩

theorem ends_ok {Q : Except Stop α → σ → Prop} {a : α} {s : σ} {journal : Journal} (h : Q (.ok a) s) :
    (⟨.ok a, s, journal⟩ : Outcome σ α).Ends reason Q :=
  .of_not_isFull (not_isFull_of_ok rfl) h

theorem ends_fault {Q : Except Stop α → σ → Prop} {f : Fault} {s : σ} {journal : Journal}
    (h : Q (.error (.fault f)) s) : (⟨.error (.fault f), s, journal⟩ : Outcome σ α).Ends reason Q :=
  .of_not_isFull (fun hfull => by cases hfull) h

theorem ends_full {Q : Except Stop α → σ → Prop} {o : Outcome σ α} (hfull : o.IsFull) (h : reason) :
    o.Ends reason Q :=
  ⟨fun _ => h, fun hnot => absurd hfull hnot⟩

theorem answers_ok {Q : α → σ → Prop} {a : α} {s : σ} {journal : Journal} (h : Q a s) :
    (⟨.ok a, s, journal⟩ : Outcome σ α).Answers reason Q :=
  ends_ok ⟨a, rfl, h⟩

/-- Where there is no reason for a full counter, an answer there is. -/
theorem Answers.exists {Q : α → σ → Prop} {o : Outcome σ α} (h : o.Answers reason Q) (hnot : ¬reason) :
    ∃ a s journal, o = ⟨.ok a, s, journal⟩ ∧ Q a s := by
  obtain ⟨a, ha, hQ⟩ := h.ends fun hfull => hnot (h.full hfull)
  obtain ⟨result, s, journal⟩ := o
  cases ha
  exact ⟨a, s, journal, rfl, hQ⟩

variable {x : Action σ α} {f : α → Action σ β} {s : σ} {journal : Journal}

theorem Ends.bind {R : Except Stop α → σ → Prop} {Q : Except Stop β → σ → Prop} (hx : (x s journal).Ends reason R)
    (hok : ∀ a mid between, R (.ok a) mid → (f a mid between).Ends reason Q)
    (herror : ∀ stop mid, R (.error stop) mid → Q (.error stop) mid) : ((x >>= f) s journal).Ends reason Q := by
  rw [Action.bind_apply, Action.bind]
  generalize x s journal = o at hx
  obtain ⟨result, mid, between⟩ := o
  cases result with
  | ok a => exact hok a mid between (hx.ends (not_isFull_of_ok rfl))
  | error stop =>
      have hsame : (⟨.error stop, mid, between⟩ : Outcome σ β).IsFull →
          (⟨.error stop, mid, between⟩ : Outcome σ α).IsFull := by
        intro hfull
        cases hfull
        rfl
      refine ⟨fun hfull => hx.full (hsame hfull), fun hfull => herror stop mid (hx.ends fun hisFull => hfull ?_)⟩
      cases hisFull
      rfl

theorem Answers.bind {R : α → σ → Prop} {Q : Except Stop β → σ → Prop} (hx : (x s journal).Answers reason R)
    (hok : ∀ a mid between, R a mid → (f a mid between).Ends reason Q) : ((x >>= f) s journal).Ends reason Q := by
  refine Ends.bind hx ?_ ?_
  · rintro a mid between ⟨b, hb, hmid⟩
    cases hb
    exact hok a mid between hmid
  · rintro stop mid ⟨b, hb, -⟩
    cases hb

end Outcome

end Backtrack
