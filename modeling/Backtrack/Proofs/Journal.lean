import Backtrack.Event

/-! Journals grow at the end. What an action has added is the rest of the journal behind the events that
were there before. -/

namespace Backtrack.Journal

/-- The events that have been added to a journal. -/
def since (before after : Journal) : List Event :=
  (after.extract before.size after.size).toList

theorem since_eq_drop (before after : Journal) : since before after = after.toList.drop before.size := by
  rw [since, Array.toList_extract, List.extract_eq_take_drop]
  exact List.take_of_length_le (by simp)

theorem since_eq_of_append {before after : Journal} {events : List Event}
    (h : after.toList = before.toList ++ events) : since before after = events := by
  rw [since_eq_drop, h, List.drop_left' Array.length_toList]

/-- A journal goes on from another one with events that satisfy `P`. -/
def Extends (P : Event → Prop) (before after : Journal) : Prop :=
  ∃ events, after.toList = before.toList ++ events ∧ ∀ e ∈ events, P e

variable {P Q : Event → Prop} {first second third : Journal}

theorem Extends.refl (journal : Journal) : Extends P journal journal :=
  ⟨[], by simp⟩

theorem Extends.trans (h : Extends P first second) (h' : Extends P second third) :
    Extends P first third := by
  obtain ⟨events, hevents, hall⟩ := h
  obtain ⟨events', hevents', hall'⟩ := h'
  refine ⟨events ++ events', ?_, ?_⟩
  · rw [hevents', hevents, List.append_assoc]
  · intro e he
    rcases List.mem_append.mp he with he | he
    · exact hall e he
    · exact hall' e he

theorem Extends.push (h : Extends P first second) {e : Event} (he : P e) :
    Extends P first (Array.push second e) :=
  h.trans ⟨[e], by simp, by simpa using he⟩

theorem Extends.mono (h : Extends P first second) (himp : ∀ e, P e → Q e) : Extends Q first second := by
  obtain ⟨events, hevents, hall⟩ := h
  exact ⟨events, hevents, fun e he => himp e (hall e he)⟩

theorem Extends.size_le (h : Extends P first second) : first.size ≤ second.size := by
  obtain ⟨events, hevents, -⟩ := h
  rw [← Array.length_toList, ← Array.length_toList, hevents, List.length_append]
  exact Nat.le_add_right _ _

/-- What has been added stays among what is added. -/
theorem Extends.mem_since (h : Extends P second third) {e : Event} (he : e ∈ since first second) :
    e ∈ since first third := by
  obtain ⟨events, hevents, -⟩ := h
  rw [since_eq_drop] at he ⊢
  rw [hevents, List.drop_append]
  exact List.mem_append_left _ he

theorem mem_since_push (h : first.size ≤ second.size) (e : Event) : e ∈ since first (Array.push second e) := by
  rw [since_eq_drop, Array.toList_push, List.drop_append_of_le_length (by simpa using h)]
  exact List.mem_append_right _ (List.mem_singleton_self e)

/-- Every event is allowed behind the one before it; the first one comes behind `previous`. -/
def Each (allowed : Option Event → Event → Prop) (previous : Option Event) : List Event → Prop
  | [] => True
  | e :: rest => allowed previous e ∧ Each allowed (some e) rest

variable {allowed : Option Event → Event → Prop} {previous : Option Event} {events more : List Event}
  {e : Event}

theorem Each.of_append (h : Each allowed previous (events ++ more)) : Each allowed previous events := by
  induction events generalizing previous with
  | nil => trivial
  | cons first rest ih => exact ⟨h.1, ih h.2⟩

theorem Each.allowed_or (h : Each allowed previous (events ++ e :: more)) :
    allowed (events.getLast?.or previous) e := by
  induction events generalizing previous with
  | nil => exact h.1
  | cons first rest ih =>
      have hrest := ih h.2
      rw [List.getLast?_cons]
      cases hlast : rest.getLast? with
      | none => rwa [hlast] at hrest
      | some last => rwa [hlast] at hrest

theorem Each.allowed_last (h : Each allowed none (events ++ e :: more)) : allowed events.getLast? e := by
  have hor := h.allowed_or
  rwa [Option.or_none] at hor

end Backtrack.Journal
