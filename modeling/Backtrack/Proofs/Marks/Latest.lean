import Backtrack.Proofs.Journal
import Backtrack.Proofs.Marks.Pile

/-! The mark that was opened last. A stack goes on naming it when it has been closed, and a mark that is opened
later may get its depth again; but then that one is the last. So the stack is never deeper than the mark that it
names, and what is open at its depth is either that very mark or an older one under it. -/

namespace Backtrack

/-- The mark that an event records, and the position that it saves. -/
def Event.opened? : Event → Option (Marker × Position)
  | .marked m p => some (m, p)
  | _ => none

namespace Journal

/-- The mark that has been recorded last. -/
def latest (events : List Event) : Option (Marker × Position) :=
  (events.filterMap Event.opened?).getLast?

variable {events more : List Event}

@[simp]
theorem latest_nil : latest [] = none :=
  rfl

theorem latest_append : latest (events ++ more) = (latest more).or (latest events) := by
  simp [latest, List.filterMap_append, List.getLast?_append]

@[simp]
theorem latest_append_marked (m : Marker) (p : Position) : latest (events ++ [.marked m p]) = some (m, p) := by
  simp [latest, Event.opened?]

/-- Events that record no mark leave the last one that has been recorded. -/
theorem latest_append_of_none (h : ∀ e ∈ more, e.opened? = none) : latest (events ++ more) = latest events := by
  have hmore : latest more = none := by
    rw [latest, List.filterMap_eq_nil_iff.mpr h, List.getLast?_nil]
  rw [latest_append, hmore, Option.none_or]

end Journal

namespace MarkStack

/-- The stack is in order, and `latest` is the mark that was opened last, with the position that it has saved: at
the depth of that mark the innermost position is its own. -/
structure Remembers (s : MarkStack) (latest : Option (Marker × Position)) : Prop where
  valid : s.Valid
  last : s.last = latest.elim 0 (·.1.depth)
  depth_le : s.depth ≤ s.last
  saved : ∀ opened ∈ latest, s.depth = opened.1.depth → s.entries.getLast? = some opened.2

variable {s : MarkStack} {latest : Option (Marker × Position)}

theorem remembers_withCapacity (capacity : Nat) : (withCapacity capacity).Remembers none :=
  ⟨valid_withCapacity capacity, rfl, Nat.le_refl _, fun _ h => by cases h⟩

theorem Remembers.push {after : MarkStack} (h : s.Valid) {p : Position} {m : Marker} {journal journal' : Journal}
    (hpush : push p s journal = ⟨.ok m, after, journal'⟩) : after.Remembers (some (m, p)) := by
  have hlast := lastOpened_push h p journal
  obtain ⟨after', hpush', hvalid, hdepth, hentries⟩ := push_of_valid h p journal
  rw [hpush'] at hpush hlast
  cases hpush
  have hdeep : after.last = s.depth + 1 := congrArg Marker.depth hlast
  refine ⟨hvalid, hdeep, Nat.le_of_eq (hdepth.trans hdeep.symm), ?_⟩
  rintro _ ⟨⟩ -
  rw [hentries, List.getLast?_concat]

/-- A mark that is closed takes the stack below the mark that was opened last. -/
theorem depth_close_lt (h : s.depth ≤ s.last) {m : Marker} (hopen : s.isOpen m = true) :
    (s.close m).depth < (s.close m).last := by
  obtain ⟨hpos, hle⟩ := isOpen_iff.mp hopen
  show m.depth - 1 < s.last
  omega

theorem Remembers.close (h : s.Remembers latest) {m : Marker} (hopen : s.isOpen m = true) :
    (s.close m).Remembers latest := by
  have hlt := depth_close_lt h.depth_le hopen
  refine ⟨h.valid.close hopen, h.last, Nat.le_of_lt hlt, fun opened hopened hdepth => absurd hdepth ?_⟩
  have hlast := h.last
  rw [hopened, Option.elim_some] at hlast
  exact Nat.ne_of_lt (hlast ▸ hlt)

/-- Where the stack is less deep than the mark that was opened last, that mark is not open. -/
theorem not_isOpen_lastOpened (h : s.depth < s.last) : ¬s.isOpen s.lastOpened = true :=
  fun hopen => Nat.not_le.mpr h (isOpen_iff.mp hopen).2

theorem isOpen_lastOpened_iff (h : s.depth ≤ s.last) :
    s.isOpen s.lastOpened = true ↔ s.lastOpened.depth = s.depth ∧ 1 ≤ s.depth := by
  have hlast : s.lastOpened.depth = s.last := rfl
  rw [isOpen_iff, hlast]
  omega

/-- If the mark that was opened last is open, then it is the innermost one, and has saved the innermost position. -/
theorem Remembers.innermost (h : s.Remembers latest) (hlast : s.lastOpened.depth = s.depth) (hpos : 1 ≤ s.depth) :
    ∃ p, latest = some (⟨s.depth⟩, p) ∧ s.entries.getLast? = some p := by
  have hdeep := h.last
  rw [show s.last = s.depth from hlast] at hdeep
  cases hlatest : latest with
  | none =>
      rw [hlatest, Option.elim_none] at hdeep
      omega
  | some opened =>
      obtain ⟨⟨depth⟩, p⟩ := opened
      rw [hlatest, Option.elim_some] at hdeep
      exact ⟨p, by rw [hdeep], h.saved _ hlatest hdeep⟩

theorem getElem?_entries_of_getLast? (h : s.Valid) {p : Position} (hp : s.entries.getLast? = some p) :
    s.entries[s.depth - 1]? = some p := by
  rwa [List.getLast?_eq_getElem?, length_entries h] at hp

/-! ### Runs on a stack alone -/

/-- The pile is not higher than the number of the position that was added last. -/
def Pile.IsLow (pile : Pile) : Prop :=
  pile.height ≤ pile.last.depth

theorem Pile.IsLow.perform {pile : Pile} (h : pile.IsLow) (command : Command) : (pile.perform command).2.IsLow := by
  cases command with
  | new => exact Nat.le_refl 0
  | withCapacity capacity =>
      simp only [Pile.perform]
      split_ifs
      · exact h
      · exact h
      · exact Nat.le_refl 0
  | push p => simp [IsLow, Pile.perform, add, height]
  | get handle =>
      simp only [Pile.perform]
      split_ifs <;> exact h
  | release handle =>
      simp only [Pile.perform]
      split_ifs
      · calc
          (pile.cut (pile.marker handle)).height ≤ pile.height := List.length_take_le' _ _
          _ ≤ pile.last.depth := h
      · exact h
  | _ => exact h

/-- The workbench that commands leave behind. -/
def Workbench.after (w : Workbench) (commands : List Command) : Workbench :=
  commands.foldl (fun w command => (perform command w #[]).state) w

/-- Whatever is done with a stack, it is not deeper than the mark that was opened last. -/
theorem depth_after_le (capacity : Nat) (handles : Array Marker) (commands : List Command) :
    let stack := (Workbench.after ⟨withCapacity capacity, handles⟩ commands).stack
    stack.depth ≤ stack.last := by
  suffices h : ∀ (w : Workbench) (pile : Pile), pile.Shows w → pile.IsLow →
      (w.after commands).stack.depth ≤ (w.after commands).stack.last from
    h _ _ (Pile.shows_start capacity handles) (Nat.le_refl 0)
  induction commands with
  | nil =>
      intro w pile hshows hlow
      calc
        w.stack.depth = pile.height := hshows.depth
        _ ≤ pile.last.depth := hlow
        _ = w.stack.last := congrArg Marker.depth hshows.last.symm
  | cons command commands ih =>
      intro w pile hshows hlow
      exact ih _ _ (hshows.perform command #[]).2.1 (hlow.perform command)

end MarkStack

end Backtrack
