import Mathlib.Tactic.SplitIfs
import Backtrack.Marks

/-! What a stack of marks holds. The slots below and at the depth are the positions that the open marks
have saved, from the outermost mark to the innermost; what the slots above hold does not matter, because a
mark writes its slot when it is opened. -/

namespace Backtrack.MarkStack

/-- There is a slot for every open mark beside the reserved one. -/
def Valid (s : MarkStack) : Prop :=
  s.depth < s.slots.size

/-- The positions that the open marks have saved, the outermost one first. -/
def entries (s : MarkStack) : List Position :=
  (s.slots.extract 1 (s.depth + 1)).toList

/-- The stack with a mark and all deeper ones closed. -/
def close (s : MarkStack) (m : Marker) : MarkStack :=
  { s with depth := m.depth - 1 }

theorem entries_eq_take (s : MarkStack) : s.entries = (s.slots.toList.drop 1).take s.depth := by
  rw [entries, Array.toList_extract, List.extract_eq_take_drop, Nat.add_sub_cancel]

theorem length_entries {s : MarkStack} (h : s.Valid) : s.entries.length = s.depth := by
  rw [entries_eq_take, List.length_take, List.length_drop, Array.length_toList]
  have hsize : s.depth < s.slots.size := h
  omega

theorem getElem?_entries {s : MarkStack} {i : Nat} (h : i < s.depth) :
    s.entries[i]? = s.slots[i + 1]? := by
  rw [entries_eq_take, List.getElem?_take_of_lt h, List.getElem?_drop, Nat.add_comm, Array.getElem?_toList]

theorem valid_withCapacity (capacity : Nat) : (withCapacity capacity).Valid := by
  simp [Valid, withCapacity]

theorem entries_withCapacity (capacity : Nat) : (withCapacity capacity).entries = [] := by
  rw [entries_eq_take]
  exact List.take_zero

theorem isOpen_iff {s : MarkStack} {m : Marker} : s.isOpen m = true ↔ 1 ≤ m.depth ∧ m.depth ≤ s.depth := by
  simp [isOpen]

/-- One more slot comes into use; what the slots below hold stays. -/
theorem entries_succ {slots slots' : Array Position} {depth last last' : Nat} {p : Position}
    (hbelow : ∀ i, i ≤ depth → slots'[i]? = slots[i]?) (hlast : slots'[depth + 1]? = some p) :
    entries ⟨slots', depth + 1, last'⟩ = entries ⟨slots, depth, last⟩ ++ [p] := by
  have hget : ∀ (s : Array Position) (i : Nat), (s.toList.drop 1)[i]? = s[i + 1]? := by
    intro s i
    rw [List.getElem?_drop, Nat.add_comm, Array.getElem?_toList]
  rw [entries_eq_take, entries_eq_take, List.take_add_one, hget, hlast]
  refine congrArg (· ++ [p]) (List.ext_getElem? fun i => ?_)
  by_cases h : i < depth
  · rw [List.getElem?_take_of_lt h, List.getElem?_take_of_lt h, hget, hget, hbelow _ h]
  · rw [List.getElem?_take_eq_none (Nat.not_lt.mp h), List.getElem?_take_eq_none (Nat.not_lt.mp h)]

/-- Opening a mark saves a position behind those of the open marks. -/
theorem push_of_valid {s : MarkStack} (h : s.Valid) (p : Position) (journal : Journal) :
    ∃ after : MarkStack, push p s journal = ⟨.ok ⟨s.depth + 1⟩, after, journal⟩ ∧ after.Valid ∧
      after.depth = s.depth + 1 ∧ after.entries = s.entries ++ [p] := by
  obtain ⟨slots, depth, last⟩ := s
  have hsize : depth < slots.size := h
  unfold push
  dsimp only
  split_ifs with hfull hroom
  · have hlast : (slots.push p)[depth + 1]? = some p := by
      rw [hfull]
      exact Array.getElem?_push_size
    refine ⟨_, rfl, ?_, rfl, entries_succ (fun i hi => ?_) hlast⟩
    · simp [Valid, hfull]
    · rw [Array.getElem?_push, if_neg (by omega)]
  · refine ⟨_, rfl, ?_, rfl, entries_succ (fun i hi => ?_) (Array.getElem?_set_self hroom)⟩
    · simpa [Valid] using hroom
    · exact Array.getElem?_set_ne hroom (by omega)
  · omega

theorem entries_close {s : MarkStack} {m : Marker} (h : s.isOpen m = true) :
    (s.close m).entries = s.entries.take (m.depth - 1) := by
  obtain ⟨-, hle⟩ := isOpen_iff.mp h
  rw [entries_eq_take, entries_eq_take, List.take_take, Nat.min_eq_left (by omega)]
  rfl

theorem Valid.close {s : MarkStack} {m : Marker} (hvalid : s.Valid) (h : s.isOpen m = true) :
    (s.close m).Valid := by
  obtain ⟨hpos, hle⟩ := isOpen_iff.mp h
  exact Nat.lt_of_le_of_lt (Nat.sub_le _ _) (Nat.lt_of_le_of_lt hle hvalid)

theorem release_of_isOpen {s : MarkStack} {m : Marker} (h : s.isOpen m = true) (journal : Journal) :
    release m s journal = ⟨.ok (), s.close m, journal⟩ :=
  if_pos h

theorem release_of_not_isOpen {s : MarkStack} {m : Marker} (h : ¬s.isOpen m = true) (journal : Journal) :
    release m s journal = ⟨.error (.breach (.markNotOpen m.depth s.depth)), s, journal⟩ :=
  if_neg h

/-- An open mark gives out what it has saved. -/
theorem get_of_isOpen {s : MarkStack} {m : Marker} (hvalid : s.Valid) (h : s.isOpen m = true)
    (journal : Journal) :
    ∃ p, s.entries[m.depth - 1]? = some p ∧ get m s journal = ⟨.ok p, s, journal⟩ := by
  obtain ⟨hpos, hle⟩ := isOpen_iff.mp h
  have hsize : m.depth < s.slots.size := Nat.lt_of_le_of_lt hle hvalid
  refine ⟨s.slots[m.depth], ?_, ?_⟩
  · rw [getElem?_entries (by omega), Nat.sub_add_cancel hpos, Array.getElem?_eq_getElem hsize]
  · rw [get, if_pos h, Array.getElem?_eq_getElem hsize]

theorem get_of_not_isOpen {s : MarkStack} {m : Marker} (h : ¬s.isOpen m = true) (journal : Journal) :
    get m s journal = ⟨.error (.breach (.markNotOpen m.depth s.depth)), s, journal⟩ :=
  if_neg h

end Backtrack.MarkStack
