import Mathlib.Order.Bounds.Defs
import Backtrack.Proofs.Stream.Drift

/-! Where a word stands in a text, and where the search for it comes by. A search goes on behind each place
that it has found, so it finds the leftmost places that do not overlap. The positions it comes by are those
of the start and of all symbols behind it, as long as their counters are not full. -/

namespace Backtrack

/-- The symbol as it is seen by a stream that folds letters, or does not. -/
def Symbol.seen (caseFold : Bool) (symbol : Symbol) : Symbol :=
  if caseFold then symbol.foldCase else symbol

/-- The word stands in the text at the place `i`. -/
def Occurs (caseFold : Bool) (text word : List Char) (i : Nat) : Prop :=
  i + word.length ≤ text.length ∧
    ∀ j, j < word.length → (Symbol.ofText text (i + j)).seen caseFold = .ofText word j

/-- From `start` on, the places are the least one, the least one that is `length` or more behind it, and so
on, until there is none. -/
inductive Leftmost (occurs : Nat → Prop) (length : Nat) : Nat → List Nat → Prop
  | none {start : Nat} (h : ∀ i, start ≤ i → ¬occurs i) : Leftmost occurs length start []
  | next {start i : Nat} {rest : List Nat} (hi : IsLeast {i | start ≤ i ∧ occurs i} i)
      (hrest : Leftmost occurs length (i + length) rest) : Leftmost occurs length start (i :: rest)

theorem Leftmost.of_not {occurs : Nat → Prop} {length start : Nat} {places : List Nat} (h : ¬occurs start)
    (hplaces : Leftmost occurs length (start + 1) places) : Leftmost occurs length start places := by
  have hlater : ∀ i, start ≤ i → occurs i → start + 1 ≤ i := by
    intro i hle hi
    exact Nat.lt_of_le_of_ne hle fun heq => h (heq ▸ hi)
  cases hplaces with
  | none hnone => exact .none fun i hle hi => hnone i (hlater i hle hi) hi
  | next hi hrest =>
      obtain ⟨⟨hle, hoccurs⟩, hleast⟩ := hi
      refine .next ⟨⟨Nat.le_of_succ_le hle, hoccurs⟩, fun j hj => ?_⟩ hrest
      exact hleast ⟨hlater j hj.1 hj.2, hj.2⟩

theorem Leftmost.here {occurs : Nat → Prop} {length start : Nat} {places : List Nat} (h : occurs start)
    (hplaces : Leftmost occurs length (start + length) places) :
    Leftmost occurs length start (start :: places) :=
  .next ⟨⟨Nat.le_refl start, h⟩, fun _ hi => hi.1⟩ hplaces

theorem Leftmost.occurs {occurs : Nat → Prop} {length start : Nat} {places : List Nat}
    (h : Leftmost occurs length start places) : ∀ i ∈ places, occurs i := by
  induction h with
  | none => simp
  | next hi hrest ih => exact List.forall_mem_cons.mpr ⟨hi.1.2, ih⟩

theorem Symbol.seen_eq_eof {caseFold : Bool} {symbol : Symbol} :
    symbol.seen caseFold = .eof ↔ symbol = .eof := by
  cases symbol <;> cases caseFold <;> simp [seen, foldCase]

theorem Symbol.ofText_eq_eof {text : List Char} {k : Nat} : ofText text k = .eof ↔ text.length ≤ k := by
  unfold ofText
  rw [← List.getElem?_eq_none_iff]
  cases text[k]? <;> simp

variable {caseFold : Bool} {text word : List Char} {c : Char} {i : Nat}

/-- What is seen as a character is one of the text. -/
theorem lt_of_seen (h : (Symbol.ofText text i).seen caseFold = .char c) : i < text.length := by
  refine Nat.lt_of_not_le fun hle => ?_
  rw [Symbol.seen_eq_eof.mpr (Symbol.ofText_eq_eof.mpr hle)] at h
  cases h

theorem occurs_nil (h : i ≤ text.length) : Occurs caseFold text [] i :=
  ⟨h, fun _ hj => absurd hj (Nat.not_lt_zero _)⟩

theorem occurs_cons : Occurs caseFold text (c :: word) i ↔
    (Symbol.ofText text i).seen caseFold = .char c ∧ Occurs caseFold text word (i + 1) := by
  unfold Occurs
  rw [List.length_cons]
  constructor
  · rintro ⟨hlength, hall⟩
    refine ⟨hall 0 (Nat.succ_pos _), by omega, fun j hj => ?_⟩
    rw [Nat.add_right_comm, Nat.add_assoc]
    exact hall (j + 1) (by omega)
  · rintro ⟨hfirst, hlength, hall⟩
    refine ⟨by omega, fun j hj => ?_⟩
    cases j with
    | zero => exact hfirst
    | succ j =>
        rw [← Nat.add_assoc, Nat.add_right_comm]
        exact hall j (by omega)

/-- A word does not stand at or behind the end of the text. -/
theorem not_occurs_of_length_le (hword : word ≠ []) (h : text.length ≤ i) : ¬Occurs caseFold text word i := by
  rintro ⟨hlength, -⟩
  have hpos := List.length_pos_iff.mpr hword
  omega

namespace Position

/-- The position behind `n` more symbols of a text. -/
def along (text : List Char) (p : Position) : Nat → Position
  | 0 => p
  | n + 1 => ((p.along text n).advance (.ofText text (p.index + n))).1

/-- No counter is full from the position on, while the rest of the text is passed. -/
def HasRoom (text : List Char) (p : Position) : Prop :=
  ∀ n, n ≤ text.length - p.index →
    (p.along text n).index < counterLimit ∧ (p.along text n).line < counterLimit ∧
      (p.along text n).column < counterLimit

variable {p : Position} {n : Nat}

/-- Where there is room, the step to the next position breaks off at no counter. -/
theorem HasRoom.advance_eq_next (h : p.HasRoom text) (hn : n ≤ text.length - p.index) :
    (p.along text n).advance (.ofText text (p.index + n)) =
      ((p.along text n).next (.ofText text (p.index + n)), none) := by
  obtain ⟨hindex, hline, hcolumn⟩ := h n hn
  unfold Position.advance
  rw [if_neg (Nat.not_le.mpr hindex), if_neg]
  split <;> omega

theorem HasRoom.advance (h : p.HasRoom text) (hn : n ≤ text.length - p.index) :
    (p.along text n).advance (.ofText text (p.index + n)) = (p.along text (n + 1), none) := by
  rw [along, h.advance_eq_next hn]

theorem HasRoom.along_succ (h : p.HasRoom text) (hn : n ≤ text.length - p.index) :
    p.along text (n + 1) = (p.along text n).next (.ofText text (p.index + n)) := by
  rw [along, h.advance_eq_next hn]

theorem HasRoom.index_along (h : p.HasRoom text) (hn : n ≤ text.length - p.index + 1) :
    (p.along text n).index = p.index + n := by
  induction n with
  | zero => rfl
  | succ n ih =>
      rw [along, Position.index_advance (h n (by omega)).1, ih (by omega), Nat.add_assoc]

end Position

end Backtrack
