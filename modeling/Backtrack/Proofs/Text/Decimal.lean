import Mathlib.Data.List.Basic
import Backtrack.Text.Layout

/-! Numbers in decimal. Digits end before every other character, so a number is read back from its digits wherever
something else stands behind them, and also through the blanks that align it. -/

namespace Backtrack.Text

theorem isDigit_of_mem_decimal {n : Nat} {c : Char} (h : c ∈ decimal n) : c.isDigit = true :=
  Nat.isDigit_of_mem_toDigits (by decide) (by decide) h

theorem not_mem_decimal {c : Char} (hc : c.isDigit = false) (n : Nat) : c ∉ decimal n := by
  intro hmem
  rw [isDigit_of_mem_decimal hmem] at hc
  cases hc

theorem decimal_ne_nil (n : Nat) : decimal n ≠ [] :=
  List.length_pos_iff.mp Nat.length_toDigits_pos

/-- A larger number has no fewer digits. -/
theorem length_decimal_mono {m n : Nat} (h : m ≤ n) : (decimal m).length ≤ (decimal n).length := by
  have hpos : 0 < (decimal n).length := Nat.length_toDigits_pos
  have hn : n < 10 ^ (decimal n).length := (Nat.length_toDigits_le_iff (by decide) hpos).mp (Nat.le_refl _)
  exact (Nat.length_toDigits_le_iff (by decide) hpos).mpr (Nat.lt_of_le_of_lt h hn)

theorem decimal_injective : Function.Injective decimal := by
  intro m n h
  have hvalue := congrArg (Nat.ofDigitChars 10 · 0) h
  simp only [decimal, Nat.ofDigitChars_ten_toDigits] at hvalue
  exact hvalue

variable {m n width : Nat} {c : Char} {rest others : List Char}

/-- Digits end where something else stands. -/
theorem decimal_append_inj (hc : c.isDigit = false) (h : decimal m ++ c :: rest = decimal n ++ c :: others) :
    m = n ∧ rest = others := by
  have htake (n : Nat) (rest : List Char) : (decimal n ++ c :: rest).takeWhile Char.isDigit = decimal n := by
    rw [List.takeWhile_append_of_pos fun d hd => isDigit_of_mem_decimal hd, List.takeWhile_cons_of_neg (by simp [hc]),
      List.append_nil]
  have hdigits := congrArg (List.takeWhile Char.isDigit) h
  rw [htake, htake] at hdigits
  rw [hdigits, List.append_cancel_left_eq, List.cons.injEq] at h
  exact ⟨decimal_injective hdigits, h.2⟩

/-- Blanks before a number are no part of it. -/
theorem leftpad_decimal_append_inj (hc : c.isDigit = false)
    (h : (decimal m).leftpad width ' ' ++ c :: rest = (decimal n).leftpad width ' ' ++ c :: others) :
    m = n ∧ rest = others := by
  have hdrop (n : Nat) (rest : List Char) :
      ((decimal n).leftpad width ' ' ++ rest).dropWhile (· = ' ') = decimal n ++ rest := by
    obtain ⟨digit, digits, hdigits⟩ := List.exists_cons_of_ne_nil (decimal_ne_nil n)
    have hne : digit ≠ ' ' := by
      rintro rfl
      exact not_mem_decimal (by decide) n (hdigits ▸ List.mem_cons_self)
    rw [List.leftpad, List.append_assoc,
      List.dropWhile_append_of_pos fun d hd => by simpa using List.eq_of_mem_replicate hd, hdigits,
      List.cons_append, List.dropWhile_cons_of_neg (by simpa using hne)]
  have hnumber := congrArg (List.dropWhile (· = ' ')) h
  rw [hdrop, hdrop] at hnumber
  exact decimal_append_inj hc hnumber

/-- Neither are blanks behind it. -/
theorem rightpad_decimal_append_inj
    (h : (decimal m).rightpad width ' ' ++ ' ' :: rest = (decimal n).rightpad width ' ' ++ ' ' :: others) :
    m = n ∧ rest = others := by
  have hpad (n : Nat) (rest : List Char) : (decimal n).rightpad width ' ' ++ ' ' :: rest =
      decimal n ++ ' ' :: (List.replicate (width - (decimal n).length) ' ' ++ rest) := by
    rw [List.rightpad, List.append_assoc, ← List.singleton_append, ← List.append_assoc (List.replicate _ _),
      ← List.replicate_succ', List.replicate_succ, List.cons_append]
  rw [hpad, hpad] at h
  obtain ⟨rfl, hrest⟩ := decimal_append_inj (by decide) h
  exact ⟨rfl, List.append_cancel_left hrest⟩

end Backtrack.Text
