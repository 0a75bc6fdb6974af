import Mathlib.Tactic.SplitIfs
import Backtrack.Text.Layout

/-! Escaped characters. An escape can be read back, whatever comes behind it, so that a quoted form determines what it
quotes. Every character of an escape can be shown as it is; in particular it is no line break. -/

namespace Backtrack.Text

/-! ### Hexadecimal digits -/

def hexDigitValue (c : Char) : Nat :=
  if c.toNat < 58 then c.toNat - 48 else c.toNat - 87

def hexValue (digits : List Char) : Nat :=
  digits.foldl (fun value c => 16 * value + hexDigitValue c) 0

theorem hexDigitValue_hexDigit : ∀ n < 16, hexDigitValue (hexDigit n) = n := by
  decide

theorem hexValue_hexDigits (n : Nat) : hexValue (hexDigits n) = n := by
  fun_induction hexDigits n with
  | case1 n hn => simpa [hexValue] using hexDigitValue_hexDigit n hn
  | case2 n hn ih =>
      have hdigit := hexDigitValue_hexDigit (n % 16) (Nat.mod_lt n (by decide))
      rw [hexValue] at ih ⊢
      rw [List.foldl_append, ih, List.foldl_cons, List.foldl_nil, hdigit, Nat.div_add_mod]

theorem mem_hexDigits {n : Nat} {c : Char} (h : c ∈ hexDigits n) : ∃ d < 16, c = hexDigit d := by
  fun_induction hexDigits n with
  | case1 n hn => exact ⟨n, hn, List.mem_singleton.mp h⟩
  | case2 n hn ih =>
      rw [List.mem_append, List.mem_singleton] at h
      rcases h with h | rfl
      · exact ih h
      · exact ⟨n % 16, Nat.mod_lt n (by decide), rfl⟩

theorem brace_not_mem_hexDigits (n : Nat) : '\x7d' ∉ hexDigits n := by
  intro h
  obtain ⟨d, hd, heq⟩ := mem_hexDigits h
  have hne : ∀ d < 16, '\x7d' ≠ hexDigit d := by decide
  exact hne d hd heq

/-! ### Reading an escape -/

/-- What the letter behind a backslash stands for. -/
def unescapeLetter (c : Char) : Char :=
  if c = '0' then '\x00'
  else if c = 't' then '\t'
  else if c = 'r' then '\r'
  else if c = 'n' then '\n'
  else c

/-- The first character of a text in which characters are escaped, and what follows it. -/
def unescape? : List Char → Option (Char × List Char)
  | [] => none
  | '\\' :: 'u' :: '\x7b' :: rest =>
    some (Char.ofNat (hexValue (rest.takeWhile (· ≠ '\x7d'))), (rest.dropWhile (· ≠ '\x7d')).tail)
  | '\\' :: c :: rest => some (unescapeLetter c, rest)
  | c :: rest => some (c, rest)

theorem unescape?_cons {c : Char} (hc : c ≠ '\\') (rest : List Char) : unescape? (c :: rest) = some (c, rest) := by
  rw [unescape?]
  · exact fun _ heq _ => hc heq
  · exact fun _ _ heq _ => hc heq

theorem unescape?_escapeByCode (c : Char) (rest : List Char) :
    unescape? (escapeByCode c ++ rest) = some (c, rest) := by
  have hdigits : ∀ d ∈ hexDigits c.toNat, decide (d ≠ '\x7d') = true := by
    intro d hd
    have hne : d ≠ '\x7d' := fun heq => brace_not_mem_hexDigits c.toNat (heq ▸ hd)
    simpa using hne
  rw [escapeByCode, List.append_assoc, List.append_assoc, List.singleton_append]
  rw [List.cons_append, List.cons_append, List.cons_append, List.nil_append, unescape?,
    List.takeWhile_append_of_pos hdigits, List.dropWhile_append_of_pos hdigits,
    List.takeWhile_cons_of_neg (by simp), List.dropWhile_cons_of_neg (by simp), List.append_nil, hexValue_hexDigits,
    Char.ofNat_toNat]
  rfl

/-- Between quotes of either kind every escape is read as the character for which it stands. -/
theorem unescape?_escape {quote : Char} (hquote : quote = '\'' ∨ quote = '"') (c : Char) (rest : List Char) :
    unescape? (escape quote c ++ rest) = some (c, rest) := by
  rw [escape]
  split_ifs with hnul htab hreturn hnewline hsame hcode
  · rw [hnul]
    rfl
  · rw [htab]
    rfl
  · rw [hreturn]
    rfl
  · rw [hnewline]
    rfl
  · rw [Bool.or_eq_true, decide_eq_true_eq, decide_eq_true_eq] at hsame
    rcases hsame with rfl | rfl
    · rfl
    · rcases hquote with rfl | rfl <;> rfl
  · exact unescape?_escapeByCode c rest
  · -- what is not escaped is no backslash, so it stands for itself
    rw [List.singleton_append]
    have hne : c ≠ '\\' := by
      rintro rfl
      exact hsame rfl
    exact unescape?_cons hne rest

/-! ### Printable characters -/

/-- Every character at which a line may be broken. -/
def lineBreaks : List Char :=
  ['\n', '\x0b', '\x0c', '\r', '\u0085', '\u2028', '\u2029']

theorem isPrintable_of_ascii {c : Char} (hlow : 32 ≤ c.toNat) (hhigh : c.toNat < 127) : isPrintable c = true := by
  obtain ⟨ranges, hranges⟩ : ∃ ranges, unprintableRanges = (0, 31) :: (127, 160) :: ranges := ⟨_, rfl⟩
  rw [isPrintable, hranges, inRanges, inRanges, if_neg (by omega), if_pos hhigh, Bool.or_false, Bool.not_eq_true',
    decide_eq_false_iff_not]
  omega

theorem isPrintable_of_mem_ascii {marks : List Char}
    (hmarks : marks.all (fun c => 32 ≤ c.toNat && c.toNat < 127) = true)
    {c : Char} (h : c ∈ marks) : isPrintable c = true := by
  have hc := List.all_eq_true.mp hmarks c h
  rw [Bool.and_eq_true, decide_eq_true_eq, decide_eq_true_eq] at hc
  exact isPrintable_of_ascii hc.1 hc.2

theorem not_mem_lineBreaks {c : Char} (h : isPrintable c = true) : c ∉ lineBreaks := by
  have hbreaks : (lineBreaks.all fun c => !isPrintable c) = true := by decide +kernel
  intro hmem
  have hc := List.all_eq_true.mp hbreaks c hmem
  rw [h] at hc
  cases hc

theorem isPrintable_of_mem_escapeByCode {c d : Char} (h : d ∈ escapeByCode c) : isPrintable d = true := by
  have hdigits : ∀ n < 16, 32 ≤ (hexDigit n).toNat ∧ (hexDigit n).toNat < 127 := by decide
  rw [escapeByCode, List.mem_append, List.mem_append, List.mem_singleton] at h
  rcases h with (hmem | hmem) | rfl
  · exact isPrintable_of_mem_ascii (by decide) hmem
  · obtain ⟨n, hn, rfl⟩ := mem_hexDigits hmem
    exact isPrintable_of_ascii (hdigits n hn).1 (hdigits n hn).2
  · exact isPrintable_of_ascii (by decide) (by decide)

theorem isPrintable_of_mem_pair {c d : Char} (hc : isPrintable c = true) (h : d ∈ ['\\', c]) :
    isPrintable d = true := by
  rw [List.mem_cons, List.mem_singleton] at h
  rcases h with rfl | rfl
  · exact isPrintable_of_ascii (by decide) (by decide)
  · exact hc

theorem isPrintable_of_mem_escape {quote c d : Char} (hquote : quote = '\'' ∨ quote = '"') (h : d ∈ escape quote c) :
    isPrintable d = true := by
  rw [escape] at h
  split_ifs at h with hnul htab hreturn hnewline hsame hcode
  · exact isPrintable_of_mem_pair (isPrintable_of_ascii (by decide) (by decide)) h
  · exact isPrintable_of_mem_pair (isPrintable_of_ascii (by decide) (by decide)) h
  · exact isPrintable_of_mem_pair (isPrintable_of_ascii (by decide) (by decide)) h
  · exact isPrintable_of_mem_pair (isPrintable_of_ascii (by decide) (by decide)) h
  · refine isPrintable_of_mem_pair ?_ h
    rw [Bool.or_eq_true, decide_eq_true_eq, decide_eq_true_eq] at hsame
    rcases hsame with rfl | rfl
    · exact isPrintable_of_ascii (by decide) (by decide)
    · rcases hquote with rfl | rfl <;> exact isPrintable_of_ascii (by decide) (by decide)
  · exact isPrintable_of_mem_escapeByCode h
  · obtain rfl := List.mem_singleton.mp h
    rw [Bool.or_eq_true, not_or] at hcode
    simpa using hcode.2

end Backtrack.Text
