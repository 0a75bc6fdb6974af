import Mathlib.Data.List.TakeWhile
import Mathlib.Tactic.FinCases
import Mathlib.Tactic.SplitIfs
import Backtrack.Json.Skip
import Backtrack.Proofs.Json.Grammar

/-! Passing over values. A value that is well-formed is passed over up to its last character, whatever its kind, its
depth and the blanks in it. Of what comes behind only a number takes notice, which must not go on there. -/

namespace Backtrack.Json

/-! ### Blanks -/

theorem isBlank_iff {c : Char} : isBlank c = true ↔ c ∈ [' ', '\t', '\n', '\r'] := by
  simp [isBlank, or_assoc]

theorem Blank.append {blanks more : List Char} (h : Blank blanks) (hmore : Blank more) : Blank (blanks ++ more) :=
  List.forall_mem_append.mpr ⟨h, hmore⟩

theorem skipBlanks_append {blanks : List Char} (h : Blank blanks) (text : List Char) :
    skipBlanks (blanks ++ text) = skipBlanks text :=
  List.dropWhile_append_of_pos fun c hc => isBlank_iff.mpr (h c hc)

theorem skipBlanks_cons {c : Char} (h : isBlank c = false) (text : List Char) :
    skipBlanks (c :: text) = c :: text := by
  rw [skipBlanks, List.dropWhile_cons_of_neg (by simp [h])]

theorem skipBlanks_eq_nil {text : List Char} : skipBlanks text = [] ↔ Blank text := by
  rw [skipBlanks, List.dropWhile_eq_nil_iff]
  exact forall₂_congr fun c _ => isBlank_iff

/-- What comes next does not go on with a number. -/
def Ends (rest : List Char) : Prop :=
  ∀ c ∈ rest.head?, c.isDigit = false ∧ c ≠ '.' ∧ c ≠ 'e' ∧ c ≠ 'E'

theorem ends_nil : Ends [] := by
  simp [Ends]

theorem ends_cons {c : Char} (h : c ∈ [',', ':', ']', '\x7d', ' ', '\t', '\n', '\r']) (rest : List Char) :
    Ends (c :: rest) := by
  intro d hd
  rw [List.head?_cons, Option.mem_some_iff] at hd
  subst hd
  fin_cases h <;> decide

theorem Ends.blank {blanks rest : List Char} (hblanks : Blank blanks) (h : Ends rest) : Ends (blanks ++ rest) := by
  cases blanks with
  | nil => exact h
  | cons c blanks =>
      exact ends_cons (List.mem_append_right [',', ':', ']', '\x7d'] (hblanks c List.mem_cons_self)) _

/-! ### Texts -/

theorem hexValue?_of_hexDigit {n : Nat} {c : Char} (h : HexDigit n c) : hexValue? c = some n := by
  have hlower : ∀ i : Fin 16, hexValue? (lowerDigits.get i) = some i.val := by decide
  have hupper : ∀ i : Fin 16, hexValue? (upperDigits.get i) = some i.val := by decide
  rcases h with h | h
  · obtain ⟨hlt, rfl⟩ := List.getElem?_eq_some_iff.mp h
    exact hlower ⟨n, hlt⟩
  · obtain ⟨hlt, rfl⟩ := List.getElem?_eq_some_iff.mp h
    exact hupper ⟨n, hlt⟩

theorem hexFour_append {n : Nat} {digits : List Char} (h : FourHex n digits) (rest : List Char) :
    hexFour (digits ++ rest) = .ok (n, rest) := by
  cases h with
  | digits ha hb hc hd =>
      simp only [List.cons_append, List.nil_append, hexFour, hexValue?_of_hexDigit ha, hexValue?_of_hexDigit hb,
        hexValue?_of_hexDigit hc, hexValue?_of_hexDigit hd]

theorem shortEscape?_of_mem {letter c : Char} (h : (letter, c) ∈ shortForms) :
    shortEscape? letter = some c ∧ letter ≠ 'u' := by
  have hall : ∀ form ∈ shortForms, shortEscape? form.1 = some form.2 ∧ form.1 ≠ 'u' := by decide
  exact hall _ h

theorem Raw.not_isControl {c : Char} (h : Raw c) : isControl c = false := by
  simpa [isControl] using h.2.2

theorem skipText_quote (rest : List Char) : skipText ('"' :: rest) = .ok rest := by
  rw [skipText.eq_def]
  rfl

theorem skipText_raw {c : Char} (h : Raw c) (rest : List Char) : skipText (c :: rest) = skipText rest := by
  rw [skipText.eq_def]
  simp only [h.1, h.2.1, h.not_isControl, if_false, Bool.false_eq_true]

theorem skipText_short {letter c : Char} (h : (letter, c) ∈ shortForms) (rest : List Char) :
    skipText ('\\' :: letter :: rest) = skipText rest := by
  obtain ⟨hshort, hne⟩ := shortEscape?_of_mem h
  rw [skipText.eq_def]
  simp [hne, hshort]

theorem skipText_code {n : Nat} {digits : List Char} (h : FourHex n digits) (rest : List Char) :
    skipText ('\\' :: 'u' :: (digits ++ rest)) = skipText rest := by
  rw [skipText.eq_def]
  simp only [show ('\\' : Char) ≠ '"' by decide, if_false, if_true]
  split <;> simp_all [hexFour_append h]

theorem skipText_append {body : List Char} (h : Body body) (rest : List Char) :
    skipText (body ++ '"' :: rest) = .ok rest := by
  induction h with
  | nil => exact skipText_quote rest
  | raw hc h ih => rw [List.cons_append, skipText_raw hc, ih]
  | short hc h ih => rw [List.cons_append, List.cons_append, skipText_short hc, ih]
  | code hn h ih => rw [List.cons_append, List.cons_append, List.append_assoc, skipText_code hn, ih]

/-! ### Numbers -/

theorem isDigit_eq (c : Char) : isDigit c = c.isDigit :=
  rfl

/-- Digits are told apart from what comes behind them. -/
theorem span_digits {digits rest : List Char} (hdigits : ∀ c ∈ digits, c.isDigit = true)
    (hrest : ∀ c ∈ rest.head?, c.isDigit = false) :
    (digits ++ rest).takeWhile isDigit = digits ∧ (digits ++ rest).dropWhile isDigit = rest := by
  have hall : ∀ c ∈ digits, isDigit c = true := hdigits
  rw [List.takeWhile_append_of_pos hall, List.dropWhile_append_of_pos hall]
  cases rest with
  | nil => simp
  | cons c rest =>
      have hc : ¬isDigit c = true := by simpa [isDigit_eq] using hrest c rfl
      rw [List.takeWhile_cons_of_neg hc, List.dropWhile_cons_of_neg hc, List.append_nil]
      exact ⟨rfl, rfl⟩

theorem skipDigits_append {digits rest : List Char} (h : Digits digits)
    (hrest : ∀ c ∈ rest.head?, c.isDigit = false) : skipDigits (digits ++ rest) = .ok rest := by
  obtain ⟨htake, hdrop⟩ := span_digits h.2 hrest
  rw [skipDigits, htake, hdrop, if_neg (by simpa using h.1)]

theorem Ends.not_isDigit {rest : List Char} (h : Ends rest) : ∀ c ∈ rest.head?, c.isDigit = false :=
  fun c hc => (h c hc).1

theorem skipExponent_append {exponent rest : List Char} (h : Exponent exponent) (hrest : Ends rest) :
    skipExponent (exponent ++ rest) = .ok rest := by
  cases h with
  | none =>
      cases rest with
      | nil => rfl
      | cons c rest =>
          obtain ⟨-, -, he, hE⟩ := hrest c rfl
          have hmark : ¬isExponentMark c = true := by simp [isExponentMark, he, hE]
          rw [List.nil_append, skipExponent.eq_def]
          exact if_neg hmark
  | @some mark sign digits hmark hsign h =>
      have hdigits := skipDigits_append h hrest.not_isDigit
      have hmark : isExponentMark mark = true := by simpa [isExponentMark] using hmark
      rw [List.cons_append, List.append_assoc, skipExponent.eq_def]
      simp only [hmark, if_true]
      obtain ⟨d, digits, rfl⟩ := List.exists_cons_of_ne_nil h.1
      have hd : d.isDigit = true := h.2 d List.mem_cons_self
      have hnone : (decide (d = '+') || decide (d = '-')) = false := by
        simp only [Bool.or_eq_false_iff, decide_eq_false_iff_not]
        constructor <;> rintro rfl <;> exact absurd hd (by decide)
      simp only [List.mem_cons, List.not_mem_nil, or_false] at hsign
      rcases hsign with rfl | rfl | rfl
      · simp only [List.nil_append, List.cons_append, hnone, Bool.false_eq_true, if_false]
        exact hdigits
      · exact hdigits
      · exact hdigits

/-- Neither the digits before the point nor those behind it run on into an exponent. -/
theorem Exponent.not_isDigit {exponent rest : List Char} (h : Exponent exponent) (hrest : Ends rest) :
    ∀ c ∈ (exponent ++ rest).head?, c.isDigit = false ∧ c ≠ '.' := by
  cases h with
  | none => exact fun c hc => ⟨(hrest c hc).1, (hrest c hc).2.1⟩
  | @some mark sign digits hmark hsign h =>
      intro c hc
      rw [List.cons_append, List.head?_cons, Option.mem_some_iff] at hc
      subst hc
      fin_cases hmark <;> decide

theorem skipFraction_append {fraction exponent rest : List Char} (hfraction : Fraction fraction)
    (hexponent : Exponent exponent) (hrest : Ends rest) :
    skipFraction (fraction ++ (exponent ++ rest)) = .ok rest := by
  have hskip := skipExponent_append hexponent hrest
  have hhead := hexponent.not_isDigit hrest
  cases hfraction with
  | none =>
      rw [List.nil_append, ← hskip]
      cases hcase : exponent ++ rest with
      | nil => rfl
      | cons c behind =>
          have hc : c ≠ '.' := (hhead c (by rw [hcase]; rfl)).2
          rw [skipFraction.eq_def]
          exact if_neg hc
  | some h =>
      rw [List.cons_append, skipFraction.eq_def]
      simp only [if_true, skipDigits_append h fun c hc => (hhead c hc).1]
      exact hskip

theorem Fraction.not_isDigit {fraction rest : List Char} (h : Fraction fraction)
    (hrest : ∀ c ∈ rest.head?, c.isDigit = false) : ∀ c ∈ (fraction ++ rest).head?, c.isDigit = false := by
  cases h with
  | none => exact hrest
  | some h =>
      intro c hc
      cases hc
      rfl

theorem Whole.digits {whole : List Char} (h : Whole whole) :
    Digits whole ∧ ¬(whole.head? = some '0' ∧ 1 < whole.length) := by
  cases h with
  | zero => simp [Digits]
  | more hfirst hne hothers =>
      refine ⟨⟨by simp, ?_⟩, by simp [hne]⟩
      simpa using ⟨hfirst, hothers⟩

theorem skipUnsigned_append {whole fraction exponent rest : List Char} (hwhole : Whole whole)
    (hfraction : Fraction fraction) (hexponent : Exponent exponent) (hrest : Ends rest) :
    skipUnsigned (whole ++ (fraction ++ (exponent ++ rest))) = .ok rest := by
  obtain ⟨hdigits, hzero⟩ := hwhole.digits
  have hhead := hfraction.not_isDigit fun c hc => (hexponent.not_isDigit hrest c hc).1
  have htake := (span_digits hdigits.2 hhead).1
  have hfirst : (whole ++ (fraction ++ (exponent ++ rest))).head? = whole.head? := by
    obtain ⟨d, digits, rfl⟩ := List.exists_cons_of_ne_nil hdigits.1
    rfl
  simp only [skipUnsigned, skipDigits_append hdigits hhead, htake, hfirst, if_neg hzero]
  exact skipFraction_append hfraction hexponent hrest

/-! ### Scalars -/

theorem expect_append (word rest : List Char) : expect word (word ++ rest) = .ok rest := by
  induction word with
  | nil => rfl
  | cons c word ih => simpa [expect] using ih

/-- With what a value can begin. -/
def Opens (c : Char) : Prop :=
  isBlank c = false ∧ c ≠ ',' ∧ c ≠ ':' ∧ c ≠ ']' ∧ c ≠ '\x7d'

instance (c : Char) : Decidable (Opens c) :=
  inferInstanceAs (Decidable (_ ∧ _))

theorem opens_of_isDigit {c : Char} (h : c.isDigit = true) : Opens c := by
  refine ⟨?_, ?_, ?_, ?_, ?_⟩
  · simp only [isBlank, Bool.or_eq_false_iff, decide_eq_false_iff_not]
    refine ⟨⟨⟨?_, ?_⟩, ?_⟩, ?_⟩ <;> rintro rfl <;> exact absurd h (by decide)
  all_goals rintro rfl; exact absurd h (by decide)

/-- A scalar is passed over from its first character on. -/
structure SkipsAs (c : Char) (tail : List Char) : Prop where
  opens : Opens c
  plain : c ≠ '[' ∧ c ≠ '\x7b'
  skips : ∀ rest, Ends rest → skipScalar c (tail ++ rest) = .ok rest

theorem SkipsAs.of_word {c : Char} {word : List Char} (hc : Opens c ∧ c ≠ '[' ∧ c ≠ '\x7b')
    (h : ∀ text, skipScalar c text = expect word text) : SkipsAs c word where
  opens := hc.1
  plain := hc.2
  skips rest _ := by rw [h, expect_append]

theorem skipScalar_digit {c : Char} (h : c.isDigit = true) (text : List Char) :
    skipScalar c text = skipUnsigned (c :: text) := by
  have hne : ∀ d : Char, d.isDigit = false → c ≠ d := by
    rintro d hd rfl
    simp [h] at hd
  simp only [skipScalar, hne '"' rfl, hne 'n' rfl, hne 't' rfl, hne 'f' rfl, hne '-' rfl, isDigit_eq, h, if_false,
    if_true]

theorem Number.skips {text : List Char} (h : Number text) : ∃ c tail, text = c :: tail ∧ SkipsAs c tail := by
  obtain ⟨sign, whole, fraction, exponent, hsign, hwhole, hfraction, hexponent, rfl⟩ := h
  have hskip : ∀ rest, Ends rest → skipUnsigned (whole ++ fraction ++ exponent ++ rest) = .ok rest := by
    intro rest hrest
    simpa using skipUnsigned_append hwhole hfraction hexponent hrest
  simp only [List.mem_cons, List.not_mem_nil, or_false] at hsign
  rcases hsign with rfl | rfl
  · obtain ⟨d, digits, rfl⟩ := List.exists_cons_of_ne_nil hwhole.digits.1.1
    have hd : d.isDigit = true := hwhole.digits.1.2 d List.mem_cons_self
    refine ⟨d, digits ++ fraction ++ exponent, rfl, opens_of_isDigit hd, ?_, fun rest hrest => ?_⟩
    · constructor <;> rintro rfl <;> exact absurd hd (by decide)
    · rw [skipScalar_digit hd]
      exact hskip rest hrest
  · exact ⟨'-', whole ++ fraction ++ exponent, rfl, by decide, by decide, hskip⟩

theorem Scalar.skips {text : List Char} (h : Scalar text) : ∃ c tail, text = c :: tail ∧ SkipsAs c tail := by
  cases h with
  | null => exact ⟨'n', _, rfl, .of_word (by decide) fun _ => rfl⟩
  | true => exact ⟨'t', _, rfl, .of_word (by decide) fun _ => rfl⟩
  | false => exact ⟨'f', _, rfl, .of_word (by decide) fun _ => rfl⟩
  | @text body h =>
      refine ⟨'"', _, rfl, by decide, by decide, fun rest _ => ?_⟩
      show skipText (body ++ ['"'] ++ rest) = .ok rest
      rw [List.append_assoc]
      exact skipText_append h rest
  | number h => exact h.skips

/-! ### Nested values -/

theorem skip_blanks {place : Place} {stack : List Bracket} {blanks : List Char} (h : Blank blanks)
    (text : List Char) : skip place stack (blanks ++ text) = skip place stack text := by
  induction blanks with
  | nil => rfl
  | cons c blanks ih =>
      have hc : isBlank c = true := isBlank_iff.mpr (h c List.mem_cons_self)
      rw [List.cons_append, skip.eq_def]
      exact (if_pos hc).trans (ih fun d hd => h d (List.mem_cons_of_mem c hd))

/-- Behind a value: the end, if no brackets are open, or else what follows between them. -/
def leave (stack : List Bracket) (rest : List Char) : Except Rejection (List Char) :=
  if stack.isEmpty then .ok rest else skip .follow stack rest

theorem skip_array (stack : List Bracket) (rest : List Char) :
    skip .value stack ('[' :: rest) = skip .opened (.array :: stack) rest := by
  rw [skip.eq_def]
  rfl

theorem skip_object (stack : List Bracket) (rest : List Char) :
    skip .value stack ('\x7b' :: rest) = skip .opened (.object :: stack) rest := by
  rw [skip.eq_def]
  rfl

theorem skip_scalar {stack : List Bracket} {c : Char} {tail rest : List Char} (h : SkipsAs c tail) (hrest : Ends rest) :
    skip .value stack (c :: (tail ++ rest)) = leave stack rest := by
  rw [skip.eq_def]
  simp only [h.opens.1, h.plain.1, h.plain.2, if_false, Bool.false_eq_true]
  split <;> simp_all [h.skips rest hrest, leave]

theorem skip_opened_closing (bracket : Bracket) (outer : List Bracket) (rest : List Char) :
    skip .opened (bracket :: outer) (bracket.closing :: rest) = leave outer rest := by
  rw [skip.eq_def]
  cases bracket <;> rfl

theorem skip_opened {bracket : Bracket} {outer : List Bracket} {c : Char} {rest : List Char} (hc : isBlank c = false)
    (hne : c ≠ bracket.closing) :
    skip .opened (bracket :: outer) (c :: rest) = skip bracket.item (bracket :: outer) (c :: rest) := by
  rw [skip.eq_def]
  simp only [hc, hne, if_false, Bool.false_eq_true]

theorem skip_follow_closing (bracket : Bracket) (outer : List Bracket) (rest : List Char) :
    skip .follow (bracket :: outer) (bracket.closing :: rest) = leave outer rest := by
  rw [skip.eq_def]
  cases bracket <;> rfl

theorem skip_follow_comma (bracket : Bracket) (outer : List Bracket) (rest : List Char) :
    skip .follow (bracket :: outer) (',' :: rest) = skip bracket.item (bracket :: outer) rest := by
  rw [skip.eq_def]
  cases bracket <;> rfl

theorem expectColon_append {blanks : List Char} (h : Blank blanks) (rest : List Char) :
    expectColon (blanks ++ ':' :: rest) = .ok rest := by
  rw [expectColon, skipBlanks_append h, skipBlanks_cons rfl]
  rfl

theorem skip_name {stack : List Bracket} {name blanks : List Char} (hname : Body name) (hblanks : Blank blanks)
    (rest : List Char) :
    skip .name stack ('"' :: (name ++ '"' :: (blanks ++ ':' :: rest))) = skip .value stack rest := by
  have htext := skipText_append hname (blanks ++ ':' :: rest)
  have hcolon := expectColon_append hblanks rest
  rw [skip.eq_def]
  simp only [show isBlank '"' = false from rfl, if_false, Bool.false_eq_true, if_true]
  split
  · simp_all
  · split <;> simp_all

theorem skip_first_item {bracket : Bracket} {outer : List Bracket} {blanks tail : List Char} {c : Char}
    (hblanks : Blank blanks) (hc : Opens c) :
    skip .opened (bracket :: outer) (blanks ++ c :: tail) =
      skip bracket.item (bracket :: outer) (blanks ++ c :: tail) := by
  have hne : c ≠ bracket.closing := by
    cases bracket
    · exact hc.2.2.2.1
    · exact hc.2.2.2.2
  rw [skip_blanks hblanks, skip_blanks hblanks, skip_opened hc.1 hne]

/-- How the parts of a value are passed over. What is between brackets is passed over from the opening bracket on as
it is from the first item on. -/
def Skips : Part → List Char → Prop
  | .value, text =>
    (∃ c ∈ text.head?, Opens c) ∧
      ∀ stack rest, Ends rest → skip .value stack (text ++ rest) = leave stack rest
  | .item, text =>
    ∀ bracket outer rest, Ends rest →
      skip .value (bracket :: outer) (text ++ rest) = skip .follow (bracket :: outer) rest ∧
        skip .opened (.array :: outer) (text ++ rest) = skip .value (.array :: outer) (text ++ rest)
  | .items, text =>
    ∀ outer rest,
      skip .value (.array :: outer) (text ++ ']' :: rest) = leave outer rest ∧
        skip .opened (.array :: outer) (text ++ ']' :: rest) = leave outer rest
  | .members, text =>
    ∀ outer rest,
      skip .name (.object :: outer) (text ++ '\x7d' :: rest) = leave outer rest ∧
        skip .opened (.object :: outer) (text ++ '\x7d' :: rest) = leave outer rest

theorem Scalar.passes {text : List Char} (h : Scalar text) : Skips .value text := by
  obtain ⟨c, tail, rfl, hskips⟩ := h.skips
  exact ⟨⟨c, rfl, hskips.opens⟩, fun stack rest hrest => skip_scalar hskips hrest⟩

theorem Skips.item {before value after : List Char} (hbefore : Blank before) (h : Skips .value value)
    (hafter : Blank after) : Skips .item (before ++ value ++ after) := by
  intro bracket outer rest hrest
  obtain ⟨⟨c, hc, hopens⟩, hskip⟩ := h
  obtain ⟨tail, rfl⟩ : ∃ tail, value = c :: tail := List.head?_eq_some_iff.mp hc
  simp only [List.append_assoc]
  constructor
  · rw [skip_blanks hbefore, hskip _ _ (hrest.blank hafter), leave, List.isEmpty_cons, if_neg Bool.false_ne_true,
      skip_blanks hafter]
  · exact skip_first_item hbefore hopens

theorem Skips.lastItem {item : List Char} (h : Skips .item item) : Skips .items item := by
  intro outer rest
  obtain ⟨hvalue, hopened⟩ := h .array outer (']' :: rest) (ends_cons (by decide) rest)
  rw [hopened, hvalue]
  exact ⟨skip_follow_closing .array outer rest, skip_follow_closing .array outer rest⟩

theorem Skips.nextItem {item items : List Char} (h : Skips .item item) (hrest : Skips .items items) :
    Skips .items (item ++ ',' :: items) := by
  intro outer rest
  obtain ⟨hvalue, hopened⟩ := h .array outer (',' :: (items ++ ']' :: rest)) (ends_cons (by decide) _)
  rw [List.append_assoc, List.cons_append, hopened, hvalue, skip_follow_comma]
  exact ⟨(hrest outer rest).1, (hrest outer rest).1⟩

/-- A member up to what follows its value. -/
theorem Skips.member {before name between item rest : List Char} (hbefore : Blank before) (hname : Body name)
    (hbetween : Blank between) (h : Skips .item item) (hrest : Ends rest) (outer : List Bracket) :
    skip .name (.object :: outer) (before ++ '"' :: (name ++ '"' :: (between ++ ':' :: item)) ++ rest) =
        skip .follow (.object :: outer) rest ∧
      skip .opened (.object :: outer) (before ++ '"' :: (name ++ '"' :: (between ++ ':' :: item)) ++ rest) =
        skip .follow (.object :: outer) rest := by
  simp only [List.append_assoc, List.cons_append]
  rw [skip_first_item hbefore (by decide)]
  have hskip : skip .name (.object :: outer) (before ++ '"' :: (name ++ '"' :: (between ++ ':' :: (item ++ rest)))) =
      skip .follow (.object :: outer) rest := by
    rw [skip_blanks hbefore, skip_name hname hbetween, (h .object outer rest hrest).1]
  exact ⟨hskip, hskip⟩

theorem Wellformed.skips {part : Part} {text : List Char} (h : Wellformed part text) : Skips part text := by
  induction h with
  | scalar h => exact h.passes
  | emptyArray h =>
      refine ⟨⟨'[', rfl, by decide⟩, fun stack rest _ => ?_⟩
      rw [List.cons_append, skip_array, List.append_assoc, skip_blanks h]
      exact skip_opened_closing .array stack rest
  | array h ih =>
      refine ⟨⟨'[', rfl, by decide⟩, fun stack rest _ => ?_⟩
      rw [List.cons_append, skip_array, List.append_assoc]
      exact (ih stack rest).2
  | emptyObject h =>
      refine ⟨⟨'\x7b', rfl, by decide⟩, fun stack rest _ => ?_⟩
      rw [List.cons_append, skip_object, List.append_assoc, skip_blanks h]
      exact skip_opened_closing .object stack rest
  | object h ih =>
      refine ⟨⟨'\x7b', rfl, by decide⟩, fun stack rest _ => ?_⟩
      rw [List.cons_append, skip_object, List.append_assoc]
      exact (ih stack rest).2
  | item hbefore h hafter ih => exact ih.item hbefore hafter
  | lastItem h ih => exact ih.lastItem
  | nextItem h hrest ih ihrest => exact ih.nextItem ihrest
  | lastMember hbefore hname hbetween h ih =>
      intro outer rest
      have hends : Ends ('\x7d' :: rest) := ends_cons (by decide) rest
      have hmember := ih.member hbefore hname hbetween hends outer
      rw [hmember.1, hmember.2]
      exact ⟨skip_follow_closing .object outer rest, skip_follow_closing .object outer rest⟩
  | @nextMember before name between item members hbefore hname hbetween h hrest ih ihrest =>
      intro outer rest
      have hends : Ends (',' :: (members ++ '\x7d' :: rest)) := ends_cons (by decide) _
      have hmember := ih.member hbefore hname hbetween hends outer
      have hnext : skip .follow (.object :: outer) (',' :: (members ++ '\x7d' :: rest)) = leave outer rest := by
        rw [skip_follow_comma]
        exact (ihrest outer rest).1
      simp only [List.append_assoc, List.cons_append] at hmember ⊢
      rw [hmember.1, hmember.2]
      exact ⟨hnext, hnext⟩

/-- A value is passed over up to its end, whatever blanks stand before it. -/
theorem skipValue_append {blanks value rest : List Char} (hblanks : Blank blanks) (h : Value value)
    (hrest : Ends rest) : skipValue (blanks ++ (value ++ rest)) = .ok rest := by
  rw [skipValue, skip_blanks hblanks, (Wellformed.skips h).2 [] rest hrest]
  rfl

end Backtrack.Json
