import Mathlib.Tactic.SplitIfs
import Backtrack.Json.Value
import Backtrack.Proofs.Json.Skipping

/-! Reading single values. What spells a value is taken from the front of a text as that value, with the blanks
before it; whatever does not go on with a number may stand behind it. -/

namespace Backtrack.Json

/-! ### What spells a value -/

inductive SpellsFlag : Bool → List Char → Prop
  | true : SpellsFlag true ['t', 'r', 'u', 'e']
  | false : SpellsFlag false ['f', 'a', 'l', 's', 'e']

def SpellsNatural (n : Nat) (text : List Char) : Prop :=
  Whole text ∧ Nat.ofDigitChars 10 text 0 = n

inductive SpellsOption {α : Type} (Spells : α → List Char → Prop) : Option α → List Char → Prop
  | none : SpellsOption Spells none ['n', 'u', 'l', 'l']
  | some {a : α} {text : List Char} (h : Spells a text) : SpellsOption Spells (some a) text

/-- One of several named values: its name, or an object whose only member has that name and is `null`. -/
inductive SpellsName (name : List Char) : List Char → Prop
  | text {text : List Char} (h : SpellsText name text) : SpellsName name text
  | member {before spelled between value : List Char} (hbefore : Blank before) (h : SpellsText name spelled)
      (hbetween : Blank between) (hvalue : Padded (· = ['n', 'u', 'l', 'l']) value) :
      SpellsName name ('\x7b' :: (before ++ spelled ++ between ++ ':' :: (value ++ ['\x7d'])))

/-! ### Taking a value -/

/-- The parser takes the text as the value. -/
structure Parser.Takes {α : Type} (r : Parser α) (text : List Char) (a : α) : Prop where
  opens : ∃ c ∈ text.head?, Opens c
  reads : ∀ {blanks rest : List Char}, Blank blanks → Ends rest → r.read (blanks ++ (text ++ rest)) = .ok (a, rest)

theorem readFrom_append {α : Type} {begin : Char → List Char → Except Rejection (α × List Char)}
    {blanks : List Char} {c : Char} (hblanks : Blank blanks) (hc : isBlank c = false) (text : List Char) :
    readFrom begin (blanks ++ c :: text) = begin c text := by
  rw [readFrom, skipBlanks_append hblanks, skipBlanks_cons hc]

theorem Parser.takes_cons {α : Type} {r : Parser α} {begin : Char → List Char → Except Rejection (α × List Char)}
    (hr : r.read = readFrom begin) {c : Char} {tail : List Char} {a : α} (hc : Opens c)
    (h : ∀ rest, Ends rest → begin c (tail ++ rest) = .ok (a, rest)) : r.Takes (c :: tail) a where
  opens := ⟨c, rfl, hc⟩
  reads := by
    intro blanks rest hblanks hrest
    rw [hr, List.cons_append, readFrom_append hblanks hc.1, h rest hrest]

theorem Parser.Takes.map {α β : Type} {r : Parser α} {text : List Char} {a : α} (h : r.Takes text a) (f : α → β) :
    (r.map f).Takes text (f a) where
  opens := h.opens
  reads := by
    intro blanks rest hblanks hrest
    show (r.read (blanks ++ (text ++ rest))).map _ = _
    rw [h.reads hblanks hrest]
    rfl

/-! ### Texts -/

theorem not_isLowSurrogate (c : Char) : isLowSurrogate c.toNat = false := by
  have := c.valid
  simp only [isLowSurrogate, Bool.and_eq_false_iff, decide_eq_false_iff_not]
  unfold UInt32.isValidChar Nat.isValidChar at this
  unfold Char.toNat
  omega

theorem not_isHighSurrogate (c : Char) : isHighSurrogate c.toNat = false := by
  have := c.valid
  simp only [isHighSurrogate, Bool.and_eq_false_iff, decide_eq_false_iff_not]
  unfold UInt32.isValidChar Nat.isValidChar at this
  unfold Char.toNat
  omega

/-- Behind a backslash, the rest of any form of a character but the raw one. -/
theorem escape_append {c : Char} {form : List Char} (h : SpellsChar c ('\\' :: form)) (rest : List Char) :
    escape (form ++ rest) = .ok (c, rest) := by
  cases h with
  | raw h => exact absurd rfl h.2.1
  | short h =>
      obtain ⟨hshort, hne⟩ := shortEscape?_of_mem h
      rw [List.cons_append, escape, if_neg hne, hshort]
      rfl
  | @code _ digits h =>
      show unicodeEscape (digits ++ rest) = .ok (c, rest)
      simp only [unicodeEscape, hexFour_append h, not_isLowSurrogate, not_isHighSurrogate, Bool.false_eq_true, if_false,
        Char.ofNat_toNat]
  | @pair _ high low first second hhigh hlow hc hfirst hsecond =>
      have hnotLow : isLowSurrogate high = false := by
        simp only [isLowSurrogate, Bool.and_eq_false_iff, decide_eq_false_iff_not]
        omega
      have hisHigh : isHighSurrogate high = true := by simp [isHighSurrogate, hhigh]
      have hisLow : isLowSurrogate low = true := by simp [isLowSurrogate, hlow]
      show unicodeEscape (first ++ '\\' :: 'u' :: second ++ rest) = .ok (c, rest)
      rw [List.append_assoc]
      simp only [unicodeEscape, hexFour_append hfirst, hnotLow, hisHigh, Bool.false_eq_true, if_false, if_true,
        List.cons_append, expect, hexFour_append hsecond, hisLow, ← hc, Char.ofNat_toNat]

theorem textBody_cons (c : Char) (rest : List Char) :
    textBody (c :: rest) =
      if c = '"' then .ok ([], rest)
      else if c = '\\' then
        match escape rest with
        | .error r => .error r
        | .ok (d, behind) => (textBody behind).map fun (body, behind) => (d :: body, behind)
      else if isControl c then .error .malformed
      else (textBody rest).map fun (body, behind) => (c :: body, behind) := by
  rw [textBody]
  split_ifs
  · rfl
  · split
    · rename_i r hescape
      rw [hescape]
    · rename_i d behind hescape
      simp only [hescape]
      cases textBody behind <;> rfl
  · rfl
  · cases textBody rest <;> rfl

theorem textBody_form {c : Char} {form : List Char} (hc : SpellsChar c form) (text : List Char) :
    textBody (form ++ text) = (textBody text).map fun (value, rest) => (c :: value, rest) := by
  by_cases hraw : form = [c] ∧ Raw c
  · obtain ⟨rfl, hraw⟩ := hraw
    rw [List.singleton_append, textBody_cons, if_neg hraw.1, if_neg hraw.2.1, hraw.not_isControl]
    exact if_neg Bool.false_ne_true
  · obtain ⟨tail, rfl⟩ : ∃ tail, form = '\\' :: tail := by
      cases hc with
      | raw h => exact absurd ⟨rfl, h⟩ hraw
      | short h => exact ⟨_, rfl⟩
      | code h => exact ⟨_, rfl⟩
      | pair => exact ⟨_, rfl⟩
    rw [List.cons_append, textBody_cons, if_neg (by decide), if_pos rfl, escape_append hc]

theorem textBody_append {value body : List Char} (h : SpellsBody value body) (rest : List Char) :
    textBody (body ++ '"' :: rest) = .ok (value, rest) := by
  induction h with
  | nil => rw [List.nil_append, textBody_cons, if_pos rfl]
  | cons hc h ih =>
      rw [List.append_assoc, textBody_form hc, ih]
      rfl

theorem string_takes {value text : List Char} (h : SpellsText value text) : string.Takes text value := by
  obtain ⟨body, hbody, rfl⟩ := h
  refine Parser.takes_cons rfl (by decide) fun rest _ => ?_
  rw [List.append_assoc]
  exact textBody_append hbody rest

theorem memberName_takes {value text : List Char} (h : SpellsText value text) : memberName.Takes text value := by
  obtain ⟨body, hbody, rfl⟩ := h
  refine Parser.takes_cons rfl (by decide) fun rest _ => ?_
  rw [List.append_assoc]
  exact textBody_append hbody rest

/-! ### Flags, numbers and absent values -/

theorem flag_takes {b : Bool} {text : List Char} (h : SpellsFlag b text) : flag.Takes text b := by
  cases h with
  | true => exact Parser.takes_cons rfl (by decide) fun rest _ => rfl
  | false => exact Parser.takes_cons rfl (by decide) fun rest _ => rfl

theorem le_ofDigitChars (text : List Char) (n : Nat) : n ≤ Nat.ofDigitChars 10 text n := by
  induction text generalizing n with
  | nil => exact Nat.le_refl n
  | cons d digits ih =>
      rw [Nat.ofDigitChars_cons]
      have := ih (10 * n + (d.toNat - '0'.toNat))
      omega

/-- Digits are added up as long as the number fits. -/
theorem Magnitude.addWhole_of_le {digits : List Char} {n : Nat} (h : Nat.ofDigitChars 10 digits n ≤ counterLimit) :
    Magnitude.addWhole ⟨n, 0⟩ digits = ⟨Nat.ofDigitChars 10 digits n, 0⟩ := by
  induction digits generalizing n with
  | nil => rfl
  | cons d digits ih =>
      have hextend : Magnitude.extend ⟨n, 0⟩ d = 10 * n + (d.toNat - '0'.toNat) := by
        rw [extend, Nat.mul_comm]
      rw [Nat.ofDigitChars_cons] at h ⊢
      have hle := le_ofDigitChars digits (10 * n + (d.toNat - '0'.toNat))
      rw [addWhole, hextend, if_pos (hle.trans h), ih h]

theorem unsigned_append {text rest : List Char} {n : Nat} (h : SpellsNatural n text) (hn : n ≤ counterLimit)
    (hrest : Ends rest) : unsigned false (text ++ rest) = .ok (n, rest) := by
  obtain ⟨hwhole, rfl⟩ := h
  obtain ⟨hdigits, hzero⟩ := hwhole.digits
  obtain ⟨htake, hdrop⟩ := span_digits hdigits.2 hrest.not_isDigit
  obtain ⟨d, digits, rfl⟩ := List.exists_cons_of_ne_nil hdigits.1
  have hlead : ¬(d = '0' ∧ digits ≠ []) := by
    simpa [List.length_pos_iff] using hzero
  simp only [unsigned, htake, hdrop, if_neg hlead, Magnitude.addWhole_of_le hn, Bool.false_eq_true, if_false, if_true]
  cases rest with
  | nil => rfl
  | cons c rest =>
      obtain ⟨-, hpoint, he, hE⟩ := hrest c rfl
      have hmark : isExponentMark c = false := by simp [isExponentMark, he, hE]
      simp only [hpoint, hmark, Bool.false_eq_true, if_false]

theorem SpellsNatural.head? {n : Nat} {text : List Char} (h : SpellsNatural n text) : text.head? ≠ some 'n' := by
  intro hn
  have hdigit := h.1.digits.1.2 'n' (List.mem_of_mem_head? hn)
  exact absurd hdigit (by decide)

theorem natural_takes {n : Nat} {text : List Char} (h : SpellsNatural n text) (hn : n ≤ counterLimit) :
    natural.Takes text n := by
  have hdigits := h.1.digits.1
  obtain ⟨d, digits, rfl⟩ := List.exists_cons_of_ne_nil hdigits.1
  have hd : d.isDigit = true := hdigits.2 d List.mem_cons_self
  refine Parser.takes_cons rfl (opens_of_isDigit hd) fun rest hrest => ?_
  have hsign : d ≠ '-' := by
    rintro rfl
    exact absurd hd (by decide)
  rw [beginNatural, if_pos (by simp [isDigit_eq, hd]), number, if_neg hsign]
  exact unsigned_append h hn hrest

theorem optional_takes {α : Type} {r : Parser α} {Spells : α → List Char → Prop} {a : Option α} {text : List Char}
    (h : SpellsOption Spells a text)
    (hr : ∀ b ∈ a, ∀ text, Spells b text → r.Takes text b ∧ text.head? ≠ some 'n') : (optional r).Takes text a := by
  cases h with
  | none => exact Parser.takes_cons rfl (by decide) fun rest _ => rfl
  | @some b text h =>
      obtain ⟨htakes, hhead⟩ := hr b rfl text h
      obtain ⟨c, hc, hopens⟩ := htakes.opens
      obtain ⟨tail, rfl⟩ : ∃ tail, text = c :: tail := List.head?_eq_some_iff.mp hc
      refine Parser.takes_cons rfl hopens fun rest hrest => ?_
      have hne : c ≠ 'n' := by simpa using hhead
      have hread : r.read (c :: (tail ++ rest)) = .ok (b, rest) := htakes.reads blank_nil hrest
      rw [beginOption, if_neg hne, hread]
      rfl

/-! ### Named values -/

theorem SpellsName.head? {name text : List Char} (h : SpellsName name text) : text.head? ≠ some 'n' := by
  cases h with
  | text h =>
      obtain ⟨body, -, rfl⟩ := h
      simp
  | member => simp

theorem named_takes {α : Type} {ofName? : List Char → Option α} {name text : List Char} {a : α}
    (ha : ofName? name = some a) (h : SpellsName name text) : (named ofName?).Takes text a := by
  cases h with
  | text h =>
      obtain ⟨body, hbody, rfl⟩ := h
      refine Parser.takes_cons rfl (by decide) fun rest _ => ?_
      rw [List.append_assoc]
      simp [beginNamed, textBody_append hbody, bind, Except.bind, ha, pure, Except.pure]
  | @member before spelled between value hbefore h hbetween hvalue =>
      obtain ⟨blanks, null, behind, hblanks, rfl, hbehind, rfl⟩ := hvalue
      refine Parser.takes_cons rfl (by decide) fun rest _ => ?_
      have hends : ∀ text, Ends (between ++ ':' :: text) := fun text => (ends_cons (by decide) text).blank hbetween
      have hclosing : skipBlanks (behind ++ '\x7d' :: rest) = '\x7d' :: rest := by
        rw [skipBlanks_append hbehind, skipBlanks_cons rfl]
      simp only [beginNamed, show ('\x7b' : Char) ≠ '"' by decide, if_false, if_true, List.append_assoc,
        List.cons_append, (memberName_takes h).reads hbefore (hends _), bind, Except.bind, ha,
        expectColon_append hbetween, List.nil_append, readFrom_append hblanks (c := 'n') rfl, expect, Except.map,
        hclosing]
      rfl

end Backtrack.Json
