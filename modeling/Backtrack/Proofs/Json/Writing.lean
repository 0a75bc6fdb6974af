import Backtrack.Config.Document
import Backtrack.Proofs.Json.Records

/-! What is written spells what was to be written: texts with their escapes, numbers without leading zeros, and records
with each field on a line. -/

namespace Backtrack.Json

/-! ### Texts -/

theorem hexDigit_digitChar {n : Nat} (h : n < 16) : HexDigit n (Nat.digitChar n) := by
  have hall : ∀ i : Fin 16, lowerDigits[i.val]? = some (Nat.digitChar i) := by decide
  exact Or.inl (hall ⟨n, h⟩)

theorem fourHex_control {n : Nat} (h : n < 0x20) :
    FourHex n ['0', '0', Nat.digitChar (n / 16), Nat.digitChar (n % 16)] := by
  have hzero : HexDigit 0 '0' := Or.inl rfl
  have hfour := FourHex.digits hzero hzero (hexDigit_digitChar (n := n / 16) (by omega))
    (hexDigit_digitChar (n := n % 16) (by omega))
  have hvalue : ((0 * 16 + 0) * 16 + n / 16) * 16 + n % 16 = n := by omega
  rwa [hvalue] at hfour

theorem spellsChar_escaped (c : Char) : SpellsChar c (escaped c) := by
  unfold escaped
  split_ifs with hquote hback hfeed hline hreturn htab hcontrol
  · simp only [Bool.or_eq_true, decide_eq_true_eq] at hquote
    rcases hquote with rfl | rfl <;> exact .short (by decide)
  · subst hback
    exact .short (by decide)
  · subst hfeed
    exact .short (by decide)
  · subst hline
    exact .short (by decide)
  · subst hreturn
    exact .short (by decide)
  · subst htab
    exact .short (by decide)
  · exact .code (fourHex_control (by simpa [isControl] using hcontrol))
  · simp only [Bool.or_eq_true, decide_eq_true_eq, not_or] at hquote
    exact .raw ⟨hquote.1, hquote.2, by simpa [isControl] using hcontrol⟩

theorem spellsBody_escaped (text : List Char) : SpellsBody text (text.flatMap escaped) := by
  induction text with
  | nil => exact .nil
  | cons c text ih => exact .cons (spellsChar_escaped c) ih

theorem spells_writeText (text : List Char) : SpellsText text (writeText text) :=
  ⟨text.flatMap escaped, spellsBody_escaped text, rfl⟩

/-! ### Flags, numbers and absent values -/

theorem spells_writeFlag (b : Bool) : SpellsFlag b (writeFlag b) := by
  cases b
  · exact .false
  · exact .true

theorem Whole.concat {whole : List Char} (h : Whole whole) (hne : whole ≠ ['0']) {d : Char} (hd : d.isDigit = true) :
    Whole (whole ++ [d]) := by
  cases h with
  | zero => exact absurd rfl hne
  | more hfirst hzero hothers =>
      refine .more hfirst hzero (List.forall_mem_append.mpr ⟨hothers, ?_⟩)
      simpa using hd

theorem whole_digit {n : Nat} (h : n < 10) : Whole [Nat.digitChar n] := by
  have hdigit : (Nat.digitChar n).isDigit = true := by simpa using h
  rcases Nat.eq_zero_or_pos n with rfl | hpos
  · exact .zero
  · have hzero : ∀ i : Fin 10, 0 < i.val → Nat.digitChar i ≠ '0' := by decide
    exact .more hdigit (hzero ⟨n, h⟩ hpos) (by simp)

theorem whole_toDigits (n : Nat) : Whole (Nat.toDigits 10 n) := by
  induction n using Nat.strongRecOn with
  | ind n ih =>
      rw [Nat.toDigits_eq_if (by decide)]
      split_ifs with hsmall
      · exact whole_digit hsmall
      · refine (ih (n / 10) (by omega)).concat ?_ (by simpa using Nat.mod_lt n (by decide))
        intro hdigits
        have hvalue := Nat.ofDigitChars_ten_toDigits (n := n / 10)
        rw [hdigits] at hvalue
        have hzero : Nat.ofDigitChars 10 ['0'] 0 = 0 := by decide
        omega

theorem spells_writeNatural (n : Nat) : SpellsNatural n (writeNatural n) :=
  ⟨whole_toDigits n, Nat.ofDigitChars_ten_toDigits⟩

theorem spells_writeOption {α : Type} {Spells : α → List Char → Prop} {write : α → List Char}
    (h : ∀ a, Spells a (write a)) (a : Option α) : SpellsOption Spells a (writeOption write a) := by
  cases a with
  | none => exact .none
  | some a => exact .some (h a)

/-! ### Records -/

theorem blank_newline (indent : Nat) : Blank (newline indent) := by
  intro c hc
  rcases List.mem_cons.mp hc with rfl | hc
  · decide
  · rw [List.eq_of_mem_replicate hc]
    decide

variable {ρ : Type}

/-- A line is written for each field, and it is a member of its record. -/
theorem exists_members {all : List (Key ρ)} {record : ρ} (indent : Nat) {keys : List (Key ρ)}
    {members : List (String × List Char)} (hall : ∀ key ∈ keys, key ∈ all)
    (h : List.Forall₂ (fun key member => key.name = member.1 ∧ key.Spells (key.get record) member.2) keys members) :
    ∃ written : List (Option (Key ρ) × List Char),
      written.map Prod.fst = keys.map some ∧
      (written.map Prod.snd = members.map fun (name, value) =>
        newline (indent + 2) ++ writeText name.toList ++ [':', ' '] ++ value) ∧
      ∀ member ∈ written, Member all record member.1 member.2 := by
  induction h with
  | nil => exact ⟨[], rfl, rfl, by simp⟩
  | @cons key member keys members hmember h ih =>
      obtain ⟨name, value⟩ := member
      obtain ⟨rfl, hspells⟩ := hmember
      obtain ⟨hkey, hothers⟩ := List.forall_mem_cons.mp hall
      obtain ⟨written, hfst, hsnd, hwritten⟩ := ih hothers
      have hname : Padded (SpellsText key.name.toList) (newline (indent + 2) ++ writeText key.name.toList ++ []) :=
        ⟨_, _, _, blank_newline _, spells_writeText _, blank_nil, rfl⟩
      have hvalue : Padded (key.Spells (key.get record)) ([' '] ++ value ++ []) :=
        ⟨_, _, _, by simp [Blank], hspells, blank_nil, rfl⟩
      refine ⟨(some key, _) :: written, by rw [List.map_cons, hfst, List.map_cons], ?_,
        List.forall_mem_cons.mpr ⟨.field hkey hname hvalue, hwritten⟩⟩
      simp [hsnd]

theorem spells_writeRecord {keys : List (Key ρ)} (hnodup : (keys.map Key.name).Nodup) {base record : ρ} (indent : Nat)
    {members : List (String × List Char)}
    (h : List.Forall₂ (fun key member => key.name = member.1 ∧ key.Spells (key.get record) member.2) keys members) :
    SpellsRecord keys base record (writeRecord indent members) := by
  obtain ⟨written, hfst, hsnd, hwritten⟩ := exists_members indent (fun _ => id) h
  have hnames : (written.filterMap fun member => member.1.map Key.name) = keys.map Key.name := by
    calc
      _ = (written.map Prod.fst).filterMap (Option.map Key.name) := by
        rw [List.filterMap_map]
        rfl
      _ = keys.filterMap (some ∘ Key.name) := by
        rw [hfst, List.filterMap_map]
        rfl
      _ = keys.map Key.name := by rw [List.filterMap_eq_map]
  have hspells : SpellsRecord keys base record _ :=
    .object blank_nil hwritten (hnames ▸ hnodup) (fun key hkey => Or.inl (hfst ▸ List.mem_map_of_mem hkey))
      (blank_newline indent)
  rw [hsnd] at hspells
  simpa [writeRecord] using hspells

end Backtrack.Json
