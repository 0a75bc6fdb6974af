import Mathlib.Tactic.SplitIfs
import Backtrack.Text.Lowercase

/-! Folding letters. The runs lead to code points that belong to none of them, so a letter that has been folded is not
folded any further. No character that has another form in lower case is folded to a line end, so words without line
ends stay without them. -/

namespace Backtrack.Text

/-! ### Code points -/

/-- A code point is folded to itself or to its image in one of the runs. -/
theorem foldCode_eq_or_image (runs : List CaseRun) (n : Nat) :
    foldCode runs n = n ∨ ∃ run ∈ runs, run.image? n = some (foldCode runs n) := by
  induction runs with
  | nil => exact .inl rfl
  | cons run runs ih =>
      rw [foldCode]
      split_ifs with hlt
      · exact .inl rfl
      · cases himage : run.image? n with
        | none =>
            refine ih.imp_right ?_
            rintro ⟨other, hother, hfound⟩
            exact ⟨other, List.mem_cons_of_mem run hother, hfound⟩
        | some image => exact .inr ⟨run, List.mem_cons_self, himage⟩

/-- What belongs to none of the runs stays as it is. -/
theorem foldCode_eq_self {runs : List CaseRun} {n : Nat} (h : ∀ run ∈ runs, run.image? n = none) :
    foldCode runs n = n := by
  induction runs with
  | nil => rfl
  | cons run runs ih =>
      obtain ⟨hrun, hothers⟩ := List.forall_mem_cons.mp h
      rw [foldCode, hrun, Option.getD_none, ih hothers, ite_self]

namespace CaseRun

variable {run other : CaseRun} {n image : Nat}

theorem image?_eq_some : run.image? n = some image ↔
    (run.first ≤ n ∧ n ≤ run.last ∧ (n - run.first) % run.step = 0) ∧ run.target + (n - run.first) = image := by
  rw [image?, Option.ite_none_right_eq_some, Option.some.injEq]

/-- The last code point that the run can lead to. -/
def highest (run : CaseRun) : Nat :=
  run.target + (run.last - run.first)

theorem target_le_image (h : run.image? n = some image) : run.target ≤ image ∧ image ≤ run.highest := by
  obtain ⟨⟨hfirst, hlast, -⟩, rfl⟩ := image?_eq_some.mp h
  exact ⟨Nat.le_add_right _ _, Nat.add_le_add_left (Nat.sub_le_sub_right hlast _) _⟩

/-- What the first run leads to is not among the code points of the second one: it lies before or behind them, or,
where both go on by two, between them. -/
def isApart (run other : CaseRun) : Bool :=
  Nat.blt run.highest other.first || Nat.blt other.last run.target ||
    (run.step == 2 || run.first == run.last) && other.step == 2 && (run.target + other.first) % 2 == 1

theorem image?_eq_none (h : run.isApart other = true) (himage : run.image? n = some image) :
    other.image? image = none := by
  have hbounds := target_le_image himage
  obtain ⟨⟨hfirst, hlast, hstep⟩, himage⟩ := image?_eq_some.mp himage
  rw [image?, if_neg]
  rintro ⟨hle, hge, hother⟩
  simp only [isApart, Bool.or_eq_true, Bool.and_eq_true, Nat.blt_eq, beq_iff_eq] at h
  rcases h with (hbefore | hbehind) | ⟨⟨hrun, htwo⟩, hodd⟩
  · omega
  · omega
  · have heven : (n - run.first) % 2 = 0 := by
      rcases hrun with hrun | hsingle
      · rwa [hrun] at hstep
      · rw [show n - run.first = 0 by omega]
    rw [htwo] at hother
    omega

end CaseRun

theorem isApart_of_mem {run other : CaseRun} (hrun : run ∈ caseRuns) (hother : other ∈ caseRuns) :
    run.isApart other = true := by
  have hall : (caseRuns.all fun run => caseRuns.all run.isApart) = true := by decide +kernel
  exact List.all_eq_true.mp (List.all_eq_true.mp hall run hrun) other hother

theorem isValidChar_of_mem : ∀ run ∈ caseRuns,
    run.highest < 0xD800 ∨ 0xDFFF < run.target ∧ run.highest < 0x110000 := by
  decide +kernel

theorem le_target_of_mem : ∀ run ∈ caseRuns, 'a'.toNat ≤ run.target := by
  decide +kernel

theorem foldCode_foldCode (n : Nat) : foldCode caseRuns (foldCode caseRuns n) = foldCode caseRuns n := by
  rcases foldCode_eq_or_image caseRuns n with hsame | ⟨run, hrun, himage⟩
  · rw [hsame, hsame]
  · exact foldCode_eq_self fun other hother => CaseRun.image?_eq_none (isApart_of_mem hrun hother) himage

/-! ### Characters -/

theorem isValidChar_foldCode (c : Char) : (foldCode caseRuns c.toNat).isValidChar := by
  rcases foldCode_eq_or_image caseRuns c.toNat with hsame | ⟨run, hrun, himage⟩
  · rw [hsame]
    exact c.valid
  · have hbounds := CaseRun.target_le_image himage
    have hvalid := isValidChar_of_mem run hrun
    show _ < _ ∨ _ < _ ∧ _ < _
    omega

theorem toNat_foldCase (c : Char) : (foldCase c).toNat = foldCode caseRuns c.toNat := by
  rw [foldCase, Char.ofNat, dif_pos (isValidChar_foldCode c)]
  rfl

/-- A folded character is not folded any further. -/
theorem foldCase_foldCase (c : Char) : foldCase (foldCase c) = foldCase c := by
  rw [foldCase, toNat_foldCase, foldCode_foldCode, foldCase]

theorem foldCase_newline : foldCase '\n' = '\n' := by
  decide

theorem foldCase_eq_newline {c : Char} (h : foldCase c = '\n') : c = '\n' := by
  rcases foldCode_eq_or_image caseRuns c.toNat with hsame | ⟨run, hrun, himage⟩
  · rw [foldCase, hsame, Char.ofNat_toNat] at h
    exact h
  · -- all images lie behind the line end
    have hle := (CaseRun.target_le_image himage).1
    have htarget := le_target_of_mem run hrun
    rw [← toNat_foldCase, h] at hle
    exact absurd (Nat.le_trans htarget hle) (by decide)

end Backtrack.Text
