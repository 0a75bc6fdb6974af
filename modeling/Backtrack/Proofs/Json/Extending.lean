import Backtrack.Proofs.Json.Records

/-! Texts that go on. What has been taken from the front of a text is taken in the same way when the text goes on, and
what was left is left with the rest behind it. Only a number has to end before the text does, since more digits would
go on with it; what stands between quotes or brackets shows its end itself. -/

namespace Backtrack.Json

/-! ### Words and texts -/

theorem expect_more {word text rest : List Char} (h : expect word text = .ok rest) (more : List Char) :
    expect word (text ++ more) = .ok (rest ++ more) := by
  induction word generalizing text with
  | nil =>
      cases h
      rfl
  | cons w ws ih =>
      cases text with
      | nil => cases h
      | cons c text =>
          rw [expect] at h
          rw [List.cons_append, expect]
          split_ifs at h ⊢
          exact ih h

theorem skipBlanks_more {text rest : List Char} {c : Char} (h : skipBlanks text = c :: rest) (more : List Char) :
    skipBlanks (text ++ more) = c :: (rest ++ more) := by
  rw [skipBlanks] at h ⊢
  rw [List.dropWhile_append, h]
  rfl

/-- A word behind blanks. -/
theorem expect_skipBlanks_more {w : Char} {ws text rest : List Char} (h : expect (w :: ws) (skipBlanks text) = .ok rest)
    (more : List Char) : expect (w :: ws) (skipBlanks (text ++ more)) = .ok (rest ++ more) := by
  cases hblanks : skipBlanks text with
  | nil =>
      rw [hblanks] at h
      cases h
  | cons c behind =>
      rw [hblanks] at h
      rw [skipBlanks_more hblanks]
      exact expect_more h more

theorem expectColon_more {text rest : List Char} (h : expectColon text = .ok rest) (more : List Char) :
    expectColon (text ++ more) = .ok (rest ++ more) :=
  expect_skipBlanks_more h more

theorem hexFour_more {text rest : List Char} {n : Nat} (h : hexFour text = .ok (n, rest)) (more : List Char) :
    hexFour (text ++ more) = .ok (n, rest ++ more) := by
  match text with
  | a :: b :: c :: d :: text =>
      simp only [List.cons_append, hexFour] at h ⊢
      split at h
      · cases h
        rfl
      · cases h
  | [] | [_] | [_, _] | [_, _, _] => cases h

theorem unicodeEscape_more {text rest : List Char} {c : Char} (h : unicodeEscape text = .ok (c, rest))
    (more : List Char) : unicodeEscape (text ++ more) = .ok (c, rest ++ more) := by
  unfold unicodeEscape at h ⊢
  cases hhigh : hexFour text with
  | error r =>
      rw [hhigh] at h
      cases h
  | ok p =>
      obtain ⟨high, behind⟩ := p
      rw [hhigh] at h
      rw [hexFour_more hhigh]
      dsimp only at h ⊢
      split_ifs at h ⊢
      · cases hexpect : expect ['\\', 'u'] behind with
        | error r =>
            rw [hexpect] at h
            cases h
        | ok second =>
            rw [hexpect] at h
            rw [expect_more hexpect]
            dsimp only at h ⊢
            cases hlow : hexFour second with
            | error r =>
                rw [hlow] at h
                cases h
            | ok p =>
                obtain ⟨low, last⟩ := p
                rw [hlow] at h
                rw [hexFour_more hlow]
                dsimp only at h ⊢
                split_ifs at h ⊢
                simp only [Except.ok.injEq, Prod.mk.injEq] at h ⊢
                exact ⟨h.1, congrArg (· ++ more) h.2⟩
      · simp only [Except.ok.injEq, Prod.mk.injEq] at h ⊢
        exact ⟨h.1, congrArg (· ++ more) h.2⟩

theorem escape_more {text rest : List Char} {c : Char} (h : escape text = .ok (c, rest)) (more : List Char) :
    escape (text ++ more) = .ok (c, rest ++ more) := by
  cases text with
  | nil => cases h
  | cons d text =>
      rw [escape] at h
      rw [List.cons_append, escape]
      split_ifs at h ⊢
      · exact unicodeEscape_more h more
      · split at h
        · cases h
          rfl
        · cases h

theorem textBody_more {text body rest : List Char} (h : textBody text = .ok (body, rest)) (more : List Char) :
    textBody (text ++ more) = .ok (body, rest ++ more) := by
  induction hlength : text.length using Nat.strongRecOn generalizing text body rest with
  | ind n ih =>
      subst hlength
      cases text with
      | nil =>
          rw [textBody] at h
          cases h
      | cons c text =>
          rw [textBody_cons] at h
          rw [List.cons_append, textBody_cons]
          split_ifs at h ⊢
          · cases h
            rfl
          · cases hescape : escape text with
            | error r =>
                rw [hescape] at h
                cases h
            | ok p =>
                obtain ⟨d, behind⟩ := p
                rw [hescape] at h
                obtain ⟨⟨inner, last⟩, hinner, hpair⟩ := ok_of_map h
                cases hpair
                have hlt := length_of_escape hescape
                rw [escape_more hescape]
                dsimp only
                rw [ih behind.length (by simp only [List.length_cons]; omega) hinner rfl]
                rfl
          · obtain ⟨⟨inner, last⟩, hinner, hpair⟩ := ok_of_map h
            cases hpair
            rw [ih text.length (by simp) hinner rfl]
            rfl

/-! ### Numbers -/

theorem span_more {p : Char → Bool} {text : List Char} (h : text.dropWhile p ≠ []) (more : List Char) :
    (text ++ more).takeWhile p = text.takeWhile p ∧ (text ++ more).dropWhile p = text.dropWhile p ++ more := by
  have hnot : (text.takeWhile p).length ≠ text.length := by
    intro hlength
    have hsplit := congrArg List.length (List.takeWhile_append_dropWhile (p := p) (l := text))
    rw [List.length_append, hlength] at hsplit
    exact h (List.eq_nil_of_length_eq_zero (by omega))
  rw [List.takeWhile_append, List.dropWhile_append, if_neg hnot, if_neg (by simpa using h)]
  exact ⟨rfl, rfl⟩

theorem unsigned_more {text rest : List Char} {n : Nat} {negative : Bool} (h : unsigned negative text = .ok (n, rest))
    (hrest : rest ≠ []) (more : List Char) : unsigned negative (text ++ more) = .ok (n, rest ++ more) := by
  have hdrop : rest = text.dropWhile isDigit := by
    unfold unsigned at h
    dsimp only at h
    repeat' split at h
    all_goals cases h
    all_goals rfl
  obtain ⟨htake, hbehind⟩ := span_more (hdrop ▸ hrest) more
  obtain ⟨c, behind, hcons⟩ := List.exists_cons_of_ne_nil hrest
  unfold unsigned at h ⊢
  rw [htake, hbehind]
  rw [← hdrop, hcons] at h ⊢
  dsimp only [List.cons_append] at h ⊢
  cases hdigits : text.takeWhile isDigit with
  | nil =>
      rw [hdigits] at h
      cases h
  | cons first others =>
      rw [hdigits] at h
      dsimp only at h ⊢
      split_ifs at h ⊢
      cases h
      rfl

theorem number_more {text rest : List Char} {n : Nat} (h : number text = .ok (n, rest)) (hrest : rest ≠ [])
    (more : List Char) : number (text ++ more) = .ok (n, rest ++ more) := by
  cases text with
  | nil => cases h
  | cons c text =>
      rw [number] at h
      rw [List.cons_append, number]
      split_ifs at h ⊢
      · exact unsigned_more h hrest more
      · exact unsigned_more h hrest more

/-! ### Values that are passed over -/

theorem skipText_cons (c : Char) (rest : List Char) :
    skipText (c :: rest) =
      if c = '"' then .ok rest
      else if c = '\\' then
        match rest with
        | [] => .error .truncated
        | d :: behind =>
          if d = 'u' then
            match hexFour behind with
            | .error r => .error r
            | .ok (_, behind) => skipText behind
          else if (shortEscape? d).isSome then skipText behind
          else .error .malformed
      else if isControl c then .error .malformed
      else skipText rest := by
  rw [skipText.eq_def]
  dsimp only
  split_ifs
  · rfl
  · cases rest with
    | nil => rfl
    | cons d behind =>
        dsimp only
        split_ifs
        · split <;> (rename_i hhex; rw [hhex])
        · rfl
        · rfl
  · rfl
  · rfl

theorem skipText_more {text rest : List Char} (h : skipText text = .ok rest) (more : List Char) :
    skipText (text ++ more) = .ok (rest ++ more) := by
  induction hlength : text.length using Nat.strongRecOn generalizing text rest with
  | ind n ih =>
      subst hlength
      match text with
      | [] =>
          rw [skipText] at h
          cases h
      | [c] =>
          rw [skipText_cons] at h
          rw [List.cons_append, skipText_cons]
          split_ifs at h ⊢
          · cases h
            rfl
          · rw [skipText] at h
            cases h
      | c :: d :: text =>
          rw [skipText_cons] at h
          rw [List.cons_append, skipText_cons]
          dsimp only [List.cons_append] at h ⊢
          split_ifs at h ⊢
          · cases h
            rfl
          · cases hhex : hexFour text with
            | error r =>
                rw [hhex] at h
                cases h
            | ok p =>
                rw [hhex] at h
                have hlt := length_of_hexFour hhex
                rw [hexFour_more hhex]
                exact ih p.2.length (by simp only [List.length_cons]; omega) h rfl
          · exact ih text.length (by simp only [List.length_cons]; omega) h rfl
          · exact ih (d :: text).length (by simp) h rfl

theorem skipDigits_more {text rest : List Char} (h : skipDigits text = .ok rest) (hrest : rest ≠ [])
    (more : List Char) : skipDigits (text ++ more) = .ok (rest ++ more) := by
  unfold skipDigits at h ⊢
  split_ifs at h with hempty
  cases h
  obtain ⟨htake, hdrop⟩ := span_more hrest more
  rw [htake, hdrop, if_neg hempty]

theorem skipExponent_more {text rest : List Char} (h : skipExponent text = .ok rest) (hrest : rest ≠ [])
    (more : List Char) : skipExponent (text ++ more) = .ok (rest ++ more) := by
  match text with
  | [] =>
      cases h
      exact absurd rfl hrest
  | [c] =>
      simp only [skipExponent] at h
      simp only [List.cons_append, List.nil_append, skipExponent]
      split_ifs at h ⊢
      cases h
      rfl
  | c :: d :: text =>
      simp only [skipExponent] at h
      simp only [List.cons_append, skipExponent]
      split_ifs at h ⊢
      · exact skipDigits_more h hrest more
      · exact skipDigits_more h hrest more
      · cases h
        rfl

theorem skipFraction_more {text rest : List Char} (h : skipFraction text = .ok rest) (hrest : rest ≠ [])
    (more : List Char) : skipFraction (text ++ more) = .ok (rest ++ more) := by
  cases text with
  | nil =>
      cases h
      exact absurd rfl hrest
  | cons c text =>
      rw [skipFraction] at h
      rw [List.cons_append, skipFraction]
      split_ifs at h ⊢
      · cases hdigits : skipDigits text with
        | error r =>
            rw [hdigits] at h
            cases h
        | ok behind =>
            rw [hdigits] at h
            have hbehind : behind ≠ [] := by
              rintro rfl
              cases h
              exact hrest rfl
            rw [skipDigits_more hdigits hbehind]
            exact skipExponent_more h hrest more
      · exact skipExponent_more h hrest more

theorem skipUnsigned_more {text rest : List Char} (h : skipUnsigned text = .ok rest) (hrest : rest ≠ [])
    (more : List Char) : skipUnsigned (text ++ more) = .ok (rest ++ more) := by
  unfold skipUnsigned at h ⊢
  cases hdigits : skipDigits text with
  | error r =>
      rw [hdigits] at h
      cases h
  | ok behind =>
      rw [hdigits] at h
      dsimp only at h
      split_ifs at h with hzero
      have hbehind : behind ≠ [] := by
        rintro rfl
        cases h
        exact hrest rfl
      have hdrop : behind = text.dropWhile isDigit := by
        unfold skipDigits at hdigits
        split_ifs at hdigits
        cases hdigits
        rfl
      have hhead : (text ++ more).head? = text.head? := by
        cases text with
        | nil => exact absurd hdrop hbehind
        | cons c text => rfl
      rw [skipDigits_more hdigits hbehind, (span_more (hdrop ▸ hbehind) more).1, hhead]
      dsimp only
      rw [if_neg hzero]
      exact skipFraction_more h hrest more

theorem skipScalar_more {c : Char} {text rest : List Char} (h : skipScalar c text = .ok rest) (hrest : rest ≠ [])
    (more : List Char) : skipScalar c (text ++ more) = .ok (rest ++ more) := by
  unfold skipScalar at h ⊢
  split_ifs at h ⊢
  · exact skipText_more h more
  · exact expect_more h more
  · exact expect_more h more
  · exact expect_more h more
  · exact skipUnsigned_more h hrest more
  · exact skipUnsigned_more h hrest more

theorem skip_cons (place : Place) (stack : List Bracket) (c : Char) (rest : List Char) :
    skip place stack (c :: rest) =
      if isBlank c then skip place stack rest
      else
        match place, stack with
        | .value, stack =>
          if c = '[' then skip .opened (.array :: stack) rest
          else if c = '\x7b' then skip .opened (.object :: stack) rest
          else
            match skipScalar c rest with
            | .error r => .error r
            | .ok behind => if stack.isEmpty then .ok behind else skip .follow stack behind
        | .name, stack =>
          if c = '"' then
            match skipText rest with
            | .error r => .error r
            | .ok behind =>
              match expectColon behind with
              | .error r => .error r
              | .ok behind => skip .value stack behind
          else .error .malformed
        | .opened, [] => .error .malformed
        | .opened, bracket :: outer =>
          if c = bracket.closing then
            if outer.isEmpty then .ok rest else skip .follow outer rest
          else skip bracket.item (bracket :: outer) (c :: rest)
        | .follow, [] => .error .malformed
        | .follow, bracket :: outer =>
          if c = bracket.closing then
            if outer.isEmpty then .ok rest else skip .follow outer rest
          else if c = ',' then skip bracket.item (bracket :: outer) rest
          else .error .malformed := by
  rw [skip.eq_def]
  dsimp only
  refine ite_congr rfl (fun _ => rfl) fun _ => ?_
  cases place with
  | value =>
      dsimp only
      split_ifs
      · rfl
      · rfl
      all_goals split <;> (rename_i hscalar; simp only [hscalar])
  | name =>
      dsimp only
      split_ifs
      · split <;> (rename_i hname; simp only [hname])
        split <;> (rename_i hcolon; simp only [hcolon])
      · rfl
  | opened => cases stack <;> rfl
  | follow => cases stack <;> rfl

theorem skip_more {place : Place} {stack : List Bracket} {text rest : List Char} (h : skip place stack text = .ok rest)
    (hrest : rest ≠ []) (more : List Char) : skip place stack (text ++ more) = .ok (rest ++ more) := by
  fun_induction skip place stack text generalizing rest with
  | case1 | case5 | case8 | case9 | case11 | case12 | case16 | case20 => cases h
  | case2 place stack c behind hblank ih =>
      rw [List.cons_append, skip_cons, if_pos hblank]
      exact ih h hrest
  | case3 behind stack hblank ih =>
      rw [List.cons_append, skip_cons, if_neg hblank]
      exact ih h hrest
  | case4 behind stack hblank hne ih =>
      rw [List.cons_append, skip_cons, if_neg hblank]
      exact ih h hrest
  | case6 c text hblank stack harray hobject behind hscalar _ hempty =>
      cases h
      rw [List.cons_append, skip_cons, if_neg hblank]
      simp only [if_neg harray, if_neg hobject, skipScalar_more hscalar hrest, if_pos hempty]
  | case7 c text hblank stack harray hobject behind hscalar _ hempty ih =>
      have hbehind : behind ≠ [] := List.ne_nil_of_length_pos (Nat.zero_lt_of_lt (length_of_skip h))
      rw [List.cons_append, skip_cons, if_neg hblank]
      simp only [if_neg harray, if_neg hobject, skipScalar_more hscalar hbehind, if_neg hempty]
      exact ih h hrest
  | case10 text stack behind hname _ value hcolon _ hblank ih =>
      rw [List.cons_append, skip_cons, if_neg hblank]
      simp only [if_true, skipText_more hname, expectColon_more hcolon]
      exact ih h hrest
  | case13 behind bracket outer hempty hblank =>
      cases h
      rw [List.cons_append, skip_cons, if_neg hblank]
      simp only [if_true, if_pos hempty]
  | case14 behind bracket outer hempty hblank ih =>
      rw [List.cons_append, skip_cons, if_neg hblank]
      simp only [if_true, if_neg hempty]
      exact ih h hrest
  | case15 c behind hblank bracket outer hne ih =>
      rw [List.cons_append, skip_cons, if_neg hblank]
      simp only [if_neg hne]
      exact ih h hrest
  | case17 behind bracket outer hempty hblank =>
      cases h
      rw [List.cons_append, skip_cons, if_neg hblank]
      simp only [if_true, if_pos hempty]
  | case18 behind bracket outer hempty hblank ih =>
      rw [List.cons_append, skip_cons, if_neg hblank]
      simp only [if_true, if_neg hempty]
      exact ih h hrest
  | case19 behind bracket outer hblank hne ih =>
      rw [List.cons_append, skip_cons, if_neg hblank]
      simp only [if_neg hne, if_true]
      exact ih h hrest

end Backtrack.Json
