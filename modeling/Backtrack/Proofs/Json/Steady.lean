import Backtrack.Proofs.Json.Extending

/-! Parsers whose texts go on. What a parser takes, and leaves a rest of, it takes in the same way from a longer text.
A record shows its end itself, so it needs no rest, and behind a document that is a record there may be blanks only. -/

namespace Backtrack.Json

/-! ### Single values -/

section

variable {α β : Type}

/-- What the parser takes it takes in the same way when the text goes on, if anything was left of it. -/
structure Parser.Steady (r : Parser α) : Prop where
  more : ∀ {text rest a}, r.read text = .ok (a, rest) → rest ≠ [] →
    ∀ more, r.read (text ++ more) = .ok (a, rest ++ more)

theorem readFrom_more {begin : Char → List Char → Except Rejection (α × List Char)} {text rest more : List Char} {a : α}
    (h : readFrom begin text = .ok (a, rest))
    (hbegin : ∀ c behind, begin c behind = .ok (a, rest) → begin c (behind ++ more) = .ok (a, rest ++ more)) :
    readFrom begin (text ++ more) = .ok (a, rest ++ more) := by
  unfold readFrom at h ⊢
  cases hblanks : skipBlanks text with
  | nil =>
      rw [hblanks] at h
      cases h
  | cons c behind =>
      rw [hblanks] at h
      rw [skipBlanks_more hblanks]
      exact hbegin c behind h

theorem Parser.Steady.map {r : Parser α} (h : r.Steady) (f : α → β) : (r.map f).Steady where
  more := by
    intro text rest b hread hrest more
    obtain ⟨⟨a, behind⟩, ha, hpair⟩ := ok_of_map hread
    cases hpair
    show (r.read (text ++ more)).map _ = _
    rw [h.more ha hrest]
    rfl

theorem map_more {f : List Char → Except Rejection (List Char)} {a b : α} {text rest more : List Char}
    (h : (f text).map (fun behind => (a, behind)) = .ok (b, rest))
    (hf : ∀ behind, f text = .ok behind → f (text ++ more) = .ok (behind ++ more)) :
    (f (text ++ more)).map (fun behind => (a, behind)) = .ok (b, rest ++ more) := by
  obtain ⟨behind, hbehind, hpair⟩ := ok_of_map h
  have hmore := hf behind hbehind
  cases hpair
  rw [hmore]
  rfl

theorem string_steady : string.Steady where
  more h hrest more := by
    refine readFrom_more h fun c behind hbegin => ?_
    unfold beginText at hbegin ⊢
    split_ifs at hbegin ⊢
    exact textBody_more hbegin more

theorem memberName_more {text rest name : List Char} (h : memberName.read text = .ok (name, rest)) (more : List Char) :
    memberName.read (text ++ more) = .ok (name, rest ++ more) := by
  refine readFrom_more h fun c behind hbegin => ?_
  split_ifs at hbegin ⊢
  exact textBody_more hbegin more

theorem flag_steady : flag.Steady where
  more h hrest more := by
    refine readFrom_more h fun c behind hbegin => ?_
    unfold beginFlag at hbegin ⊢
    split_ifs at hbegin ⊢
    · exact map_more hbegin fun last hexpect => expect_more hexpect more
    · exact map_more hbegin fun last hexpect => expect_more hexpect more

theorem natural_steady : natural.Steady where
  more h hrest more := by
    refine readFrom_more h fun c behind hbegin => ?_
    unfold beginNatural at hbegin ⊢
    split_ifs at hbegin ⊢
    exact number_more hbegin hrest more

theorem optional_steady {r : Parser α} (hr : r.Steady) : (optional r).Steady where
  more h hrest more := by
    refine readFrom_more h fun c behind hbegin => ?_
    unfold beginOption at hbegin ⊢
    split_ifs at hbegin ⊢
    · exact map_more hbegin fun last hexpect => expect_more hexpect more
    · exact (hr.map some).more hbegin hrest more

theorem ok_of_bind {x : Except Rejection α} {f : α → Except Rejection β} {b : β} (h : (x >>= f) = .ok b) :
    ∃ a, x = .ok a ∧ f a = .ok b := by
  cases x with
  | error r => cases h
  | ok a => exact ⟨a, rfl, h⟩

theorem named_steady (ofName? : List Char → Option α) : (named ofName?).Steady where
  more {text rest a} h hrest more := by
    refine readFrom_more h fun c behind hbegin => ?_
    unfold beginNamed at hbegin ⊢
    split_ifs at hbegin ⊢
    · obtain ⟨⟨name, last⟩, hbody, hname⟩ := ok_of_bind hbegin
      rw [textBody_more hbody]
      dsimp only at hname
      split at hname
      · rename_i b hb
        cases hname
        simp only [bind, Except.bind, hb]
        rfl
      · cases hname
    · obtain ⟨⟨name, after⟩, hmember, hname⟩ := ok_of_bind hbegin
      rw [memberName_more hmember]
      dsimp only at hname
      split at hname
      · cases hname
      · rename_i b hb
        obtain ⟨value, hcolon, hname⟩ := ok_of_bind hname
        obtain ⟨⟨⟨⟩, last⟩, hnull, hname⟩ := ok_of_bind hname
        obtain ⟨rest', hclose, hname⟩ := ok_of_bind hname
        cases hname
        have hlast := readFrom_more hnull fun c behind hbegin => by
          split_ifs at hbegin ⊢
          exact map_more hbegin fun last hexpect => expect_more hexpect more
        simp only [bind, Except.bind, hb, expectColon_more hcolon, hlast, expect_skipBlanks_more hclose]
        rfl

end

/-! ### Records -/

def Turn.more (more : List Char) : Turn → Turn
  | .item text => .item (text ++ more)
  | .finish rest => .finish (rest ++ more)

theorem nextTurn_more {closing : Char} {first : Bool} {text : List Char} {turn : Turn}
    (h : nextTurn closing first text = .ok turn) (more : List Char) :
    nextTurn closing first (text ++ more) = .ok (turn.more more) := by
  unfold nextTurn at h ⊢
  cases hblanks : skipBlanks text with
  | nil =>
      rw [hblanks] at h
      cases h
  | cons c behind =>
      rw [hblanks] at h
      rw [skipBlanks_more hblanks]
      dsimp only at h ⊢
      split_ifs at h ⊢
      · cases h
        rfl
      · cases h
        rfl
      · cases hnext : skipBlanks behind with
        | nil =>
            rw [hnext] at h
            cases h
        | cons d item =>
            rw [hnext] at h
            rw [skipBlanks_more hnext]
            dsimp only at h ⊢
            split_ifs at h ⊢
            cases h
            rfl

section

variable {ρ : Type} {fields : List (Field ρ)} {record result : ρ} {text rest : List Char}

theorem readItems_more (hfields : ∀ field ∈ fields, field.parser.Steady) {first : Bool}
    (h : readItems first record fields text = .ok (result, rest)) (more : List Char) :
    readItems first record fields (text ++ more) = .ok (result, rest ++ more) := by
  induction fields generalizing first record text with
  | nil => exact map_more h fun behind hclose => expect_skipBlanks_more hclose more
  | cons field fields ih =>
      obtain ⟨hfield, hothers⟩ := List.forall_mem_cons.mp hfields
      rw [readItems] at h ⊢
      cases hturn : nextTurn ']' first text with
      | error r =>
          rw [hturn] at h
          cases h
      | ok turn =>
          rw [hturn] at h
          rw [nextTurn_more hturn]
          cases turn with
          | finish behind =>
              cases h
              rfl
          | item item =>
              dsimp only [Turn.more] at h ⊢
              cases hread : field.parser.read item with
              | error r =>
                  rw [hread] at h
                  cases h
              | ok p =>
                  obtain ⟨update, behind⟩ := p
                  rw [hread] at h
                  have hbehind : behind ≠ [] :=
                    List.ne_nil_of_length_pos (Nat.zero_lt_of_lt (length_of_readItems h))
                  rw [hfield.more hread hbehind]
                  exact ih hothers h

theorem readMembers_more (hfields : ∀ field ∈ fields, field.parser.Steady) {seen : List String} {first : Bool}
    (h : readMembers fields seen first record text = .ok (result, rest)) (more : List Char) :
    readMembers fields seen first record (text ++ more) = .ok (result, rest ++ more) := by
  fun_induction readMembers fields seen first record text with
  | case2 seen first record text behind hturn =>
      cases h
      exact readMembers_finish _ (nextTurn_more hturn more)
  | case7 seen first record text inner name after hname hfind value hcolon last hskip _ _ _ hturn _ ih =>
      have hlast : last ≠ [] := List.ne_nil_of_length_pos (Nat.zero_lt_of_lt (length_of_readMembers h))
      rw [← ih h]
      exact readMembers_other record (nextTurn_more hturn more) (textBody_more hname more) hfind
        (expectColon_more hcolon more) (skip_more hskip hlast more)
  | case11 seen first record text inner name after hname field hfind hseen value hcolon update last hread _ _ _ hturn _
      ih =>
      have hlast : last ≠ [] := List.ne_nil_of_length_pos (Nat.zero_lt_of_lt (length_of_readMembers h))
      have hsteady := hfields field (List.mem_of_find?_eq_some hfind)
      rw [← ih h]
      exact readMembers_field record (nextTurn_more hturn more) (textBody_more hname more) hfind (by simpa using hseen)
        (expectColon_more hcolon more) (hsteady.more hread hlast more)
  | _ => cases h

/-- A record shows its end itself, so it is taken in the same way whatever stands behind it. -/
theorem record_more {base : ρ} (hfields : ∀ field ∈ fields, field.parser.Steady)
    (h : (Json.record fields base).read text = .ok (result, rest)) (more : List Char) :
    (Json.record fields base).read (text ++ more) = .ok (result, rest ++ more) := by
  refine readFrom_more h fun c behind hbegin => ?_
  unfold beginRecord at hbegin ⊢
  split_ifs at hbegin ⊢
  · exact readItems_more hfields hbegin more
  · exact readMembers_more hfields hbegin more

theorem record_steady {base : ρ} (hfields : ∀ field ∈ fields, field.parser.Steady) :
    (Json.record fields base).Steady where
  more h _ more := record_more hfields h more

end

/-! ### Documents -/

section

variable {ρ : Type} {fields : List (Field ρ)} {base : ρ}

theorem document_eq_ok {α : Type} {r : Parser α} {text : List Char} {a : α} :
    document r text = .ok a ↔ ∃ rest, r.read text = .ok (a, rest) ∧ Blank rest := by
  unfold document
  cases hread : r.read text with
  | error e => simp
  | ok p =>
      obtain ⟨b, rest⟩ := p
      dsimp only
      constructor
      · intro h
        split_ifs at h with hempty
        cases h
        exact ⟨rest, rfl, skipBlanks_eq_nil.mp (List.isEmpty_iff.mp hempty)⟩
      · rintro ⟨_, hpair, hblank⟩
        cases hpair
        exact if_pos (List.isEmpty_iff.mpr (skipBlanks_eq_nil.mpr hblank))

/-- Behind a document that is a record there may be blanks, and nothing else. -/
theorem document_append (hfields : ∀ field ∈ fields, field.parser.Steady) {text : List Char} {a : ρ}
    (h : document (Json.record fields base) text = .ok a) (more : List Char) (b : ρ) :
    document (Json.record fields base) (text ++ more) = .ok b ↔ Blank more ∧ b = a := by
  obtain ⟨rest, hread, hrest⟩ := document_eq_ok.mp h
  have hmore := record_more hfields hread more
  rw [document_eq_ok, hmore]
  constructor
  · rintro ⟨rest', hpair, hblank⟩
    cases hpair
    exact ⟨fun c hc => hblank c (List.mem_append_right _ hc), rfl⟩
  · rintro ⟨hblank, rfl⟩
    exact ⟨rest ++ more, rfl, hrest.append hblank⟩

/-- What is left of a document without something that is no blank is no document. -/
theorem document_front (hfields : ∀ field ∈ fields, field.parser.Steady) {front rest : List Char} {a : ρ}
    (h : document (Json.record fields base) (front ++ rest) = .ok a) (hrest : ¬Blank rest) :
    ∃ r, document (Json.record fields base) front = .error r := by
  cases hfront : document (Json.record fields base) front with
  | error r => exact ⟨r, rfl⟩
  | ok b => exact absurd ((document_append hfields hfront rest a).mp h).1 hrest

end

end Backtrack.Json
