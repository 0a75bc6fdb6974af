import Backtrack.Proofs.Json.Writing

/-! Texts that are cut off. Of a written value less than all of it is left: then the parser comes to the end of the
text and says so, and nothing in front of the cut is taken amiss. Only what is left of a number is a number again; then
the record around it comes to the end of the text. -/

namespace Backtrack.Json

/-- Something is missing at the end of the text. -/
def Cut (front text : List Char) : Prop :=
  ∃ rest, rest ≠ [] ∧ text = front ++ rest

variable {front text : List Char}

theorem not_cut_nil : ¬Cut front [] := by
  rintro ⟨rest, hrest, htext⟩
  exact hrest (List.append_eq_nil_iff.mp htext.symm).2

theorem cut_nil (h : text ≠ []) : Cut [] text :=
  ⟨text, h, rfl⟩

/-- A cut is made in the first part, or behind it. -/
theorem Cut.append {left right : List Char} (h : Cut front (left ++ right)) :
    Cut front left ∨ ∃ behind, front = left ++ behind ∧ Cut behind right := by
  obtain ⟨rest, hrest, htext⟩ := h
  rcases List.append_eq_append_iff.mp htext with ⟨behind, hfront, hright⟩ | ⟨between, hleft, hbetween⟩
  · exact .inr ⟨behind, hfront, rest, hrest, hright⟩
  · cases between with
    | nil => exact .inr ⟨[], by simpa using hleft.symm, rest, hrest, hbetween.symm⟩
    | cons c between => exact .inl ⟨c :: between, by simp, hleft⟩

theorem Cut.cons {c : Char} (h : Cut front (c :: text)) :
    front = [] ∨ ∃ behind, front = c :: behind ∧ Cut behind text := by
  rcases (show Cut front ([c] ++ text) from h).append with ⟨rest, hrest, hc⟩ | hbehind
  · left
    cases front with
    | nil => rfl
    | cons d front => simp_all
  · exact .inr hbehind

/-- What is left of blanks is blank. -/
theorem Blank.cut (h : Blank text) (hcut : Cut front text) : Blank front := by
  obtain ⟨rest, -, rfl⟩ := hcut
  exact fun c hc => h c (List.mem_append_left rest hc)

theorem Ends.cut (h : Ends text) (hcut : Cut front text) : Ends front := by
  obtain ⟨rest, -, rfl⟩ := hcut
  cases front with
  | nil => exact ends_nil
  | cons c front => exact h

/-! ### Words and texts -/

theorem expect_cut {word : List Char} (h : Cut front word) : expect word front = .error .truncated := by
  induction word generalizing front with
  | nil => exact absurd h not_cut_nil
  | cons w ws ih =>
      rcases h.cons with rfl | ⟨behind, rfl, hbehind⟩
      · rfl
      · rw [expect, if_pos rfl, ih hbehind]

theorem HexDigit.utf8Size {n : Nat} {c : Char} (h : HexDigit n c) : c.utf8Size = 1 := by
  have hlower : lowerDigits.all (·.utf8Size = 1) := by decide
  have hupper : upperDigits.all (·.utf8Size = 1) := by decide
  rcases h with hc | hc
  · exact of_decide_eq_true (List.all_eq_true.mp hlower c (List.mem_of_getElem? hc))
  · exact of_decide_eq_true (List.all_eq_true.mp hupper c (List.mem_of_getElem? hc))

theorem hexFour_cut {n : Nat} {digits : List Char} (h : FourHex n digits) (hcut : Cut front digits) :
    hexFour front = .error .truncated := by
  obtain ⟨ha, hb, hc, hd⟩ := h
  rcases hcut.cons with rfl | ⟨_, rfl, hthree⟩
  · rfl
  rcases hthree.cons with rfl | ⟨_, rfl, htwo⟩
  · simp [hexFour, ha.utf8Size]
  rcases htwo.cons with rfl | ⟨_, rfl, hone⟩
  · simp [hexFour, ha.utf8Size, hb.utf8Size]
  rcases hone.cons with rfl | ⟨_, rfl, hnone⟩
  · simp [hexFour, ha.utf8Size, hb.utf8Size, hc.utf8Size]
  · exact absurd hnone not_cut_nil

/-- Behind a backslash, a form of a character that is cut off. -/
theorem escape_cut {c : Char} {form : List Char} (h : SpellsChar c ('\\' :: form)) (hcut : Cut front form) :
    escape front = .error .truncated := by
  cases h with
  | raw h => exact absurd rfl h.2.1
  | short h =>
      rcases hcut.cons with rfl | ⟨_, rfl, hnone⟩
      · rfl
      · exact absurd hnone not_cut_nil
  | code h =>
      rcases hcut.cons with rfl | ⟨behind, rfl, hdigits⟩
      · rfl
      · show unicodeEscape behind = _
        rw [unicodeEscape, hexFour_cut h hdigits]
  | @pair _ high low first second hhigh hlow hc hfirst hsecond =>
      rcases hcut.cons with rfl | ⟨behind, rfl, hbehind⟩
      · rfl
      show unicodeEscape behind = _
      rcases hbehind.append with hcutFirst | ⟨last, rfl, hlast⟩
      · rw [unicodeEscape, hexFour_cut hfirst hcutFirst]
      have hnotLow : isLowSurrogate high = false := by
        simp only [isLowSurrogate, Bool.and_eq_false_iff, decide_eq_false_iff_not]
        omega
      have hisHigh : isHighSurrogate high = true := by simp [isHighSurrogate, hhigh]
      simp only [unicodeEscape, hexFour_append hfirst, hnotLow, hisHigh, Bool.false_eq_true, if_false, if_true]
      rcases (show Cut last (['\\', 'u'] ++ second) from hlast).append with hword | ⟨digits, rfl, hdigits⟩
      · rw [expect_cut hword]
      · rw [expect_append]
        dsimp only
        rw [hexFour_cut hsecond hdigits]

theorem textBody_nil : textBody [] = .error .truncated := by
  rw [textBody]

theorem textBody_cut {value body : List Char} (h : SpellsBody value body) (hcut : Cut front (body ++ ['"'])) :
    textBody front = .error .truncated := by
  induction h generalizing front with
  | nil =>
      rcases hcut.cons with rfl | ⟨_, rfl, hnone⟩
      · exact textBody_nil
      · exact absurd hnone not_cut_nil
  | @cons c value form body hc h ih =>
      rw [List.append_assoc] at hcut
      rcases hcut.append with hform | ⟨behind, rfl, hbehind⟩
      · cases front with
        | nil => exact textBody_nil
        | cons d front =>
            -- only an escape is long enough to be cut behind its first character
            obtain ⟨tail, rfl⟩ : ∃ tail, form = d :: tail := by
              obtain ⟨rest, -, rfl⟩ := hform
              exact ⟨_, rfl⟩
            have htail : Cut front tail := by
              obtain ⟨rest, hrest, hform⟩ := hform
              exact ⟨rest, hrest, (List.cons.inj hform).2⟩
            obtain rfl : d = '\\' := by
              cases hc with
              | raw => exact absurd htail not_cut_nil
              | short => rfl
              | code => rfl
              | pair => rfl
            rw [textBody_cons, if_neg (by decide), if_pos rfl, escape_cut hc htail]
      · rw [textBody_form hc, ih hbehind]
        rfl

/-! ### Values -/

section

variable {α β : Type} {r : Parser α}

/-- Where the text is cut off, the parser finds it truncated, or takes all that is left. -/
structure Parser.Breaks (r : Parser α) (text : List Char) : Prop where
  cut : ∀ {blanks front : List Char}, Blank blanks → Cut front text →
    r.read (blanks ++ front) = .error .truncated ∨ ∃ a, r.read (blanks ++ front) = .ok (a, [])

theorem readFrom_blank {begin : Char → List Char → Except Rejection (α × List Char)} {blanks : List Char}
    (h : Blank blanks) : readFrom begin blanks = .error .truncated := by
  rw [readFrom, skipBlanks_eq_nil.mpr h]

theorem Parser.breaks_cons {begin : Char → List Char → Except Rejection (α × List Char)} (hr : r.read = readFrom begin)
    {c : Char} {tail : List Char} (hc : isBlank c = false)
    (h : ∀ front, Cut front tail → begin c front = .error .truncated ∨ ∃ a, begin c front = .ok (a, [])) :
    r.Breaks (c :: tail) := by
  refine ⟨fun {blanks front} hblanks hcut => ?_⟩
  rw [hr]
  rcases hcut.cons with rfl | ⟨behind, rfl, hbehind⟩
  · rw [List.append_nil]
    exact .inl (readFrom_blank hblanks)
  · rw [readFrom_append hblanks hc]
    exact h behind hbehind

theorem Parser.Breaks.map (h : r.Breaks text) (f : α → β) : (r.map f).Breaks text := by
  refine ⟨fun {blanks front} hblanks hcut => ?_⟩
  show (r.read (blanks ++ front)).map _ = _ ∨ ∃ b, (r.read (blanks ++ front)).map _ = _
  rcases h.cut hblanks hcut with hread | ⟨a, hread⟩
  · exact .inl (by rw [hread]; rfl)
  · exact .inr ⟨f a, by rw [hread]; rfl⟩

theorem string_breaks {value : List Char} (h : SpellsText value text) : string.Breaks text := by
  obtain ⟨body, hbody, rfl⟩ := h
  exact Parser.breaks_cons rfl rfl fun front hcut => .inl (textBody_cut hbody hcut)

theorem flag_breaks {b : Bool} (h : SpellsFlag b text) : flag.Breaks text := by
  cases h with
  | true =>
      refine Parser.breaks_cons rfl rfl fun front hcut => .inl ?_
      rw [beginFlag, if_pos rfl, expect_cut hcut]
      rfl
  | false =>
      refine Parser.breaks_cons rfl rfl fun front hcut => .inl ?_
      rw [beginFlag, if_neg (by decide), if_pos rfl, expect_cut hcut]
      rfl

/-- What is left of a number is the number of its first digits. -/
theorem SpellsNatural.cut {n : Nat} (h : SpellsNatural n text) (hcut : Cut front text) (hne : front ≠ []) :
    ∃ m ≤ n, SpellsNatural m front := by
  obtain ⟨hwhole, rfl⟩ := h
  obtain ⟨rest, hrest, rfl⟩ := hcut
  obtain ⟨d, digits, rfl⟩ := List.exists_cons_of_ne_nil hne
  refine ⟨_, ?_, ?_, rfl⟩
  · rw [Nat.ofDigitChars_append]
    exact le_ofDigitChars rest _
  · rw [List.cons_append] at hwhole
    generalize hbehind : digits ++ rest = behind at hwhole
    cases hwhole with
    | zero => exact absurd (List.append_eq_nil_iff.mp hbehind).2 hrest
    | more hfirst hzero hothers =>
        subst hbehind
        exact .more hfirst hzero fun c hc => hothers c (List.mem_append_left rest hc)

theorem natural_breaks {n : Nat} (h : SpellsNatural n text) (hn : n ≤ counterLimit) : natural.Breaks text := by
  refine ⟨fun {blanks front} hblanks hcut => ?_⟩
  cases front with
  | nil =>
      rw [List.append_nil]
      exact .inl (readFrom_blank hblanks)
  | cons d front =>
      obtain ⟨m, hm, hspells⟩ := h.cut hcut (List.cons_ne_nil d front)
      have hread := (natural_takes hspells (hm.trans hn)).reads hblanks ends_nil
      rw [List.append_nil] at hread
      exact .inr ⟨m, hread⟩

theorem optional_breaks {Spells : α → List Char → Prop} {a : Option α} (h : SpellsOption Spells a text)
    (hr : ∀ b ∈ a, ∀ text, Spells b text → (∃ c ∈ text.head?, Opens c) ∧ r.Breaks text ∧ text.head? ≠ some 'n') :
    (optional r).Breaks text := by
  cases h with
  | none =>
      refine Parser.breaks_cons rfl rfl fun front hcut => .inl ?_
      rw [beginOption, if_pos rfl, expect_cut hcut]
      rfl
  | @some b text h =>
      obtain ⟨⟨c, hc, hopens⟩, hbreaks, hhead⟩ := hr b rfl text h
      obtain ⟨tail, rfl⟩ : ∃ tail, text = c :: tail := List.head?_eq_some_iff.mp hc
      refine Parser.breaks_cons rfl hopens.1 fun front hcut => ?_
      have hne : c ≠ 'n' := by simpa using hhead
      have hcons : Cut (c :: front) (c :: tail) := by
        obtain ⟨rest, hrest, rfl⟩ := hcut
        exact ⟨rest, hrest, rfl⟩
      rw [beginOption, if_neg hne]
      exact (hbreaks.map some).cut blank_nil hcons

theorem named_breaks {ofName? : List Char → Option α} {name : List Char} (h : SpellsText name text) :
    (named ofName?).Breaks text := by
  obtain ⟨body, hbody, rfl⟩ := h
  refine Parser.breaks_cons rfl rfl fun front hcut => .inl ?_
  rw [beginNamed, if_pos rfl, textBody_cut hbody hcut]
  rfl

end

/-! ### Records -/

section Records

variable {ρ : Type} {fields : List (Field ρ)} {seen : List String} {first : Bool} {record : ρ}
  {name inner behind : List Char} {r : Rejection}

theorem readMembers_error (hturn : nextTurn '\x7d' first text = .error r) :
    readMembers fields seen first record text = .error r := by
  fun_cases readMembers fields seen first record text <;> simp_all

theorem readMembers_name_error (hturn : nextTurn '\x7d' first text = .ok (.item ('"' :: inner)))
    (hname : textBody inner = .error r) : readMembers fields seen first record text = .error r := by
  fun_cases readMembers fields seen first record text <;> simp_all

/-- The members from the value of a field on. -/
def readValue (fields : List (Field ρ)) (seen : List String) (field : Field ρ) (record : ρ) (text : List Char) :
    Except Rejection (ρ × List Char) :=
  match field.parser.read text with
  | .error r => .error r
  | .ok (update, behind) => readMembers fields (field.name :: seen) false (update record) behind

theorem readMembers_named {field : Field ρ} (hturn : nextTurn '\x7d' first text = .ok (.item ('"' :: inner)))
    (hname : textBody inner = .ok (name, behind))
    (hfind : fields.find? (fun field => field.name = String.ofList name) = some field) (hseen : field.name ∉ seen) :
    readMembers fields seen first record text =
      match expectColon behind with
      | .error r => .error r
      | .ok value => readValue fields seen field record value := by
  fun_cases readMembers fields seen first record text <;> simp_all [-List.find?_eq_none, readValue]

/-- A written field: its parser takes what is written, and where that is cut off, finds it truncated or takes what is
left. -/
structure Field.Writes (field : Field ρ) (member : String × List Char) : Prop where
  name : field.name = member.1
  takes : ∃ update, field.parser.Takes member.2 update
  breaks : field.parser.Breaks member.2

theorem Field.writes_map {α : Type} {r : Parser α} {a : α} (htakes : r.Takes text a) (hbreaks : r.Breaks text)
    (name : String) (put : α → ρ → ρ) : Field.Writes ⟨name, r.map put⟩ (name, text) :=
  ⟨rfl, ⟨put a, htakes.map put⟩, hbreaks.map put⟩

theorem nextTurn_blank (closing : Char) (first : Bool) {blanks : List Char} (h : Blank blanks) :
    nextTurn closing first blanks = .error .truncated := by
  rw [nextTurn, skipBlanks_eq_nil.mpr h]

theorem nextTurn_lead_blank (first : Bool) {blanks : List Char} (h : Blank blanks) :
    nextTurn '\x7d' first (lead first ++ blanks) = .error .truncated := by
  cases first with
  | true => exact nextTurn_blank '\x7d' true h
  | false =>
      show nextTurn '\x7d' false (',' :: blanks) = _
      rw [nextTurn, skipBlanks_cons rfl]
      simp only [show ',' ≠ '\x7d' by decide, if_false, if_true, Bool.false_eq_true, skipBlanks_eq_nil.mpr h]

/-- A member as it is written on its line. -/
def line (indent : Nat) (member : String × List Char) : List Char :=
  newline (indent + 2) ++ (writeText member.1.toList ++ ([':', ' '] ++ member.2))

section Line

variable {indent : Nat} {member : String × List Char} {field : Field ρ} (hwrites : field.Writes member)
  (hfind : fields.find? (fun field => field.name = member.1) = some field) (hseen : member.1 ∉ seen) (first : Bool)

include hwrites

/-- Where the value of a field is cut off, or there is none, the record is truncated. -/
theorem readValue_cut {blanks : List Char} (hblanks : Blank blanks) (hcut : Cut front member.2) :
    readValue fields seen field record (blanks ++ front) = .error .truncated := by
  rw [readValue]
  rcases hwrites.breaks.cut hblanks hcut with hread | ⟨update, hread⟩
  · rw [hread]
  · rw [hread]
    exact readMembers_error (nextTurn_blank '\x7d' false blank_nil)

include hfind hseen

/-- Behind the written name of a field come a colon and the value of the field. -/
theorem readMembers_written (behind : List Char) :
    readMembers fields seen first record
        (lead first ++ (newline (indent + 2) ++ (writeText member.1.toList ++ behind))) =
      match expectColon behind with
      | .error r => .error r
      | .ok value => readValue fields seen field record value := by
  obtain ⟨body, hbody, hquoted⟩ := spells_writeText member.1.toList
  have hturn := nextTurn_item (Or.inr rfl) first blank_nil (blank_newline (indent + 2)) (by decide : Opens '"')
    (body ++ '"' :: behind)
  have hfind' : fields.find? (fun field => field.name = String.ofList member.1.toList) = some field := by
    rw [String.ofList_toList]
    exact hfind
  have hseen' : field.name ∉ seen := by
    rw [hwrites.name]
    exact hseen
  rw [← readMembers_named hturn (textBody_append hbody behind) hfind' hseen', hquoted]
  simp

/-- A member that is cut off leaves the record truncated. -/
theorem readMembers_line_cut (hcut : Cut front (line indent member)) :
    readMembers fields seen first record (lead first ++ front) = .error .truncated := by
  rcases hcut.append with hnewline | ⟨behind, rfl, hbehind⟩
  · exact readMembers_error (nextTurn_lead_blank first ((blank_newline _).cut hnewline))
  rcases hbehind.append with hname | ⟨after, rfl, hafter⟩
  · obtain ⟨body, hbody, hquoted⟩ := spells_writeText member.1.toList
    rw [hquoted] at hname
    rcases hname.cons with rfl | ⟨inner, rfl, hinner⟩
    · exact readMembers_error (nextTurn_lead_blank first ((blank_newline _).append blank_nil))
    · have hturn := nextTurn_item (Or.inr rfl) first blank_nil (blank_newline (indent + 2)) (by decide : Opens '"')
        inner
      exact readMembers_name_error hturn (textBody_cut hbody hinner)
  rw [readMembers_written hwrites hfind hseen first]
  rcases hafter.append with hcolon | ⟨value, rfl, hvalue⟩
  · rcases hcolon.cons with rfl | ⟨space, rfl, hspace⟩
    · rfl
    · obtain rfl : space = [] := hspace.cons.resolve_right fun ⟨_, _, hnone⟩ => not_cut_nil hnone
      obtain ⟨update, htakes⟩ := hwrites.takes
      obtain ⟨c, hc, -⟩ := htakes.opens
      exact readValue_cut hwrites blank_nil (cut_nil (List.ne_nil_of_mem (List.mem_of_mem_head? hc)))
  · exact readValue_cut hwrites (by simp [Blank] : Blank [' ']) hvalue

/-- A whole member is read, and the next one comes. -/
theorem readMembers_line (record : ρ) {rest : List Char} (hrest : Ends rest) :
    ∃ update : ρ → ρ, readMembers fields seen first record (lead first ++ (line indent member ++ rest)) =
      readMembers fields (member.1 :: seen) false (update record) rest := by
  obtain ⟨update, htakes⟩ := hwrites.takes
  have hread := htakes.reads (by simp [Blank] : Blank [' ']) hrest
  refine ⟨update, ?_⟩
  rw [line, List.append_assoc, List.append_assoc, List.append_assoc, readMembers_written hwrites hfind hseen first]
  show readValue fields seen field record ([' '] ++ (member.2 ++ rest)) = _
  rw [readValue, hread, hwrites.name]

end Line

/-- Of the lines of a record something is missing at the end. -/
theorem readMembers_cut (indent : Nat) {members : List (String × List Char)}
    (hmembers : ∀ member ∈ members, ∃ field,
      fields.find? (fun field => field.name = member.1) = some field ∧ field.Writes member)
    (hnodup : (members.map Prod.fst).Nodup) (hseen : ∀ member ∈ members, member.1 ∉ seen) (first : Bool) (record : ρ)
    (hcut : Cut front (row first (members.map (line indent)) ++ (newline indent ++ ['\x7d']))) :
    readMembers fields seen first record front = .error .truncated := by
  induction members generalizing seen first record front with
  | nil =>
      rw [List.map_nil, row_nil, List.nil_append] at hcut
      have hblank : Blank front := by
        rcases hcut.append with hnewline | ⟨behind, rfl, hclosing⟩
        · exact (blank_newline indent).cut hnewline
        · rcases hclosing.cons with rfl | ⟨_, -, hnone⟩
          · exact (blank_newline indent).append blank_nil
          · exact absurd hnone not_cut_nil
      exact readMembers_error (nextTurn_blank '\x7d' first hblank)
  | cons member members ih =>
      obtain ⟨⟨field, hfind, hwrites⟩, hothers⟩ := List.forall_mem_cons.mp hmembers
      obtain ⟨hnot, hrest⟩ := List.forall_mem_cons.mp hseen
      rw [List.map_cons, List.nodup_cons] at hnodup
      rw [List.map_cons, row_cons, List.append_assoc, List.append_assoc] at hcut
      rcases hcut.append with hlead | ⟨behind, rfl, hbehind⟩
      · obtain rfl : front = [] := by
          cases first with
          | true => exact absurd hlead not_cut_nil
          | false => exact hlead.cons.resolve_right fun ⟨_, _, hnone⟩ => not_cut_nil hnone
        exact readMembers_error (nextTurn_blank '\x7d' first blank_nil)
      · rcases hbehind.append with hline | ⟨last, rfl, hlast⟩
        · exact readMembers_line_cut hwrites hfind hnot first hline
        · have hends : Ends last := (ends_row (Or.inr rfl) _ (blank_newline indent) []).cut hlast
          obtain ⟨update, hread⟩ := readMembers_line hwrites hfind hnot first record hends
          rw [hread]
          refine ih hothers hnodup.2 (fun other hmem hin => ?_) false (update record) hlast
          rcases List.mem_cons.mp hin with hname | hin
          · exact hnodup.1 (List.mem_map.mpr ⟨other, hmem, hname⟩)
          · exact hrest other hmem hin

theorem writeRecord_eq (indent : Nat) (members : List (String × List Char)) :
    writeRecord indent members =
      '\x7b' :: (row true (members.map (line indent)) ++ (newline indent ++ ['\x7d'])) := by
  rw [writeRecord, List.map_congr_left (g := line indent) fun member _ => by simp [line], row, if_pos rfl]
  simp

theorem names_of_writes {members : List (String × List Char)} (h : List.Forall₂ Field.Writes fields members) :
    fields.map Field.name = members.map Prod.fst := by
  induction h with
  | nil => rfl
  | cons hfirst h ih => rw [List.map_cons, List.map_cons, hfirst.name, ih]

/-- Whatever is missing at the end of a written record, the record is truncated. -/
theorem writeRecord_cut {base : ρ} {members : List (String × List Char)}
    (hwrites : List.Forall₂ Field.Writes fields members) (hnodup : (fields.map Field.name).Nodup) {indent : Nat}
    {blanks : List Char} (hblanks : Blank blanks) (hcut : Cut front (writeRecord indent members)) :
    (Json.record fields base).read (blanks ++ front) = .error .truncated := by
  show readFrom (beginRecord fields base) (blanks ++ front) = _
  rw [writeRecord_eq] at hcut
  rw [names_of_writes hwrites] at hnodup
  rcases hcut.cons with rfl | ⟨behind, rfl, hbehind⟩
  · rw [List.append_nil]
    exact readFrom_blank hblanks
  · rw [readFrom_append hblanks rfl, beginRecord, if_neg (by decide), if_pos rfl]
    have hmembers := fun member hmem => @find?_of_names _ _ _ _ Prod.fst _ Field.Writes.name hwrites hnodup member hmem
    exact readMembers_cut indent hmembers hnodup (fun _ _ => List.not_mem_nil) true base hbehind

theorem writeRecord_breaks {base : ρ} {members : List (String × List Char)}
    (hwrites : List.Forall₂ Field.Writes fields members) (hnodup : (fields.map Field.name).Nodup) (indent : Nat) :
    (Json.record fields base).Breaks (writeRecord indent members) :=
  ⟨fun hblanks hcut => .inl (writeRecord_cut hwrites hnodup hblanks hcut)⟩

end Records

end Backtrack.Json
