import Mathlib.Data.List.Forall2
import Mathlib.Data.List.Nodup
import Mathlib.Tactic.SplitIfs
import Backtrack.Json.Record
import Backtrack.Proofs.Json.Reading

/-! Spellings of records. A record is spelled as an object with some of its fields in any order, among members of
other names, or as an array with some of its first fields; the fields that are not written are those of a base
record. Reading any spelling copies the written fields into the base record one by one, and that gives the
record which is spelled. -/

namespace Backtrack.Json

/-- A field as it stands in documents. -/
structure Key (ρ : Type) where
  name : String
  Value : Type
  get : ρ → Value
  put : Value → ρ → ρ
  Spells : Value → List Char → Prop

variable {ρ : Type}

/-- A member of an object that spells a record: one of the fields, or something of another name. -/
inductive Member (keys : List (Key ρ)) (record : ρ) : Option (Key ρ) → List Char → Prop
  | field {key : Key ρ} {name value : List Char} (hkey : key ∈ keys)
      (hname : Padded (SpellsText key.name.toList) name) (hvalue : Padded (key.Spells (key.get record)) value) :
      Member keys record (some key) (name ++ ':' :: value)
  | other {chars name value : List Char} (hchars : ∀ key ∈ keys, key.name.toList ≠ chars)
      (hname : Padded (SpellsText chars) name) (hvalue : Padded Value value) :
      Member keys record none (name ++ ':' :: value)

theorem Member.mem {keys : List (Key ρ)} {record : ρ} {entry : Option (Key ρ)} {text : List Char} {key : Key ρ}
    (h : Member keys record entry text) (hentry : entry = some key) : key ∈ keys := by
  cases h with
  | field hkey => exact Option.some_inj.mp hentry ▸ hkey
  | other => cases hentry

/-- The spellings of a record over a base record. -/
inductive SpellsRecord (keys : List (Key ρ)) (base record : ρ) : List Char → Prop
  | object {before after : List Char} {members : List (Option (Key ρ) × List Char)} (hbefore : Blank before)
      (hmembers : ∀ member ∈ members, Member keys record member.1 member.2)
      (honce : (members.filterMap fun member => member.1.map Key.name).Nodup)
      (hrest : ∀ key ∈ keys, some key ∈ members.map Prod.fst ∨ key.get base = key.get record) (hafter : Blank after) :
      SpellsRecord keys base record
        ('\x7b' :: (before ++ [','].intercalate (members.map Prod.snd) ++ after ++ ['\x7d']))
  | array {before after : List Char} {items : List (List Char)} (count : Nat) (hbefore : Blank before)
      (hitems : List.Forall₂ (fun key item => Padded (key.Spells (key.get record)) item) (keys.take count) items)
      (hrest : ∀ key ∈ keys.drop count, key.get base = key.get record) (hafter : Blank after) :
      SpellsRecord keys base record ('[' :: (before ++ [','].intercalate items ++ after ++ [']']))

/-! ### Copying fields -/

/-- Fields do not interfere with each other, and they make up the whole record. -/
structure Lawful (keys : List (Key ρ)) : Prop where
  nodup : (keys.map Key.name).Nodup
  get_put : ∀ key ∈ keys, ∀ value record, key.get (key.put value record) = value
  get_put_of_ne : ∀ key ∈ keys, ∀ other ∈ keys, other.name ≠ key.name →
    ∀ value record, other.get (key.put value record) = other.get record
  ext : ∀ r s, (∀ key ∈ keys, key.get r = key.get s) → r = s

/-- Copies fields of the record `source` into another one. -/
def copyAll (source : ρ) (keys : List (Key ρ)) (record : ρ) : ρ :=
  keys.foldl (fun r key => key.put (key.get source) r) record

theorem Lawful.eq_of_name {keys : List (Key ρ)} (h : Lawful keys) {key other : Key ρ} (hkey : key ∈ keys)
    (hother : other ∈ keys) (hname : key.name = other.name) : key = other :=
  List.inj_on_of_nodup_map h.nodup hkey hother hname

theorem Lawful.get_copyAll {keys : List (Key ρ)} (h : Lawful keys) {source record : ρ} {copied : List (Key ρ)}
    (hcopied : ∀ key ∈ copied, key ∈ keys) {key : Key ρ} (hkey : key ∈ keys)
    (hget : key ∈ copied ∨ key.get record = key.get source) :
    key.get (copyAll source copied record) = key.get source := by
  induction copied generalizing record with
  | nil => exact hget.resolve_left List.not_mem_nil
  | cons first others ih =>
      have hfirst : first ∈ keys := hcopied first List.mem_cons_self
      refine ih (fun other hother => hcopied other (List.mem_cons_of_mem first hother)) ?_
      by_cases hname : key.name = first.name
      · obtain rfl : key = first := h.eq_of_name hkey hfirst hname
        exact Or.inr (h.get_put key hkey _ _)
      · rw [h.get_put_of_ne first hfirst key hkey hname]
        rcases hget with hmem | hget
        · rcases List.mem_cons.mp hmem with rfl | hmem
          · exact absurd rfl hname
          · exact Or.inl hmem
        · exact Or.inr hget

/-- Once every field has been copied or is the same anyway, nothing of the base record is left. -/
theorem Lawful.copyAll_eq {keys : List (Key ρ)} (h : Lawful keys) {source base : ρ} {copied : List (Key ρ)}
    (hcopied : ∀ key ∈ copied, key ∈ keys) (hget : ∀ key ∈ keys, key ∈ copied ∨ key.get base = key.get source) :
    copyAll source copied base = source :=
  h.ext _ _ fun key hkey => h.get_copyAll hcopied hkey (hget key hkey)

/-! ### Turns -/

/-- What stands before an item. -/
def lead (first : Bool) : List Char :=
  if first then [] else [',']

/-- The items that are left, with commas before all of them but the first. -/
def row (first : Bool) (items : List (List Char)) : List Char :=
  if first then [','].intercalate items else items.flatMap (',' :: ·)

theorem row_nil (first : Bool) : row first [] = [] := by
  cases first <;> rfl

theorem row_cons (first : Bool) (item : List Char) (items : List (List Char)) :
    row first (item :: items) = lead first ++ (item ++ row false items) := by
  cases first with
  | true =>
      show [','].intercalate (item :: items) = item ++ items.flatMap (',' :: ·)
      induction items generalizing item with
      | nil => simp [List.intercalate]
      | cons next items ih =>
          rw [List.intercalate_cons_cons, ih, List.flatMap_cons]
          simp
  | false => simp [row, lead]

theorem ends_row {closing : Char} (hclosing : closing = ']' ∨ closing = '\x7d') (items : List (List Char))
    {blanks : List Char} (hblanks : Blank blanks) (rest : List Char) :
    Ends (row false items ++ (blanks ++ closing :: rest)) := by
  cases items with
  | nil =>
      have hends : Ends (closing :: rest) := ends_cons (by rcases hclosing with rfl | rfl <;> decide) rest
      rw [row_nil, List.nil_append]
      exact hends.blank hblanks
  | cons item items =>
      rw [row_cons, List.append_assoc]
      exact ends_cons (by decide) _

theorem nextTurn_closing {closing : Char} (hclosing : isBlank closing = false) (first : Bool) {blanks : List Char}
    (hblanks : Blank blanks) (rest : List Char) :
    nextTurn closing first (blanks ++ closing :: rest) = .ok (.finish rest) := by
  simp only [nextTurn, skipBlanks_append hblanks, skipBlanks_cons hclosing, if_true]

theorem nextTurn_item {closing c : Char} (hclosing : closing = ']' ∨ closing = '\x7d') (first : Bool)
    {blanks before : List Char} (hblanks : Blank blanks) (hbefore : Blank before) (hc : Opens c) (rest : List Char) :
    nextTurn closing first (blanks ++ (lead first ++ (before ++ c :: rest))) = .ok (.item (c :: rest)) := by
  have hne : c ≠ closing := by
    rcases hclosing with rfl | rfl
    · exact hc.2.2.2.1
    · exact hc.2.2.2.2
  cases first with
  | true =>
      simp only [nextTurn, lead, if_true, List.nil_append, skipBlanks_append hblanks, skipBlanks_append hbefore,
        skipBlanks_cons hc.1, hne, if_false]
  | false =>
      have hcomma : ',' ≠ closing := by rcases hclosing with rfl | rfl <;> decide
      simp only [nextTurn, lead, Bool.false_eq_true, if_false, List.cons_append, List.nil_append,
        skipBlanks_append hblanks, skipBlanks_cons (c := ',') rfl, hcomma, if_true, skipBlanks_append hbefore,
        skipBlanks_cons hc.1, hne]

/-! ### Reading fields -/

/-- The parser of a field takes what spells it in the record `source`, and then copies it. -/
structure Field.Fits (source : ρ) (field : Field ρ) (key : Key ρ) : Prop where
  name : field.name = key.name
  takes : ∀ {text}, key.Spells (key.get source) text → field.parser.Takes text (key.put (key.get source))

/-- A parser of the value alone is made into one of the field by putting the value into the record. -/
theorem Field.fits_put {α : Type} {source : ρ} {name : String} {r : Parser α} {get : ρ → α} {put : α → ρ → ρ}
    {Spells : α → List Char → Prop} (h : ∀ {text}, Spells (get source) text → r.Takes text (get source)) :
    Field.Fits source ⟨name, r.map put⟩ ⟨name, α, get, put, Spells⟩ where
  name := rfl
  takes htext := (h htext).map put

/-- The items of an array are read one by one, up to its end. -/
theorem readItems_row {source : ρ} {fields : List (Field ρ)} {keys : List (Key ρ)}
    (hfits : List.Forall₂ (Field.Fits source) fields keys) {count : Nat} {items : List (List Char)}
    (hitems : List.Forall₂ (fun key item => Padded (key.Spells (key.get source)) item) (keys.take count) items)
    (first : Bool) (record : ρ) {blanks last : List Char} (hblanks : Blank blanks) (hlast : Blank last)
    (rest : List Char) :
    readItems first record fields (blanks ++ (row first items ++ (last ++ ']' :: rest))) =
      .ok (copyAll source (keys.take count) record, rest) := by
  induction hfits generalizing count items first record blanks with
  | nil =>
      rw [List.take_nil] at hitems ⊢
      cases hitems
      rw [row_nil, readItems, closeArray, List.nil_append, skipBlanks_append hblanks, skipBlanks_append hlast,
        skipBlanks_cons rfl]
      rfl
  | @cons field key fields keys hfit hfits ih =>
      cases count with
      | zero =>
          cases hitems
          rw [row_nil, readItems, List.nil_append, ← List.append_assoc,
            nextTurn_closing rfl first (hblanks.append hlast)]
          rfl
      | succ count =>
          rw [List.take_succ_cons] at hitems ⊢
          obtain ⟨item, items, ⟨before, value, after, hbefore, hvalue, hafter, rfl⟩, hothers, rfl⟩ :=
            List.forall₂_cons_left_iff.mp hitems
          have htakes := hfit.takes hvalue
          obtain ⟨c, hc, hopens⟩ := htakes.opens
          obtain ⟨tail, rfl⟩ : ∃ tail, value = c :: tail := List.head?_eq_some_iff.mp hc
          have hends := ends_row (Or.inl rfl) items hlast rest
          have hread := htakes.reads blank_nil (hends.blank hafter)
          rw [row_cons]
          simp only [List.append_assoc, List.cons_append, List.nil_append] at hread ⊢
          rw [readItems, nextTurn_item (Or.inl rfl) first hblanks hbefore hopens]
          simp only [hread]
          exact ih hothers false (key.put (key.get source) record) hafter

section Members

variable {fields : List (Field ρ)} {seen : List String} {first : Bool} (record : ρ)
  {text name inner behind value rest : List Char}

theorem readMembers_finish (hturn : nextTurn '\x7d' first text = .ok (.finish rest)) :
    readMembers fields seen first record text = .ok (record, rest) := by
  fun_cases readMembers fields seen first record text <;> simp_all

theorem readMembers_field {field : Field ρ} {update : ρ → ρ}
    (hturn : nextTurn '\x7d' first text = .ok (.item ('"' :: inner))) (hname : textBody inner = .ok (name, behind))
    (hfind : fields.find? (fun field => field.name = String.ofList name) = some field) (hseen : field.name ∉ seen)
    (hcolon : expectColon behind = .ok value) (hread : field.parser.read value = .ok (update, rest)) :
    readMembers fields seen first record text =
      readMembers fields (field.name :: seen) false (update record) rest := by
  fun_cases readMembers fields seen first record text <;>
    simp_all [-List.find?_eq_none]

theorem readMembers_other (hturn : nextTurn '\x7d' first text = .ok (.item ('"' :: inner)))
    (hname : textBody inner = .ok (name, behind))
    (hfind : fields.find? (fun field => field.name = String.ofList name) = none)
    (hcolon : expectColon behind = .ok value) (hskip : skipValue value = .ok rest) :
    readMembers fields seen first record text = readMembers fields seen false record rest := by
  fun_cases readMembers fields seen first record text <;>
    simp_all [-List.find?_eq_none]

end Members

section Fits

variable {source : ρ} {fields : List (Field ρ)} {keys : List (Key ρ)}

/-- Under a name the field of that name is found. -/
theorem find?_of_names {κ : Type*} {R : Field ρ → κ → Prop} {name : κ → String} {entries : List κ}
    (hR : ∀ {field entry}, R field entry → field.name = name entry) (h : List.Forall₂ R fields entries)
    (hnodup : (entries.map name).Nodup) {entry : κ} (hentry : entry ∈ entries) :
    ∃ field, fields.find? (fun field => field.name = name entry) = some field ∧ R field entry := by
  induction h with
  | nil => exact absurd hentry List.not_mem_nil
  | @cons field other fields entries hfirst h ih =>
      rw [List.map_cons, List.nodup_cons] at hnodup
      rcases List.mem_cons.mp hentry with rfl | hmem
      · exact ⟨field, List.find?_cons_of_pos (by simp [hR hfirst]), hfirst⟩
      · have hname : name other ≠ name entry := by
          intro h
          exact hnodup.1 (List.mem_map.mpr ⟨entry, hmem, h.symm⟩)
        obtain ⟨found, hfind, hfound⟩ := ih hnodup.2 hmem
        refine ⟨found, ?_, hfound⟩
        rw [List.find?_cons_of_neg (by simp [hR hfirst, hname]), hfind]

theorem find?_eq_none (hfits : List.Forall₂ (Field.Fits source) fields keys) {chars : List Char}
    (hchars : ∀ key ∈ keys, key.name.toList ≠ chars) :
    fields.find? (fun field => field.name = String.ofList chars) = none := by
  induction hfits with
  | nil => rfl
  | @cons field key fields keys hfit hfits ih =>
      obtain ⟨hfirst, hothers⟩ := List.forall_mem_cons.mp hchars
      have hne : ¬field.name = String.ofList chars := by
        rw [hfit.name]
        rintro h
        exact hfirst (by rw [h, String.toList_ofList])
      rw [List.find?_cons_of_neg (by simpa using hne), ih hothers]

/-- The name of a member is read up to its value. -/
theorem member_turn {chars name : List Char} (hname : Padded (SpellsText chars) name) (first : Bool)
    {blanks : List Char} (hblanks : Blank blanks) (text : List Char) :
    ∃ inner behind,
      nextTurn '\x7d' first (blanks ++ (lead first ++ (name ++ ':' :: text))) = .ok (.item ('"' :: inner)) ∧
      textBody inner = .ok (chars, behind) ∧ expectColon behind = .ok text := by
  obtain ⟨before, quoted, after, hbefore, ⟨body, hbody, rfl⟩, hafter, rfl⟩ := hname
  refine ⟨body ++ '"' :: (after ++ ':' :: text), after ++ ':' :: text, ?_, textBody_append hbody _,
    expectColon_append hafter text⟩
  rw [← nextTurn_item (Or.inr rfl) first hblanks hbefore (by decide)]
  simp

/-- One member is read: a field is copied and counts as seen, anything else is skipped. -/
theorem Member.reads (hfits : List.Forall₂ (Field.Fits source) fields keys) (hnodup : (keys.map Key.name).Nodup)
    {entry : Option (Key ρ)} {text : List Char} (h : Member keys source entry text) {seen : List String}
    (hseen : ∀ key ∈ entry, key.name ∉ seen) (first : Bool) (record : ρ) {blanks tail : List Char}
    (hblanks : Blank blanks) (htail : Ends tail) :
    ∃ after, Blank after ∧
      readMembers fields seen first record (blanks ++ (lead first ++ (text ++ tail))) =
        readMembers fields ((entry.map Key.name).toList ++ seen) false (copyAll source entry.toList record)
          (after ++ tail) := by
  cases h with
  | @field key name value hkey hname hvalue =>
      obtain ⟨before, inner, after, hbefore, hinner, hafter, rfl⟩ := hvalue
      obtain ⟨field, hfind, hfit⟩ := find?_of_names Field.Fits.name hfits hnodup hkey
      have hread := (hfit.takes hinner).reads hbefore (htail.blank hafter)
      obtain ⟨text, behind, hturn, hbody, hcolon⟩ :=
        member_turn hname first hblanks (before ++ (inner ++ (after ++ tail)))
      have hstep := readMembers_field record hturn hbody (by rw [String.ofList_toList]; exact hfind)
        (by rw [hfit.name]; exact hseen key rfl) hcolon hread
      rw [hfit.name] at hstep
      refine ⟨after, hafter, ?_⟩
      simp only [List.append_assoc, List.cons_append]
      exact hstep
  | @other chars name value hchars hname hvalue =>
      obtain ⟨before, inner, after, hbefore, hinner, hafter, rfl⟩ := hvalue
      obtain ⟨text, behind, hturn, hbody, hcolon⟩ :=
        member_turn hname first hblanks (before ++ (inner ++ (after ++ tail)))
      have hskip := skipValue_append hbefore hinner (htail.blank hafter)
      refine ⟨after, hafter, ?_⟩
      simp only [List.append_assoc, List.cons_append]
      exact readMembers_other record hturn hbody (find?_eq_none hfits hchars) hcolon hskip

/-- The members of an object are read one by one, up to its end. -/
theorem readMembers_row (hfits : List.Forall₂ (Field.Fits source) fields keys) (hnodup : (keys.map Key.name).Nodup)
    {members : List (Option (Key ρ) × List Char)}
    (hmembers : ∀ member ∈ members, Member keys source member.1 member.2) {seen : List String}
    (honce : (members.filterMap fun member => member.1.map Key.name).Nodup)
    (hseen : ∀ name ∈ members.filterMap fun member => member.1.map Key.name, name ∉ seen)
    (first : Bool) (record : ρ) {blanks last : List Char} (hblanks : Blank blanks) (hlast : Blank last)
    (rest : List Char) :
    readMembers fields seen first record (blanks ++ (row first (members.map Prod.snd) ++ (last ++ '\x7d' :: rest))) =
      .ok (copyAll source (members.filterMap Prod.fst) record, rest) := by
  induction members generalizing seen first record blanks with
  | nil =>
      rw [List.map_nil, row_nil, List.nil_append, ← List.append_assoc]
      exact readMembers_finish record (nextTurn_closing rfl first (hblanks.append hlast) rest)
  | cons member members ih =>
      obtain ⟨hmember, hothers⟩ := List.forall_mem_cons.mp hmembers
      obtain ⟨entry, text⟩ := member
      have hnew : ∀ key ∈ entry, key.name ∉ seen := by
        rintro key rfl
        exact hseen key.name (by simp)
      obtain ⟨after, hafter, hstep⟩ := hmember.reads hfits hnodup hnew first record hblanks
        (ends_row (Or.inr rfl) (members.map Prod.snd) hlast rest)
      rw [List.map_cons, row_cons, List.append_assoc, List.append_assoc, hstep]
      cases entry with
      | none => exact ih hothers honce hseen false record hafter
      | some key =>
          simp only [List.filterMap_cons, Option.map_some, List.nodup_cons, List.forall_mem_cons] at honce hseen
          refine ih hothers honce.2 (fun name hmem hin => ?_) false _ hafter
          rcases List.mem_cons.mp hin with rfl | hin
          · exact honce.1 hmem
          · exact hseen.2 name hmem hin

/-- Any spelling of a record is read as that record. -/
theorem record_takes (hfits : List.Forall₂ (Field.Fits source) fields keys) (hlawful : Lawful keys) {base : ρ}
    {text : List Char} (h : SpellsRecord keys base source text) : (Json.record fields base).Takes text source := by
  cases h with
  | @object before after members hbefore hmembers honce hrest hafter =>
      refine Parser.takes_cons rfl (by decide) fun rest _ => ?_
      have hread := readMembers_row hfits hlawful.nodup hmembers honce (fun _ _ => List.not_mem_nil) true base
        hbefore hafter rest
      have hcopied : ∀ key ∈ members.filterMap Prod.fst, key ∈ keys := by
        intro key hkey
        obtain ⟨member, hmem, hfst⟩ := List.mem_filterMap.mp hkey
        exact (hmembers member hmem).mem hfst
      have hall : ∀ key ∈ keys, key ∈ members.filterMap Prod.fst ∨ key.get base = key.get source := by
        intro key hkey
        refine (hrest key hkey).imp_left fun hmem => ?_
        obtain ⟨member, hmem, hfst⟩ := List.mem_map.mp hmem
        exact List.mem_filterMap.mpr ⟨member, hmem, hfst⟩
      rw [hlawful.copyAll_eq hcopied hall] at hread
      rw [← hread]
      simp [beginRecord, row]
  | @array before after items count hbefore hitems hrest hafter =>
      refine Parser.takes_cons rfl (by decide) fun rest _ => ?_
      have hread := readItems_row hfits hitems true base hbefore hafter rest
      have hall : ∀ key ∈ keys, key ∈ keys.take count ∨ key.get base = key.get source := by
        intro key hkey
        rw [← List.take_append_drop count keys] at hkey
        exact (List.mem_append.mp hkey).imp_right (hrest key)
      rw [hlawful.copyAll_eq (fun key hkey => List.mem_of_mem_take hkey) hall] at hread
      rw [← hread]
      simp [beginRecord, row]

end Fits

/-- Behind a spelled value a document has nothing but blanks. -/
theorem document_of_takes {α : Type} {r : Parser α} {text : List Char} {a : α} {Spells : List Char → Prop}
    (hr : ∀ text, Spells text → r.Takes text a) (h : Padded Spells text) : document r text = .ok a := by
  obtain ⟨before, inner, after, hbefore, hinner, hafter, rfl⟩ := h
  have hread := (hr inner hinner).reads hbefore (ends_nil.blank hafter)
  have hnone : skipBlanks (after ++ []) = [] := by rw [skipBlanks_append hafter]; rfl
  rw [List.append_nil] at hread hnone
  rw [document, List.append_assoc, hread]
  simp only [hnone, List.isEmpty_nil, if_true]

end Backtrack.Json
