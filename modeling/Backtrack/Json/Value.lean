import Backtrack.Json.Number
import Backtrack.Json.Text

/-! Parsers of single values: texts, flags, natural numbers and values that may be absent. Where another
kind of value stands, that value is read as far as its kind is in doubt before it is rejected. -/

namespace Backtrack.Json

/-- Why a value that begins with `c` is not of the kind that is wanted. -/
def rejectKind (c : Char) (rest : List Char) : Rejection :=
  let checked : Except Rejection Unit :=
    if c = '"' then (textBody rest).map fun _ => ()
    else if c = 'n' then (expect ['u', 'l', 'l'] rest).map fun _ => ()
    else if c = 't' then (expect ['r', 'u', 'e'] rest).map fun _ => ()
    else if c = 'f' then (expect ['a', 'l', 's', 'e'] rest).map fun _ => ()
    else if c = '-' || isDigit c then (number (c :: rest)).map fun _ => ()
    else if c = '[' || c = '\x7b' then .ok ()
    else .error .malformed
  match checked with
  | .ok () => .mismatch
  | .error r => r

/-- A value from its first character on: `begin` takes what is behind that character. -/
def readFrom {α : Type} (begin : Char → List Char → Except Rejection (α × List Char)) (text : List Char) :
    Except Rejection (α × List Char) :=
  match skipBlanks text with
  | [] => .error .truncated
  | c :: rest => begin c rest

theorem length_of_readFrom {α : Type} {begin : Char → List Char → Except Rejection (α × List Char)}
    (hbegin : ∀ {c text a rest}, begin c text = .ok (a, rest) → rest.length ≤ text.length)
    {text rest : List Char} {a : α} (h : readFrom begin text = .ok (a, rest)) :
    rest.length < text.length := by
  have hblanks := length_skipBlanks_le text
  unfold readFrom at h
  split at h
  · cases h
  · rename_i c behind heq
    have := hbegin h
    rw [heq, List.length_cons] at hblanks
    omega

def Parser.ofBegin {α : Type} (begin : Char → List Char → Except Rejection (α × List Char))
    (hbegin : ∀ {c text a rest}, begin c text = .ok (a, rest) → rest.length ≤ text.length) : Parser α where
  read := readFrom begin
  progress := length_of_readFrom hbegin

def Parser.map {α β : Type} (f : α → β) (r : Parser α) : Parser β where
  read text := (r.read text).map fun (a, rest) => (f a, rest)
  progress {text b rest} h := by
    cases hread : r.read text with
    | error e => simp [hread, Except.map] at h
    | ok p =>
        simp only [hread, Except.map, Except.ok.injEq, Prod.mk.injEq] at h
        obtain ⟨_, rfl⟩ := h
        exact r.progress hread

def beginText (c : Char) (rest : List Char) : Except Rejection (List Char × List Char) :=
  if c = '"' then textBody rest else .error (rejectKind c rest)

def beginFlag (c : Char) (rest : List Char) : Except Rejection (Bool × List Char) :=
  if c = 't' then (expect ['r', 'u', 'e'] rest).map fun behind => (true, behind)
  else if c = 'f' then (expect ['a', 'l', 's', 'e'] rest).map fun behind => (false, behind)
  else .error (rejectKind c rest)

def beginNatural (c : Char) (rest : List Char) : Except Rejection (Nat × List Char) :=
  if c = '-' || isDigit c then number (c :: rest) else .error (rejectKind c rest)

/-- A value that may be absent: `null` stands for its absence. -/
def beginOption {α : Type} (r : Parser α) (c : Char) (rest : List Char) :
    Except Rejection (Option α × List Char) :=
  if c = 'n' then (expect ['u', 'l', 'l'] rest).map fun behind => (none, behind)
  else (r.read (c :: rest)).map fun (a, behind) => (some a, behind)

theorem ok_of_map {α β : Type} {x : Except Rejection α} {f : α → β} {b : β} (h : x.map f = .ok b) :
    ∃ a, x = .ok a ∧ f a = b := by
  cases x with
  | error e => cases h
  | ok a => exact ⟨a, rfl, by simpa [Except.map] using h⟩

def string : Parser (List Char) :=
  Parser.ofBegin beginText fun {c text a rest} h => by
    unfold beginText at h
    split at h
    · have := length_of_textBody h
      omega
    · cases h

def flag : Parser Bool :=
  Parser.ofBegin beginFlag fun {c text a rest} h => by
    unfold beginFlag at h
    split at h
    · obtain ⟨behind, hexpect, hpair⟩ := ok_of_map h
      have := length_of_expect hexpect
      cases hpair
      omega
    · split at h
      · obtain ⟨behind, hexpect, hpair⟩ := ok_of_map h
        have := length_of_expect hexpect
        cases hpair
        omega
      · cases h

def natural : Parser Nat :=
  Parser.ofBegin beginNatural fun {c text a rest} h => by
    unfold beginNatural at h
    split at h
    · have := length_of_number h
      simp only [List.length_cons] at this
      omega
    · cases h

def optional {α : Type} (r : Parser α) : Parser (Option α) :=
  Parser.ofBegin (beginOption r) fun {c text a rest} h => by
    unfold beginOption at h
    split at h
    · obtain ⟨behind, hexpect, hpair⟩ := ok_of_map h
      have := length_of_expect hexpect
      cases hpair
      omega
    · obtain ⟨⟨b, behind⟩, hread, hpair⟩ := ok_of_map h
      have := r.progress hread
      cases hpair
      simp only [List.length_cons] at this
      omega

/-- The name of a member, before which nothing else is looked at: any other value is malformed there. -/
def memberName : Parser (List Char) :=
  Parser.ofBegin (fun c rest => if c = '"' then textBody rest else .error .malformed)
    fun {c text a rest} h => by
      split at h
      · have := length_of_textBody h
        omega
      · cases h

/-- One of several named values: its name, or an object whose only member has that name and the value
`null`. -/
def beginNamed {α : Type} (ofName? : List Char → Option α) (c : Char) (rest : List Char) :
    Except Rejection (α × List Char) := do
  if c = '"' then
    let (name, behind) ← textBody rest
    match ofName? name with
    | some a => pure (a, behind)
    | none => .error .mismatch
  else if c = '\x7b' then
    let (name, behind) ← memberName.read rest
    match ofName? name with
    | none => .error .mismatch
    | some a => do
      let behind ← expectColon behind
      let ((), behind) ← readFrom
        (fun c rest =>
          if c = 'n' then (expect ['u', 'l', 'l'] rest).map fun behind => ((), behind)
          else .error (rejectKind c rest))
        behind
      let behind ← expect ['\x7d'] (skipBlanks behind)
      pure (a, behind)
  else .error .malformed

theorem length_of_beginNamed {α : Type} {ofName? : List Char → Option α} {c : Char}
    {text rest : List Char} {a : α} (h : beginNamed ofName? c text = .ok (a, rest)) :
    rest.length ≤ text.length := by
  unfold beginNamed at h
  split at h
  · cases hbody : textBody text with
    | error e => simp [hbody, bind, Except.bind] at h
    | ok p =>
        obtain ⟨name, behind⟩ := p
        have := length_of_textBody hbody
        simp only [hbody, bind, Except.bind] at h
        split at h
        · cases h
          omega
        · cases h
  · split at h
    · cases hname : memberName.read text with
      | error e => simp [hname, bind, Except.bind] at h
      | ok p =>
          obtain ⟨name, behind⟩ := p
          have := memberName.progress hname
          simp only [hname, bind, Except.bind] at h
          split at h
          · cases h
          · split at h
            · cases h
            · rename_i behind₁ hcolon
              have := length_of_expectColon hcolon
              split at h
              · cases h
              · rename_i p hnull
                obtain ⟨⟨⟩, behind₂⟩ := p
                have := length_of_readFrom (fun {c text a rest} h => by
                  split at h
                  · obtain ⟨behind, hexpect, hpair⟩ := ok_of_map h
                    have := length_of_expect hexpect
                    cases hpair
                    omega
                  · cases h) hnull
                simp only at h
                split at h
                · cases h
                · rename_i behind₃ hclose
                  have := length_of_expect hclose
                  have := length_skipBlanks_le behind₂
                  cases h
                  omega
    · cases h

def named {α : Type} (ofName? : List Char → Option α) : Parser α :=
  Parser.ofBegin (beginNamed ofName?) length_of_beginNamed

end Backtrack.Json
