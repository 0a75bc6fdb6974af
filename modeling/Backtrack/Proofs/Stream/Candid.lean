import Backtrack.Proofs.Stream.Windows

/-! What is not kept back. A refused backup is an error of the operation that has asked for it, and no operation of a
stream goes on after it as if nothing had happened. So where a search answers, the window has refused nothing, and the
same is found without it. -/

namespace Backtrack.Stream

variable {α β : Type}

/-- Where the action answers, the window has refused nothing on the way. -/
def Candid (x : Action Stream α) : Prop :=
  ∀ ⦃s journal a after journal'⦄, x s journal = ⟨.ok a, after, journal'⟩ →
    Journal.Extends (fun e => e.isRefusal = false) journal journal'

namespace Candid

variable {x : Action Stream α} {f : α → Action Stream β} {body : Action Stream (Option α)}

theorem bind (hx : Candid x) (hf : ∀ a, Candid (f a)) : Candid (x >>= f) := by
  intro s journal b after journal' h
  obtain ⟨a, mid, between, hfirst, hrest⟩ := Action.bind_eq_ok h
  exact (hx hfirst).trans (hf a hrest)

theorem of_extends (h : ∀ s journal, Journal.Extends (fun e => e.isRefusal = false) journal (x s journal).journal) :
    Candid x := by
  intro s journal a after journal' hx
  have hextends := h s journal
  rwa [hx] at hextends

theorem pure (a : α) : Candid (Pure.pure a : Action Stream α) :=
  of_extends fun _ journal => .refl journal

theorem query (f : Stream → α) : Candid (Stream.query f) :=
  of_extends fun _ journal => .refl journal

theorem modify (f : Stream → Stream) : Candid (Action.modify f) :=
  of_extends fun _ journal => .refl journal

theorem emit {e : Event} (he : e.isRefusal = false) : Candid (Action.emit e : Action Stream Unit) :=
  of_extends fun _ journal => (Journal.Extends.refl journal).push he

theorem attempt_read : Candid (onSource Source.read).attempt := by
  refine of_extends fun s journal => ?_
  have hreading := (s.source.read_extends journal).mono (Q := fun e => e.isRefusal = false) fun e he => by
    cases e <;> first | rfl | cases he
  rw [Action.attempt, onSource_eq]
  generalize s.source.read journal = o at hreading ⊢
  obtain ⟨result, source, between⟩ := o
  cases result with
  | ok symbol => exact hreading
  | error stop => cases stop <;> exact hreading

theorem read : Candid (onSource Source.read) := by
  intro s journal a after journal' h
  exact attempt_read (Action.attempt_of_ok h)

/-- A backup that is made reports nothing. -/
theorem backup (count : Nat) : Candid (onSource (Source.backup count)) := by
  intro s journal a after journal' h
  have htakes := s.source.backup_takesBack count journal
  rw [onSource_eq] at h
  generalize Source.backup count s.source journal = o at htakes h
  cases htakes with
  | taken hadmits hle =>
      cases h
      exact .refl _
  | beyondWindow => cases h
  | beforeStart => cases h

theorem pass (symbol : Symbol) : Candid (Stream.pass symbol) := by
  refine of_extends fun s journal => ?_
  rw [pass_eq]
  exact .refl journal

theorem advance : Candid Stream.advance :=
  read.bind pass

theorem times {x : Action Stream Unit} (hx : Candid x) (count : Nat) : Candid (x.times count) := by
  induction count with
  | zero => exact .pure ()
  | succ count ih => exact hx.bind fun _ => ih

/-- A read that fails is the end, whether or not what has been read could be taken back. -/
theorem readOn (done : Nat) (last : Symbol) (count : Nat) : Candid (Stream.readOn done last count) := by
  induction count generalizing done last with
  | zero => exact .pure last
  | succ count ih =>
      refine attempt_read.bind fun result => ?_
      match result with
      | .ok symbol => exact ih (done + 1) symbol
      | .error f =>
          intro s journal a after journal' h
          obtain ⟨_, _, _, -, hfail⟩ := Action.bind_eq_ok h
          cases hfail

theorem lookahead (i : Nat) : Candid (Stream.lookahead i) := by
  unfold Stream.lookahead
  split
  · exact .pure none
  · exact (readOn 0 .eof i).bind fun _ => (backup i).bind fun _ => (query _).bind fun _ => .pure _

theorem seek (target : Nat) : Candid (Stream.seek target) := by
  refine (query index).bind fun here => ?_
  split
  · exact (emit rfl).bind fun _ => (backup _).bind fun _ => .modify _
  · exact advance.times _

theorem onMarks {x : Action MarkStack α} (hx : ∀ marks journal, (x marks journal).journal = journal) :
    Candid (Stream.onMarks x) := by
  refine of_extends fun s journal => ?_
  rw [onMarks_eq]
  dsimp only
  rw [hx]
  exact .refl journal

theorem mark : Candid mark := by
  refine (query position).bind fun here => (onMarks fun marks journal => ?_).bind fun m =>
    (emit rfl).bind fun _ => .pure m
  unfold MarkStack.push
  dsimp only
  split_ifs <;> rfl

theorem release (m : Marker) : Candid (release m) := by
  refine (emit rfl).bind fun _ => onMarks fun marks journal => ?_
  unfold MarkStack.release
  split_ifs <;> rfl

theorem rewindTo (m : Marker) : Candid (rewindTo m) := by
  refine (onMarks fun marks journal => ?_).bind fun p => (query position).bind fun here => (emit rfl).bind fun _ =>
    (seek p.index).bind fun _ => (modify _).bind fun _ => (modify _).bind fun _ => release m
  unfold MarkStack.get
  split_ifs
  · split <;> rfl
  · rfl

theorem substring (start stop : Nat) : Candid (substring start stop) := by
  refine of_extends fun s journal => ?_
  rw [substring_eq]
  exact .refl journal

/-- An attempt goes on after a fault of its body or of the way back only to close its mark and to pass the fault on. -/
theorem speculate (hbody : Candid body) : Candid (speculate body) := by
  refine mark.bind fun m => ?_
  intro s journal a after journal' h
  obtain ⟨tried, mid, between, hattempt, h⟩ := Action.bind_eq_ok h
  match tried with
  | .ok (some a) =>
      exact (hbody (Action.attempt_eq_ok hattempt)).trans (((release m).bind fun _ => .pure (some a)) h)
  | .ok none =>
      obtain ⟨back, home, rest, hback, h⟩ := Action.bind_eq_ok h
      match back with
      | .ok () =>
          cases h
          exact (hbody (Action.attempt_eq_ok hattempt)).trans (rewindTo m (Action.attempt_eq_ok hback))
      | .error f =>
          obtain ⟨_, _, _, -, hfail⟩ := Action.bind_eq_ok h
          cases hfail
  | .error f =>
      obtain ⟨_, _, _, -, hfail⟩ := Action.bind_eq_ok h
      cases hfail

theorem consume (word : List Char) : Candid (consume word) := by
  induction word with
  | nil => exact .pure (some ())
  | cons c word ih =>
      refine (lookahead 1).bind fun symbol => ?_
      split
      · exact advance.bind fun _ => ih
      · exact .pure none

theorem matchesText (word : List Char) : Candid (matchesText word) :=
  (consume word).speculate.bind fun found => .pure found.isSome

theorem findRounds (word : List Char) (seen : List Occurrence) (rounds : Nat) :
    Candid (findRounds word seen rounds) := by
  induction rounds generalizing seen with
  | zero => exact .pure seen.reverse
  | succ rounds ih =>
      refine (lookahead 1).bind fun symbol => ?_
      split
      · exact .pure seen.reverse
      · refine (query position).bind fun start => (matchesText word).bind fun found => ?_
        split
        · exact (query index).bind fun stop => (substring _ _).bind fun text => (emit rfl).bind fun _ => ih _
        · exact advance.bind fun _ => ih seen

theorem find (word : List Char) : Candid (find word) := by
  unfold Stream.find
  split
  · exact .pure []
  · exact (query roundLimit).bind fun rounds => findRounds word [] rounds

end Candid

/-- What a search finds under a window is what it finds without. -/
theorem find_withWindow_none {s after : Stream} (hmarks : s.marks.Valid) (hahead : s.index ≤ s.source.cursor)
    {word : List Char} {journal journal' : Journal} {found : List Occurrence}
    (h : find word s journal = ⟨.ok found, after, journal'⟩) :
    find word (s.withWindow none) journal = ⟨.ok found, after.withWindow none, journal'⟩ := by
  have hfind : Uses .free (find word) s journal :=
    .find word ⟨hmarks, hahead, fun _ => trivial, fun _ _ _ => trivial, fun _ => trivial⟩
  cases hwindow : s.source.history.window with
  | none =>
      have hsame : ∀ t : Stream, t.source.history.window = none → t.withWindow none = t := by
        rintro ⟨⟨⟨chars, cursor, window⟩, decoder⟩, name, position, marks, caseFold⟩ rfl
        rfl
      obtain ⟨distance, hstrays, -⟩ := hfind.strays hmarks hahead
      rw [h] at hstrays
      rw [hsame s hwindow, hsame after (hstrays.leads.evolves.window.trans hwindow)]
      exact h
  | some window =>
      obtain ⟨events, hevents, hall⟩ := Candid.find word h
      have hwider : ∀ limit ∈ (none : Option Nat), window ≤ limit := fun _ hlimit => by cases hlimit
      have hsame := hfind.withWindow hwindow hwider (by
        rw [Source.Unrefused, h, Journal.since_eq_of_append hevents]
        exact hall)
      rw [h] at hsame
      exact hsame

end Backtrack.Stream
