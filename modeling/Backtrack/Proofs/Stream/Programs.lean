import Backtrack.Proofs.Stream.Drift

/-! Attempts, inspections and searches as programs. They are made of the operations of a stream, so they can
be carried out wherever it is allowed to look ahead, to cut out what has been passed, and to pass on the
faults that have come up. -/

namespace Backtrack

namespace Stream

variable {terms : Terms} {α β : Type} {s : Stream} {journal : Journal}

namespace Terms

/-- Wherever a stream is taken from a state on, it may be looked ahead in, what has been passed may be cut
out, and a program may stop for any reason but that a backup lacks reads. -/
structure Suits (terms : Terms) (s : Stream) : Prop where
  marks : s.marks.Valid
  ahead : s.index ≤ s.source.cursor
  lookahead : ∀ {after : Stream} {journal : Journal} {i : Nat}, s.source.Leads after.source →
    terms.lookahead after journal i
  substring : ∀ {after : Stream} {start stop : Nat}, s.source.Leads after.source → start ≤ stop →
    stop ≤ after.source.cursor → terms.substring after start stop
  stop : ∀ {reason : Stop}, reason.isUnderflow = false → terms.stop reason

theorem Suits.after (h : terms.Suits s) {x : Action Stream α} (hx : Uses terms x s journal) :
    terms.Suits (x s journal).state := by
  obtain ⟨distance, hstrays, -⟩ := hx.strays h.marks h.ahead
  exact ⟨hstrays.marks h.marks, hstrays.ahead h.ahead, fun hleads => h.lookahead (hstrays.leads.trans hleads),
    fun hleads => h.substring (hstrays.leads.trans hleads), h.stop⟩

/-- Where the terms suit, they suit after every step. -/
theorem Suits.bind {x : Action Stream α} {f : α → Action Stream β} (h : terms.Suits s)
    (hx : Uses terms x s journal)
    (hf : ∀ {a mid journal'}, x s journal = ⟨.ok a, mid, journal'⟩ → terms.Suits mid →
      Uses terms (f a) mid journal') :
    Uses terms (x >>= f) s journal := by
  refine hx.bind fun a ha => hf ?_ (h.after hx)
  rw [← ha]

/-- What has stopped a program may be passed on. -/
theorem Suits.stop_of_attempt (h : terms.Suits s) {x : Action Stream α} (hx : Uses terms x s journal)
    {f : Fault} {after : Stream} {journal' : Journal}
    (hf : x.attempt s journal = ⟨.ok (.error f), after, journal'⟩) : terms.stop (.fault f) :=
  (hx.stop_cases h.marks h.ahead (congrArg Outcome.result (Action.attempt_eq_error hf))).elim h.stop id

end Terms

namespace Uses

theorem map {x : Action Stream α} (hx : Uses terms x s journal) (f : α → β) : Uses terms (f <$> x) s journal :=
  hx.bind fun a _ => .pure (f a)

theorem times {x : Action Stream Unit} (hx : ∀ s journal, Uses terms x s journal) (n : Nat) :
    Uses terms (x.times n) s journal := by
  induction n generalizing s journal with
  | zero => exact .pure ()
  | succ n ih => exact (hx s journal).bind fun _ _ => ih

theorem rewind : Uses terms rewind s journal :=
  Uses.bind (.query fun face => face.marks.lastOpened) fun m _ => .rewindTo m

/-- Attempts nest: what is tried may be any program. -/
theorem speculate {body : Action Stream (Option α)} (h : terms.Suits s)
    (hbody : ∀ {marked journal'}, terms.Suits marked → Uses terms body marked journal') :
    Uses terms (speculate body) s journal := by
  refine h.bind Uses.mark fun {m marked journal'} _ h => ?_
  refine h.bind (hbody h).attempt fun {result tried _} hresult htried => ?_
  match result with
  | .ok (some a) => exact (Uses.release m).bind fun _ _ => .pure _
  | .ok none =>
      refine htried.bind (Uses.rewindTo m).attempt fun {back _ _} hback _ => ?_
      cases back with
      | ok => exact .pure none
      | error f =>
          exact (Uses.release m).bind fun _ _ => .stop (htried.stop_of_attempt (.rewindTo m) hback)
  | .error f =>
      exact (Uses.release m).bind fun _ _ => .stop (h.stop_of_attempt (hbody h) hresult)

theorem consume (text : List Char) (h : terms.Suits s) : Uses terms (consume text) s journal := by
  induction text generalizing s journal with
  | nil => exact .pure _
  | cons c text ih =>
      refine h.bind (.lookahead (h.lookahead .refl)) fun _ h => ?_
      split
      · exact h.bind .advance fun _ h => ih h
      · exact .pure none

theorem matchesText (text : List Char) (h : terms.Suits s) : Uses terms (matchesText text) s journal :=
  (speculate h fun h => .consume text h).map Option.isSome

theorem lookaheads (i count : Nat) (h : terms.Suits s) : Uses terms (lookaheads i count) s journal := by
  induction count generalizing i s journal with
  | zero => exact .pure []
  | succ count ih =>
      refine h.bind (.lookahead (h.lookahead .refl)) fun _ h => ?_
      exact (ih (i + 1) h).bind fun _ _ => .pure _

theorem reserve (count : Nat) (h : terms.Suits s) : Uses terms (reserve count) s journal := by
  unfold Stream.reserve
  split
  · exact .stop (h.stop rfl)
  · exact .pure ()

theorem inspectRounds (count : Nat) (seen : List SymbolReport) (rounds : Nat) (h : terms.Suits s) :
    Uses terms (inspectRounds count seen rounds) s journal := by
  induction rounds generalizing seen s journal with
  | zero => exact .pure _
  | succ rounds ih =>
      refine h.bind (.lookahead (h.lookahead .refl)) fun _ h => ?_
      split
      · exact .pure _
      · refine h.bind (.reserve count h) fun _ h => ?_
        refine h.bind (.lookaheads 2 count h) fun _ h => ?_
        refine h.bind (.query fun face => face.position) fun _ h => ?_
        exact h.bind .advance fun _ h => ih _ h

theorem inspect (count : Nat) (limit : Option Nat) (h : terms.Suits s) :
    Uses terms (inspect count limit) s journal := by
  refine h.bind (.query fun face => counterLimit + 1 - face.position.index) fun _ h => ?_
  refine h.bind (.inspectRounds count [] _ h) fun {reports _ _} _ _ => ?_
  exact Uses.bind (.report rfl) fun _ _ => .pure reports

end Uses

/-! ### Searching -/

variable {after : Stream} {journal' : Journal}

theorem index_of_advance (h : advance s journal = ⟨.ok (), after, journal'⟩) : after.index = s.index + 1 := by
  have hadvances := advance_advances s journal
  rw [h] at hadvances
  generalize s.source.read journal = read at hadvances
  cases hadvances
  exact Position.index_next s.position _

theorem index_of_lookahead {i : Nat} {symbol : Option Symbol}
    (h : lookahead i s journal = ⟨.ok symbol, after, journal'⟩) : after.index = s.index := by
  have hposition := (lookahead_looksAhead i s journal).position.1
  rw [h] at hposition
  exact congrArg Position.index hposition

theorem index_of_consume {text : List Char} (h : consume text s journal = ⟨.ok (some ()), after, journal'⟩) :
    after.index = s.index + text.length := by
  induction text generalizing s journal with
  | nil =>
      cases h
      rfl
  | cons c text ih =>
      obtain ⟨symbol, looked, _, hlook, h⟩ := Action.bind_eq_ok h
      split at h
      · obtain ⟨_, stepped, _, hstep, h⟩ := Action.bind_eq_ok h
        rw [ih h, index_of_advance hstep, index_of_lookahead hlook, List.length_cons]
        omega
      · cases h

theorem position_of_release {m : Marker} (h : release m s journal = ⟨.ok (), after, journal'⟩) :
    after.position = s.position := by
  by_cases hopen : s.marks.isOpen m = true
  · rw [release_of_isOpen hopen] at h
    cases h
    rfl
  · rw [release_of_not_isOpen hopen] at h
    cases h

/-- A `speculate` with a value ends at the position at which its body has ended. -/
theorem speculate_eq_some {body : Action Stream (Option α)} {a : α}
    (h : speculate body s journal = ⟨.ok (some a), after, journal'⟩) :
    ∃ m marked begun tried between, mark s journal = ⟨.ok m, marked, begun⟩ ∧
      body marked begun = ⟨.ok (some a), tried, between⟩ ∧ after.position = tried.position := by
  obtain ⟨m, marked, begun, hmark, h⟩ := Action.bind_eq_ok h
  obtain ⟨result, tried, between, htried, h⟩ := Action.bind_eq_ok h
  match result with
  | .ok (some b) =>
      obtain ⟨_, released, _, hrelease, h⟩ := Action.bind_eq_ok h
      cases h
      exact ⟨m, marked, begun, tried, between, hmark, Action.attempt_eq_ok htried, position_of_release hrelease⟩
  | .ok none =>
      obtain ⟨back, _, _, -, h⟩ := Action.bind_eq_ok h
      cases back with
      | ok => cases h
      | error f =>
          obtain ⟨_, _, _, -, h⟩ := Action.bind_eq_ok h
          cases h
  | .error f =>
      obtain ⟨_, _, _, -, h⟩ := Action.bind_eq_ok h
      cases h

/-- A word that has been found is what was tried under a mark. -/
theorem matchesText_eq_true {text : List Char} (h : matchesText text s journal = ⟨.ok true, after, journal'⟩) :
    ∃ m marked begun tried between, mark s journal = ⟨.ok m, marked, begun⟩ ∧
      consume text marked begun = ⟨.ok (some ()), tried, between⟩ ∧ after.position = tried.position := by
  obtain ⟨found, _, _, hfound, h⟩ := Action.bind_eq_ok h
  cases found with
  | none => cases h
  | some found =>
      cases h
      exact speculate_eq_some hfound

/-- A word that has been found has been passed. -/
theorem index_of_matchesText {text : List Char} (hvalid : s.marks.Valid)
    (h : matchesText text s journal = ⟨.ok true, after, journal'⟩) : after.index = s.index + text.length := by
  obtain ⟨m, marked, begun, tried, _, hmark, hconsume, hposition⟩ := matchesText_eq_true h
  obtain ⟨marks, hmarked, -⟩ := mark_of_valid hvalid journal
  cases hmark.symm.trans hmarked
  have hindex := index_of_consume hconsume
  rw [index, ← hposition] at hindex
  exact hindex

namespace Uses

theorem findRounds (word : List Char) (seen : List Occurrence) (rounds : Nat) (h : terms.Suits s) :
    Uses terms (findRounds word seen rounds) s journal := by
  induction rounds generalizing seen s journal with
  | zero => exact .pure _
  | succ rounds ih =>
      refine h.bind (.lookahead (h.lookahead .refl)) fun _ h => ?_
      split
      · exact .pure _
      · refine h.bind (.query fun face => face.position) fun {start here _} hstart hhere => ?_
        refine hhere.bind (.matchesText word hhere) fun {found passed _} hfound h => ?_
        split
        · rename_i hyes
          subst hyes
          have hindex := index_of_matchesText hhere.marks hfound
          refine h.bind (.query fun face => face.position.index) fun {stop _ _} hstop h => ?_
          have hcut : start.index ≤ stop ∧ stop ≤ passed.source.cursor := by
            cases hstart
            cases hstop
            exact ⟨hindex ▸ Nat.le_add_right _ _, h.ahead⟩
          cases hstop
          refine h.bind (.substring (h.substring .refl hcut.1 hcut.2)) fun _ h => ?_
          exact h.bind (.report rfl) fun _ h => ih _ h
        · exact h.bind .advance fun _ h => ih seen h

theorem find (word : List Char) (h : terms.Suits s) : Uses terms (find word) s journal := by
  unfold Stream.find
  split
  · exact .pure []
  · refine h.bind (.query fun face => counterLimit + 1 - face.position.index) fun _ h => ?_
    exact .findRounds word [] _ h

end Uses

end Stream

end Backtrack
