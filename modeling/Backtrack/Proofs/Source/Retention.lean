import Backtrack.Proofs.Source.Ahead
import Backtrack.Proofs.Source.Runs

/-! What a source retains. Characters are only added to what is retained, so a range that has been given out is given
out again whatever is done in between. And they are added one at a time, when the cursor passes the end of what is
retained: so a reader has decoded as many characters as the cursor has passed at its highest, and no more. -/

namespace Backtrack.Source

variable {origin s after : Source} {start stop top : Nat}

/-! ### Ranges -/

theorem range_eq (s : Source) (start stop : Nat) :
    s.range start stop =
      if start ≤ stop ∧ stop ≤ s.retained then .ok (String.ofList ((s.text.drop start).take (stop - start)))
      else .error (.rangeOutOfBounds start stop s.retained) := by
  by_cases h : start ≤ stop ∧ stop ≤ s.retained
  · rw [if_pos h, range_of_le h.1 h.2]
  · rw [if_neg h, range, History.range, if_neg (show ¬(start ≤ stop ∧ stop ≤ s.history.retained) from h)]
    rfl

theorem le_of_range {text : String} (h : s.range start stop = .ok text) : start ≤ stop ∧ stop ≤ s.retained := by
  by_contra hnot
  rw [range_eq, if_neg hnot] at h
  cases h

/-- Ranges that meet make one range. -/
theorem range_append {middle : Nat} {left right : String} (hleft : s.range start middle = .ok left)
    (hright : s.range middle stop = .ok right) : s.range start stop = .ok (left ++ right) := by
  obtain ⟨hstart, hmiddle⟩ := le_of_range hleft
  obtain ⟨hstop, hretained⟩ := le_of_range hright
  rw [range_of_le hstart hmiddle, Except.ok.injEq] at hleft
  rw [range_of_le hstop hretained, Except.ok.injEq] at hright
  have hlength : stop - start = (middle - start) + (stop - middle) := by omega
  have hbehind : (s.text.drop start).drop (middle - start) = s.text.drop middle := by
    rw [List.drop_drop, Nat.add_sub_of_le hstart]
  rw [range_of_le (hstart.trans hstop) hretained, ← hleft, ← hright, ← String.ofList_append, hlength, List.take_add,
    hbehind]

/-! ### What is retained stays -/

/-- Characters have only been added to those that were retained. -/
def Keeps (s after : Source) : Prop :=
  s.history.chars.toList <+: after.history.chars.toList

theorem Keeps.retained (h : s.Keeps after) : s.retained ≤ after.retained := by
  have hlength := h.length_le
  rwa [Array.length_toList, Array.length_toList] at hlength

theorem Keeps.range (h : s.Keeps after) {text : String} (hrange : s.range start stop = .ok text) :
    after.range start stop = .ok text := by
  obtain ⟨hle, hstop⟩ := le_of_range hrange
  have hretained := h.retained
  obtain ⟨more, hmore⟩ := h
  rw [range_of_le hle hstop, Source.text, take_drop_append hle hstop] at hrange
  rw [range_of_le hle (hstop.trans hretained), Source.text, ← hmore, List.append_assoc, take_drop_append hle hstop]
  exact hrange

theorem refill_keeps (s : Source) (journal : Journal) :
    s.Keeps (s.refill journal).state ∧ (s.refill journal).state.retained ≤ max s.retained (s.cursor + 1) := by
  obtain ⟨history, decoder⟩ := s
  unfold refill
  dsimp only
  split_ifs with hexhausted
  · simp only [Bool.and_eq_true, History.isExhausted, decide_eq_true_eq] at hexhausted
    have hle : history.chars.size ≤ history.cursor := hexhausted.1
    generalize decoder.next history.retained journal = o
    obtain ⟨result, after, journal'⟩ := o
    cases result with
    | ok found =>
        cases found with
        | none => exact ⟨List.prefix_rfl, Nat.le_max_left _ _⟩
        | some c =>
            refine ⟨⟨[c], by simp [History.push]⟩, ?_⟩
            simp only [retained, cursor, History.retained, History.push, Array.size_push]
            omega
    | error reason => exact ⟨List.prefix_rfl, Nat.le_max_left _ _⟩
  · exact ⟨List.prefix_rfl, Nat.le_max_left _ _⟩

/-- A read adds to what is retained, but nothing that is behind the symbol at the cursor. -/
theorem read_keeps (s : Source) (journal : Journal) :
    s.Keeps (s.read journal).state ∧ (s.read journal).state.retained ≤ max s.retained (s.cursor + 1) := by
  have hrefill := s.refill_keeps journal
  rw [read_eq, Action.bind]
  generalize s.refill journal = o at hrefill ⊢
  obtain ⟨result, ⟨history, decoder⟩, journal'⟩ := o
  cases result with
  | ok =>
      dsimp only [onHistory, History.next]
      split_ifs <;> exact hrefill
  | error reason => exact hrefill

theorem Leads.keeps (h : s.Leads after) : s.Keeps after := by
  induction h with
  | refl => exact List.prefix_rfl
  | @read mid h journal ih => exact ih.trans (mid.read_keeps journal).1
  | takeBack h count ih => exact ih

/-- What was retained is retained, and what was given out is given out again. -/
structure Persists (s after : Source) : Prop where
  retained : s.retained ≤ after.retained
  range : ∀ start stop part, s.range start stop = .ok part → after.range start stop = .ok part

theorem Leads.persists (h : s.Leads after) : s.Persists after :=
  ⟨h.keeps.retained, fun _ _ _ => h.keeps.range⟩

/-! ### The highest cursor -/

/-- One source comes of another one by reading and taking back, with `top` as the highest cursor on the way. -/
inductive Climbs (origin : Source) : Nat → Source → Prop
  | refl : Climbs origin origin.cursor origin
  | read {top : Nat} {mid : Source} (h : Climbs origin top mid) (journal : Journal) :
      Climbs origin (max top (mid.read journal).state.cursor) (mid.read journal).state
  | takeBack {top : Nat} {mid : Source} (h : Climbs origin top mid) (count : Nat) :
      Climbs origin top (mid.takeBack count)

theorem Climbs.leads (h : Climbs origin top s) : origin.Leads s := by
  induction h with
  | refl => exact .refl
  | read h journal ih => exact ih.read journal
  | takeBack h count ih => exact ih.takeBack count

theorem Climbs.cursor_le (h : Climbs origin top s) : s.cursor ≤ top := by
  induction h with
  | refl => exact Nat.le_refl _
  | read h journal ih => exact Nat.le_max_right _ _
  | takeBack h count ih => exact (Nat.sub_le _ _).trans ih

theorem Climbs.backup (h : Climbs origin top s) (count : Nat) (journal : Journal) :
    Climbs origin top (backup count s journal).state := by
  have htakes := s.backup_takesBack count journal
  generalize Source.backup count s journal = o at htakes ⊢
  cases htakes with
  | taken hadmits hle => exact h.takeBack count
  | beyondWindow hwindow hlt => exact h
  | beforeStart hlt => exact h

/-- A read settles what the cursor has passed afterwards, up to the end of the text. A cursor that is at its limit
settles one symbol more than it passes, so the text must not go on there. -/
theorem read_retained (hvalid : s.Valid) (journal : Journal)
    (hroom : s.text.length ≤ counterLimit ∨ s.cursor < counterLimit) :
    (s.read journal).state.retained =
      max s.retained (min s.text.length (s.read journal).state.cursor) := by
  have hbefore := s.retained_le
  have hsettled : s.cursor ≤ s.retained ∨ s.retained = s.text.length :=
    hvalid.reach.imp_right retained_of_remaining
  obtain ⟨hkeeps, hbound⟩ := s.read_keeps journal
  have hgrown := hkeeps.retained
  have hreads := read_reads hvalid journal
  have hsame := hreads.same hvalid
  have hafter := (s.read journal).state.retained_le
  rw [hsame.text] at hafter
  have hsettled' : (s.read journal).state.cursor ≤ (s.read journal).state.retained ∨
      (s.read journal).state.retained = s.text.length := by
    refine hsame.valid.reach.imp_right fun hempty => ?_
    rw [retained_of_remaining hempty, hsame.text]
  -- before and after, the cursor is behind what is retained only if that is the whole text
  generalize s.read journal = o at hbound hgrown hreads hafter hsettled' ⊢
  obtain ⟨result, after, journal'⟩ := o
  dsimp only at hbound hgrown hafter hsettled' ⊢
  match result with
  | .ok symbol =>
      obtain ⟨-, -, -, hcursor, -⟩ := hreads
      omega
  | .error (.fault f) =>
      have hhistory : after.history = s.history := hreads.1
      have hretained : after.retained = s.retained := congrArg History.retained hhistory
      have hcursor : after.cursor = s.cursor := congrArg History.cursor hhistory
      omega
  | .error (.breach b) =>
      obtain ⟨-, hlimit, -, -, hcursor⟩ := hreads
      omega

/-- What is retained is what was retained at the origin and all that the cursor has passed, up to the end of the
text. -/
theorem Climbs.retained (hvalid : origin.Valid) (h : Climbs origin top s)
    (hroom : origin.text.length ≤ counterLimit ∨ top < counterLimit) :
    s.retained = max origin.retained (min origin.text.length top) := by
  induction h with
  | refl =>
      have horigin := origin.retained_le
      have hsettled : origin.cursor ≤ origin.retained ∨ origin.retained = origin.text.length :=
        hvalid.reach.imp_right retained_of_remaining
      omega
  | @read top mid h journal ih =>
      have hmid := h.leads.evolves.same hvalid
      have hcursor := h.cursor_le
      rw [read_retained hmid.valid journal (by rw [hmid.text]; omega), ih (by omega), hmid.text]
      omega
  | takeBack h count ih => exact ih hroom

/-- What a source retains that comes of `origin`, a source of a text, where `top` is the highest cursor that there has
been: of a reader all that the cursor has passed and nothing else, as long as the cursor is not at its limit with more
text to come; of a text everything. The ranges that it gives out are those of what it retains. -/
structure Holds (text : List Char) (origin : Source) (top : Nat) (s : Source) : Prop where
  reader : ∀ reader window chunkSize, origin = .ofReader reader window chunkSize →
    text.length ≤ counterLimit ∨ top < counterLimit → s.retained = min text.length top
  whole : ∀ window, origin = .ofText text window → s.retained = text.length
  range : ∀ start stop, s.range start stop =
    if start ≤ stop ∧ stop ≤ s.retained then .ok (String.ofList ((text.drop start).take (stop - start)))
    else .error (.rangeOutOfBounds start stop s.retained)

theorem Climbs.holds (hvalid : origin.Valid) {text : List Char} (htext : origin.text = text)
    (h : Climbs origin top s) : Holds text origin top s := by
  have hsame := h.leads.evolves.same hvalid
  refine ⟨?_, ?_, ?_⟩
  · rintro reader window chunkSize rfl hroom
    rw [← htext] at hroom ⊢
    rw [h.retained hvalid hroom]
    exact Nat.zero_max _
  · rintro window rfl
    have hstart : (ofText text window).retained = text.length := List.size_toArray
    have hkept := h.leads.keeps.retained
    have hle := s.retained_le
    rw [hsame.text, htext] at hle
    omega
  · intro start stop
    rw [range_eq, hsame.text, htext]

/-! ### Runs -/

/-- The highest cursor that a run shows. -/
def highest (steps : List Step) : Nat :=
  (steps.map Step.cursor).foldr max 0

section

variable (origin : Source) (top : Nat)

/-- Reading never goes back, so the highest cursor on the way is the last one. -/
theorem read_climbs :
    Action.Keeps (fun s _ => Climbs origin (max top s.cursor) s) (fun s _ => Climbs origin (max top s.cursor) s)
      read := by
  refine .of_forall fun s journal h => ?_
  have hread := h.read journal
  have hcursor := s.read_cursor journal
  have hle : s.cursor ≤ (s.read journal).state.cursor := by
    generalize s.read journal = o at hcursor ⊢
    obtain ⟨result, after, journal'⟩ := o
    match result with
    | .ok symbol => exact Nat.le_of_lt (Nat.lt_of_lt_of_eq (Nat.lt_succ_self _) hcursor.1.symm)
    | .error (.fault f) => exact hcursor.2.ge
    | .error (.breach b) => exact hcursor.2.1.ge
  rwa [Nat.max_assoc, Nat.max_eq_right hle] at hread

end

theorem perform_climbs (command : Command) (h : Climbs origin top s) (journal : Journal) :
    Climbs origin (max top (perform command s journal).state.cursor) (perform command s journal).state := by
  have hstart : Climbs origin (max top s.cursor) s := by rwa [Nat.max_eq_left h.cursor_le]
  cases command with
  | read => exact ((read_climbs origin top).map _).forall hstart
  | text count => exact ((readText_keeps (read_climbs origin top) count).map _).forall hstart
  | backup count =>
      have hkeeps : Action.Keeps (fun s _ => Climbs origin top s) (fun s _ => Climbs origin top s)
          (perform (.backup count)) :=
        Action.Keeps.bind (.of_forall fun s journal h => h.backup count journal) fun _ => Action.keeps_pure _
      have hbackup : Climbs origin top (perform (.backup count) s journal).state := hkeeps.forall h
      rw [Nat.max_eq_left hbackup.cursor_le]
      exact hbackup
  | range start stop =>
      dsimp only [perform]
      cases s.range start stop <;> exact hstart

/-- The highest cursor on the way of a run is the highest that it shows. -/
theorem after_climbs (commands : List Command) (h : Climbs origin top s) :
    Climbs origin (max top (highest (run s commands))) (s.after commands) := by
  induction commands generalizing s top with
  | nil =>
      rw [run, highest, List.map_nil, List.foldr_nil, Nat.max_zero]
      exact h
  | cons command commands ih =>
      have hrest := ih (perform_climbs command h #[])
      rw [Nat.max_assoc] at hrest
      exact hrest

end Backtrack.Source
