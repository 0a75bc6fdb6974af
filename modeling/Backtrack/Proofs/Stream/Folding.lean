import Backtrack.Stream.Command
import Backtrack.Proofs.Stream.Mirrors
import Backtrack.Proofs.Stream.Moves

/-! What folding letters reaches. A stream that folds letters and one that does not do the same, and can be told apart
by the symbols alone that are looked ahead for: these are folded. Folding makes no character the end of input and no end
of input a character, and nothing that is done depends on more than that; so the text that is retained and cut out, the
lines and columns, and all faults are the same. Only comparing text tells more, as it looks at what the symbols are. -/

namespace Backtrack

open Backtrack.Action (Mirrors mirrors_pure mirrors_stop mirrors_emit mirrors_of_eq)

/-- The report with its symbols folded. -/
def SymbolReport.fold (r : SymbolReport) : SymbolReport :=
  ⟨r.position, r.symbol.foldCase, r.ahead.map Symbol.foldCase⟩

namespace Stream

def IsPlain (s : Stream) : Prop :=
  s.caseFold = false

def folding (s : Stream) : Stream :=
  { s with caseFold := true }

/-- On a stream that folds letters `y` does what `x` does on a plain one. -/
abbrev Folds {α β : Type} (f : α → β) (x : Action Stream α) (y : Action Stream β) : Prop :=
  Mirrors IsPlain folding f x y

variable {α β : Type}

/-! ### Operations that do not look at symbols -/

theorem folds_query {p : Stream → α} (h : ∀ s, p s.folding = p s) : Folds id (query p) (query p) := by
  apply mirrors_of_eq fun _ _ h => h
  intro s journal _
  rw [query, h]
  rfl

theorem folds_pass (symbol : Symbol) : Folds id (pass symbol) (pass symbol) := by
  apply mirrors_of_eq
  · intro s journal h
    rw [pass_eq]
    exact h
  · intro s journal _
    rw [pass_eq, pass_eq]
    rfl

theorem folds_substring (start stop : Nat) : Folds id (substring start stop) (substring start stop) := by
  apply mirrors_of_eq
  · intro s journal h
    rw [substring_eq]
    exact h
  · intro s journal _
    rw [substring_eq, substring_eq]
    rfl

theorem Composed.folds {x : Action Stream α} (hx : Composed x) : Folds id x x := by
  induction hx with
  | read => exact mirrors_of_eq (fun _ _ h => h) fun _ _ _ => rfl
  | backup count => exact mirrors_of_eq (fun _ _ h => h) fun _ _ _ => rfl
  | onMarks h => exact mirrors_of_eq (fun _ _ h => h) fun _ _ _ => rfl
  | pass symbol => exact folds_pass symbol
  | setPosition f => exact mirrors_of_eq (fun _ _ h => h) fun _ _ _ => rfl
  | look f => exact folds_query fun _ => rfl
  | emit e => exact mirrors_emit e
  | pure a => exact mirrors_pure id a
  | stop reason => exact mirrors_stop id reason
  | bind hx hf ihx ihf => exact ihx.bind ihf
  | capture hx ih =>
      have hcapture := ih.capture
      rwa [Except.map_id] at hcapture

/-! ### Operations that look at symbols -/

/-- A lookahead answers with the folded symbol. -/
theorem folds_lookahead (i : Nat) : Folds (Option.map Symbol.foldCase) (lookahead i) (lookahead i) := by
  unfold lookahead
  split_ifs
  · exact mirrors_pure _ none
  · apply (Composed.readOn 0 .eof i).folds.bind
    intro symbol
    apply (Composed.backup i).folds.bind
    intro _ s journal hs
    refine ⟨hs, ?_⟩
    have hplain : s.caseFold = false := hs
    show _ = Outcome.mk (Except.ok (Option.map Symbol.foldCase
      (some (if s.caseFold = true then symbol.foldCase else symbol)))) _ _
    rw [hplain]
    rfl

theorem folds_lookaheads (i count : Nat) :
    Folds (List.map Symbol.foldCase) (lookaheads i count) (lookaheads i count) := by
  induction count generalizing i with
  | zero => exact mirrors_pure _ []
  | succ count ih =>
      apply (folds_lookahead i).bind
      intro symbol
      apply (ih (i + 1)).bind
      intro rest
      have hfold : (symbol.map Symbol.foldCase).getD .eof = (symbol.getD .eof).foldCase := by
        cases symbol <;> rfl
      rw [hfold]
      exact mirrors_pure _ (symbol.getD .eof :: rest)

theorem folds_reserve (count : Nat) : Folds id (reserve count) (reserve count) := by
  unfold reserve
  split_ifs
  · exact mirrors_stop id _
  · exact mirrors_pure id ()

theorem folds_inspectRounds (count : Nat) (seen : List SymbolReport) (rounds : Nat) :
    Folds (List.map SymbolReport.fold) (inspectRounds count seen rounds)
      (inspectRounds count (seen.map SymbolReport.fold) rounds) := by
  induction rounds generalizing seen with
  | zero =>
      rw [inspectRounds, inspectRounds, ← List.map_reverse]
      exact mirrors_pure _ seen.reverse
  | succ rounds ih =>
      apply (folds_lookahead 1).bind
      intro symbol
      -- a round ends at the end of input, which folding leaves as it is
      have hend : Folds (List.map SymbolReport.fold) (pure seen.reverse)
          (pure (seen.map SymbolReport.fold).reverse) := by
        rw [← List.map_reverse]
        exact mirrors_pure _ seen.reverse
      match symbol with
      | none => exact hend
      | some .eof => exact hend
      | some (.char c) =>
          apply (folds_reserve count).bind
          intro _
          apply (folds_lookaheads 2 count).bind
          intro ahead
          apply (folds_query (p := Stream.position) fun _ => rfl).bind
          intro position
          exact Composed.advance.folds.bind fun _ => ih (⟨position, .char c, ahead⟩ :: seen)

/-- The same symbols are reported on, at the same positions. -/
theorem folds_inspect (count : Nat) (limit : Option Nat) :
    Folds (List.map SymbolReport.fold) (inspect count limit) (inspect count limit) := by
  apply (folds_query (p := roundLimit) fun _ => rfl).bind
  intro rounds
  apply (folds_inspectRounds count [] _).bind
  intro reports
  rw [List.length_map]
  exact (mirrors_emit _).bind fun _ => mirrors_pure _ reports

/-! ### Attempts -/

section

variable {σ : Type} [HasStream σ] {P : σ → Prop} {F : σ → σ}

open HasStream (onStream)

/-- Where what is done to the stream is mirrored, attempts of mirrored bodies are. -/
theorem folds_speculate
    (honStream : ∀ {γ : Type} {x y : Action Stream γ}, Folds id x y → Mirrors P F id (onStream x) (onStream y))
    {f : α → β} {x : Action σ (Option α)} {y : Action σ (Option β)} (hbody : Mirrors P F (Option.map f) x y) :
    Mirrors P F (Option.map f) (speculate x) (speculate y) := by
  apply (honStream Composed.mark.folds).bind
  intro m
  apply hbody.attempt.bind
  intro result
  match result with
  | .ok (some a) => exact (honStream (Composed.release m).folds).bind fun _ => mirrors_pure _ (some a)
  | .ok none =>
      apply (honStream (Composed.rewindTo m).folds).attempt.bind
      intro back
      cases back with
      | ok => exact mirrors_pure _ none
      | error fault => exact (honStream (Composed.release m).folds).bind fun _ => mirrors_stop _ _
  | .error fault => exact (honStream (Composed.release m).folds).bind fun _ => mirrors_stop _ _

end

/-! ### Programs -/

/-- Programs that do the same by themselves, `x` on a plain stream and `y` on one that folds letters: they carry out the
same operations, and what comes next depends on nothing in which these differ. The answer of `y` is the image of that of
`x` under `f`. -/
inductive Alike : {α β : Type} → (α → β) → Action Stream α → Action Stream β → Prop
  | advance : Alike id advance advance
  | lookahead (i : Nat) : Alike (Option.map Symbol.foldCase) (lookahead i) (lookahead i)
  | inspect (count : Nat) (limit : Option Nat) :
      Alike (List.map SymbolReport.fold) (inspect count limit) (inspect count limit)
  | seek (target : Nat) : Alike id (seek target) (seek target)
  | setLine (line : Nat) : Alike id (setLine line) (setLine line)
  | setColumn (column : Nat) : Alike id (setColumn column) (setColumn column)
  | mark : Alike id mark mark
  | release (m : Marker) : Alike id (release m) (release m)
  | rewindTo (m : Marker) : Alike id (rewindTo m) (rewindTo m)
  | substring (start stop : Nat) : Alike id (substring start stop) (substring start stop)
  | query {α : Type} {p : Stream → α} (h : ∀ s, p s.folding = p s) : Alike id (query p) (query p)
  | report (e : Event) : Alike id (Action.emit e) (Action.emit e)
  | pure {α β : Type} (f : α → β) (a : α) : Alike f (Pure.pure a) (Pure.pure (f a))
  | stop {α β : Type} (f : α → β) (reason : Stop) : Alike f (Action.stop reason) (Action.stop reason)
  | bind {α β γ δ : Type} {f : α → β} {g : γ → δ} {x : Action Stream α} {y : Action Stream β}
      {k : α → Action Stream γ} {l : β → Action Stream δ} (hx : Alike f x y) (hk : ∀ a, Alike g (k a) (l (f a))) :
      Alike g (x >>= k) (y >>= l)
  | capture {α β : Type} {f : α → β} {x : Action Stream α} {y : Action Stream β} (hx : Alike f x y) :
      Alike (Except.map f) x.capture y.capture
  | speculate {α β : Type} {f : α → β} {x : Action Stream (Option α)} {y : Action Stream (Option β)}
      (hx : Alike (Option.map f) x y) : Alike (Option.map f) (speculate x) (speculate y)

theorem Alike.folds {f : α → β} {x : Action Stream α} {y : Action Stream β} (h : Alike f x y) : Folds f x y := by
  induction h with
  | advance => exact Composed.advance.folds
  | lookahead i => exact folds_lookahead i
  | inspect count limit => exact folds_inspect count limit
  | seek target => exact (Composed.seek target).folds
  | setLine line => exact (Composed.setPosition fun p => { p with line := line }).folds
  | setColumn column => exact (Composed.setPosition fun p => { p with column := column }).folds
  | mark => exact Composed.mark.folds
  | release m => exact (Composed.release m).folds
  | rewindTo m => exact (Composed.rewindTo m).folds
  | substring start stop => exact folds_substring start stop
  | query h => exact folds_query h
  | report e => exact mirrors_emit e
  | pure f a => exact mirrors_pure f a
  | stop f reason => exact mirrors_stop f reason
  | bind hx hk ihx ihk => exact ihx.bind ihk
  | capture hx ih => exact ih.capture
  | speculate hx ih => exact folds_speculate (fun h => h) ih

/-! ### Commands -/

mutual

/-- The answer with all symbols in it folded. -/
def Reply.fold : Reply → Reply
  | .symbol symbol => .symbol (symbol.map Symbol.foldCase)
  | .reports reports => .reports (reports.map SymbolReport.fold)
  | .speculated outcome steps => .speculated outcome (foldTrail steps)
  | reply => reply
termination_by structural reply => reply

def foldTrail : List (Reply × View) → List (Reply × View)
  | [] => []
  | (reply, view) :: rest => (reply.fold, view) :: foldTrail rest
termination_by structural steps => steps

end

mutual

/-- The command, or one in an attempt of it, compares symbols with a text. -/
def Command.comparesText : Command → Bool
  | .matchesText _ => true
  | .find _ => true
  | .speculate body _ _ => compareText body
  | _ => false
termination_by structural command => command

def compareText : List Command → Bool
  | [] => false
  | command :: commands => command.comparesText || compareText commands
termination_by structural commands => commands

end

/-- The step with the symbols in its answer folded; the view after it and what it has reported are the same. -/
def Step.fold (step : Step) : Step :=
  ⟨step.result.map Reply.fold, step.view, step.journal⟩

theorem foldTrail_eq (steps : List (Reply × View)) :
    foldTrail steps = steps.map fun step => (step.1.fold, step.2) := by
  induction steps with
  | nil => rfl
  | cons step steps ih =>
      rw [foldTrail, ih]
      rfl

namespace Workbench

def IsPlain (w : Workbench) : Prop :=
  w.stream.IsPlain

def folding (w : Workbench) : Workbench :=
  ⟨w.stream.folding, w.handles, foldTrail w.trail⟩

open HasStream (onStream)

theorem folds_onStream {f : α → β} {x : Action Stream α} {y : Action Stream β} (h : Folds f x y) :
    Mirrors IsPlain folding f (onStream x) (onStream y) := by
  intro w journal hw
  obtain ⟨hP, hy⟩ := h w.stream journal hw
  have honStream : ∀ {γ : Type} (z : Action Stream γ) (w : Workbench), onStream z w journal =
      ⟨(z w.stream journal).result, { w with stream := (z w.stream journal).state }, (z w.stream journal).journal⟩ :=
    fun _ _ => rfl
  rw [honStream x, honStream y, folding, hy]
  exact ⟨hP, rfl⟩

theorem folds_query {p : Stream → α} (h : ∀ s, p s.folding = p s) :
    Mirrors IsPlain folding id (query p) (query p) :=
  folds_onStream (Stream.folds_query h)

theorem folds_handOut (m : Marker) : Mirrors IsPlain folding id (handOut m) (handOut m) :=
  mirrors_of_eq (fun _ _ h => h) fun _ _ _ => rfl

theorem folds_marker (handle : Nat) : Mirrors IsPlain folding id (marker handle) (marker handle) :=
  mirrors_of_eq (fun _ _ h => h) fun _ _ _ => rfl

theorem folds_record (reply : Reply) : Mirrors IsPlain folding id (record reply) (record reply.fold) :=
  fun _ _ h => ⟨h, rfl⟩

theorem folds_exchangeTrail (trail : List (Reply × View)) :
    Mirrors IsPlain folding foldTrail (exchangeTrail trail) (exchangeTrail (foldTrail trail)) :=
  fun _ _ h => ⟨h, rfl⟩

/-- An operation of the stream that answers nothing. -/
theorem folds_done {x : Action Workbench Unit} (hx : Mirrors IsPlain folding id x x) :
    Mirrors IsPlain folding Reply.fold (x >>= fun _ => pure .done) (x >>= fun _ => pure .done) :=
  hx.bind fun _ => mirrors_pure _ Reply.done

theorem foldTrail_reverse (steps : List (Reply × View)) : foldTrail steps.reverse = (foldTrail steps).reverse := by
  rw [foldTrail_eq, foldTrail_eq, List.map_reverse]

mutual

theorem folds_perform (command : Command) (h : command.comparesText = false) :
    Mirrors IsPlain folding Reply.fold (perform command) (perform command) := by
  cases command with
  | advance count => exact folds_done (folds_onStream (Composed.times_advance count).folds)
  | lookahead i => exact (folds_onStream (folds_lookahead i)).map _ _ fun _ => rfl
  | line => exact (folds_query fun _ => rfl).map _ _ fun _ => rfl
  | column => exact (folds_query fun _ => rfl).map _ _ fun _ => rfl
  | index => exact (folds_query fun _ => rfl).map _ _ fun _ => rfl
  | size => exact (folds_query fun _ => rfl).map _ _ fun _ => rfl
  | name => exact (folds_query fun _ => rfl).map _ _ fun _ => rfl
  | position => exact (folds_query fun _ => rfl).map _ _ fun _ => rfl
  | setLine line => exact folds_done (folds_onStream (Composed.setPosition fun p => { p with line := line }).folds)
  | setColumn column =>
      exact folds_done (folds_onStream (Composed.setPosition fun p => { p with column := column }).folds)
  | mark =>
      apply (folds_onStream Composed.mark.folds).bind
      intro m
      exact (folds_handOut m).bind fun _ => mirrors_pure _ (Reply.marker m)
  | foreign depth => exact folds_done (folds_handOut ⟨depth⟩)
  | rewind => exact folds_done (folds_onStream Composed.rewind.folds)
  | rewindTo handle => exact (folds_marker handle).bind fun m => folds_done (folds_onStream (Composed.rewindTo m).folds)
  | release handle => exact (folds_marker handle).bind fun m => folds_done (folds_onStream (Composed.release m).folds)
  | isOpen handle =>
      apply (folds_marker handle).bind
      intro m
      exact (folds_query (p := fun s => s.marks.isOpen m) fun _ => rfl).map _ _ fun _ => rfl
  | seek target => exact folds_done (folds_onStream (Composed.seek target).folds)
  | substring start stop => exact (folds_onStream (folds_substring start stop)).map _ _ fun _ => rfl
  | matchesText text => cases h
  | find word => cases h
  | inspect count limit => exact (folds_onStream (folds_inspect count limit)).map _ _ fun _ => rfl
  | speculate body commit raise =>
      have hbody : Mirrors IsPlain folding (Option.map id)
          (performAll body >>= fun _ => query Stream.index >>= fun index => pure (if commit then some index else none))
          (performAll body >>= fun _ => query Stream.index >>= fun index =>
            pure (if commit then some index else none)) := by
        apply (folds_performAll body h).bind
        intro _
        apply (folds_query fun _ => rfl).bind
        intro index
        cases commit with
        | true => exact mirrors_pure _ (some index)
        | false => exact mirrors_pure _ none
      apply (folds_exchangeTrail []).bind
      intro outer
      apply (folds_speculate folds_onStream hbody).attempt.bind
      intro outcome
      apply (folds_exchangeTrail outer).bind
      intro steps
      rw [← foldTrail_reverse]
      match outcome, raise with
      | .error f, true => exact mirrors_stop _ (.fault f)
      | .error f, false => exact mirrors_pure _ (Reply.speculated (.error f) steps.reverse)
      | .ok none, _ => exact mirrors_pure _ (Reply.speculated (.ok none) steps.reverse)
      | .ok (some index), _ => exact mirrors_pure _ (Reply.speculated (.ok (some index)) steps.reverse)

theorem folds_performAll (commands : List Command) (h : compareText commands = false) :
    Mirrors IsPlain folding id (performAll commands) (performAll commands) := by
  cases commands with
  | nil => exact mirrors_pure id ()
  | cons command commands =>
      rw [compareText, Bool.or_eq_false_iff] at h
      apply (folds_perform command h.1).attempt.bind
      intro result
      cases result with
      | ok reply => exact (folds_record reply).bind fun _ => folds_performAll commands h.2
      | error f => exact (folds_record (.failed f)).bind fun _ => mirrors_stop _ (.fault f)

end

/-! ### Runs -/

/-- The workbench that commands leave behind. -/
def after (w : Workbench) (journal : Journal) : List Command → Workbench
  | [] => w
  | command :: commands =>
    match w.step journal command with
    | (_, w, journal) => w.after journal commands

/-- One command on its own. -/
theorem folding_step {w : Workbench} (hw : w.IsPlain) {command : Command} (h : command.comparesText = false)
    (journal : Journal) :
    (w.step journal command).2.1.IsPlain ∧ w.folding.step journal command =
      ((w.step journal command).1.fold, (w.step journal command).2.1.folding, (w.step journal command).2.2) := by
  obtain ⟨hP, hperform⟩ := folds_perform command h { w with trail := [] } journal hw
  refine ⟨hP, ?_⟩
  have hbegin : { w.folding with trail := [] } = folding { w with trail := [] } := rfl
  unfold step
  rw [hbegin, hperform]
  rfl

theorem folding_run {w : Workbench} (hw : w.IsPlain) {commands : List Command} (h : compareText commands = false)
    (journal : Journal) :
    w.folding.run journal commands = ((w.run journal commands).1.map Step.fold, (w.run journal commands).2) ∧
      w.folding.after journal commands = (w.after journal commands).folding := by
  induction commands generalizing w journal with
  | nil => exact ⟨rfl, rfl⟩
  | cons command commands ih =>
      rw [compareText, Bool.or_eq_false_iff] at h
      obtain ⟨hP, hstep⟩ := folding_step hw h.1 journal
      obtain ⟨hrun, hafter⟩ := ih hP h.2 (w.step journal command).2.2
      rw [run, run, after, after, hstep]
      dsimp only
      rw [hrun, hafter]
      exact ⟨rfl, rfl⟩

end Workbench

/-- The scope of `caseFold`. If no command compares text, also not in the body of a `speculate`, a workbench over a
stream that folds letters answers as one over the plain stream does, up to `Step.fold`, with the same fault or panic,
and ends in the same state but for the flag. So it is for all pairs of programs that are `Alike`. -/
theorem folding_scope (s : Stream) (journal : Journal) :
    let plain := { s with caseFold := false }
    let folded := { s with caseFold := true }
    (∀ commands, compareText commands = false →
      let w := Workbench.ofStream plain
      let w' := Workbench.ofStream folded
      w'.run journal commands = ((w.run journal commands).1.map Step.fold, (w.run journal commands).2) ∧
        w'.after journal commands = (w.after journal commands).folding) ∧
    ∀ {α β : Type} {f : α → β} {x : Action Stream α} {y : Action Stream β}, Alike f x y →
      y folded journal =
        ⟨(x plain journal).result.map f, (x plain journal).state.folding, (x plain journal).journal⟩ := by
  intro plain folded
  have hplain : plain.IsPlain := rfl
  refine ⟨fun commands h => ?_, fun h => ?_⟩
  · have hw : (Workbench.ofStream plain).IsPlain := hplain
    exact Workbench.folding_run hw h journal
  · exact (h.folds plain journal hplain).2

/-- A report, an attempt that fails in its second command, and a range of the text, which is cut out as it stands. -/
theorem folding_scope_attempt :
    let s := ofSource (.ofText ['A', 'B'] (some 2)) "text" false
    let commands : List Command :=
      [.inspect 1 (some 1), .speculate [.lookahead 1, .lookahead 3] true false, .substring 0 2]
    let steps := ((Workbench.ofStream { s with caseFold := true }).run #[] commands).1
    steps = ((Workbench.ofStream { s with caseFold := false }).run #[] commands).1.map Step.fold ∧
      (steps.flatMap fun step =>
        match step.result with
        | .ok (.reports reports) => reports
        | _ => []) = [⟨.start, .char 'a', [.char 'b']⟩] ∧
      (steps.filterMap fun step =>
        match step.result with
        | .ok (.text text) => some text
        | _ => none) = ["AB"] ∧
      steps.map Step.view = [⟨⟨1, 1, 1⟩, 0, 1, 2⟩, ⟨⟨1, 1, 1⟩, 0, 4, 2⟩, ⟨⟨1, 1, 1⟩, 0, 4, 2⟩] := by
  intro s commands steps
  obtain ⟨hrun, -⟩ := (folding_scope s #[]).1 commands rfl
  refine ⟨?_, by decide +kernel, by decide +kernel, by decide +kernel⟩
  show ((Workbench.ofStream { s with caseFold := true }).run #[] commands).1 = _
  rw [hrun]

end Stream

end Backtrack
