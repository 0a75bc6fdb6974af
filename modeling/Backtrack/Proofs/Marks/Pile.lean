import Backtrack.Marks.Command
import Backtrack.Proofs.Action
import Backtrack.Proofs.Marks.Entries

/-! A stack of marks is a pile of positions. What is left over in the slots above the depth, whether a slot is
written again or made anew, and how many slots there were at first can be seen in nothing but the number of
slots. -/

namespace Backtrack.MarkStack

/-- A pile of positions, the lowest one first, with the marks that have been handed out. -/
structure Pile where
  positions : List Position
  last : Marker
  handles : Array Marker

namespace Pile

/-- A pile without positions. -/
def start (handles : Array Marker) : Pile :=
  ⟨[], ⟨0⟩, handles⟩

def height (pile : Pile) : Nat :=
  pile.positions.length

/-- The mark is the number of a position, counted from one. -/
def Holds (pile : Pile) (m : Marker) : Prop :=
  1 ≤ m.depth ∧ m.depth ≤ pile.height

instance (pile : Pile) (m : Marker) : Decidable (pile.Holds m) :=
  inferInstanceAs (Decidable (_ ∧ _))

def position (pile : Pile) (m : Marker) (h : pile.Holds m) : Position :=
  pile.positions.get ⟨m.depth - 1, Nat.sub_one_lt_of_le h.1 h.2⟩

def marker (pile : Pile) (handle : Nat) : Marker :=
  pile.handles[handle]?.getD ⟨0⟩

def handOut (pile : Pile) (m : Marker) : Pile :=
  { pile with handles := pile.handles.push m }

/-- The pile with one position more, and with the mark of that handed out. -/
def add (pile : Pile) (p : Position) : Pile :=
  ⟨pile.positions ++ [p], ⟨pile.height + 1⟩, pile.handles.push ⟨pile.height + 1⟩⟩

/-- The pile without the position of a mark and all above it. -/
def cut (pile : Pile) (m : Marker) : Pile :=
  { pile with positions := pile.positions.take (m.depth - 1) }

def refuse (pile : Pile) (m : Marker) : Except Stop Reply × Pile :=
  (.error (.breach (.markNotOpen m.depth pile.height)), pile)

/-- What a command answers, and the pile that it leaves. -/
def perform (pile : Pile) : Command → Except Stop Reply × Pile
  | .new => (.ok .done, start pile.handles)
  | .withCapacity capacity =>
    if counterLimit ≤ capacity then (.error (.breach .counterOverflow), pile)
    else if allocationLimit < (capacity + 1) * slotSize then (.error (.breach .capacityOverflow), pile)
    else (.ok .done, start pile.handles)
  | .copy => (.ok .done, pile)
  | .push p => (.ok (.marker ⟨pile.height + 1⟩), pile.add p)
  | .last => (.ok (.marker pile.last), pile.handOut pile.last)
  | .foreign depth => (.ok .done, pile.handOut ⟨depth⟩)
  | .get handle =>
    if h : pile.Holds (pile.marker handle) then (.ok (.position (pile.position _ h)), pile)
    else pile.refuse (pile.marker handle)
  | .release handle =>
    if pile.Holds (pile.marker handle) then (.ok .done, pile.cut (pile.marker handle))
    else pile.refuse (pile.marker handle)
  | .isOpen handle => (.ok (.flag (pile.Holds (pile.marker handle))), pile)
  | .depthOf handle => (.ok (.number (pile.marker handle).depth), pile)
  | .compare left right => (.ok (.order (compare (pile.marker left).depth (pile.marker right).depth)), pile)

/-- The answers to commands one after another, each with the height of the pile after it. -/
def run (pile : Pile) : List Command → List (Except Stop Reply × Nat)
  | [] => []
  | command :: commands =>
    match pile.perform command with
    | (result, pile) => (result, pile.height) :: pile.run commands

/-- No command finds that a slot is missing. -/
theorem perform_ne_slotMissing (pile : Pile) (command : Command) (index length : Nat) :
    (pile.perform command).1 ≠ .error (.breach (.slotMissing index length)) := by
  cases command <;> simp only [perform, refuse] <;> (try split_ifs) <;> simp

theorem run_ne_slotMissing {pile : Pile} {commands : List Command} {result : Except Stop Reply} {height : Nat}
    (h : (result, height) ∈ pile.run commands) (index length : Nat) :
    result ≠ .error (.breach (.slotMissing index length)) := by
  induction commands generalizing pile with
  | nil => cases h
  | cons command commands ih =>
      rw [run] at h
      rcases List.mem_cons.mp h with heq | h
      · cases heq
        exact pile.perform_ne_slotMissing command index length
      · exact ih h

/-- The pile is what can be seen of the stack and of the marks that have been handed out. -/
structure Shows (pile : Pile) (w : Workbench) : Prop where
  valid : w.stack.Valid
  positions : w.stack.entries = pile.positions
  last : w.stack.lastOpened = pile.last
  handles : w.handles = pile.handles

theorem shows_start (capacity : Nat) (handles : Array Marker) :
    (start handles).Shows ⟨withCapacity capacity, handles⟩ :=
  ⟨valid_withCapacity capacity, entries_withCapacity capacity, rfl, rfl⟩

end Pile

theorem Workbench.onStack_eq {α : Type} {x : Action MarkStack α} {w : Workbench} {journal journal' : Journal}
    {result : Except Stop α} {after : MarkStack} (h : x w.stack journal = ⟨result, after, journal'⟩) :
    onStack x w journal = ⟨result, { w with stack := after }, journal'⟩ := by
  rw [onStack, h]

theorem lastOpened_push {s : MarkStack} (h : s.Valid) (p : Position) (journal : Journal) :
    (push p s journal).state.lastOpened = ⟨s.depth + 1⟩ := by
  obtain ⟨slots, depth, last⟩ := s
  have hsize : depth < slots.size := h
  unfold push
  dsimp only
  split_ifs
  · rfl
  · rfl
  · omega

/-! ### Slots -/

/-- The command goes on with the stack that is there. -/
def Command.KeepsStack : Command → Prop
  | .new => False
  | .withCapacity _ => False
  | _ => True

/-- The stack has come of another one, and has new slots only if it is deeper than that had slots for. -/
def Grows (s s' : MarkStack) : Prop :=
  s'.allocated = max s.allocated s'.depth

theorem allocated_withCapacity (capacity : Nat) : (withCapacity capacity).allocated = capacity := by
  simp [allocated, withCapacity]

theorem grows_of_depth_le {s s' : MarkStack} (h : s.Valid) (hslots : s'.slots = s.slots)
    (hdepth : s'.depth ≤ s.depth) : s.Grows s' := by
  have hsize : s.depth < s.slots.size := h
  unfold Grows allocated
  rw [hslots]
  omega

theorem Valid.grows {s : MarkStack} (h : s.Valid) : s.Grows s :=
  grows_of_depth_le h rfl (Nat.le_refl _)

theorem grows_push {s : MarkStack} (h : s.Valid) (p : Position) (journal : Journal) :
    s.Grows (push p s journal).state := by
  obtain ⟨slots, depth, last⟩ := s
  have hsize : depth < slots.size := h
  unfold push Grows allocated
  dsimp only
  split_ifs with hfull hroom
  · dsimp only
    rw [Array.size_push]
    omega
  · dsimp only
    rw [Array.size_set]
    omega
  · omega

/-! ### The pile that a stack shows -/

namespace Pile.Shows

variable {pile : Pile} {w : Workbench}

theorem depth (h : pile.Shows w) : w.stack.depth = pile.height := by
  rw [height, ← h.positions, length_entries h.valid]

theorem marker (h : pile.Shows w) (handle : Nat) (journal : Journal) :
    Workbench.marker handle w journal = ⟨.ok (pile.marker handle), w, journal⟩ := by
  rw [Workbench.marker, h.handles, Pile.marker]

theorem isOpen_iff (h : pile.Shows w) (m : Marker) : w.stack.isOpen m = true ↔ pile.Holds m := by
  rw [MarkStack.isOpen_iff, h.depth, Holds]

theorem handOut (h : pile.Shows w) (m : Marker) :
    (pile.handOut m).Shows { w with handles := w.handles.push m } :=
  { h with handles := congrArg (Array.push · m) h.handles }

theorem renew (h : pile.Shows w) (capacity : Nat) :
    (Pile.start pile.handles).Shows { w with stack := withCapacity capacity } := by
  rw [← h.handles]
  exact shows_start capacity w.handles

theorem position (h : pile.Shows w) {m : Marker} (hm : pile.Holds m) (journal : Journal) :
    get m w.stack journal = ⟨.ok (pile.position m hm), w.stack, journal⟩ := by
  obtain ⟨p, hp, hget⟩ := get_of_isOpen h.valid ((h.isOpen_iff m).mpr hm) journal
  rw [h.positions] at hp
  obtain ⟨_, rfl⟩ := List.getElem?_eq_some_iff.mp hp
  exact hget

theorem add (h : pile.Shows w) (p : Position) (journal : Journal) :
    ∃ after, push p w.stack journal = ⟨.ok ⟨pile.height + 1⟩, after, journal⟩ ∧ w.stack.Grows after ∧
      (pile.add p).Shows ⟨after, w.handles.push ⟨pile.height + 1⟩⟩ := by
  obtain ⟨after, hpush, hvalid, -, hentries⟩ := push_of_valid h.valid p journal
  have hlast := lastOpened_push h.valid p journal
  have hgrows := grows_push h.valid p journal
  rw [h.depth, hpush] at hlast
  rw [hpush] at hgrows
  rw [h.depth] at hpush
  refine ⟨after, hpush, hgrows, hvalid, ?_, hlast, congrArg (Array.push · _) h.handles⟩
  rw [hentries, h.positions]
  rfl

theorem cut (h : pile.Shows w) {m : Marker} (hm : pile.Holds m) (journal : Journal) :
    release m w.stack journal = ⟨.ok (), w.stack.close m, journal⟩ ∧ w.stack.Grows (w.stack.close m) ∧
      (pile.cut m).Shows { w with stack := w.stack.close m } := by
  have hopen := (h.isOpen_iff m).mpr hm
  have hle : m.depth - 1 ≤ w.stack.depth := by
    rw [h.depth]
    exact Nat.le_trans (Nat.sub_le _ _) hm.2
  refine ⟨release_of_isOpen hopen journal, grows_of_depth_le h.valid rfl hle,
    { h with valid := h.valid.close hopen, positions := ?_ }⟩
  rw [entries_close hopen, h.positions]
  rfl

/-- A mark that the pile does not hold is not open, and the refusals are the same. -/
theorem refused (h : pile.Shows w) {m : Marker} (hm : ¬pile.Holds m) :
    ¬w.stack.isOpen m = true ∧
      (.error (.breach (.markNotOpen m.depth w.stack.depth)) : Except Stop Reply) = (pile.refuse m).1 :=
  ⟨fun hopen => hm ((h.isOpen_iff m).mp hopen), by rw [h.depth, Pile.refuse]⟩

/-- A command gives the answer that the pile gives, and the pile shows what it leaves. -/
theorem perform (h : pile.Shows w) (command : Command) (journal : Journal) :
    let o := Workbench.perform command w journal
    o.result = (pile.perform command).1 ∧ (pile.perform command).2.Shows o.state ∧
      (command.KeepsStack → w.stack.Grows o.state.stack) := by
  have hstays : ∀ keeps : Prop, keeps → w.stack.Grows w.stack := fun _ _ => h.valid.grows
  cases command with
  | new => exact ⟨rfl, h.renew 0, False.elim⟩
  | withCapacity capacity =>
      rw [Workbench.perform, Action.bind_apply, Action.bind, allocate, Pile.perform]
      split_ifs
      · exact ⟨rfl, h, False.elim⟩
      · exact ⟨rfl, h, False.elim⟩
      · exact ⟨rfl, h.renew capacity, False.elim⟩
  | copy => exact ⟨rfl, h, hstays _⟩
  | push p =>
      obtain ⟨after, hpush, hgrows, hshows⟩ := h.add p journal
      rw [Workbench.perform, Action.bind_of_ok (Workbench.onStack_eq hpush)]
      exact ⟨rfl, hshows, fun _ => hgrows⟩
  | last =>
      have hlast : Workbench.query lastOpened w journal = ⟨.ok pile.last, w, journal⟩ := by
        rw [Workbench.query, h.last]
      rw [Workbench.perform, Action.bind_of_ok hlast]
      exact ⟨rfl, h.handOut pile.last, hstays _⟩
  | foreign depth => exact ⟨rfl, h.handOut ⟨depth⟩, hstays _⟩
  | get handle =>
      rw [Workbench.perform, Action.bind_of_ok (h.marker handle journal), Pile.perform]
      split_ifs with hm
      · rw [Action.map_of_ok _ (Workbench.onStack_eq (h.position hm journal))]
        exact ⟨rfl, h, hstays _⟩
      · obtain ⟨hopen, hrefuse⟩ := h.refused hm
        rw [Action.map_of_error _ (Workbench.onStack_eq (get_of_not_isOpen hopen journal))]
        exact ⟨hrefuse, h, hstays _⟩
  | release handle =>
      rw [Workbench.perform, Action.bind_of_ok (h.marker handle journal), Pile.perform]
      split_ifs with hm
      · obtain ⟨hrelease, hgrows, hshows⟩ := h.cut hm journal
        rw [Action.bind_of_ok (Workbench.onStack_eq hrelease)]
        exact ⟨rfl, hshows, fun _ => hgrows⟩
      · obtain ⟨hopen, hrefuse⟩ := h.refused hm
        rw [Action.bind_of_error (Workbench.onStack_eq (release_of_not_isOpen hopen journal))]
        exact ⟨hrefuse, h, hstays _⟩
  | isOpen handle =>
      have hflag : w.stack.isOpen (pile.marker handle) = decide (pile.Holds (pile.marker handle)) :=
        Bool.eq_iff_iff.mpr ((h.isOpen_iff _).trans decide_eq_true_iff.symm)
      rw [Workbench.perform, Action.bind_of_ok (h.marker handle journal), Pile.perform, ← hflag]
      exact ⟨rfl, h, hstays _⟩
  | depthOf handle =>
      rw [Workbench.perform, Action.map_of_ok _ (Action.map_of_ok _ (h.marker handle journal))]
      exact ⟨rfl, h, hstays _⟩
  | compare left right =>
      rw [Workbench.perform, Action.bind_of_ok (h.marker left journal),
        Action.bind_of_ok (h.marker right journal)]
      exact ⟨rfl, h, hstays _⟩

end Pile.Shows

theorem Workbench.run_cons (w : Workbench) (command : Command) (commands : List Command) :
    w.run (command :: commands) =
      ⟨(perform command w #[]).result, (perform command w #[]).state.stack.depth,
        (perform command w #[]).state.stack.allocated⟩ :: (perform command w #[]).state.run commands :=
  rfl

namespace Pile.Shows

variable {pile : Pile} {w : Workbench}

theorem run (h : pile.Shows w) (commands : List Command) :
    (w.run commands).map (fun step => (step.result, step.depth)) = pile.run commands := by
  induction commands generalizing pile w with
  | nil => rfl
  | cons command commands ih =>
      obtain ⟨hresult, hshows, -⟩ := h.perform command #[]
      rw [Workbench.run_cons, List.map_cons, ih hshows, hresult, hshows.depth]
      rfl

/-- As long as the stack is kept, it has as many slots as it had or as it has been deep. -/
theorem allocated (h : pile.Shows w) {commands : List Command} {n : Nat}
    (hkeeps : ∀ command ∈ commands.take (n + 1), command.KeepsStack) {step : Step}
    (hstep : (w.run commands)[n]? = some step) :
    step.allocated = (((w.run commands).take (n + 1)).map Step.depth).foldl max w.stack.allocated := by
  induction n generalizing pile w commands with
  | zero =>
      cases commands with
      | nil => cases hstep
      | cons command commands =>
          obtain ⟨-, -, hgrows⟩ := h.perform command #[]
          rw [Workbench.run_cons] at hstep ⊢
          cases hstep
          exact hgrows (hkeeps command (by simp))
  | succ n ih =>
      cases commands with
      | nil => cases hstep
      | cons command commands =>
          obtain ⟨-, hshows, hgrows⟩ := h.perform command #[]
          rw [List.take_succ_cons, List.forall_mem_cons] at hkeeps
          rw [Workbench.run_cons] at hstep ⊢
          rw [ih hshows hkeeps.2 hstep, List.take_succ_cons, List.map_cons, List.foldl_cons, hgrows hkeeps.1]

end Pile.Shows

/-- A stack of marks is a pile of positions. Whatever capacity it is made with and whatever marks are handed out
already, open, closed or of another stack, commands are answered as a pile answers them: a mark is opened by
adding a position and its name is the number of that, an open mark gives out the position of its number, closing
it leaves the positions below, and a mark that is not the number of a position is refused with nothing changed.
No slot is missing. As long as the stack is not replaced, there are as many slots as were asked for or as there
have been marks open at a time, whichever is more; nothing else depends on how many were asked for. -/
theorem run_shows_pile (capacity : Nat) (handles : Array Marker) (commands : List Command) :
    let steps := Workbench.run ⟨withCapacity capacity, handles⟩ commands
    steps.map (fun step => (step.result, step.depth)) = (Pile.start handles).run commands ∧
      (∀ step ∈ steps, ∀ index length, step.result ≠ .error (.breach (.slotMissing index length))) ∧
      ∀ n step, (∀ command ∈ commands.take (n + 1), command.KeepsStack) → steps[n]? = some step →
        step.allocated = ((steps.take (n + 1)).map Step.depth).foldl max capacity := by
  intro steps
  have hshows := Pile.shows_start capacity handles
  have hrun := hshows.run commands
  refine ⟨hrun, fun step hstep => ?_, fun n step hkeeps hstep => ?_⟩
  · have hmem : (step.result, step.depth) ∈ (Pile.start handles).run commands :=
      hrun ▸ List.mem_map_of_mem hstep
    exact Pile.run_ne_slotMissing hmem
  · have hallocated := hshows.allocated hkeeps hstep
    rwa [allocated_withCapacity] at hallocated

/-- A slot that is written again behind a mark that has gone stale, with the mark of another stack, in a stack that
was made for one position. -/
theorem run_shows_pile_stale :
    let commands : List Command :=
      [.push ⟨0, 1, 0⟩, .push ⟨3, 1, 3⟩, .push ⟨5, 2, 0⟩, .release 1, .get 2, .push ⟨7, 2, 2⟩, .get 1, .foreign 9,
        .get 3, .release 4]
    let steps := Workbench.run ⟨withCapacity 1, #[]⟩ commands
    (∀ command ∈ commands, command.KeepsStack) ∧
      steps.map Step.result =
        [.ok (.marker ⟨1⟩), .ok (.marker ⟨2⟩), .ok (.marker ⟨3⟩), .ok .done, .error (.breach (.markNotOpen 3 1)),
          .ok (.marker ⟨2⟩), .ok (.position ⟨7, 2, 2⟩), .ok .done, .ok (.position ⟨7, 2, 2⟩),
          .error (.breach (.markNotOpen 9 2))] ∧
      ∀ step, steps[9]? = some step → step.allocated = 3 := by
  intro commands steps
  have hkeeps : ∀ command ∈ commands, command.KeepsStack := by
    simp only [commands, List.forall_mem_cons, Command.KeepsStack]
    simp
  obtain ⟨hrun, -, hallocated⟩ := run_shows_pile 1 #[] commands
  have hpile : (Pile.start #[]).run commands =
      [(.ok (.marker ⟨1⟩), 1), (.ok (.marker ⟨2⟩), 2), (.ok (.marker ⟨3⟩), 3), (.ok .done, 1),
        (.error (.breach (.markNotOpen 3 1)), 1), (.ok (.marker ⟨2⟩), 2), (.ok (.position ⟨7, 2, 2⟩), 2),
        (.ok .done, 2), (.ok (.position ⟨7, 2, 2⟩), 2), (.error (.breach (.markNotOpen 9 2)), 2)] := by
    rfl
  rw [hpile] at hrun
  refine ⟨hkeeps, ?_, fun step hstep => ?_⟩
  · calc
      steps.map Step.result = (steps.map fun step => (step.result, step.depth)).map Prod.fst := by
        rw [List.map_map]
        rfl
      _ = _ := by
        rw [hrun]
        rfl
  · have hdepths : steps.map Step.depth = [1, 2, 3, 1, 1, 2, 2, 2, 2, 2] := by
      calc
        steps.map Step.depth = (steps.map fun step => (step.result, step.depth)).map Prod.snd := by
          rw [List.map_map]
          rfl
        _ = _ := by
          rw [hrun]
          rfl
    have hroom := hallocated 9 step (fun command hmem => hkeeps command (List.mem_of_mem_take hmem)) hstep
    rw [List.map_take, hdepths] at hroom
    exact hroom

end Backtrack.MarkStack
