import Backtrack.Proofs.Stream.Beside
import Backtrack.Proofs.Stream.Programs

/-! What a window is for. A window refuses the backups that exceed it and does nothing else: as long as it
refuses none, the stream goes the same way as with a wider window or with none. A request that exceeds it
comes back as a fault, and moves nothing. -/

namespace Backtrack

/-- The window has refused a backup. -/
def Event.isRefusal : Event → Bool
  | .backupBeyondWindow .. => true
  | _ => false

namespace Source

def withWindow (s : Source) (window : Option Nat) : Source :=
  { s with history := { s.history with window := window } }

theorem refill_withWindow (s : Source) (window : Option Nat) (journal : Journal) :
    (s.withWindow window).refill journal =
      ⟨(s.refill journal).result, (s.refill journal).state.withWindow window, (s.refill journal).journal⟩ := by
  obtain ⟨⟨chars, cursor, own⟩, decoder⟩ := s
  unfold refill withWindow
  dsimp only
  by_cases h : (History.isExhausted ⟨chars, cursor, own⟩ && !decoder.isFinished) = true
  · have hwindow : (History.isExhausted ⟨chars, cursor, window⟩ && !decoder.isFinished) = true := h
    rw [if_pos h, if_pos hwindow]
    dsimp only [History.retained]
    generalize decoder.next chars.size journal = o
    obtain ⟨result, after, journal'⟩ := o
    match result with
    | .ok (some c) => rfl
    | .ok none => rfl
    | .error stop => rfl
  · have hwindow : ¬(History.isExhausted ⟨chars, cursor, window⟩ && !decoder.isFinished) = true := h
    rw [if_neg h, if_neg hwindow]

/-- Reading does not look at the window. -/
theorem read_withWindow (s : Source) (window : Option Nat) (journal : Journal) :
    (s.withWindow window).read journal =
      ⟨(s.read journal).result, (s.read journal).state.withWindow window, (s.read journal).journal⟩ := by
  rw [read_eq, read_eq, Action.bind, Action.bind, refill_withWindow]
  generalize s.refill journal = o
  obtain ⟨result, ⟨history, decoder⟩, journal'⟩ := o
  cases result with
  | ok =>
      dsimp only [onHistory, History.next, withWindow]
      split_ifs <;> rfl
  | error stop => rfl

/-- The same source under a window and under a wider one, or none, with the same journal, in which the events
since `start` count. -/
structure Widens (start : Journal) (window : Nat) (wider : Option Nat) (s : Source) (journal : Journal)
    (t : Source) (journal' : Journal) : Prop where
  own : s.history.window = some window
  source : t = s.withWindow wider
  same : journal' = journal
  since : start.size ≤ journal.size

/-- The window has refused nothing since `start`. -/
def Unrefused (start journal : Journal) : Prop :=
  ∀ e ∈ Journal.since start journal, e.isRefusal = false

end Source

namespace Stream

variable {start : Journal} {window : Nat} {wider : Option Nat}

theorem unrefused_of_push {journal : Journal} {e : Event} (h : Source.Unrefused start (journal.push e)) :
    Source.Unrefused start journal := by
  intro e' he'
  have hextends : Journal.Extends (fun _ => True) journal (journal.push e) :=
    (Journal.Extends.refl journal).push trivial
  exact h e' (hextends.mem_since he')

theorem inStep_backup (hwider : ∀ limit ∈ wider, window ≤ limit) (count : Nat) (s : Source) (journal : Journal) :
    Action.InStep (Source.Widens start window wider) (Source.Unrefused start) (Source.backup count) s
      journal := by
  constructor
  · intro h
    have htakes := s.backup_takesBack count journal
    generalize Source.backup count s journal = o at htakes h
    cases htakes with
    | taken hadmits hle => exact h
    | beyondWindow hwindow hlt => exact unrefused_of_push h
    | beforeStart hlt => exact unrefused_of_push h
  · rintro t journal' ⟨hown, rfl, rfl, hsince⟩ hcalm
    by_cases hadmits : s.Admits count
    · have hwide : (s.withWindow wider).Admits count := fun limit hlimit =>
        (hadmits window hown).trans (hwider limit hlimit)
      by_cases hle : count ≤ s.cursor
      · rw [Source.backup_of_admits hadmits hle, Source.backup_of_admits hwide hle]
        exact ⟨rfl, hown, rfl, rfl, hsince⟩
      · have hlt : s.cursor < count := Nat.lt_of_not_le hle
        rw [Source.backup_of_lt hadmits hlt, Source.backup_of_lt hwide hlt]
        exact ⟨rfl, hown, rfl, rfl, by simpa using Nat.le_succ_of_le hsince⟩
    · obtain ⟨limit, -, -, hbackup⟩ := Source.backup_of_not_admits hadmits journal'
      rw [hbackup] at hcalm
      exact absurd (hcalm _ (Journal.mem_since_push hsince _)) Bool.noConfusion

theorem coupling_widens (hwider : ∀ limit ∈ wider, window ≤ limit) :
    Coupling (Source.Widens start window wider) (Source.Unrefused start) := by
  refine ⟨?_, fun s journal => ?_, inStep_backup hwider, unrefused_of_push, ?_⟩
  · rintro s t journal journal' ⟨-, rfl, -, -⟩
    rfl
  · have hextends := s.read_extends journal
    refine ⟨fun hcalm e he => hcalm e (hextends.mem_since he), ?_⟩
    rintro t journal' ⟨hown, rfl, rfl, hsince⟩ -
    rw [Source.read_withWindow]
    exact ⟨rfl, (s.read_evolves journal').window.trans hown, rfl, rfl, hsince.trans hextends.size_le⟩
  · rintro s t journal journal' e ⟨hown, rfl, rfl, hsince⟩
    exact ⟨hown, rfl, rfl, by simpa using Nat.le_succ_of_le hsince⟩

def withWindow (s : Stream) (window : Option Nat) : Stream :=
  { s with source := s.source.withWindow window }

/-- Whatever is done under a window that refuses nothing on the way is done in the same way under a wider one. -/
theorem Uses.withWindow {α : Type} {terms : Terms} {x : Action Stream α} {s : Stream}
    (hx : Uses terms x s start) (hwindow : s.source.history.window = some window)
    (hwider : ∀ limit ∈ wider, window ≤ limit) (hcalm : Source.Unrefused start (x s start).journal) :
    x (s.withWindow wider) start =
      ⟨(x s start).result, (x s start).state.withWindow wider, (x s start).journal⟩ := by
  have hstep : Action.InStep (Beside (Source.Widens start window wider)) (Source.Unrefused start) x s start := by
    refine hx.inStep (coupling_widens hwider) ?_
    rintro s first last - journal t journal' ⟨-, hsource, -, -⟩
    rw [hsource]
    rfl
  have hbeside : Beside (Source.Widens start window wider) s start (s.withWindow wider) start :=
    ⟨rfl, rfl, rfl, rfl, hwindow, rfl, rfl, Nat.le_refl _⟩
  obtain ⟨hresult, hafter⟩ := hstep.beside _ _ hbeside hcalm
  generalize x s start = o at hresult hafter ⊢
  generalize x (s.withWindow wider) start = o' at hresult hafter ⊢
  obtain ⟨result, ⟨source, name, position, marks, caseFold⟩, journal⟩ := o
  obtain ⟨result', ⟨source', name', position', marks', caseFold'⟩, journal'⟩ := o'
  obtain ⟨hname, hposition, hmarks, hcaseFold, -, hsource, hjournal, -⟩ := hafter
  dsimp only at *
  subst hresult hname hposition hmarks hcaseFold hsource hjournal
  rfl

/-! ### Requests that exceed the window -/

variable {s : Stream} {journal : Journal}

theorem seek_beyondWindow {target : Nat} (hwindow : s.source.history.window = some window)
    (hlt : window < s.index - target) (journal : Journal) :
    (seek target s journal).result = .error (.fault (.backupWindowExceeded (s.index - target) window)) ∧
      (seek target s journal).state = s := by
  have hrefused : ¬s.source.Admits (s.index - target) := fun h => Nat.not_le.mpr hlt (h window hwindow)
  obtain ⟨own, hown, -, hseek⟩ := seek_of_not_admits (by omega) hrefused journal
  rw [hwindow] at hown
  cases hown
  rw [hseek]
  exact ⟨rfl, rfl⟩

theorem rewindTo_beyondWindow {m : Marker} {p : Position} (hvalid : s.marks.Valid)
    (hwindow : s.source.history.window = some window) (hopen : s.marks.isOpen m = true)
    (hsaved : s.marks.entries[m.depth - 1]? = some p) (hlt : window < s.index - p.index) (journal : Journal) :
    (rewindTo m s journal).result = .error (.fault (.backupWindowExceeded (s.index - p.index) window)) ∧
      (rewindTo m s journal).state = s := by
  obtain ⟨saved, hsaved', hrewind⟩ := rewindTo_of_isOpen hvalid hopen journal
  rw [hsaved] at hsaved'
  cases hsaved'
  have hseek := seek_beyondWindow hwindow hlt (journal.push (.rewinding m s.position p))
  rw [hrewind, Action.bind]
  generalize seek p.index s _ = o at hseek ⊢
  obtain ⟨result, after, journal'⟩ := o
  obtain ⟨hresult, hstate⟩ := hseek
  cases hresult
  exact ⟨rfl, hstate⟩

theorem lookahead_beyondWindow {i : Nat} (hwindow : s.source.history.window = some window) (hlt : window < i)
    (hread : (Source.readAhead i s.source journal).result = .ok ()) :
    (lookahead i s journal).result = .error (.fault (.backupWindowExceeded i window)) ∧
      (lookahead i s journal).state = { s with source := (Source.readAhead i s.source journal).state } := by
  have hlooks := lookahead_looksAhead i s journal
  have hevolves := (Source.readAhead_readsAhead i s.source journal).evolves
  generalize Source.readAhead i s.source journal = ahead at hread hlooks hevolves ⊢
  generalize lookahead i s journal = o at hlooks ⊢
  cases hlooks with
  | seen hadmits hle => exact absurd (hevolves.admits.mp hadmits window hwindow) (Nat.not_le.mpr hlt)
  | refused hown hlt =>
      rw [hevolves.window.trans hwindow] at hown
      cases hown
      exact ⟨rfl, rfl⟩
  | failed => cases hread
  | overrun => cases hread
  | full => cases hread

/-- A window only restricts. If a program under a window has had no backup refused, it has the same result and the same
journal under a wider window or under none, and the streams differ in the window alone. A `seek` or a `rewindTo` that
goes back farther than the window, and a `lookahead` that has read more symbols, fail with `backupWindowExceeded`, which
names the request and the window, and the cursor stays where it was when the backup was asked for. -/
theorem window_restricts {α : Type} {x : Action Stream α} {text : List Char} {fresh : Stream}
    (hfresh : fresh.IsFresh text) (hwindow : fresh.source.history.window = some window)
    (hx : Uses .free x fresh start) :
    let o := x fresh start
    let s := o.state
    ((∀ e ∈ Journal.since start o.journal, e.isRefusal = false) →
      ∀ wider : Option Nat, (∀ limit ∈ wider, window ≤ limit) →
        x (fresh.withWindow wider) start = ⟨o.result, s.withWindow wider, o.journal⟩) ∧
    (∀ target, window < s.index - target →
      let back := seek target s o.journal
      back.result = .error (.fault (.backupWindowExceeded (s.index - target) window)) ∧ back.state = s) ∧
    (∀ m p, s.marks.isOpen m = true → s.marks.entries[m.depth - 1]? = some p → window < s.index - p.index →
      let back := rewindTo m s o.journal
      back.result = .error (.fault (.backupWindowExceeded (s.index - p.index) window)) ∧ back.state = s) ∧
    ∀ i, window < i →
      let ahead := Source.readAhead i s.source o.journal
      let after := lookahead i s o.journal
      ahead.result = .ok () → after.result = .error (.fault (.backupWindowExceeded i window)) ∧
        after.state = { s with source := ahead.state } := by
  intro o s
  obtain ⟨distance, hstrays, -⟩ := hx.strays hfresh.valid_marks hfresh.ahead
  have hown : s.source.history.window = some window := hstrays.leads.evolves.window.trans hwindow
  refine ⟨fun hcalm wider hwider => hx.withWindow hwindow hwider hcalm,
    fun target hlt => seek_beyondWindow hown hlt o.journal, fun m p hopen hsaved hlt => ?_,
    fun i hlt hread => lookahead_beyondWindow hown hlt hread⟩
  exact rewindTo_beyondWindow (hstrays.marks hfresh.valid_marks) hown hopen hsaved hlt o.journal

/-- A window of two symbols, under which a word is found: without the window the same is found, and under it
the way back to the start is refused. -/
theorem window_restricts_search :
    let o := find ['b', 'c'] (ofSource (.ofText ['a', 'b', 'c', 'd'] (some 2)) "text" false) #[]
    (find ['b', 'c'] (ofSource (.ofText ['a', 'b', 'c', 'd'] none) "text" false) #[]).result = o.result ∧
      (seek 0 o.state o.journal).result = .error (.fault (.backupWindowExceeded 4 2)) := by
  intro o
  have hfresh : (ofSource (.ofText ['a', 'b', 'c', 'd'] (some 2)) "text" false).IsFresh ['a', 'b', 'c', 'd'] :=
    ⟨.inl ⟨some 2, rfl⟩, rfl, 0, rfl⟩
  have hfind : Uses .free (find ['b', 'c']) (ofSource (.ofText ['a', 'b', 'c', 'd'] (some 2)) "text" false) #[] :=
    .find _ ⟨hfresh.valid_marks, Nat.le_refl 0, fun _ => trivial, fun _ _ _ => trivial, fun _ => trivial⟩
  obtain ⟨hwider, hseek, -⟩ := window_restricts hfresh rfl hfind
  have hsame := hwider (by decide +kernel) none fun _ h => by cases h
  have hwithout : (ofSource (.ofText ['a', 'b', 'c', 'd'] (some 2)) "text" false).withWindow none =
      ofSource (.ofText ['a', 'b', 'c', 'd'] none) "text" false := rfl
  rw [hwithout] at hsame
  have hindex : o.state.index = 4 := by decide +kernel
  have hback := (hseek 0 (by rw [hindex]; decide)).1
  rw [hindex] at hback
  refine ⟨?_, hback⟩
  rw [hsame]

end Stream

end Backtrack
