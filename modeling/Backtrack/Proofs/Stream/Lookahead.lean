import Backtrack.Proofs.Source.Ahead
import Backtrack.Proofs.Stream.Moves

/-! Looking ahead, step by step. A lookahead reads ahead and asks the source to take back as many symbols as
it has read. Whether the reading was complete decides what it answers; whether the window admits the backup
decides where the cursor stands. -/

namespace Backtrack.Stream

/-- Reading on reads ahead, and takes back what has been read when the reading fails. -/
theorem readOn_eq (done : Nat) (last : Symbol) (count : Nat) (s : Stream) (journal : Journal) :
    match Source.readAhead count s.source journal with
    | ⟨.ok (), source, journal'⟩ =>
        ∃ symbol, readOn done last count s journal = ⟨.ok symbol, { s with source := source }, journal'⟩
    | ⟨.error (.fault f), source, journal'⟩ =>
        let back := Source.backup (done + s.source.sight journal count) source journal'
        readOn done last count s journal = ⟨.error (.fault f), { s with source := back.state }, back.journal⟩
    | ⟨.error (.breach b), source, journal'⟩ =>
        readOn done last count s journal = ⟨.error (.breach b), { s with source := source }, journal'⟩ := by
  induction count generalizing done last s journal with
  | zero => exact ⟨last, rfl⟩
  | succ count ih =>
      have hcursor := s.source.read_cursor journal
      unfold Source.sight
      rw [Source.readAhead_succ, Action.bind, readOn, Action.bind_apply, Action.bind, Action.attempt, onSource_eq]
      generalize s.source.read journal = o at hcursor ⊢
      obtain ⟨result, mid, journal'⟩ := o
      cases result with
      | ok symbol =>
          have hrest := ih (done + 1) symbol { s with source := mid } journal'
          have hsight := Source.cursor_readAhead count mid journal'
          have hdone : done + 1 + mid.sight journal' count =
              done + ((Source.readAhead count mid journal').state.cursor - s.source.cursor) := by
            rw [hsight, hcursor.1]
            omega
          dsimp only at hrest ⊢
          rw [hdone] at hrest
          exact hrest
      | error stop =>
          cases stop with
          | fault f =>
              have hmid : mid.cursor - s.source.cursor = 0 := by
                rw [show mid.cursor = s.source.cursor from hcursor.2, Nat.sub_self]
              dsimp only
              have htakes := mid.backup_takesBack (done + 0) journal'
              rw [hmid, Action.bind_apply, Action.bind, Action.attempt, onSource_eq]
              generalize Source.backup (done + 0) mid journal' = back at htakes ⊢
              cases htakes <;> rfl
          | breach b => rfl

/-- The outcomes of `lookahead i` by that of `Source.readAhead i`. `seen` and `failed`: as many symbols as have been
read are taken back. `refused` and `overrun`: the window is less than that number, and the cursor stays. `full`: a
breach has stopped the reading. -/
inductive LooksAhead (s : Stream) (i : Nat) : Outcome Source Unit → Outcome Stream (Option Symbol) → Prop
  | seen {symbol : Option Symbol} {source : Source} {journal : Journal} (hadmits : source.Admits i)
      (hle : i ≤ source.cursor) :
      LooksAhead s i ⟨.ok (), source, journal⟩ ⟨.ok symbol, { s with source := source.takeBack i }, journal⟩
  | refused {source : Source} {journal : Journal} {window : Nat}
      (hwindow : source.history.window = some window) (hlt : window < i) :
      LooksAhead s i ⟨.ok (), source, journal⟩
        ⟨.error (.fault (.backupWindowExceeded i window)), { s with source := source },
          journal.push (.backupBeyondWindow i window)⟩
  | failed {f : Fault} {source : Source} {journal : Journal}
      (hadmits : source.Admits (source.cursor - s.source.cursor)) :
      LooksAhead s i ⟨.error (.fault f), source, journal⟩
        ⟨.error (.fault f), { s with source := source.takeBack (source.cursor - s.source.cursor) }, journal⟩
  | overrun {f : Fault} {source : Source} {journal : Journal} {window : Nat}
      (hwindow : source.history.window = some window) (hlt : window < source.cursor - s.source.cursor) :
      LooksAhead s i ⟨.error (.fault f), source, journal⟩
        ⟨.error (.fault f), { s with source := source },
          journal.push (.backupBeyondWindow (source.cursor - s.source.cursor) window)⟩
  | full {b : Breach} {source : Source} {journal : Journal} :
      LooksAhead s i ⟨.error (.breach b), source, journal⟩
        ⟨.error (.breach b), { s with source := source }, journal⟩

theorem lookahead_looksAhead (i : Nat) (s : Stream) (journal : Journal) :
    LooksAhead s i (Source.readAhead i s.source journal) (lookahead i s journal) := by
  have hon := readOn_eq 0 .eof i s journal
  have hahead := Source.readAhead_readsAhead i s.source journal
  unfold Source.sight at hon
  by_cases hi : i = 0
  · subst hi
    exact .seen (fun _ _ => Nat.zero_le _) (Nat.zero_le _)
  · rw [lookahead, if_neg hi, Action.bind_apply, Action.bind]
    generalize Source.readAhead i s.source journal = ahead at hon hahead ⊢
    cases hahead with
    | @read source journal' hevolves hreading hcursor =>
        obtain ⟨symbol, hon⟩ := hon
        have htakes := source.backup_takesBack i journal'
        rw [hon]
        dsimp only
        rw [Action.bind_apply, Action.bind, onSource_eq]
        dsimp only
        generalize Source.backup i source journal' = back at htakes ⊢
        cases htakes with
        | taken hadmits hle => exact .seen hadmits hle
        | beyondWindow hwindow hlt => exact .refused hwindow hlt
        | beforeStart hlt => omega
    | @failed f source journal' hevolves hreading hle hlt =>
        dsimp only at hon
        rw [Nat.zero_add] at hon
        have htakes := source.backup_takesBack (source.cursor - s.source.cursor) journal'
        rw [hon]
        generalize Source.backup _ source journal' = back at htakes ⊢
        cases htakes with
        | taken hadmits => exact .failed hadmits
        | beyondWindow hwindow hlt => exact .overrun hwindow hlt
        | beforeStart hlt => omega
    | full =>
        rw [show readOn 0 .eof i s journal = _ from hon]
        exact .full

namespace LooksAhead

variable {s : Stream} {i : Nat} {source : Source} {journal : Journal} {o : Outcome Stream (Option Symbol)}

theorem of_admits (h : LooksAhead s i ⟨.ok (), source, journal⟩ o) (hadmits : source.Admits i) :
    ∃ symbol, o = ⟨.ok symbol, { s with source := source.takeBack i }, journal⟩ := by
  cases h with
  | seen => exact ⟨_, rfl⟩
  | refused hwindow hlt => exact absurd (hadmits _ hwindow) (Nat.not_le.mpr hlt)

theorem of_fault {f : Fault} (h : LooksAhead s i ⟨.error (.fault f), source, journal⟩ o)
    (hadmits : source.Admits (source.cursor - s.source.cursor)) :
    o = ⟨.error (.fault f), { s with source := source.takeBack (source.cursor - s.source.cursor) }, journal⟩ := by
  cases h with
  | failed => rfl
  | overrun hwindow hlt => exact absurd (hadmits _ hwindow) (Nat.not_le.mpr hlt)

theorem of_breach {b : Breach} (h : LooksAhead s i ⟨.error (.breach b), source, journal⟩ o) :
    o = ⟨.error (.breach b), { s with source := source }, journal⟩ := by
  cases h
  rfl

end LooksAhead

theorem LooksAhead.position {s : Stream} {i : Nat} {ahead : Outcome Source Unit}
    {o : Outcome Stream (Option Symbol)} (h : LooksAhead s i ahead o) :
    o.state.position = s.position ∧ o.state.marks = s.marks := by
  cases h <;> exact ⟨rfl, rfl⟩

end Backtrack.Stream
