import Backtrack.Proofs.Stream.Drift
import Backtrack.Proofs.Stream.RoundTrip

/-! Attempts. An attempt opens a mark, lets its body work above it, and closes the mark again on each of the ways
out: by a release when the body has come to a value or to a fault, by the way back when it has come to nothing,
and by a release again when the way back fails. So the marks that were open before are open afterwards, and no
others, however the body has ended and whatever it has left open. -/

namespace Backtrack.Stream

variable {α : Type} {body : Action Stream (Option α)} {m : Marker} {s marked tried back after : Stream}
  {journal between tail rest journal' : Journal}

/-! ### The ways out of an attempt -/

theorem speculate_of_some {a : α} (hmark : mark s journal = ⟨.ok m, marked, between⟩)
    (hbody : body marked between = ⟨.ok (some a), tried, tail⟩)
    (hrelease : release m tried tail = ⟨.ok (), after, journal'⟩) :
    speculate body s journal = ⟨.ok (some a), after, journal'⟩ := by
  refine (Action.bind_of_ok hmark).trans ((Action.bind_of_ok (Action.attempt_of_ok hbody)).trans ?_)
  exact Action.bind_of_ok hrelease

theorem speculate_of_none (hmark : mark s journal = ⟨.ok m, marked, between⟩)
    (hbody : body marked between = ⟨.ok none, tried, tail⟩)
    (hrewind : rewindTo m tried tail = ⟨.ok (), after, journal'⟩) :
    speculate body s journal = ⟨.ok none, after, journal'⟩ := by
  refine (Action.bind_of_ok hmark).trans ((Action.bind_of_ok (Action.attempt_of_ok hbody)).trans ?_)
  exact Action.bind_of_ok (Action.attempt_of_ok hrewind)

theorem speculate_of_none_of_fault {f : Fault} (hmark : mark s journal = ⟨.ok m, marked, between⟩)
    (hbody : body marked between = ⟨.ok none, tried, tail⟩)
    (hrewind : rewindTo m tried tail = ⟨.error (.fault f), back, rest⟩)
    (hrelease : release m back rest = ⟨.ok (), after, journal'⟩) :
    speculate body s journal = ⟨.error (.fault f), after, journal'⟩ := by
  refine (Action.bind_of_ok hmark).trans ((Action.bind_of_ok (Action.attempt_of_ok hbody)).trans ?_)
  exact (Action.bind_of_ok (Action.attempt_of_fault hrewind)).trans (Action.bind_of_ok hrelease)

theorem speculate_of_none_of_breach {b : Breach} (hmark : mark s journal = ⟨.ok m, marked, between⟩)
    (hbody : body marked between = ⟨.ok none, tried, tail⟩)
    (hrewind : rewindTo m tried tail = ⟨.error (.breach b), back, rest⟩) :
    speculate body s journal = ⟨.error (.breach b), back, rest⟩ := by
  refine (Action.bind_of_ok hmark).trans ((Action.bind_of_ok (Action.attempt_of_ok hbody)).trans ?_)
  exact Action.bind_of_error (Action.attempt_of_breach hrewind)

theorem speculate_of_fault {f : Fault} (hmark : mark s journal = ⟨.ok m, marked, between⟩)
    (hbody : body marked between = ⟨.error (.fault f), tried, tail⟩)
    (hrelease : release m tried tail = ⟨.ok (), after, journal'⟩) :
    speculate body s journal = ⟨.error (.fault f), after, journal'⟩ := by
  refine (Action.bind_of_ok hmark).trans ((Action.bind_of_ok (Action.attempt_of_fault hbody)).trans ?_)
  exact Action.bind_of_ok hrelease

theorem speculate_of_breach {b : Breach} (hmark : mark s journal = ⟨.ok m, marked, between⟩)
    (hbody : body marked between = ⟨.error (.breach b), tried, tail⟩) :
    speculate body s journal = ⟨.error (.breach b), tried, tail⟩ :=
  (Action.bind_of_ok hmark).trans (Action.bind_of_error (Action.attempt_of_breach hbody))

/-! ### A way back that fails -/

/-- When the way back to a mark fails, all marks stay open; and if it was to lead backward, nothing has moved. -/
theorem rewindTo_of_fault {f : Fault} (hvalid : s.marks.Valid)
    (h : rewindTo m s journal = ⟨.error (.fault f), after, journal'⟩) :
    after.marks = s.marks ∧
      ∀ p, s.marks.entries[m.depth - 1]? = some p → p.index < s.index → after = s := by
  by_cases hopen : s.marks.isOpen m = true
  · obtain ⟨p, hsaved, hrewind⟩ := rewindTo_of_isOpen hvalid hopen journal
    rw [hrewind, Action.bind] at h
    by_cases hlt : p.index < s.index
    · have hseeks := seek_seeksBack hlt (journal.push (.rewinding m s.position p))
      generalize seek p.index s _ = o at hseeks h
      cases hseeks with
      | moved hadmits hle =>
          have hmoved : (s.retreat p.index).marks.isOpen m = true := hopen
          have hindex : (s.retreat p.index).index = p.index := rfl
          dsimp only at h
          rw [restore_of_isOpen hmoved hindex] at h
          cases h
      | refused hwhy hrefused =>
          cases h
          exact ⟨rfl, fun _ _ _ => rfl⟩
    · have hgoes := @times_advance_goes False (p.index - s.index) s
        (journal.push (.rewinding m s.position p))
      rw [seek_of_le (Nat.not_lt.mp hlt)] at h
      generalize advance.times (p.index - s.index) s _ = o at hgoes h
      obtain ⟨result, mid, between⟩ := o
      cases result with
      | ok =>
          have hway := hgoes (Outcome.not_isFull_of_ok rfl)
          have hmid : mid.marks = s.marks := hway.marks
          have hindex : mid.index = p.index := by
            rw [hway.index rfl]
            omega
          dsimp only at h
          rw [restore_of_isOpen (hmid ▸ hopen) hindex] at h
          cases h
      | error reason =>
          cases h
          refine ⟨(hgoes fun hfull => by cases hfull).marks, fun q hq hback => ?_⟩
          rw [hsaved, Option.some.injEq] at hq
          exact absurd (hq ▸ hback) hlt
  · rw [rewindTo_of_not_isOpen hopen] at h
    cases h

/-! ### Balance -/

/-- `o` is the outcome of `speculate` at the position `p`, where `tried` is that of its body and `back` that of the
`rewindTo` behind it: a value or a fault of the body, at the position of `tried`, or nothing, at `p`, or the fault of
the way back. -/
def Settles (p : Position) (tried : Outcome Stream (Option α)) (back : Outcome Stream Unit)
    (o : Outcome Stream (Option α)) : Prop :=
  match tried.result with
  | .ok (some a) => o.result = .ok (some a) ∧ o.state.position = tried.state.position
  | .ok none =>
      (back.result = .ok () ∧ o.result = .ok none ∧ o.state.position = p) ∨
        ∃ f, back.result = .error (.fault f) ∧ o.result = .error (.fault f) ∧
          (p.index < tried.state.index → o.state.position = tried.state.position)
  | .error (.fault f) => o.result = .error (.fault f) ∧ o.state.position = tried.state.position
  | .error (.breach _) => False

/-- Where the body has left the mark of the attempt open above those that were open before, the attempt closes it
and all that the body has left open above it. -/
theorem speculate_settles {saved : List Position} {p : Position}
    (hmark : mark s journal = ⟨.ok m, marked, between⟩) (hvalid : (body marked between).state.marks.Valid)
    (hopen : (body marked between).state.marks.isOpen m = true)
    (hsaved : (body marked between).state.marks.entries[m.depth - 1]? = some p)
    (hclose : ((body marked between).state.marks.close m).entries = saved)
    (hcalm : ∀ b, (speculate body s journal).result ≠ .error (.breach b)) :
    let tried := body marked between
    let o := speculate body s journal
    o.state.marks.depth = m.depth - 1 ∧ o.state.marks.entries = saved ∧
      Settles p tried (rewindTo m tried.state tried.journal) o := by
  intro tried o
  generalize hbody : body marked between = t at hvalid hopen hsaved hclose
  obtain ⟨result, mid, tail⟩ := t
  have htried : tried = ⟨result, mid, tail⟩ := hbody
  rw [htried]
  match result with
  | .ok (some a) =>
      have ho : o = _ := speculate_of_some hmark hbody (release_of_isOpen hopen tail)
      rw [ho]
      exact ⟨rfl, hclose, rfl, rfl⟩
  | .error (.fault f) =>
      have ho : o = _ := speculate_of_fault hmark hbody (release_of_isOpen hopen tail)
      rw [ho]
      exact ⟨rfl, hclose, rfl, rfl⟩
  | .error (.breach b) =>
      have ho : o = _ := speculate_of_breach hmark hbody
      exact absurd (congrArg Outcome.result ho) (hcalm b)
  | .ok none =>
      -- a way back that succeeds has closed the mark itself, one that fails has left it open
      have hrewinds := @rewindTo_rewinds True mid hvalid m tail
      dsimp only
      generalize hback : rewindTo m mid tail = back at hrewinds
      obtain ⟨result, back, rest⟩ := back
      match result with
      | .ok () =>
          have ho : o = _ := speculate_of_none hmark hbody hback
          obtain ⟨-, hposition, hmarks, -⟩ := (hrewinds (Outcome.not_isFull_of_ok rfl)).returned rfl
          dsimp only at hposition hmarks hsaved hclose
          rw [hsaved, Option.some.injEq] at hposition
          rw [ho]
          dsimp only
          rw [hmarks]
          exact ⟨rfl, hclose, .inl ⟨rfl, rfl, hposition.symm⟩⟩
      | .error (.fault f) =>
          obtain ⟨hmarks, hstay⟩ := rewindTo_of_fault hvalid hback
          have hbackOpen : back.marks.isOpen m = true := by rwa [hmarks]
          have ho : o = _ := speculate_of_none_of_fault hmark hbody hback (release_of_isOpen hbackOpen rest)
          rw [ho]
          dsimp only
          rw [hmarks]
          exact ⟨rfl, hclose, .inr ⟨f, rfl, rfl, fun hlt => by rw [hstay p hsaved hlt]⟩⟩
      | .error (.breach b) =>
          have ho : o = _ := speculate_of_none_of_breach hmark hbody hback
          exact absurd (congrArg Outcome.result ho) (hcalm b)

/-- `speculate` is balanced. From any state `s` that a program has reached, let the body leave only marks that are
deeper than the mark `m` of the attempt, and let nothing panic. Then the open marks and what they have saved are those
of `s`, and `Settles` says how the attempt ends: with the value or the fault of the body, where the body has ended; or
undone by `rewindTo m`, at the position of `s` or with the fault of the way back. -/
theorem speculate_balanced {overrides : Prop} {β : Type} {x : Action Stream β} {text : List Char} {fresh : Stream}
    (hfresh : fresh.IsFresh text) {start : Journal} (hx : Uses .free x fresh start)
    (hbody : Client overrides body) :
    let s := (x fresh start).state
    let m : Marker := ⟨s.marks.depth + 1⟩
    let marked := mark s (x fresh start).journal
    let tried := body marked.state marked.journal
    let o := speculate body s (x fresh start).journal
    marked.result = .ok m ∧
      ((∀ left ∈ Journal.left (Journal.since marked.journal tried.journal), m.depth < left.depth) →
        (∀ b, o.result ≠ .error (.breach b)) →
          o.state.marks.depth = s.marks.depth ∧ o.state.marks.entries = s.marks.entries ∧
            Settles s.position tried (rewindTo m tried.state tried.journal) o) := by
  intro s m marked tried o
  obtain ⟨distance, hstrays, -⟩ := hx.strays hfresh.valid_marks hfresh.ahead
  have hvalid : s.marks.Valid := hstrays.marks hfresh.valid_marks
  obtain ⟨marks, hmark, hmarks, hdepth, hentries⟩ := mark_of_valid hvalid (x fresh start).journal
  have hmarked : marked = ⟨.ok m, { s with marks := marks },
      (x fresh start).journal.push (.marked m s.position)⟩ := hmark
  have hbegun : mark s (x fresh start).journal = ⟨.ok m, marked.state, marked.journal⟩ := by
    show marked = _
    rw [hmarked]
  refine ⟨congrArg Outcome.result hmarked, fun hleft hcalm => ?_⟩
  have hfull : ¬tried.IsFull := by
    intro hfull
    have htried : body marked.state marked.journal =
        ⟨.error (.breach .counterOverflow), tried.state, tried.journal⟩ := by
      rw [← show tried.result = .error (.breach .counterOverflow) from hfull]
    exact hcalm .counterOverflow (congrArg Outcome.result (speculate_of_breach hbegun htried))
  have hmarkedValid : marked.state.marks.Valid := by
    rw [hmarked]
    exact hmarks
  obtain ⟨events, hevents, hrun⟩ := hbody.reaches hmarkedValid hfull
  rw [Journal.since_eq_of_append hevents] at hleft
  have hmarkedDepth : marked.state.marks.depth = m.depth := by
    rw [hmarked]
    exact hdepth
  have hmarkedEntries : marked.state.marks.entries = s.marks.entries ++ [s.position] := by
    rw [hmarked]
    exact hentries
  obtain ⟨hopen, hsaved, hclose⟩ := hrun.holds hmarkedValid hmarkedDepth hmarkedEntries hleft
  exact speculate_settles hbegun (hrun.valid hmarkedValid) hopen hsaved hclose hcalm

/-- An attempt under an open mark that leaves a mark of its own, passes two symbols and comes to nothing, where the
window is one symbol wide: the way back fails, and the outer mark alone is open. -/
theorem speculate_balanced_refused :
    let s := (mark (ofSource (.ofText ['a', '\n', 'b'] (some 1)) "text" false) #[]).state
    let body : Action Stream (Option Unit) :=
      mark >>= fun _ => advance >>= fun _ => advance >>= fun _ => pure none
    let o := speculate body s #[.marked ⟨1⟩ .start]
    o.result = .error (.fault (.backupWindowExceeded 2 1)) ∧ o.state.position = ⟨2, 2, 0⟩ ∧
      o.state.marks.depth = 1 ∧ o.state.marks.entries = [.start] := by
  intro s body o
  have hfresh : (ofSource (.ofText ['a', '\n', 'b'] (some 1)) "text" false).IsFresh ['a', '\n', 'b'] :=
    ⟨.inl ⟨some 1, rfl⟩, rfl, 0, rfl⟩
  have hbody : Client False body :=
    Client.mark.bind fun _ => Client.advance.bind fun _ => Client.advance.bind fun _ => .pure none
  have hresult : o.result = .error (.fault (.backupWindowExceeded 2 1)) := by decide +kernel
  have hcalm : ∀ b, o.result ≠ .error (.breach b) := by
    intro b hb
    rw [hresult] at hb
    cases hb
  have hmark : Uses .free mark (ofSource (.ofText ['a', '\n', 'b'] (some 1)) "text" false) #[] := .mark
  obtain ⟨hdepth, hentries, -⟩ := (speculate_balanced hfresh hmark hbody).2 (by decide +kernel) hcalm
  exact ⟨hresult, by decide +kernel, hdepth, hentries⟩

end Backtrack.Stream
