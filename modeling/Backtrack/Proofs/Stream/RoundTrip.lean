import Backtrack.Proofs.Stream.Clients
import Backtrack.Proofs.Stream.Cursor

/-! Marks and the way back. Whatever is done between opening a mark and rewinding to it, as long as deeper
marks alone are closed, rewinding comes back to the position at which the mark was opened, with the marks
that were open there. A source without a window whose reader does not fail always finds the way back, as
far as 64 bits can count it. -/

namespace Backtrack

namespace Event

/-- The mark to which a rewind goes, or which is released. -/
def left? : Event → Option Marker
  | .rewinding marker .. => some marker
  | .releasing marker => some marker
  | _ => none

/-- How far an event announces to move the index back. -/
def distanceBack : Event → Nat
  | .seekingBack source target => source - target
  | _ => 0

end Event

/-- The marks to which events rewind, and those that they release. -/
def Journal.left (events : List Event) : List Marker :=
  events.filterMap Event.left?

/-- How far events announce to move the index back, all in all. -/
def Journal.distanceBack : List Event → Nat
  | [] => 0
  | e :: rest => e.distanceBack + distanceBack rest

theorem Journal.distanceBack_append (events more : List Event) :
    distanceBack (events ++ more) = distanceBack events + distanceBack more := by
  induction events with
  | nil => exact (Nat.zero_add _).symm
  | cons e rest ih => rw [List.cons_append, distanceBack, distanceBack, ih, Nat.add_assoc]

namespace Stream

variable {overrides : Prop} {s after : Stream} {events : List Event}

/-! ### Marks that are not left -/

theorem close_outer {marks : MarkStack} {m : Marker} {k : Nat} (hopen : marks.isOpen m = true)
    (hk : k < m.depth) :
    k ≤ (marks.close m).depth ∧ (marks.close m).entries.take k = marks.entries.take k := by
  refine ⟨Nat.le_sub_one_of_lt hk, ?_⟩
  rw [MarkStack.entries_close hopen, List.take_take, Nat.min_eq_left (Nat.le_sub_one_of_lt hk)]

/-- A move that leaves only marks deeper than `k` keeps the outermost `k` marks. -/
theorem Move.outer {k : Nat} (hvalid : s.marks.Valid) (h : Move overrides s events after)
    (hleft : ∀ left ∈ Journal.left events, k < left.depth) (hk : k ≤ s.marks.depth) :
    k ≤ after.marks.depth ∧ after.marks.entries.take k = s.marks.entries.take k := by
  cases h with
  | mark hmarks hdepth hentries =>
      refine ⟨by dsimp only; omega, ?_⟩
      dsimp only
      rw [hentries, List.take_append_of_le_length (by rwa [MarkStack.length_entries hvalid])]
  | @release m hopen => exact close_outer hopen (hleft m (List.mem_singleton_self m))
  | @arrive m p hopen => exact close_outer hopen (hleft m (List.mem_singleton_self m))
  | @rewind m p hopen => exact close_outer hopen (hleft m List.mem_cons_self)
  | _ => exact ⟨hk, rfl⟩

theorem Run.outer {k : Nat} (hvalid : s.marks.Valid) (h : Run overrides s events after)
    (hleft : ∀ left ∈ Journal.left events, k < left.depth) (hk : k ≤ s.marks.depth) :
    k ≤ after.marks.depth ∧ after.marks.entries.take k = s.marks.entries.take k := by
  induction h with
  | refl => exact ⟨hk, rfl⟩
  | @move events more mid after hrun hmove ih =>
      rw [Journal.left, List.filterMap_append] at hleft
      obtain ⟨hmid, htake⟩ := ih fun left h => hleft left (List.mem_append_left _ h)
      obtain ⟨hafter, htake'⟩ := hmove.outer (hrun.valid hvalid)
        (fun left h => hleft left (List.mem_append_right _ h)) hmid
      exact ⟨hafter, htake'.trans htake⟩

/-! ### Room in the counters -/

/-- The line and the column are at most so far ahead of the index as it has been moved back. -/
def Lags (distance : Nat) (p : Position) : Prop :=
  p.line + p.column ≤ 1 + p.index + distance

theorem Lags.mono {distance distance' : Nat} {p : Position} (h : Lags distance p)
    (hle : distance ≤ distance') : Lags distance' p := by
  unfold Lags at h ⊢
  omega

theorem Lags.next {distance : Nat} {p : Position} (h : Lags distance p) (symbol : Symbol) :
    Lags distance (p.next symbol) := by
  unfold Lags at h ⊢
  unfold Position.next
  split
  · dsimp only
    omega
  · dsimp only
    omega

theorem Move.lags {distance : Nat} (hno : ¬overrides) (h : Move overrides s events after)
    (hall : ∀ p ∈ s.marks.entries ++ [s.position], Lags distance p) :
    ∀ p ∈ after.marks.entries ++ [after.position], Lags (distance + Journal.distanceBack events) p := by
  have hmore : ∀ p ∈ s.marks.entries ++ [s.position], Lags (distance + Journal.distanceBack events) p :=
    fun p hp => (hall p hp).mono (Nat.le_add_right _ _)
  have hposition := hmore s.position (List.mem_append_right _ (List.mem_singleton_self _))
  have hentries : ∀ p ∈ s.marks.entries, Lags (distance + Journal.distanceBack events) p :=
    fun p hp => hmore p (List.mem_append_left _ hp)
  have hclose : ∀ {m : Marker} {p : Position}, s.marks.isOpen m = true →
      Lags (distance + Journal.distanceBack events) p →
      ∀ q ∈ (s.marks.close m).entries ++ [p], Lags (distance + Journal.distanceBack events) q := by
    intro m p hopen hp q hq
    rw [MarkStack.entries_close hopen] at hq
    rcases List.mem_append.mp hq with hq | hq
    · exact hentries q (List.mem_of_mem_take hq)
    · rwa [List.mem_singleton.mp hq]
  cases h with
  | @pass symbol =>
      intro p hp
      rcases List.mem_append.mp hp with hp | hp
      · exact hentries p hp
      · rw [List.mem_singleton.mp hp]
        exact hposition.next symbol
  | @back target hlt =>
      intro p hp
      rcases List.mem_append.mp hp with hp | hp
      · exact hentries p hp
      · rw [List.mem_singleton.mp hp]
        have hlags := hall s.position (List.mem_append_right _ (List.mem_singleton_self _))
        have hdistance : Journal.distanceBack [.seekingBack s.index target] = s.index - target := by
          simp [Journal.distanceBack, Event.distanceBack]
        rw [hdistance]
        unfold Lags at hlags ⊢
        dsimp only [index, retreat] at hlt ⊢
        omega
  | setLine h line => exact absurd h hno
  | setColumn h column => exact absurd h hno
  | mark hmarks hdepth hnew =>
      intro p hp
      dsimp only at hp
      rw [hnew] at hp
      rcases List.mem_append.mp hp with hp | hp
      · exact hmore p hp
      · rw [List.mem_singleton.mp hp]
        exact hposition
  | release hopen => exact hclose hopen hposition
  | arrive hopen hsaved => exact hclose hopen (hentries _ (List.mem_of_getElem? hsaved))
  | rewind hopen hsaved => exact hclose hopen (hentries _ (List.mem_of_getElem? hsaved))
  | _ => exact hmore

theorem Run.lags (hno : ¬overrides) (h : Run overrides s events after)
    (hstart : ∀ p ∈ s.marks.entries ++ [s.position], Lags 0 p) :
    ∀ p ∈ after.marks.entries ++ [after.position], Lags (Journal.distanceBack events) p := by
  induction h with
  | refl => exact hstart
  | @move events more mid after hrun hmove ih =>
      rw [Journal.distanceBack_append]
      exact hmove.lags hno ih

/-! ### The way back -/

/-- One of the counters cannot count `count` more symbols. -/
def Crowded (s : Stream) (count : Nat) : Prop :=
  counterLimit < s.source.cursor + count ∨ counterLimit < s.index + count ∨
    counterLimit < s.position.line + count ∨ counterLimit < s.position.column + count

theorem Crowded.of_next {s : Stream} {source : Source} {symbol : Symbol} {count : Nat}
    (hcursor : source.cursor = s.source.cursor + 1)
    (h : Crowded { s with source := source, position := s.position.next symbol } count) :
    Crowded s (count + 1) := by
  unfold Crowded index Position.next at h
  unfold Crowded index
  split at h
  · dsimp only at h
    omega
  · dsimp only at h
    omega

/-- Where the reader does not fail, nothing but a full counter stops the way forward. -/
theorem times_advance_of_reliable (count : Nat) {s : Stream} (hvalid : s.source.Valid)
    (hreliable : s.source.Reliable) (journal : Journal) :
    (advance.times count s journal).result = .ok () ∨
      ((advance.times count s journal).IsFull ∧ s.Crowded count) := by
  induction count generalizing s journal with
  | zero => exact .inl rfl
  | succ count ih =>
      rw [Action.times, Action.bind, advance_eq, Action.bind, onSource_eq]
      rcases Source.read_of_reliable hvalid hreliable journal with
        ⟨source, journal', hread, hsame, hafter, hcursor⟩ | ⟨hresult, hlimit⟩
      · rw [hread]
        dsimp only [pass]
        generalize Symbol.ofText s.source.text s.source.cursor = symbol
        rcases s.position.advance_cases symbol with h | ⟨h, hcrowded⟩
        · rw [h]
          exact (ih (s := { s with source := source, position := s.position.next symbol }) hsame.valid
            hafter journal').imp_right fun hcrowded => ⟨hcrowded.1, hcrowded.2.of_next hcursor⟩
        · generalize s.position.advance symbol = next at h
          obtain ⟨position, breach⟩ := next
          cases h
          refine .inr ⟨rfl, ?_⟩
          unfold Crowded index
          omega
      · rw [hresult]
        exact .inr ⟨rfl, .inl (by omega)⟩

theorem admits_of_window_none {source : Source} (h : source.history.window = none) (count : Nat) :
    source.Admits count := by
  intro window hwindow
  rw [h] at hwindow
  cases hwindow

/-- Where there is no window and the reader does not fail, nothing but a full counter stops the way back to
an open mark. -/
theorem rewindTo_of_reliable {s : Stream} {m : Marker} (hmarks : s.marks.Valid)
    (hopen : s.marks.isOpen m = true) (hvalid : s.source.Valid) (hreliable : s.source.Reliable)
    (hwindow : s.source.history.window = none) (hcursor : s.source.cursor = s.index) {p : Position}
    (hsaved : s.marks.entries[m.depth - 1]? = some p) (journal : Journal) :
    (rewindTo m s journal).result = .ok () ∨
      ((rewindTo m s journal).IsFull ∧ s.index ≤ p.index ∧ s.Crowded (p.index - s.index)) := by
  obtain ⟨q, hq, hrewind⟩ := rewindTo_of_isOpen hmarks hopen journal
  obtain rfl : p = q := by
    rw [hsaved] at hq
    exact Option.some.inj hq
  rw [hrewind, Action.bind]
  by_cases hlt : p.index < s.index
  · have hseeks := seek_seeksBack hlt (journal.push (.rewinding m s.position p))
    generalize seek p.index s _ = o at hseeks ⊢
    cases hseeks with
    | moved hadmits hle =>
        have hmoved : (s.retreat p.index).marks.isOpen m = true := hopen
        have hindex : (s.retreat p.index).index = p.index := rfl
        dsimp only
        rw [restore_of_isOpen hmoved hindex]
        exact .inl rfl
    | refused hwhy hrefused =>
        have hbefore := hrefused (admits_of_window_none hwindow _)
        omega
  · have hle : s.index ≤ p.index := Nat.not_lt.mp hlt
    have htimes := times_advance_of_reliable (p.index - s.index) hvalid hreliable
      (journal.push (.rewinding m s.position p))
    have hgoes := @times_advance_goes False (p.index - s.index) s
      (journal.push (.rewinding m s.position p))
    rw [seek_of_le hle]
    generalize advance.times (p.index - s.index) s _ = o at htimes hgoes ⊢
    obtain ⟨result, mid, journal'⟩ := o
    rcases htimes with hok | ⟨hfull, hcrowded⟩
    · cases hok
      have hway := hgoes (Outcome.not_isFull_of_ok rfl)
      have hmid : mid.marks = s.marks := hway.marks
      have hindex : mid.index = p.index := by
        rw [hway.index rfl]
        omega
      rw [← hmid] at hopen
      dsimp only
      rw [restore_of_isOpen hopen hindex]
      exact .inl rfl
    · cases hfull
      exact .inr ⟨rfl, hle, hcrowded⟩

/-! ### The round trip -/

/-- A mark that has not been left is open and still holds what it saved, above the marks that were open
before. -/
theorem Run.holds {m : Marker} {p : Position} {saved : List Position} (hvalid : s.marks.Valid)
    (hdepth : s.marks.depth = m.depth) (hentries : s.marks.entries = saved ++ [p])
    (h : Run overrides s events after)
    (hleft : ∀ left ∈ Journal.left events, m.depth < left.depth) :
    after.marks.isOpen m = true ∧ after.marks.entries[m.depth - 1]? = some p ∧
      (after.marks.close m).entries = saved := by
  have hlength : saved.length + 1 = m.depth := by
    rw [← hdepth, ← MarkStack.length_entries hvalid, hentries, List.length_append]
    rfl
  obtain ⟨hle, htake⟩ := h.outer hvalid hleft hdepth.ge
  have hopen : after.marks.isOpen m = true := MarkStack.isOpen_iff.mpr ⟨by omega, hle⟩
  have hall : (saved ++ [p]).take m.depth = saved ++ [p] := by
    refine List.take_of_length_le ?_
    rw [List.length_append]
    exact hlength.le
  rw [hentries, hall] at htake
  refine ⟨hopen, ?_, ?_⟩
  · rw [← List.getElem?_take_of_lt (show m.depth - 1 < m.depth by omega), htake, ← hlength,
      Nat.add_sub_cancel]
    exact List.getElem?_concat_length
  · have hmin : m.depth - 1 = min (m.depth - 1) m.depth := by omega
    rw [MarkStack.entries_close hopen, hmin, ← List.take_take, htake, ← hlength, Nat.add_sub_cancel]
    exact List.take_left

theorem Run.rewindTo_returns {m : Marker} {saved : List Position} (hvalid : s.marks.Valid)
    (hdepth : s.marks.depth = m.depth) (hentries : s.marks.entries = saved ++ [s.position])
    (h : Run overrides s events after)
    (hleft : ∀ left ∈ Journal.left events, m.depth < left.depth) {journal : Journal}
    (hback : (rewindTo m after journal).result = .ok ()) :
    (rewindTo m after journal).state.position = s.position ∧
      (rewindTo m after journal).state.marks.depth = m.depth - 1 ∧
      (rewindTo m after journal).state.marks.entries = saved ∧
      (Journal.Each Event.RefusesSeek none events →
        (rewindTo m after journal).state.source.cursor = s.source.cursor) := by
  have hrewinds := @rewindTo_rewinds overrides after (h.valid hvalid) m journal
    (Outcome.not_isFull_of_ok hback)
  obtain ⟨-, hposition, hmarks, hcursor⟩ := hrewinds.returned hback
  obtain ⟨hopen, hsaved, hclose⟩ := h.holds hvalid hdepth hentries hleft
  generalize (rewindTo m after journal).state = back at hposition hmarks hcursor ⊢
  have hreturned : back.position = s.position := by
    rw [hsaved] at hposition
    exact (Option.some.inj hposition).symm
  refine ⟨hreturned, congrArg MarkStack.depth hmarks, hmarks ▸ hclose, fun hquiet => ?_⟩
  have hbetween := h.cursor (.inr hquiet)
  have hindex : back.index = s.index := congrArg Position.index hreturned
  omega

theorem Run.rewindTo_finds {text : List Char} {m : Marker} {p : Position} (hno : ¬overrides)
    (hfresh : s.IsFresh text) (hwindow : s.source.history.window = none) (hreliable : s.source.Reliable)
    (h : Run overrides s events after) (hopen : after.marks.isOpen m = true)
    (hsaved : after.marks.entries[m.depth - 1]? = some p) (journal : Journal) :
    (rewindTo m after journal).result = .ok () ∨
      ((rewindTo m after journal).IsFull ∧ counterLimit ≤ p.index + Journal.distanceBack events) := by
  have hvalid := hfresh.valid_of_reliable hreliable
  have hcursor : after.source.cursor = after.index := by
    have hcursor := h.cursor (.inl hwindow)
    rwa [hfresh.index, hfresh.cursor, Nat.add_zero, Nat.zero_add] at hcursor
  have hstart : ∀ q ∈ s.marks.entries ++ [s.position], Lags 0 q := by
    intro q hq
    rw [hfresh.entries, hfresh.position] at hq
    rw [List.mem_singleton.mp hq]
    unfold Lags
    decide
  have hlags := h.lags hno hstart after.position (List.mem_append_right _ (List.mem_singleton_self _))
  have hwindow' : after.source.history.window = none := h.evolves.window.trans hwindow
  refine (rewindTo_of_reliable (h.valid hfresh.valid_marks) hopen (h.evolves.same hvalid).valid
    (h.evolves.reliable hvalid hreliable) hwindow' hcursor hsaved journal).imp_right ?_
  rintro ⟨hfull, hle, hcrowded⟩
  refine ⟨hfull, ?_⟩
  unfold Lags at hlags
  unfold Crowded at hcrowded
  rw [hcursor] at hcrowded
  unfold index at hle hcrowded
  omega

/-- The round trip of `mark` and `rewindTo`. From any state `s` that a client has reached, `mark` opens `m` and another
client goes to work. If that leaves only deeper marks and `rewindTo m` succeeds, the position, the depth and the saved
positions are those of `s`, and so is the cursor if no lookahead has been refused. Without a window, with a reader that
does not fail and with the line and the column left alone, `rewindTo m` succeeds unless the counters cannot count all
the ways back, `distanceBack`. -/
theorem mark_rewindTo {overrides : Prop} {α β : Type} {x : Action Stream α} {y : Action Stream β}
    (hx : Client overrides x) (hy : Client overrides y) {text : List Char} {stream : Stream}
    (hfresh : stream.IsFresh text)
    (start : Journal) (hreached : ¬(x stream start).IsFull) :
    let s := x stream start
    let m : Marker := ⟨s.state.marks.depth + 1⟩
    let marked := mark s.state s.journal
    let met := y marked.state marked.journal
    let back := rewindTo m met.state met.journal
    marked.result = .ok m ∧
      (¬met.IsFull →
        (∀ left ∈ Journal.left (Journal.since marked.journal met.journal), m.depth < left.depth) →
          (back.result = .ok () →
            back.state.position = s.state.position ∧ back.state.marks.depth = s.state.marks.depth ∧
              back.state.marks.entries = s.state.marks.entries ∧
              (Journal.Each Event.RefusesSeek none (Journal.since marked.journal met.journal) →
                back.state.source.cursor = s.state.source.cursor)) ∧
          (¬overrides → stream.source.history.window = none → stream.source.Reliable →
            back.result = .ok () ∨
              (back.IsFull ∧
                counterLimit ≤ s.state.index + Journal.distanceBack (Journal.since start met.journal)))) := by
  intro s m marked met back
  obtain ⟨events, hevents, hrun⟩ := hx.reaches hfresh.valid_marks hreached
  have hvalid : s.state.marks.Valid := hrun.valid hfresh.valid_marks
  obtain ⟨marks, hmark, hmarks, hdepth, hentries⟩ := mark_of_valid hvalid s.journal
  have hmarked : marked = ⟨.ok m, { s.state with marks := marks },
      s.journal.push (.marked m s.state.position)⟩ := hmark
  have hmarkRun : Run overrides s.state [.marked m s.state.position] marked.state := by
    rw [hmarked]
    exact (Move.mark hmarks hdepth hentries).run
  refine ⟨congrArg Outcome.result hmarked, fun hmet hleft => ?_⟩
  have hmarkedValid : marked.state.marks.Valid := by
    rw [hmarked]
    exact hmarks
  obtain ⟨between, hbetween, hrunBetween⟩ := hy.reaches hmarkedValid hmet
  rw [Journal.since_eq_of_append hbetween] at hleft ⊢
  have hmarkedDepth : marked.state.marks.depth = m.depth := by
    rw [hmarked]
    exact hdepth
  have hmarkedEntries : marked.state.marks.entries = s.state.marks.entries ++ [marked.state.position] := by
    rw [hmarked]
    exact hentries
  have hposition : marked.state.position = s.state.position := by rw [hmarked]
  have hcursor : marked.state.source.cursor = s.state.source.cursor := by rw [hmarked]
  refine ⟨fun hback => ?_, fun hno hwindow hreliable => ?_⟩
  · have hreturns := hrunBetween.rewindTo_returns hmarkedValid hmarkedDepth hmarkedEntries hleft hback
    rw [hposition, hcursor] at hreturns
    exact hreturns
  · obtain ⟨hopen, hsaved, -⟩ := hrunBetween.holds hmarkedValid hmarkedDepth hmarkedEntries hleft
    have htotal := (hrun.trans hmarkRun).trans hrunBetween
    have hsince : Journal.since start met.journal = events ++ [.marked m s.state.position] ++ between := by
      refine Journal.since_eq_of_append ?_
      have hmarkJournal : marked.journal.toList = s.journal.toList ++ [.marked m s.state.position] := by
        rw [hmarked]
        exact Array.toList_push
      rw [hbetween, hmarkJournal, hevents, List.append_assoc, List.append_assoc, List.append_assoc]
    rw [hposition] at hsaved
    rw [hsince]
    exact htotal.rewindTo_finds hno hfresh hwindow hreliable hopen hsaved met.journal

/-- A mark behind the first character, a word that matches under a deeper mark, a seek to the start of the
input: the way back leads forward. -/
theorem mark_rewindTo_past_seek :
    let s := advance (ofSource (.ofText ['a', '\n', 'b'] none) "text" false) #[]
    let m : Marker := ⟨s.state.marks.depth + 1⟩
    let marked := mark s.state s.journal
    let met := (mark >>= fun _ => matchesText ['\n', 'b'] >>= fun _ => seek 0) marked.state marked.journal
    let back := rewindTo m met.state met.journal
    back.result = .ok () ∧ back.state.position = s.state.position := by
  have hfresh : (ofSource (.ofText ['a', '\n', 'b'] none) "text" false).IsFresh ['a', '\n', 'b'] :=
    ⟨.inl ⟨none, rfl⟩, rfl, 0, rfl⟩
  have hclient : Client False (mark >>= fun _ => matchesText ['\n', 'b'] >>= fun _ => seek 0) :=
    Client.mark.bind fun _ => (Client.matchesText _).bind fun _ => .seek 0
  have hreached : ¬(advance (ofSource (.ofText ['a', '\n', 'b'] none) "text" false) #[]).IsFull := by
    unfold Outcome.IsFull
    decide +kernel
  have hround := (mark_rewindTo .advance hclient hfresh #[] hreached).2
    (by unfold Outcome.IsFull; decide +kernel) (by decide +kernel)
  refine ⟨?_, (hround.1 ?_).1⟩
  · refine (hround.2 not_false rfl ⟨rfl, rfl⟩).resolve_right fun hfull => absurd hfull.2 ?_
    decide +kernel
  · decide +kernel

end Stream

end Backtrack
