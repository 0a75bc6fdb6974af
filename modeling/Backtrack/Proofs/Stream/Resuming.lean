import Backtrack.Proofs.Search.Passing
import Backtrack.Proofs.Source.Resuming
import Backtrack.Proofs.Stream.Seeking

/-! Going on after a failure of the reader. A step that fails leaves the stream where it was, a lookahead takes back
what it has read, and a seek stays as far as it has come; so trying again goes on from there, and in the end the stream
stands where it would stand if the reader had not failed. -/

namespace Backtrack

namespace Action

variable {σ α : Type} {x : Action σ α} {s after : σ} {journal between : Journal}

/-- Tries an action again when the reader fails, at most `tries` times. -/
def retry (x : Action σ α) : Nat → Action σ α
  | 0 => x
  | tries + 1 => fun s journal =>
    match x s journal with
    | ⟨.error (.fault (.io _)), s, journal⟩ => retry x tries s journal
    | o => o

theorem retry_of_failed {reason : String} (h : x s journal = ⟨.error (.fault (.io reason)), after, between⟩)
    (tries : Nat) :
    x.retry (tries + 1) s journal = x.retry tries after between := by
  rw [retry]
  dsimp only
  rw [h]

theorem retry_of_ended {result : Except Stop α} (h : x s journal = ⟨result, after, between⟩)
    (hresult : Ended result) (tries : Nat) :
    x.retry tries s journal = ⟨result, after, between⟩ := by
  cases tries with
  | zero => exact h
  | succ tries =>
      rw [retry]
      dsimp only
      rcases hresult with ⟨a, rfl⟩ | rfl <;> rw [h]

end Action

namespace Stream

variable {α : Type} {s t : Stream} {journal journal' : Journal} {n i : Nat}

/-- Streams with the same `face` over sources that are `Abreast`. -/
structure Level (s t : Stream) : Prop where
  face : s.face = t.face
  source : s.source.Abreast t.source

/-- The outcomes of `x` on `s`, over a reader that may fail, and on a stream over one that does not. `done`: both have
the same result, and no failure of the reader has been used up. `failed`: a failure of the reader has stopped `x` in a
state with `P`, and on a stream `Level` with that state `x` is still to be carried out. -/
inductive Resumes (P : Stream → Prop) (x : Action Stream α) (s : Stream) : Outcome Stream α → Outcome Stream α → Prop
  | done {result : Except Stop α} {after after' : Stream} {journal journal' : Journal} (hafter : after.Level after')
      (hfailures : after.source.decoder.failures = s.source.decoder.failures)
      (hresult : Ended result) :
      Resumes P x s ⟨result, after, journal⟩ ⟨result, after', journal'⟩
  | failed {reason : String} {after t : Stream} {journal journal' : Journal} (hafter : after.Level t) (hP : P after)
      (hfailures : s.source.decoder.failures = reason :: after.source.decoder.failures) :
      Resumes P x s ⟨.error (.fault (.io reason)), after, journal⟩ (x t journal')

theorem Resumes.trans {P : Stream → Prop} {x : Action Stream α} {mid : Stream} {o o' : Outcome Stream α}
    (h : Resumes P x mid o o') (hfailures : mid.source.decoder.failures = s.source.decoder.failures) :
    Resumes P x s o o' := by
  cases h with
  | done hafter hrest hresult => exact .done hafter (hrest.trans hfailures) hresult
  | failed hafter hP hrest => exact .failed hafter hP (hfailures.symm.trans hrest)

/-- `x.retry tries` has the result and the `face` of `once`, and the result is a value unless a counter is full. -/
structure Recovers (x : Action Stream α) (tries : Nat) (s : Stream) (journal : Journal) (once : Outcome Stream α) :
    Prop where
  result : (x.retry tries s journal).result = once.result
  face : (x.retry tries s journal).state.face = once.state.face
  answered : ¬(x.retry tries s journal).IsFull → ∃ a, (x.retry tries s journal).result = .ok a

theorem Recovers.of_ended {x : Action Stream α} {result : Except Stop α} {after after' : Stream}
    {between between' : Journal} (h : x s journal = ⟨result, after, between⟩) (hface : after.face = after'.face)
    (hresult : Ended result) (tries : Nat) :
    Recovers x tries s journal ⟨result, after', between'⟩ := by
  have hretry := Action.retry_of_ended h hresult tries
  constructor
  · rw [hretry]
  · rw [hretry]
    exact hface
  · rw [hretry]
    exact hresult.resolve_right

theorem Recovers.of_failed {x : Action Stream α} {reason : String} {after : Stream} {between : Journal} {tries : Nat}
    {once : Outcome Stream α} (h : x s journal = ⟨.error (.fault (.io reason)), after, between⟩)
    (hafter : Recovers x tries after between once) : Recovers x (tries + 1) s journal once := by
  have hretry := Action.retry_of_failed h tries
  constructor
  · rw [hretry, hafter.result]
  · rw [hretry, hafter.face]
  · rw [hretry]
    exact hafter.answered

/-- If `x` resumes from every state with `P`, then `x.retry tries` recovers, provided that `tries` is not less than the
number of failures left in the reader. -/
theorem recovers_of_resumes {P : Stream → Prop} {x : Action Stream α}
    (hx : ∀ {s t : Stream}, s.Level t → P s → ∀ journal journal', Resumes P x s (x s journal) (x t journal'))
    (hlevel : s.Level t) (hP : P s) {tries : Nat} (htries : s.source.decoder.failures.length ≤ tries)
    (journal journal' : Journal) : Recovers x tries s journal (x t journal') := by
  induction tries generalizing s t journal journal' with
  | zero =>
      have hresumes := hx hlevel hP journal journal'
      generalize ho : x s journal = o at hresumes
      generalize x t journal' = once at hresumes ⊢
      cases hresumes with
      | done hafter hfailures hresult => exact .of_ended ho hafter.face hresult 0
      | failed hafter hP hfailures =>
          rw [hfailures] at htries
          cases htries
  | succ tries ih =>
      have hresumes := hx hlevel hP journal journal'
      generalize ho : x s journal = o at hresumes
      generalize x t journal' = once at hresumes ⊢
      cases hresumes with
      | done hafter hfailures hresult => exact .of_ended ho hafter.face hresult (tries + 1)
      | failed hafter hP hfailures =>
          rw [hfailures] at htries
          exact .of_failed ho (ih hafter hP (Nat.le_of_succ_le_succ htries) _ _)

/-! ### Steps -/

theorem Level.position (h : s.Level t) : s.position = t.position :=
  congrArg Face.position h.face

theorem Level.index (h : s.Level t) : s.index = t.index :=
  congrArg Position.index h.position

theorem Level.moved {source source' : Source} {p p' : Position} (h : s.Level t) (hsource : source.Abreast source')
    (hp : p = p') : Level { s with source := source, position := p } { t with source := source', position := p' } := by
  refine ⟨?_, hsource⟩
  obtain ⟨hname, -, hmarks, hcaseFold, -⟩ := (Face.mk.injEq ..).mp h.face
  exact (Face.mk.injEq ..).mpr ⟨hname, hp, hmarks, hcaseFold, hsource.cursor⟩

/-- A step that fails leaves the stream where it was. -/
theorem Level.advance (h : s.Level t) (journal journal' : Journal) :
    Resumes (·.index = s.index) advance s (advance s journal) (advance t journal') := by
  have hread := h.source.read journal journal'
  have hcursor := s.source.read_cursor journal
  have hevolves := s.source.read_evolves journal
  generalize hs : s.source.read journal = read at hread hcursor hevolves
  generalize ht : t.source.read journal' = read' at hread
  cases hread with
  | level hafter hfailures hresult =>
      rcases hresult with ⟨symbol, rfl⟩ | rfl
      · rw [advance_of_read hs, advance_of_read ht, pass_eq, pass_eq, ← h.position]
        refine .done (h.moved hafter rfl) hfailures ?_
        rcases s.position.advance_cases symbol with hnext | ⟨hbreach, -⟩
        · rw [hnext]
          exact .inl ⟨(), rfl⟩
        · rw [hbreach]
          exact .inr rfl
      · rw [advance_of_read_error hs, advance_of_read_error ht]
        exact .done (h.moved hafter h.position) hfailures (.inr rfl)
  | failed hfailures =>
      rw [advance_of_read_error hs]
      have hlevel := h.source.of_evolves hevolves (.refl t.source) (hcursor.2.trans h.source.cursor)
      exact .failed (h.moved hlevel h.position) rfl hfailures

/-! ### Seeking -/

theorem seek_of_lt_index (hlt : s.index < n) (journal : Journal) :
    seek n s journal = Action.bind Stream.advance (fun _ => seek n) s journal := by
  obtain ⟨count, hcount⟩ : ∃ count, n - s.index = count + 1 := ⟨n - s.index - 1, by omega⟩
  rw [seek_of_le hlt.le, hcount, Action.times, Action.bind, Action.bind]
  cases hstep : Stream.advance s journal with
  | mk result mid between =>
      cases result with
      | ok =>
          have hindex : mid.index = s.index + 1 := index_of_advance hstep
          have hrest : n - mid.index = count := by omega
          dsimp only
          rw [seek_of_le (by omega), hrest]
      | error reason => rfl

/-- A seek that fails stays as far as it has come, and seeking again goes on from there. -/
theorem Level.seek (h : s.Level t) (hle : s.index ≤ n) (journal journal' : Journal) :
    Resumes (·.index ≤ n) (seek n) s (seek n s journal) (seek n t journal') := by
  induction hdistance : n - s.index generalizing s t journal journal' with
  | zero =>
      have hn : s.index = n := by omega
      subst hn
      rw [seek_index]
      rw [h.index, seek_index]
      exact .done h rfl (.inl ⟨(), rfl⟩)
  | succ distance ih =>
      have hlt : s.index < n := by omega
      have hstep := h.advance journal journal'
      rw [seek_of_lt_index hlt, Action.bind]
      generalize hs : Stream.advance s journal = o at hstep
      generalize ht : Stream.advance t journal' = o' at hstep
      cases hstep with
      | @done result mid mid' between between' hafter hfailures hresult =>
          rw [seek_of_lt_index (h.index ▸ hlt), Action.bind, ht]
          rcases hresult with ⟨_, rfl⟩ | rfl
          · have hindex : mid.index = s.index + 1 := index_of_advance hs
            exact (ih hafter (by omega) between between' (by omega)).trans hfailures
          · exact .done hafter hfailures (.inr rfl)
      | @failed reason mid behind between between' hafter hindex hfailures =>
          have hsame : Stream.seek n t journal' = Stream.seek n behind between' := by
            rw [seek_of_lt_index (h.index ▸ hlt), seek_of_lt_index (hafter.index ▸ hindex ▸ hlt), Action.bind,
              Action.bind, ht]
          rw [hsame]
          exact .failed hafter (hindex.trans_le hle) hfailures

/-! ### Looking ahead -/

/-- A `lookahead` that fails takes back what it has read, so it leaves the stream where it was. -/
theorem Level.lookahead (h : s.Level t) (hadmits : s.source.Admits i) (journal journal' : Journal) :
    Resumes (·.source.Admits i) (lookahead i) s (lookahead i s journal) (lookahead i t journal') := by
  cases i with
  | zero => exact .done h rfl (.inl ⟨none, rfl⟩)
  | succ i =>
      have hahead := h.source.readAhead (i + 1) journal journal'
      have hreads := Source.readAhead_readsAhead (i + 1) s.source journal
      have hlooks := lookahead_looksAhead (i + 1) s journal
      have hlooks' := lookahead_looksAhead (i + 1) t journal'
      have hevolves := hreads.evolves
      generalize Source.readAhead (i + 1) s.source journal = ahead at hahead hreads hlooks hevolves
      generalize Source.readAhead (i + 1) t.source journal' = ahead' at hahead hlooks'
      cases hahead with
      | level hafter hfailures hresult =>
          rcases hresult with ⟨_, rfl⟩ | rfl
          · have hwithin := hevolves.admits.mpr hadmits
            obtain ⟨symbol, hs⟩ := hlooks.of_admits hwithin
            obtain ⟨symbol', ht⟩ := hlooks'.of_admits (hafter.admits.mpr hwithin)
            have hsymbol := lookahead_symbol h.source.valid hs
            have hsymbol' := lookahead_symbol h.source.valid' ht
            have hcaseFold : s.caseFold = t.caseFold := congrArg Face.caseFold h.face
            have hsame : symbol = symbol' := by
              rw [hsymbol, hsymbol', h.source.text, h.source.cursor, hcaseFold]
            rw [hs, ht, hsame]
            exact .done (h.moved (hafter.takeBack (i + 1)) h.position) hfailures (.inl ⟨symbol', rfl⟩)
          · rw [hlooks.of_breach, hlooks'.of_breach]
            exact .done (h.moved hafter h.position) hfailures (.inr rfl)
      | failed hfailures =>
          cases hreads with
          | failed hevolves hreading hle hlt =>
              have hwithin : ∀ {count}, count ≤ i + 1 → Source.Admits _ count :=
                fun hcount window hwindow => Nat.le_trans hcount (hevolves.admits.mpr hadmits window hwindow)
              rw [hlooks.of_fault (hwithin (by omega))]
              have hlevel := h.moved (h.source.takeBack_of_evolves hevolves hle) h.position
              refine .failed hlevel ?_ hfailures
              exact (Source.Evolves.takeBack _ _).admits.mpr (hevolves.admits.mpr hadmits)

/-! ### With failures and without -/

section

variable {deliveries : List Delivery} {window : Option Nat} {chunkSize : Nat}
  (hs : (Source.ofReader ⟨deliveries, .finished⟩ window chunkSize).Leads s.source)
  (ht : (Source.ofReader ⟨Reader.withoutFailures deliveries, .finished⟩ window chunkSize).Leads t.source)

include hs in
theorem admits_of_leads (hwithin : ∀ limit ∈ window, i ≤ limit) : s.source.Admits i :=
  hs.evolves.admits.mpr hwithin

include hs ht in
/-- Streams with the same `face` over sources made of a reader and of the same reader `withoutFailures` are `Level`. -/
theorem level_of_leads (hface : s.face = t.face) : s.Level t := by
  have hfixed : Ending.finished.IsFixed := trivial
  have hvalid := @Source.valid_ofReader ⟨deliveries, .finished⟩ hfixed window chunkSize
  have hvalid' := @Source.valid_ofReader ⟨Reader.withoutFailures deliveries, .finished⟩ hfixed window chunkSize
  have hsame := hs.evolves.same hvalid
  have hsame' := ht.evolves.same hvalid'
  refine ⟨hface, hsame.valid, hsame.ending, hsame'.valid, ?_, ?_, congrArg Face.cursor hface, ?_⟩
  · exact ht.evolves.reliable hvalid' ⟨rfl, Reader.failures_withoutFailures deliveries⟩
  · rw [hsame.text, hsame'.text, Source.text_ofReader, Source.text_ofReader, Reader.upcoming_withoutFailures]
  · exact hsame.window.trans hsame'.window.symm

end

/-- `seek` can be resumed. Forward, `seek n` is `n - s.index` times `advance`, up to the first one that stops. Over a
reader that fails, a forward `seek`, `advance` and a `lookahead` within the window, each retried as often as failures
are left or more often, have the result and the `face` that they have over the reader `withoutFailures`. Backward,
`seek` sets the index and takes the cursor back as far and changes nothing else, or it stops and leaves the stream as it
was. `seek n` twice is `seek n` once, and on a steady stream `seekAll` ends at its last target or at a full counter. -/
theorem seek_resumes (n : Nat) (s : Stream) (journal : Journal) :
    (s.index ≤ n → ∀ o, Walks (n - s.index) s journal o ↔ o = seek n s journal) ∧
    (∀ (deliveries : List Delivery) (window : Option Nat) (chunkSize : Nat) (t : Stream) (journal' : Journal)
        (tries : Nat),
      (Source.ofReader ⟨deliveries, .finished⟩ window chunkSize).Leads s.source →
      (Source.ofReader ⟨Reader.withoutFailures deliveries, .finished⟩ window chunkSize).Leads t.source →
      s.face = t.face → s.source.decoder.failures.length ≤ tries →
        (s.index ≤ n → Recovers (seek n) tries s journal (seek n t journal')) ∧
        Recovers advance tries s journal (advance t journal') ∧
        ∀ i, (∀ limit ∈ window, i ≤ limit) → Recovers (lookahead i) tries s journal (lookahead i t journal')) ∧
    (n < s.index →
      let o := seek n s journal
      (o.result = .ok () → o.state.position = { s.position with index := n } ∧
        o.state.source.cursor + (s.index - n) = s.source.cursor ∧ o.state.marks = s.marks) ∧
      ∀ reason, o.result = .error reason → o.state = s) ∧
    (seek n >>= fun _ => seek n) s journal = seek n s journal ∧
    (s.Steady → ∀ targets, let o := seekAll (targets ++ [n]) s journal
      ¬o.IsFull → o.result = .ok () ∧ o.state.index = n) := by
  refine ⟨fun hle o => walks_iff_seek hle, ?_, fun hlt => seek_back hlt journal, by rw [seek_seek], ?_⟩
  · intro deliveries window chunkSize t journal' tries hs ht hface htries
    have hlevel := level_of_leads hs ht hface
    refine ⟨fun hle => ?_, ?_, fun i hwithin => ?_⟩
    · exact recovers_of_resumes (fun h hP => h.seek hP) hlevel hle htries journal journal'
    · refine recovers_of_resumes (P := (·.index = s.index)) (fun h hP => ?_) hlevel rfl htries journal journal'
      rw [← hP]
      exact h.advance
    · exact recovers_of_resumes (fun h hP => h.lookahead hP) hlevel (admits_of_leads hs hwithin) htries journal journal'
  · intro hsteady targets o hfull
    obtain ⟨_, hresult, -, hindex⟩ := (seekAll_of_steady (targets ++ [n]) hsteady journal).ends hfull
    exact ⟨hresult, by rw [hindex, List.getLast?_concat]; rfl⟩

/-- A line break, then a character of two bytes with a failure between them, and a second failure at once: seeking to
the end and looking ahead to it fail twice and are then what they are without the failures. Behind it, seeking back
moves the index alone. On a text, seeks forward and back end where the last one leads. -/
theorem seek_resumes_interrupted :
    let deliveries : List Delivery :=
      [.bytes [0x61, 0x0A, 0xC3], .failure "busy", .interrupted, .failure "offline", .bytes [0xA9, 0x62]]
    let s := ofSource (.ofReader ⟨deliveries, .finished⟩ (some 4) 2) "text" false
    let t := ofSource (.ofReader ⟨Reader.withoutFailures deliveries, .finished⟩ (some 4) 2) "text" false
    let once := seek 4 t #[]
    let steady := ofSource (.ofText ['a', '\n', 'b'] none) "text" false
    (seek 4 s #[]).result = .error (.fault (.io "busy")) ∧
      Walks 4 s #[] (seek 4 s #[]) ∧
      Recovers (seek 4) 2 s #[] once ∧ once.result = .ok () ∧ once.state.position = ⟨4, 2, 2⟩ ∧
      Recovers advance 2 s #[] (advance t #[]) ∧
      Recovers (lookahead 3) 2 s #[] (lookahead 3 t #[]) ∧ (lookahead 3 t #[]).result = .ok (some (.char 'é')) ∧
      (seek 1 once.state once.journal).state.position = ⟨1, 2, 2⟩ ∧
      (seekAll ([3, 0] ++ [2]) steady #[]).state.index = 2 := by
  intro deliveries s t once steady
  have hface : s.face = t.face := rfl
  obtain ⟨hwalks, hrecovers, -⟩ := seek_resumes 4 s #[]
  obtain ⟨hseek, hadvance, hlookahead⟩ := hrecovers deliveries (some 4) 2 t #[] 2 .refl .refl hface (by decide +kernel)
  obtain ⟨-, -, hback, -⟩ := seek_resumes 1 once.state once.journal
  obtain ⟨-, -, -, -, hlast⟩ := seek_resumes 2 steady #[]
  have hsteady : steady.Steady := ⟨Source.valid_ofText _ _, ⟨rfl, rfl⟩, rfl, rfl⟩
  have hwithin : ∀ limit ∈ some 4, 3 ≤ limit := by simp
  have honce : once.state.position = ⟨4, 2, 2⟩ := by decide +kernel
  refine ⟨by decide +kernel, (hwalks (by decide) _).mpr rfl, hseek (by decide), by decide +kernel, honce, hadvance,
    hlookahead 3 hwithin, by decide +kernel, ?_, ?_⟩
  · rw [((hback (by decide +kernel)).1 (by decide +kernel)).1, honce]
  · refine (hlast hsteady [3, 0] ?_).2
    unfold Outcome.IsFull
    decide +kernel

end Stream

end Backtrack
