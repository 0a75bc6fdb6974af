import Backtrack.Proofs.Action
import Backtrack.Proofs.Source.Ahead

/-! What reading depends on. A reader that ends in a fixed way brings the same whatever has been reported before, so
the result of a read, and the source afterwards, are determined by the source alone. And a character that has been taken
back is read again without asking the reader. So it makes no difference for what is read whether symbols are read in one
go, or looked at and taken back one by one on the way. -/

namespace Backtrack

theorem Reader.pull_unlogged {r : Reader} (hfixed : r.ending.IsFixed) (size : Nat) (journal journal' : Journal) :
    r.pull size journal = r.pull size journal' := by
  obtain ⟨deliveries, ending⟩ := r
  unfold pull
  induction deliveries with
  | nil =>
      cases ending with
      | finished => rfl
      | failing reason => rfl
      | growing file => exact hfixed.elim
  | cons delivery rest ih =>
      cases delivery with
      | interrupted => exact ih hfixed
      | failure reason => rfl
      | bytes bytes => rfl

namespace Decoder

theorem fill_unlogged {d : Decoder} (hfixed : d.reader.ending.IsFixed) (journal journal' : Journal) :
    (d.fill journal).result = (d.fill journal').result ∧ (d.fill journal).state = (d.fill journal').state := by
  unfold fill
  dsimp only
  rw [Reader.pull_unlogged hfixed d.chunkSize journal journal']
  split <;> exact ⟨rfl, rfl⟩

theorem next_unlogged {index : Nat} {d : Decoder} (hvalid : d.Valid) (journal journal' : Journal) :
    (d.next index journal).result = (d.next index journal').result ∧
      (d.next index journal).state = (d.next index journal').state := by
  fun_induction next index d journal generalizing journal' with
  | case1 d journal taken htake => fun_cases next index d journal' <;> simp_all
  | case2 d journal htake hdrained hempty => fun_cases next index d journal' <;> simp_all
  | case3 d journal htake hdrained hne => fun_cases next index d journal' <;> simp_all
  | case4 d journal htake hdrained filled between hfill _ ih =>
      have hfills := fill_fills hvalid (by simpa using hdrained) journal
      have hsame := fill_unlogged hvalid.ending journal journal'
      rw [hfill] at hfills hsame
      fun_cases next index d journal' with
      | case4 htake' hdrained' filled' between' hfill' =>
          rw [hfill'] at hsame
          obtain ⟨-, rfl⟩ := hsame
          exact ih (hfills.1.valid hvalid) between'
      | case5 htake' hdrained' stop filled' between' hfill' =>
          rw [hfill'] at hsame
          cases hsame.1
      | _ => simp_all
  | case5 d journal htake hdrained stop filled between hfill =>
      have hsame := fill_unlogged hvalid.ending journal journal'
      rw [hfill] at hsame
      fun_cases next index d journal' with
      | case4 htake' hdrained' filled' between' hfill' =>
          rw [hfill'] at hsame
          cases hsame.1
      | case5 htake' hdrained' stop' filled' between' hfill' =>
          rw [hfill'] at hsame
          obtain ⟨hstop, rfl⟩ := hsame
          cases hstop
          exact ⟨rfl, rfl⟩
      | _ => simp_all

end Decoder

namespace Source

variable {s source : Source} {journal between : Journal}

theorem refill_unlogged (hvalid : s.Valid) (journal journal' : Journal) :
    (s.refill journal).result = (s.refill journal').result ∧
      (s.refill journal).state = (s.refill journal').state := by
  obtain ⟨history, decoder⟩ := s
  have hnext := @Decoder.next_unlogged history.retained decoder hvalid.decoder journal journal'
  unfold refill
  dsimp only
  split_ifs
  · generalize decoder.next history.retained journal = o at hnext ⊢
    generalize decoder.next history.retained journal' = o' at hnext ⊢
    obtain ⟨result, after, between⟩ := o
    obtain ⟨result', after', between'⟩ := o'
    obtain ⟨hresult, hafter⟩ := hnext
    dsimp only at hresult hafter
    subst hresult hafter
    match result with
    | .ok (some c) => exact ⟨rfl, rfl⟩
    | .ok none => exact ⟨rfl, rfl⟩
    | .error stop => exact ⟨rfl, rfl⟩
  · exact ⟨rfl, rfl⟩

/-- The result of `read` and the source that it leaves do not depend on the journal. -/
theorem read_unlogged (hvalid : s.Valid) (journal journal' : Journal) :
    (s.read journal).result = (s.read journal').result ∧ (s.read journal).state = (s.read journal').state := by
  have hrefill := refill_unlogged hvalid journal journal'
  rw [read_eq, read_eq, Action.bind, Action.bind]
  generalize s.refill journal = o at hrefill ⊢
  generalize s.refill journal' = o' at hrefill ⊢
  obtain ⟨result, ⟨history, decoder⟩, between⟩ := o
  obtain ⟨result', after', between'⟩ := o'
  obtain ⟨hresult, hafter⟩ := hrefill
  dsimp only at hresult hafter
  subst hresult hafter
  cases result with
  | ok =>
      dsimp only [onHistory, History.next]
      split_ifs <;> exact ⟨rfl, rfl⟩
  | error stop => exact ⟨rfl, rfl⟩

/-- A character that has been read and taken back is read again, and the journal stays as it is. -/
theorem read_takeBack_of_char {c : Char} (h : s.read journal = ⟨.ok (.char c), source, between⟩)
    (journal' : Journal) : (source.takeBack 1).read journal' = ⟨.ok (.char c), source, journal'⟩ := by
  rw [read_eq, Action.bind] at h
  generalize s.refill journal = o at h
  obtain ⟨result, ⟨history, decoder⟩, filled⟩ := o
  cases result with
  | error stop => cases h
  | ok =>
      dsimp only [onHistory, History.next] at h
      split_ifs at h with hlimit
      · cases h
      obtain ⟨hcurrent, rfl⟩ : history.current = .char c ∧
          source = ⟨{ history with cursor := history.cursor + 1 }, decoder⟩ := by
        injection h with hresult hafter
        injection hresult with hcurrent
        exact ⟨hcurrent, hafter.symm⟩
      have hlt : history.cursor < history.chars.size := by
        refine Nat.lt_of_not_le fun hle => ?_
        rw [History.current, Array.getElem?_eq_none hle] at hcurrent
        cases hcurrent
      have hnot : ¬(history.isExhausted && !decoder.isFinished) = true := by
        simp [History.isExhausted, History.retained, Nat.not_le.mpr hlt]
      have hback : takeBack ⟨{ history with cursor := history.cursor + 1 }, decoder⟩ 1 = ⟨history, decoder⟩ := rfl
      have hrefill : refill ⟨history, decoder⟩ journal' = ⟨.ok (), ⟨history, decoder⟩, journal'⟩ := if_neg hnot
      rw [hback, read_eq, Action.bind, hrefill]
      dsimp only [onHistory, History.next]
      rw [if_neg hlimit, hcurrent]

/-- The cursor never passes its limit. -/
theorem Leads.cursor_le {after : Source} (h : s.Leads after) (hlimit : s.cursor ≤ counterLimit) :
    after.cursor ≤ counterLimit := by
  induction h with
  | refl => exact hlimit
  | @read mid h journal ih =>
      have hcursor := mid.read_cursor journal
      generalize mid.read journal = o at hcursor ⊢
      obtain ⟨result, after, journal'⟩ := o
      match result with
      | .ok symbol => exact hcursor.1.trans_le hcursor.2
      | .error (.fault f) => exact hcursor.2.trans_le ih
      | .error (.breach b) => exact hcursor.2.1.trans_le ih
  | takeBack h count ih => exact (Nat.sub_le _ _).trans ih

/-- Where the reader does not fail, all symbols are read, or the cursor comes to its limit. -/
theorem readAhead_of_reliable (hvalid : s.Valid) (hreliable : s.Reliable) (count : Nat) (journal : Journal) :
    (readAhead count s journal).result = .ok () ∨
      (readAhead count s journal).IsFull ∧ counterLimit < s.cursor + count := by
  induction count generalizing s journal with
  | zero => exact .inl rfl
  | succ count ih =>
      rw [readAhead_succ, Action.bind]
      rcases read_of_reliable hvalid hreliable journal with
        ⟨after, between, hread, hsame, hafter, hcursor⟩ | ⟨hfull, hlimit⟩
      · rw [hread]
        refine (ih hsame.valid hafter between).imp_right fun h => ⟨h.1, ?_⟩
        omega
      · generalize s.read journal = o at hfull ⊢
        obtain ⟨result, after, between⟩ := o
        cases hfull
        exact .inr ⟨rfl, by omega⟩

end Source

end Backtrack
