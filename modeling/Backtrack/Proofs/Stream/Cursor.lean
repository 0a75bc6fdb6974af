import Backtrack.Proofs.Stream.Moves

/-! The cursor of the source keeps step with the index. Passing a symbol, going back and rewinding move both
alike, and a lookahead takes back what it has read; only a lookahead whose way back the window refuses
leaves the cursor ahead. A refusal is known in the journal by what stands before it: a seek backward
announces itself, a lookahead does not. -/

namespace Backtrack

/-- The window refuses no backup but that of a seek backward which has just been announced. -/
def Event.RefusesSeek (previous : Option Event) : Event → Prop
  | .backupBeyondWindow requested _ =>
      ∃ source target, previous = some (.seekingBack source target) ∧ requested = source - target
  | _ => True

/-- What an announcement means if it is the last event: a seek backward has been carried out, and the way
back to a mark goes forward. -/
def Event.Stands (s : Stream) : Event → Prop
  | .seekingBack source target => s.source.Admits (source - target)
  | .rewinding _ source target => source.index ≤ target.index
  | _ => True

theorem Event.stands_of_isAnnouncement {e : Event} (h : e.isAnnouncement = false) (s : Stream) :
    e.Stands s := by
  cases e <;> trivial

theorem Event.isAnnouncement_of_isReading {e : Event} (h : e.isReading = true) :
    e.isAnnouncement = false := by
  cases e <;> first | rfl | cases h

theorem Event.Stands.of_window {e : Event} {s after : Stream}
    (hwindow : after.source.history.window = s.source.history.window) (h : e.Stands s) : e.Stands after := by
  cases e with
  | seekingBack source target => exact fun window hafter => h window (hwindow ▸ hafter)
  | _ => exact h

@[simp] theorem Position.index_next (p : Position) (symbol : Symbol) :
    (p.next symbol).index = p.index + 1 := by
  unfold next
  split <;> rfl

namespace Stream

variable {overrides : Prop} {s after : Stream} {events : List Event}

theorem Move.stands (h : Move overrides s events after) : ∀ e ∈ events.getLast?, e.Stands after := by
  have hreads : ∀ {read : List Event} (t : Stream), (∀ e ∈ read, e.isReading = true) →
      ∀ e ∈ read.getLast?, e.Stands t := fun t hreading e he =>
    Event.stands_of_isAnnouncement (Event.isAnnouncement_of_isReading
      (hreading e (List.mem_of_getLast? he))) t
  intro e he
  cases h with
  | pass hevolves hcursor hsymbol hreading => exact hreads _ hreading e he
  | peek hevolves hcursor hreading => exact hreads _ hreading e he
  | overrun hevolves hwindow hlt hreading =>
      rw [List.getLast?_concat] at he
      cases he
      trivial
  | back hlt hadmits hle =>
      cases he
      exact hadmits
  | stay hlast => exact Event.stands_of_isAnnouncement (hlast e he) _
  | setLine h line => cases he
  | setColumn h column => cases he
  | aim hle =>
      cases he
      exact hle
  | mark => cases he; trivial
  | release => cases he; trivial
  | arrive => cases he; trivial
  | rewind => cases he; trivial

theorem Run.stands (h : Run overrides s events after) : ∀ e ∈ events.getLast?, e.Stands after := by
  induction h with
  | refl =>
      intro e he
      cases he
  | @move events more mid after hrun hmove ih =>
      intro e he
      rw [List.getLast?_append] at he
      cases hmore : more.getLast? with
      | some last =>
          rw [hmore] at he
          exact hmove.stands e (hmore ▸ he)
      | none =>
          rw [hmore] at he
          exact Event.Stands.of_window hmove.evolves.window (ih e he)

/-- The cursor and the index move alike, unless a lookahead is not taken back. -/
theorem Run.cursor (h : Run overrides s events after)
    (hquiet : s.source.history.window = none ∨ Journal.Each Event.RefusesSeek none events) :
    after.source.cursor + s.index = s.source.cursor + after.index := by
  induction h with
  | refl => rfl
  | @move events more mid after hrun hmove ih =>
      have hmid := ih (hquiet.imp_right .of_append)
      cases hmove with
      | pass hevolves hcursor =>
          rw [hcursor]
          simp only [index, Position.index_next] at hmid ⊢
          omega
      | peek hevolves hcursor =>
          rw [hcursor]
          exact hmid
      | @overrun source read requested window hevolves hwindow hlt hreading =>
          have hsome : s.source.history.window = some window := hrun.evolves.window ▸ hwindow
          rcases hquiet with hnone | hquiet
          · rw [hnone] at hsome
            cases hsome
          rw [← List.append_assoc] at hquiet
          obtain ⟨a, b, hlast, hrequested⟩ := hquiet.allowed_last
          rw [List.getLast?_append] at hlast
          cases hread : read.getLast? with
          | some last =>
              rw [hread] at hlast
              cases hlast
              have hreads := hreading _ (List.mem_of_getLast? hread)
              cases hreads
          | none =>
              rw [hread] at hlast
              have hadmits : mid.source.Admits (a - b) := hrun.stands _ hlast
              have hle := hadmits window hwindow
              omega
      | @back target hlt hadmits hle =>
          have hback : mid.source.cursor - (mid.index - target) + s.index = s.source.cursor + target := by
            omega
          exact hback
      | @rewind m p hopen hsaved hlt hadmits hle =>
          have hback : mid.source.cursor - (mid.index - p.index) + s.index = s.source.cursor + p.index := by
            omega
          exact hback
      | @arrive m p hopen hsaved hindex =>
          rw [hindex] at hmid
          exact hmid
      | _ => exact hmid

end Stream

end Backtrack
