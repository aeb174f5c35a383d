import LiveRelay.Proofs.Room.Deed

/-! # Who is told what

As long as no two seats share an outbox, what a deed sends to one outbox can be told from the deed
alone: a connection that is still seated gets at most one message, and an outbox that has no seat any
more, or never had one, gets at most an order to close.
-/

namespace LiveRelay

namespace Deed

/-- What a connection that is seated after a deed is told for it. -/
def told (r : Room) (k : Handle) : Deed → List ServerMessage
  | .admitted h seat =>
    if k = h then [.hello seat.participant.id r.seating.snapshot r.clock.elapsedSeconds]
    else [.join seat.participant.id]
  | .left _ seat | .dismissed _ seat => [.leave seat.participant.id]
  | .changed h seat c => if k = h then [] else [.changed c seat.participant.id]
  | .restarted _ => [.reset]
  | .clashed _ | .refused _ _ | .nothing => []

/-- What an outbox without a seat is sent for a deed. -/
def lastWord (box : OutboxId) : Deed → List Event
  | .refused _ other => if other = box then [.dismissal Room.duplicateReason] else []
  | .dismissed _ seat => if seat.outbox = box then [.dismissal Room.kickReason] else []
  | .admitted _ _ | .clashed _ | .left _ _ | .changed _ _ _ | .restarted _ | .nothing => []

/-- A last word is for a connection that is turned away or dismissed. -/
theorem lastWord_cases (d : Deed) (box : OutboxId) : d.lastWord box = [] ∨
    (∃ h, d = .refused h box ∧ d.lastWord box = [.dismissal Room.duplicateReason]) ∨
    ∃ h seat, d = .dismissed h seat ∧ seat.outbox = box ∧
      d.lastWord box = [.dismissal Room.kickReason] := by
  cases d with
  | refused h other =>
    by_cases same : other = box
    · subst same
      exact .inr (.inl ⟨h, rfl, if_pos rfl⟩)
    · exact .inl (if_neg same)
  | dismissed h seat =>
    by_cases same : seat.outbox = box
    · exact .inr (.inr ⟨h, seat, rfl, same, if_pos same⟩)
    · exact .inl (if_neg same)
  | admitted h seat => exact .inl rfl
  | clashed h => exact .inl rfl
  | left h seat => exact .inl rfl
  | changed h seat c => exact .inl rfl
  | restarted h => exact .inl rfl
  | nothing => exact .inl rfl

end Deed

namespace Seating

variable {t : Seating} {k : Handle} {s : Seat} {box : OutboxId}

/-- No two seats have one outbox. -/
def Apart (t : Seating) : Prop :=
  ∀ h k a b, t.seat? h = some a → t.seat? k = some b → a.outbox = b.outbox → h = k

/-- Whether an outbox is that of a seat. -/
def HasOutbox (t : Seating) (box : OutboxId) : Prop :=
  ∃ h seat, t.seat? h = some seat ∧ seat.outbox = box

theorem filter_outbox (consistent : t.Consistent) (apart : t.Apart) (found : t.seat? k = some s) :
    t.seats.filter (·.2.outbox == s.outbox) = [(k, s)] := by
  apply List.perm_singleton.mp
  refine (List.perm_ext_iff_of_nodup (consistent.handles.of_map.filter _) (by simp)).mpr ?_
  rintro ⟨h, seat⟩
  simp only [List.mem_filter, beq_iff_eq, List.mem_singleton, ← consistent.seat?_eq_some_iff]
  constructor
  · rintro ⟨alike, same⟩
    cases apart h k seat s alike found same
    rw [Option.some.inj (alike.symm.trans found)]
  · intro same
    cases same
    exact ⟨found, rfl⟩

theorem filter_outbox_of_not (consistent : t.Consistent) (other : ¬ t.HasOutbox box) :
    t.seats.filter (·.2.outbox == box) = [] := by
  rw [List.filter_eq_nil_iff]
  rintro ⟨h, seat⟩ member same
  exact other ⟨h, seat, consistent.seat?_eq_some_iff.mpr member, eq_of_beq same⟩

end Seating

namespace Room

variable {r : Room} {d : Deed} {k : Handle} {s : Seat} {box : OutboxId}

/-- A connection that is seated after a deed is sent what it is told, and nothing else. The outbox of
a connection that is turned away or dismissed is another one. -/
theorem sent_to_seat (consistent : r.seating.Consistent) (apart : (r.seating.does d).Apart)
    (found : (r.seating.does d).seat? k = some s) (other : d.lastWord s.outbox = []) :
    ((r.dispatches d).filter (·.outbox == s.outbox)).map (·.event) =
      (d.told r k).map .message := by
  have one := Seating.filter_outbox (consistent_does consistent d) apart found
  cases d with
  | admitted h seat =>
    simp only [dispatches, List.filter_append, filter_news, one, news_cons, Recipients.includes,
      Deed.told]
    by_cases same : k = h
    · subst same
      simp
    · simp [same, Ne.symm same]
  | left h seat => simp [dispatches, filter_news, one, news_cons, Recipients.includes, Deed.told]
  | dismissed h seat =>
    have elsewhere : seat.outbox ≠ s.outbox := by simpa [Deed.lastWord] using other
    simp [dispatches, filter_news, one, news_cons, Recipients.includes, Deed.told, elsewhere]
  | changed h seat c =>
    simp only [dispatches, filter_news, one, news_cons, Recipients.includes, Deed.told]
    by_cases same : k = h
    · subst same
      simp
    · simp [same, Ne.symm same]
  | restarted h => simp [dispatches, filter_news, one, news_cons, Recipients.includes, Deed.told]
  | refused h box =>
    have elsewhere : box ≠ s.outbox := by simpa [Deed.lastWord] using other
    simp [dispatches, Deed.told, elsewhere]
  | clashed h => rfl
  | nothing => rfl

/-- An outbox that no seat has after a deed is sent at most a last word. -/
theorem sent_to_other (consistent : r.seating.Consistent)
    (unseated : ¬ (r.seating.does d).HasOutbox box) :
    ((r.dispatches d).filter (·.outbox == box)).map (·.event) = d.lastWord box := by
  have none := Seating.filter_outbox_of_not (consistent_does consistent d) unseated
  cases d with
  | admitted h seat => simp [dispatches, filter_news, none, Deed.lastWord]
  | left h seat => simp [dispatches, filter_news, none, Deed.lastWord]
  | dismissed h seat =>
    by_cases same : seat.outbox = box <;>
      simp [dispatches, filter_news, none, Deed.lastWord, same]
  | changed h seat c => simp [dispatches, filter_news, none, Deed.lastWord]
  | restarted h => simp [dispatches, filter_news, none, Deed.lastWord]
  | refused h other =>
    by_cases same : other = box <;> simp [dispatches, Deed.lastWord, same]
  | clashed h => rfl
  | nothing => rfl

/-- A greeting shows everyone in the room and the time, as they were before. -/
theorem shown_of_hello {e : Dispatch} (sent : e ∈ r.dispatches d) {i : ParticipantId}
    {players : List Participant} {time : Binary64}
    (greeting : e.event = .message (.hello i players time)) :
    players = r.seating.snapshot ∧ time = r.clock.elapsedSeconds := by
  have same {recipients : Recipients} {m : ServerMessage} {seats : List (Handle × Seat)}
      (told : e ∈ news recipients m seats) : m = .hello i players time :=
    Event.message.inj ((event_of_news told).symm.trans greeting)
  cases d with
  | admitted h seat =>
    rcases List.mem_append.mp sent with welcome | arrival
    · cases same welcome
      exact ⟨rfl, rfl⟩
    · cases same arrival
  | left h seat => cases same sent
  | dismissed h seat =>
    rcases List.mem_append.mp sent with departure | order
    · cases same departure
    · rw [List.mem_singleton.mp order] at greeting
      cases greeting
  | changed h seat c => cases same sent
  | restarted h => cases same sent
  | refused h box =>
    rw [List.mem_singleton.mp sent] at greeting
    cases greeting
  | clashed h => cases sent
  | nothing => cases sent

end Room

end LiveRelay
