import LiveRelay.Room.Basic

/-! # Events that are sent out

A room tells its connections something by offering events to their outboxes, one after the other.
What becomes of an outbox depends on the events that go to it, and on nothing else that is sent out.
-/

namespace LiveRelay

namespace Outbox

/-- What an outbox holds in the end was there or was offered, in this order. -/
theorem events_foldl_offer_sublist (o : Outbox) (es : List Event) :
    (es.foldl offer o).events.Sublist (o.events ++ es) := by
  induction es generalizing o with
  | nil => simp
  | cons e es ih =>
    have step : (o.offer e).events.Sublist (o.events ++ [e]) := by
      rw [events_offer]
      split
      · exact .refl _
      · exact List.sublist_append_left _ _
    have longer := (ih (o.offer e)).trans (step.append_right es)
    rwa [List.append_assoc] at longer

/-- An outbox that takes no more events stays as it is. -/
theorem foldl_offer_of_closed {o : Outbox} (closed : o.reception ≠ .opened) (es : List Event) :
    es.foldl offer o = o := by
  induction es with
  | nil => rfl
  | cons e es ih =>
    have kept : o.offer e = o := by simp [offer, verdict, closed]
    rw [List.foldl_cons, kept, ih]

/-- Events that do not matter do not matter in an outbox either. -/
theorem filterMap_foldl_offer {α : Type} {f : Event → Option α} {es : List Event}
    (none : ∀ e ∈ es, f e = Option.none) (o : Outbox) :
    (es.foldl offer o).events.filterMap f = o.events.filterMap f := by
  induction es generalizing o with
  | nil => rfl
  | cons e es ih =>
    rw [List.foldl_cons, ih fun d member => none d (List.mem_cons_of_mem e member), events_offer]
    split
    · rw [List.filterMap_append, List.filterMap_cons_none (none e List.mem_cons_self)]
      exact List.append_nil _
    · rfl

end Outbox

/-- An event that is sent out to the outbox of a connection. -/
structure Dispatch where
  handle : Handle
  outbox : OutboxId
  event : Event
deriving Repr

namespace Outboxes

/-- Outboxes are the same if the same is found under every number. -/
theorem ext_get? {b c : Outboxes} (same : ∀ i, b.get? i = c.get? i) : b = c := by
  obtain ⟨boxes⟩ := b
  obtain ⟨others⟩ := c
  exact congrArg Outboxes.mk (List.ext_getElem? same)

/-- Offers events one after the other. -/
def dispatch (b : Outboxes) : List Dispatch → Outboxes × List Offer
  | [] => (b, [])
  | d :: ds =>
    let (b, offer) := b.offer d.handle d.outbox d.event
    let (b, offers) := b.dispatch ds
    (b, offer :: offers)

theorem dispatch_append (b : Outboxes) (ds es : List Dispatch) :
    b.dispatch (ds ++ es) =
      (((b.dispatch ds).1.dispatch es).1, (b.dispatch ds).2 ++ ((b.dispatch ds).1.dispatch es).2) := by
  induction ds generalizing b with
  | nil => rfl
  | cons d ds ih => simp [dispatch, ih]

/-- An offer keeps the connection, the outbox and the event of what was sent out. -/
theorem dispatch_of_offers (b : Outboxes) (ds : List Dispatch) :
    (b.dispatch ds).2.map (fun o => (⟨o.handle, o.outbox, o.event⟩ : Dispatch)) = ds := by
  induction ds generalizing b with
  | nil => rfl
  | cons d ds ih => simp [dispatch, offer, ih]

/-- The events that an outbox is offered are those that were sent out to it. -/
theorem events_dispatch (b : Outboxes) (ds : List Dispatch) (box : OutboxId) :
    ((b.dispatch ds).2.filter (·.outbox == box)).map (·.event) =
      (ds.filter (·.outbox == box)).map (·.event) := by
  conv => rhs; rw [← dispatch_of_offers b ds]
  rw [List.filter_map, List.map_map]
  rfl

/-- Sending out events makes no outbox. -/
theorem next_dispatch (b : Outboxes) (ds : List Dispatch) : (b.dispatch ds).1.next = b.next := by
  induction ds generalizing b with
  | nil => rfl
  | cons d ds ih => simp [dispatch, ih, offer, next_modify]

/-- An outbox takes what is sent out to it, one event after the other. -/
theorem get?_dispatch (b : Outboxes) (ds : List Dispatch) (box : OutboxId) :
    (b.dispatch ds).1.get? box = (b.get? box).map fun o =>
      ((ds.filter (·.outbox == box)).map (·.event)).foldl Outbox.offer o := by
  induction ds generalizing b with
  | nil => simp [dispatch]
  | cons d ds ih =>
    rw [dispatch]
    dsimp only
    rw [ih, offer, get?_modify]
    by_cases same : d.outbox = box
    · simp [same, Function.comp_def]
    · simp [same]

/-- An outbox to which nothing is sent out stays as it is. -/
theorem get?_dispatch_of_notMem (b : Outboxes) (ds : List Dispatch) {box : OutboxId}
    (other : ∀ d ∈ ds, d.outbox ≠ box) : (b.dispatch ds).1.get? box = b.get? box := by
  have none : ds.filter (·.outbox == box) = [] := by
    rw [List.filter_eq_nil_iff]
    intro d member same
    exact other d member (eq_of_beq same)
  rw [get?_dispatch, none]
  cases b.get? box <;> rfl

/-- The events that an outbox holds. -/
def contents (b : Outboxes) (box : OutboxId) : List Event := ((b.get? box).map (·.events)).getD []

theorem contents_add (b : Outboxes) (capacity : Capacity) (box : OutboxId) :
    (b.add (.empty capacity)).contents box = b.contents box := by
  rw [contents, get?_add]
  split
  · next same =>
    have unmade : b.get? box = Option.none := by simp [get?, same, next]
    rw [contents, unmade]
    rfl
  · rfl

theorem contents_modify (b : Outboxes) (i box : OutboxId) (f : Outbox → Outbox) :
    (b.modify i f).contents box =
      if i = box then ((b.get? box).map fun o => (f o).events).getD [] else b.contents box := by
  rw [contents, get?_modify]
  split
  · rw [Option.map_map]
    rfl
  · rfl

/-- Sending out events adds at most the events that go to an outbox, in their order. -/
theorem contents_dispatch_sublist (b : Outboxes) (ds : List Dispatch) (box : OutboxId) :
    ((b.dispatch ds).1.contents box).Sublist
      (b.contents box ++ (ds.filter (·.outbox == box)).map (·.event)) := by
  rw [contents, contents, get?_dispatch]
  cases b.get? box with
  | none => exact List.nil_sublist _
  | some o => exact o.events_foldl_offer_sublist _

/-- The same outboxes but for those that are set aside. -/
structure Agree (aside : List OutboxId) (b c : Outboxes) : Prop where
  next : b.next = c.next
  others : ∀ i, i ∉ aside → b.get? i = c.get? i

namespace Agree

variable {aside : List OutboxId} {b c : Outboxes}

theorem add (agree : b.Agree aside c) {o u : Outbox} (same : b.next ∉ aside → o = u) :
    (b.add o).Agree aside (c.add u) := by
  have next := agree.next
  constructor
  · unfold Outboxes.next at next
    simp [Outboxes.next, Outboxes.add, next]
  · intro i elsewhere
    rw [get?_add, get?_add, ← next]
    split
    · next new => rw [same (new ▸ elsewhere)]
    · exact agree.others i elsewhere

/-- A change of an outbox is the same in both, or the outbox is set aside. -/
theorem modify (agree : b.Agree aside c) {i : OutboxId} {f g : Outbox → Outbox}
    (same : i ∉ aside → f = g) : (b.modify i f).Agree aside (c.modify i g) := by
  constructor
  · rw [next_modify, next_modify, agree.next]
  · intro j elsewhere
    rw [get?_modify, get?_modify, agree.others j elsewhere]
    split
    · next own => rw [same (own ▸ elsewhere)]
    · rfl

/-- A change of an outbox that is set aside. -/
theorem modify_aside (agree : b.Agree aside c) {i : OutboxId} (out : i ∈ aside)
    (f : Outbox → Outbox) : (b.modify i f).Agree aside c := by
  constructor
  · rw [next_modify, agree.next]
  · intro j elsewhere
    have other : i ≠ j := by
      rintro rfl
      exact elsewhere out
    rw [get?_modify, if_neg other, agree.others j elsewhere]

theorem dispatch (agree : b.Agree aside c) (ds : List Dispatch) :
    (b.dispatch ds).1.Agree aside (c.dispatch ds).1 := by
  constructor
  · rw [next_dispatch, next_dispatch, agree.next]
  · intro i elsewhere
    rw [get?_dispatch, get?_dispatch, agree.others i elsewhere]

/-- What is sent out to outboxes that are set aside does not matter. -/
theorem dispatch_aside (agree : b.Agree aside c) {ds : List Dispatch}
    (out : ∀ d ∈ ds, d.outbox ∈ aside) : (b.dispatch ds).1.Agree aside c := by
  constructor
  · rw [next_dispatch, agree.next]
  · intro i elsewhere
    rw [get?_dispatch_of_notMem, agree.others i elsewhere]
    rintro d member rfl
    exact elsewhere (out d member)

theorem grow (agree : b.Agree aside c) (more : List OutboxId) : b.Agree (aside ++ more) c := by
  refine ⟨agree.next, ?_⟩
  intro i elsewhere
  exact agree.others i fun member => elsewhere (List.mem_append_left _ member)

end Agree

end Outboxes

/-- What is sent out to tell the seats that a message is meant for. -/
def news (recipients : Recipients) (m : ServerMessage) (seats : List (Handle × Seat)) :
    List Dispatch :=
  (seats.filter fun e => recipients.includes e.1).map fun e => ⟨e.1, e.2.outbox, .message m⟩

@[simp] theorem news_nil (recipients : Recipients) (m : ServerMessage) : news recipients m [] = [] := rfl

theorem news_cons (recipients : Recipients) (m : ServerMessage) (h : Handle) (seat : Seat)
    (seats : List (Handle × Seat)) : news recipients m ((h, seat) :: seats) =
      if recipients.includes h then ⟨h, seat.outbox, .message m⟩ :: news recipients m seats
      else news recipients m seats := by
  cases meant : recipients.includes h <;> simp [news, meant]

/-- What an outbox is sent by a piece of news. -/
theorem filter_news (recipients : Recipients) (m : ServerMessage) (seats : List (Handle × Seat))
    (box : OutboxId) : (news recipients m seats).filter (·.outbox == box) =
      news recipients m (seats.filter (·.2.outbox == box)) := by
  simp only [news, List.filter_map, List.filter_filter]
  congr 2
  funext e
  exact Bool.and_comm _ _

theorem event_of_news {recipients : Recipients} {m : ServerMessage} {seats : List (Handle × Seat)}
    {d : Dispatch} (sent : d ∈ news recipients m seats) : d.event = .message m := by
  obtain ⟨entry, -, rfl⟩ := List.mem_map.mp sent
  rfl

theorem deliver_eq_dispatch (recipients : Recipients) (m : ServerMessage)
    (seats : List (Handle × Seat)) (b : Outboxes) :
    deliver recipients m seats b = b.dispatch (news recipients m seats) := by
  induction seats generalizing b with
  | nil => rfl
  | cons entry rest ih =>
    obtain ⟨h, seat⟩ := entry
    rw [deliver, news_cons]
    cases recipients.includes h <;> simp [Outboxes.dispatch, ih]

theorem mem_news_iff {recipients : Recipients} {m : ServerMessage} {seats : List (Handle × Seat)}
    {d : Dispatch} : d ∈ news recipients m seats ↔
      ∃ k s, (k, s) ∈ seats ∧ recipients.includes k = true ∧ d = ⟨k, s.outbox, .message m⟩ := by
  simp only [news, List.mem_map, List.mem_filter]
  constructor
  · rintro ⟨⟨k, s⟩, ⟨member, meant⟩, rfl⟩
    exact ⟨k, s, member, meant, rfl⟩
  · rintro ⟨k, s, member, meant, rfl⟩
    exact ⟨(k, s), ⟨member, meant⟩, rfl⟩

end LiveRelay
