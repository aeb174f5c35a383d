import LiveRelay.Proofs.Relay.Standing

/-! # Steady relays

As long as every connection has a handle of its own and no order to stop gets lost in a full outbox,
every connection of a relay keeps standing somewhere. A step of a connection moves that connection
alone; when the room takes a command, it moves the connection that the command names.
-/

namespace LiveRelay

namespace Relay

/-- A relay in which every connection stands somewhere. -/
structure Steady (r : Relay) (offers : List Offer) : Prop where
  placed : r.Placed
  standing : ∀ c ∈ r.connections, c.Standing r.outboxes (Told offers c.handle)
    (r.room.seating.seat? c.handle) (calls c.handle r.commands)
  absent : ∀ h ∉ r.handles, r.room.seating.seat? h = none ∧ calls h r.commands = [] ∧ ¬ Told offers h

theorem steady_start : (start .live).Steady [] where
  placed := placed_start
  standing := nofun
  absent h _ := ⟨rfl, rfl, by rintro ⟨o, member, -⟩; cases member⟩

variable {r : Relay} {offers : List Offer}

namespace Steady

section Upgrade

variable {h : Handle}

theorem upgrade (steady : r.Steady offers) (fresh : h ∉ r.handles) :
    ({ r with connections := r.connections ++ [.upgraded h r.now] } : Relay).Steady offers where
  placed := steady.placed.upgrade fresh
  standing c member := by
    rcases List.mem_append.mp member with old | new
    · exact steady.standing c old
    · obtain rfl := List.mem_singleton.mp new
      obtain ⟨unseated, silent, untold⟩ := steady.absent h fresh
      simp only [Connection.upgraded, unseated, silent]
      exact .upgraded rfl untold
  absent k other := by
    apply steady.absent k
    intro member
    apply other
    rw [handles, List.map_append]
    exact List.mem_append_left _ member

end Upgrade

section Acts

variable {i : Nat} {c next : Connection} {a : Action} {sent : List Command} {after : Outboxes}

theorem standing_set (steady : r.Steady offers) (here : r.connections[i]? = some c)
    (acts : c.Acts r.outboxes r.now i a next sent after) {d : Connection}
    (member : d ∈ r.connections.set i next) : d.Standing after (Told offers d.handle)
      (r.room.seating.seat? d.handle) (calls d.handle (r.commands ++ sent)) := by
  have present := List.mem_of_getElem? here
  rw [calls, List.filter_append]
  rcases steady.placed.mem_set here member with rfl | ⟨there, other⟩
  · rw [acts.handle_eq]
    exact acts.standing_acts (steady.standing c present)
  · have silent := acts.calls_other other
    rw [calls] at silent
    rw [silent, List.append_nil]
    refine (steady.standing d there).congr ?_ Iff.rfl
    intro box own
    have same : after.get? box = r.outboxes.get? box :=
      acts.get?_other (steady.placed.made d there box own) (steady.placed.other_outbox here acts there other own).1
    simp only [Outboxes.Opened, Outboxes.Orders, same, and_self]

theorem acted (steady : r.Steady offers) (here : r.connections[i]? = some c)
    (acts : c.Acts r.outboxes r.now i a next sent after) :
    ({ r with
      outboxes := after
      commands := r.commands ++ sent
      connections := r.connections.set i next } : Relay).Steady offers where
  placed := steady.placed.acted here acts
  standing d member := steady.standing_set here acts member
  absent h other := by
    rw [handles, handles_set here acts.handle_eq] at other
    obtain ⟨unseated, silent, untold⟩ := steady.absent h other
    have stranger : h ≠ c.handle := by
      rintro rfl
      exact other (List.mem_map_of_mem (List.mem_of_getElem? here))
    have quiet := acts.calls_other stranger
    rw [calls] at silent quiet
    refine ⟨unseated, ?_, untold⟩
    rw [calls, List.filter_append, silent, quiet, List.append_nil]

end Acts

theorem asked (steady : r.Steady offers) {c : Command} (outside : c.Outside) :
    ({ r with commands := r.commands ++ [c] } : Relay).Steady offers := by
  have silent (h : Handle) : calls h (r.commands ++ [c]) = calls h r.commands := by
    have still : c.moves h = false := by cases c <;> first | rfl | cases outside
    simp [calls, still]
  exact {
    placed := steady.placed.asked outside
    standing := fun d member => silent d.handle ▸ steady.standing d member
    absent := fun h other => silent h ▸ steady.absent h other }

section Serve

variable {x : Command} {rest : List Command} {h k : Handle} {s : Seat}

theorem present_of_seat (steady : r.Steady offers) (found : r.room.seating.seat? k = some s) :
    ∃ c ∈ r.connections, c.handle = k ∧ c.outbox = some s.outbox := by
  by_cases member : k ∈ r.handles
  · obtain ⟨c, present, rfl⟩ := List.mem_map.mp member
    have standing := steady.standing c present
    rw [found] at standing
    exact ⟨c, present, rfl, standing.of_seat.1⟩
  · cases found.symm.trans (steady.absent k member).1

/-- A connection that asks for a seat has none. -/
theorem unseated_of_connect (steady : r.Steady offers) {box : OutboxId}
    (first : r.commands = .connect k box :: rest) : r.room.seating.seat? k = none := by
  have next : calls k r.commands = .connect k box :: calls k rest := by
    simp [first, calls, Command.moves]
  by_cases member : k ∈ r.handles
  · obtain ⟨c, present, rfl⟩ := List.mem_map.mp member
    have standing := steady.standing c present
    rw [next] at standing
    exact standing.admitted.1
  · cases next.symm.trans (steady.absent k member).2.1

theorem not_refused (steady : r.Steady offers) (first : r.commands = x :: rest)
    {box : OutboxId} : r.room.deed x ≠ .refused k box := by
  intro refused
  obtain ⟨admitted, numbered, -⟩ := steady.placed.numbered
  have fits := r.room.fits_deed x
  have answers := Room.answers_deed numbered.consistent x
  rw [refused] at fits answers
  obtain ⟨seat, found⟩ := fits
  cases found.symm.trans (steady.unseated_of_connect (answers ▸ first))

/-- What is sent out to stop a connection is for one whose seat is taken away. -/
theorem dismissed_of_dispatch (steady : r.Steady offers) (first : r.commands = x :: rest)
    {e : Dispatch} (sent : e ∈ r.room.dispatches (r.room.deed x)) (order : e.event.Dismisses) :
    ∃ s, r.room.deed x = .dismissed e.handle s ∧ s.outbox = e.outbox := by
  rcases Room.order_of_dispatch sent order with ⟨box, refused⟩ | dismissed
  · exact absurd refused (steady.not_refused first)
  · exact dismissed

/-- Only a connection whose seat is taken away is told to stop. -/
theorem told_apply (steady : r.Steady offers) (first : r.commands = x :: rest)
    (kept : ∀ s, r.room.deed x ≠ .dismissed h s) :
    Told (offers ++ (r.room.apply r.outboxes x).offers) h ↔ Told offers h := by
  constructor
  · rintro ⟨o, member, same, order⟩
    rcases List.mem_append.mp member with old | new
    · exact ⟨o, old, same, order⟩
    · obtain ⟨s, dismissed, -⟩ :=
        steady.dismissed_of_dispatch first (dispatched_of_offered new) order
      exact absurd dismissed (same ▸ kept s)
  · rintro ⟨o, member, same, order⟩
    exact ⟨o, List.mem_append_left _ member, same, order⟩

theorem opened_apply (r : Relay) (x : Command) (box : OutboxId) :
    (r.room.apply r.outboxes x).outboxes.Opened box ↔ r.outboxes.Opened box := by
  rw [(Prod.mk.inj (sent_apply r x)).1]
  exact Outboxes.opened_dispatch _

/-- An order to stop is put only into the outbox of a seat that is taken away. -/
theorem orders_apply (steady : r.Steady offers) (first : r.commands = x :: rest) {box : OutboxId}
    (kept : ∀ k s, r.room.deed x = .dismissed k s → s.outbox ≠ box) :
    (r.room.apply r.outboxes x).outboxes.Orders box ↔ r.outboxes.Orders box := by
  rw [(Prod.mk.inj (sent_apply r x)).1]
  apply Outboxes.orders_dispatch
  intro e sent same order
  obtain ⟨s, dismissed, own⟩ := steady.dismissed_of_dispatch first sent order
  exact kept _ s dismissed (own.trans same)

/-- A connection whose seat is taken away is ordered to stop, or its outbox is too full for the
order. -/
theorem ordered_or_lost (dismissed : r.room.deed x = .dismissed k s)
    (opened : r.outboxes.Opened s.outbox) :
    (r.room.apply r.outboxes x).outboxes.Orders s.outbox ∨
      ∃ o ∈ (r.room.apply r.outboxes x).offers,
        o.handle = k ∧ o.event.Dismisses ∧ o.verdict = .full := by
  obtain ⟨boxes, sent⟩ := Prod.mk.inj (sent_apply r x)
  rw [boxes, sent, dismissed]
  simp only [Room.dispatches, Outboxes.dispatch_append]
  generalize news .all (.leave s.participant.id) (r.room.seating.does (.dismissed k s)).seats = told
  have open_ := (Outboxes.opened_dispatch told).mpr opened
  by_cases lost : ((r.outboxes.dispatch told).1.offer k s.outbox
      (.dismissal Room.kickReason)).2.verdict = .full
  · exact .inr ⟨_, List.mem_append_right _ (List.mem_singleton.mpr rfl), rfl, trivial, lost⟩
  · exact .inl (Outboxes.orders_of_offer open_ trivial lost)

/-- A command of somebody else moves nobody, unless it takes the seat away. -/
theorem reseat_other (steady : r.Steady offers) (still : x.moves h = false)
    (kept : ∀ s, r.room.deed x ≠ .dismissed h s) {seat : Option Seat}
    (sits : r.room.seating.seat? h = seat) : (r.room.deed x).reseat h seat = seat ∨
      ∃ s p, seat = some s ∧ (r.room.deed x).reseat h seat = some ⟨p, s.outbox⟩ := by
  obtain ⟨admitted, numbered, -⟩ := steady.placed.numbered
  have fits := r.room.fits_deed x
  have answers := Room.answers_deed numbered.consistent x
  cases happened : r.room.deed x with
  | admitted k s =>
    rw [happened] at answers
    cases answers
    exact .inl (if_neg fun same => beq_eq_false_iff_ne.mp still same.symm)
  | left k s =>
    rw [happened] at answers
    cases answers
    exact .inl (if_neg fun same => beq_eq_false_iff_ne.mp still same.symm)
  | dismissed k s =>
    refine .inl (if_neg ?_)
    rintro rfl
    exact kept s happened
  | changed k s c =>
    rw [happened] at fits
    by_cases same : h = k
    · subst same
      exact .inr ⟨s, s.participant.apply c, sits.symm.trans fits, if_pos rfl⟩
    · exact .inl (if_neg same)
  | refused k box => exact .inl rfl
  | restarted k => exact .inl rfl
  | clashed k => exact .inl rfl
  | nothing => exact .inl rfl

/-- An outbox whose connection keeps its seat is not ordered to stop by a command. -/
theorem outbox_alike (steady : r.Steady offers) (first : r.commands = x :: rest) {c : Connection}
    (present : c ∈ r.connections) (kept : ∀ s, r.room.deed x ≠ .dismissed c.handle s)
    {box : OutboxId} (own : c.outbox = some box) :
    ((r.room.apply r.outboxes x).outboxes.Opened box ↔ r.outboxes.Opened box) ∧
      ((r.room.apply r.outboxes x).outboxes.Orders box ↔ r.outboxes.Orders box) := by
  refine ⟨opened_apply r x box, steady.orders_apply first ?_⟩
  rintro k s dismissed rfl
  have fits := r.room.fits_deed x
  rw [dismissed] at fits
  obtain ⟨d, there, rfl, same⟩ := steady.present_of_seat fits
  have alike : c.handle = d.handle := steady.placed.apart c present d there s.outbox own same
  exact kept s (alike ▸ dismissed)

/-- A command moves the connection that it names from one standing to another, and nobody else. -/
theorem standing_served (steady : r.Steady offers) (first : r.commands = x :: rest)
    (taken : ∀ o ∈ (r.room.apply r.outboxes x).offers, o.event.Dismisses → o.verdict ≠ .full)
    {c : Connection} (present : c ∈ r.connections) :
    c.Standing (r.room.apply r.outboxes x).outboxes
      (Told (offers ++ (r.room.apply r.outboxes x).offers) c.handle)
      ((r.room.apply r.outboxes x).room.seating.seat? c.handle) (calls c.handle rest) := by
  have standing := steady.standing c present
  rw [first] at standing
  rw [seat?_apply]
  obtain ⟨admitted, numbered, -⟩ := steady.placed.numbered
  -- A removal comes first, since it alone puts an order into the outbox of the connection.
  by_cases removed : ∃ s, r.room.deed x = .dismissed c.handle s
  · obtain ⟨s, dismissed⟩ := removed
    have fits := r.room.fits_deed x
    have answers := Room.answers_deed numbered.consistent x
    rw [dismissed] at fits answers
    obtain rfl : x = .kick s.participant.id := answers
    rw [show r.room.seating.seat? c.handle = some s from fits] at standing
    rw [dismissed, Deed.reseat, if_pos rfl]
    refine standing.removed (opened_apply r _ s.outbox).mpr fun opened => ?_
    rcases ordered_or_lost dismissed opened with ordered | ⟨o, offered, -, order, full⟩
    · exact ordered
    · exact absurd full (taken o offered order)
  · have kept : ∀ s, r.room.deed x ≠ .dismissed c.handle s := not_exists.mp removed
    have here := standing.congr (fun box own => steady.outbox_alike first present kept own)
      (steady.told_apply first kept)
    cases moves : x.moves c.handle with
    | false =>
      rw [calls, List.filter_cons, moves] at here
      rcases steady.reseat_other moves kept rfl with same | ⟨s, p, sits, same⟩
      · rwa [same]
      · rw [same]
        rw [sits] at here
        exact here.moved rfl
    | true =>
      rw [calls, List.filter_cons, moves] at here
      cases x with
      | connect k box =>
        obtain rfl : k = c.handle := eq_of_beq moves
        obtain ⟨unseated, -, seated⟩ := here.admitted
        rw [numbered.deed_connect (Seating.contains_eq_false_iff.mpr unseated) box, Deed.reseat,
          if_pos rfl]
        exact seated _ rfl
      | disconnect k =>
        obtain rfl : k = c.handle := eq_of_beq moves
        have none : (r.room.deed (.disconnect c.handle)).reseat c.handle
            (r.room.seating.seat? c.handle) = none := by
          rw [Room.deed]
          cases found : r.room.seating.seat? c.handle <;> simp [Deed.reseat]
        rw [none]
        exact here.excused
      | message k m => cases moves
      | listParticipants => cases moves
      | kick i => cases moves

/-- A command of a relay names no stranger. -/
theorem absent_served (steady : r.Steady offers) (first : r.commands = x :: rest)
    (other : h ∉ r.handles) :
    (r.room.apply r.outboxes x).room.seating.seat? h = none ∧ calls h rest = [] ∧
      ¬ Told (offers ++ (r.room.apply r.outboxes x).offers) h := by
  obtain ⟨unseated, silent, untold⟩ := steady.absent h other
  have still : x.moves h = false ∧ calls h rest = [] := by
    rw [first, calls, List.filter_cons] at silent
    cases moves : x.moves h with
    | false => exact ⟨rfl, by simpa [moves, calls] using silent⟩
    | true => simp [moves] at silent
  have kept : ∀ s, r.room.deed x ≠ .dismissed h s := by
    intro s dismissed
    have fits := r.room.fits_deed x
    rw [dismissed] at fits
    cases unseated.symm.trans fits
  refine ⟨?_, still.2, untold ∘ (steady.told_apply first kept).mp⟩
  rw [seat?_apply, unseated]
  rcases steady.reseat_other still.1 kept unseated with same | ⟨s, p, sits, -⟩
  · exact same
  · cases sits

theorem served (steady : r.Steady offers) (first : r.commands = x :: rest)
    (few : r.connections.length < UInt64.size)
    (taken : ∀ o ∈ (r.room.apply r.outboxes x).offers, o.event.Dismisses → o.verdict ≠ .full) :
    ({ r with
      room := (r.room.apply r.outboxes x).room
      outboxes := (r.room.apply r.outboxes x).outboxes
      commands := rest } : Relay).Steady (offers ++ (r.room.apply r.outboxes x).offers) where
  placed := steady.placed.served first few
  standing _ member := steady.standing_served first taken member
  absent _ other := steady.absent_served first other

end Serve

/-- A steady relay stays steady. -/
theorem step (steady : r.Steady offers) {a : Action} {next : Relay} {more : List Offer}
    (steps : r.Steps a next more) (allowed : r.Allows a)
    (taken : ∀ o ∈ more, o.event.Dismisses → o.verdict ≠ .full) :
    next.Steady (offers ++ more) := by
  cases steps with
  | idle => rwa [List.append_nil]
  | upgraded h =>
    rw [List.append_nil]
    exact steady.upgrade (allowed.fresh h rfl)
  | acted here acts =>
    rw [List.append_nil]
    exact steady.acted here acts
  | asked c =>
    rw [List.append_nil]
    exact steady.asked (allowed.outside c rfl)
  | passed n =>
    rw [List.append_nil]
    exact ⟨steady.placed.passed n, steady.standing, steady.absent⟩
  | served first => exact steady.served first allowed.few taken

end Steady

end Relay

end LiveRelay
