import LiveRelay.Proofs.Relay.Step
import LiveRelay.Proofs.Session.Settled

/-! # Connections with handles and outboxes of their own

As long as no two connections are upgraded with one handle, a step of one connection leaves the
others and their outboxes alone, and a connection asks for a seat once, so that numbers last. None of
this depends on what the outboxes take.
-/

namespace LiveRelay

/-- Whether a command asks for a seat. -/
def Command.asksForSeat : Command → Bool
  | .connect _ _ => true
  | .disconnect _ | .message _ _ | .listParticipants | .kick _ => false

/-- Whether a connection has been started. -/
def Connection.hasStarted (c : Connection) : Bool := c.phase ≠ .upgraded

namespace Connection.Acts

variable {b after : Outboxes} {now i : Nat} {c next : Connection} {a : Action} {sent : List Command}

/-- A connection keeps its outbox, or starts with a new one. -/
theorem outbox_eq (acts : c.Acts b now i a next sent after) :
    next.outbox = c.outbox ∧ after.next = b.next ∨
      next.outbox = some b.next ∧ after.next = b.next + 1 := by
  cases acts with
  | started phase => exact .inr ⟨rfl, by simp [Outboxes.next, Outboxes.add]⟩
  | took running own free found next => exact .inl ⟨rfl, Outboxes.next_modify _ _ _⟩
  | dropped off own => exact .inl ⟨rfl, Outboxes.next_modify _ _ _⟩
  | lost off =>
    refine .inl ⟨rfl, ?_⟩
    cases c.outbox with
    | none => rfl
    | some box => exact Outboxes.next_modify _ _ _
  | heard | said | quit | pinged | timedOut | wrote | obeyed => exact .inl ⟨rfl, rfl⟩

/-- A connection does not touch the outbox of another one. -/
theorem get?_other (acts : c.Acts b now i a next sent after) {box : OutboxId} (made : box < b.next)
    (other : c.outbox ≠ some box) : after.get? box = b.get? box := by
  have apart {own : OutboxId} (same : c.outbox = some own) : own ≠ box := by
    rintro rfl
    exact other same
  cases acts with
  | started phase => rw [Outboxes.get?_add, if_neg (Nat.ne_of_lt made)]
  | took running own free found next => rw [Outboxes.get?_modify, if_neg (apart own)]
  | dropped off own => rw [Outboxes.get?_modify, if_neg (apart own)]
  | lost off =>
    cases own : c.outbox with
    | none => rfl
    | some mine => exact (Outboxes.get?_modify _ _ _ _).trans (if_neg (apart own))
  | heard | said | quit | pinged | timedOut | wrote | obeyed => rfl

/-- A connection asks for a seat when it starts, and not again. -/
theorem count_sent (acts : c.Acts b now i a next sent after) :
    c.hasStarted.toNat + sent.countP (·.asksForSeat) = next.hasStarted.toNat := by
  cases acts with
  | started phase => simp [Connection.hasStarted, Command.asksForSeat, phase]
  | quit _ running | timedOut _ running =>
    cases c.dismissed <;> simp [Connection.hasStarted, Command.asksForSeat, running]
  | obeyed written running flying => simp [Connection.hasStarted, running]
  | heard | said | pinged | took | wrote | dropped | lost => rfl

end Connection.Acts

namespace Relay

/-- A run in which no handle is given twice, handles last, and nobody speaks in the place of a
connection. -/
structure Regular (actions : List Action) : Prop where
  distinct : (upgrades actions).Nodup
  few : (upgrades actions).length < UInt64.size
  outside : ∀ c, .ask c ∈ actions → c.Outside

/-- A step as it occurs in a regular run. -/
structure Allows (r : Relay) (a : Action) : Prop where
  fresh : ∀ h, a = .upgrade h → h ∉ r.handles
  outside : ∀ c, a = .ask c → c.Outside
  few : r.connections.length < UInt64.size

theorem upgrades_append (actions more : List Action) :
    upgrades (actions ++ more) = upgrades actions ++ upgrades more :=
  List.filterMap_append

/-- The connections of a relay are those that were upgraded, in this order. -/
theorem handles_run (actions : List Action) :
    ((start .live).run actions).relay.handles = upgrades actions := by
  induction actions using List.reverseRecOn with
  | nil => rfl
  | append_singleton actions a ih =>
    obtain ⟨offers, steps, -⟩ := steps_concat actions a
    rw [handles_steps steps, ih, upgrades_append]

namespace Regular

variable {actions more : List Action} {a : Action}

/-- A run is regular as far as it has come. -/
theorem before (regular : Regular (actions ++ more)) : Regular actions where
  distinct := by
    have distinct := regular.distinct
    rw [upgrades_append] at distinct
    exact distinct.of_append_left
  few := by
    have few := regular.few
    rw [upgrades_append, List.length_append] at few
    omega
  outside c asked := regular.outside c (List.mem_append_left _ asked)

theorem allows (regular : Regular (actions ++ [a])) :
    ((start .live).run actions).relay.Allows a where
  fresh := by
    rintro h rfl member
    have distinct := regular.distinct
    rw [upgrades_append] at distinct
    rw [handles_run] at member
    exact List.disjoint_of_nodup_append distinct member (List.mem_singleton.mpr rfl)
  outside := by
    rintro c rfl
    exact regular.outside c (List.mem_append_right _ (List.mem_singleton.mpr rfl))
  few := by
    have size : ((start .live).run actions).relay.connections.length =
        (upgrades actions).length := by
      rw [← handles_run, handles, List.length_map]
    rw [size]
    exact regular.before.few

end Regular

/-- Only the connection at a place has a handle. -/
def Places (r : Relay) (h : Handle) (j : Nat) : Prop :=
  ∀ m c, r.connections[m]? = some c → (c.handle = h ↔ m = j)

/-- A connection has its place and its handle for itself through a whole run. -/
theorem places_run {earlier later : List Action} (regular : Regular (earlier ++ later)) {j : Nat}
    {c : Connection}
    (here : ((start .live).run (earlier ++ later)).relay.connections[j]? = some c) :
    ((start .live).run earlier).relay.Places c.handle j := by
  intro m d there
  have last : (upgrades (earlier ++ later))[j]? = some c.handle := by
    rw [← handles_run, handles, List.getElem?_map, here]
    rfl
  have first : (upgrades earlier)[m]? = some d.handle := by
    rw [← handles_run, handles, List.getElem?_map, there]
    rfl
  have kept : (upgrades (earlier ++ later))[m]? = some d.handle := by
    rw [upgrades_append, List.getElem?_append_left (List.getElem?_eq_some_iff.mp first).1, first]
  constructor
  · intro same
    apply (List.getElem?_inj (List.getElem?_eq_some_iff.mp kept).1 regular.distinct).mp
    rw [kept, last, same]
  · rintro rfl
    exact Option.some.inj (kept.symm.trans last)

/-- A live relay in which no two connections have one handle or one outbox, and numbers last. -/
structure Placed (r : Relay) : Prop where
  live : r.service = .live
  distinct : r.handles.Nodup
  apart : ∀ c ∈ r.connections, ∀ d ∈ r.connections, ∀ box,
    c.outbox = some box → d.outbox = some box → c.handle = d.handle
  made : ∀ c ∈ r.connections, ∀ box, c.outbox = some box → box < r.outboxes.next
  numbered : ∃ admitted, r.room.Numbered admitted ∧
    admitted + r.commands.countP (·.asksForSeat) ≤ r.connections.countP (·.hasStarted)

theorem placed_start : (start .live).Placed where
  live := rfl
  distinct := .nil
  apart := nofun
  made := nofun
  numbered := ⟨0, Room.numbered_empty, Nat.le_refl 0⟩

variable {r : Relay}

namespace Placed

/-- A connection is told by its handle. -/
theorem unique (placed : r.Placed) {c d : Connection} (here : c ∈ r.connections)
    (there : d ∈ r.connections) (same : c.handle = d.handle) : c = d :=
  List.inj_on_of_nodup_map placed.distinct here there same

theorem upgrade (placed : r.Placed) {h : Handle} (fresh : h ∉ r.handles) :
    ({ r with connections := r.connections ++ [.upgraded h r.now] } : Relay).Placed where
  live := placed.live
  distinct := by
    rw [handles, List.map_append]
    apply List.nodup_append.mpr
    refine ⟨placed.distinct, List.nodup_singleton _, ?_⟩
    rintro k member _ new rfl
    obtain rfl : k = h := List.mem_singleton.mp new
    exact fresh member
  apart c here d there box own same := by
    rcases List.mem_append.mp here with here | here
    · rcases List.mem_append.mp there with there | there
      · exact placed.apart c here d there box own same
      · rw [List.mem_singleton.mp there] at same
        cases same
    · rw [List.mem_singleton.mp here] at own
      cases own
  made c member box own := by
    rcases List.mem_append.mp member with old | new
    · exact placed.made c old box own
    · rw [List.mem_singleton.mp new] at own
      cases own
  numbered := by
    obtain ⟨admitted, numbered, few⟩ := placed.numbered
    refine ⟨admitted, numbered, few.trans ?_⟩
    rw [List.countP_append]
    exact Nat.le_add_right _ _

section Acts

variable {i : Nat} {c next : Connection} {a : Action} {sent : List Command} {after : Outboxes}

/-- After a connection acted, the others are there as they were. -/
theorem mem_set (placed : r.Placed) (here : r.connections[i]? = some c) {d : Connection}
    (member : d ∈ r.connections.set i next) :
    d = next ∨ d ∈ r.connections ∧ d.handle ≠ c.handle := by
  obtain ⟨below, rfl⟩ := List.getElem?_eq_some_iff.mp here
  obtain ⟨j, range, rfl⟩ := List.getElem_of_mem member
  rw [List.length_set] at range
  rw [List.getElem_set]
  split
  · exact .inl rfl
  · next different =>
    refine .inr ⟨List.getElem_mem range, fun same => different ?_⟩
    have alike := placed.unique (List.getElem_mem below) (List.getElem_mem range) same.symm
    exact placed.distinct.of_map.getElem_inj_iff.mp alike

/-- A connection that acts does not have the outbox of another one, before or after. -/
theorem other_outbox (placed : r.Placed) (here : r.connections[i]? = some c)
    (acts : c.Acts r.outboxes r.now i a next sent after) {d : Connection} (there : d ∈ r.connections)
    (other : d.handle ≠ c.handle) {box : OutboxId} (own : d.outbox = some box) :
    c.outbox ≠ some box ∧ next.outbox ≠ some box := by
  have apart : c.outbox ≠ some box := fun same =>
    other (placed.apart d there c (List.mem_of_getElem? here) box own same)
  refine ⟨apart, ?_⟩
  rcases acts.outbox_eq with ⟨kept, -⟩ | ⟨new, -⟩
  · rwa [kept]
  · rw [new]
    rintro ⟨⟩
    exact Nat.lt_irrefl _ (placed.made d there _ own)

theorem made_set (placed : r.Placed) (here : r.connections[i]? = some c)
    (acts : c.Acts r.outboxes r.now i a next sent after) {d : Connection}
    (member : d ∈ r.connections.set i next) {box : OutboxId} (own : d.outbox = some box) :
    box < after.next := by
  have present := List.mem_of_getElem? here
  rcases acts.outbox_eq with ⟨kept, size⟩ | ⟨new, size⟩ <;>
    rcases placed.mem_set here member with rfl | ⟨there, other⟩
  · rw [size]
    exact placed.made c present box (kept ▸ own)
  · rw [size]
    exact placed.made d there box own
  · cases new.symm.trans own
    rw [size]
    exact Nat.lt_succ_self _
  · rw [size]
    exact Nat.lt_succ_of_lt (placed.made d there box own)

theorem count_set (here : r.connections[i]? = some c)
    (acts : c.Acts r.outboxes r.now i a next sent after) :
    r.connections.countP (·.hasStarted) + sent.countP (·.asksForSeat) =
      (r.connections.set i next).countP (·.hasStarted) := by
  obtain ⟨below, rfl⟩ := List.getElem?_eq_some_iff.mp here
  have own := acts.count_sent
  have counted : r.connections[i].hasStarted.toNat ≤ r.connections.countP (·.hasStarted) := by
    cases started : r.connections[i].hasStarted with
    | false => exact Nat.zero_le _
    | true => exact List.countP_pos_iff.mpr ⟨_, List.getElem_mem below, started⟩
  have weight (b : Bool) : (if b = true then 1 else 0) = b.toNat := by cases b <;> rfl
  rw [List.countP_set below, weight, weight]
  omega

theorem acted (placed : r.Placed) (here : r.connections[i]? = some c)
    (acts : c.Acts r.outboxes r.now i a next sent after) :
    ({ r with
      outboxes := after
      commands := r.commands ++ sent
      connections := r.connections.set i next } : Relay).Placed where
  live := placed.live
  distinct := by
    rw [handles, handles_set here acts.handle_eq]
    exact placed.distinct
  apart d here' e there' box own same := by
    rcases placed.mem_set here here' with rfl | ⟨there, other⟩ <;>
      rcases placed.mem_set here there' with rfl | ⟨there₂, other₂⟩
    · rfl
    · exact absurd own (placed.other_outbox here acts there₂ other₂ same).2
    · exact absurd same (placed.other_outbox here acts there other own).2
    · exact placed.apart d there e there₂ box own same
  made d member box own := placed.made_set here acts member own
  numbered := by
    obtain ⟨admitted, numbered, few⟩ := placed.numbered
    refine ⟨admitted, numbered, ?_⟩
    rw [List.countP_append, ← count_set here acts]
    omega

end Acts

theorem passed (placed : r.Placed) (n : Nat) : ({ r with now := r.now + n } : Relay).Placed :=
  ⟨placed.live, placed.distinct, placed.apart, placed.made, placed.numbered⟩

theorem asked (placed : r.Placed) {c : Command} (outside : c.Outside) :
    ({ r with commands := r.commands ++ [c] } : Relay).Placed where
  live := placed.live
  distinct := placed.distinct
  apart := placed.apart
  made := placed.made
  numbered := by
    have modest : c.asksForSeat = false := by cases c <;> first | rfl | cases outside
    have counted : (r.commands ++ [c]).countP (·.asksForSeat) =
        r.commands.countP (·.asksForSeat) := by
      simp [modest]
    exact counted ▸ placed.numbered

section Serve

variable {x : Command} {rest : List Command}

/-- When a command is applied, the room goes on to give numbers in order. -/
theorem numbered_served (placed : r.Placed) (first : r.commands = x :: rest)
    (few : r.connections.length < UInt64.size) : ∃ admitted, r.room.Numbered admitted ∧
      (r.room.apply r.outboxes x).room.Numbered (admitted + (r.room.deed x).admits.toNat) ∧
      admitted + (r.room.deed x).admits.toNat + rest.countP (·.asksForSeat) ≤
        r.connections.countP (·.hasStarted) := by
  obtain ⟨admitted, numbered, counted⟩ := placed.numbered
  have started := List.countP_le_length (p := (·.hasStarted)) (l := r.connections)
  have admits : (r.room.deed x).admits.toNat ≤ x.asksForSeat.toNat := by
    have answers := Room.answers_deed numbered.consistent x
    cases happened : r.room.deed x with
    | admitted k s =>
      rw [happened] at answers
      cases answers
      exact Nat.le_refl 1
    | _ => exact Nat.zero_le _
  have split : r.commands.countP (·.asksForSeat) =
      rest.countP (·.asksForSeat) + x.asksForSeat.toNat := by
    rw [first, List.countP_cons]
    cases x.asksForSeat <;> rfl
  refine ⟨admitted, numbered, ?_, by omega⟩
  rw [(r.room.performs_apply r.outboxes x).room]
  exact numbered.does (r.room.fits_deed x) (by omega)

theorem served (placed : r.Placed) (first : r.commands = x :: rest)
    (few : r.connections.length < UInt64.size) :
    ({ r with
      room := (r.room.apply r.outboxes x).room
      outboxes := (r.room.apply r.outboxes x).outboxes
      commands := rest } : Relay).Placed where
  live := placed.live
  distinct := placed.distinct
  apart := placed.apart
  made c member box own := by
    have made := placed.made c member box own
    rwa [(Prod.mk.inj (sent_apply r x)).1, Outboxes.next_dispatch]
  numbered := by
    obtain ⟨admitted, -, numbered, counted⟩ := placed.numbered_served first few
    exact ⟨_, numbered, counted⟩

end Serve

/-- Connections keep to themselves in every step. -/
theorem step (placed : r.Placed) {a : Action} {next : Relay} {offers : List Offer}
    (steps : r.Steps a next offers) (allowed : r.Allows a) : next.Placed := by
  cases steps with
  | idle => exact placed
  | upgraded h => exact placed.upgrade (allowed.fresh h rfl)
  | acted here acts => exact placed.acted here acts
  | asked c => exact placed.asked (allowed.outside c rfl)
  | passed n => exact placed.passed n
  | served first => exact placed.served first allowed.few

end Placed

/-- What holds somewhere in a regular run and is kept by every step holds as the run goes on. -/
theorem run_invariant {P : Relay → List Offer → Prop}
    (kept : ∀ r a next offers more, P r offers → r.Steps a next more → r.Allows a →
      P next (offers ++ more))
    (actions more : List Action) (regular : Regular (actions ++ more))
    (holds : P ((start .live).run actions).relay ((start .live).run actions).offers) :
    P ((start .live).run (actions ++ more)).relay ((start .live).run (actions ++ more)).offers := by
  induction more using List.reverseRecOn with
  | nil => rwa [List.append_nil]
  | append_singleton more a ih =>
    rw [← List.append_assoc] at regular ⊢
    obtain ⟨new, steps, sent⟩ := steps_concat (actions ++ more) a
    rw [sent]
    exact kept _ _ _ _ _ (ih regular.before) steps regular.allows

/-- The relay after a regular run keeps connections apart. -/
theorem placed_run {actions : List Action} (regular : Regular actions) :
    ((start .live).run actions).relay.Placed := by
  refine run_invariant (P := fun r _ => r.Placed) ?_ [] actions regular placed_start
  intro r a next offers more placed steps allowed
  exact placed.step steps allowed

end Relay

end LiveRelay
