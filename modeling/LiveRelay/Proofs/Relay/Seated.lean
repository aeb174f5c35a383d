import Mathlib.Data.List.Nodup
import LiveRelay.Proofs.Relay.Steady

/-! # Who is seated

Once nothing is on its way any more, the connections that have a seat are exactly those that run. A
connection that was ordered to stop never sits again, so its leave may come as late as it will.
-/

namespace LiveRelay

theorem HandleSource.nodup_takeMany (s : HandleSource) {n : Nat} (few : n ≤ UInt64.size) :
    (s.takeMany n).Nodup := by
  have listed : s.takeMany n = (List.range n).map fun i => s.next + UInt64.ofNat i := by
    apply List.ext_getElem?
    intro i
    by_cases below : i < n
    · rw [s.getElem?_takeMany below]
      simp [below]
    · have past : n ≤ i := Nat.le_of_not_lt below
      rw [List.getElem?_eq_none (by rwa [s.length_takeMany]), List.getElem?_eq_none (by simpa using past)]
  rw [listed]
  refine List.Nodup.map_on ?_ List.nodup_range
  intro i here j there same
  have least := List.mem_range.mp here
  have most := List.mem_range.mp there
  have words : UInt64.ofNat i = UInt64.ofNat j := (UInt64.add_right_inj s.next).mp same
  rwa [← UInt64.toNat_inj, UInt64.toNat_ofNat_of_lt' (by omega),
    UInt64.toNat_ofNat_of_lt' (by omega)] at words

namespace Relay

/-- A relay in which nothing is on its way. -/
structure Quiet (r : Relay) : Prop where
  commands : r.commands = []
  outboxes : ∀ box o, r.outboxes.get? box = some o → o.events = []
  connections : ∀ c ∈ r.connections, c.inFlight = none

variable {r : Relay} {offers : List Offer} {h : Handle}

namespace Steady

/-- A connection that was told to stop has no seat. -/
theorem unseated_of_told (steady : r.Steady offers) (told : Told offers h) :
    r.room.seating.seat? h = none := by
  cases found : r.room.seating.seat? h with
  | none => rfl
  | some s =>
    obtain ⟨c, present, rfl, -⟩ := steady.present_of_seat found
    have standing := steady.standing c present
    rw [found] at standing
    exact absurd told standing.of_seat.2

/-- The leave of a connection that was told to stop changes nothing. -/
theorem late_leave (steady : r.Steady offers) {rest : List Command}
    (first : r.commands = .disconnect h :: rest) (told : Told offers h) :
    (r.step .serve).relay.room = r.room := by
  have nothing : r.room.deed (.disconnect h) = .nothing := by
    rw [Room.deed, steady.unseated_of_told told, Option.elim_none]
  have performs := r.room.performs_apply r.outboxes (.disconnect h)
  rw [nothing] at performs
  have live := steady.placed.live
  simp only [Relay.step, serve, first, live]
  exact performs.room

/-- When nothing is on its way, whoever has a seat runs, and whoever runs has a seat. -/
theorem seated_iff (steady : r.Steady offers) (quiet : r.Quiet) :
    (∃ s, r.room.seating.seat? h = some s) ↔
      ∃ c ∈ r.connections, c.handle = h ∧ c.phase = .running := by
  constructor
  · rintro ⟨s, found⟩
    obtain ⟨c, present, rfl, -⟩ := steady.present_of_seat found
    have standing := steady.standing c present
    rw [found, quiet.commands, calls, List.filter_nil] at standing
    cases standing with
    | seated runs unordered untold => exact ⟨c, present, rfl, runs.running⟩
  · rintro ⟨c, present, rfl, running⟩
    have standing := steady.standing c present
    rw [quiet.commands, calls, List.filter_nil] at standing
    obtain ⟨box, runs, ⟨-, -, -, silent⟩ | ⟨-, -, ⟨s, sits, -⟩, -⟩ | ⟨ordered, -, -⟩⟩ :=
      standing.of_running running
    · cases silent
    · exact ⟨s, sits⟩
    · rcases ordered with ⟨e, flying, -⟩ | ⟨box, -, o, held, e, member, -⟩
      · cases flying.symm.trans (quiet.connections c present)
      · rw [quiet.outboxes box o held] at member
        cases member

end Steady

/-- A live relay whose connections have handles of their own is steady after every run in which no
order to stop found an outbox full. -/
theorem steady_run {actions : List Action} (regular : Regular actions)
    (taken : ∀ o ∈ ((start .live).run actions).offers, o.event.Dismisses → o.verdict ≠ .full) :
    ((start .live).run actions).relay.Steady ((start .live).run actions).offers := by
  refine run_invariant
    (P := fun r offers => (∀ o ∈ offers, o.event.Dismisses → o.verdict ≠ .full) → r.Steady offers)
    ?_ [] actions regular (fun _ => steady_start) taken
  intro r a next offers more steady steps allowed taken
  exact (steady fun o offered => taken o (List.mem_append_left _ offered)).step steps
    allowed fun o offered => taken o (List.mem_append_right _ offered)

/-- In a run in which handles are given once and no order to stop is lost, those who are seated when
nothing is on its way are exactly those who run, and a leave that comes after an order to stop
unseats nobody. -/
theorem seated_iff_running (actions : List Action) (n : Nat) (few : n < UInt64.size)
    (given : (upgrades actions).Subperm (HandleSource.start.takeMany n))
    (outside : ∀ c, .ask c ∈ actions → c.Outside)
    (taken : ∀ o ∈ ((start .live).run actions).offers, o.event.Dismisses → o.verdict ≠ .full) :
    let e := (start .live).run actions
    (e.relay.Quiet → ∀ h, (∃ s, e.relay.room.seating.seat? h = some s) ↔
      ∃ c ∈ e.relay.connections, c.handle = h ∧ c.phase = .running) ∧
    ∀ h rest, e.relay.commands = .disconnect h :: rest → Told e.offers h →
      (e.relay.step .serve).relay.room = e.relay.room := by
  intro e
  have distinct : (upgrades actions).Nodup := by
    obtain ⟨handles, same, some⟩ := given
    exact same.nodup_iff.mp ((HandleSource.start.nodup_takeMany few.le).sublist some)
  have length : (upgrades actions).length ≤ n := by
    have le := given.length_le
    rwa [HandleSource.length_takeMany] at le
  have steady := steady_run ⟨distinct, by omega, outside⟩ taken
  exact ⟨fun quiet h => steady.seated_iff quiet,
    fun h rest first told => steady.late_leave first told⟩

/-- Two connections are seated, and one of them is removed while its client leaves. -/
def crossedRun : List Action :=
  [.upgrade 0, .upgrade 1, .start 0, .start 1, .serve, .serve, .ask (.kick 0), .receive 0 .ended,
    .serve]

/-- The leave comes after the removal, and what is left in the outboxes is taken out of them. -/
def calmRun : List Action :=
  crossedRun ++ [.serve, .forward 0, .forward 1, .deliver 1, .forward 1, .deliver 1]

/-- The late leave changes nothing, and the other connection is the only one that is seated. -/
theorem seated_iff_running_crossed :
    let crossed := ((start .live).run crossedRun).relay
    let calm := ((start .live).run calmRun).relay
    (crossed.step .serve).relay.room = crossed.room ∧
      ((∃ s, calm.room.seating.seat? 0 = some s) ↔ ∃ c ∈ calm.connections,
        c.handle = 0 ∧ c.phase = .running) ∧
      ∃ s, calm.room.seating.seat? 1 = some s := by
  have few : 2 < UInt64.size := by decide
  have outside : ∀ c, Action.ask c ∈ calmRun → c.Outside := by
    intro c member
    simp only [calmRun, crossedRun, List.cons_append, List.nil_append, List.mem_cons,
      Action.ask.injEq, List.not_mem_nil, or_false, reduceCtorEq, false_or] at member
    rw [member]
    trivial
  have taken : ∀ o ∈ ((start .live).run calmRun).offers,
      o.event.Dismisses → o.verdict ≠ .full := by decide +kernel
  have quiet : ((start .live).run calmRun).relay.Quiet := by
    refine ⟨rfl, ?_, by decide +kernel⟩
    intro box o found
    match box, found with
    | 0, rfl => rfl
    | 1, rfl => rfl
  have calm := seated_iff_running calmRun 2 few (List.Perm.refl _).subperm outside taken
  have crossed := seated_iff_running crossedRun 2 few (List.Perm.refl _).subperm
    (fun c member => outside c (List.mem_append_left _ member)) (by decide +kernel)
  refine ⟨crossed.2 0 [] rfl ?_, calm.1 quiet 0, ?_⟩
  · decide +kernel
  · apply (calm.1 quiet 1).mpr
    decide +kernel

end Relay

end LiveRelay
