import LiveRelay.Proofs.Relay.Passage

/-! # Signs of life

When a client was heard last matters to nothing but the beats of its connection, and there only if
it has been silent for too long. So what is nothing but a sign of life may be left out of a run, as
long as no beat misses it.
-/

namespace LiveRelay

/-- A reaction of a connection whose client was heard at another time. -/
def Reaction.hear (r : Reaction) (time : Nat) : Reaction :=
  { r with connection := r.connection.hear time }

namespace Connection

variable {c : Connection} {alive : Bool} {now time : Nat}

theorem stop_hear (c : Connection) (alive : Bool) (time : Nat) :
    (c.hear time).stop alive = (c.stop alive).hear time := by
  cases dismissed : c.dismissed <;> cases alive <;>
    simp [stop, hear, write, idle, Reaction.hear, dismissed]

theorem heardAt_stop (c : Connection) (alive : Bool) :
    (c.stop alive).connection.heardAt = c.heardAt := by
  rw [stop]
  split
  · rfl
  · split <;> rfl

theorem stopWith_hear (c : Connection) (alive : Bool) (notice : ConnectionNotice) (time : Nat) :
    (c.hear time).stopWith alive notice = (c.stopWith alive notice).hear time := by
  rw [stopWith, stop_hear]
  rfl

theorem heardAt_stopWith (c : Connection) (alive : Bool) (notice : ConnectionNotice) :
    (c.stopWith alive notice).connection.heardAt = c.heardAt :=
  heardAt_stop c alive

/-- A client that was heard last at a later time is in time whenever it would be in time. -/
theorem isLate_hear (early : c.heardAt ≤ time) (intime : ¬ c.isLate now) :
    ¬ (c.hear time).isLate now := by
  intro late
  have silent : clientTimeout < now - time := of_decide_eq_true late
  exact intime (decide_eq_true (silent.trans_le (Nat.sub_le_sub_left early now)))

theorem start_hear (early : c.heardAt ≤ time) (alive : Bool) (box : OutboxId) :
    (c.start alive box).connection.heardAt ≤ time ∧
      (c.hear time).start alive box = (c.start alive box).hear time := by
  rw [start, start]
  split
  · exact ⟨early, rfl⟩
  · rw [heardAt_stopWith]
    let started : Connection := { c with phase := .running, outbox := some box }
    exact ⟨early, started.stopWith_hear alive _ time⟩

theorem receive_hear (early : c.heardAt ≤ time) (alive : Bool) (now : Nat) (x : Inbound) :
    ∃ later, (c.receive alive now x).connection.heardAt ≤ later ∧
      (c.hear time).receive alive now x = (c.receive alive now x).hear later := by
  cases x with
  | text | ping | pong => exact ⟨_, le_rfl, rfl⟩
  | binary | continuation | nop => exact ⟨time, early, rfl⟩
  | close reason => exact ⟨time, by rwa [receive, heardAt_stop], stop_hear (c.write _) _ _⟩
  | broken e => exact ⟨time, by rwa [receive, heardAt_stopWith], stopWith_hear _ _ _ _⟩
  | ended | vanished => exact ⟨time, by rwa [receive, heardAt_stop], stop_hear _ _ _⟩

theorem emit_hear (early : c.heardAt ≤ time) (alive : Bool) (e : Event) :
    (c.emit alive e).connection.heardAt ≤ time ∧
      (c.hear time).emit alive e = (c.emit alive e).hear time := by
  cases e with
  | message m => exact ⟨early, rfl⟩
  | dismissal reason =>
    let dismissed : Connection := { c with dismissed := true }
    refine ⟨?_, (dismissed.write _).stop_hear alive time⟩
    rwa [emit, heardAt_stop]

/-- A connection reacts to everything in the same way whenever its client was heard last, unless it
misses a sign of life. -/
theorem react_hear (early : c.heardAt ≤ time) (alive : Bool) (now : Nat) (x : Stimulus)
    (intime : x = .beat → c.phase = .running → ¬ c.isLate now) :
    ∃ later, (c.react alive now x).connection.heardAt ≤ later ∧
      (c.hear time).react alive now x = (c.react alive now x).hear later := by
  have guarded {phase : Phase} {here there : Reaction}
      (alike : c.phase = phase → ∃ later, here.connection.heardAt ≤ later ∧ there = here.hear later) :
      ∃ later, (if c.phase = phase then here else c.idle).connection.heardAt ≤ later ∧
        (if c.phase = phase then there else (c.hear time).idle) =
          (if c.phase = phase then here else c.idle).hear later := by
    by_cases same : c.phase = phase
    · rw [if_pos same, if_pos same]
      exact alike same
    · rw [if_neg same, if_neg same]
      exact ⟨time, early, rfl⟩
  cases x with
  | start box => exact guarded fun _ => ⟨time, start_hear early alive box⟩
  | client x => exact guarded fun _ => receive_hear early alive now x
  | event e => exact guarded fun _ => ⟨time, emit_hear early alive e⟩
  | beat =>
    apply guarded
    intro running
    have intime := intime rfl running
    rw [beat, beat, if_neg intime, if_neg (isLate_hear early intime)]
    exact ⟨time, early, rfl⟩

end Connection

namespace Relay

/-- A relay in which the client of the connection at a place was heard at another time. -/
def hearAt (r : Relay) (i time : Nat) : Relay :=
  { r with connections := r.connections.modify i (·.hear time) }

/-- A step in which the connection at a place stops because its client has been silent for too long.
-/
def TimesOut (r : Relay) (i : Nat) (a : Action) : Prop :=
  a = .beat i ∧ ∃ c, r.connections[i]? = some c ∧ c.phase = .running ∧ c.isLate r.now

/-- The client of the connection at a place was heard last at some time, or before. -/
def HeardBy (r : Relay) (i time : Nat) : Prop :=
  ∃ c, r.connections[i]? = some c ∧ c.heardAt ≤ time

/-- A connection at its place in a relay in which one client was heard at another time. -/
def heardIn (i time j : Nat) (c : Connection) : Connection :=
  c.hear (if j = i then time else c.heardAt)

variable {r : Relay} {i j time : Nat} {a : Action} {c : Connection}

theorem heardIn_self (i time : Nat) (c : Connection) : heardIn i time i c = c.hear time := by
  rw [heardIn, if_pos rfl]

theorem heardIn_other (other : j ≠ i) (c : Connection) : heardIn i time j c = c := by
  rw [heardIn, if_neg other]
  rfl

theorem connection_hearAt (r : Relay) (i time j : Nat) :
    (r.hearAt i time).connections[j]? = r.connections[j]?.map (heardIn i time j) := by
  have each : (fun c : Connection => if i = j then c.hear time else c) = heardIn i time j := by
    funext c
    split
    · next same => rw [← same, heardIn_self]
    · next other => rw [heardIn_other (Ne.symm other)]
  rw [hearAt, List.getElem?_modify, each]
  rfl

theorem set_hearAt (r : Relay) (i time j : Nat) (c : Connection) :
    (r.hearAt i time).connections.set j (heardIn i time j c) =
      (r.connections.set j c).modify i (·.hear time) := by
  apply List.ext_getElem?
  intro k
  have changed := connection_hearAt { r with connections := r.connections.set j c } i time k
  rw [hearAt] at changed
  rw [changed, List.getElem?_set, List.getElem?_set, connection_hearAt]
  by_cases same : j = k <;> simp [same, hearAt]

theorem set_self_hearAt (r : Relay) (i time : Nat) (c : Connection) :
    (r.hearAt i time).connections.set i c = r.connections.set i c := by
  apply List.ext_getElem?
  intro k
  rw [List.getElem?_set, List.getElem?_set, connection_hearAt]
  by_cases same : i = k
  · simp [same, hearAt]
  · have alike : heardIn i time k = id := funext (heardIn_other (Ne.symm same))
    simp [same, alike]

/-- Every relay is one in which a client was heard at some time. -/
theorem exists_eq_hearAt (r : Relay) (i : Nat) : ∃ time, r = r.hearAt i time := by
  cases here : r.connections[i]? with
  | none =>
    have same := List.modify_eq_self (f := (·.hear 0)) (List.getElem?_eq_none_iff.mp here)
    exact ⟨0, by rw [hearAt, same]⟩
  | some c =>
    refine ⟨c.heardAt, ?_⟩
    have same := List.modify_eq_set_getElem? (·.hear c.heardAt) i r.connections
    rw [here] at same
    rw [hearAt, same]
    exact congrArg (fun connections => { r with connections := connections })
      (set_self here).symm

theorem HeardBy.set (heard : r.HeardBy i time) (early : j = i → c.heardAt ≤ time) :
    ∃ d, (r.connections.set j c)[i]? = some d ∧ d.heardAt ≤ time := by
  obtain ⟨d, here, before⟩ := heard
  by_cases same : j = i
  · subst same
    exact ⟨c, List.getElem?_set_self (List.getElem?_eq_some_iff.mp here).1, early rfl⟩
  · exact ⟨d, (List.getElem?_set_ne same).trans here, before⟩

theorem heardAt_le_of_acts {now : Nat} {b after : Outboxes} {next : Connection}
    {sent : List Command} (acts : c.Acts b now j a next sent after) (timely : c.heardAt ≤ now) :
    next.heardAt ≤ now := by
  cases acts with
  | heard written time running unsaid same heard =>
    rcases heard with rfl | rfl
    · exact timely
    · exact le_rfl
  | said => exact le_rfl
  | started | quit | pinged | timedOut | took | wrote | obeyed | dropped | lost => exact timely

/-- Nobody was heard in the future. -/
theorem heardAt_le_now {actions : List Action}
    (member : c ∈ ((start .live).run actions).relay.connections) :
    c.heardAt ≤ ((start .live).run actions).relay.now := by
  induction actions using List.reverseRecOn generalizing c with
  | nil => cases member
  | append_singleton actions a ih =>
    obtain ⟨offers, steps, -⟩ := steps_concat actions a
    generalize ((start .live).run (actions ++ [a])).relay = next at steps member ⊢
    cases steps with
    | idle | asked | served => exact ih member
    | passed n => exact (ih member).trans (Nat.le_add_right _ n)
    | upgraded h =>
      rcases List.mem_append.mp member with old | new
      · exact ih old
      · rw [List.mem_singleton.mp new]
        exact le_rfl
    | acted here acts =>
      rcases List.mem_or_eq_of_mem_set member with old | rfl
      · exact ih old
      · exact heardAt_le_of_acts acts (ih (List.mem_of_getElem? here))

/-- A connection that hears of something moves the relays alike, unless it misses a sign of life. -/
theorem react_hearAt (heard : r.HeardBy i time) (early : j = i → c.heardAt ≤ time) (x : Stimulus)
    (intime : x = .beat → j = i → c.phase = .running → ¬ c.isLate r.now) :
    ∃ later, (r.react j c x).relay.HeardBy i later ∧
      ((r.hearAt i time).react j (heardIn i time j c) x).relay =
        (r.react j c x).relay.hearAt i later := by
  have alive : (r.hearAt i time).takesCommands = r.takesCommands := rfl
  have now : (r.hearAt i time).now = r.now := rfl
  by_cases same : j = i
  · subst same
    obtain ⟨later, before, alike⟩ :=
      c.react_hear (early rfl) r.takesCommands r.now x fun beat => intime beat rfl
    refine ⟨later, ?_, ?_⟩
    · obtain ⟨d, here, -⟩ := heard
      exact ⟨_, List.getElem?_set_self (List.getElem?_eq_some_iff.mp here).1, before⟩
    · have put := r.set_hearAt j later j (c.react r.takesCommands r.now x).connection
      rw [heardIn_self, set_self_hearAt] at put
      rw [heardIn_self]
      simp only [react, alive, now, alike, Reaction.hear, set_self_hearAt, put]
      rfl
  · have put := r.set_hearAt i time j (c.react r.takesCommands r.now x).connection
    rw [heardIn_other same] at put ⊢
    refine ⟨time, heard.set fun mine => absurd mine same, ?_⟩
    simp only [react, alive, now, put]
    rfl

theorem forward_hearAt (heard : r.HeardBy i time) (early : j = i → c.heardAt ≤ time) :
    (r.forward j c).relay.HeardBy i time ∧
      ((r.hearAt i time).forward j (heardIn i time j c)).relay =
        (r.forward j c).relay.hearAt i time := by
  have outboxes : (r.hearAt i time).outboxes = r.outboxes := rfl
  have own : (heardIn i time j c).outbox = c.outbox := rfl
  have flying : (heardIn i time j c).inFlight = c.inFlight := rfl
  have phase : (heardIn i time j c).phase = c.phase := rfl
  have put (e : Event) := r.set_hearAt i time j { c with inFlight := some e }
  simp only [forward, outboxes, own, flying, phase]
  split
  · split
    · exact ⟨heard, rfl⟩
    · split
      · exact ⟨heard, rfl⟩
      · next e _ _ =>
        split
        · refine ⟨heard.set (c := { c with inFlight := some e }) early, ?_⟩
          simp only [idle, hearAt, ← put e]
          rfl
        · exact ⟨heard, rfl⟩
  · exact ⟨heard, rfl⟩

theorem deliver_hearAt (heard : r.HeardBy i time) (early : j = i → c.heardAt ≤ time) :
    ∃ later, (r.deliver j c).relay.HeardBy i later ∧
      ((r.hearAt i time).deliver j (heardIn i time j c)).relay =
        (r.deliver j c).relay.hearAt i later := by
  have flying : (heardIn i time j c).inFlight = c.inFlight := rfl
  have phase : (heardIn i time j c).phase = c.phase := rfl
  have put := r.set_hearAt i time j { c with inFlight := none }
  simp only [deliver, flying, phase]
  split
  · exact ⟨time, heard, rfl⟩
  · split
    · exact react_hearAt (c := { c with inFlight := none }) heard early _ (by simp)
    · refine ⟨time, heard.set (c := { c with inFlight := none }) early, ?_⟩
      simp only [idle, hearAt, ← put]
      rfl

/-- A step moves the relays alike, unless the connection misses a sign of life. -/
theorem step_hearAt (heard : r.HeardBy i time) (a : Action) (intime : ¬ r.TimesOut i a) :
    ∃ later, (r.step a).relay.HeardBy i later ∧
      ((r.hearAt i time).step a).relay = (r.step a).relay.hearAt i later := by
  have idle : r.idle.relay.HeardBy i time ∧
      (r.hearAt i time).idle.relay = r.idle.relay.hearAt i time := ⟨heard, rfl⟩
  have early {j : Nat} {c : Connection} (here : r.connections[j]? = some c) :
      j = i → c.heardAt ≤ time := by
    rintro rfl
    obtain ⟨d, there, before⟩ := heard
    cases here.symm.trans there
    exact before
  cases a with
  | upgrade h =>
    obtain ⟨c, here, before⟩ := heard
    have below := (List.getElem?_eq_some_iff.mp here).1
    refine ⟨time, ⟨c, (List.getElem?_append_left below).trans here, before⟩, ?_⟩
    have put : (r.connections ++ [Connection.upgraded h r.now]).modify i (·.hear time) =
        r.connections.modify i (·.hear time) ++ [Connection.upgraded h r.now] := by
      rw [List.modify_eq_set_getElem?, List.modify_eq_set_getElem?,
        List.getElem?_append_left below, here]
      exact List.set_append_left _ _ below
    simp only [step, hearAt, put]
  | start j =>
    rw [step, step, connection_hearAt]
    cases here : r.connections[j]? with
    | none => exact ⟨time, idle⟩
    | some c =>
      have phase : (heardIn i time j c).phase = c.phase := rfl
      simp only [Option.map_some, phase]
      split
      · exact react_hearAt (r := { r with outboxes := r.outboxes.add (.empty Outbox.usualCapacity) })
          heard (early here) _ (by simp)
      · exact ⟨time, idle⟩
  | receive j x =>
    rw [step, step, connection_hearAt]
    cases here : r.connections[j]? with
    | none => exact ⟨time, idle⟩
    | some c => exact react_hearAt heard (early here) _ (by simp)
  | forward j =>
    rw [step, step, connection_hearAt]
    cases here : r.connections[j]? with
    | none => exact ⟨time, idle⟩
    | some c => exact ⟨time, forward_hearAt heard (early here)⟩
  | deliver j =>
    rw [step, step, connection_hearAt]
    cases here : r.connections[j]? with
    | none => exact ⟨time, idle⟩
    | some c => exact deliver_hearAt heard (early here)
  | beat j =>
    rw [step, step, connection_hearAt]
    cases here : r.connections[j]? with
    | none => exact ⟨time, idle⟩
    | some c =>
      refine react_hearAt heard (early here) _ fun _ same running late => intime ?_
      exact ⟨same ▸ rfl, c, same ▸ here, running, late⟩
  | serve =>
    have commands : (r.hearAt i time).commands = r.commands := rfl
    have service : (r.hearAt i time).service = r.service := rfl
    simp only [step, serve, commands, service]
    split
    · exact ⟨time, idle⟩
    · split <;> exact ⟨time, heard, rfl⟩
  | ask x =>
    have alive : (r.hearAt i time).takesCommands = r.takesCommands := rfl
    rw [step, step, alive]
    split
    · exact ⟨time, heard, rfl⟩
    · exact ⟨time, idle⟩
  | pass n => exact ⟨time, heard, rfl⟩

/-- Whether a change is read does not depend on when the client was heard last. -/
theorem spoken?_hearAt (r : Relay) (i time j : Nat) (a : Action) :
    (r.hearAt i time).spoken? j a = r.spoken? j a := by
  have running : (r.hearAt i time).connections[j]?.any (·.phase = .running) =
      r.connections[j]?.any (·.phase = .running) := by
    rw [connection_hearAt]
    cases r.connections[j]? <;> rfl
  cases a with
  | receive m x => rw [spoken?, spoken?, running]
  | _ => rfl

/-- The changes that the connection at a place reads from here on. -/
def speaks (r : Relay) (j : Nat) (more : List Action) : List Change :=
  (r.moments more).filterMap fun m => m.1.spoken? j m.2

theorem speaks_cons (r : Relay) (j : Nat) (a : Action) (more : List Action) :
    r.speaks j (a :: more) = (r.spoken? j a).toList ++ (r.step a).relay.speaks j more := by
  rw [speaks, moments, List.filterMap_cons]
  cases r.spoken? j a <;> rfl

theorem spoken_append (j : Nat) (earlier later : List Action) :
    spoken j (earlier ++ later) =
      spoken j earlier ++ ((start .live).run earlier).relay.speaks j later := by
  rw [spoken, moments_append, List.filterMap_append]
  rfl

/-- A connection that has stopped stays so. -/
theorem stopped_step (live : r.service = .live) (here : r.connections[i]? = some c)
    (stopped : c.phase = .stopped) (a : Action) :
    ∃ d, (r.step a).relay.connections[i]? = some d ∧ d.phase = .stopped := by
  have steps := steps_step live a
  generalize (r.step a).relay = next, (r.step a).offers = offers at steps ⊢
  have below := (List.getElem?_eq_some_iff.mp here).1
  cases steps with
  | idle | asked | passed | served => exact ⟨c, here, stopped⟩
  | upgraded h => exact ⟨c, (List.getElem?_append_left below).trans here, stopped⟩
  | @acted m d after _ sent b there acts =>
    by_cases same : m = i
    · subst same
      cases here.symm.trans there
      exact ⟨after, List.getElem?_set_self below, acts.stays_stopped stopped⟩
    · exact ⟨c, (List.getElem?_set_ne same).trans here, stopped⟩

/-- A connection that has stopped reads nothing. -/
theorem speaks_of_stopped (live : r.service = .live) (here : r.connections[i]? = some c)
    (stopped : c.phase = .stopped) (more : List Action) : r.speaks i more = [] := by
  induction more generalizing r c with
  | nil => rfl
  | cons a more ih =>
    have silent : r.spoken? i a = none := by
      cases a with
      | receive m x => simp [spoken?, here, stopped]
      | _ => rfl
    obtain ⟨d, there, still⟩ := stopped_step live here stopped a
    rw [speaks_cons, silent, ih (service_steps live (steps_step live a)) there still]
    rfl

/-- A connection that misses a sign of life has stopped then. -/
theorem stopped_of_timesOut (live : r.service = .live) (out : r.TimesOut i a) :
    ∃ c, (r.step a).relay.connections[i]? = some c ∧ c.phase = .stopped := by
  obtain ⟨rfl, c, here, running, late⟩ := out
  refine ⟨(c.react true r.now .beat).connection, ?_, ?_⟩
  · simp only [step, here, react_eq live]
    exact List.getElem?_set_self (List.getElem?_eq_some_iff.mp here).1
  · rw [Connection.react, if_pos running, Connection.beat, if_pos late, Connection.stopWith,
      Connection.stop_eq]

/-- Whoever was heard later reads on at least as long. -/
theorem speaks_hearAt (live : r.service = .live) (heard : r.HeardBy i time)
    (more : List Action) : r.speaks i more <+: (r.hearAt i time).speaks i more := by
  induction more generalizing r time with
  | nil => exact List.prefix_rfl
  | cons a more ih =>
    rw [speaks_cons, speaks_cons, spoken?_hearAt, List.prefix_append_right_inj]
    have lives := service_steps live (steps_step live a)
    by_cases out : r.TimesOut i a
    · obtain ⟨c, here, stopped⟩ := stopped_of_timesOut live out
      rw [speaks_of_stopped lives here stopped]
      exact List.nil_prefix
    · obtain ⟨later, heard, same⟩ := step_hearAt heard a out
      rw [same]
      exact ih lives heard

/-- A run goes on alike whenever a client was heard last, unless its connection misses a sign of
life. -/
theorem run_hearAt (heard : r.HeardBy i time) (more : List Action)
    (intime : ∀ before a after, more = before ++ a :: after →
      ¬ (r.run before).relay.TimesOut i a) :
    (r.hearAt i time).speaks i more = r.speaks i more ∧
      ∃ later, ((r.hearAt i time).run more).relay = (r.run more).relay.hearAt i later := by
  induction more generalizing r time with
  | nil => exact ⟨rfl, time, rfl⟩
  | cons a more ih =>
    obtain ⟨later, heard, same⟩ := step_hearAt heard a (intime [] a more rfl)
    obtain ⟨speaks, last, runs⟩ := ih heard fun before b after cut => by
      have intime := intime (a :: before) b after (by rw [cut, List.cons_append])
      rwa [run_cons] at intime
    refine ⟨?_, last, ?_⟩
    · rw [speaks_cons, speaks_cons, spoken?_hearAt, same, speaks]
    · rw [run_cons, run_cons, same, runs]

end Relay
end LiveRelay
