import LiveRelay.Proofs.Session.Settled

/-! # One outbox and the rest of a session

How long an outbox is and what happens at its far end matters to nobody else. If two runs differ in
that alone, then everything but this outbox is the same in both after every happening, and so is what
the outbox is offered. What comes out of an outbox was offered to it, in this order.
-/

namespace LiveRelay

namespace Happening

/-- Whether something happens at the far end of an outbox. -/
def atFarEnd (box : OutboxId) : Happening → Bool
  | .take i _ | .close i | .drop i => i == box
  | _ => false

/-- How many outboxes a happening makes. -/
def makes : Happening → Nat
  | .connect _ _ | .make _ => 1
  | _ => 0

/-- A happening that makes an outbox makes it of the usual length if it is the one in question. -/
def resized (box next : OutboxId) : Happening → Happening
  | .connect h capacity => .connect h (if next = box then Outbox.usualCapacity else capacity)
  | .make capacity => .make (if next = box then Outbox.usualCapacity else capacity)
  | x => x

end Happening

/-- What is left of a run if one outbox is left alone at its far end and has the usual length. The
next outbox that is made gets the number `next`. -/
def purge (box : OutboxId) : OutboxId → List Happening → List Happening
  | _, [] => []
  | next, x :: xs =>
    (if x.atFarEnd box then [] else [x.resized box next]) ++ purge box (next + x.makes) xs

/-- What is seen of a session after something happened if one outbox is not looked at. -/
structure View where
  reply : Reply
  room : Room
  others : OutboxId → Option Outbox

/-- The view of an outcome without an outbox. -/
def Outcome.view (box : OutboxId) (out : Outcome) : View :=
  ⟨out.reply, out.room, fun i => if i = box then none else out.outboxes.get? i⟩

namespace Session

/-- What is seen of a run without an outbox, and without what happens at its far end. -/
def views (s : Session) (xs : List Happening) (box : OutboxId) : List View :=
  ((s.moments xs).filter fun m => !m.2.atFarEnd box).map fun m => (m.1.step m.2).view box

/-- The events that a happening takes out of an outbox. -/
def taken (s : Session) (x : Happening) (box : OutboxId) : List Event :=
  match x, (s.step x).reply with
  | .take i _, .events es => if i = box then es else []
  | _, _ => []

/-- The events that came out of an outbox in a run. -/
def received (s : Session) (xs : List Happening) (box : OutboxId) : List Event :=
  (s.moments xs).flatMap fun m => m.1.taken m.2 box

variable {s t : Session} {x y : Happening} {box : OutboxId} {c : Command}

/-- In two sessions that are the same but for one outbox, what happens comes to the same. -/
theorem deed_resized (agree : s.Agree [box] t) (x : Happening) :
    t.deed (x.resized box s.outboxes.next) = s.deed x := by
  have brings : (x.resized box s.outboxes.next).command? t = x.command? s := by
    cases x with
    | connect h capacity => rw [Happening.resized, Happening.command?, ← agree.outboxes.next]; rfl
    | command c => rfl
    | make capacity => rfl
    | pass nanoseconds => rfl
    | take i n => rfl
    | close i => rfl
    | drop i => rfl
  rw [deed, deed, brings, agree.room]

namespace Agree

/-- Whatever does not happen at the far end of the outbox does the same in both, even if the outbox
is made with another length. -/
theorem step_elsewhere (agree : s.Agree [box] t) (elsewhere : x.atFarEnd box = false) :
    let y := x.resized box s.outboxes.next
    (s.step x).session.Agree [box] (t.step y).session ∧ (s.step x).reply = (t.step y).reply := by
  obtain ⟨room, outboxes⟩ := agree
  have resized {capacity : Capacity} (other : s.outboxes.next ∉ [box]) : Outbox.empty capacity =
      .empty (if s.outboxes.next = box then Outbox.usualCapacity else capacity) := by
    rw [if_neg (List.ne_of_not_mem_cons other)]
  cases x with
  | connect h capacity =>
    refine commanded room rfl ?_ (outboxes.add resized)
    rw [Happening.resized, Happening.command?, outboxes.next]
  | command c => exact commanded room rfl rfl outboxes
  | make capacity => exact ⟨⟨room, outboxes.add resized⟩, rfl⟩
  | pass nanoseconds =>
    simp only [Happening.resized, Session.step, room]
    cases t.room.advance nanoseconds with
    | ok later => exact ⟨⟨rfl, outboxes⟩, rfl⟩
    | error e => exact ⟨⟨rfl, outboxes⟩, rfl⟩
  | take i n =>
    have other : i ∉ [box] := by simpa [Happening.atFarEnd] using elsewhere
    simp only [Happening.resized, Session.step, outboxes.others i other]
    cases t.outboxes.get? i with
    | none => exact ⟨⟨room, outboxes⟩, rfl⟩
    | some o => exact ⟨⟨room, outboxes.modify fun _ => rfl⟩, rfl⟩
  | close i => exact ⟨⟨room, outboxes.modify fun _ => rfl⟩, rfl⟩
  | drop i => exact ⟨⟨room, outboxes.modify fun _ => rfl⟩, rfl⟩

/-- What happens at the far end of the outbox leaves everything else as it is. -/
theorem step_far (agree : s.Agree [box] t) (far : x.atFarEnd box = true) :
    (s.step x).session.Agree [box] t := by
  obtain ⟨room, outboxes⟩ := agree
  have own : box ∈ [box] := List.mem_cons_self
  cases x with
  | take i n =>
    obtain rfl := eq_of_beq far
    rw [Session.step]
    cases s.outboxes.get? i with
    | none => exact ⟨room, outboxes⟩
    | some o => exact ⟨room, outboxes.modify_aside own _⟩
  | close i =>
    obtain rfl := eq_of_beq far
    exact ⟨room, outboxes.modify_aside own _⟩
  | drop i =>
    obtain rfl := eq_of_beq far
    exact ⟨room, outboxes.modify_aside own _⟩
  | connect h capacity => cases far
  | command c => cases far
  | make capacity => cases far
  | pass nanoseconds => cases far

end Agree

theorem next_makes (s : Session) (x : Happening) :
    (s.step x).outboxes.next = s.outboxes.next + x.makes := by
  rw [next_step]
  cases x with
  | connect h capacity => simp [prepared, Outboxes.next, Outboxes.add, Happening.makes]
  | command c => rfl
  | make capacity => simp [prepared, step, withOutboxes, Outboxes.next, Outboxes.add, Happening.makes]
  | pass nanoseconds =>
    simp only [prepared, step]
    cases s.room.advance nanoseconds <;> rfl
  | take i n =>
    simp only [prepared, step]
    cases s.outboxes.get? i <;> simp [withOutboxes, Outboxes.next_modify, Happening.makes]
  | close i => simp [prepared, step, withOutboxes, Outboxes.next_modify, Happening.makes]
  | drop i => simp [prepared, step, withOutboxes, Outboxes.next_modify, Happening.makes]

theorem command?_of_far (far : x.atFarEnd box = true) : x.command? s = none := by
  cases x <;> first | rfl | cases far

theorem atFarEnd_resized (x : Happening) (box next i : OutboxId) :
    (x.resized box next).atFarEnd i = x.atFarEnd i := by
  cases x <;> rfl

theorem views_cons (s : Session) (x : Happening) (xs : List Happening) (box : OutboxId) :
    s.views (x :: xs) box = (if x.atFarEnd box then [] else [(s.step x).view box]) ++
      (s.step x).session.views xs box := by
  rw [views, moments, List.filter_cons]
  cases x.atFarEnd box <;> rfl

theorem offersTo_cons (s : Session) (x : Happening) (xs : List Happening) (box : OutboxId) :
    s.offersTo (x :: xs) box = s.offersTo [x] box ++ (s.step x).session.offersTo xs box :=
  s.offersTo_append [x] xs box

/-- What is offered to an outbox when something happens, told from the room. -/
theorem events_of_deed (room : s.room = t.room) (deeds : t.deed y = s.deed x) :
    (t.offersTo [y] box).map (·.event) = (s.offersTo [x] box).map (·.event) := by
  rw [events_step, events_step, deeds, room]

theorem view_eq {out other : Outcome} (agree : out.session.Agree [box] other.session)
    (reply : out.reply = other.reply) : out.view box = other.view box := by
  have room : out.room = other.room := agree.room
  rw [Outcome.view, Outcome.view, reply, room]
  congr 1
  funext i
  split
  · rfl
  · next elsewhere => exact agree.outboxes.others i (mt List.mem_singleton.mp elsewhere)

/-- Nothing else is seen of a run if an outbox is left alone. -/
theorem views_purge (agree : s.Agree [box] t) (xs : List Happening) :
    t.views (purge box s.outboxes.next xs) box = s.views xs box := by
  induction xs generalizing s t with
  | nil => rfl
  | cons x xs ih =>
    rw [purge, views_cons, ← next_makes]
    cases far : x.atFarEnd box with
    | true => exact ih (agree.step_far far)
    | false =>
      obtain ⟨after, reply⟩ := agree.step_elsewhere far
      have same : (t.step (x.resized box s.outboxes.next)).view box = (s.step x).view box :=
        (view_eq after reply).symm
      simp only [Bool.false_eq_true, if_false, List.singleton_append]
      rw [views_cons, atFarEnd_resized, far, same, ← ih after]
      rfl

/-- An outbox that is left alone is offered the same. -/
theorem events_purge (agree : s.Agree [box] t) (xs : List Happening) :
    (t.offersTo (purge box s.outboxes.next xs) box).map (·.event) =
      (s.offersTo xs box).map (·.event) := by
  induction xs generalizing s t with
  | nil => rfl
  | cons x xs ih =>
    rw [purge, offersTo_cons, ← next_makes, List.map_append]
    cases far : x.atFarEnd box with
    | true =>
      have silent : s.offersTo [x] box = [] := by
        rw [offersTo_singleton, (s.step_idle x (command?_of_far far)).2.2, List.filter_nil]
      rw [silent]
      exact ih (agree.step_far far)
    | false =>
      have after := (agree.step_elsewhere far).1
      simp only [Bool.false_eq_true, if_false, List.singleton_append]
      rw [offersTo_cons, List.map_append, events_of_deed agree.room (deed_resized agree x),
        ← ih after]
      rfl

/-- What is taken out of an outbox was in it. -/
theorem taken_sublist (s : Session) (x : Happening) (box : OutboxId) :
    (s.taken x box ++ (s.prepared x).contents box).Sublist (s.outboxes.contents box) := by
  cases x with
  | connect h capacity =>
    rw [prepared, Outboxes.contents_add]
    exact .refl _
  | command c => exact .refl _
  | make capacity =>
    have made : s.prepared (.make capacity) = s.outboxes.add (.empty capacity) := rfl
    rw [made, Outboxes.contents_add]
    exact .refl _
  | pass nanoseconds =>
    have same : s.prepared (.pass nanoseconds) = s.outboxes := by
      simp only [prepared, step]
      cases s.room.advance nanoseconds <;> rfl
    rw [same]
    exact .refl _
  | take i n =>
    simp only [taken, prepared, step]
    cases found : s.outboxes.get? i with
    | none =>
      simp only [withOutboxes, ite_self]
      exact .refl _
    | some o =>
      simp only [withOutboxes, Outboxes.contents_modify]
      split
      · next own =>
        rw [← own, Outboxes.contents, found]
        simp [Outbox.take]
      · exact .refl _
  | close i =>
    have closed : s.prepared (.close i) = s.outboxes.modify i Outbox.close := rfl
    have kept (o : Outbox) : o.close.events = o.events := by
      unfold Outbox.close
      split <;> rfl
    rw [closed, Outboxes.contents_modify]
    simp only [kept]
    split <;> exact .refl _
  | drop i =>
    have dropped : s.prepared (.drop i) = s.outboxes.modify i Outbox.drop := rfl
    rw [dropped, Outboxes.contents_modify]
    split
    · cases s.outboxes.get? box <;> exact List.nil_sublist _
    · exact .refl _

/-- What comes out of an outbox, and what it holds afterwards, was in it or was offered to it, in
this order. -/
theorem received_sublist (s : Session) (xs : List Happening) (box : OutboxId) :
    (s.received xs box ++ (s.run xs).outboxes.contents box).Sublist
      (s.outboxes.contents box ++ (s.offersTo xs box).map (·.event)) := by
  induction xs generalizing s with
  | nil => simp [received, moments, offersTo, offers, run]
  | cons x xs ih =>
    have sent := (Prod.mk.inj (s.step_deed x).2.2).1
    have grown := (s.prepared x).contents_dispatch_sublist (s.room.dispatches (s.deed x)) box
    rw [← sent, ← events_step] at grown
    have first := grown.append_left (s.taken x box)
    rw [← List.append_assoc] at first
    have moment := first.trans ((s.taken_sublist x box).append_right _)
    have rest := (ih (s.step x).session).append_left (s.taken x box)
    rw [← List.append_assoc] at rest
    have whole := rest.trans (List.append_assoc _ _ _ ▸ moment.append_right _)
    rw [offersTo_cons, List.map_append, ← List.append_assoc]
    exact whole

/-- If two runs differ only in how long an outbox is and in what happens at its far end, then after
each happening the replies, the room and all other outboxes are the same in both. The outbox is
offered the same events, and in either run what comes out of it was offered to it, in this order. -/
theorem seclusion_of_outbox (box : OutboxId) (xs ys : List Happening)
    (same : purge box start.outboxes.next xs = purge box start.outboxes.next ys) :
    start.views xs box = start.views ys box ∧
      (start.offersTo xs box).map (·.event) = (start.offersTo ys box).map (·.event) ∧
      (start.received xs box).Sublist ((start.offersTo xs box).map (·.event)) ∧
      (start.received ys box).Sublist ((start.offersTo ys box).map (·.event)) := by
  have self : start.Agree [box] start := ⟨rfl, rfl, fun _ _ => rfl⟩
  have offered (zs : List Happening) :
      (start.received zs box).Sublist ((start.offersTo zs box).map (·.event)) :=
    (List.sublist_append_left _ _).trans (received_sublist start zs box)
  refine ⟨?_, ?_, offered xs, offered ys⟩
  · rw [← views_purge self xs, same, views_purge self ys]
  · rw [← events_purge self xs, same, events_purge self ys]

/-- A connection with a long outbox that is emptied twice. -/
def promptRun : List Happening :=
  [.connect 7 .largest, .connect 8 .largest, .take 0 1, .command (.message 8 (.change (.code "hh"))),
    .take 1 9, .command (.kick 0), .take 0 9]

/-- The same with an outbox that has room for two events, and is never emptied but forgotten. -/
def deafRun : List Happening :=
  [.connect 7 ⟨2, by decide, by decide⟩, .connect 8 .largest,
    .command (.message 8 (.change (.code "hh"))), .take 1 9, .drop 0, .command (.kick 0)]

/-- Nobody else notices which of the two it was. -/
theorem seclusion_of_outbox_deaf :
    purge 0 start.outboxes.next promptRun = purge 0 start.outboxes.next deafRun ∧
      start.views promptRun 0 = start.views deafRun 0 ∧
      (start.views promptRun 0).length = 5 ∧
      (start.received promptRun 0).length = 4 ∧ (start.received deafRun 0).length = 0 := by
  have same : purge 0 start.outboxes.next promptRun = purge 0 start.outboxes.next deafRun := rfl
  exact ⟨same, (seclusion_of_outbox 0 promptRun deafRun same).1, by decide +kernel,
    by decide +kernel, by decide +kernel⟩

end Session

end LiveRelay
