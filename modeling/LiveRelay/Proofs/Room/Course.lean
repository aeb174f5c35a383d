import LiveRelay.Proofs.Room.Roster

/-! # The course of a participant

For a client, everyone else runs through three phases: not heard of, present, and gone. A message
about them takes them from one phase to the next, or has no place in the phase that they are in.
What a seated connection is told of a deed always has a place, and those who are present are then
again those who have a seat.
-/

namespace LiveRelay

namespace ServerMessage

/-- The participant that a message is about. -/
def about? : ServerMessage → Option ParticipantId
  | .hello i _ _ | .join i | .leave i | .changed _ i => some i
  | .reset => none

/-- Whether a message is a greeting. -/
def isHello : ServerMessage → Bool
  | .hello _ _ _ => true
  | _ => false

@[simp] theorem about?_join (i : ParticipantId) : (join i).about? = some i := rfl

@[simp] theorem about?_leave (i : ParticipantId) : (leave i).about? = some i := rfl

@[simp] theorem about?_changed (c : Change) (i : ParticipantId) : (changed c i).about? = some i := rfl

@[simp] theorem about?_reset : reset.about? = none := rfl

end ServerMessage

/-- What someone is to a client. -/
inductive Presence where
  | unheard
  | present
  | gone
deriving DecidableEq, Repr

namespace Presence

/-- The phase that a message about someone leads to, if it has a place. -/
def next : Presence → ServerMessage → Option Presence
  | .unheard, .join _ => some .present
  | .present, .changed _ _ => some .present
  | .present, .leave _ => some .gone
  | _, _ => none

/-- The phase of a participant after a message about anyone. -/
def hear (i : ParticipantId) (phase : Presence) (m : ServerMessage) : Option Presence :=
  if m.about? = some i then phase.next m else some phase

/-- The phase of a participant after a greeting. -/
def greeted (i : ParticipantId) (players : List Participant) : Presence :=
  if i ∈ players.map (·.id) then .present else .unheard

variable {i : ParticipantId} {ms : List ServerMessage} {last : Presence}

theorem hear_of_not_about {m : ServerMessage} (other : m.about? ≠ some i) (phase : Presence) :
    phase.hear i m = some phase := if_neg other

theorem hear_of_about {m : ServerMessage} (same : m.about? = some i) (phase : Presence) :
    phase.hear i m = phase.next m := if_pos same

/-- Nothing is heard of someone who is gone. -/
theorem silent_of_gone (heard : ms.foldlM (hear i) .gone = some last) :
    ms.filter (·.about? == some i) = [] ∧ last = .gone := by
  induction ms with
  | nil =>
    cases heard
    exact ⟨rfl, rfl⟩
  | cons m ms ih =>
    rw [List.foldlM_cons] at heard
    by_cases same : m.about? = some i
    · rw [hear_of_about same] at heard
      cases m <;> cases heard
    · rw [hear_of_not_about same] at heard
      obtain ⟨silent, ended⟩ := ih heard
      exact ⟨by simp [same, silent], ended⟩

/-- Someone who is present changes any number of times and leaves at most once. -/
theorem stay_of_present (heard : ms.foldlM (hear i) .present = some last) :
    ∃ changes : List Change, ms.filter (·.about? == some i) =
      changes.map (.changed · i) ++ if last = .gone then [.leave i] else [] := by
  induction ms with
  | nil =>
    cases heard
    exact ⟨[], rfl⟩
  | cons m ms ih =>
    rw [List.foldlM_cons] at heard
    by_cases same : m.about? = some i
    · rw [hear_of_about same] at heard
      cases m with
      | hello own players time => cases heard
      | join own => cases heard
      | leave own =>
        cases same
        obtain ⟨silent, rfl⟩ := silent_of_gone heard
        exact ⟨[], by simp [silent]⟩
      | changed c own =>
        cases same
        obtain ⟨changes, stay⟩ := ih heard
        exact ⟨c :: changes, by simp [stay]⟩
      | reset => cases same
    · rw [hear_of_not_about same] at heard
      obtain ⟨changes, stay⟩ := ih heard
      exact ⟨changes, by simp [same, stay]⟩

/-- Someone who was not heard of comes before anything else. -/
theorem coming_of_unheard (heard : ms.foldlM (hear i) .unheard = some last) :
    ms.filter (·.about? == some i) = [] ∨
      ∃ changes : List Change, ms.filter (·.about? == some i) =
        .join i :: changes.map (.changed · i) ++ if last = .gone then [.leave i] else [] := by
  induction ms with
  | nil => exact .inl rfl
  | cons m ms ih =>
    rw [List.foldlM_cons] at heard
    by_cases same : m.about? = some i
    · rw [hear_of_about same] at heard
      cases m with
      | hello own players time => cases heard
      | join own =>
        cases same
        obtain ⟨changes, stay⟩ := stay_of_present heard
        exact .inr ⟨changes, by simp [stay]⟩
      | leave own => cases heard
      | changed c own => cases heard
      | reset => cases same
    · rw [hear_of_not_about same] at heard
      rcases ih heard with silent | ⟨changes, stay⟩
      · exact .inl (by simp [same, silent])
      · exact .inr ⟨changes, by simp [same, stay]⟩

end Presence

/-- What a connection may hear after its greeting: no other greeting, nothing about itself, and of
everyone else one arrival unless they were greeted, then changes, then at most one departure. -/
structure Account (own : ParticipantId) (players : List Participant) (news : List ServerMessage) :
    Prop where
  once : ∀ m ∈ news, m.isHello = false
  notOwn : ∀ m ∈ news, m.about? ≠ some own
  greeted : ∀ i ≠ own, i ∈ players.map (·.id) → ∃ (changes : List Change) (left : Bool),
    news.filter (·.about? == some i) =
      changes.map (.changed · i) ++ if left then [.leave i] else []
  others : ∀ i ≠ own, i ∉ players.map (·.id) → news.filter (·.about? == some i) = [] ∨
    ∃ (changes : List Change) (left : Bool), news.filter (·.about? == some i) =
      .join i :: changes.map (.changed · i) ++ if left then [.leave i] else []

/-- A connection is up to date: everyone else went through the phases, those present have a seat,
and those gone had a number that was given away. -/
structure Current (t : Seating) (admitted : Nat) (own : ParticipantId) (players : List Participant)
    (news : List ServerMessage) : Prop where
  once : ∀ m ∈ news, m.isHello = false
  notOwn : ∀ m ∈ news, m.about? ≠ some own
  phases : ∀ i ≠ own, ∃ phase, news.foldlM (Presence.hear i) (.greeted i players) = some phase ∧
    (phase = .present ↔ ∃ p, t.participant? i = some p) ∧
    (phase = .gone → i.toNat < admitted)

/-- What a connection that keeps its seat is told of a deed is no greeting and not about itself. -/
theorem told_of_others {r : Room} {d : Deed} {k : Handle} {seat after : Seat}
    (consistent : r.seating.Consistent) (fits : d.Fits r) (sat : r.seating.seat? k = some seat)
    (stays : (r.seating.does d).seat? k = some after) :
    ∀ m ∈ d.told r k, m.isHello = false ∧ m.about? ≠ some seat.participant.id := by
  rw [Room.seat?_does fits] at stays
  intro m member
  cases d with
  | admitted h other =>
    obtain ⟨free, owned, fresh⟩ := fits
    have elsewhere : k ≠ h := by
      rintro rfl
      cases free.symm.trans sat
    rw [Deed.told, if_neg elsewhere, List.mem_singleton] at member
    subst member
    refine ⟨rfl, fun own => ?_⟩
    rw [fresh] at own
    exact consistent.handleOf?_eq_none_iff.mp owned k seat sat (Option.some.inj own).symm
  | left h other =>
    rw [Deed.told, List.mem_singleton] at member
    subst member
    refine ⟨rfl, fun own => ?_⟩
    cases consistent.handle_unique sat fits (Option.some.inj own)
    rw [Deed.reseat, if_pos rfl] at stays
    cases stays
  | dismissed h other =>
    rw [Deed.told, List.mem_singleton] at member
    subst member
    refine ⟨rfl, fun own => ?_⟩
    cases consistent.handle_unique sat fits (Option.some.inj own)
    rw [Deed.reseat, if_pos rfl] at stays
    cases stays
  | changed h other c =>
    rw [Deed.told] at member
    split at member
    · cases member
    · next elsewhere =>
      rw [List.mem_singleton] at member
      subst member
      refine ⟨rfl, fun own => elsewhere ?_⟩
      exact (consistent.handle_unique sat fits (Option.some.inj own)).symm
  | restarted h =>
    rw [Deed.told, List.mem_singleton] at member
    subst member
    refine ⟨rfl, fun own => ?_⟩
    cases own
  | clashed h => cases member
  | refused h box => cases member
  | nothing => cases member

/-- Whoever has a seat is present, and is gone after the departure. -/
theorem presence_leave {r : Room} {h : Handle} {seat : Seat} {i : ParticipantId} {phase : Presence}
    {admitted : Nat} (consistent : r.seating.Consistent) (found : r.seating.seat? h = some seat)
    (young : seat.participant.id.toNat < admitted)
    (present : phase = .present ↔ ∃ p, r.seating.participant? i = some p)
    (gone : phase = .gone → i.toNat < admitted) :
    ∃ after, [ServerMessage.leave seat.participant.id].foldlM (Presence.hear i) phase = some after ∧
      (after = .present ↔ ∃ p, (if i = seat.participant.id then none
        else r.seating.participant? i) = some p) ∧
      (after = .gone → i.toNat < admitted) := by
  by_cases leaves : i = seat.participant.id
  · subst leaves
    have here : phase = .present :=
      present.mpr ⟨_, Seating.participant?_of_seat? consistent found⟩
    subst here
    exact ⟨.gone, by simp [Presence.hear, Presence.next], by simp, fun _ => young⟩
  · rw [if_neg leaves]
    exact ⟨phase, by simp [Presence.hear, Ne.symm leaves], present, gone⟩

/-- Of a deed, a seated connection hears what takes everyone else to the phase that they are in
afterwards. -/
theorem presence_told {r : Room} {d : Deed} {k : Handle} {seat : Seat} {i : ParticipantId}
    {phase : Presence} {admitted : Nat} (consistent : r.seating.Consistent) (fits : d.Fits r)
    (counted : r.nextId.toNat = admitted)
    (young : ∀ h seat, r.seating.seat? h = some seat → seat.participant.id.toNat < admitted)
    (sat : r.seating.seat? k = some seat) (other : i ≠ seat.participant.id)
    (present : phase = .present ↔ ∃ p, r.seating.participant? i = some p)
    (gone : phase = .gone → i.toNat < admitted) :
    ∃ after, (d.told r k).foldlM (Presence.hear i) phase = some after ∧
      (after = .present ↔ ∃ p, (r.seating.does d).participant? i = some p) ∧
      (after = .gone → i.toNat < admitted) := by
  rw [Room.participant?_does consistent fits]
  cases d with
  | admitted h newcomer =>
    obtain ⟨free, owned, fresh⟩ := fits
    have elsewhere : k ≠ h := by
      rintro rfl
      cases free.symm.trans sat
    rw [Deed.told, if_neg elsewhere, Deed.recast]
    by_cases arrived : i = newcomer.participant.id
    · have absent := Seating.participant?_eq_none consistent owned
      have number : i = r.nextId := by rw [arrived, fresh, Participant.id_fresh]
      have unheard : phase = .unheard := by
        cases phase with
        | unheard => rfl
        | present =>
          obtain ⟨p, found⟩ := present.mp rfl
          rw [number, absent] at found
          cases found
        | gone =>
          have below := gone rfl
          rw [number, counted] at below
          exact absurd below (Nat.lt_irrefl _)
      subst unheard
      refine ⟨.present, ?_, by simp [arrived], fun left => ?_⟩
      · simp [← arrived, Presence.hear, Presence.next]
      · cases left
    · rw [if_neg arrived]
      refine ⟨phase, ?_, present, gone⟩
      simp [Presence.hear, Ne.symm arrived]
  | left h leaver => exact presence_leave consistent fits (young h leaver fits) present gone
  | dismissed h leaver => exact presence_leave consistent fits (young h leaver fits) present gone
  | changed h mover c =>
    have found : r.seating.seat? h = some mover := fits
    have there := Seating.participant?_of_seat? consistent found
    rw [Deed.recast]
    by_cases changes : i = mover.participant.id
    · have elsewhere : k ≠ h := by
        rintro rfl
        cases sat.symm.trans found
        exact other changes
      have here : phase = .present := present.mpr ⟨_, changes ▸ there⟩
      subst here
      rw [Deed.told, if_neg elsewhere, if_pos changes]
      refine ⟨.present, ?_, by simp, fun left => ?_⟩
      · simp [Presence.hear, Presence.next, changes]
      · cases left
    · rw [if_neg changes, Deed.told]
      split
      · exact ⟨phase, rfl, present, gone⟩
      · exact ⟨phase, by simp [Presence.hear, Ne.symm changes], present, gone⟩
  | restarted h => exact ⟨phase, rfl, present, gone⟩
  | clashed h => exact ⟨phase, rfl, present, gone⟩
  | refused h box => exact ⟨phase, rfl, present, gone⟩
  | nothing => exact ⟨phase, rfl, present, gone⟩

namespace Current

variable {r : Room} {t : Seating} {own : ParticipantId} {players : List Participant} {news : List ServerMessage}
variable {admitted : Nat}

/-- A newcomer is up to date with the greeting alone. -/
theorem of_admitted {h : Handle} {seat : Seat} (consistent : r.seating.Consistent)
    (fits : (Deed.admitted h seat).Fits r) : Current (r.seating.does (.admitted h seat))
      admitted seat.participant.id r.seating.snapshot [] where
  once := by simp
  notOwn := by simp
  phases i other := by
    refine ⟨.greeted i r.seating.snapshot, rfl, ?_, ?_⟩
    · have unmoved : (r.seating.does (.admitted h seat)).participant? i =
          r.seating.participant? i :=
        (Room.participant?_does consistent fits).trans (if_neg other)
      simp only [unmoved, Seating.participant?_eq_some_iff_mem consistent, Presence.greeted,
        List.mem_map]
      split <;> simp_all
    · rw [Presence.greeted]
      split <;> nofun

/-- A connection that keeps its seat stays up to date by what it is told. -/
theorem told {d : Deed} {k : Handle} {seat after : Seat} (consistent : r.seating.Consistent)
    (fits : d.Fits r) (counted : r.nextId.toNat = admitted)
    (young : ∀ h seat, r.seating.seat? h = some seat → seat.participant.id.toNat < admitted)
    (sat : r.seating.seat? k = some seat) (stays : (r.seating.does d).seat? k = some after)
    (current : Current r.seating admitted seat.participant.id players news) :
    Current (r.seating.does d) admitted seat.participant.id players (news ++ d.told r k) where
  once m member := by
    rcases List.mem_append.mp member with old | new
    · exact current.once m old
    · exact (told_of_others consistent fits sat stays m new).1
  notOwn m member := by
    rcases List.mem_append.mp member with old | new
    · exact current.notOwn m old
    · exact (told_of_others consistent fits sat stays m new).2
  phases i other := by
    obtain ⟨phase, heard, present, gone⟩ := current.phases i other
    obtain ⟨last, led, still⟩ :=
      presence_told consistent fits counted young sat other present gone
    refine ⟨last, ?_, still⟩
    rw [List.foldlM_append, heard]
    exact led

theorem mono {more : Nat} (current : Current t admitted own players news)
    (grows : admitted ≤ more) : Current t more own players news where
  once := current.once
  notOwn := current.notOwn
  phases i other := by
    obtain ⟨phase, heard, present, gone⟩ := current.phases i other
    exact ⟨phase, heard, present, fun left => Nat.lt_of_lt_of_le (gone left) grows⟩

theorem account (current : Current t admitted own players news) : Account own players news where
  once := current.once
  notOwn := current.notOwn
  greeted i other member := by
    obtain ⟨phase, heard, -, -⟩ := current.phases i other
    rw [Presence.greeted, if_pos member] at heard
    obtain ⟨changes, stay⟩ := Presence.stay_of_present heard
    exact ⟨changes, decide (phase = .gone), by simpa using stay⟩
  others i other missing := by
    obtain ⟨phase, heard, -, -⟩ := current.phases i other
    rw [Presence.greeted, if_neg missing] at heard
    rcases Presence.coming_of_unheard heard with silent | ⟨changes, stay⟩
    · exact .inl silent
    · exact .inr ⟨changes, decide (phase = .gone), by simpa using stay⟩

end Current

end LiveRelay
