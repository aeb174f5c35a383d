import LiveRelay.Proofs.Session.Legible
import LiveRelay.Proofs.Wire.RoundTrip

/-! # The places that are relayed

A room stores the place of a speaker as it was read from the frame of a client, and writes it anew
for everyone else and for those who come later. They read what is written by the quick rule, which
is not correctly rounded, so a coordinate that needs all of its digits may come out as a neighbour.
A coordinate whose digits are few comes out as it was stored.
-/

namespace LiveRelay

open Json

namespace Speaker

/-- A speaker whose coordinates are written with few digits near the point. -/
structure Brief (s : Speaker) : Prop where
  x : (s.x.literal realLayout).Brief
  y : (s.y.literal realLayout).Brief
  angle : (s.angle.literal realLayout).Brief

theorem survives_of_brief {s : Speaker} (finite : s.Finite) (brief : s.Brief) : s.Survives where
  x := Binary64.survives_of_brief finite.x brief.x
  y := Binary64.survives_of_brief finite.y brief.y
  angle := Binary64.survives_of_brief finite.angle brief.angle

end Speaker

namespace Session

variable {s : Session} {h k : Handle} {seat : Seat}

theorem deed_change (seated : s.room.seating.seat? h = some seat) (c : Change) :
    s.deed (.command (.message h (.change c))) = .changed h seat c :=
  (deed_of_command rfl).trans (Room.deed_change seated c)

/-- A change is stored as it was reported, and for its own connection only. -/
theorem seat?_change (seated : s.room.seating.seat? h = some seat) (c : Change) (k : Handle) :
    (s.step (.command (.message h (.change c)))).room.seating.seat? k =
      if k = h then some { seat with participant := seat.participant.apply c }
      else s.room.seating.seat? k := by
  have fits := s.fits_deed (.command (.message h (.change c)))
  rw [(s.step_deed _).1, Room.seat?_does fits, deed_change seated, Deed.reseat]

/-- A change is offered to everyone else who has a seat, and nothing else is offered. -/
theorem offers_change (consistent : s.room.seating.Consistent)
    (seated : s.room.seating.seat? h = some seat) (c : Change) (k : Handle) (box : OutboxId)
    (e : Event) :
    (∃ o ∈ (s.step (.command (.message h (.change c)))).offers,
        o.handle = k ∧ o.outbox = box ∧ o.event = e) ↔
      k ≠ h ∧ (∃ other, s.room.seating.seat? k = some other ∧ other.outbox = box) ∧
        e = .message (.changed c seat.participant.id) := by
  have fits := s.fits_deed (.command (.message h (.change c)))
  have sits (other : Seat) : (k, other) ∈ (s.room.seating.does (.changed h seat c)).seats ↔
      (Deed.changed h seat c).reseat k (s.room.seating.seat? k) = some other := by
    rw [deed_change seated] at fits
    rw [← (Room.consistent_does consistent _).seat?_eq_some_iff, Room.seat?_does fits]
  have sent : (∃ o ∈ (s.step (.command (.message h (.change c)))).offers,
      o.handle = k ∧ o.outbox = box ∧ o.event = e) ↔
        (⟨k, box, e⟩ : Dispatch) ∈ s.room.dispatches (.changed h seat c) := by
    rw [← deed_change seated, ← s.offers_step]
    simp
  rw [sent]
  simp only [Room.dispatches, mem_news_iff, Recipients.includes, bne_iff_ne, Dispatch.mk.injEq]
  constructor
  · rintro ⟨k, other, member, apart, rfl, rfl, rfl⟩
    rw [sits, Deed.reseat, if_neg (Ne.symm apart)] at member
    exact ⟨Ne.symm apart, ⟨other, member, rfl⟩, rfl⟩
  · rintro ⟨apart, ⟨other, found, rfl⟩, rfl⟩
    refine ⟨k, other, (sits other).mpr ?_, Ne.symm apart, rfl, rfl, rfl⟩
    rw [Deed.reseat, if_neg apart, found]

/-- What everyone makes of the place of a speaker. A seat holds what its own client reported; what
the others are offered, and what those who come later are greeted with, is read with every
coordinate reread. Coordinates that are written briefly are reread as they were. -/
theorem places_reread (xs : List Happening) (heard : FromFrames xs) :
    (∀ h seat text s, (start.run xs).room.seating.seat? h = some seat →
      ClientMessage.read text = .ok (some (.change (.speaker s))) →
      let x : Happening := .command (.message h (.change (.speaker s)))
      let told : ServerMessage := .changed (.speaker s) seat.participant.id
      (start.run (xs ++ [x])).room.seating.seat? h =
        some { seat with participant := { seat.participant with speaker := s } } ∧
      (∀ k box e, (∃ o ∈ ((start.run xs).step x).offers,
          o.handle = k ∧ o.outbox = box ∧ o.event = e) ↔
        k ≠ h ∧ (∃ other, (start.run xs).room.seating.seat? k = some other ∧ other.outbox = box) ∧
          e = .message told) ∧
      ServerMessage.read told.text = .ok (.changed (.speaker s.reread) seat.participant.id) ∧
      (ServerMessage.read told.text = .ok told ↔ s.reread = s) ∧ (s.Brief → s.reread = s)) ∧
    ∀ o ∈ start.offers xs, ∀ i players time, o.event = .message (.hello i players time) →
      (ServerMessage.hello i players time).Legible →
      (∃ ys x zs, xs = ys ++ x :: zs ∧ o ∈ ((start.run ys).step x).offers ∧
        players = (start.run ys).room.seating.snapshot) ∧
      ServerMessage.read (ServerMessage.hello i players time).text =
        .ok (.hello i (players.map Participant.reread) time.reread) ∧
      ∀ p ∈ players, p.reread.id = p.id ∧ p.reread.speaker = p.speaker.reread ∧
        (p.speaker.Brief → p.speaker.reread = p.speaker) := by
  constructor
  · intro h seat text s seated read x told
    have consistent := consistent_run (s := start) .empty xs
    have finite : s.Finite := ClientMessage.finite_of_read read
    have back : ServerMessage.read told.text = .ok told.reread :=
      ServerMessage.read_text_reread (m := told) finite trivial
    refine ⟨?_, offers_change consistent seated (.speaker s), back, ?_, ?_⟩
    · rw [run_concat, Outcome.session, seat?_change seated, if_pos rfl]
      rfl
    · rw [back]
      simp only [told, ServerMessage.reread, Except.ok.injEq, ServerMessage.changed.injEq,
        Change.speaker.injEq, and_true]
    · intro brief
      exact (Speaker.survives_iff.mp (Speaker.survives_of_brief finite brief)).2
  · intro o offered i players time greeting legible
    have finite := finite_offers finite_start heard offered greeting
    refine ⟨moment_of_hello offered greeting, ServerMessage.read_text_reread finite legible, ?_⟩
    intro p member
    refine ⟨rfl, rfl, fun brief => ?_⟩
    exact (Speaker.survives_iff.mp (Speaker.survives_of_brief (finite.1 p member) brief)).2

/-- A place on the axis, at a whole number. -/
def placeAt (x : UInt64) : Value :=
  .object [("angle", .number (.unsigned 0)), ("x", .number (.unsigned x)),
    ("y", .number (.unsigned 0))]

/-- The speaker at such a place. -/
def speakerAt (x : UInt64) : Speaker :=
  ⟨(Number.unsigned x).toReal, (Number.unsigned 0).toReal, (Number.unsigned 0).toReal⟩

/-- A client can put its speaker there. -/
theorem read_placeAt (x : UInt64) :
    ClientMessage.read (Value.object [("event", .string "speaker"), ("data", placeAt x)]).text =
      .ok (some (.change (.speaker (speakerAt x)))) := by
  have keys : ["angle", "x", "y"].Pairwise (· < ·) := by decide
  have present : placeAt x ≠ .null := nofun
  have ordered : (placeAt x).Ordered :=
    .object (List.pairwise_map.mp keys) (by simp [Value.Ordered.number])
  have survives : (placeAt x).Survives := .object (by simp [Value.Survives.unsigned])
  have shallow : (placeAt x).depth ≤ deepest - 1 := by
    simp [placeAt, Value.depth, Value.membersDepth, deepest]
  rw [ClientMessage.read_event "speaker" present ordered survives shallow]
  rfl

/-- Two connections. -/
def pairRun : List Happening :=
  [.connect 1 Outbox.usualCapacity, .connect 2 Outbox.usualCapacity]

theorem fromFrames_pairRun : FromFrames pairRun := by
  intro h m member
  simp [pairRun] at member

/-- Where the first one puts its speaker is queued for the second one. -/
theorem offered_pairRun (s : Speaker) :
    ⟨2, 1, .message (.changed (.speaker s) 0), .accepted⟩ ∈
      ((start.run pairRun).step (.command (.message 1 (.change (.speaker s))))).offers :=
  List.mem_of_getElem? (i := 0) rfl

/-- The last odd number below the fifty-third power of two is reread as the even one before it. -/
theorem reread_speakerAt_odd :
    (speakerAt 9007199254740991).reread = speakerAt 9007199254740990 ∧
      speakerAt 9007199254740990 ≠ speakerAt 9007199254740991 := by
  decide +kernel

/-- The second connection finds the first one where it is, unless that is too far out. -/
theorem places_reread_pairRun : FromFrames pairRun ∧
    ServerMessage.read (ServerMessage.changed (.speaker (speakerAt 320)) 0).text =
      .ok (.changed (.speaker (speakerAt 320)) 0) ∧
    ServerMessage.read (ServerMessage.changed (.speaker (speakerAt 9007199254740991)) 0).text =
      .ok (.changed (.speaker (speakerAt 9007199254740990)) 0) := by
  have seated : (start.run pairRun).room.seating.seat? 1 = some ⟨.fresh 0, 0⟩ := rfl
  obtain ⟨-, -, -, near, few⟩ := (places_reread pairRun fromFrames_pairRun).1 1 _ _ _ seated
    (read_placeAt 320)
  obtain ⟨-, -, far, -⟩ := (places_reread pairRun fromFrames_pairRun).1 1 _ _ _ seated
    (read_placeAt 9007199254740991)
  rw [reread_speakerAt_odd.1] at far
  have brief : (speakerAt 320).Brief := by
    constructor <;> exact Literal.brief_of_le (by decide +kernel) (by decide +kernel)
  exact ⟨fromFrames_pairRun, near.mpr (few brief), far⟩

/-- Not every place that is queued for others is read as it was reported. -/
theorem place_drifts : ¬ ∀ xs, FromFrames xs → ∀ h seat text s,
    (start.run xs).room.seating.seat? h = some seat →
    ClientMessage.read text = .ok (some (.change (.speaker s))) →
    ∀ o ∈ ((start.run xs).step (.command (.message h (.change (.speaker s))))).offers,
      o.verdict = .accepted → ∀ m, o.event = .message m →
        ServerMessage.read m.text = .ok (.changed (.speaker s) seat.participant.id) := by
  intro every
  have read := read_placeAt 9007199254740991
  have kept := every pairRun fromFrames_pairRun 1 ⟨.fresh 0, 0⟩ _ _ rfl read _ (offered_pairRun _) rfl
    _ rfl
  have back := ServerMessage.read_text_reread
    (m := .changed (.speaker (speakerAt 9007199254740991)) 0)
    (ClientMessage.finite_of_read read) trivial
  have same : (speakerAt 9007199254740991).reread = speakerAt 9007199254740991 :=
    Change.speaker.inj (ServerMessage.changed.inj (Except.ok.inj (back.symm.trans kept))).1
  rw [reread_speakerAt_odd.1] at same
  exact reread_speakerAt_odd.2 same

end Session

end LiveRelay
