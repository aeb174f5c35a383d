import LiveRelay.Proofs.Json.Recovery
import LiveRelay.Proofs.Wire.ServerFrame

/-! # Messages that come back

Writing a message and reading it again rereads what was stored for the participants. Three things
may change then: a double is read as another one, an editor that is `null` comes back as none, and an
editor that nests too deep for the frame around it cannot be read. Otherwise the message comes back
as it was.
-/

namespace LiveRelay

open Json

namespace Speaker

/-- A speaker whose coordinates are read back as they were. -/
structure Survives (s : Speaker) : Prop where
  x : s.x.Survives
  y : s.y.Survives
  angle : s.angle.Survives

/-- What a speaker is read back as. -/
def reread (s : Speaker) : Speaker := ⟨s.x.reread, s.y.reread, s.angle.reread⟩

variable {s : Speaker}

theorem survives_iff : s.Survives ↔ s.Finite ∧ s.reread = s := by
  constructor
  · rintro ⟨x, y, angle⟩
    refine ⟨⟨x.finite, y.finite, angle.finite⟩, ?_⟩
    rw [reread, x.reread_eq, y.reread_eq, angle.reread_eq]
  · rintro ⟨⟨x, y, angle⟩, same⟩
    obtain ⟨sameX, sameY, sameAngle⟩ := Speaker.mk.inj same
    exact ⟨Binary64.survives_iff.mpr ⟨x, sameX⟩, Binary64.survives_iff.mpr ⟨y, sameY⟩,
      Binary64.survives_iff.mpr ⟨angle, sameAngle⟩⟩

theorem recovers_reread (finite : s.Finite) : shape.Recovers s.toValue s.reread := by
  apply Record.recovers_object
  exact Record.fills_cons rfl rfl (Shape.recovers_real finite.x) <|
    Record.fills_cons rfl rfl (Shape.recovers_real finite.y) <|
    Record.fills_cons rfl rfl (Shape.recovers_real finite.angle) <|
    Record.fills_nil rfl

theorem recovers_toValue (survives : s.Survives) : shape.Recovers s.toValue s := by
  obtain ⟨finite, same⟩ := survives_iff.mp survives
  simpa only [same] using recovers_reread finite

theorem depth_toValue (s : Speaker) : s.toValue.depth = 1 := by
  simp [toValue, Value.depth, Value.membersDepth]

end Speaker

namespace Participant

/-- A participant whose speaker and whose editor, if there is one, are read back as they were. -/
structure Survives (p : Participant) : Prop where
  editor : ∀ v ∈ p.editor, v ≠ .null ∧ v.Ordered ∧ v.Survives
  speaker : p.speaker.Survives

/-- What a participant is read back as. -/
def reread (p : Participant) : Participant where
  id := p.id
  code := p.code
  editor := (Shape.nullable.ofValue (p.editor.getD .null).reread).toOption.join
  speaker := p.speaker.reread

variable {p : Participant}

theorem reread_of_survives (survives : p.Survives) : p.reread = p := by
  rw [reread, Shape.present_of_stored survives.editor, (Speaker.survives_iff.mp survives.speaker).2]

theorem recovers_reread (finite : p.speaker.Finite) : shape.Recovers p.toValue p.reread := by
  apply Record.recovers_object
  exact Record.fills_cons rfl rfl (Shape.recovers_word p.id) <|
    Record.fills_cons rfl rfl (Shape.recovers_string p.code) <|
    Record.fills_cons rfl rfl (Shape.recovers_nullable _) <|
    Record.fills_cons rfl rfl (Speaker.recovers_reread finite) <|
    Record.fills_nil rfl

theorem recovers_toValue (survives : p.Survives) : shape.Recovers p.toValue p := by
  have read := recovers_reread (Speaker.survives_iff.mp survives.speaker).1
  rwa [reread_of_survives survives] at read

theorem depth_toValue_le (few : ∀ v ∈ p.editor, v.depth ≤ deepest - 1) :
    p.toValue.depth ≤ deepest := by
  have editor : (p.editor.getD .null).depth ≤ deepest - 1 := by
    cases stored : p.editor with
    | none => exact Nat.zero_le _
    | some v => exact few v stored
  simp only [toValue, Value.depth, Value.membersDepth, wordValue, Speaker.depth_toValue, deepest]
    at editor ⊢
  omega

end Participant

namespace ServerMessage

/-- A message in which everything that was stored for a participant is read back as it was. -/
def Survives : ServerMessage → Prop
  | .hello _ players time => (∀ p ∈ players, p.Survives) ∧ time.Survives
  | .changed (.editor v) _ => v.Ordered ∧ v.Survives
  | .changed (.speaker s) _ => s.Survives
  | .join _ | .leave _ | .changed (.code _) _ | .reset => True

/-- What a message is read back as. -/
def reread : ServerMessage → ServerMessage
  | .hello id players time => .hello id (players.map Participant.reread) time.reread
  | .changed (.editor v) id => .changed (.editor v.reread.canonical) id
  | .changed (.speaker s) id => .changed (.speaker s.reread) id
  | m => m

variable {m : ServerMessage}

theorem finite_of_survives (survives : m.Survives) : m.Finite := by
  cases m with
  | hello id players time =>
    refine ⟨fun p member => ?_, survives.2.finite⟩
    exact (Speaker.survives_iff.mp (survives.1 p member).speaker).1
  | changed c id =>
    cases c with
    | code s => trivial
    | editor v => trivial
    | speaker s => exact (Speaker.survives_iff.mp survives).1
  | join id => trivial
  | leave id => trivial
  | reset => trivial

theorem reread_of_survives (survives : m.Survives) : m.reread = m := by
  cases m with
  | hello i players time =>
    have same : ∀ p ∈ players, p.reread = p :=
      fun p member => Participant.reread_of_survives (survives.1 p member)
    rw [reread, List.map_congr_left (g := id) same, List.map_id, survives.2.reread_eq]
  | changed c id =>
    cases c with
    | code s => rfl
    | editor v =>
      rw [reread, Value.reread_of_survives survives.2, Value.canonical_of_ordered survives.1]
    | speaker s => rw [reread, (Speaker.survives_iff.mp survives).2]
  | join id => rfl
  | leave id => rfl
  | reset => rfl

theorem recovers_greeting (id : ParticipantId) {players : List Participant} {time : Binary64}
    (each : ∀ p ∈ players, p.speaker.Finite) (timely : time.isFinite = true) :
    helloRecord.shape.Recovers (.object [("id", wordValue id),
      ("players", .list (players.map Participant.toValue)), ("time", .number (.real time))])
      (.hello id (players.map Participant.reread) time.reread) := by
  have present : (Shape.list Participant.shape).Recovers
      (.list (players.map Participant.toValue)) (players.map Participant.reread) := by
    apply Shape.recovers_list
    apply List.forall₂_map_left_iff.mpr
    apply List.forall₂_map_right_iff.mpr
    apply List.forall₂_same.mpr
    intro p member
    exact Participant.recovers_reread (each p member)
  apply Record.recovers_object
  exact Record.fills_cons rfl rfl (Shape.recovers_word id) <|
    Record.fills_cons rfl rfl present <|
    Record.fills_cons rfl rfl (Shape.recovers_real timely) <|
    Record.fills_nil rfl

theorem recovers_news {α : Type} (name : String) {state : Shape α} (change : α → Change)
    (id : ParticipantId) {v : Value} {a : α} (recovers : state.Recovers v a) :
    (changedRecord name state change).shape.Recovers
      (.object [("state", v), ("id", wordValue id)]) (.changed (change a) id) := by
  apply Record.recovers_object
  exact Record.fills_cons rfl rfl recovers <|
    Record.fills_cons rfl rfl (Shape.recovers_word id) <|
    Record.fills_nil rfl

theorem read_changed {c : Change} {id : ParticipantId} (finite : (changed c id).Finite)
    (legible : (changed c id).Legible) : read (changed c id).text = .ok (changed c id).reread := by
  obtain ⟨kind, named, recovers⟩ : ∃ kind, ServerKind.ofName? c.kind.name = some kind ∧
      (dataShape kind).Recovers (.object [("state", c.toValue), ("id", wordValue id)])
        (changed c id).reread := by
    cases c with
    | code s => exact ⟨.code, rfl, recovers_news _ .code id (Shape.recovers_string s)⟩
    | editor v => exact ⟨.editor, rfl, recovers_news _ .editor id (Shape.recovers_value v)⟩
    | speaker s =>
      exact ⟨.speaker, rfl, recovers_news _ .speaker id (Speaker.recovers_reread finite)⟩
  exact read_event named (recovers _ ((depth_news_le_iff c id).mpr legible))

/-- A message is read back from its text as it is reread. -/
theorem read_text_reread (finite : m.Finite) (legible : m.Legible) :
    read m.text = .ok m.reread := by
  cases m with
  | hello id players time =>
    have named : ServerKind.ofName? "hello" = some .hello := rfl
    have recovers := recovers_greeting id finite.1 finite.2
    exact read_event named (recovers _ ((depth_greeting_le_iff id players time).mpr legible))
  | join id =>
    have named : ServerKind.ofName? "join" = some .join := rfl
    have word := Shape.recovers_word id (deepest - 1) (Nat.zero_le _)
    exact read_event named (word.map ServerMessage.join)
  | leave id =>
    have named : ServerKind.ofName? "leave" = some .leave := rfl
    have word := Shape.recovers_word id (deepest - 1) (Nat.zero_le _)
    exact read_event named (word.map ServerMessage.leave)
  | changed c id => exact read_changed finite legible
  | reset => exact read_reset

/-- A message whose parts are read back as they were is read back as it was. -/
theorem read_text (survives : m.Survives) (legible : m.Legible) : read m.text = .ok m := by
  rw [read_text_reread (finite_of_survives survives) legible, reread_of_survives survives]

/-- A message, a participant and a speaker are read back from their texts as they were. -/
theorem written_read_back :
    (∀ m : ServerMessage, m.Survives → m.Legible → read m.text = .ok m) ∧
    (∀ p : Participant, p.Survives → (∀ v ∈ p.editor, v.depth ≤ deepest - 1) →
      Participant.shape.read p.toValue.text = .ok p) ∧
    ∀ s : Speaker, s.Survives → Speaker.shape.read s.toValue.text = .ok s := by
  refine ⟨fun m => read_text, ?_, ?_⟩
  · intro p survives few
    apply Shape.read_of_recovers (Participant.recovers_toValue survives)
    exact Participant.depth_toValue_le few
  · intro s survives
    apply Shape.read_of_recovers (Speaker.recovers_toValue survives)
    rw [s.depth_toValue]
    decide

/-- An editor with the two ends of the whole numbers and half of one, and as deep as a greeting
allows. -/
def shownEditor : Value :=
  .object [("ends", .list [.number (.unsigned 18446744073709551615),
      .number (.negative (-9223372036854775808) (by decide))]),
    ("gain", .number (.real ⟨0x3FE0000000000000⟩)), ("nodes", .nested 122)]

/-- A participant with that editor, whose speaker stands at a negative zero. -/
def shownParticipant : Participant :=
  ⟨3, "\"bd*2\"\n", some shownEditor, ⟨.negativeZero, .zero, .zero⟩⟩

theorem survives_shownParticipant : shownParticipant.Survives := by
  have half : (⟨0x3FE0000000000000⟩ : Binary64).Survives := ⟨by decide, by decide +kernel⟩
  have zero : Binary64.zero.Survives := ⟨by decide, by decide +kernel⟩
  have negativeZero : Binary64.negativeZero.Survives := ⟨by decide, by decide +kernel⟩
  refine ⟨?_, negativeZero, zero, zero⟩
  rintro v ⟨⟩
  refine ⟨nofun, .object (by decide) ?_, .object ?_⟩
  · simpa using ⟨.list (by simp [Value.Ordered.number]), .number _, Value.ordered_nested 122⟩
  · simpa using ⟨.list (by simp [Value.Survives.unsigned, Value.Survives.negative]), .real half,
      Value.survives_nested 122⟩

/-- Such a participant is read back from its text and from a greeting. -/
theorem written_read_back_shown :
    read (hello 4 [shownParticipant] .zero).text = .ok (hello 4 [shownParticipant] .zero) ∧
    Participant.shape.read shownParticipant.toValue.text = .ok shownParticipant ∧
    Speaker.shape.read shownParticipant.speaker.toValue.text = .ok shownParticipant.speaker := by
  have survives := survives_shownParticipant
  have depth : shownEditor.depth = 123 := by
    simp [shownEditor, Value.depth, Value.itemsDepth, Value.membersDepth, Value.depth_nested]
  refine ⟨written_read_back.1 _ ⟨?_, survives.speaker.y⟩ ?_, written_read_back.2.1 _ survives ?_,
    written_read_back.2.2 _ survives.speaker⟩
  · intro p member
    rw [List.mem_singleton.mp member]
    exact survives
  · intro p member
    rw [List.mem_singleton.mp member]
    rintro v ⟨⟩
    exact depth.le
  · rintro v ⟨⟩
    rw [depth]
    decide

end ServerMessage

end LiveRelay
