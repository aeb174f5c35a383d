import LiveRelay.Proofs.Json.Shape
import LiveRelay.Proofs.Wire.ClientFrame
import LiveRelay.Wire.Encoding
import LiveRelay.Wire.ServerFrame

/-! # Reading the frames of the room back

A frame of the room brings the editor of a participant as it was stored. In a greeting it stands
four brackets deep and in the news of a change two, and the reader counts every bracket. So it
depends on the editors alone whether a frame can be read.
-/

namespace LiveRelay

open Json

namespace Speaker

theorem takes_toValue {s : Speaker} (finite : s.Finite) : shape.Takes s.toValue :=
  Record.takes_object fun _ =>
    Record.settles_cons rfl rfl (Shape.takes_real finite.x) fun _ =>
    Record.settles_cons rfl rfl (Shape.takes_real finite.y) fun _ =>
    Record.settles_cons rfl rfl (Shape.takes_real finite.angle) fun _ =>
    Record.settles_nil rfl

end Speaker

namespace Participant

theorem takes_toValue {p : Participant} (finite : p.speaker.Finite) : shape.Takes p.toValue :=
  Record.takes_object fun _ =>
    Record.settles_cons rfl rfl (Shape.takes_word p.id) fun _ =>
    Record.settles_cons rfl rfl (Shape.takes_string p.code) fun _ =>
    Record.settles_cons rfl rfl (Shape.takes_nullable _) fun _ =>
    Record.settles_cons rfl rfl (Speaker.takes_toValue finite) fun _ =>
    Record.settles_nil rfl

end Participant

namespace ServerMessage

theorem takes_hello (id : ParticipantId) {players : List Participant} {time : Binary64}
    (finite : ∀ p ∈ players, p.speaker.Finite) (timely : time.isFinite = true) :
    helloRecord.shape.Takes (.object [("id", wordValue id),
      ("players", .list (players.map Participant.toValue)), ("time", .number (.real time))]) := by
  have each : ∀ v ∈ players.map Participant.toValue, Participant.shape.Takes v := by
    intro v member
    obtain ⟨p, present, rfl⟩ := List.mem_map.mp member
    exact Participant.takes_toValue (finite p present)
  exact Record.takes_object fun _ =>
    Record.settles_cons rfl rfl (Shape.takes_word id) fun _ =>
    Record.settles_cons rfl rfl (Shape.takes_list each) fun _ =>
    Record.settles_cons rfl rfl (Shape.takes_real timely) fun _ =>
    Record.settles_nil rfl

theorem takes_changed {α : Type} (name : String) {state : Shape α} (change : α → Change)
    (id : ParticipantId) {v : Value} (takes : state.Takes v) :
    (changedRecord name state change).shape.Takes
      (.object [("state", v), ("id", wordValue id)]) :=
  Record.takes_object fun _ =>
    Record.settles_cons rfl rfl takes fun _ =>
    Record.settles_cons rfl rfl (Shape.takes_word id) fun _ =>
    Record.settles_nil rfl

section

variable {name : String} {kind : ServerKind} {data : Value} {d : Nat}

theorem reads_kind (named : ServerKind.ofName? name = some kind) (d : Nat) :
    Reads (readKind d) (quoted name) kind := by
  have read : Reads (kindShape.ofText d) (quoted name) kind :=
    Shape.reads_ofHead (Json.reads_string name) (by simp only [kindOf, named])
  intro rest delimited
  have head := read rest delimited
  rw [quoted, List.cons_append] at head ⊢
  unfold readKind
  rw [skipBlanks_cons rfl]
  exact head

theorem reads_event (named : ServerKind.ofName? name = some kind) (d : Nat) :
    Reads (memberStep (readMember d) .empty ("event", .string name))
      (memberText ("event", .string name)) (.named kind) := by
  intro rest delimited
  have read := reads_kind named d rest delimited
  simp only [memberStep, memberText, List.cons_append, readMember, readColon_cons, bind,
    Except.bind, Value.chars, read, pure, Except.pure]

theorem readMember_data (kind : ServerKind) (d : Nat) (s : List Char) :
    readMember d (.named kind) "data" (':' :: s) =
      ((dataShape kind).ofText d s).map fun (m, s) => (.complete m, s) := by
  simp only [readMember, readColon_cons, bind, Except.bind, pure, Except.pure]
  cases (dataShape kind).ofText d s <;> rfl

theorem read_object (members : List (String × Value)) : read (Value.object members).text = do
    let (m, s) ← readObject (deepest - 1) (Value.memberChars true members ++ ['}'])
    closeText s
    return m := by
  rw [read, Value.toList_text]
  rfl

theorem readObject_of_folds {members : List (String × Value)} {draft : Draft} {m : ServerMessage}
    (folds : Folds (memberStep (readMember d)) memberText .empty members draft)
    (finished : finish draft = .ok m) :
    readObject d (Value.memberChars true members ++ ['}']) = .ok (m, []) := by
  rw [readObject, foldMembers_of_folds folds []]
  simp only [finished, bind, Except.bind, pure, Except.pure, closeObject_cons]

theorem read_of_folds {members : List (String × Value)} {draft : Draft} {m : ServerMessage}
    (folds : Folds (memberStep (readMember (deepest - 1))) memberText .empty members draft)
    (finished : finish draft = .ok m) : read (Value.object members).text = .ok m := by
  rw [read_object, readObject_of_folds folds finished]
  rfl

/-- An event is read if its data are. -/
theorem read_event {m : ServerMessage} (named : ServerKind.ofName? name = some kind)
    (reads : Reads ((dataShape kind).ofText (deepest - 1)) data.chars m) :
    read (event name data).text = .ok m := by
  have first := reads_event named (deepest - 1)
  have second := (reads.map Draft.complete).opened (readMember_data kind (deepest - 1))
  exact read_of_folds (.cons first (.cons second .nil)) rfl

/-- An event is read back if its data nest no deeper than they may inside the frame. -/
theorem read_event_iff (named : ServerKind.ofName? name = some kind)
    (takes : (dataShape kind).Takes data) :
    (∃ m, read (event name data).text = .ok m) ↔ data.depth ≤ deepest - 1 := by
  constructor
  · rintro ⟨m, read⟩
    by_contra deep
    have first := reads_event named (deepest - 1)
    have rejects := ((takes (deepest - 1)).rejects deep).map Draft.complete
    have stops : Stops (memberStep (readMember (deepest - 1))) memberText .empty
        [("event", .string name), ("data", data)] := by
      refine .later first (.here fun rest delimited => ?_)
      obtain ⟨f, failed⟩ := rejects rest delimited
      exact ⟨f, (readMember_data kind (deepest - 1) _).trans failed⟩
    obtain ⟨f, failed⟩ := foldMembers_of_stops stops []
    rw [event, read_object, readObject, failed] at read
    cases read
  · intro few
    obtain ⟨m, reads⟩ := (takes (deepest - 1)).reads few
    exact ⟨m, read_event named reads⟩

theorem read_reset : read ServerMessage.reset.text = .ok .reset :=
  read_of_folds (.cons (reads_event rfl (deepest - 1)) .nil) rfl

end

/-- A message that brings no double but finite ones, the editors aside. -/
def Finite : ServerMessage → Prop
  | .hello _ players time => (∀ p ∈ players, p.speaker.Finite) ∧ time.isFinite = true
  | .changed (.speaker s) _ => s.Finite
  | .join _ | .leave _ | .changed (.code _) _ | .changed (.editor _) _ | .reset => True

/-- A message whose editors leave room for the brackets around them. -/
def Legible : ServerMessage → Prop
  | .hello _ players _ => ∀ p ∈ players, ∀ v ∈ p.editor, v.depth ≤ deepest - 4
  | .changed (.editor v) _ => v.depth ≤ deepest - 2
  | .join _ | .leave _ | .changed (.code _) _ | .changed (.speaker _) _ | .reset => True

theorem depth_toValue_le_iff (p : Participant) :
    p.toValue.depth ≤ deepest - 3 ↔ ∀ v ∈ p.editor, v.depth ≤ deepest - 4 := by
  have depth : p.toValue.depth = max (p.editor.getD .null).depth 1 + 1 := by
    simp only [Participant.toValue, Speaker.toValue, wordValue, Value.depth, Value.membersDepth]
    omega
  rw [depth, deepest]
  cases p.editor with
  | none =>
    refine iff_of_true (by decide) ?_
    intro v stored
    cases stored
  | some v =>
    simp only [Option.getD_some, Option.mem_some_iff, forall_eq']
    omega

/-- The data of a greeting nest as deep as its editors make them. -/
theorem depth_greeting_le_iff (id : ParticipantId) (players : List Participant)
    (time : Binary64) :
    (Value.object [("id", wordValue id), ("players", .list (players.map Participant.toValue)),
      ("time", .number (.real time))]).depth ≤ deepest - 1 ↔ (hello id players time).Legible := by
  have each : Value.itemsDepth (players.map Participant.toValue) ≤ deepest - 3 ↔
      (hello id players time).Legible := by
    simp only [Value.itemsDepth_le_iff, List.forall_mem_map, depth_toValue_le_iff, Legible]
  rw [← each]
  simp only [Value.depth, Value.membersDepth, wordValue, deepest]
  omega

/-- The data of a change nest as deep as an editor makes them. -/
theorem depth_news_le_iff (c : Change) (id : ParticipantId) :
    (Value.object [("state", c.toValue), ("id", wordValue id)]).depth ≤ deepest - 1 ↔
      (changed c id).Legible := by
  have state : (Value.object [("state", c.toValue), ("id", wordValue id)]).depth =
      c.toValue.depth + 1 := by
    simp only [Value.depth, Value.membersDepth, wordValue]
    omega
  rw [state]
  cases c with
  | code s => exact iff_of_true (by simp [Change.toValue, Value.depth, deepest]) trivial
  | editor v =>
    simp only [Change.toValue, Legible, deepest]
    omega
  | speaker s =>
    have shallow : s.toValue.depth = 1 := by
      simp [Speaker.toValue, Value.depth, Value.membersDepth]
    exact iff_of_true (by simp [Change.toValue, shallow, deepest]) trivial

theorem read_changed_iff (id : ParticipantId) {c : Change}
    (finite : (changed c id).Finite) :
    (∃ m, read (changed c id).text = .ok m) ↔ (changed c id).Legible := by
  obtain ⟨kind, named, takes⟩ : ∃ kind, ServerKind.ofName? c.kind.name = some kind ∧
      (dataShape kind).Takes (.object [("state", c.toValue), ("id", wordValue id)]) := by
    cases c with
    | code s => exact ⟨.code, rfl, takes_changed _ _ id (Shape.takes_string s)⟩
    | editor v => exact ⟨.editor, rfl, takes_changed _ _ id (Shape.takes_value v)⟩
    | speaker s => exact ⟨.speaker, rfl, takes_changed _ _ id (Speaker.takes_toValue finite)⟩
  exact (read_event_iff named takes).trans (depth_news_le_iff c id)

/-- A message is read back if its editors leave room for the brackets around them, and not
otherwise. -/
theorem read_text_iff {m : ServerMessage} (finite : m.Finite) :
    (∃ back, read m.text = .ok back) ↔ m.Legible := by
  cases m with
  | hello id players time =>
    have named : ServerKind.ofName? "hello" = some .hello := rfl
    have takes : (dataShape .hello).Takes _ := takes_hello id finite.1 finite.2
    exact (read_event_iff named takes).trans (depth_greeting_le_iff id players time)
  | join id =>
    have named : ServerKind.ofName? "join" = some .join := rfl
    have takes : (dataShape .join).Takes (wordValue id) := fun d =>
      (Shape.takes_word id d).map ServerMessage.join
    exact (read_event_iff named takes).trans (iff_of_true (Nat.zero_le _) trivial)
  | leave id =>
    have named : ServerKind.ofName? "leave" = some .leave := rfl
    have takes : (dataShape .leave).Takes (wordValue id) := fun d =>
      (Shape.takes_word id d).map ServerMessage.leave
    exact (read_event_iff named takes).trans (iff_of_true (Nat.zero_le _) trivial)
  | changed c id => exact read_changed_iff id finite
  | reset => exact iff_of_true ⟨_, read_reset⟩ trivial

end ServerMessage

end LiveRelay
