import LiveRelay.Proofs.Json.Finite
import LiveRelay.Proofs.Json.Recovery
import LiveRelay.Wire.ClientFrame

/-! # What clients can say

A speaker in a frame of a client stands at finite coordinates: its numbers were read from a text. An
editor may nest as deep as the frame around it allows.
-/

namespace LiveRelay

open Json

namespace Speaker

/-- A speaker all of whose coordinates are finite. -/
structure Finite (s : Speaker) : Prop where
  x : s.x.isFinite = true
  y : s.y.isFinite = true
  angle : s.angle.isFinite = true

theorem finite_origin : origin.Finite := ⟨rfl, rfl, rfl⟩

theorem isFinite_of_real {v : Value} {x : Binary64} (finite : v.Finite)
    (found : Shape.real.ofValue v = .ok x) : x.isFinite = true := by
  cases v with
  | number n =>
    cases found
    exact finite
  | _ => cases found

/-- A draft whose coordinates are finite as far as they are known. -/
structure Draft.Finite (d : Draft) : Prop where
  x : ∀ x ∈ d.x, x.isFinite = true
  y : ∀ y ∈ d.y, y.isFinite = true
  angle : ∀ a ∈ d.angle, a.isFinite = true

theorem finite_of_field {field : Json.Field Draft} (member : field ∈ record.fields) {v : Value}
    {put : Draft → Draft} (finite : v.Finite) (filled : field.shape.ofValue v = .ok put)
    {draft : Draft} (holds : draft.Finite) : (put draft).Finite := by
  simp only [record, List.mem_cons, List.not_mem_nil, or_false] at member
  rcases member with rfl | rfl | rfl
  · obtain ⟨x, read, rfl⟩ := map_eq_ok_iff.mp filled
    refine ⟨?_, holds.y, holds.angle⟩
    rintro _ ⟨⟩
    exact isFinite_of_real finite read
  · obtain ⟨y, read, rfl⟩ := map_eq_ok_iff.mp filled
    refine ⟨holds.x, ?_, holds.angle⟩
    rintro _ ⟨⟩
    exact isFinite_of_real finite read
  · obtain ⟨a, read, rfl⟩ := map_eq_ok_iff.mp filled
    refine ⟨holds.x, holds.y, ?_⟩
    rintro _ ⟨⟩
    exact isFinite_of_real finite read

/-- A speaker that is found among finite numbers is finite. -/
theorem finite_of_ofValue {v : Value} {s : Speaker} (finite : v.Finite)
    (found : shape.ofValue v = .ok s) : s.Finite := by
  have empty : record.empty.Finite := by constructor <;> simp [record]
  obtain ⟨⟨x, y, angle⟩, holds, finished⟩ := Record.finish_of_ofValue finite
    (fun _ member _ _ finite filled _ holds => finite_of_field member finite filled holds)
    empty found
  cases x <;> cases y <;> cases angle <;> cases finished
  exact ⟨holds.x _ rfl, holds.y _ rfl, holds.angle _ rfl⟩

end Speaker

namespace Envelope

section

variable {Q : Value → Prop} {d : Nat} {s rest : List Char}

/-- What is read of data that may be `null` is never `null`. -/
theorem nullable_eq_ok {data : Option Value}
    (read : Shape.nullable.ofText d s = .ok (data, rest)) {v : Value} (present : v ∈ data) :
    ∃ w, readTree d s = .ok (w, rest) ∧ w ≠ .null ∧ v = w.canonical := by
  obtain ⟨⟨w, s⟩, tree, same⟩ := map_eq_ok_iff.mp read
  cases w <;> cases same <;> cases present <;> exact ⟨_, tree, nofun, rfl⟩

theorem data_of_field (each : ∀ d s w rest, readTree d s = .ok (w, rest) → w ≠ .null → Q w.canonical)
    {field : Json.Field Draft} (member : field ∈ record.fields) {put : Draft → Draft}
    (filled : field.shape.ofText d s = .ok (put, rest)) {draft : Draft}
    (holds : ∀ data ∈ draft.data, ∀ v ∈ data, Q v) : ∀ data ∈ (put draft).data, ∀ v ∈ data, Q v := by
  simp only [record, List.mem_cons, List.not_mem_nil, or_false] at member
  rcases member with rfl | rfl
  · obtain ⟨⟨e, s⟩, -, same⟩ := map_eq_ok_iff.mp filled
    cases same
    exact holds
  · obtain ⟨⟨data, s⟩, nullable, same⟩ := map_eq_ok_iff.mp filled
    cases same
    rintro _ ⟨⟩ v present
    obtain ⟨w, tree, there, rfl⟩ := nullable_eq_ok nullable present
    exact each _ _ w _ tree there

/-- The data of an envelope are the canonical form of a value that was read and is not `null`. -/
theorem data_of_read (each : ∀ d s w rest, readTree d s = .ok (w, rest) → w ≠ .null → Q w.canonical)
    {e : Envelope} (read : record.shape.ofText d s = .ok (e, rest)) : ∀ v ∈ e.data, Q v := by
  have empty : ∀ data ∈ record.empty.data, ∀ v ∈ data, Q v := nofun
  obtain ⟨⟨event, data⟩, holds, finished⟩ := Record.finish_of_ofText
    (P := fun draft => ∀ data ∈ draft.data, ∀ v ∈ data, Q v)
    (fun _ member _ _ _ _ filled _ holds => data_of_field each member filled holds) empty read
  cases event <;> cases finished
  cases data with
  | none => exact nofun
  | some data => exact holds data rfl

end

end Envelope

namespace ClientMessage

/-- A message is found in an envelope, and the data of that are not `null` and have only finite
numbers. -/
theorem envelope_of_read {text : String} {m : Option ClientMessage}
    (read : ClientMessage.read text = .ok m) :
    ∃ e, ofEnvelope e = .ok m ∧ ∀ v ∈ e.data, v ≠ .null ∧ v.Finite := by
  unfold ClientMessage.read at read
  split at read
  · next e shaped =>
    obtain ⟨⟨e', rest⟩, envelope, closed⟩ := bind_eq_ok_iff.mp shaped
    obtain ⟨-, -, same⟩ := bind_eq_ok_iff.mp closed
    cases same
    refine ⟨e, read, Envelope.data_of_read ?_ envelope⟩
    intro d s w rest tree present
    exact ⟨Value.canonical_ne_null present, w.finite_canonical (finite_of_readTree tree)⟩
  · cases read

/-- A payload is found in the data of an envelope. -/
theorem data_of_payload {α : Type} {kind : ClientKind} {shape : Shape α} {data : Option Value}
    {a : α} (found : payload kind shape data = .ok a) : ∃ v ∈ data, shape.ofValue v = .ok a := by
  cases data with
  | none => cases found
  | some v =>
    refine ⟨v, rfl, ?_⟩
    simp only [payload] at found
    cases given : shape.ofValue v with
    | error cause =>
      rw [given] at found
      cases found
    | ok b =>
      rw [given] at found
      cases found
      rfl

/-- A client cannot put its speaker at an infinite place. -/
theorem finite_of_read {text : String} {s : Speaker}
    (read : ClientMessage.read text = .ok (some (.change (.speaker s)))) : s.Finite := by
  obtain ⟨e, made, sound⟩ := envelope_of_read read
  unfold ofEnvelope at made
  split at made
  · obtain ⟨t, -, same⟩ := map_eq_ok_iff.mp made
    cases same
  · obtain ⟨t, -, same⟩ := map_eq_ok_iff.mp made
    cases same
  · obtain ⟨t, found, same⟩ := map_eq_ok_iff.mp made
    cases same
    obtain ⟨v, data, given⟩ := data_of_payload found
    exact Speaker.finite_of_ofValue (sound v data).2 given
  · cases made
  · cases made

/-- A client cannot share an editor that is `null` or has an infinite number in it. -/
theorem editor_of_read {text : String} {v : Value}
    (read : ClientMessage.read text = .ok (some (.change (.editor v)))) :
    v ≠ .null ∧ v.Finite := by
  obtain ⟨e, made, sound⟩ := envelope_of_read read
  unfold ofEnvelope at made
  split at made
  · obtain ⟨t, -, same⟩ := map_eq_ok_iff.mp made
    cases same
  · obtain ⟨t, found, same⟩ := map_eq_ok_iff.mp made
    cases same
    obtain ⟨w, data, given⟩ := data_of_payload found
    obtain ⟨present, finite⟩ := sound w data
    cases given
    exact ⟨Value.canonical_ne_null present, w.finite_canonical finite⟩
  · obtain ⟨t, -, same⟩ := map_eq_ok_iff.mp made
    cases same
  · cases made
  · cases made

/-- A frame of a client is read as its event with its data, if these come back as they were. -/
theorem read_event (event : String) {v : Value} (present : v ≠ .null) (ordered : v.Ordered)
    (survives : v.Survives) (few : v.depth ≤ deepest - 1) :
    read (Value.object [("event", .string event), ("data", v)]).text =
      ofEnvelope ⟨event, some v⟩ := by
  have data : Shape.nullable.Recovers v (some v) :=
    Shape.recovers_stored (e := some v) (by rintro w ⟨⟩; exact ⟨present, ordered, survives⟩)
  have fills : Envelope.record.Fills Envelope.record.empty
      [("event", .string event), ("data", v)] ⟨event, some v⟩ :=
    Record.fills_cons rfl rfl (Shape.recovers_string event) <|
    Record.fills_cons rfl rfl data <|
    Record.fills_nil rfl
  have shallow : (Value.object [("event", .string event), ("data", v)]).depth ≤ deepest := by
    simp only [Value.depth, Value.membersDepth, deepest] at few ⊢
    omega
  rw [read, Shape.read_of_recovers (Record.recovers_object fills) shallow]

/-- An editor may nest in a frame of a client as deep as the brackets of the frame allow. -/
theorem read_editor {v : Value} (present : v ≠ .null) (ordered : v.Ordered)
    (survives : v.Survives) (few : v.depth ≤ deepest - 1) :
    read (Value.object [("event", .string "editor"), ("data", v)]).text =
      .ok (some (.change (.editor v))) := by
  rw [read_event "editor" present ordered survives few]
  simp only [ofEnvelope, ClientKind.ofName?, payload, Shape.value,
    Value.canonical_of_ordered ordered, Except.mapError, Except.map]

end ClientMessage

end LiveRelay
