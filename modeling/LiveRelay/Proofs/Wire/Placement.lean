import LiveRelay.Proofs.Wire.Classification
import LiveRelay.Proofs.Wire.EitherOrder

/-! # A speaker is the same in a frame and on its own

The room reads the data of a frame as a value, with the members of every object in the order of
their keys, and looks for a speaker in it then. A listener reads a speaker straight from its text.
As long as no key is repeated, ordering the members only moves them about, and it leaves numbers as
they are; so both find the same three numbers, or neither finds them.
-/

namespace LiveRelay

open Json

namespace Json.Value

/-- A member with a new key is put among the others. -/
theorem putMember_perm {key : String} {v : Value} {members : List (String × Value)}
    (absent : key ∉ members.map (·.1)) :
    (putMember key v members).Perm ((key, v) :: members) := by
  induction members with
  | nil => exact .refl _
  | cons m rest ih =>
    obtain ⟨other, later⟩ : key ≠ m.1 ∧ key ∉ rest.map (·.1) := by simpa using absent
    by_cases below : key < m.1
    · rw [putMember, if_pos below]
    · rw [putMember, if_neg below, if_neg other]
      exact ((ih later).cons m).trans (.swap (key, v) m rest)

/-- Members whose keys differ are made canonical, and put in order among those before them. -/
theorem canonicalMembers_perm {members done : List (String × Value)}
    (distinct : ((done ++ members).map (·.1)).Nodup) : (canonicalMembers done members).Perm
      (done ++ members.map fun m => (m.1, m.2.canonical)) := by
  induction members generalizing done with
  | nil => rw [canonicalMembers, List.map_nil, List.append_nil]
  | cons m rest ih =>
    rw [List.map_append, List.map_cons] at distinct
    have absent : m.1 ∉ done.map (·.1) := fun there =>
      (List.nodup_append.mp distinct).2.2 m.1 there m.1 List.mem_cons_self rfl
    have put : (putMember m.1 m.2.canonical done).Perm ((m.1, m.2.canonical) :: done) :=
      putMember_perm absent
    have keys : ((putMember m.1 m.2.canonical done ++ rest).map (·.1)).Nodup := by
      rw [List.map_append, ((put.map (·.1)).append_right _).nodup_iff]
      exact (List.perm_middle.nodup_iff).mp distinct
    rw [canonicalMembers, List.map_cons]
    exact (ih keys).trans ((put.append_right _).trans List.perm_middle.symm)

/-- The members of an object without a repeated key stay in it. -/
theorem exists_canonical {members : List (String × Value)}
    (distinct : (object members).DistinctKeys) : ∃ ordered,
      (object members).canonical = .object ordered ∧
        ordered.Perm (members.map fun m => (m.1, m.2.canonical)) :=
  ⟨_, rfl, canonicalMembers_perm (by rwa [List.nil_append])⟩

theorem DistinctKeys.canonical {v : Value} (distinct : v.DistinctKeys) :
    v.canonical.DistinctKeys := by
  cases v with
  | object members =>
    obtain ⟨ordered, same, perm⟩ := exists_canonical distinct
    rw [same, DistinctKeys, (perm.map (·.1)).nodup_iff, List.map_map]
    exact distinct
  | _ => trivial

theorem canonical_eq_number_iff {v : Value} {n : Number} :
    v.canonical = .number n ↔ v = .number n := by
  cases v <;> simp [Value.canonical]

end Json.Value

namespace Speaker

variable {v : Value} {x y angle : Number} {s : Speaker}

/-- The numbers that place a speaker stay where they are when members are put in order. -/
theorem places_canonical_iff (distinct : v.DistinctKeys) :
    Places v.canonical x y angle ↔ Places v x y angle := by
  cases v with
  | null | boolean b | number n | string t => rfl
  | list items =>
    rw [Value.canonical, Value.canonicalItems_eq, List.reverse_nil, List.nil_append]
    constructor
    · intro places
      generalize same : items.map Value.canonical = ordered at places
      cases places
      simp only [List.map_eq_cons_iff, List.map_eq_nil_iff, Value.canonical_eq_number_iff] at same
      obtain ⟨_, _, rfl, rfl, _, _, rfl, rfl, _, _, rfl, rfl, rfl⟩ := same
      exact .list x y angle
    · rintro ⟨⟩
      exact .list x y angle
  | object members =>
    obtain ⟨ordered, same, perm⟩ := Value.exists_canonical distinct
    have number (key : String) (n : Number) :
        (key, .number n) ∈ ordered ↔ (key, .number n) ∈ members := by
      simp [perm.mem_iff, Value.canonical_eq_number_iff]
    rw [same]
    constructor
    · rintro ⟨x_mem, y_mem, angle_mem⟩
      exact .object ((number "x" x).mp x_mem) ((number "y" y).mp y_mem)
        ((number "angle" angle).mp angle_mem)
    · rintro ⟨x_mem, y_mem, angle_mem⟩
      exact .object ((number "x" x).mpr x_mem) ((number "y" y).mpr y_mem)
        ((number "angle" angle).mpr angle_mem)

/-- A speaker is found in a value as it is found in the value in order. -/
theorem ofValue_canonical_iff (distinct : v.DistinctKeys) :
    shape.ofValue v.canonical = .ok s ↔ shape.ofValue v = .ok s := by
  rw [ofValue_eq_ok_iff distinct, ofValue_eq_ok_iff distinct.canonical]
  simp only [places_canonical_iff distinct]

end Speaker

namespace ClientMessage

open Envelope

/-- The frame that moves a speaker with these data. -/
def speakerFrame (data : String) : String :=
  "\x7b\"event\":\"speaker\",\"data\":" ++ data ++ "\x7d"

variable {data : String} {v : Value}

/-- The event of such a frame. -/
def speakerEvent : Member :=
  { shownEvent with value := .string (plain "speaker".toList (by decide)) }

/-- The data of such a frame. -/
def speakerData (p : Phrase) : Member := { shownData with value := p }

theorem spelled_of_stands {p : Phrase} {text : List Char} (stands : Stands p text) :
    Spelled [speakerEvent, speakerData p]
      ("\x7b\"event\":\"speaker\",\"data\":".toList ++ (text ++ "\x7d".toList)) := by
  obtain ⟨before_blank, here, after_blank⟩ := stands
  have none : Blanks [] := blanks_nil
  have event : Entry Spells speakerEvent.entry _ := .mk none none (.string _)
  have brought : Entry Spells (speakerData p).entry _ := .mk none before_blank here
  have spelled : Spelled [speakerEvent, speakerData p] _ := .mk none none
    (.cons (.first none) event (.cons (.next none none) brought (.nil after_blank)))
  simp only [List.nil_append, List.append_nil, List.cons_append, List.append_assoc] at spelled ⊢
  exact spelled

theorem spelled_speakerFrame {p : Phrase} (stands : Stands p data.toList) :
    Spelled [speakerEvent, speakerData p] (speakerFrame data).toList := by
  have spelled := spelled_of_stands stands
  rw [← String.toList_append, ← String.toList_append, ← String.append_assoc] at spelled
  exact spelled

theorem ofValue_nullable (present : v ≠ .null) :
    Shape.nullable.ofValue v = .ok (some v.canonical) := by
  cases v with
  | null => exact absurd rfl present
  | _ => rfl

/-- The frame is an envelope of the data in order. -/
theorem envelope_speakerFrame (parses : Parses (deepest - 1) data.toList v) (present : v ≠ .null) :
    Envelope.record.shape.read (speakerFrame data) = .ok ⟨"speaker", some v.canonical⟩ := by
  obtain ⟨p, stands, value⟩ := parses_iff.mp parses
  have kept : kept? p = some (some v.canonical) := by
    rw [kept?, value, Option.map_some, ofValue_nullable present]
    rfl
  have events : valuesOf "event" [speakerEvent, speakerData p] = [speakerEvent.value] := rfl
  have brought : valuesOf "data" [speakerEvent, speakerData p] = [p] := rfl
  have read := toOption_read_eq (spelled_speakerFrame stands)
  rw [events, brought, ofValues?] at read
  have event : fill Phrase.string? none [speakerEvent.value] = some (some "speaker") := rfl
  have filled : fill kept? none [p] = some (some (some v.canonical)) := by
    rw [fill, kept]
    rfl
  rw [event, Option.bind_some, filled, Option.bind_some] at read
  exact toOption_eq_some_iff.mp read

/-- A frame moves a speaker to where its data place it when they are read on their own, and is
refused for its data if they are no speaker. -/
theorem read_speakerFrame (parses : Parses (deepest - 1) data.toList v) (present : v ≠ .null)
    (distinct : v.DistinctKeys) :
    (∀ s, read (speakerFrame data) = .ok (some (.change (.speaker s))) ↔
      Speaker.shape.read data = .ok s) ∧
    ((∀ s, Speaker.shape.read data ≠ .ok s) →
      (∃ cause, read (speakerFrame data) = .error (.payload .speaker cause)) ∧
        ∃ f, Speaker.shape.read data = .error f) := by
  have direct : (Speaker.shape.read data).toOption = (Speaker.shape.ofValue v).toOption :=
    Speaker.agrees_shape.read (parses.mono (by decide))
  have framed : read (speakerFrame data) =
      ((Speaker.shape.ofValue v.canonical).mapError (.payload .speaker)).map fun s =>
        some (.change (.speaker s)) := by
    rw [read, envelope_speakerFrame parses present]
    rfl
  have same (s : Speaker) : Speaker.shape.read data = .ok s ↔
      Speaker.shape.ofValue v.canonical = .ok s := by
    rw [Speaker.ofValue_canonical_iff distinct, ← toOption_eq_some_iff, direct,
      toOption_eq_some_iff]
  constructor
  · intro s
    rw [same s, framed]
    cases Speaker.shape.ofValue v.canonical with
    | error cause => simp [Except.mapError, Except.map]
    | ok t => simp [Except.mapError, Except.map]
  · intro missing
    cases found : Speaker.shape.ofValue v.canonical with
    | ok s => exact absurd ((same s).mpr found) (missing s)
    | error cause =>
      refine ⟨⟨cause, by rw [framed, found]; rfl⟩, ?_⟩
      cases alone : Speaker.shape.read data with
      | ok s => exact absurd alone (missing s)
      | error f => exact ⟨f, rfl⟩

/-- Two and a half, spelled with an exponent. -/
def shownHalves : Numeral := .ofWritten (l := ⟨false, ['2', '5'], none, some (true, ['1'])⟩)
  ⟨by simp, .inr ⟨'2', ['5'], rfl, by decide⟩, nofun, by simp⟩

/-- The first integer beyond a word. -/
def shownBeyond : Numeral := .ofWritten (l := ⟨false, "18446744073709551616".toList, none, none⟩)
  ⟨List.all_eq_true.mp rfl, .inr ⟨'1', "8446744073709551616".toList, rfl, by decide⟩, nofun, nofun⟩

/-- Zero with a sign. -/
def shownZero : Numeral := .ofWritten (l := ⟨true, ['0'], none, none⟩)
  ⟨by simp, .inl rfl, nofun, nofun⟩

/-- A remark with a member of its own. -/
def shownRemark : Phrase := .object [(shownOther.key, .string [])]

/-- The data of a speaker in no order, with a remark. -/
def shownPlacement : String :=
  "\x7b\"y\":25e-1,\"note\":\x7b\"x\":\"\"\x7d,\"angle\":18446744073709551616,\"x\":-0\x7d"

/-- The members that they come to. -/
def shownMembers : List (String × Value) :=
  [("y", .number (.real ⟨0x4004000000000000⟩)), ("note", .object [("x", .string "")]),
    ("angle", .number (.real ⟨0x43F0000000000000⟩)), ("x", .number (.real ⟨0x8000000000000000⟩))]

/-- A frame with those data moves a speaker to where they place it, and one with two numbers is
refused. -/
theorem read_speakerFrame_shown :
    read (speakerFrame shownPlacement) = .ok (some (.change (.speaker
      ⟨⟨0x8000000000000000⟩, ⟨0x4004000000000000⟩, ⟨0x43F0000000000000⟩⟩))) ∧
    ∃ cause, read (speakerFrame "[1,2]") = .error (.payload .speaker cause) := by
  constructor
  · have none : Blanks [] := by decide
    have y : Entry Spells (plain ['y'] (by decide), .number shownHalves) _ :=
      .mk none none (.number _)
    have note : Entry Spells (plain "note".toList (by decide), shownRemark) _ :=
      .mk none none (.object (.cons (.first none) (.mk none none (.string _)) (.nil none)))
    have angle : Entry Spells (plain "angle".toList (by decide), .number shownBeyond) _ :=
      .mk none none (.number _)
    have x : Entry Spells (plain ['x'] (by decide), .number shownZero) _ :=
      .mk none none (.number _)
    have stands : Stands (.object [_, _, _, _]) shownPlacement.toList :=
      .mk none (.object (.cons (.first none) y (.cons (.next none none) note
        (.cons (.next none none) angle (.cons (.next none none) x (.nil none)))))) none
    have halves : shownHalves.literal.value = .ok (.real ⟨0x4004000000000000⟩) := by
      decide +kernel
    have beyond : shownBeyond.literal.value = .ok (.real ⟨0x43F0000000000000⟩) := by
      decide +kernel
    have zero : shownZero.literal.value = .ok (.real ⟨0x8000000000000000⟩) := by
      decide +kernel
    have remark : shownRemark.value? 125 = some (.object [("x", .string "")]) := rfl
    have each : List.mapM (member? (Phrase.value? 125))
        [(plain ['y'] (by decide), .number shownHalves),
          (plain "note".toList (by decide), shownRemark),
          (plain "angle".toList (by decide), .number shownBeyond),
          (plain ['x'] (by decide), .number shownZero)] = some shownMembers := by
      simp only [List.mapM_cons, List.mapM_nil, member?, Phrase.value?, halves, beyond, zero,
        remark]
      rfl
    have parses : Parses (deepest - 1) shownPlacement.toList (.object shownMembers) :=
      parses_iff.mpr ⟨_, stands, congrArg (Option.map Value.object) each⟩
    have distinct : (shownMembers.map (·.1)).Nodup := by decide
    exact ((read_speakerFrame parses (by simp) distinct).1 _).mpr (by decide +kernel)
  · have parses : Parses (deepest - 1) "[1,2]".toList
        (.list [.number (.unsigned 1), .number (.unsigned 2)]) := ⟨[], rfl, rfl⟩
    have short : Speaker.shape.read "[1,2]" = .error _ := rfl
    have missing : ∀ s, Speaker.shape.read "[1,2]" ≠ .ok s := by simp [short]
    exact ((read_speakerFrame parses (by simp) trivial).2 missing).1

end ClientMessage

end LiveRelay
