import LiveRelay.Proofs.Wire.ClientFrame

/-! # What every frame of a client means

The text of an object with a name of an event and any data is read as an envelope, unless it nests
too deep, and then the event settles what the data have to be. `ClientMessage.Means` is the whole
table of events and data.
-/

namespace LiveRelay

open Json

namespace ClientKind

/-- A kind is found under its own name alone. -/
theorem ofName?_eq_some_iff {name : String} {kind : ClientKind} :
    ofName? name = some kind ↔ name = kind.name := by
  constructor
  · intro found
    unfold ofName? at found
    split at found <;> cases found <;> rfl
  · rintro rfl
    cases kind <;> rfl

end ClientKind

namespace Speaker

/-- The numbers that place a speaker: the members of an object with these keys, whatever else it
has, or the three items of a list. -/
inductive Places : Value → Number → Number → Number → Prop
  | object {members : List (String × Value)} {x y angle : Number}
      (x_mem : ("x", .number x) ∈ members) (y_mem : ("y", .number y) ∈ members)
      (angle_mem : ("angle", .number angle) ∈ members) : Places (.object members) x y angle
  | list (x y angle : Number) : Places (.list [.number x, .number y, .number angle]) x y angle

/-- The keys of a speaker. -/
inductive Key where
  | x
  | y
  | angle
deriving DecidableEq, Repr

namespace Key

/-- A key as it is written. -/
def name : Key → String
  | .x => "x"
  | .y => "y"
  | .angle => "angle"

theorem name_inj {k l : Key} (same : k.name = l.name) : k = l := by
  cases k <;> cases l <;> first | rfl | simp [name] at same

end Key

namespace Draft

/-- The coordinate of a key, if it is known. -/
def get (d : Draft) : Key → Option Binary64
  | .x => d.x
  | .y => d.y
  | .angle => d.angle

/-- Puts the coordinate of a key. -/
def put (d : Draft) (a : Binary64) : Key → Draft
  | .x => { d with x := some a }
  | .y => { d with y := some a }
  | .angle => { d with angle := some a }

theorem get_put (d : Draft) (a : Binary64) (k l : Key) :
    (d.put a k).get l = if l = k then some a else d.get l := by
  cases k <;> cases l <;> rfl

end Draft

theorem field?_key (k : Key) : record.field? k.name =
    some ⟨k.name, fun d => (d.get k).isSome, false, Shape.real.map fun a d => d.put a k⟩ := by
  cases k <;> rfl

theorem field?_other {key : String} (other : ∀ k : Key, key ≠ k.name) :
    record.field? key = none := by
  have apart (k : Key) : (k.name == key) = false := beq_eq_false_iff_ne.mpr (other k).symm
  have x := apart .x
  have y := apart .y
  have angle := apart .angle
  simp only [Key.name] at x y angle
  simp [Record.field?, record, x, y, angle]

/-- A member with a key of a speaker has to be a number, and the only one of its key so far. -/
theorem takeMember_key (d : Draft) (k : Key) (v : Value) :
    record.takeMember d (k.name, v) =
      if (d.get k).isSome then .error (.duplicateField k.name)
      else (Shape.real.ofValue v).map fun a => d.put a k := by
  simp only [Record.takeMember, field?_key, Shape.map]
  cases Shape.real.ofValue v <;> rfl

/-- Any other member is ignored. -/
theorem takeMember_other (d : Draft) {key : String} (other : ∀ k : Key, key ≠ k.name) (v : Value) :
    record.takeMember d (key, v) = .ok d := by
  simp only [Record.takeMember, field?_other other]

theorem real_eq_ok_iff {v : Value} {a : Binary64} :
    Shape.real.ofValue v = .ok a ↔ ∃ n, v = .number n ∧ n.toReal = a := by
  cases v <;> simp [Shape.real, Shape.ofHead, Value.head]

/-- What a member does to a draft. -/
theorem takeMember_eq_ok_iff {d next : Draft} {key : String} {v : Value} :
    record.takeMember d (key, v) = .ok next ↔
      (∀ k : Key, key ≠ k.name) ∧ next = d ∨
      ∃ k n, key = Key.name k ∧ d.get k = none ∧ v = .number n ∧ next = d.put n.toReal k := by
  by_cases named : ∃ k : Key, key = k.name
  · obtain ⟨k, rfl⟩ := named
    rw [takeMember_key]
    constructor
    · intro taken
      split at taken
      · cases taken
      · next missing =>
        obtain ⟨a, real, rfl⟩ := map_eq_ok_iff.mp taken
        obtain ⟨n, rfl, rfl⟩ := real_eq_ok_iff.mp real
        exact .inr ⟨k, n, rfl, by simpa using missing, rfl, rfl⟩
    · rintro (⟨other, -⟩ | ⟨l, n, same, missing, rfl, rfl⟩)
      · exact absurd rfl (other k)
      · obtain rfl := Key.name_inj same
        simp [missing, real_eq_ok_iff.mpr ⟨n, rfl, rfl⟩, Except.map]
  · have other : ∀ k : Key, key ≠ k.name := fun k same => named ⟨k, same⟩
    rw [takeMember_other d other]
    constructor
    · intro same
      exact .inl ⟨other, (Except.ok.inj same).symm⟩
    · rintro (⟨-, rfl⟩ | ⟨k, n, same, -⟩)
      · rfl
      · exact absurd same (other k)

/-- What is known of a speaker after some members was known before or is among them. -/
theorem get_of_foldlM {members : List (String × Value)} {d last : Draft}
    (found : members.foldlM record.takeMember d = .ok last) (k : Key) :
    last.get k = d.get k ∨ ∃ n, (k.name, .number n) ∈ members ∧ last.get k = some n.toReal := by
  induction members generalizing d with
  | nil =>
    cases found
    exact .inl rfl
  | cons m rest ih =>
    rw [List.foldlM_cons] at found
    obtain ⟨next, here, later⟩ := bind_eq_ok_iff.mp found
    rcases ih later with kept | ⟨n, member, known⟩
    · rcases takeMember_eq_ok_iff.mp here with ⟨-, rfl⟩ | ⟨l, n, same, -, number, rfl⟩
      · exact .inl kept
      · rw [Draft.get_put] at kept
        split at kept
        · next own =>
          subst own
          refine .inr ⟨n, ?_, kept⟩
          rw [← same, ← number]
          exact List.mem_cons_self
        · exact .inl kept
    · exact .inr ⟨n, List.mem_cons_of_mem m member, known⟩

/-- Members whose keys differ are found, if those with a key of a speaker are numbers. -/
theorem foldlM_ok {members : List (String × Value)} (distinct : (members.map (·.1)).Nodup)
    (numbers : ∀ k v, (Key.name k, v) ∈ members → ∃ n, v = .number n) {d : Draft}
    (missing : ∀ k, Key.name k ∈ members.map (·.1) → d.get k = none) :
    ∃ last, members.foldlM record.takeMember d = .ok last ∧
      ∀ k n, (Key.name k, .number n) ∈ members → last.get k = some n.toReal := by
  induction members generalizing d with
  | nil => exact ⟨d, rfl, by simp⟩
  | cons m rest ih =>
    obtain ⟨key, v⟩ := m
    obtain ⟨own, others⟩ := List.nodup_cons.mp distinct
    have later (k : Key) (w : Value) (member : (k.name, w) ∈ rest) :=
      numbers k w (List.mem_cons_of_mem _ member)
    by_cases named : ∃ k : Key, key = k.name
    · obtain ⟨k, rfl⟩ := named
      obtain ⟨n, rfl⟩ := numbers k v List.mem_cons_self
      have here : record.takeMember d (k.name, .number n) = .ok (d.put n.toReal k) :=
        takeMember_eq_ok_iff.mpr (.inr ⟨k, n, rfl, missing k List.mem_cons_self, rfl, rfl⟩)
      obtain ⟨last, found, known⟩ := ih others later (d := d.put n.toReal k) fun l member => by
        have other : l ≠ k := by
          rintro rfl
          exact own member
        rw [Draft.get_put, if_neg other]
        exact missing l (List.mem_cons_of_mem _ member)
      refine ⟨last, by rw [List.foldlM_cons, here]; exact found, ?_⟩
      intro l i member
      rcases List.mem_cons.mp member with same | member
      · obtain ⟨alike, rfl⟩ : l.name = k.name ∧ i = n := by simpa using same
        obtain rfl := Key.name_inj alike
        rcases get_of_foldlM found l with kept | ⟨j, again, -⟩
        · rw [kept, Draft.get_put, if_pos rfl]
        · exact absurd (List.mem_map_of_mem again) own
      · exact known l i member
    · have other : ∀ k : Key, key ≠ k.name := fun k same => named ⟨k, same⟩
      obtain ⟨last, found, known⟩ := ih others later (d := d) fun l member =>
        missing l (List.mem_cons_of_mem _ member)
      refine ⟨last, by rw [List.foldlM_cons, takeMember_other d other]; exact found, ?_⟩
      intro l i member
      rcases List.mem_cons.mp member with same | member
      · exact absurd (congrArg Prod.fst same).symm (other l)
      · exact known l i member

/-- A draft with all three coordinates is a speaker. -/
theorem finish_eq_ok_iff {d : Draft} {s : Speaker} : record.finish d = .ok s ↔
    d.get .x = some s.x ∧ d.get .y = some s.y ∧ d.get .angle = some s.angle := by
  obtain ⟨x, y, angle⟩ := d
  obtain ⟨a, b, c⟩ := s
  cases x <;> cases y <;> cases angle <;>
    simp [record, required, Draft.get, bind, Except.bind, pure, Except.pure]

/-- A list of three numbers is a speaker, and no other list is. -/
theorem ofValue_list_eq_ok_iff {items : List Value} {s : Speaker} :
    shape.ofValue (.list items) = .ok s ↔ ∃ x y angle,
      items = [.number x, .number y, .number angle] ∧
        s = ⟨x.toReal, y.toReal, angle.toReal⟩ := by
  have unfolded : shape.ofValue (.list items) =
      record.takeFields items.length record.fields 0 record.empty items >>= record.finish := rfl
  rw [unfolded, bind_eq_ok_iff]
  constructor
  · rintro ⟨d, found, finished⟩
    -- The fields take one item each; an item too few or too many is refused after them.
    rcases items with _ | ⟨u, items⟩
    · cases found
    obtain ⟨putX, readX, found⟩ := bind_eq_ok_iff.mp found
    rcases items with _ | ⟨v, items⟩
    · cases found
    obtain ⟨putY, readY, found⟩ := bind_eq_ok_iff.mp found
    rcases items with _ | ⟨w, items⟩
    · cases found
    obtain ⟨putAngle, readAngle, found⟩ := bind_eq_ok_iff.mp found
    rcases items with _ | ⟨more, items⟩
    · obtain ⟨a, realX, rfl⟩ := map_eq_ok_iff.mp readX
      obtain ⟨b, realY, rfl⟩ := map_eq_ok_iff.mp readY
      obtain ⟨c, realAngle, rfl⟩ := map_eq_ok_iff.mp readAngle
      obtain ⟨x, rfl, rfl⟩ := real_eq_ok_iff.mp realX
      obtain ⟨y, rfl, rfl⟩ := real_eq_ok_iff.mp realY
      obtain ⟨angle, rfl, rfl⟩ := real_eq_ok_iff.mp realAngle
      cases found
      cases finished
      exact ⟨x, y, angle, rfl, rfl⟩
    · cases found
  · rintro ⟨x, y, angle, rfl, rfl⟩
    exact ⟨_, rfl, rfl⟩

/-- A value without a repeated key is that of a speaker exactly if it has the three numbers of one.
-/
theorem ofValue_eq_ok_iff {v : Value} (distinct : v.DistinctKeys) {s : Speaker} :
    shape.ofValue v = .ok s ↔
      ∃ x y angle, Places v x y angle ∧ s = ⟨x.toReal, y.toReal, angle.toReal⟩ := by
  cases v with
  | list items =>
    rw [ofValue_list_eq_ok_iff]
    constructor
    · rintro ⟨x, y, angle, rfl, same⟩
      exact ⟨x, y, angle, .list x y angle, same⟩
    · rintro ⟨x, y, angle, ⟨⟩, same⟩
      exact ⟨x, y, angle, rfl, same⟩
  | object members =>
    have unfolded : shape.ofValue (.object members) =
        members.foldlM record.takeMember record.empty >>= record.finish := rfl
    rw [unfolded, bind_eq_ok_iff]
    constructor
    · rintro ⟨d, found, finished⟩
      have known (k : Key) {a : Binary64} (is : d.get k = some a) :
          ∃ n, (k.name, .number n) ∈ members ∧ n.toReal = a := by
        rcases get_of_foldlM found k with kept | ⟨n, member, here⟩
        · cases k <;> cases kept.symm.trans is
        · exact ⟨n, member, Option.some.inj (here.symm.trans is)⟩
      obtain ⟨x, y, angle⟩ := s
      obtain ⟨knownX, knownY, knownAngle⟩ := finish_eq_ok_iff.mp finished
      obtain ⟨nx, memberX, rfl⟩ := known .x knownX
      obtain ⟨ny, memberY, rfl⟩ := known .y knownY
      obtain ⟨na, memberAngle, rfl⟩ := known .angle knownAngle
      exact ⟨nx, ny, na, .object memberX memberY memberAngle, rfl⟩
    · rintro ⟨x, y, angle, ⟨memberX, memberY, memberAngle⟩, rfl⟩
      have numbers : ∀ (k : Key) (v : Value), (k.name, v) ∈ members → ∃ n, v = .number n := by
        intro k v member
        have same {w : Value} (there : (k.name, w) ∈ members) : v = w :=
          congrArg Prod.snd (List.inj_on_of_nodup_map distinct member there rfl)
        cases k with
        | x => exact ⟨x, same memberX⟩
        | y => exact ⟨y, same memberY⟩
        | angle => exact ⟨angle, same memberAngle⟩
      obtain ⟨d, found, known⟩ := foldlM_ok distinct numbers (d := record.empty) fun k _ => by
        cases k <;> rfl
      exact ⟨d, found, finish_eq_ok_iff.mpr ⟨known .x x memberX, known .y y memberY,
        known .angle angle memberAngle⟩⟩
  | null | boolean b | number n | string t =>
    refine iff_of_false ?_ ?_
    · intro found
      cases found
    · rintro ⟨x, y, angle, ⟨⟩, -⟩

end Speaker

namespace Envelope

/-- The data of an envelope: a `null` counts as none. -/
def dataOf : Value → Option Value
  | .null => none
  | v => some v

variable {event : String} {data : Value}

theorem dataOf_eq_some (present : data ≠ .null) : dataOf data = some data := by
  cases data with
  | null => exact absurd rfl present
  | boolean b | number n | string s | list items | object members => rfl

theorem recovers_dataOf (ordered : data.Ordered) (survives : data.Survives) :
    Shape.nullable.Recovers data (dataOf data) := by
  by_cases absent : data = .null
  · subst absent
    exact Shape.recovers_stored (e := none) (by rintro v ⟨⟩)
  · rw [dataOf_eq_some absent]
    refine Shape.recovers_stored (e := some data) ?_
    rintro v ⟨⟩
    exact ⟨absent, ordered, survives⟩

/-- The members of an envelope, in either order. -/
inductive Members (event : String) (data : Value) : List (String × Value) → Prop
  | eventFirst : Members event data [("event", .string event), ("data", data)]
  | dataFirst : Members event data [("data", data), ("event", .string event)]

variable {members : List (String × Value)}

theorem Members.depth (both : Members event data members) :
    (Value.object members).depth = data.depth + 1 := by
  cases both <;> simp [Value.depth, Value.membersDepth]

/-- An envelope is read as its event and its data. -/
theorem Members.fills (both : Members event data members) (ordered : data.Ordered)
    (survives : data.Survives) :
    record.Fills record.empty members ⟨event, dataOf data⟩ := by
  have text := Shape.recovers_string event
  have nullable := recovers_dataOf ordered survives
  cases both with
  | eventFirst =>
    exact Record.fills_cons rfl rfl text (Record.fills_cons rfl rfl nullable (Record.fills_nil rfl))
  | dataFirst =>
    exact Record.fills_cons rfl rfl nullable (Record.fills_cons rfl rfl text (Record.fills_nil rfl))

/-- An envelope can be read unless its data nest too deep. -/
theorem Members.settles (both : Members event data members) (d : Nat) :
    record.Settles d record.empty members := by
  have text := Shape.takes_string event
  have nullable := Shape.takes_nullable data
  cases both with
  | eventFirst =>
    exact Record.settles_cons rfl rfl text fun _ =>
      Record.settles_cons rfl rfl nullable fun _ => Record.settles_nil rfl
  | dataFirst =>
    exact Record.settles_cons rfl rfl nullable fun _ =>
      Record.settles_cons rfl rfl text fun _ => Record.settles_nil rfl

end Envelope

namespace ClientMessage

/-- What an event means with data. Data of a form that the event does not ask for are refused for
some cause. -/
inductive Means (event : String) (data : Value) : Except FrameError (Option ClientMessage) → Prop
  | unknown (other : event ∉ ["code", "editor", "speaker", "reset"]) : Means event data (.ok none)
  | reset (named : event = "reset") : Means event data (.ok (some .reset))
  | missing (kind : ClientKind) (named : event = kind.name) (asks : kind ≠ .reset)
      (absent : data = .null) : Means event data (.error (.missingPayload kind))
  | code {s : String} (named : event = "code") (text : data = .string s) :
      Means event data (.ok (some (.change (.code s))))
  | miscoded {cause : Cause} (named : event = "code") (present : data ≠ .null)
      (other : ∀ s, data ≠ .string s) : Means event data (.error (.payload .code cause))
  | editor (named : event = "editor") (present : data ≠ .null) :
      Means event data (.ok (some (.change (.editor data))))
  | speaker {x y angle : Number} (named : event = "speaker")
      (places : Speaker.Places data x y angle) :
      Means event data (.ok (some (.change (.speaker ⟨x.toReal, y.toReal, angle.toReal⟩))))
  | misplaced {cause : Cause} (named : event = "speaker") (present : data ≠ .null)
      (other : ∀ x y angle, ¬ Speaker.Places data x y angle) :
      Means event data (.error (.payload .speaker cause))

variable {event : String} {data : Value} {members : List (String × Value)}

theorem means_code : Means "code" data (ofEnvelope ⟨"code", Envelope.dataOf data⟩) := by
  cases data with
  | null => exact .missing .code rfl (by decide) rfl
  | string s => exact .code rfl rfl
  | boolean b | number n | list items | object members =>
    exact .miscoded rfl (by simp) (by simp)

theorem means_editor (ordered : data.Ordered) :
    Means "editor" data (ofEnvelope ⟨"editor", Envelope.dataOf data⟩) := by
  by_cases absent : data = .null
  · subst absent
    exact .missing .editor rfl (by decide) rfl
  · have read : ofEnvelope ⟨"editor", Envelope.dataOf data⟩ =
        .ok (some (.change (.editor data))) := by
      rw [Envelope.dataOf_eq_some absent]
      simp only [ofEnvelope, ClientKind.ofName?, payload, Shape.value,
        Value.canonical_of_ordered ordered, Except.mapError, Except.map]
    rw [read]
    exact .editor rfl absent

theorem means_speaker (ordered : data.Ordered) :
    Means "speaker" data (ofEnvelope ⟨"speaker", Envelope.dataOf data⟩) := by
  by_cases absent : data = .null
  · subst absent
    exact .missing .speaker rfl (by decide) rfl
  · rw [Envelope.dataOf_eq_some absent]
    simp only [ofEnvelope, ClientKind.ofName?, payload]
    cases found : Speaker.shape.ofValue data with
    | ok s =>
      obtain ⟨x, y, angle, places, rfl⟩ := (Speaker.ofValue_eq_ok_iff ordered.distinctKeys).mp found
      exact .speaker rfl places
    | error cause =>
      refine .misplaced rfl absent fun x y angle places => ?_
      have placed := (Speaker.ofValue_eq_ok_iff ordered.distinctKeys).mpr
        ⟨x, y, angle, places, rfl⟩
      cases found.symm.trans placed

/-- An envelope means what its event means with its data. -/
theorem means_ofEnvelope (event : String) (ordered : data.Ordered) :
    Means event data (ofEnvelope ⟨event, Envelope.dataOf data⟩) := by
  cases found : ClientKind.ofName? event with
  | none =>
    have other (kind : ClientKind) : event ≠ kind.name := by
      intro named
      cases found.symm.trans (ClientKind.ofName?_eq_some_iff.mpr named)
    rw [ofEnvelope, found]
    refine .unknown ?_
    simpa [ClientKind.name] using ⟨other .code, other .editor, other .speaker, other .reset⟩
  | some kind =>
    obtain rfl := ClientKind.ofName?_eq_some_iff.mp found
    cases kind with
    | code => exact means_code
    | editor => exact means_editor ordered
    | speaker => exact means_speaker ordered
    | reset => exact .reset rfl

/-- The text of an object with an event and data, in which every double survives, is no envelope if
the data open 127 brackets inside each other or more, and otherwise it is read as what the event
means with the data. -/
theorem read_means (event : String) (data : Value) (members : List (String × Value))
    (both : Envelope.Members event data members) (ordered : data.Ordered)
    (survives : data.Survives) :
    (127 ≤ data.depth → ∃ cause place,
      read (Value.object members).text = .error (.envelope cause place)) ∧
    (data.depth < 127 → Means event data (read (Value.object members).text)) := by
  constructor
  · intro deep
    have takes := Record.takes_object both.settles deepest
    obtain ⟨f, failed⟩ := takes.rejects (by rw [both.depth, deepest]; omega) [] delimited_nil
    rw [List.append_nil] at failed
    refine ⟨f.cause, .ofFailure (Value.object members).text.toList f, ?_⟩
    rw [read, Shape.read, Value.toList_text, failed]
    rfl
  · intro shallow
    have recovers := Record.recovers_object (both.fills ordered survives)
    rw [read, Shape.read_of_recovers recovers (by rw [both.depth, deepest]; omega)]
    exact means_ofEnvelope event ordered

/-- A place with a whole, a negative and a fractional number, and with a member of its own. -/
def shownPlace : Value :=
  .object [("angle", .number (.unsigned 90)), ("note", .list [.string "\"é\"\n"]),
    ("x", .number (.negative (-1) (by decide))), ("y", .number (.real ⟨0x3FE0000000000000⟩))]

/-- Such a place moves a speaker, and lists that nest too deep do not reach the table. -/
theorem read_means_shown :
    read (Value.object [("data", shownPlace), ("event", .string "speaker")]).text =
      .ok (some (.change (.speaker ⟨.ofWord true 1, ⟨0x3FE0000000000000⟩, .ofWord false 90⟩))) ∧
    ∃ cause place, read (Value.object [("event", .string "editor"), ("data", .nested 127)]).text =
      .error (.envelope cause place) := by
  have half : (⟨0x3FE0000000000000⟩ : Binary64).Survives := ⟨by decide, by decide +kernel⟩
  have ordered : shownPlace.Ordered := by
    refine .object (by decide) ?_
    simp [Value.Ordered.number, Value.Ordered.list, Value.Ordered.string]
  have survives : shownPlace.Survives := by
    refine .object ?_
    simp [Value.Survives.unsigned, Value.Survives.list, Value.Survives.string,
      Value.Survives.negative, Value.Survives.real half]
  have shallow : shownPlace.depth < 127 := by
    simp [shownPlace, Value.depth, Value.itemsDepth, Value.membersDepth]
  have deep : 127 ≤ (Value.nested 127).depth := (Value.depth_nested 127).ge
  refine ⟨?_, (read_means "editor" _ _ .eventFirst (Value.ordered_nested 127)
    (Value.survives_nested 127)).1 deep⟩
  have places : Speaker.Places shownPlace (.negative (-1) (by decide))
      (.real ⟨0x3FE0000000000000⟩) (.unsigned 90) :=
    .object (by simp) (by simp) (by simp)
  have means := (read_means "speaker" _ _ .dataFirst ordered survives).2 shallow
  generalize read (Value.object [("data", shownPlace), ("event", .string "speaker")]).text = outcome
    at means ⊢
  cases means with
  | speaker named there =>
    cases there with
    | object x_mem y_mem angle_mem =>
      simp at x_mem y_mem angle_mem
      subst x_mem y_mem angle_mem
      rfl
  | misplaced named present other => exact absurd places (other _ _ _)
  | unknown other => simp at other
  | missing kind named asks absent => cases absent
  | reset named | code named text | miscoded named present other | editor named present =>
    simp at named

end ClientMessage

end LiveRelay
