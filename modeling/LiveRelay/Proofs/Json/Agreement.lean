import LiveRelay.Proofs.Json.Parsed
import LiveRelay.Proofs.Json.Passing

/-! # A text and its value have the same shape

A shape is found in a text by one reader and in a value by another. They agree on every text that
has a value: each finds what the other does, or both find nothing. Scalars agree because the head of
a value is all that either of them looks at. Lists and records agree if their items and fields do,
and a record whether it stands in the text as an object, with any members besides its fields, or as
a list.
-/

namespace LiveRelay.Json

section

variable {ι α β : Type}

theorem mapM_cons_eq_some_iff {f : ι → Option α} {i : ι} {rest : List ι} {as : List α} :
    (i :: rest).mapM f = some as ↔
      ∃ a later, f i = some a ∧ rest.mapM f = some later ∧ as = a :: later := by
  rw [List.mapM_cons]
  constructor
  · intro found
    obtain ⟨a, here, found⟩ := Option.bind_eq_some_iff.mp found
    obtain ⟨later, there, found⟩ := Option.bind_eq_some_iff.mp found
    exact ⟨a, later, here, there, (Option.some.inj found).symm⟩
  · rintro ⟨a, later, here, there, rfl⟩
    simp [here, there]

theorem exists_of_mapM {f : ι → Option α} {items : List ι} {as : List α}
    (found : items.mapM f = some as) {i : ι} (member : i ∈ items) : ∃ a, f i = some a := by
  induction items generalizing as with
  | nil => cases member
  | cons j rest ih =>
    obtain ⟨a, later, here, there, -⟩ := mapM_cons_eq_some_iff.mp found
    rcases List.mem_cons.mp member with rfl | member
    · exact ⟨a, here⟩
    · exact ih there member

theorem mapM_mono {f g : ι → Option α} (more : ∀ i a, f i = some a → g i = some a)
    {items : List ι} {as : List α} (found : items.mapM f = some as) : items.mapM g = some as := by
  induction items generalizing as with
  | nil => exact found
  | cons i rest ih =>
    obtain ⟨a, later, here, there, rfl⟩ := mapM_cons_eq_some_iff.mp found
    exact mapM_cons_eq_some_iff.mpr ⟨a, later, more i a here, ih there, rfl⟩

theorem isEmpty_of_mapM {f : ι → Option α} {items : List ι} {as : List α}
    (found : items.mapM f = some as) : items.isEmpty = as.isEmpty := by
  cases items with
  | nil =>
    cases found
    rfl
  | cons i rest =>
    obtain ⟨a, later, -, -, rfl⟩ := mapM_cons_eq_some_iff.mp found
    rfl

theorem member?_eq_some_iff {value? : Phrase → Option α} {m : Spelling × Phrase}
    {e : String × α} :
    member? value? m = some e ↔ m.1.decode = some e.1 ∧ value? m.2 = some e.2 := by
  obtain ⟨key, a⟩ := e
  simp only [member?]
  cases m.1.decode <;> cases value? m.2 <;> simp

/-- A fold over elements is a fold over their values, if it looks at nothing else of them. -/
theorem foldlM_of_mapM {ε σ : Type} {f : ι → Option α} {o : σ → ι → Option σ}
    {step : σ → α → Except ε σ} {items : List ι} {as : List α} (found : items.mapM f = some as)
    (same : ∀ state, ∀ i ∈ items, ∀ a, f i = some a → o state i = (step state a).toOption)
    (state : σ) : items.foldlM o state = (as.foldlM step state).toOption := by
  induction items generalizing as state with
  | nil =>
    cases found
    rfl
  | cons i rest ih =>
    obtain ⟨a, later, here, there, rfl⟩ := mapM_cons_eq_some_iff.mp found
    rw [List.foldlM_cons, List.foldlM_cons, toOption_bind, same state i List.mem_cons_self a here]
    cases step state a with
    | error e => rfl
    | ok next => exact ih there (fun state i member => same state i (.tail _ member)) next

theorem toOption_mapM {ε : Type} {f : ι → Option α} {g : ι → Option β} {read : α → Except ε β}
    {items : List ι} {as : List α} (found : items.mapM f = some as)
    (same : ∀ i ∈ items, ∀ a, f i = some a → g i = (read a).toOption) :
    items.mapM g = (as.mapM read).toOption := by
  induction items generalizing as with
  | nil =>
    cases found
    rfl
  | cons i rest ih =>
    obtain ⟨a, later, here, there, rfl⟩ := mapM_cons_eq_some_iff.mp found
    have ih := ih there fun i member => same i (.tail _ member)
    rw [List.mapM_cons, List.mapM_cons, toOption_bind, same i List.mem_cons_self a here]
    cases read a with
    | error e => rfl
    | ok b =>
      simp only [Except.toOption, ih, bind, Option.bind]
      cases later.mapM read <;> rfl

end

theorem readHead_list (s : List Char) : readHead ('[' :: s) = .ok (.list, '[' :: s) := rfl

theorem readHead_object (s : List Char) : readHead ('{' :: s) = .ok (.object, '{' :: s) := rfl

/-- The ways in which a text has a value: it has no brackets, and the head is everything, or it is
a list or an object of texts that have values. -/
inductive Valued : Nat → List Char → Value → Prop
  | scalar {d : Nat} {text : List Char} {v : Value} (closed : v.head ≠ .list ∧ v.head ≠ .object)
      (yields : Yields readHead text (some v.head)) : Valued d text v
  | list {d : Nat} {phrases : List Phrase} {inner : List Char} {items : List Value}
      (listed : Listed Spells true phrases inner)
      (values : phrases.mapM (·.value? d) = some items) :
      Valued (d + 1) ('[' :: (inner ++ [']'])) (.list items)
  | object {d : Nat} {phrases : List (Spelling × Phrase)} {inner : List Char}
      {members : List (String × Value)} (listed : Listed (Entry Spells) true phrases inner)
      (values : phrases.mapM (member? (Phrase.value? d)) = some members) :
      Valued (d + 1) ('{' :: (inner ++ ['}'])) (.object members)

variable {d : Nat} {text gap : List Char} {p : Phrase} {v : Value}

theorem Spells.valued (spells : Spells p text) (value : p.value? d = some v) :
    Valued d text v := by
  cases spells with
  | null =>
    rw [Phrase.value?] at value
    cases value
    exact .scalar (by simp [Value.head]) reads_null.yields
  | boolean b =>
    rw [Phrase.value?] at value
    cases value
    exact .scalar (by simp [Value.head]) (reads_boolean b).yields
  | number n =>
    rw [Phrase.value?] at value
    obtain ⟨i, literal, rfl⟩ := Option.map_eq_some_iff.mp value
    have yields := yields_readHead_number n
    rw [literal] at yields
    exact .scalar (by simp [Value.head]) yields
  | string g =>
    rw [Phrase.value?] at value
    obtain ⟨s, decoded, rfl⟩ := Option.map_eq_some_iff.mp value
    have yields := yields_readHead_string g
    rw [decoded] at yields
    exact .scalar (by simp [Value.head]) yields
  | list listed =>
    rcases d with _ | d <;> rw [Phrase.value?] at value
    · cases value
    · obtain ⟨items, values, rfl⟩ := Option.map_eq_some_iff.mp value
      exact .list listed values
  | object listed =>
    rcases d with _ | d <;> rw [Phrase.value?] at value
    · cases value
    · obtain ⟨members, values, rfl⟩ := Option.map_eq_some_iff.mp value
      exact .object listed values

/-- A phrase keeps its value if it may open more brackets. -/
theorem Phrase.value?_mono {e : Nat} (value : p.value? d = some v) (more : d ≤ e) :
    p.value? e = some v := by
  induction d generalizing e p v with
  | zero =>
    cases p with
    | list items | object members =>
      rw [value?] at value
      cases value
    | _ => simpa only [value?] using value
  | succ d ih =>
    obtain ⟨e, rfl⟩ := Nat.exists_eq_add_of_le' (Nat.le_trans (Nat.succ_pos d) more)
    have inner {p : Phrase} {v : Value} (value : p.value? d = some v) : p.value? e = some v :=
      ih value (Nat.le_of_succ_le_succ more)
    cases p with
    | list items =>
      rw [value?] at value ⊢
      obtain ⟨vs, found, rfl⟩ := Option.map_eq_some_iff.mp value
      rw [mapM_mono (fun _ _ value => inner value) found]
      rfl
    | object members =>
      rw [value?] at value ⊢
      obtain ⟨ms, found, rfl⟩ := Option.map_eq_some_iff.mp value
      have kept (m : Spelling × Phrase) (entry : String × Value)
          (taken : member? (Phrase.value? d) m = some entry) :
          member? (Phrase.value? e) m = some entry := by
        obtain ⟨named, value⟩ := member?_eq_some_iff.mp taken
        exact member?_eq_some_iff.mpr ⟨named, inner value⟩
      rw [mapM_mono kept found]
      rfl
    | _ => simpa only [value?] using value

theorem Parses.mono {e : Nat} (parses : Parses d text v) (more : d ≤ e) : Parses e text v := by
  obtain ⟨p, stands, value⟩ := parses_iff.mp parses
  exact parses_iff.mpr ⟨p, stands, Phrase.value?_mono value more⟩

namespace Shape

variable {α β : Type}

/-- A shape finds in a text what it finds in the value of the text, and does not mind blanks. -/
structure Agrees (shape : Shape α) : Prop where
  blind : ∀ d gap, Blanks gap → ∀ s, shape.ofText d (gap ++ s) = shape.ofText d s
  yields : ∀ d p text v, Spells p text → p.value? d = some v →
    Yields (shape.ofText d) text (shape.ofValue v).toOption

/-- A shape finds in a whole text what it finds in the value of the text. -/
theorem Agrees.read {shape : Shape α} (agrees : shape.Agrees) {text : String}
    (parses : Parses deepest text.toList v) :
    (shape.read text).toOption = (shape.ofValue v).toOption := by
  obtain ⟨p, stands, value⟩ := parses_iff.mp parses
  rw [Shape.read, toOption_bind]
  generalize text.toList = s at stands
  cases stands with
  | @mk before text after before_blank here after_blank =>
    rw [agrees.blind deepest before before_blank,
      agrees.yields deepest p text v here value after (delimited_blanks after_blank)]
    cases shape.ofValue v with
    | error cause => rfl
    | ok a =>
      simp only [Except.toOption, Option.map_some, Option.bind_some, closeText_gap after_blank]
      rfl

/-- A shape that looks at the head of a value agrees, if it finds nothing in brackets. -/
theorem agrees_ofHead {fit : Head → Except Cause α} {noList noObject : Cause}
    (list : fit .list = .error noList) (object : fit .object = .error noObject) :
    (ofHead fit).Agrees where
  blind d gap blank s := ofHead_gap blank s
  yields d p text v spells value := by
    cases spells.valued value with
    | scalar closed yields => exact yields_ofHead yields rfl
    | list listed values =>
      intro rest _
      simp only [ofHead, List.cons_append, readHead_list, list, Value.head, bind, Except.bind]
      rfl
    | object listed values =>
      intro rest _
      simp only [ofHead, List.cons_append, readHead_object, object, Value.head, bind, Except.bind]
      rfl

theorem agrees_string : string.Agrees := agrees_ofHead rfl rfl

theorem agrees_word : word.Agrees := agrees_ofHead rfl rfl

theorem agrees_real : real.Agrees := agrees_ofHead rfl rfl

theorem agrees_nothing (name : String) : (nothing name).Agrees := agrees_ofHead rfl rfl

theorem agrees_value : value.Agrees where
  blind d gap blank s := by simp only [value, readTree_gap blank]
  yields d p text v spells found := by
    have read := (yields_readTree d spells).map Value.canonical
    rwa [found] at read

theorem agrees_nullable : nullable.Agrees where
  blind d gap blank s := nullable_gap blank s
  yields d p text v spells found := by
    have read := yields_nullable (d := d) spells
    rw [found] at read
    cases v <;> exact read

theorem Agrees.map {shape : Shape α} (agrees : shape.Agrees) (f : α → β) :
    (shape.map f).Agrees where
  blind d gap blank s := by simp only [Shape.map, agrees.blind d gap blank]
  yields d p text v spells found := by
    have read := (agrees.yields d p text v spells found).map f
    rwa [← toOption_map] at read

theorem Agrees.list {item : Shape α} (agrees : item.Agrees) : (Shape.list item).Agrees where
  blind d gap blank s := by simp only [Shape.list, readHead_gap blank]
  yields d p text v spells found := by
    cases spells.valued found with
    | scalar closed yields =>
      intro rest delimited
      have head := toOption_eq_some_iff.mp (yields rest delimited)
      cases v with
      | list items => exact absurd rfl closed.1
      | object members => exact absurd rfl closed.2
      | _ => cases d <;> simp only [Shape.list, head] <;> rfl
    | @list d phrases inner items listed values =>
      let take (p : Phrase) : Option α := (p.value? d).bind fun v => (item.ofValue v).toOption
      have read : Yields (readItems (item.ofText d)) (inner ++ [']']) (phrases.mapM take) := by
        refine yields_readItems (fun _ _ _ spelled => spelled.begins) ?_ listed
        intro p member text spelled
        obtain ⟨v, value⟩ := exists_of_mapM values member
        simp only [take, value, Option.bind_some]
        exact agrees.yields d p text v spelled value
      have taken : phrases.mapM take = (items.mapM item.ofValue).toOption :=
        toOption_mapM values fun p _ v value => by simp only [take, value, Option.bind_some]
      rw [taken] at read
      exact read.opened fun s => rfl
    | object listed values => exact fun _ _ => rfl

end Shape

namespace Record

variable {δ α : Type} {r : Record δ α} {draft : δ}

theorem toOption_takeMember {key : String} {field : Field δ} (found : r.field? key = some field)
    (draft : δ) (v : Value) : (r.takeMember draft (key, v)).toOption =
      if field.given draft then none
      else (field.shape.ofValue v).toOption.map fun put => put draft := by
  simp only [takeMember, found]
  cases field.given draft with
  | true => rfl
  | false => exact toOption_map _ _

/-- A member fills the draft from a text as it does from its value. -/
theorem yields_takeMember (each : ∀ field ∈ r.fields, field.shape.Agrees)
    (assigned : Assigned p text) (value : p.value? d = some v) (draft : δ) (key : String) :
    Yields (r.readMember d draft key) text (r.takeMember draft (key, v)).toOption := by
  cases found : r.field? key with
  | none =>
    simp only [takeMember, found]
    exact yields_unknown found assigned
  | some field =>
    have agrees := each field (List.mem_of_find?_eq_some found)
    rw [toOption_takeMember found]
    exact yields_field found assigned (agrees.blind d) fun text spells =>
      agrees.yields d p text v spells value

/-- An object is read as a record as its value is taken for one. -/
theorem yields_members (each : ∀ field ∈ r.fields, field.shape.Agrees)
    {phrases : List (Spelling × Phrase)} {inner : List Char} {members : List (String × Value)}
    (listed : Listed (Entry Spells) true phrases inner)
    (values : phrases.mapM (member? (Phrase.value? d)) = some members) :
    Yields (r.shape.ofText (d + 1)) ('{' :: (inner ++ ['}']))
      (r.shape.ofValue (.object members)).toOption := by
  let take (draft : δ) (key : String) (p : Phrase) : Option δ :=
    (p.value? d).bind fun v => (r.takeMember draft (key, v)).toOption
  have steps : ∀ m ∈ phrases, ∀ text, Assigned m.2 text → ∀ draft key,
      Yields (r.readMember d draft key) text (take draft key m.2) := by
    intro m member text assigned draft key
    obtain ⟨e, found⟩ := exists_of_mapM values member
    have value := (member?_eq_some_iff.mp found).2
    simp only [take, value, Option.bind_some]
    exact yields_takeMember each assigned value draft key
  have taken : phrases.foldlM (takeEntry take) r.empty =
      (members.foldlM r.takeMember r.empty).toOption := by
    refine foldlM_of_mapM values (fun draft m _ e found => ?_) r.empty
    obtain ⟨named, value⟩ := member?_eq_some_iff.mp found
    simp only [takeEntry, named, Option.bind_some, take, value]
  have read := yields_object steps listed
  rw [taken, ← toOption_bind] at read
  exact read

theorem closeList_gap {s : List Char} (blank : Blanks gap) :
    closeList (gap ++ ']' :: s) = .ok s := by
  rw [closeList, skipBlanks_gap blank, ← closeList]
  rfl

/-- A list does not end in front of an item. -/
theorem closeList_lead {first : Bool} {lead : List Char} (leads : Lead first lead) {c : Char}
    (solid : isBlank c = false) (other : c ≠ ']') (s : List Char) :
    (closeList (lead ++ c :: s)).toOption = none := by
  have front : ∃ b more, b ≠ ']' ∧ skipBlanks (lead ++ c :: s) = b :: more := by
    cases leads with
    | first blank => exact ⟨c, s, other, by rw [skipBlanks_gap blank, skipBlanks_cons solid]⟩
    | next before_blank after_blank =>
      rw [List.append_assoc, skipBlanks_gap before_blank]
      exact ⟨',', _, by decide, rfl⟩
  obtain ⟨b, more, closes, front⟩ := front
  unfold closeList
  rw [front]
  split
  · rfl
  · next same =>
    cases same
    exact absurd rfl closes
  · split <;> rfl
  · rfl

/-- What is made of the fields of a list, once its bracket is closed. -/
def closeFields (r : Record δ α) (draft : δ) (s : List Char) : Option (α × List Char) :=
  (r.finish draft).toOption.bind fun a => (closeList s).toOption.map (a, ·)

theorem toOption_readList (s : List Char) : (r.readList d s).toOption =
    (r.readFields d r.fields 0 r.empty s).toOption.bind fun (draft, s) =>
      r.closeFields draft s := by
  rw [readList, toOption_bind]
  congr 1
  funext ⟨draft, s⟩
  simp only [closeFields]
  cases r.finish draft with
  | error cause => rfl
  | ok a =>
    simp only [toOption_bind]
    cases closeList s <;> rfl

section Fields

variable {field : Field δ} {fields : List (Field δ)} {present : Nat} {s t : List Char}

theorem readFields_item (there : toItem (present == 0) s = .ok (true, t)) (draft : δ) :
    r.readFields d (field :: fields) present draft s = field.shape.ofText d t >>= fun (put, s) =>
      r.readFields d fields (present + 1) (put draft) s := by
  rw [readFields, there]
  rfl

theorem readFields_end (none : toItem (present == 0) s = .ok (false, t)) (draft : δ) :
    r.readFields d (field :: fields) present draft s =
      if field.omissible then r.readFields d fields present draft t
      else failAt (.invalidLength present r.listName) (leaveList t) := by
  rw [readFields, none]
  rfl

/-- The fields of a list are read as they are taken from the items. -/
theorem toOption_readFields (each : ∀ field ∈ fields, field.shape.Agrees) (present : Nat)
    {phrases : List Phrase} {inner : List Char} {items : List Value}
    (listed : Listed Spells (present == 0) phrases inner)
    (values : phrases.mapM (·.value? d) = some items) (draft : δ)
    (total : Nat) (rest : List Char) :
    ((r.readFields d fields present draft (inner ++ ']' :: rest)).toOption.bind fun (draft, s) =>
        r.closeFields draft s) =
      ((r.takeFields total fields present draft items).toOption.bind fun draft =>
        (r.finish draft).toOption).map (·, rest) := by
  induction fields generalizing present draft phrases inner items with
  | nil =>
    rw [readFields]
    cases listed with
    | nil blank =>
      obtain rfl : items = [] := by simpa using values.symm
      simp only [takeFields, closeFields, Except.toOption, Option.bind_some, closeList_gap blank]
      cases r.finish draft <;> rfl
    | @cons _ p phrases lead text later leads here there =>
      obtain ⟨v, items, -, -, rfl⟩ := mapM_cons_eq_some_iff.mp values
      obtain ⟨c, more, rfl, solid, other⟩ := here.begins
      have stays := closeList_lead leads solid other (more ++ (later ++ ']' :: rest))
      simp only [List.append_assoc, List.cons_append, closeFields, Except.toOption,
        Option.bind_some, takeFields] at stays ⊢
      rw [stays]
      cases r.finish draft <;> rfl
  | cons field fields ih =>
    have later := fun field member => each field (List.mem_cons_of_mem _ member)
    have agrees := each field List.mem_cons_self
    cases listed with
    | nil blank =>
      obtain rfl : items = [] := by simpa using values.symm
      rw [readFields_end (toItem_gap blank _ rest), takeFields]
      cases field.omissible with
      | true => exact ih later present (.nil blanks_nil) rfl draft
      | false => rfl
    | @cons _ p phrases lead text after leads here there =>
      obtain ⟨v, items, value, others, rfl⟩ := mapM_cons_eq_some_iff.mp values
      obtain ⟨c, more, rfl, solid, other⟩ := here.begins
      have read := agrees.yields d p _ v here value _ (there.delimited (.inl rfl) rest)
      have lead := toItem_lead leads solid other (more ++ (after ++ ']' :: rest))
      rw [List.append_assoc, List.append_assoc, List.cons_append, readFields_item lead,
        toOption_bind, ← List.cons_append, read, takeFields, toOption_bind]
      cases field.shape.ofValue v with
      | error cause => rfl
      | ok put => exact ih later (present + 1) there others (put draft)

end Fields

/-- A record agrees if the shapes of its fields do. -/
theorem agrees (each : ∀ field ∈ r.fields, field.shape.Agrees) : r.shape.Agrees where
  blind d gap blank s := shape_gap blank s
  yields d p text v spells found := by
    cases spells.valued found with
    | scalar closed yields =>
      intro rest delimited
      have head := toOption_eq_some_iff.mp (yields rest delimited)
      cases v with
      | list items => exact absurd rfl closed.1
      | object members => exact absurd rfl closed.2
      | _ => cases d <;> simp only [shape, head] <;> rfl
    | object listed values => exact yields_members each listed values
    | @list d phrases inner items listed values =>
      intro rest _
      cases asList : r.asList with
      | true =>
        have read : r.shape.ofText (d + 1) ('[' :: (inner ++ [']']) ++ rest) =
            r.readList d (inner ++ ']' :: rest) := by
          simp [shape, readHead_list, asList, bind, Except.bind]
        have taken : r.shape.ofValue (.list items) =
            r.takeFields items.length r.fields 0 r.empty items >>= r.finish := by
          simp [shape, asList]
        rw [read, taken, toOption_readList, toOption_bind]
        exact toOption_readFields each 0 listed values r.empty items.length rest
      | false =>
        have read : r.shape.ofText (d + 1) ('[' :: (inner ++ [']']) ++ rest) =
            failAt (.mismatch .list r.name) (leaveList (inner ++ ']' :: rest)) := by
          simp [shape, readHead_list, asList, bind, Except.bind]
        have taken : r.shape.ofValue (.list items) = .error (.mismatch .list r.name) := by
          simp [shape, asList]
        rw [read, taken]
        rfl

end Record

end LiveRelay.Json
