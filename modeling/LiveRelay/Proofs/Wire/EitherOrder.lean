import LiveRelay.Proofs.Json.Agreement
import LiveRelay.Proofs.Json.Parsed
import LiveRelay.Proofs.Wire.Members
import LiveRelay.Wire.ServerFrame
import Mathlib.Data.List.Forall2

/-! # The event of a frame may stand before its data or after them

Data that come after the name of the event are read straight into the message, and data that come
before it are kept as a value and read once the name is known. The shapes of the data agree in both
ways, so what a frame of the room says rests on the values of its event and of its data alone, and
neither on their order nor on any other members.
-/

namespace LiveRelay

open Json

theorem Speaker.agrees_shape : Speaker.shape.Agrees := by
  refine Record.agrees ?_
  simp only [record, List.forall_mem_cons]
  exact ⟨Shape.agrees_real.map _, Shape.agrees_real.map _, Shape.agrees_real.map _, nofun⟩

theorem Participant.agrees_shape : Participant.shape.Agrees := by
  refine Record.agrees ?_
  simp only [record, List.forall_mem_cons]
  exact ⟨Shape.agrees_word.map _, Shape.agrees_string.map _, Shape.agrees_nullable.map _,
    Speaker.agrees_shape.map _, nofun⟩

namespace ServerMessage

theorem agrees_hello : helloRecord.shape.Agrees := by
  refine Record.agrees ?_
  simp only [helloRecord, List.forall_mem_cons]
  exact ⟨Shape.agrees_word.map _, Participant.agrees_shape.list.map _, Shape.agrees_real.map _,
    nofun⟩

theorem agrees_changed {α : Type} (name : String) {state : Shape α} (change : α → Change)
    (agrees : state.Agrees) : (changedRecord name state change).shape.Agrees := by
  refine Record.agrees ?_
  simp only [changedRecord, List.forall_mem_cons]
  exact ⟨agrees.map _, Shape.agrees_word.map _, nofun⟩

theorem agrees_dataShape (kind : ServerKind) : (dataShape kind).Agrees := by
  cases kind with
  | hello => exact agrees_hello
  | join => exact Shape.agrees_word.map _
  | leave => exact Shape.agrees_word.map _
  | code => exact agrees_changed _ _ Shape.agrees_string
  | editor => exact agrees_changed _ _ Shape.agrees_value
  | speaker => exact agrees_changed _ _ Speaker.agrees_shape
  | reset => exact (Shape.agrees_nothing "no data").map fun _ => ServerMessage.reset

/-- The event that a value names: a string does, and so does an object with the name as its only key
and with `null`. -/
def named? : Value → Option ServerKind
  | .string name => ServerKind.ofName? name
  | .object [(name, .null)] => ServerKind.ofName? name
  | _ => none

section Names

variable {d : Nat} {text gap : List Char} {p : Phrase} {v : Value}

theorem readKind_gap (blank : Blanks gap) (d : Nat) (s : List Char) :
    readKind d (gap ++ s) = readKind d s := by
  unfold readKind
  rw [skipBlanks_gap blank]

/-- The name of an event is found in any spelling of it. -/
theorem toOption_kindShape {g : Spelling} {name : String} (decoded : g.decode = some name)
    (d : Nat) (s : List Char) : (kindShape.ofText d ('"' :: (g.chars ++ '"' :: s))).toOption =
      (ServerKind.ofName? name).map (·, s) := by
  have string : readHead ('"' :: (g.chars ++ '"' :: s)) = .ok (.string name, s) := by
    rw [readHead_quote]
    have read := toOption_readString g s
    rw [decoded] at read
    rw [toOption_eq_some_iff.mp read]
    rfl
  simp only [kindShape, Shape.ofHead, string, kindOf, bind, Except.bind]
  cases ServerKind.ofName? name <;> rfl

theorem readKind_quote (d : Nat) (s : List Char) :
    readKind d ('"' :: s) = kindShape.ofText d ('"' :: s) := by
  cases d <;> rfl

/-- No name of an event begins with anything but a quote or a brace. -/
theorem readKind_other {c : Char} (solid : isBlank c = false) (quote : c ≠ '"') (brace : c ≠ '{')
    (d : Nat) (s : List Char) : (readKind d (c :: s)).toOption = none := by
  unfold readKind
  rw [skipBlanks_cons solid]
  split
  · rfl
  · next same => exact absurd (List.cons.inj same).1 quote
  · rfl
  · next same => exact absurd (List.cons.inj same).1 brace
  · rfl

/-- The end of an object that names an event. -/
def closeKind (kind : ServerKind) (s : List Char) : Reading (ServerKind × List Char) :=
  match skipBlanks s with
  | [] => failAt .endInObject []
  | '}' :: s => .ok (kind, s)
  | s => failOver .expectedValue s

theorem readKind_key (blank : Blanks gap) (d : Nat) (s : List Char) :
    readKind (d + 1) ('{' :: (gap ++ '"' :: s)) =
      kindShape.ofText d ('"' :: s) >>= fun (kind, s) => readColon s >>= fun s =>
        (Shape.nothing "null").ofText d s >>= fun (_, s) => closeKind kind s := by
  unfold readKind
  rw [skipBlanks_cons rfl]
  simp only [skipBlanks_gap blank, skipBlanks_cons (rfl : isBlank '"' = false)]
  rfl

/-- An object with one member ends after it. -/
theorem toOption_closeKind {phrases : List (Spelling × Phrase)} {later : List Char}
    (there : Listed (Entry Spells) false phrases later) (kind : ServerKind) (rest : List Char) :
    (closeKind kind (later ++ '}' :: rest)).toOption =
      if phrases.isEmpty then some (kind, rest) else none := by
  unfold closeKind
  cases there with
  | nil blank =>
    rw [skipBlanks_gap blank, skipBlanks_cons rfl]
    rfl
  | cons leads here there =>
    cases leads with
    | next before_blank after_blank =>
      rw [List.append_assoc, List.append_assoc, skipBlanks_gap before_blank, List.cons_append,
        skipBlanks_cons rfl]
      rfl

theorem named?_cons (name : String) (w : Value) (members : List (String × Value)) :
    named? (.object ((name, w) :: members)) = (ServerKind.ofName? name).bind fun kind =>
      ((Shape.nothing "null").ofValue w).toOption.bind fun _ =>
        if members.isEmpty then some kind else none := by
  cases w <;> cases members <;> cases found : ServerKind.ofName? name <;>
    simp [named?, found, Shape.nothing, Shape.ofHead, Value.head, Except.toOption]

/-- An object names an event as its value does. -/
theorem yields_readKind_object {phrases : List (Spelling × Phrase)} {inner : List Char}
    {members : List (String × Value)} (listed : Listed (Entry Spells) true phrases inner)
    (values : phrases.mapM (member? (Phrase.value? d)) = some members) :
    Yields (readKind (d + 1)) ('{' :: (inner ++ ['}'])) (named? (.object members)) := by
  intro rest delimited
  rw [List.cons_append, List.append_assoc, List.singleton_append]
  cases listed with
  | nil blank =>
    obtain rfl : members = [] := by simpa using values.symm
    unfold readKind
    rw [skipBlanks_cons rfl]
    simp only [skipBlanks_gap blank, skipBlanks_cons (rfl : isBlank '}' = false)]
    rfl
  | @cons _ m phrases lead text later leads here there =>
    obtain ⟨⟨name, w⟩, members, found, others, rfl⟩ := mapM_cons_eq_some_iff.mp values
    obtain ⟨decoded, value⟩ := member?_eq_some_iff.mp found
    have agrees := Shape.agrees_nothing "null"
    cases leads with
    | first blank =>
      cases here with
      | @mk g p before after text before_blank after_blank spells =>
        have null := agrees.yields d p text w spells value _ (there.delimited (.inr rfl) rest)
        simp only [List.append_assoc, List.cons_append]
        rw [readKind_key blank, toOption_bind, toOption_kindShape decoded, named?_cons]
        cases ServerKind.ofName? name with
        | none => rfl
        | some kind =>
          have colon : readColon (before ++ ':' :: (after ++ (text ++ (later ++ '}' :: rest)))) =
              .ok (after ++ (text ++ (later ++ '}' :: rest))) := readColon_gap before_blank _
          rw [Option.map_some, Option.bind_some, Option.bind_some, toOption_bind, colon]
          refine (toOption_bind ((Shape.nothing "null").ofText d _) _).trans ?_
          rw [agrees.blind d after after_blank, null]
          cases (Shape.nothing "null").ofValue w with
          | error cause => rfl
          | ok _ =>
            refine (toOption_closeKind there kind rest).trans ?_
            rw [isEmpty_of_mapM others]
            cases members <;> rfl

/-- A phrase names an event as its value does. -/
theorem yields_readKind (spells : Spells p text) (value : p.value? d = some v) :
    Yields (readKind d) text (named? v) := by
  intro rest delimited
  cases spells with
  | null =>
    rw [Phrase.value?] at value
    cases value
    exact readKind_other rfl (by decide) (by decide) d _
  | boolean b =>
    rw [Phrase.value?] at value
    cases value
    cases b <;> exact readKind_other rfl (by decide) (by decide) d _
  | number n =>
    rw [Phrase.value?] at value
    obtain ⟨i, -, rfl⟩ := Option.map_eq_some_iff.mp value
    obtain ⟨c, more, chars, ⟨-, rfl, -⟩ | ⟨-, digit, -⟩⟩ := n.begins
    · rw [chars]
      exact readKind_other rfl (by decide) (by decide) d _
    · rw [chars]
      refine readKind_other (isBlank_of_isDigit digit) ?_ ?_ d _ <;> rintro rfl <;> cases digit
  | string g =>
    rw [Phrase.value?] at value
    obtain ⟨name, decoded, rfl⟩ := Option.map_eq_some_iff.mp value
    rw [List.cons_append, List.append_assoc, List.singleton_append, readKind_quote]
    exact toOption_kindShape decoded d rest
  | list listed =>
    rcases d with _ | d <;> rw [Phrase.value?] at value
    · cases value
    · obtain ⟨items, -, rfl⟩ := Option.map_eq_some_iff.mp value
      exact readKind_other rfl (by decide) (by decide) (d + 1) _
  | object listed =>
    rcases d with _ | d <;> rw [Phrase.value?] at value
    · cases value
    · obtain ⟨members, values, rfl⟩ := Option.map_eq_some_iff.mp value
      exact yields_readKind_object listed values rest delimited

end Names

section Members

variable {d : Nat} {text : List Char} {key : String} {p : Phrase} {v : Value}

/-- What the event or the data of a frame make of a draft, by their value. -/
def take (draft : Draft) (key : String) (v : Value) : Option Draft :=
  match draft with
  | .empty => if key = "event" then (named? v).map .named else some (.filled v)
  | .named kind =>
    if key = "event" then none else ((dataShape kind).ofValue v).toOption.map .complete
  | .filled data =>
    if key = "event" then
      (named? v).bind fun kind => ((dataShape kind).ofValue data).toOption.map .complete
    else none
  | .complete _ => none

/-- The keys of the members that count in a frame. -/
def counted : List String := ["event", "data"]

/-- What a member of a frame makes of a draft. -/
def takePhrase (d : Nat) (draft : Draft) (key : String) (p : Phrase) : Option Draft :=
  if key ∈ counted then (p.value? d).bind (take draft key) else some draft

/-- A member is read as its value and what is made of it then. -/
theorem yields_assigned {α β : Type} {reader : List Char → Reading (α × List Char)} {o : Option α}
    {f : α × List Char → Reading (β × List Char)} {g : α → Option β} (assigned : Assigned p text)
    (blind : ∀ gap, Blanks gap → ∀ s, reader (gap ++ s) = reader s)
    (each : ∀ text, Spells p text → Yields reader text o)
    (later : ∀ a s, (f (a, s)).toOption = (g a).map (·, s)) :
    Yields (fun s => readColon s >>= fun s => reader s >>= f) text (o.bind g) := by
  intro rest delimited
  have read := assigned.yields blind each rest delimited
  dsimp only at read ⊢
  rw [← bind_assoc, toOption_bind, read]
  cases o with
  | none => rfl
  | some a => exact later a rest

theorem yields_event (assigned : Assigned p text) (value : p.value? d = some v) (draft : Draft) :
    Yields (readMember d draft "event") text (take draft "event" v) := by
  have blind (gap : List Char) (blank : Blanks gap) (s : List Char) :
      readKind d (gap ++ s) = readKind d s := readKind_gap blank d s
  have each := fun text (spells : Spells p text) => yields_readKind spells value
  cases draft with
  | empty =>
    rw [take, if_pos rfl, Option.map_eq_bind]
    exact yields_assigned assigned blind each fun kind s => rfl
  | filled data =>
    refine yields_assigned assigned blind each fun kind s => ?_
    dsimp only
    cases (dataShape kind).ofValue data <;> rfl
  | named kind => exact fun _ _ => rfl
  | complete m => exact fun _ _ => rfl

theorem yields_data (assigned : Assigned p text) (value : p.value? d = some v) (draft : Draft) :
    Yields (readMember d draft "data") text (take draft "data" v) := by
  cases draft with
  | empty =>
    change Yields (readMember d .empty "data") text ((some v).bind fun v => some (Draft.filled v))
    exact yields_assigned assigned (fun gap blank s => readTree_gap blank s d)
      (fun text spells => value ▸ yields_readTree d spells) fun v s => rfl
  | named kind =>
    have agrees := agrees_dataShape kind
    rw [take, if_neg (by decide), Option.map_eq_bind]
    exact yields_assigned assigned (agrees.blind d)
      (fun text spells => agrees.yields d p text v spells value) fun m s => rfl
  | filled data => exact fun _ _ => rfl
  | complete m => exact fun _ _ => rfl

theorem yields_other (other : key ∉ counted) (assigned : Assigned p text) (draft : Draft) :
    Yields (readMember d draft key) text (some draft) := by
  intro rest delimited
  obtain ⟨event, data⟩ : key ≠ "event" ∧ key ≠ "data" := by simpa [counted] using other
  have member : readMember d draft key (text ++ rest) =
      (readColon (text ++ rest) >>= skipValue).map (draft, ·) := by
    unfold readMember
    split <;> first | exact absurd rfl event | exact absurd rfl data | skip
    cases readColon (text ++ rest) <;> rfl
  rw [member, assigned.passed delimited]
  rfl

theorem yields_takePhrase (assigned : Assigned p text) (draft : Draft)
    (valued : key ∈ counted → ∃ v, p.value? d = some v) :
    Yields (readMember d draft key) text (takePhrase d draft key p) := by
  by_cases counts : key ∈ counted
  · obtain ⟨v, value⟩ := valued counts
    rw [takePhrase, if_pos counts, value, Option.bind_some]
    rcases List.mem_cons.mp counts with rfl | counts
    · exact yields_event assigned value draft
    · obtain rfl := List.mem_singleton.mp counts
      exact yields_data assigned value draft
  · rw [takePhrase, if_neg counts]
    exact yields_other counts assigned draft

end Members

section Frames

variable {members : List (String × List Char)} {entries : List (Spelling × Phrase)} {d : Nat}

/-- An entry of a frame that counts. -/
def Counts (e : Spelling × Phrase) : Prop := ∃ key ∈ counted, e.1.decode = some key

instance : DecidablePred Counts := fun e =>
  decidable_of_iff (∃ key ∈ counted, e.1.decode = some key) Iff.rfl

/-- Only the entries that count make anything of a draft. -/
theorem foldlM_counted (fits : List.Forall₂ Fits members entries) (draft : Draft) :
    entries.foldlM (takeEntry (takePhrase d)) draft =
      (entries.filter Counts).foldlM (takeEntry (takePhrase d)) draft := by
  induction fits generalizing draft with
  | nil => rfl
  | @cons m e members entries here there ih =>
    by_cases counts : Counts e
    · rw [List.filter_cons_of_pos (by simpa using counts), List.foldlM_cons, List.foldlM_cons]
      exact congrArg _ (funext ih)
    · have ignored : takeEntry (takePhrase d) draft e = some draft := by
        have other : m.1 ∉ counted := fun member => counts ⟨m.1, member, here.1⟩
        rw [takeEntry, here.1, Option.bind_some, takePhrase, if_neg other]
      rw [List.filter_cons_of_neg (by simpa using counts), List.foldlM_cons, ignored]
      exact ih draft

/-- The members of a frame that count are its entries that do. -/
theorem fits_filter (fits : List.Forall₂ Fits members entries) :
    List.Forall₂ Fits (members.filter (·.1 ∈ counted)) (entries.filter Counts) := by
  refine List.rel_filter (fun m e here => ?_) fits
  simp only [Counts, here.1, Option.some.injEq, decide_eq_true_eq]
  exact ⟨fun member => ⟨m.1, member, rfl⟩, fun ⟨key, member, same⟩ => same ▸ member⟩

theorem exists_member (fits : List.Forall₂ Fits members entries) {e : Spelling × Phrase}
    (present : e ∈ entries) : ∃ m ∈ members, Fits m e := by
  induction fits with
  | nil => cases present
  | @cons m e' members entries here there ih =>
    rcases List.mem_cons.mp present with rfl | present
    · exact ⟨m, List.mem_cons_self, here⟩
    · obtain ⟨n, member, fit⟩ := ih present
      exact ⟨n, List.mem_cons_of_mem _ member, fit⟩

/-- What the entries of a frame come to. -/
def takeAll (d : Nat) (entries : List (Spelling × Phrase)) : Option Draft :=
  entries.foldlM (takeEntry (takePhrase d)) .empty

/-- What a frame says, by its entries. -/
theorem toOption_read {text : String} {inner before after : List Char}
    (before_blank : Blanks before) (after_blank : Blanks after)
    (chars : text.toList = before ++ ('{' :: (inner ++ ['}']) ++ after))
    (listed : Listed (Entry Spells) true entries inner)
    (valued : ∀ e ∈ entries, Counts e → ∃ v, e.2.value? (deepest - 1) = some v) :
    (read text).toOption =
      (takeAll (deepest - 1) entries).bind fun draft => (finish draft).toOption := by
  have steps : ∀ e ∈ entries, ∀ text, Assigned e.2 text → ∀ draft key, e.1.decode = some key →
      Yields (readMember (deepest - 1) draft key) text (takePhrase (deepest - 1) draft key e.2) :=
    fun e member text assigned draft key named => yields_takePhrase assigned draft fun counts =>
      valued e member ⟨key, counts, named⟩
  have folded : (foldMembers (readMember (deepest - 1)) .empty (inner ++ '}' :: after)).toOption =
      (takeAll (deepest - 1) entries).map (·, '}' :: after) :=
    toOption_foldMembers steps listed .empty after
  have opened : read text = readObject (deepest - 1) (inner ++ '}' :: after) >>= fun done =>
      closeText done.2 >>= fun _ => pure done.1 := by
    have same : text.toList = before ++ '{' :: (inner ++ '}' :: after) := by simpa using chars
    rw [read, same, readHead_gap before_blank]
    rfl
  rw [opened, toOption_bind, readObject, toOption_bind, folded]
  cases takeAll (deepest - 1) entries with
  | none => rfl
  | some draft =>
    simp only [Option.map_some, Option.bind_some]
    cases finish draft with
    | error cause => rfl
    | ok m =>
      change (closeText after >>= fun _ => pure m : Reading ServerMessage).toOption = some m
      rw [closeText_gap after_blank]
      rfl

/-- What a frame says rests on the members that count, in their order. -/
theorem read_of_counted {text : String} (composed : Composed members text.toList)
    (each : ∀ m ∈ members, ∃ p, Stands p m.2)
    (parsed : ∀ m ∈ members.filter (·.1 ∈ counted), ∃ v, Parses (deepest - 1) m.2 v) :
    ∃ entries, List.Forall₂ Fits (members.filter (·.1 ∈ counted)) entries ∧
      (read text).toOption =
        (takeAll (deepest - 1) entries).bind fun draft => (finish draft).toOption := by
  generalize chars : text.toList = s at composed
  cases composed with
  | mk before_blank after_blank listed =>
    obtain ⟨entries, listed, fits⟩ := listed.entries each
    have those := fits_filter fits
    refine ⟨entries.filter Counts, those, ?_⟩
    have valued : ∀ e ∈ entries, Counts e → ∃ v, e.2.value? (deepest - 1) = some v := by
      intro e member counts
      obtain ⟨m, among, fit⟩ := exists_member those
        (List.mem_filter.mpr ⟨member, by simpa using counts⟩)
      obtain ⟨v, parses⟩ := parsed m among
      exact ⟨v, parses.value fit.2⟩
    rw [toOption_read before_blank after_blank chars listed valued, takeAll, takeAll,
      foldlM_counted fits]

end Frames

section Orders

variable {tag data : List Char} {t c : Value}

/-- The message of an event with data, by their values. -/
def ofValues? (t c : Value) : Option ServerMessage :=
  (named? t).bind fun kind => ((dataShape kind).ofValue c).toOption

theorem takeEntry_of_fits {d : Nat} {key : String} {text : List Char} {v : Value}
    {e : Spelling × Phrase} (fit : Fits (key, text) e) (counts : key ∈ counted)
    (parses : Parses d text v) (draft : Draft) :
    takeEntry (takePhrase d) draft e = take draft key v := by
  rw [takeEntry, fit.1, Option.bind_some, takePhrase, if_pos counts, parses.value fit.2,
    Option.bind_some]

/-- A frame with two members that count says what they make of a draft, one after the other. -/
theorem read_of_pair {members : List (String × List Char)} {key next : String}
    {text later : List Char} {v w : Value} (counts : key ∈ counted ∧ next ∈ counted)
    (parses : Parses (deepest - 1) text v) (parses' : Parses (deepest - 1) later w)
    (each : ∀ m ∈ members, ∃ p, Stands p m.2)
    (pair : members.filter (·.1 ∈ counted) = [(key, text), (next, later)]) {frame : String}
    (composed : Composed members frame.toList) :
    (read frame).toOption = ((take .empty key v).bind fun draft => take draft next w).bind
      fun draft => (finish draft).toOption := by
  have parsed : ∀ m ∈ members.filter (·.1 ∈ counted), ∃ v, Parses (deepest - 1) m.2 v := by
    rw [pair]
    simpa using ⟨⟨v, parses⟩, ⟨w, parses'⟩⟩
  obtain ⟨entries, fits, said⟩ := read_of_counted composed each parsed
  rw [pair] at fits
  obtain _ | ⟨here, _ | ⟨there, _ | _⟩⟩ := fits
  rw [said, takeAll, List.foldlM_cons, takeEntry_of_fits here counts.1 parses]
  congr 2
  funext draft
  rw [List.foldlM_cons, takeEntry_of_fits there counts.2 parses']
  exact bind_pure (take draft next w)

/-- Data after the event are read as the event asks. -/
theorem finish_eventFirst (t c : Value) : (((take .empty "event" t).bind fun draft =>
    take draft "data" c).bind fun draft => (finish draft).toOption) = ofValues? t c := by
  rw [take, if_pos rfl, ofValues?]
  cases named? t with
  | none => rfl
  | some kind =>
    change (((dataShape kind).ofValue c).toOption.map Draft.complete).bind _ =
      ((dataShape kind).ofValue c).toOption
    cases (dataShape kind).ofValue c <;> rfl

/-- Data before the event are kept, and taken as the event asks. -/
theorem finish_dataFirst (t c : Value) : (((take .empty "data" c).bind fun draft =>
    take draft "event" t).bind fun draft => (finish draft).toOption) = ofValues? t c := by
  change (((named? t).bind fun kind => ((dataShape kind).ofValue c).toOption.map
    Draft.complete).bind _) = _
  rw [ofValues?]
  cases named? t with
  | none => rfl
  | some kind =>
    rw [Option.bind_some, Option.bind_some]
    cases (dataShape kind).ofValue c <;> rfl

/-- A frame with an event and data says what their values make together, whichever of them comes
first, and whatever other members it has. -/
theorem read_in_either_order (tag_parses : Parses (deepest - 1) tag t)
    (data_parses : Parses (deepest - 1) data c) {ms ns : List (String × List Char)}
    (each : ∀ m ∈ ms ++ ns, ∃ p, Stands p m.2)
    (eventFirst : ms.filter (·.1 ∈ counted) = [("event", tag), ("data", data)])
    (dataFirst : ns.filter (·.1 ∈ counted) = [("data", data), ("event", tag)])
    {one other : String} (first : Composed ms one.toList) (second : Composed ns other.toList) :
    (read one).toOption = (read other).toOption ∧ (read one).toOption = ofValues? t c := by
  obtain ⟨mine, yours⟩ := List.forall_mem_append.mp each
  have early : (read one).toOption = ofValues? t c := by
    rw [read_of_pair (by decide) tag_parses data_parses mine eventFirst first, finish_eventFirst]
  have late : (read other).toOption = ofValues? t c := by
    rw [read_of_pair (by decide) data_parses tag_parses yours dataFirst second, finish_dataFirst]
  exact ⟨early.trans late.symm, early⟩

/-- The data of an event of code, as they are written: the code, a remark, and whose it is. -/
def shownChange : String := " \x7b\"state\":\"bd*2\", \"note\":[null],\"id\":3\x7d"

/-- A frame with the event first. -/
def shownEarly : String := "\x7b\"event\":\"code\",\"data\":" ++ shownChange ++ "\x7d"

/-- A frame with the event last, and with a member of a number that is too large and of half a
surrogate pair. -/
def shownLate : String :=
  "\x7b\"x\" :[1E999, \"\\ud800\"],\"d\\u0061ta\":" ++ shownChange ++
    ",\"event\":\"code\"\x7d"

/-- The change is read from both frames. -/
theorem read_in_either_order_shown :
    read shownEarly = .ok (.changed (.code "bd*2") 3) ∧
    read shownLate = .ok (.changed (.code "bd*2") 3) := by
  let tag := "\"code\"".toList
  let extra := "[1E999, \"\\ud800\"]".toList
  have tag_parses : Parses (deepest - 1) tag (.string "code") := ⟨[], rfl, rfl⟩
  have data_parses : Parses (deepest - 1) shownChange.toList (.object [("state", .string "bd*2"),
    ("note", .list [.null]), ("id", .number (.unsigned 3))]) := ⟨[], rfl, rfl⟩
  have none : Blanks [] := by decide
  have blank : Blanks [' '] := by decide
  have other : Stands ClientMessage.shownOther.value extra :=
    .mk none (.list (.cons (.first none) (.number _) (.cons (.next none blank) (.string _)
      (.nil none)))) none
  have tag_stands : ∃ p, Stands p tag := (parses_iff.mp tag_parses).imp fun _ h => h.1
  have data_stands : ∃ p, Stands p shownChange.toList :=
    (parses_iff.mp data_parses).imp fun _ h => h.1
  have event : Paired ("event", tag) _ :=
    .mk (g := ClientMessage.plain "event".toList (by decide)) rfl none
  have change : Paired ("data", shownChange.toList) _ :=
    .mk (g := ClientMessage.plain "data".toList (by decide)) rfl none
  have respelled : Paired ("data", shownChange.toList) _ :=
    .mk (g := ClientMessage.shownKey) rfl none
  have more : Paired ("x", extra) _ := .mk (g := ClientMessage.plain ['x'] (by decide)) rfl blank
  have first : Composed [("event", tag), ("data", shownChange.toList)] shownEarly.toList :=
    .mk none none (.cons (.first none) event (.cons (.next none none) change (.nil none)))
  have second : Composed [("x", extra), ("data", shownChange.toList), ("event", tag)]
      shownLate.toList :=
    .mk none none (.cons (.first none) more (.cons (.next none none) respelled
      (.cons (.next none none) event (.nil none))))
  have each : ∀ m ∈ [("event", tag), ("data", shownChange.toList)] ++
      [("x", extra), ("data", shownChange.toList), ("event", tag)], ∃ p, Stands p m.2 := by
    simp only [List.cons_append, List.nil_append, List.forall_mem_cons]
    exact ⟨tag_stands, data_stands, ⟨_, other⟩, data_stands, tag_stands, nofun⟩
  obtain ⟨same, said⟩ := read_in_either_order tag_parses data_parses each (by decide) (by decide)
    first second
  have means : ofValues? (.string "code") (.object [("state", .string "bd*2"),
    ("note", .list [.null]), ("id", .number (.unsigned 3))]) = some (.changed (.code "bd*2") 3) :=
    rfl
  exact ⟨toOption_eq_some_iff.mp (said.trans means),
    toOption_eq_some_iff.mp (same.symm.trans (said.trans means))⟩

end Orders

end ServerMessage

end LiveRelay
