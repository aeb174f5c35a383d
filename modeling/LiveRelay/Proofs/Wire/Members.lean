import LiveRelay.Proofs.Json.Passing
import LiveRelay.Wire.ClientFrame
import Mathlib.Logic.Relation

/-! # Only the event and the data of a frame count

The members of a client frame may stand in any order and be spelled in any way, and a frame may have
members of other names with any values. What becomes of it depends on nothing but the values of its
members named `event` and `data`: there has to be one event, and there may be data once.
-/

namespace LiveRelay

open Json

namespace Envelope

/-- A member of a frame as it is spelled, with a key that is a string. -/
structure Member where
  key : Spelling
  name : String
  named : key.decode = some name
  value : Phrase

/-- A member of a frame as a member of an object. -/
def Member.entry (m : Member) : Spelling × Phrase := (m.key, m.value)

/-- The texts of a frame: an object with its members, and blanks between any two tokens. -/
inductive Spelled (members : List Member) : List Char → Prop
  | mk {before inner after : List Char} (before_blank : Blanks before)
      (after_blank : Blanks after)
      (listed : Listed (Entry Spells) true (members.map Member.entry) inner) :
      Spelled members (before ++ ('{' :: (inner ++ ['}']) ++ after))

/-- The data that a phrase stands for in a frame: a `null` counts as none. -/
def kept? (p : Phrase) : Option (Option Value) :=
  (p.value? (deepest - 1)).map fun v => (Shape.nullable.ofValue v).toOption.join

/-- What a member makes of a draft. -/
def take (draft : Draft) (name : String) (p : Phrase) : Option Draft :=
  if name = "event" then
    if draft.event.isSome then none else p.string?.map fun e => { draft with event := some e }
  else if name = "data" then
    if draft.data.isSome then none else (kept? p).map fun v => { draft with data := some v }
  else some draft

theorem field?_event : record.field? "event" = some ⟨"event", (·.event.isSome), false,
    Shape.string.map fun e d => { d with event := some e }⟩ := rfl

theorem field?_data : record.field? "data" = some ⟨"data", (·.data.isSome), true,
    Shape.nullable.map fun v d => { d with data := some v }⟩ := rfl

theorem field?_other {name : String} (event : name ≠ "event") (data : name ≠ "data") :
    record.field? name = none := by
  simp [Record.field?, record, event.symm, data.symm]

theorem yields_take {p : Phrase} {text : List Char} (assigned : Assigned p text) (draft : Draft)
    (name : String) :
    Yields (record.readMember (deepest - 1) draft name) text (take draft name p) := by
  unfold take
  split
  · next event =>
    subst event
    exact Record.yields_known field?_event assigned (fun gap blank s => Shape.ofHead_gap blank s)
      fun text spells => Shape.yields_string spells
  · next event =>
    split
    · next data =>
      subst data
      exact Record.yields_known field?_data assigned
        (fun gap blank s => Shape.nullable_gap blank s) fun text spells =>
          Shape.yields_nullable spells
    · next data => exact Record.yields_unknown (field?_other event data) assigned

theorem takeEntry_entry (draft : Draft) (m : Member) :
    takeEntry take draft m.entry = take draft m.name m.value := by
  rw [takeEntry, Member.entry, m.named]
  rfl

/-- A frame is an envelope if its members fill a draft that can be finished. -/
theorem toOption_read {members : List Member} {text : String}
    (spelled : Spelled members text.toList) : (record.shape.read text).toOption =
      (members.foldlM (fun draft m => take draft m.name m.value) record.empty).bind
        fun draft => (record.finish draft).toOption := by
  have steps : ∀ m ∈ members.map Member.entry, ∀ text, Assigned m.2 text → ∀ draft name,
      Yields (record.readMember (deepest - 1) draft name) text (take draft name m.2) :=
    fun m _ text assigned draft name => yields_take assigned draft name
  rw [Shape.read, toOption_bind]
  generalize text.toList = s at spelled
  cases spelled with
  | @mk before inner after before_blank after_blank listed =>
    have follows := delimited_gap after_blank [] delimited_nil
    rw [List.append_nil] at follows
    have read : (record.shape.ofText deepest _).toOption = _ :=
      Record.yields_object steps listed after follows
    rw [List.foldlM_map, funext fun d => funext (takeEntry_entry d)] at read
    rw [Record.shape_gap before_blank, read]
    cases (members.foldlM (fun draft m => take draft m.name m.value) record.empty).bind
        fun draft => (record.finish draft).toOption with
    | none => rfl
    | some e =>
      simp only [Option.map_some, Option.bind_some, closeText_gap after_blank]
      rfl

/-- The values of the members of a name. -/
def valuesOf (name : String) (members : List Member) : List Phrase :=
  (members.filter (·.name = name)).map Member.value

theorem valuesOf_append (name : String) (members others : List Member) :
    valuesOf name (members ++ others) = valuesOf name members ++ valuesOf name others := by
  simp [valuesOf]

theorem valuesOf_cons_of_eq {name : String} {m : Member} (same : m.name = name)
    (members : List Member) : valuesOf name (m :: members) = m.value :: valuesOf name members := by
  simp [valuesOf, same]

theorem valuesOf_cons_of_ne {name : String} {m : Member} (other : m.name ≠ name)
    (members : List Member) : valuesOf name (m :: members) = valuesOf name members := by
  simp [valuesOf, other]

/-- What becomes of a field that is given by some phrases, one after the other: it may be given
once. -/
def fill {α : Type} (read : Phrase → Option α) : Option α → List Phrase → Option (Option α)
  | known, [] => some known
  | some _, _ :: _ => none
  | none, p :: rest => (read p).bind fun a => fill read (some a) rest

/-- The members of a frame fill the event and the data apart from each other. -/
theorem foldlM_take (members : List Member) (draft : Draft) :
    members.foldlM (fun draft m => take draft m.name m.value) draft =
      (fill Phrase.string? draft.event (valuesOf "event" members)).bind fun event =>
        (fill kept? draft.data (valuesOf "data" members)).map fun data => ⟨event, data⟩ := by
  induction members generalizing draft with
  | nil => rfl
  | cons m members ih =>
    rw [List.foldlM_cons, take]
    obtain ⟨e, d⟩ := draft
    by_cases event : m.name = "event"
    · have data : m.name ≠ "data" := by
        rw [event]
        decide
      rw [if_pos event, valuesOf_cons_of_eq event, valuesOf_cons_of_ne data]
      cases e with
      | some e => rfl
      | none =>
        simp only [fill]
        cases m.value.string? with
        | none => rfl
        | some e => exact ih ⟨some e, d⟩
    · rw [if_neg event, valuesOf_cons_of_ne event]
      by_cases data : m.name = "data"
      · rw [if_pos data, valuesOf_cons_of_eq data]
        cases d with
        | some v => cases fill Phrase.string? e (valuesOf "event" members) <;> rfl
        | none =>
          simp only [fill]
          cases kept? m.value with
          | none => cases fill Phrase.string? e (valuesOf "event" members) <;> rfl
          | some v => exact ih ⟨e, some v⟩
      · rw [if_neg data, valuesOf_cons_of_ne data]
        exact ih ⟨e, d⟩

/-- The envelope that the values of the events and of the data make, if they make one. -/
def ofValues? (events data : List Phrase) : Option Envelope :=
  (fill Phrase.string? none events).bind fun event => (fill kept? none data).bind fun data =>
    (record.finish ⟨event, data⟩).toOption

/-- Whether a frame is an envelope, and which one, rests on the values of its events and its data.
-/
theorem toOption_read_eq {members : List Member} {text : String}
    (spelled : Spelled members text.toList) : (record.shape.read text).toOption =
      ofValues? (valuesOf "event" members) (valuesOf "data" members) := by
  rw [toOption_read spelled, foldlM_take, ofValues?, Option.bind_assoc]
  congr 1
  funext event
  exact Option.bind_map

section

variable {α : Type} {read : Phrase → Option α} {ps qs : List Phrase}

/-- A field cannot be given twice. -/
theorem fill_of_two_le (twice : 2 ≤ ps.length) : fill read none ps = none := by
  rcases ps with _ | ⟨p, _ | ⟨q, ps⟩⟩
  · cases twice
  · simp at twice
  · rw [fill]
    cases read p <;> rfl

theorem fill_perm (perm : ps.Perm qs) : fill read none ps = fill read none qs := by
  by_cases twice : 2 ≤ ps.length
  · rw [fill_of_two_le twice, fill_of_two_le (perm.length_eq ▸ twice)]
  · rcases ps with _ | ⟨p, _ | ⟨q, ps⟩⟩
    · rw [perm.nil_eq]
    · rw [List.singleton_perm.mp perm]
    · simp at twice

end

theorem ofValues?_null (events : List Phrase) : ofValues? events [.null] = ofValues? events [] := by
  have null : fill kept? none [.null] = some (some none) := rfl
  rw [ofValues?, ofValues?, null]
  rfl

/-- A change to the members of a frame that changes neither its event nor its data: another order,
one more member of another name, another spelling of a key, or data that are `null`. -/
inductive Edit : List Member → List Member → Prop
  | reorder {ms ns : List Member} (perm : ms.Perm ns) : Edit ms ns
  | insert (before after : List Member) {m : Member} (event : m.name ≠ "event")
      (data : m.name ≠ "data") : Edit (before ++ after) (before ++ m :: after)
  | respell (before after : List Member) (m : Member) (key : Spelling)
      (same : key.decode = some m.name) :
      Edit (before ++ m :: after) (before ++ { m with key := key, named := same } :: after)
  | addNull (before after : List Member) {m : Member} (data : m.name = "data")
      (null : m.value = .null) (none : ∀ n ∈ before ++ after, n.name ≠ "data") :
      Edit (before ++ after) (before ++ m :: after)

theorem Edit.ofValues?_eq {ms ns : List Member} (edit : Edit ms ns) :
    ofValues? (valuesOf "event" ms) (valuesOf "data" ms) =
      ofValues? (valuesOf "event" ns) (valuesOf "data" ns) := by
  cases edit with
  | reorder perm =>
    have values (name : String) : (valuesOf name ms).Perm (valuesOf name ns) :=
      (perm.filter _).map _
    rw [ofValues?, ofValues?, fill_perm (values "event"), fill_perm (values "data")]
  | insert before after event data =>
    simp only [valuesOf_append, valuesOf_cons_of_ne event, valuesOf_cons_of_ne data]
  | respell before after m key same =>
    have values (name : String) :
        valuesOf name (before ++ { m with key := key, named := same } :: after) =
          valuesOf name (before ++ m :: after) := by
      by_cases named : m.name = name <;> simp [valuesOf, named]
    rw [values, values]
  | @addNull before after m data null none =>
    have event : m.name ≠ "event" := by
      rw [data]
      decide
    have absent : valuesOf "data" before ++ valuesOf "data" after = [] := by
      rw [← valuesOf_append, valuesOf, List.map_eq_nil_iff, List.filter_eq_nil_iff]
      simpa using none
    obtain ⟨absentBefore, absentAfter⟩ := List.append_eq_nil_iff.mp absent
    simp only [valuesOf_append, valuesOf_cons_of_ne event, valuesOf_cons_of_eq data, null,
      absentBefore, absentAfter, List.nil_append]
    exact (ofValues?_null _).symm

theorem ofValues?_eq_of_edits {ms ns : List Member} (edits : Relation.EqvGen Edit ms ns) :
    ofValues? (valuesOf "event" ms) (valuesOf "data" ms) =
      ofValues? (valuesOf "event" ns) (valuesOf "data" ns) := by
  induction edits with
  | rel _ _ edit => exact edit.ofValues?_eq
  | refl _ => rfl
  | symm _ _ _ ih => exact ih.symm
  | trans _ _ _ _ _ ih ih' => exact ih.trans ih'

theorem two_le_length_valuesOf {name : String} {m n : Member} (first : m.name = name)
    (second : n.name = name) (before between after : List Member) :
    2 ≤ (valuesOf name (before ++ m :: (between ++ n :: after))).length := by
  simp only [valuesOf_append, valuesOf_cons_of_eq first, valuesOf_cons_of_eq second,
    List.length_append, List.length_cons]
  omega

/-- Two events, or data twice, make no envelope. -/
theorem ofValues?_of_two {events data : List Phrase}
    (twice : 2 ≤ events.length ∨ 2 ≤ data.length) : ofValues? events data = none := by
  rcases twice with twice | twice
  · rw [ofValues?, fill_of_two_le twice]
    rfl
  · rw [ofValues?, fill_of_two_le twice]
    cases fill Phrase.string? none events <;> rfl

end Envelope

namespace ClientMessage

/-- What a frame comes to. Why it is no envelope, and where, is left out. -/
inductive Verdict where
  | message (m : Option ClientMessage)
  | notEnvelope
  | payload (kind : ClientKind) (cause : Cause)
  | missingPayload (kind : ClientKind)

/-- The verdict on what was read. -/
def verdict : Except FrameError (Option ClientMessage) → Verdict
  | .ok m => .message m
  | .error (.envelope _ _) => .notEnvelope
  | .error (.payload kind cause) => .payload kind cause
  | .error (.missingPayload kind) => .missingPayload kind

open Envelope

theorem verdict_read (text : String) : verdict (read text) =
    (record.shape.read text).toOption.elim .notEnvelope fun e => verdict (ofEnvelope e) := by
  rw [read]
  cases record.shape.read text <;> rfl

/-- What a frame comes to is not changed by edits that leave its event and its data as they are, nor
by blanks between its tokens. A frame with two events, or with data twice, is no envelope. -/
theorem read_rests_on_event_and_data :
    (∀ (ms ns : List Member) (s t : String), Spelled ms s.toList → Spelled ns t.toList →
      Relation.EqvGen Edit ms ns → verdict (read s) = verdict (read t)) ∧
    ∀ (before between after : List Member) (m n : Member) (s : String),
      Spelled (before ++ m :: (between ++ n :: after)) s.toList → m.name = n.name →
      m.name = "event" ∨ m.name = "data" →
      ∃ cause place, read s = .error (.envelope cause place) := by
  constructor
  · intro ms ns s t spelled spelled' edits
    rw [verdict_read, verdict_read, toOption_read_eq spelled, toOption_read_eq spelled',
      ofValues?_eq_of_edits edits]
  · intro before between after m n s spelled again known
    have twice := known.imp
      (fun named => two_le_length_valuesOf named (again ▸ named) before between after)
      (fun named => two_le_length_valuesOf named (again ▸ named) before between after)
    have none := (toOption_read_eq spelled).trans (ofValues?_of_two twice)
    rw [read]
    cases found : record.shape.read s with
    | error f => exact ⟨f.cause, .ofFailure s.toList f, rfl⟩
    | ok e =>
      rw [found] at none
      cases none

/-- A string that is spelled without escapes. -/
def plain (l : List Char)
    (solid : l.all fun c => c ≠ '"' ∧ c ≠ '\\' ∧ 0x20 ≤ c.toNat) : Spelling :=
  l.attach.map fun c => .plain c.1 (of_decide_eq_true (List.all_eq_true.mp solid c.1 c.2))

/-- An event of code. -/
def shownEvent : Member :=
  ⟨plain "event".toList (by decide), "event", rfl, .string (plain "code".toList (by decide))⟩

/-- The data of that event. -/
def shownData : Member :=
  ⟨plain "data".toList (by decide), "data", rfl, .string (plain "bd*2".toList (by decide))⟩

/-- The key of those data with an escaped letter. -/
def shownKey : Spelling :=
  .plain 'd' (by decide) :: .code '0' '0' '6' '1' 0x61 rfl :: plain ['t', 'a'] (by decide)

/-- The same data under that key. -/
def respelledData : Member := { shownData with key := shownKey, named := rfl }

/-- A list of a number that is too large and of half a surrogate pair, under another name. -/
def shownOther : Member where
  key := plain ['x'] (by decide)
  name := "x"
  named := rfl
  value := .list [
    .number {
      literal := ⟨false, ['1'], none, some (false, ['9', '9', '9'])⟩
      written := ⟨by simp, .inr ⟨'1', [], rfl, by decide⟩, nofun, by simp⟩
      mark := 'E'
      marks := .inr rfl
      plus := false },
    .string [.code 'd' '8' '0' '0' 0xD800 rfl]]

/-- A frame with the event and the data comes to the same as one that has them in the other order
and has the other member too; a frame with the data twice is no envelope. -/
theorem read_rests_on_event_and_data_shown :
    verdict (read "\x7b\"event\":\"code\",\"data\":\"bd*2\"\x7d") =
      verdict (read ("\x7b\"x\" :[1E999, \"\\ud800\"],\"d\\u0061ta\":\"bd*2\" ,\n" ++
        "\"event\":\"code\"\x7d ")) ∧
    ∃ cause place, read "\x7b\"data\":\"bd*2\",\"event\":\"code\",\"data\":\"bd*2\"\x7d" =
      .error (.envelope cause place) := by
  have none : Blanks [] := by decide
  have blank : Blanks [' '] := by decide
  have feed : Blanks ['\n'] := by decide
  have event : Spells shownEvent.value _ := .string _
  have data : Spells shownData.value _ := .string _
  have other : Spells shownOther.value _ :=
    .list (.cons (.first none) (.number _) (.cons (.next none blank) (.string _) (.nil none)))
  have before : Spelled [shownEvent, shownData] _ :=
    .mk none none (.cons (.first none) (.mk none none event)
      (.cons (.next none none) (.mk none none data) (.nil none)))
  have after : Spelled [shownOther, respelledData, shownEvent] _ :=
    .mk none blank (.cons (.first none) (.mk blank none other)
      (.cons (.next none none) (.mk none none data)
        (.cons (.next blank feed) (.mk none none event) (.nil none))))
  have twice : Spelled [shownData, shownEvent, shownData] _ :=
    .mk none none (.cons (.first none) (.mk none none data)
      (.cons (.next none none) (.mk none none event)
        (.cons (.next none none) (.mk none none data) (.nil none))))
  have edits : Relation.EqvGen Edit [shownEvent, shownData]
      [shownOther, respelledData, shownEvent] :=
    .trans _ _ _ (.rel _ _ (.reorder (.swap shownData shownEvent [])))
      (.trans _ _ _ (.rel _ _ (.respell [] [shownEvent] shownData shownKey rfl))
        (.rel _ _ (.insert [] _ (by decide) (by decide))))
  constructor
  · exact read_rests_on_event_and_data.1 _ _ _ _ before after edits
  · exact read_rests_on_event_and_data.2 [] [shownEvent] [] shownData shownData _ twice rfl
      (.inr rfl)

end ClientMessage

end LiveRelay
