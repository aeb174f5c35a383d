import LiveRelay.Proofs.Session.Legible
import LiveRelay.Proofs.Session.Remembered

/-! # What is written of a participant

A participant is written in a greeting and in a list of the participants, and both show the snapshot.
Two things are written as `null`: a double that is not finite, and an editor that is none. What
clients say puts no such double into a room, and no editor that is `null` itself. So wherever `null`
stands for an editor, its connection has shared none since it came.
-/

namespace LiveRelay

open Json

namespace Json

theorem signed_ne_null {l : Literal} (written : l.Written) : l.signed ≠ ['n', 'u', 'l', 'l'] := by
  obtain ⟨c, more, chars, begins⟩ := (Numeral.ofWritten written).begins
  rw [← Numeral.chars_ofWritten written, chars]
  rcases begins with ⟨-, rfl, -⟩ | ⟨-, digit, -⟩
  · exact nofun
  · rintro ⟨⟩
    cases digit

/-- A finite double is not written as `null`. -/
theorem realText_ne_null {x : Binary64} (finite : x.isFinite = true) : realText x ≠ "null" := by
  intro same
  have text := toList_realText finite
  rw [same] at text
  exact signed_ne_null (Binary64.written_literal finite _) text.symm

/-- Only `null` is written as `null`, as long as numbers are finite. -/
theorem Value.text_ne_null {v : Value} (present : v ≠ .null) (finite : v.Finite) :
    v.text ≠ "null" := by
  intro same
  have chars := v.toList_text
  rw [same] at chars
  cases v with
  | null => exact present rfl
  | boolean b => cases b <;> cases chars
  | number n =>
    rcases numberText_eq n with ⟨x, rfl, infinite⟩ | ⟨l, m, written, -, text⟩
    · cases infinite.symm.trans finite
    · exact signed_ne_null written (text.symm.trans chars.symm)
  | string s => cases chars
  | list items => cases chars
  | object members => cases chars

end Json

namespace Participant

/-- A participant as it is written, from the texts of its parts. -/
def written (id code editor x y angle : String) : String :=
  "\x7b\"id\":" ++ id ++ ",\"code\":" ++ code ++ ",\"editor\":" ++ editor ++
    ",\"speaker\":\x7b\"x\":" ++ x ++ ",\"y\":" ++ y ++ ",\"angle\":" ++ angle ++ "\x7d\x7d"

/-- The text of what a participant has in its editor. -/
def editorText (p : Participant) : String := (p.editor.getD .null).text

theorem text_toValue (p : Participant) : p.toValue.text =
    written (wordValue p.id).text (Value.string p.code).text p.editorText (realText p.speaker.x)
      (realText p.speaker.y) (realText p.speaker.angle) := by
  have id : "\x7b\"id\":".toList = '{' :: (quoted "id" ++ [':']) := by decide +kernel
  have code : ",\"code\":".toList = ',' :: (quoted "code" ++ [':']) := by decide +kernel
  have editor : ",\"editor\":".toList = ',' :: (quoted "editor" ++ [':']) := by decide +kernel
  have speaker : ",\"speaker\":\x7b\"x\":".toList =
      ',' :: (quoted "speaker" ++ ':' :: '{' :: (quoted "x" ++ [':'])) := by decide +kernel
  have y : ",\"y\":".toList = ',' :: (quoted "y" ++ [':']) := by decide +kernel
  have angle : ",\"angle\":".toList = ',' :: (quoted "angle" ++ [':']) := by decide +kernel
  have close : "\x7d\x7d".toList = ['}', '}'] := by decide +kernel
  apply String.toList_inj.mp
  unfold written editorText
  simp only [String.toList_append, Value.toList_text, id, code, editor, speaker, y, angle, close]
  simp [toValue, Speaker.toValue, Value.chars, Value.memberChars, numberText]

/-- Participants are listed one after the other. -/
theorem listText_eq (ps : List Participant) :
    listText ps = "[" ++ ",".intercalate (ps.map fun p => p.toValue.text) ++ "]" := by
  rw [listText, Value.text_list, List.map_map]
  rfl

end Participant

namespace ServerMessage

/-- A greeting has the list of the participants in it. -/
theorem text_hello (id : ParticipantId) (ps : List Participant) (time : Binary64) :
    (hello id ps time).text =
      "\x7b\"event\":\"hello\",\"data\":\x7b\"id\":" ++ (wordValue id).text ++ ",\"players\":" ++
        Participant.listText ps ++ ",\"time\":" ++ realText time ++ "\x7d\x7d" := by
  have data : "\x7b\"event\":\"hello\",\"data\":\x7b\"id\":".toList =
      '{' :: (quoted "event" ++ ':' :: (quoted "hello" ++ ',' :: (quoted "data" ++
        ':' :: '{' :: (quoted "id" ++ [':'])))) := by decide +kernel
  have players : ",\"players\":".toList = ',' :: (quoted "players" ++ [':']) := by decide +kernel
  have timed : ",\"time\":".toList = ',' :: (quoted "time" ++ [':']) := by decide +kernel
  have close : "\x7d\x7d".toList = ['}', '}'] := by decide +kernel
  apply String.toList_inj.mp
  simp only [String.toList_append, ServerMessage.text, Participant.listText, Value.toList_text, data,
    players, timed, close]
  simp [toValue, event, Value.chars, Value.memberChars, numberText]

end ServerMessage

namespace Happening

variable {x : Happening} {h : Handle} {c : Change}

theorem eq_of_said (said : x.said? h = some c) : x = .command (.message h (.change c)) := by
  unfold said? at said
  split at said
  · split at said
    · next same =>
      cases said
      rw [same]
    · cases said
  · cases said

end Happening

/-- A participant whose speaker is finite, and whose editor is not `null` and has only finite numbers
in it. -/
structure Participant.Representable (p : Participant) : Prop where
  speaker : p.speaker.Finite
  editor : ∀ v ∈ p.editor, v ≠ .null ∧ v.Finite

theorem Participant.Representable.editorText_eq_null_iff {p : Participant}
    (representable : p.Representable) : p.editorText = "null" ↔ p.editor = none := by
  cases stored : p.editor with
  | none =>
    simp only [editorText, stored, Option.getD_none, iff_true]
    decide
  | some v =>
    obtain ⟨present, finite⟩ := representable.editor v stored
    simp only [editorText, stored, Option.getD_some, reduceCtorEq, iff_false]
    exact Value.text_ne_null present finite

/-- What is known of a participant after changes that were read from frames can be written. -/
theorem Participant.representable_lastKnown (i : ParticipantId) {cs : List Change}
    (heard : ∀ c ∈ cs, ∃ text, ClientMessage.read text = .ok (some (.change c))) :
    (lastKnown i cs).Representable := by
  constructor
  · rw [lastKnown]
    cases last : (cs.filterMap Change.speaker?).getLast? with
    | none => exact Speaker.finite_origin
    | some s =>
      obtain ⟨c, said, speaker⟩ := List.mem_filterMap.mp (List.mem_of_getLast? last)
      obtain ⟨text, read⟩ := heard c said
      cases c <;> cases speaker
      exact ClientMessage.finite_of_read read
  · intro v last
    obtain ⟨c, said, editor⟩ := List.mem_filterMap.mp (List.mem_of_getLast? last)
    obtain ⟨text, read⟩ := heard c said
    cases c <;> cases editor
    exact ClientMessage.editor_of_read read

namespace Session

/-- The participants that are listed at some moment, and the text in which they are: in the greeting
of a newcomer, or as an answer. -/
inductive Lists (s : Session) (x : Happening) : List Participant → String → Prop
  | greeting {o : Offer} {i : ParticipantId} {ps : List Participant} {time : Binary64}
      (offered : o ∈ (s.step x).offers) (event : o.event = .message (.hello i ps time)) :
      Lists s x ps (ServerMessage.hello i ps time).text
  | answer {ps : List Participant} (reply : (s.step x).reply = .participants ps) :
      Lists s x ps (Participant.listText ps)

variable {s : Session} {x : Happening} {xs : List Happening} {h : Handle} {seat : Seat}
  {ps : List Participant} {text : String}

/-- The participants that are listed are those in the snapshot. -/
theorem Lists.eq_snapshot (lists : s.Lists x ps text) : ps = s.room.seating.snapshot := by
  cases lists with
  | greeting offered event => exact (s.shown_of_hello x offered event).1
  | answer reply =>
    cases brings : x.command? s with
    | none =>
      cases x with
      | connect h capacity => cases brings
      | command c => cases brings
      | make capacity => cases reply
      | pass nanoseconds =>
        simp only [step] at reply
        cases passed : s.room.advance nanoseconds <;> rw [passed] at reply <;> cases reply
      | take box count =>
        simp only [step] at reply
        cases found : s.outboxes.get? box <;> rw [found] at reply <;> cases reply
      | close box => cases reply
      | drop box => cases reply
    | some c =>
      rw [s.reply_step x brings] at reply
      cases c <;> cases reply
      rfl

/-- Wherever participants are listed, their texts stand in brackets, with commas between them. -/
theorem Lists.text_eq (lists : s.Lists x ps text) : ∃ front back, text =
    front ++ "[" ++ ",".intercalate (ps.map fun p => p.toValue.text) ++ "]" ++ back := by
  cases lists with
  | @greeting o i _ time offered event =>
    rw [ServerMessage.text_hello, Participant.listText_eq]
    refine ⟨"\x7b\"event\":\"hello\",\"data\":\x7b\"id\":" ++ (wordValue i).text ++ ",\"players\":",
      ",\"time\":" ++ realText time ++ "\x7d\x7d", ?_⟩
    simp only [String.append_assoc]
  | answer reply =>
    rw [Participant.listText_eq]
    exact ⟨"", "", by simp⟩

/-- Whoever has a seat can be written, and has an editor just if its connection shared one since it
came. -/
theorem representable_of_seat (heard : FromFrames xs)
    (seated : (start.run xs).room.seating.seat? h = some seat) :
    seat.participant.Representable ∧ ∃ before x after, xs = before ++ x :: after ∧
      SeatedSince before x after h ∧ (seat.participant.editor = none ↔
        ∀ y ∈ after, ∀ v, y.said? h ≠ some (.editor v)) := by
  obtain ⟨before, x, after, rfl, since, known⟩ := seatedSince_of_seat seated
  rw [known]
  refine ⟨Participant.representable_lastKnown _ ?_, before, x, after, rfl, since, ?_⟩
  · intro c said
    obtain ⟨y, member, told⟩ := List.mem_filterMap.mp said
    refine heard h (.change c) ?_
    rw [← Happening.eq_of_said told]
    exact List.mem_append_right _ (.tail _ member)
  · have unsaid (y : Happening) : (y.said? h).bind Change.editor? = none ↔
        ∀ v, y.said? h ≠ some (.editor v) := by
      cases y.said? h with
      | none => simp
      | some c => cases c <;> simp [Change.editor?]
    simp only [Participant.lastKnown, List.getLast?_eq_none_iff, List.filterMap_filterMap,
      List.filterMap_eq_nil_iff, unsaid]

/-- A connection with a seat can always be written. In every greeting and in every list of the
participants no coordinate stands as `null`, and an editor does just if the connection has shared
none since it came. -/
theorem listed_without_nulls (xs : List Happening) (heard : FromFrames xs) :
    let s := start.run xs
    (∀ h p, s.room.seating.get h = .ok p → p.speaker.Finite ∧ p.editor ≠ some .null) ∧
    ∀ x ps text, s.Lists x ps text →
      (∃ front back, text =
        front ++ "[" ++ ",".intercalate (ps.map fun p => p.toValue.text) ++ "]" ++ back) ∧
      ∀ p ∈ ps,
        p.toValue.text = Participant.written (wordValue p.id).text (Value.string p.code).text
          p.editorText (realText p.speaker.x) (realText p.speaker.y) (realText p.speaker.angle) ∧
        realText p.speaker.x ≠ "null" ∧ realText p.speaker.y ≠ "null" ∧
        realText p.speaker.angle ≠ "null" ∧
        ∃ h before y after, xs = before ++ y :: after ∧ SeatedSince before y after h ∧
          s.room.seating.get h = .ok p ∧
          (p.editorText = "null" ↔ ∀ z ∈ after, ∀ v, z.said? h ≠ some (.editor v)) := by
  intro s
  constructor
  · intro h p holds
    obtain ⟨seat, seated, rfl⟩ := Seating.get_eq_ok_iff.mp holds
    have representable := (representable_of_seat heard seated).1
    exact ⟨representable.speaker, fun stored => (representable.editor _ stored).1 rfl⟩
  · intro x ps text lists
    refine ⟨lists.text_eq, fun p member => ?_⟩
    have consistent := consistent_run (s := start) .empty xs
    rw [lists.eq_snapshot] at member
    obtain ⟨h, holds⟩ := consistent.mem_snapshot_iff.mp member
    obtain ⟨seat, seated, rfl⟩ := Seating.get_eq_ok_iff.mp holds
    obtain ⟨representable, before, y, after, cut, since, unshared⟩ :=
      representable_of_seat heard seated
    obtain ⟨finiteX, finiteY, finiteAngle⟩ := representable.speaker
    refine ⟨Participant.text_toValue _, realText_ne_null finiteX, realText_ne_null finiteY,
      realText_ne_null finiteAngle, h, before, y, after, cut, since, holds, ?_⟩
    rw [representable.editorText_eq_null_iff, unshared]

/-- Of two connections one has shared an editor, and the other one is listed with `null`. -/
theorem listed_without_nulls_late :
    FromFrames (lateArrival (.nested 1)) ∧
      .fresh 1 ∈ (start.run (lateArrival (.nested 1))).room.seating.snapshot ∧
      realText (Participant.fresh 1).speaker.x ≠ "null" ∧
      (Participant.fresh 1).editorText = "null" := by
  have heard : FromFrames (lateArrival (.nested 1)) := fromFrames_lateArrival (by decide)
  have listed : Participant.fresh 1 ∈ (start.run (lateArrival (.nested 1))).room.seating.snapshot :=
    .tail _ (.head _)
  obtain ⟨-, coordinate, -, -, h, before, y, after, cut, -, holds, written⟩ :=
    ((listed_without_nulls _ heard).2 (.command .listParticipants) _ _ (.answer rfl)).2 _ listed
  refine ⟨heard, listed, coordinate, written.mpr fun z member v said => ?_⟩
  have happens : z ∈ lateArrival (.nested 1) := by
    rw [cut]
    exact List.mem_append_right _ (.tail _ member)
  rw [Happening.eq_of_said said] at happens
  have first : h = 1 := by
    simp only [lateArrival, List.mem_cons, Happening.command.injEq, Command.message.injEq,
      List.not_mem_nil, or_false, reduceCtorEq, false_or] at happens
    exact happens.1
  subst first
  have zero : (0 : ParticipantId) = 1 := congrArg Participant.id (Except.ok.inj holds)
  cases zero

end Session

end LiveRelay
