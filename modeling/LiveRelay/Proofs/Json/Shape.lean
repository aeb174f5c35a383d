import LiveRelay.Json.Shape
import LiveRelay.Proofs.Json.Tree

/-! # Reading values of a known shape back

A shape takes a value if it reads what is written for it as long as enough brackets may be opened,
and fails otherwise. A record takes an object with its fields: member by member a draft is filled,
and every member is taken by its own field.
-/

namespace LiveRelay.Json

namespace Shape

variable {α β : Type}

/-- A shape reads a value exactly if it may open as many brackets as the value nests. -/
def Takes (shape : Shape α) (v : Value) : Prop :=
  ∀ d, Decides (shape.ofText d) v.chars (v.depth ≤ d)

variable {text : List Char} {d : Nat}

theorem reads_ofHead {fit : Head → Except Cause α} {head : Head} {a : α}
    (reads : Reads readHead text head) (fits : fit head = .ok a) :
    Reads ((ofHead fit).ofText d) text a := by
  intro rest delimited
  simp only [ofHead, reads rest delimited, fits, bind, Except.bind, pure, Except.pure]

theorem reads_string (s : String) : Reads (string.ofText d) (quoted s) s :=
  reads_ofHead (Json.reads_string s) rfl

theorem takes_string (s : String) : string.Takes (.string s) :=
  fun d => (reads_string s).decides (Nat.zero_le d)

theorem takes_word (n : UInt64) : word.Takes (.number (.unsigned n)) := fun d =>
  have reads : Reads (word.ofText d) (numberText (.unsigned n)).toList n :=
    reads_ofHead (Json.reads_word n) rfl
  reads.decides (Nat.zero_le d)

theorem takes_real {x : Binary64} (finite : x.isFinite = true) :
    real.Takes (.number (.real x)) := by
  intro d
  have read : Reads (real.ofText d) (realText x).toList x.reread :=
    reads_ofHead (Json.reads_real finite) rfl
  exact read.decides (Nat.zero_le d)

theorem takes_value (v : Value) : value.Takes v :=
  fun d => (decides_readTree d v).map Value.canonical

theorem nullable_ofText (d : Nat) (s : List Char) : nullable.ofText d s =
    (readTree d s).map fun (v, s) => ((nullable.ofValue v).toOption.join, s) := by
  simp only [nullable]
  cases readTree d s with
  | error f => rfl
  | ok read =>
    obtain ⟨v, s⟩ := read
    cases v <;> rfl

theorem reads_nullable {v : Value} (reads : Reads (readTree d) text v) :
    Reads (nullable.ofText d) text (nullable.ofValue v).toOption.join := by
  have read := reads.map fun v => (nullable.ofValue v).toOption.join
  simpa only [← nullable_ofText] using read

theorem takes_nullable (v : Value) : nullable.Takes v := by
  intro d
  have read := (decides_readTree d v).map fun v => (nullable.ofValue v).toOption.join
  simpa only [← nullable_ofText] using read

theorem takes_list {item : Shape α} {items : List Value} (each : ∀ v ∈ items, item.Takes v) :
    (list item).Takes (.list items) := by
  intro d
  cases d with
  | zero =>
    have closed : Rejects ((list item).ofText 0) (Value.list items).chars := fun _ _ => ⟨_, rfl⟩
    exact closed.decides (Nat.not_succ_le_zero _)
  | succ d =>
    have read := decides_readItems fun v member => each v member d
    refine (read.opened fun s => (rfl : (list item).ofText (d + 1) ('[' :: s) = _)).iff ?_
    rw [Value.depth, Nat.add_le_add_iff_right, Value.itemsDepth_le_iff]

end Shape

namespace Record

variable {δ α β : Type} {r : Record δ α} {d : Nat} {draft : δ} {members : List (String × Value)}

theorem readMember_known {key : String} {field : Field δ} (found : r.field? key = some field)
    (missing : field.given draft = false) (s : List Char) : r.readMember d draft key (':' :: s) =
      (field.shape.ofText d s).map fun (put, s) => (put draft, s) := by
  simp only [readMember, found, missing, readColon_cons, bind, Except.bind, Bool.false_eq_true,
    if_false, pure, Except.pure]
  cases field.shape.ofText d s <;> rfl

theorem shape_opened (r : Record δ α) (d : Nat) (s : List Char) :
    r.shape.ofText (d + 1) ('{' :: s) = r.readObject d s := rfl

/-- A record is read from an object whose members lead to a draft that can be finished. -/
theorem reads_object {a : α}
    (folds : Folds (memberStep (r.readMember d)) memberText r.empty members draft)
    (finished : r.finish draft = .ok a) :
    Reads (r.shape.ofText (d + 1)) (Value.object members).chars a := by
  have inside : Reads (r.readObject d) (Value.memberChars true members ++ ['}']) a := by
    intro rest _
    rw [List.append_assoc, List.singleton_append, readObject, foldMembers_of_folds folds rest]
    simp only [finished, bind, Except.bind, pure, Except.pure, closeObject_cons]
  exact inside.opened (shape_opened r d)

theorem rejects_object (stops : Stops (memberStep (r.readMember d)) memberText r.empty members) :
    Rejects (r.shape.ofText (d + 1)) (Value.object members).chars := by
  intro rest _
  obtain ⟨f, failed⟩ := foldMembers_of_stops stops rest
  rw [Value.chars, List.cons_append, shape_opened, List.append_assoc, List.singleton_append,
    readObject, failed]
  exact ⟨f, rfl⟩

/-- Written members fill a draft that can be finished then, unless one of them nests too deep. -/
structure Settles (r : Record δ α) (d : Nat) (draft : δ) (members : List (String × Value)) :
    Prop where
  fills : Value.membersDepth members ≤ d → ∃ last a,
    Folds (memberStep (r.readMember d)) memberText draft members last ∧ r.finish last = .ok a
  stops : ¬ Value.membersDepth members ≤ d →
    Stops (memberStep (r.readMember d)) memberText draft members

theorem settles_nil {a : α} (finished : r.finish draft = .ok a) : r.Settles d draft [] where
  fills _ := ⟨draft, a, .nil, finished⟩
  stops deep := absurd (Nat.zero_le d) deep

variable {key : String} {name : String} {given : δ → Bool} {omissible : Bool} {shape : Shape β}
  {put : β → δ → δ} {v : Value}

/-- A member that its field reads fills the field. -/
theorem reads_member {b : β} (found : r.field? key = some ⟨name, given, omissible, shape.map put⟩)
    (missing : given draft = false) (reads : Reads (shape.ofText d) v.chars b) :
    Reads (memberStep (r.readMember d) draft (key, v)) (memberText (key, v)) (put b draft) :=
  ((reads.map put).map fun put => put draft).opened (readMember_known found missing)

theorem rejects_member (found : r.field? key = some ⟨name, given, omissible, shape.map put⟩)
    (missing : given draft = false) (rejects : Rejects (shape.ofText d) v.chars) :
    Rejects (memberStep (r.readMember d) draft (key, v)) (memberText (key, v)) := by
  intro rest delimited
  obtain ⟨f, failed⟩ := ((rejects.map put).map fun put => put draft) rest delimited
  exact ⟨f, (readMember_known found missing _).trans failed⟩

/-- A member that its field takes fills the field, unless it nests too deep. -/
theorem settles_cons (found : r.field? key = some ⟨name, given, omissible, shape.map put⟩)
    (missing : given draft = false) (takes : shape.Takes v)
    (later : ∀ b, r.Settles d (put b draft) members) :
    r.Settles d draft ((key, v) :: members) where
  fills few := by
    obtain ⟨here, rest⟩ := max_le_iff.mp few
    obtain ⟨b, reads⟩ := (takes d).reads here
    obtain ⟨last, a, folds, finished⟩ := (later b).fills rest
    exact ⟨last, a, .cons (reads_member found missing reads) folds, finished⟩
  stops deep := by
    by_cases here : v.depth ≤ d
    · obtain ⟨b, reads⟩ := (takes d).reads here
      have rest : ¬ Value.membersDepth members ≤ d := fun rest => deep (max_le here rest)
      exact .later (reads_member found missing reads) ((later b).stops rest)
    · exact .here (rejects_member found missing ((takes d).rejects here))

/-- A record takes an object whose members settle its draft. -/
theorem takes_object (settles : ∀ d, r.Settles d r.empty members) :
    r.shape.Takes (.object members) := by
  intro d
  cases d with
  | zero =>
    have closed : Rejects (r.shape.ofText 0) (Value.object members).chars := fun _ _ => ⟨_, rfl⟩
    exact closed.decides (Nat.not_succ_le_zero _)
  | succ d =>
    constructor
    · intro few
      obtain ⟨last, a, folds, finished⟩ := (settles d).fills (Nat.le_of_succ_le_succ few)
      exact ⟨a, reads_object folds finished⟩
    · intro deep
      apply rejects_object
      exact (settles d).stops fun few => deep (Nat.succ_le_succ few)

end Record

end LiveRelay.Json
