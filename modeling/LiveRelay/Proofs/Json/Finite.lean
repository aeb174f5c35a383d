import LiveRelay.Json.Shape
import LiveRelay.Proofs.Decimal.Literal

/-! # Numbers that were read

No text makes a reader give an infinite number. So whatever is kept of a text has only finite
numbers in it, in its canonical form too, and so has every record that is found in it.
-/

namespace LiveRelay.Json

section

variable {ε α β : Type} {x : Except ε α}

theorem bind_eq_ok_iff {f : α → Except ε β} {b : β} :
    x >>= f = .ok b ↔ ∃ a, x = .ok a ∧ f a = .ok b := by
  cases x <;> simp [bind, Except.bind]

theorem map_eq_ok_iff {f : α → β} {b : β} : x.map f = .ok b ↔ ∃ a, x = .ok a ∧ f a = b := by
  cases x <;> simp [Except.map]

end

/-- A head that is no infinite number. -/
def Head.Finite : Head → Prop
  | .number n => n.toReal.isFinite = true
  | _ => True

namespace Value

mutual

/-- A value in which every number is finite. -/
def Finite : Value → Prop
  | .number n => n.toReal.isFinite = true
  | .list items => FiniteItems items
  | .object members => FiniteMembers members
  | .null | .boolean _ | .string _ => True

/-- Items in which every number is finite. -/
def FiniteItems : List Value → Prop
  | [] => True
  | v :: rest => v.Finite ∧ FiniteItems rest

/-- Members in whose values every number is finite. -/
def FiniteMembers : List (String × Value) → Prop
  | [] => True
  | (_, v) :: rest => v.Finite ∧ FiniteMembers rest

end

theorem finiteItems_iff {items : List Value} : FiniteItems items ↔ ∀ v ∈ items, v.Finite := by
  induction items with
  | nil => simp [FiniteItems]
  | cons v rest ih => simp [FiniteItems, ih]

theorem finiteMembers_iff {members : List (String × Value)} :
    FiniteMembers members ↔ ∀ m ∈ members, m.2.Finite := by
  induction members with
  | nil => simp [FiniteMembers]
  | cons m rest ih => simp [FiniteMembers, ih]

theorem finiteMembers_putMember {key : String} {v : Value} {members : List (String × Value)}
    (here : v.Finite) (there : FiniteMembers members) :
    FiniteMembers (putMember key v members) := by
  induction members with
  | nil => exact ⟨here, trivial⟩
  | cons m rest ih =>
    unfold putMember
    split
    · exact ⟨here, there⟩
    · split
      · exact ⟨here, there.2⟩
      · exact ⟨there.1, ih there.2⟩

mutual

theorem finite_canonical (v : Value) (finite : v.Finite) : v.canonical.Finite := by
  cases v with
  | list items => exact finite_canonicalItems items [] trivial finite
  | object members => exact finite_canonicalMembers members [] trivial finite
  | null | boolean b | string s | number n => exact finite

theorem finite_canonicalItems (items done : List Value) (before : FiniteItems done)
    (finite : FiniteItems items) : FiniteItems (canonicalItems done items) := by
  cases items with
  | nil =>
    rw [canonicalItems, finiteItems_iff]
    exact fun v member => finiteItems_iff.mp before v (List.mem_reverse.mp member)
  | cons v rest =>
    exact finite_canonicalItems rest (v.canonical :: done)
      ⟨finite_canonical v finite.1, before⟩ finite.2

theorem finite_canonicalMembers (members done : List (String × Value)) (before : FiniteMembers done)
    (finite : FiniteMembers members) : FiniteMembers (canonicalMembers done members) := by
  cases members with
  | nil => exact before
  | cons m rest =>
    exact finite_canonicalMembers rest (putMember m.1 m.2.canonical done)
      (finiteMembers_putMember (finite_canonical m.2 finite.1) before) finite.2

end

theorem canonical_ne_null {v : Value} (present : v ≠ .null) : v.canonical ≠ .null := by
  cases v with
  | null => exact absurd rfl present
  | boolean b | number n | string s | list items | object members => exact nofun

end Value

section

variable {σ : Type} {P : σ → Prop} {first : Bool} {state last : σ} {measure s rest : List Char}

/-- What every step of a fold over items keeps holds of its last state. -/
theorem foldItemsFrom_invariant {step : σ → List Char → Reading (σ × List Char)}
    (kept : ∀ state s next rest, P state → step state s = .ok (next, rest) → P next)
    (start : P state) (read : foldItemsFrom step measure first state s = .ok (last, rest)) :
    P last := by
  induction measure generalizing first state s with
  | nil => cases read
  | cons m measure ih =>
    rw [foldItemsFrom] at read
    split at read
    · cases read
    · cases read
      exact start
    · split at read
      · cases read
      · next stepped => exact ih (kept _ _ _ _ start stepped) read

/-- What every step of a fold over members keeps holds of its last state. -/
theorem foldMembersFrom_invariant {step : σ → String → List Char → Reading (σ × List Char)}
    (kept : ∀ state key s next rest, P state → step state key s = .ok (next, rest) → P next)
    (start : P state) (read : foldMembersFrom step measure first state s = .ok (last, rest)) :
    P last := by
  induction measure generalizing first state s with
  | nil => cases read
  | cons m measure ih =>
    rw [foldMembersFrom] at read
    split at read
    · cases read
    · cases read
      exact start
    · split at read
      · cases read
      · split at read
        · cases read
        · next stepped => exact ih (kept _ _ _ _ _ start stepped) read

end

theorem finite_of_readNumber {negative : Bool} {s rest : List Char} {n : Number}
    (read : readNumber negative s = .ok (n, rest)) : n.toReal.isFinite = true := by
  obtain ⟨⟨l, s⟩, -, valued⟩ := bind_eq_ok_iff.mp read
  dsimp only at valued
  split at valued
  · next value =>
    cases valued
    exact Literal.isFinite_of_value value
  · cases valued

theorem finite_of_readHead {s rest : List Char} {head : Head}
    (read : readHead s = .ok (head, rest)) : head.Finite := by
  have number {negative : Bool} {s : List Char}
      (read : (readNumber negative s).map (fun x => (Head.number x.1, x.2)) = .ok (head, rest)) :
      head.Finite := by
    obtain ⟨⟨n, s⟩, numbered, same⟩ := map_eq_ok_iff.mp read
    cases same
    exact finite_of_readNumber numbered
  unfold readHead at read
  split at read
  · cases read
  · obtain ⟨a, -, same⟩ := map_eq_ok_iff.mp read
    cases same
    trivial
  · obtain ⟨a, -, same⟩ := map_eq_ok_iff.mp read
    cases same
    trivial
  · obtain ⟨a, -, same⟩ := map_eq_ok_iff.mp read
    cases same
    trivial
  · exact number read
  · obtain ⟨a, -, same⟩ := map_eq_ok_iff.mp read
    cases same
    trivial
  · cases read
    trivial
  · cases read
    trivial
  · split at read
    · exact number read
    · cases read

section

variable {α : Type} {item : List Char → Reading (α × List Char)} {Q : α → Prop} {s rest : List Char}

theorem forall_of_readItems (each : ∀ s a rest, item s = .ok (a, rest) → Q a) {as : List α}
    (read : readItems item s = .ok (as, rest)) : ∀ a ∈ as, Q a := by
  obtain ⟨⟨done, s⟩, folded, finished⟩ := bind_eq_ok_iff.mp read
  obtain ⟨rest, -, same⟩ := bind_eq_ok_iff.mp finished
  cases same
  have kept : ∀ a ∈ done, Q a := by
    apply foldItemsFrom_invariant (P := fun done => ∀ a ∈ done, Q a) ?_ ?_ folded
    · intro done s next rest before stepped
      obtain ⟨⟨a, s⟩, read, same⟩ := map_eq_ok_iff.mp stepped
      cases same
      exact List.forall_mem_cons.mpr ⟨each _ _ _ read, before⟩
    · exact List.forall_mem_nil _
  exact fun a member => kept a (List.mem_reverse.mp member)

theorem forall_of_readMembers (each : ∀ s a rest, item s = .ok (a, rest) → Q a)
    {members : List (String × α)} (read : readMembers item s = .ok (members, rest)) :
    ∀ m ∈ members, Q m.2 := by
  obtain ⟨⟨done, s⟩, folded, finished⟩ := bind_eq_ok_iff.mp read
  obtain ⟨rest, -, same⟩ := bind_eq_ok_iff.mp finished
  cases same
  have kept : ∀ m ∈ done, Q m.2 := by
    apply foldMembersFrom_invariant (P := fun done => ∀ m ∈ done, Q m.2) ?_ ?_ folded
    · intro done key s next rest before stepped
      obtain ⟨s, -, stepped⟩ := bind_eq_ok_iff.mp stepped
      obtain ⟨⟨a, s⟩, read, same⟩ := bind_eq_ok_iff.mp stepped
      cases same
      exact List.forall_mem_cons.mpr ⟨each _ _ _ read, before⟩
    · exact List.forall_mem_nil _
  exact fun m member => kept m (List.mem_reverse.mp member)

end

/-- Every number in a value that was read is finite. -/
theorem finite_of_readTree {d : Nat} {s rest : List Char} {v : Value}
    (read : readTree d s = .ok (v, rest)) : v.Finite := by
  induction d generalizing s rest v with
  | zero =>
    rw [readTree] at read
    split at read
    · cases read
    · cases read; trivial
    · cases read; trivial
    · next head =>
      cases read
      exact finite_of_readHead head
    · cases read; trivial
    · cases read
    · cases read
  | succ d ih =>
    rw [readTree] at read
    split at read
    · cases read
    · cases read; trivial
    · cases read; trivial
    · next head =>
      cases read
      exact finite_of_readHead head
    · cases read; trivial
    · obtain ⟨⟨items, s⟩, read, same⟩ := map_eq_ok_iff.mp read
      cases same
      exact Value.finiteItems_iff.mpr (forall_of_readItems (fun _ _ _ read => ih read) read)
    · obtain ⟨⟨members, s⟩, read, same⟩ := map_eq_ok_iff.mp read
      cases same
      exact Value.finiteMembers_iff.mpr (forall_of_readMembers (fun _ _ _ read => ih read) read)

namespace Record

variable {δ α : Type} {r : Record δ α} {P : δ → Prop} {a : α}

theorem readMember_invariant {d : Nat} {draft next : δ} {key : String} {s rest : List Char}
    (kept : ∀ field ∈ r.fields, ∀ s put rest, field.shape.ofText d s = .ok (put, rest) →
      ∀ draft, P draft → P (put draft))
    (start : P draft) (read : r.readMember d draft key s = .ok (next, rest)) : P next := by
  unfold readMember at read
  split at read
  · next field found =>
    split at read
    · cases read
    · obtain ⟨s, -, read⟩ := bind_eq_ok_iff.mp read
      obtain ⟨⟨put, s⟩, filled, same⟩ := bind_eq_ok_iff.mp read
      cases same
      exact kept field (List.mem_of_find?_eq_some found) _ _ _ filled _ start
  · obtain ⟨s, -, read⟩ := bind_eq_ok_iff.mp read
    obtain ⟨rest, -, same⟩ := bind_eq_ok_iff.mp read
    cases same
    exact start

theorem readFields_invariant {d present : Nat} {fields : List (Field δ)} {draft last : δ}
    {s rest : List Char} (kept : ∀ field ∈ fields, ∀ s put rest,
      field.shape.ofText d s = .ok (put, rest) → ∀ draft, P draft → P (put draft))
    (start : P draft) (read : r.readFields d fields present draft s = .ok (last, rest)) :
    P last := by
  induction fields generalizing present draft s with
  | nil =>
    cases read
    exact start
  | cons field fields ih =>
    have later := fun f member => kept f (List.mem_cons_of_mem field member)
    obtain ⟨⟨there, s⟩, -, read⟩ := bind_eq_ok_iff.mp read
    cases there with
    | true =>
      obtain ⟨⟨put, s⟩, filled, read⟩ := bind_eq_ok_iff.mp read
      exact ih later (kept field List.mem_cons_self _ _ _ filled _ start) read
    | false =>
      dsimp only at read
      split at read
      · exact ih later start read
      · cases read

theorem finish_of_readObject {d : Nat} {s rest : List Char}
    (kept : ∀ field ∈ r.fields, ∀ s put rest, field.shape.ofText d s = .ok (put, rest) →
      ∀ draft, P draft → P (put draft))
    (start : P r.empty) (read : r.readObject d s = .ok (a, rest)) :
    ∃ draft, P draft ∧ r.finish draft = .ok a := by
  obtain ⟨⟨draft, s⟩, folded, read⟩ := bind_eq_ok_iff.mp read
  have holds : P draft :=
    foldMembersFrom_invariant (fun _ _ _ _ _ => readMember_invariant kept) start folded
  dsimp only at read
  split at read
  · next finished =>
    obtain ⟨rest, -, same⟩ := bind_eq_ok_iff.mp read
    cases same
    exact ⟨draft, holds, finished⟩
  · cases read

theorem finish_of_readList {d : Nat} {s rest : List Char}
    (kept : ∀ field ∈ r.fields, ∀ s put rest, field.shape.ofText d s = .ok (put, rest) →
      ∀ draft, P draft → P (put draft))
    (start : P r.empty) (read : r.readList d s = .ok (a, rest)) :
    ∃ draft, P draft ∧ r.finish draft = .ok a := by
  obtain ⟨⟨draft, s⟩, filled, read⟩ := bind_eq_ok_iff.mp read
  have holds : P draft := readFields_invariant kept start filled
  dsimp only at read
  split at read
  · next finished =>
    obtain ⟨rest, -, same⟩ := bind_eq_ok_iff.mp read
    cases same
    exact ⟨draft, holds, finished⟩
  · cases read

/-- What every field keeps holds of the draft from which a record is finished. -/
theorem finish_of_ofText {d : Nat} {s rest : List Char}
    (kept : ∀ field ∈ r.fields, ∀ d s put rest, field.shape.ofText d s = .ok (put, rest) →
      ∀ draft, P draft → P (put draft))
    (start : P r.empty) (read : r.shape.ofText d s = .ok (a, rest)) :
    ∃ draft, P draft ∧ r.finish draft = .ok a := by
  obtain ⟨⟨head, s⟩, -, read⟩ := bind_eq_ok_iff.mp read
  split at read
  · cases read
  · cases read
  · exact finish_of_readObject (fun field member => kept field member _) start read
  · split at read
    · exact finish_of_readList (fun field member => kept field member _) start read
    · cases read
  · cases read

theorem takeFields_invariant {total present : Nat} {fields : List (Field δ)} {draft last : δ}
    {items : List Value}
    (kept : ∀ field ∈ fields, ∀ v put, v.Finite → field.shape.ofValue v = .ok put →
      ∀ draft, P draft → P (put draft))
    (start : P draft) (finite : ∀ v ∈ items, v.Finite)
    (found : r.takeFields total fields present draft items = .ok last) : P last := by
  induction fields generalizing present draft items with
  | nil =>
    cases items with
    | nil =>
      cases found
      exact start
    | cons v items => cases found
  | cons field fields ih =>
    have later := fun f member => kept f (List.mem_cons_of_mem field member)
    cases items with
    | nil =>
      rw [takeFields] at found
      split at found
      · exact ih later start finite found
      · cases found
    | cons v items =>
      obtain ⟨here, others⟩ := List.forall_mem_cons.mp finite
      obtain ⟨put, filled, found⟩ := bind_eq_ok_iff.mp found
      exact ih later (kept field List.mem_cons_self v put here filled _ start) others found

theorem takeMembers_invariant {members : List (String × Value)} {draft last : δ}
    (kept : ∀ field ∈ r.fields, ∀ v put, v.Finite → field.shape.ofValue v = .ok put →
      ∀ draft, P draft → P (put draft))
    (start : P draft) (finite : ∀ m ∈ members, m.2.Finite)
    (found : members.foldlM r.takeMember draft = .ok last) : P last := by
  induction members generalizing draft with
  | nil =>
    cases found
    exact start
  | cons m members ih =>
    obtain ⟨here, others⟩ := List.forall_mem_cons.mp finite
    rw [List.foldlM_cons] at found
    obtain ⟨next, taken, found⟩ := bind_eq_ok_iff.mp found
    refine ih ?_ others found
    unfold takeMember at taken
    split at taken
    · next field known =>
      split at taken
      · cases taken
      · obtain ⟨put, filled, same⟩ := map_eq_ok_iff.mp taken
        exact same ▸ kept field (List.mem_of_find?_eq_some known) m.2 put here filled _ start
    · cases taken
      exact start

/-- What every field keeps holds of the draft from which a record is finished that is found in a
value. -/
theorem finish_of_ofValue {v : Value} (finite : v.Finite)
    (kept : ∀ field ∈ r.fields, ∀ v put, v.Finite → field.shape.ofValue v = .ok put →
      ∀ draft, P draft → P (put draft))
    (start : P r.empty) (found : r.shape.ofValue v = .ok a) :
    ∃ draft, P draft ∧ r.finish draft = .ok a := by
  simp only [shape] at found
  split at found
  · obtain ⟨draft, taken, finished⟩ := bind_eq_ok_iff.mp found
    exact ⟨draft, takeMembers_invariant kept start (Value.finiteMembers_iff.mp finite) taken,
      finished⟩
  · split at found
    · obtain ⟨draft, taken, finished⟩ := bind_eq_ok_iff.mp found
      exact ⟨draft, takeFields_invariant kept start (Value.finiteItems_iff.mp finite) taken,
        finished⟩
    · cases found
  · cases found

end Record

end LiveRelay.Json
