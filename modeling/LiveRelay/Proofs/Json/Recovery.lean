import Mathlib.Data.List.Forall2
import LiveRelay.Proofs.Decimal.Exact
import LiveRelay.Proofs.Json.Shape

/-! # Values that are read back

A value that does not nest too deep comes back from its text with every double reread, and nothing
else is lost, so it comes back as it was if every double in it does. A shape recovers a value if it
reads the written one as that value as long as enough brackets may be opened; lists and records
recover what is in them.
-/

namespace LiveRelay

/-- A finite double that is read back from its own text as it was. -/
structure Binary64.Survives (x : Binary64) : Prop where
  finite : x.isFinite = true
  read : Json.Shape.real.read (Json.realText x) = .ok x

/-- A double is read back from its own text as it is reread. -/
theorem Json.read_realText {x : Binary64} (finite : x.isFinite = true) :
    Shape.real.read (realText x) = .ok x.reread := by
  have read : Reads (Shape.real.ofText deepest) (realText x).toList x.reread :=
    Shape.reads_ofHead (reads_real finite) rfl
  have whole := read [] delimited_nil
  rw [List.append_nil] at whole
  rw [Shape.read, whole]
  rfl

namespace Binary64

variable {x : Binary64}

theorem survives_iff : x.Survives ↔ x.isFinite = true ∧ x.reread = x := by
  constructor
  · rintro ⟨finite, read⟩
    exact ⟨finite, Except.ok.inj ((Json.read_realText finite).symm.trans read)⟩
  · rintro ⟨finite, same⟩
    exact ⟨finite, (Json.read_realText finite).trans (by rw [same])⟩

theorem Survives.reread_eq (survives : x.Survives) : x.reread = x := (survives_iff.mp survives).2

/-- A double that is written briefly survives. -/
theorem survives_of_brief (finite : x.isFinite = true) (brief : (x.literal Json.realLayout).Brief) :
    x.Survives := by
  have value := value_reread finite
  rw [value_of_brief finite brief] at value
  exact survives_iff.mpr ⟨finite, (Number.real.inj (Except.ok.inj value)).symm⟩

end Binary64

namespace Json

namespace Value

/-- A value in which the keys of every object ascend and differ, as a room stores it. -/
inductive Ordered : Value → Prop
  | null : Ordered .null
  | boolean (b : Bool) : Ordered (.boolean b)
  | number (n : Number) : Ordered (.number n)
  | string (s : String) : Ordered (.string s)
  | list {items : List Value} (each : ∀ v ∈ items, Ordered v) : Ordered (.list items)
  | object {members : List (String × Value)}
      (ascending : members.Pairwise fun m n => m.1 < n.1) (each : ∀ m ∈ members, Ordered m.2) :
      Ordered (.object members)

/-- The keys of an object differ, whatever its members are. Any other value has no keys. -/
def DistinctKeys : Value → Prop
  | .object members => (members.map (·.1)).Nodup
  | _ => True

theorem Ordered.distinctKeys {v : Value} (ordered : v.Ordered) : v.DistinctKeys := by
  cases ordered with
  | object ascending each =>
    refine List.pairwise_map.mpr (ascending.imp ?_)
    intro m n less same
    exact String.lt_irrefl n.1 (same ▸ less)
  | _ => trivial

/-- A value in which every double is read back from its text as it was. -/
inductive Survives : Value → Prop
  | null : Survives .null
  | boolean (b : Bool) : Survives (.boolean b)
  | unsigned (n : UInt64) : Survives (.number (.unsigned n))
  | negative (i : Int64) (below : i < 0) : Survives (.number (.negative i below))
  | real {x : Binary64} (survives : x.Survives) : Survives (.number (.real x))
  | string (s : String) : Survives (.string s)
  | list {items : List Value} (each : ∀ v ∈ items, Survives v) : Survives (.list items)
  | object {members : List (String × Value)} (each : ∀ m ∈ members, Survives m.2) :
      Survives (.object members)

/-- A member whose key comes last is put at the end. -/
theorem putMember_last {key : String} {v : Value} {members : List (String × Value)}
    (last : ∀ m ∈ members, m.1 < key) : putMember key v members = members ++ [(key, v)] := by
  induction members with
  | nil => rfl
  | cons m rest ih =>
    have above : m.1 < key := last m List.mem_cons_self
    have different : key ≠ m.1 := by
      intro same
      exact String.lt_irrefl key (same ▸ above)
    rw [putMember, if_neg (String.lt_asymm above), if_neg different,
      ih fun n member => last n (List.mem_cons_of_mem m member), List.cons_append]

theorem canonicalItems_eq (items done : List Value) :
    canonicalItems done items = done.reverse ++ items.map canonical := by
  induction items generalizing done with
  | nil => rw [canonicalItems, List.map_nil, List.append_nil]
  | cons v rest ih =>
    rw [canonicalItems, ih, List.reverse_cons, List.append_assoc, List.singleton_append,
      List.map_cons]

theorem canonicalMembers_eq {members : List (String × Value)}
    (same : ∀ m ∈ members, m.2.canonical = m.2) (done : List (String × Value))
    (ascending : (done ++ members).Pairwise fun m n => m.1 < n.1) :
    canonicalMembers done members = done ++ members := by
  induction members generalizing done with
  | nil => rw [canonicalMembers, List.append_nil]
  | cons m rest ih =>
    have here : m.2.canonical = m.2 := same m List.mem_cons_self
    have last : ∀ n ∈ done, n.1 < m.1 := fun n member =>
      (List.pairwise_append.mp ascending).2.2 n member m List.mem_cons_self
    have split : done ++ m :: rest = (done ++ [m]) ++ rest := by
      rw [List.append_assoc, List.singleton_append]
    rw [split] at ascending ⊢
    rw [canonicalMembers, here, putMember_last last]
    exact ih (fun n member => same n (List.mem_cons_of_mem m member)) (done ++ [m]) ascending

/-- A value whose members are in order is canonical already. -/
theorem canonical_of_ordered {v : Value} (ordered : v.Ordered) : v.canonical = v := by
  induction ordered with
  | null => rfl
  | boolean b => rfl
  | number n => rfl
  | string s => rfl
  | list each ih =>
    rw [canonical, canonicalItems_eq, List.reverse_nil, List.nil_append,
      List.map_congr_left (g := id) ih, List.map_id]
  | object ascending each ih =>
    rw [canonical, canonicalMembers_eq ih [] ascending, List.nil_append]

/-- A value in which every double survives is read back as it was. -/
theorem reread_of_survives {v : Value} (survives : v.Survives) : v.reread = v := by
  induction survives with
  | null => rfl
  | boolean b => rfl
  | unsigned n => rfl
  | negative i below => rfl
  | real survives => rw [reread, rereadNumber, if_pos survives.finite, survives.reread_eq]
  | string s => rfl
  | @list items each ih =>
    rw [reread, rereadItems_eq, List.map_congr_left (g := id) ih, List.map_id]
  | @object members each ih =>
    have same : ∀ m ∈ members, (m.1, m.2.reread) = m :=
      fun m member => Prod.ext rfl (ih m member)
    rw [reread, rereadMembers_eq, List.map_congr_left (g := id) same, List.map_id]

theorem ordered_nested (n : Nat) : (nested n).Ordered := by
  induction n with
  | zero => exact .null
  | succ n ih => exact .list (by simpa using ih)

theorem survives_nested (n : Nat) : (nested n).Survives := by
  induction n with
  | zero => exact .null
  | succ n ih => exact .list (by simpa using ih)

end Value

section

variable {α : Type} {item : List Char → Reading (α × List Char)}

theorem folds_keepItem {items : List Value} {as : List α}
    (each : List.Forall₂ (fun v a => Reads item v.chars a) items as) (done : List α) :
    Folds (fun done _ => keepItem item done) Value.chars done items (as.reverse ++ done) := by
  induction each generalizing done with
  | nil => exact .nil
  | @cons v a items as here _ ih =>
    rw [List.reverse_cons, List.append_assoc, List.singleton_append]
    exact .cons (here.map (· :: done)) (ih (a :: done))

/-- A list is read as the list of what its items are read as. -/
theorem reads_items {items : List Value} {as : List α}
    (each : List.Forall₂ (fun v a => Reads item v.chars a) items as) :
    Reads (readItems item) (Value.itemChars true items ++ [']']) as := by
  simpa using reads_readItems (folds_keepItem each [])

end

section

variable {item : List Char → Reading (Value × List Char)}

theorem folds_keepMember {members : List (String × Value)} {f : Value → Value}
    (each : ∀ m ∈ members, Reads item m.2.chars (f m.2)) (done : List (String × Value)) :
    Folds (memberStep (keepMember item)) memberText done members
      ((members.map fun m => (m.1, f m.2)).reverse ++ done) := by
  induction members generalizing done with
  | nil => exact .nil
  | cons m rest ih =>
    rw [List.map_cons, List.reverse_cons, List.append_assoc, List.singleton_append]
    have later := ih (fun n member => each n (List.mem_cons_of_mem m member)) ((m.1, f m.2) :: done)
    exact .cons (reads_keepMember (each m List.mem_cons_self) done) later

/-- An object is read as the object of what the values of its members are read as. -/
theorem reads_members {members : List (String × Value)} {f : Value → Value}
    (each : ∀ m ∈ members, Reads item m.2.chars (f m.2)) :
    Reads (readMembers item) (Value.memberChars true members ++ ['}'])
      (members.map fun m => (m.1, f m.2)) := by
  simpa using reads_readMembers (folds_keepMember each [])

end

/-- A value that does not nest too deep is read with every double in it reread. -/
theorem reads_readTree {d : Nat} (v : Value) (few : v.depth ≤ d) :
    Reads (readTree d) v.chars v.reread := by
  induction d generalizing v with
  | zero =>
    cases v with
    | list items => cases few
    | object members => cases few
    | null | boolean b | number n | string s => exact reads_leaf (by simp [Value.head]) 0
  | succ d ih =>
    cases v with
    | list items =>
      have shallow := Value.itemsDepth_le_iff.mp (Nat.le_of_succ_le_succ few)
      have each : List.Forall₂ (fun v w => Reads (readTree d) v.chars w) items
          (items.map Value.reread) := by
        refine List.forall₂_map_right_iff.mpr (List.forall₂_same.mpr ?_)
        exact fun v member => ih v (shallow v member)
      rw [Value.reread, Value.rereadItems_eq]
      exact ((reads_items each).map Value.list).opened (readTree_list d)
    | object members =>
      have shallow := Value.membersDepth_le_iff.mp (Nat.le_of_succ_le_succ few)
      have each : ∀ m ∈ members, Reads (readTree d) m.2.chars m.2.reread :=
        fun m member => ih m.2 (shallow m member)
      rw [Value.reread, Value.rereadMembers_eq]
      exact ((reads_members each).map Value.object).opened (readTree_object d)
    | null | boolean b | number n | string s => exact reads_leaf (by simp [Value.head]) (d + 1)

namespace Shape

variable {α : Type}

/-- A shape reads a written value as a value of its own, if it may open as many brackets as the
written one nests. -/
def Recovers (shape : Shape α) (v : Value) (a : α) : Prop :=
  ∀ d, v.depth ≤ d → Reads (shape.ofText d) v.chars a

/-- A value that is recovered is read from the whole text of what was written. -/
theorem read_of_recovers {shape : Shape α} {v : Value} {a : α} (recovers : shape.Recovers v a)
    (few : v.depth ≤ deepest) : shape.read v.text = .ok a := by
  have whole := recovers deepest few [] delimited_nil
  rw [List.append_nil] at whole
  rw [Shape.read, Value.toList_text, whole]
  rfl

theorem recovers_string (s : String) : string.Recovers (.string s) s :=
  fun _ _ => reads_string s

theorem recovers_word (n : UInt64) : word.Recovers (.number (.unsigned n)) n :=
  fun _ _ => reads_ofHead (reads_word n) rfl

theorem recovers_real {x : Binary64} (finite : x.isFinite = true) :
    real.Recovers (.number (.real x)) x.reread :=
  fun _ _ => reads_ofHead (reads_real finite) rfl

theorem recovers_value (v : Value) : value.Recovers v v.reread.canonical :=
  fun _ few => (reads_readTree v few).map Value.canonical

/-- What may be left out is read as none if it is read back as `null`. -/
theorem recovers_nullable (v : Value) :
    nullable.Recovers v (nullable.ofValue v.reread).toOption.join :=
  fun _ few => reads_nullable (reads_readTree v few)

/-- What may be left out comes back as it was, unless it is a `null` that was not left out. -/
theorem present_of_stored {e : Option Value}
    (stored : ∀ v ∈ e, v ≠ .null ∧ v.Ordered ∧ v.Survives) :
    (nullable.ofValue (e.getD .null).reread).toOption.join = e := by
  cases e with
  | none => rfl
  | some v =>
    obtain ⟨present, ordered, survives⟩ := stored v rfl
    rw [Option.getD_some, Value.reread_of_survives survives]
    cases v with
    | null => exact absurd rfl present
    | _ => simp [nullable, Value.canonical_of_ordered ordered, Except.toOption]

theorem recovers_stored {e : Option Value}
    (stored : ∀ v ∈ e, v ≠ .null ∧ v.Ordered ∧ v.Survives) :
    nullable.Recovers (e.getD .null) e := by
  have read := recovers_nullable (e.getD .null)
  rwa [present_of_stored stored] at read

theorem recovers_list {item : Shape α} {items : List Value} {as : List α}
    (each : List.Forall₂ item.Recovers items as) : (list item).Recovers (.list items) as := by
  intro d few
  obtain ⟨d, rfl⟩ : ∃ e, d = e + 1 := Nat.exists_eq_add_one.mpr (Nat.zero_lt_of_lt few)
  have shallow := Value.itemsDepth_le_iff.mp (Nat.le_of_succ_le_succ few)
  have reads : List.Forall₂ (fun v a => Reads (item.ofText d) v.chars a) items as := by
    apply List.Forall₂.imp _ ((List.forall₂_and_left _ _).mpr ⟨shallow, each⟩)
    intro v a both
    exact both.2 d both.1
  exact (reads_items reads).opened fun s =>
    (rfl : (list item).ofText (d + 1) ('[' :: s) = readItems (item.ofText d) s)

end Shape

namespace Record

variable {δ α β : Type} {r : Record δ α} {draft : δ} {members : List (String × Value)} {a : α}

/-- Written members fill a draft that is finished as a value then. -/
def Fills (r : Record δ α) (draft : δ) (members : List (String × Value)) (a : α) : Prop :=
  ∀ d, Value.membersDepth members ≤ d → ∃ last,
    Folds (memberStep (r.readMember d)) memberText draft members last ∧ r.finish last = .ok a

theorem fills_nil (finished : r.finish draft = .ok a) : r.Fills draft [] a :=
  fun _ _ => ⟨draft, .nil, finished⟩

/-- A member that its field recovers fills the field. -/
theorem fills_cons {key name : String} {given : δ → Bool} {omissible : Bool} {shape : Shape β}
    {put : β → δ → δ} {v : Value} {b : β}
    (found : r.field? key = some ⟨name, given, omissible, shape.map put⟩)
    (missing : given draft = false) (recovers : shape.Recovers v b)
    (later : r.Fills (put b draft) members a) : r.Fills draft ((key, v) :: members) a := by
  intro d few
  obtain ⟨here, rest⟩ := max_le_iff.mp few
  obtain ⟨last, folds, finished⟩ := later d rest
  exact ⟨last, .cons (reads_member found missing (recovers d here)) folds, finished⟩

/-- A record recovers an object whose members fill its empty draft. -/
theorem recovers_object (fills : r.Fills r.empty members a) :
    r.shape.Recovers (.object members) a := by
  intro d few
  obtain ⟨d, rfl⟩ : ∃ e, d = e + 1 := Nat.exists_eq_add_one.mpr (Nat.zero_lt_of_lt few)
  obtain ⟨last, folds, finished⟩ := fills d (Nat.le_of_succ_le_succ few)
  exact reads_object folds finished

end Record

end Json

end LiveRelay
