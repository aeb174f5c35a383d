import LiveRelay.Json.Tree
import LiveRelay.Proofs.Json.Reads

/-! # Reading lists, objects and whole values back

What a fold makes of a written list or object is settled step by step: it goes through if every step
reads what is written, and it fails with the first step that does not. A value is read back exactly
if it does not open more brackets inside each other than it may.
-/

namespace LiveRelay.Json

section

variable {α β : Type} {reader : List Char → Reading (α × List Char)} {text : List Char}

theorem Reads.map {a : α} (reads : Reads reader text a) (f : α → β) :
    Reads (fun s => (reader s).map fun (a, s) => (f a, s)) text (f a) := by
  intro rest delimited
  simp only [reads rest delimited, Except.map]

theorem Rejects.map (rejects : Rejects reader text) (f : α → β) :
    Rejects (fun s => (reader s).map fun (a, s) => (f a, s)) text := by
  intro rest delimited
  obtain ⟨failure, failed⟩ := rejects rest delimited
  exact ⟨failure, by simp only [failed, Except.map]⟩

theorem Decides.map {p : Prop} (decides : Decides reader text p) (f : α → β) :
    Decides (fun s => (reader s).map fun (a, s) => (f a, s)) text p where
  reads holds := by
    obtain ⟨a, reads⟩ := decides.reads holds
    exact ⟨f a, reads.map f⟩
  rejects fails := (decides.rejects fails).map f

end

section

variable {α : Type} {inner outer : List Char → Reading (α × List Char)} {text : List Char}
  {c : Char}

theorem Reads.opened {a : α} (reads : Reads inner text a) (same : ∀ s, outer (c :: s) = inner s) :
    Reads outer (c :: text) a := by
  intro rest delimited
  rw [List.cons_append, same, reads rest delimited]

theorem Decides.opened {p : Prop} (decides : Decides inner text p)
    (same : ∀ s, outer (c :: s) = inner s) : Decides outer (c :: text) p where
  reads holds := by
    obtain ⟨a, reads⟩ := decides.reads holds
    exact ⟨a, reads.opened same⟩
  rejects fails := by
    intro rest delimited
    rw [List.cons_append, same]
    exact decides.rejects fails rest delimited

end

theorem readColon_cons (s : List Char) : readColon (':' :: s) = .ok s := rfl

theorem closeObject_cons (s : List Char) : closeObject ('}' :: s) = .ok s := rfl

section

variable {σ ι : Type} (step : σ → ι → List Char → Reading (σ × List Char)) (text : ι → List Char)

/-- Step by step, a fold over written elements leads from one state to another. -/
inductive Folds : σ → List ι → σ → Prop
  | nil {state : σ} : Folds state [] state
  | cons {state next last : σ} {i : ι} {rest : List ι} (reads : Reads (step state i) (text i) next)
      (later : Folds next rest last) : Folds state (i :: rest) last

/-- A fold over written elements goes through some steps and fails in the next. -/
inductive Stops : σ → List ι → Prop
  | here {state : σ} {i : ι} {rest : List ι} (rejects : Rejects (step state i) (text i)) :
      Stops state (i :: rest)
  | later {state next : σ} {i : ι} {rest : List ι} (reads : Reads (step state i) (text i) next)
      (later : Stops next rest) : Stops state (i :: rest)

end

section

variable {σ ι : Type} {step : σ → ι → List Char → Reading (σ × List Char)} {text : ι → List Char}
  {l : List ι} {p : ι → Prop}

theorem folds_of_decides (each : ∀ i ∈ l, ∀ state, Decides (step state i) (text i) (p i))
    (holds : ∀ i ∈ l, p i) (state : σ) : ∃ last, Folds step text state l last := by
  induction l generalizing state with
  | nil => exact ⟨state, .nil⟩
  | cons i l ih =>
    obtain ⟨next, reads⟩ := (each i List.mem_cons_self state).reads (holds i List.mem_cons_self)
    obtain ⟨last, later⟩ := ih (fun j member => each j (List.mem_cons_of_mem _ member))
      (fun j member => holds j (List.mem_cons_of_mem _ member)) next
    exact ⟨last, .cons reads later⟩

theorem stops_of_decides (each : ∀ i ∈ l, ∀ state, Decides (step state i) (text i) (p i))
    (fails : ¬ ∀ i ∈ l, p i) (state : σ) : Stops step text state l := by
  induction l generalizing state with
  | nil => exact absurd nofun fails
  | cons i l ih =>
    have here := each i List.mem_cons_self state
    by_cases holds : p i
    · obtain ⟨next, reads⟩ := here.reads holds
      refine .later reads (ih (fun j member => each j (List.mem_cons_of_mem _ member)) ?_ next)
      exact fun all => fails (List.forall_mem_cons.mpr ⟨holds, all⟩)
    · exact .here (here.rejects holds)

end

section Items

variable {σ : Type} {step : σ → List Char → Reading (σ × List Char)}

theorem toItem_close (first : Bool) (s : List Char) :
    toItem first (']' :: s) = .ok (false, ']' :: s) := rfl

theorem toItem_chars (first : Bool) (v : Value) (s : List Char) :
    toItem first ((if first then [] else [',']) ++ (v.chars ++ s)) = .ok (true, v.chars ++ s) := by
  obtain ⟨c, more, begins, solid, other⟩ := v.chars_begin
  rw [begins, List.cons_append]
  cases first with
  | true => simp [toItem, skipBlanks_cons solid]
  | false =>
    simp [toItem, skipBlanks_cons (rfl : isBlank ',' = false), skipBlanks_cons solid, other]

theorem delimited_items (items : List Value) (rest : List Char) :
    Delimited (Value.itemChars false items ++ ']' :: rest) := by
  cases items with
  | nil => exact delimited_cons (by simp) rest
  | cons v items => exact delimited_cons (by simp) _

/-- A round of a fold over items in which one of them is found takes it. -/
theorem foldItemsFrom_round {first : Bool} {s t : List Char}
    (there : toItem first s = .ok (true, t)) (m : Char) (measure : List Char) (state : σ) :
    foldItemsFrom step (m :: measure) first state s =
      step state t >>= fun (state, s) => foldItemsFrom step measure false state s := by
  rw [foldItemsFrom, there]
  dsimp only
  cases step state t <;> rfl

/-- A round of a fold over the items of a written list takes the first of them. -/
theorem foldItemsFrom_cons (m : Char) (measure : List Char) (first : Bool) (state : σ) (v : Value)
    (items : List Value) (rest : List Char) :
    foldItemsFrom step (m :: measure) first state (Value.itemChars first (v :: items) ++ rest) =
      step state (v.chars ++ (Value.itemChars false items ++ rest)) >>=
        fun (state, s) => foldItemsFrom step measure false state s := by
  rw [Value.itemChars, List.append_assoc, List.append_assoc,
    foldItemsFrom_round (toItem_chars first v _)]

/-- A fold over the items of a written list ends in the state to which its steps lead. -/
theorem foldItemsFrom_of_folds {state last : σ} {items : List Value}
    (folds : Folds (fun state _ => step state) Value.chars state items last) {measure : List Char}
    (long : items.length < measure.length) (first : Bool) (rest : List Char) :
    foldItemsFrom step measure first state (Value.itemChars first items ++ ']' :: rest) =
      .ok (last, ']' :: rest) := by
  induction folds generalizing measure first with
  | nil =>
    obtain ⟨m, measure, rfl⟩ := List.exists_cons_of_length_pos long
    rw [Value.itemChars, List.nil_append, foldItemsFrom, toItem_close]
  | @cons state next last v items reads later ih =>
    obtain ⟨m, measure, rfl⟩ := List.exists_cons_of_length_pos (Nat.zero_lt_of_lt long)
    rw [foldItemsFrom_cons, reads _ (delimited_items items rest)]
    exact ih (Nat.lt_of_succ_lt_succ long) false

/-- A fold over the items of a written list fails if one of its steps does. -/
theorem foldItemsFrom_of_stops {state : σ} {items : List Value}
    (stops : Stops (fun state _ => step state) Value.chars state items) {measure : List Char}
    (long : items.length < measure.length) (first : Bool) (rest : List Char) :
    ∃ f, foldItemsFrom step measure first state (Value.itemChars first items ++ ']' :: rest) =
      .error f := by
  induction stops generalizing measure first with
  | @here state v items rejects =>
    obtain ⟨m, measure, rfl⟩ := List.exists_cons_of_length_pos (Nat.zero_lt_of_lt long)
    obtain ⟨f, failed⟩ := rejects _ (delimited_items items rest)
    exact ⟨f, by rw [foldItemsFrom_cons, failed]; rfl⟩
  | @later state next v items reads later ih =>
    obtain ⟨m, measure, rfl⟩ := List.exists_cons_of_length_pos (Nat.zero_lt_of_lt long)
    rw [foldItemsFrom_cons, reads _ (delimited_items items rest)]
    exact ih (Nat.lt_of_succ_lt_succ long) false

theorem length_items (first : Bool) (items : List Value) (rest : List Char) :
    items.length < (Value.itemChars first items ++ ']' :: rest).length := by
  induction items generalizing first with
  | nil => simp
  | cons v items ih =>
    obtain ⟨c, more, begins, -⟩ := v.chars_begin
    have later := ih false
    rw [Value.itemChars, begins]
    simp only [List.length_append, List.length_cons] at later ⊢
    omega

theorem foldItems_of_folds {state last : σ} {items : List Value}
    (folds : Folds (fun state _ => step state) Value.chars state items last) (rest : List Char) :
    foldItems step state (Value.itemChars true items ++ ']' :: rest) = .ok (last, ']' :: rest) :=
  foldItemsFrom_of_folds folds (length_items true items rest) true rest

theorem foldItems_of_stops {state : σ} {items : List Value}
    (stops : Stops (fun state _ => step state) Value.chars state items) (rest : List Char) :
    ∃ f, foldItems step state (Value.itemChars true items ++ ']' :: rest) = .error f :=
  foldItemsFrom_of_stops stops (length_items true items rest) true rest

end Items

section Members

variable {σ : Type} {step : σ → String → List Char → Reading (σ × List Char)}

/-- A step of a fold over members. -/
def memberStep (step : σ → String → List Char → Reading (σ × List Char)) (state : σ)
    (member : String × Value) : List Char → Reading (σ × List Char) :=
  step state member.1

/-- A member as it is written, from its colon on. -/
def memberText (member : String × Value) : List Char := ':' :: member.2.chars

theorem toKey_close (first : Bool) (s : List Char) :
    toKey first ('}' :: s) = .ok (false, '}' :: s) := rfl

theorem toKey_quoted (first : Bool) (key : String) (s : List Char) :
    toKey first ((if first then [] else [',']) ++ (quoted key ++ s)) =
      .ok (true, key.toList.flatMap escapeChar ++ '"' :: s) := by
  cases first <;>
    simp [toKey, quoted, skipBlanks_cons (rfl : isBlank '"' = false),
      skipBlanks_cons (rfl : isBlank ',' = false)]

theorem delimited_members (members : List (String × Value)) (rest : List Char) :
    Delimited (Value.memberChars false members ++ '}' :: rest) := by
  cases members with
  | nil => exact delimited_cons (by simp) rest
  | cons m members => exact delimited_cons (by simp) _

theorem memberChars_cons (first : Bool) (m : String × Value) (members : List (String × Value))
    (rest : List Char) : Value.memberChars first (m :: members) ++ rest =
      (if first then [] else [',']) ++
        (quoted m.1 ++ (memberText m ++ (Value.memberChars false members ++ rest))) := by
  simp [Value.memberChars, memberText]

/-- A round of a fold over members in which a key is found reads it and takes the member. -/
theorem foldMembersFrom_round {first : Bool} {s t : List Char}
    (there : toKey first s = .ok (true, t)) (m : Char) (measure : List Char) (state : σ) :
    foldMembersFrom step (m :: measure) first state s =
      readString .kept t >>= fun (key, s) =>
        step state key s >>= fun (state, s) => foldMembersFrom step measure false state s := by
  rw [foldMembersFrom, there]
  dsimp only
  cases readString .kept t with
  | error f => rfl
  | ok read =>
    obtain ⟨key, s⟩ := read
    simp only [bind, Except.bind]
    cases step state key s <;> rfl

/-- A round of a fold over the members of a written object takes the first of them. -/
theorem foldMembersFrom_cons (c : Char) (measure : List Char) (first : Bool) (state : σ)
    (m : String × Value) (members : List (String × Value)) (rest : List Char) :
    foldMembersFrom step (c :: measure) first state
        (Value.memberChars first (m :: members) ++ rest) =
      memberStep step state m (memberText m ++ (Value.memberChars false members ++ rest)) >>=
        fun (state, s) => foldMembersFrom step measure false state s := by
  rw [memberChars_cons, foldMembersFrom_round (toKey_quoted first m.1 _), readString_quoted]
  rfl

/-- A fold over the members of a written object ends in the state to which its steps lead. -/
theorem foldMembersFrom_of_folds {state last : σ} {members : List (String × Value)}
    (folds : Folds (memberStep step) memberText state members last) {measure : List Char}
    (long : members.length < measure.length) (first : Bool) (rest : List Char) :
    foldMembersFrom step measure first state (Value.memberChars first members ++ '}' :: rest) =
      .ok (last, '}' :: rest) := by
  induction folds generalizing measure first with
  | nil =>
    obtain ⟨m, measure, rfl⟩ := List.exists_cons_of_length_pos long
    rw [Value.memberChars, List.nil_append, foldMembersFrom, toKey_close]
  | @cons state next last m members reads later ih =>
    obtain ⟨c, measure, rfl⟩ := List.exists_cons_of_length_pos (Nat.zero_lt_of_lt long)
    rw [foldMembersFrom_cons, reads _ (delimited_members members rest)]
    exact ih (Nat.lt_of_succ_lt_succ long) false

/-- A fold over the members of a written object fails if one of its steps does. -/
theorem foldMembersFrom_of_stops {state : σ} {members : List (String × Value)}
    (stops : Stops (memberStep step) memberText state members) {measure : List Char}
    (long : members.length < measure.length) (first : Bool) (rest : List Char) :
    ∃ f, foldMembersFrom step measure first state
      (Value.memberChars first members ++ '}' :: rest) = .error f := by
  induction stops generalizing measure first with
  | @here state m members rejects =>
    obtain ⟨c, measure, rfl⟩ := List.exists_cons_of_length_pos (Nat.zero_lt_of_lt long)
    obtain ⟨f, failed⟩ := rejects _ (delimited_members members rest)
    exact ⟨f, by rw [foldMembersFrom_cons, failed]; rfl⟩
  | @later state next m members reads later ih =>
    obtain ⟨c, measure, rfl⟩ := List.exists_cons_of_length_pos (Nat.zero_lt_of_lt long)
    rw [foldMembersFrom_cons, reads _ (delimited_members members rest)]
    exact ih (Nat.lt_of_succ_lt_succ long) false

theorem length_members (first : Bool) (members : List (String × Value)) (rest : List Char) :
    members.length < (Value.memberChars first members ++ '}' :: rest).length := by
  induction members generalizing first with
  | nil => simp
  | cons m members ih =>
    have later := ih false
    rw [memberChars_cons, quoted, memberText]
    simp only [List.length_append, List.length_cons] at later ⊢
    omega

theorem foldMembers_of_folds {state last : σ} {members : List (String × Value)}
    (folds : Folds (memberStep step) memberText state members last) (rest : List Char) :
    foldMembers step state (Value.memberChars true members ++ '}' :: rest) =
      .ok (last, '}' :: rest) :=
  foldMembersFrom_of_folds folds (length_members true members rest) true rest

theorem foldMembers_of_stops {state : σ} {members : List (String × Value)}
    (stops : Stops (memberStep step) memberText state members) (rest : List Char) :
    ∃ f, foldMembers step state (Value.memberChars true members ++ '}' :: rest) = .error f :=
  foldMembersFrom_of_stops stops (length_members true members rest) true rest

end Members

section

variable {α : Type} {item : List Char → Reading (α × List Char)}

/-- The step of a fold that keeps every item, the last one first. -/
def keepItem (item : List Char → Reading (α × List Char)) (done : List α) (s : List Char) :
    Reading (List α × List Char) :=
  (item s).map fun (v, s) => (v :: done, s)

/-- The step of a fold that keeps every member, the last one first. -/
def keepMember (item : List Char → Reading (α × List Char)) (done : List (String × α))
    (key : String) (s : List Char) : Reading (List (String × α) × List Char) := do
  let s ← readColon s
  let (v, s) ← item s
  return ((key, v) :: done, s)

theorem readItems_eq (s : List Char) : readItems item s = (do
    let (items, s) ← foldItems (keepItem item) [] s
    return (items.reverse, ← closeList s)) := rfl

theorem readMembers_eq (s : List Char) : readMembers item s = (do
    let (members, s) ← foldMembers (keepMember item) [] s
    return (members.reverse, ← closeObject s)) := rfl

theorem reads_keepMember {m : String × Value} {a : α} (reads : Reads item m.2.chars a)
    (done : List (String × α)) :
    Reads (memberStep (keepMember item) done m) (memberText m) ((m.1, a) :: done) := by
  intro rest delimited
  simp only [memberStep, memberText, keepMember, List.cons_append, readColon_cons,
    reads rest delimited, bind, Except.bind, pure, Except.pure]

theorem decides_keepMember {m : String × Value} {p : Prop}
    (decides : Decides item m.2.chars p) (done : List (String × α)) :
    Decides (memberStep (keepMember item) done m) (memberText m) p where
  reads holds := by
    obtain ⟨a, reads⟩ := decides.reads holds
    exact ⟨(m.1, a) :: done, reads_keepMember reads done⟩
  rejects fails := by
    intro rest delimited
    obtain ⟨f, failed⟩ := decides.rejects fails rest delimited
    exact ⟨f, by simp only [memberStep, memberText, keepMember, List.cons_append, readColon_cons,
      failed, bind, Except.bind]⟩

theorem reads_readItems {items : List Value} {done : List α}
    (folds : Folds (fun done _ => keepItem item done) Value.chars [] items done) :
    Reads (readItems item) (Value.itemChars true items ++ [']']) done.reverse := by
  intro rest _
  rw [List.append_assoc, List.singleton_append, readItems_eq, foldItems_of_folds folds rest]
  rfl

theorem reads_readMembers {members : List (String × Value)} {done : List (String × α)}
    (folds : Folds (memberStep (keepMember item)) memberText [] members done) :
    Reads (readMembers item) (Value.memberChars true members ++ ['}']) done.reverse := by
  intro rest _
  rw [List.append_assoc, List.singleton_append, readMembers_eq, foldMembers_of_folds folds rest]
  rfl

/-- A written list is read if all its items are, and not otherwise. -/
theorem decides_readItems {items : List Value} {p : Value → Prop}
    (each : ∀ v ∈ items, Decides item v.chars (p v)) :
    Decides (readItems item) (Value.itemChars true items ++ [']']) (∀ v ∈ items, p v) := by
  have steps : ∀ v ∈ items, ∀ done, Decides (keepItem item done) v.chars (p v) :=
    fun v member done => (each v member).map (· :: done)
  constructor
  · intro holds
    obtain ⟨done, folds⟩ := folds_of_decides steps holds []
    exact ⟨done.reverse, reads_readItems folds⟩
  · intro fails rest _
    obtain ⟨f, failed⟩ := foldItems_of_stops (stops_of_decides steps fails []) rest
    rw [List.append_assoc, List.singleton_append, readItems_eq, failed]
    exact ⟨f, rfl⟩

/-- A written object is read if the values of all its members are, and not otherwise. -/
theorem decides_readMembers {members : List (String × Value)} {p : Value → Prop}
    (each : ∀ m ∈ members, Decides item m.2.chars (p m.2)) :
    Decides (readMembers item) (Value.memberChars true members ++ ['}'])
      (∀ m ∈ members, p m.2) := by
  have steps : ∀ m ∈ members, ∀ done,
      Decides (memberStep (keepMember item) done m) (memberText m) (p m.2) :=
    fun m member done => decides_keepMember (each m member) done
  constructor
  · intro holds
    obtain ⟨done, folds⟩ := folds_of_decides steps holds []
    exact ⟨done.reverse, reads_readMembers folds⟩
  · intro fails rest _
    obtain ⟨f, failed⟩ := foldMembers_of_stops (stops_of_decides steps fails []) rest
    rw [List.append_assoc, List.singleton_append, readMembers_eq, failed]
    exact ⟨f, rfl⟩

end

/-- A value of which the head is everything is read as soon as the head is. -/
theorem reads_readTree_of_head {text : List Char} {v : Value}
    (closed : v.head ≠ .list ∧ v.head ≠ .object) (reads : Reads readHead text v.head) (d : Nat) :
    Reads (readTree d) text v := by
  intro rest delimited
  have head := reads rest delimited
  cases v with
  | list items => exact absurd rfl closed.1
  | object members => exact absurd rfl closed.2
  | null | boolean b | number n | string s => rw [readTree, head, Value.head]

theorem reads_leaf {v : Value} (closed : v.head ≠ .list ∧ v.head ≠ .object) (d : Nat) :
    Reads (readTree d) v.chars v.reread :=
  reads_readTree_of_head (Value.closed_reread closed) (reads_head closed) d

theorem decides_leaf {v : Value} (closed : v.head ≠ .list ∧ v.head ≠ .object) (d : Nat) :
    Decides (readTree d) v.chars (v.depth ≤ d) := by
  refine (reads_leaf closed d).decides ?_
  cases v with
  | list items => exact absurd rfl closed.1
  | object members => exact absurd rfl closed.2
  | _ => exact Nat.zero_le d

theorem readTree_list (d : Nat) (s : List Char) : readTree (d + 1) ('[' :: s) =
    (readItems (readTree d) s).map fun (items, s) => (.list items, s) := by
  rw [readTree]
  rfl

theorem readTree_object (d : Nat) (s : List Char) : readTree (d + 1) ('{' :: s) =
    (readMembers (readTree d) s).map fun (members, s) => (.object members, s) := by
  rw [readTree]
  rfl

section

variable {d : Nat} {items : List Value} {members : List (String × Value)}

theorem decides_list (each : ∀ v ∈ items, Decides (readTree d) v.chars (v.depth ≤ d)) :
    Decides (readTree (d + 1)) (Value.list items).chars ((Value.list items).depth ≤ d + 1) := by
  have read := decides_readItems each
  refine ((read.map Value.list).opened (readTree_list d)).iff ?_
  rw [Value.depth, Nat.add_le_add_iff_right, Value.itemsDepth_le_iff]

theorem decides_object (each : ∀ m ∈ members, Decides (readTree d) m.2.chars (m.2.depth ≤ d)) :
    Decides (readTree (d + 1)) (Value.object members).chars
      ((Value.object members).depth ≤ d + 1) := by
  have read := decides_readMembers (p := fun v => v.depth ≤ d) each
  refine ((read.map Value.object).opened (readTree_object d)).iff ?_
  rw [Value.depth, Nat.add_le_add_iff_right, Value.membersDepth_le_iff]

end

/-- Whether a value is read back depends on nothing but how deep its brackets nest. -/
theorem decides_readTree (d : Nat) (v : Value) : Decides (readTree d) v.chars (v.depth ≤ d) := by
  induction d generalizing v with
  | zero =>
    cases v with
    | list items =>
      have closed : Rejects (readTree 0) (Value.list items).chars := fun rest _ =>
        ⟨_, by rw [Value.chars, readTree]; rfl⟩
      exact closed.decides (Nat.not_succ_le_zero _)
    | object members =>
      have closed : Rejects (readTree 0) (Value.object members).chars := fun rest _ =>
        ⟨_, by rw [Value.chars, readTree]; rfl⟩
      exact closed.decides (Nat.not_succ_le_zero _)
    | null | boolean b | number n | string s => exact decides_leaf (by simp [Value.head]) 0
  | succ d ih =>
    cases v with
    | list items => exact decides_list fun v _ => ih v
    | object members => exact decides_object fun m _ => ih m.2
    | null | boolean b | number n | string s => exact decides_leaf (by simp [Value.head]) (d + 1)

namespace Value

/-- Lists inside each other to a given depth, with nothing in the last one. -/
def nested : Nat → Value
  | 0 => .null
  | n + 1 => .list [nested n]

theorem depth_nested (n : Nat) : (nested n).depth = n := by
  induction n with
  | zero => rfl
  | succ n ih => simp [nested, depth, itemsDepth, ih]

end Value

end LiveRelay.Json
