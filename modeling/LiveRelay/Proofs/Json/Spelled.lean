import LiveRelay.Proofs.Json.Phrase
import LiveRelay.Proofs.Json.Shape

/-! # Reading phrases

What a reader makes of a phrase does not depend on where its blanks stand, and it leaves the text
that follows. It fails if the phrase is no value that can be kept; why and where it does is left
open here, for that may depend on what else is wrong with the text.
-/

namespace LiveRelay.Json

section

variable {α β : Type} (reader : List Char → Reading (α × List Char)) (text : List Char)

/-- A reader makes a value of a text, or fails, whatever follows. -/
def Yields (o : Option α) : Prop :=
  ∀ rest, Delimited rest → (reader (text ++ rest)).toOption = o.map (·, rest)

end

section

variable {α β : Type} {reader : List Char → Reading (α × List Char)} {text : List Char}

theorem Reads.yields {a : α} (reads : Reads reader text a) : Yields reader text (some a) := by
  intro rest delimited
  rw [reads rest delimited]
  rfl

theorem Yields.map {o : Option α} (yields : Yields reader text o) (f : α → β) :
    Yields (fun s => (reader s).map fun (a, s) => (f a, s)) text (o.map f) := by
  intro rest delimited
  rw [toOption_map, yields rest delimited, Option.map_map, Option.map_map]
  rfl

end

section Blanks

variable {gap : List Char} (blank : Blanks gap) (s : List Char)

include blank

theorem skipBlanks_gap : skipBlanks (gap ++ s) = skipBlanks s :=
  List.dropWhile_append_of_pos blank

theorem readHead_gap : readHead (gap ++ s) = readHead s := by
  rw [readHead, skipBlanks_gap blank, ← readHead]

theorem readTree_gap (d : Nat) : readTree d (gap ++ s) = readTree d s := by
  rw [readTree, readHead_gap blank, ← readTree]

theorem readColon_gap : readColon (gap ++ s) = readColon s := by
  rw [readColon, skipBlanks_gap blank, ← readColon]

theorem closeText_gap : closeText gap = .ok () := by
  have none := skipBlanks_gap blank []
  rw [List.append_nil] at none
  rw [closeText, none]
  rfl

theorem delimited_gap (delimited : Delimited s) : Delimited (gap ++ s) := by
  cases gap with
  | nil => exact delimited
  | cons c gap =>
    rintro d ⟨⟩
    exact .inl (blank c List.mem_cons_self)

end Blanks

/-- A text begins with a character that is no blank and does not close its bracket. -/
def Begins (closing : Char) (text : List Char) : Prop :=
  ∃ c more, text = c :: more ∧ isBlank c = false ∧ c ≠ closing

theorem Spells.begins {p : Phrase} {text : List Char} (spells : Spells p text) :
    Begins ']' text := by
  cases spells with
  | null | string g | list listed | object listed => exact ⟨_, _, rfl, rfl, by decide⟩
  | boolean b => cases b <;> exact ⟨_, _, rfl, rfl, by decide⟩
  | number n =>
    obtain ⟨c, more, chars, ⟨-, rfl, -⟩ | ⟨-, digit, -⟩⟩ := n.begins
    · exact ⟨_, _, chars, rfl, by decide⟩
    · exact ⟨_, _, chars, isBlank_of_isDigit digit, by rintro rfl; cases digit⟩

section Lists

variable {ι : Type} {spells : ι → List Char → Prop} {first : Bool} {items : List ι}
  {inner lead : List Char}

/-- What follows an element of a list may follow a value. -/
theorem Listed.delimited (listed : Listed spells false items inner) {c : Char}
    (closes : c = ']' ∨ c = '}') (rest : List Char) : Delimited (inner ++ c :: rest) := by
  cases listed with
  | nil blank => exact delimited_gap blank _ (delimited_cons (.inr closes) rest)
  | cons leads here there =>
    cases leads with
    | next before_blank after_blank =>
      rw [List.append_assoc, List.append_assoc, List.cons_append]
      exact delimited_gap before_blank _ (delimited_cons (by simp) _)

/-- A list is at least as long as its elements are many, if the first one is not empty. -/
theorem Listed.length_le (listed : Listed spells first items inner)
    (filled : ∀ i ∈ items, ∀ text, spells i text → text ≠ []) : items.length ≤ inner.length := by
  induction listed with
  | nil blank => exact Nat.zero_le _
  | cons leads here there ih =>
    have text := List.length_pos_iff.mpr (filled _ List.mem_cons_self _ here)
    have later := ih fun i member => filled i (List.mem_cons_of_mem _ member)
    simp only [List.length_append, List.length_cons]
    omega

theorem toItem_gap (blank : Blanks inner) (first : Bool) (s : List Char) :
    toItem first (inner ++ ']' :: s) = .ok (false, ']' :: s) := by
  rw [toItem, skipBlanks_gap blank, ← toItem, toItem_close]

theorem toItem_lead (leads : Lead first lead) {c : Char} (solid : isBlank c = false)
    (other : c ≠ ']') (s : List Char) : toItem first (lead ++ c :: s) = .ok (true, c :: s) := by
  cases leads with
  | first blank => simp [toItem, skipBlanks_gap blank, skipBlanks_cons solid]
  | next before_blank after_blank =>
    rw [List.append_assoc, toItem, skipBlanks_gap before_blank, List.cons_append,
      skipBlanks_cons rfl]
    simp [skipBlanks_gap after_blank, skipBlanks_cons solid, other]

variable {σ : Type} {step : σ → List Char → Reading (σ × List Char)} {o : σ → ι → Option σ}

/-- A fold over the items of a list does step by step what its step does. -/
theorem toOption_foldItemsFrom
    (begins : ∀ i ∈ items, ∀ text, spells i text → Begins ']' text)
    (each : ∀ i ∈ items, ∀ text, spells i text → ∀ state, Yields (step state) text (o state i))
    (listed : Listed spells first items inner) {measure : List Char}
    (long : items.length < measure.length) (state : σ) (rest : List Char) :
    (foldItemsFrom step measure first state (inner ++ ']' :: rest)).toOption =
      (items.foldlM o state).map (·, ']' :: rest) := by
  induction listed generalizing measure state with
  | nil blank =>
    obtain ⟨m, measure, rfl⟩ := List.exists_cons_of_length_pos long
    rw [foldItemsFrom, toItem_gap blank]
    rfl
  | @cons first i items lead text later leads here there ih =>
    obtain ⟨m, measure, rfl⟩ := List.exists_cons_of_length_pos (Nat.zero_lt_of_lt long)
    obtain ⟨c, more, rfl, solid, other⟩ := begins _ List.mem_cons_self _ here
    have stepped := each _ List.mem_cons_self _ here state _ (there.delimited (.inl rfl) rest)
    have ih := ih (fun i member => begins i (List.mem_cons_of_mem _ member))
      (fun i member => each i (List.mem_cons_of_mem _ member)) (Nat.lt_of_succ_lt_succ long)
    have lead := toItem_lead leads solid other (more ++ (later ++ ']' :: rest))
    rw [List.append_assoc, List.append_assoc, List.cons_append, foldItemsFrom_round lead,
      toOption_bind, ← List.cons_append, stepped, List.foldlM_cons]
    cases o state i with
    | none => rfl
    | some next => exact ih next

theorem toOption_foldItems
    (begins : ∀ i ∈ items, ∀ text, spells i text → Begins ']' text)
    (each : ∀ i ∈ items, ∀ text, spells i text → ∀ state, Yields (step state) text (o state i))
    (listed : Listed spells true items inner) (state : σ) (rest : List Char) :
    (foldItems step state (inner ++ ']' :: rest)).toOption =
      (items.foldlM o state).map (·, ']' :: rest) := by
  refine toOption_foldItemsFrom begins each listed ?_ state rest
  have short := listed.length_le fun i member text spelled => by
    obtain ⟨c, more, rfl, -⟩ := begins i member text spelled
    exact List.cons_ne_nil c more
  rw [List.length_append, List.length_cons]
  omega

/-- A list is read if all its items are. -/
theorem yields_readItems {α : Type} {item : List Char → Reading (α × List Char)}
    {value? : ι → Option α}
    (begins : ∀ i ∈ items, ∀ text, spells i text → Begins ']' text)
    (each : ∀ i ∈ items, ∀ text, spells i text → Yields item text (value? i))
    (listed : Listed spells true items inner) :
    Yields (readItems item) (inner ++ [']']) (items.mapM value?) := by
  intro rest _
  have kept := fun i member text spelled done => (each i member text spelled).map (· :: done)
  have folded : (foldItems (keepItem item) [] (inner ++ ']' :: rest)).toOption = _ :=
    toOption_foldItems begins kept listed [] rest
  rw [List.append_assoc, List.singleton_append, readItems_eq, toOption_bind, folded,
    List.mapM_eq_reverse_foldlM_cons]
  cases items.foldlM (fun done i => (value? i).map (· :: done)) [] <;> rfl

end Lists

section Members

variable {first : Bool} {members : List (Spelling × Phrase)} {inner lead : List Char}

/-- The texts of a phrase after a colon. -/
inductive Assigned (p : Phrase) : List Char → Prop
  | mk {before after text : List Char} (before_blank : Blanks before)
      (after_blank : Blanks after) (here : Spells p text) :
      Assigned p (before ++ ':' :: (after ++ text))

/-- A reader that does not mind blanks reads a phrase after a colon as it reads the phrase. -/
theorem Assigned.yields {α : Type} {reader : List Char → Reading (α × List Char)} {p : Phrase}
    {text : List Char} {o : Option α} (assigned : Assigned p text)
    (blind : ∀ gap, Blanks gap → ∀ s, reader (gap ++ s) = reader s)
    (each : ∀ text, Spells p text → Yields reader text o) :
    Yields (fun s => readColon s >>= reader) text o := by
  intro rest delimited
  cases assigned with
  | @mk before after text before_blank after_blank here =>
    have read := each text here rest delimited
    dsimp only
    rw [List.append_assoc, List.cons_append, readColon_gap before_blank, readColon_cons,
      List.append_assoc]
    exact (congrArg Except.toOption (blind after after_blank _)).trans read

theorem toKey_gap (blank : Blanks inner) (first : Bool) (s : List Char) :
    toKey first (inner ++ '}' :: s) = .ok (false, '}' :: s) := by
  rw [toKey, skipBlanks_gap blank, ← toKey, toKey_close]

theorem toKey_lead (leads : Lead first lead) (s : List Char) :
    toKey first (lead ++ '"' :: s) = .ok (true, s) := by
  have quote : isBlank '"' = false := rfl
  cases leads with
  | first blank => simp [toKey, skipBlanks_gap blank, skipBlanks_cons quote]
  | next before_blank after_blank =>
    rw [List.append_assoc, toKey, skipBlanks_gap before_blank, List.cons_append,
      skipBlanks_cons rfl]
    simp [skipBlanks_gap after_blank, skipBlanks_cons quote]

variable {σ : Type} {step : σ → String → List Char → Reading (σ × List Char)}
  {o : σ → String → Phrase → Option σ}

/-- What a step makes of a member, if its key can be read. -/
def takeEntry (o : σ → String → Phrase → Option σ) (state : σ) (m : Spelling × Phrase) :
    Option σ :=
  m.1.decode.bind fun key => o state key m.2

/-- A fold over the members of an object does step by step what its step does. -/
theorem toOption_foldMembersFrom
    (each : ∀ m ∈ members, ∀ text, Assigned m.2 text → ∀ state key, m.1.decode = some key →
      Yields (step state key) text (o state key m.2))
    (listed : Listed (Entry Spells) first members inner) {measure : List Char}
    (long : members.length < measure.length) (state : σ) (rest : List Char) :
    (foldMembersFrom step measure first state (inner ++ '}' :: rest)).toOption =
      (members.foldlM (takeEntry o) state).map (·, '}' :: rest) := by
  induction listed generalizing measure state with
  | nil blank =>
    obtain ⟨m, measure, rfl⟩ := List.exists_cons_of_length_pos long
    rw [foldMembersFrom, toKey_gap blank]
    rfl
  | @cons first m members lead text later leads here there ih =>
    obtain ⟨_, measure, rfl⟩ := List.exists_cons_of_length_pos (Nat.zero_lt_of_lt long)
    have ih := ih (fun m member => each m (List.mem_cons_of_mem _ member))
      (Nat.lt_of_succ_lt_succ long)
    cases here with
    | @mk g p before after text before_blank after_blank here =>
      have stepped := each _ List.mem_cons_self _ (.mk before_blank after_blank here) state
      have next := there.delimited (.inr rfl) rest
      simp only [List.append_assoc, List.cons_append]
      rw [foldMembersFrom_round (toKey_lead leads _), toOption_bind, toOption_readString,
        List.foldlM_cons, takeEntry]
      cases decoded : g.decode with
      | none => rfl
      | some key =>
        have stepped := stepped key decoded _ next
        simp only [List.append_assoc, List.cons_append] at stepped
        simp only [Option.map_some, Option.bind_some, toOption_bind]
        rw [stepped]
        cases o state key p with
        | none => rfl
        | some next => exact ih next

theorem toOption_foldMembers
    (each : ∀ m ∈ members, ∀ text, Assigned m.2 text → ∀ state key, m.1.decode = some key →
      Yields (step state key) text (o state key m.2))
    (listed : Listed (Entry Spells) true members inner) (state : σ) (rest : List Char) :
    (foldMembers step state (inner ++ '}' :: rest)).toOption =
      (members.foldlM (takeEntry o) state).map (·, '}' :: rest) := by
  refine toOption_foldMembersFrom each listed ?_ state rest
  have short := listed.length_le fun m member text entry => by
    cases entry
    exact List.cons_ne_nil _ _
  rw [List.length_append, List.length_cons]
  omega

theorem keepMember_eq {α : Type} (item : List Char → Reading (α × List Char))
    (done : List (String × α)) (key : String) (s : List Char) : keepMember item done key s =
      (readColon s >>= item).map fun (v, s) => ((key, v) :: done, s) := by
  unfold keepMember
  cases readColon s with
  | error f => rfl
  | ok s =>
    simp only [bind, Except.bind]
    cases item s <;> rfl

/-- A member is kept if its key and its value can be. -/
theorem takeEntry_keep {α : Type} (value? : Phrase → Option α) :
    takeEntry (fun done key p => (value? p).map fun v => (key, v) :: done) =
      fun done m => (· :: done) <$> member? value? m := by
  funext done m
  simp only [takeEntry, member?]
  cases m.1.decode with
  | none => rfl
  | some key => cases value? m.2 <;> rfl

/-- An object is read if all its keys and the values of all its members are. -/
theorem yields_readMembers {α : Type} {item : List Char → Reading (α × List Char)}
    {value? : Phrase → Option α} (blind : ∀ gap, Blanks gap → ∀ s, item (gap ++ s) = item s)
    (each : ∀ m ∈ members, ∀ text, Spells m.2 text → Yields item text (value? m.2))
    (listed : Listed (Entry Spells) true members inner) :
    Yields (readMembers item) (inner ++ ['}'])
      (members.mapM (member? value?)) := by
  intro rest _
  have kept : ∀ m ∈ members, ∀ text, Assigned m.2 text → ∀ done key, m.1.decode = some key →
      Yields (keepMember item done key) text ((value? m.2).map fun v => (key, v) :: done) := by
    intro m member text assigned done key _
    have read := (assigned.yields blind (each m member)).map fun v => (key, v) :: done
    intro rest delimited
    rw [keepMember_eq]
    exact read rest delimited
  have folded : (foldMembers (keepMember item) [] (inner ++ '}' :: rest)).toOption = _ :=
    toOption_foldMembers (o := fun done key p => (value? p).map fun v => (key, v) :: done) kept
      listed [] rest
  rw [List.append_assoc, List.singleton_append, readMembers_eq, toOption_bind, folded,
    List.mapM_eq_reverse_foldlM_cons, takeEntry_keep]
  cases members.foldlM (fun done m => (· :: done) <$> member? value? m) [] <;> rfl

end Members

theorem yields_readHead_number (n : Numeral) :
    Yields readHead n.chars (n.literal.value.toOption.map .number) := by
  intro rest delimited
  rw [readHead_numeral n delimited, Option.map_map]
  rfl

theorem readHead_quote (s : List Char) :
    readHead ('"' :: s) = (readString .kept s).map fun (t, s) => (.string t, s) := rfl

theorem yields_readHead_string (g : Spelling) :
    Yields readHead ('"' :: (g.chars ++ ['"'])) (g.decode.map .string) := by
  intro rest _
  rw [List.cons_append, List.append_assoc, List.singleton_append, readHead_quote, toOption_map,
    toOption_readString, Option.map_map, Option.map_map]
  rfl

/-- A value of which the head is everything is read as its head is. -/
theorem yields_readTree_of_head {text : List Char} {o : Option Value}
    (closed : ∀ v ∈ o, v.head ≠ .list ∧ v.head ≠ .object)
    (yields : Yields readHead text (o.map Value.head)) (d : Nat) : Yields (readTree d) text o := by
  intro rest delimited
  have head := yields rest delimited
  cases o with
  | none =>
    rw [readTree]
    cases read : readHead (text ++ rest) with
    | error f => rfl
    | ok head' =>
      rw [read] at head
      cases head
  | some v =>
    have reads : Reads readHead text v.head := fun rest delimited =>
      toOption_eq_some_iff.mp (yields rest delimited)
    exact (reads_readTree_of_head (closed v rfl) reads d).yields rest delimited

theorem Yields.opened {α : Type} {inner outer : List Char → Reading (α × List Char)}
    {text : List Char} {c : Char} {o : Option α} (yields : Yields inner text o)
    (same : ∀ s, outer (c :: s) = inner s) : Yields outer (c :: text) o := by
  intro rest delimited
  rw [List.cons_append, same]
  exact yields rest delimited

/-- A phrase without brackets is read as its value, if it has one. -/
theorem yields_leaf {p : Phrase} {text : List Char} (spells : Spells p text)
    (leaf : (∀ items, p ≠ .list items) ∧ ∀ members, p ≠ .object members) (d : Nat) :
    Yields (readTree d) text (p.value? d) := by
  cases spells with
  | null =>
    rw [Phrase.value?]
    exact yields_readTree_of_head (by simp [Value.head]) reads_null.yields d
  | boolean b =>
    rw [Phrase.value?]
    exact yields_readTree_of_head (by simp [Value.head]) (reads_boolean b).yields d
  | number n =>
    rw [Phrase.value?]
    refine yields_readTree_of_head ?_ ?_ d
    · intro v found
      obtain ⟨m, -, rfl⟩ := Option.map_eq_some_iff.mp found
      simp [Value.head]
    · rw [Option.map_map]
      exact yields_readHead_number n
  | string g =>
    rw [Phrase.value?]
    refine yields_readTree_of_head ?_ ?_ d
    · intro v found
      obtain ⟨s, -, rfl⟩ := Option.map_eq_some_iff.mp found
      simp [Value.head]
    · rw [Option.map_map]
      exact yields_readHead_string g
  | list listed => exact absurd rfl (leaf.1 _)
  | object listed => exact absurd rfl (leaf.2 _)

/-- A phrase is read as its value, if it has one that opens no more than the given number of
brackets inside each other. -/
theorem yields_readTree (d : Nat) {p : Phrase} {text : List Char} (spells : Spells p text) :
    Yields (readTree d) text (p.value? d) := by
  induction d generalizing p text with
  | zero =>
    cases p with
    | list items =>
      cases spells
      intro rest _
      rw [Phrase.value?, List.cons_append, readTree]
      rfl
    | object members =>
      cases spells
      intro rest _
      rw [Phrase.value?, List.cons_append, readTree]
      rfl
    | null | boolean b | number n | string g => exact yields_leaf spells (by simp) 0
  | succ d ih =>
    cases p with
    | list items =>
      cases spells with
      | list listed =>
        have read := yields_readItems (fun _ _ _ spelled => spelled.begins)
          (fun _ _ _ spelled => ih spelled) listed
        rw [Phrase.value?]
        exact (read.map Value.list).opened (readTree_list d)
    | object members =>
      cases spells with
      | object listed =>
        have read := yields_readMembers (fun gap blank s => readTree_gap blank s d)
          (fun _ _ _ spelled => ih spelled) listed
        rw [Phrase.value?]
        exact (read.map Value.object).opened (readTree_object d)
    | null | boolean b | number n | string g => exact yields_leaf spells (by simp) (d + 1)

namespace Shape

variable {α : Type} {d : Nat} {text : List Char}

theorem yields_ofHead {fit : Head → Except Cause α} {o : Option Head} {w : Option α}
    (yields : Yields readHead text o) (fits : (o.bind fun head => (fit head).toOption) = w) :
    Yields ((ofHead fit).ofText d) text w := by
  intro rest delimited
  rw [ofHead, toOption_bind, yields rest delimited, ← fits]
  cases o with
  | none => rfl
  | some head =>
    simp only [Option.map_some, Option.bind_some]
    cases fit head <;> rfl

theorem ofHead_gap {fit : Head → Except Cause α} {gap : List Char} (blank : Blanks gap)
    (s : List Char) : (ofHead fit).ofText d (gap ++ s) = (ofHead fit).ofText d s := by
  simp only [ofHead, readHead_gap blank]

/-- A string is read from a phrase that is one, and from no other. -/
theorem yields_string {p : Phrase} (spells : Spells p text) :
    Yields (string.ofText d) text p.string? := by
  cases spells with
  | null => exact yields_ofHead reads_null.yields rfl
  | boolean b => exact yields_ofHead (reads_boolean b).yields rfl
  | number n =>
    exact yields_ofHead (yields_readHead_number n) (by cases n.literal.value <;> rfl)
  | string g =>
    refine yields_ofHead (yields_readHead_string g) ?_
    rw [Phrase.string?]
    cases g.decode <;> rfl
  | list listed => exact fun _ _ => rfl
  | object listed => exact fun _ _ => rfl

theorem nullable_gap {gap : List Char} (blank : Blanks gap) (s : List Char) :
    nullable.ofText d (gap ++ s) = nullable.ofText d s := by
  rw [nullable_ofText, readTree_gap blank, ← nullable_ofText]

theorem yields_nullable {p : Phrase} (spells : Spells p text) :
    Yields (nullable.ofText d) text
      ((p.value? d).map fun v => (nullable.ofValue v).toOption.join) := by
  have read := (yields_readTree d spells).map fun v => (nullable.ofValue v).toOption.join
  simpa only [← nullable_ofText] using read

end Shape

end LiveRelay.Json
