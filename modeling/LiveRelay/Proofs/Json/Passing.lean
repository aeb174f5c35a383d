import LiveRelay.Proofs.Json.Spelled

/-! # Passing over phrases

Every phrase can be passed over, however deep its brackets nest, however large its numbers are and
whatever its surrogates are paired with. The loop that does it keeps the open brackets in a list, so
what it makes of a phrase is stated for all brackets that are open around it: it goes on with them
as it would after any other phrase.
-/

namespace LiveRelay.Json

variable {b : Bracket} {outer : List Bracket} {gap lead measure : List Char} {fresh : Bool}

/-- Goes on after a value, or in a `fresh` bracket: closes the brackets that end here and passes
over the values that are left inside the others. -/
def resume (fresh : Bool) (measure : List Char) (brackets : List Bracket) (s : List Char) :
    Reading (List Char) :=
  match toValue fresh brackets s with
  | .error f => .error f
  | .ok ([], s) => .ok s
  | .ok (brackets, s) => skipFrom measure brackets s

/-- Goes on to the value of an element. -/
def enter : Bracket → List Char → Reading (List Char)
  | .list, s => .ok s
  | .object, s => skipKey s

/-- Goes on with an element of the innermost bracket. -/
def proceed (measure : List Char) (b : Bracket) (outer : List Bracket) (s : List Char) :
    Reading (List Char) :=
  enter b s >>= skipFrom measure (b :: outer)

theorem skipFrom_cons (m : Char) (measure : List Char) (brackets : List Bracket) (s : List Char) :
    skipFrom (m :: measure) brackets s = skipHead s >>= fun (opened, s) =>
      resume opened.isSome measure (opened.toList ++ brackets) s := by
  rw [skipFrom]
  cases skipHead s <;> rfl

theorem skipHead_gap (blank : Blanks gap) (s : List Char) : skipHead (gap ++ s) = skipHead s := by
  rw [skipHead, skipBlanks_gap blank, ← skipHead]

theorem skipKey_gap (blank : Blanks gap) (s : List Char) : skipKey (gap ++ s) = skipKey s := by
  rw [skipKey, skipBlanks_gap blank, ← skipKey]

theorem skipFrom_gap (blank : Blanks gap) (measure : List Char) (brackets : List Bracket)
    (s : List Char) : skipFrom measure brackets (gap ++ s) = skipFrom measure brackets s := by
  cases measure with
  | nil => rfl
  | cons m measure => rw [skipFrom_cons, skipHead_gap blank, ← skipFrom_cons]

theorem proceed_gap (blank : Blanks gap) (measure : List Char) (b : Bracket)
    (outer : List Bracket) (s : List Char) :
    proceed measure b outer (gap ++ s) = proceed measure b outer s := by
  cases b with
  | list => exact skipFrom_gap blank measure (.list :: outer) s
  | object => rw [proceed, enter, skipKey_gap blank, ← enter, ← proceed]

theorem resume_closing (blank : Blanks gap) (fresh : Bool) (measure : List Char) (b : Bracket)
    (outer : List Bracket) (s : List Char) :
    resume fresh measure (b :: outer) (gap ++ b.closing :: s) = resume false measure outer s := by
  have solid : isBlank b.closing = false := by
    cases b <;> rfl
  have closed : toValue fresh (b :: outer) (gap ++ b.closing :: s) = toValue false outer s := by
    rw [toValue, skipBlanks_gap blank, skipBlanks_cons solid]
    exact if_pos rfl
  rw [resume, closed, ← resume]

theorem resume_of_enter {s t : List Char}
    (entered : toValue fresh (b :: outer) s = (enter b t).map (b :: outer, ·)) :
    resume fresh measure (b :: outer) s = proceed measure b outer t := by
  rw [resume, entered, proceed]
  cases enter b t <;> rfl

/-- In front of an element, the innermost bracket goes on with it. -/
theorem resume_lead (leads : Lead fresh lead) {c : Char} (solid : isBlank c = false)
    (other : c ≠ b.closing) (measure : List Char) (outer : List Bracket) (s : List Char) :
    resume fresh measure (b :: outer) (lead ++ c :: s) = proceed measure b outer (c :: s) := by
  cases leads with
  | first blank =>
    refine resume_of_enter ?_
    rw [toValue, skipBlanks_gap blank, skipBlanks_cons solid]
    cases b <;> simp_all [enter, Bracket.closing, Except.map]
  | @next before after before_blank after_blank =>
    rw [List.append_assoc, List.cons_append, ← proceed_gap after_blank]
    refine resume_of_enter ?_
    rw [toValue, skipBlanks_gap before_blank, skipBlanks_cons rfl]
    cases b <;> simp [enter, Bracket.closing, Except.map]

/-- A text is passed over in some rounds of the loop, no more than it is long. -/
def Passes (text : List Char) : Prop :=
  ∃ n ≤ text.length, ∀ measure brackets rest, n ≤ measure.length → Delimited rest →
    skipFrom measure brackets (text ++ rest) = resume false (measure.drop n) brackets rest

/-- The text of an element of a bracket is passed over. -/
def Enters (b : Bracket) (text : List Char) : Prop :=
  ∃ n ≤ text.length, ∀ measure outer rest, n ≤ measure.length → Delimited rest →
    proceed measure b outer (text ++ rest) = resume false (measure.drop n) (b :: outer) rest

theorem Passes.enters {text : List Char} (passes : Passes text) : Enters .list text := by
  obtain ⟨n, short, passed⟩ := passes
  exact ⟨n, short, fun measure outer rest => passed measure (.list :: outer) rest⟩

/-- The elements of a bracket are passed over if each of them is, up to the closing bracket. -/
theorem resume_listed {ι : Type} {spells : ι → List Char → Prop} {items : List ι}
    {inner : List Char}
    (begins : ∀ i ∈ items, ∀ text, spells i text → Begins b.closing text)
    (each : ∀ i ∈ items, ∀ text, spells i text → Enters b text)
    (listed : Listed spells fresh items inner) :
    ∃ n ≤ inner.length, ∀ measure outer rest, n ≤ measure.length → Delimited rest →
      resume fresh measure (b :: outer) (inner ++ b.closing :: rest) =
        resume false (measure.drop n) outer rest := by
  induction listed with
  | nil blank =>
    exact ⟨0, Nat.zero_le _, fun measure outer rest _ _ =>
      resume_closing blank _ measure b outer rest⟩
  | @cons fresh i items lead text later leads here there ih =>
    obtain ⟨n, short, entered⟩ := each i List.mem_cons_self text here
    obtain ⟨k, less, resumed⟩ := ih (fun i member => begins i (List.mem_cons_of_mem _ member))
      fun i member => each i (List.mem_cons_of_mem _ member)
    obtain ⟨c, more, rfl, solid, other⟩ := begins i List.mem_cons_self text here
    have closes : b.closing = ']' ∨ b.closing = '}' := by
      cases b <;> simp [Bracket.closing]
    refine ⟨n + k, by simp only [List.length_append] at short ⊢; omega, ?_⟩
    intro measure outer rest long delimited
    have left : k ≤ (measure.drop n).length := by
      rw [List.length_drop]
      omega
    calc resume fresh measure (b :: outer) (lead ++ (c :: more ++ later) ++ b.closing :: rest)
        = proceed measure b outer (c :: more ++ (later ++ b.closing :: rest)) := by
          simpa using resume_lead leads solid other measure outer _
      _ = resume false (measure.drop n) (b :: outer) (later ++ b.closing :: rest) :=
          entered measure outer _ (by omega) (there.delimited closes rest)
      _ = resume false ((measure.drop n).drop k) outer rest :=
          resumed _ outer rest left delimited
      _ = resume false (measure.drop (n + k)) outer rest := by rw [List.drop_drop]

/-- A bracket is passed over if its elements are. -/
theorem passes_bracket {opening : Char} (opens : ∀ s, skipHead (opening :: s) = .ok (some b, s))
    {inner : List Char}
    (inside : ∃ n ≤ inner.length, ∀ measure outer rest, n ≤ measure.length → Delimited rest →
      resume true measure (b :: outer) (inner ++ b.closing :: rest) =
        resume false (measure.drop n) outer rest) :
    Passes (opening :: (inner ++ [b.closing])) := by
  obtain ⟨n, short, resumed⟩ := inside
  refine ⟨n + 1, by simp; omega, ?_⟩
  intro measure brackets rest long delimited
  obtain ⟨m, measure, rfl⟩ := List.exists_cons_of_length_pos (Nat.zero_lt_of_lt long)
  rw [List.cons_append, List.append_assoc, List.singleton_append, skipFrom_cons, opens]
  exact resumed measure brackets rest (Nat.le_of_succ_le_succ long) delimited

/-- A scalar is passed over in one round. -/
theorem passes_scalar {text : List Char} (filled : text ≠ [])
    (scalar : ∀ rest, Delimited rest → skipHead (text ++ rest) = .ok (none, rest)) :
    Passes text := by
  refine ⟨1, List.length_pos_iff.mpr filled, ?_⟩
  intro measure brackets rest long delimited
  obtain ⟨m, measure, rfl⟩ := List.exists_cons_of_length_pos long
  rw [skipFrom_cons, scalar rest delimited]
  rfl

theorem skipHead_quote (s : List Char) :
    skipHead ('"' :: s) = (readString .passedOver s).map fun (_, s) => (none, s) := rfl

theorem passes_string (g : Spelling) : Passes ('"' :: (g.chars ++ ['"'])) := by
  refine passes_scalar (List.cons_ne_nil _ _) fun rest _ => ?_
  obtain ⟨s, read⟩ := readString_passedOver g rest
  rw [List.cons_append, List.append_assoc, List.singleton_append, skipHead_quote, read]
  rfl

theorem skipHead_digit {c : Char} (digit : c.isDigit = true) (s : List Char) :
    skipHead (c :: s) = (readLiteral .passedOver false (c :: s)).map fun (_, s) => (none, s) := by
  have other (d : Char) (letter : d.isDigit = false) : c ≠ d := by
    rintro rfl
    cases digit.symm.trans letter
  simp [skipHead, skipBlanks_cons (isBlank_of_isDigit digit), digit, other 'n' rfl, other 't' rfl,
    other 'f' rfl, other '-' rfl, other '"' rfl, other '[' rfl, other '{' rfl]

theorem skipHead_minus (s : List Char) :
    skipHead ('-' :: s) = (readLiteral .passedOver true s).map fun (_, s) => (none, s) := rfl

theorem passes_number (n : Numeral) : Passes n.chars := by
  obtain ⟨c, more, chars, begins⟩ := n.begins
  refine passes_scalar (by simp [chars]) fun rest delimited => ?_
  have read := readLiteral_numeral n .passedOver delimited
  rw [chars, List.cons_append]
  rcases begins with ⟨negative, rfl, rfl⟩ | ⟨positive, digit, unsigned⟩
  · rw [negative] at read
    rw [skipHead_minus, read]
    rfl
  · rw [positive, ← unsigned, List.cons_append] at read
    rw [skipHead_digit digit, read]
    rfl

theorem skipKey_quote (s : List Char) :
    skipKey ('"' :: s) = readString .passedOver s >>= fun (_, s) => readColon s := rfl

/-- A member of an object is passed over if its value is. -/
theorem Entry.enters {m : Spelling × Phrase} {text : List Char} (entry : Entry Spells m text)
    (value : ∀ text, Spells m.2 text → Passes text) : Enters .object text := by
  cases entry with
  | @mk g p before after text before_blank after_blank here =>
    obtain ⟨n, short, passed⟩ := value text here
    refine ⟨n, by simp; omega, ?_⟩
    intro measure outer rest long delimited
    obtain ⟨s, read⟩ := readString_passedOver g (before ++ ':' :: (after ++ (text ++ rest)))
    have entered : enter .object
        ('"' :: (g.chars ++ '"' :: (before ++ ':' :: (after ++ text))) ++ rest) =
          .ok (after ++ (text ++ rest)) := by
      simp only [List.cons_append, List.append_assoc, enter]
      rw [skipKey_quote, read]
      exact readColon_gap before_blank _
    rw [proceed, entered]
    exact (skipFrom_gap after_blank measure _ _).trans (passed measure _ rest long delimited)

/-- Every phrase is passed over. -/
theorem Spells.passes {p : Phrase} {text : List Char} (spells : Spells p text) : Passes text := by
  induction p using Phrase.induct generalizing text with
  | null =>
    cases spells
    exact passes_scalar (List.cons_ne_nil _ _) fun _ _ => rfl
  | boolean b =>
    cases spells
    cases b <;> exact passes_scalar (List.cons_ne_nil _ _) fun _ _ => rfl
  | number n =>
    cases spells
    exact passes_number n
  | string g =>
    cases spells
    exact passes_string g
  | list items ih =>
    cases spells with
    | list listed =>
      refine passes_bracket (b := .list) (fun s => rfl) (resume_listed ?_ ?_ listed)
      · exact fun p _ text spells => spells.begins
      · exact fun p member text spells => (ih p member spells).enters
  | object members ih =>
    cases spells with
    | object listed =>
      refine passes_bracket (b := .object) (fun s => rfl) (resume_listed ?_ ?_ listed)
      · rintro m - text ⟨⟩
        exact ⟨_, _, rfl, rfl, by decide⟩
      · exact fun m member text entry => entry.enters fun text spells => ih m member spells

/-- Passing over a phrase leaves the text that follows it. -/
theorem skipValue_phrase {p : Phrase} {text rest : List Char} (spells : Spells p text)
    (blank : Blanks gap) (delimited : Delimited rest) :
    skipValue (gap ++ (text ++ rest)) = .ok rest := by
  obtain ⟨n, short, passed⟩ := spells.passes
  rw [skipValue, skipFrom_gap blank, passed _ [] rest _ delimited]
  · rfl
  · simp only [List.length_append]
    omega

/-- Passing over a phrase after a colon leaves the text that follows it. -/
theorem Assigned.passed {p : Phrase} {text rest : List Char} (assigned : Assigned p text)
    (delimited : Delimited rest) : readColon (text ++ rest) >>= skipValue = .ok rest := by
  cases assigned with
  | mk before_blank after_blank here =>
    rw [List.append_assoc, List.cons_append, readColon_gap before_blank, List.append_assoc]
    exact skipValue_phrase here after_blank delimited

namespace Record

variable {δ α β : Type} {r : Record δ α} {d : Nat} {draft : δ} {key : String} {p : Phrase}
  {text : List Char}

/-- A member with a known key fills its field, unless the field has been given already. -/
theorem yields_field {field : Field δ} {o : Option (δ → δ)} (found : r.field? key = some field)
    (assigned : Assigned p text)
    (blind : ∀ gap, Blanks gap → ∀ s, field.shape.ofText d (gap ++ s) = field.shape.ofText d s)
    (each : ∀ text, Spells p text → Yields (field.shape.ofText d) text o) :
    Yields (r.readMember d draft key) text
      (if field.given draft then none else o.map fun put => put draft) := by
  intro rest delimited
  have read := ((assigned.yields blind each).map fun put => put draft) rest delimited
  cases again : field.given draft with
  | true =>
    simp only [readMember, found, again, if_true]
    rfl
  | false =>
    have member (s : List Char) : r.readMember d draft key s =
        (readColon s >>= field.shape.ofText d).map fun taken => (taken.1 draft, taken.2) := by
      simp only [readMember, found, again, Bool.false_eq_true, if_false]
      cases readColon s with
      | error f => rfl
      | ok s =>
        simp only [bind, Except.bind]
        cases field.shape.ofText d s <;> rfl
    rw [member]
    exact read

theorem yields_known {name : String} {given : δ → Bool} {omissible : Bool} {shape : Shape β}
    {put : β → δ → δ} {o : Option β}
    (found : r.field? key = some ⟨name, given, omissible, shape.map put⟩)
    (assigned : Assigned p text)
    (blind : ∀ gap, Blanks gap → ∀ s, shape.ofText d (gap ++ s) = shape.ofText d s)
    (each : ∀ text, Spells p text → Yields (shape.ofText d) text o) :
    Yields (r.readMember d draft key) text
      (if given draft then none else o.map fun b => put b draft) := by
  have filled : Yields (r.readMember d draft key) text
      (if given draft then none else (o.map put).map fun put => put draft) :=
    yields_field found assigned (fun gap blank s => by simp only [Shape.map, blind gap blank])
      fun text spells => (each text spells).map put
  rwa [Option.map_map] at filled

/-- A member with an unknown key is passed over. -/
theorem yields_unknown (found : r.field? key = none) (assigned : Assigned p text) :
    Yields (r.readMember d draft key) text (some draft) := by
  intro rest delimited
  have member : r.readMember d draft key (text ++ rest) =
      (readColon (text ++ rest) >>= skipValue).map (draft, ·) := by
    simp only [readMember, found]
    cases readColon (text ++ rest) <;> rfl
  rw [member, assigned.passed delimited]
  rfl

/-- An object is read as a record as its members fill the draft. -/
theorem yields_object {o : δ → String → Phrase → Option δ} {members : List (Spelling × Phrase)}
    {inner : List Char}
    (each : ∀ m ∈ members, ∀ text, Assigned m.2 text → ∀ draft key,
      Yields (r.readMember d draft key) text (o draft key m.2))
    (listed : Listed (Entry Spells) true members inner) :
    Yields (r.shape.ofText (d + 1)) ('{' :: (inner ++ ['}']))
      ((members.foldlM (takeEntry o) r.empty).bind fun draft => (r.finish draft).toOption) := by
  have inside : Yields (r.readObject d) (inner ++ ['}'])
      ((members.foldlM (takeEntry o) r.empty).bind fun draft => (r.finish draft).toOption) := by
    intro rest _
    rw [List.append_assoc, List.singleton_append, readObject, toOption_bind,
      toOption_foldMembers (fun m member text assigned draft key _ =>
        each m member text assigned draft key) listed]
    cases members.foldlM (takeEntry o) r.empty with
    | none => rfl
    | some draft =>
      simp only [Option.map_some, Option.bind_some]
      cases r.finish draft <;> rfl
  exact inside.opened (shape_opened r d)

theorem shape_gap (blank : Blanks gap) (s : List Char) :
    r.shape.ofText d (gap ++ s) = r.shape.ofText d s := by
  simp only [shape, readHead_gap blank]

end Record

end LiveRelay.Json
