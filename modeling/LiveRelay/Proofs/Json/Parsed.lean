import LiveRelay.Proofs.Json.Finite
import LiveRelay.Proofs.Json.Spelled

/-! # Nothing but phrases is read

What a reader takes off the front of a text is always spelled in one of the ways that a phrase
allows. The readers of tokens are taken apart first: each of them succeeds in few ways, and every
one of them says what the text began with. The folds over items and members follow, and from them
the reader of whole values. So the texts that are read as a value are exactly the texts of the
phrases that have that value.
-/

namespace LiveRelay.Json

theorem exists_blanks (s : List Char) : ∃ gap, Blanks gap ∧ s = gap ++ skipBlanks s :=
  ⟨s.takeWhile isBlank, fun _ member => List.mem_takeWhile_imp member,
    List.takeWhile_append_dropWhile.symm⟩

theorem eq_of_readName {name s rest : List Char} (read : readName name s = .ok rest) :
    s = name ++ rest := by
  fun_induction readName name s with
  | case1 s => exact Except.ok.inj read
  | case2 => cases read
  | case3 c name s ih => rw [ih read, List.cons_append]
  | case4 => cases read

section Strings

theorem of_readHexWord {n : Nat} {s rest : List Char} (read : readHexWord s = .ok (n, rest)) :
    ∃ a b c d, hexWord? a b c d = some n ∧ s = a :: b :: c :: d :: rest := by
  unfold readHexWord at read
  split at read
  · next a b c d s =>
    split at read
    · next n found =>
      cases read
      exact ⟨a, b, c, d, found, rfl⟩
    · cases read
  · split at read <;> cases read

theorem eq_of_readPairMark {mark : Char} {s rest : List Char}
    (read : readPairMark mark s = .ok rest) : s = mark :: rest := by
  cases s with
  | nil => cases read
  | cons c s =>
    rw [readPairMark] at read
    split at read
    · next same =>
      cases read
      rw [same]
    · cases read

theorem of_readLowSurrogate {high : Nat} {s rest : List Char} {ch : Char}
    (read : readLowSurrogate high s = .ok (ch, rest)) :
    ∃ a b c d low, hexWord? a b c d = some low ∧ (0xDC00 ≤ low ∧ low ≤ 0xDFFF) ∧
      ch = Char.ofNat (0x10000 + (high - 0xD800) * 0x400 + (low - 0xDC00)) ∧
      s = '\\' :: 'u' :: a :: b :: c :: d :: rest := by
  simp only [readLowSurrogate, bind_eq_ok_iff] at read
  obtain ⟨s₁, slash, s₂, letter, ⟨low, s₃⟩, word, last⟩ := read
  obtain ⟨a, b, c, d, found, rfl⟩ := of_readHexWord word
  rw [eq_of_readPairMark slash, eq_of_readPairMark letter]
  split at last
  · next range =>
    obtain ⟨char, left⟩ := Prod.mk.inj (Except.ok.inj last)
    exact ⟨a, b, c, d, low, found, range, char.symm, by rw [← left]⟩
  · cases last

/-- An escape that is kept is a glyph, or two that are a surrogate pair, of one character. -/
theorem of_readEscape {s rest : List Char} {ch : Char}
    (read : readEscape .kept s = .ok (ch, rest)) :
    ∃ g : Spelling, '\\' :: s = g.chars ++ rest ∧
      ∀ later, Spelling.letters? (g ++ later) = later.letters?.map (ch :: ·) := by
  unfold readEscape at read
  split at read
  · cases read
  · next s =>
    obtain ⟨⟨n, t⟩, word, decoded⟩ := bind_eq_ok_iff.mp read
    obtain ⟨a, b, c, d, found, rfl⟩ := of_readHexWord word
    dsimp only at decoded
    split at decoded
    · cases decoded
    next notLow =>
    split at decoded
    · next high =>
      obtain ⟨a', b', c', d', low, found', isLow, char, rfl⟩ := of_readLowSurrogate decoded
      refine ⟨[.code a b c d n found, .code a' b' c' d' low found'], rfl, fun later => ?_⟩
      simp [Spelling.letters?, notLow, high, isLow, char]
    · next notHigh =>
      cases decoded
      exact ⟨[.code a b c d n found], rfl, fun later =>
        Spelling.letters?_code found notLow notHigh later⟩
  · next c s _ =>
    split at read
    · next found =>
      cases read
      exact ⟨[.letter c ch found], rfl, fun later => by simp [Spelling.letters?]⟩
    · cases read

theorem of_readStringFrom {measure done s rest : List Char} {t : String}
    (read : readStringFrom .kept measure done s = .ok (t, rest)) :
    ∃ (g : Spelling) (l : List Char), g.letters? = some l ∧
      t = String.ofList (done.reverse ++ l) ∧ s = g.chars ++ '"' :: rest := by
  induction measure generalizing done s with
  | nil => cases s <;> cases read
  | cons m measure ih =>
    rcases s with _ | ⟨c, s⟩
    · cases read
    rw [readStringFrom] at read
    split at read
    · next quote =>
      cases read
      exact ⟨[], [], rfl, by rw [List.append_nil], by rw [quote]; rfl⟩
    next notQuote =>
    split at read
    · next slash =>
      split at read
      · next ch s' escape =>
        obtain ⟨glyphs, chars, letters⟩ := of_readEscape escape
        obtain ⟨g, l, decoded, rfl, rfl⟩ := ih read
        refine ⟨glyphs ++ g, ch :: l, by rw [letters, decoded]; rfl, by simp, ?_⟩
        rw [slash, chars, Spelling.chars, Spelling.chars, Spelling.chars, List.flatMap_append,
          List.append_assoc]
      · cases read
    next notSlash =>
    split at read
    · cases read
    · next solid =>
      obtain ⟨g, l, decoded, rfl, rfl⟩ := ih read
      exact ⟨.plain c ⟨notQuote, notSlash, Nat.le_of_not_lt solid⟩ :: g, c :: l,
        by rw [Spelling.letters?, decoded]; rfl, by simp, rfl⟩

/-- A string that is read is spelled in the text, up to its closing quote. -/
theorem of_readString {s rest : List Char} {t : String}
    (read : readString .kept s = .ok (t, rest)) :
    ∃ g : Spelling, g.decode = some t ∧ s = g.chars ++ '"' :: rest := by
  obtain ⟨g, l, decoded, rfl, same⟩ := of_readStringFrom read
  exact ⟨g, by rw [Spelling.decode, decoded]; rfl, same⟩

end Strings

section Numbers

variable {care : Care} {s rest : List Char}

theorem of_splitDigits {digits : List Char} (split : splitDigits s = (digits, rest)) :
    (∀ c ∈ digits, c.isDigit = true) ∧ s = digits ++ rest := by
  cases split
  exact ⟨fun _ member => List.mem_takeWhile_imp member, List.takeWhile_append_dropWhile.symm⟩

theorem ne_ok_failInNumber {α : Type} {a : α} : failInNumber care s ≠ .ok a := by
  intro read
  cases s with
  | nil => cases care <;> cases read
  | cons c s => cases read

theorem of_readWhole {digits : List Char} (read : readWhole care s = .ok (digits, rest)) :
    (∀ c ∈ digits, c.isDigit = true) ∧
      (digits = ['0'] ∨ ∃ c more, digits = c :: more ∧ c ≠ '0') ∧ s = digits ++ rest := by
  unfold readWhole at read
  split at read
  · split at read
    · cases read
    · cases read
      exact ⟨by simp, .inl rfl, rfl⟩
  · next alone =>
    split at read
    · exact absurd read ne_ok_failInNumber
    · next digits rest' some split =>
      cases read
      obtain ⟨all, rfl⟩ := of_splitDigits split
      obtain ⟨c, more, rfl⟩ := List.exists_cons_of_ne_nil some
      refine ⟨all, ?_, rfl⟩
      by_cases zero : c = '0'
      · -- The first branch was for a zero with something after it, so this one ends the text.
        subst zero
        rcases more with _ | ⟨d, more⟩
        · exact .inl rfl
        · exact absurd rfl (alone d (more ++ rest))
      · exact .inr ⟨c, more, rfl, zero⟩

theorem of_readFraction {fraction : Option (List Char)}
    (read : readFraction care s = .ok (fraction, rest)) :
    (∀ f ∈ fraction, f ≠ [] ∧ ∀ c ∈ f, c.isDigit = true) ∧
      s = fraction.elim [] ('.' :: ·) ++ rest := by
  unfold readFraction at read
  split at read
  · split at read
    · exact absurd read ne_ok_failInNumber
    · next digits rest' some split =>
      cases read
      obtain ⟨all, rfl⟩ := of_splitDigits split
      exact ⟨by simpa using ⟨some, all⟩, rfl⟩
  · cases read
    exact ⟨nofun, rfl⟩

theorem of_readExponent {exponent : Option (Bool × List Char)}
    (read : readExponent care s = .ok (exponent, rest)) :
    (∀ e ∈ exponent, e.2 ≠ [] ∧ ∀ c ∈ e.2, c.isDigit = true) ∧
      ∃ (mark : Char) (plus : Bool), (mark = 'e' ∨ mark = 'E') ∧
        s = exponent.elim [] (fun e =>
          mark :: ((if e.1 then ['-'] else if plus then ['+'] else []) ++ e.2)) ++ rest := by
  unfold readExponent at read
  split at read
  · next mark s =>
    split at read
    · next marks =>
      -- The digits follow the sign, if there is one, or the mark.
      dsimp only at read
      split at read
      · exact absurd read ne_ok_failInNumber
      · next digits rest' some split =>
        cases read
        obtain ⟨all, same⟩ := of_splitDigits split
        refine ⟨by simpa using ⟨some, all⟩, mark, ?_⟩
        split at same
        · exact ⟨false, marks, congrArg (mark :: '-' :: ·) same⟩
        · exact ⟨true, marks, congrArg (mark :: '+' :: ·) same⟩
        · exact ⟨false, marks, congrArg (mark :: ·) same⟩
    · cases read
      exact ⟨nofun, 'e', false, .inl rfl, rfl⟩
  · cases read
    exact ⟨nofun, 'e', false, .inl rfl, rfl⟩

/-- A number that is read is spelled in the text, after its sign. -/
theorem of_readNumber {negative : Bool} {v : Number}
    (read : readNumber negative s = .ok (v, rest)) :
    ∃ n : Numeral, n.literal.negative = negative ∧ n.literal.value = .ok v ∧
      s = n.unsigned ++ rest := by
  simp only [readNumber, readLiteral, bind_eq_ok_iff] at read
  obtain ⟨⟨l, t⟩, ⟨⟨whole, s₁⟩, readWhole, ⟨fraction, s₂⟩, readFraction, ⟨exponent, s₃⟩,
    readExponent, literal⟩, last⟩ := read
  cases literal
  obtain ⟨digits, first, rfl⟩ := of_readWhole readWhole
  obtain ⟨fractions, rfl⟩ := of_readFraction readFraction
  obtain ⟨exponents, mark, plus, marks, rfl⟩ := of_readExponent readExponent
  split at last
  · next value =>
    cases last
    refine ⟨⟨⟨negative, whole, fraction, exponent⟩, ⟨digits, first, fractions, exponents⟩, mark,
      marks, plus⟩, rfl, value, ?_⟩
    simp only [Numeral.unsigned, Numeral.fraction, Numeral.exponent, List.append_assoc]
  · cases last

end Numbers

section Heads

variable {s rest : List Char}

/-- The head of a value without brackets is spelled in the text, and a bracket is left there. -/
theorem of_readHead {head : Head} (read : readHead s = .ok (head, rest)) :
    ∃ gap, Blanks gap ∧
      ((∃ p text v, Spells p text ∧ (∀ d, p.value? d = some v) ∧
          (v.head ≠ .list ∧ v.head ≠ .object) ∧ head = v.head ∧ s = gap ++ (text ++ rest)) ∨
        (head = .list ∧ ∃ more, rest = '[' :: more ∧ s = gap ++ rest) ∨
        (head = .object ∧ ∃ more, rest = '{' :: more ∧ s = gap ++ rest)) := by
  obtain ⟨gap, blank, same⟩ := exists_blanks s
  refine ⟨gap, blank, ?_⟩
  unfold readHead at read
  generalize skipBlanks s = t at read same
  subst same
  split at read
  · cases read
  · obtain ⟨t, name, there⟩ := map_eq_ok_iff.mp read
    cases there
    rw [eq_of_readName name]
    exact .inl ⟨.null, _, .null, .null, fun d => by rw [Phrase.value?], by simp [Value.head], rfl,
      rfl⟩
  · obtain ⟨t, name, there⟩ := map_eq_ok_iff.mp read
    cases there
    rw [eq_of_readName name]
    exact .inl ⟨.boolean true, _, .boolean true, .boolean true, fun d => by rw [Phrase.value?],
      by simp [Value.head], rfl, rfl⟩
  · obtain ⟨t, name, there⟩ := map_eq_ok_iff.mp read
    cases there
    rw [eq_of_readName name]
    exact .inl ⟨.boolean false, _, .boolean false, .boolean false, fun d => by rw [Phrase.value?],
      by simp [Value.head], rfl, rfl⟩
  · obtain ⟨⟨v, t⟩, number, there⟩ := map_eq_ok_iff.mp read
    cases there
    obtain ⟨n, negative, value, rfl⟩ := of_readNumber number
    refine .inl ⟨.number n, n.chars, .number v, .number n, fun d => ?_, by simp [Value.head], rfl,
      ?_⟩
    · rw [Phrase.value?, value]
      rfl
    · rw [Numeral.chars, negative]
      rfl
  · obtain ⟨⟨t, u⟩, string, there⟩ := map_eq_ok_iff.mp read
    cases there
    obtain ⟨g, decoded, rfl⟩ := of_readString string
    refine .inl ⟨.string g, _, .string t, .string g, fun d => ?_, by simp [Value.head], rfl,
      by simp⟩
    rw [Phrase.value?, decoded]
    rfl
  · cases read
    exact .inr (.inl ⟨rfl, _, rfl, rfl⟩)
  · cases read
    exact .inr (.inr ⟨rfl, _, rfl, rfl⟩)
  · split at read
    · obtain ⟨⟨v, t⟩, number, there⟩ := map_eq_ok_iff.mp read
      cases there
      obtain ⟨n, positive, value, same⟩ := of_readNumber number
      refine .inl ⟨.number n, n.chars, .number v, .number n, fun d => ?_, by simp [Value.head], rfl,
        ?_⟩
      · rw [Phrase.value?, value]
        rfl
      · rw [Numeral.chars, positive, same]
        rfl
    · cases read

theorem Value.eq_of_head {v w : Value} (closed : w.head ≠ .list ∧ w.head ≠ .object)
    (same : v.head = w.head) : v = w := by
  cases v <;> cases w <;> simp_all [head]

/-- A value without brackets that is read is spelled in the text. -/
theorem of_readHead_closed {v : Value} (closed : v.head ≠ .list ∧ v.head ≠ .object)
    (read : readHead s = .ok (v.head, rest)) (d : Nat) : ∃ gap p text, Blanks gap ∧
      Spells p text ∧ p.value? d = some v ∧ s = gap ++ (text ++ rest) := by
  obtain ⟨gap, blank, ⟨p, text, w, spells, value, shut, same, rfl⟩ | ⟨head, -⟩ | ⟨head, -⟩⟩ :=
    of_readHead read
  · obtain rfl := Value.eq_of_head shut same
    exact ⟨gap, p, text, blank, spells, value d, rfl⟩
  · exact absurd head closed.1
  · exact absurd head closed.2

theorem of_readHead_list (read : readHead s = .ok (.list, rest)) :
    ∃ gap more, Blanks gap ∧ rest = '[' :: more ∧ s = gap ++ rest := by
  obtain ⟨gap, blank, ⟨p, text, w, -, -, shut, same, -⟩ | ⟨-, more, there⟩ | ⟨head, -⟩⟩ :=
    of_readHead read
  · exact absurd same.symm shut.1
  · exact ⟨gap, more, blank, there⟩
  · cases head

theorem of_readHead_object (read : readHead s = .ok (.object, rest)) :
    ∃ gap more, Blanks gap ∧ rest = '{' :: more ∧ s = gap ++ rest := by
  obtain ⟨gap, blank, ⟨p, text, w, -, -, shut, same, -⟩ | ⟨head, -⟩ | ⟨-, more, there⟩⟩ :=
    of_readHead read
  · exact absurd same.symm shut.2
  · cases head
  · exact ⟨gap, more, blank, there⟩

end Heads

section Lists

variable {s t : List Char} {first : Bool}

theorem blanks_append {gap more : List Char} (blank : Blanks gap) (later : Blanks more) :
    Blanks (gap ++ more) := by
  intro c member
  exact (List.mem_append.mp member).elim (blank c) (later c)

/-- Blanks after a lead belong to it. -/
theorem Lead.append {lead gap : List Char} (leads : Lead first lead) (blank : Blanks gap) :
    Lead first (lead ++ gap) := by
  cases leads with
  | first before => exact .first (blanks_append before blank)
  | next before after =>
    rw [List.append_assoc, List.cons_append]
    exact .next before (blanks_append after blank)

theorem of_toItem_true (there : toItem first s = .ok (true, t)) :
    ∃ lead, Lead first lead ∧ s = lead ++ t := by
  obtain ⟨gap, blank, same⟩ := exists_blanks s
  unfold toItem at there
  generalize skipBlanks s = u at there same
  subst same
  split at there
  · cases there
  · cases there
  · next c u _ =>
    split at there
    · next opened =>
      cases there
      rw [opened]
      exact ⟨gap, .first blank, rfl⟩
    next later =>
    split at there
    · next comma =>
      obtain ⟨after, after_blank, same⟩ := exists_blanks u
      split at there
      · cases there
      · cases there
      · cases there
        rw [Bool.not_eq_true] at later
        refine ⟨gap ++ ',' :: after, later ▸ .next blank after_blank, ?_⟩
        rw [comma, List.append_assoc, List.cons_append, ← same]
    · cases there

theorem of_toItem_false (none : toItem first s = .ok (false, t)) :
    ∃ gap rest, Blanks gap ∧ t = ']' :: rest ∧ s = gap ++ t := by
  obtain ⟨gap, blank, same⟩ := exists_blanks s
  unfold toItem at none
  generalize skipBlanks s = u at none same
  subst same
  split at none
  · cases none
  · next rest =>
    cases none
    exact ⟨gap, rest, blank, rfl, rfl⟩
  · split at none
    · cases none
    split at none
    · split at none <;> cases none
    · cases none

theorem of_toKey_true (there : toKey first s = .ok (true, t)) :
    ∃ lead, Lead first lead ∧ s = lead ++ '"' :: t := by
  obtain ⟨gap, blank, same⟩ := exists_blanks s
  unfold toKey at there
  generalize skipBlanks s = u at there same
  subst same
  split at there
  · cases there
  · cases there
  · next c u _ =>
    split at there
    · next opened =>
      split at there
      · next quote =>
        cases there
        rw [opened, quote]
        exact ⟨gap, .first blank, rfl⟩
      · cases there
    next later =>
    split at there
    · next comma =>
      obtain ⟨after, after_blank, same⟩ := exists_blanks u
      generalize skipBlanks u = w at there same
      subst same
      split at there
      · cases there
      · cases there
        rw [Bool.not_eq_true] at later
        refine ⟨gap ++ ',' :: after, later ▸ .next blank after_blank, ?_⟩
        rw [comma, List.append_assoc, List.cons_append]
      · cases there
      · cases there
    · cases there

theorem of_toKey_false (none : toKey first s = .ok (false, t)) :
    ∃ gap rest, Blanks gap ∧ t = '}' :: rest ∧ s = gap ++ t := by
  obtain ⟨gap, blank, same⟩ := exists_blanks s
  unfold toKey at none
  generalize skipBlanks s = u at none same
  subst same
  split at none
  · cases none
  · next rest =>
    cases none
    exact ⟨gap, rest, blank, rfl, rfl⟩
  · split at none
    · split at none <;> cases none
    split at none
    · split at none <;> cases none
    · cases none

variable {σ : Type}

/-- A fold over items goes over a list of them, up to the closing bracket, if each of its steps
takes an item. -/
theorem of_foldItemsFrom {ι : Type} {spells : ι → List Char → Prop} {o : σ → ι → Option σ}
    {step : σ → List Char → Reading (σ × List Char)}
    (each : ∀ state next s rest, step state s = .ok (next, rest) → ∃ gap i text, Blanks gap ∧
      spells i text ∧ o state i = some next ∧ s = gap ++ (text ++ rest))
    {measure : List Char} {state last : σ} {rest : List Char}
    (folded : foldItemsFrom step measure first state s = .ok (last, rest)) :
    ∃ items inner more, Listed spells first items inner ∧ items.foldlM o state = some last ∧
      rest = ']' :: more ∧ s = inner ++ rest := by
  induction measure generalizing first state s with
  | nil => cases folded
  | cons m measure ih =>
    rw [foldItemsFrom] at folded
    split at folded
    · cases folded
    · next none =>
      cases folded
      obtain ⟨gap, more, blank, rfl, rfl⟩ := of_toItem_false none
      exact ⟨[], gap, more, .nil blank, rfl, rfl, rfl⟩
    · next t there =>
      obtain ⟨lead, leads, rfl⟩ := of_toItem_true there
      split at folded
      · cases folded
      · next next later stepped =>
        obtain ⟨gap, i, text, blank, spelled, taken, rfl⟩ := each _ _ _ _ stepped
        obtain ⟨items, inner, more, listed, run, closes, rfl⟩ := ih folded
        refine ⟨i :: items, lead ++ gap ++ (text ++ inner), more,
          .cons (leads.append blank) spelled listed, ?_, closes, by simp⟩
        rw [List.foldlM_cons, taken]
        exact run

/-- A fold over members goes over a list of them, up to the closing bracket, if each of its steps
takes a value after a colon. -/
theorem of_foldMembersFrom {o : σ → String → Phrase → Option σ}
    {step : σ → String → List Char → Reading (σ × List Char)}
    (each : ∀ state key next s rest, step state key s = .ok (next, rest) → ∃ p text,
      Assigned p text ∧ o state key p = some next ∧ s = text ++ rest)
    {measure : List Char} {state last : σ} {rest : List Char}
    (folded : foldMembersFrom step measure first state s = .ok (last, rest)) :
    ∃ members inner more, Listed (Entry Spells) first members inner ∧
      members.foldlM (takeEntry o) state = some last ∧ rest = '}' :: more ∧ s = inner ++ rest := by
  induction measure generalizing first state s with
  | nil => cases folded
  | cons m measure ih =>
    rw [foldMembersFrom] at folded
    split at folded
    · cases folded
    · next none =>
      cases folded
      obtain ⟨gap, more, blank, rfl, rfl⟩ := of_toKey_false none
      exact ⟨[], gap, more, .nil blank, rfl, rfl, rfl⟩
    · next t there =>
      obtain ⟨lead, leads, rfl⟩ := of_toKey_true there
      split at folded
      · cases folded
      next key t read =>
      obtain ⟨g, decoded, rfl⟩ := of_readString read
      split at folded
      · cases folded
      · next next later stepped =>
        obtain ⟨p, text, assigned, taken, rfl⟩ := each _ _ _ _ _ stepped
        obtain ⟨members, inner, more, listed, run, closes, rfl⟩ := ih folded
        cases assigned with
        | @mk before after text before_blank after_blank here =>
          have entry : Entry Spells (g, p) _ := .mk before_blank after_blank here
          refine ⟨(g, p) :: members, _, more, .cons leads entry listed, ?_, closes, by simp⟩
          rw [List.foldlM_cons, takeEntry, decoded]
          exact (congrArg (Option.bind · _) taken).trans run

end Lists

section Trees

theorem of_readColon {s rest : List Char} (read : readColon s = .ok rest) :
    ∃ gap, Blanks gap ∧ s = gap ++ ':' :: rest := by
  obtain ⟨gap, blank, same⟩ := exists_blanks s
  unfold readColon at read
  generalize skipBlanks s = t at read same
  subst same
  split at read
  · cases read
  · cases read
    exact ⟨gap, blank, rfl⟩
  · cases read

/-- What a reader takes off the front of a text is the text of a phrase, after some blanks. -/
def Sound {α : Type} (reader : List Char → Reading (α × List Char)) (value? : Phrase → Option α) :
    Prop :=
  ∀ s a rest, reader s = .ok (a, rest) → ∃ gap p text, Blanks gap ∧ Spells p text ∧
    value? p = some a ∧ s = gap ++ (text ++ rest)

variable {α : Type} {item : List Char → Reading (α × List Char)} {value? : Phrase → Option α}
  {s rest : List Char}

theorem Sound.readItems (sound : Sound item value?) {items : List α}
    (read : Json.readItems item s = .ok (items, rest)) :
    ∃ phrases inner, Listed Spells true phrases inner ∧ phrases.mapM value? = some items ∧
      s = inner ++ ']' :: rest := by
  rw [readItems_eq] at read
  obtain ⟨⟨done, t⟩, folded, closed⟩ := bind_eq_ok_iff.mp read
  have each : ∀ state next s rest, keepItem item state s = .ok (next, rest) → ∃ gap p text,
      Blanks gap ∧ Spells p text ∧ (value? p).map (· :: state) = some next ∧
        s = gap ++ (text ++ rest) := by
    intro state next s rest kept
    obtain ⟨⟨a, t⟩, read, there⟩ := map_eq_ok_iff.mp kept
    cases there
    obtain ⟨gap, p, text, blank, spells, value, rfl⟩ := sound _ _ _ read
    exact ⟨gap, p, text, blank, spells, by rw [value]; rfl, rfl⟩
  obtain ⟨phrases, inner, more, listed, run, rfl, rfl⟩ := of_foldItemsFrom each folded
  cases closed
  refine ⟨phrases, inner, listed, ?_, rfl⟩
  rw [List.mapM_eq_reverse_foldlM_cons]
  exact congrArg (List.reverse <$> ·) run

theorem Sound.readMembers (sound : Sound item value?) {members : List (String × α)}
    (read : Json.readMembers item s = .ok (members, rest)) :
    ∃ phrases inner, Listed (Entry Spells) true phrases inner ∧
      phrases.mapM (member? value?) = some members ∧ s = inner ++ '}' :: rest := by
  rw [readMembers_eq] at read
  obtain ⟨⟨done, t⟩, folded, closed⟩ := bind_eq_ok_iff.mp read
  have each : ∀ state key next s rest, keepMember item state key s = .ok (next, rest) →
      ∃ p text, Assigned p text ∧ (value? p).map (fun v => (key, v) :: state) = some next ∧
        s = text ++ rest := by
    intro state key next s rest kept
    rw [keepMember_eq] at kept
    obtain ⟨⟨a, t⟩, read, there⟩ := map_eq_ok_iff.mp kept
    obtain ⟨u, colon, assigned⟩ := bind_eq_ok_iff.mp read
    cases there
    obtain ⟨before, before_blank, rfl⟩ := of_readColon colon
    obtain ⟨after, p, text, after_blank, spells, value, rfl⟩ := sound _ _ _ assigned
    exact ⟨p, _, .mk before_blank after_blank spells, by rw [value]; rfl, by simp⟩
  obtain ⟨phrases, inner, more, listed, run, rfl, rfl⟩ := of_foldMembersFrom
    (o := fun state key p => (value? p).map fun v => (key, v) :: state) each folded
  cases closed
  refine ⟨phrases, inner, listed, ?_, rfl⟩
  rw [List.mapM_eq_reverse_foldlM_cons, ← takeEntry_keep]
  exact congrArg (List.reverse <$> ·) run

/-- Nothing but a phrase is read as a value, and it is read as the value that it has. -/
theorem sound_readTree (d : Nat) : Sound (readTree d) (Phrase.value? d) := by
  induction d using Nat.strongRecOn with
  | ind d ih =>
    intro s v rest read
    rw [readTree] at read
    split at read
    · cases read
    · next head =>
      cases read
      exact of_readHead_closed (v := .null) (by simp [Value.head]) head d
    · next b t head =>
      cases read
      exact of_readHead_closed (v := .boolean b) (by simp [Value.head]) head d
    · next n t head =>
      cases read
      exact of_readHead_closed (v := .number n) (by simp [Value.head]) head d
    · next g t head =>
      cases read
      exact of_readHead_closed (v := .string g) (by simp [Value.head]) head d
    · next t head =>
      rcases d with _ | d
      · cases read
      obtain ⟨gap, more, blank, rfl, rfl⟩ := of_readHead_list head
      obtain ⟨⟨items, u⟩, inside, there⟩ := map_eq_ok_iff.mp read
      cases there
      obtain ⟨phrases, inner, listed, values, same⟩ := (ih d (Nat.lt_succ_self d)).readItems inside
      obtain rfl : more = inner ++ ']' :: rest := same
      refine ⟨gap, .list phrases, _, blank, .list listed, ?_, by simp⟩
      rw [Phrase.value?, values]
      rfl
    · next t head =>
      rcases d with _ | d
      · cases read
      obtain ⟨gap, more, blank, rfl, rfl⟩ := of_readHead_object head
      obtain ⟨⟨members, u⟩, inside, there⟩ := map_eq_ok_iff.mp read
      cases there
      obtain ⟨phrases, inner, listed, values, same⟩ :=
        (ih d (Nat.lt_succ_self d)).readMembers inside
      obtain rfl : more = inner ++ '}' :: rest := same
      refine ⟨gap, .object phrases, _, blank, .object listed, ?_, by simp⟩
      rw [Phrase.value?, values]
      rfl

end Trees

/-- A text is read as a value that opens no more than so many brackets inside each other, and
nothing but blanks is left. -/
def Parses (d : Nat) (text : List Char) (v : Value) : Prop :=
  ∃ rest, readTree d text = .ok (v, rest) ∧ closeText rest = .ok ()

/-- The texts of a phrase with blanks around it. -/
inductive Stands (p : Phrase) : List Char → Prop
  | mk {before text after : List Char} (before_blank : Blanks before) (here : Spells p text)
      (after_blank : Blanks after) : Stands p (before ++ (text ++ after))

theorem closeText_eq_ok_iff {rest : List Char} : closeText rest = .ok () ↔ Blanks rest := by
  constructor
  · intro closed
    obtain ⟨gap, blank, same⟩ := exists_blanks rest
    unfold closeText at closed
    generalize skipBlanks rest = s at closed same
    split at closed
    · rw [same, List.append_nil]
      exact blank
    · cases closed
  · exact closeText_gap

theorem delimited_blanks {gap : List Char} (blank : Blanks gap) : Delimited gap := by
  have follows := delimited_gap blank [] delimited_nil
  rwa [List.append_nil] at follows

section

variable {d : Nat} {text : List Char} {v : Value} {p : Phrase}

theorem Stands.read (stands : Stands p text) (d : Nat) : ∃ after, Blanks after ∧
    (readTree d text).toOption = (p.value? d).map (·, after) := by
  cases stands with
  | @mk before text after before_blank here after_blank =>
    rw [readTree_gap before_blank]
    exact ⟨after, after_blank, yields_readTree d here after (delimited_blanks after_blank)⟩

/-- The texts that are read as a value are those of the phrases that have it. -/
theorem parses_iff : Parses d text v ↔ ∃ p, Stands p text ∧ p.value? d = some v := by
  constructor
  · rintro ⟨rest, read, closed⟩
    obtain ⟨gap, p, text, blank, spells, value, rfl⟩ := sound_readTree d _ _ _ read
    exact ⟨p, .mk blank spells (closeText_eq_ok_iff.mp closed), value⟩
  · rintro ⟨p, stands, value⟩
    obtain ⟨after, blank, read⟩ := stands.read d
    rw [value] at read
    exact ⟨after, toOption_eq_some_iff.mp read, closeText_gap blank⟩

/-- However a text is taken for a phrase, the phrase has the value that is read. -/
theorem Parses.value (parses : Parses d text v) (stands : Stands p text) : p.value? d = some v := by
  obtain ⟨rest, there, -⟩ := parses
  obtain ⟨after, blank, read⟩ := stands.read d
  rw [there] at read
  obtain ⟨w, value, same⟩ := Option.map_eq_some_iff.mp read.symm
  rw [value, (Prod.mk.inj same).1]

end

section Composed

/-- The texts of a member with this key, spelled in any way, and this text for its value. -/
inductive Paired : String × List Char → List Char → Prop
  | mk {g : Spelling} {key : String} {before text : List Char} (named : g.decode = some key)
      (blank : Blanks before) :
      Paired (key, text) ('"' :: (g.chars ++ '"' :: (before ++ ':' :: text)))

/-- The texts of an object with these members, in this order. -/
inductive Composed (members : List (String × List Char)) : List Char → Prop
  | mk {before inner after : List Char} (before_blank : Blanks before) (after_blank : Blanks after)
      (listed : Listed Paired true members inner) :
      Composed members (before ++ ('{' :: (inner ++ ['}']) ++ after))

/-- A member as it is spelled is one of this key and this text. -/
def Fits (m : String × List Char) (e : Spelling × Phrase) : Prop :=
  e.1.decode = some m.1 ∧ Stands e.2 m.2

theorem Listed.absorb {ι : Type} {spells : ι → List Char → Prop} {items : List ι}
    {inner gap : List Char} (listed : Listed spells false items inner) (blank : Blanks gap) :
    Listed spells false items (gap ++ inner) := by
  cases listed with
  | nil later => exact .nil (blanks_append blank later)
  | cons leads here there =>
    cases leads with
    | next before_blank after_blank =>
      have lead := Lead.next (blanks_append blank before_blank) after_blank
      simpa only [List.append_assoc] using Listed.cons lead here there

/-- The members of an object are entries of it, if their texts are those of phrases. -/
theorem Listed.entries {first : Bool} {members : List (String × List Char)} {inner : List Char}
    (listed : Listed Paired first members inner) (each : ∀ m ∈ members, ∃ p, Stands p m.2) :
    ∃ entries, Listed (Entry Spells) first entries inner ∧ List.Forall₂ Fits members entries := by
  induction listed with
  | nil blank => exact ⟨[], .nil blank, .nil⟩
  | @cons first m members lead text later leads here there ih =>
    obtain ⟨entries, listed, fits⟩ := ih fun m member => each m (List.mem_cons_of_mem _ member)
    obtain ⟨p, stands⟩ := each m List.mem_cons_self
    cases here with
    | @mk g key before _ named blank =>
      cases stands with
      | @mk front body back front_blank spells back_blank =>
        -- The blanks after the value stand in front of what follows it.
        have entry : Entry Spells (g, p) _ := .mk blank front_blank spells
        refine ⟨(g, p) :: entries, ?_, .cons ⟨named, .mk front_blank spells back_blank⟩ fits⟩
        simpa using Listed.cons leads entry (listed.absorb back_blank)

end Composed

end LiveRelay.Json
