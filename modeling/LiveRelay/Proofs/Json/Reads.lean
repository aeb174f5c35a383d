import LiveRelay.Proofs.Json.Spelling

/-! # Reading scalars back

A reader is given everything that is left of a text, so a statement about what it makes of a value
is about all texts that go on after that value. Inside a frame a value is followed by a blank, a
comma or a closing bracket, and no digit, point or exponent mark may be taken for a part of it.
-/

namespace LiveRelay.Json

/-- What may follow a value. -/
def Delimited (rest : List Char) : Prop :=
  ∀ c ∈ rest.head?, isBlank c = true ∨ c = ',' ∨ c = ']' ∨ c = '}'

theorem delimited_nil : Delimited [] := nofun

theorem delimited_cons {c : Char} (mark : c = ',' ∨ c = ']' ∨ c = '}') (rest : List Char) :
    Delimited (c :: rest) := by
  rintro d ⟨⟩
  exact .inr mark

theorem isBlank_iff {c : Char} :
    isBlank c = true ↔ c = ' ' ∨ c = '\t' ∨ c = '\n' ∨ c = '\r' := by
  simp [isBlank, or_assoc]

/-- Nothing that may follow a value goes on with a number. -/
theorem Delimited.head {rest : List Char} (delimited : Delimited rest) {c : Char}
    (first : c ∈ rest.head?) : c.isDigit = false ∧ c ≠ '.' ∧ c ≠ 'e' ∧ c ≠ 'E' := by
  rcases delimited c first with blank | rfl | rfl | rfl
  · rcases isBlank_iff.mp blank with rfl | rfl | rfl | rfl <;> decide
  all_goals decide

section

variable {α : Type} (reader : List Char → Reading (α × List Char)) (text : List Char)

/-- A reader reads a text as a value, whatever follows. -/
def Reads (a : α) : Prop := ∀ rest, Delimited rest → reader (text ++ rest) = .ok (a, rest)

/-- A reader fails inside a text, whatever follows. -/
def Rejects : Prop := ∀ rest, Delimited rest → ∃ f, reader (text ++ rest) = .error f

/-- A reader reads a text as some value under a condition, and fails inside it otherwise. -/
structure Decides (p : Prop) : Prop where
  reads : p → ∃ a, Reads reader text a
  rejects : ¬ p → Rejects reader text

end

section

variable {α : Type} {reader : List Char → Reading (α × List Char)} {text : List Char} {a : α}

theorem Reads.decides (reads : Reads reader text a) {p : Prop} (holds : p) :
    Decides reader text p := ⟨fun _ => ⟨a, reads⟩, absurd holds⟩

theorem Rejects.decides (rejects : Rejects reader text) {p : Prop} (fails : ¬ p) :
    Decides reader text p := ⟨fun holds => absurd holds fails, fun _ => rejects⟩

theorem Decides.iff {p q : Prop} (decides : Decides reader text p) (same : p ↔ q) :
    Decides reader text q := propext same ▸ decides

end

theorem skipBlanks_cons {c : Char} (solid : isBlank c = false) (s : List Char) :
    skipBlanks (c :: s) = c :: s := by
  simp [skipBlanks, solid]

/-- A text that goes on without a digit. -/
def Undigit (rest : List Char) : Prop := ∀ c ∈ rest.head?, c.isDigit = false

theorem splitDigits_append {digits rest : List Char} (all : ∀ c ∈ digits, c.isDigit = true)
    (ends : Undigit rest) : splitDigits (digits ++ rest) = (digits, rest) := by
  have none : rest.takeWhile Char.isDigit = [] ∧ rest.dropWhile Char.isDigit = rest := by
    cases rest with
    | nil => exact ⟨rfl, rfl⟩
    | cons c rest => simp [ends c rfl]
  rw [splitDigits, List.takeWhile_append_of_pos all, List.dropWhile_append_of_pos all, none.1,
    none.2, List.append_nil]

theorem Delimited.undigit {rest : List Char} (delimited : Delimited rest) : Undigit rest := by
  intro c first
  exact (delimited.head first).1

/-- A literal as it may be spelled: the mark of its exponent is a small or a capital letter, and an
exponent that is not negative may show its sign. -/
structure Numeral where
  literal : Literal
  written : literal.Written
  mark : Char
  marks : mark = 'e' ∨ mark = 'E'
  plus : Bool

namespace Numeral

/-- The fraction of a numeral. -/
def fraction (n : Numeral) : List Char := n.literal.fraction.elim [] ('.' :: ·)

/-- The exponent of a numeral. -/
def exponent (n : Numeral) : List Char :=
  n.literal.exponent.elim [] fun e =>
    n.mark :: ((if e.1 then ['-'] else if n.plus then ['+'] else []) ++ e.2)

/-- A numeral without its sign. -/
def unsigned (n : Numeral) : List Char := n.literal.whole ++ (n.fraction ++ n.exponent)

/-- A numeral. -/
def chars (n : Numeral) : List Char := (if n.literal.negative then ['-'] else []) ++ n.unsigned

/-- A literal as it is written. -/
def ofWritten {l : Literal} (written : l.Written) : Numeral := ⟨l, written, 'e', .inl rfl, true⟩

theorem chars_ofWritten {l : Literal} (written : l.Written) :
    (ofWritten written).chars = l.signed := by
  simp only [chars, unsigned, fraction, exponent, ofWritten, Literal.signed, Literal.chars,
    List.append_assoc]
  congr 3
  cases l.exponent with
  | none => rfl
  | some e =>
    obtain ⟨negative, digits⟩ := e
    cases negative <;> rfl

end Numeral

section

variable {l : Literal} {rest : List Char}

theorem readWhole_written (written : l.Written) (care : Care) (ends : Undigit rest) :
    readWhole care (l.whole ++ rest) = .ok (l.whole, rest) := by
  have digits := splitDigits_append written.digits ends
  rcases written.whole with zero | ⟨c, more, whole, nonzero⟩
  · rw [zero]
    cases rest with
    | nil => rfl
    | cons d rest => simp [readWhole, ends d rfl]
  · rw [whole] at digits ⊢
    unfold readWhole
    split
    · next heading => exact absurd (List.cons.inj heading).1 nonzero
    · rw [digits]

theorem readFraction_written (written : l.Written) (care : Care) (ends : Undigit rest)
    (pointless : rest.head? ≠ some '.') :
    readFraction care (l.fraction.elim [] ('.' :: ·) ++ rest) = .ok (l.fraction, rest) := by
  cases fraction : l.fraction with
  | none =>
    cases rest with
    | nil => rfl
    | cons c rest =>
      have other : c ≠ '.' := fun same => pointless (by rw [same, List.head?_cons])
      simp [readFraction, other]
  | some f =>
    obtain ⟨some, digits⟩ := written.fraction f fraction
    have split := splitDigits_append digits ends
    obtain ⟨c, f, rfl⟩ := List.exists_cons_of_ne_nil some
    simp only [Option.elim_some, List.cons_append, readFraction] at split ⊢
    rw [split]

/-- Every spelling of an exponent is read as the exponent. -/
theorem readExponent_numeral (n : Numeral) (care : Care) (delimited : Delimited rest) :
    readExponent care (n.exponent ++ rest) = .ok (n.literal.exponent, rest) := by
  unfold Numeral.exponent
  cases exponent : n.literal.exponent with
  | none =>
    cases rest with
    | nil => rfl
    | cons c rest =>
      obtain ⟨-, -, small, capital⟩ := delimited.head (List.head?_cons ..)
      simp [readExponent, small, capital]
  | some e =>
    obtain ⟨negative, digits⟩ := e
    obtain ⟨some, all⟩ := n.written.exponent _ exponent
    obtain ⟨c, more, rfl⟩ := List.exists_cons_of_ne_nil some
    have split := splitDigits_append all delimited.undigit
    have unsigned : c ≠ '-' ∧ c ≠ '+' := by
      constructor <;>
      · rintro rfl
        cases all _ List.mem_cons_self
    cases negative <;> cases plus : n.plus <;> simp_all [readExponent, n.marks]

/-- Every spelling of a number is read as the number. -/
theorem readLiteral_numeral (n : Numeral) (care : Care) (delimited : Delimited rest) :
    readLiteral care n.literal.negative (n.unsigned ++ rest) = .ok (n.literal, rest) := by
  have exponent := readExponent_numeral n care delimited
  have first : ∀ c ∈ (n.exponent ++ rest).head?, c.isDigit = false ∧ c ≠ '.' := by
    intro c first
    unfold Numeral.exponent at first
    cases exponent : n.literal.exponent with
    | none =>
      obtain ⟨digit, point, -⟩ := delimited.head (c := c) (by simpa [exponent] using first)
      exact ⟨digit, point⟩
    | some e =>
      obtain rfl : n.mark = c := by simpa [exponent] using first
      rcases n.marks with mark | mark <;> rw [mark] <;> decide
  have fraction : readFraction care (n.fraction ++ (n.exponent ++ rest)) =
      .ok (n.literal.fraction, n.exponent ++ rest) :=
    readFraction_written n.written care (fun c member => (first c member).1)
      fun point => (first _ point).2 rfl
  have whole : readWhole care (n.literal.whole ++ (n.fraction ++ (n.exponent ++ rest))) =
      .ok (n.literal.whole, n.fraction ++ (n.exponent ++ rest)) := by
    refine readWhole_written n.written care fun c member => ?_
    unfold Numeral.fraction at member
    cases fraction : n.literal.fraction with
    | none => exact (first c (by simpa [fraction] using member)).1
    | some f =>
      obtain rfl : '.' = c := by simpa [fraction] using member
      rfl
  rw [Numeral.unsigned, List.append_assoc, List.append_assoc, readLiteral]
  simp only [whole, fraction, exponent, bind, Except.bind, pure, Except.pure]

/-- A numeral begins with its sign or a digit. -/
theorem Numeral.begins (n : Numeral) : ∃ c more, n.chars = c :: more ∧
    (n.literal.negative = true ∧ c = '-' ∧ more = n.unsigned ∨
      n.literal.negative = false ∧ c.isDigit = true ∧ c :: more = n.unsigned) := by
  cases negative : n.literal.negative with
  | true => exact ⟨'-', n.unsigned, by simp [chars, negative], by simp⟩
  | false =>
    obtain ⟨c, more, whole⟩ : ∃ c more, n.literal.whole = c :: more := by
      rcases n.written.whole with zero | ⟨c, more, whole, -⟩
      · exact ⟨_, _, zero⟩
      · exact ⟨_, _, whole⟩
    have digit := n.written.digits c (whole ▸ List.mem_cons_self)
    exact ⟨c, _, by rw [chars, unsigned, whole, negative]; rfl,
      .inr ⟨rfl, digit, by rw [unsigned, whole]; rfl⟩⟩

theorem isBlank_of_isDigit {c : Char} (digit : c.isDigit = true) : isBlank c = false := by
  cases blank : isBlank c with
  | false => rfl
  | true =>
    simp only [isBlank, Bool.or_eq_true, beq_iff_eq] at blank
    rcases blank with ((rfl | rfl) | rfl) | rfl <;> cases digit

theorem readHead_digit {c : Char} (digit : c.isDigit = true) (s : List Char) :
    readHead (c :: s) = (readNumber false (c :: s)).map fun (n, s) => (.number n, s) := by
  have other (d : Char) (letter : d.isDigit = false) : c ≠ d := by
    rintro rfl
    cases digit.symm.trans letter
  simp [readHead, skipBlanks_cons (isBlank_of_isDigit digit), digit, other 'n' rfl, other 't' rfl,
    other 'f' rfl, other '-' rfl, other '"' rfl, other '[' rfl, other '{' rfl]

theorem readHead_minus (s : List Char) :
    readHead ('-' :: s) = (readNumber true s).map fun (n, s) => (.number n, s) := rfl

/-- A numeral is read as the value of its literal. -/
theorem readHead_numeral (n : Numeral) (delimited : Delimited rest) :
    (readHead (n.chars ++ rest)).toOption =
      n.literal.value.toOption.map fun v => (.number v, rest) := by
  have literal := readLiteral_numeral n .kept delimited
  have number : (readNumber n.literal.negative (n.unsigned ++ rest)).toOption =
      n.literal.value.toOption.map (·, rest) := by
    simp only [readNumber, literal, bind, Except.bind]
    cases n.literal.value <;> rfl
  have head : readHead (n.chars ++ rest) =
      (readNumber n.literal.negative (n.unsigned ++ rest)).map fun (v, s) => (.number v, s) := by
    obtain ⟨c, more, chars, ⟨negative, rfl, rfl⟩ | ⟨positive, digit, unsigned⟩⟩ := n.begins
    · rw [chars, negative, List.cons_append, readHead_minus]
    · rw [chars, positive, ← unsigned, List.cons_append, readHead_digit digit]
  rw [head, toOption_map, number, Option.map_map]
  rfl

/-- A literal that has a value is read as that value. -/
theorem reads_literal (written : l.Written) {n : Number} (value : l.value = .ok n) :
    Reads readHead l.signed (.number n) := by
  intro rest delimited
  have read := readHead_numeral (.ofWritten written) delimited
  rw [Numeral.chars_ofWritten] at read
  exact toOption_eq_some_iff.mp (read.trans (by rw [Numeral.ofWritten, value]; rfl))

end

/-- A string is read as it is written, whatever follows. -/
theorem readHead_quoted (s : String) (rest : List Char) :
    readHead (quoted s ++ rest) = .ok (.string s, rest) := by
  rw [quoted, List.cons_append, List.append_assoc, List.singleton_append, readHead,
    skipBlanks_cons rfl]
  simp [readString_quoted, Except.map]

theorem reads_string (s : String) : Reads readHead (quoted s) (.string s) :=
  fun rest _ => readHead_quoted s rest

theorem reads_null : Reads readHead ['n', 'u', 'l', 'l'] .null := fun _ _ => rfl

theorem reads_boolean (b : Bool) : Reads readHead (Value.boolean b).chars (.boolean b) := by
  intro rest _
  cases b <;> rfl

theorem reads_word (n : UInt64) :
    Reads readHead (numberText (.unsigned n)).toList (.number (.unsigned n)) := by
  rw [numberText_unsigned]
  have value := Literal.value_ofNat false n.toNat_lt
  rw [Literal.integer, if_neg (by decide), UInt64.ofNat_toNat] at value
  exact reads_literal (Literal.written_ofNat false _) value

/-- A finite double is read as the value of the literal that it is written as. -/
theorem reads_real {x : Binary64} (finite : x.isFinite = true) :
    Reads readHead (realText x).toList (.number (.real x.reread)) := by
  rw [toList_realText finite]
  exact reads_literal (Binary64.written_literal finite _) (Binary64.value_reread finite)

/-- A negative integer of one machine word keeps its value. -/
theorem reads_negative (i : Int64) (below : i < 0) :
    Reads readHead (numberText (.negative i below)).toList (.number (.negative i below)) := by
  have least := i.le_toInt
  have most : i.toInt < 0 := by simpa using Int64.lt_iff_toInt_lt.mp below
  have fits : i.toInt.natAbs < UInt64.size := by
    unfold UInt64.size
    omega
  have size : -(i.toInt.natAbs : Int) = i.toInt := by omega
  have kept : Literal.integer true i.toInt.natAbs = .negative i below := by
    have range : i.toInt.natAbs ≤ Binary64.signWeight := by
      change i.toInt.natAbs ≤ 2 ^ 63
      omega
    simp only [Literal.integer, if_true, size, Int64.ofInt_toInt, range, below, and_self, dif_pos]
  have value := Literal.value_ofNat true fits
  rw [kept] at value
  have text : (numberText (.negative i below)).toList =
      (Literal.ofNat true i.toInt.natAbs).signed := by
    simp [numberText, Literal.signed_ofNat]
  rw [text]
  exact reads_literal (Literal.written_ofNat true _) value

namespace Value

/-- What a number is read back as. A finite double may become another one, and a double that is not
finite is written as `null`. -/
def rereadNumber : Number → Value
  | .real x => if x.isFinite then .number (.real x.reread) else .null
  | n => .number n

mutual

/-- What a value is read back as. -/
def reread : Value → Value
  | .number n => rereadNumber n
  | .list items => .list (rereadItems items)
  | .object members => .object (rereadMembers members)
  | v => v

/-- What the items of a list are read back as. -/
def rereadItems : List Value → List Value
  | [] => []
  | v :: rest => v.reread :: rereadItems rest

/-- What the members of an object are read back as. -/
def rereadMembers : List (String × Value) → List (String × Value)
  | [] => []
  | (key, v) :: rest => (key, v.reread) :: rereadMembers rest

end

theorem rereadItems_eq (items : List Value) : rereadItems items = items.map reread := by
  induction items with
  | nil => rfl
  | cons v rest ih => rw [rereadItems, ih, List.map_cons]

theorem rereadMembers_eq (members : List (String × Value)) :
    rereadMembers members = members.map fun m => (m.1, m.2.reread) := by
  induction members with
  | nil => rfl
  | cons m rest ih => rw [rereadMembers, ih, List.map_cons]

end Value

theorem reads_number (n : Number) :
    Reads readHead (numberText n).toList (Value.rereadNumber n).head := by
  cases n with
  | unsigned n => exact reads_word n
  | negative i below => exact reads_negative i below
  | real x =>
    cases finite : x.isFinite with
    | true =>
      rw [Value.rereadNumber, if_pos finite]
      exact reads_real finite
    | false =>
      rw [Value.rereadNumber, if_neg (Bool.not_eq_true _ ▸ finite), numberText,
        realText_of_infinite finite]
      exact reads_null

/-- A value that opens no brackets is read back as one. -/
theorem Value.closed_reread {v : Value} (closed : v.head ≠ .list ∧ v.head ≠ .object) :
    v.reread.head ≠ .list ∧ v.reread.head ≠ .object := by
  cases v with
  | list items => exact absurd rfl closed.1
  | object members => exact absurd rfl closed.2
  | null | boolean b | string s => simp [reread, head]
  | number n =>
    cases n with
    | unsigned n => simp [reread, rereadNumber, head]
    | negative i below => simp [reread, rereadNumber, head]
    | real x => cases finite : x.isFinite <;> simp [reread, rereadNumber, finite, head]

theorem reads_head {v : Value} (closed : v.head ≠ .list ∧ v.head ≠ .object) :
    Reads readHead v.chars v.reread.head := by
  cases v with
  | list items => exact absurd rfl closed.1
  | object members => exact absurd rfl closed.2
  | null => exact reads_null
  | boolean b => exact reads_boolean b
  | string s => exact reads_string s
  | number n => exact reads_number n

/-- A value begins with a character that is no blank and ends no list. -/
theorem Value.chars_begin (v : Value) :
    ∃ c more, v.chars = c :: more ∧ isBlank c = false ∧ c ≠ ']' := by
  cases v with
  | null => exact ⟨_, _, rfl, rfl, by decide⟩
  | boolean b => cases b <;> exact ⟨_, _, rfl, rfl, by decide⟩
  | string s => exact ⟨_, _, rfl, rfl, by decide⟩
  | list items => exact ⟨_, _, rfl, rfl, by decide⟩
  | object members => exact ⟨_, _, rfl, rfl, by decide⟩
  | number n =>
    rcases numberText_eq n with ⟨x, rfl, infinite⟩ | ⟨l, m, written, -, text⟩
    · exact ⟨_, _, realText_of_infinite infinite, rfl, by decide⟩
    · obtain ⟨c, more, chars, begins⟩ := (Numeral.ofWritten written).begins
      refine ⟨c, more, text.trans ((Numeral.chars_ofWritten written).symm.trans chars), ?_⟩
      rcases begins with ⟨-, rfl, -⟩ | ⟨-, digit, -⟩
      · exact ⟨rfl, by decide⟩
      · exact ⟨isBlank_of_isDigit digit, by rintro rfl; cases digit⟩

end LiveRelay.Json
