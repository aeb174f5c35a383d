import LiveRelay.Json.Token
import LiveRelay.Proofs.Json.Text

/-! # Every way to write a string

A string may be spelled with letters and codes after backslashes, and a code may be half of a
surrogate pair. A string that is kept is read as the characters of its spelling, if they are
characters at all; a string that is passed over needs no characters. What is written for a string is
one of its spellings.
-/

namespace LiveRelay.Json

section

variable {ε α β : Type}

theorem toOption_eq_some_iff {x : Except ε α} {a : α} :
    x.toOption = some a ↔ x = .ok a := by
  cases x <;> simp [Except.toOption]

theorem toOption_map (x : Except ε α) (f : α → β) :
    (x.map f).toOption = x.toOption.map f := by
  cases x <;> rfl

theorem toOption_bind (x : Except ε α) (f : α → Except ε β) :
    (x >>= f).toOption = x.toOption.bind fun a => (f a).toOption := by
  cases x <;> rfl

end

/-- A piece of a string between its quotes: a character that stands for itself, a letter after a
backslash, or four hexadecimal digits after a backslash and a letter. -/
inductive Glyph where
  | plain (c : Char) (solid : c ≠ '"' ∧ c ≠ '\\' ∧ 0x20 ≤ c.toNat)
  | letter (l c : Char) (found : escaped? l = some c)
  | code (a b c d : Char) (n : Nat) (found : hexWord? a b c d = some n)

/-- A glyph as it stands in a text. -/
def Glyph.chars : Glyph → List Char
  | .plain c _ => [c]
  | .letter l _ _ => ['\\', l]
  | .code a b c d _ _ => ['\\', 'u', a, b, c, d]

/-- A string as it is spelled between its quotes. -/
abbrev Spelling := List Glyph

namespace Spelling

/-- A spelling as it stands in a text, without the quotes. -/
def chars (g : Spelling) : List Char := g.flatMap Glyph.chars

theorem chars_cons (glyph : Glyph) (g : Spelling) :
    chars (glyph :: g) = glyph.chars ++ chars g := List.flatMap_cons

/-- The characters of a spelling. The codes of two surrogates that follow each other are one
character, and no other surrogate is one. -/
def letters? : Spelling → Option (List Char)
  | [] => some []
  | .plain c _ :: rest => (letters? rest).map (c :: ·)
  | .letter _ c _ :: rest => (letters? rest).map (c :: ·)
  | .code _ _ _ _ n _ :: rest =>
    if 0xDC00 ≤ n ∧ n ≤ 0xDFFF then none
    else if 0xD800 ≤ n ∧ n ≤ 0xDBFF then
      match rest with
      | .code _ _ _ _ low _ :: rest =>
        if 0xDC00 ≤ low ∧ low ≤ 0xDFFF then
          (letters? rest).map (Char.ofNat (0x10000 + (n - 0xD800) * 0x400 + (low - 0xDC00)) :: ·)
        else none
      | _ => none
    else (letters? rest).map (Char.ofNat n :: ·)

/-- A code that is no surrogate is a character. -/
theorem letters?_code {a b c d : Char} {n : Nat} (found : hexWord? a b c d = some n)
    (notLow : ¬ (0xDC00 ≤ n ∧ n ≤ 0xDFFF)) (notHigh : ¬ (0xD800 ≤ n ∧ n ≤ 0xDBFF))
    (g : Spelling) :
    letters? (.code a b c d n found :: g) = (letters? g).map (Char.ofNat n :: ·) := by
  rw [letters?.eq_def]
  simp only [if_neg notLow, if_neg notHigh]

/-- The string of a spelling. -/
def decode (g : Spelling) : Option String := g.letters?.map String.ofList

end Spelling

section

variable {care : Care} {a b c d l : Char} {n : Nat}

theorem readEscape_of_escaped? (found : escaped? l = some c) (s : List Char) :
    readEscape care (l :: s) = .ok (c, s) := by
  have letter : l ≠ 'u' := by
    rintro rfl
    cases found
  rw [readEscape, found]
  exact letter

theorem readHexWord_cons (found : hexWord? a b c d = some n) (s : List Char) :
    readHexWord (a :: b :: c :: d :: s) = .ok (n, s) := by
  simp only [readHexWord, found]

theorem readEscape_code_kept (found : hexWord? a b c d = some n) (s : List Char) :
    readEscape .kept ('u' :: a :: b :: c :: d :: s) =
      if 0xDC00 ≤ n ∧ n ≤ 0xDFFF then failAt .loneSurrogate s
      else if 0xD800 ≤ n ∧ n ≤ 0xDBFF then readLowSurrogate n s
      else .ok (Char.ofNat n, s) := by
  simp only [readEscape, readHexWord_cons found, bind, Except.bind, pure, Except.pure]

theorem readLowSurrogate_code (high : Nat) (found : hexWord? a b c d = some n) (s : List Char) :
    readLowSurrogate high ('\\' :: 'u' :: a :: b :: c :: d :: s) =
      if 0xDC00 ≤ n ∧ n ≤ 0xDFFF then
        .ok (Char.ofNat (0x10000 + (high - 0xD800) * 0x400 + (n - 0xDC00)), s)
      else failAt .loneSurrogate s := by
  simp only [readLowSurrogate, readPairMark, readHexWord_cons found, bind, Except.bind, pure,
    Except.pure, if_true]

/-- The second half of a surrogate pair is missed in front of anything but a code. -/
theorem readLowSurrogate_other (high : Nat) {g : Spelling}
    (other : ∀ a b c d low found rest, g ≠ .code a b c d low found :: rest) (s : List Char) :
    (readLowSurrogate high (g.chars ++ '"' :: s)).toOption = none := by
  have mark {c : Char} (other : c ≠ '\\') (s : List Char) :
      (readLowSurrogate high (c :: s)).toOption = none := by
    simp only [readLowSurrogate, readPairMark, if_neg other]
    rfl
  cases g with
  | nil => exact mark (by decide) s
  | cons glyph rest =>
    cases glyph with
    | plain c solid => exact mark solid.2.1 _
    | letter l c found =>
      have letter : l ≠ 'u' := by
        rintro rfl
        cases found
      simp only [Spelling.chars, List.flatMap_cons, Glyph.chars, List.cons_append, readLowSurrogate,
        readPairMark, if_true, bind, Except.bind, if_neg letter]
      rfl
    | code a b c d low found => exact absurd rfl (other a b c d low found rest)

variable {m : Char} {measure done rest : List Char}

theorem readStringFrom_quote (m : Char) (measure done rest : List Char) :
    readStringFrom care (m :: measure) done ('"' :: rest) =
      .ok (String.ofList done.reverse, rest) := by
  cases care <;> rw [readStringFrom, if_pos rfl]

theorem readStringFrom_plain (solid : c ≠ '"' ∧ c ≠ '\\' ∧ 0x20 ≤ c.toNat) (s : List Char) :
    readStringFrom care (m :: measure) done (c :: s) =
      readStringFrom care measure (c :: done) s := by
  cases care <;>
    rw [readStringFrom, if_neg solid.1, if_neg solid.2.1, if_neg (Nat.not_lt.mpr solid.2.2)]

theorem readStringFrom_escape (m : Char) (measure done s : List Char) :
    readStringFrom care (m :: measure) done ('\\' :: s) =
      readEscape care s >>= fun (d, s) => readStringFrom care measure (d :: done) s := by
  have slash : '\\' ≠ '"' := by decide
  cases care <;> rw [readStringFrom, if_neg slash, if_pos rfl]
  · cases readEscape .kept s <;> rfl
  · cases readEscape .passedOver s <;> rfl

theorem readStringFrom_code (found : hexWord? a b c d = some n) (s : List Char) :
    readStringFrom .kept (m :: measure) done ('\\' :: 'u' :: a :: b :: c :: d :: s) =
      (if 0xDC00 ≤ n ∧ n ≤ 0xDFFF then failAt .loneSurrogate s
        else if 0xD800 ≤ n ∧ n ≤ 0xDBFF then readLowSurrogate n s
        else .ok (Char.ofNat n, s)) >>=
      fun (d, s) => readStringFrom .kept measure (d :: done) s := by
  rw [readStringFrom_escape, readEscape_code_kept found]

/-- A spelled string is read as the characters of its spelling, if it has any. -/
theorem toOption_readStringFrom (g : Spelling) (long : g.length < measure.length)
    (done rest : List Char) :
    (readStringFrom .kept measure done (g.chars ++ '"' :: rest)).toOption =
      g.letters?.map fun l => (String.ofList (done.reverse ++ l), rest) := by
  -- One round of the loop reads one glyph, except that it reads both halves of a surrogate pair.
  induction g using Spelling.letters?.induct generalizing measure done with
  | case1 =>
    obtain ⟨m, measure, rfl⟩ := List.exists_cons_of_length_pos long
    simp [Spelling.chars, readStringFrom_quote, Spelling.letters?, Except.toOption]
  | case2 c solid g ih =>
    obtain ⟨m, measure, rfl⟩ := List.exists_cons_of_length_pos (Nat.zero_lt_of_lt long)
    have later := ih (Nat.lt_of_succ_lt_succ long) (c :: done)
    rw [Spelling.chars_cons, Glyph.chars, List.append_assoc, List.singleton_append,
      readStringFrom_plain solid, later, Spelling.letters?, Option.map_map]
    simp [Function.comp_def]
  | case3 l c found g ih =>
    obtain ⟨m, measure, rfl⟩ := List.exists_cons_of_length_pos (Nat.zero_lt_of_lt long)
    have later := ih (Nat.lt_of_succ_lt_succ long) (c :: done)
    rw [Spelling.chars_cons, Glyph.chars, List.append_assoc, List.cons_append,
      List.singleton_append, readStringFrom_escape, readEscape_of_escaped? found,
      Spelling.letters?, Option.map_map]
    refine later.trans ?_
    simp [Function.comp_def]
  | case4 a b c d n found g low =>
    obtain ⟨m, measure, rfl⟩ := List.exists_cons_of_length_pos (Nat.zero_lt_of_lt long)
    unfold Spelling.letters?
    simp only [Spelling.chars_cons, Glyph.chars, List.cons_append, List.nil_append,
      readStringFrom_code found, if_pos low]
    rfl
  | case5 a b c d n found notLow high a' b' c' d' low found' g isLow ih =>
    obtain ⟨m, measure, rfl⟩ := List.exists_cons_of_length_pos (Nat.zero_lt_of_lt long)
    have fewer : g.length < measure.length :=
      Nat.lt_of_succ_lt (Nat.lt_of_succ_lt_succ long)
    have later := ih fewer (Char.ofNat (0x10000 + (n - 0xD800) * 0x400 + (low - 0xDC00)) :: done)
    simp only [Spelling.chars_cons, Glyph.chars, List.cons_append, List.nil_append,
      readStringFrom_code found, readLowSurrogate_code n found', Spelling.letters?, if_neg notLow,
      if_pos high, if_pos isLow, Option.map_map, bind, Except.bind]
    rw [later]
    simp [Function.comp_def]
  | case6 a b c d n found notLow high a' b' c' d' low found' g isLow =>
    obtain ⟨m, measure, rfl⟩ := List.exists_cons_of_length_pos (Nat.zero_lt_of_lt long)
    simp only [Spelling.chars_cons, Glyph.chars, List.cons_append, List.nil_append,
      readStringFrom_code found, readLowSurrogate_code n found', Spelling.letters?, if_neg notLow,
      if_pos high, if_neg isLow]
    rfl
  | case7 a b c d n found g notLow high other =>
    obtain ⟨m, measure, rfl⟩ := List.exists_cons_of_length_pos (Nat.zero_lt_of_lt long)
    simp only [Spelling.chars_cons, Glyph.chars, List.cons_append, List.nil_append,
      readStringFrom_code found, Spelling.letters?, if_neg notLow, if_pos high]
    rw [toOption_bind, readLowSurrogate_other n other]
    rfl
  | case8 a b c d n found g notLow notHigh ih =>
    obtain ⟨m, measure, rfl⟩ := List.exists_cons_of_length_pos (Nat.zero_lt_of_lt long)
    have later := ih (Nat.lt_of_succ_lt_succ long) (Char.ofNat n :: done)
    rw [Spelling.letters?_code found notLow notHigh, Option.map_map]
    simp only [Spelling.chars_cons, Glyph.chars, List.cons_append, List.nil_append,
      readStringFrom_code found, if_neg notLow, if_neg notHigh, bind, Except.bind]
    rw [later]
    simp [Function.comp_def]

theorem length_le_chars (g : Spelling) : g.length ≤ g.chars.length := by
  induction g with
  | nil => exact Nat.le_refl _
  | cons glyph g ih =>
    have one : 1 ≤ glyph.chars.length := by
      cases glyph <;> simp [Glyph.chars]
    rw [Spelling.chars_cons, List.length_append, List.length_cons]
    omega

/-- A spelled string is read as its string, if it has one. -/
theorem toOption_readString (g : Spelling) (rest : List Char) :
    (readString .kept (g.chars ++ '"' :: rest)).toOption = g.decode.map (·, rest) := by
  have long : g.length < (g.chars ++ '"' :: rest).length := by
    have glyphs := length_le_chars g
    rw [List.length_append, List.length_cons]
    omega
  rw [readString, toOption_readStringFrom g long, Spelling.decode, Option.map_map]
  rfl

/-- A spelled string is passed over, whatever its codes stand for. -/
theorem readStringFrom_passedOver (g : Spelling) (long : g.length < measure.length)
    (done rest : List Char) :
    ∃ s, readStringFrom .passedOver measure done (g.chars ++ '"' :: rest) = .ok (s, rest) := by
  induction g generalizing measure done with
  | nil =>
    obtain ⟨m, measure, rfl⟩ := List.exists_cons_of_length_pos long
    exact ⟨_, readStringFrom_quote m measure done rest⟩
  | cons glyph g ih =>
    obtain ⟨m, measure, rfl⟩ := List.exists_cons_of_length_pos (Nat.zero_lt_of_lt long)
    have ih := ih (Nat.lt_of_succ_lt_succ long)
    rw [Spelling.chars_cons, List.append_assoc]
    cases glyph with
    | plain c solid =>
      obtain ⟨s, read⟩ := ih (c :: done)
      exact ⟨s, (readStringFrom_plain solid _).trans read⟩
    | letter l c found =>
      obtain ⟨s, read⟩ := ih (c :: done)
      refine ⟨s, ?_⟩
      rw [Glyph.chars, List.cons_append, List.singleton_append, readStringFrom_escape,
        readEscape_of_escaped? found]
      exact read
    | code a b c d n found =>
      obtain ⟨s, read⟩ := ih (default :: done)
      refine ⟨s, ?_⟩
      simp only [Glyph.chars, List.cons_append, List.nil_append]
      rw [readStringFrom_escape, readEscape, readHexWord_cons found]
      exact read

theorem readString_passedOver (g : Spelling) (rest : List Char) :
    ∃ s, readString .passedOver (g.chars ++ '"' :: rest) = .ok (s, rest) := by
  refine readStringFrom_passedOver g ?_ [] rest
  have glyphs := length_le_chars g
  rw [List.length_append, List.length_cons]
  omega

end

section Written

theorem hexWord?_control : ∀ n : Nat, n < 0x20 →
    hexWord? '0' '0' (Nat.digitChar (n / 16)) (Nat.digitChar (n % 16)) = some n := by
  decide

/-- What is written for a character is a glyph of that character. -/
theorem exists_glyph (c : Char) : ∃ glyph : Glyph, glyph.chars = escapeChar c ∧
    ∀ g : Spelling, Spelling.letters? (glyph :: g) = g.letters?.map (c :: ·) := by
  unfold escapeChar
  cases found : escapeLetter? c with
  | some letter =>
    have back : escaped? letter = some c := by
      unfold escapeLetter? at found
      split at found <;> cases found <;> rfl
    exact ⟨.letter letter c back, rfl, fun g => by rw [Spelling.letters?]⟩
  | none =>
    by_cases low : c.toNat < 0x20
    · refine ⟨.code '0' '0' _ _ c.toNat (hexWord?_control c.toNat low), by simp [low, Glyph.chars],
        fun g => ?_⟩
      rw [Spelling.letters?_code _ (by omega) (by omega), Char.ofNat_toNat]
    · have quote : c ≠ '"' := by rintro rfl; cases found
      have backslash : c ≠ '\\' := by rintro rfl; cases found
      exact ⟨.plain c ⟨quote, backslash, Nat.le_of_not_lt low⟩, by simp [low, Glyph.chars],
        fun g => by rw [Spelling.letters?]⟩

theorem exists_spelling (l : List Char) :
    ∃ g : Spelling, g.chars = l.flatMap escapeChar ∧ g.letters? = some l := by
  induction l with
  | nil => exact ⟨[], rfl, rfl⟩
  | cons c l ih =>
    obtain ⟨g, chars, letters⟩ := ih
    obtain ⟨glyph, here, spells⟩ := exists_glyph c
    refine ⟨glyph :: g, ?_, ?_⟩
    · rw [Spelling.chars_cons, here, chars, List.flatMap_cons]
    · rw [spells, letters, Option.map_some]

/-- A string that is written is read as it was. -/
theorem readString_quoted (s : String) (rest : List Char) :
    readString .kept (s.toList.flatMap escapeChar ++ '"' :: rest) = .ok (s, rest) := by
  obtain ⟨g, chars, letters⟩ := exists_spelling s.toList
  have read := toOption_readString g rest
  rw [Spelling.decode, letters, Option.map_some, String.ofList_toList] at read
  exact chars ▸ toOption_eq_some_iff.mp read

end Written

end LiveRelay.Json
