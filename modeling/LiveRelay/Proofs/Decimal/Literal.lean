import LiveRelay.Decimal.Literal
import LiveRelay.Proofs.Decimal.Shortest

/-! # Reading a decimal back

The quick rule for the value of a literal is not exact, and near the end of the range of doubles it
may overflow where exact arithmetic would not. It never does on a proper decimal: rounding preserves
order, so the greatest words that can stand before a power of ten settle it.
-/

namespace LiveRelay

namespace Binary64

theorem scaleUp_mono {n m j k : Nat} (less : n ≤ m) (fewer : j ≤ k) :
    scaleUp n j ≤ scaleUp m k := by
  have powers : powerOfTen j ≤ powerOfTen k := by
    apply nearestUnits_mono Nat.one_pos
    exact Nat.mul_le_mul_right _ (Nat.pow_le_pow_right (by decide) fewer)
  exact nearestUnits_mono unitsPerOne_pos (Nat.mul_le_mul less powers)

/-- The greatest word that may stand before a large power of ten. -/
def greatestWord (e : Nat) : Nat :=
  if e < 291 then tenTo (308 - e) else Decimal.greatestDigits * tenTo 292 / tenTo e

theorem scaleUp_words : scaleUp (nearestUnits (UInt64.size * unitsPerOne) 1) 288 < unitsLimit := by
  decide +kernel

theorem scaleUp_greatest : ∀ i : Nat, i < 20 →
    scaleUp (nearestUnits (greatestWord (289 + i) * unitsPerOne) 1) (289 + i) < unitsLimit := by
  decide +kernel

theorem tenTo_pos (k : Nat) : 0 < tenTo k := Nat.pow_pos (by decide)

theorem lt_of_tenTo_lt {j k : Nat} (below : tenTo j < tenTo k) : j < k :=
  (Nat.pow_lt_pow_iff_right (by decide)).mp below

/-- What may stand before a power of ten so that their product is in range. -/
def Stands (word e : Nat) : Prop :=
  word * tenTo e ≤ tenTo 308 ∨
    (291 ≤ e ∧ word * tenTo e ≤ Decimal.greatestDigits * tenTo 292)

theorem le_greatestWord {word e : Nat} (large : 289 ≤ e) (few : e ≤ 308) (stands : Stands word e) :
    word ≤ greatestWord e := by
  have greatest : tenTo 308 ≤ Decimal.greatestDigits * tenTo 292 := by decide +kernel
  unfold greatestWord
  split
  · rcases stands with below | ⟨larger, -⟩
    · have split : tenTo 308 = tenTo (308 - e) * tenTo e := by
        simp only [tenTo, Nat.pow_eq, ← Nat.pow_add]
        congr 1
        omega
      rw [split] at below
      exact Nat.le_of_mul_le_mul_right below (tenTo_pos e)
    · omega
  · rw [Nat.le_div_iff_mul_le (tenTo_pos e)]
    rcases stands with below | ⟨-, below⟩
    · exact Nat.le_trans below greatest
    · exact below

/-- A word times a power of ten that is in range does not overflow. -/
theorem scaleUp_lt {word e : Nat} (fits : word < UInt64.size) (few : e ≤ 308)
    (stands : Stands word e) : scaleUp (nearestUnits (word * unitsPerOne) 1) e < unitsLimit := by
  rcases Nat.lt_or_ge e 289 with small | large
  · refine Nat.lt_of_le_of_lt (scaleUp_mono ?_ (Nat.le_of_lt_succ small)) scaleUp_words
    exact nearestUnits_mono Nat.one_pos (Nat.mul_le_mul_right _ (Nat.le_of_lt fits))
  · have greatest := scaleUp_greatest (e - 289) (by omega)
    rw [Nat.add_sub_cancel' large] at greatest
    refine Nat.lt_of_le_of_lt (scaleUp_mono ?_ (Nat.le_refl e)) greatest
    exact nearestUnits_mono Nat.one_pos
      (Nat.mul_le_mul_right _ (le_greatestWord large few stands))

end Binary64

namespace Literal

open Binary64

theorem ofDigitChars_cons (c : Char) (l : List Char) (significand : Nat) :
    Nat.ofDigitChars 10 (c :: l) significand =
      Nat.ofDigitChars 10 l (significand * 10 + digitValue c) := by
  rw [Nat.ofDigitChars_cons, Nat.mul_comm, digitValue]

/-- The digits that are taken make a number, and they are the first ones. -/
theorem absorb_spec (significand taken : Nat) (l : List Char) : ∃ j, j ≤ l.length ∧
    absorb significand taken l = (Nat.ofDigitChars 10 (l.take j) significand, taken + j) := by
  induction l generalizing significand taken with
  | nil => exact ⟨0, Nat.le_refl _, rfl⟩
  | cons c l ih =>
    rw [absorb]
    split
    · obtain ⟨j, short, absorbed⟩ := ih (significand * 10 + digitValue c) (taken + 1)
      refine ⟨j + 1, Nat.succ_le_succ short, ?_⟩
      rw [absorbed, List.take_succ_cons, ofDigitChars_cons]
      congr 1
      omega
    · exact ⟨0, Nat.zero_le _, rfl⟩

theorem absorb_lt {significand : Nat} (fits : significand < UInt64.size) (taken : Nat)
    (l : List Char) : (absorb significand taken l).1 < UInt64.size := by
  induction l generalizing significand taken with
  | nil => exact fits
  | cons c l ih =>
    rw [absorb]
    split
    · next next => exact ih next _
    · exact fits

theorem le_ofDigitChars (l : List Char) (significand : Nat) :
    significand ≤ Nat.ofDigitChars 10 l significand := by
  rw [Nat.ofDigitChars_eq_ofDigitChars_zero]
  exact Nat.le_add_right_of_le (Nat.le_mul_of_pos_left _ (Nat.pow_pos (by decide)))

/-- All digits are taken if the number that they make fits a word. -/
theorem absorb_all {l : List Char} {significand : Nat}
    (fits : Nat.ofDigitChars 10 l significand < UInt64.size) (taken : Nat) :
    absorb significand taken l = (Nat.ofDigitChars 10 l significand, taken + l.length) := by
  induction l generalizing significand taken with
  | nil => rfl
  | cons c l ih =>
    rw [ofDigitChars_cons] at fits ⊢
    have next := Nat.lt_of_le_of_lt (le_ofDigitChars l _) fits
    rw [absorb]
    rw [if_pos next, ih fits, List.length_cons]
    congr 1
    omega

theorem ofDigitChars_lt {l : List Char} (digits : ∀ c ∈ l, c.isDigit = true) :
    Nat.ofDigitChars 10 l 0 < 10 ^ l.length := by
  suffices bound : ∀ s, Nat.ofDigitChars 10 l s < 10 ^ l.length * (s + 1) by
    simpa using bound 0
  induction l with
  | nil => simp
  | cons c l ih =>
    intro s
    have digit : c.toNat - '0'.toNat ≤ 9 := by
      have is := digits c List.mem_cons_self
      simp only [Char.isDigit, Bool.and_eq_true, decide_eq_true_eq, ge_iff_le] at is
      have le : c.val ≤ 57 := is.2
      have nat : c.toNat ≤ 57 := UInt32.le_iff_toNat_le.mp le
      simp
      omega
    have rest := ih (fun d member => digits d (List.mem_cons_of_mem _ member))
      (10 * s + (c.toNat - '0'.toNat))
    rw [Nat.ofDigitChars_cons]
    refine Nat.lt_of_lt_of_le rest ?_
    rw [List.length_cons, Nat.pow_succ, Nat.mul_assoc]
    exact Nat.mul_le_mul_left _ (by omega)

/-- A word times a power of ten is a finite double if the power divides, or if the product is in
range. -/
theorem real_of_range {word : Nat} (fits : word < UInt64.size) (exponent : Int)
    (range : exponent ≤ 0 ∨ ∃ e : Nat, exponent = e ∧ e ≤ 308 ∧ Stands word e) (negative : Bool) :
    ∃ x, real negative word exponent = .ok (.real x) ∧ x.isFinite = true := by
  have word_le : nearestUnits (word * unitsPerOne) 1 < 2 ^ 1139 := by
    refine Nat.lt_of_le_of_lt (nearestUnits_mono Nat.one_pos
      (Nat.mul_le_mul_right _ (Nat.le_of_lt fits))) ?_
    decide +kernel
  have down (k : Nat) : scaleDown (nearestUnits (word * unitsPerOne) 1) k ≤ 2 ^ 1139 :=
    scaleDown_le k (by decide) word_le
  have wider : 2 ^ 1139 < 2 ^ 1140 := by decide +kernel
  have limit : 2 ^ 1140 < unitsLimit := by decide +kernel
  suffices scaled : ∃ n, scaled? word exponent = some n ∧ n < unitsLimit by
    obtain ⟨n, scaled, below⟩ := scaled
    obtain ⟨x, made⟩ := ofUnits?_of_lt negative below
    exact ⟨x, by rw [real, scaled, Option.bind_some, made], isFinite_of_ofUnits? made⟩
  unfold scaled?
  dsimp only
  split
  · exact ⟨0, rfl, Nat.lt_of_le_of_lt (Nat.zero_le _) limit⟩
  · split
    · next nonneg =>
      obtain ⟨e, rfl, few, stands⟩ : ∃ e : Nat, exponent = e ∧ e ≤ 308 ∧ Stands word e := by
        rcases range with nonpos | range
        · have least : word * tenTo 0 ≤ tenTo 308 := by
            refine Nat.le_trans (Nat.mul_le_mul_right _ (Nat.le_of_lt fits)) ?_
            decide +kernel
          exact ⟨0, by omega, by omega, .inl least⟩
        · exact range
      rw [if_pos (by simpa using few), if_pos (by simpa using scaleUp_lt fits few stands)]
      exact ⟨_, rfl, by simpa using scaleUp_lt fits few stands⟩
    · split
      · exact ⟨_, rfl, Nat.lt_trans (Nat.lt_of_le_of_lt (down _) wider) limit⟩
      · split
        · have twice := scaleDown_le (exponent.natAbs - 308) (by decide)
            (Nat.lt_of_le_of_lt (down 308) wider)
          exact ⟨_, rfl, Nat.lt_of_le_of_lt twice limit⟩
        · exact ⟨0, rfl, Nat.lt_of_le_of_lt (Nat.zero_le _) limit⟩

theorem isFinite_integer (negative : Bool) (n : Nat) :
    (integer negative n).toReal.isFinite = true := by
  unfold integer
  split
  · dsimp only
    split
    · exact isFinite_ofWord _ _
    · exact isFinite_ofWord _ _
  · exact isFinite_ofWord _ _

theorem isFinite_of_real {negative : Bool} {word : Nat} {exponent : Int} {n : Number}
    (made : real negative word exponent = .ok n) : n.toReal.isFinite = true := by
  unfold real at made
  split at made
  · next x scaled =>
    obtain ⟨units, -, built⟩ := Option.bind_eq_some_iff.mp scaled
    cases made
    exact isFinite_of_ofUnits? built
  · cases made

/-- The value of a literal is finite. -/
theorem isFinite_of_value {l : Literal} {n : Number} (read : l.value = .ok n) :
    n.toReal.isFinite = true := by
  unfold value at read
  dsimp only at read
  split at read
  · cases read
    exact isFinite_integer _ _
  · split at read
    · exact isFinite_of_real read
    · split at read
      · exact isFinite_of_real read
      · split at read
        · cases read
          cases l.negative <;> rfl
        · cases read

/-- The way a literal is written. The sign stands before it. -/
def chars (mark : Char) (l : Literal) : List Char :=
  l.whole ++ l.fraction.elim [] ('.' :: ·) ++
    l.exponent.elim [] fun e => mark :: (if e.1 then '-' else '+') :: e.2

/-- A literal whose parts are digits, without a leading zero. -/
structure Written (l : Literal) : Prop where
  digits : ∀ c ∈ l.whole, c.isDigit = true
  whole : l.whole = ['0'] ∨ ∃ c rest, l.whole = c :: rest ∧ c ≠ '0'
  fraction : ∀ f ∈ l.fraction, f ≠ [] ∧ ∀ c ∈ f, c.isDigit = true
  exponent : ∀ e ∈ l.exponent, e.2 ≠ [] ∧ ∀ c ∈ e.2, c.isDigit = true

/-- The value of a literal whose first digits make a word, which a power of ten moves to its place.
-/
def moved (l : Literal) (word : Nat) (shift : Int) : Except OutOfRange Number :=
  match l.exponent with
  | none => real l.negative word shift
  | some (down, digits) =>
    match readExponent 0 digits with
    | .ok e => real l.negative word (if down then shift - e else shift + e)
    | .error unread =>
      if word = 0 ∨ down then .ok (.real (.signedZero l.negative)) else .error ⟨unread⟩

/-- A literal with a short whole part is moved by as many digits as are taken from its fraction. -/
theorem value_eq_moved {l : Literal} (fits : Nat.ofDigitChars 10 l.whole 0 < UInt64.size)
    (proper : l.fraction ≠ none ∨ l.exponent ≠ none) {word places : Nat}
    (absorbed : absorb (Nat.ofDigitChars 10 l.whole 0) 0 (l.fraction.getD []) = (word, places)) :
    l.value = l.moved word (-places) := by
  have whole := absorb_all fits 0
  rw [Nat.zero_add] at whole
  have integer : ¬ (l.fraction = none ∧ l.exponent = none) := fun both => by
    rcases proper with fraction | exponent
    · exact fraction both.1
    · exact exponent both.2
  have shift : ((l.whole.length - l.whole.length : Nat) : Int) - places = -places := by omega
  unfold value
  rw [whole]
  dsimp only
  rw [if_neg fun all => integer all.2, absorbed, ← shift]
  rfl

/-- A literal with a short whole part is its first digits and a power of ten. -/
theorem value_of_fits {l : Literal} (fits : Nat.ofDigitChars 10 l.whole 0 < UInt64.size)
    (proper : l.fraction ≠ none ∨ l.exponent ≠ none) : ∃ j, j ≤ (l.fraction.getD []).length ∧
      Nat.ofDigitChars 10 (l.whole ++ (l.fraction.getD []).take j) 0 < UInt64.size ∧
      l.value = l.moved (Nat.ofDigitChars 10 (l.whole ++ (l.fraction.getD []).take j) 0) (-j) := by
  obtain ⟨j, short, absorbed⟩ :=
    absorb_spec (Nat.ofDigitChars 10 l.whole 0) 0 (l.fraction.getD [])
  have small := absorb_lt fits 0 (l.fraction.getD [])
  rw [absorbed, ← Nat.ofDigitChars_append] at small
  rw [Nat.zero_add, ← Nat.ofDigitChars_append] at absorbed
  exact ⟨j, short, small, value_eq_moved fits proper absorbed⟩

end Literal

namespace Decimal

open Binary64 Literal

/-- A decimal between one and the positional limit, as a literal. -/
def positional (negative : Bool) (d : Decimal) : Literal where
  negative := negative
  whole := d.digits.take d.point.toNat ++ List.replicate (d.point.toNat - d.digits.length) '0'
  fraction := some
    (if (d.digits.drop d.point.toNat).isEmpty then ['0'] else d.digits.drop d.point.toNat)
  exponent := none

/-- A decimal below one, as a literal. -/
def fractional (negative : Bool) (d : Decimal) : Literal where
  negative := negative
  whole := ['0']
  fraction := some (List.replicate (-d.point).toNat '0' ++ d.digits)
  exponent := none

/-- A decimal as a literal with an exponent. -/
def scientific (negative : Bool) (d : Decimal) : Literal where
  negative := negative
  whole := d.digits.take 1
  fraction := if (d.digits.drop 1).isEmpty then none else some (d.digits.drop 1)
  exponent := some (decide (d.point - 1 < 0), Nat.toDigits 10 (d.point - 1).natAbs)

/-- The literal that a decimal is written as. -/
def literal (negative : Bool) (layout : Layout) (d : Decimal) : Literal :=
  if 0 < d.point ∧ d.point ≤ layout.mostPoint then d.positional negative
  else if layout.leastPoint ≤ d.point ∧ d.point ≤ 0 then d.fractional negative
  else d.scientific negative

theorem literal_cases (negative : Bool) (layout : Layout) (d : Decimal) :
    (0 < d.point ∧ d.literal negative layout = d.positional negative) ∨
    (d.point ≤ 0 ∧ d.literal negative layout = d.fractional negative) ∨
    d.literal negative layout = d.scientific negative := by
  unfold literal
  split
  · next above => exact .inl ⟨above.1, rfl⟩
  · split
    · next below => exact .inr (.inl ⟨below.2, rfl⟩)
    · exact .inr (.inr rfl)

theorem negative_literal (negative : Bool) (layout : Layout) (d : Decimal) :
    (d.literal negative layout).negative = negative := by
  rcases d.literal_cases negative layout with ⟨-, is⟩ | ⟨-, is⟩ | is <;> rw [is] <;> rfl

/-- No decimal is written as a whole number. -/
theorem parts_literal (negative : Bool) (layout : Layout) (d : Decimal) :
    (d.literal negative layout).fraction ≠ none ∨ (d.literal negative layout).exponent ≠ none := by
  rcases d.literal_cases negative layout with ⟨-, is⟩ | ⟨-, is⟩ | is <;> rw [is]
  · exact .inl nofun
  · exact .inl nofun
  · exact .inr nofun

theorem render_eq (negative : Bool) (layout : Layout) (d : Decimal) :
    d.render layout = (d.literal negative layout).chars layout.exponentMark := by
  unfold render literal
  split
  · simp [chars, positional]
  · split
    · simp [chars, fractional]
    · dsimp only [chars, scientific]
      cases (d.digits.drop 1).isEmpty <;> simp

variable {d : Decimal}

theorem isDigit_of_mem_replicate {n : Nat} {c : Char} (member : c ∈ List.replicate n '0') :
    c.isDigit = true := by
  rw [List.eq_of_mem_replicate member]
  rfl

theorem written_positional (proper : d.Proper) (above : 0 < d.point) (negative : Bool) :
    (d.positional negative).Written := by
  obtain ⟨digits, ⟨first, rest, split, nonzero⟩, -⟩ := proper
  refine ⟨?_, .inr ?_, ?_, nofun⟩
  · intro c member
    rcases List.mem_append.mp member with taken | zero
    · exact digits c (List.mem_of_mem_take taken)
    · exact isDigit_of_mem_replicate zero
  · obtain ⟨n, whole⟩ : ∃ n, d.point.toNat = n + 1 := ⟨d.point.toNat - 1, by omega⟩
    exact ⟨first, rest.take n ++ List.replicate (n + 1 - (first :: rest).length) '0',
      by simp [positional, whole, split], nonzero⟩
  · intro f is
    simp only [positional, Option.mem_def, Option.some.injEq] at is
    split at is
    · subst is
      exact ⟨by simp, by simp [Char.isDigit]⟩
    · next some =>
      subst is
      exact ⟨by simpa using some, fun c member => digits c (List.mem_of_mem_drop member)⟩

theorem written_fractional (proper : d.Proper) (negative : Bool) :
    (d.fractional negative).Written := by
  obtain ⟨digits, ⟨first, rest, split, nonzero⟩, -⟩ := proper
  refine ⟨by simp [fractional, Char.isDigit], .inl rfl, ?_, nofun⟩
  rintro f ⟨⟩
  refine ⟨by simp [split], ?_⟩
  intro c member
  rcases List.mem_append.mp member with zero | digit
  · exact isDigit_of_mem_replicate zero
  · exact digits c digit

theorem written_scientific (proper : d.Proper) (negative : Bool) :
    (d.scientific negative).Written := by
  obtain ⟨digits, ⟨first, rest, split, nonzero⟩, -⟩ := proper
  refine ⟨fun c member => digits c (List.mem_of_mem_take member), .inr ?_, ?_, ?_⟩
  · exact ⟨first, [], by simp [scientific, split], nonzero⟩
  · intro f is
    simp only [scientific, Option.mem_def] at is
    split at is
    · cases is
    · next some =>
      cases is
      exact ⟨by simpa using some, fun c member => digits c (List.mem_of_mem_drop member)⟩
  · rintro e ⟨⟩
    exact ⟨Nat.toDigits_ne_nil,
      fun c member => Nat.isDigit_of_mem_toDigits (by decide) (by decide) member⟩

/-- What a proper decimal is written as can be read. -/
theorem written_literal (proper : d.Proper) (negative : Bool) (layout : Layout) :
    (d.literal negative layout).Written := by
  rcases d.literal_cases negative layout with ⟨above, is⟩ | ⟨-, is⟩ | is <;> rw [is]
  · exact written_positional proper above negative
  · exact written_fractional proper negative
  · exact written_scientific proper negative

theorem value_positional (proper : d.Proper) (above : 0 < d.point) (few : d.point ≤ 16)
    (negative : Bool) :
    ∃ x, (d.positional negative).value = .ok (.real x) ∧ x.isFinite = true := by
  have length : (d.positional negative).whole.length = d.point.toNat := by
    simp only [positional, List.length_append, List.length_take, List.length_replicate]
    omega
  have fits : Nat.ofDigitChars 10 (d.positional negative).whole 0 < UInt64.size := by
    have short := ofDigitChars_lt (written_positional proper above negative).digits
    rw [length] at short
    have wide : 10 ^ d.point.toNat ≤ 10 ^ 16 := Nat.pow_le_pow_right (by decide) (by omega)
    exact Nat.lt_trans (Nat.lt_of_lt_of_le short wide) (by decide)
  obtain ⟨j, -, small, value⟩ := value_of_fits fits (.inl (by simp [positional]))
  obtain ⟨x, real, finite⟩ := real_of_range small (-j) (.inl (by omega)) negative
  exact ⟨x, value.trans real, finite⟩

theorem value_fractional (d : Decimal) (negative : Bool) :
    ∃ x, (d.fractional negative).value = .ok (.real x) ∧ x.isFinite = true := by
  have fits : Nat.ofDigitChars 10 (d.fractional negative).whole 0 < UInt64.size :=
    show Nat.ofDigitChars 10 ['0'] 0 < UInt64.size by decide
  obtain ⟨j, -, small, value⟩ := value_of_fits fits (.inl (by simp [fractional]))
  obtain ⟨x, real, finite⟩ := real_of_range small (-j) (.inl (by omega)) negative
  exact ⟨x, value.trans real, finite⟩

/-- The first digits of a decimal make a number that is not larger. -/
theorem le_value {first : Char} {rest : List Char} (split : d.digits = first :: rest) {j : Nat}
    (short : j ≤ rest.length) :
    (Nat.ofDigitChars 10 (first :: rest.take j) 0 : ℚ) * 10 ^ (d.point - 1 - j) ≤ d.value := by
  have cut : first :: rest = (first :: rest.take j) ++ rest.drop j := by simp
  have whole : Nat.ofDigitChars 10 (first :: rest.take j) 0 * 10 ^ (rest.length - j) ≤
      Nat.ofDigitChars 10 d.digits 0 := by
    rw [split, cut, Nat.ofDigitChars_append]
    generalize Nat.ofDigitChars 10 (first :: rest.take j) 0 = word
    rw [Nat.ofDigitChars_eq_ofDigitChars_zero, List.length_drop, Nat.mul_comm]
    exact Nat.le_add_right _ _
  have place : d.point - 1 - j = (rest.length - j : Nat) + (d.point - d.digits.length) := by
    rw [split, List.length_cons]
    omega
  have positive : (0 : ℚ) ≤ 10 ^ (d.point - d.digits.length) := zpow_nonneg (by norm_num) _
  have cast : (Nat.ofDigitChars 10 (first :: rest.take j) 0 : ℚ) * 10 ^ (rest.length - j) ≤
      Nat.ofDigitChars 10 d.digits 0 := by exact_mod_cast whole
  rw [value, place, zpow_add₀ (by norm_num), zpow_natCast, ← mul_assoc]
  exact mul_le_mul_of_nonneg_right cast positive

/-- In range there is at most the power of ten of the largest double. -/
theorem exponent_le {word e : Nat} (pos : 0 < word) (stands : Stands word e) : e ≤ 308 := by
  have beyond : tenTo 308 < tenTo 309 ∧ greatestDigits * tenTo 292 < tenTo 309 := by
    decide +kernel
  have least : tenTo e ≤ word * tenTo e := Nat.le_mul_of_pos_left _ pos
  have below : tenTo e < tenTo 309 := by
    rcases stands with below | ⟨-, below⟩ <;> omega
  exact Nat.le_of_lt_succ (lt_of_tenTo_lt below)

/-- The first digits of a proper decimal may stand before the power of ten that they need. -/
theorem stands_of_proper (proper : d.Proper) {first : Char} {rest : List Char}
    (split : d.digits = first :: rest) {j e : Nat} (short : j ≤ rest.length)
    (place : d.point - 1 - j = e) : Stands (Nat.ofDigitChars 10 (first :: rest.take j) 0) e := by
  have bound := le_value split short
  rw [place, ← cast_tenTo] at bound
  rcases proper.range with below | ⟨few, below⟩
  · left
    exact_mod_cast bound.trans below
  · refine .inr ⟨?_, by exact_mod_cast bound.trans below⟩
    rw [split, List.length_cons] at few
    omega

theorem first_pos {first : Char} {rest : List Char} (digit : first.isDigit = true)
    (nonzero : first ≠ '0') : 0 < Nat.ofDigitChars 10 (first :: rest) 0 := by
  have positive : 0 < digitValue first := by
    simp only [Char.isDigit, Bool.and_eq_true, decide_eq_true_eq, ge_iff_le] at digit
    have least : 48 ≤ first.toNat := UInt32.le_iff_toNat_le.mp digit.1
    have other : first.toNat ≠ 48 := fun same => nonzero (Char.toNat_inj.mp same)
    have zero : '0'.toNat = 48 := rfl
    unfold digitValue
    omega
  rw [ofDigitChars_cons]
  exact Nat.lt_of_lt_of_le (by omega) (le_ofDigitChars _ _)

theorem readExponent_of_le {l : List Char} {n : Nat}
    (few : Nat.ofDigitChars 10 l n ≤ exponentLimit) :
    readExponent n l = .ok (Nat.ofDigitChars 10 l n) := by
  induction l generalizing n with
  | nil => rfl
  | cons c l ih =>
    rw [ofDigitChars_cons] at few ⊢
    rw [readExponent, if_pos (Nat.le_trans (le_ofDigitChars l _) few), ih few]

theorem value_scientific (proper : d.Proper) (beyond : d.point ≤ 0 ∨ 16 < d.point)
    (negative : Bool) :
    ∃ x, (d.scientific negative).value = .ok (.real x) ∧ x.isFinite = true := by
  obtain ⟨first, rest, split, nonzero⟩ := proper.first
  have whole : (d.scientific negative).whole = [first] := by simp [scientific, split]
  have fraction : (d.scientific negative).fraction.getD [] = rest := by
    cases rest <;> simp [scientific, split]
  have digit : first.isDigit = true := proper.digits first (split ▸ List.mem_cons_self)
  have fits : Nat.ofDigitChars 10 (d.scientific negative).whole 0 < UInt64.size := by
    rw [whole]
    have small : Nat.ofDigitChars 10 [first] 0 < 10 ^ 1 := ofDigitChars_lt (by simpa using digit)
    exact Nat.lt_trans small (by decide)
  obtain ⟨j, short, small, value⟩ := value_of_fits fits (.inr (by simp [scientific]))
  rw [whole, fraction] at small value
  rw [fraction] at short
  rw [value]
  dsimp only [moved, scientific]
  by_cases down : d.point - 1 < 0
  · cases readExponent 0 (Nat.toDigits 10 (d.point - 1).natAbs) with
    | ok e =>
      simp only [down, decide_true, if_true]
      exact real_of_range small _ (.inl (by omega)) negative
    | error unread =>
      simp only [down, decide_true, or_true, if_true]
      exact ⟨_, rfl, by cases negative <;> rfl⟩
  · have large : 16 < d.point := by omega
    have greatest := exponent_le (first_pos digit nonzero)
      (stands_of_proper proper split (Nat.zero_le _) (e := (d.point - 1).natAbs) (by omega))
    have exponent := readExponent_of_le (l := Nat.toDigits 10 (d.point - 1).natAbs) (n := 0)
      (by rw [Nat.ofDigitChars_ten_toDigits]; exact Nat.le_trans greatest (by decide))
    rw [exponent, Nat.ofDigitChars_ten_toDigits]
    simp only [down, decide_false, Bool.false_eq_true, if_false]
    refine real_of_range small _ ?_ negative
    by_cases divides : -(j : Int) + (d.point - 1).natAbs ≤ 0
    · exact .inl divides
    · obtain ⟨e, place⟩ : ∃ e : Nat, -(j : Int) + (d.point - 1).natAbs = e :=
        ⟨(-(j : Int) + (d.point - 1).natAbs).toNat, by omega⟩
      have stands := stands_of_proper proper split short (e := e) (by omega)
      exact .inr ⟨e, place, by omega, stands⟩

/-- What a proper decimal is written as has a finite double as its value. -/
theorem value_literal (proper : d.Proper) (negative : Bool) {layout : Layout}
    (few : layout.mostPoint = 16) :
    ∃ x, (d.literal negative layout).value = .ok (.real x) ∧ x.isFinite = true := by
  unfold literal
  split
  · next between => exact value_positional proper between.1 (few ▸ between.2) negative
  · split
    · exact value_fractional d negative
    · exact value_scientific proper (by omega) negative

end Decimal

namespace Binary64

/-- The literal that a finite double is written as. -/
def literal (layout : Decimal.Layout) (x : Binary64) : Literal :=
  if x.units = 0 then (⟨['0'], 0⟩ : Decimal).fractional x.isNegative
  else (Decimal.shortest x.units).literal x.isNegative layout

variable {x : Binary64} (finite : x.isFinite = true)
include finite

theorem written_literal (layout : Decimal.Layout) : (x.literal layout).Written := by
  unfold literal
  split
  · refine ⟨by simp [Decimal.fractional, Char.isDigit], .inl rfl, ?_, nofun⟩
    rintro f ⟨⟩
    simp [Char.isDigit]
  · next nonzero =>
    have proper := Decimal.proper_shortest finite (Nat.pos_of_ne_zero nonzero)
    exact Decimal.written_literal proper x.isNegative layout

/-- The literal of a finite double has a double as its value, though perhaps another one. -/
theorem value_literal {layout : Decimal.Layout} (few : layout.mostPoint = 16) :
    ∃ y, (x.literal layout).value = .ok (.real y) := by
  unfold literal
  split
  · obtain ⟨y, value, -⟩ := (⟨['0'], 0⟩ : Decimal).value_fractional x.isNegative
    exact ⟨y, value⟩
  · next nonzero =>
    have proper := Decimal.proper_shortest finite (Nat.pos_of_ne_zero nonzero)
    obtain ⟨y, value, -⟩ := Decimal.value_literal proper x.isNegative few
    exact ⟨y, value⟩

end Binary64

end LiveRelay
