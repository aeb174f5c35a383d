import LiveRelay.Proofs.Decimal.Literal

/-! # Where the quick rule is exact

The quick rule for the value of a literal rounds up to three times: the gathered word, the power of
ten, and their product or quotient. Where the first two are doubles already, only the last rounding
is left. That one is right, so a double whose digits are few enough comes back from its shortest
decimal as it was.
-/

namespace LiveRelay

namespace Binary64

variable {a b c d n num den : Nat}

/-- Rounding depends on the quotient alone. -/
theorem roundQuotient_congr (left : 0 < b) (right : 0 < d) (same : a * d = c * b) :
    roundQuotient a b = roundQuotient c d := by
  have quotients : a / b = c / d := by
    rw [← Nat.mul_div_mul_right a b right, same, Nat.mul_comm b d, Nat.mul_div_mul_right c d left]
  have remainders : a % b * d = c % d * b := by
    rw [← Nat.mul_mod_mul_right, same, Nat.mul_comm b d, Nat.mul_mod_mul_right]
  have above : b < 2 * (a % b) ↔ d < 2 * (c % d) := by
    rw [← Nat.mul_lt_mul_right right, ← Nat.mul_lt_mul_right left (b := d), Nat.mul_assoc, remainders,
      Nat.mul_assoc, Nat.mul_comm b d]
  have tie : 2 * (a % b) = b ↔ 2 * (c % d) = d := by
    rw [← Nat.mul_left_inj (Nat.ne_of_gt right), ← Nat.mul_left_inj (Nat.ne_of_gt left) (c := d),
      Nat.mul_assoc, remainders, Nat.mul_assoc, Nat.mul_comm b d]
  simp only [roundQuotient, quotients, above, tie]

theorem nearestUnits_congr (left : 0 < b) (right : 0 < d) (same : a * d = c * b) :
    nearestUnits a b = nearestUnits c d := by
  have quotients : a / b = c / d := by
    rw [← Nat.mul_div_mul_right a b right, same, Nat.mul_comm b d, Nat.mul_div_mul_right c d left]
  rw [nearestUnits_eq, nearestUnits_eq, quotients]
  congr 1
  apply roundQuotient_congr (Nat.mul_pos left (Nat.two_pow_pos _))
    (Nat.mul_pos right (Nat.two_pow_pos _))
  rw [← Nat.mul_assoc, same, Nat.mul_assoc]

/-- A whole number is the rounded quotient if it is at most a half away, and nearer if it is odd. -/
theorem roundQuotient_eq {m : Nat} (pos : 0 < den) (low : 2 * (m * den) ≤ 2 * num + den)
    (high : 2 * num ≤ 2 * (m * den) + den)
    (odd : m % 2 = 1 → 2 * (m * den) < 2 * num + den ∧ 2 * num < 2 * (m * den) + den) :
    roundQuotient num den = m := by
  have parts := Nat.div_add_mod num den
  have small := Nat.mod_lt num pos
  unfold roundQuotient
  generalize num / den = q at *
  generalize num % den = r at *
  rw [Nat.mul_comm den] at parts
  dsimp only
  have near : m = q ∨ m = q + 1 := by
    have least : q < m + 1 := by
      apply Nat.lt_of_mul_lt_mul_right (a := den)
      rw [Nat.add_mul]
      omega
    have most : m < q + 2 := by
      apply Nat.lt_of_mul_lt_mul_right (a := den)
      rw [Nat.add_mul]
      omega
    omega
  rcases near with rfl | rfl
  · rw [if_neg]
    rintro (above | ⟨tie, last⟩)
    · omega
    · have nearer := odd last
      omega
  · rw [Nat.add_mul] at low high odd
    rw [if_pos]
    by_cases last : q % 2 = 1
    · omega
    · have nearer := odd (by omega)
      omega

/-- A count of units that has no digits to lose is a double. -/
theorem nearestUnits_self (kept : 2 ^ lostBits n ∣ n) : nearestUnits n 1 = n := by
  obtain ⟨m, digits⟩ := kept
  have rounded : roundQuotient n (2 ^ lostBits n) = m := by
    have pos := Nat.two_pow_pos (lostBits n)
    rw [Nat.mul_comm] at digits
    refine roundQuotient_eq pos ?_ ?_ fun _ => ⟨?_, ?_⟩ <;> rw [← digits] <;> omega
  rw [nearestUnits_eq, Nat.div_one, Nat.one_mul, rounded, Nat.mul_comm, ← digits]

/-- A double has no digits to lose. -/
theorem pow_lostBits_dvd {x : Binary64} (finite : x.isFinite = true) :
    2 ^ lostBits x.units ∣ x.units := by
  obtain ⟨q, shift, digits, -, units⟩ := Decimal.units_of_finite finite
  have few : lostBits x.units ≤ shift := by
    have below := lostBits_le (Decimal.mul_pow_lt digits shift)
    rw [← units] at below
    omega
  rw [units] at few ⊢
  exact Nat.dvd_mul_left_of_dvd (Nat.pow_dvd_pow 2 few) q

/-- The interval of a double in terms of its last digit: it reaches half a digit down and up, without
the ends if the digit is odd, and a quarter of a digit down from the first of its size. -/
theorem interval_of_roundsTo {m u : Nat} (digits : n = m * 2 ^ lostBits n)
    (unit : u = 2 ^ lostBits n * den) (rounds : Decimal.roundsTo n num den = true) :
    4 * (m * u) ≤ 4 * num + 2 * u ∧ 4 * num ≤ 4 * (m * u) + 2 * u ∧
    (m % 2 = 1 → 4 * (m * u) < 4 * num + 2 * u ∧ 4 * num < 4 * (m * u) + 2 * u) ∧
    (lostBits n ≠ 0 → m = 2 ^ 52 → 4 * (m * u) ≤ 4 * num + u) := by
  have kept : n >>> lostBits n = m := by
    rw [Nat.shiftRight_eq_div_pow]
    exact Nat.div_eq_of_eq_mul_left (Nat.two_pow_pos _) digits
  have whole : n * den = m * u := by rw [unit, ← Nat.mul_assoc, ← digits]
  have up : Decimal.gapAbove n * den = 2 * u := by
    rw [Decimal.gapAbove, Nat.shiftLeft_eq, Nat.mul_assoc, ← unit]
  have first : n = exponentWeight <<< lostBits n ↔ m = 2 ^ 52 := by
    have weight : exponentWeight = 2 ^ 52 := rfl
    rw [Nat.shiftLeft_eq, weight]
    refine ⟨fun same => ?_, fun same => digits.trans (by rw [same])⟩
    exact Nat.eq_of_mul_eq_mul_right (Nat.two_pow_pos (lostBits n)) (digits.symm.trans same)
  have down : Decimal.gapBelow n * den =
      if lostBits n ≠ 0 ∧ m = 2 ^ 52 then u else 2 * u := by
    unfold Decimal.gapBelow
    by_cases special : lostBits n ≠ 0 ∧ m = 2 ^ 52
    · rw [if_pos special, if_pos ⟨special.1, first.mpr special.2⟩, Nat.shiftLeft_eq, Nat.one_mul,
        ← unit]
    · rw [if_neg special, if_neg fun both => special ⟨both.1, first.mp both.2⟩, Nat.shiftLeft_eq,
        Nat.mul_assoc, ← unit]
  unfold Decimal.roundsTo Decimal.ownsEnds at rounds
  rw [kept] at rounds
  simp only [Nat.sub_mul, Nat.add_mul, Nat.mul_assoc, whole, up, down] at rounds
  by_cases special : lostBits n ≠ 0 ∧ m = 2 ^ 52
  · have even : m % 2 = 0 := by
      rw [special.2]
      rfl
    simp only [if_pos special, even, beq_self_eq_true, if_true, Bool.and_eq_true,
      decide_eq_true_eq] at rounds
    exact ⟨by omega, by omega, fun odd => by omega, fun _ _ => by omega⟩
  · simp only [if_neg special, beq_iff_eq] at rounds
    refine ⟨?_, ?_, ?_, fun lost m_eq => absurd ⟨lost, m_eq⟩ special⟩
    all_goals
      split at rounds <;> simp only [Bool.and_eq_true, decide_eq_true_eq] at rounds <;> omega

/-- A quotient of smaller size in the interval of a double is just below the first double of its
size. -/
theorem first_of_fewer {m l k : Nat} (positive : 0 < den) (size : 2 ^ 52 ≤ m) (fewer : k < l)
    (below : num < 2 ^ (53 + k) * den)
    (low : 4 * (m * (2 ^ l * den)) ≤ 4 * num + 2 * (2 ^ l * den))
    (first : m = 2 ^ 52 → 4 * (m * (2 ^ l * den)) ≤ 4 * num + 2 ^ l * den) :
    m = 2 ^ 52 ∧ l = k + 1 := by
  obtain ⟨j, rfl⟩ := Nat.exists_eq_add_of_lt fewer
  have half : 2 ^ (53 + k) * den * 2 ^ j = 2 ^ 52 * (2 ^ (k + j + 1) * den) := by
    ring
  have unit : 0 < 2 ^ (k + j + 1) * den := Nat.mul_pos (Nat.two_pow_pos _) positive
  have scaled : num * 2 ^ j < 2 ^ 52 * (2 ^ (k + j + 1) * den) :=
    half ▸ Nat.mul_lt_mul_of_pos_right below (Nat.two_pow_pos j)
  generalize 2 ^ (k + j + 1) * den = u at low first unit scaled
  have least : num ≤ num * 2 ^ j := Nat.le_mul_of_pos_right _ (Nat.two_pow_pos j)
  have m_eq : m = 2 ^ 52 := by
    by_contra other
    have next := Nat.mul_le_mul_right u (show 2 ^ 52 + 1 ≤ m by omega)
    rw [Nat.add_mul] at next
    omega
  refine ⟨m_eq, ?_⟩
  have close := first m_eq
  rw [m_eq] at close
  suffices single : j = 0 by rw [single]
  by_contra several
  have twice : num * 2 ^ 1 ≤ num * 2 ^ j := Nat.mul_le_mul_left _ (two_pow_mono (by omega))
  omega

/-- No quotient in the interval of a double is of greater size. -/
theorem size_le {m l k : Nat} (positive : 0 < den) (digits : m < 2 ^ 53)
    (above : 2 ^ (52 + k) * den ≤ num)
    (high : 4 * num ≤ 4 * (m * (2 ^ l * den)) + 2 * (2 ^ l * den)) : k ≤ l := by
  by_contra more
  have unit : 0 < 2 ^ l * den := Nat.mul_pos (Nat.two_pow_pos _) positive
  have reach : 2 ^ 53 * (2 ^ l * den) ≤ num := by
    refine Nat.le_trans ?_ above
    rw [← Nat.mul_assoc, ← Nat.pow_add]
    exact Nat.mul_le_mul_right _ (two_pow_mono (by omega))
  have next := Nat.mul_le_mul_right (2 ^ l * den) (Nat.succ_le_of_lt digits)
  rw [Nat.succ_mul] at next
  omega

/-- Whatever lies in the interval of a double is rounded to it. -/
theorem nearestUnits_of_roundsTo (kept : 2 ^ lostBits n ∣ n) (positive : 0 < den)
    (rounds : Decimal.roundsTo n num den = true) : nearestUnits num den = n := by
  obtain ⟨m, digits⟩ := kept
  rw [Nat.mul_comm] at digits
  obtain ⟨low, high, odd, first⟩ := interval_of_roundsTo digits rfl rounds
  have unit : 0 < 2 ^ lostBits n * den := Nat.mul_pos (Nat.two_pow_pos _) positive
  have below := (Nat.div_lt_iff_lt_mul positive).mp (lt_pow_lostBits (num / den))
  rw [nearestUnits_eq]
  have few : m < 2 ^ 53 := by
    have bound := lt_pow_lostBits n
    rw [Nat.pow_add] at bound
    exact Nat.lt_of_mul_lt_mul_right (digits.symm.le.trans_lt bound)
  have size : lostBits (num / den) ≤ lostBits n := by
    rcases Nat.eq_zero_or_pos (lostBits (num / den)) with none | lost
    · omega
    · exact size_le positive few ((Nat.le_div_iff_mul_le positive).mp (pow_lostBits_le lost)) high
  rcases Nat.lt_or_eq_of_le size with fewer | same
  · -- The quotient may be of smaller size below the first double of a size.
    have least : 2 ^ 52 ≤ m := by
      have above := pow_lostBits_le (Nat.zero_lt_of_lt fewer)
      rw [Nat.pow_add] at above
      exact Nat.le_of_mul_le_mul_right (above.trans digits.le) (Nat.two_pow_pos _)
    obtain ⟨m_eq, size⟩ := first_of_fewer positive least fewer below low
      (first (Nat.ne_zero_of_lt fewer))
    have close := first (Nat.ne_zero_of_lt fewer) m_eq
    have halves : 2 ^ lostBits n * den = 2 * (den * 2 ^ lostBits (num / den)) := by
      rw [size]
      ring
    have whole : num < 2 ^ 53 * (den * 2 ^ lostBits (num / den)) := by
      rw [Nat.pow_add] at below
      linarith
    rw [halves, m_eq] at close
    rw [roundQuotient_eq (m := 2 ^ 53) (by omega) (by omega) (by omega) (by omega), digits, m_eq,
      size, Nat.pow_succ]
    ring
  · rw [Nat.mul_comm _ den, ← same] at low high odd unit
    rw [roundQuotient_eq unit (m := m) (by omega) (by omega) (fun last => by omega), same, ← digits]

theorem lostBits_mul_pow {q : Nat} (least : 2 ^ 52 ≤ q) (digits : q < 2 ^ 53) (shift : Nat) :
    lostBits (q * 2 ^ shift) = shift := by
  have most := lostBits_le (Decimal.mul_pow_lt digits shift)
  have large : 2 ^ (52 + shift) ≤ q * 2 ^ shift := by
    rw [Nat.pow_add]
    exact Nat.mul_le_mul_right _ least
  have nonzero : q * 2 ^ shift ≠ 0 := Nat.ne_of_gt (Nat.lt_of_lt_of_le (Nat.two_pow_pos _) large)
  have log := (Nat.le_log2 nonzero).mpr large
  unfold lostBits at most ⊢
  omega

/-- The bits of a size in units are those that it was made of. -/
theorem magnitudeBits_eq (x : Binary64) :
    lostBits x.units * exponentWeight + x.units >>> lostBits x.units = x.magnitudeBits := by
  have weight : exponentWeight = 2 ^ 52 := rfl
  have parts := Nat.div_add_mod x.magnitudeBits (2 ^ 52)
  have small : x.magnitudeBits % 2 ^ 52 < 2 ^ 52 := Nat.mod_lt _ (Nat.two_pow_pos _)
  simp only [units, weight]
  split
  · next subnormal =>
    have none : lostBits (x.magnitudeBits % 2 ^ 52) = 0 := Nat.le_zero.mp (lostBits_le small)
    rw [none, Nat.shiftRight_zero, Nat.zero_mul, Nat.zero_add]
    omega
  · next normal =>
    have lost := lostBits_mul_pow (Nat.le_add_right (2 ^ 52) (x.magnitudeBits % 2 ^ 52)) (by omega)
      (x.magnitudeBits / 2 ^ 52 - 1)
    rw [Nat.shiftLeft_eq, lost, Nat.shiftRight_eq_div_pow, Nat.mul_div_cancel _ (Nat.two_pow_pos _)]
    omega

/-- A finite double is the double of its own sign and size. -/
theorem ofUnits?_units {x : Binary64} (finite : x.isFinite = true) :
    ofUnits? x.isNegative x.units = some x := by
  have whole : (if x.isNegative then signWeight + x.magnitudeBits else x.magnitudeBits) =
      x.bits.toNat := by
    have sign : signWeight = 2 ^ 63 := rfl
    have word : x.bits.toNat < 2 ^ 64 := x.bits.toNat_lt
    simp only [isNegative, magnitudeBits, sign, decide_eq_true_eq]
    split <;> omega
  rw [ofUnits?, if_pos (Decimal.units_lt finite)]
  dsimp only
  rw [magnitudeBits_eq, whole, UInt64.ofNat_toNat]

/-- A word that is a double keeps its value. -/
theorem nearestUnits_word {word : Nat} (kept : 2 ^ lostBits word ∣ word) :
    nearestUnits (word * unitsPerOne) 1 = word * unitsPerOne := by
  obtain ⟨places, one⟩ : ∃ places, unitsPerOne = 2 ^ places :=
    ⟨1074, by decide +kernel⟩
  rw [one]
  apply nearestUnits_self
  have below : word * 2 ^ places < 2 ^ (53 + lostBits word + places) := by
    rw [Nat.pow_add]
    exact Nat.mul_lt_mul_of_pos_right (lt_pow_lostBits word) (Nat.two_pow_pos _)
  have few : lostBits (word * 2 ^ places) ≤ lostBits word + places := by
    have most := lostBits_le below
    omega
  have whole : 2 ^ (lostBits word + places) ∣ word * 2 ^ places := by
    rw [Nat.pow_add]
    exact Nat.mul_dvd_mul_right kept _
  exact Nat.dvd_trans (Nat.pow_dvd_pow 2 few) whole

/-- The first powers of ten are doubles. -/
theorem powerOfTen_eq : ∀ k < 23, powerOfTen k = tenTo k * unitsPerOne := by decide +kernel

end Binary64

namespace Literal

open Binary64

/-- A word and a power of ten that are doubles are rounded only once. -/
theorem scaled?_exact {word : Nat} {place : Int} (pos : 0 < word)
    (kept : 2 ^ lostBits word ∣ word) (near : place.natAbs ≤ 22) {n : Nat}
    (rounded : nearestUnits (word * (Decimal.spacing place).1) (Decimal.spacing place).2 = n)
    (fits : n < unitsLimit) : scaled? word place = some n := by
  have one := unitsPerOne_pos
  have ten := tenTo_pos place.natAbs
  have power := powerOfTen_eq place.natAbs (by omega)
  unfold scaled?
  unfold Decimal.spacing at rounded
  dsimp only
  rw [nearestUnits_word kept, if_neg (Nat.ne_of_gt pos)]
  split
  · next up =>
    have size : place.toNat = place.natAbs := by omega
    have product : scaleUp (word * unitsPerOne) place.natAbs = n := by
      rw [if_pos up, size] at rounded
      rw [← rounded, scaleUp, power]
      exact nearestUnits_congr one Nat.one_pos (by ring)
    rw [if_pos (by omega), product, if_pos fits]
  · next down =>
    have size : (-place).toNat = place.natAbs := by omega
    have quotient : scaleDown (word * unitsPerOne) place.natAbs = n := by
      rw [if_neg down, size] at rounded
      rw [← rounded, scaleDown, power]
      exact nearestUnits_congr (Nat.mul_pos ten one) ten (by ring)
    rw [if_pos (by omega), quotient]

/-- The digits of a literal as one number, without regard to the point. -/
def word (l : Literal) : Nat := Nat.ofDigitChars 10 (l.whole ++ l.fraction.getD []) 0

/-- The number that the exponent of a literal stands for. -/
def scale (l : Literal) : Int :=
  l.exponent.elim 0 fun e =>
    if e.1 then -(Nat.ofDigitChars 10 e.2 0 : Int) else Nat.ofDigitChars 10 e.2 0

/-- How far the last digit of a literal stands before the point. -/
def place (l : Literal) : Int := l.scale - (l.fraction.getD []).length

/-- A literal with few digits near the point: they make a word that is a double, and no more than
twenty-two powers of ten move it to its place. -/
structure Brief (l : Literal) : Prop where
  fits : l.word < UInt64.size
  kept : 2 ^ lostBits l.word ∣ l.word
  near : l.place.natAbs ≤ 22

/-- Every number up to the fifty-third power of two is a double. -/
theorem brief_of_le {l : Literal} (few : l.word ≤ 2 ^ 53) (near : l.place.natAbs ≤ 22) :
    l.Brief := by
  refine ⟨Nat.lt_of_le_of_lt few (by decide), ?_, near⟩
  rcases Nat.lt_or_eq_of_le few with below | last
  · have none : lostBits l.word = 0 := Nat.le_zero.mp (lostBits_le below)
    rw [none, Nat.pow_zero]
    exact Nat.one_dvd _
  · rw [last]
    decide +kernel

/-- If all digits fit a word, the value of a literal is that word at its place. -/
theorem value_of_word {l : Literal} (fits : l.word < UInt64.size)
    (readable : l.scale.natAbs ≤ exponentLimit)
    (proper : l.fraction ≠ none ∨ l.exponent ≠ none) :
    l.value = real l.negative l.word l.place := by
  have split : l.word =
      Nat.ofDigitChars 10 (l.fraction.getD []) (Nat.ofDigitChars 10 l.whole 0) := by
    rw [word, Nat.ofDigitChars_append]
  have absorbed := absorb_all (split ▸ fits) 0
  rw [← split, Nat.zero_add] at absorbed
  have short := Nat.lt_of_le_of_lt (split ▸ le_ofDigitChars (l.fraction.getD []) _) fits
  rw [value_eq_moved short proper absorbed]
  unfold moved place scale at *
  generalize l.exponent = exponent at readable ⊢
  cases exponent with
  | none => simp
  | some e =>
    obtain ⟨down, digits⟩ := e
    have exponent : readExponent 0 digits = .ok (Nat.ofDigitChars 10 digits 0) := by
      apply Decimal.readExponent_of_le
      cases down <;> simpa using readable
    simp only [exponent, Option.elim_some]
    congr 1
    split <;> omega

end Literal

namespace Decimal

open Binary64 Literal

variable (d : Decimal) (negative : Bool)

theorem amount_positional (above : 0 < d.point) :
    ((d.positional negative).word : ℚ) * 10 ^ (d.positional negative).place = d.value := by
  by_cases inside : d.point.toNat < d.digits.length
  · have rest : (d.digits.drop d.point.toNat).isEmpty = false := by
      simpa using inside
    have whole : (d.positional negative).word = Nat.ofDigitChars 10 d.digits 0 := by
      simp [word, positional, rest, Nat.sub_eq_zero_of_le inside.le]
    have place : (d.positional negative).place = d.point - d.digits.length := by
      simp only [Literal.place, scale, positional, rest, Bool.false_eq_true, if_false,
        Option.elim_none, Option.getD_some, List.length_drop]
      omega
    rw [whole, place, value]
  · have rest : (d.digits.drop d.point.toNat).isEmpty = true := by
      simpa using inside
    have whole : (d.positional negative).word = Nat.ofDigitChars 10
        (d.digits ++ List.replicate (d.point.toNat - d.digits.length + 1) '0') 0 := by
      have long : d.digits.length ≤ d.point.toNat := Nat.le_of_not_lt inside
      simp [word, positional, rest, List.take_of_length_le long, List.replicate_succ']
    have place : (d.positional negative).place = -1 := by
      simp [Literal.place, scale, positional, rest]
    rw [whole, place, ofDigitChars_zeros, value]
    congr 2
    omega

theorem amount_fractional (below : d.point ≤ 0) :
    ((d.fractional negative).word : ℚ) * 10 ^ (d.fractional negative).place = d.value := by
  have whole : (d.fractional negative).word = Nat.ofDigitChars 10 d.digits 0 := by
    have zeros : Nat.ofDigitChars 10 ('0' :: List.replicate (-d.point).toNat '0') 0 = 0 := by
      rw [← List.replicate_succ, Nat.ofDigitChars_replicate_zero, Nat.mul_zero]
    simp only [word, fractional, Option.getD_some, List.cons_append, List.nil_append]
    rw [← List.cons_append, Nat.ofDigitChars_append, zeros]
  have place : (d.fractional negative).place = d.point - d.digits.length := by
    simp only [Literal.place, scale, fractional, Option.elim_none, Option.getD_some,
      List.length_append, List.length_replicate]
    omega
  rw [whole, place, value]

theorem fraction_scientific : (d.scientific negative).fraction.getD [] = d.digits.drop 1 := by
  simp only [scientific]
  split
  · next none => simpa using none
  · rfl

theorem word_scientific : (d.scientific negative).word = Nat.ofDigitChars 10 d.digits 0 := by
  rw [word, fraction_scientific, scientific, List.take_append_drop]

theorem scale_scientific : (d.scientific negative).scale = d.point - 1 := by
  simp only [scale, scientific, Option.elim_some, decide_eq_true_eq, Nat.ofDigitChars_ten_toDigits]
  split <;> omega

theorem place_scientific (some : d.digits ≠ []) :
    (d.scientific negative).place = d.point - d.digits.length := by
  have positive := List.length_pos_iff.mpr some
  rw [Literal.place, fraction_scientific, scale_scientific, List.length_drop]
  omega

theorem amount_scientific (some : d.digits ≠ []) :
    ((d.scientific negative).word : ℚ) * 10 ^ (d.scientific negative).place = d.value := by
  rw [word_scientific, d.place_scientific negative some, value]

/-- A decimal is written as a literal of its own value. -/
theorem amount_literal (some : d.digits ≠ []) (layout : Layout) :
    ((d.literal negative layout).word : ℚ) * 10 ^ (d.literal negative layout).place = d.value := by
  rcases d.literal_cases negative layout with ⟨above, is⟩ | ⟨below, is⟩ | is <;> rw [is]
  · exact d.amount_positional negative above
  · exact d.amount_fractional negative below
  · exact d.amount_scientific negative some

/-- What lies where the shortest decimal of a double lies is rounded to the double. -/
theorem nearestUnits_shortest {x : Binary64} (finite : x.isFinite = true) (pos : 0 < x.units)
    {num den : Nat} (positive : 0 < den)
    (same : (num : ℚ) = (shortest x.units).value * unitsPerOne * den) :
    nearestUnits num den = x.units := by
  obtain ⟨m, k, ended, found⟩ := search_finds pos (units_lt finite)
  have rounds := nearestUnits_of_roundsTo (pow_lostBits_dvd finite) (spacing_pos k).2
    (roundsTo_of_onGrid? found)
  rw [← rounds]
  apply nearestUnits_congr positive (spacing_pos k).2
  have crossed : (num * (spacing k).2 : ℚ) = m * (spacing k).1 * den := by
    rw [same, value_shortest ended, spacing_eq k]
    ring
  exact_mod_cast crossed

variable {d} {negative}

theorem digits_ne_nil (proper : d.Proper) : d.digits ≠ [] := by
  obtain ⟨first, rest, split, -⟩ := proper.first
  simp [split]

theorem value_pos (proper : d.Proper) : 0 < d.value := by
  obtain ⟨first, rest, split, nonzero⟩ := proper.first
  have positive : 0 < Nat.ofDigitChars 10 d.digits 0 :=
    split ▸ first_pos (proper.digits first (split ▸ List.mem_cons_self)) nonzero
  have cast : (0 : ℚ) < Nat.ofDigitChars 10 d.digits 0 := by exact_mod_cast positive
  exact mul_pos cast (zpow_pos (by norm_num) _)

/-- A number has no more digits than its size needs. -/
theorem pow_length_le (proper : d.Proper) :
    10 ^ (d.digits.length - 1) ≤ Nat.ofDigitChars 10 d.digits 0 := by
  obtain ⟨first, rest, split, nonzero⟩ := proper.first
  have digit : 0 < Nat.ofDigitChars 10 [first] 0 :=
    first_pos (proper.digits first (split ▸ List.mem_cons_self)) nonzero
  rw [split, List.length_cons, Nat.add_sub_cancel, ← List.singleton_append,
    Nat.ofDigitChars_append, Nat.ofDigitChars_eq_ofDigitChars_zero]
  exact Nat.le_add_right_of_le (Nat.le_mul_of_pos_right _ digit)

/-- The exponent of a brief literal can be read. -/
theorem scale_le (proper : d.Proper) {layout : Layout}
    (brief : (d.literal negative layout).Brief) :
    (d.literal negative layout).scale.natAbs ≤ exponentLimit := by
  rcases d.literal_cases negative layout with ⟨-, is⟩ | ⟨-, is⟩ | is <;> rw [is] at brief ⊢
  · simp [scale, positional]
  · simp [scale, fractional]
  · obtain ⟨fits, -, near⟩ := brief
    rw [word_scientific] at fits
    rw [place_scientific _ _ (digits_ne_nil proper)] at near
    have short : d.digits.length - 1 < 20 := by
      refine (Nat.pow_lt_pow_iff_right (by decide : 1 < 10)).mp ?_
      exact Nat.lt_trans (Nat.lt_of_le_of_lt (pow_length_le proper) fits) (by decide)
    rw [scale_scientific]
    unfold exponentLimit
    omega

/-- A brief decimal is read as the double that it is the shortest of. -/
theorem value_shortest_of_brief {x : Binary64} (finite : x.isFinite = true) (pos : 0 < x.units)
    {layout : Layout} (brief : ((shortest x.units).literal x.isNegative layout).Brief) :
    ((shortest x.units).literal x.isNegative layout).value = .ok (.real x) := by
  have proper := proper_shortest finite pos
  have readable := scale_le proper brief
  have amount := (shortest x.units).amount_literal x.isNegative (digits_ne_nil proper) layout
  have sign := (shortest x.units).negative_literal x.isNegative layout
  have parts := (shortest x.units).parts_literal x.isNegative layout
  generalize (shortest x.units).literal x.isNegative layout = l at *
  have word : 0 < l.word := by
    by_contra zero
    rw [Nat.eq_zero_of_not_pos zero, Nat.cast_zero, zero_mul] at amount
    exact absurd amount (value_pos proper).ne
  have rounded : nearestUnits (l.word * (spacing l.place).1) (spacing l.place).2 = x.units := by
    apply nearestUnits_shortest finite pos (spacing_pos l.place).2
    rw [← amount, Nat.cast_mul, spacing_eq]
    ring
  have scaled := scaled?_exact word brief.kept brief.near rounded (units_lt finite)
  rw [value_of_word brief.fits readable parts, real, scaled, Option.bind_some, sign,
    ofUnits?_units finite]

end Decimal

namespace Binary64

theorem value_zero : ∀ negative : Bool,
    ((⟨['0'], 0⟩ : Decimal).fractional negative).value = .ok (.real (signedZero negative)) := by
  decide +kernel

theorem ofUnits?_zero : ∀ negative : Bool, ofUnits? negative 0 = some (signedZero negative) := by
  decide +kernel

/-- A double whose literal is brief is the value of it. -/
theorem value_of_brief {x : Binary64} (finite : x.isFinite = true) {layout : Decimal.Layout}
    (brief : (x.literal layout).Brief) : (x.literal layout).value = .ok (.real x) := by
  by_cases zero : x.units = 0
  · have same := ofUnits?_units finite
    rw [zero, ofUnits?_zero] at same
    rw [literal, if_pos zero, value_zero, Option.some.inj same]
  · rw [literal, if_neg zero] at brief ⊢
    exact Decimal.value_shortest_of_brief finite (Nat.pos_of_ne_zero zero) brief

end Binary64

end LiveRelay
