import LiveRelay.Decimal.Shortest
import LiveRelay.Proofs.Decimal.Rounding
import Mathlib.Algebra.Order.Field.Rat
import Mathlib.Data.List.TakeWhile
import Mathlib.Data.Rat.Cast.Order
import Mathlib.Tactic.FieldSimp
import Mathlib.Tactic.Linarith
import Mathlib.Tactic.NormNum
import Mathlib.Tactic.Positivity

/-! # The shortest decimal of a double

The search for the shortest decimal ends on a grid whose spacing is below half the distance between
neighbouring doubles, if not before. What it finds rounds to the double, so it is not zero, and it is
not larger than the decimal of the largest double.
-/

namespace LiveRelay.Decimal

open Binary64

theorem spacing_pos (k : Int) : 0 < (spacing k).1 ∧ 0 < (spacing k).2 := by
  have tens (j : Nat) : 0 < tenTo j := Nat.pow_pos (by decide)
  unfold spacing
  split
  · exact ⟨Nat.mul_pos (tens _) unitsPerOne_pos, Nat.one_pos⟩
  · exact ⟨unitsPerOne_pos, tens _⟩

theorem cast_tenTo (k : Nat) : ((tenTo k : Nat) : ℚ) = 10 ^ (k : Int) := by
  simp [tenTo]

/-- The spacing of a grid is a power of ten. -/
theorem spacing_eq (k : Int) :
    ((spacing k).1 : ℚ) = 10 ^ k * unitsPerOne * (spacing k).2 := by
  unfold spacing
  split
  · next nonneg =>
    obtain ⟨j, rfl⟩ := Int.eq_ofNat_of_zero_le nonneg
    simp [tenTo]
  · next below =>
    obtain ⟨j, rfl⟩ : ∃ j : Nat, k = -j := ⟨k.natAbs, by omega⟩
    simp only [tenTo, neg_neg, Int.toNat_natCast, Nat.pow_eq, Nat.cast_pow, Nat.cast_ofNat,
      zpow_neg, zpow_natCast]
    field_simp

variable {n m num den : Nat} {k : Int}

theorem gapBelow_lt (pos : 0 < n) : gapBelow n < 4 * n := by
  have gap : gapBelow n ≤ 2 * 2 ^ lostBits n := by
    unfold gapBelow
    simp only [Nat.shiftLeft_eq]
    split <;> omega
  rcases Nat.eq_zero_or_pos (lostBits n) with none | lost
  · rw [none] at gap
    omega
  · have large := pow_lostBits_le lost
    rw [Nat.pow_add] at large
    have weight : (2 : Nat) ^ 52 = 4503599627370496 := rfl
    rw [weight] at large
    omega

theorem le_gaps (n : Nat) : 2 ^ lostBits n ≤ gapBelow n ∧ gapAbove n = 2 * 2 ^ lostBits n := by
  refine ⟨?_, Nat.shiftLeft_eq _ _⟩
  unfold gapBelow
  simp only [Nat.shiftLeft_eq]
  split <;> omega

/-- What rounds to a double lies between the ends of its interval. -/
theorem bounds_of_roundsTo (rounds : roundsTo n num den = true) :
    (4 * n - gapBelow n) * den ≤ 4 * num ∧ 4 * num ≤ (4 * n + gapAbove n) * den := by
  unfold roundsTo at rounds
  dsimp only at rounds
  split at rounds <;> simp at rounds <;> omega

/-- What lies closer to a double than half its distance to the next one rounds to it. -/
theorem roundsTo_of_close (pos : 0 < n) (positive : 0 < den)
    (below : 4 * n * den < 4 * num + 2 ^ lostBits n * den)
    (above : 4 * num < 4 * n * den + 2 ^ lostBits n * den) : roundsTo n num den = true := by
  obtain ⟨gap, gapAbove_eq⟩ := le_gaps n
  have wide := Nat.mul_le_mul_right den gap
  have low : (4 * n - gapBelow n) * den < 4 * num := by
    have room := Nat.mul_lt_mul_of_pos_right (gapBelow_lt pos) positive
    rw [Nat.sub_mul]
    omega
  have high : 4 * num < (4 * n + gapAbove n) * den := by
    rw [gapAbove_eq, Nat.add_mul, Nat.mul_assoc 2]
    omega
  unfold roundsTo
  dsimp only
  split <;> simp <;> omega

/-- The nearest whole number is at most a half away. -/
theorem roundQuotient_near (num : Nat) (positive : 0 < den) :
    2 * (roundQuotient num den * den) ≤ 2 * num + den ∧
      2 * num ≤ 2 * (roundQuotient num den * den) + den := by
  have parts := Nat.div_add_mod num den
  have small := Nat.mod_lt num positive
  rw [Nat.mul_comm] at parts
  unfold roundQuotient
  dsimp only
  split
  · rw [Nat.add_mul]
    omega
  · omega

/-- A grid that is fine enough has a point that rounds to a double. -/
theorem onGrid?_of_fine (pos : 0 < n)
    (fine : 2 * (spacing k).1 < 2 ^ lostBits n * (spacing k).2) : ∃ m, onGrid? n k = some m := by
  obtain ⟨numerator, denominator⟩ := spacing_pos k
  obtain ⟨low, high⟩ := roundQuotient_near (n * (spacing k).2) numerator
  have rounds : roundsTo n (roundQuotient (n * (spacing k).2) (spacing k).1 * (spacing k).1)
      (spacing k).2 = true := by
    refine roundsTo_of_close pos denominator ?_ ?_ <;> rw [Nat.mul_assoc] <;> omega
  exact ⟨_, if_pos rounds⟩

theorem roundsTo_of_onGrid? (found : onGrid? n k = some m) :
    roundsTo n (m * (spacing k).1) (spacing k).2 = true := by
  unfold onGrid? at found
  dsimp only at found
  generalize n * (spacing k).2 / (spacing k).1 = below at found
  generalize roundQuotient (n * (spacing k).2) (spacing k).1 = near at found
  generalize farther : (if near = below then below + 1 else below) = far at found
  split at found
  · next rounds =>
    cases found
    exact rounds
  · split at found
    · next rounds =>
      cases found
      exact rounds
    · cases found

attribute [local irreducible] onGrid?

theorem search_succ (n tries : Nat) (k : Int) : search n (tries + 1) k =
    match onGrid? n k with
    | some m => (m, k)
    | none => search n tries (k - 1) := rfl

/-- The search ends on a fine grid, if not before. -/
theorem search_spec (tries : Nat) (fine : Int) (first : fine ≤ k) (last : k < fine + tries)
    (found : ∃ m, onGrid? n fine = some m) :
    ∃ m j, search n tries k = (m, j) ∧ onGrid? n j = some m ∧ fine ≤ j := by
  induction tries generalizing k with
  | zero =>
    clear found
    omega
  | succ tries ih =>
    rw [search_succ]
    cases here : onGrid? n k with
    | some m => exact ⟨m, k, rfl, here, first⟩
    | none =>
      have other : fine ≠ k := by
        rintro rfl
        obtain ⟨m, found⟩ := found
        cases here.symm.trans found
      exact ih (by omega) (by omega)

/-- The last grid that is tried is fine enough, whatever the size of the double. -/
theorem spacing_last : ∀ log : Nat, log < 2098 →
    2 * (spacing (((log : Int) - 1073) * 30103 / 100000 + 1 - 23)).1 <
      2 ^ (log - 52) * (spacing (((log : Int) - 1073) * 30103 / 100000 + 1 - 23)).2 := by
  decide +kernel

/-- For the largest doubles, a grid that keeps eighteen digits is fine enough. -/
theorem spacing_top : 2 * (spacing 291).1 < 2 ^ 2045 * (spacing 291).2 := by decide +kernel

theorem log2_lt_of_finite (pos : 0 < n) (finite : n < unitsLimit) : n.log2 < 2098 := by
  rw [unitsLimit_eq] at finite
  exact log2_lt_of_lt pos finite

/-- The search finds a decimal that rounds to the double. -/
theorem search_finds (pos : 0 < n) (finite : n < unitsLimit) :
    ∃ m k, search n 24 (startExponent n) = (m, k) ∧ onGrid? n k = some m := by
  have fine := spacing_last n.log2 (log2_lt_of_finite pos finite)
  obtain ⟨m, k, ended, found, -⟩ := search_spec (k := startExponent n) 24
    (startExponent n - 23) (by omega) (by omega) (onGrid?_of_fine pos fine)
  exact ⟨m, k, ended, found⟩

/-- For the largest doubles, it finds one of few digits. -/
theorem search_finds_top (log : n.log2 = 2097) :
    ∃ m k, search n 24 (startExponent n) = (m, k) ∧ onGrid? n k = some m ∧ 291 ≤ k := by
  have pos : 0 < n := by
    rcases Nat.eq_zero_or_pos n with rfl | pos
    · cases log
    · exact pos
  have lost : lostBits n = 2045 := by rw [lostBits, log]
  have start : startExponent n = 309 := by rw [startExponent, log]; rfl
  have fine := spacing_top
  rw [← lost] at fine
  exact search_spec 24 291 (by omega) (by omega) (onGrid?_of_fine pos fine)

/-- The size of a finite double in units: whole digits at some binary place. -/
theorem units_of_finite {x : Binary64} (finite : x.isFinite = true) :
    ∃ q shift, q < 2 ^ 53 ∧ shift ≤ 2045 ∧ x.units = q * 2 ^ shift := by
  have weight : exponentWeight = 2 ^ 52 := rfl
  simp only [isFinite, decide_eq_true_eq, weight] at finite
  have exponent : x.magnitudeBits / 2 ^ 52 < 2047 := Nat.div_lt_of_lt_mul (by omega)
  have fraction : x.magnitudeBits % 2 ^ 52 < 2 ^ 52 := Nat.mod_lt _ (Nat.two_pow_pos _)
  simp only [units, weight, Nat.shiftLeft_eq]
  split
  · exact ⟨_, 0, by omega, by omega, (Nat.mul_one _).symm⟩
  · exact ⟨_, _, by omega, by omega, rfl⟩

theorem mul_pow_lt {q : Nat} (digits : q < 2 ^ 53) (shift : Nat) :
    q * 2 ^ shift < 2 ^ (53 + shift) := by
  rw [Nat.pow_add]
  exact Nat.mul_lt_mul_of_pos_right digits (Nat.two_pow_pos _)

theorem units_lt {x : Binary64} (finite : x.isFinite = true) : x.units < unitsLimit := by
  obtain ⟨q, shift, digits, place, units⟩ := units_of_finite finite
  rw [units]
  exact Nat.lt_of_lt_of_le (mul_pow_lt digits shift) (pow_le_unitsLimit (by omega))

/-- The largest doubles are whole multiples of one power of two. -/
theorem units_of_top {x : Binary64} (finite : x.isFinite = true) (log : x.units.log2 = 2097) :
    ∃ q, q < 2 ^ 53 ∧ x.units = q * 2 ^ 2045 := by
  obtain ⟨q, shift, digits, place, units⟩ := units_of_finite finite
  refine ⟨q, digits, ?_⟩
  suffices top : shift = 2045 by rw [units, top]
  by_contra other
  have small := mul_pow_lt digits shift
  rw [← units] at small
  have pos : 0 < x.units := by
    by_contra zero
    rw [Nat.eq_zero_of_not_pos zero] at log
    cases log
  have few := log2_lt_of_lt pos small
  omega

/-- What rounds to a double is at most the end of its interval above. -/
theorem le_of_onGrid? (found : onGrid? n k = some m) :
    4 * ((m : ℚ) * 10 ^ k * unitsPerOne) ≤ (4 * n + gapAbove n : Nat) := by
  have bound := (bounds_of_roundsTo (roundsTo_of_onGrid? found)).2
  have positive : (0 : ℚ) < (spacing k).2 := by exact_mod_cast (spacing_pos k).2
  have cast : 4 * ((m : ℚ) * (spacing k).1) ≤ (4 * n + gapAbove n : Nat) * (spacing k).2 := by
    exact_mod_cast bound
  rw [spacing_eq k] at cast
  refine le_of_mul_le_mul_right ?_ positive
  calc
    4 * ((m : ℚ) * 10 ^ k * unitsPerOne) * (spacing k).2 =
        4 * (m * (10 ^ k * unitsPerOne * (spacing k).2)) := by ring
    _ ≤ _ := cast

/-- The digits of the largest double. -/
def greatestDigits : Nat := 17976931348623157

theorem search_greatest :
    search ((2 ^ 53 - 1) * 2 ^ 2045) 24 (startExponent ((2 ^ 53 - 1) * 2 ^ 2045)) =
      (greatestDigits, 292) := by decide +kernel

/-- Doubles that are not among the largest end below a power of ten. -/
theorem ordinary_end : 4 * 2 ^ 2097 + 2 * 2 ^ 2044 ≤ 4 * (tenTo 308 * unitsPerOne) := by
  decide +kernel

/-- All but the largest double end below its decimal. -/
theorem top_end : 4 * ((2 ^ 53 - 2) * 2 ^ 2045) + 2 * 2 ^ 2045 ≤
    4 * (greatestDigits * tenTo 292 * unitsPerOne) := by
  decide +kernel

/-- The decimals that are found are in the range of finite doubles: below a power of ten, or of few
digits and not above the decimal of the largest double. -/
def InRange (value : ℚ) (k : Int) : Prop :=
  value ≤ tenTo 308 ∨ (291 ≤ k ∧ value ≤ (greatestDigits * tenTo 292 : Nat))

theorem le_of_end {b : Nat} (found : onGrid? n k = some m)
    (ends : 4 * n + gapAbove n ≤ 4 * (b * unitsPerOne)) : (m : ℚ) * 10 ^ k ≤ b := by
  have positive : (0 : ℚ) < unitsPerOne := by exact_mod_cast unitsPerOne_pos
  have cast : ((4 * n + gapAbove n : Nat) : ℚ) ≤ (4 * (b * unitsPerOne) : Nat) := by
    exact_mod_cast ends
  have bound := (le_of_onGrid? found).trans cast
  rw [Nat.cast_mul, Nat.cast_mul, Nat.cast_ofNat] at bound
  exact le_of_mul_le_mul_right (le_of_mul_le_mul_left bound (by norm_num)) positive

theorem inRange_of_search {x : Binary64} (finite : x.isFinite = true) (pos : 0 < x.units) :
    ∃ m k, search x.units 24 (startExponent x.units) = (m, k) ∧ onGrid? x.units k = some m ∧
      InRange (m * 10 ^ k) k := by
  have few := log2_lt_of_finite pos (units_lt finite)
  obtain ⟨-, gap⟩ := le_gaps x.units
  rcases Nat.lt_or_eq_of_le (Nat.le_of_lt_succ few) with ordinary | log
  · obtain ⟨m, k, ended, found⟩ := search_finds pos (units_lt finite)
    refine ⟨m, k, ended, found, .inl (le_of_end found ?_)⟩
    have below : x.units < 2 ^ 2097 :=
      Nat.lt_of_lt_of_le Nat.lt_log2_self (two_pow_mono ordinary)
    have lost : 2 ^ lostBits x.units ≤ 2 ^ 2044 :=
      two_pow_mono (by unfold lostBits; omega)
    have ends := ordinary_end
    omega
  · obtain ⟨m, k, ended, found, few⟩ := search_finds_top log
    refine ⟨m, k, ended, found, .inr ⟨few, ?_⟩⟩
    obtain ⟨q, digits, units⟩ := units_of_top finite log
    rcases Nat.lt_or_eq_of_le (Nat.le_sub_one_of_lt digits) with smaller | greatest
    · refine le_of_end found (Nat.le_trans ?_ top_end)
      have lost : lostBits x.units = 2045 := by rw [lostBits, log]
      rw [gap, lost, units]
      exact Nat.add_le_add_right (Nat.mul_le_mul_left _ (Nat.mul_le_mul_right _ (by omega))) _
    · rw [greatest] at units
      rw [units, search_greatest] at ended
      cases ended
      rw [Nat.cast_mul, cast_tenTo, Nat.cast_ofNat]

/-- The number that a decimal stands for. -/
def value (d : Decimal) : ℚ :=
  (Nat.ofDigitChars 10 d.digits 0 : ℚ) * 10 ^ (d.point - d.digits.length)

/-- A decimal that can be written and read: digits without a leading zero, in the range of finite
doubles. -/
structure Proper (d : Decimal) : Prop where
  digits : ∀ c ∈ d.digits, c.isDigit = true
  first : ∃ c rest, d.digits = c :: rest ∧ c ≠ '0'
  range : InRange d.value (d.point - d.digits.length)

/-- The digits of a positive number do not begin with a zero. -/
theorem toDigits_first (pos : 0 < m) : ∃ c rest, Nat.toDigits 10 m = c :: rest ∧ c ≠ '0' := by
  induction m using Nat.strongRecOn with
  | ind m ih =>
    by_cases small : m < 10
    · have nonzero : ∀ d < 10, 0 < d → Nat.digitChar d ≠ '0' := by decide
      exact ⟨_, [], Nat.toDigits_of_lt_base small, nonzero m small pos⟩
    · obtain ⟨c, rest, digits, nonzero⟩ := ih (m / 10) (by omega) (by omega)
      refine ⟨c, rest ++ [Nat.digitChar (m % 10)], ?_, nonzero⟩
      rw [Nat.toDigits_of_base_le (by decide) (by omega), digits, List.cons_append]

/-- Only zeros are dropped at the end. -/
theorem strip_zeros (l : List Char) :
    ∃ z, l = (l.reverse.dropWhile (· == '0')).reverse ++ List.replicate z '0' := by
  have halves := List.takeWhile_append_dropWhile (p := (· == '0')) (l := l.reverse)
  have zeros : l.reverse.takeWhile (· == '0') =
      List.replicate (l.reverse.takeWhile (· == '0')).length '0' := by
    refine List.eq_replicate_of_mem fun c member => ?_
    simpa using List.mem_takeWhile_imp member
  refine ⟨(l.reverse.takeWhile (· == '0')).length, ?_⟩
  rw [zeros] at halves
  have whole := congrArg List.reverse halves
  rw [List.reverse_append, List.reverse_replicate, List.reverse_reverse] at whole
  exact whole.symm

theorem pos_of_onGrid? (pos : 0 < n) (found : onGrid? n k = some m) : 0 < m := by
  have bound := (bounds_of_roundsTo (roundsTo_of_onGrid? found)).1
  have room : 0 < (4 * n - gapBelow n) * (spacing k).2 :=
    Nat.mul_pos (Nat.sub_pos_of_lt (gapBelow_lt pos)) (spacing_pos k).2
  by_contra zero
  rw [Nat.eq_zero_of_not_pos zero, Nat.zero_mul] at bound
  omega

/-- Zeros at the end of a decimal move its digits. -/
theorem ofDigitChars_zeros (l : List Char) (z : Nat) (k : Int) :
    (Nat.ofDigitChars 10 (l ++ List.replicate z '0') 0 : ℚ) * 10 ^ k =
      Nat.ofDigitChars 10 l 0 * 10 ^ (k + z) := by
  rw [Nat.ofDigitChars_append, Nat.ofDigitChars_replicate_zero, Nat.cast_mul, Nat.cast_pow,
    zpow_add₀ (by norm_num), zpow_natCast, Nat.cast_ofNat]
  ring

/-- The shortest decimal has the digits that were found, but for zeros at the end. -/
theorem shortest_of_search (ended : search n 24 (startExponent n) = (m, k)) :
    ∃ z : Nat, Nat.toDigits 10 m = (shortest n).digits ++ List.replicate z '0' ∧
      (shortest n).point - (shortest n).digits.length = k + z := by
  obtain ⟨z, stripped⟩ := strip_zeros (Nat.toDigits 10 m)
  have length := congrArg List.length stripped
  rw [List.length_append, List.length_replicate] at length
  refine ⟨z, ?_, ?_⟩
  · simpa only [shortest, ended] using stripped
  · simp only [shortest, ended]
    omega

/-- The shortest decimal stands for the point of the grid that was found. -/
theorem value_shortest (ended : search n 24 (startExponent n) = (m, k)) :
    (shortest n).value = m * 10 ^ k := by
  obtain ⟨z, stripped, place⟩ := shortest_of_search ended
  have whole := Nat.ofDigitChars_ten_toDigits (n := m)
  rw [stripped] at whole
  rw [value, place, ← ofDigitChars_zeros, whole]

/-- The shortest decimal of a finite double can be written and read. -/
theorem proper_shortest {x : Binary64} (finite : x.isFinite = true) (pos : 0 < x.units) :
    (shortest x.units).Proper := by
  obtain ⟨m, k, ended, found, range⟩ := inRange_of_search finite pos
  obtain ⟨c, rest, digits, nonzero⟩ := toDigits_first (pos_of_onGrid? pos found)
  obtain ⟨z, stripped, place⟩ := shortest_of_search ended
  have number := value_shortest ended
  generalize shortest x.units = d at *
  refine ⟨?_, ?_, ?_⟩
  · intro c member
    refine Nat.isDigit_of_mem_toDigits (b := 10) (n := m) (by decide) (by decide) ?_
    rw [stripped]
    exact List.mem_append_left _ member
  · rw [digits] at stripped
    generalize d.digits = kept at stripped
    cases kept with
    | nil =>
      cases z with
      | zero => cases stripped
      | succ z => exact absurd (List.cons.inj stripped).1 nonzero
    | cons e kept => exact ⟨e, kept, rfl, (List.cons.inj stripped).1 ▸ nonzero⟩
  · rw [number, place]
    exact range.imp_right fun ⟨few, bound⟩ => ⟨by omega, bound⟩

end LiveRelay.Decimal
