import LiveRelay.Decimal.Binary64
import Mathlib.Tactic.Ring

/-! # Rounding to doubles

Rounding preserves order, and the double next to a quotient is at most the power of two above it.
These two facts settle what stays in the range of finite doubles: the ends of a range are looked at,
and everything in between follows.
-/

namespace LiveRelay.Binary64

theorem roundQuotient_mono {num more den : Nat} (le : num ≤ more) :
    roundQuotient num den ≤ roundQuotient more den := by
  unfold roundQuotient
  have quotients : num / den ≤ more / den := Nat.div_le_div_right le
  have first := Nat.div_add_mod num den
  have second := Nat.div_add_mod more den
  rcases Nat.lt_or_eq_of_le quotients with below | same
  · dsimp only
    split <;> split <;> omega
  · rw [same] at first
    dsimp only
    rw [same]
    split <;> split <;> omega

/-- A quotient below a whole number is rounded to at most that number. -/
theorem roundQuotient_le {num den k : Nat} (below : num < den * k) : roundQuotient num den ≤ k := by
  have quotient : num / den < k := Nat.div_lt_of_lt_mul below
  unfold roundQuotient
  dsimp only
  split <;> omega

theorem le_roundQuotient {num den k : Nat} (pos : 0 < den) (above : den * k ≤ num) :
    k ≤ roundQuotient num den := by
  have quotient : k ≤ num / den := (Nat.le_div_iff_mul_le pos).mpr (by rwa [Nat.mul_comm])
  unfold roundQuotient
  dsimp only
  split <;> omega

theorem two_pow_mono {a b : Nat} (le : a ≤ b) : 2 ^ a ≤ 2 ^ b :=
  Nat.pow_le_pow_right (by decide) le

theorem lostBits_mono {n m : Nat} (le : n ≤ m) : lostBits n ≤ lostBits m := by
  unfold lostBits
  rcases Nat.eq_zero_or_pos n with rfl | pos
  · simp
  · have logs : n.log2 ≤ m.log2 :=
      (Nat.le_log2 (by omega)).mpr (Nat.le_trans (Nat.log2_self_le (by omega)) le)
    omega

/-- Fifty-three binary digits and those that are lost are enough for a count of units. -/
theorem lt_pow_lostBits (n : Nat) : n < 2 ^ (53 + lostBits n) := by
  refine Nat.lt_of_lt_of_le Nat.lt_log2_self (two_pow_mono ?_)
  unfold lostBits
  omega

theorem log2_lt_of_lt {n b : Nat} (pos : 0 < n) (below : n < 2 ^ b) : n.log2 < b :=
  (Nat.log2_lt (Nat.ne_of_gt pos)).mpr below

theorem lostBits_le {n b : Nat} (below : n < 2 ^ b) : lostBits n ≤ b - 53 := by
  rcases Nat.eq_zero_or_pos n with rfl | pos
  · simp [lostBits]
  · have few := log2_lt_of_lt pos below
    unfold lostBits
    omega

/-- Digits are lost only beyond the first fifty-three. -/
theorem pow_lostBits_le {n : Nat} (lost : 0 < lostBits n) : 2 ^ (52 + lostBits n) ≤ n := by
  have nonzero : n ≠ 0 := by
    rintro rfl
    simp [lostBits] at lost
  refine Nat.le_trans (two_pow_mono ?_) (Nat.log2_self_le nonzero)
  unfold lostBits at lost ⊢
  omega

theorem nearestUnits_eq (num den : Nat) : nearestUnits num den =
    roundQuotient num (den * 2 ^ lostBits (num / den)) * 2 ^ lostBits (num / den) := by
  simp [nearestUnits, Nat.shiftLeft_eq]

/-- The double next to a quotient is at most the power of two above it. -/
theorem nearestUnits_le (num : Nat) {den : Nat} (pos : 0 < den) :
    nearestUnits num den ≤ 2 ^ (53 + lostBits (num / den)) := by
  rw [nearestUnits_eq, Nat.pow_add]
  apply Nat.mul_le_mul_right
  apply roundQuotient_le
  have below := (Nat.div_lt_iff_lt_mul pos).mp (lt_pow_lostBits (num / den))
  calc
    num < 2 ^ (53 + lostBits (num / den)) * den := below
    _ = den * 2 ^ lostBits (num / den) * 2 ^ 53 := by ring

/-- If digits are lost, the double next to a quotient is at least the power of two below it. -/
theorem le_nearestUnits {num den : Nat} (pos : 0 < den) (lost : 0 < lostBits (num / den)) :
    2 ^ (52 + lostBits (num / den)) ≤ nearestUnits num den := by
  rw [nearestUnits_eq, Nat.pow_add]
  apply Nat.mul_le_mul_right
  apply le_roundQuotient (Nat.mul_pos pos (Nat.two_pow_pos _))
  have above := (Nat.le_div_iff_mul_le pos).mp (pow_lostBits_le lost)
  calc
    den * 2 ^ lostBits (num / den) * 2 ^ 52 = 2 ^ (52 + lostBits (num / den)) * den := by ring
    _ ≤ num := above

/-- Rounding to doubles preserves order. -/
theorem nearestUnits_mono {num more den : Nat} (pos : 0 < den) (le : num ≤ more) :
    nearestUnits num den ≤ nearestUnits more den := by
  rcases Nat.lt_or_eq_of_le (lostBits_mono (Nat.div_le_div_right (c := den) le)) with fewer | same
  · calc
      nearestUnits num den ≤ 2 ^ (53 + lostBits (num / den)) := nearestUnits_le num pos
      _ ≤ 2 ^ (52 + lostBits (more / den)) := two_pow_mono (by omega)
      _ ≤ nearestUnits more den := le_nearestUnits pos (by omega)
  · rw [nearestUnits_eq, nearestUnits_eq, same]
    exact Nat.mul_le_mul_right _ (roundQuotient_mono le)

/-- A quotient with few binary digits is not rounded beyond them. -/
theorem nearestUnits_le_pow {num den b : Nat} (pos : 0 < den) (wide : 53 ≤ b)
    (below : num / den < 2 ^ b) : nearestUnits num den ≤ 2 ^ b := by
  refine Nat.le_trans (nearestUnits_le num pos) (two_pow_mono ?_)
  have lost := lostBits_le below
  omega

theorem unitsLimit_eq : unitsLimit = 2 ^ 2098 := by decide +kernel

theorem pow_le_unitsLimit {b : Nat} (few : b ≤ 2098) : 2 ^ b ≤ unitsLimit := by
  rw [unitsLimit_eq]
  exact two_pow_mono few

theorem unitsPerOne_pos : 0 < unitsPerOne := by
  simp only [unitsPerOne, Nat.one_shiftLeft, Nat.two_pow_pos]

/-- A power of ten is at least one. -/
theorem unitsPerOne_le_powerOfTen (k : Nat) : unitsPerOne ≤ powerOfTen k := by
  have one : nearestUnits unitsPerOne 1 = unitsPerOne := by decide +kernel
  rw [← one]
  apply nearestUnits_mono Nat.one_pos
  exact Nat.le_mul_of_pos_left _ (Nat.pow_pos (by decide))

/-- Dividing by a power of ten makes nothing larger. -/
theorem scaleDown_le {n b : Nat} (k : Nat) (wide : 53 ≤ b) (below : n < 2 ^ b) :
    scaleDown n k ≤ 2 ^ b := by
  have least := unitsPerOne_le_powerOfTen k
  have pos := Nat.lt_of_lt_of_le unitsPerOne_pos least
  apply nearestUnits_le_pow pos wide
  refine Nat.lt_of_le_of_lt (Nat.div_le_of_le_mul ?_) below
  rw [Nat.mul_comm (powerOfTen k)]
  exact Nat.mul_le_mul_left n least

theorem ofUnits?_of_lt {n : Nat} (negative : Bool) (below : n < unitsLimit) :
    ∃ x, ofUnits? negative n = some x := by
  simp [ofUnits?, below]

/-- The double of a count of units is finite. -/
theorem isFinite_of_ofUnits? {negative : Bool} {n : Nat} {x : Binary64}
    (made : ofUnits? negative n = some x) : x.isFinite = true := by
  unfold ofUnits? at made
  split at made
  · next below =>
    rw [unitsLimit_eq] at below
    have lost : lostBits n ≤ 2045 := lostBits_le below
    have digits : n >>> lostBits n < 2 ^ 53 := by
      rw [Nat.shiftRight_eq_div_pow, Nat.div_lt_iff_lt_mul (Nat.two_pow_pos _), ← Nat.pow_add]
      exact lt_pow_lostBits n
    cases made
    have weight : exponentWeight = 2 ^ 52 := rfl
    have sign : signWeight = 2 ^ 63 := rfl
    simp only [isFinite, magnitudeBits, decide_eq_true_eq, weight, sign]
    generalize n >>> lostBits n = kept at *
    generalize lostBits n = shift at *
    cases negative <;> simp <;> omega
  · cases made

/-- Zero and the doubles next to words are finite. -/
theorem isFinite_ofWord (negative : Bool) (n : Nat) : (ofWord negative n).isFinite = true := by
  unfold ofWord
  cases made : ofUnits? negative (nearestUnits (n * unitsPerOne) 1) with
  | some x => exact isFinite_of_ofUnits? made
  | none => cases negative <;> rfl

end LiveRelay.Binary64
