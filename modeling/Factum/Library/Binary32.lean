/-
This file is about single precision numbers, as rational numbers that are rounded.

The result of an operation is the exact result rounded to 24 bits, to nearest and ties to
even, with the places below the least one dropped. A rounding moves a number by a relative
error, or by an absolute one near zero. From this follow bounds for a sum of squares and its
root, and that a number comes back from a vector that was scaled and shifted: its ratio to
what became of one differs from it by little more than the shift. Numbers too large for the
format, infinities and the sign of zero are left out.
-/

import Mathlib.Data.Int.Log
import Mathlib.Data.Nat.Sqrt
import Mathlib.Data.Rat.Floor
import Mathlib.Tactic.FieldSimp
import Mathlib.Tactic.Linarith
import Mathlib.Tactic.NormNum
import Mathlib.Tactic.Positivity
import Mathlib.Tactic.Ring

namespace Binary32

/-! ### Rounding -/

/-- The nearest integer, and of two the even one. -/
def nearest (x : ℚ) : ℤ :=
  if x - ⌊x⌋ < 1 / 2 then ⌊x⌋
  else if 1 / 2 < x - ⌊x⌋ then ⌊x⌋ + 1
  else if ⌊x⌋ % 2 = 0 then ⌊x⌋
  else ⌊x⌋ + 1

/-- The exponent of the last place of the numbers as large as `x`. -/
def lastPlace (x : ℚ) : ℤ := max (Int.log 2 |x| - 23) (-149)

/-- The nearest number of the format. -/
def rounded (x : ℚ) : ℚ := nearest (x / 2 ^ lastPlace x) * 2 ^ lastPlace x

theorem abs_nearest_sub_le (x : ℚ) : |(nearest x : ℚ) - x| ≤ 1 / 2 := by
  have low := Int.floor_le x
  have high := Int.lt_floor_add_one x
  unfold nearest
  split_ifs <;> rw [abs_le] <;> push_cast <;> constructor <;> linarith

theorem nearest_intCast (k : ℤ) : nearest k = k := by
  rw [nearest, Int.floor_intCast, sub_self, if_pos (by norm_num)]

theorem nearest_nonneg {x : ℚ} (nonneg : 0 ≤ x) : 0 ≤ nearest x := by
  have floor := Int.floor_nonneg.mpr nonneg
  unfold nearest
  split_ifs <;> omega

theorem rounded_nonneg {x : ℚ} (nonneg : 0 ≤ x) : 0 ≤ rounded x := by
  have scaled := nearest_nonneg (div_nonneg nonneg (zpow_nonneg two_pos.le (lastPlace x)))
  exact mul_nonneg (Int.cast_nonneg scaled) (zpow_nonneg two_pos.le _)

theorem rounded_zero : rounded 0 = 0 := by
  have none : nearest 0 = 0 := by simpa using nearest_intCast 0
  rw [rounded, zero_div, none, Int.cast_zero, zero_mul]

/-- A rounding moves a number by half of its last place at most. -/
theorem abs_rounded_sub_le_half (x : ℚ) : |rounded x - x| ≤ 2 ^ lastPlace x / 2 := by
  have positive : (0 : ℚ) < 2 ^ lastPlace x := zpow_pos two_pos _
  have scaled : rounded x - x =
      (nearest (x / 2 ^ lastPlace x) - x / 2 ^ lastPlace x) * 2 ^ lastPlace x := by
    rw [rounded, sub_mul, div_mul_cancel₀ _ positive.ne']
  rw [scaled, abs_mul, abs_of_pos positive]
  calc _ ≤ 1 / 2 * (2 : ℚ) ^ lastPlace x :=
        mul_le_mul_of_nonneg_right (abs_nearest_sub_le _) positive.le
    _ = 2 ^ lastPlace x / 2 := by ring

/-- A rounding moves a number by a relative error, or by half of the least place. -/
theorem abs_rounded_sub_le (x : ℚ) : |rounded x - x| ≤ |x| / 2 ^ 24 + 1 / 2 ^ 150 := by
  rcases eq_or_ne x 0 with rfl | nonzero
  · rw [rounded_zero, sub_zero, abs_zero, zero_div, zero_add]
    positivity
  · refine (abs_rounded_sub_le_half x).trans ?_
    unfold lastPlace
    rcases le_total (Int.log 2 |x| - 23) (-149) with small | large
    · have relative : (0 : ℚ) ≤ |x| / 2 ^ 24 := by positivity
      have least : (2 : ℚ) ^ (-149 : ℤ) / 2 = 1 / 2 ^ 150 := by norm_num
      rw [max_eq_right small, least]
      exact le_add_of_nonneg_left relative
    · have below : (2 : ℚ) ^ Int.log 2 |x| ≤ |x| := by
        exact_mod_cast Int.zpow_log_le_self one_lt_two (abs_pos.mpr nonzero)
      have isHalf : (2 : ℚ) ^ (Int.log 2 |x| - 23) / 2 = 2 ^ Int.log 2 |x| / 2 ^ 24 := by
        rw [zpow_sub₀ two_ne_zero, div_div]
        norm_num
      rw [max_eq_left large, isHalf]
      calc (2 : ℚ) ^ Int.log 2 |x| / 2 ^ 24 ≤ |x| / 2 ^ 24 :=
            div_le_div_of_nonneg_right below (by positivity)
        _ ≤ |x| / 2 ^ 24 + 1 / 2 ^ 150 := le_add_of_nonneg_right (by positivity)

/-- A number with few places is not moved. -/
theorem rounded_eq_of_scaled {x : ℚ} {k : ℤ} (scaled : x / 2 ^ lastPlace x = k) :
    rounded x = x := by
  rw [rounded, scaled, nearest_intCast, ← scaled,
    div_mul_cancel₀ _ (zpow_ne_zero _ (two_ne_zero' ℚ))]

/-- A natural number of at most 24 bits is not moved. -/
theorem rounded_natCast {n : ℕ} (few : n < 2 ^ 24) : rounded n = n := by
  have place : lastPlace n ≤ 0 := by
    rcases Nat.eq_zero_or_pos n with rfl | positive
    · simp [lastPlace]
    · have below : (n : ℚ) < (2 : ℕ) ^ (24 : ℤ) := by exact_mod_cast few
      rw [Int.lt_zpow_iff_log_lt one_lt_two (Nat.cast_pos.mpr positive)] at below
      rw [lastPlace, abs_of_nonneg (Nat.cast_nonneg n)]
      omega
  obtain ⟨shift, isShift⟩ := Int.eq_ofNat_of_zero_le (neg_nonneg.mpr place)
  refine rounded_eq_of_scaled (k := n * 2 ^ shift) ?_
  rw [div_eq_mul_inv, ← zpow_neg, isShift]
  push_cast
  rfl

theorem nearest_le {x : ℚ} {k : ℤ} (below : x ≤ k) : nearest x ≤ k := by
  have floor : ⌊x⌋ ≤ k := Int.floor_le_iff.mpr (below.trans_lt (lt_add_one _))
  have strict : 1 / 2 ≤ x - ⌊x⌋ → ⌊x⌋ < k := by
    intro half
    have : (⌊x⌋ : ℚ) < k := by linarith
    exact_mod_cast this
  unfold nearest
  split_ifs with low high even
  · exact floor
  · exact strict high.le
  · exact floor
  · exact strict (not_lt.mp low)

/-- A number of the unit interval stays there. -/
theorem rounded_le_one {x : ℚ} (nonneg : 0 ≤ x) (below : x ≤ 1) : rounded x ≤ 1 := by
  have place : lastPlace x ≤ 0 := by
    rcases nonneg.eq_or_lt with rfl | positive
    · simp [lastPlace]
    · have small : x < (2 : ℕ) ^ (1 : ℤ) := by
        norm_num
        linarith
      rw [Int.lt_zpow_iff_log_lt one_lt_two positive] at small
      rw [lastPlace, abs_of_nonneg nonneg]
      omega
  obtain ⟨shift, isShift⟩ := Int.eq_ofNat_of_zero_le (neg_nonneg.mpr place)
  have isPlace : (2 : ℚ) ^ lastPlace x = (2 ^ shift)⁻¹ := by
    rw [← neg_neg (lastPlace x), isShift, zpow_neg]
    rfl
  have unit : (0 : ℚ) < 2 ^ shift := by positivity
  have scaled : nearest (x / 2 ^ lastPlace x) ≤ 2 ^ shift := by
    refine nearest_le ?_
    rw [isPlace, div_inv_eq_mul]
    push_cast
    exact mul_le_of_le_one_left unit.le below
  rw [rounded, isPlace, ← div_eq_mul_inv, div_le_one unit]
  rw [isPlace] at scaled
  exact_mod_cast scaled

theorem abs_lt_zpow_lastPlace (x : ℚ) : |x| < 2 ^ (24 + lastPlace x) := by
  have below : |x| < (2 : ℚ) ^ (Int.log 2 |x| + 1) := by
    exact_mod_cast Int.lt_zpow_succ_log_self one_lt_two |x|
  refine below.trans_le (zpow_le_zpow_right₀ one_le_two ?_)
  have := le_max_left (Int.log 2 |x| - 23) (-149)
  unfold lastPlace
  omega

/-- A rounding has at most 24 bits. -/
theorem natAbs_nearest_le (x : ℚ) : |nearest (x / 2 ^ lastPlace x)| ≤ 2 ^ 24 := by
  have positive : (0 : ℚ) < 2 ^ lastPlace x := zpow_pos two_pos _
  have few : |x / 2 ^ lastPlace x| < 2 ^ 24 := by
    rw [abs_div, abs_of_pos positive, div_lt_iff₀ positive]
    have below := abs_lt_zpow_lastPlace x
    rw [zpow_add₀ two_ne_zero] at below
    exact_mod_cast below
  have near := abs_nearest_sub_le (x / 2 ^ lastPlace x)
  have : (|nearest (x / 2 ^ lastPlace x)| : ℚ) < 2 ^ 24 + 1 := by
    rw [abs_le] at near
    rw [abs_lt] at few ⊢
    constructor <;> linarith [near.1, near.2, few.1, few.2]
  have : |nearest (x / 2 ^ lastPlace x)| < 2 ^ 24 + 1 := by exact_mod_cast this
  omega

/-- A number that was rounded is not moved again. -/
theorem rounded_rounded (x : ℚ) : rounded (rounded x) = rounded x := by
  obtain ⟨k, isK⟩ : ∃ k, nearest (x / 2 ^ lastPlace x) = k := ⟨_, rfl⟩
  obtain ⟨place, isPlace⟩ : ∃ place, lastPlace x = place := ⟨_, rfl⟩
  have few : |k| ≤ 2 ^ 24 := isK ▸ natAbs_nearest_le x
  have least : -149 ≤ place := isPlace ▸ le_max_right _ _
  have isRounded : rounded x = k * 2 ^ place := by rw [rounded, isK, isPlace]
  rw [isRounded]
  rcases eq_or_ne k 0 with rfl | nonzero
  · rw [Int.cast_zero, zero_mul, rounded_zero]
  · have size : |(k : ℚ) * 2 ^ place| = |(k : ℚ)| * 2 ^ place := by
      rw [abs_mul, abs_of_pos (zpow_pos two_pos place : (0 : ℚ) < 2 ^ place)]
    rcases few.lt_or_eq with short | full
    · have below : lastPlace (k * 2 ^ place) ≤ place := by
        have positive : 0 < |(k : ℚ)| * 2 ^ place :=
          mul_pos (abs_pos.mpr (Int.cast_ne_zero.mpr nonzero)) (zpow_pos two_pos place)
        have bounded : |(k : ℚ)| * 2 ^ place < (2 : ℕ) ^ (24 + place) := by
          rw [zpow_add₀ (by norm_num)]
          push_cast
          refine mul_lt_mul_of_pos_right ?_ (zpow_pos two_pos place)
          exact_mod_cast short
        rw [Int.lt_zpow_iff_log_lt one_lt_two positive] at bounded
        rw [lastPlace, size]
        omega
      obtain ⟨shift, isShift⟩ := Int.eq_ofNat_of_zero_le (sub_nonneg.mpr below)
      refine rounded_eq_of_scaled (k := k * 2 ^ shift) ?_
      rw [mul_div_assoc, ← zpow_sub₀ two_ne_zero, isShift]
      push_cast
      rfl
    · have above : lastPlace (k * 2 ^ place) = place + 1 := by
        have isPower : |(k : ℚ)| * 2 ^ place = (2 : ℕ) ^ (24 + place) := by
          have isFull : |(k : ℚ)| = 2 ^ 24 := by exact_mod_cast full
          rw [isFull, zpow_add₀ (by norm_num)]
          norm_num
        rw [lastPlace, size, isPower, Int.log_zpow one_lt_two]
        omega
      refine rounded_eq_of_scaled (k := k / 2) ?_
      have even : k / 2 * 2 = k := by
        rcases abs_cases k with ⟨isAbs, _⟩ | ⟨isAbs, _⟩ <;> omega
      rw [above, zpow_add_one₀ two_ne_zero, mul_comm ((2 : ℚ) ^ place), mul_div_mul_right _ _
        (zpow_ne_zero _ two_ne_zero), div_eq_iff two_ne_zero]
      exact_mod_cast even.symm

/-! ### Rounding to an integer -/

/-- The nearest integer, and of two the one away from zero. -/
def away (x : ℚ) : ℤ := if 0 ≤ x then ⌊x + 1 / 2⌋ else -⌊-x + 1 / 2⌋

/-- A number that is less than one half from a natural number rounds to it. -/
theorem away_eq {x : ℚ} {n : ℕ} (near : |x - n| < 1 / 2) : away x = n := by
  obtain ⟨low, high⟩ := abs_lt.mp near
  unfold away
  split_ifs with sign
  · rw [Int.floor_eq_iff]
    push_cast
    constructor <;> linarith
  · have isZero : n = 0 := by
      by_contra nonzero
      have one : (1 : ℚ) ≤ n := by exact_mod_cast Nat.one_le_iff_ne_zero.mpr nonzero
      linarith
    subst isZero
    rw [Nat.cast_zero, sub_zero] at low high
    have floor : ⌊-x + 1 / 2⌋ = 0 := by
      rw [Int.floor_eq_zero_iff]
      constructor <;> linarith
    rw [floor]
    rfl

/-! ### Roots -/

/-- The square root, to nearest. The root of a number of the format is never halfway between
two. -/
def sqrt (x : ℚ) : ℚ :=
  ((Nat.sqrt ⌊4 * x / 4 ^ (Int.log 2 x / 2 - 23)⌋₊ + 1) / 2 : ℕ) * 2 ^ (Int.log 2 x / 2 - 23)

/-- The square of a root is close to the number, from below and above. -/
theorem sqrt_sq_bounds {x : ℚ} (positive : 0 < x) :
    x / 4 ≤ sqrt x ^ 2 ∧ sqrt x ^ 2 ≤ 9 / 8 * x := by
  obtain ⟨place, isPlace⟩ : ∃ place, Int.log 2 x / 2 - 23 = place := ⟨_, rfl⟩
  obtain ⟨y, isY⟩ : ∃ y, x / 4 ^ place = y := ⟨_, rfl⟩
  obtain ⟨m, isM⟩ : ∃ m, Nat.sqrt ⌊4 * y⌋₊ = m := ⟨_, rfl⟩
  have unit : (0 : ℚ) < 4 ^ place := zpow_pos four_pos place
  have isX : x = y * 4 ^ place := by rw [← isY, div_mul_cancel₀ _ unit.ne']
  have large : (2 : ℚ) ^ 46 ≤ y := by
    rw [← isY, le_div_iff₀ unit]
    have below : (2 : ℚ) ^ Int.log 2 x ≤ x := by
      exact_mod_cast Int.zpow_log_le_self one_lt_two positive
    refine le_trans ?_ below
    have isFour : (4 : ℚ) ^ place = 2 ^ (2 * place) := by
      rw [zpow_mul]
      norm_num
    rw [isFour, show ((2 : ℚ) ^ 46) = 2 ^ (46 : ℤ) by norm_num, ← zpow_add₀ two_ne_zero]
    refine zpow_le_zpow_right₀ one_le_two ?_
    omega
  have isSqrt : sqrt x = ((m + 1) / 2 : ℕ) * 2 ^ place := by
    rw [sqrt, isPlace, mul_div_assoc, isY, isM]
  have scaled : sqrt x ^ 2 = ((m + 1) / 2 : ℕ) ^ 2 * 4 ^ place := by
    have isFour : ((2 : ℚ) ^ place) ^ 2 = 4 ^ place := by
      rw [← zpow_natCast, ← zpow_mul, mul_comm, zpow_mul]
      norm_num
    rw [isSqrt, mul_pow, isFour]
  have floored : (⌊4 * y⌋₊ : ℚ) ≤ 4 * y := Nat.floor_le (by linarith)
  have next : 4 * y < ⌊4 * y⌋₊ + 1 := Nat.lt_floor_add_one _
  have least : (m : ℚ) ^ 2 ≤ 4 * y := by
    refine le_trans ?_ floored
    rw [← isM, pow_two]
    exact_mod_cast Nat.sqrt_le _
  have most : 4 * y < ((m : ℚ) + 1) ^ 2 := by
    refine next.trans_le ?_
    rw [← isM, pow_two]
    exact_mod_cast Nat.lt_succ_sqrt _
  have long : (2 : ℚ) ^ 23 ≤ m := by
    by_contra short
    have : ((m : ℚ) + 1) ^ 2 ≤ (2 ^ 24) ^ 2 :=
      pow_le_pow_left₀ (by positivity) (by linarith) 2
    linarith
  have halfLow : (m : ℚ) ≤ 2 * ((m + 1) / 2 : ℕ) := by
    exact_mod_cast (by omega : m ≤ 2 * ((m + 1) / 2))
  have halfHigh : 2 * (((m + 1) / 2 : ℕ) : ℚ) ≤ m + 1 := by
    exact_mod_cast (by omega : 2 * ((m + 1) / 2) ≤ m + 1)
  rw [scaled, isX]
  constructor
  · rw [mul_div_right_comm]
    refine mul_le_mul_of_nonneg_right ?_ unit.le
    nlinarith
  · rw [← mul_assoc]
    refine mul_le_mul_of_nonneg_right ?_ unit.le
    nlinarith

theorem sqrt_nonneg (x : ℚ) : 0 ≤ sqrt x :=
  mul_nonneg (Nat.cast_nonneg _) (zpow_nonneg two_pos.le _)

/-! ### Sums of squares -/

/-- One more square. -/
theorem sum_step {sum x : ℚ} (nonneg : 0 ≤ sum) (few : sum + x * x ≤ 2 ^ 11) :
    rounded (sum + rounded (x * x)) ≤ sum + x * x + 1 / 2 ^ 11 ∧
      ∀ least, 0 ≤ least → least ≤ 1 → least ≤ sum →
        least - 1 / 2 ^ 20 ≤ rounded (sum + rounded (x * x)) := by
  have square : 0 ≤ x * x := mul_self_nonneg x
  have isSquare := rounded_nonneg square
  have product := abs_rounded_sub_le (x * x)
  have total := abs_rounded_sub_le (sum + rounded (x * x))
  rw [abs_of_nonneg square, abs_le] at product
  rw [abs_of_nonneg (add_nonneg nonneg isSquare), abs_le] at total
  refine ⟨?_, fun least isNonneg small below => ?_⟩
  · linarith [product.2, total.2]
  · linarith [total.1]

/-- The sum of the squares of some numbers, with every product and sum rounded. -/
theorem foldl_squares_bounds (xs : List ℚ) : ∀ sum : ℚ, 0 ≤ sum →
    sum + (xs.map fun x => x * x).sum + xs.length / 2 ^ 11 ≤ 2 ^ 11 →
    xs.foldl (fun sum x => rounded (sum + rounded (x * x))) sum ≤
        sum + (xs.map fun x => x * x).sum + xs.length / 2 ^ 11 ∧
      ∀ least, 0 ≤ least → least ≤ 1 → least ≤ sum → xs.length / 2 ^ 20 ≤ least →
        least - xs.length / 2 ^ 20 ≤
          xs.foldl (fun sum x => rounded (sum + rounded (x * x))) sum := by
  induction xs with
  | nil =>
    intro sum _ _
    refine ⟨?_, fun least _ _ below _ => ?_⟩
    · simp
    · simpa using below
  | cons x rest inductionHypothesis =>
    intro sum nonneg few
    rw [List.map_cons, List.sum_cons, List.length_cons] at few ⊢
    push_cast at few ⊢
    have square : 0 ≤ x * x := mul_self_nonneg x
    have squares : 0 ≤ (rest.map fun x => x * x).sum :=
      List.sum_nonneg (List.forall_mem_map.mpr fun y _ => mul_self_nonneg y)
    have length : (0 : ℚ) ≤ rest.length := Nat.cast_nonneg _
    have lengths : (0 : ℚ) ≤ rest.length / 2 ^ 11 := by positivity
    rw [add_div] at few
    obtain ⟨upper, lower⟩ := sum_step (x := x) nonneg (by linarith)
    have next := inductionHypothesis _
      (rounded_nonneg (add_nonneg nonneg (rounded_nonneg square))) (by linarith)
    refine ⟨?_, fun least isNonneg small below enough => ?_⟩
    · rw [List.foldl_cons, add_div]
      linarith [next.1]
    · have positive : (0 : ℚ) ≤ rest.length / 2 ^ 20 := by positivity
      rw [add_div] at enough ⊢
      rw [List.foldl_cons]
      have := next.2 (least - 1 / 2 ^ 20) (by linarith) (by linarith)
        (lower least isNonneg small below) (by linarith)
      linarith

/-! ### Scaling and shifting -/

/-- A quotient of two approximations. -/
theorem abs_div_sub_le {a b exactA exactB δ : ℚ} (nonneg : 0 ≤ exactA) (positive : 0 < exactB)
    (nearA : |a - exactA| ≤ δ * exactA) (nearB : |b - exactB| ≤ δ * exactB) (few : δ ≤ 1 / 3) :
    |a / b - exactA / exactB| ≤ 3 * δ * (exactA / exactB) ∧ 0 < b := by
  obtain ⟨lowB, highB⟩ := abs_le.mp nearB
  obtain ⟨lowA, highA⟩ := abs_le.mp nearA
  have positiveB : 0 < b := by nlinarith
  refine ⟨?_, positiveB⟩
  have isQuotient : a / b - exactA / exactB =
      ((a - exactA) * exactB - exactA * (b - exactB)) / (b * exactB) := by
    field_simp
    ring
  rw [isQuotient, abs_div, abs_of_pos (mul_pos positiveB positive), div_le_iff₀
    (mul_pos positiveB positive)]
  have isBound : 3 * δ * (exactA / exactB) * (b * exactB) = 3 * δ * exactA * b := by
    field_simp
  rw [isBound]
  have few' : 0 ≤ δ := nonneg_of_mul_nonneg_left ((abs_nonneg _).trans nearB) positive
  have numerator : |(a - exactA) * exactB - exactA * (b - exactB)| ≤ 2 * δ * exactA * exactB :=
    calc |(a - exactA) * exactB - exactA * (b - exactB)|
        ≤ |(a - exactA) * exactB| + |exactA * (b - exactB)| := abs_sub _ _
      _ = |a - exactA| * exactB + exactA * |b - exactB| := by
          rw [abs_mul, abs_mul, abs_of_pos positive, abs_of_nonneg nonneg]
      _ ≤ δ * exactA * exactB + exactA * (δ * exactB) :=
          add_le_add (mul_le_mul_of_nonneg_right nearA positive.le)
            (mul_le_mul_of_nonneg_left nearB nonneg)
      _ = 2 * δ * exactA * exactB := by ring
  have enough : 2 * exactB ≤ 3 * b := by nlinarith
  calc _ ≤ 2 * δ * exactA * exactB := numerator
    _ = δ * exactA * (2 * exactB) := by ring
    _ ≤ δ * exactA * (3 * b) :=
        mul_le_mul_of_nonneg_left enough (mul_nonneg few' nonneg)
    _ = 3 * δ * exactA * b := by ring

/-- A number that is divided and shifted, with both results rounded. -/
theorem abs_shifted_sub_le {x n ε : ℚ} (nonneg : 0 ≤ x) (positive : 0 < n)
    (shifts : 1 / 2 ^ 21 ≤ ε) :
    |rounded (rounded (x / n) + ε) - (x / n + ε)| ≤ 1 / 2 ^ 22 * (x / n + ε) := by
  have quotient : 0 ≤ x / n := div_nonneg nonneg positive.le
  have divided := abs_rounded_sub_le (x / n)
  have shifted := abs_rounded_sub_le (rounded (x / n) + ε)
  have isNonneg := rounded_nonneg quotient
  rw [abs_of_nonneg quotient] at divided
  rw [abs_of_nonneg (by linarith : 0 ≤ rounded (x / n) + ε)] at shifted
  rw [abs_le] at divided shifted ⊢
  constructor <;> linarith [divided.1, divided.2, shifted.1, shifted.2]

/-- The ratio of a number to one, both divided and shifted, is close to the number. -/
theorem abs_recovered_sub_le {x n ε : ℚ} (nonneg : 0 ≤ x) (positive : 0 < n)
    (shifts : 1 / 2 ^ 21 ≤ ε) :
    |rounded (rounded (rounded (x / n) + ε) / rounded (rounded (1 / n) + ε)) - x| ≤
        (1 / 2 ^ 20 + ε * n) * max 1 x + 1 / 2 ^ 150 ∧
      0 < rounded (rounded (1 / n) + ε) := by
  have exactA : 0 ≤ x / n + ε := by linarith [div_nonneg nonneg positive.le]
  have exactB : 0 < 1 / n + ε := by linarith [div_pos one_pos positive]
  obtain ⟨near, isPositive⟩ := abs_div_sub_le exactA exactB
    (abs_shifted_sub_le nonneg positive shifts) (abs_shifted_sub_le zero_le_one positive shifts)
    (by norm_num)
  refine ⟨?_, isPositive⟩
  obtain ⟨ratio, isRatio⟩ : ∃ ratio, (x / n + ε) / (1 / n + ε) = ratio := ⟨_, rfl⟩
  obtain ⟨quotient, isQuotient⟩ : ∃ quotient, rounded (rounded (x / n) + ε) /
    rounded (rounded (1 / n) + ε) = quotient := ⟨_, rfl⟩
  rw [isRatio, isQuotient] at near
  rw [isQuotient]
  have total : 0 < 1 + ε * n := by nlinarith
  have isRatio' : ratio = (x + ε * n) / (1 + ε * n) := by
    rw [← isRatio]
    field_simp
  have shifted : 0 < ε * n := mul_pos (by linarith) positive
  have most : ratio ≤ max 1 x := by
    rw [isRatio', div_le_iff₀ total]
    nlinarith [le_max_left 1 x, le_max_right 1 x]
  have least : 0 ≤ ratio := isRatio ▸ div_nonneg exactA exactB.le
  have moved : |ratio - x| ≤ ε * n * max 1 x := by
    have isMove : ratio - x = ε * n * (1 - x) / (1 + ε * n) := by
      rw [isRatio', eq_div_iff total.ne', sub_mul, div_mul_cancel₀ _ total.ne']
      ring
    have away : |1 - x| ≤ max 1 x := by
      rw [abs_le]
      constructor <;> linarith [le_max_left 1 x, le_max_right 1 x]
    rw [isMove, abs_div, abs_of_pos total, abs_mul, abs_of_pos shifted, div_le_iff₀ total]
    nlinarith [abs_nonneg (1 - x), mul_le_mul_of_nonneg_left away shifted.le,
      mul_nonneg shifted.le (zero_le_one.trans (le_max_left 1 x))]
  have last := abs_rounded_sub_le quotient
  have size : |quotient| ≤ 2 * ratio := by
    rw [abs_le] at near ⊢
    constructor <;> linarith [near.1, near.2]
  rw [abs_le] at near moved last ⊢
  constructor <;> linarith [near.1, near.2, moved.1, moved.2, last.1, last.2]

end Binary32

/-! ### Numbers of the format -/

/-- A number of the format. -/
structure Binary32 where
  value : ℚ
  isRounded : Binary32.rounded value = value
deriving DecidableEq

namespace Binary32

/-- The number of the format that is nearest to a rational number. -/
def ofRat (x : ℚ) : Binary32 := ⟨rounded x, rounded_rounded x⟩

/-- `n as f32`. -/
def ofNat (n : ℕ) : Binary32 := ofRat n

instance : Add Binary32 := ⟨fun a b => ofRat (a.value + b.value)⟩

instance : Sub Binary32 := ⟨fun a b => ofRat (a.value - b.value)⟩

instance : Mul Binary32 := ⟨fun a b => ofRat (a.value * b.value)⟩

instance : Div Binary32 := ⟨fun a b => ofRat (a.value / b.value)⟩

@[simp] theorem value_add (a b : Binary32) : (a + b).value = rounded (a.value + b.value) := rfl

@[simp] theorem value_mul (a b : Binary32) : (a * b).value = rounded (a.value * b.value) := rfl

@[simp] theorem value_div (a b : Binary32) : (a / b).value = rounded (a.value / b.value) := rfl

/-- The square root. -/
def root (a : Binary32) : Binary32 := ofRat (sqrt a.value)

/-- Restrict a number to an interval. -/
def clamp (a least most : Binary32) : Binary32 :=
  if a.value < least.value then least else if most.value < a.value then most else a

/-- `a.round() as usize`. -/
def toIndex (a : Binary32) : ℕ := min (away a.value).toNat (2 ^ 64 - 1)

/-- A number close to a natural number rounds to it. -/
theorem toIndex_eq {a : Binary32} {n : ℕ} (near : |a.value - n| < 1 / 2) (few : n < 2 ^ 64) :
    a.toIndex = n := by
  rw [toIndex, away_eq near, Int.toNat_natCast]
  exact min_eq_left (Nat.le_sub_one_of_lt few)

end Binary32

