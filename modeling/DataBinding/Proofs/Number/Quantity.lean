import DataBinding.Number.Basic
import Mathlib.Algebra.Order.Field.Power
import Mathlib.Data.Rat.Cast.Order
import Mathlib.Tactic.Positivity
import Mathlib.Tactic.Ring

/-!
# What a number stands for

The bits of a number stand for a quantity: a rational number or one of
the infinities. A NaN stands for nothing. The equality of numbers is
defined on the bits; `same_iff_quantity` says that it is equality of
quantities. For that, finite numbers other than the zeros must stand for
different quantities if their bits differ. The exponent field decides
between numbers of different scale (`magnitude_lt`): a number of a larger
scale than the least has its leading bit set, so that it is above all
numbers of a smaller one.
-/

namespace DataBinding

/-- What a number can stand for. -/
inductive Quantity
  | finite (value : ℚ)
  | infinite (negative : Bool)
deriving DecidableEq

namespace Number

variable {a b : Number}

/-! ## Fields -/

theorem fractionField_lt (n : Number) : n.fractionField < exponentWeight :=
  Nat.mod_lt _ (by decide)

theorem isNegative_iff (n : Number) : n.isNegative = true ↔ signWeight ≤ n.bits.toNat :=
  decide_eq_true_iff

theorem bits_eq (n : Number) :
    n.bits.toNat = (if n.isNegative then signWeight else 0) +
      n.exponentField * exponentWeight + n.fractionField := by
  have hlt := n.bits.toNat_lt
  simp only [isNegative_iff, exponentField, fractionField, signWeight, exponentWeight]
  split <;> omega

/-- The three fields are all there is to a number. -/
theorem eq_of_fields (hsign : a.isNegative = b.isNegative)
    (hexponent : a.exponentField = b.exponentField)
    (hfraction : a.fractionField = b.fractionField) : a = b := by
  have hbits : a.bits = b.bits := by
    rw [← UInt64.toNat_inj, bits_eq a, bits_eq b, hsign, hexponent, hfraction]
  cases a
  cases b
  exact congrArg Number.mk hbits

theorem isZero_iff (n : Number) : n.isZero = true ↔ n.significand = 0 := by
  simp only [isZero, significand, exponentWeight, Bool.and_eq_true, decide_eq_true_eq]
  split <;> omega

theorem eq_of_significand (hsign : a.isNegative = b.isNegative)
    (hsignificand : a.significand = b.significand) (hscale : a.scale = b.scale) : a = b := by
  have ha := fractionField_lt a
  have hb := fractionField_lt b
  simp only [significand] at hsignificand
  simp only [scale] at hscale
  -- the least two exponents share a scale; the leading bit of the significand tells them apart
  have hexponent : a.exponentField = b.exponentField := by
    split_ifs at hsignificand hscale <;> omega
  refine eq_of_fields hsign hexponent ?_
  rw [hexponent] at hsignificand
  split_ifs at hsignificand <;> omega

/-! ## Magnitudes -/

/-- The absolute value of a finite number. -/
def magnitude (n : Number) : ℚ :=
  n.significand * 2 ^ n.scale

theorem magnitude_nonneg (n : Number) : 0 ≤ n.magnitude := by
  unfold magnitude
  positivity

theorem magnitude_eq_zero_iff (n : Number) : n.magnitude = 0 ↔ n.isZero = true := by
  have hpower : (2 : ℚ) ^ n.scale ≠ 0 := zpow_ne_zero _ two_ne_zero
  rw [isZero_iff, magnitude, mul_eq_zero, or_iff_left hpower, Nat.cast_eq_zero]

theorem significand_lt (n : Number) : n.significand < 2 * exponentWeight := by
  have hfraction := fractionField_lt n
  simp only [significand]
  split <;> omega

/-- Above the least scale the leading bit is set. -/
theorem le_significand (h : a.scale < b.scale) : exponentWeight ≤ b.significand := by
  simp only [scale] at h
  simp only [significand]
  split
  · split at h <;> omega
  · omega

theorem magnitude_lt (h : a.scale < b.scale) : a.magnitude < b.magnitude := by
  have hdouble : a.significand < 2 * b.significand := by
    have := significand_lt a
    have := le_significand h
    omega
  have hscale : (2 : ℚ) ^ (a.scale + 1) ≤ 2 ^ b.scale :=
    zpow_le_zpow_right₀ one_le_two h
  calc a.magnitude
      < (2 * b.significand : ℕ) * 2 ^ a.scale :=
        mul_lt_mul_of_pos_right (Nat.cast_lt.2 hdouble) (zpow_pos two_pos _)
    _ = b.significand * 2 ^ (a.scale + 1) := by
        rw [zpow_add_one₀ two_ne_zero]
        push_cast
        ring
    _ ≤ b.magnitude := mul_le_mul_of_nonneg_left hscale (Nat.cast_nonneg _)

/-- Finite numbers of one sign are known by their absolute value. -/
theorem eq_of_magnitude (hsign : a.isNegative = b.isNegative)
    (h : a.magnitude = b.magnitude) : a = b := by
  have hscale : a.scale = b.scale :=
    le_antisymm (not_lt.1 fun hlt => (magnitude_lt hlt).ne h.symm)
      (not_lt.1 fun hlt => (magnitude_lt hlt).ne h)
  have hsignificand : a.significand = b.significand := by
    rw [magnitude, magnitude, hscale] at h
    exact Nat.cast_injective (mul_right_cancel₀ (zpow_ne_zero _ two_ne_zero) h)
  exact eq_of_significand hsign hsignificand hscale

/-! ## Quantities -/

/-- The value of a finite number. -/
def signed (n : Number) : ℚ :=
  if n.isNegative then -n.magnitude else n.magnitude

/-- What a number stands for, if it is not a NaN. -/
def quantity? (n : Number) : Option Quantity :=
  if n.isNaN then none
  else if n.isInfinite then some (.infinite n.isNegative)
  else some (.finite n.signed)

example : (⟨0xbff8000000000000⟩ : Number).quantity? = some (.finite (-3 / 2)) := by
  decide +kernel

theorem quantity?_eq_none_iff (n : Number) : n.quantity? = none ↔ n.isNaN = true := by
  unfold quantity?
  split
  · simp [*]
  · split <;> simp [*]

theorem quantity?_of_zero {n : Number} (h : n.isZero = true) :
    n.quantity? = some (.finite 0) := by
  have hexponent : n.exponentField = 0 := by
    simp only [isZero, Bool.and_eq_true, decide_eq_true_eq] at h
    exact h.1
  have hmagnitude : n.magnitude = 0 := (magnitude_eq_zero_iff n).2 h
  simp [quantity?, isNaN, isInfinite, signed, hexponent, hmagnitude]

theorem signed_of_quantity {n : Number} {value : ℚ}
    (h : n.quantity? = some (.finite value)) : n.signed = value := by
  unfold quantity? at h
  split at h
  · cases h
  · split at h <;> cases h
    rfl

theorem infinite_of_quantity {n : Number} {negative : Bool}
    (h : n.quantity? = some (.infinite negative)) :
    n.isInfinite = true ∧ n.isNegative = negative := by
  unfold quantity? at h
  split at h
  · cases h
  · split at h <;> cases h
    exact ⟨‹_›, rfl⟩

theorem abs_signed (n : Number) : |n.signed| = n.magnitude := by
  unfold signed
  split
  · rw [abs_neg, abs_of_nonneg n.magnitude_nonneg]
  · exact abs_of_nonneg n.magnitude_nonneg

/-- Away from the zeros the sign bit is the sign. -/
theorem signed_neg_iff {n : Number} (h : n.isZero = false) :
    n.signed < 0 ↔ n.isNegative = true := by
  have hpos : 0 < n.magnitude :=
    n.magnitude_nonneg.lt_of_ne' fun hzero => by simp [(magnitude_eq_zero_iff n).1 hzero] at h
  unfold signed
  split
  · simp [*]
  · simp [*, hpos.le]

/-- The zeros are the only two finite numbers with one value. -/
theorem eq_or_zeros_of_signed (h : a.signed = b.signed) :
    a = b ∨ a.isZero = true ∧ b.isZero = true := by
  have hmagnitude : a.magnitude = b.magnitude := by rw [← abs_signed, ← abs_signed, h]
  have hzero : a.isZero = b.isZero := by
    rw [Bool.eq_iff_iff, ← magnitude_eq_zero_iff, ← magnitude_eq_zero_iff, hmagnitude]
  cases ha : a.isZero with
  | true => exact .inr ⟨rfl, hzero ▸ ha⟩
  | false =>
      have hsign : a.isNegative = b.isNegative := by
        rw [Bool.eq_iff_iff, ← signed_neg_iff ha, ← signed_neg_iff (hzero ▸ ha), h]
      exact .inl (eq_of_magnitude hsign hmagnitude)

/-- An infinity is its sign. -/
theorem eq_of_infinite (ha : a.isInfinite = true) (hb : b.isInfinite = true)
    (hsign : a.isNegative = b.isNegative) : a = b := by
  simp only [isInfinite, Bool.and_eq_true, decide_eq_true_eq] at ha hb
  exact eq_of_fields hsign (ha.1.trans hb.1.symm) (ha.2.trans hb.2.symm)

theorem eq_or_zeros_of_quantity {q : Quantity} (ha : a.quantity? = some q)
    (hb : b.quantity? = some q) : a = b ∨ a.isZero = true ∧ b.isZero = true := by
  cases q with
  | finite value =>
      exact eq_or_zeros_of_signed ((signed_of_quantity ha).trans (signed_of_quantity hb).symm)
  | infinite negative =>
      obtain ⟨hinfinite, hsign⟩ := infinite_of_quantity ha
      obtain ⟨hinfinite', hsign'⟩ := infinite_of_quantity hb
      exact .inl (eq_of_infinite hinfinite hinfinite' (hsign.trans hsign'.symm))

/-- Numbers are the same if they stand for the same quantity. -/
theorem same_iff_quantity :
    a.same b = true ↔ ∃ q, a.quantity? = some q ∧ b.quantity? = some q := by
  rw [same_iff_eq_or_zeros]
  constructor
  · rintro (⟨rfl, hnumber⟩ | ⟨ha, hb⟩)
    · obtain ⟨q, hq⟩ := Option.ne_none_iff_exists'.1 fun hnone => by
        simp [(quantity?_eq_none_iff a).1 hnone] at hnumber
      exact ⟨q, hq, hq⟩
    · exact ⟨.finite 0, quantity?_of_zero ha, quantity?_of_zero hb⟩
  · rintro ⟨q, ha, hb⟩
    refine (eq_or_zeros_of_quantity ha hb).imp_left fun heq => ⟨heq, ?_⟩
    cases hnan : a.isNaN with
    | false => rfl
    | true => rw [(quantity?_eq_none_iff a).2 hnan] at ha; cases ha

end Number

end DataBinding
