import Mathlib.Data.EReal.Basic
import Mathlib.Data.EReal.Operations

/-!
# Binary floating-point formats

A format has a sign bit, an exponent field and a fraction field, and a pattern is a natural number
with these fields. `value` reads a pattern as an extended real number, in the way of arithmetic
without subnormal numbers and NaNs : a pattern whose exponent field is zero is 0, and one whose
exponent field is all ones is infinite, whatever its fraction is.

The order of the values is that of whole numbers. `key` is the pattern without its sign bit, with
the fraction cleared where `value` does not look at it, and negated for a set sign bit.
`value_lt_iff` and `value_eq_iff` say that keys compare as values do.
-/

/-- The number of bits of the exponent and of the fraction. -/
structure FloatFormat where
  expBits : ℕ
  fracBits : ℕ

namespace FloatFormat

/-! ## Patterns and their values -/

section Fields

variable (F : FloatFormat) (x : ℕ)

/-- What is added to an exponent in its field. -/
def bias : ℕ := 2 ^ (F.expBits - 1) - 1

/-- The exponent field of an infinity. -/
def maxExp : ℕ := 2 ^ F.expBits - 1

/-- The sign bit is set. -/
def isNeg : Bool := x.testBit (F.expBits + F.fracBits)

/-- The exponent field. -/
def expField : ℕ := x / 2 ^ F.fracBits % 2 ^ F.expBits

/-- The fraction field. -/
def frac : ℕ := x % 2 ^ F.fracBits

/-- The fraction with the leading one of a normal number. -/
def significand : ℕ := 2 ^ F.fracBits + F.frac x

/-- The absolute value of a normal number. -/
noncomputable def normal : ℝ :=
  ((F.significand x * 2 ^ F.expField x : ℕ) : ℝ) / 2 ^ (F.bias + F.fracBits)

/-- The absolute value of a pattern. -/
noncomputable def magnitude : EReal :=
  if F.expField x = 0 then 0 else if F.expField x = F.maxExp then ⊤ else F.normal x

/-- The value of a pattern. -/
noncomputable def value : EReal :=
  if F.isNeg x then -F.magnitude x else F.magnitude x

/-- The pattern without its sign, with the fraction that has a meaning. -/
def absKey : ℕ :=
  if F.expField x = 0 ∨ F.expField x = F.maxExp then F.expField x * 2 ^ F.fracBits
  else F.expField x * 2 ^ F.fracBits + F.frac x

/-- The number that stands for the place of a pattern in the order. -/
def key : ℤ :=
  if F.isNeg x then -F.absKey x else F.absKey x

/-- A pattern with an exponent field of zero or all ones has no fraction. -/
def Plain : Prop :=
  F.expField x = 0 ∨ F.expField x = F.maxExp → F.frac x = 0

instance : Decidable (F.Plain x) :=
  inferInstanceAs (Decidable (_ → _))

end Fields

/-! ## Order -/

variable {F : FloatFormat} {x y : ℕ}

theorem frac_lt : F.frac x < 2 ^ F.fracBits :=
  Nat.mod_lt _ (Nat.two_pow_pos _)

theorem expField_le : F.expField x ≤ F.maxExp :=
  Nat.le_sub_one_of_lt (Nat.mod_lt _ (Nat.two_pow_pos _))

theorem normal_pos : 0 < F.normal x := by
  have hsig : 0 < F.significand x * 2 ^ F.expField x :=
    Nat.mul_pos (Nat.add_pos_left (Nat.two_pow_pos _) _) (Nat.two_pow_pos _)
  unfold normal
  positivity

theorem magnitude_nonneg : 0 ≤ F.magnitude x := by
  unfold magnitude
  split_ifs
  · exact le_refl 0
  · exact le_top
  · exact EReal.coe_nonneg.mpr normal_pos.le

/-- Normal numbers are in the order of their exponents and fractions. -/
theorem normal_lt (h : F.expField x * 2 ^ F.fracBits + F.frac x <
    F.expField y * 2 ^ F.fracBits + F.frac y) : F.normal x < F.normal y := by
  have hx : F.frac x < 2 ^ F.fracBits := frac_lt
  have hy : F.frac y < 2 ^ F.fracBits := frac_lt
  have hexp : F.expField x ≤ F.expField y := by
    by_contra! hlt
    have := Nat.mul_le_mul_right (2 ^ F.fracBits) hlt
    rw [Nat.succ_mul] at this
    omega
  have hscaled : F.significand x * 2 ^ F.expField x < F.significand y * 2 ^ F.expField y := by
    rcases Nat.eq_or_lt_of_le hexp with heq | hlt
    · rw [heq] at h ⊢
      exact Nat.mul_lt_mul_of_pos_right (by unfold significand; omega) (Nat.two_pow_pos _)
    · calc F.significand x * 2 ^ F.expField x
          < (2 * 2 ^ F.fracBits) * 2 ^ F.expField x :=
            Nat.mul_lt_mul_of_pos_right (by unfold significand; omega) (Nat.two_pow_pos _)
        _ = 2 ^ F.fracBits * 2 ^ (F.expField x + 1) := by ring
        _ ≤ 2 ^ F.fracBits * 2 ^ F.expField y :=
            Nat.mul_le_mul_left _ (Nat.pow_le_pow_right (by omega) hlt)
        _ ≤ F.significand y * 2 ^ F.expField y :=
            Nat.mul_le_mul_right _ (Nat.le_add_right _ _)
  unfold normal
  gcongr

theorem magnitude_lt (h : F.absKey x < F.absKey y) : F.magnitude x < F.magnitude y := by
  have hle : F.absKey y ≤ F.maxExp * 2 ^ F.fracBits := by
    unfold absKey
    split_ifs with hy
    · exact Nat.mul_le_mul_right _ expField_le
    · have hlt : F.expField y + 1 ≤ F.maxExp :=
        Nat.lt_of_le_of_ne expField_le (fun h => hy (.inr h))
      have := Nat.mul_le_mul_right (2 ^ F.fracBits) hlt
      have hf : F.frac y < 2 ^ F.fracBits := frac_lt
      rw [Nat.succ_mul] at this
      omega
  unfold magnitude
  by_cases hx : F.expField x = 0
  · have hy : F.expField y ≠ 0 := by
      intro hy
      simp [absKey, hx, hy] at h
    rw [if_pos hx, if_neg hy]
    split_ifs
    · exact EReal.zero_lt_top
    · exact EReal.coe_pos.mpr normal_pos
  by_cases hxmax : F.expField x = F.maxExp
  · rw [absKey, if_pos (.inr hxmax), hxmax] at h
    omega
  have hy : F.expField y ≠ 0 := by
    intro hy
    simp [absKey, hy] at h
  rw [if_neg hx, if_neg hxmax, if_neg hy]
  split_ifs with hymax
  · exact EReal.coe_lt_top _
  · rw [absKey, absKey, if_neg (by tauto), if_neg (by tauto)] at h
    exact EReal.coe_lt_coe_iff.mpr (normal_lt h)

theorem absKey_div : F.absKey x / 2 ^ F.fracBits = F.expField x := by
  unfold absKey
  split_ifs
  · exact Nat.mul_div_cancel _ (Nat.two_pow_pos _)
  · rw [Nat.add_comm, Nat.add_mul_div_right _ _ (Nat.two_pow_pos _), Nat.div_eq_of_lt frac_lt,
      Nat.zero_add]

theorem absKey_lt : F.absKey x < 2 ^ (F.expBits + F.fracBits) := by
  have hexp : F.expField x + 1 ≤ 2 ^ F.expBits := Nat.mod_lt _ (Nat.two_pow_pos _)
  have hfrac : F.frac x < 2 ^ F.fracBits := frac_lt
  have hmul := Nat.mul_le_mul_right (2 ^ F.fracBits) hexp
  rw [Nat.succ_mul, ← Nat.pow_add] at hmul
  unfold absKey
  split_ifs <;> omega

theorem magnitude_eq (h : F.absKey x = F.absKey y) : F.magnitude x = F.magnitude y := by
  have hexp : F.expField x = F.expField y := by rw [← absKey_div, h, absKey_div]
  unfold magnitude
  rw [hexp]
  split_ifs with hzero hmax
  · rfl
  · rfl
  · have hfrac : F.frac x = F.frac y := by
      rw [absKey, absKey, hexp, if_neg (by tauto), if_neg (by tauto)] at h
      omega
    rw [normal, normal, significand, significand, hfrac, hexp]

theorem magnitude_zero_iff : F.magnitude x = 0 ↔ F.absKey x = 0 := by
  have hzero : F.absKey 0 = 0 := by simp [absKey, expField]
  have hmag : F.magnitude 0 = 0 := by simp [magnitude, expField]
  rcases Nat.eq_zero_or_pos (F.absKey x) with h | h
  · exact iff_of_true ((magnitude_eq (h.trans hzero.symm)).trans hmag) h
  · have := magnitude_lt (F := F) (x := 0) (y := x) (by omega)
    exact iff_of_false (hmag ▸ this).ne' h.ne'

/-- Values compare as keys. -/
theorem value_lt (h : F.key x < F.key y) : F.value x < F.value y := by
  unfold key at h
  unfold value
  split_ifs at h ⊢ with hx hy hy
  · exact EReal.neg_lt_neg_iff.mpr (magnitude_lt (by omega))
  · rcases Nat.eq_zero_or_pos (F.absKey x) with hzero | hpos
    · rw [magnitude_zero_iff.mpr hzero, neg_zero, ← magnitude_zero_iff.mpr hzero]
      exact magnitude_lt (by omega)
    · have hneg : -F.magnitude x < 0 := by
        rw [EReal.neg_lt_zero]
        refine lt_of_le_of_ne magnitude_nonneg fun h => ?_
        exact hpos.ne' (magnitude_zero_iff.mp h.symm)
      exact hneg.trans_le magnitude_nonneg
  · omega
  · exact magnitude_lt (by omega)

theorem value_eq (h : F.key x = F.key y) : F.value x = F.value y := by
  unfold key at h
  unfold value
  split_ifs at h ⊢ with hx hy hy
  · rw [magnitude_eq (show F.absKey x = F.absKey y by omega)]
  · rw [magnitude_zero_iff.mpr (show F.absKey x = 0 by omega),
      magnitude_zero_iff.mpr (show F.absKey y = 0 by omega), neg_zero]
  · rw [magnitude_zero_iff.mpr (show F.absKey x = 0 by omega),
      magnitude_zero_iff.mpr (show F.absKey y = 0 by omega), neg_zero]
  · exact magnitude_eq (by omega)

theorem value_lt_iff : F.value x < F.value y ↔ F.key x < F.key y := by
  refine ⟨fun h => ?_, value_lt⟩
  rcases lt_trichotomy (F.key x) (F.key y) with hlt | heq | hgt
  · exact hlt
  · exact absurd (value_eq heq) h.ne
  · exact absurd (value_lt hgt) (lt_asymm h)

theorem value_eq_iff : F.value x = F.value y ↔ F.key x = F.key y := by
  refine ⟨fun h => ?_, value_eq⟩
  rcases lt_trichotomy (F.key x) (F.key y) with hlt | heq | hgt
  · exact absurd h (value_lt hlt).ne
  · exact heq
  · exact absurd h (value_lt hgt).ne'

end FloatFormat
