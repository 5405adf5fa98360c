import Mathlib.Algebra.BigOperators.Intervals
import Mathlib.Algebra.BigOperators.Ring.Finset
import Mathlib.Tactic.Ring

/-!
# Numbers in fields

A number is taken as a list of fields of one width (`fieldSum`). While no field overflows, sums,
masks and shifts by the width act field by field.
-/

namespace BitFields

variable {w n : ℕ} {f g : ℕ → ℕ}

/-- The number with the fields `f 0`, …, `f (n - 1)` of `w` bits, where `f 0` is the lowest one. -/
def fieldSum (w n : ℕ) (f : ℕ → ℕ) : ℕ :=
  ∑ k ∈ Finset.range n, f k * 2 ^ (w * k)

theorem fieldSum_zero (w : ℕ) (f : ℕ → ℕ) : fieldSum w 0 f = 0 :=
  Finset.sum_range_zero _

/-- The lowest field and the others. -/
theorem fieldSum_succ' (w n : ℕ) (f : ℕ → ℕ) :
    fieldSum w (n + 1) f = f 0 + 2 ^ w * fieldSum w n fun k => f (k + 1) := by
  rw [fieldSum, Finset.sum_range_succ', Nat.mul_zero, Nat.pow_zero, Nat.mul_one, Nat.add_comm,
    fieldSum, Finset.mul_sum]
  congr 1
  refine Finset.sum_congr rfl fun k _ => ?_
  rw [Nat.mul_succ, Nat.pow_add]
  ring

/-- The highest field and the others. -/
theorem fieldSum_succ (w n : ℕ) (f : ℕ → ℕ) :
    fieldSum w (n + 1) f = fieldSum w n f + f n * 2 ^ (w * n) :=
  Finset.sum_range_succ _ n

theorem fieldSum_congr (h : ∀ k < n, f k = g k) : fieldSum w n f = fieldSum w n g :=
  Finset.sum_congr rfl fun k hk => by rw [h k (Finset.mem_range.mp hk)]

theorem fieldSum_add (w n : ℕ) (f g : ℕ → ℕ) :
    fieldSum w n f + fieldSum w n g = fieldSum w n fun k => f k + g k := by
  rw [fieldSum, fieldSum, ← Finset.sum_add_distrib]
  exact Finset.sum_congr rfl fun k _ => (Nat.add_mul _ _ _).symm

theorem fieldSum_lt (h : ∀ k < n, f k < 2 ^ w) : fieldSum w n f < 2 ^ (w * n) := by
  induction n generalizing f with
  | zero => exact Nat.one_pos
  | succ n ih =>
    have h0 := h 0 (Nat.succ_pos n)
    have hrest := ih fun k hk => h (k + 1) (Nat.succ_lt_succ hk)
    rw [fieldSum_succ', Nat.mul_succ, Nat.pow_add, Nat.mul_comm (2 ^ (w * n))]
    calc f 0 + 2 ^ w * fieldSum w n (fun k => f (k + 1))
      _ < 2 ^ w * (fieldSum w n (fun k => f (k + 1)) + 1) := by
        rw [Nat.mul_succ]
        omega
      _ ≤ 2 ^ w * 2 ^ (w * n) := Nat.mul_le_mul_left _ hrest

/-- A number has the fields that divisions by powers of two give. -/
theorem eq_fieldSum {x : ℕ} (h : x < 2 ^ (w * n)) :
    x = fieldSum w n fun k => x / 2 ^ (w * k) % 2 ^ w := by
  induction n generalizing x with
  | zero =>
    rw [fieldSum_zero]
    exact Nat.lt_one_iff.mp h
  | succ n ih =>
    have hdiv : x / 2 ^ w < 2 ^ (w * n) := by
      rw [Nat.div_lt_iff_lt_mul (Nat.two_pow_pos w), ← Nat.pow_add]
      exact h
    have hfields : (fun k => x / 2 ^ w / 2 ^ (w * k) % 2 ^ w) =
        fun k => x / 2 ^ (w * (k + 1)) % 2 ^ w := by
      funext k
      rw [Nat.div_div_eq_div_mul, ← Nat.pow_add, Nat.mul_succ, Nat.add_comm]
    rw [fieldSum_succ', Nat.mul_zero, Nat.pow_zero, Nat.div_one, ← hfields, ← ih hdiv,
      Nat.mod_add_div]

/-- A shift by the width drops the lowest field. -/
theorem fieldSum_div (h : f 0 < 2 ^ w) :
    fieldSum w (n + 1) f / 2 ^ w = fieldSum w n fun k => f (k + 1) := by
  rw [fieldSum_succ', Nat.add_mul_div_left _ _ (Nat.two_pow_pos w), Nat.div_eq_of_lt h,
    Nat.zero_add]

/-- A bitwise and splits at any place. -/
theorem land_split (x m t : ℕ) :
    x &&& m = (x % 2 ^ t &&& m % 2 ^ t) + 2 ^ t * (x / 2 ^ t &&& m / 2 ^ t) := by
  rw [← Nat.and_mod_two_pow, ← Nat.and_div_two_pow, Nat.mod_add_div]

/-- A mask acts field by field. -/
theorem fieldSum_land (hf : ∀ k < n, f k < 2 ^ w) (hg : ∀ k < n, g k < 2 ^ w) :
    fieldSum w n f &&& fieldSum w n g = fieldSum w n fun k => f k &&& g k := by
  induction n generalizing f g with
  | zero => rw [fieldSum_zero, fieldSum_zero, fieldSum_zero, Nat.zero_and]
  | succ n ih =>
    have hrest := ih (f := fun k => f (k + 1)) (g := fun k => g (k + 1))
      (fun k hk => hf (k + 1) (Nat.succ_lt_succ hk)) (fun k hk => hg (k + 1) (Nat.succ_lt_succ hk))
    have hf0 := hf 0 (Nat.succ_pos n)
    have hg0 := hg 0 (Nat.succ_pos n)
    rw [land_split _ _ w, fieldSum_div hf0, fieldSum_div hg0, hrest, fieldSum_succ' w n f,
      fieldSum_succ' w n g, Nat.add_mul_mod_self_left, Nat.add_mul_mod_self_left,
      Nat.mod_eq_of_lt hf0, Nat.mod_eq_of_lt hg0, fieldSum_succ']

end BitFields
