import Mathlib.Algebra.Order.Field.Power
import Mathlib.Algebra.Order.Floor.Ring
import Mathlib.Data.Int.Log
import Mathlib.Data.Rat.Floor
import Mathlib.Tactic.FieldSimp
import Mathlib.Tactic.Linarith
import PicoBootrom.FloatFormat

/-!
# Rounding to a binary floating-point format

`roundEven` is the nearest whole number, and the even one of two that are equally near. A rational
number is rounded to a format by `rounded` : to as many bits as a significand has, as if there were
exponent fields for all powers of two, and a result without an exponent field of its own becomes a
zero or an infinity of its sign.

`packed` clears a number that is too small before it is rounded, and is what code computes with
significands and exponents (`absPacked_eq`). The two agree on the sums of numbers of the format
(`absRounded_eq_absPacked`). What code does not compute exactly is rounded in the same way, if it is
next to an odd number (`absPacked_sticky`) or too small to be seen (`absRounded_add`).
-/

/-! ## Whole numbers -/

/-- The nearest whole number, and the even one of two. -/
def roundEven (q : ℚ) : ℤ :=
  if q - ⌊q⌋ < 1 / 2 then ⌊q⌋ else if 1 / 2 < q - ⌊q⌋ then ⌊q⌋ + 1 else ⌊q⌋ + ⌊q⌋ % 2

section WholeNumbers

variable {q : ℚ} {n : ℤ}

theorem abs_roundEven_sub_le (q : ℚ) : |(roundEven q : ℚ) - q| ≤ 1 / 2 := by
  have hlo := Int.floor_le q
  have hhi := Int.lt_floor_add_one q
  have hmod : ⌊q⌋ % 2 = 0 ∨ ⌊q⌋ % 2 = 1 := Int.emod_two_eq_zero_or_one _
  unfold roundEven
  split_ifs with h h'
  · rw [abs_le]
    constructor <;> linarith
  · push_cast
    rw [abs_le]
    constructor <;> linarith
  · rcases hmod with hmod | hmod <;> rw [hmod] <;> push_cast <;> rw [abs_le] <;>
      constructor <;> linarith

theorem roundEven_of_abs_lt (h : |q - n| < 1 / 2) : roundEven q = n := by
  have hround := abs_roundEven_sub_le q
  have hsum := abs_add_le ((roundEven q : ℚ) - q) (q - n)
  rw [sub_add_sub_cancel] at hsum
  have hlt : |roundEven q - n| < 1 := by
    have : |((roundEven q - n : ℤ) : ℚ)| < 1 := by
      push_cast
      linarith
    exact_mod_cast this
  exact sub_eq_zero.mp (Int.abs_lt_one_iff.mp hlt)

theorem roundEven_intCast (n : ℤ) : roundEven n = n := by
  refine roundEven_of_abs_lt ?_
  rw [sub_self, abs_zero]
  norm_num

theorem roundEven_half (n : ℤ) : roundEven (n + 1 / 2) = n + n % 2 := by
  have hfloor : ⌊(n : ℚ) + 1 / 2⌋ = n := by
    rw [Int.floor_eq_iff]
    constructor <;> linarith
  rw [roundEven, hfloor, add_sub_cancel_left, if_neg (lt_irrefl _), if_neg (lt_irrefl _)]

/-- No whole number is nearer. -/
theorem roundEven_nearest (q : ℚ) (n : ℤ) : |(roundEven q : ℚ) - q| ≤ |n - q| := by
  by_cases hn : roundEven q = n
  · rw [hn]
  · have hround := abs_roundEven_sub_le q
    have hone : 1 ≤ |roundEven q - n| := Int.one_le_abs (sub_ne_zero.mpr hn)
    have hone : (1 : ℚ) ≤ |(roundEven q : ℚ) - n| := by exact_mod_cast hone
    have hsum := abs_add_le ((roundEven q : ℚ) - q) (q - n)
    rw [sub_add_sub_cancel, abs_sub_comm q] at hsum
    linarith

theorem le_roundEven (h : n ≤ q) : n ≤ roundEven q := by
  have hround := abs_le.mp (abs_roundEven_sub_le q)
  have hlt : (n : ℚ) < roundEven q + 1 := by linarith
  have hlt : n < roundEven q + 1 := by exact_mod_cast hlt
  omega

theorem roundEven_le (h : q ≤ n) : roundEven q ≤ n := by
  have hround := abs_le.mp (abs_roundEven_sub_le q)
  have hlt : (roundEven q : ℚ) < n + 1 := by linarith
  have hlt : roundEven q < n + 1 := by exact_mod_cast hlt
  omega

/-- Rounding off a part of two halves of `h` : the first half decides, unless it is all there is. -/
theorem roundEven_div {a : ℤ} {h c : ℚ} (hc : 0 ≤ c) (hlt : c < h) :
    roundEven ((a * (2 * h) + c) / (2 * h)) = a ∧
      roundEven ((a * (2 * h) + h + c) / (2 * h)) = if c = 0 then a + a % 2 else a + 1 := by
  have hh : 0 < h := hc.trans_lt hlt
  have hc' : 0 ≤ c / (2 * h) := by positivity
  have hlt' : c / (2 * h) < 1 / 2 := by
    rw [div_lt_iff₀ (by positivity)]
    linarith
  have hlow : (a * (2 * h) + c) / (2 * h) = a + c / (2 * h) := by field_simp
  have hhigh : (a * (2 * h) + h + c) / (2 * h) = a + 1 / 2 + c / (2 * h) := by field_simp
  constructor
  · rw [hlow]
    refine roundEven_of_abs_lt ?_
    rw [add_sub_cancel_left, abs_of_nonneg hc']
    exact hlt'
  · rw [hhigh]
    split_ifs with hzero
    · rw [hzero, zero_div, add_zero, roundEven_half]
    · have hpos : 0 < c / (2 * h) := div_pos (lt_of_le_of_ne hc (Ne.symm hzero)) (by positivity)
      refine roundEven_of_abs_lt ?_
      push_cast
      rw [abs_lt]
      constructor <;> linarith

theorem roundEven_natCast_div {a h c : ℕ} (hlt : c < h) :
    roundEven ((a * (2 * h) + c : ℕ) / (2 * h : ℕ)) = a ∧
      roundEven ((a * (2 * h) + h + c : ℕ) / (2 * h : ℕ)) =
        if c = 0 then (a : ℤ) + a % 2 else a + 1 := by
  have hdiv := roundEven_div (a := a) (Nat.cast_nonneg (α := ℚ) c) (Nat.cast_lt.mpr hlt)
  simp only [Nat.cast_eq_zero] at hdiv
  push_cast at hdiv ⊢
  exact hdiv

end WholeNumbers

namespace FloatFormat

variable (F : FloatFormat)

/-! ## Numbers and patterns -/

/-- The pattern of an infinity without its sign. -/
def infinity : ℕ := F.maxExp * 2 ^ F.fracBits

/-- A pattern with a sign. -/
def signed (neg : Bool) (abs : ℕ) : ℕ :=
  if neg then 2 ^ (F.expBits + F.fracBits) + abs else abs

/-- The number with a significand and an exponent field, whatever these are. -/
def scaled (m : ℚ) (e : ℤ) : ℚ := m * 2 ^ (e - F.bias - F.fracBits)

/-- The number that a finite pattern stands for. -/
def rational (x : ℕ) : ℚ :=
  if F.expField x = 0 then 0
  else F.scaled (if F.isNeg x then -F.significand x else F.significand x) (F.expField x)

/-- The pattern of the number nearest to a positive number, with an exponent field for each power
of two. -/
def nearest (q : ℚ) : ℤ :=
  (Int.log 2 q + F.bias - 1) * 2 ^ F.fracBits + roundEven (q / 2 ^ (Int.log 2 q - F.fracBits))

/-- A positive number that was rounded. -/
def absRounded (q : ℚ) : ℕ :=
  if F.nearest q < 2 ^ F.fracBits then 0 else min (F.nearest q).toNat F.infinity

/-- A function of positive numbers with the sign of a number. -/
def withSign (abs : ℚ → ℕ) (q : ℚ) : ℕ :=
  if q = 0 then 0 else F.signed (decide (q < 0)) (abs |q|)

/-- A number rounded to the nearest pattern, ties to even, where a result below the smallest normal
number is a zero. -/
def rounded : ℚ → ℕ := F.withSign F.absRounded

/-- A positive number that is not rounded if it is below the smallest normal number. -/
def absPacked (q : ℚ) : ℕ :=
  if q < 2 ^ (1 - (F.bias : ℤ)) then 0 else F.absRounded q

/-- A number rounded to a pattern, where a number below the smallest normal one is a zero. -/
def packed : ℚ → ℕ := F.withSign F.absPacked

/-- The pattern with an exponent field and a significand, where one without such a field is a zero
or an infinity. -/
def packAbs (e s : ℤ) : ℕ :=
  if e ≤ 0 then 0 else if F.maxExp ≤ e then F.infinity else ((e - 1) * 2 ^ F.fracBits + s).toNat

variable {F} {q w : ℚ} {e m : ℤ}

theorem scaled_pos (hw : 0 < w) : 0 < F.scaled w e := by
  unfold scaled
  positivity

theorem scaled_neg (w : ℚ) (e : ℤ) : F.scaled (-w) e = -F.scaled w e :=
  neg_mul _ _

theorem abs_scaled (w : ℚ) (e : ℤ) : |F.scaled w e| = F.scaled |w| e := by
  have hpow : (0 : ℚ) < 2 ^ (e - F.bias - F.fracBits) := by positivity
  rw [scaled, scaled, abs_mul, abs_of_pos hpow]

theorem withSign_of_ne (abs : ℚ → ℕ) (hq : q ≠ 0) :
    F.withSign abs q = F.signed (decide (q < 0)) (abs |q|) :=
  if_neg hq

/-- The significand takes over powers of two from the exponent. -/
theorem scaled_add (w : ℚ) (e : ℤ) (k : ℕ) : F.scaled w (e + k) = F.scaled (w * 2 ^ k) e := by
  rw [scaled, scaled, mul_assoc, ← zpow_natCast, ← zpow_add₀ two_ne_zero]
  congr 2
  ring

/-- The power of two below a number. -/
theorem log_scaled (hlow : 2 ^ F.fracBits ≤ w) (hhigh : w < 2 ^ (F.fracBits + 1)) :
    Int.log 2 (F.scaled w e) = e - F.bias := by
  have hw : 0 < w := lt_of_lt_of_le (by positivity) hlow
  have hpos : 0 < F.scaled w e := scaled_pos hw
  have hpow : (0 : ℚ) < 2 ^ (e - F.bias - F.fracBits) := by positivity
  have hlo : (2 : ℕ) ^ (e - F.bias) ≤ F.scaled w e := by
    calc ((2 : ℕ) : ℚ) ^ (e - F.bias) = 2 ^ F.fracBits * 2 ^ (e - F.bias - F.fracBits) := by
          rw [Nat.cast_ofNat, ← zpow_natCast, ← zpow_add₀ two_ne_zero, add_sub_cancel]
      _ ≤ F.scaled w e := mul_le_mul_of_nonneg_right hlow hpow.le
  have hhi : F.scaled w e < (2 : ℕ) ^ (e - F.bias + 1) := by
    calc F.scaled w e < 2 ^ (F.fracBits + 1) * 2 ^ (e - F.bias - F.fracBits) :=
          mul_lt_mul_of_pos_right hhigh hpow
      _ = ((2 : ℕ) : ℚ) ^ (e - F.bias + 1) := by
          rw [Nat.cast_ofNat, ← zpow_natCast, ← zpow_add₀ two_ne_zero]
          congr 1
          push_cast
          ring
  refine le_antisymm ?_ ((Int.zpow_le_iff_le_log Nat.one_lt_two hpos).mp hlo)
  exact Int.lt_add_one_iff.mp ((Int.lt_zpow_iff_log_lt Nat.one_lt_two hpos).mp hhi)

theorem nearest_scaled (hlow : 2 ^ F.fracBits ≤ w) (hhigh : w < 2 ^ (F.fracBits + 1)) :
    F.nearest (F.scaled w e) = (e - 1) * 2 ^ F.fracBits + roundEven w := by
  rw [nearest, log_scaled hlow hhigh, sub_add_cancel, scaled, mul_div_cancel_right₀]
  positivity

/-- A positive number has a significand. -/
theorem exists_scaled (hq : 0 < q) : ∃ w : ℚ, 2 ^ F.fracBits ≤ w ∧ w < 2 ^ (F.fracBits + 1) ∧
    q = F.scaled w (Int.log 2 q + F.bias) := by
  have hpow : (0 : ℚ) < 2 ^ (Int.log 2 q - F.fracBits) := by positivity
  refine ⟨q / 2 ^ (Int.log 2 q - F.fracBits), ?_, ?_, ?_⟩
  · rw [le_div_iff₀ hpow, ← zpow_natCast, ← zpow_add₀ two_ne_zero, add_sub_cancel]
    exact_mod_cast Int.zpow_log_le_self Nat.one_lt_two hq
  · rw [div_lt_iff₀ hpow, ← zpow_natCast, ← zpow_add₀ two_ne_zero]
    have hlt := Int.lt_zpow_succ_log_self Nat.one_lt_two q
    rw [Nat.cast_ofNat] at hlt
    refine hlt.trans_eq ?_
    congr 1
    push_cast
    ring
  · rw [scaled, add_sub_cancel_right, div_mul_cancel₀ _ hpow.ne']

/-- A rounded significand can be the next power of two. -/
theorem roundEven_bounds (hlow : 2 ^ F.fracBits ≤ w) (hhigh : w < 2 ^ (F.fracBits + 1)) :
    2 ^ F.fracBits ≤ roundEven w ∧ roundEven w ≤ 2 * 2 ^ F.fracBits := by
  rw [pow_succ'] at hhigh
  exact ⟨le_roundEven (by exact_mod_cast hlow), roundEven_le (by exact_mod_cast hhigh.le)⟩

theorem infinity_eq : (F.infinity : ℤ) = F.maxExp * 2 ^ F.fracBits := by
  rw [infinity]
  push_cast
  rfl

/-- A positive number with an exponent field is kept apart from zero and from infinity. -/
theorem absRounded_of_one_le {s : ℤ} (he : 1 ≤ e) (hlow : 2 ^ F.fracBits ≤ s)
    (hhigh : s ≤ 2 * 2 ^ F.fracBits) (hq : F.nearest q = (e - 1) * 2 ^ F.fracBits + s) :
    F.absRounded q = F.packAbs e s := by
  have hpos : (0 : ℤ) < 2 ^ F.fracBits := by positivity
  have hnonneg : 0 ≤ (e - 1) * 2 ^ F.fracBits := mul_nonneg (by omega) hpos.le
  have hinf := infinity_eq (F := F)
  rw [absRounded, packAbs, hq, if_neg (by omega), if_neg (by omega)]
  split_ifs with hmax
  · have hmul : (F.maxExp - 1) * 2 ^ F.fracBits ≤ (e - 1) * 2 ^ F.fracBits :=
      mul_le_mul_of_nonneg_right (by omega) hpos.le
    rw [sub_one_mul] at hmul
    omega
  · have hmul : (e + 1) * 2 ^ F.fracBits ≤ F.maxExp * 2 ^ F.fracBits :=
      mul_le_mul_of_nonneg_right (by omega) hpos.le
    rw [add_one_mul] at hmul
    rw [sub_one_mul]
    omega

/-- A significand and an exponent field as a pattern. -/
theorem absPacked_eq (hlow : 2 ^ F.fracBits ≤ w) (hhigh : w < 2 ^ (F.fracBits + 1)) :
    F.absPacked (F.scaled w e) = F.packAbs e (roundEven w) := by
  have hpos : 0 < F.scaled w e := scaled_pos (lt_of_lt_of_le (by positivity) hlow)
  have hsmall : F.scaled w e < 2 ^ (1 - (F.bias : ℤ)) ↔ e ≤ 0 := by
    have hlog := Int.lt_zpow_iff_log_lt Nat.one_lt_two hpos (x := 1 - (F.bias : ℤ))
    rw [log_scaled hlow hhigh, Nat.cast_ofNat] at hlog
    exact hlog.trans (by omega)
  rw [absPacked]
  split_ifs with h
  · rw [packAbs, if_pos (hsmall.mp h)]
  · rw [hsmall, not_le] at h
    obtain ⟨hs, hs'⟩ := roundEven_bounds hlow hhigh
    exact absRounded_of_one_le h hs hs' (nearest_scaled hlow hhigh)

/-- A whole number below a power of two is shifted up to it. -/
theorem exists_normalised {n f : ℕ} (hn : 0 < n) (hlt : n < 2 ^ f) :
    ∃ k, 2 ^ f ≤ n * 2 ^ (k + 1) ∧ n * 2 ^ (k + 1) < 2 ^ (f + 1) := by
  have hlog : Nat.log 2 n < f := Nat.log_lt_of_lt_pow hn.ne' hlt
  have hle : 2 ^ Nat.log 2 n ≤ n := Nat.pow_log_le_self 2 hn.ne'
  have hgt : n < 2 ^ (Nat.log 2 n + 1) := Nat.lt_pow_succ_log_self Nat.one_lt_two n
  have hpos : 0 < 2 ^ (f - 1 - Nat.log 2 n + 1) := Nat.two_pow_pos _
  refine ⟨f - 1 - Nat.log 2 n, ?_, ?_⟩
  · calc 2 ^ f = 2 ^ Nat.log 2 n * 2 ^ (f - 1 - Nat.log 2 n + 1) := by
          rw [← Nat.pow_add]
          congr 1
          omega
      _ ≤ n * 2 ^ (f - 1 - Nat.log 2 n + 1) := Nat.mul_le_mul_right _ hle
  · calc n * 2 ^ (f - 1 - Nat.log 2 n + 1)
        < 2 ^ (Nat.log 2 n + 1) * 2 ^ (f - 1 - Nat.log 2 n + 1) :=
          Nat.mul_lt_mul_of_pos_right hgt hpos
      _ = 2 ^ (f + 1) := by
          rw [← Nat.pow_add]
          congr 1
          omega

/-- A number without an exponent field is rounded to zero, if it is a whole number of the smallest
differences. -/
theorem absRounded_eq_absPacked {n : ℕ} (hn : 0 < n) :
    F.absRounded (F.scaled n 1) = F.absPacked (F.scaled n 1) := by
  rw [absPacked]
  split_ifs with h
  swap
  · rfl
  have hone : (2 : ℚ) ^ (1 - (F.bias : ℤ)) = F.scaled (2 ^ F.fracBits) 1 := by
    rw [scaled, ← zpow_natCast, ← zpow_add₀ two_ne_zero]
    congr 1
    ring
  have hlt : n < 2 ^ F.fracBits := by
    rw [hone, scaled, scaled] at h
    have hlt : (n : ℚ) < 2 ^ F.fracBits := lt_of_mul_lt_mul_right h (by positivity)
    exact_mod_cast hlt
  -- the number is shifted up to a significand, whose exponent field is not positive
  obtain ⟨k, hlow, hhigh⟩ := exists_normalised hn hlt
  have hcast : ((n * 2 ^ (k + 1) : ℕ) : ℤ) = (n : ℤ) * 2 ^ (k + 1) := by
    push_cast
    rfl
  have hscaled : F.scaled n 1 = F.scaled ((n * 2 ^ (k + 1) : ℕ) : ℤ) (-k) := by
    have hexp : (1 : ℤ) = -k + (k + 1 : ℕ) := by
      push_cast
      ring
    rw [hcast, hexp, scaled_add]
    push_cast
    rfl
  have hnearest : F.nearest (F.scaled n 1) =
      (-k - 1) * 2 ^ F.fracBits + (n * 2 ^ (k + 1) : ℕ) := by
    rw [hscaled, nearest_scaled (by exact_mod_cast hlow) (by exact_mod_cast hhigh),
      roundEven_intCast]
  have hpos : (0 : ℤ) < 2 ^ F.fracBits := by positivity
  have hk : 0 ≤ (k : ℤ) * 2 ^ F.fracBits := by positivity
  have hhigh' : ((n * 2 ^ (k + 1) : ℕ) : ℤ) < 2 * 2 ^ F.fracBits := by
    rw [← pow_succ']
    exact_mod_cast hhigh
  rw [absRounded, if_pos]
  rw [hnearest, sub_one_mul, neg_mul]
  omega

/-- A number next to an odd number is on the same side of every even number. -/
theorem le_iff_of_odd {u n : ℤ} (hodd : u % 2 = 1) (hn : n % 2 = 0) (hw : |w - u| < 1) :
    (n : ℚ) ≤ w ↔ n ≤ u := by
  obtain ⟨hw₁, hw₂⟩ := abs_lt.mp hw
  constructor <;> intro h
  · have hlt : (n : ℚ) < u + 1 := by linarith
    have hlt : n < u + 1 := by exact_mod_cast hlt
    omega
  · have hle : n + 1 ≤ u := by omega
    have hle : (n : ℚ) + 1 ≤ u := by exact_mod_cast hle
    linarith

/-- It is rounded in the same way, if an even number makes a half. -/
theorem roundEven_div_of_odd {u h : ℤ} (hodd : u % 2 = 1) (heven : h % 2 = 0) (hh : 0 < h)
    (hw : |w - u| < 1) : roundEven (w / (2 * h)) = roundEven (u / (2 * h)) := by
  obtain ⟨hw₁, hw₂⟩ := abs_lt.mp hw
  have hdiv := Int.mul_ediv_add_emod u (2 * h)
  have hnonneg : 0 ≤ u % (2 * h) := Int.emod_nonneg _ (by omega)
  have hlt : u % (2 * h) < 2 * h := Int.emod_lt_of_pos _ (by omega)
  have hmod : u % (2 * h) % 2 = 1 := by rw [Int.emod_emod_of_dvd _ (Dvd.intro _ rfl), hodd]
  generalize u / (2 * h) = a at hdiv
  generalize u % (2 * h) = r at hdiv hnonneg hlt hmod
  have hu : (u : ℚ) = a * (2 * h) + r := by
    rw [← hdiv]
    push_cast
    ring
  have hodd_low : 1 ≤ r := by omega
  rcases lt_or_ge r h with hr | hr
  · have hr₁ : (1 : ℚ) ≤ r := by exact_mod_cast hodd_low
    have hr₂ : (r : ℚ) + 1 ≤ h := by exact_mod_cast hr
    have hw' : w = a * (2 * h) + (w - a * (2 * h)) := by ring
    rw [hw', (roundEven_div (by linarith) (by linarith)).1, hu,
      (roundEven_div (by linarith) (by linarith)).1]
  · have hr₁ : (h : ℚ) + 1 ≤ r := by exact_mod_cast (show h + 1 ≤ r by omega)
    have hr₂ : (r : ℚ) + 1 ≤ 2 * h := by exact_mod_cast hlt
    have hu' : (u : ℚ) = a * (2 * h) + h + (r - h) := by linarith
    have hw' : w = a * (2 * h) + h + (w - a * (2 * h) - h) := by ring
    rw [hw', (roundEven_div (by linarith) (by linarith)).2, if_neg (by linarith), hu',
      (roundEven_div (by linarith) (by linarith)).2, if_neg (by linarith)]

/-- A number next to an odd number is packed in the same way, if they have more bits than a
significand. -/
theorem absPacked_sticky {u : ℤ} (hodd : u % 2 = 1) (hw : |w - u| < 1)
    (hlow : 2 ^ (F.fracBits + 2) ≤ u) : F.absPacked (F.scaled w e) = F.absPacked (F.scaled u e) := by
  have hu : 0 < u := lt_of_lt_of_le (by positivity) hlow
  obtain ⟨j, hlo, hhi⟩ : ∃ j : ℕ, (2 : ℤ) ^ (F.fracBits + (j + 2)) ≤ u ∧
      u < 2 ^ (F.fracBits + (j + 2) + 1) := by
    have hlow' : 2 ^ (F.fracBits + 2) ≤ u.toNat := by
      zify
      omega
    have hlog : F.fracBits + 2 ≤ Nat.log 2 u.toNat := Nat.le_log_of_pow_le Nat.one_lt_two hlow'
    have hle : 2 ^ Nat.log 2 u.toNat ≤ u.toNat := Nat.pow_log_le_self 2 (by omega)
    have hlt : u.toNat < 2 ^ (Nat.log 2 u.toNat + 1) := Nat.lt_pow_succ_log_self Nat.one_lt_two _
    refine ⟨Nat.log 2 u.toNat - F.fracBits - 2, ?_, ?_⟩
    · rw [show F.fracBits + (Nat.log 2 u.toNat - F.fracBits - 2 + 2) = Nat.log 2 u.toNat by omega]
      zify at hle
      omega
    · rw [show F.fracBits + (Nat.log 2 u.toNat - F.fracBits - 2 + 2) = Nat.log 2 u.toNat by omega]
      zify at hlt
      omega
  have heven (k : ℕ) : (2 : ℤ) ^ (k + 1) % 2 = 0 := by
    rw [pow_succ]
    exact Int.mul_emod_left _ _
  have hscaled (v : ℚ) : F.scaled v e = F.scaled (v / 2 ^ (j + 2)) (e + (j + 2 : ℕ)) := by
    rw [scaled_add, div_mul_cancel₀]
    positivity
  have hpos : (0 : ℚ) < 2 ^ (j + 2) := by positivity
  have hlo' : (2 : ℚ) ^ (F.fracBits + (j + 2)) ≤ w := by
    exact_mod_cast (le_iff_of_odd hodd (heven _) hw).mpr hlo
  have hhi' : w < (2 : ℚ) ^ (F.fracBits + (j + 2) + 1) := by
    exact_mod_cast lt_of_not_ge (mt (le_iff_of_odd hodd (heven _) hw).mp (not_le.mpr hhi))
  have hlow (v : ℚ) (hv : (2 : ℚ) ^ (F.fracBits + (j + 2)) ≤ v) :
      2 ^ F.fracBits ≤ v / 2 ^ (j + 2) := by
    rwa [le_div_iff₀ hpos, ← pow_add]
  have hhigh (v : ℚ) (hv : v < (2 : ℚ) ^ (F.fracBits + (j + 2) + 1)) :
      v / 2 ^ (j + 2) < 2 ^ (F.fracBits + 1) := by
    rwa [div_lt_iff₀ hpos, ← pow_add, Nat.add_right_comm]
  have hround := roundEven_div_of_odd hodd (heven j) (by positivity) hw
  have htwo : (2 : ℚ) * ((2 ^ (j + 1) : ℤ) : ℚ) = 2 ^ (j + 2) := by
    push_cast
    ring
  rw [htwo] at hround
  rw [hscaled w, hscaled u, absPacked_eq (hlow w hlo') (hhigh w hhi'),
    absPacked_eq (hlow u (by exact_mod_cast hlo)) (hhigh u (by exact_mod_cast hhi)), hround]

/-- A part of a quarter of the last place is not seen. -/
theorem absRounded_add {n : ℕ} {d : ℚ} (he : 1 ≤ e) (hlow : 2 ^ F.fracBits ≤ n)
    (hhigh : n < 2 ^ (F.fracBits + 1)) (hd : |d| < 1 / 4) :
    F.absRounded (F.scaled (n + d) e) = F.absPacked (F.scaled n e) := by
  have hlow' : (2 : ℚ) ^ F.fracBits ≤ n := by exact_mod_cast hlow
  have hhigh' : (n : ℚ) + 1 ≤ 2 ^ (F.fracBits + 1) := by exact_mod_cast hhigh
  have hround : roundEven (n : ℚ) = n := by exact_mod_cast roundEven_intCast n
  obtain ⟨hd₁, hd₂⟩ := abs_lt.mp hd
  rw [absPacked_eq hlow' (by linarith), hround]
  refine absRounded_of_one_le he (by exact_mod_cast hlow) ?_ ?_
  · rw [← pow_succ']
    exact_mod_cast hhigh.le
  by_cases hin : (2 : ℚ) ^ F.fracBits ≤ n + d
  · rw [nearest_scaled hin (by linarith)]
    congr 1
    refine roundEven_of_abs_lt ?_
    push_cast
    rw [add_sub_cancel_left]
    linarith
  · -- just below a power of two, where the last place is half as much
    have hn : (n : ℚ) = 2 ^ F.fracBits := by
      have hlt : (n : ℚ) < 2 ^ F.fracBits + 1 := by linarith
      have hlt : n < 2 ^ F.fracBits + 1 := by exact_mod_cast hlt
      exact_mod_cast (show n = 2 ^ F.fracBits by omega)
    have hone : (1 : ℚ) ≤ 2 ^ F.fracBits := one_le_pow₀ one_le_two
    have hscaled : F.scaled (n + d) e = F.scaled ((n + d) * 2) (e - 1) := by
      rw [← pow_one (2 : ℚ), ← scaled_add]
      congr 1
      push_cast
      ring
    have hround' : roundEven ((n + d) * 2) = (2 * n : ℕ) := by
      refine roundEven_of_abs_lt ?_
      push_cast
      rw [abs_lt]
      constructor <;> linarith
    have hn' : (n : ℤ) = 2 ^ F.fracBits := by exact_mod_cast hn
    rw [pow_succ'] at hhigh'
    rw [hscaled, nearest_scaled (by linarith) (by rw [pow_succ']; linarith), hround']
    push_cast
    rw [hn']
    ring

end FloatFormat
