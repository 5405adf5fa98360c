import PicoBootrom.FloatRound

/-!
# Sums of floating-point numbers

`sum` is the sum of two patterns, in the way of `FloatFormat.value` : the number that is nearest to
the exact sum, or what comes of infinities and zeros. It does not depend on the order of the two.

Code takes a pattern apart into a signed significand and an exponent. A pattern whose exponent field
is zero or all ones is given an exponent that is far below or above the others (`Unpacks`), so that
what is added (`added`) needs no cases for such patterns : where exponents are far apart, the larger
number is the sum.
-/

namespace FloatFormat

variable (F : FloatFormat)

/-- The sum of two patterns : rounded to nearest, ties to even, with a zero for results that are too
small, and infinities for those that are too large. Infinities of both signs add up to the positive
one, and zeros of both signs to the positive one too. -/
def sum (x y : ℕ) : ℕ :=
  if F.expField x = F.maxExp ∧ F.expField y = F.maxExp then
    F.signed (F.isNeg x && F.isNeg y) F.infinity
  else if F.expField x = F.maxExp then F.signed (F.isNeg x) F.infinity
  else if F.expField y = F.maxExp then F.signed (F.isNeg y) F.infinity
  else if F.expField x = 0 ∧ F.expField y = 0 then F.signed (F.isNeg x && F.isNeg y) 0
  else F.rounded (F.rational x + F.rational y)

/-- The sum of two numbers with signed significands, of which the smaller one is left out if its
exponent is less by `D`. -/
def added (D : ℕ) (mx ex my ey : ℤ) : ℕ :=
  if D ≤ ex - ey then F.packed (F.scaled mx ex)
  else if D ≤ ey - ex then F.packed (F.scaled my ey)
  else F.packed (F.scaled mx ex + F.scaled my ey)

/-- A pattern as a signed significand and an exponent. -/
structure Unpacks (D x : ℕ) (m e : ℤ) : Prop where
  low : 2 ^ F.fracBits ≤ |m|
  high : |m| < 2 ^ (F.fracBits + 1)
  neg_iff : m < 0 ↔ F.isNeg x = true
  zero (h : F.expField x = 0) : e ≤ -D
  infinite (h : F.expField x = F.maxExp) : F.maxExp + D ≤ e
  normal (h : F.expField x ≠ 0) (h' : F.expField x ≠ F.maxExp) :
    e = F.expField x ∧ |m| = F.significand x

variable {F} {D x y : ℕ} {mx ex my ey : ℤ}

theorem rational_of_zero (h : F.expField x = 0) : F.rational x = 0 :=
  if_pos h

/-! ## Significands that are far apart -/

theorem scaled_neg_iff {q : ℚ} {e : ℤ} : F.scaled q e < 0 ↔ q < 0 := by
  have hpow : (0 : ℚ) < 2 ^ (e - F.bias - F.fracBits) := by positivity
  rw [scaled]
  exact ⟨fun h => neg_of_mul_neg_left h hpow.le, fun h => mul_neg_of_neg_of_pos h hpow⟩

theorem scaled_ne_zero {q : ℚ} {e : ℤ} (hq : q ≠ 0) : F.scaled q e ≠ 0 :=
  mul_ne_zero hq (by positivity)

/-- A significand and one that is shifted down to its exponent. -/
theorem scaled_aligned {m m' : ℚ} {e : ℤ} {d k : ℕ} (hd : d ≤ k) :
    F.scaled ((m * 2 ^ k + m' * 2 ^ (k - d)) / 2 ^ k) e = F.scaled m e + F.scaled m' (e - d) := by
  have hdown : (2 : ℚ) ^ (e - F.bias - F.fracBits) =
      2 ^ d * 2 ^ (e - d - F.bias - F.fracBits) := by
    rw [← zpow_natCast, ← zpow_add₀ two_ne_zero]
    congr 1
    ring
  have hpow : (2 : ℚ) ^ k = 2 ^ d * 2 ^ (k - d) := by rw [← pow_add, Nat.add_sub_cancel' hd]
  rw [scaled, scaled, scaled, hdown, hpow]
  field_simp

/-- A whole number of parts. -/
theorem packed_scaled_div {v e : ℤ} {k : ℕ} (hv : v ≠ 0) (hk : 0 < k) :
    F.packed (F.scaled (v / k) e) =
      F.signed (decide (v < 0)) (F.absPacked (F.scaled (v.natAbs / k) e)) := by
  have hk : (0 : ℚ) < k := Nat.cast_pos.mpr hk
  have hne : (v : ℚ) / k ≠ 0 := div_ne_zero (Int.cast_ne_zero.mpr hv) hk.ne'
  have habs : |(v : ℚ) / k| = v.natAbs / k := by
    rw [abs_div, abs_of_pos hk, Nat.cast_natAbs]
    push_cast
    rfl
  have hneg : F.scaled ((v : ℚ) / k) e < 0 ↔ v < 0 := by
    rw [scaled_neg_iff, div_lt_iff₀ hk, zero_mul, Int.cast_lt_zero]
  rw [packed, withSign_of_ne _ (scaled_ne_zero hne), abs_scaled, habs, decide_eq_decide.mpr hneg]

/-- A number next to an odd number is packed in the same way. -/
theorem packed_sticky {u e : ℤ} {w : ℚ} (hodd : u % 2 = 1) (hw : |w - u| < 1)
    (hlow : 2 ^ (F.fracBits + 2) ≤ |u|) : F.packed (F.scaled w e) = F.packed (F.scaled u e) := by
  have hone : (1 : ℤ) ≤ 2 ^ (F.fracBits + 2) := one_le_pow₀ (by norm_num)
  obtain ⟨hw₁, hw₂⟩ := abs_lt.mp hw
  rcases abs_cases u with ⟨habs, hsign⟩ | ⟨habs, hsign⟩ <;> rw [habs] at hlow
  · have hu : (1 : ℚ) ≤ u := by exact_mod_cast hone.trans hlow
    have hpos {v : ℚ} (hv : 0 < v) : F.packed (F.scaled v e) = F.absPacked (F.scaled v e) := by
      have hscaled : 0 < F.scaled v e := scaled_pos hv
      rw [packed, withSign_of_ne _ hscaled.ne', decide_eq_false hscaled.not_gt, abs_of_pos hscaled]
      rfl
    rw [hpos (by linarith), hpos (by linarith), absPacked_sticky hodd hw hlow]
  · have hu : (u : ℚ) ≤ -1 := by exact_mod_cast (show u ≤ -1 by omega)
    have hneg {v : ℚ} (hv : v < 0) :
        F.packed (F.scaled v e) = F.signed true (F.absPacked (F.scaled (-v) e)) := by
      have hscaled : F.scaled v e < 0 := scaled_neg_iff.mpr hv
      rw [packed, withSign_of_ne _ hscaled.ne, decide_eq_true hscaled, abs_of_neg hscaled,
        scaled_neg]
    have hsticky : F.absPacked (F.scaled (-w) e) = F.absPacked (F.scaled ((-u : ℤ) : ℚ) e) := by
      refine absPacked_sticky (by omega) ?_ hlow
      push_cast
      rw [← neg_add', abs_neg, ← sub_eq_add_neg]
      exact hw
    rw [hneg (by linarith), hneg (by linarith), hsticky]
    push_cast
    rfl

/-- A significand of the format as a number. -/
theorem packed_scaled {m e : ℤ} (hlow : 2 ^ F.fracBits ≤ |m|) (hhigh : |m| < 2 ^ (F.fracBits + 1)) :
    F.packed (F.scaled m e) = F.signed (decide (m < 0)) (F.packAbs e |m|) := by
  have hpos : 0 < |m| := lt_of_lt_of_le (by positivity) hlow
  have hm : (m : ℚ) ≠ 0 := by exact_mod_cast abs_pos.mp hpos
  have habs : |(m : ℚ)| = (|m| : ℤ) := by push_cast; rfl
  rw [packed, withSign_of_ne _ (scaled_ne_zero hm), abs_scaled, habs,
    absPacked_eq (by exact_mod_cast hlow) (by exact_mod_cast hhigh), roundEven_intCast]
  congr 1
  rw [decide_eq_decide, scaled_neg_iff]
  exact_mod_cast Iff.rfl

theorem rounded_scaled {m e : ℤ} (he : 1 ≤ e) (hlow : 2 ^ F.fracBits ≤ |m|)
    (hhigh : |m| < 2 ^ (F.fracBits + 1)) {d : ℚ} (hd : |d| < 1 / 4) :
    F.rounded (F.scaled (m + d) e) = F.packed (F.scaled m e) := by
  have hone : (1 : ℚ) ≤ |(m : ℚ)| := by
    have hle : 1 ≤ |m| := le_trans (one_le_pow₀ one_le_two) hlow
    exact_mod_cast hle
  have hm : (m : ℚ) ≠ 0 := abs_pos.mp (by linarith)
  have hsum := abs_le.mp (abs_abs_sub_abs_le_abs_sub ((m : ℚ) + d) m)
  rw [add_sub_cancel_left] at hsum
  have hne : (m : ℚ) + d ≠ 0 := abs_pos.mp (by linarith)
  have hneg : (m : ℚ) + d < 0 ↔ (m : ℚ) < 0 := by
    obtain ⟨hd₁, hd₂⟩ := abs_lt.mp hd
    rcases abs_cases (m : ℚ) with ⟨h, h'⟩ | ⟨h, h'⟩ <;> constructor <;> intro <;> linarith
  have habs : |(m : ℚ) + d| = (m.natAbs : ℚ) + (|(m : ℚ) + d| - |(m : ℚ)|) := by
    rw [Nat.cast_natAbs]
    push_cast
    ring
  have hnat : |(m : ℚ)| = (m.natAbs : ℚ) := by
    rw [Nat.cast_natAbs]
    push_cast
    rfl
  rw [rounded, packed, withSign_of_ne _ (scaled_ne_zero hne), withSign_of_ne _ (scaled_ne_zero hm),
    abs_scaled, abs_scaled, habs, absRounded_add he (by zify; exact hlow) (by zify; exact hhigh), hnat]
  · congr 1
    rw [decide_eq_decide, scaled_neg_iff, scaled_neg_iff, hneg]
  · rw [abs_lt]
    obtain ⟨hd₁, hd₂⟩ := abs_lt.mp hd
    rcases abs_cases d with ⟨h, h'⟩ | ⟨h, h'⟩ <;> constructor <;> linarith

/-- A number without an exponent field. -/
theorem packed_of_small {q : ℚ} (hq : q ≠ 0) (h : |q| < 2 ^ (1 - (F.bias : ℤ))) :
    F.packed q = F.signed (decide (q < 0)) 0 := by
  rw [packed, withSign_of_ne _ hq, absPacked, if_pos h]

/-- A number that is at least an infinity would be. -/
theorem packed_of_large {q : ℚ} (hmax : 0 < F.maxExp) (h : 2 ^ ((F.maxExp : ℤ) - F.bias) ≤ |q|) :
    F.packed q = F.signed (decide (q < 0)) F.infinity := by
  have hpos : 0 < |q| := lt_of_lt_of_le (by positivity) h
  obtain ⟨w, hlow, hhigh, hw⟩ := exists_scaled (F := F) hpos
  have hexp : (F.maxExp : ℤ) ≤ Int.log 2 |q| + F.bias := by
    have hlog := (Int.zpow_le_iff_le_log Nat.one_lt_two hpos (x := (F.maxExp : ℤ) - F.bias)).mp
      (by exact_mod_cast h)
    omega
  rw [packed, withSign_of_ne _ (abs_pos.mp hpos), hw, absPacked_eq hlow hhigh, packAbs,
    if_neg (by omega), if_pos hexp]

namespace Unpacks

/-! ## Patterns that were taken apart -/

variable (hx : F.Unpacks D x mx ex) (hy : F.Unpacks D y my ey)

include hx

theorem decide_neg : decide (mx < 0) = F.isNeg x := by
  rw [Bool.eq_iff_iff, decide_eq_true_eq, hx.neg_iff]

theorem ne_zero : (mx : ℚ) ≠ 0 := by
  have hpos : 0 < |mx| := lt_of_lt_of_le (by positivity) hx.low
  exact_mod_cast abs_pos.mp hpos

theorem packed_of_zero (h : F.expField x = 0) :
    F.packed (F.scaled mx ex) = F.signed (F.isNeg x) 0 := by
  have hexp := hx.zero h
  rw [packed_scaled hx.low hx.high, hx.decide_neg, packAbs, if_pos (by omega)]

theorem packed_of_infinite (hmax : 0 < F.maxExp) (h : F.expField x = F.maxExp) :
    F.packed (F.scaled mx ex) = F.signed (F.isNeg x) F.infinity := by
  have hexp := hx.infinite h
  rw [packed_scaled hx.low hx.high, hx.decide_neg, packAbs, if_neg (by omega), if_pos (by omega)]

theorem rational_eq (h : F.expField x ≠ 0) (h' : F.expField x ≠ F.maxExp) :
    F.rational x = F.scaled mx ex := by
  obtain ⟨hexp, hsig⟩ := hx.normal h h'
  have hneg := hx.neg_iff
  rw [rational, if_neg h, hexp]
  congr 1
  have hcast : (F.significand x : ℚ) = (|mx| : ℤ) := by
    rw [hsig]
    rfl
  split_ifs with hn
  · rw [hcast, abs_of_neg (hneg.mpr hn)]
    push_cast
    ring
  · rw [hcast, abs_of_nonneg (not_lt.mp (mt hneg.mp hn))]

/-- The bounds of the exponents of numbers that are neither zero nor infinite. -/
theorem normal_bounds (h : F.expField x ≠ 0) (h' : F.expField x ≠ F.maxExp) :
    1 ≤ ex ∧ ex < F.maxExp := by
  obtain ⟨hexp, -⟩ := hx.normal h h'
  have hle : F.expField x ≤ F.maxExp := expField_le
  omega

theorem abs_scaled_lt : |F.scaled mx ex| < 2 ^ (ex + 1 - F.bias) := by
  have hpow : (0 : ℚ) < 2 ^ (ex - F.bias - F.fracBits) := by positivity
  have hhigh : |(mx : ℚ)| < 2 ^ (F.fracBits + 1) := by exact_mod_cast hx.high
  calc |F.scaled mx ex| = |(mx : ℚ)| * 2 ^ (ex - F.bias - F.fracBits) := by rw [abs_scaled, scaled]
    _ < 2 ^ (F.fracBits + 1) * 2 ^ (ex - F.bias - F.fracBits) := mul_lt_mul_of_pos_right hhigh hpow
    _ = 2 ^ (ex + 1 - F.bias) := by
      rw [← zpow_natCast, ← zpow_add₀ two_ne_zero]
      congr 1
      push_cast
      ring

theorem le_abs_scaled : 2 ^ (ex - F.bias) ≤ |F.scaled mx ex| := by
  have hpow : (0 : ℚ) < 2 ^ (ex - F.bias - F.fracBits) := by positivity
  have hlow : 2 ^ F.fracBits ≤ |(mx : ℚ)| := by exact_mod_cast hx.low
  calc (2 : ℚ) ^ (ex - F.bias) = 2 ^ F.fracBits * 2 ^ (ex - F.bias - F.fracBits) := by
        rw [← zpow_natCast, ← zpow_add₀ two_ne_zero, add_sub_cancel]
    _ ≤ |(mx : ℚ)| * 2 ^ (ex - F.bias - F.fracBits) := mul_le_mul_of_nonneg_right hlow hpow.le
    _ = |F.scaled mx ex| := by rw [abs_scaled, scaled]

include hy

/-- Two numbers of the same sign. -/
theorem add_of_same_sign (h : F.isNeg x = F.isNeg y) :
    |F.scaled mx ex + F.scaled my ey| = |F.scaled mx ex| + |F.scaled my ey| ∧
      decide (F.scaled mx ex + F.scaled my ey < 0) = F.isNeg x := by
  have hnegx := hx.neg_iff
  have hnegy := hy.neg_iff
  rw [← h] at hnegy
  rw [Bool.eq_iff_iff, decide_eq_true_eq, ← hnegx]
  have hsign (m e : ℤ) : F.scaled m e < 0 ↔ m < 0 := scaled_neg_iff.trans Int.cast_lt_zero
  by_cases hn : F.isNeg x = true
  · have ha := (hsign mx ex).mpr (hnegx.mpr hn)
    have hb := (hsign my ey).mpr (hnegy.mpr hn)
    rw [abs_of_neg ha, abs_of_neg hb, abs_of_neg (add_neg ha hb), neg_add]
    exact ⟨rfl, iff_of_true (add_neg ha hb) (hnegx.mpr hn)⟩
  · have ha := not_lt.mp (mt (hsign mx ex).mp (mt hnegx.mp hn))
    have hb := not_lt.mp (mt (hsign my ey).mp (mt hnegy.mp hn))
    rw [abs_of_nonneg ha, abs_of_nonneg hb, abs_of_nonneg (add_nonneg ha hb)]
    exact ⟨rfl, iff_of_false (add_nonneg ha hb).not_gt (mt hnegx.mp hn)⟩

theorem added_of_zeros (hD : 1 ≤ D) (hx₀ : F.expField x = 0) (hy₀ : F.expField y = 0)
    (h : F.isNeg x = F.isNeg y) :
    F.added D mx ex my ey = F.signed (F.isNeg x && F.isNeg y) 0 := by
  rw [← h, Bool.and_self]
  unfold added
  split_ifs
  · exact hx.packed_of_zero hx₀
  · exact (hy.packed_of_zero hy₀).trans (by rw [h])
  · obtain ⟨habs, hneg⟩ := hx.add_of_same_sign hy h
    have hex := hx.zero hx₀
    have hey := hy.zero hy₀
    have hbound (k : ℤ) (hk : k ≤ -D) : (2 : ℚ) ^ (k + 1 - F.bias) ≤ 2 ^ (-(F.bias : ℤ)) :=
      zpow_le_zpow_right₀ one_le_two (by omega)
    have htwo : (2 : ℚ) ^ (1 - (F.bias : ℤ)) = 2 * 2 ^ (-(F.bias : ℤ)) := by
      rw [sub_eq_add_neg, zpow_add₀ two_ne_zero, zpow_one]
    have hpos : 0 < |F.scaled mx ex + F.scaled my ey| := by
      rw [habs]
      exact add_pos_of_pos_of_nonneg (abs_pos.mpr (scaled_ne_zero hx.ne_zero)) (abs_nonneg _)
    rw [packed_of_small (abs_pos.mp hpos), hneg]
    have hxlt := hx.abs_scaled_lt
    have hylt := hy.abs_scaled_lt
    have := hbound _ hex
    have := hbound _ hey
    rw [habs, htwo]
    linarith

theorem added_of_infinities (hmax : 0 < F.maxExp) (hx₁ : F.expField x = F.maxExp)
    (hy₁ : F.expField y = F.maxExp) (h : F.isNeg x = F.isNeg y) :
    F.added D mx ex my ey = F.signed (F.isNeg x && F.isNeg y) F.infinity := by
  rw [← h, Bool.and_self]
  unfold added
  split_ifs
  · exact hx.packed_of_infinite hmax hx₁
  · exact (hy.packed_of_infinite hmax hy₁).trans (by rw [h])
  · obtain ⟨habs, hneg⟩ := hx.add_of_same_sign hy h
    have hex := hx.infinite hx₁
    have hbound : (2 : ℚ) ^ ((F.maxExp : ℤ) - F.bias) ≤ 2 ^ (ex - F.bias) :=
      zpow_le_zpow_right₀ one_le_two (by omega)
    rw [packed_of_large hmax, hneg]
    rw [habs]
    exact (hbound.trans hx.le_abs_scaled).trans (le_add_of_nonneg_right (abs_nonneg _))

omit hx hy in
/-- The sum of two numbers of the format is a whole number of the smallest differences, so it is
rounded to zero if it is packed as zero. -/
theorem rounded_add (hex : 1 ≤ ex) (hey : 1 ≤ ey) :
    F.rounded (F.scaled mx ex + F.scaled my ey) = F.packed (F.scaled mx ex + F.scaled my ey) := by
  have hwhole (m e : ℤ) (he : 1 ≤ e) : F.scaled m e = F.scaled ((m * 2 ^ (e - 1).toNat : ℤ) : ℚ) 1 := by
    obtain ⟨k, rfl⟩ := Int.le.dest he
    rw [scaled_add, add_sub_cancel_left, Int.toNat_natCast]
    push_cast
    rfl
  have hsum : F.scaled mx ex + F.scaled my ey =
      F.scaled ((mx * 2 ^ (ex - 1).toNat + my * 2 ^ (ey - 1).toNat : ℤ) : ℚ) 1 := by
    rw [hwhole mx ex hex, hwhole my ey hey]
    unfold scaled
    push_cast
    ring
  rw [hsum]
  generalize mx * 2 ^ (ex - 1).toNat + my * 2 ^ (ey - 1).toNat = n
  by_cases hn : n = 0
  · rw [hn, Int.cast_zero, scaled, zero_mul]
    rfl
  · have hne : F.scaled (n : ℚ) 1 ≠ 0 := scaled_ne_zero (by exact_mod_cast hn)
    have habs : |(n : ℚ)| = (n.natAbs : ℚ) := by
      rw [Nat.cast_natAbs]
      push_cast
      rfl
    rw [rounded, packed, withSign_of_ne _ hne, withSign_of_ne _ hne, abs_scaled, habs,
      absRounded_eq_absPacked (Int.natAbs_pos.mpr hn)]

/-- The smaller of two numbers that are far apart is not seen in the sum. -/
theorem rounded_add_of_far (hD : F.fracBits + 3 ≤ D) (hex : 1 ≤ ex) (h : D ≤ ex - ey) :
    F.rounded (F.scaled mx ex + F.scaled my ey) = F.packed (F.scaled mx ex) := by
  have hsum : F.scaled mx ex + F.scaled my ey =
      F.scaled (mx + my * (2 : ℚ) ^ (ey - ex)) ex := by
    have hexp : (2 : ℚ) ^ (ey - F.bias - F.fracBits) =
        2 ^ (ey - ex) * 2 ^ (ex - F.bias - F.fracBits) := by
      rw [← zpow_add₀ two_ne_zero]
      congr 1
      ring
    rw [scaled, scaled, scaled, hexp]
    ring
  have hhigh : |(my : ℚ)| < 2 ^ (F.fracBits + 1) := by exact_mod_cast hy.high
  have hpow : (0 : ℚ) < 2 ^ (ey - ex) := by positivity
  rw [hsum, rounded_scaled hex hx.low hx.high]
  calc |(my : ℚ) * 2 ^ (ey - ex)| = |(my : ℚ)| * 2 ^ (ey - ex) := by rw [abs_mul, abs_of_pos hpow]
    _ < 2 ^ (F.fracBits + 1) * 2 ^ (ey - ex) := mul_lt_mul_of_pos_right hhigh hpow
    _ = (2 : ℚ) ^ ((F.fracBits + 1 : ℕ) + (ey - ex)) := by
      rw [← zpow_natCast, ← zpow_add₀ two_ne_zero]
    _ ≤ (2 : ℚ) ^ (-2 : ℤ) := zpow_le_zpow_right₀ one_le_two (by push_cast; omega)
    _ = 1 / 4 := by norm_num

/-- What code adds is the sum, if it is for zeros and infinities of both signs. -/
theorem added_eq_sum (hmax : 0 < F.maxExp) (hD : F.fracBits + 3 ≤ D)
    (hzeros : F.expField x = 0 → F.expField y = 0 → F.isNeg x ≠ F.isNeg y →
      F.added D mx ex my ey = 0)
    (hinfinities : F.expField x = F.maxExp → F.expField y = F.maxExp → F.isNeg x ≠ F.isNeg y →
      F.added D mx ex my ey = F.infinity) :
    F.added D mx ex my ey = F.sum x y := by
  have hor (h : F.isNeg x ≠ F.isNeg y) : (F.isNeg x && F.isNeg y) = false := by
    revert h
    cases F.isNeg x <;> cases F.isNeg y <;> simp
  have hsingle {z : ℕ} {m e : ℤ} (hz : F.Unpacks D z m e) (h : F.expField z ≠ 0)
      (h' : F.expField z ≠ F.maxExp) : F.packed (F.scaled m e) = F.rounded (F.rational z) := by
    have hround := rounded_scaled (hz.normal_bounds h h').1 hz.low hz.high (d := 0) (by norm_num)
    rw [add_zero] at hround
    rw [hz.rational_eq h h', hround]
  unfold sum
  split_ifs with hboth hx₁ hy₁ hboth₀
  · by_cases hsign : F.isNeg x = F.isNeg y
    · exact hx.added_of_infinities hy hmax hboth.1 hboth.2 hsign
    · rw [hinfinities hboth.1 hboth.2 hsign, hor hsign]
      rfl
  · have hy₁ : F.expField y ≠ F.maxExp := fun h => hboth ⟨hx₁, h⟩
    have hex := hx.infinite hx₁
    have hey : ey < F.maxExp := by
      by_cases hy₀ : F.expField y = 0
      · have := hy.zero hy₀
        omega
      · exact (hy.normal_bounds hy₀ hy₁).2
    rw [added, if_pos (by omega), hx.packed_of_infinite hmax hx₁]
  · have hey := hy.infinite hy₁
    have hex : ex < F.maxExp := by
      by_cases hx₀ : F.expField x = 0
      · have := hx.zero hx₀
        omega
      · exact (hx.normal_bounds hx₀ hx₁).2
    rw [added, if_neg (by omega), if_pos (by omega), hy.packed_of_infinite hmax hy₁]
  · by_cases hsign : F.isNeg x = F.isNeg y
    · exact hx.added_of_zeros hy (by omega) hboth₀.1 hboth₀.2 hsign
    · rw [hzeros hboth₀.1 hboth₀.2 hsign, hor hsign]
      rfl
  · by_cases hx₀ : F.expField x = 0
    · have hy₀ : F.expField y ≠ 0 := fun h => hboth₀ ⟨hx₀, h⟩
      have hex := hx.zero hx₀
      obtain ⟨hey, -⟩ := hy.normal_bounds hy₀ hy₁
      rw [added, if_neg (by omega), if_pos (by omega), hsingle hy hy₀ hy₁, rational_of_zero hx₀,
        zero_add]
    by_cases hy₀ : F.expField y = 0
    · have hey := hy.zero hy₀
      obtain ⟨hex, -⟩ := hx.normal_bounds hx₀ hx₁
      rw [added, if_pos (by omega), hsingle hx hx₀ hx₁, rational_of_zero hy₀, add_zero]
    · obtain ⟨hex, -⟩ := hx.normal_bounds hx₀ hx₁
      obtain ⟨hey, -⟩ := hy.normal_bounds hy₀ hy₁
      rw [hx.rational_eq hx₀ hx₁, hy.rational_eq hy₀ hy₁, added]
      split_ifs with hfar hfar'
      · exact (hx.rounded_add_of_far hy hD hex hfar).symm
      · rw [add_comm]
        exact (hy.rounded_add_of_far hx hD hey hfar').symm
      · exact (rounded_add hex hey).symm

end Unpacks

/-! ## Differences -/

variable (F) in
/-- The pattern of the other sign. -/
def negated (y : ℕ) : ℕ := y ^^^ 2 ^ (F.expBits + F.fracBits)

variable (F) in
/-- The difference of two patterns. -/
def difference (x y : ℕ) : ℕ := F.sum x (F.negated y)

theorem isNeg_negated : F.isNeg (F.negated y) = !F.isNeg y := by
  rw [isNeg, negated, Nat.testBit_xor, Nat.testBit_two_pow_self, Bool.xor_true, isNeg]

theorem expField_negated : F.expField (F.negated y) = F.expField y := by
  refine Nat.eq_of_testBit_eq fun i => ?_
  rw [expField, expField, Nat.testBit_mod_two_pow, Nat.testBit_mod_two_pow, Nat.testBit_div_two_pow,
    Nat.testBit_div_two_pow, negated, Nat.testBit_xor, Nat.testBit_two_pow]
  by_cases hi : i < F.expBits
  · rw [decide_eq_false (show ¬F.expBits + F.fracBits = i + F.fracBits by omega), Bool.xor_false]
  · rw [decide_eq_false hi, Bool.false_and, Bool.false_and]

theorem frac_negated : F.frac (F.negated y) = F.frac y := by
  refine Nat.eq_of_testBit_eq fun i => ?_
  rw [frac, frac, Nat.testBit_mod_two_pow, Nat.testBit_mod_two_pow, negated, Nat.testBit_xor,
    Nat.testBit_two_pow]
  by_cases hi : i < F.fracBits
  · rw [decide_eq_false (show ¬F.expBits + F.fracBits = i by omega), Bool.xor_false]
  · rw [decide_eq_false hi, Bool.false_and, Bool.false_and]

theorem rational_negated : F.rational (F.negated y) = -F.rational y := by
  rw [rational, rational, expField_negated, isNeg_negated, significand, frac_negated, ← significand]
  by_cases h : F.expField y = 0
  · rw [if_pos h, if_pos h, neg_zero]
  · rw [if_neg h, if_neg h, ← scaled_neg]
    congr 1
    cases F.isNeg y <;> simp

/-- The difference of two finite patterns that are not both zeros. -/
theorem difference_eq (hx : F.expField x ≠ F.maxExp) (hy : F.expField y ≠ F.maxExp)
    (h : ¬(F.expField x = 0 ∧ F.expField y = 0)) :
    F.difference x y = F.rounded (F.rational x - F.rational y) := by
  rw [difference, sum, expField_negated, if_neg (fun h => hx h.1), if_neg hx, if_neg hy, if_neg h,
    rational_negated, sub_eq_add_neg]

end FloatFormat
