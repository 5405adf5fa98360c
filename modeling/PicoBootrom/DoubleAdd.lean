import Mathlib.Tactic.LinearCombination
import PicoBootrom.FloatAdd

/-!
# Adding doubles

`mufp_dadd` adds significands of two words as `mufp_fadd` adds those of one : the number with the
smaller exponent is shifted down, and the bits that are shifted out are kept in `r4`. If it is
shifted by 32 places or more, the bits below `r4` are kept as one, in the lowest bit of `r4`, which
is enough for rounding : the sum is then next to an odd number (`FloatFormat.packed_sticky`). From
60 places on, it is left out.

Zeros and infinities have a significand without a fraction, and exponents far from those of
numbers, which are the same for both zeros, and less for the negative infinity.
-/

namespace PicoBootrom

open Thumb Thumb.Reg

-- states are compared by unfolding, which has to stop at the shifts
attribute [local irreducible] BitVec.shiftLeft BitVec.ushiftRight BitVec.sshiftRight

/-! ## The source -/

/-- The labels of `mufp_dsub` and `mufp_dadd`. The two expansions of `mdunpacks` have labels for `x`
and for `y`. Names without a label in the source are those of the instruction after a branch, and a
number after a name stands for a local label. -/
inductive DaddLabel
  | dsub | dadd | daEntry | daXNegate | daXCarry | daX1 | daXNonzero | daXInfinite | daX2
  | daX3 | daYNegate | daYCarry | daY1 | daYNonzero | daYInfinite | daY2 | daY3
  | daXgty | daAlignY | daXgty0 | daAdd | daPack | daNegate | daPack1 | daSmall | daUnnormalised
  | da2 | da1 | da4 | daRoundCarry | da4Rounded | daTie | da3 | daExponent | daFinish | da7 | da6
  | daLow | da5 | daLast | daZero | da0
  | daXrgty | daFarY | daStickyY | daFarY1 | daYgtx | daAlignX | daYgtx0
  | daYrgtx | daFarX | daStickyX | daFarX1 | daYmgtx | daXmgty
  deriving DecidableEq, Repr

/-- The code of `mufp_dsub` and `mufp_dadd`. -/
def daddCode : DaddLabel → Block DaddLabel
  | .dsub => ⟨[push [r4, r5, r6, r7, lr], movs r4 1, lsls r4 r4 31, eors r3 r4], .b .daEntry⟩
  | .dadd => ⟨[push [r4, r5, r6, r7, lr]], .b .daEntry⟩
  | .daEntry => ⟨[
      lsrs r4 r1 20,
      lsrs r7 r1 31,
      subs r6 r4 1,
      lsls r6 r6 20,
      subs r1 r1 r6,
      lsls r4 r4 21],
      .bcond .cc .daX1 .daXNegate⟩
  | .daXNegate => ⟨[mvns r1 r1, rsbs r0 r0], .bcond .cc .daX1 .daXCarry⟩
  | .daXCarry => ⟨[adds r1 r1 1], .b .daX1⟩
  | .daX1 => ⟨[lsrs r4 r4 21], .bcond .eq .daX2 .daXNonzero⟩
  | .daXNonzero => ⟨[adds r6 r4 1, lsrs r6 r6 11], .bcond .eq .daX3 .daXInfinite⟩
  | .daXInfinite => ⟨[subs r4 r4 r7], .b .daX2⟩
  | .daX2 => ⟨[
      movs r0 0,
      lsls r7 r7 1,
      adds r1 r7 1,
      lsls r1 r1 30,
      asrs r1 r1 10,
      subs r4 r4 128,
      lsls r4 r4 12],
      .b .daX3⟩
  | .daX3 => ⟨[
      lsrs r5 r3 20,
      lsrs r7 r3 31,
      subs r6 r5 1,
      lsls r6 r6 20,
      subs r3 r3 r6,
      lsls r5 r5 21],
      .bcond .cc .daY1 .daYNegate⟩
  | .daYNegate => ⟨[mvns r3 r3, rsbs r2 r2], .bcond .cc .daY1 .daYCarry⟩
  | .daYCarry => ⟨[adds r3 r3 1], .b .daY1⟩
  | .daY1 => ⟨[lsrs r5 r5 21], .bcond .eq .daY2 .daYNonzero⟩
  | .daYNonzero => ⟨[adds r6 r5 1, lsrs r6 r6 11], .bcond .eq .daY3 .daYInfinite⟩
  | .daYInfinite => ⟨[subs r5 r5 r7], .b .daY2⟩
  | .daY2 => ⟨[
      movs r2 0,
      lsls r7 r7 1,
      adds r3 r7 1,
      lsls r3 r3 30,
      asrs r3 r3 10,
      subs r5 r5 128,
      lsls r5 r5 12],
      .b .daY3⟩
  | .daY3 => ⟨[subs r7 r5 r4, subs r6 r4 r5], .bcond .mi .daYgtx .daXgty⟩
  | .daXgty => ⟨[mov r12 r4, cmp r6 32], .bcond .ge .daXrgty .daAlignY⟩
  | .daAlignY => ⟨[adds r7 r7 32, movs r4 r2, lsls r4 r4 r7], .b .daXgty0⟩
  | .daXgty0 => ⟨[movs r5 r3, lsls r5 r5 r7, lsrs r2 r2 r6, asrs r3 r3 r6, orrs r2 r5], .b .daAdd⟩
  | .daAdd => ⟨[adds r0 r0 r2, adcs r1 r3], .b .daPack⟩
  | .daPack => ⟨[lsrs r3 r1 31], .bcond .eq .daPack1 .daNegate⟩
  | .daNegate => ⟨[mvns r1 r1, mvns r0 r0, movs r2 0, rsbs r4 r4, adcs r0 r2, adcs r1 r2],
      .b .daPack1⟩
  | .daPack1 => ⟨[mov r2 r12, lsrs r5 r1 21], .bcond .ne .da0 .daSmall⟩
  | .daSmall => ⟨[lsrs r5 r1 20], .bcond .ne .da1 .daUnnormalised⟩
  | .daUnnormalised => ⟨[cmp r0 0], .bcond .eq .da5 .da2⟩
  | .da2 => ⟨[adds r4 r4 r4, adcs r0 r0, adcs r1 r1, subs r2 r2 1, lsrs r5 r1 20],
      .bcond .eq .da2 .da1⟩
  | .da1 => ⟨[lsls r4 r4 1], .bcond .cc .da3 .da4⟩
  | .da4 => ⟨[adds r0 r0 1], .bcond .cc .da4Rounded .daRoundCarry⟩
  | .daRoundCarry => ⟨[adds r1 r1 1], .b .da4Rounded⟩
  | .da4Rounded => ⟨[cmp r4 0], .bcond .ne .da3 .daTie⟩
  | .daTie => ⟨[lsrs r0 r0 1, lsls r0 r0 1], .b .da3⟩
  | .da3 => ⟨[subs r2 r2 1], .bcond .mi .da6 .daExponent⟩
  | .daExponent => ⟨[adds r4 r2 2, lsrs r4 r4 11], .bcond .ne .da7 .daFinish⟩
  | .daFinish => ⟨[lsls r2 r2 20, add r1 r2, lsls r3 r3 31, add r1 r3], .popPc [r4, r5, r6, r7]⟩
  | .da7 => ⟨[lsls r1 r3 31, ldrLit r3 0x7ff00000, orrs r1 r3], .b .daLow⟩
  | .da6 => ⟨[lsls r1 r3 31], .b .daLow⟩
  | .daLow => ⟨[movs r0 0], .popPc [r4, r5, r6, r7]⟩
  | .da5 => ⟨[cmp r1 0], .bcond .ne .da2 .daLast⟩
  | .daLast => ⟨[cmp r4 0], .bcond .ne .da2 .daZero⟩
  | .daZero => ⟨[], .popPc [r4, r5, r6, r7]⟩
  | .da0 => ⟨[
      adds r2 r2 1,
      lsls r6 r0 31,
      lsrs r0 r0 1,
      lsls r5 r1 31,
      orrs r0 r5,
      lsrs r1 r1 1,
      cmp r6 0],
      .bcond .eq .da3 .da4⟩
  | .daXrgty => ⟨[cmp r6 60], .bcond .ge .daXmgty .daFarY⟩
  | .daFarY => ⟨[subs r6 r6 32, adds r7 r7 64, movs r4 r2, lsls r4 r4 r7],
      .bcond .eq .daFarY1 .daStickyY⟩
  | .daStickyY => ⟨[movs r4 1], .b .daFarY1⟩
  | .daFarY1 => ⟨[lsrs r2 r2 r6, orrs r4 r2, movs r2 r3, lsls r3 r3 r7, orrs r4 r3, asrs r3 r2 31],
      .b .daXgty0⟩
  | .daYgtx => ⟨[mov r12 r5, cmp r7 32], .bcond .ge .daYrgtx .daAlignX⟩
  | .daAlignX => ⟨[adds r6 r6 32, movs r4 r0, lsls r4 r4 r6], .b .daYgtx0⟩
  | .daYgtx0 => ⟨[movs r5 r1, lsls r5 r5 r6, lsrs r0 r0 r7, asrs r1 r1 r7, orrs r0 r5], .b .daAdd⟩
  | .daYrgtx => ⟨[cmp r7 60], .bcond .ge .daYmgtx .daFarX⟩
  | .daFarX => ⟨[subs r7 r7 32, adds r6 r6 64, movs r4 r0, lsls r4 r4 r6],
      .bcond .eq .daFarX1 .daStickyX⟩
  | .daStickyX => ⟨[movs r4 1], .b .daFarX1⟩
  | .daFarX1 => ⟨[lsrs r0 r0 r7, orrs r4 r0, movs r0 r1, lsls r1 r1 r6, orrs r4 r1, asrs r1 r0 31],
      .b .daYgtx0⟩
  | .daYmgtx => ⟨[movs r0 r2, movs r1 r3], .b .daXmgty⟩
  | .daXmgty => ⟨[movs r4 0], .b .daPack⟩

variable {P : Placement DaddLabel}

/-! ## Two words -/

theorem two_pow_32_eq {d : ℕ} (hd : d ≤ 32) : 2 ^ 32 = 2 ^ d * 2 ^ (32 - d) := by
  rw [← Nat.pow_add, Nat.add_sub_cancel' hd]

theorem toNat_shiftLeft_sub (x : Word) {d : ℕ} (hd : d ≤ 32) :
    (x <<< (32 - d)).toNat = x.toNat % 2 ^ d * 2 ^ (32 - d) := by
  rw [BitVec.toNat_shiftLeft, Nat.shiftLeft_eq, two_pow_32_eq hd, Nat.mul_mod_mul_right]

theorem toNat_shiftRight (x : Word) (d : ℕ) : (x >>> d).toNat = x.toNat / 2 ^ d := by
  rw [BitVec.toNat_ushiftRight, Nat.shiftRight_eq_div_pow]

/-- Whether a bit is set from a place on. -/
theorem shiftRight_beq_zero (x : Word) (k : ℕ) : (x >>> k == 0#32) = decide (x.toNat < 2 ^ k) := by
  rw [Bool.eq_iff_iff, beq_iff_eq, decide_eq_true_eq, BitVec.toNat_eq, toNat_shiftRight]
  exact Nat.div_eq_zero_iff_lt (Nat.two_pow_pos k)

/-- The bits that are shifted from the upper word into the lower one. -/
theorem toNat_shifted_or (hi lo : Word) {d : ℕ} (hd : d ≤ 32) :
    (lo >>> d ||| hi <<< (32 - d)).toNat = (lo >>> d).toNat + (hi <<< (32 - d)).toNat := by
  have hlo : lo.toNat / 2 ^ d < 2 ^ (32 - d) := by
    rw [Nat.div_lt_iff_lt_mul (Nat.two_pow_pos d), Nat.mul_comm, ← two_pow_32_eq hd]
    exact lo.isLt
  rw [BitVec.toNat_or, toNat_shiftLeft_sub hi hd, toNat_shiftRight, Nat.or_comm, ← Nat.shiftLeft_eq,
    ← Nat.shiftLeft_add_eq_or_of_lt hlo, Nat.add_comm]

/-- A word is shifted down into a second one. -/
theorem toNat_shifted (x : Word) {d : ℕ} (hd : d ≤ 32) :
    (x >>> d).toNat * 2 ^ 32 + (x <<< (32 - d)).toNat = x.toNat * 2 ^ (32 - d) := by
  have hdiv := Nat.div_add_mod x.toNat (2 ^ d)
  calc (x >>> d).toNat * 2 ^ 32 + (x <<< (32 - d)).toNat
      = (2 ^ d * (x.toNat / 2 ^ d) + x.toNat % 2 ^ d) * 2 ^ (32 - d) := by
        rw [toNat_shiftRight, toNat_shiftLeft_sub x hd, two_pow_32_eq hd]
        ring
    _ = x.toNat * 2 ^ (32 - d) := by rw [hdiv]

/-- Two words are shifted down by less than one. -/
theorem pair_shiftRight (hi lo : Word) {d : ℕ} (hd : d ≤ 32) :
    (hi >>> d).toNat * 2 ^ 32 + (lo >>> d ||| hi <<< (32 - d)).toNat =
      (hi.toNat * 2 ^ 32 + lo.toNat) / 2 ^ d := by
  have hshift := toNat_shifted hi hd
  have hmul : hi.toNat * 2 ^ 32 + lo.toNat = lo.toNat + hi.toNat * 2 ^ (32 - d) * 2 ^ d := by
    rw [two_pow_32_eq hd]
    ring
  rw [toNat_shifted_or hi lo hd, hmul, Nat.add_mul_div_right _ _ (Nat.two_pow_pos d),
    ← toNat_shiftRight, ← hshift]
  ring

/-- Two words are shifted down into a third one. -/
theorem signedPair_shifted (hi lo : Word) {d : ℕ} (hd : d ≤ 32) :
    signedPair (hi.sshiftRight d) (lo >>> d ||| hi <<< (32 - d)) * 2 ^ 32 +
      (lo <<< (32 - d)).toNat = signedPair hi lo * 2 ^ (32 - d) := by
  have hhi := toInt_shifted hi hd
  have hlo : ((lo >>> d).toNat * 2 ^ 32 + (lo <<< (32 - d)).toNat : ℤ) = lo.toNat * 2 ^ (32 - d) := by
    exact_mod_cast toNat_shifted lo hd
  rw [signedPair, toNat_shifted_or hi lo hd, signedPair, add_mul _ _ ((2 : ℤ) ^ (32 - d)), ← hlo,
    mul_right_comm, ← hhi]
  push_cast
  ring

/-- The sign of a word fills the word above it. -/
theorem signedPair_sshiftRight_31 (x : Word) : signedPair (x.sshiftRight 31) x = x.toInt := by
  rw [signedPair, sshiftRight_31]
  rcases sign_cases x with ⟨-, h, hmsb⟩ | ⟨-, h, hmsb⟩ <;> rw [hmsb, h]
  · rw [if_neg Bool.false_ne_true]
    exact zero_add _
  · rw [if_pos rfl]
    change -1 * 2 ^ 32 + (x.toNat : ℤ) = x.toNat - (2 ^ 32 : ℕ)
    push_cast
    ring

/-- Two words that were shifted down by 32 places and `k` more, with the three words of the result :
the bits that are shifted out make its lowest bit odd. -/
structure ShiftedFar (k : ℕ) (m u : ℤ) : Prop where
  near : |(m : ℚ) / 2 ^ k - u| < 1
  odd_or : u % 2 = 1 ∨ (m : ℚ) / 2 ^ k = u

/-- The lowest bit of a word is set. -/
theorem toNat_one_or (x : Word) : (1 ||| x).toNat = x.toNat / 2 * 2 + 1 := by
  have hdiv : (1 ||| x.toNat) / 2 = x.toNat / 2 := by
    rw [Nat.or_div_two]
    exact Nat.zero_or _
  have hmod : (1 ||| x.toNat) % 2 = 1 := by
    have hbit : (1 ||| x.toNat).testBit 0 = true := by
      rw [Nat.testBit_or, Nat.testBit_zero]
      exact Bool.true_or _
    rwa [Nat.testBit_zero, decide_eq_true_eq] at hbit
  rw [BitVec.toNat_or]
  change 1 ||| x.toNat = _
  omega

theorem shiftedFar (hi lo : Word) {k : ℕ} (hk : k ≤ 32) :
    ShiftedFar k (signedPair hi lo)
      (signedPair ((hi.sshiftRight 31).sshiftRight k)
        (hi >>> k ||| hi.sshiftRight 31 <<< (32 - k)) * 2 ^ 32 +
      ((if lo <<< (32 - k) = 0 then 0 else 1) ||| lo >>> k ||| hi <<< (32 - k)).toNat) := by
  have hshift := signedPair_shifted (hi.sshiftRight 31) hi hk
  have hor := toNat_shifted_or hi lo hk
  have hrest : lo <<< (32 - k) = 0 ↔ lo.toNat % 2 ^ k = 0 := by
    rw [shiftLeft_eq_zero_iff lo (by omega), show 32 - (32 - k) = k by omega]
  rw [signedPair_sshiftRight_31] at hshift
  rw [toNat_shiftRight] at hor
  generalize signedPair ((hi.sshiftRight 31).sshiftRight k)
    (hi >>> k ||| hi.sshiftRight 31 <<< (32 - k)) = t at hshift
  rw [BitVec.or_assoc]
  generalize lo >>> k ||| hi <<< (32 - k) = x at hor
  -- the whole part of the shifted number
  have hwhole : ((t * 2 ^ 32 + x.toNat : ℤ) : ℚ) =
      (signedPair hi lo : ℚ) / 2 ^ k - (lo.toNat % 2 ^ k : ℕ) / 2 ^ k := by
    have hpow : (2 : ℤ) ^ 32 = 2 ^ (32 - k) * 2 ^ k := by rw [← pow_add, Nat.sub_add_cancel hk]
    have hdiv : (2 : ℤ) ^ k * (lo.toNat / 2 ^ k : ℕ) + (lo.toNat % 2 ^ k : ℕ) = lo.toNat := by
      exact_mod_cast Nat.div_add_mod lo.toNat (2 ^ k)
    have hmul : (t * 2 ^ 32 + x.toNat) * 2 ^ k =
        signedPair hi lo - ((lo.toNat % 2 ^ k : ℕ) : ℤ) := by
      rw [signedPair, hor, Nat.cast_add]
      linear_combination (2 : ℤ) ^ k * hshift + hdiv - hi.toInt * hpow
    have hcast := congrArg (Int.cast : ℤ → ℚ) hmul
    rw [← sub_div, eq_div_iff (by positivity)]
    push_cast at hcast ⊢
    exact hcast
  have hlt : ((lo.toNat % 2 ^ k : ℕ) : ℚ) / 2 ^ k < 1 := by
    rw [div_lt_one (by positivity)]
    exact_mod_cast Nat.mod_lt lo.toNat (Nat.two_pow_pos k)
  split_ifs with hzero
  · rw [hrest] at hzero
    rw [hzero, Nat.cast_zero, zero_div, sub_zero] at hwhole
    rw [show (0 ||| x : Word) = x from BitVec.zero_or]
    exact ⟨by rw [hwhole, sub_self, abs_zero]; exact one_pos, .inr hwhole.symm⟩
  · have hpos : 0 < ((lo.toNat % 2 ^ k : ℕ) : ℚ) / 2 ^ k := by
      rw [hrest] at hzero
      have hpos : 0 < lo.toNat % 2 ^ k := Nat.pos_of_ne_zero hzero
      positivity
    rw [toNat_one_or]
    refine ⟨?_, .inl (by omega)⟩
    -- the odd number is the whole part, or the next one
    have hcases : (t * 2 ^ 32 + (x.toNat / 2 * 2 + 1 : ℕ) : ℤ) = t * 2 ^ 32 + x.toNat ∨
        (t * 2 ^ 32 + (x.toNat / 2 * 2 + 1 : ℕ) : ℤ) = t * 2 ^ 32 + x.toNat + 1 := by omega
    rw [abs_lt]
    rcases hcases with h | h <;> rw [h]
    · rw [hwhole]
      constructor <;> linarith
    · rw [Int.cast_add, hwhole]
      push_cast at hpos hlt ⊢
      constructor <;> linarith

/-! ## Sums of words -/

theorem toNat_decide_carry {n : ℕ} (h : n < 2 * 2 ^ 32) :
    n % 2 ^ 32 + (decide (2 ^ 32 ≤ n)).toNat * 2 ^ 32 = n := by
  by_cases hle : 2 ^ 32 ≤ n
  · rw [decide_eq_true hle, Bool.toNat_true]
    omega
  · rw [decide_eq_false hle, Bool.toNat_false]
    omega

/-- A sum and its carry. -/
theorem toNat_ofAdd (x y : Word) :
    (x + y).toNat + (Flags.ofAdd x y).c.toNat * 2 ^ 32 = x.toNat + y.toNat := by
  have hx := x.isLt
  have hy := y.isLt
  rw [BitVec.toNat_add]
  exact toNat_decide_carry (by omega)

theorem toNat_ofAdc (x y : Word) (k : Bool) :
    (x + y + (BitVec.ofBool k).setWidth 32).toNat + (Flags.ofAdc x y k).c.toNat * 2 ^ 32 =
      x.toNat + y.toNat + k.toNat := by
  have hx := x.isLt
  have hy := y.isLt
  have hk := k.toNat_le
  rw [BitVec.toNat_add, BitVec.toNat_add, toNat_carryWord, Nat.mod_add_mod]
  exact toNat_decide_carry (by omega)

/-- A result that has been returned. -/
def DoubleReturned (P : Placement DaddLabel) (c : Cpu) (r : ℕ) (y : Config DaddLabel) : Prop :=
  ∃ c', y = P.jump c.lr c' ∧ doublePattern c'.r1 c'.r0 = r ∧ Kept 20 c c'

section Packing

variable {c₀ c : Cpu} {r n : ℕ} {neg : Bool} {e s a : ℤ}

/-- The `pop` at the end. -/
theorem doubleReturned_popPc (hc : Framed [r4, r5, r6, r7, lr] c₀ c₀.mem c)
    (h : doublePattern c.r1 c.r0 = r) :
    DoubleReturned P c₀ r (Exit.next P c (.popPc [r4, r5, r6, r7])) := by
  obtain ⟨c', hnext, hkept, hregs, hmem⟩ :=
    (show Framed ([r4, r5, r6, r7] ++ [lr]) c₀ c₀.mem c from hc).popPc P
  have hr0 : c'.r0 = c.r0 := hregs .r0 (by decide) (by decide)
  have hr1 : c'.r1 = c.r1 := hregs .r1 (by decide) (by decide)
  refine ⟨c', hnext, ?_, { hkept with
    mem := fun a ha => (congrFun hmem a).trans (hc.outside a ha) }⟩
  rw [hr0, hr1, h]

theorem signed_double (neg : Bool) (a : ℕ) :
    double.signed neg a = neg.toNat * 2 ^ 63 + a := by
  cases neg
  · exact (Nat.zero_mul _).symm ▸ (Nat.zero_add a).symm
  · rfl

theorem leads_daLow (hc : Framed [r4, r5, r6, r7, lr] c₀ c₀.mem c)
    (h : c.r1.toNat * 2 ^ 32 = r) :
    Leads daddCode P (.at .daLow c) (DoubleReturned P c₀ r) := by
  refine .block (.now (doubleReturned_popPc hc ?_))
  change doublePattern c.r1 0 = r
  exact (Nat.add_zero _).trans h

theorem toNat_signBit {x : Word} (hsign : x.toNat = neg.toNat) :
    (x <<< 31).toNat = neg.toNat * 2 ^ 31 := by
  have hneg : neg.toNat ≤ 1 := neg.toNat_le
  rw [BitVec.toNat_shiftLeft, Nat.shiftLeft_eq, hsign]
  omega

theorem leads_da6 (hc : Framed [r4, r5, r6, r7, lr] c₀ c₀.mem c) (hsign : c.r3.toNat = neg.toNat) :
    Leads daddCode P (.at .da6 c) (DoubleReturned P c₀ (double.signed neg 0)) := by
  refine .block ?_
  dsimp [daddCode]
  refine leads_daLow hc ?_
  dsimp only
  rw [toNat_signBit hsign, signed_double]
  omega

theorem leads_da7 (hc : Framed [r4, r5, r6, r7, lr] c₀ c₀.mem c) (hsign : c.r3.toNat = neg.toNat) :
    Leads daddCode P (.at .da7 c) (DoubleReturned P c₀ (double.signed neg double.infinity)) := by
  have hor : (c.r3 <<< 31 ||| 0x7ff00000#32).toNat = neg.toNat * 2 ^ 31 + 2047 * 2 ^ 20 := by
    have hlt : 2047 * 2 ^ 20 < 2 ^ 31 := by norm_num
    have hadd := Nat.shiftLeft_add_eq_or_of_lt hlt neg.toNat
    rw [Nat.shiftLeft_eq] at hadd
    rw [BitVec.toNat_or, toNat_signBit hsign, hadd]
    rfl
  refine .block ?_
  dsimp [daddCode]
  refine leads_daLow hc ?_
  dsimp only
  rw [hor, signed_double]
  change _ = _ + 2047 * 2 ^ 52
  omega

theorem leads_daFinish (hc : Framed [r4, r5, r6, r7, lr] c₀ c₀.mem c)
    (hsign : c.r3.toNat = neg.toNat) (hexp : 0 ≤ e ∧ e < 2046) (hr2 : (c.r2.toNat : ℤ) = e)
    (hsig : (c.r1.toNat * 2 ^ 32 + c.r0.toNat : ℤ) = s) (hhigh : s ≤ 2 * 2 ^ 52) :
    Leads daddCode P (.at .daFinish c)
      (DoubleReturned P c₀ (double.signed neg (e * 2 ^ 52 + s).toNat)) := by
  have hneg : neg.toNat ≤ 1 := neg.toNat_le
  refine .block (.now (doubleReturned_popPc hc ?_))
  change (c.r1 + c.r2 <<< 20 + c.r3 <<< 31).toNat * 2 ^ 32 + c.r0.toNat = _
  rw [signed_double, BitVec.toNat_add, BitVec.toNat_add, toNat_signBit hsign,
    BitVec.toNat_shiftLeft, Nat.shiftLeft_eq]
  omega

theorem leads_daExponent (hc : Framed [r4, r5, r6, r7, lr] c₀ c₀.mem c)
    (hsign : c.r3.toNat = neg.toNat) (hexp : 1 ≤ e ∧ e ≤ 2 ^ 30) (hr2 : (c.r2.toNat : ℤ) = e - 1)
    (hsig : (c.r1.toNat * 2 ^ 32 + c.r0.toNat : ℤ) = s) (hhigh : s ≤ 2 * 2 ^ 52) :
    Leads daddCode P (.at .daExponent c)
      (DoubleReturned P c₀ (double.signed neg (double.packAbs e s))) := by
  have hmax : (double.maxExp : ℤ) = 2047 := rfl
  have htwo : (c.r2 + 2#32).toNat = c.r2.toNat + 2 := by
    rw [BitVec.toNat_add]
    change (c.r2.toNat + 2) % 2 ^ 32 = _
    omega
  have hshift : (c.r2 + 2#32) >>> 11 = 0 ↔ c.r2.toNat + 2 < 2048 := by
    rw [BitVec.toNat_eq, BitVec.toNat_ushiftRight, Nat.shiftRight_eq_div_pow, htwo]
    change _ = 0 ↔ _
    omega
  rw [FloatFormat.packAbs, hmax, if_neg (by omega)]
  refine .block ?_
  dsimp [daddCode]
  refine .ite (fun hbig => ?_) (fun hsmall => ?_)
  · rw [Bool.not_eq_true', beq_eq_false_iff_ne] at hbig
    have hbig := mt hshift.mpr hbig
    rw [if_pos (by omega)]
    exact leads_da7 hc hsign
  · rw [Bool.not_eq_true', beq_eq_false_iff_ne, not_not] at hsmall
    have hsmall := hshift.mp hsmall
    rw [if_neg (by omega)]
    exact leads_daFinish hc hsign (by omega) hr2 hsig hhigh

/-- The sign and the exponent are put to the significand. -/
theorem leads_da3 (hc : Framed [r4, r5, r6, r7, lr] c₀ c₀.mem c) (hsign : c.r3.toNat = neg.toNat)
    (hexp : c.r2.toInt = e) (hrange : -2 ^ 30 ≤ e ∧ e ≤ 2 ^ 30)
    (hsig : (c.r1.toNat * 2 ^ 32 + c.r0.toNat : ℤ) = s) (hhigh : s ≤ 2 * 2 ^ 52) :
    Leads daddCode P (.at .da3 c)
      (DoubleReturned P c₀ (double.signed neg (double.packAbs e s))) := by
  have hone : (1#32).toInt = 1 := rfl
  have hdec : (c.r2 - 1#32).toInt = e - 1 := by
    rw [toInt_sub_of_bounds (by omega) (by omega), hexp, hone]
  have hr2 := sign_cases (c.r2 - 1#32)
  refine .block ?_
  dsimp [daddCode]
  refine .ite (fun hmi => ?_) (fun hpl => ?_)
  · rw [BitVec.msb_eq_toInt, hdec, decide_eq_true_eq] at hmi
    rw [FloatFormat.packAbs, if_pos (by omega)]
    exact leads_da6 hc hsign
  · rw [BitVec.msb_eq_toInt, hdec, decide_eq_true_eq] at hpl
    exact leads_daExponent hc hsign (by omega) (by dsimp only; omega) hsig hhigh

/-- The even one of two significands. -/
theorem leads_daTie (hc : Framed [r4, r5, r6, r7, lr] c₀ c₀.mem c) (hsign : c.r3.toNat = neg.toNat)
    (hexp : c.r2.toInt = e) (hrange : -2 ^ 30 ≤ e ∧ e ≤ 2 ^ 30)
    (hsig : (c.r1.toNat * 2 ^ 32 + c.r0.toNat / 2 * 2 : ℤ) = s) (hhigh : s ≤ 2 * 2 ^ 52) :
    Leads daddCode P (.at .daTie c)
      (DoubleReturned P c₀ (double.signed neg (double.packAbs e s))) := by
  have hr0 := c.r0.isLt
  refine .block ?_
  dsimp [daddCode]
  refine leads_da3 hc hsign hexp hrange ?_ hhigh
  dsimp only
  rw [BitVec.toNat_shiftLeft, BitVec.toNat_ushiftRight, Nat.shiftLeft_eq,
    Nat.shiftRight_eq_div_pow]
  omega

theorem leads_da4Rounded (hc : Framed [r4, r5, r6, r7, lr] c₀ c₀.mem c)
    (hsign : c.r3.toNat = neg.toNat) (hexp : c.r2.toInt = e) (hrange : -2 ^ 30 ≤ e ∧ e ≤ 2 ^ 30)
    (hsig : (c.r1.toNat * 2 ^ 32 + c.r0.toNat : ℤ) = a + 1) (hhigh : a < 2 * 2 ^ 52) :
    Leads daddCode P (.at .da4Rounded c) (DoubleReturned P c₀ (double.signed neg
      (double.packAbs e (if c.r4.toNat = 0 then a + a % 2 else a + 1)))) := by
  refine .block ?_
  dsimp [daddCode]
  refine .ite (fun hne => ?_) (fun heq => ?_)
  · rw [Bool.not_eq_true', decide_eq_false_iff_not] at hne
    have hzero : ¬c.r4.toNat = 0 := fun h => hne (BitVec.eq_of_toNat_eq h)
    rw [if_neg hzero]
    exact leads_da3 hc hsign hexp hrange hsig hhigh
  · rw [Bool.not_eq_true', decide_eq_false_iff_not, not_not] at heq
    have hzero : c.r4.toNat = 0 := congrArg BitVec.toNat heq
    rw [if_pos hzero]
    exact leads_daTie hc hsign hexp hrange (by dsimp only; omega) (by omega)

theorem leads_daRoundCarry {Q : Config DaddLabel → Prop}
    (h : ∀ flags, Leads daddCode P (.at .da4Rounded { c with r1 := c.r1 + 1, flags := flags }) Q) :
    Leads daddCode P (.at .daRoundCarry c) Q := by
  refine .block ?_
  dsimp [daddCode]
  exact h _

/-- A significand is rounded up. -/
theorem leads_da4 (hc : Framed [r4, r5, r6, r7, lr] c₀ c₀.mem c) (hsign : c.r3.toNat = neg.toNat)
    (hexp : c.r2.toInt = e) (hrange : -2 ^ 30 ≤ e ∧ e ≤ 2 ^ 30)
    (hsig : (c.r1.toNat * 2 ^ 32 + c.r0.toNat : ℤ) = a) (hhigh : a < 2 * 2 ^ 52) :
    Leads daddCode P (.at .da4 c) (DoubleReturned P c₀ (double.signed neg
      (double.packAbs e (if c.r4.toNat = 0 then a + a % 2 else a + 1)))) := by
  have hr0 := c.r0.isLt
  have hlow : (c.r0 + 1#32).toNat = (c.r0.toNat + 1) % 2 ^ 32 := BitVec.toNat_add ..
  have hup : (c.r1 + 1#32).toNat = (c.r1.toNat + 1) % 2 ^ 32 := BitVec.toNat_add ..
  refine .block ?_
  dsimp [daddCode]
  refine .ite (fun hcc => ?_) (fun hcs => leads_daRoundCarry fun _ => ?_)
  · rw [Bool.not_eq_true', decide_eq_false_iff_not] at hcc
    change ¬2 ^ 32 ≤ c.r0.toNat + 1 at hcc
    refine leads_da4Rounded hc hsign hexp hrange ?_ hhigh
    dsimp only
    omega
  · rw [Bool.not_eq_true', decide_eq_false_iff_not, not_not] at hcs
    change 2 ^ 32 ≤ c.r0.toNat + 1 at hcs
    refine leads_da4Rounded hc hsign hexp hrange ?_ hhigh
    dsimp only
    change ((c.r1 + 1#32).toNat * 2 ^ 32 + (c.r0 + 1#32).toNat : ℤ) = _
    omega

section Halves

variable {Q : Config DaddLabel → Prop}

/-- The highest bit of `r4` is shifted out. -/
theorem leads_da1_cases
    (hlow : c.r4.toNat < 2 ^ 31 → ∀ r4' flags, Leads daddCode P
      (.at .da3 { c with r4 := r4', flags := flags }) Q)
    (hhigh : 2 ^ 31 ≤ c.r4.toNat → ∀ flags, Leads daddCode P
      (.at .da4 { c with r4 := c.r4 <<< 1, flags := flags }) Q) :
    Leads daddCode P (.at .da1 c) Q := by
  have hbit : (decide (1 ≤ 32) && c.r4.getLsbD 31) = decide (2 ^ 31 ≤ c.r4.toNat) := by
    have hmsb := BitVec.msb_eq_decide c.r4
    rw [BitVec.msb_eq_getLsbD_last] at hmsb
    exact hmsb
  refine .block ?_
  dsimp [daddCode, carryLeft]
  refine .ite (fun hcc => ?_) (fun hcs => ?_)
  · rw [hbit, Bool.not_eq_true', decide_eq_false_iff_not, not_le] at hcc
    exact hlow hcc _ _
  · rw [hbit, Bool.not_eq_true', decide_eq_false_iff_not, not_not] at hcs
    exact hhigh hcs _

/-- The lowest bit of `r0` is shifted out. -/
theorem leads_da0_cases {hi lo : Word} (hhi : hi = c.r1 >>> 1) (hlo : lo = c.r0 >>> 1 ||| c.r1 <<< 31)
    (heven : c.r0.toNat % 2 = 0 → ∀ r5' r6' flags, Leads daddCode P (.at .da3 { c with
      r0 := lo, r1 := hi, r2 := c.r2 + 1, r5 := r5', r6 := r6', flags := flags }) Q)
    (hodd : c.r0.toNat % 2 = 1 → ∀ r5' r6' flags, Leads daddCode P (.at .da4 { c with
      r0 := lo, r1 := hi, r2 := c.r2 + 1, r5 := r5', r6 := r6', flags := flags }) Q) :
    Leads daddCode P (.at .da0 c) Q := by
  have hbit : c.r0 <<< 31 = 0 ↔ c.r0.toNat % 2 = 0 := shiftLeft_eq_zero_iff c.r0 (by decide)
  subst hhi hlo
  refine .block ?_
  dsimp [daddCode]
  refine .ite (fun hzero => ?_) (fun hone => ?_)
  · rw [decide_eq_true_eq] at hzero
    exact heven (hbit.mp hzero) _ _ _
  · rw [decide_eq_true_eq] at hone
    exact hodd (Nat.mod_two_ne_zero.mp (mt hbit.mpr hone)) _ _ _

end Halves

/-- A normalised significand is rounded at the highest bit of `r4`. -/
theorem leads_da1 (hc : Framed [r4, r5, r6, r7, lr] c₀ c₀.mem c) (hsign : c.r3.toNat = neg.toNat)
    (hexp : c.r2.toInt = e) (hrange : -2 ^ 30 ≤ e ∧ e ≤ 2 ^ 30)
    (hsig : n = c.r1.toNat * 2 ^ 32 + c.r0.toNat) (hhigh : n < 2 ^ 53) :
    Leads daddCode P (.at .da1 c) (DoubleReturned P c₀ (double.signed neg (double.packAbs e
      (roundEven ((n * 2 ^ 32 + c.r4.toNat : ℕ) / (2 ^ 32 : ℕ)))))) := by
  have hr4 := c.r4.isLt
  have htwo : 2 * 2 ^ 31 = 2 ^ 32 := rfl
  refine leads_da1_cases (fun hlow _ _ => ?_) (fun hup _ => ?_)
  · have hround := (roundEven_natCast_div (a := n) hlow).1
    rw [htwo] at hround
    rw [hround]
    refine leads_da3 hc hsign hexp hrange ?_ (by omega)
    dsimp only
    omega
  · obtain ⟨k, hk⟩ := Nat.exists_eq_add_of_le hup
    have hround := (roundEven_natCast_div (a := n) (show k < 2 ^ 31 by omega)).2
    rw [Nat.add_assoc, ← hk, htwo] at hround
    have hshift : (c.r4 <<< 1).toNat = 0 ↔ k = 0 := by
      rw [BitVec.toNat_shiftLeft, Nat.shiftLeft_eq]
      omega
    rw [hround, ← if_congr hshift rfl rfl]
    refine leads_da4 hc hsign hexp hrange ?_ (by omega)
    dsimp only
    omega

/-- A significand with one more bit, which is rounded. -/
theorem leads_da0 (hc : Framed [r4, r5, r6, r7, lr] c₀ c₀.mem c) (hsign : c.r3.toNat = neg.toNat)
    (hexp : c.r2.toInt = e) (hrange : -2 ^ 29 ≤ e ∧ e ≤ 2 ^ 29)
    (hsig : n = c.r1.toNat * 2 ^ 32 + c.r0.toNat) (hhigh : n < 2 ^ 54) :
    Leads daddCode P (.at .da0 c) (DoubleReturned P c₀ (double.signed neg (double.packAbs (e + 1)
      (roundEven ((n * 2 ^ 32 + c.r4.toNat : ℕ) / (2 ^ 33 : ℕ)))))) := by
  have hone : (1 : Word).toInt = 1 := rfl
  have hinc : (c.r2 + 1).toInt = e + 1 := by
    rw [toInt_add_of_bounds (by omega) (by omega), hexp, hone]
  have hround := roundEven_natCast_div (a := n / 2) c.r4.isLt
  have htwo : 2 * 2 ^ 32 = 2 ^ 33 := rfl
  rw [htwo] at hround
  have hhalf : ((c.r1 >>> 1).toNat * 2 ^ 32 + (c.r0 >>> 1 ||| c.r1 <<< 31).toNat : ℤ) =
      (n / 2 : ℕ) := by
    have hpair := pair_shiftRight c.r1 c.r0 (d := 1) (by decide)
    rw [← hsig, pow_one] at hpair
    exact_mod_cast hpair
  refine leads_da0_cases rfl rfl (fun heven _ _ _ => ?_) (fun hodd _ _ _ => ?_)
  · have hn : n / 2 * 2 ^ 33 + c.r4.toNat = n * 2 ^ 32 + c.r4.toNat := by omega
    rw [hn] at hround
    rw [hround.1]
    exact leads_da3 hc hsign hinc (by omega) hhalf (by omega)
  · have hn : n / 2 * 2 ^ 33 + 2 ^ 32 + c.r4.toNat = n * 2 ^ 32 + c.r4.toNat := by omega
    rw [hn] at hround
    rw [hround.2]
    exact leads_da4 hc hsign hinc (by omega) hhalf (by omega)

/-- The significand of three words. -/
def tripleNat (hi lo low : Word) : ℕ := (hi.toNat * 2 ^ 32 + lo.toNat) * 2 ^ 32 + low.toNat

/-- The state of the normalisation : a positive number with the significand `v`, that stays the
same. -/
structure DoubleNormalising (c₀ : Cpu) (neg : Bool) (q : ℚ) (v : ℕ) (c : Cpu) (e : ℤ) : Prop where
  framed : Framed [r4, r5, r6, r7, lr] c₀ c₀.mem c
  sign : c.r3.toNat = neg.toNat
  exp : c.r2.toInt = e
  significand : v = tripleNat c.r1 c.r0 c.r4
  pos : 0 < v
  lt : v < 2 ^ 86
  scaled : q = double.scaled (v / (2 ^ 32 : ℕ)) e
  /-- The exponent does not wrap around. -/
  range : -2 ^ 28 ≤ e + Nat.log 2 v ∧ e ≤ 2 ^ 28

variable {q : ℚ} {v : ℕ}

namespace DoubleNormalising

theorem exp_bounds (h : DoubleNormalising c₀ neg q v c e) : -2 ^ 29 ≤ e ∧ e ≤ 2 ^ 29 := by
  have hlog : Nat.log 2 v < 86 := Nat.log_lt_of_lt_pow h.pos.ne' h.lt
  have hrange := h.range
  omega

theorem leads_da1 (h : DoubleNormalising c₀ neg q v c e) (hlow : 2 ^ 20 ≤ c.r1.toNat)
    (hhigh : v < 2 ^ 85) :
    Leads daddCode P (.at .da1 c)
      (DoubleReturned P c₀ (double.signed neg (double.absPacked q))) := by
  have hsig := h.significand
  have hr0 := c.r0.isLt
  have hr4 := c.r4.isLt
  have hbounds := h.exp_bounds
  unfold tripleNat at hsig
  have hv : (2 : ℚ) ^ 84 ≤ v := by exact_mod_cast (show 2 ^ 84 ≤ v by omega)
  have hv' : (v : ℚ) < 2 ^ 85 := by exact_mod_cast hhigh
  have hlow' : (2 : ℚ) ^ double.fracBits ≤ v / (2 ^ 32 : ℕ) := by
    rw [le_div_iff₀ (by norm_num)]
    change (2 : ℚ) ^ 52 * (2 ^ 32 : ℕ) ≤ v
    norm_num at hv ⊢
    exact hv
  have hhigh' : (v : ℚ) / (2 ^ 32 : ℕ) < 2 ^ (double.fracBits + 1) := by
    rw [div_lt_iff₀ (by norm_num)]
    change (v : ℚ) < 2 ^ 53 * (2 ^ 32 : ℕ)
    norm_num at hv' ⊢
    exact hv'
  rw [h.scaled, FloatFormat.absPacked_eq hlow' hhigh', hsig]
  exact PicoBootrom.leads_da1 h.framed h.sign h.exp (by omega) rfl (by omega)

theorem leads_da0 (h : DoubleNormalising c₀ neg q v c e) (hlow : 2 ^ 21 ≤ c.r1.toNat) :
    Leads daddCode P (.at .da0 c)
      (DoubleReturned P c₀ (double.signed neg (double.absPacked q))) := by
  have hsig := h.significand
  have hlt := h.lt
  have hr0 := c.r0.isLt
  have hr4 := c.r4.isLt
  have hbounds := h.exp_bounds
  unfold tripleNat at hsig
  have hv : (2 : ℚ) ^ 85 ≤ v := by exact_mod_cast (show 2 ^ 85 ≤ v by omega)
  have hv' : (v : ℚ) < 2 ^ 86 := by exact_mod_cast hlt
  have hlow' : (2 : ℚ) ^ double.fracBits ≤ v / (2 ^ 33 : ℕ) := by
    rw [le_div_iff₀ (by norm_num)]
    change (2 : ℚ) ^ 52 * (2 ^ 33 : ℕ) ≤ v
    norm_num at hv ⊢
    exact hv
  have hhigh' : (v : ℚ) / (2 ^ 33 : ℕ) < 2 ^ (double.fracBits + 1) := by
    rw [div_lt_iff₀ (by norm_num)]
    change (v : ℚ) < 2 ^ 53 * (2 ^ 33 : ℕ)
    norm_num at hv' ⊢
    exact hv'
  have hscaled : double.scaled (v / (2 ^ 32 : ℕ)) e = double.scaled (v / (2 ^ 33 : ℕ)) (e + 1) := by
    rw [← Nat.cast_one, FloatFormat.scaled_add]
    congr 1
    norm_num
    ring
  rw [h.scaled, hscaled, FloatFormat.absPacked_eq hlow' hhigh', hsig]
  exact PicoBootrom.leads_da0 h.framed h.sign h.exp hbounds rfl (by omega)

/-- One place of the normalisation. -/
theorem doubled (h : DoubleNormalising c₀ neg q v c e) (hlt : c.r1.toNat < 2 ^ 20)
    (r5' : Word) (flags : Flags) :
    DoubleNormalising c₀ neg q (2 * v) { c with
      r0 := c.r0 + c.r0 + (BitVec.ofBool (Flags.ofAdd c.r4 c.r4).c).setWidth 32
      r1 := c.r1 + c.r1 + (BitVec.ofBool
        (Flags.ofAdc c.r0 c.r0 (Flags.ofAdd c.r4 c.r4).c).c).setWidth 32
      r2 := c.r2 - 1
      r4 := c.r4 + c.r4
      r5 := r5'
      flags := flags } (e - 1) where
  framed := h.framed
  sign := h.sign
  exp := by
    have hbounds := h.exp_bounds
    have hr2 := h.exp
    have hone : (1 : Word).toInt = 1 := rfl
    change (c.r2 - 1).toInt = _
    rw [toInt_sub_of_bounds (by omega) (by omega)]
    omega
  significand := by
    have h4 := toNat_ofAdd c.r4 c.r4
    have h0 := toNat_ofAdc c.r0 c.r0 (Flags.ofAdd c.r4 c.r4).c
    have h1 := toNat_ofAdc c.r1 c.r1 (Flags.ofAdc c.r0 c.r0 (Flags.ofAdd c.r4 c.r4).c).c
    have hk := (Flags.ofAdc c.r0 c.r0 (Flags.ofAdd c.r4 c.r4).c).c.toNat_le
    rw [h.significand]
    change 2 * ((c.r1.toNat * 2 ^ 32 + c.r0.toNat) * 2 ^ 32 + c.r4.toNat) =
      ((c.r1 + c.r1 + (BitVec.ofBool (Flags.ofAdc c.r0 c.r0
        (Flags.ofAdd c.r4 c.r4).c).c).setWidth 32).toNat * 2 ^ 32 +
      (c.r0 + c.r0 + (BitVec.ofBool (Flags.ofAdd c.r4 c.r4).c).setWidth 32).toNat) * 2 ^ 32 +
      (c.r4 + c.r4).toNat
    omega
  pos := by
    have := h.pos
    omega
  lt := by
    have := h.significand
    have := c.r0.isLt
    have := c.r4.isLt
    unfold tripleNat at *
    omega
  scaled := by
    have hscaled := FloatFormat.scaled_add (F := double) (v / (2 ^ 32 : ℕ)) (e - 1) 1
    rw [Nat.cast_one, sub_add_cancel, pow_one] at hscaled
    rw [h.scaled, hscaled]
    congr 1
    push_cast
    ring
  range := by
    have hlog : Nat.log 2 (2 * v) = Nat.log 2 v + 1 := by
      rw [Nat.mul_comm, Nat.log_mul_base Nat.one_lt_two h.pos.ne']
    have := h.range
    omega

/-- The normalisation loop. -/
theorem leads_da2 (h : DoubleNormalising c₀ neg q v c e) (hlt : c.r1.toNat < 2 ^ 20) :
    Leads daddCode P (.at .da2 c)
      (DoubleReturned P c₀ (double.signed neg (double.absPacked q))) := by
  refine .loop (fun v x => ∃ c e, x = .at .da2 c ∧ DoubleNormalising c₀ neg q v c e ∧
    c.r1.toNat < 2 ^ 20) (fun v => 2 ^ 86 - v) ?_ ⟨c, e, rfl, h, hlt⟩
  rintro v x ⟨c, e, rfl, h, hlt⟩
  have hdouble := h.doubled hlt
  have hpos := h.pos
  have hv := h.lt
  refine .block ?_
  dsimp [daddCode, Cpu.carry]
  refine .ite (fun hlo => .now (.inr ?_)) (fun hhi => .mono ?_ fun _ => .inl)
  · rw [shiftRight_beq_zero, decide_eq_true_eq] at hlo
    exact ⟨2 * v, by omega, _, _, rfl, hdouble _ _, hlo⟩
  · rw [shiftRight_beq_zero, decide_eq_true_eq, not_lt] at hhi
    refine (hdouble _ _).leads_da1 hhi ?_
    have hsig := h.significand
    have hr0 := c.r0.isLt
    have hr4 := c.r4.isLt
    unfold tripleNat at hsig
    omega

/-- The flags and `r5` have no part in it. -/
theorem congr (h : DoubleNormalising c₀ neg q v c e) (r5' : Word) (flags : Flags) :
    DoubleNormalising c₀ neg q v { c with r5 := r5', flags := flags } e :=
  { h with framed := h.framed }

/-- A positive number is normalised and packed. -/
theorem leads_daSmall (h : DoubleNormalising c₀ neg q v c e) (hlt : v < 2 ^ 85) :
    Leads daddCode P (.at .daSmall c)
      (DoubleReturned P c₀ (double.signed neg (double.absPacked q))) := by
  refine .block ?_
  dsimp [daddCode]
  refine .ite (fun hbig => ?_) (fun hsmall => .block ?_)
  · rw [shiftRight_beq_zero, Bool.not_eq_true', decide_eq_false_iff_not, not_lt] at hbig
    exact (h.congr _ _).leads_da1 hbig hlt
  rw [shiftRight_beq_zero, Bool.not_eq_true', decide_eq_false_iff_not, not_not] at hsmall
  have hda2 (r5' : Word) (flags : Flags) := (h.congr r5' flags).leads_da2 (P := P) hsmall
  dsimp [daddCode]
  refine .ite (fun hr0 => .block ?_) (fun hr0 => hda2 _ _)
  dsimp [daddCode]
  refine .ite (fun hr1 => hda2 _ _) (fun hr1 => .block ?_)
  dsimp [daddCode]
  refine .ite (fun hr4 => hda2 _ _) (fun hr4 => ?_)
  have hpos := h.pos
  rw [decide_eq_true_eq] at hr0
  rw [Bool.not_eq_true', decide_eq_false_iff_not, not_not] at hr1 hr4
  rw [h.significand, hr0, hr1, hr4] at hpos
  exact absurd hpos (by decide)

end DoubleNormalising

/-- Numbers of the same magnitude and opposite signs. -/
theorem leads_daSmall_zero (hc : Framed [r4, r5, r6, r7, lr] c₀ c₀.mem c) (hr0 : c.r0 = 0)
    (hr1 : c.r1 = 0) (hr4 : c.r4 = 0) :
    Leads daddCode P (.at .daSmall c) (DoubleReturned P c₀ 0) := by
  have hpattern : doublePattern c.r1 c.r0 = 0 := by rw [hr0, hr1]; rfl
  refine .block ?_
  dsimp [daddCode]
  refine .ite (fun hbig => ?_) (fun _ => .block ?_)
  · rw [shiftRight_beq_zero, hr1] at hbig
    exact absurd hbig (by decide)
  dsimp [daddCode]
  refine .ite (fun _ => .block ?_) (fun hne => absurd (decide_eq_true hr0) hne)
  dsimp [daddCode]
  refine .ite (fun hne => ?_) (fun _ => .block ?_)
  · rw [hr1] at hne
    exact absurd hne (by decide)
  dsimp [daddCode]
  refine .ite (fun hne => ?_) (fun _ => .block (.now ?_))
  · rw [hr4] at hne
    exact absurd hne (by decide)
  · exact doubleReturned_popPc hc hpattern

section Halves

variable {Q : Config DaddLabel → Prop}

theorem leads_daPack1_cases
    (hbig : 2 ^ 21 ≤ c.r1.toNat → ∀ flags, Leads daddCode P
      (.at .da0 { c with r2 := c.r12, r5 := c.r1 >>> 21, flags := flags }) Q)
    (hsmall : c.r1.toNat < 2 ^ 21 → ∀ flags, Leads daddCode P
      (.at .daSmall { c with r2 := c.r12, r5 := c.r1 >>> 21, flags := flags }) Q) :
    Leads daddCode P (.at .daPack1 c) Q := by
  refine .block ?_
  dsimp [daddCode]
  refine .ite (fun h => ?_) (fun h => ?_)
  · rw [shiftRight_beq_zero, Bool.not_eq_true', decide_eq_false_iff_not, not_lt] at h
    exact hbig h _
  · rw [shiftRight_beq_zero, Bool.not_eq_true', decide_eq_false_iff_not, not_not] at h
    exact hsmall h _

end Halves

/-- A number that is zero or positive is normalised and packed. -/
theorem leads_daPack1 (hc : Framed [r4, r5, r6, r7, lr] c₀ c₀.mem c)
    (hsign : c.r3.toNat = neg.toNat) (hexp : c.r12.toInt = e)
    (hrange : -2 ^ 28 ≤ e ∧ e ≤ 2 ^ 28) (hv : v = tripleNat c.r1 c.r0 c.r4) (hlt : v < 2 ^ 86) :
    Leads daddCode P (.at .daPack1 c) (DoubleReturned P c₀ (if v = 0 then 0 else
      double.signed neg (double.absPacked (double.scaled (v / (2 ^ 32 : ℕ)) e)))) := by
  have hr0 := c.r0.isLt
  have hr4 := c.r4.isLt
  have hv' : v = (c.r1.toNat * 2 ^ 32 + c.r0.toNat) * 2 ^ 32 + c.r4.toNat := hv
  have hnorm (hpos : 0 < v) (r5' : Word) (flags : Flags) : DoubleNormalising c₀ neg _ v
      { c with r2 := c.r12, r5 := r5', flags := flags } e := {
    framed := hc
    sign := hsign
    exp := hexp
    significand := hv
    pos := hpos
    lt := hlt
    scaled := rfl
    range := by omega }
  refine leads_daPack1_cases (fun hbig _ => ?_) (fun hsmall _ => ?_)
  · rw [if_neg (by omega)]
    exact (hnorm (by omega) _ _).leads_da0 hbig
  · by_cases hzero : v = 0
    · rw [if_pos hzero]
      refine leads_daSmall_zero hc (BitVec.eq_of_toNat_eq ?_) (BitVec.eq_of_toNat_eq ?_)
        (BitVec.eq_of_toNat_eq ?_) <;> change _ = 0 <;> dsimp only <;> omega
    · rw [if_neg hzero]
      exact (hnorm (by omega) _ _).leads_daSmall (by omega)

/-- The words of a negative number are complemented, and one is added to them. -/
theorem tripleNat_neg (hi lo low : Word) (h : 2 ^ 31 ≤ hi.toNat) :
    tripleNat
      (~~~hi + 0#32 + (BitVec.ofBool (Flags.ofAdc (~~~lo) 0#32
        (Flags.ofSub 0#32 low).c).c).setWidth 32)
      (~~~lo + 0#32 + (BitVec.ofBool (Flags.ofSub 0#32 low).c).setWidth 32) (-low) =
      2 ^ 96 - tripleNat hi lo low := by
  have hlo := lo.isLt
  have hhi := hi.isLt
  have hlow := low.isLt
  have hnot (x : Word) : (~~~x).toNat = 2 ^ 32 - 1 - x.toNat := BitVec.toNat_not
  have hneg : (-low).toNat = (2 ^ 32 - low.toNat) % 2 ^ 32 := BitVec.toNat_neg low
  have hk : (Flags.ofSub 0#32 low).c.toNat = if low.toNat = 0 then 1 else 0 := by
    change (decide (low.toNat ≤ 0)).toNat = _
    split_ifs with hzero
    · rw [decide_eq_true hzero.le, Bool.toNat_true]
    · rw [decide_eq_false (by omega), Bool.toNat_false]
  have hz : (0#32).toNat = 0 := rfl
  have h0 := toNat_ofAdc (~~~lo) 0#32 (Flags.ofSub 0#32 low).c
  have h1 := toNat_ofAdc (~~~hi) 0#32 (Flags.ofAdc (~~~lo) 0#32 (Flags.ofSub 0#32 low).c).c
  have hk1 := (Flags.ofAdc (~~~lo) 0#32 (Flags.ofSub 0#32 low).c).c.toNat_le
  rw [hnot, hz, hk] at h0
  rw [hnot, hz] at h1
  unfold tripleNat
  split_ifs at h0 <;> omega

section Halves

variable {Q : Config DaddLabel → Prop}

theorem leads_daPack_cases
    (hpos : c.r1.toNat < 2 ^ 31 → ∀ flags, Leads daddCode P
      (.at .daPack1 { c with r3 := c.r1 >>> 31, flags := flags }) Q)
    (hneg : 2 ^ 31 ≤ c.r1.toNat → ∀ flags, Leads daddCode P
      (.at .daPack1 { c with
        r0 := ~~~c.r0 + 0#32 + (BitVec.ofBool (Flags.ofSub 0#32 c.r4).c).setWidth 32
        r1 := ~~~c.r1 + 0#32 + (BitVec.ofBool (Flags.ofAdc (~~~c.r0) 0#32
          (Flags.ofSub 0#32 c.r4).c).c).setWidth 32
        r2 := 0
        r3 := c.r1 >>> 31
        r4 := -c.r4
        flags := flags }) Q) :
    Leads daddCode P (.at .daPack c) Q := by
  refine .block ?_
  dsimp [daddCode]
  refine .ite (fun h => ?_) (fun h => .block ?_)
  · rw [shiftRight_beq_zero, decide_eq_true_eq] at h
    exact hpos h _
  · rw [shiftRight_beq_zero, decide_eq_true_eq, not_lt] at h
    dsimp [daddCode, Cpu.carry]
    exact hneg h _

end Halves

/-- A sum with the bits below it is made positive. -/
theorem leads_daPack {V : ℤ} (hc : Framed [r4, r5, r6, r7, lr] c₀ c₀.mem c) (hexp : c.r12.toInt = e)
    (hrange : -2 ^ 28 ≤ e ∧ e ≤ 2 ^ 28) (hV : signedPair c.r1 c.r0 * 2 ^ 32 + c.r4.toNat = V)
    (hlt : V.natAbs < 2 ^ 86) :
    Leads daddCode P (.at .daPack c)
      (DoubleReturned P c₀ (double.packed (double.scaled (V / (2 ^ 32 : ℕ)) e))) := by
  have hr0 := c.r0.isLt
  have hr4 := c.r4.isLt
  have hsign := sign_cases c.r1
  unfold signedPair at hV
  have hresult : double.packed (double.scaled (V / (2 ^ 32 : ℕ)) e) = if V.natAbs = 0 then 0 else
      double.signed (decide (V < 0))
        (double.absPacked (double.scaled (V.natAbs / (2 ^ 32 : ℕ)) e)) := by
    split_ifs with hzero
    · rw [Int.natAbs_eq_zero.mp hzero, Int.cast_zero, zero_div, FloatFormat.scaled, zero_mul]
      rfl
    · exact FloatFormat.packed_scaled_div (fun h => hzero (Int.natAbs_eq_zero.mpr h))
        (Nat.two_pow_pos 32)
  rw [hresult]
  refine leads_daPack_cases (fun hpos _ => ?_) (fun hneg _ => ?_)
  · refine leads_daPack1 hc ?_ hexp hrange ?_ hlt
    · dsimp only
      rw [toNat_shiftRight, decide_eq_false (by omega), Nat.div_eq_of_lt hpos]
      rfl
    · unfold tripleNat
      dsimp only
      omega
  · refine leads_daPack1 hc ?_ hexp hrange ?_ hlt
    · dsimp only
      rw [toNat_shiftRight, decide_eq_true (by omega), Bool.toNat_true]
      omega
    · dsimp only
      rw [tripleNat_neg _ _ _ hneg]
      unfold tripleNat
      omega

/-- The sum of two signed numbers of two words. -/
theorem leads_daAdd {V : ℤ} (hc : Framed [r4, r5, r6, r7, lr] c₀ c₀.mem c) (hexp : c.r12.toInt = e)
    (hrange : -2 ^ 28 ≤ e ∧ e ≤ 2 ^ 28)
    (hV : (signedPair c.r1 c.r0 + signedPair c.r3 c.r2) * 2 ^ 32 + c.r4.toNat = V)
    (hlt : V.natAbs < 2 ^ 86) :
    Leads daddCode P (.at .daAdd c)
      (DoubleReturned P c₀ (double.packed (double.scaled (V / (2 ^ 32 : ℕ)) e))) := by
  have hr0 := c.r0.isLt
  have hr2 := c.r2.isLt
  have hr4 := c.r4.isLt
  have hk := (Flags.ofAdd c.r0 c.r2).c.toNat_le
  have hlow := toNat_ofAdd c.r0 c.r2
  have hcarry : ((BitVec.ofBool (Flags.ofAdd c.r0 c.r2).c).setWidth 32 : Word).toInt =
      (Flags.ofAdd c.r0 c.r2).c.toNat := by
    cases (Flags.ofAdd c.r0 c.r2).c <;> rfl
  unfold signedPair at hV
  have hhigh : (c.r1 + c.r3).toInt = c.r1.toInt + c.r3.toInt :=
    toInt_add_of_bounds (by omega) (by omega)
  have hhigh' : (c.r1 + c.r3 + (BitVec.ofBool (Flags.ofAdd c.r0 c.r2).c).setWidth 32).toInt =
      c.r1.toInt + c.r3.toInt + (Flags.ofAdd c.r0 c.r2).c.toNat := by
    rw [toInt_add_of_bounds (by omega) (by omega), hhigh, hcarry]
  refine .block ?_
  dsimp [daddCode, Cpu.carry]
  refine leads_daPack hc hexp hrange ?_ hlt
  dsimp only
  rw [signedPair, hhigh']
  omega

end Packing

/-! ## Alignment -/

section Aligning

variable {c₀ c : Cpu} {mx ex my ey : ℤ}

/-- The larger number is the result. -/
theorem leads_daXmgty {m e : ℤ} (hc : Framed [r4, r5, r6, r7, lr] c₀ c₀.mem c)
    (hm : signedPair c.r1 c.r0 = m) (hexp : c.r12.toInt = e) (hrange : -2 ^ 28 ≤ e ∧ e ≤ 2 ^ 28)
    (hlt : |m| < 2 ^ 53) :
    Leads daddCode P (.at .daXmgty c) (DoubleReturned P c₀ (double.packed (double.scaled m e))) := by
  obtain ⟨hlow, hhigh⟩ := abs_lt.mp hlt
  have hcast : ((m * 2 ^ 32 : ℤ) : ℚ) / (2 ^ 32 : ℕ) = m := by
    push_cast
    exact mul_div_cancel_right₀ _ (by norm_num)
  rw [← hcast]
  refine .block ?_
  dsimp [daddCode]
  refine leads_daPack hc hexp hrange ?_ (by omega)
  dsimp only
  rw [hm]
  exact add_zero _

/-- The sum of two significands of which one was shifted down by less than 32 places. -/
theorem leads_daAdd_aligned {m m' e : ℤ} {d : ℕ} (hd : d ≤ 32)
    (hc : Framed [r4, r5, r6, r7, lr] c₀ c₀.mem c) (hexp : c.r12.toInt = e)
    (hrange : -2 ^ 28 ≤ e ∧ e ≤ 2 ^ 28)
    (hsum : (signedPair c.r1 c.r0 + signedPair c.r3 c.r2) * 2 ^ 32 + c.r4.toNat =
      m * 2 ^ 32 + m' * 2 ^ (32 - d)) (hm : |m| < 2 ^ 53) (hm' : |m'| < 2 ^ 53) :
    Leads daddCode P (.at .daAdd c)
      (DoubleReturned P c₀ (double.packed (double.scaled m e + double.scaled m' (e - d)))) := by
  have hlt : |m' * 2 ^ (32 - d)| < 2 ^ 53 * 2 ^ 32 := by
    have hpos : (0 : ℤ) < 2 ^ (32 - d) := by positivity
    have hle : (2 : ℤ) ^ (32 - d) ≤ 2 ^ 32 := pow_le_pow_right₀ (by norm_num) (Nat.sub_le 32 d)
    rw [abs_mul, abs_of_pos hpos]
    exact (mul_lt_mul_of_pos_right hm' hpos).trans_le (mul_le_mul_of_nonneg_left hle (by norm_num))
  obtain ⟨hlow, hhigh⟩ := abs_lt.mp hm
  obtain ⟨hlow', hhigh'⟩ := abs_lt.mp hlt
  have hlead := leads_daAdd (P := P) hc hexp hrange hsum (by omega)
  have hscaled : double.scaled (((m * 2 ^ 32 + m' * 2 ^ (32 - d) : ℤ) : ℚ) / (2 ^ 32 : ℕ)) e =
      double.scaled m e + double.scaled m' (e - d) := by
    rw [← FloatFormat.scaled_aligned hd]
    push_cast
    rfl
  rwa [hscaled] at hlead

/-- The sum of two significands of which one was shifted down by 32 places and `k` more. -/
theorem leads_daAdd_far {m m' u e : ℤ} {k : ℕ}
    (hc : Framed [r4, r5, r6, r7, lr] c₀ c₀.mem c) (hexp : c.r12.toInt = e)
    (hrange : -2 ^ 28 ≤ e ∧ e ≤ 2 ^ 28)
    (hsum : (signedPair c.r1 c.r0 + signedPair c.r3 c.r2) * 2 ^ 32 + c.r4.toNat = m * 2 ^ 32 + u)
    (hu : ShiftedFar k m' u) (hm : 2 ^ 52 ≤ |m| ∧ |m| < 2 ^ 53) (hm' : |m'| < 2 ^ 53) :
    Leads daddCode P (.at .daAdd c) (DoubleReturned P c₀
      (double.packed (double.scaled m e + double.scaled m' (e - (32 + k : ℕ))))) := by
  have hdiv : |(m' : ℚ) / 2 ^ k| < 2 ^ 53 := by
    rw [abs_div, abs_of_pos (a := (2 : ℚ) ^ k) (by positivity)]
    refine (div_le_self (abs_nonneg _) (one_le_pow₀ one_le_two)).trans_lt ?_
    exact_mod_cast hm'
  have hu_lt : |u| < 2 ^ 53 + 1 := by
    have hsub := abs_sub_abs_le_abs_sub (u : ℚ) (m' / 2 ^ k)
    have hnear := hu.near
    rw [abs_sub_comm] at hnear
    have hlt : |(u : ℚ)| < 2 ^ 53 + 1 := by linarith
    exact_mod_cast hlt
  -- the sum with the exact number below it, and with the one that was kept
  have hexact : double.scaled m e + double.scaled m' (e - (32 + k : ℕ)) =
      double.scaled (m * 2 ^ 32 + m' / 2 ^ k) (e - 32) := by
    have hup := FloatFormat.scaled_add (F := double) (m : ℚ) (e - 32) 32
    have hdown := FloatFormat.scaled_add (F := double) ((m' : ℚ) / 2 ^ k) (e - (32 + k : ℕ)) k
    rw [div_mul_cancel₀ _ (by positivity)] at hdown
    rw [Nat.cast_ofNat, sub_add_cancel] at hup
    rw [hup, ← hdown, show e - (32 + k : ℕ) + k = e - 32 by push_cast; ring]
    exact (add_mul _ _ _).symm
  have hkept : double.scaled (((m * 2 ^ 32 + u : ℤ) : ℚ) / (2 ^ 32 : ℕ)) e =
      double.scaled (m * 2 ^ 32 + u : ℤ) (e - 32) := by
    have hup := FloatFormat.scaled_add (F := double)
      (((m * 2 ^ 32 + u : ℤ) : ℚ) / (2 ^ 32 : ℕ)) (e - 32) 32
    rw [Nat.cast_ofNat, sub_add_cancel] at hup
    rw [hup]
    congr 1
    push_cast
    exact div_mul_cancel₀ _ (by norm_num)
  have hpacked : double.packed (double.scaled (m * 2 ^ 32 + m' / 2 ^ k) (e - 32)) =
      double.packed (double.scaled (m * 2 ^ 32 + u : ℤ) (e - 32)) := by
    rcases hu.odd_or with hodd | heq
    · have hsub : ((m : ℚ) * 2 ^ 32 + m' / 2 ^ k) - (m * 2 ^ 32 + u : ℤ) = m' / 2 ^ k - u := by
        push_cast
        ring
      refine FloatFormat.packed_sticky (by omega) (hsub ▸ hu.near) ?_
      change 2 ^ 54 ≤ |m * 2 ^ 32 + u|
      obtain ⟨h₁, h₂⟩ := abs_lt.mp hu_lt
      rcases abs_cases m with ⟨h, -⟩ | ⟨h, -⟩
      · exact le_abs.mpr (.inl (by omega))
      · exact le_abs.mpr (.inr (by omega))
    · rw [heq]
      push_cast
      rfl
  have hlead := leads_daAdd (P := P) hc hexp hrange hsum (by
    obtain ⟨h₁, h₂⟩ := abs_lt.mp hm.2
    obtain ⟨h₃, h₄⟩ := abs_lt.mp hu_lt
    omega)
  rwa [hkept, ← hpacked, ← hexact] at hlead

section Shifts

variable {Q : Config DaddLabel → Prop}

theorem leads_daXgty0
    (h : ∀ flags, Leads daddCode P (.at .daAdd { c with
      r2 := c.r2 >>> (c.r6.toNat % 256) ||| c.r3 <<< (c.r7.toNat % 256)
      r3 := c.r3.sshiftRight (c.r6.toNat % 256)
      r5 := c.r3 <<< (c.r7.toNat % 256)
      flags := flags }) Q) :
    Leads daddCode P (.at .daXgty0 c) Q := by
  refine .block ?_
  dsimp [daddCode]
  exact h _

theorem leads_daYgtx0
    (h : ∀ flags, Leads daddCode P (.at .daAdd { c with
      r0 := c.r0 >>> (c.r7.toNat % 256) ||| c.r1 <<< (c.r6.toNat % 256)
      r1 := c.r1.sshiftRight (c.r7.toNat % 256)
      r5 := c.r1 <<< (c.r6.toNat % 256)
      flags := flags }) Q) :
    Leads daddCode P (.at .daYgtx0 c) Q := by
  refine .block ?_
  dsimp [daddCode]
  exact h _

theorem leads_daAlignY
    (h : ∀ flags, Leads daddCode P (.at .daXgty0 { c with
      r4 := c.r2 <<< ((c.r7 + 32).toNat % 256), r7 := c.r7 + 32, flags := flags }) Q) :
    Leads daddCode P (.at .daAlignY c) Q := by
  refine .block ?_
  dsimp [daddCode]
  exact h _

theorem leads_daAlignX
    (h : ∀ flags, Leads daddCode P (.at .daYgtx0 { c with
      r4 := c.r0 <<< ((c.r6 + 32).toNat % 256), r6 := c.r6 + 32, flags := flags }) Q) :
    Leads daddCode P (.at .daAlignX c) Q := by
  refine .block ?_
  dsimp [daddCode]
  exact h _

theorem leads_daFarY1
    (h : ∀ flags, Leads daddCode P (.at .daXgty0 { c with
      r2 := c.r3
      r3 := c.r3.sshiftRight 31
      r4 := c.r4 ||| c.r2 >>> (c.r6.toNat % 256) ||| c.r3 <<< (c.r7.toNat % 256)
      flags := flags }) Q) :
    Leads daddCode P (.at .daFarY1 c) Q := by
  refine .block ?_
  dsimp [daddCode]
  exact h _

theorem leads_daFarX1
    (h : ∀ flags, Leads daddCode P (.at .daYgtx0 { c with
      r0 := c.r1
      r1 := c.r1.sshiftRight 31
      r4 := c.r4 ||| c.r0 >>> (c.r7.toNat % 256) ||| c.r1 <<< (c.r6.toNat % 256)
      flags := flags }) Q) :
    Leads daddCode P (.at .daFarX1 c) Q := by
  refine .block ?_
  dsimp [daddCode]
  exact h _

theorem leads_daFarY
    (h : ∀ flags, Leads daddCode P (.at .daXgty0 { c with
      r2 := c.r3
      r3 := c.r3.sshiftRight 31
      r4 := (if c.r2 <<< ((c.r7 + 64#32).toNat % 256) = 0#32 then 0 else 1) |||
        c.r2 >>> ((c.r6 - 32#32).toNat % 256) ||| c.r3 <<< ((c.r7 + 64#32).toNat % 256)
      r6 := c.r6 - 32#32
      r7 := c.r7 + 64#32
      flags := flags }) Q) :
    Leads daddCode P (.at .daFarY c) Q := by
  refine .block ?_
  dsimp [daddCode, -BitVec.toNat_add]
  refine .ite (fun hzero => leads_daFarY1 fun _ => ?_)
    (fun hne => .block (leads_daFarY1 fun _ => ?_))
  · have hzero : c.r2 <<< ((c.r7 + 64#32).toNat % 256) = 0#32 := beq_iff_eq.mp hzero
    rw [if_pos hzero] at h
    dsimp only
    rw [hzero]
    exact h _
  · have hne : ¬c.r2 <<< ((c.r7 + 64#32).toNat % 256) = 0#32 := mt beq_iff_eq.mpr hne
    rw [if_neg hne] at h
    exact h _

theorem leads_daFarX
    (h : ∀ flags, Leads daddCode P (.at .daYgtx0 { c with
      r0 := c.r1
      r1 := c.r1.sshiftRight 31
      r4 := (if c.r0 <<< ((c.r6 + 64#32).toNat % 256) = 0#32 then 0 else 1) |||
        c.r0 >>> ((c.r7 - 32#32).toNat % 256) ||| c.r1 <<< ((c.r6 + 64#32).toNat % 256)
      r6 := c.r6 + 64#32
      r7 := c.r7 - 32#32
      flags := flags }) Q) :
    Leads daddCode P (.at .daFarX c) Q := by
  refine .block ?_
  dsimp [daddCode, -BitVec.toNat_add]
  refine .ite (fun hzero => leads_daFarX1 fun _ => ?_)
    (fun hne => .block (leads_daFarX1 fun _ => ?_))
  · have hzero : c.r0 <<< ((c.r6 + 64#32).toNat % 256) = 0#32 := beq_iff_eq.mp hzero
    rw [if_pos hzero] at h
    dsimp only
    rw [hzero]
    exact h _
  · have hne : ¬c.r0 <<< ((c.r6 + 64#32).toNat % 256) = 0#32 := mt beq_iff_eq.mpr hne
    rw [if_neg hne] at h
    exact h _

end Shifts

/-- The state with both patterns taken apart. -/
structure DoubleUnpacked (c₀ : Cpu) (mx ex my ey : ℤ) (c : Cpu) : Prop where
  framed : Framed [r4, r5, r6, r7, lr] c₀ c₀.mem c
  x : signedPair c.r1 c.r0 = mx
  y : signedPair c.r3 c.r2 = my
  expX : c.r4.toInt = ex
  expY : c.r5.toInt = ey
  rangeX : -2 ^ 27 ≤ ex ∧ ex ≤ 2 ^ 27
  rangeY : -2 ^ 27 ≤ ey ∧ ey ≤ 2 ^ 27
  sigX : 2 ^ 52 ≤ |mx| ∧ |mx| < 2 ^ 53
  sigY : 2 ^ 52 ≤ |my| ∧ |my| < 2 ^ 53

/-- The difference of the exponents decides how the second number is shifted. -/
theorem leads_daXgty_cases {Q : Config DaddLabel → Prop}
    (hnear : c.r6.toInt < 32 → ∀ flags, Leads daddCode P
      (.at .daAlignY { c with r12 := c.r4, flags := flags }) Q)
    (hrather : 32 ≤ c.r6.toInt → c.r6.toInt < 60 → ∀ flags, Leads daddCode P
      (.at .daFarY { c with r12 := c.r4, flags := flags }) Q)
    (hmuch : 60 ≤ c.r6.toInt → ∀ flags, Leads daddCode P
      (.at .daXmgty { c with r12 := c.r4, flags := flags }) Q) :
    Leads daddCode P (.at .daXgty c) Q := by
  have h32 : (32#32).toInt = 32 := rfl
  have h60 : (60#32).toInt = 60 := rfl
  refine .block ?_
  dsimp [daddCode]
  refine .ite (fun h => .block ?_) (fun h => ?_)
  · rw [Cond.holds_ge_ofSub, h32, decide_eq_true_eq] at h
    dsimp [daddCode]
    refine .ite (fun h' => ?_) (fun h' => ?_)
    · rw [Cond.holds_ge_ofSub, h60, decide_eq_true_eq] at h'
      exact hmuch h' _
    · rw [Cond.holds_ge_ofSub, h60, decide_eq_true_eq, not_le] at h'
      exact hrather h h' _
  · rw [Cond.holds_ge_ofSub, h32, decide_eq_true_eq, not_le] at h
    exact hnear h _

/-- The difference of the exponents decides how the first number is shifted. -/
theorem leads_daYgtx_cases {Q : Config DaddLabel → Prop}
    (hnear : c.r7.toInt < 32 → ∀ flags, Leads daddCode P
      (.at .daAlignX { c with r12 := c.r5, flags := flags }) Q)
    (hrather : 32 ≤ c.r7.toInt → c.r7.toInt < 60 → ∀ flags, Leads daddCode P
      (.at .daFarX { c with r12 := c.r5, flags := flags }) Q)
    (hmuch : 60 ≤ c.r7.toInt → ∀ flags, Leads daddCode P
      (.at .daXmgty { c with r0 := c.r2, r1 := c.r3, r12 := c.r5, flags := flags }) Q) :
    Leads daddCode P (.at .daYgtx c) Q := by
  have h32 : (32#32).toInt = 32 := rfl
  have h60 : (60#32).toInt = 60 := rfl
  refine .block ?_
  dsimp [daddCode]
  refine .ite (fun h => .block ?_) (fun h => ?_)
  · rw [Cond.holds_ge_ofSub, h32, decide_eq_true_eq] at h
    dsimp [daddCode]
    refine .ite (fun h' => .block ?_) (fun h' => ?_)
    · rw [Cond.holds_ge_ofSub, h60, decide_eq_true_eq] at h'
      dsimp [daddCode]
      exact hmuch h' _
    · rw [Cond.holds_ge_ofSub, h60, decide_eq_true_eq, not_le] at h'
      exact hrather h h' _
  · rw [Cond.holds_ge_ofSub, h32, decide_eq_true_eq, not_le] at h
    exact hnear h _

/-- The places of the shifts, where `x` is the difference of the exponents and `x'` its negative. -/
theorem far_places {x x' : Word} {k : ℕ} (hx : x.toInt = 32 + k) (hx' : x'.toInt = -(32 + k))
    (hk : k < 32) : (x - 32#32).toNat % 256 = k ∧ (x' + 64#32).toNat % 256 = 32 - k := by
  have h32 : (32#32).toInt = 32 := rfl
  have h64 : (64#32).toInt = 64 := rfl
  refine ⟨toNat_places ?_ (by omega), toNat_places ?_ (by omega)⟩
  · rw [toInt_sub_of_bounds (by omega) (by omega)]
    omega
  · rw [toInt_add_of_bounds (by omega) (by omega)]
    omega

namespace DoubleUnpacked

theorem leads_daXgty (h : DoubleUnpacked c₀ mx ex my ey c) (hr7 : c.r7 = c.r5 - c.r4)
    (hr6 : c.r6 = c.r4 - c.r5) (hle : ey ≤ ex) :
    Leads daddCode P (.at .daXgty c) (DoubleReturned P c₀ (double.added 60 mx ex my ey)) := by
  have hex := h.expX
  have hey := h.expY
  have hrx := h.rangeX
  have hry := h.rangeY
  have hd : c.r6.toInt = ex - ey := by
    rw [hr6, toInt_sub_of_bounds (by omega) (by omega), hex, hey]
  have hd' : c.r7.toInt = ey - ex := by
    rw [hr7, toInt_sub_of_bounds (by omega) (by omega), hex, hey]
  obtain ⟨d, hsub⟩ := Int.le.dest hle
  have hexp : ey = ex - d := by omega
  unfold FloatFormat.added
  refine leads_daXgty_cases (fun hnear _ => ?_) (fun hrather hnot _ => ?_) (fun hmuch _ => ?_)
  · obtain ⟨hp, hp'⟩ := near_places (show c.r6.toInt = d by omega)
      (show c.r7.toInt = -d by omega) (by omega)
    rw [if_neg (by push_cast; omega), if_neg (by push_cast; omega), hexp]
    refine leads_daAlignY fun _ => leads_daXgty0 fun _ => ?_
    refine leads_daAdd_aligned (by omega) h.framed hex (by omega) ?_ h.sigX.2 h.sigY.2
    have hshift := signedPair_shifted c.r3 c.r2 (d := d) (by omega)
    rw [h.y] at hshift
    dsimp only
    rw [hp, hp', h.x, add_mul, add_assoc, hshift]
  · obtain ⟨k, rfl⟩ := Nat.exists_eq_add_of_le (show 32 ≤ d by omega)
    obtain ⟨hp, hp'⟩ := far_places (show c.r6.toInt = 32 + k by omega)
      (show c.r7.toInt = -(32 + k) by omega) (by omega)
    rw [if_neg (by push_cast; omega), if_neg (by push_cast; omega), hexp]
    refine leads_daFarY fun _ => leads_daXgty0 fun _ => ?_
    have hfar := shiftedFar c.r3 c.r2 (k := k) (by omega)
    rw [h.y] at hfar
    refine leads_daAdd_far h.framed hex (by omega) ?_ hfar h.sigX h.sigY.2
    dsimp only
    rw [hp, hp', h.x, add_mul, add_assoc]
    rfl
  · rw [if_pos (by push_cast; omega)]
    exact leads_daXmgty h.framed h.x hex (by omega) h.sigX.2

theorem leads_daYgtx (h : DoubleUnpacked c₀ mx ex my ey c) (hr7 : c.r7 = c.r5 - c.r4)
    (hr6 : c.r6 = c.r4 - c.r5) (hlt : ex < ey) :
    Leads daddCode P (.at .daYgtx c) (DoubleReturned P c₀ (double.added 60 mx ex my ey)) := by
  have hex := h.expX
  have hey := h.expY
  have hrx := h.rangeX
  have hry := h.rangeY
  have hd : c.r6.toInt = ex - ey := by
    rw [hr6, toInt_sub_of_bounds (by omega) (by omega), hex, hey]
  have hd' : c.r7.toInt = ey - ex := by
    rw [hr7, toInt_sub_of_bounds (by omega) (by omega), hex, hey]
  obtain ⟨d, hsub⟩ := Int.le.dest hlt.le
  have hexp : ex = ey - d := by omega
  unfold FloatFormat.added
  rw [if_neg (by push_cast; omega)]
  refine leads_daYgtx_cases (fun hnear _ => ?_) (fun hrather hnot _ => ?_) (fun hmuch _ => ?_)
  · obtain ⟨hp, hp'⟩ := near_places (show c.r7.toInt = d by omega)
      (show c.r6.toInt = -d by omega) (by omega)
    rw [if_neg (by push_cast; omega), hexp, add_comm]
    refine leads_daAlignX fun _ => leads_daYgtx0 fun _ => ?_
    refine leads_daAdd_aligned (by omega) h.framed hey (by omega) ?_ h.sigY.2 h.sigX.2
    have hshift := signedPair_shifted c.r1 c.r0 (d := d) (by omega)
    rw [h.x] at hshift
    dsimp only
    rw [hp, hp', h.y, add_comm (signedPair _ _), add_mul, add_assoc, hshift]
  · obtain ⟨k, rfl⟩ := Nat.exists_eq_add_of_le (show 32 ≤ d by omega)
    obtain ⟨hp, hp'⟩ := far_places (show c.r7.toInt = 32 + k by omega)
      (show c.r6.toInt = -(32 + k) by omega) (by omega)
    rw [if_neg (by push_cast; omega), hexp, add_comm]
    refine leads_daFarX fun _ => leads_daYgtx0 fun _ => ?_
    have hfar := shiftedFar c.r1 c.r0 (k := k) (by omega)
    rw [h.x] at hfar
    refine leads_daAdd_far h.framed hey (by omega) ?_ hfar h.sigY h.sigX.2
    dsimp only
    rw [hp, hp', h.y, add_comm (signedPair _ _), add_mul, add_assoc]
    rfl
  · rw [if_pos (by push_cast; omega)]
    exact leads_daXmgty h.framed h.y hey (by omega) h.sigY.2

end DoubleUnpacked

end Aligning

/-! ## Patterns -/

/-- A zero or an infinity. -/
def Special (hi lo : Word) : Prop :=
  double.expField (doublePattern hi lo) = 0 ∨ double.expField (doublePattern hi lo) = 2047

instance (hi lo : Word) : Decidable (Special hi lo) :=
  inferInstanceAs (Decidable (_ ∨ _))

/-- The significand without its sign. -/
def doubleMagnitude (hi lo : Word) : ℕ :=
  if Special hi lo then 2 ^ 52 else double.significand (doublePattern hi lo)

/-- The significand of a pattern, with its sign. -/
def doubleSig (hi lo : Word) : ℤ :=
  if hi.msb then -doubleMagnitude hi lo else doubleMagnitude hi lo

/-- The exponent of a pattern, which is far from those of numbers for a zero or an infinity. -/
def doubleExp (hi lo : Word) : ℤ :=
  if double.expField (doublePattern hi lo) = 0 then -128 * 2 ^ 12
  else if double.expField (doublePattern hi lo) = 2047 then (2047 - hi.msb.toNat - 128) * 2 ^ 12
  else double.expField (doublePattern hi lo)

theorem isNeg_double (hi lo : Word) : double.isNeg (doublePattern hi lo) = hi.msb := by
  have hlo := lo.isLt
  rw [BitVec.msb_eq_decide, FloatFormat.isNeg, Nat.testBit_eq_decide_div_mod_eq]
  change decide ((hi.toNat * 2 ^ 32 + lo.toNat) / 2 ^ 63 % 2 = 1) = _
  rw [decide_eq_decide]
  have hhi := hi.isLt
  omega

theorem significand_double (hi lo : Word) :
    double.significand (doublePattern hi lo) =
      (2 ^ 20 + hi.toNat % 2 ^ 20) * 2 ^ 32 + lo.toNat := by
  have hlo := lo.isLt
  change 2 ^ 52 + (hi.toNat * 2 ^ 32 + lo.toNat) % 2 ^ 52 = _
  omega

theorem doubleMagnitude_bounds (hi lo : Word) :
    2 ^ 52 ≤ doubleMagnitude hi lo ∧ doubleMagnitude hi lo < 2 ^ 53 := by
  have hlo := lo.isLt
  have hsig := significand_double hi lo
  unfold doubleMagnitude
  split_ifs <;> omega

theorem abs_doubleSig (hi lo : Word) : |doubleSig hi lo| = doubleMagnitude hi lo := by
  unfold doubleSig
  split_ifs
  · rw [abs_neg, Nat.abs_cast]
  · rw [Nat.abs_cast]

theorem doubleExp_range (hi lo : Word) :
    -2 ^ 27 ≤ doubleExp hi lo ∧ doubleExp hi lo ≤ 2 ^ 27 := by
  have hle : double.expField (doublePattern hi lo) ≤ 2047 := FloatFormat.expField_le
  have hneg : hi.msb.toNat ≤ 1 := hi.msb.toNat_le
  unfold doubleExp
  split_ifs <;> omega

theorem unpacks_double (hi lo : Word) :
    double.Unpacks 60 (doublePattern hi lo) (doubleSig hi lo) (doubleExp hi lo) := by
  have hneg : hi.msb.toNat ≤ 1 := hi.msb.toNat_le
  have hbounds := doubleMagnitude_bounds hi lo
  have hmax : double.maxExp = 2047 := rfl
  exact {
    low := by
      rw [abs_doubleSig]
      exact_mod_cast hbounds.1
    high := by
      rw [abs_doubleSig]
      exact_mod_cast hbounds.2
    neg_iff := by
      rw [isNeg_double]
      unfold doubleSig
      cases hi.msb
      · rw [if_neg Bool.false_ne_true]
        exact iff_of_false (by omega) Bool.false_ne_true
      · rw [if_pos rfl]
        exact iff_of_true (by omega) rfl
    zero := fun h => by
      rw [doubleExp, if_pos h]
      decide
    infinite := fun h => by
      rw [hmax] at h ⊢
      rw [doubleExp, if_neg (by omega), if_pos h]
      push_cast
      omega
    normal := fun h h' => by
      rw [hmax] at h'
      have hspecial : ¬Special hi lo := not_or.mpr ⟨h, h'⟩
      rw [doubleExp, if_neg h, if_neg h', abs_doubleSig, doubleMagnitude, if_neg hspecial]
      exact ⟨rfl, rfl⟩ }

/-! ### The macro that takes a pattern apart -/

/-- The sign and the exponent are cleared, and the implied one is put in their place. -/
theorem toNat_implied_double (hi : Word) :
    (hi - (hi >>> 20 - 1#32) <<< 20).toNat = 2 ^ 20 + hi.toNat % 2 ^ 20 := by
  have hhi := hi.isLt
  have hone : (1#32).toNat = 1 := rfl
  rw [BitVec.toNat_sub, BitVec.toNat_shiftLeft, BitVec.toNat_sub, toNat_shiftRight, Nat.shiftLeft_eq,
    hone]
  omega

/-- The sign is the bit that is shifted out of the exponent. -/
theorem getLsbD_sign (hi : Word) : (hi >>> 20).getLsbD 11 = hi.msb := by
  rw [BitVec.getLsbD_ushiftRight, BitVec.msb_eq_getLsbD_last]

theorem toNat_exponent (hi lo : Word) :
    (hi >>> 20 <<< 21 >>> 21).toNat = double.expField (doublePattern hi lo) := by
  have hhi := hi.isLt
  have hlo := lo.isLt
  rw [toNat_shiftRight, BitVec.toNat_shiftLeft, Nat.shiftLeft_eq, toNat_shiftRight]
  change _ = (hi.toNat * 2 ^ 32 + lo.toNat) / 2 ^ 52 % 2 ^ 11
  omega

/-- The significand before its sign is looked at. -/
theorem signedPair_implied (hi lo : Word) :
    signedPair (hi - (hi >>> 20 - 1#32) <<< 20) lo = double.significand (doublePattern hi lo) := by
  have himplied := toNat_implied_double hi
  rw [signedPair, significand_double, ← himplied]
  rcases sign_cases (hi - (hi >>> 20 - 1#32) <<< 20) with ⟨-, h, -⟩ | ⟨h, -, -⟩
  · rw [h]
    push_cast
    rfl
  · omega

/-- A significand of two words is negated. -/
theorem signedPair_neg {hi lo : Word} {n : ℕ} (h : signedPair hi lo = n) (hn : n < 2 ^ 53)
    (hpos : 0 < n) : (lo.toNat ≠ 0 → signedPair (~~~hi) (-lo) = -n) ∧
      (lo.toNat = 0 → signedPair (~~~hi + 1#32) (-lo) = -n) := by
  have hhi := hi.isLt
  have hlo := lo.isLt
  have hnot : (~~~hi).toNat = 2 ^ 32 - 1 - hi.toNat := BitVec.toNat_not
  have hinc : (~~~hi + 1#32).toNat = ((~~~hi).toNat + 1) % 2 ^ 32 := BitVec.toNat_add ..
  have hneg : (-lo).toNat = (2 ^ 32 - lo.toNat) % 2 ^ 32 := BitVec.toNat_neg lo
  unfold signedPair at h ⊢
  rcases sign_cases hi with ⟨-, hint, -⟩ | ⟨-, hint, -⟩
  · constructor <;> intro hz
    · rcases sign_cases (~~~hi) with ⟨hr, hint', -⟩ | ⟨hr, hint', -⟩ <;> omega
    · rcases sign_cases (~~~hi + 1#32) with ⟨hr, hint', -⟩ | ⟨hr, hint', -⟩ <;> omega
  · omega

/-- A word that is zero or one, according to the sign. -/
theorem shiftRight_31 (x : Word) : x >>> 31 = if x.msb then 1#32 else 0#32 := by
  have hx := x.isLt
  refine BitVec.eq_of_toNat_eq ?_
  rw [toNat_shiftRight]
  rcases sign_cases x with ⟨h, -, hmsb⟩ | ⟨h, -, hmsb⟩ <;> rw [hmsb]
  · exact Nat.div_eq_of_lt h
  · change _ = 1
    omega

/-- The value of a shift to the left of a literal. -/
theorem shiftLeft_eq_of_toNat {x y : Word} {k : ℕ} (h : x.toNat * 2 ^ k % 2 ^ 32 = y.toNat) :
    x <<< k = y := by
  refine BitVec.eq_of_toNat_eq ?_
  rw [BitVec.toNat_shiftLeft, Nat.shiftLeft_eq, h]

/-- The significand of a zero or an infinity. -/
theorem signedPair_special (hi : Word) :
    signedPair ((((hi >>> 31) <<< 1 + 1#32) <<< 30).sshiftRight 10) 0#32 =
      if hi.msb then -2 ^ 52 else 2 ^ 52 := by
  rw [signedPair, BitVec.toInt_sshiftRight, shiftRight_31]
  cases hi.msb
  · have h₁ : (0#32 : Word) <<< 1 = 0#32 := shiftLeft_eq_of_toNat rfl
    have h₂ : (0#32 + 1#32 : Word) <<< 30 = 0x40000000#32 := shiftLeft_eq_of_toNat rfl
    rw [if_neg Bool.false_ne_true, if_neg Bool.false_ne_true, h₁, h₂]
    rfl
  · have h₁ : (1#32 : Word) <<< 1 = 2#32 := shiftLeft_eq_of_toNat rfl
    have h₂ : (2#32 + 1#32 : Word) <<< 30 = 0xc0000000#32 := shiftLeft_eq_of_toNat rfl
    rw [if_pos rfl, if_pos rfl, h₁, h₂]
    rfl

/-- The exponent of a zero, of an infinity and of a number. -/
theorem toInt_doubleExp_zero {hi : Word} (lo : Word) (h : hi >>> 20 <<< 21 >>> 21 = 0#32) :
    ((hi >>> 20 <<< 21 >>> 21 - 128#32) <<< 12).toInt = doubleExp hi lo := by
  have hexp : double.expField (doublePattern hi lo) = 0 := by rw [← toNat_exponent, h]; rfl
  have hshift : (0#32 - 128#32 : Word) <<< 12 = 0xfff80000#32 := shiftLeft_eq_of_toNat rfl
  rw [h, hshift, doubleExp, if_pos hexp]
  rfl

theorem toInt_doubleExp_inf {hi : Word} (lo : Word) (h : hi >>> 20 <<< 21 >>> 21 = 2047#32) :
    ((hi >>> 20 <<< 21 >>> 21 - hi >>> 31 - 128#32) <<< 12).toInt = doubleExp hi lo := by
  have hexp : double.expField (doublePattern hi lo) = 2047 := by rw [← toNat_exponent, h]; rfl
  have hne : ¬double.expField (doublePattern hi lo) = 0 := by omega
  rw [h, shiftRight_31, doubleExp, if_neg hne, if_pos hexp]
  cases hi.msb
  · have hshift : (2047#32 - 0#32 - 128#32 : Word) <<< 12 = 0x77f000#32 := shiftLeft_eq_of_toNat rfl
    rw [if_neg Bool.false_ne_true, hshift]
    rfl
  · have hshift : (2047#32 - 1#32 - 128#32 : Word) <<< 12 = 0x77e000#32 := shiftLeft_eq_of_toNat rfl
    rw [if_pos rfl, hshift]
    rfl

theorem toInt_doubleExp {hi : Word} (lo : Word) (h : hi >>> 20 <<< 21 >>> 21 ≠ 0#32)
    (h' : hi >>> 20 <<< 21 >>> 21 ≠ 2047#32) :
    (hi >>> 20 <<< 21 >>> 21).toInt = doubleExp hi lo := by
  have hexp := toNat_exponent hi lo
  have hle : double.expField (doublePattern hi lo) ≤ 2047 := FloatFormat.expField_le
  have hzero : double.expField (doublePattern hi lo) ≠ 0 :=
    fun hz => h (BitVec.eq_of_toNat_eq (hexp.trans hz))
  have hinf : double.expField (doublePattern hi lo) ≠ 2047 :=
    fun hz => h' (BitVec.eq_of_toNat_eq (hexp.trans hz))
  rw [doubleExp, if_neg hzero, if_neg hinf]
  rcases sign_cases (hi >>> 20 <<< 21 >>> 21) with ⟨-, hint, -⟩ | ⟨hbig, -, -⟩ <;> omega

section Unpacking

variable {c₀ c : Cpu} {mx ex my ey : ℤ} {Q : Config DaddLabel → Prop}

theorem doubleSig_special {hi lo : Word} (h : Special hi lo) :
    doubleSig hi lo = if hi.msb then -2 ^ 52 else 2 ^ 52 := by
  rw [doubleSig, doubleMagnitude, if_pos h]
  push_cast
  rfl

theorem doubleSig_normal {hi lo : Word} (h : ¬Special hi lo) :
    doubleSig hi lo = if hi.msb then -(double.significand (doublePattern hi lo) : ℤ)
      else double.significand (doublePattern hi lo) := by
  rw [doubleSig, doubleMagnitude, if_neg h]

/-- The exponent is tested for all ones by adding one. -/
theorem exponent_add_one (x : Word) :
    (x <<< 21 >>> 21 + 1#32) >>> 11 = 0#32 ↔ x <<< 21 >>> 21 ≠ 2047#32 := by
  have hlt : (x <<< 21 >>> 21).toNat < 2 ^ 11 := by
    have hx := (x <<< 21).isLt
    rw [toNat_shiftRight]
    omega
  generalize x <<< 21 >>> 21 = e at hlt
  have hadd : (e + 1#32).toNat = e.toNat + 1 := by
    have hone : (1#32).toNat = 1 := rfl
    rw [BitVec.toNat_add, hone]
    omega
  rw [ne_eq, BitVec.toNat_eq, BitVec.toNat_eq, toNat_shiftRight, hadd]
  change _ = 0 ↔ ¬e.toNat = 2047
  omega

theorem significand_lt (hi lo : Word) : 0 < double.significand (doublePattern hi lo) ∧
    double.significand (doublePattern hi lo) < 2 ^ 53 := by
  have hlo := lo.isLt
  rw [significand_double]
  omega

/-- The carry of the shift that takes the exponent out is the sign. -/
theorem carryLeft_sign (f : Flags) (hi : Word) : carryLeft f (hi >>> 20) 21 = hi.msb :=
  getLsbD_sign hi

/-- A word borrows from zero unless it is zero. -/
theorem borrow_zero (x : Word) : (!decide (x ≤ 0#32)) = true ↔ x.toNat ≠ 0 := by
  rw [Bool.not_eq_true', decide_eq_false_iff_not, BitVec.le_def]
  exact not_congr Nat.le_zero

/-- The end of the macro for a zero or an infinity, and for the first argument. -/
theorem leads_daX2 {hi lo : Word} (hr7 : c.r7 = hi >>> 31) (hspecial : Special hi lo)
    (hexp : ((c.r4 - 128#32) <<< 12).toInt = doubleExp hi lo)
    (h : ∀ r0' r1' r4' r6' r7' flags, signedPair r1' r0' = doubleSig hi lo →
      r4'.toInt = doubleExp hi lo → Leads daddCode P (.at .daX3 { c with
        r0 := r0', r1 := r1', r4 := r4', r6 := r6', r7 := r7', flags := flags }) Q) :
    Leads daddCode P (.at .daX2 c) Q := by
  refine .block ?_
  dsimp [daddCode]
  refine h _ _ _ _ _ _ ?_ hexp
  rw [hr7, signedPair_special, doubleSig_special hspecial]

/-- The exponent of the first argument. -/
theorem leads_daX1 {hi lo : Word} (hr4 : c.r4 = hi >>> 20 <<< 21) (hr7 : c.r7 = hi >>> 31)
    (hsig : signedPair c.r1 c.r0 = if hi.msb then -(double.significand (doublePattern hi lo) : ℤ)
      else double.significand (doublePattern hi lo))
    (h : ∀ r0' r1' r4' r6' r7' flags, signedPair r1' r0' = doubleSig hi lo →
      r4'.toInt = doubleExp hi lo → Leads daddCode P (.at .daX3 { c with
        r0 := r0', r1 := r1', r4 := r4', r6 := r6', r7 := r7', flags := flags }) Q) :
    Leads daddCode P (.at .daX1 c) Q := by
  have hfield := toNat_exponent hi lo
  refine .block ?_
  dsimp [daddCode]
  rw [hr4]
  refine .ite (fun hzero => ?_) (fun hzero => .block ?_)
  · rw [beq_iff_eq] at hzero
    refine leads_daX2 hr7 (.inl ?_) (toInt_doubleExp_zero lo hzero) h
    rw [← hfield, hzero]
    rfl
  · rw [beq_iff_eq] at hzero
    dsimp [daddCode]
    refine .ite (fun hnormal => ?_) (fun hinf => .block ?_)
    · rw [beq_iff_eq, exponent_add_one] at hnormal
      refine h _ _ _ _ _ _ ?_ (toInt_doubleExp lo hzero hnormal)
      rw [hsig, doubleSig_normal]
      rintro (h₀ | h₁)
      · exact hzero (BitVec.eq_of_toNat_eq (hfield.trans h₀))
      · exact hnormal (BitVec.eq_of_toNat_eq (hfield.trans h₁))
    · rw [beq_iff_eq, exponent_add_one, not_not] at hinf
      dsimp [daddCode]
      refine leads_daX2 hr7 (show Special hi lo from .inr ?_) ?_ h
      · rw [← hfield, hinf]
        rfl
      · rw [hr7]
        exact toInt_doubleExp_inf lo hinf

/-- The sign of the first argument. -/
theorem leads_daEntry
    (h : ∀ r0' r1' r4' r6' r7' flags, signedPair r1' r0' = doubleSig c.r1 c.r0 →
      r4'.toInt = doubleExp c.r1 c.r0 → Leads daddCode P (.at .daX3 { c with
        r0 := r0', r1 := r1', r4 := r4', r6 := r6', r7 := r7', flags := flags }) Q) :
    Leads daddCode P (.at .daEntry c) Q := by
  have himplied := signedPair_implied c.r1 c.r0
  obtain ⟨hneg, hneg'⟩ := signedPair_neg himplied (significand_lt c.r1 c.r0).2
    (significand_lt c.r1 c.r0).1
  refine .block ?_
  dsimp [daddCode]
  rw [carryLeft_sign]
  refine .ite (fun hpos => ?_) (fun hsign => .block ?_)
  · rw [Bool.not_eq_true'] at hpos
    refine leads_daX1 rfl rfl ?_ h
    rw [hpos, if_neg Bool.false_ne_true]
    exact himplied
  · rw [Bool.not_eq_true, Bool.not_eq_false'] at hsign
    dsimp [daddCode]
    refine .ite (fun hlow => ?_) (fun hlow => .block ?_)
    · refine leads_daX1 rfl rfl ?_ h
      rw [hsign, if_pos rfl]
      exact hneg ((borrow_zero c.r0).mp hlow)
    · dsimp [daddCode]
      refine leads_daX1 rfl rfl ?_ h
      rw [hsign, if_pos rfl]
      exact hneg' (not_not.mp (mt (borrow_zero c.r0).mpr hlow))

/-- The end of the macro for a zero or an infinity, and for the second argument. -/
theorem leads_daY2 {hi lo : Word} (hr7 : c.r7 = hi >>> 31) (hspecial : Special hi lo)
    (hexp : ((c.r5 - 128#32) <<< 12).toInt = doubleExp hi lo)
    (h : ∀ r2' r3' r5' r6' r7' flags, signedPair r3' r2' = doubleSig hi lo →
      r5'.toInt = doubleExp hi lo → Leads daddCode P (.at .daY3 { c with
        r2 := r2', r3 := r3', r5 := r5', r6 := r6', r7 := r7', flags := flags }) Q) :
    Leads daddCode P (.at .daY2 c) Q := by
  refine .block ?_
  dsimp [daddCode]
  refine h _ _ _ _ _ _ ?_ hexp
  rw [hr7, signedPair_special, doubleSig_special hspecial]

/-- The exponent of the second argument. -/
theorem leads_daY1 {hi lo : Word} (hr5 : c.r5 = hi >>> 20 <<< 21) (hr7 : c.r7 = hi >>> 31)
    (hsig : signedPair c.r3 c.r2 = if hi.msb then -(double.significand (doublePattern hi lo) : ℤ)
      else double.significand (doublePattern hi lo))
    (h : ∀ r2' r3' r5' r6' r7' flags, signedPair r3' r2' = doubleSig hi lo →
      r5'.toInt = doubleExp hi lo → Leads daddCode P (.at .daY3 { c with
        r2 := r2', r3 := r3', r5 := r5', r6 := r6', r7 := r7', flags := flags }) Q) :
    Leads daddCode P (.at .daY1 c) Q := by
  have hfield := toNat_exponent hi lo
  refine .block ?_
  dsimp [daddCode]
  rw [hr5]
  refine .ite (fun hzero => ?_) (fun hzero => .block ?_)
  · rw [beq_iff_eq] at hzero
    refine leads_daY2 hr7 (.inl ?_) (toInt_doubleExp_zero lo hzero) h
    rw [← hfield, hzero]
    rfl
  · rw [beq_iff_eq] at hzero
    dsimp [daddCode]
    refine .ite (fun hnormal => ?_) (fun hinf => .block ?_)
    · rw [beq_iff_eq, exponent_add_one] at hnormal
      refine h _ _ _ _ _ _ ?_ (toInt_doubleExp lo hzero hnormal)
      rw [hsig, doubleSig_normal]
      rintro (h₀ | h₁)
      · exact hzero (BitVec.eq_of_toNat_eq (hfield.trans h₀))
      · exact hnormal (BitVec.eq_of_toNat_eq (hfield.trans h₁))
    · rw [beq_iff_eq, exponent_add_one, not_not] at hinf
      dsimp [daddCode]
      refine leads_daY2 hr7 (show Special hi lo from .inr ?_) ?_ h
      · rw [← hfield, hinf]
        rfl
      · rw [hr7]
        exact toInt_doubleExp_inf lo hinf

/-- The sign of the second argument. -/
theorem leads_daX3
    (h : ∀ r2' r3' r5' r6' r7' flags, signedPair r3' r2' = doubleSig c.r3 c.r2 →
      r5'.toInt = doubleExp c.r3 c.r2 → Leads daddCode P (.at .daY3 { c with
        r2 := r2', r3 := r3', r5 := r5', r6 := r6', r7 := r7', flags := flags }) Q) :
    Leads daddCode P (.at .daX3 c) Q := by
  have himplied := signedPair_implied c.r3 c.r2
  obtain ⟨hneg, hneg'⟩ := signedPair_neg himplied (significand_lt c.r3 c.r2).2
    (significand_lt c.r3 c.r2).1
  refine .block ?_
  dsimp [daddCode]
  rw [carryLeft_sign]
  refine .ite (fun hpos => ?_) (fun hsign => .block ?_)
  · rw [Bool.not_eq_true'] at hpos
    refine leads_daY1 rfl rfl ?_ h
    rw [hpos, if_neg Bool.false_ne_true]
    exact himplied
  · rw [Bool.not_eq_true, Bool.not_eq_false'] at hsign
    dsimp [daddCode]
    refine .ite (fun hlow => ?_) (fun hlow => .block ?_)
    · refine leads_daY1 rfl rfl ?_ h
      rw [hsign, if_pos rfl]
      exact hneg ((borrow_zero c.r2).mp hlow)
    · dsimp [daddCode]
      refine leads_daY1 rfl rfl ?_ h
      rw [hsign, if_pos rfl]
      exact hneg' (not_not.mp (mt (borrow_zero c.r2).mpr hlow))

/-- The exponents are compared. -/
theorem DoubleUnpacked.leads_daY3 (h : DoubleUnpacked c₀ mx ex my ey c) :
    Leads daddCode P (.at .daY3 c) (DoubleReturned P c₀ (double.added 60 mx ex my ey)) := by
  have hmi : (c.r4 - c.r5).msb = decide (ex < ey) := by
    have hrx := h.rangeX
    have hry := h.rangeY
    have hex := h.expX
    have hey := h.expY
    have hsub : (c.r4 - c.r5).toInt = ex - ey := by
      rw [toInt_sub_of_bounds (by omega) (by omega), hex, hey]
    rw [BitVec.msb_eq_toInt, hsub, decide_eq_decide, sub_neg]
  have hunpacked (flags : Flags) : DoubleUnpacked c₀ mx ex my ey { c with
      r6 := c.r4 - c.r5, r7 := c.r5 - c.r4, flags := flags } :=
    ⟨h.framed, h.x, h.y, h.expX, h.expY, h.rangeX, h.rangeY, h.sigX, h.sigY⟩
  refine .block ?_
  dsimp [daddCode]
  refine .ite (fun hlt => ?_) (fun hle => ?_)
  · rw [hmi, decide_eq_true_eq] at hlt
    exact (hunpacked _).leads_daYgtx rfl rfl hlt
  · rw [hmi, decide_eq_true_eq, not_lt] at hle
    exact (hunpacked _).leads_daXgty rfl rfl hle

/-- The sum from the patterns. -/
theorem leads_daEntry_added (hc : Framed [r4, r5, r6, r7, lr] c₀ c₀.mem c) :
    Leads daddCode P (.at .daEntry c) (DoubleReturned P c₀ (double.added 60
      (doubleSig c.r1 c.r0) (doubleExp c.r1 c.r0) (doubleSig c.r3 c.r2) (doubleExp c.r3 c.r2))) := by
  have hsig (hi lo : Word) : 2 ^ 52 ≤ |doubleSig hi lo| ∧ |doubleSig hi lo| < 2 ^ 53 := by
    rw [abs_doubleSig]
    exact_mod_cast doubleMagnitude_bounds hi lo
  refine leads_daEntry fun r0' r1' r4' r6' r7' _ hx hex =>
    leads_daX3 fun r2' r3' r5' r6' r7' _ hy hey => ?_
  exact DoubleUnpacked.leads_daY3 {
    framed := hc
    x := hx
    y := hy
    expX := hex
    expY := hey
    rangeX := doubleExp_range _ _
    rangeY := doubleExp_range _ _
    sigX := hsig _ _
    sigY := hsig _ _ }

end Unpacking

/-! ## Sums -/

theorem doubleExp_zero {hi lo : Word} (h : double.expField (doublePattern hi lo) = 0) :
    doubleExp hi lo = -128 * 2 ^ 12 :=
  if_pos h

theorem doubleExp_inf {hi lo : Word} (h : double.expField (doublePattern hi lo) = 2047) :
    doubleExp hi lo = (2047 - hi.msb.toNat - 128) * 2 ^ 12 := by
  have hne : ¬double.expField (doublePattern hi lo) = 0 := by omega
  rw [doubleExp, if_neg hne, if_pos h]

/-- Zeros of both signs cancel. -/
theorem added_double_zeros {hi lo hi' lo' : Word}
    (hx : double.expField (doublePattern hi lo) = 0)
    (hy : double.expField (doublePattern hi' lo') = 0) (h : hi.msb ≠ hi'.msb) :
    double.added 60 (doubleSig hi lo) (doubleExp hi lo) (doubleSig hi' lo') (doubleExp hi' lo') =
      0 := by
  have hsum : doubleSig hi lo = -doubleSig hi' lo' := by
    rw [doubleSig_special (.inl hx), doubleSig_special (.inl hy)]
    revert h
    cases hi.msb <;> cases hi'.msb <;> simp
  rw [doubleExp_zero hx, doubleExp_zero hy, hsum, FloatFormat.added, if_neg (by norm_num),
    if_neg (by norm_num)]
  unfold FloatFormat.scaled
  rw [Int.cast_neg, neg_mul, neg_add_cancel]
  rfl

/-- The infinity of positive sign has the greater exponent. -/
theorem added_double_infinities {hi lo hi' lo' : Word}
    (hx : double.expField (doublePattern hi lo) = 2047)
    (hy : double.expField (doublePattern hi' lo') = 2047) (h : hi.msb ≠ hi'.msb) :
    double.added 60 (doubleSig hi lo) (doubleExp hi lo) (doubleSig hi' lo') (doubleExp hi' lo') =
      double.infinity := by
  have hpacked {hi lo : Word} (hinf : double.expField (doublePattern hi lo) = 2047)
      (hmsb : hi.msb = false) :
      double.packed (double.scaled (doubleSig hi lo) (doubleExp hi lo)) = double.infinity := by
    rw [(unpacks_double hi lo).packed_of_infinite (by decide) hinf, isNeg_double, hmsb]
    rfl
  have hex := doubleExp_inf hx
  have hey := doubleExp_inf hy
  rcases Bool.eq_false_or_eq_true hi.msb with hmx | hmx <;>
    rcases Bool.eq_false_or_eq_true hi'.msb with hmy | hmy
  · exact absurd (hmx.trans hmy.symm) h
  · rw [hmx, Bool.toNat_true] at hex
    rw [hmy, Bool.toNat_false] at hey
    rw [FloatFormat.added, if_neg (by omega), if_pos (by omega), hpacked hy hmy]
  · rw [hmx, Bool.toNat_false] at hex
    rw [hmy, Bool.toNat_true] at hey
    rw [FloatFormat.added, if_pos (by omega), hpacked hx hmx]
  · exact absurd (hmx.trans hmy.symm) h

theorem added_double (hi lo hi' lo' : Word) :
    double.added 60 (doubleSig hi lo) (doubleExp hi lo) (doubleSig hi' lo') (doubleExp hi' lo') =
      double.sum (doublePattern hi lo) (doublePattern hi' lo') := by
  refine (unpacks_double hi lo).added_eq_sum (unpacks_double hi' lo') (by decide) (by decide)
    (fun hx hy h => added_double_zeros hx hy ?_) (fun hx hy h => added_double_infinities hx hy ?_)
  all_goals rwa [isNeg_double, isNeg_double] at h

/-- `mufp_dadd`. -/
theorem leads_dadd (c : Cpu) : Leads daddCode P (.at .dadd c)
    (DoubleReturned P c (double.sum (doublePattern c.r1 c.r0) (doublePattern c.r3 c.r2))) := by
  refine .push rfl (by decide) fun c₁ hc₁ hregs _ => ?_
  have hr0 : c₁.r0 = c.r0 := hregs .r0 (by decide)
  have hr1 : c₁.r1 = c.r1 := hregs .r1 (by decide)
  have hr2 : c₁.r2 = c.r2 := hregs .r2 (by decide)
  have hr3 : c₁.r3 = c.r3 := hregs .r3 (by decide)
  rw [← hr0, ← hr1, ← hr2, ← hr3, ← added_double]
  exact leads_daEntry_added hc₁

/-- The sign is the first bit of the upper word. -/
theorem doublePattern_negated (hi lo : Word) :
    doublePattern (hi ^^^ 0x80000000#32) lo = double.negated (doublePattern hi lo) := by
  have hxor : (hi ^^^ 0x80000000#32).toNat = hi.toNat ^^^ 2 ^ 31 := BitVec.toNat_xor ..
  have hpattern (n : ℕ) : n * 2 ^ 32 + lo.toNat = 2 ^ 32 * n + lo.toNat := by rw [Nat.mul_comm]
  have hmask : double.expBits + double.fracBits = 63 := rfl
  refine Nat.eq_of_testBit_eq fun i => ?_
  rw [FloatFormat.negated, Nat.testBit_xor, doublePattern, doublePattern, hpattern, hpattern, hxor,
    Nat.testBit_two_pow_mul_add _ lo.isLt, Nat.testBit_two_pow_mul_add _ lo.isLt, hmask,
    Nat.testBit_two_pow]
  split_ifs with h
  · rw [decide_eq_false (show ¬63 = i by omega), Bool.xor_false]
  · rw [Nat.testBit_xor, Nat.testBit_two_pow, decide_eq_decide.mpr (show 31 = i - 32 ↔ 63 = i by omega)]

/-- `mufp_dsub`. -/
theorem leads_dsub (c : Cpu) : Leads daddCode P (.at .dsub c)
    (DoubleReturned P c (double.difference (doublePattern c.r1 c.r0) (doublePattern c.r3 c.r2))) := by
  refine .push rfl (by decide) fun c₁ hc₁ hregs _ => ?_
  have hr0 : c₁.r0 = c.r0 := hregs .r0 (by decide)
  have hr1 : c₁.r1 = c.r1 := hregs .r1 (by decide)
  have hr2 : c₁.r2 = c.r2 := hregs .r2 (by decide)
  have hr3 : c₁.r3 = c.r3 := hregs .r3 (by decide)
  have hbit : (1#32 : Word) <<< 31 = 0x80000000#32 := shiftLeft_eq_of_toNat rfl
  dsimp [-BitVec.reduceHShiftLeft, -BitVec.reduceShiftLeft]
  rw [hbit, ← hr0, ← hr1, ← hr2, ← hr3, FloatFormat.difference, ← doublePattern_negated,
    ← added_double]
  exact leads_daEntry_added hc₁

/-- `mufp_dadd` and `mufp_dsub` return the exact sum and the exact difference, rounded once. -/
theorem dadd_dsub_rounded (c : Cpu) :
    Leads daddCode P (.at .dadd c)
        (DoubleReturned P c (double.sum (doublePattern c.r1 c.r0) (doublePattern c.r3 c.r2))) ∧
      Leads daddCode P (.at .dsub c)
        (DoubleReturned P c
          (double.difference (doublePattern c.r1 c.r0) (doublePattern c.r3 c.r2))) :=
  ⟨leads_dadd c, leads_dsub c⟩

end PicoBootrom
