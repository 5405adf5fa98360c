import PicoBootrom.Address
import PicoBootrom.FloatFormat
import PicoBootrom.ThumbStack

/-!
# Comparing floats and doubles

`mufp_fcmp_combined` and `mufp_dcmp_combined` compare patterns, not values. They clear the fraction
of a pattern whose exponent field is zero or all ones, and go on as the fast variants do : patterns
with opposite signs are decided by the sign of the first one, unless both are zeros, and others by a
signed comparison, which is turned over for negative ones. A double is compared word by word, the
upper one signed and the lower one unsigned.

The result is the sign of the difference of two whole numbers (`FloatFormat.key`), which are in the
order of the values, so it is that of a total preorder.
-/

namespace PicoBootrom

open Thumb Thumb.Reg

-- states are compared by unfolding, which has to stop at the shifts
attribute [local irreducible] BitVec.shiftLeft BitVec.ushiftRight BitVec.sshiftRight

/-! ## The source -/

/-- The labels of the comparisons. A number after a name stands for a local label, and names without
a label in the source are those of the instruction after a branch. -/
inductive CompareLabel
  | fcmpCombined | fcmpInfX | fcmpClearX | fcmpY | fcmpInfY | fcmpClearY
  | fcmpFast | fcmpSame | fcmpNegative | fcmpCompare | fcmpNotGreater
  | fcmpEqual | fcmpLess | fcmpReturn | fcmpOpposite | fcmpNonzero
  | dcmpFast
  | dcmpCombined | dcmpInfX | dcmpClearX | dcmpY | dcmpInfY | dcmpClearY
  | dcmpFastEntry | dcmpSame | dcmpNegative | dcmpCompare | dcmpLow | dcmpNotHigher
  | dcmpEqual | dcmpHigh | dcmpLess | dcmpReturn | dcmpOpposite | dcmpNonzero
  deriving DecidableEq, Repr

/-- The code of `mufp_fcmp_combined` with `mufp_fcmp_fast`, and of `mufp_dcmp_combined` with
`mufp_dcmp_fast`. -/
def compareCode : CompareLabel → Block CompareLabel
  | .fcmpCombined => ⟨[lsls r2 r0 1, lsrs r2 r2 24], .bcond .eq .fcmpClearX .fcmpInfX⟩
  | .fcmpInfX => ⟨[cmp r2 0xff], .bcond .ne .fcmpY .fcmpClearX⟩
  | .fcmpClearX => ⟨[lsrs r0 r0 23, lsls r0 r0 23], .b .fcmpY⟩
  | .fcmpY => ⟨[lsls r2 r1 1, lsrs r2 r2 24], .bcond .eq .fcmpClearY .fcmpInfY⟩
  | .fcmpInfY => ⟨[cmp r2 0xff], .bcond .ne .fcmpFast .fcmpClearY⟩
  | .fcmpClearY => ⟨[lsrs r1 r1 23, lsls r1 r1 23], .b .fcmpFast⟩
  | .fcmpFast => ⟨[movs r2 1, eors r1 r0], .bcond .mi .fcmpOpposite .fcmpSame⟩
  | .fcmpSame => ⟨[eors r1 r0], .bcond .pl .fcmpCompare .fcmpNegative⟩
  | .fcmpNegative => ⟨[rsbs r2 r2], .b .fcmpCompare⟩
  | .fcmpCompare => ⟨[cmp r0 r1], .bcond .gt .fcmpReturn .fcmpNotGreater⟩
  | .fcmpNotGreater => ⟨[], .bcond .lt .fcmpLess .fcmpEqual⟩
  | .fcmpEqual => ⟨[movs r2 0], .b .fcmpLess⟩
  | .fcmpLess => ⟨[rsbs r2 r2], .b .fcmpReturn⟩
  | .fcmpReturn => ⟨[subs r0 r2 0], .bx lr⟩
  | .fcmpOpposite => ⟨[orrs r1 r0, adds r1 r1 r1], .bcond .eq .fcmpEqual .fcmpNonzero⟩
  | .fcmpNonzero => ⟨[cmp r0 0], .bcond .ge .fcmpReturn .fcmpLess⟩
  | .dcmpFast => ⟨[push [r4, r6, r7, lr]], .b .dcmpFastEntry⟩
  | .dcmpCombined => ⟨[
      push [r4, r6, r7, lr],
      ldrLit r7 0x7ff,
      lsls r4 r1 1,
      lsrs r4 r4 21],
      .bcond .eq .dcmpClearX .dcmpInfX⟩
  | .dcmpInfX => ⟨[cmp r4 r7], .bcond .ne .dcmpY .dcmpClearX⟩
  | .dcmpClearX => ⟨[movs r0 0, lsrs r1 r1 20, lsls r1 r1 20], .b .dcmpY⟩
  | .dcmpY => ⟨[lsls r4 r3 1, lsrs r4 r4 21], .bcond .eq .dcmpClearY .dcmpInfY⟩
  | .dcmpInfY => ⟨[cmp r4 r7], .bcond .ne .dcmpFastEntry .dcmpClearY⟩
  | .dcmpClearY => ⟨[movs r2 0, lsrs r3 r3 20, lsls r3 r3 20], .b .dcmpFastEntry⟩
  | .dcmpFastEntry => ⟨[movs r6 1, eors r3 r1], .bcond .mi .dcmpOpposite .dcmpSame⟩
  | .dcmpSame => ⟨[eors r3 r1], .bcond .pl .dcmpCompare .dcmpNegative⟩
  | .dcmpNegative => ⟨[rsbs r6 r6], .b .dcmpCompare⟩
  | .dcmpCompare => ⟨[cmp r1 r3], .bcond .ne .dcmpHigh .dcmpLow⟩
  | .dcmpLow => ⟨[cmp r0 r2], .bcond .hi .dcmpReturn .dcmpNotHigher⟩
  | .dcmpNotHigher => ⟨[], .bcond .lo .dcmpLess .dcmpEqual⟩
  | .dcmpEqual => ⟨[movs r6 0], .b .dcmpHigh⟩
  | .dcmpHigh => ⟨[], .bcond .gt .dcmpReturn .dcmpLess⟩
  | .dcmpLess => ⟨[rsbs r6 r6], .b .dcmpReturn⟩
  | .dcmpReturn => ⟨[subs r0 r6 0], .popPc [r4, r6, r7]⟩
  | .dcmpOpposite => ⟨[orrs r3 r1, adds r3 r3 r3, orrs r3 r0, orrs r3 r2],
      .bcond .eq .dcmpEqual .dcmpNonzero⟩
  | .dcmpNonzero => ⟨[cmp r1 0], .bcond .ge .dcmpReturn .dcmpLess⟩

variable {P : Placement CompareLabel}

/-! ## Floats -/

/-- -1, 0 or 1. -/
def signWord (k : ℤ) : Word :=
  BitVec.ofInt 32 k.sign

/-- A pattern as a sign and a magnitude. -/
def signMagnitude (x : Word) : ℤ :=
  if x.msb then 2 ^ 31 - x.toNat else x.toNat

/-- A comparison that is done : only `r0` to `r2` and the flags differ. -/
def FloatCompared (P : Placement CompareLabel) (c : Cpu) (r : Word) (y : Config CompareLabel) :
    Prop :=
  ∃ r1 r2 flags, y = P.jump c.lr { c with r0 := r, r1 := r1, r2 := r2, flags := flags }

theorem signWord_of_pos {k : ℤ} (h : 0 < k) : signWord k = 1 := by
  rw [signWord, Int.sign_eq_one_of_pos h]
  rfl

theorem signWord_of_neg {k : ℤ} (h : k < 0) : signWord k = -1 := by
  rw [signWord, Int.sign_eq_neg_one_of_neg h]
  rfl

theorem signWord_of_zero {k : ℤ} (h : k = 0) : signWord k = 0 := by
  rw [signWord, h]
  rfl

/-- The magnitude of a negative pattern is turned over. -/
theorem signMagnitude_cases (x : Word) :
    (x.msb = false ∧ signMagnitude x = x.toInt ∧ 0 ≤ x.toInt) ∨
      (x.msb = true ∧ signMagnitude x = -2 ^ 31 - x.toInt ∧ x.toInt < 0 ∧ -2 ^ 31 ≤ x.toInt) := by
  unfold signMagnitude
  rcases sign_cases x with ⟨hlt, hint, hmsb⟩ | ⟨hle, hint, hmsb⟩
  · rw [hmsb, if_neg Bool.false_ne_true]
    exact .inl ⟨rfl, hint.symm, by omega⟩
  · have := x.isLt
    rw [hmsb, if_pos rfl]
    exact .inr ⟨rfl, by omega, by omega, by omega⟩

theorem signMagnitude_eq_zero_iff (x : Word) : signMagnitude x = 0 ↔ x.toNat % 2 ^ 31 = 0 := by
  have hx := x.isLt
  unfold signMagnitude
  rcases sign_cases x with ⟨hlt, -, hmsb⟩ | ⟨hle, -, hmsb⟩
  · rw [hmsb, if_neg Bool.false_ne_true]
    omega
  · rw [hmsb, if_pos rfl]
    omega

/-- Two patterns without a bit below the sign. -/
theorem or_add_self_eq_zero (x y : Word) : (y ||| x) + (y ||| x) = 0 ↔
    signMagnitude x = 0 ∧ signMagnitude y = 0 := by
  have hdouble (w : Word) : w + w = 0 ↔ w.toNat % 2 ^ 31 = 0 := by
    rw [BitVec.toNat_eq, BitVec.toNat_add]
    change _ % _ = 0 ↔ _
    omega
  rw [hdouble, BitVec.toNat_or, Nat.or_mod_two_pow, Nat.or_eq_zero_iff, signMagnitude_eq_zero_iff,
    signMagnitude_eq_zero_iff, and_comm]

theorem xor_or_self (x y : Word) : (y ^^^ x ||| x) = y ||| x := by
  ext i hi
  cases hy : y[i] <;> simp [hy]

section Floats

variable {c : Cpu} {r : Word}

theorem leads_fcmpReturn (h : c.r2 = r) :
    Leads compareCode P (.at .fcmpReturn c) (FloatCompared P c r) := by
  subst h
  refine .block (.now ⟨c.r1, c.r2, .ofSub c.r2 0, ?_⟩)
  change P.jump c.lr { c with r0 := c.r2 - 0#32, flags := .ofSub c.r2 0 } = _
  rw [BitVec.sub_zero]

theorem leads_fcmpLess (h : -c.r2 = r) :
    Leads compareCode P (.at .fcmpLess c) (FloatCompared P c r) :=
  .block (leads_fcmpReturn (c := { c with r2 := -c.r2, flags := .ofSub 0 c.r2 }) h)

theorem leads_fcmpEqual (h : 0 = r) :
    Leads compareCode P (.at .fcmpEqual c) (FloatCompared P c r) :=
  .block (leads_fcmpLess (c := { c with r2 := 0, flags := c.flags.ofResult 0 })
    ((BitVec.neg_eq_zero_iff.mpr rfl).trans h))

/-- Two patterns with the same sign. -/
theorem leads_fcmpCompare (hgt : c.r1.toInt < c.r0.toInt → c.r2 = r)
    (hlt : c.r0.toInt < c.r1.toInt → -c.r2 = r) (heq : c.r0.toInt = c.r1.toInt → 0 = r) :
    Leads compareCode P (.at .fcmpCompare c) (FloatCompared P c r) := by
  refine .block (.bcond (fun h => ?_) (fun h => .block (.bcond (fun h' => ?_) (fun h' => ?_))))
  · change Cond.gt.holds (.ofSub c.r0 c.r1) = true at h
    rw [Cond.holds_gt_ofSub, decide_eq_true_eq] at h
    exact leads_fcmpReturn (hgt h)
  · change Cond.lt.holds (.ofSub c.r0 c.r1) = true at h'
    rw [Cond.holds_lt_ofSub, decide_eq_true_eq] at h'
    exact leads_fcmpLess (hlt h')
  · change Cond.gt.holds (.ofSub c.r0 c.r1) = false at h
    change Cond.lt.holds (.ofSub c.r0 c.r1) = false at h'
    rw [Cond.holds_gt_ofSub, decide_eq_false_iff_not] at h
    rw [Cond.holds_lt_ofSub, decide_eq_false_iff_not] at h'
    exact leads_fcmpEqual (heq (by omega))

/-- Two patterns with opposite signs, of which `r1` has the difference. -/
theorem leads_fcmpOpposite (hr2 : c.r2 = 1)
    (hzero : (c.r1 ||| c.r0) + (c.r1 ||| c.r0) = 0 → 0 = r)
    (hpos : (c.r1 ||| c.r0) + (c.r1 ||| c.r0) ≠ 0 → 0 ≤ c.r0.toInt → 1 = r)
    (hneg : (c.r1 ||| c.r0) + (c.r1 ||| c.r0) ≠ 0 → c.r0.toInt < 0 → -1 = r) :
    Leads compareCode P (.at .fcmpOpposite c) (FloatCompared P c r) := by
  refine .block (.bcond (fun h => ?_) (fun h => .block (.bcond (fun h' => ?_) (fun h' => ?_))))
  · change ((c.r1 ||| c.r0) + (c.r1 ||| c.r0) == 0) = true at h
    exact leads_fcmpEqual (hzero (beq_iff_eq.mp h))
  · change ((c.r1 ||| c.r0) + (c.r1 ||| c.r0) == 0) = false at h
    change Cond.ge.holds (.ofSub c.r0 0) = true at h'
    rw [Cond.holds_ge_ofSub, decide_eq_true_eq] at h'
    exact leads_fcmpReturn (hr2.trans (hpos (beq_eq_false_iff_ne.mp h) h'))
  · change ((c.r1 ||| c.r0) + (c.r1 ||| c.r0) == 0) = false at h
    change Cond.ge.holds (.ofSub c.r0 0) = false at h'
    rw [Cond.holds_ge_ofSub, decide_eq_false_iff_not, not_le] at h'
    exact leads_fcmpLess ((congrArg Neg.neg hr2).trans (hneg (beq_eq_false_iff_ne.mp h) h'))

/-- Two patterns with the same sign, of which `r1` has the difference. -/
theorem leads_fcmpSame (hr2 : c.r2 = 1) (hsign : (c.r1 ^^^ c.r0).msb = c.r0.msb)
    (h : signWord (signMagnitude c.r0 - signMagnitude (c.r1 ^^^ c.r0)) = r) :
    Leads compareCode P (.at .fcmpSame c) (FloatCompared P c r) := by
  have hx := signMagnitude_cases c.r0
  have hy := signMagnitude_cases (c.r1 ^^^ c.r0)
  refine .block (.bcond (fun hpl => ?_) (fun hmi => .block ?_))
  · change (!(c.r1 ^^^ c.r0).msb) = true at hpl
    rw [Bool.not_eq_true'] at hpl
    rw [hpl] at hsign
    simp only [hpl, ← hsign, Bool.false_eq_true, true_and, false_and, or_false] at hx hy
    refine leads_fcmpCompare (c := { c with
      r1 := c.r1 ^^^ c.r0, flags := c.flags.ofResult (c.r1 ^^^ c.r0) }) ?_ ?_ ?_ <;>
      dsimp only <;> intro hcmp
    · exact hr2.trans ((signWord_of_pos (by omega)).symm.trans h)
    · exact (congrArg Neg.neg hr2).trans ((signWord_of_neg (by omega)).symm.trans h)
    · exact (signWord_of_zero (by omega)).symm.trans h
  · change (!(c.r1 ^^^ c.r0).msb) = false at hmi
    rw [Bool.not_eq_false'] at hmi
    rw [hmi] at hsign
    simp only [hmi, ← hsign, Bool.true_eq_false, true_and, false_and, false_or] at hx hy
    -- the signed comparison of two negative patterns is the other way round
    refine leads_fcmpCompare (c := { c with
      r1 := c.r1 ^^^ c.r0, r2 := -c.r2, flags := .ofSub 0 c.r2 }) ?_ ?_ ?_ <;>
      dsimp only <;> intro hcmp
    · exact (congrArg Neg.neg hr2).trans ((signWord_of_neg (by omega)).symm.trans h)
    · exact (BitVec.neg_neg.trans hr2).trans ((signWord_of_pos (by omega)).symm.trans h)
    · exact (signWord_of_zero (by omega)).symm.trans h

/-- `mufp_fcmp_fast`. -/
theorem leads_fcmpFast (h : signWord (signMagnitude c.r0 - signMagnitude c.r1) = r) :
    Leads compareCode P (.at .fcmpFast c) (FloatCompared P c r) := by
  have hback : c.r1 ^^^ c.r0 ^^^ c.r0 = c.r1 := by
    rw [BitVec.xor_assoc, BitVec.xor_self, BitVec.xor_zero]
  refine .block (.bcond (fun hsign => ?_) (fun hsign => ?_))
  · change (c.r1 ^^^ c.r0).msb = true at hsign
    rw [BitVec.msb_xor, bne_iff_ne] at hsign
    have hor : (c.r1 ^^^ c.r0 ||| c.r0) + (c.r1 ^^^ c.r0 ||| c.r0) = 0 ↔
        signMagnitude c.r0 = 0 ∧ signMagnitude c.r1 = 0 := by
      rw [xor_or_self, or_add_self_eq_zero]
    have hx := signMagnitude_cases c.r0
    have hy := signMagnitude_cases c.r1
    refine leads_fcmpOpposite (c := { c with
      r1 := c.r1 ^^^ c.r0, r2 := 1, flags := (c.flags.ofResult 1).ofResult (c.r1 ^^^ c.r0) })
      rfl ?_ ?_ ?_ <;> dsimp only <;> intro hz
    · obtain ⟨hzx, hzy⟩ := hor.mp hz
      exact (signWord_of_zero (by omega)).symm.trans h
    · intro hge
      have hnot := mt hor.mpr hz
      rcases hx with ⟨hmx, hx, -⟩ | ⟨-, -, hneg, -⟩
      · rcases hy with ⟨hmy, -⟩ | ⟨-, hy, -, hbound⟩
        · exact absurd (hmy.trans hmx.symm) hsign
        · exact (signWord_of_pos (by omega)).symm.trans h
      · omega
    · intro hlt
      have hnot := mt hor.mpr hz
      rcases hx with ⟨-, -, hnonneg⟩ | ⟨hmx, hx, -, hbound⟩
      · omega
      · rcases hy with ⟨-, hy, hpos⟩ | ⟨hmy, -⟩
        · exact (signWord_of_neg (by omega)).symm.trans h
        · exact absurd (hmy.trans hmx.symm) hsign
  · change (c.r1 ^^^ c.r0).msb = false at hsign
    rw [BitVec.msb_xor, bne_eq_false_iff_eq] at hsign
    refine leads_fcmpSame rfl (hback.symm ▸ hsign) ?_
    change signWord (signMagnitude c.r0 - signMagnitude (c.r1 ^^^ c.r0 ^^^ c.r0)) = r
    rwa [hback]

/-- The fraction is cleared if the exponent field is zero or all ones. -/
def clearFraction (x : Word) : Word :=
  if x <<< 1 >>> 24 = 0 ∨ x <<< 1 >>> 24 = 0xff then x >>> 23 <<< 23 else x

theorem clearFraction_of_plain {x : Word} (h : x <<< 1 >>> 24 ≠ 0) (h' : x <<< 1 >>> 24 ≠ 0xff) :
    clearFraction x = x :=
  if_neg (not_or.mpr ⟨h, h'⟩)

section Clearing

variable {Q : Config CompareLabel → Prop}

theorem leads_fcmpClearX
    (h : ∀ flags, Leads compareCode P
      (.at .fcmpY { c with r0 := c.r0 >>> 23 <<< 23, flags := flags }) Q) :
    Leads compareCode P (.at .fcmpClearX c) Q :=
  .block (h _)

theorem leads_fcmpInfX
    (hclear : c.r2 = 0xff → ∀ flags, Leads compareCode P
      (.at .fcmpClearX { c with flags := flags }) Q)
    (hkeep : c.r2 ≠ 0xff → ∀ flags, Leads compareCode P
      (.at .fcmpY { c with flags := flags }) Q) :
    Leads compareCode P (.at .fcmpInfX c) Q := by
  refine .block (.bcond (fun h => hkeep ?_ _) (fun h => hclear ?_ _))
  · change (!decide (c.r2 = 0xff)) = true at h
    simpa using h
  · change (!decide (c.r2 = 0xff)) = false at h
    simpa using h

/-- The first operand is cleared. -/
theorem leads_fcmpCombined
    (h : ∀ r2 flags, Leads compareCode P
      (.at .fcmpY { c with r0 := clearFraction c.r0, r2 := r2, flags := flags }) Q) :
    Leads compareCode P (.at .fcmpCombined c) Q := by
  refine .block (.bcond (fun hzero => ?_) (fun hzero => ?_))
  · change (c.r0 <<< 1 >>> 24 == 0) = true at hzero
    rw [clearFraction, if_pos (.inl (beq_iff_eq.mp hzero))] at h
    exact leads_fcmpClearX (fun _ => h _ _)
  · change (c.r0 <<< 1 >>> 24 == 0) = false at hzero
    refine leads_fcmpInfX (fun hinf _ => leads_fcmpClearX fun _ => ?_) (fun hinf _ => ?_)
    · rw [clearFraction, if_pos (.inr hinf)] at h
      exact h _ _
    · rw [clearFraction_of_plain (beq_eq_false_iff_ne.mp hzero) hinf] at h
      exact h _ _

theorem leads_fcmpClearY
    (h : ∀ flags, Leads compareCode P
      (.at .fcmpFast { c with r1 := c.r1 >>> 23 <<< 23, flags := flags }) Q) :
    Leads compareCode P (.at .fcmpClearY c) Q :=
  .block (h _)

theorem leads_fcmpInfY
    (hclear : c.r2 = 0xff → ∀ flags, Leads compareCode P
      (.at .fcmpClearY { c with flags := flags }) Q)
    (hkeep : c.r2 ≠ 0xff → ∀ flags, Leads compareCode P
      (.at .fcmpFast { c with flags := flags }) Q) :
    Leads compareCode P (.at .fcmpInfY c) Q := by
  refine .block (.bcond (fun h => hkeep ?_ _) (fun h => hclear ?_ _))
  · change (!decide (c.r2 = 0xff)) = true at h
    simpa using h
  · change (!decide (c.r2 = 0xff)) = false at h
    simpa using h

/-- The second operand is cleared. -/
theorem leads_fcmpY
    (h : ∀ r2 flags, Leads compareCode P
      (.at .fcmpFast { c with r1 := clearFraction c.r1, r2 := r2, flags := flags }) Q) :
    Leads compareCode P (.at .fcmpY c) Q := by
  refine .block (.bcond (fun hzero => ?_) (fun hzero => ?_))
  · change (c.r1 <<< 1 >>> 24 == 0) = true at hzero
    rw [clearFraction, if_pos (.inl (beq_iff_eq.mp hzero))] at h
    exact leads_fcmpClearY (fun _ => h _ _)
  · change (c.r1 <<< 1 >>> 24 == 0) = false at hzero
    refine leads_fcmpInfY (fun hinf _ => leads_fcmpClearY fun _ => ?_) (fun hinf _ => ?_)
    · rw [clearFraction, if_pos (.inr hinf)] at h
      exact h _ _
    · rw [clearFraction_of_plain (beq_eq_false_iff_ne.mp hzero) hinf] at h
      exact h _ _

end Clearing

end Floats

/-- The format of a float. -/
def single : FloatFormat := ⟨8, 23⟩

theorem exponent_single (x : Word) :
    (x <<< 1 >>> 24).toNat = single.expField x.toNat := by
  rw [BitVec.toNat_ushiftRight, BitVec.toNat_shiftLeft, Nat.shiftRight_eq_div_pow,
    Nat.shiftLeft_eq]
  change _ = x.toNat / 2 ^ 23 % 2 ^ 8
  omega

/-- The number of a pattern in the order of the values. -/
theorem key_single (x : Word) : single.key x.toNat = signMagnitude (clearFraction x) := by
  have hexp := exponent_single x
  have hx := x.isLt
  have hcond : (x <<< 1 >>> 24 = 0 ∨ x <<< 1 >>> 24 = 0xff) ↔
      (single.expField x.toNat = 0 ∨ single.expField x.toNat = single.maxExp) := by
    rw [BitVec.toNat_eq, BitVec.toNat_eq, hexp]
    rfl
  have hcleared : (x >>> 23 <<< 23).toNat = x.toNat / 2 ^ 23 * 2 ^ 23 := by
    rw [BitVec.toNat_shiftLeft, BitVec.toNat_ushiftRight, Nat.shiftRight_eq_div_pow,
      Nat.shiftLeft_eq]
    omega
  have habs : (clearFraction x).toNat = x.toNat / 2 ^ 31 * 2 ^ 31 + single.absKey x.toNat := by
    unfold clearFraction FloatFormat.absKey
    split_ifs with hx' hy' hy'
    · rw [hcleared]
      change _ = _ + x.toNat / 2 ^ 23 % 2 ^ 8 * 2 ^ 23
      omega
    · exact absurd (hcond.mp hx') hy'
    · exact absurd (hcond.mpr hy') hx'
    · change _ = _ + (x.toNat / 2 ^ 23 % 2 ^ 8 * 2 ^ 23 + x.toNat % 2 ^ 23)
      omega
  have hlt : single.absKey x.toNat < 2 ^ 31 := FloatFormat.absKey_lt
  have hneg : single.isNeg x.toNat = x.msb := by
    rw [BitVec.msb_eq_getLsbD_last]
    rfl
  rcases sign_cases (clearFraction x) with ⟨h, -, hmsb⟩ | ⟨h, -, hmsb⟩ <;>
    rcases sign_cases x with ⟨h', -, hmsb'⟩ | ⟨h', -, hmsb'⟩ <;>
    simp only [FloatFormat.key, signMagnitude, hneg, hmsb, hmsb', Bool.false_eq_true, if_false,
      if_true] <;>
    omega

/-! ## Doubles -/

/-- A comparison that is done. -/
def DoubleCompared (P : Placement CompareLabel) (c : Cpu) (r : Word) (y : Config CompareLabel) :
    Prop :=
  ∃ c', y = P.jump c.lr c' ∧ c'.r0 = r ∧ Kept 16 c c'

/-- Two words as a signed number. -/
def signedPair (hi lo : Word) : ℤ :=
  hi.toInt * 2 ^ 32 + lo.toNat

/-- A pattern of two words as a sign and a magnitude. -/
def signMagnitudePair (hi lo : Word) : ℤ :=
  if hi.msb then 2 ^ 63 - (hi.toNat * 2 ^ 32 + lo.toNat) else hi.toNat * 2 ^ 32 + lo.toNat

theorem signMagnitudePair_cases (hi lo : Word) :
    (hi.msb = false ∧ signMagnitudePair hi lo = signedPair hi lo ∧ 0 ≤ signedPair hi lo ∧
        0 ≤ hi.toInt) ∨
      (hi.msb = true ∧ signMagnitudePair hi lo = -2 ^ 63 - signedPair hi lo ∧
        signedPair hi lo < 0 ∧ -2 ^ 63 ≤ signedPair hi lo ∧ hi.toInt < 0) := by
  have hlo := lo.isLt
  have hhi := hi.isLt
  unfold signMagnitudePair signedPair
  rcases sign_cases hi with ⟨hlt, hint, hmsb⟩ | ⟨hle, hint, hmsb⟩
  · rw [hmsb, if_neg Bool.false_ne_true]
    exact .inl ⟨rfl, by omega, by omega, by omega⟩
  · rw [hmsb, if_pos rfl]
    exact .inr ⟨rfl, by omega, by omega, by omega, by omega⟩

theorem signMagnitudePair_eq_zero_iff (hi lo : Word) :
    signMagnitudePair hi lo = 0 ↔ signMagnitude hi = 0 ∧ lo = 0 := by
  have hlo := lo.isLt
  have hhi := hi.isLt
  have hzero : lo = 0 ↔ lo.toNat = 0 := BitVec.toNat_eq
  rw [signMagnitude_eq_zero_iff, hzero]
  unfold signMagnitudePair
  rcases sign_cases hi with ⟨hlt, -, hmsb⟩ | ⟨hle, -, hmsb⟩
  · rw [hmsb, if_neg Bool.false_ne_true]
    omega
  · rw [hmsb, if_pos rfl]
    omega

theorem or_eq_zero_iff (x y : Word) : (x ||| y) = 0 ↔ x = 0 ∧ y = 0 := by
  rw [BitVec.toNat_eq, BitVec.toNat_eq, BitVec.toNat_eq, BitVec.toNat_or]
  exact Nat.or_eq_zero_iff

section Doubles

variable {c₀ c : Cpu} {r : Word}

theorem leads_dcmpReturn (hc : Framed [r4, r6, r7, lr] c₀ c₀.mem c) (h : c.r6 = r) :
    Leads compareCode P (.at .dcmpReturn c) (DoubleCompared P c₀ r) := by
  obtain ⟨c', hnext, hkept, hregs, hmem⟩ := 
    (show Framed ([r4, r6, r7] ++ [lr]) c₀ c₀.mem
      { c with r0 := c.r6 - 0#32, flags := .ofSub c.r6 0 } from hc).popPc P
  refine .block (.now ⟨c', hnext, ?_, { hkept with
    mem := fun a ha => (congrFun hmem a).trans (hc.outside a ha) }⟩)
  exact (hregs .r0 (by decide) (by decide)).trans ((BitVec.sub_zero c.r6).trans h)

theorem leads_dcmpLess (hc : Framed [r4, r6, r7, lr] c₀ c₀.mem c) (h : -c.r6 = r) :
    Leads compareCode P (.at .dcmpLess c) (DoubleCompared P c₀ r) :=
  .block (leads_dcmpReturn (c := { c with r6 := -c.r6, flags := .ofSub 0 c.r6 }) hc h)

theorem leads_dcmpHigh (hc : Framed [r4, r6, r7, lr] c₀ c₀.mem c)
    (hgt : Cond.gt.holds c.flags = true → c.r6 = r)
    (hle : Cond.gt.holds c.flags = false → -c.r6 = r) :
    Leads compareCode P (.at .dcmpHigh c) (DoubleCompared P c₀ r) :=
  .block (.bcond (fun h => leads_dcmpReturn hc (hgt h)) (fun h => leads_dcmpLess hc (hle h)))

theorem leads_dcmpEqual (hc : Framed [r4, r6, r7, lr] c₀ c₀.mem c) (h : 0 = r) :
    Leads compareCode P (.at .dcmpEqual c) (DoubleCompared P c₀ r) :=
  .block (leads_dcmpHigh (c := { c with r6 := 0, flags := c.flags.ofResult 0 }) hc (fun _ => h)
    fun _ => (BitVec.neg_eq_zero_iff.mpr rfl).trans h)

/-- Two patterns with the same sign. -/
theorem leads_dcmpCompare (hc : Framed [r4, r6, r7, lr] c₀ c₀.mem c)
    (hgt : signedPair c.r3 c.r2 < signedPair c.r1 c.r0 → c.r6 = r)
    (hlt : signedPair c.r1 c.r0 < signedPair c.r3 c.r2 → -c.r6 = r)
    (heq : signedPair c.r1 c.r0 = signedPair c.r3 c.r2 → 0 = r) :
    Leads compareCode P (.at .dcmpCompare c) (DoubleCompared P c₀ r) := by
  have hr0 := c.r0.isLt
  have hr2 := c.r2.isLt
  unfold signedPair at hgt hlt heq
  refine .block (.bcond (fun hne => ?_) (fun hhigh => .block ?_))
  · change (!decide (c.r1 = c.r3)) = true at hne
    rw [Bool.not_eq_true', decide_eq_false_iff_not] at hne
    have hint : c.r1.toInt ≠ c.r3.toInt := fun h => hne (BitVec.eq_of_toInt_eq h)
    refine leads_dcmpHigh hc (fun h => ?_) (fun h => ?_)
    · change Cond.gt.holds (.ofSub c.r1 c.r3) = true at h
      rw [Cond.holds_gt_ofSub, decide_eq_true_eq] at h
      exact hgt (by omega)
    · change Cond.gt.holds (.ofSub c.r1 c.r3) = false at h
      rw [Cond.holds_gt_ofSub, decide_eq_false_iff_not] at h
      exact hlt (by omega)
  · change (!decide (c.r1 = c.r3)) = false at hhigh
    rw [Bool.not_eq_false', decide_eq_true_eq] at hhigh
    rw [hhigh] at hgt hlt heq
    refine .bcond (fun hhi => ?_) (fun hhi => .block (.bcond (fun hlo => ?_) (fun hlo => ?_)))
    · change Cond.hi.holds (.ofSub c.r0 c.r2) = true at hhi
      rw [Cond.holds_hi_ofSub, decide_eq_true_eq, BitVec.lt_def] at hhi
      exact leads_dcmpReturn hc (hgt (by omega))
    · change (!decide (c.r2 ≤ c.r0)) = true at hlo
      rw [Bool.not_eq_true', decide_eq_false_iff_not, BitVec.le_def] at hlo
      exact leads_dcmpLess hc (hlt (by omega))
    · change Cond.hi.holds (.ofSub c.r0 c.r2) = false at hhi
      change (!decide (c.r2 ≤ c.r0)) = false at hlo
      rw [Cond.holds_hi_ofSub, decide_eq_false_iff_not, BitVec.lt_def] at hhi
      rw [Bool.not_eq_false', decide_eq_true_eq, BitVec.le_def] at hlo
      exact leads_dcmpEqual hc (heq (by omega))

/-- Two patterns with the same sign, of which `r3` has the difference of the upper words. -/
theorem leads_dcmpSame (hc : Framed [r4, r6, r7, lr] c₀ c₀.mem c) (hr6 : c.r6 = 1)
    (hsign : (c.r3 ^^^ c.r1).msb = c.r1.msb)
    (h : signWord (signMagnitudePair c.r1 c.r0 - signMagnitudePair (c.r3 ^^^ c.r1) c.r2) = r) :
    Leads compareCode P (.at .dcmpSame c) (DoubleCompared P c₀ r) := by
  have hx := signMagnitudePair_cases c.r1 c.r0
  have hy := signMagnitudePair_cases (c.r3 ^^^ c.r1) c.r2
  refine .block (.bcond (fun hpl => ?_) (fun hmi => .block ?_))
  · change (!(c.r3 ^^^ c.r1).msb) = true at hpl
    rw [Bool.not_eq_true'] at hpl
    rw [hpl] at hsign
    simp only [hpl, ← hsign, Bool.false_eq_true, true_and, false_and, or_false] at hx hy
    refine leads_dcmpCompare (c := { c with
      r3 := c.r3 ^^^ c.r1, flags := c.flags.ofResult (c.r3 ^^^ c.r1) }) hc ?_ ?_ ?_ <;>
      dsimp only <;> intro hcmp
    · exact hr6.trans ((signWord_of_pos (by omega)).symm.trans h)
    · exact (congrArg Neg.neg hr6).trans ((signWord_of_neg (by omega)).symm.trans h)
    · exact (signWord_of_zero (by omega)).symm.trans h
  · change (!(c.r3 ^^^ c.r1).msb) = false at hmi
    rw [Bool.not_eq_false'] at hmi
    rw [hmi] at hsign
    simp only [hmi, ← hsign, Bool.true_eq_false, true_and, false_and, false_or] at hx hy
    -- the signed comparison of two negative patterns is the other way round
    refine leads_dcmpCompare (c := { c with
      r3 := c.r3 ^^^ c.r1, r6 := -c.r6, flags := .ofSub 0 c.r6 }) hc ?_ ?_ ?_ <;>
      dsimp only <;> intro hcmp
    · exact (congrArg Neg.neg hr6).trans ((signWord_of_neg (by omega)).symm.trans h)
    · exact (BitVec.neg_neg.trans hr6).trans ((signWord_of_pos (by omega)).symm.trans h)
    · exact (signWord_of_zero (by omega)).symm.trans h

/-- The sign of the first pattern decides. -/
theorem leads_dcmpNonzero (hc : Framed [r4, r6, r7, lr] c₀ c₀.mem c) (hr6 : c.r6 = 1)
    (hpos : 0 ≤ c.r1.toInt → 1 = r) (hneg : c.r1.toInt < 0 → -1 = r) :
    Leads compareCode P (.at .dcmpNonzero c) (DoubleCompared P c₀ r) := by
  refine .block (.bcond (fun h => ?_) (fun h => ?_))
  · change Cond.ge.holds (.ofSub c.r1 0) = true at h
    rw [Cond.holds_ge_ofSub, decide_eq_true_eq] at h
    exact leads_dcmpReturn hc (hr6.trans (hpos h))
  · change Cond.ge.holds (.ofSub c.r1 0) = false at h
    rw [Cond.holds_ge_ofSub, decide_eq_false_iff_not, not_le] at h
    exact leads_dcmpLess hc ((congrArg Neg.neg hr6).trans (hneg h))

/-- The bits of two patterns other than their signs. -/
def belowSigns (c : Cpu) : Word :=
  (c.r3 ||| c.r1) + (c.r3 ||| c.r1) ||| c.r0 ||| c.r2

/-- Two patterns with opposite signs, of which `r3` has the difference of the upper words. -/
theorem leads_dcmpOpposite (hc : Framed [r4, r6, r7, lr] c₀ c₀.mem c) (hr6 : c.r6 = 1)
    (hzero : belowSigns c = 0 → 0 = r) (hpos : belowSigns c ≠ 0 → 0 ≤ c.r1.toInt → 1 = r)
    (hneg : belowSigns c ≠ 0 → c.r1.toInt < 0 → -1 = r) :
    Leads compareCode P (.at .dcmpOpposite c) (DoubleCompared P c₀ r) := by
  refine .block ?_
  dsimp [compareCode]
  refine .ite (fun h => ?_) (fun h => ?_)
  · exact leads_dcmpEqual hc (hzero (beq_iff_eq.mp h))
  · have hnot : belowSigns c ≠ 0 := fun hzero => h (beq_iff_eq.mpr hzero)
    exact leads_dcmpNonzero hc hr6 (hpos hnot) (hneg hnot)

/-- `mufp_dcmp_fast` after its `push`. -/
theorem leads_dcmpFastEntry (hc : Framed [r4, r6, r7, lr] c₀ c₀.mem c)
    (h : signWord (signMagnitudePair c.r1 c.r0 - signMagnitudePair c.r3 c.r2) = r) :
    Leads compareCode P (.at .dcmpFastEntry c) (DoubleCompared P c₀ r) := by
  have hback : c.r3 ^^^ c.r1 ^^^ c.r1 = c.r3 := by
    rw [BitVec.xor_assoc, BitVec.xor_self, BitVec.xor_zero]
  refine .block (.bcond (fun hsign => ?_) (fun hsign => ?_))
  · change (c.r3 ^^^ c.r1).msb = true at hsign
    rw [BitVec.msb_xor, bne_iff_ne] at hsign
    have hor : ((c.r3 ^^^ c.r1 ||| c.r1) + (c.r3 ^^^ c.r1 ||| c.r1) ||| c.r0 ||| c.r2) = 0 ↔
        signMagnitudePair c.r1 c.r0 = 0 ∧ signMagnitudePair c.r3 c.r2 = 0 := by
      rw [xor_or_self, or_eq_zero_iff, or_eq_zero_iff, or_add_self_eq_zero,
        signMagnitudePair_eq_zero_iff, signMagnitudePair_eq_zero_iff]
      tauto
    have hx := signMagnitudePair_cases c.r1 c.r0
    have hy := signMagnitudePair_cases c.r3 c.r2
    refine leads_dcmpOpposite (c := { c with
      r3 := c.r3 ^^^ c.r1, r6 := 1, flags := (c.flags.ofResult 1).ofResult (c.r3 ^^^ c.r1) })
      hc rfl ?_ ?_ ?_ <;> dsimp only [belowSigns] <;> intro hz
    · obtain ⟨hzx, hzy⟩ := hor.mp hz
      exact (signWord_of_zero (by omega)).symm.trans h
    · intro hge
      have hnot := mt hor.mpr hz
      rcases hx with ⟨hmx, hx, hnonneg, -⟩ | ⟨-, -, -, -, hneg⟩
      · rcases hy with ⟨hmy, -⟩ | ⟨-, hy, -, hbound, -⟩
        · exact absurd (hmy.trans hmx.symm) hsign
        · exact (signWord_of_pos (by omega)).symm.trans h
      · omega
    · intro hlt
      have hnot := mt hor.mpr hz
      rcases hx with ⟨-, -, -, hnonneg⟩ | ⟨hmx, hx, -, hbound, -⟩
      · omega
      · rcases hy with ⟨-, hy, hpos, -⟩ | ⟨hmy, -⟩
        · exact (signWord_of_neg (by omega)).symm.trans h
        · exact absurd (hmy.trans hmx.symm) hsign
  · change (c.r3 ^^^ c.r1).msb = false at hsign
    rw [BitVec.msb_xor, bne_eq_false_iff_eq] at hsign
    refine leads_dcmpSame (c := { c with
      r3 := c.r3 ^^^ c.r1, r6 := 1, flags := (c.flags.ofResult 1).ofResult (c.r3 ^^^ c.r1) })
      hc rfl (by dsimp only; rw [hback, hsign]) ?_
    change signWord (signMagnitudePair c.r1 c.r0 -
      signMagnitudePair (c.r3 ^^^ c.r1 ^^^ c.r1) c.r2) = r
    rwa [hback]

/-- The upper and the lower word of a pattern, whose fraction is cleared if the exponent field is
zero or all ones. -/
def clearUpper (hi : Word) : Word :=
  if hi <<< 1 >>> 21 = 0 ∨ hi <<< 1 >>> 21 = 0x7ff then hi >>> 20 <<< 20 else hi

def clearLower (hi lo : Word) : Word :=
  if hi <<< 1 >>> 21 = 0 ∨ hi <<< 1 >>> 21 = 0x7ff then 0 else lo

section Clearing

variable {Q : Config CompareLabel → Prop}

theorem leads_dcmpClearX
    (h : ∀ flags, Leads compareCode P
      (.at .dcmpY { c with r0 := 0, r1 := c.r1 >>> 20 <<< 20, flags := flags }) Q) :
    Leads compareCode P (.at .dcmpClearX c) Q := by
  refine .block ?_
  dsimp [compareCode]
  exact h _

theorem leads_dcmpInfX (hr7 : c.r7 = 0x7ff)
    (hclear : c.r4 = 0x7ff → ∀ flags, Leads compareCode P
      (.at .dcmpClearX { c with flags := flags }) Q)
    (hkeep : c.r4 ≠ 0x7ff → ∀ flags, Leads compareCode P
      (.at .dcmpY { c with flags := flags }) Q) :
    Leads compareCode P (.at .dcmpInfX c) Q := by
  rw [← hr7] at hclear hkeep
  refine .block (.bcond (fun h => hkeep ?_ _) (fun h => hclear ?_ _))
  · change (!decide (c.r4 = c.r7)) = true at h
    simpa using h
  · change (!decide (c.r4 = c.r7)) = false at h
    simpa using h

/-- The first operand is cleared. -/
theorem leads_dcmpCombined
    (h : ∀ c', Framed [r4, r6, r7, lr] c c.mem c' → c'.r0 = clearLower c.r1 c.r0 →
      c'.r1 = clearUpper c.r1 → c'.r2 = c.r2 → c'.r3 = c.r3 → c'.r7 = 0x7ff →
      Leads compareCode P (.at .dcmpY c') Q) :
    Leads compareCode P (.at .dcmpCombined c) Q := by
  refine .push rfl (by decide) fun c₁ hc₁ hregs _ => ?_
  have hr0 : c₁.r0 = c.r0 := hregs .r0 (by decide)
  have hr1 : c₁.r1 = c.r1 := hregs .r1 (by decide)
  have hr2 : c₁.r2 = c.r2 := hregs .r2 (by decide)
  have hr3 : c₁.r3 = c.r3 := hregs .r3 (by decide)
  rw [← hr0, ← hr1, ← hr2, ← hr3] at h
  dsimp
  refine .ite (fun hzero => ?_) (fun hzero => ?_)
  · rw [clearLower, clearUpper, if_pos (.inl (beq_iff_eq.mp hzero)),
      if_pos (.inl (beq_iff_eq.mp hzero))] at h
    exact leads_dcmpClearX (fun _ => h _ hc₁ rfl rfl rfl rfl rfl)
  · have hzero : c₁.r1 <<< 1 >>> 21 ≠ 0 := fun h => hzero (beq_iff_eq.mpr h)
    refine leads_dcmpInfX rfl (fun hinf _ => leads_dcmpClearX fun _ => ?_) (fun hinf _ => ?_)
    · rw [clearLower, clearUpper, if_pos (.inr hinf), if_pos (.inr hinf)] at h
      exact h _ hc₁ rfl rfl rfl rfl rfl
    · rw [clearLower, clearUpper, if_neg (not_or.mpr ⟨hzero, hinf⟩),
        if_neg (not_or.mpr ⟨hzero, hinf⟩)] at h
      exact h _ hc₁ rfl rfl rfl rfl rfl

theorem leads_dcmpClearY
    (h : ∀ flags, Leads compareCode P
      (.at .dcmpFastEntry { c with r2 := 0, r3 := c.r3 >>> 20 <<< 20, flags := flags }) Q) :
    Leads compareCode P (.at .dcmpClearY c) Q := by
  refine .block ?_
  dsimp [compareCode]
  exact h _

theorem leads_dcmpInfY (hr7 : c.r7 = 0x7ff)
    (hclear : c.r4 = 0x7ff → ∀ flags, Leads compareCode P
      (.at .dcmpClearY { c with flags := flags }) Q)
    (hkeep : c.r4 ≠ 0x7ff → ∀ flags, Leads compareCode P
      (.at .dcmpFastEntry { c with flags := flags }) Q) :
    Leads compareCode P (.at .dcmpInfY c) Q := by
  rw [← hr7] at hclear hkeep
  refine .block (.bcond (fun h => hkeep ?_ _) (fun h => hclear ?_ _))
  · change (!decide (c.r4 = c.r7)) = true at h
    simpa using h
  · change (!decide (c.r4 = c.r7)) = false at h
    simpa using h

/-- The second operand is cleared. -/
theorem leads_dcmpY (hr7 : c.r7 = 0x7ff)
    (h : ∀ r4 flags, Leads compareCode P
      (.at .dcmpFastEntry { c with
        r2 := clearLower c.r3 c.r2
        r3 := clearUpper c.r3
        r4 := r4
        flags := flags }) Q) :
    Leads compareCode P (.at .dcmpY c) Q := by
  refine .block ?_
  dsimp [compareCode]
  refine .ite (fun hzero => ?_) (fun hzero => ?_)
  · rw [clearLower, clearUpper, if_pos (.inl (beq_iff_eq.mp hzero)),
      if_pos (.inl (beq_iff_eq.mp hzero))] at h
    exact leads_dcmpClearY (fun _ => h _ _)
  · have hzero : c.r3 <<< 1 >>> 21 ≠ 0 := fun h => hzero (beq_iff_eq.mpr h)
    refine leads_dcmpInfY hr7 (fun hinf _ => leads_dcmpClearY fun _ => ?_) (fun hinf _ => ?_)
    · rw [clearLower, clearUpper, if_pos (.inr hinf), if_pos (.inr hinf)] at h
      exact h _ _
    · rw [clearLower, clearUpper, if_neg (not_or.mpr ⟨hzero, hinf⟩),
        if_neg (not_or.mpr ⟨hzero, hinf⟩)] at h
      exact h _ _

end Clearing

/-- `mufp_dcmp_combined`. -/
theorem leads_dcmp_combined
    (h : signWord (signMagnitudePair (clearUpper c.r1) (clearLower c.r1 c.r0) -
      signMagnitudePair (clearUpper c.r3) (clearLower c.r3 c.r2)) = r) :
    Leads compareCode P (.at .dcmpCombined c) (DoubleCompared P c r) := by
  refine leads_dcmpCombined fun c' hc' hr0 hr1 hr2 hr3 hr7 => leads_dcmpY hr7 fun _ _ => ?_
  refine leads_dcmpFastEntry hc' ?_
  dsimp only
  rw [hr0, hr1, hr2, hr3, h]

/-- `mufp_dcmp_fast`. -/
theorem leads_dcmpFast
    (h : signWord (signMagnitudePair c.r1 c.r0 - signMagnitudePair c.r3 c.r2) = r) :
    Leads compareCode P (.at .dcmpFast c) (DoubleCompared P c r) := by
  refine .push rfl (by decide) fun c₁ hc₁ hregs _ => ?_
  have hr0 : c₁.r0 = c.r0 := hregs .r0 (by decide)
  have hr1 : c₁.r1 = c.r1 := hregs .r1 (by decide)
  have hr2 : c₁.r2 = c.r2 := hregs .r2 (by decide)
  have hr3 : c₁.r3 = c.r3 := hregs .r3 (by decide)
  rw [← hr0, ← hr1, ← hr2, ← hr3] at h
  exact leads_dcmpFastEntry hc₁ h

end Doubles

/-- The format of a double. -/
def double : FloatFormat := ⟨11, 52⟩

/-- The pattern in two words. -/
def doublePattern (hi lo : Word) : ℕ :=
  hi.toNat * 2 ^ 32 + lo.toNat

theorem exponent_double (hi lo : Word) :
    (hi <<< 1 >>> 21).toNat = double.expField (doublePattern hi lo) := by
  have hlo := lo.isLt
  rw [BitVec.toNat_ushiftRight, BitVec.toNat_shiftLeft, Nat.shiftRight_eq_div_pow,
    Nat.shiftLeft_eq]
  change _ = (hi.toNat * 2 ^ 32 + lo.toNat) / 2 ^ 52 % 2 ^ 11
  omega

/-- The number of a pattern in the order of the values. -/
theorem key_double (hi lo : Word) : double.key (doublePattern hi lo) =
    signMagnitudePair (clearUpper hi) (clearLower hi lo) := by
  have hexp := exponent_double hi lo
  have hhi := hi.isLt
  have hlo := lo.isLt
  have hcond : (hi <<< 1 >>> 21 = 0 ∨ hi <<< 1 >>> 21 = 0x7ff) ↔
      (double.expField (doublePattern hi lo) = 0 ∨
        double.expField (doublePattern hi lo) = double.maxExp) := by
    rw [BitVec.toNat_eq, BitVec.toNat_eq, hexp]
    rfl
  have hcleared : (hi >>> 20 <<< 20).toNat = hi.toNat / 2 ^ 20 * 2 ^ 20 := by
    rw [BitVec.toNat_shiftLeft, BitVec.toNat_ushiftRight, Nat.shiftRight_eq_div_pow,
      Nat.shiftLeft_eq]
    omega
  have habs : (clearUpper hi).toNat * 2 ^ 32 + (clearLower hi lo).toNat =
      hi.toNat / 2 ^ 31 * 2 ^ 63 + double.absKey (doublePattern hi lo) := by
    unfold clearUpper clearLower FloatFormat.absKey
    split_ifs with hx' hy' hy'
    · rw [hcleared]
      change _ + 0 = _ + (hi.toNat * 2 ^ 32 + lo.toNat) / 2 ^ 52 % 2 ^ 11 * 2 ^ 52
      omega
    · exact absurd (hcond.mp hx') hy'
    · exact absurd (hcond.mpr hy') hx'
    · change _ = _ + ((hi.toNat * 2 ^ 32 + lo.toNat) / 2 ^ 52 % 2 ^ 11 * 2 ^ 52 +
        (hi.toNat * 2 ^ 32 + lo.toNat) % 2 ^ 52)
      omega
  have hlt : double.absKey (doublePattern hi lo) < 2 ^ 63 := FloatFormat.absKey_lt
  have hclo := (clearLower hi lo).isLt
  have hneg : double.isNeg (doublePattern hi lo) = hi.msb := by
    rw [BitVec.msb_eq_decide, FloatFormat.isNeg, Nat.testBit_eq_decide_div_mod_eq]
    change decide ((hi.toNat * 2 ^ 32 + lo.toNat) / 2 ^ 63 % 2 = 1) = _
    rw [decide_eq_decide]
    omega
  rcases sign_cases (clearUpper hi) with ⟨h, -, hmsb⟩ | ⟨h, -, hmsb⟩ <;>
    rcases sign_cases hi with ⟨h', -, hmsb'⟩ | ⟨h', -, hmsb'⟩ <;>
    simp only [FloatFormat.key, signMagnitudePair, hneg, hmsb, hmsb', Bool.false_eq_true, if_false,
      if_true] <;>
    omega

/-! ## The order -/

/-- The bits that two shifts clear are clear. -/
theorem shift_back {x : Word} {k : ℕ} (h : x.toNat % 2 ^ k = 0) : x >>> k <<< k = x := by
  rw [BitVec.toNat_eq, BitVec.toNat_shiftLeft, BitVec.toNat_ushiftRight,
    Nat.shiftRight_eq_div_pow, Nat.shiftLeft_eq,
    Nat.div_mul_cancel (Nat.dvd_of_mod_eq_zero h), Nat.mod_eq_of_lt x.isLt]

theorem clearFraction_of_plain' {x : Word} (h : single.Plain x.toNat) : clearFraction x = x := by
  unfold clearFraction
  split_ifs with hexp
  · rw [BitVec.toNat_eq, BitVec.toNat_eq, exponent_single] at hexp
    exact shift_back (h hexp)
  · rfl

theorem clearPair_of_plain {hi lo : Word} (h : double.Plain (doublePattern hi lo)) :
    clearUpper hi = hi ∧ clearLower hi lo = lo := by
  unfold clearUpper clearLower
  split_ifs with hexp
  · rw [BitVec.toNat_eq, BitVec.toNat_eq, exponent_double] at hexp
    have hfrac : (hi.toNat * 2 ^ 32 + lo.toNat) % 2 ^ 52 = 0 := h hexp
    have hlo := lo.isLt
    have hupper : hi.toNat % 2 ^ 20 = 0 := by omega
    have hlower : lo.toNat = 0 := by omega
    exact ⟨shift_back hupper, (BitVec.eq_of_toNat_eq hlower).symm⟩
  · exact ⟨rfl, rfl⟩

/-- The result of a comparison of two values. -/
noncomputable def orderWord (a b : EReal) : Word :=
  if a < b then -1 else if a = b then 0 else 1

theorem orderWord_value {F : FloatFormat} (x y : ℕ) :
    orderWord (F.value x) (F.value y) = signWord (F.key x - F.key y) := by
  unfold orderWord
  split_ifs with hlt heq
  · rw [FloatFormat.value_lt_iff] at hlt
    rw [signWord_of_neg (by omega)]
  · rw [FloatFormat.value_eq_iff] at heq
    rw [signWord_of_zero (by omega)]
  · rw [FloatFormat.value_lt_iff] at hlt
    rw [FloatFormat.value_eq_iff] at heq
    rw [signWord_of_pos (by omega)]

theorem orderWord_swap (a b : EReal) : orderWord b a = -orderWord a b := by
  unfold orderWord
  rcases lt_trichotomy a b with h | rfl | h
  · rw [if_neg h.not_gt, if_neg h.ne', if_pos h]
    rfl
  · rw [if_neg (lt_irrefl _), if_pos rfl]
    rfl
  · rw [if_pos h, if_neg h.not_gt, if_neg h.ne']

theorem orderWord_nonpos_iff {a b : EReal} : (orderWord a b).toInt ≤ 0 ↔ a ≤ b := by
  unfold orderWord
  split_ifs with hlt heq
  · exact iff_of_true (by decide) hlt.le
  · exact iff_of_true (by decide) heq.le
  · exact iff_of_false (by decide) fun h => hlt (lt_of_le_of_ne h heq)

theorem value_negative_zero {F : FloatFormat} :
    F.value (2 ^ (F.expBits + F.fracBits)) = F.value 0 := by
  have hexp : F.expField (2 ^ (F.expBits + F.fracBits)) = 0 := by
    rw [FloatFormat.expField, Nat.pow_add, Nat.mul_div_cancel _ (Nat.two_pow_pos _), Nat.mod_self]
  have hexp' : F.expField 0 = 0 := by rw [FloatFormat.expField, Nat.zero_div, Nat.zero_mod]
  simp [FloatFormat.value_eq_iff, FloatFormat.key, FloatFormat.absKey, hexp, hexp']

/-- What a comparison answers, as a relation on the patterns of a format : a total preorder with
results of opposite signs for swapped operands, in which the two zeros are equal. -/
structure OrdersByValue (F : FloatFormat) (result : ℕ → ℕ → Word) : Prop where
  range (x y : ℕ) : result x y = -1 ∨ result x y = 0 ∨ result x y = 1
  lt_iff (x y : ℕ) : result x y = -1 ↔ F.value x < F.value y
  eq_iff (x y : ℕ) : result x y = 0 ↔ F.value x = F.value y
  gt_iff (x y : ℕ) : result x y = 1 ↔ F.value y < F.value x
  swap (x y : ℕ) : result y x = -result x y
  trans (x y z : ℕ) (hxy : (result x y).toInt ≤ 0) (hyz : (result y z).toInt ≤ 0) :
    (result x z).toInt ≤ 0
  zeros : result (2 ^ (F.expBits + F.fracBits)) 0 = 0

theorem ordersByValue (F : FloatFormat) :
    OrdersByValue F fun x y => orderWord (F.value x) (F.value y) where
  range x y := by
    unfold orderWord
    split_ifs
    · exact .inl rfl
    · exact .inr (.inl rfl)
    · exact .inr (.inr rfl)
  lt_iff x y := by
    unfold orderWord
    split_ifs with hlt heq
    · exact iff_of_true rfl hlt
    · exact iff_of_false (by decide) hlt
    · exact iff_of_false (by decide) hlt
  eq_iff x y := by
    unfold orderWord
    split_ifs with hlt heq
    · exact iff_of_false (by decide) hlt.ne
    · exact iff_of_true rfl heq
    · exact iff_of_false (by decide) heq
  gt_iff x y := by
    unfold orderWord
    split_ifs with hlt heq
    · exact iff_of_false (by decide) hlt.not_gt
    · exact iff_of_false (by decide) heq.not_gt
    · exact iff_of_true rfl (lt_of_le_of_ne (not_lt.mp hlt) (Ne.symm heq))
  swap x y := orderWord_swap _ _
  trans x y z hxy hyz :=
    orderWord_nonpos_iff.mpr ((orderWord_nonpos_iff.mp hxy).trans (orderWord_nonpos_iff.mp hyz))
  zeros := by
    simp [orderWord, value_negative_zero]

/-- The comparisons of floats and doubles are the orders of the values of their patterns, and for
patterns which have a value with all their bits so are the fast variants. -/
theorem compare_ordersByValue (P : Placement CompareLabel) :
    ∃ floatResult doubleResult : ℕ → ℕ → Word,
      OrdersByValue single floatResult ∧ OrdersByValue double doubleResult ∧
      ∀ c,
        Leads compareCode P (.at .fcmpCombined c)
          (FloatCompared P c (floatResult c.r0.toNat c.r1.toNat)) ∧
        Leads compareCode P (.at .dcmpCombined c)
          (DoubleCompared P c (doubleResult (doublePattern c.r1 c.r0) (doublePattern c.r3 c.r2))) ∧
        (single.Plain c.r0.toNat → single.Plain c.r1.toNat →
          Leads compareCode P (.at .fcmpFast c)
            (FloatCompared P c (floatResult c.r0.toNat c.r1.toNat))) ∧
        (double.Plain (doublePattern c.r1 c.r0) → double.Plain (doublePattern c.r3 c.r2) →
          Leads compareCode P (.at .dcmpFast c) (DoubleCompared P c
            (doubleResult (doublePattern c.r1 c.r0) (doublePattern c.r3 c.r2)))) := by
  refine ⟨_, _, ordersByValue single, ordersByValue double, fun c => ⟨?_, ?_, ?_, ?_⟩⟩
  · refine leads_fcmpCombined fun r2 flags => leads_fcmpY fun r2' flags' => ?_
    refine (leads_fcmpFast (r := orderWord (single.value c.r0.toNat) (single.value c.r1.toNat))
      ?_).mono ?_
    · rw [orderWord_value, key_single, key_single]
    · rintro _ ⟨r1, r2, flags, rfl⟩
      exact ⟨r1, r2, flags, rfl⟩
  · refine leads_dcmp_combined ?_
    rw [orderWord_value, key_double, key_double]
  · intro hx hy
    refine leads_fcmpFast ?_
    rw [orderWord_value, key_single, key_single, clearFraction_of_plain' hx,
      clearFraction_of_plain' hy]
  · intro hx hy
    obtain ⟨hx1, hx0⟩ := clearPair_of_plain hx
    obtain ⟨hy1, hy0⟩ := clearPair_of_plain hy
    refine leads_dcmpFast ?_
    rw [orderWord_value, key_double, key_double, hx1, hx0, hy1, hy0]

/-- The labels after one another. -/
def comparePlacement : Placement CompareLabel :=
  .ofLabels [.fcmpCombined, .fcmpInfX, .fcmpClearX, .fcmpY, .fcmpInfY, .fcmpClearY, .fcmpFast,
    .fcmpSame, .fcmpNegative, .fcmpCompare, .fcmpNotGreater, .fcmpEqual, .fcmpLess, .fcmpReturn,
    .fcmpOpposite, .fcmpNonzero, .dcmpFast, .dcmpCombined, .dcmpInfX, .dcmpClearX, .dcmpY,
    .dcmpInfY, .dcmpClearY, .dcmpFastEntry, .dcmpSame, .dcmpNegative, .dcmpCompare, .dcmpLow,
    .dcmpNotHigher, .dcmpEqual, .dcmpHigh, .dcmpLess, .dcmpReturn, .dcmpOpposite, .dcmpNonzero]
    (by intro l; cases l <;> decide) (by decide)

/-- A call with 1.0 and -2.0. -/
def compareCpu : Cpu :=
  { Cpu.cleared 0x20041f00 0x10000101 fun _ => 0 with r0 := 0x3f800000, r1 := 0xc0000000 }

theorem compare_ordersByValue_one : ∃ result : ℕ → ℕ → Word, OrdersByValue single result ∧
    Leads compareCode comparePlacement (.at .fcmpFast compareCpu)
      (FloatCompared comparePlacement compareCpu (result 0x3f800000 0xc0000000)) := by
  obtain ⟨result, _, hresult, -, hruns⟩ := compare_ordersByValue comparePlacement
  exact ⟨result, hresult, (hruns compareCpu).2.2.1 (by decide) (by decide)⟩

end PicoBootrom
