import PicoBootrom.FloatCompare
import PicoBootrom.FloatSum

/-!
# Adding floats

`mufp_fadd` takes both patterns apart into a signed significand and an exponent, shifts the one with
the smaller exponent down, and keeps the bits that are shifted out in another word, so the sum of
two words is exact. An exponent that is less by 30 or more makes the number too small to be seen.
The sum is made positive, shifted up to 25 bits, of which the lowest is the half that is rounded,
and packed. `mufp_fsub` flips the sign of its second operand.

Patterns whose exponent field is zero or all ones are not told apart from others after their
exponents have been changed : zeros are added as very small numbers, and infinities as very large
ones, with an exponent that is less by one if the sign is set.
-/

namespace PicoBootrom

open Thumb Thumb.Reg

-- states are compared by unfolding, which has to stop at the shifts
attribute [local irreducible] BitVec.shiftLeft BitVec.ushiftRight BitVec.sshiftRight

/-! ## The source -/

/-- The labels of `mufp_fsub` and `mufp_fadd`. Names without a label in the source are those of the
instruction after a branch. -/
inductive FaddLabel
  | fsub | fadd | faXeNonzero | faXe | faYeNonzero | faYe | faXgty | faAlignY | faYmgtx | faXmgty
  | faYgtx | faAlignX | fa0 | fa1 | faNegate | faCarry | fa8 | fa3 | fa2 | faRound | fa4 | faPack
  | faEnd | fa9 | fa5 | fa6 | faUnderflow | fa7 | faXe0 | faXe255 | faYe0 | faYe255
  deriving DecidableEq, Repr

/-- The code of `mufp_fsub` and `mufp_fadd`. -/
def faddCode : FaddLabel → Block FaddLabel
  | .fsub => ⟨[ldrLit r2 0x80000000, eors r1 r2], .b .fadd⟩
  | .fadd => ⟨[push [r4, r5, r6, lr], asrs r4 r0 31, lsls r2 r0 1, lsrs r2 r2 24],
      .bcond .eq .faXe0 .faXeNonzero⟩
  | .faXeNonzero => ⟨[cmp r2 255], .bcond .eq .faXe255 .faXe⟩
  | .faXe => ⟨[asrs r5 r1 31, lsls r3 r1 1, lsrs r3 r3 24], .bcond .eq .faYe0 .faYeNonzero⟩
  | .faYeNonzero => ⟨[cmp r3 255], .bcond .eq .faYe255 .faYe⟩
  | .faYe => ⟨[
      ldrLit r6 0x007fffff,
      ands r0 r6,
      ands r1 r6,
      adds r6 r6 1,
      orrs r0 r6,
      orrs r1 r6,
      eors r0 r4,
      eors r1 r5,
      subs r0 r0 r4,
      subs r1 r1 r5,
      subs r5 r3 r2,
      subs r4 r2 r3],
      .bcond .mi .faYgtx .faXgty⟩
  | .faXgty => ⟨[cmp r4 30], .bcond .ge .faXmgty .faAlignY⟩
  | .faAlignY => ⟨[adds r5 r5 32, movs r3 r2, movs r2 r1, lsls r2 r2 r5, asrs r1 r1 r4], .b .fa0⟩
  | .faYmgtx => ⟨[movs r2 0, movs r0 r1], .b .fa1⟩
  | .faXmgty => ⟨[movs r3 r2, movs r2 0], .b .fa1⟩
  | .faYgtx => ⟨[cmp r5 30], .bcond .ge .faYmgtx .faAlignX⟩
  | .faAlignX => ⟨[adds r4 r4 32, movs r2 r0, lsls r2 r2 r4, asrs r0 r0 r5], .b .fa0⟩
  | .fa0 => ⟨[adds r0 r0 r1], .bcond .eq .fa9 .fa1⟩
  | .fa1 => ⟨[lsrs r1 r0 31], .bcond .eq .fa8 .faNegate⟩
  | .faNegate => ⟨[mvns r0 r0, rsbs r2 r2], .bcond .ne .fa8 .faCarry⟩
  | .faCarry => ⟨[adds r0 r0 1], .b .fa8⟩
  | .fa8 => ⟨[adds r6 r6 r6, cmp r0 r6], .bcond .hs .fa2 .fa3⟩
  | .fa3 => ⟨[adds r2 r2 r2, adcs r0 r0, subs r3 r3 1, cmp r0 r6], .bcond .lo .fa3 .fa2⟩
  | .fa2 => ⟨[lsrs r0 r0 1], .bcond .cc .fa4 .faRound⟩
  | .faRound => ⟨[adds r0 r0 1, cmp r2 0], .bcond .eq .fa5 .fa4⟩
  | .fa4 => ⟨[cmp r3 254], .bcond .hs .fa6 .faPack⟩
  | .faPack => ⟨[lsls r1 r1 31, add r0 r1, lsls r3 r3 23, add r0 r3], .b .faEnd⟩
  | .faEnd => ⟨[], .popPc [r4, r5, r6]⟩
  | .fa9 => ⟨[cmp r2 0], .bcond .eq .faEnd .fa1⟩
  | .fa5 => ⟨[lsrs r0 r0 1, lsls r0 r0 1], .b .fa4⟩
  | .fa6 => ⟨[], .bcond .ge .fa7 .faUnderflow⟩
  | .faUnderflow => ⟨[lsls r0 r1 31], .popPc [r4, r5, r6]⟩
  | .fa7 => ⟨[lsls r0 r1 8, adds r0 r0 255, lsls r0 r0 23], .popPc [r4, r5, r6]⟩
  | .faXe0 => ⟨[subs r2 r2 32, adds r2 r2 r4], .b .faXe⟩
  | .faXe255 => ⟨[lsls r2 r2 8, add r2 r4], .b .faXe⟩
  | .faYe0 => ⟨[subs r3 r3 32, adds r3 r3 r5], .b .faYe⟩
  | .faYe255 => ⟨[lsls r3 r3 8, add r3 r5], .b .faYe⟩

variable {P : Placement FaddLabel}

/-- A result that has been returned. -/
def FloatReturned (P : Placement FaddLabel) (c : Cpu) (r : ℕ) (y : Config FaddLabel) : Prop :=
  ∃ c', y = P.jump c.lr c' ∧ c'.r0.toNat = r ∧ Kept 16 c c'

section Packing

variable {c₀ c : Cpu} {r : ℕ} {neg : Bool} {e s : ℤ}

/-- The `pop` at the end. -/
theorem floatReturned_popPc (hc : Framed [r4, r5, r6, lr] c₀ c₀.mem c) (h : c.r0.toNat = r) :
    FloatReturned P c₀ r (Exit.next P c (.popPc [r4, r5, r6])) := by
  obtain ⟨c', hnext, hkept, hregs, hmem⟩ :=
    (show Framed ([r4, r5, r6] ++ [lr]) c₀ c₀.mem c from hc).popPc P
  refine ⟨c', hnext, ?_, { hkept with
    mem := fun a ha => (congrFun hmem a).trans (hc.outside a ha) }⟩
  rw [← h]
  exact congrArg _ (hregs .r0 (by decide) (by decide))

theorem leads_faEnd (hc : Framed [r4, r5, r6, lr] c₀ c₀.mem c) (h : c.r0.toNat = r) :
    Leads faddCode P (.at .faEnd c) (FloatReturned P c₀ r) :=
  .block (.now (floatReturned_popPc hc h))

theorem signed_single (neg : Bool) (a : ℕ) :
    single.signed neg a = neg.toNat * 2 ^ 31 + a := by
  cases neg
  · exact (Nat.zero_mul _).symm ▸ (Nat.zero_add a).symm
  · rfl

theorem leads_faUnderflow (hc : Framed [r4, r5, r6, lr] c₀ c₀.mem c)
    (hsign : c.r1.toNat = neg.toNat) :
    Leads faddCode P (.at .faUnderflow c) (FloatReturned P c₀ (single.signed neg 0)) := by
  have hneg : neg.toNat ≤ 1 := neg.toNat_le
  refine .block (.now (floatReturned_popPc hc ?_))
  change (c.r1 <<< 31).toNat = _
  rw [BitVec.toNat_shiftLeft, Nat.shiftLeft_eq, hsign, signed_single]
  omega

theorem leads_fa7 (hc : Framed [r4, r5, r6, lr] c₀ c₀.mem c) (hsign : c.r1.toNat = neg.toNat) :
    Leads faddCode P (.at .fa7 c) (FloatReturned P c₀ (single.signed neg single.infinity)) := by
  have hneg : neg.toNat ≤ 1 := neg.toNat_le
  refine .block (.now (floatReturned_popPc hc ?_))
  change ((c.r1 <<< 8 + 255) <<< 23).toNat = _
  rw [BitVec.toNat_shiftLeft, Nat.shiftLeft_eq, BitVec.toNat_add, BitVec.toNat_shiftLeft,
    Nat.shiftLeft_eq, hsign, signed_single]
  change ((neg.toNat * 2 ^ 8 % 2 ^ 32 + 255) % 2 ^ 32 * 2 ^ 23) % 2 ^ 32 =
    neg.toNat * 2 ^ 31 + 255 * 2 ^ 23
  omega

/-- The sign and the exponent are put to the significand. -/
theorem leads_fa4 (hc : Framed [r4, r5, r6, lr] c₀ c₀.mem c) (hsign : c.r1.toNat = neg.toNat)
    (hexp : c.r3.toInt = e - 1) (hsig : (c.r0.toNat : ℤ) = s) (hlow : 2 ^ 23 ≤ s)
    (hhigh : s ≤ 2 * 2 ^ 23) :
    Leads faddCode P (.at .fa4 c)
      (FloatReturned P c₀ (single.signed neg (single.packAbs e s))) := by
  have hr3 := sign_cases c.r3
  have hneg : neg.toNat ≤ 1 := neg.toNat_le
  have hmax : (single.maxExp : ℤ) = 255 := rfl
  have h254 : (254 : BitVec 32).toInt = 254 := rfl
  refine .block (.bcond (fun h => .block (.bcond (fun h' => ?_) (fun h' => ?_)))
    (fun h => .block (leads_faEnd hc ?_)))
  · -- the exponent is too large
    change Cond.ge.holds (.ofSub c.r3 254) = true at h'
    rw [Cond.holds_ge_ofSub, decide_eq_true_eq, h254] at h'
    rw [FloatFormat.packAbs, hmax, if_neg (by omega), if_pos (by omega)]
    exact leads_fa7 hc hsign
  · -- an exponent that is negative is large as an unsigned number
    change decide ((254 : BitVec 32) ≤ c.r3) = true at h
    change Cond.ge.holds (.ofSub c.r3 254) = false at h'
    rw [decide_eq_true_eq, BitVec.le_def] at h
    change 254 ≤ c.r3.toNat at h
    rw [Cond.holds_ge_ofSub, decide_eq_false_iff_not, h254] at h'
    rw [FloatFormat.packAbs, hmax, if_pos (by omega)]
    exact leads_faUnderflow hc hsign
  · change decide ((254 : BitVec 32) ≤ c.r3) = false at h
    rw [decide_eq_false_iff_not, BitVec.le_def] at h
    change ¬254 ≤ c.r3.toNat at h
    change (c.r0 + c.r1 <<< 31 + c.r3 <<< 23).toNat = _
    rw [signed_single, FloatFormat.packAbs, hmax, if_neg (by omega), if_neg (by omega),
      BitVec.toNat_add, BitVec.toNat_add, BitVec.toNat_shiftLeft, BitVec.toNat_shiftLeft,
      Nat.shiftLeft_eq, Nat.shiftLeft_eq, hsign]
    change _ = neg.toNat * 2 ^ 31 + ((e - 1) * 2 ^ 23 + s).toNat
    omega

/-- The even one of two significands. -/
theorem leads_fa5 (hc : Framed [r4, r5, r6, lr] c₀ c₀.mem c) (hsign : c.r1.toNat = neg.toNat)
    (hexp : c.r3.toInt = e - 1) (hsig : (c.r0.toNat / 2 * 2 : ℤ) = s) (hlow : 2 ^ 23 ≤ s)
    (hhigh : s ≤ 2 * 2 ^ 23) :
    Leads faddCode P (.at .fa5 c)
      (FloatReturned P c₀ (single.signed neg (single.packAbs e s))) := by
  refine .block (leads_fa4 hc hsign hexp ?_ hlow hhigh)
  change ((c.r0 >>> 1 <<< 1).toNat : ℤ) = s
  have hr0 := c.r0.isLt
  rw [BitVec.toNat_shiftLeft, BitVec.toNat_ushiftRight, Nat.shiftLeft_eq,
    Nat.shiftRight_eq_div_pow]
  omega

/-- The bit below the significand is rounded, with the bits in `r2` below it. -/
theorem leads_fa2 (hc : Framed [r4, r5, r6, lr] c₀ c₀.mem c) (hsign : c.r1.toNat = neg.toNat)
    (hexp : c.r3.toInt = e - 1) (hlow : 2 ^ 24 ≤ c.r0.toNat) (hhigh : c.r0.toNat < 2 ^ 25) :
    Leads faddCode P (.at .fa2 c) (FloatReturned P c₀ (single.signed neg
      (single.packAbs e (roundEven ((c.r0.toNat * 2 ^ 32 + c.r2.toNat : ℕ) / (2 ^ 33 : ℕ)))))) := by
  obtain ⟨hdown, hup⟩ := roundEven_natCast_div (a := c.r0.toNat / 2) c.r2.isLt
  have hbit : c.r0.getLsbD 0 = decide (c.r0.toNat % 2 = 1) := by
    rw [BitVec.getLsbD, Nat.testBit_zero]
  have hshift : (c.r0 >>> 1).toNat = c.r0.toNat / 2 := by
    rw [BitVec.toNat_ushiftRight, Nat.shiftRight_eq_div_pow, Nat.pow_one]
  have hinc : (c.r0 >>> 1 + 1).toNat = c.r0.toNat / 2 + 1 := by
    rw [BitVec.toNat_add, hshift]
    change (c.r0.toNat / 2 + 1) % 2 ^ 32 = _
    omega
  refine .block (.bcond (fun h => ?_) (fun h => .block (.bcond (fun h' => ?_) (fun h' => ?_))))
  · change (!c.r0.getLsbD 0) = true at h
    rw [hbit, Bool.not_eq_true', decide_eq_false_iff_not] at h
    rw [show c.r0.toNat * 2 ^ 32 + c.r2.toNat = c.r0.toNat / 2 * (2 * 2 ^ 32) + c.r2.toNat by omega,
      show 2 ^ 33 = 2 * 2 ^ 32 from rfl, hdown]
    exact leads_fa4 hc hsign hexp (congrArg _ hshift) (by omega) (by omega)
  all_goals
    change (!c.r0.getLsbD 0) = false at h
    rw [hbit, Bool.not_eq_false', decide_eq_true_eq] at h
    rw [show c.r0.toNat * 2 ^ 32 + c.r2.toNat =
      c.r0.toNat / 2 * (2 * 2 ^ 32) + 2 ^ 32 + c.r2.toNat by omega,
      show 2 ^ 33 = 2 * 2 ^ 32 from rfl, hup]
  · change decide (c.r2 = 0) = true at h'
    rw [decide_eq_true_eq] at h'
    have hzero : c.r2.toNat = 0 := congrArg BitVec.toNat h'
    rw [if_pos hzero]
    refine leads_fa5 hc hsign hexp ?_ (by omega) (by omega)
    change ((c.r0 >>> 1 + 1).toNat / 2 * 2 : ℤ) = _
    rw [hinc]
    omega
  · change decide (c.r2 = 0) = false at h'
    rw [decide_eq_false_iff_not] at h'
    have hzero : ¬c.r2.toNat = 0 := fun h => h' (BitVec.eq_of_toNat_eq h)
    rw [if_neg hzero]
    exact leads_fa4 hc hsign hexp (congrArg _ hinc) (by omega) (by omega)

/-- A difference that does not wrap around. -/
theorem toInt_sub_of_bounds {x y : Word} (hlow : -2 ^ 31 ≤ x.toInt - y.toInt)
    (hhigh : x.toInt - y.toInt < 2 ^ 31) : (x - y).toInt = x.toInt - y.toInt := by
  rw [BitVec.toInt_sub]
  exact Int.bmod_eq_of_le hlow hhigh

theorem toInt_add_of_bounds {x y : Word} (hlow : -2 ^ 31 ≤ x.toInt + y.toInt)
    (hhigh : x.toInt + y.toInt < 2 ^ 31) : (x + y).toInt = x.toInt + y.toInt := by
  rw [BitVec.toInt_add]
  exact Int.bmod_eq_of_le hlow hhigh

theorem toNat_carryWord (b : Bool) : ((BitVec.ofBool b).setWidth 32).toNat = b.toNat := by
  cases b <;> rfl

/-- Two words are doubled, as long as nothing is shifted out. -/
theorem toNat_double (hi lo : Word) (h : hi.toNat < 2 ^ 31) :
    (hi + hi + (BitVec.ofBool (Flags.ofAdd lo lo).c).setWidth 32).toNat * 2 ^ 32 +
      (lo + lo).toNat = 2 * (hi.toNat * 2 ^ 32 + lo.toNat) := by
  have hlo := lo.isLt
  have hcarry : (Flags.ofAdd lo lo).c.toNat = (lo.toNat + lo.toNat) / 2 ^ 32 := by
    change (decide (2 ^ 32 ≤ lo.toNat + lo.toNat)).toNat = _
    by_cases hle : 2 ^ 32 ≤ lo.toNat + lo.toNat
    · rw [decide_eq_true hle, Bool.toNat_true]
      omega
    · rw [decide_eq_false hle, Bool.toNat_false]
      omega
  rw [BitVec.toNat_add, BitVec.toNat_add, BitVec.toNat_add, toNat_carryWord, hcarry]
  omega

/-- The state of the normalisation : a positive number with the significand `v`, that stays the
same. -/
structure Normalising (c₀ : Cpu) (neg : Bool) (q : ℚ) (v : ℕ) (c : Cpu) (e : ℤ) : Prop where
  framed : Framed [r4, r5, r6, lr] c₀ c₀.mem c
  sign : c.r1.toNat = neg.toNat
  exp : c.r3.toInt = e - 1
  significand : v = c.r0.toNat * 2 ^ 32 + c.r2.toNat
  pos : 0 < v
  lt : v < 2 ^ 57
  scaled : q = single.scaled (v / (2 ^ 33 : ℕ)) e
  /-- The exponent does not wrap around. -/
  range : -2 ^ 10 ≤ e + Nat.log 2 v ∧ e ≤ 2 ^ 20

variable {q : ℚ} {v : ℕ}

theorem Normalising.leads_fa2 (h : Normalising c₀ neg q v c e) (hlow : 2 ^ 24 ≤ c.r0.toNat) :
    Leads faddCode P (.at .fa2 c) (FloatReturned P c₀ (single.signed neg (single.absPacked q))) := by
  have hsig := h.significand
  have hlt := h.lt
  have hv : (2 : ℚ) ^ 56 ≤ v := by exact_mod_cast (show 2 ^ 56 ≤ v by omega)
  have hv' : (v : ℚ) < 2 ^ 57 := by exact_mod_cast hlt
  have hlow' : (2 : ℚ) ^ single.fracBits ≤ v / (2 ^ 33 : ℕ) := by
    rw [le_div_iff₀ (by norm_num)]
    change (2 : ℚ) ^ 23 * (2 ^ 33 : ℕ) ≤ v
    norm_num at hv ⊢
    exact hv
  have hhigh' : (v : ℚ) / (2 ^ 33 : ℕ) < 2 ^ (single.fracBits + 1) := by
    rw [div_lt_iff₀ (by norm_num)]
    change (v : ℚ) < 2 ^ 24 * (2 ^ 33 : ℕ)
    norm_num at hv' ⊢
    exact hv'
  rw [h.scaled, FloatFormat.absPacked_eq hlow' hhigh', hsig]
  exact PicoBootrom.leads_fa2 h.framed h.sign h.exp hlow (by omega)

/-- One place of the normalisation. -/
theorem Normalising.double (h : Normalising c₀ neg q v c e) (hlt : c.r0.toNat < 2 ^ 24)
    (flags : Flags) :
    Normalising c₀ neg q (2 * v) { c with
      r0 := c.r0 + c.r0 + (BitVec.ofBool (Flags.ofAdd c.r2 c.r2).c).setWidth 32
      r2 := c.r2 + c.r2
      r3 := c.r3 - 1
      flags := flags } (e - 1) where
  framed := h.framed
  sign := h.sign
  exp := by
    have hlog : Nat.log 2 v < 57 := Nat.log_lt_of_lt_pow h.pos.ne' h.lt
    have hrange := h.range
    have hr3 := h.exp
    have hone : (1 : Word).toInt = 1 := rfl
    change (c.r3 - 1).toInt = _
    rw [toInt_sub_of_bounds (by omega) (by omega)]
    omega
  significand := by
    rw [h.significand]
    exact (toNat_double c.r0 c.r2 (by omega)).symm
  pos := by
    have := h.pos
    omega
  lt := by
    have := h.significand
    have := c.r2.isLt
    omega
  scaled := by
    have hscaled := FloatFormat.scaled_add (F := single) (v / (2 ^ 33 : ℕ)) (e - 1) 1
    rw [Nat.cast_one, sub_add_cancel, pow_one] at hscaled
    rw [h.scaled, hscaled]
    congr 1
    push_cast
    ring
  range := by
    have hlog : Nat.log 2 (2 * v) = Nat.log 2 v + 1 := by
      rw [Nat.mul_comm, Nat.log_mul_base Nat.one_lt_two h.pos.ne']
    have := h.range
    omega

/-- The normalisation loop. -/
theorem Normalising.leads_fa3 (h : Normalising c₀ neg q v c e) (hr6 : c.r6 = 0x01000000)
    (hlt : c.r0.toNat < 2 ^ 24) :
    Leads faddCode P (.at .fa3 c) (FloatReturned P c₀ (single.signed neg (single.absPacked q))) := by
  refine .loop (fun v x => ∃ c e, x = .at .fa3 c ∧ Normalising c₀ neg q v c e ∧
    c.r6 = 0x01000000 ∧ c.r0.toNat < 2 ^ 24) (fun v => 2 ^ 57 - v) ?_ ⟨c, e, rfl, h, hr6, hlt⟩
  rintro v x ⟨c, e, rfl, h, hr6, hlt⟩
  have hdouble := h.double hlt
  have hpos := h.pos
  have hv := h.lt
  refine .block (.bcond (fun hlo => .now (.inr ?_)) (fun hlo => .mono ?_ fun _ => .inl))
  · change (!decide (c.r6 ≤ _)) = true at hlo
    rw [hr6, Bool.not_eq_true', decide_eq_false_iff_not, BitVec.not_le, BitVec.lt_def] at hlo
    exact ⟨2 * v, by omega, _, _, rfl, hdouble _, hr6, hlo⟩
  · change (!decide (c.r6 ≤ _)) = false at hlo
    rw [hr6, Bool.not_eq_false', decide_eq_true_eq, BitVec.le_def] at hlo
    exact (hdouble _).leads_fa2 hlo

/-- A positive number is normalised and packed. -/
theorem Normalising.leads_fa8 (h : Normalising c₀ neg q v c e) (hr6 : c.r6 = 0x00800000) :
    Leads faddCode P (.at .fa8 c) (FloatReturned P c₀ (single.signed neg (single.absPacked q))) := by
  have hsame (r6' : Word) (flags : Flags) :
      Normalising c₀ neg q v { c with r6 := r6', flags := flags } e := { h with framed := h.framed }
  have htwice : c.r6 + c.r6 = 0x01000000 := by rw [hr6]; rfl
  refine .block (.bcond (fun hhs => ?_) (fun hlo => ?_))
  · change decide (c.r6 + c.r6 ≤ c.r0) = true at hhs
    rw [htwice, decide_eq_true_eq, BitVec.le_def] at hhs
    exact (hsame _ _).leads_fa2 hhs
  · change decide (c.r6 + c.r6 ≤ c.r0) = false at hlo
    rw [htwice, decide_eq_false_iff_not, BitVec.not_le, BitVec.lt_def] at hlo
    exact (hsame _ _).leads_fa3 htwice hlo

/-- The significand that the normalisation starts with. -/
theorem leads_fa8 {V : ℤ} (hc : Framed [r4, r5, r6, lr] c₀ c₀.mem c) (hr6 : c.r6 = 0x00800000)
    (hsign : c.r1.toNat = (decide (V < 0)).toNat) (hexp : c.r3.toInt = e - 1)
    (hrange : -2 ^ 10 ≤ e ∧ e ≤ 2 ^ 20) (hne : V ≠ 0) (hlt : V.natAbs < 2 ^ 57)
    (hv : V.natAbs = c.r0.toNat * 2 ^ 32 + c.r2.toNat) :
    Leads faddCode P (.at .fa8 c)
      (FloatReturned P c₀ (single.packed (single.scaled (V / (2 ^ 33 : ℕ)) e))) := by
  have hnorm : Normalising c₀ (decide (V < 0)) _ V.natAbs c e := {
    framed := hc
    sign := hsign
    exp := hexp
    significand := hv
    pos := Int.natAbs_pos.mpr hne
    lt := hlt
    scaled := rfl
    range := ⟨by omega, hrange.2⟩ }
  rw [FloatFormat.packed_scaled_div hne (Nat.two_pow_pos 33)]
  exact hnorm.leads_fa8 hr6

/-- The sum of two words is made positive. -/
theorem leads_fa1 (hc : Framed [r4, r5, r6, lr] c₀ c₀.mem c) (hr6 : c.r6 = 0x00800000)
    (hexp : c.r3.toInt = e - 1) (hrange : -2 ^ 10 ≤ e ∧ e ≤ 2 ^ 20)
    (hne : signedPair c.r0 c.r2 ≠ 0) (hlt : (signedPair c.r0 c.r2).natAbs < 2 ^ 57) :
    Leads faddCode P (.at .fa1 c) (FloatReturned P c₀
      (single.packed (single.scaled (signedPair c.r0 c.r2 / (2 ^ 33 : ℕ)) e))) := by
  have hr2 := c.r2.isLt
  have hr0 := c.r0.isLt
  have hshift : (c.r0 >>> 31).toNat = c.r0.toNat / 2 ^ 31 := by
    rw [BitVec.toNat_ushiftRight, Nat.shiftRight_eq_div_pow]
  have hzero : (c.r0 >>> 31 == 0) = decide (c.r0.toNat / 2 ^ 31 = 0) := by
    rw [Bool.eq_iff_iff, beq_iff_eq, decide_eq_true_eq, BitVec.toNat_eq, hshift]
    rfl
  have hnot : (~~~c.r0).toNat = 2 ^ 32 - 1 - c.r0.toNat := BitVec.toNat_not
  have hneg : (-c.r2).toNat = (2 ^ 32 - c.r2.toNat) % 2 ^ 32 := BitVec.toNat_neg c.r2
  generalize hV : signedPair c.r0 c.r2 = V at hne hlt
  unfold signedPair at hV
  have hsign := sign_cases c.r0
  refine .block (.bcond (fun h => ?_) (fun h => .block (.bcond (fun h' => ?_)
    (fun h' => .block ?_))))
  · change (c.r0 >>> 31 == 0) = true at h
    rw [hzero, decide_eq_true_eq] at h
    refine leads_fa8 hc hr6 ?_ hexp hrange hne hlt ?_
    · change (c.r0 >>> 31).toNat = _
      rw [hshift, h, decide_eq_false (by omega)]
      rfl
    · change _ = c.r0.toNat * 2 ^ 32 + c.r2.toNat
      omega
  all_goals
    change (c.r0 >>> 31 == 0) = false at h
    rw [hzero, decide_eq_false_iff_not] at h
    have hr1 : (c.r0 >>> 31).toNat = (decide (V < 0)).toNat := by
      rw [hshift, decide_eq_true (by omega)]
      change _ = 1
      omega
  · -- the lower word is not zero, so the upper one is complemented
    change (!decide (0 = c.r2)) = true at h'
    rw [Bool.not_eq_true', decide_eq_false_iff_not, BitVec.toNat_eq] at h'
    change ¬0 = c.r2.toNat at h'
    refine leads_fa8 hc hr6 hr1 hexp hrange hne hlt ?_
    change _ = (~~~c.r0).toNat * 2 ^ 32 + (-c.r2).toNat
    rw [hnot, hneg]
    omega
  · change (!decide (0 = c.r2)) = false at h'
    rw [Bool.not_eq_false', decide_eq_true_eq, BitVec.toNat_eq] at h'
    change 0 = c.r2.toNat at h'
    refine leads_fa8 hc hr6 hr1 hexp hrange hne hlt ?_
    change _ = (~~~c.r0 + 1).toNat * 2 ^ 32 + (-c.r2).toNat
    rw [BitVec.toNat_add, hnot, hneg]
    change _ = (2 ^ 32 - 1 - c.r0.toNat + 1) % 2 ^ 32 * 2 ^ 32 + _
    omega

/-- The sum of two words, which can be zero. -/
theorem leads_fa0 (hc : Framed [r4, r5, r6, lr] c₀ c₀.mem c) (hr6 : c.r6 = 0x00800000)
    (hexp : c.r3.toInt = e - 1) (hrange : -2 ^ 10 ≤ e ∧ e ≤ 2 ^ 20) {V : ℤ}
    (hV : V = (c.r0.toInt + c.r1.toInt) * 2 ^ 32 + c.r2.toNat) (hlt : V.natAbs < 2 ^ 57) :
    Leads faddCode P (.at .fa0 c) (FloatReturned P c₀
      (single.packed (single.scaled (V / (2 ^ 33 : ℕ)) e))) := by
  have hr2 := c.r2.isLt
  have hsum : (c.r0 + c.r1).toInt = c.r0.toInt + c.r1.toInt :=
    toInt_add_of_bounds (by omega) (by omega)
  have hpair : signedPair (c.r0 + c.r1) c.r2 = V := by rw [signedPair, hsum, hV]
  have hfa1 (flags : Flags) (hne : V ≠ 0) : Leads faddCode P
      (.at .fa1 { c with r0 := c.r0 + c.r1, flags := flags })
      (FloatReturned P c₀ (single.packed (single.scaled (V / (2 ^ 33 : ℕ)) e))) := by
    rw [← hpair] at hne hlt ⊢
    exact leads_fa1 hc hr6 hexp hrange hne hlt
  refine .block (.bcond (fun h => .block (.bcond (fun h' => ?_) (fun h' => hfa1 _ ?_)))
    (fun h => hfa1 _ ?_))
  · change (c.r0 + c.r1 == 0) = true at h
    change decide (c.r2 = 0) = true at h'
    rw [beq_iff_eq] at h
    rw [decide_eq_true_eq] at h'
    have hzero : V = 0 := by
      rw [← hpair, signedPair, h, h']
      rfl
    refine leads_faEnd hc ?_
    change (c.r0 + c.r1).toNat = _
    rw [h, hzero, Int.cast_zero, zero_div, FloatFormat.scaled, zero_mul]
    rfl
  · change decide (c.r2 = 0) = false at h'
    rw [decide_eq_false_iff_not, BitVec.toNat_eq] at h'
    change ¬c.r2.toNat = 0 at h'
    omega
  · change (c.r0 + c.r1 == 0) = false at h
    rw [beq_eq_false_iff_ne] at h
    intro hzero
    refine h (BitVec.eq_of_toInt_eq ?_)
    rw [hsum]
    change _ = (0 : ℤ)
    omega

end Packing

/-! ## Alignment -/

section Aligning

variable {c₀ c : Cpu} {mx ex my ey : ℤ}

/-- A word is shifted down into a second one. -/
theorem toInt_shifted (y : Word) {d : ℕ} (hd : d ≤ 32) :
    (y.sshiftRight d).toInt * 2 ^ 32 + (y <<< (32 - d)).toNat = y.toInt * 2 ^ (32 - d) := by
  have hpow : (2 : ℤ) ^ 32 = 2 ^ d * 2 ^ (32 - d) := by rw [← pow_add, Nat.add_sub_cancel' hd]
  have hlow : ((y <<< (32 - d)).toNat : ℤ) = y.toInt * 2 ^ (32 - d) % 2 ^ 32 := by
    rw [BitVec.toNat_shiftLeft, Nat.shiftLeft_eq]
    push_cast
    have hmod : (y.toNat : ℤ) % 4294967296 = y.toInt % 4294967296 := by
      rcases sign_cases y with ⟨-, h, -⟩ | ⟨-, h, -⟩ <;> omega
    rw [Int.mul_emod, hmod, ← Int.mul_emod]
  rw [hlow, BitVec.toInt_sshiftRight, Int.shiftRight_eq_div_pow]
  have hdiv : y.toInt / (2 ^ d : ℕ) = y.toInt * 2 ^ (32 - d) / 2 ^ 32 := by
    rw [hpow, Int.mul_ediv_mul_of_pos_left _ _ (by positivity)]
    push_cast
    rfl
  rw [hdiv]
  exact Int.ediv_mul_add_emod _ _

/-- The half below the significand. -/
theorem scaled_half (v : ℚ) (e : ℤ) :
    single.scaled (v / (2 ^ 33 : ℕ)) (e + 1) = single.scaled (v / 2 ^ 32) e := by
  rw [← Nat.cast_one, FloatFormat.scaled_add]
  congr 1
  norm_num
  ring

/-- The larger number is the result. -/
theorem leads_fa1_single {m e : ℤ} (hc : Framed [r4, r5, r6, lr] c₀ c₀.mem c)
    (hr6 : c.r6 = 0x00800000) (hm : c.r0.toInt = m) (hr2 : c.r2 = 0) (hexp : c.r3.toInt = e)
    (hrange : -2 ^ 6 ≤ e ∧ e ≤ 2 ^ 17) (hne : m ≠ 0) (hlt : |m| < 2 ^ 24) :
    Leads faddCode P (.at .fa1 c) (FloatReturned P c₀ (single.packed (single.scaled m e))) := by
  have hpair : signedPair c.r0 c.r2 = m * 2 ^ 32 := by
    rw [signedPair, hm, hr2]
    exact add_zero _
  obtain ⟨hlow, hhigh⟩ := abs_lt.mp hlt
  have hlead := leads_fa1 (P := P) (e := e + 1) hc hr6 (by omega) (by omega) (by omega) (by omega)
  have hcast : ((m * 2 ^ 32 : ℤ) : ℚ) / 2 ^ 32 = m := by
    push_cast
    exact mul_div_cancel_right₀ _ (by norm_num)
  rwa [scaled_half, hpair, hcast] at hlead

/-- The sum of two significands of which one was shifted down. -/
theorem leads_fa0_aligned {m m' e : ℤ} {d : ℕ} (hd : d < 32)
    (hc : Framed [r4, r5, r6, lr] c₀ c₀.mem c) (hr6 : c.r6 = 0x00800000)
    (hexp : c.r3.toInt = e) (hrange : -2 ^ 6 ≤ e ∧ e ≤ 2 ^ 17)
    (hsum : (c.r0.toInt + c.r1.toInt) * 2 ^ 32 + c.r2.toNat = m * 2 ^ 32 + m' * 2 ^ (32 - d))
    (hm : |m| < 2 ^ 24) (hm' : |m'| < 2 ^ 24) :
    Leads faddCode P (.at .fa0 c)
      (FloatReturned P c₀ (single.packed (single.scaled m e + single.scaled m' (e - d)))) := by
  have hlt : |m' * 2 ^ (32 - d)| < 2 ^ 24 * 2 ^ 32 := by
    have hpos : (0 : ℤ) < 2 ^ (32 - d) := by positivity
    have hle : (2 : ℤ) ^ (32 - d) ≤ 2 ^ 32 := pow_le_pow_right₀ (by norm_num) (Nat.sub_le 32 d)
    rw [abs_mul, abs_of_pos hpos]
    exact (mul_lt_mul_of_pos_right hm' hpos).trans_le (mul_le_mul_of_nonneg_left hle (by norm_num))
  obtain ⟨hlow, hhigh⟩ := abs_lt.mp hm
  obtain ⟨hlow', hhigh'⟩ := abs_lt.mp hlt
  have hlead := leads_fa0 (P := P) (e := e + 1) hc hr6 (by omega) (by omega) hsum.symm (by omega)
  have hscaled : single.scaled (((m * 2 ^ 32 + m' * 2 ^ (32 - d) : ℤ) : ℚ) / 2 ^ 32) e =
      single.scaled m e + single.scaled m' (e - d) := by
    rw [← FloatFormat.scaled_aligned hd.le]
    push_cast
    rfl
  rwa [scaled_half, hscaled] at hlead

/-- The state with both patterns taken apart. -/
structure FloatUnpacked (c₀ : Cpu) (mx ex my ey : ℤ) (c : Cpu) : Prop where
  framed : Framed [r4, r5, r6, lr] c₀ c₀.mem c
  r6_eq : c.r6 = 0x00800000
  x : c.r0.toInt = mx
  y : c.r1.toInt = my
  expX : c.r2.toInt = ex
  expY : c.r3.toInt = ey
  rangeX : -2 ^ 6 ≤ ex ∧ ex ≤ 2 ^ 17
  rangeY : -2 ^ 6 ≤ ey ∧ ey ≤ 2 ^ 17
  significands : |mx| < 2 ^ 24 ∧ |my| < 2 ^ 24

/-- The number of places of a shift by the difference of two exponents. -/
theorem toNat_places {x : Word} {d : ℕ} (h : x.toInt = d) (hd : d < 256) : x.toNat % 256 = d := by
  rcases sign_cases x with ⟨-, hx, -⟩ | ⟨-, hx, -⟩ <;> omega

section Shifts

variable {Q : Config FaddLabel → Prop}

theorem leads_faAlignY
    (h : ∀ flags, Leads faddCode P (.at .fa0 { c with
      r1 := c.r1.sshiftRight (c.r4.toNat % 256)
      r2 := c.r1 <<< ((c.r5 + 32).toNat % 256)
      r3 := c.r2
      r5 := c.r5 + 32
      flags := flags }) Q) :
    Leads faddCode P (.at .faAlignY c) Q := by
  refine .block ?_
  dsimp [faddCode]
  exact h _

theorem leads_faAlignX
    (h : ∀ flags, Leads faddCode P (.at .fa0 { c with
      r0 := c.r0.sshiftRight (c.r5.toNat % 256)
      r2 := c.r0 <<< ((c.r4 + 32).toNat % 256)
      r4 := c.r4 + 32
      flags := flags }) Q) :
    Leads faddCode P (.at .faAlignX c) Q := by
  refine .block ?_
  dsimp [faddCode]
  exact h _

/-- The difference of the exponents decides whether the second number is shifted. -/
theorem leads_faXgty_cases
    (hfar : 30 ≤ c.r4.toInt → ∀ flags, Leads faddCode P
      (.at .fa1 { c with r3 := c.r2, r2 := 0, flags := flags }) Q)
    (hnear : c.r4.toInt < 30 → ∀ flags, Leads faddCode P
      (.at .faAlignY { c with flags := flags }) Q) :
    Leads faddCode P (.at .faXgty c) Q := by
  have h30 : (30 : Word).toInt = 30 := rfl
  refine .block ?_
  dsimp [faddCode]
  refine .ite (fun h => .block ?_) (fun h => ?_)
  · rw [Cond.holds_ge_ofSub, decide_eq_true_eq] at h
    dsimp [faddCode]
    exact hfar (h30 ▸ h) _
  · rw [Cond.holds_ge_ofSub, decide_eq_true_eq, not_le] at h
    exact hnear (h30 ▸ h) _

/-- The difference of the exponents decides whether the first number is shifted. -/
theorem leads_faYgtx_cases
    (hfar : 30 ≤ c.r5.toInt → ∀ flags, Leads faddCode P
      (.at .fa1 { c with r2 := 0, r0 := c.r1, flags := flags }) Q)
    (hnear : c.r5.toInt < 30 → ∀ flags, Leads faddCode P
      (.at .faAlignX { c with flags := flags }) Q) :
    Leads faddCode P (.at .faYgtx c) Q := by
  have h30 : (30 : Word).toInt = 30 := rfl
  refine .block ?_
  dsimp [faddCode]
  refine .ite (fun h => .block ?_) (fun h => ?_)
  · rw [Cond.holds_ge_ofSub, decide_eq_true_eq] at h
    dsimp [faddCode]
    exact hfar (h30 ▸ h) _
  · rw [Cond.holds_ge_ofSub, decide_eq_true_eq, not_le] at h
    exact hnear (h30 ▸ h) _

end Shifts

/-- The places of the shifts, where `x` is the difference of the exponents and `x'` its negative. -/
theorem near_places {x x' : Word} {d : ℕ} (hx : x.toInt = d) (hx' : x'.toInt = -d) (hd : d < 32) :
    x.toNat % 256 = d ∧ (x' + 32).toNat % 256 = 32 - d := by
  have h32 : (32 : Word).toInt = 32 := rfl
  refine ⟨toNat_places hx (by omega), toNat_places ?_ (by omega)⟩
  rw [toInt_add_of_bounds (by omega) (by omega)]
  omega

theorem FloatUnpacked.leads_faXgty (h : FloatUnpacked c₀ mx ex my ey c) (hr5 : c.r5 = c.r3 - c.r2)
    (hr4 : c.r4 = c.r2 - c.r3) (hle : ey ≤ ex) (hne : mx ≠ 0) :
    Leads faddCode P (.at .faXgty c) (FloatReturned P c₀ (single.added 30 mx ex my ey)) := by
  have hex := h.expX
  have hey := h.expY
  have hrx := h.rangeX
  have hry := h.rangeY
  have hd : c.r4.toInt = ex - ey := by
    rw [hr4, toInt_sub_of_bounds (by omega) (by omega), hex, hey]
  have hd' : c.r5.toInt = ey - ex := by
    rw [hr5, toInt_sub_of_bounds (by omega) (by omega), hex, hey]
  obtain ⟨d, hsub⟩ := Int.le.dest hle
  have hexp : ey = ex - d := by omega
  unfold FloatFormat.added
  refine leads_faXgty_cases (fun hfar _ => ?_) (fun hnear _ => ?_)
  · rw [if_pos (by push_cast; omega)]
    exact leads_fa1_single h.framed h.r6_eq h.x rfl hex hrx hne h.significands.1
  · obtain ⟨hp, hp'⟩ := near_places (show c.r4.toInt = d by omega)
      (show c.r5.toInt = -d by omega) (by omega)
    rw [if_neg (by push_cast; omega), if_neg (by push_cast; omega), hexp]
    refine leads_faAlignY fun _ => ?_
    refine leads_fa0_aligned (by omega) h.framed h.r6_eq hex hrx ?_ h.significands.1
      h.significands.2
    have hshift := toInt_shifted c.r1 (d := d) (by omega)
    dsimp only
    rw [hp, hp', ← h.x, ← h.y, ← hshift]
    ring

theorem FloatUnpacked.leads_faYgtx (h : FloatUnpacked c₀ mx ex my ey c) (hr5 : c.r5 = c.r3 - c.r2)
    (hr4 : c.r4 = c.r2 - c.r3) (hlt : ex < ey) (hne : my ≠ 0) :
    Leads faddCode P (.at .faYgtx c) (FloatReturned P c₀ (single.added 30 mx ex my ey)) := by
  have hex := h.expX
  have hey := h.expY
  have hrx := h.rangeX
  have hry := h.rangeY
  have hd : c.r4.toInt = ex - ey := by
    rw [hr4, toInt_sub_of_bounds (by omega) (by omega), hex, hey]
  have hd' : c.r5.toInt = ey - ex := by
    rw [hr5, toInt_sub_of_bounds (by omega) (by omega), hex, hey]
  obtain ⟨d, hsub⟩ := Int.le.dest hlt.le
  have hexp : ex = ey - d := by omega
  unfold FloatFormat.added
  rw [if_neg (by push_cast; omega)]
  refine leads_faYgtx_cases (fun hfar _ => ?_) (fun hnear _ => ?_)
  · rw [if_pos (by push_cast; omega)]
    exact leads_fa1_single h.framed h.r6_eq h.y rfl hey hry hne h.significands.2
  · obtain ⟨hp, hp'⟩ := near_places (show c.r5.toInt = d by omega)
      (show c.r4.toInt = -d by omega) (by omega)
    rw [if_neg (by push_cast; omega), hexp, add_comm]
    refine leads_faAlignX fun _ => ?_
    refine leads_fa0_aligned (by omega) h.framed h.r6_eq hey hry ?_ h.significands.2
      h.significands.1
    have hshift := toInt_shifted c.r0 (d := d) (by omega)
    dsimp only
    rw [hp, hp', ← h.x, ← h.y, ← hshift]
    ring

end Aligning

/-! ## Patterns -/

/-- The significand of a pattern, with its sign. -/
def floatSig (x : Word) : ℤ :=
  if x.msb then -single.significand x.toNat else single.significand x.toNat

/-- The exponent of a pattern, which is far from those of numbers for a zero or an infinity. -/
def floatExp (x : Word) : ℤ :=
  if single.expField x.toNat = 0 then -32 - x.msb.toNat
  else if single.expField x.toNat = 255 then 255 * 2 ^ 8 - x.msb.toNat
  else single.expField x.toNat

theorem isNeg_single (x : Word) : single.isNeg x.toNat = x.msb := by
  rw [BitVec.msb_eq_getLsbD_last]
  rfl

theorem significand_single (x : Word) :
    2 ^ 23 ≤ single.significand x.toNat ∧ single.significand x.toNat < 2 ^ 24 := by
  change 2 ^ 23 ≤ 2 ^ 23 + x.toNat % 2 ^ 23 ∧ 2 ^ 23 + x.toNat % 2 ^ 23 < 2 ^ 24
  omega

theorem floatSig_cases (x : Word) :
    (x.msb = true ∧ -2 ^ 24 < floatSig x ∧ floatSig x ≤ -2 ^ 23) ∨
      (x.msb = false ∧ 2 ^ 23 ≤ floatSig x ∧ floatSig x < 2 ^ 24) := by
  have hsig := significand_single x
  unfold floatSig
  cases x.msb
  · rw [if_neg Bool.false_ne_true]
    exact .inr ⟨rfl, by omega, by omega⟩
  · rw [if_pos rfl]
    exact .inl ⟨rfl, by omega, by omega⟩

theorem floatExp_range (x : Word) : -33 ≤ floatExp x ∧ floatExp x ≤ 2 ^ 16 := by
  have hle : single.expField x.toNat ≤ 255 := FloatFormat.expField_le
  have hneg : x.msb.toNat ≤ 1 := x.msb.toNat_le
  unfold floatExp
  split_ifs <;> omega

theorem unpacks_single (x : Word) : single.Unpacks 30 x.toNat (floatSig x) (floatExp x) := by
  have hneg : x.msb.toNat ≤ 1 := x.msb.toNat_le
  have habs : |floatSig x| = single.significand x.toNat := by
    unfold floatSig
    split_ifs
    · rw [abs_neg, Nat.abs_cast]
    · rw [Nat.abs_cast]
  exact {
    low := by
      rw [habs]
      exact_mod_cast (significand_single x).1
    high := by
      rw [habs]
      exact_mod_cast (significand_single x).2
    neg_iff := by
      rw [isNeg_single]
      rcases floatSig_cases x with ⟨hmsb, h⟩ | ⟨hmsb, h⟩ <;> rw [hmsb]
      · exact iff_of_true (by omega) rfl
      · exact iff_of_false (by omega) Bool.false_ne_true
    zero := fun h => by
      rw [floatExp, if_pos h]
      push_cast
      omega
    infinite := fun h => by
      have hmax : single.maxExp = 255 := rfl
      rw [hmax] at h ⊢
      rw [floatExp, if_neg (by omega), if_pos h]
      push_cast
      omega
    normal := fun h h' => by
      have hmax : single.maxExp = 255 := rfl
      rw [hmax] at h'
      rw [floatExp, if_neg h, if_neg h']
      exact ⟨rfl, habs⟩ }

section Unpacking

variable {c₀ c : Cpu} {Q : Config FaddLabel → Prop}

/-- The sign of a word as a mask. -/
theorem sshiftRight_31 (x : Word) : x.sshiftRight 31 = if x.msb then -1 else 0 := by
  refine BitVec.eq_of_toInt_eq ?_
  have hx := x.isLt
  rw [BitVec.toInt_sshiftRight, Int.shiftRight_eq_div_pow]
  rcases sign_cases x with ⟨h, hint, hmsb⟩ | ⟨h, hint, hmsb⟩ <;> rw [hmsb, hint]
  · rw [if_neg Bool.false_ne_true]
    change _ / (2 ^ 31 : ℤ) = 0
    omega
  · rw [if_pos rfl]
    change _ / (2 ^ 31 : ℤ) = -1
    omega

/-- A word is complemented and incremented if the mask says so. -/
theorem xor_sub_mask (x y : Word) :
    (y ^^^ x.sshiftRight 31) - x.sshiftRight 31 = if x.msb then -y else y := by
  rw [sshiftRight_31]
  cases x.msb
  · rw [if_neg Bool.false_ne_true, if_neg Bool.false_ne_true]
    change (y ^^^ 0#32) - 0#32 = y
    rw [BitVec.xor_zero, BitVec.sub_zero]
  · rw [if_pos rfl, if_pos rfl]
    change (y ^^^ BitVec.allOnes 32) - -1 = -y
    rw [BitVec.xor_allOnes, BitVec.sub_neg]
    exact (BitVec.neg_eq_not_add y).symm

/-- The fraction with the implied one. -/
theorem toNat_implied (x : Word) :
    (x &&& 0x007fffff ||| 0x00800000).toNat = single.significand x.toNat := by
  have hand : (x &&& 0x007fffff).toNat = x.toNat % 2 ^ 23 := by
    rw [BitVec.toNat_and]
    exact Nat.and_two_pow_sub_one_eq_mod _ 23
  have hor := Nat.two_pow_add_eq_or_of_lt (Nat.mod_lt x.toNat (Nat.two_pow_pos 23)) 1
  rw [BitVec.toNat_or, hand, Nat.or_comm]
  exact hor.symm

/-- The signed significand as the code computes it. -/
theorem toInt_floatSig (x : Word) :
    (((x &&& 0x007fffff ||| 0x00800000) ^^^ x.sshiftRight 31) - x.sshiftRight 31).toInt =
      floatSig x := by
  have hnat := toNat_implied x
  have hsig := significand_single x
  rw [xor_sub_mask]
  generalize x &&& 0x007fffff ||| 0x00800000 = y at hnat
  unfold floatSig
  cases x.msb
  · rw [if_neg Bool.false_ne_true, if_neg Bool.false_ne_true]
    rcases sign_cases y with ⟨-, h, -⟩ | ⟨h, -, -⟩ <;> omega
  · have hneg : (-y).toNat = (2 ^ 32 - y.toNat) % 2 ^ 32 := BitVec.toNat_neg y
    rw [if_pos rfl, if_pos rfl]
    rcases sign_cases (-y) with ⟨h, -, -⟩ | ⟨-, h, -⟩ <;> omega

/-- The exponent of a zero, of an infinity and of a number as the code computes them. -/
theorem toInt_floatExp_zero {x : Word} (h : x <<< 1 >>> 24 = 0) :
    (x <<< 1 >>> 24 - 32 + x.sshiftRight 31).toInt = floatExp x := by
  have hexp : single.expField x.toNat = 0 := by rw [← exponent_single, h]; rfl
  rw [h, sshiftRight_31, floatExp, if_pos hexp]
  cases x.msb <;> rfl

theorem toInt_floatExp_inf {x : Word} (h : x <<< 1 >>> 24 = 255) :
    ((x <<< 1 >>> 24) <<< 8 + x.sshiftRight 31).toInt = floatExp x := by
  have hexp : single.expField x.toNat = 255 := by rw [← exponent_single, h]; rfl
  have hshift : (255 : Word) <<< 8 = 65280 := by
    refine BitVec.eq_of_toNat_eq ?_
    rw [BitVec.toNat_shiftLeft]
    rfl
  rw [h, hshift, sshiftRight_31, floatExp, hexp]
  cases x.msb <;> rfl

theorem toInt_floatExp {x : Word} (h : x <<< 1 >>> 24 ≠ 0) (h' : x <<< 1 >>> 24 ≠ 255) :
    (x <<< 1 >>> 24).toInt = floatExp x := by
  have hexp := exponent_single x
  have hle : single.expField x.toNat ≤ 255 := FloatFormat.expField_le
  have hzero : single.expField x.toNat ≠ 0 := fun hz => h (BitVec.eq_of_toNat_eq (hexp.trans hz))
  have hinf : single.expField x.toNat ≠ 255 :=
    fun hz => h' (BitVec.eq_of_toNat_eq (hexp.trans hz))
  rw [floatExp, if_neg hzero, if_neg hinf]
  rcases sign_cases (x <<< 1 >>> 24) with ⟨-, hint, -⟩ | ⟨hbig, -, -⟩ <;> omega

/-- The exponent of the first pattern, after the `push`. -/
theorem leads_faXExponent {flags : Flags} {exit : Exit FaddLabel}
    (hexit : exit = .bcond .eq .faXe0 .faXeNonzero)
    (hflags : Cond.eq.holds flags = (c.r0 <<< 1 >>> 24 == 0))
    (h : ∀ r2' flags, r2'.toInt = floatExp c.r0 → Leads faddCode P
      (.at .faXe { c with r2 := r2', r4 := c.r0.sshiftRight 31, flags := flags }) Q) :
    Leads faddCode P (exit.next P { c with
      r2 := c.r0 <<< 1 >>> 24, r4 := c.r0.sshiftRight 31, flags := flags }) Q := by
  subst hexit
  refine .bcond (fun hzero => .block ?_) (fun hzero => .block ?_)
  · dsimp only at hzero
    rw [hflags, beq_iff_eq] at hzero
    dsimp [faddCode]
    exact h _ _ (toInt_floatExp_zero hzero)
  · dsimp only at hzero
    rw [hflags, beq_eq_false_iff_ne] at hzero
    dsimp [faddCode]
    refine .ite (fun hinf => .block ?_) (fun hinf => ?_)
    · dsimp [faddCode]
      exact h _ _ (toInt_floatExp_inf (of_decide_eq_true hinf))
    · exact h _ _ (toInt_floatExp hzero (fun heq => hinf (decide_eq_true heq)))

/-- The exponent of the second pattern. -/
theorem leads_faXe
    (h : ∀ r3' flags, r3'.toInt = floatExp c.r1 → Leads faddCode P
      (.at .faYe { c with r3 := r3', r5 := c.r1.sshiftRight 31, flags := flags }) Q) :
    Leads faddCode P (.at .faXe c) Q := by
  refine .block ?_
  dsimp [faddCode]
  refine .ite (fun hzero => .block ?_) (fun hzero => .block ?_)
  · dsimp [faddCode]
    exact h _ _ (toInt_floatExp_zero (beq_iff_eq.mp hzero))
  · dsimp [faddCode]
    refine .ite (fun hinf => .block ?_) (fun hinf => ?_)
    · dsimp [faddCode]
      exact h _ _ (toInt_floatExp_inf (of_decide_eq_true hinf))
    · exact h _ _ (toInt_floatExp (fun heq => hzero (beq_iff_eq.mpr heq))
        (fun heq => hinf (decide_eq_true heq)))

/-- Both patterns have been taken apart. -/
theorem leads_faYe {x y : Word} (hc : Framed [r4, r5, r6, lr] c₀ c₀.mem c) (hr0 : c.r0 = x)
    (hr1 : c.r1 = y) (hr4 : c.r4 = x.sshiftRight 31) (hr5 : c.r5 = y.sshiftRight 31)
    (hr2 : c.r2.toInt = floatExp x) (hr3 : c.r3.toInt = floatExp y) :
    Leads faddCode P (.at .faYe c) (FloatReturned P c₀
      (single.added 30 (floatSig x) (floatExp x) (floatSig y) (floatExp y))) := by
  have hx := floatExp_range x
  have hy := floatExp_range y
  have hsx := floatSig_cases x
  have hsy := floatSig_cases y
  have hmi : (c.r2 - c.r3).msb = decide (floatExp x < floatExp y) := by
    have hsub : (c.r2 - c.r3).toInt = floatExp x - floatExp y := by
      rw [toInt_sub_of_bounds (by omega) (by omega), hr2, hr3]
    rcases sign_cases (c.r2 - c.r3) with ⟨-, h, hmsb⟩ | ⟨-, h, hmsb⟩ <;> rw [hmsb, eq_comm]
    · rw [decide_eq_false_iff_not]
      omega
    · rw [decide_eq_true_eq]
      have := (c.r2 - c.r3).isLt
      omega
  have hunpacked (r4' r5' : Word) (flags : Flags) : FloatUnpacked c₀ (floatSig x) (floatExp x)
      (floatSig y) (floatExp y) { c with
        r0 := ((c.r0 &&& 0x007fffff ||| 0x00800000) ^^^ c.r4) - c.r4
        r1 := ((c.r1 &&& 0x007fffff ||| 0x00800000) ^^^ c.r5) - c.r5
        r4 := r4'
        r5 := r5'
        r6 := 0x00800000
        flags := flags } := {
    framed := hc
    r6_eq := rfl
    x := by
      rw [hr0, hr4]
      exact toInt_floatSig x
    y := by
      rw [hr1, hr5]
      exact toInt_floatSig y
    expX := hr2
    expY := hr3
    rangeX := by omega
    rangeY := by omega
    significands := by
      rw [abs_lt, abs_lt]
      omega }
  refine .block ?_
  dsimp [faddCode]
  refine .ite (fun hlt => ?_) (fun hle => ?_)
  · rw [hmi, decide_eq_true_eq] at hlt
    exact (hunpacked _ _ _).leads_faYgtx rfl rfl hlt (by omega)
  · rw [hmi, decide_eq_true_eq] at hle
    exact (hunpacked _ _ _).leads_faXgty rfl rfl (by omega) (by omega)

end Unpacking

/-! ## Sums -/

/-- Two significands of opposite signs, of which the negative one has an exponent that is less by
one. -/
theorem opposite_sum {m m' : ℤ} (e : ℤ) (hm : 2 ^ 23 ≤ m) (hm' : m < 2 ^ 24)
    (hn : -2 ^ 24 < m') (hn' : m' ≤ -2 ^ 23) :
    (2 : ℚ) ^ (e - 151) ≤ single.scaled m e + single.scaled m' (e - 1) ∧
      single.scaled m e + single.scaled m' (e - 1) < 2 ^ (e - 126) := by
  have hbias : (single.bias : ℤ) = 127 := rfl
  have hfrac : (single.fracBits : ℤ) = 23 := rfl
  have hpow : (0 : ℚ) < 2 ^ (e - 151) := by positivity
  have hsum : single.scaled m e + single.scaled m' (e - 1) =
      ((2 * m + m' : ℤ) : ℚ) * 2 ^ (e - 151) := by
    have hup : (2 : ℚ) ^ (e - 127 - 23) = 2 * 2 ^ (e - 151) := by
      rw [← zpow_one_add₀ two_ne_zero]
      congr 1
      ring
    have hexp : e - 1 - 127 - 23 = e - 151 := by ring
    rw [FloatFormat.scaled, FloatFormat.scaled, hbias, hfrac, hup, hexp]
    push_cast
    ring
  have hlow : (1 : ℚ) ≤ (2 * m + m' : ℤ) := by exact_mod_cast (show 1 ≤ 2 * m + m' by omega)
  have hhigh : ((2 * m + m' : ℤ) : ℚ) < 2 ^ 25 := by
    exact_mod_cast (show 2 * m + m' < 2 ^ 25 by omega)
  rw [hsum]
  refine ⟨le_mul_of_one_le_left hpow.le hlow, (mul_lt_mul_of_pos_right hhigh hpow).trans_eq ?_⟩
  rw [← zpow_natCast, ← zpow_add₀ two_ne_zero]
  congr 1
  push_cast
  ring

/-- Zeros or infinities of both signs. -/
theorem added_opposite {x y : Word} {e : ℤ} (hx : floatExp x = e - x.msb.toNat)
    (hy : floatExp y = e - y.msb.toNat) (h : x.msb ≠ y.msb) :
    ∃ q : ℚ, single.added 30 (floatSig x) (floatExp x) (floatSig y) (floatExp y) =
      single.packed q ∧ 2 ^ (e - 151) ≤ q ∧ q < 2 ^ (e - 126) := by
  rw [hx, hy]
  rcases floatSig_cases x with ⟨hmx, hx, hx'⟩ | ⟨hmx, hx, hx'⟩ <;>
    rcases floatSig_cases y with ⟨hmy, hy, hy'⟩ | ⟨hmy, hy, hy'⟩ <;> rw [hmx, hmy]
  · exact absurd (hmx.trans hmy.symm) h
  · refine ⟨_, ?_, opposite_sum e hy hy' hx hx'⟩
    rw [FloatFormat.added, if_neg (by simp), if_neg (by simp), add_comm]
    simp
  · refine ⟨_, ?_, opposite_sum e hx hx' hy hy'⟩
    rw [FloatFormat.added, if_neg (by simp), if_neg (by simp)]
    simp
  · exact absurd (hmx.trans hmy.symm) h

theorem added_single_zeros {x y : Word} (hx : single.expField x.toNat = 0)
    (hy : single.expField y.toNat = 0) (h : x.msb ≠ y.msb) :
    single.added 30 (floatSig x) (floatExp x) (floatSig y) (floatExp y) = 0 := by
  obtain ⟨q, hq, hlow, hhigh⟩ := added_opposite (if_pos hx) (if_pos hy) h
  have hpos : 0 < q := lt_of_lt_of_le (by positivity) hlow
  have hsmall : |q| < 2 ^ (1 - (single.bias : ℤ)) := by
    rw [abs_of_pos hpos]
    exact hhigh.trans_le (zpow_le_zpow_right₀ one_le_two (by decide))
  rw [hq, FloatFormat.packed_of_small hpos.ne' hsmall, decide_eq_false hpos.not_gt]
  rfl

theorem added_single_infinities {x y : Word} (hx : single.expField x.toNat = 255)
    (hy : single.expField y.toNat = 255) (h : x.msb ≠ y.msb) :
    single.added 30 (floatSig x) (floatExp x) (floatSig y) (floatExp y) = single.infinity := by
  have hexp {z : Word} (hz : single.expField z.toNat = 255) :
      floatExp z = 255 * 2 ^ 8 - z.msb.toNat := by
    rw [floatExp, if_neg (by omega), if_pos hz]
  obtain ⟨q, hq, hlow, -⟩ := added_opposite (hexp hx) (hexp hy) h
  have hpos : 0 < q := lt_of_lt_of_le (by positivity) hlow
  have hlarge : 2 ^ ((single.maxExp : ℤ) - single.bias) ≤ |q| := by
    rw [abs_of_pos hpos]
    exact (zpow_le_zpow_right₀ one_le_two (by decide)).trans hlow
  rw [hq, FloatFormat.packed_of_large (by decide) hlarge, decide_eq_false hpos.not_gt]
  rfl

theorem added_single (x y : Word) :
    single.added 30 (floatSig x) (floatExp x) (floatSig y) (floatExp y) =
      single.sum x.toNat y.toNat := by
  refine (unpacks_single x).added_eq_sum (unpacks_single y) (by decide) (by decide)
    (fun hx hy h => added_single_zeros hx hy ?_) (fun hx hy h => added_single_infinities hx hy ?_)
  all_goals rwa [isNeg_single, isNeg_single] at h

/-- `mufp_fadd`. -/
theorem leads_fadd (c : Cpu) : Leads faddCode P (.at .fadd c)
    (FloatReturned P c (single.sum c.r0.toNat c.r1.toNat)) := by
  refine .push rfl (by decide) fun c₁ hc₁ hregs _ => ?_
  have hr0 : c₁.r0 = c.r0 := hregs .r0 (by decide)
  have hr1 : c₁.r1 = c.r1 := hregs .r1 (by decide)
  refine leads_faXExponent rfl rfl fun r2' _ hr2 => leads_faXe fun r3' _ hr3 => ?_
  rw [← hr0, ← hr1, ← added_single]
  exact leads_faYe hc₁ rfl rfl rfl rfl hr2 hr3

/-- `mufp_fsub`. -/
theorem leads_fsub (c : Cpu) : Leads faddCode P (.at .fsub c)
    (FloatReturned P c (single.difference c.r0.toNat c.r1.toNat)) := by
  have hneg : (c.r1 ^^^ 0x80000000).toNat = single.negated c.r1.toNat := BitVec.toNat_xor ..
  rw [FloatFormat.difference, ← hneg]
  refine .block ((leads_fadd _).mono ?_)
  rintro y ⟨c', hy, hr0, hkept⟩
  exact ⟨c', hy, hr0, hkept.of_base rfl rfl rfl rfl⟩

/-- `mufp_fadd` and `mufp_fsub` return the exact sum and the exact difference, rounded once. -/
theorem fadd_fsub_rounded (c : Cpu) :
    Leads faddCode P (.at .fadd c) (FloatReturned P c (single.sum c.r0.toNat c.r1.toNat)) ∧
      Leads faddCode P (.at .fsub c)
        (FloatReturned P c (single.difference c.r0.toNat c.r1.toNat)) :=
  ⟨leads_fadd c, leads_fsub c⟩

end PicoBootrom
