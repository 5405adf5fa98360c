import Mathlib.Tactic.Ring
import PicoBootrom.Address
import PicoBootrom.BinaryPolynomial
import PicoBootrom.ThumbStack

/-!
# The checksum of the boot stage

`crc32_small` takes a byte after the other from a buffer. The byte is added to the highest byte of
the sum in the lowest byte of a register, where `rev` has put that, and goes through eight steps of
a division at the top of the register. The sum is shifted by a byte, and what the division has left
over is added to it.

A byte more multiplies the sum by `X ^ 8`, and adds the byte times `X ^ 32`, in the remainders of
the generator (`residue_crcByte`). A checksum is the remainder of a polynomial that has the bits of
the buffer as its coefficients (`residue_crc32`).

The buffer has what it has after the registers are pushed, as the memory has at the return. That is
what it had before if it has no part in the free part of the stack.
-/

namespace PicoBootrom

open Thumb Thumb.Reg BinaryPolynomial Polynomial

-- states are compared by unfolding, which has to stop at the shifts
attribute [local irreducible] BitVec.shiftLeft BitVec.ushiftRight

/-! ## The source -/

/-- The labels of `crc32_small`, and names for the instructions after its branches. -/
inductive CrcLabel
  | crc32Small | byteLoop | bitLoop | bitXor | noBit | byteDone | byteLoopTest | crcReturn
  deriving DecidableEq, Repr

/-- The constant of the checksum. -/
def crcPoly : Word :=
  0x4c11db7

/-- The code of `crc32_small`. -/
def crcCode : CrcLabel → Block CrcLabel
  | .crc32Small => ⟨[push [r4, r5, lr], adds r1 r1 r0, ldrLit r5 crcPoly], .b .byteLoopTest⟩
  | .byteLoop => ⟨[
      ldrb r4 r0 0,
      rev r3 r2,
      eors r4 r3,
      lsls r4 r4 24,
      movs r3 8],
      .b .bitLoop⟩
  | .bitLoop => ⟨[lsls r4 r4 1], .bcond .cc .noBit .bitXor⟩
  | .bitXor => ⟨[eors r4 r5], .b .noBit⟩
  | .noBit => ⟨[subs r3 r3 1], .bcond .ne .bitLoop .byteDone⟩
  | .byteDone => ⟨[lsls r2 r2 8, eors r2 r4, adds r0 r0 1], .b .byteLoopTest⟩
  | .byteLoopTest => ⟨[cmp r0 r1], .bcond .lt .byteLoop .crcReturn⟩
  | .crcReturn => ⟨[adds r0 r2 0], .popPc [r4, r5]⟩

/-! ## Checksums -/

/-- The checksum after one more byte. -/
def crcByte (sum : Word) (b : Byte) : Word :=
  sum <<< 8 ^^^ (shiftMod crcPoly)^[8] ((b.setWidth 32 ^^^ reverseBytes sum) <<< 24)

/-- The checksum of a list of bytes from a seed. -/
def crc32 (seed : Word) (bs : List Byte) : Word :=
  bs.foldl crcByte seed

/-- The bits of a list of bytes, of each byte the highest one first. -/
def messageBits (bs : List Byte) : List Bool :=
  bs.flatMap bits

theorem crc32_append (seed : Word) (bs bs' : List Byte) :
    crc32 seed (bs ++ bs') = crc32 (crc32 seed bs) bs' :=
  List.foldl_append

theorem messageBits_concat (bs : List Byte) (b : Byte) :
    messageBits (bs ++ [b]) = messageBits bs ++ bits b := by
  simp [messageBits]

theorem messageBits_inj {bs bs' : List Byte} (h : messageBits bs = messageBits bs') : bs = bs' := by
  have hlen := congrArg List.length h
  induction bs generalizing bs' with
  | nil =>
    cases bs' with
    | nil => rfl
    | cons b bs' =>
      simp [messageBits] at hlen
      omega
  | cons b bs ih =>
    cases bs' with
    | nil => simp [messageBits] at hlen
    | cons b' bs' =>
      obtain ⟨hb, hbs⟩ := List.append_inj h (by simp)
      rw [ofWord_inj (congrArg ofBits hb), ih hbs (congrArg List.length hbs)]

/-- The byte meets the highest byte of the sum at the top of the register. -/
theorem shiftLeft_reverseBytes (sum : Word) (b : Byte) :
    (b.setWidth 32 ^^^ reverseBytes sum) <<< 24 =
      b.setWidth 32 <<< 24 ^^^ sum >>> 24 <<< 24 := by
  rw [BitVec.shiftLeft_xor_distrib]
  congr 1
  refine BitVec.eq_of_getLsbD_eq fun i hi => ?_
  rw [BitVec.getLsbD_shiftLeft, BitVec.getLsbD_shiftLeft]
  by_cases h : i < 24
  · simp [h]
  · simp only [reverseBytes, BitVec.getLsbD_append, BitVec.getLsbD_extractLsb',
      BitVec.getLsbD_ushiftRight]
    rw [if_pos (by omega), decide_eq_true (show i - 24 < 8 by omega), Bool.true_and]

theorem ushiftRight_eq_zero {x : Word} {k : ℕ} (h : x.toNat < 2 ^ k) : x >>> k = 0 := by
  rw [BitVec.toNat_eq, BitVec.toNat_ushiftRight, Nat.shiftRight_eq_div_pow, Nat.div_eq_of_lt h]
  rfl

/-- A byte more. -/
theorem residue_crcByte (sum : Word) (b : Byte) :
    Residue crcPoly (ofWord (crcByte sum b)) (ofWord sum * X ^ 8 + ofWord b * X ^ 32) := by
  have htop := ofWord_shiftLeft sum (show 8 ≤ 32 by decide)
  have hbyte : ofWord (b.setWidth 32 <<< 24) = ofWord b * X ^ 24 := by
    have hlt : (b.setWidth 32).toNat < 2 ^ 8 := by
      rw [BitVec.toNat_setWidth]
      exact (Nat.mod_le _ _).trans_lt b.isLt
    rw [ofWord_shiftLeft_of_small (show 24 ≤ 32 by decide) (ushiftRight_eq_zero (k := 8) hlt),
      ofWord_setWidth _ (by decide)]
  have hhigh : ofWord (sum >>> 24 <<< 24) = ofWord (sum >>> 24) * X ^ 24 := by
    refine ofWord_shiftLeft_of_small (show 24 ≤ 32 by decide) (ushiftRight_eq_zero (k := 8) ?_)
    rw [BitVec.toNat_ushiftRight, Nat.shiftRight_eq_div_pow]
    exact Nat.div_lt_of_lt_mul sum.isLt
  have hmeet : ofWord ((b.setWidth 32 ^^^ reverseBytes sum) <<< 24) =
      (ofWord b + ofWord (sum >>> 24)) * X ^ 24 := by
    rw [shiftLeft_reverseBytes, ofWord_xor, hbyte, hhigh, add_mul]
  have hstep := Residue.iterate_shift (g := crcPoly)
    ((b.setWidth 32 ^^^ reverseBytes sum) <<< 24) (by decide) 8
  rw [crcByte, ofWord_xor, htop]
  refine Eq.mp (congrArg (Residue crcPoly _) ?_) ((Residue.refl (ofWord (sum <<< 8))).add hstep)
  rw [hmeet, show 32 - 8 = 24 from rfl]
  ring

/-- The checksum of a list of bytes. -/
theorem residue_crc32 (seed : Word) (bs : List Byte) :
    Residue crcPoly (ofWord (crc32 seed bs))
      (ofWord seed * X ^ (8 * bs.length) + ofBits (messageBits bs) * X ^ 32) := by
  induction bs using List.reverseRecOn with
  | nil =>
    refine Eq.mp (congrArg (Residue crcPoly _) ?_) (Residue.refl _)
    simp [crc32, messageBits]
  | append_singleton bs b ih =>
    rw [crc32_append, messageBits_concat, ofBits_append, length_bits,
      show ofBits (bits b) = ofWord b from rfl]
    refine (residue_crcByte (crc32 seed bs) b).trans ?_
    refine Eq.mp (congrArg (Residue crcPoly _) ?_)
      ((ih.mul (X ^ 8)).add (Residue.refl (ofWord b * X ^ 32)))
    rw [List.length_append, List.length_singleton]
    ring

/-- The polynomial of the constant. -/
theorem generator_crcPoly : generator crcPoly = X ^ 32 + X ^ 26 + X ^ 23 + X ^ 22 + X ^ 16 +
    X ^ 12 + X ^ 11 + X ^ 10 + X ^ 8 + X ^ 7 + X ^ 5 + X ^ 4 + X ^ 2 + X + 1 := by
  have hbits : bits crcPoly = [
      false, false, false, false, false, true, false, false, true, true, false, false, false, false,
      false, true, false, false, false, true, true, true, false, true, true, false, true, true,
      false, true, true, true] := by decide
  rw [generator, ofWord, hbits]
  simp only [ofBits, List.foldl, if_true, Bool.false_eq_true, if_false]
  ring

/-! ## Runs -/

theorem toInt_add_one {x : Word} (h : x.toInt + 1 < 2 ^ 31) : (x + 1).toInt = x.toInt + 1 := by
  have hsum : (x + 1).toNat = (x.toNat + 1) % 2 ^ 32 := BitVec.toNat_add x 1
  rcases sign_cases x with ⟨hx, hxi, -⟩ | ⟨hx, hxi, -⟩ <;>
    rcases sign_cases (x + 1) with ⟨hy, hyi, -⟩ | ⟨hy, hyi, -⟩ <;>
    omega

/-- The end of a range that ends at no smaller signed address than it starts. -/
theorem toInt_add_toNat {a n : Word} (h : a.toInt ≤ (a + n).toInt) :
    a.toInt + n.toNat = (n + a).toInt := by
  rw [BitVec.add_comm n a]
  have hsum := BitVec.toNat_add a n
  have hn := n.isLt
  rcases sign_cases a with ⟨ha, hai, -⟩ | ⟨ha, hai, -⟩ <;>
    rcases sign_cases (a + n) with ⟨hy, hyi, -⟩ | ⟨hy, hyi, -⟩ <;>
    omega

section Runs

variable {P : Placement CrcLabel} {Q : Config CrcLabel → Prop} {c : Cpu}

/-- A step of the division. -/
theorem leads_bitStep
    (h : ∀ flags, Leads crcCode P
      (.at .noBit { c with r4 := shiftMod c.r5 c.r4, flags := flags }) Q) :
    Leads crcCode P (.at .bitLoop c) Q := by
  refine .block (.bcond (fun hcc => ?_) (fun hcs => .block ?_))
  · change (!c.r4.getLsbD 31) = true at hcc
    rw [Bool.not_eq_true'] at hcc
    rw [shiftMod, BitVec.msb_eq_getLsbD_last, hcc, if_neg Bool.false_ne_true] at h
    exact h _
  · change (!c.r4.getLsbD 31) = false at hcs
    rw [Bool.not_eq_false'] at hcs
    rw [shiftMod, BitVec.msb_eq_getLsbD_last, hcs, if_pos rfl] at h
    exact h _

/-- The steps of the division that are left. -/
theorem leads_bitLoop {k : ℕ} (hk : k < 8) (hr3 : c.r3 = BitVec.ofNat 32 (k + 1))
    (h : ∀ flags, Leads crcCode P
      (.at .byteDone { c with r3 := 0, r4 := (shiftMod c.r5)^[k + 1] c.r4, flags := flags }) Q) :
    Leads crcCode P (.at .bitLoop c) Q := by
  induction k generalizing c with
  | zero =>
    refine leads_bitStep fun flags => .block (.bcond (fun hne => ?_) (fun _ => ?_))
    · change (!decide (c.r3 = 1)) = true at hne
      simp [hr3] at hne
    · have hsub : c.r3 - 1#32 = 0 := by rw [hr3]; rfl
      rw [← hsub] at h
      exact h _
  | succ k ih =>
    refine leads_bitStep fun flags => .block (.bcond (fun _ => ?_) (fun heq => ?_))
    · exact ih (c := { c with
        r3 := c.r3 - 1, r4 := shiftMod c.r5 c.r4, flags := .ofSub c.r3 1 })
        (by omega) (by change c.r3 - 1 = _; rw [hr3]; bv_omega) h
    · change (!decide (c.r3 = 1)) = false at heq
      rw [Bool.not_eq_false', decide_eq_true_eq, hr3, BitVec.toNat_eq, BitVec.toNat_ofNat,
        Nat.mod_eq_of_lt (by omega)] at heq
      exact absurd heq (by simp)

/-- A byte more. -/
theorem leads_byteLoop (hr5 : c.r5 = crcPoly)
    (h : ∀ r3 r4 flags, Leads crcCode P
      (.at .byteLoopTest { c with
        r0 := c.r0 + 1
        r2 := crcByte c.r2 (c.mem c.r0)
        r3 := r3
        r4 := r4
        flags := flags }) Q) :
    Leads crcCode P (.at .byteLoop c) Q := by
  refine .block ?_
  dsimp [crcCode]
  refine leads_bitLoop (k := 7) (by decide) rfl fun flags => .block ?_
  dsimp [crcCode]
  unfold crcByte at h
  rw [← hr5] at h
  rw [BitVec.add_zero]
  exact h _ _ _

/-- The bytes that are left. -/
theorem leads_byteLoopTest {n : ℕ} (hn : c.r0.toInt + n = c.r1.toInt) (hr5 : c.r5 = crcPoly)
    (h : ∀ r0 r3 r4 flags, Leads crcCode P
      (.at .crcReturn { c with
        r0 := r0
        r2 := crc32 c.r2 (c.mem.bytesAt c.r0 n)
        r3 := r3
        r4 := r4
        flags := flags }) Q) :
    Leads crcCode P (.at .byteLoopTest c) Q := by
  induction n generalizing c with
  | zero =>
    refine .block (.bcond (fun hlt => ?_) (fun _ => h _ _ _ _))
    change Cond.lt.holds (.ofSub c.r0 c.r1) = true at hlt
    rw [Cond.holds_lt_ofSub, decide_eq_true_eq] at hlt
    omega
  | succ n ih =>
    refine .block (.bcond (fun _ => ?_) (fun hge => ?_))
    · refine leads_byteLoop (c := { c with flags := .ofSub c.r0 c.r1 }) hr5 fun r3 r4 flags =>
        ih ?_ hr5 fun r0 r3 r4 flags => ?_
      · dsimp only
        have hlast := c.r1.toInt_lt
        rw [toInt_add_one (by omega)]
        omega
      · rw [Memory.bytesAt_succ] at h
        exact h _ _ _ _
    · change Cond.lt.holds (.ofSub c.r0 c.r1) = false at hge
      rw [Cond.holds_lt_ofSub, decide_eq_false_iff_not] at hge
      omega

/-- The end, where the pushed registers are popped. -/
theorem leads_crcReturn (c₀ : Cpu) (hc : Framed [r4, r5, lr] c₀ c₀.mem c) :
    Leads crcCode P (.at .crcReturn c) fun y =>
      ∃ c', y = P.jump c₀.lr c' ∧ Kept 12 c₀ c' ∧ c'.mem = c.mem ∧ c'.r0 = c.r2 := by
  obtain ⟨c', hnext, hkept, hregs, hmem⟩ :=
    (show Framed ([r4, r5] ++ [lr]) c₀ c₀.mem
      { c with r0 := c.r2 + 0#32, flags := .ofAdd c.r2 0 } from hc).popPc P
  refine .block (.now ⟨c', hnext, { hkept with
    mem := fun a ha => (congrFun hmem a).trans (hc.outside a ha) }, hmem, ?_⟩)
  exact (hregs .r0 (by decide) (by decide)).trans (BitVec.add_zero c.r2)

/-- `crc32_small` for a buffer that ends at no smaller signed address. -/
theorem leads_crc32Small (h : c.r0.toInt ≤ (c.r0 + c.r1).toInt) :
    Leads crcCode P (.at .crc32Small c) fun y => ∃ c', y = P.jump c.lr c' ∧ Kept 12 c c' ∧
      c'.r0 = crc32 c.r2 (c'.mem.bytesAt c.r0 c.r1.toNat) := by
  refine .push rfl (by decide) fun c₁ hc₁ hregs _ => ?_
  have hr0 : c₁.r0 = c.r0 := hregs .r0 (by decide)
  have hr1 : c₁.r1 = c.r1 := hregs .r1 (by decide)
  have hr2 : c₁.r2 = c.r2 := hregs .r2 (by decide)
  rw [← hr0, ← hr1] at h
  rw [← hr0, ← hr1, ← hr2]
  dsimp
  refine leads_byteLoopTest (n := c₁.r1.toNat) ?_ rfl fun r0 r3 r4 flags => ?_
  · exact toInt_add_toNat h
  · refine Leads.mono (leads_crcReturn c ?_) ?_
    · exact hc₁
    · rintro _ ⟨c', rfl, hkept, hmem, hres⟩
      exact ⟨c', rfl, hkept, by rw [hres, hmem]⟩

end Runs

/-! ## The polynomial -/

/-- The polynomial of the checksum. -/
noncomputable def crcGenerator : (ZMod 2)[X] :=
  X ^ 32 + X ^ 26 + X ^ 23 + X ^ 22 + X ^ 16 + X ^ 12 + X ^ 11 + X ^ 10 + X ^ 8 + X ^ 7 + X ^ 5 +
    X ^ 4 + X ^ 2 + X + 1

/-- Buffers of the same length that differ only within 32 bits after one another. -/
def DifferInBurst (bs bs' : List Byte) : Prop :=
  bs ≠ bs' ∧ ∃ before mid mid' after, messageBits bs = before ++ mid ++ after ∧
    messageBits bs' = before ++ mid' ++ after ∧ mid.length = mid'.length ∧ mid.length ≤ 32

theorem crc32_ne_of_burst {bs bs' : List Byte} (h : DifferInBurst bs bs') (seed : Word) :
    crc32 seed bs ≠ crc32 seed bs' := by
  obtain ⟨hne, before, mid, mid', after, hbits, hbits', hlen, hmid⟩ := h
  intro heq
  have hlength : bs.length = bs'.length := by
    have := congrArg List.length hbits
    have := congrArg List.length hbits'
    simp [messageBits, hlen] at *
    omega
  have h := residue_crc32 seed bs
  have h' := residue_crc32 seed bs'
  rw [heq, hbits, hlength] at h
  rw [hbits'] at h'
  have hres : Residue crcPoly (ofBits (before ++ mid ++ after) * X ^ 32)
      (ofBits (before ++ mid' ++ after) * X ^ 32) := by
    have hdiff (x y p q : (ZMod 2)[X]) : x - (y + q) - (x - (y + p)) = p - q := by ring
    have hdvd := dvd_sub h' h
    rwa [hdiff] at hdvd
  refine hne (messageBits_inj ?_)
  rw [hbits, hbits', eq_of_burst (by decide) (by decide) hlen hmid hres]

/-- `crc32_small` returns the remainder of what the seed and the bits of its buffer stand for. A
checksum can be taken in two parts, and tells apart buffers that differ in a burst of 32 bits. -/
theorem crc32_small_remainder (P : Placement CrcLabel) :
    ∃ crc : Word → List Byte → Word,
      (∀ c, c.r0.toInt ≤ (c.r0 + c.r1).toInt → Leads crcCode P (.at .crc32Small c) fun y =>
        ∃ c', y = P.jump c.lr c' ∧ Kept 12 c c' ∧
          c'.r0 = crc c.r2 (c'.mem.bytesAt c.r0 c.r1.toNat)) ∧
      (∀ seed bs, ofWord (crc seed bs) =
        (ofWord seed * X ^ (8 * bs.length) + ofBits (messageBits bs) * X ^ 32) %ₘ crcGenerator) ∧
      (∀ seed bs bs', crc seed (bs ++ bs') = crc (crc seed bs) bs') ∧
      ∀ seed bs bs', DifferInBurst bs bs' → crc seed bs ≠ crc seed bs' := by
  refine ⟨crc32, fun c h => leads_crc32Small h, fun seed bs => ?_, crc32_append,
    fun seed bs bs' h => crc32_ne_of_burst h seed⟩
  rw [crcGenerator, ← generator_crcPoly]
  exact (residue_crc32 seed bs).eq_mod

/-- The labels after one another. -/
def crcPlacement : Placement CrcLabel :=
  .ofLabels [.crc32Small, .byteLoop, .bitLoop, .bitXor, .noBit, .byteDone, .byteLoopTest, .crcReturn]
    (by intro l; cases l <;> decide) (by decide)

/-- A call for the 252 bytes of a boot stage. -/
def crcCpu : Cpu :=
  { Cpu.cleared 0x20041f00 0x10000101 fun _ => 0x5a with
    r0 := 0x20041f00, r1 := 252, r2 := 0xffffffff }

theorem crc32_small_remainder_boot : ∃ crc : Word → List Byte → Word,
    (∀ seed bs, ofWord (crc seed bs) =
      (ofWord seed * X ^ (8 * bs.length) + ofBits (messageBits bs) * X ^ 32) %ₘ crcGenerator) ∧
    Leads crcCode crcPlacement (.at .crc32Small crcCpu) fun y =>
      ∃ c', y = crcPlacement.jump 0x10000101 c' ∧ Kept 12 crcCpu c' ∧
        c'.r0 = crc 0xffffffff (c'.mem.bytesAt 0x20041f00 252) := by
  obtain ⟨crc, hruns, hmod, -⟩ := crc32_small_remainder crcPlacement
  exact ⟨crc, hmod, hruns crcCpu (by decide)⟩

end PicoBootrom
