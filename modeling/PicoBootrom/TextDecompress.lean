import PicoBootrom.TextCompression
import PicoBootrom.ThumbStack

/-!
# The text decompression of the ROM

`poor_mans_text_decompress` has one loop for bytes that stand for themselves and for copies of
earlier ones. `r1` runs from the negated length of the stream up to zero, and `r5` from the negated
length of what is written for a byte of it. A byte that stands for itself is a copy of length one
that is entered after its load. Whether it is one is the carry of a shift, which a subtraction with
carry turns into `r5`, and the length of a copy is subtracted with a carry that is known to be
clear.

The loop computes what that of the generator computes (`leads_next`), with the destination in place
of the buffer.
-/

namespace PicoBootrom

open Thumb Thumb.Reg

-- states are compared by unfolding, which has to stop at the shifts
attribute [local irreducible] BitVec.shiftLeft BitVec.ushiftRight

/-! ## The source -/

/-- The labels of `poor_mans_text_decompress`, of which three are the local labels 1, 2 and 3, and
names for the instructions after its branches. -/
inductive TextLabel
  | textDecompress | next | length | copyLoop | store | advance | textReturn
  deriving DecidableEq, Repr

/-- The code of `poor_mans_text_decompress`. -/
def textCode : TextLabel → Block TextLabel
  | .textDecompress => ⟨[push [r4, r5, lr], rsbs r1 r1], .b .next⟩
  | .next => ⟨[
      ldrb r3 r0 r1,
      adds r2 r2 1,
      lsrs r4 r3 8,
      sbcs r5 r5],
      .bcond .ne .store .length⟩
  | .length => ⟨[
      sxtb r5 r3,
      adds r1 r1 1,
      ldrb r4 r0 r1,
      sbcs r2 r5,
      subs r4 r2 r4],
      .b .copyLoop⟩
  | .copyLoop => ⟨[ldrb r3 r4 r5], .b .store⟩
  | .store => ⟨[strb r3 r2 r5, adds r5 r5 1], .bcond .ne .copyLoop .advance⟩
  | .advance => ⟨[adds r1 r1 1], .bcond .ne .next .textReturn⟩
  | .textReturn => ⟨[], .popPc [r4, r5]⟩

/-! ## Lengths -/

/-- The number of bytes that a stream stands for. -/
def represented : List Byte → ℕ
  | [] => 0
  | b :: data =>
    if b < 0x80 then 1 + represented data
    else
      match data with
      | [] => 0
      | _ :: data => (0x100 - b.toNat) + represented data

variable {size n len off : ℕ} {buf : ℕ → Byte} {b offset : Byte} {rest : List Byte}

theorem represented_literal (hb : b < 0x80) : represented (b :: rest) = 1 + represented rest := by
  rw [represented.eq_def]
  dsimp only
  rw [if_pos hb]

theorem represented_copy (hb : ¬b < 0x80) :
    represented (b :: offset :: rest) = 0x100 - b.toNat + represented rest := by
  rw [represented.eq_def]
  dsimp only
  rw [if_neg hb]

theorem decompressLoop_literal (hb : b < 0x80) (hn : n < size) :
    decompressLoop size (b :: rest) n buf =
      decompressLoop size rest (n + 1) (Function.update buf n b) := by
  rw [decompressLoop.eq_def]
  dsimp only
  rw [if_pos hn, if_pos hb]

theorem decompressLoop_copy (hb : ¬b < 0x80) (hn : n < size) (hoffset : offset.toNat ≤ n)
    {n' : ℕ} {buf' : ℕ → Byte}
    (hcopy : copyForward size (0x100 - b.toNat) (n - offset.toNat) n buf = some (n', buf')) :
    decompressLoop size (b :: offset :: rest) n buf = decompressLoop size rest n' buf' := by
  rw [decompressLoop.eq_def]
  dsimp only
  rw [if_pos hn, if_neg hb, if_pos hoffset, hcopy]
  rfl

theorem offsetsOk_literal (hb : b < 0x80) : OffsetsOk n (b :: rest) ↔ OffsetsOk (n + 1) rest := by
  rw [OffsetsOk.eq_def]
  dsimp only
  rw [if_pos hb]

theorem offsetsOk_copy (hb : ¬b < 0x80) (h : OffsetsOk n (b :: rest)) :
    ∃ offset rest', rest = offset :: rest' ∧ 1 ≤ offset.toNat ∧ offset.toNat ≤ n ∧
      OffsetsOk (n + (0x100 - b.toNat)) rest' := by
  rw [OffsetsOk.eq_def] at h
  dsimp only at h
  rw [if_neg hb] at h
  cases rest with
  | nil => exact absurd h not_false
  | cons offset rest => exact ⟨offset, rest, rfl, h.1.1, h.1.2, h.2⟩

/-! ## The inner loop -/

section Runs

variable {P : Placement TextLabel} {Q : Config TextLabel → Prop} {c : Cpu} {m : Memory 32}
  {dst : Word}

/-- A byte more in the destination. -/
theorem copy_update (hn : n + 1 ≤ 2 ^ 32) (b : Byte) :
    (m.copy dst n buf).copy (dst + BitVec.ofNat 32 n) 1 (fun _ => b) =
      m.copy dst (n + 1) (Function.update buf n b) := by
  rw [← Memory.copy_append hn]
  have hfirst : m.copy dst n buf = m.copy dst n (Function.update buf n b) :=
    Memory.copy_congr fun i hi => (Function.update_of_ne (Nat.ne_of_lt hi) _ _).symm
  rw [hfirst]
  refine Memory.copy_congr fun i hi => ?_
  obtain rfl : i = 0 := by omega
  rw [Nat.add_zero, Function.update_self]

theorem neg_ofNat_succ (k : ℕ) : -BitVec.ofNat 32 (k + 1) + 1 = -BitVec.ofNat 32 k := by
  rw [BitVec.ofNat_add]
  bv_omega

/-- A byte is stored. -/
theorem leads_store (hr5 : c.r5 = -BitVec.ofNat 32 (len + 1)) (hlen : len < 2 ^ 32)
    (hstart : c.r2 + c.r5 = dst + BitVec.ofNat 32 n) (hr3 : c.r3 = b.setWidth 32)
    (hmem : c.mem = m.copy dst n buf) (hn : n + 1 ≤ 2 ^ 32)
    (hdone : len = 0 → ∀ flags, Leads textCode P
      (.at .advance { c with
        r5 := 0
        flags := flags
        mem := m.copy dst (n + 1) (Function.update buf n b) }) Q)
    (hmore : len ≠ 0 → ∀ flags, Leads textCode P
      (.at .copyLoop { c with
        r5 := -BitVec.ofNat 32 len
        flags := flags
        mem := m.copy dst (n + 1) (Function.update buf n b) }) Q) :
    Leads textCode P (.at .store c) Q := by
  have hbyte : c.r3.setWidth 8 = b := by
    rw [hr3]
    simp
  have hr5' : c.r5 + 1#32 = -BitVec.ofNat 32 len := by
    rw [hr5]
    exact neg_ofNat_succ len
  rw [← copy_update hn, ← hmem] at hdone hmore
  refine .block ?_
  dsimp [textCode]
  refine .ite (fun hne => ?_) (fun heq => ?_)
  · rw [hstart, hbyte]
    rw [hr5'] at hne ⊢
    refine hmore (fun hzero => ?_) _
    simp [hzero] at hne
  · rw [hstart, hbyte]
    rw [hr5'] at heq ⊢
    have hzero : -BitVec.ofNat 32 len = 0 := by simpa using heq
    rw [hzero]
    refine hdone ?_ _
    have hnat := congrArg BitVec.toNat (BitVec.neg_eq_zero_iff.mp hzero)
    rwa [BitVec.toNat_ofNat, Nat.mod_eq_of_lt hlen] at hnat

theorem copyForward_succ (hn : n < size) : copyForward size (len + 1) off n buf =
    copyForward size len (off + 1) (n + 1) (Function.update buf n (buf off)) := by
  rw [copyForward, if_pos hn]

/-- An earlier byte is loaded. -/
theorem leads_copyByte (hfrom : c.r4 + c.r5 = dst + BitVec.ofNat 32 off) (hoff : off < n)
    (hmem : c.mem = m.copy dst n buf) (hn : n ≤ 2 ^ 32)
    (h : Leads textCode P (.at .store { c with r3 := (buf off).setWidth 32 }) Q) :
    Leads textCode P (.at .copyLoop c) Q := by
  have hload : c.mem (c.r4 + c.r5) = buf off := by
    rw [hfrom, hmem, Memory.copy_add hoff (by omega)]
  rw [← hload] at h
  exact .block h

/-- The bytes of a copy that are left. -/
theorem leads_copyLoop (hr5 : c.r5 = -BitVec.ofNat 32 (len + 1)) (hlen : len < 2 ^ 32)
    (hstart : c.r2 + c.r5 = dst + BitVec.ofNat 32 n)
    (hfrom : c.r4 + c.r5 = dst + BitVec.ofNat 32 off) (hoff : off < n)
    (hmem : c.mem = m.copy dst n buf) (hn : n + (len + 1) ≤ 2 ^ 32) (hsize : n + (len + 1) ≤ size)
    (h : ∀ buf', copyForward size (len + 1) off n buf = some (n + (len + 1), buf') →
      ∀ r3 flags, Leads textCode P
        (.at .advance { c with
          r3 := r3
          r5 := 0
          flags := flags
          mem := m.copy dst (n + (len + 1)) buf' }) Q) :
    Leads textCode P (.at .copyLoop c) Q := by
  induction len generalizing c off n buf with
  | zero =>
    refine leads_copyByte hfrom hoff hmem (by omega) ?_
    refine leads_store (c := { c with r3 := (buf off).setWidth 32 }) hr5 hlen hstart rfl hmem hn
      (fun _ flags => ?_) (fun hne => absurd rfl hne)
    exact h _ (copyForward_succ (by omega)) _ _
  | succ len ih =>
    refine leads_copyByte hfrom hoff hmem (by omega) ?_
    refine leads_store (c := { c with r3 := (buf off).setWidth 32 }) hr5 hlen hstart rfl hmem
      (by omega) (fun hzero => absurd hzero (Nat.succ_ne_zero len)) (fun _ flags => ?_)
    have hsum (x : Word) (k : ℕ) (hx : x + c.r5 = dst + BitVec.ofNat 32 k) :
        x + -BitVec.ofNat 32 (len + 1) = dst + BitVec.ofNat 32 (k + 1) := by
      rw [← neg_ofNat_succ, ← hr5, ← BitVec.add_assoc, hx]
      exact Memory.add_ofNat_add dst k 1
    have hrest : n + 1 + (len + 1) = n + (len + 1 + 1) := by omega
    refine ih rfl (by omega) (hsum _ _ hstart) (hsum _ _ hfrom) (by omega : off + 1 < n + 1) rfl
      (by omega) (by omega) ?_
    intro buf' hcopy r3 flags
    rw [hrest] at hcopy ⊢
    exact h buf' ((copyForward_succ (by omega)).trans hcopy) _ _

/-! ## The outer loop -/

theorem add_one_add_sub_one (x y : Word) : x + 1 + y - 1 = x + y := by
  bv_omega

/-- Where a copy starts, from where it ends. -/
theorem start_of_place {x : Word} {k : ℕ} (h : x = dst + BitVec.ofNat 32 n) (hk : k ≤ n) :
    x + -BitVec.ofNat 32 k = dst + BitVec.ofNat 32 (n - k) := by
  have hsum := Memory.add_ofNat_add dst (n - k) k
  rw [Nat.sub_add_cancel hk] at hsum
  rw [h, ← hsum]
  bv_omega

/-- Where a copy reads, from where it starts. -/
theorem back_of_start {x y : Word} (h : x + y = dst + BitVec.ofNat 32 n) (hle : offset.toNat ≤ n) :
    x - offset.setWidth 32 + y = dst + BitVec.ofNat 32 (n - offset.toNat) := by
  have hsum := Memory.add_ofNat_add dst (n - offset.toNat) offset.toNat
  rw [Nat.sub_add_cancel hle, BitVec.ofNat_toNat] at hsum
  have hcomm : x - offset.setWidth 32 + y = x + y - offset.setWidth 32 := by bv_omega
  rw [hcomm, h, ← hsum]
  exact BitVec.add_sub_cancel _ _

/-- The difference of a register and itself with a carry. -/
theorem not_add_carry (x : Word) (k : Bool) :
    x + ~~~x + (BitVec.ofBool k).setWidth 32 = if k then 0 else -1 := by
  have hones : x + ~~~x = -1 := by
    rw [BitVec.not_eq_neg_add]
    bv_omega
  rw [hones]
  cases k <;> rfl

theorem getLsbD_seven (b : Byte) : (b.setWidth 32).getLsbD 7 = !decide (b < 0x80) := by
  rw [BitVec.getLsbD_setWidth, decide_eq_true (by decide), Bool.true_and]
  refine (BitVec.msb_eq_decide b).trans ?_
  rw [Bool.eq_iff_iff]
  simp [BitVec.lt_def]

/-- A byte of the stream that stands for itself, or one that is the length of a copy. -/
theorem leads_nextByte (hload : c.mem (c.r0 + c.r1) = b)
    (hliteral : b < 0x80 → ∀ r4 flags, Leads textCode P
      (.at .store { c with
        r2 := c.r2 + 1
        r3 := b.setWidth 32
        r4 := r4
        r5 := -1
        flags := flags }) Q)
    (hcopy : ¬b < 0x80 → ∀ r4 r5 flags, Leads textCode P
      (.at .length { c with
        r2 := c.r2 + 1
        r3 := b.setWidth 32
        r4 := r4
        r5 := r5
        flags := flags }) Q) :
    Leads textCode P (.at .next c) Q := by
  refine .block ?_
  dsimp [textCode, Cpu.carry]
  rw [hload]
  refine .ite (fun hne => ?_) (fun heq => ?_)
  · change (!(c.r5 + ~~~c.r5 + (BitVec.ofBool ((b.setWidth 32).getLsbD 7)).setWidth 32 == 0)) = true
      at hne
    rw [not_add_carry, getLsbD_seven] at hne
    have hlow : b < 0x80 := by simpa using hne
    have hr5 : c.r5 + ~~~c.r5 + (BitVec.ofBool ((b.setWidth 32).getLsbD 7)).setWidth 32 = -1 := by
      rw [not_add_carry, getLsbD_seven, decide_eq_true hlow]
      rfl
    rw [← hr5] at hliteral
    exact hliteral hlow _ _
  · change ¬(!(c.r5 + ~~~c.r5 + (BitVec.ofBool ((b.setWidth 32).getLsbD 7)).setWidth 32 == 0)) = true
      at heq
    rw [not_add_carry, getLsbD_seven] at heq
    exact hcopy (fun hlow => heq (by rw [decide_eq_true hlow]; rfl)) _ _ _

/-- The length and the offset of a copy. -/
theorem leads_length (hr3 : c.r3 = b.setWidth 32) (hb : ¬b < 0x80) (hr1 : c.r1 ≠ -1)
    (hload : c.mem (c.r0 + (c.r1 + 1)) = offset)
    (h : ∀ flags, Leads textCode P
      (.at .copyLoop { c with
        r1 := c.r1 + 1
        r2 := c.r2 + BitVec.ofNat 32 (0x100 - b.toNat) - 1
        r4 := c.r2 + BitVec.ofNat 32 (0x100 - b.toNat) - 1 - offset.setWidth 32
        r5 := -BitVec.ofNat 32 (0x100 - b.toNat)
        flags := flags }) Q) :
    Leads textCode P (.at .length c) Q := by
  have hsign : (c.r3.setWidth 8).signExtend 32 = -BitVec.ofNat 32 (0x100 - b.toNat) := by
    have hlt := b.isLt
    have hmsb : b.msb = true := by
      rw [BitVec.msb_eq_decide, decide_eq_true_eq]
      simpa [BitVec.lt_def] using hb
    have hbyte : c.r3.setWidth 8 = b := by
      rw [hr3]
      simp
    rw [hbyte, BitVec.toNat_eq, BitVec.toNat_signExtend, hmsb, if_pos rfl, BitVec.toNat_setWidth,
      BitVec.toNat_neg, BitVec.toNat_ofNat]
    omega
  -- the carry of the addition is clear, and so is a borrow of the subtraction after it
  have hcarry : (Flags.ofAdd c.r1 1#32).c = false := by
    have hlt := c.r1.isLt
    have hne : c.r1.toNat ≠ 2 ^ 32 - 1 := fun h => hr1 (BitVec.eq_of_toNat_eq h)
    refine decide_eq_false ?_
    change ¬2 ^ 32 ≤ c.r1.toNat + 1
    omega
  have hsub (k : Word) : c.r2 + ~~~(-k) + (BitVec.ofBool false).setWidth 32 = c.r2 + k - 1 := by
    rw [BitVec.not_eq_neg_add, BitVec.neg_neg]
    change c.r2 + (k - 1) + 0 = _
    bv_omega
  have hload' : c.mem (c.r0 + (c.r1 + 1#32)) = offset := hload
  refine .block ?_
  dsimp [textCode, Cpu.carry]
  rw [hload', hsign, hcarry, hsub]
  exact h _

/-- The end of the loop, or its next turn. -/
theorem leads_advance {k : ℕ} (hr1 : c.r1 + 1 = -BitVec.ofNat 32 k) (hk : k < 2 ^ 32)
    (hdone : k = 0 → ∀ flags, Leads textCode P
      (.at .textReturn { c with r1 := c.r1 + 1, flags := flags }) Q)
    (hmore : k ≠ 0 → ∀ flags, Leads textCode P
      (.at .next { c with r1 := c.r1 + 1, flags := flags }) Q) :
    Leads textCode P (.at .advance c) Q := by
  refine .block (.bcond (fun hne => hmore ?_ _) (fun heq => hdone ?_ _))
  · change (!(c.r1 + 1 == 0)) = true at hne
    rintro rfl
    rw [hr1] at hne
    exact absurd hne (by decide)
  · change (!(c.r1 + 1 == 0)) = false at heq
    have hzero : -BitVec.ofNat 32 k = 0 := by
      rw [hr1] at heq
      simpa using heq
    have hnat := congrArg BitVec.toNat (BitVec.neg_eq_zero_iff.mp hzero)
    rwa [BitVec.toNat_ofNat, Nat.mod_eq_of_lt hk] at hnat

/-- The bytes `rest` are what is left of a stream that ends at `last`, where `index` is the negated
number of them, in the memory `m` and outside of a destination of `total` bytes. -/
structure StreamAt (m : Memory 32) (dst : Word) (total : ℕ) (rest : List Byte) (last index : Word) :
    Prop where
  index_eq : index = -BitVec.ofNat 32 rest.length
  length_lt : rest.length < 2 ^ 32
  bytes : m.bytesAt (last + index) rest.length = rest
  outside : Memory.Disjoint (last + index) rest.length dst total

namespace StreamAt

variable {total : ℕ} {last index : Word}

/-- The next byte of the stream. -/
theorem load (h : StreamAt m dst total (b :: rest) last index) (hmem : c.mem = m.copy dst n buf)
    (hn : n ≤ total) : c.mem (last + index) = b := by
  have hstream := h.bytes
  rw [List.length_cons, Memory.bytesAt_succ] at hstream
  rw [hmem, Memory.copy_of_not_inRange, (List.cons.inj hstream).1]
  refine fun hin => h.outside _ ?_ (Nat.lt_of_lt_of_le hin hn)
  rw [Memory.InRange, BitVec.sub_self]
  exact Nat.zero_lt_succ _

theorem tail (h : StreamAt m dst total (b :: rest) last index) :
    StreamAt m dst total rest last (index + 1) where
  index_eq := by
    rw [h.index_eq]
    exact neg_ofNat_succ _
  length_lt := Nat.lt_of_succ_lt h.length_lt
  bytes := by
    have hstream := h.bytes
    rw [List.length_cons, Memory.bytesAt_succ] at hstream
    rw [← BitVec.add_assoc]
    exact (List.cons.inj hstream).2
  outside x hx := by
    rw [← BitVec.add_assoc] at hx
    refine h.outside x (Memory.inRange_of_add (d := 1) rfl ?_ hx)
    rw [List.length_cons, Nat.add_comm]

/-- While a byte is left, the index is not at its end. -/
theorem index_ne (h : StreamAt m dst total (b :: rest) last (index + 1)) : index ≠ -1 := by
  rintro rfl
  have hzero : -BitVec.ofNat 32 (rest.length + 1) = 0 := h.index_eq.symm
  have hnat := congrArg BitVec.toNat (BitVec.neg_eq_zero_iff.mp hzero)
  have hlt : rest.length + 1 < 2 ^ 32 := h.length_lt
  rw [BitVec.toNat_ofNat, Nat.mod_eq_of_lt hlt] at hnat
  exact absurd hnat (Nat.succ_ne_zero _)

end StreamAt

/-- What a run of the loop with the bytes `rest` comes to, from the state `c`. -/
def Decoded (P : Placement TextLabel) (Q : Config TextLabel → Prop) (size : ℕ) (m : Memory 32)
    (dst : Word) (n : ℕ) (buf : ℕ → Byte) (rest : List Byte) (c : Cpu) : Prop :=
  ∀ buf', decompressLoop size rest n buf = some (n + represented rest, buf') →
    ∀ r1 r2 r3 r4 r5 flags, Leads textCode P
      (.at .textReturn { c with
        r1 := r1
        r2 := r2
        r3 := r3
        r4 := r4
        r5 := r5
        flags := flags
        mem := m.copy dst (n + represented rest) buf' }) Q

/-- The loop computes what the loop of `decompress` computes, in the destination. -/
theorem leads_next (hrest : rest ≠ []) (hoffsets : OffsetsOk n rest)
    (hstream : StreamAt m dst (n + represented rest) rest c.r0 c.r1)
    (hplace : c.r2 = dst + BitVec.ofNat 32 n) (hmem : c.mem = m.copy dst n buf)
    (htotal : n + represented rest ≤ 2 ^ 32) (hsize : n + represented rest ≤ size)
    (h : Decoded P Q size m dst n buf rest c) : Leads textCode P (.at .next c) Q := by
  induction hlen : rest.length using Nat.strong_induction_on generalizing rest n buf c with
  | _ k ih =>
  subst hlen
  -- what comes after the bytes that one byte of the stream stands for
  have hadvance {n' : ℕ} {buf' : ℕ → Byte} {rest' : List Byte} {c' : Cpu}
      (hlen : rest'.length < rest.length) (hoffsets : OffsetsOk n' rest')
      (hstream : StreamAt m dst (n' + represented rest') rest' c'.r0 (c'.r1 + 1))
      (hplace : c'.r2 = dst + BitVec.ofNat 32 n') (hmem : c'.mem = m.copy dst n' buf')
      (htotal : n' + represented rest' ≤ 2 ^ 32) (hsize : n' + represented rest' ≤ size)
      (h : Decoded P Q size m dst n' buf' rest' c') : Leads textCode P (.at .advance c') Q := by
    refine leads_advance hstream.index_eq hstream.length_lt (fun hzero flags => ?_)
      (fun hne flags => ?_)
    · obtain rfl := List.length_eq_zero_iff.mp hzero
      have hend := h buf' rfl (c'.r1 + 1) c'.r2 c'.r3 c'.r4 c'.r5 flags
      rwa [represented, Nat.add_zero, ← hmem] at hend
    · have hne' : rest' ≠ [] := fun hnil => hne (List.length_eq_zero_iff.mpr hnil)
      exact ih rest'.length hlen (c := { c' with r1 := c'.r1 + 1, flags := flags }) hne' hoffsets
        hstream hplace hmem htotal hsize h rfl
  cases rest with
  | nil => exact absurd rfl hrest
  | cons b rest =>
    have hload := hstream.load hmem (Nat.le_add_right _ _)
    refine leads_nextByte hload (fun hb r4 flags => ?_) (fun hb r4 r5 flags => ?_)
    · unfold Decoded at h
      rw [represented_literal hb, ← Nat.add_assoc] at hstream htotal hsize h
      rw [decompressLoop_literal hb (by omega)] at h
      refine leads_store (rfl : (-1 : Word) = -BitVec.ofNat 32 (0 + 1)) (by decide)
        (?_ : c.r2 + 1 + -1 = dst + BitVec.ofNat 32 n) rfl hmem (by omega) (fun _ flags => ?_)
        (fun hne => absurd rfl hne)
      · rw [← hplace]
        bv_omega
      · refine hadvance (by simp) ((offsetsOk_literal hb).mp hoffsets) hstream.tail ?_ rfl htotal
          hsize h
        change c.r2 + 1 = _
        rw [hplace]
        exact Memory.add_ofNat_add dst n 1
    · obtain ⟨offset, rest, rfl, hpos, hle, hoffsets⟩ := offsetsOk_copy hb hoffsets
      have hbyte := b.isLt
      unfold Decoded at h
      rw [represented_copy hb, ← Nat.add_assoc] at hstream htotal hsize h
      obtain ⟨len, hlen⟩ : ∃ len, 0x100 - b.toNat = len + 1 := ⟨0xff - b.toNat, by omega⟩
      rw [hlen] at hstream htotal hsize h hoffsets
      have hplace' : c.r2 + 1 + BitVec.ofNat 32 (len + 1) - 1 = dst + BitVec.ofNat 32 (n + (len + 1)) := by
        rw [add_one_add_sub_one, hplace]
        exact Memory.add_ofNat_add dst n (len + 1)
      have hstart := start_of_place hplace' (Nat.le_add_left (len + 1) n)
      rw [Nat.add_sub_cancel] at hstart
      refine leads_length rfl hb hstream.tail.index_ne (hstream.tail.load hmem (by omega))
        fun flags => ?_
      rw [hlen]
      refine leads_copyLoop rfl (by omega : len < 2 ^ 32) hstart (back_of_start hstart hle)
        (by omega) hmem (by omega) (by omega : n + (len + 1) ≤ size) fun buf' hcopy r3 flags => ?_
      rw [← hlen] at hcopy
      rw [decompressLoop_copy hb (by omega) hle hcopy] at h
      rw [hlen] at h hcopy
      exact hadvance (by simp only [List.length_cons]; omega) hoffsets hstream.tail.tail hplace' rfl htotal hsize h

/-! ## The routine -/

/-- What a caller gives : a stream that ends at `r0` and has `r1` bytes, and a destination at `r2`,
none of them in the part of the stack that is pushed to. -/
structure DecompressCall (data : List Byte) (c : Cpu) : Prop where
  length_lt : data.length < 2 ^ 32
  length_eq : c.r1 = BitVec.ofNat 32 data.length
  stream : c.mem.bytesAt (c.r0 - c.r1) data.length = data
  disjoint : Memory.Disjoint (c.r0 - c.r1) data.length c.r2 (represented data)
  stream_stack : Memory.Disjoint (c.r0 - c.r1) data.length (c.sp - 12) 12
  dest_stack : Memory.Disjoint (c.sp - 12) 12 c.r2 (represented data)

/-- A destination that a byte is outside of does not cover the memory. -/
theorem lt_of_disjoint {a a' : Word} {k k' : ℕ} (hk : 0 < k) (h : Memory.Disjoint a k a' k') :
    k' ≤ 2 ^ 32 := by
  have hin : Memory.InRange a k a := by
    rw [Memory.InRange, BitVec.sub_self]
    exact hk
  exact (Nat.le_of_not_lt (h a hin)).trans (a - a').isLt.le

theorem leads_textReturn (c₀ : Cpu) (hc : Framed [r4, r5, lr] c₀ m c) :
    Leads textCode P (.at .textReturn c) fun y => ∃ c', y = P.jump c₀.lr c' ∧ Preserved c₀ c' ∧
      ∀ a, ¬Memory.InRange (c₀.sp - 12) 12 a → c'.mem a = m a := by
  obtain ⟨c', hnext, hkept, -, hmem⟩ :=
    (show Framed ([r4, r5] ++ [lr]) c₀ m c from hc).popPc P
  exact .block (.now ⟨c', hnext, hkept, fun a ha => (congrFun hmem a).trans (hc.outside a ha)⟩)

/-- The routine does what `decompress` does with a buffer that is large enough. -/
theorem leads_textDecompress {data : List Byte} (hne : data ≠ []) (hoffsets : OffsetsOk 0 data)
    (hcall : DecompressCall data c) (buf : ℕ → Byte) (hsize : represented data < size) :
    Leads textCode P (.at .textDecompress c) fun y => ∃ c' buf',
      decompress data buf size = some (represented data, buf') ∧ y = P.jump c.lr c' ∧
      Preserved c c' ∧ ∀ a, ¬Memory.InRange (c.sp - 12) 12 a →
        c'.mem a = c.mem.copy c.r2 (represented data) buf' a := by
  refine .push rfl (by decide) fun c₁ hc₁ hregs _ => ?_
  have hr0 : c₁.r0 = c.r0 := hregs .r0 (by decide)
  have hr1 : c₁.r1 = c.r1 := hregs .r1 (by decide)
  have hr2 : c₁.r2 = c.r2 := hregs .r2 (by decide)
  have hindex : c₁.r0 + -c₁.r1 = c.r0 - c.r1 := by
    rw [hr0, hr1, BitVec.sub_eq_add_neg]
  have hbytes : c₁.mem.bytesAt (c.r0 - c.r1) data.length = data :=
    (Memory.bytesAt_congr fun x hx => hc₁.outside x (hcall.stream_stack x hx)).trans hcall.stream
  have htotal := lt_of_disjoint (List.length_pos_iff.mpr hne) hcall.disjoint
  dsimp
  refine leads_next hne hoffsets ⟨?_, hcall.length_lt, ?_, ?_⟩ ?_ ?_ ?_ ?_
    (?_ : Decoded P _ size c₁.mem c.r2 0 buf data _)
  · rw [hr1, hcall.length_eq]
  · rw [hindex, hbytes]
  · rw [hindex, Nat.zero_add]
    exact hcall.disjoint
  · exact hr2.trans (BitVec.add_zero c.r2).symm
  · exact (Memory.copy_zero _ _ _).symm
  · rwa [Nat.zero_add]
  · omega
  · intro buf' hloop r1 r2 r3 r4 r5 flags
    rw [Nat.zero_add] at hloop ⊢
    refine Leads.mono (leads_textReturn c (hc₁.copy hcall.dest_stack)) ?_
    rintro _ ⟨c', rfl, hkept, hmem⟩
    refine ⟨c', buf', ?_, rfl, hkept, hmem⟩
    rw [decompress, hloop, Option.map_some, if_neg (Nat.ne_of_lt hsize)]

end Runs

/-! ## Streams of the generator -/

theorem copyForward_le {n' : ℕ} {buf' : ℕ → Byte} (hn : n ≤ size)
    (h : copyForward size len off n buf = some (n', buf')) : n' ≤ size := by
  induction len generalizing off n buf with
  | zero =>
    obtain ⟨rfl, -⟩ := Prod.mk.inj (Option.some.inj h)
    exact hn
  | succ len ih =>
    rw [copyForward] at h
    split_ifs at h with hlt
    exact ih hlt h

/-- The loop of `decompress` does not leave its buffer. -/
theorem decompressLoop_le {data : List Byte} {n' : ℕ} {buf' : ℕ → Byte} (hn : n ≤ size)
    (h : decompressLoop size data n buf = some (n', buf')) : n' ≤ size := by
  induction hlen : data.length using Nat.strong_induction_on generalizing data n buf with
  | _ k ih =>
  subst hlen
  cases data with
  | nil =>
    obtain ⟨rfl, -⟩ := Prod.mk.inj (Option.some.inj h)
    exact hn
  | cons b data =>
    rw [decompressLoop.eq_def] at h
    dsimp only at h
    split_ifs at h with hlt hb
    · exact ih data.length (by simp) hlt h rfl
    · cases data with
      | nil => exact absurd h (by simp)
      | cons offset data =>
        dsimp only at h
        split_ifs at h with hle
        obtain ⟨⟨n₁, buf₁⟩, hcopy, hrest⟩ := Option.bind_eq_some_iff.mp h
        exact ih data.length (by simp only [List.length_cons]; omega) (copyForward_le hn hcopy) hrest rfl
    · obtain ⟨rfl, -⟩ := Prod.mk.inj (Option.some.inj h)
      exact hn

/-- A text that was compressed has its length and bytes below the limits of the generator. -/
theorem compress_limits {checkBuf : ℕ → Byte} {src data : List Byte}
    (h : compress checkBuf src = .ok data) (hne : src ≠ []) :
    src.length < 4096 ∧ ∀ b ∈ src, b < 0x80 := by
  unfold compress at h
  split_ifs at h with hany
  refine ⟨?_, fun b hb => ?_⟩
  · have hpos := List.length_pos_iff.mpr hne
    dsimp only at h
    cases hdec : decompress (compressFrom src 0) checkBuf 4096 with
    | none => rw [hdec] at h; simp at h
    | some r =>
      rw [hdec] at h
      dsimp only at h
      split_ifs at h with hcheck
      rw [not_or, not_not] at hcheck
      obtain ⟨⟨n, buf⟩, hloop, hr⟩ := Option.map_eq_some_iff.mp hdec
      have hle := decompressLoop_le (Nat.zero_le _) hloop
      have hn : r.1 = if n = 4096 then 0 else n := by rw [← hr]
      split_ifs at hn <;> omega
  · by_contra hhigh
    exact hany (List.any_eq_true.mpr ⟨b, hb, by simpa using hhigh⟩)

theorem copyForward_fst {n' : ℕ} {buf' : ℕ → Byte}
    (h : copyForward size len off n buf = some (n', buf')) : n' = n + len := by
  induction len generalizing off n buf with
  | zero =>
    obtain ⟨rfl, -⟩ := Prod.mk.inj (Option.some.inj h)
    rfl
  | succ len ih =>
    rw [copyForward] at h
    split_ifs at h with hlt
    have := ih h
    omega

/-- A loop that does not fill its buffer has read the whole stream. -/
theorem decompressLoop_fst {data : List Byte} {n' : ℕ} {buf' : ℕ → Byte}
    (hoffsets : OffsetsOk n data) (h : decompressLoop size data n buf = some (n', buf'))
    (hn' : n' < size) : n' = n + represented data := by
  induction hlen : data.length using Nat.strong_induction_on generalizing data n buf with
  | _ k ih =>
  subst hlen
  cases data with
  | nil =>
    obtain ⟨rfl, -⟩ := Prod.mk.inj (Option.some.inj h)
    rfl
  | cons b data =>
    by_cases hn : n < size
    · by_cases hb : b < 0x80
      · rw [decompressLoop_literal hb hn] at h
        rw [represented_literal hb, ih data.length (by simp) ((offsetsOk_literal hb).mp hoffsets) h
          rfl, Nat.add_assoc]
      · obtain ⟨offset, data, rfl, -, hle, hoffsets⟩ := offsetsOk_copy hb hoffsets
        rw [decompressLoop.eq_def] at h
        dsimp only at h
        rw [if_pos hn, if_neg hb, if_pos hle] at h
        obtain ⟨⟨n₁, buf₁⟩, hcopy, hrest⟩ := Option.bind_eq_some_iff.mp h
        obtain rfl := copyForward_fst hcopy
        rw [represented_copy hb, ih data.length (by simp only [List.length_cons]; omega) hoffsets hrest rfl, Nat.add_assoc]
    · rw [decompressLoop.eq_def] at h
      dsimp only at h
      rw [if_neg hn] at h
      obtain ⟨rfl, -⟩ := Prod.mk.inj (Option.some.inj h)
      exact absurd hn' hn

/-- What the generator has compressed. -/
theorem compress_represented {checkBuf : ℕ → Byte} {src data : List Byte}
    (h : compress checkBuf src = .ok data) (hne : src ≠ []) :
    data ≠ [] ∧ OffsetsOk 0 data ∧ represented data = src.length ∧ src.length < 4096 ∧
      ∀ buf, ∃ buf', decompress data buf 4096 = some (src.length, buf') ∧
        (List.range src.length).map buf' = src := by
  obtain ⟨hlen, hlow⟩ := compress_limits h hne
  obtain ⟨data', hdata', -, hoffsets, hround⟩ := compress_ok checkBuf hlen hlow
  obtain rfl : data = data' := Except.ok.inj (h.symm.trans hdata')
  have hpos := List.length_pos_iff.mpr hne
  obtain ⟨buf', hdec, -⟩ := hround checkBuf
  obtain ⟨⟨n, buf⟩, hloop, hr⟩ := Option.map_eq_some_iff.mp hdec
  have hle := decompressLoop_le (Nat.zero_le _) hloop
  have hn : src.length = if n = 4096 then 0 else n := (Prod.mk.inj hr).1.symm
  have hn : n = src.length ∧ n < 4096 := by split_ifs at hn <;> omega
  have hrep := decompressLoop_fst hoffsets hloop hn.2
  refine ⟨?_, hoffsets, by omega, hlen, hround⟩
  rintro rfl
  rw [represented] at hrep
  omega

/-! ## The routine and the generator -/

/-- `poor_mans_text_decompress` ends, and writes to its destination what `decompress` of the
generator writes to a buffer that is larger than what it returns, and nothing else outside of the
twelve bytes below the stack pointer. A stream that the generator has compressed becomes the text
again. -/
theorem text_decompress_refines (P : Placement TextLabel) :
    (∀ data c, data ≠ [] → OffsetsOk 0 data → DecompressCall data c →
      ∀ buf size, represented data < size →
        Leads textCode P (.at .textDecompress c) fun y => ∃ c' buf',
          decompress data buf size = some (represented data, buf') ∧ y = P.jump c.lr c' ∧
          Preserved c c' ∧ ∀ a, ¬Memory.InRange (c.sp - 12) 12 a →
            c'.mem a = c.mem.copy c.r2 (represented data) buf' a) ∧
    ∀ checkBuf src data c, src ≠ [] → compress checkBuf src = .ok data → DecompressCall data c →
      Leads textCode P (.at .textDecompress c) fun y => ∃ c', y = P.jump c.lr c' ∧ Preserved c c' ∧
        ∀ a, ¬Memory.InRange (c.sp - 12) 12 a →
          c'.mem a = c.mem.copy c.r2 src.length (fun i => src.getD i 0) a := by
  refine ⟨fun data c hne hoffsets hcall buf size hsize =>
    leads_textDecompress hne hoffsets hcall buf hsize, fun checkBuf src data c hne hok hcall => ?_⟩
  obtain ⟨hdata, hoffsets, hrep, hlen, hround⟩ := compress_represented hok hne
  refine (leads_textDecompress hdata hoffsets hcall checkBuf
    (by omega : represented data < 4096)).mono ?_
  rintro _ ⟨c', buf', hdec, rfl, hkept, hmem⟩
  refine ⟨c', rfl, hkept, fun a ha => ?_⟩
  obtain ⟨buf, hdec', hbuf⟩ := hround checkBuf
  obtain rfl : buf' = buf := by
    rw [hdec'] at hdec
    exact (Prod.mk.inj (Option.some.inj hdec)).2.symm
  rw [hmem a ha, hrep, Memory.copy_congr fun i hi => ?_]
  rw [List.getD_eq_getElem?_getD, ← hbuf]
  simp [hi]

/-- The labels after one another. -/
def textPlacement : Placement TextLabel :=
  .ofLabels [.textDecompress, .next, .length, .copyLoop, .store, .advance, .textReturn]
    (by intro l; cases l <;> decide) (by decide)

/-- A call for a stream of the bytes `61 fe 01` at `0x20000100`, which stands for a text of three
bytes. -/
def textCpu : Cpu :=
  { Cpu.cleared 0x20041f00 0x10000101
      (Memory.copy (fun _ => 0) 0x20000100 3 fun i => [0x61, 0xfe, 0x01].getD i 0) with
    r0 := 0x20000103, r1 := 3, r2 := 0x20000200, r4 := 0x11 }

theorem textCpu_call : DecompressCall [0x61, 0xfe, 0x01] textCpu where
  length_lt := by decide
  length_eq := rfl
  stream := by decide
  disjoint := Memory.disjoint_of_le (by decide) (by decide)
  stream_stack := Memory.disjoint_of_le (by decide) (by decide)
  dest_stack := (Memory.disjoint_of_le (by decide) (by decide)).symm

theorem text_decompress_refines_aaa :
    Leads textCode textPlacement (.at .textDecompress textCpu) fun y => ∃ c' buf',
      decompress [0x61, 0xfe, 0x01] (fun _ => 0) 4096 = some (3, buf') ∧
      y = textPlacement.jump 0x10000101 c' ∧ Preserved textCpu c' ∧
      ∀ a, ¬Memory.InRange (0x20041f00 - 12) 12 a →
        c'.mem a = textCpu.mem.copy 0x20000200 3 buf' a :=
  (text_decompress_refines textPlacement).1 [0x61, 0xfe, 0x01] textCpu (by decide)
    (by simp [OffsetsOk]) textCpu_call (fun _ => 0) 4096 (by decide)

/-- The registers that are pushed change a byte outside of the destination. -/
theorem text_decompress_pushes : Leads textCode textPlacement (.at .textDecompress textCpu)
    fun y => y = textPlacement.jump textCpu.lr y.cpu ∧
      ¬Memory.InRange textCpu.r2 3 (textCpu.sp - 12) ∧
      y.cpu.mem (textCpu.sp - 12) ≠ textCpu.mem (textCpu.sp - 12) := by
  refine ⟨12, ?_, ?_, ?_⟩
  · rfl
  · decide
  · decide

end PicoBootrom
