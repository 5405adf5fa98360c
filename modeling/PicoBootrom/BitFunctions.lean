import PicoBootrom.BitFields
import PicoBootrom.ThumbStack

/-!
# Bit functions

`popcount32` adds up the bits in fields of three and of six bits, and collects the fields by one
multiplication (`BitFields`). `reverse32` exchanges neighbouring bits, pairs of bits and groups of
four, and then the bytes. `clz32` and `ctz32` find out by shifts in which part of the word the bit
is that they look for, and read the rest of the answer from a table of 64 bytes.
-/

namespace PicoBootrom

open Thumb Thumb.Reg BitFields

/-! ## The source -/

/-- The labels of the bit functions, and names for the instructions after their branches. A label of
`clz32` and `ctz32` has the range of bits in it that is left. -/
inductive BitLabel
  | popcount32 | reverse32
  | clz32 | clz16to31 | clz22to31 | clz28to31 | clz16to21 | clz22to27
  | clz0to15 | clz6to15 | clz12to15 | clz0to5 | clz6to11
  | ctz32 | ctz0to15 | ctz0to9 | ctz0to3 | ctz10to15 | ctz4to9
  | ctz16to31 | ctz16to25 | ctz16to19 | ctz26to31 | ctz20to25
  | ctzLoadLow | ctzLoad10 | ctzLoad4 | ctzLoad16 | ctzLoad26 | ctzLoad20
  deriving DecidableEq, Repr

/-- The code of the bit functions, with the addresses of the tables. -/
def bitCode (clz6Table ctz6Table : BitVec 32) : BitLabel → Block BitLabel
  | .popcount32 => ⟨[
      ldrLit r1 0x49249249,
      lsrs r2 r0 1,
      ands r2 r1,
      lsrs r3 r0 2,
      ands r3 r1,
      ands r0 r1,
      adds r0 r0 r2,
      adds r0 r0 r3,
      lsrs r1 r0 3,
      adds r0 r0 r1,
      ldrLit r1 0xC71C71C7,
      ands r0 r1,
      lsrs r1 r0 6,
      adds r0 r0 r1,
      ldrLit r1 0x04004004,
      muls r0 r1,
      lsrs r0 r0 26],
      .bx lr⟩
  | .reverse32 => ⟨[
      ldrLit r2 0xcccccccc,
      lsrs r1 r2 1,
      eors r1 r2,
      lsls r3 r0 1,
      ands r3 r1,
      ands r0 r1,
      lsrs r0 r0 1,
      orrs r0 r3,
      lsls r3 r0 2,
      ands r3 r2,
      ands r0 r2,
      lsrs r0 r0 2,
      orrs r3 r0,
      ldrLit r2 0xf0f0f0f0,
      lsls r0 r3 4,
      ands r0 r2,
      ands r3 r2,
      lsrs r3 r3 4,
      orrs r0 r3,
      rev r0 r0],
      .bx lr⟩
  | .clz32 => ⟨[ldrLit r3 clz6Table, lsrs r1 r0 16], .bcond .ne .clz0to15 .clz16to31⟩
  | .clz16to31 => ⟨[lsrs r1 r0 10], .bcond .ne .clz16to21 .clz22to31⟩
  | .clz22to31 => ⟨[lsrs r1 r0 4], .bcond .ne .clz22to27 .clz28to31⟩
  | .clz28to31 => ⟨[ldrb r0 r3 r0, adds r0 r0 26], .bx lr⟩
  | .clz16to21 => ⟨[ldrb r0 r3 r1, adds r0 r0 16], .bx lr⟩
  | .clz22to27 => ⟨[ldrb r0 r3 r1, adds r0 r0 22], .bx lr⟩
  | .clz0to15 => ⟨[lsrs r0 r1 10], .bcond .ne .clz0to5 .clz6to15⟩
  | .clz6to15 => ⟨[lsrs r0 r1 4], .bcond .ne .clz6to11 .clz12to15⟩
  | .clz12to15 => ⟨[ldrb r0 r3 r1, adds r0 r0 10], .bx lr⟩
  | .clz0to5 => ⟨[ldrb r0 r3 r0], .bx lr⟩
  | .clz6to11 => ⟨[ldrb r0 r3 r0, adds r0 r0 6], .bx lr⟩
  | .ctz32 => ⟨[ldrLit r3 ctz6Table, lsls r1 r0 16], .bcond .eq .ctz16to31 .ctz0to15⟩
  | .ctz0to15 => ⟨[lsls r0 r1 6], .bcond .eq .ctz10to15 .ctz0to9⟩
  | .ctz0to9 => ⟨[lsls r1 r0 6], .bcond .eq .ctz4to9 .ctz0to3⟩
  | .ctz0to3 => ⟨[lsrs r1 r1 28, adds r1 r1 16], .b .ctzLoadLow⟩
  | .ctzLoadLow => ⟨[ldrb r0 r3 r1], .bx lr⟩
  | .ctz10to15 => ⟨[lsrs r1 r1 26], .b .ctzLoad10⟩
  | .ctzLoad10 => ⟨[ldrb r0 r3 r1, adds r0 r0 10], .bx lr⟩
  | .ctz4to9 => ⟨[lsrs r0 r0 26], .b .ctzLoad4⟩
  | .ctzLoad4 => ⟨[ldrb r0 r3 r0, adds r0 r0 4], .bx lr⟩
  | .ctz16to31 => ⟨[lsls r1 r0 6], .bcond .eq .ctz26to31 .ctz16to25⟩
  | .ctz16to25 => ⟨[lsls r0 r1 6], .bcond .eq .ctz20to25 .ctz16to19⟩
  | .ctz16to19 => ⟨[lsrs r0 r0 28, adds r0 r0 16], .b .ctzLoad16⟩
  | .ctzLoad16 => ⟨[ldrb r0 r3 r0, adds r0 r0 16], .bx lr⟩
  | .ctz26to31 => ⟨[lsrs r0 r0 26], .b .ctzLoad26⟩
  | .ctzLoad26 => ⟨[ldrb r0 r3 r0, adds r0 r0 26], .bx lr⟩
  | .ctz20to25 => ⟨[lsrs r1 r1 26], .b .ctzLoad20⟩
  | .ctzLoad20 => ⟨[ldrb r0 r3 r1, adds r0 r0 20], .bx lr⟩

/-- The table of the leading zeros in six bits. -/
def clz6Table : List (BitVec 8) :=
  [6, 5, 4, 4, 3, 3, 3, 3, 2, 2, 2, 2, 2, 2, 2, 2, 1, 1, 1, 1, 1, 1, 1, 1, 1, 1, 1, 1, 1, 1, 1, 1,
   0, 0, 0, 0, 0, 0, 0, 0, 0, 0, 0, 0, 0, 0, 0, 0, 0, 0, 0, 0, 0, 0, 0, 0, 0, 0, 0, 0, 0, 0, 0, 0]

/-- The table of the trailing zeros in six bits. -/
def ctz6Table : List (BitVec 8) :=
  [6, 0, 1, 0, 2, 0, 1, 0, 3, 0, 1, 0, 2, 0, 1, 0, 4, 0, 1, 0, 2, 0, 1, 0, 3, 0, 1, 0, 2, 0, 1, 0,
   5, 0, 1, 0, 2, 0, 1, 0, 3, 0, 1, 0, 2, 0, 1, 0, 4, 0, 1, 0, 2, 0, 1, 0, 3, 0, 1, 0, 2, 0, 1, 0]

/-- The register with the index into the table, in the blocks that start with a load from it. -/
def tableIndex : BitLabel → Option Reg
  | .clz28to31 | .clz0to5 | .clz6to11 | .ctzLoad4 | .ctzLoad16 | .ctzLoad26 => some r0
  | .clz16to21 | .clz22to27 | .clz12to15 | .ctzLoadLow | .ctzLoad10 | .ctzLoad20 => some r1
  | _ => none

/-- A load is from one of the 64 bytes of the table. -/
def LoadsInside (table : BitVec 32) : Config BitLabel → Prop
  | .at l c => ∀ r, tableIndex l = some r → c.r3 = table ∧ (c.get r).toNat < 64
  | .out _ _ => True

/-- A return with a value to the caller of the state `c₀`, which finds its registers and its memory
as they were. -/
def Returned (P : Placement BitLabel) (c₀ : Cpu) (x : BitVec 32) (y : Config BitLabel) : Prop :=
  ∃ c, y = P.jump c₀.lr c ∧ c.r0 = x ∧ Kept 0 c₀ c

/-! ## Counting bits -/

section Popcount

variable (x : BitVec 32)

/-- The bits of the `k`-th three bits, added up. -/
def bitCount (k : ℕ) : ℕ :=
  (x.getLsbD (3 * k)).toNat + (x.getLsbD (1 + 3 * k)).toNat + (x.getLsbD (2 + 3 * k)).toNat

/-- One bit of each three bits. -/
theorem toNat_and_thirds (j : ℕ) : (x >>> j &&& 0x49249249#32).toNat =
    fieldSum 3 11 fun k => (x.getLsbD (j + 3 * k)).toNat := by
  have hmask : (0x49249249#32).toNat = fieldSum 3 11 fun _ => 1 := rfl
  have hlt : x.toNat / 2 ^ j < 2 ^ (3 * 11) :=
    (Nat.div_le_self _ _).trans_lt (x.isLt.trans (by decide))
  rw [BitVec.toNat_and, BitVec.toNat_ushiftRight, Nat.shiftRight_eq_div_pow, hmask, eq_fieldSum hlt,
    fieldSum_land (fun _ _ => Nat.mod_lt _ (by decide)) (fun _ _ => by decide)]
  refine fieldSum_congr fun k _ => ?_
  rw [Nat.and_one_is_mod, Nat.mod_mod_of_dvd _ (by decide), Nat.div_div_eq_div_mul, ← Nat.pow_add]
  exact (Nat.toNat_testBit _ _).symm

theorem bitCount_le (k : ℕ) : bitCount x k ≤ 3 := by
  have h (i : ℕ) : (x.getLsbD i).toNat ≤ 1 := Bool.toNat_le _
  have h₀ := h (3 * k)
  have h₁ := h (1 + 3 * k)
  have h₂ := h (2 + 3 * k)
  unfold bitCount
  omega

theorem bitCount_ten : bitCount x 10 ≤ 2 := by
  have h (i : ℕ) : (x.getLsbD i).toNat ≤ 1 := Bool.toNat_le _
  have h₀ := h (3 * 10)
  have h₁ := h (1 + 3 * 10)
  have h₂ : x.getLsbD (2 + 3 * 10) = false := BitVec.getLsbD_of_ge x _ (by decide)
  unfold bitCount
  rw [h₂, Bool.toNat_false]
  omega

theorem bitCount_eleven : bitCount x 11 = 0 := by
  have h (i : ℕ) (hi : 32 ≤ i) : x.getLsbD i = false := BitVec.getLsbD_of_ge x i hi
  rw [bitCount, h _ (by decide), h _ (by decide), h _ (by decide)]
  rfl

/-- Eleven fields of three bits fit into a word if the last one has two bits. -/
theorem fieldSum_lt_word {f : ℕ → ℕ} (h : ∀ k < 10, f k < 8) (hlast : f 10 < 4) :
    fieldSum 3 11 f < 2 ^ 32 := by
  have hlt := fieldSum_lt (w := 3) h
  rw [fieldSum_succ]
  omega

/-- The first sum : the bits of each three bits. -/
theorem toNat_bitCounts :
    ((x &&& 0x49249249#32) + (x >>> 1 &&& 0x49249249#32) + (x >>> 2 &&& 0x49249249#32)).toNat =
      fieldSum 3 11 (bitCount x) := by
  have hfirst := toNat_and_thirds x 0
  rw [BitVec.ushiftRight_zero] at hfirst
  rw [BitVec.toNat_add, BitVec.toNat_add, Nat.mod_add_mod, hfirst, toNat_and_thirds,
    toNat_and_thirds, fieldSum_add, fieldSum_add]
  simp only [Nat.zero_add]
  refine Nat.mod_eq_of_lt (fieldSum_lt_word (fun k _ => ?_) ?_)
  · exact Nat.lt_of_le_of_lt (bitCount_le x k) (by decide)
  · exact Nat.lt_of_le_of_lt (bitCount_ten x) (by decide)

/-- The bits of the `k`-th three bits and of the three bits after them. -/
def pairCount (k : ℕ) : ℕ :=
  bitCount x k + bitCount x (k + 1)

theorem pairCount_le (k : ℕ) : pairCount x k ≤ 6 :=
  Nat.add_le_add (bitCount_le x k) (bitCount_le x (k + 1))

theorem pairCount_ten : pairCount x 10 ≤ 2 := by
  rw [pairCount, bitCount_eleven]
  exact bitCount_ten x

/-- The second sum : the bits of each six bits. -/
theorem toNat_pairs {y : BitVec 32} (hy : y.toNat = fieldSum 3 11 (bitCount x)) :
    (y + y >>> 3).toNat = fieldSum 3 11 (pairCount x) := by
  have hshift : (y >>> 3).toNat = fieldSum 3 11 fun k => bitCount x (k + 1) := by
    have h0 := Nat.lt_of_le_of_lt (bitCount_le x 0) (by decide : 3 < 2 ^ 3)
    rw [BitVec.toNat_ushiftRight, Nat.shiftRight_eq_div_pow, hy, fieldSum_div h0,
      fieldSum_succ 3 10, bitCount_eleven, Nat.zero_mul, Nat.add_zero]
  rw [BitVec.toNat_add, hshift, hy, fieldSum_add]
  refine Nat.mod_eq_of_lt (fieldSum_lt_word (fun k _ => ?_) ?_)
  · exact Nat.lt_of_le_of_lt (pairCount_le x k) (by decide)
  · exact Nat.lt_of_le_of_lt (pairCount_ten x) (by decide)

/-- The mask keeps one of two fields. -/
theorem toNat_and_pairs {z : BitVec 32} (hz : z.toNat = fieldSum 3 11 (pairCount x)) :
    (z &&& 0xC71C71C7#32).toNat = pairCount x 0 + pairCount x 2 * 2 ^ 6 + pairCount x 4 * 2 ^ 12 +
      pairCount x 6 * 2 ^ 18 + pairCount x 8 * 2 ^ 24 + pairCount x 10 * 2 ^ 30 := by
  have hmask : (0xC71C71C7#32).toNat =
      fieldSum 3 11 fun k => if k = 10 then 3 else if k % 2 = 0 then 7 else 0 := rfl
  have hseven (k : ℕ) : pairCount x k &&& 7 = pairCount x k :=
    Nat.and_two_pow_sub_one_of_lt_two_pow (n := 3)
      (Nat.lt_of_le_of_lt (pairCount_le x k) (by decide))
  have hthree : pairCount x 10 &&& 3 = pairCount x 10 :=
    Nat.and_two_pow_sub_one_of_lt_two_pow (n := 2)
      (Nat.lt_of_le_of_lt (pairCount_ten x) (by decide))
  rw [BitVec.toNat_and, hz, hmask, fieldSum_land]
  · simp [fieldSum, Finset.sum_range_succ, hseven, hthree]
  · exact fun k _ => Nat.lt_of_le_of_lt (pairCount_le x k) (by decide)
  · intro k _
    split_ifs <;> decide

theorem field_of_sum {t low : ℕ} (ht : t < 2 ^ 6) (hlow : low < 2 ^ 26) :
    (2 ^ 26 * t + low) % 2 ^ 32 / 2 ^ 26 = t := by
  omega

/-- The last sum, and the multiplication that collects the three fields of twelve bits. -/
theorem collect {z : BitVec 32} {a b c d e f : ℕ} (ha : a ≤ 6) (hb : b ≤ 6) (hc : c ≤ 6)
    (hd : d ≤ 6) (he : e ≤ 6) (hf : f ≤ 2)
    (hz : z.toNat = a + b * 2 ^ 6 + c * 2 ^ 12 + d * 2 ^ 18 + e * 2 ^ 24 + f * 2 ^ 30) :
    (((z + z >>> 6) * 0x04004004#32) >>> 26).toNat = a + b + c + d + e + f := by
  have hshift : (z >>> 6).toNat = b + c * 2 ^ 6 + d * 2 ^ 12 + e * 2 ^ 18 + f * 2 ^ 24 := by
    rw [BitVec.toNat_ushiftRight, Nat.shiftRight_eq_div_pow, hz]
    omega
  have hsum : (z + z >>> 6).toNat = (a + b) + (b + c) * 2 ^ 6 + (c + d) * 2 ^ 12 +
      (d + e) * 2 ^ 18 + (e + f) * 2 ^ 24 + f * 2 ^ 30 := by
    rw [BitVec.toNat_add, hshift, hz]
    omega
  -- what is carried out of the word, the fields that are collected, and what is below them
  have hproduct : (z + z >>> 6).toNat * 0x04004004 =
      2 ^ 32 * ((b + c) + (c + d) * 2 ^ 6 + (d + e) * (2 ^ 12 + 1) + (e + f) * (2 ^ 18 + 2 ^ 6) +
        f * (2 ^ 24 + 2 ^ 12 + 1)) +
      2 ^ 26 * (a + b + c + d + e + f) +
      ((a + b) * (2 ^ 14 + 2 ^ 2) + (b + c) * (2 ^ 20 + 2 ^ 8) + (c + d) * 2 ^ 14 +
        (d + e) * 2 ^ 20) := by
    rw [hsum]
    ring
  have hlow : (a + b) * (2 ^ 14 + 2 ^ 2) + (b + c) * (2 ^ 20 + 2 ^ 8) + (c + d) * 2 ^ 14 +
      (d + e) * 2 ^ 20 < 2 ^ 26 := by omega
  have hconst : (0x04004004#32).toNat = 0x04004004 := rfl
  rw [BitVec.toNat_ushiftRight, Nat.shiftRight_eq_div_pow, BitVec.toNat_mul, hconst, hproduct,
    Nat.add_assoc, Nat.mul_add_mod]
  exact field_of_sum (by omega) hlow

theorem toNat_cpop : x.cpop.toNat = pairCount x 0 + pairCount x 2 + pairCount x 4 + pairCount x 6 +
    pairCount x 8 + pairCount x 10 := by
  rw [BitVec.toNat_cpop, show pairCount x 10 = bitCount x 10 by
    rw [pairCount, bitCount_eleven, Nat.add_zero]]
  have hlast : x.getLsbD (2 + 3 * 10) = false := BitVec.getLsbD_of_ge x _ (by decide)
  simp only [BitVec.cpopNatRec_succ, BitVec.cpopNatRec_zero_self, pairCount, bitCount, hlast]
  simp only [Nat.reduceMul, Nat.reduceAdd, Bool.toNat_false]
  omega

/-- The word that `popcount32` computes with its three constants. -/
def popcountWord (a b m : BitVec 32) : BitVec 32 :=
  let y := (x &&& a) + (x >>> 1 &&& a) + (x >>> 2 &&& a)
  let z := (y + y >>> 3) &&& b
  ((z + z >>> 6) * m) >>> 26

theorem popcountWord_eq :
    popcountWord x 0x49249249#32 0xC71C71C7#32 0x04004004#32 = x.cpop := by
  refine BitVec.eq_of_toNat_eq ?_
  rw [popcountWord, collect (pairCount_le x 0) (pairCount_le x 2) (pairCount_le x 4)
    (pairCount_le x 6) (pairCount_le x 8) (pairCount_ten x)
    (toNat_and_pairs x (toNat_pairs x (toNat_bitCounts x))), toNat_cpop]

end Popcount

/-! ## Reversing -/

section Reverse

variable (x : BitVec 32)

/-- The parts of `s` bits that a mask selects change places with the parts next to them. -/
def exchange (s : ℕ) (m : BitVec 32) : BitVec 32 :=
  (x <<< s &&& m) ||| (x &&& m) >>> s

/-- The place of a bit before parts of `s` bits have changed places. -/
def exchanged (s i : ℕ) : ℕ :=
  if i / s % 2 = 1 then i - s else s + i

/-- A mask that selects the upper one of two parts of `s` bits. -/
def SelectsUpper (s : ℕ) (m : BitVec 32) : Prop :=
  ∀ i < 32, m.getLsbD i = decide (i / s % 2 = 1) ∧ m.getLsbD (s + i) = decide (i / s % 2 = 0)

instance (s : ℕ) (m : BitVec 32) : Decidable (SelectsUpper s m) :=
  inferInstanceAs (Decidable (∀ i < 32, _))

theorem getLsbD_exchange {s : ℕ} {m : BitVec 32} (hm : SelectsUpper s m) {i : ℕ} (hi : i < 32) :
    (exchange x s m).getLsbD i = x.getLsbD (exchanged s i) := by
  obtain ⟨hupper, hlower⟩ := hm i hi
  rw [exchange, exchanged, BitVec.getLsbD_or, BitVec.getLsbD_and, BitVec.getLsbD_shiftLeft,
    BitVec.getLsbD_ushiftRight, BitVec.getLsbD_and, hupper, hlower, decide_eq_true hi]
  split_ifs with hpart
  · have hle : s ≤ i := by
      by_contra hlt
      rw [Nat.div_eq_of_lt (Nat.lt_of_not_le hlt)] at hpart
      exact absurd hpart (by decide)
    simp [hpart, hle]
  · have hpart : i / s % 2 = 0 := by omega
    simp [hpart]

theorem getLsbD_reverseBytes {i : ℕ} (hi : i < 32) :
    (reverseBytes x).getLsbD i = x.getLsbD (24 - 8 * (i / 8) + i % 8) := by
  simp only [reverseBytes, BitVec.getLsbD_append, BitVec.getLsbD_extractLsb']
  obtain h | h | h | h : i / 8 = 0 ∨ i / 8 = 1 ∨ i / 8 = 2 ∨ i / 8 = 3 := by omega
  · rw [if_pos (by omega), h, decide_eq_true (by omega), Bool.true_and]
    congr 1
    omega
  · rw [if_neg (by omega), if_pos (by omega), h, decide_eq_true (by omega), Bool.true_and]
    congr 1
    omega
  · rw [if_neg (by omega), if_neg (by omega), if_pos (by omega), h, decide_eq_true (by omega),
      Bool.true_and]
    congr 1
    omega
  · rw [if_neg (by omega), if_neg (by omega), if_neg (by omega), h, decide_eq_true (by omega),
      Bool.true_and]
    congr 1
    omega

/-- The word that `reverse32` computes, with its two constants. -/
def reverseWord (a b : BitVec 32) : BitVec 32 :=
  reverseBytes (exchange (exchange (exchange x 1 (a >>> 1 ^^^ a)) 2 a) 4 b)

theorem reverseWord_eq : reverseWord x 0xcccccccc#32 0xf0f0f0f0#32 = x.reverse := by
  have hplaces : ∀ i < 32, exchanged 4 (24 - 8 * (i / 8) + i % 8) < 32 ∧
      exchanged 2 (exchanged 4 (24 - 8 * (i / 8) + i % 8)) < 32 ∧
      exchanged 1 (exchanged 2 (exchanged 4 (24 - 8 * (i / 8) + i % 8))) = 31 - i := by decide
  refine BitVec.eq_of_getLsbD_eq fun i hi => ?_
  obtain ⟨h₄, h₂, h₁⟩ := hplaces i hi
  rw [reverseWord, getLsbD_reverseBytes _ hi, getLsbD_exchange _ (by decide) (by omega),
    getLsbD_exchange _ (by decide) h₄, getLsbD_exchange _ (by decide) h₂, h₁,
    BitVec.getLsbD_reverse, BitVec.getMsbD, decide_eq_true hi, Bool.true_and]

end Reverse

/-! ## Counting zeros -/

section Zeros

variable {x : BitVec 32} {i k n s : ℕ}

theorem clz_eq (hle : 2 ^ (31 - k) ≤ x.toNat) (hlt : x.toNat < 2 ^ (32 - k)) :
    x.clz.toNat = k := by
  have hne : x ≠ 0 := by
    rintro rfl
    exact absurd hle (Nat.not_le_of_lt (Nat.two_pow_pos _))
  have hle' : 2 ^ (31 - x.clz.toNat) ≤ x.toNat :=
    BitVec.two_pow_sub_clz_le_toNat_of_ne_zero (by decide) hne
  have hlt' : x.toNat < 2 ^ (32 - x.clz.toNat) := BitVec.toNat_lt_two_pow_sub_clz
  have h := (Nat.pow_lt_pow_iff_right (by decide : 1 < 2)).mp (hle.trans_lt hlt')
  have h' := (Nat.pow_lt_pow_iff_right (by decide : 1 < 2)).mp (hle'.trans_lt hlt)
  omega

theorem ctz_eq (hk : x.getLsbD k = true) (hlow : ∀ j < k, x.getLsbD j = false) :
    x.ctz.toNat = k := by
  have hne : x ≠ 0 := by
    rintro rfl
    exact absurd hk (by simp)
  rcases Nat.lt_trichotomy x.ctz.toNat k with hlt | heq | hgt
  · have hbit := BitVec.getLsbD_true_ctz_of_ne_zero hne
    rw [hlow _ hlt] at hbit
    exact absurd hbit Bool.false_ne_true
  · exact heq
  · have hbit := BitVec.getLsbD_false_of_lt_ctz hgt
    rw [hk] at hbit
    exact absurd hbit (by decide)

theorem clz6Table_entry : ∀ i < 64, i ≠ 0 → (clz6Table.getD i 0).toNat ≤ 5 ∧
    2 ^ (5 - (clz6Table.getD i 0).toNat) ≤ i ∧ i < 2 ^ (6 - (clz6Table.getD i 0).toNat) := by
  decide

theorem ctz6Table_entry : ∀ i < 64, ∀ n < 7, i % 2 ^ n ≠ 0 → (ctz6Table.getD i 0).toNat < n ∧
    i.testBit (ctz6Table.getD i 0).toNat = true ∧
    ∀ j < (ctz6Table.getD i 0).toNat, i.testBit j = false := by
  decide

/-- The sum of a byte and a number that gives a count. -/
theorem add_count {b : BitVec 8} {y : BitVec 32} (h : y.toNat = b.toNat + k) :
    b.setWidth 32 + BitVec.ofNat 32 k = y := by
  have hb := b.isLt
  refine BitVec.eq_of_toNat_eq ?_
  rw [BitVec.toNat_add, BitVec.toNat_setWidth, BitVec.toNat_ofNat, h]
  omega

/-- The upper bits of a word in the table. -/
theorem clz_of_table (hs : s ≤ 26) (hi : i = x.toNat / 2 ^ s) (hlt : i < 64)
    (hne : i = 0 → s = 0) :
    (clz6Table.getD i 0).setWidth 32 + BitVec.ofNat 32 (26 - s) = x.clz := by
  refine add_count ?_
  by_cases hzero : i = 0
  · obtain rfl := hne hzero
    rw [hzero, Nat.pow_zero, Nat.div_one] at hi
    obtain rfl : x = 0 := BitVec.eq_of_toNat_eq hi.symm
    subst hzero
    decide
  · obtain ⟨hfive, hle, hup⟩ := clz6Table_entry i hlt hzero
    rw [hi, Nat.le_div_iff_mul_le (Nat.two_pow_pos s), ← Nat.pow_add, ← hi] at hle
    rw [hi, Nat.div_lt_iff_lt_mul (Nat.two_pow_pos s), ← Nat.pow_add, ← hi] at hup
    refine clz_eq (le_of_eq_of_le ?_ hle) (hup.trans_eq ?_)
    · congr 1
      omega
    · congr 1
      omega

/-- Some bits of a word in the table, above bits that are clear. -/
theorem ctz_of_table (hlow : x.toNat % 2 ^ s = 0) (hn : n < 7)
    (hi : i % 2 ^ n = x.toNat / 2 ^ s % 2 ^ n) (hlt : i < 64) (hne : i % 2 ^ n ≠ 0) :
    (ctz6Table.getD i 0).setWidth 32 + BitVec.ofNat 32 s = x.ctz := by
  refine add_count ?_
  obtain ⟨hentry, hbit, hbits⟩ := ctz6Table_entry i hlt n hn hne
  have hword {j : ℕ} (hj : j < n) : x.getLsbD (j + s) = i.testBit j := by
    have hmod := congrArg (Nat.testBit · j) hi
    simp only [Nat.testBit_mod_two_pow, Nat.testBit_div_two_pow, hj, decide_true,
      Bool.true_and] at hmod
    exact hmod.symm
  refine ctz_eq (by rw [hword hentry, hbit]) fun j hj => ?_
  rcases Nat.lt_or_ge j s with hjs | hjs
  · have hmod : (x.toNat % 2 ^ s).testBit j = Nat.testBit 0 j := congrArg (Nat.testBit · j) hlow
    rw [Nat.testBit_mod_two_pow, decide_eq_true hjs, Bool.true_and, Nat.zero_testBit] at hmod
    exact hmod
  · obtain ⟨d, rfl⟩ : ∃ d, j = d + s := ⟨j - s, by omega⟩
    rw [hword (by omega), hbits d (by omega)]

theorem toNat_shift_shift (x : BitVec 32) {a b : ℕ} (hab : a ≤ b) (hb : b ≤ 32) :
    ((x <<< a) >>> b).toNat = x.toNat / 2 ^ (b - a) % 2 ^ (32 - b) := by
  have hword : 2 ^ 32 = 2 ^ b * 2 ^ (32 - b) := by
    rw [← Nat.pow_add, Nat.add_sub_cancel' hb]
  have hpow : 2 ^ b = 2 ^ (b - a) * 2 ^ a := by
    rw [← Nat.pow_add, Nat.sub_add_cancel hab]
  rw [BitVec.toNat_ushiftRight, Nat.shiftRight_eq_div_pow, BitVec.toNat_shiftLeft, Nat.shiftLeft_eq,
    hword, Nat.mod_mul_right_div_self, hpow, Nat.mul_div_mul_right _ _ (Nat.two_pow_pos a)]

/-- A byte of a table. -/
theorem load_table {m : Memory 32} {T i : BitVec 32} {table : List (BitVec 8)}
    (h : m.bytesAt T 64 = table) (hi : i.toNat < 64) : m (T + i) = table.getD i.toNat 0 := by
  rw [← h, Memory.bytesAt, List.getD_eq_getElem?_getD, List.getElem?_map, List.getElem?_range hi]
  simp

end Zeros

section Runs

variable {P : Placement BitLabel} {T T' : BitVec 32}

/-- The block of `popcount32`, for any constants : the numbers would be multiplied out otherwise. -/
theorem leads_popcountBlock {code : BitLabel → Block BitLabel} {l : BitLabel} {a b m : BitVec 32}
    (hl : code l = ⟨[
      ldrLit r1 a, lsrs r2 r0 1, ands r2 r1, lsrs r3 r0 2, ands r3 r1, ands r0 r1, adds r0 r0 r2,
      adds r0 r0 r3, lsrs r1 r0 3, adds r0 r0 r1, ldrLit r1 b, ands r0 r1, lsrs r1 r0 6,
      adds r0 r0 r1, ldrLit r1 m, muls r0 r1, lsrs r0 r0 26], .bx lr⟩) (c : Cpu) :
    Leads code P (.at l c) (Returned P c (popcountWord c.r0 a b m)) := by
  refine .block ?_
  rw [hl]
  refine .now ⟨_, rfl, rfl, ⟨fun r hr => ?_, rfl, fun _ => rfl⟩, fun _ _ => rfl⟩
  revert hr
  cases r <;> simp [calleeSaved]

theorem leads_popcount32 (c : Cpu) :
    Leads (bitCode T T') P (.at .popcount32 c) (Returned P c c.r0.cpop) :=
  popcountWord_eq c.r0 ▸ leads_popcountBlock rfl c

/-- The block of `reverse32`. -/
theorem leads_reverseBlock {code : BitLabel → Block BitLabel} {l : BitLabel} {a b : BitVec 32}
    (hl : code l = ⟨[
      ldrLit r2 a, lsrs r1 r2 1, eors r1 r2, lsls r3 r0 1, ands r3 r1, ands r0 r1, lsrs r0 r0 1,
      orrs r0 r3, lsls r3 r0 2, ands r3 r2, ands r0 r2, lsrs r0 r0 2, orrs r3 r0, ldrLit r2 b,
      lsls r0 r3 4, ands r0 r2, ands r3 r2, lsrs r3 r3 4, orrs r0 r3, rev r0 r0], .bx lr⟩)
    (c : Cpu) : Leads code P (.at l c) (Returned P c (reverseWord c.r0 a b)) := by
  refine .block ?_
  rw [hl]
  refine .now ⟨_, rfl, ?_, ⟨fun r hr => ?_, rfl, fun _ => rfl⟩, fun _ _ => rfl⟩
  · dsimp
    rw [reverseWord, exchange, exchange, exchange, BitVec.or_comm (c.r0 <<< 1 &&& _)]
  · revert hr
    cases r <;> simp [calleeSaved]

theorem leads_reverse32 (c : Cpu) :
    Leads (bitCode T T') P (.at .reverse32 c) (Returned P c c.r0.reverse) :=
  reverseWord_eq c.r0 ▸ leads_reverseBlock rfl c

/-- A load from a table and an addition, and the return. -/
theorem through_load {table : BitVec 32} {l : BitLabel} (r : Reg) {k : ℕ}
    (hl : bitCode T T' l = ⟨[ldrb r0 r3 r, adds r0 r0 (.imm k)], .bx lr⟩)
    (hr : tableIndex l = some r) {c : Cpu} {a b x : BitVec 32} {flags : Flags}
    (hlt : (({ c with r0 := a, r1 := b, r3 := table, flags := flags } : Cpu).get r).toNat < 64)
    (hx : (c.mem (table +
      ({ c with r0 := a, r1 := b, r3 := table, flags := flags } : Cpu).get r)).setWidth 32 +
        BitVec.ofNat 32 k = x) :
    LeadsThrough (bitCode T T') P (LoadsInside table)
      (.at l { c with r0 := a, r1 := b, r3 := table, flags := flags }) (Returned P c x) := by
  refine .block (fun r' hr' => ?_) ?_
  · obtain rfl : r = r' := Option.some.inj (hr.symm.trans hr')
    exact ⟨rfl, hlt⟩
  · rw [hl]
    refine .now ⟨_, rfl, hx, ⟨fun r hr => ?_, rfl, fun _ => rfl⟩, fun _ _ => rfl⟩
    revert hr
    cases r <;> simp [calleeSaved]

/-- A load from a table, and the return. -/
theorem through_onlyLoad {table : BitVec 32} {l : BitLabel} (r : Reg)
    (hl : bitCode T T' l = ⟨[ldrb r0 r3 r], .bx lr⟩)
    (hr : tableIndex l = some r) {c : Cpu} {a b x : BitVec 32} {flags : Flags}
    (hlt : (({ c with r0 := a, r1 := b, r3 := table, flags := flags } : Cpu).get r).toNat < 64)
    (hx : (c.mem (table +
      ({ c with r0 := a, r1 := b, r3 := table, flags := flags } : Cpu).get r)).setWidth 32 +
        BitVec.ofNat 32 0 = x) :
    LeadsThrough (bitCode T T') P (LoadsInside table)
      (.at l { c with r0 := a, r1 := b, r3 := table, flags := flags }) (Returned P c x) := by
  refine .block (fun r' hr' => ?_) ?_
  · obtain rfl : r = r' := Option.some.inj (hr.symm.trans hr')
    exact ⟨rfl, hlt⟩
  · rw [hl]
    refine .now ⟨_, rfl, (BitVec.add_zero _).symm.trans hx, ⟨fun r hr => ?_, rfl, fun _ => rfl⟩,
      fun _ _ => rfl⟩
    revert hr
    cases r <;> simp [calleeSaved]

/-- What a branch after a shift tells. -/
theorem shiftRight_ne {x : BitVec 32} {k : ℕ} (h : (!(x >>> k == 0)) = true) :
    x.toNat / 2 ^ k ≠ 0 := by
  rw [Bool.not_eq_true', beq_eq_false_iff_ne] at h
  refine fun hzero => h (BitVec.eq_of_toNat_eq ?_)
  rw [BitVec.toNat_ushiftRight, Nat.shiftRight_eq_div_pow]
  exact hzero

theorem shiftRight_eq {x : BitVec 32} {k : ℕ} (h : ¬(!(x >>> k == 0)) = true) :
    x.toNat / 2 ^ k = 0 := by
  rw [Bool.not_eq_true', Bool.not_eq_false, beq_iff_eq] at h
  rw [← Nat.shiftRight_eq_div_pow, ← BitVec.toNat_ushiftRight, h]
  rfl

/-- The index is the upper bits of the word from the `s`-th on. -/
theorem clz_load {c : Cpu} {i : BitVec 32} {s : ℕ} (htable : c.mem.bytesAt T 64 = clz6Table)
    (hs : s ≤ 26) (hi : i.toNat = c.r0.toNat / 2 ^ s) (hlt : i.toNat < 64)
    (hne : i.toNat = 0 → s = 0) :
    (c.mem (T + i)).setWidth 32 + BitVec.ofNat 32 (26 - s) = c.r0.clz := by
  rw [load_table htable hlt]
  exact clz_of_table hs hi hlt hne

theorem through_clz32 {c : Cpu} (htable : c.mem.bytesAt T 64 = clz6Table) :
    LeadsThrough (bitCode T T') P (LoadsInside T) (.at .clz32 c) (Returned P c c.r0.clz) := by
  have hshift (x : BitVec 32) (k : ℕ) : (x >>> k).toNat = x.toNat / 2 ^ k := by
    rw [BitVec.toNat_ushiftRight, Nat.shiftRight_eq_div_pow]
  have hlt := c.r0.isLt
  have hload {i : BitVec 32} (s : ℕ) := clz_load (i := i) (s := s) htable
  have hi : (c.r0 >>> 16 >>> 10).toNat = c.r0.toNat / 2 ^ 26 := by
    rw [hshift, hshift, Nat.div_div_eq_div_mul, ← Nat.pow_add]
  have hi' : (c.r0 >>> 16 >>> 4).toNat = c.r0.toNat / 2 ^ 20 := by
    rw [hshift, hshift, Nat.div_div_eq_div_mul, ← Nat.pow_add]
  refine .block (fun _ h => nomatch h) ?_
  dsimp [bitCode]
  refine .ite (fun hne => .block (fun _ h => nomatch h) ?_)
    (fun heq => .block (fun _ h => nomatch h) ?_)
  · have h16 := shiftRight_ne hne
    dsimp [bitCode]
    refine .ite (fun hne => ?_) (fun heq => .block (fun _ h => nomatch h) ?_)
    · have h26 := shiftRight_ne hne
      rw [← hshift, hi] at h26
      have hsmall : (c.r0 >>> 16 >>> 10).toNat < 64 := by omega
      exact through_onlyLoad r0 rfl rfl hsmall
        (hload 26 (by decide) hi hsmall fun h => absurd (hi.symm.trans h) h26)
    have h26 := shiftRight_eq heq
    rw [← hshift, hi] at h26
    dsimp [bitCode]
    refine .ite (fun hne => ?_) (fun heq => ?_)
    · have h20 := shiftRight_ne hne
      rw [← hshift, hi'] at h20
      have hsmall : (c.r0 >>> 16 >>> 4).toNat < 64 := by omega
      exact through_load r0 rfl rfl hsmall
        (hload 20 (by decide) hi' hsmall fun h => absurd (hi'.symm.trans h) h20)
    · have h20 := shiftRight_eq heq
      rw [← hshift, hi'] at h20
      have hi := hshift c.r0 16
      have hsmall : (c.r0 >>> 16).toNat < 64 := by omega
      exact through_load r1 rfl rfl hsmall
        (hload 16 (by decide) hi hsmall fun h => absurd (hi.symm.trans h) h16)
  · have h16 := shiftRight_eq heq
    have hi := hshift c.r0 10
    have hi' := hshift c.r0 4
    dsimp [bitCode]
    refine .ite (fun hne => ?_) (fun heq => .block (fun _ h => nomatch h) ?_)
    · have h10 := shiftRight_ne hne
      have hsmall : (c.r0 >>> 10).toNat < 64 := by omega
      exact through_load r1 rfl rfl hsmall
        (hload 10 (by decide) hi hsmall fun h => absurd (hi.symm.trans h) h10)
    have h10 := shiftRight_eq heq
    dsimp [bitCode]
    refine .ite (fun hne => ?_) (fun heq => ?_)
    · have h4 := shiftRight_ne hne
      have hsmall : (c.r0 >>> 4).toNat < 64 := by omega
      exact through_load r1 rfl rfl hsmall
        (hload 4 (by decide) hi' hsmall fun h => absurd (hi'.symm.trans h) h4)
    · have h4 := shiftRight_eq heq
      have hsmall : c.r0.toNat < 64 := by omega
      exact through_load r0 rfl rfl hsmall
        (hload 0 (by decide) (Nat.div_one _).symm hsmall fun _ => rfl)

theorem shiftLeft_zero {x : BitVec 32} {k : ℕ} (hk : k ≤ 32) (h : (x <<< k == 0) = true) :
    x.toNat % 2 ^ (32 - k) = 0 :=
  (shiftLeft_eq_zero_iff x hk).mp (beq_iff_eq.mp h)

theorem shiftLeft_ne {x : BitVec 32} {k : ℕ} (hk : k ≤ 32) (h : ¬(x <<< k == 0) = true) :
    x.toNat % 2 ^ (32 - k) ≠ 0 :=
  fun hzero => h (beq_iff_eq.mpr ((shiftLeft_eq_zero_iff x hk).mpr hzero))

/-- The index is six bits of the word. -/
theorem ctz_load {c : Cpu} {i : BitVec 32} (s : ℕ) (htable : c.mem.bytesAt T' 64 = ctz6Table)
    (hlow : c.r0.toNat % 2 ^ s = 0) (hi : i.toNat = c.r0.toNat / 2 ^ s % 2 ^ 6)
    (hne : c.r0.toNat / 2 ^ s % 2 ^ 6 ≠ 0) :
    i.toNat < 64 ∧ (c.mem (T' + i)).setWidth 32 + BitVec.ofNat 32 s = c.r0.ctz := by
  have hlt : i.toNat < 64 := hi.trans_lt (Nat.mod_lt _ (by decide))
  have hmod : i.toNat % 2 ^ 6 = c.r0.toNat / 2 ^ s % 2 ^ 6 := by rw [hi, Nat.mod_mod]
  refine ⟨hlt, ?_⟩
  rw [load_table htable hlt]
  exact ctz_of_table hlow (by decide) hmod hlt (hmod ▸ hne)

/-- The index is four bits of the word, with another bit above them. -/
theorem ctz_loadFour {c : Cpu} {i : BitVec 32} (s : ℕ) (htable : c.mem.bytesAt T' 64 = ctz6Table)
    (hlow : c.r0.toNat % 2 ^ s = 0) (hi : i.toNat = c.r0.toNat / 2 ^ s % 2 ^ 4)
    (hne : c.r0.toNat / 2 ^ s % 2 ^ 4 ≠ 0) :
    (i + 16#32).toNat < 64 ∧
      (c.mem (T' + (i + 16#32))).setWidth 32 + BitVec.ofNat 32 s = c.r0.ctz := by
  have hlt : i.toNat < 2 ^ 4 := hi.trans_lt (Nat.mod_lt _ (by decide))
  have hsum : (i + 16#32).toNat = i.toNat + 2 ^ 4 := by
    rw [BitVec.toNat_add]
    exact Nat.mod_eq_of_lt (Nat.lt_trans (Nat.add_lt_add_right hlt _) (by decide))
  have hmod : (i + 16#32).toNat % 2 ^ 4 = c.r0.toNat / 2 ^ s % 2 ^ 4 := by
    rw [hsum, Nat.add_mod_right, hi, Nat.mod_mod]
  have hlt : (i + 16#32).toNat < 64 := by
    rw [hsum]
    omega
  refine ⟨hlt, ?_⟩
  rw [load_table htable hlt]
  exact ctz_of_table hlow (by decide) hmod hlt (hmod ▸ hne)

theorem through_ctz32 {c : Cpu} (htable : c.mem.bytesAt T' 64 = ctz6Table) :
    LeadsThrough (bitCode T T') P (LoadsInside T') (.at .ctz32 c) (Returned P c c.r0.ctz) := by
  refine .block (fun _ h => nomatch h) ?_
  dsimp [bitCode]
  refine .ite (fun heq => .block (fun _ h => nomatch h) ?_)
    (fun hne => .block (fun _ h => nomatch h) ?_)
  · have h16 : c.r0.toNat % 2 ^ 16 = 0 := shiftLeft_zero (by decide) heq
    dsimp [bitCode]
    refine .ite (fun heq => .block (fun _ h => nomatch h) ?_)
      (fun hne => .block (fun _ h => nomatch h) ?_)
    · have h26 : c.r0.toNat % 2 ^ 26 = 0 := shiftLeft_zero (by decide) heq
      have hi : (c.r0 >>> 26).toNat = c.r0.toNat / 2 ^ 26 % 2 ^ 6 := by
        rw [BitVec.toNat_ushiftRight, Nat.shiftRight_eq_div_pow]
        omega
      dsimp [bitCode]
      by_cases hzero : c.r0.toNat / 2 ^ 26 % 2 ^ 6 = 0
      · have hi0 : c.r0 >>> 26 = 0 := BitVec.eq_of_toNat_eq (hi.trans hzero)
        have hr0 : c.r0 = 0 := BitVec.eq_of_toNat_eq (show c.r0.toNat = 0 by omega)
        have hentry := load_table htable (show (0 : BitVec 32).toNat < 64 by decide)
        refine through_load r0 rfl rfl (show (c.r0 >>> 26).toNat < 64 by rw [hi0]; decide) ?_
        change (c.mem (T' + c.r0 >>> 26)).setWidth 32 + _ = _
        rw [hi0, hentry, hr0]
        decide +kernel
      · obtain ⟨hlt, hx⟩ := ctz_load 26 htable h26 hi hzero
        exact through_load r0 rfl rfl hlt hx
    have h26 : c.r0.toNat % 2 ^ 26 ≠ 0 := shiftLeft_ne (by decide) hne
    dsimp [bitCode]
    rw [← BitVec.shiftLeft_add]
    refine .ite (fun heq => .block (fun _ h => nomatch h) ?_)
      (fun hne => .block (fun _ h => nomatch h) ?_)
    · have h20 : c.r0.toNat % 2 ^ 20 = 0 := shiftLeft_zero (by decide) heq
      obtain ⟨hlt, hx⟩ := ctz_load 20 htable h20
        (toNat_shift_shift c.r0 (by decide : 6 ≤ 26) (by decide)) (by omega)
      dsimp [bitCode]
      exact through_load r1 rfl rfl hlt hx
    · have h20 : c.r0.toNat % 2 ^ 20 ≠ 0 := shiftLeft_ne (by decide) hne
      obtain ⟨hlt, hx⟩ := ctz_loadFour 16 htable h16
        (toNat_shift_shift c.r0 (by decide : 12 ≤ 28) (by decide)) (by omega)
      dsimp [bitCode]
      exact through_load r0 rfl rfl hlt hx
  · have h16 : c.r0.toNat % 2 ^ 16 ≠ 0 := shiftLeft_ne (by decide) hne
    dsimp [bitCode]
    rw [← BitVec.shiftLeft_add]
    refine .ite (fun heq => .block (fun _ h => nomatch h) ?_)
      (fun hne => .block (fun _ h => nomatch h) ?_)
    · have h10 : c.r0.toNat % 2 ^ 10 = 0 := shiftLeft_zero (by decide) heq
      obtain ⟨hlt, hx⟩ := ctz_load 10 htable h10
        (toNat_shift_shift c.r0 (by decide : 16 ≤ 26) (by decide)) (by omega)
      dsimp [bitCode]
      exact through_load r1 rfl rfl hlt hx
    have h10 : c.r0.toNat % 2 ^ 10 ≠ 0 := shiftLeft_ne (by decide) hne
    dsimp [bitCode]
    rw [← BitVec.shiftLeft_add]
    refine .ite (fun heq => .block (fun _ h => nomatch h) ?_)
      (fun hne => .block (fun _ h => nomatch h) ?_)
    · have h4 : c.r0.toNat % 2 ^ 4 = 0 := shiftLeft_zero (by decide) heq
      obtain ⟨hlt, hx⟩ := ctz_load 4 htable h4
        (toNat_shift_shift c.r0 (by decide : 22 ≤ 26) (by decide)) (by omega)
      dsimp [bitCode]
      exact through_load r0 rfl rfl hlt hx
    · have h4 : c.r0.toNat % 2 ^ 4 ≠ 0 := shiftLeft_ne (by decide) hne
      obtain ⟨hlt, hx⟩ := ctz_loadFour 0 htable (Nat.mod_one _)
        (toNat_shift_shift c.r0 (by decide : 28 ≤ 28) (by decide)) (by omega)
      dsimp [bitCode]
      exact through_onlyLoad r1 rfl rfl hlt hx

end Runs

/-- The bit functions return what they are named for, and keep their caller's registers and memory.
`clz32` and `ctz32` load only from their tables, and the trailing zeros of a word are the leading
zeros of the word that `reverse32` returns. -/
theorem bit_functions_defined (P : Placement BitLabel) (T T' : BitVec 32) (c : Cpu)
    (hclz : c.mem.bytesAt T 64 = clz6Table) (hctz : c.mem.bytesAt T' 64 = ctz6Table) :
    Leads (bitCode T T') P (.at .popcount32 c) (Returned P c c.r0.cpop) ∧
      Leads (bitCode T T') P (.at .reverse32 c) (Returned P c c.r0.reverse) ∧
      LeadsThrough (bitCode T T') P (LoadsInside T) (.at .clz32 c) (Returned P c c.r0.clz) ∧
      LeadsThrough (bitCode T T') P (LoadsInside T') (.at .ctz32 c) (Returned P c c.r0.ctz) ∧
      (∀ i < 32, c.r0.reverse.getLsbD i = c.r0.getLsbD (31 - i)) ∧
      (0 : BitVec 32).clz = 32 ∧ (0 : BitVec 32).ctz = 32 ∧ c.r0.ctz = c.r0.reverse.clz := by
  refine ⟨leads_popcount32 c, leads_reverse32 c, through_clz32 hclz, through_ctz32 hctz,
    fun i hi => ?_, by decide +kernel, by decide +kernel, BitVec.ctz_eq_reverse_clz⟩
  rw [BitVec.getLsbD_reverse, BitVec.getMsbD, decide_eq_true hi, Bool.true_and]

/-- The labels after one another, with the tables behind them. -/
def bitPlacement : Placement BitLabel :=
  .ofLabels [.popcount32, .reverse32, .clz32, .clz16to31, .clz22to31, .clz28to31, .clz16to21,
    .clz22to27, .clz0to15, .clz6to15, .clz12to15, .clz0to5, .clz6to11, .ctz32, .ctz0to15, .ctz0to9,
    .ctz0to3, .ctz10to15, .ctz4to9, .ctz16to31, .ctz16to25, .ctz16to19, .ctz26to31, .ctz20to25,
    .ctzLoadLow, .ctzLoad10, .ctzLoad4, .ctzLoad16, .ctzLoad26, .ctzLoad20]
    (by intro l; cases l <;> decide) (by decide)

/-- A call with the tables in memory. -/
def bitCpu : Cpu :=
  { Cpu.cleared 0x20041f00 0x10000101
      (Memory.copy (Memory.copy (fun _ => 0) 0x400 64 fun i => clz6Table.getD i 0) 0x440 64
        fun i => ctz6Table.getD i 0) with
    r0 := 0x00048000 }

theorem bit_functions_defined_call :
    Leads (bitCode 0x400 0x440) bitPlacement (.at .popcount32 bitCpu)
        (Returned bitPlacement bitCpu 2) ∧
      LeadsThrough (bitCode 0x400 0x440) bitPlacement (LoadsInside 0x400) (.at .clz32 bitCpu)
        (Returned bitPlacement bitCpu 13) ∧
      LeadsThrough (bitCode 0x400 0x440) bitPlacement (LoadsInside 0x440) (.at .ctz32 bitCpu)
        (Returned bitPlacement bitCpu 15) := by
  have h := bit_functions_defined bitPlacement 0x400 0x440 bitCpu (by decide +kernel)
    (by decide +kernel)
  have hpop : bitCpu.r0.cpop = 2 := by decide +kernel
  have hclz : bitCpu.r0.clz = 13 := by decide +kernel
  have hctz : bitCpu.r0.ctz = 15 := by decide +kernel
  rw [hpop, hclz, hctz] at h
  exact ⟨h.1, h.2.2.1, h.2.2.2.1⟩

end PicoBootrom
