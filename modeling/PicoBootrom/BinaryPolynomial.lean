import Mathlib.Algebra.CharP.Two
import Mathlib.Algebra.Field.ZMod
import Mathlib.Algebra.Polynomial.Div
import Mathlib.Algebra.Polynomial.Inductions
import Mathlib.Data.List.GetD
import Mathlib.RingTheory.Coprime.Lemmas
import Mathlib.Tactic.LinearCombination

/-!
# Polynomials over two elements, in words

A list of bits is the list of the coefficients of a polynomial over the field with two elements, the
highest one first, and a word is the list of its bits. Exclusive or is addition, and a shift to the
left is a multiplication by a power of `X`, less what it shifts out (`ofWord_shiftLeft`).

A word `g` of width `w` stands for the generator `X ^ w + g` as well. `shiftMod` multiplies by `X`
in the remainders of a generator, with one shift and one exclusive or, and so a word is kept
congruent to a polynomial (`Residue`). A word is the remainder of every polynomial that it is
congruent to (`Residue.eq_mod`), and two lists of bits that differ in no more than `w` bits after
one another are not congruent (`eq_of_burst`).
-/

open Polynomial

namespace BinaryPolynomial

/-! ## Lists of bits -/

/-- The polynomial with a list of coefficients, the highest one first. -/
noncomputable def ofBits (bits : List Bool) : (ZMod 2)[X] :=
  bits.foldl (fun p b => p * X + if b then 1 else 0) 0

@[simp] theorem ofBits_nil : ofBits [] = 0 :=
  rfl

@[simp] theorem ofBits_concat (bits : List Bool) (b : Bool) :
    ofBits (bits ++ [b]) = ofBits bits * X + if b then 1 else 0 := by
  rw [ofBits, List.foldl_append]
  rfl

theorem ofBits_append (bits bits' : List Bool) :
    ofBits (bits ++ bits') = ofBits bits * X ^ bits'.length + ofBits bits' := by
  induction bits' using List.reverseRecOn with
  | nil => simp
  | append_singleton bits' b ih =>
    rw [← List.append_assoc, ofBits_concat, ofBits_concat, ih, List.length_append,
      List.length_singleton]
    ring

theorem coeff_ofBits (bits : List Bool) (i : ℕ) :
    (ofBits bits).coeff i = if bits.reverse.getD i false then 1 else 0 := by
  induction bits using List.reverseRecOn generalizing i with
  | nil => simp
  | append_singleton bits b ih =>
    rw [ofBits_concat, List.reverse_concat]
    cases i with
    | zero => cases b <;> simp
    | succ i => cases b <;> simp [ih, coeff_one]

theorem degree_ofBits_lt (bits : List Bool) : (ofBits bits).degree < bits.length := by
  rw [degree_lt_iff_coeff_zero]
  intro i hi
  rw [coeff_ofBits, List.getD_eq_default _ _ (by rwa [List.length_reverse]),
    if_neg Bool.false_ne_true]

theorem ofBits_inj {bits bits' : List Bool} (hlen : bits.length = bits'.length)
    (h : ofBits bits = ofBits bits') : bits = bits' := by
  refine List.reverse_injective (List.ext_getElem (by simpa using hlen) fun i hi hi' => ?_)
  have hcoeff := congrArg (coeff · i) h
  simp only [coeff_ofBits, List.getD_eq_getElem _ _ hi, List.getD_eq_getElem _ _ hi'] at hcoeff
  revert hcoeff
  cases bits.reverse[i] <;> cases bits'.reverse[i] <;> simp

/-! ## Words -/

variable {w : ℕ}

/-- The bits of a word, the highest one first. -/
def bits (x : BitVec w) : List Bool :=
  (List.range w).map x.getMsbD

/-- The polynomial of a word. -/
noncomputable def ofWord (x : BitVec w) : (ZMod 2)[X] :=
  ofBits (bits x)

@[simp] theorem length_bits (x : BitVec w) : (bits x).length = w := by
  simp [bits]

@[simp] theorem coeff_ofWord (x : BitVec w) (i : ℕ) :
    (ofWord x).coeff i = if x.getLsbD i then 1 else 0 := by
  rw [ofWord, coeff_ofBits]
  congr 2
  rcases Nat.lt_or_ge i w with hi | hi
  · have hlen : i < (bits x).reverse.length := by simpa using hi
    rw [List.getD_eq_getElem _ _ hlen, List.getElem_reverse]
    simp only [bits, List.getElem_map, List.getElem_range, BitVec.getMsbD, List.length_map,
      List.length_range]
    rw [decide_eq_true (by omega), Bool.true_and, show w - 1 - (w - 1 - i) = i by omega]
  · rw [List.getD_eq_default _ _ (by simpa using hi), BitVec.getLsbD_of_ge _ _ hi]

theorem degree_ofWord_lt (x : BitVec w) : (ofWord x).degree < w := by
  simpa [ofWord] using degree_ofBits_lt (bits x)

theorem ofWord_inj {x y : BitVec w} (h : ofWord x = ofWord y) : x = y := by
  refine BitVec.eq_of_getLsbD_eq fun i _ => ?_
  have hcoeff := congrArg (coeff · i) h
  simp only [coeff_ofWord] at hcoeff
  revert hcoeff
  cases x.getLsbD i <;> cases y.getLsbD i <;> simp

@[simp] theorem ofWord_xor (x y : BitVec w) : ofWord (x ^^^ y) = ofWord x + ofWord y := by
  ext i
  rw [coeff_add, coeff_ofWord, coeff_ofWord, coeff_ofWord, BitVec.getLsbD_xor]
  cases x.getLsbD i <;> cases y.getLsbD i <;> simp [CharTwo.add_self_eq_zero]

/-- A shift, and what is shifted out. -/
theorem ofWord_shiftLeft (x : BitVec w) {k : ℕ} (hk : k ≤ w) :
    ofWord x * X ^ k = ofWord (x <<< k) + ofWord (x >>> (w - k)) * X ^ w := by
  ext i
  rw [coeff_add, coeff_mul_X_pow', coeff_mul_X_pow']
  simp only [coeff_ofWord, BitVec.getLsbD_shiftLeft, BitVec.getLsbD_ushiftRight]
  rcases Nat.lt_or_ge i w with hi | hi
  · by_cases hki : k ≤ i
    · simp [hi, hki, Nat.not_le.mpr hi, Nat.not_lt.mpr hki]
    · simp [hi, hki, Nat.not_le.mpr hi, Nat.lt_of_not_le hki]
  · rw [if_pos (hk.trans hi), if_pos hi, show w - k + (i - w) = i - k by omega]
    simp [Nat.not_lt.mpr hi]

@[simp] theorem ofWord_zero : ofWord (0 : BitVec w) = 0 := by
  ext i
  simp

/-- A shift that shifts out nothing. -/
theorem ofWord_shiftLeft_of_small {x : BitVec w} {k : ℕ} (hk : k ≤ w) (h : x >>> (w - k) = 0) :
    ofWord (x <<< k) = ofWord x * X ^ k := by
  rw [ofWord_shiftLeft x hk, h, ofWord_zero, zero_mul, add_zero]

/-- A word that is extended by zeros. -/
theorem ofWord_setWidth {w' : ℕ} (x : BitVec w)
    (h : w ≤ w') : ofWord (x.setWidth w') = ofWord x := by
  ext i
  rw [coeff_ofWord, coeff_ofWord, BitVec.getLsbD_setWidth]
  rcases Nat.lt_or_ge i w' with hi | hi
  · rw [decide_eq_true hi, Bool.true_and]
  · rw [decide_eq_false (Nat.not_lt.mpr hi), Bool.false_and, BitVec.getLsbD_of_ge _ _ (h.trans hi)]

/-! ## Remainders -/

/-- The polynomial that a word of width `w` divides by. -/
noncomputable def generator (g : BitVec w) : (ZMod 2)[X] :=
  X ^ w + ofWord g

theorem monic_generator (g : BitVec w) : (generator g).Monic :=
  monic_X_pow_add (degree_ofWord_lt g)

theorem degree_generator (g : BitVec w) : (generator g).degree = w := by
  rw [generator, degree_add_eq_left_of_degree_lt, degree_X_pow]
  rw [degree_X_pow]
  exact degree_ofWord_lt g

/-- A multiplication by `X` in the remainders. -/
def shiftMod (g x : BitVec w) : BitVec w :=
  if x.msb then x <<< 1 ^^^ g else x <<< 1

/-- A word is congruent to a polynomial. -/
def Residue (g : BitVec w) (p q : (ZMod 2)[X]) : Prop :=
  generator g ∣ p - q

namespace Residue

variable {g : BitVec w} {p p' q q' r : (ZMod 2)[X]}

theorem refl (p : (ZMod 2)[X]) : Residue g p p := by
  simp [Residue]

theorem trans (h : Residue g p q) (h' : Residue g q r) : Residue g p r := by
  simpa [Residue] using dvd_add h h'

theorem add (h : Residue g p q) (h' : Residue g p' q') : Residue g (p + p') (q + q') := by
  simpa only [Residue, add_sub_add_comm] using dvd_add h h'

theorem mul (h : Residue g p q) (r : (ZMod 2)[X]) : Residue g (p * r) (q * r) := by
  simpa only [Residue, ← sub_mul] using h.mul_right r

/-- A word is the remainder of what it is congruent to. -/
theorem eq_mod {x : BitVec w} (h : Residue g (ofWord x) p) : ofWord x = p %ₘ generator g := by
  have hself : ofWord x %ₘ generator g = ofWord x := by
    rw [modByMonic_eq_self_iff (monic_generator g), degree_generator]
    exact degree_ofWord_lt x
  rw [← hself]
  exact modByMonic_eq_of_dvd_sub (monic_generator g) h

theorem shift (x : BitVec w) (hw : 0 < w) :
    Residue g (ofWord (shiftMod g x)) (ofWord x * X) := by
  have hshift := ofWord_shiftLeft x hw
  have hout : ofWord (x >>> (w - 1)) = if x.msb then 1 else 0 := by
    ext i
    rw [coeff_ofWord, BitVec.getLsbD_ushiftRight, BitVec.msb_eq_getLsbD_last]
    rcases Nat.eq_zero_or_pos i with rfl | hi
    · cases x.getLsbD (w - 1) <;> simp
    · rw [BitVec.getLsbD_of_ge _ _ (show w ≤ w - 1 + i by omega)]
      cases x.getLsbD (w - 1) <;> simp [coeff_one, hi.ne']
  rw [pow_one, hout] at hshift
  unfold shiftMod
  cases hmsb : x.msb
  · rw [hmsb] at hshift
    rw [hshift]
    simp [Residue]
  · rw [hmsb] at hshift
    refine ⟨1, ?_⟩
    rw [hshift, if_pos rfl, if_pos rfl, ofWord_xor, generator, one_mul, mul_one, CharTwo.sub_eq_add,
      add_add_add_comm, CharTwo.add_self_eq_zero, zero_add, add_comm]

theorem iterate_shift (x : BitVec w) (hw : 0 < w) (k : ℕ) :
    Residue g (ofWord ((shiftMod g)^[k] x)) (ofWord x * X ^ k) := by
  induction k with
  | zero => simp [Residue]
  | succ k ih =>
    rw [Function.iterate_succ_apply']
    refine (shift _ hw).trans ?_
    simpa only [pow_succ, mul_assoc] using ih.mul X

end Residue

/-- If the generator has a constant term, lists of bits that differ in a part of at most `w` bits
are told apart. -/
theorem eq_of_burst {g : BitVec w} (hg : g.getLsbD 0 = true) (hw : 0 < w)
    {before mid mid' after : List Bool} (hlen : mid.length = mid'.length) (hmid : mid.length ≤ w)
    {k : ℕ} (h : Residue g (ofBits (before ++ mid ++ after) * X ^ k)
      (ofBits (before ++ mid' ++ after) * X ^ k)) : mid = mid' := by
  have hdiff : ofBits (before ++ mid ++ after) * X ^ k - ofBits (before ++ mid' ++ after) * X ^ k =
      (ofBits mid - ofBits mid') * X ^ (after.length + k) := by
    rw [ofBits_append, ofBits_append, ofBits_append, ofBits_append, hlen]
    ring
  have hcoprime : IsCoprime (generator g) (X ^ (after.length + k)) := by
    refine IsCoprime.pow_right ⟨1, -(generator g).divX, ?_⟩
    have hconst : (generator g).coeff 0 = 1 := by
      simp [generator, hg, coeff_X_pow, hw.ne]
    calc 1 * generator g + -(generator g).divX * X
        = 1 * ((generator g).divX * X + C ((generator g).coeff 0)) +
            -(generator g).divX * X := by rw [divX_mul_X_add]
      _ = 1 := by
        rw [hconst, C_1]
        ring
  rw [Residue, hdiff] at h
  have hdvd := hcoprime.dvd_of_dvd_mul_right h
  have hzero : ofBits mid - ofBits mid' = 0 := by
    refine eq_zero_of_dvd_of_degree_lt hdvd ?_
    rw [degree_generator]
    refine (degree_sub_le _ _).trans_lt (max_lt ?_ ?_)
    · exact (degree_ofBits_lt mid).trans_le (by exact_mod_cast hmid)
    · exact (degree_ofBits_lt mid').trans_le (by exact_mod_cast hlen ▸ hmid)
  exact ofBits_inj hlen (sub_eq_zero.mp hzero)

end BinaryPolynomial
