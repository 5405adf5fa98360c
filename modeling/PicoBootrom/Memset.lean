import PicoBootrom.Address
import PicoBootrom.ThumbStack

/-!
# Filling memory

`__memset` fills a byte and a halfword up to the next word, then sixteen bytes at a time, and then
what the four lowest bits of the rest say, which shifts bring into the carry. Less than eight bytes
are filled one by one, from an entry of a list of stores that is computed. The filled bytes are
followed through these parts (`Filling`), and each part that is left with a rest of some length ends
with the whole range filled.

The sixteen bytes at a time take two registers more, which are pushed. So the eight bytes below the
stack pointer are written as well.
-/

namespace PicoBootrom

open Thumb Thumb.Reg

/-! ## The source -/

/-- The labels of `__memset_4` and `__memset`, and names for the instructions after their branches.
-/
inductive MemsetLabel
  | memset4 | memset | head | oddByte | widen | halfword | adjust | wordBoundary
  | extend | loop16 | restore | rem8 | store8 | rem4 | store4 | wordEnd | rem2 | store2 | store2More
  | rem1 | store1 | done | short | shortStore (k : Fin 7) | shortEnd
  deriving DecidableEq, Repr

/-- What follows a store of a short range. -/
def afterShortStore : Fin 7 → MemsetLabel :=
  Fin.cases .shortEnd fun k => .shortStore k.castSucc

/-- The code of `__memset_4` and `__memset`. -/
def memsetCode (P : Placement MemsetLabel) : MemsetLabel → Block MemsetLabel
  | .memset4 => ⟨[mov r12 r0, uxtb r1 r1, lsls r3 r1 8, orrs r1 r3], .b .wordBoundary⟩
  | .memset => ⟨[mov r12 r0, cmp r2 8], .bcond .lo .short .head⟩
  | .head => ⟨[lsrs r3 r0 1], .bcond .cc .widen .oddByte⟩
  | .oddByte => ⟨[strb r1 r0 0, adds r0 r0 1], .b .widen⟩
  | .widen => ⟨[uxtb r1 r1, lsls r3 r1 8, orrs r1 r3, lsrs r3 r0 2], .bcond .cc .adjust .halfword⟩
  | .halfword => ⟨[strh r1 r0 0, adds r0 r0 2], .b .adjust⟩
  | .adjust => ⟨[mov r3 r12, subs r3 r3 r0, adds r2 r2 r3], .b .wordBoundary⟩
  | .wordBoundary => ⟨[
      rev r3 r1,
      orrs r1 r3,
      adds r3 r1 0,
      subs r2 r2 16],
      .bcond .cc .rem8 .extend⟩
  | .extend => ⟨[push [r4, r5], adds r4 r1 0, adds r5 r1 0], .b .loop16⟩
  | .loop16 => ⟨[stmia r0 [r1, r3, r4, r5], subs r2 r2 16], .bcond .cs .loop16 .restore⟩
  | .restore => ⟨[pop [r4, r5]], .b .rem8⟩
  | .rem8 => ⟨[lsls r2 r2 29], .bcond .cc .rem4 .store8⟩
  | .store8 => ⟨[stmia r0 [r1, r3]], .b .rem4⟩
  | .rem4 => ⟨[lsls r2 r2 1], .bcond .cc .wordEnd .store4⟩
  | .store4 => ⟨[stmia r0 [r1]], .b .wordEnd⟩
  | .wordEnd => ⟨[], .bcond .eq .done .rem2⟩
  | .rem2 => ⟨[lsls r2 r2 1], .bcond .cc .rem1 .store2⟩
  | .store2 => ⟨[strh r1 r0 0], .bcond .eq .done .store2More⟩
  | .store2More => ⟨[adds r0 r0 2], .b .rem1⟩
  | .rem1 => ⟨[], .bcond .eq .done .store1⟩
  | .store1 => ⟨[strb r1 r0 0], .b .done⟩
  | .done => ⟨[mov r0 r12], .bx lr⟩
  | .short => ⟨[
      ldrLit r3 (P.addr .shortEnd),
      subs r3 r3 r2,
      subs r3 r3 r2,
      adds r3 r3 1],
      .bx r3⟩
  | .shortStore k => ⟨[strb r1 r0 (.imm k)], .b (afterShortStore k)⟩
  | .shortEnd => ⟨[mov r0 r12], .bx lr⟩

/-- The stores of a short range are two bytes each, one after the other up to the end. -/
def ShortStoresPlaced (P : Placement MemsetLabel) : Prop :=
  ∀ k : Fin 7, P.addr (.shortStore k) = P.addr .shortEnd - BitVec.ofNat 32 (2 * (k + 1))

/-! ## Fill values -/

variable {b : Byte}

/-- A byte in the lower two bytes of a word. -/
def twoBytes (b : Byte) : Word :=
  b.setWidth 32 ||| b.setWidth 32 <<< 8

/-- A byte in all bytes of a word. -/
def fourBytes (b : Byte) : Word :=
  twoBytes b ||| reverseBytes (twoBytes b)

theorem extractLsb'_twoBytes {i : ℕ} (hi : i < 2) : (twoBytes b).extractLsb' (8 * i) 8 = b := by
  refine BitVec.eq_of_getLsbD_eq fun k hk => ?_
  rw [BitVec.getLsbD_extractLsb', decide_eq_true hk, Bool.true_and, twoBytes, BitVec.getLsbD_or,
    BitVec.getLsbD_shiftLeft, BitVec.getLsbD_setWidth, BitVec.getLsbD_setWidth]
  obtain rfl | rfl : i = 0 ∨ i = 1 := by omega
  · simp [hk, show k < 32 by omega]
  · rw [BitVec.getLsbD_of_ge b _ (show 8 ≤ 8 * 1 + k by omega)]
    simp [show 8 + k < 32 by omega, show k < 32 by omega]

theorem extractLsb'_twoBytes_high {i : ℕ} (hi : 2 ≤ i) :
    (twoBytes b).extractLsb' (8 * i) 8 = 0 := by
  refine BitVec.eq_of_getLsbD_eq fun k hk => ?_
  rw [BitVec.getLsbD_extractLsb', decide_eq_true hk, Bool.true_and, twoBytes, BitVec.getLsbD_or,
    BitVec.getLsbD_shiftLeft, BitVec.getLsbD_setWidth, BitVec.getLsbD_setWidth,
    BitVec.getLsbD_of_ge b _ (show 8 ≤ 8 * i + k by omega),
    BitVec.getLsbD_of_ge b _ (show 8 ≤ 8 * i + k - 8 by omega)]
  simp

theorem extractLsb'_reverseBytes (x : Word) {i : ℕ} (hi : i < 4) :
    (reverseBytes x).extractLsb' (8 * i) 8 = x.extractLsb' (8 * (3 - i)) 8 := by
  refine BitVec.eq_of_getLsbD_eq fun k hk => ?_
  simp only [reverseBytes, BitVec.getLsbD_extractLsb', BitVec.getLsbD_append]
  obtain rfl | rfl | rfl | rfl : i = 0 ∨ i = 1 ∨ i = 2 ∨ i = 3 := by omega
  · rw [if_pos (by omega)]
    simp [hk]
  · rw [if_neg (by omega), if_pos (by omega), show 8 * 1 + k - 8 = k by omega]
    simp [hk]
  · rw [if_neg (by omega), if_neg (by omega), if_pos (by omega),
      show 8 * 2 + k - 8 - 8 = k by omega]
    simp [hk]
  · rw [if_neg (by omega), if_neg (by omega), if_neg (by omega),
      show 8 * 3 + k - 8 - 8 - 8 = k by omega]
    simp [hk]

theorem extractLsb'_fourBytes {i : ℕ} (hi : i < 4) : (fourBytes b).extractLsb' (8 * i) 8 = b := by
  rw [fourBytes, BitVec.extractLsb'_or, extractLsb'_reverseBytes _ hi]
  rcases Nat.lt_or_ge i 2 with h | h
  · rw [extractLsb'_twoBytes h, extractLsb'_twoBytes_high (by omega)]
    exact BitVec.or_zero
  · rw [extractLsb'_twoBytes_high h, extractLsb'_twoBytes (by omega)]
    exact BitVec.zero_or

/-- A byte of the lower half of a word. -/
theorem extractLsb'_half (x : Word) {i : ℕ} (hi : i < 2) :
    (x.setWidth 16).extractLsb' (8 * i) 8 = x.extractLsb' (8 * i) 8 := by
  refine BitVec.eq_of_getLsbD_eq fun k hk => ?_
  rw [BitVec.getLsbD_extractLsb', BitVec.getLsbD_extractLsb', BitVec.getLsbD_setWidth,
    decide_eq_true (show 8 * i + k < 16 by omega), Bool.true_and]

theorem setWidth_fourBytes : (fourBytes b).setWidth 8 = b := by
  rw [BitVec.setWidth_eq_extractLsb' (by decide)]
  exact extractLsb'_fourBytes (i := 0) (by decide)

/-! ## What is filled -/

/-- The first `i` bytes of a call in the state `c₀` are filled, and the next one is at `r0` : the
parts of the state that this is about. -/
structure FillingAt (c₀ : Cpu) (i : ℕ) (r0 r12 lr sp : Word) (saved : List Word) (mem : Memory 32)
    (aligned : Bool) : Prop where
  place : r0 = c₀.r0 + BitVec.ofNat 32 i
  dest : r12 = c₀.r0
  ret : lr = c₀.lr
  sp_eq : sp = c₀.sp
  saved_eq : saved = c₀.others []
  mem_eq (a : Word) (h : ¬Memory.InRange (c₀.sp - 8) 8 a) :
    mem a = c₀.mem.fill c₀.r0 i (c₀.r1.setWidth 8) a
  aligned_eq (h : isAligned c₀.sp 4 = true) : aligned = c₀.aligned

/-- The first `i` bytes of a call in the state `c₀` are filled. -/
def Filling (c₀ : Cpu) (i : ℕ) (c : Cpu) : Prop :=
  FillingAt c₀ i c.r0 c.r12 c.lr c.sp (c.others []) c.mem c.aligned

/-- The end of a call in the state `c₀` that fills `n` bytes. -/
def Filled (P : Placement MemsetLabel) (c₀ : Cpu) (n : ℕ) (y : Config MemsetLabel) : Prop :=
  ∃ c', y = P.jump c₀.lr c' ∧ c'.r0 = c₀.r0 ∧ Preserved c₀ c' ∧
    ∀ a, ¬Memory.InRange (c₀.sp - 8) 8 a → c'.mem a = c₀.mem.fill c₀.r0 n (c₀.r1.setWidth 8) a

section Runs

-- states are compared by unfolding, which has to stop at the shifts
attribute [local irreducible] BitVec.shiftLeft BitVec.ushiftRight

variable {P : Placement MemsetLabel} {c c₀ : Cpu} {n i k : ℕ} {place dest ret stack : Word}
  {saved : List Word} {mem : Memory 32} {aligned : Bool}

/-- `k` more bytes are stored. -/
theorem FillingAt.store (h : FillingAt c₀ i place dest ret stack saved mem aligned) {src : ℕ → Byte}
    (hsrc : ∀ j < k, src j = c₀.r1.setWidth 8) (hlen : i + k ≤ 2 ^ 32) {place' : Word}
    (hplace : place' = place + BitVec.ofNat 32 k) {aligned' : Bool} (hal : aligned' = aligned) :
    FillingAt c₀ (i + k) place' dest ret stack saved (mem.copy place k src) aligned' where
  place := by
    rw [hplace, h.place]
    exact Memory.add_ofNat_add _ _ _
  dest := h.dest
  ret := h.ret
  sp_eq := h.sp_eq
  saved_eq := h.saved_eq
  mem_eq a ha := by
    have hfill : (c₀.mem.fill c₀.r0 i (c₀.r1.setWidth 8)).copy place k src =
        c₀.mem.fill c₀.r0 (i + k) (c₀.r1.setWidth 8) := by
      rw [h.place, Memory.copy_congr hsrc]
      exact Memory.copy_append hlen
    rw [← hfill]
    by_cases hin : Memory.InRange place k a
    · rw [Memory.copy_of_inRange hin, Memory.copy_of_inRange hin]
    · rw [Memory.copy_of_not_inRange hin, Memory.copy_of_not_inRange hin, h.mem_eq a ha]
  aligned_eq hsp := hal.trans (h.aligned_eq hsp)

theorem FillingAt.storeWord (h : FillingAt c₀ i place dest ret stack saved mem aligned) {v : Word}
    (hv : v = fourBytes (c₀.r1.setWidth 8)) (hlen : i + 4 ≤ 2 ^ 32) {place' : Word}
    (hplace : place' = place + 4) {aligned' : Bool} (hal : aligned' = aligned) :
    FillingAt c₀ (i + 4) place' dest ret stack saved (mem.storeWord place v) aligned' :=
  h.store (fun _ hj => by rw [hv, extractLsb'_fourBytes hj]) hlen hplace hal

/-- Returning, at either end. -/
theorem leads_end {l : MemsetLabel} (hl : memsetCode P l = ⟨[mov r0 r12], .bx lr⟩)
    (h : FillingAt c₀ n place c.r12 c.lr c.sp (c.others []) c.mem c.aligned) :
    Leads (memsetCode P) P (.at l c) (Filled P c₀ n) := by
  refine .block ?_
  rw [hl]
  refine .now ⟨{ c with r0 := c.r12 }, ?_, h.dest, ⟨fun r hr => ?_, h.sp_eq, h.aligned_eq⟩,
    h.mem_eq⟩
  · rw [← h.ret]
    rfl
  · rw [← get_of_others h.saved_eq hr List.not_mem_nil]
    revert hr
    cases r <;> simp [calleeSaved]

/-! ## The rest of less than sixteen bytes -/

theorem leads_store1 (h : Filling c₀ i c) (hr1 : c.r1.setWidth 8 = c₀.r1.setWidth 8)
    (hn : i + 1 = n) (hlen : n ≤ 2 ^ 32) :
    Leads (memsetCode P) P (.at .store1 c) (Filled P c₀ n) := by
  subst hn
  refine .block ?_
  dsimp [memsetCode]
  rw [BitVec.add_zero]
  exact leads_end rfl (h.store (fun _ _ => hr1) hlen rfl rfl)

theorem leads_rem1 (h : Filling c₀ i c) (hr1 : c.r1.setWidth 8 = c₀.r1.setWidth 8)
    (hlen : n ≤ 2 ^ 32) (hz : c.flags.z = true → i = n) (hnz : c.flags.z = false → i + 1 = n) :
    Leads (memsetCode P) P (.at .rem1 c) (Filled P c₀ n) := by
  refine .block (.bcond (fun heq => ?_) (fun hne => ?_))
  · exact leads_end rfl (hz heq ▸ h)
  · exact leads_store1 h hr1 (hnz hne) hlen

/-- Two bytes, and one more that is not at address zero. -/
theorem leads_store2 (h : Filling c₀ i c) (hr1 : c.r1 = fourBytes (c₀.r1.setWidth 8))
    (hlen : c₀.r0.toNat + n ≤ 2 ^ 32) (hal : isAligned c.r0 2 = true)
    (hz : c.flags.z = true → i + 2 = n) (hnz : c.flags.z = false → i + 2 + 1 = n) :
    Leads (memsetCode P) P (.at .store2 c) (Filled P c₀ n) := by
  have hbytes : ∀ j < 2, (c.r1.setWidth 16).extractLsb' (8 * j) 8 = c₀.r1.setWidth 8 := by
    intro j hj
    rw [extractLsb'_half _ hj, hr1, extractLsb'_fourBytes (by omega)]
  refine .block ?_
  dsimp [memsetCode]
  rw [BitVec.add_zero, hal, Bool.and_true]
  refine .ite (fun heq => ?_) (fun hne => ?_)
  · have hn := hz heq
    subst hn
    exact leads_end rfl (h.store hbytes (by omega) rfl rfl)
  · have hn := hnz (Bool.eq_false_iff.mpr hne)
    refine .block ?_
    dsimp [memsetCode]
    refine leads_rem1 (h.store hbytes (by omega) rfl rfl) (by rw [hr1, setWidth_fourBytes])
      (by omega) (fun hzero => ?_) (fun _ => hn)
    have hplace : c.r0 + 2#32 = c₀.r0 + BitVec.ofNat 32 (i + 2) := by
      rw [h.place]
      exact Memory.add_ofNat_add _ _ _
    have hzero : c.r0 + 2#32 = 0 := beq_iff_eq.mp hzero
    rw [hplace] at hzero
    have hnat := congrArg BitVec.toNat hzero
    rw [BitVec.toNat_add, BitVec.toNat_ofNat] at hnat
    have hrange : (c₀.r0.toNat + (i + 2) % 2 ^ 32) % 2 ^ 32 = 0 := hnat
    omega

/-- The two lowest bits of a rest, where the flags are those of a shift of both of them. -/
theorem leads_wordEnd {x : Word} (h : Filling c₀ i c) (hr1 : c.r1 = fourBytes (c₀.r1.setWidth 8))
    (hlen : c₀.r0.toNat + n ≤ 2 ^ 32) (hal : isAligned c.r0 2 = true) (hr2 : c.r2 = x <<< 30)
    (hz : c.flags.z = (c.r2 == 0)) (hn : i + x.toNat % 4 = n) :
    Leads (memsetCode P) P (.at .wordEnd c) (Filled P c₀ n) := by
  have htwo : x.toNat % 4 = x.toNat % 2 + if x.getLsbD 1 then 2 else 0 := mod_two_pow_succ x 1
  have hzero : x <<< 30 = 0 ↔ x.toNat % 4 = 0 := shiftLeft_eq_zero_iff x (by decide)
  have hzero' : x <<< 30 <<< 1 = 0 ↔ x.toNat % 2 = 0 := by
    rw [← BitVec.shiftLeft_add]
    exact shiftLeft_eq_zero_iff x (by decide)
  have hcarry : (x <<< 30).getLsbD 31 = x.getLsbD 1 := getLsbD_shiftLeft_last x (by decide)
  refine .block (.bcond (fun heq => ?_) (fun hne => ?_))
  · change c.flags.z = true at heq
    rw [hz, beq_iff_eq, hr2, hzero] at heq
    rw [heq, Nat.add_zero] at hn
    exact leads_end rfl (hn ▸ h)
  have hbits (hz : (c.r2 <<< 1 == 0) = true) : x.toNat % 2 = 0 := by
    rwa [beq_iff_eq, hr2, hzero'] at hz
  have hbits' (hnz : (c.r2 <<< 1 == 0) = false) : x.toNat % 2 = 1 := by
    rw [beq_eq_false_iff_ne, hr2, Ne, hzero'] at hnz
    omega
  refine .block (.bcond (fun hcc => ?_) (fun hcs => ?_))
  · change (!c.r2.getLsbD 31) = true at hcc
    rw [Bool.not_eq_true', hr2, hcarry] at hcc
    rw [hcc, if_neg Bool.false_ne_true] at htwo
    refine leads_rem1 (i := i) h ?_ (by omega) (fun hz => ?_) (fun hnz => ?_)
    · change c.r1.setWidth 8 = _
      rw [hr1, setWidth_fourBytes]
    · have := hbits hz
      omega
    · have := hbits' hnz
      omega
  · change (!c.r2.getLsbD 31) = false at hcs
    rw [Bool.not_eq_false', hr2, hcarry] at hcs
    rw [hcs, if_pos rfl] at htwo
    refine leads_store2 (i := i) h hr1 hlen hal (fun hz => ?_) (fun hnz => ?_)
    · have := hbits hz
      omega
    · have := hbits' hnz
      omega

/-- The three lowest bits of a rest. -/
theorem leads_rem4 {x : Word} (h : Filling c₀ i c) (hr1 : c.r1 = fourBytes (c₀.r1.setWidth 8))
    (hlen : c₀.r0.toNat + n ≤ 2 ^ 32) (hal : isAligned c.r0 4 = true) (hr2 : c.r2 = x <<< 29)
    (hn : i + x.toNat % 8 = n) : Leads (memsetCode P) P (.at .rem4 c) (Filled P c₀ n) := by
  have hthree : x.toNat % 8 = x.toNat % 4 + if x.getLsbD 2 then 4 else 0 := mod_two_pow_succ x 2
  have hcarry : (x <<< 29).getLsbD 31 = x.getLsbD 2 := getLsbD_shiftLeft_last x (by decide)
  have hnext : c.r2 <<< 1 = x <<< 30 := by rw [hr2, ← BitVec.shiftLeft_add]
  have hal2 : isAligned c.r0 2 = true := isAligned_of_dvd (by decide) hal
  refine .block (.bcond (fun hcc => ?_) (fun hcs => ?_))
  · change (!c.r2.getLsbD 31) = true at hcc
    rw [Bool.not_eq_true', hr2, hcarry] at hcc
    rw [hcc, if_neg Bool.false_ne_true] at hthree
    exact leads_wordEnd (x := x) h hr1 hlen hal2 hnext rfl (by omega)
  · change (!c.r2.getLsbD 31) = false at hcs
    rw [Bool.not_eq_false', hr2, hcarry] at hcs
    rw [hcs, if_pos rfl] at hthree
    refine .block ?_
    dsimp [memsetCode]
    rw [hal, Bool.and_true]
    refine leads_wordEnd (x := x) (i := i + 4)
      (h.storeWord hr1 (by omega) rfl rfl) hr1 hlen ?_ hnext rfl (by omega)
    rw [← hal2]
    exact isAligned_add (by decide) (by decide)

/-- A rest of less than sixteen bytes. -/
theorem leads_rem8 (h : Filling c₀ i c) (hr1 : c.r1 = fourBytes (c₀.r1.setWidth 8))
    (hr3 : c.r3 = fourBytes (c₀.r1.setWidth 8)) (hlen : c₀.r0.toNat + n ≤ 2 ^ 32)
    (hal : isAligned c.r0 4 = true) (hn : i + c.r2.toNat % 16 = n) :
    Leads (memsetCode P) P (.at .rem8 c) (Filled P c₀ n) := by
  have hfour : c.r2.toNat % 16 = c.r2.toNat % 8 + if c.r2.getLsbD 3 then 8 else 0 :=
    mod_two_pow_succ c.r2 3
  refine .block (.bcond (fun hcc => ?_) (fun hcs => ?_))
  · change (!c.r2.getLsbD 3) = true at hcc
    rw [Bool.not_eq_true'] at hcc
    rw [hcc, if_neg Bool.false_ne_true] at hfour
    exact leads_rem4 (i := i) (x := c.r2) h hr1 hlen hal rfl (by omega)
  · change (!c.r2.getLsbD 3) = false at hcs
    rw [Bool.not_eq_false'] at hcs
    rw [hcs, if_pos rfl] at hfour
    refine .block ?_
    dsimp [memsetCode]
    rw [hal, Bool.and_true]
    refine leads_rem4 (x := c.r2) (i := i + 4 + 4)
      ((h.storeWord hr1 (by omega) rfl rfl).storeWord hr3 (by omega) ?_ rfl) hr1 hlen ?_ rfl
      (by omega)
    · exact (Memory.add_ofNat_add c.r0 4 4).symm
    · rw [← hal]
      exact isAligned_add (by decide) (by decide)

/-! ## Sixteen bytes at a time -/

theorem fill_storeWord {m : Memory 32} {a dst v : Word} (ha : a = dst + BitVec.ofNat 32 i)
    (hv : v = fourBytes b) (hlen : i + 4 ≤ 2 ^ 32) :
    (m.fill dst i b).storeWord a v = m.fill dst (i + 4) b := by
  rw [ha, hv]
  refine (Memory.copy_congr fun j hj => extractLsb'_fourBytes hj).trans ?_
  exact Memory.copy_append hlen

/-- A word is stored in the loop, whose frame was pushed in the state `c₁`. -/
theorem framed_storeWord {c₁ : Cpu} {m : Memory 32} {a dst v : Word}
    (h : Framed [r4, r5] c₁ (m.fill dst i b) c) (ha : a = dst + BitVec.ofNat 32 i)
    (hv : v = fourBytes b) (hn : i + 4 ≤ n) (hlen : n ≤ 2 ^ 32)
    (hdisj : Memory.Disjoint (c₁.sp - 8) 8 dst n) :
    Framed [r4, r5] c₁ (m.fill dst (i + 4) b) { c with mem := c.mem.storeWord a v } := by
  rw [← fill_storeWord ha hv (by omega)]
  exact h.copy fun x hx hin => hdisj x hx (Memory.inRange_of_add ha hn hin)

/-- The registers are popped. -/
theorem leads_restore {c₁ : Cpu} {i₁ : ℕ} (h₁ : Filling c₀ i₁ c₁)
    (hframe : Framed [r4, r5] c₁ (c₀.mem.fill c₀.r0 i (c₀.r1.setWidth 8)) c)
    (hplace : c.r0 = c₀.r0 + BitVec.ofNat 32 i) (hdest : c.r12 = c₀.r0) (hret : c.lr = c₀.lr)
    (hr1 : c.r1 = fourBytes (c₀.r1.setWidth 8)) (hr3 : c.r3 = fourBytes (c₀.r1.setWidth 8))
    (hlen : c₀.r0.toNat + n ≤ 2 ^ 32) (hal : isAligned c.r0 4 = true)
    (hn : i + c.r2.toNat % 16 = n) : Leads (memsetCode P) P (.at .restore c) (Filled P c₀ n) := by
  have hkept := hframe.pop
  have hget (r : Reg) (hr : r ≠ .sp) (hrs : r ∉ [r4, r5]) : (pop [r4, r5] c).get r = c.get r :=
    get_pop_of_not_mem hr hrs
  have hr0 : (pop [r4, r5] c).r0 = c.r0 := hget .r0 (by decide) (by decide)
  have hr2 : (pop [r4, r5] c).r2 = c.r2 := hget .r2 (by decide) (by decide)
  refine .block ?_
  change Leads (memsetCode P) P (.at .rem8 (pop [r4, r5] c)) (Filled P c₀ n)
  refine leads_rem8 (i := i) ?_ ((hget .r1 (by decide) (by decide)).trans hr1)
    ((hget .r3 (by decide) (by decide)).trans hr3) hlen (hr0 ▸ hal) (hr2 ▸ hn)
  exact {
    place := hr0.trans hplace
    dest := (hget .r12 (by decide) (by decide)).trans hdest
    ret := (hget .lr (by decide) (by decide)).trans hret
    sp_eq := hkept.sp.trans h₁.sp_eq
    saved_eq := by
      rw [← h₁.saved_eq]
      exact List.map_congr_left fun r hr => hkept.regs r (List.mem_filter.mp hr).1
    mem_eq := fun a ha => by
      rw [mem_pop]
      refine hframe.outside a ?_
      rw [h₁.sp_eq]
      exact ha
    aligned_eq := fun hsp => by
      rw [hkept.aligned (h₁.sp_eq ▸ hsp), h₁.aligned_eq hsp] }

/-- The loop, while at least sixteen bytes are left. -/
theorem leads_loop16 {c₁ : Cpu} {i₁ : ℕ} (h₁ : Filling c₀ i₁ c₁)
    (hframe : Framed [r4, r5] c₁ (c₀.mem.fill c₀.r0 i (c₀.r1.setWidth 8)) c)
    (hplace : c.r0 = c₀.r0 + BitVec.ofNat 32 i) (hdest : c.r12 = c₀.r0) (hret : c.lr = c₀.lr)
    (hr1 : c.r1 = fourBytes (c₀.r1.setWidth 8)) (hr3 : c.r3 = fourBytes (c₀.r1.setWidth 8))
    (hr4 : c.r4 = fourBytes (c₀.r1.setWidth 8)) (hr5 : c.r5 = fourBytes (c₀.r1.setWidth 8))
    (hlen : c₀.r0.toNat + n ≤ 2 ^ 32) (hal : isAligned c.r0 4 = true)
    (hn : i + 16 + c.r2.toNat = n) (hdisj : Memory.Disjoint (c₀.sp - 8) 8 c₀.r0 n) :
    Leads (memsetCode P) P (.at .loop16 c) (Filled P c₀ n) := by
  induction hq : c.r2.toNat using Nat.strong_induction_on generalizing c i with
  | _ q ih =>
  subst hq
  have hdisj₁ : Memory.Disjoint (c₁.sp - 8) 8 c₀.r0 n := h₁.sp_eq ▸ hdisj
  have hnext (j : ℕ) (a : Word) (ha : a = c₀.r0 + BitVec.ofNat 32 j) :
      a + 4 = c₀.r0 + BitVec.ofNat 32 (j + 4) := by
    rw [ha]
    exact Memory.add_ofNat_add c₀.r0 j 4
  have hplace₁ := hnext _ _ hplace
  have hplace₂ := hnext _ _ hplace₁
  have hplace₃ := hnext _ _ hplace₂
  have hplace₄ : c.r0 + 16 = c₀.r0 + BitVec.ofNat 32 (i + 16) := by
    rw [hplace]
    exact Memory.add_ofNat_add c₀.r0 i 16
  have hframe₄ := framed_storeWord (framed_storeWord (framed_storeWord (framed_storeWord hframe
    hplace hr1 (by omega : _ ≤ n) (by omega) hdisj₁) hplace₁ hr3 (by omega) (by omega) hdisj₁)
    hplace₂ hr4 (by omega) (by omega) hdisj₁) hplace₃ hr5 (by omega) (by omega) hdisj₁
  have hal₄ : isAligned (c.r0 + 16) 4 = true := by
    rw [← hal]
    exact isAligned_add (by decide) (by decide)
  have hmod := toNat_sub_mod c.r2 (k := 16) (by decide)
  refine .block ?_
  dsimp [memsetCode]
  rw [hal, Bool.and_true]
  refine .ite (fun hcs => ?_) (fun hcc => ?_)
  · have hle : 16#32 ≤ c.r2 := by simpa using hcs
    have hr2 : (c.r2 - 16#32).toNat = c.r2.toNat - 16 := BitVec.toNat_sub_of_le hle
    rw [BitVec.le_def] at hle
    have hle : 16 ≤ c.r2.toNat := hle
    refine ih (c.r2.toNat - 16) (by omega) (i := i + 16) hframe₄ hplace₄ hdest hret hr1 hr3 hr4 hr5
      hal₄ ?_ hr2
    rw [hr2]
    omega
  · have hlt : c.r2.toNat < 16 := by simpa [BitVec.le_def] using hcc
    refine leads_restore (i := i + 16) h₁ hframe₄ hplace₄ hdest hret hr1 hr3 hlen hal₄ ?_
    dsimp only
    omega

/-- The registers are pushed. -/
theorem leads_extend (h : Filling c₀ i c) (hr1 : c.r1 = fourBytes (c₀.r1.setWidth 8))
    (hr3 : c.r3 = fourBytes (c₀.r1.setWidth 8)) (hlen : c₀.r0.toNat + n ≤ 2 ^ 32)
    (hal : isAligned c.r0 4 = true) (hn : i + 16 + c.r2.toNat = n)
    (hdisj : Memory.Disjoint (c₀.sp - 8) 8 c₀.r0 n) :
    Leads (memsetCode P) P (.at .extend c) (Filled P c₀ n) := by
  refine .push rfl (by decide) fun c₂ hc₂ hregs _ => ?_
  have hr0 : c₂.r0 = c.r0 := hregs .r0 (by decide)
  have hr1' : c₂.r1 = c.r1 := hregs .r1 (by decide)
  have hr2 : c₂.r2 = c.r2 := hregs .r2 (by decide)
  have hframe : Framed [r4, r5] c (c₀.mem.fill c₀.r0 i (c₀.r1.setWidth 8)) c₂ :=
    hc₂.congr fun a ha => h.mem_eq a (h.sp_eq ▸ ha)
  dsimp
  rw [BitVec.add_zero]
  exact leads_loop16 h hframe (hr0.trans h.place) ((hregs .r12 (by decide)).trans h.dest)
    ((hregs .lr (by decide)).trans h.ret) (hr1'.trans hr1) ((hregs .r3 (by decide)).trans hr3)
    (hr1'.trans hr1) (hr1'.trans hr1) hlen (hr0 ▸ hal) (hr2 ▸ hn) hdisj

/-- From a word on, with the fill value in two bytes of `r1`. -/
theorem leads_wordBoundary (h : Filling c₀ i c) (hr1 : c.r1 = twoBytes (c₀.r1.setWidth 8))
    (hlen : c₀.r0.toNat + n ≤ 2 ^ 32) (hal : isAligned c.r0 4 = true)
    (hn : i + c.r2.toNat = n) (hdisj : Memory.Disjoint (c₀.sp - 8) 8 c₀.r0 n) :
    Leads (memsetCode P) P (.at .wordBoundary c) (Filled P c₀ n) := by
  have hfill : c.r1 ||| reverseBytes c.r1 = fourBytes (c₀.r1.setWidth 8) := by
    rw [hr1, fourBytes]
  have hmod := toNat_sub_mod c.r2 (k := 16) (by decide)
  refine .block ?_
  dsimp [memsetCode]
  rw [hfill, BitVec.add_zero]
  refine .ite (fun hcc => ?_) (fun hcs => ?_)
  · have hlt : c.r2.toNat < 16 := by simpa [BitVec.le_def] using hcc
    refine leads_rem8 (i := i) h rfl rfl hlen hal ?_
    dsimp only
    omega
  · have hle : 16#32 ≤ c.r2 := by simpa using hcs
    have hr2 : (c.r2 - 16#32).toNat = c.r2.toNat - 16 := BitVec.toNat_sub_of_le hle
    rw [BitVec.le_def] at hle
    have hle : 16 ≤ c.r2.toNat := hle
    refine leads_extend (i := i) h rfl rfl hlen hal ?_ hdisj
    dsimp only
    omega

/-! ## Up to a word -/

theorem leads_adjust (h : Filling c₀ i c) (hr1 : c.r1 = twoBytes (c₀.r1.setWidth 8))
    (hr2 : c.r2 = c₀.r2) (hlen : c₀.r0.toNat + c₀.r2.toNat ≤ 2 ^ 32)
    (hal : isAligned c.r0 4 = true) (hi : i ≤ c₀.r2.toNat)
    (hdisj : Memory.Disjoint (c₀.sp - 8) 8 c₀.r0 c₀.r2.toNat) :
    Leads (memsetCode P) P (.at .adjust c) (Filled P c₀ c₀.r2.toNat) := by
  have hrest : (c.r2 + (c.r12 - c.r0)).toNat = c₀.r2.toNat - i := by
    have hlt := c₀.r2.isLt
    have hsub : c.r2 + (c.r12 - c.r0) = c₀.r2 - BitVec.ofNat 32 i := by
      rw [hr2, h.dest, h.place]
      bv_omega
    rw [hsub, BitVec.toNat_sub, BitVec.toNat_ofNat, Nat.mod_eq_of_lt (show i < 2 ^ 32 by omega)]
    omega
  refine .block ?_
  dsimp [memsetCode]
  refine leads_wordBoundary (i := i) h hr1 hlen hal ?_ hdisj
  dsimp only
  omega

theorem leads_halfword (h : Filling c₀ i c) (hr1 : c.r1 = twoBytes (c₀.r1.setWidth 8))
    (hr2 : c.r2 = c₀.r2) (hlen : c₀.r0.toNat + c₀.r2.toNat ≤ 2 ^ 32)
    (hal : c.r0.toNat % 4 = 2) (hi : i + 2 ≤ c₀.r2.toNat)
    (hdisj : Memory.Disjoint (c₀.sp - 8) 8 c₀.r0 c₀.r2.toNat) :
    Leads (memsetCode P) P (.at .halfword c) (Filled P c₀ c₀.r2.toNat) := by
  have hbytes : ∀ j < 2, (c.r1.setWidth 16).extractLsb' (8 * j) 8 = c₀.r1.setWidth 8 := by
    intro j hj
    rw [extractLsb'_half _ hj, hr1, extractLsb'_twoBytes hj]
  have hal2 : isAligned c.r0 2 = true := by
    rw [isAligned, beq_iff_eq]
    omega
  refine .block ?_
  dsimp [memsetCode]
  rw [BitVec.add_zero, hal2, Bool.and_true]
  refine leads_adjust (i := i + 2) (h.store hbytes (by omega) rfl rfl) hr1 hr2 hlen ?_ hi hdisj
  rw [isAligned, beq_iff_eq, BitVec.toNat_add]
  change (c.r0.toNat + 2) % 2 ^ 32 % 4 = 0
  omega

theorem leads_widen (h : Filling c₀ i c) (hr1 : c.r1 = c₀.r1) (hr2 : c.r2 = c₀.r2)
    (hlen : c₀.r0.toNat + c₀.r2.toNat ≤ 2 ^ 32) (hal : isAligned c.r0 2 = true)
    (hi : i + 2 ≤ c₀.r2.toNat) (hdisj : Memory.Disjoint (c₀.sp - 8) 8 c₀.r0 c₀.r2.toNat) :
    Leads (memsetCode P) P (.at .widen c) (Filled P c₀ c₀.r2.toNat) := by
  have htwo : ((c.r1.setWidth 8).setWidth 32 : Word) ||| (c.r1.setWidth 8).setWidth 32 <<< 8 =
      twoBytes (c₀.r1.setWidth 8) := by
    rw [hr1, twoBytes]
  have hbit := mod_two_pow_succ c.r0 1
  rw [isAligned, beq_iff_eq] at hal
  refine .block ?_
  dsimp [memsetCode]
  rw [htwo]
  refine .ite (fun hcc => ?_) (fun hcs => ?_)
  · change (!c.r0.getLsbD 1) = true at hcc
    rw [Bool.not_eq_true'] at hcc
    rw [hcc, if_neg Bool.false_ne_true] at hbit
    refine leads_adjust (i := i) h rfl hr2 hlen ?_ (by omega) hdisj
    rw [isAligned, beq_iff_eq]
    exact hbit.trans hal
  · change ¬(!c.r0.getLsbD 1) = true at hcs
    rw [Bool.not_eq_true', Bool.not_eq_false] at hcs
    rw [hcs, if_pos rfl] at hbit
    refine leads_halfword (i := i) h rfl hr2 hlen ?_ hi hdisj
    dsimp only
    omega

/-- The call of `__memset` for eight bytes and more. -/
theorem leads_head (h : Filling c₀ 0 c) (hr1 : c.r1 = c₀.r1) (hr2 : c.r2 = c₀.r2)
    (hlen : c₀.r0.toNat + c₀.r2.toNat ≤ 2 ^ 32) (hn : 3 ≤ c₀.r2.toNat)
    (hdisj : Memory.Disjoint (c₀.sp - 8) 8 c₀.r0 c₀.r2.toNat) :
    Leads (memsetCode P) P (.at .head c) (Filled P c₀ c₀.r2.toNat) := by
  have hbit := mod_two_pow_succ c.r0 0
  refine .block (.bcond (fun hcc => ?_) (fun hcs => .block ?_))
  · change (!c.r0.getLsbD 0) = true at hcc
    rw [Bool.not_eq_true'] at hcc
    rw [hcc, if_neg Bool.false_ne_true] at hbit
    refine leads_widen (i := 0) h hr1 hr2 hlen ?_ (by omega) hdisj
    rw [isAligned, beq_iff_eq]
    change c.r0.toNat % 2 = 0
    omega
  · change (!c.r0.getLsbD 0) = false at hcs
    rw [Bool.not_eq_false'] at hcs
    rw [hcs, if_pos rfl] at hbit
    dsimp [memsetCode]
    rw [BitVec.add_zero]
    have hbyte : c.r1.setWidth 8 = c₀.r1.setWidth 8 := by rw [hr1]
    refine leads_widen (i := 0 + 1) (h.store (fun _ _ => hbyte) (by omega) rfl rfl) hr1 hr2 hlen ?_
      (by omega) hdisj
    rw [isAligned, beq_iff_eq, BitVec.toNat_add]
    change (c.r0.toNat + 1) % 2 ^ 32 % 2 = 0
    omega

/-! ## Short ranges -/

/-- The stores from the `k`-th on fill `k + 1` bytes. -/
theorem leads_shortStore {Q : Config MemsetLabel → Prop} {k : ℕ} (hk : k < 7)
    (h : Leads (memsetCode P) P
      (.at .shortEnd { c with mem := c.mem.fill c.r0 (k + 1) (c.r1.setWidth 8) }) Q) :
    Leads (memsetCode P) P (.at (.shortStore ⟨k, hk⟩) c) Q := by
  induction k generalizing c with
  | zero =>
    refine .block ?_
    dsimp [memsetCode, afterShortStore]
    have hzero : c.r0 + Operand.val c (.imm 0) = c.r0 := BitVec.add_zero c.r0
    rw [hzero]
    exact h
  | succ k ih =>
    rw [Memory.fill, ← Memory.copy_append' (by omega)] at h
    exact .block (ih (by omega) (c := { c with
      mem := c.mem.copy (c.r0 + BitVec.ofNat 32 (k + 1)) 1 fun _ => c.r1.setWidth 8 }) h)

/-- Less than eight bytes. -/
theorem leads_short (hP : ShortStoresPlaced P) (h : Filling c₀ 0 c) (hr1 : c.r1 = c₀.r1)
    (hr2 : c.r2 = c₀.r2) (hn : c₀.r2.toNat < 8) :
    Leads (memsetCode P) P (.at .short c) (Filled P c₀ c₀.r2.toNat) := by
  have hbyte : c.r1.setWidth 8 = c₀.r1.setWidth 8 := by rw [hr1]
  refine .block ?_
  dsimp [memsetCode]
  rcases Nat.eq_zero_or_pos c₀.r2.toNat with hzero | hpos
  · have hr2' : c.r2 = 0 := hr2.trans (BitVec.eq_of_toNat_eq hzero)
    have hentry : P.addr .shortEnd - c.r2 - c.r2 = P.addr .shortEnd := by
      rw [hr2']
      bv_omega
    rw [hentry]
    refine Eq.mpr (congrArg (Leads _ P · _) (Placement.jump_addr _ _)) ?_
    rw [hzero]
    exact leads_end rfl h
  · obtain ⟨k, hk⟩ : ∃ k, c₀.r2.toNat = k + 1 := ⟨c₀.r2.toNat - 1, by omega⟩
    have hk7 : k < 7 := by omega
    have hr2' : c.r2 = BitVec.ofNat 32 (k + 1) := by
      rw [hr2, ← hk, BitVec.ofNat_toNat, BitVec.setWidth_eq]
    have hentry : P.addr .shortEnd - c.r2 - c.r2 = P.addr (.shortStore ⟨k, hk7⟩) := by
      rw [hP ⟨k, hk7⟩, hr2', Nat.two_mul, BitVec.ofNat_add (k + 1)]
      bv_omega
    rw [hentry]
    refine Eq.mpr (congrArg (Leads _ P · _) (Placement.jump_addr _ _)) ?_
    have hfill := h.store (k := k + 1) (fun _ _ => hbyte) (by omega) rfl rfl
    rw [Nat.zero_add] at hfill
    rw [hk]
    exact leads_shortStore hk7 (leads_end rfl hfill)

/-! ## The routines -/

/-- What a caller of either routine gives : a range that does not wrap, and has no part in the eight
bytes of the stack that may be pushed to. -/
structure MemsetCall (c : Cpu) : Prop where
  range : c.r0.toNat + c.r2.toNat ≤ 2 ^ 32
  stack : Memory.Disjoint (c.sp - 8) 8 c.r0 c.r2.toNat

theorem filling_start
    (c : Cpu) : FillingAt c 0 c.r0 c.r0 c.lr c.sp (c.others []) c.mem c.aligned where
  place := (BitVec.add_zero c.r0).symm
  dest := rfl
  ret := rfl
  sp_eq := rfl
  saved_eq := rfl
  mem_eq a _ := congrFun (Memory.copy_zero _ _ _).symm a
  aligned_eq _ := rfl

/-- `__memset` and `__memset_4` return the destination, keep the registers of their caller, and fill
the range and no other byte outside of the eight bytes below the stack pointer. The accesses are
aligned if the stack pointer is. -/
theorem memset_fills (P : Placement MemsetLabel) (hP : ShortStoresPlaced P) (c : Cpu)
    (hcall : MemsetCall c) :
    Leads (memsetCode P) P (.at .memset c) (Filled P c c.r2.toNat) ∧
      (isAligned c.r0 4 = true →
        Leads (memsetCode P) P (.at .memset4 c) (Filled P c c.r2.toNat)) := by
  have hstart := filling_start c
  refine ⟨.block (.bcond (fun hlo => ?_) (fun hhs => ?_)), fun hal => .block ?_⟩
  · change (!decide (8 ≤ c.r2)) = true at hlo
    rw [Bool.not_eq_true', decide_eq_false_iff_not, BitVec.le_def] at hlo
    exact leads_short hP hstart rfl rfl (Nat.lt_of_not_le hlo)
  · change (!decide (8 ≤ c.r2)) = false at hhs
    rw [Bool.not_eq_false', decide_eq_true_eq, BitVec.le_def] at hhs
    have hn : 8 ≤ c.r2.toNat := hhs
    exact leads_head hstart rfl rfl hcall.range (by omega) hcall.stack
  · exact leads_wordBoundary (i := 0) hstart rfl hcall.range hal (Nat.zero_add _) hcall.stack

end Runs

/-- The address of a label : the stores of a short range in their places before their end, at
`0x80`, and the other labels before them. -/
def memsetAddr : MemsetLabel → Word
  | .shortEnd => 0x80
  | .shortStore k => 0x80 - BitVec.ofNat 32 (2 * (k + 1))
  | l => BitVec.ofNat 32 (4 * l.ctorIdx)

def memsetPlacement : Placement MemsetLabel :=
  .ofTable ([.memset4, .memset, .head, .oddByte, .widen, .halfword, .adjust, .wordBoundary, .extend,
      .loop16, .restore, .rem8, .store8, .rem4, .store4, .wordEnd, .rem2, .store2, .store2More, .rem1,
      .store1, .done, .short, .shortEnd] ++ (List.finRange 7).map .shortStore)
    memsetAddr
    (by
      rintro (_ | _ | _ | _ | _ | _ | _ | _ | _ | _ | _ | _ | _ | _ | _ | _ | _ | _ | _ | _ | _ | _ | _ |
        k | _) <;> simp)
    (by decide) (by decide)

theorem memsetPlacement_shortStores : ShortStoresPlaced memsetPlacement :=
  fun _ => rfl

/-- A call for sixteen bytes at `0x20000100`. -/
def memsetCpu : Cpu :=
  { Cpu.cleared 0x20041f00 0x10000101 (fun _ => 0) with
    r0 := 0x20000100, r1 := 0xaa, r2 := 16, r4 := 0x11 }

theorem memsetCpu_call : MemsetCall memsetCpu where
  range := by decide
  stack := (Memory.disjoint_of_le (by decide) (by decide)).symm

theorem memset_fills_sixteen :
    Leads (memsetCode memsetPlacement) memsetPlacement (.at .memset memsetCpu)
        (Filled memsetPlacement memsetCpu 16) ∧
      (isAligned 0x20000100 4 = true →
        Leads (memsetCode memsetPlacement) memsetPlacement (.at .memset4 memsetCpu)
          (Filled memsetPlacement memsetCpu 16)) :=
  memset_fills memsetPlacement memsetPlacement_shortStores memsetCpu memsetCpu_call

/-- The registers that are pushed change a byte outside of the range. -/
theorem memset_pushes :
    Leads (memsetCode memsetPlacement) memsetPlacement (.at .memset memsetCpu) fun y =>
      y = memsetPlacement.jump memsetCpu.lr y.cpu ∧
        ¬Memory.InRange memsetCpu.r0 16 (memsetCpu.sp - 8) ∧
        y.cpu.mem (memsetCpu.sp - 8) ≠ memsetCpu.mem (memsetCpu.sp - 8) := by
  refine ⟨12, ?_, ?_, ?_⟩
  · rfl
  · decide
  · decide

end PicoBootrom
