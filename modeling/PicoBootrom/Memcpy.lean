import PicoBootrom.Address
import PicoBootrom.ThumbStack

/-!
# Copying memory

`__memcpy` copies less than eight bytes from the last one to the first one, from an entry of a list
of copies that is computed, and ranges whose addresses differ in their two lowest bits by a loop in
the same order (`BackwardAt`). The other ranges are copied from their first byte on (`CopyingAt`) :
a byte and a halfword up to the next word, then sixteen bytes at a time, and then what the four
lowest bits of the rest say, which shifts bring into the carry.

The copies of the second kind take three registers more, which are pushed. So the twelve bytes below
the stack pointer are written as well.
-/

namespace PicoBootrom.Memcpy

open Thumb Thumb.Reg

/-! ## The source -/

/-- The labels of `__memcpy_44` and `__memcpy`, and names for the instructions after their branches.
-/
inductive MemcpyLabel
  | memcpy44 | saveAligned | slowLoop | slowEnd | memcpy | coaligned | save | oddByte | evenAddress
  | halfword | adjust | aligned | loop16 | rem8 | copy8 | rem4 | copy4 | wordEnd | rem2 | copy2
  | copy2More | rem1 | copy1 | done | short | shortCopy (k : Fin 7) | shortEnd
  deriving DecidableEq, Repr

/-- What follows a copy of a short range. -/
def afterShortCopy : Fin 7 → MemcpyLabel :=
  Fin.cases .shortEnd fun k => .shortCopy k.castSucc

/-- The code of `__memcpy_44` and `__memcpy`. -/
def memcpyCode (P : Placement MemcpyLabel) : MemcpyLabel → Block MemcpyLabel
  | .memcpy44 => ⟨[mov r12 r0, cmp r2 8], .bcond .lo .short .saveAligned⟩
  | .saveAligned => ⟨[push [r4, r5, r6]], .b .aligned⟩
  | .slowLoop => ⟨[subs r2 r2 1, ldrb r3 r1 r2, strb r3 r0 r2], .bcond .ne .slowLoop .slowEnd⟩
  | .slowEnd => ⟨[mov r0 r12], .bx lr⟩
  | .memcpy => ⟨[mov r12 r0, cmp r2 8], .bcond .lo .short .coaligned⟩
  | .coaligned => ⟨[subs r3 r0 r1, lsls r3 r3 30], .bcond .ne .slowLoop .save⟩
  | .save => ⟨[
      push [r4, r5, r6],
      subs r1 r1 r0,
      adds r5 r0 0,
      lsrs r3 r0 1],
      .bcond .cc .evenAddress .oddByte⟩
  | .oddByte => ⟨[ldrb r4 r0 r1, strb r4 r0 0, adds r0 r0 1], .b .evenAddress⟩
  | .evenAddress => ⟨[lsrs r3 r0 2], .bcond .cc .adjust .halfword⟩
  | .halfword => ⟨[ldrh r4 r0 r1, strh r4 r0 0, adds r0 r0 2], .b .adjust⟩
  | .adjust => ⟨[adds r1 r1 r0, subs r5 r5 r0, adds r2 r2 r5], .b .aligned⟩
  | .aligned => ⟨[subs r2 r2 16], .bcond .cc .rem8 .loop16⟩
  | .loop16 => ⟨[
      ldmia r1 [r3, r4, r5, r6],
      stmia r0 [r3, r4, r5, r6],
      subs r2 r2 16],
      .bcond .cs .loop16 .rem8⟩
  | .rem8 => ⟨[lsls r2 r2 29], .bcond .cc .rem4 .copy8⟩
  | .copy8 => ⟨[ldmia r1 [r3, r4], stmia r0 [r3, r4]], .b .rem4⟩
  | .rem4 => ⟨[lsls r2 r2 1], .bcond .cc .wordEnd .copy4⟩
  | .copy4 => ⟨[ldmia r1 [r3], stmia r0 [r3]], .b .wordEnd⟩
  | .wordEnd => ⟨[], .bcond .eq .done .rem2⟩
  | .rem2 => ⟨[lsls r2 r2 1], .bcond .cc .rem1 .copy2⟩
  | .copy2 => ⟨[ldrh r3 r1 0, strh r3 r0 0], .bcond .eq .done .copy2More⟩
  | .copy2More => ⟨[adds r1 r1 2, adds r0 r0 2], .b .rem1⟩
  | .rem1 => ⟨[], .bcond .eq .done .copy1⟩
  | .copy1 => ⟨[ldrb r3 r1 0, strb r3 r0 0], .b .done⟩
  | .done => ⟨[pop [r4, r5, r6], mov r0 r12], .bx lr⟩
  | .short => ⟨[
      ldrLit r3 (P.addr .shortEnd),
      lsls r2 r2 2,
      subs r3 r3 r2,
      adds r3 r3 1],
      .bx r3⟩
  | .shortCopy k => ⟨[ldrb r3 r1 (.imm k), strb r3 r0 (.imm k)], .b (afterShortCopy k)⟩
  | .shortEnd => ⟨[mov r0 r12], .bx lr⟩

/-- The copies of a short range are four bytes each, one after the other up to the end. -/
def ShortCopiesPlaced (P : Placement MemcpyLabel) : Prop :=
  ∀ k : Fin 7, P.addr (.shortCopy k) = P.addr .shortEnd - BitVec.ofNat 32 (4 * (k + 1))

/-! ## What is copied -/

/-- What a caller of either routine gives : a destination that does not wrap, and neither range has
a part in the other one or in the twelve bytes of the stack that may be pushed to. -/
structure MemcpyCall (c : Cpu) : Prop where
  range : c.r0.toNat + c.r2.toNat ≤ 2 ^ 32
  disjoint : Memory.Disjoint c.r1 c.r2.toNat c.r0 c.r2.toNat
  dest_stack : Memory.Disjoint (c.sp - 12) 12 c.r0 c.r2.toNat
  source_stack : Memory.Disjoint c.r1 c.r2.toNat (c.sp - 12) 12

/-- The bytes of the source of a call. -/
def sourceByte (c₀ : Cpu) (i : ℕ) : Byte :=
  c₀.mem (c₀.r1 + BitVec.ofNat 32 i)

/-- The end of a call in the state `c₀` : the bytes of the source are in the destination. -/
def Copied (P : Placement MemcpyLabel) (c₀ : Cpu) (y : Config MemcpyLabel) : Prop :=
  ∃ c', y = P.jump c₀.lr c' ∧ c'.r0 = c₀.r0 ∧ Preserved c₀ c' ∧
    ∀ a, ¬Memory.InRange (c₀.sp - 12) 12 a →
      c'.mem a = c₀.mem.copy c₀.r0 c₀.r2.toNat (sourceByte c₀) a

/-- The first `i` bytes of a call in the state `c₀` are copied, and the next ones are at `r0` and
`r1` : the parts of the state that this is about. -/
structure CopyingAt (c₀ : Cpu) (i : ℕ) (r0 r1 r12 lr : Word) (saved : List Word) (sp : Word)
    (mem : Memory 32) (aligned : Bool) : Prop where
  place : r0 = c₀.r0 + BitVec.ofNat 32 i
  source : r1 = c₀.r1 + BitVec.ofNat 32 i
  dest : r12 = c₀.r0
  ret : lr = c₀.lr
  frame : FrameAt [r4, r5, r6] c₀ (c₀.mem.copy c₀.r0 i (sourceByte c₀)) saved sp mem aligned

/-- The first `i` bytes of a call in the state `c₀` are copied. -/
def Copying (c₀ : Cpu) (i : ℕ) (c : Cpu) : Prop :=
  CopyingAt c₀ i c.r0 c.r1 c.r12 c.lr (c.others [r4, r5, r6]) c.sp c.mem c.aligned

/-- The bytes from the `k`-th on of a call in the state `c₀` are copied, and nothing was pushed. -/
structure BackwardAt (c₀ : Cpu) (k : ℕ) (r0 r1 r12 lr : Word) (saved : List Word) (sp : Word)
    (mem : Memory 32) (aligned : Bool) : Prop where
  place : r0 = c₀.r0
  source : r1 = c₀.r1
  dest : r12 = c₀.r0
  ret : lr = c₀.lr
  saved_eq : saved = c₀.others []
  sp_eq : sp = c₀.sp
  mem_eq : mem = c₀.mem.copy (c₀.r0 + BitVec.ofNat 32 k) (c₀.r2.toNat - k)
    fun j => sourceByte c₀ (k + j)
  aligned_eq : aligned = c₀.aligned

/-- The bytes from the `k`-th on of a call in the state `c₀` are copied. -/
def Backward (c₀ : Cpu) (k : ℕ) (c : Cpu) : Prop :=
  BackwardAt c₀ k c.r0 c.r1 c.r12 c.lr (c.others []) c.sp c.mem c.aligned

/-- A byte goes through a register. -/
theorem byte_of_word (b : Byte) : (b.setWidth 32 : Word).setWidth 8 = b := by
  rw [BitVec.setWidth_setWidth_of_le _ (by decide), BitVec.setWidth_eq]

theorem half_of_word (x : BitVec 16) : (x.setWidth 32 : Word).setWidth 16 = x := by
  rw [BitVec.setWidth_setWidth_of_le _ (by decide), BitVec.setWidth_eq]

section Runs

-- states are compared by unfolding, which has to stop at the shifts
attribute [local irreducible] BitVec.shiftLeft BitVec.ushiftRight

variable {P : Placement MemcpyLabel} {c c₀ : Cpu} {i k : ℕ} {place source dest ret stack : Word}
  {saved : List Word} {mem : Memory 32} {aligned : Bool}

/-- The source is as it was. -/
theorem CopyingAt.load (h : CopyingAt c₀ i place source dest ret saved stack mem aligned)
    (hcall : MemcpyCall c₀) (hi : i ≤ c₀.r2.toNat) {j : ℕ} (hj : j < c₀.r2.toNat) :
    mem (c₀.r1 + BitVec.ofNat 32 j) = sourceByte c₀ j := by
  have hin : Memory.InRange c₀.r1 c₀.r2.toNat (c₀.r1 + BitVec.ofNat 32 j) := Memory.inRange_add hj
  rw [h.frame.outside _ (hcall.source_stack _ hin)]
  exact Memory.copy_of_not_inRange fun h => hcall.disjoint _ hin (Nat.lt_of_lt_of_le h hi)

/-- `k` more bytes are copied. -/
theorem CopyingAt.store (h : CopyingAt c₀ i place source dest ret saved stack mem aligned)
    (hcall : MemcpyCall c₀) {src : ℕ → Byte} (hsrc : ∀ j < k, src j = sourceByte c₀ (i + j))
    (hk : i + k ≤ c₀.r2.toNat) {place' source' : Word}
    (hplace : place' = place + BitVec.ofNat 32 k) (hsource : source' = source + BitVec.ofNat 32 k)
    {aligned' : Bool} (hal : aligned' = aligned) :
    CopyingAt c₀ (i + k) place' source' dest ret saved stack (mem.copy place k src) aligned' where
  place := by
    rw [hplace, h.place]
    exact Memory.add_ofNat_add _ _ _
  source := by
    rw [hsource, h.source]
    exact Memory.add_ofNat_add _ _ _
  dest := h.dest
  ret := h.ret
  frame := by
    have hlt := c₀.r2.isLt
    have hcopy : (c₀.mem.copy c₀.r0 i (sourceByte c₀)).copy place k src =
        c₀.mem.copy c₀.r0 (i + k) (sourceByte c₀) := by
      rw [h.place, Memory.copy_congr hsrc]
      exact Memory.copy_append (by omega)
    rw [← hcopy, hal]
    exact h.frame.copy fun a ha hin =>
      hcall.dest_stack a ha (Memory.inRange_of_add h.place hk hin)

/-- The bytes of a word and of a halfword that are loaded from the source. -/
theorem CopyingAt.loadWord (h : CopyingAt c₀ i place source dest ret saved stack mem aligned)
    (hcall : MemcpyCall c₀) (hi : i ≤ c₀.r2.toNat) {a : Word}
    (ha : a = c₀.r1 + BitVec.ofNat 32 k) (hk : k + 4 ≤ c₀.r2.toNat) :
    ∀ j < 4, (mem.loadWord a).extractLsb' (8 * j) 8 = sourceByte c₀ (k + j) := by
  intro j hj
  rw [Memory.extractLsb'_loadWord _ _ hj, ha, Memory.add_ofNat_add,
    h.load hcall hi (show k + j < c₀.r2.toNat by omega)]

theorem CopyingAt.loadHalf (h : CopyingAt c₀ i place source dest ret saved stack mem aligned)
    (hcall : MemcpyCall c₀) (hk : i + 2 ≤ c₀.r2.toNat) :
    ∀ j < 2, (mem.loadHalf source).extractLsb' (8 * j) 8 = sourceByte c₀ (i + j) := by
  intro j hj
  rw [Memory.extractLsb'_loadHalf _ _ hj, h.source, Memory.add_ofNat_add,
    h.load hcall (by omega) (show i + j < c₀.r2.toNat by omega)]

/-- A byte more. -/
theorem CopyingAt.byte (h : CopyingAt c₀ i place source dest ret saved stack mem aligned)
    (hcall : MemcpyCall c₀) (hk : i + 1 ≤ c₀.r2.toNat) {b : Byte} (hb : b = mem source) :
    CopyingAt c₀ (i + 1) (place + 1) (source + 1) dest ret saved stack
      (mem.copy place 1 fun _ => b) aligned := by
  refine h.store hcall (fun j hj => ?_) hk rfl rfl rfl
  obtain rfl : j = 0 := Nat.lt_one_iff.mp hj
  rw [hb, h.source]
  exact h.load hcall (by omega) (by omega)

/-- A halfword more. -/
theorem CopyingAt.half (h : CopyingAt c₀ i place source dest ret saved stack mem aligned)
    (hcall : MemcpyCall c₀) (hk : i + 2 ≤ c₀.r2.toNat) {v : BitVec 16}
    (hv : v = mem.loadHalf source)
    {aligned' : Bool} (hal : aligned' = aligned) :
    CopyingAt c₀ (i + 2) (place + 2) (source + 2) dest ret saved stack (mem.storeHalf place v)
      aligned' := by
  subst hv
  exact h.store hcall (h.loadHalf hcall hk) hk rfl rfl hal

/-- A word more, which was loaded before. -/
theorem CopyingAt.word (h : CopyingAt c₀ i place source dest ret saved stack mem aligned)
    (hcall : MemcpyCall c₀) {v : Word}
    (hv : ∀ j < 4, v.extractLsb' (8 * j) 8 = sourceByte c₀ (i + j)) (hk : i + 4 ≤ c₀.r2.toNat)
    {place' source' : Word} (hplace : place' = place + 4) (hsource : source' = source + 4)
    {aligned' : Bool} (hal : aligned' = aligned) :
    CopyingAt c₀ (i + 4) place' source' dest ret saved stack (mem.storeWord place v) aligned' :=
  h.store hcall hv hk hplace hsource hal

/-! ## The rest of less than sixteen bytes -/

/-- The registers are popped, and the routine returns. -/
theorem leads_done (hdest : c.r12 = c₀.r0) (hret : c.lr = c₀.lr)
    (hframe : Framed [r4, r5, r6] c₀ (c₀.mem.copy c₀.r0 c₀.r2.toNat (sourceByte c₀)) c) :
    Leads (memcpyCode P) P (.at .done c) (Copied P c₀) := by
  have hget (r : Reg) (hr : r ≠ .sp) (hrs : r ∉ [r4, r5, r6]) :
      (pop [r4, r5, r6] c).get r = c.get r := get_pop_of_not_mem hr hrs
  have hkept := hframe.pop
  have hr12 : (pop [r4, r5, r6] c).r12 = c.r12 := hget .r12 (by decide) (by decide)
  have hlr : (pop [r4, r5, r6] c).lr = c.lr := hget .lr (by decide) (by decide)
  refine .block (.now ⟨{ pop [r4, r5, r6] c with r0 := (pop [r4, r5, r6] c).r12 }, ?_,
    hr12.trans hdest, ⟨fun r hr => ?_, hkept.sp, hkept.aligned⟩, fun a ha => ?_⟩)
  · rw [← hret, ← hlr]
    rfl
  · rw [← hkept.regs r hr]
    revert hr
    cases r <;> simp [calleeSaved]
  · exact hframe.outside a ha

theorem leads_copy1 (h : Copying c₀ i c) (hcall : MemcpyCall c₀) (hi : i + 1 = c₀.r2.toNat) :
    Leads (memcpyCode P) P (.at .copy1 c) (Copied P c₀) := by
  refine .block ?_
  dsimp [memcpyCode]
  rw [BitVec.add_zero, BitVec.add_zero]
  refine leads_done h.dest h.ret ?_
  rw [← hi]
  exact (h.byte hcall (by omega) (byte_of_word _)).frame

theorem leads_rem1 (h : Copying c₀ i c) (hcall : MemcpyCall c₀)
    (hz : c.flags.z = true → i = c₀.r2.toNat) (hnz : c.flags.z = false → i + 1 = c₀.r2.toNat) :
    Leads (memcpyCode P) P (.at .rem1 c) (Copied P c₀) := by
  refine .block (.bcond (fun heq => ?_) (fun hne => ?_))
  · exact leads_done h.dest h.ret (hz heq ▸ h.frame)
  · exact leads_copy1 h hcall (hnz hne)

/-- Two bytes, and one more that is not at address zero. -/
theorem leads_copy2 (h : Copying c₀ i c) (hcall : MemcpyCall c₀) (hal0 : isAligned c.r0 2 = true)
    (hal1 : isAligned c.r1 2 = true) (hi : i + 2 ≤ c₀.r2.toNat)
    (hz : c.flags.z = true → i + 2 = c₀.r2.toNat)
    (hnz : c.flags.z = false → i + 2 + 1 = c₀.r2.toNat) :
    Leads (memcpyCode P) P (.at .copy2 c) (Copied P c₀) := by
  have hnext := h.half hcall hi (half_of_word _) rfl
  refine .block ?_
  dsimp [memcpyCode]
  rw [BitVec.add_zero, BitVec.add_zero, hal0, hal1, Bool.and_true, Bool.and_true]
  refine .ite (fun heq => ?_) (fun hne => ?_)
  · exact leads_done h.dest h.ret (hz heq ▸ hnext.frame)
  · have hn := hnz (Bool.eq_false_iff.mpr hne)
    refine .block ?_
    dsimp [memcpyCode]
    refine leads_rem1 hnext hcall (fun hzero => ?_) (fun _ => hn)
    have hzero : c.r0 + 2#32 = 0 := beq_iff_eq.mp hzero
    rw [show c.r0 + 2#32 = c₀.r0 + BitVec.ofNat 32 (i + 2) from hnext.place] at hzero
    have hnat := congrArg BitVec.toNat hzero
    rw [BitVec.toNat_add, BitVec.toNat_ofNat] at hnat
    have hnat : (c₀.r0.toNat + (i + 2) % 2 ^ 32) % 2 ^ 32 = 0 := hnat
    have hrange := hcall.range
    omega

/-- The two lowest bits of a rest, where the flags are those of a shift of both of them. -/
theorem leads_wordEnd {x : Word} (h : Copying c₀ i c) (hcall : MemcpyCall c₀)
    (hal0 : isAligned c.r0 2 = true) (hal1 : isAligned c.r1 2 = true) (hr2 : c.r2 = x <<< 30)
    (hz : c.flags.z = (c.r2 == 0)) (hi : i + x.toNat % 4 = c₀.r2.toNat) :
    Leads (memcpyCode P) P (.at .wordEnd c) (Copied P c₀) := by
  have htwo : x.toNat % 4 = x.toNat % 2 + if x.getLsbD 1 then 2 else 0 := mod_two_pow_succ x 1
  have hzero : x <<< 30 = 0 ↔ x.toNat % 4 = 0 := shiftLeft_eq_zero_iff x (by decide)
  have hzero' : x <<< 30 <<< 1 = 0 ↔ x.toNat % 2 = 0 := by
    rw [← BitVec.shiftLeft_add]
    exact shiftLeft_eq_zero_iff x (by decide)
  have hcarry : (x <<< 30).getLsbD 31 = x.getLsbD 1 := getLsbD_shiftLeft_last x (by decide)
  refine .block (.bcond (fun heq => ?_) (fun hne => ?_))
  · change c.flags.z = true at heq
    rw [hz, beq_iff_eq, hr2, hzero] at heq
    rw [heq, Nat.add_zero] at hi
    exact leads_done h.dest h.ret (hi ▸ h.frame)
  have hbits (hz : (c.r2 <<< 1 == 0) = true) : x.toNat % 2 = 0 := by
    rwa [beq_iff_eq, hr2, hzero'] at hz
  have hbits' (hnz : (c.r2 <<< 1 == 0) = false) : x.toNat % 2 = 1 := by
    rw [beq_eq_false_iff_ne, hr2, Ne, hzero'] at hnz
    omega
  refine .block (.bcond (fun hcc => ?_) (fun hcs => ?_))
  · change (!c.r2.getLsbD 31) = true at hcc
    rw [Bool.not_eq_true', hr2, hcarry] at hcc
    rw [hcc, if_neg Bool.false_ne_true] at htwo
    refine leads_rem1 (i := i) h hcall (fun hz => ?_) (fun hnz => ?_)
    · have := hbits hz
      omega
    · have := hbits' hnz
      omega
  · change (!c.r2.getLsbD 31) = false at hcs
    rw [Bool.not_eq_false', hr2, hcarry] at hcs
    rw [hcs, if_pos rfl] at htwo
    refine leads_copy2 (i := i) h hcall hal0 hal1 (by omega) (fun hz => ?_) (fun hnz => ?_)
    · have := hbits hz
      omega
    · have := hbits' hnz
      omega

/-- The three lowest bits of a rest. -/
theorem leads_rem4 {x : Word} (h : Copying c₀ i c) (hcall : MemcpyCall c₀)
    (hal0 : isAligned c.r0 4 = true) (hal1 : isAligned c.r1 4 = true) (hr2 : c.r2 = x <<< 29)
    (hi : i + x.toNat % 8 = c₀.r2.toNat) :
    Leads (memcpyCode P) P (.at .rem4 c) (Copied P c₀) := by
  have hthree : x.toNat % 8 = x.toNat % 4 + if x.getLsbD 2 then 4 else 0 := mod_two_pow_succ x 2
  have hcarry : (x <<< 29).getLsbD 31 = x.getLsbD 2 := getLsbD_shiftLeft_last x (by decide)
  have hnext : c.r2 <<< 1 = x <<< 30 := by rw [hr2, ← BitVec.shiftLeft_add]
  have hhalf0 : isAligned c.r0 2 = true := isAligned_of_dvd (by decide) hal0
  have hhalf1 : isAligned c.r1 2 = true := isAligned_of_dvd (by decide) hal1
  refine .block (.bcond (fun hcc => ?_) (fun hcs => ?_))
  · change (!c.r2.getLsbD 31) = true at hcc
    rw [Bool.not_eq_true', hr2, hcarry] at hcc
    rw [hcc, if_neg Bool.false_ne_true] at hthree
    exact leads_wordEnd (x := x) (i := i) h hcall hhalf0 hhalf1 hnext rfl (by omega)
  · change (!c.r2.getLsbD 31) = false at hcs
    rw [Bool.not_eq_false', hr2, hcarry] at hcs
    rw [hcs, if_pos rfl] at hthree
    refine .block ?_
    dsimp [memcpyCode]
    rw [hal0, hal1, Bool.and_true, Bool.and_true]
    refine leads_wordEnd (x := x) (i := i + 4)
      (h.word hcall (h.loadWord hcall (by omega) h.source (by omega)) (by omega) rfl rfl rfl) hcall
      ?_ ?_ hnext rfl (by omega)
    · rw [← hhalf0]
      exact isAligned_add (by decide) (by decide)
    · rw [← hhalf1]
      exact isAligned_add (by decide) (by decide)

/-- A rest of less than sixteen bytes. -/
theorem leads_rem8 (h : Copying c₀ i c) (hcall : MemcpyCall c₀) (hal0 : isAligned c.r0 4 = true)
    (hal1 : isAligned c.r1 4 = true) (hi : i + c.r2.toNat % 16 = c₀.r2.toNat) :
    Leads (memcpyCode P) P (.at .rem8 c) (Copied P c₀) := by
  have hfour : c.r2.toNat % 16 = c.r2.toNat % 8 + if c.r2.getLsbD 3 then 8 else 0 :=
    mod_two_pow_succ c.r2 3
  refine .block (.bcond (fun hcc => ?_) (fun hcs => ?_))
  · change (!c.r2.getLsbD 3) = true at hcc
    rw [Bool.not_eq_true'] at hcc
    rw [hcc, if_neg Bool.false_ne_true] at hfour
    exact leads_rem4 (x := c.r2) (i := i) h hcall hal0 hal1 rfl (by omega)
  · change (!c.r2.getLsbD 3) = false at hcs
    rw [Bool.not_eq_false'] at hcs
    rw [hcs, if_pos rfl] at hfour
    have h₁ := h.word hcall (h.loadWord hcall (by omega) h.source (by omega)) (by omega) rfl rfl rfl
    have h₂ := h₁.word hcall (h.loadWord hcall (by omega) h₁.source (by omega)) (by omega)
      (Memory.add_ofNat_add c.r0 4 4).symm (Memory.add_ofNat_add c.r1 4 4).symm rfl
    refine .block ?_
    dsimp [memcpyCode]
    rw [hal0, hal1, Bool.and_true, Bool.and_true]
    refine leads_rem4 (x := c.r2) (i := i + 4 + 4) h₂ hcall ?_ ?_ rfl (by omega)
    · rw [← hal0]
      exact isAligned_add (by decide) (by decide)
    · rw [← hal1]
      exact isAligned_add (by decide) (by decide)

/-! ## Sixteen bytes at a time -/

/-- The loop, while at least sixteen bytes are left. -/
theorem leads_loop16 (h : Copying c₀ i c) (hcall : MemcpyCall c₀) (hal0 : isAligned c.r0 4 = true)
    (hal1 : isAligned c.r1 4 = true) (hi : i + 16 + c.r2.toNat = c₀.r2.toNat) :
    Leads (memcpyCode P) P (.at .loop16 c) (Copied P c₀) := by
  induction hq : c.r2.toNat using Nat.strong_induction_on generalizing c i with
  | _ q ih =>
  subst hq
  have hsum (a : Word) : a + 16 = a + 4 + 4 + 4 + 4 := by
    simp only [BitVec.add_assoc]
    rfl
  have h₁ := h.word hcall (h.loadWord hcall (by omega) h.source (by omega)) (by omega) rfl rfl rfl
  have h₂ := h₁.word hcall (h.loadWord hcall (by omega) h₁.source (by omega)) (by omega) rfl rfl rfl
  have h₃ := h₂.word hcall (h.loadWord hcall (by omega) h₂.source (by omega)) (by omega) rfl rfl rfl
  have h₄ := h₃.word hcall (h.loadWord hcall (by omega) h₃.source (by omega)) (by omega)
    (hsum c.r0) (hsum c.r1) rfl
  have hal0' : isAligned (c.r0 + 16) 4 = true := by
    rw [← hal0]
    exact isAligned_add (by decide) (by decide)
  have hal1' : isAligned (c.r1 + 16) 4 = true := by
    rw [← hal1]
    exact isAligned_add (by decide) (by decide)
  have hmod := toNat_sub_mod c.r2 (k := 16) (by decide)
  refine .block ?_
  dsimp [memcpyCode]
  rw [hal0, hal1, Bool.and_true, Bool.and_true]
  refine .ite (fun hcs => ?_) (fun hcc => ?_)
  · have hle : 16#32 ≤ c.r2 := of_decide_eq_true hcs
    have hr2 : (c.r2 - 16#32).toNat = c.r2.toNat - 16 := BitVec.toNat_sub_of_le hle
    rw [BitVec.le_def] at hle
    have hle : 16 ≤ c.r2.toNat := hle
    refine ih (c.r2.toNat - 16) (by omega) (i := i + 4 + 4 + 4 + 4) h₄ hal0' hal1' ?_ hr2
    rw [hr2]
    omega
  · have hlt : c.r2.toNat < 16 := by simpa [BitVec.le_def] using hcc
    refine leads_rem8 (i := i + 4 + 4 + 4 + 4) h₄ hcall hal0' hal1' ?_
    dsimp only
    omega

/-- From words on. -/
theorem leads_aligned (h : Copying c₀ i c) (hcall : MemcpyCall c₀) (hal0 : isAligned c.r0 4 = true)
    (hal1 : isAligned c.r1 4 = true) (hi : i + c.r2.toNat = c₀.r2.toNat) :
    Leads (memcpyCode P) P (.at .aligned c) (Copied P c₀) := by
  have hmod := toNat_sub_mod c.r2 (k := 16) (by decide)
  refine .block ?_
  dsimp [memcpyCode]
  refine .ite (fun hcc => ?_) (fun hcs => ?_)
  · have hlt : c.r2.toNat < 16 := by simpa [BitVec.le_def] using hcc
    refine leads_rem8 (i := i) h hcall hal0 hal1 ?_
    dsimp only
    omega
  · have hle : 16#32 ≤ c.r2 := by simpa using hcs
    have hr2 : (c.r2 - 16#32).toNat = c.r2.toNat - 16 := BitVec.toNat_sub_of_le hle
    rw [BitVec.le_def] at hle
    have hle : 16 ≤ c.r2.toNat := hle
    refine leads_loop16 (i := i) h hcall hal0 hal1 ?_
    dsimp only
    omega

/-! ## Up to a word -/

theorem leads_adjust
    (h : CopyingAt c₀ i c.r0 (c.r0 + c.r1) c.r12 c.lr (c.others [r4, r5, r6]) c.sp c.mem c.aligned)
    (hcall : MemcpyCall c₀) (hr2 : c.r2 = c₀.r2) (hr5 : c.r5 = c₀.r0)
    (hal : isAligned c.r0 4 = true) (hco : 4 ∣ c.r1.toNat) (hi : i ≤ c₀.r2.toNat) :
    Leads (memcpyCode P) P (.at .adjust c) (Copied P c₀) := by
  have hrest : (c.r2 + (c.r5 - c.r0)).toNat = c₀.r2.toNat - i := by
    have hlt := c₀.r2.isLt
    have hsub : c.r2 + (c.r5 - c.r0) = c₀.r2 - BitVec.ofNat 32 i := by
      rw [hr2, hr5, h.place]
      bv_omega
    rw [hsub, BitVec.toNat_sub, BitVec.toNat_ofNat, Nat.mod_eq_of_lt (show i < 2 ^ 32 by omega)]
    omega
  refine .block ?_
  dsimp [memcpyCode]
  rw [BitVec.add_comm c.r1 c.r0]
  refine leads_aligned (i := i) h hcall hal ?_ ?_
  · rw [← hal]
    exact isAligned_add (by decide) hco
  · dsimp only
    omega

theorem leads_evenAddress
    (h : CopyingAt c₀ i c.r0 (c.r0 + c.r1) c.r12 c.lr (c.others [r4, r5, r6]) c.sp c.mem c.aligned)
    (hcall : MemcpyCall c₀) (hr2 : c.r2 = c₀.r2) (hr5 : c.r5 = c₀.r0)
    (hal : isAligned c.r0 2 = true) (hco : 4 ∣ c.r1.toNat) (hi : i + 2 ≤ c₀.r2.toNat) :
    Leads (memcpyCode P) P (.at .evenAddress c) (Copied P c₀) := by
  have hbit := mod_two_pow_succ c.r0 1
  have heven : c.r0.toNat % 2 = 0 := beq_iff_eq.mp hal
  refine .block (.bcond (fun hcc => ?_) (fun hcs => .block ?_))
  · change (!c.r0.getLsbD 1) = true at hcc
    rw [Bool.not_eq_true'] at hcc
    rw [hcc, if_neg Bool.false_ne_true] at hbit
    refine leads_adjust (i := i) h hcall hr2 hr5 ?_ hco (by omega)
    exact beq_iff_eq.mpr (hbit.trans heven)
  · change (!c.r0.getLsbD 1) = false at hcs
    rw [Bool.not_eq_false'] at hcs
    rw [hcs, if_pos rfl] at hbit
    have hal1 : isAligned (c.r0 + c.r1) 2 = true := by
      rw [← hal]
      exact isAligned_add (by decide) (Nat.dvd_trans (by decide) hco)
    have hnext := h.half hcall hi (half_of_word _) rfl
    rw [BitVec.add_assoc, BitVec.add_comm c.r1, ← BitVec.add_assoc] at hnext
    dsimp [memcpyCode]
    rw [BitVec.add_zero, hal, hal1, Bool.and_true, Bool.and_true]
    refine leads_adjust (i := i + 2) hnext hcall hr2 hr5 ?_ hco hi
    rw [isAligned, beq_iff_eq, BitVec.toNat_add]
    change (c.r0.toNat + 2) % 2 ^ 32 % 4 = 0
    omega

/-- The call before anything is copied, when the registers are pushed. -/
theorem copying_start (hr0 : c.r0 = c₀.r0) (hsource : source = c₀.r1) (hr12 : c.r12 = c₀.r0)
    (hlr : c.lr = c₀.lr) (hframe : Framed [r4, r5, r6] c₀ c₀.mem c) :
    CopyingAt c₀ 0 c.r0 source c.r12 c.lr (c.others [r4, r5, r6]) c.sp c.mem c.aligned where
  place := hr0.trans (BitVec.add_zero _).symm
  source := hsource.trans (BitVec.add_zero _).symm
  dest := hr12
  ret := hlr
  frame := by
    rw [Memory.copy_zero]
    exact hframe

/-- The copies from the first byte on, where the addresses differ by a number of words. -/
theorem leads_save (hcall : MemcpyCall c₀) (hn : 3 ≤ c₀.r2.toNat)
    (hco : isAligned (c₀.r0 - c₀.r1) 4 = true) (r3 : Word) (flags : Flags) :
    Leads (memcpyCode P) P (.at .save { c₀ with r3 := r3, r12 := c₀.r0, flags := flags })
      (Copied P c₀) := by
  refine .push rfl (by decide) fun c hc hregs _ => ?_
  have hframe : Framed [r4, r5, r6] c₀ c₀.mem c := hc.of_base rfl rfl rfl rfl
  have hr0 : c.r0 = c₀.r0 := hregs .r0 (by decide)
  have hr1 : c.r1 = c₀.r1 := hregs .r1 (by decide)
  have hr2 : c.r2 = c₀.r2 := hregs .r2 (by decide)
  have hsource : c.r0 + (c.r1 - c.r0) = c₀.r1 := by
    rw [BitVec.add_comm, BitVec.sub_add_cancel, hr1]
  have hstart := copying_start hr0 hsource (hregs .r12 (by decide)) (hregs .lr (by decide)) hframe
  have hdvd : 4 ∣ (c.r1 - c.r0).toNat := by
    have hneg : c.r1 - c.r0 = 0 - (c₀.r0 - c₀.r1) := by
      rw [hr0, hr1]
      bv_omega
    have hal : isAligned (0 - (c₀.r0 - c₀.r1)) 4 = true :=
      isAligned_sub (by decide) (Nat.dvd_of_mod_eq_zero (beq_iff_eq.mp hco))
    rw [hneg]
    exact Nat.dvd_of_mod_eq_zero (beq_iff_eq.mp hal)
  have hbit := mod_two_pow_succ c.r0 0
  dsimp
  rw [BitVec.add_zero]
  refine .ite (fun hcc => ?_) (fun hcs => .block ?_)
  · change (!c.r0.getLsbD 0) = true at hcc
    rw [Bool.not_eq_true'] at hcc
    rw [hcc, if_neg Bool.false_ne_true] at hbit
    refine leads_evenAddress (i := 0) hstart hcall hr2 hr0 ?_ hdvd (by omega)
    rw [isAligned, beq_iff_eq]
    change c.r0.toNat % 2 = 0
    omega
  · change ¬(!c.r0.getLsbD 0) = true at hcs
    rw [Bool.not_eq_true', Bool.not_eq_false] at hcs
    rw [hcs, if_pos rfl] at hbit
    have hnext := hstart.byte hcall (by omega) (byte_of_word _)
    rw [BitVec.add_assoc, BitVec.add_comm (c.r1 - c.r0), ← BitVec.add_assoc] at hnext
    dsimp [memcpyCode]
    rw [BitVec.add_zero]
    refine leads_evenAddress (i := 0 + 1) hnext hcall hr2 hr0 ?_ hdvd (by omega)
    rw [isAligned, beq_iff_eq, BitVec.toNat_add]
    change (c.r0.toNat + 1) % 2 ^ 32 % 2 = 0
    omega

/-! ## From the last byte to the first one -/

theorem BackwardAt.load (h : BackwardAt c₀ k place source dest ret saved stack mem aligned)
    (hcall : MemcpyCall c₀) {j : ℕ} (hj : j < k) (hk : k ≤ c₀.r2.toNat) :
    mem (source + BitVec.ofNat 32 j) = sourceByte c₀ j := by
  have hin : Memory.InRange c₀.r1 c₀.r2.toNat (c₀.r1 + BitVec.ofNat 32 j) :=
    Memory.inRange_add (by omega)
  rw [h.mem_eq, h.source]
  exact Memory.copy_of_not_inRange fun hrange => hcall.disjoint _ hin
    (Memory.inRange_of_add rfl (by omega) hrange)

/-- The byte before is copied. -/
theorem BackwardAt.step (h : BackwardAt c₀ (k + 1) place source dest ret saved stack mem aligned)
    (hcall : MemcpyCall c₀) (hk : k + 1 ≤ c₀.r2.toNat) {b : Byte}
    (hb : b = mem (source + BitVec.ofNat 32 k)) :
    BackwardAt c₀ k place source dest ret saved stack
      (mem.copy (place + BitVec.ofNat 32 k) 1 fun _ => b) aligned where
  place := h.place
  source := h.source
  dest := h.dest
  ret := h.ret
  saved_eq := h.saved_eq
  sp_eq := h.sp_eq
  mem_eq := by
    have hlt := c₀.r2.isLt
    have hbyte : ∀ j < 1, b = sourceByte c₀ (k + j) := by
      intro j hj
      obtain rfl : j = 0 := Nat.lt_one_iff.mp hj
      rw [hb]
      exact h.load hcall (Nat.lt_succ_self k) hk
    have hlen : c₀.r2.toNat - k = 1 + (c₀.r2.toNat - (k + 1)) := by omega
    rw [Memory.copy_congr hbyte, h.mem_eq, h.place, hlen, ← Memory.copy_append' (by omega),
      Memory.add_ofNat_add]
    simp only [Nat.add_assoc]
  aligned_eq := h.aligned_eq

/-- Returning, at either end. -/
theorem leads_backwardEnd {l : MemcpyLabel} (hl : memcpyCode P l = ⟨[mov r0 r12], .bx lr⟩)
    (h : Backward c₀ 0 c) : Leads (memcpyCode P) P (.at l c) (Copied P c₀) := by
  refine .block ?_
  rw [hl]
  refine .now ⟨{ c with r0 := c.r12 }, ?_, h.dest, ⟨fun r hr => ?_, h.sp_eq, fun _ => h.aligned_eq⟩,
    fun a _ => ?_⟩
  · rw [← h.ret]
    rfl
  · rw [← get_of_others h.saved_eq hr List.not_mem_nil]
    revert hr
    cases r <;> simp [calleeSaved]
  · have hmem := h.mem_eq
    rw [BitVec.add_zero, Nat.sub_zero] at hmem
    simp only [Nat.zero_add] at hmem
    exact congrFun hmem a

/-- The loop for addresses that differ in their two lowest bits. -/
theorem leads_slowLoop (h : Backward c₀ (k + 1) c) (hcall : MemcpyCall c₀)
    (hk : k + 1 ≤ c₀.r2.toNat) (hr2 : c.r2 = BitVec.ofNat 32 (k + 1)) :
    Leads (memcpyCode P) P (.at .slowLoop c) (Copied P c₀) := by
  have hlt := c₀.r2.isLt
  have hnext : c.r2 - 1#32 = BitVec.ofNat 32 k := by
    rw [hr2, BitVec.ofNat_add]
    exact BitVec.add_sub_cancel _ _
  induction k generalizing c with
  | zero =>
    refine .block ?_
    dsimp [memcpyCode]
    refine .ite (fun hne => ?_) (fun _ => ?_)
    · rw [hr2] at hne
      exact absurd hne (by decide)
    · rw [hnext]
      exact leads_backwardEnd rfl (h.step hcall hk (byte_of_word _))
  | succ k ih =>
    refine .block ?_
    dsimp [memcpyCode]
    refine .ite (fun _ => ?_) (fun heq => ?_)
    · rw [hnext]
      refine ih (h.step hcall hk (byte_of_word _)) (by omega) rfl ?_
      rw [BitVec.ofNat_add]
      exact BitVec.add_sub_cancel _ _
    · have hone : c.r2 = 1#32 := by simpa using heq
      have hnat := congrArg BitVec.toNat (hr2.symm.trans hone)
      rw [BitVec.toNat_ofNat, Nat.mod_eq_of_lt (by omega)] at hnat
      have hnat : k + 1 + 1 = 1 := hnat
      omega

/-! ## Short ranges -/

/-- The copies from the `k`-th on. -/
theorem leads_shortCopy {k : ℕ} (hk7 : k < 7) (h : Backward c₀ (k + 1) c) (hcall : MemcpyCall c₀)
    (hk : k + 1 ≤ c₀.r2.toNat) :
    Leads (memcpyCode P) P (.at (.shortCopy ⟨k, hk7⟩) c) (Copied P c₀) := by
  induction k generalizing c with
  | zero => exact .block (leads_backwardEnd rfl (h.step hcall hk (byte_of_word _)))
  | succ k ih => exact .block (ih (by omega) (h.step hcall hk (byte_of_word _)) (by omega))

/-- Less than eight bytes. -/
theorem leads_short (hP : ShortCopiesPlaced P) (h : Backward c₀ c₀.r2.toNat c)
    (hcall : MemcpyCall c₀) (hr2 : c.r2 = c₀.r2) (hn : c₀.r2.toNat < 8) :
    Leads (memcpyCode P) P (.at .short c) (Copied P c₀) := by
  refine .block ?_
  dsimp [memcpyCode]
  rcases Nat.eq_zero_or_pos c₀.r2.toNat with hzero | hpos
  · have hr2' : c.r2 = 0 := hr2.trans (BitVec.eq_of_toNat_eq hzero)
    have hentry : P.addr .shortEnd - c.r2 <<< 2 = P.addr .shortEnd := by
      rw [hr2', show (0 : Word) <<< 2 = 0 from BitVec.zero_shiftLeft 2]
      exact BitVec.sub_zero _
    rw [hentry]
    refine Eq.mpr (congrArg (Leads _ P · _) (Placement.jump_addr _ _)) ?_
    exact leads_backwardEnd rfl (hzero ▸ h)
  · obtain ⟨k, hk⟩ : ∃ k, c₀.r2.toNat = k + 1 := ⟨c₀.r2.toNat - 1, by omega⟩
    have hk7 : k < 7 := by omega
    have hr2' : c.r2 <<< 2 = BitVec.ofNat 32 (4 * (k + 1)) := by
      rw [hr2]
      refine BitVec.eq_of_toNat_eq ?_
      rw [BitVec.toNat_shiftLeft, hk, Nat.shiftLeft_eq, BitVec.toNat_ofNat, Nat.mul_comm]
    have hentry : P.addr .shortEnd - c.r2 <<< 2 = P.addr (.shortCopy ⟨k, hk7⟩) := by
      rw [hP ⟨k, hk7⟩, hr2']
    rw [hentry]
    refine Eq.mpr (congrArg (Leads _ P · _) (Placement.jump_addr _ _)) ?_
    exact leads_shortCopy hk7 (hk ▸ h) hcall hk.ge

/-! ## The routines -/

theorem backward_start (c : Cpu) : BackwardAt c c.r2.toNat c.r0 c.r1 c.r0 c.lr (c.others []) c.sp
    c.mem c.aligned where
  place := rfl
  source := rfl
  dest := rfl
  ret := rfl
  saved_eq := rfl
  sp_eq := rfl
  mem_eq := by rw [Nat.sub_self, Memory.copy_zero]
  aligned_eq := rfl

/-- Eight bytes and more. -/
theorem leads_coaligned (hcall : MemcpyCall c) (hn : 3 ≤ c.r2.toNat) (flags : Flags) :
    Leads (memcpyCode P) P (.at .coaligned { c with r12 := c.r0, flags := flags }) (Copied P c) := by
  have hzero : (c.r0 - c.r1) <<< 30 = 0 ↔ (c.r0 - c.r1).toNat % 4 = 0 :=
    shiftLeft_eq_zero_iff _ (by decide)
  refine .block ?_
  dsimp [memcpyCode]
  refine .ite (fun hne => ?_) (fun heq => ?_)
  · obtain ⟨k, hk⟩ : ∃ k, c.r2.toNat = k + 1 := ⟨c.r2.toNat - 1, by omega⟩
    have hr2 : c.r2 = BitVec.ofNat 32 (k + 1) := by
      rw [← hk, BitVec.ofNat_toNat, BitVec.setWidth_eq]
    have hstart := backward_start c
    rw [hk] at hstart
    exact leads_slowLoop (k := k) hstart hcall hk.ge hr2
  · rw [Bool.not_eq_true', Bool.not_eq_false, beq_iff_eq] at heq
    exact leads_save hcall (by omega) (beq_iff_eq.mpr (hzero.mp heq)) _ _

/-- `__memcpy` and `__memcpy_44` return the destination, keep the registers of their caller, and
copy the source to the destination and write no other byte outside of the twelve bytes below the
stack pointer. The accesses are aligned if the stack pointer is. -/
theorem memcpy_copies (P : Placement MemcpyLabel) (hP : ShortCopiesPlaced P) (c : Cpu)
    (hcall : MemcpyCall c) :
    Leads (memcpyCode P) P (.at .memcpy c) (Copied P c) ∧
      (isAligned c.r0 4 = true → isAligned c.r1 4 = true →
        Leads (memcpyCode P) P (.at .memcpy44 c) (Copied P c)) := by
  have hstart := backward_start c
  refine ⟨.block (.bcond (fun hlo => ?_) (fun hhs => ?_)),
    fun hal0 hal1 => .block (.bcond (fun hlo => ?_) (fun hhs => ?_))⟩
  · change (!decide (8 ≤ c.r2)) = true at hlo
    rw [Bool.not_eq_true', decide_eq_false_iff_not, BitVec.le_def] at hlo
    exact leads_short hP hstart hcall rfl (Nat.lt_of_not_le hlo)
  · change (!decide (8 ≤ c.r2)) = false at hhs
    rw [Bool.not_eq_false', decide_eq_true_eq, BitVec.le_def] at hhs
    have hn : 8 ≤ c.r2.toNat := hhs
    exact leads_coaligned hcall (by omega) _
  · change (!decide (8 ≤ c.r2)) = true at hlo
    rw [Bool.not_eq_true', decide_eq_false_iff_not, BitVec.le_def] at hlo
    exact leads_short hP hstart hcall rfl (Nat.lt_of_not_le hlo)
  · refine .push rfl (by decide) fun c₁ hc₁ hregs _ => ?_
    have hframe : Framed [r4, r5, r6] c c.mem c₁ := hc₁.of_base rfl rfl rfl rfl
    have hr0 : c₁.r0 = c.r0 := hregs .r0 (by decide)
    have hr1 : c₁.r1 = c.r1 := hregs .r1 (by decide)
    have hr2 : c₁.r2 = c.r2 := hregs .r2 (by decide)
    have hcopying := copying_start hr0 hr1 (hregs .r12 (by decide)) (hregs .lr (by decide)) hframe
    rw [exec_nil]
    exact leads_aligned hcopying hcall (hr0 ▸ hal0) (hr1 ▸ hal1) (by rw [hr2, Nat.zero_add])

end Runs

/-- The address of a label : the copies of a short range in their places before their end, at
`0x100`, and the other labels before them. -/
def memcpyAddr : MemcpyLabel → Word
  | .shortEnd => 0x100
  | .shortCopy k => 0x100 - BitVec.ofNat 32 (4 * (k + 1))
  | l => BitVec.ofNat 32 (4 * l.ctorIdx)

def memcpyPlacement : Placement MemcpyLabel :=
  .ofTable ([.memcpy44, .saveAligned, .slowLoop, .slowEnd, .memcpy, .coaligned, .save, .oddByte,
      .evenAddress, .halfword, .adjust, .aligned, .loop16, .rem8, .copy8, .rem4, .copy4, .wordEnd,
      .rem2, .copy2, .copy2More, .rem1, .copy1, .done, .short, .shortEnd] ++
      (List.finRange 7).map .shortCopy)
    memcpyAddr
    (by
      rintro (_ | _ | _ | _ | _ | _ | _ | _ | _ | _ | _ | _ | _ | _ | _ | _ | _ | _ | _ | _ | _ | _ | _ |
        _ | _ | k | _) <;> simp)
    (by decide) (by decide)

theorem memcpyPlacement_shortCopies : ShortCopiesPlaced memcpyPlacement :=
  fun _ => rfl

/-- A call for eight bytes from `0x20000200` to `0x20000100`. -/
def memcpyCpu : Cpu :=
  { Cpu.cleared 0x20041f00 0x10000101 (fun _ => 0) with
    r0 := 0x20000100, r1 := 0x20000200, r2 := 8, r4 := 0x11 }

theorem memcpyCpu_call : MemcpyCall memcpyCpu where
  range := by decide
  disjoint := (Memory.disjoint_of_le (by decide) (by decide)).symm
  dest_stack := (Memory.disjoint_of_le (by decide) (by decide)).symm
  source_stack := Memory.disjoint_of_le (by decide) (by decide)

theorem memcpy_copies_eight :
    Leads (memcpyCode memcpyPlacement) memcpyPlacement (.at .memcpy memcpyCpu)
        (Copied memcpyPlacement memcpyCpu) ∧
      (isAligned 0x20000100 4 = true → isAligned 0x20000200 4 = true →
        Leads (memcpyCode memcpyPlacement) memcpyPlacement (.at .memcpy44 memcpyCpu)
          (Copied memcpyPlacement memcpyCpu)) :=
  memcpy_copies memcpyPlacement memcpyPlacement_shortCopies memcpyCpu memcpyCpu_call

/-- The registers that are pushed change a byte outside of the destination. -/
theorem memcpy_pushes :
    Leads (memcpyCode memcpyPlacement) memcpyPlacement (.at .memcpy memcpyCpu) fun y =>
      y = memcpyPlacement.jump memcpyCpu.lr y.cpu ∧
        ¬Memory.InRange memcpyCpu.r0 8 (memcpyCpu.sp - 12) ∧
        y.cpu.mem (memcpyCpu.sp - 12) ≠ memcpyCpu.mem (memcpyCpu.sp - 12) := by
  refine ⟨11, ?_, ?_, ?_⟩
  · rfl
  · decide
  · decide

end PicoBootrom.Memcpy
