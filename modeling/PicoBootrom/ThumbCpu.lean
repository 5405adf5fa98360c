import Mathlib.Data.Fintype.Defs
import PicoBootrom.ByteMemory

/-!
# A processor with the Thumb instructions of ARMv6-M

The registers, the condition flags and the memory of a processor, and one function for each
instruction, with the mnemonics of the unified syntax : an instruction with `s` sets the flags.
Instructions are total. An access to an address that is no multiple of its size is noted in
`aligned` and goes on with the address as it is, so a run is free of such accesses if `aligned` is
left as it was.

The last operand of most instructions is a register or a constant (`Operand`), as it is in the
assembler. Flags are built from the operands of the instruction that sets them, and the lemmas
`Cond.holds_…` say what a condition tests after a comparison.

The definitions of the instructions are for `dsimp`, which computes the state after a list of them.
-/

namespace Thumb

/-! ## State -/

/-- The general registers, without the program counter. -/
inductive Reg
  | r0 | r1 | r2 | r3 | r4 | r5 | r6 | r7 | r8 | r9 | r10 | r11 | r12 | sp | lr
  deriving DecidableEq, Repr

/-- The condition flags. -/
@[ext] structure Flags where
  n : Bool
  z : Bool
  c : Bool
  v : Bool
  deriving DecidableEq, Repr

/-- The state of the processor and its memory. -/
@[ext] structure Cpu where
  r0 : BitVec 32
  r1 : BitVec 32
  r2 : BitVec 32
  r3 : BitVec 32
  r4 : BitVec 32
  r5 : BitVec 32
  r6 : BitVec 32
  r7 : BitVec 32
  r8 : BitVec 32
  r9 : BitVec 32
  r10 : BitVec 32
  r11 : BitVec 32
  r12 : BitVec 32
  sp : BitVec 32
  lr : BitVec 32
  flags : Flags
  mem : Memory 32
  /-- Each access so far was to a multiple of its size. -/
  aligned : Bool

namespace Cpu

/-- The value of a register. -/
def get (c : Cpu) : Reg → BitVec 32
  | .r0 => c.r0
  | .r1 => c.r1
  | .r2 => c.r2
  | .r3 => c.r3
  | .r4 => c.r4
  | .r5 => c.r5
  | .r6 => c.r6
  | .r7 => c.r7
  | .r8 => c.r8
  | .r9 => c.r9
  | .r10 => c.r10
  | .r11 => c.r11
  | .r12 => c.r12
  | .sp => c.sp
  | .lr => c.lr

/-- A register is written. -/
def set (c : Cpu) (x : BitVec 32) : Reg → Cpu
  | .r0 => { c with r0 := x }
  | .r1 => { c with r1 := x }
  | .r2 => { c with r2 := x }
  | .r3 => { c with r3 := x }
  | .r4 => { c with r4 := x }
  | .r5 => { c with r5 := x }
  | .r6 => { c with r6 := x }
  | .r7 => { c with r7 := x }
  | .r8 => { c with r8 := x }
  | .r9 => { c with r9 := x }
  | .r10 => { c with r10 := x }
  | .r11 => { c with r11 := x }
  | .r12 => { c with r12 := x }
  | .sp => { c with sp := x }
  | .lr => { c with lr := x }

/-- A processor whose other registers are zero. -/
def cleared (sp lr : BitVec 32) (mem : Memory 32) : Cpu where
  r0 := 0
  r1 := 0
  r2 := 0
  r3 := 0
  r4 := 0
  r5 := 0
  r6 := 0
  r7 := 0
  r8 := 0
  r9 := 0
  r10 := 0
  r11 := 0
  r12 := 0
  sp := sp
  lr := lr
  flags := ⟨false, false, false, false⟩
  mem := mem
  aligned := true

end Cpu

/-- The address is a multiple of the size. -/
def isAligned (a : BitVec 32) (size : ℕ) : Bool :=
  a.toNat % size == 0

/-- An access to `size` bytes at an address. -/
def Cpu.access (c : Cpu) (a : BitVec 32) (size : ℕ) : Cpu :=
  { c with aligned := c.aligned && isAligned a size }

/-! ## Flags and conditions -/

namespace Flags

/-- The flags after a move or a logical operation. -/
def ofResult (f : Flags) (x : BitVec 32) : Flags :=
  { f with n := x.msb, z := x == 0 }

/-- The flags after a shift, with the last bit that was shifted out. -/
def ofShift (f : Flags) (x : BitVec 32) (carry : Bool) : Flags :=
  { f with n := x.msb, z := x == 0, c := carry }

/-- The flags of a sum of two words and a carry. -/
def ofAdc (a b : BitVec 32) (carry : Bool) : Flags :=
  let x := a + b + (BitVec.ofBool carry).setWidth 32
  { n := x.msb
    z := x == 0
    c := decide (2 ^ 32 ≤ a.toNat + b.toNat + carry.toNat)
    v := a.msb == b.msb && x.msb != a.msb }

/-- The flags of a sum of two words. -/
def ofAdd (a b : BitVec 32) : Flags :=
  { n := (a + b).msb
    z := a + b == 0
    c := decide (2 ^ 32 ≤ a.toNat + b.toNat)
    v := a.msb == b.msb && (a + b).msb != a.msb }

/-- The flags of a difference or a comparison : the carry is set if there is no borrow. -/
def ofSub (a b : BitVec 32) : Flags :=
  { n := (a - b).msb
    z := a == b
    c := decide (b ≤ a)
    v := a.msb != b.msb && (a - b).msb != a.msb }

end Flags

/-- A word as an unsigned and as a signed number. -/
theorem sign_cases (x : BitVec 32) :
    (x.toNat < 2 ^ 31 ∧ x.toInt = x.toNat ∧ x.msb = false) ∨
      (2 ^ 31 ≤ x.toNat ∧ x.toInt = x.toNat - (2 ^ 32 : ℕ) ∧ x.msb = true) := by
  have hmsb : x.msb = decide (2 ^ 31 ≤ x.toNat) := BitVec.msb_eq_decide x
  have hint := BitVec.toInt_eq_msb_cond x
  by_cases h : 2 ^ 31 ≤ x.toNat
  · rw [decide_eq_true h] at hmsb
    rw [hmsb, if_pos rfl] at hint
    exact .inr ⟨h, by simpa using hint, hmsb⟩
  · rw [decide_eq_false h] at hmsb
    rw [hmsb, if_neg Bool.false_ne_true] at hint
    exact .inl ⟨Nat.lt_of_not_le h, hint, hmsb⟩

/-- The conditions of a branch. -/
inductive Cond
  | eq | ne | cs | cc | mi | pl | vs | vc | hi | ls | ge | lt | gt | le
  deriving DecidableEq, Repr

namespace Cond

/-- What a condition tests. -/
def holds (f : Flags) : Cond → Bool
  | eq => f.z
  | ne => !f.z
  | cs => f.c
  | cc => !f.c
  | mi => f.n
  | pl => !f.n
  | vs => f.v
  | vc => !f.v
  | hi => f.c && !f.z
  | ls => !f.c || f.z
  | ge => f.n == f.v
  | lt => f.n != f.v
  | gt => !f.z && f.n == f.v
  | le => f.z || f.n != f.v

/-- `bhs` and `blo` are other names. -/
abbrev hs : Cond := cs
abbrev lo : Cond := cc

variable {a b x : BitVec 32} {f : Flags} {carry : Bool}

@[simp] theorem holds_ne : ne.holds f = !eq.holds f :=
  rfl

@[simp] theorem holds_cc : cc.holds f = !cs.holds f :=
  rfl

@[simp] theorem holds_pl : pl.holds f = !mi.holds f :=
  rfl

@[simp] theorem holds_ge : ge.holds f = !lt.holds f := by
  obtain ⟨n, z, c, v⟩ := f
  cases n <;> cases v <;> rfl

@[simp] theorem holds_le : le.holds f = !gt.holds f := by
  obtain ⟨n, z, c, v⟩ := f
  cases n <;> cases v <;> cases z <;> rfl

@[simp] theorem holds_ls : ls.holds f = !hi.holds f := by
  obtain ⟨n, z, c, v⟩ := f
  cases c <;> cases z <;> rfl

@[simp] theorem holds_eq_ofSub : eq.holds (.ofSub a b) = decide (a = b) :=
  rfl

@[simp] theorem holds_cs_ofSub : cs.holds (.ofSub a b) = decide (b ≤ a) :=
  rfl

@[simp] theorem holds_hi_ofSub : hi.holds (.ofSub a b) = decide (b < a) := by
  rw [Bool.eq_iff_iff]
  simp only [holds, Flags.ofSub, Bool.and_eq_true, decide_eq_true_eq, Bool.not_eq_true',
    beq_eq_false_iff_ne, BitVec.lt_def, BitVec.le_def, ne_eq, BitVec.toNat_eq]
  omega

/-- After a comparison, `blt` is taken if the first word is below the second one as a signed
number. -/
@[simp] theorem holds_lt_ofSub : lt.holds (.ofSub a b) = decide (a.toInt < b.toInt) := by
  have hsub := BitVec.toNat_sub a b
  rcases sign_cases a with ⟨ha, hia, hsa⟩ | ⟨ha, hia, hsa⟩ <;>
    rcases sign_cases b with ⟨hb, hib, hsb⟩ | ⟨hb, hib, hsb⟩ <;>
    rcases sign_cases (a - b) with ⟨hx, -, hsx⟩ | ⟨hx, -, hsx⟩ <;>
    rw [Bool.eq_iff_iff] <;>
    simp only [holds, Flags.ofSub, hsa, hsb, hsx, hia, hib, decide_eq_true_eq] <;>
    simp <;> omega

@[simp] theorem holds_gt_ofSub : gt.holds (.ofSub a b) = decide (b.toInt < a.toInt) := by
  have hge : ge.holds (.ofSub a b) = !decide (a.toInt < b.toInt) := by
    rw [holds_ge, holds_lt_ofSub]
  have hz : (Flags.ofSub a b).z = decide (a.toInt = b.toInt) := by
    rw [decide_eq_decide.mpr BitVec.toInt_inj]
    rfl
  rw [show gt.holds (.ofSub a b) = (!(Flags.ofSub a b).z && ge.holds (.ofSub a b)) from rfl, hge,
    hz, Bool.eq_iff_iff]
  simp only [Bool.and_eq_true, Bool.not_eq_true', decide_eq_false_iff_not, decide_eq_true_eq]
  omega

theorem holds_ge_ofSub : ge.holds (.ofSub a b) = decide (b.toInt ≤ a.toInt) := by
  rw [holds_ge, holds_lt_ofSub, ← decide_not, decide_eq_decide]
  exact not_lt

@[simp] theorem holds_mi_ofSub : mi.holds (.ofSub a b) = (a - b).msb :=
  rfl

@[simp] theorem holds_eq_ofAdd : eq.holds (.ofAdd a b) = (a + b == 0) :=
  rfl

@[simp] theorem holds_cs_ofAdd :
    cs.holds (.ofAdd a b) = decide (2 ^ 32 ≤ a.toNat + b.toNat) :=
  rfl

@[simp] theorem holds_mi_ofAdd : mi.holds (.ofAdd a b) = (a + b).msb :=
  rfl

@[simp] theorem holds_eq_ofResult : eq.holds (f.ofResult x) = (x == 0) :=
  rfl

@[simp] theorem holds_mi_ofResult : mi.holds (f.ofResult x) = x.msb :=
  rfl

@[simp] theorem holds_cs_ofResult : cs.holds (f.ofResult x) = cs.holds f :=
  rfl

@[simp] theorem holds_eq_ofShift : eq.holds (f.ofShift x carry) = (x == 0) :=
  rfl

@[simp] theorem holds_mi_ofShift : mi.holds (f.ofShift x carry) = x.msb :=
  rfl

@[simp] theorem holds_cs_ofShift : cs.holds (f.ofShift x carry) = carry :=
  rfl

end Cond

/-! ## Instructions -/

/-- The last operand of an instruction. -/
inductive Operand
  | reg (r : Reg)
  | imm (k : ℕ)
  deriving DecidableEq, Repr

instance : Coe Reg Operand := ⟨.reg⟩

instance (k : ℕ) : OfNat Operand k := ⟨.imm k⟩

namespace Operand

/-- The value of an operand. -/
def val (c : Cpu) : Operand → BitVec 32
  | reg r => c.get r
  | imm k => BitVec.ofNat 32 k

/-- The number of places of a shift : the low byte of a register. -/
def places (c : Cpu) : Operand → ℕ
  | reg r => (c.get r).toNat % 256
  | imm k => k

@[simp] theorem val_reg (c : Cpu) (r : Reg) : (reg r).val c = c.get r :=
  rfl

@[simp] theorem val_ofNat (c : Cpu) (k : ℕ) :
    val c (no_index (OfNat.ofNat k)) = BitVec.ofNat 32 k :=
  rfl

@[simp] theorem places_reg (c : Cpu) (r : Reg) : (reg r).places c = (c.get r).toNat % 256 :=
  rfl

@[simp] theorem places_ofNat (c : Cpu) (k : ℕ) : places c (no_index (OfNat.ofNat k)) = k :=
  rfl

end Operand

/-- What an instruction does. -/
abbrev Instr := Cpu → Cpu

section Instructions

variable (rd rn rm : Reg) (op : Operand) (rs : List Reg)

/-- `mov` without flags, which can be to and from any register. -/
def mov : Instr := fun c => c.set (c.get rm) rd

/-- `ldr rd, =k` or `adr rd, label`. -/
def ldrLit (k : BitVec 32) : Instr := fun c => c.set k rd

/-- An instruction whose flags are those of its result. -/
def result (x : Cpu → BitVec 32) : Instr := fun c =>
  { c.set (x c) rd with flags := c.flags.ofResult (x c) }

def movs : Instr := result rd op.val
def mvns : Instr := result rd fun c => ~~~c.get rm
def ands : Instr := result rd fun c => c.get rd &&& c.get rm
def orrs : Instr := result rd fun c => c.get rd ||| c.get rm
def eors : Instr := result rd fun c => c.get rd ^^^ c.get rm
def muls : Instr := result rd fun c => c.get rd * c.get rm

/-- `uxtb`, `sxtb` and `rev` set no flags. -/
def uxtb : Instr := fun c => c.set (((c.get rm).setWidth 8).setWidth 32) rd
def sxtb : Instr := fun c => c.set (((c.get rm).setWidth 8).signExtend 32) rd

/-- The four bytes of a word in the other order. -/
def reverseBytes (x : BitVec 32) : BitVec 32 :=
  x.extractLsb' 0 8 ++ x.extractLsb' 8 8 ++ x.extractLsb' 16 8 ++ x.extractLsb' 24 8

def rev : Instr := fun c => c.set (reverseBytes (c.get rm)) rd

/-- `add` without flags, in place. -/
def add : Instr := fun c => c.set (c.get rd + op.val c) rd

def adds : Instr := fun c =>
  { c.set (c.get rn + op.val c) rd with flags := .ofAdd (c.get rn) (op.val c) }

def subs : Instr := fun c =>
  { c.set (c.get rn - op.val c) rd with flags := .ofSub (c.get rn) (op.val c) }

/-- `rsbs rd, rn, #0`, or `negs`. -/
def rsbs : Instr := fun c =>
  { c.set (-c.get rn) rd with flags := .ofSub 0 (c.get rn) }

def cmp : Instr := fun c =>
  { c with flags := .ofSub (c.get rn) (op.val c) }

/-- The carry as a number. -/
def Cpu.carry (c : Cpu) : BitVec 32 := (BitVec.ofBool c.flags.c).setWidth 32

def adcs : Instr := fun c =>
  { c.set (c.get rd + c.get rm + c.carry) rd with
    flags := .ofAdc (c.get rd) (c.get rm) c.flags.c }

/-- A difference is the sum with the complement : a clear carry is a borrow. -/
def sbcs : Instr := fun c =>
  { c.set (c.get rd + ~~~c.get rm + c.carry) rd with
    flags := .ofAdc (c.get rd) (~~~c.get rm) c.flags.c }

/-- The carry after a shift to the left by `k` places. -/
def carryLeft (f : Flags) (x : BitVec 32) (k : ℕ) : Bool :=
  if k = 0 then f.c else k ≤ 32 && x.getLsbD (32 - k)

/-- The carry after a shift to the right by `k` places. -/
def carryRight (f : Flags) (x : BitVec 32) (k : ℕ) : Bool :=
  if k = 0 then f.c else x.getLsbD (k - 1)

/-- The carry after an arithmetic shift to the right by `k` places. -/
def carryArith (f : Flags) (x : BitVec 32) (k : ℕ) : Bool :=
  if k = 0 then f.c else if k ≤ 32 then x.getLsbD (k - 1) else x.msb

/-- The carry and the result of shifts that follow one another, on the word that was shifted. -/
theorem getLsbD_shiftLeft_last (x : BitVec 32) {k : ℕ} (hk : k < 32) :
    (x <<< k).getLsbD 31 = x.getLsbD (31 - k) := by
  rw [BitVec.getLsbD_shiftLeft, decide_eq_true (by decide), decide_eq_false (by omega)]
  rfl

theorem shiftLeft_eq_zero_iff (x : BitVec 32) {k : ℕ} (hk : k ≤ 32) :
    x <<< k = 0 ↔ x.toNat % 2 ^ (32 - k) = 0 := by
  have hpow : 2 ^ 32 = 2 ^ (32 - k) * 2 ^ k := by
    rw [← Nat.pow_add, Nat.sub_add_cancel hk]
  rw [BitVec.toNat_eq, BitVec.toNat_shiftLeft, Nat.shiftLeft_eq, hpow, Nat.mul_mod_mul_right]
  exact Nat.mul_eq_zero.trans (or_iff_left (Nat.two_pow_pos k).ne')

/-- A bit and the bits below it. -/
theorem mod_two_pow_succ (x : BitVec 32) (k : ℕ) :
    x.toNat % 2 ^ (k + 1) = x.toNat % 2 ^ k + if x.getLsbD k then 2 ^ k else 0 := by
  have hbit : x.getLsbD k = decide (x.toNat / 2 ^ k % 2 = 1) := Nat.testBit_eq_decide_div_mod_eq
  rw [Nat.pow_succ, Nat.mod_mul, hbit]
  rcases Nat.mod_two_eq_zero_or_one (x.toNat / 2 ^ k) with h | h <;> simp [h]

/-- The rest of a word is left alone by a subtraction of what it is a rest of. -/
theorem toNat_sub_mod (x : BitVec 32) {k : ℕ} (hk : k ∣ 2 ^ 32) :
    (x - BitVec.ofNat 32 k).toNat % k = x.toNat % k := by
  have hrest : (2 ^ 32 - k % 2 ^ 32) % k = 0 :=
    Nat.mod_eq_zero_of_dvd (Nat.dvd_sub hk ((Nat.dvd_mod_iff hk).mpr (Nat.dvd_refl k)))
  rw [BitVec.toNat_sub, Nat.mod_mod_of_dvd _ hk, BitVec.toNat_ofNat, Nat.add_mod, hrest,
    Nat.zero_add, Nat.mod_mod]

def lsls : Instr := fun c =>
  let k := op.places c
  { c.set (c.get rm <<< k) rd with
    flags := c.flags.ofShift (c.get rm <<< k) (carryLeft c.flags (c.get rm) k) }

def lsrs : Instr := fun c =>
  let k := op.places c
  { c.set (c.get rm >>> k) rd with
    flags := c.flags.ofShift (c.get rm >>> k) (carryRight c.flags (c.get rm) k) }

def asrs : Instr := fun c =>
  let k := op.places c
  { c.set ((c.get rm).sshiftRight k) rd with
    flags := c.flags.ofShift ((c.get rm).sshiftRight k) (carryArith c.flags (c.get rm) k) }

/-! ### Loads and stores -/

def ldrb : Instr := fun c =>
  c.set ((c.mem (c.get rn + op.val c)).setWidth 32) rd

def strb : Instr := fun c =>
  { c with mem := c.mem.copy (c.get rn + op.val c) 1 fun _ => (c.get rd).setWidth 8 }

def ldrh : Instr := fun c =>
  let a := c.get rn + op.val c
  (c.access a 2).set ((c.mem.loadHalf a).setWidth 32) rd

def strh : Instr := fun c =>
  let a := c.get rn + op.val c
  { c.access a 2 with mem := c.mem.storeHalf a ((c.get rd).setWidth 16) }

def str : Instr := fun c =>
  let a := c.get rn + op.val c
  { c.access a 4 with mem := c.mem.storeWord a (c.get rd) }

/-- The registers of a list, loaded from the words at an address. -/
def Cpu.loads (c : Cpu) (a : BitVec 32) : List Reg → Cpu
  | [] => c
  | r :: rs => (c.set (c.mem.loadWord a) r).loads (a + 4) rs

/-- The registers of a list, stored to the words at an address. -/
def Cpu.stores (c : Cpu) (a : BitVec 32) : List Reg → Cpu
  | [] => c
  | r :: rs => { c with mem := c.mem.storeWord a (c.get r) }.stores (a + 4) rs

/-- The bytes of a list of registers. -/
def bytes : BitVec 32 := BitVec.ofNat 32 (4 * rs.length)

/-- `ldmia rn!, rs`, where `rn` is not in the list. -/
def ldmia : Instr := fun c =>
  let a := c.get rn
  ((c.access a 4).loads a rs).set (a + bytes rs) rn

/-- `stmia rn!, rs`, where `rn` is not in the list. -/
def stmia : Instr := fun c =>
  let a := c.get rn
  ((c.access a 4).stores a rs).set (a + bytes rs) rn

def push : Instr := fun c =>
  let a := c.sp - bytes rs
  { (c.access a 4).stores a rs with sp := a }

def pop : Instr := fun c =>
  let a := c.sp
  { (c.access a 4).loads a rs with sp := a + bytes rs }

end Instructions

attribute [simp] Cpu.get Cpu.set Cpu.access Cpu.loads Cpu.stores bytes mov ldrLit result movs mvns
  ands orrs eors muls uxtb sxtb rev add adds subs rsbs cmp adcs sbcs lsls lsrs asrs ldrb strb ldrh
  strh str ldmia stmia push pop

/-- Instructions one after the other. -/
def exec (instrs : List Instr) (c : Cpu) : Cpu :=
  instrs.foldl (fun c i => i c) c

@[simp] theorem exec_nil (c : Cpu) : exec [] c = c :=
  rfl

@[simp] theorem exec_cons (i : Instr) (instrs : List Instr) (c : Cpu) :
    exec (i :: instrs) c = exec instrs (i c) :=
  rfl

end Thumb
