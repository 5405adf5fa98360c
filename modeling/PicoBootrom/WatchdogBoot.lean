import PicoBootrom.Address
import PicoBootrom.ThumbRun

/-!
# Rebooting into code

`watchdog_reboot` leaves an entry point and a stack pointer in the scratch registers of the
watchdog, which a reset keeps, and `check_wdog` of the next boot looks for them there. The C code
stores the entry point a second time, xored with the negated magic number. The assembly code checks
this by a sum that has to be zero, and the zero is what it clears the magic number with, so that the
boot after that finds nothing.

The registers of the watchdog are part of the memory. What a reset does to the rest of the state is
left open : a boot is any state of the processor with these scratch registers.
-/

namespace PicoBootrom

open Thumb Thumb.Reg

/-! ## `watchdog_reboot` -/

/-- The registers that `watchdog_reboot` writes, and `rebooting`. -/
structure RebootRegs where
  psmWdsel : Word
  ctrl : Word
  load : Word
  scratch : ℕ → Word
  tick : Word
  clkRefCtrl : Word
  rebooting : Bool

def psmWdselBits : Word := 0x0001ffff
def psmWdselRoscBits : Word := 0x00000001
def psmWdselXoscBits : Word := 0x00000002
def watchdogCtrlEnableBits : Word := 0x40000000
def watchdogCtrlPauseBits : Word := 0x07000000
def watchdogTickEnableBits : Word := 0x00000200
def clkRefCtrlSrcBits : Word := 0x00000003
def clkRefCtrlSrcXosc : Word := 0x00000002

/-- `0xb007c0d3`. -/
def watchdogMagic : Word := 0xb007c0d3

/-- The part of `watchdog_reboot` that writes the scratch registers. -/
def writeScratch (pc sp : Word) (scratch : ℕ → Word) : ℕ → Word :=
  if pc ≠ 0 then
    let pc := pc ||| 1
    let scratch := Function.update scratch 4 watchdogMagic
    let scratch := Function.update scratch 5 (pc ^^^ -scratch 4)
    let scratch := Function.update scratch 6 sp
    Function.update scratch 7 pc
  else Function.update scratch 4 0

/-- `watchdog_reboot`. The wait for the switch of `clk_ref` writes nothing. -/
def watchdogReboot (runningOnFpga : Bool) (pc sp delayMs : Word) (s : RebootRegs) : RebootRegs where
  psmWdsel := psmWdselBits &&& ~~~(psmWdselRoscBits ||| psmWdselXoscBits)
  ctrl := s.ctrl &&& ~~~(watchdogCtrlEnableBits ||| watchdogCtrlPauseBits) |||
    watchdogCtrlEnableBits
  load := delayMs * 1000
  scratch := writeScratch pc sp s.scratch
  tick := 12 ||| watchdogTickEnableBits
  clkRefCtrl := if runningOnFpga then s.clkRefCtrl
    else s.clkRefCtrl &&& ~~~clkRefCtrlSrcBits ||| clkRefCtrlSrcXosc
  rebooting := true

/-! ## `check_wdog` -/

def watchdogBase : Word := 0x40058000
def watchdogScratch4Offset : Word := 0x1c

/-- The labels of the boot path. The two without a name in the source come after the two branches to
`1` : `entry` compares the entry point, `launch` jumps to it. -/
inductive BootLabel
  | checkWdog
  | entry
  | launch
  | boot
  | main
  | afterMain
  deriving DecidableEq, Repr

/-- The code from `check_wdog` on. `main` stands for the C function, which does not return. -/
def bootCode : BootLabel → Block BootLabel
  | .checkWdog => ⟨[
      ldrLit r7 (watchdogBase + watchdogScratch4Offset),
      ldrLit r6 0xb007c0d3,
      ldmia r7 [r0, r1, r2, r3],
      cmp r0 r6],
      .bcond .ne .boot .entry⟩
  | .entry => ⟨[
      eors r1 r3,
      adds r0 r0 r1],
      .bcond .ne .boot .launch⟩
  | .launch => ⟨[
      subs r7 r7 16,
      str r0 r7 0,
      mov sp r2],
      .blx r3 .boot⟩
  | .boot => ⟨[], .bl .main .afterMain⟩
  | .main => ⟨[], .b .main⟩
  | .afterMain => ⟨[], .b .afterMain⟩

/-- The address of the scratch register 4. -/
def scratch4 : Word := watchdogBase + watchdogScratch4Offset

/-- The scratch registers in memory, from number 4 on. -/
def scratchWord (m : Memory 32) (i : ℕ) : Word :=
  m.loadWord (scratch4 + BitVec.ofNat 32 (4 * (i - 4)))

/-- The scratch registers that `check_wdog` looks at. -/
def HasScratch (c : Cpu) (scratch : ℕ → Word) : Prop :=
  ∀ i, 4 ≤ i → i < 8 → scratchWord c.mem i = scratch i

/-- `check_wdog` comes to where it jumps to the entry point. -/
def Launches (P : Placement BootLabel) (c : Cpu) : Prop :=
  Leads bootCode P (.at .checkWdog c) fun y => ∃ c', y = .at .launch c'

/-- `check_wdog` goes on with the boot, and does not launch anything. -/
def BootsNormally (P : Placement BootLabel) (c : Cpu) : Prop :=
  ¬Launches P c ∧ Leads bootCode P (.at .checkWdog c) fun y => ∃ c', y = .at .main c'

section Blocks

variable {P : Placement BootLabel}

/-- What the first block loads. -/
def afterLoad (c : Cpu) : Cpu :=
  { c with
    r0 := c.mem.loadWord scratch4
    r1 := c.mem.loadWord (scratch4 + 4)
    r2 := c.mem.loadWord (scratch4 + 4 + 4)
    r3 := c.mem.loadWord (scratch4 + 4 + 4 + 4)
    r6 := watchdogMagic
    r7 := scratch4 + 16
    flags := .ofSub (c.mem.loadWord scratch4) watchdogMagic
    aligned := c.aligned && isAligned scratch4 4 }

/-- The second block. -/
def afterCompare (c : Cpu) : Cpu :=
  { c with
    r0 := c.r0 + (c.r1 ^^^ c.r3)
    r1 := c.r1 ^^^ c.r3
    flags := .ofAdd c.r0 (c.r1 ^^^ c.r3) }

theorem step_checkWdog (c : Cpu) : step bootCode P (.at .checkWdog c) =
    .at (if Cond.ne.holds (.ofSub (c.mem.loadWord scratch4) watchdogMagic) then .boot else .entry)
      (afterLoad c) := by
  rfl

theorem step_entry (c : Cpu) : step bootCode P (.at .entry c) =
    .at (if Cond.ne.holds (.ofAdd c.r0 (c.r1 ^^^ c.r3)) then .boot else .launch)
      (afterCompare c) := by
  rfl

/-- The magic number is cleared before the jump. -/
theorem step_launch (c : Cpu) : step bootCode P (.at .launch c) =
    P.jump c.r3
      { c with
        r7 := c.r7 - 16
        sp := c.r2
        lr := P.addr .boot + 1
        flags := .ofSub c.r7 16
        mem := c.mem.storeWord (c.r7 - 16 + 0) c.r0
        aligned := c.aligned && isAligned (c.r7 - 16 + 0) 4 } := by
  rfl

end Blocks

/-! ## The next boots -/

section Boots

variable {P : Placement BootLabel} {c : Cpu}

/-- The scratch registers hold an entry point in the way of `watchdog_reboot`. -/
def ScratchMatches (m : Memory 32) : Prop :=
  scratchWord m 4 = watchdogMagic ∧ scratchWord m 5 = scratchWord m 7 ^^^ -watchdogMagic

/-- The sum is zero for the entry point that was stored. -/
theorem magic_add_eq_zero {x y : Word} :
    watchdogMagic + (x ^^^ y) = 0 ↔ x = y ^^^ -watchdogMagic := by
  have hsum (z : Word) : watchdogMagic + z = 0 ↔ z = -watchdogMagic := by bv_omega
  rw [hsum]
  constructor
  · intro h
    rw [← h, BitVec.xor_comm x, ← BitVec.xor_assoc, BitVec.xor_self, BitVec.zero_xor]
  · rintro rfl
    rw [BitVec.xor_comm y, BitVec.xor_assoc, BitVec.xor_self, BitVec.xor_zero]

theorem leads_main_of_boot (c : Cpu) :
    Leads bootCode P (.at .boot c) fun y => ∃ c', c'.mem = c.mem ∧ y = .at .main c' :=
  .block (.now ⟨{ c with lr := P.addr .afterMain + 1 }, rfl, rfl⟩)

/-- From `boot` on, nothing is launched. -/
theorem not_launch_of_boot (c : Cpu) :
    ¬Leads bootCode P (.at .boot c) fun y => ∃ c', y = .at .launch c' := by
  intro h
  obtain ⟨y, ⟨c', hy⟩, c'', hlaunch⟩ :=
    h.keeps (I := fun y => ∃ c', y = .at .boot c' ∨ y = .at .main c') ⟨c, .inl rfl⟩ (by
      rintro _ ⟨c', rfl | rfl⟩
      · exact ⟨{ c' with lr := P.addr .afterMain + 1 }, .inr rfl⟩
      · exact ⟨c', .inr rfl⟩)
  rw [hlaunch] at hy
  rcases hy with hy | hy <;> cases hy

/-- What a run finds that goes through the check : the way to the entry point if it finds the magic
number and the entry point xored with the negated magic number, and else that of the boot. -/
theorem leads_check_iff (c : Cpu) {Q : Config BootLabel → Prop}
    (hstart : ∀ c, ¬Q (.at .checkWdog c)) (hentry : ∀ c, ¬Q (.at .entry c)) :
    (ScratchMatches c.mem → (Leads bootCode P (.at .checkWdog c) Q ↔
      Leads bootCode P (.at .launch (afterCompare (afterLoad c))) Q)) ∧
    (¬ScratchMatches c.mem → ∃ c', c'.mem = c.mem ∧ (Leads bootCode P (.at .checkWdog c) Q ↔
      Leads bootCode P (.at .boot c') Q)) := by
  have hload : c.mem.loadWord scratch4 = scratchWord c.mem 4 := by
    rw [scratchWord, Nat.sub_self, Nat.mul_zero, BitVec.add_zero]
  rw [Leads.step_iff (hstart c), step_checkWdog, Cond.holds_ne, Cond.holds_eq_ofSub, hload]
  by_cases hmagic : scratchWord c.mem 4 = watchdogMagic
  · have hsum : (afterLoad c).r0 + ((afterLoad c).r1 ^^^ (afterLoad c).r3) = 0 ↔
        ScratchMatches c.mem := by
      rw [ScratchMatches, and_iff_right hmagic, ← magic_add_eq_zero, ← hmagic, ← hload]
      rfl
    rw [decide_eq_true hmagic, Bool.not_true, if_neg Bool.false_ne_true,
      Leads.step_iff (hentry _), step_entry, Cond.holds_ne, Cond.holds_eq_ofAdd]
    refine ⟨fun h => ?_, fun h => ⟨afterCompare (afterLoad c), rfl, ?_⟩⟩
    · rw [hsum.mpr h]
      rfl
    · rw [beq_false_of_ne (mt hsum.mp h), Bool.not_false, if_pos rfl]
  · rw [decide_eq_false hmagic, Bool.not_false, if_pos rfl]
    exact ⟨fun h => absurd h.1 hmagic, fun _ => ⟨afterLoad c, rfl, Iff.rfl⟩⟩

theorem launches_iff (c : Cpu) : Launches P c ↔ ScratchMatches c.mem := by
  obtain ⟨hlaunch, hboot⟩ := leads_check_iff (P := P) c
    (Q := fun y => ∃ c', y = .at .launch c') (by simp) (by simp)
  refine ⟨fun h => ?_, fun h => (hlaunch h).mpr (.now ⟨_, rfl⟩)⟩
  by_contra hnot
  obtain ⟨c', -, hiff⟩ := hboot hnot
  exact not_launch_of_boot c' (hiff.mp h)

theorem leads_main_of_not (h : ¬ScratchMatches c.mem) :
    Leads bootCode P (.at .checkWdog c) fun y => ∃ c', c'.mem = c.mem ∧ y = .at .main c' := by
  obtain ⟨c', hmem, hiff⟩ := (leads_check_iff (P := P) c
    (Q := fun y => ∃ c', c'.mem = c.mem ∧ y = .at .main c') (by simp) (by simp)).2 h
  exact hiff.mpr (hmem ▸ leads_main_of_boot c')

/-- Without the magic number and the entry point, a boot goes on. -/
theorem bootsNormally_of_not (h : ¬ScratchMatches c.mem) : BootsNormally P c :=
  ⟨mt (launches_iff c).mp h, (leads_main_of_not h).mono fun _ ⟨c', _, hy⟩ => ⟨c', hy⟩⟩

/-- A boot that finds what is left of scratch registers that do not match. -/
theorem bootsNormally_of_kept {m : Memory 32} (h : ¬ScratchMatches m)
    (hc : HasScratch c (scratchWord m)) : BootsNormally P c := by
  refine bootsNormally_of_not fun hmatches => h ?_
  rwa [ScratchMatches, hc 4 (by omega) (by omega), hc 5 (by omega) (by omega),
    hc 7 (by omega) (by omega)] at hmatches

/-- Scratch registers without the magic number do not match. -/
theorem not_scratchMatches_of_zero {m : Memory 32} (h : scratchWord m 4 = 0) :
    ¬ScratchMatches m := by
  rintro ⟨hmagic, -⟩
  rw [h] at hmagic
  exact absurd hmagic (by decide)

/-- With scratch registers that match, the code jumps to the entry point, with the magic number
cleared. -/
theorem leads_jump_of_matches (h : ScratchMatches c.mem) :
    Leads bootCode P (.at .checkWdog c) fun y => ∃ c', y = P.jump (scratchWord c.mem 7) c' ∧
      c'.sp = scratchWord c.mem 6 ∧ scratchWord c'.mem 4 = 0 := by
  have hlaunch := ((leads_check_iff (P := P) c
    (Q := (· = .at .launch (afterCompare (afterLoad c)))) (by simp) (by simp)).1 h).mpr (.now rfl)
  have hsum : (afterCompare (afterLoad c)).r0 = 0 := by
    have hload : (afterLoad c).r0 = watchdogMagic := by
      rw [← h.1, scratchWord, Nat.sub_self, Nat.mul_zero, BitVec.add_zero]
      rfl
    change (afterLoad c).r0 + (scratchWord c.mem 5 ^^^ scratchWord c.mem 7) = 0
    rw [hload, magic_add_eq_zero]
    exact h.2
  refine hlaunch.trans ?_
  rintro _ rfl
  refine .block (.now ?_)
  have haddr : scratch4 + 16 - 16 + 0 = scratch4 := by decide
  refine ⟨_, step_launch (afterCompare (afterLoad c)), rfl, ?_⟩
  dsimp only
  rw [hsum, show (afterCompare (afterLoad c)).r7 = scratch4 + 16 from rfl, haddr, scratchWord,
    Nat.sub_self, Nat.mul_zero, BitVec.add_zero, Memory.loadWord_storeWord (by omega)]

/-- `watchdog_reboot` stores what `check_wdog` looks for. -/
theorem writeScratch_matches {pc sp : Word} {scratch : ℕ → Word} (hpc : pc ≠ 0)
    (hc : HasScratch c (writeScratch pc sp scratch)) :
    ScratchMatches c.mem ∧ scratchWord c.mem 6 = sp ∧ scratchWord c.mem 7 = pc ||| 1 := by
  have hword (i : ℕ) (hi : 4 ≤ i) (hi' : i < 8) := hc i hi hi'
  rw [writeScratch, if_pos hpc] at hword
  refine ⟨⟨?_, ?_⟩, ?_, ?_⟩
  · rw [hword 4 (by omega) (by omega)]
    rfl
  · rw [hword 5 (by omega) (by omega), hword 7 (by omega) (by omega)]
    rfl
  · rw [hword 6 (by omega) (by omega)]
    rfl
  · rw [hword 7 (by omega) (by omega)]
    rfl

/-- A boot after `watchdog_reboot` jumps to the entry point with the lowest bit set and with the
stack pointer, and clears the magic number before. For the entry point 0 it goes on with the boot.
In both cases a boot that finds the scratch registers as this one leaves them goes on with the boot.
Whatever the scratch registers are, code is launched exactly if number 4 is the magic number and
number 5 is number 7 xored with the negated magic number. -/
theorem watchdog_reboot_boots (P : Placement BootLabel) (runningOnFpga : Bool)
    (pc sp delayMs : Word) (s : RebootRegs) :
    (∀ c, HasScratch c (watchdogReboot runningOnFpga pc sp delayMs s).scratch →
      (pc ≠ 0 → Leads bootCode P (.at .checkWdog c) fun y => ∃ c', y = P.jump (pc ||| 1) c' ∧
        c'.sp = sp ∧ ∀ c'', HasScratch c'' (scratchWord c'.mem) → BootsNormally P c'') ∧
      (pc = 0 → ¬Launches P c ∧ Leads bootCode P (.at .checkWdog c) fun y =>
        ∃ c', y = .at .main c' ∧ ∀ c'', HasScratch c'' (scratchWord c'.mem) →
          BootsNormally P c'')) ∧
    ∀ c, Launches P c ↔ scratchWord c.mem 4 = watchdogMagic ∧
      scratchWord c.mem 5 = scratchWord c.mem 7 ^^^ -watchdogMagic := by
  refine ⟨fun c hc => ⟨fun hpc => ?_, fun hpc => ?_⟩, launches_iff⟩
  · obtain ⟨hmatches, hsp, hentry⟩ := writeScratch_matches hpc hc
    refine (leads_jump_of_matches hmatches).mono ?_
    rintro _ ⟨c', rfl, hsp', hzero⟩
    exact ⟨c', by rw [hentry], hsp'.trans hsp, fun c'' hc'' =>
      bootsNormally_of_kept (not_scratchMatches_of_zero hzero) hc''⟩
  · have hzero : scratchWord c.mem 4 = 0 := by
      rw [hc 4 (by omega) (by omega)]
      exact congrFun (if_neg (not_not_intro hpc)) 4
    have hnot := not_scratchMatches_of_zero hzero
    refine ⟨mt (launches_iff c).mp hnot, (leads_main_of_not hnot).mono ?_⟩
    rintro _ ⟨c', hmem, rfl⟩
    exact ⟨c', rfl, fun c'' hc'' => bootsNormally_of_kept hnot (hmem ▸ hc'')⟩

/-- Addresses of the labels in a ROM. -/
def bootPlacement : Placement BootLabel :=
  .ofList [.checkWdog, .entry, .launch, .boot, .main, .afterMain]
    (fun
      | .checkWdog => 0x180
      | .entry => 0x18a
      | .launch => 0x190
      | .boot => 0x198
      | .main => 0x2000
      | .afterMain => 0x19c)
    (by intro l; cases l <;> decide) (by intro l; cases l <;> rfl)
    (by intro l l'; cases l <;> cases l' <;> decide)

/-- A processor at its first boot after `watchdog_reboot(0x20000000, 0x20042000, 10)`. -/
def rebootedCpu : Cpu :=
  .cleared 0x20041f00 0xffffffff ((((Memory.storeWord (fun _ => 0) scratch4 watchdogMagic).storeWord
    (scratch4 + 4) (0x20000001 ^^^ -watchdogMagic)).storeWord (scratch4 + 8) 0x20042000).storeWord
    (scratch4 + 12) 0x20000001)

theorem watchdog_reboot_boots_ram :
    Leads bootCode bootPlacement (.at .checkWdog rebootedCpu) fun y =>
      ∃ c', y = bootPlacement.jump 0x20000001 c' ∧ c'.sp = 0x20042000 ∧
        ∀ c'', HasScratch c'' (scratchWord c'.mem) → BootsNormally bootPlacement c'' :=
  ((watchdog_reboot_boots bootPlacement false 0x20000000 0x20042000 10
    ⟨0, 0, 0, fun _ => 0, 0, 0, false⟩).1 rebootedCpu (by
      intro i hi hi'
      have hcases : i = 4 ∨ i = 5 ∨ i = 6 ∨ i = 7 := by omega
      rcases hcases with rfl | rfl | rfl | rfl <;> decide)).1 (by decide)

end Boots

end PicoBootrom
