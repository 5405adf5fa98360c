import PicoBootrom.ExitXip

/-!
# The table of flash functions in RAM

`PC_VECTORIZE_FLASH` copies `default_flash_funcs` to RAM and points `flash_funcs` there. The table
stays as it was copied : a write to RAM that overlaps it points `flash_funcs` back to the ROM, and
the bitmaps of flash images are in XIP SRAM, where no table is put.

The writes are those of any tasks without `AT_EXEC`, and of the bitmaps (`TableEvent`). The test of
a write is made in 32-bit arithmetic, so it holds for the ranges that do not wrap around. Most
ranges that do are refused ; the others are excluded (`TableEvent.Unwrapped`).
-/

namespace PicoBootrom

/-! ## The world of the table -/

/-- The disk, and the address of the table that was installed last. -/
structure TableWorld where
  disk : VirtualDisk
  installed : Option Word := none

/-- A task is executed, or a sector arrives. -/
inductive TableEvent
  | task (task : AsyncTask)
  | sector (uf2 : Uf2Block) (token : Word)

/-- The task gets to the copy of the table. -/
def installsTable (task : AsyncTask) (m : Machine) : Bool :=
  !m.rebooting && task.has atVectorizeFlash && task.transferAddr &&& 1 == 0 &&
    isAddressSafeForVectoring task.transferAddr &&
    isAddressSafeForVectoring (task.transferAddr + sizeofFlashFuncs)

/-- One event. -/
def tableStep (env : Env) (w : TableWorld) : TableEvent → TableWorld
  | .task task =>
    { disk := { w.disk with toMachine := (executeTask env task w.disk.toMachine).1 }
      installed :=
        if installsTable task w.disk.toMachine then some task.transferAddr else w.installed }
  | .sector uf2 token => { w with disk := (receiveSector uf2 token w.disk).1 }

/-- The bytes at `ff` are those of `default_flash_funcs`. -/
def HoldsTable (env : Env) (mem : Memory 32) (ff : Word) : Prop :=
  ∀ i < sizeofFlashFuncs.toNat, mem (ff + BitVec.ofNat 32 i) = env.defaultFlashFuncsBytes i

/-- The table at `ff` is wholly in SRAM. -/
def InSram (ff : Word) : Prop :=
  sramBase.toNat ≤ ff.toNat ∧ ff.toNat + sizeofFlashFuncs.toNat ≤ sramEnd.toNat

/-- `flash_funcs` points to the ROM, or to the table that was installed last, in SRAM and away from
the bitmaps, which holds what was copied there. -/
def TableIntact (env : Env) (w : TableWorld) : Prop :=
  ∀ ff, w.disk.flashFuncs = .ram ff → w.installed = some ff ∧ InSram ff ∧
    Memory.Disjoint ff sizeofFlashFuncs.toNat flashValidBlocksBase flashBitmapsSize.toNat ∧
    HoldsTable env w.disk.mem ff

theorem sizeofFlashFuncs_toNat : sizeofFlashFuncs.toNat = 28 := rfl

/-! ## The place of the table -/

/-- The checks of `AT_VECTORIZE_FLASH` leave the addresses in SRAM. -/
theorem isAddressSafeForVectoring_iff (a : Word) : isAddressSafeForVectoring a = true ↔
    sramBase.toNat ≤ a.toNat ∧ a.toNat ≤ sramEnd.toNat := by
  have hbase : sramBase.toNat = 0x20000000 := rfl
  have hend : sramEnd.toNat = 0x20042000 := rfl
  have hxip : flashValidBlocksBase.toNat = 0x15000000 := rfl
  have hxipEnd : (flashValidBlocksBase + flashBitmapsSize).toNat = 0x15004000 := by decide
  simp only [isAddressSafeForVectoring, Bool.and_eq_true, Bool.or_eq_true, isAddressRam_iff,
    decide_eq_true_eq, BitVec.lt_def, hbase, hend, hxip, hxipEnd]
  omega

theorem InSram.of_safe {ff : Word} (h : isAddressSafeForVectoring ff = true)
    (hend : isAddressSafeForVectoring (ff + sizeofFlashFuncs) = true) : InSram ff := by
  rw [isAddressSafeForVectoring_iff] at h hend
  have hsramEnd : sramEnd.toNat = 0x20042000 := rfl
  have hlt : ff.toNat + sizeofFlashFuncs.toNat < 2 ^ 32 := by
    rw [sizeofFlashFuncs_toNat]
    omega
  rw [BitVec.toNat_add, Nat.mod_eq_of_lt hlt] at hend
  exact ⟨h.1, hend.2⟩

theorem InSram.inRange_iff {ff : Word} (h : InSram ff) (a : Word) :
    Memory.InRange ff sizeofFlashFuncs.toNat a ↔
      ff.toNat ≤ a.toNat ∧ a.toNat < ff.toNat + sizeofFlashFuncs.toNat := by
  have hend : sramEnd.toNat = 0x20042000 := rfl
  have hle := h.2
  exact Memory.inRange_iff (by omega) a

/-- The bitmaps are below SRAM. -/
theorem InSram.disjoint {ff : Word} (h : InSram ff) :
    Memory.Disjoint ff sizeofFlashFuncs.toNat flashValidBlocksBase flashBitmapsSize.toNat := by
  have hbase : sramBase.toNat = 0x20000000 := rfl
  have hend : sramEnd.toNat = 0x20042000 := rfl
  have hxip : flashValidBlocksBase.toNat + flashBitmapsSize.toNat = 0x15004000 := by decide
  have hle := h.2
  have hge := h.1
  exact (Memory.disjoint_of_le (by omega) (by omega)).symm

/-- A change of memory that leaves SRAM above the bitmaps alone. -/
def KeepsSram (mem mem' : Memory 32) : Prop :=
  ∀ a : Word, sramBase.toNat ≤ a.toNat → mem' a = mem a

theorem HoldsTable.congr {env : Env} {mem mem' : Memory 32} {ff : Word}
    (h : HoldsTable env mem ff) (hsame : ∀ a, Memory.InRange ff sizeofFlashFuncs.toNat a →
      mem' a = mem a) : HoldsTable env mem' ff :=
  fun i hi => (hsame _ (Memory.inRange_add hi)).trans (h i hi)

/-! ## Tasks -/

section Tasks

variable (env : Env) {task : AsyncTask} {m : Machine} {installed : Option Word}

/-- `TableIntact` on a machine. -/
def Machine.TableIntact (m : Machine) (installed : Option Word) : Prop :=
  ∀ ff, m.flashFuncs = .ram ff → installed = some ff ∧ InSram ff ∧ HoldsTable env m.mem ff

/-- The stage leaves the table alone, and what was installed. -/
def TaskStep.KeepsTable (s : TaskStep) : Prop :=
  ∀ m installed, m.TableIntact env installed → (s m).1.TableIntact env installed

variable {env}

theorem TaskStep.KeepsTable.andThen {s s' : TaskStep} (hs : s.KeepsTable env)
    (hs' : s'.KeepsTable env) : (s.andThen s').KeepsTable env := by
  intro m installed h
  unfold TaskStep.andThen
  dsimp only
  split
  · exact hs' _ _ (hs m installed h)
  · exact hs m installed h

/-- A stage that changes neither memory nor `flash_funcs`. -/
theorem TaskStep.KeepsTable.of_keeps {s : TaskStep}
    (h : s.Keeps fun m => (m.mem, m.flashFuncs)) : s.KeepsTable env := by
  intro m installed hm ff hff
  obtain ⟨hmem, hfuncs⟩ := Prod.mk.inj (h m)
  rw [hfuncs] at hff
  rw [hmem]
  exact hm ff hff

theorem executeExclusive_keepsMem :
    (executeExclusive task).Keeps fun m => (m.mem, m.flashFuncs) := by
  intro m
  unfold executeExclusive
  split <;> rfl

theorem executeExclusive_keepsTable : (executeExclusive task).KeepsTable env :=
  .of_keeps executeExclusive_keepsMem

theorem executeExitXip_keepsMem :
    (executeExitXip env task).Keeps fun m => (m.mem, m.flashFuncs) := by
  intro m
  unfold executeExitXip
  split <;> rfl

theorem executeExitXip_keepsTable : (executeExitXip env task).KeepsTable env :=
  .of_keeps executeExitXip_keepsMem

theorem executeMutationSource_keepsMem :
    (executeMutationSource task).Keeps fun m => (m.mem, m.flashFuncs) := by
  intro m
  unfold executeMutationSource
  repeat' split
  all_goals rfl

theorem executeMutationSource_keepsTable : (executeMutationSource task).KeepsTable env :=
  .of_keeps executeMutationSource_keepsMem

theorem executeFlashErase_keepsMem :
    (executeFlashErase env task).Keeps fun m => (m.mem, m.flashFuncs) := by
  intro m
  unfold executeFlashErase
  repeat' split
  all_goals rfl

theorem executeFlashErase_keepsTable : (executeFlashErase env task).KeepsTable env :=
  .of_keeps executeFlashErase_keepsMem

theorem executeAddressCheck_keepsMem :
    (executeAddressCheck task).Keeps fun m => (m.mem, m.flashFuncs) := by
  intro m
  unfold executeAddressCheck
  repeat' split
  all_goals rfl

theorem executeAddressCheck_keepsTable : (executeAddressCheck task).KeepsTable env :=
  .of_keeps executeAddressCheck_keepsMem

theorem executeRead_keepsMem :
    (executeRead env task).Keeps fun m => (m.mem, m.flashFuncs) := by
  have hwrite (m : Machine) (ptr : DataPtr) (n : ℕ) (src : ℕ → Byte) :
      ((m.writeData ptr n src).mem, (m.writeData ptr n src).flashFuncs) =
        (m.mem, m.flashFuncs) := by
    cases ptr <;> rfl
  intro m
  unfold executeRead
  split
  · split
    · exact hwrite m _ _ _
    · exact hwrite { m with flash := _ } _ _ _
  · rfl

theorem executeRead_keepsTable : (executeRead env task).KeepsTable env :=
  .of_keeps executeRead_keepsMem

theorem executeEnterCmdXip_keepsMem :
    (executeEnterCmdXip env task).Keeps fun m => (m.mem, m.flashFuncs) := by
  intro m
  unfold executeEnterCmdXip
  split <;> rfl

theorem executeEnterCmdXip_keepsTable : (executeEnterCmdXip env task).KeepsTable env :=
  .of_keeps executeEnterCmdXip_keepsMem

/-- A range that does not wrap around and passes the test of a write does not touch the table. -/
theorem not_inRange_of_not_overlaps {ff a : Word} (hff : InSram ff)
    (hwrap : task.transferAddr.toNat + task.dataLength.toNat < 2 ^ 32)
    (hno : overlapsFlashFuncs ff task = false)
    (ha : Memory.InRange ff sizeofFlashFuncs.toNat a) :
    ¬Memory.InRange task.transferAddr task.dataLength.toNat a := by
  have hend : sramEnd.toNat = 0x20042000 := rfl
  have hle := hff.2
  rw [hff.inRange_iff] at ha
  rw [Memory.inRange_iff (Nat.le_of_lt hwrap)]
  have hlt : ff.toNat + sizeofFlashFuncs.toNat < 2 ^ 32 := by omega
  simp only [overlapsFlashFuncs, decide_eq_false_iff_not, BitVec.toNat_add, Nat.mod_eq_of_lt hwrap,
    Nat.mod_eq_of_lt hlt] at hno
  omega

/-- A write to RAM either leaves the table alone or reverts `flash_funcs` to the ROM. -/
theorem executeWrite_keepsTable (hwrap : task.has atWrite = true → task.directAccess = true →
    task.transferAddr.toNat + task.dataLength.toNat < 2 ^ 32) :
    (executeWrite env task).KeepsTable env := by
  intro m installed h
  unfold executeWrite
  split
  · next hwrite =>
    split
    · next hdirect =>
      intro ff hff
      dsimp only at hff ⊢
      have hbefore : m.flashFuncs = .ram ff ∧ overlapsFlashFuncs ff task = false := by
        unfold Machine.revertFlashFuncs at hff
        split at hff
        · next hrom =>
          rw [hrom] at hff
          cases hff
        · next ff' hram =>
          split at hff
          · cases hff
          · next hno =>
            rw [hram] at hff
            obtain rfl := FlashFuncsPtr.ram.inj hff
            exact ⟨hram, Bool.eq_false_iff.2 hno⟩
      obtain ⟨hinstalled, hsram, hholds⟩ := h ff hbefore.1
      refine ⟨hinstalled, hsram, hholds.congr fun a ha => ?_⟩
      have hmem : (m.revertFlashFuncs task).mem = m.mem := by
        unfold Machine.revertFlashFuncs
        split
        · rfl
        · split <;> rfl
      rw [Memory.copy_of_not_inRange
        (not_inRange_of_not_overlaps hsram (hwrap hwrite hdirect) hbefore.2 ha), hmem]
    · exact h
  · exact h

theorem executeTransfer_keepsTable (hwrap : task.has atWrite = true → task.directAccess = true →
    task.transferAddr.toNat + task.dataLength.toNat < 2 ^ 32) :
    (executeTransfer env task).KeepsTable env := by
  intro m installed h
  unfold executeTransfer
  split
  · exact (executeAddressCheck_keepsTable.andThen <| (executeWrite_keepsTable hwrap).andThen <|
      executeRead_keepsTable.andThen executeEnterCmdXip_keepsTable) m installed h
  · exact h

/-- A table that is installed is where the last one is looked for. -/
theorem executeVectorizeFlash_tableIntact (hrebooting : m.rebooting = false)
    (h : m.TableIntact env installed) :
    (executeVectorizeFlash env task m).1.TableIntact env
      (if installsTable task m then some task.transferAddr else installed) := by
  have hinstalls : installsTable task m = (task.has atVectorizeFlash &&
      task.transferAddr &&& 1 == 0 && isAddressSafeForVectoring task.transferAddr &&
        isAddressSafeForVectoring (task.transferAddr + sizeofFlashFuncs)) := by
    simp [installsTable, hrebooting]
  unfold executeVectorizeFlash
  by_cases hvectorize : task.has atVectorizeFlash = true
  · rw [if_pos hvectorize]
    rw [hvectorize, Bool.true_and] at hinstalls
    by_cases halign : task.transferAddr &&& 1 ≠ 0
    · rw [if_pos halign]
      rw [beq_eq_false_iff_ne.2 halign] at hinstalls
      rw [hinstalls]
      exact h
    · rw [if_neg halign]
      rw [beq_iff_eq.2 (not_not.1 halign), Bool.true_and] at hinstalls
      by_cases hsafe : (isAddressSafeForVectoring task.transferAddr &&
          isAddressSafeForVectoring (task.transferAddr + sizeofFlashFuncs)) = true
      · rw [if_pos hsafe, hinstalls, hsafe, if_pos rfl]
        rw [Bool.and_eq_true] at hsafe
        intro ff hff
        obtain rfl := FlashFuncsPtr.ram.inj hff
        refine ⟨rfl, .of_safe hsafe.1 hsafe.2, fun i hi => ?_⟩
        rw [sizeofFlashFuncs_toNat] at hi
        exact Memory.copy_add hi (by omega)
      · rw [if_neg hsafe, hinstalls, if_neg hsafe]
        exact h
  · rw [if_neg hvectorize]
    rw [Bool.not_eq_true] at hvectorize
    rw [hvectorize] at hinstalls
    rw [hinstalls]
    exact h

/-- A task without `AT_EXEC` leaves the table intact, unless it writes to RAM and its range wraps
around. -/
theorem executeTask_tableIntact (hexec : task.has atExec = false)
    (hwrap : task.has atWrite = true → task.directAccess = true →
      task.transferAddr.toNat + task.dataLength.toNat < 2 ^ 32)
    (h : m.TableIntact env installed) :
    (executeTask env task m).1.TableIntact env
      (if installsTable task m then some task.transferAddr else installed) := by
  unfold executeTask
  cases hrebooting : m.rebooting with
  | true =>
    have hno : installsTable task m = false := by simp [installsTable, hrebooting]
    rw [if_pos rfl, hno]
    exact h
  | false =>
    have hexecute : (executeExec env task).KeepsTable env :=
      .of_keeps fun m => by rw [executeExec_of_not env hexec]
    have hrest : ((executeExclusive task).andThen <| (executeExitXip env task).andThen <|
        (executeExec env task).andThen <| (executeMutationSource task).andThen <|
        (executeFlashErase env task).andThen <| executeTransfer env task).KeepsTable env :=
      executeExclusive_keepsTable.andThen <| executeExitXip_keepsTable.andThen <|
      hexecute.andThen <| executeMutationSource_keepsTable.andThen <|
      executeFlashErase_keepsTable.andThen (executeTransfer_keepsTable hwrap)
    have hfirst : (executeVectorizeFlash env task m).1.TableIntact env
        (if installsTable task m then some task.transferAddr else installed) :=
      executeVectorizeFlash_tableIntact hrebooting h
    rw [if_neg Bool.false_ne_true, TaskStep.andThen]
    split
    · exact hrest _ _ hfirst
    · exact hfirst

end Tasks

/-! ## Sectors -/

/-- The bitmaps of the transfer that is active are where `_update_current_uf2_info` puts them, and
its blocks fit. -/
def Uf2Info.WellPlaced (u : Uf2Info) : Prop :=
  u.numBlocks ≠ 0 → u.validBlocks = validBlocksPtr u.ram ∧ u.numBlocks.toNat ≤ capacity u.ram ∧
    (u.ram = false → u.clearedPages = .mem flashClearedPagesBase)

theorem KeepsSram.trans {mem mem' mem'' : Memory 32} (h : KeepsSram mem mem')
    (h' : KeepsSram mem' mem'') : KeepsSram mem mem'' :=
  fun a ha => (h' a ha).trans (h a ha)

theorem KeepsSram.refl (mem : Memory 32) : KeepsSram mem mem :=
  fun _ _ => rfl

/-- A fill that ends below SRAM. -/
theorem keepsSram_fill (mem : Memory 32) {base : Word} {n : ℕ}
    (hle : base.toNat + n ≤ sramBase.toNat) (b : Byte) : KeepsSram mem (mem.fill base n b) := by
  intro a ha
  have hbase : sramBase.toNat = 0x20000000 := rfl
  refine Memory.fill_of_not_inRange fun hin => ?_
  rw [Memory.inRange_iff (by omega)] at hin
  omega

/-- A bit in a byte below SRAM. -/
theorem keepsSram_setBit (mem : Memory 32) {base : Word} {i : ℕ}
    (hlt : (Memory.byteAddr base i).toNat < sramBase.toNat) :
    KeepsSram mem (mem.setBit base i) := by
  intro a ha
  refine Memory.setBit_of_ne (by decide) mem base fun heq => ?_
  rw [heq] at ha
  omega

/-- The memory with the bitmaps of a new transfer cleared. -/
theorem resetUf2Info_mem (uf2 : Uf2Block) (d : VirtualDisk) : (resetUf2Info uf2 d).mem =
    let mem := if uf2.ram then d.mem
      else d.mem.fill flashValidBlocksBase (flashMaxValidBlocks / 8).toNat 0
    if uf2.flash then mem.fill flashClearedPagesBase (flashMaxClearedPages / 8).toNat 0
    else mem := by
  unfold resetUf2Info
  cases uf2.ram <;> cases uf2.flash <;> rfl

theorem keepsSram_resetUf2Info (uf2 : Uf2Block) (d : VirtualDisk) :
    KeepsSram d.mem (resetUf2Info uf2 d).mem := by
  have hblocks : KeepsSram d.mem (if uf2.ram then d.mem
      else d.mem.fill flashValidBlocksBase (flashMaxValidBlocks / 8).toNat 0) := by
    split
    · exact .refl _
    · exact keepsSram_fill d.mem (by decide) 0
  rw [resetUf2Info_mem]
  dsimp only
  split
  · exact hblocks.trans (keepsSram_fill _ (by decide) 0)
  · exact hblocks

/-- What a sector leaves : SRAM as it was, and the bitmaps in their place. -/
structure SectorPlaced (d d' : VirtualDisk) : Prop where
  mem : KeepsSram d.mem d'.mem
  placed : d'.uf2Info.WellPlaced

theorem prepareUf2Task_placed (uf2 : Uf2Block) (token : Word) (type : Byte) {d : VirtualDisk}
    (h : d.uf2Info.WellPlaced) : SectorPlaced d (prepareUf2Task uf2 token type d).1 := by
  have hnone : Uf2Info.WellPlaced (invalidateUf2Info d).uf2Info := fun hne => absurd rfl hne
  unfold prepareUf2Task
  split
  · exact ⟨.refl _, hnone⟩
  · split
    · exact ⟨.refl _, h⟩
    · exact ⟨.refl _, hnone⟩

theorem updateCurrentUf2Info_placed (uf2 : Uf2Block) (token : Word) {d : VirtualDisk}
    (h : d.uf2Info.WellPlaced) : SectorPlaced d (updateCurrentUf2Info uf2 token d).1 := by
  unfold updateCurrentUf2Info
  by_cases hgarbage : uf2.garbage = true
  · rw [if_pos hgarbage]
    exact ⟨.refl _, fun hne => absurd rfl hne⟩
  by_cases hdisable : d.virtualDiskQueue.disable = true
  · rw [if_neg hgarbage, if_pos hdisable]
    exact ⟨.refl _, fun hne => absurd rfl hne⟩
  rw [if_neg hgarbage, if_neg hdisable]
  rw [Bool.not_eq_true] at hgarbage
  by_cases hopens : d.uf2Info.numBlocks ≠ uf2.numBlocks
  · rw [if_pos hopens]
    have hreset := keepsSram_resetUf2Info uf2 d
    by_cases hbig : (resetUf2Info uf2 d).uf2Info.maxValidBlocks < uf2.numBlocks
    · rw [if_pos hbig]
      exact ⟨hreset, fun hne => absurd (resetUf2Info_numBlocks uf2 d) hne⟩
    · rw [if_neg hbig]
      have hopen : (openTransfer uf2 d).uf2Info.WellPlaced := by
        intro _
        have hram : (openTransfer uf2 d).uf2Info.ram = uf2.ram := resetUf2Info_ram uf2 d
        rw [hram]
        refine ⟨resetUf2Info_validBlocks uf2 d, ?_, fun hflash =>
          resetUf2Info_clearedPages uf2 d (Uf2Block.flash_of_not_garbage hgarbage hflash)⟩
        rw [BitVec.lt_def, resetUf2Info_maxValidBlocks, Nat.not_lt] at hbig
        exact hbig
      have hprepare := prepareUf2Task_placed uf2 token
        (if uf2.flash then atWrite ||| atExitXip else atWrite) hopen
      exact ⟨hreset.trans hprepare.mem, hprepare.placed⟩
  · rw [if_neg hopens]
    exact prepareUf2Task_placed uf2 token atWrite h

/-- The block that is prepared has a number below that of the blocks. -/
theorem prepareUf2Task_blockNo {uf2 : Uf2Block} {token : Word} {type : Byte} {d : VirtualDisk}
    (hblocks : d.uf2Info.numBlocks = uf2.numBlocks)
    (h : (prepareUf2Task uf2 token type d).2 = true) :
    (prepareUf2Task uf2 token type d).1.uf2Info.blockNo <
      (prepareUf2Task uf2 token type d).1.uf2Info.numBlocks := by
  rcases prepareUf2Task_effect uf2 token type d with ⟨hno, -⟩ | ⟨-, hlt, -, task, -, heq⟩
  · rw [hno] at h
    cases h
  · rw [heq]
    dsimp only
    rwa [hblocks]

theorem updateCurrentUf2Info_blockNo {uf2 : Uf2Block} {token : Word} {d : VirtualDisk}
    (h : (updateCurrentUf2Info uf2 token d).2 = true) :
    (updateCurrentUf2Info uf2 token d).1.uf2Info.blockNo <
      (updateCurrentUf2Info uf2 token d).1.uf2Info.numBlocks := by
  unfold updateCurrentUf2Info at h ⊢
  by_cases hgarbage : uf2.garbage = true
  · simp [hgarbage] at h
  by_cases hdisable : d.virtualDiskQueue.disable = true
  · simp [hdisable, hgarbage] at h
  rw [if_neg hgarbage, if_neg hdisable] at h ⊢
  by_cases hopens : d.uf2Info.numBlocks ≠ uf2.numBlocks
  · rw [if_pos hopens] at h ⊢
    by_cases hbig : (resetUf2Info uf2 d).uf2Info.maxValidBlocks < uf2.numBlocks
    · simp [hbig] at h
    · simp only [if_neg hbig] at h ⊢
      exact prepareUf2Task_blockNo rfl h
  · rw [if_neg hopens] at h ⊢
    exact prepareUf2Task_blockNo (not_not.1 hopens) h

/-- Marking the page of a block. -/
theorem eraseOnFirstUse_placed {d : VirtualDisk} (h : d.uf2Info.WellPlaced)
    (hram : d.uf2Info.ram = false) (hlt : d.uf2Info.blockNo < d.uf2Info.numBlocks) :
    SectorPlaced d (eraseOnFirstUse d) := by
  have hne : d.uf2Info.numBlocks ≠ 0 := by
    intro hzero
    rw [hzero] at hlt
    exact absurd hlt BitVec.not_lt_zero
  obtain ⟨-, hfits, hpages⟩ := h hne
  have hnumber : d.uf2Info.blockNo.toNat < 123360 :=
    Nat.lt_of_lt_of_le (BitVec.lt_def.1 hlt) (Nat.le_trans hfits (capacity_le _))
  unfold eraseOnFirstUse
  dsimp only
  split
  · exact ⟨.refl _, h⟩
  · refine ⟨?_, fun hactive => h hactive⟩
    rw [hpages hram, pageNo_eq hnumber]
    refine keepsSram_setBit d.mem ?_
    rw [VirtualDisk.byteAddr_clearedPages_toNat (by omega)]
    change _ < 0x20000000
    omega

theorem eraseOnFirstUse_block (d : VirtualDisk) :
    (eraseOnFirstUse d).uf2Info.validBlocks = d.uf2Info.validBlocks ∧
      (eraseOnFirstUse d).uf2Info.blockNo = d.uf2Info.blockNo := by
  unfold eraseOnFirstUse
  dsimp only
  split
  · exact ⟨rfl, rfl⟩
  · exact ⟨rfl, rfl⟩

/-- Marking a block. -/
theorem keepsSram_setBitmap (d : VirtualDisk) (ram : Bool) {i : ℕ} (hi : i < 123360) :
    KeepsSram d.mem (d.setBitmap (validBlocksPtr ram) i).mem := by
  cases ram with
  | true => exact .refl _
  | false =>
    refine keepsSram_setBit d.mem ?_
    rw [VirtualDisk.byteAddr_validBlocks_toNat hi]
    change _ < 0x20000000
    omega

theorem writeUf2Page_placed {d : VirtualDisk} (h : d.uf2Info.WellPlaced)
    (hlt : d.uf2Info.blockNo < d.uf2Info.numBlocks) : SectorPlaced d (writeUf2Page d).1 := by
  have hne : d.uf2Info.numBlocks ≠ 0 := by
    intro hzero
    rw [hzero] at hlt
    exact absurd hlt BitVec.not_lt_zero
  obtain ⟨hblocks, hfits, -⟩ := h hne
  have hnumber : d.uf2Info.blockNo.toNat < 123360 :=
    Nat.lt_of_lt_of_le (BitVec.lt_def.1 hlt) (Nat.le_trans hfits (capacity_le _))
  -- the disk before the block is marked
  obtain ⟨c, hc, hplaced, hvalid, hblock⟩ : ∃ c : VirtualDisk,
      c = (if d.uf2Info.ram then
          { d with uf2Info := { d.uf2Info with
            lowestAddr := lowerAddr d.uf2Info.lowestAddr d.uf2Info.nextTask.transferAddr } }
        else eraseOnFirstUse { d with uf2Info := { d.uf2Info with
          lowestAddr := lowerAddr d.uf2Info.lowestAddr d.uf2Info.nextTask.transferAddr } }) ∧
      SectorPlaced d c ∧ c.uf2Info.validBlocks = d.uf2Info.validBlocks ∧
      c.uf2Info.blockNo = d.uf2Info.blockNo := by
    refine ⟨_, rfl, ?_⟩
    split
    · exact ⟨⟨.refl _, h⟩, rfl, rfl⟩
    · next hflash =>
      have herase := eraseOnFirstUse_placed (d := { d with uf2Info := { d.uf2Info with
        lowestAddr := lowerAddr d.uf2Info.lowestAddr d.uf2Info.nextTask.transferAddr } }) h
          (Bool.eq_false_iff.2 hflash) hlt
      exact ⟨⟨herase.mem, herase.placed⟩, eraseOnFirstUse_block _⟩
  unfold writeUf2Page
  dsimp only
  split
  · exact ⟨.refl _, h⟩
  · rw [← hc]
    have hmark := keepsSram_setBitmap { c with uf2Info := { c.uf2Info with
      validBlockCount := c.uf2Info.validBlockCount + 1 } } d.uf2Info.ram hnumber
    rw [← hblocks, ← hvalid, ← hblock] at hmark
    refine ⟨hplaced.mem.trans hmark, ?_⟩
    simp only [VirtualDisk.setBitmap_uf2Info]
    exact hplaced.placed

theorem receiveSector_placed (uf2 : Uf2Block) (token : Word) {d : VirtualDisk}
    (h : d.uf2Info.WellPlaced) : SectorPlaced d (receiveSector uf2 token d).1 := by
  unfold receiveSector vdWriteBlock
  split
  · have hfilled : SectorPlaced (d.filled uf2)
        (updateCurrentUf2Info uf2 token (d.filled uf2)).1 := updateCurrentUf2Info_placed uf2 token h
    have hupdate : SectorPlaced d (updateCurrentUf2Info uf2 token (d.filled uf2)).1 :=
      ⟨hfilled.mem, hfilled.placed⟩
    dsimp only
    split
    · next hok =>
      have hwrite := writeUf2Page_placed hupdate.placed (updateCurrentUf2Info_blockNo hok)
      exact ⟨hupdate.mem.trans hwrite.mem, hwrite.placed⟩
    · exact hupdate
  · exact ⟨.refl _, h⟩

/-! ## Runs -/

/-- A task without `AT_EXEC`, whose range does not wrap around if it writes and passes the check for
RAM. -/
def TableEvent.Unwrapped : TableEvent → Prop
  | .task t => t.has atExec = false ∧ (t.has atWrite = true → t.directAccess = true →
      t.transferAddr.toNat + t.dataLength.toNat < 2 ^ 32)
  | .sector _ _ => True

/-- The table is intact, and the bitmaps are in their place. -/
structure TableSafe (env : Env) (w : TableWorld) : Prop where
  table : w.disk.TableIntact env w.installed
  placed : w.disk.uf2Info.WellPlaced

theorem TableSafe.step {env : Env} {w : TableWorld} (h : TableSafe env w) (e : TableEvent)
    (he : e.Unwrapped) : TableSafe env (tableStep env w e) := by
  cases e with
  | task task => exact ⟨executeTask_tableIntact he.1 he.2 h.table, h.placed⟩
  | sector uf2 token =>
    have hsector := receiveSector_placed uf2 token h.placed
    have hfuncs : (receiveSector uf2 token w.disk).1.flashFuncs = w.disk.flashFuncs :=
      congrArg (fun p => p.2.2.2.1) (receiveSector_device uf2 token w.disk)
    refine ⟨fun ff hff => ?_, hsector.placed⟩
    obtain ⟨hinstalled, hsram, hholds⟩ := h.table ff (hfuncs.symm.trans hff)
    refine ⟨hinstalled, hsram, hholds.congr fun a ha => hsector.mem a ?_⟩
    rw [hsram.inRange_iff] at ha
    exact Nat.le_trans hsram.1 ha.1

/-- After every run of tasks without `AT_EXEC` and of sectors, `flash_funcs` points to the ROM, or
to the table that was installed last, in SRAM and away from the bitmaps, with its bytes as they were
copied, if the ranges of the tasks that write to RAM do not wrap around. -/
theorem flash_table_intact (env : Env) (d : VirtualDisk) (es : List TableEvent)
    (hrom : d.flashFuncs = .rom) (hidle : d.uf2Info.numBlocks = 0)
    (hes : ∀ e ∈ es, e.Unwrapped) :
    TableIntact env (Run.after (tableStep env) { disk := d } es) := by
  have hstart : TableSafe env { disk := d } := by
    refine ⟨fun ff hff => ?_, fun hne => absurd hidle hne⟩
    rw [hrom] at hff
    cases hff
  have hafter := (Run.always_of_forall_mem (P := fun _ e => TableEvent.Unwrapped e)
    (fun e he _ => hes e he) { disk := d }).invariant
      (I := TableSafe env) (fun w e he h => h.step e he) hstart
  intro ff hff
  obtain ⟨hinstalled, hsram, hholds⟩ := hafter.table ff hff
  exact ⟨hinstalled, hsram, hsram.disjoint, hholds⟩

/-- A task that puts the table at an address. -/
def vectorizeTask (addr : Word) : AsyncTask where
  type := atVectorizeFlash
  transferAddr := addr

/-- A task that writes to RAM. -/
def ramWriteTask (addr len : Word) : AsyncTask where
  type := atWrite
  transferAddr := addr
  dataLength := len
  data := .picobootBuffer

/-- `flash_table_intact`, for a page written next to the table. -/
theorem flash_table_intact_page :
    TableIntact bareEnv (Run.after (tableStep bareEnv) { disk := powerOn }
      [.task (vectorizeTask (sramBase + 4096)), .task (ramWriteTask sramBase 256)]) := by
  refine flash_table_intact bareEnv powerOn _ rfl rfl fun e he => ?_
  simp only [List.mem_cons, List.not_mem_nil, or_false] at he
  rcases he with rfl | rfl
  · exact ⟨rfl, fun h => absurd h (by decide)⟩
  · exact ⟨rfl, fun _ _ => by decide⟩

/-- A write that wraps around passes the test of its end, and the test of the table. -/
theorem wrapped_write_overwrites_table :
    ¬∀ (env : Env) (d : VirtualDisk) (es : List TableEvent), d.flashFuncs = .rom →
      d.uf2Info.numBlocks = 0 → (∀ t, TableEvent.task t ∈ es → t.has atExec = false) →
      TableIntact env (Run.after (tableStep env) { disk := d } es) := by
  intro h
  have htable := h bareEnv { powerOn with picobootBuffer := fun _ => 0xff }
    [.task (vectorizeTask (sramBase + 4096)), .task (ramWriteTask sramBase 0xf5000000)] rfl rfl
    (fun t ht => by
      simp only [List.mem_cons, List.not_mem_nil, or_false] at ht
      rcases ht with heq | heq
      · obtain rfl := TableEvent.task.inj heq
        rfl
      · obtain rfl := TableEvent.task.inj heq
        rfl)
  obtain ⟨-, -, -, hholds⟩ := htable (sramBase + 4096) (by decide +kernel)
  exact absurd (hholds 0 (by decide)) (by decide +kernel)

end PicoBootrom
