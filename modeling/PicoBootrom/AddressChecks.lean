import PicoBootrom.FlashErase
import PicoBootrom.Delivery

/-!
# The address checks of `_execute_task`

A range is checked by its start and by the address one past it, against windows that include
both of their ends. For a range of 1 to 256 bytes this decides whether the range is in one window
(`ram_ends_iff`, `flash_ends_iff`, `rom_ends_iff`), but the window of the ROM ends at 8 KiB, where
`bootrom.ld` has 16 KiB. So a read of the upper half of the ROM is refused, and all other chunks of
PICOBOOT transfers are accessed as they should be (`chunk_access_iff`).

`_update_current_uf2_info` tests the last byte of a block instead of the address one past it. The
page that ends one byte past the end of SRAM passes this test, and its task is refused
(`page_accepted_iff`).
-/

namespace PicoBootrom

/-! ## Ranges and windows -/

/-- The `n` bytes at `a` are below `hi` and not below `lo`. -/
def InWindow (lo hi : ℕ) (a n : Word) : Prop :=
  lo ≤ a.toNat ∧ a.toNat + n.toNat ≤ hi

instance (lo hi : ℕ) (a n : Word) : Decidable (InWindow lo hi a n) :=
  inferInstanceAs (Decidable (_ ∧ _))

/-- The bytes are in SRAM or in XIP SRAM. -/
def InRam (a n : Word) : Prop :=
  InWindow sramBase.toNat sramEnd.toNat a n ∨ InWindow xipSramBase.toNat xipSramEnd.toNat a n

/-- The bytes are in the ROM of `bootrom.ld`, of 16 KiB. -/
def InRom (a n : Word) : Prop :=
  InWindow 0 0x4000 a n

/-- The bytes are in the flash window. -/
def InFlash (a n : Word) : Prop :=
  InWindow xipMainBase.toNat sramBase.toNat a n

instance (a n : Word) : Decidable (InRam a n) :=
  inferInstanceAs (Decidable (_ ∨ _))

instance (a n : Word) : Decidable (InRom a n) :=
  inferInstanceAs (Decidable (InWindow _ _ _ _))

instance (a n : Word) : Decidable (InFlash a n) :=
  inferInstanceAs (Decidable (InWindow _ _ _ _))

section Ends

variable {a n : Word}

theorem toNat_add_of_le (ha : a.toNat ≤ 0x20042000) (hn : n.toNat ≤ 256) :
    (a + n).toNat = a.toNat + n.toNat := by
  rw [BitVec.toNat_add, Nat.mod_eq_of_lt (by omega)]

theorem ram_ends_iff (hn : n.toNat ≤ 256) :
    (isAddressRam a && isAddressRam (a + n)) = true ↔ InRam a n := by
  rw [Bool.and_eq_true, isAddressRam_iff, isAddressRam_iff]
  have hram : InRam a n ↔ (0x20000000 ≤ a.toNat ∧ a.toNat + n.toNat ≤ 0x20042000) ∨
      (0x15000000 ≤ a.toNat ∧ a.toNat + n.toNat ≤ 0x15004000) := Iff.rfl
  rw [hram]
  by_cases ha : a.toNat ≤ 0x20042000
  · rw [toNat_add_of_le ha hn]
    omega
  · omega

theorem flash_ends_iff (hn : n.toNat ≤ 256) :
    (isAddressFlash a && isAddressFlash (a + n)) = true ↔ InFlash a n := by
  rw [Bool.and_eq_true, isAddressFlash_iff, isAddressFlash_iff]
  have hflash : InFlash a n ↔ 0x10000000 ≤ a.toNat ∧ a.toNat + n.toNat ≤ 0x20000000 := Iff.rfl
  rw [hflash]
  by_cases ha : a.toNat ≤ 0x20042000
  · rw [toNat_add_of_le ha hn]
    omega
  · omega

theorem rom_ends_iff (hn : n.toNat ≤ 256) :
    (isAddressRom a && isAddressRom (a + n)) = true ↔ a.toNat + n.toNat < 0x2000 := by
  rw [Bool.and_eq_true, isAddressRom_iff, isAddressRom_iff]
  by_cases ha : a.toNat ≤ 0x20042000
  · rw [toNat_add_of_le ha hn]
    omega
  · omega

end Ends

/-! ## Chunks -/

/-- A task for a chunk of a PICOBOOT transfer, which is a write or a read. -/
structure IsChunkTask (task : AsyncTask) (writes : Bool) : Prop where
  type : task.type = if writes then atWrite else atRead
  pos : 0 < task.dataLength.toNat
  le : task.dataLength.toNat ≤ 256

/-- The task is not refused before its addresses are looked at, with `PICOBOOT_REBOOTING` or
`PICOBOOT_INTERLEAVED_WRITE`. -/
def ReachesAddressCheck (task : AsyncTask) (writes : Bool) (m : Machine) : Prop :=
  m.rebooting = false ∧ (writes = true → task.checkLastMutationSource = true →
    m.lastMutationSource = task.source)

instance (task : AsyncTask) (writes : Bool) (m : Machine) :
    Decidable (ReachesAddressCheck task writes m) :=
  inferInstanceAs (Decidable (_ ∧ _))

/-- The chunk is in a region that the CPU reads, or writes, by itself. -/
def DirectRange (writes : Bool) (a n : Word) : Prop :=
  InRam a n ∨ writes = false ∧ InRom a n

instance (writes : Bool) (a n : Word) : Decidable (DirectRange writes a n) :=
  inferInstanceAs (Decidable (_ ∨ _))

/-- The chunk is in the flash window and starts a page. -/
def PageRange (a n : Word) : Prop :=
  InFlash a n ∧ a.toNat % 256 = 0

/-- The machine and the status after the chunk was accessed in memory. -/
def AccessedDirectly (task : AsyncTask) (writes : Bool) (m : Machine) (r : Machine × Word) :
    Prop :=
  if writes then
    r.2 = picobootOk ∧ r.1.flash = m.flash ∧
      r.1.mem = m.mem.copy task.transferAddr task.dataLength.toNat (m.readData task.data)
  else
    r = (m.writeData task.data task.dataLength.toNat fun i =>
      m.mem (task.transferAddr + BitVec.ofNat 32 i), picobootOk)

/-- The machine and the status after the chunk was accessed by the flash functions. -/
def AccessedByFlashFuncs (env : Env) (task : AsyncTask) (writes : Bool) (m : Machine)
    (r : Machine × Word) : Prop :=
  if writes then
    r.1.mem = m.mem ∧ (r.1.flash, r.2) =
      (m.funcs env).doFlashPageProgram task.transferAddr (m.readData task.data) m.flash
  else
    r = (Machine.writeData
        { m with flash := ((m.funcs env).doFlashPageRead task.transferAddr m.flash).1 }
        task.data flashPageSize.toNat
        ((m.funcs env).doFlashPageRead task.transferAddr m.flash).2.1,
      ((m.funcs env).doFlashPageRead task.transferAddr m.flash).2.2)

/-- The status is one of the address checks. -/
def IsAddressError (status : Word) : Prop :=
  status = picobootBadAlignment ∨ status = picobootInvalidAddress

instance (status : Word) : Decidable (IsAddressError status) :=
  inferInstanceAs (Decidable (_ ∨ _))

/-- The chunk is accessed where its range says, or is refused and changes nothing. -/
structure ChunkAccess (task : AsyncTask) (writes : Bool) (env : Env) (m : Machine) : Prop where
  direct (h : DirectRange writes task.transferAddr task.dataLength) :
    AccessedDirectly task writes m (executeTask env task m)
  flash (h : ¬DirectRange writes task.transferAddr task.dataLength)
      (h' : PageRange task.transferAddr task.dataLength) :
    AccessedByFlashFuncs env task writes m (executeTask env task m)
  refused (h : ¬DirectRange writes task.transferAddr task.dataLength)
      (h' : ¬PageRange task.transferAddr task.dataLength) :
    IsAddressError (executeTask env task m).2 ∧ (executeTask env task m).1.mem = m.mem ∧
      (executeTask env task m).1.flash = m.flash

section Chunk

variable {task : AsyncTask} {writes : Bool} {m : Machine}

theorem IsChunkTask.has_atWrite (h : IsChunkTask task writes) : task.has atWrite = writes := by
  rw [AsyncTask.has, h.type]
  cases writes <;> rfl

theorem IsChunkTask.has_atRead (h : IsChunkTask task false) : task.has atRead = true := by
  rw [AsyncTask.has, h.type]
  rfl

/-- The ranges that the code accesses directly. -/
theorem IsChunkTask.directAccess_iff (h : IsChunkTask task writes) :
    task.directAccess = true ↔ InRam task.transferAddr task.dataLength ∨
      writes = false ∧ task.transferAddr.toNat + task.dataLength.toNat < 0x2000 := by
  rw [AsyncTask.directAccess, h.has_atWrite, Bool.or_eq_true, ram_ends_iff h.le, Bool.and_assoc,
    Bool.and_eq_true, rom_ends_iff h.le, Bool.not_eq_true']

/-- What `executeAddressCheck` decides. -/
theorem IsChunkTask.addressCheck (h : IsChunkTask task writes) :
    executeAddressCheck task m =
      if task.directAccess then (m, 0)
      else if InFlash task.transferAddr task.dataLength then
        if task.transferAddr.toNat % 256 = 0 then (m, 0) else (m, picobootBadAlignment)
      else (m, picobootInvalidAddress) := by
  have halign : task.transferAddr &&& (flashPageSize - 1) = 0 ↔
      task.transferAddr.toNat % 256 = 0 := and_pageMask_eq_zero _
  unfold executeAddressCheck
  simp only [flash_ends_iff h.le, ne_eq, ite_not, halign]

/-- What is done with a chunk once its source was checked. -/
def accessChunk (env : Env) (task : AsyncTask) (writes : Bool) : TaskStep :=
  (executeAddressCheck task).andThen
    (if writes then executeWrite env task else executeRead env task)

/-- A chunk that is not refused before its addresses are looked at. -/
theorem IsChunkTask.executeTask_eq (h : IsChunkTask task writes) (env : Env)
    (hreach : ReachesAddressCheck task writes m) :
    executeTask env task m = accessChunk env task writes
      (if writes then { m with lastMutationSource := task.source } else m) := by
  cases writes with
  | false =>
    rw [executeTask_eq_stage env .read h.type hreach.1]
    rfl
  | true =>
    have hmutates : task.mutates = true := by
      rw [AsyncTask.mutates, AsyncTask.has, h.type]
      rfl
    rw [executeTask_eq_stage env .write h.type hreach.1, PicobootAct.stage,
      TaskStep.andThen_of_ok (executeMutationSource_of_same hmutates (hreach.2 rfl))]
    rfl

/-- A chunk that the code accesses directly. -/
theorem IsChunkTask.accessedDirectly (h : IsChunkTask task writes) (env : Env)
    (hreach : ReachesAddressCheck task writes m) (hdirect : task.directAccess = true) :
    AccessedDirectly task writes m (executeTask env task m) := by
  rw [h.executeTask_eq env hreach, accessChunk,
    TaskStep.andThen_of_ok (by rw [h.addressCheck, if_pos hdirect])]
  cases writes with
  | false =>
    rw [AccessedDirectly, if_neg Bool.false_ne_true, if_neg Bool.false_ne_true,
      if_neg Bool.false_ne_true, executeRead, if_pos h.has_atRead, if_pos hdirect]
    rfl
  | true =>
    rw [AccessedDirectly, if_pos rfl, if_pos rfl, if_pos rfl, executeWrite, if_pos h.has_atWrite,
      if_pos hdirect, Machine.revertFlashFuncs_eq]
    refine ⟨rfl, rfl, ?_⟩
    cases task.data <;> rfl

/-- A chunk that the code leaves to the flash functions. -/
theorem IsChunkTask.accessedByFlashFuncs (h : IsChunkTask task writes) (env : Env)
    (hreach : ReachesAddressCheck task writes m) (hdirect : ¬task.directAccess = true)
    (hpage : PageRange task.transferAddr task.dataLength) :
    AccessedByFlashFuncs env task writes m (executeTask env task m) := by
  rw [h.executeTask_eq env hreach, accessChunk, TaskStep.andThen_of_ok (by
    rw [h.addressCheck, if_neg hdirect, if_pos hpage.1, if_pos hpage.2])]
  cases writes with
  | false =>
    rw [AccessedByFlashFuncs, if_neg Bool.false_ne_true, if_neg Bool.false_ne_true,
      if_neg Bool.false_ne_true, executeRead, if_pos h.has_atRead, if_neg hdirect]
  | true =>
    rw [AccessedByFlashFuncs, if_pos rfl, if_pos rfl, if_pos rfl, executeWrite,
      if_pos h.has_atWrite, if_neg hdirect]
    refine ⟨rfl, ?_⟩
    cases task.data <;> rfl

/-- A chunk that the code refuses. -/
theorem IsChunkTask.refused (h : IsChunkTask task writes) (env : Env)
    (hreach : ReachesAddressCheck task writes m) (hdirect : ¬task.directAccess = true)
    (hpage : ¬PageRange task.transferAddr task.dataLength) :
    IsAddressError (executeTask env task m).2 ∧ (executeTask env task m).1.mem = m.mem ∧
      (executeTask env task m).1.flash = m.flash := by
  have hsame : (if writes then { m with lastMutationSource := task.source } else m).mem = m.mem ∧
      (if writes then { m with lastMutationSource := task.source } else m).flash = m.flash := by
    cases writes <;> exact ⟨rfl, rfl⟩
  rw [h.executeTask_eq env hreach, accessChunk]
  by_cases hflash : InFlash task.transferAddr task.dataLength
  · have halign : ¬task.transferAddr.toNat % 256 = 0 := fun h' => hpage ⟨hflash, h'⟩
    rw [TaskStep.andThen_of_error (by
      rw [h.addressCheck, if_neg hdirect, if_pos hflash, if_neg halign]) (by decide)]
    exact ⟨.inl rfl, hsame⟩
  · rw [TaskStep.andThen_of_error (by rw [h.addressCheck, if_neg hdirect, if_neg hflash])
      (by decide)]
    exact ⟨.inr rfl, hsame⟩

/-- A chunk of a PICOBOOT transfer that is not refused before its addresses are looked at is
accessed exactly when its range is in one region, if and only if it is not a read whose range ends
in the upper half of the ROM. -/
theorem chunk_access_iff (h : IsChunkTask task writes) (env : Env) (m : Machine) :
    (ReachesAddressCheck task writes m → ChunkAccess task writes env m) ↔
      ¬(ReachesAddressCheck task writes m ∧ writes = false ∧
        0x2000 ≤ task.transferAddr.toNat + task.dataLength.toNat ∧
        task.transferAddr.toNat + task.dataLength.toNat ≤ 0x4000) := by
  have hdirect := h.directAccess_iff
  constructor
  · rintro haccess ⟨hreach, rfl, hlow, hhigh⟩
    have hrange : DirectRange false task.transferAddr task.dataLength :=
      .inr ⟨rfl, Nat.zero_le _, hhigh⟩
    have hnot : ¬task.directAccess = true := by
      rw [hdirect]
      rintro ((h' | h') | h')
      · exact absurd (Nat.le_trans (Nat.le_trans h'.1 (Nat.le_add_right _ _)) hhigh) (by decide)
      · exact absurd (Nat.le_trans (Nat.le_trans h'.1 (Nat.le_add_right _ _)) hhigh) (by decide)
      · exact absurd h'.2 (Nat.not_lt.2 hlow)
    have hpage : ¬PageRange task.transferAddr task.dataLength := fun hp =>
      absurd (Nat.le_trans (Nat.le_trans hp.1.1 (Nat.le_add_right _ _)) hhigh) (by decide)
    have hstatus := (h.refused env hreach hnot hpage).1
    have hread := (haccess hreach).direct hrange
    rw [AccessedDirectly, if_neg Bool.false_ne_true] at hread
    rw [hread] at hstatus
    exact absurd hstatus (by decide : ¬IsAddressError picobootOk)
  · intro hcond hreach
    have hiff : task.directAccess = true ↔
        DirectRange writes task.transferAddr task.dataLength := by
      rw [hdirect]
      refine or_congr_right (and_congr_right fun hreads => ?_)
      have hrom : InRom task.transferAddr task.dataLength ↔
          task.transferAddr.toNat + task.dataLength.toNat ≤ 0x4000 :=
        and_iff_right (Nat.zero_le _)
      rw [hrom]
      refine ⟨fun hlow => by omega, fun hhigh => ?_⟩
      by_contra hlow
      exact hcond ⟨hreach, hreads, by omega, hhigh⟩
    exact {
      direct := fun hrange => h.accessedDirectly env hreach (hiff.2 hrange)
      flash := fun hrange => h.accessedByFlashFuncs env hreach fun hd => hrange (hiff.1 hd)
      refused := fun hrange => h.refused env hreach fun hd => hrange (hiff.1 hd) }

end Chunk

/-- A task that reads a chunk. -/
def readChunkTask (addr len : Word) : AsyncTask where
  transferAddr := addr
  dataLength := len
  data := .picobootBuffer
  type := atRead
  source := .picoboot

theorem readChunkTask_isChunkTask {addr len : Word} (hpos : 0 < len.toNat)
    (hle : len.toNat ≤ 256) : IsChunkTask (readChunkTask addr len) false where
  type := rfl
  pos := hpos
  le := hle

/-- `chunk_access_iff`, for the first page of the ROM. -/
theorem chunk_access_iff_rom_page :
    ReachesAddressCheck (readChunkTask 0 256) false powerOn.toMachine ∧
      ChunkAccess (readChunkTask 0 256) false bareEnv powerOn.toMachine :=
  have hreach : ReachesAddressCheck (readChunkTask 0 256) false powerOn.toMachine := by decide
  ⟨hreach, (chunk_access_iff (readChunkTask_isChunkTask (by decide) (by decide)) bareEnv
    powerOn.toMachine).2 (by decide) hreach⟩

/-- A read of the first page of the upper half of the ROM is refused. -/
theorem upper_rom_not_read :
    DirectRange false 0x2000 256 ∧
      executeTask bareEnv (readChunkTask 0x2000 256) powerOn.toMachine =
        (powerOn.toMachine, picobootInvalidAddress) ∧
      ¬ChunkAccess (readChunkTask 0x2000 256) false bareEnv powerOn.toMachine := by
  have hrange : DirectRange false 0x2000 256 := by decide
  have hrun : executeTask bareEnv (readChunkTask 0x2000 256) powerOn.toMachine =
      (powerOn.toMachine, picobootInvalidAddress) := rfl
  refine ⟨hrange, hrun, fun haccess => ?_⟩
  have hread : (executeTask bareEnv (readChunkTask 0x2000 256) powerOn.toMachine).2 =
      picobootOk := congrArg Prod.snd (haccess.direct hrange)
  rw [hrun] at hread
  exact absurd hread (by decide)

/-! ## Pages of UF2 blocks -/

section Page

variable {uf2 : Uf2Block} {token : Word} {d d₁ d₂ : VirtualDisk}

/-- `_update_current_uf2_info` accepts blocks that are not garbage, and prepares their task. -/
theorem updateCurrentUf2Info_eq_true (h : updateCurrentUf2Info uf2 token d = (d₁, true)) :
    uf2.garbage = false ∧ d₁.uf2Info.ram = uf2.ram ∧
      ∃ opens, d₁.uf2Info.nextTask = pageTask uf2 token opens false := by
  have hprepare (opens : Bool) {c : VirtualDisk} (hc : prepareUf2Task uf2 token
      (if opens && uf2.flash then atWrite ||| atExitXip else atWrite) c = (d₁, true)) :
      d₁.uf2Info.ram = uf2.ram ∧ d₁.uf2Info.nextTask = pageTask uf2 token opens false := by
    by_cases hcond : uf2.ram = c.uf2Info.ram ∧ uf2.blockNo < uf2.numBlocks
    · rw [prepareUf2Task_of_lt hcond.1 hcond.2] at hc
      obtain ⟨rfl, -⟩ := Prod.mk.inj hc
      exact ⟨hcond.1.symm, rfl⟩
    · rw [prepareUf2Task_of_not hcond] at hc
      exact absurd (Prod.mk.inj hc).2 Bool.false_ne_true
  unfold updateCurrentUf2Info at h
  cases hgarbage : uf2.garbage with
  | true =>
    rw [hgarbage, if_pos rfl] at h
    exact absurd (Prod.mk.inj h).2 Bool.false_ne_true
  | false =>
    rw [hgarbage, if_neg Bool.false_ne_true] at h
    by_cases hdisable : d.virtualDiskQueue.disable = true
    · rw [if_pos hdisable] at h
      exact absurd (Prod.mk.inj h).2 Bool.false_ne_true
    · rw [if_neg hdisable] at h
      by_cases hopens : d.uf2Info.numBlocks ≠ uf2.numBlocks
      · rw [if_pos hopens] at h
        dsimp only at h
        by_cases hbig : (resetUf2Info uf2 d).uf2Info.maxValidBlocks < uf2.numBlocks
        · rw [if_pos hbig] at h
          exact absurd (Prod.mk.inj h).2 Bool.false_ne_true
        · rw [if_neg hbig] at h
          have hprepared := hprepare true h
          exact ⟨rfl, hprepared.1, true, hprepared.2⟩
      · rw [if_neg hopens] at h
        have hprepared := hprepare false h
        exact ⟨rfl, hprepared.1, false, hprepared.2⟩

/-- The first block of a sector of flash also erases. -/
theorem nextTask_of_erase {opens : Bool} (hram : d.uf2Info.ram = uf2.ram)
    (htask : d.uf2Info.nextTask = pageTask uf2 token opens false) :
    ∃ erases, (if d.uf2Info.ram then d else eraseOnFirstUse d).uf2Info.nextTask =
      pageTask uf2 token opens erases ∧ (erases = true → uf2.ram = false) := by
  cases hram' : uf2.ram with
  | true =>
    rw [if_pos (hram.trans hram')]
    exact ⟨false, htask, fun h => absurd h Bool.false_ne_true⟩
  | false =>
    rw [if_neg (by rw [hram, hram']; exact Bool.false_ne_true), eraseOnFirstUse]
    dsimp only
    split
    · exact ⟨false, htask, fun _ => rfl⟩
    · refine ⟨true, ?_, fun _ => rfl⟩
      dsimp only
      rw [htask]
      rfl

/-- The task that `_write_uf2_page` queues for an accepted block. -/
theorem queued_pageTask (h : updateCurrentUf2Info uf2 token d = (d₁, true))
    (hqueue : writeUf2Page d₁ = (d₂, true)) :
    ∃ opens erases, d₂.virtualDiskQueue.task = pageTask uf2 token opens erases ∧
      (erases = true → uf2.ram = false) := by
  obtain ⟨-, hram, opens, htask⟩ := updateCurrentUf2Info_eq_true h
  unfold writeUf2Page at hqueue
  split at hqueue
  · exact absurd (Prod.mk.inj hqueue).2 Bool.false_ne_true
  · obtain ⟨erases, herases, honly⟩ := nextTask_of_erase (d := { d₁ with uf2Info :=
      { d₁.uf2Info with
        lowestAddr := lowerAddr d₁.uf2Info.lowestAddr d₁.uf2Info.nextTask.transferAddr } })
      hram htask
    refine ⟨opens, erases, ?_, honly⟩
    rw [← (Prod.mk.inj hqueue).1]
    simp only [VirtualDisk.setBitmap_uf2Info, queueTask]
    exact congrArg (fun task : AsyncTask => { task with callback := .writeUf2PageComplete })
      herases

/-- The functions that a page task calls do not return the statuses of the address checks by
themselves. -/
structure FlashFuncs.NoAddressError (funcs : FlashFuncs) : Prop where
  exitXip : ∀ d, ¬IsAddressError (funcs.doFlashExitXip d).2
  eraseRange : ∀ addr size d, ¬IsAddressError (funcs.doFlashEraseRange addr size d).2
  pageProgram : ∀ addr data d, ¬IsAddressError (funcs.doFlashPageProgram addr data d).2

/-- The task of a block passes all address checks, and goes to RAM if the block is for RAM. -/
def PageAccepted (uf2 : Uf2Block) (task : AsyncTask) : Prop :=
  (∀ env m, (m.funcs env).NoAddressError → ¬IsAddressError (executeTask env task m).2) ∧
    (task.directAccess = true ↔ uf2.ram = true)

/-- The page that ends one byte past the end of SRAM. -/
def pastSramEnd : Word := sramEnd - flashPageMask

theorem pastSramEnd_toNat : pastSramEnd.toNat = 0x20041f01 := by
  decide

theorem not_isAddressError_ok : ¬IsAddressError 0 := by
  decide

theorem uf2_ram_iff : uf2.ram = true ↔ InRam uf2.targetAddr flashPageMask :=
  ram_ends_iff (by decide)

theorem uf2_flash_iff : uf2.flash = true ↔ InFlash uf2.targetAddr flashPageMask :=
  flash_ends_iff (by decide)

/-- The windows that the page of a block may be in. -/
theorem page_window (hgarbage : uf2.garbage = false) (hne : uf2.targetAddr ≠ pastSramEnd) :
    (uf2.ram = true ↔ InRam uf2.targetAddr flashPageSize) ∧
      (uf2.ram = false → InFlash uf2.targetAddr flashPageSize ∧
        uf2.targetAddr.toNat % 256 = 0) := by
  have hne' : uf2.targetAddr.toNat ≠ 0x20041f01 := fun h =>
    hne (BitVec.eq_of_toNat_eq (h.trans pastSramEnd_toNat.symm))
  have halign : uf2.flash = true → uf2.targetAddr.toNat % 256 = 0 := by
    intro hflash
    rw [Uf2Block.garbage, hflash, Bool.or_eq_false_iff, Bool.true_and] at hgarbage
    exact (and_pageMask_eq_zero _).1 (by simpa using hgarbage.2)
  rw [uf2_flash_iff] at halign
  simp only [InFlash, InWindow, show flashPageMask.toNat = 255 from rfl,
    show xipMainBase.toNat = 0x10000000 from rfl, show sramBase.toNat = 0x20000000 from rfl]
    at halign
  constructor
  · rw [uf2_ram_iff]
    simp only [InRam, InWindow, show flashPageMask.toNat = 255 from rfl,
      show flashPageSize.toNat = 256 from rfl, show sramBase.toNat = 0x20000000 from rfl,
      show sramEnd.toNat = 0x20042000 from rfl, show xipSramBase.toNat = 0x15000000 from rfl,
      show xipSramEnd.toNat = 0x15004000 from rfl]
    omega
  · intro hram
    have hflash := uf2_flash_iff.1 (Uf2Block.flash_of_not_garbage hgarbage hram)
    simp only [InFlash, InWindow, show flashPageMask.toNat = 255 from rfl,
      show flashPageSize.toNat = 256 from rfl, show xipMainBase.toNat = 0x10000000 from rfl,
      show sramBase.toNat = 0x20000000 from rfl] at hflash ⊢
    omega

/-- The sector of a page of flash passes the checks of an erase. -/
theorem eraseAccepted_sectorOf {a : Word} (h : InFlash a flashPageSize) :
    EraseAccepted (sectorOf a) flashSectorEraseSize := by
  simp only [InFlash, InWindow, show flashPageSize.toNat = 256 from rfl,
    show xipMainBase.toNat = 0x10000000 from rfl, show sramBase.toNat = 0x20000000 from rfl] at h
  have hsector := sectorOf_toNat a
  have hsize : flashSectorEraseSize.toNat = 4096 := rfl
  refine ⟨by omega, rfl, ?_, ?_⟩
  · rw [isAddressFlash_iff]
    omega
  · rw [isAddressFlash_iff, BitVec.toNat_add, hsize, Nat.mod_eq_of_lt (by omega)]
    omega

/-- On good flash functions the stage passes its address checks, and leaves them good. -/
def TaskStep.Passes (env : Env) (s : TaskStep) : Prop :=
  ∀ m, (m.funcs env).NoAddressError →
    ¬IsAddressError (s m).2 ∧ ((s m).1.funcs env).NoAddressError

theorem TaskStep.Passes.andThen {env : Env} {s s' : TaskStep} (hs : s.Passes env)
    (hs' : ∀ m, (m.funcs env).NoAddressError → ¬IsAddressError (s' m).2) (m : Machine)
    (hm : (m.funcs env).NoAddressError) : ¬IsAddressError ((s.andThen s') m).2 := by
  unfold TaskStep.andThen
  dsimp only
  split
  · exact hs' _ (hs m hm).2
  · exact (hs m hm).1

theorem TaskStep.passes_of_skip (env : Env) {s : TaskStep} (h : ∀ m, s m = (m, 0)) :
    s.Passes env := by
  intro m hm
  rw [h]
  exact ⟨not_isAddressError_ok, hm⟩

theorem executeExitXip_passes (env : Env) (task : AsyncTask) :
    (executeExitXip env task).Passes env := by
  intro m hm
  unfold executeExitXip
  split
  · exact ⟨hm.exitXip _, hm⟩
  · exact ⟨not_isAddressError_ok, hm⟩

theorem executeMutationSource_passes (env : Env) (task : AsyncTask) :
    (executeMutationSource task).Passes env := by
  intro m hm
  unfold executeMutationSource
  split
  · split
    · exact ⟨(by decide : ¬IsAddressError picobootInterleavedWrite), hm⟩
    · exact ⟨not_isAddressError_ok, hm⟩
  · exact ⟨not_isAddressError_ok, hm⟩

/-- The erase of a task whose range is accepted. -/
theorem executeFlashErase_passes (env : Env) {task : AsyncTask}
    (h : task.has atFlashErase = true → EraseAccepted task.eraseAddr task.eraseSize) :
    (executeFlashErase env task).Passes env := by
  intro m hm
  rcases executeFlashErase_cases env task m with
    ⟨-, -, heq⟩ | ⟨herase, hrejected, -⟩ | ⟨-, heq⟩
  · rw [heq]
    exact ⟨hm.eraseRange _ _ _, hm⟩
  · exact absurd (h herase) hrejected
  · rw [heq]
    exact ⟨not_isAddressError_ok, hm⟩

/-- The write of a task whose page is in RAM or in flash. -/
theorem executeTransfer_passes (env : Env) {task : AsyncTask} (hread : task.has atRead = false)
    (henter : task.has atEnterCmdXip = false)
    (h : ∀ m, executeAddressCheck task m = (m, 0)) (m : Machine)
    (hm : (m.funcs env).NoAddressError) : ¬IsAddressError (executeTransfer env task m).2 := by
  unfold executeTransfer
  split
  · rw [TaskStep.andThen_of_skip h, TaskStep.andThen_of_skip (executeRead_of_not env hread),
      TaskStep.andThen_skip _ (executeEnterCmdXip_of_not env henter), executeWrite]
    split
    · split
      · exact not_isAddressError_ok
      · exact hm.pageProgram _ _ _
    · exact not_isAddressError_ok
  · exact not_isAddressError_ok

/-- The bits of the type of a page task. -/
theorem pageTask_bits (uf2 : Uf2Block) (token : Word) (opens erases : Bool) :
    let task := pageTask uf2 token opens erases
    task.has atVectorizeFlash = false ∧ task.has atExclusive = false ∧
      task.has atExec = false ∧ task.has atFlashErase = erases ∧ task.has atWrite = true ∧
      task.has atRead = false ∧ task.has atEnterCmdXip = false := by
  simp only [AsyncTask.has, pageTask]
  cases opens && uf2.flash <;> cases erases <;> decide

theorem pageTask_directAccess (opens erases : Bool) :
    (pageTask uf2 token opens erases).directAccess = true ↔
      InRam uf2.targetAddr flashPageSize := by
  have hwrite := (pageTask_bits uf2 token opens erases).2.2.2.2.1
  rw [AsyncTask.directAccess, hwrite, Bool.not_true, Bool.false_and, Bool.false_and, Bool.or_false]
  exact ram_ends_iff (a := uf2.targetAddr) (n := flashPageSize) (by decide)

/-- The address check of a page task. -/
theorem pageTask_addressCheck (opens erases : Bool) (hgarbage : uf2.garbage = false)
    (hne : uf2.targetAddr ≠ pastSramEnd) (m : Machine) :
    executeAddressCheck (pageTask uf2 token opens erases) m = (m, 0) := by
  obtain ⟨hram, hflash⟩ := page_window hgarbage hne
  unfold executeAddressCheck
  by_cases hin : uf2.ram = true
  · rw [if_pos ((pageTask_directAccess opens erases).2 (hram.1 hin))]
  · obtain ⟨hwindow, halign⟩ := hflash (Bool.eq_false_iff.2 hin)
    have hends : (isAddressFlash (pageTask uf2 token opens erases).transferAddr &&
        isAddressFlash ((pageTask uf2 token opens erases).transferAddr +
          (pageTask uf2 token opens erases).dataLength)) = true :=
      (flash_ends_iff (a := uf2.targetAddr) (n := flashPageSize) (by decide)).2 hwindow
    have haligned : (pageTask uf2 token opens erases).transferAddr &&& (flashPageSize - 1) = 0 :=
      (and_pageMask_eq_zero _).2 halign
    rw [if_pos hends, if_neg (not_not.2 haligned), ite_self]

/-- The task of an accepted block passes the address checks, and goes to RAM exactly if the block
is for RAM, if and only if the block is not the one that ends one byte past the end of SRAM. -/
theorem page_accepted_iff (h : updateCurrentUf2Info uf2 token d = (d₁, true))
    (hqueue : writeUf2Page d₁ = (d₂, true)) :
    PageAccepted uf2 d₂.virtualDiskQueue.task ↔ uf2.targetAddr ≠ pastSramEnd := by
  obtain ⟨hgarbage, -⟩ := updateCurrentUf2Info_eq_true h
  obtain ⟨opens, erases, htask, honly⟩ := queued_pageTask h hqueue
  obtain ⟨hvectorize, hexclusive, hexec, herase, hwrite, hread, henter⟩ :=
    pageTask_bits uf2 token opens erases
  rw [htask, PageAccepted, pageTask_directAccess]
  constructor
  · rintro ⟨-, hiff⟩ haddr
    -- the block counts as one for RAM, but its task does not go there
    rw [uf2_ram_iff, haddr] at hiff
    exact absurd (hiff.2 (by decide)) (by decide)
  · intro hne
    obtain ⟨hram, hflash⟩ := page_window hgarbage hne
    refine ⟨fun env m hm => ?_, hram.symm⟩
    unfold executeTask
    split
    · exact (by decide : ¬IsAddressError picobootRebooting)
    · have haccepted (he : (pageTask uf2 token opens erases).has atFlashErase = true) :
          EraseAccepted (pageTask uf2 token opens erases).eraseAddr
            (pageTask uf2 token opens erases).eraseSize := by
        rw [herase] at he
        rw [he]
        exact eraseAccepted_sectorOf (hflash (honly he)).1
      exact ((TaskStep.passes_of_skip env (executeVectorizeFlash_of_not env hvectorize)).andThen <|
        (TaskStep.passes_of_skip env (executeExclusive_of_not hexclusive)).andThen <|
        (executeExitXip_passes env _).andThen <|
        (TaskStep.passes_of_skip env (executeExec_of_not env hexec)).andThen <|
        (executeMutationSource_passes env _).andThen <|
        (executeFlashErase_passes env haccepted).andThen <|
        executeTransfer_passes env hread henter (pageTask_addressCheck opens erases hgarbage hne))
        m hm

end Page

theorem defaultFlashFuncs_noAddressError : defaultFlashFuncs.NoAddressError where
  exitXip _ := not_isAddressError_ok
  eraseRange addr size d := by
    have hok : (defaultFlashFuncs.doFlashEraseRange addr size d).2 = 0 :=
      eraseRangeLoop_ok _ _ _ _
    rw [hok]
    exact not_isAddressError_ok
  pageProgram _ _ _ := not_isAddressError_ok

/-- The first block of an image of two blocks, with the address of its page. -/
def firstBlock (targetAddr : Word) : Uf2Block :=
  uf2Block 2 0 targetAddr fun _ => 0

/-- `page_accepted_iff`, for a page at the start of SRAM. -/
theorem page_accepted_iff_sram :
    ∃ d₁ d₂, updateCurrentUf2Info (firstBlock sramBase) 1 powerOn = (d₁, true) ∧
      writeUf2Page d₁ = (d₂, true) ∧
      PageAccepted (firstBlock sramBase) d₂.virtualDiskQueue.task :=
  ⟨_, _, rfl, rfl, (@page_accepted_iff (firstBlock sramBase) 1 powerOn _ _ rfl rfl).2 (by decide)⟩

/-- The block that ends one byte past the end of SRAM is accepted, counted and queued, and its
task is refused. -/
theorem past_sram_end_refused :
    ∃ d₁ d₂, updateCurrentUf2Info (firstBlock pastSramEnd) 1 powerOn = (d₁, true) ∧
      writeUf2Page d₁ = (d₂, true) ∧ d₂.uf2Info.validBlockCount = 1 ∧
      (executeTask bareEnv d₂.virtualDiskQueue.task d₂.toMachine).2 = picobootInvalidAddress ∧
      ¬PageAccepted (firstBlock pastSramEnd) d₂.virtualDiskQueue.task := by
  refine ⟨_, _, rfl, rfl, rfl, rfl, fun haccepted => ?_⟩
  have hram : (firstBlock pastSramEnd).ram = true := by decide
  exact absurd (haccepted.2.2 hram) (by decide)

end PicoBootrom
