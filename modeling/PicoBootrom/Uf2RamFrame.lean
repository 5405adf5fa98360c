import PicoBootrom.FlashAlignment

/-!
# What a transfer to RAM leaves alone

A transfer to RAM is to change the pages of its blocks and nothing else : no function of the flash
is loaded, and the bitmaps of a flash image, which are in XIP SRAM, are left alone
(`RamFrame`). A page of XIP SRAM is in RAM and in the flash window at once. In a transfer that is
open that makes no difference, but a transfer that such a block opens clears the bitmap of the
pages, and its first task exits XIP (`ram_transfer_frame_iff`).
-/

namespace PicoBootrom

/-! ## What a run does -/

/-- The block is accepted : `_update_current_uf2_info` is true for it. -/
def acceptsBlock (uf2 : Uf2Block) (token : Word) (d : VirtualDisk) : Bool :=
  uf2.forRp2040 && (updateCurrentUf2Info uf2 token (d.filled uf2)).2

/-- The address of the block of an event, if it is accepted. -/
def DiskEvent.target (d : VirtualDisk) : DiskEvent → List Word
  | .sector uf2 token => if acceptsBlock uf2 token d then [uf2.targetAddr] else []
  | _ => []

/-- The addresses of the accepted blocks of a run. -/
def acceptedTargets (env : Env) : VirtualDisk → List DiskEvent → List Word
  | _, [] => []
  | d, e :: es => e.target d ++ acceptedTargets env (diskStep env d e) es

/-- The flash functions that an event loads. -/
def DiskEvent.loads (env : Env) (d : VirtualDisk) : DiskEvent → FlashFuncsLoads
  | .work =>
    if d.virtualDiskQueue.full && !d.virtualDiskQueue.disable then
      executeTaskLoads env d.virtualDiskQueue.task d.taken.toMachine
    else []
  | .picoboot task => executeTaskLoads env task d.toMachine
  | _ => []

/-- The event does not touch the memory on the interrupt side, where the bitmaps are kept. -/
def DiskEvent.KeepsBitmaps (d : VirtualDisk) : DiskEvent → Prop
  | .sector uf2 token => (receiveSector uf2 token d).1.mem = d.mem
  | _ => True

/-- From `d` on, a run changes no byte outside the pages of its accepted blocks, loads no flash
function, and leaves the bitmaps in memory alone. -/
structure RamFrame (env : Env) (d : VirtualDisk) (es : List DiskEvent) : Prop where
  mem : ∀ addr, (Run.after (diskStep env) d es).mem addr ≠ d.mem addr →
    ∃ target ∈ acceptedTargets env d es, Memory.InRange target 256 addr
  loads : Run.Always (diskStep env) (fun d e => e.loads env d = []) d es
  bitmaps : Run.Always (diskStep env) (fun d e => e.KeepsBitmaps d) d es

/-- The event belongs to the transfer : a sector that opens no other one, a turn of the worker, or a
reset. -/
def DiskEvent.Continues (d : VirtualDisk) : DiskEvent → Prop
  | .sector uf2 _ => opensTransfer uf2 d = false
  | .picoboot _ => False
  | _ => True

/-! ## The task of a page of RAM -/

/-- The task of an accepted page of RAM, in a transfer that is open or that SRAM opens. -/
structure AsyncTask.WritesPage (task : AsyncTask) : Prop where
  type : task.type = atWrite
  check : task.checkLastMutationSource = false
  length : task.dataLength = flashPageSize
  ram : isAddressRam task.transferAddr = true
  ram_end : isAddressRam (task.transferAddr + flashPageMask) = true
  aligned : isAddressFlash task.transferAddr = true →
    isAddressFlash (task.transferAddr + flashPageMask) = true →
      task.transferAddr &&& flashPageMask = 0

section Task

variable {env : Env} {task : AsyncTask} {m : Machine}

theorem AsyncTask.WritesPage.has (h : task.WritesPage) (bits : Byte) :
    task.has bits = (atWrite &&& bits != 0) := by
  rw [AsyncTask.has, h.type]

/-- The page of the task is in RAM, or its end is just beyond it and the task is refused. -/
theorem AsyncTask.WritesPage.directAccess_or (h : task.WritesPage) :
    isAddressRam (task.transferAddr + task.dataLength) = true ∨
      (task.directAccess = false ∧ isAddressFlash task.transferAddr = false) := by
  have hram := (isAddressRam_iff _).1 h.ram
  have hend := (isAddressRam_iff _).1 h.ram_end
  have haligned := h.aligned
  rw [isAddressFlash_iff, isAddressFlash_iff, and_pageMask_eq_zero] at haligned
  rw [BitVec.toNat_add, show flashPageMask.toNat = 255 from rfl] at hend haligned
  cases hpage : isAddressRam (task.transferAddr + task.dataLength) with
  | true => exact Or.inl rfl
  | false =>
    have hnot := mt (isAddressRam_iff _).2 (Bool.not_eq_true _ ▸ hpage)
    rw [BitVec.toNat_add, h.length, show flashPageSize.toNat = 256 from rfl] at hnot
    refine Or.inr ⟨?_, ?_⟩
    · rw [AsyncTask.directAccess, hpage, h.has, Bool.and_false]
      rfl
    · rw [Bool.eq_false_iff, Ne, isAddressFlash_iff]
      omega

/-- The task goes straight to its transfer. -/
theorem AsyncTask.WritesPage.stages (env : Env) (h : task.WritesPage)
    (hrebooting : m.rebooting = false) :
    executeTask env task m =
        executeTransfer env task { m with lastMutationSource := task.source } ∧
      executeTaskLoads env task m =
        transferLoads env task { m with lastMutationSource := task.source } := by
  have hsource : executeMutationSource task m =
      ({ m with lastMutationSource := task.source }, 0) := by
    rw [executeMutationSource, h.has, h.check]
    rfl
  have herase (m : Machine) : executeFlashErase env task m = (m, 0) := by
    rw [executeFlashErase, h.has]
    rfl
  have hvectorize := executeVectorizeFlash_of_not env (h.has atVectorizeFlash) m
  have hexclusive := executeExclusive_of_not (h.has atExclusive) m
  have hexit := executeExitXip_of_not env (h.has atExitXip) m
  have hexec := executeExec_of_not env (h.has atExec) m
  have herases : task.erases = false := by
    rw [AsyncTask.erases, h.has]
    rfl
  constructor
  · rw [executeTask, if_neg (Bool.not_eq_true _ ▸ hrebooting), TaskStep.andThen_of_ok hvectorize,
      TaskStep.andThen_of_ok hexclusive, TaskStep.andThen_of_ok hexit,
      TaskStep.andThen_of_ok hexec, TaskStep.andThen_of_ok hsource,
      TaskStep.andThen_of_ok (herase _)]
  · rw [executeTaskLoads, if_neg (Bool.not_eq_true _ ▸ hrebooting)]
    simp only [TaskStep.thenLoads, hvectorize, hexclusive, hexit, hexec, hsource, herase, if_true,
      List.nil_append, flashEraseLoads, herases, Machine.loadsIf, h.has]
    rfl

/-- The task writes its page or nothing, and loads no flash function. -/
theorem AsyncTask.WritesPage.execute (env : Env) (m : Machine) (h : task.WritesPage) :
    executeTaskLoads env task m = [] ∧
      ∀ addr, (executeTask env task m).1.mem addr ≠ m.mem addr →
        Memory.InRange task.transferAddr 256 addr := by
  cases hrebooting : m.rebooting with
  | true =>
    rw [executeTaskLoads, if_pos hrebooting, executeTask, if_pos hrebooting]
    exact ⟨rfl, fun addr hne => absurd rfl hne⟩
  | false =>
    obtain ⟨hexecute, hloads⟩ := h.stages env hrebooting
    have htransfer : task.has (atWrite ||| atRead) = true := h.has _
    have henter : task.has atEnterCmdXip = false := h.has _
    rcases h.directAccess_or with hend | ⟨hdirect, hflash⟩
    · have hdirect : task.directAccess = true := by
        rw [AsyncTask.directAccess, h.ram, hend]
        rfl
      refine ⟨?_, fun addr hne => ?_⟩
      · rw [hloads, transferLoads, if_pos htransfer]
        simp only [TaskStep.thenLoads, Machine.loadsIf, hdirect, henter, Bool.not_true,
          Bool.and_false, Bool.false_eq_true, if_false, List.nil_append, ite_self]
      · rw [executeTask_ramWrite env hrebooting h.type h.check h.ram hend] at hne
        obtain ⟨ff, hwritten⟩ := ramWritten_eq m task
        rw [hwritten, h.length] at hne
        by_contra hout
        exact hne (Memory.copy_of_not_inRange hout)
    · have hcheck (m : Machine) : executeAddressCheck task m = (m, picobootInvalidAddress) := by
        rw [executeAddressCheck, hdirect, hflash]
        rfl
      refine ⟨?_, fun addr hne => absurd ?_ hne⟩
      · rw [hloads, transferLoads, if_pos htransfer]
        simp only [TaskStep.thenLoads, hcheck]
        rfl
      · rw [hexecute, executeTransfer, if_pos htransfer,
          TaskStep.andThen_of_error (hcheck _) (by decide)]

end Task

/-! ## Sectors -/

/-- The tracking state is that of a transfer to RAM, and the task in the queue is that of one of
the pages. -/
structure RamTransfer (d : VirtualDisk) (targets : List Word) : Prop where
  ram : d.uf2Info.ram = true
  validBlocks : d.uf2Info.validBlocks = .uf2ValidRamBlocks
  queued : d.virtualDiskQueue.full = true →
    d.virtualDiskQueue.task.WritesPage ∧ d.virtualDiskQueue.task.transferAddr ∈ targets

theorem RamTransfer.mono {d : VirtualDisk} {targets targets' : List Word}
    (h : RamTransfer d targets) (hsub : targets ⊆ targets') : RamTransfer d targets' where
  ram := h.ram
  validBlocks := h.validBlocks
  queued hfull := ⟨(h.queued hfull).1, hsub (h.queued hfull).2⟩

theorem RamTransfer.congr {d d' : VirtualDisk} {targets : List Word} (h : RamTransfer d targets)
    (hram : d'.uf2Info.ram = d.uf2Info.ram)
    (hvalid : d'.uf2Info.validBlocks = d.uf2Info.validBlocks)
    (hqueue : d'.virtualDiskQueue = d.virtualDiskQueue) : RamTransfer d' targets where
  ram := hram.trans h.ram
  validBlocks := hvalid.trans h.validBlocks
  queued := hqueue ▸ h.queued

section Sector

variable {uf2 : Uf2Block} {token : Word} {d : VirtualDisk} {targets : List Word}

/-- The task of a block that is not the first one of its transfer, or that goes to SRAM. -/
theorem pageTask_writesPage (token : Word) (opens : Bool) (hgarbage : uf2.garbage = false)
    (hram : uf2.ram = true) (htype : (opens && uf2.flash) = false) :
    (pageTask uf2 token opens false).WritesPage where
  type := by
    rw [pageTask, htype]
    rfl
  check := rfl
  length := rfl
  ram := (Bool.and_eq_true_iff.1 hram).1
  ram_end := (Bool.and_eq_true_iff.1 hram).2
  aligned hstart hend := by
    have hflash : uf2.flash = true := Bool.and_eq_true_iff.2 ⟨hstart, hend⟩
    have hgarbage := (Bool.or_eq_false_iff.1 hgarbage).2
    rw [hflash, Bool.true_and, bne_eq_false_iff_eq] at hgarbage
    exact hgarbage

theorem opensTransfer_iff : opensTransfer uf2 d = true ↔ uf2.forRp2040 = true ∧
    uf2.garbage = false ∧ d.virtualDiskQueue.disable = false ∧ opens uf2 d = true := by
  rw [opensTransfer, Bool.and_eq_true, Bool.and_eq_true, Bool.and_eq_true, Bool.not_eq_true',
    Bool.not_eq_true', and_assoc, and_assoc]

/-- A block that opens a transfer and is accepted is queued. -/
theorem receiveSector_opens (hopens : opensTransfer uf2 d = true)
    (hacc : acceptsBlock uf2 token d = true) :
    receiveSector uf2 token d =
      (queueBlock uf2 token true (openTransfer uf2 (d.filled uf2)), true) ∧
        uf2.garbage = false := by
  obtain ⟨hfor, hgarbage, henabled, hopens⟩ := opensTransfer_iff.1 hopens
  have hopens : opens uf2 (d.filled uf2) = true := hopens
  have hcurrent : current uf2 (d.filled uf2) = openTransfer uf2 (d.filled uf2) := if_pos hopens
  have hrefines : RefinesFor uf2.numBlocks (d.filled uf2) none := by
    intro _ heq
    rw [opens, heq, bne_self_eq_false] at hopens
    cases hopens
  obtain ⟨t', hreceives⟩ := receiveSector_cases token hrefines
  generalize receiveSector uf2 token d = r at hreceives
  cases hreceives with
  | ignored hforeign => exact absurd (hfor.symm.trans hforeign) Bool.noConfusion
  | rejected _ hna =>
    obtain ⟨d', heq, -, -⟩ := updateCurrentUf2Info_of_not_accepted token hrefines hfor hna
    rw [acceptsBlock, hfor, heq] at hacc
    cases hacc
  | @duplicate t' ha _ hmark =>
    have hlt : uf2.blockNo.toNat < capacity uf2.ram :=
      ha.ram ▸ Nat.lt_of_lt_of_le ha.lt t'.fits
    rw [filled_sectorBuf, hcurrent, ← ha.ram, filled_sectorBuf, testBitmap_openTransfer _ _ hlt]
      at hmark
    cases hmark
  | queued =>
    rw [filled_sectorBuf, hcurrent, hopens]
    exact ⟨rfl, hgarbage⟩

/-- A transfer that SRAM opens. -/
theorem receiveSector_opens_sram (hopens : opensTransfer uf2 d = true)
    (hacc : acceptsBlock uf2 token d = true) (hram : uf2.ram = true) (hflash : uf2.flash = false) :
    (receiveSector uf2 token d).1.mem = d.mem ∧
      RamTransfer (receiveSector uf2 token d).1 [uf2.targetAddr] := by
  obtain ⟨heq, hgarbage⟩ := receiveSector_opens hopens hacc
  have herases (d : VirtualDisk) : erases uf2 d = false := by
    rw [erases, hram]
    rfl
  have htask := pageTask_writesPage token true hgarbage hram
    (by rw [hflash, Bool.and_false])
  rw [heq]
  refine ⟨?_, (resetUf2Info_ram uf2 _).trans hram, ?_, fun _ => ?_⟩
  · have hmem : (openTransfer uf2 (d.filled uf2)).mem = d.mem := by
      rw [openTransfer, resetUf2Info, hram, hflash]
      rfl
    rw [← hmem, queueBlock, markBlock, herases, hram]
    rfl
  · refine (resetUf2Info_validBlocks uf2 _).trans ?_
    rw [hram]
    rfl
  · rw [queueBlock, herases]
    exact ⟨htask, List.mem_singleton_self _⟩

/-- `_write_uf2_page` in a transfer to RAM. -/
theorem RamTransfer.writeUf2Page (h : RamTransfer d targets) (token : Word) (opens : Bool)
    (hram : uf2.ram = true) :
    PicoBootrom.writeUf2Page (prepared uf2 token opens d) =
      if d.uf2ValidRamBlocks.testBit 0 uf2.blockNo.toNat then (prepared uf2 token opens d, false)
      else (queueBlock uf2 token opens d, true) := by
  simp only [PicoBootrom.writeUf2Page, prepared, queueBlock, markBlock, erases, h.ram,
    h.validBlocks, hram, VirtualDisk.testBitmap, if_true, Bool.not_true, Bool.false_and,
    Bool.false_eq_true, if_false, validBlocksPtr]
  rfl

/-- A sector that opens no transfer. -/
theorem receiveSector_continues (token : Word) (hcontinues : opensTransfer uf2 d = false)
    (h : RamTransfer d targets) :
    (receiveSector uf2 token d).1.mem = d.mem ∧
      RamTransfer (receiveSector uf2 token d).1
        (targets ++ DiskEvent.target d (.sector uf2 token)) := by
  have hfilled : RamTransfer (d.filled uf2) (targets ++ DiskEvent.target d (.sector uf2 token)) :=
    (h.mono (List.subset_append_left _ _)).congr rfl rfl rfl
  rw [receiveSector, vdWriteBlock, filled_sectorBuf]
  cases hfor : uf2.forRp2040 with
  | false => exact ⟨rfl, hfilled⟩
  | true =>
  rw [if_pos rfl]
  cases hgarbage : uf2.garbage with
  | true =>
    have hupdate : updateCurrentUf2Info uf2 token (d.filled uf2) =
        (invalidateUf2Info (d.filled uf2), false) := by
      rw [updateCurrentUf2Info, if_pos hgarbage]
    rw [hupdate]
    exact ⟨rfl, hfilled.congr rfl rfl rfl⟩
  | false =>
  cases hdisable : d.virtualDiskQueue.disable with
  | true =>
    have hupdate : updateCurrentUf2Info uf2 token (d.filled uf2) =
        (invalidateUf2Info (d.filled uf2), false) := by
      rw [updateCurrentUf2Info, if_neg (by simp [hgarbage])]
      exact if_pos hdisable
    rw [hupdate]
    exact ⟨rfl, hfilled.congr rfl rfl rfl⟩
  | false =>
  have hnumBlocks : ¬(d.filled uf2).uf2Info.numBlocks ≠ uf2.numBlocks := fun hne => by
    rw [Bool.eq_false_iff, Ne, opensTransfer_iff] at hcontinues
    exact hcontinues ⟨hfor, hgarbage, hdisable, bne_iff_ne.2 hne⟩
  have hupdate : updateCurrentUf2Info uf2 token (d.filled uf2) =
      prepareUf2Task uf2 token atWrite (d.filled uf2) := by
    rw [updateCurrentUf2Info, if_neg (by simp [hgarbage]),
      if_neg (by simp [VirtualDisk.filled, hdisable]), if_neg hnumBlocks]
  by_cases hmatch : uf2.ram = (d.filled uf2).uf2Info.ram ∧ uf2.blockNo < uf2.numBlocks
  · have hram : uf2.ram = true := hmatch.1.trans h.ram
    have hprepare : prepareUf2Task uf2 token atWrite (d.filled uf2) =
        (prepared uf2 token false (d.filled uf2), true) :=
      @prepareUf2Task_of_lt uf2 token false _ hmatch.1 hmatch.2
    have htarget : DiskEvent.target d (.sector uf2 token) = [uf2.targetAddr] := by
      rw [DiskEvent.target, acceptsBlock, hfor, hupdate, hprepare]
      rfl
    have herases (d : VirtualDisk) : erases uf2 d = false := by
      rw [erases, hram]
      rfl
    rw [hupdate, hprepare]
    dsimp only
    rw [if_pos rfl, hfilled.writeUf2Page token false hram]
    split
    · exact ⟨rfl, hfilled.congr rfl rfl rfl⟩
    · refine ⟨?_, h.ram, h.validBlocks, fun _ => ?_⟩
      · rw [queueBlock, markBlock, herases, hram]
        rfl
      · rw [queueBlock, herases, htarget]
        exact ⟨pageTask_writesPage token false hgarbage hram rfl,
          List.mem_append_right _ (List.mem_singleton_self _)⟩
  · rw [hupdate, prepareUf2Task_of_not hmatch]
    exact ⟨rfl, hfilled.congr rfl rfl rfl⟩

end Sector

/-! ## The worker -/

section Work

variable {env : Env} {d : VirtualDisk} {targets : List Word}

/-- A reboot is all that the callback does to the machine. -/
theorem writeUf2PageComplete_mem (task : AsyncTask) (d : VirtualDisk) :
    (writeUf2PageComplete task d).mem = d.mem ∧
      (writeUf2PageComplete task d).virtualDiskQueue = d.virtualDiskQueue := by
  unfold writeUf2PageComplete
  split
  · split
    · exact ⟨rfl, rfl⟩
    · exact ⟨rfl, rfl⟩
  · exact ⟨rfl, rfl⟩

theorem work_full (env : Env) (hfull : d.virtualDiskQueue.full = true) :
    (work env d).virtualDiskQueue.full = false := by
  have hside := executeVirtualDiskTask_interruptSide env d.virtualDiskQueue.task d.taken
  rw [work_of_full env hfull, (writeUf2PageComplete_mem _ _).2]
  exact congrArg (fun side => side.2.2.2) hside

/-- The turn of the worker in a transfer to RAM. -/
theorem RamTransfer.work (env : Env) (h : RamTransfer d targets) :
    RamTransfer (PicoBootrom.work env d) targets ∧
      DiskEvent.loads env d .work = [] ∧
      ∀ addr, (PicoBootrom.work env d).mem addr ≠ d.mem addr →
        ∃ target ∈ targets, Memory.InRange target 256 addr := by
  cases hfull : d.virtualDiskQueue.full with
  | false =>
    rw [work_of_not_full env hfull, DiskEvent.loads, hfull]
    exact ⟨h, rfl, fun addr hne => absurd rfl hne⟩
  | true =>
  obtain ⟨htask, htarget⟩ := h.queued hfull
  refine ⟨⟨?_, ?_, fun hagain => ?_⟩, ?_⟩
  · rw [work_uf2Info]
    exact h.ram
  · rw [work_uf2Info]
    exact h.validBlocks
  · rw [work_full env hfull] at hagain
    cases hagain
  · rw [work_of_full env hfull, (writeUf2PageComplete_mem _ _).1, DiskEvent.loads, hfull]
    cases hdisable : d.virtualDiskQueue.disable with
    | true =>
      refine ⟨rfl, fun addr hne => absurd ?_ hne⟩
      have hdisable : d.taken.virtualDiskQueue.disable = true := hdisable
      rw [executeVirtualDiskTask, if_pos hdisable]
      rfl
    | false =>
      obtain ⟨hloads, hmem⟩ := htask.execute env d.taken.toMachine
      rw [executeVirtualDiskTask_of_enabled env _ (d := d.taken) hdisable]
      exact ⟨hloads, fun addr hne => ⟨_, htarget, hmem addr hne⟩⟩

end Work

/-! ## Runs -/

section Runs

variable {env : Env} {d : VirtualDisk} {targets : List Word}

/-- A step of a transfer to RAM. -/
theorem RamTransfer.step (env : Env) (h : RamTransfer d targets) {e : DiskEvent}
    (he : e.Continues d) :
    RamTransfer (diskStep env d e) (targets ++ e.target d) ∧ e.loads env d = [] ∧
      e.KeepsBitmaps d ∧ ∀ addr, (diskStep env d e).mem addr ≠ d.mem addr →
        ∃ target ∈ targets, Memory.InRange target 256 addr := by
  cases e with
  | sector uf2 token =>
    obtain ⟨hmem, hafter⟩ := receiveSector_continues token he h
    exact ⟨hafter, rfl, hmem, fun addr hne => absurd (congrFun hmem addr) hne⟩
  | work =>
    obtain ⟨hafter, hloads, hmem⟩ := h.work env
    exact ⟨(List.append_nil targets).symm ▸ hafter, hloads, trivial, hmem⟩
  | picoboot => exact he.elim
  | reset =>
    have hafter : RamTransfer (vdReset d) targets := h.congr rfl rfl rfl
    exact ⟨(List.append_nil targets).symm ▸ hafter, rfl, trivial, fun addr hne => absurd rfl hne⟩
  | resetQueue =>
    refine ⟨⟨h.ram, h.validBlocks, fun hfull => ?_⟩, rfl, trivial,
      fun addr hne => absurd rfl hne⟩
    cases hfull

/-- A run of a transfer to RAM. -/
theorem RamTransfer.run (h : RamTransfer d targets) {es : List DiskEvent}
    (hes : Run.Always (diskStep env) DiskEvent.Continues d es) :
    (∀ addr, (Run.after (diskStep env) d es).mem addr ≠ d.mem addr →
      ∃ target ∈ targets ++ acceptedTargets env d es, Memory.InRange target 256 addr) ∧
    Run.Always (diskStep env) (fun d e => e.loads env d = []) d es ∧
    Run.Always (diskStep env) (fun d e => e.KeepsBitmaps d) d es := by
  induction es generalizing d targets with
  | nil => exact ⟨fun addr hne => absurd rfl hne, trivial, trivial⟩
  | cons e es ih =>
    obtain ⟨hafter, hloads, hbitmaps, hstep⟩ := h.step env hes.1
    obtain ⟨hmem, hall, hkeeps⟩ := ih hafter hes.2
    refine ⟨fun addr hne => ?_, ⟨hloads, hall⟩, hbitmaps, hkeeps⟩
    rw [Run.after_cons] at hne
    rw [acceptedTargets, ← List.append_assoc]
    by_cases hfirst : (diskStep env d e).mem addr = d.mem addr
    · exact hmem addr (hfirst ▸ hne)
    · obtain ⟨target, htarget, hin⟩ := hstep addr hfirst
      exact ⟨target, List.mem_append_left _ (List.mem_append_left _ htarget), hin⟩

/-- A block of XIP SRAM that opens a transfer makes its task exit XIP. -/
theorem loads_of_xipSram {uf2 : Uf2Block} {token : Word} (hopens : opensTransfer uf2 d = true)
    (hacc : acceptsBlock uf2 token d = true) (hram : uf2.ram = true) (hflash : uf2.flash = true)
    (hrebooting : d.rebooting = false) :
    DiskEvent.loads env (receiveSector uf2 token d).1 .work ≠ [] := by
  obtain ⟨heq, -⟩ := receiveSector_opens hopens hacc
  have hdevice := receiveSector_device uf2 token d
  have hrebooting : (receiveSector uf2 token d).1.rebooting = false :=
    (congrArg (fun p => p.2.2.2.2.2.2.2.1) hdevice).trans hrebooting
  have hdisable : (receiveSector uf2 token d).1.virtualDiskQueue.disable = false :=
    (congrArg (fun p => p.2.2.2.2.2.1) hdevice).trans (opensTransfer_iff.1 hopens).2.2.1
  have hfull : (receiveSector uf2 token d).1.virtualDiskQueue.full = true := by
    rw [heq]
    rfl
  have htype : (receiveSector uf2 token d).1.virtualDiskQueue.task.type =
      atWrite ||| atExitXip := by
    rw [heq, queueBlock, pageTask, erases, hram, hflash]
    rfl
  generalize (receiveSector uf2 token d).1 = d' at hrebooting hdisable hfull htype ⊢
  generalize htask : d'.virtualDiskQueue.task = task at htype
  have hhas (bits : Byte) : task.has bits = ((atWrite ||| atExitXip) &&& bits != 0) := by
    rw [AsyncTask.has, htype]
  rw [DiskEvent.loads, hfull, hdisable, htask]
  refine List.ne_nil_of_mem (a := (.exitXip, d'.flashFuncs)) ?_
  have hmachine : ¬d'.taken.toMachine.rebooting = true := Bool.not_eq_true _ ▸ hrebooting
  simp only [Bool.not_false, Bool.and_self, if_true, executeTaskLoads, if_neg hmachine,
    TaskStep.thenLoads, executeVectorizeFlash_of_not env (hhas atVectorizeFlash),
    executeExclusive_of_not (hhas atExclusive), List.nil_append, Machine.loadsIf]
  refine List.mem_append_left _ ?_
  rw [if_pos (show task.has atExitXip = true from hhas _)]
  exact List.mem_singleton_self _

/-- A transfer to RAM changes the pages of its blocks, loads no flash function and leaves the
bitmaps in XIP SRAM alone, whatever sectors come next and whenever the worker has its turn, if and
only if the block that opens it is not in XIP SRAM. -/
theorem ram_transfer_frame_iff (env : Env) {d : VirtualDisk} {s₀ : Uf2Block} {token : Word}
    (hopens : opensTransfer s₀ d = true) (hacc : acceptsBlock s₀ token d = true)
    (hram : s₀.ram = true) (hrebooting : d.rebooting = false) :
    (∀ es, Run.Always (diskStep env) DiskEvent.Continues (receiveSector s₀ token d).1 es →
      RamFrame env d (.sector s₀ token :: es)) ↔ s₀.flash = false := by
  constructor
  · intro h
    rw [← Bool.not_eq_true]
    intro hflash
    have hloads := (h [.work] ⟨trivial, trivial⟩).loads.2.1
    exact loads_of_xipSram hopens hacc hram hflash hrebooting hloads
  · intro hflash es hes
    obtain ⟨hkeeps, hafter⟩ := receiveSector_opens_sram hopens hacc hram hflash
    obtain ⟨hmem, hloads, hbitmaps⟩ := hafter.run hes
    refine ⟨fun addr hne => ?_, ⟨rfl, hloads⟩, hkeeps, hbitmaps⟩
    have htarget : DiskEvent.target d (.sector s₀ token) = [s₀.targetAddr] := if_pos hacc
    rw [acceptedTargets, htarget]
    refine hmem addr ?_
    rw [hkeeps]
    exact hne

end Runs

/-- `ram_transfer_frame_iff`, for the image whose block is the first page of SRAM. -/
theorem ram_transfer_frame_iff_sram :
    (∀ es, Run.Always (diskStep bareEnv) DiskEvent.Continues
        (receiveSector (uf2Block 1 0 sramBase fun _ => 0) 1 powerOn).1 es →
      RamFrame bareEnv powerOn (.sector (uf2Block 1 0 sramBase fun _ => 0) 1 :: es)) ↔
        (uf2Block 1 0 sramBase fun _ => 0).flash = false :=
  ram_transfer_frame_iff bareEnv (by decide +kernel) (by decide +kernel) (by decide) rfl

/-- The image whose block is the first page of XIP SRAM clears the bitmap of the pages, and exits
XIP. -/
theorem ram_transfer_exits_xip :
    (uf2Block 1 0 xipSramBase fun _ => 0).ram = true ∧
      acceptsBlock (uf2Block 1 0 xipSramBase fun _ => 0) 1 powerOn = true ∧
      Run.Always (diskStep bareEnv) DiskEvent.Continues
        (receiveSector (uf2Block 1 0 xipSramBase fun _ => 0) 1 powerOn).1 [.work] ∧
      DiskEvent.loads bareEnv (receiveSector (uf2Block 1 0 xipSramBase fun _ => 0) 1 powerOn).1
        .work = [(.exitXip, .rom)] ∧
      ¬RamFrame bareEnv powerOn [.sector (uf2Block 1 0 xipSramBase fun _ => 0) 1, .work] := by
  have hloads : DiskEvent.loads bareEnv
      (receiveSector (uf2Block 1 0 xipSramBase fun _ => 0) 1 powerOn).1 .work =
        [(.exitXip, .rom)] := by
    decide +kernel
  refine ⟨by decide, by decide +kernel, ⟨trivial, trivial⟩, hloads, fun hframe => ?_⟩
  have hnone := hframe.loads.2.1
  exact List.cons_ne_nil _ _ (hloads.symm.trans hnone)

end PicoBootrom
