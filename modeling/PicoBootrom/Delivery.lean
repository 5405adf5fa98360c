import PicoBootrom.Runs
import PicoBootrom.Uf2Transfer

/-!
# Sectors, the worker and the runs of the two

The host's sectors and the worker thread meet in `virtual_disk_queue`. A `DiskEvent` is
one of the parties acting : a sector is filled into `_sector_buf` and given to
`vd_write_block`, the worker takes the queued task and runs it up to its callback, or the
PICOBOOT side runs a task of its own or resets the queues.

The sector stream does not fill the buffer again before the task of the last sector has
completed, so the sectors of one command are delivered one at a time : `deliver` is a
sector with the turn of the worker it may need.
-/

namespace PicoBootrom

/-! ## Events -/

/-- The disk with a sector filled into `_sector_buf`. -/
def VirtualDisk.filled (d : VirtualDisk) (uf2 : Uf2Block) : VirtualDisk :=
  { d with sectorBuf := uf2 }

@[simp] theorem filled_sectorBuf (d : VirtualDisk) (uf2 : Uf2Block) :
    (d.filled uf2).sectorBuf = uf2 :=
  rfl

/-- A sector filled into `_sector_buf` and given to `vd_write_block`. -/
def receiveSector (uf2 : Uf2Block) (token : Word) (d : VirtualDisk) : VirtualDisk × Bool :=
  vdWriteBlock token (d.filled uf2)

theorem receiveSector_of_foreign {uf2 : Uf2Block} (token : Word) (d : VirtualDisk)
    (h : uf2.forRp2040 = false) : receiveSector uf2 token d = (d.filled uf2, false) := by
  simp [receiveSector, vdWriteBlock, h]

theorem receiveSector_cases (token : Word) {uf2 : Uf2Block} {d : VirtualDisk}
    {t : Option Transfer} (h : RefinesFor uf2.numBlocks (d.filled uf2) t) :
    ∃ t', Receives token (d.filled uf2) t (receiveSector uf2 token d) t' :=
  vdWriteBlock_cases token h

theorem RefinesFor.filled {n : Word} {d : VirtualDisk} {t : Option Transfer}
    (h : RefinesFor n d t) (uf2 : Uf2Block) : RefinesFor n (d.filled uf2) t := by
  cases t with
  | none => exact h
  | some t =>
    refine Tracks.congr h rfl fun b _ hb => ?_
    cases hram : t.ram <;> rw [hram] at hb <;> exact hb

theorem Exact.filled {d : VirtualDisk} {t : Transfer} (h : Exact d t) (uf2 : Uf2Block) :
    Exact (d.filled uf2) t := by
  intro b hb hmark
  refine h b hb ?_
  cases hram : t.ram <;> rw [hram] at hmark <;> exact hmark

/-- The turn of `async_task_worker` on `virtual_disk_queue`. -/
def work (env : Env) (d : VirtualDisk) : VirtualDisk :=
  let q := dequeueTask d.virtualDiskQueue
  match q.2 with
  | none => d
  | some task =>
    let r := executeVirtualDiskTask env task { d with virtualDiskQueue := q.1 }
    writeUf2PageComplete r.2 r.1

/-- What happens next. -/
inductive DiskEvent
  /-- A sector arrives. -/
  | sector (uf2 : Uf2Block) (token : Word)
  /-- The worker has its turn on the virtual disk's queue. -/
  | work
  /-- The worker runs a PICOBOOT task. -/
  | picoboot (task : AsyncTask)
  /-- The mass storage interface is reset. -/
  | reset
  /-- The PICOBOOT interface is reset, and the queue with it. -/
  | resetQueue

/-- One event. -/
def diskStep (env : Env) (d : VirtualDisk) : DiskEvent → VirtualDisk
  | .sector uf2 token => (receiveSector uf2 token d).1
  | .work => work env d
  | .picoboot task => { d with toMachine := (executeTask env task d.toMachine).1 }
  | .reset => vdReset d
  | .resetQueue => { d with virtualDiskQueue := resetQueue d.virtualDiskQueue }

/-- A sector, and the worker's turn if its task is to complete the sector. -/
def deliver (env : Env) (d : VirtualDisk) (s : Uf2Block × Word) : VirtualDisk :=
  let r := receiveSector s.1 s.2 d
  if r.2 then work env r.1 else r.1

/-! ## Power-on -/

/-- A build whose host code only returns and whose table of flash functions is zero bytes. -/
def bareEnv : Env where
  callee _ state := state
  defaultFlashFuncsBytes _ := 0
  foreignFlashFuncs _ := defaultFlashFuncs

/-- The disk at power-on, with zeroed memory and erased flash. -/
def powerOn : VirtualDisk where
  mem _ := 0
  flash := { cells := fun _ => 0xff, ops := [] }
  sectorBuf := ⟨0, 0, 0, 0, 0, 0, 0, 0, fun _ => 0, 0⟩
  picobootBuffer _ := 0
  flashFuncs := .rom
  lastMutationSource := .none
  virtualDiskQueue := {}
  ejected := false
  rebooting := false
  reboots := []
  execs := []
  uf2Info := {}
  uf2ValidRamBlocks _ := 0

/-- Block `blockNo` of an image for this chip. -/
def uf2Block (numBlocks blockNo targetAddr : Word) (data : ℕ → Byte) : Uf2Block where
  magicStart0 := uf2MagicStart0
  magicStart1 := uf2MagicStart1
  flags := uf2FlagFamilyIdPresent
  targetAddr := targetAddr
  payloadSize := 256
  blockNo := blockNo
  numBlocks := numBlocks
  fileSize := rp2040FamilyId
  data := data
  magicEnd := uf2MagicEnd

/-! ## What a task leaves alone -/

/-- The stage does not change what `f` reads. -/
def TaskStep.Keeps {α : Type} (f : Machine → α) (s : TaskStep) : Prop :=
  ∀ m, f (s m).1 = f m

theorem TaskStep.Keeps.andThen {α : Type} {f : Machine → α} {s s' : TaskStep}
    (hs : s.Keeps f) (hs' : s'.Keeps f) : (s.andThen s').Keeps f := by
  intro m
  unfold TaskStep.andThen
  dsimp only
  split
  · exact (hs' _).trans (hs m)
  · exact hs m

/-- What only the interrupt side changes : the calls of `safe_reboot` and the slot of the
queue. -/
def Machine.interruptSide (m : Machine) :
    Bool × List (Word × Word × Word) × AsyncTask × Bool :=
  (m.rebooting, m.reboots, m.virtualDiskQueue.task, m.virtualDiskQueue.full)

/-- The same with the source of the last mutation. -/
def Machine.bookkeeping (m : Machine) : (Bool × List (Word × Word × Word) × AsyncTask × Bool) ×
    TaskSource :=
  (m.interruptSide, m.lastMutationSource)

/-- What only exclusive access and the source of the last mutation change, among the tasks. -/
def Machine.control (m : Machine) :
    AsyncTaskQueue × Bool × Bool × List (Word × Word × Word) × TaskSource :=
  (m.virtualDiskQueue, m.ejected, m.rebooting, m.reboots, m.lastMutationSource)

theorem TaskStep.Keeps.bookkeeping {s : TaskStep} (h : s.Keeps Machine.control) :
    s.Keeps Machine.bookkeeping := by
  intro m
  have hm := h m
  simp only [Machine.control, Prod.mk.injEq] at hm
  simp only [Machine.bookkeeping, Machine.interruptSide, hm]

theorem control_writeData (m : Machine) (ptr : DataPtr) (n : ℕ) (src : ℕ → Byte) :
    (m.writeData ptr n src).control = m.control := by
  cases ptr <;> rfl

theorem control_revertFlashFuncs (m : Machine) (task : AsyncTask) :
    (m.revertFlashFuncs task).control = m.control := by
  unfold Machine.revertFlashFuncs
  split
  · rfl
  · split <;> rfl

section Keeps

variable (env : Env) (task : AsyncTask)

theorem executeVectorizeFlash_keeps :
    (executeVectorizeFlash env task).Keeps Machine.control := by
  intro m
  unfold executeVectorizeFlash
  repeat' split
  all_goals rfl

theorem executeExclusive_keeps : (executeExclusive task).Keeps Machine.bookkeeping := by
  intro m
  unfold executeExclusive
  split <;> rfl

theorem executeExitXip_keeps : (executeExitXip env task).Keeps Machine.control := by
  intro m
  unfold executeExitXip
  split <;> rfl

theorem executeExec_keeps : (executeExec env task).Keeps Machine.control := by
  intro m
  unfold executeExec
  split <;> rfl

theorem executeMutationSource_keeps :
    (executeMutationSource task).Keeps Machine.interruptSide := by
  intro m
  unfold executeMutationSource
  repeat' split
  all_goals rfl

theorem executeFlashErase_keeps :
    (executeFlashErase env task).Keeps Machine.control := by
  intro m
  unfold executeFlashErase
  repeat' split
  all_goals rfl

theorem executeAddressCheck_keeps : (executeAddressCheck task).Keeps Machine.control := by
  intro m
  unfold executeAddressCheck
  repeat' split
  all_goals rfl

theorem executeWrite_keeps : (executeWrite env task).Keeps Machine.control := by
  intro m
  unfold executeWrite
  split
  · split
    · exact control_revertFlashFuncs m task
    · rfl
  · rfl

theorem executeRead_keeps : (executeRead env task).Keeps Machine.control := by
  intro m
  unfold executeRead
  split
  · split
    · exact control_writeData m _ _ _
    · exact (control_writeData _ _ _ _).trans rfl
  · rfl

theorem executeEnterCmdXip_keeps :
    (executeEnterCmdXip env task).Keeps Machine.control := by
  intro m
  unfold executeEnterCmdXip
  split <;> rfl

theorem executeTransfer_keeps : (executeTransfer env task).Keeps Machine.control := by
  intro m
  unfold executeTransfer
  split
  · exact ((executeAddressCheck_keeps task).andThen <| (executeWrite_keeps env task).andThen <|
      (executeRead_keeps env task).andThen <| executeEnterCmdXip_keeps env task) m
  · rfl

/-- A task neither reboots nor touches the queue's slot. -/
theorem executeTask_keeps : (executeTask env task).Keeps Machine.interruptSide := by
  intro m
  unfold executeTask
  split
  · rfl
  · have hkeeps {s : TaskStep} (h : s.Keeps Machine.bookkeeping) :
        s.Keeps Machine.interruptSide := fun m => congrArg Prod.fst (h m)
    exact ((hkeeps (executeVectorizeFlash_keeps env task).bookkeeping).andThen <|
      (hkeeps (executeExclusive_keeps task)).andThen <|
      (hkeeps (executeExitXip_keeps env task).bookkeeping).andThen <|
      (hkeeps (executeExec_keeps env task).bookkeeping).andThen <|
      (executeMutationSource_keeps task).andThen <|
      (hkeeps (executeFlashErase_keeps env task).bookkeeping).andThen <|
      hkeeps (executeTransfer_keeps env task).bookkeeping) m

end Keeps

/-! ## A write to RAM -/

/-- The machine after a task that only writes, and writes to RAM. -/
def Machine.ramWritten (m : Machine) (task : AsyncTask) : Machine :=
  let m := Machine.revertFlashFuncs { m with lastMutationSource := task.source } task
  { m with mem := m.mem.copy task.transferAddr task.dataLength.toNat (m.readData task.data) }

theorem executeTask_ramWrite (env : Env) {task : AsyncTask} {m : Machine}
    (hrebooting : m.rebooting = false) (htype : task.type = atWrite)
    (hcheck : task.checkLastMutationSource = false)
    (hram : isAddressRam task.transferAddr = true)
    (hend : isAddressRam (task.transferAddr + task.dataLength) = true) :
    executeTask env task m = (m.ramWritten task, 0) := by
  have hhas (bits : Byte) : task.has bits = (atWrite &&& bits != 0) := by
    rw [AsyncTask.has, htype]
  have hdirect : task.directAccess = true := by
    rw [AsyncTask.directAccess, hram, hend]
    rfl
  simp only [executeTask, hrebooting, TaskStep.andThen, executeVectorizeFlash, executeExclusive,
    executeExitXip, executeExec, executeMutationSource, executeFlashErase, executeTransfer,
    executeAddressCheck, executeWrite, executeRead, executeEnterCmdXip, hhas, hcheck, hdirect]
  rfl

theorem ramWritten_eq (m : Machine) (task : AsyncTask) :
    ∃ ff, m.ramWritten task =
      { m with
          lastMutationSource := task.source
          flashFuncs := ff
          mem := m.mem.copy task.transferAddr task.dataLength.toNat (m.readData task.data) } := by
  have hread (ff : FlashFuncsPtr) : Machine.readData
      { m with lastMutationSource := task.source, flashFuncs := ff } task.data =
        m.readData task.data := by
    cases task.data <;> rfl
  unfold Machine.ramWritten Machine.revertFlashFuncs
  dsimp only
  split
  · next hff => exact ⟨m.flashFuncs, by rw [← hread m.flashFuncs]⟩
  · split
    · exact ⟨.rom, by rw [← hread .rom]⟩
    · exact ⟨m.flashFuncs, by rw [← hread m.flashFuncs]⟩

/-! ## The worker's turn -/

theorem executeVirtualDiskTask_interruptSide (env : Env) (task : AsyncTask) (d : VirtualDisk) :
    (executeVirtualDiskTask env task d).1.interruptSide = d.interruptSide := by
  unfold executeVirtualDiskTask
  split
  · rfl
  · exact executeTask_keeps env task d.toMachine

@[simp] theorem executeVirtualDiskTask_uf2Info (env : Env) (task : AsyncTask) (d : VirtualDisk) :
    (executeVirtualDiskTask env task d).1.uf2Info = d.uf2Info := by
  unfold executeVirtualDiskTask
  split <;> rfl

@[simp] theorem executeVirtualDiskTask_uf2ValidRamBlocks (env : Env) (task : AsyncTask)
    (d : VirtualDisk) :
    (executeVirtualDiskTask env task d).1.uf2ValidRamBlocks = d.uf2ValidRamBlocks := by
  unfold executeVirtualDiskTask
  split <;> rfl

@[simp] theorem writeUf2PageComplete_uf2Info (task : AsyncTask) (d : VirtualDisk) :
    (writeUf2PageComplete task d).uf2Info = d.uf2Info := by
  unfold writeUf2PageComplete
  repeat' split
  all_goals rfl

@[simp] theorem writeUf2PageComplete_uf2ValidRamBlocks (task : AsyncTask) (d : VirtualDisk) :
    (writeUf2PageComplete task d).uf2ValidRamBlocks = d.uf2ValidRamBlocks := by
  unfold writeUf2PageComplete
  repeat' split
  all_goals rfl

@[simp] theorem work_uf2Info (env : Env) (d : VirtualDisk) :
    (work env d).uf2Info = d.uf2Info := by
  unfold work
  dsimp only
  split
  · rfl
  · simp

@[simp] theorem work_uf2ValidRamBlocks (env : Env) (d : VirtualDisk) :
    (work env d).uf2ValidRamBlocks = d.uf2ValidRamBlocks := by
  unfold work
  dsimp only
  split
  · rfl
  · simp

/-- The call of `safe_reboot` that `_write_uf2_page_complete` makes. -/
def completionReboot (u : Uf2Info) : Word × Word × Word :=
  (if u.ram then u.lowestAddr else 0, sramEnd, 1000)

theorem writeUf2PageComplete_reboots (task : AsyncTask) (d : VirtualDisk) :
    (writeUf2PageComplete task d).reboots = d.reboots ∨
      (task.token = d.uf2Info.token ∧ task.result = 0 ∧
        d.uf2Info.validBlockCount = d.uf2Info.numBlocks ∧
        (writeUf2PageComplete task d).reboots = d.reboots ++ [completionReboot d.uf2Info]) := by
  unfold writeUf2PageComplete
  split
  · next htoken =>
    split
    · next h => exact .inr ⟨htoken, h.1, h.2, rfl⟩
    · exact .inl rfl
  · exact .inl rfl

/-- The disk once the worker has taken the task out of the queue. -/
def VirtualDisk.taken (d : VirtualDisk) : VirtualDisk :=
  { d with virtualDiskQueue := { d.virtualDiskQueue with full := false } }

theorem work_of_full (env : Env) {d : VirtualDisk} (h : d.virtualDiskQueue.full = true) :
    work env d = writeUf2PageComplete (executeVirtualDiskTask env d.virtualDiskQueue.task d.taken).2
      (executeVirtualDiskTask env d.virtualDiskQueue.task d.taken).1 := by
  rw [work, dequeueTask, if_pos h]
  rfl

theorem work_of_not_full (env : Env) {d : VirtualDisk} (h : d.virtualDiskQueue.full = false) :
    work env d = d := by
  rw [work, dequeueTask, if_neg (by simp [h])]

theorem executeVirtualDiskTask_of_enabled (env : Env) (task : AsyncTask) {d : VirtualDisk}
    (h : d.virtualDiskQueue.disable = false) :
    executeVirtualDiskTask env task d =
      ({ d with toMachine := (executeTask env task d.toMachine).1 },
        { task with result := (executeTask env task d.toMachine).2 }) := by
  rw [executeVirtualDiskTask, if_neg (by simp [h])]

/-- The worker's turn on a task that succeeds and is the latest one queued : the device
reboots if every block has been counted. -/
theorem work_of_ok (env : Env) {d : VirtualDisk} {m : Machine}
    (hfull : d.virtualDiskQueue.full = true) (henabled : d.virtualDiskQueue.disable = false)
    (htoken : d.virtualDiskQueue.task.token = d.uf2Info.token)
    (hexec : executeTask env d.virtualDiskQueue.task d.taken.toMachine = (m, 0)) :
    work env d = { d with
      toMachine :=
        if d.uf2Info.validBlockCount = d.uf2Info.numBlocks then
          safeReboot (if d.uf2Info.ram then d.uf2Info.lowestAddr else 0) sramEnd 1000 m
        else m } := by
  rw [work_of_full env hfull, executeVirtualDiskTask_of_enabled env _ (d := d.taken) henabled,
    hexec]
  have htoken' : d.virtualDiskQueue.task.token = d.taken.uf2Info.token := htoken
  simp only [writeUf2PageComplete, htoken', true_and, if_true]
  by_cases hcount : d.uf2Info.validBlockCount = d.uf2Info.numBlocks
  · have hcount' : d.taken.uf2Info.validBlockCount = d.taken.uf2Info.numBlocks := hcount
    rw [if_pos hcount, if_pos hcount']
    rfl
  · have hcount' : ¬d.taken.uf2Info.validBlockCount = d.taken.uf2Info.numBlocks := hcount
    rw [if_neg hcount, if_neg hcount']
    rfl

/-- What is left of a machine that reboots or does not, besides the reboot. -/
theorem reboot_cases (u : Uf2Info) (m : Machine) :
    let m' := if u.validBlockCount = u.numBlocks then
      safeReboot (if u.ram then u.lowestAddr else 0) sramEnd 1000 m else m
    m'.mem = m.mem ∧ m'.flash = m.flash ∧ m'.flashFuncs = m.flashFuncs ∧
      m'.virtualDiskQueue = m.virtualDiskQueue ∧
      (m'.rebooting, m'.reboots) =
        if u.validBlockCount = u.numBlocks then (true, m.reboots ++ [completionReboot u])
        else (m.rebooting, m.reboots) := by
  by_cases hcount : u.validBlockCount = u.numBlocks <;> simp [hcount, safeReboot, completionReboot]

/-- The worker's turn on a task that writes to RAM and is the latest one queued. -/
theorem work_ramWrite (env : Env) {d : VirtualDisk} {task : AsyncTask}
    (hfull : d.virtualDiskQueue.full = true) (htask : d.virtualDiskQueue.task = task)
    (henabled : d.virtualDiskQueue.disable = false) (hrebooting : d.rebooting = false)
    (htype : task.type = atWrite) (hcheck : task.checkLastMutationSource = false)
    (hram : isAddressRam task.transferAddr = true)
    (hend : isAddressRam (task.transferAddr + task.dataLength) = true)
    (htoken : task.token = d.uf2Info.token) :
    (work env d).mem =
        d.mem.copy task.transferAddr task.dataLength.toNat (d.readData task.data) ∧
      (work env d).virtualDiskQueue.disable = false ∧
      ((work env d).rebooting, (work env d).reboots) =
        if d.uf2Info.validBlockCount = d.uf2Info.numBlocks then
          (true, d.reboots ++ [completionReboot d.uf2Info])
        else (false, d.reboots) := by
  subst htask
  have hread : Machine.readData d.taken.toMachine d.virtualDiskQueue.task.data =
      d.readData d.virtualDiskQueue.task.data := by
    cases d.virtualDiskQueue.task.data <;> rfl
  obtain ⟨ff, hwritten⟩ := ramWritten_eq d.taken.toMachine d.virtualDiskQueue.task
  rw [hread] at hwritten
  have hexec := executeTask_ramWrite env (m := d.taken.toMachine) hrebooting htype hcheck hram hend
  obtain ⟨hmem, -, -, hqueue, hout⟩ :=
    reboot_cases d.uf2Info (d.taken.toMachine.ramWritten d.virtualDiskQueue.task)
  rw [work_of_ok env hfull henabled htoken hexec]
  refine ⟨hmem.trans (by rw [hwritten]; rfl), ?_, hout.trans ?_⟩
  · exact (congrArg AsyncTaskQueue.disable hqueue).trans (by rw [hwritten]; exact henabled)
  · rw [hwritten]
    simp only [VirtualDisk.taken, hrebooting]

/-- The worker reboots, if at all, once every block of the image has been counted. -/
theorem work_reboots (env : Env) (d : VirtualDisk) :
    (work env d).reboots = d.reboots ∨
      (d.uf2Info.validBlockCount = d.uf2Info.numBlocks ∧
        (work env d).reboots = d.reboots ++ [completionReboot d.uf2Info]) := by
  cases hfull : d.virtualDiskQueue.full with
  | false => exact .inl (by rw [work_of_not_full env hfull])
  | true =>
    rw [work_of_full env hfull]
    have hreboots : (executeVirtualDiskTask env d.virtualDiskQueue.task d.taken).1.reboots =
        d.reboots :=
      congrArg (fun p => p.2.1) (executeVirtualDiskTask_interruptSide env _ d.taken)
    have h := writeUf2PageComplete_reboots
      (executeVirtualDiskTask env d.virtualDiskQueue.task d.taken).2
      (executeVirtualDiskTask env d.virtualDiskQueue.task d.taken).1
    rw [executeVirtualDiskTask_uf2Info, hreboots] at h
    exact h.imp_right fun ⟨_, _, hcount, heq⟩ => ⟨hcount, heq⟩

/-! ## What receiving a sector leaves alone -/

/-- What `vd_write_block` does not touch. -/
def VirtualDisk.device (d : VirtualDisk) :
    FlashDevice × Uf2Block × (ℕ → Byte) × FlashFuncsPtr × TaskSource × Bool × Bool × Bool ×
      List (Word × Word × Word) × List Word :=
  (d.flash, d.sectorBuf, d.picobootBuffer, d.flashFuncs, d.lastMutationSource,
    d.virtualDiskQueue.disable, d.ejected, d.rebooting, d.reboots, d.execs)

@[simp] theorem setBitmap_device (d : VirtualDisk) (p : BitmapPtr) (i : ℕ) :
    (d.setBitmap p i).device = d.device := by
  cases p <;> rfl

@[simp] theorem clearBitset_device (d : VirtualDisk) (p : BitmapPtr) (n : Word) :
    (d.clearBitset p n).device = d.device := by
  cases p <;> rfl

theorem resetUf2Info_device (uf2 : Uf2Block) (d : VirtualDisk) :
    (resetUf2Info uf2 d).device = d.device := by
  unfold resetUf2Info
  dsimp only
  split
  · exact (clearBitset_device _ _ _).trans (clearBitset_device _ _ _)
  · exact clearBitset_device _ _ _

theorem prepareUf2Task_device (uf2 : Uf2Block) (token : Word) (type : Byte) (d : VirtualDisk) :
    (prepareUf2Task uf2 token type d).1.device = d.device := by
  unfold prepareUf2Task
  repeat' split
  all_goals rfl

theorem updateCurrentUf2Info_device (uf2 : Uf2Block) (token : Word) (d : VirtualDisk) :
    (updateCurrentUf2Info uf2 token d).1.device = d.device := by
  unfold updateCurrentUf2Info
  dsimp only
  repeat' split
  · rfl
  · rfl
  · exact resetUf2Info_device uf2 d
  · exact (prepareUf2Task_device _ _ _ _).trans (resetUf2Info_device uf2 d)
  · exact (prepareUf2Task_device _ _ _ _).trans (resetUf2Info_device uf2 d)
  · exact prepareUf2Task_device _ _ _ _

theorem eraseOnFirstUse_device (d : VirtualDisk) : (eraseOnFirstUse d).device = d.device := by
  unfold eraseOnFirstUse
  dsimp only
  split
  · rfl
  · exact setBitmap_device d _ _

theorem writeUf2Page_device (d : VirtualDisk) : (writeUf2Page d).1.device = d.device := by
  unfold writeUf2Page
  dsimp only
  split
  · rfl
  · refine (setBitmap_device _ _ _).trans ?_
    split
    · rfl
    · exact eraseOnFirstUse_device _

theorem vdWriteBlock_device (token : Word) (d : VirtualDisk) :
    (vdWriteBlock token d).1.device = d.device := by
  unfold vdWriteBlock
  dsimp only
  split
  · split
    · exact (writeUf2Page_device _).trans (updateCurrentUf2Info_device _ _ _)
    · exact updateCurrentUf2Info_device _ _ _
  · rfl

theorem receiveSector_device (uf2 : Uf2Block) (token : Word) (d : VirtualDisk) :
    (receiveSector uf2 token d).1.device = (d.filled uf2).device :=
  vdWriteBlock_device token (d.filled uf2)

theorem receiveSector_reboots (uf2 : Uf2Block) (token : Word) (d : VirtualDisk) :
    (receiveSector uf2 token d).1.reboots = d.reboots :=
  congrArg (fun p => p.2.2.2.2.2.2.2.2.1) (receiveSector_device uf2 token d)

end PicoBootrom
