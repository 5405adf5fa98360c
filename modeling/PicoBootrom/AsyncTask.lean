import PicoBootrom.Address

/-!
# Tasks and their execution

The tasks of `async_task.h`, the one-slot queues that hand them to the worker thread, and
`_execute_task`. A task is copied into the queue by value, but its `data` is a pointer :
the worker reads the buffer as it is when the task runs.

`Machine` is what a task can read or change : the memory the CPU addresses, the flash
chip, the two data buffers, the table `flash_funcs` points at and the statics of
`async_task.c`. `executeTask` goes through the bits of `task->type` in the order of the
source, one definition for each `if (type & …)`. Every early `return` of the source
returns a non-zero status, so the stages are chained by `TaskStep.andThen`, which stops at
the first one.

Three things are not in the repository and are parameters (`Env`) : what the code called
by `AT_EXEC` does, the bytes of `default_flash_funcs` once linked, and the functions a
table with other bytes points at.
-/

namespace PicoBootrom

/-! ## Status codes and task types -/

def picobootOk : Word := 0
def picobootUnknownCmd : Word := 1
def picobootInvalidCmdLength : Word := 2
def picobootInvalidTransferLength : Word := 3
def picobootInvalidAddress : Word := 4
def picobootBadAlignment : Word := 5
def picobootInterleavedWrite : Word := 6
def picobootRebooting : Word := 7

def atExitXip : Byte := 0x01
def atFlashErase : Byte := 0x02
def atRead : Byte := 0x04
def atWrite : Byte := 0x08
def atExclusive : Byte := 0x10
def atEnterCmdXip : Byte := 0x20
def atExec : Byte := 0x40
def atVectorizeFlash : Byte := 0x80

/-- `EXCLUSIVE_AND_EJECT`. -/
def exclusiveAndEject : Byte := 2

/-- `enum task_source`. `none` is the zero that cleared structs hold. -/
inductive TaskSource
  | none
  | virtualDisk
  | picoboot
  deriving DecidableEq, Repr

/-- The callbacks a task is queued with. -/
inductive AsyncTaskCallback
  | none
  | writeUf2PageComplete
  | atcAck
  | atcChunkTaskDone
  deriving DecidableEq, Repr

/-- What `task->data` points at : nothing, `uf2->data` in `_sector_buf`, or the `_buffer`
of the PICOBOOT stream. -/
inductive DataPtr
  | null
  | uf2Data
  | picobootBuffer
  deriving DecidableEq, Repr

/-- `struct async_task`. The defaults are those of `reset_task`, which clears the struct. -/
structure AsyncTask where
  token : Word := 0
  result : Word := 0
  callback : AsyncTaskCallback := .none
  transferAddr : Word := 0
  eraseAddr : Word := 0
  eraseSize : Word := 0
  data : DataPtr := .null
  dataLength : Word := 0
  picobootUserToken : Word := 0
  type : Byte := 0
  exclusiveParam : Byte := 0
  source : TaskSource := .none
  checkLastMutationSource : Bool := false
  deriving DecidableEq, Repr

/-- `reset_task`. -/
def resetTask : AsyncTask := {}

/-- `task->type & bits`. -/
def AsyncTask.has (task : AsyncTask) (bits : Byte) : Bool :=
  task.type &&& bits != 0

/-! ## Queues -/

/-- `struct async_task_queue`. -/
structure AsyncTaskQueue where
  task : AsyncTask := {}
  full : Bool := false
  disable : Bool := false
  deriving DecidableEq, Repr

/-- `queue_task` : the caller's struct gets the callback and its copy fills the slot. -/
def queueTask (queue : AsyncTaskQueue) (task : AsyncTask) (callback : AsyncTaskCallback) :
    AsyncTaskQueue × AsyncTask :=
  let task := { task with callback := callback }
  ({ queue with task := task, full := true }, task)

/-- `dequeue_task`. -/
def dequeueTask (queue : AsyncTaskQueue) : AsyncTaskQueue × Option AsyncTask :=
  if queue.full then ({ queue with full := false }, some queue.task) else (queue, none)

/-- `async_disable_queue`. -/
def asyncDisableQueue (queue : AsyncTaskQueue) (disable : Bool) : AsyncTaskQueue :=
  { queue with disable := disable }

/-- `reset_queue`. -/
def resetQueue (queue : AsyncTaskQueue) : AsyncTaskQueue :=
  asyncDisableQueue { queue with full := false } false

/-! ## The machine a task runs on -/

/-- `struct uf2_block`, the 512 bytes of a sector. `data` is the array of 476 bytes. -/
structure Uf2Block where
  magicStart0 : Word
  magicStart1 : Word
  flags : Word
  targetAddr : Word
  payloadSize : Word
  blockNo : Word
  numBlocks : Word
  fileSize : Word
  data : ℕ → Byte
  magicEnd : Word

/-- The calls the flash chip has seen, with the address each was given. -/
inductive FlashOp
  | enterCmdXip
  | exitXip
  | eraseSector (addr : Word)
  | pageProgram (addr : Word)
  | pageRead (addr : Word)
  deriving DecidableEq, Repr

/-- The flash chip : its cells by offset from `XIP_MAIN_BASE`, and the calls so far. -/
structure FlashDevice where
  cells : Memory 32
  ops : List FlashOp

/-- `struct flash_funcs`. A function returns the chip it leaves and its result. -/
structure FlashFuncs where
  doFlashEnterCmdXip : FlashDevice → FlashDevice × Word
  doFlashExitXip : FlashDevice → FlashDevice × Word
  doFlashEraseSector : Word → FlashDevice → FlashDevice × Word
  doFlashEraseRange : Word → Word → FlashDevice → FlashDevice × Word
  doFlashPageProgram : Word → (ℕ → Byte) → FlashDevice → FlashDevice × Word
  doFlashPageRead : Word → FlashDevice → FlashDevice × (ℕ → Byte) × Word

/-- `sizeof(struct flash_funcs)`. -/
def sizeofFlashFuncs : Word := 28

/-- Where `flash_funcs` points : `default_flash_funcs` in ROM, or a table in RAM. -/
inductive FlashFuncsPtr
  | rom
  | ram (addr : Word)
  deriving DecidableEq, Repr

/-- What the build and the host supply. -/
structure Env where
  /-- What the code at an address does to memory and flash when `AT_EXEC` calls it. -/
  callee : Word → Memory 32 × FlashDevice → Memory 32 × FlashDevice
  /-- The bytes of `default_flash_funcs`. -/
  defaultFlashFuncsBytes : ℕ → Byte
  /-- The functions that a table with other bytes points at. -/
  foreignFlashFuncs : (ℕ → Byte) → FlashFuncs

/-- The state a task acts on. -/
structure Machine where
  mem : Memory 32
  flash : FlashDevice
  sectorBuf : Uf2Block
  picobootBuffer : ℕ → Byte
  flashFuncs : FlashFuncsPtr
  lastMutationSource : TaskSource
  virtualDiskQueue : AsyncTaskQueue
  /-- `_msc_state.ejected`. -/
  ejected : Bool
  /-- `rebooting` of `runtime.c`. -/
  rebooting : Bool
  /-- The `(pc, sp, delay_ms)` of the calls to `safe_reboot`. -/
  reboots : List (Word × Word × Word)
  /-- The addresses `AT_EXEC` has called. -/
  execs : List Word

/-- Byte `i` of the buffer `data` points at. A null pointer reads the ROM. -/
def Machine.readData (m : Machine) : DataPtr → ℕ → Byte
  | .null => fun i => m.mem (BitVec.ofNat 32 i)
  | .uf2Data => m.sectorBuf.data
  | .picobootBuffer => m.picobootBuffer

/-- The first `n` bytes of the buffer `data` points at set to `src`. ROM ignores writes. -/
def Machine.writeData (m : Machine) (ptr : DataPtr) (n : ℕ) (src : ℕ → Byte) : Machine :=
  match ptr with
  | .null => m
  | .uf2Data => { m with sectorBuf := { m.sectorBuf with
      data := fun i => if i < n then src i else m.sectorBuf.data i } }
  | .picobootBuffer =>
    { m with picobootBuffer := fun i => if i < n then src i else m.picobootBuffer i }

/-- `safe_reboot`, which is `watchdog_reboot`. -/
def safeReboot (addr sp delayMs : Word) (m : Machine) : Machine :=
  { m with rebooting := true, reboots := m.reboots ++ [(addr, sp, delayMs)] }

/-! ## The flash functions of the ROM -/

/-- `_do_flash_enter_cmd_xip`. -/
def doFlashEnterCmdXip (d : FlashDevice) : FlashDevice × Word :=
  ({ d with ops := d.ops ++ [.enterCmdXip] }, 0)

/-- `_do_flash_exit_xip`. -/
def doFlashExitXip (d : FlashDevice) : FlashDevice × Word :=
  ({ d with ops := d.ops ++ [.exitXip] }, 0)

/-- `_do_flash_erase_sector` : the cells of the sector become `0xff`. The chip of the model takes
the whole offset. On the bus the offset has 24 bits, and from `0x1000000` on its top byte is mixed
with the command (`flashPutCmdAddr`), which is left out here. -/
def doFlashEraseSector (addr : Word) (d : FlashDevice) : FlashDevice × Word :=
  ({ cells := d.cells.fill (addr - xipMainBase) flashSectorEraseSize.toNat 0xff
     ops := d.ops ++ [.eraseSector addr] }, 0)

/-- The loop of `_do_flash_erase_range`, for `n` turns at most. -/
def eraseRangeLoop (eraseSector : Word → FlashDevice → FlashDevice × Word) (stop : Word) :
    ℕ → Word → FlashDevice → FlashDevice × Word
  | 0, _, d => (d, picobootOk)
  | n + 1, addr, d =>
    if addr < stop then
      let r := eraseSector addr d
      if r.2 = 0 then eraseRangeLoop eraseSector stop n (addr + flashSectorEraseSize) r.1 else r
    else (d, picobootOk)

/-- `_do_flash_erase_range`. The sectors that start below `stop` bound the turns. -/
def doFlashEraseRange (eraseSector : Word → FlashDevice → FlashDevice × Word)
    (addr len : Word) (d : FlashDevice) : FlashDevice × Word :=
  let stop := addr + len
  eraseRangeLoop eraseSector stop ((stop.toNat - addr.toNat + 4095) / 4096) addr d

/-- `_do_flash_page_program` : a page keeps the bits that are one in `data` and in the cell. As in
`doFlashEraseSector`, the command is not mixed with an offset from `0x1000000` on. -/
def doFlashPageProgram (addr : Word) (data : ℕ → Byte) (d : FlashDevice) :
    FlashDevice × Word :=
  ({ cells := d.cells.program (addr - xipMainBase) flashPageSize.toNat data
     ops := d.ops ++ [.pageProgram addr] }, 0)

/-- `_do_flash_page_read`. As in `doFlashEraseSector`, the command is not mixed with an offset from
`0x1000000` on. -/
def doFlashPageRead (addr : Word) (d : FlashDevice) : FlashDevice × (ℕ → Byte) × Word :=
  ({ d with ops := d.ops ++ [.pageRead addr] },
    fun i => d.cells (addr - xipMainBase + BitVec.ofNat 32 i), 0)

/-- `default_flash_funcs`. -/
def defaultFlashFuncs : FlashFuncs where
  doFlashEnterCmdXip := doFlashEnterCmdXip
  doFlashExitXip := doFlashExitXip
  doFlashEraseSector := doFlashEraseSector
  doFlashEraseRange := doFlashEraseRange doFlashEraseSector
  doFlashPageProgram := doFlashPageProgram
  doFlashPageRead := doFlashPageRead

/-- The functions behind `flash_funcs` : those of the ROM while the table in RAM still
holds the bytes that were copied there. -/
def Machine.funcs (env : Env) (m : Machine) : FlashFuncs :=
  match m.flashFuncs with
  | .rom => defaultFlashFuncs
  | .ram addr =>
    if ∀ i < sizeofFlashFuncs.toNat,
        m.mem (addr + BitVec.ofNat 32 i) = env.defaultFlashFuncsBytes i then
      defaultFlashFuncs
    else env.foreignFlashFuncs fun i => m.mem (addr + BitVec.ofNat 32 i)

/-! ## `_execute_task` -/

/-- A stage of `_execute_task` : the machine it leaves and a status, zero to go on. -/
abbrev TaskStep := Machine → Machine × Word

/-- Go on with `g` unless `f` returned. -/
def TaskStep.andThen (f g : TaskStep) : TaskStep := fun m =>
  let r := f m
  if r.2 = 0 then g r.1 else r

/-- A flash function run on the machine's chip. -/
def Machine.onFlash (m : Machine) (f : FlashDevice → FlashDevice × Word) : Machine × Word :=
  let r := f m.flash
  ({ m with flash := r.1 }, r.2)

/-- `FLASH_VALID_BLOCKS_BASE`. -/
def flashValidBlocksBase : Word := xipSramBase

/-- `FLASH_BITMAPS_SIZE`. -/
def flashBitmapsSize : Word := xipSramEnd - xipSramBase

/-- `_is_address_safe_for_vectoring`. -/
def isAddressSafeForVectoring (addr : Word) : Bool :=
  isAddressRam addr &&
    (addr < flashValidBlocksBase || flashValidBlocksBase + flashBitmapsSize < addr)

/-- `if (type & AT_VECTORIZE_FLASH)`. -/
def executeVectorizeFlash (env : Env) (task : AsyncTask) : TaskStep := fun m =>
  if task.has atVectorizeFlash then
    if task.transferAddr &&& 1 ≠ 0 then (m, picobootBadAlignment)
    else if isAddressSafeForVectoring task.transferAddr &&
        isAddressSafeForVectoring (task.transferAddr + sizeofFlashFuncs) then
      ({ m with
          mem := m.mem.copy task.transferAddr sizeofFlashFuncs.toNat env.defaultFlashFuncsBytes
          flashFuncs := .ram task.transferAddr }, 0)
    else (m, picobootInvalidAddress)
  else (m, 0)

/-- `if (type & AT_EXCLUSIVE)`. -/
def executeExclusive (task : AsyncTask) : TaskStep := fun m =>
  if task.has atExclusive then
    ({ m with
        virtualDiskQueue := asyncDisableQueue m.virtualDiskQueue (task.exclusiveParam != 0)
        ejected := m.ejected || task.exclusiveParam == exclusiveAndEject }, 0)
  else (m, 0)

/-- `if (type & AT_EXIT_XIP)`. -/
def executeExitXip (env : Env) (task : AsyncTask) : TaskStep := fun m =>
  if task.has atExitXip then m.onFlash (m.funcs env).doFlashExitXip else (m, 0)

/-- `if (type & AT_EXEC)`. -/
def executeExec (env : Env) (task : AsyncTask) : TaskStep := fun m =>
  if task.has atExec then
    let r := env.callee (task.transferAddr ||| 1) (m.mem, m.flash)
    ({ m with mem := r.1, flash := r.2, execs := m.execs ++ [task.transferAddr ||| 1] }, 0)
  else (m, 0)

/-- `if (type & (AT_WRITE | AT_FLASH_ERASE))`. -/
def executeMutationSource (task : AsyncTask) : TaskStep := fun m =>
  if task.has (atWrite ||| atFlashErase) then
    if task.checkLastMutationSource && m.lastMutationSource != task.source then
      (m, picobootInterleavedWrite)
    else ({ m with lastMutationSource := task.source }, 0)
  else (m, 0)

/-- `if (type & AT_FLASH_ERASE)`. -/
def executeFlashErase (env : Env) (task : AsyncTask) : TaskStep := fun m =>
  if task.has atFlashErase then
    if task.eraseAddr &&& (flashSectorEraseSize - 1) ≠ 0 then (m, picobootBadAlignment)
    else if task.eraseSize &&& (flashSectorEraseSize - 1) ≠ 0 then (m, picobootBadAlignment)
    else if !(isAddressFlash task.eraseAddr &&
        isAddressFlash (task.eraseAddr + task.eraseSize)) then (m, picobootInvalidAddress)
    else m.onFlash ((m.funcs env).doFlashEraseRange task.eraseAddr task.eraseSize)
  else (m, 0)

/-- The range of the transfer is in one of the windows the CPU can address. -/
def AsyncTask.directAccess (task : AsyncTask) : Bool :=
  (isAddressRam task.transferAddr && isAddressRam (task.transferAddr + task.dataLength)) ||
    (!task.has atWrite && isAddressRom task.transferAddr &&
      isAddressRom (task.transferAddr + task.dataLength))

/-- The choice between memory and flash, with the checks of the flash range. -/
def executeAddressCheck (task : AsyncTask) : TaskStep := fun m =>
  if task.directAccess then (m, 0)
  else if isAddressFlash task.transferAddr &&
      isAddressFlash (task.transferAddr + task.dataLength) then
    if task.transferAddr &&& (flashPageSize - 1) ≠ 0 then (m, picobootBadAlignment) else (m, 0)
  else (m, picobootInvalidAddress)

/-- The bytes of the table at `ff` overlap those of the transfer, in 32-bit arithmetic. -/
def overlapsFlashFuncs (ff : Word) (task : AsyncTask) : Bool :=
  max ff.toNat task.transferAddr.toNat <
    min (ff + sizeofFlashFuncs).toNat (task.transferAddr + task.dataLength).toNat

/-- `flash_funcs` after a write to RAM : back to the ROM if the write hits the table. The
table in ROM overlaps no write. -/
def Machine.revertFlashFuncs (m : Machine) (task : AsyncTask) : Machine :=
  match m.flashFuncs with
  | .rom => m
  | .ram ff => if overlapsFlashFuncs ff task then { m with flashFuncs := .rom } else m

/-- `if (type & AT_WRITE)` inside the transfer. -/
def executeWrite (env : Env) (task : AsyncTask) : TaskStep := fun m =>
  if task.has atWrite then
    if task.directAccess then
      let m := m.revertFlashFuncs task
      ({ m with
          mem := m.mem.copy task.transferAddr task.dataLength.toNat (m.readData task.data) }, 0)
    else m.onFlash ((m.funcs env).doFlashPageProgram task.transferAddr (m.readData task.data))
  else (m, 0)

/-- `if (type & AT_READ)` inside the transfer. -/
def executeRead (env : Env) (task : AsyncTask) : TaskStep := fun m =>
  if task.has atRead then
    if task.directAccess then
      (m.writeData task.data task.dataLength.toNat fun i =>
        m.mem (task.transferAddr + BitVec.ofNat 32 i), 0)
    else
      let r := (m.funcs env).doFlashPageRead task.transferAddr m.flash
      (Machine.writeData { m with flash := r.1 } task.data flashPageSize.toNat r.2.1, r.2.2)
  else (m, 0)

/-- `if (type & AT_ENTER_CMD_XIP)`, which the source nests inside the transfer. -/
def executeEnterCmdXip (env : Env) (task : AsyncTask) : TaskStep := fun m =>
  if task.has atEnterCmdXip then m.onFlash (m.funcs env).doFlashEnterCmdXip else (m, 0)

/-- `if (type & (AT_WRITE | AT_READ))`. -/
def executeTransfer (env : Env) (task : AsyncTask) : TaskStep := fun m =>
  if task.has (atWrite ||| atRead) then
    ((executeAddressCheck task).andThen <| (executeWrite env task).andThen <|
      (executeRead env task).andThen <| executeEnterCmdXip env task) m
  else (m, 0)

/-- `_execute_task`. -/
def executeTask (env : Env) (task : AsyncTask) : TaskStep := fun m =>
  if m.rebooting then (m, picobootRebooting)
  else
    ((executeVectorizeFlash env task).andThen <| (executeExclusive task).andThen <|
      (executeExitXip env task).andThen <| (executeExec env task).andThen <|
      (executeMutationSource task).andThen <| (executeFlashErase env task).andThen <|
      executeTransfer env task) m

/-! ## The stages one by one -/

theorem TaskStep.andThen_of_ok {f g : TaskStep} {m m' : Machine} (h : f m = (m', 0)) :
    (f.andThen g) m = g m' := by
  simp [TaskStep.andThen, h]

theorem TaskStep.andThen_of_error {f g : TaskStep} {m m' : Machine} {status : Word}
    (h : f m = (m', status)) (hstatus : status ≠ 0) : (f.andThen g) m = (m', status) := by
  simp only [TaskStep.andThen, h, if_neg hstatus]

theorem Machine.funcs_of_rom (env : Env) {m : Machine} (h : m.flashFuncs = .rom) :
    m.funcs env = defaultFlashFuncs := by
  rw [Machine.funcs, h]

section Skip

variable (env : Env) {task : AsyncTask}

theorem executeVectorizeFlash_of_not (h : task.has atVectorizeFlash = false) (m : Machine) :
    executeVectorizeFlash env task m = (m, 0) := by
  simp [executeVectorizeFlash, h]

theorem executeExclusive_of_not (h : task.has atExclusive = false) (m : Machine) :
    executeExclusive task m = (m, 0) := by
  simp [executeExclusive, h]

theorem executeExitXip_of_not (h : task.has atExitXip = false) (m : Machine) :
    executeExitXip env task m = (m, 0) := by
  simp [executeExitXip, h]

theorem executeExec_of_not (h : task.has atExec = false) (m : Machine) :
    executeExec env task m = (m, 0) := by
  simp [executeExec, h]

theorem executeRead_of_not (h : task.has atRead = false) (m : Machine) :
    executeRead env task m = (m, 0) := by
  simp [executeRead, h]

theorem executeEnterCmdXip_of_not (h : task.has atEnterCmdXip = false) (m : Machine) :
    executeEnterCmdXip env task m = (m, 0) := by
  simp [executeEnterCmdXip, h]

end Skip

end PicoBootrom
