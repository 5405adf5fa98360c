import PicoBootrom.Interleaving

/-!
# The turns of the worker

`BootWorld` has the worker dequeue, execute and complete a task in one step. Here the turn is
split at the points where an interrupt of one of the two interfaces can come in between : the
task is taken out of its queue, `_execute_task` runs, and the callback is called
(`WorkerWorld`, `workerStep`). A turn without an interrupt in between is the step of `BootWorld`
(`after_turn`).

The events keep track of two things that no variable of the code says : for which UF2 transfer a
task was queued, and whether exclusive access is granted.
-/

namespace PicoBootrom

/-! ## Flash calls -/

/-- A call of one of the functions behind `flash_funcs`. -/
inductive FlashCall
  | exitXip (result : Word)
  | eraseRange (addr size : Word)
  | pageProgram (addr : Word)
  deriving DecidableEq

/-- The call erases or programs. -/
def FlashCall.mutates : FlashCall → Bool
  | .exitXip _ => false
  | .eraseRange _ _ => true
  | .pageProgram _ => true

/-- What a call does to the chip. `data` is what a page is programmed with. -/
def FlashCall.run (funcs : FlashFuncs) (data : ℕ → Byte) (d : FlashDevice) :
    FlashCall → FlashDevice
  | .exitXip _ => (funcs.doFlashExitXip d).1
  | .eraseRange addr size => (funcs.doFlashEraseRange addr size d).1
  | .pageProgram addr => (funcs.doFlashPageProgram addr data d).1

section Calls

variable (env : Env) (task : AsyncTask) (m : Machine)

/-- `do_flash_exit_xip` is called. -/
def exitXipCall : List FlashCall :=
  let r := ((executeVectorizeFlash env task).andThen (executeExclusive task)) m
  if r.2 = 0 ∧ task.has atExitXip then
    [.exitXip ((r.1.funcs env).doFlashExitXip r.1.flash).2]
  else []

/-- `do_flash_erase_range` is called. -/
def eraseRangeCall : List FlashCall :=
  let r := ((stagesBeforeMutation env task).andThen (executeMutationSource task)) m
  if r.2 = 0 ∧ task.has atFlashErase ∧ task.eraseAddr &&& (flashSectorEraseSize - 1) = 0 ∧
      task.eraseSize &&& (flashSectorEraseSize - 1) = 0 ∧ isAddressFlash task.eraseAddr ∧
      isAddressFlash (task.eraseAddr + task.eraseSize) then
    [.eraseRange task.eraseAddr task.eraseSize]
  else []

/-- `do_flash_page_program` is called. -/
def pageProgramCall : List FlashCall :=
  let r := ((stagesBeforeMutation env task).andThen <| (executeMutationSource task).andThen <|
    (executeFlashErase env task).andThen <| executeAddressCheck task) m
  if r.2 = 0 ∧ task.has atWrite ∧ task.directAccess = false then
    [.pageProgram task.transferAddr]
  else []

/-- The calls of `_execute_task` to the flash functions that leave XIP mode, erase and program. -/
def flashCalls : List FlashCall :=
  if m.rebooting then []
  else exitXipCall env task m ++ eraseRangeCall env task m ++ pageProgramCall env task m

end Calls

/-! ## The world of the worker -/

/-- The task of the worker : taken out of a queue, or executed, with its result. -/
inductive Worker
  | idle
  | tookDisk (task : AsyncTask)
  | ranDisk (task : AsyncTask)
  | tookCommand (task : AsyncTask)
  | ranCommand (task : AsyncTask)
  deriving DecidableEq

/-- The UF2 transfer that a task is for, and whether its blocks go to flash. -/
structure TransferTag where
  transfer : ℕ
  flash : Bool
  deriving DecidableEq

/-- The two producers, the worker, and what the tasks are for. -/
structure WorkerWorld where
  disk : VirtualDisk
  picoboot : Picoboot
  worker : Worker := .idle
  /-- The number of UF2 transfers opened. -/
  transfer : ℕ := 0
  /-- What the latest task of the virtual disk is for. -/
  queuedTag : TransferTag := ⟨0, false⟩
  /-- What the task of the virtual disk that the worker took is for. -/
  workerTag : TransferTag := ⟨0, false⟩
  /-- The calls that tasks of flash transfers have made, in order. -/
  calls : List (ℕ × FlashCall) := []
  /-- An `EXCLUSIVE_ACCESS` task with a parameter other than zero was executed, and nothing has
  taken it back. -/
  granted : Bool := false

/-- What happens next. -/
inductive WorkerEvent
  | sector (uf2 : Uf2Block) (token : Word)
  | command (len : ℕ) (cmd : PicobootCmd)
  | chunk (chunkLen : Word)
  /-- The worker takes a task out of one of the queues. -/
  | take
  /-- The worker executes the task it took. -/
  | run
  /-- The worker calls the callback of the task it executed. -/
  | complete
  | mscReset
  | picobootReset

/-- The task gets to the branch for `AT_EXCLUSIVE`. -/
def setsExclusive (env : Env) (task : AsyncTask) (m : Machine) : Bool :=
  task.has atExclusive && !m.rebooting && (executeVectorizeFlash env task m).2 == 0

/-- `execute_task` for `picoboot_queue`, up to the callback. -/
def executeCommandTask (env : Env) (task : AsyncTask) (p : Picoboot) (m : Machine) :
    Machine × AsyncTask :=
  let r := if p.queue.disable then (m, 1) else executeTask env task m
  (r.1, { task with result := r.2 })

/-- `_execute_task` for the task that the worker took. -/
def runTask (env : Env) (w : WorkerWorld) : WorkerWorld :=
  match w.worker with
  | .tookDisk task =>
    let r := executeVirtualDiskTask env task w.disk
    { w with
        disk := r.1
        worker := .ranDisk r.2
        calls :=
          if !w.disk.virtualDiskQueue.disable && w.workerTag.flash then
            w.calls ++ (flashCalls env task w.disk.toMachine).map (w.workerTag.transfer, ·)
          else w.calls }
  | .tookCommand task =>
    let r := executeCommandTask env task w.picoboot w.disk.toMachine
    { w with
        disk := { w.disk with toMachine := r.1 }
        worker := .ranCommand r.2
        granted :=
          if !w.picoboot.queue.disable && setsExclusive env task w.disk.toMachine then
            task.exclusiveParam != 0
          else w.granted }
  | _ => w

/-- The callback of the task that the worker executed. -/
def completeTurn (w : WorkerWorld) : WorkerWorld :=
  match w.worker with
  | .ranDisk task => { w with disk := writeUf2PageComplete task w.disk, worker := .idle }
  | .ranCommand task => { w with picoboot := w.picoboot.completeTask task, worker := .idle }
  | _ => w

/-- The worker looks for a task, in the queue of the virtual disk first. -/
def takeTask (w : WorkerWorld) : WorkerWorld :=
  match w.worker with
  | .idle =>
    if w.disk.virtualDiskQueue.full then
      { w with
          disk := w.disk.taken
          worker := .tookDisk w.disk.virtualDiskQueue.task
          workerTag := w.queuedTag }
    else if w.picoboot.queue.full then
      { w with
          picoboot := { w.picoboot with queue := { w.picoboot.queue with full := false } }
          worker := .tookCommand w.picoboot.queue.task }
    else w
  | _ => w

/-- A command, with the reboot or the task it goes on with. -/
def receiveCommand (len : ℕ) (cmd : PicobootCmd) (w : WorkerWorld) : WorkerWorld :=
  let r := w.picoboot.readCommand len cmd
  let w := { w with picoboot := r.1 }
  match r.2 with
  | .reboot pc sp delayMs =>
    { w with
        disk := { w.disk with toMachine := safeReboot pc sp delayMs w.disk.toMachine }
        picoboot := w.picoboot.ack }
  | .stream _ _ => w
  | .queueTask => { w with picoboot := w.picoboot.queueCommandTask }
  | .halt => w

/-- One event. -/
def workerStep (env : Env) (w : WorkerWorld) : WorkerEvent → WorkerWorld
  | .sector uf2 token =>
    let r := receiveSector uf2 token w.disk
    let transfer := if opensTransfer uf2 w.disk then w.transfer + 1 else w.transfer
    { w with
        disk := r.1
        transfer := transfer
        queuedTag := if r.2 then ⟨transfer, !r.1.uf2Info.ram⟩ else w.queuedTag }
  | .command len cmd => receiveCommand len cmd w
  | .chunk chunkLen => { w with picoboot := w.picoboot.onStreamChunk chunkLen }
  | .take => takeTask w
  | .run => runTask env w
  | .complete => completeTurn w
  | .mscReset => { w with disk := vdReset w.disk }
  | .picobootReset =>
    { w with
        disk := { w.disk with virtualDiskQueue := resetQueue w.disk.virtualDiskQueue }
        picoboot := w.picoboot.reset
        granted := false }

/-- The world of the producers without the phases of the worker. -/
def WorkerWorld.boot (w : WorkerWorld) : BootWorld := { disk := w.disk, picoboot := w.picoboot }

/-- A turn without an interrupt is the step of the worker in `BootWorld`. -/
theorem after_turn (env : Env) {w : WorkerWorld} (hidle : w.worker = .idle) :
    (Run.after (workerStep env) w [.take, .run, .complete]).disk =
        (bootStep env w.boot .work).disk ∧
      (Run.after (workerStep env) w [.take, .run, .complete]).picoboot =
        (bootStep env w.boot .work).picoboot := by
  cases hdisk : w.disk.virtualDiskQueue.full with
  | true =>
    simp [Run.after, workerStep, takeTask, runTask, completeTurn, hidle, hdisk, bootStep, workDisk,
      WorkerWorld.boot]
  | false =>
    cases hqueue : w.picoboot.queue.full with
    | true =>
      simp only [Run.after, List.foldl, workerStep, takeTask, runTask, completeTurn,
        executeCommandTask, hidle, hdisk, hqueue, bootStep, workCommand, WorkerWorld.boot, if_true,
        Bool.false_eq_true, if_false]
      exact ⟨rfl, rfl⟩
    | false =>
      simp [Run.after, workerStep, takeTask, runTask, completeTurn, hidle, hdisk, hqueue, bootStep,
        WorkerWorld.boot]

end PicoBootrom
