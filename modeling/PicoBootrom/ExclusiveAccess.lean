import PicoBootrom.WorkerTurn

/-!
# Exclusive access

`EXCLUSIVE_ACCESS` disables the queue of the virtual disk. The flag is set by the worker, when it
executes the task of the command, so that no task of the virtual disk is executed at this moment.
It is tested where a sector arrives and where `execute_task` runs a task, and a task that was
queued before is refused by the second test.

From the moment the task of the command is executed until it is taken back, by another one or by a
reset of the PICOBOOT interface, nothing that comes from the virtual disk changes RAM, flash, the
XIP state or `_last_mutation_source` (`exclusive_access_respected`).
-/

namespace PicoBootrom

/-! ## The flag -/

/-- The stages of `_execute_task` after the one for `AT_EXCLUSIVE`. -/
def stagesAfterExclusive (env : Env) (task : AsyncTask) : TaskStep :=
  (executeExitXip env task).andThen <| (executeExec env task).andThen <|
    (executeMutationSource task).andThen <| (executeFlashErase env task).andThen <|
    executeTransfer env task

theorem TaskStep.Keeps.virtualDiskQueue {s : TaskStep} (h : s.Keeps Machine.control) :
    s.Keeps (·.virtualDiskQueue) :=
  fun m => congrArg Prod.fst (h m)

theorem stagesAfterExclusive_keeps (env : Env) (task : AsyncTask) :
    (stagesAfterExclusive env task).Keeps (·.virtualDiskQueue) := by
  have hsource : (executeMutationSource task).Keeps (·.virtualDiskQueue) := by
    intro m
    unfold executeMutationSource
    repeat' split
    all_goals rfl
  exact (executeExitXip_keeps env task).virtualDiskQueue.andThen <|
    (executeExec_keeps env task).virtualDiskQueue.andThen <| hsource.andThen <|
    (executeFlashErase_keeps env task).virtualDiskQueue.andThen
      (executeTransfer_keeps env task).virtualDiskQueue

/-- A task changes the flag if and only if it gets to the branch for `AT_EXCLUSIVE`. -/
theorem executeTask_disable (env : Env) (task : AsyncTask) (m : Machine) :
    (executeTask env task m).1.virtualDiskQueue.disable =
      if setsExclusive env task m then task.exclusiveParam != 0
      else m.virtualDiskQueue.disable := by
  have hvectorize : (executeVectorizeFlash env task m).1.virtualDiskQueue = m.virtualDiskQueue :=
    (executeVectorizeFlash_keeps env task).virtualDiskQueue m
  have hrest (m : Machine) : (stagesAfterExclusive env task m).1.virtualDiskQueue =
      m.virtualDiskQueue := stagesAfterExclusive_keeps env task m
  unfold executeTask
  change (if m.rebooting = true then (m, picobootRebooting) else
    ((executeVectorizeFlash env task).andThen <| (executeExclusive task).andThen <|
      stagesAfterExclusive env task) m).1.virtualDiskQueue.disable = _
  cases hrebooting : m.rebooting with
  | true => simp [setsExclusive, hrebooting]
  | false =>
    rw [if_neg Bool.false_ne_true]
    by_cases hok : (executeVectorizeFlash env task m).2 = 0
    · have hexclusive (m : Machine) : (executeExclusive task m).2 = 0 := by
        unfold executeExclusive
        split <;> rfl
      have hset : setsExclusive env task m = task.has atExclusive := by
        rw [setsExclusive, hrebooting, hok]
        simp
      rw [TaskStep.andThen_of_ok (Prod.ext rfl hok),
        TaskStep.andThen_of_ok (Prod.ext rfl (hexclusive _)), hrest, hset]
      unfold executeExclusive
      split
      · rfl
      · rw [hvectorize]
    · have hset : setsExclusive env task m = false := by
        rw [setsExclusive, beq_eq_false_iff_ne.2 hok, Bool.and_false]
      rw [TaskStep.andThen_of_error (Prod.ext rfl rfl) hok, hset]
      exact congrArg AsyncTaskQueue.disable hvectorize

/-! ## What comes from the virtual disk -/

/-- What a task can store : RAM, flash with the XIP state, and the source of the last mutation. -/
def Machine.stored (m : Machine) : Memory 32 × FlashDevice × TaskSource :=
  (m.mem, m.flash, m.lastMutationSource)

/-- The event is a sector, or a turn of the worker with a task of the virtual disk. -/
def WorkerWorld.FromDisk (w : WorkerWorld) : WorkerEvent → Prop
  | .sector _ _ => True
  | .run => ∃ task, w.worker = .tookDisk task
  | .complete => ∃ task, w.worker = .ranDisk task
  | _ => False

/-- A sector that arrives while the queue is disabled is not looked at. -/
theorem receiveSector_stored_of_disabled (uf2 : Uf2Block) (token : Word) {d : VirtualDisk}
    (h : d.virtualDiskQueue.disable = true) : (receiveSector uf2 token d).1.stored = d.stored := by
  have hdisable : (d.filled uf2).virtualDiskQueue.disable = true := h
  unfold receiveSector vdWriteBlock updateCurrentUf2Info
  dsimp only
  simp only [hdisable, if_true]
  split
  · split <;> rfl
  · rfl

theorem writeUf2PageComplete_stored (task : AsyncTask) (d : VirtualDisk) :
    (writeUf2PageComplete task d).stored = d.stored := by
  unfold writeUf2PageComplete
  split
  · split <;> rfl
  · rfl

/-- While the queue is disabled nothing that comes from the virtual disk stores anything. -/
theorem fromDisk_stored (env : Env) {w : WorkerWorld} {e : WorkerEvent}
    (hdisable : w.disk.virtualDiskQueue.disable = true) (hfrom : w.FromDisk e) :
    (workerStep env w e).disk.stored = w.disk.stored := by
  cases e with
  | sector uf2 token => exact receiveSector_stored_of_disabled uf2 token hdisable
  | run =>
    obtain ⟨task, hworker⟩ := hfrom
    simp only [workerStep, runTask, hworker, executeVirtualDiskTask, hdisable, if_true]
  | complete =>
    obtain ⟨task, hworker⟩ := hfrom
    simp only [workerStep, completeTurn, hworker]
    exact writeUf2PageComplete_stored task w.disk
  | _ => exact absurd hfrom id

/-! ## The grant -/

theorem writeUf2PageComplete_disable (task : AsyncTask) (d : VirtualDisk) :
    (writeUf2PageComplete task d).virtualDiskQueue.disable = d.virtualDiskQueue.disable := by
  unfold writeUf2PageComplete
  split
  · split <;> rfl
  · rfl

theorem executeVirtualDiskTask_disable_of_disabled (env : Env) (task : AsyncTask) {d : VirtualDisk}
    (h : d.virtualDiskQueue.disable = true) :
    (executeVirtualDiskTask env task d).1.virtualDiskQueue.disable = true := by
  rw [executeVirtualDiskTask, if_pos h]
  exact h

/-- While exclusive access is granted the queue is disabled. -/
def WorkerWorld.GrantHolds (w : WorkerWorld) : Prop :=
  w.granted = true → w.disk.virtualDiskQueue.disable = true

theorem WorkerWorld.GrantHolds.run (env : Env) {w : WorkerWorld} (h : w.GrantHolds) :
    (runTask env w).GrantHolds := by
  unfold runTask
  split
  · next task _ =>
    intro hgranted
    exact executeVirtualDiskTask_disable_of_disabled env task (h hgranted)
  · next task _ =>
    intro hgranted
    simp only [executeCommandTask] at hgranted ⊢
    cases hqueue : w.picoboot.queue.disable with
    | true =>
      rw [hqueue] at hgranted
      exact h hgranted
    | false =>
      rw [hqueue] at hgranted
      simp only [Bool.not_false, Bool.true_and, Bool.false_eq_true, if_false] at hgranted ⊢
      rw [executeTask_disable]
      split
      · next hset => rwa [if_pos hset] at hgranted
      · next hset =>
        rw [if_neg hset] at hgranted
        exact h hgranted
  · exact h

theorem WorkerWorld.GrantHolds.step (env : Env) {w : WorkerWorld} (h : w.GrantHolds)
    (e : WorkerEvent) : (workerStep env w e).GrantHolds := by
  cases e with
  | sector uf2 token =>
    intro hgranted
    have hdisable : (receiveSector uf2 token w.disk).1.virtualDiskQueue.disable =
        w.disk.virtualDiskQueue.disable :=
      congrArg (fun p => p.2.2.2.2.2.1) (receiveSector_device uf2 token w.disk)
    exact hdisable.trans (h hgranted)
  | command len cmd =>
    unfold workerStep receiveCommand
    dsimp only
    split <;> exact h
  | chunk chunkLen => exact h
  | take =>
    unfold workerStep takeTask
    dsimp only
    repeat' split
    all_goals exact h
  | run => exact h.run env
  | complete =>
    unfold workerStep completeTurn
    dsimp only
    split
    · intro hgranted
      exact (writeUf2PageComplete_disable _ _).trans (h hgranted)
    · exact h
    · exact h
  | mscReset => exact h
  | picobootReset =>
    intro hgranted
    cases hgranted

/-- In every run, while exclusive access is granted, nothing that comes from the virtual disk
changes RAM, flash, the XIP state or the source of the last mutation. -/
theorem exclusive_access_respected (env : Env) (d : VirtualDisk) (p : Picoboot)
    (es : List WorkerEvent) :
    Run.Always (workerStep env)
      (fun w e => w.granted = true → w.FromDisk e →
        (workerStep env w e).disk.stored = w.disk.stored)
      { disk := d, picoboot := p } es := by
  refine (Run.always_of_forall (P := fun _ _ => True) (fun _ _ => trivial) _ es).imp
    (I := WorkerWorld.GrantHolds) (fun w e _ h => h.step env e) ?_ (by rintro ⟨⟩)
  intro w e _ h hgranted hfrom
  exact fromDisk_stored env (h hgranted) hfrom

end PicoBootrom
