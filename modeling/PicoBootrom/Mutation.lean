import PicoBootrom.Delivery
import PicoBootrom.PicobootCommand

/-!
# Tasks that mutate

A task with `AT_WRITE` or `AT_FLASH_ERASE` changes RAM or flash. `_execute_task` notes its
producer in `_last_mutation_source`, and refuses a task with `check_last_mutation_source`
when the other producer was the last. `getsToMutate` says that a task runs and gets past this
check.

A task of the virtual disk never carries the flag (`IsPageTask`) : it is set on `next_task`
once its copy is in the queue, and the next block starts with a `reset_task`. A mutating task
of a PICOBOOT command does nothing before the check (`IsCommandTask`).
-/

namespace PicoBootrom

/-! ## The check of the last source -/

theorem TaskStep.andThen_assoc (f g h : TaskStep) :
    (f.andThen g).andThen h = f.andThen (g.andThen h) := by
  funext m
  unfold TaskStep.andThen
  dsimp only
  by_cases hf : (f m).2 = 0
  · simp only [if_pos hf]
  · simp only [if_neg hf]

/-- The task changes RAM or flash. -/
def AsyncTask.mutates (task : AsyncTask) : Bool :=
  task.has (atWrite ||| atFlashErase)

/-- The stages before the check of the last source. -/
def stagesBeforeMutation (env : Env) (task : AsyncTask) : TaskStep :=
  (executeVectorizeFlash env task).andThen <| (executeExclusive task).andThen <|
    (executeExitXip env task).andThen <| executeExec env task

/-- The stages after the check. -/
def stagesAfterMutation (env : Env) (task : AsyncTask) : TaskStep :=
  (executeFlashErase env task).andThen <| executeTransfer env task

/-- The task runs and gets past the check. -/
def getsToMutate (env : Env) (task : AsyncTask) (m : Machine) : Bool :=
  task.mutates && !m.rebooting &&
    ((stagesBeforeMutation env task).andThen (executeMutationSource task) m).2 == 0

theorem executeTask_of_running (env : Env) (task : AsyncTask) {m : Machine}
    (h : m.rebooting = false) : executeTask env task m =
      ((stagesBeforeMutation env task).andThen <| (executeMutationSource task).andThen <|
        stagesAfterMutation env task) m := by
  rw [executeTask, if_neg (by simp [h])]
  simp only [stagesBeforeMutation, stagesAfterMutation, TaskStep.andThen_assoc]

theorem stagesBeforeMutation_keeps (env : Env) (task : AsyncTask) :
    (stagesBeforeMutation env task).Keeps Machine.bookkeeping :=
  (executeVectorizeFlash_keeps env task).bookkeeping.andThen <|
    (executeExclusive_keeps task).andThen <| (executeExitXip_keeps env task).bookkeeping.andThen <|
    (executeExec_keeps env task).bookkeeping

theorem stagesAfterMutation_keeps (env : Env) (task : AsyncTask) :
    (stagesAfterMutation env task).Keeps Machine.bookkeeping :=
  ((executeFlashErase_keeps env task).andThen <| executeTransfer_keeps env task).bookkeeping

section MutationSource

variable {task : AsyncTask} {m : Machine}

theorem executeMutationSource_of_not (h : task.mutates = false) :
    executeMutationSource task m = (m, 0) :=
  if_neg (Bool.eq_false_iff.1 h)

theorem executeMutationSource_of_interleaved (h : task.mutates = true)
    (hcheck : task.checkLastMutationSource = true) (hsource : m.lastMutationSource ≠ task.source) :
    executeMutationSource task m = (m, picobootInterleavedWrite) :=
  (if_pos h).trans (if_pos (by simpa [hcheck] using hsource))

theorem executeMutationSource_of_same (h : task.mutates = true)
    (hcheck : task.checkLastMutationSource = true → m.lastMutationSource = task.source) :
    executeMutationSource task m = ({ m with lastMutationSource := task.source }, 0) :=
  (if_pos h).trans (if_neg (by simpa using hcheck))

end MutationSource

/-- The last source after a task is that of the task if it got to mutate. -/
theorem executeTask_lastMutationSource (env : Env) (task : AsyncTask) (m : Machine) :
    (executeTask env task m).1.lastMutationSource =
      if getsToMutate env task m then task.source else m.lastMutationSource := by
  cases hrebooting : m.rebooting with
  | true => simp [executeTask, getsToMutate, hrebooting]
  | false =>
  have hbefore : (stagesBeforeMutation env task m).1.lastMutationSource = m.lastMutationSource :=
    congrArg Prod.snd (stagesBeforeMutation_keeps env task m)
  have hafter (m' : Machine) :
      (stagesAfterMutation env task m').1.lastMutationSource = m'.lastMutationSource :=
    congrArg Prod.snd (stagesAfterMutation_keeps env task m')
  rw [executeTask_of_running env task hrebooting, getsToMutate, hrebooting]
  rcases hr : stagesBeforeMutation env task m with ⟨m₁, status⟩
  rw [hr] at hbefore
  by_cases hstatus : status = 0
  · subst hstatus
    rw [TaskStep.andThen_of_ok hr, TaskStep.andThen_of_ok hr]
    cases hmutates : task.mutates with
    | false =>
      rw [TaskStep.andThen_of_ok (executeMutationSource_of_not hmutates), hafter, hbefore]
      rfl
    | true =>
      by_cases hcheck :
          task.checkLastMutationSource = true → m₁.lastMutationSource = task.source
      · have hok := executeMutationSource_of_same hmutates hcheck
        rw [TaskStep.andThen_of_ok hok, hafter, hok]
        rfl
      · rw [Classical.not_imp] at hcheck
        have herror := executeMutationSource_of_interleaved hmutates hcheck.1 hcheck.2
        rw [TaskStep.andThen_of_error herror (by decide), herror]
        exact hbefore
  · rw [TaskStep.andThen_of_error hr hstatus, TaskStep.andThen_of_error hr hstatus]
    have hstatus' : (status == 0) = false := by simpa using hstatus
    simp only [hstatus', Bool.and_false]
    exact hbefore

/-- A task that checks gets to mutate after a task of its own source only. -/
theorem getsToMutate_source {env : Env} {task : AsyncTask} {m : Machine}
    (h : getsToMutate env task m = true) (hcheck : task.checkLastMutationSource = true) :
    m.lastMutationSource = task.source := by
  simp only [getsToMutate, Bool.and_eq_true, beq_iff_eq] at h
  obtain ⟨⟨hmutates, -⟩, hok⟩ := h
  have hbefore : (stagesBeforeMutation env task m).1.lastMutationSource = m.lastMutationSource :=
    congrArg Prod.snd (stagesBeforeMutation_keeps env task m)
  rcases hr : stagesBeforeMutation env task m with ⟨m₁, status⟩
  rw [hr] at hbefore
  by_cases hstatus : status = 0
  · subst hstatus
    rw [TaskStep.andThen_of_ok hr] at hok
    by_contra hne
    rw [executeMutationSource_of_interleaved hmutates hcheck fun heq => hne
      (hbefore.symm.trans heq)] at hok
    cases hok
  · rw [TaskStep.andThen_of_error hr hstatus] at hok
    exact absurd hok hstatus

/-- The task is refused because of the last source, and changes neither RAM nor flash. -/
def Rejected (env : Env) (task : AsyncTask) (m : Machine) : Prop :=
  (executeTask env task m).2 = picobootInterleavedWrite ∧
    (executeTask env task m).1.mem = m.mem ∧ (executeTask env task m).1.flash = m.flash

/-- A task that does nothing before the check, and checks, is refused after another source. -/
theorem rejected_of_check (env : Env) {task : AsyncTask} {m : Machine}
    (hrebooting : m.rebooting = false) (hmutates : task.mutates = true)
    (hvec : task.has atVectorizeFlash = false) (hexcl : task.has atExclusive = false)
    (hexit : task.has atExitXip = false) (hexec : task.has atExec = false)
    (hcheck : task.checkLastMutationSource = true)
    (hsource : m.lastMutationSource ≠ task.source) : Rejected env task m := by
  have hbefore : stagesBeforeMutation env task m = (m, 0) := by
    rw [stagesBeforeMutation, TaskStep.andThen_of_ok (executeVectorizeFlash_of_not env hvec m),
      TaskStep.andThen_of_ok (executeExclusive_of_not hexcl m),
      TaskStep.andThen_of_ok (executeExitXip_of_not env hexit m), executeExec_of_not env hexec m]
  have hmutation := executeMutationSource_of_interleaved hmutates hcheck hsource
  have heq : executeTask env task m = (m, picobootInterleavedWrite) := by
    rw [executeTask_of_running env task hrebooting, TaskStep.andThen_of_ok hbefore,
      TaskStep.andThen_of_error hmutation (by decide)]
  rw [Rejected, heq]
  exact ⟨rfl, rfl, rfl⟩

/-! ## Tasks without the check -/

/-- On the flash functions of the ROM the stage does not return the code of the check. -/
def TaskStep.NotInterleaved (s : TaskStep) : Prop :=
  ∀ m, m.flashFuncs = .rom → (s m).2 ≠ picobootInterleavedWrite ∧ (s m).1.flashFuncs = .rom

theorem TaskStep.NotInterleaved.andThen {s s' : TaskStep} (hs : s.NotInterleaved)
    (hs' : s'.NotInterleaved) : (s.andThen s').NotInterleaved := by
  intro m hm
  unfold TaskStep.andThen
  dsimp only
  split
  · exact hs' _ (hs m hm).2
  · exact hs m hm

theorem ok_ne_interleaved : (0 : Word) ≠ picobootInterleavedWrite := by
  decide

theorem eraseRangeLoop_ok (stop : Word) (n : ℕ) (addr : Word) (d : FlashDevice) :
    (eraseRangeLoop doFlashEraseSector stop n addr d).2 = 0 := by
  induction n generalizing addr d with
  | zero => rfl
  | succ n ih =>
    rw [eraseRangeLoop]
    split
    · exact ih _ _
    · rfl

section NotInterleaved

variable (env : Env) (task : AsyncTask)

theorem executeExclusive_notInterleaved : (executeExclusive task).NotInterleaved := by
  intro m hm
  unfold executeExclusive
  split <;> exact ⟨ok_ne_interleaved, hm⟩

theorem executeExitXip_notInterleaved : (executeExitXip env task).NotInterleaved := by
  intro m hm
  unfold executeExitXip
  split
  · rw [Machine.onFlash, Machine.funcs_of_rom env hm]
    exact ⟨ok_ne_interleaved, hm⟩
  · exact ⟨ok_ne_interleaved, hm⟩

theorem executeExec_notInterleaved : (executeExec env task).NotInterleaved := by
  intro m hm
  unfold executeExec
  split <;> exact ⟨ok_ne_interleaved, hm⟩

theorem executeMutationSource_notInterleaved (h : task.checkLastMutationSource = false) :
    (executeMutationSource task).NotInterleaved := by
  intro m hm
  unfold executeMutationSource
  rw [h]
  split <;> exact ⟨ok_ne_interleaved, hm⟩

theorem executeFlashErase_notInterleaved : (executeFlashErase env task).NotInterleaved := by
  intro m hm
  have hstatus : picobootBadAlignment ≠ picobootInterleavedWrite ∧
      picobootInvalidAddress ≠ picobootInterleavedWrite := by decide
  unfold executeFlashErase
  split
  · split
    · exact ⟨hstatus.1, hm⟩
    · split
      · exact ⟨hstatus.1, hm⟩
      · split
        · exact ⟨hstatus.2, hm⟩
        · rw [Machine.onFlash, Machine.funcs_of_rom env hm]
          have hok : (doFlashEraseRange doFlashEraseSector task.eraseAddr task.eraseSize
              m.flash).2 = 0 := eraseRangeLoop_ok _ _ _ _
          exact ⟨fun h => ok_ne_interleaved (hok.symm.trans h), hm⟩
  · exact ⟨ok_ne_interleaved, hm⟩

theorem executeAddressCheck_notInterleaved : (executeAddressCheck task).NotInterleaved := by
  intro m hm
  have hstatus : picobootBadAlignment ≠ picobootInterleavedWrite ∧
      picobootInvalidAddress ≠ picobootInterleavedWrite := by decide
  unfold executeAddressCheck
  repeat' split
  · exact ⟨ok_ne_interleaved, hm⟩
  · exact ⟨hstatus.1, hm⟩
  · exact ⟨ok_ne_interleaved, hm⟩
  · exact ⟨hstatus.2, hm⟩

theorem executeWrite_notInterleaved : (executeWrite env task).NotInterleaved := by
  intro m hm
  have hrevert : m.revertFlashFuncs task = m := by rw [Machine.revertFlashFuncs, hm]
  unfold executeWrite
  split
  · split
    · rw [hrevert]
      exact ⟨ok_ne_interleaved, hm⟩
    · rw [Machine.onFlash, Machine.funcs_of_rom env hm]
      exact ⟨ok_ne_interleaved, hm⟩
  · exact ⟨ok_ne_interleaved, hm⟩

theorem flashFuncs_writeData (m : Machine) (ptr : DataPtr) (n : ℕ) (src : ℕ → Byte) :
    (m.writeData ptr n src).flashFuncs = m.flashFuncs := by
  cases ptr <;> rfl

theorem executeRead_notInterleaved : (executeRead env task).NotInterleaved := by
  intro m hm
  unfold executeRead
  split
  · split
    · exact ⟨ok_ne_interleaved, (flashFuncs_writeData _ _ _ _).trans hm⟩
    · rw [Machine.funcs_of_rom env hm]
      exact ⟨ok_ne_interleaved, (flashFuncs_writeData _ _ _ _).trans hm⟩
  · exact ⟨ok_ne_interleaved, hm⟩

theorem executeEnterCmdXip_notInterleaved : (executeEnterCmdXip env task).NotInterleaved := by
  intro m hm
  unfold executeEnterCmdXip
  split
  · rw [Machine.onFlash, Machine.funcs_of_rom env hm]
    exact ⟨ok_ne_interleaved, hm⟩
  · exact ⟨ok_ne_interleaved, hm⟩

theorem executeTransfer_notInterleaved : (executeTransfer env task).NotInterleaved := by
  intro m hm
  unfold executeTransfer
  split
  · exact ((executeAddressCheck_notInterleaved task).andThen <|
      (executeWrite_notInterleaved env task).andThen <|
      (executeRead_notInterleaved env task).andThen <|
      executeEnterCmdXip_notInterleaved env task) m hm
  · exact ⟨ok_ne_interleaved, hm⟩

end NotInterleaved

/-- A task without the check is not refused, on the flash functions of the ROM. -/
theorem not_rejected_of_no_check (env : Env) {task : AsyncTask} {m : Machine}
    (hrom : m.flashFuncs = .rom) (hvec : task.has atVectorizeFlash = false)
    (hcheck : task.checkLastMutationSource = false) : ¬Rejected env task m := by
  rintro ⟨hresult, -, -⟩
  have hvectorize : (executeVectorizeFlash env task).NotInterleaved := by
    intro m hm
    rw [executeVectorizeFlash_of_not env hvec m]
    exact ⟨ok_ne_interleaved, hm⟩
  cases hrebooting : m.rebooting with
  | true =>
    rw [executeTask, if_pos hrebooting] at hresult
    cases hresult
  | false =>
    rw [executeTask, if_neg (by simp [hrebooting])] at hresult
    exact ((hvectorize.andThen <| (executeExclusive_notInterleaved task).andThen <|
      (executeExitXip_notInterleaved env task).andThen <|
      (executeExec_notInterleaved env task).andThen <|
      (executeMutationSource_notInterleaved task hcheck).andThen <|
      (executeFlashErase_notInterleaved env task).andThen <|
      executeTransfer_notInterleaved env task) m hrom).1 hresult

/-! ## The tasks of the two producers -/

/-- A task of the virtual disk does not check the last source. -/
structure IsPageTask (task : AsyncTask) : Prop where
  check : task.checkLastMutationSource = false
  source : task.source = .virtualDisk
  vectorize : task.has atVectorizeFlash = false

theorem prepareUf2Task_isPageTask {uf2 : Uf2Block} {token : Word} {type : Byte}
    {d : VirtualDisk} (htype : type &&& atVectorizeFlash = 0)
    (h : (prepareUf2Task uf2 token type d).2 = true) :
    IsPageTask (prepareUf2Task uf2 token type d).1.uf2Info.nextTask := by
  unfold prepareUf2Task at h ⊢
  split
  · simp_all
  · split
    · exact ⟨rfl, rfl, bne_eq_false_iff_eq.2 htype⟩
    · simp_all

theorem updateCurrentUf2Info_isPageTask {uf2 : Uf2Block} {token : Word} {d : VirtualDisk}
    (h : (updateCurrentUf2Info uf2 token d).2 = true) :
    IsPageTask (updateCurrentUf2Info uf2 token d).1.uf2Info.nextTask := by
  unfold updateCurrentUf2Info at h ⊢
  by_cases hgarbage : uf2.garbage = true
  · simp [hgarbage] at h
  by_cases hdisable : d.virtualDiskQueue.disable = true
  · simp [hdisable, hgarbage] at h
  rw [if_neg hgarbage, if_neg hdisable] at h ⊢
  by_cases hnew : d.uf2Info.numBlocks ≠ uf2.numBlocks
  · rw [if_pos hnew] at h ⊢
    by_cases hbig : (resetUf2Info uf2 d).uf2Info.maxValidBlocks < uf2.numBlocks
    · simp [hbig] at h
    · simp only [if_neg hbig] at h ⊢
      exact prepareUf2Task_isPageTask (by split <;> decide) h
  · rw [if_neg hnew] at h ⊢
    exact prepareUf2Task_isPageTask (by decide) h

theorem IsPageTask.eraseOnFirstUse {d : VirtualDisk} (h : IsPageTask d.uf2Info.nextTask) :
    IsPageTask (eraseOnFirstUse d).uf2Info.nextTask := by
  unfold PicoBootrom.eraseOnFirstUse
  dsimp only
  split
  · exact h
  · refine ⟨h.check, h.source, ?_⟩
    have hvec := h.vectorize
    have herase : atFlashErase &&& atVectorizeFlash = 0 := by decide
    simp only [AsyncTask.has, bne_eq_false_iff_eq] at hvec ⊢
    rw [BitVec.and_or_distrib_right, hvec, herase]
    rfl

theorem writeUf2Page_isPageTask {d : VirtualDisk} (hnext : IsPageTask d.uf2Info.nextTask)
    (h : (writeUf2Page d).2 = true) : IsPageTask (writeUf2Page d).1.virtualDiskQueue.task := by
  unfold writeUf2Page at h ⊢
  by_cases hmark : d.testBitmap d.uf2Info.validBlocks d.uf2Info.blockNo.toNat = true
  · simp [hmark] at h
  · rw [if_neg hmark]
    have hqueued {task : AsyncTask} (h : IsPageTask task) (callback : AsyncTaskCallback) :
        IsPageTask { task with callback := callback } := ⟨h.check, h.source, h.vectorize⟩
    simp only [queueTask, VirtualDisk.setBitmap_uf2Info]
    refine hqueued ?_ _
    split
    · exact hnext
    · exact IsPageTask.eraseOnFirstUse hnext

theorem writeUf2Page_of_not_queued {d : VirtualDisk} (h : (writeUf2Page d).2 = false) :
    (writeUf2Page d).1 = d := by
  unfold writeUf2Page at h ⊢
  split
  · rfl
  · simp_all

theorem prepareUf2Task_virtualDiskQueue (uf2 : Uf2Block) (token : Word) (type : Byte)
    (d : VirtualDisk) : (prepareUf2Task uf2 token type d).1.virtualDiskQueue =
      d.virtualDiskQueue := by
  unfold prepareUf2Task
  repeat' split
  all_goals rfl

theorem updateCurrentUf2Info_virtualDiskQueue (uf2 : Uf2Block) (token : Word) (d : VirtualDisk) :
    (updateCurrentUf2Info uf2 token d).1.virtualDiskQueue = d.virtualDiskQueue := by
  unfold updateCurrentUf2Info
  dsimp only
  repeat' split
  · rfl
  · rfl
  · exact resetUf2Info_virtualDiskQueue uf2 d
  · exact (prepareUf2Task_virtualDiskQueue _ _ _ _).trans (resetUf2Info_virtualDiskQueue uf2 d)
  · exact (prepareUf2Task_virtualDiskQueue _ _ _ _).trans (resetUf2Info_virtualDiskQueue uf2 d)
  · exact prepareUf2Task_virtualDiskQueue _ _ _ _

/-- A sector leaves the task of a block in the queue, or what was there. -/
theorem receiveSector_isPageTask (uf2 : Uf2Block) (token : Word) {d : VirtualDisk}
    (h : d.virtualDiskQueue.full = true → IsPageTask d.virtualDiskQueue.task)
    (hfull : (receiveSector uf2 token d).1.virtualDiskQueue.full = true) :
    IsPageTask (receiveSector uf2 token d).1.virtualDiskQueue.task := by
  unfold receiveSector vdWriteBlock at hfull ⊢
  split at hfull
  · next hfor =>
    rw [if_pos hfor]
    dsimp only at hfull ⊢
    split at hfull
    · next hok =>
      rw [if_pos hok]
      cases hqueued : (writeUf2Page (updateCurrentUf2Info (d.filled uf2).sectorBuf token
          (d.filled uf2)).1).2 with
      | true => exact writeUf2Page_isPageTask (updateCurrentUf2Info_isPageTask hok) hqueued
      | false =>
        rw [writeUf2Page_of_not_queued hqueued, updateCurrentUf2Info_virtualDiskQueue] at hfull ⊢
        exact h hfull
    · next hno =>
      rw [if_neg hno, updateCurrentUf2Info_virtualDiskQueue]
      rw [updateCurrentUf2Info_virtualDiskQueue] at hfull
      exact h hfull
  · next hfor =>
    rw [if_neg hfor]
    exact h hfull

/-- A task of a PICOBOOT command that mutates does nothing before it. -/
structure IsCommandTask (task : AsyncTask) : Prop where
  source : task.source = .picoboot
  type : task.type = atWrite ∨ task.type = atFlashErase

theorem PicobootCmd.type_cases {cmd : PicobootCmd} {row : CmdMapping}
    (hrow : cmd.mapping = some row)
    (h : cmd.type row &&& (atWrite ||| atFlashErase) ≠ 0) :
    cmd.type row = atWrite ∨ cmd.type row = atFlashErase := by
  have hmem : row ∈ cmdMapping := by
    unfold PicobootCmd.mapping at hrow
    split at hrow
    · cases hrow
    · exact List.mem_of_getElem? hrow
  have hall : ∀ row ∈ cmdMapping, row.type &&& (atWrite ||| atFlashErase) ≠ 0 →
      row.type = atWrite ∨ row.type = atFlashErase := by decide
  unfold PicobootCmd.type at h ⊢
  split at h
  · next hlength =>
    rw [if_pos hlength]
    exact hall row hmem h
  · exact absurd rfl h

theorem dispatch_isCommandTask (cmd : PicobootCmd) {type : Byte} {p : Picoboot}
    (htype : type &&& (atWrite ||| atFlashErase) ≠ 0 → type = atWrite ∨ type = atFlashErase)
    (hfresh : p.task.mutates = false)
    (h : (Picoboot.dispatch cmd type p).1.task.mutates = true) :
    IsCommandTask (Picoboot.dispatch cmd type p).1.task := by
  have hno : p.task.mutates ≠ true := Bool.eq_false_iff.1 hfresh
  have hyes (task : AsyncTask) (hm : task.mutates = true) (ht : task.type = type)
      (hs : task.source = .picoboot) : IsCommandTask task :=
    ⟨hs, ht ▸ htype (ht ▸ bne_iff_ne.1 hm)⟩
  unfold Picoboot.dispatch at h ⊢
  by_cases hreboot : cmd.bCmdId = pcReboot
  · rw [if_pos hreboot] at h
    exact absurd h hno
  rw [if_neg hreboot] at h ⊢
  by_cases hzero : type ≠ 0
  · rw [if_pos hzero] at h ⊢
    by_cases hlength : cmd.dTransferLength ≠ 0
    · simp only [if_pos hlength] at h ⊢
      exact hyes _ h rfl rfl
    · simp only [if_neg hlength] at h ⊢
      exact hyes _ h rfl rfl
  · rw [if_neg hzero] at h
    exact absurd h hno

theorem readCommand_isCommandTask (len : ℕ) (cmd : PicobootCmd) {p : Picoboot}
    (h : p.task.mutates = true → IsCommandTask p.task)
    (hmutates : (p.readCommand len cmd).1.task.mutates = true) :
    IsCommandTask (p.readCommand len cmd).1.task := by
  have hpre : (p.preInit cmd).task.mutates = false := by
    simp [Picoboot.preInit, AsyncTask.mutates, AsyncTask.has, resetTask]
  unfold Picoboot.readCommand at hmutates ⊢
  by_cases hread : len = sizeofPicobootCmd ∧ cmd.dMagic = picobootMagic
  · rw [if_pos hread] at hmutates ⊢
    cases hrow : cmd.mapping with
    | none =>
      rw [hrow] at hmutates
      cases hpre.symm.trans hmutates
    | some row =>
      rw [hrow] at hmutates
      dsimp only at hmutates ⊢
      by_cases hsize : cmd.bCmdSize = row.size
      · rw [if_pos hsize] at hmutates ⊢
        exact dispatch_isCommandTask cmd (PicobootCmd.type_cases hrow) hpre hmutates
      · rw [if_neg hsize] at hmutates
        cases hpre.symm.trans hmutates
  · rw [if_neg hread] at hmutates ⊢
    exact h hmutates

end PicoBootrom
