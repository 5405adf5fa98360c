import PicoBootrom.Mutation

/-!
# Interleaved writes

Two producers queue tasks that change RAM or flash : `vd_write_block`, and the PICOBOOT
commands with their chunks. The worker runs them one at a time. A transfer of several tasks is
interrupted when a task of the other producer mutates between two of them.

The chunks of a PICOBOOT write carry `check_last_mutation_source` from the second on, so a
UF2 block between two of them is noticed. The task of a UF2 block never carries it, so a
PICOBOOT task between two blocks of a UF2 transfer is not.
-/

namespace PicoBootrom

/-! ## The world of the two producers -/

/-- What a task was queued for : a transfer of the virtual disk, a chunk of a command's
transfer, or a command without one. Transfers and commands are numbered. -/
inductive Origin
  | uf2 (transfer : ℕ)
  | chunk (command : ℕ)
  | single (command : ℕ)
  deriving DecidableEq

/-- The producer. -/
def Origin.source : Origin → TaskSource
  | .uf2 _ => .virtualDisk
  | .chunk _ => .picoboot
  | .single _ => .picoboot

/-- The number of the transfer or the command. -/
def Origin.number : Origin → ℕ
  | .uf2 n => n
  | .chunk n => n
  | .single n => n

/-- The two producers, the worker's machine, and what the tasks were queued for. -/
structure BootWorld where
  disk : VirtualDisk
  picoboot : Picoboot
  /-- The number of UF2 transfers opened. -/
  transfer : ℕ := 0
  /-- The number of commands read. -/
  command : ℕ := 0
  /-- What the latest UF2 task queued is for. -/
  diskOrigin : Origin := .uf2 0
  /-- What the latest PICOBOOT task queued is for. -/
  commandOrigin : Origin := .single 0
  /-- The tasks that got to mutate, the latest first. -/
  log : List Origin := []

/-- What happens next. -/
inductive BootEvent
  | sector (uf2 : Uf2Block) (token : Word)
  /-- A packet of `len` bytes arrives for a command. -/
  | command (len : ℕ) (cmd : PicobootCmd)
  /-- The stream of the command comes to a chunk. -/
  | chunk (chunkLen : Word)
  /-- The worker has its turn. -/
  | work
  | mscReset
  | picobootReset

/-- The callbacks of PICOBOOT tasks. -/
def Picoboot.completeTask (task : AsyncTask) (p : Picoboot) : Picoboot :=
  if p.hasToken task then
    match task.callback with
    | .atcAck => p.ack
    | .atcChunkTaskDone => p.chunkTaskDone task
    | _ => p
  else p

/-- `execute_task` for the virtual disk's queue. -/
def workDisk (env : Env) (w : BootWorld) : BootWorld :=
  let task := w.disk.virtualDiskQueue.task
  let d := w.disk.taken
  let r := executeVirtualDiskTask env task d
  { w with
      disk := writeUf2PageComplete r.2 r.1
      log :=
        if !d.virtualDiskQueue.disable && getsToMutate env task d.toMachine then
          w.diskOrigin :: w.log
        else w.log }

/-- `execute_task` for `picoboot_queue`. -/
def workCommand (env : Env) (w : BootWorld) : BootWorld :=
  let task := w.picoboot.queue.task
  let p := { w.picoboot with queue := { w.picoboot.queue with full := false } }
  let m := w.disk.toMachine
  let r := if p.queue.disable then (m, 1) else executeTask env task m
  { w with
      disk := { w.disk with toMachine := r.1 }
      picoboot := p.completeTask { task with result := r.2 }
      log :=
        if !p.queue.disable && getsToMutate env task m then w.commandOrigin :: w.log else w.log }

/-- One event. -/
def bootStep (env : Env) (w : BootWorld) : BootEvent → BootWorld
  | .sector uf2 token =>
    let r := receiveSector uf2 token w.disk
    let transfer := if opensTransfer uf2 w.disk then w.transfer + 1 else w.transfer
    { w with
        disk := r.1
        transfer := transfer
        diskOrigin := if r.2 then .uf2 transfer else w.diskOrigin }
  | .command len cmd =>
    let r := w.picoboot.readCommand len cmd
    let w := { w with picoboot := r.1, command := w.command + 1 }
    match r.2 with
    | .reboot pc sp delayMs =>
      { w with
          disk := { w.disk with toMachine := safeReboot pc sp delayMs w.disk.toMachine }
          picoboot := w.picoboot.ack }
    | .stream _ _ => w
    | .queueTask =>
      { w with picoboot := w.picoboot.queueCommandTask, commandOrigin := .single w.command }
    | .halt => w
  | .chunk chunkLen =>
    { w with picoboot := w.picoboot.onStreamChunk chunkLen, commandOrigin := .chunk w.command }
  | .work =>
    if w.disk.virtualDiskQueue.full then workDisk env w
    else if w.picoboot.queue.full then workCommand env w
    else w
  | .mscReset => { w with disk := vdReset w.disk }
  | .picobootReset =>
    { w with
        disk := { w.disk with virtualDiskQueue := resetQueue w.disk.virtualDiskQueue }
        picoboot := w.picoboot.reset }

/-- The task that the worker executes in its turn. -/
def BootWorld.next (w : BootWorld) : Option (AsyncTask × Origin) :=
  if w.disk.virtualDiskQueue.full then
    if w.disk.virtualDiskQueue.disable then none
    else some (w.disk.virtualDiskQueue.task, w.diskOrigin)
  else if w.picoboot.queue.full then
    if w.picoboot.queue.disable then none else some (w.picoboot.queue.task, w.commandOrigin)
  else none

theorem BootWorld.next_cases {w : BootWorld} {task : AsyncTask} {o : Origin}
    (h : w.next = some (task, o)) :
    (w.disk.virtualDiskQueue.full = true ∧ task = w.disk.virtualDiskQueue.task ∧
        o = w.diskOrigin) ∨
      (w.picoboot.queue.full = true ∧ task = w.picoboot.queue.task ∧ o = w.commandOrigin) := by
  unfold next at h
  split at h
  · next hfull =>
    split at h
    · cases h
    · cases h
      exact .inl ⟨hfull, rfl, rfl⟩
  · split at h
    · next hfull =>
      split at h
      · cases h
      · cases h
        exact .inr ⟨hfull, rfl, rfl⟩
    · cases h

/-- A task of `o` has mutated, and a task of the other producer since. -/
def Interrupted (log : List Origin) (o : Origin) : Prop :=
  ∃ post pre, log = post ++ o :: pre ∧ ∃ o' ∈ post, o'.source ≠ o.source

/-- The worker executes a mutating task of a transfer that was interrupted. -/
structure BootWorld.Resumes (w : BootWorld) (task : AsyncTask) (o : Origin) : Prop where
  next : w.next = some (task, o)
  mutates : task.mutates = true
  transfer : ∀ n, o ≠ .single n
  interrupted : Interrupted w.log o

/-- An interrupted transfer is noticed. -/
def DetectsInterleaving (env : Env) (w : BootWorld) : BootEvent → Prop
  | .work => ∀ task o, w.Resumes task o → Rejected env task w.disk.taken.toMachine
  | _ => True

/-! ## One turn of the worker -/

theorem workDisk_lastMutationSource (env : Env) (w : BootWorld) :
    (workDisk env w).disk.lastMutationSource =
      if !w.disk.virtualDiskQueue.disable &&
          getsToMutate env w.disk.virtualDiskQueue.task w.disk.taken.toMachine then
        w.disk.virtualDiskQueue.task.source
      else w.disk.lastMutationSource := by
  have hcomplete (task : AsyncTask) (d : VirtualDisk) :
      (writeUf2PageComplete task d).lastMutationSource = d.lastMutationSource := by
    unfold writeUf2PageComplete
    repeat' split
    all_goals rfl
  have htaken : w.disk.taken.virtualDiskQueue.disable = w.disk.virtualDiskQueue.disable := rfl
  simp only [workDisk, hcomplete, executeVirtualDiskTask, htaken]
  cases w.disk.virtualDiskQueue.disable with
  | true => rfl
  | false => exact executeTask_lastMutationSource env _ _

theorem workDisk_full (env : Env) (w : BootWorld) :
    (workDisk env w).disk.virtualDiskQueue.full = false := by
  have hcomplete (task : AsyncTask) (d : VirtualDisk) :
      (writeUf2PageComplete task d).virtualDiskQueue.full = d.virtualDiskQueue.full := by
    unfold writeUf2PageComplete
    repeat' split
    all_goals rfl
  rw [workDisk, hcomplete]
  exact congrArg (fun p => p.2.2.2)
    (executeVirtualDiskTask_interruptSide env w.disk.virtualDiskQueue.task w.disk.taken)

theorem workCommand_lastMutationSource (env : Env) (w : BootWorld) :
    (workCommand env w).disk.lastMutationSource =
      if !w.picoboot.queue.disable &&
          getsToMutate env w.picoboot.queue.task w.disk.toMachine then
        w.picoboot.queue.task.source
      else w.disk.lastMutationSource := by
  simp only [workCommand]
  cases w.picoboot.queue.disable with
  | true => rfl
  | false => exact executeTask_lastMutationSource env _ _

theorem workCommand_virtualDiskQueue (env : Env) (w : BootWorld) :
    (workCommand env w).disk.virtualDiskQueue.task = w.disk.virtualDiskQueue.task ∧
      (workCommand env w).disk.virtualDiskQueue.full = w.disk.virtualDiskQueue.full := by
  simp only [workCommand]
  cases w.picoboot.queue.disable with
  | true => exact ⟨rfl, rfl⟩
  | false =>
    have hkeeps := executeTask_keeps env w.picoboot.queue.task w.disk.toMachine
    simp only [Machine.interruptSide, Prod.mk.injEq] at hkeeps
    exact hkeeps.2.2

/-- A callback changes the address of the task for the next chunk at most. -/
theorem completeTask_cases (task : AsyncTask) (p : Picoboot) :
    (p.completeTask task).queue = p.queue ∧
      ∃ addr, (p.completeTask task).task = { p.task with transferAddr := addr } := by
  unfold Picoboot.completeTask Picoboot.chunkTaskDone
  dsimp only
  repeat' split
  all_goals exact ⟨rfl, _, rfl⟩

/-! ## The invariant -/

/-- The tasks in the queues are as their producers make them, the chunks of a command after
its first one carry the flag, and no task of a PICOBOOT transfer has mutated since the
transfer was interrupted. -/
structure BootWorld.Consistent (w : BootWorld) : Prop where
  diskTask : w.disk.virtualDiskQueue.full = true → IsPageTask w.disk.virtualDiskQueue.task
  diskOrigin : w.diskOrigin.source = .virtualDisk
  template : w.picoboot.task.mutates = true → IsCommandTask w.picoboot.task
  commandTask : w.picoboot.queue.full = true → w.picoboot.queue.task.mutates = true →
    IsCommandTask w.picoboot.queue.task
  commandOrigin : w.commandOrigin.source = .picoboot
  checked : (.chunk w.command ∈ w.log ∨
      (w.picoboot.queue.full = true ∧ w.commandOrigin = .chunk w.command)) →
    w.picoboot.task.checkLastMutationSource = true
  queuedChecked : w.picoboot.queue.full = true → ∀ n, w.commandOrigin = .chunk n →
    .chunk n ∈ w.log → w.picoboot.queue.task.checkLastMutationSource = true
  single : w.picoboot.queue.full = true → ∀ n, w.commandOrigin = .single n → .chunk n ∉ w.log
  le : w.commandOrigin.number ≤ w.command
  logged : ∀ n, .chunk n ∈ w.log → n ≤ w.commandOrigin.number
  interrupted : ∀ n, w.commandOrigin.number ≤ n → Interrupted w.log (.chunk n) →
    w.disk.lastMutationSource = .virtualDisk

theorem Interrupted.mem {log : List Origin} {o : Origin} (h : Interrupted log o) : o ∈ log := by
  obtain ⟨post, pre, rfl, -⟩ := h
  simp

/-- One more task. -/
theorem Interrupted.of_cons {log : List Origin} {o o' : Origin} (h : Interrupted (o' :: log) o)
    (hsame : o'.source = o.source) : Interrupted log o := by
  obtain ⟨post, pre, heq, o'', ho'', hne⟩ := h
  cases post with
  | nil => cases ho''
  | cons x post =>
    obtain ⟨rfl, rfl⟩ := List.cons.inj heq
    refine ⟨post, pre, rfl, o'', ?_, hne⟩
    rcases List.mem_cons.1 ho'' with rfl | ho''
    · exact absurd hsame hne
    · exact ho''

namespace BootWorld.Consistent

variable {w : BootWorld}

theorem sector (env : Env) (h : w.Consistent) (uf2 : Uf2Block) (token : Word) :
    (bootStep env w (.sector uf2 token)).Consistent := by
  have hdevice := receiveSector_device uf2 token w.disk
  simp only [VirtualDisk.device, Prod.mk.injEq] at hdevice
  obtain ⟨-, -, -, -, hlast, -⟩ := hdevice
  exact {
    h with
    diskTask := receiveSector_isPageTask uf2 token h.diskTask
    diskOrigin := by
      simp only [bootStep]
      split
      · rfl
      · exact h.diskOrigin
    interrupted := fun n hn hi => hlast.trans (h.interrupted n hn hi) }

theorem chunk (env : Env) (h : w.Consistent) (chunkLen : Word) :
    (bootStep env w (.chunk chunkLen)).Consistent where
  diskTask := h.diskTask
  diskOrigin := h.diskOrigin
  template hm := ⟨(h.template hm).source, (h.template hm).type⟩
  commandTask _ hm := ⟨(h.template hm).source, (h.template hm).type⟩
  commandOrigin := rfl
  checked _ := rfl
  queuedChecked _ n hn hlog := by
    cases hn
    exact h.checked (.inl hlog)
  single _ n hn := by cases hn
  le := Nat.le_refl _
  logged n hn := Nat.le_trans (h.logged n hn) h.le
  interrupted n hn hi := h.interrupted n (Nat.le_trans h.le hn) hi

theorem mscReset (env : Env) (h : w.Consistent) : (bootStep env w .mscReset).Consistent :=
  { h with }

theorem picobootReset (env : Env) (h : w.Consistent) :
    (bootStep env w .picobootReset).Consistent := by
  exact {
    h with
    diskTask := by rintro ⟨⟩
    commandTask := by rintro ⟨⟩
    checked := by
      rintro (hlog | ⟨⟨⟩, -⟩)
      exact h.checked (.inl hlog)
    queuedChecked := by rintro ⟨⟩
    single := by rintro ⟨⟩ }

/-- A chunk of the next command is neither queued nor run. -/
theorem fresh (h : w.Consistent) : .chunk (w.command + 1) ∉ w.log ∧
    w.commandOrigin ≠ .chunk (w.command + 1) := by
  have hle := h.le
  constructor
  · intro hlog
    have := h.logged _ hlog
    omega
  · intro horigin
    rw [horigin] at hle
    simp only [Origin.number] at hle
    omega

theorem command (env : Env) (h : w.Consistent) (len : ℕ) (cmd : PicobootCmd) :
    (bootStep env w (.command len cmd)).Consistent := by
  obtain ⟨hlog, horigin⟩ := h.fresh
  have hle := h.le
  have htemplate := readCommand_isCommandTask len cmd h.template
  have hqueue := Picoboot.readCommand_queue len cmd w.picoboot
  have hread : Consistent { w with
      picoboot := (w.picoboot.readCommand len cmd).1, command := w.command + 1 } := by
    exact {
      h with
      template := htemplate
      commandTask := by
        dsimp only
        rw [hqueue]
        exact h.commandTask
      checked := by
        rintro (hin | ⟨-, heq⟩)
        · exact absurd hin hlog
        · exact absurd heq horigin
      queuedChecked := by
        dsimp only
        rw [hqueue]
        exact h.queuedChecked
      single := by
        dsimp only
        rw [hqueue]
        exact h.single
      le := Nat.le_succ_of_le hle }
  unfold bootStep
  dsimp only
  cases (w.picoboot.readCommand len cmd).2 with
  | reboot pc sp delayMs => exact { hread with }
  | stream type length => exact hread
  | halt => exact hread
  | queueTask =>
    exact {
      hread with
      template := fun hm => ⟨(htemplate hm).source, (htemplate hm).type⟩
      commandTask := fun _ hm => ⟨(htemplate hm).source, (htemplate hm).type⟩
      commandOrigin := rfl
      checked := by
        rintro (hin | ⟨-, ⟨⟩⟩)
        exact absurd hin hlog
      queuedChecked := by rintro - n ⟨⟩
      single := by
        rintro - n ⟨⟩
        exact hlog
      le := Nat.le_refl _
      logged := fun n hn => Nat.le_trans (h.logged n hn) (Nat.le_succ_of_le hle)
      interrupted := fun n hn hi =>
        h.interrupted n (Nat.le_trans (Nat.le_succ_of_le hle) hn) hi }

theorem workDisk (env : Env) (h : w.Consistent) (hfull : w.disk.virtualDiskQueue.full = true) :
    (workDisk env w).Consistent := by
  have hlast := workDisk_lastMutationSource env w
  have hempty := workDisk_full env w
  have hlog : (PicoBootrom.workDisk env w).log =
      if !w.disk.virtualDiskQueue.disable &&
          getsToMutate env w.disk.virtualDiskQueue.task w.disk.taken.toMachine then
        w.diskOrigin :: w.log
      else w.log := rfl
  have hmem (n : ℕ) : Origin.chunk n ∈ (PicoBootrom.workDisk env w).log ↔ .chunk n ∈ w.log := by
    have hne : Origin.chunk n ≠ w.diskOrigin := fun heq => by
      have horigin := h.diskOrigin
      rw [← heq] at horigin
      cases horigin
    rw [hlog]
    split
    · rw [List.mem_cons, or_iff_right hne]
    · rfl
  exact {
    h with
    diskTask := fun hf => absurd hf (Bool.eq_false_iff.1 hempty)
    checked := fun hin => h.checked (hin.imp_left (hmem w.command).1)
    queuedChecked := fun hf n hn hin => h.queuedChecked hf n hn ((hmem n).1 hin)
    single := fun hf n hn hin => h.single hf n hn ((hmem n).1 hin)
    logged := fun n hin => h.logged n ((hmem n).1 hin)
    interrupted := by
      intro n hn hi
      rw [hlog] at hi
      rw [hlast]
      split
      · exact (h.diskTask hfull).source
      · next hno =>
        rw [if_neg hno] at hi
        exact h.interrupted n hn hi }

theorem workCommand (env : Env) (h : w.Consistent) (hfull : w.picoboot.queue.full = true) :
    (workCommand env w).Consistent := by
  have hlast := workCommand_lastMutationSource env w
  obtain ⟨htask, hslot⟩ := workCommand_virtualDiskQueue env w
  have hlog : (PicoBootrom.workCommand env w).log =
      if !w.picoboot.queue.disable &&
          getsToMutate env w.picoboot.queue.task w.disk.toMachine then
        w.commandOrigin :: w.log
      else w.log := rfl
  obtain ⟨hqueue, addr, hnext⟩ : (PicoBootrom.workCommand env w).picoboot.queue =
        { w.picoboot.queue with full := false } ∧
      ∃ addr, (PicoBootrom.workCommand env w).picoboot.task =
        { w.picoboot.task with transferAddr := addr } := completeTask_cases _ _
  have hempty : (PicoBootrom.workCommand env w).picoboot.queue.full ≠ true := by
    rw [hqueue]
    exact Bool.false_ne_true
  have hmem {n : ℕ} (hin : Origin.chunk n ∈ (PicoBootrom.workCommand env w).log) :
      .chunk n ∈ w.log ∨ w.commandOrigin = .chunk n := by
    rw [hlog] at hin
    split at hin
    · rcases List.mem_cons.1 hin with heq | hin
      · exact .inr heq.symm
      · exact .inl hin
    · exact .inl hin
  exact {
    diskTask := by
      rw [htask, hslot]
      exact h.diskTask
    diskOrigin := h.diskOrigin
    template := by
      rw [hnext]
      exact fun hm => ⟨(h.template hm).source, (h.template hm).type⟩
    commandTask := fun hf => absurd hf hempty
    commandOrigin := h.commandOrigin
    checked := by
      rw [hnext]
      rintro (hin | ⟨hf, -⟩)
      · exact h.checked ((hmem hin).imp_right fun horigin => ⟨hfull, horigin⟩)
      · exact absurd hf hempty
    queuedChecked := fun hf => absurd hf hempty
    single := fun hf => absurd hf hempty
    le := h.le
    logged := by
      intro n hin
      rcases hmem hin with hin | horigin
      · exact h.logged n hin
      · change n ≤ w.commandOrigin.number
        rw [horigin]
        exact Nat.le_refl n
    interrupted := by
      intro n hn hi
      rw [hlog] at hi
      rw [hlast]
      split
      · next hgets =>
        rw [if_pos hgets] at hi
        rw [Bool.and_eq_true] at hgets
        -- the transfer was interrupted before, so this task is of it and was refused
        have hsame : w.commandOrigin.source = (Origin.chunk n).source := h.commandOrigin
        have hi' := hi.of_cons hsame
        have hvd := h.interrupted n hn hi'
        have heq : n = w.commandOrigin.number := Nat.le_antisymm (h.logged n hi'.mem) hn
        cases horigin : w.commandOrigin with
        | uf2 k =>
          rw [horigin] at hsame
          cases hsame
        | single k =>
          rw [horigin] at heq
          cases heq
          exact absurd hi'.mem (h.single hfull _ horigin)
        | chunk k =>
          rw [horigin] at heq
          cases heq
          have hcheck := h.queuedChecked hfull _ horigin hi'.mem
          have hmutates : w.picoboot.queue.task.mutates = true := by
            have hgets := hgets.2
            simp only [getsToMutate, Bool.and_eq_true] at hgets
            exact hgets.1.1
          have hsource := getsToMutate_source hgets.2 hcheck
          rw [hvd, (h.commandTask hfull hmutates).source] at hsource
          cases hsource
      · next hno =>
        rw [if_neg hno] at hi
        exact h.interrupted n hn hi }

theorem step (env : Env) (h : w.Consistent) (e : BootEvent) : (bootStep env w e).Consistent := by
  cases e with
  | sector uf2 token => exact h.sector env uf2 token
  | command len cmd => exact h.command env len cmd
  | chunk chunkLen => exact h.chunk env chunkLen
  | mscReset => exact h.mscReset env
  | picobootReset => exact h.picobootReset env
  | work =>
    unfold bootStep
    dsimp only
    split
    · next hfull => exact h.workDisk env hfull
    · split
      · next hfull => exact h.workCommand env hfull
      · exact h

/-- The next task of an interrupted transfer is noticed if it is a chunk of a PICOBOOT
command. -/
theorem rejected (env : Env) (h : w.Consistent) {task : AsyncTask} {o : Origin}
    (hresumes : w.Resumes task o) (hpicoboot : o.source = .picoboot)
    (hrebooting : w.disk.rebooting = false) : Rejected env task w.disk.taken.toMachine := by
  rcases w.next_cases hresumes.next with ⟨-, -, horigin⟩ | ⟨hfull, htask, horigin⟩
  · rw [horigin, h.diskOrigin] at hpicoboot
    cases hpicoboot
  subst htask
  have hcommand := h.commandTask hfull hresumes.mutates
  have hbits : ∀ bits ∈ [atVectorizeFlash, atExclusive, atExitXip, atExec],
      w.picoboot.queue.task.has bits = false := by
    unfold AsyncTask.has
    rcases hcommand.type with htype | htype <;> rw [htype] <;> decide
  cases ho : o with
  | uf2 n =>
    rw [ho] at hpicoboot
    cases hpicoboot
  | single n => exact absurd ho (hresumes.transfer n)
  | chunk n =>
    have hinterrupted := hresumes.interrupted
    rw [ho] at horigin hinterrupted
    have hcheck := h.queuedChecked hfull n horigin.symm hinterrupted.mem
    have hlast := h.interrupted n (by rw [← horigin]; exact Nat.le_refl n) hinterrupted
    refine rejected_of_check env hrebooting hresumes.mutates (hbits _ (by simp))
      (hbits _ (by simp)) (hbits _ (by simp)) (hbits _ (by simp)) hcheck ?_
    rw [hcommand.source]
    change w.disk.lastMutationSource ≠ .picoboot
    rw [hlast]
    decide

/-- It is not noticed if it is a block of a UF2 image. -/
theorem not_rejected (env : Env) (h : w.Consistent) {task : AsyncTask} {o : Origin}
    (hresumes : w.Resumes task o) (hrom : w.disk.flashFuncs = .rom)
    (hrejected : Rejected env task w.disk.taken.toMachine) :
    o.source = .picoboot ∧ w.disk.rebooting = false := by
  rcases w.next_cases hresumes.next with ⟨hfull, htask, -⟩ | ⟨-, -, horigin⟩
  · have hpage := h.diskTask hfull
    rw [← htask] at hpage
    exact absurd hrejected (not_rejected_of_no_check env hrom hpage.vectorize hpage.check)
  · refine ⟨horigin ▸ h.commandOrigin, ?_⟩
    have hresult := hrejected.1
    rw [executeTask] at hresult
    split at hresult
    · cases hresult
    · next hrebooting => exact Bool.eq_false_iff.2 hrebooting

end BootWorld.Consistent

/-! ## Runs -/

/-- Before the first task no transfer was interrupted. -/
theorem consistent_start {d : VirtualDisk} {p : Picoboot} (hdisk : d.virtualDiskQueue.full = false)
    (hqueue : p.queue.full = false) (htask : p.task.mutates = false) :
    BootWorld.Consistent { disk := d, picoboot := p } where
  diskTask hf := absurd hf (Bool.eq_false_iff.1 hdisk)
  diskOrigin := rfl
  template hm := absurd hm (Bool.eq_false_iff.1 htask)
  commandTask hf := absurd hf (Bool.eq_false_iff.1 hqueue)
  commandOrigin := rfl
  checked := by rintro (⟨⟨⟩⟩ | ⟨-, ⟨⟩⟩)
  queuedChecked hf := absurd hf (Bool.eq_false_iff.1 hqueue)
  single hf := absurd hf (Bool.eq_false_iff.1 hqueue)
  le := Nat.le_refl 0
  logged := by rintro n ⟨⟩
  interrupted n _ hi := by cases hi.mem

/-- In every run the next task of an interrupted transfer is refused if it is a chunk of a
PICOBOOT command and the device does not reboot, and in no other case. -/
theorem interleaving_detected_iff (env : Env) (d : VirtualDisk) (p : Picoboot)
    (es : List BootEvent) (hdisk : d.virtualDiskQueue.full = false)
    (hqueue : p.queue.full = false) (htask : p.task.mutates = false) :
    Run.Always (bootStep env) (fun w e => e = .work → ∀ task o, w.Resumes task o →
      (o.source = .picoboot ∧ w.disk.rebooting = false →
        Rejected env task w.disk.taken.toMachine) ∧
      (w.disk.flashFuncs = .rom → Rejected env task w.disk.taken.toMachine →
        o.source = .picoboot ∧ w.disk.rebooting = false))
      { disk := d, picoboot := p } es := by
  refine (Run.always_of_forall (P := fun _ _ => True) (fun _ _ => trivial) _ es).imp
    (I := BootWorld.Consistent) (fun w e _ h => h.step env e) ?_
    (consistent_start hdisk hqueue htask)
  intro w e _ h _ task o hresumes
  exact ⟨fun hpicoboot => h.rejected env hresumes hpicoboot.1 hpicoboot.2,
    h.not_rejected env hresumes⟩

/-- A packet with the command to write `size` bytes at `addr`. -/
def writeCommand (token addr size : Word) : BootEvent :=
  .command sizeofPicobootCmd
    { dMagic := picobootMagic, dToken := token, bCmdId := 5, bCmdSize := 8,
      dTransferLength := size, arg0 := addr, arg1 := size, arg2 := 0 }

/-- A UF2 block comes between the two chunks of a PICOBOOT write. -/
def blockBetweenChunks : List BootEvent :=
  [writeCommand 1 (sramBase + 4096) 512, .chunk 256, .work,
    .sector (uf2Block 2 0 sramBase fun _ => 0) 1, .work, .chunk 256, .work]

theorem interleaving_detected_iff_chunk :
    Run.Always (bootStep bareEnv) (fun w e => e = .work → ∀ task o, w.Resumes task o →
      (o.source = .picoboot ∧ w.disk.rebooting = false →
        Rejected bareEnv task w.disk.taken.toMachine) ∧
      (w.disk.flashFuncs = .rom → Rejected bareEnv task w.disk.taken.toMachine →
        o.source = .picoboot ∧ w.disk.rebooting = false))
      { disk := powerOn, picoboot := {} } blockBetweenChunks :=
  interleaving_detected_iff bareEnv powerOn {} blockBetweenChunks rfl rfl (by decide)

/-- A PICOBOOT write comes between the two blocks of a UF2 image. -/
def writeBetweenBlocks : List BootEvent :=
  [.sector (uf2Block 2 0 sramBase fun _ => 0) 1, .work,
    writeCommand 1 (sramBase + 4096) 256, .chunk 256, .work,
    .sector (uf2Block 2 1 (sramBase + 256) fun _ => 0) 2]

/-- The second block is written although a PICOBOOT write came before it. -/
theorem write_between_blocks_not_detected :
    ¬Run.Always (bootStep bareEnv) (DetectsInterleaving bareEnv)
      { disk := powerOn, picoboot := {} } (writeBetweenBlocks ++ [.work]) := by
  intro h
  set w := Run.after (bootStep bareEnv) { disk := powerOn, picoboot := {} } writeBetweenBlocks
    with hw
  have hlast : DetectsInterleaving bareEnv w .work := h.at
  have hresumes : w.Resumes w.disk.virtualDiskQueue.task (.uf2 1) := by
    refine ⟨?_, ?_, by rintro n ⟨⟩, [.chunk 1], [], ?_, .chunk 1, by decide, by decide⟩
    · rw [hw]
      decide +kernel
    · rw [hw]
      decide +kernel
    · rw [hw]
      decide +kernel
  have hresult := (hlast _ _ hresumes).1
  rw [hw] at hresult
  revert hresult
  decide +kernel

end PicoBootrom
