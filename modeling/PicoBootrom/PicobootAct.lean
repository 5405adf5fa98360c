import Mathlib.Tactic.IntervalCases
import PicoBootrom.Mutation

/-!
# What a PICOBOOT command does

A command that is accepted names one action, and its tasks are to perform it and nothing else.
The tasks are the single one of a command without data, or one for each chunk of 256 bytes of a
read or a write (`Queues`). `Performed` says what a machine looks like after the action.

`_execute_task` performs the action of every task that ends with `PICOBOOT_OK`, with two
exceptions. The branch for `AT_ENTER_CMD_XIP` is inside the one for reads and writes, so that
`PC_ENTER_CMD_XIP` does nothing. And a read or a write of no bytes still moves a page when its
address is in flash.
-/

namespace PicoBootrom

/-! ## The actions -/

/-- The actions of the commands that queue tasks. -/
inductive PicobootAct
  | exclusiveAccess
  | flashErase
  | read
  | write
  | exitXip
  | enterCmdXip
  | exec
  | vectorizeFlash
  deriving DecidableEq, Repr

/-- The type of the tasks. -/
def PicobootAct.type : PicobootAct → Byte
  | .exclusiveAccess => atExclusive
  | .flashErase => atFlashErase
  | .read => atRead
  | .write => atWrite
  | .exitXip => atExitXip
  | .enterCmdXip => atEnterCmdXip
  | .exec => atExec
  | .vectorizeFlash => atVectorizeFlash

/-- The action that a command names. -/
def PicobootCmd.act (cmd : PicobootCmd) : Option PicobootAct :=
  match cmd.id with
  | 1 => some .exclusiveAccess
  | 3 => some .flashErase
  | 4 => some .read
  | 5 => some .write
  | 6 => some .exitXip
  | 7 => some .enterCmdXip
  | 8 => some .exec
  | 9 => some .vectorizeFlash
  | _ => none

/-- The machine after an action on the `len` bytes at `addr`. -/
def Performed (env : Env) (cmd : PicobootCmd) (addr len : Word) (m m' : Machine) :
    PicobootAct → Prop
  | .exclusiveAccess => m' =
      { m with
          virtualDiskQueue := asyncDisableQueue m.virtualDiskQueue (cmd.bExclusive != 0)
          ejected := m.ejected || cmd.bExclusive == exclusiveAndEject }
  | .flashErase => m' =
      { m with
          lastMutationSource := .picoboot
          flash := ((m.funcs env).doFlashEraseRange cmd.dAddr cmd.dSize m.flash).1 }
  | .read =>
    if len = 0 then m' = m
    else if (isAddressRam addr && isAddressRam (addr + len)) ||
        (isAddressRom addr && isAddressRom (addr + len)) then
      m' = m.writeData .picobootBuffer len.toNat fun i => m.mem (addr + BitVec.ofNat 32 i)
    else
      let r := (m.funcs env).doFlashPageRead addr m.flash
      m' = Machine.writeData { m with flash := r.1 } .picobootBuffer flashPageSize.toNat r.2.1
  | .write =>
    if len = 0 then m' = { m with lastMutationSource := .picoboot }
    else if isAddressRam addr && isAddressRam (addr + len) then
      m' = { m with
        flashFuncs := (m.revertFlashFuncs { transferAddr := addr, dataLength := len }).flashFuncs
        lastMutationSource := .picoboot
        mem := m.mem.copy addr len.toNat m.picobootBuffer }
    else m' =
      { m with
          lastMutationSource := .picoboot
          flash := ((m.funcs env).doFlashPageProgram addr m.picobootBuffer m.flash).1 }
  | .exitXip => m' = { m with flash := ((m.funcs env).doFlashExitXip m.flash).1 }
  | .enterCmdXip => m' = { m with flash := ((m.funcs env).doFlashEnterCmdXip m.flash).1 }
  | .exec => m' =
      { m with
          mem := (env.callee (addr ||| 1) (m.mem, m.flash)).1
          flash := (env.callee (addr ||| 1) (m.mem, m.flash)).2
          execs := m.execs ++ [addr ||| 1] }
  | .vectorizeFlash => m' =
      { m with
          mem := m.mem.copy addr sizeofFlashFuncs.toNat env.defaultFlashFuncsBytes
          flashFuncs := .ram addr }

/-! ## The tasks of a command -/

/-- The length of the `i`-th chunk of the transfer. -/
def PicobootCmd.chunkLen (cmd : PicobootCmd) (i : ℕ) : Word :=
  BitVec.ofNat 32 (min 256 (cmd.dTransferLength.toNat - 256 * i))

namespace Picoboot

/-- The state of the interface once `i` chunks of the transfer of a command are done. -/
inductive Streams (p₀ : Picoboot) (cmd : PicobootCmd) : ℕ → Picoboot → Prop
  | start {type : Byte} {length : Word}
      (h : (p₀.readCommand sizeofPicobootCmd cmd).2 = .stream type length) :
      Streams p₀ cmd 0 (p₀.readCommand sizeofPicobootCmd cmd).1
  | chunkDone {i : ℕ} {p : Picoboot} (h : Streams p₀ cmd i p)
      (hi : 256 * i < cmd.dTransferLength.toNat) (result : Word) :
      Streams p₀ cmd (i + 1)
        ((p.onStreamChunk (cmd.chunkLen i)).chunkTaskDone
          { (p.onStreamChunk (cmd.chunkLen i)).queue.task with result := result })

/-- The tasks that a command queues, with the bytes each is for. -/
inductive Queues (p₀ : Picoboot) (cmd : PicobootCmd) : Word → Word → AsyncTask → Prop
  | single (h : (p₀.readCommand sizeofPicobootCmd cmd).2 = .queueTask) :
      Queues p₀ cmd cmd.dAddr 0
        (p₀.readCommand sizeofPicobootCmd cmd).1.queueCommandTask.queue.task
  | chunk {i : ℕ} {p : Picoboot} (h : Streams p₀ cmd i p)
      (hi : 256 * i < cmd.dTransferLength.toNat) :
      Queues p₀ cmd (cmd.dAddr + BitVec.ofNat 32 (256 * i)) (cmd.chunkLen i)
        (p.onStreamChunk (cmd.chunkLen i)).queue.task

end Picoboot

/-- The fields of a task that `_execute_task` looks at. -/
structure IsTaskOf (cmd : PicobootCmd) (act : PicobootAct) (addr len : Word) (task : AsyncTask) :
    Prop where
  type : task.type = act.type
  source : task.source = .picoboot
  transferAddr : task.transferAddr = addr
  dataLength : task.dataLength = len
  eraseAddr : task.eraseAddr = cmd.dAddr
  eraseSize : task.eraseSize = cmd.dSize
  exclusiveParam : task.exclusiveParam = cmd.bExclusive
  data : task.data = if len = 0 then .null else .picobootBuffer
  check : len = 0 → task.checkLastMutationSource = false

section Tasks

variable {p₀ : Picoboot} {cmd : PicobootCmd}

/-- The row of a command has the type of the action that the command names. -/
theorem PicobootCmd.act_of_mapping {row : CmdMapping} (h : cmd.mapping = some row)
    (htype : row.type ≠ 0) : ∃ act, cmd.act = some act ∧ row.type = act.type := by
  unfold PicobootCmd.mapping at h
  unfold PicobootCmd.act
  have hlt : cmd.id < 10 := by
    by_contra hle
    have hnone : cmdMapping[cmd.id]? = none :=
      List.getElem?_eq_none (by simp only [cmdMapping, List.length_cons, List.length_nil]; omega)
    split at h
    · cases h
    · rw [hnone] at h
      cases h
  generalize cmd.id = id at h hlt
  interval_cases id
  all_goals simp [cmdMapping] at h
  all_goals subst h
  all_goals first
    | exact absurd rfl htype
    | exact ⟨_, rfl, rfl⟩

/-- What a command goes on with, if it queues tasks. -/
theorem readCommand_queues {len : ℕ} {p : Picoboot} {action : Picoboot.CmdAction}
    (h : p₀.readCommand len cmd = (p, action))
    (haction : action = .queueTask ∨ ∃ type length, action = .stream type length) :
    ∃ act, cmd.act = some act ∧
      p.task = { (p₀.preInit cmd).task with
        type := act.type, source := .picoboot
        data := if action = .queueTask then .null else .picobootBuffer } ∧
      (action = .queueTask ↔ cmd.dTransferLength = 0) := by
  unfold Picoboot.readCommand at h
  split at h
  · dsimp only at h
    split at h
    · obtain ⟨-, rfl⟩ := Prod.mk.inj h
      simp at haction
    · next row hrow =>
      split at h
      · unfold Picoboot.dispatch at h
        dsimp only at h
        split at h
        · obtain ⟨-, rfl⟩ := Prod.mk.inj h
          simp at haction
        · split at h
          · next htype =>
            have hrowtype : cmd.type row = row.type := by
              unfold PicobootCmd.type at htype ⊢
              split
              · rfl
              · next hne =>
                rw [if_neg hne] at htype
                exact absurd rfl htype
            rw [hrowtype] at htype h
            obtain ⟨act, hact, htypeEq⟩ := PicobootCmd.act_of_mapping hrow htype
            rw [htypeEq] at h
            split at h
            · next hlength =>
              obtain ⟨rfl, rfl⟩ := Prod.mk.inj h
              exact ⟨act, hact, rfl, by simpa using hlength⟩
            · next hlength =>
              obtain ⟨rfl, rfl⟩ := Prod.mk.inj h
              exact ⟨act, hact, rfl, by simpa using hlength⟩
          · obtain ⟨-, rfl⟩ := Prod.mk.inj h
            simp at haction
      · obtain ⟨-, rfl⟩ := Prod.mk.inj h
        simp at haction
  · obtain ⟨-, rfl⟩ := Prod.mk.inj h
    simp at haction

theorem PicobootCmd.chunkLen_toNat (cmd : PicobootCmd) (i : ℕ) :
    (cmd.chunkLen i).toNat = min 256 (cmd.dTransferLength.toNat - 256 * i) := by
  have hlt : min 256 (cmd.dTransferLength.toNat - 256 * i) < 2 ^ 32 := by omega
  rw [PicobootCmd.chunkLen, BitVec.toNat_ofNat, Nat.mod_eq_of_lt hlt]

theorem PicobootCmd.chunkLen_ne_zero {i : ℕ} (hi : 256 * i < cmd.dTransferLength.toNat) :
    cmd.chunkLen i ≠ 0 := by
  intro h
  have hlen := cmd.chunkLen_toNat i
  rw [h] at hlen
  change 0 = _ at hlen
  omega

/-- The chunks before the last one have 256 bytes. -/
theorem PicobootCmd.add_chunkLen {i : ℕ} (hi : 256 * (i + 1) < cmd.dTransferLength.toNat)
    (addr : Word) :
    addr + BitVec.ofNat 32 (256 * i) + cmd.chunkLen i =
      addr + BitVec.ofNat 32 (256 * (i + 1)) := by
  have hlen : cmd.chunkLen i = BitVec.ofNat 32 256 := by
    rw [PicobootCmd.chunkLen, Nat.min_eq_left (by omega)]
  rw [hlen, BitVec.add_assoc, ← BitVec.ofNat_add, Nat.mul_succ]

/-- The task that is queued for the next chunk. -/
theorem Picoboot.Streams.task {i : ℕ} {p : Picoboot} (h : Picoboot.Streams p₀ cmd i p) :
    ∃ act, cmd.act = some act ∧ p.task.type = act.type ∧ p.task.source = .picoboot ∧
      p.task.eraseAddr = cmd.dAddr ∧ p.task.eraseSize = cmd.dSize ∧
      p.task.exclusiveParam = cmd.bExclusive ∧ p.task.data = .picobootBuffer ∧
      (256 * i < cmd.dTransferLength.toNat →
        p.task.transferAddr = cmd.dAddr + BitVec.ofNat 32 (256 * i)) := by
  induction h with
  | @start type length h =>
    have hread : p₀.readCommand sizeofPicobootCmd cmd =
        ((p₀.readCommand sizeofPicobootCmd cmd).1, .stream type length) := Prod.ext rfl h
    obtain ⟨act, hact, htask, -⟩ := readCommand_queues hread (.inr ⟨type, length, rfl⟩)
    rw [htask]
    exact ⟨act, hact, rfl, rfl, rfl, rfl, rfl, rfl, fun _ => by simp [Picoboot.preInit]⟩
  | @chunkDone i p h hi result ih =>
    obtain ⟨act, hact, htype, hsource, haddr, hsize, hparam, hdata, htransfer⟩ := ih
    have htask : ((p.onStreamChunk (cmd.chunkLen i)).chunkTaskDone
        { (p.onStreamChunk (cmd.chunkLen i)).queue.task with result := result }).task =
          { (p.onStreamChunk (cmd.chunkLen i)).task with
            transferAddr := p.task.transferAddr + cmd.chunkLen i } := by
      unfold Picoboot.chunkTaskDone
      dsimp only
      split <;> rfl
    rw [htask]
    refine ⟨act, hact, htype, hsource, haddr, hsize, hparam, hdata, fun hlast => ?_⟩
    dsimp only
    rw [htransfer hi, PicobootCmd.add_chunkLen hlast]

/-- The tasks of a command are as the command says. -/
theorem Picoboot.Queues.isTaskOf {addr len : Word} {task : AsyncTask}
    (h : Picoboot.Queues p₀ cmd addr len task) {act : PicobootAct} (hact : cmd.act = some act) :
    IsTaskOf cmd act addr len task := by
  cases h with
  | single h =>
    have hread : p₀.readCommand sizeofPicobootCmd cmd =
        ((p₀.readCommand sizeofPicobootCmd cmd).1, .queueTask) := Prod.ext rfl h
    obtain ⟨act', hact', htask, -⟩ := readCommand_queues hread (.inl rfl)
    obtain rfl : act' = act := Option.some.inj (hact'.symm.trans hact)
    exact {
      type := congrArg AsyncTask.type htask
      source := congrArg AsyncTask.source htask
      transferAddr := congrArg AsyncTask.transferAddr htask
      dataLength := congrArg AsyncTask.dataLength htask
      eraseAddr := congrArg AsyncTask.eraseAddr htask
      eraseSize := congrArg AsyncTask.eraseSize htask
      exclusiveParam := congrArg AsyncTask.exclusiveParam htask
      data := congrArg AsyncTask.data htask
      check := fun _ => congrArg AsyncTask.checkLastMutationSource htask }
  | @chunk i p h hi =>
    obtain ⟨act', hact', htype, hsource, haddr, hsize, hparam, hdata, htransfer⟩ := h.task
    obtain rfl : act' = act := Option.some.inj (hact'.symm.trans hact)
    exact {
      type := htype
      source := hsource
      transferAddr := htransfer hi
      dataLength := rfl
      eraseAddr := haddr
      eraseSize := hsize
      exclusiveParam := hparam
      data := hdata.trans (if_neg (PicobootCmd.chunkLen_ne_zero hi)).symm
      check := fun hzero => absurd hzero (PicobootCmd.chunkLen_ne_zero hi) }

end Tasks

/-! ## Running a task of a command -/

section Run

variable {cmd : PicobootCmd} {act : PicobootAct} {addr len : Word} {task : AsyncTask}

/-- The stage of `_execute_task` that is for the action. -/
def PicobootAct.stage (act : PicobootAct) (env : Env) (task : AsyncTask) : TaskStep :=
  match act with
  | .exclusiveAccess => executeExclusive task
  | .flashErase => (executeMutationSource task).andThen (executeFlashErase env task)
  | .read => (executeAddressCheck task).andThen (executeRead env task)
  | .write => (executeMutationSource task).andThen <|
      (executeAddressCheck task).andThen (executeWrite env task)
  | .exitXip => executeExitXip env task
  | .enterCmdXip => fun m => (m, 0)
  | .exec => executeExec env task
  | .vectorizeFlash => executeVectorizeFlash env task

theorem AsyncTask.has_or (task : AsyncTask) (bits bits' : Byte) :
    task.has (bits ||| bits') = (task.has bits || task.has bits') := by
  have hzero : task.type &&& (bits ||| bits') = 0#8 ↔
      task.type &&& bits = 0#8 ∧ task.type &&& bits' = 0#8 := by
    rw [BitVec.and_or_distrib_left, BitVec.or_eq_zero_iff]
  rw [Bool.eq_iff_iff, Bool.or_eq_true]
  simp only [AsyncTask.has, bne_iff_ne]
  exact (not_congr hzero).trans Classical.not_and_iff_not_or_not

/-- A stage that does nothing, before another. -/
theorem TaskStep.andThen_of_skip {f : TaskStep} (h : ∀ m, f m = (m, 0)) (g : TaskStep) :
    f.andThen g = g := by
  funext m
  exact TaskStep.andThen_of_ok (h m)

/-- A stage that does nothing, after another. -/
theorem TaskStep.andThen_skip (f : TaskStep) {g : TaskStep} (h : ∀ m, g m = (m, 0)) :
    f.andThen g = f := by
  funext m
  unfold TaskStep.andThen
  dsimp only
  split
  · next hok => rw [h, ← hok]
  · rfl

theorem executeFlashErase_of_not (env : Env) (h : task.has atFlashErase = false) (m : Machine) :
    executeFlashErase env task m = (m, 0) := by
  simp [executeFlashErase, h]

theorem executeWrite_of_not (env : Env) (h : task.has atWrite = false) (m : Machine) :
    executeWrite env task m = (m, 0) := by
  simp [executeWrite, h]

theorem executeTransfer_of_not (env : Env) (h : task.has (atWrite ||| atRead) = false)
    (m : Machine) : executeTransfer env task m = (m, 0) := by
  simp [executeTransfer, h]

/-- A task runs the stage of its action and no other. -/
theorem executeTask_eq_stage (env : Env) (act : PicobootAct) (htype : task.type = act.type)
    {m : Machine}
    (hrebooting : m.rebooting = false) : executeTask env task m = act.stage env task m := by
  have hhas {bits : Byte} (h : act.type &&& bits = 0) : task.has bits = false := by
    rw [AsyncTask.has, htype, h]
    rfl
  have hdoes {bits : Byte} (h : act.type &&& bits ≠ 0) : task.has bits = true := by
    rw [AsyncTask.has, htype]
    exact bne_iff_ne.2 h
  have hvectorize (h : act.type &&& atVectorizeFlash = 0) :=
    TaskStep.andThen_of_skip (executeVectorizeFlash_of_not env (hhas h))
  have hexclusive (h : act.type &&& atExclusive = 0) :=
    TaskStep.andThen_of_skip (executeExclusive_of_not (hhas h))
  have hexit (h : act.type &&& atExitXip = 0) :=
    TaskStep.andThen_of_skip (executeExitXip_of_not env (hhas h))
  have hexec (h : act.type &&& atExec = 0) :=
    TaskStep.andThen_of_skip (executeExec_of_not env (hhas h))
  have hsource (h : act.type &&& (atWrite ||| atFlashErase) = 0) :=
    TaskStep.andThen_of_skip fun m => executeMutationSource_of_not (m := m) (hhas h)
  have herase (h : act.type &&& atFlashErase = 0) :=
    TaskStep.andThen_of_skip (executeFlashErase_of_not env (hhas h))
  have htransfer (f : TaskStep) (h : act.type &&& (atWrite ||| atRead) = 0) :=
    TaskStep.andThen_skip f (executeTransfer_of_not env (hhas h))
  rw [executeTask, if_neg (by simp [hrebooting])]
  cases act with
  | exclusiveAccess =>
    rw [hvectorize rfl, hexit rfl, hexec rfl, hsource rfl, herase rfl, htransfer _ rfl]
    rfl
  | flashErase =>
    rw [hvectorize rfl, hexclusive rfl, hexit rfl, hexec rfl, htransfer _ rfl]
    rfl
  | read =>
    rw [hvectorize rfl, hexclusive rfl, hexit rfl, hexec rfl, hsource rfl, herase rfl,
      executeTransfer, if_pos (hdoes (by decide)),
      TaskStep.andThen_of_skip (executeWrite_of_not env (hhas rfl)),
      TaskStep.andThen_skip _ (executeEnterCmdXip_of_not env (hhas rfl))]
    rfl
  | write =>
    have heq : executeTransfer env task =
        (executeAddressCheck task).andThen (executeWrite env task) := by
      funext m
      rw [executeTransfer, if_pos (hdoes (by decide)),
        TaskStep.andThen_of_skip (executeRead_of_not env (hhas rfl)),
        TaskStep.andThen_skip _ (executeEnterCmdXip_of_not env (hhas rfl))]
    rw [hvectorize rfl, hexclusive rfl, hexit rfl, hexec rfl, herase rfl, heq]
    rfl
  | exitXip =>
    rw [hvectorize rfl, hexclusive rfl, hexec rfl, hsource rfl, herase rfl, htransfer _ rfl]
    rfl
  | enterCmdXip =>
    rw [hvectorize rfl, hexclusive rfl, hexit rfl, hexec rfl, hsource rfl, herase rfl,
      executeTransfer_of_not env (hhas rfl)]
    rfl
  | exec =>
    rw [hvectorize rfl, hexclusive rfl, hexit rfl, hsource rfl, herase rfl, htransfer _ rfl]
    rfl
  | vectorizeFlash =>
    rw [hexclusive rfl, hexit rfl, hexec rfl, hsource rfl, herase rfl, htransfer _ rfl]
    rfl

/-- A read or a write of no bytes, which moves a page of flash. -/
def PicobootAct.MovesPage (act : PicobootAct) (addr len : Word) : Prop :=
  (act = .read ∨ act = .write) ∧ len = 0 ∧ isAddressFlash addr = true ∧
    isAddressRam addr = false ∧ addr &&& (flashPageSize - 1) = 0

theorem IsTaskOf.has (h : IsTaskOf cmd act addr len task) {bits : Byte}
    (hbits : act.type &&& bits ≠ 0) : task.has bits = true := by
  rw [AsyncTask.has, h.type]
  exact bne_iff_ne.2 hbits

theorem IsTaskOf.has_not (h : IsTaskOf cmd act addr len task) {bits : Byte}
    (hbits : act.type &&& bits = 0) : task.has bits = false := by
  rw [AsyncTask.has, h.type, hbits]
  rfl

theorem TaskStep.andThen_eq_ok {f g : TaskStep} {m m' : Machine}
    (h : (f.andThen g) m = (m', 0)) : ∃ m₁, f m = (m₁, 0) ∧ g m₁ = (m', 0) := by
  unfold TaskStep.andThen at h
  dsimp only at h
  split at h
  · next hok => exact ⟨(f m).1, Prod.ext rfl hok, h⟩
  · next hno =>
    rw [h] at hno
    exact absurd rfl hno

theorem executeMutationSource_eq_ok {m m₁ : Machine} (hmutates : task.mutates = true)
    (h : executeMutationSource task m = (m₁, 0)) :
    m₁ = { m with lastMutationSource := task.source } := by
  replace h := (if_pos hmutates).symm.trans h
  split at h
  · exact absurd (Prod.mk.inj h).2 (by decide)
  · exact (Prod.mk.inj h).1.symm

theorem executeAddressCheck_eq_ok {m m₁ : Machine} (h : executeAddressCheck task m = (m₁, 0)) :
    m₁ = m ∧ (task.directAccess = true ∨ (isAddressFlash task.transferAddr = true ∧
      task.transferAddr &&& (flashPageSize - 1) = 0)) := by
  unfold executeAddressCheck at h
  split at h
  · next hdirect => exact ⟨(Prod.mk.inj h).1.symm, .inl hdirect⟩
  · split at h
    · next hflash =>
      rw [Bool.and_eq_true] at hflash
      split at h
      · exact absurd (Prod.mk.inj h).2 (by decide)
      · next haligned =>
        exact ⟨(Prod.mk.inj h).1.symm, .inr ⟨hflash.1, not_not.1 haligned⟩⟩
    · exact absurd (Prod.mk.inj h).2 (by decide)

/-- A write to RAM changes at most which table the flash functions are from. -/
theorem Machine.revertFlashFuncs_eq (m : Machine) (task : AsyncTask) :
    m.revertFlashFuncs task = { m with flashFuncs := (m.revertFlashFuncs task).flashFuncs } := by
  unfold Machine.revertFlashFuncs
  split
  · rfl
  · split <;> rfl

theorem IsTaskOf.revertFlashFuncs (h : IsTaskOf cmd act addr len task) {m m₁ : Machine}
    (hff : m₁.flashFuncs = m.flashFuncs) : (m₁.revertFlashFuncs task).flashFuncs =
      (m.revertFlashFuncs { transferAddr := addr, dataLength := len }).flashFuncs := by
  unfold Machine.revertFlashFuncs overlapsFlashFuncs
  rw [h.transferAddr, h.dataLength, hff]
  split
  · exact hff
  · split
    · rfl
    · exact hff

/-- No bytes overlap no table. -/
theorem Machine.revertFlashFuncs_zero (m : Machine) (hlen : len = 0) :
    (m.revertFlashFuncs { transferAddr := addr, dataLength := len }).flashFuncs = m.flashFuncs := by
  unfold Machine.revertFlashFuncs
  split
  · rfl
  · next ff hff =>
    have hno : overlapsFlashFuncs ff { transferAddr := addr, dataLength := len } = false := by
      have hadd : addr + len = addr := by rw [hlen]; exact BitVec.add_zero addr
      simp only [overlapsFlashFuncs, hadd, decide_eq_false_iff_not]
      omega
    rw [hno]
    rfl

theorem Memory.copy_zero {w : ℕ} (mem : Memory w) (dst : BitVec w) (src : ℕ → BitVec 8) :
    mem.copy dst 0 src = mem := by
  funext a
  exact Memory.copy_of_not_inRange (Nat.not_lt_zero _)

/-- The task of the range passes the checks of `_execute_task`. -/
def EraseAccepted (addr size : Word) : Prop :=
  addr.toNat % 4096 = 0 ∧ size.toNat % 4096 = 0 ∧ isAddressFlash addr = true ∧
    isAddressFlash (addr + size) = true

instance (addr size : Word) : Decidable (EraseAccepted addr size) :=
  inferInstanceAs (Decidable (_ ∧ _))

/-- `AT_FLASH_ERASE` erases the range, rejects it, or is not in the task. -/
theorem executeFlashErase_cases (env : Env) (task : AsyncTask) (m : Machine) :
    (task.has atFlashErase = true ∧ EraseAccepted task.eraseAddr task.eraseSize ∧
      executeFlashErase env task m =
        m.onFlash ((m.funcs env).doFlashEraseRange task.eraseAddr task.eraseSize)) ∨
    (task.has atFlashErase = true ∧ ¬EraseAccepted task.eraseAddr task.eraseSize ∧
      ∃ status ≠ picobootOk, executeFlashErase env task m = (m, status)) ∨
    (task.has atFlashErase = false ∧ executeFlashErase env task m = (m, 0)) := by
  cases herase : task.has atFlashErase with
  | false => exact .inr (.inr ⟨rfl, executeFlashErase_of_not env herase m⟩)
  | true =>
    rw [executeFlashErase, if_pos herase]
    by_cases haddr : task.eraseAddr &&& (flashSectorEraseSize - 1) = 0
    · rw [if_neg (not_not.2 haddr)]
      rw [and_sectorMask_eq_zero] at haddr
      by_cases hsize : task.eraseSize &&& (flashSectorEraseSize - 1) = 0
      · rw [if_neg (not_not.2 hsize)]
        rw [and_sectorMask_eq_zero] at hsize
        by_cases hwindow : (isAddressFlash task.eraseAddr &&
            isAddressFlash (task.eraseAddr + task.eraseSize)) = true
        · rw [if_neg (by simp [hwindow])]
          rw [Bool.and_eq_true] at hwindow
          exact .inl ⟨rfl, ⟨haddr, hsize, hwindow⟩, rfl⟩
        · rw [if_pos (by rw [Bool.eq_false_iff.2 hwindow]; rfl)]
          rw [Bool.and_eq_true] at hwindow
          exact .inr (.inl ⟨rfl, fun hacc => hwindow hacc.2.2, _, by decide, rfl⟩)
      · rw [if_pos hsize]
        rw [and_sectorMask_eq_zero] at hsize
        exact .inr (.inl ⟨rfl, fun hacc => hsize hacc.2.1, _, by decide, rfl⟩)
    · rw [if_pos haddr]
      rw [and_sectorMask_eq_zero] at haddr
      exact .inr (.inl ⟨rfl, fun hacc => haddr hacc.1, _, by decide, rfl⟩)

/-- What a task of an erase does if it succeeds. -/
theorem performed_flashErase (h : IsTaskOf cmd .flashErase addr len task) (env : Env)
    {m m' : Machine} (hrun : PicobootAct.flashErase.stage env task m = (m', 0)) :
    Performed env cmd addr len m m' .flashErase := by
  obtain ⟨m₁, hsource, herase⟩ := TaskStep.andThen_eq_ok hrun
  obtain rfl := executeMutationSource_eq_ok (h.has (by decide)) hsource
  rcases executeFlashErase_cases env task { m with lastMutationSource := task.source } with
    ⟨-, -, heq⟩ | ⟨-, -, status, hstatus, heq⟩ | ⟨hno, -⟩
  · rw [heq, h.eraseAddr, h.eraseSize, h.source] at herase
    exact (Prod.mk.inj herase).1.symm
  · rw [heq] at herase
    exact absurd (Prod.mk.inj herase).2 hstatus
  · exact absurd (h.has (by decide)) (Bool.eq_false_iff.1 hno)

/-- What a task of a read does if it succeeds, unless it moves a page for nothing. -/
theorem performed_read (h : IsTaskOf cmd .read addr len task) (env : Env) {m m' : Machine}
    (hpage : ¬PicobootAct.read.MovesPage addr len)
    (hrun : PicobootAct.read.stage env task m = (m', 0)) :
    Performed env cmd addr len m m' .read := by
  obtain ⟨m₁, hcheck, hread⟩ := TaskStep.andThen_eq_ok hrun
  obtain ⟨rfl, hwhere⟩ := executeAddressCheck_eq_ok hcheck
  have hdirect : task.directAccess = ((isAddressRam addr && isAddressRam (addr + len)) ||
      (isAddressRom addr && isAddressRom (addr + len))) := by
    have hwrite : task.has atWrite = false := h.has_not rfl
    simp [AsyncTask.directAccess, h.transferAddr, h.dataLength, hwrite]
  unfold executeRead at hread
  rw [if_pos (h.has (by decide)), h.transferAddr, h.dataLength, h.data] at hread
  rw [h.transferAddr] at hwhere
  unfold Performed
  dsimp only
  by_cases hlen : len = 0
  · rw [if_pos hlen] at hread ⊢
    have hin : task.directAccess = true := by
      rcases hwhere with hin | ⟨hflash, haligned⟩
      · exact hin
      · by_contra hno
        refine hpage ⟨.inl rfl, hlen, hflash, ?_, haligned⟩
        have hadd : addr + len = addr := by rw [hlen]; exact BitVec.add_zero addr
        rw [hdirect, hadd, Bool.and_self, Bool.and_self, Bool.or_eq_true, not_or] at hno
        exact Bool.eq_false_iff.2 hno.1
    rw [if_pos hin] at hread
    exact (Prod.mk.inj hread).1.symm
  · rw [if_neg hlen] at hread ⊢
    rw [← hdirect]
    by_cases hin : task.directAccess = true
    · rw [if_pos hin] at hread ⊢
      exact (Prod.mk.inj hread).1.symm
    · rw [if_neg hin] at hread ⊢
      exact (Prod.mk.inj hread).1.symm

/-- What a task of a write does if it succeeds, unless it moves a page for nothing. -/
theorem performed_write (h : IsTaskOf cmd .write addr len task) (env : Env) {m m' : Machine}
    (hpage : ¬PicobootAct.write.MovesPage addr len)
    (hrun : PicobootAct.write.stage env task m = (m', 0)) :
    Performed env cmd addr len m m' .write := by
  obtain ⟨m₁, hsource, hrun⟩ := TaskStep.andThen_eq_ok hrun
  obtain rfl := executeMutationSource_eq_ok (h.has (by decide)) hsource
  obtain ⟨m₂, hcheck, hwrite⟩ := TaskStep.andThen_eq_ok hrun
  obtain ⟨rfl, hwhere⟩ := executeAddressCheck_eq_ok hcheck
  have hdirect : task.directAccess = (isAddressRam addr && isAddressRam (addr + len)) := by
    have hwrite : task.has atWrite = true := h.has (by decide)
    simp [AsyncTask.directAccess, h.transferAddr, h.dataLength, hwrite]
  unfold executeWrite at hwrite
  rw [if_pos (h.has (by decide)), h.transferAddr, h.dataLength, h.data] at hwrite
  rw [h.transferAddr] at hwhere
  have hrevert : (Machine.revertFlashFuncs { m with lastMutationSource := task.source }
      task).flashFuncs =
        (m.revertFlashFuncs { transferAddr := addr, dataLength := len }).flashFuncs :=
    h.revertFlashFuncs rfl
  unfold Performed
  dsimp only
  by_cases hlen : len = 0
  · have hin : task.directAccess = true := by
      rcases hwhere with hin | ⟨hflash, haligned⟩
      · exact hin
      · by_contra hno
        refine hpage ⟨.inr rfl, hlen, hflash, ?_, haligned⟩
        have hadd : addr + len = addr := by rw [hlen]; exact BitVec.add_zero addr
        rw [hdirect, hadd, Bool.and_self] at hno
        exact Bool.eq_false_iff.2 hno
    rw [if_pos hin] at hwrite
    have hnone (src : ℕ → Byte) : m.mem.copy addr len.toNat src = m.mem := by
      rw [hlen]
      exact Memory.copy_zero _ _ _
    rw [if_pos hlen, ← (Prod.mk.inj hwrite).1, Machine.revertFlashFuncs_eq]
    dsimp only
    rw [hnone, hrevert, Machine.revertFlashFuncs_zero _ hlen, h.source]
  · rw [if_neg hlen] at hwrite ⊢
    rw [← hdirect]
    by_cases hin : task.directAccess = true
    · rw [if_pos hin] at hwrite ⊢
      rw [← (Prod.mk.inj hwrite).1, Machine.revertFlashFuncs_eq, hrevert, h.source]
      rfl
    · rw [if_neg hin] at hwrite ⊢
      rw [← (Prod.mk.inj hwrite).1, h.source]
      rfl

/-- What a task does if it succeeds, unless it is for `PC_ENTER_CMD_XIP` or moves a page for
nothing. -/
theorem performed_of_ok (h : IsTaskOf cmd act addr len task) (env : Env) {m m' : Machine}
    (henter : act ≠ .enterCmdXip) (hpage : ¬act.MovesPage addr len)
    (hrun : act.stage env task m = (m', 0)) : Performed env cmd addr len m m' act := by
  cases act with
  | exclusiveAccess =>
    rw [PicobootAct.stage, executeExclusive, if_pos (h.has (by decide)), h.exclusiveParam] at hrun
    exact (Prod.mk.inj hrun).1.symm
  | flashErase => exact performed_flashErase h env hrun
  | read => exact performed_read h env hpage hrun
  | write => exact performed_write h env hpage hrun
  | exitXip =>
    rw [PicobootAct.stage, executeExitXip, if_pos (h.has (by decide))] at hrun
    exact (Prod.mk.inj hrun).1.symm
  | enterCmdXip => exact absurd rfl henter
  | exec =>
    rw [PicobootAct.stage, executeExec, if_pos (h.has (by decide)), h.transferAddr] at hrun
    exact (Prod.mk.inj hrun).1.symm
  | vectorizeFlash =>
    rw [PicobootAct.stage, executeVectorizeFlash, if_pos (h.has (by decide)),
      h.transferAddr] at hrun
    split at hrun
    · exact absurd (Prod.mk.inj hrun).2 (by decide)
    · split at hrun
      · exact (Prod.mk.inj hrun).1.symm
      · exact absurd (Prod.mk.inj hrun).2 (by decide)

/-- An environment whose functions note their calls, also behind a table in RAM. -/
def notingEnv : Env where
  callee _ r := r
  defaultFlashFuncsBytes _ := 0
  foreignFlashFuncs _ := defaultFlashFuncs

theorem funcs_notingEnv (m : Machine) : m.funcs notingEnv = defaultFlashFuncs := by
  unfold Machine.funcs
  split
  · rfl
  · split <;> rfl

/-- A list that one element was added to. -/
theorem ne_append_singleton {α : Type} (l : List α) (a : α) : l ≠ l ++ [a] := by
  intro h
  have := congrArg List.length h
  simp at this

/-- The task of `PC_ENTER_CMD_XIP` leaves the chip alone. -/
theorem not_performed_enterCmdXip (m : Machine) :
    ¬Performed notingEnv cmd addr len m m .enterCmdXip := by
  intro h
  rw [Performed, funcs_notingEnv] at h
  exact ne_append_singleton _ _ (congrArg (·.flash.ops) h)

/-- A read or a write of no bytes reads or programs a page. -/
theorem not_performed_page (h : IsTaskOf cmd act addr len task) (hpage : act.MovesPage addr len)
    (m : Machine) : ∃ m', act.stage notingEnv task m = (m', 0) ∧
      ¬Performed notingEnv cmd addr len m m' act := by
  obtain ⟨hact, hlen, hflash, hram, haligned⟩ := hpage
  have hadd : addr + len = addr := by rw [hlen]; exact BitVec.add_zero addr
  have hrom : isAddressRom addr = false := by
    rw [isAddressFlash_iff] at hflash
    rw [Bool.eq_false_iff, ne_eq, isAddressRom_iff]
    omega
  have hdirect : ¬task.directAccess = true := by
    simp [AsyncTask.directAccess, h.transferAddr, h.dataLength, hadd, hram, hrom]
  have hcheck (m : Machine) : executeAddressCheck task m = (m, 0) := by
    rw [executeAddressCheck, if_neg hdirect, h.transferAddr, h.dataLength, hadd, hflash,
      Bool.and_self, if_pos rfl, if_neg (not_not_intro haligned)]
  rcases hact with rfl | rfl
  · refine ⟨{ m with flash := (doFlashPageRead addr m.flash).1 }, ?_, fun hperf => ?_⟩
    · rw [PicobootAct.stage, TaskStep.andThen_of_ok (hcheck m), executeRead,
        if_pos (h.has (by decide)), if_neg hdirect, h.transferAddr, h.data, if_pos hlen,
        funcs_notingEnv]
      rfl
    · rw [Performed, if_pos hlen] at hperf
      exact ne_append_singleton _ _ (congrArg (·.flash.ops) hperf).symm
  · refine ⟨{ m with
      lastMutationSource := .picoboot
      flash := (doFlashPageProgram addr (m.readData .null) m.flash).1 }, ?_, fun hperf => ?_⟩
    · have hsource : executeMutationSource task m =
          ({ m with lastMutationSource := .picoboot }, 0) := by
        rw [executeMutationSource, if_pos (h.has (by decide)), h.check hlen, h.source]
        rfl
      rw [PicobootAct.stage, TaskStep.andThen_of_ok hsource, TaskStep.andThen_of_ok (hcheck _),
        executeWrite, if_pos (h.has (by decide)), if_neg hdirect, h.transferAddr, h.data,
        if_pos hlen, funcs_notingEnv]
      rfl
    · rw [Performed, if_pos hlen] at hperf
      exact ne_append_singleton _ _ (congrArg (·.flash.ops) hperf).symm

end Run

/-- A task of a command that ends with `PICOBOOT_OK` has performed the action that the command
names and no other, in every environment, if and only if the device reboots (when no task ends with
`PICOBOOT_OK`), or the command is not `PC_ENTER_CMD_XIP`, nor a read or a write of no bytes at a
page of flash. -/
theorem command_performed_iff {p : Picoboot} {cmd : PicobootCmd} {addr len : Word}
    {task : AsyncTask} {act : PicobootAct} (hqueues : p.Queues cmd addr len task)
    (hact : cmd.act = some act) (m : Machine) :
    (∀ env m', executeTask env task m = (m', 0) → Performed env cmd addr len m m' act) ↔
      (m.rebooting = true ∨ (act ≠ .enterCmdXip ∧ ¬act.MovesPage addr len)) := by
  have h := hqueues.isTaskOf hact
  cases hrebooting : m.rebooting with
  | true =>
    refine iff_of_true (fun env m' hrun => ?_) (.inl rfl)
    rw [executeTask, if_pos hrebooting] at hrun
    exact absurd (Prod.mk.inj hrun).2 (by decide)
  | false =>
    simp only [executeTask_eq_stage _ _ h.type hrebooting, Bool.false_eq_true, false_or]
    constructor
    · intro hall
      constructor
      · rintro rfl
        exact not_performed_enterCmdXip m (hall notingEnv m rfl)
      · intro hpage
        obtain ⟨m', hrun, hnot⟩ := not_performed_page h hpage m
        exact hnot (hall notingEnv m' hrun)
    · intro hcond env m' hrun
      exact performed_of_ok h env hcond.1 hcond.2 hrun

/-- A packet with a command without data. -/
def plainCommand (id size : Byte) (arg : Word) : PicobootCmd where
  dMagic := picobootMagic
  dToken := 1
  bCmdId := id
  bCmdSize := size
  dTransferLength := 0
  arg0 := arg
  arg1 := 0
  arg2 := 0

/-- `command_performed_iff`, for `PC_EXIT_XIP`. -/
theorem command_performed_iff_exitXip :
    (plainCommand 6 0 0).act = some .exitXip ∧
      ∀ env m', executeTask env
          (Picoboot.readCommand 32 (plainCommand 6 0 0) {}).1.queueCommandTask.queue.task
          powerOn.toMachine = (m', 0) →
        Performed env (plainCommand 6 0 0) 0 0 powerOn.toMachine m' .exitXip :=
  ⟨rfl, (command_performed_iff (.single rfl) rfl powerOn.toMachine).2
    (.inr ⟨by decide, by rintro ⟨h | h, -⟩ <;> cases h⟩)⟩

/-- `PC_ENTER_CMD_XIP` is accepted and its task ends with `PICOBOOT_OK`, but the chip was not
called. -/
theorem enter_cmd_xip_does_nothing :
    ∃ task, Picoboot.Queues {} (plainCommand 7 0 0) 0 0 task ∧
      (plainCommand 7 0 0).act = some .enterCmdXip ∧
      executeTask bareEnv task powerOn.toMachine = (powerOn.toMachine, 0) ∧
      ¬Performed bareEnv (plainCommand 7 0 0) 0 0 powerOn.toMachine powerOn.toMachine
        .enterCmdXip := by
  refine ⟨_, .single rfl, rfl, rfl, fun h => ?_⟩
  exact ne_append_singleton _ _ (congrArg (·.flash.ops) h)

end PicoBootrom
