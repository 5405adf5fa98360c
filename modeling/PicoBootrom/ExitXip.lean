import PicoBootrom.PicobootAct
import PicoBootrom.WorkerTurn

/-!
# Leaving XIP mode before flash is written

Only the first task of a UF2 flash transfer has `AT_EXIT_XIP`. The tracking state does not know
what became of it : the later blocks are queued without the bit whether the first task was
executed, was refused by `execute_task` or by `do_flash_exit_xip`, or was dropped from the queue.

So XIP mode has been left before each erase and each program of a transfer in the runs that keep
the first task (`KeepsOpening`). The erases and the programs are the noted calls (`flashCalls`), and
these are all that a task of the virtual disk does to the chip (`flashCalls_replay`).
-/

namespace PicoBootrom

/-! ## What a sector queues -/

/-- A task of the virtual disk has none of the bits that only commands have. -/
def AsyncTask.IsPlain (task : AsyncTask) : Prop :=
  task.type &&& (atVectorizeFlash ||| atExclusive ||| atExec ||| atRead ||| atEnterCmdXip) = 0

theorem eraseOnFirstUse_effect (d : VirtualDisk) :
    ((eraseOnFirstUse d).uf2Info.nextTask.type = d.uf2Info.nextTask.type ∨
      (eraseOnFirstUse d).uf2Info.nextTask.type = d.uf2Info.nextTask.type ||| atFlashErase) ∧
    (eraseOnFirstUse d).uf2Info.numBlocks = d.uf2Info.numBlocks ∧
      (eraseOnFirstUse d).uf2Info.ram = d.uf2Info.ram := by
  unfold eraseOnFirstUse
  dsimp only
  split
  · exact ⟨.inl rfl, rfl, rfl⟩
  · exact ⟨.inr rfl, rfl, rfl⟩

/-- `_write_uf2_page` queues the task, with `AT_FLASH_ERASE` at most added to it. -/
theorem writeUf2Page_effect {d : VirtualDisk}
    (hmark : d.testBitmap d.uf2Info.validBlocks d.uf2Info.blockNo.toNat = false) :
    ∃ d', writeUf2Page d = (d', true) ∧ d'.virtualDiskQueue.full = true ∧
      (d'.virtualDiskQueue.task.type = d.uf2Info.nextTask.type ∨
        d'.virtualDiskQueue.task.type = d.uf2Info.nextTask.type ||| atFlashErase) ∧
      d'.uf2Info.numBlocks = d.uf2Info.numBlocks ∧ d'.uf2Info.ram = d.uf2Info.ram := by
  refine ⟨(writeUf2Page d).1, ?_⟩
  unfold writeUf2Page
  rw [hmark, if_neg Bool.false_ne_true]
  refine ⟨rfl, rfl, ?_⟩
  simp only [queueTask, VirtualDisk.setBitmap_uf2Info]
  split
  · exact ⟨.inl rfl, rfl, rfl⟩
  · exact eraseOnFirstUse_effect { d with uf2Info := _ }

/-- What `prepareUf2Task` leaves. -/
theorem prepareUf2Task_effect (uf2 : Uf2Block) (token : Word) (type : Byte) (d : VirtualDisk) :
    ((prepareUf2Task uf2 token type d).2 = false ∧
      (prepareUf2Task uf2 token type d).1.uf2Info.numBlocks = 0) ∨
    ((prepareUf2Task uf2 token type d).2 = true ∧ uf2.blockNo < uf2.numBlocks ∧
      uf2.ram = d.uf2Info.ram ∧
      ∃ task : AsyncTask, task.type = type ∧
        (prepareUf2Task uf2 token type d).1 =
          { d with uf2Info := { d.uf2Info with
            blockNo := uf2.blockNo, token := token, nextTask := task } }) := by
  unfold prepareUf2Task
  split
  · exact .inl ⟨rfl, rfl⟩
  · next hram =>
    split
    · next hlt => exact .inr ⟨rfl, hlt, by simpa using hram, _, rfl, rfl⟩
    · exact .inl ⟨rfl, rfl⟩

/-- What a sector does to the transfer that is active and to the queue. -/
inductive SectorEffect (uf2 : Uf2Block) (d : VirtualDisk) : VirtualDisk × Bool → Prop
  /-- A block of the active transfer is queued. -/
  | continues {d' : VirtualDisk} (hopens : opensTransfer uf2 d = false)
      (hactive : d.uf2Info.numBlocks ≠ 0) (hram : d'.uf2Info.ram = d.uf2Info.ram)
      (hfull : d'.virtualDiskQueue.full = true) (hplain : d'.virtualDiskQueue.task.IsPlain) :
      SectorEffect uf2 d (d', true)
  /-- The first block of a transfer is queued. -/
  | opens {d' : VirtualDisk} (hopens : opensTransfer uf2 d = true)
      (hfull : d'.virtualDiskQueue.full = true) (hplain : d'.virtualDiskQueue.task.IsPlain)
      (hexit : d'.uf2Info.ram = false → d'.virtualDiskQueue.task.has atExitXip = true) :
      SectorEffect uf2 d (d', true)
  /-- Nothing is queued, and the active transfer goes on, if there is one. -/
  | skips {d' : VirtualDisk} (hopens : opensTransfer uf2 d = false)
      (hqueue : d'.virtualDiskQueue = d.virtualDiskQueue)
      (hblocks : d'.uf2Info.numBlocks = d.uf2Info.numBlocks)
      (hram : d'.uf2Info.ram = d.uf2Info.ram) : SectorEffect uf2 d (d', false)
  /-- Nothing is queued, and no transfer is active. -/
  | ends {d' : VirtualDisk} (hqueue : d'.virtualDiskQueue = d.virtualDiskQueue)
      (hblocks : d'.uf2Info.numBlocks = 0) : SectorEffect uf2 d (d', false)

/-- `_update_current_uf2_info` leaves no transfer active, or the task of the block in the state of
its transfer, which has no block marked if it is new. -/
theorem updateCurrentUf2Info_effect (uf2 : Uf2Block) (token : Word) (d : VirtualDisk) :
    ((updateCurrentUf2Info uf2 token d).2 = false ∧
      (updateCurrentUf2Info uf2 token d).1.uf2Info.numBlocks = 0) ∨
    ∃ d', updateCurrentUf2Info uf2 token d = (d', true) ∧ uf2.garbage = false ∧
      d.virtualDiskQueue.disable = false ∧ d'.uf2Info.ram = uf2.ram ∧
      ((opens uf2 d = true ∧
          d'.uf2Info.nextTask.type = (if uf2.flash then atWrite ||| atExitXip else atWrite) ∧
          d'.testBitmap d'.uf2Info.validBlocks d'.uf2Info.blockNo.toNat = false) ∨
        (opens uf2 d = false ∧ d'.uf2Info.nextTask.type = atWrite ∧
          d'.uf2Info.numBlocks = d.uf2Info.numBlocks ∧ d'.uf2Info.ram = d.uf2Info.ram ∧
          d.uf2Info.numBlocks ≠ 0)) := by
  unfold updateCurrentUf2Info
  by_cases hgarbage : uf2.garbage = true
  · rw [if_pos hgarbage]
    exact .inl ⟨rfl, rfl⟩
  by_cases hdisable : d.virtualDiskQueue.disable = true
  · rw [if_neg hgarbage, if_pos hdisable]
    exact .inl ⟨rfl, rfl⟩
  rw [if_neg hgarbage, if_neg hdisable]
  rw [Bool.not_eq_true] at hgarbage hdisable
  by_cases hopens : d.uf2Info.numBlocks ≠ uf2.numBlocks
  · rw [if_pos hopens]
    have hopens' : opens uf2 d = true := by simpa [opens] using hopens
    by_cases hbig : (resetUf2Info uf2 d).uf2Info.maxValidBlocks < uf2.numBlocks
    · rw [if_pos hbig]
      exact .inl ⟨rfl, resetUf2Info_numBlocks uf2 d⟩
    · rw [if_neg hbig]
      change (((prepareUf2Task uf2 token _ (openTransfer uf2 d)).2 = false ∧ _) ∨
        ∃ d', prepareUf2Task uf2 token _ (openTransfer uf2 d) = (d', true) ∧ _)
      rcases prepareUf2Task_effect uf2 token
          (if uf2.flash then atWrite ||| atExitXip else atWrite) (openTransfer uf2 d) with
        ⟨hno, hblocks⟩ | ⟨hok, hlt, hram, task, htype, heq⟩
      · exact .inl ⟨hno, hblocks⟩
      · refine .inr ⟨_, Prod.ext heq hok, hgarbage, hdisable, hram.symm,
          .inl ⟨hopens', htype, ?_⟩⟩
        have hi : uf2.blockNo.toNat < capacity uf2.ram := by
          rw [BitVec.lt_def] at hlt
          rw [BitVec.lt_def, resetUf2Info_maxValidBlocks] at hbig
          omega
        have hvalid : (openTransfer uf2 d).uf2Info.validBlocks = validBlocksPtr uf2.ram :=
          resetUf2Info_validBlocks uf2 d
        dsimp only
        rw [hvalid]
        exact (VirtualDisk.testBitmap_congr rfl rfl _ _).trans (testBitmap_openTransfer uf2 d hi)
  · rw [if_neg hopens]
    have hopens' : opens uf2 d = false := by simpa [opens] using hopens
    rcases prepareUf2Task_effect uf2 token atWrite d with
      ⟨hno, hblocks⟩ | ⟨hok, -, hram, task, htype, heq⟩
    · exact .inl ⟨hno, hblocks⟩
    · refine .inr ⟨_, Prod.ext heq hok, hgarbage, hdisable, hram.symm,
        .inr ⟨hopens', htype, rfl, rfl, ?_⟩⟩
      rw [not_not.1 hopens]
      exact Uf2Block.numBlocks_ne_zero_of_not_garbage hgarbage

/-- A block that is prepared is queued, unless it is marked. -/
theorem vdWriteBlock_of_prepared {uf2 : Uf2Block} {token : Word} {d d' : VirtualDisk}
    (hfor : uf2.forRp2040 = true) (hd : d.sectorBuf = uf2)
    (hupdate : updateCurrentUf2Info uf2 token d = (d', true)) :
    vdWriteBlock token d = writeUf2Page d' := by
  rw [vdWriteBlock, hd, hfor, if_pos rfl, hupdate]
  rfl

theorem receiveSector_effect (uf2 : Uf2Block) (token : Word) (d : VirtualDisk) :
    SectorEffect uf2 d (receiveSector uf2 token d) := by
  have hplain {type : Byte} (h : type = atWrite ∨ type = atWrite ||| atExitXip) {task : AsyncTask}
      (htask : task.type = type ∨ task.type = type ||| atFlashErase) : task.IsPlain := by
    unfold AsyncTask.IsPlain
    rcases h with rfl | rfl <;> rcases htask with h | h <;> rw [h] <;> decide
  unfold receiveSector
  generalize hx : d.filled uf2 = x
  have hbuf : x.sectorBuf = uf2 := by rw [← hx]; rfl
  have hqueue : x.virtualDiskQueue = d.virtualDiskQueue := by rw [← hx]; rfl
  have hinfo : x.uf2Info = d.uf2Info := by rw [← hx]; rfl
  cases hfor : uf2.forRp2040 with
  | false =>
    have hno : opensTransfer uf2 d = false := by simp [opensTransfer, hfor]
    rw [vdWriteBlock, hbuf, hfor, if_neg Bool.false_ne_true]
    exact .skips hno hqueue (by rw [hinfo]) (by rw [hinfo])
  | true =>
    have hnew (hgarbage : uf2.garbage = false) (hdisable : x.virtualDiskQueue.disable = false) :
        opensTransfer uf2 d = opens uf2 x := by
      rw [hqueue] at hdisable
      simp [opensTransfer, hfor, hgarbage, hdisable, opens, hinfo]
    rcases updateCurrentUf2Info_effect uf2 token x with
      ⟨hno, hblocks⟩ | ⟨d', heq, hgarbage, hdisable, hram, hcase⟩
    · have hskip : vdWriteBlock token x = ((updateCurrentUf2Info uf2 token x).1, false) := by
        rw [vdWriteBlock, hbuf, hfor, if_pos rfl]
        dsimp only
        rw [hno, if_neg Bool.false_ne_true]
      rw [hskip]
      exact .ends ((updateCurrentUf2Info_virtualDiskQueue uf2 token x).trans hqueue) hblocks
    · rw [vdWriteBlock_of_prepared hfor hbuf heq]
      rcases hcase with ⟨hopens, htype, hmark⟩ | ⟨hopens, htype, hblocks, hsame, hactive⟩
      · obtain ⟨d'', hwrite, hfull, htask, -, hram'⟩ := writeUf2Page_effect hmark
        rw [hwrite]
        rw [htype] at htask
        refine .opens ((hnew hgarbage hdisable).trans hopens) hfull
          (hplain (by split <;> simp) htask) fun hflash => ?_
        have hflash' : uf2.flash = true :=
          Uf2Block.flash_of_not_garbage hgarbage (hram.symm.trans (hram'.symm.trans hflash))
        rw [if_pos hflash'] at htask
        unfold AsyncTask.has
        rcases htask with h | h <;> rw [h] <;> decide
      · have hno := (hnew hgarbage hdisable).trans hopens
        cases hmark : d'.testBitmap d'.uf2Info.validBlocks d'.uf2Info.blockNo.toNat with
        | true =>
          have hskip : writeUf2Page d' = (d', false) := by rw [writeUf2Page, hmark, if_pos rfl]
          have hkeep : d'.virtualDiskQueue = x.virtualDiskQueue := by
            rw [← updateCurrentUf2Info_virtualDiskQueue uf2 token x, heq]
          rw [hskip]
          exact .skips hno (hkeep.trans hqueue) (by rw [hblocks, hinfo]) (by rw [hsame, hinfo])
        | false =>
          obtain ⟨d'', hwrite, hfull, htask, -, hram'⟩ := writeUf2Page_effect hmark
          rw [hwrite]
          rw [htype] at htask
          exact .continues hno (by rwa [hinfo] at hactive) (by rw [hram', hsame, hinfo]) hfull
            (hplain (.inl rfl) htask)

/-! ## The calls of a task -/

theorem AsyncTask.IsPlain.not_has {task : AsyncTask} (h : task.IsPlain) :
    task.has atVectorizeFlash = false ∧ task.has atExclusive = false ∧
      task.has atExec = false ∧ task.has atRead = false ∧ task.has atEnterCmdXip = false := by
  unfold AsyncTask.IsPlain at h
  have hbits {bits : Byte} (hsub : (atVectorizeFlash ||| atExclusive ||| atExec ||| atRead |||
      atEnterCmdXip) &&& bits = bits) : task.has bits = false := by
    rw [AsyncTask.has, ← hsub, ← BitVec.and_assoc, h]
    exact bne_eq_false_iff_eq.2 BitVec.zero_and
  exact ⟨hbits (by decide), hbits (by decide), hbits (by decide), hbits (by decide),
    hbits (by decide)⟩

/-- A task of the virtual disk leaves XIP mode first. -/
theorem exitXipCall_of_plain (env : Env) {task : AsyncTask} (h : task.IsPlain)
    (hexit : task.has atExitXip = true) (m : Machine) :
    exitXipCall env task m = [.exitXip ((m.funcs env).doFlashExitXip m.flash).2] := by
  obtain ⟨hvectorize, hexclusive, -⟩ := h.not_has
  rw [exitXipCall, TaskStep.andThen_of_ok (executeVectorizeFlash_of_not env hvectorize m),
    executeExclusive_of_not hexclusive, if_pos ⟨rfl, hexit⟩]

/-- If the stages up to the check of the last source succeed, so has `do_flash_exit_xip`. -/
theorem exitXipCall_of_ok (env : Env) {task : AsyncTask} (h : task.IsPlain)
    (hexit : task.has atExitXip = true) {m : Machine}
    (hok : (stagesBeforeMutation env task m).2 = 0) : exitXipCall env task m = [.exitXip 0] := by
  obtain ⟨hvectorize, hexclusive, hexec, -⟩ := h.not_has
  rw [exitXipCall_of_plain env h hexit]
  rw [stagesBeforeMutation, TaskStep.andThen_of_ok (executeVectorizeFlash_of_not env hvectorize m),
    TaskStep.andThen_of_ok (executeExclusive_of_not hexclusive m)] at hok
  have hresult : (executeExitXip env task m).2 = ((m.funcs env).doFlashExitXip m.flash).2 := by
    rw [executeExitXip, if_pos hexit]
    rfl
  by_cases hzero : (executeExitXip env task m).2 = 0
  · rw [← hresult, hzero]
  · rw [TaskStep.andThen_of_error (Prod.ext rfl rfl) hzero] at hok
    exact absurd hok hzero

theorem TaskStep.andThen_ok_left {f g : TaskStep} {m : Machine} (h : ((f.andThen g) m).2 = 0) :
    (f m).2 = 0 := by
  by_contra hne
  rw [TaskStep.andThen_of_error (Prod.ext rfl rfl) hne] at h
  exact hne h

/-- What a task with `AT_EXIT_XIP` erases or programs comes after `do_flash_exit_xip`. -/
theorem flashCalls_exit_before (env : Env) {task : AsyncTask} (h : task.IsPlain)
    (hexit : task.has atExitXip = true) {m : Machine} {pre post : List FlashCall} {c : FlashCall}
    (hcalls : flashCalls env task m = pre ++ c :: post) (hc : c.mutates = true) :
    .exitXip 0 ∈ pre := by
  unfold flashCalls at hcalls
  split at hcalls
  · cases pre <;> cases hcalls
  · have hmem : c ∈ exitXipCall env task m ++ eraseRangeCall env task m ++
        pageProgramCall env task m := by
      rw [hcalls]
      simp
    have hok : (stagesBeforeMutation env task m).2 = 0 := by
      rw [List.append_assoc, List.mem_append, List.mem_append] at hmem
      rcases hmem with hmem | hmem | hmem
      · rw [exitXipCall_of_plain env h hexit, List.mem_singleton] at hmem
        rw [hmem] at hc
        cases hc
      · unfold eraseRangeCall at hmem
        dsimp only at hmem
        split at hmem
        · next hreach => exact TaskStep.andThen_ok_left hreach.1
        · cases hmem
      · unfold pageProgramCall at hmem
        dsimp only at hmem
        split at hmem
        · next hreach => exact TaskStep.andThen_ok_left hreach.1
        · cases hmem
    rw [exitXipCall_of_ok env h hexit hok, List.append_assoc, List.singleton_append] at hcalls
    cases pre with
    | nil =>
      obtain ⟨rfl, -⟩ := List.cons.inj hcalls
      cases hc
    | cons x pre =>
      obtain ⟨rfl, -⟩ := List.cons.inj hcalls
      exact List.mem_cons_self

/-! ## The calls and the chip -/

section Replay

variable {env : Env} {task : AsyncTask} {m m' m'' : Machine} {calls calls' : List FlashCall}

/-- The chip is changed by the calls, and the calls that come next are as they were. -/
structure Replays (env : Env) (task : AsyncTask) (calls : List FlashCall) (m m' : Machine) :
    Prop where
  flash : m'.flash =
    calls.foldl (FlashCall.run (m.funcs env) (m.readData task.data)) m.flash
  funcs : m'.funcs env = m.funcs env
  data : m'.readData task.data = m.readData task.data

theorem Replays.trans (h : Replays env task calls m m') (h' : Replays env task calls' m' m'') :
    Replays env task (calls ++ calls') m m'' := by
  refine ⟨?_, h'.funcs.trans h.funcs, h'.data.trans h.data⟩
  rw [h'.flash, h.funcs, h.data, h.flash, List.foldl_append]

/-- A stage makes its calls if those before it end without an error. -/
theorem Replays.andThen {s s' : TaskStep} (h : Replays env task calls m (s m).1)
    (h' : Replays env task calls' (s m).1 (s' (s m).1).1) :
    Replays env task (calls ++ if (s m).2 = 0 then calls' else []) m ((s.andThen s') m).1 := by
  by_cases hok : (s m).2 = 0
  · rw [if_pos hok, TaskStep.andThen_of_ok (Prod.ext rfl hok)]
    exact h.trans h'
  · rw [if_neg hok, List.append_nil, TaskStep.andThen_of_error (Prod.ext rfl rfl) hok]
    exact h

theorem executeExitXip_replays : Replays env task
    (if task.has atExitXip then [.exitXip ((m.funcs env).doFlashExitXip m.flash).2] else []) m
    (executeExitXip env task m).1 := by
  unfold executeExitXip
  split
  · exact ⟨rfl, rfl, rfl⟩
  · exact ⟨rfl, rfl, rfl⟩

theorem executeMutationSource_replays :
    Replays env task [] m (executeMutationSource task m).1 := by
  unfold executeMutationSource
  split
  · split
    · exact ⟨rfl, rfl, rfl⟩
    · exact ⟨rfl, rfl, rfl⟩
  · exact ⟨rfl, rfl, rfl⟩

/-- The task gets to `do_flash_erase_range`, if it gets as far as `AT_FLASH_ERASE`. -/
def AsyncTask.ErasesRange (task : AsyncTask) : Prop :=
  task.has atFlashErase ∧ task.eraseAddr &&& (flashSectorEraseSize - 1) = 0 ∧
    task.eraseSize &&& (flashSectorEraseSize - 1) = 0 ∧ isAddressFlash task.eraseAddr ∧
    isAddressFlash (task.eraseAddr + task.eraseSize)

instance (task : AsyncTask) : Decidable task.ErasesRange :=
  inferInstanceAs (Decidable (_ ∧ _))

theorem AsyncTask.erasesRange_iff : task.ErasesRange ↔
    task.has atFlashErase = true ∧ EraseAccepted task.eraseAddr task.eraseSize := by
  rw [ErasesRange, EraseAccepted, and_sectorMask_eq_zero, and_sectorMask_eq_zero]

theorem executeFlashErase_replays : Replays env task
    (if task.ErasesRange then [.eraseRange task.eraseAddr task.eraseSize] else []) m
    (executeFlashErase env task m).1 := by
  rcases executeFlashErase_cases env task m with
    ⟨herase, hacc, heq⟩ | ⟨-, hrejected, status, -, heq⟩ | ⟨hno, heq⟩
  · rw [if_pos (AsyncTask.erasesRange_iff.2 ⟨herase, hacc⟩), heq]
    exact ⟨rfl, rfl, rfl⟩
  · rw [if_neg fun h => hrejected (AsyncTask.erasesRange_iff.1 h).2, heq]
    exact ⟨rfl, rfl, rfl⟩
  · rw [if_neg fun h => Bool.eq_false_iff.1 hno h.1, heq]
    exact ⟨rfl, rfl, rfl⟩

/-- The last stage of a task of the virtual disk. -/
theorem executeTransfer_replays (h : task.IsPlain) :
    (executeTransfer env task m).1.flash =
      (if (executeAddressCheck task m).2 = 0 ∧ task.has atWrite ∧ task.directAccess = false then
        [FlashCall.pageProgram task.transferAddr] else []).foldl
          (FlashCall.run (m.funcs env) (m.readData task.data)) m.flash := by
  obtain ⟨-, -, -, hread, henter⟩ := h.not_has
  have hmachine : (executeAddressCheck task m).1 = m := by
    unfold executeAddressCheck
    split
    · rfl
    · split
      · split <;> rfl
      · rfl
  cases hwrite : task.has atWrite with
  | false =>
    rw [executeTransfer_of_not env (by rw [AsyncTask.has_or, hwrite, hread]; rfl),
      if_neg (by simp)]
    rfl
  | true =>
    rw [executeTransfer, if_pos (by rw [AsyncTask.has_or, hwrite]; rfl),
      TaskStep.andThen_of_skip (executeRead_of_not env hread),
      TaskStep.andThen_skip _ (executeEnterCmdXip_of_not env henter)]
    by_cases hcheck : (executeAddressCheck task m).2 = 0
    · rw [TaskStep.andThen_of_ok (Prod.ext hmachine hcheck), executeWrite, if_pos hwrite]
      cases hdirect : task.directAccess with
      | true =>
        rw [if_pos rfl, if_neg (by simp)]
        change (m.revertFlashFuncs task).flash = m.flash
        unfold Machine.revertFlashFuncs
        split
        · rfl
        · split <;> rfl
      | false =>
        rw [if_neg Bool.false_ne_true, if_pos ⟨hcheck, rfl, rfl⟩]
        rfl
    · rw [TaskStep.andThen_of_error (Prod.ext hmachine rfl) hcheck, if_neg fun h => hcheck h.1]
      rfl

/-- The calls of a task of the virtual disk are what it does to the chip. -/
theorem flashCalls_replay (h : task.IsPlain) (m : Machine) :
    (executeTask env task m).1.flash =
      (flashCalls env task m).foldl (FlashCall.run (m.funcs env) (m.readData task.data))
        m.flash := by
  obtain ⟨hvectorize, hexclusive, hexec, -⟩ := h.not_has
  cases hreboot : m.rebooting with
  | true =>
    rw [executeTask, if_pos hreboot, flashCalls, if_pos hreboot]
    rfl
  | false =>
    have hbefore : stagesBeforeMutation env task = executeExitXip env task := by
      rw [stagesBeforeMutation,
        TaskStep.andThen_of_skip (executeVectorizeFlash_of_not env hvectorize),
        TaskStep.andThen_of_skip (executeExclusive_of_not hexclusive),
        TaskStep.andThen_skip _ (executeExec_of_not env hexec)]
    have hexit : Replays env task (exitXipCall env task m) m (executeExitXip env task m).1 := by
      rw [exitXipCall, TaskStep.andThen_of_skip (executeVectorizeFlash_of_not env hvectorize),
        executeExclusive_of_not hexclusive]
      simp only [true_and]
      exact executeExitXip_replays
    have hsource : Replays env task (exitXipCall env task m) m
        ((executeExitXip env task).andThen (executeMutationSource task) m).1 := by
      have hboth := hexit.andThen executeMutationSource_replays
      rwa [ite_self, List.append_nil] at hboth
    have herase : Replays env task (exitXipCall env task m ++ eraseRangeCall env task m) m
        (((executeExitXip env task).andThen (executeMutationSource task)).andThen
          (executeFlashErase env task) m).1 := by
      have hboth := hsource.andThen executeFlashErase_replays
      rw [← ite_and] at hboth
      rw [eraseRangeCall, hbefore]
      exact hboth
    rw [executeTask, if_neg (by rw [hreboot]; decide),
      TaskStep.andThen_of_skip (executeVectorizeFlash_of_not env hvectorize),
      TaskStep.andThen_of_skip (executeExclusive_of_not hexclusive),
      TaskStep.andThen_of_skip (executeExec_of_not env hexec), ← TaskStep.andThen_assoc,
      ← TaskStep.andThen_assoc, flashCalls, if_neg (by rw [hreboot]; decide), pageProgramCall,
      hbefore, ← TaskStep.andThen_assoc, ← TaskStep.andThen_assoc, List.foldl_append,
      ← herase.flash]
    generalize ((executeExitXip env task).andThen (executeMutationSource task)).andThen
      (executeFlashErase env task) = stages at herase ⊢
    by_cases hok : (stages m).2 = 0
    · rw [TaskStep.andThen_of_ok (Prod.ext rfl hok), TaskStep.andThen_of_ok (Prod.ext rfl hok),
        executeTransfer_replays h, herase.funcs, herase.data]
    · rw [TaskStep.andThen_of_error (Prod.ext rfl rfl) hok,
        TaskStep.andThen_of_error (Prod.ext rfl rfl) hok, if_neg fun hall => hok hall.1]
      rfl

end Replay

/-- Each erase and each program of a transfer comes after a task of the same transfer has left XIP
mode. -/
def ExitedBefore (calls : List (ℕ × FlashCall)) : Prop :=
  ∀ pre n c post, calls = pre ++ (n, c) :: post → c.mutates = true → (n, .exitXip 0) ∈ pre

theorem ExitedBefore.append {calls : List (ℕ × FlashCall)} (h : ExitedBefore calls) {n : ℕ}
    {new : List FlashCall} (hnew : ∀ pre c post, new = pre ++ c :: post → c.mutates = true →
      (n, .exitXip 0) ∈ calls ∨ .exitXip 0 ∈ pre) :
    ExitedBefore (calls ++ new.map (n, ·)) := by
  intro pre n' c post heq hc
  rcases List.append_eq_append_iff.1 heq with ⟨mid, hpre, hrest⟩ | ⟨mid, hcalls, hrest⟩
  · obtain ⟨pre', rest, rfl, rfl, hlast⟩ := List.map_eq_append_iff.1 hrest
    obtain ⟨c', post', rfl, hpair, -⟩ := List.map_eq_cons_iff.1 hlast
    obtain ⟨rfl, rfl⟩ := Prod.mk.inj hpair
    rw [hpre, List.mem_append]
    exact (hnew _ _ _ rfl hc).imp_right fun hmem => List.mem_map.2 ⟨_, hmem, rfl⟩
  · cases mid with
    | nil =>
      rw [List.nil_append] at hrest
      obtain ⟨c', post', rfl, hpair, -⟩ := List.map_eq_cons_iff.1 hrest.symm
      obtain ⟨rfl, rfl⟩ := Prod.mk.inj hpair
      rw [hcalls, List.append_nil] at hnew
      rcases hnew [] _ _ rfl hc with hmem | hmem
      · exact hmem
      · cases hmem
    | cons x mid =>
      obtain ⟨rfl, -⟩ := List.cons.inj hrest
      exact h pre _ _ _ hcalls hc

/-! ## Runs that keep the first task -/

namespace WorkerWorld

variable (w : WorkerWorld)

/-- A task of the transfer has left XIP mode. -/
def Exited (n : ℕ) : Prop := (n, .exitXip 0) ∈ w.calls

/-- The first task of the active flash transfer waits in the queue. -/
def OpeningWaits : Prop :=
  w.disk.uf2Info.numBlocks ≠ 0 ∧ w.disk.virtualDiskQueue.full = true ∧
    w.disk.virtualDiskQueue.task.has atExitXip = true ∧ w.queuedTag = ⟨w.transfer, true⟩

/-- The worker has taken the first task of the transfer, and has not executed it. -/
def OpeningTaken (n : ℕ) : Prop :=
  ∃ task, w.worker = .tookDisk task ∧ task.has atExitXip = true ∧ w.workerTag = ⟨n, true⟩

/-- More blocks of the transfer may follow : it is active, or a task of it waits in the queue. -/
def GoesOn (n : ℕ) : Prop :=
  (w.disk.uf2Info.numBlocks ≠ 0 ∧ n = w.transfer) ∨
    (w.disk.virtualDiskQueue.full = true ∧ w.queuedTag = ⟨n, true⟩)

/-- The first task of a flash transfer is kept. While it waits in the queue it is neither
overwritten by a block of the same transfer nor dropped by a reset of the PICOBOOT interface. And
when it is executed, and more blocks of the transfer may follow, the queue is not disabled and
`do_flash_exit_xip` succeeds, or the device reboots. -/
def KeepsOpening (env : Env) : WorkerEvent → Prop
  | .sector uf2 token => w.OpeningWaits → (receiveSector uf2 token w.disk).2 = true →
      opensTransfer uf2 w.disk = true
  | .run => ∀ n, w.OpeningTaken n → w.GoesOn n → w.disk.rebooting = true ∨
      (w.disk.virtualDiskQueue.disable = false ∧
        ((w.disk.funcs env).doFlashExitXip w.disk.flash).2 = 0)
  | .picobootReset => ¬w.OpeningWaits
  | _ => True

/-- XIP mode has been left for the transfer, or will be before another of its tasks runs, or the
device reboots and no task runs any more. -/
structure OpeningKept : Prop where
  calls : ExitedBefore w.calls
  active : w.disk.uf2Info.numBlocks ≠ 0 → w.disk.uf2Info.ram = false →
    w.Exited w.transfer ∨ w.OpeningWaits ∨ w.OpeningTaken w.transfer ∨ w.disk.rebooting = true
  queued : w.disk.virtualDiskQueue.full = true → w.queuedTag.flash = true →
    w.Exited w.queuedTag.transfer ∨ w.disk.virtualDiskQueue.task.has atExitXip = true ∨
      w.OpeningTaken w.queuedTag.transfer ∨ w.disk.rebooting = true
  taken : ∀ task, w.worker = .tookDisk task → w.workerTag.flash = true →
    w.Exited w.workerTag.transfer ∨ task.has atExitXip = true ∨ w.disk.rebooting = true
  plainQueued : w.disk.virtualDiskQueue.full = true → w.disk.virtualDiskQueue.task.IsPlain
  plainTaken : ∀ task, w.worker = .tookDisk task → task.IsPlain

namespace OpeningKept

variable {w} {env : Env}

theorem sector (h : w.OpeningKept) {uf2 : Uf2Block} {token : Word}
    (hkeeps : w.KeepsOpening env (.sector uf2 token)) :
    (workerStep env w (.sector uf2 token)).OpeningKept := by
  have heffect := receiveSector_effect uf2 token w.disk
  have hrebooting : (receiveSector uf2 token w.disk).1.rebooting = w.disk.rebooting :=
    congrArg (fun p => p.2.2.2.2.2.2.2.1) (receiveSector_device uf2 token w.disk)
  simp only [KeepsOpening] at hkeeps
  unfold workerStep
  dsimp only
  generalize receiveSector uf2 token w.disk = r at heffect hrebooting hkeeps
  cases heffect with
  | @continues d' hopens hactive hram hfull hplain =>
    have hwaits : ¬w.OpeningWaits := fun hw => by
      rw [hkeeps hw rfl] at hopens
      cases hopens
    rw [hopens]
    have hnext (hflash : d'.uf2Info.ram = false) : w.Exited w.transfer ∨
        w.OpeningTaken w.transfer ∨ d'.rebooting = true := by
      rcases h.active hactive (hram.symm.trans hflash) with hdone | hw | htaken | hreboot
      · exact .inl hdone
      · exact absurd hw hwaits
      · exact .inr (.inl htaken)
      · exact .inr (.inr (hrebooting.trans hreboot))
    exact {
      calls := h.calls
      active := fun _ hflash => (hnext hflash).imp_right .inr
      queued := fun _ hflash => (hnext (by simpa using hflash)).imp_right .inr
      taken := fun task hworker hflash =>
        (h.taken task hworker hflash).imp_right (.imp_right hrebooting.trans)
      plainQueued := fun _ => hplain
      plainTaken := h.plainTaken }
  | @opens d' hopens hfull hplain hexit =>
    rw [hopens]
    exact {
      calls := h.calls
      active := fun hblocks hflash => by
        have hram : d'.uf2Info.ram = false := hflash
        exact .inr (.inl ⟨hblocks, hfull, hexit hram, by simp [hram]⟩)
      queued := fun _ hflash => .inr (.inl (hexit (by simpa using hflash)))
      taken := fun task hworker hflash =>
        (h.taken task hworker hflash).imp_right (.imp_right hrebooting.trans)
      plainQueued := fun _ => hplain
      plainTaken := h.plainTaken }
  | @skips d' hopens hqueue hblocks hram =>
    rw [hopens]
    exact {
      calls := h.calls
      active := fun hactive hflash => by
        rw [hblocks] at hactive
        rw [hram] at hflash
        refine (h.active hactive hflash).imp_right
          (.imp (fun hw => ⟨?_, ?_, ?_, hw.2.2.2⟩) (.imp_right hrebooting.trans))
        · exact fun hzero => hactive (hblocks.symm.trans hzero)
        · exact (congrArg AsyncTaskQueue.full hqueue).trans hw.2.1
        · exact (congrArg (fun q => q.task.has atExitXip) hqueue).trans hw.2.2.1
      queued := fun hfull hflash => by
        dsimp only at hfull ⊢
        rw [hqueue] at hfull ⊢
        exact (h.queued hfull hflash).imp_right (.imp_right (.imp_right hrebooting.trans))
      taken := fun task hworker hflash =>
        (h.taken task hworker hflash).imp_right (.imp_right hrebooting.trans)
      plainQueued := fun hfull => by
        dsimp only at hfull ⊢
        rw [hqueue] at hfull ⊢
        exact h.plainQueued hfull
      plainTaken := h.plainTaken }
  | @ends d' hqueue hblocks =>
    exact {
      calls := h.calls
      active := fun hactive => absurd hblocks hactive
      queued := fun hfull hflash => by
        dsimp only at hfull ⊢
        rw [hqueue] at hfull ⊢
        exact (h.queued hfull hflash).imp_right (.imp_right (.imp_right hrebooting.trans))
      taken := fun task hworker hflash =>
        (h.taken task hworker hflash).imp_right (.imp_right hrebooting.trans)
      plainQueued := fun hfull => by
        dsimp only at hfull ⊢
        rw [hqueue] at hfull ⊢
        exact h.plainQueued hfull
      plainTaken := h.plainTaken }

/-- A step that leaves the transfer, the queue, the worker and the calls alone. -/
theorem congr (h : w.OpeningKept) {d : VirtualDisk} {p : Picoboot} {granted : Bool}
    (hinfo : d.uf2Info = w.disk.uf2Info)
    (hfull : d.virtualDiskQueue.full = w.disk.virtualDiskQueue.full)
    (htask : d.virtualDiskQueue.task = w.disk.virtualDiskQueue.task)
    (hrebooting : w.disk.rebooting = true → d.rebooting = true) :
    OpeningKept { w with disk := d, picoboot := p, granted := granted } where
  calls := h.calls
  active hactive hflash := by
    dsimp only at hactive hflash ⊢
    rw [hinfo] at hactive hflash
    refine (h.active hactive hflash).imp_right (.imp (fun hw => ?_) (.imp_right hrebooting))
    exact ⟨by rwa [hinfo], hfull.trans hw.2.1, by rw [htask]; exact hw.2.2.1, hw.2.2.2⟩
  queued hf hflash := by
    dsimp only at hf ⊢
    rw [hfull] at hf
    rw [htask]
    exact (h.queued hf hflash).imp_right (.imp_right (.imp_right hrebooting))
  taken task hworker hflash :=
    (h.taken task hworker hflash).imp_right (.imp_right hrebooting)
  plainQueued hf := by
    dsimp only at hf ⊢
    rw [hfull] at hf
    rw [htask]
    exact h.plainQueued hf
  plainTaken := h.plainTaken

/-- A step after which the worker does not have a task of the virtual disk that is to be executed,
as before. -/
theorem worker (h : w.OpeningKept) {worker : Worker}
    (hbefore : ∀ task, w.worker ≠ .tookDisk task) (hafter : ∀ task, worker ≠ .tookDisk task) :
    OpeningKept { w with worker := worker } where
  calls := h.calls
  active hactive hflash := (h.active hactive hflash).imp_right
    (.imp_right (.imp_left fun ⟨task, hworker, _⟩ => absurd hworker (hbefore task)))
  queued hf hflash := (h.queued hf hflash).imp_right
    (.imp_right (.imp_left fun ⟨task, hworker, _⟩ => absurd hworker (hbefore task)))
  taken task hworker := absurd hworker (hafter task)
  plainQueued := h.plainQueued
  plainTaken task hworker := absurd hworker (hafter task)

/-- The worker takes the task of the virtual disk. -/
theorem takeDisk (h : w.OpeningKept) (hidle : w.worker = .idle)
    (hfull : w.disk.virtualDiskQueue.full = true) :
    OpeningKept { w with
      disk := w.disk.taken
      worker := .tookDisk w.disk.virtualDiskQueue.task
      workerTag := w.queuedTag } where
  calls := h.calls
  active hactive hflash := by
    rcases h.active hactive hflash with hdone | hw | ⟨task, hworker, -⟩ | hreboot
    · exact .inl hdone
    · exact .inr (.inr (.inl ⟨_, rfl, hw.2.2⟩))
    · rw [hidle] at hworker
      cases hworker
    · exact .inr (.inr (.inr hreboot))
  queued hf := by cases hf
  taken task hworker hflash := by
    obtain rfl := Worker.tookDisk.inj hworker
    rcases h.queued hfull hflash with hdone | hexit | ⟨task, hworker, -⟩ | hreboot
    · exact .inl hdone
    · exact .inr (.inl hexit)
    · rw [hidle] at hworker
      cases hworker
    · exact .inr (.inr hreboot)
  plainQueued hf := by cases hf
  plainTaken task hworker := by
    obtain rfl := Worker.tookDisk.inj hworker
    exact h.plainQueued hfull

theorem take (h : w.OpeningKept) : (takeTask w).OpeningKept := by
  unfold takeTask
  split
  · next hidle =>
    split
    · next hfull => exact h.takeDisk hidle hfull
    · split
      · have hw : OpeningKept { w with worker := .tookCommand w.picoboot.queue.task } :=
          h.worker (fun task hworker => by rw [hidle] at hworker; cases hworker)
            (fun task hworker => by cases hworker)
        exact hw.congr rfl rfl rfl id
      · exact h
  · exact h

theorem complete (h : w.OpeningKept) : (completeTurn w).OpeningKept := by
  unfold completeTurn
  split
  · next task hworker =>
    have hw : OpeningKept { w with worker := .idle } :=
      h.worker (fun task hw => by rw [hworker] at hw; cases hw) (fun task hw => by cases hw)
    have hqueue : (writeUf2PageComplete task w.disk).virtualDiskQueue =
        w.disk.virtualDiskQueue := by
      unfold writeUf2PageComplete
      split
      · split <;> rfl
      · rfl
    refine hw.congr (writeUf2PageComplete_uf2Info task w.disk) (congrArg (·.full) hqueue)
      (congrArg (·.task) hqueue) fun hreboot => ?_
    unfold writeUf2PageComplete
    split
    · split
      · rfl
      · exact hreboot
    · exact hreboot
  · next task hworker =>
    have hw : OpeningKept { w with worker := .idle } :=
      h.worker (fun task hw => by rw [hworker] at hw; cases hw) (fun task hw => by cases hw)
    exact hw.congr rfl rfl rfl id
  · exact h

theorem command (h : w.OpeningKept) (len : ℕ) (cmd : PicobootCmd) :
    (receiveCommand len cmd w).OpeningKept := by
  unfold receiveCommand
  dsimp only
  split
  · exact h.congr rfl rfl rfl fun _ => rfl
  · exact h.congr rfl rfl rfl id
  · exact h.congr rfl rfl rfl id
  · exact h.congr rfl rfl rfl id

theorem runCommand (h : w.OpeningKept) {task : AsyncTask} (hworker : w.worker = .tookCommand task) :
    (runTask env w).OpeningKept := by
  have hw : OpeningKept { w with
      worker := .ranCommand (executeCommandTask env task w.picoboot w.disk.toMachine).2 } :=
    h.worker (fun task hw => by rw [hworker] at hw; cases hw) (fun task hw => by cases hw)
  have hkeeps : (executeCommandTask env task w.picoboot w.disk.toMachine).1.interruptSide =
      w.disk.interruptSide := by
    unfold executeCommandTask
    dsimp only
    split
    · rfl
    · exact executeTask_keeps env task w.disk.toMachine
  simp only [Machine.interruptSide, Prod.mk.injEq] at hkeeps
  obtain ⟨hrebooting, -, htask, hfull⟩ := hkeeps
  rw [runTask, hworker]
  exact hw.congr rfl hfull htask hrebooting.trans

theorem runDisk (h : w.OpeningKept) (hkeeps : w.KeepsOpening env .run) {task : AsyncTask}
    (hworker : w.worker = .tookDisk task) : (runTask env w).OpeningKept := by
  have hside := executeVirtualDiskTask_interruptSide env task w.disk
  simp only [Machine.interruptSide, Prod.mk.injEq] at hside
  obtain ⟨hrebooting, -, htask, hfull⟩ := hside
  have hinfo := executeVirtualDiskTask_uf2Info env task w.disk
  have hplain := h.plainTaken task hworker
  have hrun : runTask env w = { w with
      disk := (executeVirtualDiskTask env task w.disk).1
      worker := .ranDisk (executeVirtualDiskTask env task w.disk).2
      calls := (runTask env w).calls } := by
    rw [runTask, hworker]
  have hcalls : (runTask env w).calls =
      if !w.disk.virtualDiskQueue.disable && w.workerTag.flash then
        w.calls ++ (flashCalls env task w.disk.toMachine).map (w.workerTag.transfer, ·)
      else w.calls := by
    rw [runTask, hworker]
  have hmono {n : ℕ} (hdone : w.Exited n) : (n, .exitXip 0) ∈ (runTask env w).calls := by
    rw [hcalls]
    split
    · exact List.mem_append_left _ hdone
    · exact hdone
  -- the first task has left XIP mode, if more blocks may follow
  have hexits {n : ℕ} (htaken : w.OpeningTaken n) (hgoes : w.GoesOn n) :
      (n, .exitXip 0) ∈ (runTask env w).calls ∨ w.disk.rebooting = true := by
    rcases hkeeps n htaken hgoes with hreboot | ⟨hdisable, hok⟩
    · exact .inr hreboot
    · cases hreboot : w.disk.rebooting with
      | true => exact .inr rfl
      | false =>
        left
        obtain ⟨task', hworker', hexit, htag⟩ := htaken
        rw [hworker] at hworker'
        obtain rfl := Worker.tookDisk.inj hworker'
        rw [hcalls, hdisable, htag]
        change _ ∈ w.calls ++ (flashCalls env task w.disk.toMachine).map (n, ·)
        rw [List.mem_append, List.mem_map]
        refine .inr ⟨.exitXip 0, ?_, rfl⟩
        rw [flashCalls, hreboot, if_neg Bool.false_ne_true, exitXipCall_of_plain env hplain hexit,
          hok]
        simp
  generalize (runTask env w).calls = calls at hrun hcalls hmono hexits
  rw [hrun]
  exact {
    calls := by
      dsimp only
      rw [hcalls]
      split
      · next hruns =>
        rw [Bool.and_eq_true] at hruns
        refine h.calls.append fun pre c post heq hc => ?_
        rcases h.taken task hworker hruns.2 with hdone | hexit | hreboot
        · exact .inl hdone
        · exact .inr (flashCalls_exit_before env hplain hexit heq hc)
        · rw [flashCalls, if_pos hreboot] at heq
          cases pre <;> cases heq
      · exact h.calls
    active := fun hactive hflash => by
      dsimp only at hactive hflash
      rw [hinfo] at hactive hflash
      rcases h.active hactive hflash with hdone | hw | htaken | hreboot
      · exact .inl (hmono hdone)
      · refine .inr (.inl ⟨?_, hfull.trans hw.2.1, ?_, hw.2.2.2⟩)
        · dsimp only
          rwa [hinfo]
        · dsimp only
          rw [htask]
          exact hw.2.2.1
      · exact (hexits htaken (.inl ⟨hactive, rfl⟩)).imp id
          fun hreboot => .inr (.inr (hrebooting.trans hreboot))
      · exact .inr (.inr (.inr (hrebooting.trans hreboot)))
    queued := fun hf hflash => by
      dsimp only at hf ⊢
      rw [hfull] at hf
      rw [htask]
      have hgoes : w.GoesOn w.queuedTag.transfer := .inr ⟨hf, by rw [← hflash]⟩
      rcases h.queued hf hflash with hdone | hexit | htaken | hreboot
      · exact .inl (hmono hdone)
      · exact .inr (.inl hexit)
      · exact (hexits htaken hgoes).imp id
          fun hreboot => .inr (.inr (hrebooting.trans hreboot))
      · exact .inr (.inr (.inr (hrebooting.trans hreboot)))
    taken := fun task' hw => by cases hw
    plainQueued := fun hf => by
      dsimp only at hf ⊢
      rw [hfull] at hf
      rw [htask]
      exact h.plainQueued hf
    plainTaken := fun task' hw => by cases hw }

theorem picobootReset (h : w.OpeningKept) (hkeeps : w.KeepsOpening env .picobootReset) :
    (workerStep env w .picobootReset).OpeningKept where
  calls := h.calls
  active hactive hflash := (h.active hactive hflash).imp_right
    (.imp_left fun hw => absurd hw hkeeps)
  queued hf := by cases hf
  taken := h.taken
  plainQueued hf := by cases hf
  plainTaken := h.plainTaken

theorem mscReset (h : w.OpeningKept) : (workerStep env w .mscReset).OpeningKept where
  calls := h.calls
  active hactive := absurd rfl hactive
  queued := h.queued
  taken := h.taken
  plainQueued := h.plainQueued
  plainTaken := h.plainTaken

theorem step (h : w.OpeningKept) (e : WorkerEvent) (hkeeps : w.KeepsOpening env e) :
    (workerStep env w e).OpeningKept := by
  cases e with
  | sector uf2 token => exact h.sector hkeeps
  | command len cmd => exact h.command len cmd
  | chunk chunkLen => exact h.congr rfl rfl rfl id
  | take => exact h.take
  | run =>
    cases hworker : w.worker with
    | tookDisk task => exact h.runDisk hkeeps hworker
    | tookCommand task => exact h.runCommand hworker
    | idle =>
      rw [workerStep, runTask, hworker]
      exact h
    | ranDisk task =>
      rw [workerStep, runTask, hworker]
      exact h
    | ranCommand task =>
      rw [workerStep, runTask, hworker]
      exact h
  | complete => exact h.complete
  | mscReset => exact h.mscReset
  | picobootReset => exact h.picobootReset hkeeps

end OpeningKept

end WorkerWorld

/-- In every run whose steps keep the first task of each flash transfer, each erase and each
program of a transfer comes after a task of the same transfer has left XIP mode. -/
theorem exited_before_flash (env : Env) (d : VirtualDisk) (p : Picoboot) (es : List WorkerEvent)
    (hidle : d.uf2Info.numBlocks = 0) (hempty : d.virtualDiskQueue.full = false)
    (hkeeps : Run.Always (workerStep env) (fun w e => w.KeepsOpening env e)
      { disk := d, picoboot := p } es) :
    ExitedBefore (Run.after (workerStep env) { disk := d, picoboot := p } es).calls := by
  have hstart : WorkerWorld.OpeningKept { disk := d, picoboot := p } :=
    { calls := by
        intro pre n c post heq
        cases pre <;> cases heq
      active := fun hactive => absurd hidle hactive
      queued := fun hfull => absurd hfull (Bool.eq_false_iff.1 hempty)
      taken := fun task hworker => by cases hworker
      plainQueued := fun hfull => absurd hfull (Bool.eq_false_iff.1 hempty)
      plainTaken := fun task hworker => by cases hworker }
  exact (hkeeps.invariant (fun w e hcond h => h.step e hcond) hstart).calls

/-- The block `blockNo` of a flash image of two pages. -/
def flashBlock (blockNo : Word) : Uf2Block :=
  uf2Block 2 blockNo (xipMainBase + 256 * blockNo) fun _ => 0

/-- A turn of the worker. -/
def turn : List WorkerEvent := [.take, .run, .complete]

/-- `exited_before_flash`, for the first block of an image. -/
theorem exited_before_flash_one :
    ExitedBefore (Run.after (workerStep bareEnv) { disk := powerOn, picoboot := {} }
      (.sector (flashBlock 0) 1 :: turn)).calls :=
  exited_before_flash bareEnv powerOn {} _ rfl rfl
    ⟨fun hwaits => absurd rfl hwaits.1, trivial,
      fun _ _ _ => .inr ⟨by decide +kernel, by decide +kernel⟩, trivial, trivial⟩

/-- The first block of an image is queued just before exclusive access is granted, and the second
one arrives after it was given back. -/
def refusedOpening : List WorkerEvent :=
  [.command sizeofPicobootCmd (plainCommand 1 1 1), .take, .sector (flashBlock 0) 1, .run,
      .complete] ++ turn ++
    .command sizeofPicobootCmd (plainCommand 1 1 0) :: turn ++ .sector (flashBlock 1) 2 :: turn

/-- Then the second block is programmed although XIP mode was never left. -/
theorem programmed_in_xip_mode :
    (Run.after (workerStep bareEnv) { disk := powerOn, picoboot := {} } refusedOpening).calls =
        [(1, .pageProgram (xipMainBase + 256))] ∧
      ¬ExitedBefore (Run.after (workerStep bareEnv) { disk := powerOn, picoboot := {} }
        refusedOpening).calls := by
  have hcalls : (Run.after (workerStep bareEnv) { disk := powerOn, picoboot := {} }
      refusedOpening).calls = [(1, .pageProgram (xipMainBase + 256))] := by
    decide +kernel
  refine ⟨hcalls, fun h => ?_⟩
  rw [hcalls] at h
  have hmem := h [] 1 _ [] rfl rfl
  cases hmem

end PicoBootrom
