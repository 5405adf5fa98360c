import PicoBootrom.FlashTable

/-!
# The alignment of the table of flash functions

The CPU loads words from multiples of 4 only. `AT_VECTORIZE_FLASH` refuses odd addresses, so the
table may be put at an address that is 2 modulo 4, and the next function that is loaded through
`flash_funcs` faults (`unaligned_table_used`).

`executeTaskLoads` has the functions that a task loads, each with the value of `flash_funcs` it was
loaded through. As long as no accepted task puts the table at such an address, these are multiples
of 4 throughout a run (`flash_funcs_aligned`).
-/

namespace PicoBootrom

/-! ## The functions that a task loads -/

/-- The functions of `struct flash_funcs`. -/
inductive FlashFunc
  | enterCmdXip
  | exitXip
  | eraseSector
  | eraseRange
  | pageProgram
  | pageRead
  deriving DecidableEq, Repr

/-- Functions loaded through `flash_funcs`. -/
abbrev FlashFuncsLoads := List (FlashFunc × FlashFuncsPtr)

/-- The functions are loaded in the given state, if the condition holds. -/
def Machine.loadsIf (m : Machine) (cond : Bool) (funcs : List FlashFunc) : FlashFuncsLoads :=
  if cond then funcs.map fun f => (f, m.flashFuncs) else []

/-- The loads of two stages, if the first one does not return. -/
def TaskStep.thenLoads (f : TaskStep) (lf lg : Machine → FlashFuncsLoads) (m : Machine) :
    FlashFuncsLoads :=
  lf m ++ if (f m).2 = 0 then lg (f m).1 else []

/-- The checks before `do_flash_erase_range`. -/
def AsyncTask.erases (task : AsyncTask) : Bool :=
  task.has atFlashErase && task.eraseAddr &&& (flashSectorEraseSize - 1) == 0 &&
    task.eraseSize &&& (flashSectorEraseSize - 1) == 0 &&
    isAddressFlash task.eraseAddr && isAddressFlash (task.eraseAddr + task.eraseSize)

/-- The loads of `if (type & AT_FLASH_ERASE)`. The loop of `_do_flash_erase_range` loads
`do_flash_erase_sector` in each of its turns. -/
def flashEraseLoads (task : AsyncTask) (m : Machine) : FlashFuncsLoads :=
  m.loadsIf task.erases (.eraseRange ::
    if task.eraseAddr < task.eraseAddr + task.eraseSize then [.eraseSector] else [])

/-- The loads of `if (type & (AT_WRITE | AT_READ))`. -/
def transferLoads (env : Env) (task : AsyncTask) : Machine → FlashFuncsLoads := fun m =>
  if task.has (atWrite ||| atRead) then
    ((executeAddressCheck task).thenLoads (fun _ => []) <|
      (executeWrite env task).thenLoads
        (fun m => m.loadsIf (task.has atWrite && !task.directAccess) [.pageProgram]) <|
      (executeRead env task).thenLoads
        (fun m => m.loadsIf (task.has atRead && !task.directAccess) [.pageRead])
        fun m => m.loadsIf (task.has atEnterCmdXip) [.enterCmdXip]) m
  else []

/-- The functions that `_execute_task` loads through `flash_funcs`, in order. -/
def executeTaskLoads (env : Env) (task : AsyncTask) : Machine → FlashFuncsLoads := fun m =>
  if m.rebooting then []
  else
    ((executeVectorizeFlash env task).thenLoads (fun _ => []) <|
      (executeExclusive task).thenLoads (fun _ => []) <|
      (executeExitXip env task).thenLoads (fun m => m.loadsIf (task.has atExitXip) [.exitXip]) <|
      (executeExec env task).thenLoads (fun _ => []) <|
      (executeMutationSource task).thenLoads (fun _ => []) <|
      (executeFlashErase env task).thenLoads (flashEraseLoads task) <| transferLoads env task) m

/-! ## Alignment -/

/-- `flash_funcs` is a multiple of 4. `default_flash_funcs` is, as any table of words. -/
def FlashFuncsPtr.Aligned : FlashFuncsPtr → Prop
  | .rom => True
  | .ram addr => addr.toNat % 4 = 0

/-- From an aligned table, the functions are loaded through it. -/
def LoadsAligned (l : Machine → FlashFuncsLoads) : Prop :=
  ∀ m, m.flashFuncs.Aligned → ∀ load ∈ l m, load.2.Aligned

/-- The stage leaves an aligned table aligned. -/
def TaskStep.KeepsAligned (s : TaskStep) : Prop :=
  ∀ m, m.flashFuncs.Aligned → (s m).1.flashFuncs.Aligned

section Stages

variable {env : Env} {task : AsyncTask} {m : Machine} {s s' : TaskStep}
  {l l' : Machine → FlashFuncsLoads}

theorem LoadsAligned.nil : LoadsAligned fun _ => [] := by
  intro m _ load hload
  cases hload

theorem LoadsAligned.loadsIf (cond : Bool) (funcs : List FlashFunc) :
    LoadsAligned fun m => m.loadsIf cond funcs := by
  intro m hm load hload
  unfold Machine.loadsIf at hload
  split at hload
  · obtain ⟨f, -, rfl⟩ := List.mem_map.1 hload
    exact hm
  · cases hload

theorem LoadsAligned.then (hl : LoadsAligned l) (hs : s.KeepsAligned) (hl' : LoadsAligned l') :
    LoadsAligned (s.thenLoads l l') := by
  intro m hm load hload
  rcases List.mem_append.1 hload with hfirst | hrest
  · exact hl m hm load hfirst
  · split at hrest
    · exact hl' _ (hs m hm) load hrest
    · cases hrest

theorem TaskStep.KeepsAligned.of_keeps (h : s.Keeps fun m => (m.mem, m.flashFuncs)) :
    s.KeepsAligned := by
  intro m hm
  obtain ⟨-, hfuncs⟩ := Prod.mk.inj (h m)
  rw [hfuncs]
  exact hm

theorem TaskStep.KeepsAligned.andThen (hs : s.KeepsAligned) (hs' : s'.KeepsAligned) :
    (s.andThen s').KeepsAligned := by
  intro m hm
  unfold TaskStep.andThen
  dsimp only
  split
  · exact hs' _ (hs m hm)
  · exact hs m hm

theorem executeExclusive_keepsAligned : (executeExclusive task).KeepsAligned :=
  .of_keeps executeExclusive_keepsMem

theorem executeExitXip_keepsAligned : (executeExitXip env task).KeepsAligned :=
  .of_keeps executeExitXip_keepsMem

theorem executeExec_keepsAligned : (executeExec env task).KeepsAligned := by
  intro m hm
  unfold executeExec
  split
  · exact hm
  · exact hm

theorem executeMutationSource_keepsAligned : (executeMutationSource task).KeepsAligned :=
  .of_keeps executeMutationSource_keepsMem

theorem executeFlashErase_keepsAligned : (executeFlashErase env task).KeepsAligned :=
  .of_keeps executeFlashErase_keepsMem

theorem executeAddressCheck_keepsAligned : (executeAddressCheck task).KeepsAligned :=
  .of_keeps executeAddressCheck_keepsMem

/-- A write may point `flash_funcs` back to the ROM. -/
theorem executeWrite_keepsAligned : (executeWrite env task).KeepsAligned := by
  intro m hm
  have hrevert : (m.revertFlashFuncs task).flashFuncs.Aligned := by
    unfold Machine.revertFlashFuncs
    split
    · exact hm
    · split
      · trivial
      · exact hm
  unfold executeWrite
  split
  · split
    · exact hrevert
    · exact hm
  · exact hm

theorem executeRead_keepsAligned : (executeRead env task).KeepsAligned :=
  .of_keeps executeRead_keepsMem

theorem executeEnterCmdXip_keepsAligned : (executeEnterCmdXip env task).KeepsAligned :=
  .of_keeps executeEnterCmdXip_keepsMem

theorem executeTransfer_keepsAligned : (executeTransfer env task).KeepsAligned := by
  intro m hm
  unfold executeTransfer
  split
  · exact (executeAddressCheck_keepsAligned.andThen <| executeWrite_keepsAligned.andThen <|
      executeRead_keepsAligned.andThen executeEnterCmdXip_keepsAligned) m hm
  · exact hm

theorem transferLoads_aligned : LoadsAligned (transferLoads env task) := by
  intro m hm load hload
  unfold transferLoads at hload
  split at hload
  · exact (LoadsAligned.nil.then executeAddressCheck_keepsAligned <|
      (LoadsAligned.loadsIf _ _).then executeWrite_keepsAligned <|
      (LoadsAligned.loadsIf _ _).then executeRead_keepsAligned <| .loadsIf _ _) m hm load hload
  · cases hload

/-- The table is aligned where a task puts it. -/
def InstallsAligned (task : AsyncTask) (m : Machine) : Prop :=
  installsTable task m = true → task.transferAddr.toNat % 4 = 0

theorem executeVectorizeFlash_aligned (hrebooting : m.rebooting = false)
    (hm : m.flashFuncs.Aligned) (hinstalls : InstallsAligned task m) :
    (executeVectorizeFlash env task m).1.flashFuncs.Aligned := by
  unfold executeVectorizeFlash
  by_cases hvectorize : task.has atVectorizeFlash = true
  · rw [if_pos hvectorize]
    by_cases hodd : task.transferAddr &&& 1 ≠ 0
    · rw [if_pos hodd]
      exact hm
    · rw [if_neg hodd]
      split
      · next hsafe =>
        have heven : (task.transferAddr &&& 1 == 0) = true := beq_iff_eq.2 (not_not.1 hodd)
        refine hinstalls ?_
        rw [installsTable, hrebooting, hvectorize, heven, Bool.and_assoc, hsafe]
        rfl
      · exact hm
  · rw [if_neg hvectorize]
    exact hm

/-- What a task loads, and the table it leaves. -/
theorem executeTask_aligned (hm : m.flashFuncs.Aligned) (hinstalls : InstallsAligned task m) :
    (executeTask env task m).1.flashFuncs.Aligned ∧
      ∀ load ∈ executeTaskLoads env task m, load.2.Aligned := by
  have hrest : LoadsAligned ((executeExclusive task).thenLoads (fun _ => []) <|
      (executeExitXip env task).thenLoads (fun m => m.loadsIf (task.has atExitXip) [.exitXip]) <|
      (executeExec env task).thenLoads (fun _ => []) <|
      (executeMutationSource task).thenLoads (fun _ => []) <|
      (executeFlashErase env task).thenLoads (flashEraseLoads task) <| transferLoads env task) :=
    LoadsAligned.nil.then executeExclusive_keepsAligned <|
    (LoadsAligned.loadsIf _ _).then executeExitXip_keepsAligned <|
    LoadsAligned.nil.then executeExec_keepsAligned <|
    LoadsAligned.nil.then executeMutationSource_keepsAligned <|
    (LoadsAligned.loadsIf _ _).then executeFlashErase_keepsAligned transferLoads_aligned
  have hkeeps : ((executeExclusive task).andThen <| (executeExitXip env task).andThen <|
      (executeExec env task).andThen <| (executeMutationSource task).andThen <|
      (executeFlashErase env task).andThen <| executeTransfer env task).KeepsAligned :=
    executeExclusive_keepsAligned.andThen <| executeExitXip_keepsAligned.andThen <|
    executeExec_keepsAligned.andThen <| executeMutationSource_keepsAligned.andThen <|
    executeFlashErase_keepsAligned.andThen executeTransfer_keepsAligned
  unfold executeTask executeTaskLoads
  cases hrebooting : m.rebooting with
  | true => exact ⟨hm, fun load hload => by cases hload⟩
  | false =>
    have hfirst : (executeVectorizeFlash env task m).1.flashFuncs.Aligned :=
      executeVectorizeFlash_aligned hrebooting hm hinstalls
    rw [if_neg Bool.false_ne_true, if_neg Bool.false_ne_true]
    refine ⟨?_, fun load hload => ?_⟩
    · rw [TaskStep.andThen]
      split
      · exact hkeeps _ hfirst
      · exact hfirst
    · rw [TaskStep.thenLoads, List.nil_append] at hload
      split at hload
      · exact hrest _ hfirst load hload
      · cases hload

end Stages

/-! ## Runs -/

/-- A task is executed, or anything but `flash_funcs` changes between two tasks. -/
inductive TaskEvent
  | execute (task : AsyncTask)
  | change (m : Machine)

/-- One event. -/
def taskStep (env : Env) (m : Machine) : TaskEvent → Machine
  | .execute task => (executeTask env task m).1
  | .change m' => { m' with flashFuncs := m.flashFuncs }

/-- The table is aligned where the task of an event puts it. -/
def TaskEvent.PutsAligned (m : Machine) : TaskEvent → Prop
  | .execute task => InstallsAligned task m
  | .change _ => True

/-- The functions that an event loads are loaded from an aligned table. -/
def TaskEvent.UsesAligned (env : Env) (m : Machine) : TaskEvent → Prop
  | .execute task => ∀ load ∈ executeTaskLoads env task m, load.2.Aligned
  | .change _ => True

/-- In every run from the table in ROM whose accepted `AT_VECTORIZE_FLASH` tasks have an address
that is a multiple of 4, every function is loaded through a `flash_funcs` that is one. -/
theorem flash_funcs_aligned (env : Env) {m : Machine} {es : List TaskEvent}
    (hrom : m.flashFuncs = .rom)
    (hes : Run.Always (taskStep env) TaskEvent.PutsAligned m es) :
    Run.Always (taskStep env) (TaskEvent.UsesAligned env) m es := by
  refine Run.Always.imp (I := fun m => m.flashFuncs.Aligned) ?_ ?_ hes ?_
  · intro m e hputs hm
    cases e with
    | execute task => exact (executeTask_aligned hm hputs).1
    | change m' => exact hm
  · intro m e hputs hm
    cases e with
    | execute task => exact (executeTask_aligned hm hputs).2
    | change m' => trivial
  · rw [hrom]
    trivial

/-- A task of `PC_EXIT_XIP`. -/
def exitXipTask : AsyncTask where
  type := atExitXip

/-- `flash_funcs_aligned`, for a table at `0x20001000`. -/
theorem flash_funcs_aligned_page :
    Run.Always (taskStep bareEnv) (TaskEvent.UsesAligned bareEnv) powerOn.toMachine
      [.execute (vectorizeTask 0x20001000), .execute exitXipTask] := by
  refine flash_funcs_aligned bareEnv rfl ⟨fun _ => rfl, fun hinstalls => ?_, trivial⟩
  rw [installsTable, show exitXipTask.has atVectorizeFlash = false by decide, Bool.and_false,
    Bool.false_and, Bool.false_and, Bool.false_and] at hinstalls
  cases hinstalls

/-- A table at `0x20001002` is accepted, and `PC_EXIT_XIP` loads its function through it. -/
theorem unaligned_table_used :
    ((executeTask bareEnv (vectorizeTask 0x20001002) powerOn.toMachine).2 = 0 ∧
      executeTaskLoads bareEnv exitXipTask
        (executeTask bareEnv (vectorizeTask 0x20001002) powerOn.toMachine).1 =
          [(.exitXip, .ram 0x20001002)]) ∧
    ¬Run.Always (taskStep bareEnv) (TaskEvent.UsesAligned bareEnv) powerOn.toMachine
      [.execute (vectorizeTask 0x20001002), .execute exitXipTask] := by
  have hloads : executeTaskLoads bareEnv exitXipTask
      (executeTask bareEnv (vectorizeTask 0x20001002) powerOn.toMachine).1 =
        [(.exitXip, .ram 0x20001002)] := by
    decide +kernel
  refine ⟨⟨by decide +kernel, hloads⟩, fun hall => ?_⟩
  have huses := hall.2.1 (.exitXip, .ram 0x20001002) (hloads ▸ List.mem_cons_self)
  have hmultiple : (0x20001002 : Word).toNat % 4 = 0 := huses
  exact absurd hmultiple (by decide)

end PicoBootrom
