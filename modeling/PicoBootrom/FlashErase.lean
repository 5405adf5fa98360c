import PicoBootrom.PicobootAct

/-!
# Erasing a range of flash

`PC_FLASH_ERASE` names a range of sectors, and its task is to erase each of them once, the lowest
first, and nothing else. `_do_flash_erase_range` goes on from sector to sector until one of them
fails, so the sectors that were tried are the first ones of the range (`EraseOutcome`) : none of a
range that is rejected, and all of them, each without an error, if the result is `PICOBOOT_OK`.

The end of the range is computed modulo `2 ^ 32`, both where the range is checked and where it is
erased. A range that wraps around the address space and ends in the flash window again passes the
check, and the loop finds nothing to erase.
-/

namespace PicoBootrom

/-! ## Sectors of a range -/

/-- The first `n` sectors from `addr` on. -/
def sectorsFrom (addr : Word) (n : ℕ) : List Word :=
  (List.range n).map fun i => addr + BitVec.ofNat 32 (4096 * i)

/-- The chip after each of the sectors was erased, in this order. -/
def eraseEach (eraseSector : Word → FlashDevice → FlashDevice × Word) (sectors : List Word)
    (d : FlashDevice) : FlashDevice :=
  sectors.foldl (fun d addr => (eraseSector addr d).1) d

/-- The results of the erases of the sectors, in this order. -/
def eraseResults (eraseSector : Word → FlashDevice → FlashDevice × Word) :
    List Word → FlashDevice → List Word
  | [], _ => []
  | addr :: sectors, d =>
    (eraseSector addr d).2 :: eraseResults eraseSector sectors (eraseSector addr d).1

/-- The chip and the result of an erase of `n` sectors from `addr` on, of which the first `k` were
erased, each of them once, and nothing else. -/
structure ErasedFirst (eraseSector : Word → FlashDevice → FlashDevice × Word) (n : ℕ) (addr : Word)
    (d : FlashDevice) (r : FlashDevice × Word) (k : ℕ) : Prop where
  le : k ≤ n
  device : r.1 = eraseEach eraseSector (sectorsFrom addr k) d
  /-- Every erase but the last one ended without an error. -/
  before : ∀ result ∈ (eraseResults eraseSector (sectorsFrom addr k) d).dropLast,
    result = picobootOk
  /-- `PICOBOOT_OK` says that all sectors were erased, each of them without an error. -/
  ok : r.2 = picobootOk → k = n ∧
    ∀ result ∈ eraseResults eraseSector (sectorsFrom addr k) d, result = picobootOk
  /-- An error is the one of the last sector that was tried. -/
  failed : r.2 ≠ picobootOk →
    (eraseResults eraseSector (sectorsFrom addr k) d).getLast? = some r.2

/-- The chip and the result of an erase of `size` bytes at `addr` : the erase is refused with an
error and no sector is erased, or the range is accepted and its first sectors are erased. -/
def EraseOutcome (eraseSector : Word → FlashDevice → FlashDevice × Word) (addr size : Word)
    (d : FlashDevice) (r : FlashDevice × Word) : Prop :=
  r.1 = d ∧ r.2 ≠ picobootOk ∨
    EraseAccepted addr size ∧ ∃ k, ErasedFirst eraseSector (size.toNat / 4096) addr d r k

section Sectors

variable {eraseSector : Word → FlashDevice → FlashDevice × Word}

theorem sectorsFrom_succ (addr : Word) (n : ℕ) :
    sectorsFrom addr (n + 1) = addr :: sectorsFrom (addr + flashSectorEraseSize) n := by
  have hnext (i : ℕ) : addr + BitVec.ofNat 32 (4096 * (i + 1)) =
      addr + flashSectorEraseSize + BitVec.ofNat 32 (4096 * i) := by
    rw [BitVec.add_assoc, Nat.mul_succ, Nat.add_comm, BitVec.ofNat_add]
    rfl
  have hfirst : addr + BitVec.ofNat 32 (4096 * 0) = addr := BitVec.add_zero addr
  rw [sectorsFrom, List.range_succ_eq_map, List.map_cons, List.map_map, hfirst]
  exact congrArg (addr :: ·) (List.map_congr_left fun i _ => hnext i)

/-- The addresses of the sectors of a range that ends in the address space. -/
theorem mem_sectorsFrom {addr : Word} {n : ℕ} (h : addr.toNat + 4096 * n < 2 ^ 32) {a : Word} :
    a ∈ sectorsFrom addr n ↔ ∃ i < n, a.toNat = addr.toNat + 4096 * i := by
  have htoNat {i : ℕ} (hi : i < n) :
      (addr + BitVec.ofNat 32 (4096 * i)).toNat = addr.toNat + 4096 * i := by
    rw [BitVec.toNat_add, BitVec.toNat_ofNat, Nat.mod_eq_of_lt (show 4096 * i < 2 ^ 32 by omega),
      Nat.mod_eq_of_lt (by omega)]
  simp only [sectorsFrom, List.mem_map, List.mem_range]
  constructor
  · rintro ⟨i, hi, rfl⟩
    exact ⟨i, hi, htoNat hi⟩
  · rintro ⟨i, hi, ha⟩
    exact ⟨i, hi, BitVec.eq_of_toNat_eq ((htoNat hi).trans ha.symm)⟩

@[simp] theorem length_sectorsFrom (addr : Word) (n : ℕ) : (sectorsFrom addr n).length = n := by
  rw [sectorsFrom, List.length_map, List.length_range]

/-- The chip notes each erase. -/
theorem ops_eraseEach (sectors : List Word) (d : FlashDevice) :
    (eraseEach doFlashEraseSector sectors d).ops = d.ops ++ sectors.map .eraseSector := by
  induction sectors generalizing d with
  | nil => exact (List.append_nil _).symm
  | cons addr sectors ih =>
    have hnext : (doFlashEraseSector addr d).1.ops = d.ops ++ [.eraseSector addr] := rfl
    rw [eraseEach, List.foldl_cons, ← eraseEach, ih, hnext, List.append_assoc]
    rfl

/-- A range that was erased without a single call is empty. -/
theorem not_eraseOutcome_of_same {addr size : Word} (hsize : 4096 ≤ size.toNat)
    (d : FlashDevice) : ¬EraseOutcome doFlashEraseSector addr size d (d, picobootOk) := by
  rintro (⟨-, hstatus⟩ | ⟨-, k, h⟩)
  · exact hstatus rfl
  have hlength := congrArg (·.ops.length) h.device
  dsimp only at hlength
  rw [ops_eraseEach, List.length_append, List.length_map, length_sectorsFrom] at hlength
  have hk := (h.ok rfl).1
  omega

/-- The loop goes on after a sector without an error. -/
theorem ErasedFirst.next {n k : ℕ} {addr : Word} {d : FlashDevice} {r : FlashDevice × Word}
    (hok : (eraseSector addr d).2 = 0)
    (h : ErasedFirst eraseSector n (addr + flashSectorEraseSize) (eraseSector addr d).1 r k) :
    ErasedFirst eraseSector (n + 1) addr d r (k + 1) := by
  have hresults : eraseResults eraseSector (sectorsFrom addr (k + 1)) d =
      0 :: eraseResults eraseSector (sectorsFrom (addr + flashSectorEraseSize) k)
        (eraseSector addr d).1 := by
    rw [sectorsFrom_succ, eraseResults, hok]
  refine ⟨Nat.succ_le_succ h.le, ?_, ?_, ?_, ?_⟩
  · rw [h.device, sectorsFrom_succ]
    rfl
  · rw [hresults]
    intro result hmem
    cases hrest : eraseResults eraseSector (sectorsFrom (addr + flashSectorEraseSize) k)
        (eraseSector addr d).1 with
    | nil =>
      rw [hrest] at hmem
      cases hmem
    | cons first rest =>
      rw [hrest, List.dropLast_cons_cons, List.mem_cons] at hmem
      rcases hmem with rfl | hmem
      · rfl
      · exact h.before result (hrest ▸ hmem)
  · intro hr
    obtain ⟨hk, hall⟩ := h.ok hr
    rw [hresults]
    exact ⟨congrArg (· + 1) hk, List.forall_mem_cons.2 ⟨rfl, hall⟩⟩
  · intro hr
    rw [hresults, List.getLast?_cons, h.failed hr]
    rfl

/-- The loop over a range that does not wrap around. -/
theorem eraseRangeLoop_outcome {stop : Word} (n : ℕ) {addr : Word}
    (h : addr.toNat + 4096 * n = stop.toNat) (d : FlashDevice) :
    ∃ k, ErasedFirst eraseSector n addr d (eraseRangeLoop eraseSector stop n addr d) k := by
  induction n generalizing addr d with
  | zero =>
    refine ⟨0, Nat.le_refl 0, rfl, fun _ hmem => ?_, fun _ => ⟨rfl, fun _ hmem => ?_⟩,
      fun hr => absurd rfl hr⟩
    · cases hmem
    · cases hmem
  | succ n ih =>
    have hstop := stop.isLt
    have hlt : addr < stop := by
      rw [BitVec.lt_def]
      omega
    have hnext : (addr + flashSectorEraseSize).toNat + 4096 * n = stop.toNat := by
      rw [BitVec.toNat_add, show flashSectorEraseSize.toNat = 4096 from rfl,
        Nat.mod_eq_of_lt (by omega)]
      omega
    rw [eraseRangeLoop, if_pos hlt]
    dsimp only
    by_cases hok : (eraseSector addr d).2 = 0
    · rw [if_pos hok]
      obtain ⟨k, hk⟩ := ih hnext (eraseSector addr d).1
      exact ⟨k + 1, hk.next hok⟩
    · -- the loop ends with the first error
      have hfirst : sectorsFrom addr 1 = [addr] := sectorsFrom_succ addr 0
      rw [if_neg hok]
      refine ⟨1, by omega, ?_, ?_, fun hr => absurd hr hok, fun _ => ?_⟩
      · rw [hfirst]
        rfl
      · rw [hfirst]
        intro result hmem
        cases hmem
      · rw [hfirst]
        rfl

theorem doFlashEraseRange_outcome {addr size : Word} (hacc : EraseAccepted addr size)
    (h : addr.toNat + size.toNat < 2 ^ 32) (d : FlashDevice) :
    EraseOutcome eraseSector addr size d (doFlashEraseRange eraseSector addr size d) := by
  have halign := hacc.2.1
  have hstop : (addr + size).toNat = addr.toNat + size.toNat := by
    rw [BitVec.toNat_add, Nat.mod_eq_of_lt h]
  have hturns : ((addr + size).toNat - addr.toNat + 4095) / 4096 = size.toNat / 4096 := by
    rw [hstop]
    omega
  rw [doFlashEraseRange, hturns]
  exact .inr ⟨hacc, eraseRangeLoop_outcome _ (by rw [hstop]; omega) d⟩

/-- A range that wraps around is taken for one that ends before it starts. -/
theorem doFlashEraseRange_of_wraps {addr size : Word} (h : 2 ^ 32 ≤ addr.toNat + size.toNat)
    (d : FlashDevice) : doFlashEraseRange eraseSector addr size d = (d, picobootOk) := by
  have haddr := addr.isLt
  have hsize := size.isLt
  have hstop : (addr + size).toNat < addr.toNat := by
    rw [BitVec.toNat_add]
    omega
  have hturns : ((addr + size).toNat - addr.toNat + 4095) / 4096 = 0 := by omega
  rw [doFlashEraseRange, hturns]
  rfl

end Sectors

/-! ## The task of `PC_FLASH_ERASE` -/

section Task

variable {cmd : PicobootCmd} {addr len : Word} {task : AsyncTask}

theorem executeFlashErase_eq (h : IsTaskOf cmd .flashErase addr len task) (env : Env)
    (m : Machine) :
    EraseAccepted cmd.dAddr cmd.dSize ∧ executeFlashErase env task m =
        m.onFlash ((m.funcs env).doFlashEraseRange cmd.dAddr cmd.dSize) ∨
      ¬EraseAccepted cmd.dAddr cmd.dSize ∧
        ∃ status ≠ picobootOk, executeFlashErase env task m = (m, status) := by
  have hcases := executeFlashErase_cases env task m
  rw [h.eraseAddr, h.eraseSize] at hcases
  rcases hcases with ⟨-, haccepted⟩ | ⟨-, hrejected⟩ | ⟨hno, -⟩
  · exact .inl haccepted
  · exact .inr hrejected
  · exact absurd (h.has (by decide)) (Bool.eq_false_iff.1 hno)

/-- The task erases what the flash functions erase for its range, or is rejected. -/
theorem executeTask_flashErase (h : IsTaskOf cmd .flashErase addr len task)
    (hcheck : task.checkLastMutationSource = false) (env : Env) (m : Machine) :
    m.rebooting = false ∧ EraseAccepted cmd.dAddr cmd.dSize ∧
        ((executeTask env task m).1.flash, (executeTask env task m).2) =
          (m.funcs env).doFlashEraseRange cmd.dAddr cmd.dSize m.flash ∨
      (m.rebooting = true ∨ ¬EraseAccepted cmd.dAddr cmd.dSize) ∧
        ∃ status ≠ picobootOk,
          ((executeTask env task m).1.flash, (executeTask env task m).2) = (m.flash, status) := by
  cases hrebooting : m.rebooting with
  | true =>
    refine .inr ⟨.inl rfl, picobootRebooting, by decide, ?_⟩
    rw [executeTask, if_pos hrebooting]
  | false =>
    have hsource : executeMutationSource task m =
        ({ m with lastMutationSource := task.source }, 0) := by
      rw [executeMutationSource, if_pos (h.has (by decide)), hcheck]
      rfl
    rw [executeTask_eq_stage env _ h.type hrebooting, PicobootAct.stage,
      TaskStep.andThen_of_ok hsource]
    rcases executeFlashErase_eq h env { m with lastMutationSource := task.source } with
      ⟨hacc, heq⟩ | ⟨hacc, status, hstatus, heq⟩
    · rw [heq]
      exact .inl ⟨rfl, hacc, rfl⟩
    · rw [heq]
      exact .inr ⟨.inr hacc, status, hstatus, rfl⟩

end Task

/-- The erase of `PC_FLASH_ERASE` ends as `EraseOutcome` says, whatever the single erases do and
return, if and only if the device reboots, or the range is rejected, or it does not wrap around the
address space. -/
theorem flash_erase_outcome_iff {p : Picoboot} {cmd : PicobootCmd}
    (hread : (p.readCommand sizeofPicobootCmd cmd).2 = .queueTask)
    (hact : cmd.act = some .flashErase) (m : Machine) :
    (∀ env, (m.funcs env).doFlashEraseRange =
          doFlashEraseRange (m.funcs env).doFlashEraseSector →
        EraseOutcome (m.funcs env).doFlashEraseSector cmd.dAddr cmd.dSize m.flash
          ((executeTask env (p.readCommand sizeofPicobootCmd cmd).1.queueCommandTask.queue.task
              m).1.flash,
            (executeTask env (p.readCommand sizeofPicobootCmd cmd).1.queueCommandTask.queue.task
              m).2)) ↔
      (m.rebooting = true ∨ ¬EraseAccepted cmd.dAddr cmd.dSize ∨
        cmd.dAddr.toNat + cmd.dSize.toNat < 2 ^ 32) := by
  have h := (Picoboot.Queues.single hread).isTaskOf hact
  have htask := executeTask_flashErase h (h.check rfl)
  constructor
  · intro hall
    rcases htask notingEnv m with ⟨hrebooting, hacc, heq⟩ | ⟨hreject, -⟩
    · right
      right
      by_contra hwraps
      have houtcome := hall notingEnv (by rw [funcs_notingEnv]; rfl)
      rw [heq, funcs_notingEnv] at houtcome
      change EraseOutcome doFlashEraseSector _ _ _
        (doFlashEraseRange doFlashEraseSector cmd.dAddr cmd.dSize m.flash) at houtcome
      rw [doFlashEraseRange_of_wraps (by omega)] at houtcome
      have haddr := cmd.dAddr.isLt
      have hsize := hacc.2.1
      exact not_eraseOutcome_of_same (by omega) _ houtcome
    · rcases hreject with hrebooting | hreject
      · exact .inl hrebooting
      · exact .inr (.inl hreject)
  · intro hcond env hrange
    rcases htask env m with ⟨hrebooting, hacc, heq⟩ | ⟨-, status, hstatus, heq⟩
    · rw [heq, hrange]
      refine doFlashEraseRange_outcome hacc ?_ m.flash
      rcases hcond with hcond | hcond | hcond
      · rw [hrebooting] at hcond
        cases hcond
      · exact absurd hacc hcond
      · exact hcond
    · rw [heq]
      exact .inl ⟨rfl, hstatus⟩

/-- A packet with a command on a range. -/
def rangeCommand (id : Byte) (addr size : Word) : PicobootCmd :=
  { plainCommand id 8 addr with arg1 := size }

/-- `flash_erase_outcome_iff`, for two sectors. -/
theorem flash_erase_outcome_iff_two_sectors :
    EraseAccepted 0x10001000 0x2000 ∧
      ∀ env, (powerOn.funcs env).doFlashEraseRange =
          doFlashEraseRange (powerOn.funcs env).doFlashEraseSector →
        EraseOutcome (powerOn.funcs env).doFlashEraseSector 0x10001000 0x2000 powerOn.flash
          ((executeTask env (Picoboot.readCommand 32 (rangeCommand 3 0x10001000 0x2000)
              {}).1.queueCommandTask.queue.task powerOn.toMachine).1.flash,
            (executeTask env (Picoboot.readCommand 32 (rangeCommand 3 0x10001000 0x2000)
              {}).1.queueCommandTask.queue.task powerOn.toMachine).2) :=
  ⟨by decide, (@flash_erase_outcome_iff {} (rangeCommand 3 0x10001000 0x2000) rfl rfl
    powerOn.toMachine).2 (.inr (.inr (by decide)))⟩

/-- An erase of almost the whole address space from the second sector of flash on is accepted, ends
with `PICOBOOT_OK` and erases nothing. -/
theorem wrapped_erase_does_nothing :
    (Picoboot.readCommand 32 (rangeCommand 3 0x10001000 0xfffff000) {}).2 = .queueTask ∧
      executeTask bareEnv (Picoboot.readCommand 32 (rangeCommand 3 0x10001000 0xfffff000)
          {}).1.queueCommandTask.queue.task powerOn.toMachine =
        ({ powerOn.toMachine with lastMutationSource := .picoboot }, 0) ∧
      ¬EraseOutcome defaultFlashFuncs.doFlashEraseSector 0x10001000 0xfffff000 powerOn.flash
        (powerOn.flash, 0) :=
  ⟨rfl, rfl, not_eraseOutcome_of_same (by decide) _⟩

end PicoBootrom
