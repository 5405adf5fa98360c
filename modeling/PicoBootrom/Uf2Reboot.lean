import PicoBootrom.Delivery

/-!
# Failing tasks and the reboot

The worker runs a task between the events of the interrupt side : sectors, resets and PICOBOOT
commands may come while it is queued and while it runs, and it may fail. `Uf2World` is the
disk with the task that runs. To say what has been written, each task carries the transfer and
the block it was queued for, and `written` lists the tasks that completed without error.

The tracking state counts a block when its task is queued, and nothing takes it back when the
task fails or is lost. So a reboot means that every block is written only in the runs where no
task of the active transfer fails (`UndisturbedStep`).
-/

namespace PicoBootrom

/-! ## The world of UF2 transfers -/

/-- A block of one of the transfers of a run. -/
structure PageTag where
  transfer : ℕ
  blockNo : ℕ
deriving DecidableEq

/-- The disk, the task the worker runs, and what the tasks were queued for. -/
structure Uf2World where
  disk : VirtualDisk
  /-- The task that was dequeued and has not completed. -/
  running : Option (AsyncTask × PageTag) := none
  /-- The number of transfers opened. -/
  transfer : ℕ := 0
  /-- What the latest task queued is for. -/
  queuedTag : PageTag := ⟨0, 0⟩
  /-- The tasks that completed with result 0. -/
  written : List PageTag := []

/-- What happens next. -/
inductive Uf2Event
  /-- A sector is given to `vd_write_block`. -/
  | sector (uf2 : Uf2Block) (token : Word)
  /-- The worker takes the task that is queued. -/
  | dequeue
  /-- The task that runs has come to an end on the machine `m`. -/
  | complete (result : Word) (m : Machine)
  /-- A PICOBOOT command or its task leaves the machine `m`. -/
  | picoboot (m : Machine)
  /-- The mass storage interface is reset. -/
  | mscReset
  /-- The queue is reset. -/
  | queueReset

/-- The disk on the machine `m`, its queue's slot as before. -/
def VirtualDisk.on (d : VirtualDisk) (m : Machine) : VirtualDisk :=
  { d with toMachine := { m with virtualDiskQueue := { m.virtualDiskQueue with
      task := d.virtualDiskQueue.task
      full := d.virtualDiskQueue.full } } }

/-- One event. -/
def uf2Step (w : Uf2World) : Uf2Event → Uf2World
  | .sector uf2 token =>
    let r := receiveSector uf2 token w.disk
    let transfer := if opensTransfer uf2 w.disk then w.transfer + 1 else w.transfer
    { w with
        disk := r.1
        transfer := transfer
        queuedTag := if r.2 then ⟨transfer, uf2.blockNo.toNat⟩ else w.queuedTag }
  | .dequeue =>
    match w.running, (dequeueTask w.disk.virtualDiskQueue).2 with
    | none, some task => { w with disk := w.disk.taken, running := some (task, w.queuedTag) }
    | _, _ => w
  | .complete result m =>
    match w.running with
    | none => w
    | some (task, tag) =>
      { w with
          disk := writeUf2PageComplete { task with result := result } (w.disk.on m)
          running := none
          written := if result = 0 then tag :: w.written else w.written }
  | .picoboot m => { w with disk := w.disk.on m }
  | .mscReset => { w with disk := vdReset w.disk }
  | .queueReset => { w with disk := { w.disk with
      virtualDiskQueue := resetQueue w.disk.virtualDiskQueue } }

/-- The turn of the worker on the disk `d`, as two events. -/
def workerTurn (env : Env) (d : VirtualDisk) : List Uf2Event :=
  let r := executeVirtualDiskTask env d.virtualDiskQueue.task d.taken
  [.dequeue, .complete r.2.result r.1.toMachine]

theorem uf2Step_dequeue_of_full {w : Uf2World} (hidle : w.running = none)
    (hfull : w.disk.virtualDiskQueue.full = true) : uf2Step w .dequeue = { w with
      disk := w.disk.taken, running := some (w.disk.virtualDiskQueue.task, w.queuedTag) } := by
  simp only [uf2Step, hidle, dequeueTask, if_pos hfull]

theorem uf2Step_dequeue_of_not_full {w : Uf2World} (hfull : w.disk.virtualDiskQueue.full = false) :
    uf2Step w .dequeue = w := by
  simp [uf2Step, dequeueTask, hfull]

theorem on_executeVirtualDiskTask (env : Env) (task : AsyncTask) (d : VirtualDisk) :
    d.on (executeVirtualDiskTask env task d).1.toMachine =
      (executeVirtualDiskTask env task d).1 := by
  unfold executeVirtualDiskTask
  split
  · rfl
  · have hkeeps := executeTask_keeps env task d.toMachine
    simp only [Machine.interruptSide, Prod.mk.injEq] at hkeeps
    obtain ⟨-, -, htask, hfull⟩ := hkeeps
    simp only [VirtualDisk.on, ← htask, ← hfull]

/-- A turn of the worker without an event in between is one of the runs. -/
theorem after_workerTurn (env : Env) {w : Uf2World} (hidle : w.running = none)
    (hfull : w.disk.virtualDiskQueue.full = true) :
    (Run.after uf2Step w (workerTurn env w.disk)).disk = work env w.disk := by
  have htask (task : AsyncTask) (d : VirtualDisk) :
      { task with result := (executeVirtualDiskTask env task d).2.result } =
        (executeVirtualDiskTask env task d).2 := by
    unfold executeVirtualDiskTask
    split <;> rfl
  rw [workerTurn, Run.after_cons, Run.after_cons, Run.after_nil,
    uf2Step_dequeue_of_full hidle hfull, work_of_full env hfull]
  simp only [uf2Step, on_executeVirtualDiskTask, htask]

/-! ## Runs without a disturbance -/

/-- The tag is of the transfer that is active. -/
def Uf2World.Active (w : Uf2World) (tag : PageTag) : Prop :=
  w.disk.uf2Info.numBlocks ≠ 0 ∧ tag.transfer = w.transfer

/-- The machine `m` has the marks of the blocks that the disk has. -/
def KeepsMarks (d : VirtualDisk) (m : Machine) : Prop :=
  ∀ b < d.uf2Info.numBlocks.toNat, d.testBitmap d.uf2Info.validBlocks b = true →
    (d.on m).testBitmap d.uf2Info.validBlocks b = true

/-- The step loses no task of the active transfer and none of its tasks fails, tokens in use
are not given again, and nothing else clears the marks of the blocks. -/
def UndisturbedStep (w : Uf2World) : Uf2Event → Prop
  | .sector uf2 token =>
    (∀ r ∈ w.running, r.1.token ≠ token) ∧
      (w.disk.virtualDiskQueue.full = true → w.Active w.queuedTag → uf2.forRp2040 = true →
        uf2.garbage = false → opens uf2 w.disk = true ∨
          w.disk.testBitmap w.disk.uf2Info.validBlocks uf2.blockNo.toNat = true)
  | .dequeue => True
  | .complete result m =>
    ∀ r ∈ w.running, (w.Active r.2 → result = 0) ∧ KeepsMarks w.disk m
  | .picoboot m => KeepsMarks w.disk m
  | .mscReset => True
  | .queueReset => w.disk.virtualDiskQueue.full = true → ¬w.Active w.queuedTag

/-- If the completion of a task reboots the device, a task of each block of the active
transfer has completed with result 0. -/
def RebootsWritten (w : Uf2World) : Uf2Event → Prop
  | .complete result m =>
    w.running.isSome = true → (uf2Step w (.complete result m)).disk.reboots ≠ m.reboots →
      ∀ b < w.disk.uf2Info.numBlocks.toNat,
        ⟨w.transfer, b⟩ ∈ (uf2Step w (.complete result m)).written
  | _ => True

/-! ## The invariant -/

/-- Each block queued is written, or its task is in the slot or runs. -/
def Uf2World.Accounted (w : Uf2World) (b : ℕ) : Prop :=
  ⟨w.transfer, b⟩ ∈ w.written ∨
    (w.disk.virtualDiskQueue.full = true ∧ w.queuedTag = ⟨w.transfer, b⟩) ∨
    ∃ task, w.running = some (task, ⟨w.transfer, b⟩)

/-- The tracking state is that of `t`, its blocks are accounted for, and a task that runs
while a later one of the transfer is queued does not have the latest token. -/
structure Uf2World.Tracked (w : Uf2World) (t : Option Transfer) : Prop where
  refines : Refines w.disk t
  accounted : ∀ t' ∈ t, ∀ b ∈ t'.numbers, w.Accounted b
  token : ∀ t' ∈ t, w.disk.virtualDiskQueue.full = true → w.queuedTag.transfer = w.transfer →
    ∀ r ∈ w.running, r.1.token ≠ w.disk.uf2Info.token
  le : w.queuedTag.transfer ≤ w.transfer

namespace Uf2World.Tracked

variable {w : Uf2World} {t : Option Transfer}

theorem active (h : w.Tracked t) {t' : Transfer} (ht : t' ∈ t) {tag : PageTag}
    (htag : tag.transfer = w.transfer) : w.Active tag := by
  cases ht
  have htracks : Tracks w.disk t' := h.refines
  exact ⟨htracks.ne_zero, htag⟩

/-- A machine that keeps the marks keeps the tracking state. -/
theorem refines_on (h : w.Tracked t) {m : Machine} (hkeeps : KeepsMarks w.disk m) :
    Refines (w.disk.on m) t := by
  cases t with
  | none => exact h.refines
  | some t =>
    have htracks : Tracks w.disk t := h.refines
    refine htracks.congr rfl fun b hb hmark => ?_
    rw [← htracks.validBlocks] at hmark ⊢
    refine hkeeps b ?_ hmark
    rw [htracks.numBlocks]
    exact t.lt b hb

theorem on (h : w.Tracked t) {m : Machine} (hkeeps : KeepsMarks w.disk m) :
    Tracked { w with disk := w.disk.on m } t where
  refines := h.refines_on hkeeps
  accounted := h.accounted
  token := h.token
  le := h.le

theorem mscReset (h : w.Tracked t) : Tracked { w with disk := vdReset w.disk } none where
  refines := rfl
  accounted := by rintro _ ⟨⟩
  token := by rintro _ ⟨⟩
  le := h.le

theorem queueReset (h : w.Tracked t)
    (hlost : w.disk.virtualDiskQueue.full = true → ¬w.Active w.queuedTag) :
    Tracked { w with disk := { w.disk with
      virtualDiskQueue := resetQueue w.disk.virtualDiskQueue } } t where
  refines := by
    cases t with
    | none => exact h.refines
    | some t =>
      exact Tracks.congr h.refines rfl fun b _ hb =>
        (VirtualDisk.testBitmap_congr rfl rfl _ _).trans hb
  accounted := by
    intro t' ht b hb
    rcases h.accounted t' ht b hb with hw | ⟨hfull, htag⟩ | hrun
    · exact .inl hw
    · exact absurd (h.active ht (by rw [htag])) (hlost hfull)
    · exact .inr (.inr hrun)
  token := by
    rintro _ _ ⟨⟩
  le := h.le

theorem dequeue (h : w.Tracked t) : Tracked (uf2Step w .dequeue) t := by
  cases hrun : w.running with
  | some r => simpa only [uf2Step, hrun] using h
  | none =>
  cases hfull : w.disk.virtualDiskQueue.full with
  | false => rwa [uf2Step_dequeue_of_not_full hfull]
  | true =>
    rw [uf2Step_dequeue_of_full hrun hfull]
    exact {
      refines := by
        cases t with
        | none => exact h.refines
        | some t =>
          exact Tracks.congr h.refines rfl fun b _ hb =>
            (VirtualDisk.testBitmap_congr rfl rfl _ _).trans hb
      accounted := by
        intro t' ht b hb
        rcases h.accounted t' ht b hb with hw | ⟨-, htag⟩ | ⟨task, hrun'⟩
        · exact .inl hw
        · exact .inr (.inr ⟨w.disk.virtualDiskQueue.task, by rw [htag]⟩)
        · rw [hrun] at hrun'
          cases hrun'
      token := by
        rintro _ _ ⟨⟩
      le := h.le }

/-- The completion of a task, up to its callback. -/
theorem complete (h : w.Tracked t) {task : AsyncTask} {tag : PageTag} {result : Word}
    {m : Machine} (hrun : w.running = some (task, tag)) (hok : w.Active tag → result = 0)
    (hkeeps : KeepsMarks w.disk m) : Tracked (uf2Step w (.complete result m)) t := by
  simp only [uf2Step, hrun]
  have hslot : (writeUf2PageComplete { task with result := result }
      (w.disk.on m)).virtualDiskQueue.full = w.disk.virtualDiskQueue.full := by
    unfold writeUf2PageComplete
    repeat' split
    all_goals rfl
  have hmem : (writeUf2PageComplete { task with result := result } (w.disk.on m)).mem =
      (w.disk.on m).mem := by
    unfold writeUf2PageComplete
    repeat' split
    all_goals rfl
  have hrefines := h.refines_on hkeeps
  exact {
    refines := by
      cases t with
      | none => simpa [Refines] using hrefines
      | some t =>
        exact Tracks.congr hrefines (by simp) fun b _ hb =>
          (VirtualDisk.testBitmap_congr hmem (by simp) _ _).trans hb
    accounted := by
      intro t' ht b hb
      have hin {tag' : PageTag} (hw : tag' ∈ w.written) :
          tag' ∈ if result = 0 then tag :: w.written else w.written := by
        split
        · exact List.mem_cons_of_mem _ hw
        · exact hw
      rcases h.accounted t' ht b hb with hw | ⟨hfull, htag⟩ | ⟨task', hrun'⟩
      · exact .inl (hin hw)
      · exact .inr (.inl ⟨hslot.trans hfull, htag⟩)
      · obtain ⟨-, rfl⟩ := Prod.mk.inj (Option.some.inj (hrun.symm.trans hrun'))
        have hresult := hok (h.active ht rfl)
        refine .inl ?_
        dsimp only
        rw [if_pos hresult]
        exact List.mem_cons_self
    token := by
      rintro _ _ _ _ _ ⟨⟩
    le := h.le }

section Sector

variable {uf2 : Uf2Block} {token : Word} {t' : Transfer}

/-- The transfer of an accepted block is a new one without blocks, or the one before. -/
theorem transfer_cases (h : w.Tracked t)
    (ha : uf2.Accepted w.disk.virtualDiskQueue.disable t t') :
    (opensTransfer uf2 w.disk = true ∧ opens uf2 w.disk = true ∧ t'.numbers = []) ∨
      (opensTransfer uf2 w.disk = false ∧ opens uf2 w.disk = false ∧ t = some t') := by
  have href : RefinesFor uf2.numBlocks w.disk t := h.refines.refinesFor _
  have heq : opensTransfer uf2 w.disk = opens uf2 w.disk := by
    simp [opensTransfer, ha.forRp2040, ha.notGarbage, ha.enabled]
  rw [heq]
  cases hopens : opens uf2 w.disk with
  | true =>
    have hstart := ha.transfer
    rw [transfer_of_opens href hopens] at hstart
    exact .inl ⟨rfl, rfl, by rw [Transfer.numbers, (Uf2Block.start_eq_some hstart).2.2]; rfl⟩
  | false =>
    have hpos := Uf2Block.numBlocks_ne_zero_of_not_garbage ha.notGarbage
    obtain ⟨t₀, rfl, htransfer⟩ := transfer_of_not_opens href hopens hpos
    exact .inr ⟨rfl, rfl, htransfer.symm.trans ha.transfer⟩

/-- A block that was queued before. -/
theorem duplicate (h : w.Tracked t) (htoken : ∀ r ∈ w.running, r.1.token ≠ token)
    (ha : uf2.Accepted w.disk.virtualDiskQueue.disable t t')
    (hcur : Tracks (current uf2 (w.disk.filled uf2)) t') :
    Tracked { w with
      disk := prepared uf2 token (opens uf2 w.disk) (current uf2 (w.disk.filled uf2))
      transfer := if opensTransfer uf2 w.disk then w.transfer + 1 else w.transfer } (some t') := by
  have hqueue : (prepared uf2 token (opens uf2 w.disk)
      (current uf2 (w.disk.filled uf2))).virtualDiskQueue = w.disk.virtualDiskQueue :=
    current_virtualDiskQueue uf2 (w.disk.filled uf2)
  have hle := h.le
  rcases h.transfer_cases ha with ⟨hopens, -, hnumbers⟩ | ⟨hopens, -, rfl⟩
  · rw [if_pos hopens]
    exact {
      refines := hcur.prepared token _
      accounted := by
        rintro _ ⟨⟩ b hb
        rw [hnumbers] at hb
        cases hb
      token := fun _ _ _ _ => htoken
      le := by
        dsimp only
        omega }
  · rw [if_neg (Bool.eq_false_iff.1 hopens)]
    exact {
      refines := hcur.prepared token _
      accounted := by
        intro t₀ ht b hb
        simpa only [Accounted, hqueue] using h.accounted t₀ ht b hb
      token := fun _ _ _ _ => htoken
      le := hle }

/-- A block that is queued, and does not overwrite a task of the active transfer. -/
theorem queued (h : w.Tracked t) (htoken : ∀ r ∈ w.running, r.1.token ≠ token)
    (ha : uf2.Accepted w.disk.virtualDiskQueue.disable t t')
    (hlost : w.disk.virtualDiskQueue.full = true → w.Active w.queuedTag →
      opens uf2 w.disk = true ∨
        w.disk.testBitmap w.disk.uf2Info.validBlocks uf2.blockNo.toNat = true)
    (hcur : Tracks (current uf2 (w.disk.filled uf2)) t')
    (hmark : (current uf2 (w.disk.filled uf2)).testBitmap (validBlocksPtr t'.ram)
      uf2.blockNo.toNat = false)
    (hnew : uf2.blockNo.toNat ∉ t'.numbers) :
    Tracked { w with
        disk := queueBlock uf2 token (opens uf2 w.disk) (current uf2 (w.disk.filled uf2))
        transfer := if opensTransfer uf2 w.disk then w.transfer + 1 else w.transfer
        queuedTag := ⟨if opensTransfer uf2 w.disk then w.transfer + 1 else w.transfer,
          uf2.blockNo.toNat⟩ }
      (some (t'.push uf2.blockNo.toNat uf2.targetAddr hnew ha.lt)) where
  refines := hcur.queueBlock token _ ha.ram hnew ha.lt
  accounted := by
    rintro _ ⟨⟩ b hb
    rcases List.mem_cons.1 hb with rfl | hb
    · exact .inr (.inl ⟨rfl, rfl⟩)
    have hold : b ∈ t'.numbers := hb
    rcases h.transfer_cases ha with ⟨-, -, hnumbers⟩ | ⟨hopens, hopens', rfl⟩
    · rw [hnumbers] at hold
      cases hold
    · rw [if_neg (Bool.eq_false_iff.1 hopens)]
      rcases h.accounted t' rfl b hold with hw | ⟨hfull, htag⟩ | hrun
      · exact .inl hw
      · -- the task in the slot would be lost
        have hmarked := hlost hfull (h.active rfl (by rw [htag]))
        have href : Tracks w.disk t' := h.refines
        have hcurrent : current uf2 (w.disk.filled uf2) = w.disk.filled uf2 :=
          if_neg (Bool.eq_false_iff.1 hopens')
        have hfilled (p : BitmapPtr) (i : ℕ) :
            (w.disk.filled uf2).testBitmap p i = w.disk.testBitmap p i :=
          VirtualDisk.testBitmap_congr rfl rfl p i
        rw [hopens', href.validBlocks, ← hfilled, ← hcurrent, hmark] at hmarked
        rcases hmarked with ⟨⟨⟩⟩ | ⟨⟨⟩⟩
      · exact .inr (.inr hrun)
  token := fun _ _ _ _ => htoken
  le := Nat.le_refl _

/-- A sector. -/
theorem sector (h : w.Tracked t) (hstep : UndisturbedStep w (.sector uf2 token)) :
    ∃ t', Tracked (uf2Step w (.sector uf2 token)) t' := by
  obtain ⟨htoken, hlost⟩ := hstep
  have hle : w.queuedTag.transfer ≤
      if opensTransfer uf2 w.disk then w.transfer + 1 else w.transfer := by
    have := h.le
    split <;> omega
  obtain ⟨t', hr⟩ := receiveSector_cases token
    ((h.refines.refinesFor uf2.numBlocks).filled uf2)
  simp only [uf2Step]
  generalize receiveSector uf2 token w.disk = r at hr
  cases hr with
  | ignored hno =>
    have hopens : opensTransfer uf2 w.disk = false := by
      rw [filled_sectorBuf] at hno
      simp [opensTransfer, hno]
    rw [hopens]
    refine ⟨t, ?_, h.accounted, h.token, h.le⟩
    cases t with
    | none => exact h.refines
    | some t =>
      exact Tracks.congr h.refines rfl fun b _ hb =>
        (VirtualDisk.testBitmap_congr rfl rfl _ _).trans hb
  | rejected hfor hna hinvalid hqueue =>
    exact ⟨none, hinvalid, by rintro _ ⟨⟩, by rintro _ ⟨⟩, hle⟩
  | @duplicate t' ha hcur hmark => exact ⟨some t', h.duplicate htoken ha hcur⟩
  | @queued t' ha hcur hmark hnew =>
    exact ⟨_, h.queued htoken ha (fun hfull hactive =>
      hlost hfull hactive ha.forRp2040 ha.notGarbage) hcur hmark hnew⟩

end Sector

/-- One step. -/
theorem step (h : w.Tracked t) {e : Uf2Event} (hstep : UndisturbedStep w e) :
    ∃ t', Tracked (uf2Step w e) t' := by
  cases e with
  | sector uf2 token => exact h.sector hstep
  | dequeue => exact ⟨t, h.dequeue⟩
  | complete result m =>
    cases hrun : w.running with
    | none => exact ⟨t, by simpa only [uf2Step, hrun] using h⟩
    | some r =>
      obtain ⟨hok, hkeeps⟩ := hstep r (by rw [hrun]; rfl)
      exact ⟨t, h.complete hrun hok hkeeps⟩
  | picoboot m => exact ⟨t, h.on hstep⟩
  | mscReset => exact ⟨none, h.mscReset⟩
  | queueReset => exact ⟨t, h.queueReset hstep⟩

/-- A task that completes and reboots leaves no block of the transfer unwritten. -/
theorem rebootsWritten (h : w.Tracked t) {e : Uf2Event} (hstep : UndisturbedStep w e) :
    RebootsWritten w e := by
  cases e with
  | complete result m =>
    intro hrunning hreboots b hb
    obtain ⟨⟨task, tag⟩, hrun⟩ := Option.isSome_iff_exists.1 hrunning
    have hrefines := h.refines_on (hstep (task, tag) hrun).2
    simp only [uf2Step, hrun] at hreboots ⊢
    rcases writeUf2PageComplete_reboots { task with result := result } (w.disk.on m) with
      hsame | ⟨htoken, hresult, hcount, -⟩
    · exact absurd hsame hreboots
    cases t with
    | none =>
      have hzero : w.disk.uf2Info.numBlocks = 0 := h.refines
      rw [hzero] at hb
      exact absurd hb (Nat.not_lt_zero b)
    | some t =>
      have htracks : Tracks (w.disk.on m) t := hrefines
      have hmem : b ∈ t.numbers := by
        refine Transfer.mem_numbers_of_length_eq (htracks.complete_iff.1 hcount) ?_
        rw [← htracks.numBlocks]
        exact hb
      rw [if_pos hresult]
      rcases h.accounted t rfl b hmem with hw | ⟨hfull, htag⟩ | ⟨task', hrun'⟩
      · exact List.mem_cons_of_mem _ hw
      · exact absurd htoken (h.token t rfl hfull (by rw [htag]) (task, tag) hrun)
      · obtain ⟨-, rfl⟩ := Prod.mk.inj (Option.some.inj (hrun.symm.trans hrun'))
        exact List.mem_cons_self
  | sector | dequeue | picoboot | mscReset | queueReset => trivial

end Uf2World.Tracked

/-! ## Runs -/

/-- In a run without a disturbance each reboot that the completion of a task causes comes
after a task of each block of the active transfer has completed with result 0. -/
theorem reboots_written (d : VirtualDisk) (es : List Uf2Event) (hidle : d.uf2Info.numBlocks = 0)
    (hclean : Run.Always uf2Step UndisturbedStep { disk := d } es) :
    Run.Always uf2Step RebootsWritten { disk := d } es := by
  have hstart : Uf2World.Tracked { disk := d } none :=
    ⟨hidle, by rintro _ ⟨⟩, by rintro _ ⟨⟩, Nat.le_refl 0⟩
  exact hclean.imp (I := fun w => ∃ t, w.Tracked t) (fun w e he ⟨t, h⟩ => h.step he)
    (fun w e he ⟨t, h⟩ => h.rebootsWritten he) ⟨none, hstart⟩

/-- A sector and the worker's turn on its task. -/
def sectorTurn (env : Env) (d : VirtualDisk) (s : Uf2Block × Word) : List Uf2Event :=
  .sector s.1 s.2 :: workerTurn env (receiveSector s.1 s.2 d).1

/-- The only block of an image for SRAM. -/
def singlePage : Uf2Block × Word := (uf2Block 1 0 sramBase fun _ => 0, 1)

theorem reboots_written_single_page : Run.Always uf2Step RebootsWritten { disk := powerOn }
    (sectorTurn bareEnv powerOn singlePage) := by
  refine reboots_written powerOn (sectorTurn bareEnv powerOn singlePage) rfl
    ⟨⟨by rintro _ ⟨⟩, by rintro ⟨⟩⟩, trivial, fun r hr => ⟨fun _ => by decide +kernel, ?_⟩, trivial⟩
  -- the marks of an image for RAM are not in the memory that tasks write
  intro b _ hmark
  exact hmark

/-- The first of two pages for SRAM, which reaches beyond its end. -/
def overrunPage : Uf2Block × Word := (uf2Block 2 0 (sramEnd - 255) fun _ => 0, 1)

/-- The second of the two pages. -/
def secondPage : Uf2Block × Word := (uf2Block 2 1 sramBase fun _ => 0, 2)

/-- The task of the first page fails, and the device reboots without the page. -/
theorem reboot_with_failed_page :
    ¬Run.Always uf2Step RebootsWritten { disk := powerOn }
      (sectorTurn bareEnv powerOn overrunPage ++
        sectorTurn bareEnv (deliver bareEnv powerOn overrunPage) secondPage) := by
  intro h
  have hlast := @Run.Always.at _ _ _ _ _ (sectorTurn bareEnv powerOn overrunPage ++
    [.sector secondPage.1 secondPage.2, .dequeue]) [] _ h
  exact absurd (hlast (by decide +kernel) (by decide +kernel) 0 (by decide +kernel))
    (by decide +kernel)

end PicoBootrom
