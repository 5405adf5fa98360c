import PicoBootrom.AddressChecks
import PicoBootrom.WorkerTurn

/-!
# The tracking state over runs

While a transfer is active, `valid_block_count` is the number of the marked blocks, each of them is
a block of the image, and the indexes that a block is looked up with are in the bitmaps
(`TrackingOk`, `IndexesInBounds`). `Marks` says the same against the transfer that the tracking
state stands for, and each sector keeps it.

The bitmaps of a flash image are in XIP SRAM, where a task can write : one of PICOBOOT, and one of
a RAM image for XIP SRAM that the worker took before the flash transfer was opened. The tracking
state is right in all runs in which neither happens while a flash transfer is active
(`tracking_kept`).
-/

namespace PicoBootrom

/-! ## The tracking state and its transfer -/

/-- The number of the blocks that the bitmap marks. -/
def VirtualDisk.markedBlocks (d : VirtualDisk) : ℕ :=
  (List.range d.uf2Info.maxValidBlocks.toNat).countP fun b =>
    d.testBitmap d.uf2Info.validBlocks b

/-- The tracking state of an active transfer : the image fits, the count is that of the marked
blocks, and these are blocks of the image. -/
structure TrackingOk (d : VirtualDisk) : Prop where
  pos : 0 < d.uf2Info.numBlocks.toNat
  fits : d.uf2Info.numBlocks.toNat ≤ d.uf2Info.maxValidBlocks.toNat
  count : d.uf2Info.validBlockCount.toNat = d.markedBlocks
  marked : ∀ b < d.uf2Info.maxValidBlocks.toNat,
    d.testBitmap d.uf2Info.validBlocks b = true → b < d.uf2Info.numBlocks.toNat
  le : d.uf2Info.validBlockCount.toNat ≤ d.uf2Info.numBlocks.toNat

/-- A block that `_update_current_uf2_info` is given and accepts is looked up inside the bitmaps. -/
def IndexesInBounds (uf2 : Uf2Block) (token : Word) (d : VirtualDisk) : Prop :=
  uf2.forRp2040 = true → ∀ d', updateCurrentUf2Info uf2 token d = (d', true) →
    d'.uf2Info.blockNo.toNat < d'.uf2Info.maxValidBlocks.toNat ∧
      (d'.uf2Info.ram = false → d'.uf2Info.pageNo < d'.uf2Info.maxClearedPages.toNat)

/-- The tracking state is that of the transfer, whose blocks are the marked ones. -/
structure Marks (d : VirtualDisk) (t : Transfer) : Prop extends Tracks d t where
  maxValidBlocks : d.uf2Info.maxValidBlocks.toNat = capacity t.ram
  maxClearedPages : t.ram = false → d.uf2Info.maxClearedPages.toNat = 7710
  only : ∀ b < capacity t.ram, d.testBitmap (validBlocksPtr t.ram) b = true → b ∈ t.numbers

/-- No transfer is active, or the blocks of the active one are marked. -/
def Counted (d : VirtualDisk) : Prop :=
  d.uf2Info.numBlocks = 0 ∨ ∃ t, Marks d t

section Marks

variable {d d' : VirtualDisk} {t t' : Transfer} {uf2 : Uf2Block}

/-- The numbers below `n` that are in a list of different ones. -/
theorem countP_mem_range {l : List ℕ} (hnodup : l.Nodup) {n : ℕ} (h : ∀ b ∈ l, b < n) :
    (List.range n).countP (fun b => decide (b ∈ l)) = l.length := by
  rw [List.countP_eq_length_filter]
  refine List.Perm.length_eq ((List.perm_ext_iff_of_nodup
    (List.nodup_range.filter _) hnodup).2 fun b => ?_)
  rw [List.mem_filter, List.mem_range, decide_eq_true_eq]
  exact ⟨fun hb => hb.2, fun hb => ⟨h b hb, hb⟩⟩

theorem Marks.testBitmap_iff (h : Marks d t) {b : ℕ} (hb : b < capacity t.ram) :
    d.testBitmap (validBlocksPtr t.ram) b = true ↔ b ∈ t.numbers :=
  ⟨h.only b hb, h.marked b⟩

theorem Marks.trackingOk (h : Marks d t) : TrackingOk d := by
  have hlt {b : ℕ} (hb : b ∈ t.numbers) : b < capacity t.ram :=
    Nat.lt_of_lt_of_le (t.lt b hb) t.fits
  have hcount : d.markedBlocks = t.queued.length := by
    have hsame : ∀ b ∈ List.range (capacity t.ram),
        d.testBitmap (validBlocksPtr t.ram) b = true ↔ decide (b ∈ t.numbers) = true :=
      fun b hb => by rw [h.testBitmap_iff (List.mem_range.1 hb), decide_eq_true_eq]
    rw [VirtualDisk.markedBlocks, h.maxValidBlocks, h.validBlocks, List.countP_congr hsame,
      countP_mem_range (l := t.numbers) t.nodup fun b hb => hlt hb]
    exact List.length_map _
  exact {
    pos := h.numBlocks ▸ t.pos
    fits := by
      rw [h.numBlocks, h.maxValidBlocks]
      exact t.fits
    count := h.count.trans hcount.symm
    marked := fun b hb hbit => by
      rw [h.maxValidBlocks] at hb
      rw [h.validBlocks] at hbit
      rw [h.numBlocks]
      exact t.lt b (h.only b hb hbit)
    le := by
      rw [h.count, h.numBlocks]
      exact t.length_le }

theorem Counted.trackingOk (h : Counted d) (hne : d.uf2Info.numBlocks ≠ 0) : TrackingOk d := by
  rcases h with hzero | ⟨t, ht⟩
  · exact absurd hzero hne
  · exact ht.trackingOk

/-- The tracking state and the bitmap of the blocks are all that `Marks` reads. -/
theorem Marks.congr (h : Marks d t) (hinfo : d'.uf2Info = d.uf2Info)
    (hbits : ∀ b < capacity t.ram, d'.testBitmap (validBlocksPtr t.ram) b =
      d.testBitmap (validBlocksPtr t.ram) b) : Marks d' t where
  toTracks := h.toTracks.congr hinfo fun b hb hbit =>
    (hbits b (Nat.lt_of_lt_of_le (t.lt b hb) t.fits)).trans hbit
  maxValidBlocks := hinfo ▸ h.maxValidBlocks
  maxClearedPages := hinfo ▸ h.maxClearedPages
  only := fun b hb hbit => h.only b hb ((hbits b hb).symm.trans hbit)

/-! ## Sectors -/

theorem resetUf2Info_maxClearedPages (uf2 : Uf2Block) (d : VirtualDisk) (h : uf2.flash = true) :
    (resetUf2Info uf2 d).uf2Info.maxClearedPages = flashMaxClearedPages := by
  unfold resetUf2Info
  simp [h]

/-- A new transfer has no block marked. -/
theorem Marks.openTransfer (d : VirtualDisk) (h : uf2.start = some t)
    (hplace : uf2.ram = false → uf2.flash = true) :
    Marks (PicoBootrom.openTransfer uf2 d) t where
  toTracks := tracks_openTransfer d h hplace
  maxValidBlocks := by
    rw [(Uf2Block.start_eq_some h).1]
    exact resetUf2Info_maxValidBlocks uf2 d
  maxClearedPages hram := by
    rw [(Uf2Block.start_eq_some h).1] at hram
    have hmax : (PicoBootrom.openTransfer uf2 d).uf2Info.maxClearedPages =
        flashMaxClearedPages := resetUf2Info_maxClearedPages uf2 d (hplace hram)
    rw [hmax, flashMaxClearedPages_toNat]
  only b hb hbit := by
    rw [(Uf2Block.start_eq_some h).1] at hb hbit
    rw [testBitmap_openTransfer uf2 d hb] at hbit
    cases hbit

theorem Marks.prepared (h : Marks d t) (uf2 : Uf2Block) (token : Word) (opens : Bool) :
    Marks (PicoBootrom.prepared uf2 token opens d) t where
  toTracks := h.toTracks.prepared token opens
  maxValidBlocks := h.maxValidBlocks
  maxClearedPages := h.maxClearedPages
  only b hb hbit := h.only b hb (by rwa [testBitmap_prepared] at hbit)

/-- A block that is queued is marked, and no other. -/
theorem Marks.queueBlock (h : Marks d t) (token : Word) (opens : Bool) (hram : uf2.ram = t.ram)
    (hnew : uf2.blockNo.toNat ∉ t.numbers) (hlt : uf2.blockNo.toNat < t.numBlocks) :
    Marks (PicoBootrom.queueBlock uf2 token opens d)
      (t.push uf2.blockNo.toNat uf2.targetAddr hnew hlt) where
  toTracks := h.toTracks.queueBlock token opens hram hnew hlt
  maxValidBlocks := h.maxValidBlocks
  maxClearedPages := h.maxClearedPages
  only b hb hbit := by
    have hblock := Nat.lt_of_lt_of_le hlt t.fits
    change b < capacity t.ram at hb
    change (PicoBootrom.queueBlock uf2 token opens d).testBitmap (validBlocksPtr t.ram) b = true
      at hbit
    rw [testBitmap_queueBlock] at hbit
    rw [← hram] at hblock hb hbit
    rw [testBitmap_markBlock uf2 d hblock hb, Bool.or_eq_true, decide_eq_true_eq] at hbit
    rcases hbit with hbit | rfl
    · rw [hram] at hb hbit
      exact List.mem_cons_of_mem _ (h.only b hb hbit)
    · exact List.mem_cons_self

/-- What the tracking state stands for. -/
theorem Counted.refines (h : Counted d) : ∃ t, Refines d t ∧ ∀ t' ∈ t, Marks d t' := by
  rcases h with hzero | ⟨t, ht⟩
  · exact ⟨none, hzero, fun t' ht' => by cases ht'⟩
  · exact ⟨some t, ht.toTracks, fun t' ht' => by
      obtain rfl := Option.mem_some_iff.1 ht'
      exact ht⟩

/-- The marks of the transfer that an accepted block is for. -/
theorem Uf2Block.Accepted.marks_current {disable : Bool} {t₀ : Option Transfer}
    (ha : uf2.Accepted disable t₀ t) (h : RefinesFor uf2.numBlocks d t₀)
    (hmarks : ∀ t' ∈ t₀, Marks d t') : Marks (current uf2 d) t := by
  unfold current
  cases hopens : opens uf2 d with
  | true =>
    have htransfer := ha.transfer
    rw [transfer_of_opens h hopens] at htransfer
    exact .openTransfer d htransfer fun hram => flash_of_not_garbage ha.notGarbage hram
  | false =>
    obtain ⟨t', hsome, htransfer⟩ := transfer_of_not_opens h hopens
      (numBlocks_ne_zero_of_not_garbage ha.notGarbage)
    obtain rfl := Option.some.inj (htransfer.symm.trans ha.transfer)
    exact hmarks t' hsome

theorem Counted.vdWriteBlock (h : Counted d) (token : Word) :
    Counted (PicoBootrom.vdWriteBlock token d).1 := by
  obtain ⟨t, hrefines, hmarks⟩ := h.refines
  obtain ⟨t', hreceives⟩ := vdWriteBlock_cases token (hrefines.refinesFor d.sectorBuf.numBlocks)
  generalize PicoBootrom.vdWriteBlock token d = r at hreceives
  cases hreceives with
  | ignored => exact h
  | rejected _ _ hinvalid => exact .inl hinvalid
  | duplicate ha =>
    have hcurrent := ha.marks_current (hrefines.refinesFor _) hmarks
    exact .inr ⟨_, hcurrent.prepared _ token _⟩
  | queued ha _ _ hnew =>
    have hcurrent := ha.marks_current (hrefines.refinesFor _) hmarks
    exact .inr ⟨_, hcurrent.queueBlock token _ ha.ram hnew ha.lt⟩

theorem Counted.filled (h : Counted d) (uf2 : Uf2Block) : Counted (d.filled uf2) := by
  rcases h with hzero | ⟨t, ht⟩
  · exact .inl hzero
  · refine .inr ⟨t, ht.congr rfl fun b _ => ?_⟩
    exact VirtualDisk.testBitmap_congr rfl rfl _ _

theorem Counted.receiveSector (h : Counted d) (uf2 : Uf2Block) (token : Word) :
    Counted (PicoBootrom.receiveSector uf2 token d).1 :=
  (h.filled uf2).vdWriteBlock token

/-- The indexes of the next block. -/
theorem Counted.indexesInBounds (h : Counted d) (uf2 : Uf2Block) (token : Word) :
    IndexesInBounds uf2 token d := by
  intro hfor d' hupdate
  obtain ⟨t, hrefines, hmarks⟩ := h.refines
  have hfor' := hrefines.refinesFor uf2.numBlocks
  by_cases ha : ∃ t', uf2.Accepted d.virtualDiskQueue.disable t t'
  · obtain ⟨t', ha⟩ := ha
    have hcurrent := ha.marks_current hfor' hmarks
    rw [updateCurrentUf2Info_of_accepted token hfor' ha] at hupdate
    obtain ⟨rfl, -⟩ := Prod.mk.inj hupdate
    have hprepared := hcurrent.prepared uf2 token (opens uf2 d)
    have hlt : uf2.blockNo.toNat < capacity t'.ram := Nat.lt_of_lt_of_le ha.lt t'.fits
    refine ⟨by rw [hprepared.maxValidBlocks]; exact hlt, fun hram => ?_⟩
    rw [hprepared.ram] at hram
    rw [hprepared.maxClearedPages hram, pageNo_eq (Nat.lt_of_lt_of_le hlt (capacity_le _))]
    have hle := capacity_le t'.ram
    change uf2.blockNo.toNat / 16 < 7710
    omega
  · obtain ⟨d₁, heq, -⟩ := updateCurrentUf2Info_of_not_accepted token hfor' hfor
      fun t' ht' => ha ⟨t', ht'⟩
    rw [heq] at hupdate
    exact absurd (Prod.mk.inj hupdate).2 Bool.false_ne_true

end Marks

/-! ## Tasks -/

/-- The bytes of XIP SRAM, where the bitmaps of flash images are. -/
def Machine.xipSram (m : Machine) (a : {a : Word // xipSramBase ≤ a ∧ a < xipSramEnd}) : Byte :=
  m.mem a

/-- The task writes a page of XIP SRAM. -/
def AsyncTask.toXipSram (task : AsyncTask) : Bool :=
  task.directAccess && task.transferAddr < sramBase

/-- The tasks that the virtual disk queues. -/
def IsBlockTask (task : AsyncTask) : Prop :=
  ∃ uf2 token opens erases, task = pageTask uf2 token opens erases

section Tasks

variable {task : AsyncTask}

theorem executeWrite_keeps_xipSram (env : Env) (hwrite : task.has atWrite = true)
    (hlen : task.dataLength.toNat = 256) (hxip : task.toXipSram = false) :
    (executeWrite env task).Keeps Machine.xipSram := by
  intro m
  rw [executeWrite, if_pos hwrite]
  by_cases hdirect : task.directAccess = true
  · rw [if_pos hdirect]
    have hsram : sramBase ≤ task.transferAddr := by
      simpa [AsyncTask.toXipSram, hdirect] using hxip
    have hin : InRam task.transferAddr task.dataLength := by
      have hends := hdirect
      rw [AsyncTask.directAccess, hwrite, Bool.not_true, Bool.false_and, Bool.false_and,
        Bool.or_false, ram_ends_iff (by omega)] at hends
      exact hends
    have hend : task.transferAddr.toNat + 256 ≤ 2 ^ 32 := by
      have hbounds : sramEnd.toNat = 0x20042000 ∧ xipSramEnd.toNat = 0x15004000 := ⟨rfl, rfl⟩
      rcases hin with hin | hin
      · have hle := hin.2
        omega
      · have hle := hin.2
        omega
    funext a
    rw [Machine.revertFlashFuncs_eq]
    refine Memory.copy_of_not_inRange fun hrange => ?_
    rw [hlen, Memory.inRange_iff hend] at hrange
    have hlow : sramBase.toNat ≤ task.transferAddr.toNat := hsram
    have hhigh : (a : Word).toNat < xipSramEnd.toNat := a.2.2
    have hbounds : sramBase.toNat = 0x20000000 ∧ xipSramEnd.toNat = 0x15004000 := ⟨rfl, rfl⟩
    omega
  · rw [if_neg hdirect]
    rfl

/-- A task of the virtual disk that does not write to XIP SRAM leaves XIP SRAM alone. -/
theorem executeTask_keeps_xipSram (env : Env) (h : IsBlockTask task)
    (hxip : task.toXipSram = false) : (executeTask env task).Keeps Machine.xipSram := by
  obtain ⟨uf2, token, opens, erases, rfl⟩ := h
  obtain ⟨hvectorize, hexclusive, hexec, -, hwrite, hread, henter⟩ :=
    pageTask_bits uf2 token opens erases
  have hskip {s : TaskStep} (hs : ∀ m, s m = (m, 0)) : s.Keeps Machine.xipSram :=
    fun m => by rw [hs]
  have hexit : (executeExitXip env (pageTask uf2 token opens erases)).Keeps Machine.xipSram := by
    intro m
    unfold executeExitXip
    split <;> rfl
  have hsource : (executeMutationSource (pageTask uf2 token opens erases)).Keeps
      Machine.xipSram := by
    intro m
    unfold executeMutationSource
    repeat' split
    all_goals rfl
  have herase : (executeFlashErase env (pageTask uf2 token opens erases)).Keeps
      Machine.xipSram := by
    intro m
    unfold executeFlashErase
    repeat' split
    all_goals rfl
  have hcheck : (executeAddressCheck (pageTask uf2 token opens erases)).Keeps
      Machine.xipSram := by
    intro m
    unfold executeAddressCheck
    repeat' split
    all_goals rfl
  have htransfer : (executeTransfer env (pageTask uf2 token opens erases)).Keeps
      Machine.xipSram := by
    intro m
    unfold executeTransfer
    split
    · exact (hcheck.andThen <| (executeWrite_keeps_xipSram env hwrite rfl hxip).andThen <|
        (hskip (executeRead_of_not env hread)).andThen <|
        hskip (executeEnterCmdXip_of_not env henter)) m
    · rfl
  intro m
  unfold executeTask
  split
  · rfl
  · exact ((hskip (executeVectorizeFlash_of_not env hvectorize)).andThen <|
      (hskip (executeExclusive_of_not hexclusive)).andThen <| hexit.andThen <|
      (hskip (executeExec_of_not env hexec)).andThen <| hsource.andThen <| herase.andThen <|
      htransfer) m

end Tasks

/-! ## Runs -/

/-- While a flash transfer is active, the worker does not execute a task of the virtual disk that
writes to XIP SRAM, nor a task of PICOBOOT that does. -/
def BitmapsUntouched (env : Env) (w : WorkerWorld) : WorkerEvent → Prop
  | .run =>
    match w.worker with
    | .tookDisk task =>
      w.disk.uf2Info.numBlocks ≠ 0 → w.disk.uf2Info.ram = false → task.toXipSram = false
    | .tookCommand _ => (runTask env w).disk.xipSram = w.disk.xipSram
    | _ => True
  | _ => True

/-- The tracking state is right, and the tasks of the virtual disk are those of blocks. -/
structure Tracked (w : WorkerWorld) : Prop where
  counted : Counted w.disk
  queued : w.disk.virtualDiskQueue.full = true → IsBlockTask w.disk.virtualDiskQueue.task
  taken : ∀ task, w.worker = .tookDisk task → IsBlockTask task

section Runs

variable {w w' : WorkerWorld} {d d' : VirtualDisk}

/-- A step that keeps the tracking state, and XIP SRAM if it holds the bitmaps. -/
theorem Counted.congr (h : Counted d) (hinfo : d'.uf2Info = d.uf2Info)
    (hram : d'.uf2ValidRamBlocks = d.uf2ValidRamBlocks)
    (hmem : d.uf2Info.numBlocks ≠ 0 → d.uf2Info.ram = false → d'.xipSram = d.xipSram) :
    Counted d' := by
  rcases h with hzero | ⟨t, ht⟩
  · exact .inl (by rw [hinfo]; exact hzero)
  · refine .inr ⟨t, ht.congr hinfo fun b hb => ?_⟩
    cases htram : t.ram with
    | true => exact congrArg (fun m => Memory.testBit m 0 b) hram
    | false =>
      rw [htram, capacity_false] at hb
      have hsame := hmem ht.ne_zero (ht.ram.trans htram)
      have haddr := VirtualDisk.byteAddr_validBlocks_toNat hb
      have hlow : xipSramBase ≤ Memory.byteAddr flashValidBlocksBase b := by
        rw [BitVec.le_def, haddr]
        exact Nat.le_add_right _ _
      have hhigh : Memory.byteAddr flashValidBlocksBase b < xipSramEnd := by
        rw [BitVec.lt_def, haddr]
        change _ < 0x15004000
        omega
      exact Memory.testBit_congr (congrFun hsame ⟨_, hlow, hhigh⟩)

/-- The queue after a sector. -/
theorem Counted.vdWriteBlock_queue (h : Counted d) (token : Word) :
    (PicoBootrom.vdWriteBlock token d).1.virtualDiskQueue = d.virtualDiskQueue ∨
      IsBlockTask (PicoBootrom.vdWriteBlock token d).1.virtualDiskQueue.task := by
  obtain ⟨t, hrefines, -⟩ := h.refines
  obtain ⟨t', hreceives⟩ := vdWriteBlock_cases token (hrefines.refinesFor d.sectorBuf.numBlocks)
  generalize PicoBootrom.vdWriteBlock token d = r at hreceives
  cases hreceives with
  | ignored => exact .inl rfl
  | rejected _ _ _ hqueue => exact .inl hqueue
  | duplicate => exact .inl (current_virtualDiskQueue _ _)
  | queued => exact .inr ⟨_, _, _, _, rfl⟩

theorem Tracked.sector (h : Tracked w) (env : Env) (uf2 : Uf2Block) (token : Word) :
    Tracked (workerStep env w (.sector uf2 token)) where
  counted := h.counted.receiveSector uf2 token
  queued hfull := by
    rcases (h.counted.filled uf2).vdWriteBlock_queue token with hqueue | hblock
    · change (receiveSector uf2 token w.disk).1.virtualDiskQueue.full = true at hfull
      change IsBlockTask (receiveSector uf2 token w.disk).1.virtualDiskQueue.task
      rw [receiveSector, hqueue] at hfull ⊢
      exact h.queued hfull
    · exact hblock
  taken := h.taken

/-- A step that keeps the tracking state, a task that waits, and XIP SRAM if it holds the
bitmaps. -/
theorem Tracked.congr (h : Tracked w) (hinfo : w'.disk.uf2Info = w.disk.uf2Info)
    (hram : w'.disk.uf2ValidRamBlocks = w.disk.uf2ValidRamBlocks)
    (hmem : w.disk.uf2Info.numBlocks ≠ 0 → w.disk.uf2Info.ram = false →
      w'.disk.xipSram = w.disk.xipSram)
    (hqueue : w'.disk.virtualDiskQueue.full = true → w.disk.virtualDiskQueue.full = true ∧
      w'.disk.virtualDiskQueue.task = w.disk.virtualDiskQueue.task)
    (hworker : ∀ task, w'.worker = .tookDisk task → IsBlockTask task) : Tracked w' where
  counted := h.counted.congr hinfo hram hmem
  queued hfull := by
    obtain ⟨hfull', htask⟩ := hqueue hfull
    rw [htask]
    exact h.queued hfull'
  taken := hworker

/-- The queue of the virtual disk after a task. -/
theorem slot_of_interruptSide {m m' : Machine} (h : m'.interruptSide = m.interruptSide)
    (hfull : m'.virtualDiskQueue.full = true) : m.virtualDiskQueue.full = true ∧
      m'.virtualDiskQueue.task = m.virtualDiskQueue.task := by
  simp only [Machine.interruptSide, Prod.mk.injEq] at h
  exact ⟨h.2.2.2 ▸ hfull, h.2.2.1⟩

theorem Tracked.take (h : Tracked w) : Tracked (takeTask w) := by
  unfold takeTask
  split
  · split
    · next hfull =>
      refine h.congr rfl rfl (fun _ _ => rfl) (fun hfull' => by cases hfull') fun task htask => ?_
      obtain rfl := Worker.tookDisk.inj htask
      exact h.queued hfull
    · split
      · exact h.congr rfl rfl (fun _ _ => rfl) (fun hfull' => ⟨hfull', rfl⟩)
          fun task htask => by cases htask
      · exact h
  · exact h

theorem Tracked.run (h : Tracked w) (env : Env) (he : BitmapsUntouched env w .run) :
    Tracked (runTask env w) := by
  cases hworker : w.worker with
  | tookDisk task =>
    simp only [BitmapsUntouched, hworker] at he
    simp only [runTask, hworker]
    refine h.congr (executeVirtualDiskTask_uf2Info env task w.disk)
      (executeVirtualDiskTask_uf2ValidRamBlocks env task w.disk) (fun hne hflash => ?_)
      (slot_of_interruptSide (executeVirtualDiskTask_interruptSide env task w.disk))
      fun task' htask' => by cases htask'
    unfold executeVirtualDiskTask
    split
    · rfl
    · exact executeTask_keeps_xipSram env (h.taken task hworker) (he hne hflash) w.disk.toMachine
  | tookCommand task =>
    simp only [BitmapsUntouched, hworker] at he
    have hkeeps : (executeCommandTask env task w.picoboot w.disk.toMachine).1.interruptSide =
        w.disk.interruptSide := by
      unfold executeCommandTask
      dsimp only
      split
      · rfl
      · exact executeTask_keeps env task w.disk.toMachine
    simp only [runTask, hworker] at he ⊢
    exact h.congr rfl rfl (fun _ _ => he) (slot_of_interruptSide hkeeps)
      fun task' htask' => by cases htask'
  | idle | ranDisk | ranCommand =>
    simp only [runTask, hworker]
    exact h

theorem Tracked.complete (h : Tracked w) : Tracked (completeTurn w) := by
  unfold completeTurn
  split
  · next task _ =>
    have hmachine : (writeUf2PageComplete task w.disk).xipSram = w.disk.xipSram ∧
        (writeUf2PageComplete task w.disk).virtualDiskQueue = w.disk.virtualDiskQueue := by
      unfold writeUf2PageComplete
      repeat' split
      all_goals exact ⟨rfl, rfl⟩
    refine h.congr (writeUf2PageComplete_uf2Info task w.disk)
      (writeUf2PageComplete_uf2ValidRamBlocks task w.disk) (fun _ _ => hmachine.1)
      (fun hfull => ?_) fun task' htask' => by cases htask'
    change (writeUf2PageComplete task w.disk).virtualDiskQueue.full = true at hfull
    rw [hmachine.2] at hfull
    exact ⟨hfull, congrArg AsyncTaskQueue.task hmachine.2⟩
  · exact h.congr rfl rfl (fun _ _ => rfl) (fun hfull => ⟨hfull, rfl⟩)
      fun task' htask' => by cases htask'
  · exact h

theorem Tracked.command (h : Tracked w) (len : ℕ) (cmd : PicobootCmd) :
    Tracked (receiveCommand len cmd w) := by
  unfold receiveCommand
  dsimp only
  split
  all_goals exact h.congr rfl rfl (fun _ _ => rfl) (fun hfull => ⟨hfull, rfl⟩) h.taken

theorem Tracked.step (h : Tracked w) (env : Env) (e : WorkerEvent)
    (he : BitmapsUntouched env w e) : Tracked (workerStep env w e) := by
  cases e with
  | sector uf2 token => exact h.sector env uf2 token
  | command len cmd => exact h.command len cmd
  | chunk chunkLen => exact ⟨h.counted, h.queued, h.taken⟩
  | take => exact h.take
  | run => exact h.run env he
  | complete => exact h.complete
  | mscReset => exact ⟨.inl rfl, h.queued, h.taken⟩
  | picobootReset =>
    exact h.congr rfl rfl (fun _ _ => rfl) (fun hfull => by cases hfull) h.taken

/-- In every run in which XIP SRAM is not written while a flash transfer is active, the tracking
state of an active transfer is right in the state reached, and the next block is looked up inside
the bitmaps. -/
theorem tracking_kept (env : Env) (d : VirtualDisk) (p : Picoboot) (es : List WorkerEvent)
    (hidle : d.uf2Info.numBlocks = 0) (hempty : d.virtualDiskQueue.full = false)
    (hes : Run.Always (workerStep env) (BitmapsUntouched env) { disk := d, picoboot := p } es) :
    ((Run.after (workerStep env) { disk := d, picoboot := p } es).disk.uf2Info.numBlocks ≠ 0 →
        TrackingOk (Run.after (workerStep env) { disk := d, picoboot := p } es).disk) ∧
      ∀ uf2 token, IndexesInBounds uf2 token
        ((Run.after (workerStep env) { disk := d, picoboot := p } es).disk.filled uf2) := by
  have hstart : Tracked { disk := d, picoboot := p } :=
    ⟨.inl hidle, fun hfull => absurd (hempty.symm.trans hfull) Bool.false_ne_true,
      fun task htask => by cases htask⟩
  have hafter := hes.invariant (I := Tracked) (fun w e he h => h.step env e he) hstart
  exact ⟨hafter.counted.trackingOk, fun uf2 token =>
    (hafter.counted.filled uf2).indexesInBounds uf2 token⟩

end Runs

/-- A page for XIP SRAM is taken by the worker, and before it is executed the mass storage
interface is reset and a flash image is started, whose page has all bits set. -/
def xipPageAfterReset : List WorkerEvent :=
  [.sector (uf2Block 1 0 xipSramBase fun _ => 0) 1, .take, .mscReset,
    .sector (uf2Block 2 0 xipMainBase fun _ => 0xff) 2, .run]

/-- The first block of a flash image, written by the worker. -/
def firstFlashBlock : List WorkerEvent :=
  [.sector (uf2Block 2 0 xipMainBase fun _ => 0xff) 2, .take, .run]

/-- `tracking_kept`, for the first block of a flash image. -/
theorem tracking_kept_first_block :
    TrackingOk (Run.after (workerStep bareEnv) { disk := powerOn, picoboot := {} }
      firstFlashBlock).disk :=
  (tracking_kept bareEnv powerOn {} firstFlashBlock rfl rfl
    ⟨trivial, trivial, fun _ _ => rfl, trivial⟩).1 (by decide)

/-- The page for XIP SRAM is written over the bitmap of the flash image, which then marks blocks
that the image does not have. -/
theorem xip_page_marks_blocks :
    (Run.after (workerStep bareEnv) { disk := powerOn, picoboot := {} }
        xipPageAfterReset).disk.uf2Info.numBlocks = 2 ∧
      ¬TrackingOk (Run.after (workerStep bareEnv) { disk := powerOn, picoboot := {} }
        xipPageAfterReset).disk := by
  refine ⟨rfl, fun h => ?_⟩
  have hbit : (Run.after (workerStep bareEnv) { disk := powerOn, picoboot := {} }
      xipPageAfterReset).disk.testBitmap (.mem flashValidBlocksBase) 5 = true := by
    decide +kernel
  have hlt := h.marked 5 (by decide) hbit
  exact absurd hlt (by decide)

end PicoBootrom
