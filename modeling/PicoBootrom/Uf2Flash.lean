import PicoBootrom.Uf2Image

/-!
# UF2 images for flash

A page of flash can be written once after its sector has been erased, so an image with gaps
or in any order is written correctly when each sector is erased before its first page is
programmed and never again. The code erases the sector of the first block that arrives from
each group of 16 consecutive block numbers. `GroupsAreSectors` says that, in the order the
blocks arrive, the first of a group is always the first of a sector. Exactly then is the
image written safely.

The marks of the groups are cleared in whole bytes, so those of the last six groups keep
what was in memory before, and a block whose mark was set is no first of its group.
-/

namespace PicoBootrom

/-! ## Erasing and programming in order -/

/-- Each page is programmed in a sector that was erased before, and no sector is erased once
a page of it has been programmed. -/
structure ErasedOnce (ops : List FlashOp) : Prop where
  erased : ∀ pre a post, ops = pre ++ .pageProgram a :: post →
    ∃ s, .eraseSector s ∈ pre ∧ SameSector s a
  kept : ∀ pre a post, ops = pre ++ .pageProgram a :: post →
    ∀ s, .eraseSector s ∈ post → ¬SameSector s a

theorem append_singleton_eq_append_cons {α : Type*} {l pre post : List α} {x y : α} :
    l ++ [x] = pre ++ y :: post ↔
      (pre = l ∧ y = x ∧ post = []) ∨ ∃ post', post = post' ++ [x] ∧ l = pre ++ y :: post' := by
  induction post using List.reverseRecOn with
  | nil =>
    constructor
    · intro h
      obtain ⟨rfl, h⟩ := List.append_inj' h rfl
      exact .inl ⟨rfl, by simpa using h.symm, rfl⟩
    · rintro (⟨rfl, rfl, -⟩ | ⟨post', h, -⟩)
      · rfl
      · simp at h
  | append_singleton post z _ =>
    constructor
    · intro h
      rw [← List.cons_append, ← List.append_assoc] at h
      obtain ⟨rfl, h⟩ := List.append_inj' h rfl
      exact .inr ⟨post, by simpa using h.symm, rfl⟩
    · rintro (⟨-, -, h⟩ | ⟨post', h, rfl⟩)
      · simp at h
      · simp [h]

theorem erasedOnce_nil : ErasedOnce [] where
  erased pre a post h := by simp at h
  kept pre a post h := by simp at h

/-- One more call of the chip. -/
theorem erasedOnce_append_singleton (ops : List FlashOp) (x : FlashOp) :
    ErasedOnce (ops ++ [x]) ↔ ErasedOnce ops ∧
      (∀ a, .pageProgram a = x → ∃ s, .eraseSector s ∈ ops ∧ SameSector s a) ∧
      (∀ s, .eraseSector s = x → ∀ a, .pageProgram a ∈ ops → ¬SameSector s a) := by
  constructor
  · intro h
    refine ⟨⟨fun pre a post heq => ?_, fun pre a post heq s hs => ?_⟩, fun a ha => ?_,
      fun s hs a ha => ?_⟩
    · exact h.erased pre a (post ++ [x]) (by simp [heq])
    · exact h.kept pre a (post ++ [x]) (by simp [heq]) s (by simp [hs])
    · exact h.erased ops a [] (by rw [ha])
    · obtain ⟨pre, post, heq⟩ := List.append_of_mem ha
      exact h.kept pre a (post ++ [x]) (by simp [heq]) s (by simp [hs])
  · rintro ⟨h, herased, hkept⟩
    refine ⟨fun pre a post heq => ?_, fun pre a post heq s hs => ?_⟩
    · rcases append_singleton_eq_append_cons.1 heq with ⟨rfl, ha, -⟩ | ⟨post', -, heq'⟩
      · exact herased a ha
      · exact h.erased pre a post' heq'
    · rcases append_singleton_eq_append_cons.1 heq with ⟨-, -, rfl⟩ | ⟨post', rfl, heq'⟩
      · cases hs
      · rcases List.mem_append.1 hs with hs | hs
        · exact h.kept pre a post' heq' s hs
        · exact hkept s (List.mem_singleton.1 hs) a (by simp [heq'])

theorem erasedOnce_program (ops : List FlashOp) (a : Word) :
    ErasedOnce (ops ++ [.pageProgram a]) ↔
      ErasedOnce ops ∧ ∃ s, .eraseSector s ∈ ops ∧ SameSector s a := by
  simp [erasedOnce_append_singleton]

theorem erasedOnce_erase (ops : List FlashOp) (s : Word) :
    ErasedOnce (ops ++ [.eraseSector s]) ↔
      ErasedOnce ops ∧ ∀ a, .pageProgram a ∈ ops → ¬SameSector s a := by
  simp [erasedOnce_append_singleton]

theorem erasedOnce_exitXip (ops : List FlashOp) :
    ErasedOnce (ops ++ [.exitXip]) ↔ ErasedOnce ops := by
  simp [erasedOnce_append_singleton]

/-! ## Writing a page -/

/-- The chip after the task of a page of flash. -/
def writeFlashPage (addr : Word) (opens erases : Bool) (data : ℕ → Byte) (d : FlashDevice) :
    FlashDevice :=
  let d := if opens then (doFlashExitXip d).1 else d
  let d := if erases then (doFlashEraseSector (sectorOf addr) d).1 else d
  (doFlashPageProgram addr data d).1

/-- The range of one sector is erased by one call. -/
theorem doFlashEraseRange_sector {a : Word} (h : a.toNat < 0x20000000) (d : FlashDevice) :
    doFlashEraseRange doFlashEraseSector (sectorOf a) flashSectorEraseSize d =
      ((doFlashEraseSector (sectorOf a) d).1, 0) := by
  have hs := sectorOf_toNat a
  have hstop : (sectorOf a + flashSectorEraseSize).toNat = (sectorOf a).toNat + 4096 := by
    rw [BitVec.toNat_add]
    exact Nat.mod_eq_of_lt (by rw [show flashSectorEraseSize.toNat = 4096 from rfl]; omega)
  have hturns : ((sectorOf a + flashSectorEraseSize).toNat - (sectorOf a).toNat + 4095) / 4096 =
      1 := by
    rw [hstop]
    omega
  have hlt : sectorOf a < sectorOf a + flashSectorEraseSize := by
    rw [BitVec.lt_def, hstop]
    omega
  simp only [doFlashEraseRange, hturns, eraseRangeLoop, hlt, if_true]
  rfl

/-- The bits of the task of a page of flash. -/
theorem pageTask_has {uf2 : Uf2Block} (token : Word) (opens erases : Bool)
    (hflash : uf2.flash = true) :
    let task := pageTask uf2 token opens erases
    task.has atVectorizeFlash = false ∧ task.has atExclusive = false ∧
      task.has atExitXip = opens ∧ task.has atExec = false ∧
      task.has (atWrite ||| atFlashErase) = true ∧ task.has atFlashErase = erases ∧
      task.has (atWrite ||| atRead) = true ∧ task.has atWrite = true ∧
      task.has atRead = false ∧ task.has atEnterCmdXip = false := by
  simp only [AsyncTask.has, pageTask, hflash, Bool.and_true]
  cases opens <;> cases erases <;> decide

section WriteFlash

variable {uf2 : Uf2Block} {m : Machine}

/-- The task of a page of flash succeeds, and changes nothing but the chip. -/
theorem executeTask_flashPage (env : Env) (token : Word) (opens erases : Bool)
    (hrebooting : m.rebooting = false) (hrom : m.flashFuncs = .rom)
    (hflash : uf2.flash = true) (hram : uf2.ram = false)
    (haligned : uf2.targetAddr.toNat % 256 = 0) :
    executeTask env (pageTask uf2 token opens erases) m =
      ({ m with
          lastMutationSource := .virtualDisk
          flash := writeFlashPage uf2.targetAddr opens erases m.sectorBuf.data m.flash }, 0) := by
  have haddr : 0x10000000 ≤ uf2.targetAddr.toNat ∧ uf2.targetAddr.toNat + 256 ≤ 0x20000000 := by
    rw [Uf2Block.flash, Bool.and_eq_true, isAddressFlash_iff, isAddressFlash_iff,
      BitVec.toNat_add, show flashPageMask.toNat = 255 from rfl] at hflash
    omega
  have hmiss : (isAddressRam uf2.targetAddr && isAddressRam (uf2.targetAddr + 256)) = false := by
    rw [Uf2Block.ram, Bool.and_eq_false_iff, Bool.eq_false_iff, Bool.eq_false_iff, ne_eq, ne_eq,
      isAddressRam_iff, isAddressRam_iff, BitVec.toNat_add,
      show flashPageMask.toNat = 255 from rfl] at hram
    rw [Bool.and_eq_false_iff, Bool.eq_false_iff, Bool.eq_false_iff, ne_eq, ne_eq,
      isAddressRam_iff, isAddressRam_iff, BitVec.toNat_add, show (256 : Word).toNat = 256 from rfl]
    omega
  obtain ⟨hvec, hexcl, hexit, hexec, hmut, herase, htransfer, hwrite, hread, henter⟩ :=
    pageTask_has token opens erases hflash
  have hdirect : (pageTask uf2 token opens erases).directAccess = false := by
    rw [AsyncTask.directAccess, hwrite]
    exact (Bool.or_false _).trans hmiss
  have hrange : isAddressFlash uf2.targetAddr && isAddressFlash (uf2.targetAddr + 256) := by
    rw [Bool.and_eq_true, isAddressFlash_iff, isAddressFlash_iff, BitVec.toNat_add,
      show (256 : Word).toNat = 256 from rfl]
    omega
  have hpage : uf2.targetAddr &&& (flashPageSize - 1) = 0 := (and_pageMask_eq_zero _).2 haligned
  have hsector := sectorOf_toNat uf2.targetAddr
  have hmask : sectorOf uf2.targetAddr &&& (flashSectorEraseSize - 1) = 0 :=
    (and_sectorMask_eq_zero _).2 (by omega)
  have hsize : flashSectorEraseSize &&& (flashSectorEraseSize - 1) = 0 := by decide
  have hin : isAddressFlash (sectorOf uf2.targetAddr) &&
      isAddressFlash (sectorOf uf2.targetAddr + flashSectorEraseSize) := by
    rw [Bool.and_eq_true, isAddressFlash_iff, isAddressFlash_iff, BitVec.toNat_add,
      show flashSectorEraseSize.toNat = 4096 from rfl]
    omega
  set task := pageTask uf2 token opens erases with htask
  -- the stages one after the other, each on the machine the one before left
  let m₁ := { m with flash := if opens then (doFlashExitXip m.flash).1 else m.flash }
  let m₂ := { m₁ with lastMutationSource := TaskSource.virtualDisk }
  let m₃ := { m₂ with flash :=
    if erases then (doFlashEraseSector (sectorOf uf2.targetAddr) m₂.flash).1 else m₂.flash }
  have hexitXip : executeExitXip env task m = (m₁, 0) := by
    rw [executeExitXip, hexit, Machine.funcs_of_rom env hrom]
    cases opens <;> rfl
  have hmutation : executeMutationSource task m₁ = (m₂, 0) := by
    rw [executeMutationSource, hmut]
    rfl
  have hflashErase : executeFlashErase env task m₂ = (m₃, 0) := by
    rw [executeFlashErase, herase, @Machine.funcs_of_rom env m₂ hrom]
    cases erases with
    | false => rfl
    | true =>
      have heraseAddr : task.eraseAddr = sectorOf uf2.targetAddr := rfl
      have heraseSize : task.eraseSize = flashSectorEraseSize := rfl
      have hone := doFlashEraseRange_sector (a := uf2.targetAddr) (by omega) m₂.flash
      rw [if_pos rfl, heraseAddr, heraseSize, if_neg (not_not.2 hmask), if_neg (not_not.2 hsize),
        if_neg (by simpa using hin), Machine.onFlash]
      simp only [defaultFlashFuncs, hone]
      rfl
  have haddress : executeAddressCheck task m₃ = (m₃, 0) := by
    have htransferAddr : task.transferAddr = uf2.targetAddr := rfl
    have hlength : task.dataLength = 256 := rfl
    rw [executeAddressCheck, hdirect, htransferAddr, hlength, if_neg Bool.false_ne_true,
      if_pos hrange, if_neg (not_not.2 hpage)]
  have hprogram : executeWrite env task m₃ = ({ m₃ with
      flash := (doFlashPageProgram uf2.targetAddr m.sectorBuf.data m₃.flash).1 }, 0) := by
    rw [executeWrite, hwrite, hdirect, @Machine.funcs_of_rom env m₃ hrom]
    rfl
  rw [executeTask, if_neg (by simp [hrebooting]),
    TaskStep.andThen_of_ok (executeVectorizeFlash_of_not env hvec m),
    TaskStep.andThen_of_ok (executeExclusive_of_not hexcl m), TaskStep.andThen_of_ok hexitXip,
    TaskStep.andThen_of_ok (executeExec_of_not env hexec m₁), TaskStep.andThen_of_ok hmutation,
    TaskStep.andThen_of_ok hflashErase, executeTransfer, if_pos htransfer,
    TaskStep.andThen_of_ok haddress, TaskStep.andThen_of_ok hprogram,
    TaskStep.andThen_of_ok (executeRead_of_not env hread _),
    executeEnterCmdXip_of_not env henter]
  rfl

end WriteFlash

/-- The calls the task of a page makes. -/
def pageOps (addr : Word) (opens erases : Bool) : List FlashOp :=
  (if opens then [.exitXip] else []) ++ (if erases then [.eraseSector (sectorOf addr)] else []) ++
    [.pageProgram addr]

theorem writeFlashPage_ops (addr : Word) (opens erases : Bool) (data : ℕ → Byte)
    (d : FlashDevice) :
    (writeFlashPage addr opens erases data d).ops = d.ops ++ pageOps addr opens erases := by
  cases opens <;> cases erases <;>
    simp [writeFlashPage, pageOps, doFlashExitXip, doFlashEraseSector, doFlashPageProgram]

theorem erasedOnce_pageOps_erases (ops : List FlashOp) (a : Word) (opens : Bool) :
    ErasedOnce (ops ++ pageOps a opens true) ↔
      ErasedOnce ops ∧ ∀ b, .pageProgram b ∈ ops → ¬SameSector a b := by
  have hsame := sameSector_sectorOf a
  have hiff (b : Word) : SameSector (sectorOf a) b ↔ SameSector a b :=
    ⟨fun h => hsame.symm.trans h, fun h => hsame.trans h⟩
  have hpage (l : List FlashOp) :
      ErasedOnce (l ++ [.eraseSector (sectorOf a)] ++ [.pageProgram a]) ↔
        ErasedOnce l ∧ ∀ b, .pageProgram b ∈ l → ¬SameSector a b := by
    rw [erasedOnce_program, erasedOnce_erase]
    simp only [hiff]
    exact and_iff_left ⟨sectorOf a, by simp, hsame⟩
  cases opens with
  | false =>
    rw [show ops ++ pageOps a false true =
      ops ++ [.eraseSector (sectorOf a)] ++ [.pageProgram a] by simp [pageOps], hpage]
  | true =>
    rw [show ops ++ pageOps a true true =
      ops ++ [.exitXip] ++ [.eraseSector (sectorOf a)] ++ [.pageProgram a] by simp [pageOps],
      hpage, erasedOnce_exitXip]
    simp

theorem erasedOnce_pageOps (ops : List FlashOp) (a : Word) (opens : Bool) :
    ErasedOnce (ops ++ pageOps a opens false) ↔
      ErasedOnce ops ∧ ∃ s, .eraseSector s ∈ ops ∧ SameSector s a := by
  cases opens with
  | false => exact erasedOnce_program ops a
  | true =>
    rw [show ops ++ pageOps a true false = ops ++ [.exitXip] ++ [.pageProgram a] by
      simp [pageOps], erasedOnce_program, erasedOnce_exitXip]
    simp

theorem inRange_sub_base {a x base : Word} {n : ℕ} :
    Memory.InRange (a - base) n (x - base) ↔ Memory.InRange a n x := by
  rw [Memory.InRange, Memory.InRange, show x - base - (a - base) = x - a by bv_omega]

/-- The addresses of a sector. -/
theorem inRange_sectorOf (a x : Word) :
    Memory.InRange (sectorOf a) 4096 x ↔ SameSector a x := by
  have hs := sectorOf_toNat a
  have ha := a.isLt
  rw [Memory.inRange_iff (by omega), hs, SameSector]
  omega

/-- The cells a task leaves : those of its page hold the bytes, if they were erased before
or are erased by the task. -/
theorem writeFlashPage_cells_page {a x : Word} {opens erases : Bool} {data : ℕ → Byte}
    {d : FlashDevice} (hx : Memory.InRange a 256 x)
    (hblank : erases = false → d.cells (x - xipMainBase) = 0xff) (hsector : SameSector a x) :
    (writeFlashPage a opens erases data d).cells (x - xipMainBase) = data (x - a).toNat := by
  have hpage : Memory.InRange (a - xipMainBase) 256 (x - xipMainBase) := inRange_sub_base.2 hx
  have hoff : x - xipMainBase - (a - xipMainBase) = x - a := by bv_omega
  rw [← hoff]
  refine Memory.program_of_erased hpage ?_
  cases erases with
  | false =>
    cases opens with
    | false => exact hblank rfl
    | true => exact hblank rfl
  | true => exact Memory.fill_of_inRange (inRange_sub_base.2 ((inRange_sectorOf a x).2 hsector))

/-- Outside its page a task erases the sector or leaves the cells alone. -/
theorem writeFlashPage_cells_other {a x : Word} {opens erases : Bool} {data : ℕ → Byte}
    {d : FlashDevice} (hx : ¬Memory.InRange a 256 x) :
    (writeFlashPage a opens erases data d).cells (x - xipMainBase) =
      if erases = true ∧ SameSector a x then 0xff else d.cells (x - xipMainBase) := by
  have hpage : ¬Memory.InRange (a - xipMainBase) 256 (x - xipMainBase) :=
    fun h => hx (inRange_sub_base.1 h)
  refine (Memory.program_of_not_inRange hpage).trans ?_
  have hcells (d' : FlashDevice) : (doFlashEraseSector (sectorOf a) d').1.cells (x - xipMainBase) =
      if SameSector a x then 0xff else d'.cells (x - xipMainBase) := by
    have hiff : Memory.InRange (sectorOf a - xipMainBase) 4096 (x - xipMainBase) ↔
        SameSector a x := inRange_sub_base.trans (inRange_sectorOf a x)
    by_cases hs : SameSector a x
    · rw [if_pos hs]
      exact Memory.fill_of_inRange (hiff.2 hs)
    · rw [if_neg hs]
      exact Memory.fill_of_not_inRange (mt hiff.1 hs)
  cases erases with
  | false =>
    rw [if_neg (by simp)]
    cases opens <;> rfl
  | true =>
    simp only [true_and]
    cases opens with
    | false => exact hcells d
    | true => exact hcells (doFlashExitXip d).1

/-- The worker's turn on a page of flash that is the latest one queued. -/
theorem work_flashPage (env : Env) {d : VirtualDisk} {uf2 : Uf2Block} {token : Word}
    {opens erases : Bool} (hfull : d.virtualDiskQueue.full = true)
    (htask : d.virtualDiskQueue.task = pageTask uf2 token opens erases)
    (henabled : d.virtualDiskQueue.disable = false) (hrebooting : d.rebooting = false)
    (hrom : d.flashFuncs = .rom) (hflash : uf2.flash = true) (hram : uf2.ram = false)
    (haligned : uf2.targetAddr.toNat % 256 = 0) (htoken : d.uf2Info.token = token) :
    (work env d).mem = d.mem ∧
      (work env d).flash = writeFlashPage uf2.targetAddr opens erases d.sectorBuf.data d.flash ∧
      (work env d).flashFuncs = .rom ∧ (work env d).virtualDiskQueue.disable = false ∧
      ((work env d).rebooting, (work env d).reboots) =
        if d.uf2Info.validBlockCount = d.uf2Info.numBlocks then
          (true, d.reboots ++ [completionReboot d.uf2Info])
        else (false, d.reboots) := by
  have hexec := executeTask_flashPage env token opens erases (m := d.taken.toMachine)
    hrebooting hrom hflash hram haligned
  rw [← htask] at hexec
  have htoken' : d.virtualDiskQueue.task.token = d.uf2Info.token := by rw [htask, htoken]; rfl
  obtain ⟨hmem, hchip, hfuncs, hqueue, hout⟩ := reboot_cases d.uf2Info
    { d.taken.toMachine with
        lastMutationSource := .virtualDisk
        flash := writeFlashPage uf2.targetAddr opens erases d.taken.sectorBuf.data d.taken.flash }
  rw [work_of_ok env hfull henabled htoken' hexec]
  refine ⟨hmem, hchip, hfuncs.trans hrom,
    (congrArg AsyncTaskQueue.disable hqueue).trans henabled, hout.trans ?_⟩
  simp only [VirtualDisk.taken, hrebooting]

/-! ## Images for flash -/

/-- A UF2 image whose blocks go to different pages of flash. -/
structure FlashImage extends Image where
  data : Word → ℕ → Byte
  isFlash : toImage.ram = false
  fits : toImage.numBlocks.toNat ≤ capacity false
  flash : ∀ b < toImage.numBlocks,
    0x10000000 ≤ (toImage.addr b).toNat ∧ (toImage.addr b).toNat + 256 ≤ 0x20000000
  aligned : ∀ b < toImage.numBlocks, (toImage.addr b).toNat % 256 = 0
  distinct : ∀ b < toImage.numBlocks, ∀ c < toImage.numBlocks,
    toImage.addr b = toImage.addr c → b = c

namespace FlashImage

variable {img : FlashImage}

/-- The sector is a block of the image, with its data. -/
structure Has (img : FlashImage) (uf2 : Uf2Block) : Prop extends img.toImage.Has uf2 where
  data : ∀ k < 256, uf2.data k = img.data uf2.blockNo k

theorem uf2_flash {uf2 : Uf2Block} (h : img.toImage.Has uf2) : uf2.flash = true := by
  have hflash := img.flash _ h.lt
  rw [Uf2Block.flash, h.addr, Bool.and_eq_true, isAddressFlash_iff, isAddressFlash_iff,
    BitVec.toNat_add, show flashPageMask.toNat = 255 from rfl]
  omega

/-- The image fits, and its blocks are no garbage. -/
theorem acceptable (img : FlashImage) : img.toImage.Acceptable where
  fits := by
    rw [img.isFlash]
    exact img.fits
  notGarbage uf2 h := by
    have hn : uf2.numBlocks ≠ 0 := h.numBlocks ▸ img.pos
    have hpage : uf2.targetAddr &&& flashPageMask = 0 := by
      rw [and_pageMask_eq_zero, h.addr]
      exact img.aligned _ h.lt
    simpa [Uf2Block.garbage, uf2_flash h, hpage] using hn

/-- An address of a page is in the sector of the page. -/
theorem sameSector_of_inRange {b : Word} (hb : b < img.numBlocks) {x : Word}
    (hx : Memory.InRange (img.addr b) 256 x) : SameSector (img.addr b) x := by
  have hflash := img.flash b hb
  have haligned := img.aligned b hb
  rw [Memory.inRange_iff (by omega)] at hx
  unfold SameSector
  omega

/-- The pages of different blocks are disjoint. -/
theorem disjoint_pages {b c : Word} (hb : b < img.numBlocks) (hc : c < img.numBlocks)
    (hne : b ≠ c) : Memory.Disjoint (img.addr b) 256 (img.addr c) 256 := by
  intro x hx hx'
  have hflash := img.flash b hb
  have hflash' := img.flash c hc
  have haligned := img.aligned b hb
  have haligned' := img.aligned c hc
  rw [Memory.inRange_iff (by omega)] at hx hx'
  refine hne (img.distinct b hb c hc (BitVec.eq_of_toNat_eq ?_))
  omega

/-! ## Groups and sectors -/

/-- The mark that a group had before and keeps when the marks are cleared. -/
def stale (d₀ : VirtualDisk) (p : ℕ) : Bool :=
  decide (7704 ≤ p) && d₀.testBitmap (.mem flashClearedPagesBase) p

/-- The block is the first of its group of 16 to arrive after the deliveries `pre`. -/
def FirstOfGroup (d₀ : VirtualDisk) (pre : List (Uf2Block × Word)) (b : Word) : Prop :=
  stale d₀ (b.toNat / 16) = false ∧ ∀ c ∈ Image.seen pre, c.toNat / 16 ≠ b.toNat / 16

/-- The block is the first of its sector to arrive after the deliveries `pre`. -/
def FirstOfSector (img : FlashImage) (pre : List (Uf2Block × Word)) (b : Word) : Prop :=
  ∀ c ∈ Image.seen pre, ¬SameSector (img.addr c) (img.addr b)

/-- In the order in which the blocks arrive, the first of a group is the first of a sector,
and the other way round. -/
def GroupsAreSectors (img : FlashImage) (d₀ : VirtualDisk) (es : List (Uf2Block × Word)) : Prop :=
  ∀ pre s post, es = pre ++ s :: post → s.1.forRp2040 = true →
    s.1.blockNo ∉ Image.seen pre →
      (FirstOfGroup d₀ pre s.1.blockNo ↔ img.FirstOfSector pre s.1.blockNo)

theorem groupsAreSectors_nil (d₀ : VirtualDisk) : img.GroupsAreSectors d₀ [] := by
  intro pre s post h
  simp at h

theorem groupsAreSectors_append_singleton (d₀ : VirtualDisk) (es : List (Uf2Block × Word))
    (s : Uf2Block × Word) : img.GroupsAreSectors d₀ (es ++ [s]) ↔
      img.GroupsAreSectors d₀ es ∧ (s.1.forRp2040 = true → s.1.blockNo ∉ Image.seen es →
        (FirstOfGroup d₀ es s.1.blockNo ↔ img.FirstOfSector es s.1.blockNo)) := by
  constructor
  · intro h
    refine ⟨fun pre s' post heq => ?_, h es s [] rfl⟩
    exact h pre s' (post ++ [s]) (by simp [heq])
  · rintro ⟨h, hs⟩ pre s' post heq
    rcases append_singleton_eq_append_cons.1 heq with ⟨rfl, rfl, -⟩ | ⟨post', -, heq'⟩
    · exact hs
    · exact h pre s' post' heq'

/-! ## The chip -/

/-- What the chip has done and holds once the blocks of the deliveries `es` are written. -/
structure Stored (img : FlashImage) (d₀ : VirtualDisk) (f : FlashDevice)
    (es : List (Uf2Block × Word)) : Prop where
  ops : ∃ ops, f.ops = d₀.flash.ops ++ ops ∧ (ErasedOnce ops ↔ img.GroupsAreSectors d₀ es) ∧
    (∀ a, .pageProgram a ∈ ops ↔ ∃ c ∈ Image.seen es, img.addr c = a) ∧
    (∀ s, .eraseSector s ∈ ops → ∃ c ∈ Image.seen es, SameSector s (img.addr c))
  data : img.GroupsAreSectors d₀ es → ∀ c ∈ Image.seen es, ∀ x,
    Memory.InRange (img.addr c) 256 x →
      f.cells (x - xipMainBase) = img.data c (x - img.addr c).toNat
  blank : img.GroupsAreSectors d₀ es → ∀ x, (∃ c ∈ Image.seen es, SameSector (img.addr c) x) →
    (∀ c ∈ Image.seen es, ¬Memory.InRange (img.addr c) 256 x) → f.cells (x - xipMainBase) = 0xff

section Chip

variable {d₀ : VirtualDisk} {f : FlashDevice} {es : List (Uf2Block × Word)}

theorem Stored.initial (img : FlashImage) (d₀ : VirtualDisk) : img.Stored d₀ d₀.flash [] where
  ops := ⟨[], by simp, by simp [erasedOnce_nil, groupsAreSectors_nil], by simp [Image.seen],
    by simp⟩
  data := by rintro - _ ⟨⟩
  blank := by rintro - _ ⟨_, ⟨⟩, -⟩

/-- Deliveries of no new block. -/
theorem Stored.congr {es' : List (Uf2Block × Word)} (h : img.Stored d₀ f es)
    (hseen : ∀ b, b ∈ Image.seen es' ↔ b ∈ Image.seen es)
    (hgroups : img.GroupsAreSectors d₀ es' ↔ img.GroupsAreSectors d₀ es) :
    img.Stored d₀ f es' where
  ops := by simpa only [hseen, hgroups] using h.ops
  data := by simpa only [hseen, hgroups] using h.data
  blank := by simpa only [hseen, hgroups] using h.blank

section Page

variable {uf2 : Uf2Block} {token : Word} {opens erases : Bool}

/-- A new block of an image is safe to write when its group and its sector are both new, or
both are not. -/
theorem erasedOnce_page (hgroup : erases = true ↔ FirstOfGroup d₀ es uf2.blockNo)
    {ops : List FlashOp} (hsafe : ErasedOnce ops ↔ img.GroupsAreSectors d₀ es)
    (hprogram : ∀ a, .pageProgram a ∈ ops ↔ ∃ c ∈ Image.seen es, img.addr c = a)
    (herase : ∀ s, .eraseSector s ∈ ops → ∃ c ∈ Image.seen es, SameSector s (img.addr c)) :
    ErasedOnce (ops ++ pageOps (img.addr uf2.blockNo) opens erases) ↔
      img.GroupsAreSectors d₀ es ∧
        (FirstOfGroup d₀ es uf2.blockNo ↔ img.FirstOfSector es uf2.blockNo) := by
  rw [← hgroup, ← hsafe]
  cases erases with
  | true =>
    rw [erasedOnce_pageOps_erases]
    refine and_congr_right fun _ => ?_
    simp only [true_iff, FirstOfSector]
    constructor
    · intro hfirst c hc hsame
      exact hfirst _ ((hprogram _).2 ⟨c, hc, rfl⟩) hsame.symm
    · intro hfirst a ha hsame
      obtain ⟨c, hc, rfl⟩ := (hprogram a).1 ha
      exact hfirst c hc hsame.symm
  | false =>
    rw [erasedOnce_pageOps]
    refine and_congr_right fun honce => ?_
    simp only [Bool.false_eq_true, false_iff, FirstOfSector, not_forall, not_not]
    constructor
    · rintro ⟨s, hs, hsame⟩
      obtain ⟨c, hc, hsame'⟩ := herase s hs
      exact ⟨c, hc, hsame'.symm.trans hsame⟩
    · rintro ⟨c, hc, hsame⟩
      -- the page of the other block lies in a sector that was erased
      obtain ⟨pre, post, hops⟩ := List.append_of_mem ((hprogram _).2 ⟨c, hc, rfl⟩)
      obtain ⟨s, hs, hsame'⟩ := honce.erased pre _ post hops
      exact ⟨s, by simp [hops, hs], hsame'.trans hsame⟩

/-- The task of a new block. -/
theorem Stored.page (h : img.Stored d₀ f es) (hlt : ∀ c ∈ Image.seen es, c < img.numBlocks)
    (hhas : img.Has uf2) (hfor : uf2.forRp2040 = true) (hnew : uf2.blockNo ∉ Image.seen es)
    (hgroup : erases = true ↔ FirstOfGroup d₀ es uf2.blockNo) :
    img.Stored d₀ (writeFlashPage (img.addr uf2.blockNo) opens erases uf2.data f)
      (es ++ [(uf2, token)]) := by
  have hmem (c : Word) :
      c ∈ Image.seen (es ++ [(uf2, token)]) ↔ c ∈ Image.seen es ∨ c = uf2.blockNo := by
    simp [Image.seen, hfor]
  have hgroups : img.GroupsAreSectors d₀ (es ++ [(uf2, token)]) ↔ img.GroupsAreSectors d₀ es ∧
      (FirstOfGroup d₀ es uf2.blockNo ↔ img.FirstOfSector es uf2.blockNo) := by
    rw [groupsAreSectors_append_singleton]
    exact and_congr_right fun _ => ⟨fun h => h hfor hnew, fun h _ _ => h⟩
  have hne {c : Word} (hc : c ∈ Image.seen es) : c ≠ uf2.blockNo := fun heq => hnew (heq ▸ hc)
  have hdisjoint {c : Word} (hc : c ∈ Image.seen es) :=
    img.disjoint_pages (hlt c hc) hhas.lt (hne hc)
  refine ⟨?_, fun hg c hc x hx => ?_, fun hg x hx hout => ?_⟩
  · obtain ⟨ops, hops, hsafe, hprogram, herase⟩ := h.ops
    refine ⟨ops ++ pageOps (img.addr uf2.blockNo) opens erases, ?_, ?_, ?_, ?_⟩
    · rw [writeFlashPage_ops, hops, List.append_assoc]
    · rw [hgroups]
      exact erasedOnce_page hgroup hsafe hprogram herase
    · intro a
      rw [List.mem_append, hprogram]
      cases opens <;> cases erases <;> simp [pageOps, hmem, or_and_right, exists_or, eq_comm]
    · intro s hs
      rcases List.mem_append.1 hs with hs | hs
      · obtain ⟨c, hc, hsame⟩ := herase s hs
        exact ⟨c, (hmem c).2 (.inl hc), hsame⟩
      · have hs' : s = sectorOf (img.addr uf2.blockNo) := by
          cases erases with
          | false => cases opens <;> simp [pageOps] at hs
          | true => cases opens <;> simpa [pageOps] using hs
        exact ⟨uf2.blockNo, (hmem _).2 (.inr rfl), hs' ▸ sameSector_sectorOf _⟩
  · obtain ⟨hg, hfirst⟩ := hgroups.1 hg
    rcases (hmem c).1 hc with hc | rfl
    · rw [writeFlashPage_cells_other (hdisjoint hc x hx), if_neg]
      · exact h.data hg c hc x hx
      · rintro ⟨herases, hsame⟩
        exact hfirst.1 (hgroup.1 herases) c hc
          ((sameSector_of_inRange (hlt c hc) hx).trans hsame.symm)
    · have hsame := sameSector_of_inRange hhas.lt hx
      rw [writeFlashPage_cells_page hx ?_ hsame]
      · refine hhas.data _ ?_
        exact hx
      · intro herases
        obtain ⟨c, hc, hsame'⟩ : ∃ c ∈ Image.seen es,
            SameSector (img.addr c) (img.addr uf2.blockNo) := by
          have hnot : ¬img.FirstOfSector es uf2.blockNo := fun hf => by
            rw [hgroup.2 (hfirst.2 hf)] at herases
            cases herases
          simpa [FirstOfSector] using hnot
        exact h.blank hg x ⟨c, hc, hsame'.trans hsame⟩ fun c' hc' hx' => hdisjoint hc' x hx' hx
  · obtain ⟨hg, hfirst⟩ := hgroups.1 hg
    rw [writeFlashPage_cells_other (hout _ ((hmem _).2 (.inr rfl)))]
    by_cases hs : erases = true ∧ SameSector (img.addr uf2.blockNo) x
    · rw [if_pos hs]
    · rw [if_neg hs]
      refine h.blank hg x ?_ fun c hc => hout c ((hmem c).2 (.inl hc))
      obtain ⟨c, hc, hsame⟩ := hx
      rcases (hmem c).1 hc with hc | rfl
      · exact ⟨c, hc, hsame⟩
      · have hnot : ¬img.FirstOfSector es uf2.blockNo := fun hf =>
          hs ⟨hgroup.2 (hfirst.2 hf), hsame⟩
        obtain ⟨c', hc', hsame'⟩ : ∃ c ∈ Image.seen es,
            SameSector (img.addr c) (img.addr uf2.blockNo) := by
          simpa [FirstOfSector] using hnot
        exact ⟨c', hc', hsame'.trans hsame⟩

end Page

end Chip

/-! ## Deliveries -/

/-- The disk `d` has got the deliveries `es` of the image since it was `d₀`. -/
structure Written (img : FlashImage) (d₀ d : VirtualDisk) (es : List (Uf2Block × Word))
    (t : Option Transfer) : Prop extends img.toImage.Delivered d (Image.seen es) t where
  lt : ∀ b ∈ Image.seen es, b < img.numBlocks
  rom : d.flashFuncs = .rom
  fresh : t = none → d.mem = d₀.mem
  marks : ∀ t' ∈ t, ∀ p < 7710, d.testBitmap (.mem flashClearedPagesBase) p =
    (stale d₀ p || decide (∃ c ∈ Image.seen es, c.toNat / 16 = p))
  stored : img.Stored d₀ d.flash es
  running : (∃ b < img.numBlocks, b ∉ Image.seen es) →
    d.rebooting = false ∧ d.reboots = d₀.reboots

section Step

variable {d₀ d : VirtualDisk} {es : List (Uf2Block × Word)} {t : Option Transfer}
  {uf2 : Uf2Block} {token : Word}

/-- A block that arrives finds a transfer, or opens one and is the first to arrive. -/
theorem Written.opens_iff (h : Written img d₀ d es t) (hhas : img.Has uf2) :
    opens uf2 d = true ↔ t = none := by
  have hn : uf2.numBlocks = img.numBlocks := hhas.numBlocks
  cases t with
  | none =>
    have hne : d.uf2Info.numBlocks ≠ img.numBlocks := h.refines img.pos
    simp [opens, hn, hne]
  | some t =>
    have href : Tracks d t := h.refines
    have heq : d.uf2Info.numBlocks = img.numBlocks :=
      BitVec.eq_of_toNat_eq (href.numBlocks.trans (h.holds t rfl).numBlocks)
    simp [opens, hn, heq]

/-- The marks a block that arrives finds. -/
theorem Written.marks_current (h : Written img d₀ d es t) (hhas : img.Has uf2) {p : ℕ}
    (hp : p < 7710) : (current uf2 d).testBitmap (.mem flashClearedPagesBase) p =
      (stale d₀ p || decide (∃ c ∈ Image.seen es, c.toNat / 16 = p)) := by
  have hram : uf2.ram = false := hhas.ram.trans img.isFlash
  cases t with
  | none =>
    have hopens := (h.opens_iff hhas).2 rfl
    have hnone : ¬∃ c ∈ Image.seen es, c.toNat / 16 = p := by
      rintro ⟨c, hc, -⟩
      have hc' := (h.numbers c (h.lt c hc)).2 hc
      cases hc'
    have hclear := testBitmap_clearedPages_resetUf2Info uf2 d (uf2_flash hhas.toHas) hram hp
    rw [current, if_pos hopens, decide_eq_false hnone, Bool.or_false, stale]
    refine hclear.trans ?_
    rw [VirtualDisk.testBitmap, VirtualDisk.testBitmap, h.fresh rfl]
  | some t =>
    have hopens : opens uf2 d ≠ true := fun ho => by cases (h.opens_iff hhas).1 ho
    rw [current, if_neg hopens]
    exact h.marks t rfl p hp

/-- The task of a block that arrives erases if the block is the first of its group. -/
theorem Written.erases_iff (h : Written img d₀ d es t) (hhas : img.Has uf2) :
    erases uf2 (current uf2 d) = true ↔ FirstOfGroup d₀ es uf2.blockNo := by
  have hram : uf2.ram = false := hhas.ram.trans img.isFlash
  have hlt : uf2.blockNo.toNat < img.numBlocks.toNat := hhas.lt
  have hfits := img.fits
  rw [capacity_false] at hfits
  rw [erases, h.marks_current hhas (by omega), hram, FirstOfGroup]
  simp

/-- A block that arrived before changes nothing of what has been written. -/
theorem Written.duplicate {t' : Transfer} (h : Written img d₀ d es t) (hhas : img.Has uf2)
    (hfor : uf2.forRp2040 = true) (hin : uf2.blockNo ∈ Image.seen es)
    (hdelivered : img.toImage.Delivered (prepared uf2 token (opens uf2 d) (current uf2 d))
      (Image.seen es ++ [uf2.blockNo]) (some t'))
    (hdevice : (prepared uf2 token (opens uf2 d) (current uf2 d)).device = d.device) :
    Written img d₀ (prepared uf2 token (opens uf2 d) (current uf2 d)) (es ++ [(uf2, token)])
      (some t') := by
  have hseen : Image.seen (es ++ [(uf2, token)]) = Image.seen es ++ [uf2.blockNo] := by
    simp [Image.seen, hfor]
  have hmem (b : Word) : b ∈ Image.seen (es ++ [(uf2, token)]) ↔ b ∈ Image.seen es := by
    rw [hseen, List.mem_append, List.mem_singleton]
    constructor
    · rintro (hb | rfl)
      · exact hb
      · exact hin
    · exact .inl
  have hgroups : img.GroupsAreSectors d₀ (es ++ [(uf2, token)]) ↔ img.GroupsAreSectors d₀ es := by
    rw [groupsAreSectors_append_singleton]
    exact and_iff_left fun _ hnew => absurd hin hnew
  simp only [VirtualDisk.device, Prod.mk.injEq] at hdevice
  obtain ⟨hflash, -, -, hfuncs, -, -, -, hrebooting, hreboots, -⟩ := hdevice
  exact {
    toDelivered := by
      rw [hseen]
      exact hdelivered
    lt := fun b hb => h.lt b ((hmem b).1 hb)
    rom := hfuncs.trans h.rom
    fresh := fun h0 => by cases h0
    marks := by
      intro _ _ p hp
      rw [testBitmap_prepared, h.marks_current hhas hp]
      simp only [hmem]
    stored := by
      rw [hflash]
      exact h.stored.congr hmem hgroups
    running := by
      simp only [hrebooting, hreboots, hmem]
      exact h.running }

/-- A new block is written, and the device reboots if it was the last one missing. -/
theorem Written.queued (env : Env) {t' : Transfer} (h : Written img d₀ d es t)
    (hbuf : d.sectorBuf = uf2) (hhas : img.Has uf2) (hfor : uf2.forRp2040 = true)
    (hnew : uf2.blockNo ∉ Image.seen es) (hholds : img.toImage.Holds t')
    (htracks : Tracks (queueBlock uf2 token (opens uf2 d) (current uf2 d)) t')
    (hdelivered : img.toImage.Delivered (queueBlock uf2 token (opens uf2 d) (current uf2 d))
      (Image.seen es ++ [uf2.blockNo]) (some t'))
    (hdevice : (queueBlock uf2 token (opens uf2 d) (current uf2 d)).device = d.device) :
    Written img d₀ (work env (queueBlock uf2 token (opens uf2 d) (current uf2 d)))
      (es ++ [(uf2, token)]) (some t') := by
  have hseen : Image.seen (es ++ [(uf2, token)]) = Image.seen es ++ [uf2.blockNo] := by
    simp [Image.seen, hfor]
  have hram : uf2.ram = false := hhas.ram.trans img.isFlash
  have hlt : uf2.blockNo.toNat < img.numBlocks.toNat := hhas.lt
  have hfits := img.fits
  have hmarks {p : ℕ} (hp : p < 7710) :=
    testBitmap_clearedPages_markBlock uf2 (current uf2 d) hram (hram ▸ by omega) hp
  have haddr : uf2.targetAddr = img.addr uf2.blockNo := hhas.addr
  have haligned : uf2.targetAddr.toNat % 256 = 0 := haddr ▸ img.aligned _ hhas.lt
  have herases := h.erases_iff hhas
  have hqueue : (queueBlock uf2 token (opens uf2 d) (current uf2 d)).virtualDiskQueue =
      { task := pageTask uf2 token (opens uf2 d) (erases uf2 (current uf2 d)), full := true,
        disable := (current uf2 d).virtualDiskQueue.disable } := rfl
  have htoken : (queueBlock uf2 token (opens uf2 d) (current uf2 d)).uf2Info.token = token := rfl
  have hbits (p : BitmapPtr) (i : ℕ) :=
    testBitmap_queueBlock uf2 token (opens uf2 d) (current uf2 d) p i
  set q := queueBlock uf2 token (opens uf2 d) (current uf2 d) with hq
  simp only [VirtualDisk.device, Prod.mk.injEq] at hdevice
  obtain ⟨hchip, hsector, -, hfuncs, -, -, -, hrebooting, hreboots, -⟩ := hdevice
  have hrunning := h.running ⟨uf2.blockNo, hhas.lt, hnew⟩
  have hcomplete : q.uf2Info.validBlockCount = q.uf2Info.numBlocks ↔
      ∀ b < img.numBlocks, b ∈ Image.seen es ++ [uf2.blockNo] := by
    rw [htracks.complete_iff, hholds.complete_iff]
    exact forall₂_congr hdelivered.numbers
  obtain ⟨hmem, hflash, hrom, henabled, hout⟩ := work_flashPage env (d := q)
    (by rw [hqueue]) (by rw [hqueue]) hdelivered.enabled (hrebooting.trans hrunning.1)
    (hfuncs.trans h.rom) (uf2_flash hhas.toHas) hram haligned htoken
  have hwork (p : BitmapPtr) (i : ℕ) : (work env q).testBitmap p i = q.testBitmap p i := by
    cases p with
    | null => exact congrArg (Memory.testBit · 0 i) hmem
    | uf2ValidRamBlocks =>
      exact congrArg (Memory.testBit · 0 i) (work_uf2ValidRamBlocks env q)
    | mem base => exact congrArg (Memory.testBit · base i) hmem
  exact {
    toDelivered := by
      rw [hseen]
      exact hdelivered.congr (work_uf2Info env q) (fun i => hwork _ i) henabled
    lt := by
      rw [hseen]
      intro b hb
      rcases List.mem_append.1 hb with hb | hb
      · exact h.lt b hb
      · exact List.mem_singleton.1 hb ▸ hhas.lt
    rom := hrom
    fresh := fun h0 => by cases h0
    marks := by
      intro _ _ p hp
      rw [hwork, hbits, hmarks hp, h.marks_current hhas hp, Bool.or_assoc, ← Bool.decide_or]
      congr 2
      simp only [hseen, List.mem_append, List.mem_singleton, or_and_right, exists_or,
        exists_eq_left, eq_comm (a := p)]
    stored := by
      rw [hflash, hchip, hsector, hbuf, haddr]
      exact h.stored.page h.lt hhas hfor hnew herases
    running := by
      rw [hseen]
      rintro ⟨b, hb, hmissing⟩
      rw [if_neg fun hcount => hmissing (hcomplete.1 hcount b hb), Prod.mk.injEq, hreboots,
        hrunning.2] at hout
      exact hout }

end Step

/-- One delivery. -/
theorem Written.deliver (env : Env) {d₀ d : VirtualDisk} {es : List (Uf2Block × Word)}
    {t : Option Transfer} (h : Written img d₀ d es t) (s : Uf2Block × Word)
    (hhas : s.1.forRp2040 = true → img.Has s.1) :
    ∃ t', Written img d₀ (deliver env d s) (es ++ [s]) t' := by
  obtain ⟨uf2, token⟩ := s
  have hfilled : Written img d₀ (d.filled uf2) es t :=
    { h with toDelivered := h.toDelivered.filled uf2 }
  unfold PicoBootrom.deliver
  cases hfor : uf2.forRp2040 with
  | false =>
    have hseen : Image.seen (es ++ [(uf2, token)]) = Image.seen es := by
      simp [Image.seen, hfor]
    have hgroups : img.GroupsAreSectors d₀ (es ++ [(uf2, token)]) ↔
        img.GroupsAreSectors d₀ es := by
      rw [groupsAreSectors_append_singleton]
      exact and_iff_left fun hyes => absurd (hyes.symm.trans hfor) Bool.noConfusion
    refine ⟨t, ?_⟩
    simp only [receiveSector_of_foreign token d hfor, Bool.false_eq_true, if_false]
    exact {
      toDelivered := by
        rw [hseen]
        exact hfilled.toDelivered
      lt := hseen ▸ hfilled.lt
      rom := hfilled.rom
      fresh := hfilled.fresh
      marks := hseen ▸ hfilled.marks
      stored := hfilled.stored.congr (fun b => by rw [hseen]) hgroups
      running := hseen ▸ hfilled.running }
  | true =>
    have hhas : img.Has uf2 := hhas hfor
    have hdevice := receiveSector_device uf2 token d
    have hr := h.toDelivered.receive img.acceptable hhas.toHas hfor token
    generalize receiveSector uf2 token d = r at hr hdevice
    cases hr with
    | @duplicate t' hin hqueued hdelivered =>
      exact ⟨some t', hfilled.duplicate hhas hfor hin hdelivered hdevice⟩
    | @queued t' hnew hqueued hholds htracks hdelivered =>
      exact ⟨some t', hfilled.queued env rfl hhas hfor hnew hholds htracks hdelivered hdevice⟩

/-- A run of deliveries. -/
theorem Written.run (env : Env) {d₀ d : VirtualDisk} {pre : List (Uf2Block × Word)}
    {t : Option Transfer} (h : Written img d₀ d pre t) {es : List (Uf2Block × Word)}
    (hhas : ∀ s ∈ es, s.1.forRp2040 = true → img.Has s.1) :
    ∃ t', Written img d₀ (Run.after (PicoBootrom.deliver env) d es) (pre ++ es) t' := by
  induction es generalizing d pre t with
  | nil => exact ⟨t, by simpa using h⟩
  | cons s es ih =>
    obtain ⟨t₁, h₁⟩ := h.deliver env s (hhas s List.mem_cons_self)
    obtain ⟨t₂, h₂⟩ := ih h₁ fun s' hs' => hhas s' (List.mem_cons_of_mem s hs')
    exact ⟨t₂, by simpa using h₂⟩

/-- Before the image arrives nothing is written. -/
theorem Written.initial {d : VirtualDisk} (hstart : d.uf2Info.numBlocks ≠ img.numBlocks)
    (henabled : d.virtualDiskQueue.disable = false) (hrunning : d.rebooting = false)
    (hrom : d.flashFuncs = .rom) : Written img d d [] none where
  toDelivered := .initial hstart henabled
  lt := by rintro _ ⟨⟩
  rom := hrom
  fresh _ := rfl
  marks := by rintro _ ⟨⟩
  stored := .initial img d
  running _ := ⟨hrunning, rfl⟩

/-- What has happened once the sectors `es` were delivered to `d` : each page was programmed
in a sector erased since then and not erased again, and if the device rebooted, flash holds
the image. -/
structure WrittenSafely (env : Env) (img : FlashImage) (d : VirtualDisk)
    (es : List (Uf2Block × Word)) : Prop where
  once : ErasedOnce
    ((Run.after (PicoBootrom.deliver env) d es).flash.ops.drop d.flash.ops.length)
  image : (Run.after (PicoBootrom.deliver env) d es).reboots ≠ d.reboots →
    ∀ b < img.numBlocks, ∀ k < 256,
      (Run.after (PicoBootrom.deliver env) d es).flash.cells
        (img.addr b + BitVec.ofNat 32 k - xipMainBase) = img.data b k

end FlashImage

/-- An image for flash, its blocks delivered in any order and with duplicates and sectors of
other kinds in between, is written safely exactly when, in the order of arrival, the first
block of a group of 16 is the first block of a sector, and the other way round. -/
theorem flash_image_written_iff (env : Env) (img : FlashImage) (d : VirtualDisk)
    (es : List (Uf2Block × Word)) (hstart : d.uf2Info.numBlocks ≠ img.numBlocks)
    (henabled : d.virtualDiskQueue.disable = false) (hrunning : d.rebooting = false)
    (hrom : d.flashFuncs = .rom) (hhas : ∀ s ∈ es, s.1.forRp2040 = true → img.Has s.1) :
    FlashImage.WrittenSafely env img d es ↔ img.GroupsAreSectors d es := by
  have h0 := FlashImage.Written.initial hstart henabled hrunning hrom
  obtain ⟨t, h⟩ := h0.run env hhas
  rw [List.nil_append] at h
  obtain ⟨ops, hops, hsafe, -, -⟩ := h.stored.ops
  have hdrop : (Run.after (deliver env) d es).flash.ops.drop d.flash.ops.length = ops := by
    rw [hops, List.drop_left]
  constructor
  · intro hw
    exact hsafe.1 (hdrop ▸ hw.once)
  · intro hg
    refine ⟨hdrop ▸ hsafe.2 hg, fun hreboots b hb k hk => ?_⟩
    have hall : b ∈ Image.seen es := by
      by_contra hmissing
      exact hreboots (h.running ⟨b, hb, hmissing⟩).2
    rw [h.stored.data hg b hall _ (Memory.inRange_add hk), Memory.add_sub_self,
      BitVec.toNat_ofNat, Nat.mod_eq_of_lt (by omega)]

/-- Two pages of flash, of one sector or of two. -/
def pagePair (second : Word)
    (h : second = xipMainBase + 256 ∨ second = xipMainBase + flashSectorEraseSize) :
    FlashImage where
  ram := false
  numBlocks := 2
  addr b := if b = 0 then xipMainBase else second
  data _ _ := 1
  pos := by decide
  kind b _ := by rcases h with rfl | rfl <;> split <;> decide
  isFlash := rfl
  fits := by decide
  flash b _ := by rcases h with rfl | rfl <;> split <;> decide
  aligned b _ := by rcases h with rfl | rfl <;> split <;> decide
  distinct b hb c hc heq := by
    have htwo (b : Word) (hb : b < 2) : b = 0 ∨ b = 1 := by bv_omega
    rcases htwo b hb with rfl | rfl <;> rcases htwo c hc with rfl | rfl <;>
      rcases h with rfl | rfl <;> first | rfl | exact absurd heq (by decide)

/-- The two blocks of a pair of pages, in order. -/
def pairDelivery (second : Word) : List (Uf2Block × Word) :=
  [(uf2Block 2 0 xipMainBase fun _ => 1, 1), (uf2Block 2 1 second fun _ => 1, 2)]

theorem pagePair_has (second : Word)
    (h : second = xipMainBase + 256 ∨ second = xipMainBase + flashSectorEraseSize) :
    ∀ s ∈ pairDelivery second, s.1.forRp2040 = true → (pagePair second h).Has s.1 := by
  intro s hs _
  simp only [pairDelivery, List.mem_cons, List.not_mem_nil, or_false] at hs
  have hzero : (0 : Word) < 2 := by decide
  have hone : (1 : Word) < 2 := by decide
  rcases hs with rfl | rfl
  · exact { numBlocks := rfl, lt := hzero, addr := rfl, data := fun _ _ => rfl }
  · exact { numBlocks := rfl, lt := hone, addr := rfl, data := fun _ _ => rfl }

/-- The device at power-on, its flash not erased. -/
def powerOnFlashed : VirtualDisk :=
  { powerOn with flash := { cells := fun _ => 0, ops := [] } }

/-- Two pages of one sector, whose blocks are in one group. -/
theorem flash_image_written_iff_one_sector :
    FlashImage.WrittenSafely bareEnv (pagePair (xipMainBase + 256) (.inl rfl)) powerOnFlashed
      (pairDelivery (xipMainBase + 256)) := by
  refine (flash_image_written_iff bareEnv (pagePair (xipMainBase + 256) (.inl rfl))
    powerOnFlashed (pairDelivery (xipMainBase + 256)) (by decide) rfl rfl rfl
    (pagePair_has _ _)).2 ?_
  have hpair : pairDelivery (xipMainBase + 256) =
      [] ++ [(uf2Block 2 0 xipMainBase fun _ => 1, 1)] ++
        [(uf2Block 2 1 (xipMainBase + 256) fun _ => 1, 2)] := rfl
  have hseen : Image.seen ([] ++ [(uf2Block 2 0 xipMainBase fun _ => 1, 1)]) = [0] := by
    decide +kernel
  have hsame : SameSector xipMainBase (xipMainBase + 256) := by decide +kernel
  rw [hpair, FlashImage.groupsAreSectors_append_singleton,
    FlashImage.groupsAreSectors_append_singleton]
  refine ⟨⟨FlashImage.groupsAreSectors_nil _, fun _ _ => ?_⟩, fun _ _ => ?_⟩
  · exact iff_of_true ⟨by decide +kernel, by rintro _ ⟨⟩⟩ (by rintro _ ⟨⟩)
  · have hin : (0 : Word) ∈ Image.seen ([] ++ [(uf2Block 2 0 xipMainBase fun _ => 1, 1)]) := by
      rw [hseen]
      exact List.mem_singleton_self 0
    exact iff_of_false (fun h => h.2 0 hin rfl) fun h => h 0 hin hsame

/-- The pages of two sectors are in one group of blocks, so the second sector is not erased
and the old bytes remain. -/
theorem flash_image_second_sector_not_erased :
    (Run.after (deliver bareEnv) powerOnFlashed
        (pairDelivery (xipMainBase + flashSectorEraseSize))).reboots = [(0, sramEnd, 1000)] ∧
      ¬FlashImage.WrittenSafely bareEnv (pagePair (xipMainBase + flashSectorEraseSize) (.inr rfl))
        powerOnFlashed (pairDelivery (xipMainBase + flashSectorEraseSize)) := by
  have hreboots : (Run.after (deliver bareEnv) powerOnFlashed
      (pairDelivery (xipMainBase + flashSectorEraseSize))).reboots = [(0, sramEnd, 1000)] := by
    decide +kernel
  have hcell : (Run.after (deliver bareEnv) powerOnFlashed
      (pairDelivery (xipMainBase + flashSectorEraseSize))).flash.cells
        (xipMainBase + flashSectorEraseSize + BitVec.ofNat 32 0 - xipMainBase) = 0 := by
    decide +kernel
  refine ⟨hreboots, fun h => ?_⟩
  have himage := h.image (by rw [hreboots]; decide) 1 (by decide) 0 (by decide)
  cases hcell.symm.trans himage

end PicoBootrom
