import PicoBootrom.Uf2Ram
import Mathlib.Data.Fintype.Prod

/-!
# Loading an image into SRAM

An image whose blocks go to disjoint pages of SRAM is delivered sector by sector, each block
at least once and with foreign sectors in between. Whatever the order, each block is queued
once, RAM ends up holding the image, and the device reboots when the last block arrives that
had not been seen before.

The blocks fit the bitmap because that many disjoint pages fit SRAM : it has room for 1056
of them and the bitmap for 1280.
-/

/-- Disjoint intervals of length `w` between `lo` and `hi` take up no more than there is. -/
theorem Nat.mul_le_sub_of_disjoint {n w lo hi : ℕ} (base : Fin n → ℕ)
    (hlo : ∀ i, lo ≤ base i) (hhi : ∀ i, base i + w ≤ hi)
    (hdisj : ∀ i j, i ≠ j → ∀ k < w, ∀ l < w, base i + k ≠ base j + l) : n * w ≤ hi - lo := by
  let f : Fin n × Fin w → Fin (hi - lo) := fun p =>
    ⟨base p.1 + p.2 - lo, by have := hlo p.1; have := hhi p.1; omega⟩
  have hinj : Function.Injective f := by
    rintro ⟨i, k⟩ ⟨j, l⟩ h
    have hsum : base i + k = base j + l := by
      have hval := congrArg Fin.val h
      simp only [f] at hval
      have := hlo i
      have := hlo j
      omega
    have hij : i = j := by
      by_contra hne
      exact hdisj i j hne k k.isLt l l.isLt hsum
    subst hij
    have hkl : k = l := Fin.ext (by omega)
    rw [hkl]
  have hcard := Fintype.card_le_of_injective f hinj
  rwa [Fintype.card_prod, Fintype.card_fin, Fintype.card_fin, Fintype.card_fin] at hcard

namespace PicoBootrom

/-- A UF2 image whose blocks go to disjoint pages of SRAM. -/
structure SramImage where
  numBlocks : Word
  addr : Word → Word
  data : Word → ℕ → Byte
  pos : numBlocks ≠ 0
  sram : ∀ b < numBlocks, 0x20000000 ≤ (addr b).toNat ∧ (addr b).toNat + 256 ≤ 0x20042000
  disjoint : ∀ b < numBlocks, ∀ c < numBlocks, b ≠ c →
    Memory.Disjoint (addr b) 256 (addr c) 256

namespace SramImage

variable (img : SramImage)

theorem addr_add_toNat {b : Word} (hb : b < img.numBlocks) {k : ℕ} (hk : k ≤ 256) :
    (img.addr b + BitVec.ofNat 32 k).toNat = (img.addr b).toNat + k := by
  have hsram := img.sram b hb
  rw [BitVec.toNat_add, BitVec.toNat_ofNat, Nat.mod_eq_of_lt (show k < 2 ^ 32 by omega)]
  exact Nat.mod_eq_of_lt (by omega)

theorem isAddressRam_addr_add {b : Word} (hb : b < img.numBlocks) {k : ℕ} (hk : k ≤ 256) :
    isAddressRam (img.addr b + BitVec.ofNat 32 k) = true := by
  have hsram := img.sram b hb
  rw [isAddressRam_iff, img.addr_add_toNat hb hk]
  omega

theorem isAddressRam_addr {b : Word} (hb : b < img.numBlocks) :
    isAddressRam (img.addr b) = true := by
  have hsram := img.sram b hb
  rw [isAddressRam_iff]
  omega

/-- The image, without its data. -/
def toRamImage : RamImage where
  ram := true
  numBlocks := img.numBlocks
  addr := img.addr
  pos := img.pos
  kind b hb := by
    rw [img.isAddressRam_addr hb, Bool.true_and]
    exact img.isAddressRam_addr_add hb (k := 255) (by decide)
  isRam := rfl

/-- The image, as an image. -/
abbrev toImage : Image :=
  img.toRamImage.toImage

/-- The bytes of the pages are that many bytes of SRAM. -/
theorem packing : img.numBlocks.toNat * 256 ≤ 0x20042000 - 0x20000000 := by
  have hblock (i : Fin img.numBlocks.toNat) : BitVec.ofNat 32 i < img.numBlocks := by
    have := img.numBlocks.isLt
    rw [BitVec.lt_def, BitVec.toNat_ofNat, Nat.mod_eq_of_lt (by omega)]
    exact i.isLt
  refine Nat.mul_le_sub_of_disjoint (fun i => (img.addr (BitVec.ofNat 32 i)).toNat)
    (fun i => (img.sram _ (hblock i)).1) (fun i => (img.sram _ (hblock i)).2) ?_
  intro i j hij k hk l hl heq
  have hne : BitVec.ofNat 32 i.val ≠ BitVec.ofNat 32 j.val := by
    intro h
    have hn := img.numBlocks.isLt
    have hval := congrArg BitVec.toNat h
    rw [BitVec.toNat_ofNat, BitVec.toNat_ofNat, Nat.mod_eq_of_lt (by omega),
      Nat.mod_eq_of_lt (by omega)] at hval
    exact hij (Fin.ext hval)
  -- the shared address is in both pages
  have hshared : img.addr (BitVec.ofNat 32 i) + BitVec.ofNat 32 k =
      img.addr (BitVec.ofNat 32 j) + BitVec.ofNat 32 l := by
    rw [← BitVec.toNat_inj, img.addr_add_toNat (hblock i) (Nat.le_of_lt hk),
      img.addr_add_toNat (hblock j) (Nat.le_of_lt hl)]
    exact heq
  refine img.disjoint _ (hblock i) _ (hblock j) hne _ (Memory.inRange_add hk) ?_
  rw [hshared]
  exact Memory.inRange_add hl

theorem numBlocks_le : img.numBlocks.toNat ≤ capacity true := by
  have h := img.packing
  rw [capacity_true]
  omega

/-! ## The blocks of the image -/

/-- The sector is a block of the image, with its data. -/
structure Has (img : SramImage) (uf2 : Uf2Block) : Prop
    extends img.toImage.Has uf2 where
  data : ∀ k < 256, uf2.data k = img.data uf2.blockNo k

variable {img}

theorem not_flash {uf2 : Uf2Block} (h : img.toImage.Has uf2) : uf2.flash = false := by
  have haddr := img.sram uf2.blockNo h.lt
  have heq : uf2.targetAddr = img.addr uf2.blockNo := h.addr
  have hlast : isAddressFlash (uf2.targetAddr + flashPageMask) = false := by
    rw [Bool.eq_false_iff, ne_eq, isAddressFlash_iff, heq, BitVec.toNat_add,
      show flashPageMask.toNat = 255 from rfl]
    omega
  rw [Uf2Block.flash, hlast, Bool.and_false]

/-- The image fits, and its blocks are no garbage. -/
theorem acceptable (img : SramImage) : img.toImage.Acceptable where
  fits := img.numBlocks_le
  notGarbage uf2 h := by
    have hn : uf2.numBlocks ≠ 0 := by
      rw [h.numBlocks]
      exact img.pos
    have hram : uf2.ram = true := h.ram
    simpa [Uf2Block.garbage, hram, not_flash h] using hn

/-- A block of the image leaves memory alone until its task runs. -/
theorem Has.queueBlock_mem {uf2 : Uf2Block} (h : img.Has uf2) (token : Word) (opens : Bool)
    (d : VirtualDisk) : (queueBlock uf2 token opens (current uf2 d)).mem = d.mem := by
  have hram : uf2.ram = true := h.ram
  have hcur : (current uf2 d).mem = d.mem := by
    unfold current openTransfer resetUf2Info
    simp only [hram, not_flash h.toHas, if_true, Bool.false_eq_true, if_false]
    split <;> rfl
  rw [← hcur]
  unfold queueBlock markBlock erases
  simp only [hram]
  rfl

theorem Has.prepared_mem {uf2 : Uf2Block} (h : img.Has uf2) (token : Word) (opens : Bool)
    (d : VirtualDisk) : (prepared uf2 token opens (current uf2 d)).mem = d.mem := by
  have hram : uf2.ram = true := h.ram
  unfold prepared current openTransfer resetUf2Info
  simp only [hram, not_flash h.toHas, if_true, Bool.false_eq_true, if_false]
  split <;> rfl

theorem Has.pageTask_type {uf2 : Uf2Block} (h : img.Has uf2) (token : Word) (opens : Bool)
    (c : VirtualDisk) : (pageTask uf2 token opens (erases uf2 c)).type = atWrite := by
  have hram : uf2.ram = true := h.ram
  simp [pageTask, erases, hram, not_flash h.toHas]

/-! ## Loading -/

/-- The tasks queued by a run of deliveries. -/
def tasksQueued (env : Env) : VirtualDisk → List (Uf2Block × Word) → List AsyncTask
  | _, [] => []
  | d, s :: es =>
    let r := receiveSector s.1 s.2 d
    (if r.2 then [r.1.virtualDiskQueue.task] else []) ++ tasksQueued env (deliver env d s) es

/-- The task writes a page of the image. -/
def Writes (img : SramImage) (task : AsyncTask) : Prop :=
  ∃ b < img.numBlocks, task.type = atWrite ∧ task.transferAddr = img.addr b ∧
    task.dataLength = 256

/-- The disk `d` has got the blocks `blocks` of the image since it was `d₀`. -/
structure Loaded (img : SramImage) (d₀ d : VirtualDisk) (blocks : List Word)
    (t : Option Transfer) : Prop extends img.toImage.Delivered d blocks t where
  mem : ∀ b < img.numBlocks, b ∈ blocks →
    ∀ k < 256, d.mem (img.addr b + BitVec.ofNat 32 k) = img.data b k
  frame : ∀ a, (∀ b < img.numBlocks, ¬Memory.InRange (img.addr b) 256 a) → d.mem a = d₀.mem a
  running : (∃ b < img.numBlocks, b ∉ blocks) → d.rebooting = false ∧ d.reboots = d₀.reboots
  rebooted : (∀ b < img.numBlocks, b ∈ blocks) →
    ∃ pc, img.toRamImage.IsEntry pc ∧ d.reboots = d₀.reboots ++ [(pc, sramEnd, 1000)]

section Step

variable {d₀ d : VirtualDisk} {blocks : List Word} {t : Option Transfer} {t' : Transfer}
  {uf2 : Uf2Block} {token : Word}

/-- A block that was delivered before changes nothing of what has been loaded. -/
theorem Loaded.duplicate (h : Loaded img d₀ d blocks t) (hhas : img.Has uf2)
    (hin : uf2.blockNo ∈ blocks)
    (hdelivered : img.toImage.Delivered (prepared uf2 token (opens uf2 d) (current uf2 d))
      (blocks ++ [uf2.blockNo]) (some t'))
    (hdevice : (prepared uf2 token (opens uf2 d) (current uf2 d)).device = d.device) :
    Loaded img d₀ (prepared uf2 token (opens uf2 d) (current uf2 d)) (blocks ++ [uf2.blockNo])
      (some t') := by
  have hmem (b : Word) : b ∈ blocks ++ [uf2.blockNo] ↔ b ∈ blocks := by
    rw [List.mem_append, List.mem_singleton]
    constructor
    · rintro (hb | rfl)
      · exact hb
      · exact hin
    · exact .inl
  simp only [VirtualDisk.device, Prod.mk.injEq] at hdevice
  obtain ⟨-, -, -, -, -, -, -, hrebooting, hreboots, -⟩ := hdevice
  exact {
    toDelivered := hdelivered
    mem := fun b hb hb' => by
      rw [hhas.prepared_mem]
      exact h.mem b hb ((hmem b).1 hb')
    frame := fun a ha => by
      rw [hhas.prepared_mem]
      exact h.frame a ha
    running := by
      rintro ⟨b, hb, hb'⟩
      rw [hrebooting, hreboots]
      exact h.running ⟨b, hb, fun hin => hb' ((hmem b).2 hin)⟩
    rebooted := fun hall => by
      rw [hreboots]
      exact h.rebooted fun b hb => (hmem b).1 (hall b hb) }

/-- A block that was not delivered before is written, and the device reboots if it was the
last one missing. -/
theorem Loaded.queued (env : Env) (h : Loaded img d₀ d blocks t) (hbuf : d.sectorBuf = uf2)
    (hhas : img.Has uf2) (hold : uf2.blockNo ∉ blocks) (hholds : img.toImage.Holds t')
    (htracks : Tracks (queueBlock uf2 token (opens uf2 d) (current uf2 d)) t')
    (hdelivered : img.toImage.Delivered (queueBlock uf2 token (opens uf2 d) (current uf2 d))
      (blocks ++ [uf2.blockNo]) (some t'))
    (hdevice : (queueBlock uf2 token (opens uf2 d) (current uf2 d)).device = d.device) :
    Loaded img d₀ (work env (queueBlock uf2 token (opens uf2 d) (current uf2 d)))
      (blocks ++ [uf2.blockNo]) (some t') := by
  have hmemQ := hhas.queueBlock_mem token (opens uf2 d) d
  have htype := hhas.pageTask_type token (opens uf2 d) (current uf2 d)
  have hqueue : (queueBlock uf2 token (opens uf2 d) (current uf2 d)).virtualDiskQueue =
      { task := pageTask uf2 token (opens uf2 d) (erases uf2 (current uf2 d)), full := true,
        disable := (current uf2 d).virtualDiskQueue.disable } := rfl
  have htoken : (queueBlock uf2 token (opens uf2 d) (current uf2 d)).uf2Info.token = token := rfl
  set q := queueBlock uf2 token (opens uf2 d) (current uf2 d) with hq
  simp only [VirtualDisk.device, Prod.mk.injEq] at hdevice
  obtain ⟨-, hsector, -, -, -, -, -, hrebooting, hreboots, -⟩ := hdevice
  have hrunning := h.running ⟨uf2.blockNo, hhas.lt, hold⟩
  have hcomplete : q.uf2Info.validBlockCount = q.uf2Info.numBlocks ↔
      ∀ b < img.numBlocks, b ∈ blocks ++ [uf2.blockNo] := by
    rw [htracks.complete_iff, hholds.complete_iff]
    exact forall₂_congr hdelivered.numbers
  have haddr : uf2.targetAddr = img.addr uf2.blockNo := hhas.addr
  have hlt : uf2.blockNo < img.numBlocks := hhas.lt
  have hram : isAddressRam uf2.targetAddr = true ∧ isAddressRam (uf2.targetAddr + 256) = true := by
    rw [haddr]
    exact ⟨img.isAddressRam_addr hlt, img.isAddressRam_addr_add hlt (k := 256) (by decide)⟩
  obtain ⟨hmem, henabled, hout⟩ := @work_ramWrite env q _ (by rw [hqueue]) (by rw [hqueue])
    hdelivered.enabled (hrebooting.trans hrunning.1) htype rfl hram.1 hram.2 htoken.symm
  have hwritten : (work env q).mem = d.mem.copy (img.addr uf2.blockNo) 256 uf2.data := by
    have hdata : q.readData .uf2Data = uf2.data :=
      congrArg Uf2Block.data (hsector.trans hbuf)
    calc (work env q).mem = q.mem.copy uf2.targetAddr 256 (q.readData .uf2Data) := hmem
      _ = d.mem.copy (img.addr uf2.blockNo) 256 uf2.data := by rw [hmemQ, hdata, haddr]
  exact {
    toDelivered := hdelivered.congr (work_uf2Info env q)
      (fun i => congrArg (Memory.testBit · 0 i) (work_uf2ValidRamBlocks env q)) henabled
    mem := by
      intro b hb hin k hk
      rw [hwritten]
      rcases List.mem_append.1 hin with hin | hin
      · have hne : uf2.blockNo ≠ b := fun heq => hold (heq ▸ hin)
        rw [Memory.copy_of_not_inRange]
        · exact h.mem b hb hin k hk
        · exact img.disjoint _ hb _ hlt hne.symm _ (Memory.inRange_add hk)
      · rw [List.mem_singleton.1 hin, Memory.copy_add hk (by omega)]
        exact hhas.data k hk
    frame := by
      intro a ha
      rw [hwritten, Memory.copy_of_not_inRange (ha _ hlt)]
      exact h.frame a ha
    running := by
      rintro ⟨b, hb, hmissing⟩
      rw [if_neg fun hcount => hmissing (hcomplete.1 hcount b hb), Prod.mk.injEq, hreboots,
        hrunning.2] at hout
      exact hout
    rebooted := by
      intro hall
      have hcount := hcomplete.2 hall
      have hsram : img.toRamImage.sramTargets.Nonempty :=
        ⟨_, ⟨uf2.blockNo, hlt, rfl⟩, (img.sram _ hlt).1⟩
      rw [if_pos hcount, Prod.mk.injEq, hreboots, hrunning.2] at hout
      refine ⟨t'.lowest, RamImage.isEntry_lowest hholds (htracks.complete_iff.1 hcount) hsram, ?_⟩
      rw [hout.2, completionReboot, htracks.ram, hholds.ram, htracks.lowest]
      rfl }

end Step

/-- One delivery : the block is loaded, and its task queued if it is new. -/
theorem Loaded.deliver (env : Env) {d₀ d : VirtualDisk} {blocks : List Word}
    {t : Option Transfer} (h : Loaded img d₀ d blocks t) (s : Uf2Block × Word)
    (hhas : s.1.forRp2040 = true → img.Has s.1) :
    ∃ t', Loaded img d₀ (deliver env d s) (blocks ++ Image.seen [s]) t' ∧
      (∀ task ∈ tasksQueued env d [s], img.Writes task) ∧
      (Image.queued t').length = (tasksQueued env d [s]).length + (Image.queued t).length := by
  obtain ⟨uf2, token⟩ := s
  have hfilled : Loaded img d₀ (d.filled uf2) blocks t :=
    { h with toDelivered := h.toDelivered.filled uf2 }
  cases hfor : uf2.forRp2040 with
  | false =>
    have hr := receiveSector_of_foreign token d hfor
    refine ⟨t, ?_, ?_, ?_⟩
    · simpa [PicoBootrom.deliver, hr, Image.seen, hfor] using hfilled
    · simp [tasksQueued, hr]
    · simp [tasksQueued, hr]
  | true =>
    have hhas : img.Has uf2 := hhas hfor
    have hdevice := receiveSector_device uf2 token d
    have hseen : Image.seen [(uf2, token)] = [uf2.blockNo] := by simp [Image.seen, hfor]
    have hr := h.toDelivered.receive img.acceptable hhas.toHas hfor token
    unfold PicoBootrom.deliver
    simp only [tasksQueued, List.append_nil, hseen]
    generalize receiveSector uf2 token d = r at hr hdevice
    cases hr with
    | @duplicate t' hin hqueued hdelivered =>
      refine ⟨some t', hfilled.duplicate hhas hin hdelivered hdevice, by simp, ?_⟩
      rw [← hqueued]
      simp [Image.queued]
    | @queued t' hnew hqueued hholds htracks hdelivered =>
      refine ⟨some t', hfilled.queued env rfl hhas hnew hholds htracks hdelivered hdevice, ?_, ?_⟩
      · intro task htask
        obtain rfl := List.mem_singleton.1 htask
        exact ⟨uf2.blockNo, hhas.lt, hhas.pageTask_type token _ _, hhas.addr, rfl⟩
      · rw [Image.queued, Option.elim_some, hqueued, List.length_cons, Nat.add_comm]
        rfl

theorem tasksQueued_cons (env : Env) (d : VirtualDisk) (s : Uf2Block × Word)
    (es : List (Uf2Block × Word)) : tasksQueued env d (s :: es) =
      tasksQueued env d [s] ++ tasksQueued env (PicoBootrom.deliver env d s) es := by
  simp [tasksQueued]

/-- A run of deliveries. -/
theorem Loaded.run (env : Env) {d₀ d : VirtualDisk} {blocks : List Word}
    {t : Option Transfer} (h : Loaded img d₀ d blocks t) {es : List (Uf2Block × Word)}
    (hhas : ∀ s ∈ es, s.1.forRp2040 = true → img.Has s.1) :
    ∃ t', Loaded img d₀ (Run.after (PicoBootrom.deliver env) d es) (blocks ++ Image.seen es) t' ∧
      (∀ task ∈ tasksQueued env d es, img.Writes task) ∧
      (Image.queued t').length = (tasksQueued env d es).length + (Image.queued t).length := by
  induction es generalizing d blocks t with
  | nil => exact ⟨t, by simpa [Image.seen] using h, by simp [tasksQueued], by simp [tasksQueued]⟩
  | cons s es ih =>
    obtain ⟨t₁, h₁, hwrites₁, hlen₁⟩ := h.deliver env s (hhas s List.mem_cons_self)
    obtain ⟨t₂, h₂, hwrites₂, hlen₂⟩ :=
      ih h₁ fun s' hs' => hhas s' (List.mem_cons_of_mem s hs')
    refine ⟨t₂, ?_, ?_, ?_⟩
    · rwa [Run.after_cons, show s :: es = [s] ++ es from rfl, Image.seen_append,
        ← List.append_assoc]
    · intro task htask
      rw [tasksQueued_cons] at htask
      exact (List.mem_append.1 htask).elim (hwrites₁ task) (hwrites₂ task)
    · rw [hlen₂, hlen₁, tasksQueued_cons env d s es, List.length_append]
      omega

/-- Before the image arrives nothing is loaded. -/
theorem Loaded.initial {d : VirtualDisk} (hstart : d.uf2Info.numBlocks ≠ img.numBlocks)
    (henabled : d.virtualDiskQueue.disable = false) (hrunning : d.rebooting = false) :
    Loaded img d d [] none where
  toDelivered := .initial hstart henabled
  mem := by rintro _ _ ⟨⟩
  frame _ _ := rfl
  running _ := ⟨hrunning, rfl⟩
  rebooted hall := by cases hall 0 img.toImage.zero_lt

/-- What has happened once the sectors `es` were delivered to `d` : each block was queued
once, RAM holds the image and is otherwise as before, and the one call of `safe_reboot` was
made by the delivery of the last block that had not been seen. -/
structure LoadedOnce (env : Env) (img : SramImage) (d : VirtualDisk)
    (es : List (Uf2Block × Word)) : Prop where
  tasks : (tasksQueued env d es).length = img.numBlocks.toNat
  writes : ∀ task ∈ tasksQueued env d es, img.Writes task
  image : ∀ b < img.numBlocks, ∀ k < 256,
    (Run.after (PicoBootrom.deliver env) d es).mem (img.addr b + BitVec.ofNat 32 k) =
      img.data b k
  frame : ∀ a, (∀ b < img.numBlocks, ¬Memory.InRange (img.addr b) 256 a) →
    (Run.after (PicoBootrom.deliver env) d es).mem a = d.mem a
  reboot : ∃ pre s post pc, es = pre ++ s :: post ∧
    (s.1.forRp2040 = true ∧ s.1.blockNo ∉ Image.seen pre) ∧ img.toImage.AllSeen (pre ++ [s]) ∧
    img.toRamImage.IsEntry pc ∧
    (Run.after (PicoBootrom.deliver env) d pre).reboots = d.reboots ∧
    (Run.after (PicoBootrom.deliver env) d (pre ++ [s])).reboots =
      d.reboots ++ [(pc, sramEnd, 1000)] ∧
    (Run.after (PicoBootrom.deliver env) d es).reboots = d.reboots ++ [(pc, sramEnd, 1000)]

end SramImage

/-- An image for SRAM, its blocks delivered in any order and with duplicates and sectors of
other kinds in between, is written block by block, once each, and then entered. -/
theorem sram_image_loaded_once (env : Env) (img : SramImage) (d : VirtualDisk)
    (es : List (Uf2Block × Word)) (hstart : d.uf2Info.numBlocks ≠ img.numBlocks)
    (henabled : d.virtualDiskQueue.disable = false) (hrunning : d.rebooting = false)
    (hhas : ∀ s ∈ es, s.1.forRp2040 = true → img.Has s.1) (hall : img.toImage.AllSeen es) :
    SramImage.LoadedOnce env img d es := by
  have h0 := SramImage.Loaded.initial hstart henabled hrunning
  obtain ⟨t, h, hwrites, hlen⟩ := h0.run env hhas
  rw [List.nil_append] at h
  -- the first prefix that holds every block ends with a block not seen before
  obtain ⟨pre, s, post, hes, hpre, hfirst⟩ :=
    Run.exists_first (P := img.toImage.AllSeen) (fun h => by cases h 0 img.toImage.zero_lt) hall
  have hmem (s') (hs' : s' ∈ pre ++ [s]) : s' ∈ es := by
    rw [hes]
    simp only [List.mem_append, List.mem_cons] at hs' ⊢
    tauto
  obtain ⟨_, hbefore, -, -⟩ := h0.run env fun s' hs' =>
    hhas s' (hmem s' (List.mem_append_left _ hs'))
  obtain ⟨_, hafter, -, -⟩ := h0.run env fun s' hs' => hhas s' (hmem s' hs')
  rw [List.nil_append] at hbefore hafter
  have hmissing : ∃ b < img.toImage.numBlocks, b ∉ Image.seen pre := by
    simpa [Image.AllSeen] using hpre
  obtain ⟨pc, hpc, hreboots⟩ := hafter.rebooted hfirst
  obtain ⟨pc', hpc', hreboots'⟩ := h.rebooted hall
  have heq := hpc'.unique hpc
  subst heq
  exact {
    tasks := hlen.symm.trans (h.toDelivered.length_queued hall)
    writes := hwrites
    image := fun b hb => h.mem b hb (hall b hb)
    frame := h.frame
    reboot := ⟨pre, s, post, pc', hes, Image.new_of_first hpre hfirst, hfirst, hpc,
      (hbefore.running hmissing).2, hreboots, hreboots'⟩ }

theorem twoPages_ne_zero : (2 : Word) ≠ 0 := by decide

/-- Two pages at the start of SRAM. -/
def twoPageImage : SramImage where
  numBlocks := 2
  addr b := if b = 0 then sramBase else sramBase + 256
  data b _ := b.setWidth 8
  pos := twoPages_ne_zero
  sram b _ := by split <;> decide
  disjoint b hb c hc hne := by
    have htwo (b : Word) (hb : b < 2) : b = 0 ∨ b = 1 := by bv_omega
    have hpages : Memory.Disjoint sramBase 256 (sramBase + 256) 256 :=
      Memory.disjoint_of_le (by decide) (by decide)
    rcases htwo b hb with rfl | rfl <;> rcases htwo c hc with rfl | rfl
    · exact absurd rfl hne
    · exact hpages
    · exact hpages.symm
    · exact absurd rfl hne

/-- The second page, a foreign sector, the second page again and the first page. -/
def twoPageDelivery : List (Uf2Block × Word) :=
  [(uf2Block 2 1 (sramBase + 256) fun _ => 1, 1), (powerOn.sectorBuf, 2),
    (uf2Block 2 1 (sramBase + 256) fun _ => 1, 3), (uf2Block 2 0 sramBase fun _ => 0, 4)]

theorem sram_image_loaded_once_two_pages :
    SramImage.LoadedOnce bareEnv twoPageImage powerOn twoPageDelivery := by
  refine sram_image_loaded_once bareEnv twoPageImage powerOn twoPageDelivery (by decide) rfl rfl
    ?_ ?_
  · intro s hs hfor
    simp only [twoPageDelivery, List.mem_cons, List.not_mem_nil, or_false] at hs
    rcases hs with rfl | rfl | rfl | rfl
    · exact { numBlocks := rfl, lt := by decide, addr := rfl, data := fun _ _ => rfl }
    · cases hfor
    · exact { numBlocks := rfl, lt := by decide, addr := rfl, data := fun _ _ => rfl }
    · exact { numBlocks := rfl, lt := by decide, addr := rfl, data := fun _ _ => rfl }
  · intro b hb
    have hb' : b < 2 := hb
    have htwo : b = 0 ∨ b = 1 := by bv_omega
    rcases htwo with rfl | rfl <;> decide

end PicoBootrom
