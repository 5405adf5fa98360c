import PicoBootrom.VirtualDisk
import Mathlib.Data.List.Perm.Subperm

/-!
# UF2 transfers

A `Transfer` is what the tracking state of the virtual disk stands for : an image of so
many blocks, for RAM or for flash, and the blocks queued so far. The conditions that keep
the bitmaps in bounds and the count meaningful are fields, so a transfer with as many
blocks queued as the image has is complete.

`Tracks` relates the tracking state to a transfer, and `vdWriteBlock_cases` says what one
sector does to it : nothing, the end of the transfer, the same transfer with a duplicate
ignored, or one more block queued. The relation asks that the blocks queued are marked in
the bitmap. That every marked block was queued (`Exact`) also holds while nothing else
writes to the bitmap, which for a flash image is in memory a task can reach.
-/

namespace PicoBootrom

/-! ## Transfers -/

/-- The number of blocks the bitmap of an image has room for. -/
def capacity (ram : Bool) : ℕ :=
  (if ram then maxRamUf2Blocks else flashMaxValidBlocks).toNat

/-- An image being received. -/
structure Transfer where
  ram : Bool
  numBlocks : ℕ
  /-- The blocks queued, the latest first, each with the address it goes to. -/
  queued : List (ℕ × Word)
  pos : 0 < numBlocks
  fits : numBlocks ≤ capacity ram
  nodup : (queued.map Prod.fst).Nodup
  lt : ∀ b ∈ queued.map Prod.fst, b < numBlocks

namespace Transfer

/-- The numbers of the blocks queued. -/
def numbers (t : Transfer) : List ℕ :=
  t.queued.map Prod.fst

/-- The lowest address as the code keeps it, from the sentinel. -/
def lowest (t : Transfer) : Word :=
  t.queued.foldr (fun b lowest => lowerAddr lowest b.2) 0xffffffff

/-- The transfer no block of which has been queued. -/
def start (ram : Bool) (numBlocks : ℕ) (pos : 0 < numBlocks)
    (fits : numBlocks ≤ capacity ram) : Transfer where
  ram := ram
  numBlocks := numBlocks
  queued := []
  pos := pos
  fits := fits
  nodup := List.nodup_nil
  lt := by simp

/-- One more block queued. -/
def push (t : Transfer) (b : ℕ) (addr : Word) (hnew : b ∉ t.numbers) (hlt : b < t.numBlocks) :
    Transfer where
  ram := t.ram
  numBlocks := t.numBlocks
  queued := (b, addr) :: t.queued
  pos := t.pos
  fits := t.fits
  nodup := List.nodup_cons.2 ⟨hnew, t.nodup⟩
  lt := by
    intro b' hb'
    rcases List.mem_cons.1 hb' with rfl | hb'
    · exact hlt
    · exact t.lt b' hb'

theorem numbers_subperm (t : Transfer) : t.numbers.Subperm (List.range t.numBlocks) :=
  List.subperm_of_subset t.nodup fun b hb => List.mem_range.2 (t.lt b hb)

theorem length_le (t : Transfer) : t.queued.length ≤ t.numBlocks := by
  have h := t.numbers_subperm.length_le
  rwa [numbers, List.length_map, List.length_range] at h

/-- A transfer with as many blocks queued as the image has got each of them. -/
theorem mem_numbers_of_length_eq {t : Transfer} (h : t.queued.length = t.numBlocks) {b : ℕ}
    (hb : b < t.numBlocks) : b ∈ t.numbers := by
  have hperm : t.numbers.Perm (List.range t.numBlocks) :=
    t.numbers_subperm.perm_of_length_le (by simp [numbers, h])
  exact hperm.mem_iff.2 (List.mem_range.2 hb)

/-- A transfer that got each block has as many queued as the image has. -/
theorem length_eq_of_forall_mem {t : Transfer} (h : ∀ b < t.numBlocks, b ∈ t.numbers) :
    t.queued.length = t.numBlocks := by
  have hsub : (List.range t.numBlocks).Subperm t.numbers :=
    List.subperm_of_subset List.nodup_range fun b hb => h b (List.mem_range.1 hb)
  have hle := hsub.length_le
  rw [List.length_range, numbers, List.length_map] at hle
  exact Nat.le_antisymm t.length_le hle

/-- A transfer that lacks a block is not complete. -/
theorem length_lt {t : Transfer} {b : ℕ} (hb : b < t.numBlocks) (h : b ∉ t.numbers) :
    t.queued.length < t.numBlocks :=
  Nat.lt_of_le_of_ne t.length_le fun heq => h (mem_numbers_of_length_eq heq hb)

end Transfer

theorem capacity_true : capacity true = 1280 :=
  rfl

theorem flashMaxValidBlocks_toNat : flashMaxValidBlocks.toNat = 123360 := by
  decide

theorem capacity_false : capacity false = 123360 :=
  flashMaxValidBlocks_toNat

theorem capacity_le (ram : Bool) : capacity ram ≤ 123360 := by
  cases ram with
  | false => exact Nat.le_of_eq capacity_false
  | true => rw [capacity_true]; decide

theorem flashClearedPagesBase_toNat : flashClearedPagesBase.toNat = 0x15003c3c := by
  decide

theorem flashMaxClearedPages_toNat : flashMaxClearedPages.toNat = 7710 := by
  decide

/-! ## Bitmaps of the disk -/

namespace VirtualDisk

@[simp] theorem setBitmap_uf2Info (d : VirtualDisk) (p : BitmapPtr) (i : ℕ) :
    (d.setBitmap p i).uf2Info = d.uf2Info := by
  cases p <;> rfl

@[simp] theorem setBitmap_virtualDiskQueue (d : VirtualDisk) (p : BitmapPtr) (i : ℕ) :
    (d.setBitmap p i).virtualDiskQueue = d.virtualDiskQueue := by
  cases p <;> rfl

@[simp] theorem clearBitset_uf2Info (d : VirtualDisk) (p : BitmapPtr) (n : Word) :
    (d.clearBitset p n).uf2Info = d.uf2Info := by
  cases p <;> rfl

@[simp] theorem clearBitset_virtualDiskQueue (d : VirtualDisk) (p : BitmapPtr) (n : Word) :
    (d.clearBitset p n).virtualDiskQueue = d.virtualDiskQueue := by
  cases p <;> rfl

end VirtualDisk

/-- The bitmap of the blocks of an image. -/
def validBlocksPtr (ram : Bool) : BitmapPtr :=
  if ram then .uf2ValidRamBlocks else .mem flashValidBlocksBase

namespace VirtualDisk

theorem testBitmap_setBitmap (d : VirtualDisk) (ram : Bool) {i j : ℕ}
    (hi : i < capacity ram) (hj : j < capacity ram) :
    (d.setBitmap (validBlocksPtr ram) i).testBitmap (validBlocksPtr ram) j =
      (d.testBitmap (validBlocksPtr ram) j || decide (j = i)) := by
  have hle := capacity_le ram
  cases ram with
  | true => exact Memory.testBit_setBit (by decide) _ _ (by omega) (by omega)
  | false => exact Memory.testBit_setBit (by decide) _ _ (by omega) (by omega)

theorem testBitmap_clearBitset (d : VirtualDisk) (ram : Bool) {i : ℕ} (hi : i < capacity ram) :
    (d.clearBitset (validBlocksPtr ram)
      (if ram then maxRamUf2Blocks else flashMaxValidBlocks)).testBitmap
        (validBlocksPtr ram) i = false := by
  cases ram with
  | true =>
    refine Memory.testBit_fill_zero _ _ ?_
    rw [capacity_true] at hi
    change i / 8 < 160
    omega
  | false =>
    refine Memory.testBit_fill_zero _ _ ?_
    rw [capacity_false] at hi
    have hn : (flashMaxValidBlocks / 8).toNat = 15420 := by decide
    change i / 8 < (flashMaxValidBlocks / 8).toNat
    omega

theorem byteAddr_validBlocks_toNat {i : ℕ} (hi : i < 123360) :
    (Memory.byteAddr flashValidBlocksBase i).toNat = 0x15000000 + i / 8 := by
  rw [Memory.byteAddr, BitVec.toNat_add, BitVec.toNat_ofNat,
    Nat.mod_eq_of_lt (show i / 8 < 2 ^ 32 by omega), show flashValidBlocksBase.toNat = 0x15000000
    by decide, Nat.mod_eq_of_lt (by omega)]

theorem byteAddr_clearedPages_toNat {p : ℕ} (hp : p < 7710) :
    (Memory.byteAddr flashClearedPagesBase p).toNat = 0x15003c3c + p / 8 := by
  rw [Memory.byteAddr, BitVec.toNat_add, BitVec.toNat_ofNat,
    Nat.mod_eq_of_lt (show p / 8 < 2 ^ 32 by omega), flashClearedPagesBase_toNat,
    Nat.mod_eq_of_lt (by omega)]

/-- Marking a page leaves the blocks alone. -/
theorem testBitmap_validBlocks_setBitmap_clearedPages (d : VirtualDisk) (ram : Bool) {i p : ℕ}
    (hi : i < capacity ram) (hp : p < 7710) :
    (d.setBitmap (.mem flashClearedPagesBase) p).testBitmap (validBlocksPtr ram) i =
      d.testBitmap (validBlocksPtr ram) i := by
  cases ram with
  | true => rfl
  | false =>
    rw [capacity_false] at hi
    refine Memory.testBit_congr (Memory.setBit_of_ne (by decide) _ _ fun h => ?_)
    have h' := congrArg BitVec.toNat h
    rw [byteAddr_validBlocks_toNat hi, byteAddr_clearedPages_toNat hp] at h'
    omega

/-- Marking a block leaves the pages alone. -/
theorem testBitmap_clearedPages_setBitmap_validBlocks (d : VirtualDisk) (ram : Bool) {i p : ℕ}
    (hi : i < capacity ram) (hp : p < 7710) :
    (d.setBitmap (validBlocksPtr ram) i).testBitmap (.mem flashClearedPagesBase) p =
      d.testBitmap (.mem flashClearedPagesBase) p := by
  cases ram with
  | true => rfl
  | false =>
    rw [capacity_false] at hi
    refine Memory.testBit_congr (Memory.setBit_of_ne (by decide) _ _ fun h => ?_)
    have h' := congrArg BitVec.toNat h
    rw [byteAddr_validBlocks_toNat hi, byteAddr_clearedPages_toNat hp] at h'
    omega

end VirtualDisk

/-! ## What the tracking state stands for -/

/-- The tracking state is that of the transfer. -/
structure Tracks (d : VirtualDisk) (t : Transfer) : Prop where
  ram : d.uf2Info.ram = t.ram
  numBlocks : d.uf2Info.numBlocks.toNat = t.numBlocks
  validBlocks : d.uf2Info.validBlocks = validBlocksPtr t.ram
  clearedPages : t.ram = false → d.uf2Info.clearedPages = .mem flashClearedPagesBase
  count : d.uf2Info.validBlockCount.toNat = t.queued.length
  lowest : d.uf2Info.lowestAddr = t.lowest
  marked : ∀ b ∈ t.numbers, d.testBitmap (validBlocksPtr t.ram) b = true

/-- Every block the bitmap marks was queued. -/
def Exact (d : VirtualDisk) (t : Transfer) : Prop :=
  ∀ b < t.numBlocks, d.testBitmap (validBlocksPtr t.ram) b = true → b ∈ t.numbers

/-- The tracking state is that of the transfer, or marked as invalid. -/
def Refines (d : VirtualDisk) : Option Transfer → Prop
  | none => d.uf2Info.numBlocks = 0
  | some t => Tracks d t

/-- The tracking state and the blocks marked are all that `Tracks` reads. -/
theorem Tracks.congr {d d' : VirtualDisk} {t : Transfer} (h : Tracks d t)
    (hinfo : d'.uf2Info = d.uf2Info)
    (hmarked : ∀ b ∈ t.numbers, d.testBitmap (validBlocksPtr t.ram) b = true →
      d'.testBitmap (validBlocksPtr t.ram) b = true) : Tracks d' t where
  ram := hinfo ▸ h.ram
  numBlocks := hinfo ▸ h.numBlocks
  validBlocks := hinfo ▸ h.validBlocks
  clearedPages := hinfo ▸ h.clearedPages
  count := hinfo ▸ h.count
  lowest := hinfo ▸ h.lowest
  marked := fun b hb => hmarked b hb (h.marked b hb)

/-- A transfer is complete when the count has reached the size of the image. -/
theorem Tracks.complete_iff {d : VirtualDisk} {t : Transfer} (h : Tracks d t) :
    d.uf2Info.validBlockCount = d.uf2Info.numBlocks ↔ t.queued.length = t.numBlocks := by
  rw [← BitVec.toNat_inj, h.count, h.numBlocks]

theorem Tracks.ne_zero {d : VirtualDisk} {t : Transfer} (h : Tracks d t) :
    d.uf2Info.numBlocks ≠ 0 := by
  intro h0
  have hn := h.numBlocks
  rw [h0] at hn
  exact Nat.ne_of_lt t.pos hn

/-- As far as blocks of an image of `n` blocks go : a tracking state for another number of
blocks is as good as an invalid one. -/
def RefinesFor (n : Word) (d : VirtualDisk) : Option Transfer → Prop
  | none => n ≠ 0 → d.uf2Info.numBlocks ≠ n
  | some t => Tracks d t

theorem Refines.refinesFor {d : VirtualDisk} {t : Option Transfer} (h : Refines d t) (n : Word) :
    RefinesFor n d t := by
  cases t with
  | none => exact fun hn h0 => hn (h0.symm.trans h)
  | some t => exact h

/-! ## The transfer a block belongs to -/

/-- The transfer a block opens, if the image fits. -/
def Uf2Block.start (uf2 : Uf2Block) : Option Transfer :=
  if h : 0 < uf2.numBlocks.toNat ∧ uf2.numBlocks.toNat ≤ capacity uf2.ram then
    some (Transfer.start uf2.ram uf2.numBlocks.toNat h.1 h.2)
  else none

/-- The transfer a block is for : the current one if it has the block's number of blocks. -/
def Uf2Block.transfer (uf2 : Uf2Block) : Option Transfer → Option Transfer
  | none => uf2.start
  | some t => if t.numBlocks = uf2.numBlocks.toNat then some t else uf2.start

/-- The block is accepted as one of the transfer `t'`. -/
structure Uf2Block.Accepted (uf2 : Uf2Block) (disable : Bool) (t : Option Transfer)
    (t' : Transfer) : Prop where
  forRp2040 : uf2.forRp2040 = true
  notGarbage : uf2.garbage = false
  enabled : disable = false
  transfer : uf2.transfer t = some t'
  ram : uf2.ram = t'.ram
  lt : uf2.blockNo.toNat < t'.numBlocks

theorem Uf2Block.flash_of_not_garbage {uf2 : Uf2Block} (h : uf2.garbage = false)
    (hram : uf2.ram = false) : uf2.flash = true := by
  simp only [Uf2Block.garbage, hram, Bool.or_eq_false_iff, Bool.not_eq_false'] at h
  simp only [Bool.false_or, Bool.and_eq_true, bne_iff_ne] at h
  exact h.1.2

theorem Uf2Block.numBlocks_ne_zero_of_not_garbage {uf2 : Uf2Block} (h : uf2.garbage = false) :
    uf2.numBlocks ≠ 0 := by
  simp only [Uf2Block.garbage, Bool.or_eq_false_iff, Bool.not_eq_false', Bool.and_eq_true,
    bne_iff_ne] at h
  exact h.1.1

theorem Uf2Block.start_eq_some {uf2 : Uf2Block} {t : Transfer} (h : uf2.start = some t) :
    t.ram = uf2.ram ∧ t.numBlocks = uf2.numBlocks.toNat ∧ t.queued = [] := by
  unfold Uf2Block.start at h
  split at h
  · cases h
    exact ⟨rfl, rfl, rfl⟩
  · cases h

theorem Uf2Block.numBlocks_transfer {uf2 : Uf2Block} {t : Option Transfer} {t' : Transfer}
    (h : uf2.transfer t = some t') : t'.numBlocks = uf2.numBlocks.toNat := by
  cases t with
  | none => exact (start_eq_some h).2.1
  | some t =>
    rw [Uf2Block.transfer] at h
    split at h
    · cases h
      assumption
    · exact (start_eq_some h).2.1

/-- The block is the first of a new transfer. -/
def opens (uf2 : Uf2Block) (d : VirtualDisk) : Bool :=
  d.uf2Info.numBlocks != uf2.numBlocks

/-- The block is accepted as the first of a new transfer, for which the tracking state is
cleared. -/
def opensTransfer (uf2 : Uf2Block) (d : VirtualDisk) : Bool :=
  uf2.forRp2040 && !uf2.garbage && !d.virtualDiskQueue.disable && opens uf2 d

/-- The tracking state of a new transfer, before its first block. -/
def openTransfer (uf2 : Uf2Block) (d : VirtualDisk) : VirtualDisk :=
  let d := resetUf2Info uf2 d
  { d with uf2Info := { d.uf2Info with
    numBlocks := uf2.numBlocks
    validBlockCount := 0
    lowestAddr := 0xffffffff } }

/-- The tracking state the block is looked up in. -/
def current (uf2 : Uf2Block) (d : VirtualDisk) : VirtualDisk :=
  if opens uf2 d then openTransfer uf2 d else d

theorem transfer_of_opens {uf2 : Uf2Block} {d : VirtualDisk} {t : Option Transfer}
    (h : RefinesFor uf2.numBlocks d t) (hopens : opens uf2 d = true) :
    uf2.transfer t = uf2.start := by
  cases t with
  | none => rfl
  | some t =>
    refine if_neg fun heq => ?_
    rw [← h.numBlocks, BitVec.toNat_inj] at heq
    simp [opens, heq] at hopens

theorem transfer_of_not_opens {uf2 : Uf2Block} {d : VirtualDisk} {t : Option Transfer}
    (h : RefinesFor uf2.numBlocks d t) (hopens : opens uf2 d = false) (hpos : uf2.numBlocks ≠ 0) :
    ∃ t', t = some t' ∧ uf2.transfer t = some t' := by
  have heq : d.uf2Info.numBlocks = uf2.numBlocks := by simpa [opens] using hopens
  cases t with
  | none => exact absurd heq (h hpos)
  | some t => exact ⟨t, rfl, if_pos (by rw [← h.numBlocks, heq])⟩

/-! ## Opening a transfer -/

theorem resetUf2Info_ram (uf2 : Uf2Block) (d : VirtualDisk) :
    (resetUf2Info uf2 d).uf2Info.ram = uf2.ram := by
  unfold resetUf2Info
  cases uf2.flash <;> simp

theorem resetUf2Info_validBlocks (uf2 : Uf2Block) (d : VirtualDisk) :
    (resetUf2Info uf2 d).uf2Info.validBlocks = validBlocksPtr uf2.ram := by
  unfold resetUf2Info
  cases uf2.flash <;> simp [validBlocksPtr]

theorem resetUf2Info_maxValidBlocks (uf2 : Uf2Block) (d : VirtualDisk) :
    (resetUf2Info uf2 d).uf2Info.maxValidBlocks.toNat = capacity uf2.ram := by
  unfold resetUf2Info
  cases uf2.flash <;> simp [capacity]

theorem resetUf2Info_numBlocks (uf2 : Uf2Block) (d : VirtualDisk) :
    (resetUf2Info uf2 d).uf2Info.numBlocks = 0 := by
  unfold resetUf2Info
  cases uf2.flash <;> simp

theorem resetUf2Info_clearedPages (uf2 : Uf2Block) (d : VirtualDisk) (h : uf2.flash = true) :
    (resetUf2Info uf2 d).uf2Info.clearedPages = .mem flashClearedPagesBase := by
  unfold resetUf2Info
  simp [h]

@[simp] theorem resetUf2Info_virtualDiskQueue (uf2 : Uf2Block) (d : VirtualDisk) :
    (resetUf2Info uf2 d).virtualDiskQueue = d.virtualDiskQueue := by
  unfold resetUf2Info
  cases uf2.flash <;> simp

/-- Clearing the pages leaves the blocks alone. -/
theorem testBitmap_validBlocks_clearBitset_clearedPages (d : VirtualDisk) (ram : Bool) {i : ℕ}
    (hi : i < capacity ram) :
    (d.clearBitset (.mem flashClearedPagesBase) flashMaxClearedPages).testBitmap
      (validBlocksPtr ram) i = d.testBitmap (validBlocksPtr ram) i := by
  cases ram with
  | true => rfl
  | false =>
    rw [capacity_false] at hi
    refine Memory.testBit_congr (Memory.fill_of_not_inRange ?_)
    have hn : (flashMaxClearedPages / 8).toNat = 963 := by decide
    rw [Memory.inRange_iff (by rw [flashClearedPagesBase_toNat, hn]; decide),
      flashClearedPagesBase_toNat, VirtualDisk.byteAddr_validBlocks_toNat hi]
    omega

theorem testBitmap_resetUf2Info (uf2 : Uf2Block) (d : VirtualDisk) {i : ℕ}
    (hi : i < capacity uf2.ram) :
    (resetUf2Info uf2 d).testBitmap (validBlocksPtr uf2.ram) i = false := by
  have hclear := fun d : VirtualDisk => VirtualDisk.testBitmap_clearBitset d uf2.ram hi
  unfold resetUf2Info
  cases hflash : uf2.flash with
  | false => exact hclear _
  | true =>
    refine (testBitmap_validBlocks_clearBitset_clearedPages _ uf2.ram hi).trans ?_
    exact hclear { d with uf2Info := _ }

/-- Clearing the pages of a flash image clears whole bytes, so the last six bits stay. -/
theorem testBitmap_clearedPages_resetUf2Info (uf2 : Uf2Block) (d : VirtualDisk)
    (hflash : uf2.flash = true) (hram : uf2.ram = false) {p : ℕ} (hp : p < 7710) :
    (resetUf2Info uf2 d).testBitmap (.mem flashClearedPagesBase) p =
      (decide (7704 ≤ p) && d.testBitmap (.mem flashClearedPagesBase) p) := by
  have hn : (flashMaxClearedPages / 8).toNat = 963 := by decide
  have hbase : flashClearedPagesBase.toNat + 963 ≤ 2 ^ 32 := by
    rw [flashClearedPagesBase_toNat]; decide
  have haddr := VirtualDisk.byteAddr_clearedPages_toNat hp
  -- the blocks are cleared first, in bytes below those of the pages
  have hblocks : ¬Memory.InRange flashValidBlocksBase (flashMaxValidBlocks / 8).toNat
      (Memory.byteAddr flashClearedPagesBase p) := by
    have hv : (flashMaxValidBlocks / 8).toNat = 15420 := by decide
    have hvb : flashValidBlocksBase.toNat = 0x15000000 := by decide
    rw [Memory.inRange_iff (by rw [hv, hvb]; decide), haddr, hv, hvb]
    omega
  have hmem : (resetUf2Info uf2 d).mem =
      (d.mem.fill flashValidBlocksBase (flashMaxValidBlocks / 8).toNat 0).fill
        flashClearedPagesBase 963 0 := by
    unfold resetUf2Info
    rw [hflash, hram, ← hn]
    rfl
  change (resetUf2Info uf2 d).mem.testBit _ p = _
  rw [hmem]
  by_cases hlt : p < 7704
  · rw [Memory.testBit_fill_zero _ _ (by omega), decide_eq_false (by omega), Bool.false_and]
  · rw [decide_eq_true (by omega), Bool.true_and]
    refine Memory.testBit_congr ?_
    rw [Memory.fill_of_not_inRange, Memory.fill_of_not_inRange hblocks]
    rw [Memory.inRange_iff hbase, haddr, flashClearedPagesBase_toNat]
    omega

theorem tracks_openTransfer {uf2 : Uf2Block} {t : Transfer} (d : VirtualDisk)
    (h : uf2.start = some t) (hplace : uf2.ram = false → uf2.flash = true) :
    Tracks (openTransfer uf2 d) t where
  ram := (resetUf2Info_ram uf2 d).trans (Uf2Block.start_eq_some h).1.symm
  numBlocks := (Uf2Block.start_eq_some h).2.1.symm
  validBlocks := by
    rw [(Uf2Block.start_eq_some h).1]
    exact resetUf2Info_validBlocks uf2 d
  clearedPages := fun hram => by
    rw [(Uf2Block.start_eq_some h).1] at hram
    exact resetUf2Info_clearedPages uf2 d (hplace hram)
  count := by
    rw [(Uf2Block.start_eq_some h).2.2]
    rfl
  lowest := by
    rw [Transfer.lowest, (Uf2Block.start_eq_some h).2.2]
    rfl
  marked := by
    intro b hb
    rw [Transfer.numbers, (Uf2Block.start_eq_some h).2.2] at hb
    cases hb

/-- No block is marked when a transfer is opened. -/
theorem testBitmap_openTransfer (uf2 : Uf2Block) (d : VirtualDisk) {i : ℕ}
    (hi : i < capacity uf2.ram) :
    (openTransfer uf2 d).testBitmap (validBlocksPtr uf2.ram) i = false := by
  rw [← testBitmap_resetUf2Info uf2 d hi]
  cases uf2.ram <;> rfl

@[simp] theorem openTransfer_virtualDiskQueue (uf2 : Uf2Block) (d : VirtualDisk) :
    (openTransfer uf2 d).virtualDiskQueue = d.virtualDiskQueue :=
  resetUf2Info_virtualDiskQueue uf2 d

@[simp] theorem current_virtualDiskQueue (uf2 : Uf2Block) (d : VirtualDisk) :
    (current uf2 d).virtualDiskQueue = d.virtualDiskQueue := by
  unfold current
  split
  · exact openTransfer_virtualDiskQueue uf2 d
  · rfl

theorem tracks_current {uf2 : Uf2Block} {d : VirtualDisk} {t : Option Transfer}
    {t' : Transfer} (h : RefinesFor uf2.numBlocks d t) (ht : uf2.transfer t = some t')
    (hplace : uf2.ram = false → uf2.flash = true) : Tracks (current uf2 d) t' := by
  unfold current
  split
  · next hopens =>
    rw [transfer_of_opens h hopens] at ht
    exact tracks_openTransfer d ht hplace
  · next hopens =>
    have hpos : uf2.numBlocks ≠ 0 := by
      intro h0
      have hn := Uf2Block.numBlocks_transfer ht
      rw [h0] at hn
      exact Nat.ne_of_gt t'.pos hn
    obtain ⟨t₀, rfl, ht₀⟩ := transfer_of_not_opens h (by simpa using hopens) hpos
    rw [ht] at ht₀
    cases ht₀
    exact h

theorem Uf2Block.Accepted.tracks_current {uf2 : Uf2Block} {d : VirtualDisk} {disable : Bool}
    {t : Option Transfer} {t' : Transfer} (ha : uf2.Accepted disable t t')
    (h : RefinesFor uf2.numBlocks d t) : Tracks (current uf2 d) t' :=
  PicoBootrom.tracks_current h ha.transfer fun hram =>
    flash_of_not_garbage ha.notGarbage hram

/-- A new transfer has no block marked, so what is marked stays exact. -/
theorem exact_current {uf2 : Uf2Block} {d : VirtualDisk} {t : Option Transfer} {t' : Transfer}
    (h : RefinesFor uf2.numBlocks d t) (ht : uf2.transfer t = some t')
    (hexact : ∀ t₀ ∈ t, Exact d t₀) : Exact (current uf2 d) t' := by
  unfold current
  split
  · next hopens =>
    intro b hb hmark
    rw [transfer_of_opens h hopens] at ht
    rw [(Uf2Block.start_eq_some ht).1, testBitmap_openTransfer] at hmark
    · cases hmark
    · exact (Uf2Block.start_eq_some ht).1 ▸ Nat.lt_of_lt_of_le hb t'.fits
  · next hopens =>
    have hpos : uf2.numBlocks ≠ 0 := by
      intro h0
      have hn := Uf2Block.numBlocks_transfer ht
      rw [h0] at hn
      exact Nat.ne_of_gt t'.pos hn
    obtain ⟨t₀, rfl, ht₀⟩ := transfer_of_not_opens h (by simpa using hopens) hpos
    rw [ht] at ht₀
    cases ht₀
    exact hexact _ rfl

/-! ## The task of a block -/

/-- The task that writes a block. -/
def pageTask (uf2 : Uf2Block) (token : Word) (opens erases : Bool) : AsyncTask where
  token := token
  callback := .writeUf2PageComplete
  transferAddr := uf2.targetAddr
  eraseAddr := if erases then sectorOf uf2.targetAddr else 0
  eraseSize := if erases then flashSectorEraseSize else 0
  data := .uf2Data
  dataLength := flashPageSize
  type :=
    let type := if opens && uf2.flash then atWrite ||| atExitXip else atWrite
    if erases then type ||| atFlashErase else type
  source := .virtualDisk

/-- `d` with the task of the block in `next_task`, as `_update_current_uf2_info` leaves it. -/
def prepared (uf2 : Uf2Block) (token : Word) (opens : Bool) (d : VirtualDisk) : VirtualDisk :=
  { d with uf2Info := { d.uf2Info with
    blockNo := uf2.blockNo
    token := token
    nextTask := pageTask uf2 token opens false } }

theorem prepareUf2Task_of_lt {uf2 : Uf2Block} {token : Word} {opens : Bool} {d : VirtualDisk}
    (hram : uf2.ram = d.uf2Info.ram) (hlt : uf2.blockNo < uf2.numBlocks) :
    prepareUf2Task uf2 token (if opens && uf2.flash then atWrite ||| atExitXip else atWrite) d =
      (prepared uf2 token opens d, true) := by
  rw [prepareUf2Task, if_neg (by simp [hram]), if_pos hlt, prepared]
  simp only [pageTask, Bool.false_eq_true, if_false, resetTask]

/-- An accepted block is prepared in the state of its transfer. -/
theorem updateCurrentUf2Info_of_accepted {uf2 : Uf2Block} {d : VirtualDisk}
    {t : Option Transfer} {t' : Transfer} (token : Word) (h : RefinesFor uf2.numBlocks d t)
    (ha : uf2.Accepted d.virtualDiskQueue.disable t t') :
    updateCurrentUf2Info uf2 token d =
      (prepared uf2 token (opens uf2 d) (current uf2 d), true) := by
  have hn := Uf2Block.numBlocks_transfer ha.transfer
  have hlt : uf2.blockNo < uf2.numBlocks := by
    have := ha.lt
    rwa [hn] at this
  have hram : uf2.ram = (current uf2 d).uf2Info.ram :=
    ha.ram.trans (ha.tracks_current h).ram.symm
  rw [updateCurrentUf2Info, if_neg (by simp [ha.notGarbage]), if_neg (by simp [ha.enabled])]
  cases hopens : opens uf2 d with
  | true =>
    have hne : d.uf2Info.numBlocks ≠ uf2.numBlocks := by simpa [opens] using hopens
    have hfits : ¬(resetUf2Info uf2 d).uf2Info.maxValidBlocks < uf2.numBlocks := by
      rw [BitVec.lt_def, resetUf2Info_maxValidBlocks, ha.ram, ← hn]
      exact Nat.not_lt.2 t'.fits
    have hcur : current uf2 d = openTransfer uf2 d := if_pos hopens
    rw [hcur] at hram ⊢
    rw [if_pos hne, if_neg hfits, ← prepareUf2Task_of_lt hram hlt]
    rfl
  | false =>
    have heq : d.uf2Info.numBlocks = uf2.numBlocks := by simpa [opens] using hopens
    have hcur : current uf2 d = d := by simp [current, hopens]
    rw [hcur] at hram ⊢
    rw [if_neg (not_not.2 heq), ← prepareUf2Task_of_lt hram hlt]
    rfl

/-! ## Queueing a block -/

/-- The block is the first of its page, so its task erases. -/
def erases (uf2 : Uf2Block) (c : VirtualDisk) : Bool :=
  !uf2.ram && !c.testBitmap (.mem flashClearedPagesBase) (uf2.blockNo.toNat / 16)

/-- The bitmaps once the block is queued. -/
def markBlock (uf2 : Uf2Block) (c : VirtualDisk) : VirtualDisk :=
  let c' := if erases uf2 c then
    c.setBitmap (.mem flashClearedPagesBase) (uf2.blockNo.toNat / 16) else c
  c'.setBitmap (validBlocksPtr uf2.ram) uf2.blockNo.toNat

/-- The disk once the block is queued, from the tracking state `c` of its transfer. -/
def queueBlock (uf2 : Uf2Block) (token : Word) (opens : Bool) (c : VirtualDisk) : VirtualDisk :=
  let task := pageTask uf2 token opens (erases uf2 c)
  let d := markBlock uf2 c
  { d with
      virtualDiskQueue := { c.virtualDiskQueue with task := task, full := true }
      uf2Info := { c.uf2Info with
        blockNo := uf2.blockNo
        token := token
        lowestAddr := lowerAddr c.uf2Info.lowestAddr uf2.targetAddr
        validBlockCount := c.uf2Info.validBlockCount + 1
        nextTask := { task with checkLastMutationSource := true } } }

theorem pageNo_eq {u : Uf2Info} (h : u.blockNo.toNat < 123360) :
    u.pageNo = u.blockNo.toNat / 16 := by
  rw [Uf2Info.pageNo, BitVec.toNat_udiv, BitVec.toNat_mul,
    Nat.mod_eq_of_lt (show u.blockNo.toNat * (256 : Word).toNat < 2 ^ 32 by
      rw [show (256 : Word).toNat = 256 from rfl]; omega),
    show flashSectorEraseSize.toNat = 4096 from rfl, show (256 : Word).toNat = 256 from rfl]
  omega

theorem testBitmap_prepared (uf2 : Uf2Block) (token : Word) (opens : Bool) (c : VirtualDisk)
    (p : BitmapPtr) (i : ℕ) :
    (prepared uf2 token opens c).testBitmap p i = c.testBitmap p i := by
  cases p <;> rfl

/-- `_write_uf2_page` in a prepared state. -/
theorem writeUf2Page_prepared {uf2 : Uf2Block} {c : VirtualDisk} {t : Transfer}
    (token : Word) (opens : Bool) (h : Tracks c t) (hram : uf2.ram = t.ram)
    (hlt : uf2.blockNo.toNat < t.numBlocks) :
    writeUf2Page (prepared uf2 token opens c) =
      if c.testBitmap (validBlocksPtr t.ram) uf2.blockNo.toNat then
        (prepared uf2 token opens c, false)
      else (queueBlock uf2 token opens c, true) := by
  have hvalid : (prepared uf2 token opens c).uf2Info.validBlocks = validBlocksPtr t.ram :=
    h.validBlocks
  have hblock : (prepared uf2 token opens c).uf2Info.blockNo = uf2.blockNo := rfl
  rw [writeUf2Page, hvalid, hblock, testBitmap_prepared]
  cases c.testBitmap (validBlocksPtr t.ram) uf2.blockNo.toNat with
  | true => rfl
  | false =>
    rw [if_neg Bool.false_ne_true, if_neg Bool.false_ne_true]
    cases ht : t.ram with
    | true =>
      simp only [prepared, queueBlock, markBlock, erases, h.ram, h.validBlocks, hram, ht,
        if_true, Bool.not_true, Bool.false_and, Bool.false_eq_true, if_false, validBlocksPtr]
      rfl
    | false =>
      have hpage : (prepared uf2 token opens c).uf2Info.pageNo = uf2.blockNo.toNat / 16 :=
        pageNo_eq (Nat.lt_of_lt_of_le hlt (Nat.le_trans t.fits (capacity_le _)))
      simp only [prepared, Uf2Info.pageNo] at hpage
      simp only [prepared, queueBlock, markBlock, erases, eraseOnFirstUse, Uf2Info.pageNo, hpage,
        h.ram, h.validBlocks, h.clearedPages ht, hram, ht, Bool.false_eq_true, if_false,
        Bool.not_false, Bool.true_and, validBlocksPtr]
      cases hbit : c.testBitmap (.mem flashClearedPagesBase) (uf2.blockNo.toNat / 16) with
      | true =>
        rw [VirtualDisk.testBitmap] at hbit ⊢
        simp only [hbit, if_true, Bool.not_true, Bool.false_eq_true, if_false]
        rfl
      | false =>
        rw [VirtualDisk.testBitmap] at hbit ⊢
        simp only [hbit, if_true, Bool.not_false, Bool.false_eq_true, if_false]
        rfl

theorem testBitmap_queueBlock (uf2 : Uf2Block) (token : Word) (opens : Bool) (c : VirtualDisk)
    (p : BitmapPtr) (i : ℕ) :
    (queueBlock uf2 token opens c).testBitmap p i = (markBlock uf2 c).testBitmap p i := by
  cases p <;> rfl

/-- Queueing a block marks it and no other block. -/
theorem testBitmap_markBlock (uf2 : Uf2Block) (c : VirtualDisk) {i : ℕ}
    (hb : uf2.blockNo.toNat < capacity uf2.ram) (hi : i < capacity uf2.ram) :
    (markBlock uf2 c).testBitmap (validBlocksPtr uf2.ram) i =
      (c.testBitmap (validBlocksPtr uf2.ram) i || decide (i = uf2.blockNo.toNat)) := by
  have hle := capacity_le uf2.ram
  rw [markBlock, VirtualDisk.testBitmap_setBitmap _ _ hb hi]
  congr 1
  split
  · exact VirtualDisk.testBitmap_validBlocks_setBitmap_clearedPages _ _ hi (by omega)
  · rfl

/-- Queueing a block of a flash image marks its page and no other page. -/
theorem testBitmap_clearedPages_markBlock (uf2 : Uf2Block) (c : VirtualDisk) {p : ℕ}
    (hram : uf2.ram = false) (hb : uf2.blockNo.toNat < capacity uf2.ram) (hp : p < 7710) :
    (markBlock uf2 c).testBitmap (.mem flashClearedPagesBase) p =
      (c.testBitmap (.mem flashClearedPagesBase) p || decide (p = uf2.blockNo.toNat / 16)) := by
  have hle := capacity_le uf2.ram
  rw [markBlock, VirtualDisk.testBitmap_clearedPages_setBitmap_validBlocks _ _ hb hp]
  split
  · exact Memory.testBit_setBit (by decide) _ _ (by omega) (by omega)
  · next hset =>
    have hpage : c.testBitmap (.mem flashClearedPagesBase) (uf2.blockNo.toNat / 16) = true := by
      simpa [erases, hram] using hset
    by_cases h : p = uf2.blockNo.toNat / 16
    · rw [h, hpage, Bool.true_or]
    · rw [decide_eq_false h, Bool.or_false]

/-- A block that is queued is added to its transfer. -/
theorem Tracks.queueBlock {uf2 : Uf2Block} {c : VirtualDisk} {t : Transfer} (token : Word)
    (opens : Bool) (h : Tracks c t) (hram : uf2.ram = t.ram)
    (hnew : uf2.blockNo.toNat ∉ t.numbers) (hlt : uf2.blockNo.toNat < t.numBlocks) :
    Tracks (queueBlock uf2 token opens c) (t.push uf2.blockNo.toNat uf2.targetAddr hnew hlt) where
  ram := h.ram
  numBlocks := h.numBlocks
  validBlocks := h.validBlocks
  clearedPages := h.clearedPages
  count := by
    have hlen := Transfer.length_lt hlt hnew
    have hle := Nat.le_trans t.fits (capacity_le _)
    change (c.uf2Info.validBlockCount + 1).toNat = t.queued.length + 1
    rw [BitVec.toNat_add, h.count]
    change (t.queued.length + 1) % 2 ^ 32 = t.queued.length + 1
    omega
  lowest := by
    change lowerAddr c.uf2Info.lowestAddr uf2.targetAddr = lowerAddr t.lowest uf2.targetAddr
    rw [h.lowest]
  marked := by
    intro b hb
    have hblock := Nat.lt_of_lt_of_le hlt t.fits
    rw [testBitmap_queueBlock]
    change (markBlock uf2 c).testBitmap (validBlocksPtr t.ram) b = true
    rw [← hram] at hblock ⊢
    rcases List.mem_cons.1 hb with rfl | hb
    · simp [testBitmap_markBlock uf2 c hblock hblock]
    · have hb' : b < capacity uf2.ram := hram ▸ Nat.lt_of_lt_of_le (t.lt b hb) t.fits
      rw [testBitmap_markBlock uf2 c hblock hb', hram, h.marked b hb, Bool.true_or]

theorem Tracks.prepared {uf2 : Uf2Block} {c : VirtualDisk} {t : Transfer} (token : Word)
    (opens : Bool) (h : Tracks c t) : Tracks (prepared uf2 token opens c) t where
  ram := h.ram
  numBlocks := h.numBlocks
  validBlocks := h.validBlocks
  clearedPages := h.clearedPages
  count := h.count
  lowest := h.lowest
  marked := fun b hb => (testBitmap_prepared uf2 token opens c _ b).trans (h.marked b hb)

theorem Exact.queueBlock {uf2 : Uf2Block} {c : VirtualDisk} {t : Transfer} (token : Word)
    (opens : Bool) (h : Exact c t) (hram : uf2.ram = t.ram)
    (hnew : uf2.blockNo.toNat ∉ t.numbers) (hlt : uf2.blockNo.toNat < t.numBlocks) :
    Exact (queueBlock uf2 token opens c) (t.push uf2.blockNo.toNat uf2.targetAddr hnew hlt) := by
  intro b hb hmark
  have hblock := Nat.lt_of_lt_of_le hlt t.fits
  have hb' : b < capacity t.ram := Nat.lt_of_lt_of_le hb t.fits
  rw [testBitmap_queueBlock] at hmark
  change (markBlock uf2 c).testBitmap (validBlocksPtr t.ram) b = true at hmark
  rw [← hram] at hblock hb' hmark
  rw [testBitmap_markBlock uf2 c hblock hb', Bool.or_eq_true, decide_eq_true_eq] at hmark
  rcases hmark with hmark | rfl
  · exact List.mem_cons_of_mem _ (h b hb (hram ▸ hmark))
  · exact List.mem_cons_self

theorem Exact.prepared {uf2 : Uf2Block} {c : VirtualDisk} {t : Transfer} (token : Word)
    (opens : Bool) (h : Exact c t) : Exact (prepared uf2 token opens c) t :=
  fun b hb hmark => h b hb ((testBitmap_prepared uf2 token opens c _ b).symm.trans hmark)

/-! ## What a sector does -/

/-- What `vd_write_block` does with the sector of `d` when its tracking state is that of
`t` : the disk it leaves with its result, and the transfer of the new tracking state. -/
inductive Receives (token : Word) (d : VirtualDisk) (t : Option Transfer) :
    VirtualDisk × Bool → Option Transfer → Prop
  | ignored (h : d.sectorBuf.forRp2040 = false) : Receives token d t (d, false) t
  | rejected {d' : VirtualDisk} (hfor : d.sectorBuf.forRp2040 = true)
      (h : ∀ t', ¬d.sectorBuf.Accepted d.virtualDiskQueue.disable t t')
      (hinvalid : d'.uf2Info.numBlocks = 0)
      (hqueue : d'.virtualDiskQueue = d.virtualDiskQueue) :
      Receives token d t (d', false) none
  | duplicate {t' : Transfer} (h : d.sectorBuf.Accepted d.virtualDiskQueue.disable t t')
      (hcur : Tracks (current d.sectorBuf d) t')
      (hmark : (current d.sectorBuf d).testBitmap (validBlocksPtr t'.ram)
        d.sectorBuf.blockNo.toNat = true) :
      Receives token d t
        (prepared d.sectorBuf token (opens d.sectorBuf d) (current d.sectorBuf d), false)
        (some t')
  | queued {t' : Transfer} (h : d.sectorBuf.Accepted d.virtualDiskQueue.disable t t')
      (hcur : Tracks (current d.sectorBuf d) t')
      (hmark : (current d.sectorBuf d).testBitmap (validBlocksPtr t'.ram)
        d.sectorBuf.blockNo.toNat = false)
      (hnew : d.sectorBuf.blockNo.toNat ∉ t'.numbers) :
      Receives token d t
        (queueBlock d.sectorBuf token (opens d.sectorBuf d) (current d.sectorBuf d), true)
        (some (t'.push d.sectorBuf.blockNo.toNat d.sectorBuf.targetAddr hnew h.lt))

theorem Receives.refines {token : Word} {d : VirtualDisk} {t t' : Option Transfer}
    {r : VirtualDisk × Bool} (h : Receives token d t r t') (hd : Refines d t) :
    Refines r.1 t' := by
  cases h with
  | ignored => exact hd
  | rejected _ _ hinvalid => exact hinvalid
  | duplicate _ hcur => exact hcur.prepared token _
  | queued h hcur _ hnew => exact hcur.queueBlock token _ h.ram hnew h.lt

theorem Receives.refinesFor {token n : Word} {d : VirtualDisk} {t t' : Option Transfer}
    {r : VirtualDisk × Bool} (h : Receives token d t r t') (hd : RefinesFor n d t) :
    RefinesFor n r.1 t' := by
  cases h with
  | ignored => exact hd
  | rejected _ _ hinvalid => exact fun hn h0 => hn (h0.symm.trans hinvalid)
  | duplicate _ hcur => exact hcur.prepared token _
  | queued h hcur _ hnew => exact hcur.queueBlock token _ h.ram hnew h.lt

theorem transfer_current {uf2 : Uf2Block} {d : VirtualDisk} {t : Option Transfer}
    (h : RefinesFor uf2.numBlocks d t) (hne : uf2.numBlocks ≠ 0)
    (hfits : opens uf2 d = true → uf2.numBlocks.toNat ≤ capacity uf2.ram) :
    ∃ t', uf2.transfer t = some t' := by
  cases hopens : opens uf2 d with
  | true =>
    have hpos : 0 < uf2.numBlocks.toNat :=
      Nat.pos_of_ne_zero fun h0 => hne (BitVec.eq_of_toNat_eq h0)
    rw [transfer_of_opens h hopens, Uf2Block.start, dif_pos ⟨hpos, hfits hopens⟩]
    exact ⟨_, rfl⟩
  | false =>
    obtain ⟨t', -, ht'⟩ := transfer_of_not_opens h hopens hne
    exact ⟨t', ht'⟩

theorem prepareUf2Task_of_not {uf2 : Uf2Block} {token : Word} {type : Byte} {d : VirtualDisk}
    (h : ¬(uf2.ram = d.uf2Info.ram ∧ uf2.blockNo < uf2.numBlocks)) :
    prepareUf2Task uf2 token type d = (invalidateUf2Info d, false) := by
  unfold prepareUf2Task
  split
  · rfl
  · next hram =>
    rw [if_neg fun hlt => h ⟨by simpa using hram, hlt⟩]

/-- A block that is not accepted ends the transfer. -/
theorem updateCurrentUf2Info_of_not_accepted {uf2 : Uf2Block} {d : VirtualDisk}
    {t : Option Transfer} (token : Word) (h : RefinesFor uf2.numBlocks d t)
    (hfor : uf2.forRp2040 = true)
    (hna : ∀ t', ¬uf2.Accepted d.virtualDiskQueue.disable t t') :
    ∃ d', updateCurrentUf2Info uf2 token d = (d', false) ∧ d'.uf2Info.numBlocks = 0 ∧
      d'.virtualDiskQueue = d.virtualDiskQueue := by
  cases hgarbage : uf2.garbage with
  | true => exact ⟨invalidateUf2Info d, by simp [updateCurrentUf2Info, hgarbage], rfl, rfl⟩
  | false =>
  cases hdisable : d.virtualDiskQueue.disable with
  | true =>
    exact ⟨invalidateUf2Info d, by simp [updateCurrentUf2Info, hgarbage, hdisable], rfl, rfl⟩
  | false =>
  -- the reasons that remain are the size of the image, its kind and the number of the block
  have hne := Uf2Block.numBlocks_ne_zero_of_not_garbage hgarbage
  have hreject (hfits : opens uf2 d = true → uf2.numBlocks.toNat ≤ capacity uf2.ram) :
      ¬(uf2.ram = (current uf2 d).uf2Info.ram ∧ uf2.blockNo < uf2.numBlocks) := by
    rintro ⟨hram, hlt⟩
    obtain ⟨t', ht'⟩ := transfer_current h hne hfits
    have htr := tracks_current h ht' fun hram => Uf2Block.flash_of_not_garbage hgarbage hram
    refine hna t' ⟨hfor, hgarbage, hdisable, ht', hram.trans htr.ram, ?_⟩
    rw [Uf2Block.numBlocks_transfer ht']
    exact hlt
  rw [updateCurrentUf2Info, if_neg (by simp [hgarbage]), if_neg (by simp [hdisable])]
  cases hopens : opens uf2 d with
  | true =>
    have hcur : current uf2 d = openTransfer uf2 d := if_pos hopens
    rw [if_pos (show d.uf2Info.numBlocks ≠ uf2.numBlocks by simpa [opens] using hopens)]
    by_cases hbig : (resetUf2Info uf2 d).uf2Info.maxValidBlocks < uf2.numBlocks
    · rw [if_pos hbig]
      exact ⟨_, rfl, resetUf2Info_numBlocks uf2 d, resetUf2Info_virtualDiskQueue uf2 d⟩
    · rw [if_neg hbig]
      rw [BitVec.lt_def, resetUf2Info_maxValidBlocks, Nat.not_lt] at hbig
      have hnot := hreject fun _ => hbig
      rw [hcur] at hnot
      refine ⟨_, prepareUf2Task_of_not hnot, rfl, ?_⟩
      exact openTransfer_virtualDiskQueue uf2 d
  | false =>
    have hcur : current uf2 d = d := by simp [current, hopens]
    rw [if_neg (show ¬d.uf2Info.numBlocks ≠ uf2.numBlocks by simpa [opens] using hopens)]
    have hnot := hreject fun h => absurd h (by simp [hopens])
    rw [hcur] at hnot
    exact ⟨_, prepareUf2Task_of_not hnot, rfl, rfl⟩

/-- The cases of `vd_write_block`. -/
theorem vdWriteBlock_cases (token : Word) {d : VirtualDisk} {t : Option Transfer}
    (h : RefinesFor d.sectorBuf.numBlocks d t) :
    ∃ t', Receives token d t (vdWriteBlock token d) t' := by
  unfold vdWriteBlock
  cases hfor : d.sectorBuf.forRp2040 with
  | false => exact ⟨t, .ignored hfor⟩
  | true =>
  rw [if_pos rfl]
  by_cases ha : ∃ t', d.sectorBuf.Accepted d.virtualDiskQueue.disable t t'
  · obtain ⟨t', ha⟩ := ha
    have hcur := ha.tracks_current h
    rw [updateCurrentUf2Info_of_accepted token h ha]
    dsimp only
    rw [if_pos rfl, writeUf2Page_prepared token _ hcur ha.ram ha.lt]
    cases hmark : (current d.sectorBuf d).testBitmap (validBlocksPtr t'.ram)
        d.sectorBuf.blockNo.toNat with
    | true => exact ⟨_, .duplicate ha hcur hmark⟩
    | false =>
      have hnew : d.sectorBuf.blockNo.toNat ∉ t'.numbers := fun hmem => by
        rw [hcur.marked _ hmem] at hmark
        cases hmark
      exact ⟨_, .queued ha hcur hmark hnew⟩
  · obtain ⟨d', heq, hinvalid, hqueue⟩ :=
      updateCurrentUf2Info_of_not_accepted token h hfor fun t' ht' => ha ⟨t', ht'⟩
    rw [heq]
    exact ⟨none, .rejected hfor (fun t' ht' => ha ⟨t', ht'⟩) hinvalid hqueue⟩

end PicoBootrom
