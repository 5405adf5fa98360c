import PicoBootrom.Delivery
import PicoBootrom.Uf2Transfer

/-!
# The bitmaps of a new flash transfer

The bitmaps of a flash image fill XIP SRAM to its last byte : 15420 bytes for 123360 blocks, and
behind them one bit for each of 7710 pages. `_clear_bitset` is given the number of bits and clears
an eighth of it in bytes, which drops the six bits of the last byte. So these keep what XIP SRAM had
in them before, and the pages of the last 96 blocks have their bits there.
-/

namespace PicoBootrom

/-- The block is accepted as the first of a new flash transfer. -/
structure StartsFlash (uf2 : Uf2Block) (d : VirtualDisk) : Prop where
  notGarbage : uf2.garbage = false
  ram : uf2.ram = false
  enabled : d.virtualDiskQueue.disable = false
  opens : opens uf2 d = true
  fits : uf2.numBlocks.toNat ≤ flashMaxValidBlocks.toNat
  lt : uf2.blockNo < uf2.numBlocks

/-- The bytes of the words in which the bits of a bitmap are looked up. -/
def bitmapBytes (count : Word) : ℕ :=
  4 * ((count.toNat + 31) / 32)

/-- The bits that `_clear_bitset` clears. -/
def clearedBits (count : Word) : ℕ :=
  8 * (count / 8).toNat

/-- A range of bytes in `[XIP_SRAM_BASE, XIP_SRAM_END)`. -/
def InXipSram (base : Word) (n : ℕ) : Prop :=
  xipSramBase.toNat ≤ base.toNat ∧ base.toNat + n ≤ xipSramEnd.toNat

/-- What the start of a flash transfer has to see to : no bit of either bitmap is set, the bitmaps
have their own bytes of XIP SRAM, and the page of every block is looked up in the part that is
cleared. -/
structure BitmapsFresh (d : VirtualDisk) : Prop where
  validBlocks : ∀ i < d.uf2Info.maxValidBlocks.toNat,
    d.testBitmap d.uf2Info.validBlocks i = false
  clearedPages : ∀ p < d.uf2Info.maxClearedPages.toNat,
    d.testBitmap d.uf2Info.clearedPages p = false
  places : ∃ a b, d.uf2Info.validBlocks = .mem a ∧ d.uf2Info.clearedPages = .mem b ∧
    InXipSram a (bitmapBytes d.uf2Info.maxValidBlocks) ∧
    InXipSram b (bitmapBytes d.uf2Info.maxClearedPages) ∧
    Memory.Disjoint a (bitmapBytes d.uf2Info.maxValidBlocks)
      b (bitmapBytes d.uf2Info.maxClearedPages)
  pages : ∀ b < d.uf2Info.numBlocks,
    { d.uf2Info with blockNo := b }.pageNo < clearedBits d.uf2Info.maxClearedPages

section Start

variable {uf2 : Uf2Block} {d : VirtualDisk}

theorem StartsFlash.flash (h : StartsFlash uf2 d) : uf2.flash = true :=
  Uf2Block.flash_of_not_garbage h.notGarbage h.ram

/-- The tracking state that the block is looked up in. -/
theorem StartsFlash.update (h : StartsFlash uf2 d) (token : Word) :
    ∃ task, (updateCurrentUf2Info uf2 token d).1 = { openTransfer uf2 d with
      uf2Info := { (openTransfer uf2 d).uf2Info with
        blockNo := uf2.blockNo
        token := token
        nextTask := task } } := by
  have hopens : d.uf2Info.numBlocks ≠ uf2.numBlocks := by simpa [PicoBootrom.opens] using h.opens
  have hfits : ¬(resetUf2Info uf2 d).uf2Info.maxValidBlocks < uf2.numBlocks := by
    rw [BitVec.lt_def, resetUf2Info_maxValidBlocks, h.ram, Nat.not_lt]
    exact h.fits
  have hram : (uf2.ram != (resetUf2Info uf2 d).uf2Info.ram) = false := by
    rw [resetUf2Info_ram, bne_self_eq_false]
  rw [updateCurrentUf2Info, h.notGarbage, if_neg Bool.false_ne_true, h.enabled,
    if_neg Bool.false_ne_true, if_pos hopens]
  dsimp only
  rw [if_neg hfits, prepareUf2Task]
  dsimp only
  rw [hram, if_neg Bool.false_ne_true, if_pos h.lt]
  exact ⟨_, rfl⟩

theorem bitmapBytes_validBlocks : bitmapBytes flashMaxValidBlocks = 15420 := by
  rw [bitmapBytes, flashMaxValidBlocks_toNat]

theorem bitmapBytes_clearedPages : bitmapBytes flashMaxClearedPages = 964 := by
  rw [bitmapBytes, flashMaxClearedPages_toNat]

theorem clearedBits_pages : clearedBits flashMaxClearedPages = 7704 := by
  decide

/-- The bitmaps are behind one another, up to the end of XIP SRAM. -/
theorem bitmaps_inXipSram :
    InXipSram flashValidBlocksBase (bitmapBytes flashMaxValidBlocks) ∧
      InXipSram flashClearedPagesBase (bitmapBytes flashMaxClearedPages) ∧
      Memory.Disjoint flashValidBlocksBase (bitmapBytes flashMaxValidBlocks)
        flashClearedPagesBase (bitmapBytes flashMaxClearedPages) := by
  have hvalid : flashValidBlocksBase.toNat = 0x15000000 := rfl
  have hbase : xipSramBase.toNat = 0x15000000 := rfl
  have hend : xipSramEnd.toNat = 0x15004000 := rfl
  rw [InXipSram, InXipSram, bitmapBytes_validBlocks, bitmapBytes_clearedPages,
    flashClearedPagesBase_toNat, hvalid, hbase, hend]
  refine ⟨by decide, by decide, Memory.disjoint_of_le ?_ ?_⟩
  · rw [flashClearedPagesBase_toNat, hvalid]
  · rw [flashClearedPagesBase_toNat]
    decide

/-- The start of a flash transfer finds no bit set, and looks up every page in the part of the
bitmap that is cleared, if and only if the six bits that are not cleared were zero and no block has
its page there. -/
theorem bitmaps_fresh_iff (h : StartsFlash uf2 d) (token : Word) :
    BitmapsFresh (updateCurrentUf2Info uf2 token d).1 ↔
      (∀ p, 7704 ≤ p → p < 7710 → d.testBitmap (.mem flashClearedPagesBase) p = false) ∧
        uf2.numBlocks.toNat ≤ 123264 := by
  obtain ⟨task, hupdate⟩ := h.update token
  have hfits := h.fits
  rw [flashMaxValidBlocks_toNat] at hfits
  have hmem : (updateCurrentUf2Info uf2 token d).1.mem = (resetUf2Info uf2 d).mem := by
    rw [hupdate]
    rfl
  have hram : (updateCurrentUf2Info uf2 token d).1.uf2ValidRamBlocks =
      (resetUf2Info uf2 d).uf2ValidRamBlocks := by
    rw [hupdate]
    rfl
  have hbit := VirtualDisk.testBitmap_congr hmem hram
  have hvalid : (updateCurrentUf2Info uf2 token d).1.uf2Info.validBlocks =
      .mem flashValidBlocksBase := by
    rw [hupdate]
    exact (resetUf2Info_validBlocks uf2 d).trans (by rw [h.ram]; rfl)
  have hcleared : (updateCurrentUf2Info uf2 token d).1.uf2Info.clearedPages =
      .mem flashClearedPagesBase := by
    rw [hupdate]
    exact resetUf2Info_clearedPages uf2 d h.flash
  have hmaxValid : (updateCurrentUf2Info uf2 token d).1.uf2Info.maxValidBlocks =
      flashMaxValidBlocks := by
    rw [hupdate]
    refine BitVec.eq_of_toNat_eq ((resetUf2Info_maxValidBlocks uf2 d).trans ?_)
    rw [h.ram]
    rfl
  have hmaxCleared : (updateCurrentUf2Info uf2 token d).1.uf2Info.maxClearedPages =
      flashMaxClearedPages := by
    rw [hupdate]
    change (resetUf2Info uf2 d).uf2Info.maxClearedPages = _
    unfold resetUf2Info
    simp [h.flash]
  have hnum : (updateCurrentUf2Info uf2 token d).1.uf2Info.numBlocks = uf2.numBlocks := by
    rw [hupdate]
    rfl
  have hpage (b : Word) (hb : b < uf2.numBlocks) :
      { (updateCurrentUf2Info uf2 token d).1.uf2Info with blockNo := b }.pageNo = b.toNat / 16 := by
    rw [BitVec.lt_def] at hb
    exact pageNo_eq (u := { (updateCurrentUf2Info uf2 token d).1.uf2Info with blockNo := b })
      (Nat.lt_of_lt_of_le hb hfits)
  have hstale {p : ℕ} (hp : p < 7710) := testBitmap_clearedPages_resetUf2Info uf2 d h.flash h.ram hp
  constructor
  · intro hfresh
    refine ⟨fun p hle hlt => ?_, ?_⟩
    · have hclear := hfresh.clearedPages p (by rwa [hmaxCleared, flashMaxClearedPages_toNat])
      rwa [hbit, hcleared, hstale hlt, decide_eq_true hle, Bool.true_and] at hclear
    · by_contra hbig
      have hb : (123264 : Word) < uf2.numBlocks := by
        rw [BitVec.lt_def]
        exact Nat.lt_of_not_le hbig
      have hlast := hfresh.pages 123264 (by rwa [hnum])
      rw [hpage _ hb, hmaxCleared, clearedBits_pages] at hlast
      exact absurd hlast (by decide)
  · rintro ⟨hzero, hsmall⟩
    refine ⟨fun i hi => ?_, fun p hp => ?_, ⟨_, _, hvalid, hcleared, ?_⟩, fun b hb => ?_⟩
    · rw [hmaxValid, flashMaxValidBlocks_toNat] at hi
      have hclear := testBitmap_resetUf2Info uf2 d (i := i) (by rwa [h.ram, capacity_false])
      rw [h.ram] at hclear
      rw [hbit, hvalid]
      exact hclear
    · rw [hmaxCleared, flashMaxClearedPages_toNat] at hp
      rw [hbit, hcleared, hstale hp]
      by_cases hle : 7704 ≤ p
      · rw [hzero p hle hp, Bool.and_false]
      · rw [decide_eq_false hle, Bool.false_and]
    · rw [hmaxValid, hmaxCleared]
      exact bitmaps_inXipSram
    · rw [hnum] at hb
      rw [hpage b hb, hmaxCleared, clearedBits_pages]
      rw [BitVec.lt_def] at hb
      omega

end Start

/-- The first of two blocks for the start of flash. -/
def firstOfTwo : Uf2Block :=
  uf2Block 2 0 xipMainBase fun _ => 0

theorem startsFlash_firstOfTwo (mem : Memory 32) :
    StartsFlash firstOfTwo { powerOn with mem := mem } where
  notGarbage := by decide
  ram := by decide
  enabled := rfl
  opens := rfl
  fits := by decide
  lt := by decide

/-- XIP SRAM is zero. -/
theorem bitmaps_fresh_iff_zeros :
    BitmapsFresh (updateCurrentUf2Info firstOfTwo 1 { powerOn with mem := fun _ => 0 }).1 :=
  (bitmaps_fresh_iff (startsFlash_firstOfTwo fun _ => 0) 1).mpr
    ⟨fun p hle hlt => by
      obtain ⟨k, hk⟩ : ∃ k : Fin 6, p = 7704 + k := 
        ⟨⟨p - 7704, by omega⟩, (Nat.add_sub_cancel' hle).symm⟩
      subst hk
      revert k
      decide, by decide⟩

/-- XIP SRAM has all bits set, and the transfer finds a page taken as erased. -/
theorem bitmaps_not_fresh : StartsFlash firstOfTwo { powerOn with mem := fun _ => 0xff } ∧
    ¬BitmapsFresh (updateCurrentUf2Info firstOfTwo 1 { powerOn with mem := fun _ => 0xff }).1 := by
  refine ⟨startsFlash_firstOfTwo _, fun h => ?_⟩
  have hclear := h.clearedPages 7704 (by decide)
  have hset : (updateCurrentUf2Info firstOfTwo 1 { powerOn with mem := fun _ => 0xff }).1.testBitmap
      (updateCurrentUf2Info firstOfTwo 1
        { powerOn with mem := fun _ => 0xff }).1.uf2Info.clearedPages 7704 = true := by
    decide +kernel
  exact absurd (hset.symm.trans hclear) (by decide)

end PicoBootrom
