import PicoBootrom.AsyncTask

/-!
# The UF2 side of the virtual disk

`virtual_disk.c` turns the sectors a host writes into tasks. `_uf2_info` tracks the image
being received : a bitmap of the blocks seen, the number of them, the lowest address, and
for flash images a bitmap of the sectors already erased. The tracking state is updated when
a block is queued, before its task has run.

The bitmap of a RAM image is the static array `uf2_valid_ram_blocks`. Both bitmaps of a
flash image are in XIP SRAM, which a task can write to, so they are read from and stored to
the memory of the machine.
-/

namespace PicoBootrom

/-! ## Tracking state -/

/-- Where a bitmap is : nowhere, in `uf2_valid_ram_blocks`, or at an address. -/
inductive BitmapPtr
  | null
  | uf2ValidRamBlocks
  | mem (addr : Word)
  deriving DecidableEq, Repr

/-- `struct uf2_info`. The defaults are those of `memset0`. -/
structure Uf2Info where
  validBlocks : BitmapPtr := .null
  maxValidBlocks : Word := 0
  clearedPages : BitmapPtr := .null
  maxClearedPages : Word := 0
  numBlocks : Word := 0
  token : Word := 0
  validBlockCount : Word := 0
  lowestAddr : Word := 0
  blockNo : Word := 0
  nextTask : AsyncTask := {}
  ram : Bool := false
  deriving DecidableEq, Repr

/-- The machine with the statics of `virtual_disk.c`. -/
structure VirtualDisk extends Machine where
  uf2Info : Uf2Info
  /-- `uf2_valid_ram_blocks`, by byte offset. -/
  uf2ValidRamBlocks : Memory 32

/-- `MAX_RAM_UF2_BLOCKS`, which is `count_of(uf2_valid_ram_blocks) * 32`. -/
def maxRamUf2Blocks : Word := 1280

/-- `FLASH_MAX_VALID_BLOCKS`. -/
def flashMaxValidBlocks : Word :=
  BitVec.ofNat 32 (flashBitmapsSize.toNat * 8 * 4096 / (256 + 4096)) &&& ~~~31

/-- `FLASH_CLEARED_PAGES_BASE`. -/
def flashClearedPagesBase : Word := flashValidBlocksBase + flashMaxValidBlocks / 8

/-- `FLASH_MAX_CLEARED_PAGES`. -/
def flashMaxClearedPages : Word := flashMaxValidBlocks * flashPageSize / flashSectorEraseSize

namespace VirtualDisk

/-- `bitmap[i / 32] & (1u << (i & 31))`. -/
def testBitmap (d : VirtualDisk) : BitmapPtr → ℕ → Bool
  | .null, i => d.mem.testBit 0 i
  | .uf2ValidRamBlocks, i => d.uf2ValidRamBlocks.testBit 0 i
  | .mem addr, i => d.mem.testBit addr i

theorem testBitmap_congr {d d' : VirtualDisk} (hmem : d'.mem = d.mem)
    (hram : d'.uf2ValidRamBlocks = d.uf2ValidRamBlocks) (p : BitmapPtr) (i : ℕ) :
    d'.testBitmap p i = d.testBitmap p i := by
  cases p <;> simp only [testBitmap, hmem, hram]

/-- `bitmap[i / 32] |= 1u << (i & 31)`. -/
def setBitmap (d : VirtualDisk) (p : BitmapPtr) (i : ℕ) : VirtualDisk :=
  match p with
  | .null => d
  | .uf2ValidRamBlocks => { d with uf2ValidRamBlocks := d.uf2ValidRamBlocks.setBit 0 i }
  | .mem addr => { d with mem := d.mem.setBit addr i }

/-- `_clear_bitset`. -/
def clearBitset (d : VirtualDisk) (p : BitmapPtr) (count : Word) : VirtualDisk :=
  match p with
  | .null => d
  | .uf2ValidRamBlocks =>
    { d with uf2ValidRamBlocks := d.uf2ValidRamBlocks.fill 0 (count / 8).toNat 0 }
  | .mem addr => { d with mem := d.mem.fill addr (count / 8).toNat 0 }

end VirtualDisk

/-! ## Receiving a block -/

/-- The page of the block is in RAM. -/
def Uf2Block.ram (uf2 : Uf2Block) : Bool :=
  isAddressRam uf2.targetAddr && isAddressRam (uf2.targetAddr + flashPageMask)

/-- The page of the block is in the flash window. -/
def Uf2Block.flash (uf2 : Uf2Block) : Bool :=
  isAddressFlash uf2.targetAddr && isAddressFlash (uf2.targetAddr + flashPageMask)

/-- The block has no place to go, or not a whole page of flash. -/
def Uf2Block.garbage (uf2 : Uf2Block) : Bool :=
  !(uf2.numBlocks != 0 && (uf2.ram || uf2.flash)) ||
    (uf2.flash && uf2.targetAddr &&& flashPageMask != 0)

/-- A new image size : the tracking state cleared, with the bitmaps of the new kind. -/
def resetUf2Info (uf2 : Uf2Block) (d : VirtualDisk) : VirtualDisk :=
  let d := { d with uf2Info :=
    { ram := uf2.ram
      validBlocks := if uf2.ram then .uf2ValidRamBlocks else .mem flashValidBlocksBase
      maxValidBlocks := if uf2.ram then maxRamUf2Blocks else flashMaxValidBlocks } }
  let d := d.clearBitset d.uf2Info.validBlocks d.uf2Info.maxValidBlocks
  if uf2.flash then
    let d := { d with uf2Info := { d.uf2Info with
      clearedPages := .mem flashClearedPagesBase
      maxClearedPages := flashMaxClearedPages } }
    d.clearBitset d.uf2Info.clearedPages d.uf2Info.maxClearedPages
  else d

/-- `_uf2_info.num_blocks = 0`, the marker that the tracking state is invalid. -/
def invalidateUf2Info (d : VirtualDisk) : VirtualDisk :=
  { d with uf2Info := { d.uf2Info with numBlocks := 0 } }

/-- The end of `_update_current_uf2_info` : the task of the block, if the image it is for
is the one being received. -/
def prepareUf2Task (uf2 : Uf2Block) (token : Word) (type : Byte) (d : VirtualDisk) :
    VirtualDisk × Bool :=
  if uf2.ram != d.uf2Info.ram then (invalidateUf2Info d, false)
  else if uf2.blockNo < uf2.numBlocks then
    ({ d with uf2Info := { d.uf2Info with
        blockNo := uf2.blockNo
        token := token
        nextTask := { resetTask with
          token := token
          transferAddr := uf2.targetAddr
          type := type
          data := .uf2Data
          callback := .writeUf2PageComplete
          dataLength := flashPageSize
          source := .virtualDisk } } }, true)
  else (invalidateUf2Info d, false)

/-- `_update_current_uf2_info`. -/
def updateCurrentUf2Info (uf2 : Uf2Block) (token : Word) (d : VirtualDisk) :
    VirtualDisk × Bool :=
  if uf2.garbage then (invalidateUf2Info d, false)
  else if d.virtualDiskQueue.disable then (invalidateUf2Info d, false)
  else if d.uf2Info.numBlocks ≠ uf2.numBlocks then
    let d := resetUf2Info uf2 d
    if d.uf2Info.maxValidBlocks < uf2.numBlocks then (d, false)
    else
      let d := { d with uf2Info := { d.uf2Info with
        numBlocks := uf2.numBlocks
        validBlockCount := 0
        lowestAddr := 0xffffffff } }
      prepareUf2Task uf2 token (if uf2.flash then atWrite ||| atExitXip else atWrite) d
  else prepareUf2Task uf2 token atWrite d

/-! ## Queueing a page -/

/-- `_uf2_info.lowest_addr` after a block at `next`, where XIP SRAM is not preferred to
SRAM although its addresses are lower. -/
def lowerAddr (lowest next : Word) : Word :=
  let xipCacheNext := next < sramBase
  let xipCacheLowest := lowest < sramBase
  if (next < lowest ∧ (xipCacheNext ↔ xipCacheLowest)) ∨
      (xipCacheLowest ∧ ¬xipCacheNext) then
    next
  else lowest

/-- The number of the erase sector of the block, counted in blocks of the image. -/
def Uf2Info.pageNo (u : Uf2Info) : ℕ :=
  (u.blockNo * 256 / flashSectorEraseSize).toNat

/-- The flash branch of `_write_uf2_page` : the first block of a page also erases. -/
def eraseOnFirstUse (d : VirtualDisk) : VirtualDisk :=
  let u := d.uf2Info
  if d.testBitmap u.clearedPages u.pageNo then d
  else
    let d := d.setBitmap u.clearedPages u.pageNo
    { d with uf2Info := { u with nextTask := { u.nextTask with
        eraseAddr := sectorOf u.nextTask.transferAddr
        eraseSize := flashSectorEraseSize
        type := u.nextTask.type ||| atFlashErase } } }

/-- `_write_uf2_page`. -/
def writeUf2Page (d : VirtualDisk) : VirtualDisk × Bool :=
  if d.testBitmap d.uf2Info.validBlocks d.uf2Info.blockNo.toNat then (d, false)
  else
    let d := { d with uf2Info := { d.uf2Info with
      lowestAddr := lowerAddr d.uf2Info.lowestAddr d.uf2Info.nextTask.transferAddr } }
    let d := if d.uf2Info.ram then d else eraseOnFirstUse d
    let d := { d with uf2Info := { d.uf2Info with
      validBlockCount := d.uf2Info.validBlockCount + 1 } }
    let d := d.setBitmap d.uf2Info.validBlocks d.uf2Info.blockNo.toNat
    let q := queueTask d.virtualDiskQueue d.uf2Info.nextTask .writeUf2PageComplete
    ({ d with
        virtualDiskQueue := q.1
        uf2Info := { d.uf2Info with
          nextTask := { q.2 with checkLastMutationSource := true } } }, true)

/-! ## The interface of the disk -/

def uf2MagicStart0 : Word := 0x0A324655
def uf2MagicStart1 : Word := 0x9E5D5157
def uf2MagicEnd : Word := 0x0AB16F30
def uf2FlagNotMainFlash : Word := 0x00000001
def uf2FlagFamilyIdPresent : Word := 0x00002000
def rp2040FamilyId : Word := 0xe48bff56

/-- The sector is a UF2 block for this chip. -/
def Uf2Block.forRp2040 (uf2 : Uf2Block) : Bool :=
  (uf2.magicStart0 == uf2MagicStart0 && uf2.magicStart1 == uf2MagicStart1 &&
    uf2.magicEnd == uf2MagicEnd) &&
  (uf2.flags &&& uf2FlagFamilyIdPresent != 0 && uf2.fileSize == rp2040FamilyId &&
    uf2.flags &&& uf2FlagNotMainFlash == 0 && uf2.payloadSize == 256)

/-- `vd_write_block`, on the sector in `_sector_buf`. The result is true if a task will
complete the sector later. -/
def vdWriteBlock (token : Word) (d : VirtualDisk) : VirtualDisk × Bool :=
  if d.sectorBuf.forRp2040 then
    let r := updateCurrentUf2Info d.sectorBuf token d
    if r.2 then writeUf2Page r.1 else (r.1, false)
  else (d, false)

/-- `vd_reset`. -/
def vdReset (d : VirtualDisk) : VirtualDisk :=
  invalidateUf2Info d

/-- `_write_uf2_page_complete`, up to its call of `vd_async_complete`. -/
def writeUf2PageComplete (task : AsyncTask) (d : VirtualDisk) : VirtualDisk :=
  if task.token = d.uf2Info.token then
    if task.result = 0 ∧ d.uf2Info.validBlockCount = d.uf2Info.numBlocks then
      { d with toMachine :=
          safeReboot (if d.uf2Info.ram then d.uf2Info.lowestAddr else 0) sramEnd 1000 d.toMachine }
    else d
  else d

/-- `execute_task` for `virtual_disk_queue`, up to the callback : the task with its
result. -/
def executeVirtualDiskTask (env : Env) (task : AsyncTask) (d : VirtualDisk) :
    VirtualDisk × AsyncTask :=
  if d.virtualDiskQueue.disable then (d, { task with result := 1 })
  else
    let r := executeTask env task d.toMachine
    ({ d with toMachine := r.1 }, { task with result := r.2 })

end PicoBootrom
