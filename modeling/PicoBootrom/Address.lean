import PicoBootrom.ByteMemory

/-!
# The address map

The windows a task may touch, with the predicates of `usb_boot_device.h` that decide
membership. Each predicate is inclusive at both ends : callers test the start of a range
and the address one past it, or its last byte, so the upper bound is the first address
outside the window. XIP SRAM lies inside the flash window, so an address can satisfy
`isAddressRam` and `isAddressFlash` at once.
-/

namespace PicoBootrom

/-- `uint8_t`. -/
abbrev Byte := BitVec 8

/-- `uint32_t`, and the addresses of the device. -/
abbrev Word := BitVec 32

/-! ## Windows -/

def xipMainBase : Word := 0x10000000
def xipSramBase : Word := 0x15000000
def xipSramEnd : Word := 0x15004000
def sramBase : Word := 0x20000000
def sramEnd : Word := 0x20042000

/-- `FLASH_PAGE_SIZE`. -/
def flashPageSize : Word := 256

/-- `FLASH_PAGE_MASK`. -/
def flashPageMask : Word := flashPageSize - 1

/-- `FLASH_SECTOR_ERASE_SIZE`. -/
def flashSectorEraseSize : Word := 4096

/-- `is_address_ram`. -/
def isAddressRam (addr : Word) : Bool :=
  (sramBase ≤ addr && addr ≤ sramEnd) || (xipSramBase ≤ addr && addr ≤ xipSramEnd)

/-- `is_address_flash`. -/
def isAddressFlash (addr : Word) : Bool :=
  xipMainBase ≤ addr && addr ≤ sramBase

/-- `is_address_rom`. -/
def isAddressRom (addr : Word) : Bool :=
  addr < 8192

theorem isAddressRam_iff (a : Word) : isAddressRam a = true ↔
    (0x20000000 ≤ a.toNat ∧ a.toNat ≤ 0x20042000) ∨
      (0x15000000 ≤ a.toNat ∧ a.toNat ≤ 0x15004000) := by
  simp only [isAddressRam, Bool.or_eq_true, Bool.and_eq_true, decide_eq_true_eq, BitVec.le_def]
  rfl

theorem isAddressFlash_iff (a : Word) :
    isAddressFlash a = true ↔ 0x10000000 ≤ a.toNat ∧ a.toNat ≤ 0x20000000 := by
  simp only [isAddressFlash, Bool.and_eq_true, decide_eq_true_eq, BitVec.le_def]
  rfl

theorem isAddressRom_iff (a : Word) : isAddressRom a = true ↔ a.toNat < 8192 := by
  simp only [isAddressRom, decide_eq_true_eq, BitVec.lt_def]
  rfl

/-! ## Alignment -/

theorem and_pageMask (a : Word) : (a &&& flashPageMask).toNat = a.toNat % 256 := by
  rw [BitVec.toNat_and]
  exact Nat.and_two_pow_sub_one_eq_mod a.toNat 8

theorem and_pageMask_eq_zero (a : Word) : a &&& flashPageMask = 0 ↔ a.toNat % 256 = 0 := by
  rw [← BitVec.toNat_inj, and_pageMask]
  rfl

theorem and_sectorMask (a : Word) :
    (a &&& (flashSectorEraseSize - 1)).toNat = a.toNat % 4096 := by
  rw [BitVec.toNat_and]
  exact Nat.and_two_pow_sub_one_eq_mod a.toNat 12

theorem and_sectorMask_eq_zero (a : Word) :
    a &&& (flashSectorEraseSize - 1) = 0 ↔ a.toNat % 4096 = 0 := by
  rw [← BitVec.toNat_inj, and_sectorMask]
  rfl

/-- The start of the erase sector that holds `a`. -/
def sectorOf (a : Word) : Word :=
  a &&& ~~~(flashSectorEraseSize - 1)

theorem sectorOf_toNat (a : Word) : (sectorOf a).toNat = a.toNat / 4096 * 4096 := by
  have hsplit : (sectorOf a).toNat + (a &&& (flashSectorEraseSize - 1)).toNat = a.toNat := by
    have hdisj : sectorOf a &&& (a &&& (flashSectorEraseSize - 1)) = 0#32 := by
      unfold sectorOf
      ext i hi
      simp only [BitVec.getElem_and, BitVec.getElem_not, BitVec.getElem_zero]
      cases a[i] <;> cases (flashSectorEraseSize - 1)[i] <;> rfl
    have hor : sectorOf a ||| (a &&& (flashSectorEraseSize - 1)) = a := by
      unfold sectorOf
      ext i hi
      simp only [BitVec.getElem_or, BitVec.getElem_and, BitVec.getElem_not]
      cases a[i] <;> cases (flashSectorEraseSize - 1)[i] <;> rfl
    rw [← BitVec.toNat_add_of_and_eq_zero hdisj, BitVec.add_eq_or_of_and_eq_zero _ _ hdisj, hor]
  rw [and_sectorMask] at hsplit
  omega

/-- Two addresses are in one erase sector. -/
def SameSector (a b : Word) : Prop :=
  a.toNat / 4096 = b.toNat / 4096

instance (a b : Word) : Decidable (SameSector a b) :=
  inferInstanceAs (Decidable (_ = _))

theorem SameSector.symm {a b : Word} (h : SameSector a b) : SameSector b a :=
  Eq.symm h

theorem SameSector.trans {a b c : Word} (h : SameSector a b) (h' : SameSector b c) :
    SameSector a c :=
  Eq.trans h h'

theorem sameSector_sectorOf (a : Word) : SameSector (sectorOf a) a := by
  rw [SameSector, sectorOf_toNat]
  omega

end PicoBootrom
