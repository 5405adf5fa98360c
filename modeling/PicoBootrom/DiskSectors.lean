import Mathlib.Data.List.GetD
import PicoBootrom.Fat16
import PicoBootrom.MscCommand
import PicoBootrom.TextDecompress

/-!
# The sectors of the virtual disk

`vd_read_block` makes up each sector when it is read, and finds out which one it is by taking the
length of one region after the other from its number. The boot sector, the table and the directory
have been written down separately. A reader that knows nothing but the format finds a FAT16 volume
with the two files on it (`Fat16`).
-/

namespace PicoBootrom

/-! ## Sizes -/

/-- `VOLUME_SIZE`. -/
def volumeSize : ℕ := 128 * 1024 * 1024

/-- `SECTOR_SIZE`. -/
def sectorLen : ℕ := 512

/-- `CLUSTER_SIZE`. -/
def clusterSize : ℕ := 4096

/-- `CLUSTER_SHIFT`. -/
def clusterShift : ℕ := 3

/-- `CLUSTER_COUNT`. -/
def clusterCount : ℕ := volumeSize / clusterSize

/-- `SECTOR_COUNT`. -/
def sectorCount : ℕ := volumeSize / sectorLen

/-- `VOLUME_SECTOR_COUNT`. -/
def volumeSectorCount : ℕ := sectorCount - 1

/-- `FAT_COUNT`. -/
def fatCount : ℕ := 2

/-- `MAX_ROOT_DIRECTORY_ENTRIES`. -/
def maxRootDirectoryEntries : ℕ := 512

/-- `ROOT_DIRECTORY_SECTORS`. -/
def rootDirectorySectors : ℕ := maxRootDirectoryEntries * 32 / sectorLen

/-- `SECTORS_PER_FAT`. -/
def sectorsPerFat : ℕ := 2 * (clusterCount + sectorLen - 1) / sectorLen

/-- `MEDIA_TYPE`. -/
def mediaType : Byte := 0xf8

/-- `PT_FAT16_LBA`. -/
def ptFat16Lba : Byte := 0x0e

/-! ## Tables -/

/-- `lsb_hword`. -/
def lsbHword (x : ℕ) : List Byte := [BitVec.ofNat 8 x, BitVec.ofNat 8 (x / 2 ^ 8)]

/-- `lsb_word`. -/
def lsbWord (x : ℕ) : List Byte :=
  [BitVec.ofNat 8 x, BitVec.ofNat 8 (x / 2 ^ 8), BitVec.ofNat 8 (x / 2 ^ 16),
    BitVec.ofNat 8 (x / 2 ^ 24)]

/-- `boot_sector`. -/
def bootSector : List Byte :=
  [0xeb, 0x3c, 0x90] ++
  [0x4d, 0x53, 0x57, 0x49, 0x4e, 0x34, 0x2e, 0x31] ++
  lsbHword 512 ++
  [BitVec.ofNat 8 (clusterSize / sectorLen)] ++
  lsbHword 1 ++
  [BitVec.ofNat 8 fatCount] ++
  lsbHword maxRootDirectoryEntries ++
  lsbHword (if volumeSectorCount < 65536 then volumeSectorCount else 0) ++
  [mediaType] ++
  lsbHword sectorsPerFat ++
  lsbHword 1 ++
  lsbHword 1 ++
  lsbWord (sectorCount - volumeSectorCount) ++
  lsbWord (if 65536 ≤ volumeSectorCount then volumeSectorCount else 0) ++
  [0] ++
  [0] ++
  [0x29] ++
  [0, 0, 0, 0] ++
  [0x52, 0x50, 0x49, 0x2d, 0x52, 0x50, 0x32, 0x20, 0x20, 0x20, 0x20] ++
  [0x46, 0x41, 0x54, 0x31, 0x36, 0x20, 0x20, 0x20] ++
  [0xeb, 0xfe]

/-- `BOOT_OFFSET_SERIAL_NUMBER`. -/
def bootOffsetSerialNumber : ℕ := 0x27

/-- `BOOT_OFFSET_LABEL`. -/
def bootOffsetLabel : ℕ := 0x2b

/-- `MBR_OFFSET_SERIAL_NUMBER`. -/
def mbrOffsetSerialNumber : ℕ := 0x1b8

/-- `_ptable_data4`. -/
def ptableData4 : List Byte :=
  [ptFat16Lba, 0, 0, 0] ++
  lsbWord 1 ++
  [BitVec.ofNat 8 (sectorCount - 1), BitVec.ofNat 8 ((sectorCount - 1) / 2 ^ 8),
    BitVec.ofNat 8 ((sectorCount - 1) / 2 ^ 16)]

def attrReadonly : Byte := 0x01
def attrVolumeLabel : Byte := 0x08
def attrArchive : Byte := 0x20

/-- `RASPBERRY_PI_TIME_FRAC`. -/
def raspberryPiTimeFrac : Byte := 100

/-- `RASPBERRY_PI_TIME`. -/
def raspberryPiTime : ℕ := 16 * 2 ^ 11 + 20 * 2 ^ 5 + 51 / 2

/-- `RASPBERRY_PI_DATE`. -/
def raspberryPiDate : ℕ := 28 * 2 ^ 9 + 9 * 2 ^ 5 + 5

/-- `struct dir_entry`. -/
structure DiskDirEntry where
  name : List Byte
  attr : Byte := 0
  reserved : Byte := 0
  creationTimeFrac : Byte := 0
  creationTime : ℕ := 0
  creationDate : ℕ := 0
  lastAccessDate : ℕ := 0
  clusterHi : ℕ := 0
  lastModifiedTime : ℕ := 0
  lastModifiedDate : ℕ := 0
  clusterLo : ℕ := 0
  size : ℕ := 0

/-- The 32 bytes of an entry. -/
def DiskDirEntry.bytes (e : DiskDirEntry) : List Byte :=
  e.name ++ [e.attr, e.reserved, e.creationTimeFrac] ++
  lsbHword e.creationTime ++ lsbHword e.creationDate ++ lsbHword e.lastAccessDate ++
  lsbHword e.clusterHi ++ lsbHword e.lastModifiedTime ++ lsbHword e.lastModifiedDate ++
  lsbHword e.clusterLo ++ lsbWord e.size

/-- `init_dir_entry`. -/
def initDirEntry (fn : List Byte) (cluster len : ℕ) : DiskDirEntry where
  name := fn
  attr := attrReadonly ||| attrArchive
  creationTimeFrac := raspberryPiTimeFrac
  creationTime := raspberryPiTime
  creationDate := raspberryPiDate
  lastModifiedTime := raspberryPiTime
  lastModifiedDate := raspberryPiDate
  clusterLo := cluster
  size := len

/-! ## Texts -/

/-- The texts that the generator has written for the build, and the serial number in them. -/
structure DiskTexts where
  welcomeHtmlZ : List Byte
  welcomeHtmlLen : ℕ
  welcomeHtmlVersionOffset1 : ℕ
  welcomeHtmlVersionOffset2 : ℕ
  infoUf2Txt : List Byte
  serialNumberString : List Byte

/-- `poor_mans_text_decompress` into a buffer, which does what `decompress` does
(`leads_textDecompress_buffer`). -/
def textDecompress (data : List Byte) (buf : ℕ → Byte) : ℕ → Byte :=
  match decompress data buf 4096 with
  | some (n, buf') => fun i => if i < n then buf' i else buf i
  | none => buf

/-- The text that is replaced by the serial number. -/
def versionPlaceholder : List Byte :=
  [0x61, 0x61, 0x62, 0x62, 0x63, 0x63, 0x64, 0x64, 0x65, 0x65, 0x66, 0x66]

/-- The offsets of it that the generator finds. -/
def versionOffsets (html : List Byte) : List ℕ :=
  (List.range (html.length - 12)).filter fun i => (html.drop i).take 12 == versionPlaceholder

/-! ## Reading -/

/-- `memcpy` to an offset of a buffer. -/
def memcpyTo (buf : ℕ → Byte) (offset : ℕ) (bytes : List Byte) (i : ℕ) : Byte :=
  if offset ≤ i ∧ i < offset + bytes.length then bytes.getD (i - offset) 0 else buf i

/-- The sector of the partition table. -/
def mbrSector (serial : Word) : ℕ → Byte :=
  let ptable := sectorLen - 2 - 64
  memcpyTo
    (memcpyTo (memcpyTo (fun _ => 0) (ptable + 4) ptableData4) (ptable + 64) [0x55, 0xaa])
    mbrOffsetSerialNumber (wordBytes serial)

/-- The first sector of the volume. -/
def volumeBootSector (serial : Word) : ℕ → Byte :=
  memcpyTo (memcpyTo (fun _ => 0) 0 bootSector) bootOffsetSerialNumber (wordBytes serial)

/-- The first sector of a copy of the table. -/
def fatSector : ℕ → Byte :=
  memcpyTo (fun _ => 0) 0
    (lsbHword (0xff00 + mediaType.toNat) ++ lsbHword 0xffff ++ lsbHword 0xffff ++ lsbHword 0xffff)

/-- `"INDEX   HTM"`. -/
def indexHtmName : List Byte :=
  [0x49, 0x4e, 0x44, 0x45, 0x58, 0x20, 0x20, 0x20, 0x48, 0x54, 0x4d]

/-- `"INFO_UF2TXT"`. -/
def infoUf2TxtName : List Byte :=
  [0x49, 0x4e, 0x46, 0x4f, 0x5f, 0x55, 0x46, 0x32, 0x54, 0x58, 0x54]

/-- The entries of the root directory. -/
def rootDirEntries (texts : DiskTexts) : List DiskDirEntry :=
  [{ name := (bootSector.drop bootOffsetLabel).take 11, attr := attrVolumeLabel ||| attrArchive },
    initDirEntry indexHtmName 2 texts.welcomeHtmlLen,
    initDirEntry infoUf2TxtName 3 texts.infoUf2Txt.length]

/-- The first sector of the root directory. -/
def rootSector (texts : DiskTexts) : ℕ → Byte :=
  memcpyTo (fun _ => 0) 0 ((rootDirEntries texts).flatMap DiskDirEntry.bytes)

/-- The first sector of `INDEX.HTM`. -/
def welcomeSector (texts : DiskTexts) : ℕ → Byte :=
  memcpyTo
    (memcpyTo (textDecompress texts.welcomeHtmlZ fun _ => 0) texts.welcomeHtmlVersionOffset1
      texts.serialNumberString)
    texts.welcomeHtmlVersionOffset2 texts.serialNumberString

/-- The loop that finds out which sector of its copy of the table a sector is. -/
def mirror (lba : ℕ) : ℕ :=
  if sectorsPerFat ≤ lba then mirror (lba - sectorsPerFat) else lba
termination_by lba
decreasing_by
  have hpos : 0 < sectorsPerFat := by decide
  omega

/-- `vd_read_block` with the buffer it fills. -/
def vdReadBlock (texts : DiskTexts) (serial : Word) (lba : ℕ) : ℕ → Byte :=
  if lba = 0 then mbrSector serial
  else
    let lba := lba - 1
    if lba = 0 then volumeBootSector serial
    else
      let lba := lba - 1
      if lba < sectorsPerFat * fatCount then
        if mirror lba = 0 then fatSector else fun _ => 0
      else
        let lba := lba - sectorsPerFat * fatCount
        if lba < rootDirectorySectors then
          if lba = 0 then rootSector texts else fun _ => 0
        else
          let lba := lba - rootDirectorySectors
          let cluster := lba >>> clusterShift
          let clusterOffset := lba - (cluster <<< clusterShift)
          if clusterOffset = 0 then
            if cluster = 0 then welcomeSector texts
            else if cluster = 1 then memcpyTo (fun _ => 0) 0 texts.infoUf2Txt
            else fun _ => 0
          else fun _ => 0

/-! ## Regions -/

section Regions

variable {texts : DiskTexts} {serial : Word}

theorem sectorsPerFat_eq : sectorsPerFat = 129 := rfl

theorem rootDirectorySectors_eq : rootDirectorySectors = 32 := rfl

theorem mirror_eq (lba : ℕ) : mirror lba = lba % sectorsPerFat := by
  induction lba using mirror.induct with
  | case1 lba hle ih => rw [mirror, if_pos hle, ih, ← Nat.mod_eq_sub_mod hle]
  | case2 lba hlt => rw [mirror, if_neg hlt, Nat.mod_eq_of_lt (Nat.lt_of_not_le hlt)]

theorem vdReadBlock_mbr : vdReadBlock texts serial 0 = mbrSector serial := rfl

theorem vdReadBlock_boot : vdReadBlock texts serial 1 = volumeBootSector serial := rfl

theorem vdReadBlock_fat {k i : ℕ} (hk : k < 2) (hi : i < sectorsPerFat) :
    vdReadBlock texts serial (2 + k * sectorsPerFat + i) =
      if i = 0 then fatSector else fun _ => 0 := by
  have hmod : (k * sectorsPerFat + i) % sectorsPerFat = i := by
    rw [Nat.mul_add_mod_self_right, Nat.mod_eq_of_lt hi]
  have hlba : 2 + k * sectorsPerFat + i - 1 - 1 = k * sectorsPerFat + i := by omega
  have hlt : k * sectorsPerFat + i < sectorsPerFat * fatCount := by
    rw [sectorsPerFat_eq] at hi ⊢
    change _ < 129 * 2
    omega
  rw [vdReadBlock, if_neg (by omega)]
  dsimp only
  rw [if_neg (by omega), hlba, if_pos hlt, mirror_eq, hmod]

theorem vdReadBlock_root {i : ℕ} (hi : i < 32) :
    vdReadBlock texts serial (260 + i) = if i = 0 then rootSector texts else fun _ => 0 := by
  have hfat : sectorsPerFat * fatCount = 258 := rfl
  rw [vdReadBlock, if_neg (by omega)]
  dsimp only
  rw [if_neg (by omega), hfat, if_neg (by omega), rootDirectorySectors_eq, if_pos (by omega),
    show 260 + i - 1 - 1 - 258 = i by omega]

theorem vdReadBlock_data (i : ℕ) :
    vdReadBlock texts serial (292 + i) =
      if i = 0 then welcomeSector texts
      else if i = 8 then memcpyTo (fun _ => 0) 0 texts.infoUf2Txt
      else fun _ => 0 := by
  have hfat : sectorsPerFat * fatCount = 258 := rfl
  have hdiv : i >>> clusterShift = i / 8 := Nat.shiftRight_eq_div_pow i 3
  have hmul : (i / 8) <<< clusterShift = i / 8 * 8 := Nat.shiftLeft_eq _ 3
  rw [vdReadBlock, if_neg (by omega)]
  dsimp only
  rw [if_neg (by omega), hfat, if_neg (by omega), rootDirectorySectors_eq, if_neg (by omega),
    show 292 + i - 1 - 1 - 258 - 32 = i by omega, hdiv, hmul]
  rcases Nat.lt_or_ge i 8 with hlt | hge
  · rw [show i / 8 = 0 by omega]
    split_ifs <;> first | rfl | omega
  · split_ifs <;> first | rfl | omega

end Regions

/-! ## The volume -/

open Fat16

/-- Bytes of a list in place of those from an offset on. -/
def overwrite (l : List Byte) (offset : ℕ) (bytes : List Byte) : List Byte :=
  l.take offset ++ bytes ++ l.drop (offset + bytes.length)

/-- What the generator makes of a text, which has to fit into a sector. -/
structure DiskTexts.Generated (texts : DiskTexts) (html : List Byte) : Prop where
  welcomeHtmlZ : ∃ checkBuf, compress checkBuf html = .ok texts.welcomeHtmlZ
  welcomeHtmlLen : texts.welcomeHtmlLen = html.length
  offsets : ∃ rest, versionOffsets html =
    texts.welcomeHtmlVersionOffset1 :: texts.welcomeHtmlVersionOffset2 :: rest
  serialNumberString : texts.serialNumberString.length = 12
  html_le : html.length ≤ 512
  infoUf2Txt_le : texts.infoUf2Txt.length ≤ 512

/-- The text with the serial number in it. -/
def DiskTexts.welcomeHtml (texts : DiskTexts) (html : List Byte) : List Byte :=
  overwrite (overwrite html texts.welcomeHtmlVersionOffset1 texts.serialNumberString)
    texts.welcomeHtmlVersionOffset2 texts.serialNumberString

/-- The numbers of the boot sector. -/
def diskGeometry : Geometry where
  bytesPerSector := 512
  sectorsPerCluster := 8
  reservedSectors := 1
  fatCount := 2
  rootEntries := 512
  sectors := 262143
  sectorsPerFat := 129

/-- The volume of the disk. -/
def diskVolume (texts : DiskTexts) (serial : Word) : Volume where
  disk := vdReadBlock texts serial
  start := 1
  geometry := diskGeometry

section Reader

variable {texts : DiskTexts} {serial : Word} {html : List Byte}

theorem diskGeometry_valid : diskGeometry.Valid where
  bytesPerSector := rfl
  sectorsPerCluster := ⟨3, by decide, rfl⟩
  reservedSectors := by decide
  fatCount := by decide
  root := rfl
  clusters := by decide
  fat := by decide

theorem ofBootSector_volume : Geometry.ofBootSector (volumeBootSector serial) = diskGeometry := by
  have hsmall : Sector.number (volumeBootSector serial) 0x13 2 = 0 := rfl
  have hsectors : Sector.number (volumeBootSector serial) 0x20 4 = 262143 :=
    (Sector.number_four (a := 0xff) (b := 0xff) (c := 0x03) (d := 0) rfl rfl rfl rfl).trans
      (by decide)
  rw [Geometry.ofBootSector, if_pos hsmall, hsectors]
  rfl

theorem mount_disk : mount (vdReadBlock texts serial) = some (diskVolume texts serial) := by
  have hstart : Sector.number (mbrSector serial) 0x1c6 4 = 1 := rfl
  have hsignature : Sector.number (mbrSector serial) 0x1fe 2 = 0xaa55 :=
    (Sector.number_two (a := 0x55) (b := 0xaa) rfl rfl).trans (by decide)
  have htype : Sector.number (mbrSector serial) 0x1c2 1 = 0x0e := rfl
  have hsectors : Sector.number (mbrSector serial) 0x1ca 4 = diskGeometry.sectors :=
    (Sector.number_four (a := 0xff) (b := 0xff) (c := 0x03) (d := 0) rfl rfl rfl rfl).trans
      (by decide)
  rw [mount, vdReadBlock_mbr, hstart, vdReadBlock_boot, ofBootSector_volume, hsignature, htype,
    hsectors, if_pos ⟨rfl, by decide, rfl⟩]
  rfl

/-- The sectors of the copies of the table. -/
theorem sector_fat {k i : ℕ} (hk : k < 2) (hi : i < sectorsPerFat) :
    (diskVolume texts serial).sector (diskGeometry.fatStart k + i) =
      if i = 0 then fatSector else fun _ => 0 := by
  have hfat : vdReadBlock texts serial (2 + k * sectorsPerFat + i) = _ := vdReadBlock_fat hk hi
  rw [← hfat, sectorsPerFat_eq]
  change vdReadBlock texts serial (1 + (1 + k * 129 + i)) = _
  congr 1
  omega

/-- The entries of the table. -/
theorem fatEntry_disk {k c : ℕ} (hk : k < 2) (hc : c < diskGeometry.clusters + 2) :
    (diskVolume texts serial).fatEntry k c =
      if c = 0 then 0xfff8 else if c < 4 then 0xffff else 0 := by
  have hclusters : diskGeometry.clusters = 32731 := rfl
  have hlt : 2 * c / 512 < sectorsPerFat := by
    rw [sectorsPerFat_eq]
    omega
  change ((diskVolume texts serial).sector (diskGeometry.fatStart k + 2 * c / 512)).number
    (2 * c % 512) 2 = _
  rw [sector_fat hk hlt]
  split_ifs with hfirst h₀ h₁
  · subst h₀
    rfl
  · interval_cases c <;> first | rfl | omega
  · refine Sector.number_eq_zero fun i hi _ => ?_
    have hlen : (lsbHword (0xff00 + mediaType.toNat) ++ lsbHword 0xffff ++ lsbHword 0xffff ++
      lsbHword 0xffff).length = 8 := rfl
    rw [fatSector, memcpyTo, hlen, if_neg (by omega)]
  · omega
  · omega
  · exact Sector.number_eq_zero fun _ _ _ => rfl

/-- The entries of the first sector of the root directory. -/
theorem dirEntry_disk {i : ℕ} (hi : i < 16) :
    (diskVolume texts serial).dirEntry i =
      { name := Sector.bytes (rootSector texts) (32 * i) 11
        attributes := rootSector texts (32 * i + 11)
        cluster := Sector.number (rootSector texts) (32 * i + 26) 2
        size := Sector.number (rootSector texts) (32 * i + 28) 4 } := by
  have hsector : (diskVolume texts serial).sector (diskGeometry.rootStart + 32 * i / 512) =
      rootSector texts := by
    change vdReadBlock texts serial (1 + (259 + 32 * i / 512)) = _
    rw [show 1 + (259 + 32 * i / 512) = 260 + 0 by omega, vdReadBlock_root (by decide), if_pos rfl]
  have hmod : 32 * i % 512 = 32 * i := Nat.mod_eq_of_lt (by omega)
  have hbytes : (diskVolume texts serial).geometry.bytesPerSector = 512 := rfl
  have hgeometry : (diskVolume texts serial).geometry = diskGeometry := rfl
  rw [Volume.dirEntry, hbytes, hgeometry, hsector, hmod]

/-- The bytes of lists of the same length, one after the other. -/
theorem getD_flatMap {α : Type} {f : α → List Byte} {n j : ℕ} (hj : j < n) {l : List α} {a : α}
    (hlen : ∀ a ∈ l, (f a).length = n) {k : ℕ} (hk : l[k]? = some a) :
    (l.flatMap f).getD (n * k + j) 0 = (f a).getD j 0 := by
  induction l generalizing k with
  | nil => cases hk
  | cons b l ih =>
    have hb : (f b).length = n := hlen b List.mem_cons_self
    rw [List.flatMap_cons]
    cases k with
    | zero =>
      obtain rfl : b = a := Option.some.inj hk
      rw [Nat.mul_zero, Nat.zero_add, List.getD_append _ _ _ _ (by omega)]
    | succ k =>
      rw [List.getD_append_right _ _ _ _ (by rw [hb, Nat.mul_succ]; omega), hb,
        show n * (k + 1) + j - n = n * k + j by rw [Nat.mul_succ]; omega,
        ih (fun c hc => hlen c (List.mem_cons_of_mem b hc)) hk]

namespace DiskDirEntry

/-- The entry lies at an offset of a sector. -/
structure Stored (e : DiskDirEntry) (s : Sector) (offset : ℕ) : Prop where
  name : e.name.length = 11
  clusterLo : e.clusterLo < 2 ^ 16
  size : e.size < 2 ^ 32
  bytes : ∀ j < 32, s (offset + j) = e.bytes.getD j 0

variable {e : DiskDirEntry} {s : Sector} {offset : ℕ}

theorem bytes_eq (e : DiskDirEntry) : e.bytes = e.name ++
    ([e.attr, e.reserved, e.creationTimeFrac] ++ (lsbHword e.creationTime ++
      (lsbHword e.creationDate ++ (lsbHword e.lastAccessDate ++ (lsbHword e.clusterHi ++
        (lsbHword e.lastModifiedTime ++ (lsbHword e.lastModifiedDate ++
          (lsbHword e.clusterLo ++ lsbWord e.size)))))))) := by
  simp only [DiskDirEntry.bytes, List.append_assoc]

theorem Stored.rest (h : e.Stored s offset) {j : ℕ} (hj : j < 21) :
    s (offset + 11 + j) = ([e.attr, e.reserved, e.creationTimeFrac] ++ (lsbHword e.creationTime ++
      (lsbHword e.creationDate ++ (lsbHword e.lastAccessDate ++ (lsbHword e.clusterHi ++
        (lsbHword e.lastModifiedTime ++ (lsbHword e.lastModifiedDate ++
          (lsbHword e.clusterLo ++ lsbWord e.size)))))))).getD j 0 := by
  rw [Nat.add_assoc, h.bytes _ (by omega), bytes_eq, List.getD_append_right _ _ _ _
    (by rw [h.name]; omega), h.name, Nat.add_sub_cancel_left]

/-- What a reader makes of an entry. -/
theorem Stored.read (h : e.Stored s offset) :
    DirEntry.mk (s.bytes offset 11) (s (offset + 11)) (s.number (offset + 26) 2)
      (s.number (offset + 28) 4) = ⟨e.name, e.attr, e.clusterLo, e.size⟩ := by
  have hname : s.bytes offset 11 = e.name := Sector.bytes_eq h.name fun k hk => by
    rw [h.bytes _ (by rw [h.name] at hk; omega), bytes_eq, List.getD_append _ _ _ _ hk,
      List.getD_eq_getElem _ _ hk]
  have hcluster : s.number (offset + 26) 2 = e.clusterLo := by
    have hlt := h.clusterLo
    rw [Sector.number_two (h.rest (j := 15) (by decide)) (h.rest (j := 16) (by decide))]
    change (BitVec.ofNat 8 e.clusterLo).toNat +
      256 * (BitVec.ofNat 8 (e.clusterLo / 2 ^ 8)).toNat = _
    rw [BitVec.toNat_ofNat, BitVec.toNat_ofNat]
    omega
  have hsize : s.number (offset + 28) 4 = e.size := by
    have hlt := h.size
    rw [Sector.number_four (h.rest (j := 17) (by decide)) (h.rest (j := 18) (by decide))
      (h.rest (j := 19) (by decide)) (h.rest (j := 20) (by decide))]
    change (BitVec.ofNat 8 e.size).toNat + 256 * ((BitVec.ofNat 8 (e.size / 2 ^ 8)).toNat +
      256 * ((BitVec.ofNat 8 (e.size / 2 ^ 16)).toNat +
        256 * (BitVec.ofNat 8 (e.size / 2 ^ 24)).toNat)) = _
    rw [BitVec.toNat_ofNat, BitVec.toNat_ofNat, BitVec.toNat_ofNat, BitVec.toNat_ofNat]
    omega
  have hattr : s (offset + 11) = e.attr := h.rest (j := 0) (by decide)
  rw [hname, hcluster, hsize, hattr]

end DiskDirEntry

theorem length_rootDirEntries {e : DiskDirEntry} (h : e ∈ rootDirEntries texts) :
    e.name.length = 11 ∧ e.bytes.length = 32 := by
  simp only [rootDirEntries, List.mem_cons, List.not_mem_nil, or_false] at h
  rcases h with rfl | rfl | rfl <;> exact ⟨rfl, rfl⟩

theorem rootSector_apply {k j : ℕ} {e : DiskDirEntry} (he : (rootDirEntries texts)[k]? = some e)
    (hj : j < 32) : rootSector texts (32 * k + j) = e.bytes.getD j 0 := by
  have hlen : ((rootDirEntries texts).flatMap DiskDirEntry.bytes).length = 96 := rfl
  have hk : k < 3 := (List.getElem?_eq_some_iff.mp he).1
  rw [rootSector, memcpyTo, hlen, if_pos (by omega), Nat.sub_zero,
    getD_flatMap hj (fun e he => (length_rootDirEntries he).2) he]

theorem rootSector_zero {i : ℕ} (hi : 96 ≤ i) : rootSector texts i = 0 := by
  have hlen : ((rootDirEntries texts).flatMap DiskDirEntry.bytes).length = 96 := rfl
  rw [rootSector, memcpyTo, hlen, if_neg (by omega)]

theorem dirEntry_stored {k : ℕ} {e : DiskDirEntry} (he : (rootDirEntries texts)[k]? = some e)
    (hcluster : e.clusterLo < 2 ^ 16) (hsize : e.size < 2 ^ 32) :
    (diskVolume texts serial).dirEntry k = ⟨e.name, e.attr, e.clusterLo, e.size⟩ := by
  have hk : k < 3 := (List.getElem?_eq_some_iff.mp he).1
  rw [dirEntry_disk (by omega), DiskDirEntry.Stored.read
    ⟨(length_rootDirEntries (List.mem_of_getElem? he)).1, hcluster, hsize,
      fun j hj => rootSector_apply he hj⟩]

theorem rootEntries_disk (hhtml : texts.welcomeHtmlLen < 2 ^ 32)
    (htxt : texts.infoUf2Txt.length < 2 ^ 32) :
    (diskVolume texts serial).rootEntries =
      [⟨(bootSector.drop bootOffsetLabel).take 11, 0x28, 0, 0⟩,
        ⟨indexHtmName, 0x21, 2, texts.welcomeHtmlLen⟩,
        ⟨infoUf2TxtName, 0x21, 3, texts.infoUf2Txt.length⟩] := by
  have hrange : List.range 512 = 0 :: 1 :: 2 :: 3 :: List.range' 4 508 := by
    rw [List.range_eq_range']
    rfl
  have hentries : (diskVolume texts serial).geometry.rootEntries = 512 := rfl
  have h₀ : (diskVolume texts serial).dirEntry 0 =
      ⟨(bootSector.drop bootOffsetLabel).take 11, 0x28, 0, 0⟩ :=
    dirEntry_stored (e := { name := (bootSector.drop bootOffsetLabel).take 11, attr := 0x28 }) rfl
      (Nat.two_pow_pos 16) (Nat.two_pow_pos 32)
  have h₁ : (diskVolume texts serial).dirEntry 1 = ⟨indexHtmName, 0x21, 2, texts.welcomeHtmlLen⟩ :=
    dirEntry_stored (e := initDirEntry indexHtmName 2 texts.welcomeHtmlLen) rfl
      (show 2 < 2 ^ 16 by decide) hhtml
  have h₂ : (diskVolume texts serial).dirEntry 2 =
      ⟨infoUf2TxtName, 0x21, 3, texts.infoUf2Txt.length⟩ :=
    dirEntry_stored (e := initDirEntry infoUf2TxtName 3 texts.infoUf2Txt.length) rfl
      (show 3 < 2 ^ 16 by decide) htxt
  have h₃ : ((diskVolume texts serial).dirEntry 3).name.head? = some 0 := by
    rw [dirEntry_disk (by decide)]
    exact congrArg some (rootSector_zero (by decide))
  rw [Volume.rootEntries, hentries, hrange, List.map_cons, List.map_cons, List.map_cons,
    List.map_cons, h₀, h₁, h₂, List.takeWhile_cons_of_pos rfl, List.takeWhile_cons_of_pos rfl,
    List.takeWhile_cons_of_pos rfl, List.takeWhile_cons_of_neg (by rw [h₃]; decide)]

/-! ## Files -/

theorem length_overwrite {l bytes : List Byte} {offset : ℕ} (h : offset + bytes.length ≤ l.length) :
    (overwrite l offset bytes).length = l.length := by
  rw [overwrite, List.length_append, List.length_append, List.length_take, List.length_drop]
  omega

/-- A buffer that begins with a text, after a part of the text is replaced. -/
theorem memcpyTo_overwrite {buf : ℕ → Byte} {l bytes : List Byte} {offset : ℕ}
    (h : offset + bytes.length ≤ l.length) (hbuf : ∀ k (hk : k < l.length), buf k = l[k]) (k : ℕ)
    (hk : k < (overwrite l offset bytes).length) :
    memcpyTo buf offset bytes k = (overwrite l offset bytes)[k] := by
  have hlen := length_overwrite h
  have htake : (l.take offset).length = offset := by
    rw [List.length_take]
    omega
  simp only [overwrite, List.getElem_append, List.length_append, htake, memcpyTo]
  split_ifs with hin hlt hlt' hlt hlt'
  all_goals first
    | omega
    | skip
  · exact List.getD_eq_getElem _ _ _
  · rw [List.getElem_take]
    exact hbuf k (by omega)
  · rw [List.getElem_drop, hbuf k (by omega)]
    congr 1
    omega

variable (hgen : texts.Generated html)

include hgen

theorem DiskTexts.Generated.offset_le {offset : ℕ} (h : offset ∈ versionOffsets html) :
    offset + texts.serialNumberString.length ≤ html.length := by
  rw [versionOffsets, List.mem_filter, List.mem_range] at h
  rw [hgen.serialNumberString]
  omega

theorem DiskTexts.Generated.decompressed {k : ℕ} (hk : k < html.length) :
    textDecompress texts.welcomeHtmlZ (fun _ => 0) k = html[k] := by
  have hne : html ≠ [] := List.ne_nil_of_length_pos (Nat.zero_lt_of_lt hk)
  obtain ⟨checkBuf, hcompress⟩ := hgen.welcomeHtmlZ
  obtain ⟨-, -, -, -, hround⟩ := compress_represented hcompress hne
  obtain ⟨buf, hdecompress, hbuf⟩ := hround fun _ => 0
  have hget := List.getElem_of_eq hbuf
    (show k < _ by rw [List.length_map, List.length_range]; exact hk)
  rw [List.getElem_map, List.getElem_range] at hget
  rw [textDecompress, hdecompress]
  dsimp only
  rw [if_pos hk, hget]

open Thumb in
/-- The routine of the ROM, called for the text of the page, leaves the buffer as the model has it,
but for the bytes that it pushes. -/
theorem DiskTexts.Generated.leads_textDecompress_buffer (hne : html ≠ [])
    (P : Placement TextLabel) {c : Cpu} (hcall : DecompressCall texts.welcomeHtmlZ c) :
    Leads textCode P (.at .textDecompress c) fun y => ∃ c', y = P.jump c.lr c' ∧
      Preserved c c' ∧ ∀ i < 2 ^ 32, ¬Memory.InRange (c.sp - 12) 12 (c.r2 + BitVec.ofNat 32 i) →
        c'.mem (c.r2 + BitVec.ofNat 32 i) =
          textDecompress texts.welcomeHtmlZ (fun i => c.mem (c.r2 + BitVec.ofNat 32 i)) i := by
  obtain ⟨checkBuf, hcompress⟩ := hgen.welcomeHtmlZ
  obtain ⟨hdata, hoffsets, hrep, hlen, -⟩ := compress_represented hcompress hne
  refine (leads_textDecompress hdata hoffsets hcall (fun i => c.mem (c.r2 + BitVec.ofNat 32 i))
    (by omega : represented texts.welcomeHtmlZ < 4096)).mono ?_
  rintro _ ⟨c', buf', hdecompress, rfl, hkept, hmem⟩
  refine ⟨c', rfl, hkept, fun i hi hstack => ?_⟩
  rw [hmem _ hstack, textDecompress, hdecompress]
  dsimp only
  split
  · next hlt => exact Memory.copy_add hlt hi
  · next hge =>
    refine Memory.copy_of_not_inRange fun hin => hge ?_
    rw [Memory.InRange, Memory.add_sub_self, BitVec.toNat_ofNat, Nat.mod_eq_of_lt hi] at hin
    exact hin

theorem DiskTexts.Generated.offsets_le :
    texts.welcomeHtmlVersionOffset1 + texts.serialNumberString.length ≤ html.length ∧
      texts.welcomeHtmlVersionOffset2 + texts.serialNumberString.length ≤ html.length := by
  obtain ⟨rest, hoffsets⟩ := hgen.offsets
  exact ⟨hgen.offset_le (hoffsets ▸ List.mem_cons_self),
    hgen.offset_le (hoffsets ▸ List.mem_cons_of_mem _ List.mem_cons_self)⟩

theorem DiskTexts.Generated.length_welcomeHtml :
    (texts.welcomeHtml html).length = texts.welcomeHtmlLen := by
  obtain ⟨h₁, h₂⟩ := hgen.offsets_le
  rw [DiskTexts.welcomeHtml, length_overwrite (by rw [length_overwrite h₁]; exact h₂),
    length_overwrite h₁, hgen.welcomeHtmlLen]

theorem DiskTexts.Generated.welcomeSector_apply {k : ℕ}
    (hk : k < (texts.welcomeHtml html).length) :
    welcomeSector texts k = (texts.welcomeHtml html)[k] := by
  obtain ⟨h₁, h₂⟩ := hgen.offsets_le
  exact memcpyTo_overwrite (by rw [length_overwrite h₁]; exact h₂)
    (fun k hk => memcpyTo_overwrite h₁ (fun k hk => hgen.decompressed hk) k hk) k hk

/-- The files and what is in them. -/
theorem DiskTexts.Generated.files_disk :
    (diskVolume texts serial).files =
      [(indexHtmName, some (texts.welcomeHtml html)),
        (infoUf2TxtName, some texts.infoUf2Txt)] := by
  have hhtml := hgen.html_le
  have htxt := hgen.infoUf2Txt_le
  have hlen := hgen.length_welcomeHtml
  have hhtmlLen := hgen.welcomeHtmlLen
  have hsector (c : ℕ) : (diskVolume texts serial).clusterSector c 0 =
      vdReadBlock texts serial (292 + (c - 2) * 8) := by
    have hdata : diskGeometry.dataStart = 291 := rfl
    change vdReadBlock texts serial (1 + (diskGeometry.dataStart + (c - 2) * 8 + 0)) = _
    rw [hdata]
    congr 1
    omega
  have hend {c : ℕ} (hc : 2 ≤ c) (hc' : c < 4) :
      Volume.IsEnd ((diskVolume texts serial).fatEntry 0 c) := by
    have hclusters : diskGeometry.clusters = 32731 := rfl
    rw [fatEntry_disk (by decide) (by omega), if_neg (by omega), if_pos hc']
    decide
  have hcluster {c : ℕ} (hc : 2 ≤ c) (hc' : c < 4) :
      (diskVolume texts serial).geometry.IsCluster c := by
    have hclusters : diskGeometry.clusters = 32731 := rfl
    exact ⟨hc, show c < diskGeometry.clusters + 2 by omega⟩
  have hindex : (diskVolume texts serial).contents ⟨indexHtmName, 0x21, 2, texts.welcomeHtmlLen⟩ =
      some (texts.welcomeHtml html) := by
    refine Volume.contents_of_end diskGeometry_valid (hcluster (c := 2) (by decide) (by decide))
      (hend (c := 2) (by decide) (by decide)) hlen.symm (by omega) fun k hk => ?_
    rw [hsector 2, vdReadBlock_data, if_pos rfl, hgen.welcomeSector_apply hk]
  have hinfo : (diskVolume texts serial).contents
      ⟨infoUf2TxtName, 0x21, 3, texts.infoUf2Txt.length⟩ = some texts.infoUf2Txt := by
    refine Volume.contents_of_end diskGeometry_valid (hcluster (c := 3) (by decide) (by decide))
      (hend (c := 3) (by decide) (by decide)) rfl htxt fun k hk => ?_
    rw [hsector 3, vdReadBlock_data, if_neg (by decide), if_pos rfl, memcpyTo, if_pos (by omega),
      Nat.sub_zero, List.getD_eq_getElem _ _ hk]
  rw [Volume.files, rootEntries_disk (by omega) (by omega), List.filter_cons_of_neg (by decide),
    List.filter_cons_of_pos (by dsimp only [Volume.IsFile]; decide),
    List.filter_cons_of_pos (by dsimp only [Volume.IsFile]; decide), List.filter_nil,
    List.map_cons, List.map_cons, List.map_nil, hindex, hinfo]

end Reader

/-- The sectors with something in them : the partition table, the boot sector, the starts of both
copies of the table and of the directory, and the files. -/
def usedSectors : List ℕ := [0, 1, 2, 131, 260, 292, 300]

theorem vdReadBlock_unused {texts : DiskTexts} {serial : Word} {lba : ℕ} (h : lba ∉ usedSectors) :
    vdReadBlock texts serial lba = fun _ => 0 := by
  simp only [usedSectors, List.mem_cons, List.not_mem_nil, or_false, not_or] at h
  obtain ⟨h₀, h₁, h₂, h₃, h₄, h₅, h₆⟩ := h
  by_cases hfat : lba < 260
  · -- a sector of one of the copies
    have hsector (k i : ℕ) (hlba : lba = 2 + k * sectorsPerFat + i) (hk : k < 2)
        (hi : i < sectorsPerFat) (hne : i ≠ 0) : vdReadBlock texts serial lba = fun _ => 0 := by
      rw [hlba, vdReadBlock_fat hk hi, if_neg hne]
    rcases Nat.lt_or_ge lba 131 with hlt | hge
    · exact hsector 0 (lba - 2) (by omega) (by decide) (by rw [sectorsPerFat_eq]; omega)
        (by omega)
    · exact hsector 1 (lba - 131) (by rw [sectorsPerFat_eq]; omega) (by decide)
        (by rw [sectorsPerFat_eq]; omega) (by omega)
  by_cases hroot : lba < 292
  · obtain ⟨i, rfl⟩ := Nat.exists_eq_add_of_le (show 260 ≤ lba by omega)
    rw [vdReadBlock_root (by omega), if_neg (by omega)]
  · obtain ⟨i, rfl⟩ := Nat.exists_eq_add_of_le (show 292 ≤ lba by omega)
    rw [vdReadBlock_data, if_neg (by omega), if_neg (by omega)]

/-- A reader of FAT16 finds a volume that ends with the disk. Its copies of the table are the same,
its files are the two texts, every cluster that is in use is a file of its own, and everything else
is zero. -/
theorem virtual_disk_is_fat16 (texts : DiskTexts) (html : List Byte) (hgen : texts.Generated html)
    (serial : Word) :
    ∃ v, mount (vdReadBlock texts serial) = some v ∧ v.geometry.Valid ∧
      v.start + v.geometry.sectors = vdSectorCount.toNat ∧ v.geometry.fatCount = 2 ∧
      (∀ i < v.geometry.sectorsPerFat,
        v.sector (v.geometry.fatStart 0 + i) = v.sector (v.geometry.fatStart 1 + i)) ∧
      (∀ c, v.geometry.IsCluster c →
        v.fatEntry 0 c = 0 ∨ v.chain v.geometry.clusters c = some [c]) ∧
      v.files = [(indexHtmName, some (texts.welcomeHtml html)),
        (infoUf2TxtName, some texts.infoUf2Txt)] ∧
      ∀ lba, lba ∉ usedSectors → ∀ i, vdReadBlock texts serial lba i = 0 := by
  have hsectors : 1 + diskGeometry.sectors = vdSectorCount.toNat := by decide
  refine ⟨diskVolume texts serial, mount_disk, diskGeometry_valid, hsectors, rfl, fun i hi => ?_,
    fun c hc => ?_, hgen.files_disk, fun lba hlba i => congrFun (vdReadBlock_unused hlba) i⟩
  · exact (sector_fat (by decide) hi).trans (sector_fat (by decide) hi).symm
  · have hentry : (diskVolume texts serial).fatEntry 0 c = _ := fatEntry_disk (by decide) hc.2
    rcases Nat.lt_or_ge c 4 with hlt | hge
    · rw [if_neg (by have := hc.1; omega), if_pos hlt] at hentry
      have hclusters : (diskVolume texts serial).geometry.clusters = 32730 + 1 :=
        show diskGeometry.clusters = 32731 from rfl
      rw [hclusters, Volume.chain_of_end _ hc (by rw [hentry]; decide)]
      exact .inr rfl
    · rw [if_neg (by omega), if_neg (by omega)] at hentry
      exact .inl hentry

/-- A text with two places for the serial number. -/
def versionsHtml : List Byte := versionPlaceholder ++ versionPlaceholder ++ [0x0a]

/-- What the build has for it. -/
def versionsTexts (z : List Byte) : DiskTexts where
  welcomeHtmlZ := z
  welcomeHtmlLen := 25
  welcomeHtmlVersionOffset1 := 0
  welcomeHtmlVersionOffset2 := 12
  infoUf2Txt := [0x55, 0x46, 0x32]
  serialNumberString := List.replicate 12 0x30

theorem virtual_disk_is_fat16_versions : ∃ z, (versionsTexts z).Generated versionsHtml ∧
    ∃ v, mount (vdReadBlock (versionsTexts z) 7) = some v ∧ v.geometry.Valid ∧
      v.start + v.geometry.sectors = vdSectorCount.toNat ∧ v.geometry.fatCount = 2 ∧
      (∀ i < v.geometry.sectorsPerFat,
        v.sector (v.geometry.fatStart 0 + i) = v.sector (v.geometry.fatStart 1 + i)) ∧
      (∀ c, v.geometry.IsCluster c →
        v.fatEntry 0 c = 0 ∨ v.chain v.geometry.clusters c = some [c]) ∧
      v.files = [(indexHtmName, some ((versionsTexts z).welcomeHtml versionsHtml)),
        (infoUf2TxtName, some [0x55, 0x46, 0x32])] ∧
      ∀ lba, lba ∉ usedSectors → ∀ i, vdReadBlock (versionsTexts z) 7 lba i = 0 := by
  obtain ⟨z, hz, -⟩ := (compress_ok (fun _ => 0) : versionsHtml.length < 4096 → _) (by decide)
    (by decide)
  have hgen : (versionsTexts z).Generated versionsHtml := {
    welcomeHtmlZ := ⟨_, hz⟩
    welcomeHtmlLen := rfl
    offsets := ⟨[], show versionOffsets versionsHtml = [0, 12] by decide⟩
    serialNumberString := rfl
    html_le := by decide
    infoUf2Txt_le := show 3 ≤ 512 by decide }
  exact ⟨z, hgen, virtual_disk_is_fat16 _ _ hgen 7⟩

end PicoBootrom
