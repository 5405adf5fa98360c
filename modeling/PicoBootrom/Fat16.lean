import Mathlib.Algebra.Ring.Nat
import Mathlib.Data.List.Basic
import Mathlib.Tactic.Common

/-!
# FAT16 volumes

What a reader finds on a disk with a partition table and a FAT16 volume. The boot sector says how
long the regions of the volume are (`Geometry`), and with it a reader knows where the copies of the
file allocation table, the root directory and the clusters of the files are (`Volume`). The table
has the next cluster for each cluster of a file, or a mark at its end (`Volume.chain`).
-/

namespace Fat16

/-- The bytes of a sector. -/
abbrev Sector := ℕ → BitVec 8

/-- The sectors of a disk. -/
abbrev Disk := ℕ → Sector

namespace Sector

/-- The number in `n` bytes, of which the lowest one is first. -/
def number (s : Sector) (i : ℕ) : ℕ → ℕ
  | 0 => 0
  | n + 1 => (s i).toNat + 256 * number s (i + 1) n

/-- The `n` bytes from a place on. -/
def bytes (s : Sector) (i n : ℕ) : List (BitVec 8) :=
  (List.range n).map fun k => s (i + k)

variable {s s' : Sector} {i n : ℕ}

theorem number_eq_zero (h : ∀ k, i ≤ k → k < i + n → s k = 0) : s.number i n = 0 := by
  induction n generalizing i with
  | zero => rfl
  | succ n ih =>
    rw [number, h i (Nat.le_refl i) (by omega), ih fun k hk hk' => h k (by omega) (by omega)]
    rfl

theorem number_two {a b : BitVec 8} (h₀ : s i = a) (h₁ : s (i + 1) = b) :
    s.number i 2 = a.toNat + 256 * b.toNat := by
  simp only [number, h₀, h₁, Nat.mul_zero, Nat.add_zero]

theorem number_four {a b c d : BitVec 8} (h₀ : s i = a) (h₁ : s (i + 1) = b) (h₂ : s (i + 2) = c)
    (h₃ : s (i + 3) = d) :
    s.number i 4 = a.toNat + 256 * (b.toNat + 256 * (c.toNat + 256 * d.toNat)) := by
  simp only [number, Nat.add_assoc, Nat.reduceAdd, h₀, h₁, h₂, h₃, Nat.mul_zero, Nat.add_zero]

theorem length_bytes (s : Sector) (i n : ℕ) : (s.bytes i n).length = n := by
  rw [bytes, List.length_map, List.length_range]

theorem getElem_bytes {k : ℕ} (h : k < (s.bytes i n).length) : (s.bytes i n)[k] = s (i + k) := by
  simp only [bytes, List.getElem_map, List.getElem_range]

theorem bytes_eq {l : List (BitVec 8)} (hlen : l.length = n)
    (h : ∀ k (hk : k < l.length), s (i + k) = l[k]) : s.bytes i n = l := by
  subst hlen
  refine List.ext_getElem (length_bytes s i _) fun k _ hk => ?_
  rw [getElem_bytes, h k hk]

end Sector

/-! ## Geometry -/

/-- The numbers of a boot sector. -/
structure Geometry where
  bytesPerSector : ℕ
  sectorsPerCluster : ℕ
  reservedSectors : ℕ
  fatCount : ℕ
  rootEntries : ℕ
  sectors : ℕ
  sectorsPerFat : ℕ
  deriving DecidableEq, Repr

namespace Geometry

/-- The numbers in a boot sector. A volume with many sectors has their number in a second place. -/
def ofBootSector (s : Sector) : Geometry where
  bytesPerSector := s.number 0x0b 2
  sectorsPerCluster := s.number 0x0d 1
  reservedSectors := s.number 0x0e 2
  fatCount := s.number 0x10 1
  rootEntries := s.number 0x11 2
  sectors := if s.number 0x13 2 = 0 then s.number 0x20 4 else s.number 0x13 2
  sectorsPerFat := s.number 0x16 2

variable (g : Geometry)

/-- The first sector of a copy of the table. -/
def fatStart (k : ℕ) : ℕ := g.reservedSectors + k * g.sectorsPerFat

/-- The first sector of the root directory. -/
def rootStart : ℕ := g.fatStart g.fatCount

/-- The sectors of the root directory, which has 32 bytes for each entry. -/
def rootSectors : ℕ := (32 * g.rootEntries + g.bytesPerSector - 1) / g.bytesPerSector

/-- The first sector of the clusters. -/
def dataStart : ℕ := g.rootStart + g.rootSectors

/-- The number of clusters. -/
def clusters : ℕ := (g.sectors - g.dataStart) / g.sectorsPerCluster

/-- A number of a cluster, of which the first one is 2. -/
def IsCluster (c : ℕ) : Prop := 2 ≤ c ∧ c < g.clusters + 2

instance (c : ℕ) : Decidable (g.IsCluster c) :=
  inferInstanceAs (Decidable (_ ∧ _))

/-- What makes a volume a FAT16 volume : the number of its clusters is in the range for it, and each
copy of the table has room for them. -/
structure Valid : Prop where
  bytesPerSector : g.bytesPerSector = 512
  sectorsPerCluster : ∃ k ≤ 7, g.sectorsPerCluster = 2 ^ k
  reservedSectors : 0 < g.reservedSectors
  fatCount : 0 < g.fatCount
  root : 32 * g.rootEntries % g.bytesPerSector = 0
  clusters : 4085 ≤ g.clusters ∧ g.clusters < 65525
  fat : 2 * (g.clusters + 2) ≤ g.sectorsPerFat * g.bytesPerSector

end Geometry

/-! ## Volumes -/

/-- A volume that starts in a sector of a disk. -/
structure Volume where
  disk : Disk
  start : ℕ
  geometry : Geometry

/-- An entry of a directory. -/
structure DirEntry where
  name : List (BitVec 8)
  attributes : BitVec 8
  cluster : ℕ
  size : ℕ
  deriving DecidableEq, Repr

/-- The volume in the first partition, which has one of the types for FAT16 and the sectors that the
volume says it has. -/
def mount (disk : Disk) : Option Volume :=
  let mbr := disk 0
  let g := Geometry.ofBootSector (disk (mbr.number 0x1c6 4))
  if mbr.number 0x1fe 2 = 0xaa55 ∧ mbr.number 0x1c2 1 ∈ [0x04, 0x06, 0x0e] ∧
      mbr.number 0x1ca 4 = g.sectors then
    some ⟨disk, mbr.number 0x1c6 4, g⟩
  else none

namespace Volume

variable (v : Volume)

/-- A sector of the volume. -/
def sector (i : ℕ) : Sector := v.disk (v.start + i)

/-- The entry of a cluster in a copy of the table. -/
def fatEntry (k c : ℕ) : ℕ :=
  (v.sector (v.geometry.fatStart k + 2 * c / v.geometry.bytesPerSector)).number
    (2 * c % v.geometry.bytesPerSector) 2

/-- Marks at the end of a file. -/
def IsEnd (n : ℕ) : Prop := 0xfff8 ≤ n

instance (n : ℕ) : Decidable (IsEnd n) :=
  inferInstanceAs (Decidable (_ ≤ _))

/-- The clusters of a file from one on, if they are clusters of the volume and end with a mark after
at most the given number of them. -/
def chain : ℕ → ℕ → Option (List ℕ)
  | 0, _ => none
  | fuel + 1, c =>
    if v.geometry.IsCluster c then
      if IsEnd (v.fatEntry 0 c) then some [c]
      else (chain fuel (v.fatEntry 0 c)).map (c :: ·)
    else none

/-- The sectors of a cluster. -/
def clusterSector (c j : ℕ) : Sector :=
  v.sector (v.geometry.dataStart + (c - 2) * v.geometry.sectorsPerCluster + j)

/-- The bytes of a cluster. -/
def clusterBytes (c : ℕ) : List (BitVec 8) :=
  (List.range v.geometry.sectorsPerCluster).flatMap fun j =>
    (v.clusterSector c j).bytes 0 v.geometry.bytesPerSector

/-- An entry of the root directory. -/
def dirEntry (i : ℕ) : DirEntry :=
  let s := v.sector (v.geometry.rootStart + 32 * i / v.geometry.bytesPerSector)
  let offset := 32 * i % v.geometry.bytesPerSector
  { name := s.bytes offset 11
    attributes := s (offset + 11)
    cluster := s.number (offset + 26) 2
    size := s.number (offset + 28) 4 }

/-- The entries of the root directory up to the first one whose name starts with a zero. -/
def rootEntries : List DirEntry :=
  ((List.range v.geometry.rootEntries).map v.dirEntry).takeWhile fun e => e.name.head? != some 0

/-- An entry of a file : neither the name of the volume nor an entry that was deleted. -/
def IsFile (e : DirEntry) : Bool := e.attributes &&& 0x08 == 0 && e.name.head? != some 0xe5

/-- The bytes of a file, if its clusters have as many as the entry says. -/
def contents (e : DirEntry) : Option (List (BitVec 8)) :=
  (v.chain v.geometry.clusters e.cluster).bind fun cs =>
    let bytes := cs.flatMap v.clusterBytes
    if e.size ≤ bytes.length then some (bytes.take e.size) else none

/-- The names and the contents of the files in the root directory. -/
def files : List (List (BitVec 8) × Option (List (BitVec 8))) :=
  (v.rootEntries.filter IsFile).map fun e => (e.name, v.contents e)

variable {v}

theorem chain_of_end {c : ℕ} (fuel : ℕ) (hc : v.geometry.IsCluster c)
    (hend : IsEnd (v.fatEntry 0 c)) : v.chain (fuel + 1) c = some [c] := by
  rw [chain, if_pos hc, if_pos hend]

/-- A file in one cluster whose bytes are in its first sector. -/
theorem contents_of_end {e : DirEntry} {l : List (BitVec 8)} (hvalid : v.geometry.Valid)
    (hc : v.geometry.IsCluster e.cluster) (hend : IsEnd (v.fatEntry 0 e.cluster))
    (hsize : e.size = l.length) (hle : l.length ≤ 512)
    (hl : ∀ k (hk : k < l.length), v.clusterSector e.cluster 0 k = l[k]) :
    v.contents e = some l := by
  obtain ⟨fuel, hfuel⟩ := Nat.exists_eq_succ_of_ne_zero
    (show v.geometry.clusters ≠ 0 from fun h => by have := hvalid.clusters.1; omega)
  obtain ⟨k, -, hper⟩ := hvalid.sectorsPerCluster
  obtain ⟨n, hn⟩ := Nat.exists_eq_succ_of_ne_zero
    (show v.geometry.sectorsPerCluster ≠ 0 by rw [hper]; exact Nat.ne_of_gt (Nat.two_pow_pos k))
  have hfirst : (v.clusterSector e.cluster 0).bytes 0 512 =
      l ++ (v.clusterSector e.cluster 0).bytes l.length (512 - l.length) := by
    refine Sector.bytes_eq ?_ fun i hi => ?_
    · rw [List.length_append, Sector.length_bytes]
      omega
    · rw [Nat.zero_add, List.getElem_append]
      split_ifs with hlt
      · exact hl i hlt
      · rw [Sector.getElem_bytes, Nat.add_sub_cancel' (by omega)]
  have hcluster : v.clusterBytes e.cluster = l ++
      ((v.clusterSector e.cluster 0).bytes l.length (512 - l.length) ++
        (List.range n).flatMap fun j => (v.clusterSector e.cluster (j + 1)).bytes 0 512) := by
    rw [clusterBytes, hn, List.range_succ_eq_map, List.flatMap_cons, List.flatMap_map,
      hvalid.bytesPerSector, hfirst, List.append_assoc]
  rw [contents, hfuel, chain_of_end fuel hc hend, Option.bind_some, List.flatMap_singleton,
    hcluster, hsize]
  dsimp only
  rw [if_pos (by rw [List.length_append]; omega), List.take_left]

end Volume

end Fat16
