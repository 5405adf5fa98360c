import PicoBootrom.MscPhases

/-!
# The stream of sectors

`_msc_sector_transfer` as a handler of packets, in both directions. Before the `k`-th packet the
residue has been reduced by 64 for each packet before, whatever the lengths of the packets of an OUT
stream are ; `offset` counts their bytes. A chunk that is written may be processed later, by a task
that the disk has queued ; a chunk that is read is there at once. The calls of `vd_read_block` and
`vd_write_block` are those of the sectors from `base.lba` on, with tokens from `base.asyncToken` on
(`Called`).
-/

set_option linter.unusedSectionVars false

namespace PicoBootrom

theorem Msc.takeResidue_takeResidue (m : Msc) (a b : Word) :
    (m.takeResidue a).takeResidue b = m.takeResidue (a + b) := by
  simp [takeResidue, BitVec.sub_sub]

theorem Msc.takeResidue_zero (m : Msc) : m.takeResidue 0 = m := by
  simp [takeResidue]

/-- The number of bytes in the first `k` packets. -/
def receivedBytes (packet : ℕ → List Byte) : ℕ → ℕ
  | 0 => 0
  | k + 1 => receivedBytes packet k + (packet k).length

theorem receivedBytes_congr {packet packet' : ℕ → List Byte} {k : ℕ}
    (h : ∀ i < k, packet' i = packet i) : receivedBytes packet' k = receivedBytes packet k := by
  induction k with
  | zero => rfl
  | succ k ih =>
    rw [receivedBytes, receivedBytes, ih fun i hi => h i (by omega), h k (Nat.lt_succ_self k)]

theorem receivedBytes_le {packet : ℕ → List Byte} (h : ∀ i, (packet i).length ≤ 64) (k : ℕ) :
    receivedBytes packet k ≤ 64 * k := by
  induction k with
  | zero => exact Nat.le_refl 0
  | succ k ih =>
    have hle := h k
    rw [receivedBytes]
    omega

theorem receivedBytes_mono {packet : ℕ → List Byte} {j k : ℕ} (h : j ≤ k) :
    receivedBytes packet j ≤ receivedBytes packet k := by
  induction h with
  | refl => exact Nat.le_refl _
  | step _ ih => exact Nat.le_trans ih (Nat.le_add_right _ _)

/-- Packets of 64 bytes. -/
theorem receivedBytes_full {packet : ℕ → List Byte} {k : ℕ} (h : ∀ i < k, (packet i).length = 64) :
    receivedBytes packet k = 64 * k := by
  induction k with
  | zero => rfl
  | succ k ih =>
    have hlen := h k (Nat.lt_succ_self k)
    have hprev := ih fun i hi => h i (by omega)
    rw [receivedBytes]
    omega

/-- The stream that a command starts : the number of its packets, and the client when it starts. -/
structure SectorStream where
  packets : ℕ
  base : MscClient
  first : Bool
  pos : 0 < packets
  le : packets ≤ 524280

namespace SectorStream

variable (x : SectorStream)

/-- What does not change while the stream runs. -/
def setup (isIn : Bool) : LineSetup MscTransfer MscFunction where
  transfer := .sector
  isIn := isIn
  defaultTransfer := if isIn then none else some .cmd
  onStallChange := if isIn then some .inOnStallChange else none
  count := x.packets
  first := x.first
  onPacket := .streamPacketHandler
  onComplete := some .tfDataPhaseComplete
  chain := none

/-- `transfer_length`. -/
def length : Word := BitVec.ofNat 32 (64 * x.packets)

theorem length_toNat : x.length.toNat = 64 * x.packets := by
  have hle := x.le
  rw [length, BitVec.toNat_ofNat, Nat.mod_eq_of_lt (by omega)]

/-- The length of the stream in chunks of a sector. -/
def shape : StreamShape where
  length := x.length
  chunkSize := sectorSize
  length_ne_zero := by
    have hpos := x.pos
    rw [toNat_ne_zero, length_toNat]
    omega
  chunkSize_eq := ⟨9, by omega, rfl⟩
  fits := by
    have hle := x.le
    rw [length_toNat, show sectorSize.toNat = 512 from rfl]
    omega

theorem packetCount_eq : x.shape.packetCount = x.packets := by
  have hlen : x.shape.length.toNat = 64 * x.packets := x.length_toNat
  rw [StreamShape.packetCount, hlen]
  omega

theorem perChunk_eq : x.shape.perChunk = 8 := by
  have hsize : x.shape.chunkSize.toNat = 512 := rfl
  rw [StreamShape.perChunk, hsize]

theorem packetLength_eq {k : ℕ} (hk : k < x.packets) : x.shape.packetLength k = 64 := by
  have hlen : x.shape.length.toNat = 64 * x.packets := x.length_toNat
  rw [StreamShape.packetLength, hlen]
  omega

/-- What `SectorStream` keeps of the client, after `k` packets. -/
structure Kept (k : ℕ) (K : MscClient) : Prop where
  msc : K.msc = x.base.msc.takeResidue (BitVec.ofNat 32 (64 * k))
  accepted : K.accepted = x.base.accepted
  csws : K.csws = x.base.csws

theorem Kept.packetComplete {x : SectorStream} {k : ℕ} {K : MscClient} (h : x.Kept k K)
    (S : UsbStreamTransfer) :
    x.Kept (k + 1) (MscClient.onSectorStreamPacketComplete { K with stream := S }) where
  msc := by
    change K.msc.takeResidue 64 = _
    rw [h.msc, Msc.takeResidue_takeResidue, Nat.mul_succ, BitVec.ofNat_add]
    rfl
  accepted := h.accepted
  csws := h.csws

/-- The stream does not count the packets on the bus. -/
theorem receive_transferred {vdReadBlock : Word → ℕ → Byte} {isIn : Bool} {n : ℕ} (K : MscClient)
    (packet : List Byte) (h : K.transferred = n) :
    (((mscStream vdReadBlock).handler isIn).receive K packet).1.transferred = n := by
  have hchunk (len : Word) (K : MscClient) :
      ((mscStream vdReadBlock).callOnChunk len K).1.transferred = K.transferred := by
    unfold UsbStream.callOnChunk
    split
    · change (K.onSectorStreamChunk vdReadBlock).1.transferred = _
      unfold MscClient.onSectorStreamChunk
      split <;> rfl
    · rfl
  change ((mscStream vdReadBlock).callOnChunk _ _).1.transferred = n
  rw [hchunk]
  cases isIn with
  | true => exact h
  | false => exact h

theorem finish_transferred {vdReadBlock : Word → ℕ → Byte} {isIn : Bool} {n : ℕ} (K : MscClient)
    (packet : List Byte) (h : K.transferred = n) :
    (((mscStream vdReadBlock).handler isIn).finish K packet).1.transferred = n := by
  cases isIn with
  | true => exact h
  | false => exact h

/-! ## The calls of the disk -/

section Calls

variable (x : SectorStream) {dir : ScsiDirection} {sector : ℕ → List Byte} {m : ℕ}
  {K K' : MscClient}

/-- The call for the `i`-th sector of the stream. -/
def call (dir : ScsiDirection) (sector : ℕ → List Byte) (i : ℕ) : SectorCall where
  dir := dir
  token := x.base.asyncToken + BitVec.ofNat 32 (i + 1)
  lba := x.base.lba + BitVec.ofNat 32 i
  sector := sector i

/-- The calls so far are those for the first `m` sectors. -/
structure Called (dir : ScsiDirection) (sector : ℕ → List Byte) (m : ℕ) (K : MscClient) :
    Prop where
  lba : K.lba = x.base.lba + BitVec.ofNat 32 m
  token : K.asyncToken = x.base.asyncToken + BitVec.ofNat 32 m
  calls : K.calls = x.base.calls ++ (List.range m).map (x.call dir sector)

variable {x}

theorem called_start : x.Called dir sector 0 x.base :=
  ⟨by simp, by simp, by simp⟩

theorem Called.next (h : x.Called dir sector m K) (hlba : K'.lba = K.lba + 1)
    (htoken : K'.asyncToken = K.asyncToken + 1)
    (hcalls : K'.calls = K.calls ++ [⟨dir, K.asyncToken + 1, K.lba, sector m⟩]) :
    x.Called dir sector (m + 1) K' := by
  have htoken' : K.asyncToken + 1 = x.base.asyncToken + BitVec.ofNat 32 (m + 1) := by
    rw [h.token, BitVec.add_assoc, BitVec.ofNat_add]
    rfl
  refine ⟨?_, htoken.trans htoken', ?_⟩
  · rw [hlba, h.lba, BitVec.add_assoc, BitVec.ofNat_add]
    rfl
  · rw [hcalls, h.calls, List.range_succ, List.map_append, ← List.append_assoc]
    simp only [List.map_cons, List.map_nil, call, htoken', h.lba]

theorem Called.congr (h : x.Called dir sector m K) {sector' : ℕ → List Byte}
    (hsector : ∀ i < m, sector' i = sector i) (hlba : K'.lba = K.lba)
    (htoken : K'.asyncToken = K.asyncToken) (hcalls : K'.calls = K.calls) :
    x.Called dir sector' m K' where
  lba := hlba.trans h.lba
  token := htoken.trans h.token
  calls := by
    rw [hcalls, h.calls]
    refine congrArg (x.base.calls ++ ·) (List.map_congr_left fun i hi => ?_)
    rw [call, call, hsector i (List.mem_range.1 hi)]

end Calls

/-! ## Writes -/

theorem sectorBytes_congr {buffer buffer' : ℕ → Byte} (h : ∀ j < 512, buffer j = buffer' j) :
    sectorBytes buffer = sectorBytes buffer' := by
  unfold sectorBytes
  exact List.map_congr_left fun j hj => h j (List.mem_range.1 hj)

/-- Byte `j` of packets of 64 bytes. -/
def packetBytes (packet : ℕ → List Byte) (j : ℕ) : Byte := (packet (j / 64)).getD (j % 64) 0

/-- The `i`-th sector of packets of 64 bytes. -/
def writeSector (packet : ℕ → List Byte) (i : ℕ) : List Byte :=
  sectorBytes fun j => packetBytes packet (512 * i + j)

theorem packetBytes_congr {packet packet' : ℕ → List Byte} {m j : ℕ}
    (h : ∀ i < m, packet' i = packet i) (hj : j < 64 * m) :
    packetBytes packet' j = packetBytes packet j := by
  rw [packetBytes, packetBytes, h _ (Nat.div_lt_of_lt_mul hj)]

theorem writeSector_congr {packet packet' : ℕ → List Byte} {m i : ℕ}
    (h : ∀ i < m, packet' i = packet i) (hi : i < m / 8) :
    writeSector packet' i = writeSector packet i := by
  unfold writeSector
  exact sectorBytes_congr fun j hj => packetBytes_congr h (by omega)

theorem packetBytes_packet {packet : ℕ → List Byte} {k : ℕ} (hlen : (packet k).length = 64) :
    ((List.range 64).map fun j => packetBytes packet (64 * k + j)) = packet k := by
  refine List.ext_getElem (by simp [hlen]) fun j hj hj' => ?_
  rw [List.length_map, List.length_range] at hj
  have hdiv : (64 * k + j) / 64 = k := by omega
  have hmod : (64 * k + j) % 64 = j := by omega
  rw [List.getElem_map, List.getElem_range, packetBytes, hdiv, hmod,
    List.getD_eq_getElem?_getD, List.getElem?_eq_getElem hj', Option.getD_some]

/-- A packet of 64 bytes. -/
theorem packet_eq (x : SectorStream) {packet : ℕ → List Byte} {k : ℕ} (hk : k < x.packets)
    (hlen : (packet k).length = 64) : x.shape.packet (packetBytes packet) k = packet k := by
  rw [StreamShape.packet, packetLength_eq x hk]
  exact packetBytes_packet hlen

section Writes

variable {x : SectorStream} {vdReadBlock : Word → ℕ → Byte} {packet : ℕ → List Byte} {k m : ℕ}
  {K : MscClient}

/-- After `m` packets of 64 bytes of a stream of whole sectors : the calls are those of the sectors
that are complete, and the rest of the packets is in `_sector_buf`, followed by zeros. -/
structure Stored (x : SectorStream) (packet : ℕ → List Byte) (m : ℕ) (K : MscClient) : Prop where
  called : x.Called .dirOut (writeSector packet) (m / 8) K
  buffer : m % 8 ≠ 0 → ∀ j < 512, K.sectorBuf j =
    if j < 64 * (m % 8) then packetBytes packet (512 * (m / 8) + j) else 0

/-- `Stored`, if the stream and its packets are whole. -/
def Written (x : SectorStream) (packet : ℕ → List Byte) (m : ℕ) (K : MscClient) : Prop :=
  x.packets % 8 = 0 → (∀ i < m, (packet i).length = 64) → x.Stored packet m K

theorem Written.congr {packet' : ℕ → List Byte} {K' : MscClient} (h : x.Written packet m K)
    (hp : ∀ i < m, packet' i = packet i) (hlba : K'.lba = K.lba)
    (htoken : K'.asyncToken = K.asyncToken) (hcalls : K'.calls = K.calls)
    (hbuffer : K'.sectorBuf = K.sectorBuf) : x.Written packet' m K' := by
  intro hwhole hlen
  have hs := h hwhole fun i hi => by rw [← hp i hi, hlen i hi]
  refine ⟨hs.called.congr (fun i hi => writeSector_congr hp hi) hlba htoken hcalls,
    fun hmid j hj => ?_⟩
  rw [hbuffer, hs.buffer hmid j hj]
  split
  · rw [packetBytes_congr hp (by omega)]
  · rfl

/-- Before the `k`-th packet, or while its chunk is processed and its task is running. -/
structure OutReady (x : SectorStream) (packet : ℕ → List Byte) (k : ℕ) (K : MscClient) : Prop
    extends x.Kept k K where
  streamEp : K.streamEp = .mscOut
  offset : K.stream.offset = BitVec.ofNat 32 (receivedBytes packet k)
  length : K.stream.transferLength = x.length
  chunkSize : K.stream.chunkSize = sectorSize
  completed : K.completed = receivedBytes packet k

/-- Before the `k`-th packet. -/
structure OutIdle (x : SectorStream) (packet : ℕ → List Byte) (k : ℕ) (K : MscClient) : Prop
    extends x.OutReady packet k K where
  tasks : K.tasks = []
  written : x.Written packet k K

/-- When the `k`-th packet is stored, and the chunk that it ends is written. -/
structure OutDone (x : SectorStream) (packet : ℕ → List Byte) (k : ℕ) (K : MscClient) : Prop
    extends x.OutReady packet k K where
  tasks : K.tasks = []
  written : x.Written packet (k + 1) K

/-- While the chunk that ends with the `k`-th packet is processed : it is in `_sector_buf`. -/
structure OutBusy (x : SectorStream) (packet : ℕ → List Byte) (k : ℕ) (K : MscClient) : Prop
    extends x.OutReady packet k K where
  tasks : K.tasks = [K.asyncToken]
  written : x.Written packet (k + 1) K
  pending : ∃ calls lba, K.calls = calls ++ [⟨.dirOut, K.asyncToken, lba, sectorBytes K.sectorBuf⟩]
  sectorBuf : K.disk.sectorBuf = .ofSector K.sectorBuf

theorem OutReady.congr {packet' : ℕ → List Byte} {K' : MscClient} (h : x.OutReady packet k K)
    (hp : ∀ i < k, packet' i = packet i) (hmsc : K'.msc = K.msc)
    (haccepted : K'.accepted = K.accepted) (hcsws : K'.csws = K.csws)
    (hep : K'.streamEp = K.streamEp) (hstream : K'.stream = K.stream)
    (hcompleted : K'.completed = K.completed) : x.OutReady packet' k K' where
  msc := hmsc.trans h.msc
  accepted := haccepted.trans h.accepted
  csws := hcsws.trans h.csws
  streamEp := hep.trans h.streamEp
  offset := by rw [hstream, h.offset, receivedBytes_congr hp]
  length := by rw [hstream, h.length]
  chunkSize := by rw [hstream, h.chunkSize]
  completed := by rw [hcompleted, h.completed, receivedBytes_congr hp]

/-- Bytes on the bus, and packets to come, do not matter. -/
theorem OutIdle.transfer {packet' : ℕ → List Byte} (h : x.OutIdle packet k K)
    (hp : ∀ i < k, packet' i = packet i) (n : ℕ) : x.OutIdle packet' k (K.transfer n) :=
  ⟨h.toOutReady.congr hp rfl rfl rfl rfl rfl rfl, h.tasks, h.written.congr hp rfl rfl rfl rfl⟩

theorem OutBusy.transfer {packet' : ℕ → List Byte} (h : x.OutBusy packet k K)
    (hp : ∀ i < k + 1, packet' i = packet i) (n : ℕ) : x.OutBusy packet' k (K.transfer n) :=
  ⟨h.toOutReady.congr (fun i hi => hp i (by omega)) rfl rfl rfl rfl rfl rfl, h.tasks,
    h.written.congr hp rfl rfl rfl rfl, h.pending, h.sectorBuf⟩

/-- The record of the stream, if the packets so far are whole. -/
theorem OutReady.record (h : x.OutReady packet k K) (hk : k ≤ x.packets)
    (hlen : ∀ i < k, (packet i).length = 64) : K.stream = x.shape.record k := by
  have hlength : x.shape.length.toNat = 64 * x.packets := x.length_toNat
  have hoffset : K.stream.offset = (x.shape.record k).offset := by
    rw [h.offset, receivedBytes_full hlen, StreamShape.record, hlength, Nat.min_eq_left (by omega)]
  have hK : K.stream = ⟨K.stream.offset, K.stream.transferLength, K.stream.chunkSize⟩ := rfl
  rw [hK, hoffset, h.length, h.chunkSize]
  rfl

/-- The packet that is stored. -/
theorem store_stored (vdReadBlock : Word → ℕ → Byte) (h : x.OutIdle packet k K)
    (hk : k < x.packets) (hwhole : x.packets % 8 = 0)
    (hlen : ∀ i < k + 1, (packet i).length = 64) :
    let K' := (mscStream vdReadBlock).store (packet k) K
    x.Called .dirOut (writeSector packet) (k / 8) K' ∧
      ∀ j < 512, K'.sectorBuf j =
        if j < 64 * (k % 8 + 1) then packetBytes packet (512 * (k / 8) + j) else 0 := by
  have hk' : k < x.shape.packetCount := by rwa [packetCount_eq]
  have hprev : ∀ i < k, (packet i).length = 64 := fun i hi => hlen i (by omega)
  have hs := h.written hwhole hprev
  have hrecord := h.record (Nat.le_of_lt hk) hprev
  have hpacket := x.packet_eq hk (hlen k (Nat.lt_succ_self k))
  have hsize : x.shape.chunkSize.toNat = 512 := rfl
  refine ⟨hs.called.congr (fun _ _ => rfl) rfl rfl rfl, fun j hj => ?_⟩
  change K.stream.storePacket (packet k) K.sectorBuf j = _
  rw [hrecord, ← hpacket, StreamShape.storePacket_record (packetBytes packet) hk' _ hj,
    perChunk_eq, packetLength_eq x hk, hsize]
  · rw [Nat.mul_succ]
  · rw [perChunk_eq, hsize]
    exact hs.buffer

/-- A chunk is written, by a task or not. -/
theorem writeChunk_out (h : x.OutReady packet k K) (htasks : K.tasks = [])
    (hwritten : x.Written packet (k + 1) K.writeChunk.1)
    (hbuf : K.disk.sectorBuf = .ofSector K.sectorBuf) :
    (K.writeChunk.2 = true → x.OutBusy packet k K.writeChunk.1) ∧
      (K.writeChunk.2 = false → x.OutDone packet k K.writeChunk.1) := by
  have hkept : x.OutReady packet k K.writeChunk.1 :=
    h.congr (fun _ _ => rfl) rfl rfl rfl rfl rfl rfl
  have hdevice := vdWriteBlock_device (K.asyncToken + 1) K.disk
  have hsector : (vdWriteBlock (K.asyncToken + 1) K.disk).1.sectorBuf = K.disk.sectorBuf :=
    congrArg (fun p => p.2.1) hdevice
  refine ⟨fun hlater => ⟨hkept, ?_, hwritten, ⟨K.calls, K.lba, rfl⟩, hsector.trans hbuf⟩,
    fun hnow => ⟨hkept, ?_, hwritten⟩⟩
  · unfold MscClient.writeChunk at hlater ⊢
    dsimp only at hlater ⊢
    rw [if_pos hlater, htasks]
    rfl
  · unfold MscClient.writeChunk at hnow ⊢
    dsimp only at hnow ⊢
    rw [hnow, if_neg Bool.false_ne_true, htasks]

/-- A packet is stored, and the chunk may be written. -/
theorem receive_out (h : x.OutIdle packet k K) (hk : k < x.packets) :
    ((((mscStream vdReadBlock).handler false).receive K (packet k)).2 = false →
        x.OutBusy packet k (((mscStream vdReadBlock).handler false).receive K (packet k)).1) ∧
      ((((mscStream vdReadBlock).handler false).receive K (packet k)).2 = true →
        x.OutDone packet k (((mscStream vdReadBlock).handler false).receive K (packet k)).1) := by
  have hk' : k < x.shape.packetCount := by rwa [packetCount_eq]
  have hstored : x.OutReady packet k ((mscStream vdReadBlock).store (packet k) K) :=
    h.toOutReady.congr (fun _ _ => rfl) rfl rfl rfl rfl rfl rfl
  have htasks : ((mscStream vdReadBlock).store (packet k) K).tasks = [] := h.tasks
  have hbuf : ((mscStream vdReadBlock).store (packet k) K).disk.sectorBuf =
      .ofSector ((mscStream vdReadBlock).store (packet k) K).sectorBuf := rfl
  -- the chunk ends with the last of its packets, if the stream and its packets are whole
  have hend (hwhole : x.packets % 8 = 0) (hlen : ∀ i < k + 1, (packet i).length = 64) :
      (K.stream.chunkLen false ≠ 0 ↔ (k + 1) % 8 = 0) := by
    have hrecord := h.record (Nat.le_of_lt hk) fun i hi => hlen i (by omega)
    have hne := StreamShape.chunkLength_ne_zero hk'
    rw [hrecord, StreamShape.chunkLen_out hk', packetCount_eq, perChunk_eq] at *
    by_cases hlast : k + 1 = x.packets ∨ (k + 1) % 8 = 0
    · rw [if_pos hlast]
      exact ⟨fun _ => by omega, fun _ => hne⟩
    · rw [if_neg hlast]
      exact ⟨fun hzero => absurd rfl hzero, fun hmod => absurd (.inr hmod) hlast⟩
  have hafter (hwhole : x.packets % 8 = 0) (hlen : ∀ i < k + 1, (packet i).length = 64) :=
    store_stored vdReadBlock h hk hwhole hlen
  have htransfer : (mscStream vdReadBlock).transfer K = K.stream := rfl
  simp only [UsbStream.handler, UsbStream.callOnChunk, Bool.false_eq_true, if_false, htransfer]
  generalize (mscStream vdReadBlock).store (packet k) K = K₁ at *
  by_cases hchunk : K.stream.chunkLen false ≠ 0
  · have hep : ¬K₁.streamEp = .mscIn := by simp [hstored.streamEp]
    have hwrite (len : Word) : (mscStream vdReadBlock).onChunk len K₁ = K₁.writeChunk := if_neg hep
    have hwritten : x.Written packet (k + 1) K₁.writeChunk.1 := by
      intro hwhole hlen
      have hmod := (hend hwhole hlen).1 hchunk
      obtain ⟨hcalled, hbuffer⟩ := hafter hwhole hlen
      refine ⟨?_, fun hmid => absurd hmod hmid⟩
      rw [show (k + 1) / 8 = k / 8 + 1 by omega]
      refine hcalled.next rfl rfl ?_
      have hsector : sectorBytes K₁.sectorBuf = writeSector packet (k / 8) := by
        unfold writeSector
        refine sectorBytes_congr fun j hj => ?_
        rw [hbuffer j hj, if_pos (by omega)]
      rw [← hsector]
      rfl
    obtain ⟨hlater, hnow⟩ := writeChunk_out hstored htasks hwritten hbuf
    rw [if_pos hchunk, hwrite]
    exact ⟨fun h => hlater (by simpa using h), fun h => hnow (by simpa using h)⟩
  · rw [if_neg hchunk]
    refine ⟨fun hlater => (by cases hlater), fun _ => ⟨hstored, htasks, fun hwhole hlen => ?_⟩⟩
    have hmod := mt (hend hwhole hlen).2 hchunk
    obtain ⟨hcalled, hbuffer⟩ := hafter hwhole hlen
    have hdiv : (k + 1) / 8 = k / 8 := by omega
    have hsucc : (k + 1) % 8 = k % 8 + 1 := by omega
    exact ⟨hdiv ▸ hcalled, fun _ => by rw [hdiv, hsucc]; exact hbuffer⟩

theorem finish_out (hlen : ∀ i, (packet i).length ≤ 64) (hk : k < x.packets)
    (h : x.OutDone packet k K) :
    x.OutIdle packet (k + 1)
      (((mscStream vdReadBlock).handler false).finish K (packet k)).1 := by
  have hle := receivedBytes_le hlen (k + 1)
  have hcount := x.le
  have hoffset : K.stream.offset + BitVec.ofNat 32 (packet k).length =
      BitVec.ofNat 32 (receivedBytes packet (k + 1)) := by
    rw [h.offset, receivedBytes, BitVec.ofNat_add]
  refine ⟨⟨h.toKept.packetComplete _, h.streamEp, hoffset, h.length, h.chunkSize, ?_⟩, h.tasks,
    h.written.congr (fun _ _ => rfl) rfl rfl rfl rfl⟩
  change (K.stream.offset + BitVec.ofNat 32 (packet k).length).toNat = _
  rw [hoffset, BitVec.toNat_ofNat, Nat.mod_eq_of_lt (by omega)]

theorem serves_out (hlen : ∀ i, (packet i).length ≤ 64) :
    ((mscStream vdReadBlock).handler false).Serves false x.packets packet (x.OutIdle packet)
      (x.OutBusy packet) (x.OutDone packet) where
  length_le k _ := hlen k
  receive _ hk _ hK hlater := (receive_out hK hk).1 hlater
  atOnce _ hk _ hK hnow := (receive_out hK hk).2 hnow
  finish _ hk _ hK := finish_out hlen hk hK
  sends h := by cases h

/-- From the `d`-th packet on, with the bytes on the bus. -/
theorem serves_out_from (x : SectorStream) (vdReadBlock : Word → ℕ → Byte)
    (hlen : ∀ i, (packet i).length ≤ 64) (d n : ℕ) :
    ((mscStream vdReadBlock).handler false).Serves false x.packets packet
      (fun k K => (x.OutIdle packet k K ∧ d ≤ k) ∧ K.transferred = n)
      (fun k K => (x.OutBusy packet k K ∧ d ≤ k) ∧ K.transferred = n)
      (fun k K => (x.OutDone packet k K ∧ d ≤ k + 1) ∧ K.transferred = n) :=
  ((serves_out hlen).from d).and receive_transferred finish_transferred

end Writes

/-! ## Reads -/

section Reads

variable {x : SectorStream} {vdReadBlock : Word → ℕ → Byte} {k : ℕ} {K : MscClient}

/-- The sectors from `base.lba` on. -/
def bytes (x : SectorStream) (vdReadBlock : Word → ℕ → Byte) (j : ℕ) : Byte :=
  vdReadBlock (x.base.lba + BitVec.ofNat 32 (j / 512)) (j % 512)

/-- Before or after the sector of the `k`-th packet was read. -/
structure InKept (x : SectorStream) (k : ℕ) (K : MscClient) : Prop extends x.Kept k K where
  streamEp : K.streamEp = .mscIn
  record : K.stream = x.shape.record k
  completed : K.completed = 64 * k
  tasks : K.tasks = []

/-- The `i`-th sector from `base.lba` on. -/
def readSector (x : SectorStream) (vdReadBlock : Word → ℕ → Byte) (i : ℕ) : List Byte :=
  sectorBytes (vdReadBlock (x.base.lba + BitVec.ofNat 32 i))

/-- Before the `k`-th packet. -/
structure InIdle (x : SectorStream) (vdReadBlock : Word → ℕ → Byte) (k : ℕ) (K : MscClient) : Prop
    extends x.InKept k K where
  called : x.Called .dirIn (x.readSector vdReadBlock) ((k + 7) / 8) K
  buffer : k % 8 ≠ 0 → K.sectorBuf = vdReadBlock (x.base.lba + BitVec.ofNat 32 (k / 8))

/-- When the sector of the `k`-th packet is there. -/
structure InReady (x : SectorStream) (vdReadBlock : Word → ℕ → Byte) (k : ℕ) (K : MscClient) : Prop
    extends x.InKept k K where
  called : x.Called .dirIn (x.readSector vdReadBlock) (k / 8 + 1) K
  buffer : K.sectorBuf = vdReadBlock (x.base.lba + BitVec.ofNat 32 (k / 8))

/-- A sector is read before its first packet. -/
theorem receive_in (hk : k < x.packets) (h : x.InIdle vdReadBlock k K) :
    let r := ((mscStream vdReadBlock).handler true).receive K []
    r.2 = true ∧ x.InReady vdReadBlock k r.1 := by
  have hk' : k < x.shape.packetCount := by rwa [packetCount_eq]
  have hchunk := StreamShape.chunkLen_in hk'
  have hne := StreamShape.chunkLength_ne_zero hk'
  rw [perChunk_eq] at hchunk hne
  have hlen : ((mscStream vdReadBlock).transfer K).chunkLen true =
      (x.shape.record k).chunkLen true := congrArg (·.chunkLen true) h.record
  simp only [UsbStream.handler, UsbStream.callOnChunk, if_true, hlen, hchunk]
  by_cases hstart : k % 8 = 0
  · rw [if_pos hstart, if_pos hne]
    have hread (len : Word) : (mscStream vdReadBlock).onChunk len K =
        (K.readChunk vdReadBlock, false) := if_pos h.streamEp
    rw [hread]
    have hcalled := h.called
    rw [show (k + 7) / 8 = k / 8 by omega] at hcalled
    refine ⟨rfl, { h.toInKept with called := ?_, buffer := congrArg vdReadBlock hcalled.lba }⟩
    refine hcalled.next rfl rfl ?_
    rw [readSector, ← hcalled.lba]
    rfl
  · rw [if_neg hstart, if_neg (not_not_intro rfl)]
    have hsector : (k + 7) / 8 = k / 8 + 1 := by omega
    exact ⟨rfl, { h.toInKept with called := hsector ▸ h.called, buffer := h.buffer hstart }⟩

theorem finish_in (hk : k < x.packets) (h : x.InReady vdReadBlock k K) :
    x.InIdle vdReadBlock (k + 1) (((mscStream vdReadBlock).handler true).finish K []).1 := by
  have hk' : k < x.shape.packetCount := by rwa [packetCount_eq]
  have hcount := x.le
  have hrecord : K.stream.advance K.stream.dataLen = x.shape.record (k + 1) := by
    rw [h.record, StreamShape.dataLen_eq hk', StreamShape.advance_eq hk']
  have hlength : x.shape.length.toNat = 64 * x.packets := x.length_toNat
  refine { h.toKept.packetComplete _ with
    streamEp := h.streamEp
    record := hrecord
    completed := ?_
    tasks := h.tasks
    called := ?_
    buffer := fun hmid => ?_ }
  · change (K.stream.advance K.stream.dataLen).offset.toNat = _
    rw [hrecord, StreamShape.record, BitVec.toNat_ofNat, hlength, Nat.mod_eq_of_lt (by omega)]
    omega
  · rw [show (k + 1 + 7) / 8 = k / 8 + 1 by omega]
    exact h.called.congr (fun _ _ => rfl) rfl rfl rfl
  · rw [show (k + 1) / 8 = k / 8 by omega]
    exact h.buffer

/-- The packet that the host gets. -/
theorem load_in (hk : k < x.packets) (h : x.InReady vdReadBlock k K) :
    (mscStream vdReadBlock).load K = x.shape.packet (x.bytes vdReadBlock) k := by
  have hk' : k < x.shape.packetCount := by rwa [packetCount_eq]
  rw [← StreamShape.loadPacket_record (x.bytes vdReadBlock) hk']
  change K.stream.loadPacket K.sectorBuf = _
  rw [h.record, h.buffer]
  unfold UsbStreamTransfer.loadPacket
  refine List.map_congr_left fun j hj => ?_
  have hlen := StreamShape.dataLen_eq hk'
  have hoffset := StreamShape.record_chunkOffset hk'
  rw [List.mem_range, hlen, StreamShape.packetLength_toNat, packetLength_eq x hk] at hj
  rw [perChunk_eq] at hoffset
  have hsize : x.shape.chunkSize.toNat = 512 := rfl
  have hlt : (x.shape.record k).chunkOffset.toNat + j < 512 := by omega
  simp only [bytes, perChunk_eq, hsize]
  rw [Nat.mul_add_div (by omega), Nat.div_eq_of_lt hlt, Nat.mul_add_mod, Nat.mod_eq_of_lt hlt,
    Nat.add_zero]

theorem InIdle.transfer (h : x.InIdle vdReadBlock k K) (n : ℕ) :
    x.InIdle vdReadBlock k (K.transfer n) :=
  { msc := h.msc
    accepted := h.accepted
    csws := h.csws
    streamEp := h.streamEp
    record := h.record
    completed := h.completed
    tasks := h.tasks
    called := h.called.congr (fun _ _ => rfl) rfl rfl rfl
    buffer := h.buffer }

theorem serves_in : ((mscStream vdReadBlock).handler true).Serves true x.packets
    (x.shape.packet (x.bytes vdReadBlock)) (x.InIdle vdReadBlock) (fun _ _ => False)
    (x.InReady vdReadBlock) where
  length_le k _ := by
    rw [StreamShape.packet_length]
    exact Nat.min_le_left _ _
  receive k hk K hK hlater := by
    have hnow : (((mscStream vdReadBlock).handler true).receive K []).2 = true :=
      (receive_in hk hK).1
    rw [UsbHandler.input, if_pos rfl, hnow] at hlater
    cases hlater
  atOnce k hk K hK _ := (receive_in hk hK).2
  finish k hk K hK := finish_in hk hK
  sends _ k hk K hK := load_in hk hK

/-- With the bytes on the bus. -/
theorem serves_in_counted (x : SectorStream) (vdReadBlock : Word → ℕ → Byte) (n : ℕ) :
    ((mscStream vdReadBlock).handler true).Serves true x.packets
      (x.shape.packet (x.bytes vdReadBlock))
      (fun k K => x.InIdle vdReadBlock k K ∧ K.transferred = n)
      (fun _ K => False ∧ K.transferred = n)
      (fun k K => x.InReady vdReadBlock k K ∧ K.transferred = n) :=
  serves_in.and receive_transferred finish_transferred

theorem prompt_in (I : MscClient → Prop) : ((mscStream vdReadBlock).handler true).Prompt x.packets
    (fun k K => x.InIdle vdReadBlock k K ∧ I K) := by
  intro hn K hK _
  have hready := (receive_in x.pos hK.1).2
  exact (receive_in hn (finish_in x.pos hready)).1

end Reads

/-! ## The first packet and the last one -/

section Ends

variable {x : SectorStream} {vdReadBlock : Word → ℕ → Byte} {packet : ℕ → List Byte}

/-- `_msc_sector_transfer.stream.core`, after `usb_stream_setup_transfer`. -/
def core (x : SectorStream) : UsbTransfer MscFunction :=
  (UsbTransfer.reset ⟨.driver .streamPacketHandler, 0⟩ (some .tfDataPhaseComplete)).grow
    ((x.length + 63) / 64)

theorem core_packets (x : SectorStream) :
    x.core.remainingPacketsToSubmit.toNat = x.packets ∧
      x.core.remainingPacketsToHandle.toNat = x.packets := by
  have hcount : ((x.length + 63) / 64).toNat = x.packets := by
    have hlen := x.length_toNat
    have hle := x.le
    have h63 : (63 : Word).toNat = 63 := rfl
    have h64 : (64 : Word).toNat = 64 := rfl
    rw [BitVec.toNat_udiv, BitVec.toNat_add, h63, h64, Nat.mod_eq_of_lt (by omega)]
    omega
  refine ⟨Eq.trans ?_ hcount, Eq.trans ?_ hcount⟩ <;> simp [core]

/-- The stream starts on a free endpoint. -/
theorem line_start {s : MscState} {e : MscEndpoint} (hw : MscWired s) (h : (s.endpoint e).Free)
    (hfirst : x.first = (s.endpoint e).currentGiveBuffer) :
    UsbLine (x.setup (decide (e = .mscIn)))
      (((s.endpoint e).setTransfer (some .sector)).setChain none) x.core.start 0 0 0 where
  current := rfl
  isIn := hw.isIn e
  defaultTransfer := (hw.defaultTransfer e).trans (by cases e <;> rfl)
  onStallChange := (hw.onStallChange e).trans (by cases e <;> rfl)
  doubleBuffered := hw.doubleBuffered e
  notHalted := h.notHalted
  chain := rfl
  onPacket := rfl
  onComplete := rfl
  notCompleted := rfl
  submit := x.core_packets.1
  handle := x.core_packets.2
  owned := by simp [h.owned]
  available := by simp [h.available]
  give := by simp [setup, hfirst]
  returned_le := Nat.le_refl 0

/-- The client when the stream is set up. -/
structure Start (x : SectorStream) (ep : MscEndpoint) : Prop where
  streamEp : x.base.streamEp = ep
  record : x.base.stream = x.shape.record 0
  completed : x.base.completed = 0
  tasks : x.base.tasks = []

theorem kept_start (x : SectorStream) : x.Kept 0 x.base :=
  ⟨(Msc.takeResidue_zero _).symm, rfl, rfl⟩

theorem outIdle_start (h : x.Start .mscOut) : x.OutIdle packet 0 x.base := by
  refine ⟨⟨x.kept_start, h.streamEp, ?_, ?_, ?_, h.completed⟩, h.tasks,
    fun _ _ => ⟨called_start, fun hmid => absurd rfl hmid⟩⟩
  all_goals
    rw [h.record, StreamShape.record_zero]
    rfl

theorem inIdle_start (h : x.Start .mscIn) : x.InIdle vdReadBlock 0 x.base :=
  { x.kept_start with
    streamEp := h.streamEp
    record := h.record
    completed := h.completed
    tasks := h.tasks
    called := called_start
    buffer := fun hmid => absurd rfl hmid }

end Ends

end SectorStream

end PicoBootrom
