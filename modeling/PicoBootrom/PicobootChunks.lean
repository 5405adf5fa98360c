import PicoBootrom.MscStreams
import PicoBootrom.PicobootStreams

/-!
# The chunks of a command

The stream of a PICOBOOT read or write as a handler of packets. The task of `_picoboot_stream_transfer`
is queued for one chunk after the other (`ChunkStream.chunkTask`), with its address moved between two
of them. A packet of a write that ends a chunk is held until the task of the chunk is done, and so is
a packet of a read that starts one (`WriteHeld`, `ReadHeld`). Before the other packets no task is
under way, and the chunk buffer has the part of the chunk that was received, or the whole chunk that
the last task has read.

The number of tasks that were executed, and for a read the tasks themselves, are parameters : no
packet changes them.
-/

set_option linter.unusedSectionVars false

namespace PicoBootrom

open SectorStream (packetBytes packetBytes_congr)

theorem PicobootClient.chunkTaskDone_queue (K : PicobootClient) (task : AsyncTask) :
    (K.chunkTaskDone task).picoboot.queue = K.picoboot.queue := by
  unfold PicobootClient.chunkTaskDone Picoboot.chunkTaskDone
  dsimp only
  split <;> rfl

/-- Only the queue and the machine differ, and the queue is as enabled as before. -/
structure PicobootClient.SameStream (K' K : PicobootClient) : Prop where
  streamEp : K'.streamEp = K.streamEp
  stream : K'.stream = K.stream
  status : K'.status = K.status
  task : K'.picoboot.task = K.picoboot.task
  disable : K'.picoboot.queue.disable = K.picoboot.queue.disable
  acks : K'.acks = K.acks

/-- A read or a write : the command, the task that was prepared when it was read, and the
acknowledgements before. -/
structure ChunkStream where
  cmd : PicobootCmd
  task : AsyncTask
  acks : List ℕ
  length_ne_zero : cmd.dTransferLength ≠ 0
  fits : cmd.dTransferLength.toNat + 256 ≤ 2 ^ 32

namespace ChunkStream

variable (x : ChunkStream)

/-- The length of the transfer in chunks of a page. -/
def shape : StreamShape where
  length := x.cmd.dTransferLength
  chunkSize := flashPageSize
  length_ne_zero := x.length_ne_zero
  chunkSize_eq := ⟨8, by omega, rfl⟩
  fits := x.fits

/-- The task of the `i`-th chunk, as it is queued. -/
def chunkTask (i : ℕ) : AsyncTask :=
  { x.task with
    callback := .atcChunkTaskDone
    transferAddr := x.task.transferAddr + BitVec.ofNat 32 (256 * i)
    dataLength := x.cmd.chunkLen i
    checkLastMutationSource := decide (i ≠ 0) }

/-- The number of chunks that end before the `k`-th packet. -/
def ended (k : ℕ) : ℕ := if k = x.shape.packetCount then x.shape.chunkCount else k / 4

/-- Byte `j` of the chunks that were read. -/
def readByte (tasks : List ExecutedTask) (j : ℕ) : Byte :=
  match tasks[j / 256]? with
  | some t => t.after.picobootBuffer (j % 256)
  | none => 0

section Shape

variable {x} {k : ℕ}

theorem perChunk_eq (x : ChunkStream) : x.shape.perChunk = 4 := by
  have hsize : x.shape.chunkSize.toNat = 256 := rfl
  rw [StreamShape.perChunk, hsize]

theorem chunkSize_toNat (x : ChunkStream) : x.shape.chunkSize.toNat = 256 := rfl

theorem chunkLen_eq (x : ChunkStream) (i : ℕ) :
    x.cmd.chunkLen i = BitVec.ofNat 32 (x.shape.chunkLength i) := by
  rw [StreamShape.chunkLength_eq_min]
  rfl

theorem ended_of_lt (hk : k < x.shape.packetCount) : x.ended k = k / 4 :=
  if_neg (Nat.ne_of_lt hk)

/-- The packet after the last one of a chunk. -/
theorem ended_succ_of_end (hend : k + 1 = x.shape.packetCount ∨ (k + 1) % 4 = 0) :
    x.ended (k + 1) = k / 4 + 1 := by
  unfold ended
  split
  · next hlast => rw [StreamShape.chunkCount_eq hlast, perChunk_eq]
  · next hlast =>
    have hmod := hend.resolve_left hlast
    omega

theorem ended_succ_of_not (hend : ¬(k + 1 = x.shape.packetCount ∨ (k + 1) % 4 = 0)) :
    x.ended (k + 1) = k / 4 := by
  rw [ended, if_neg fun h => hend (.inl h)]
  omega

/-- A packet is in a chunk of the transfer. -/
theorem chunk_lt (hk : k < x.shape.packetCount) : k / 4 < x.shape.chunkCount := by
  have hlt := x.shape.lt_packetCount_iff.1 hk
  have hiff := x.shape.succ_lt_chunkCount_iff (k / 4 - 1)
  have hpos : 0 < x.shape.chunkCount := by
    have hlen := x.shape.length_pos
    have hcount : x.shape.chunkCount = (x.shape.length.toNat + 256 - 1) / 256 := rfl
    omega
  rw [chunkSize_toNat] at hiff
  rcases Nat.eq_zero_or_pos (k / 4) with hzero | hdiv
  · omega
  · have hless := hiff.2 (by omega)
    omega

end Shape

/-! ## The task of the next chunk -/

/-- What the stream keeps of the client, before the `k`-th packet. -/
structure Kept (ep : PicobootEndpoint) (k : ℕ) (K : PicobootClient) : Prop where
  streamEp : K.streamEp = ep
  record : K.stream = x.shape.record k
  status : K.status = ⟨x.cmd.dToken, picobootOk, x.cmd.bCmdId, true⟩
  enabled : K.picoboot.queue.disable = false
  acks : K.acks = x.acks

/-- The chunks before the `i`-th one are done. -/
def Next (i : ℕ) (K : PicobootClient) : Prop :=
  i < x.shape.chunkCount → ∃ callback len,
    K.picoboot.task = { x.chunkTask i with callback := callback, dataLength := len }

/-- The task of the `i`-th chunk was queued. -/
def Asked (i : ℕ) (K : PicobootClient) : Prop :=
  K.picoboot.task = { x.chunkTask i with checkLastMutationSource := true }

/-- The queue with the task of the `i`-th chunk. -/
def filled (i : ℕ) : AsyncTaskQueue := ⟨x.chunkTask i, true, false⟩

section Tasks

variable {x} {K : PicobootClient} {i : ℕ}

/-- `_picoboot_on_stream_chunk` queues the task of the next chunk. -/
theorem Next.onStreamChunk (h : x.Next i K) (hi : i < x.shape.chunkCount)
    (henabled : K.picoboot.queue.disable = false) :
    (K.onStreamChunk (x.cmd.chunkLen i)).picoboot.queue = x.filled i ∧
      x.Asked i (K.onStreamChunk (x.cmd.chunkLen i)) := by
  obtain ⟨callback, len, htask⟩ := h hi
  constructor
  · change AsyncTaskQueue.mk _ _ K.picoboot.queue.disable = _
    rw [henabled, htask]
    rfl
  · have hlocal : (K.onStreamChunk (x.cmd.chunkLen i)).picoboot.task =
        { K.picoboot.task with
          callback := .atcChunkTaskDone
          dataLength := x.cmd.chunkLen i
          checkLastMutationSource := true } := rfl
    rw [Asked, hlocal, htask]
    rfl

/-- `_atc_chunk_task_done` moves the address to the next chunk. -/
theorem Asked.chunkTaskDone (h : x.Asked i K) {task : AsyncTask}
    (htask : task.dataLength = x.cmd.chunkLen i) : x.Next (i + 1) (K.chunkTaskDone task) := by
  intro hmore
  have hlt := (x.shape.succ_lt_chunkCount_iff i).1 hmore
  have hlen : x.shape.length = x.cmd.dTransferLength := rfl
  rw [chunkSize_toNat, hlen] at hlt
  have hdone : (K.chunkTaskDone task).picoboot.task =
      { K.picoboot.task with transferAddr := K.picoboot.task.transferAddr + task.dataLength } := by
    unfold PicobootClient.chunkTaskDone Picoboot.chunkTaskDone
    dsimp only
    split <;> rfl
  refine ⟨.atcChunkTaskDone, x.cmd.chunkLen i, ?_⟩
  rw [hdone, h, htask]
  simp only [chunkTask, PicobootCmd.add_chunkLen hlt]
  simp

theorem Kept.congr {ep : PicobootEndpoint} {k : ℕ} {K' : PicobootClient} (h : x.Kept ep k K)
    (hK : K'.SameStream K) : x.Kept ep k K' :=
  ⟨hK.streamEp.trans h.streamEp, hK.stream.trans h.record, hK.status.trans h.status,
    hK.disable.trans h.enabled, hK.acks.trans h.acks⟩

theorem Next.congr {K' : PicobootClient} (h : x.Next i K) (hK : K'.SameStream K) : x.Next i K' := by
  intro hi
  obtain ⟨callback, len, htask⟩ := h hi
  exact ⟨callback, len, hK.task.trans htask⟩

/-- The chunk of a task that has succeeded is done, and the status stays. -/
theorem Kept.chunkTaskDone {ep : PicobootEndpoint} {k : ℕ} (h : x.Kept ep k K) {task : AsyncTask}
    (hresult : task.result = 0) : x.Kept ep k (K.chunkTaskDone task) := by
  have hstatus : (K.chunkTaskDone task).status = K.status := by
    have hcode : K.picoboot.currentCmdStatus.dStatusCode = 0 := congrArg (·.dStatusCode) h.status
    unfold PicobootClient.chunkTaskDone Picoboot.chunkTaskDone PicobootClient.status
    rw [hresult]
    dsimp only
    rw [if_neg (by simp)]
    unfold Picoboot.setCmdStatus
    dsimp only
    rw [← hcode]
  exact
    { streamEp := h.streamEp
      record := h.record
      status := hstatus.trans h.status
      enabled := by rw [PicobootClient.chunkTaskDone_queue]; exact h.enabled
      acks := h.acks }

end Tasks

/-! ## Writes -/

section Writes

variable {x} {packet : ℕ → List Byte} {n k : ℕ} {K : PicobootClient}

/-- The chunk buffer has the first `n` bytes of the `i`-th chunk, and zeros. -/
def Buffered (packet : ℕ → List Byte) (i n : ℕ) (K : PicobootClient) : Prop :=
  ∀ j < 256, K.machine.picobootBuffer j =
    if j < n then packetBytes packet (256 * i + j) else 0

/-- Before the `k`-th packet of a write, when `n` tasks were executed. -/
structure WriteIdle (x : ChunkStream) (packet : ℕ → List Byte) (n k : ℕ) (K : PicobootClient) : Prop
    extends x.Kept .picobootOut k K where
  vacant : K.picoboot.queue.full = false
  count : n = x.ended k
  next : x.Next (x.ended k) K
  buffer : k < x.shape.packetCount → k % 4 ≠ 0 → Buffered packet (k / 4) (64 * (k % 4)) K

/-- While the task of the chunk that the `k`-th packet ends is under way. -/
structure WriteHeld (x : ChunkStream) (k : ℕ) (K : PicobootClient) : Prop
    extends x.Kept .picobootOut k K where
  inside : k < x.shape.packetCount
  ends : k + 1 = x.shape.packetCount ∨ (k + 1) % 4 = 0
  asked : x.Asked (k / 4) K

/-- The task of the chunk that the `k`-th packet ends is in the queue. -/
structure WriteQueued (x : ChunkStream) (packet : ℕ → List Byte) (n k : ℕ) (K : PicobootClient) :
    Prop extends x.WriteHeld k K where
  count : n = k / 4
  queue : K.picoboot.queue = x.filled (k / 4)
  buffer : Buffered packet (k / 4) (x.shape.chunkLength (k / 4)) K

/-- The `k`-th packet is stored, and the chunk that it ends is written. -/
structure WriteReady (x : ChunkStream) (packet : ℕ → List Byte) (n k : ℕ) (K : PicobootClient) :
    Prop extends x.Kept .picobootOut k K where
  vacant : K.picoboot.queue.full = false
  count : n = x.ended (k + 1)
  next : x.Next (x.ended (k + 1)) K
  buffer : k + 1 < x.shape.packetCount → (k + 1) % 4 ≠ 0 →
    Buffered packet ((k + 1) / 4) (64 * ((k + 1) % 4)) K

/-- A packet of the length that the transfer says. -/
theorem packet_eq (hlen : (packet k).length = x.shape.packetLength k) :
    x.shape.packet (packetBytes packet) k = packet k := by
  refine List.ext_getElem (by rw [StreamShape.packet_length, hlen]) fun j hj hj' => ?_
  rw [StreamShape.packet_length, StreamShape.packetLength] at hj
  have hdiv : (64 * k + j) / 64 = k := by omega
  have hmod : (64 * k + j) % 64 = j := by omega
  simp only [StreamShape.packet, List.getElem_map, List.getElem_range, packetBytes, hdiv, hmod]
  rw [List.getD_eq_getElem?_getD, List.getElem?_eq_getElem hj', Option.getD_some]

/-- The packet that is stored. -/
theorem WriteIdle.store (h : x.WriteIdle packet n k K) (hk : k < x.shape.packetCount)
    (hlen : (packet k).length = x.shape.packetLength k) :
    Buffered packet (k / 4) (64 * (k % 4) + x.shape.packetLength k)
      (picobootStream.store (packet k) K) := by
  intro j hj
  change K.stream.storePacket (packet k) K.machine.picobootBuffer j = _
  have hstored := @StreamShape.storePacket_record x.shape k (packetBytes packet)
    K.machine.picobootBuffer hk
  rw [perChunk_eq, chunkSize_toNat] at hstored
  rw [h.record, ← packet_eq hlen, hstored (h.buffer hk) hj]

/-- A packet is stored, and the task of the chunk that it ends is queued. -/
theorem receive_write (h : x.WriteIdle packet n k K) (hk : k < x.shape.packetCount)
    (hlen : (packet k).length = x.shape.packetLength k) :
    let r := (picobootStream.handler false).receive K (packet k)
    (r.2 = false → x.WriteQueued packet n k r.1) ∧ (r.2 = true → x.WriteReady packet n k r.1) := by
  have hstored := h.store hk hlen
  have hchunk := StreamShape.chunkLen_out hk
  have hcount := h.count
  have hnext := h.next
  rw [ended_of_lt hk] at hcount hnext
  rw [perChunk_eq] at hchunk
  have htransfer : picobootStream.transfer K = x.shape.record k := h.record
  have hkept : x.Kept .picobootOut k (picobootStream.store (packet k) K) :=
    ⟨h.streamEp, h.record, h.status, h.enabled, h.acks⟩
  have hnext' : x.Next (k / 4) (picobootStream.store (packet k) K) := hnext
  have hvacant : (picobootStream.store (packet k) K).picoboot.queue.full = false := h.vacant
  simp only [UsbStream.handler, UsbStream.callOnChunk, Bool.false_eq_true, if_false, htransfer]
  generalize picobootStream.store (packet k) K = K₁ at *
  by_cases hend : k + 1 = x.shape.packetCount ∨ (k + 1) % 4 = 0
  · rw [if_pos hend] at hchunk
    have hne := StreamShape.chunkLength_ne_zero hk
    have hlength := StreamShape.chunkLength_of_end hk (by rw [perChunk_eq]; exact hend)
    rw [perChunk_eq] at hne hlength
    rw [hlength] at hstored
    obtain ⟨hqueue, hasked⟩ := hnext'.onStreamChunk (chunk_lt hk) hkept.enabled
    rw [chunkLen_eq] at hqueue hasked
    rw [hchunk, if_pos hne]
    refine ⟨fun _ => ?_, fun hnow => by cases hnow⟩
    exact
      { streamEp := hkept.streamEp
        record := hkept.record
        status := hkept.status
        enabled := congrArg (·.disable) hqueue
        acks := hkept.acks
        inside := hk
        ends := hend
        asked := hasked
        buffer := hstored
        count := hcount
        queue := hqueue }
  · rw [if_neg hend] at hchunk
    rw [hchunk, if_neg (not_not_intro rfl)]
    refine ⟨fun hlater => (by cases hlater), fun _ => ⟨hkept, hvacant, ?_, ?_, fun hmore hmid => ?_⟩⟩
    · rw [ended_succ_of_not hend, hcount]
    · rw [ended_succ_of_not hend]
      exact hnext'
    · have hlt := x.shape.lt_packetCount_iff.1 hmore
      have hwhole : x.shape.packetLength k = 64 := Nat.min_eq_left (by omega)
      have hdiv : (k + 1) / 4 = k / 4 := by omega
      have hmod : 64 * ((k + 1) % 4) = 64 * (k % 4) + 64 := by omega
      rw [hwhole] at hstored
      rw [hdiv, hmod]
      exact hstored

theorem finish_write (h : x.WriteReady packet n k K) (hk : k < x.shape.packetCount)
    (hlen : (packet k).length = x.shape.packetLength k) :
    x.WriteIdle packet n (k + 1) ((picobootStream.handler false).finish K (packet k)).1 := by
  have hadvance := StreamShape.advance_eq hk
  refine ⟨⟨h.streamEp, ?_, h.status, h.enabled, h.acks⟩, h.vacant, h.count, h.next, h.buffer⟩
  change K.stream.advance (BitVec.ofNat 32 (packet k).length) = _
  rw [h.record, hlen, hadvance]

/-- The task of a chunk is done. -/
theorem WriteHeld.done (h : x.WriteHeld k K) (hvacant : K.picoboot.queue.full = false)
    {task : AsyncTask} (htask : task.dataLength = x.cmd.chunkLen (k / 4))
    (hresult : task.result = 0) : x.WriteReady packet (k / 4 + 1) k (K.chunkTaskDone task) := by
  refine ⟨h.toKept.chunkTaskDone hresult, ?_, ?_, ?_, fun hmore hmid => ?_⟩
  · rw [PicobootClient.chunkTaskDone_queue]
    exact hvacant
  · rw [ended_succ_of_end h.ends]
  · rw [ended_succ_of_end h.ends]
    exact h.asked.chunkTaskDone htask
  · exact absurd (h.ends.resolve_left (Nat.ne_of_lt hmore)) hmid

/-- Only the packets that were received matter. -/
theorem Buffered.congr {packet' : ℕ → List Byte} {i m : ℕ} (h : Buffered packet i n K)
    (hp : ∀ j < m, packet' j = packet j) (hn : 256 * i + n ≤ 64 * m) : Buffered packet' i n K := by
  intro j hj
  rw [h j hj]
  split
  · rw [packetBytes_congr hp (by omega)]
  · rfl

theorem WriteIdle.congr {packet' : ℕ → List Byte} (h : x.WriteIdle packet n k K)
    (hp : ∀ j < k, packet' j = packet j) : x.WriteIdle packet' n k K :=
  ⟨h.toKept, h.vacant, h.count, h.next, fun hk hmid => (h.buffer hk hmid).congr hp (by omega)⟩

theorem WriteIdle.same {K' : PicobootClient} (h : x.WriteIdle packet n k K) (hK : K'.SameStream K)
    (hfull : K'.picoboot.queue.full = K.picoboot.queue.full)
    (hbuffer : K'.machine.picobootBuffer = K.machine.picobootBuffer) :
    x.WriteIdle packet n k K' :=
  ⟨h.toKept.congr hK, hfull.trans h.vacant, h.count, h.next.congr hK, fun hk hmid j hj => by
    rw [hbuffer]
    exact h.buffer hk hmid j hj⟩

theorem WriteHeld.congr {K' : PicobootClient} (h : x.WriteHeld k K) (hK : K'.SameStream K) :
    x.WriteHeld k K' :=
  ⟨h.toKept.congr hK, h.inside, h.ends, hK.task.trans h.asked⟩

/-- The contract of a write. -/
theorem serves_write (hlen : ∀ k < x.shape.packetCount, (packet k).length = x.shape.packetLength k)
    (n : ℕ) :
    (picobootStream.handler false).Serves false x.shape.packetCount packet (x.WriteIdle packet n)
      (x.WriteQueued packet n) (x.WriteReady packet n) where
  length_le k hk := by
    rw [hlen k hk]
    exact Nat.min_le_left _ _
  receive k hk _ hK hlater := (receive_write hK hk (hlen k hk)).1 hlater
  atOnce k hk _ hK hnow := (receive_write hK hk (hlen k hk)).2 hnow
  finish k hk _ hK := finish_write hK hk (hlen k hk)
  sends h := by cases h

end Writes

/-! ## Reads -/

section Reads

variable {x} {tasks : List ExecutedTask} {k : ℕ} {K : PicobootClient}

/-- The chunk buffer has the `i`-th chunk that was read. -/
def Loaded (tasks : List ExecutedTask) (i : ℕ) (K : PicobootClient) : Prop :=
  ∀ j < 256, K.machine.picobootBuffer j = readByte tasks (256 * i + j)

/-- Before the `k`-th packet of a read. -/
structure ReadIdle (x : ChunkStream) (tasks : List ExecutedTask) (k : ℕ) (K : PicobootClient) : Prop
    extends x.Kept .picobootIn k K where
  vacant : K.picoboot.queue.full = false
  count : tasks.length = (k + 3) / 4
  next : x.Next ((k + 3) / 4) K
  buffer : k % 4 ≠ 0 → Loaded tasks (k / 4) K

/-- While the task of the chunk that the `k`-th packet starts is under way. -/
structure ReadHeld (x : ChunkStream) (k : ℕ) (K : PicobootClient) : Prop
    extends x.Kept .picobootIn k K where
  inside : k < x.shape.packetCount
  starts : k % 4 = 0
  asked : x.Asked (k / 4) K

/-- The task of the chunk that the `k`-th packet starts is in the queue. -/
structure ReadQueued (x : ChunkStream) (tasks : List ExecutedTask) (k : ℕ) (K : PicobootClient) :
    Prop extends x.ReadHeld k K where
  count : tasks.length = k / 4
  queue : K.picoboot.queue = x.filled (k / 4)

/-- The chunk of the `k`-th packet is there. -/
structure ReadReady (x : ChunkStream) (tasks : List ExecutedTask) (k : ℕ) (K : PicobootClient) :
    Prop extends x.Kept .picobootIn k K where
  vacant : K.picoboot.queue.full = false
  count : tasks.length = k / 4 + 1
  next : x.Next (k / 4 + 1) K
  buffer : Loaded tasks (k / 4) K

/-- The task of a chunk is queued before its first packet. -/
theorem receive_read (h : x.ReadIdle tasks k K) (hk : k < x.shape.packetCount) :
    let r := (picobootStream.handler true).receive K []
    (r.2 = false → x.ReadQueued tasks k r.1) ∧ (r.2 = true → x.ReadReady tasks k r.1) ∧
      (k % 4 = 0 → r.2 = false) := by
  have hchunk := StreamShape.chunkLen_in hk
  rw [perChunk_eq] at hchunk
  have htransfer : picobootStream.transfer K = x.shape.record k := h.record
  simp only [UsbStream.handler, UsbStream.callOnChunk, if_true, htransfer]
  by_cases hstart : k % 4 = 0
  · have hindex : (k + 3) / 4 = k / 4 := by omega
    have hne := StreamShape.chunkLength_ne_zero hk
    rw [perChunk_eq] at hne
    have hnext := h.next
    have hcount := h.count
    rw [hindex] at hnext hcount
    obtain ⟨hqueue, hasked⟩ := hnext.onStreamChunk (chunk_lt hk) h.enabled
    rw [chunkLen_eq] at hqueue hasked
    rw [hchunk, if_pos hstart, if_pos hne]
    refine ⟨fun _ => ?_, fun hnow => (by cases hnow), fun _ => rfl⟩
    exact
      { streamEp := h.streamEp
        record := h.record
        status := h.status
        enabled := congrArg (·.disable) hqueue
        acks := h.acks
        inside := hk
        starts := hstart
        asked := hasked
        count := hcount
        queue := hqueue }
  · rw [hchunk, if_neg hstart, if_neg (not_not_intro rfl)]
    have hindex : (k + 3) / 4 = k / 4 + 1 := by omega
    have hcount := h.count
    have hnext := h.next
    rw [hindex] at hcount hnext
    exact ⟨fun hlater => (by cases hlater),
      fun _ => ⟨h.toKept, h.vacant, hcount, hnext, h.buffer hstart⟩, fun hzero => absurd hzero hstart⟩

theorem ReadIdle.same {K' : PicobootClient} (h : x.ReadIdle tasks k K) (hK : K'.SameStream K)
    (hfull : K'.picoboot.queue.full = K.picoboot.queue.full)
    (hbuffer : K'.machine.picobootBuffer = K.machine.picobootBuffer) : x.ReadIdle tasks k K' :=
  ⟨h.toKept.congr hK, hfull.trans h.vacant, h.count, h.next.congr hK, fun hmid j hj => by
    rw [hbuffer]
    exact h.buffer hmid j hj⟩

theorem ReadHeld.congr {K' : PicobootClient} (h : x.ReadHeld k K) (hK : K'.SameStream K) :
    x.ReadHeld k K' :=
  ⟨h.toKept.congr hK, h.inside, h.starts, hK.task.trans h.asked⟩

/-- The task of a chunk is done. -/
theorem ReadHeld.done (h : x.ReadHeld k K) (hvacant : K.picoboot.queue.full = false)
    (hcount : tasks.length = k / 4 + 1) (hloaded : Loaded tasks (k / 4) K) {task : AsyncTask}
    (htask : task.dataLength = x.cmd.chunkLen (k / 4)) (hresult : task.result = 0) :
    x.ReadReady tasks k (K.chunkTaskDone task) := by
  refine ⟨h.toKept.chunkTaskDone hresult, ?_, hcount, h.asked.chunkTaskDone htask, hloaded⟩
  rw [PicobootClient.chunkTaskDone_queue]
  exact hvacant

theorem finish_read (h : x.ReadReady tasks k K) (hk : k < x.shape.packetCount) :
    x.ReadIdle tasks (k + 1) ((picobootStream.handler true).finish K []).1 := by
  have hadvance := StreamShape.advance_eq hk
  have hindex : (k + 1 + 3) / 4 = k / 4 + 1 := by omega
  refine ⟨⟨h.streamEp, ?_, h.status, h.enabled, h.acks⟩, h.vacant, ?_, ?_, fun hmid => ?_⟩
  · change K.stream.advance K.stream.dataLen = _
    rw [h.record, StreamShape.dataLen_eq hk, hadvance]
  · rw [hindex, h.count]
  · rw [hindex]
    exact h.next
  · have hdiv : (k + 1) / 4 = k / 4 := by omega
    rw [hdiv]
    exact h.buffer

/-- The packet that the host gets. -/
theorem load_read (h : x.ReadReady tasks k K) (hk : k < x.shape.packetCount) :
    picobootStream.load K = x.shape.packet (readByte tasks) k := by
  rw [← StreamShape.loadPacket_record (readByte tasks) hk]
  change K.stream.loadPacket K.machine.picobootBuffer = _
  have hfits := StreamShape.packet_fits x.shape k
  have hoffset := StreamShape.record_chunkOffset hk
  rw [perChunk_eq] at hfits hoffset
  rw [chunkSize_toNat] at hfits
  have hlen := StreamShape.dataLen_eq hk
  rw [h.record]
  unfold UsbStreamTransfer.loadPacket
  refine List.map_congr_left fun j hj => ?_
  rw [List.mem_range, hlen, StreamShape.packetLength_toNat, StreamShape.packetLength] at hj
  rw [h.buffer _ (by omega), perChunk_eq, chunkSize_toNat]

/-- The contract of a read. -/
theorem serves_read (x : ChunkStream) (tasks : List ExecutedTask) :
    (picobootStream.handler true).Serves true x.shape.packetCount (x.shape.packet (readByte tasks))
      (x.ReadIdle tasks) (x.ReadQueued tasks) (x.ReadReady tasks) where
  length_le k _ := by
    rw [StreamShape.packet_length]
    exact Nat.min_le_left _ _
  receive k hk _ hK hlater := (receive_read hK hk).1 hlater
  atOnce k hk _ hK hnow := (receive_read hK hk).2.1 hnow
  finish k hk _ hK := finish_read hK hk
  sends _ k hk _ hK := load_read hK hk

/-- The first packet of a read waits for its chunk. -/
theorem prompt_read (x : ChunkStream) (tasks : List ExecutedTask) :
    (picobootStream.handler true).Prompt x.shape.packetCount (x.ReadIdle tasks) := by
  intro hcount K hK hnow
  have hlater := (receive_read hK (by omega : 0 < x.shape.packetCount)).2.2 rfl
  exact absurd (hlater.symm.trans hnow) Bool.false_ne_true

end Reads

end ChunkStream

end PicoBootrom
