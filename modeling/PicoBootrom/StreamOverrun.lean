import PicoBootrom.UsbOutLine
import PicoBootrom.UsbStream

/-!
# Short packets of an OUT stream

An OUT stream copies each packet into its chunk buffer, at the offset of the bytes received so far
within the chunk. The transfer counts packets, and the host chooses their lengths. A short packet in
the middle moves all that follow, until one of them starts in a chunk and ends behind it : the
assertions that would catch it are compiled out, and the copy goes on behind the buffer.

Each copy is noted right before the handler runs (`OverrunCase.noteCopy`), and the handler writes to
the range that is noted and nowhere else (`OverrunCase.receive_writes`). After a run, the copies
are those of the packets handled so far, whatever the hardware and the chunks that are processed
later do (`OverrunCase.run`), so they stay inside the buffer if and only if no packet crosses the
end of a chunk (`OverrunCase.copies_inside_iff`).
-/

set_option linter.unusedSectionVars false

namespace PicoBootrom

/-! ## The streams of the firmware -/

/-- The stream, and the copies into the chunk buffer, each with its `chunk_offset` and its
`data_len`. -/
structure CopyLog where
  transfer : UsbStreamTransfer
  chunkBuffer : ℕ → Byte
  copies : List (ℕ × ℕ) := []

/-- The functions of the transfer. -/
inductive CopyFunction
  | onPacket
  | onComplete
  deriving DecidableEq

/-- The OUT streams : the sectors that the host writes to the virtual disk, and the data of
`PC_WRITE`. -/
inductive OutStream
  | sector
  | picoboot
  deriving DecidableEq, Repr

/-- `SECTOR_SIZE` and `FLASH_PAGE_SIZE`. -/
def OutStream.chunkSize : OutStream → Word
  | .sector => 512
  | .picoboot => 256

theorem OutStream.chunkSize_pos (kind : OutStream) : 0 < kind.chunkSize.toNat := by
  cases kind <;> exact Nat.succ_pos _

theorem OutStream.and_chunkSize (kind : OutStream) (a : Word) :
    (a &&& (kind.chunkSize - 1)).toNat = a.toNat % kind.chunkSize.toNat := by
  rw [BitVec.toNat_and]
  cases kind with
  | sector => exact Nat.and_two_pow_sub_one_eq_mod a.toNat 9
  | picoboot => exact Nat.and_two_pow_sub_one_eq_mod a.toNat 8

section Runs

variable {ε τ : Type} [DecidableEq ε] [DecidableEq τ]

/-- An OUT stream, the packets that the host sends, and which calls of `on_chunk` are for chunks
that are processed later. -/
structure OverrunCase (ε τ : Type) where
  endpoint : ε
  transfer : τ
  kind : OutStream
  length : Word
  packet : ℕ → List Byte
  packet_le : ∀ k, (packet k).length ≤ 64
  later : ℕ → Bool

namespace OverrunCase

variable (x : OverrunCase ε τ)

/-- The stream. -/
def stream : UsbStream CopyLog where
  transfer K := K.transfer
  setTransfer S K := { K with transfer := S }
  chunkBuffer K := K.chunkBuffer
  setChunkBuffer buffer K := { K with chunkBuffer := buffer }
  onChunk _ K := (K, x.later K.copies.length)
  onPacketComplete K := K

/-- The copy of a packet into the chunk buffer. -/
def note (packet : List Byte) (K : CopyLog) : CopyLog :=
  { K with copies := K.copies ++ [(K.transfer.chunkOffset.toNat, packet.length)] }

/-- The `memcpy` that the handler of a packet is about to make. -/
def noteCopy (e : ε) (s : UsbState ε τ CopyFunction CopyLog) :
    UsbState ε τ CopyFunction CopyLog :=
  s.modifyClient (note ((usbCurrentPacketBuffer e s).endpoint e).bufferData)

/-- The functions of the driver. -/
def driver : UsbDriver ε τ CopyFunction CopyLog
  | c, .onPacket, e, s => x.stream.packetHandler c e (noteCopy e s)
  | _, .onComplete, _, s => .ok s

/-- The functions that the library calls. -/
def calls (depth : ℕ) : UsbCalls ε τ CopyFunction CopyLog :=
  usbCalls x.driver depth

/-- The state before `usb_stream_setup_transfer` : the endpoint owns both buffers. -/
structure Ready (s : UsbState ε τ CopyFunction CopyLog) : Prop where
  isIn : (s.endpoint x.endpoint).isIn = false
  doubleBuffered : (s.endpoint x.endpoint).doubleBuffered = true
  notHalted : (s.endpoint x.endpoint).haltState = .none
  owned : (s.endpoint x.endpoint).ownedBufferCount = 2
  available : (s.endpoint x.endpoint).hw.available = []
  log : s.client.copies = []

/-- `usb_stream_setup_transfer` and `usb_start_transfer`. -/
def start (c : UsbCalls ε τ CopyFunction CopyLog) (s : UsbState ε τ CopyFunction CopyLog) :
    UsbResult (UsbState ε τ CopyFunction CopyLog) :=
  usbStartTransfer c x.endpoint x.transfer
    (x.stream.setupTransfer x.transfer .onPacket x.kind.chunkSize x.length (some .onComplete) s)

/-- The runs of the stream, with the number of buffers that the hardware has returned. -/
inductive Run (depth : ℕ) (s₀ : UsbState ε τ CopyFunction CopyLog) :
    ℕ → UsbResult (UsbState ε τ CopyFunction CopyLog) → Prop
  | start : Run depth s₀ 0 (x.start (x.calls depth) s₀)
  /-- The hardware is done with the first buffer it has. -/
  | buffer {k : ℕ} {s : UsbState ε τ CopyFunction CopyLog} (h : Run depth s₀ k (.ok s))
      (hcurrent : (s.endpoint x.endpoint).currentTransfer = some x.transfer)
      (havail : (s.endpoint x.endpoint).hw.available ≠ []) :
      Run depth s₀ (k + 1) (usbBufferInterrupt (x.calls depth) x.endpoint (x.packet k) s)
  /-- A chunk that is processed later is done. -/
  | chunkDone {k : ℕ} {s : UsbState ε τ CopyFunction CopyLog} (h : Run depth s₀ k (.ok s))
      (hcurrent : (s.endpoint x.endpoint).currentTransfer = some x.transfer)
      (houtstanding : (s.transfer x.transfer).outstandingPacket = true) :
      Run depth s₀ k (x.stream.chunkDone (x.calls depth) x.endpoint s)

/-! ## Packets and chunks -/

/-- The number of packets of the transfer. -/
def packetCount : ℕ := ((x.length + 63) / 64).toNat

/-- The number of bytes in the first `k` packets. -/
def received : ℕ → ℕ
  | 0 => 0
  | k + 1 => received k + (x.packet k).length

/-- The copies of the first `k` packets. -/
def copiesOf (k : ℕ) : List (ℕ × ℕ) :=
  (List.range k).map fun i => (x.received i % x.kind.chunkSize.toNat, (x.packet i).length)

/-- No packet of the transfer has bytes of two chunks, where the bytes that were received are
counted. -/
def NoneCrosses : Prop :=
  ∀ k < x.packetCount, ∀ m,
    ¬(x.received k < x.kind.chunkSize.toNat * m ∧ x.kind.chunkSize.toNat * m < x.received (k + 1))

/-- The copies stay inside the chunk buffer. -/
def CopiesInside (s : UsbState ε τ CopyFunction CopyLog) : Prop :=
  ∀ copy ∈ s.client.copies, copy.1 + copy.2 ≤ x.kind.chunkSize.toNat

variable {x} {depth k : ℕ} {s₀ : UsbState ε τ CopyFunction CopyLog}

theorem packetCount_lt : x.packetCount < 2 ^ 26 := by
  have hlt := (x.length + 63).isLt
  rw [packetCount, BitVec.toNat_udiv, show (64 : Word).toNat = 64 from rfl]
  omega

theorem received_le (k : ℕ) : x.received k ≤ 64 * k := by
  induction k with
  | zero => exact Nat.le_refl 0
  | succ k ih =>
    have hle := x.packet_le k
    rw [received]
    omega

theorem received_lt (hk : k ≤ x.packetCount) : x.received k < 2 ^ 32 := by
  have hle := x.received_le k
  have hcount := x.packetCount_lt
  omega

/-- A packet that starts in a chunk ends there, if it does not cross the end. -/
theorem chunk_end_iff {start len size : ℕ} (hsize : 0 < size) :
    start % size + len ≤ size ↔ ∀ m, ¬(start < size * m ∧ size * m < start + len) := by
  have hdiv := Nat.div_add_mod start size
  have hmod := Nat.mod_lt start hsize
  constructor
  · rintro hle m ⟨hlow, hhigh⟩
    have hm : start / size + 1 ≤ m := by
      by_contra hlt
      have hmul := Nat.mul_le_mul_left size (show m ≤ start / size by omega)
      omega
    have hmul := Nat.mul_le_mul_left size hm
    rw [Nat.mul_succ] at hmul
    omega
  · intro hnone
    have hnext := hnone (start / size + 1)
    rw [Nat.mul_succ] at hnext
    omega

theorem noneCrosses_iff : x.NoneCrosses ↔
    ∀ k < x.packetCount, x.received k % x.kind.chunkSize.toNat + (x.packet k).length ≤
      x.kind.chunkSize.toNat :=
  forall₂_congr fun _ _ => (chunk_end_iff x.kind.chunkSize_pos).symm

theorem copiesOf_succ (k : ℕ) : x.copiesOf (k + 1) =
    x.copiesOf k ++ [(x.received k % x.kind.chunkSize.toNat, (x.packet k).length)] := by
  rw [copiesOf, List.range_succ, List.map_append]
  rfl

theorem mem_copiesOf {copy : ℕ × ℕ} : copy ∈ x.copiesOf k ↔
    ∃ i < k, (x.received i % x.kind.chunkSize.toNat, (x.packet i).length) = copy := by
  simp only [copiesOf, List.mem_map, List.mem_range]

/-! ## The stream as a handler -/

/-- The record of the transfer before the `k`-th packet. -/
def record (x : OverrunCase ε τ) (k : ℕ) : UsbStreamTransfer where
  offset := BitVec.ofNat 32 (x.received k)
  transferLength := x.length
  chunkSize := x.kind.chunkSize

/-- Before the `k`-th packet. -/
structure Idle (x : OverrunCase ε τ) (k : ℕ) (K : CopyLog) : Prop where
  record : K.transfer = x.record k
  copies : K.copies = x.copiesOf k

/-- While the `k`-th packet is not done. -/
structure Busy (x : OverrunCase ε τ) (k : ℕ) (K : CopyLog) : Prop where
  record : K.transfer = x.record k
  copies : K.copies = x.copiesOf (k + 1)

/-- What the stream does with a packet, with the copy noted. -/
def handler (x : OverrunCase ε τ) : UsbHandler CopyLog where
  receive K packet := (x.stream.handler false).receive (note packet K) packet
  finish := (x.stream.handler false).finish

/-- What the handler does with a packet : it goes to the range that is noted, and nothing else is
changed but that the chunk buffer is zeroed for a new chunk. -/
theorem receive_writes (K : CopyLog) (packet : List Byte) :
    ∃ offset, (x.handler.receive K packet).1.copies = K.copies ++ [(offset, packet.length)] ∧
      (∀ i (hi : i < packet.length),
        (x.handler.receive K packet).1.chunkBuffer (offset + i) = packet[i]) ∧
      ∀ i, i < offset ∨ offset + packet.length ≤ i →
        (x.handler.receive K packet).1.chunkBuffer i =
          if offset = 0 ∧ i < K.transfer.chunkSize.toNat then 0 else K.chunkBuffer i := by
  have hreceive : (x.handler.receive K packet).1 = x.stream.store packet (note packet K) := by
    unfold handler UsbStream.handler UsbStream.callOnChunk
    dsimp only
    split <;> rfl
  have hzero : K.transfer.chunkOffset.toNat = 0 ↔ K.transfer.chunkOffset = 0 := by
    rw [← BitVec.toNat_inj]
    rfl
  rw [hreceive]
  refine ⟨K.transfer.chunkOffset.toNat, rfl, fun i hi => K.transfer.storePacket_copied _ _ hi,
    fun i hi => ?_⟩
  simp only [hzero]
  exact K.transfer.storePacket_kept packet K.chunkBuffer hi

theorem receive (hk : k < x.packetCount) {K : CopyLog} (hK : x.Idle k K) :
    x.Busy k (x.handler.receive K (x.packet k)).1 := by
  have hoffset : K.transfer.chunkOffset.toNat = x.received k % x.kind.chunkSize.toNat := by
    rw [hK.record]
    refine (x.kind.and_chunkSize _).trans ?_
    rw [record, BitVec.toNat_ofNat, Nat.mod_eq_of_lt (x.received_lt (Nat.le_of_lt hk))]
  have hnoted : x.Busy k (x.stream.store (x.packet k) (note (x.packet k) K)) := by
    refine ⟨hK.record, ?_⟩
    change K.copies ++ [_] = _
    rw [hK.copies, hoffset, copiesOf_succ]
  unfold handler UsbStream.handler UsbStream.callOnChunk
  dsimp only
  split
  · exact hnoted
  · exact hnoted

theorem finish {K : CopyLog} (hK : x.Busy k K) :
    x.Idle (k + 1) (x.handler.finish K (x.packet k)).1 where
  record := by
    change K.transfer.advance _ = _
    rw [hK.record, UsbStreamTransfer.advance, record, record, received, BitVec.ofNat_add]
  copies := hK.copies

theorem serves : x.handler.Serves false x.packetCount x.packet x.Idle x.Busy x.Busy where
  length_le k _ := x.packet_le k
  receive _ hk _ hK _ := receive hk hK
  atOnce _ hk _ hK _ := receive hk hK
  finish _ _ _ hK := finish hK
  sends h := by cases h

/-- From the `m`-th packet on. -/
theorem serves_from (m : ℕ) : x.handler.Serves false x.packetCount x.packet
    (fun k K => m ≤ k ∧ x.Idle k K) (fun k K => m ≤ k ∧ x.Busy k K)
    (fun k K => m ≤ k ∧ x.Busy k K) where
  length_le k _ := x.packet_le k
  receive _ hk _ hK _ := ⟨hK.1, receive hk hK.2⟩
  atOnce _ hk _ hK _ := ⟨hK.1, receive hk hK.2⟩
  finish _ _ _ hK := ⟨Nat.le_succ_of_le hK.1, finish hK.2⟩
  sends h := by cases h

/-! ## The line of the stream -/

/-- What does not change while the stream runs. -/
def setup (x : OverrunCase ε τ) (s₀ : UsbState ε τ CopyFunction CopyLog) :
    LineSetup τ CopyFunction where
  transfer := x.transfer
  isIn := false
  defaultTransfer := (s₀.endpoint x.endpoint).defaultTransfer
  onStallChange := (s₀.endpoint x.endpoint).onStallChange
  count := x.packetCount
  first := (s₀.endpoint x.endpoint).currentGiveBuffer
  onPacket := .onPacket
  onComplete := some .onComplete
  chain := none

theorem handles (s₀ : UsbState ε τ CopyFunction CopyLog) (idle : ℕ → CopyLog → Prop) :
    x.handler.Handles x.driver x.endpoint (x.setup s₀) idle := by
  intro c s _ hin _
  have hin' : (s.endpoint x.endpoint).isIn = false := hin
  have hfetch : ((usbCurrentPacketBuffer x.endpoint s).endpoint x.endpoint).isIn = false := by
    rw [← hin']
    simp only [usbCurrentPacketBuffer, UsbState.modifyEndpoint_endpoint_self,
      UsbEndpoint.fetchBuffer]
    split <;> rfl
  have hpacket : ((usbCurrentPacketBuffer x.endpoint s).endpoint x.endpoint).packet =
      ((usbCurrentPacketBuffer x.endpoint s).endpoint x.endpoint).bufferData := by
    rw [UsbEndpoint.packet, hfetch, if_neg Bool.false_ne_true]
  have hnoted : usbCurrentPacketBuffer x.endpoint (noteCopy x.endpoint s) =
      (usbCurrentPacketBuffer x.endpoint s).modifyClient
        (note ((usbCurrentPacketBuffer x.endpoint s).endpoint x.endpoint).packet) := by
    rw [hpacket]
    rfl
  change x.stream.packetHandler c x.endpoint (noteCopy x.endpoint s) = _
  rw [UsbStream.packetHandler_eq _ c x.endpoint (noteCopy x.endpoint s) hin]
  unfold UsbHandler.onPacket
  have hin'' : ((noteCopy x.endpoint s).endpoint x.endpoint).isIn = false := hin'
  rw [hin', hin'', if_neg Bool.false_ne_true, if_neg Bool.false_ne_true, hnoted]
  rfl

theorem chunkDone_eq {c : UsbCalls ε τ CopyFunction CopyLog}
    {s : UsbState ε τ CopyFunction CopyLog} (hin : (s.endpoint x.endpoint).isIn = false) :
    x.stream.chunkDone c x.endpoint s = x.handler.packetDone c x.endpoint s := by
  rw [UsbStream.chunkDone, UsbStream.packetHandlerComplete_eq _ _ _ _ (i := false) hin]
  rfl

/-- The endpoint, the transfer and the log after `usb_start_transfer` has set them. -/
def startEndpoint (x : OverrunCase ε τ) (s₀ : UsbState ε τ CopyFunction CopyLog) :
    UsbEndpoint τ CopyFunction :=
  ((s₀.endpoint x.endpoint).setTransfer (some x.transfer)).setChain none

@[inherit_doc startEndpoint]
def startTransfer (x : OverrunCase ε τ) : UsbTransfer CopyFunction :=
  ((UsbTransfer.reset ⟨.driver .onPacket, 0⟩ (some .onComplete)).grow ((x.length + 63) / 64)).start

@[inherit_doc startEndpoint]
def startLog (x : OverrunCase ε τ) (s₀ : UsbState ε τ CopyFunction CopyLog) : CopyLog :=
  { s₀.client with transfer := x.record 0 }

theorem start_eq (c : UsbCalls ε τ CopyFunction CopyLog) :
    x.start c s₀ = usbGiveAsManyBuffersAsPossible c x.endpoint (s₀.place x.endpoint x.transfer
      (x.startEndpoint s₀) x.startTransfer (x.startLog s₀)) := by
  have hplace : x.stream.setupTransfer x.transfer .onPacket x.kind.chunkSize x.length
      (some .onComplete) s₀ = s₀.place x.endpoint x.transfer (s₀.endpoint x.endpoint)
        ((UsbTransfer.reset ⟨.driver .onPacket, 0⟩ (some .onComplete)).grow ((x.length + 63) / 64))
        (x.startLog s₀) := by
    simp [UsbStream.setupTransfer, UsbState.place, UsbState.modifyTransfer, UsbState.modifyClient,
      stream, startLog, record, received]
  rw [start, usbStartTransfer, hplace, UsbState.place_modifyEndpoint,
    UsbState.place_modifyTransfer]
  rfl

theorem Ready.line (hr : x.Ready s₀) :
    UsbLine (x.setup s₀) (x.startEndpoint s₀) x.startTransfer 0 0 0 where
  current := rfl
  isIn := hr.isIn
  defaultTransfer := rfl
  onStallChange := rfl
  doubleBuffered := hr.doubleBuffered
  notHalted := hr.notHalted
  chain := rfl
  onPacket := rfl
  onComplete := rfl
  notCompleted := rfl
  submit := by simp [startTransfer, setup, packetCount]
  handle := by simp [startTransfer, setup, packetCount]
  owned := by simp [startEndpoint, hr.owned]
  available := by simp [startEndpoint, hr.available]
  give := by simp [setup, startEndpoint]
  returned_le := Nat.le_refl 0

theorem Ready.idle (hr : x.Ready s₀) : x.Idle 0 (x.startLog s₀) where
  record := rfl
  copies := hr.log

/-! ## Runs -/

/-- The stream runs after `k` packets, or has ended after all of them. -/
inductive Reached (x : OverrunCase ε τ) (s₀ : UsbState ε τ CopyFunction CopyLog) :
    ℕ → UsbResult (UsbState ε τ CopyFunction CopyLog) → Prop
  | serving {k : ℕ} {E : UsbEndpoint τ CopyFunction} {T : UsbTransfer CopyFunction} {K : CopyLog}
      (h : OutServing (x.setup s₀) x.packet x.Idle x.Busy k E T K) :
      Reached x s₀ k (.ok (s₀.place x.endpoint x.transfer E T K))
  | ended {s : UsbState ε τ CopyFunction CopyLog} (hcount : 0 < x.packetCount)
      (hcurrent : (s.endpoint x.endpoint).currentTransfer = none)
      (hK : x.Idle x.packetCount s.client) : Reached x s₀ x.packetCount (.ok s)
  | empty {s : UsbState ε τ CopyFunction CopyLog} (hcount : x.packetCount = 0)
      (havail : (s.endpoint x.endpoint).hw.available = [])
      (houtstanding : (s.transfer x.transfer).outstandingPacket = false)
      (hK : x.Idle 0 s.client) : Reached x s₀ 0 (.ok s)

theorem reached_of_after {r : UsbResult (UsbState ε τ CopyFunction CopyLog)} {depth : ℕ}
    (hdepth : 1 ≤ depth) (hcount : 0 < x.packetCount)
    (h : OutAfter (x.calls depth) (x.setup s₀) x.packet x.Idle x.Busy s₀ x.endpoint k r) :
    x.Reached s₀ k r := by
  rcases h with ⟨E, T, K, rfl, hserve⟩ | ⟨rfl, E, T, K, -, -, -, hK, rfl⟩
  · exact .serving hserve
  · obtain ⟨depth, rfl⟩ : ∃ d, depth = d + 1 := ⟨depth - 1, by omega⟩
    exact .ended hcount (by simp) hK

/-- The transfer starts, if it has a packet. -/
theorem serving_start (x : OverrunCase ε τ) (hr : x.Ready s₀) (hcount : 0 < x.packetCount)
    (hdepth : 2 ≤ depth) :
    ∃ E T, x.start (x.calls depth) s₀ =
        .ok (s₀.place x.endpoint x.transfer E T (x.startLog s₀)) ∧
      OutServing (x.setup s₀) x.packet x.Idle x.Busy 0 E T (x.startLog s₀) := by
  rw [start_eq]
  exact OutServing.start rfl hr.line rfl rfl hcount hr.idle x.driver hdepth

/-- Every run keeps to these states. -/
theorem run (hr : x.Ready s₀) (hdepth : 3 ≤ depth)
    {r : UsbResult (UsbState ε τ CopyFunction CopyLog)} (hrun : x.Run depth s₀ k r) :
    x.Reached s₀ k r := by
  have hhandles := x.handles s₀ x.Idle
  induction hrun with
  | start =>
    by_cases hcount : x.packetCount = 0
    · rw [start_eq]
      obtain ⟨E, T, hE, hline, -, -, -, ho, -⟩ := hr.line.giveAll x.driver rfl (m := 0)
        (by simp [setup, hcount]) (Nat.zero_le depth) (s := s₀) (e := x.endpoint)
        (K := x.startLog s₀)
      have havail : E.hw.available = [] := by simpa using hline.available
      have hnone : T.outstandingPacket = false := ho
      exact hE ▸ .empty hcount (by simpa using havail) (by simpa [setup] using hnone) hr.idle
    · obtain ⟨E, T, hE, hserve⟩ := x.serving_start hr (Nat.pos_of_ne_zero hcount)
        (by omega : 2 ≤ depth)
      exact hE ▸ .serving hserve
  | @buffer k s _ hcurrent havail ih =>
    cases ih with
    | serving hserve =>
      rw [UsbState.place_endpoint] at havail
      have hcount : 0 < x.packetCount := by
        cases hserve with
        | free hf hk => exact Nat.zero_lt_of_lt hk
        | busy hb hk => exact Nat.zero_lt_of_lt hk
        | queued hq hk => exact Nat.zero_lt_of_lt hk
      exact reached_of_after (show 1 ≤ depth by omega) hcount
        (hserve.buffer hhandles serves rfl havail hdepth)
    | ended hcount hnone hK =>
      rw [hnone] at hcurrent
      cases hcurrent
    | empty hcount hnone ho hK => exact absurd hnone havail
  | @chunkDone k s _ hcurrent houtstanding ih =>
    cases ih with
    | @serving _ E T K hserve =>
      have hplace : (s₀.place x.endpoint (x.setup s₀).transfer E T K).transfer x.transfer = T :=
        UsbState.place_transfer _ _ _ _ _ _
      rw [setup] at hplace
      rw [hplace] at houtstanding
      have hline : E.isIn = false ∧ 0 < x.packetCount := by
        cases hserve with
        | free hf hk => exact ⟨hf.line.isIn, Nat.zero_lt_of_lt hk⟩
        | busy hb hk => exact ⟨hb.line.choose_spec.2.isIn, Nat.zero_lt_of_lt hk⟩
        | queued hq hk => exact ⟨hq.line.isIn, Nat.zero_lt_of_lt hk⟩
      have hdone := hserve.done hhandles serves rfl houtstanding (fun _ hK => hK) hdepth
        (s := s₀) ?_
      · refine reached_of_after (show 1 ≤ depth by omega) hline.2 ?_
        rw [UsbStream.chunkDone, UsbStream.packetHandlerComplete_eq _ _ _ _ (i := false)
          (by simpa using hline.1)]
        exact hdone
      · intro E T K s _ hs
        obtain ⟨depth, rfl⟩ : ∃ d, depth = d + 1 := ⟨depth - 1, by omega⟩
        obtain rfl := Except.ok.inj hs
        simp [setup]
    | ended hcount hnone hK =>
      rw [hnone] at hcurrent
      cases hcurrent
    | empty hcount hnone ho hK =>
      rw [ho] at houtstanding
      cases houtstanding

/-- The copies of a state that is reached are those of the first packets. -/
theorem Reached.copies {s : UsbState ε τ CopyFunction CopyLog} (h : x.Reached s₀ k (.ok s)) :
    ∃ m ≤ x.packetCount, s.client.copies = x.copiesOf m := by
  cases h with
  | serving hserve =>
    rw [UsbState.place_client]
    cases hserve with
    | free hf hk hK => exact ⟨_, Nat.le_of_lt hk, hK.copies⟩
    | busy hb hk hK => exact ⟨_, hk, hK.copies⟩
    | queued hq hk hK => exact ⟨_, Nat.le_of_succ_le hk, hK.copies⟩
  | ended hcount hcurrent hK => exact ⟨_, Nat.le_refl _, hK.copies⟩
  | empty hcount havail ho hK => exact ⟨0, Nat.zero_le _, hK.copies⟩

/-- The stream goes on with the next packet : it copies the packet, and after
`usb_stream_chunk_done` nothing is outstanding. -/
theorem run_next (hdepth : 3 ≤ depth) (hk : k < x.packetCount) {E : UsbEndpoint τ CopyFunction}
    {T : UsbTransfer CopyFunction} {K : CopyLog} (hf : OutFree (x.setup s₀) E T k 0)
    (hK : x.Idle k K) (hrun : x.Run depth s₀ k (.ok (s₀.place x.endpoint x.transfer E T K))) :
    (∃ s, x.Run depth s₀ (k + 1) (.ok s) ∧ s.client.copies = x.copiesOf (k + 1)) ∧
      (k + 1 < x.packetCount → ∃ E' T' K',
        x.Run depth s₀ (k + 1) (.ok (s₀.place x.endpoint x.transfer E' T' K')) ∧
        OutFree (x.setup s₀) E' T' (k + 1) 0 ∧ x.Idle (k + 1) K') := by
  have hcurrent : E.currentTransfer = some x.transfer := hf.line.current
  have havail : E.hw.available ≠ [] := by
    intro hnil
    have hlength := congrArg List.length hf.line.available
    have hcount : (x.setup s₀).count = x.packetCount := rfl
    rw [hnil, hcount] at hlength
    simp at hlength
    omega
  have hstep : x.Run depth s₀ (k + 1) (usbBufferInterrupt (usbCalls x.driver depth) x.endpoint
      (x.packet k) (s₀.place x.endpoint (x.setup s₀).transfer E T K)) :=
    .buffer hrun (by simpa using hcurrent) (by simpa using havail)
  have hserve : OutServing (x.setup s₀) x.packet (fun i K => k ≤ i ∧ x.Idle i K)
      (fun i K => k ≤ i ∧ x.Busy i K) k E T K := .free hf hk ⟨Nat.le_refl k, hK⟩
  have hafter := hserve.buffer (x.handles s₀ _) (serves_from k) rfl havail hdepth (s := s₀)
  generalize usbBufferInterrupt (usbCalls x.driver depth) x.endpoint (x.packet k)
    (s₀.place x.endpoint (x.setup s₀).transfer E T K) = r at hstep hafter
  rcases hafter with ⟨E', T', K', rfl, hserve⟩ | ⟨hlast, E', T', K', -, -, -, hK', rfl⟩
  · generalize hi : k + 1 = i at hserve
    cases hserve with
    | free hf' hk' hK' =>
      subst hi
      exact ⟨⟨_, hstep, hK'.2.copies⟩, fun _ => ⟨E', T', K', hstep, hf', hK'.2⟩⟩
    | @busy i _ _ _ hb hk' hK' =>
      obtain rfl : k = i := by omega
      refine ⟨⟨_, hstep, hK'.2.copies⟩, fun hmore => ?_⟩
      have hcurrent' : E'.currentTransfer = some x.transfer := hb.line.choose_spec.2.current
      have hout : E'.isIn = false := hb.line.choose_spec.2.isIn
      obtain ⟨E₁, T₁, K₁, hdone, hfree, hidle⟩ := hb.done serves rfl hK'.2 hk hmore x.driver
        (show 2 ≤ depth by omega) (s := s₀) (e := x.endpoint)
      refine ⟨E₁, T₁, K₁, ?_, hfree, hidle⟩
      have hchunk := Run.chunkDone hstep (by simpa using hcurrent')
        (by simpa [setup] using hb.outstanding)
      rwa [chunkDone_eq (by simpa using hout), calls, hdone] at hchunk
    | queued hq hk' hK' =>
      have := hK'.1
      omega
  · obtain ⟨depth, rfl⟩ : ∃ d, depth = d + 1 := ⟨depth - 1, by omega⟩
    refine ⟨⟨_, hstep, ?_⟩, fun hmore => absurd hlast (Nat.ne_of_lt hmore)⟩
    exact hK'.2.copies

/-- A run that has nothing outstanding after `k` packets. -/
theorem exists_free (hr : x.Ready s₀) (hdepth : 3 ≤ depth) (hk : k < x.packetCount) :
    ∃ E T K, x.Run depth s₀ k (.ok (s₀.place x.endpoint x.transfer E T K)) ∧
      OutFree (x.setup s₀) E T k 0 ∧ x.Idle k K := by
  induction k with
  | zero =>
    obtain ⟨E, T, hstart, hserve⟩ := x.serving_start hr hk (show 2 ≤ depth by omega)
    cases hserve with
    | free hf hk hK => exact ⟨E, T, _, hstart ▸ .start, hf, hK⟩
  | succ k ih =>
    obtain ⟨E, T, K, hrun, hf, hK⟩ := ih (Nat.lt_of_succ_lt hk)
    exact (run_next hdepth (Nat.lt_of_succ_lt hk) hf hK hrun).2 hk

/-- Each packet is copied in some run. -/
theorem exists_copied (hr : x.Ready s₀) (hdepth : 3 ≤ depth) (hk : k < x.packetCount) :
    ∃ s, x.Run depth s₀ (k + 1) (.ok s) ∧ s.client.copies = x.copiesOf (k + 1) := by
  obtain ⟨E, T, K, hrun, hf, hK⟩ := exists_free hr hdepth hk
  exact (run_next hdepth hk hf hK hrun).1

theorem copiesInside_iff {s : UsbState ε τ CopyFunction CopyLog}
    (hs : s.client.copies = x.copiesOf k) :
    x.CopiesInside s ↔ ∀ i < k, x.received i % x.kind.chunkSize.toNat + (x.packet i).length ≤
      x.kind.chunkSize.toNat := by
  unfold CopiesInside
  rw [hs]
  constructor
  · intro h i hi
    exact h _ (mem_copiesOf.2 ⟨i, hi, rfl⟩)
  · rintro h copy hmem
    obtain ⟨i, hi, rfl⟩ := mem_copiesOf.1 hmem
    exact h i hi

/-- All copies of all runs of an OUT stream are inside the chunk buffer, if and only if no packet
crosses the end of a chunk. -/
theorem copies_inside_iff (hr : x.Ready s₀) (hdepth : 3 ≤ depth) :
    (∀ k r, x.Run depth s₀ k r → ∃ s, r = .ok s ∧ x.CopiesInside s) ↔ x.NoneCrosses := by
  rw [noneCrosses_iff]
  constructor
  · intro h k hk
    obtain ⟨s, hrun, hs⟩ := exists_copied hr hdepth hk
    obtain ⟨_, hs', hinside⟩ := h _ _ hrun
    obtain rfl := Except.ok.inj hs'
    exact (copiesInside_iff hs).1 hinside k (Nat.lt_succ_self k)
  · intro h k r hrun
    have hreached := run hr hdepth hrun
    obtain ⟨s, rfl⟩ : ∃ s, r = .ok s := by
      cases hreached with
      | serving hserve => exact ⟨_, rfl⟩
      | ended hcount hcurrent hK => exact ⟨_, rfl⟩
      | empty hcount havail ho hK => exact ⟨_, rfl⟩
    obtain ⟨m, hm, hs⟩ := hreached.copies
    exact ⟨s, rfl, (copiesInside_iff hs).2 fun i hi => h i (by omega)⟩

end OverrunCase

end Runs

/-! ## Two sectors of the virtual disk -/

/-- Two sectors, with packets of the given lengths. -/
def twoSectors (len : ℕ → ℕ) (hlen : ∀ k, len k ≤ 64) : OverrunCase Unit Unit where
  endpoint := ()
  transfer := ()
  kind := .sector
  length := 1024
  packet k := List.replicate (len k) 0
  packet_le k := by rw [List.length_replicate]; exact hlen k
  later _ := true

/-- An OUT endpoint that owns both buffers. -/
def streamOutReady : UsbState Unit Unit CopyFunction CopyLog where
  endpoint _ :=
    { isIn := false, doubleBuffered := true, bufferSize := 64, defaultTransfer := none
      currentTransfer := none, chainTransfer := none, onStallChange := none
      currentHwBuffer := ⟨false, 0, false⟩, nextPid := false, ownedBufferCount := 2
      currentGiveBuffer := false, currentTakeBuffer := false, haltState := .none
      firstBufferAfterReset := true, hw := ⟨fun _ => [], [], []⟩ }
  transfer _ := .reset ⟨.driver .onPacket, 0⟩ none
  currentConfigNum := 1
  client := { transfer := ⟨0, 0, 0⟩, chunkBuffer := fun _ => 0 }

variable {len : ℕ → ℕ} {hlen : ∀ k, len k ≤ 64}

theorem twoSectors_ready : (twoSectors len hlen).Ready streamOutReady where
  isIn := rfl
  doubleBuffered := rfl
  notHalted := rfl
  owned := rfl
  available := rfl
  log := rfl

theorem twoSectors_received_succ (k : ℕ) : (twoSectors len hlen).received (k + 1) =
    (twoSectors len hlen).received k + len k := by
  rw [OverrunCase.received]
  exact congrArg _ List.length_replicate

/-- Packets of 64 bytes. -/
def wholePackets : OverrunCase Unit Unit := twoSectors (fun _ => 64) fun _ => Nat.le_refl 64

theorem wholePackets_noneCrosses : wholePackets.NoneCrosses := by
  have hreceived (k : ℕ) : wholePackets.received k = 64 * k := by
    induction k with
    | zero => rfl
    | succ k ih =>
      have hsucc : wholePackets.received (k + 1) = wholePackets.received k + 64 :=
        twoSectors_received_succ k
      omega
  rintro k - m ⟨hlow, hhigh⟩
  have hsize : wholePackets.kind.chunkSize.toNat = 512 := rfl
  rw [hsize, hreceived] at hlow hhigh
  omega

/-- `copies_inside_iff`, for packets of 64 bytes. -/
theorem copies_inside_iff_whole :
    wholePackets.Ready streamOutReady ∧
      ∀ k r, wholePackets.Run 3 streamOutReady k r →
        ∃ s, r = .ok s ∧ wholePackets.CopiesInside s :=
  ⟨twoSectors_ready,
    (OverrunCase.copies_inside_iff twoSectors_ready (Nat.le_refl 3)).2 wholePackets_noneCrosses⟩

/-- The first packet has 63 bytes, and all others have 64. -/
def shortFirst : OverrunCase Unit Unit :=
  twoSectors (fun k => if k = 0 then 63 else 64) fun k => by split <;> omega

/-- After a packet of 63 bytes, the ninth packet is copied to the last byte of the buffer and
63 bytes behind it. -/
theorem short_packet_overruns :
    shortFirst.Ready streamOutReady ∧
      ∃ s, shortFirst.Run 3 streamOutReady 9 (.ok s) ∧ (511, 64) ∈ s.client.copies ∧
        ¬shortFirst.CopiesInside s := by
  obtain ⟨s, hrun, hs⟩ : ∃ s, shortFirst.Run 3 streamOutReady 9 (.ok s) ∧
      s.client.copies = shortFirst.copiesOf 9 :=
    OverrunCase.exists_copied twoSectors_ready (Nat.le_refl 3) (by decide)
  have hmem : (511, 64) ∈ s.client.copies := by
    rw [hs]
    exact OverrunCase.mem_copiesOf.2 ⟨8, Nat.lt_succ_self 8, by decide⟩
  refine ⟨twoSectors_ready, s, hrun, hmem, fun hinside => ?_⟩
  have hle : 511 + 64 ≤ 512 := hinside _ hmem
  omega

end PicoBootrom
