import PicoBootrom.UsbInLine
import PicoBootrom.UsbOutLine
import PicoBootrom.UsbStream

/-!
# Runs of a stream

A stream on a double-buffered endpoint, from `usb_start_transfer` to its end, with the buffers of
the hardware and the calls of `usb_stream_chunk_done` in any order. The calls of `on_chunk` are
logged, with the chunk buffer of an OUT endpoint, and `later` says for each call whether the chunk
is processed later. The bytes are those of the host, or those of the chunks that the user of the
stream makes, one after the other.

`StreamOk` is what should hold after every step. It does for OUT endpoints. It does for IN endpoints
if the second packet is done at once whenever the first one is (`Prompt`) ; the second packet starts
a chunk only if the chunks have the size of a packet.
-/

set_option linter.unusedSectionVars false

namespace PicoBootrom

/-! ## The log -/

/-- The stream, and the calls of `on_chunk` with the chunk buffer of an OUT endpoint. -/
structure StreamLog where
  transfer : UsbStreamTransfer
  chunkBuffer : ℕ → Byte
  calls : List (Word × List Byte) := []

/-- The functions of the transfer. -/
inductive StreamFunction
  | onPacket
  | onComplete
  deriving DecidableEq

section Runs

variable {ε τ : Type} [DecidableEq ε] [DecidableEq τ]

/-- A stream on an endpoint, the bytes of the host or of the chunks, and which chunks are processed
later. -/
structure StreamCase (ε τ : Type) where
  endpoint : ε
  transfer : τ
  isIn : Bool
  shape : StreamShape
  bytes : ℕ → Byte
  later : ℕ → Bool

namespace StreamCase

variable (x : StreamCase ε τ)

/-- The `i`-th chunk that the user of the stream makes. -/
def contents (i j : ℕ) : Byte := x.bytes (x.shape.chunkSize.toNat * i + j)

/-- `on_chunk` logs the call. The chunk of an IN endpoint that is not processed later is made at
once. -/
def onChunk (len : Word) (K : StreamLog) : StreamLog × Bool :=
  let n := K.calls.length
  let K' := { K with calls := K.calls ++
    [(len, if x.isIn then [] else (List.range x.shape.chunkSize.toNat).map K.chunkBuffer)] }
  (if x.isIn && !x.later n then { K' with chunkBuffer := x.contents n } else K', x.later n)

/-- The stream. -/
def stream : UsbStream StreamLog where
  transfer K := K.transfer
  setTransfer S K := { K with transfer := S }
  chunkBuffer K := K.chunkBuffer
  setChunkBuffer buffer K := { K with chunkBuffer := buffer }
  onChunk := x.onChunk
  onPacketComplete K := K

/-- What is done for a chunk that is processed later, before `usb_stream_chunk_done` : the chunk of
an IN endpoint is made. -/
def process (K : StreamLog) : StreamLog :=
  if x.isIn then { K with chunkBuffer := x.contents (K.calls.length - 1) } else K

/-- The functions of the driver. -/
def driver : UsbDriver ε τ StreamFunction StreamLog
  | c, .onPacket, e, s => x.stream.packetHandler c e s
  | _, .onComplete, _, s => .ok s

/-- The functions that the library calls. -/
def calls (depth : ℕ) : UsbCalls ε τ StreamFunction StreamLog :=
  usbCalls x.driver depth

/-- The state before `usb_stream_setup_transfer` : the endpoint owns both buffers. -/
structure Ready (s : UsbState ε τ StreamFunction StreamLog) : Prop where
  isIn : (s.endpoint x.endpoint).isIn = x.isIn
  doubleBuffered : (s.endpoint x.endpoint).doubleBuffered = true
  notHalted : (s.endpoint x.endpoint).haltState = .none
  owned : (s.endpoint x.endpoint).ownedBufferCount = 2
  available : (s.endpoint x.endpoint).hw.available = []
  buffer : x.isIn = true → (s.endpoint x.endpoint).currentHwBuffer.valid = true →
    (s.endpoint x.endpoint).currentHwBuffer.which = (s.endpoint x.endpoint).currentGiveBuffer
  log : s.client.calls = []

/-- `usb_stream_setup_transfer` and `usb_start_transfer`. -/
def start (c : UsbCalls ε τ StreamFunction StreamLog)
    (s : UsbState ε τ StreamFunction StreamLog) :
    UsbResult (UsbState ε τ StreamFunction StreamLog) :=
  usbStartTransfer c x.endpoint x.transfer
    (x.stream.setupTransfer x.transfer .onPacket x.shape.chunkSize x.shape.length
      (some .onComplete) s)

/-- The runs of the stream, with the number of buffers that the hardware has returned. -/
inductive Run (depth : ℕ) (s₀ : UsbState ε τ StreamFunction StreamLog) :
    ℕ → UsbResult (UsbState ε τ StreamFunction StreamLog) → Prop
  | start : Run depth s₀ 0 (x.start (x.calls depth) s₀)
  /-- The hardware is done with the first buffer it has. -/
  | buffer {k : ℕ} {s : UsbState ε τ StreamFunction StreamLog} (h : Run depth s₀ k (.ok s))
      (hcurrent : (s.endpoint x.endpoint).currentTransfer = some x.transfer)
      (havail : (s.endpoint x.endpoint).hw.available ≠ []) :
      Run depth s₀ (k + 1)
        (usbBufferInterrupt (x.calls depth) x.endpoint (x.shape.packet x.bytes k) s)
  /-- A chunk that is processed later is done. -/
  | chunkDone {k : ℕ} {s : UsbState ε τ StreamFunction StreamLog} (h : Run depth s₀ k (.ok s))
      (hcurrent : (s.endpoint x.endpoint).currentTransfer = some x.transfer)
      (houtstanding : (s.transfer x.transfer).outstandingPacket = true) :
      Run depth s₀ k (x.stream.chunkDone (x.calls depth) x.endpoint (s.modifyClient x.process))

/-- The calls of `on_chunk` for the first `m` chunks : the lengths, and for an OUT endpoint the
slices of the bytes followed by zeros. -/
def expected (m : ℕ) : List (Word × List Byte) :=
  (List.range m).map fun i =>
    (BitVec.ofNat 32 (x.shape.chunkLength i), if x.isIn then [] else x.shape.slice x.bytes i)

/-- The number of chunks that start before the `m`-th packet of an IN endpoint. -/
def chunksBegun (m : ℕ) : ℕ := (m + x.shape.perChunk - 1) / x.shape.perChunk

/-- The number of chunks that end before the `m`-th packet of an OUT endpoint. -/
def chunksEnded (m : ℕ) : ℕ :=
  if m = x.shape.packetCount then x.shape.chunkCount else m / x.shape.perChunk

/-- The packets that were given to the hardware since the start. -/
def sent (s₀ s : UsbState ε τ StreamFunction StreamLog) : List (List Byte) :=
  ((s.endpoint x.endpoint).hw.given.drop (s₀.endpoint x.endpoint).hw.given.length).map (·.packet)

/-- The number of packets that `on_packet` was called for, after `k` buffers. -/
def asked (k : ℕ) (s : UsbState ε τ StreamFunction StreamLog) : ℕ :=
  if x.isIn then k + (s.endpoint x.endpoint).hw.available.length +
    if (s.transfer x.transfer).outstandingPacket then 1 else 0
  else k - if (s.transfer x.transfer).packetQueued then 1 else 0

/-- While the stream runs, `on_chunk` was called for the chunks that the packets so far begin or
end, and the hardware got the packets of an IN endpoint in order. -/
structure Streaming (s₀ : UsbState ε τ StreamFunction StreamLog) (k : ℕ)
    (s : UsbState ε τ StreamFunction StreamLog) : Prop where
  current : (s.endpoint x.endpoint).currentTransfer = some x.transfer
  calls : s.client.calls =
    x.expected (if x.isIn then x.chunksBegun (x.asked k s) else x.chunksEnded (x.asked k s))
  sent : x.isIn = true → ∃ m, k ≤ m ∧ m ≤ x.shape.packetCount ∧
    x.sent s₀ s = (List.range m).map (x.shape.packet x.bytes)
  unfinished : k < x.shape.packetCount ∨ (s.transfer x.transfer).outstandingPacket = true

/-- At the end, `on_chunk` was called for all chunks, and the packets of an IN endpoint are the
bytes one after the other. -/
structure Streamed (s₀ : UsbState ε τ StreamFunction StreamLog) (k : ℕ)
    (s : UsbState ε τ StreamFunction StreamLog) : Prop where
  all : k = x.shape.packetCount
  current : (s.endpoint x.endpoint).currentTransfer = none
  completed : (s.transfer x.transfer).completed = true
  calls : s.client.calls = x.expected x.shape.chunkCount
  sent : x.isIn = true → (x.sent s₀ s).length = x.shape.packetCount ∧
    (x.sent s₀ s).flatten = (List.range x.shape.length.toNat).map x.bytes

/-- What should hold after every step. -/
def StreamOk (s₀ : UsbState ε τ StreamFunction StreamLog) (k : ℕ)
    (s : UsbState ε τ StreamFunction StreamLog) : Prop :=
  x.Streaming s₀ k s ∨ x.Streamed s₀ k s

/-! ## The chunks -/

variable {x} {depth : ℕ} {s₀ : UsbState ε τ StreamFunction StreamLog} {k : ℕ}

theorem expected_succ (m : ℕ) : x.expected (m + 1) = x.expected m ++
    [(BitVec.ofNat 32 (x.shape.chunkLength m),
      if x.isIn then [] else x.shape.slice x.bytes m)] := by
  simp [expected, List.range_succ]

theorem expected_length (m : ℕ) : (x.expected m).length = m := by
  simp [expected]

theorem chunksEnded_of_lt (hk : k < x.shape.packetCount) :
    x.chunksEnded k = k / x.shape.perChunk :=
  if_neg (Nat.ne_of_lt hk)

theorem chunksEnded_succ (x : StreamCase ε τ) (k : ℕ) : x.chunksEnded (k + 1) =
    if k + 1 = x.shape.packetCount ∨ (k + 1) % x.shape.perChunk = 0 then
      k / x.shape.perChunk + 1
    else k / x.shape.perChunk := by
  by_cases hlast : k + 1 = x.shape.packetCount
  · rw [chunksEnded, if_pos hlast, if_pos (.inl hlast), StreamShape.chunkCount_eq hlast]
  · rw [chunksEnded, if_neg hlast]
    by_cases hend : (k + 1) % x.shape.perChunk = 0
    · rw [if_pos (.inr hend), Nat.succ_div_of_dvd (Nat.dvd_of_mod_eq_zero hend)]
    · rw [if_neg (by tauto), (succ_div_mod_of_ne x.shape.perChunk_pos hend).1]

theorem chunksBegun_succ (x : StreamCase ε τ) (k : ℕ) :
    x.chunksBegun (k + 1) = k / x.shape.perChunk + 1 := by
  have hpos := x.shape.perChunk_pos
  rw [chunksBegun, show k + 1 + x.shape.perChunk - 1 = k + x.shape.perChunk by omega,
    Nat.add_div_right _ hpos]

theorem chunksBegun_eq (x : StreamCase ε τ) (k : ℕ) : x.chunksBegun k =
    if k % x.shape.perChunk = 0 then k / x.shape.perChunk else k / x.shape.perChunk + 1 := by
  have hpos := x.shape.perChunk_pos
  have hdiv := Nat.div_add_mod k x.shape.perChunk
  have hlt := Nat.mod_lt k hpos
  unfold chunksBegun
  split
  · refine Nat.div_eq_of_lt_le ?_ ?_
    · rw [Nat.mul_comm]
      omega
    · rw [Nat.add_mul, Nat.mul_comm]
      omega
  · refine Nat.div_eq_of_lt_le ?_ ?_
    · rw [Nat.add_mul, Nat.mul_comm]
      omega
    · rw [Nat.add_mul, Nat.add_mul, Nat.mul_comm]
      omega

/-! ## OUT endpoints -/

/-- The chunk buffer has the first `n` bytes of the chunk of the `k`-th packet, and zeros. -/
def Buffered (x : StreamCase ε τ) (k n : ℕ) (buffer : ℕ → Byte) : Prop :=
  ∀ j < x.shape.chunkSize.toNat,
    buffer j = if j < n then x.contents (k / x.shape.perChunk) j else 0

/-- Before the `k`-th packet of an OUT endpoint. -/
structure OutIdle (x : StreamCase ε τ) (k : ℕ) (K : StreamLog) : Prop where
  record : K.transfer = x.shape.record k
  calls : K.calls = x.expected (x.chunksEnded k)
  buffer : k < x.shape.packetCount → k % x.shape.perChunk ≠ 0 →
    x.Buffered k (64 * (k % x.shape.perChunk)) K.chunkBuffer

/-- While the `k`-th packet of an OUT endpoint is not done. -/
structure OutBusy (x : StreamCase ε τ) (k : ℕ) (K : StreamLog) : Prop where
  record : K.transfer = x.shape.record k
  calls : K.calls = x.expected (x.chunksEnded (k + 1))
  buffer : x.Buffered k (64 * (k % x.shape.perChunk) + x.shape.packetLength k) K.chunkBuffer

/-- What an OUT stream does with a packet. -/
theorem receive_out (hout : x.isIn = false) (hk : k < x.shape.packetCount) {K : StreamLog}
    (hK : x.OutIdle k K) :
    x.OutBusy k ((x.stream.handler false).receive K (x.shape.packet x.bytes k)).1 := by
  have hstored : x.Buffered k (64 * (k % x.shape.perChunk) + x.shape.packetLength k)
      ((x.shape.record k).storePacket (x.shape.packet x.bytes k) K.chunkBuffer) :=
    fun j hj => StreamShape.storePacket_record x.bytes hk (fun h => hK.buffer hk h) hj
  have hended := chunksEnded_succ x k
  simp only [UsbStream.handler, Bool.false_eq_true, if_false, UsbStream.store, stream, hK.record,
    StreamShape.chunkLen_out hk, UsbStream.callOnChunk]
  by_cases hend : k + 1 = x.shape.packetCount ∨ (k + 1) % x.shape.perChunk = 0
  · rw [if_pos hend] at hended
    simp only [if_pos hend, if_pos (StreamShape.chunkLength_ne_zero hk), onChunk, hout,
      Bool.false_and, Bool.false_eq_true, if_false]
    refine ⟨rfl, ?_, hstored⟩
    rw [hended, expected_succ, hK.calls, chunksEnded_of_lt hk, hout,
      if_neg Bool.false_ne_true]
    refine congrArg (fun l => x.expected _ ++ [(_, l)]) (List.map_congr_left fun j hj => ?_)
    rw [hstored j (List.mem_range.1 hj), StreamShape.chunkLength_of_end hk hend]
    rfl
  · rw [if_neg hend] at hended
    simp only [if_neg hend, ne_eq, not_true_eq_false, if_false]
    exact ⟨rfl, by rw [hended, hK.calls, chunksEnded_of_lt hk], hstored⟩

theorem finish_out (hk : k < x.shape.packetCount) {K : StreamLog} (hK : x.OutBusy k K) :
    x.OutIdle (k + 1) ((x.stream.handler false).finish K (x.shape.packet x.bytes k)).1 where
  record := by
    have hadvance := StreamShape.advance_eq hk
    simpa [UsbStream.handler, UsbStream.packetComplete, stream, hK.record,
      StreamShape.packet_length] using hadvance
  calls := hK.calls
  buffer hmore hmid := by
    obtain ⟨hdiv, hmod⟩ := succ_div_mod_of_ne x.shape.perChunk_pos hmid
    have hlt := x.shape.lt_packetCount_iff.1 hmore
    have hlen : x.shape.packetLength k = 64 := Nat.min_eq_left (by omega)
    have hbuffer := hK.buffer
    rw [hlen] at hbuffer
    intro j hj
    rw [hdiv, hmod]
    exact hbuffer j hj

theorem serves_out (hout : x.isIn = false) :
    (x.stream.handler false).Serves false x.shape.packetCount (x.shape.packet x.bytes) x.OutIdle
      x.OutBusy x.OutBusy where
  length_le k _ := by
    rw [StreamShape.packet_length]
    exact Nat.min_le_left _ _
  receive k hk K hK _ := receive_out hout hk hK
  atOnce k hk K hK _ := receive_out hout hk hK
  finish k hk K hK := finish_out hk hK
  sends h := by cases h

/-! ## IN endpoints -/

/-- Before the `k`-th packet of an IN endpoint. -/
structure InIdle (x : StreamCase ε τ) (k : ℕ) (K : StreamLog) : Prop where
  record : K.transfer = x.shape.record k
  calls : K.calls = x.expected (x.chunksBegun k)
  buffer : k % x.shape.perChunk ≠ 0 → K.chunkBuffer = x.contents (k / x.shape.perChunk)

/-- While the `k`-th packet of an IN endpoint is not done. -/
structure InBusy (x : StreamCase ε τ) (k : ℕ) (K : StreamLog) : Prop where
  record : K.transfer = x.shape.record k
  calls : K.calls = x.expected (x.chunksBegun (k + 1))

/-- The chunk of the `k`-th packet is made. -/
structure InReady (x : StreamCase ε τ) (k : ℕ) (K : StreamLog) : Prop extends x.InBusy k K where
  buffer : K.chunkBuffer = x.contents (k / x.shape.perChunk)

/-- What an IN stream does before a packet. -/
theorem receive_in (hin : x.isIn = true) (hk : k < x.shape.packetCount) {K : StreamLog}
    (hK : x.InIdle k K) (packet : List Byte) :
    x.InBusy k ((x.stream.handler true).receive K packet).1 ∧
      ((x.stream.handler true).receive K packet).2 =
        (!(decide (k % x.shape.perChunk = 0) && x.later (k / x.shape.perChunk))) ∧
      (((x.stream.handler true).receive K packet).2 = true →
        x.InReady k ((x.stream.handler true).receive K packet).1) := by
  have hbegun := x.chunksBegun_eq k
  have hcalls := hK.calls
  simp only [UsbStream.handler, if_true, stream, hK.record, StreamShape.chunkLen_in hk,
    UsbStream.callOnChunk]
  by_cases hstart : k % x.shape.perChunk = 0
  · rw [if_pos hstart] at hbegun
    rw [hbegun] at hcalls
    have hlength : K.calls.length = k / x.shape.perChunk := by rw [hcalls, expected_length]
    have hbusy (buffer : ℕ → Byte) : x.InBusy k ⟨K.transfer, buffer, K.calls ++
        [(BitVec.ofNat 32 (x.shape.chunkLength (k / x.shape.perChunk)), [])]⟩ := by
      refine ⟨hK.record, ?_⟩
      rw [chunksBegun_succ, expected_succ, hcalls, hin, if_pos rfl]
    simp only [if_pos (StreamShape.chunkLength_ne_zero hk), onChunk, hin, if_true, Bool.true_and,
      hlength, hstart, decide_true]
    cases x.later (k / x.shape.perChunk) with
    | true => exact ⟨hbusy _, trivial, fun h => by cases h⟩
    | false => exact ⟨hbusy _, trivial, fun _ => ⟨hbusy _, rfl⟩⟩
  · rw [if_neg hstart] at hbegun
    simp only [if_neg hstart, ne_eq, not_true_eq_false, if_false, decide_eq_false hstart,
      Bool.false_and]
    have hbusy : x.InBusy k K := ⟨hK.record, by rw [chunksBegun_succ, ← hbegun, hcalls]⟩
    exact ⟨hbusy, trivial, fun _ => ⟨hbusy, hK.buffer hstart⟩⟩

theorem finish_in (hk : k < x.shape.packetCount) {K : StreamLog} (hK : x.InReady k K)
    (packet : List Byte) : x.InIdle (k + 1) ((x.stream.handler true).finish K packet).1 where
  record := by
    have hadvance := StreamShape.advance_eq hk
    rw [← StreamShape.dataLen_eq hk] at hadvance
    simpa [UsbStream.handler, UsbStream.packetComplete, stream, hK.record] using hadvance
  calls := hK.calls
  buffer hmid := by
    rw [(succ_div_mod_of_ne x.shape.perChunk_pos hmid).1]
    exact hK.buffer

theorem serves_in (hin : x.isIn = true) :
    (x.stream.handler true).Serves true x.shape.packetCount (x.shape.packet x.bytes) x.InIdle
      x.InBusy x.InReady where
  length_le k _ := by
    rw [StreamShape.packet_length]
    exact Nat.min_le_left _ _
  receive k hk K hK _ := (receive_in hin hk hK _).1
  atOnce k hk K hK hnow := (receive_in hin hk hK _).2.2 hnow
  finish k hk K hK := finish_in hk hK _
  sends _ k hk K hK := by
    have hload := StreamShape.loadPacket_record x.bytes hk
    simp only [UsbStream.handler, if_true, UsbStream.load, stream, hK.record, hK.buffer]
    exact hload

/-- The second packet is done at once whenever the first one is. -/
def Prompt (x : StreamCase ε τ) : Prop :=
  x.shape.chunkSize = 64 → 64 < x.shape.length → x.later 0 = false → x.later 1 = false

theorem prompt_of (hin : x.isIn = true) (hprompt : x.Prompt) :
    (x.stream.handler true).Prompt x.shape.packetCount x.InIdle := by
  intro hcount K hK hnow
  have hfirst := receive_in hin (by omega : 0 < x.shape.packetCount) hK []
  have hK₁ := finish_in (by omega : 0 < x.shape.packetCount) (hfirst.2.2 hnow) []
  have hsecond := receive_in hin hcount hK₁ []
  have hnow : x.later 0 = false := by simpa [hfirst.2.1] using hnow
  rw [hsecond.2.1, Bool.not_eq_true', Bool.and_eq_false_iff, decide_eq_false_iff_not]
  rcases Nat.lt_or_ge 1 x.shape.perChunk with hlarge | hsmall
  · left
    rw [Nat.mod_eq_of_lt hlarge]
    exact Nat.one_ne_zero
  · right
    have hone : x.shape.perChunk = 1 := Nat.le_antisymm hsmall x.shape.perChunk_pos
    have hsize : x.shape.chunkSize = 64 := by
      refine BitVec.eq_of_toNat_eq ?_
      rw [x.shape.chunkSize_eq_mul, hone]
      rfl
    have hlength : 64 < x.shape.length := by
      have hlt := x.shape.lt_packetCount_iff.1 hcount
      rw [BitVec.lt_def]
      exact hlt
    rw [hone, Nat.div_one]
    exact hprompt hsize hlength hnow

/-! ## The line of a stream -/

/-- What does not change while the stream runs. -/
def setup (x : StreamCase ε τ) (s₀ : UsbState ε τ StreamFunction StreamLog) :
    LineSetup τ StreamFunction where
  transfer := x.transfer
  isIn := x.isIn
  defaultTransfer := (s₀.endpoint x.endpoint).defaultTransfer
  onStallChange := (s₀.endpoint x.endpoint).onStallChange
  count := x.shape.packetCount
  first := (s₀.endpoint x.endpoint).currentGiveBuffer
  onPacket := .onPacket
  onComplete := some .onComplete
  chain := none

theorem handles (s₀ : UsbState ε τ StreamFunction StreamLog) (idle : ℕ → StreamLog → Prop) :
    (x.stream.handler x.isIn).Handles x.driver x.endpoint (x.setup s₀) idle :=
  fun c s _ hin _ => x.stream.packetHandler_eq c x.endpoint s hin

/-- The endpoint, the transfer and the log after `usb_start_transfer` has set them. -/
def startEndpoint (x : StreamCase ε τ) (s₀ : UsbState ε τ StreamFunction StreamLog) :
    UsbEndpoint τ StreamFunction :=
  ((s₀.endpoint x.endpoint).setTransfer (some x.transfer)).setChain none

@[inherit_doc startEndpoint]
def startTransfer (x : StreamCase ε τ) : UsbTransfer StreamFunction :=
  ((UsbTransfer.reset ⟨.driver .onPacket, 0⟩ (some .onComplete)).grow
    ((x.shape.length + 63) / 64)).start

@[inherit_doc startEndpoint]
def startLog (x : StreamCase ε τ) (s₀ : UsbState ε τ StreamFunction StreamLog) : StreamLog :=
  { s₀.client with transfer := x.shape.record 0 }

theorem start_eq (c : UsbCalls ε τ StreamFunction StreamLog) :
    x.start c s₀ = usbGiveAsManyBuffersAsPossible c x.endpoint (s₀.place x.endpoint x.transfer
      (x.startEndpoint s₀) x.startTransfer (x.startLog s₀)) := by
  have hplace : x.stream.setupTransfer x.transfer .onPacket x.shape.chunkSize x.shape.length
      (some .onComplete) s₀ = s₀.place x.endpoint x.transfer (s₀.endpoint x.endpoint)
        ((UsbTransfer.reset ⟨.driver .onPacket, 0⟩ (some .onComplete)).grow
          ((x.shape.length + 63) / 64)) (x.startLog s₀) := by
    simp [UsbStream.setupTransfer, UsbState.place, UsbState.modifyTransfer, UsbState.modifyClient,
      stream, startLog, StreamShape.record_zero]
  rw [start, usbStartTransfer, hplace, UsbState.place_modifyEndpoint,
    UsbState.place_modifyTransfer]
  rfl

/-- The number of packets in the transfer. -/
theorem startTransfer_packets (x : StreamCase ε τ) :
    x.startTransfer.remainingPacketsToSubmit.toNat = x.shape.packetCount ∧
      x.startTransfer.remainingPacketsToHandle.toNat = x.shape.packetCount := by
  have hcount : ((x.shape.length + 63) / 64).toNat = x.shape.packetCount := by
    have hfits := x.shape.fits
    have hsize := x.shape.chunkSize_eq_mul
    have hpos := x.shape.perChunk_pos
    have h63 : (63 : Word).toNat = 63 := rfl
    have h64 : (64 : Word).toNat = 64 := rfl
    rw [BitVec.toNat_udiv, BitVec.toNat_add, h63, h64, Nat.mod_eq_of_lt (by omega)]
    rfl
  refine ⟨Eq.trans ?_ hcount, Eq.trans ?_ hcount⟩ <;> simp [startTransfer]

theorem Ready.line (hr : x.Ready s₀) :
    UsbLine (x.setup s₀) (x.startEndpoint s₀) x.startTransfer 0 0 0 where
  current := rfl
  isIn := hr.isIn
  defaultTransfer := rfl
  onStallChange := rfl
  doubleBuffered := hr.doubleBuffered
  notHalted := hr.notHalted
  chain := rfl
  onPacket := rfl
  onComplete := rfl
  notCompleted := rfl
  submit := x.startTransfer_packets.1
  handle := x.startTransfer_packets.2
  owned := by simp [startEndpoint, hr.owned]
  available := by simp [startEndpoint, hr.available]
  give := by simp [setup, startEndpoint]
  returned_le := Nat.le_refl 0

/-- `on_complete` does nothing. -/
theorem finish_eq (depth : ℕ) (s : UsbState ε τ StreamFunction StreamLog) :
    (x.setup s₀).finish (x.calls (depth + 1)) x.endpoint s = .ok s :=
  rfl

/-- The packets that the hardware got before the start. -/
def base (x : StreamCase ε τ) (s₀ : UsbState ε τ StreamFunction StreamLog) :
    List (List Byte) :=
  (s₀.endpoint x.endpoint).hw.given.map (·.packet)

theorem Ready.inLine (hr : x.Ready s₀) (hin : x.isIn = true) :
    InLine (x.setup s₀) (x.shape.packet x.bytes) (x.base s₀) (x.startEndpoint s₀) x.startTransfer
      0 0 0 :=
  ⟨hr.line, by simp [base, startEndpoint], hr.buffer hin⟩

/-! ## Runs -/

/-- A run of an OUT stream keeps to the states of `OutServing`. -/
theorem run_out (hr : x.Ready s₀) (hout : x.isIn = false) {depth : ℕ} (hdepth : 3 ≤ depth)
    {r : UsbResult (UsbState ε τ StreamFunction StreamLog)} (hrun : x.Run depth s₀ k r) :
    OutAfter (x.calls depth) (x.setup s₀) (x.shape.packet x.bytes) x.OutIdle x.OutBusy s₀
      x.endpoint k r := by
  have hhandles := x.handles s₀ x.OutIdle
  rw [hout] at hhandles
  -- the end leaves no transfer
  have hended {E : UsbEndpoint τ StreamFunction} {T : UsbTransfer StreamFunction} {K : StreamLog}
      {s : UsbState ε τ StreamFunction StreamLog}
      (hs : .ok s = (x.setup s₀).finish (x.calls depth) x.endpoint
        (s₀.place x.endpoint x.transfer (E.setTransfer none) T.complete K)) :
      (s.endpoint x.endpoint).currentTransfer ≠ some x.transfer := by
    obtain ⟨depth, rfl⟩ : ∃ d, depth = d + 1 := ⟨depth - 1, by omega⟩
    rw [finish_eq] at hs
    rw [Except.ok.inj hs, UsbState.place_endpoint]
    simp
  induction hrun with
  | start =>
    have hidle : x.OutIdle 0 (x.startLog s₀) :=
      { record := rfl
        calls := by
          have hpos := x.shape.packetCount_pos
          simp [startLog, hr.log, chunksEnded_of_lt hpos, expected]
        buffer := fun _ hmid => absurd (Nat.zero_mod _) hmid }
    obtain ⟨E, T, hE, hserve⟩ := OutServing.start hout hr.line rfl rfl x.shape.packetCount_pos
      hidle x.driver (by omega : 2 ≤ depth) (s := s₀) (e := x.endpoint)
    exact .inl ⟨E, T, _, (start_eq _).trans hE, hserve⟩
  | @buffer k s _ hcurrent havail ih =>
    rcases ih with ⟨E, T, K, hs, hserve⟩ | ⟨-, E, T, K, -, -, -, -, hs⟩
    · obtain rfl := Except.ok.inj hs
      rw [UsbState.place_endpoint] at havail
      exact hserve.buffer hhandles (serves_out hout) hout havail hdepth
    · exact absurd hcurrent (hended hs)
  | @chunkDone k s _ hcurrent houtstanding ih =>
    rcases ih with ⟨E, T, K, hs, hserve⟩ | ⟨-, E, T, K, -, -, -, -, hs⟩
    · obtain rfl := Except.ok.inj hs
      have hplace : (s₀.place x.endpoint (x.setup s₀).transfer E T K).transfer x.transfer = T :=
        UsbState.place_transfer _ _ _ _ _ _
      rw [hplace] at houtstanding
      have hprocess : x.process K = K := by
        simp [process, hout]
      have hline : E.isIn = false := by
        cases hserve with
        | free hf => exact hf.line.isIn.trans hout
        | busy hb => exact hb.line.choose_spec.2.isIn.trans hout
        | queued hq => exact hq.line.isIn.trans hout
      have hdone := hserve.done hhandles (serves_out hout) hout houtstanding (fun _ hK => hK)
        hdepth (s := s₀) ?_
      · rw [UsbStream.chunkDone, UsbStream.packetHandlerComplete_eq _ _ _ _ (i := false)
          (by simpa using hline)]
        rw [UsbState.place_modifyClient, hprocess]
        exact hdone
      · intro E T K s _ hs
        obtain ⟨depth, rfl⟩ : ∃ d, depth = d + 1 := ⟨depth - 1, by omega⟩
        obtain rfl := Except.ok.inj hs
        simp [setup]
    · exact absurd hcurrent (hended hs)

/-- A run of an IN stream keeps to the states of `InServing`. -/
theorem run_in (hr : x.Ready s₀) (hin : x.isIn = true) (hprompt : x.Prompt) {depth : ℕ}
    (hdepth : 3 ≤ depth) {r : UsbResult (UsbState ε τ StreamFunction StreamLog)}
    (hrun : x.Run depth s₀ k r) :
    InAfter (x.calls depth) (x.setup s₀) (x.shape.packet x.bytes) (x.base s₀) x.InIdle x.InBusy s₀
      x.endpoint k r := by
  have hhandles := x.handles s₀ x.InIdle
  rw [hin] at hhandles
  have hended {E : UsbEndpoint τ StreamFunction} {T : UsbTransfer StreamFunction} {K : StreamLog}
      {s : UsbState ε τ StreamFunction StreamLog}
      (hs : .ok s = (x.setup s₀).finish (x.calls depth) x.endpoint
        (s₀.place x.endpoint x.transfer (E.setTransfer none) T.complete K)) :
      (s.endpoint x.endpoint).currentTransfer ≠ some x.transfer := by
    obtain ⟨depth, rfl⟩ : ∃ d, depth = d + 1 := ⟨depth - 1, by omega⟩
    rw [finish_eq] at hs
    rw [Except.ok.inj hs, UsbState.place_endpoint]
    simp
  induction hrun with
  | start =>
    have hidle : x.InIdle 0 (x.startLog s₀) :=
      { record := rfl
        calls := by
          simp [startLog, hr.log, chunksBegun_eq, expected]
        buffer := fun hmid => absurd (Nat.zero_mod _) hmid }
    obtain ⟨E, T, K, hE, hserve⟩ := InServing.start hhandles (serves_in hin)
      (prompt_of hin hprompt) hin (hr.inLine hin) rfl x.shape.packetCount_pos hidle hdepth (s := s₀)
    exact .inl ⟨E, T, K, (start_eq _).trans hE, hserve⟩
  | @buffer k s _ hcurrent havail ih =>
    rcases ih with ⟨E, T, K, hs, hserve⟩ | ⟨-, E, T, K, -, -, -, -, hs⟩
    · obtain rfl := Except.ok.inj hs
      rw [UsbState.place_endpoint] at havail
      exact hserve.buffer hhandles (serves_in hin) hin havail (by omega) _
    · exact absurd hcurrent (hended hs)
  | @chunkDone k s _ hcurrent houtstanding ih =>
    rcases ih with ⟨E, T, K, hs, hserve⟩ | ⟨-, E, T, K, -, -, -, -, hs⟩
    · obtain rfl := Except.ok.inj hs
      have hplace : (s₀.place x.endpoint (x.setup s₀).transfer E T K).transfer x.transfer = T :=
        UsbState.place_transfer _ _ _ _ _ _
      rw [hplace] at houtstanding
      have hline : E.isIn = true := by
        cases hserve with
        | free hi => exact hi.line.isIn.trans hin
        | busy hi => exact hi.line.isIn.trans hin
        | queued hi => exact hi.line.isIn.trans hin
      have hprocess : x.process K =
          { K with chunkBuffer := x.contents (K.calls.length - 1) } := by
        simp [process, hin]
      have hchange := hserve.change houtstanding (x.process K) fun k hK => by
        rw [hprocess]
        exact ⟨hK.record, hK.calls⟩
      rw [UsbStream.chunkDone, UsbStream.packetHandlerComplete_eq _ _ _ _ (i := true)
        (by simpa using hline), UsbState.place_modifyClient]
      refine hchange.done hhandles (serves_in hin) hin houtstanding (fun k hK => ⟨hK, ?_⟩) (by omega)
      have hcalls := hK.calls
      rw [hprocess] at hcalls ⊢
      dsimp only at hcalls ⊢
      rw [hcalls, expected_length, chunksBegun_succ, Nat.add_sub_cancel]
    · exact absurd hcurrent (hended hs)

/-! ## What the states of a stream say -/

theorem sent_of_given {s : UsbState ε τ StreamFunction StreamLog} {m : ℕ}
    (hgiven : (s.endpoint x.endpoint).hw.given.map (·.packet) =
      x.base s₀ ++ (List.range m).map (x.shape.packet x.bytes)) :
    x.sent s₀ s = (List.range m).map (x.shape.packet x.bytes) := by
  rw [sent, List.map_drop, hgiven, base]
  exact List.drop_left' (by simp)

theorem streamOk_of_out (hout : x.isIn = false) (hdepth : 3 ≤ depth)
    {r : UsbResult (UsbState ε τ StreamFunction StreamLog)}
    (hafter : OutAfter (x.calls depth) (x.setup s₀) (x.shape.packet x.bytes) x.OutIdle x.OutBusy s₀
      x.endpoint k r) : ∃ s, r = .ok s ∧ x.StreamOk s₀ k s := by
  have hsent {P : Prop} (h : x.isIn = true) : P := by
    rw [hout] at h
    cases h
  rcases hafter with ⟨E, T, K, hr, hserve⟩ | ⟨hk, E, T, K, hl, -, -, hK, hr⟩
  · refine ⟨_, hr, .inl ?_⟩
    cases hserve with
    | free hf hk hK =>
      refine ⟨by simp [hf.line.current, setup], ?_, hsent, .inl hk⟩
      simp [asked, hout, setup, hf.queued, hK.calls]
    | busy hb hk hK =>
      refine ⟨by simp [hb.line.choose_spec.2.current, setup], ?_, hsent, .inr ?_⟩
      · simp [asked, hout, setup, hb.queued, hK.calls]
      · simp [setup, hb.outstanding]
    | queued hq hk hK =>
      refine ⟨by simp [hq.line.current, setup], ?_, hsent, .inr ?_⟩
      · simp [asked, hout, setup, hq.queued, hK.calls]
      · simp [setup, hq.outstanding]
  · obtain ⟨depth, rfl⟩ : ∃ d, depth = d + 1 := ⟨depth - 1, by omega⟩
    rw [finish_eq] at hr
    refine ⟨_, hr, .inr ⟨hk, by simp, by simp [setup], ?_, hsent⟩⟩
    have hall : k = x.shape.packetCount := hk
    rw [UsbState.place_client, hK.calls, chunksEnded, if_pos hall]

theorem streamOk_of_in (hin : x.isIn = true) (hdepth : 3 ≤ depth)
    {r : UsbResult (UsbState ε τ StreamFunction StreamLog)}
    (hafter : InAfter (x.calls depth) (x.setup s₀) (x.shape.packet x.bytes) (x.base s₀) x.InIdle
      x.InBusy s₀ x.endpoint k r) : ∃ s, r = .ok s ∧ x.StreamOk s₀ k s := by
  have hheld {E : UsbEndpoint τ StreamFunction} {T : UsbTransfer StreamFunction}
      {submitted returned due : ℕ} (hl : UsbLine (x.setup s₀) E T submitted returned due) :
      returned + E.hw.available.length = submitted := by
    have hlen := congrArg List.length hl.available
    have hle := hl.returned_le
    simp only [List.length_map, List.length_range'] at hlen
    omega
  rcases hafter with ⟨E, T, K, hr, hserve⟩ | ⟨hk, E, T, K, hi, -, -, hK, hr⟩
  · refine ⟨_, hr, .inl ?_⟩
    cases hserve with
    | free hi ho hq hk hK =>
      have hsub := hheld hi.line
      refine ⟨by simp [hi.line.current, setup], ?_,
        fun _ => ⟨_, ?_, hi.line.submitted_le, sent_of_given (by simpa using hi.given)⟩, .inl hk⟩
      · simp [asked, hin, setup, ho, hsub, hK.calls]
      · exact hi.line.returned_le
    | busy hi ho hq hs hn hK =>
      have hsub := hheld hi.line
      refine ⟨by simp [hi.line.current, setup], ?_,
        fun _ => ⟨_, hi.line.returned_le, hi.line.submitted_le,
          sent_of_given (by simpa using hi.given)⟩, .inr (by simp [setup, ho])⟩
      simp [asked, hin, setup, ho, hsub, hK.calls]
    | queued hi ho hq hn hK =>
      have hsub := hheld hi.line
      refine ⟨by simp [hi.line.current, setup], ?_,
        fun _ => ⟨_, hi.line.returned_le, hi.line.submitted_le,
          sent_of_given (by simpa using hi.given)⟩, .inr (by simp [setup, ho])⟩
      simp [asked, hin, setup, ho, hsub, hK.calls]
  · obtain ⟨depth, rfl⟩ : ∃ d, depth = d + 1 := ⟨depth - 1, by omega⟩
    have hall : k = x.shape.packetCount := hk
    rw [finish_eq] at hr
    have hsent : x.sent s₀ (s₀.place x.endpoint (x.setup s₀).transfer (E.setTransfer none)
        T.complete K) = (List.range x.shape.packetCount).map (x.shape.packet x.bytes) := by
      refine sent_of_given ?_
      rw [← hall]
      simpa using hi.given
    refine ⟨_, hr, .inr ⟨hk, by simp, by simp [setup], ?_, fun _ => ?_⟩⟩
    · obtain ⟨n, hn⟩ : ∃ n, n + 1 = x.shape.packetCount :=
        ⟨x.shape.packetCount - 1, Nat.sub_add_cancel x.shape.packetCount_pos⟩
      rw [UsbState.place_client, hK.calls, hall, ← hn, chunksBegun_succ,
        StreamShape.chunkCount_eq hn]
    · rw [hsent]
      exact ⟨by simp, x.shape.flatten_packets x.bytes⟩

/-! ## A second chunk that is processed later -/

/-- The packets that are given when `on_chunk` was called twice for the second chunk. -/
def shiftedPacket (x : StreamCase ε τ) (k : ℕ) : List Byte :=
  if k = 0 then x.shape.packet x.bytes 0
  else (List.range (x.shape.packetLength k)).map fun j => x.contents (k + 1) j

/-- Before the `k`-th packet, when `on_chunk` was called once too often. -/
structure ShiftedIdle (x : StreamCase ε τ) (k : ℕ) (K : StreamLog) : Prop where
  pos : 0 < k
  record : K.transfer = x.shape.record k
  calls : K.calls.length = k + 1

/-- While the `k`-th packet is not done, when `on_chunk` was called once too often. -/
structure ShiftedBusy (x : StreamCase ε τ) (k : ℕ) (K : StreamLog) : Prop where
  pos : 0 < k
  record : K.transfer = x.shape.record k
  calls : K.calls.length = k + 2

/-- The chunk is made. -/
structure ShiftedReady (x : StreamCase ε τ) (k : ℕ) (K : StreamLog) : Prop
    extends x.ShiftedBusy k K where
  buffer : K.chunkBuffer = x.contents (k + 1)

theorem perChunk_eq_one (hsize : x.shape.chunkSize = 64) : x.shape.perChunk = 1 := by
  rw [StreamShape.perChunk, hsize]
  rfl

theorem receive_shifted (hin : x.isIn = true) (hsize : x.shape.chunkSize = 64)
    (hk : k < x.shape.packetCount) {K : StreamLog} (hK : x.ShiftedIdle k K) {packet : List Byte} :
    x.ShiftedBusy k ((x.stream.handler true).receive K packet).1 ∧
      (((x.stream.handler true).receive K packet).2 = true →
        x.ShiftedReady k ((x.stream.handler true).receive K packet).1) := by
  have hstart : k % x.shape.perChunk = 0 := by rw [perChunk_eq_one hsize, Nat.mod_one]
  simp only [UsbStream.handler, if_true, stream, hK.record, StreamShape.chunkLen_in hk,
    UsbStream.callOnChunk, if_pos hstart, if_pos (StreamShape.chunkLength_ne_zero hk), onChunk, hin,
    Bool.true_and, hK.calls]
  cases x.later (k + 1) with
  | true => exact ⟨⟨hK.pos, rfl, by simp [hK.calls]⟩, fun h => by cases h⟩
  | false =>
    exact ⟨⟨hK.pos, rfl, by simp [hK.calls]⟩,
      fun _ => ⟨⟨hK.pos, rfl, by simp [hK.calls]⟩, rfl⟩⟩

theorem serves_shifted (hin : x.isIn = true) (hsize : x.shape.chunkSize = 64) :
    (x.stream.handler true).Serves true x.shape.packetCount x.shiftedPacket x.ShiftedIdle
      x.ShiftedBusy x.ShiftedReady where
  length_le k _ := by
    have hle : x.shape.packetLength k ≤ 64 := Nat.min_le_left _ _
    unfold shiftedPacket
    split
    · rw [StreamShape.packet_length]
      exact Nat.min_le_left _ _
    · simpa using hle
  receive k hk K hK _ := (receive_shifted hin hsize hk hK).1
  atOnce k hk K hK hnow := (receive_shifted hin hsize hk hK).2 hnow
  finish k hk K hK := by
    refine ⟨Nat.succ_pos k, ?_, hK.calls⟩
    have hadvance := StreamShape.advance_eq hk
    rw [← StreamShape.dataLen_eq hk] at hadvance
    simpa [UsbStream.handler, UsbStream.packetComplete, stream, hK.record] using hadvance
  sends _ k hk K hK := by
    have hoff := StreamShape.record_chunkOffset hk
    rw [perChunk_eq_one hsize, Nat.mod_one, Nat.mul_zero] at hoff
    simp only [UsbStream.handler, if_true, UsbStream.load, stream, hK.record, hK.buffer,
      UsbStreamTransfer.loadPacket, StreamShape.dataLen_eq hk, StreamShape.packetLength_toNat, hoff,
      Nat.zero_add, shiftedPacket, if_neg (Nat.ne_of_gt hK.pos)]

/-- `on_chunk` is then called three times, for two chunks. -/
theorem not_streamOk_of_twice (hr : x.Ready s₀) (hin : x.isIn = true)
    (hsize : x.shape.chunkSize = 64) (hlength : 64 < x.shape.length) (hfirst : x.later 0 = false)
    (hsecond : x.later 1 = true) (hdepth : 3 ≤ depth) :
    ∃ s, x.start (x.calls depth) s₀ = .ok s ∧ s.client.calls.length = 3 ∧ ¬x.StreamOk s₀ 0 s := by
  have hone := perChunk_eq_one hsize
  have hcount : 2 ≤ x.shape.packetCount := by
    rw [BitVec.lt_def] at hlength
    exact x.shape.lt_packetCount_iff.2 hlength
  have hhandles (idle : ℕ → StreamLog → Prop) := x.handles s₀ idle
  rw [hin] at hhandles
  have hidle : x.InIdle 0 (x.startLog s₀) :=
    { record := rfl
      calls := by simp [startLog, hr.log, chunksBegun_eq, expected]
      buffer := fun hmid => absurd (Nat.zero_mod _) hmid }
  have hnow := receive_in hin (by omega : 0 < x.shape.packetCount) hidle []
  have hnow₁ : ((x.stream.handler true).receive (x.startLog s₀) []).2 = true := by
    simp [hnow.2.1, hfirst]
  have hlater := receive_in hin (by omega : 1 < x.shape.packetCount)
    (finish_in (by omega : 0 < x.shape.packetCount) (hnow.2.2 hnow₁) [])
    []
  obtain ⟨E, T, K, submitted, hE, hl, hcase⟩ := InLine.start_twice (hhandles x.InIdle)
    (serves_in hin) hin (hr.inLine hin) rfl hcount hidle hdepth hnow₁
    (by simp [hlater.2.1, hone, hsecond]) (hhandles x.ShiftedIdle) (serves_shifted hin hsize)
    (by simp [shiftedPacket])
    (fun K hK => ⟨Nat.one_pos, hK.record, by
      rw [hK.calls, expected_length, chunksBegun_succ, hone]⟩) (s := s₀)
  have hcalls : K.calls.length = 3 := by
    rcases hcase with ⟨-, -, hK⟩ | ⟨-, -, hK⟩
    · exact hK.calls
    · exact hK.calls
  have hsum : submitted + (if T.outstandingPacket then 1 else 0) = 2 := by
    rcases hcase with ⟨rfl, ho, -⟩ | ⟨rfl, ho, -⟩
    · rw [ho, if_neg Bool.false_ne_true]
    · rw [ho, if_pos rfl]
  refine ⟨_, (start_eq _).trans hE, hcalls, ?_⟩
  rintro (hrun | hend)
  · have hlen := congrArg List.length hrun.calls
    have hheld := congrArg List.length hl.available
    simp only [List.length_map, List.length_range', Nat.sub_zero] at hheld
    rw [UsbState.place_client, hcalls, expected_length, if_pos hin, asked, if_pos hin, chunksBegun,
      hone, Nat.div_one] at hlen
    simp only [UsbState.place_endpoint, setup, UsbState.place_transfer, hheld] at hlen
    omega
  · have := hend.all
    omega

/-! ## The streams that keep to it -/

/-- Every run of a stream keeps to `StreamOk`, without a fault, unless it is an IN stream of more
than one chunk whose chunks have the size of a packet, the first chunk is processed at once, and the
second one is not. -/
theorem streamOk_iff (hr : x.Ready s₀) (hdepth : 3 ≤ depth) :
    (∀ k r, x.Run depth s₀ k r → ∃ s, r = .ok s ∧ x.StreamOk s₀ k s) ↔
      ¬(x.isIn = true ∧ x.shape.chunkSize = 64 ∧ 64 < x.shape.length ∧ x.later 0 = false ∧
        x.later 1 = true) := by
  constructor
  · rintro hall ⟨hin, hsize, hlength, hfirst, hsecond⟩
    obtain ⟨s, hs, -, hnot⟩ :=
      not_streamOk_of_twice hr hin hsize hlength hfirst hsecond hdepth
    obtain ⟨s', hs', hok⟩ := hall 0 _ .start
    obtain rfl := Except.ok.inj (hs.symm.trans hs')
    exact hnot hok
  · intro hcond k r hrun
    cases hin : x.isIn with
    | false => exact streamOk_of_out hin hdepth (run_out hr hin hdepth hrun)
    | true =>
      have hprompt : x.Prompt := fun hsize hlength hfirst =>
        Bool.eq_false_iff.2 fun hsecond => hcond ⟨hin, hsize, hlength, hfirst, hsecond⟩
      exact streamOk_of_in hin hdepth (run_in hr hin hprompt hdepth hrun)

end StreamCase

end Runs

/-! ## Two chunks of a packet on an IN endpoint -/

/-- Two chunks of 64 bytes. -/
def twoChunksShape : StreamShape where
  length := 128
  chunkSize := 64
  length_ne_zero := by decide
  chunkSize_eq := ⟨6, Nat.le_refl 6, rfl⟩
  fits := by decide

/-- Two chunks of zeros, of which those in the list are processed later. -/
def twoChunks (later : List ℕ) : StreamCase Unit Unit where
  endpoint := ()
  transfer := ()
  isIn := true
  shape := twoChunksShape
  bytes _ := 0
  later i := decide (i ∈ later)

/-- An IN endpoint that owns both buffers. -/
def streamInReady : UsbState Unit Unit StreamFunction StreamLog where
  endpoint _ :=
    { isIn := true, doubleBuffered := true, bufferSize := 64, defaultTransfer := none
      currentTransfer := none, chainTransfer := none, onStallChange := none
      currentHwBuffer := ⟨false, 0, false⟩, nextPid := false, ownedBufferCount := 2
      currentGiveBuffer := false, currentTakeBuffer := false, haltState := .none
      firstBufferAfterReset := true, hw := ⟨fun _ => [], [], []⟩ }
  transfer _ := .reset ⟨.driver .onPacket, 0⟩ none
  currentConfigNum := 1
  client := { transfer := ⟨0, 0, 0⟩, chunkBuffer := fun _ => 0 }

theorem twoChunks_ready (later : List ℕ) : (twoChunks later).Ready streamInReady where
  isIn := rfl
  doubleBuffered := rfl
  notHalted := rfl
  owned := rfl
  available := rfl
  buffer _ h := by cases h
  log := rfl

/-- `streamOk_iff`, when both chunks are processed later. -/
theorem streamOk_iff_later :
    (twoChunks [0, 1]).Ready streamInReady ∧
      ∀ k r, (twoChunks [0, 1]).Run 3 streamInReady k r →
        ∃ s, r = .ok s ∧ (twoChunks [0, 1]).StreamOk streamInReady k s :=
  ⟨twoChunks_ready _,
    (StreamCase.streamOk_iff (twoChunks_ready _) (Nat.le_refl 3)).2 (by decide)⟩

/-- When the first chunk is processed at once and the second one later, `on_chunk` is called three
times before the hardware has returned a buffer. -/
theorem second_chunk_called_twice :
    (twoChunks [1]).Ready streamInReady ∧
      ∃ s, (twoChunks [1]).Run 8 streamInReady 0 (.ok s) ∧ s.client.calls.length = 3 ∧
        ¬(twoChunks [1]).StreamOk streamInReady 0 s := by
  have hr := twoChunks_ready [1]
  obtain ⟨s, hs, hcalls, hnot⟩ := StreamCase.not_streamOk_of_twice hr rfl rfl (by decide)
    (by decide) (by decide) (by decide : 3 ≤ 8)
  exact ⟨hr, s, hs ▸ .start, hcalls, hnot⟩

end PicoBootrom
