import PicoBootrom.UsbHandler

/-!
# Stream transfers

`usb_stream_helper.c` : a transfer whose packets are the parts of chunks. `on_chunk` of the user of
the stream is called for a whole chunk, before its first packet for an IN endpoint and after its
last one for an OUT endpoint, and says whether the chunk is processed later ; the user then calls
`usb_stream_chunk_done`.

A stream is a handler of packets (`UsbStream.handler`), if its functions only change the state of
the user of the library. `StreamShape` has the arithmetic : which packets are in which chunk, and
that the masked comparisons of the code find the first and the last packet of each chunk.
-/

namespace PicoBootrom

/-! ## The functions -/

/-- `struct usb_stream_transfer`, apart from `core`, `chunk_buffer`, `ep` and `funcs`. -/
structure UsbStreamTransfer where
  offset : Word
  transferLength : Word
  chunkSize : Word
  deriving DecidableEq, Repr

namespace UsbStreamTransfer

variable (S : UsbStreamTransfer)

/-- `_usb_stream_chunk_offset`. -/
def chunkOffset : Word := S.offset &&& (S.chunkSize - 1)

/-- The `chunk_len` of `_usb_stream_packet_packet_handler`, which calls `on_chunk` if it is not
zero. -/
def chunkLen (isIn : Bool) : Word :=
  if isIn then
    if S.chunkOffset = 0 then
      if S.transferLength < S.offset + S.chunkSize then S.transferLength - S.offset
      else S.chunkSize
    else 0
  else if S.transferLength ≤ S.offset + 64 then
    -- the end of the transfer, possibly in the middle of a chunk
    if S.transferLength &&& (S.chunkSize - 1) ≠ 0 then S.transferLength &&& (S.chunkSize - 1)
    else S.chunkSize
  else if S.chunkSize ≤ S.chunkOffset + 64 then S.chunkSize
  else 0

/-- The `data_len` of a packet of an IN endpoint. -/
def dataLen : Word :=
  if S.transferLength < S.offset + 64 then S.transferLength - S.offset else 64

/-- `transfer->offset += buffer->data_len`. -/
@[simps]
def advance (len : Word) : UsbStreamTransfer := { S with offset := S.offset + len }

/-- The chunk buffer with a packet of an OUT endpoint. It is zeroed for a new chunk. -/
def storePacket (packet : List Byte) (buffer : ℕ → Byte) (i : ℕ) : Byte :=
  if S.chunkOffset.toNat ≤ i ∧ i < S.chunkOffset.toNat + packet.length then
    packet.getD (i - S.chunkOffset.toNat) 0
  else if S.chunkOffset = 0 ∧ i < S.chunkSize.toNat then 0
  else buffer i

/-- The packet is stored from the offset in the chunk on. -/
theorem storePacket_copied (packet : List Byte) (buffer : ℕ → Byte) {i : ℕ}
    (hi : i < packet.length) :
    S.storePacket packet buffer (S.chunkOffset.toNat + i) = packet[i] := by
  rw [storePacket, if_pos ⟨Nat.le_add_right _ _, by omega⟩, Nat.add_sub_cancel_left,
    List.getD_eq_getElem?_getD, List.getElem?_eq_getElem hi, Option.getD_some]

/-- Nothing else is changed, but that the chunk buffer is zeroed for a new chunk. -/
theorem storePacket_kept (packet : List Byte) (buffer : ℕ → Byte) {i : ℕ}
    (hi : i < S.chunkOffset.toNat ∨ S.chunkOffset.toNat + packet.length ≤ i) :
    S.storePacket packet buffer i =
      if S.chunkOffset = 0 ∧ i < S.chunkSize.toNat then 0 else buffer i := by
  rw [storePacket, if_neg (by omega)]

/-- The packet of an IN endpoint, from the chunk buffer. -/
def loadPacket (buffer : ℕ → Byte) : List Byte :=
  (List.range S.dataLen.toNat).map fun i => buffer (S.chunkOffset.toNat + i)

end UsbStreamTransfer

/-- A stream in the state of the user of the library : its transfer, its chunk buffer, and its
functions, where `on_chunk` says whether the chunk is processed later. -/
structure UsbStream (κ : Type) where
  transfer : κ → UsbStreamTransfer
  setTransfer : UsbStreamTransfer → κ → κ
  chunkBuffer : κ → ℕ → Byte
  setChunkBuffer : (ℕ → Byte) → κ → κ
  onChunk : Word → κ → κ × Bool
  onPacketComplete : κ → κ

namespace UsbStream

variable {ε τ ν κ : Type} (u : UsbStream κ)

/-- The packet of an OUT endpoint goes to the chunk buffer. -/
def store (packet : List Byte) (K : κ) : κ :=
  u.setChunkBuffer ((u.transfer K).storePacket packet (u.chunkBuffer K)) K

/-- The packet of an IN endpoint comes from the chunk buffer. -/
def load (K : κ) : List Byte := (u.transfer K).loadPacket (u.chunkBuffer K)

/-- `transfer->offset += buffer->data_len`, and `on_packet_complete`. -/
def packetComplete (len : Word) (K : κ) : κ :=
  u.onPacketComplete (u.setTransfer ((u.transfer K).advance len) K)

/-- `on_chunk`, if it is called. -/
def callOnChunk (chunkLen : Word) (K : κ) : κ × Bool :=
  if chunkLen ≠ 0 then u.onChunk chunkLen K else (K, false)

section Functions

variable [DecidableEq ε] [DecidableEq τ]

/-- `usb_stream_packet_handler_complete`. -/
def packetHandlerComplete (c : UsbCalls ε τ ν κ) (e : ε) (s : UsbState ε τ ν κ) :
    UsbResult (UsbState ε τ ν κ) :=
  let s := usbCurrentPacketBuffer e s
  if (s.endpoint e).isIn then
    let s := s.modifyEndpoint e fun E => E.fillBuffer (u.load s.client)
    usbPacketDone c e (s.modifyClient fun K => u.packetComplete (u.transfer K).dataLen K)
  else
    usbPacketDone c e (s.modifyClient
      (u.packetComplete (BitVec.ofNat 32 (s.endpoint e).bufferData.length)))

/-- `usb_stream_chunk_done`. -/
def chunkDone (c : UsbCalls ε τ ν κ) (e : ε) (s : UsbState ε τ ν κ) :
    UsbResult (UsbState ε τ ν κ) :=
  u.packetHandlerComplete c e s

/-- `_usb_stream_packet_packet_handler`. -/
def packetHandler (c : UsbCalls ε τ ν κ) (e : ε) (s : UsbState ε τ ν κ) :
    UsbResult (UsbState ε τ ν κ) :=
  let chunkLen := (u.transfer s.client).chunkLen (s.endpoint e).isIn
  let s := if (s.endpoint e).isIn then s
    else
      let s := usbCurrentPacketBuffer e s
      s.modifyClient (u.store (s.endpoint e).bufferData)
  let r := u.callOnChunk chunkLen s.client
  let s := s.modifyClient fun _ => r.1
  if r.2 then .ok s else u.packetHandlerComplete c e s

/-- `usb_stream_setup_transfer`. The packet handler is the function of the driver that calls it. -/
def setupTransfer (t : τ) (packetHandler : ν) (chunkSize transferLength : Word)
    (onComplete : Option ν) (s : UsbState ε τ ν κ) : UsbState ε τ ν κ :=
  (s.modifyClient (u.setTransfer ⟨0, transferLength, chunkSize⟩)).modifyTransfer t fun _ =>
    (UsbTransfer.reset ⟨.driver packetHandler, 0⟩ onComplete).grow ((transferLength + 63) / 64)

/-! ## Streams as handlers -/

/-- What a stream does with a packet of an endpoint of the given direction. -/
def handler (isIn : Bool) : UsbHandler κ where
  receive K packet :=
    let K' := if isIn then K else u.store packet K
    let r := u.callOnChunk ((u.transfer K).chunkLen isIn) K'
    (r.1, !r.2)
  finish K packet :=
    if isIn then (u.packetComplete (u.transfer K).dataLen K, u.load K)
    else (u.packetComplete (BitVec.ofNat 32 packet.length) K, [])

theorem packetHandlerComplete_eq (c : UsbCalls ε τ ν κ) (e : ε) (s : UsbState ε τ ν κ)
    {i : Bool} (h : (s.endpoint e).isIn = i) :
    u.packetHandlerComplete c e s = (u.handler i).packetDone c e s := by
  have hin : ((usbCurrentPacketBuffer e s).endpoint e).isIn = i := by
    rw [← h]
    simp only [usbCurrentPacketBuffer, UsbState.modifyEndpoint_endpoint_self,
      UsbEndpoint.fetchBuffer]
    split <;> rfl
  cases i with
  | true => simp [packetHandlerComplete, UsbHandler.packetDone, handler, hin,
      UsbState.modifyEndpoint, UsbState.modifyClient]
  | false => simp [packetHandlerComplete, UsbHandler.packetDone, handler, hin, UsbEndpoint.packet,
      UsbState.modifyClient]

theorem packetHandler_eq (c : UsbCalls ε τ ν κ) (e : ε) (s : UsbState ε τ ν κ) {isIn : Bool}
    (h : (s.endpoint e).isIn = isIn) :
    u.packetHandler c e s = (u.handler isIn).onPacket c e s := by
  have hin : ((usbCurrentPacketBuffer e s).endpoint e).isIn = isIn := by
    rw [← h]
    simp only [usbCurrentPacketBuffer, UsbState.modifyEndpoint_endpoint_self,
      UsbEndpoint.fetchBuffer]
    split <;> rfl
  cases isIn with
  | true =>
    simp only [packetHandler, UsbHandler.onPacket, handler, h, if_true]
    rcases u.callOnChunk ((u.transfer s.client).chunkLen true) s.client with ⟨K, later⟩
    cases later with
    | true => rfl
    | false => exact u.packetHandlerComplete_eq c e _ h
  | false =>
    have hclient : (usbCurrentPacketBuffer e s).client = s.client := rfl
    simp only [packetHandler, UsbHandler.onPacket, handler, h, UsbEndpoint.packet, hin,
      Bool.false_eq_true, if_false, UsbState.modifyClient_client, hclient]
    rcases u.callOnChunk ((u.transfer s.client).chunkLen false)
      (u.store ((usbCurrentPacketBuffer e s).endpoint e).bufferData s.client) with ⟨K, later⟩
    cases later with
    | true => rfl
    | false => exact u.packetHandlerComplete_eq c e _ hin

end Functions

end UsbStream

/-! ## Packets and chunks -/

theorem succ_mod_eq_zero_iff (k : ℕ) {c : ℕ} (hc : 0 < c) :
    (k + 1) % c = 0 ↔ k % c + 1 = c := by
  have hlt := Nat.mod_lt k hc
  rw [← Nat.mod_add_mod]
  rcases Nat.lt_or_ge (k % c + 1) c with hless | hge
  · rw [Nat.mod_eq_of_lt hless]
    omega
  · have heq : k % c + 1 = c := by omega
    rw [heq, Nat.mod_self]
    exact ⟨fun _ => rfl, fun _ => rfl⟩

theorem succ_div_mod_of_ne {k c : ℕ} (hc : 0 < c) (h : (k + 1) % c ≠ 0) :
    (k + 1) / c = k / c ∧ (k + 1) % c = k % c + 1 := by
  have hne := mt (succ_mod_eq_zero_iff k hc).2 h
  have hlt := Nat.mod_lt k hc
  refine ⟨Nat.succ_div_of_not_dvd (mt Nat.mod_eq_zero_of_dvd h), ?_⟩
  rw [← Nat.mod_add_mod, Nat.mod_eq_of_lt (by omega)]

/-- The length of a transfer and the size of its chunks, as the streams of the boot ROM have them.
-/
structure StreamShape where
  length : Word
  chunkSize : Word
  length_ne_zero : length ≠ 0
  chunkSize_eq : ∃ m, 6 ≤ m ∧ chunkSize.toNat = 2 ^ m
  fits : length.toNat + chunkSize.toNat ≤ 2 ^ 32

namespace StreamShape

variable (x : StreamShape)

/-- The number of packets, the last one of which may be short. -/
def packetCount : ℕ := (x.length.toNat + 63) / 64

/-- The number of chunks, the last one of which may be short. -/
def chunkCount : ℕ := (x.length.toNat + x.chunkSize.toNat - 1) / x.chunkSize.toNat

/-- The number of packets of a whole chunk. -/
def perChunk : ℕ := x.chunkSize.toNat / 64

/-- The length of the `k`-th packet. -/
def packetLength (k : ℕ) : ℕ := min 64 (x.length.toNat - 64 * k)

/-- The length of the `i`-th chunk. -/
def chunkLength (i : ℕ) : ℕ :=
  if i + 1 < x.chunkCount then x.chunkSize.toNat else x.length.toNat - x.chunkSize.toNat * i

/-- The `k`-th packet of a stream of bytes. -/
def packet (bytes : ℕ → Byte) (k : ℕ) : List Byte :=
  (List.range (x.packetLength k)).map fun j => bytes (64 * k + j)

/-- The chunk buffer with the `i`-th chunk of a stream of bytes, followed by zeros. -/
def slice (bytes : ℕ → Byte) (i : ℕ) : List Byte :=
  (List.range x.chunkSize.toNat).map fun j =>
    if j < x.chunkLength i then bytes (x.chunkSize.toNat * i + j) else 0

/-- The record of the transfer, before the `k`-th packet. -/
def record (k : ℕ) : UsbStreamTransfer where
  offset := BitVec.ofNat 32 (min (64 * k) x.length.toNat)
  transferLength := x.length
  chunkSize := x.chunkSize

theorem chunkSize_pos : 0 < x.chunkSize.toNat := by
  obtain ⟨m, -, hm⟩ := x.chunkSize_eq
  rw [hm]
  exact Nat.two_pow_pos m

theorem chunkSize_eq_mul : x.chunkSize.toNat = 64 * x.perChunk := by
  obtain ⟨m, hm, hsize⟩ := x.chunkSize_eq
  obtain ⟨d, rfl⟩ := Nat.exists_eq_add_of_le hm
  have hdvd : 64 ∣ x.chunkSize.toNat := ⟨2 ^ d, by rw [hsize, Nat.pow_add]⟩
  exact (Nat.mul_div_cancel' hdvd).symm

theorem perChunk_pos : 0 < x.perChunk := by
  have hpos := x.chunkSize_pos
  rw [x.chunkSize_eq_mul] at hpos
  omega

theorem length_pos : 0 < x.length.toNat :=
  Nat.pos_of_ne_zero (toNat_ne_zero.1 x.length_ne_zero)

theorem packetCount_pos : 0 < x.packetCount := by
  have hpos := x.length_pos
  unfold packetCount
  omega

theorem lt_packetCount_iff {k : ℕ} : k < x.packetCount ↔ 64 * k < x.length.toNat := by
  unfold packetCount
  omega

theorem record_zero : x.record 0 = ⟨0, x.length, x.chunkSize⟩ := by
  simp [record]

/-- A value below the size of a chunk masks a number to its remainder. -/
theorem and_chunkSize
    (a : Word) : (a &&& (x.chunkSize - 1)).toNat = a.toNat % x.chunkSize.toNat := by
  obtain ⟨m, -, hm⟩ := x.chunkSize_eq
  have hone : (x.chunkSize - 1).toNat = 2 ^ m - 1 := by
    have hsub := toNat_sub_one (x := x.chunkSize) (toNat_ne_zero.2 (Nat.ne_of_gt x.chunkSize_pos))
    omega
  rw [BitVec.toNat_and, hone, hm, Nat.and_two_pow_sub_one_eq_mod]

variable {x} {k : ℕ}

theorem record_offset (hk : k < x.packetCount) : (x.record k).offset.toNat = 64 * k := by
  rw [lt_packetCount_iff] at hk
  have hfits := x.fits
  simp only [record, BitVec.toNat_ofNat]
  rw [Nat.min_eq_left (Nat.le_of_lt hk), Nat.mod_eq_of_lt (by omega)]

theorem record_offset_add (hk : k < x.packetCount) :
    ((x.record k).offset + 64).toNat = 64 * k + 64 := by
  have hlt := x.lt_packetCount_iff.1 hk
  have hfits := x.fits
  have hsize := x.chunkSize_eq_mul
  have hpos := x.perChunk_pos
  have h64 : (64 : Word).toNat = 64 := rfl
  rw [BitVec.toNat_add, record_offset hk, h64]
  exact Nat.mod_eq_of_lt (by omega)

theorem record_chunkOffset (hk : k < x.packetCount) :
    (x.record k).chunkOffset.toNat = 64 * (k % x.perChunk) := by
  have hand : (x.record k).chunkOffset.toNat =
      (x.record k).offset.toNat % x.chunkSize.toNat := x.and_chunkSize _
  rw [hand, record_offset hk, chunkSize_eq_mul, Nat.mul_mod_mul_left]

theorem record_chunkOffset_eq_zero (hk : k < x.packetCount) :
    (x.record k).chunkOffset = 0 ↔ k % x.perChunk = 0 := by
  rw [← BitVec.toNat_inj, record_chunkOffset hk]
  change 64 * (k % x.perChunk) = 0 ↔ _
  omega

/-- The chunk of a packet, and its place there. -/
theorem chunk_of_packet (x : StreamShape) (k : ℕ) :
    x.chunkSize.toNat * (k / x.perChunk) + 64 * (k % x.perChunk) = 64 * k := by
  rw [chunkSize_eq_mul, Nat.mul_assoc, ← Nat.mul_add, Nat.div_add_mod]

theorem packet_fits (x : StreamShape) (k : ℕ) :
    64 * (k % x.perChunk) + 64 ≤ x.chunkSize.toNat := by
  have hlt := Nat.mod_lt k x.perChunk_pos
  rw [chunkSize_eq_mul]
  omega

theorem length_le_of_last (hk : k + 1 = x.packetCount) : x.length.toNat ≤ 64 * (k + 1) := by
  by_contra hcon
  have := x.lt_packetCount_iff.2 (Nat.lt_of_not_le hcon)
  omega

theorem succ_lt_chunkCount_iff (x : StreamShape) (i : ℕ) :
    i + 1 < x.chunkCount ↔ x.chunkSize.toNat * (i + 1) < x.length.toNat := by
  have hpos := x.chunkSize_pos
  have hlen := x.length_pos
  rw [chunkCount, Nat.lt_iff_add_one_le, Nat.le_div_iff_mul_le hpos, Nat.add_mul, Nat.mul_comm,
    Nat.one_mul]
  omega

theorem chunkLength_eq_min (x : StreamShape) (i : ℕ) :
    x.chunkLength i = min x.chunkSize.toNat (x.length.toNat - x.chunkSize.toNat * i) := by
  have hiff := x.succ_lt_chunkCount_iff i
  rw [Nat.mul_succ] at hiff
  unfold chunkLength
  split <;> omega

/-- The last packet is in the last chunk. -/
theorem chunkCount_eq (hk : k + 1 = x.packetCount) : x.chunkCount = k / x.perChunk + 1 := by
  have hlt : 64 * k < x.length.toNat := x.lt_packetCount_iff.1 (by omega)
  have hle := length_le_of_last hk
  have hchunk := chunk_of_packet x k
  have hfits := packet_fits x k
  have hpos := x.chunkSize_pos
  unfold chunkCount
  refine Nat.div_eq_of_lt_le ?_ ?_
  · rw [Nat.add_mul, Nat.mul_comm]
    omega
  · rw [Nat.add_mul, Nat.add_mul, Nat.mul_comm]
    omega

/-- The chunk of a packet has a length, of a chunk at most. -/
theorem chunkLength_bounds (hk : k < x.packetCount) :
    0 < x.chunkLength (k / x.perChunk) ∧
      x.chunkLength (k / x.perChunk) ≤ x.chunkSize.toNat := by
  have hpos := x.chunkSize_pos
  have hlt := x.lt_packetCount_iff.1 hk
  have hchunk := chunk_of_packet x k
  rw [chunkLength_eq_min]
  omega

theorem chunkLength_toNat (hk : k < x.packetCount) :
    (BitVec.ofNat 32 (x.chunkLength (k / x.perChunk))).toNat =
      x.chunkLength (k / x.perChunk) := by
  have hle := (chunkLength_bounds hk).2
  have hfits := x.fits
  have hpos := x.length_pos
  rw [BitVec.toNat_ofNat, Nat.mod_eq_of_lt (by omega)]

theorem chunkLength_ne_zero (hk : k < x.packetCount) :
    BitVec.ofNat 32 (x.chunkLength (k / x.perChunk)) ≠ 0 := by
  rw [toNat_ne_zero, chunkLength_toNat hk]
  exact Nat.ne_of_gt (chunkLength_bounds hk).1

/-- `on_chunk` of an IN endpoint is called before the first packet of each chunk. -/
theorem chunkLen_in (hk : k < x.packetCount) :
    (x.record k).chunkLen true =
      if k % x.perChunk = 0 then BitVec.ofNat 32 (x.chunkLength (k / x.perChunk)) else 0 := by
  have hlt := x.lt_packetCount_iff.1 hk
  have hfits := x.fits
  have hoff := record_offset hk
  by_cases hstart : k % x.perChunk = 0
  · have hsum : ((x.record k).offset + x.chunkSize).toNat = 64 * k + x.chunkSize.toNat := by
      rw [BitVec.toNat_add, hoff, Nat.mod_eq_of_lt (by omega)]
    have hchunk := chunk_of_packet x k
    rw [hstart, Nat.mul_zero, Nat.add_zero] at hchunk
    have hmin := x.chunkLength_eq_min (k / x.perChunk)
    rw [hchunk] at hmin
    have hlen : (x.record k).chunkLen true =
        if x.length < (x.record k).offset + x.chunkSize then x.length - (x.record k).offset
        else x.chunkSize := by
      rw [UsbStreamTransfer.chunkLen, if_pos rfl,
        if_pos ((record_chunkOffset_eq_zero hk).2 hstart)]
      rfl
    rw [hlen, if_pos hstart]
    refine BitVec.eq_of_toNat_eq ?_
    rw [chunkLength_toNat hk]
    split
    · next hshort =>
      rw [BitVec.lt_def, hsum] at hshort
      rw [BitVec.toNat_sub_of_le (by rw [BitVec.le_def]; omega)]
      omega
    · next hshort =>
      rw [BitVec.lt_def, hsum] at hshort
      omega
  · rw [UsbStreamTransfer.chunkLen, if_pos rfl,
      if_neg (mt (record_chunkOffset_eq_zero hk).1 hstart), if_neg hstart]

/-- `on_chunk` of an OUT endpoint is called after the last packet of each chunk. -/
theorem chunkLen_out (hk : k < x.packetCount) :
    (x.record k).chunkLen false =
      if k + 1 = x.packetCount ∨ (k + 1) % x.perChunk = 0 then
        BitVec.ofNat 32 (x.chunkLength (k / x.perChunk))
      else 0 := by
  have hlt := x.lt_packetCount_iff.1 hk
  have hfits := x.fits
  have hpos := x.chunkSize_pos
  have hchunk := chunk_of_packet x k
  have hpacket := packet_fits x k
  have hmin := x.chunkLength_eq_min (k / x.perChunk)
  have hoff := record_offset_add hk
  have hlen : (x.record k).chunkLen false =
      if x.length ≤ (x.record k).offset + 64 then
        if x.length &&& (x.chunkSize - 1) ≠ 0 then x.length &&& (x.chunkSize - 1)
        else x.chunkSize
      else if x.chunkSize ≤ (x.record k).chunkOffset + 64 then x.chunkSize
      else 0 := rfl
  rw [hlen]
  refine BitVec.eq_of_toNat_eq ?_
  by_cases hlast : k + 1 = x.packetCount
  · have hle := length_le_of_last hlast
    have hand := x.and_chunkSize x.length
    rw [if_pos (by rw [BitVec.le_def, hoff]; omega),
      if_pos (show k + 1 = x.packetCount ∨ (k + 1) % x.perChunk = 0 from .inl hlast),
      chunkLength_toNat hk]
    -- the rest of the transfer is the last chunk, which may be whole
    have hrest : x.length.toNat = x.chunkLength (k / x.perChunk) +
        x.chunkSize.toNat * (k / x.perChunk) := by omega
    rcases Nat.lt_or_ge (x.chunkLength (k / x.perChunk)) x.chunkSize.toNat with hshort | hwhole
    · have hmod : x.length.toNat % x.chunkSize.toNat = x.chunkLength (k / x.perChunk) := by
        rw [hrest, Nat.add_mul_mod_self_left, Nat.mod_eq_of_lt hshort]
      rw [hmod] at hand
      rw [if_pos (toNat_ne_zero.2 (by omega)), hand]
    · have hmod : x.length.toNat % x.chunkSize.toNat = 0 := by
        rw [hrest, Nat.add_mul_mod_self_left,
          show x.chunkLength (k / x.perChunk) = x.chunkSize.toNat by omega, Nat.mod_self]
      rw [hmod] at hand
      rw [if_neg (not_not_intro (BitVec.eq_of_toNat_eq hand))]
      omega
  · have hmore := x.lt_packetCount_iff.1 (by omega : k + 1 < x.packetCount)
    have hsize := x.chunkSize_eq_mul
    have hend := succ_mod_eq_zero_iff k x.perChunk_pos
    have hoff' : ((x.record k).chunkOffset + 64).toNat = 64 * (k % x.perChunk) + 64 := by
      have h64 : (64 : Word).toNat = 64 := rfl
      rw [BitVec.toNat_add, record_chunkOffset hk, h64]
      exact Nat.mod_eq_of_lt (by omega)
    rw [if_neg (by rw [BitVec.le_def, hoff]; omega)]
    by_cases hchunkEnd : (k + 1) % x.perChunk = 0
    · rw [if_pos (by rw [BitVec.le_def, hoff']; omega),
        if_pos (show k + 1 = x.packetCount ∨ (k + 1) % x.perChunk = 0 from .inr hchunkEnd),
        chunkLength_toNat hk]
      omega
    · rw [if_neg (by rw [BitVec.le_def, hoff']; omega), if_neg (by tauto)]

theorem packetLength_toNat (x : StreamShape) (k : ℕ) :
    (BitVec.ofNat 32 (x.packetLength k)).toNat = x.packetLength k := by
  rw [BitVec.toNat_ofNat, packetLength, Nat.mod_eq_of_lt (by omega)]

/-- The length of a packet of an IN endpoint. -/
theorem dataLen_eq (hk : k < x.packetCount) :
    (x.record k).dataLen = BitVec.ofNat 32 (x.packetLength k) := by
  have hlt := x.lt_packetCount_iff.1 hk
  have hoff := record_offset hk
  have hoff' := record_offset_add hk
  refine BitVec.eq_of_toNat_eq ?_
  rw [packetLength_toNat, packetLength]
  have hlen : (x.record k).dataLen =
      if x.length < (x.record k).offset + 64 then x.length - (x.record k).offset else 64 := rfl
  rw [hlen]
  split
  · next hshort =>
    rw [BitVec.lt_def, hoff'] at hshort
    rw [BitVec.toNat_sub_of_le (by rw [BitVec.le_def]; omega)]
    omega
  · next hwhole =>
    rw [BitVec.lt_def, hoff'] at hwhole
    change 64 = _
    omega

theorem advance_eq (hk : k < x.packetCount) :
    (x.record k).advance (BitVec.ofNat 32 (x.packetLength k)) = x.record (k + 1) := by
  have hlt := x.lt_packetCount_iff.1 hk
  have hfits := x.fits
  have hpos := x.chunkSize_pos
  have hsum : (x.record k).offset + BitVec.ofNat 32 (x.packetLength k) =
      (x.record (k + 1)).offset := by
    refine BitVec.eq_of_toNat_eq ?_
    have hlen : x.packetLength k = min 64 (x.length.toNat - 64 * k) := rfl
    rw [BitVec.toNat_add, record_offset hk, packetLength_toNat]
    simp only [record, BitVec.toNat_ofNat]
    rw [Nat.mod_eq_of_lt (by omega), Nat.mod_eq_of_lt (by omega)]
    omega
  rw [UsbStreamTransfer.advance, hsum]
  rfl

theorem packet_length (x : StreamShape) (bytes : ℕ → Byte) (k : ℕ) :
    (x.packet bytes k).length = x.packetLength k := by
  simp [packet]

/-- The packets up to the last one of a chunk are the chunk. -/
theorem chunkLength_of_end (hk : k < x.packetCount)
    (hend : k + 1 = x.packetCount ∨ (k + 1) % x.perChunk = 0) :
    64 * (k % x.perChunk) + x.packetLength k = x.chunkLength (k / x.perChunk) := by
  have hmin := x.chunkLength_eq_min (k / x.perChunk)
  have hchunk := chunk_of_packet x k
  have hpacket := packet_fits x k
  have hlt := x.lt_packetCount_iff.1 hk
  have hlen : x.packetLength k = min 64 (x.length.toNat - 64 * k) := rfl
  by_cases hlast : k + 1 = x.packetCount
  · have hle := length_le_of_last hlast
    omega
  · have hmore := x.lt_packetCount_iff.1 (by omega : k + 1 < x.packetCount)
    have hsize := x.chunkSize_eq_mul
    have hmod := (succ_mod_eq_zero_iff k x.perChunk_pos).1 (hend.resolve_left hlast)
    omega

/-- The chunk buffer with the packets up to the `k`-th one, if it had those before. -/
theorem storePacket_record (bytes : ℕ → Byte) {buffer : ℕ → Byte} (hk : k < x.packetCount)
    (hbuffer : k % x.perChunk ≠ 0 → ∀ j < x.chunkSize.toNat, buffer j =
      if j < 64 * (k % x.perChunk) then bytes (x.chunkSize.toNat * (k / x.perChunk) + j) else 0)
    {j : ℕ} (hj : j < x.chunkSize.toNat) :
    (x.record k).storePacket (x.packet bytes k) buffer j =
      if j < 64 * (k % x.perChunk) + x.packetLength k then
        bytes (x.chunkSize.toNat * (k / x.perChunk) + j)
      else 0 := by
  have hchunk := chunk_of_packet x k
  have hstart := record_chunkOffset_eq_zero hk
  have hsize : (x.record k).chunkSize.toNat = x.chunkSize.toNat := rfl
  rw [UsbStreamTransfer.storePacket, record_chunkOffset hk, packet_length, hsize]
  by_cases hin : 64 * (k % x.perChunk) ≤ j ∧ j < 64 * (k % x.perChunk) + x.packetLength k
  · have hlt : j - 64 * (k % x.perChunk) < x.packetLength k := by omega
    rw [if_pos hin, if_pos hin.2]
    simp only [packet, List.getD_eq_getElem?_getD, List.getElem?_map,
      List.getElem?_range hlt, Option.map_some, Option.getD_some]
    congr 1
    omega
  · rw [if_neg hin]
    by_cases hnew : k % x.perChunk = 0
    · rw [if_pos ⟨hstart.2 hnew, hj⟩, if_neg (by omega)]
    · rw [if_neg (fun h => hnew (hstart.1 h.1)), hbuffer hnew j hj]
      by_cases hlt : j < 64 * (k % x.perChunk)
      · rw [if_pos hlt, if_pos (by omega)]
      · rw [if_neg hlt, if_neg (by omega)]

/-- A packet of an IN endpoint, if the chunk buffer has the chunk. -/
theorem loadPacket_record (bytes : ℕ → Byte) (hk : k < x.packetCount) :
    (x.record k).loadPacket (fun j => bytes (x.chunkSize.toNat * (k / x.perChunk) + j)) =
      x.packet bytes k := by
  have hchunk := chunk_of_packet x k
  rw [UsbStreamTransfer.loadPacket, dataLen_eq hk, packetLength_toNat, record_chunkOffset hk, packet]
  refine List.map_congr_left fun j _ => ?_
  congr 1
  omega

/-- The packets are the bytes one after the other. -/
theorem flatten_packets (x : StreamShape) (bytes : ℕ → Byte) :
    ((List.range x.packetCount).map (x.packet bytes)).flatten =
      (List.range x.length.toNat).map bytes := by
  have hinitial (m : ℕ) : ((List.range m).map (x.packet bytes)).flatten =
      (List.range (min (64 * m) x.length.toNat)).map bytes := by
    induction m with
    | zero => simp
    | succ m ih =>
      have hsum : min (64 * (m + 1)) x.length.toNat =
          min (64 * m) x.length.toNat + x.packetLength m := by
        unfold packetLength
        omega
      rw [List.range_succ, List.map_append, List.flatten_append, ih, hsum, List.range_add,
        List.map_append, List.map_map]
      congr 1
      rw [List.map_singleton, List.flatten_singleton, packet]
      refine List.map_congr_left fun j hj => ?_
      rw [List.mem_range, packetLength] at hj
      rw [Function.comp_apply]
      congr 1
      omega
  rw [hinitial]
  congr 2
  unfold packetCount
  omega

end StreamShape

end PicoBootrom
