import PicoBootrom.PicobootUsb

/-!
# The lengths of a PICOBOOT stream

The host chooses the length of a read or a write, and the code adds to it and to the offset of the
stream in 32 bits : `transfer_length + 63` for the number of packets, `offset + 64` for every
packet, and `offset + chunk_size` for every chunk of an IN stream. The sums are those of the numbers
up to a length of `2 ^ 32 - 64`, or `2 ^ 32 - 256` for a read (`stream_lengths_exact_iff`). A
command with a greater length is accepted all the same.
-/

set_option linter.unusedSectionVars false

namespace PicoBootrom

/-! ## The arithmetic of a packet -/

namespace UsbStreamTransfer

variable (S : UsbStreamTransfer)

/-- `chunk_len`, computed with numbers. -/
def exactChunkLen (isIn : Bool) : ℕ :=
  let chunkOffset := S.offset.toNat % S.chunkSize.toNat
  if isIn then
    if chunkOffset = 0 then min S.chunkSize.toNat (S.transferLength.toNat - S.offset.toNat) else 0
  else if S.transferLength.toNat ≤ S.offset.toNat + 64 then
    if S.transferLength.toNat % S.chunkSize.toNat ≠ 0 then
      S.transferLength.toNat % S.chunkSize.toNat
    else S.chunkSize.toNat
  else if S.chunkSize.toNat ≤ chunkOffset + 64 then S.chunkSize.toNat
  else 0

/-- The comparisons with `transfer_length` that are made for a packet are those of the numbers, and
the lengths of the packet and of its chunk are too. -/
structure Exact (isIn : Bool) : Prop where
  packetEnd : if isIn then
      S.transferLength < S.offset + 64 ↔ S.transferLength.toNat < S.offset.toNat + 64
    else S.transferLength ≤ S.offset + 64 ↔ S.transferLength.toNat ≤ S.offset.toNat + 64
  chunkEnd : isIn = true → S.chunkOffset = 0 →
    (S.transferLength < S.offset + S.chunkSize ↔
      S.transferLength.toNat < S.offset.toNat + S.chunkSize.toNat)
  chunkLen : (S.chunkLen isIn).toNat = S.exactChunkLen isIn
  dataLen : isIn = true → S.dataLen.toNat = min 64 (S.transferLength.toNat - S.offset.toNat)

variable {S} {isIn : Bool}

theorem toNat_and_page (a : Word) : (a &&& (flashPageSize - 1)).toNat = a.toNat % 256 := by
  rw [BitVec.toNat_and]
  exact Nat.and_two_pow_sub_one_eq_mod a.toNat 8

theorem offset_add (h : S.offset.toNat + 64 < 2 ^ 32) :
    (S.offset + 64).toNat = S.offset.toNat + 64 := by
  have h64 : (64 : Word).toNat = 64 := rfl
  rw [BitVec.toNat_add, h64, Nat.mod_eq_of_lt h]

theorem dataLen_toNat (h : S.offset.toNat + 64 < 2 ^ 32)
    (hle : S.offset.toNat ≤ S.transferLength.toNat) :
    S.dataLen.toNat = min 64 (S.transferLength.toNat - S.offset.toNat) := by
  have hsum := offset_add h
  unfold dataLen
  split
  · next hlt =>
    rw [BitVec.lt_def, hsum] at hlt
    rw [BitVec.toNat_sub_of_le (by rwa [BitVec.le_def])]
    omega
  · next hge =>
    rw [BitVec.lt_def, hsum] at hge
    change 64 = _
    omega

/-- A packet whose sums do not wrap. -/
theorem exact_of_fits (hsize : S.chunkSize = flashPageSize) (h : S.offset.toNat + 64 < 2 ^ 32)
    (hin : isIn = true → S.offset.toNat ≤ S.transferLength.toNat ∧
      (S.offset.toNat % 256 = 0 → S.offset.toNat + 256 < 2 ^ 32)) : S.Exact isIn := by
  have hsum := offset_add h
  have hpage : flashPageSize.toNat = 256 := rfl
  have hoffset : S.chunkOffset.toNat = S.offset.toNat % 256 := by
    rw [chunkOffset, hsize, toNat_and_page]
  have hzero : S.chunkOffset = 0 ↔ S.offset.toNat % 256 = 0 := by
    rw [← hoffset, ← BitVec.toNat_inj]
    rfl
  have hchunkSum (hstart : S.offset.toNat % 256 = 0) (hisIn : isIn = true) :
      (S.offset + S.chunkSize).toNat = S.offset.toNat + 256 := by
    rw [BitVec.toNat_add, hsize, hpage, Nat.mod_eq_of_lt ((hin hisIn).2 hstart)]
  refine ⟨?_, fun hisIn hstart => ?_, ?_, fun hisIn => dataLen_toNat h (hin hisIn).1⟩
  · cases isIn with
    | true => rw [if_pos rfl, BitVec.lt_def, hsum]
    | false => rw [if_neg Bool.false_ne_true, BitVec.le_def, hsum]
  · rw [BitVec.lt_def, hchunkSum (hzero.1 hstart) hisIn, hsize, hpage]
  · unfold UsbStreamTransfer.chunkLen exactChunkLen
    simp only [hsize, hpage] at hchunkSum ⊢
    cases isIn with
    | true =>
      simp only [if_true, hzero]
      split
      · next hstart =>
        have hle := (hin rfl).1
        have hlt : S.transferLength < S.offset + flashPageSize ↔
            S.transferLength.toNat < S.offset.toNat + 256 := by
          rw [BitVec.lt_def, hchunkSum hstart rfl]
        simp only [hlt]
        split
        · rw [BitVec.toNat_sub_of_le (by rwa [BitVec.le_def])]
          omega
        · rw [hpage]
          omega
      · rfl
    | false =>
      have hmask : S.transferLength &&& (flashPageSize - 1) ≠ 0 ↔
          S.transferLength.toNat % 256 ≠ 0 := by
        rw [← toNat_and_page, ne_eq, ne_eq, ← BitVec.toNat_inj]
        rfl
      have hnext : (S.chunkOffset + 64).toNat = S.offset.toNat % 256 + 64 := by
        have h64 : (64 : Word).toNat = 64 := rfl
        rw [BitVec.toNat_add, hoffset, h64, Nat.mod_eq_of_lt (by omega)]
      simp only [Bool.false_eq_true, if_false, BitVec.le_def, hsum, hmask, hnext, hpage]
      split
      · split
        · exact toNat_and_page _
        · rfl
      · split <;> rfl

end UsbStreamTransfer

/-! ## The packets of a stream -/

/-- The first `k` packets of a stream, each with what its handler does at the end of it. Whatever
else happens meanwhile, to the chunk buffer, the tasks and the commands, leaves the record alone.
The packets of an OUT stream come from the host. -/
inductive StreamPackets (isIn : Bool) (K₀ : PicobootClient) : ℕ → PicobootClient → Prop
  | start : StreamPackets isIn K₀ 0 K₀
  | other {k : ℕ} {K K' : PicobootClient} (h : StreamPackets isIn K₀ k K)
      (hrecord : K'.stream = K.stream) : StreamPackets isIn K₀ k K'
  | packet {k : ℕ} {K : PicobootClient} (h : StreamPackets isIn K₀ k K) (packet : List Byte)
      (hlen : packet.length ≤ 64) :
      StreamPackets isIn K₀ (k + 1) ((picobootStream.handler isIn).finish K packet).1

section Packets

variable {isIn : Bool} {K₀ K : PicobootClient} {L : Word} {k : ℕ}

/-- The record after `k` packets, as long as the sums do not wrap. -/
structure Streamed (isIn : Bool) (L : Word) (k : ℕ) (S : UsbStreamTransfer) : Prop where
  length : S.transferLength = L
  size : S.chunkSize = flashPageSize
  offset_le : S.offset.toNat ≤ 64 * k
  offset_in : isIn = true → S.offset.toNat = min (64 * k) L.toNat

theorem Streamed.zero : Streamed isIn L 0 ⟨0, L, flashPageSize⟩ :=
  ⟨rfl, rfl, Nat.le_refl 0, fun _ => by simp⟩

/-- One packet. -/
theorem Streamed.packet (h : Streamed isIn L k K.stream) (hfits : 64 * k + 64 < 2 ^ 32)
    {packet : List Byte} (hlen : packet.length ≤ 64) :
    Streamed isIn L (k + 1) ((picobootStream.handler isIn).finish K packet).1.stream := by
  have hle := h.offset_le
  cases isIn with
  | true =>
    have hoffset := h.offset_in rfl
    have hdata : K.stream.dataLen.toNat = min 64 (L.toNat - K.stream.offset.toNat) := by
      rw [UsbStreamTransfer.dataLen_toNat (by omega) (by rw [h.length]; omega), h.length]
    have hsum : (K.stream.offset + K.stream.dataLen).toNat =
        K.stream.offset.toNat + K.stream.dataLen.toNat := by
      rw [BitVec.toNat_add, Nat.mod_eq_of_lt (by omega)]
    refine ⟨h.length, h.size, ?_, fun _ => ?_⟩
    · change (K.stream.offset + K.stream.dataLen).toNat ≤ _
      omega
    · change (K.stream.offset + K.stream.dataLen).toNat = _
      omega
  | false =>
    have hsum : (K.stream.offset + BitVec.ofNat 32 packet.length).toNat =
        K.stream.offset.toNat + packet.length := by
      rw [BitVec.toNat_add, BitVec.toNat_ofNat, Nat.mod_eq_of_lt (by omega), Nat.mod_eq_of_lt
        (by omega)]
    refine ⟨h.length, h.size, ?_, fun hin => by cases hin⟩
    change (K.stream.offset + BitVec.ofNat 32 packet.length).toNat ≤ _
    omega

theorem StreamPackets.streamed (h : StreamPackets isIn K₀ k K)
    (hrecord : K₀.stream = ⟨0, L, flashPageSize⟩) (hfits : 64 * k < 2 ^ 32) :
    Streamed isIn L k K.stream := by
  induction h with
  | start =>
    rw [hrecord]
    exact .zero
  | other h hsame ih =>
    rw [hsame]
    exact ih hfits
  | packet h packet hlen ih => exact (ih (by omega)).packet (by omega) hlen

/-- Every number of packets occurs. -/
theorem StreamPackets.exists (isIn : Bool) (K₀ : PicobootClient) (k : ℕ) :
    ∃ K, StreamPackets isIn K₀ k K := by
  induction k with
  | zero => exact ⟨K₀, .start⟩
  | succ k ih =>
    obtain ⟨K, h⟩ := ih
    exact ⟨_, h.packet [] (Nat.zero_le 64)⟩

end Packets

/-! ## Accepted commands -/

/-- The stream that was started has the packets of its length, and the arithmetic of each of them is
that of the numbers. -/
structure LengthsExact (isIn : Bool) (L : Word) (s : PicobootState) : Prop where
  submit : (s.transfer .stream).remainingPacketsToSubmit.toNat = (L.toNat + 63) / 64
  handle : (s.transfer .stream).remainingPacketsToHandle.toNat = (L.toNat + 63) / 64
  exact : ∀ k K, StreamPackets isIn s.client k K → k < (L.toNat + 63) / 64 → K.stream.Exact isIn

/-- The greatest length whose sums do not wrap. -/
def PicobootCmd.maxLength (cmd : PicobootCmd) : ℕ :=
  if cmd.id = 5 then 2 ^ 32 - 64 else 2 ^ 32 - 256

section Lengths

variable {s : PicobootState} {packet : List Byte} {L : Word} {isIn : Bool} {depth : ℕ}

/-- `(transfer_length + 63) / 64`. -/
theorem packetCount_toNat (h : L.toNat ≤ 2 ^ 32 - 64) :
    ((L + 63) / 64).toNat = (L.toNat + 63) / 64 := by
  have h63 : (63 : Word).toNat = 63 := rfl
  have h64 : (64 : Word).toNat = 64 := rfl
  rw [BitVec.toNat_udiv, BitVec.toNat_add, h63, h64, Nat.mod_eq_of_lt (by omega)]

theorem packetCount_wraps (h : 2 ^ 32 - 64 < L.toNat) : ((L + 63) / 64).toNat = 0 := by
  have h63 : (63 : Word).toNat = 63 := rfl
  have h64 : (64 : Word).toNat = 64 := rfl
  have hlt := L.isLt
  rw [BitVec.toNat_udiv, BitVec.toNat_add, h63, h64]
  omega

/-- A stream that was set up for `L` bytes, before its first packet. -/
theorem lengthsExact_iff
    (hsubmit : (s.transfer .stream).remainingPacketsToSubmit = (L + 63) / 64)
    (hhandle : (s.transfer .stream).remainingPacketsToHandle = (L + 63) / 64)
    (hrecord : s.client.stream = ⟨0, L, flashPageSize⟩) (hL : L ≠ 0) :
    LengthsExact isIn L s ↔ L.toNat ≤ if isIn then 2 ^ 32 - 256 else 2 ^ 32 - 64 := by
  have hpos : L.toNat ≠ 0 := toNat_ne_zero.1 hL
  constructor
  · intro h
    have hle : L.toNat ≤ 2 ^ 32 - 64 := by
      by_contra hwraps
      have hcount := h.submit
      rw [hsubmit, packetCount_wraps (by omega)] at hcount
      omega
    cases isIn with
    | false => exact hle
    | true =>
      by_contra hmore
      rw [if_pos rfl] at hmore
      -- the first packet of the last chunk, whose end is at `2 ^ 32`
      obtain ⟨K, hK⟩ := StreamPackets.exists true s.client (2 ^ 26 - 4)
      have hstreamed := hK.streamed hrecord (by omega)
      have hoffset : K.stream.offset = 2 ^ 32 - 256 := by
        refine BitVec.eq_of_toNat_eq ?_
        rw [hstreamed.offset_in rfl]
        change _ = 4294967040
        omega
      have hend := (h.exact _ K hK (by omega)).chunkEnd rfl (by
        rw [UsbStreamTransfer.chunkOffset, hoffset, hstreamed.size]
        rfl)
      rw [hoffset, hstreamed.size, hstreamed.length] at hend
      have hlt := L.isLt
      have hwrapped : ¬L < (2 ^ 32 - 256 : Word) + flashPageSize := by
        rw [BitVec.lt_def]
        exact Nat.not_lt_zero _
      refine hwrapped (hend.2 ?_)
      change L.toNat < 4294967040 + 256
      omega
  · intro h
    have hle : L.toNat ≤ 2 ^ 32 - 64 := by split at h <;> omega
    refine ⟨?_, ?_, fun k K hK hk => ?_⟩
    · rw [hsubmit, packetCount_toNat hle]
    · rw [hhandle, packetCount_toNat hle]
    · have hstreamed := hK.streamed hrecord (by omega)
      have hoffset := hstreamed.offset_le
      refine UsbStreamTransfer.exact_of_fits hstreamed.size (by omega) fun hin => ?_
      have heq := hstreamed.offset_in hin
      rw [if_pos hin] at h
      rw [hstreamed.length]
      exact ⟨by omega, fun hstart => by omega⟩

/-- A read or a write is accepted with any length. The number of packets its stream is set up for,
and the comparisons for each of them, are right if and only if the length is not among the last 64
ones for a write, and the last 256 ones for a read. -/
theorem stream_lengths_exact_iff (hw : PicobootWired s)
    (hpacket : s.outPacket .picobootOut = packet)
    (h : (PicobootCmd.ofPacket packet).Accepted packet.length)
    (hid : (PicobootCmd.ofPacket packet).bCmdId ≠ pcReboot)
    (hlength : (PicobootCmd.ofPacket packet).dTransferLength ≠ 0) (hdepth : 1 ≤ depth) :
    ∃ s', picobootCmdPacketInternal (usbCalls picobootDriver depth) .picobootOut s = .ok s' ∧
      (LengthsExact (decide ((PicobootCmd.ofPacket packet).id ≠ 5))
          (PicobootCmd.ofPacket packet).dTransferLength s' ↔
        (PicobootCmd.ofPacket packet).dTransferLength.toNat ≤
          (PicobootCmd.ofPacket packet).maxLength) := by
  have hinternal : picobootCmdPacketInternal (usbCalls picobootDriver depth) .picobootOut s =
      picobootCmdAction (usbCalls picobootDriver depth)
        (s.client.picoboot.readCommand packet.length (PicobootCmd.ofPacket packet)).2
        s.readPacket := by
    rw [← hpacket]
    rfl
  rw [hinternal, readCommand_of_accepted h]
  obtain ⟨hin, -, -⟩ := hw.readPacket_endpoint .picobootIn
  generalize PicobootCmd.ofPacket packet = cmd at hid hlength ⊢
  generalize s.readPacket = s₁ at hin ⊢
  have hsubmit (e : PicobootEndpoint) : ((setupPicobootStream e cmd.dTransferLength
      s₁).transfer .stream).remainingPacketsToSubmit = (cmd.dTransferLength + 63) / 64 := by
    simp [setupPicobootStream, UsbStream.setupTransfer]
  have hhandle (e : PicobootEndpoint) : ((setupPicobootStream e cmd.dTransferLength
      s₁).transfer .stream).remainingPacketsToHandle = (cmd.dTransferLength + 63) / 64 := by
    simp [setupPicobootStream, UsbStream.setupTransfer]
  unfold PicobootCmd.action PicobootCmd.maxLength
  rw [if_neg hid, if_neg hlength]
  by_cases hwrite : cmd.id = 5
  · refine ⟨usbChainTransfer .picobootOut .stream
      (setupPicobootStream .picobootOut cmd.dTransferLength s₁), if_pos ?_, ?_⟩
    · rw [if_pos hwrite]
      decide
    · rw [if_pos hwrite, hwrite]
      exact lengthsExact_iff (hsubmit .picobootOut) (hhandle .picobootOut) rfl hlength
  · have hstart := usbStartTransfer_picobootStream
      (s := setupPicobootStream .picobootIn cmd.dTransferLength s₁) hlength hin rfl rfl hdepth
    refine ⟨_, (if_neg ?_).trans hstart, ?_⟩
    · rw [if_neg hwrite]
      decide
    · have hdir : decide (cmd.id ≠ 5) = true := decide_eq_true hwrite
      rw [if_neg hwrite, hdir]
      refine lengthsExact_iff ?_ ?_ ?_ hlength
      · split
        · simpa using hsubmit .picobootIn
        · simpa using hsubmit .picobootIn
      · split
        · simpa using hhandle .picobootIn
        · simpa using hhandle .picobootIn
      · split <;> rfl

/-- A read of `0xffffffc1` bytes at `0x20000000`. -/
def longRead : List Byte :=
  [0x0b, 0xd1, 0x1f, 0x43, 1, 0, 0, 0, 0x84, 8, 0, 0, 0xc1, 0xff, 0xff, 0xff,
    0, 0, 0, 0x20, 0xc1, 0xff, 0xff, 0xff, 0, 0, 0, 0, 0, 0, 0, 0]

/-- `stream_lengths_exact_iff`, for a read of four bytes. -/
theorem stream_lengths_exact_four :
    ∃ s', picobootCmdPacketInternal (usbCalls picobootDriver 1) .picobootOut
        (picobootReceived (commandPacket 0x84 8 4)) = .ok s' ∧
      (LengthsExact (decide ((PicobootCmd.ofPacket (commandPacket 0x84 8 4)).id ≠ 5))
          (PicobootCmd.ofPacket (commandPacket 0x84 8 4)).dTransferLength s' ↔
        (PicobootCmd.ofPacket (commandPacket 0x84 8 4)).dTransferLength.toNat ≤
          (PicobootCmd.ofPacket (commandPacket 0x84 8 4)).maxLength) :=
  stream_lengths_exact_iff (picobootReceived_wired (commandPacket 0x84 8 4)) rfl
    ⟨rfl, rfl, rfl, .inr ⟨by decide, rfl⟩⟩ (by decide) (by decide) (Nat.le_refl 1)

/-- A read of `0xffffffc1` bytes is accepted and in progress, with a transfer of no packets. -/
theorem long_read_without_packets :
    (PicobootCmd.ofPacket longRead).Accepted longRead.length ∧
      (PicobootCmd.ofPacket longRead).dTransferLength = 0xffffffc1 ∧
      ∃ s', picobootCmdPacketInternal (usbCalls picobootDriver 1) .picobootOut
          (picobootReceived longRead) = .ok s' ∧
        s'.client.status.bInProgress = true ∧
        (s'.endpoint .picobootIn).currentTransfer = some .stream ∧
        (s'.transfer .stream).remainingPacketsToHandle = 0 ∧ ¬LengthsExact true 0xffffffc1 s' := by
  refine ⟨⟨rfl, rfl, rfl, .inr ⟨by decide, rfl⟩⟩, rfl, _, rfl, rfl, rfl, by decide, fun h => ?_⟩
  have hcount := h.handle
  revert hcount
  decide

end Lengths

end PicoBootrom
