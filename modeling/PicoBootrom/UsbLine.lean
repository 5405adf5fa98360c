import PicoBootrom.UsbDevice

/-!
# A transfer on a double-buffered endpoint

The state of one transfer that runs on one endpoint, apart from everything else : `place` puts an
endpoint, a transfer and the state of the user of the library into a state, and the functions of
the library map a placed state to a placed state.

`UsbLine` relates the counters and the flags of the endpoint and of the transfer to the number of
buffers that were given to the hardware, the number it has returned, and the number of those that
`remaining_packets_to_handle` does not count yet. The two buffers alternate, so that the `k`-th
buffer given is also the buffer of the `k`-th packet.
-/

namespace PicoBootrom

variable {ε τ ν κ : Type}

/-! ## Placed states -/

section Place

variable [DecidableEq ε] [DecidableEq τ]

namespace UsbState

/-- The state with the given endpoint, transfer and state of the user of the library. -/
def place (s : UsbState ε τ ν κ) (e : ε) (t : τ) (E : UsbEndpoint τ ν) (T : UsbTransfer ν)
    (K : κ) : UsbState ε τ ν κ :=
  { s with
    endpoint := Function.update s.endpoint e E
    transfer := Function.update s.transfer t T
    client := K }

variable (s : UsbState ε τ ν κ) (e : ε) (t : τ) (E : UsbEndpoint τ ν) (T : UsbTransfer ν) (K : κ)

@[simp] theorem place_endpoint : (s.place e t E T K).endpoint e = E := by
  simp [place]

@[simp] theorem place_transfer : (s.place e t E T K).transfer t = T := by
  simp [place]

@[simp] theorem place_client : (s.place e t E T K).client = K :=
  rfl

@[simp] theorem place_modifyEndpoint (f : UsbEndpoint τ ν → UsbEndpoint τ ν) :
    (s.place e t E T K).modifyEndpoint e f = s.place e t (f E) T K := by
  simp [place, modifyEndpoint]

@[simp] theorem place_modifyTransfer (f : UsbTransfer ν → UsbTransfer ν) :
    (s.place e t E T K).modifyTransfer t f = s.place e t E (f T) K := by
  simp [place, modifyTransfer]

@[simp] theorem place_modifyClient (f : κ → κ) :
    (s.place e t E T K).modifyClient f = s.place e t E T (f K) :=
  rfl

theorem place_completeTransfer :
    (s.place e t E T K).completeTransfer e t =
      s.place e t (E.setTransfer none) T.complete K := by
  simp [completeTransfer]

theorem place_self : s.place e t (s.endpoint e) (s.transfer t) s.client = s := by
  simp [place]

end UsbState

variable {c : UsbCalls ε τ ν κ} {s : UsbState ε τ ν κ} {e : ε} {t : τ} {E : UsbEndpoint τ ν}
  {T : UsbTransfer ν} {K : κ}

theorem usbGiveBuffer_place (h : E.currentTransfer = some t) (len : Word) :
    usbGiveBuffer e len (s.place e t E T K) =
      .ok (s.place e t (E.giveBuffer len) T.submitOne K) := by
  simp [usbGiveBuffer, h]

theorem usbCallOnPacket_place (h : E.currentTransfer = some t) :
    usbCallOnPacket c e (s.place e t E T K) =
      c.call T.type.onPacket e (s.place e t E (T.setOutstanding true) K) := by
  simp [usbCallOnPacket, h]

theorem usbCheckForTransferCompletion_place_of_pending (h : E.currentTransfer = some t)
    (hhalt : E.haltState = .none)
    (hT : T.remainingPacketsToHandle ≠ 0 ∨ T.outstandingPacket = true) :
    usbCheckForTransferCompletion c e (s.place e t E T K) = .ok (s.place e t E T K) := by
  have hnot : (s.place e t E T K).completes e t = false := by
    rcases hT with hT | hT
    · have hrem := decide_eq_false hT
      simp only [UsbState.completes, UsbState.place_endpoint, UsbState.place_transfer, hhalt, hrem]
      rfl
    · simp [UsbState.completes, hhalt, hT]
  simp [usbCheckForTransferCompletion, h, hnot]

theorem usbGiveAsManyBuffersAsPossible_of_not_canGive {s : UsbState ε τ ν κ}
    (h : s.canGive e = false) : usbGiveAsManyBuffersAsPossible c e s = .ok s := by
  simp [usbGiveAsManyBuffersAsPossible, h]

theorem usbGiveAsManyBuffersAsPossible_place_out (driver : UsbDriver ε τ ν κ) (depth : ℕ)
    (hcan : (s.place e t E T K).canGive e = true) (h : E.currentTransfer = some t)
    (hin : E.isIn = false) :
    usbGiveAsManyBuffersAsPossible (usbCalls driver (depth + 1)) e (s.place e t E T K) =
      usbGiveAsManyBuffersAsPossible (usbCalls driver depth) e
        (s.place e t (E.giveBuffer (E.bufferSize.setWidth 32)) T.submitOne K) := by
  rw [usbGiveAsManyBuffersAsPossible, if_pos hcan]
  simp only [UsbState.place_endpoint, hin, usbGiveBuffer_place h, bind, Except.bind]
  rfl

/-- `usb_packet_done` on an OUT endpoint, when the transfer is not completed by it. -/
theorem usbPacketDone_place_out (h : E.currentTransfer = some t) (hhalt : E.haltState = .none)
    (hT : T.remainingPacketsToHandle ≠ 0) (hcompleted : T.completed = false)
    (hin : E.isIn = false) :
    usbPacketDone c e (s.place e t E T K) =
      if T.packetQueued then
        usbHandleTransfer c e (!E.currentTakeBuffer)
          (s.place e t E.dropBuffer.disownOne ((T.setOutstanding false).setQueued false) K)
      else usbGiveAsManyBuffersAsPossible c e
        (s.place e t E.dropBuffer (T.setOutstanding false) K) := by
  have hcheck : usbCheckForTransferCompletion c e (s.place e t E (T.setOutstanding false) K) =
      .ok (s.place e t E (T.setOutstanding false) K) :=
    usbCheckForTransferCompletion_place_of_pending h hhalt (Or.inl hT)
  simp [usbPacketDone, h, hcheck, hin, hcompleted, bind, Except.bind]

/-- `usb_packet_done` on an IN endpoint, when the transfer is not completed by it : the packet is
given to the hardware. -/
theorem usbPacketDone_place_in (h : E.currentTransfer = some t) (hhalt : E.haltState = .none)
    (hT : T.remainingPacketsToHandle ≠ 0) (hcompleted : T.completed = false)
    (hin : E.isIn = true) :
    usbPacketDone c e (s.place e t E T K) =
      if T.packetQueued then
        usbHandleTransfer c e (!E.currentTakeBuffer)
          (s.place e t (E.giveBuffer (E.currentHwBuffer.dataLen.setWidth 32)).dropBuffer.disownOne
            ((T.setOutstanding false).submitOne.setQueued false) K)
      else usbGiveAsManyBuffersAsPossible c e
        (s.place e t (E.giveBuffer (E.currentHwBuffer.dataLen.setWidth 32)).dropBuffer
          (T.setOutstanding false).submitOne K) := by
  have hcheck : usbCheckForTransferCompletion c e (s.place e t E (T.setOutstanding false) K) =
      .ok (s.place e t E (T.setOutstanding false) K) :=
    usbCheckForTransferCompletion_place_of_pending h hhalt (Or.inl hT)
  simp [usbPacketDone, h, hcheck, hin, hcompleted, usbGiveBuffer_place h, bind, Except.bind]

end Place

/-! ## The two buffers -/

/-- The buffer of the `k`-th packet, if `first` is the buffer of packet 0. -/
def nthBuffer (first : Bool) (k : ℕ) : Bool := xor first (decide (k % 2 = 1))

@[simp] theorem nthBuffer_zero (first : Bool) : nthBuffer first 0 = first := by
  simp [nthBuffer]

theorem nthBuffer_succ (first : Bool) (k : ℕ) :
    nthBuffer first (k + 1) = !nthBuffer first k := by
  rcases Nat.mod_two_eq_zero_or_one k with h | h <;> simp [nthBuffer, h, Nat.add_mod]

/-! ## The counters -/

/-- What does not change while a transfer runs : the transfer, the direction of the endpoint and
what it is linked to, the number of packets, the buffer of the first packet, and what is called. -/
structure LineSetup (τ ν : Type) where
  transfer : τ
  isIn : Bool
  defaultTransfer : Option τ
  onStallChange : Option ν
  count : ℕ
  first : Bool
  onPacket : ν
  onComplete : Option ν
  chain : Option τ

/-- A transfer runs : `submitted` buffers were given to the hardware, it has returned `returned` of
them, and `due` of those are still to be handled. -/
structure UsbLine (p : LineSetup τ ν) (E : UsbEndpoint τ ν) (T : UsbTransfer ν)
    (submitted returned due : ℕ) : Prop where
  current : E.currentTransfer = some p.transfer
  isIn : E.isIn = p.isIn
  defaultTransfer : E.defaultTransfer = p.defaultTransfer
  onStallChange : E.onStallChange = p.onStallChange
  doubleBuffered : E.doubleBuffered = true
  notHalted : E.haltState = .none
  chain : E.chainTransfer = p.chain
  onPacket : T.type.onPacket = .driver p.onPacket
  onComplete : T.onComplete = p.onComplete
  notCompleted : T.completed = false
  submit : T.remainingPacketsToSubmit.toNat + submitted = p.count
  handle : T.remainingPacketsToHandle.toNat + returned = p.count + due
  owned : E.ownedBufferCount.toNat + submitted = returned + 2
  available : E.hw.available.map (·.which) =
    (List.range' returned (submitted - returned)).map (nthBuffer p.first)
  give : E.currentGiveBuffer = nthBuffer p.first submitted
  returned_le : returned ≤ submitted

section Counters

variable {p : LineSetup τ ν} {E : UsbEndpoint τ ν} {T : UsbTransfer ν} {submitted returned due : ℕ}

theorem toNat_sub_one {w : ℕ} {x : BitVec w} (h : x ≠ 0) : (x - 1).toNat + 1 = x.toNat := by
  have hx : x.toNat ≠ 0 := fun h0 => h (BitVec.eq_of_toNat_eq (by simpa using h0))
  have hw : w ≠ 0 := by
    rintro rfl
    exact h (Subsingleton.elim _ _)
  have hlt := x.isLt
  have h1 : 1 < 2 ^ w := Nat.one_lt_two_pow hw
  have hone : (1 : BitVec w).toNat = 1 := by
    simp only [BitVec.ofNat_eq_ofNat, BitVec.toNat_ofNat, Nat.mod_eq_of_lt h1]
  rw [BitVec.toNat_sub, hone]
  rw [show 2 ^ w - 1 + x.toNat = (x.toNat - 1) + 2 ^ w by omega, Nat.add_mod_right,
    Nat.mod_eq_of_lt (by omega)]
  omega

theorem toNat_ne_zero {w : ℕ} {x : BitVec w} : x ≠ 0 ↔ x.toNat ≠ 0 := by
  refine ⟨fun h h0 => h (BitVec.eq_of_toNat_eq (by simpa using h0)), fun h h0 => h (by simp [h0])⟩

namespace UsbLine

variable (h : UsbLine p E T submitted returned due)
include h

theorem submitted_le : submitted ≤ p.count := by
  have := h.submit
  omega

theorem submitted_le_returned : submitted ≤ returned + 2 := by
  have := h.owned
  omega

theorem owned_ne_zero_iff : E.ownedBufferCount ≠ 0 ↔ submitted < returned + 2 := by
  have := h.owned
  rw [toNat_ne_zero]
  omega

theorem submit_ne_zero_iff : T.remainingPacketsToSubmit ≠ 0 ↔ submitted < p.count := by
  have := h.submit
  rw [toNat_ne_zero]
  omega

theorem handle_ne_zero_iff : T.remainingPacketsToHandle ≠ 0 ↔ returned < p.count + due := by
  have := h.handle
  rw [toNat_ne_zero]
  omega

/-- Whether the loop in `_usb_give_as_many_buffers_as_possible` goes on. -/
theorem canGive [DecidableEq ε] [DecidableEq τ] {s : UsbState ε τ ν κ} {e : ε} {K : κ} :
    (s.place e p.transfer E T K).canGive e = true ↔
      submitted < p.count ∧ submitted < returned + 2 := by
  simp [UsbState.canGive, h.current, h.notHalted, ← h.owned_ne_zero_iff, ← h.submit_ne_zero_iff]

/-- A buffer is given to the hardware. -/
theorem giveBuffer (len : Word) (hcount : submitted < p.count) (howned : submitted < returned + 2) :
    UsbLine p (E.giveBuffer len) T.submitOne (submitted + 1) returned due where
  current := h.current
  isIn := h.isIn
  defaultTransfer := h.defaultTransfer
  onStallChange := h.onStallChange
  doubleBuffered := h.doubleBuffered
  notHalted := rfl
  chain := h.chain
  onPacket := h.onPacket
  onComplete := h.onComplete
  notCompleted := h.notCompleted
  submit := by
    have := toNat_sub_one (h.submit_ne_zero_iff.2 hcount)
    have := h.submit
    simp only [UsbTransfer.submitOne_remainingPacketsToSubmit]
    omega
  handle := h.handle
  owned := by
    have := toNat_sub_one (h.owned_ne_zero_iff.2 howned)
    have := h.owned
    simp only [UsbEndpoint.giveBuffer_ownedBufferCount]
    omega
  available := by
    have hle := h.returned_le
    rw [show submitted + 1 - returned = submitted - returned + 1 by omega, List.range'_concat]
    simp [UsbEndpoint.nextGiven, h.available, h.give,
      show returned + (submitted - returned) = submitted by omega]
  give := by
    simp [h.doubleBuffered, h.give, nthBuffer_succ]
  returned_le := by
    have := h.returned_le
    omega

/-- The hardware returns the first of its buffers. -/
theorem bufferDone (packet : List Byte) (hlt : returned < submitted) :
    ∃ E', E.bufferDone packet = some (nthBuffer p.first returned, E') ∧
      UsbLine p E'.ownOne T submitted (returned + 1) (due + 1) ∧
      E'.currentHwBuffer = E.currentHwBuffer ∧ E'.currentTakeBuffer = E.currentTakeBuffer ∧
      E'.hw.given = E.hw.given ∧
      E'.hw.dpram = if E.isIn then E.hw.dpram
        else Function.update E.hw.dpram (nthBuffer p.first returned) packet := by
  obtain ⟨k, hk⟩ : ∃ k, submitted - returned = k + 1 := ⟨submitted - returned - 1, by omega⟩
  have havail := h.available
  rw [hk, List.range'_succ, List.map_cons] at havail
  cases hb : E.hw.available with
  | nil => simp [hb] at havail
  | cons b rest =>
    rw [hb, List.map_cons] at havail
    injection havail with hwhich hrest
    refine ⟨{ E with
      hw := { E.hw with
        available := rest
        dpram := if E.isIn then E.hw.dpram
          else Function.update E.hw.dpram (nthBuffer p.first returned) packet } },
      by simp only [UsbEndpoint.bufferDone, hb, hwhich], ?_, rfl, rfl, rfl, rfl⟩
    have howned := h.owned
    exact
      { h with
        handle := by
          have := h.handle
          omega
        owned := by
          have hsum : (E.ownedBufferCount + 1).toNat = E.ownedBufferCount.toNat + 1 := by
            rw [BitVec.toNat_add, show (1 : Byte).toNat = 1 from rfl]
            omega
          simp only [UsbEndpoint.ownOne_ownedBufferCount]
          omega
        available := by
          rw [show submitted - (returned + 1) = k by omega]
          exact hrest
        returned_le := hlt }

omit h in
/-- A packet that was due is handled. -/
theorem handleOne (h : UsbLine p E T submitted returned (due + 1))
    (hlt : returned < p.count + (due + 1)) :
    UsbLine p E T.handleOne submitted returned due :=
  { h with
    handle := by
      have := toNat_sub_one (h.handle_ne_zero_iff.2 hlt)
      have := h.handle
      simp only [UsbTransfer.handleOne_remainingPacketsToHandle]
      omega }

end UsbLine

end Counters

end PicoBootrom
