import PicoBootrom.UsbFrame
import PicoBootrom.UsbInLine

/-!
# Endpoints between two transfers

An endpoint that has no transfer and owns both of its buffers is free, and the next transfer starts
on it as on any other free one. The end of a stream leaves it free again (`UsbLine.free_end`), and
so does the end of a transfer of one packet (`UsbState.Single.taken`).
-/

set_option linter.unusedSectionVars false

namespace PicoBootrom

/-! ## Endpoints -/

/-- An endpoint has no transfer, is not halted, and owns both buffers. -/
structure UsbEndpoint.Free {τ ν : Type} (E : UsbEndpoint τ ν) : Prop where
  current : E.currentTransfer = none
  notHalted : E.haltState = .none
  owned : E.ownedBufferCount = 2
  available : E.hw.available = []

/-- An endpoint is free, and a buffer that was fetched is the next one to give. -/
structure UsbEndpoint.Quiet {τ ν : Type} (E : UsbEndpoint τ ν) : Prop extends E.Free where
  which : E.currentHwBuffer.valid = true → E.currentHwBuffer.which = E.currentGiveBuffer

/-- An endpoint is free, and ready for a transfer in its direction. -/
structure UsbEndpoint.Rests {τ ν : Type} (E : UsbEndpoint τ ν) : Prop extends E.Free where
  which : E.isIn = true → E.currentHwBuffer.valid = true →
    E.currentHwBuffer.which = E.currentGiveBuffer

/-- An endpoint has a transfer of one packet, whose packet has arrived. -/
structure UsbEndpoint.Received {τ ν : Type} (E : UsbEndpoint τ ν) (t : τ) : Prop where
  current : E.currentTransfer = some t
  notHalted : E.haltState = .none
  chain : E.chainTransfer = none
  owned : E.ownedBufferCount = 2
  available : E.hw.available = []

/-- An endpoint has no transfer and is halted. -/
structure UsbEndpoint.Stalled {τ ν : Type} (hs : UsbHaltState) (E : UsbEndpoint τ ν) : Prop where
  current : E.currentTransfer = none
  halted : E.haltState = hs

/-- The next packet of an IN endpoint is there. -/
structure UsbEndpoint.Holds {τ ν : Type} (packet : List Byte) (E : UsbEndpoint τ ν) : Prop
    extends E.Quiet where
  valid : E.currentHwBuffer.valid = true
  packet_eq : (E.hw.dpram E.currentGiveBuffer).take E.currentHwBuffer.dataLen.toNat = packet

section Endpoint

variable {τ ν : Type} {E : UsbEndpoint τ ν}

theorem UsbEndpoint.Quiet.fetchBuffer (h : E.Quiet) (hin : E.isIn = true) :
    E.fetchBuffer.Quiet ∧ E.fetchBuffer.currentHwBuffer.valid = true := by
  unfold UsbEndpoint.fetchBuffer
  split
  · next hvalid => exact ⟨h, hvalid⟩
  · exact ⟨⟨⟨h.current, h.notHalted, h.owned, h.available⟩, fun _ => by
      simp [UsbEndpoint.currentBuffer, hin]⟩, rfl⟩

theorem UsbEndpoint.Quiet.rests (h : E.Quiet) : E.Rests :=
  ⟨h.toFree, fun _ => h.which⟩

/-- The endpoint rests when the packet of an OUT transfer is done. -/
theorem UsbEndpoint.Received.rests {t : τ} (h : E.Received t) :
    (E.dropBuffer.setTransfer none).Rests :=
  ⟨⟨rfl, h.notHalted, h.owned, h.available⟩, fun _ hvalid => by cases hvalid⟩

theorem UsbEndpoint.fetchBuffer_isIn (E : UsbEndpoint τ ν) : E.fetchBuffer.isIn = E.isIn := by
  unfold UsbEndpoint.fetchBuffer
  split <;> rfl

/-- A packet is stored in the current buffer. -/
theorem UsbEndpoint.Quiet.holds (h : E.Quiet) (hin : E.isIn = true) {packet : List Byte}
    (hlen : packet.length < 256) : (E.fetchBuffer.fillBuffer packet).Holds packet := by
  obtain ⟨hq, hvalid⟩ := h.fetchBuffer hin
  refine ⟨⟨⟨hq.current, hq.notHalted, hq.owned, hq.available⟩, hq.which⟩, hvalid, ?_⟩
  have hwhich := hq.which hvalid
  simp [hwhich, Nat.mod_eq_of_lt hlen]

/-- The packet is made shorter. -/
theorem UsbEndpoint.Holds.setDataLen {packet : List Byte} (h : E.Holds packet) {len : Byte}
    (hlen : len.toNat ≤ E.currentHwBuffer.dataLen.toNat) :
    (E.setDataLen len).Holds (packet.take len.toNat) := by
  refine ⟨⟨⟨h.current, h.notHalted, h.owned, h.available⟩, h.which⟩, h.valid, ?_⟩
  rw [← h.packet_eq, List.take_take, Nat.min_eq_left hlen]
  rfl

/-- A reset leaves an endpoint quiet, but for its halt state. -/
theorem UsbEndpoint.cleared_quiet (hdouble : E.doubleBuffered = true) (hard : Bool) :
    (E.cleared hard).Quiet where
  current := rfl
  notHalted := rfl
  owned := by simp [cleared, resetTransfers, bufferCount, hdouble]
  available := rfl
  which h := by cases h

end Endpoint

/-! ## Streams -/

section Ends

variable {τ ν : Type} {p : LineSetup τ ν} {E : UsbEndpoint τ ν} {T : UsbTransfer ν} {k : ℕ}

/-- The endpoint is free after the last packet. -/
theorem UsbLine.free_end (hl : UsbLine p E T k k 0) : (E.setTransfer none).Free where
  current := rfl
  notHalted := hl.notHalted
  owned := by
    have howned := hl.owned
    refine BitVec.eq_of_toNat_eq ?_
    change E.ownedBufferCount.toNat = 2
    omega
  available := by simpa using hl.available

theorem InLine.quiet_end {packet : ℕ → List Byte} {base : List (List Byte)}
    (hi : InLine p packet base E T k k 0) : (E.setTransfer none).Quiet :=
  ⟨hi.line.free_end, hi.valid⟩

end Ends

/-! ## Transfers of one packet -/

section Single

variable {ε τ ν κ : Type} [DecidableEq ε] [DecidableEq τ] {s s' : UsbState ε τ ν κ} {e : ε} {t : τ}
  {f : ν} {onComplete : Option ν} {driver : UsbDriver ε τ ν κ} {depth : ℕ}

/-- A transfer of one packet runs on an endpoint, the hardware has its buffer, and no transfer is
chained to it. -/
structure UsbState.Single (s : UsbState ε τ ν κ) (e : ε) (t : τ) (onComplete : Option ν) : Prop
    extends s.Awaits e t where
  onComplete : (s.transfer t).onComplete = onComplete
  chain : (s.endpoint e).chainTransfer = none
  owned : (s.endpoint e).ownedBufferCount = 1
  available : ∃ b, (s.endpoint e).hw.available = [b]
  valid : (s.endpoint e).currentHwBuffer.valid = false

/-- A transfer of one packet starts on a free endpoint. -/
theorem UsbState.armed_single (hfree : (s.endpoint e).Free) {type : UsbTransferType ν}
    (htype : type.initialPacketCount = 1) (hT : s.transfer t = .reset type onComplete) :
    (s.armed e t).Single e t onComplete := by
  have hcan : (s.started e t).canGive e = true := by
    simp [UsbState.canGive, hfree.owned, hfree.notHalted, hT, htype]
  have hT' : (s.armed e t).transfer t =
      UsbTransfer.submitOne (UsbTransfer.start (.reset type onComplete)) := by
    rw [UsbState.armed_transfer, if_pos hcan, hT]
  have hE : (s.armed e t).endpoint e =
      UsbEndpoint.giveBuffer (((s.endpoint e).setTransfer (some t)).setChain none)
        (UsbEndpoint.giveLength (((s.endpoint e).setTransfer (some t)).setChain none)) := by
    rw [UsbState.armed_endpoint]
    dsimp only
    rw [if_pos hcan]
  exact
    { current := by rw [hE]; rfl
      notHalted := by rw [hE]; rfl
      submit := by rw [hT']; simp [htype]
      handle := by rw [hT']; simp [htype]
      outstanding := by rw [hT']; rfl
      queued := by rw [hT']; rfl
      notCompleted := by rw [hT']; rfl
      onComplete := by rw [hT']; rfl
      chain := by rw [hE]; rfl
      owned := by rw [hE]; simp [hfree.owned]
      available := ⟨_, by rw [hE]; simp [hfree.available]; rfl⟩
      valid := by rw [hE]; rfl }

/-- An empty transfer starts on a free endpoint. -/
theorem UsbState.armedEmpty_single (hfree : (s.endpoint e).Free) (onComplete : Option ν) :
    (s.armedEmpty e t onComplete).Single e t onComplete := by
  obtain ⟨b, hb⟩ := s.emptyPacket_eq e
  have htype : (usbCurrentPacketOnlyTransferType : UsbTransferType ν).initialPacketCount = 1 := rfl
  refine UsbState.armed_single ?_ htype (by simp)
  rw [UsbState.modifyTransfer_endpoint, hb, UsbState.modifyEndpoint_endpoint_self]
  exact ⟨hfree.current, hfree.notHalted, hfree.owned, hfree.available⟩

/-- A transfer is over, and its endpoint is free. -/
structure UsbState.Over (s' s : UsbState ε τ ν κ) (e : ε) (t : τ) : Prop where
  quiet : (s'.endpoint e).Quiet
  endpoint : ∀ e' ≠ e, s'.endpoint e' = s.endpoint e'
  transfer : ∀ t' ≠ t, s'.transfer t' = s.transfer t'
  client : s'.client = s.client
  wiring : (s'.endpoint e).SameWiring (s.endpoint e)

/-- The state in which an OUT transfer ends with its packet. -/
def UsbState.packetTaken (s : UsbState ε τ ν κ) (e : ε) (t : τ) : UsbState ε τ ν κ :=
  ((s.modifyEndpoint e UsbEndpoint.dropBuffer).modifyTransfer t
    fun T => (T.setOutstanding false).handleOne).completeTransfer e t

section Taken

variable (s e t)

theorem UsbState.packetTaken_endpoint :
    (s.packetTaken e t).endpoint e = (s.endpoint e).dropBuffer.setTransfer none := by
  simp [packetTaken, completeTransfer]

theorem UsbState.packetTaken_endpoint_of_ne {e' : ε} (h : e' ≠ e) :
    (s.packetTaken e t).endpoint e' = s.endpoint e' := by
  simp [packetTaken, completeTransfer, modifyEndpoint, h]

theorem UsbState.packetTaken_transfer_of_ne {t' : τ} (h : t' ≠ t) :
    (s.packetTaken e t).transfer t' = s.transfer t' := by
  simp [packetTaken, completeTransfer, modifyTransfer, h]

end Taken

/-- A transfer without `on_complete` goes on with the chained one. -/
theorem UsbState.finish_of_chain {c : UsbCalls ε τ ν κ}
    (hcomplete : (s.transfer t).onComplete = none) :
    ((s.modifyEndpoint e UsbEndpoint.dropBuffer).modifyTransfer t
      fun T => (T.setOutstanding false).handleOne).finish c e t =
        match (s.endpoint e).chainTransfer with
        | some next => usbStartTransfer c e next (s.packetTaken e t)
        | none => .ok (s.packetTaken e t) := by
  rw [UsbState.finish]
  simp only [UsbState.modifyTransfer_transfer_self, UsbTransfer.handleOne_onComplete,
    UsbTransfer.setOutstanding_onComplete, UsbState.modifyEndpoint_transfer, hcomplete,
    UsbState.modifyTransfer_endpoint, UsbState.modifyEndpoint_endpoint_self,
    UsbEndpoint.dropBuffer_chainTransfer]
  cases (s.endpoint e).chainTransfer <;> rfl

/-- The packet of an empty transfer was taken, or has arrived : its function is called. -/
theorem UsbState.Single.taken (h : s.Single e t (some f))
    (htype : (s.transfer t).type.onPacket = .currentPacketOnly) (packet : List Byte)
    (hdepth : 1 ≤ depth) : ∃ s', usbBufferInterrupt (usbCalls driver depth) e packet s =
      (usbCalls driver depth).call (.driver f) e s' ∧ s'.Over s e t := by
  obtain ⟨depth, rfl⟩ : ∃ d, depth = d + 1 := ⟨depth - 1, by omega⟩
  obtain ⟨b, hb⟩ := h.available
  obtain ⟨E, hdone, hE⟩ : ∃ E, (s.endpoint e).bufferDone packet = some (b.which, E) ∧
      E = { s.endpoint e with
        hw := { (s.endpoint e).hw with
          available := []
          dpram := if (s.endpoint e).isIn then (s.endpoint e).hw.dpram
            else Function.update (s.endpoint e).hw.dpram b.which packet } } := by
    refine ⟨_, ?_, rfl⟩
    rw [UsbEndpoint.bufferDone, hb]
  have howned : (s.endpoint e).ownedBufferCount + 1 = 2 := by
    rw [h.owned]
    rfl
  have hcomplete : (s.transfer t).onComplete = some f := h.onComplete
  cases hin : (s.endpoint e).isIn with
  | true =>
    refine ⟨((s.returned e b.which E).modifyTransfer t UsbTransfer.handleOne).completeTransfer e t,
      ?_, ?_⟩
    · rw [usbBufferInterrupt_single_in h.toAwaits hin hdone, UsbState.finish]
      simp only [UsbState.modifyTransfer_transfer_self, UsbTransfer.handleOne_onComplete]
      have hreturned : ((s.returned e b.which E).transfer t).onComplete = some f := hcomplete
      rw [hreturned]
    · have hend : (((s.returned e b.which E).modifyTransfer t
          UsbTransfer.handleOne).completeTransfer e t).endpoint e =
            (E.ownOne.takeBuffer b.which).setTransfer none := by
        simp [UsbState.completeTransfer, UsbState.returned]
      refine ⟨?_, fun e' hne => ?_, fun t' hne => ?_, rfl, ?_⟩
      · rw [hend, hE]
        exact ⟨⟨rfl, h.notHalted, howned, rfl⟩, fun hvalid =>
          absurd (h.valid.symm.trans hvalid) Bool.false_ne_true⟩
      · simp [UsbState.completeTransfer, UsbState.returned, UsbState.modifyEndpoint, hne]
      · simp [UsbState.completeTransfer, UsbState.returned, UsbState.modifyTransfer, hne]
      · rw [hend, hE]
        exact ⟨rfl, rfl, rfl, rfl⟩
  | false =>
    generalize hs₁ : (s.returned e b.which E).modifyTransfer t (fun T => T.setOutstanding true) = s₁
    have hE₁ : s₁.endpoint e = E.ownOne.takeBuffer b.which := by
      rw [← hs₁]
      simp [UsbState.returned]
    have hT₁ : s₁.transfer t = (s.transfer t).setOutstanding true := by
      rw [← hs₁]
      simp [UsbState.returned]
    have hcall : usbCallOnPacket (usbCalls driver (depth + 1)) e (s.returned e b.which E) =
        usbPacketDone (usbCalls driver depth) e s₁ := by
      have hcur : ((s.returned e b.which E).endpoint e).currentTransfer = some t := by
        rw [UsbState.returned, UsbState.modifyEndpoint_endpoint_self, hE]
        exact h.current
      have htype' : ((s.returned e b.which E).transfer t).type.onPacket = .currentPacketOnly :=
        htype
      simp only [usbCallOnPacket, hcur, htype', hs₁]
      rfl
    have hnone : (s₁.endpoint e).haltState = .none := by
      rw [hE₁, hE]
      exact h.notHalted
    refine ⟨((s₁.modifyEndpoint e UsbEndpoint.dropBuffer).modifyTransfer t
      fun T => (T.setOutstanding false).handleOne).completeTransfer e t, ?_, ?_⟩
    · rw [usbBufferInterrupt_single_packetDone h.toAwaits hin hdone hcall
        (by rw [hE₁, hE]; exact h.current) (by rw [hE₁, hE]; exact hin) hT₁, if_pos hnone,
        UsbState.finish]
      simp only [UsbState.modifyTransfer_transfer_self, UsbTransfer.handleOne_onComplete,
        UsbTransfer.setOutstanding_onComplete, UsbState.modifyEndpoint_transfer, hT₁, hcomplete]
    · have hend : (((s₁.modifyEndpoint e UsbEndpoint.dropBuffer).modifyTransfer t
          fun T => (T.setOutstanding false).handleOne).completeTransfer e t).endpoint e =
            (E.ownOne.takeBuffer b.which).dropBuffer.setTransfer none := by
        simp [UsbState.completeTransfer, hE₁]
      refine ⟨?_, fun e' hne => ?_, fun t' hne => ?_, ?_, ?_⟩
      · rw [hend, hE]
        exact ⟨⟨rfl, h.notHalted, howned, rfl⟩, fun hvalid => by cases hvalid⟩
      · rw [← hs₁]
        simp [UsbState.completeTransfer, UsbState.returned, UsbState.modifyEndpoint, hne]
      · rw [← hs₁]
        simp [UsbState.completeTransfer, UsbState.returned, UsbState.modifyTransfer, hne]
      · rw [← hs₁]
        rfl
      · rw [hend, hE]
        exact ⟨rfl, rfl, rfl, rfl⟩

/-- The packet of an empty IN transfer was taken : its function is called. The hardware is given no
other packet. -/
theorem UsbState.Single.taken_in {c : UsbCalls ε τ ν κ} (h : s.Single e t (some f))
    (hin : (s.endpoint e).isIn = true) (packet : List Byte) :
    ∃ s', usbBufferInterrupt c e packet s = c.call (.driver f) e s' ∧ s'.Over s e t ∧
      (s'.endpoint e).hw.given = (s.endpoint e).hw.given := by
  obtain ⟨b, hb⟩ := h.available
  have hdone : (s.endpoint e).bufferDone packet = some (b.which, { s.endpoint e with
      hw := { (s.endpoint e).hw with available := [] } }) := by
    simp [UsbEndpoint.bufferDone, hb, hin]
  generalize hE : ({ s.endpoint e with hw := { (s.endpoint e).hw with available := [] } } :
    UsbEndpoint τ ν) = E at hdone
  have howned : (s.endpoint e).ownedBufferCount + 1 = 2 := by
    rw [h.owned]
    rfl
  have hcomplete : ((s.returned e b.which E).transfer t).onComplete = some f := h.onComplete
  have hend : (((s.returned e b.which E).modifyTransfer t
      UsbTransfer.handleOne).completeTransfer e t).endpoint e =
        (E.ownOne.takeBuffer b.which).setTransfer none := by
    simp [UsbState.completeTransfer, UsbState.returned]
  refine ⟨((s.returned e b.which E).modifyTransfer t UsbTransfer.handleOne).completeTransfer e t,
    ?_, ⟨?_, fun e' hne => ?_, fun t' hne => ?_, rfl, ?_⟩, ?_⟩
  · rw [usbBufferInterrupt_single_in h.toAwaits hin hdone, UsbState.finish]
    simp only [UsbState.modifyTransfer_transfer_self, UsbTransfer.handleOne_onComplete, hcomplete]
  · rw [hend, ← hE]
    exact ⟨⟨rfl, h.notHalted, howned, rfl⟩, fun hvalid =>
      absurd (h.valid.symm.trans hvalid) Bool.false_ne_true⟩
  · simp [UsbState.completeTransfer, UsbState.returned, UsbState.modifyEndpoint, hne]
  · simp [UsbState.completeTransfer, UsbState.returned, UsbState.modifyTransfer, hne]
  · rw [hend, ← hE]
    exact ⟨rfl, rfl, rfl, rfl⟩
  · rw [hend, ← hE]
    rfl

theorem UsbState.Single.congr (h : s.Single e t onComplete) (hE : s'.endpoint e = s.endpoint e)
    (hT : s'.transfer t = s.transfer t) : s'.Single e t onComplete :=
  { current := by rw [hE]; exact h.current
    notHalted := by rw [hE]; exact h.notHalted
    submit := by rw [hT]; exact h.submit
    handle := by rw [hT]; exact h.handle
    outstanding := by rw [hT]; exact h.outstanding
    queued := by rw [hT]; exact h.queued
    notCompleted := by rw [hT]; exact h.notCompleted
    onComplete := by rw [hT]; exact h.onComplete
    chain := by rw [hE]; exact h.chain
    owned := by rw [hE]; exact h.owned
    available := by rw [hE]; exact h.available
    valid := by rw [hE]; exact h.valid }

/-- The hardware is given the packet of an empty IN transfer. -/
theorem UsbState.armedEmpty_given (hfree : (s.endpoint e).Free) (hin : (s.endpoint e).isIn = true)
    (onComplete : Option ν) :
    ((s.armedEmpty e t onComplete).endpoint e).hw.given.map (·.packet) =
      (s.endpoint e).hw.given.map (·.packet) ++ [[]] := by
  obtain ⟨E, hE, hrest⟩ : ∃ E, s.emptyPacket e = s.modifyEndpoint e (fun _ => E) ∧
      (E.isIn = true ∧ E.haltState = .none ∧ E.ownedBufferCount = 2 ∧
        E.currentHwBuffer.dataLen = 0 ∧ E.hw.given = (s.endpoint e).hw.given) := by
    refine ⟨(s.endpoint e).fetchBuffer.setDataLen 0, ?_, ?_⟩
    · rw [UsbState.emptyPacket, if_pos hin]
      simp [usbCurrentPacketBuffer, UsbState.modifyEndpoint]
    · obtain ⟨b, hb, -⟩ := (s.endpoint e).fetchBuffer_eq
      rw [hb]
      exact ⟨hin, hfree.notHalted, hfree.owned, rfl, rfl⟩
  obtain ⟨hisIn, hhalt, howned, hdataLen, hgiven⟩ := hrest
  generalize hs₁ : (s.emptyPacket e).modifyTransfer t (fun _ =>
    UsbTransfer.reset usbCurrentPacketOnlyTransferType onComplete) = s₁
  have hE₁ : s₁.endpoint e = E := by
    rw [← hs₁, hE]
    simp
  have hcan : (s₁.started e t).canGive e = true := by
    have hT : s₁.transfer t = UsbTransfer.reset usbCurrentPacketOnlyTransferType onComplete := by
      rw [← hs₁]
      simp
    simp [UsbState.canGive, hE₁, hT, howned, hhalt, usbCurrentPacketOnlyTransferType]
  rw [UsbState.armedEmpty, hs₁, UsbState.armed_endpoint]
  dsimp only
  rw [if_pos hcan, hE₁]
  simp [UsbEndpoint.nextGiven, UsbEndpoint.giveLength, hisIn, hdataLen, hgiven]

end Single

/-! ## Buffers and packets of endpoints that are stalled -/

section Stalled

variable {ε τ ν κ : Type} [DecidableEq ε] [DecidableEq τ] {s : UsbState ε τ ν κ} {e : ε} {t : τ}
  {c : UsbCalls ε τ ν κ}

/-- The hardware has no buffer to be done with. -/
theorem usbBufferInterrupt_nil (h : (s.endpoint e).hw.available = []) (packet : List Byte) :
    usbBufferInterrupt c e packet s = .ok s := by
  have hdone : (s.endpoint e).bufferDone packet = none := by
    rw [UsbEndpoint.bufferDone, h]
  rw [usbBufferInterrupt, hdone]

theorem UsbEndpoint.halt_halted {τ ν : Type} {E : UsbEndpoint τ ν}
    (h : E.haltState = .none ∨ E.haltState = .halted) : E.halt.haltState = .halted := by
  unfold UsbEndpoint.halt
  rcases h with h | h
  · rw [h, if_pos (by decide)]
    rfl
  · rw [h, if_neg (by decide)]
    exact h

/-- A buffer of an endpoint that is halted. -/
theorem usbBufferInterrupt_stalled (h : (s.endpoint e).Stalled .halted)
    (hstall : (s.endpoint e).onStallChange = none) (packet : List Byte) :
    ∃ E, usbBufferInterrupt c e packet s = .ok (s.modifyEndpoint e fun _ => E) ∧
      E.Stalled .halted ∧ E.hw.given = (s.endpoint e).hw.given := by
  unfold usbBufferInterrupt
  cases hdone : (s.endpoint e).bufferDone packet with
  | none => exact ⟨s.endpoint e, by simp [UsbState.modifyEndpoint], h, rfl⟩
  | some r =>
    obtain ⟨which, E⟩ := r
    obtain ⟨hcurrent, hhalt, -⟩ := bufferDone_currentTransfer hdone
    have hwiring := UsbEndpoint.Kept.bufferDone hdone
    have hgiven : E.hw.given = (s.endpoint e).hw.given := by
      unfold UsbEndpoint.bufferDone at hdone
      split at hdone
      · cases hdone
      · obtain ⟨-, rfl⟩ := Prod.mk.inj (Option.some.inj hdone)
        rfl
    have hnone : E.currentTransfer = none := hcurrent.trans h.current
    have hhalted : E.ownOne.halt.haltState = .halted :=
      UsbEndpoint.halt_halted (.inr (hhalt.trans h.halted))
    refine ⟨E.ownOne.halt, ?_, ⟨?_, hhalted⟩, ?_⟩
    · simp only [usbHandleTransfer, UsbState.modifyEndpoint_endpoint_self,
        UsbEndpoint.ownOne_currentTransfer, hnone]
      rw [usbHaltEndpoint_eq (by
        rw [UsbState.modifyEndpoint_endpoint_self, UsbState.modifyEndpoint_endpoint_self]
        exact hwiring.onStallChange.trans hstall)]
      simp [UsbState.modifyEndpoint]
    · rw [UsbEndpoint.halt_eq]
      exact hnone
    · rw [UsbEndpoint.halt_eq]
      exact hgiven

/-- The end of a packet of a transfer whose endpoint was halted ends the transfer, without its
function. -/
theorem UsbHandler.packetDone_of_halted (h : UsbHandler κ)
    (hcurrent : (s.endpoint e).currentTransfer = some t)
    (hhalt : (s.endpoint e).haltState = .halted) :
    ∃ s' packet, h.packetDone c e s = .ok s' ∧ (s'.endpoint e).Stalled .halted ∧
      (s'.endpoint e).hw.given = (s.endpoint e).hw.given ∧
      (∀ e' ≠ e, s'.endpoint e' = s.endpoint e') ∧
      s'.client = (h.finish s.client packet).1 := by
  obtain ⟨b, hb, -⟩ := (s.endpoint e).fetchBuffer_eq
  generalize hs₁ : usbCurrentPacketBuffer e s = s₁
  have hE₁ : s₁.endpoint e = { s.endpoint e with currentHwBuffer := b } := by
    rw [← hs₁, usbCurrentPacketBuffer, UsbState.modifyEndpoint_endpoint_self, hb]
  have hother (e' : ε) (hne : e' ≠ e) : s₁.endpoint e' = s.endpoint e' := by
    rw [← hs₁, usbCurrentPacketBuffer, UsbState.modifyEndpoint_endpoint_of_ne _ _ _ _ hne]
  have hclient : s₁.client = s.client := by
    rw [← hs₁]
    rfl
  obtain ⟨s₂, hs₂, hE₂, hother₂, hclient₂⟩ : ∃ s₂, h.packetDone c e s = usbPacketDone c e s₂ ∧
      ((s₂.endpoint e).currentTransfer = some t ∧ (s₂.endpoint e).haltState = .halted ∧
        (s₂.endpoint e).hw.given = (s.endpoint e).hw.given) ∧
      (∀ e' ≠ e, s₂.endpoint e' = s.endpoint e') ∧
      s₂.client = (h.finish s.client (s₁.endpoint e).packet).1 := by
    have hfinish : (h.finish s₁.client (s₁.endpoint e).packet).1 =
        (h.finish s.client (s₁.endpoint e).packet).1 := by rw [hclient]
    unfold UsbHandler.packetDone
    dsimp only
    rw [hs₁]
    split
    · refine ⟨_, rfl, ?_, fun e' hne => ?_, hfinish⟩
      · rw [UsbState.modifyEndpoint_endpoint_self, UsbState.modifyClient_endpoint, hE₁]
        exact ⟨hcurrent, hhalt, rfl⟩
      · rw [UsbState.modifyEndpoint_endpoint_of_ne _ _ _ _ hne, UsbState.modifyClient_endpoint,
          hother e' hne]
    · refine ⟨_, rfl, ?_, fun e' hne => ?_, hfinish⟩
      · rw [UsbState.modifyClient_endpoint, hE₁]
        exact ⟨hcurrent, hhalt, rfl⟩
      · rw [UsbState.modifyClient_endpoint, hother e' hne]
  rw [hs₂, usbPacketDone_of_halted hE₂.1 (by rw [hE₂.2.1]; decide)]
  refine ⟨_, (s₁.endpoint e).packet, rfl, ⟨?_, ?_⟩, ?_, fun e' hne => ?_, hclient₂⟩
  · simp [UsbState.completeTransfer]
  · simp [UsbState.completeTransfer, hE₂.2.1]
  · simp [UsbState.completeTransfer, hE₂.2.2]
  · simp [UsbState.completeTransfer, UsbState.modifyEndpoint, hne, hother₂ e' hne]

end Stalled

end PicoBootrom
