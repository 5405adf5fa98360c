import PicoBootrom.UsbLine

/-!
# Transfers of a single packet

The commands, the responses and the acknowledgements of both interfaces are transfers of one packet.
`UsbState.armed` is the state after such a transfer was started, in any state of the endpoint : a
buffer is given to the hardware if the endpoint owns one and is not halted. The packet of an IN
transfer is made before the start, and `_usb_transfer_current_packet_only` is done with it at once.
-/

set_option linter.unusedSectionVars false

namespace PicoBootrom

variable {ε τ ν κ : Type} [DecidableEq ε] [DecidableEq τ]

/-! ## The start -/

theorem UsbTransfer.setOutstanding_self {T : UsbTransfer ν} {outstanding : Bool}
    (h : T.outstandingPacket = outstanding) : T.setOutstanding outstanding = T := by
  subst h
  rfl

/-- A transfer is the current one, before any buffer is given. -/
def UsbState.started (s : UsbState ε τ ν κ) (e : ε) (t : τ) : UsbState ε τ ν κ :=
  (s.modifyEndpoint e fun E => (E.setTransfer (some t)).setChain none).modifyTransfer t
    UsbTransfer.start

/-- The length that a single buffer is given with. -/
def UsbEndpoint.giveLength (E : UsbEndpoint τ ν) : Word :=
  if E.isIn then E.currentHwBuffer.dataLen.setWidth 32 else E.bufferSize.setWidth 32

/-- A transfer of one packet was started. -/
def UsbState.armed (s : UsbState ε τ ν κ) (e : ε) (t : τ) : UsbState ε τ ν κ :=
  let s := s.started e t
  if s.canGive e then
    (s.modifyEndpoint e fun E => E.giveBuffer E.giveLength).modifyTransfer t UsbTransfer.submitOne
  else s

section Start

variable {s : UsbState ε τ ν κ} {e : ε} {t : τ} {driver : UsbDriver ε τ ν κ} {depth : ℕ}

@[simp] theorem UsbState.started_endpoint : (s.started e t).endpoint e =
    ((s.endpoint e).setTransfer (some t)).setChain none := by
  simp [started]

@[simp] theorem UsbState.started_transfer :
    (s.started e t).transfer t = (s.transfer t).start := by
  simp [started]

theorem UsbState.started_endpoint_of_ne {e' : ε} (h : e' ≠ e) :
    (s.started e t).endpoint e' = s.endpoint e' := by
  rw [started, modifyTransfer_endpoint, modifyEndpoint_endpoint_of_ne _ _ _ _ h]

theorem UsbState.started_transfer_of_ne {t' : τ} (h : t' ≠ t) :
    (s.started e t).transfer t' = s.transfer t' := by
  rw [started, modifyTransfer_transfer_of_ne _ _ _ _ h, modifyEndpoint_transfer]

theorem UsbState.not_canGive_of_submit {s : UsbState ε τ ν κ}
    (hcurrent : (s.endpoint e).currentTransfer = some t)
    (h : (s.transfer t).remainingPacketsToSubmit = 0) : s.canGive e = false := by
  simp [canGive, hcurrent, h]

theorem UsbState.armed_endpoint_of_ne {e' : ε} (h : e' ≠ e) :
    (s.armed e t).endpoint e' = s.endpoint e' := by
  unfold armed
  dsimp only
  split
  · rw [modifyTransfer_endpoint, modifyEndpoint_endpoint_of_ne _ _ _ _ h, started,
      modifyTransfer_endpoint, modifyEndpoint_endpoint_of_ne _ _ _ _ h]
  · rw [started, modifyTransfer_endpoint, modifyEndpoint_endpoint_of_ne _ _ _ _ h]

theorem UsbState.armed_transfer_of_ne {t' : τ} (h : t' ≠ t) :
    (s.armed e t).transfer t' = s.transfer t' := by
  unfold armed
  dsimp only
  split
  · rw [modifyTransfer_transfer_of_ne _ _ _ _ h, modifyEndpoint_transfer, started,
      modifyTransfer_transfer_of_ne _ _ _ _ h, modifyEndpoint_transfer]
  · rw [started, modifyTransfer_transfer_of_ne _ _ _ _ h, modifyEndpoint_transfer]

@[simp] theorem UsbState.armed_client : (s.armed e t).client = s.client := by
  unfold armed
  dsimp only
  split <;> rfl

theorem UsbState.armed_transfer : (s.armed e t).transfer t =
    if (s.started e t).canGive e then (s.transfer t).start.submitOne else (s.transfer t).start := by
  unfold armed
  dsimp only
  split <;> simp

theorem UsbState.armed_endpoint : (s.armed e t).endpoint e =
    let E := ((s.endpoint e).setTransfer (some t)).setChain none
    if (s.started e t).canGive e then E.giveBuffer E.giveLength else E := by
  unfold armed
  dsimp only
  split <;> simp

@[simp] theorem UsbState.armed_type :
    ((s.armed e t).transfer t).type = (s.transfer t).type := by
  rw [armed_transfer]
  split <;> rfl

@[simp] theorem UsbState.armed_onComplete :
    ((s.armed e t).transfer t).onComplete = (s.transfer t).onComplete := by
  rw [armed_transfer]
  split <;> rfl

@[simp] theorem UsbState.armed_currentTransfer :
    ((s.armed e t).endpoint e).currentTransfer = some t := by
  rw [armed_endpoint]
  dsimp only
  split <;> rfl

@[simp] theorem UsbState.armed_chainTransfer :
    ((s.armed e t).endpoint e).chainTransfer = none := by
  rw [armed_endpoint]
  dsimp only
  split <;> rfl

/-- A transfer that can be started has an endpoint that is not halted. -/
theorem UsbState.started_canGive (h : (s.started e t).canGive e = true) :
    (s.endpoint e).haltState = .none ∧ (s.endpoint e).ownedBufferCount ≠ 0 := by
  simp only [canGive, started_endpoint, UsbEndpoint.setChain_currentTransfer,
    UsbEndpoint.setTransfer_currentTransfer, Bool.and_eq_true, decide_eq_true_eq] at h
  exact ⟨h.2, h.1.2⟩

@[simp] theorem UsbState.armed_haltState :
    ((s.armed e t).endpoint e).haltState = (s.endpoint e).haltState := by
  rw [armed_endpoint]
  dsimp only
  split
  · next hcan => exact (started_canGive hcan).1.symm
  · rfl

/-- The start of a transfer of one packet on an OUT endpoint. -/
theorem usbStartTransfer_single_out (hin : (s.endpoint e).isIn = false)
    (hsubmit : (s.transfer t).remainingPacketsToSubmit = 1) (hdepth : 1 ≤ depth) :
    usbStartTransfer (usbCalls driver depth) e t s = .ok (s.armed e t) := by
  obtain ⟨depth, rfl⟩ : ∃ d, depth = d + 1 := ⟨depth - 1, by omega⟩
  change usbGiveAsManyBuffersAsPossible _ e (s.started e t) = _
  unfold UsbState.armed
  dsimp only
  cases hcan : (s.started e t).canGive e with
  | false => rw [usbGiveAsManyBuffersAsPossible_of_not_canGive hcan, if_neg Bool.false_ne_true]
  | true =>
    have hdone : UsbState.canGive
        (((s.started e t).modifyEndpoint e fun E => E.giveBuffer E.giveLength).modifyTransfer t
          UsbTransfer.submitOne) e = false :=
      UsbState.not_canGive_of_submit (t := t) (by simp) (by simp [hsubmit])
    have hin' : ((s.started e t).endpoint e).isIn = false := by simp [hin]
    have hlen : UsbEndpoint.giveLength ((s.started e t).endpoint e) =
        ((s.started e t).endpoint e).bufferSize.setWidth 32 := by
      rw [UsbEndpoint.giveLength, hin', if_neg Bool.false_ne_true]
    have hgive : usbGiveBuffer e (((s.started e t).endpoint e).bufferSize.setWidth 32)
        (s.started e t) = .ok (((s.started e t).modifyEndpoint e
          fun E => E.giveBuffer E.giveLength).modifyTransfer t UsbTransfer.submitOne) := by
      rw [← hlen]
      simp [usbGiveBuffer, UsbState.modifyEndpoint]
    rw [usbGiveAsManyBuffersAsPossible, if_pos hcan, hin', if_neg Bool.false_ne_true, hgive,
      if_pos rfl]
    exact usbGiveAsManyBuffersAsPossible_of_not_canGive hdone

/-- `usb_packet_done` for a packet of an IN transfer that has more to handle. -/
theorem usbPacketDone_in_of_pending {c : UsbCalls ε τ ν κ}
    (hcurrent : (s.endpoint e).currentTransfer = some t) (hin : (s.endpoint e).isIn = true)
    (hhalt : (s.endpoint e).haltState = .none)
    (hhandle : (s.transfer t).remainingPacketsToHandle ≠ 0)
    (hsubmit : (s.transfer t).remainingPacketsToSubmit = 1)
    (hcompleted : (s.transfer t).completed = false)
    (hqueued : (s.transfer t).packetQueued = false) :
    usbPacketDone c e s = .ok ((s.modifyEndpoint e fun E => E.giveBuffer E.giveLength).modifyTransfer
      t fun T => (T.setOutstanding false).submitOne) := by
  have hplace := s.place_self e t
  have hgive : (s.endpoint e).giveLength = (s.endpoint e).currentHwBuffer.dataLen.setWidth 32 := by
    rw [UsbEndpoint.giveLength, if_pos hin]
  have hnot : UsbState.canGive (s.place e t
      ((s.endpoint e).giveBuffer ((s.endpoint e).currentHwBuffer.dataLen.setWidth 32)).dropBuffer
      ((s.transfer t).setOutstanding false).submitOne s.client) e = false :=
    UsbState.not_canGive_of_submit (t := t) (by simp [hcurrent]) (by simp [hsubmit])
  rw [← hplace, usbPacketDone_place_in hcurrent hhalt hhandle hcompleted hin, hqueued,
    if_neg Bool.false_ne_true, usbGiveAsManyBuffersAsPossible_of_not_canGive hnot]
  simp only [UsbState.place_modifyEndpoint, UsbState.place_modifyTransfer, hgive]
  rfl

/-- `usb_packet_done` for a packet of an OUT transfer that has no more to submit. -/
theorem usbPacketDone_out_of_pending {c : UsbCalls ε τ ν κ}
    (hcurrent : (s.endpoint e).currentTransfer = some t) (hin : (s.endpoint e).isIn = false)
    (hhalt : (s.endpoint e).haltState = .none)
    (hhandle : (s.transfer t).remainingPacketsToHandle ≠ 0)
    (hsubmit : (s.transfer t).remainingPacketsToSubmit = 0)
    (hcompleted : (s.transfer t).completed = false)
    (hqueued : (s.transfer t).packetQueued = false) :
    usbPacketDone c e s = .ok ((s.modifyEndpoint e UsbEndpoint.dropBuffer).modifyTransfer t
      fun T => T.setOutstanding false) := by
  have hplace := s.place_self e t
  have hnot : UsbState.canGive (s.place e t (s.endpoint e).dropBuffer
      ((s.transfer t).setOutstanding false) s.client) e = false :=
    UsbState.not_canGive_of_submit (t := t) (by simp [hcurrent]) (by simp [hsubmit])
  rw [← hplace, usbPacketDone_place_out hcurrent hhalt hhandle hcompleted hin, hqueued,
    if_neg Bool.false_ne_true, usbGiveAsManyBuffersAsPossible_of_not_canGive hnot]
  simp only [UsbState.place_modifyEndpoint, UsbState.place_modifyTransfer]

/-- The start of a transfer of one packet on an IN endpoint, whose packet is there already. -/
theorem usbStartTransfer_single_in (hin : (s.endpoint e).isIn = true)
    (htype : (s.transfer t).type.onPacket = .currentPacketOnly)
    (hsubmit : (s.transfer t).remainingPacketsToSubmit = 1)
    (hhandle : (s.transfer t).remainingPacketsToHandle ≠ 0)
    (houtstanding : (s.transfer t).outstandingPacket = false)
    (hcompleted : (s.transfer t).completed = false)
    (hqueued : (s.transfer t).packetQueued = false) (hdepth : 1 ≤ depth) :
    usbStartTransfer (usbCalls driver depth) e t s = .ok (s.armed e t) := by
  obtain ⟨depth, rfl⟩ : ∃ d, depth = d + 1 := ⟨depth - 1, by omega⟩
  change usbGiveAsManyBuffersAsPossible _ e (s.started e t) = _
  unfold UsbState.armed
  dsimp only
  cases hcan : (s.started e t).canGive e with
  | false => rw [usbGiveAsManyBuffersAsPossible_of_not_canGive hcan, if_neg Bool.false_ne_true]
  | true =>
    obtain ⟨hhalt, howned⟩ := UsbState.started_canGive hcan
    generalize hs₁ : ((s.started e t).modifyEndpoint e fun E =>
      E.giveBuffer E.giveLength).modifyTransfer t UsbTransfer.submitOne = s₁
    have hcall : usbCallOnPacket (usbCalls driver (depth + 1)) e (s.started e t) = .ok s₁ := by
      rw [usbCallOnPacket]
      simp only [UsbState.started_endpoint, UsbEndpoint.setChain_currentTransfer,
        UsbEndpoint.setTransfer_currentTransfer, UsbState.started_transfer,
        UsbTransfer.start_type, htype]
      change usbPacketDone (usbCalls driver depth) e _ = _
      rw [usbPacketDone_in_of_pending (t := t) (by simp) (by simpa using hin) (by simpa using hhalt)
        (by simpa using hhandle) (by simpa using hsubmit) (by simpa using hcompleted)
        (by simpa using hqueued), ← hs₁]
      congr 1
      simp only [UsbState.modifyTransfer, UsbState.modifyEndpoint, Function.update_self,
        Function.update_idem]
      congr 2
      exact congrArg UsbTransfer.submitOne
        ((UsbTransfer.setOutstanding_self (by simpa using houtstanding) :
          ((s.started e t).transfer t).setOutstanding false = _))
    have hdone : s₁.canGive e = false := by
      rw [← hs₁]
      exact UsbState.not_canGive_of_submit (t := t) (by simp) (by simp [hsubmit])
    have hne : ((s.started e t).endpoint e).ownedBufferCount ≠ (s₁.endpoint e).ownedBufferCount := by
      have hsub := toNat_sub_one howned
      rw [← hs₁]
      simp only [UsbState.started_endpoint, UsbEndpoint.setChain_ownedBufferCount,
        UsbEndpoint.setTransfer_ownedBufferCount, UsbState.modifyTransfer_endpoint,
        UsbState.modifyEndpoint_endpoint_self, UsbEndpoint.giveBuffer_ownedBufferCount]
      intro heq
      rw [← heq] at hsub
      omega
    have hin' : ((s.started e t).endpoint e).isIn = true := by simpa using hin
    rw [usbGiveAsManyBuffersAsPossible, if_pos hcan, hin', if_pos rfl, hcall, if_pos rfl]
    simp only [bind, Except.bind, if_neg hne]
    exact usbGiveAsManyBuffersAsPossible_of_not_canGive hdone

/-- The packet of an empty transfer. -/
def UsbState.emptyPacket (s : UsbState ε τ ν κ) (e : ε) : UsbState ε τ ν κ :=
  if (s.endpoint e).isIn then
    (usbCurrentPacketBuffer e s).modifyEndpoint e fun E => E.setDataLen 0
  else s

/-- An empty transfer was started. -/
def UsbState.armedEmpty (s : UsbState ε τ ν κ) (e : ε) (t : τ) (onComplete : Option ν) :
    UsbState ε τ ν κ :=
  ((s.emptyPacket e).modifyTransfer t fun _ =>
    UsbTransfer.reset usbCurrentPacketOnlyTransferType onComplete).armed e t

theorem UsbEndpoint.fetchBuffer_eq (E : UsbEndpoint τ ν) :
    ∃ b, E.fetchBuffer = { E with currentHwBuffer := b } ∧ b.valid = true := by
  unfold fetchBuffer
  split
  · next h => exact ⟨_, rfl, h⟩
  · exact ⟨_, rfl, rfl⟩

/-- The packet of an empty transfer changes the buffer of the endpoint only. -/
theorem UsbState.emptyPacket_eq (s : UsbState ε τ ν κ) (e : ε) :
    ∃ b, s.emptyPacket e = s.modifyEndpoint e fun E => { E with currentHwBuffer := b } := by
  obtain ⟨b, hb, -⟩ := (s.endpoint e).fetchBuffer_eq
  unfold emptyPacket
  split
  · refine ⟨{ b with dataLen := 0 }, ?_⟩
    simp only [usbCurrentPacketBuffer, modifyEndpoint, Function.update_self, Function.update_idem,
      hb, UsbEndpoint.setDataLen]
  · exact ⟨(s.endpoint e).currentHwBuffer, by simp [modifyEndpoint]⟩

section Empty

variable (s e t) (onComplete : Option ν)

@[simp] theorem UsbState.armedEmpty_client : (s.armedEmpty e t onComplete).client = s.client := by
  obtain ⟨b, hb⟩ := s.emptyPacket_eq e
  rw [armedEmpty, armed_client, hb]
  rfl

@[simp] theorem UsbState.armedEmpty_type : ((s.armedEmpty e t onComplete).transfer t).type =
    usbCurrentPacketOnlyTransferType := by
  simp [armedEmpty]

@[simp] theorem UsbState.armedEmpty_onComplete :
    ((s.armedEmpty e t onComplete).transfer t).onComplete = onComplete := by
  simp [armedEmpty]

@[simp] theorem UsbState.armedEmpty_currentTransfer :
    ((s.armedEmpty e t onComplete).endpoint e).currentTransfer = some t :=
  armed_currentTransfer

theorem UsbState.armedEmpty_endpoint_of_ne {e' : ε} (h : e' ≠ e) :
    (s.armedEmpty e t onComplete).endpoint e' = s.endpoint e' := by
  obtain ⟨b, hb⟩ := s.emptyPacket_eq e
  rw [armedEmpty, armed_endpoint_of_ne h, modifyTransfer_endpoint, hb,
    modifyEndpoint_endpoint_of_ne _ _ _ _ h]

theorem UsbState.armedEmpty_transfer_of_ne {t' : τ} (h : t' ≠ t) :
    (s.armedEmpty e t onComplete).transfer t' = s.transfer t' := by
  obtain ⟨b, hb⟩ := s.emptyPacket_eq e
  rw [armedEmpty, armed_transfer_of_ne h, modifyTransfer_transfer_of_ne _ _ _ _ h, hb,
    modifyEndpoint_transfer]

end Empty

/-- `usb_start_empty_transfer`, on an OUT or an IN endpoint in any state. -/
theorem usbStartEmptyTransfer_eq (onComplete : Option ν) (hdepth : 1 ≤ depth) :
    usbStartEmptyTransfer (usbCalls driver depth) e t onComplete s =
      .ok (s.armedEmpty e t onComplete) := by
  obtain ⟨b, hb⟩ := s.emptyPacket_eq e
  change usbStartTransfer _ e t ((s.emptyPacket e).modifyTransfer t fun _ => _) = _
  unfold UsbState.armedEmpty
  have hisIn : ((s.emptyPacket e).endpoint e).isIn = (s.endpoint e).isIn := by simp [hb]
  cases hin : (s.endpoint e).isIn with
  | true =>
    refine usbStartTransfer_single_in (by simpa [hisIn] using hin) ?_ ?_ ?_ ?_ ?_ ?_ hdepth <;>
      simp [usbCurrentPacketOnlyTransferType]
  | false =>
    refine usbStartTransfer_single_out (by simpa [hisIn] using hin) ?_ hdepth
    simp [usbCurrentPacketOnlyTransferType]

/-- Without any nesting of calls, a transfer that is started is not given a buffer. -/
theorem usbStartTransfer_zero_ok {s' : UsbState ε τ ν κ}
    (hs' : usbStartTransfer (usbCalls driver 0) e t s = .ok s') : s' = s.armed e t := by
  change usbGiveAsManyBuffersAsPossible _ e (s.started e t) = _ at hs'
  cases hcan : (s.started e t).canGive e with
  | true =>
    simp [usbGiveAsManyBuffersAsPossible, hcan, usbCallOnPacket, usbGiveBuffer, usbCalls, bind,
      Except.bind] at hs'
  | false =>
    rw [usbGiveAsManyBuffersAsPossible_of_not_canGive hcan] at hs'
    cases hs'
    simp [UsbState.armed, hcan]

/-- `usb_start_empty_transfer`, if it returns. -/
theorem usbStartEmptyTransfer_ok {s' : UsbState ε τ ν κ} {onComplete : Option ν}
    (hs' : usbStartEmptyTransfer (usbCalls driver depth) e t onComplete s = .ok s') :
    s' = s.armedEmpty e t onComplete := by
  cases depth with
  | zero => exact usbStartTransfer_zero_ok hs'
  | succ depth =>
    rw [usbStartEmptyTransfer_eq onComplete (Nat.succ_pos depth)] at hs'
    cases hs'
    rfl

end Start

/-! ## Halts -/

/-- The endpoint is halted, unless it is already, maybe on a condition. -/
def UsbEndpoint.halt (E : UsbEndpoint τ ν) : UsbEndpoint τ ν :=
  if E.haltState.toNat < UsbHaltState.halted.toNat then E.setHalt .halted else E

theorem UsbEndpoint.halt_cases (E : UsbEndpoint τ ν) :
    E.halt.haltState = .halted ∨ E.halt.haltState = .haltedOnCondition := by
  unfold halt
  cases h : E.haltState <;> simp [UsbHaltState.toNat, h]

theorem UsbEndpoint.halt_eq (E : UsbEndpoint τ ν) : E.halt = E.setHalt E.halt.haltState := by
  unfold halt
  split <;> rfl

/-- `usb_halt_endpoint`, for an endpoint without `on_stall_change`. -/
theorem usbHaltEndpoint_eq {c : UsbCalls ε τ ν κ} {s : UsbState ε τ ν κ} {e : ε}
    (h : (s.endpoint e).onStallChange = none) :
    usbHaltEndpoint c e s = .ok (s.modifyEndpoint e UsbEndpoint.halt) := by
  unfold usbHaltEndpoint usbStallEndpoint
  cases hs : (s.endpoint e).haltState <;>
    simp [h, hs, UsbHaltState.toNat, UsbState.modifyEndpoint, UsbEndpoint.halt]

/-- The endpoint after a reset, before its default transfer is started. -/
def UsbEndpoint.cleared (E : UsbEndpoint τ ν) (hard : Bool) : UsbEndpoint τ ν :=
  (E.resetTransfers hard).setHalt .none

/-- `_usb_reset_endpoint`, for an endpoint without `on_stall_change`. -/
theorem usbResetEndpoint_eq {c : UsbCalls ε τ ν κ} {s : UsbState ε τ ν κ} {e : ε} (hard : Bool)
    (h : (s.endpoint e).onStallChange = none) :
    usbResetEndpoint c e hard s =
      if s.currentConfigNum ≠ 0 ∧ (s.endpoint e).defaultTransfer.isSome then
        usbStartDefaultTransfer c e (s.modifyEndpoint e fun E => E.cleared hard)
      else .ok (s.modifyEndpoint e fun E => E.cleared hard) := by
  have hstall : ((s.endpoint e).cleared hard).onStallChange = none := h
  have hcurrent : ((s.endpoint e).cleared hard).currentTransfer = none := rfl
  have hdefault : ((s.endpoint e).cleared hard).defaultTransfer =
      (s.endpoint e).defaultTransfer := rfl
  unfold usbResetEndpoint
  by_cases hhalt : ((s.endpoint e).resetTransfers hard).haltState = .none
  · have hsame : (s.endpoint e).resetTransfers hard = (s.endpoint e).cleared hard := by
      rw [UsbEndpoint.cleared, ← hhalt]
      rfl
    have hmodify : (s.modifyEndpoint e fun E => E.resetTransfers hard) =
        s.modifyEndpoint e fun E => E.cleared hard := by
      simp only [UsbState.modifyEndpoint, hsame]
    rw [hsame] at hhalt
    simp [hmodify, hhalt, bind, Except.bind, hcurrent, hdefault]
  · have hmodify : (s.modifyEndpoint e fun E => E.resetTransfers hard).modifyEndpoint e
        (fun E => E.setHalt .none) = s.modifyEndpoint e fun E => E.cleared hard := by
      simp [UsbState.modifyEndpoint, UsbEndpoint.cleared]
    simp [hmodify, hhalt, hstall, bind, Except.bind, hcurrent, hdefault]

/-! ## The end -/

/-- What `_usb_check_for_transfer_completion` goes on with. -/
def UsbState.finish (s : UsbState ε τ ν κ) (c : UsbCalls ε τ ν κ) (e : ε) (t : τ) :
    UsbResult (UsbState ε τ ν κ) :=
  match (s.transfer t).onComplete with
  | some f => c.call (.driver f) e (s.completeTransfer e t)
  | none => match (s.endpoint e).chainTransfer with
    | some next => usbStartTransfer c e next (s.completeTransfer e t)
    | none => .ok (s.completeTransfer e t)

section End

variable {s s' : UsbState ε τ ν κ} {e : ε} {t : τ} {f : ν} {c : UsbCalls ε τ ν κ}
  {driver : UsbDriver ε τ ν κ} {depth : ℕ}

theorem usbCheckForTransferCompletion_of_done (hcurrent : (s.endpoint e).currentTransfer = some t)
    (hhalt : (s.endpoint e).haltState = .none)
    (hhandle : (s.transfer t).remainingPacketsToHandle = 0)
    (hout : (s.transfer t).outstandingPacket = false) :
    usbCheckForTransferCompletion c e s = s.finish c e t := by
  have hcompletes : s.completes e t = true := by
    simp [UsbState.completes, hhandle, hout]
  unfold usbCheckForTransferCompletion
  rw [hcurrent]
  dsimp only
  rw [if_pos hcompletes, if_neg (not_not.2 hhalt)]
  unfold UsbState.finish
  rcases (s.transfer t).onComplete with _ | f
  · rcases (s.endpoint e).chainTransfer with _ | next <;> rfl
  · rfl

/-- A transfer ends without `on_complete` if its endpoint is halted. -/
theorem usbCheckForTransferCompletion_of_halted
    (hcurrent : (s.endpoint e).currentTransfer = some t)
    (hhalt : (s.endpoint e).haltState ≠ .none) :
    usbCheckForTransferCompletion c e s =
      .ok ((s.completeTransfer e t).modifyTransfer t UsbTransfer.dropPackets) := by
  have hcompletes : s.completes e t = true := by
    simp [UsbState.completes, hhalt]
  simp only [usbCheckForTransferCompletion, hcurrent, hcompletes, if_true, if_pos hhalt]

/-- `usb_packet_done` for a transfer whose endpoint is halted. -/
theorem usbPacketDone_of_halted (hcurrent : (s.endpoint e).currentTransfer = some t)
    (hhalt : (s.endpoint e).haltState ≠ .none) :
    usbPacketDone c e s = .ok (((s.modifyTransfer t fun T => T.setOutstanding false).completeTransfer
      e t).modifyTransfer t UsbTransfer.dropPackets) := by
  simp only [usbPacketDone, hcurrent]
  rw [usbCheckForTransferCompletion_of_halted (t := t) (by simpa using hcurrent)
    (by simpa using hhalt)]
  simp [bind, Except.bind, UsbState.completeTransfer]

/-- A transfer of one packet runs, and the hardware has its buffer. -/
structure UsbState.Awaits (s : UsbState ε τ ν κ) (e : ε) (t : τ) : Prop where
  current : (s.endpoint e).currentTransfer = some t
  notHalted : (s.endpoint e).haltState = .none
  submit : (s.transfer t).remainingPacketsToSubmit = 0
  handle : (s.transfer t).remainingPacketsToHandle = 1
  outstanding : (s.transfer t).outstandingPacket = false
  queued : (s.transfer t).packetQueued = false
  notCompleted : (s.transfer t).completed = false

/-- The hardware has returned the buffer. -/
def UsbState.returned (s : UsbState ε τ ν κ) (e : ε) (which : Bool) (E : UsbEndpoint τ ν) :
    UsbState ε τ ν κ :=
  s.modifyEndpoint e fun _ => E.ownOne.takeBuffer which

theorem bufferDone_currentTransfer {E E' : UsbEndpoint τ ν} {packet : List Byte} {which : Bool}
    (h : E.bufferDone packet = some (which, E')) :
    E'.currentTransfer = E.currentTransfer ∧ E'.haltState = E.haltState ∧ E'.isIn = E.isIn := by
  unfold UsbEndpoint.bufferDone at h
  split at h
  · cases h
  · obtain ⟨-, rfl⟩ := Prod.mk.inj (Option.some.inj h)
    exact ⟨rfl, rfl, rfl⟩

/-- A buffer that comes back while a packet is outstanding waits until the packet is done. -/
theorem usbBufferInterrupt_outstanding (hcurrent : (s.endpoint e).currentTransfer = some t)
    (hout : (s.transfer t).outstandingPacket = true) (packet : List Byte) :
    ∃ s', usbBufferInterrupt c e packet s = .ok s' ∧ s'.client = s.client := by
  unfold usbBufferInterrupt
  cases hdone : (s.endpoint e).bufferDone packet with
  | none => exact ⟨s, rfl, rfl⟩
  | some r =>
    obtain ⟨which, E⟩ := r
    have hcur : E.currentTransfer = some t := (bufferDone_currentTransfer hdone).1.trans hcurrent
    refine ⟨((s.modifyEndpoint e fun _ => E).modifyEndpoint e UsbEndpoint.ownOne).modifyTransfer t
      fun T => T.setQueued true, ?_, rfl⟩
    simp only [usbHandleTransfer, UsbState.modifyEndpoint_endpoint_self,
      UsbEndpoint.ownOne_currentTransfer, hcur, UsbState.modifyEndpoint_transfer, hout, if_true]

/-- The packet of an IN transfer was taken by the host. -/
theorem usbBufferInterrupt_single_in (h : s.Awaits e t) (hin : (s.endpoint e).isIn = true)
    {packet : List Byte} {which : Bool} {E : UsbEndpoint τ ν}
    (hdone : (s.endpoint e).bufferDone packet = some (which, E)) :
    usbBufferInterrupt c e packet s =
      ((s.returned e which E).modifyTransfer t UsbTransfer.handleOne).finish c e t := by
  obtain ⟨hcur, hhalt, hisIn⟩ := bufferDone_currentTransfer hdone
  rw [h.current] at hcur
  rw [h.notHalted] at hhalt
  rw [hin] at hisIn
  have hcheck := usbCheckForTransferCompletion_of_done (c := c) (t := t) (e := e)
    (s := (s.returned e which E).modifyTransfer t UsbTransfer.handleOne)
    (by simp [UsbState.returned, hcur]) (by simp [UsbState.returned, hhalt])
    (by simp [UsbState.returned, h.handle]) (by simp [UsbState.returned, h.outstanding])
  rw [← hcheck]
  simp [usbBufferInterrupt, hdone, usbHandleTransfer, hcur, h.outstanding, hisIn, h.submit,
    h.notCompleted, bind, Except.bind, UsbState.returned, UsbState.modifyEndpoint]

/-- The packet of an OUT transfer has arrived, and `on_packet` comes to `usb_packet_done` in the
state `s'`. -/
theorem usbBufferInterrupt_single_packetDone {c' : UsbCalls ε τ ν κ} (h : s.Awaits e t)
    (hin : (s.endpoint e).isIn = false) {packet : List Byte} {which : Bool}
    {E : UsbEndpoint τ ν} (hdone : (s.endpoint e).bufferDone packet = some (which, E))
    (hcall : usbCallOnPacket c e (s.returned e which E) = usbPacketDone c' e s')
    (hcurrent : (s'.endpoint e).currentTransfer = some t) (hin' : (s'.endpoint e).isIn = false)
    (hT : s'.transfer t = (s.transfer t).setOutstanding true) :
    usbBufferInterrupt c e packet s =
      if (s'.endpoint e).haltState = .none then
        ((s'.modifyEndpoint e UsbEndpoint.dropBuffer).modifyTransfer t
          fun T => (T.setOutstanding false).handleOne).finish c e t
      else .ok (((s'.modifyTransfer t fun T => T.setOutstanding false).completeTransfer
        e t).modifyTransfer t UsbTransfer.dropPackets) := by
  obtain ⟨hcur, -, hisIn⟩ := bufferDone_currentTransfer hdone
  rw [h.current] at hcur
  rw [hin] at hisIn
  have hhandle : usbBufferInterrupt c e packet s =
      usbPacketDone c' e s' >>= fun s₂ =>
        if (s₂.transfer t).completed then .ok s₂
        else usbCheckForTransferCompletion c e (s₂.modifyTransfer t UsbTransfer.handleOne) := by
    rw [← hcall]
    simp [usbBufferInterrupt, hdone, usbHandleTransfer, hcur, h.outstanding, hisIn,
      UsbState.returned, UsbState.modifyEndpoint]
  rw [hhandle]
  by_cases hhalt : (s'.endpoint e).haltState = .none
  · rw [if_pos hhalt]
    have hnotCompleted : (s'.transfer t).completed = false := by simp [hT, h.notCompleted]
    rw [usbPacketDone_out_of_pending hcurrent hin' hhalt (by simp [hT, h.handle])
      (by simp [hT, h.submit]) hnotCompleted (by simp [hT, h.queued])]
    simp only [bind, Except.bind, UsbState.modifyTransfer_transfer_self,
      UsbTransfer.setOutstanding_completed, UsbState.modifyEndpoint_transfer, hnotCompleted,
      Bool.false_eq_true, if_false]
    rw [usbCheckForTransferCompletion_of_done (t := t) (by simpa using hcurrent)
      (by simpa using hhalt) (by simp [hT, h.handle]) (by simp)]
    simp [UsbState.modifyTransfer]
  · rw [if_neg hhalt, usbPacketDone_of_halted hcurrent hhalt]
    simp [bind, Except.bind, UsbState.completeTransfer]

/-- The packet of an OUT transfer has arrived. `body` is what `on_packet` does before
`usb_packet_done`. -/
theorem usbBufferInterrupt_single_out (h : s.Awaits e t) (hin : (s.endpoint e).isIn = false)
    (htype : (s.transfer t).type.onPacket = .driver f) {body : UsbDriver ε τ ν κ}
    (hf : ∀ c s, driver c f e s = body c f e s >>= usbPacketDone c e) {packet : List Byte}
    {which : Bool} {E : UsbEndpoint τ ν}
    (hdone : (s.endpoint e).bufferDone packet = some (which, E))
    (hbody : body (usbCalls driver depth) f e
      ((s.returned e which E).modifyTransfer t fun T => T.setOutstanding true) = .ok s')
    (hcurrent : (s'.endpoint e).currentTransfer = some t) (hin' : (s'.endpoint e).isIn = false)
    (hT : s'.transfer t = (s.transfer t).setOutstanding true) :
    usbBufferInterrupt (usbCalls driver (depth + 1)) e packet s =
      if (s'.endpoint e).haltState = .none then
        ((s'.modifyEndpoint e UsbEndpoint.dropBuffer).modifyTransfer t
          fun T => (T.setOutstanding false).handleOne).finish (usbCalls driver (depth + 1)) e t
      else .ok (((s'.modifyTransfer t fun T => T.setOutstanding false).completeTransfer
        e t).modifyTransfer t UsbTransfer.dropPackets) := by
  obtain ⟨hcur, -, -⟩ := bufferDone_currentTransfer hdone
  rw [h.current] at hcur
  have hcall : usbCallOnPacket (usbCalls driver (depth + 1)) e (s.returned e which E) =
      usbPacketDone (usbCalls driver depth) e s' := by
    simp only [usbCallOnPacket, UsbState.returned, UsbState.modifyEndpoint_endpoint_self,
      UsbEndpoint.takeBuffer_currentTransfer, UsbEndpoint.ownOne_currentTransfer, hcur,
      UsbState.modifyEndpoint_transfer, htype]
    change driver (usbCalls driver depth) f e _ = _
    rw [hf]
    change body _ f e ((s.returned e which E).modifyTransfer t _) >>= _ = _
    rw [hbody]
    rfl
  exact usbBufferInterrupt_single_packetDone h hin hdone hcall hcurrent hin' hT

end End

end PicoBootrom
