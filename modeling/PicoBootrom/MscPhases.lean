import PicoBootrom.MscUsb
import PicoBootrom.UsbInLine
import PicoBootrom.UsbFrame
import PicoBootrom.UsbQuiet
import PicoBootrom.UsbOutLine

/-!
# The phases of a mass storage command

Between two events the endpoints of the mass storage interface are in one of a few states : an
endpoint is quiet, it waits for a command, it has a response or a CSW for the host, it runs the
stream of sectors, or it is stalled. The functions of `usb_msc.c` that start a response or end the
data phase always return, and what they leave is given here once.
-/

set_option linter.unusedSectionVars false

namespace PicoBootrom

/-! ## Wiring -/

section Wiring

variable {s s' : MscState}

/-- The state is wired the same. -/
structure UsbState.SameWiring (s' s : MscState) : Prop where
  endpoint : ∀ e, (s'.endpoint e).Kept (s.endpoint e)
  cmdType : (s'.transfer .cmd).type = (s.transfer .cmd).type
  config : s'.currentConfigNum = s.currentConfigNum

theorem MscWired.of_same (h : MscWired s) (hs : s'.SameWiring s) : MscWired s' where
  isIn e := (hs.endpoint e).isIn.trans (h.isIn e)
  doubleBuffered e := (hs.endpoint e).doubleBuffered.trans (h.doubleBuffered e)
  onStallChange e := (hs.endpoint e).onStallChange.trans (h.onStallChange e)
  defaultTransfer e := (hs.endpoint e).defaultTransfer.trans (h.defaultTransfer e)
  cmdType := hs.cmdType.trans h.cmdType
  order e := (hs.endpoint e).order (h.order e)

namespace UsbState.SameWiring

theorem refl (s : MscState) : s.SameWiring s :=
  ⟨fun _ => .refl _, rfl, rfl⟩

theorem trans {s'' : MscState} (h' : s''.SameWiring s') (h : s'.SameWiring s) :
    s''.SameWiring s :=
  ⟨fun e => (h'.endpoint e).trans (h.endpoint e), h'.cmdType.trans h.cmdType,
    h'.config.trans h.config⟩

theorem modifyClient (s : MscState) (f : MscClient → MscClient) :
    (s.modifyClient f).SameWiring s :=
  ⟨fun _ => .refl _, rfl, rfl⟩

theorem modifyEndpoint {e : MscEndpoint}
    {f : UsbEndpoint MscTransfer MscFunction → UsbEndpoint MscTransfer MscFunction}
    (hf : (f (s.endpoint e)).Kept (s.endpoint e)) : (s.modifyEndpoint e f).SameWiring s where
  endpoint e' := by
    by_cases h : e' = e
    · subst h
      rwa [modifyEndpoint_endpoint_self]
    · rw [modifyEndpoint_endpoint_of_ne _ _ _ _ h]
      exact .refl _
  cmdType := rfl
  config := rfl

theorem modifyTransfer {t : MscTransfer} {f : UsbTransfer MscFunction → UsbTransfer MscFunction}
    (hf : t = .cmd → (f (s.transfer t)).type = (s.transfer t).type) :
    (s.modifyTransfer t f).SameWiring s where
  endpoint _ := .refl _
  cmdType := by
    by_cases h : t = .cmd
    · subst h
      rw [modifyTransfer_transfer_self]
      exact hf rfl
    · rw [modifyTransfer_transfer_of_ne _ _ _ _ (Ne.symm h)]
  config := rfl

theorem armed (s : MscState) (e : MscEndpoint) (t : MscTransfer) : (s.armed e t).SameWiring s where
  endpoint e' := by
    by_cases h : e' = e
    · subst h
      rw [armed_endpoint]
      dsimp only
      split
      · exact (UsbEndpoint.Kept.giveBuffer _ _).trans ⟨⟨rfl, rfl, rfl, rfl⟩, id⟩
      · exact ⟨⟨rfl, rfl, rfl, rfl⟩, id⟩
    · rw [armed_endpoint_of_ne h]
      exact .refl _
  cmdType := by
    by_cases h : t = .cmd
    · subst h
      exact armed_type
    · rw [armed_transfer_of_ne (Ne.symm h)]
  config := by
    unfold UsbState.armed
    dsimp only
    split <;> rfl

end UsbState.SameWiring

end Wiring

/-! ## Transfers of one packet -/

section Single

variable {vdReadBlock : Word → ℕ → Byte} {depth : ℕ} {s s' : MscState} {f : MscFunction}
  {packet : List Byte}

/-- `msc_in` has a packet for the host, and `f` is called when the host has taken it. -/
structure MscResponds (f : MscFunction) (packet : List Byte) (s : MscState) : Prop
    extends s.Awaits .mscIn .cmdResponse where
  onComplete : (s.transfer .cmdResponse).onComplete = some f
  owned : (s.endpoint .mscIn).ownedBufferCount = 1
  available : ∃ b, (s.endpoint .mscIn).hw.available = [b] ∧ b.packet = packet
  valid : (s.endpoint .mscIn).currentHwBuffer.valid = false

/-- `msc_out` waits for a command. -/
structure MscArmed (s : MscState) : Prop extends s.Awaits .mscOut .cmd where
  onComplete : (s.transfer .cmd).onComplete = none
  chain : (s.endpoint .mscOut).chainTransfer = none
  owned : (s.endpoint .mscOut).ownedBufferCount = 1
  available : ∃ b, (s.endpoint .mscOut).hw.available = [b]
  valid : (s.endpoint .mscOut).currentHwBuffer.valid = false

/-- The response in the current buffer of `msc_in` is started. -/
def UsbState.respond (s : MscState) (f : MscFunction) : MscState :=
  (s.modifyTransfer .cmdResponse fun _ =>
    .reset usbCurrentPacketOnlyTransferType (some f)).armed .mscIn .cmdResponse

theorem mscResetAndStartCmdResponseTransfer_eq (hin : (s.endpoint .mscIn).isIn = true)
    (hdepth : 1 ≤ depth) :
    mscResetAndStartCmdResponseTransfer (usbCalls (mscDriver vdReadBlock) depth) f s =
      .ok (s.respond f) := by
  unfold mscResetAndStartCmdResponseTransfer usbResetAndStartTransfer UsbState.respond
  refine usbStartTransfer_single_in (by simpa using hin) ?_ ?_ ?_ ?_ ?_ ?_ hdepth <;>
    simp [usbCurrentPacketOnlyTransferType]

@[simp] theorem respond_client : (s.respond f).client = s.client := by
  simp [UsbState.respond]

@[simp] theorem respond_mscOut : (s.respond f).endpoint .mscOut = s.endpoint .mscOut := by
  rw [UsbState.respond, UsbState.armed_endpoint_of_ne (by decide)]
  rfl

theorem respond_transfer_of_ne {t : MscTransfer} (h : t ≠ .cmdResponse) :
    (s.respond f).transfer t = s.transfer t := by
  rw [UsbState.respond, UsbState.armed_transfer_of_ne h,
    UsbState.modifyTransfer_transfer_of_ne _ _ _ _ h]

theorem respond_mscIn (h : (s.endpoint .mscIn).Holds packet)
    (hin : (s.endpoint .mscIn).isIn = true) :
    (s.respond f).endpoint .mscIn =
      (((s.endpoint .mscIn).setTransfer (some .cmdResponse)).setChain none).giveBuffer
        ((s.endpoint .mscIn).currentHwBuffer.dataLen.setWidth 32) := by
  have hcan : UsbState.canGive (UsbState.started (s.modifyTransfer .cmdResponse fun _ =>
      .reset usbCurrentPacketOnlyTransferType (some f)) .mscIn .cmdResponse) .mscIn = true := by
    simp [UsbState.canGive, h.owned, h.notHalted, usbCurrentPacketOnlyTransferType]
  rw [UsbState.respond, UsbState.armed_endpoint]
  dsimp only
  rw [if_pos hcan]
  simp [UsbEndpoint.giveLength, hin]

/-- The packet that the hardware is given. -/
theorem UsbEndpoint.Holds.nextGiven_packet {τ ν : Type} {E : UsbEndpoint τ ν}
    (h : E.Holds packet) (hin : E.isIn = true) :
    (E.nextGiven (E.currentHwBuffer.dataLen.setWidth 32)).packet = packet := by
  have hmod : E.currentHwBuffer.dataLen.toNat % 4294967296 = E.currentHwBuffer.dataLen.toNat := by
    have := E.currentHwBuffer.dataLen.isLt
    omega
  simp [UsbEndpoint.nextGiven, hin, hmod, h.packet_eq]

theorem respond_responds (h : (s.endpoint .mscIn).Holds packet)
    (hin : (s.endpoint .mscIn).isIn = true) : MscResponds f packet (s.respond f) := by
  have hcan : UsbState.canGive (UsbState.started (s.modifyTransfer .cmdResponse fun _ =>
      .reset usbCurrentPacketOnlyTransferType (some f)) .mscIn .cmdResponse) .mscIn = true := by
    simp [UsbState.canGive, h.owned, h.notHalted, usbCurrentPacketOnlyTransferType]
  have hE := respond_mscIn (f := f) h hin
  have hT : (s.respond f).transfer .cmdResponse = UsbTransfer.submitOne (UsbTransfer.start
      (.reset usbCurrentPacketOnlyTransferType (some f))) := by
    rw [UsbState.respond, UsbState.armed_transfer, if_pos hcan]
    simp
  exact
    { current := by rw [hE]; rfl
      notHalted := by rw [hE]; rfl
      submit := by rw [hT]; simp [usbCurrentPacketOnlyTransferType]
      handle := by rw [hT]; rfl
      outstanding := by rw [hT]; rfl
      queued := by rw [hT]; rfl
      notCompleted := by rw [hT]; rfl
      onComplete := by rw [hT]; rfl
      owned := by rw [hE]; simp [h.owned]
      available := by
        refine ⟨_, by rw [hE]; simp [h.available]; rfl, ?_⟩
        exact h.nextGiven_packet hin
      valid := by rw [hE]; rfl }

theorem respond_given (h : (s.endpoint .mscIn).Holds packet)
    (hin : (s.endpoint .mscIn).isIn = true) :
    ((s.respond f).endpoint .mscIn).hw.given.map (·.packet) =
      (s.endpoint .mscIn).hw.given.map (·.packet) ++ [packet] := by
  rw [respond_mscIn h hin]
  change ((s.endpoint .mscIn).hw.given ++ [(s.endpoint .mscIn).nextGiven _]).map _ = _
  rw [List.map_append, List.map_singleton, h.nextGiven_packet hin]

theorem respond_sameWiring : (s.respond f).SameWiring s :=
  (UsbState.SameWiring.armed _ _ _).trans (.modifyTransfer fun h => by cases h)

/-- The CSW is started. -/
def UsbState.sendCsw (s : MscState) : MscState :=
  (mscResponseBuffer s.client.msc.csw.bytes (s.modifyClient MscClient.sendCsw)).respond
    .tfWaitCommand

theorem mscResponseBuffer_mscIn :
    (mscResponseBuffer packet s).endpoint .mscIn =
      (s.endpoint .mscIn).fetchBuffer.fillBuffer packet := by
  simp [mscResponseBuffer, usbCurrentPacketBuffer]

theorem mscResponseBuffer_sameWiring : (mscResponseBuffer packet s).SameWiring s := by
  refine .trans (.modifyEndpoint ⟨⟨rfl, rfl, rfl, rfl⟩, id⟩) ?_
  exact .modifyEndpoint (.fetchBuffer _)

theorem mscSendCsw_eq (hin : (s.endpoint .mscIn).isIn = true) (hdepth : 1 ≤ depth) :
    mscSendCsw (usbCalls (mscDriver vdReadBlock) depth) s = .ok s.sendCsw := by
  refine mscResetAndStartCmdResponseTransfer_eq ?_ hdepth
  rw [mscResponseBuffer_mscIn]
  exact (UsbEndpoint.fetchBuffer_isIn _).trans hin

@[simp] theorem sendCsw_client : s.sendCsw.client = s.client.sendCsw := by
  simp [UsbState.sendCsw, mscResponseBuffer, usbCurrentPacketBuffer]

@[simp] theorem sendCsw_mscOut : s.sendCsw.endpoint .mscOut = s.endpoint .mscOut := by
  rw [UsbState.sendCsw, respond_mscOut, mscResponseBuffer,
    UsbState.modifyEndpoint_endpoint_of_ne _ _ _ _ (by decide), usbCurrentPacketBuffer,
    UsbState.modifyEndpoint_endpoint_of_ne _ _ _ _ (by decide)]
  rfl

theorem sendCsw_transfer_of_ne {t : MscTransfer} (h : t ≠ .cmdResponse) :
    s.sendCsw.transfer t = s.transfer t :=
  respond_transfer_of_ne h

theorem sendCsw_sameWiring : s.sendCsw.SameWiring s :=
  respond_sameWiring.trans (mscResponseBuffer_sameWiring.trans (.modifyClient _ _))

/-- A CSW is put into the buffer of a quiet endpoint. -/
theorem mscResponseBuffer_holds (h : (s.endpoint .mscIn).Quiet)
    (hin : (s.endpoint .mscIn).isIn = true) (csw : ScsiCsw) :
    ((mscResponseBuffer csw.bytes s).endpoint .mscIn).Holds csw.bytes ∧
      ((mscResponseBuffer csw.bytes s).endpoint .mscIn).isIn = true ∧
      ((mscResponseBuffer csw.bytes s).endpoint .mscIn).hw.given =
        (s.endpoint .mscIn).hw.given := by
  rw [mscResponseBuffer_mscIn]
  refine ⟨h.holds hin (by simp [ScsiCsw.bytes, wordBytes]),
    (UsbEndpoint.fetchBuffer_isIn _).trans hin, ?_⟩
  change (s.endpoint .mscIn).fetchBuffer.hw.given = _
  unfold UsbEndpoint.fetchBuffer
  split <;> rfl

theorem sendCsw_responds (h : (s.endpoint .mscIn).Quiet) (hin : (s.endpoint .mscIn).isIn = true) :
    MscResponds .tfWaitCommand s.client.msc.csw.bytes s.sendCsw := by
  obtain ⟨hholds, hisIn, -⟩ := mscResponseBuffer_holds
    (s := s.modifyClient MscClient.sendCsw) h hin s.client.msc.csw
  exact respond_responds hholds hisIn

theorem sendCsw_given (h : (s.endpoint .mscIn).Quiet) (hin : (s.endpoint .mscIn).isIn = true) :
    (s.sendCsw.endpoint .mscIn).hw.given.map (·.packet) =
      (s.endpoint .mscIn).hw.given.map (·.packet) ++ [s.client.msc.csw.bytes] := by
  obtain ⟨hholds, hisIn, hgiven⟩ := mscResponseBuffer_holds
    (s := s.modifyClient MscClient.sendCsw) h hin s.client.msc.csw
  rw [UsbState.sendCsw, respond_given hholds hisIn, hgiven]
  rfl

end Single

/-! ## Halts -/

/-- The endpoint with a halt state that is at least the given one. -/
def UsbEndpoint.stallWith {τ ν : Type} (hs : UsbHaltState) (E : UsbEndpoint τ ν) :
    UsbEndpoint τ ν :=
  if E.haltState.toNat < hs.toNat then E.setHalt hs else E

theorem UsbEndpoint.stallWith_eq {τ ν : Type} (hs : UsbHaltState) (E : UsbEndpoint τ ν) :
    ∃ hs', E.stallWith hs = E.setHalt hs' ∧
      (hs' = hs ∨ hs' = E.haltState ∧ hs.toNat ≤ E.haltState.toNat) := by
  unfold stallWith
  split
  · exact ⟨hs, rfl, .inl rfl⟩
  · next h => exact ⟨E.haltState, rfl, .inr ⟨rfl, Nat.le_of_not_lt h⟩⟩

theorem UsbEndpoint.Quiet.stallWith {τ ν : Type} {E : UsbEndpoint τ ν} (h : E.Quiet)
    {hs : UsbHaltState} (hhs : hs ≠ .none) : E.stallWith hs = E.setHalt hs := by
  have hlt : E.haltState.toNat < hs.toNat := by
    rw [h.notHalted]
    cases hs with
    | none => exact absurd rfl hhs
    | _ => decide
  rw [UsbEndpoint.stallWith, if_pos hlt]

section Halts

variable {vdReadBlock : Word → ℕ → Byte} {depth : ℕ} {s : MscState} {e : MscEndpoint}
  {hs : UsbHaltState}

/-- `_usb_stall_endpoint`. `_msc_in_on_stall_change` has nothing to do for an endpoint that is
halted. -/
theorem mscStall_eq (hw : MscWired s) (hhs : hs ≠ .none) (hdepth : 1 ≤ depth) :
    usbStallEndpoint (usbCalls (mscDriver vdReadBlock) depth) e hs s =
      .ok (s.modifyEndpoint e (UsbEndpoint.stallWith hs)) := by
  obtain ⟨depth, rfl⟩ : ∃ d, depth = d + 1 := ⟨depth - 1, by omega⟩
  unfold usbStallEndpoint
  split
  · next hnone =>
    have hpos : (s.endpoint e).haltState.toNat < hs.toNat := by
      rw [hnone]
      cases hs with
      | none => exact absurd rfl hhs
      | _ => decide
    have heq : s.modifyEndpoint e (UsbEndpoint.stallWith hs) =
        s.modifyEndpoint e fun E => E.setHalt hs := by
      simp [UsbState.modifyEndpoint, UsbEndpoint.stallWith, hpos]
    rw [heq]
    dsimp only
    rw [UsbState.modifyEndpoint_endpoint_self, UsbEndpoint.setHalt_onStallChange,
      hw.onStallChange]
    cases e with
    | mscOut => rfl
    | mscIn =>
      change mscInOnStallChange _ _ _ = _
      unfold mscInOnStallChange
      rw [if_neg]
      simp [hhs]
  · next hhalt =>
    split
    · next hlt => simp [UsbState.modifyEndpoint, UsbEndpoint.stallWith, hlt]
    · next hlt => simp [UsbState.modifyEndpoint, UsbEndpoint.stallWith, hlt]

theorem stallWith_sameWiring : (s.modifyEndpoint e (UsbEndpoint.stallWith hs)).SameWiring s := by
  refine .modifyEndpoint ?_
  obtain ⟨hs', heq, -⟩ := (s.endpoint e).stallWith_eq hs
  rw [heq]
  exact ⟨⟨rfl, rfl, rfl, rfl⟩, id⟩

/-- The data phase is over. -/
def UsbState.endDataPhase (s : MscState) : MscState :=
  match s.client.msc.stallDirectionBeforeCsw with
  | .dirIn => (s.modifyMsc fun m =>
      { m with stallDirectionBeforeCsw := .dirNone, sendCswOnUnstall := true }).modifyEndpoint .mscIn
        (UsbEndpoint.stallWith .halted)
  | .dirOut => ((s.modifyMsc fun m =>
      { m with stallDirectionBeforeCsw := .dirNone }).modifyEndpoint .mscOut
        (UsbEndpoint.stallWith .halted)).sendCsw
  | .dirNone => s.sendCsw

theorem mscDataPhaseComplete_eq (hw : MscWired s) (hdepth : 1 ≤ depth) :
    mscDataPhaseComplete (usbCalls (mscDriver vdReadBlock) depth) s = .ok s.endDataPhase := by
  unfold mscDataPhaseComplete UsbState.endDataPhase
  have hstall (e : MscEndpoint) (f : Msc → Msc) :
      usbHaltEndpoint (usbCalls (mscDriver vdReadBlock) depth) e (s.modifyMsc f) =
        .ok ((s.modifyMsc f).modifyEndpoint e (UsbEndpoint.stallWith .halted)) :=
    mscStall_eq (hw.of_same (.modifyClient _ _)) (by decide) hdepth
  cases hdir : s.client.msc.stallDirectionBeforeCsw with
  | dirIn => exact hstall .mscIn _
  | dirOut =>
    dsimp only
    rw [hstall .mscOut _]
    refine mscSendCsw_eq ?_ hdepth
    rw [UsbState.modifyEndpoint_endpoint_of_ne _ _ _ _ (by decide)]
    exact hw.isIn .mscIn
  | dirNone => exact mscSendCsw_eq (hw.isIn .mscIn) hdepth

theorem endDataPhase_mscOut : s.endDataPhase.endpoint .mscOut =
    if s.client.msc.stallDirectionBeforeCsw = .dirOut then
      (s.endpoint .mscOut).stallWith .halted
    else s.endpoint .mscOut := by
  unfold UsbState.endDataPhase
  cases hdir : s.client.msc.stallDirectionBeforeCsw with
  | dirIn => exact UsbState.modifyEndpoint_endpoint_of_ne _ _ _ _ (by decide)
  | dirOut => simp [UsbState.modifyMsc]
  | dirNone => simp

theorem endDataPhase_transfer_of_ne {t : MscTransfer} (h : t ≠ .cmdResponse) :
    s.endDataPhase.transfer t = s.transfer t := by
  unfold UsbState.endDataPhase
  cases hdir : s.client.msc.stallDirectionBeforeCsw with
  | dirIn => rfl
  | dirOut => exact sendCsw_transfer_of_ne h
  | dirNone => exact sendCsw_transfer_of_ne h

/-- The end of a data phase only changes `_msc_state`, and the CSWs that were started. -/
theorem endDataPhase_streamEp : s.endDataPhase.client.streamEp = s.client.streamEp := by
  unfold UsbState.endDataPhase
  split
  · rfl
  · rw [sendCsw_client]
    rfl
  · rw [sendCsw_client]
    rfl

theorem endDataPhase_sameWiring : s.endDataPhase.SameWiring s := by
  unfold UsbState.endDataPhase
  split
  · exact stallWith_sameWiring.trans (.modifyClient _ _)
  · exact sendCsw_sameWiring.trans (stallWith_sameWiring.trans (.modifyClient _ _))
  · exact sendCsw_sameWiring

end Halts

end PicoBootrom
