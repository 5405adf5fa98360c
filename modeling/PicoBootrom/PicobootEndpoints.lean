import PicoBootrom.PicobootLog
import PicoBootrom.StreamLengths

/-!
# The endpoints of PICOBOOT between the commands

What starts and ends on the two endpoints of PICOBOOT between the streams : the transfer of the
commands, the acknowledgement, and the resets. Each of them leaves the endpoints that it does not
use as they are.
-/

set_option linter.unusedSectionVars false

namespace PicoBootrom

section Endpoints

variable {s s' : PicobootState} {e : PicobootEndpoint} {packet : List Byte} {depth : ℕ}

/-! ## The transfer of the commands -/

/-- The transfer of the commands was started. -/
structure CommandAwaited (s s' : PicobootState) : Prop where
  waits : s'.Single .picobootOut .cmd none
  picobootIn : s'.endpoint .picobootIn = s.endpoint .picobootIn
  client : s'.client = s.client

theorem usbStartDefaultTransfer_command (hw : PicobootWired s)
    (hfree : (s.endpoint .picobootOut).Free) (hdepth : 1 ≤ depth) :
    ∃ s', usbStartDefaultTransfer (usbCalls picobootDriver depth) .picobootOut s = .ok s' ∧
      CommandAwaited s s' := by
  refine ⟨s.resetCommand.armed .picobootOut .cmd, ?_, ?_, ?_, ?_⟩
  · unfold usbStartDefaultTransfer
    rw [hw.defaultTransfer, if_pos rfl]
    dsimp only
    rw [hw.cmdType]
    exact usbStartTransfer_single_out (s := s.resetCommand) hw.isIn_out
      (by simp [UsbState.resetCommand]) hdepth
  · exact UsbState.armed_single (s := s.resetCommand) hfree rfl
      (UsbState.modifyTransfer_transfer_self _ _ _)
  · rw [UsbState.armed_endpoint_of_ne (by decide)]
    rfl
  · rw [UsbState.armed_client]
    rfl

/-- `_tf_picoboot_wait_command`, when `picoboot_out` is not used. -/
theorem tfPicobootWaitCommand_free (hw : PicobootWired s) (hfree : (s.endpoint .picobootOut).Free)
    (hdepth : 1 ≤ depth) :
    ∃ s', tfPicobootWaitCommand (usbCalls picobootDriver depth) s = .ok s' ∧
      CommandAwaited s s' := by
  unfold tfPicobootWaitCommand usbStartDefaultTransferIfNotAlreadyRunningOrHalted
  rw [hw.defaultTransfer, hfree.current, if_pos ⟨hfree.notHalted, by simp⟩]
  exact usbStartDefaultTransfer_command hw hfree hdepth

/-! ## Resets -/

/-- An endpoint was reset. -/
theorem usbResetEndpoint_picobootIn (hw : PicobootWired s) (hard : Bool) {c : PicobootCalls} :
    usbResetEndpoint c .picobootIn hard s =
      .ok (s.modifyEndpoint .picobootIn fun E => E.cleared hard) := by
  rw [usbResetEndpoint_eq hard (hw.onStallChange _), if_neg]
  rw [hw.defaultTransfer]
  rintro ⟨-, h⟩
  cases h

theorem PicobootWired.cleared (hw : PicobootWired s) (e : PicobootEndpoint) (hard : Bool) :
    PicobootWired (s.modifyEndpoint e fun E => E.cleared hard) :=
  picobootFrame.endpoint ⟨⟨rfl, rfl, rfl, rfl⟩, fun _ => List.nil_suffix⟩ hw

theorem usbResetEndpoint_picobootOut (hw : PicobootWired s) (hconfig : s.currentConfigNum ≠ 0)
    (hard : Bool) (hdepth : 1 ≤ depth) :
    ∃ s', usbResetEndpoint (usbCalls picobootDriver depth) .picobootOut hard s = .ok s' ∧
      CommandAwaited s s' := by
  have hfree : (((s.modifyEndpoint .picobootOut fun E => E.cleared hard)).endpoint
      .picobootOut).Free := by
    rw [UsbState.modifyEndpoint_endpoint_self]
    exact (UsbEndpoint.cleared_quiet (hw.doubleBuffered _) hard).toFree
  obtain ⟨s', hs', hawaited⟩ :=
    usbStartDefaultTransfer_command (hw.cleared .picobootOut hard) hfree hdepth
  refine ⟨s', ?_, hawaited.waits, hawaited.picobootIn, hawaited.client⟩
  rw [usbResetEndpoint_eq hard (hw.onStallChange _), if_pos, hs']
  rw [hw.defaultTransfer]
  exact ⟨hconfig, rfl⟩

/-- `picoboot_in` was reset. -/
structure InCleared (s s' : PicobootState) : Prop where
  quiet : (s'.endpoint .picobootIn).Quiet
  given : (s'.endpoint .picobootIn).hw.given = (s.endpoint .picobootIn).hw.given

theorem inCleared (hw : PicobootWired s) (hard : Bool) :
    InCleared s (s.modifyEndpoint .picobootIn fun E => E.cleared hard) := by
  constructor
  · rw [UsbState.modifyEndpoint_endpoint_self]
    exact UsbEndpoint.cleared_quiet (hw.doubleBuffered _) hard
  · rw [UsbState.modifyEndpoint_endpoint_self]
    rfl

/-- `_picoboot_reset` leaves `picoboot_in` unused, and `picoboot_out` waits for a command. -/
theorem picobootReset_ok (hw : PicobootWired s) (hconfig : s.currentConfigNum ≠ 0)
    (hdepth : 1 ≤ depth) :
    ∃ s', picobootReset (usbCalls picobootDriver depth) s = .ok s' ∧
      s'.Single .picobootOut .cmd none ∧ InCleared s s' ∧ s'.client = s.client.reset := by
  obtain ⟨s₁, hs₁, hawaited⟩ := usbResetEndpoint_picobootOut hw hconfig false hdepth
  have hw₁ : PicobootWired s₁ :=
    picobootFrame.resetEndpoint (picobootCalls_frames depth) hs₁ hw
  have hcleared := inCleared hw₁ false
  refine ⟨(s₁.modifyEndpoint .picobootIn fun E => E.cleared false).modifyClient
    PicobootClient.reset, ?_, ?_, ⟨hcleared.quiet, ?_⟩, ?_⟩
  · unfold picobootReset usbSoftResetEndpoint
    rw [hs₁]
    change (usbResetEndpoint _ .picobootIn false s₁ >>= _) = _
    rw [usbResetEndpoint_picobootIn hw₁]
    rfl
  · have hout : (s₁.modifyEndpoint .picobootIn fun E => E.cleared false).endpoint .picobootOut =
        s₁.endpoint .picobootOut := UsbState.modifyEndpoint_endpoint_of_ne _ _ _ _ (by decide)
    exact hawaited.waits.congr hout rfl
  · exact hcleared.given.trans (by rw [hawaited.picobootIn])
  · exact congrArg PicobootClient.reset hawaited.client

theorem UsbState.not_streams_of_none (h : (s.endpoint e).currentTransfer = none) :
    ¬s.Streams e := by
  rintro (hstream | ⟨hcmd, -⟩)
  · exact nomatch h.symm.trans hstream
  · exact nomatch h.symm.trans hcmd

theorem picobootClearFeature_eq {c : PicobootCalls} (hconfig : s.currentConfigNum ≠ 0)
    (h : (s.endpoint e).Stalled .halted) :
    picobootClearFeature c e s = usbResetEndpoint c e true s := by
  have hclear : usbClearFeature c e s = usbResetEndpoint c e true s := by
    unfold usbClearFeature
    rw [if_neg hconfig, h.halted, if_pos (by decide)]
    rfl
  unfold picobootClearFeature
  rw [hclear]
  cases usbResetEndpoint c e true s with
  | error fault => rfl
  | ok s' =>
    change Except.ok (if _ then _ else _) = _
    rw [if_neg fun hstreams => UsbState.not_streams_of_none h.current hstreams.1]

/-! ## Acknowledgements -/

/-- The acknowledgement was started. -/
structure AckStarted (e : PicobootEndpoint) (s s' : PicobootState) : Prop where
  single : s'.Single e .ack (some .tfWaitCommand)
  onPacket : (s'.transfer .ack).type.onPacket = .currentPacketOnly
  endpoint : ∀ e' ≠ e, s'.endpoint e' = s.endpoint e'
  transfer : ∀ t ≠ .ack, s'.transfer t = s.transfer t
  client : s'.client = s.client.ack
  given : (s'.endpoint .picobootIn).hw.given.map (·.packet) =
    (s.endpoint .picobootIn).hw.given.map (·.packet) ++ if e = .picobootIn then [[]] else []

theorem picobootAck_free (hw : PicobootWired s) (he : s.client.status.ackEndpoint = e)
    (hfree : (s.endpoint e).Free) (hdepth : 1 ≤ depth) :
    ∃ s', picobootAck (usbCalls picobootDriver depth) s = .ok s' ∧ AckStarted e s s' := by
  have hendpoint (e' : PicobootEndpoint) :
      (s.modifyClient PicobootClient.ack).endpoint e' = s.endpoint e' := rfl
  have htransfer (t : PicobootTransfer) :
      (s.modifyClient PicobootClient.ack).transfer t = s.transfer t := rfl
  have hstart : picobootAck (usbCalls picobootDriver depth) s =
      .ok ((s.modifyClient PicobootClient.ack).armedEmpty e .ack (some .tfWaitCommand)) := by
    unfold picobootAck
    rw [he]
    exact usbStartEmptyTransfer_eq _ hdepth
  have hclient : (s.modifyClient PicobootClient.ack).client = s.client.ack := rfl
  generalize s.modifyClient PicobootClient.ack = s₁ at hendpoint htransfer hstart hclient
  rw [← hendpoint] at hfree
  refine ⟨_, hstart, UsbState.armedEmpty_single hfree _, ?_, fun e' hne => ?_, fun t ht => ?_, ?_,
    ?_⟩
  · rw [UsbState.armedEmpty_type]
    rfl
  · rw [UsbState.armedEmpty_endpoint_of_ne _ _ _ _ hne, hendpoint]
  · rw [UsbState.armedEmpty_transfer_of_ne _ _ _ _ ht, htransfer]
  · rw [UsbState.armedEmpty_client, hclient]
  · rw [← hendpoint]
    cases e with
    | picobootIn =>
      rw [if_pos rfl]
      exact UsbState.armedEmpty_given hfree ((congrArg (·.isIn) (hendpoint _)).trans (hw.isIn _)) _
    | picobootOut =>
      rw [if_neg (by decide), List.append_nil,
        UsbState.armedEmpty_endpoint_of_ne _ _ _ _ (by decide)]

/-! ## The packet of a command -/

/-- The command is read, and its packet is not done. -/
structure CommandRead (packet : List Byte) (s s' : PicobootState) : Prop where
  wired : PicobootWired s'
  picobootIn : s'.endpoint .picobootIn = s.endpoint .picobootIn
  received : (s'.endpoint .picobootOut).Received .cmd
  cmd : s'.transfer .cmd = (s.transfer .cmd).setOutstanding true
  client : s'.client = s.client.readCommand packet

/-- What `_picoboot_cmd_packet` comes to, when it has read the command. -/
def commandAction (c : PicobootCalls) (packet : List Byte) (s s' : PicobootState) :
    UsbResult PicobootState :=
  picobootCmdAction c (s.client.picoboot.readCommand packet.length (.ofPacket packet)).2 s'

/-- The interrupt for the packet of a command goes on with its end, in the state `s₂` that the
command has led to. -/
structure CommandEnds (depth : ℕ) (packet : List Byte) (s s₂ : PicobootState) : Prop where
  halted : (s₂.endpoint .picobootOut).haltState ≠ .none →
    usbBufferInterrupt (usbCalls picobootDriver (depth + 1)) .picobootOut packet s =
      .ok (((s₂.modifyTransfer .cmd fun T => T.setOutstanding false).completeTransfer .picobootOut
        .cmd).modifyTransfer .cmd UsbTransfer.dropPackets)
  done : (s₂.endpoint .picobootOut).haltState = .none →
    usbBufferInterrupt (usbCalls picobootDriver (depth + 1)) .picobootOut packet s =
      match (s₂.endpoint .picobootOut).chainTransfer with
      | some next => usbStartTransfer (usbCalls picobootDriver (depth + 1)) .picobootOut next
          (s₂.packetTaken .picobootOut .cmd)
      | none => .ok (s₂.packetTaken .picobootOut .cmd)

/-- A packet has arrived while `picoboot_out` waits for a command. -/
theorem UsbState.Single.arrives (h : s.Single .picobootOut .cmd none) (hw : PicobootWired s)
    (hlen : packet.length ≤ 64) :
    ∃ s₁, CommandRead packet s s₁ ∧ ∀ depth s₂,
      commandAction (usbCalls picobootDriver depth) packet s s₁ = .ok s₂ →
      (s₂.endpoint .picobootOut).currentTransfer = some .cmd →
      (s₂.endpoint .picobootOut).isIn = false → s₂.transfer .cmd = s₁.transfer .cmd →
      CommandEnds depth packet s s₂ := by
  obtain ⟨b, hb⟩ := h.available
  have hin : (s.endpoint .picobootOut).isIn = false := hw.isIn_out
  obtain ⟨E, hdone, hE⟩ : ∃ E, (s.endpoint .picobootOut).bufferDone packet = some (b.which, E) ∧
      E = { s.endpoint .picobootOut with
        hw := { (s.endpoint .picobootOut).hw with
          available := []
          dpram := Function.update (s.endpoint .picobootOut).hw.dpram b.which packet } } := by
    refine ⟨_, ?_, rfl⟩
    simp [UsbEndpoint.bufferDone, hb, hin]
  generalize hs₀ : (s.returned .picobootOut b.which E).modifyTransfer .cmd
    (fun T => T.setOutstanding true) = s₀
  have hE₀ : s₀.endpoint .picobootOut = E.ownOne.takeBuffer b.which := by
    rw [← hs₀]
    simp [UsbState.returned]
  have hfetch : (s₀.endpoint .picobootOut).fetchBuffer =
      { E.ownOne.takeBuffer b.which with
        currentHwBuffer := ⟨b.which, BitVec.ofNat 8 packet.length, true⟩ } := by
    rw [hE₀, hE, UsbEndpoint.fetchBuffer]
    simp [h.valid, UsbEndpoint.currentBuffer, hin]
  have hmod : packet.length % 256 = packet.length := Nat.mod_eq_of_lt (by omega)
  have hpacket : s₀.outPacket .picobootOut = packet := by
    simp only [UsbState.outPacket, usbCurrentPacketBuffer, UsbState.modifyEndpoint_endpoint_self,
      hfetch, UsbEndpoint.bufferData]
    simp [hE, hmod]
  have hclient : s₀.client = s.client := by
    rw [← hs₀]
    rfl
  have hwired : PicobootWired s₀ := by
    rw [← hs₀]
    have hkept : (E.ownOne.takeBuffer b.which).Kept E := ⟨⟨rfl, rfl, rfl, rfl⟩, id⟩
    have hreturned : PicobootWired (s.returned .picobootOut b.which E) :=
      picobootFrame.endpoint (hkept.trans (.bufferDone hdone)) hw
    exact picobootFrame.transfer rfl hreturned
  have howned : (s.endpoint .picobootOut).ownedBufferCount + 1 = 2 := by
    rw [h.owned]
    rfl
  have hread : s₀.readPacket.endpoint .picobootOut = (s₀.endpoint .picobootOut).fetchBuffer := by
    rw [UsbState.readPacket, UsbState.modifyClient_endpoint, usbCurrentPacketBuffer,
      UsbState.modifyEndpoint_endpoint_self]
  refine ⟨s₀.readPacket, ⟨?_, ?_, ?_, ?_, ?_⟩, fun depth s₂ hs₂ hcurrent hin₂ hT => ?_⟩
  · exact picobootFrame.client _ _ (picobootFrame.currentPacketBuffer hwired)
  · rw [← hs₀]
    rfl
  · rw [hread, hfetch, hE]
    exact ⟨h.current, h.notHalted, h.chain, howned, rfl⟩
  · rw [← hs₀]
    simp [UsbState.readPacket, usbCurrentPacketBuffer, UsbState.returned]
  · change s₀.client.readCommand (s₀.outPacket .picobootOut) = _
    rw [hpacket, hclient]
  · let body : UsbDriver PicobootEndpoint PicobootTransfer PicobootFunction PicobootClient :=
      fun c _ e s => picobootCmdPacketInternal c e s
    have hbody : body (usbCalls picobootDriver depth) .cmdPacket .picobootOut
        ((s.returned .picobootOut b.which E).modifyTransfer .cmd fun T => T.setOutstanding true) =
          .ok s₂ := by
      rw [hs₀]
      change picobootCmdAction _ (s₀.client.picoboot.readCommand
        (s₀.outPacket .picobootOut).length (.ofPacket (s₀.outPacket .picobootOut))).2
          s₀.readPacket = _
      rw [hpacket, hclient]
      exact hs₂
    have hT₁ : s₀.readPacket.transfer .cmd = (s.transfer .cmd).setOutstanding true := by
      rw [← hs₀]
      simp [UsbState.readPacket, usbCurrentPacketBuffer, UsbState.returned]
    have hinterrupt := usbBufferInterrupt_single_out h.toAwaits hin (by rw [hw.cmdType])
      (fun _ _ => rfl) hdone hbody hcurrent hin₂ (hT.trans hT₁)
    refine ⟨fun hhalt => ?_, fun hnone => ?_⟩
    · rw [hinterrupt, if_neg hhalt]
    · have hcomplete : (s₂.transfer .cmd).onComplete = none := by
        rw [hT, hT₁]
        exact h.onComplete
      rw [hinterrupt, if_pos hnone, UsbState.finish_of_chain hcomplete]
      cases (s₂.endpoint .picobootOut).chainTransfer <;> rfl

/-! ## What a command leads to -/

/-- A command is refused. -/
theorem command_refused (h : s.Single .picobootOut .cmd none) (hw : PicobootWired s)
    (hin : (s.endpoint .picobootIn).Free) (hlen : packet.length ≤ 64)
    (hcmd : ¬(PicobootCmd.ofPacket packet).Accepted packet.length) (hdepth : 1 ≤ depth) :
    ∃ s', usbBufferInterrupt (usbCalls picobootDriver depth) .picobootOut packet s = .ok s' ∧
      (∀ e, (s'.endpoint e).Stalled .halted) ∧
      (s'.endpoint .picobootIn).hw.given = (s.endpoint .picobootIn).hw.given ∧
      s'.client = s.client.readCommand packet := by
  obtain ⟨depth, rfl⟩ : ∃ d, depth = d + 1 := ⟨depth - 1, by omega⟩
  obtain ⟨s₁, hread, hends⟩ := h.arrives hw hlen
  have hhalt (e : PicobootEndpoint) : ((s₁.modifyEndpoint .picobootIn
      UsbEndpoint.halt).modifyEndpoint .picobootOut UsbEndpoint.halt).endpoint e =
        (s₁.endpoint e).halt := by
    cases e <;> simp [UsbState.modifyEndpoint]
  have haction : commandAction (usbCalls picobootDriver depth) packet s s₁ =
      .ok ((s₁.modifyEndpoint .picobootIn UsbEndpoint.halt).modifyEndpoint .picobootOut
        UsbEndpoint.halt) := by
    rw [commandAction, readCommand_of_not_accepted hcmd]
    unfold picobootCmdAction
    rw [usbHaltEndpoint_eq (hread.wired.onStallChange _)]
    exact usbHaltEndpoint_eq (hread.wired.onStallChange _)
  have hnone (e : PicobootEndpoint) : (s₁.endpoint e).haltState = .none := by
    cases e with
    | picobootIn => rw [hread.picobootIn]; exact hin.notHalted
    | picobootOut => exact hread.received.notHalted
  have hclient : ((s₁.modifyEndpoint .picobootIn UsbEndpoint.halt).modifyEndpoint .picobootOut
      UsbEndpoint.halt).client = s₁.client := rfl
  have hT : ((s₁.modifyEndpoint .picobootIn UsbEndpoint.halt).modifyEndpoint .picobootOut
      UsbEndpoint.halt).transfer .cmd = s₁.transfer .cmd := rfl
  generalize (s₁.modifyEndpoint .picobootIn UsbEndpoint.halt).modifyEndpoint .picobootOut
    UsbEndpoint.halt = s₂ at hhalt haction hclient hT
  have hhalted (e : PicobootEndpoint) : (s₂.endpoint e).haltState = .halted := by
    rw [hhalt]
    exact UsbEndpoint.halt_halted (.inl (hnone e))
  have hend := (hends depth s₂ haction (by rw [hhalt, UsbEndpoint.halt_eq]; exact hread.received.current)
    (by rw [hhalt, UsbEndpoint.halt_eq]; exact hread.wired.isIn_out) hT).halted
    (by rw [hhalted]; decide)
  refine ⟨_, hend, fun e => ?_, ?_, ?_⟩
  · cases e with
    | picobootIn =>
      have hnone : (s₂.endpoint .picobootIn).currentTransfer = none := by
        rw [hhalt, UsbEndpoint.halt_eq, hread.picobootIn]
        exact hin.current
      constructor
      · simp [UsbState.completeTransfer, UsbState.modifyEndpoint, hnone]
      · simp [UsbState.completeTransfer, UsbState.modifyEndpoint, hhalted]
    | picobootOut =>
      constructor
      · simp [UsbState.completeTransfer]
      · simp [UsbState.completeTransfer, hhalted]
  · have hgiven : (s₂.endpoint .picobootIn).hw.given = (s.endpoint .picobootIn).hw.given := by
      rw [hhalt, UsbEndpoint.halt_eq, hread.picobootIn]
      rfl
    simpa [UsbState.completeTransfer, UsbState.modifyEndpoint] using hgiven
  · exact hclient.trans hread.client

/-- A command is done with its packet, and leaves `picoboot_out` unused. -/
theorem CommandEnds.unchained {s₂ : PicobootState} (h : CommandEnds depth packet s s₂)
    (hreceived : (s₂.endpoint .picobootOut).Received .cmd) :
    ∃ s', usbBufferInterrupt (usbCalls picobootDriver (depth + 1)) .picobootOut packet s = .ok s' ∧
      (s'.endpoint .picobootOut).Rests ∧ s'.endpoint .picobootIn = s₂.endpoint .picobootIn ∧
      (∀ t ≠ .cmd, s'.transfer t = s₂.transfer t) ∧ s'.client = s₂.client := by
  have hend := h.done hreceived.notHalted
  rw [hreceived.chain] at hend
  refine ⟨_, hend, ?_, ?_, fun t ht => ?_, rfl⟩
  · rw [UsbState.packetTaken_endpoint]
    exact hreceived.rests
  · rw [UsbState.packetTaken_endpoint_of_ne _ _ _ (by decide)]
  · rw [UsbState.packetTaken_transfer_of_ne _ _ _ ht]

/-- The device reboots, and the command is acknowledged. -/
theorem command_rebooted (h : s.Single .picobootOut .cmd none) (hw : PicobootWired s)
    (hin : (s.endpoint .picobootIn).Free)
    (hcmd : (PicobootCmd.ofPacket packet).Accepted packet.length)
    (hid : (PicobootCmd.ofPacket packet).bCmdId = pcReboot) (hdepth : 2 ≤ depth) :
    ∃ s', usbBufferInterrupt (usbCalls picobootDriver depth) .picobootOut packet s = .ok s' ∧
      s'.Single .picobootIn .ack (some .tfWaitCommand) ∧
      (s'.transfer .ack).type.onPacket = .currentPacketOnly ∧ (s'.endpoint .picobootOut).Rests ∧
      (s'.endpoint .picobootIn).hw.given.map (·.packet) =
        (s.endpoint .picobootIn).hw.given.map (·.packet) ++ [[]] ∧
      s'.client = ((s.client.readCommand packet).reboot (PicobootCmd.ofPacket packet).arg0
        (PicobootCmd.ofPacket packet).arg1 (PicobootCmd.ofPacket packet).arg2).ack := by
  obtain ⟨depth, rfl⟩ : ∃ d, depth = d + 1 := ⟨depth - 1, by omega⟩
  obtain ⟨s₁, hread, hends⟩ := h.arrives hw (by rw [hcmd.length]; omega)
  have hstatus := readCommand_bCmdId hcmd.length hcmd.magic s.client.picoboot
  have haction := readCommand_of_accepted hcmd s.client.picoboot
  rw [PicobootCmd.action, if_pos hid] at haction
  rw [hid] at hstatus
  generalize PicobootCmd.arg0 (.ofPacket packet) = pc at haction ⊢
  generalize PicobootCmd.arg1 (.ofPacket packet) = sp at haction ⊢
  generalize PicobootCmd.arg2 (.ofPacket packet) = delayMs at haction ⊢
  have hep : (s₁.modifyClient (PicobootClient.reboot pc sp delayMs)).client.status.ackEndpoint =
      .picobootIn := by
    change (s₁.client.status).ackEndpoint = _
    rw [hread.client]
    unfold PicobootCmdStatus.ackEndpoint
    change (if (s.client.picoboot.readCommand packet.length (.ofPacket packet)).1.currentCmdStatus.bCmdId
      &&& 0x80 ≠ 0 then _ else _) = _
    rw [hstatus]
    rfl
  have hin₁ : ((s₁.modifyClient (PicobootClient.reboot pc sp delayMs)).endpoint .picobootIn).Free := by
    rw [UsbState.modifyClient_endpoint, hread.picobootIn]
    exact hin
  obtain ⟨s₂, hs₂, hack⟩ := picobootAck_free (picobootFrame.client _ _ hread.wired) hep hin₁
    (by omega : 1 ≤ depth)
  have hout : s₂.endpoint .picobootOut = s₁.endpoint .picobootOut := hack.endpoint _ (by decide)
  have hcommand : commandAction (usbCalls picobootDriver depth) packet s s₁ = .ok s₂ := by
    rw [commandAction, haction]
    exact hs₂
  have hreceived : (s₂.endpoint .picobootOut).Received .cmd := by
    rw [hout]
    exact hread.received
  obtain ⟨s', hs', hrests, hpicobootIn, htransfer, hclient⟩ :=
    (hends depth s₂ hcommand hreceived.current (by rw [hout]; exact hread.wired.isIn_out)
      (hack.transfer _ (by decide))).unchained hreceived
  refine ⟨s', hs', hack.single.congr hpicobootIn (htransfer _ (by decide)), ?_, hrests, ?_, ?_⟩
  · rw [htransfer _ (by decide)]
    exact hack.onPacket
  · rw [hpicobootIn, hack.given, if_pos rfl, UsbState.modifyClient_endpoint, hread.picobootIn]
  · rw [hclient, hack.client, UsbState.modifyClient_client, hread.client]

/-- The single task of a command is queued. -/
theorem command_queued (h : s.Single .picobootOut .cmd none) (hw : PicobootWired s)
    (hcmd : (PicobootCmd.ofPacket packet).Accepted packet.length)
    (hid : (PicobootCmd.ofPacket packet).bCmdId ≠ pcReboot)
    (hlength : (PicobootCmd.ofPacket packet).dTransferLength = 0) (hdepth : 1 ≤ depth) :
    ∃ s', usbBufferInterrupt (usbCalls picobootDriver depth) .picobootOut packet s = .ok s' ∧
      (s'.endpoint .picobootOut).Rests ∧ s'.endpoint .picobootIn = s.endpoint .picobootIn ∧
      s'.client = (s.client.readCommand packet).queueCommandTask := by
  obtain ⟨depth, rfl⟩ : ∃ d, depth = d + 1 := ⟨depth - 1, by omega⟩
  obtain ⟨s₁, hread, hends⟩ := h.arrives hw (by rw [hcmd.length]; omega)
  have haction := readCommand_of_accepted hcmd s.client.picoboot
  rw [PicobootCmd.action, if_neg hid, if_pos hlength] at haction
  have hcommand : commandAction (usbCalls picobootDriver depth) packet s s₁ =
      .ok (s₁.modifyClient PicobootClient.queueCommandTask) := by
    rw [commandAction, haction]
    rfl
  have hreceived : ((s₁.modifyClient PicobootClient.queueCommandTask).endpoint
      .picobootOut).Received .cmd := hread.received
  obtain ⟨s', hs', hrests, hpicobootIn, -, hclient⟩ :=
    (hends depth _ hcommand hreceived.current hread.wired.isIn_out rfl).unchained hreceived
  refine ⟨s', hs', hrests, hpicobootIn.trans hread.picobootIn, ?_⟩
  rw [hclient, UsbState.modifyClient_client, hread.client]

/-- The client of a stream that was just set up. -/
def PicobootClient.startStream (ep : PicobootEndpoint) (transferLength : Word) (K : PicobootClient) :
    PicobootClient :=
  (picobootStream.setTransfer ⟨0, transferLength, flashPageSize⟩ K).setStreamEp ep

/-- A stream is set up for its packets, on an endpoint that is not used. -/
theorem picobootLine_start (hw : PicobootWired s) (hfree : (s.endpoint e).Free) {len : Word}
    (hlen : len.toNat ≤ 2 ^ 32 - 64)
    (hT : s.transfer .stream = (UsbTransfer.reset ⟨.driver .streamPacketHandler, 0⟩
      (some .tfAck)).grow ((len + 63) / 64)) :
    UsbLine (picobootLine e ((len.toNat + 63) / 64) (s.endpoint e).currentGiveBuffer)
      (((s.endpoint e).setTransfer (some .stream)).setChain none) (s.transfer .stream).start 0 0 0 where
  current := rfl
  isIn := hw.isIn e
  defaultTransfer := hw.defaultTransfer e
  onStallChange := hw.onStallChange e
  doubleBuffered := hw.doubleBuffered e
  notHalted := hfree.notHalted
  chain := rfl
  onPacket := by rw [hT]; rfl
  onComplete := by rw [hT]; rfl
  notCompleted := by rw [hT]; rfl
  submit := by
    rw [hT]
    simp [picobootLine]
    omega
  handle := by
    rw [hT]
    simp [picobootLine]
    omega
  owned := by simp [hfree.owned]
  available := by simp [hfree.available]
  give := by simp [picobootLine]
  returned_le := Nat.le_refl 0

theorem UsbState.started_eq_place (s : PicobootState) (e : PicobootEndpoint)
    (t : PicobootTransfer) :
    s.started e t = s.place e t (((s.endpoint e).setTransfer (some t)).setChain none)
      (s.transfer t).start s.client :=
  rfl

/-- A stream was set up. -/
structure StreamSetUp (ep : PicobootEndpoint) (len : Word) (s s' : PicobootState) : Prop where
  wired : PicobootWired s'
  endpoint : s'.endpoint = s.endpoint
  cmd : s'.transfer .cmd = s.transfer .cmd
  stream : s'.transfer .stream = (UsbTransfer.reset ⟨.driver .streamPacketHandler, 0⟩
    (some .tfAck)).grow ((len + 63) / 64)
  client : s'.client = s.client.startStream ep len

theorem setupPicobootStream_setUp (hw : PicobootWired s) (ep : PicobootEndpoint) (len : Word) :
    StreamSetUp ep len s (setupPicobootStream ep len s) where
  wired := picobootFrame.client _ _ (PicobootWired.Kept.modifyTransfer (by decide) _
    (picobootFrame.client _ _ hw))
  endpoint := rfl
  cmd := by
    unfold setupPicobootStream UsbStream.setupTransfer
    rw [UsbState.modifyClient_transfer, UsbState.modifyTransfer_transfer_of_ne _ _ _ _ (by decide),
      UsbState.modifyClient_transfer]
  stream := by
    unfold setupPicobootStream UsbStream.setupTransfer
    rw [UsbState.modifyClient_transfer, UsbState.modifyTransfer_transfer_self]
  client := rfl

/-- The machine is not changed by the packets of a read. -/
theorem picobootStream_machine (m : Machine) (K : PicobootClient) (bytes : List Byte)
    (h : K.machine = m) :
    ((picobootStream.handler true).receive K bytes).1.machine = m ∧
      ((picobootStream.handler true).finish K bytes).1.machine = m := by
  refine ⟨?_, h⟩
  simp only [UsbStream.handler, UsbStream.callOnChunk, if_true]
  split <;> exact h

theorem picobootAction_read (c : PicobootCalls) (len : Word) (s : PicobootState) :
    picobootCmdAction c (.stream atRead len) s =
      usbStartTransfer c .picobootIn .stream (setupPicobootStream .picobootIn len s) := by
  have hread : ¬atRead &&& atWrite ≠ 0 := by decide
  unfold picobootCmdAction
  exact if_neg hread

theorem picobootAction_write (c : PicobootCalls) (len : Word) (s : PicobootState) :
    picobootCmdAction c (.stream atWrite len) s =
      .ok (usbChainTransfer .picobootOut .stream (setupPicobootStream .picobootOut len s)) := by
  have hwrite : atWrite &&& atWrite ≠ 0 := by decide
  unfold picobootCmdAction
  exact if_pos hwrite

/-- A read starts on `picoboot_in`. -/
theorem command_reads {x : ChunkStream} (h : s.Single .picobootOut .cmd none) (hw : PicobootWired s)
    (hin : (s.endpoint .picobootIn).Rests)
    (hcmd : (PicobootCmd.ofPacket packet).Accepted packet.length)
    (hid : (PicobootCmd.ofPacket packet).bCmdId ≠ pcReboot)
    (hread : (PicobootCmd.ofPacket packet).id ≠ 5) (hx : x.cmd = .ofPacket packet)
    (hidle : x.ReadIdle [] 0 ((s.client.readCommand packet).startStream .picobootIn
      (PicobootCmd.ofPacket packet).dTransferLength)) (hdepth : 4 ≤ depth) :
    ∃ s', usbBufferInterrupt (usbCalls picobootDriver depth) .picobootOut packet s = .ok s' ∧
      (s'.endpoint .picobootOut).Rests ∧
      InServing (picobootLine .picobootIn x.shape.packetCount
          (s.endpoint .picobootIn).currentGiveBuffer)
        (x.shape.packet (ChunkStream.readByte []))
        ((s.endpoint .picobootIn).hw.given.map (·.packet)) (x.ReadIdle []) (x.ReadQueued []) 0
        (s'.endpoint .picobootIn) (s'.transfer .stream) s'.client ∧
      s'.client.machine = s.client.machine := by
  obtain ⟨depth, rfl⟩ : ∃ d, depth = d + 1 := ⟨depth - 1, by omega⟩
  obtain ⟨s₁, hcommand, hends⟩ := h.arrives hw (by rw [hcmd.length]; omega)
  have haction := readCommand_of_accepted hcmd s.client.picoboot
  have hlength : (PicobootCmd.ofPacket packet).dTransferLength ≠ 0 := hx ▸ x.length_ne_zero
  have hfits : (PicobootCmd.ofPacket packet).dTransferLength.toNat ≤ 2 ^ 32 - 64 := by
    have hfits := x.fits
    rw [hx] at hfits
    omega
  have hcount : x.shape.packetCount =
      ((PicobootCmd.ofPacket packet).dTransferLength.toNat + 63) / 64 := by
    rw [← hx]
    rfl
  rw [PicobootCmd.action, if_neg hid, if_neg hlength, if_neg hread] at haction
  generalize PicobootCmd.dTransferLength (.ofPacket packet) = len at haction hidle hfits hcount
  have hset := setupPicobootStream_setUp hcommand.wired .picobootIn len
  generalize hs₂ : setupPicobootStream .picobootIn len s₁ = s₂ at hset
  have hin₂ : s₂.endpoint .picobootIn = s.endpoint .picobootIn := by
    rw [hset.endpoint, hcommand.picobootIn]
  have hclient₂ : s₂.client = (s.client.readCommand packet).startStream .picobootIn len := by
    rw [hset.client, hcommand.client]
  have hl := picobootLine_start hset.wired (hin₂ ▸ hin.toFree) hfits hset.stream
  rw [← hcount, hin₂] at hl
  have hi : InLine (picobootLine .picobootIn x.shape.packetCount
      (s.endpoint .picobootIn).currentGiveBuffer) (x.shape.packet (ChunkStream.readByte []))
      ((s.endpoint .picobootIn).hw.given.map (·.packet))
      (((s.endpoint .picobootIn).setTransfer (some .stream)).setChain none)
      (s₂.transfer .stream).start 0 0 0 :=
    ⟨hl, by simp, hin.which (hw.isIn _)⟩
  rw [← hclient₂] at hidle
  obtain ⟨E', T', K', heq, hserve⟩ := InServing.start
    (picobootLine_handles .picobootIn x.shape.packetCount _ _)
    ((x.serves_read []).and (fun K bytes h => (picobootStream_machine s₂.client.machine K bytes h).1)
      fun K bytes h => (picobootStream_machine s₂.client.machine K bytes h).2)
    (fun hn K hK => x.prompt_read [] hn K hK.1) rfl hi (by rw [hset.stream]; rfl)
    x.shape.packetCount_pos ⟨hidle, rfl⟩ (by omega : 3 ≤ depth) (s := s₂)
  obtain ⟨hserve, hmachine⟩ := hserve.split
  generalize hs₃ : s₂.place .picobootIn .stream E' T' K' = s₃
  have hE₃ : s₃.endpoint .picobootIn = E' := by
    rw [← hs₃, UsbState.place_endpoint]
  have hT₃ : s₃.transfer .stream = T' := by
    rw [← hs₃, UsbState.place_transfer]
  have hK₃ : s₃.client = K' := by
    rw [← hs₃]
    rfl
  have hne : PicobootEndpoint.picobootOut ≠ .picobootIn := by decide
  have hout : s₃.endpoint .picobootOut = s₁.endpoint .picobootOut := by
    rw [← hs₃, s₂.place_endpoint_of_ne .stream E' T' K' hne, hset.endpoint]
  have hcmd₃ : s₃.transfer .cmd = s₁.transfer .cmd := by
    rw [← hset.cmd, ← hs₃]
    simp [UsbState.place]
  have hstart : commandAction (usbCalls picobootDriver depth) packet s s₁ = .ok s₃ := by
    rw [commandAction, haction, ← hs₃, picobootAction_read, hs₂]
    change usbGiveAsManyBuffersAsPossible _ .picobootIn (s₂.started .picobootIn .stream) = _
    rw [UsbState.started_eq_place, hin₂]
    exact heq
  have hreceived : (s₃.endpoint .picobootOut).Received .cmd := by
    rw [hout]
    exact hcommand.received
  obtain ⟨s', hs', hrests, hpicobootIn, htransfer, hclient⟩ :=
    (hends depth s₃ hstart hreceived.current (by rw [hout]; exact hcommand.wired.isIn_out)
      hcmd₃).unchained hreceived
  refine ⟨s', hs', hrests, ?_, ?_⟩
  · rw [hpicobootIn, htransfer _ (by decide), hclient, hE₃, hT₃, hK₃]
    exact hserve
  · rw [hclient, hK₃, hmachine, hclient₂]
    rfl

/-- A write starts on `picoboot_out`. -/
theorem command_writes {x : ChunkStream} (packets : ℕ → List Byte)
    (h : s.Single .picobootOut .cmd none) (hw : PicobootWired s)
    (hcmd : (PicobootCmd.ofPacket packet).Accepted packet.length)
    (hid : (PicobootCmd.ofPacket packet).bCmdId ≠ pcReboot)
    (hwrite : (PicobootCmd.ofPacket packet).id = 5) (hx : x.cmd = .ofPacket packet)
    (hidle : x.WriteIdle packets 0 0 ((s.client.readCommand packet).startStream .picobootOut
      (PicobootCmd.ofPacket packet).dTransferLength)) (hdepth : 2 ≤ depth) :
    ∃ s' first, usbBufferInterrupt (usbCalls picobootDriver depth) .picobootOut packet s = .ok s' ∧
      s'.endpoint .picobootIn = s.endpoint .picobootIn ∧
      OutServing (picobootLine .picobootOut x.shape.packetCount first) packets
        (x.WriteIdle packets 0) (x.WriteQueued packets 0) 0 (s'.endpoint .picobootOut)
        (s'.transfer .stream) s'.client ∧
      s'.client.machine = s.client.machine := by
  obtain ⟨depth, rfl⟩ : ∃ d, depth = d + 1 := ⟨depth - 1, by omega⟩
  obtain ⟨s₁, hcommand, hends⟩ := h.arrives hw (by rw [hcmd.length]; omega)
  have haction := readCommand_of_accepted hcmd s.client.picoboot
  have hlength : (PicobootCmd.ofPacket packet).dTransferLength ≠ 0 := hx ▸ x.length_ne_zero
  have hfits : (PicobootCmd.ofPacket packet).dTransferLength.toNat ≤ 2 ^ 32 - 64 := by
    have hfits := x.fits
    rw [hx] at hfits
    omega
  have hcount : x.shape.packetCount =
      ((PicobootCmd.ofPacket packet).dTransferLength.toNat + 63) / 64 := by
    rw [← hx]
    rfl
  rw [PicobootCmd.action, if_neg hid, if_neg hlength, if_pos hwrite] at haction
  generalize PicobootCmd.dTransferLength (.ofPacket packet) = len at haction hidle hfits hcount
  have hset := setupPicobootStream_setUp hcommand.wired .picobootOut len
  generalize hs₂ : setupPicobootStream .picobootOut len s₁ = s₂ at hset
  have hstart : commandAction (usbCalls picobootDriver depth) packet s s₁ =
      .ok (usbChainTransfer .picobootOut .stream s₂) := by
    rw [commandAction, haction, picobootAction_write, hs₂]
  have hout : (usbChainTransfer .picobootOut .stream s₂).endpoint .picobootOut =
      (s₁.endpoint .picobootOut).setChain (some .stream) := by
    rw [usbChainTransfer, UsbState.modifyEndpoint_endpoint_self, hset.endpoint]
  have hin : (usbChainTransfer .picobootOut .stream s₂).endpoint .picobootIn =
      s.endpoint .picobootIn := by
    rw [usbChainTransfer, UsbState.modifyEndpoint_endpoint_of_ne _ _ _ _ (by decide), hset.endpoint,
      hcommand.picobootIn]
  have htransfer (t : PicobootTransfer) :
      (usbChainTransfer .picobootOut .stream s₂).transfer t = s₂.transfer t := rfl
  have hclient : (usbChainTransfer .picobootOut .stream s₂).client =
      (s.client.readCommand packet).startStream .picobootOut len := by
    rw [← hcommand.client, ← hset.client]
    rfl
  have hw₃ : PicobootWired (usbChainTransfer .picobootOut .stream s₂) :=
    picobootFrame.endpoint ⟨⟨rfl, rfl, rfl, rfl⟩, id⟩ hset.wired
  generalize usbChainTransfer .picobootOut .stream s₂ = s₃ at hstart hout hin htransfer hclient hw₃
  have hreceived := hcommand.received
  have hend := (hends depth s₃ hstart (by rw [hout]; exact hreceived.current) hw₃.isIn_out
    ((htransfer _).trans hset.cmd)).done (by rw [hout]; exact hreceived.notHalted)
  rw [hout, UsbEndpoint.setChain_chainTransfer] at hend
  have hw₄ : PicobootWired (s₃.packetTaken .picobootOut .cmd) :=
    picobootFrame.completeTransfer (picobootFrame.transfer rfl
      (picobootFrame.endpoint ⟨⟨rfl, rfl, rfl, rfl⟩, id⟩ hw₃))
  have hfree : ((s₃.packetTaken .picobootOut .cmd).endpoint .picobootOut).Free := by
    rw [UsbState.packetTaken_endpoint, hout]
    exact ⟨rfl, hreceived.notHalted, hreceived.owned, hreceived.available⟩
  have hin₄ : (s₃.packetTaken .picobootOut .cmd).endpoint .picobootIn = s.endpoint .picobootIn := by
    rw [UsbState.packetTaken_endpoint_of_ne _ _ _ (by decide), hin]
  have hT₄ : (s₃.packetTaken .picobootOut .cmd).transfer .stream =
      (UsbTransfer.reset ⟨.driver .streamPacketHandler, 0⟩ (some .tfAck)).grow ((len + 63) / 64) := by
    rw [UsbState.packetTaken_transfer_of_ne _ _ _ (by decide), htransfer, hset.stream]
  have hclient₄ : (s₃.packetTaken .picobootOut .cmd).client = s₃.client := rfl
  generalize s₃.packetTaken .picobootOut .cmd = s₄ at hend hw₄ hfree hin₄ hT₄ hclient₄
  have hl := picobootLine_start hw₄ hfree hfits hT₄
  rw [← hcount] at hl
  rw [← hclient, ← hclient₄] at hidle
  have hstarts : ∃ E' T', usbGiveAsManyBuffersAsPossible (usbCalls picobootDriver (depth + 1))
      .picobootOut (s₄.place .picobootOut .stream (((s₄.endpoint .picobootOut).setTransfer
        (some .stream)).setChain none) (s₄.transfer .stream).start s₄.client) =
          .ok (s₄.place .picobootOut .stream E' T' s₄.client) ∧
      OutServing (picobootLine .picobootOut x.shape.packetCount
        (s₄.endpoint .picobootOut).currentGiveBuffer) packets (x.WriteIdle packets 0)
          (x.WriteQueued packets 0) 0 E' T' s₄.client :=
    OutServing.start rfl hl (by rw [hT₄]; rfl) (by rw [hT₄]; rfl) x.shape.packetCount_pos hidle _
      hdepth
  obtain ⟨E', T', heq, hserve⟩ := hstarts
  refine ⟨s₄.place .picobootOut .stream E' T' s₄.client,
    (s₄.endpoint .picobootOut).currentGiveBuffer, ?_, ?_, ?_, ?_⟩
  · rw [hend, ← heq]
    rfl
  · have hne : PicobootEndpoint.picobootIn ≠ .picobootOut := by decide
    rw [s₄.place_endpoint_of_ne .stream E' T' s₄.client hne, hin₄]
  · rw [UsbState.place_endpoint, UsbState.place_transfer]
    exact hserve
  · change s₄.client.machine = _
    rw [hclient₄, hclient]
    rfl

end Endpoints

end PicoBootrom
