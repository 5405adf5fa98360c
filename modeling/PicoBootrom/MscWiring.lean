import PicoBootrom.MscPhases

/-!
# The wiring of the mass storage interface

No function of `usb_msc.c` changes the wiring of its endpoints, or the type of the transfer that
waits for commands, whatever the library does in between.
-/

set_option linter.unusedSectionVars false

namespace PicoBootrom

theorem mscFrame : UsbFrame UsbState.SameWiring where
  refl := .refl
  trans := .trans
  endpoint := .modifyEndpoint
  transfer h := .modifyTransfer fun _ => h
  client := .modifyClient

section Functions

variable {vdReadBlock : Word → ℕ → Byte} {depth : ℕ} {c : MscCalls} {s s' : MscState}
  {cbw : ScsiCbw}

theorem mscResetAndStartCmdResponseTransfer_wiring (hc : c.Frames UsbState.SameWiring)
    {f : MscFunction} (hs' : mscResetAndStartCmdResponseTransfer c f s = .ok s') :
    s'.SameWiring s :=
  (mscFrame.startTransfer hc hs').trans (.modifyTransfer fun h => by cases h)

theorem mscSendCsw_wiring (hc : c.Frames UsbState.SameWiring) (hs' : mscSendCsw c s = .ok s') :
    s'.SameWiring s :=
  (mscResetAndStartCmdResponseTransfer_wiring hc hs').trans
    (mscResponseBuffer_sameWiring.trans (.modifyClient _ _))

theorem mscDataPhaseComplete_wiring (hc : c.Frames UsbState.SameWiring)
    (hs' : mscDataPhaseComplete c s = .ok s') : s'.SameWiring s := by
  unfold mscDataPhaseComplete at hs'
  split at hs'
  · exact (mscFrame.stallEndpoint hc hs').trans (.modifyClient _ _)
  · obtain ⟨s₁, hs₁, hs'⟩ := UsbResult.bind_eq_ok hs'
    exact (mscSendCsw_wiring hc hs').trans
      ((mscFrame.stallEndpoint hc hs₁).trans (.modifyClient _ _))
  · exact mscSendCsw_wiring hc hs'

theorem mscInitForDn_wiring (hc : c.Frames UsbState.SameWiring)
    (hs' : mscInitForDn c cbw s = .ok s') : s'.SameWiring s :=
  (mscDataPhaseComplete_wiring hc hs').trans (.modifyClient _ _)

theorem mscInitForDiOrDo_wiring (hc : c.Frames UsbState.SameWiring) {expectedLength : Word}
    {dir : ScsiDirection} {r : MscState × Bool}
    (hr : mscInitForDiOrDo c cbw expectedLength dir s = .ok r) : r.1.SameWiring s := by
  unfold mscInitForDiOrDo at hr
  dsimp only at hr
  split at hr
  · obtain ⟨s₁, hs₁, hr⟩ := UsbResult.bind_eq_ok hr
    cases hr
    exact (mscDataPhaseComplete_wiring hc hs₁).trans (.modifyClient _ _)
  · cases hr
    exact .modifyClient s fun K => K.modifyMsc (Msc.initForDiOrDo cbw expectedLength dir)

theorem scsiStandardResponse_wiring (hc : c.Frames UsbState.SameWiring)
    (hs' : scsiStandardResponse c cbw s = .ok s') : s'.SameWiring s := by
  unfold scsiStandardResponse at hs'
  obtain ⟨r, hr, hs'⟩ := UsbResult.bind_eq_ok hs'
  have hwiring : r.1.SameWiring s :=
    (mscInitForDiOrDo_wiring hc hr).trans mscFrame.currentPacketBuffer
  split at hs'
  · refine (mscResetAndStartCmdResponseTransfer_wiring hc hs').trans (.trans ?_ hwiring)
    exact (UsbState.SameWiring.modifyClient _ _).trans (.modifyEndpoint ⟨⟨rfl, rfl, rfl, rfl⟩, id⟩)
  · cases hs'
    exact hwiring

theorem scsiReadOrWriteBlocks_wiring (hc : c.Frames UsbState.SameWiring) {lba blocks : Word}
    {dir : ScsiDirection}
    (hs' : scsiReadOrWriteBlocks c vdReadBlock cbw lba blocks dir s = .ok s') :
    s'.SameWiring s := by
  unfold scsiReadOrWriteBlocks at hs'
  obtain ⟨r, hr, hs'⟩ := UsbResult.bind_eq_ok hs'
  refine .trans ?_ ((mscInitForDiOrDo_wiring hc hr).trans (.modifyClient _ _))
  dsimp only at hs'
  split at hs'
  · split at hs'
    · unfold startSectorTransfer UsbStream.setupTransfer at hs'
      dsimp only at hs'
      split at hs'
      · refine (mscFrame.startTransfer hc hs').trans (.trans (.modifyTransfer fun h => by cases h) ?_)
        exact (UsbState.SameWiring.modifyClient _ _).trans (.modifyClient _ _)
      · cases hs'
        refine (UsbState.SameWiring.modifyEndpoint ⟨⟨rfl, rfl, rfl, rfl⟩, id⟩).trans
          (.trans (.modifyTransfer fun h => by cases h) ?_)
        exact (UsbState.SameWiring.modifyClient _ _).trans (.modifyClient _ _)
    · exact mscDataPhaseComplete_wiring hc hs'
  · cases hs'
    exact .refl _

theorem mscCommand_wiring (hc : c.Frames UsbState.SameWiring)
    (hs' : mscCommand c vdReadBlock cbw s = .ok s') : s'.SameWiring s := by
  have hmemcpy {bytes : List Byte} (h : scsiMemcpyResponse c cbw bytes s = .ok s') :
      s'.SameWiring s :=
    (scsiStandardResponse_wiring hc h).trans mscResponseBuffer_sameWiring
  have hfail {key asc ascq : Byte} (h : scsiFailCmd c cbw key asc ascq s = .ok s') :
      s'.SameWiring s :=
    (mscInitForDn_wiring hc h).trans (.modifyClient _ _)
  unfold mscCommand at hs'
  split at hs'
  · exact hmemcpy hs'
  · exact hmemcpy hs'
  · exact mscInitForDn_wiring hc hs'
  · exact scsiReadOrWriteBlocks_wiring hc hs'
  · exact scsiReadOrWriteBlocks_wiring hc hs'
  · exact hmemcpy hs'
  · exact hmemcpy hs'
  · exact (scsiStandardResponse_wiring hc hs').trans
      ((UsbState.SameWiring.modifyClient _ _).trans mscResponseBuffer_sameWiring)
  · unfold scsiHandleTestUnitReady at hs'
    split at hs'
    · exact hfail hs'
    · exact mscInitForDn_wiring hc hs'
  · refine (mscInitForDn_wiring hc hs').trans ?_
    split
    · exact .modifyClient _ _
    · exact .refl _
  · exact mscInitForDn_wiring hc hs'
  · exact mscInitForDn_wiring hc hs'
  · exact hfail hs'

theorem mscCmdPacketInternal_wiring (hc : c.Frames UsbState.SameWiring)
    (hs' : mscCmdPacketInternal c vdReadBlock s = .ok s') : s'.SameWiring s := by
  unfold mscCmdPacketInternal at hs'
  refine .trans ?_ (mscFrame.currentPacketBuffer (e := .mscOut))
  dsimp only at hs'
  split at hs'
  · exact (mscCommand_wiring hc hs').trans (.modifyClient _ _)
  · unfold mscCmdHalt at hs'
    obtain ⟨s₁, hs₁, hs'⟩ := UsbResult.bind_eq_ok hs'
    exact (mscFrame.stallEndpoint hc hs').trans (mscFrame.stallEndpoint hc hs₁)

theorem mscDriver_wiring (hc : c.Frames UsbState.SameWiring) {f : MscFunction} {e : MscEndpoint}
    (hs' : mscDriver vdReadBlock c f e s = .ok s') : s'.SameWiring s := by
  cases f with
  | cmdPacket =>
    obtain ⟨s₁, hs₁, hs'⟩ := UsbResult.bind_eq_ok hs'
    exact (mscFrame.packetDone hc hs').trans (mscCmdPacketInternal_wiring hc hs₁)
  | tfWaitCommand =>
    change tfWaitCommand c s = .ok s' at hs'
    unfold tfWaitCommand usbStartDefaultTransferIfNotAlreadyRunningOrHalted at hs'
    split at hs'
    · exact mscFrame.startDefaultTransfer hc hs'
    · cases hs'
      exact .refl _
  | tfDataPhaseComplete => exact mscDataPhaseComplete_wiring hc hs'
  | inOnStallChange =>
    change mscInOnStallChange c e s = .ok s' at hs'
    unfold mscInOnStallChange at hs'
    split at hs'
    · exact mscSendCsw_wiring hc hs'
    · cases hs'
      exact .refl _
  | streamPacketHandler => exact mscFrame.packetHandler hc hs'

theorem mscCalls_frames (vdReadBlock : Word → ℕ → Byte) (depth : ℕ) :
    (usbCalls (mscDriver vdReadBlock) depth).Frames UsbState.SameWiring :=
  mscFrame.calls (fun hc _ _ _ _ hs' => mscDriver_wiring hc hs') depth

theorem countTransferred_eq (e : MscEndpoint) (packet : List Byte) (s : MscState) :
    ∃ n, countTransferred e packet s = s.modifyClient fun K => K.transfer n := by
  unfold countTransferred
  split
  · exact ⟨_, rfl⟩
  · split
    · exact ⟨_, rfl⟩
    · exact ⟨0, rfl⟩
  · exact ⟨0, rfl⟩

theorem vdAsyncComplete_wiring (hc : c.Frames UsbState.SameWiring) {token result : Word}
    (hs' : vdAsyncComplete c vdReadBlock token result s = .ok s') : s'.SameWiring s := by
  unfold vdAsyncComplete at hs'
  split at hs'
  · split at hs'
    · obtain ⟨s₁, hs₁, hs'⟩ := UsbResult.bind_eq_ok hs'
      exact (mscFrame.packetHandlerComplete hc hs').trans
        ((mscDataPhaseComplete_wiring hc hs₁).trans (.modifyClient _ _))
    · exact mscFrame.packetHandlerComplete hc hs'
  · cases hs'
    exact .refl _

/-- No event but a change of the configuration changes the wiring. -/
theorem mscStep_wiring {event : MscEvent} (hevent : ∀ num, event ≠ .setConfiguration num)
    (hs' : mscStep vdReadBlock depth s event = .ok s') : s'.SameWiring s := by
  have hc := mscCalls_frames vdReadBlock depth
  cases event with
  | buffer e packet =>
    obtain ⟨n, hn⟩ := countTransferred_eq e packet s
    exact (mscFrame.bufferInterrupt hc hs').trans (hn ▸ .modifyClient _ _)
  | asyncComplete i result =>
    unfold mscStep at hs'
    dsimp only at hs'
    split at hs'
    · exact (vdAsyncComplete_wiring hc hs').trans (.modifyClient _ _)
    · cases hs'
      exact .refl _
  | clearFeature e => exact mscFrame.clearFeature hc hs'
  | mscReset =>
    unfold mscStep at hs'
    dsimp only at hs'
    split at hs'
    · unfold mscResetRequest mscReset at hs'
      obtain ⟨s₁, hs₁, hs'⟩ := UsbResult.bind_eq_ok hs'
      refine (mscFrame.resetEndpoint hc hs').trans ((mscFrame.resetEndpoint hc hs₁).trans ?_)
      have hclear (e : MscEndpoint) (s : MscState) : (usbClearHaltCondition e s).SameWiring s := by
        refine .modifyEndpoint ?_
        split <;> exact ⟨⟨rfl, rfl, rfl, rfl⟩, id⟩
      exact (UsbState.SameWiring.modifyClient _ _).trans ((hclear _ _).trans (hclear _ _))
    · cases hs'
      exact .refl _
  | setConfiguration num => exact absurd rfl (hevent num)

end Functions

end PicoBootrom
