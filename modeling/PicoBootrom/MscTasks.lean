import PicoBootrom.MscUsb
import PicoBootrom.UsbIgnores

/-!
# Tasks left by earlier commands

A reset ends a command, but not the task of the sector that it was writing, which calls
`vd_async_complete` later, when another command may be underway. No function of the mass storage
interface looks at the tasks that are running, so such tasks (`MscClient.withLeft`) change nothing
(`mscCalls_ignores`). When one of them is done, its token is compared with the one of the sector
that is written now, and unless the two are the same nothing happens (`mscStep_left`).
-/

set_option linter.unusedSectionVars false

namespace PicoBootrom

/-- The tasks that earlier commands have left come before those of this command. -/
def MscClient.withLeft (left : List Word) (K : MscClient) : MscClient :=
  { K with tasks := left ++ K.tasks }

/-- The state with tasks that earlier commands have left. -/
def UsbState.withLeft (s : MscState) (left : List Word) : MscState :=
  s.modifyClient (MscClient.withLeft left)

/-- The state without the tasks that are running. -/
def UsbState.withoutTasks (s : MscState) : MscState :=
  s.modifyClient fun K => { K with tasks := [] }

theorem withoutTasks_withLeft (s : MscState) : s.withoutTasks.withLeft s.client.tasks = s :=
  congrArg (fun tasks => { s with client := { s.client with tasks := tasks } })
    (List.append_nil s.client.tasks)

section Left

variable {vdReadBlock : Word → ℕ → Byte} {left : List Word} {c : MscCalls} {cbw : ScsiCbw}
  {dir : ScsiDirection}

/-! ## The functions -/

theorem mscStream_ignores : (mscStream vdReadBlock).Ignores (MscClient.withLeft left) where
  transfer _ := rfl
  setTransfer _ _ := rfl
  chunkBuffer _ := rfl
  setChunkBuffer _ _ := rfl
  onPacketComplete _ := rfl
  onChunk _ K := by
    have hwrite : (K.withLeft left).writeChunk =
        (K.writeChunk.1.withLeft left, K.writeChunk.2) := by
      unfold MscClient.writeChunk MscClient.withLeft
      dsimp only
      split
      · rw [List.append_assoc]
        rfl
      · rfl
    change (K.withLeft left).onSectorStreamChunk vdReadBlock =
      ((K.onSectorStreamChunk vdReadBlock).1.withLeft left, (K.onSectorStreamChunk vdReadBlock).2)
    unfold MscClient.onSectorStreamChunk
    rw [show (K.withLeft left).streamEp = K.streamEp from rfl]
    split
    · rfl
    · exact hwrite

theorem modifyMsc_withLeft (f : Msc → Msc) (s : MscState) :
    (s.modifyClient (MscClient.withLeft left)).modifyMsc f =
      (s.modifyMsc f).modifyClient (MscClient.withLeft left) :=
  rfl

theorem msc_withLeft (K : MscClient) : (K.withLeft left).msc = K.msc :=
  rfl

section Table

variable (hc : c.Ignores (MscClient.withLeft left))

include hc

theorem mscSendCsw_ignores : UsbIgnores (MscClient.withLeft left) (mscSendCsw c) := by
  intro s
  unfold mscSendCsw mscResetAndStartCmdResponseTransfer
  exact UsbIgnores.resetAndStartTransfer hc
    (mscResponseBuffer s.client.msc.csw.bytes (s.modifyClient MscClient.sendCsw))

theorem mscDataPhaseComplete_ignores :
    UsbIgnores (MscClient.withLeft left) (mscDataPhaseComplete c) := by
  intro s
  unfold mscDataPhaseComplete usbHaltEndpoint
  rw [UsbState.modifyClient_client, msc_withLeft]
  split
  · rw [modifyMsc_withLeft]
    exact UsbIgnores.stallEndpoint hc _
  · rw [modifyMsc_withLeft]
    exact UsbIgnores.bind (UsbIgnores.stallEndpoint hc _) (mscSendCsw_ignores hc)
  · exact mscSendCsw_ignores hc s

theorem mscInitForDn_ignores : UsbIgnores (MscClient.withLeft left) (mscInitForDn c cbw) := by
  intro s
  exact mscDataPhaseComplete_ignores hc (s.modifyMsc (Msc.initForDn cbw))

theorem scsiFailCmd_ignores {key asc ascq : Byte} :
    UsbIgnores (MscClient.withLeft left) (scsiFailCmd c cbw key asc ascq) := by
  intro s
  exact mscInitForDn_ignores hc (s.modifyMsc (Msc.setCswFailed key asc ascq))

/-- What follows the start of a data phase. -/
theorem mscInitForDiOrDo_ignores {expectedLength : Word}
    {G : MscState × Bool → UsbResult MscState} (hG : ∀ b, UsbIgnores (MscClient.withLeft left)
      fun s => G (s, b)) :
    UsbIgnores (MscClient.withLeft left)
      fun s => mscInitForDiOrDo c cbw expectedLength dir s >>= G := by
  intro s
  unfold mscInitForDiOrDo
  dsimp only
  rw [modifyMsc_withLeft]
  generalize s.modifyMsc (Msc.initForDiOrDo cbw expectedLength dir) = s
  rw [UsbState.modifyClient_client, msc_withLeft]
  split
  · rw [bind_assoc, bind_assoc]
    exact UsbIgnores.bind (mscDataPhaseComplete_ignores hc s) (hG false)
  · exact hG true s

theorem scsiStandardResponse_ignores :
    UsbIgnores (MscClient.withLeft left) (scsiStandardResponse c cbw) := by
  intro s
  unfold scsiStandardResponse
  dsimp only
  rw [UsbState.modifyClient_currentPacketBuffer]
  generalize usbCurrentPacketBuffer .mscIn s = s
  rw [UsbState.modifyClient_endpoint]
  refine mscInitForDiOrDo_ignores hc (fun b s => ?_) s
  cases b with
  | false => rfl
  | true =>
    let len : Byte := s.client.msc.dataPhaseLength.setWidth 8
    exact UsbIgnores.resetAndStartTransfer hc
      ((s.modifyEndpoint .mscIn fun E => E.setDataLen len).modifyClient fun K =>
        { K.modifyMsc (Msc.takeResidue (len.setWidth 32)) with completed := len.toNat })

theorem scsiMemcpyResponse_ignores {bytes : List Byte} :
    UsbIgnores (MscClient.withLeft left) (scsiMemcpyResponse c cbw bytes) := by
  intro s
  exact scsiStandardResponse_ignores hc (mscResponseBuffer bytes s)

theorem startSectorTransfer_ignores {packets : Word} :
    UsbIgnores (MscClient.withLeft left) (startSectorTransfer c vdReadBlock packets dir) := by
  intro s
  unfold startSectorTransfer
  dsimp only
  split
  · exact UsbIgnores.startTransfer hc ((mscStream vdReadBlock).setupTransfer .sector
      .streamPacketHandler sectorSize (packets * 64) (some .tfDataPhaseComplete)
      (s.modifyClient fun K => { K with asyncToken := K.asyncToken + 1 }))
  · rfl

theorem scsiReadOrWriteBlocks_ignores {lba blocks : Word} :
    UsbIgnores (MscClient.withLeft left)
      (scsiReadOrWriteBlocks c vdReadBlock cbw lba blocks dir) := by
  intro s
  unfold scsiReadOrWriteBlocks
  dsimp only
  refine mscInitForDiOrDo_ignores hc (fun b s => ?_)
    (s.modifyClient fun K => K.setSectorTransfer (if dir = .dirIn then .mscIn else .mscOut) lba)
  cases b with
  | false => rfl
  | true =>
    dsimp only
    rw [UsbState.modifyClient_client, msc_withLeft, if_pos rfl, if_pos rfl]
    split
    · exact startSectorTransfer_ignores hc s
    · exact mscDataPhaseComplete_ignores hc s

theorem mscCommand_ignores :
    UsbIgnores (MscClient.withLeft left) (mscCommand c vdReadBlock cbw) := by
  intro s
  unfold mscCommand
  split
  · exact scsiMemcpyResponse_ignores hc s
  · exact scsiMemcpyResponse_ignores hc s
  · exact mscInitForDn_ignores hc s
  · exact scsiReadOrWriteBlocks_ignores hc s
  · exact scsiReadOrWriteBlocks_ignores hc s
  · exact scsiMemcpyResponse_ignores hc s
  · exact scsiMemcpyResponse_ignores hc s
  · exact scsiStandardResponse_ignores hc
      ((mscResponseBuffer s.client.msc.requestSense.bytes s).modifyMsc (Msc.setSense 0 0 0))
  · unfold scsiHandleTestUnitReady
    rw [UsbState.modifyClient_client, show (s.client.withLeft left).disk = s.client.disk from rfl]
    split
    · exact scsiFailCmd_ignores hc s
    · exact mscInitForDn_ignores hc s
  · unfold scsiHandleStartStopUnit
    split
    · exact mscInitForDn_ignores hc
        (s.modifyClient fun K => { K with disk := { K.disk with ejected := true } })
    · exact mscInitForDn_ignores hc s
  · exact mscInitForDn_ignores hc s
  · exact mscInitForDn_ignores hc s
  · exact scsiFailCmd_ignores hc s

theorem mscCmdPacketInternal_ignores :
    UsbIgnores (MscClient.withLeft left) (mscCmdPacketInternal c vdReadBlock) := by
  intro s
  unfold mscCmdPacketInternal
  dsimp only
  rw [show (s.modifyClient (MscClient.withLeft left)).mscPacket = s.mscPacket from rfl,
    UsbState.modifyClient_currentPacketBuffer]
  generalize s.mscPacket = packet
  generalize usbCurrentPacketBuffer .mscOut s = s
  split
  · exact mscCommand_ignores hc (s.modifyClient fun K => K.beginCommand (.ofPacket packet))
  · exact UsbIgnores.bind (UsbIgnores.stallEndpoint hc s) (UsbIgnores.stallEndpoint hc)

/-- The functions of mass storage ignore the tasks of earlier commands. -/
theorem mscDriver_ignores (f : MscFunction) (e : MscEndpoint) :
    UsbIgnores (MscClient.withLeft left) (mscDriver vdReadBlock c f e) := by
  intro s
  cases f with
  | cmdPacket =>
    exact UsbIgnores.bind (mscCmdPacketInternal_ignores hc s) (UsbIgnores.packetDone hc)
  | tfWaitCommand => exact UsbIgnores.startDefaultTransferIfNotAlreadyRunningOrHalted hc s
  | tfDataPhaseComplete => exact mscDataPhaseComplete_ignores hc s
  | inOnStallChange =>
    change mscInOnStallChange c e _ = _ <$> mscInOnStallChange c e s
    unfold mscInOnStallChange
    rw [UsbState.modifyClient_endpoint, UsbState.modifyClient_client, msc_withLeft]
    split
    · exact mscSendCsw_ignores hc s
    · rfl
  | streamPacketHandler => exact UsbIgnores.packetHandler hc mscStream_ignores s

theorem vdAsyncComplete_ignores {token result : Word} :
    UsbIgnores (MscClient.withLeft left) (vdAsyncComplete c vdReadBlock token result) := by
  intro s
  have hdone : UsbIgnores (MscClient.withLeft left)
      fun s => (mscStream vdReadBlock).chunkDone c s.client.streamEp s :=
    fun s => UsbIgnores.packetHandlerComplete hc mscStream_ignores s
  unfold vdAsyncComplete
  rw [UsbState.modifyClient_client,
    show (s.client.withLeft left).asyncToken = s.client.asyncToken from rfl]
  split
  · split
    · rw [modifyMsc_withLeft]
      exact UsbIgnores.bind (mscDataPhaseComplete_ignores hc _) hdone
    · exact hdone s
  · rfl

end Table

/-- Calls of any depth ignore the tasks of earlier commands. -/
theorem mscCalls_ignores (depth : ℕ) :
    (usbCalls (mscDriver vdReadBlock) depth).Ignores (MscClient.withLeft left) :=
  UsbIgnores.calls (fun hc => mscDriver_ignores hc) depth

/-! ## Events -/

variable {s : MscState} {e : MscEndpoint} {packet : List Byte} {depth i : ℕ} {token result : Word}

/-- A packet, while tasks of earlier commands are running. -/
theorem mscStep_buffer_withLeft :
    mscStep vdReadBlock depth (s.withLeft left) (.buffer e packet) =
      (·.withLeft left) <$> mscStep vdReadBlock depth s (.buffer e packet) := by
  have hcount : countTransferred e packet (s.withLeft left) =
      (countTransferred e packet s).withLeft left := by
    unfold countTransferred UsbState.withLeft
    rw [UsbState.modifyClient_endpoint, UsbState.modifyClient_transfer]
    split
    · rfl
    · split <;> rfl
    · rfl
  change usbBufferInterrupt _ e packet (countTransferred e packet (s.withLeft left)) = _
  rw [hcount]
  exact UsbIgnores.bufferInterrupt (mscCalls_ignores depth) (countTransferred e packet s)

/-- The end of a task, while tasks of earlier commands are running. -/
theorem mscStep_done_withLeft :
    mscStep vdReadBlock depth (s.withLeft left) (.asyncComplete (left.length + i) result) =
      (·.withLeft left) <$> mscStep vdReadBlock depth s (.asyncComplete i result) := by
  have hget : (s.withLeft left).client.tasks[left.length + i]? = s.client.tasks[i]? :=
    List.getElem?_append_right (Nat.le_add_right _ _) |>.trans (by rw [Nat.add_sub_cancel_left])
  have hrest : ((s.withLeft left).modifyClient fun K =>
      { K with tasks := K.tasks.eraseIdx (left.length + i) }) =
        (s.modifyClient fun K => { K with tasks := K.tasks.eraseIdx i }).withLeft left := by
    have heq : (left ++ s.client.tasks).eraseIdx (left.length + i) =
        left ++ s.client.tasks.eraseIdx i := by
      rw [List.eraseIdx_append_of_length_le (Nat.le_add_right _ _), Nat.add_sub_cancel_left]
    exact congrArg (fun tasks => { s with client := { s.client with tasks := tasks } }) heq
  unfold mscStep
  dsimp only
  rw [hget, hrest]
  split
  · exact vdAsyncComplete_ignores (mscCalls_ignores depth) _
  · rfl

/-- The end of a task that an earlier command has left, and that is not the one that is waited for.
-/
theorem mscStep_left (hi : left[i]? = some token) (htoken : token ≠ s.client.asyncToken) :
    mscStep vdReadBlock depth (s.withLeft left) (.asyncComplete i result) =
      .ok (s.withLeft (left.eraseIdx i)) := by
  have hlt : i < left.length := (List.getElem?_eq_some_iff.1 hi).1
  have hget : (s.withLeft left).client.tasks[i]? = some token :=
    (List.getElem?_append_left hlt).trans hi
  have hrest : ((s.withLeft left).modifyClient fun K => { K with tasks := K.tasks.eraseIdx i }) =
      s.withLeft (left.eraseIdx i) :=
    congrArg (fun tasks => { s with client := { s.client with tasks := tasks } })
      (List.eraseIdx_append_of_lt_length hlt s.client.tasks)
  unfold mscStep
  dsimp only
  rw [hget, hrest]
  exact if_neg htoken

end Left

end PicoBootrom
