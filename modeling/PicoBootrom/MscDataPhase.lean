import PicoBootrom.MscPlan
import PicoBootrom.MscStreams

/-!
# The data phase of a command

From the packet of a command to the start of its CSW. `NoteOk` is what is right about a CSW, under
two conditions that not all hosts and not all disks meet : every packet of a write has 64 bytes
(`full`), and no task ends in an error (`clean`). `Reading`, `Responding` and `Ended` are the
states of `msc_in` and of the client during the data phase and after it. `CommandBody` is what
`_msc_cmd_packet` leaves of an accepted command (`mscCommand_body`).
-/

set_option linter.unusedSectionVars false

namespace PicoBootrom

/-! ## What is right about a CSW -/

/-- The note of the CSW that the client would start. -/
def MscClient.note (K : MscClient) : CswNote := ⟨K.msc.csw, K.completed, K.transferred⟩

/-- The CSW is right for the command. -/
structure NoteOk (full clean : Prop) (cbw : ScsiCbw) (note : CswNote) : Prop where
  tag : note.csw.tag = cbw.tag
  residue : full → note.csw.residue.toNat + note.completed = cbw.hostLength
  completed_le : note.completed ≤ note.transferred
  complete : note.csw.status = .commandFailed ∨ note.completed = note.transferred
  planned : full → clean → note.transferred = cbw.plan.moved ∧
    (note.csw.status = .phaseError ↔ cbw.plan.phaseError = true)
  passed : clean → cbw.cmd.data ≠ .none → cbw.plan.phaseError = false →
    note.csw.status = .commandPassed

/-- The CSW of the last command is still to be started, and there is no task. -/
structure Underway (cbw : ScsiCbw) (K₀ : MscClient) (K : MscClient) :
    Prop where
  accepted : K.accepted = K₀.accepted ++ [cbw]
  csws : K.csws = K₀.csws
  tasks : K.tasks = []

/-- The stream is the one that a command starts. -/
structure SectorStream.Origin (x : SectorStream) (cbw : ScsiCbw) (K₀ : MscClient) : Prop
    extends Planned cbw K₀ x.base where
  moved : cbw.plan.moved = 64 * x.packets
  lba : x.base.lba = cbw.lba
  token : x.base.asyncToken = K₀.asyncToken + 1

/-! ## The states of a data phase -/

section States

variable (vdReadBlock : Word → ℕ → Byte) (full clean : Prop) (cbw : ScsiCbw) (K₀ : MscClient)

/-- The sectors of a stream go to the host, after `k` packets. `base` has the packets before. -/
structure Reading (x : SectorStream) (base : List (List Byte)) (k : ℕ) (s : MscState) : Prop where
  origin : x.Origin cbw K₀
  serving : InServing (x.setup true) (x.shape.packet (x.bytes vdReadBlock)) base
    (x.InIdle vdReadBlock) (fun _ _ => False) k (s.endpoint .mscIn) (s.transfer .sector) s.client
  transferred : s.client.transferred = 64 * k

/-- The host has not taken the response to a command yet. -/
structure Responding (packet : List Byte) (s : MscState) : Prop where
  responds : MscResponds .tfDataPhaseComplete packet s
  underway : Underway cbw K₀ s.client
  noteOk : NoteOk full clean cbw (s.client.transfer packet.length).note
  stall : s.client.msc.stallDirectionBeforeCsw = cbw.plan.stall

/-- The data phase is over, and the given pipe was stalled. -/
inductive Ended : ScsiDirection → MscState → Prop
  | stalled {s : MscState} (hin : (s.endpoint .mscIn).Stalled .halted)
      (hsend : s.client.msc.sendCswOnUnstall = true) (hunderway : Underway cbw K₀ s.client)
      (hnote : NoteOk full clean cbw s.client.note) : Ended .dirIn s
  | answered {s : MscState} {dir : ScsiDirection} (hdir : dir ≠ .dirIn) {note : CswNote}
      (hin : MscResponds .tfWaitCommand note.csw.bytes s)
      (haccepted : s.client.accepted = K₀.accepted ++ [cbw])
      (hcsws : s.client.csws = K₀.csws ++ [note])
      (htasks : s.client.tasks = []) (htransferred : s.client.transferred = note.transferred)
      (hnote : NoteOk full clean cbw note) : Ended dir s

/-- What `_msc_cmd_packet_internal` leaves of an accepted command, whose packet is handled in the
state `s`. -/
inductive CommandBody (s : MscState) : MscState → Prop
  | reading {s' : MscState} {x : SectorStream}
      (h : Reading vdReadBlock cbw K₀ x ((s.endpoint .mscIn).hw.given.map (·.packet)) 0 s')
      (hdata : cbw.cmd.data = .sectors .dirIn) (hout : s'.endpoint .mscOut = s.endpoint .mscOut)
      (hcmd : s'.transfer .cmd = s.transfer .cmd) : CommandBody s s'
  | responding {s' : MscState} {packet : List Byte}
      (h : Responding full clean cbw K₀ packet s') {len : ℕ} (hdata : cbw.cmd.data = .response len)
      (hout : s'.endpoint .mscOut = s.endpoint .mscOut)
      (hcmd : s'.transfer .cmd = s.transfer .cmd) : CommandBody s s'
  | ended {s' : MscState} (h : Ended full clean cbw K₀ cbw.plan.stall s')
      (hmoved : cbw.plan.moved = 0)
      (hout : s'.endpoint .mscOut = if cbw.plan.stall = .dirOut then
        (s.endpoint .mscOut).stallWith .halted else s.endpoint .mscOut)
      (hcmd : s'.transfer .cmd = s.transfer .cmd) : CommandBody s s'
  | chained {s' : MscState} (x : SectorStream) (hstart : x.Start .mscOut)
      (horigin : x.Origin cbw K₀) (hdata : cbw.cmd.data = .sectors .dirOut)
      (hclient : s'.client = x.base) (hin : (s'.endpoint .mscIn).Quiet)
      (hout : s'.endpoint .mscOut = (s.endpoint .mscOut).setChain (some .sector))
      (hfirst : x.first = (s.endpoint .mscOut).currentGiveBuffer)
      (hcore : s'.transfer .sector = x.core) (hcmd : s'.transfer .cmd = s.transfer .cmd) :
      CommandBody s s'

end States

/-! ## The end of a data phase -/

section End

variable {full clean : Prop} {cbw : ScsiCbw} {K₀ : MscClient} {s : MscState}

/-- `_msc_data_phase_complete`. -/
theorem endDataPhase_ended (hw : MscWired s) (hin : (s.endpoint .mscIn).Quiet)
    (hunderway : Underway cbw K₀ s.client) (hnote : NoteOk full clean cbw s.client.note) :
    Ended full clean cbw K₀ s.client.msc.stallDirectionBeforeCsw s.endDataPhase := by
  have hanswered {s₁ : MscState} (hw₁ : MscWired s₁) (hin₁ : (s₁.endpoint .mscIn).Quiet)
      (hunderway₁ : Underway cbw K₀ s₁.client) (hnote₁ : NoteOk full clean cbw s₁.client.note)
      {dir : ScsiDirection} (hdir : dir ≠ .dirIn) : Ended full clean cbw K₀ dir s₁.sendCsw := by
    have hresponds : MscResponds .tfWaitCommand s₁.client.note.csw.bytes s₁.sendCsw :=
      sendCsw_responds hin₁ (hw₁.isIn .mscIn)
    refine .answered hdir hresponds ?_ ?_ ?_ ?_ hnote₁
    · rw [sendCsw_client]
      exact hunderway₁.accepted
    · rw [sendCsw_client]
      exact congrArg (· ++ [s₁.client.note]) hunderway₁.csws
    · rw [sendCsw_client]
      exact hunderway₁.tasks
    · rw [sendCsw_client]
      rfl
  unfold UsbState.endDataPhase
  cases hdir : s.client.msc.stallDirectionBeforeCsw with
  | dirIn =>
    refine .stalled ⟨?_, ?_⟩ rfl ⟨hunderway.accepted, hunderway.csws, hunderway.tasks⟩ hnote
    · rw [UsbState.modifyEndpoint_endpoint_self]
      exact (congrArg UsbEndpoint.currentTransfer (hin.stallWith (by decide))).trans hin.current
    · rw [UsbState.modifyEndpoint_endpoint_self]
      exact congrArg UsbEndpoint.haltState (hin.stallWith (by decide : UsbHaltState.halted ≠ .none))
  | dirOut =>
    refine hanswered (hw.of_same (stallWith_sameWiring.trans (.modifyClient _ _))) ?_ ?_ ?_
      (by decide)
    · rw [UsbState.modifyEndpoint_endpoint_of_ne _ _ _ _ (by decide)]
      exact hin
    · exact ⟨hunderway.accepted, hunderway.csws, hunderway.tasks⟩
    · exact hnote
  | dirNone => exact hanswered hw hin hunderway hnote (by decide)

/-- Nothing is moved. -/
theorem Planned.noteOk {K : MscClient} (h : Planned cbw K₀ K) (hmoved : cbw.plan.moved = 0) :
    NoteOk full clean cbw K.note where
  tag := h.tag
  residue _ := by
    simp [MscClient.note, h.residue, h.completed, ScsiCbw.hostLength]
  completed_le := by simp [MscClient.note, h.completed]
  complete := .inr (by simp [MscClient.note, h.completed, h.transferred])
  planned _ _ := ⟨by simp [MscClient.note, h.transferred, hmoved], h.status⟩
  passed _ := h.passed

theorem Planned.underway {K : MscClient} (h : Planned cbw K₀ K) : Underway cbw K₀ K :=
  ⟨h.accepted, h.csws, h.tasks⟩

end End

/-! ## Commands without data and with a response -/

section Commands

variable {vdReadBlock : Word → ℕ → Byte} {full clean : Prop} {cbw : ScsiCbw} {K₀ : MscClient}
  {s : MscState} {depth : ℕ}

/-- Nothing is moved, and the data phase ends at once. -/
theorem commandBody_of_none {s₁ : MscState} (hw : MscWired s₁) (hin : (s₁.endpoint .mscIn).Quiet)
    (hplanned : Planned cbw K₀ s₁.client) (hmoved : cbw.plan.moved = 0)
    (hout : s₁.endpoint .mscOut = s.endpoint .mscOut)
    (hcmd : s₁.transfer .cmd = s.transfer .cmd) :
    CommandBody vdReadBlock full clean cbw K₀ s s₁.endDataPhase := by
  have hended : Ended full clean cbw K₀ s₁.client.msc.stallDirectionBeforeCsw s₁.endDataPhase :=
    endDataPhase_ended hw hin hplanned.underway (hplanned.noteOk hmoved)
  have hendpoint := endDataPhase_mscOut (s := s₁)
  rw [hplanned.stall] at hended hendpoint
  rw [hout] at hendpoint
  exact .ended hended hmoved hendpoint ((endDataPhase_transfer_of_ne (by decide)).trans hcmd)

/-- `_msc_init_for_di_or_do`. -/
theorem mscInitForDiOrDo_eq (hw : MscWired s) (hdepth : 1 ≤ depth) (expectedLength : Word)
    (dir : ScsiDirection) :
    mscInitForDiOrDo (usbCalls (mscDriver vdReadBlock) depth) cbw expectedLength dir s =
      .ok (if (s.client.msc.initForDiOrDo cbw expectedLength dir).dataPhaseLength = 0 then
        ((s.modifyMsc (Msc.initForDiOrDo cbw expectedLength dir)).endDataPhase, false)
      else (s.modifyMsc (Msc.initForDiOrDo cbw expectedLength dir), true)) := by
  unfold mscInitForDiOrDo
  dsimp only
  have hmsc : (s.modifyMsc (Msc.initForDiOrDo cbw expectedLength dir)).client.msc =
      s.client.msc.initForDiOrDo cbw expectedLength dir := rfl
  rw [hmsc]
  split
  · have hw₁ : MscWired (s.modifyMsc (Msc.initForDiOrDo cbw expectedLength dir)) :=
      hw.of_same (.modifyClient _ _)
    rw [mscDataPhaseComplete_eq hw₁ hdepth]
    rfl
  · rfl

/-- The residue after a response. -/
theorem residue_after {residue : Word} {n : ℕ} (h : n ≤ residue.toNat) :
    (residue - BitVec.ofNat 32 n).toNat + n = residue.toNat := by
  have hlt := residue.isLt
  rw [BitVec.toNat_sub, BitVec.toNat_ofNat]
  omega

/-- A response that is made shorter is started. -/
theorem respond_responding (hw : MscWired s) {bytes : List Byte}
    (hholds : (s.endpoint .mscIn).Holds bytes)
    (hlen : (s.endpoint .mscIn).currentHwBuffer.dataLen.toNat = bytes.length)
    (hplanned : Planned cbw K₀ s.client) {dataLen : Byte} (hle : dataLen.toNat ≤ bytes.length)
    (hhost : dataLen.toNat ≤ cbw.hostLength) (hmoved : cbw.plan.moved = dataLen.toNat) :
    Responding full clean cbw K₀ (bytes.take dataLen.toNat)
      (((s.modifyEndpoint .mscIn fun E => E.setDataLen dataLen).modifyClient fun K =>
        { K.modifyMsc (Msc.takeResidue (dataLen.setWidth 32)) with
          completed := dataLen.toNat }).respond .tfDataPhaseComplete) := by
  generalize hs₁ : (s.modifyEndpoint .mscIn fun E => E.setDataLen dataLen).modifyClient
    (fun K => { K.modifyMsc (Msc.takeResidue (dataLen.setWidth 32)) with
      completed := dataLen.toNat }) = s₁
  have hin : s₁.endpoint .mscIn = (s.endpoint .mscIn).setDataLen dataLen := by
    rw [← hs₁, UsbState.modifyClient_endpoint, UsbState.modifyEndpoint_endpoint_self]
  have hholds₁ : (s₁.endpoint .mscIn).Holds (bytes.take dataLen.toNat) := by
    rw [hin]
    exact hholds.setDataLen (by omega)
  have hisIn : (s₁.endpoint .mscIn).isIn = true := by
    rw [hin]
    exact hw.isIn .mscIn
  have hclient : s₁.client = { s.client.modifyMsc (Msc.takeResidue (dataLen.setWidth 32)) with
      completed := dataLen.toNat } := by
    rw [← hs₁]
    rfl
  have htake : (bytes.take dataLen.toNat).length = dataLen.toNat := by
    rw [List.length_take, Nat.min_eq_left hle]
  have hwide : dataLen.setWidth 32 = BitVec.ofNat 32 dataLen.toNat :=
    BitVec.eq_of_toNat_eq (by simp)
  refine ⟨respond_responds hholds₁ hisIn, ?_, ?_, ?_⟩
  · rw [respond_client, hclient]
    exact ⟨hplanned.accepted, hplanned.csws, hplanned.tasks⟩
  · rw [respond_client, hclient, htake]
    exact
      { tag := hplanned.tag
        residue := fun _ => by
          have hresidue : s.client.msc.csw.residue.toNat = cbw.hostLength :=
            congrArg BitVec.toNat hplanned.residue
          simp only [MscClient.note, MscClient.transfer, MscClient.modifyMsc, Msc.takeResidue]
          rw [hwide, residue_after (by omega), hresidue]
        completed_le := by simp [MscClient.note, MscClient.transfer]
        complete := .inr (by
          simp [MscClient.note, MscClient.transfer, MscClient.modifyMsc, hplanned.transferred])
        planned := fun _ _ => ⟨by
          simp [MscClient.note, MscClient.transfer, MscClient.modifyMsc, hplanned.transferred,
            hmoved], hplanned.status⟩
        passed := fun _ => hplanned.passed }
  · rw [respond_client, hclient]
    exact hplanned.stall

/-- `_scsi_standard_response`. -/
theorem scsiStandardResponse_body (hw : MscWired s) (hin : (s.endpoint .mscIn).Quiet) {len : ℕ}
    (hdata : cbw.cmd.data = .response len) (hlen : len < 64) {bytes : List Byte}
    (hbytes : bytes.length = len) {K : MscClient} (hK : Begun cbw K₀ K) (hdepth : 1 ≤ depth) :
    ∃ s', scsiStandardResponse (usbCalls (mscDriver vdReadBlock) depth) cbw
        ((mscResponseBuffer bytes s).modifyClient fun _ => K) = .ok s' ∧
      CommandBody vdReadBlock full clean cbw K₀ s s' := by
  generalize hs₀ : (mscResponseBuffer bytes s).modifyClient (fun _ => K) = s₀
  have hw₀ : MscWired s₀ := by
    rw [← hs₀]
    exact hw.of_same ((UsbState.SameWiring.modifyClient _ _).trans mscResponseBuffer_sameWiring)
  have hE₀ : s₀.endpoint .mscIn = (s.endpoint .mscIn).fetchBuffer.fillBuffer bytes := by
    rw [← hs₀]
    exact mscResponseBuffer_mscIn
  have hholds : (s₀.endpoint .mscIn).Holds bytes := by
    rw [hE₀]
    exact hin.holds (hw.isIn .mscIn) (by omega)
  have hout₀ : s₀.endpoint .mscOut = s.endpoint .mscOut := by
    rw [← hs₀, UsbState.modifyClient_endpoint, mscResponseBuffer,
      UsbState.modifyEndpoint_endpoint_of_ne _ _ _ _ (by decide), usbCurrentPacketBuffer,
      UsbState.modifyEndpoint_endpoint_of_ne _ _ _ _ (by decide)]
  have hcmd₀ : s₀.transfer .cmd = s.transfer .cmd := by
    rw [← hs₀]
    rfl
  have hK₀ : Begun cbw K₀ s₀.client := by
    rw [← hs₀]
    exact hK
  -- the buffer is valid already
  have hfetch : usbCurrentPacketBuffer .mscIn s₀ = s₀ := by
    have hsame : (s₀.endpoint .mscIn).fetchBuffer = s₀.endpoint .mscIn := by
      rw [UsbEndpoint.fetchBuffer, if_pos hholds.valid]
    simp [usbCurrentPacketBuffer, UsbState.modifyEndpoint, hsame]
  have hdataLen : (s₀.endpoint .mscIn).currentHwBuffer.dataLen.toNat = len := by
    rw [hE₀]
    simp [hbytes]
    omega
  generalize hexpected : (if (s₀.endpoint .mscIn).currentHwBuffer.dataLen.setWidth 32 <
      cbw.dataTransferLength then (s₀.endpoint .mscIn).currentHwBuffer.dataLen.setWidth 32
      else cbw.dataTransferLength) = expectedLength
  have hlength : expectedLength.toNat = cbw.deviceLength := by
    have hwide : ((s₀.endpoint .mscIn).currentHwBuffer.dataLen.setWidth 32).toNat = len := by
      rw [BitVec.toNat_setWidth, hdataLen]
      omega
    rw [← hexpected, ScsiCbw.deviceLength, hdata, ScsiCbw.hostLength]
    simp only [BitVec.lt_def, hwide]
    split <;> omega
  have hdir : cbw.deviceDir = .dirIn := by rw [ScsiCbw.deviceDir, hdata]
  have hne : cbw.cmd.data ≠ .none := by simp [hdata]
  obtain ⟨hplanned, hphase⟩ := hK₀.initForDiOrDo hne hlength
  have hmoved := ScsiCbw.plan_moved hne
  rw [← hphase, ScsiCbw.wholePackets, hdata] at hmoved
  rw [hdir] at hplanned hphase hmoved
  dsimp only at hmoved
  have hinit : mscInitForDiOrDo (usbCalls (mscDriver vdReadBlock) depth) cbw expectedLength .dirIn
      s₀ = _ := mscInitForDiOrDo_eq hw₀ hdepth expectedLength .dirIn
  unfold scsiStandardResponse
  simp only [hfetch, hexpected, hinit, bind, Except.bind]
  by_cases hzero : (s₀.client.msc.initForDiOrDo cbw expectedLength .dirIn).dataPhaseLength = 0
  · rw [if_pos hzero]
    refine ⟨_, rfl, ?_⟩
    rw [hzero] at hmoved
    exact commandBody_of_none (hw₀.of_same (.modifyClient _ _)) hholds.toQuiet hplanned hmoved
      hout₀ hcmd₀
  · rw [if_neg hzero]
    have hw₁ : MscWired (s₀.modifyMsc (Msc.initForDiOrDo cbw expectedLength .dirIn)) :=
      hw₀.of_same (.modifyClient _ _)
    have hle : (s₀.client.msc.initForDiOrDo cbw expectedLength .dirIn).dataPhaseLength.toNat ≤
        min len cbw.hostLength := by
      rw [hphase, ScsiCbw.deviceLength, hdata]
      dsimp only
      split <;> omega
    generalize hd : (s₀.client.msc.initForDiOrDo cbw expectedLength
      .dirIn).dataPhaseLength.setWidth 8 = dataLen
    have hdataLen' : dataLen.toNat =
        (s₀.client.msc.initForDiOrDo cbw expectedLength .dirIn).dataPhaseLength.toNat := by
      rw [← hd, BitVec.toNat_setWidth]
      omega
    generalize hs₁ : s₀.modifyMsc (Msc.initForDiOrDo cbw expectedLength .dirIn) = s₁ at hw₁
    have hE₁ : s₁.endpoint = s₀.endpoint := by
      rw [← hs₁]
      rfl
    have hK₁ : Planned cbw K₀ s₁.client := by
      rw [← hs₁]
      exact hplanned
    have hresponding : Responding full clean cbw K₀ (bytes.take dataLen.toNat) _ :=
      respond_responding (s := s₁) hw₁ (by rw [hE₁]; exact hholds) (by rw [hE₁, hdataLen, hbytes]) hK₁
        (by omega : dataLen.toNat ≤ bytes.length) (by omega) (by omega)
    have hd₁ : s₁.client.msc.dataPhaseLength.setWidth 8 = dataLen := by
      rw [← hs₁]
      exact hd
    refine ⟨_, ?_, .responding hresponding hdata ?_ ?_⟩
    · simp only [if_true, hd₁]
      refine mscResetAndStartCmdResponseTransfer_eq ?_ hdepth
      rw [UsbState.modifyClient_endpoint, UsbState.modifyEndpoint_endpoint_self]
      exact hw₁.isIn .mscIn
    · rw [respond_mscOut, UsbState.modifyClient_endpoint,
        UsbState.modifyEndpoint_endpoint_of_ne _ _ _ _ (by decide), hE₁, hout₀]
    · rw [respond_transfer_of_ne (by decide), ← hcmd₀, ← hs₁]
      rfl

end Commands

/-! ## Commands that move sectors -/

section Sectors

variable {vdReadBlock : Word → ℕ → Byte} {full clean : Prop} {cbw : ScsiCbw} {K₀ : MscClient}
  {s : MscState} {depth : ℕ}

/-- The packets of the stream go to `_usb_stream_packet_packet_handler`. -/
theorem mscStream_handles (vdReadBlock : Word → ℕ → Byte) (x : SectorStream) (e : MscEndpoint)
    (isIn : Bool) (idle : ℕ → MscClient → Prop) :
    ((mscStream vdReadBlock).handler isIn).Handles (mscDriver vdReadBlock) e (x.setup isIn) idle :=
  fun c s _ hin _ => (mscStream vdReadBlock).packetHandler_eq c e s hin

/-- The start of a transfer, as a placed state. -/
theorem started_eq_place (s : MscState) (e : MscEndpoint) (t : MscTransfer) :
    s.started e t = s.place e t (((s.endpoint e).setTransfer (some t)).setChain none)
      (s.transfer t).start s.client :=
  rfl

/-- The stream of a read starts. -/
theorem startTransfer_reading {x : SectorStream} (hw : MscWired s)
    (hin : (s.endpoint .mscIn).Quiet) (hstart : x.Start .mscIn) (hclient : s.client = x.base)
    (hcore : s.transfer .sector = x.core) (horigin : x.Origin cbw K₀)
    (hfirst : x.first = (s.endpoint .mscIn).currentGiveBuffer) (hdepth : 3 ≤ depth) :
    ∃ s', usbStartTransfer (usbCalls (mscDriver vdReadBlock) depth) .mscIn .sector s = .ok s' ∧
      Reading vdReadBlock cbw K₀ x ((s.endpoint .mscIn).hw.given.map (·.packet)) 0 s' ∧
      s'.endpoint .mscOut = s.endpoint .mscOut ∧ s'.transfer .cmd = s.transfer .cmd := by
  have hl := x.line_start hw hin.toFree hfirst
  have hi : InLine (x.setup true) (x.shape.packet (x.bytes vdReadBlock))
      ((s.endpoint .mscIn).hw.given.map (·.packet))
      (((s.endpoint .mscIn).setTransfer (some .sector)).setChain none) x.core.start 0 0 0 :=
    ⟨hl, by simp, hin.which⟩
  obtain ⟨E', T', K', heq, hserve⟩ := InServing.start
    (mscStream_handles vdReadBlock x .mscIn true _) (x.serves_in_counted vdReadBlock 0)
    (SectorStream.prompt_in _) rfl hi rfl x.pos ⟨x.inIdle_start hstart, horigin.transferred⟩
    hdepth (s := s)
  obtain ⟨hserve, htransferred⟩ := hserve.split
  have hout : (s.place .mscIn .sector E' T' K').endpoint .mscOut = s.endpoint .mscOut := by
    simp [UsbState.place]
  have hcmd : (s.place .mscIn .sector E' T' K').transfer .cmd = s.transfer .cmd := by
    simp [UsbState.place]
  refine ⟨s.place .mscIn .sector E' T' K', ?_, ?_, hout, hcmd⟩
  · change usbGiveAsManyBuffersAsPossible _ .mscIn (s.started .mscIn .sector) = _
    rw [started_eq_place, hcore, hclient]
    exact heq
  · refine ⟨horigin, ?_, htransferred⟩
    rw [UsbState.place_endpoint, UsbState.place_transfer]
    exact hserve

/-- The stream of sectors for whole packets of the data phase. -/
theorem length_eq {x : SectorStream} {packets : Word} (h : x.packets = packets.toNat) :
    x.length = packets * 64 := by
  refine BitVec.eq_of_toNat_eq ?_
  rw [SectorStream.length, h, BitVec.toNat_ofNat, BitVec.toNat_mul, Nat.mul_comm]
  rfl

/-- The stream of sectors is set up, and starts or is chained. -/
theorem startSectorTransfer_body {s₁ : MscState} (hw : MscWired s₁)
    (hin : (s₁.endpoint .mscIn).Quiet) (hE : s₁.endpoint = s.endpoint)
    (hT : s₁.transfer = s.transfer) (hK : Planned cbw K₀ s₁.client)
    (hlba : s₁.client.lba = cbw.lba) (htoken : s₁.client.asyncToken = K₀.asyncToken)
    {dir : ScsiDirection} (hdata : cbw.cmd.data = .sectors dir)
    (hep : s₁.client.streamEp = if dir = .dirIn then .mscIn else .mscOut) {packets : Word}
    (hne : packets ≠ 0) (hle : packets.toNat ≤ 524280)
    (hmoved : cbw.plan.moved = 64 * packets.toNat) (hdepth : 3 ≤ depth) :
    ∃ s', startSectorTransfer (usbCalls (mscDriver vdReadBlock) depth) vdReadBlock packets dir s₁ =
        .ok s' ∧
      CommandBody vdReadBlock full clean cbw K₀ s s' := by
  unfold startSectorTransfer
  dsimp only
  generalize hs₂ : (mscStream vdReadBlock).setupTransfer .sector .streamPacketHandler sectorSize
    (packets * 64) (some .tfDataPhaseComplete)
    (s₁.modifyClient fun K => { K with asyncToken := K.asyncToken + 1 }) = s₂
  have hE₂ : s₂.endpoint = s.endpoint := by
    rw [← hs₂, ← hE]
    rfl
  have hcmd₂ : s₂.transfer .cmd = s.transfer .cmd := by
    rw [← hs₂, ← hT, UsbStream.setupTransfer,
      UsbState.modifyTransfer_transfer_of_ne _ _ _ _ (by decide)]
    rfl
  have hw₂ : MscWired s₂ := by
    rw [← hs₂]
    refine hw.of_same (.trans (.modifyTransfer fun h => by cases h) ?_)
    exact (UsbState.SameWiring.modifyClient _ _).trans (.modifyClient _ _)
  obtain ⟨x, hcount, hbase, hfirst⟩ : ∃ x : SectorStream, x.packets = packets.toNat ∧
      x.base = s₂.client ∧
      x.first = (s.endpoint (if dir = .dirIn then .mscIn else .mscOut)).currentGiveBuffer :=
    ⟨⟨packets.toNat, s₂.client, _, Nat.pos_of_ne_zero (toNat_ne_zero.1 hne), hle⟩, rfl, rfl, rfl⟩
  have hlength : x.length = packets * 64 := length_eq hcount
  have hcore : s₂.transfer .sector = x.core := by
    rw [← hs₂, UsbStream.setupTransfer, UsbState.modifyTransfer_transfer_self, SectorStream.core,
      hlength]
  have horigin : x.Origin cbw K₀ := by
    have hbase' : x.base = { s₁.client with
        asyncToken := s₁.client.asyncToken + 1
        stream := ⟨0, packets * 64, sectorSize⟩ } := by
      rw [hbase, ← hs₂]
      rfl
    refine ⟨?_, by rw [hmoved, hcount], by rw [hbase', hlba], by rw [hbase', htoken]⟩
    rw [hbase']
    exact hK.congr rfl rfl rfl rfl rfl rfl rfl
  have hstart : x.Start (if dir = .dirIn then .mscIn else .mscOut) := by
    refine ⟨?_, ?_, horigin.completed, horigin.tasks⟩
    · rw [hbase, ← hs₂]
      exact hep
    · rw [StreamShape.record_zero, hbase, ← hs₂]
      exact congrArg (UsbStreamTransfer.mk 0 · sectorSize) hlength.symm
  have hin₂ : (s₂.endpoint .mscIn).Quiet := by
    rw [hE₂, ← hE]
    exact hin
  by_cases hdir : dir = .dirIn
  · rw [if_pos hdir] at hstart hfirst ⊢
    obtain ⟨s', hs', hreading, hout, hcmd⟩ := startTransfer_reading hw₂ hin₂ hstart hbase.symm hcore
      horigin (by rw [hE₂]; exact hfirst) hdepth
    rw [hE₂] at hreading hout
    exact ⟨s', hs', .reading hreading (hdir ▸ hdata) hout (hcmd.trans hcmd₂)⟩
  · have hdirOut := ScsiCmd.sectors_dirOut hdata hdir
    rw [if_neg hdir] at hstart hfirst ⊢
    refine ⟨_, rfl, .chained x hstart horigin (hdata.trans (congrArg _ hdirOut)) hbase.symm ?_ ?_ hfirst hcore hcmd₂⟩
    · rw [usbChainTransfer, UsbState.modifyEndpoint_endpoint_of_ne _ _ _ _ (by decide)]
      exact hin₂
    · rw [usbChainTransfer, UsbState.modifyEndpoint_endpoint_self, hE₂]

/-- `_scsi_read_or_write_blocks`. -/
theorem scsiReadOrWriteBlocks_body (hw : MscWired s) (hin : (s.endpoint .mscIn).Quiet)
    {dir : ScsiDirection} (hdata : cbw.cmd.data = .sectors dir) (hK : Begun cbw K₀ s.client)
    (hdepth : 3 ≤ depth) :
    ∃ s', scsiReadOrWriteBlocks (usbCalls (mscDriver vdReadBlock) depth) vdReadBlock cbw cbw.lba
        (cbw.blocks.setWidth 32) dir s = .ok s' ∧
      CommandBody vdReadBlock full clean cbw K₀ s s' := by
  generalize hep : (if dir = .dirIn then MscEndpoint.mscIn else .mscOut) = ep
  generalize hs₀ : s.modifyClient (fun K => K.setSectorTransfer ep cbw.lba) = s₀
  have hw₀ : MscWired s₀ := hs₀ ▸ hw.of_same (.modifyClient _ _)
  have hE₀ : s₀.endpoint = s.endpoint := by
    rw [← hs₀]
    rfl
  have hT₀ : s₀.transfer = s.transfer := by
    rw [← hs₀]
    rfl
  have hK₀ : Begun cbw K₀ s₀.client := by
    rw [← hs₀]
    exact hK.congr rfl rfl rfl rfl rfl rfl rfl rfl
  have hep₀ : s₀.client.streamEp = ep := by
    rw [← hs₀]
    rfl
  generalize hexpected : cbw.blocks.setWidth 32 * sectorSize = expectedLength
  have hlength : expectedLength.toNat = cbw.deviceLength := by
    have hlt := cbw.blocks.isLt
    rw [← hexpected, ScsiCbw.deviceLength, hdata, BitVec.toNat_mul, BitVec.toNat_setWidth,
      show sectorSize.toNat = 512 from rfl, Nat.mod_eq_of_lt (by omega),
      Nat.mod_eq_of_lt (by omega)]
  have hdir : cbw.deviceDir = dir := by rw [ScsiCbw.deviceDir, hdata]
  have hne : cbw.cmd.data ≠ .none := by simp [hdata]
  obtain ⟨hplanned, hphase⟩ := hK₀.initForDiOrDo hne hlength
  have hmoved := ScsiCbw.plan_moved hne
  rw [← hphase, ScsiCbw.wholePackets, hdata] at hmoved
  rw [hdir] at hplanned hphase hmoved
  dsimp only at hmoved
  have hinit : mscInitForDiOrDo (usbCalls (mscDriver vdReadBlock) depth) cbw expectedLength dir
      s₀ = _ := mscInitForDiOrDo_eq hw₀ (by omega) expectedLength dir
  unfold scsiReadOrWriteBlocks
  simp only [hep, hs₀, hexpected, hinit, bind, Except.bind]
  have hle : (s₀.client.msc.initForDiOrDo cbw expectedLength dir).dataPhaseLength.toNat ≤
      65535 * 512 := by
    have hlt := cbw.blocks.isLt
    rw [hphase, ScsiCbw.deviceLength, hdata]
    dsimp only
    split <;> omega
  generalize hs₁ : s₀.modifyMsc (Msc.initForDiOrDo cbw expectedLength dir) = s₁
  have hw₁ : MscWired s₁ := hs₁ ▸ hw₀.of_same (.modifyClient _ _)
  have hE₁ : s₁.endpoint = s.endpoint := by
    rw [← hs₁]
    exact hE₀
  have hT₁ : s₁.transfer = s.transfer := by
    rw [← hs₁]
    exact hT₀
  have hK₁ : Planned cbw K₀ s₁.client := by
    rw [← hs₁]
    exact hplanned
  have hep₁ : s₁.client.streamEp = ep := by
    rw [← hs₁]
    exact hep₀
  have hlba₁ : s₁.client.lba = cbw.lba := by
    rw [← hs₁, ← hs₀]
    rfl
  have htoken₁ : s₁.client.asyncToken = K₀.asyncToken := by
    rw [← hs₁]
    exact hK₀.token
  have hphase₁ : s₁.client.msc.dataPhaseLength =
      (s₀.client.msc.initForDiOrDo cbw expectedLength dir).dataPhaseLength := by
    rw [← hs₁]
    rfl
  rw [← hphase₁] at hmoved hle ⊢
  have hnone (hzero : cbw.plan.moved = 0) :
      CommandBody vdReadBlock full clean cbw K₀ s s₁.endDataPhase :=
    commandBody_of_none hw₁ (hE₁ ▸ hin) hK₁ hzero (by rw [hE₁]) (by rw [hT₁])
  by_cases hzero : s₁.client.msc.dataPhaseLength = 0
  · rw [if_pos hzero]
    refine ⟨_, rfl, hnone ?_⟩
    rw [hmoved, hzero]
    rfl
  · rw [if_neg hzero]
    dsimp only
    rw [if_pos rfl]
    have hpackets : (s₁.client.msc.dataPhaseLength / 64).toNat =
        s₁.client.msc.dataPhaseLength.toNat / 64 := BitVec.toNat_udiv
    by_cases hwhole : s₁.client.msc.dataPhaseLength / 64 = 0
    · rw [if_neg (not_not_intro hwhole), mscDataPhaseComplete_eq hw₁ (by omega)]
      refine ⟨_, rfl, hnone ?_⟩
      rw [hmoved, ← hpackets, hwhole]
      rfl
    · rw [if_pos hwhole]
      refine startSectorTransfer_body hw₁ (hE₁ ▸ hin) hE₁ hT₁ hK₁ hlba₁ htoken₁
        hdata (hep₁.trans hep.symm) hwhole (by omega) ?_ hdepth
      rw [hmoved, hpackets]

/-- What `_msc_cmd_packet_internal` leaves of a command. -/
theorem mscCommand_body (hw : MscWired s) (hin : (s.endpoint .mscIn).Quiet)
    (hK : Begun cbw K₀ s.client) (hdepth : 3 ≤ depth) :
    ∃ s', mscCommand (usbCalls (mscDriver vdReadBlock) depth) vdReadBlock cbw s = .ok s' ∧
      CommandBody vdReadBlock full clean cbw K₀ s s' := by
  cases hdata : cbw.cmd.data with
  | none =>
    obtain ⟨K, hplanned, heq⟩ := mscCommand_none hdata hK
      (c := usbCalls (mscDriver vdReadBlock) depth)
    have hw₁ : MscWired (s.modifyClient fun _ => K) := hw.of_same (.modifyClient _ _)
    rw [heq, mscDataPhaseComplete_eq hw₁ (by omega)]
    exact ⟨_, rfl, commandBody_of_none hw₁ hin hplanned (ScsiCbw.plan_moved_none hdata) rfl rfl⟩
  | response len =>
    obtain ⟨-, hlen, bytes, K, hbytes, hbegun, heq⟩ := mscCommand_response hdata hK
      (c := usbCalls (mscDriver vdReadBlock) depth)
    rw [heq]
    exact scsiStandardResponse_body hw hin hdata hlen hbytes hbegun (by omega)
  | sectors dir =>
    rw [mscCommand_sectors hdata]
    exact scsiReadOrWriteBlocks_body hw hin hdata hK hdepth

end Sectors

end PicoBootrom
