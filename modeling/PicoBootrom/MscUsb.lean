import PicoBootrom.MscCommand
import PicoBootrom.Runs
import PicoBootrom.UsbSingle
import PicoBootrom.UsbStream

/-!
# Mass storage on its endpoints

The functions of `usb_msc.c` that run on the two bulk endpoints of the mass storage interface : the
commands on `msc_out`, the data phase, a response of one packet or the stream of sectors, and the
CSW on `msc_in`. The user of the library is `MscClient` : `_msc_state`, the record of the stream,
whose chunk buffer is `_sector_buf`, and the virtual disk. What `vd_read_block` makes of a sector is
a parameter.

The rest of `MscClient` keeps track of what no variable of the code says : the commands that were
accepted and the CSWs that were started, the tasks that are to call `vd_async_complete`, the bytes
of the data phase, and the calls of `vd_read_block` and `vd_write_block`.
-/

set_option linter.unusedSectionVars false

namespace PicoBootrom

/-! ## The state -/

/-- `msc_endpoints`. -/
inductive MscEndpoint
  | mscIn
  | mscOut
  deriving DecidableEq, Repr

/-- `_msc_cmd_transfer`, `_msc_cmd_response_transfer` and `_msc_sector_transfer`. -/
inductive MscTransfer
  | cmd
  | cmdResponse
  | sector
  deriving DecidableEq, Repr

/-- `_msc_cmd_packet`, `_tf_wait_command`, `_tf_data_phase_complete`, `_msc_in_on_stall_change` and
`_usb_stream_packet_packet_handler`. -/
inductive MscFunction
  | cmdPacket
  | tfWaitCommand
  | tfDataPhaseComplete
  | inOnStallChange
  | streamPacketHandler
  deriving DecidableEq, Repr

/-- A CSW that was started. `completed` has the bytes of the data phase in packets that the code is
done with, `transferred` those in packets that went over the bus. -/
structure CswNote where
  csw : ScsiCsw
  completed : ℕ
  transferred : ℕ
  deriving DecidableEq, Repr

/-- A call of `vd_read_block` or `vd_write_block`, with the sector that it reads or writes. -/
structure SectorCall where
  dir : ScsiDirection
  token : Word
  lba : Word
  sector : List Byte
  deriving DecidableEq

/-- The bytes of a sector in a buffer. -/
def sectorBytes (buffer : ℕ → Byte) : List Byte := (List.range 512).map buffer

/-- `_msc_state`, the virtual disk, `_msc_async_token` and `_msc_sector_transfer`. -/
structure MscClient where
  msc : Msc
  disk : VirtualDisk
  asyncToken : Word
  stream : UsbStreamTransfer
  streamEp : MscEndpoint
  lba : Word
  /-- `_sector_buf`, which the disk has as a UF2 block. -/
  sectorBuf : ℕ → Byte
  accepted : List ScsiCbw := []
  csws : List CswNote := []
  tasks : List Word := []
  completed : ℕ := 0
  transferred : ℕ := 0
  calls : List SectorCall := []

abbrev MscState := UsbState MscEndpoint MscTransfer MscFunction MscClient

abbrev MscCalls := UsbCalls MscEndpoint MscTransfer MscFunction MscClient

/-- A sector as a `struct uf2_block`. -/
def Uf2Block.ofSector (buffer : ℕ → Byte) : Uf2Block where
  magicStart0 := wordAt buffer 0
  magicStart1 := wordAt buffer 4
  flags := wordAt buffer 8
  targetAddr := wordAt buffer 12
  payloadSize := wordAt buffer 16
  blockNo := wordAt buffer 20
  numBlocks := wordAt buffer 24
  fileSize := wordAt buffer 28
  data i := buffer (32 + i)
  magicEnd := wordAt buffer 508

/-! ## The functions -/

namespace MscClient

variable (K : MscClient)

/-- A change of `_msc_state`. -/
def modifyMsc (f : Msc → Msc) : MscClient := { K with msc := f K.msc }

/-- A new content of `_sector_buf`. -/
def setSectorBuf (buffer : ℕ → Byte) : MscClient :=
  { K with sectorBuf := buffer, disk := { K.disk with sectorBuf := .ofSector buffer } }

/-- `++_msc_async_token` and `_msc_sector_transfer.lba++`. -/
def nextChunk : MscClient := { K with asyncToken := K.asyncToken + 1, lba := K.lba + 1 }

/-- `vd_read_block` for the next chunk. -/
def readChunk (vdReadBlock : Word → ℕ → Byte) : MscClient :=
  let sector := vdReadBlock K.lba
  { K.nextChunk.setSectorBuf sector with
      calls := K.calls ++ [⟨.dirIn, K.asyncToken + 1, K.lba, sectorBytes sector⟩] }

/-- `vd_write_block` for the next chunk. -/
def writeChunk : MscClient × Bool :=
  let r := vdWriteBlock (K.asyncToken + 1) K.disk
  ({ K.nextChunk with
      disk := r.1
      tasks := if r.2 then K.tasks ++ [K.asyncToken + 1] else K.tasks
      calls := K.calls ++ [⟨.dirOut, K.asyncToken + 1, K.lba, sectorBytes K.sectorBuf⟩] }, r.2)

/-- `_msc_on_sector_stream_chunk`. `vd_read_block` is done at once. -/
def onSectorStreamChunk (vdReadBlock : Word → ℕ → Byte) : MscClient × Bool :=
  if K.streamEp = .mscIn then (K.readChunk vdReadBlock, false) else K.writeChunk

/-- `_msc_on_sector_stream_packet_complete`. The bytes of the packets so far are the offset of the
stream. -/
def onSectorStreamPacketComplete : MscClient :=
  { K with msc := K.msc.takeResidue 64, completed := K.stream.offset.toNat }

/-- A command is accepted. -/
def beginCommand (cbw : ScsiCbw) : MscClient :=
  { K with
      msc := K.msc.beginCommand cbw
      accepted := K.accepted ++ [cbw]
      completed := 0
      transferred := 0 }

/-- The state of `_msc_send_csw`, and the CSW that it starts. -/
def sendCsw : MscClient :=
  { K with
      msc := { K.msc with sendCswOnUnstall := false }
      csws := K.csws ++ [⟨K.msc.csw, K.completed, K.transferred⟩] }

/-- The endpoint and the first sector of the stream. -/
def setSectorTransfer (ep : MscEndpoint) (lba : Word) : MscClient :=
  { K with streamEp := ep, lba := lba }

/-- A packet of the data phase goes over the bus. -/
def transfer (len : ℕ) : MscClient := { K with transferred := K.transferred + len }

/-- `_msc_reset`, but for the endpoints. -/
def reset : MscClient :=
  { K with msc := resetMsc, disk := vdReset { K.disk with ejected := false } }

end MscClient

/-- The stream of sectors. -/
def mscStream (vdReadBlock : Word → ℕ → Byte) : UsbStream MscClient where
  transfer K := K.stream
  setTransfer S K := { K with stream := S }
  chunkBuffer K := K.sectorBuf
  setChunkBuffer buffer K := K.setSectorBuf buffer
  onChunk _ K := K.onSectorStreamChunk vdReadBlock
  onPacketComplete K := K.onSectorStreamPacketComplete

/-- A change of `_msc_state`. -/
def UsbState.modifyMsc (s : MscState) (f : Msc → Msc) : MscState :=
  s.modifyClient fun K => K.modifyMsc f

/-- `usb_get_single_packet_response_buffer` of `msc_in`, with the bytes that are stored there. -/
def mscResponseBuffer (bytes : List Byte) (s : MscState) : MscState :=
  (usbCurrentPacketBuffer .mscIn s).modifyEndpoint .mscIn fun E => E.fillBuffer bytes

/-- `_msc_reset_and_start_cmd_response_transfer`. -/
def mscResetAndStartCmdResponseTransfer (c : MscCalls) (f : MscFunction) (s : MscState) :
    UsbResult MscState :=
  usbResetAndStartTransfer c .mscIn .cmdResponse usbCurrentPacketOnlyTransferType (some f) s

/-- `_tf_wait_command`. -/
def tfWaitCommand (c : MscCalls) (s : MscState) : UsbResult MscState :=
  usbStartDefaultTransferIfNotAlreadyRunningOrHalted c .mscOut s

/-- `_msc_send_csw`. -/
def mscSendCsw (c : MscCalls) (s : MscState) : UsbResult MscState :=
  mscResetAndStartCmdResponseTransfer c .tfWaitCommand
    (mscResponseBuffer s.client.msc.csw.bytes (s.modifyClient MscClient.sendCsw))

/-- `_msc_data_phase_complete`. -/
def mscDataPhaseComplete (c : MscCalls) (s : MscState) : UsbResult MscState :=
  match s.client.msc.stallDirectionBeforeCsw with
  | .dirIn => usbHaltEndpoint c .mscIn (s.modifyMsc fun m =>
      { m with stallDirectionBeforeCsw := .dirNone, sendCswOnUnstall := true })
  | .dirOut => do
    let s ← usbHaltEndpoint c .mscOut (s.modifyMsc fun m =>
      { m with stallDirectionBeforeCsw := .dirNone })
    mscSendCsw c s
  | .dirNone => mscSendCsw c s

/-- `_msc_init_for_dn`. -/
def mscInitForDn (c : MscCalls) (cbw : ScsiCbw) (s : MscState) : UsbResult MscState :=
  mscDataPhaseComplete c (s.modifyMsc (Msc.initForDn cbw))

/-- `_msc_init_for_di_or_do`, which is true if there is something to move. -/
def mscInitForDiOrDo (c : MscCalls) (cbw : ScsiCbw) (expectedLength : Word) (dir : ScsiDirection)
    (s : MscState) : UsbResult (MscState × Bool) := do
  let s := s.modifyMsc (Msc.initForDiOrDo cbw expectedLength dir)
  if s.client.msc.dataPhaseLength = 0 then
    let s ← mscDataPhaseComplete c s
    .ok (s, false)
  else .ok (s, true)

/-- `_scsi_fail_cmd`. -/
def scsiFailCmd (c : MscCalls) (cbw : ScsiCbw) (key asc ascq : Byte) (s : MscState) :
    UsbResult MscState :=
  mscInitForDn c cbw (s.modifyMsc (Msc.setCswFailed key asc ascq))

/-- `_scsi_standard_response`, for the response in the current packet buffer. -/
def scsiStandardResponse (c : MscCalls) (cbw : ScsiCbw) (s : MscState) : UsbResult MscState := do
  let s := usbCurrentPacketBuffer .mscIn s
  let len := (s.endpoint .mscIn).currentHwBuffer.dataLen.setWidth 32
  let r ← mscInitForDiOrDo c cbw
    (if len < cbw.dataTransferLength then len else cbw.dataTransferLength) .dirIn s
  if r.2 then
    let dataLen : Byte := r.1.client.msc.dataPhaseLength.setWidth 8
    mscResetAndStartCmdResponseTransfer c .tfDataPhaseComplete
      ((r.1.modifyEndpoint .mscIn fun E => E.setDataLen dataLen).modifyClient fun K =>
        { K.modifyMsc (Msc.takeResidue (dataLen.setWidth 32)) with completed := dataLen.toNat })
  else .ok r.1

/-- A response of fixed bytes. -/
def scsiMemcpyResponse (c : MscCalls) (cbw : ScsiCbw) (bytes : List Byte) (s : MscState) :
    UsbResult MscState :=
  scsiStandardResponse c cbw (mscResponseBuffer bytes s)

/-- The end of `_scsi_read_or_write_blocks` : the stream starts, or is chained to the transfer of
the command. -/
def startSectorTransfer (c : MscCalls) (vdReadBlock : Word → ℕ → Byte) (packets : Word)
    (dir : ScsiDirection) (s : MscState) : UsbResult MscState :=
  let s := (mscStream vdReadBlock).setupTransfer .sector .streamPacketHandler sectorSize
    (packets * 64) (some .tfDataPhaseComplete)
    (s.modifyClient fun K => { K with asyncToken := K.asyncToken + 1 })
  if dir = .dirIn then usbStartTransfer c .mscIn .sector s
  else .ok (usbChainTransfer .mscOut .sector s)

/-- `_scsi_read_or_write_blocks`. -/
def scsiReadOrWriteBlocks (c : MscCalls) (vdReadBlock : Word → ℕ → Byte) (cbw : ScsiCbw)
    (lba blocks : Word) (dir : ScsiDirection) (s : MscState) : UsbResult MscState := do
  let ep : MscEndpoint := if dir = .dirIn then .mscIn else .mscOut
  let r ← mscInitForDiOrDo c cbw (blocks * sectorSize) dir
    (s.modifyClient fun K => K.setSectorTransfer ep lba)
  if r.2 then
    -- rounded down to whole packets
    let packets := r.1.client.msc.dataPhaseLength / 64
    if packets ≠ 0 then startSectorTransfer c vdReadBlock packets dir r.1
    else mscDataPhaseComplete c r.1
  else .ok r.1

/-- `_scsi_handle_read_or_write_command`. -/
def scsiHandleReadOrWriteCommand (c : MscCalls) (vdReadBlock : Word → ℕ → Byte) (cbw : ScsiCbw)
    (dir : ScsiDirection) (s : MscState) : UsbResult MscState :=
  scsiReadOrWriteBlocks c vdReadBlock cbw cbw.lba (cbw.blocks.setWidth 32) dir s

/-- `_scsi_handle_request_sense`. -/
def scsiHandleRequestSense (c : MscCalls) (cbw : ScsiCbw) (s : MscState) : UsbResult MscState :=
  scsiStandardResponse c cbw
    ((mscResponseBuffer s.client.msc.requestSense.bytes s).modifyMsc (Msc.setSense 0 0 0))

/-- `_scsi_handle_test_unit_ready`. -/
def scsiHandleTestUnitReady (c : MscCalls) (cbw : ScsiCbw) (s : MscState) : UsbResult MscState :=
  if s.client.disk.ejected then scsiFailCmd c cbw 0x02 0x3a 0 s
  else mscInitForDn c cbw s

/-- `_scsi_handle_start_stop_unit`. -/
def scsiHandleStartStopUnit (c : MscCalls) (cbw : ScsiCbw) (s : MscState) : UsbResult MscState :=
  mscInitForDn c cbw (if cbw.cb 4 &&& 3 = 2 then
    s.modifyClient fun K => { K with disk := { K.disk with ejected := true } } else s)

/-- The `switch` of `_msc_cmd_packet_internal`. -/
def mscCommand (c : MscCalls) (vdReadBlock : Word → ℕ → Byte) (cbw : ScsiCbw) (s : MscState) :
    UsbResult MscState :=
  match cbw.cmd with
  | .inquiry => scsiMemcpyResponse c cbw scsiIr s
  | .modeSense6 => scsiMemcpyResponse c cbw modeSenseResponse s
  | .preventAllowMediumRemoval => mscInitForDn c cbw s
  | .read10 => scsiHandleReadOrWriteCommand c vdReadBlock cbw .dirIn s
  | .write10 => scsiHandleReadOrWriteCommand c vdReadBlock cbw .dirOut s
  | .readFormatCapacities => scsiMemcpyResponse c cbw readFormatCapacitiesResponse s
  | .readCapacity10 => scsiMemcpyResponse c cbw readCapacityResponse s
  | .requestSense => scsiHandleRequestSense c cbw s
  | .testUnitReady => scsiHandleTestUnitReady c cbw s
  | .startStopUnit => scsiHandleStartStopUnit c cbw s
  | .synchronizeCache => mscInitForDn c cbw s
  | .verify => mscInitForDn c cbw s
  | .other => scsiFailCmd c cbw 0x05 0x20 0 s

/-- `_msc_cmd_halt`. -/
def mscCmdHalt (c : MscCalls) (s : MscState) : UsbResult MscState := do
  let s ← usbHaltEndpointOnCondition c .mscIn s
  usbHaltEndpointOnCondition c .mscOut s

/-- The packet in the current buffer of `msc_out`. -/
def UsbState.mscPacket (s : MscState) : List Byte :=
  ((usbCurrentPacketBuffer .mscOut s).endpoint .mscOut).bufferData

/-- `_msc_cmd_packet_internal`. -/
def mscCmdPacketInternal (c : MscCalls) (vdReadBlock : Word → ℕ → Byte) (s : MscState) :
    UsbResult MscState :=
  let packet := s.mscPacket
  let s := usbCurrentPacketBuffer .mscOut s
  let cbw := ScsiCbw.ofPacket packet
  if cbw.Accepted packet.length then
    mscCommand c vdReadBlock cbw (s.modifyClient fun K => K.beginCommand cbw)
  else mscCmdHalt c s

/-- `_msc_cmd_packet`. -/
def mscCmdPacket (c : MscCalls) (vdReadBlock : Word → ℕ → Byte) (e : MscEndpoint) (s : MscState) :
    UsbResult MscState := do
  let s ← mscCmdPacketInternal c vdReadBlock s
  usbPacketDone c e s

/-- `_msc_in_on_stall_change`. -/
def mscInOnStallChange (c : MscCalls) (e : MscEndpoint) (s : MscState) : UsbResult MscState :=
  if (s.endpoint e).haltState = .none ∧ e = .mscIn ∧ s.client.msc.sendCswOnUnstall then
    mscSendCsw c s
  else .ok s

/-- The functions that the library calls. -/
def mscDriver (vdReadBlock : Word → ℕ → Byte) :
    UsbDriver MscEndpoint MscTransfer MscFunction MscClient
  | c, .cmdPacket, e, s => mscCmdPacket c vdReadBlock e s
  | c, .tfWaitCommand, _, s => tfWaitCommand c s
  | c, .tfDataPhaseComplete, _, s => mscDataPhaseComplete c s
  | c, .inOnStallChange, e, s => mscInOnStallChange c e s
  | c, .streamPacketHandler, e, s => (mscStream vdReadBlock).packetHandler c e s

/-- `vd_async_complete`. -/
def vdAsyncComplete (c : MscCalls) (vdReadBlock : Word → ℕ → Byte) (token result : Word)
    (s : MscState) : UsbResult MscState :=
  if token = s.client.asyncToken then do
    let s ← if result ≠ 0 then
        mscDataPhaseComplete c (s.modifyMsc fun m =>
          { m.setCswFailed 0x07 0x20 2 with stallDirectionBeforeCsw := .dirOut })
      else .ok s
    (mscStream vdReadBlock).chunkDone c s.client.streamEp s
  else .ok s

/-- `_msc_reset`. -/
def mscReset (c : MscCalls) (s : MscState) : UsbResult MscState := do
  let s ← usbSoftResetEndpoint c .mscIn (s.modifyClient MscClient.reset)
  usbSoftResetEndpoint c .mscOut s

/-- `USB_REQUEST_MSC_RESET`. -/
def mscResetRequest (c : MscCalls) (s : MscState) : UsbResult MscState :=
  mscReset c (usbClearHaltCondition .mscOut (usbClearHaltCondition .mscIn s))

/-- `SET_CONFIGURATION`, with `msc_on_configure`, or a bus reset with the number 0. -/
def mscSetConfiguration (c : MscCalls) (num : Byte) (s : MscState) : UsbResult MscState := do
  let s ← usbHandleSetConfig c [.mscIn, .mscOut] num s
  if num ≠ 0 then mscReset c s else .ok s

/-! ## Events -/

/-- What happens next on the mass storage interface. -/
inductive MscEvent
  /-- The hardware is done with a buffer. -/
  | buffer (e : MscEndpoint) (packet : List Byte)
  /-- One of the tasks calls `vd_async_complete` with its result. -/
  | asyncComplete (i : ℕ) (result : Word)
  | clearFeature (e : MscEndpoint)
  | mscReset
  | setConfiguration (num : Byte)

/-- A buffer of the data phase is counted when it comes back. -/
def countTransferred (e : MscEndpoint) (packet : List Byte) (s : MscState) : MscState :=
  match (s.endpoint e).currentTransfer, (s.endpoint e).hw.available with
  | some .sector, b :: _ =>
    s.modifyClient fun K => K.transfer (if e = .mscIn then b.packet else packet).length
  | some .cmdResponse, b :: _ =>
    if (s.transfer .cmdResponse).onComplete = some .tfDataPhaseComplete then
      s.modifyClient fun K => K.transfer b.packet.length
    else s
  | _, _ => s

/-- One event, with calls of at most the given depth. -/
def mscStep (vdReadBlock : Word → ℕ → Byte) (depth : ℕ) (s : MscState) (event : MscEvent) :
    UsbResult MscState :=
  let c := usbCalls (mscDriver vdReadBlock) depth
  match event with
  | .buffer e packet => usbBufferInterrupt c e packet (countTransferred e packet s)
  | .asyncComplete i result =>
    match s.client.tasks[i]? with
    | some token => vdAsyncComplete c vdReadBlock token result
        (s.modifyClient fun K => { K with tasks := K.tasks.eraseIdx i })
    | none => .ok s
  | .clearFeature e => usbClearFeature c e s
  | .mscReset => if s.currentConfigNum ≠ 0 then mscResetRequest c s else .ok s
  | .setConfiguration num => mscSetConfiguration c num s

/-! ## The endpoints as `_msc_reset` leaves them the first time -/

/-- What no function changes : the directions, that both endpoints have two buffers, the default
transfer of `msc_out`, `on_stall_change` of `msc_in`, and that the buffers that are available to the
hardware are the last ones it was given. -/
structure MscWired (s : MscState) : Prop where
  isIn : ∀ e, (s.endpoint e).isIn = decide (e = .mscIn)
  doubleBuffered : ∀ e, (s.endpoint e).doubleBuffered = true
  onStallChange : ∀ e, (s.endpoint e).onStallChange =
    if e = .mscIn then some .inOnStallChange else none
  defaultTransfer : ∀ e, (s.endpoint e).defaultTransfer = if e = .mscOut then some .cmd else none
  cmdType : (s.transfer .cmd).type = ⟨.driver .cmdPacket, 1⟩
  order : ∀ e, (s.endpoint e).hw.available <:+ (s.endpoint e).hw.given

end PicoBootrom
