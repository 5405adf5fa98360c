import PicoBootrom.Delivery
import PicoBootrom.PicobootAct
import PicoBootrom.UsbSingle
import PicoBootrom.UsbStream

/-!
# PICOBOOT on its endpoints

The functions of `usb_boot_device.c` that run on the two bulk endpoints of PICOBOOT : the command
packets of `picoboot_out`, the stream of a read or a write, and the acknowledgement, an empty
transfer in the other direction. The state of the user of the library is the one of the commands
(`Picoboot`), the machine that tasks run on, and the record of the stream, whose chunk buffer is
`_buffer`.

A packet is a command if it has the length and the magic number, a known id, arguments of the size
of the id, and a transfer of the length that the id says. The direction bit of the id is not looked
at (but `PC_REBOOT` must not have it), and `PC_REBOOT` may have any transfer length
(`command_accepted`). The direction of the data is the one of the id, and the one of the
acknowledgement is that of the direction bit.
-/

set_option linter.unusedSectionVars false

namespace PicoBootrom

/-! ## The state -/

/-- The bulk endpoints of PICOBOOT. -/
inductive PicobootEndpoint
  | picobootIn
  | picobootOut
  deriving DecidableEq, Repr

/-- `_picoboot_cmd_transfer`, `_ack_transfer` and the transfer of the stream. -/
inductive PicobootTransfer
  | cmd
  | ack
  | stream
  deriving DecidableEq, Repr

/-- `_picoboot_cmd_packet`, `_tf_picoboot_wait_command`, `_tf_ack` and
`_usb_stream_packet_packet_handler`. -/
inductive PicobootFunction
  | cmdPacket
  | tfWaitCommand
  | tfAck
  | streamPacketHandler
  deriving DecidableEq, Repr

/-- The commands, the machine, and the record and the endpoint of the stream. The rest keeps track
of what no variable of the code says : `generation` is new for every command that is read and after
every reset, the stream and the task in the queue have the one they are for, and `acks` has those
that were acknowledged. -/
structure PicobootClient where
  picoboot : Picoboot
  machine : Machine
  stream : UsbStreamTransfer
  streamEp : PicobootEndpoint
  generation : ℕ := 0
  streamGeneration : ℕ := 0
  taskGeneration : ℕ := 0
  acks : List ℕ := []

abbrev PicobootState :=
  UsbState PicobootEndpoint PicobootTransfer PicobootFunction PicobootClient

abbrev PicobootCalls :=
  UsbCalls PicobootEndpoint PicobootTransfer PicobootFunction PicobootClient

/-- The status block. -/
def PicobootClient.status (K : PicobootClient) : PicobootCmdStatus := K.picoboot.currentCmdStatus

/-! ## Packets -/

/-- The word at an offset, in the order of the bytes of the CPU. -/
def wordAt (bytes : ℕ → Byte) (i : ℕ) : Word :=
  bytes (i + 3) ++ bytes (i + 2) ++ bytes (i + 1) ++ bytes i

/-- The bytes of a packet as a `struct picoboot_cmd`. -/
def PicobootCmd.ofPacket (packet : List Byte) : PicobootCmd :=
  let bytes i := packet.getD i 0
  { dMagic := wordAt bytes 0
    dToken := wordAt bytes 4
    bCmdId := bytes 8
    bCmdSize := bytes 9
    dTransferLength := wordAt bytes 12
    arg0 := wordAt bytes 16
    arg1 := wordAt bytes 20
    arg2 := wordAt bytes 24 }

/-! ## The functions -/

namespace PicobootClient

/-- A command is read. A packet without the length and the magic number of one is not. -/
def readCommand (packet : List Byte) (K : PicobootClient) : PicobootClient :=
  { K with
      picoboot := (K.picoboot.readCommand packet.length (PicobootCmd.ofPacket packet)).1
      generation :=
        if packet.length = sizeofPicobootCmd ∧
            (PicobootCmd.ofPacket packet).dMagic = picobootMagic then K.generation + 1
        else K.generation }

/-- The single task of a command is queued. -/
def queueCommandTask (K : PicobootClient) : PicobootClient :=
  { K with picoboot := K.picoboot.queueCommandTask, taskGeneration := K.generation }

/-- `_picoboot_on_stream_chunk`. -/
def onStreamChunk (chunkLen : Word) (K : PicobootClient) : PicobootClient :=
  { K with
      picoboot := K.picoboot.onStreamChunk chunkLen
      taskGeneration := K.streamGeneration }

/-- The endpoint of the stream of a command. -/
def setStreamEp (ep : PicobootEndpoint) (K : PicobootClient) : PicobootClient :=
  { K with streamEp := ep, streamGeneration := K.generation }

/-- `safe_reboot` of a command. -/
def reboot (pc sp delayMs : Word) (K : PicobootClient) : PicobootClient :=
  { K with machine := safeReboot pc sp delayMs K.machine }

/-- `_picoboot_ack`, up to the empty transfer. -/
def ack (K : PicobootClient) : PicobootClient :=
  { K with picoboot := K.picoboot.ack, acks := K.acks ++ [K.generation] }

/-- `_atc_chunk_task_done`, up to `usb_stream_chunk_done`. -/
def chunkTaskDone (task : AsyncTask) (K : PicobootClient) : PicobootClient :=
  { K with picoboot := K.picoboot.chunkTaskDone task }

/-- `_picoboot_reset`, but for the endpoints. -/
def reset (K : PicobootClient) : PicobootClient :=
  { K with
      picoboot := K.picoboot.reset
      machine := { K.machine with virtualDiskQueue := resetQueue K.machine.virtualDiskQueue }
      generation := K.generation + 1 }

end PicobootClient

/-- The stream of chunks. `_picoboot_on_stream_chunk` queues a task for every chunk. -/
def picobootStream : UsbStream PicobootClient where
  transfer K := K.stream
  setTransfer S K := { K with stream := S }
  chunkBuffer K := K.machine.picobootBuffer
  setChunkBuffer buffer K := { K with machine := { K.machine with picobootBuffer := buffer } }
  onChunk chunkLen K := (K.onStreamChunk chunkLen, true)
  onPacketComplete K := K

/-- The endpoint of the acknowledgement. -/
def PicobootCmdStatus.ackEndpoint (status : PicobootCmdStatus) : PicobootEndpoint :=
  if status.bCmdId &&& 0x80 ≠ 0 then .picobootOut else .picobootIn

/-- `_picoboot_ack`. -/
def picobootAck (c : PicobootCalls) (s : PicobootState) : UsbResult PicobootState :=
  usbStartEmptyTransfer c s.client.status.ackEndpoint .ack (some .tfWaitCommand)
    (s.modifyClient PicobootClient.ack)

/-- `_tf_picoboot_wait_command`. -/
def tfPicobootWaitCommand (c : PicobootCalls) (s : PicobootState) : UsbResult PicobootState :=
  usbStartDefaultTransferIfNotAlreadyRunningOrHalted c .picobootOut s

/-- The stream of a command is set up, on the endpoint of its direction. -/
def setupPicobootStream (ep : PicobootEndpoint) (transferLength : Word) (s : PicobootState) :
    PicobootState :=
  (picobootStream.setupTransfer .stream .streamPacketHandler flashPageSize transferLength
    (some .tfAck) s).modifyClient (PicobootClient.setStreamEp ep)

/-- What `_picoboot_cmd_packet_internal` does once the command is read. -/
def picobootCmdAction (c : PicobootCalls) (action : Picoboot.CmdAction) (s : PicobootState) :
    UsbResult PicobootState :=
  match action with
  | .reboot pc sp delayMs => picobootAck c (s.modifyClient (PicobootClient.reboot pc sp delayMs))
  | .stream type transferLength =>
    if type &&& atWrite ≠ 0 then
      .ok (usbChainTransfer .picobootOut .stream
        (setupPicobootStream .picobootOut transferLength s))
    else usbStartTransfer c .picobootIn .stream (setupPicobootStream .picobootIn transferLength s)
  | .queueTask => .ok (s.modifyClient PicobootClient.queueCommandTask)
  | .halt => do
    let s ← usbHaltEndpoint c .picobootIn s
    usbHaltEndpoint c .picobootOut s

/-- The packet in the buffer of an OUT endpoint. -/
def UsbState.outPacket (s : PicobootState) (e : PicobootEndpoint) : List Byte :=
  ((usbCurrentPacketBuffer e s).endpoint e).bufferData

/-- `_picoboot_cmd_packet_internal`. -/
def picobootCmdPacketInternal (c : PicobootCalls) (e : PicobootEndpoint) (s : PicobootState) :
    UsbResult PicobootState :=
  let packet := s.outPacket e
  picobootCmdAction c
    (s.client.picoboot.readCommand packet.length (PicobootCmd.ofPacket packet)).2
    ((usbCurrentPacketBuffer e s).modifyClient (PicobootClient.readCommand packet))

/-- `_picoboot_cmd_packet`. -/
def picobootCmdPacket (c : PicobootCalls) (e : PicobootEndpoint) (s : PicobootState) :
    UsbResult PicobootState := do
  let s ← picobootCmdPacketInternal c e s
  usbPacketDone c e s

/-- The functions that the library calls. -/
def picobootDriver :
    UsbDriver PicobootEndpoint PicobootTransfer PicobootFunction PicobootClient
  | c, .cmdPacket, e, s => picobootCmdPacket c e s
  | c, .tfWaitCommand, _, s => tfPicobootWaitCommand c s
  | c, .tfAck, _, s => picobootAck c s
  | c, .streamPacketHandler, e, s => picobootStream.packetHandler c e s

/-- `_atc_ack`. -/
def atcAck (c : PicobootCalls) (task : AsyncTask) (s : PicobootState) : UsbResult PicobootState :=
  if s.client.picoboot.hasToken task then picobootAck c s else .ok s

/-- `_atc_chunk_task_done`. -/
def atcChunkTaskDone (c : PicobootCalls) (task : AsyncTask) (s : PicobootState) :
    UsbResult PicobootState :=
  if s.client.picoboot.hasToken task then do
    let s := s.modifyClient (PicobootClient.chunkTaskDone task)
    let s ← if task.result ≠ 0 then usbHaltEndpoint c s.client.streamEp s else .ok s
    picobootStream.chunkDone c s.client.streamEp s
  else .ok s

/-- The callback of a task. -/
def picobootTaskDone (c : PicobootCalls) (task : AsyncTask) (s : PicobootState) :
    UsbResult PicobootState :=
  match task.callback with
  | .atcAck => atcAck c task s
  | .atcChunkTaskDone => atcChunkTaskDone c task s
  | _ => .ok s

/-- `_picoboot_reset`. -/
def picobootReset (c : PicobootCalls) (s : PicobootState) : UsbResult PicobootState := do
  let s ← usbSoftResetEndpoint c .picobootOut s
  let s ← usbSoftResetEndpoint c .picobootIn s
  .ok (s.modifyClient PicobootClient.reset)

/-! ## The endpoints as `usb_boot_device_init` leaves them -/

/-- What no function changes : the directions, that both endpoints have two buffers, and that the
default transfer of `picoboot_out` is the one of the commands. -/
structure PicobootWired (s : PicobootState) : Prop where
  isIn : ∀ e, (s.endpoint e).isIn = decide (e = .picobootIn)
  doubleBuffered : ∀ e, (s.endpoint e).doubleBuffered = true
  onStallChange : ∀ e, (s.endpoint e).onStallChange = none
  defaultTransfer : ∀ e, (s.endpoint e).defaultTransfer =
    if e = .picobootOut then some .cmd else none
  cmdType : (s.transfer .cmd).type = ⟨.driver .cmdPacket, 1⟩

/-! ## Accepted commands -/

/-- The size of the arguments of a command. -/
def PicobootCmd.argsSize (cmd : PicobootCmd) : Option Byte :=
  match cmd.id with
  | 1 => some 1
  | 2 => some 12
  | 3 | 4 | 5 => some 8
  | 6 | 7 => some 0
  | 8 | 9 => some 4
  | _ => none

/-- A read or a write. -/
def PicobootCmd.hasData (cmd : PicobootCmd) : Bool := cmd.id == 4 || cmd.id == 5

/-- The packets that are accepted. -/
structure PicobootCmd.Accepted (len : ℕ) (cmd : PicobootCmd) : Prop where
  length : len = 32
  magic : cmd.dMagic = picobootMagic
  argsSize : cmd.argsSize = some cmd.bCmdSize
  transferLength : cmd.bCmdId = pcReboot ∨
    cmd.id ≠ 2 ∧ cmd.dTransferLength = if cmd.hasData then cmd.dSize else 0

/-- The row of a command. -/
theorem PicobootCmd.mapping_eq (cmd : PicobootCmd) : cmd.mapping = cmd.argsSize.map fun size =>
    ⟨size, if cmd.hasData then 0x80 else 0, (cmd.act.map PicobootAct.type).getD 0⟩ := by
  unfold mapping
  rcases Nat.lt_or_ge cmd.id 10 with hlt | hge
  · unfold argsSize hasData act
    generalize cmd.id = id at hlt
    interval_cases id <;> rfl
  · have hnone : cmdMapping[cmd.id]? = none :=
      List.getElem?_eq_none (by simpa [cmdMapping] using hge)
    have hargs : cmd.argsSize = none := by
      unfold argsSize
      split <;> first | omega | rfl
    rw [if_neg (by omega), hnone, hargs]
    rfl

theorem PicobootCmd.expectedLength_eq (cmd : PicobootCmd) {size type : Byte} :
    cmd.expectedLength ⟨size, if cmd.hasData then 0x80 else 0, type⟩ =
      if cmd.hasData then cmd.dSize else 0 := by
  unfold expectedLength
  cases cmd.hasData with
  | true => exact if_pos (show (0x80 : Byte) &&& 0x80 ≠ 0 by decide)
  | false => exact if_neg (show ¬(0 : Byte) &&& 0x80 ≠ 0 by decide)

/-- `PC_REBOOT` is the only command without an action. -/
theorem PicobootCmd.act_cases (cmd : PicobootCmd) {size : Byte} (h : cmd.argsSize = some size) :
    cmd.id = 2 ∧ cmd.act = none ∨ cmd.id ≠ 2 ∧ ∃ act, cmd.act = some act := by
  unfold argsSize at h
  unfold act
  generalize cmd.id = id at h
  split at h <;> first
    | exact .inr ⟨by decide, _, rfl⟩
    | exact .inl ⟨rfl, rfl⟩
    | cases h

theorem PicobootAct.type_ne_zero (act : PicobootAct) : act.type ≠ 0 := by
  cases act <;> decide

/-- The action of a read or a write writes only if the id is the one of `PC_WRITE`. -/
theorem PicobootCmd.act_hasData {cmd : PicobootCmd} (h : cmd.hasData = true) :
    cmd.act = some (if cmd.id = 5 then .write else .read) := by
  unfold hasData at h
  unfold act
  generalize cmd.id = id at h
  simp only [Bool.or_eq_true, beq_iff_eq] at h
  rcases h with rfl | rfl <;> rfl

/-- What a packet that is not accepted goes on with. -/
theorem readCommand_of_not_accepted {len : ℕ} {cmd : PicobootCmd} (h : ¬cmd.Accepted len)
    (p : Picoboot) : (p.readCommand len cmd).2 = .halt := by
  unfold Picoboot.readCommand
  split
  · next hheader =>
    dsimp only
    rw [PicobootCmd.mapping_eq]
    cases hsize : cmd.argsSize with
    | none => rfl
    | some size =>
      dsimp only [Option.map_some]
      split
      · next hargs =>
        unfold Picoboot.dispatch
        dsimp only
        by_cases hreboot : cmd.bCmdId = pcReboot
        · exact absurd ⟨hheader.1, hheader.2, hsize.trans (by rw [hargs]), .inl hreboot⟩ h
        · rw [if_neg hreboot, PicobootCmd.type, PicobootCmd.expectedLength_eq]
          rcases cmd.act_cases hsize with ⟨hid, hact⟩ | ⟨hid, act, hact⟩
          · simp [hact]
          · have hlength : ¬(if cmd.hasData then cmd.dSize else 0) = cmd.dTransferLength :=
              fun heq => h ⟨hheader.1, hheader.2, hsize.trans (by rw [hargs]),
                .inr ⟨hid, heq.symm⟩⟩
            rw [if_neg hlength, if_neg (not_not_intro rfl)]
      · rfl
  · rfl

/-- What a command that is accepted goes on with. -/
def PicobootCmd.action (cmd : PicobootCmd) : Picoboot.CmdAction :=
  if cmd.bCmdId = pcReboot then .reboot cmd.arg0 cmd.arg1 cmd.arg2
  else if cmd.dTransferLength = 0 then .queueTask
  else .stream (if cmd.id = 5 then atWrite else atRead) cmd.dTransferLength

theorem readCommand_of_accepted {len : ℕ} {cmd : PicobootCmd} (h : cmd.Accepted len)
    (p : Picoboot) : (p.readCommand len cmd).2 = cmd.action := by
  unfold Picoboot.readCommand PicobootCmd.action
  rw [if_pos ⟨h.length, h.magic⟩]
  dsimp only
  rw [PicobootCmd.mapping_eq, h.argsSize]
  dsimp only [Option.map_some]
  rw [if_pos rfl]
  unfold Picoboot.dispatch
  dsimp only
  by_cases hreboot : cmd.bCmdId = pcReboot
  · rw [if_pos hreboot, if_pos hreboot]
  · obtain ⟨hid, hlength⟩ := h.transferLength.resolve_left hreboot
    obtain ⟨act, hact⟩ := ((cmd.act_cases h.argsSize).resolve_left fun h => hid h.1).2
    rw [if_neg hreboot, if_neg hreboot, PicobootCmd.type, PicobootCmd.expectedLength_eq,
      if_pos hlength.symm, hact]
    dsimp only [Option.map_some, Option.getD_some]
    rw [if_pos act.type_ne_zero]
    by_cases hzero : cmd.dTransferLength = 0
    · rw [if_neg (not_not_intro hzero), if_pos hzero]
    · have hdata : cmd.hasData = true := by
        by_contra hnot
        rw [if_neg hnot] at hlength
        exact hzero hlength
      rw [PicobootCmd.act_hasData hdata] at hact
      rw [if_pos hzero, if_neg hzero, ← Option.some.inj hact]
      split <;> rfl

/-- The status block of a command, whether it is accepted or not. -/
theorem readCommand_bCmdId {len : ℕ} {cmd : PicobootCmd} (hlen : len = 32)
    (hmagic : cmd.dMagic = picobootMagic) (p : Picoboot) :
    (p.readCommand len cmd).1.currentCmdStatus.bCmdId = cmd.bCmdId := by
  unfold Picoboot.readCommand Picoboot.dispatch
  rw [if_pos ⟨hlen, hmagic⟩]
  dsimp only
  repeat' split
  all_goals rfl

/-- What a command goes on with, whether it is accepted or not : only `PC_REBOOT` reboots, and a
stream is not empty. -/
theorem readCommand_action (len : ℕ) (cmd : PicobootCmd) (p : Picoboot) :
    match (p.readCommand len cmd).2 with
    | .reboot _ _ _ => len = 32 ∧ cmd.dMagic = picobootMagic ∧ cmd.bCmdId = pcReboot
    | .stream _ transferLength => transferLength ≠ 0
    | _ => True := by
  by_cases h : cmd.Accepted len
  · rw [readCommand_of_accepted h, PicobootCmd.action]
    by_cases hreboot : cmd.bCmdId = pcReboot
    · rw [if_pos hreboot]
      exact ⟨h.length, h.magic, hreboot⟩
    · rw [if_neg hreboot]
      by_cases hlength : cmd.dTransferLength = 0
      · rw [if_pos hlength]
        trivial
      · rw [if_neg hlength]
        exact hlength
  · rw [readCommand_of_not_accepted h]
    trivial

/-! ## What a packet does -/

/-- The stream of a command was started, on `picoboot_in`, or chained to the transfer of the
command, on `picoboot_out`. -/
structure StreamStarted (cmd : PicobootCmd) (ep : PicobootEndpoint)
    (s' : PicobootState) : Prop where
  record : s'.client.stream = ⟨0, cmd.dTransferLength, flashPageSize⟩
  streamEp : s'.client.streamEp = ep
  onPacket : (s'.transfer .stream).type.onPacket = .driver .streamPacketHandler
  onComplete : (s'.transfer .stream).onComplete = some .tfAck
  running : match ep with
    | .picobootIn => (s'.endpoint .picobootIn).currentTransfer = some .stream
    | .picobootOut => (s'.endpoint .picobootOut).chainTransfer = some .stream

/-- The acknowledgement was started on an endpoint, and nothing on the other one. -/
structure AckedOn (e : PicobootEndpoint) (s s' : PicobootState) : Prop where
  current : (s'.endpoint e).currentTransfer = some .ack
  empty : (s'.transfer .ack).type = usbCurrentPacketOnlyTransferType
  other : ∀ e' ≠ e, (s'.endpoint e').currentTransfer = (s.endpoint e').currentTransfer

/-- What an accepted command does : a reboot with the acknowledgement, one task, or a stream. -/
inductive CommandDone (cmd : PicobootCmd) (s s' : PicobootState) : Prop
  | rebooted (hid : cmd.bCmdId = pcReboot)
      (machine : s'.client.machine = safeReboot cmd.arg0 cmd.arg1 cmd.arg2 s.client.machine)
      (ack : AckedOn .picobootIn s s')
  | taskQueued (hid : cmd.bCmdId ≠ pcReboot) (hlength : cmd.dTransferLength = 0) (task : AsyncTask)
      (htask : s.client.picoboot.Queues cmd cmd.dAddr 0 task)
      (queue : s'.client.picoboot.queue = { s.client.picoboot.queue with task := task, full := true })
      (machine : s'.client.machine = s.client.machine)
  | streamStarted (hid : cmd.bCmdId ≠ pcReboot) (hlength : cmd.dTransferLength ≠ 0)
      (stream : StreamStarted cmd (if cmd.id = 5 then .picobootOut else .picobootIn) s')
      (machine : s'.client.machine = s.client.machine)

/-- What a packet that is refused does : both endpoints are halted, no task is queued, and the
device does not reboot. -/
structure PacketRefused (s s' : PicobootState) : Prop where
  halted : ∀ e, (s'.endpoint e).haltState = .halted ∨ (s'.endpoint e).haltState = .haltedOnCondition
  queue : s'.client.picoboot.queue = s.client.picoboot.queue
  machine : s'.client.machine = s.client.machine
  transfers : s'.transfer = s.transfer
  current : ∀ e, (s'.endpoint e).currentTransfer = (s.endpoint e).currentTransfer ∧
    (s'.endpoint e).chainTransfer = (s.endpoint e).chainTransfer

section Packet

variable {s : PicobootState} {cmd : PicobootCmd} {depth : ℕ}

/-- The acknowledgement goes where the direction bit says. -/
theorem picobootAck_on (hdepth : 1 ≤ depth) (s : PicobootState) :
    ∃ s', picobootAck (usbCalls picobootDriver depth) s = .ok s' ∧
      AckedOn s.client.status.ackEndpoint s s' ∧ s'.client = s.client.ack := by
  refine ⟨_, usbStartEmptyTransfer_eq _ hdepth, ⟨?_, ?_, fun e' hne => ?_⟩, ?_⟩
  · exact UsbState.armedEmpty_currentTransfer _ _ _ _
  · exact UsbState.armedEmpty_type _ _ _ _
  · rw [UsbState.armedEmpty_endpoint_of_ne _ _ _ _ hne]
    rfl
  · exact UsbState.armedEmpty_client _ _ _ _

/-- The first packet of a stream on `picoboot_in` queues the task of the first chunk. -/
theorem picobootStream_first (c : PicobootCalls) {len : Word} (hlen : len ≠ 0)
    (hin : (s.endpoint .picobootIn).isIn = true)
    (hrecord : s.client.stream = ⟨0, len, flashPageSize⟩) :
    picobootStream.packetHandler c .picobootIn s = .ok (s.modifyClient
      (PicobootClient.onStreamChunk (if len < flashPageSize then len else flashPageSize))) := by
  have hchunk : (UsbStreamTransfer.mk 0 len flashPageSize).chunkLen true =
      if len < flashPageSize then len else flashPageSize := by
    simp [UsbStreamTransfer.chunkLen, UsbStreamTransfer.chunkOffset]
  have hne : (if len < flashPageSize then len else flashPageSize) ≠ 0 := by
    split
    · exact hlen
    · decide
  have htransfer : picobootStream.transfer s.client = ⟨0, len, flashPageSize⟩ := hrecord
  simp only [UsbStream.packetHandler, hin, if_true, htransfer, hchunk, UsbStream.callOnChunk,
    if_pos hne]
  rfl

/-- A stream of `picoboot_in` is started : its first packet asks for the first chunk. -/
theorem usbStartTransfer_picobootStream {s : PicobootState} {len : Word} (hlen : len ≠ 0)
    (hin : (s.endpoint .picobootIn).isIn = true)
    (hrecord : s.client.stream = ⟨0, len, flashPageSize⟩)
    (htype : (s.transfer .stream).type.onPacket = .driver .streamPacketHandler)
    (hdepth : 1 ≤ depth) :
    usbStartTransfer (usbCalls picobootDriver depth) .picobootIn .stream s =
      .ok (if (s.started .picobootIn .stream).canGive .picobootIn then
        ((s.started .picobootIn .stream).modifyTransfer .stream
          fun T => T.setOutstanding true).modifyClient
            (PicobootClient.onStreamChunk (if len < flashPageSize then len else flashPageSize))
        else s.started .picobootIn .stream) := by
  obtain ⟨depth, rfl⟩ : ∃ d, depth = d + 1 := ⟨depth - 1, by omega⟩
  change usbGiveAsManyBuffersAsPossible _ _ (s.started _ _) = _
  cases hcan : (s.started .picobootIn .stream).canGive .picobootIn with
  | false => rw [usbGiveAsManyBuffersAsPossible_of_not_canGive hcan, if_neg Bool.false_ne_true]
  | true =>
    have hin' : ((s.started .picobootIn .stream).endpoint .picobootIn).isIn = true := by
      simpa using hin
    have hfirst := picobootStream_first (usbCalls picobootDriver depth) hlen
      (s := (s.started .picobootIn .stream).modifyTransfer .stream fun T => T.setOutstanding true)
      hin' hrecord
    have hcall : usbCallOnPacket (usbCalls picobootDriver (depth + 1)) .picobootIn
        (s.started .picobootIn .stream) = picobootStream.packetHandler (usbCalls picobootDriver depth)
          .picobootIn ((s.started .picobootIn .stream).modifyTransfer .stream
            fun T => T.setOutstanding true) := by
      simp only [usbCallOnPacket, UsbState.started_endpoint, UsbEndpoint.setChain_currentTransfer,
        UsbEndpoint.setTransfer_currentTransfer, UsbState.started_transfer, UsbTransfer.start_type,
        htype]
      rfl
    rw [usbGiveAsManyBuffersAsPossible, if_pos hcan, hin', if_pos rfl, hcall, hfirst,
      if_pos rfl]
    exact if_pos rfl

/-- The same, if it returns. -/
theorem usbStartTransfer_picobootStream_ok {s s' : PicobootState} {len : Word} (hlen : len ≠ 0)
    (hin : (s.endpoint .picobootIn).isIn = true)
    (hrecord : s.client.stream = ⟨0, len, flashPageSize⟩)
    (htype : (s.transfer .stream).type.onPacket = .driver .streamPacketHandler)
    (hs' : usbStartTransfer (usbCalls picobootDriver depth) .picobootIn .stream s = .ok s') :
    s' = if (s.started .picobootIn .stream).canGive .picobootIn then
        ((s.started .picobootIn .stream).modifyTransfer .stream
          fun T => T.setOutstanding true).modifyClient
            (PicobootClient.onStreamChunk (if len < flashPageSize then len else flashPageSize))
        else s.started .picobootIn .stream := by
  cases depth with
  | zero =>
    change usbGiveAsManyBuffersAsPossible _ _ (s.started _ _) = _ at hs'
    cases hcan : (s.started .picobootIn .stream).canGive .picobootIn with
    | true => simp [usbGiveAsManyBuffersAsPossible, hcan, usbCallOnPacket, usbCalls, bind,
        Except.bind, hin] at hs'
    | false =>
      rw [usbGiveAsManyBuffersAsPossible_of_not_canGive hcan] at hs'
      cases hs'
      rw [if_neg Bool.false_ne_true]
  | succ depth =>
    rw [usbStartTransfer_picobootStream hlen hin hrecord htype (Nat.succ_pos depth)] at hs'
    exact (Except.ok.inj hs').symm

variable {packet : List Byte}

/-- The command is read, and its packet is still in the buffer. -/
def UsbState.readPacket (s : PicobootState) : PicobootState :=
  (usbCurrentPacketBuffer .picobootOut s).modifyClient
    (PicobootClient.readCommand (s.outPacket .picobootOut))

theorem PicobootWired.readPacket_endpoint (hw : PicobootWired s) (e : PicobootEndpoint) :
    (s.readPacket.endpoint e).isIn = decide (e = .picobootIn) ∧
      (s.readPacket.endpoint e).onStallChange = none ∧
      (s.readPacket.endpoint e).currentTransfer = (s.endpoint e).currentTransfer ∧
      (s.readPacket.endpoint e).chainTransfer = (s.endpoint e).chainTransfer := by
  have hin := hw.isIn e
  have hstall := hw.onStallChange e
  cases e with
  | picobootIn =>
    exact ⟨hin, hstall, rfl, rfl⟩
  | picobootOut =>
    obtain ⟨b, hb, -⟩ := (s.endpoint .picobootOut).fetchBuffer_eq
    have hread : s.readPacket.endpoint .picobootOut =
        { s.endpoint .picobootOut with currentHwBuffer := b } := by
      simp [UsbState.readPacket, usbCurrentPacketBuffer, hb]
    rw [hread]
    exact ⟨hin, hstall, rfl, rfl⟩

/-- A packet that is refused halts both endpoints. -/
theorem picobootCmdAction_halt (hw : PicobootWired s) (c : PicobootCalls) :
    ∃ s', picobootCmdAction c .halt s.readPacket = .ok s' ∧ PacketRefused s s' := by
  obtain ⟨-, hin, -⟩ := hw.readPacket_endpoint .picobootIn
  obtain ⟨-, hout, -⟩ := hw.readPacket_endpoint .picobootOut
  have hend (e : PicobootEndpoint) : ((s.readPacket.modifyEndpoint .picobootIn
      UsbEndpoint.halt).modifyEndpoint .picobootOut UsbEndpoint.halt).endpoint e =
        (s.readPacket.endpoint e).halt := by
    cases e <;> simp [UsbState.modifyEndpoint]
  refine ⟨(s.readPacket.modifyEndpoint .picobootIn UsbEndpoint.halt).modifyEndpoint .picobootOut
    UsbEndpoint.halt, ?_, ?_, Picoboot.readCommand_queue _ _ _, rfl, rfl, ?_⟩
  · unfold picobootCmdAction
    rw [usbHaltEndpoint_eq hin]
    exact usbHaltEndpoint_eq hout
  · intro e
    rw [hend]
    exact UsbEndpoint.halt_cases _
  · intro e
    obtain ⟨-, -, hcurrent, hchain⟩ := hw.readPacket_endpoint e
    rw [hend, UsbEndpoint.halt_eq]
    exact ⟨hcurrent, hchain⟩

/-- What an accepted command goes on with. -/
theorem picobootCmdAction_done (hw : PicobootWired s) (hpacket : s.outPacket .picobootOut = packet)
    (h : (PicobootCmd.ofPacket packet).Accepted packet.length) (hdepth : 1 ≤ depth) :
    ∃ s', picobootCmdAction (usbCalls picobootDriver depth) (PicobootCmd.ofPacket packet).action
        s.readPacket = .ok s' ∧
      CommandDone (PicobootCmd.ofPacket packet) s s' ∧
      s'.client.status.bCmdId = (PicobootCmd.ofPacket packet).bCmdId := by
  have hpicoboot : s.readPacket.client.picoboot =
      (s.client.picoboot.readCommand packet.length (PicobootCmd.ofPacket packet)).1 := by
    rw [← hpacket]
    rfl
  have hid := readCommand_bCmdId h.length h.magic s.client.picoboot
  have hqueue := Picoboot.readCommand_queue packet.length (PicobootCmd.ofPacket packet)
    s.client.picoboot
  have haction := readCommand_of_accepted h s.client.picoboot
  rw [← hpicoboot] at hid hqueue
  generalize PicobootCmd.ofPacket packet = cmd at h hpicoboot hid hqueue haction ⊢
  have hmachine : s.readPacket.client.machine = s.client.machine := rfl
  obtain ⟨hin, -, -⟩ := hw.readPacket_endpoint .picobootIn
  have hcurrent := fun e => (hw.readPacket_endpoint e).2.2.1
  generalize s.readPacket = s₁ at hid hqueue hpicoboot hmachine hin hcurrent ⊢
  unfold PicobootCmd.action at haction ⊢
  by_cases hreboot : cmd.bCmdId = pcReboot
  · rw [if_pos hreboot]
    obtain ⟨s', hs', hack, hclient⟩ := picobootAck_on hdepth
      (s₁.modifyClient (PicobootClient.reboot cmd.arg0 cmd.arg1 cmd.arg2))
    have hep : PicobootCmdStatus.ackEndpoint (s₁.modifyClient
        (PicobootClient.reboot cmd.arg0 cmd.arg1 cmd.arg2)).client.status = .picobootIn := by
      have hstatus : s₁.client.status.bCmdId = pcReboot := hid.trans hreboot
      unfold PicobootCmdStatus.ackEndpoint
      change (if s₁.client.status.bCmdId &&& 0x80 ≠ 0 then _ else _) = _
      rw [hstatus]
      rfl
    rw [hep] at hack
    refine ⟨s', hs', .rebooted hreboot ?_ ⟨hack.current, hack.empty, fun e hne => ?_⟩, ?_⟩
    · rw [hclient, ← hmachine]
      rfl
    · rw [hack.other e hne]
      exact hcurrent e
    · rw [hclient]
      exact hid
  · rw [if_neg hreboot] at haction ⊢
    by_cases hlength : cmd.dTransferLength = 0
    · rw [if_pos hlength] at haction ⊢
      have hlen : packet.length = sizeofPicobootCmd := h.length
      rw [hlen] at haction hpicoboot
      refine ⟨_, rfl, .taskQueued hreboot hlength _ (.single haction) ?_ hmachine, hid⟩
      rw [← hpicoboot, ← hqueue]
      rfl
    · rw [if_neg hlength]
      by_cases hwrite : cmd.id = 5
      · refine ⟨_, if_pos ?_, .streamStarted hreboot hlength ?_ hmachine, hid⟩
        · rw [if_pos hwrite]
          decide
        · rw [if_pos hwrite]
          exact ⟨rfl, rfl, rfl, rfl, rfl⟩
      · have hstart := usbStartTransfer_picobootStream
          (s := setupPicobootStream .picobootIn cmd.dTransferLength s₁) hlength hin rfl rfl hdepth
        refine ⟨_, (if_neg ?_).trans hstart, .streamStarted hreboot hlength ?_ ?_, ?_⟩
        · rw [if_neg hwrite]
          decide
        · rw [if_neg hwrite]
          split <;> exact ⟨rfl, rfl, rfl, rfl, rfl⟩
        · split <;> exact hmachine
        · split <;> exact hid

/-- What a command packet does, before `usb_packet_done` : it is accepted or refused. The
acknowledgement of an accepted one goes to `picoboot_out` if its id has the direction bit, and to
`picoboot_in` otherwise, in every state that still has its status block. -/
theorem command_accepted (hw : PicobootWired s) (hpacket : s.outPacket .picobootOut = packet)
    (hdepth : 1 ≤ depth) :
    ∃ s', picobootCmdPacketInternal (usbCalls picobootDriver depth) .picobootOut s = .ok s' ∧
      (¬(PicobootCmd.ofPacket packet).Accepted packet.length → PacketRefused s s') ∧
      ((PicobootCmd.ofPacket packet).Accepted packet.length →
        CommandDone (PicobootCmd.ofPacket packet) s s' ∧
        ∀ t, t.client.status.bCmdId = s'.client.status.bCmdId →
          ∃ t', picobootAck (usbCalls picobootDriver depth) t = .ok t' ∧
            AckedOn (if (PicobootCmd.ofPacket packet).bCmdId &&& 0x80 ≠ 0 then .picobootOut
              else .picobootIn) t t') := by
  have hinternal : picobootCmdPacketInternal (usbCalls picobootDriver depth) .picobootOut s =
      picobootCmdAction (usbCalls picobootDriver depth)
        (s.client.picoboot.readCommand packet.length (PicobootCmd.ofPacket packet)).2
        s.readPacket := by
    rw [← hpacket]
    rfl
  by_cases h : (PicobootCmd.ofPacket packet).Accepted packet.length
  · obtain ⟨s', hs', hdone, hid⟩ := picobootCmdAction_done hw hpacket h hdepth
    refine ⟨s', ?_, fun hnot => absurd h hnot, fun _ => ⟨hdone, fun t ht => ?_⟩⟩
    · rw [hinternal, readCommand_of_accepted h, hs']
    · obtain ⟨t', ht', hack, -⟩ := picobootAck_on hdepth t
      refine ⟨t', ht', ?_⟩
      rw [PicobootCmdStatus.ackEndpoint, ht, hid] at hack
      exact hack
  · obtain ⟨s', hs', hrefused⟩ := picobootCmdAction_halt hw (usbCalls picobootDriver depth)
    refine ⟨s', ?_, fun _ => hrefused, fun haccepted => absurd haccepted h⟩
    rw [hinternal, readCommand_of_not_accepted h, hs']

end Packet

/-- The endpoints once the device is configured, without the transfer of the commands. -/
def picobootEndpoint (e : PicobootEndpoint) : UsbEndpoint PicobootTransfer PicobootFunction where
  isIn := decide (e = .picobootIn)
  doubleBuffered := true
  bufferSize := 64
  defaultTransfer := if e = .picobootOut then some .cmd else none
  currentTransfer := none
  chainTransfer := none
  onStallChange := none
  currentHwBuffer := ⟨false, 0, false⟩
  nextPid := false
  ownedBufferCount := 2
  currentGiveBuffer := false
  currentTakeBuffer := false
  haltState := .none
  firstBufferAfterReset := true
  hw := ⟨fun _ => [], [], []⟩

/-- The device is configured, and nothing has been received. -/
def picobootConfigured : PicobootState where
  endpoint := picobootEndpoint
  transfer t := match t with
    | .cmd => UsbTransfer.reset ⟨.driver .cmdPacket, 1⟩ none
    | _ => UsbTransfer.reset usbCurrentPacketOnlyTransferType none
  currentConfigNum := 1
  client :=
    { picoboot := {}
      machine := powerOn.toMachine
      stream := ⟨0, 0, 0⟩
      streamEp := .picobootIn }

/-- A packet is in the buffer of `picoboot_out`. -/
def picobootReceived (packet : List Byte) : PicobootState :=
  picobootConfigured.modifyEndpoint .picobootOut fun E =>
    { E with hw := { E.hw with dpram := fun _ => packet } }

theorem picobootReceived_wired (packet : List Byte) : PicobootWired (picobootReceived packet) where
  isIn e := by cases e <;> rfl
  doubleBuffered e := by cases e <;> rfl
  onStallChange e := by cases e <;> rfl
  defaultTransfer e := by cases e <;> rfl
  cmdType := rfl

/-- A packet with an id, the size of its arguments, the length of its transfer, and a range. -/
def commandPacket (id size length : Byte) : List Byte :=
  [0x0b, 0xd1, 0x1f, 0x43, 1, 0, 0, 0, id, size, 0, 0, length, 0, 0, 0,
    0, 0, 0, 0x20, length, 0, 0, 0, 0, 0, 0, 0, 0, 0, 0, 0]

/-- `command_accepted`, for `PC_EXIT_XIP`. -/
theorem command_accepted_exitXip :
    ∃ s', picobootCmdPacketInternal (usbCalls picobootDriver 1) .picobootOut
        (picobootReceived (commandPacket 6 0 0)) = .ok s' ∧
      CommandDone (PicobootCmd.ofPacket (commandPacket 6 0 0))
        (picobootReceived (commandPacket 6 0 0)) s' := by
  obtain ⟨s', hs', -, haccepted⟩ := command_accepted (picobootReceived_wired (commandPacket 6 0 0))
    rfl (Nat.le_refl 1)
  exact ⟨s', hs', (haccepted ⟨rfl, rfl, rfl, .inr ⟨by decide, rfl⟩⟩).1⟩

/-- The ids of the commands, with the direction bit. -/
def picobootCmdIds : List Byte := [0x01, 0x02, 0x03, 0x84, 0x05, 0x06, 0x07, 0x08, 0x09]

/-- `PC_WRITE` with the direction bit of a read is accepted, and its acknowledgement is for
`picoboot_out`, where its data comes from. -/
theorem write_with_direction_bit_accepted :
    (PicobootCmd.ofPacket (commandPacket 0x85 8 4)).bCmdId ∉ picobootCmdIds ∧
      ∃ s', picobootCmdPacketInternal (usbCalls picobootDriver 1) .picobootOut
          (picobootReceived (commandPacket 0x85 8 4)) = .ok s' ∧
        (s'.endpoint .picobootOut).chainTransfer = some .stream ∧
        s'.client.streamEp = .picobootOut ∧ s'.client.status.ackEndpoint = .picobootOut := by
  exact ⟨by decide, _, rfl, rfl, rfl, rfl⟩

end PicoBootrom
