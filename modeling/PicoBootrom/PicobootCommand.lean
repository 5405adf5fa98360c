import PicoBootrom.AsyncTask

/-!
# PICOBOOT commands and their tasks

The part of `_picoboot_cmd_packet_internal` that reads a command : it fills the status block
and the task of `_picoboot_stream_transfer`, and decides what the command goes on with
(`CmdAction`), a call of `safe_reboot`, a stream of chunks, a single task, or a halt of both
endpoints.

The task of `_picoboot_stream_transfer` is the one that `_picoboot_on_stream_chunk` queues for
every chunk, with `_atc_chunk_task_done` moving its address between two of them.

The header with the commands is not in the repository. Its constants are those of the PICOBOOT
interface : the ids, the sizes of the arguments and the magic number.
-/

namespace PicoBootrom

/-! ## Commands -/

/-- `PICOBOOT_MAGIC`. -/
def picobootMagic : Word := 0x431fd10b

/-- `PC_REBOOT`. -/
def pcReboot : Byte := 2

/-- `struct picoboot_cmd`. The union of the arguments is its first three words. -/
structure PicobootCmd where
  dMagic : Word
  dToken : Word
  bCmdId : Byte
  bCmdSize : Byte
  dTransferLength : Word
  arg0 : Word
  arg1 : Word
  arg2 : Word
  deriving DecidableEq, Repr

/-- `sizeof(struct picoboot_cmd)`. -/
def sizeofPicobootCmd : ℕ := 32

namespace PicobootCmd

/-- `range_cmd.dAddr`, which is `address_only_cmd.dAddr` too. -/
def dAddr (cmd : PicobootCmd) : Word := cmd.arg0

/-- `range_cmd.dSize`. -/
def dSize (cmd : PicobootCmd) : Word := cmd.arg1

/-- `exclusive_cmd.bExclusive`. -/
def bExclusive (cmd : PicobootCmd) : Byte := cmd.arg0.setWidth 8

/-- `cmd->bCmdId & 0x7fu`. -/
def id (cmd : PicobootCmd) : ℕ := (cmd.bCmdId &&& 0x7f).toNat

end PicobootCmd

/-- A row of `cmd_mapping` : the size of the arguments, the transfer length (`0x80` for
`dSize`) and the type of the task. -/
structure CmdMapping where
  size : Byte
  length : Byte
  type : Byte
  deriving DecidableEq, Repr

/-- `cmd_mapping`. -/
def cmdMapping : List CmdMapping :=
  [⟨0, 0, 0⟩, ⟨1, 0x00, atExclusive⟩, ⟨12, 0x00, 0⟩, ⟨8, 0x00, atFlashErase⟩, ⟨8, 0x80, atRead⟩,
    ⟨8, 0x80, atWrite⟩, ⟨0, 0x00, atExitXip⟩, ⟨0, 0x00, atEnterCmdXip⟩, ⟨4, 0x00, atExec⟩,
    ⟨4, 0x00, atVectorizeFlash⟩]

/-- `if (id && id < count_of(cmd_mapping) / 3)`. -/
def PicobootCmd.mapping (cmd : PicobootCmd) : Option CmdMapping :=
  if cmd.id = 0 then none else cmdMapping[cmd.id]?

/-- The length a command's transfer must have. -/
def PicobootCmd.expectedLength (cmd : PicobootCmd) (row : CmdMapping) : Word :=
  if row.length &&& 0x80 ≠ 0 then cmd.dSize else row.length.setWidth 32

/-- `type` : zero unless the transfer has the length it must have. -/
def PicobootCmd.type (cmd : PicobootCmd) (row : CmdMapping) : Byte :=
  if cmd.expectedLength row = cmd.dTransferLength then row.type else 0

/-! ## The state of the interface -/

/-- `struct picoboot_cmd_status`. -/
structure PicobootCmdStatus where
  dToken : Word := 0
  dStatusCode : Word := 0
  bCmdId : Byte := 0
  bInProgress : Bool := false
  deriving DecidableEq, Repr

/-- The status block, the task of `_picoboot_stream_transfer`, `real_token` and the queue. -/
structure Picoboot where
  currentCmdStatus : PicobootCmdStatus := {}
  task : AsyncTask := {}
  realToken : Word := 0
  queue : AsyncTaskQueue := {}
  deriving DecidableEq, Repr

namespace Picoboot

/-- `_set_cmd_status`. -/
def setCmdStatus (status : Word) (p : Picoboot) : Picoboot :=
  { p with currentCmdStatus := { p.currentCmdStatus with dStatusCode := status } }

/-- What a command goes on with. -/
inductive CmdAction
  | reboot (pc sp delayMs : Word)
  /-- The chunks of a transfer, of `picoboot_out` if the type has `AT_WRITE`. -/
  | stream (type : Byte) (transferLength : Word)
  | queueTask
  | halt
  deriving DecidableEq, Repr

/-- The fields every command sets, before its id is looked at. -/
def preInit (cmd : PicobootCmd) (p : Picoboot) : Picoboot :=
  { p with
      realToken := p.realToken - 1
      task := { resetTask with
        token := p.realToken - 1
        picobootUserToken := cmd.dToken
        transferAddr := cmd.dAddr
        eraseAddr := cmd.dAddr
        eraseSize := cmd.dSize
        exclusiveParam := cmd.bExclusive }
      currentCmdStatus :=
        { dToken := cmd.dToken, dStatusCode := picobootUnknownCmd, bCmdId := cmd.bCmdId,
          bInProgress := false } }

/-- The branch of a command whose arguments have the right size. -/
def dispatch (cmd : PicobootCmd) (type : Byte) (p : Picoboot) : Picoboot × CmdAction :=
  let p := p.setCmdStatus picobootOk
  if cmd.bCmdId = pcReboot then (p, .reboot cmd.arg0 cmd.arg1 cmd.arg2)
  else if type ≠ 0 then
    let p := { p with
      task := { p.task with type := type, source := .picoboot }
      currentCmdStatus := { p.currentCmdStatus with bInProgress := true } }
    if cmd.dTransferLength ≠ 0 then
      ({ p with task := { p.task with data := .picobootBuffer } },
        .stream type cmd.dTransferLength)
    else (p, .queueTask)
  else (p.setCmdStatus picobootInvalidTransferLength, .halt)

/-- `_picoboot_cmd_packet_internal` up to what the command goes on with. -/
def readCommand (len : ℕ) (cmd : PicobootCmd) (p : Picoboot) : Picoboot × CmdAction :=
  if len = sizeofPicobootCmd ∧ cmd.dMagic = picobootMagic then
    let p := p.preInit cmd
    match cmd.mapping with
    | none => (p, .halt)
    | some row =>
      if cmd.bCmdSize = row.size then dispatch cmd (cmd.type row) p
      else (p.setCmdStatus picobootInvalidCmdLength, .halt)
  else (p, .halt)

theorem readCommand_queue (len : ℕ) (cmd : PicobootCmd) (p : Picoboot) :
    (p.readCommand len cmd).1.queue = p.queue := by
  unfold readCommand dispatch
  dsimp only
  repeat' split
  all_goals rfl

/-- The single task of a command, queued with `_atc_ack`. -/
def queueCommandTask (p : Picoboot) : Picoboot :=
  let q := queueTask p.queue p.task .atcAck
  { p with queue := q.1, task := q.2 }

/-- `_picoboot_on_stream_chunk`. -/
def onStreamChunk (chunkLen : Word) (p : Picoboot) : Picoboot :=
  let task := { p.task with dataLength := chunkLen }
  let q := queueTask p.queue task .atcChunkTaskDone
  { p with queue := q.1, task := { q.2 with checkLastMutationSource := true } }

/-- The completed task is of the command the token belongs to. -/
def hasToken (p : Picoboot) (task : AsyncTask) : Bool :=
  task.picobootUserToken == p.task.picobootUserToken

/-- `_picoboot_ack`, up to the empty transfer it starts. -/
def ack (p : Picoboot) : Picoboot :=
  { p with currentCmdStatus := { p.currentCmdStatus with bInProgress := false } }

/-- `_atc_chunk_task_done` for a task with the token : the status block, and the address of
the task that is queued for the next chunk. -/
def chunkTaskDone (task : AsyncTask) (p : Picoboot) : Picoboot :=
  let p := p.setCmdStatus task.result
  let p := if task.result ≠ 0 then p.ack else p
  { p with task := { p.task with transferAddr := p.task.transferAddr + task.dataLength } }

/-- `_picoboot_reset`, as far as the command and its queue go. -/
def reset (p : Picoboot) : Picoboot :=
  { p with currentCmdStatus := {}, queue := resetQueue p.queue }

end Picoboot

end PicoBootrom
