import PicoBootrom.PicobootChunks

/-!
# The log of a host that sends PICOBOOT commands

A run of PICOBOOT as the host and the worker see it. The packet of a command opens an entry of the
log, and the next command or a reset closes it. An entry has the packets that went each way, the
tasks that were executed, the acknowledgements, and the status block and the stalls at its end
(`CommandLog`).

`CommandLog.Right` says when an entry is right, whether its command is done or was cut off. A
command that is refused does nothing but halt both endpoints. Every other one performs its action by
its tasks, in order, each with the data that the host sent for it ; its acknowledgement is given
once, and only after all tasks ; and a chunk that fails ends the command with its status. Two kinds
of tasks succeed without the action (`TaskRight`) : that of `PC_ENTER_CMD_XIP`, and those that read
or write no bytes at a page of flash.
-/

set_option linter.unusedSectionVars false

namespace PicoBootrom

/-! ## Entries -/

/-- What was executed, given to `picoboot_in` and acknowledged so far. -/
structure PicobootTotals where
  executed : List ExecutedTask
  given : List (List Byte)
  acks : List ℕ

def PicobootWorld.totals (w : PicobootWorld) : PicobootTotals where
  executed := w.executed
  given := (w.usb.endpoint .picobootIn).hw.given.map (·.packet)
  acks := w.usb.client.acks

/-- A command that the log is not done with : its packet, the machine before and after it, the
totals before it, and the packets of its data. -/
structure OpenCommand where
  packet : List Byte
  machine : Machine × Machine
  before : PicobootTotals
  data : List (List Byte) := []

/-- An entry of the log. `machine` has the machine before and after the packet of the command, and
`replies` are the packets that `picoboot_in` was given. -/
structure CommandLog where
  packet : List Byte
  machine : Machine × Machine
  data : List (List Byte)
  tasks : List ExecutedTask
  replies : List (List Byte)
  acks : List ℕ
  status : PicobootCmdStatus
  halted : PicobootEndpoint → Bool

/-- The entry of a command, as the world is now. -/
def OpenCommand.log (o : OpenCommand) (w : PicobootWorld) : CommandLog where
  packet := o.packet
  machine := o.machine
  data := o.data
  tasks := w.totals.executed.drop o.before.executed.length
  replies := w.totals.given.drop o.before.given.length
  acks := w.totals.acks.drop o.before.acks.length
  status := w.usb.client.status
  halted e := decide ((w.usb.endpoint e).haltState ≠ .none)

/-- The world, the entries that are closed, and the one that is open. -/
structure CommandRun where
  world : PicobootWorld
  past : List CommandLog := []
  now : Option OpenCommand := none

def CommandRun.log (r : CommandRun) : List CommandLog :=
  r.past ++ (r.now.map (·.log r.world)).toList

/-- The log after an event that leads to `w`. -/
def CommandRun.observe (r : CommandRun) (w : PicobootWorld) : PicobootEvent → CommandRun
  | .buffer .picobootOut packet =>
    if (r.world.usb.endpoint .picobootOut).hw.available = [] then { r with world := w }
    else match (r.world.usb.endpoint .picobootOut).currentTransfer with
      | some .cmd =>
        ⟨w, r.log, some ⟨packet, (r.world.usb.client.machine, w.usb.client.machine), r.world.totals,
          []⟩⟩
      | some .stream =>
        { r with world := w, now := r.now.map fun o => { o with data := o.data ++ [packet] } }
      | _ => { r with world := w }
  | .ifReset => ⟨w, r.log, none⟩
  | .clearFeature _ => ⟨w, r.log, none⟩
  | _ => { r with world := w }

/-- One event, with the log. -/
def commandStep (env : Env) (depth : ℕ) (r : CommandRun) (event : PicobootEvent) :
    UsbResult CommandRun := do
  let w ← picobootStep env depth r.world event
  .ok (r.observe w event)

/-- What the host and the worker do. A command is sent when `picoboot_in` is not stalled, and its
data in whole packets but for the last one ; a transfer has at most `2 ^ 32 - 256` bytes. Only
stalls are cleared, and `PICOBOOT_IF_RESET` comes while the worker has no task. What else changes
the machine leaves the chunk buffer alone. -/
def PicobootEvent.Orderly (r : CommandRun) : PicobootEvent → Prop
  | .buffer .picobootIn _ => True
  | .buffer .picobootOut packet =>
    packet.length ≤ 64 ∧
      ((r.world.usb.endpoint .picobootOut).currentTransfer = some .cmd →
        (r.world.usb.endpoint .picobootIn).haltState = .none ∧
          ((PicobootCmd.ofPacket packet).Accepted packet.length →
            (PicobootCmd.ofPacket packet).bCmdId ≠ pcReboot →
              (PicobootCmd.ofPacket packet).dTransferLength.toNat + 256 ≤ 2 ^ 32)) ∧
      ((r.world.usb.endpoint .picobootOut).currentTransfer = some .stream → ∀ o ∈ r.now,
        packet.length = min 64 ((PicobootCmd.ofPacket o.packet).dTransferLength.toNat -
          64 * o.data.length))
  | .ifReset => r.world.worker = .idle
  | .clearFeature e => (r.world.usb.endpoint e).haltState ≠ .none
  | .setConfiguration _ => False
  | .take | .run | .complete => True
  | .machine m => m.picobootBuffer = r.world.usb.client.machine.picobootBuffer

/-! ## Right entries -/

/-- A task was executed. -/
def ExecutedTask.Executes (env : Env) (task : AsyncTask) (t : ExecutedTask) : Prop :=
  t.task = { task with result := t.task.result } ∧
    executeTask env task t.before = (t.after, t.task.result)

/-- The `i`-th task of a command was executed, and has performed the action if it has succeeded.
`PC_ENTER_CMD_XIP` is an exception, whose task succeeds and does nothing, and so is a read or a
write of no bytes at a page of flash, which moves the page. -/
structure TaskRight (env : Env) (cmd : PicobootCmd) (act : PicobootAct) (i : ℕ) (t : ExecutedTask) :
    Prop where
  executes : ∃ task, IsTaskOf cmd act (cmd.dAddr + BitVec.ofNat 32 (256 * i)) (cmd.chunkLen i) task ∧
    t.Executes env task
  performed : t.task.result = 0 → act ≠ .enterCmdXip →
    ¬act.MovesPage (cmd.dAddr + BitVec.ofNat 32 (256 * i)) (cmd.chunkLen i) →
      Performed env cmd (cmd.dAddr + BitVec.ofNat 32 (256 * i)) (cmd.chunkLen i) t.before t.after act

/-- The number of the tasks of a command : one for each chunk, or a single one without data. -/
def PicobootCmd.taskCount (cmd : PicobootCmd) : ℕ := max 1 ((cmd.dTransferLength.toNat + 255) / 256)

/-- A buffer has the `i`-th chunk of the data that has arrived, and zeros after the data. -/
def HasChunk (len : ℕ) (data : List (List Byte)) (i : ℕ) (buffer : ℕ → Byte) : Prop :=
  ∀ j < 256,
    if 256 * i + j < len then ∃ packet, data[(256 * i + j) / 64]? = some packet ∧
      packet[(256 * i + j) % 64]? = some (buffer j)
    else buffer j = 0

/-- The packet of the acknowledgement, if it is for `picoboot_in`. -/
def PicobootCmd.ackReplies (cmd : PicobootCmd) : List (List Byte) :=
  if cmd.bCmdId &&& 0x80 ≠ 0 then [] else [[]]

namespace CommandLog

variable (l : CommandLog)

def cmd : PicobootCmd := .ofPacket l.packet

/-- The endpoint of the data. -/
def dataEndpoint : PicobootEndpoint := if l.cmd.id = 5 then .picobootOut else .picobootIn

/-- The `k`-th packet of what was read. -/
def readPacket (k : ℕ) : List Byte :=
  (List.range (min 64 (l.cmd.dTransferLength.toNat - 64 * k))).map fun j =>
    ChunkStream.readByte l.tasks (64 * k + j)

/-- The number of the packets of a read. -/
def readCount : ℕ := if l.cmd.id = 4 then (l.cmd.dTransferLength.toNat + 63) / 64 else 0

/-- The tasks of a command, up to the first chunk that fails. -/
structure Performs (env : Env) (act : PicobootAct) : Prop where
  tasks : ∀ i t, l.tasks[i]? = some t → TaskRight env l.cmd act i t
  count : l.tasks.length ≤ l.cmd.taskCount
  goesOn : ∀ i t, l.tasks[i]? = some t → i + 1 < l.tasks.length → t.task.result = 0
  wrote : l.cmd.id = 5 → l.cmd.dTransferLength ≠ 0 → ∀ i t, l.tasks[i]? = some t →
    HasChunk l.cmd.dTransferLength.toNat l.data i t.before.picobootBuffer

/-- The first packets of a read were sent, each from a chunk that was read. -/
structure Sent (n : ℕ) : Prop where
  replies : l.replies = (List.range n).map l.readPacket
  le : n ≤ l.readCount
  read : ∀ k < n, ∃ t, l.tasks[k / 4]? = some t ∧ t.task.result = 0

/-- How far a command got. -/
inductive Ends : Prop
  | underway {n : ℕ} (hsent : l.Sent n) (hacks : l.acks = [])
      (hstatus : l.status = ⟨l.cmd.dToken, picobootOk, l.cmd.bCmdId, true⟩)
  | acknowledged (hreplies : l.replies = (List.range l.readCount).map l.readPacket ++ l.cmd.ackReplies)
      (hacks : l.acks.length = 1) (hcount : l.tasks.length = l.cmd.taskCount)
      (hresults : l.cmd.dTransferLength ≠ 0 → ∀ t ∈ l.tasks, t.task.result = 0)
      (hstatus : l.status = ⟨l.cmd.dToken, picobootOk, l.cmd.bCmdId, false⟩)
  | failed {n : ℕ} {t : ExecutedTask} (hsent : l.Sent n) (hacks : l.acks = [])
      (hdata : l.cmd.dTransferLength ≠ 0) (hlast : l.tasks.getLast? = some t)
      (hresult : t.task.result ≠ 0) (hhalted : l.halted l.dataEndpoint = true)
      (hstatus : l.status = ⟨l.cmd.dToken, t.task.result, l.cmd.bCmdId, false⟩)

/-- A command was refused, or the device reboots and it is acknowledged, or its action is performed.
-/
inductive Right (env : Env) : Prop
  | refused (hcmd : ¬l.cmd.Accepted l.packet.length) (hmachine : l.machine.2 = l.machine.1)
      (htasks : l.tasks = []) (hreplies : l.replies = []) (hacks : l.acks = [])
      (hhalted : ∀ e, l.halted e = true)
  | rebooted (hcmd : l.cmd.Accepted l.packet.length) (hid : l.cmd.bCmdId = pcReboot)
      (hmachine : l.machine.2 = safeReboot l.cmd.arg0 l.cmd.arg1 l.cmd.arg2 l.machine.1)
      (htasks : l.tasks = []) (hreplies : l.replies = l.cmd.ackReplies) (hacks : l.acks.length = 1)
  | performs {act : PicobootAct} (hcmd : l.cmd.Accepted l.packet.length)
      (hid : l.cmd.bCmdId ≠ pcReboot) (hact : l.cmd.act = some act)
      (hmachine : l.machine.2 = l.machine.1) (h : l.Performs env act) (hend : l.Ends)

end CommandLog

/-- The log of a conversation : every command is right, all that was executed, sent to the host and
acknowledged belongs to the commands in their order, and `picoboot_out` waits for a command only
when the last one is acknowledged, or a stall or a reset was cleared after it. -/
structure CommandRun.Conversation (env : Env) (r : CommandRun) : Prop where
  right : ∀ l ∈ r.log, l.Right env
  executed : r.world.totals.executed = r.log.flatMap (·.tasks)
  given : r.world.totals.given = r.log.flatMap (·.replies)
  acks : r.world.totals.acks = r.log.flatMap (·.acks)
  waits : (r.world.usb.endpoint .picobootOut).currentTransfer = some .cmd →
    ∀ o ∈ r.now, (o.log r.world).acks.length = 1

end PicoBootrom
