import PicoBootrom.PicobootEndpoints

/-!
# The phases of a PICOBOOT command

What the endpoints, the worker and the log are like between two events of a conversation
(`PicobootPhase`) : nothing goes on, an acknowledgement is sent, the single task of a command is under
way, or a stream is. Every phase has a log entry that is right (`PicobootPhase.right`).

A stream is before a packet, with no task, or it holds a packet for the task of a chunk
(`ChunkStage`), which is in the queue, at the worker, or executed (`TaskUnderway`).
-/

set_option linter.unusedSectionVars false

namespace PicoBootrom

/-! ## The entry of a command -/

/-- What was added to the totals since a command. -/
structure OpenCommand.Since (o : OpenCommand) (w : PicobootWorld) (tasks : List ExecutedTask)
    (replies : List (List Byte)) (acks : List ℕ) : Prop where
  executed : w.executed = o.before.executed ++ tasks
  given : (w.usb.endpoint .picobootIn).hw.given.map (·.packet) = o.before.given ++ replies
  acks : w.usb.client.acks = o.before.acks ++ acks

/-- A command that is accepted and has an action. -/
structure OpenCommand.IsFor (o : OpenCommand) (act : PicobootAct) : Prop where
  accepted : (PicobootCmd.ofPacket o.packet).Accepted o.packet.length
  notReboot : (PicobootCmd.ofPacket o.packet).bCmdId ≠ pcReboot
  names : (PicobootCmd.ofPacket o.packet).act = some act
  machine : o.machine.2 = o.machine.1

section Entry

variable {env : Env} {o : OpenCommand} {w w' : PicobootWorld} {tasks : List ExecutedTask}
  {replies : List (List Byte)} {acks : List ℕ} {act : PicobootAct} {l l' : CommandLog}

namespace OpenCommand.Since

theorem tasks_eq (h : o.Since w tasks replies acks) : (o.log w).tasks = tasks := by
  simp [OpenCommand.log, PicobootWorld.totals, h.executed]

theorem replies_eq (h : o.Since w tasks replies acks) : (o.log w).replies = replies := by
  simp [OpenCommand.log, PicobootWorld.totals, h.given]

theorem acks_eq (h : o.Since w tasks replies acks) : (o.log w).acks = acks := by
  simp [OpenCommand.log, PicobootWorld.totals, h.acks]

/-- The totals are those before the command with what is in its entry. -/
theorem totals_eq (h : o.Since w tasks replies acks) :
    w.totals = ⟨o.before.executed ++ (o.log w).tasks, o.before.given ++ (o.log w).replies,
      o.before.acks ++ (o.log w).acks⟩ := by
  rw [h.tasks_eq, h.replies_eq, h.acks_eq]
  exact PicobootTotals.mk.injEq .. ▸ ⟨h.executed, h.given, h.acks⟩

theorem congr (h : o.Since w tasks replies acks) (htotals : w'.totals = w.totals) :
    o.Since w' tasks replies acks :=
  ⟨(congrArg (·.executed) htotals).trans h.executed, (congrArg (·.given) htotals).trans h.given,
    (congrArg (·.acks) htotals).trans h.acks⟩

/-- Nothing was added when the command comes. -/
theorem start (h : w.totals = o.before) : o.Since w [] [] [] := by
  refine ⟨?_, ?_, ?_⟩
  · rw [List.append_nil, ← h]
    rfl
  · rw [List.append_nil, ← h]
    rfl
  · rw [List.append_nil, ← h]
    rfl

end OpenCommand.Since

/-- The entry depends on the totals, the status block and the stalls only. -/
theorem OpenCommand.log_congr (htotals : w'.totals = w.totals)
    (hstatus : w'.usb.client.status = w.usb.client.status)
    (hhalt : ∀ e, ((w'.usb.endpoint e).haltState = .none ↔ (w.usb.endpoint e).haltState = .none)) :
    o.log w' = o.log w := by
  simp only [OpenCommand.log, htotals, hstatus, ne_eq, hhalt]

/-! ## The tasks of an entry -/

theorem TaskRight.of_executes {cmd : PicobootCmd} {i : ℕ} {task : AsyncTask} {t : ExecutedTask}
    (htask : IsTaskOf cmd act (cmd.dAddr + BitVec.ofNat 32 (256 * i)) (cmd.chunkLen i) task)
    (h : t.Executes env task) : TaskRight env cmd act i t where
  executes := ⟨task, htask, h⟩
  performed hresult henter hpage := by
    have hrun := h.2
    rw [hresult] at hrun
    have hrebooting : t.before.rebooting = false := by
      by_contra hnot
      rw [executeTask, if_pos (by simpa using hnot)] at hrun
      exact absurd (Prod.mk.inj hrun).2 (by decide)
    rw [executeTask_eq_stage env act htask.type hrebooting] at hrun
    exact performed_of_ok htask env henter hpage hrun

theorem HasChunk.mono {len i : ℕ} {data data' : List (List Byte)} {buffer : ℕ → Byte}
    (h : HasChunk len data i buffer) (hdata : data <+: data') : HasChunk len data' i buffer := by
  obtain ⟨rest, rfl⟩ := hdata
  intro j hj
  have hbyte := h j hj
  split at hbyte
  · next hin =>
    rw [if_pos hin]
    obtain ⟨packet, hpacket, hget⟩ := hbyte
    have hlt := (List.getElem?_eq_some_iff.1 hpacket).1
    exact ⟨packet, by rw [List.getElem?_append_left hlt]; exact hpacket, hget⟩
  · next hout =>
    rw [if_neg hout]
    exact hbyte

namespace CommandLog.Performs

theorem nil (htasks : l.tasks = []) : l.Performs env act where
  tasks i t ht := by
    rw [htasks] at ht
    cases ht
  count := by
    rw [htasks]
    exact Nat.zero_le _
  goesOn i t ht := by
    rw [htasks] at ht
    cases ht
  wrote _ _ i t ht := by
    rw [htasks] at ht
    cases ht

theorem congr (h : l.Performs env act) (hpacket : l'.packet = l.packet)
    (htasks : l'.tasks = l.tasks) (hdata : l.data <+: l'.data) : l'.Performs env act := by
  have hcmd : l'.cmd = l.cmd := congrArg PicobootCmd.ofPacket hpacket
  refine ⟨?_, ?_, ?_, ?_⟩
  · rw [htasks, hcmd]
    exact h.tasks
  · rw [htasks, hcmd]
    exact h.count
  · rw [htasks]
    exact h.goesOn
  · rw [htasks, hcmd]
    exact fun hid hlen i t ht => (h.wrote hid hlen i t ht).mono hdata

/-- Another task was executed. -/
theorem ran (h : l.Performs env act) {t : ExecutedTask} (hpacket : l'.packet = l.packet)
    (htasks : l'.tasks = l.tasks ++ [t]) (hdata : l'.data = l.data)
    (hok : ∀ t ∈ l.tasks, t.task.result = 0) (hcount : l.tasks.length < l.cmd.taskCount)
    (ht : TaskRight env l.cmd act l.tasks.length t)
    (hwrote : l.cmd.id = 5 → l.cmd.dTransferLength ≠ 0 →
      HasChunk l.cmd.dTransferLength.toNat l.data l.tasks.length t.before.picobootBuffer) :
    l'.Performs env act := by
  have hcmd : l'.cmd = l.cmd := congrArg PicobootCmd.ofPacket hpacket
  have hget {i : ℕ} {t' : ExecutedTask} (hi : l'.tasks[i]? = some t') :
      l.tasks[i]? = some t' ∨ i = l.tasks.length ∧ t' = t := by
    rw [htasks] at hi
    rcases Nat.lt_trichotomy i l.tasks.length with hlt | heq | hgt
    · rw [List.getElem?_append_left hlt] at hi
      exact .inl hi
    · subst heq
      rw [List.getElem?_concat_length] at hi
      exact .inr ⟨rfl, (Option.some.inj hi).symm⟩
    · rw [List.getElem?_eq_none (by simp; omega)] at hi
      cases hi
  refine ⟨fun i t' hi => ?_, ?_, fun i t' hi hmore => ?_, fun hid hlen i t' hi => ?_⟩
  · rw [hcmd]
    rcases hget hi with hold | ⟨rfl, rfl⟩
    · exact h.tasks i t' hold
    · exact ht
  · rw [htasks, hcmd, List.length_append]
    exact hcount
  · rw [htasks, List.length_append, List.length_singleton] at hmore
    rcases hget hi with hold | ⟨rfl, -⟩
    · exact hok t' (List.mem_of_getElem? hold)
    · omega
  · rw [hcmd] at hid hlen ⊢
    rw [hdata]
    rcases hget hi with hold | ⟨rfl, rfl⟩
    · exact h.wrote hid hlen i t' hold
    · exact hwrote hid hlen

end CommandLog.Performs

end Entry

/-! ## The task of the worker -/

/-- No task is in the queue, and the worker does not refuse one. -/
structure PicobootClient.Vacant (K : PicobootClient) : Prop where
  full : K.picoboot.queue.full = false
  enabled : K.picoboot.queue.disable = false

/-- The machine, the queue and the worker may differ, but not the chunk buffer and whether the queue
is enabled. -/
structure PicobootWorld.Like (w' w : PicobootWorld) : Prop where
  endpoint : w'.usb.endpoint = w.usb.endpoint
  transfer : w'.usb.transfer = w.usb.transfer
  client : w'.usb.client.SameStream w.usb.client
  buffer : w'.usb.client.machine.picobootBuffer = w.usb.client.machine.picobootBuffer
  executed : w'.executed = w.executed

theorem PicobootWorld.Like.refl (w : PicobootWorld) : w.Like w :=
  ⟨rfl, rfl, ⟨rfl, rfl, rfl, rfl, rfl, rfl⟩, rfl, rfl⟩

theorem PicobootWorld.Like.totals {w' w : PicobootWorld} (h : w'.Like w) :
    w'.totals = w.totals := by
  rw [PicobootWorld.totals, PicobootWorld.totals, h.executed, h.endpoint, h.client.acks]

theorem PicobootWorld.Like.log_eq {w' w : PicobootWorld} (h : w'.Like w) (o : OpenCommand) :
    o.log w' = o.log w :=
  OpenCommand.log_congr h.totals h.client.status fun e => by rw [h.endpoint]

/-- A task is under way : in the queue, at the worker, or executed. -/
inductive TaskUnderway (env : Env) (task : AsyncTask) (w : PicobootWorld) :
    Option ExecutedTask → Prop
  | queued (hworker : w.worker = .idle) (hqueue : w.usb.client.picoboot.queue = ⟨task, true, false⟩) :
      TaskUnderway env task w none
  | took {generation : ℕ} (hworker : w.worker = .took task generation)
      (hvacant : w.usb.client.Vacant) : TaskUnderway env task w none
  | ran {t : ExecutedTask} {generation : ℕ} (hworker : w.worker = .ran t.task generation)
      (hvacant : w.usb.client.Vacant) (h : t.Executes env task) : TaskUnderway env task w (some t)

section Worker

variable {env : Env} {task : AsyncTask} {w w' : PicobootWorld} {o : Option ExecutedTask}

theorem PicobootClient.Vacant.congr {K K' : PicobootClient} (h : K.Vacant)
    (hqueue : K'.picoboot.queue = K.picoboot.queue) : K'.Vacant :=
  ⟨by rw [hqueue]; exact h.full, by rw [hqueue]; exact h.enabled⟩

namespace TaskUnderway

theorem congr (h : TaskUnderway env task w o) (hworker : w'.worker = w.worker)
    (hqueue : w'.usb.client.picoboot.queue = w.usb.client.picoboot.queue) :
    TaskUnderway env task w' o := by
  cases h with
  | queued hw hq => exact .queued (hworker.trans hw) (hqueue.trans hq)
  | took hw hvacant => exact .took (hworker.trans hw) (hvacant.congr hqueue)
  | ran hw hvacant hexec => exact .ran (hworker.trans hw) (hvacant.congr hqueue) hexec

/-- The worker takes the task, if it is in the queue. -/
theorem take (h : TaskUnderway env task w o) :
    (takeCommandTask w).Like w ∧ TaskUnderway env task (takeCommandTask w) o := by
  cases h with
  | queued hworker hqueue =>
    have htake : takeCommandTask w = { w with
        usb := w.usb.modifyClient fun K => { K with
          picoboot := { K.picoboot with queue := { K.picoboot.queue with full := false } } }
        worker := .took task w.usb.client.taskGeneration } := by
      simp [takeCommandTask, hworker, hqueue]
    rw [htake]
    refine ⟨⟨rfl, rfl, ⟨rfl, rfl, rfl, rfl, rfl, rfl⟩, rfl, rfl⟩, .took rfl ⟨rfl, ?_⟩⟩
    exact congrArg (·.disable) hqueue
  | took hworker hvacant =>
    have htake : takeCommandTask w = w := by simp [takeCommandTask, hworker]
    rw [htake]
    exact ⟨.refl w, .took hworker hvacant⟩
  | ran hworker hvacant hexec =>
    have htake : takeCommandTask w = w := by simp [takeCommandTask, hworker]
    rw [htake]
    exact ⟨.refl w, .ran hworker hvacant hexec⟩

/-- The worker executes the task, if it has taken it. -/
theorem run (h : TaskUnderway env task w o) : runCommandTask env w = w ∨
    o = none ∧ ∃ t : ExecutedTask, t.Executes env task ∧ t.before = w.usb.client.machine ∧
      (runCommandTask env w).usb = w.usb.modifyClient (fun K => { K with machine := t.after }) ∧
      (runCommandTask env w).executed = w.executed ++ [t] ∧
      TaskUnderway env task (runCommandTask env w) (some t) := by
  cases h with
  | queued hworker hqueue =>
    left
    simp [runCommandTask, hworker]
  | @took generation hworker hvacant =>
    right
    refine ⟨rfl, ?_⟩
    obtain ⟨r, hr⟩ : ∃ r, executeTask env task w.usb.client.machine = r := ⟨_, rfl⟩
    have hrun : runCommandTask env w =
        { usb := w.usb.modifyClient fun K => { K with machine := r.1 }
          worker := .ran { task with result := r.2 } generation
          executed := w.executed ++ [⟨{ task with result := r.2 }, w.usb.client.machine, r.1⟩] } := by
      simp [runCommandTask, hworker, executeCommandTask, hvacant.enabled, hr]
    have hexec : ExecutedTask.Executes env task
        ⟨{ task with result := r.2 }, w.usb.client.machine, r.1⟩ := ⟨rfl, hr⟩
    rw [hrun]
    exact ⟨⟨{ task with result := r.2 }, w.usb.client.machine, r.1⟩, hexec, rfl, rfl, rfl,
      .ran rfl ⟨hvacant.full, hvacant.enabled⟩ hexec⟩
  | ran hworker hvacant hexec =>
    left
    simp [runCommandTask, hworker]

/-- The callback of the task is called, if it was executed. -/
theorem complete (h : TaskUnderway env task w o) (c : PicobootCalls) :
    completeCommandTask c w = .ok w ∨ ∃ t : ExecutedTask, o = some t ∧ t.Executes env task ∧
      w.usb.client.Vacant ∧ completeCommandTask c w = (do
        let usb ← picobootTaskDone c t.task w.usb
        .ok { w with usb := usb, worker := .idle }) := by
  cases h with
  | queued hworker hqueue =>
    left
    simp [completeCommandTask, hworker]
  | took hworker hvacant =>
    left
    simp [completeCommandTask, hworker]
  | ran hworker hvacant hexec =>
    right
    refine ⟨_, rfl, hexec, hvacant, ?_⟩
    simp only [completeCommandTask, hworker]

end TaskUnderway

end Worker

/-! ## Phases -/

/-- Nothing goes on : `picoboot_out` waits for a command or is not used, `picoboot_in` is not used,
and each of them may be stalled. -/
structure PicobootSettled (w : PicobootWorld) : Prop where
  picobootIn : (w.usb.endpoint .picobootIn).Rests ∨ (w.usb.endpoint .picobootIn).Stalled .halted
  picobootOut : w.usb.Single .picobootOut .cmd none ∨ (w.usb.endpoint .picobootOut).Rests ∨
    (w.usb.endpoint .picobootOut).Stalled .halted
  worker : w.worker = .idle
  vacant : w.usb.client.Vacant

/-- The acknowledgement of a command is on an endpoint. -/
structure AckPhase (env : Env) (o : OpenCommand) (e : PicobootEndpoint) (w : PicobootWorld) :
    Prop where
  single : w.usb.Single e .ack (some .tfWaitCommand)
  onPacket : (w.usb.transfer .ack).type.onPacket = .currentPacketOnly
  rests : ∀ e' ≠ e, (w.usb.endpoint e').Rests
  worker : w.worker = .idle
  vacant : w.usb.client.Vacant
  since : ∃ tasks replies acks, o.Since w tasks replies acks
  right : (o.log w).Right env
  acked : (o.log w).acks.length = 1

/-- The single task of a command is under way. -/
structure TaskPhase (env : Env) (o : OpenCommand) (act : PicobootAct) (task : AsyncTask)
    (t : Option ExecutedTask) (w : PicobootWorld) : Prop where
  isFor : o.IsFor act
  noData : (PicobootCmd.ofPacket o.packet).dTransferLength = 0
  isTask : IsTaskOf (.ofPacket o.packet) act (PicobootCmd.ofPacket o.packet).dAddr 0 task
  callback : task.callback = .atcAck
  prepared : w.usb.client.picoboot.task = task
  rests : ∀ e, (w.usb.endpoint e).Rests
  since : o.Since w t.toList [] []
  status : w.usb.client.status = ⟨(PicobootCmd.ofPacket o.packet).dToken, picobootOk,
    (PicobootCmd.ofPacket o.packet).bCmdId, true⟩
  performs : (o.log w).Performs env act
  underway : TaskUnderway env task w t

/-- A stream is one of a command. -/
structure ChunkStream.Of (x : ChunkStream) (o : OpenCommand) (act : PicobootAct) : Prop
    extends o.IsFor act where
  cmd : x.cmd = .ofPacket o.packet
  acks : x.acks = o.before.acks
  isTask : ∀ i, 256 * i < x.cmd.dTransferLength.toNat →
    IsTaskOf x.cmd act (x.cmd.dAddr + BitVec.ofNat 32 (256 * i)) (x.cmd.chunkLen i) (x.chunkTask i)

/-- The packets of a write that have arrived, and zeros for those that are to come. -/
def ChunkStream.arrived (x : ChunkStream) (data : List (List Byte)) (k : ℕ) : List Byte :=
  data.getD k (List.replicate (x.shape.packetLength k) 0)

/-- The tasks of a stream at its `i`-th packet : no task is under way, or the packet is held for the
one of its chunk. -/
inductive ChunkStage (env : Env) (x : ChunkStream) (i : ℕ)
    (idle : PicobootClient → List ExecutedTask → Prop)
    (held : PicobootClient → Option ExecutedTask → Prop) (w : PicobootWorld) :
    List ExecutedTask → Bool → Prop
  | idle {tasks : List ExecutedTask} (hworker : w.worker = .idle)
      (hok : ∀ t ∈ tasks, t.task.result = 0) (h : idle w.usb.client tasks) :
      ChunkStage env x i idle held w tasks false
  | held {before : List ExecutedTask} {t : Option ExecutedTask}
      (htask : TaskUnderway env (x.chunkTask (i / 4)) w t) (hcount : before.length = i / 4)
      (hok : ∀ t ∈ before, t.task.result = 0) (h : held w.usb.client t) :
      ChunkStage env x i idle held w (before ++ t.toList) true

/-- The stage of a write. -/
def WriteStage (env : Env) (x : ChunkStream) (packet : ℕ → List Byte) (i : ℕ) (w : PicobootWorld) :
    List ExecutedTask → Bool → Prop :=
  ChunkStage env x i (fun K tasks => x.WriteIdle packet tasks.length i K)
    (fun K t => x.WriteHeld i K ∧
      (t = none → ChunkStream.Buffered packet (i / 4) (x.shape.chunkLength (i / 4)) K)) w

/-- The stage of a read. -/
def ReadStage (env : Env) (x : ChunkStream) (i : ℕ) (w : PicobootWorld) :
    List ExecutedTask → Bool → Prop :=
  ChunkStage env x i (fun K tasks => x.ReadIdle tasks i K)
    (fun K t => x.ReadHeld i K ∧ ∀ t', t = some t' →
      K.machine.picobootBuffer = t'.after.picobootBuffer) w

/-- The stream of a write is under way, at its `i`-th packet. -/
structure WritePhase (env : Env) (o : OpenCommand) (x : ChunkStream) (act : PicobootAct) (i : ℕ)
    (tasks : List ExecutedTask) (w : PicobootWorld) : Prop where
  of : x.Of o act
  write : x.cmd.id = 5
  lengths : ∀ k packet, o.data[k]? = some packet → packet.length = x.shape.packetLength k
  executed : w.executed = o.before.executed ++ tasks
  given : (w.usb.endpoint .picobootIn).hw.given.map (·.packet) = o.before.given
  performs : (o.log w).Performs env act
  rests : (w.usb.endpoint .picobootIn).Rests
  serving : ∃ first, OutServing (picobootLine .picobootOut x.shape.packetCount first)
    (x.arrived o.data) (fun j _ => j = i) (fun j _ => j = i) o.data.length
    (w.usb.endpoint .picobootOut) (w.usb.transfer .stream) w.usb.client
  stage : WriteStage env x (x.arrived o.data) i w tasks (w.usb.transfer .stream).outstandingPacket

/-- The stream of a read is under way, at its `i`-th packet. -/
structure ReadPhase (env : Env) (o : OpenCommand) (x : ChunkStream) (act : PicobootAct) (i : ℕ)
    (tasks : List ExecutedTask) (w : PicobootWorld) : Prop where
  of : x.Of o act
  read : x.cmd.id = 4
  executed : w.executed = o.before.executed ++ tasks
  performs : (o.log w).Performs env act
  rests : (w.usb.endpoint .picobootOut).Rests
  serving : ∃ first k, InServing (picobootLine .picobootIn x.shape.packetCount first)
    (x.shape.packet (ChunkStream.readByte tasks)) o.before.given (fun j _ => j = i)
    (fun j _ => j = i) k (w.usb.endpoint .picobootIn) (w.usb.transfer .stream) w.usb.client
  stage : ReadStage env x i w tasks (w.usb.transfer .stream).outstandingPacket

/-- The phase of the command that is open, if there is one. `base` has the totals of those that are
closed. -/
inductive PicobootPhase (env : Env) (base : PicobootTotals) (w : PicobootWorld) :
    Option OpenCommand → Prop
  | idle (h : PicobootSettled w) (htotals : w.totals = base) : PicobootPhase env base w none
  | done {o : OpenCommand} (h : PicobootSettled w)
      (hsince : ∃ tasks replies acks, o.Since w tasks replies acks) (hright : (o.log w).Right env)
      (hwaits : (w.usb.endpoint .picobootOut).currentTransfer = some .cmd →
        (o.log w).acks.length = 1) : PicobootPhase env base w (some o)
  | acking {o : OpenCommand} {e : PicobootEndpoint} (h : AckPhase env o e w) :
      PicobootPhase env base w (some o)
  | task {o : OpenCommand} {act : PicobootAct} {task : AsyncTask} {t : Option ExecutedTask}
      (h : TaskPhase env o act task t w) : PicobootPhase env base w (some o)
  | writing {o : OpenCommand} {x : ChunkStream} {act : PicobootAct} {i : ℕ}
      {tasks : List ExecutedTask} (h : WritePhase env o x act i tasks w) :
      PicobootPhase env base w (some o)
  | reading {o : OpenCommand} {x : ChunkStream} {act : PicobootAct} {i : ℕ}
      {tasks : List ExecutedTask} (h : ReadPhase env o x act i tasks w) :
      PicobootPhase env base w (some o)

/-! ## The entry of a phase -/

section Right

variable {env : Env} {base : PicobootTotals} {o : OpenCommand} {w w' : PicobootWorld}
  {x : ChunkStream} {act : PicobootAct} {i : ℕ} {tasks : List ExecutedTask}
  {task : AsyncTask} {t : Option ExecutedTask} {e : PicobootEndpoint}
  {idle : PicobootClient → List ExecutedTask → Prop}
  {held : PicobootClient → Option ExecutedTask → Prop} {outstanding : Bool}

/-- The entry of a command whose action is being performed. -/
theorem OpenCommand.IsFor.underway (h : o.IsFor act) (hperforms : (o.log w).Performs env act)
    (hacks : (o.log w).acks = [])
    (hstatus : w.usb.client.status = ⟨(PicobootCmd.ofPacket o.packet).dToken, picobootOk,
      (PicobootCmd.ofPacket o.packet).bCmdId, true⟩) {n : ℕ} (hsent : (o.log w).Sent n) :
    (o.log w).Right env :=
  .performs h.accepted h.notReboot h.names h.machine hperforms (.underway hsent hacks hstatus)

theorem CommandLog.Sent.zero {l : CommandLog} (h : l.replies = []) : l.Sent 0 :=
  ⟨h, Nat.zero_le _, fun k hk => absurd hk (Nat.not_lt_zero k)⟩

theorem TaskPhase.right (h : TaskPhase env o act task t w) : (o.log w).Right env :=
  h.isFor.underway h.performs h.since.acks_eq h.status (.zero h.since.replies_eq)

theorem WriteStage.kept {packet : ℕ → List Byte}
    (h : WriteStage env x packet i w tasks outstanding) : x.Kept .picobootOut i w.usb.client := by
  cases h with
  | idle _ _ h => exact h.toKept
  | held _ _ _ h => exact h.1.toKept

theorem ReadStage.kept (h : ReadStage env x i w tasks outstanding) :
    x.Kept .picobootIn i w.usb.client := by
  cases h with
  | idle _ _ h => exact h.toKept
  | held _ _ _ h => exact h.1.toKept

theorem ChunkStream.Of.status {ep : PicobootEndpoint} {K : PicobootClient} {k : ℕ} (h : x.Of o act)
    (hkept : x.Kept ep k K) : K.status = ⟨(PicobootCmd.ofPacket o.packet).dToken, picobootOk,
      (PicobootCmd.ofPacket o.packet).bCmdId, true⟩ := by
  rw [hkept.status, h.cmd]

theorem ChunkStream.Of.acks_eq {ep : PicobootEndpoint} {K : PicobootClient} {k : ℕ} (h : x.Of o act)
    (hkept : x.Kept ep k K) : K.acks = o.before.acks ++ [] := by
  rw [hkept.acks, h.acks, List.append_nil]

namespace WritePhase

theorem since (h : WritePhase env o x act i tasks w) : o.Since w tasks [] [] :=
  ⟨h.executed, h.given.trans (List.append_nil _).symm, h.of.acks_eq h.stage.kept⟩

theorem right (h : WritePhase env o x act i tasks w) : (o.log w).Right env :=
  h.of.underway h.performs h.since.acks_eq (h.of.status h.stage.kept) (.zero h.since.replies_eq)

end WritePhase

/-- The chunks of the packets that were sent were all read. -/
theorem ReadStage.read (h : ReadStage env x i w tasks outstanding) {k : ℕ} (hk : k < i) :
    ∃ t, tasks[k / 4]? = some t ∧ t.task.result = 0 := by
  cases h with
  | idle _ hok hidle =>
    have hlt : k / 4 < tasks.length := by
      rw [hidle.count]
      omega
    exact ⟨tasks[k / 4], List.getElem?_eq_getElem hlt, hok _ (List.getElem_mem hlt)⟩
  | @held before t _ hcount hok hheld =>
    have hlt : k / 4 < before.length := by
      have hstarts := hheld.1.starts
      omega
    refine ⟨before[k / 4], ?_, hok _ (List.getElem_mem hlt)⟩
    rw [List.getElem?_append_left hlt, List.getElem?_eq_getElem hlt]

namespace ReadPhase

theorem since (h : ReadPhase env o x act i tasks w) :
    o.Since w tasks ((List.range i).map (x.shape.packet (ChunkStream.readByte tasks))) [] := by
  obtain ⟨first, k, hserve⟩ := h.serving
  exact ⟨h.executed, hserve.given_at, h.of.acks_eq h.stage.kept⟩

/-- The packets of the read, as the entry has them. -/
theorem packet_eq (hx : x.cmd = .ofPacket o.packet) (hsince : (o.log w).tasks = tasks) :
    x.shape.packet (ChunkStream.readByte tasks) = (o.log w).readPacket := by
  funext k
  have hlen : x.shape.length = (o.log w).cmd.dTransferLength := congrArg (·.dTransferLength) hx
  rw [StreamShape.packet, StreamShape.packetLength, CommandLog.readPacket, hlen, hsince]

theorem readCount_eq (hx : x.cmd = .ofPacket o.packet) (hread : x.cmd.id = 4) :
    (o.log w).readCount = x.shape.packetCount := by
  have hlen : x.shape.length = (o.log w).cmd.dTransferLength := congrArg (·.dTransferLength) hx
  rw [CommandLog.readCount, if_pos (by rw [← hread, hx]; rfl), ← hlen]
  rfl

theorem sent (h : ReadPhase env o x act i tasks w) : (o.log w).Sent i where
  replies := by
    rw [h.since.replies_eq, packet_eq h.of.cmd h.since.tasks_eq]
  le := by
    obtain ⟨first, k, hserve⟩ := h.serving
    rw [readCount_eq h.of.cmd h.read]
    exact hserve.at_le
  read k hk := by
    rw [h.since.tasks_eq]
    exact h.stage.read hk

theorem right (h : ReadPhase env o x act i tasks w) : (o.log w).Right env :=
  h.of.underway h.performs h.since.acks_eq (h.of.status h.stage.kept) h.sent

end ReadPhase

/-- Every phase has an entry that is right. -/
theorem PicobootPhase.right (h : PicobootPhase env base w (some o)) : (o.log w).Right env := by
  cases h with
  | done h hsince hright hwaits => exact hright
  | acking h => exact h.right
  | task h => exact h.right
  | writing h => exact h.right
  | reading h => exact h.right

/-- What was added since the command is in its entry. -/
theorem PicobootPhase.totals (h : PicobootPhase env base w (some o)) :
    w.totals = ⟨o.before.executed ++ (o.log w).tasks, o.before.given ++ (o.log w).replies,
      o.before.acks ++ (o.log w).acks⟩ := by
  cases h with
  | done h hsince hright hwaits =>
    obtain ⟨_, _, _, hsince⟩ := hsince
    exact hsince.totals_eq
  | acking h =>
    obtain ⟨_, _, _, hsince⟩ := h.since
    exact hsince.totals_eq
  | task h => exact h.since.totals_eq
  | writing h => exact h.since.totals_eq
  | reading h => exact h.since.totals_eq

end Right

end PicoBootrom
