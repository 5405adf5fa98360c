import PicoBootrom.PicobootPhases

/-!
# The steps of a PICOBOOT command

What an event leads to while a task or a stream is under way (`PicobootPhase`) : the worker takes the
task, executes it and calls its callback, a packet of a write arrives, and one of a read is taken.
Each of them leads to another phase of the same command (`GoesOn`), and the last one starts its
acknowledgement, or stalls the endpoint of a chunk that has failed.
-/

set_option linter.unusedSectionVars false

namespace PicoBootrom

section Steps

variable {env : Env} {base : PicobootTotals} {now : Option OpenCommand} {o : OpenCommand}
  {w w' : PicobootWorld} {x : ChunkStream} {act : PicobootAct} {i : ℕ} {tasks : List ExecutedTask}
  {task : AsyncTask} {t : Option ExecutedTask} {e : PicobootEndpoint} {packet : ℕ → List Byte}
  {idle : PicobootClient → List ExecutedTask → Prop}
  {held : PicobootClient → Option ExecutedTask → Prop} {outstanding : Bool} {depth : ℕ}

/-! ## Worlds that are alike -/

theorem PicobootSettled.like (h : PicobootSettled w) (hlike : w'.Like w)
    (hworker : w'.worker = w.worker)
    (hqueue : w'.usb.client.picoboot.queue = w.usb.client.picoboot.queue) : PicobootSettled w' where
  picobootIn := by
    rw [hlike.endpoint]
    exact h.picobootIn
  picobootOut := by
    rw [hlike.endpoint]
    exact h.picobootOut.imp_left fun hwaits =>
      hwaits.congr (congrFun hlike.endpoint _) (congrFun hlike.transfer _)
  worker := hworker.trans h.worker
  vacant := h.vacant.congr hqueue

theorem AckPhase.like (h : AckPhase env o e w) (hlike : w'.Like w)
    (hworker : w'.worker = w.worker)
    (hqueue : w'.usb.client.picoboot.queue = w.usb.client.picoboot.queue) :
    AckPhase env o e w' where
  single := h.single.congr (congrFun hlike.endpoint _) (congrFun hlike.transfer _)
  onPacket := by
    rw [hlike.transfer]
    exact h.onPacket
  rests := by
    rw [hlike.endpoint]
    exact h.rests
  worker := hworker.trans h.worker
  vacant := h.vacant.congr hqueue
  since := by
    obtain ⟨tasks, replies, acks, hsince⟩ := h.since
    exact ⟨tasks, replies, acks, hsince.congr hlike.totals⟩
  right := by
    rw [hlike.log_eq]
    exact h.right
  acked := by
    rw [hlike.log_eq]
    exact h.acked

theorem TaskPhase.like (h : TaskPhase env o act task t w) (hlike : w'.Like w)
    (hunderway : TaskUnderway env task w' t) : TaskPhase env o act task t w' :=
  { h with
    prepared := hlike.client.task.trans h.prepared
    rests := by
      rw [hlike.endpoint]
      exact h.rests
    since := h.since.congr hlike.totals
    status := hlike.client.status.trans h.status
    performs := by
      rw [hlike.log_eq]
      exact h.performs
    underway := hunderway }

theorem WritePhase.like (h : WritePhase env o x act i tasks w) (hlike : w'.Like w)
    (hstage : WriteStage env x (x.arrived o.data) i w' tasks
      (w.usb.transfer .stream).outstandingPacket) : WritePhase env o x act i tasks w' :=
  { h with
    executed := hlike.executed.trans h.executed
    given := by
      rw [hlike.endpoint]
      exact h.given
    performs := by
      rw [hlike.log_eq]
      exact h.performs
    rests := by
      rw [hlike.endpoint]
      exact h.rests
    serving := by
      obtain ⟨first, hserve⟩ := h.serving
      rw [hlike.endpoint, hlike.transfer]
      exact ⟨first, hserve.congr (fun _ _ => rfl) (fun _ _ h => h) fun _ _ h => h⟩
    stage := by
      rw [hlike.transfer]
      exact hstage }

theorem ReadPhase.like (h : ReadPhase env o x act i tasks w) (hlike : w'.Like w)
    (hstage : ReadStage env x i w' tasks (w.usb.transfer .stream).outstandingPacket) :
    ReadPhase env o x act i tasks w' :=
  { h with
    executed := hlike.executed.trans h.executed
    performs := by
      rw [hlike.log_eq]
      exact h.performs
    rests := by
      rw [hlike.endpoint]
      exact h.rests
    serving := by
      obtain ⟨first, k, hserve⟩ := h.serving
      rw [hlike.endpoint, hlike.transfer]
      exact ⟨first, k, hserve.congr (fun _ h => h) fun _ h => h⟩
    stage := by
      rw [hlike.transfer]
      exact hstage }

/-- What a stream asks of the client does not change where worlds are alike. -/
structure ChunkStage.Stable (idle : PicobootClient → List ExecutedTask → Prop)
    (held : PicobootClient → Option ExecutedTask → Prop) : Prop where
  vacant : ∀ {K tasks}, idle K tasks → K.picoboot.queue.full = false
  idle : ∀ {K K' : PicobootClient} {tasks}, idle K tasks → K'.SameStream K →
    K'.picoboot.queue.full = K.picoboot.queue.full →
    K'.machine.picobootBuffer = K.machine.picobootBuffer → idle K' tasks
  held : ∀ {K K' : PicobootClient} {t}, held K t → K'.SameStream K →
    K'.machine.picobootBuffer = K.machine.picobootBuffer → held K' t

theorem writeStage_stable (x : ChunkStream) (packet : ℕ → List Byte) (i : ℕ) :
    ChunkStage.Stable (fun K tasks => x.WriteIdle packet tasks.length i K) (fun K t =>
      x.WriteHeld i K ∧
        (t = none → ChunkStream.Buffered packet (i / 4) (x.shape.chunkLength (i / 4)) K)) where
  vacant h := h.vacant
  idle h hsame hfull hbuffer := h.same hsame hfull hbuffer
  held h hsame hbuffer := ⟨h.1.congr hsame, fun ht j hj => by
    rw [hbuffer]
    exact h.2 ht j hj⟩

theorem readStage_stable (x : ChunkStream) (i : ℕ) :
    ChunkStage.Stable (fun K tasks => x.ReadIdle tasks i K) (fun K t => x.ReadHeld i K ∧
      ∀ t', t = some t' → K.machine.picobootBuffer = t'.after.picobootBuffer) where
  vacant h := h.vacant
  idle h hsame hfull hbuffer := h.same hsame hfull hbuffer
  held h hsame hbuffer := ⟨h.1.congr hsame, fun t' ht => hbuffer.trans (h.2 t' ht)⟩

namespace ChunkStage

theorem like (h : ChunkStage env x i idle held w tasks outstanding) (hs : Stable idle held)
    (hlike : w'.Like w) (hworker : w'.worker = w.worker)
    (hqueue : w'.usb.client.picoboot.queue = w.usb.client.picoboot.queue) :
    ChunkStage env x i idle held w' tasks outstanding := by
  cases h with
  | idle hw hok h =>
    exact .idle (hworker.trans hw) hok (hs.idle h hlike.client (by rw [hqueue]) hlike.buffer)
  | held htask hcount hok h =>
    exact .held (htask.congr hworker hqueue) hcount hok (hs.held h hlike.client hlike.buffer)

theorem take (h : ChunkStage env x i idle held w tasks outstanding) (hs : Stable idle held) :
    (takeCommandTask w).Like w ∧
      ChunkStage env x i idle held (takeCommandTask w) tasks outstanding := by
  cases h with
  | idle hworker hok h =>
    have htake : takeCommandTask w = w := by simp [takeCommandTask, hworker, hs.vacant h]
    rw [htake]
    exact ⟨.refl w, .idle hworker hok h⟩
  | held htask hcount hok h =>
    obtain ⟨hlike, htask⟩ := htask.take
    exact ⟨hlike, .held htask hcount hok (hs.held h hlike.client hlike.buffer)⟩

end ChunkStage

/-- The worker looks for a task. -/
theorem PicobootPhase.take (h : PicobootPhase env base w now) :
    PicobootPhase env base (takeCommandTask w) now := by
  have hnone (hworker : w.worker = .idle) (hvacant : w.usb.client.Vacant) :
      takeCommandTask w = w := by simp [takeCommandTask, hworker, hvacant.full]
  cases h with
  | idle h htotals =>
    rw [hnone h.worker h.vacant]
    exact .idle h htotals
  | done h hsince hright hwaits =>
    rw [hnone h.worker h.vacant]
    exact .done h hsince hright hwaits
  | acking h =>
    rw [hnone h.worker h.vacant]
    exact .acking h
  | task h =>
    obtain ⟨hlike, hunderway⟩ := h.underway.take
    exact .task (h.like hlike hunderway)
  | writing h =>
    obtain ⟨hlike, hstage⟩ := h.stage.take (writeStage_stable _ _ _)
    exact .writing (h.like hlike hstage)
  | reading h =>
    obtain ⟨hlike, hstage⟩ := h.stage.take (readStage_stable _ _)
    exact .reading (h.like hlike hstage)

/-- Something else changes the machine. -/
theorem PicobootPhase.setMachine (h : PicobootPhase env base w now) {m : Machine}
    (hm : m.picobootBuffer = w.usb.client.machine.picobootBuffer) :
    PicobootPhase env base
      { w with usb := w.usb.modifyClient fun K => { K with machine := m } } now := by
  have hlike : PicobootWorld.Like
      { w with usb := w.usb.modifyClient fun K => { K with machine := m } } w :=
    ⟨rfl, rfl, ⟨rfl, rfl, rfl, rfl, rfl, rfl⟩, hm, rfl⟩
  generalize hw' : ({ w with usb := w.usb.modifyClient fun K => { K with machine := m } } :
    PicobootWorld) = w' at hlike ⊢
  have hworker : w'.worker = w.worker := by rw [← hw']
  have hqueue : w'.usb.client.picoboot.queue = w.usb.client.picoboot.queue := by rw [← hw']; rfl
  cases h with
  | idle h htotals => exact .idle (h.like hlike hworker hqueue) (hlike.totals.trans htotals)
  | done h hsince hright hwaits =>
    obtain ⟨tasks, replies, acks, hsince⟩ := hsince
    refine .done (h.like hlike hworker hqueue) ⟨tasks, replies, acks, hsince.congr hlike.totals⟩ ?_ ?_
    · rw [hlike.log_eq]
      exact hright
    · rw [hlike.log_eq, hlike.endpoint]
      exact hwaits
  | acking h => exact .acking (h.like hlike hworker hqueue)
  | task h => exact .task (h.like hlike (h.underway.congr hworker hqueue))
  | writing h =>
    exact .writing (h.like hlike (h.stage.like (writeStage_stable _ _ _) hlike hworker hqueue))
  | reading h =>
    exact .reading (h.like hlike (h.stage.like (readStage_stable _ _) hlike hworker hqueue))

/-! ## Tasks that are executed -/

/-- The packets of the chunks that were read stay the same. -/
theorem packet_readByte_append (x : ChunkStream) (tasks ts : List ExecutedTask) {k : ℕ}
    (hk : k / 4 < tasks.length) : x.shape.packet (ChunkStream.readByte (tasks ++ ts)) k =
      x.shape.packet (ChunkStream.readByte tasks) k := by
  refine List.map_congr_left fun j hj => ?_
  have hlt : j < 64 := Nat.lt_of_lt_of_le (List.mem_range.1 hj) (Nat.min_le_left _ _)
  rw [ChunkStream.readByte, ChunkStream.readByte, List.getElem?_append_left (by omega)]

/-- A packet that is held is the last one of its chunk. -/
theorem ChunkStream.WriteHeld.chunk_end {K : PicobootClient} (h : x.WriteHeld i K) :
    256 * (i / 4) + x.shape.chunkLength (i / 4) ≤ 64 * (i + 1) := by
  have hsize : x.shape.chunkSize.toNat = 256 := rfl
  have hmin := x.shape.chunkLength_eq_min (i / 4)
  have hlt := x.shape.lt_packetCount_iff.1 h.inside
  rw [hsize] at hmin
  rcases h.ends with hlast | hmod
  · have hle := StreamShape.length_le_of_last hlast
    omega
  · omega

/-- A buffer that is full has a chunk of the data that has arrived. -/
theorem hasChunk_of_buffered {data : List (List Byte)} {K : PicobootClient}
    (hlen : ∀ k packet, data[k]? = some packet → packet.length = x.shape.packetLength k)
    (hheld : x.WriteHeld i K) (hi : i < data.length)
    (hb : ChunkStream.Buffered (x.arrived data) (i / 4) (x.shape.chunkLength (i / 4)) K) :
    HasChunk x.cmd.dTransferLength.toNat data (i / 4) K.machine.picobootBuffer := by
  have hshape : x.shape.length = x.cmd.dTransferLength := rfl
  have hsize : x.shape.chunkSize.toNat = 256 := rfl
  have hmin := x.shape.chunkLength_eq_min (i / 4)
  have hend := hheld.chunk_end
  rw [hshape, hsize] at hmin
  intro j hj
  have hbyte := hb j hj
  split
  · next hin =>
    rw [if_pos (by omega)] at hbyte
    have hlt : (256 * (i / 4) + j) / 64 < data.length := by omega
    have hlength := hlen _ _ (List.getElem?_eq_getElem hlt)
    rw [StreamShape.packetLength, hshape] at hlength
    have hmod : (256 * (i / 4) + j) % 64 < data[(256 * (i / 4) + j) / 64].length := by omega
    have harrived : x.arrived data ((256 * (i / 4) + j) / 64) =
        data[(256 * (i / 4) + j) / 64] := by
      rw [ChunkStream.arrived, List.getD_eq_getElem?_getD, List.getElem?_eq_getElem hlt,
        Option.getD_some]
    refine ⟨data[(256 * (i / 4) + j) / 64], List.getElem?_eq_getElem hlt, ?_⟩
    rw [hbyte, SectorStream.packetBytes, harrived, List.getD_eq_getElem?_getD,
      List.getElem?_eq_getElem hmod, Option.getD_some]
  · next hout =>
    rw [if_neg (by omega)] at hbyte
    exact hbyte

/-- The chunk of a packet is one of the transfer. -/
theorem ChunkStream.chunk_inside (hi : i < x.shape.packetCount) :
    256 * (i / 4) < x.cmd.dTransferLength.toNat := by
  have hlt : 64 * i < x.cmd.dTransferLength.toNat := x.shape.lt_packetCount_iff.1 hi
  omega

/-- The entry of a stream whose task was executed. -/
theorem ChunkStream.Of.ran (hof : x.Of o act) {t : ExecutedTask} (hi : i < x.shape.packetCount)
    (hlog : (o.log w).Performs env act) (hsince : (o.log w).tasks = tasks)
    (hlog' : (o.log w').tasks = tasks ++ [t]) (hcount : tasks.length = i / 4)
    (hok : ∀ t ∈ tasks, t.task.result = 0) (hexec : t.Executes env (x.chunkTask (i / 4)))
    (hwrote : x.cmd.id = 5 → HasChunk x.cmd.dTransferLength.toNat o.data (i / 4)
      t.before.picobootBuffer) : (o.log w').Performs env act := by
  have hcmd : (o.log w).cmd = x.cmd := hof.cmd.symm
  have hinside := ChunkStream.chunk_inside hi
  refine hlog.ran rfl (hlog'.trans (by rw [hsince])) rfl ?_ ?_ ?_ fun hid _ => ?_
  · rw [hsince]
    exact hok
  · rw [hsince, hcount, hcmd, PicobootCmd.taskCount]
    omega
  · rw [hsince, hcount, hcmd]
    exact .of_executes (hof.isTask _ hinside) hexec
  · rw [hsince, hcount, hcmd]
    exact hwrote (by rw [← hcmd]; exact hid)

theorem WritePhase.run (h : WritePhase env o x act i tasks w) :
    ∃ tasks', WritePhase env o x act i tasks' (runCommandTask env w) := by
  obtain ⟨first, hserve⟩ := h.serving
  have hstage := h.stage
  generalize hout : (w.usb.transfer .stream).outstandingPacket = outstanding at hstage
  cases hstage with
  | idle hworker hok hidle =>
    have hrun : runCommandTask env w = w := by simp [runCommandTask, hworker]
    rw [hrun]
    exact ⟨_, h⟩
  | @held before t htask hcount hok hheld =>
    rcases htask.run with hrun | ⟨rfl, t', hexec, hbefore, husb, hexecuted, htask'⟩
    · rw [hrun]
      exact ⟨_, h⟩
    · have hsince := h.since
      rw [Option.toList_none, List.append_nil] at hsince
      generalize runCommandTask env w = w' at husb hexecuted htask'
      have hsame : w'.usb.client.SameStream w.usb.client := by
        rw [husb]
        exact ⟨rfl, rfl, rfl, rfl, rfl, rfl⟩
      have hendpoint : w'.usb.endpoint = w.usb.endpoint := by rw [husb]; rfl
      have htransfer : w'.usb.transfer = w.usb.transfer := by rw [husb]; rfl
      have hsince' : o.Since w' (before ++ [t']) [] [] := by
        refine ⟨?_, ?_, hsame.acks.trans hsince.acks⟩
        · rw [hexecuted, hsince.executed, List.append_assoc]
        · rw [hendpoint]
          exact hsince.given
      obtain ⟨i', hlt, rfl, -⟩ := hserve.busy_at (I := fun _ _ => True) hout
      refine ⟨before ++ [t'], h.of, h.write, h.lengths, hsince'.executed, ?_, ?_, ?_, ?_, ?_⟩
      · rw [hendpoint]
        exact h.given
      · refine h.of.ran hheld.1.inside h.performs hsince.tasks_eq hsince'.tasks_eq hcount hok hexec
          fun _ => ?_
        rw [hbefore]
        exact hasChunk_of_buffered h.lengths hheld.1 hlt (hheld.2 rfl)
      · rw [hendpoint]
        exact h.rests
      · rw [hendpoint, htransfer]
        exact ⟨first, hserve.congr (fun _ _ => rfl) (fun _ _ h => h) fun _ _ h => h⟩
      · rw [htransfer, hout]
        exact .held htask' hcount hok ⟨hheld.1.congr hsame, fun hnone => by cases hnone⟩

theorem ReadPhase.run (h : ReadPhase env o x act i tasks w) :
    ∃ tasks', ReadPhase env o x act i tasks' (runCommandTask env w) := by
  obtain ⟨first, k, hserve⟩ := h.serving
  have hstage := h.stage
  generalize hout : (w.usb.transfer .stream).outstandingPacket = outstanding at hstage
  cases hstage with
  | idle hworker hok hidle =>
    have hrun : runCommandTask env w = w := by simp [runCommandTask, hworker]
    rw [hrun]
    exact ⟨_, h⟩
  | @held before t htask hcount hok hheld =>
    rcases htask.run with hrun | ⟨rfl, t', hexec, hbefore, husb, hexecuted, htask'⟩
    · rw [hrun]
      exact ⟨_, h⟩
    · have hsince := h.since
      rw [Option.toList_none, List.append_nil] at hsince hserve
      generalize runCommandTask env w = w' at husb hexecuted htask'
      have hsame : w'.usb.client.SameStream w.usb.client := by
        rw [husb]
        exact ⟨rfl, rfl, rfl, rfl, rfl, rfl⟩
      have hendpoint : w'.usb.endpoint = w.usb.endpoint := by rw [husb]; rfl
      have htransfer : w'.usb.transfer = w.usb.transfer := by rw [husb]; rfl
      have htasks : w'.executed = o.before.executed ++ (before ++ [t']) := by
        rw [hexecuted, hsince.executed, List.append_assoc]
      have hlog : (o.log w').tasks = before ++ [t'] := by
        simp [OpenCommand.log, PicobootWorld.totals, htasks]
      have hstarts := hheld.1.starts
      refine ⟨before ++ [t'], h.of, h.read, htasks, ?_, ?_, ?_, ?_⟩
      · refine h.of.ran hheld.1.inside h.performs hsince.tasks_eq hlog hcount hok hexec fun hid => ?_
        exact absurd (h.read.symm.trans hid) (by decide)
      · rw [hendpoint]
        exact h.rests
      · rw [hendpoint, htransfer]
        refine ⟨first, k, InServing.congr_packet (hserve.congr (fun _ h => h) fun _ h => h)
          fun j hj => packet_readByte_append x before [t'] ?_⟩
        omega
      · rw [htransfer, hout]
        refine .held htask' hcount hok ⟨hheld.1.congr hsame, fun t'' ht => ?_⟩
        obtain rfl := Option.some.inj ht
        rw [husb]
        rfl

theorem TaskPhase.run (h : TaskPhase env o act task t w) :
    ∃ t', TaskPhase env o act task t' (runCommandTask env w) := by
  rcases h.underway.run with hrun | ⟨rfl, t', hexec, hbefore, husb, hexecuted, hunderway⟩
  · rw [hrun]
    exact ⟨_, h⟩
  · have hsince := h.since
    generalize runCommandTask env w = w' at husb hexecuted hunderway
    have hsame : w'.usb.client.SameStream w.usb.client := by
      rw [husb]
      exact ⟨rfl, rfl, rfl, rfl, rfl, rfl⟩
    have hendpoint : w'.usb.endpoint = w.usb.endpoint := by rw [husb]; rfl
    have hsince' : o.Since w' [t'] [] [] := by
      refine ⟨?_, ?_, hsame.acks.trans hsince.acks⟩
      · rw [hexecuted, hsince.executed, Option.toList_none, List.append_nil]
      · rw [hendpoint]
        exact hsince.given
    have hlen : (o.log w).cmd.dTransferLength = 0 := h.noData
    have htask : IsTaskOf (o.log w).cmd act ((o.log w).cmd.dAddr + BitVec.ofNat 32 (256 * 0))
        ((o.log w).cmd.chunkLen 0) task := by
      have hchunk : (o.log w).cmd.chunkLen 0 = 0 := by
        rw [PicobootCmd.chunkLen, hlen]
        rfl
      rw [hchunk, Nat.mul_zero, BitVec.ofNat_eq_ofNat, BitVec.add_zero]
      exact h.isTask
    refine ⟨some t', { h with
      prepared := hsame.task.trans h.prepared
      rests := ?_
      since := hsince'
      status := hsame.status.trans h.status
      performs := ?_
      underway := hunderway }⟩
    · rw [hendpoint]
      exact h.rests
    · have htasks : (o.log w).tasks = [] := hsince.tasks_eq
      refine h.performs.ran rfl (hsince'.tasks_eq.trans (by rw [htasks]; rfl)) rfl ?_ ?_ ?_ ?_
      · rw [htasks]
        exact fun _ hmem => by cases hmem
      · rw [htasks, PicobootCmd.taskCount]
        exact Nat.lt_of_lt_of_le Nat.zero_lt_one (Nat.le_max_left _ _)
      · rw [htasks]
        exact .of_executes htask hexec
      · exact fun _ hne => absurd hlen hne

/-- The worker executes the task that it has taken. -/
theorem PicobootPhase.run (h : PicobootPhase env base w now) :
    PicobootPhase env base (runCommandTask env w) now := by
  have hnone (hworker : w.worker = .idle) : runCommandTask env w = w := by
    simp [runCommandTask, hworker]
  cases h with
  | idle h htotals =>
    rw [hnone h.worker]
    exact .idle h htotals
  | done h hsince hright hwaits =>
    rw [hnone h.worker]
    exact .done h hsince hright hwaits
  | acking h =>
    rw [hnone h.worker]
    exact .acking h
  | task h => exact .task h.run.choose_spec
  | writing h => exact .writing h.run.choose_spec
  | reading h => exact .reading h.run.choose_spec

/-! ## The acknowledgement of a command -/

theorem CommandLog.readPacket_congr {l l' : CommandLog} (hpacket : l'.packet = l.packet)
    (htasks : l'.tasks = l.tasks) : l'.readPacket = l.readPacket := by
  have hcmd : l'.cmd = l.cmd := congrArg PicobootCmd.ofPacket hpacket
  funext k
  rw [CommandLog.readPacket, CommandLog.readPacket, hcmd, htasks]

/-- A command whose tasks have all succeeded is acknowledged. -/
theorem OpenCommand.IsFor.acknowledged (h : o.IsFor act) (hw : PicobootWired w.usb)
    (hrests : ∀ e, (w.usb.endpoint e).Rests) (hworker : w.worker = .idle)
    (hvacant : w.usb.client.Vacant)
    (hstatus : w.usb.client.status = ⟨(PicobootCmd.ofPacket o.packet).dToken, picobootOk,
      (PicobootCmd.ofPacket o.packet).bCmdId, true⟩)
    (hsince : o.Since w tasks ((List.range (o.log w).readCount).map (o.log w).readPacket) [])
    (hperforms : (o.log w).Performs env act) (hcount : tasks.length = (o.log w).cmd.taskCount)
    (hresults : (o.log w).cmd.dTransferLength ≠ 0 → ∀ t ∈ tasks, t.task.result = 0)
    (hdepth : 1 ≤ depth) :
    ∃ s, picobootAck (usbCalls picobootDriver depth) w.usb = .ok s ∧
      PicobootPhase env base { w with usb := s } (some o) := by
  obtain ⟨s, hs, hack⟩ := picobootAck_free hw rfl (hrests _).toFree hdepth
  have hbit : w.usb.client.status.bCmdId = (PicobootCmd.ofPacket o.packet).bCmdId := by rw [hstatus]
  have hreplies : (if w.usb.client.status.ackEndpoint = .picobootIn then [[]] else []) =
      (o.log w).cmd.ackReplies := by
    rw [PicobootCmdStatus.ackEndpoint, hbit, PicobootCmd.ackReplies]
    change _ = if (PicobootCmd.ofPacket o.packet).bCmdId &&& 0x80 ≠ 0 then [] else [[]]
    split
    · rw [if_neg (by decide)]
    · rw [if_pos rfl]
  have hlog : (o.log { w with usb := s }).tasks = (o.log w).tasks := rfl
  have hsince' : o.Since { w with usb := s } tasks
      ((List.range (o.log w).readCount).map (o.log w).readPacket ++ (o.log w).cmd.ackReplies)
      [w.usb.client.generation] := by
    refine ⟨hsince.executed, ?_, ?_⟩
    · rw [hack.given, hsince.given, hreplies, List.append_assoc]
    · rw [hack.client]
      exact congrArg (· ++ _) (hsince.acks.trans (List.append_nil _))
  refine ⟨s, hs, .acking ⟨hack.single, hack.onPacket, fun e' hne => ?_, hworker, ?_, ⟨_, _, _, hsince'⟩,
    .performs h.accepted h.notReboot h.names h.machine ?_ (.acknowledged ?_ ?_ ?_ ?_ ?_), ?_⟩⟩
  · rw [hack.endpoint e' hne]
    exact hrests e'
  · refine hvacant.congr ?_
    rw [hack.client]
    rfl
  · exact hperforms.congr rfl hlog (List.prefix_refl _)
  · rw [hsince'.replies_eq, CommandLog.readPacket_congr rfl hlog]
    rfl
  · rw [hsince'.acks_eq]
    rfl
  · rw [hsince'.tasks_eq]
    exact hcount
  · rw [hsince'.tasks_eq]
    exact hresults
  · change s.client.status = _
    rw [hack.client]
    change { w.usb.client.status with bInProgress := false } = _
    rw [hstatus]
    rfl
  · rw [hsince'.acks_eq]
    rfl

/-- The state of a line is as wired as before. -/
theorem PicobootWired.place {s : PicobootState} {count submitted returned due : ℕ} {first : Bool}
    {E E' : UsbEndpoint PicobootTransfer PicobootFunction} {T T' : UsbTransfer PicobootFunction}
    (hw : PicobootWired s) (hl : UsbLine (picobootLine e count first) E T submitted returned due)
    (hE : E'.SameWiring E) (K : PicobootClient) : PicobootWired (s.place e .stream E' T' K) := by
  refine hw.of_wiring (fun e' => ?_) ?_
  · by_cases he : e' = e
    · subst he
      rw [UsbState.place_endpoint]
      exact ⟨hE.isIn.trans (hl.isIn.trans (hw.isIn _).symm),
        hE.doubleBuffered.trans (hl.doubleBuffered.trans (hw.doubleBuffered _).symm),
        hE.defaultTransfer.trans (hl.defaultTransfer.trans (hw.defaultTransfer _).symm),
        hE.onStallChange.trans (hl.onStallChange.trans (hw.onStallChange _).symm)⟩
    · rw [s.place_endpoint_of_ne _ _ _ _ he]
      exact .refl _
  · have hne : PicobootTransfer.cmd ≠ .stream := by decide
    simp [UsbState.place]

/-! ## The steps of a stream -/

/-- A step of the endpoints leads to one of the phases. -/
def GoesOn (env : Env) (base : PicobootTotals) (now : Option OpenCommand) (w : PicobootWorld)
    (r : UsbResult PicobootState) : Prop :=
  ∃ s, r = .ok s ∧ PicobootPhase env base { w with usb := s } now

/-- What a stream leaves as it is. -/
structure StreamWorld (env : Env) (o : OpenCommand) (x : ChunkStream) (act : PicobootAct)
    (e : PicobootEndpoint) (tasks : List ExecutedTask) (w : PicobootWorld) : Prop where
  of : x.Of o act
  executed : w.executed = o.before.executed ++ tasks
  performs : (o.log w).Performs env act
  rests : ∀ e' ≠ e, (w.usb.endpoint e').Rests

theorem StreamWorld.tasks_eq (h : StreamWorld env o x act e tasks w) : (o.log w).tasks = tasks := by
  simp [OpenCommand.log, PicobootWorld.totals, h.executed]

/-- The number of the chunks of a command. -/
theorem ChunkStream.Of.taskCount (h : x.Of o act) : (o.log w).cmd.taskCount = x.shape.chunkCount := by
  have hlen := x.shape.length_pos
  have hcmd : (o.log w).cmd = x.cmd := h.cmd.symm
  have hshape : x.shape.length = x.cmd.dTransferLength := rfl
  have hcount : x.shape.chunkCount = (x.shape.length.toNat + 256 - 1) / 256 := rfl
  rw [PicobootCmd.taskCount, hcmd, hcount]
  rw [hshape] at hlen ⊢
  omega

/-- A stream has ended. -/
theorem StreamWorld.ended (h : StreamWorld env o x act e tasks w) (hw : PicobootWired w.usb)
    (hrests : (w.usb.endpoint e).Rests) (hworker : w.worker = .idle)
    (hfull : w.usb.client.picoboot.queue.full = false) {k : ℕ} (hkept : x.Kept e k w.usb.client)
    (hok : ∀ t ∈ tasks, t.task.result = 0) (hcount : tasks.length = x.shape.chunkCount)
    (hgiven : (w.usb.endpoint .picobootIn).hw.given.map (·.packet) = o.before.given ++
      (List.range (o.log w).readCount).map (o.log w).readPacket) (hdepth : 2 ≤ depth) :
    GoesOn env base (some o) w
      ((usbCalls picobootDriver depth).call (.driver .tfAck) e w.usb) := by
  obtain ⟨depth, rfl⟩ : ∃ d, depth = d + 1 := ⟨depth - 1, by omega⟩
  have hall (e' : PicobootEndpoint) : (w.usb.endpoint e').Rests := by
    by_cases he : e' = e
    · rw [he]
      exact hrests
    · exact h.rests e' he
  exact h.of.acknowledged hw hall hworker ⟨hfull, hkept.enabled⟩ (h.of.status hkept)
    ⟨h.executed, hgiven, h.of.acks_eq hkept⟩ h.performs (hcount.trans h.of.taskCount.symm)
    (fun _ => hok) (by omega)

/-- The stream of a write runs, with no task but the one that was just queued. -/
theorem WritePhase.of_serving {first : Bool} (hs : StreamWorld env o x act .picobootOut tasks w)
    (hwrite : x.cmd.id = 5)
    (hlengths : ∀ k packet, o.data[k]? = some packet → packet.length = x.shape.packetLength k)
    (hserve : OutServing (picobootLine .picobootOut x.shape.packetCount first) (x.arrived o.data)
      (x.WriteIdle (x.arrived o.data) tasks.length) (x.WriteQueued (x.arrived o.data) tasks.length)
      o.data.length (w.usb.endpoint .picobootOut) (w.usb.transfer .stream) w.usb.client)
    (hworker : w.worker = .idle) (hok : ∀ t ∈ tasks, t.task.result = 0)
    (hgiven : (w.usb.endpoint .picobootIn).hw.given.map (·.packet) = o.before.given) :
    ∃ i, WritePhase env o x act i tasks w := by
  have hrests : (w.usb.endpoint .picobootIn).Rests := hs.rests _ (by decide)
  cases ho : (w.usb.transfer .stream).outstandingPacket with
  | false =>
    obtain ⟨hidle, hat⟩ := hserve.idle_at (I := fun j _ => j = o.data.length) ho
    refine ⟨_, hs.of, hwrite, hlengths, hs.executed, hgiven, hs.performs, hrests, ⟨first, hat⟩, ?_⟩
    rw [ho]
    exact .idle hworker hok hidle
  | true =>
    obtain ⟨i, -, hqueued, hat⟩ := hserve.busy_at (I := fun _ _ => True) ho
    have hstage : WriteStage env x (x.arrived o.data) i w (tasks ++ Option.toList none) true :=
      .held (.queued hworker hqueued.queue) hqueued.count hok
        ⟨hqueued.toWriteHeld, fun _ => hqueued.buffer⟩
    rw [Option.toList_none, List.append_nil] at hstage
    refine ⟨i, hs.of, hwrite, hlengths, hs.executed, hgiven, hs.performs, hrests,
      ⟨first, hat.waits ho⟩, ?_⟩
    rw [ho]
    exact hstage

/-- The stream of a write goes on, or has ended. -/
theorem OutAfter.goesOn {first : Bool} {k : ℕ} {r : UsbResult PicobootState}
    (h : OutAfter (usbCalls picobootDriver depth)
      (picobootLine .picobootOut x.shape.packetCount first) (x.arrived o.data)
      (x.WriteIdle (x.arrived o.data) tasks.length) (x.WriteQueued (x.arrived o.data) tasks.length)
      w.usb .picobootOut k r)
    (hs : StreamWorld env o x act .picobootOut tasks w) (hwrite : x.cmd.id = 5)
    (hlengths : ∀ k packet, o.data[k]? = some packet → packet.length = x.shape.packetLength k)
    (hdata : o.data.length = k) (hw : PicobootWired w.usb) (hworker : w.worker = .idle)
    (hok : ∀ t ∈ tasks, t.task.result = 0)
    (hgiven : (w.usb.endpoint .picobootIn).hw.given.map (·.packet) = o.before.given)
    (hdepth : 2 ≤ depth) : GoesOn env base (some o) w r := by
  have hne : PicobootEndpoint.picobootIn ≠ .picobootOut := by decide
  have hplaced (E : UsbEndpoint PicobootTransfer PicobootFunction)
      (T : UsbTransfer PicobootFunction) (K : PicobootClient) :
      StreamWorld env o x act .picobootOut tasks
        { w with usb := w.usb.place .picobootOut .stream E T K } :=
    ⟨hs.of, hs.executed, hs.performs.congr rfl rfl (List.prefix_refl _), fun e' he => by
      change ((w.usb.place .picobootOut .stream E T K).endpoint e').Rests
      rw [w.usb.place_endpoint_of_ne .stream E T K he]
      exact hs.rests e' he⟩
  have hin (E : UsbEndpoint PicobootTransfer PicobootFunction) (T : UsbTransfer PicobootFunction)
      (K : PicobootClient) :
      ((w.usb.place .picobootOut .stream E T K).endpoint .picobootIn).hw.given.map (·.packet) =
        o.before.given := by
    rw [w.usb.place_endpoint_of_ne .stream E T K hne]
    exact hgiven
  rcases h with ⟨E, T, K, hr, hserve⟩ | ⟨hk, E, T, K, hl, -, -, hidle, hr⟩
  · have hE := w.usb.place_endpoint .picobootOut .stream E T K
    have hT := w.usb.place_transfer .picobootOut .stream E T K
    rw [← hE, ← hT, ← hdata] at hserve
    obtain ⟨i, hphase⟩ := WritePhase.of_serving (hplaced E T K) hwrite hlengths hserve hworker hok
      (hin E T K)
    exact ⟨_, hr, .writing hphase⟩
  · have hout := w.usb.place_endpoint .picobootOut .stream (E.setTransfer none) T.complete K
    have hclient : (w.usb.place .picobootOut .stream (E.setTransfer none) T.complete K).client = K :=
      rfl
    have hsame : (E.setTransfer none).SameWiring E := ⟨rfl, rfl, rfl, rfl⟩
    have hwired : PicobootWired (w.usb.place .picobootOut .stream (E.setTransfer none) T.complete K) :=
      hw.place hl hsame K
    have hend : r = (usbCalls picobootDriver depth).call (.driver .tfAck) .picobootOut
        (w.usb.place .picobootOut .stream (E.setTransfer none) T.complete K) := hr
    have hs' := hplaced (E.setTransfer none) T.complete K
    have hgiven' := hin (E.setTransfer none) T.complete K
    rw [hend]
    generalize w.usb.place .picobootOut .stream (E.setTransfer none) T.complete K = s at *
    have hcount : tasks.length = x.shape.chunkCount := by
      have hended : x.ended k = x.shape.chunkCount := if_pos hk
      rw [hidle.count, hended]
    have hreads : (o.log { w with usb := s }).readCount = 0 := by
      rw [CommandLog.readCount, if_neg]
      change (PicobootCmd.ofPacket o.packet).id ≠ 4
      rw [← hs.of.cmd, hwrite]
      decide
    refine hs'.ended hwired ?_ hworker (by rw [hclient]; exact hidle.vacant)
      (by rw [hclient]; exact hidle.toKept) hok hcount ?_ hdepth
    · change (s.endpoint .picobootOut).Rests
      rw [hout]
      refine ⟨hl.free_end, fun hisIn => ?_⟩
      rw [UsbEndpoint.setTransfer_isIn, hl.isIn] at hisIn
      cases hisIn
    · rw [hreads, List.range_zero, List.map_nil, List.append_nil]
      exact hgiven'

/-- The stream of a read runs, with no task but the one that was just queued. -/
theorem ReadPhase.of_serving {first : Bool} {k : ℕ}
    (hs : StreamWorld env o x act .picobootIn tasks w) (hread : x.cmd.id = 4)
    (hserve : InServing (picobootLine .picobootIn x.shape.packetCount first)
      (x.shape.packet (ChunkStream.readByte tasks)) o.before.given (x.ReadIdle tasks)
      (x.ReadQueued tasks) k (w.usb.endpoint .picobootIn) (w.usb.transfer .stream) w.usb.client)
    (hworker : w.worker = .idle) (hok : ∀ t ∈ tasks, t.task.result = 0) :
    ∃ i, ReadPhase env o x act i tasks w := by
  have hrests : (w.usb.endpoint .picobootOut).Rests := hs.rests _ (by decide)
  cases ho : (w.usb.transfer .stream).outstandingPacket with
  | false =>
    obtain ⟨i, hidle, hat⟩ := hserve.idle_at (I := fun _ _ => True) ho
    refine ⟨i, hs.of, hread, hs.executed, hs.performs, hrests, ⟨first, k, hat.idles ho⟩, ?_⟩
    rw [ho]
    exact .idle hworker hok hidle
  | true =>
    obtain ⟨i, hqueued, hat⟩ := hserve.busy_at (I := fun _ _ => True) ho
    have hstage : ReadStage env x i w (tasks ++ Option.toList none) true :=
      .held (.queued hworker hqueued.queue) hqueued.count hok
        ⟨hqueued.toReadHeld, fun _ hsome => by cases hsome⟩
    rw [Option.toList_none, List.append_nil] at hstage
    refine ⟨i, hs.of, hread, hs.executed, hs.performs, hrests, ⟨first, k, hat.waits ho⟩, ?_⟩
    rw [ho]
    exact hstage

/-- The stream of a read goes on, or has ended. -/
theorem InAfter.goesOn {first : Bool} {k : ℕ} {r : UsbResult PicobootState}
    (h : InAfter (usbCalls picobootDriver depth)
      (picobootLine .picobootIn x.shape.packetCount first)
      (x.shape.packet (ChunkStream.readByte tasks)) o.before.given (x.ReadIdle tasks)
      (x.ReadQueued tasks) w.usb .picobootIn k r)
    (hs : StreamWorld env o x act .picobootIn tasks w) (hread : x.cmd.id = 4)
    (hw : PicobootWired w.usb) (hworker : w.worker = .idle) (hok : ∀ t ∈ tasks, t.task.result = 0)
    (hdepth : 2 ≤ depth) : GoesOn env base (some o) w r := by
  have hplaced (E : UsbEndpoint PicobootTransfer PicobootFunction)
      (T : UsbTransfer PicobootFunction) (K : PicobootClient) :
      StreamWorld env o x act .picobootIn tasks
        { w with usb := w.usb.place .picobootIn .stream E T K } :=
    ⟨hs.of, hs.executed, hs.performs.congr rfl rfl (List.prefix_refl _), fun e' he => by
      change ((w.usb.place .picobootIn .stream E T K).endpoint e').Rests
      rw [w.usb.place_endpoint_of_ne .stream E T K he]
      exact hs.rests e' he⟩
  rcases h with ⟨E, T, K, hr, hserve⟩ | ⟨hk, E, T, K, hi, -, -, hidle, hr⟩
  · have hE := w.usb.place_endpoint .picobootIn .stream E T K
    have hT := w.usb.place_transfer .picobootIn .stream E T K
    rw [← hE, ← hT] at hserve
    obtain ⟨i, hphase⟩ := ReadPhase.of_serving (hplaced E T K) hread hserve hworker hok
    exact ⟨_, hr, .reading hphase⟩
  · have hin := w.usb.place_endpoint .picobootIn .stream (E.setTransfer none) T.complete K
    have hclient : (w.usb.place .picobootIn .stream (E.setTransfer none) T.complete K).client = K :=
      rfl
    have hsame : (E.setTransfer none).SameWiring E := ⟨rfl, rfl, rfl, rfl⟩
    have hwired : PicobootWired (w.usb.place .picobootIn .stream (E.setTransfer none) T.complete K) :=
      hw.place hi.line hsame K
    have hend : r = (usbCalls picobootDriver depth).call (.driver .tfAck) .picobootIn
        (w.usb.place .picobootIn .stream (E.setTransfer none) T.complete K) := hr
    have hs' := hplaced (E.setTransfer none) T.complete K
    rw [hend]
    generalize w.usb.place .picobootIn .stream (E.setTransfer none) T.complete K = s at *
    have hk' : k = x.shape.packetCount := hk
    have hcount : tasks.length = x.shape.chunkCount := by
      have hpackets : x.shape.packetCount = (x.shape.length.toNat + 63) / 64 := rfl
      have hchunks : x.shape.chunkCount = (x.shape.length.toNat + 256 - 1) / 256 := rfl
      rw [hidle.count, hk', hpackets, hchunks]
      omega
    refine hs'.ended hwired ?_ hworker (by rw [hclient]; exact hidle.vacant)
      (by rw [hclient]; exact hidle.toKept) hok hcount ?_ hdepth
    · change (s.endpoint .picobootIn).Rests
      rw [hin]
      exact hi.quiet_end.rests
    · change (s.endpoint .picobootIn).hw.given.map _ = _
      rw [hin, ReadPhase.readCount_eq hs.of.cmd hread,
        ← ReadPhase.packet_eq hs.of.cmd hs'.tasks_eq, ← hk']
      exact hi.given

/-! ### Buffers -/

section Arrived

variable {data : List (List Byte)} {bytes : List Byte}

theorem arrived_append_of_lt (x : ChunkStream) (bytes : List Byte) {j : ℕ} (hj : j < data.length) :
    x.arrived (data ++ [bytes]) j = x.arrived data j := by
  rw [ChunkStream.arrived, ChunkStream.arrived, List.getD_eq_getElem?_getD,
    List.getD_eq_getElem?_getD, List.getElem?_append_left hj]

theorem arrived_append_self (x : ChunkStream) (data : List (List Byte)) (bytes : List Byte) :
    x.arrived (data ++ [bytes]) data.length = bytes := by
  rw [ChunkStream.arrived, List.getD_eq_getElem?_getD, List.getElem?_concat_length,
    Option.getD_some]

theorem arrived_length
    (hlengths : ∀ k packet, data[k]? = some packet → packet.length = x.shape.packetLength k)
    (k : ℕ) : (x.arrived data k).length = x.shape.packetLength k := by
  rw [ChunkStream.arrived, List.getD_eq_getElem?_getD]
  cases hget : data[k]? with
  | none => exact List.length_replicate
  | some packet => exact hlengths k packet hget

theorem lengths_append
    (hlengths : ∀ k packet, data[k]? = some packet → packet.length = x.shape.packetLength k)
    (hbytes : bytes.length = x.shape.packetLength data.length) (k : ℕ) (packet : List Byte)
    (hget : (data ++ [bytes])[k]? = some packet) : packet.length = x.shape.packetLength k := by
  rcases Nat.lt_trichotomy k data.length with hlt | heq | hgt
  · rw [List.getElem?_append_left hlt] at hget
    exact hlengths k packet hget
  · subst heq
    rw [List.getElem?_concat_length] at hget
    obtain rfl := Option.some.inj hget
    exact hbytes
  · rw [List.getElem?_eq_none (by simp; omega)] at hget
    cases hget

end Arrived

/-- Another packet of a write has arrived. -/
def OpenCommand.add (o : OpenCommand) (bytes : List Byte) : OpenCommand :=
  { o with data := o.data ++ [bytes] }

theorem ChunkStream.Of.add (h : x.Of o act) (bytes : List Byte) : x.Of (o.add bytes) act :=
  ⟨⟨h.accepted, h.notReboot, h.names, h.machine⟩, h.cmd, h.acks, h.isTask⟩

theorem performs_add (h : (o.log w).Performs env act) (bytes : List Byte) :
    ((o.add bytes).log w).Performs env act :=
  h.congr rfl rfl (List.prefix_append _ _)

theorem WritePhase.streamWorld (h : WritePhase env o x act i tasks w) :
    StreamWorld env o x act .picobootOut tasks w where
  of := h.of
  executed := h.executed
  performs := h.performs
  rests e he := by
    cases e with
    | picobootIn => exact h.rests
    | picobootOut => exact absurd rfl he

theorem ReadPhase.streamWorld (h : ReadPhase env o x act i tasks w) :
    StreamWorld env o x act .picobootIn tasks w where
  of := h.of
  executed := h.executed
  performs := h.performs
  rests e he := by
    cases e with
    | picobootOut => exact h.rests
    | picobootIn => exact absurd rfl he

/-- A packet of a write arrives. -/
theorem WritePhase.buffer (h : WritePhase env o x act i tasks w) (hw : PicobootWired w.usb)
    (havail : (w.usb.endpoint .picobootOut).hw.available ≠ []) {bytes : List Byte}
    (hbytes : bytes.length = x.shape.packetLength o.data.length) (hdepth : 3 ≤ depth) :
    GoesOn env base (some (o.add bytes)) w
      (usbBufferInterrupt (usbCalls picobootDriver depth) .picobootOut bytes w.usb) := by
  obtain ⟨first, hserve⟩ := h.serving
  have hstage := h.stage
  have hlengths := lengths_append h.lengths hbytes
  have hlength := arrived_length hlengths
  have hsame (j : ℕ) (hj : j < o.data.length) := arrived_append_of_lt x bytes hj
  have hself := arrived_append_self x o.data bytes
  have hdata : (o.add bytes).data.length = o.data.length + 1 := List.length_append
  have hplace : w.usb.place .picobootOut (picobootLine .picobootOut x.shape.packetCount
      first).transfer (w.usb.endpoint .picobootOut) (w.usb.transfer .stream) w.usb.client = w.usb :=
    w.usb.place_self .picobootOut .stream
  have hs : StreamWorld env (o.add bytes) x act .picobootOut tasks w :=
    ⟨h.of.add bytes, h.executed, performs_add h.performs bytes, h.streamWorld.rests⟩
  generalize ho : (w.usb.transfer .stream).outstandingPacket = outstanding at hstage
  cases hstage with
  | idle hworker hok hidle =>
    obtain ⟨rfl, hat⟩ := hserve.idle_at (I := x.WriteQueued (x.arrived (o.data ++ [bytes]))
      tasks.length) ho
    have hserve' : OutServing (picobootLine .picobootOut x.shape.packetCount first)
        (x.arrived (o.data ++ [bytes])) (x.WriteIdle (x.arrived (o.data ++ [bytes])) tasks.length)
        (x.WriteQueued (x.arrived (o.data ++ [bytes])) tasks.length) o.data.length
        (w.usb.endpoint .picobootOut) (w.usb.transfer .stream) w.usb.client := by
      refine hat.congr hsame (fun j _ hj => ?_) fun _ _ hbusy => hbusy
      rw [hj]
      exact hidle.congr hsame
    have hafter := OutServing.buffer (picobootLine_handles .picobootOut x.shape.packetCount first _)
      (ChunkStream.serves_write (fun k _ => hlength k) tasks.length) rfl hserve' havail hdepth
      (s := w.usb) (e := .picobootOut)
    rw [hplace, hself] at hafter
    exact hafter.goesOn hs h.write hlengths hdata hw hworker hok h.given (by omega)
  | @held before t htask hcount hok hheld =>
    have hserve' : OutServing (picobootLine .picobootOut x.shape.packetCount first)
        (x.arrived (o.data ++ [bytes])) (fun _ _ => False) (fun j K => j = i ∧ K = w.usb.client)
        o.data.length (w.usb.endpoint .picobootOut) (w.usb.transfer .stream) w.usb.client :=
      (hserve.waits (I := fun _ _ => False) ho).congr hsame (fun _ _ h => h)
        fun _ _ hj => ⟨hj, rfl⟩
    have hafter := OutServing.buffer (picobootLine_handles .picobootOut x.shape.packetCount first _)
      (UsbHandler.Serves.waiting _ false x.shape.packetCount
        (fun k => by rw [hlength k]; exact Nat.min_le_left _ _) _) rfl hserve' havail hdepth
      (s := w.usb) (e := .picobootOut)
    rw [hplace, hself] at hafter
    obtain ⟨E, T, hr, hout, hat⟩ := hafter.waits
    have hne : PicobootEndpoint.picobootIn ≠ .picobootOut := by decide
    have hin := w.usb.place_endpoint_of_ne .stream E T w.usb.client hne
    have hclient : (w.usb.place .picobootOut .stream E T w.usb.client).client = w.usb.client := rfl
    have hE := w.usb.place_endpoint .picobootOut .stream E T w.usb.client
    have hT := w.usb.place_transfer .picobootOut .stream E T w.usb.client
    obtain ⟨j, hlt, hj, -⟩ := hserve.busy_at (I := fun _ _ => True) ho
    rw [hj] at hlt
    refine ⟨_, hr, ?_⟩
    change PicobootPhase env base
      { w with usb := w.usb.place .picobootOut .stream E T w.usb.client } _
    generalize w.usb.place .picobootOut .stream E T w.usb.client = s at hin hclient hE hT ⊢
    refine .writing (i := i) ⟨hs.of, h.write, hlengths, hs.executed, ?_,
      hs.performs.congr rfl rfl (List.prefix_refl _), ?_, ⟨first, ?_⟩, ?_⟩
    · rw [hin]
      exact h.given
    · rw [hin]
      exact h.rests
    · rw [hdata, hE, hT, hclient]
      exact hat
    · rw [hT, hout]
      refine .held (htask.congr rfl (by rw [hclient])) hcount hok ?_
      rw [hclient]
      refine ⟨hheld.1, fun hnone => (hheld.2 hnone).congr hsame ?_⟩
      have hend := hheld.1.chunk_end
      omega

/-- A packet of a read was taken. -/
theorem ReadPhase.buffer (h : ReadPhase env o x act i tasks w) (hw : PicobootWired w.usb)
    (havail : (w.usb.endpoint .picobootIn).hw.available ≠ []) (bytes : List Byte)
    (hdepth : 2 ≤ depth) :
    GoesOn env base (some o) w
      (usbBufferInterrupt (usbCalls picobootDriver depth) .picobootIn bytes w.usb) := by
  obtain ⟨first, k, hserve⟩ := h.serving
  have hstage := h.stage
  have hs := h.streamWorld
  have hlength (packets : ℕ → Byte) (k : ℕ) : (x.shape.packet packets k).length ≤ 64 := by
    rw [StreamShape.packet_length]
    exact Nat.min_le_left _ _
  have hplace : w.usb.place .picobootIn (picobootLine .picobootIn x.shape.packetCount
      first).transfer (w.usb.endpoint .picobootIn) (w.usb.transfer .stream) w.usb.client = w.usb :=
    w.usb.place_self .picobootIn .stream
  generalize ho : (w.usb.transfer .stream).outstandingPacket = outstanding at hstage
  cases hstage with
  | idle hworker hok hidle =>
    have hserve' : InServing (picobootLine .picobootIn x.shape.packetCount first)
        (x.shape.packet (ChunkStream.readByte tasks)) o.before.given (x.ReadIdle tasks)
        (x.ReadQueued tasks) k (w.usb.endpoint .picobootIn) (w.usb.transfer .stream)
        w.usb.client := by
      refine (hserve.idles (I := x.ReadQueued tasks) ho).congr (fun j hj => ?_) fun _ h => h
      rw [hj]
      exact hidle
    have hafter := InServing.buffer (picobootLine_handles .picobootIn x.shape.packetCount first _)
      (ChunkStream.serves_read x tasks) rfl hserve' havail hdepth bytes (s := w.usb)
      (e := .picobootIn)
    rw [hplace] at hafter
    exact hafter.goesOn hs h.read hw hworker hok hdepth
  | @held before t htask hcount hok hheld =>
    have hserve' : InServing (picobootLine .picobootIn x.shape.packetCount first)
        (x.shape.packet (ChunkStream.readByte (before ++ t.toList))) o.before.given
        (fun _ _ => False) (fun j K => j = i ∧ K = w.usb.client) k (w.usb.endpoint .picobootIn)
        (w.usb.transfer .stream) w.usb.client :=
      (hserve.waits (I := fun _ _ => False) ho).congr (fun _ h => h) fun _ hj => ⟨hj, rfl⟩
    have hafter := InServing.buffer (picobootLine_handles .picobootIn x.shape.packetCount first _)
      (UsbHandler.Serves.waiting _ true x.shape.packetCount (hlength _) _) rfl hserve' havail hdepth
      bytes (s := w.usb) (e := .picobootIn)
    rw [hplace] at hafter
    obtain ⟨E, T, hr, hout, hat⟩ := hafter.waits
    have hne : PicobootEndpoint.picobootOut ≠ .picobootIn := by decide
    have hrests := w.usb.place_endpoint_of_ne .stream E T w.usb.client hne
    have hclient : (w.usb.place .picobootIn .stream E T w.usb.client).client = w.usb.client := rfl
    have hE := w.usb.place_endpoint .picobootIn .stream E T w.usb.client
    have hT := w.usb.place_transfer .picobootIn .stream E T w.usb.client
    refine ⟨_, hr, ?_⟩
    change PicobootPhase env base
      { w with usb := w.usb.place .picobootIn .stream E T w.usb.client } _
    generalize w.usb.place .picobootIn .stream E T w.usb.client = s at hrests hclient hE hT ⊢
    refine .reading (i := i) ⟨h.of, h.read, h.executed,
      h.performs.congr rfl rfl (List.prefix_refl _), ?_, ⟨first, k + 1, ?_⟩, ?_⟩
    · rw [hrests]
      exact h.rests
    · rw [hE, hT, hclient]
      exact hat
    · rw [hT, hout]
      refine .held (htask.congr rfl (by rw [hclient])) hcount hok ?_
      rw [hclient]
      exact hheld

/-! ### Callbacks -/

/-- The callback of a task that was executed. -/
theorem GoesOn.complete {c : PicobootCalls} {t : ExecutedTask}
    (h : GoesOn env base now { w with worker := .idle } (picobootTaskDone c t.task w.usb))
    (hcomplete : completeCommandTask c w = (do
      let usb ← picobootTaskDone c t.task w.usb
      .ok { w with usb := usb, worker := .idle })) :
    ∃ w', completeCommandTask c w = .ok w' ∧ PicobootPhase env base w' now := by
  obtain ⟨s, hs, hphase⟩ := h
  rw [hcomplete, hs]
  exact ⟨_, rfl, hphase⟩

/-- The single task of a command is done. -/
theorem TaskPhase.complete (h : TaskPhase env o act task t w) (hw : PicobootWired w.usb)
    (hdepth : 1 ≤ depth) :
    ∃ w', completeCommandTask (usbCalls picobootDriver depth) w = .ok w' ∧
      PicobootPhase env base w' (some o) := by
  rcases h.underway.complete (usbCalls picobootDriver depth) with
    hsame | ⟨t', rfl, hexec, hvacant, hcomplete⟩
  · exact ⟨w, hsame, .task h⟩
  · have htoken : w.usb.client.picoboot.hasToken t'.task = true := by
      rw [Picoboot.hasToken, h.prepared, hexec.1]
      exact beq_self_eq_true _
    have hcallback : t'.task.callback = .atcAck := by
      rw [hexec.1]
      exact h.callback
    have hdone : picobootTaskDone (usbCalls picobootDriver depth) t'.task w.usb =
        picobootAck (usbCalls picobootDriver depth) w.usb := by
      unfold picobootTaskDone
      rw [hcallback]
      exact if_pos htoken
    have hlen : (o.log w).cmd.dTransferLength = 0 := h.noData
    have hreads : (o.log w).readCount = 0 := by
      rw [CommandLog.readCount, hlen]
      exact ite_self 0
    have hsince : o.Since { w with worker := .idle } [t']
        ((List.range (o.log w).readCount).map (o.log w).readPacket) [] := by
      rw [hreads]
      exact ⟨h.since.executed, h.since.given, h.since.acks⟩
    have hcount : [t'].length = (o.log w).cmd.taskCount := by
      simp [PicobootCmd.taskCount, hlen]
    have hgoes : GoesOn env base (some o) { w with worker := .idle }
        (picobootAck (usbCalls picobootDriver depth) w.usb) :=
      OpenCommand.IsFor.acknowledged (w := { w with worker := .idle }) h.isFor hw h.rests rfl
        hvacant h.status hsince h.performs hcount (fun hne => absurd hlen hne) hdepth
    rw [← hdone] at hgoes
    exact hgoes.complete hcomplete

/-- `_atc_chunk_task_done` for the task of the chunk that is asked for. -/
theorem picobootTaskDone_chunk {s : PicobootState} {k : ℕ} (hkept : x.Kept e k s.client)
    (hasked : x.Asked i s.client) (hw : PicobootWired s) {t : ExecutedTask}
    (hexec : t.Executes env (x.chunkTask i)) (c : PicobootCalls) :
    picobootTaskDone c t.task s = picobootStream.chunkDone c e
      (if t.task.result ≠ 0 then
        (s.modifyClient (PicobootClient.chunkTaskDone t.task)).modifyEndpoint e UsbEndpoint.halt
      else s.modifyClient (PicobootClient.chunkTaskDone t.task)) := by
  have htoken : s.client.picoboot.hasToken t.task = true := by
    rw [Picoboot.hasToken, hasked, hexec.1]
    exact beq_self_eq_true _
  have hcallback : t.task.callback = .atcChunkTaskDone := by
    rw [hexec.1]
    rfl
  have hep : (s.modifyClient (PicobootClient.chunkTaskDone t.task)).client.streamEp = e :=
    hkept.streamEp
  unfold picobootTaskDone
  rw [hcallback]
  dsimp only
  unfold atcChunkTaskDone
  rw [if_pos htoken]
  dsimp only
  split
  · have hhalt : usbHaltEndpoint c e (s.modifyClient (PicobootClient.chunkTaskDone t.task)) =
        .ok ((s.modifyClient (PicobootClient.chunkTaskDone t.task)).modifyEndpoint e
          UsbEndpoint.halt) := usbHaltEndpoint_eq (hw.onStallChange e)
    rw [hep, hhalt]
    exact congrArg (fun e => picobootStream.chunkDone c e _) hep
  · exact congrArg (fun e => picobootStream.chunkDone c e _) hep

/-- The status of a chunk that has failed. -/
theorem PicobootClient.chunkTaskDone_failed (K : PicobootClient) {task : AsyncTask}
    (h : task.result ≠ 0) : (K.chunkTaskDone task).status =
      { K.status with dStatusCode := task.result, bInProgress := false } := by
  unfold PicobootClient.chunkTaskDone Picoboot.chunkTaskDone PicobootClient.status
  dsimp only
  rw [if_pos h]
  rfl

theorem CommandLog.Sent.congr {l l' : CommandLog} {n : ℕ} (h : l.Sent n)
    (hpacket : l'.packet = l.packet) (htasks : l'.tasks = l.tasks) (hreplies : l'.replies = l.replies) :
    l'.Sent n := by
  have hcmd : l'.cmd = l.cmd := congrArg PicobootCmd.ofPacket hpacket
  refine ⟨?_, ?_, ?_⟩
  · rw [hreplies, h.replies, readPacket_congr hpacket htasks]
  · rw [readCount, hcmd]
    exact h.le
  · rw [htasks]
    exact h.read

/-- A chunk has failed : its endpoint is stalled, and the command ends. -/
theorem StreamWorld.failed (hs : StreamWorld env o x act e tasks w)
    {replies : List (List Byte)} (hsince : o.Since w tasks replies []) {t : ExecutedTask} {k n : ℕ}
    (hlast : tasks.getLast? = some t) (hresult : t.task.result ≠ 0)
    (hkept : x.Kept e k w.usb.client) (hvacant : w.usb.client.Vacant)
    (hcurrent : (w.usb.endpoint e).currentTransfer = some .stream)
    (hnone : (w.usb.endpoint e).haltState = .none) (hdata : (o.log w).dataEndpoint = e)
    (hsent : (o.log w).Sent n) (c : PicobootCalls) :
    GoesOn env base (some o) { w with worker := .idle } (picobootStream.chunkDone c e
      ((w.usb.modifyClient (PicobootClient.chunkTaskDone t.task)).modifyEndpoint e
        UsbEndpoint.halt)) := by
  have hE : ((w.usb.modifyClient (PicobootClient.chunkTaskDone t.task)).modifyEndpoint e
      UsbEndpoint.halt).endpoint e = (w.usb.endpoint e).halt := by
    rw [UsbState.modifyEndpoint_endpoint_self]
    rfl
  have hother (e' : PicobootEndpoint) (he : e' ≠ e) :
      ((w.usb.modifyClient (PicobootClient.chunkTaskDone t.task)).modifyEndpoint e
        UsbEndpoint.halt).endpoint e' = w.usb.endpoint e' := by
    rw [UsbState.modifyEndpoint_endpoint_of_ne _ _ _ _ he]
    rfl
  have hclient : ((w.usb.modifyClient (PicobootClient.chunkTaskDone t.task)).modifyEndpoint e
      UsbEndpoint.halt).client = w.usb.client.chunkTaskDone t.task := rfl
  generalize (w.usb.modifyClient (PicobootClient.chunkTaskDone t.task)).modifyEndpoint e
    UsbEndpoint.halt = s at hE hother hclient
  have hcurrent' : (s.endpoint e).currentTransfer = some .stream := by
    rw [hE, UsbEndpoint.halt_eq]
    exact hcurrent
  have hhalted : (s.endpoint e).haltState = .halted := by
    rw [hE]
    exact UsbEndpoint.halt_halted (.inl hnone)
  have hgiven : (s.endpoint e).hw.given = (w.usb.endpoint e).hw.given := by
    rw [hE, UsbEndpoint.halt_eq]
    rfl
  rw [UsbStream.chunkDone, UsbStream.packetHandlerComplete_eq _ _ _ _ rfl]
  generalize hin : (s.endpoint e).isIn = isIn
  obtain ⟨s', bytes, hs', hstalled, hgiven', hother', hclient'⟩ :=
    UsbHandler.packetDone_of_halted (c := c) (picobootStream.handler isIn) hcurrent' hhalted
  have hfinish (K : PicobootClient) :
      ((picobootStream.handler isIn).finish K bytes).1.picoboot = K.picoboot ∧
        ((picobootStream.handler isIn).finish K bytes).1.acks = K.acks := by
    cases isIn <;> exact ⟨rfl, rfl⟩
  obtain ⟨hpicoboot, hacks⟩ := hfinish s.client
  rw [← hclient', hclient] at hpicoboot hacks
  have hqueue : s'.client.picoboot.queue = w.usb.client.picoboot.queue := by
    rw [hpicoboot]
    exact w.usb.client.chunkTaskDone_queue t.task
  have hrests (e' : PicobootEndpoint) (he : e' ≠ e) : (s'.endpoint e').Rests := by
    rw [hother' e' he, hother e' he]
    exact hs.rests e' he
  have hsettled : PicobootSettled { w with usb := s', worker := .idle } := by
    cases e with
    | picobootIn =>
      exact ⟨.inr hstalled, .inr (.inl (hrests _ (by decide))), rfl, hvacant.congr hqueue⟩
    | picobootOut =>
      exact ⟨.inl (hrests _ (by decide)), .inr (.inr hstalled), rfl, hvacant.congr hqueue⟩
  have hsince' : o.Since { w with usb := s', worker := .idle } tasks replies [] := by
    refine ⟨hsince.executed, ?_, hacks.trans hsince.acks⟩
    have hsame : (s'.endpoint .picobootIn).hw.given = (w.usb.endpoint .picobootIn).hw.given := by
      by_cases he : .picobootIn = e
      · rw [he]
        exact hgiven'.trans hgiven
      · rw [hother' _ he, hother _ he]
    change (s'.endpoint .picobootIn).hw.given.map _ = _
    rw [hsame]
    exact hsince.given
  have hcmd : (o.log w).cmd = x.cmd := hs.of.cmd.symm
  refine ⟨s', hs', .done hsettled ⟨_, _, _, hsince'⟩
    (.performs hs.of.accepted hs.of.notReboot hs.of.names hs.of.machine
      (hs.performs.congr rfl rfl (List.prefix_refl _)) (.failed (t := t) (n := n) ?_ hsince'.acks_eq
        ?_ ?_ hresult ?_ ?_)) fun hwaits => ?_⟩
  · refine hsent.congr rfl rfl ?_
    rw [hsince'.replies_eq, hsince.replies_eq]
  · change (o.log w).cmd.dTransferLength ≠ 0
    rw [hcmd]
    exact x.length_ne_zero
  · rw [hsince'.tasks_eq]
    exact hlast
  · change decide ((s'.endpoint (o.log w).dataEndpoint).haltState ≠ .none) = true
    rw [hdata, hstalled.halted]
    rfl
  · change s'.client.picoboot.currentCmdStatus = _
    rw [hpicoboot]
    change (w.usb.client.chunkTaskDone t.task).status = _
    rw [w.usb.client.chunkTaskDone_failed hresult, hs.of.status hkept]
    rfl
  · change (s'.endpoint .picobootOut).currentTransfer = some .cmd at hwaits
    by_cases he : .picobootOut = e
    · rw [he, hstalled.current] at hwaits
      cases hwaits
    · rw [(hrests _ he).current] at hwaits
      cases hwaits

/-- The results of the tasks, with that of the one that is done. -/
theorem results_append {before : List ExecutedTask} {t : ExecutedTask}
    (hok : ∀ t ∈ before, t.task.result = 0) (hresult : t.task.result = 0) :
    ∀ t' ∈ before ++ [t], t'.task.result = 0 := by
  intro t' hmem
  rcases List.mem_append.1 hmem with hold | hnew
  · exact hok t' hold
  · rw [List.mem_singleton.1 hnew]
    exact hresult

/-- The callback of the task of a chunk that is written. -/
theorem WritePhase.complete (h : WritePhase env o x act i tasks w) (hw : PicobootWired w.usb)
    (hdepth : 3 ≤ depth) :
    ∃ w', completeCommandTask (usbCalls picobootDriver depth) w = .ok w' ∧
      PicobootPhase env base w' (some o) := by
  obtain ⟨first, hserve⟩ := h.serving
  have hs := h.streamWorld
  have hsince := h.since
  have hstage := h.stage
  generalize ho : (w.usb.transfer .stream).outstandingPacket = outstanding at hstage
  cases hstage with
  | idle hworker hok hidle =>
    have hsame : completeCommandTask (usbCalls picobootDriver depth) w = .ok w := by
      simp [completeCommandTask, hworker]
    exact ⟨w, hsame, .writing h⟩
  | @held before t htask hcount hok hheld =>
    rcases htask.complete (usbCalls picobootDriver depth) with
      hsame | ⟨t', rfl, hexec, hvacant, hcomplete⟩
    · exact ⟨w, hsame, .writing h⟩
    · refine GoesOn.complete ?_ hcomplete
      rw [picobootTaskDone_chunk hheld.1.toKept hheld.1.asked hw hexec]
      obtain ⟨_, _, _, hl⟩ := hserve.line
      by_cases hresult : t'.task.result = 0
      · rw [if_neg (not_not_intro hresult)]
        have hisIn : ((w.usb.modifyClient (PicobootClient.chunkTaskDone t'.task)).endpoint
            .picobootOut).isIn = false := hw.isIn_out
        rw [UsbStream.chunkDone, UsbStream.packetHandlerComplete_eq _ _ _ _ hisIn]
        have hserve' : OutServing (picobootLine .picobootOut x.shape.packetCount first)
            (x.arrived o.data) (fun j _ => j = i) (fun j _ => j = i) o.data.length
            (w.usb.endpoint .picobootOut) (w.usb.transfer .stream)
            (w.usb.client.chunkTaskDone t'.task) :=
          hserve.congr (fun _ _ => rfl) (fun _ _ h => h) fun _ _ h => h
        have hdata : t'.task.dataLength = x.cmd.chunkLen (i / 4) := by
          rw [hexec.1]
          rfl
        have hready : ∀ j, j = i → x.WriteReady (x.arrived o.data) (before ++ [t']).length j
            (w.usb.client.chunkTaskDone t'.task) := by
          rintro j rfl
          rw [List.length_append, hcount]
          exact hheld.1.done hvacant.full hdata hresult
        have hplace : (w.usb.modifyClient (PicobootClient.chunkTaskDone t'.task)).place .picobootOut
            (picobootLine .picobootOut x.shape.packetCount first).transfer
            (w.usb.endpoint .picobootOut) (w.usb.transfer .stream)
            (w.usb.client.chunkTaskDone t'.task) =
              w.usb.modifyClient (PicobootClient.chunkTaskDone t'.task) :=
          (w.usb.modifyClient (PicobootClient.chunkTaskDone t'.task)).place_self .picobootOut .stream
        have hafter := OutServing.done
          (picobootLine_handles .picobootOut x.shape.packetCount first _)
          (ChunkStream.serves_write (fun k _ => arrived_length h.lengths k) (before ++ [t']).length)
          rfl (hserve'.waits ho) ho hready hdepth
          (fun E T K s' _ hs' => picobootAck_completed (UsbState.place_transfer _ _ _ _ _ _) hs')
          (s := w.usb.modifyClient (PicobootClient.chunkTaskDone t'.task)) (e := .picobootOut)
        rw [hplace] at hafter
        exact OutAfter.goesOn (w := { w with
            usb := w.usb.modifyClient (PicobootClient.chunkTaskDone t'.task), worker := .idle })
          hafter ⟨h.of, h.executed, h.performs.congr rfl rfl (List.prefix_refl _), hs.rests⟩ h.write
          h.lengths rfl (picobootFrame.client _ _ hw) rfl (results_append hok hresult) h.given
          (by omega)
      · rw [if_pos hresult]
        have hend : (o.log w).dataEndpoint = .picobootOut := by
          refine if_pos ?_
          change (PicobootCmd.ofPacket o.packet).id = 5
          rw [← h.of.cmd, h.write]
        exact hs.failed hsince List.getLast?_concat hresult hheld.1.toKept hvacant hl.current
          hl.notHalted hend (.zero hsince.replies_eq) _

/-- The callback of the task of a chunk that is read. -/
theorem ReadPhase.complete (h : ReadPhase env o x act i tasks w) (hw : PicobootWired w.usb)
    (hdepth : 3 ≤ depth) :
    ∃ w', completeCommandTask (usbCalls picobootDriver depth) w = .ok w' ∧
      PicobootPhase env base w' (some o) := by
  obtain ⟨first, k, hserve⟩ := h.serving
  have hs := h.streamWorld
  have hsince := h.since
  have hstage := h.stage
  generalize ho : (w.usb.transfer .stream).outstandingPacket = outstanding at hstage
  cases hstage with
  | idle hworker hok hidle =>
    have hsame : completeCommandTask (usbCalls picobootDriver depth) w = .ok w := by
      simp [completeCommandTask, hworker]
    exact ⟨w, hsame, .reading h⟩
  | @held before t htask hcount hok hheld =>
    rcases htask.complete (usbCalls picobootDriver depth) with
      hsame | ⟨t', rfl, hexec, hvacant, hcomplete⟩
    · exact ⟨w, hsame, .reading h⟩
    · refine GoesOn.complete ?_ hcomplete
      rw [picobootTaskDone_chunk hheld.1.toKept hheld.1.asked hw hexec]
      obtain ⟨_, _, _, hl⟩ := hserve.line
      by_cases hresult : t'.task.result = 0
      · rw [if_neg (not_not_intro hresult)]
        have hisIn : ((w.usb.modifyClient (PicobootClient.chunkTaskDone t'.task)).endpoint
            .picobootIn).isIn = true := hw.isIn _
        rw [UsbStream.chunkDone, UsbStream.packetHandlerComplete_eq _ _ _ _ hisIn]
        have hserve' : InServing (picobootLine .picobootIn x.shape.packetCount first)
            (x.shape.packet (ChunkStream.readByte (before ++ [t']))) o.before.given
            (fun j _ => j = i) (fun j _ => j = i) k (w.usb.endpoint .picobootIn)
            (w.usb.transfer .stream) (w.usb.client.chunkTaskDone t'.task) :=
          hserve.congr (fun _ h => h) fun _ h => h
        have hdata : t'.task.dataLength = x.cmd.chunkLen (i / 4) := by
          rw [hexec.1]
          rfl
        have hloaded : ChunkStream.Loaded (before ++ [t']) (i / 4) w.usb.client := by
          intro j hj
          have hdiv : (256 * (i / 4) + j) / 256 = i / 4 := by omega
          have hmod : (256 * (i / 4) + j) % 256 = j := by omega
          rw [hheld.2 t' rfl, ChunkStream.readByte, hdiv, hmod, ← hcount,
            List.getElem?_concat_length]
        have hready : ∀ j, j = i → x.ReadReady (before ++ [t']) j
            (w.usb.client.chunkTaskDone t'.task) := by
          rintro j rfl
          exact hheld.1.done hvacant.full (by rw [List.length_append, hcount]; rfl) hloaded hdata
            hresult
        have hplace : (w.usb.modifyClient (PicobootClient.chunkTaskDone t'.task)).place .picobootIn
            (picobootLine .picobootIn x.shape.packetCount first).transfer
            (w.usb.endpoint .picobootIn) (w.usb.transfer .stream)
            (w.usb.client.chunkTaskDone t'.task) =
              w.usb.modifyClient (PicobootClient.chunkTaskDone t'.task) :=
          (w.usb.modifyClient (PicobootClient.chunkTaskDone t'.task)).place_self .picobootIn .stream
        have hafter := InServing.done
          (picobootLine_handles .picobootIn x.shape.packetCount first _)
          (ChunkStream.serves_read x (before ++ [t'])) rfl hserve' ho hready
          (by omega : 2 ≤ depth)
          (s := w.usb.modifyClient (PicobootClient.chunkTaskDone t'.task)) (e := .picobootIn)
        rw [hplace] at hafter
        exact InAfter.goesOn (w := { w with
            usb := w.usb.modifyClient (PicobootClient.chunkTaskDone t'.task), worker := .idle })
          hafter ⟨h.of, h.executed, h.performs.congr rfl rfl (List.prefix_refl _), hs.rests⟩ h.read
          (picobootFrame.client _ _ hw) rfl (results_append hok hresult) (by omega)
      · rw [if_pos hresult]
        have hend : (o.log w).dataEndpoint = .picobootIn := by
          refine if_neg ?_
          change (PicobootCmd.ofPacket o.packet).id ≠ 5
          rw [← h.of.cmd, h.read]
          decide
        exact hs.failed hsince List.getLast?_concat hresult hheld.1.toKept hvacant hl.current
          hl.notHalted hend h.sent _

end Steps

end PicoBootrom
