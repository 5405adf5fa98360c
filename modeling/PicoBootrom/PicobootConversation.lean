import PicoBootrom.PicobootSteps

/-!
# The conversation of a host with PICOBOOT

PICOBOOT over any number of commands. The host sends packets of any bytes to `picoboot_out`, takes
those of `picoboot_in`, clears stalls, and resets the interface while the worker has no task. The
worker takes and executes the tasks at any pace, and calls their callbacks.

Each command leads from one phase to the next (`PicobootPhase`), and a log has an entry for it. In
every state of such a run each entry is right (`picoboot_conversation`), and nothing was executed,
sent to the host or acknowledged that is not in an entry. An entry is right although the task of
`PC_ENTER_CMD_XIP` succeeds without entering the mode, and although a read or a write of no bytes
moves a page of flash.
-/

set_option linter.unusedSectionVars false

namespace PicoBootrom

section Events

variable {env : Env} {base : PicobootTotals} {now : Option OpenCommand} {o : OpenCommand}
  {w w' : PicobootWorld} {x : ChunkStream} {act : PicobootAct} {i : ℕ} {tasks : List ExecutedTask}
  {task : AsyncTask} {t : Option ExecutedTask} {e : PicobootEndpoint} {depth : ℕ}

/-! ## Endpoints without a stream -/

/-- A buffer of an endpoint that is not used, or whose transfer has no buffer left. -/
theorem GoesOn.of_nil (h : PicobootPhase env base w now)
    (havail : (w.usb.endpoint e).hw.available = []) (bytes : List Byte) (c : PicobootCalls) :
    GoesOn env base now w (usbBufferInterrupt c e bytes w.usb) :=
  ⟨w.usb, usbBufferInterrupt_nil havail bytes, h⟩

/-- The packet of an acknowledgement was taken : `picoboot_out` waits for a command. -/
theorem AckPhase.over (h : AckPhase env o e w) (hw : PicobootWired w.usb) {s : PicobootState}
    (hover : s.Over w.usb e .ack)
    (hgiven : (s.endpoint .picobootIn).hw.given = (w.usb.endpoint .picobootIn).hw.given)
    (hdepth : 2 ≤ depth) : GoesOn env base (some o) w
      ((usbCalls picobootDriver depth).call (.driver .tfWaitCommand) e s) := by
  obtain ⟨depth, rfl⟩ : ∃ d, depth = d + 1 := ⟨depth - 1, by omega⟩
  have hrests (e' : PicobootEndpoint) : (s.endpoint e').Rests := by
    by_cases he : e' = e
    · rw [he]
      exact hover.quiet.rests
    · rw [hover.endpoint e' he]
      exact h.rests e' he
  have hwired : PicobootWired s := by
    refine hw.of_wiring (fun e' => ?_) (by rw [hover.transfer _ (by decide)])
    by_cases he : e' = e
    · rw [he]
      exact hover.wiring
    · rw [hover.endpoint e' he]
      exact .refl _
  obtain ⟨s', hs', hawaited⟩ :=
    tfPicobootWaitCommand_free hwired (hrests .picobootOut).toFree (by omega : 1 ≤ depth)
  have hclient : s'.client = w.usb.client := hawaited.client.trans hover.client
  have hin : (s'.endpoint .picobootIn).Rests := by
    rw [hawaited.picobootIn]
    exact hrests _
  have htotals : PicobootWorld.totals { w with usb := s' } = w.totals := by
    simp only [PicobootWorld.totals, hawaited.picobootIn, hgiven, hclient]
  have hnone (e' : PicobootEndpoint) : (w.usb.endpoint e').haltState = .none := by
    by_cases he : e' = e
    · rw [he]
      exact h.single.notHalted
    · exact (h.rests e' he).notHalted
  have hlog : o.log { w with usb := s' } = o.log w := by
    refine OpenCommand.log_congr htotals (congrArg PicobootClient.status hclient) fun e' => ?_
    refine iff_of_true ?_ (hnone e')
    cases e' with
    | picobootIn => exact hin.notHalted
    | picobootOut => exact hawaited.waits.notHalted
  obtain ⟨tasks, replies, acks, hsince⟩ := h.since
  refine ⟨s', hs', .done ⟨.inl hin, .inl hawaited.waits, h.worker, ?_⟩
    ⟨tasks, replies, acks, hsince.congr htotals⟩ ?_ fun _ => ?_⟩
  · exact h.vacant.congr (by rw [hclient])
  · rw [hlog]
    exact h.right
  · rw [hlog]
    exact h.acked

/-- The hardware is done with a buffer while an acknowledgement is sent. -/
theorem AckPhase.buffer (h : AckPhase env o e w) (hw : PicobootWired w.usb) (e' : PicobootEndpoint)
    (bytes : List Byte) (hdepth : 2 ≤ depth) :
    GoesOn env base (some o) w (usbBufferInterrupt (usbCalls picobootDriver depth) e' bytes w.usb) := by
  by_cases he : e' = e
  · subst he
    cases e' with
    | picobootIn =>
      obtain ⟨s, hs, hover, hgiven⟩ :=
        h.single.taken_in (c := usbCalls picobootDriver depth) (hw.isIn _) bytes
      rw [hs]
      exact h.over hw hover hgiven hdepth
    | picobootOut =>
      have htaken : ∃ s, usbBufferInterrupt (usbCalls picobootDriver depth) .picobootOut bytes
          w.usb = (usbCalls picobootDriver depth).call (.driver .tfWaitCommand) .picobootOut s ∧
          s.Over w.usb .picobootOut .ack := h.single.taken h.onPacket bytes (by omega)
      obtain ⟨s, hs, hover⟩ := htaken
      rw [hs]
      refine h.over hw hover ?_ hdepth
      rw [hover.endpoint _ (by decide)]
  · exact .of_nil (.acking h) (h.rests e' he).available bytes _

/-- A buffer of an endpoint that is stalled changes nothing but that endpoint. -/
theorem PicobootSettled.stalled (h : PicobootSettled w) (hw : PicobootWired w.usb)
    (he : (w.usb.endpoint e).Stalled .halted) (bytes : List Byte) (c : PicobootCalls) :
    ∃ s, usbBufferInterrupt c e bytes w.usb = .ok s ∧ PicobootSettled { w with usb := s } ∧
      PicobootWorld.totals { w with usb := s } = w.totals ∧
      (∀ o : OpenCommand, o.log { w with usb := s } = o.log w) ∧
      (s.endpoint .picobootOut).currentTransfer =
        (w.usb.endpoint .picobootOut).currentTransfer := by
  obtain ⟨E, hs, hE, hgiven⟩ :=
    usbBufferInterrupt_stalled (c := c) he (hw.onStallChange e) bytes
  have hself : (w.usb.modifyEndpoint e fun _ => E).endpoint e = E :=
    UsbState.modifyEndpoint_endpoint_self _ _ _
  have hother (e' : PicobootEndpoint) (hne : e' ≠ e) :
      (w.usb.modifyEndpoint e fun _ => E).endpoint e' = w.usb.endpoint e' :=
    UsbState.modifyEndpoint_endpoint_of_ne _ _ _ _ hne
  have hclient : (w.usb.modifyEndpoint e fun _ => E).client = w.usb.client := rfl
  have htransfer : (w.usb.modifyEndpoint e fun _ => E).transfer = w.usb.transfer := rfl
  generalize (w.usb.modifyEndpoint e fun _ => E) = s at hs hself hother hclient htransfer
  have hsameGiven : (s.endpoint .picobootIn).hw.given = (w.usb.endpoint .picobootIn).hw.given := by
    by_cases hin : .picobootIn = e
    · rw [hin, hself, hgiven]
    · rw [hother _ hin]
  have htotals : PicobootWorld.totals { w with usb := s } = w.totals := by
    simp only [PicobootWorld.totals, hsameGiven, hclient]
  refine ⟨s, hs, ?_, htotals, fun o => ?_, ?_⟩
  · have hvacant : s.client.Vacant := h.vacant.congr (by rw [hclient])
    cases e with
    | picobootIn =>
      refine ⟨.inr (hself ▸ hE), ?_, h.worker, hvacant⟩
      rw [hother _ (by decide)]
      exact h.picobootOut.imp_left fun hwaits =>
        hwaits.congr (hother _ (by decide)) (congrFun htransfer _)
    | picobootOut =>
      refine ⟨?_, .inr (.inr (hself ▸ hE)), h.worker, hvacant⟩
      rw [hother _ (by decide)]
      exact h.picobootIn
  · refine OpenCommand.log_congr htotals (congrArg PicobootClient.status hclient) fun e' => ?_
    by_cases hne : e' = e
    · rw [hne, hself, hE.halted, he.halted]
    · rw [hother e' hne]
  · by_cases hout : .picobootOut = e
    · rw [hout, hself, hE.current, he.current]
    · rw [hother _ hout]

/-- No endpoint is stalled while a command goes on. -/
theorem AckPhase.notHalted (h : AckPhase env o e w) (e' : PicobootEndpoint) :
    (w.usb.endpoint e').haltState = .none := by
  by_cases he : e' = e
  · rw [he]
    exact h.single.notHalted
  · exact (h.rests e' he).notHalted

theorem WritePhase.notHalted (h : WritePhase env o x act i tasks w) (e : PicobootEndpoint) :
    (w.usb.endpoint e).haltState = .none := by
  obtain ⟨first, hserve⟩ := h.serving
  obtain ⟨_, _, _, hl⟩ := hserve.line
  cases e with
  | picobootIn => exact h.rests.notHalted
  | picobootOut => exact hl.notHalted

theorem ReadPhase.notHalted (h : ReadPhase env o x act i tasks w) (e : PicobootEndpoint) :
    (w.usb.endpoint e).haltState = .none := by
  obtain ⟨first, k, hserve⟩ := h.serving
  obtain ⟨_, _, _, hl⟩ := hserve.line
  cases e with
  | picobootIn => exact hl.notHalted
  | picobootOut => exact h.rests.notHalted

/-- While an endpoint is stalled nothing goes on. -/
theorem PicobootPhase.settled (h : PicobootPhase env base w now)
    (hhalt : (w.usb.endpoint e).haltState ≠ .none) : PicobootSettled w := by
  cases h with
  | idle h htotals => exact h
  | done h hsince hright hwaits => exact h
  | acking h => exact absurd (h.notHalted e) hhalt
  | task h => exact absurd (h.rests e).notHalted hhalt
  | writing h => exact absurd (h.notHalted e) hhalt
  | reading h => exact absurd (h.notHalted e) hhalt

/-- A buffer of an endpoint that is stalled. -/
theorem GoesOn.of_stalled (h : PicobootPhase env base w now) (hw : PicobootWired w.usb)
    (he : (w.usb.endpoint e).Stalled .halted) (bytes : List Byte) (c : PicobootCalls) :
    GoesOn env base now w (usbBufferInterrupt c e bytes w.usb) := by
  have hhalt : (w.usb.endpoint e).haltState ≠ .none := by
    rw [he.halted]
    decide
  obtain ⟨s, hs, hsettled, htotals, hlog, hcurrent⟩ := (h.settled hhalt).stalled hw he bytes c
  refine ⟨s, hs, ?_⟩
  cases h with
  | idle h hbase => exact .idle hsettled (htotals.trans hbase)
  | done h hsince hright hwaits =>
    obtain ⟨tasks, replies, acks, hsince⟩ := hsince
    refine .done hsettled ⟨tasks, replies, acks, hsince.congr htotals⟩ ?_ ?_
    · rw [hlog]
      exact hright
    · rw [hlog]
      exact fun hwaits' => hwaits (hcurrent.symm.trans hwaits')
  | acking h => exact absurd (h.notHalted e) hhalt
  | task h => exact absurd (h.rests e).notHalted hhalt
  | writing h => exact absurd (h.notHalted e) hhalt
  | reading h => exact absurd (h.notHalted e) hhalt

/-- The hardware is done with a buffer of `picoboot_in`. -/
theorem PicobootPhase.buffer_in (h : PicobootPhase env base w now) (hw : PicobootWired w.usb)
    (bytes : List Byte) (hdepth : 2 ≤ depth) : GoesOn env base now w
      (usbBufferInterrupt (usbCalls picobootDriver depth) .picobootIn bytes w.usb) := by
  have hsettled (hs : PicobootSettled w) : GoesOn env base now w
      (usbBufferInterrupt (usbCalls picobootDriver depth) .picobootIn bytes w.usb) := by
    rcases hs.picobootIn with hrests | hstalled
    · exact .of_nil h hrests.available bytes _
    · exact .of_stalled h hw hstalled bytes _
  cases h with
  | idle hs htotals => exact hsettled hs
  | done hs hsince hright hwaits => exact hsettled hs
  | acking h => exact h.buffer hw _ bytes hdepth
  | task h => exact .of_nil (.task h) (h.rests _).available bytes _
  | writing h => exact .of_nil (.writing h) h.rests.available bytes _
  | reading h =>
    by_cases havail : (w.usb.endpoint .picobootIn).hw.available = []
    · exact .of_nil (.reading h) havail bytes _
    · exact h.buffer hw havail bytes hdepth

/-! ## A command comes -/

/-- The status block of a command that is accepted. -/
theorem readCommand_status {len : ℕ} {cmd : PicobootCmd} (h : cmd.Accepted len)
    (hid : cmd.bCmdId ≠ pcReboot) (p : Picoboot) :
    (p.readCommand len cmd).1.currentCmdStatus = ⟨cmd.dToken, picobootOk, cmd.bCmdId, true⟩ := by
  obtain ⟨hexec, hlength⟩ := h.transferLength.resolve_left hid
  obtain ⟨act, hact⟩ := ((cmd.act_cases h.argsSize).resolve_left fun h => hexec h.1).2
  unfold Picoboot.readCommand
  rw [if_pos ⟨h.length, h.magic⟩]
  dsimp only
  rw [PicobootCmd.mapping_eq, h.argsSize]
  dsimp only [Option.map_some]
  rw [if_pos rfl]
  unfold Picoboot.dispatch
  dsimp only
  rw [if_neg hid, PicobootCmd.type, PicobootCmd.expectedLength_eq, if_pos hlength.symm, hact]
  dsimp only [Option.map_some, Option.getD_some]
  rw [if_pos act.type_ne_zero]
  split <;> rfl

/-- The task of a command that is accepted. -/
theorem readCommand_task {len : ℕ} {cmd : PicobootCmd} (h : cmd.Accepted len)
    (hid : cmd.bCmdId ≠ pcReboot) (p : Picoboot) :
    ∃ act, cmd.act = some act ∧ (p.readCommand len cmd).1.task =
      { (p.preInit cmd).task with
        type := act.type, source := .picoboot
        data := if cmd.dTransferLength = 0 then .null else .picobootBuffer } := by
  have haction := readCommand_of_accepted h p
  rw [PicobootCmd.action, if_neg hid] at haction
  have hread : p.readCommand len cmd = ((p.readCommand len cmd).1, (p.readCommand len cmd).2) := rfl
  rw [haction] at hread
  by_cases hzero : cmd.dTransferLength = 0
  · rw [if_pos hzero] at hread ⊢
    obtain ⟨act, hact, htask, -⟩ := readCommand_queues hread (.inl rfl)
    exact ⟨act, hact, htask⟩
  · rw [if_neg hzero] at hread ⊢
    obtain ⟨act, hact, htask, -⟩ := readCommand_queues hread (.inr ⟨_, _, rfl⟩)
    exact ⟨act, hact, htask⟩

/-- Only reads and writes have data. -/
theorem PicobootCmd.Accepted.data {len : ℕ} {cmd : PicobootCmd} (h : cmd.Accepted len)
    (hid : cmd.bCmdId ≠ pcReboot) (hlength : cmd.dTransferLength ≠ 0) : cmd.id = 4 ∨ cmd.id = 5 := by
  obtain ⟨-, heq⟩ := h.transferLength.resolve_left hid
  have hdata : cmd.hasData = true := by
    by_contra hnot
    rw [if_neg hnot] at heq
    exact hlength heq
  simpa [PicobootCmd.hasData] using hdata

/-- The stream of a command that is read, in the state of the client. -/
def commandStream (packet : List Byte) (K : PicobootClient)
    (hlength : (PicobootCmd.ofPacket packet).dTransferLength ≠ 0)
    (hfits : (PicobootCmd.ofPacket packet).dTransferLength.toNat + 256 ≤ 2 ^ 32) : ChunkStream where
  cmd := .ofPacket packet
  task := (K.readCommand packet).picoboot.task
  acks := K.acks
  length_ne_zero := hlength
  fits := hfits

section Opens

variable {bytes : List Byte} {K : PicobootClient}
  (hlength : (PicobootCmd.ofPacket bytes).dTransferLength ≠ 0)
  (hfits : (PicobootCmd.ofPacket bytes).dTransferLength.toNat + 256 ≤ 2 ^ 32)

/-- The entry of a command that comes. -/
def openCommand (bytes : List Byte) (w w' : PicobootWorld) : OpenCommand :=
  ⟨bytes, (w.usb.client.machine, w'.usb.client.machine), w.totals, []⟩

/-- The task of the first chunk is the one that was prepared. -/
theorem ChunkStream.next_zero (h : x.task.checkLastMutationSource = false)
    (hK : K.picoboot.task = x.task) : x.Next 0 K := by
  intro _
  refine ⟨x.task.callback, x.task.dataLength, ?_⟩
  rw [hK, ChunkStream.chunkTask]
  generalize x.task = task at h
  cases task
  simpa using h

theorem commandStream_kept (hcmd : (PicobootCmd.ofPacket bytes).Accepted bytes.length)
    (hid : (PicobootCmd.ofPacket bytes).bCmdId ≠ pcReboot) (hvacant : K.Vacant)
    (ep : PicobootEndpoint) :
    (commandStream bytes K hlength hfits).Kept ep 0 ((K.readCommand bytes).startStream ep
      (PicobootCmd.ofPacket bytes).dTransferLength) where
  streamEp := rfl
  record := by
    rw [StreamShape.record_zero]
    rfl
  status := readCommand_status hcmd hid K.picoboot
  enabled := by
    change (K.picoboot.readCommand _ _).1.queue.disable = false
    rw [Picoboot.readCommand_queue]
    exact hvacant.enabled
  acks := rfl

theorem commandStream_vacant (bytes : List Byte) (hvacant : K.Vacant) (ep : PicobootEndpoint) (len : Word) :
    ((K.readCommand bytes).startStream ep len).picoboot.queue.full = false := by
  change (K.picoboot.readCommand _ _).1.queue.full = false
  rw [Picoboot.readCommand_queue]
  exact hvacant.full

theorem commandStream_next (hcmd : (PicobootCmd.ofPacket bytes).Accepted bytes.length)
    (hid : (PicobootCmd.ofPacket bytes).bCmdId ≠ pcReboot) (ep : PicobootEndpoint) :
    (commandStream bytes K hlength hfits).Next 0 ((K.readCommand bytes).startStream ep
      (PicobootCmd.ofPacket bytes).dTransferLength) := by
  obtain ⟨act, -, htask⟩ := readCommand_task hcmd hid K.picoboot
  exact ChunkStream.next_zero (congrArg AsyncTask.checkLastMutationSource htask) rfl

/-- The tasks of the stream are those of the command. -/
theorem commandStream_of (hcmd : (PicobootCmd.ofPacket bytes).Accepted bytes.length)
    (hid : (PicobootCmd.ofPacket bytes).bCmdId ≠ pcReboot) (w' : PicobootWorld)
    (hmachine : w'.usb.client.machine = w.usb.client.machine)
    (hK : K = w.usb.client) : ∃ act,
    (commandStream bytes K hlength hfits).Of (openCommand bytes w w') act := by
  obtain ⟨act, hact, htask⟩ := readCommand_task hcmd hid K.picoboot
  rw [if_neg hlength] at htask
  subst hK
  refine ⟨act, ⟨hcmd, hid, hact, hmachine⟩, rfl, rfl, fun i hi => ?_⟩
  have hne := PicobootCmd.chunkLen_ne_zero hi
  have hlocal : (commandStream bytes w.usb.client hlength hfits).task =
      (w.usb.client.picoboot.readCommand bytes.length (.ofPacket bytes)).1.task := rfl
  rw [htask] at hlocal
  exact {
    type := congrArg AsyncTask.type hlocal
    source := congrArg AsyncTask.source hlocal
    transferAddr := congrArg (· + BitVec.ofNat 32 (256 * i)) (congrArg AsyncTask.transferAddr hlocal)
    dataLength := rfl
    eraseAddr := congrArg AsyncTask.eraseAddr hlocal
    eraseSize := congrArg AsyncTask.eraseSize hlocal
    exclusiveParam := congrArg AsyncTask.exclusiveParam hlocal
    data := (congrArg AsyncTask.data hlocal).trans (if_neg hne).symm
    check := fun hzero => absurd hzero hne }

/-- A command opens its entry, with nothing in it. -/
theorem openCommand_since (bytes : List Byte) {s : PicobootState}
    (hgiven : (s.endpoint .picobootIn).hw.given = (w.usb.endpoint .picobootIn).hw.given)
    (hacks : s.client.acks = w.usb.client.acks) :
    (openCommand bytes w { w with usb := s }).Since { w with usb := s } [] [] [] := by
  refine .start ?_
  simp only [openCommand, PicobootWorld.totals, hgiven, hacks]

theorem PicobootClient.Vacant.readCommand (h : K.Vacant) (bytes : List Byte) :
    (K.readCommand bytes).Vacant :=
  h.congr (Picoboot.readCommand_queue _ _ _)

/-- A command that is refused. -/
theorem PicobootPhase.opens_refused (h : PicobootSettled w)
    (hwaits : w.usb.Single .picobootOut .cmd none) (hin : (w.usb.endpoint .picobootIn).Free)
    (hw : PicobootWired w.usb) (hlen : bytes.length ≤ 64)
    (hcmd : ¬(PicobootCmd.ofPacket bytes).Accepted bytes.length) (hdepth : 1 ≤ depth) :
    ∃ s, usbBufferInterrupt (usbCalls picobootDriver depth) .picobootOut bytes w.usb = .ok s ∧
      PicobootPhase env base { w with usb := s } (some (openCommand bytes w { w with usb := s })) := by
  obtain ⟨s, hs, hstalled, hgiven, hclient⟩ := command_refused hwaits hw hin hlen hcmd hdepth
  have hacks : s.client.acks = w.usb.client.acks := by
    rw [hclient]
    rfl
  have hmachine : s.client.machine = w.usb.client.machine := by
    rw [hclient]
    rfl
  have hsince := openCommand_since bytes hgiven hacks
  have hvacant : s.client.Vacant := by
    rw [hclient]
    exact h.vacant.readCommand bytes
  refine ⟨s, hs, .done ⟨.inr (hstalled _), .inr (.inr (hstalled _)), h.worker, hvacant⟩
    ⟨_, _, _, hsince⟩ (.refused hcmd hmachine hsince.tasks_eq
      hsince.replies_eq hsince.acks_eq fun e => ?_) fun hcurrent => ?_⟩
  · change decide ((s.endpoint e).haltState ≠ .none) = true
    rw [(hstalled e).halted]
    rfl
  · exact nomatch (hstalled _).current.symm.trans hcurrent

/-- A command that reboots the device. -/
theorem PicobootPhase.opens_reboot (h : PicobootSettled w)
    (hwaits : w.usb.Single .picobootOut .cmd none) (hin : (w.usb.endpoint .picobootIn).Free)
    (hw : PicobootWired w.usb) (hcmd : (PicobootCmd.ofPacket bytes).Accepted bytes.length)
    (hid : (PicobootCmd.ofPacket bytes).bCmdId = pcReboot) (hdepth : 2 ≤ depth) :
    ∃ s, usbBufferInterrupt (usbCalls picobootDriver depth) .picobootOut bytes w.usb = .ok s ∧
      PicobootPhase env base { w with usb := s } (some (openCommand bytes w { w with usb := s })) := by
  obtain ⟨s, hs, hsingle, honPacket, hrests, hgiven, hclient⟩ :=
    command_rebooted hwaits hw hin hcmd hid hdepth
  have hqueue : s.client.picoboot.queue = w.usb.client.picoboot.queue := by
    rw [hclient]
    exact Picoboot.readCommand_queue _ _ _
  have hbit : (PicobootCmd.ofPacket bytes).ackReplies = [[]] := by
    rw [PicobootCmd.ackReplies, hid]
    rfl
  have hsince : (openCommand bytes w { w with usb := s }).Since { w with usb := s } [] [[]]
      [(w.usb.client.readCommand bytes).generation] := by
    refine ⟨(List.append_nil _).symm, hgiven, ?_⟩
    rw [hclient]
    rfl
  refine ⟨s, hs, .acking ⟨hsingle, honPacket, fun e' he => ?_, h.worker, h.vacant.congr hqueue,
    ⟨_, _, _, hsince⟩, .rebooted hcmd hid ?_ hsince.tasks_eq ?_ ?_, ?_⟩⟩
  · cases e' with
    | picobootIn => exact absurd rfl he
    | picobootOut => exact hrests
  · change s.client.machine = _
    rw [hclient]
    rfl
  · exact hsince.replies_eq.trans hbit.symm
  · rw [hsince.acks_eq]
    rfl
  · rw [hsince.acks_eq]
    rfl

/-- A command that queues its single task. -/
theorem PicobootPhase.opens_task (h : PicobootSettled w)
    (hwaits : w.usb.Single .picobootOut .cmd none) (hin : (w.usb.endpoint .picobootIn).Rests)
    (hw : PicobootWired w.usb) (hcmd : (PicobootCmd.ofPacket bytes).Accepted bytes.length)
    (hid : (PicobootCmd.ofPacket bytes).bCmdId ≠ pcReboot)
    (hlength : (PicobootCmd.ofPacket bytes).dTransferLength = 0) (hdepth : 1 ≤ depth) :
    ∃ s, usbBufferInterrupt (usbCalls picobootDriver depth) .picobootOut bytes w.usb = .ok s ∧
      PicobootPhase env base { w with usb := s } (some (openCommand bytes w { w with usb := s })) := by
  obtain ⟨s, hs, hrests, hpicobootIn, hclient⟩ := command_queued hwaits hw hcmd hid hlength hdepth
  obtain ⟨act, hact, htask⟩ := readCommand_task hcmd hid w.usb.client.picoboot
  have haction := readCommand_of_accepted hcmd w.usb.client.picoboot
  rw [PicobootCmd.action, if_neg hid, if_pos hlength] at haction
  have hlen : bytes.length = sizeofPicobootCmd := hcmd.length
  have hisTask : IsTaskOf (.ofPacket bytes) act (PicobootCmd.ofPacket bytes).dAddr 0
      (w.usb.client.picoboot.readCommand bytes.length (.ofPacket bytes)).1.queueCommandTask.task := by
    rw [hlen] at haction ⊢
    exact (Picoboot.Queues.single haction).isTaskOf hact
  have henabled := (h.vacant.readCommand bytes).enabled
  have hacks : s.client.acks = w.usb.client.acks := by
    rw [hclient]
    rfl
  have hgiven : (s.endpoint .picobootIn).hw.given = (w.usb.endpoint .picobootIn).hw.given := by
    rw [hpicobootIn]
  have hsince := openCommand_since bytes hgiven hacks
  refine ⟨s, hs, .task (t := none) ⟨⟨hcmd, hid, hact, ?_⟩, hlength, hisTask, rfl, ?_, fun e => ?_,
    hsince, ?_, .nil hsince.tasks_eq, .queued h.worker ?_⟩⟩
  · change s.client.machine = _
    rw [hclient]
    rfl
  · change s.client.picoboot.task = _
    rw [hclient]
    rfl
  · cases e with
    | picobootIn =>
      change (s.endpoint .picobootIn).Rests
      rw [hpicobootIn]
      exact hin
    | picobootOut => exact hrests
  · change s.client.status = _
    rw [hclient]
    exact readCommand_status hcmd hid _
  · change s.client.picoboot.queue = _
    rw [hclient]
    exact congrArg (AsyncTaskQueue.mk _ true) henabled

/-- A read or a write starts its stream. -/
theorem PicobootPhase.opens_stream (h : PicobootSettled w)
    (hwaits : w.usb.Single .picobootOut .cmd none) (hin : (w.usb.endpoint .picobootIn).Rests)
    (hw : PicobootWired w.usb) (hcmd : (PicobootCmd.ofPacket bytes).Accepted bytes.length)
    (hid : (PicobootCmd.ofPacket bytes).bCmdId ≠ pcReboot)
    (hlength : (PicobootCmd.ofPacket bytes).dTransferLength ≠ 0)
    (hfits : (PicobootCmd.ofPacket bytes).dTransferLength.toNat + 256 ≤ 2 ^ 32)
    (hdepth : 4 ≤ depth) :
    ∃ s, usbBufferInterrupt (usbCalls picobootDriver depth) .picobootOut bytes w.usb = .ok s ∧
      PicobootPhase env base { w with usb := s } (some (openCommand bytes w { w with usb := s })) := by
  obtain ⟨x, hx⟩ : ∃ x, x = commandStream bytes w.usb.client hlength hfits := ⟨_, rfl⟩
  have hkept (ep : PicobootEndpoint) := commandStream_kept hlength hfits hcmd hid h.vacant ep
  have hnext (ep : PicobootEndpoint) :=
    commandStream_next (K := w.usb.client) hlength hfits hcmd hid ep
  have hfull (ep : PicobootEndpoint) :=
    commandStream_vacant bytes h.vacant ep (PicobootCmd.ofPacket bytes).dTransferLength
  have hof (w' : PicobootWorld) (hmachine : w'.usb.client.machine = w.usb.client.machine) :=
    commandStream_of hlength hfits hcmd hid w' hmachine rfl
  have hcmd' : x.cmd = .ofPacket bytes := by rw [hx]; rfl
  rw [← hx] at hkept hnext hof
  rcases hcmd.data hid hlength with hread | hwrite
  · have hidle : x.ReadIdle [] 0 ((w.usb.client.readCommand bytes).startStream .picobootIn
        (PicobootCmd.ofPacket bytes).dTransferLength) :=
      ⟨hkept _, hfull _, rfl, hnext _, fun hmod => absurd rfl hmod⟩
    obtain ⟨s, hs, hrests, hserve, hmachine⟩ := command_reads hwaits hw hin hcmd hid
      (by rw [hread]; decide) hcmd' hidle hdepth
    obtain ⟨act, hof⟩ := hof { w with usb := s } hmachine
    have htasks : ((openCommand bytes w { w with usb := s }).log { w with usb := s }).tasks = [] :=
      List.drop_length
    have hstream : StreamWorld env (openCommand bytes w { w with usb := s }) x act .picobootIn []
        { w with usb := s } := by
      refine ⟨hof, (List.append_nil _).symm, .nil htasks, fun e he => ?_⟩
      cases e with
      | picobootIn => exact absurd rfl he
      | picobootOut => exact hrests
    obtain ⟨i, hphase⟩ := ReadPhase.of_serving hstream (by rw [hcmd', hread]) hserve h.worker
      (by simp)
    exact ⟨s, hs, .reading hphase⟩
  · have hstart : x.ended 0 = 0 := x.ended_of_lt x.shape.packetCount_pos
    have hidle : x.WriteIdle (x.arrived []) 0 0 ((w.usb.client.readCommand bytes).startStream
        .picobootOut (PicobootCmd.ofPacket bytes).dTransferLength) :=
      ⟨hkept _, hfull _, hstart.symm, by rw [hstart]; exact hnext _, fun _ hmod => absurd rfl hmod⟩
    obtain ⟨s, first, hs, hpicobootIn, hserve, hmachine⟩ := command_writes (x.arrived []) hwaits hw
      hcmd hid hwrite hcmd' hidle (by omega : 2 ≤ depth)
    obtain ⟨act, hof⟩ := hof { w with usb := s } hmachine
    have htasks : ((openCommand bytes w { w with usb := s }).log { w with usb := s }).tasks = [] :=
      List.drop_length
    have hstream : StreamWorld env (openCommand bytes w { w with usb := s }) x act .picobootOut []
        { w with usb := s } := by
      refine ⟨hof, (List.append_nil _).symm, .nil htasks, fun e he => ?_⟩
      cases e with
      | picobootIn =>
        change (s.endpoint .picobootIn).Rests
        rw [hpicobootIn]
        exact hin
      | picobootOut => exact absurd rfl he
    have hgiven : (s.endpoint .picobootIn).hw.given.map (·.packet) =
        (w.usb.endpoint .picobootIn).hw.given.map (·.packet) := by
      rw [hpicobootIn]
    obtain ⟨i, hphase⟩ := WritePhase.of_serving hstream (by rw [hcmd', hwrite])
      (fun k packet hk => nomatch hk) hserve h.worker (by simp) hgiven
    exact ⟨s, hs, .writing hphase⟩

/-- A command opens its entry. -/
theorem PicobootPhase.opens (h : PicobootSettled w) (hwaits : w.usb.Single .picobootOut .cmd none)
    (hw : PicobootWired w.usb) (hnone : (w.usb.endpoint .picobootIn).haltState = .none)
    (hlen : bytes.length ≤ 64)
    (hfits : (PicobootCmd.ofPacket bytes).Accepted bytes.length →
      (PicobootCmd.ofPacket bytes).bCmdId ≠ pcReboot →
        (PicobootCmd.ofPacket bytes).dTransferLength.toNat + 256 ≤ 2 ^ 32) (hdepth : 4 ≤ depth) :
    ∃ s, usbBufferInterrupt (usbCalls picobootDriver depth) .picobootOut bytes w.usb = .ok s ∧
      PicobootPhase env base { w with usb := s } (some (openCommand bytes w { w with usb := s })) := by
  have hin : (w.usb.endpoint .picobootIn).Rests :=
    h.picobootIn.resolve_right fun hstalled => nomatch hstalled.halted.symm.trans hnone
  by_cases hcmd : (PicobootCmd.ofPacket bytes).Accepted bytes.length
  · by_cases hid : (PicobootCmd.ofPacket bytes).bCmdId = pcReboot
    · exact opens_reboot h hwaits hin.toFree hw hcmd hid (by omega)
    · by_cases hlength : (PicobootCmd.ofPacket bytes).dTransferLength = 0
      · exact opens_task h hwaits hin hw hcmd hid hlength (by omega)
      · exact opens_stream h hwaits hin hw hcmd hid hlength (hfits hcmd hid) hdepth
  · exact opens_refused h hwaits hin.toFree hw hlen hcmd (by omega)

end Opens

/-! ## Other events -/

/-- The callback of the task that was executed is called. -/
theorem PicobootPhase.complete (h : PicobootPhase env base w now) (hw : PicobootWired w.usb)
    (hdepth : 3 ≤ depth) :
    ∃ w', completeCommandTask (usbCalls picobootDriver depth) w = .ok w' ∧
      PicobootPhase env base w' now := by
  have hnone (hworker : w.worker = .idle) :
      completeCommandTask (usbCalls picobootDriver depth) w = .ok w := by
    simp [completeCommandTask, hworker]
  cases h with
  | idle h htotals => exact ⟨w, hnone h.worker, .idle h htotals⟩
  | done h hsince hright hwaits => exact ⟨w, hnone h.worker, .done h hsince hright hwaits⟩
  | acking h => exact ⟨w, hnone h.worker, .acking h⟩
  | task h => exact h.complete hw (by omega)
  | writing h => exact h.complete hw hdepth
  | reading h => exact h.complete hw hdepth

/-- `PICOBOOT_IF_RESET`. -/
theorem PicobootPhase.reset (hw : PicobootWired w.usb) (hconfig : w.usb.currentConfigNum ≠ 0)
    (hworker : w.worker = .idle) (hdepth : 1 ≤ depth) :
    GoesOn env w.totals none w (picobootReset (usbCalls picobootDriver depth) w.usb) := by
  obtain ⟨s, hs, hwaits, hin, hclient⟩ := picobootReset_ok hw hconfig hdepth
  refine ⟨s, hs, .idle ⟨.inl hin.quiet.rests, .inl hwaits, hworker, ?_⟩ ?_⟩
  · change s.client.Vacant
    rw [hclient]
    exact ⟨rfl, rfl⟩
  · simp only [PicobootWorld.totals, hin.given, hclient]
    rfl

/-- A stall is cleared. -/
theorem PicobootPhase.clear (h : PicobootPhase env base w now) (hw : PicobootWired w.usb)
    (hconfig : w.usb.currentConfigNum ≠ 0) (hhalt : (w.usb.endpoint e).haltState ≠ .none)
    (hdepth : 1 ≤ depth) :
    GoesOn env w.totals none w (picobootClearFeature (usbCalls picobootDriver depth) e w.usb) := by
  have hsettled := h.settled hhalt
  cases e with
  | picobootIn =>
    have hstalled := hsettled.picobootIn.resolve_left fun hrests => hhalt hrests.notHalted
    have hcleared := inCleared hw true
    have hs := (picobootClearFeature_eq hconfig hstalled).trans
      (usbResetEndpoint_picobootIn (c := usbCalls picobootDriver depth) hw true)
    have hout : (w.usb.modifyEndpoint .picobootIn fun E => E.cleared true).endpoint .picobootOut =
        w.usb.endpoint .picobootOut := UsbState.modifyEndpoint_endpoint_of_ne _ _ _ _ (by decide)
    have hcmd : (w.usb.modifyEndpoint .picobootIn fun E => E.cleared true).transfer .cmd =
        w.usb.transfer .cmd := rfl
    have hclient : (w.usb.modifyEndpoint .picobootIn fun E => E.cleared true).client =
        w.usb.client := rfl
    generalize (w.usb.modifyEndpoint .picobootIn fun E => E.cleared true) = s at *
    refine ⟨s, hs, .idle ⟨.inl hcleared.quiet.rests, ?_, hsettled.worker, ?_⟩ ?_⟩
    · rcases hsettled.picobootOut with hwaits | hother
      · exact .inl (hwaits.congr hout hcmd)
      · exact .inr (hout ▸ hother)
    · exact hsettled.vacant.congr (by rw [hclient])
    · simp only [PicobootWorld.totals, hcleared.given, hclient]
  | picobootOut =>
    have hstalled := (hsettled.picobootOut.resolve_left fun hwaits => hhalt hwaits.notHalted)
      |>.resolve_left fun hrests => hhalt hrests.notHalted
    obtain ⟨s, hs, hawaited⟩ := usbResetEndpoint_picobootOut hw hconfig true hdepth
    refine ⟨s, (picobootClearFeature_eq hconfig hstalled).trans hs,
      .idle ⟨?_, .inl hawaited.waits, hsettled.worker, ?_⟩ ?_⟩
    · change (s.endpoint .picobootIn).Rests ∨ (s.endpoint .picobootIn).Stalled .halted
      rw [hawaited.picobootIn]
      exact hsettled.picobootIn
    · exact hsettled.vacant.congr (by rw [hawaited.client])
    · simp only [PicobootWorld.totals, hawaited.picobootIn, hawaited.client]

/-! ## The log -/

/-- What the entries of a log have. -/
def logTotals (log : List CommandLog) : PicobootTotals :=
  ⟨log.flatMap (·.tasks), log.flatMap (·.replies), log.flatMap (·.acks)⟩

theorem logTotals_append_singleton (log : List CommandLog) (l : CommandLog) :
    logTotals (log ++ [l]) = ⟨(logTotals log).executed ++ l.tasks, (logTotals log).given ++ l.replies,
      (logTotals log).acks ++ l.acks⟩ := by
  simp [logTotals]

/-- The entries that are closed are right, the open one has a phase, and the totals are theirs. -/
structure CommandRun.Logged (env : Env) (r : CommandRun) : Prop where
  past : ∀ l ∈ r.past, l.Right env
  before : ∀ o ∈ r.now, o.before = logTotals r.past
  phase : PicobootPhase env (logTotals r.past) r.world r.now

/-- While `picoboot_out` waits for a command, the last one is acknowledged. -/
theorem PicobootPhase.waits (h : PicobootPhase env base w (some o))
    (hwaits : (w.usb.endpoint .picobootOut).currentTransfer = some .cmd) :
    (o.log w).acks.length = 1 := by
  cases h with
  | done h hsince hright hacked => exact hacked hwaits
  | acking h => exact h.acked
  | task h => exact nomatch (h.rests .picobootOut).current.symm.trans hwaits
  | writing h =>
    obtain ⟨first, hserve⟩ := h.serving
    obtain ⟨_, _, _, hl⟩ := hserve.line
    exact nomatch hl.current.symm.trans hwaits
  | reading h => exact nomatch h.rests.current.symm.trans hwaits

namespace CommandRun

variable {r : CommandRun}

theorem log_none (h : r.now = none) : r.log = r.past := by
  rw [log, h]
  exact List.append_nil _

theorem log_some (h : r.now = some o) : r.log = r.past ++ [o.log r.world] := by
  rw [log, h]
  rfl

namespace Logged

theorem right (h : r.Logged env) : ∀ l ∈ r.log, l.Right env := by
  intro l hl
  have hphase := h.phase
  cases hnow : r.now with
  | none =>
    rw [log_none hnow] at hl
    exact h.past l hl
  | some o =>
    rw [log_some hnow] at hl
    rw [hnow] at hphase
    rcases List.mem_append.1 hl with hpast | hlast
    · exact h.past l hpast
    · rw [List.mem_singleton.1 hlast]
      exact hphase.right

theorem totals (h : r.Logged env) : r.world.totals = logTotals r.log := by
  have hphase := h.phase
  cases hnow : r.now with
  | none =>
    rw [hnow] at hphase
    rw [log_none hnow]
    cases hphase with
    | idle _ htotals => exact htotals
  | some o =>
    rw [hnow] at hphase
    rw [log_some hnow, logTotals_append_singleton, hphase.totals, h.before o hnow]

/-- A conversation is what the log of it says. -/
theorem conversation (h : r.Logged env) : r.Conversation env where
  right := h.right
  executed := congrArg (·.executed) h.totals
  given := congrArg (·.given) h.totals
  acks := congrArg (·.acks) h.totals
  waits hwaits o ho := by
    have hphase := h.phase
    rw [Option.mem_def.1 ho] at hphase
    exact hphase.waits hwaits

/-- The command goes on. -/
theorem goesOn (h : r.Logged env) (hphase : PicobootPhase env (logTotals r.past) w r.now) :
    Logged env { r with world := w } :=
  ⟨h.past, h.before, hphase⟩

/-- The entry of a write gets another packet. -/
theorem adds (h : r.Logged env) (hnow : r.now = some o) {bytes : List Byte}
    (hphase : PicobootPhase env (logTotals r.past) w (some (o.add bytes))) :
    Logged env { r with
      world := w, now := r.now.map fun o => { o with data := o.data ++ [bytes] } } := by
  rw [hnow]
  refine ⟨h.past, fun o' ho' => ?_, hphase⟩
  obtain rfl := Option.some.inj ho'
  exact h.before o hnow

/-- The log is closed. -/
theorem closes (h : r.Logged env) (hphase : PicobootPhase env r.world.totals w none) :
    Logged env ⟨w, r.log, none⟩ :=
  ⟨h.right, fun _ ho => (nomatch ho), h.totals ▸ hphase⟩

/-- A command opens its entry. -/
theorem opens (h : r.Logged env) {bytes : List Byte}
    (hphase : PicobootPhase env (logTotals r.log) w (some (openCommand bytes r.world w))) :
    Logged env ⟨w, r.log, some (openCommand bytes r.world w)⟩ := by
  refine ⟨h.right, fun o ho => ?_, hphase⟩
  obtain rfl := Option.some.inj ho
  exact h.totals

end Logged

/-! ## Packets for `picoboot_out` -/

theorem observe_nil {bytes : List Byte}
    (h : (r.world.usb.endpoint .picobootOut).hw.available = []) :
    r.observe w (.buffer .picobootOut bytes) = { r with world := w } :=
  if_pos h

theorem observe_eq {bytes : List Byte}
    (h : (r.world.usb.endpoint .picobootOut).hw.available ≠ []) :
    r.observe w (.buffer .picobootOut bytes) =
      match (r.world.usb.endpoint .picobootOut).currentTransfer with
      | some .cmd => ⟨w, r.log, some (openCommand bytes r.world w)⟩
      | some .stream =>
        { r with world := w, now := r.now.map fun o => { o with data := o.data ++ [bytes] } }
      | _ => { r with world := w } :=
  if_neg h

/-- A packet for `picoboot_out`, when nothing goes on. -/
theorem Logged.buffer_settled (h : r.Logged env) (hs : PicobootSettled r.world)
    (hw : PicobootWired r.world.usb) {bytes : List Byte}
    (hevent : PicobootEvent.Orderly r (.buffer .picobootOut bytes))
    (havail : (r.world.usb.endpoint .picobootOut).hw.available ≠ []) (hdepth : 4 ≤ depth) :
    ∃ s, usbBufferInterrupt (usbCalls picobootDriver depth) .picobootOut bytes r.world.usb = .ok s ∧
      Logged env (r.observe { r.world with usb := s } (.buffer .picobootOut bytes)) := by
  rcases hs.picobootOut with hwaits | hrests | hstalled
  · have hcurrent := hwaits.current
    obtain ⟨hlen, hcmd, -⟩ := hevent
    obtain ⟨hnone, hfits⟩ := hcmd hcurrent
    have hopens : ∃ s, usbBufferInterrupt (usbCalls picobootDriver depth) .picobootOut bytes
        r.world.usb = .ok s ∧ PicobootPhase env (logTotals r.log) { r.world with usb := s }
          (some (openCommand bytes r.world { r.world with usb := s })) :=
      PicobootPhase.opens hs hwaits hw hnone hlen hfits hdepth
    obtain ⟨s, hr, hphase⟩ := hopens
    refine ⟨s, hr, ?_⟩
    rw [observe_eq havail, hcurrent]
    exact h.opens hphase
  · exact absurd hrests.available havail
  · obtain ⟨s, hr, hphase⟩ :=
      GoesOn.of_stalled h.phase hw hstalled bytes (usbCalls picobootDriver depth)
    refine ⟨s, hr, ?_⟩
    rw [observe_eq havail, hstalled.current]
    exact h.goesOn hphase

/-- A packet for `picoboot_out`. -/
theorem Logged.buffer_out (h : r.Logged env) (hw : PicobootWired r.world.usb) {bytes : List Byte}
    (hevent : PicobootEvent.Orderly r (.buffer .picobootOut bytes)) (hdepth : 4 ≤ depth) :
    ∃ s, usbBufferInterrupt (usbCalls picobootDriver depth) .picobootOut bytes r.world.usb = .ok s ∧
      Logged env (r.observe { r.world with usb := s } (.buffer .picobootOut bytes)) := by
  by_cases havail : (r.world.usb.endpoint .picobootOut).hw.available = []
  · obtain ⟨s, hr, hphase⟩ :=
      GoesOn.of_nil h.phase havail bytes (usbCalls picobootDriver depth)
    refine ⟨s, hr, ?_⟩
    rw [observe_nil havail]
    exact h.goesOn hphase
  · have hphase := h.phase
    generalize hnow : r.now = now at hphase
    cases hphase with
    | idle hs htotals => exact h.buffer_settled hs hw hevent havail hdepth
    | done hs hsince hright hwaits => exact h.buffer_settled hs hw hevent havail hdepth
    | @acking o e hack =>
      cases e with
      | picobootIn => exact absurd (hack.rests .picobootOut (by decide)).available havail
      | picobootOut =>
        have hgoes : GoesOn env (logTotals r.past) (some o) r.world (usbBufferInterrupt
            (usbCalls picobootDriver depth) .picobootOut bytes r.world.usb) :=
          hack.buffer hw .picobootOut bytes (by omega)
        obtain ⟨s, hr, hphase⟩ := hgoes
        refine ⟨s, hr, ?_⟩
        rw [observe_eq havail, hack.single.current]
        exact h.goesOn (hnow ▸ hphase)
    | task htask => exact absurd (htask.rests .picobootOut).available havail
    | @writing o x act i tasks hwrite =>
      obtain ⟨first, hserve⟩ := hwrite.serving
      obtain ⟨_, _, _, hl⟩ := hserve.line
      have hcurrent : (r.world.usb.endpoint .picobootOut).currentTransfer = some .stream := hl.current
      have hbytes : bytes.length = x.shape.packetLength o.data.length := by
        rw [hevent.2.2 hcurrent o hnow, StreamShape.packetLength]
        rw [← hwrite.of.cmd]
        rfl
      have hgoes : GoesOn env (logTotals r.past) (some (o.add bytes)) r.world (usbBufferInterrupt
          (usbCalls picobootDriver depth) .picobootOut bytes r.world.usb) :=
        hwrite.buffer hw havail hbytes (by omega)
      obtain ⟨s, hr, hphase⟩ := hgoes
      refine ⟨s, hr, ?_⟩
      rw [observe_eq havail, hcurrent]
      exact h.adds hnow hphase
    | reading hread => exact absurd hread.rests.available havail

end CommandRun

/-! ## Runs -/

/-- The wiring and the configuration are kept by every event but `SET_CONFIGURATION`. -/
theorem picobootStep_stays {event : PicobootEvent} (hevent : ∀ num, event ≠ .setConfiguration num)
    (h : picobootStep env depth w event = .ok w') : PicobootWired.Stays w'.usb w.usb := by
  have hc := picobootStays.calls_frames depth
  cases event with
  | buffer e packet =>
    obtain ⟨s, hs, h⟩ := UsbResult.bind_eq_ok h
    cases h
    exact picobootStays.bufferInterrupt hc hs
  | ifReset =>
    obtain ⟨s, hs, h⟩ := UsbResult.bind_eq_ok h
    cases h
    split at hs
    · exact picobootStays.reset hc hs
    · cases hs
      exact picobootStays.refl _
  | clearFeature e =>
    obtain ⟨s, hs, h⟩ := UsbResult.bind_eq_ok h
    cases h
    exact picobootStays.clear hc hs
  | setConfiguration num => exact absurd rfl (hevent num)
  | take =>
    cases h
    unfold takeCommandTask
    split
    · split
      · dsimp only
        exact picobootStays.client _ _
      · exact picobootStays.refl _
    · exact picobootStays.refl _
  | run =>
    cases h
    unfold runCommandTask
    split
    · dsimp only
      exact picobootStays.client _ _
    · exact picobootStays.refl _
  | complete =>
    change completeCommandTask _ w = .ok w' at h
    unfold completeCommandTask at h
    split at h
    · obtain ⟨s, hs, h⟩ := UsbResult.bind_eq_ok h
      cases h
      exact picobootStays.taskDone hc hs
    · cases h
      exact picobootStays.refl _
  | machine m =>
    cases h
    dsimp only
    exact picobootStays.client _ _

/-- Between two events of a conversation. -/
structure CommandRun.InConversation (env : Env) (r : CommandRun) : Prop extends r.Logged env where
  wired : PicobootWired r.world.usb
  config : r.world.usb.currentConfigNum ≠ 0

namespace CommandRun.InConversation

variable {r : CommandRun}

/-- A step of a conversation, with what the log says of it. -/
theorem logged (h : r.InConversation env) {event : PicobootEvent} (hevent : event.Orderly r)
    (hdepth : 4 ≤ depth) :
    ∃ w, picobootStep env depth r.world event = .ok w ∧ (r.observe w event).Logged env := by
  have hdone (s : PicobootState) (res : UsbResult PicobootState) (hres : res = .ok s) :
      (do
        let usb ← res
        .ok { r.world with usb := usb } : UsbResult PicobootWorld) =
          .ok { r.world with usb := s } := by
    rw [hres]
    rfl
  cases event with
  | buffer e packet =>
    cases e with
    | picobootIn =>
      obtain ⟨s, hs, hphase⟩ := h.phase.buffer_in h.wired packet (by omega : 2 ≤ depth)
      exact ⟨_, hdone s _ hs, h.goesOn hphase⟩
    | picobootOut =>
      obtain ⟨s, hs, hlogged⟩ := h.buffer_out h.wired hevent hdepth
      exact ⟨_, hdone s _ hs, hlogged⟩
  | ifReset =>
    have hgoes : GoesOn env r.world.totals none r.world
        (picobootReset (usbCalls picobootDriver depth) r.world.usb) :=
      PicobootPhase.reset h.wired h.config hevent (by omega)
    obtain ⟨s, hs, hphase⟩ := hgoes
    exact ⟨_, hdone s _ ((if_pos h.config).trans hs), h.closes hphase⟩
  | clearFeature e =>
    obtain ⟨s, hs, hphase⟩ := h.phase.clear h.wired h.config hevent (by omega : 1 ≤ depth)
    exact ⟨_, hdone s _ hs, h.closes hphase⟩
  | setConfiguration num => exact hevent.elim
  | take => exact ⟨_, rfl, h.goesOn h.phase.take⟩
  | run => exact ⟨_, rfl, h.goesOn h.phase.run⟩
  | complete =>
    obtain ⟨w, hw, hphase⟩ := h.phase.complete h.wired (by omega : 3 ≤ depth)
    exact ⟨w, hw, h.goesOn hphase⟩
  | machine m => exact ⟨_, rfl, h.goesOn (h.phase.setMachine hevent)⟩

/-- A step of a conversation. -/
theorem step (h : r.InConversation env) {event : PicobootEvent} (hevent : event.Orderly r)
    (hdepth : 4 ≤ depth) :
    ∃ r', commandStep env depth r event = .ok r' ∧ r'.InConversation env := by
  obtain ⟨w, hw, hlogged⟩ := h.logged hevent hdepth
  have hstays : PicobootWired.Stays w.usb r.world.usb := by
    refine picobootStep_stays (fun num heq => ?_) hw
    subst heq
    exact hevent
  have hworld : (r.observe w event).world = w := by
    unfold observe
    split
    · split
      · rfl
      · split <;> rfl
    all_goals rfl
  refine ⟨r.observe w event, ?_, hlogged, ?_, ?_⟩
  · rw [commandStep, hw]
    rfl
  · rw [hworld]
    exact hstays.wired h.wired
  · rw [hworld, hstays.config]
    exact h.config

/-- A run of a conversation. -/
theorem run (h : r.InConversation env) {es : List PicobootEvent}
    (hes : Run.Always (Run.attempt (commandStep env depth))
      (Run.Holds fun r event => event.Orderly r) (.ok r) es) (hdepth : 4 ≤ depth) :
    ∃ r', Run.after (Run.attempt (commandStep env depth)) (.ok r) es = .ok r' ∧
      r'.InConversation env :=
  Run.Always.invariant (I := fun res => ∃ r', res = .ok r' ∧ r'.InConversation env)
    (fun res event hevent hres => by
      obtain ⟨r', rfl, hr'⟩ := hres
      exact hr'.step (hevent r' rfl) hdepth) hes ⟨r, rfl, h⟩

end CommandRun.InConversation

/-- PICOBOOT before its first command. -/
structure PicobootWorld.Unspoken (w : PicobootWorld) : Prop where
  wired : PicobootWired w.usb
  config : w.usb.currentConfigNum ≠ 0
  picobootIn : (w.usb.endpoint .picobootIn).Quiet
  picobootOut : w.usb.Single .picobootOut .cmd none
  worker : w.worker = .idle
  vacant : w.usb.client.Vacant
  totals : w.totals = ⟨[], [], []⟩

/-- Every run of a host that sends commands, with the worker at any pace, is a conversation : each
task that succeeds has performed the action of its command, but for `PC_ENTER_CMD_XIP` and for reads
and writes of no bytes at a page of flash. A command has at most `2 ^ 32 - 256` bytes of data. -/
theorem picoboot_conversation (env : Env) {w : PicobootWorld} (hw : w.Unspoken)
    {es : List PicobootEvent}
    (hes : Run.Always (Run.attempt (commandStep env depth))
      (Run.Holds fun r event => event.Orderly r) (.ok { world := w }) es) (hdepth : 4 ≤ depth) :
    ∃ r, Run.after (Run.attempt (commandStep env depth)) (.ok { world := w }) es = .ok r ∧
      r.Conversation env := by
  have hstart : CommandRun.InConversation env { world := w } := by
    refine ⟨⟨fun _ hl => (nomatch hl), fun _ ho => (nomatch ho), .idle ?_ hw.totals⟩, hw.wired,
      hw.config⟩
    exact ⟨.inl hw.picobootIn.rests, .inl hw.picobootOut, hw.worker, hw.vacant⟩
  obtain ⟨r, hr, h⟩ := hstart.run hes hdepth
  exact ⟨r, hr, h.conversation⟩

/-- PICOBOOT after its configuration : `picoboot_out` waits for a command. -/
def picobootAwaiting : PicobootWorld where
  usb := picobootConfigured.resetCommand.armed .picobootOut .cmd

theorem picobootAwaiting_unspoken : picobootAwaiting.Unspoken := by
  have hwired : PicobootWired picobootConfigured := ⟨fun e => by cases e <;> rfl,
    fun e => by cases e <;> rfl, fun e => by cases e <;> rfl, fun e => by cases e <;> rfl, rfl⟩
  have hfree : (picobootConfigured.endpoint .picobootOut).Free := ⟨rfl, rfl, rfl, rfl⟩
  have hstart : usbStartDefaultTransfer (usbCalls picobootDriver 1) .picobootOut picobootConfigured =
      .ok picobootAwaiting.usb := rfl
  obtain ⟨s, hs, hawaited⟩ := usbStartDefaultTransfer_command hwired hfree (Nat.le_refl 1)
  rw [hstart] at hs
  obtain rfl := Except.ok.inj hs
  have hstays := picobootStays.startDefaultTransfer (picobootStays.calls_frames 1) hstart
  have hin := hawaited.picobootIn
  have hclient := hawaited.client
  refine ⟨hstays.wired hwired, ?_, ?_, hawaited.waits, rfl, ?_, ?_⟩
  · rw [hstays.config]
    decide
  · rw [hin]
    exact ⟨⟨rfl, rfl, rfl, rfl⟩, fun h => by cases h⟩
  · rw [hclient]
    exact ⟨rfl, rfl⟩
  · rw [PicobootWorld.totals, hin, hclient]
    rfl

/-- A `PC_READ` of four bytes of SRAM, of which the host takes the packet. -/
theorem picoboot_conversation_read :
    ∃ r, Run.after (Run.attempt (commandStep bareEnv 4)) (.ok { world := picobootAwaiting })
        [.buffer .picobootOut (commandPacket 0x84 8 4), .take, .run, .complete,
          .buffer .picobootIn []] = .ok r ∧
      r.Conversation bareEnv := by
  refine picoboot_conversation bareEnv picobootAwaiting_unspoken
    ⟨fun r hr => ?_, fun _ _ => trivial, fun _ _ => trivial, fun _ _ => trivial,
      fun _ _ => trivial, trivial⟩ (Nat.le_refl 4)
  obtain rfl := Except.ok.inj hr
  refine ⟨by decide, fun _ => ⟨?_, fun _ _ => by decide⟩, fun _ _ ho => (nomatch ho)⟩
  exact picobootAwaiting_unspoken.picobootIn.notHalted

end Events

end PicoBootrom
