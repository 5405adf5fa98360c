import PicoBootrom.MscDataPhase
import PicoBootrom.MscTasks
import PicoBootrom.MscWiring

/-!
# The packet of a command

The interrupt for a packet on `msc_out` while it waits for a command. An accepted command is in one
of the states of `CommandPhase` afterwards (`bufferInterrupt_accepted`) ; for any other packet both
endpoints are halted until a reset (`bufferInterrupt_rejected`). `_tf_wait_command` makes `msc_out`
wait for the next command.
-/

set_option linter.unusedSectionVars false

namespace PicoBootrom

/-! ## Waiting for a command -/

section Await

variable {vdReadBlock : Word → ℕ → Byte} {depth : ℕ} {s s' : MscState}

/-- The transfer for the next command was started. -/
def UsbState.awaitCommand (s : MscState) : MscState :=
  (s.modifyTransfer .cmd fun T => .reset T.type none).armed .mscOut .cmd

theorem usbStartDefaultTransfer_cmd (hw : MscWired s) (hdepth : 1 ≤ depth) :
    usbStartDefaultTransfer (usbCalls (mscDriver vdReadBlock) depth) .mscOut s =
      .ok s.awaitCommand := by
  unfold usbStartDefaultTransfer
  rw [hw.defaultTransfer]
  refine usbStartTransfer_single_out (by simpa using hw.isIn .mscOut) ?_ hdepth
  rw [UsbState.modifyTransfer_transfer_self, UsbTransfer.reset_remainingPacketsToSubmit, hw.cmdType]
  rfl

@[simp] theorem awaitCommand_client : s.awaitCommand.client = s.client := by
  simp [UsbState.awaitCommand]

theorem awaitCommand_mscIn : s.awaitCommand.endpoint .mscIn = s.endpoint .mscIn := by
  rw [UsbState.awaitCommand, UsbState.armed_endpoint_of_ne (by decide)]
  rfl

theorem awaitCommand_transfer_of_ne {t : MscTransfer} (h : t ≠ .cmd) :
    s.awaitCommand.transfer t = s.transfer t := by
  rw [UsbState.awaitCommand, UsbState.armed_transfer_of_ne h,
    UsbState.modifyTransfer_transfer_of_ne _ _ _ _ h]

theorem awaitCommand_armed (hw : MscWired s) (hout : (s.endpoint .mscOut).Free) :
    MscArmed s.awaitCommand := by
  have hcan : UsbState.canGive (UsbState.started (s.modifyTransfer .cmd fun T =>
      .reset T.type none) .mscOut .cmd) .mscOut = true := by
    simp [UsbState.canGive, hout.owned, hout.notHalted, hw.cmdType]
  have hE : s.awaitCommand.endpoint .mscOut =
      (((s.endpoint .mscOut).setTransfer (some .cmd)).setChain none).giveBuffer
        ((s.endpoint .mscOut).bufferSize.setWidth 32) := by
    have hin : (s.endpoint .mscOut).isIn = false := hw.isIn .mscOut
    rw [UsbState.awaitCommand, UsbState.armed_endpoint]
    dsimp only
    rw [if_pos hcan]
    simp [UsbEndpoint.giveLength, hin]
  have hT : s.awaitCommand.transfer .cmd = UsbTransfer.submitOne (UsbTransfer.start
      (.reset ⟨.driver .cmdPacket, 1⟩ none)) := by
    rw [UsbState.awaitCommand, UsbState.armed_transfer, if_pos hcan,
      UsbState.modifyTransfer_transfer_self, hw.cmdType]
  exact
    { current := by rw [hE]; rfl
      notHalted := by rw [hE]; rfl
      submit := by rw [hT]; rfl
      handle := by rw [hT]; rfl
      outstanding := by rw [hT]; rfl
      queued := by rw [hT]; rfl
      notCompleted := by rw [hT]; rfl
      onComplete := by rw [hT]; rfl
      chain := by rw [hE]; rfl
      owned := by rw [hE]; simp [hout.owned]
      available := ⟨_, by rw [hE]; simp [hout.available]; rfl⟩
      valid := by rw [hE]; rfl }

theorem MscArmed.congr (h : MscArmed s)
    (hE : s'.endpoint .mscOut = s.endpoint .mscOut) (hT : s'.transfer .cmd = s.transfer .cmd) :
    MscArmed s' :=
  { current := by rw [hE]; exact h.current
    notHalted := by rw [hE]; exact h.notHalted
    submit := by rw [hT]; exact h.submit
    handle := by rw [hT]; exact h.handle
    outstanding := by rw [hT]; exact h.outstanding
    queued := by rw [hT]; exact h.queued
    notCompleted := by rw [hT]; exact h.notCompleted
    onComplete := by rw [hT]; exact h.onComplete
    chain := by rw [hE]; exact h.chain
    owned := by rw [hE]; exact h.owned
    available := by rw [hE]; exact h.available
    valid := by rw [hE]; exact h.valid }

/-- `_tf_wait_command`, on an endpoint that is free. -/
theorem tfWaitCommand_free (hw : MscWired s) (hout : (s.endpoint .mscOut).Free)
    (hdepth : 1 ≤ depth) :
    tfWaitCommand (usbCalls (mscDriver vdReadBlock) depth) s = .ok s.awaitCommand := by
  unfold tfWaitCommand usbStartDefaultTransferIfNotAlreadyRunningOrHalted
  rw [if_pos, usbStartDefaultTransfer_cmd hw hdepth]
  rw [hw.defaultTransfer, hout.current]
  exact ⟨hout.notHalted, by decide⟩

/-- `_tf_wait_command`, on an endpoint that waits already or is halted. -/
theorem tfWaitCommand_skip {c : MscCalls} (hw : MscWired s)
    (hout : (s.endpoint .mscOut).currentTransfer = some .cmd ∨
      (s.endpoint .mscOut).haltState ≠ .none) : tfWaitCommand c s = .ok s := by
  unfold tfWaitCommand usbStartDefaultTransferIfNotAlreadyRunningOrHalted
  rw [if_neg]
  rintro ⟨hhalt, hcurrent⟩
  rw [hw.defaultTransfer] at hcurrent
  rcases hout with hout | hout
  · exact hcurrent hout
  · exact hout hhalt

end Await

/-! ## States that do not depend on `msc_out` -/

/-- Only `msc_out` and its command transfer differ. -/
structure UsbState.SameIn (s' s : MscState) : Prop where
  endpoint : s'.endpoint .mscIn = s.endpoint .mscIn
  transfer : ∀ t, t ≠ .cmd → s'.transfer t = s.transfer t
  client : s'.client = s.client

section SameIn

variable {vdReadBlock : Word → ℕ → Byte} {full clean : Prop} {cbw : ScsiCbw} {K₀ : MscClient}
  {s s' : MscState} {f : MscFunction} {packet : List Byte} {left : ℕ}
  {dir : ScsiDirection}

theorem UsbState.SameIn.trans {s'' : MscState} (h' : s''.SameIn s') (h : s'.SameIn s) :
    s''.SameIn s :=
  ⟨h'.endpoint.trans h.endpoint, fun t ht => (h'.transfer t ht).trans (h.transfer t ht),
    h'.client.trans h.client⟩

theorem awaitCommand_sameIn : s.awaitCommand.SameIn s :=
  ⟨awaitCommand_mscIn, fun _ ht => awaitCommand_transfer_of_ne ht, awaitCommand_client⟩

theorem UsbState.SameIn.modifyOut (f : UsbEndpoint MscTransfer MscFunction →
    UsbEndpoint MscTransfer MscFunction) : (s.modifyEndpoint .mscOut f).SameIn s :=
  ⟨UsbState.modifyEndpoint_endpoint_of_ne _ _ _ _ (by decide), fun _ _ => rfl, rfl⟩

theorem UsbState.SameIn.modifyCmd (f : UsbTransfer MscFunction → UsbTransfer MscFunction) :
    (s.modifyTransfer .cmd f).SameIn s :=
  ⟨rfl, fun _ ht => UsbState.modifyTransfer_transfer_of_ne _ _ _ _ ht, rfl⟩

theorem MscResponds.congr (h : MscResponds f packet s)
    (hE : s'.endpoint .mscIn = s.endpoint .mscIn)
    (hT : s'.transfer .cmdResponse = s.transfer .cmdResponse) : MscResponds f packet s' where
  current := by rw [hE]; exact h.current
  notHalted := by rw [hE]; exact h.notHalted
  submit := by rw [hT]; exact h.submit
  handle := by rw [hT]; exact h.handle
  outstanding := by rw [hT]; exact h.outstanding
  queued := by rw [hT]; exact h.queued
  notCompleted := by rw [hT]; exact h.notCompleted
  onComplete := by rw [hT]; exact h.onComplete
  owned := by rw [hE]; exact h.owned
  available := by rw [hE]; exact h.available
  valid := by rw [hE]; exact h.valid

theorem Reading.congr {x : SectorStream} {base : List (List Byte)} {k : ℕ}
    (h : Reading vdReadBlock cbw K₀ x base k s) (hs : s'.SameIn s) :
    Reading vdReadBlock cbw K₀ x base k s' := by
  refine ⟨h.origin, ?_, by rw [hs.client, h.transferred]⟩
  rw [hs.endpoint, hs.transfer _ (by decide), hs.client]
  exact h.serving

theorem Responding.congr (h : Responding full clean cbw K₀ packet s) (hs : s'.SameIn s) :
    Responding full clean cbw K₀ packet s' := by
  have hT : s'.transfer .cmdResponse = s.transfer .cmdResponse := hs.transfer _ (by decide)
  refine ⟨h.responds.congr hs.endpoint hT, ?_, ?_, ?_⟩
  · rw [hs.client]
    exact h.underway
  · rw [hs.client]
    exact h.noteOk
  · rw [hs.client]
    exact h.stall

theorem Ended.congr (h : Ended full clean cbw K₀ dir s) (hs : s'.SameIn s) :
    Ended full clean cbw K₀ dir s' := by
  have hT : s'.transfer .cmdResponse = s.transfer .cmdResponse := hs.transfer _ (by decide)
  cases h with
  | stalled hin hsend hunderway hnote =>
    refine .stalled ?_ ?_ ?_ ?_
    · rw [hs.endpoint]
      exact hin
    all_goals rw [hs.client]; assumption
  | answered hdir hin haccepted hcsws htasks htransferred hnote =>
    refine .answered hdir (hin.congr hs.endpoint hT) ?_ ?_ ?_ ?_ hnote <;> rw [hs.client] <;>
      assumption

end SameIn

/-! ## The states of a command -/

section Phase

variable (vdReadBlock : Word → ℕ → Byte) (full clean : Prop) (cbw : ScsiCbw) (K₀ : MscClient)

/-- The sectors of a stream come from the host, after `k` packets, of which the first `d` are done
with. -/
structure Writing (x : SectorStream) (packet : ℕ → List Byte) (k d : ℕ) (s : MscState) :
    Prop where
  origin : x.Origin cbw K₀
  quiet : (s.endpoint .mscIn).Quiet
  serving : OutServing (x.setup false) packet (fun j K => x.OutIdle packet j K ∧ d ≤ j)
    (fun j K => x.OutBusy packet j K ∧ d ≤ j) k (s.endpoint .mscOut) (s.transfer .sector) s.client
  length_le : ∀ i, (packet i).length ≤ 64
  whole : full → ∀ i < k, (packet i).length = 64
  transferred : s.client.transferred = receivedBytes packet k

/-- The data phase is over, and `msc_out` was stalled or not. -/
structure DataEnded (dir : ScsiDirection) (s : MscState) : Prop where
  ended : Ended full clean cbw K₀ dir s
  plan : clean → dir = cbw.plan.stall
  mscOut : if dir = .dirOut then (s.endpoint .mscOut).Stalled .halted
    else (s.endpoint .mscOut).Free

/-- A command between its acceptance and the end of its data phase, with a bound on the number of
buffers and tasks that are still to come back. -/
inductive CommandPhase : ℕ → MscState → Prop
  | reading {s : MscState} {x : SectorStream} {before : List (List Byte)} {k : ℕ}
      (h : Reading vdReadBlock cbw K₀ x before k s) (hout : (s.endpoint .mscOut).Free) :
      CommandPhase (x.packets - k) s
  | responding {s : MscState} {packet : List Byte} (h : Responding full clean cbw K₀ packet s)
      (hout : (s.endpoint .mscOut).Free) : CommandPhase 1 s
  | writing {s : MscState} {x : SectorStream} {packet : ℕ → List Byte} {k d : ℕ}
      (h : Writing full cbw K₀ x packet k d s) : CommandPhase (2 * x.packets - k - d) s
  | ended {s : MscState} {dir : ScsiDirection} (h : DataEnded full clean cbw K₀ dir s) :
      CommandPhase 0 s

/-- A command at the end of its transfer. `before` has the packets that `msc_in` was given before
it. -/
inductive CommandStart (before : List (List Byte)) : MscState → Prop
  | reading {s : MscState} {x : SectorStream} (h : Reading vdReadBlock cbw K₀ x before 0 s)
      (hdata : cbw.cmd.data = .sectors .dirIn) (hout : (s.endpoint .mscOut).Free) :
      CommandStart before s
  | responding {s : MscState} {packet : List Byte} (h : Responding full clean cbw K₀ packet s)
      {len : ℕ} (hdata : cbw.cmd.data = .response len) (hout : (s.endpoint .mscOut).Free) :
      CommandStart before s
  | writing {s : MscState} {x : SectorStream} (h : Writing full cbw K₀ x (fun _ => []) 0 0 s)
      (hdata : cbw.cmd.data = .sectors .dirOut) : CommandStart before s
  | ended {s : MscState} (h : DataEnded full clean cbw K₀ cbw.plan.stall s)
      (hmoved : cbw.plan.moved = 0) : CommandStart before s

variable {vdReadBlock full clean cbw K₀}

theorem CommandStart.phase {before : List (List Byte)} {s : MscState}
    (h : CommandStart vdReadBlock full clean cbw K₀ before s) :
    ∃ left, CommandPhase vdReadBlock full clean cbw K₀ left s := by
  cases h with
  | reading h hdata hout => exact ⟨_, .reading h hout⟩
  | responding h hdata hout => exact ⟨_, .responding h hout⟩
  | writing h hdata => exact ⟨_, .writing h⟩
  | ended h hmoved => exact ⟨_, .ended h⟩

end Phase

/-! ## The end of the command transfer -/

section Accept

variable {vdReadBlock : Word → ℕ → Byte} {full clean : Prop} {cbw : ScsiCbw} {K₀ : MscClient}
  {s s' : MscState} {packet : List Byte} {depth : ℕ}

/-- `msc_out` while its packet is handled as a command. -/
structure UsbEndpoint.TakesCommand (E : UsbEndpoint MscTransfer MscFunction) : Prop where
  current : E.currentTransfer = some .cmd
  notHalted : E.haltState = .none
  chain : E.chainTransfer = none
  owned : E.ownedBufferCount = 2
  available : E.hw.available = []

/-- The state in which the command transfer ends. -/
def UsbState.commandDone (s : MscState) : MscState :=
  ((s.modifyEndpoint .mscOut UsbEndpoint.dropBuffer).modifyTransfer .cmd
    fun T => (T.setOutstanding false).handleOne).completeTransfer .mscOut .cmd

theorem commandDone_sameIn : s.commandDone.SameIn s := by
  unfold UsbState.commandDone UsbState.completeTransfer
  exact (UsbState.SameIn.modifyOut _).trans ((UsbState.SameIn.modifyCmd _).trans
    ((UsbState.SameIn.modifyCmd _).trans (.modifyOut _)))

theorem commandDone_mscOut :
    s.commandDone.endpoint .mscOut = (s.endpoint .mscOut).dropBuffer.setTransfer none := by
  simp [UsbState.commandDone, UsbState.completeTransfer]

theorem commandDone_sameWiring : s.commandDone.SameWiring s :=
  (mscFrame.completeTransfer).trans ((UsbState.SameWiring.modifyTransfer fun _ => rfl).trans
    (.modifyEndpoint ⟨⟨rfl, rfl, rfl, rfl⟩, id⟩))

theorem UsbEndpoint.TakesCommand.free {E : UsbEndpoint MscTransfer MscFunction}
    (h : E.TakesCommand) : (E.dropBuffer.setTransfer none).Free :=
  ⟨rfl, h.notHalted, h.owned, h.available⟩

/-- What `_usb_handle_transfer` goes on with, after the packet of a command. -/
def commandEnd (c : MscCalls) (s : MscState) : UsbResult MscState :=
  if (s.endpoint .mscOut).haltState = .none then
    ((s.modifyEndpoint .mscOut UsbEndpoint.dropBuffer).modifyTransfer .cmd
      fun T => (T.setOutstanding false).handleOne).finish c .mscOut .cmd
  else .ok (((s.modifyTransfer .cmd fun T => T.setOutstanding false).completeTransfer
    .mscOut .cmd).modifyTransfer .cmd UsbTransfer.dropPackets)

theorem commandEnd_of_chain {c : MscCalls} (hhalt : (s.endpoint .mscOut).haltState = .none)
    (hcomplete : (s.transfer .cmd).onComplete = none) :
    commandEnd c s = match (s.endpoint .mscOut).chainTransfer with
      | some next => usbStartTransfer c .mscOut next s.commandDone
      | none => .ok s.commandDone := by
  rw [commandEnd, if_pos hhalt, UsbState.finish]
  simp only [UsbState.modifyTransfer_transfer_self, UsbTransfer.handleOne_onComplete,
    UsbTransfer.setOutstanding_onComplete, UsbState.modifyEndpoint_transfer, hcomplete,
    UsbState.modifyTransfer_endpoint, UsbState.modifyEndpoint_endpoint_self,
    UsbEndpoint.dropBuffer_chainTransfer]
  cases (s.endpoint .mscOut).chainTransfer <;> rfl

theorem commandEnd_of_halted {c : MscCalls} (hhalt : (s.endpoint .mscOut).haltState ≠ .none) :
    ∃ s', commandEnd c s = .ok s' ∧ s'.SameIn s ∧ s'.SameWiring s ∧
      s'.endpoint .mscOut = (s.endpoint .mscOut).setTransfer none := by
  refine ⟨_, if_neg hhalt, ?_, ?_, ?_⟩
  · unfold UsbState.completeTransfer
    exact (UsbState.SameIn.modifyCmd _).trans ((UsbState.SameIn.modifyOut _).trans
      ((UsbState.SameIn.modifyCmd _).trans (.modifyCmd _)))
  · exact (UsbState.SameWiring.modifyTransfer fun _ => rfl).trans
      (mscFrame.completeTransfer.trans (.modifyTransfer fun _ => rfl))
  · simp [UsbState.completeTransfer]

/-- The stream of a write starts. -/
theorem startTransfer_writing {x : SectorStream} (hw : MscWired s)
    (hin : (s.endpoint .mscIn).Quiet) (hout : (s.endpoint .mscOut).Free)
    (hstart : x.Start .mscOut) (hclient : s.client = x.base)
    (hcore : s.transfer .sector = x.core) (horigin : x.Origin cbw K₀)
    (hfirst : x.first = (s.endpoint .mscOut).currentGiveBuffer) (hdepth : 2 ≤ depth) :
    ∃ s', usbStartTransfer (usbCalls (mscDriver vdReadBlock) depth) .mscOut .sector s = .ok s' ∧
      Writing full cbw K₀ x (fun _ => []) 0 0 s' := by
  have hl := x.line_start hw hout hfirst
  have hfirst : ∃ E' T', usbGiveAsManyBuffersAsPossible (usbCalls (mscDriver vdReadBlock) depth)
      .mscOut (s.place .mscOut .sector (((s.endpoint .mscOut).setTransfer (some .sector)).setChain
        none) x.core.start x.base) = .ok (s.place .mscOut .sector E' T' x.base) ∧
      OutServing (x.setup false) (fun _ => []) (fun j K => x.OutIdle (fun _ => []) j K ∧ 0 ≤ j)
        (fun j K => x.OutBusy (fun _ => []) j K ∧ 0 ≤ j) 0 E' T' x.base :=
    OutServing.start rfl hl rfl rfl x.pos ⟨x.outIdle_start hstart, Nat.le_refl 0⟩ _ hdepth
  obtain ⟨E', T', heq, hserve⟩ := hfirst
  refine ⟨s.place .mscOut .sector E' T' x.base, ?_, ?_⟩
  · change usbGiveAsManyBuffersAsPossible _ .mscOut (s.started .mscOut .sector) = _
    rw [started_eq_place, hcore, hclient]
    exact heq
  · refine ⟨horigin, ?_, ?_, fun _ => Nat.zero_le 64,
      fun _ i hi => absurd hi (Nat.not_lt_zero i), horigin.transferred⟩
    · have hsame : (s.place .mscOut .sector E' T' x.base).endpoint .mscIn =
          s.endpoint .mscIn := by
        simp [UsbState.place]
      rw [hsame]
      exact hin
    · rw [UsbState.place_endpoint, UsbState.place_transfer]
      exact hserve

/-- A command is in its data phase, or past it, when its transfer has ended. -/
theorem commandEnd_accepted {s₀ : MscState} (hw : MscWired s)
    (htakes : (s₀.endpoint .mscOut).TakesCommand)
    (hcomplete : (s₀.transfer .cmd).onComplete = none)
    (hbody : CommandBody vdReadBlock full clean cbw K₀ s₀ s) (hdepth : 2 ≤ depth) :
    ∃ s', commandEnd (usbCalls (mscDriver vdReadBlock) depth) s = .ok s' ∧
      CommandStart vdReadBlock full clean cbw K₀ ((s₀.endpoint .mscIn).hw.given.map (·.packet))
        s' := by
  cases hbody with
  | reading h hdata hout hcmd =>
    rw [commandEnd_of_chain (by rw [hout]; exact htakes.notHalted) (by rw [hcmd, hcomplete]), hout,
      htakes.chain]
    refine ⟨_, rfl, .reading (h.congr commandDone_sameIn) hdata ?_⟩
    rw [commandDone_mscOut, hout]
    exact htakes.free
  | responding h hdata hout hcmd =>
    rw [commandEnd_of_chain (by rw [hout]; exact htakes.notHalted) (by rw [hcmd, hcomplete]), hout,
      htakes.chain]
    refine ⟨_, rfl, .responding (h.congr commandDone_sameIn) hdata ?_⟩
    rw [commandDone_mscOut, hout]
    exact htakes.free
  | ended h hmoved hout hcmd =>
    by_cases hstall : cbw.plan.stall = .dirOut
    · rw [if_pos hstall] at hout
      have hhalt : (s.endpoint .mscOut).haltState = .halted := by
        rw [hout, UsbEndpoint.stallWith, htakes.notHalted, if_pos (by decide)]
        rfl
      obtain ⟨s', hs', hsame, -, hstalled⟩ := commandEnd_of_halted
        (c := usbCalls (mscDriver vdReadBlock) depth) (s := s) (by rw [hhalt]; decide)
      refine ⟨s', hs', .ended ⟨h.congr hsame, fun _ => rfl, ?_⟩ hmoved⟩
      rw [if_pos hstall, hstalled]
      exact ⟨rfl, hhalt⟩
    · rw [if_neg hstall] at hout
      rw [commandEnd_of_chain (by rw [hout]; exact htakes.notHalted) (by rw [hcmd, hcomplete]),
        hout, htakes.chain]
      refine ⟨_, rfl, .ended ⟨h.congr commandDone_sameIn, fun _ => rfl, ?_⟩ hmoved⟩
      rw [if_neg hstall, commandDone_mscOut, hout]
      exact htakes.free
  | chained x hstart horigin hdata hclient hin hout hfirst hcore hcmd =>
    rw [commandEnd_of_chain (by rw [hout]; exact htakes.notHalted) (by rw [hcmd, hcomplete]), hout]
    have hout' : s.commandDone.endpoint .mscOut =
        ((s₀.endpoint .mscOut).setChain (some .sector)).dropBuffer.setTransfer none := by
      rw [commandDone_mscOut, hout]
    obtain ⟨s', hs', hwriting⟩ := startTransfer_writing (s := s.commandDone)
      (hw.of_same commandDone_sameWiring) (by rw [commandDone_sameIn.endpoint]; exact hin)
      (by rw [hout']; exact ⟨rfl, htakes.notHalted, htakes.owned, htakes.available⟩) hstart
      (commandDone_sameIn.client.trans hclient)
      ((commandDone_sameIn.transfer _ (by decide)).trans hcore) horigin
      (by rw [hout']; exact hfirst) hdepth
    exact ⟨s', hs', .writing hwriting hdata⟩

/-! ## The interrupt -/

/-- The packet of a command is in its buffer. -/
structure CommandArrives (packet : List Byte) (s s' : MscState) : Prop where
  sameIn : s'.SameIn s
  wiring : s'.SameWiring s
  takes : (s'.endpoint .mscOut).TakesCommand
  cmd : s'.transfer .cmd = (s.transfer .cmd).setOutstanding true
  given : (s'.endpoint .mscOut).hw.given = (s.endpoint .mscOut).hw.given

/-- The hardware has received a packet while `msc_out` waits for a command. -/
theorem MscArmed.arrives (h : MscArmed s) (hw : MscWired s) (hlen : packet.length ≤ 64) :
    ∃ which E, (s.endpoint .mscOut).bufferDone packet = some (which, E) ∧
      ((s.returned .mscOut which E).modifyTransfer .cmd
        fun T => T.setOutstanding true).mscPacket = packet ∧
      CommandArrives packet s (usbCurrentPacketBuffer .mscOut
        ((s.returned .mscOut which E).modifyTransfer .cmd fun T => T.setOutstanding true)) := by
  obtain ⟨b, hb⟩ := h.available
  have hin : (s.endpoint .mscOut).isIn = false := hw.isIn .mscOut
  have hsome : ∃ E, (s.endpoint .mscOut).bufferDone packet = some (b.which, E) ∧
      E = { s.endpoint .mscOut with
        hw := { (s.endpoint .mscOut).hw with
          available := []
          dpram := Function.update (s.endpoint .mscOut).hw.dpram b.which packet } } := by
    refine ⟨_, ?_, rfl⟩
    simp [UsbEndpoint.bufferDone, hb, hin]
  obtain ⟨E, hdone, hE⟩ := hsome
  have hfetch : (E.ownOne.takeBuffer b.which).fetchBuffer =
      { E.ownOne.takeBuffer b.which with
        currentHwBuffer := ⟨b.which, BitVec.ofNat 8 packet.length, true⟩ } := by
    rw [hE, UsbEndpoint.fetchBuffer]
    simp [h.valid, UsbEndpoint.currentBuffer, hin]
  have hmod : packet.length % 256 = packet.length := Nat.mod_eq_of_lt (by omega)
  refine ⟨b.which, E, hdone, ?_, ?_⟩
  · simp only [UsbState.mscPacket, usbCurrentPacketBuffer, UsbState.returned,
      UsbState.modifyEndpoint_endpoint_self, UsbState.modifyTransfer_endpoint, hfetch,
      UsbEndpoint.bufferData]
    simp [hE, hmod]
  · have howned : (s.endpoint .mscOut).ownedBufferCount + 1 = 2 := by
      rw [h.owned]
      rfl
    refine ⟨?_, ?_, ⟨?_, ?_, ?_, ?_, ?_⟩, ?_, ?_⟩
    · exact (UsbState.SameIn.modifyOut _).trans ((UsbState.SameIn.modifyCmd _).trans (.modifyOut _))
    · have hkept : (E.ownOne.takeBuffer b.which).Kept E := ⟨⟨rfl, rfl, rfl, rfl⟩, id⟩
      have htake := hkept.trans (.bufferDone hdone)
      exact mscFrame.currentPacketBuffer.trans ((UsbState.SameWiring.modifyTransfer
        fun _ => rfl).trans (.modifyEndpoint htake))
    all_goals
      simp only [usbCurrentPacketBuffer, UsbState.returned, UsbState.modifyEndpoint_endpoint_self,
        UsbState.modifyTransfer_endpoint, hfetch, UsbState.modifyEndpoint_transfer,
        UsbState.modifyTransfer_transfer_self]
    · rw [hE]
      exact h.current
    · rw [hE]
      exact h.notHalted
    · rw [hE]
      exact h.chain
    · rw [hE]
      exact howned
    · rw [hE]
      rfl
    · rw [hE]
      rfl

theorem CommandBody.takes {s₀ : MscState}
    (h : CommandBody vdReadBlock full clean cbw K₀ s₀ s)
    (htakes : (s₀.endpoint .mscOut).TakesCommand) :
    (s.endpoint .mscOut).currentTransfer = some .cmd ∧ s.transfer .cmd = s₀.transfer .cmd := by
  cases h with
  | reading h hdata hout hcmd => exact ⟨by rw [hout]; exact htakes.current, hcmd⟩
  | responding h hdata hout hcmd => exact ⟨by rw [hout]; exact htakes.current, hcmd⟩
  | ended h hmoved hout hcmd =>
    refine ⟨?_, hcmd⟩
    rw [hout]
    split
    · obtain ⟨hs', heq, -⟩ := (s₀.endpoint .mscOut).stallWith_eq .halted
      rw [heq]
      exact htakes.current
    · exact htakes.current
  | chained x hstart horigin hdata hclient hin hout hfirst hcore hcmd =>
    exact ⟨by rw [hout]; exact htakes.current, hcmd⟩

/-- The interrupt for the packet of a command, in terms of what is made of the packet. -/
theorem bufferInterrupt_cmd (h : MscArmed s) (hw : MscWired s) {which : Bool}
    {E : UsbEndpoint MscTransfer MscFunction}
    (hdone : (s.endpoint .mscOut).bufferDone packet = some (which, E))
    (hbody : mscCmdPacketInternal (usbCalls (mscDriver vdReadBlock) depth) vdReadBlock
      ((s.returned .mscOut which E).modifyTransfer .cmd fun T => T.setOutstanding true) = .ok s')
    (hw' : MscWired s') (hcurrent : (s'.endpoint .mscOut).currentTransfer = some .cmd)
    (hT : s'.transfer .cmd = (s.transfer .cmd).setOutstanding true) :
    usbBufferInterrupt (usbCalls (mscDriver vdReadBlock) (depth + 1)) .mscOut packet s =
      commandEnd (usbCalls (mscDriver vdReadBlock) (depth + 1)) s' := by
  let body : UsbDriver MscEndpoint MscTransfer MscFunction MscClient :=
    fun c _ _ s => mscCmdPacketInternal c vdReadBlock s
  have hf (c : MscCalls) (s : MscState) : mscDriver vdReadBlock c .cmdPacket .mscOut s =
      body c .cmdPacket .mscOut s >>= usbPacketDone c .mscOut := rfl
  exact usbBufferInterrupt_single_out h.toAwaits (hw.isIn .mscOut) (by rw [hw.cmdType]) hf hdone
    hbody hcurrent (hw'.isIn .mscOut) hT

/-- A command is accepted while no task is running. -/
theorem bufferInterrupt_accepted_alone (h : MscArmed s) (hw : MscWired s)
    (hin : (s.endpoint .mscIn).Quiet) (htasks : s.client.tasks = [])
    (haccepted : (ScsiCbw.ofPacket packet).Accepted packet.length) (hdepth : 4 ≤ depth) :
    ∃ s', usbBufferInterrupt (usbCalls (mscDriver vdReadBlock) depth) .mscOut packet s =
        .ok s' ∧
      CommandStart vdReadBlock full clean (.ofPacket packet) s.client
        ((s.endpoint .mscIn).hw.given.map (·.packet)) s' := by
  obtain ⟨depth, rfl⟩ : ∃ d, depth = d + 1 := ⟨depth - 1, by omega⟩
  obtain ⟨which, E, hdone, hpacket, harrives⟩ := h.arrives hw (by rw [haccepted.1]; omega)
  generalize hs₀ : (usbCurrentPacketBuffer .mscOut ((s.returned .mscOut which E).modifyTransfer
    .cmd fun T => T.setOutstanding true)) = s₀ at harrives
  generalize hs₁ : s₀.modifyClient (fun K => K.beginCommand (.ofPacket packet)) = s₁
  have hw₁ : MscWired s₁ := by
    rw [← hs₁]
    exact hw.of_same ((UsbState.SameWiring.modifyClient _ _).trans harrives.wiring)
  have hE₁ : s₁.endpoint = s₀.endpoint := by
    rw [← hs₁]
    rfl
  have hbegun : Begun (.ofPacket packet) s.client s₁.client := by
    rw [← hs₁, UsbState.modifyClient_client, harrives.sameIn.client]
    exact beginCommand_begun _ htasks
  have hcmd₁ : s₁.transfer .cmd = (s.transfer .cmd).setOutstanding true := by
    rw [← hs₁]
    exact harrives.cmd
  obtain ⟨s₂, hs₂, hbody⟩ : ∃ s₂, mscCommand (usbCalls (mscDriver vdReadBlock) depth) vdReadBlock
      (.ofPacket packet) s₁ = .ok s₂ ∧ CommandBody vdReadBlock full clean (.ofPacket packet)
        s.client s₁ s₂ :=
    mscCommand_body hw₁ (by rw [hE₁, harrives.sameIn.endpoint]; exact hin) hbegun (by omega)
  have hw₂ : MscWired s₂ := hw₁.of_same (mscCommand_wiring (mscCalls_frames vdReadBlock depth) hs₂)
  have htakes₁ : (s₁.endpoint .mscOut).TakesCommand := by
    rw [hE₁]
    exact harrives.takes
  obtain ⟨hcurrent, hcmd⟩ := hbody.takes htakes₁
  have hinternal : mscCmdPacketInternal (usbCalls (mscDriver vdReadBlock) depth) vdReadBlock
      ((s.returned .mscOut which E).modifyTransfer .cmd fun T => T.setOutstanding true) =
        .ok s₂ := by
    unfold mscCmdPacketInternal
    rw [hpacket]
    dsimp only
    rw [if_pos haccepted, hs₀, hs₁]
    exact hs₂
  have hgiven : s₁.endpoint .mscIn = s.endpoint .mscIn := by
    rw [hE₁, harrives.sameIn.endpoint]
  rw [bufferInterrupt_cmd h hw hdone hinternal hw₂ hcurrent (hcmd.trans hcmd₁), ← hgiven]
  exact commandEnd_accepted hw₂ htakes₁ (by rw [hcmd₁]; exact h.onComplete) hbody (by omega)

/-- A command is accepted, whatever tasks earlier commands have left. They are still running. -/
theorem bufferInterrupt_accepted (h : MscArmed s) (hw : MscWired s)
    (hin : (s.endpoint .mscIn).Quiet)
    (haccepted : (ScsiCbw.ofPacket packet).Accepted packet.length) (hdepth : 4 ≤ depth) :
    ∃ s', usbBufferInterrupt (usbCalls (mscDriver vdReadBlock) depth) .mscOut packet s =
        .ok (s'.withLeft s.client.tasks) ∧
      CommandStart vdReadBlock full clean (.ofPacket packet) s.withoutTasks.client
        ((s.endpoint .mscIn).hw.given.map (·.packet)) s' := by
  have halone : ∃ s', usbBufferInterrupt (usbCalls (mscDriver vdReadBlock) depth) .mscOut packet
      s.withoutTasks = .ok s' ∧ CommandStart vdReadBlock full clean (.ofPacket packet)
        s.withoutTasks.client ((s.endpoint .mscIn).hw.given.map (·.packet)) s' :=
    bufferInterrupt_accepted_alone (s := s.withoutTasks) { h with }
      (hw.of_same (.modifyClient _ _)) hin rfl haccepted hdepth
  obtain ⟨s', hs', hstart⟩ := halone
  refine ⟨s', ?_, hstart⟩
  have hcalls : (usbCalls (mscDriver vdReadBlock) depth).Ignores
      (MscClient.withLeft s.client.tasks) := mscCalls_ignores depth
  have hignores : UsbIgnores (MscClient.withLeft s.client.tasks)
      (usbBufferInterrupt (usbCalls (mscDriver vdReadBlock) depth) .mscOut packet) :=
    UsbIgnores.bufferInterrupt hcalls
  have hleft := hignores s.withoutTasks
  have hsame : s.withoutTasks.modifyClient (MscClient.withLeft s.client.tasks) = s :=
    withoutTasks_withLeft s
  rw [hsame, hs'] at hleft
  exact hleft

/-- The command of the phase is the last one that was accepted. -/
theorem CommandPhase.accepted {left : ℕ} (h : CommandPhase vdReadBlock full clean cbw K₀ left s) :
    s.client.accepted = K₀.accepted ++ [cbw] := by
  have hkept {x : SectorStream} {j : ℕ} {K : MscClient} (horigin : x.Origin cbw K₀)
      (hK : x.Kept j K) : K.accepted = K₀.accepted ++ [cbw] := hK.accepted.trans horigin.accepted
  cases h with
  | reading h hout =>
    obtain ⟨horigin, hserve, -⟩ := h
    cases hserve with
    | free h ho hq hk hK => exact hkept horigin hK.toKept
    | busy h ho hq hs hn hK => exact hK.elim
    | queued h ho hq hn hK => exact hK.elim
  | responding h hout => exact h.underway.accepted
  | writing h =>
    obtain ⟨horigin, -, hserve, -, -, -⟩ := h
    cases hserve with
    | free h hk hK => exact hkept horigin hK.1.1.toKept
    | busy h hk hK => exact hkept horigin hK.1.1.toKept
    | queued h hk hK => exact hkept horigin hK.1.1.toKept
  | ended h =>
    cases h.ended with
    | stalled hin hsend hunderway hnote => exact hunderway.accepted
    | answered hdir hin haccepted hcsws htasks htransferred hnote => exact haccepted

/-- A packet that is not a command halts both endpoints until a reset, whatever `msc_in` does. The
hardware is given no buffer. -/
theorem bufferInterrupt_rejected (h : MscArmed s) (hw : MscWired s) (hlen : packet.length ≤ 64)
    (hrejected : ¬(ScsiCbw.ofPacket packet).Accepted packet.length) (hdepth : 2 ≤ depth) :
    ∃ s', usbBufferInterrupt (usbCalls (mscDriver vdReadBlock) depth) .mscOut packet s = .ok s' ∧
      s'.endpoint .mscIn = (s.endpoint .mscIn).stallWith .haltedOnCondition ∧
      (s'.endpoint .mscOut).Stalled .haltedOnCondition ∧
      (s'.endpoint .mscOut).hw.available = [] ∧
      (s'.endpoint .mscOut).hw.given = (s.endpoint .mscOut).hw.given ∧
      s'.SameWiring s ∧ s'.client = s.client := by
  obtain ⟨depth, rfl⟩ : ∃ d, depth = d + 1 := ⟨depth - 1, by omega⟩
  obtain ⟨which, E, hdone, hpacket, harrives⟩ := h.arrives hw hlen
  generalize hs₀ : (usbCurrentPacketBuffer .mscOut ((s.returned .mscOut which E).modifyTransfer
    .cmd fun T => T.setOutstanding true)) = s₀ at harrives
  have hw₀ : MscWired s₀ := hw.of_same harrives.wiring
  generalize hs₁ : s₀.modifyEndpoint .mscIn (UsbEndpoint.stallWith .haltedOnCondition) = s₁
  generalize hs₂ : s₁.modifyEndpoint .mscOut (UsbEndpoint.stallWith .haltedOnCondition) = s₂
  have hwiring₁ : s₁.SameWiring s₀ := hs₁ ▸ stallWith_sameWiring
  have hwiring₂ : s₂.SameWiring s₁ := hs₂ ▸ stallWith_sameWiring
  have hw₁ : MscWired s₁ := hw₀.of_same hwiring₁
  have hw₂ : MscWired s₂ := hw₁.of_same hwiring₂
  have hout : s₂.endpoint .mscOut = (s₀.endpoint .mscOut).setHalt .haltedOnCondition := by
    rw [← hs₂, UsbState.modifyEndpoint_endpoint_self, ← hs₁,
      UsbState.modifyEndpoint_endpoint_of_ne _ _ _ _ (by decide), UsbEndpoint.stallWith,
      harrives.takes.notHalted, if_pos (by decide)]
  have hinE : s₂.endpoint .mscIn = (s.endpoint .mscIn).stallWith .haltedOnCondition := by
    rw [← hs₂, UsbState.modifyEndpoint_endpoint_of_ne _ _ _ _ (by decide), ← hs₁,
      UsbState.modifyEndpoint_endpoint_self, harrives.sameIn.endpoint]
  have hcmd : s₂.transfer .cmd = (s.transfer .cmd).setOutstanding true := by
    rw [← hs₂, ← hs₁]
    exact harrives.cmd
  have hinternal : mscCmdPacketInternal (usbCalls (mscDriver vdReadBlock) depth) vdReadBlock
      ((s.returned .mscOut which E).modifyTransfer .cmd fun T => T.setOutstanding true) =
        .ok s₂ := by
    unfold mscCmdPacketInternal
    rw [hpacket]
    dsimp only
    rw [if_neg hrejected, hs₀, mscCmdHalt, usbHaltEndpointOnCondition,
      mscStall_eq hw₀ (by decide) (by omega), hs₁]
    change usbHaltEndpointOnCondition _ .mscOut s₁ = _
    rw [usbHaltEndpointOnCondition, mscStall_eq hw₁ (by decide) (by omega), hs₂]
  rw [bufferInterrupt_cmd h hw hdone hinternal hw₂ (by rw [hout]; exact harrives.takes.current)
    hcmd]
  obtain ⟨s', hs', hsame, hwiring, hstalled⟩ := commandEnd_of_halted
    (c := usbCalls (mscDriver vdReadBlock) (depth + 1)) (s := s₂) (by
      rw [hout]
      exact fun hnone => by cases hnone)
  rw [hout] at hstalled
  refine ⟨s', hs', ?_, ?_, ?_, ?_, ?_, ?_⟩
  · rw [hsame.endpoint, hinE]
  · rw [hstalled]
    exact ⟨rfl, rfl⟩
  · rw [hstalled]
    exact harrives.takes.available
  · rw [hstalled]
    exact harrives.given
  · exact hwiring.trans (hwiring₂.trans (hwiring₁.trans harrives.wiring))
  · rw [hsame.client, ← hs₂, ← hs₁]
    exact harrives.sameIn.client

end Accept

end PicoBootrom
