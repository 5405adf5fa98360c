import PicoBootrom.MscControl
import PicoBootrom.MscRuns

/-!
# The conversation of a host with the mass storage device

Bulk-only transport over any number of commands. The host sends commands and data in packets of any
bytes, takes the packets of the device, and clears the stall of an endpoint that is stalled ; the
tasks of the virtual disk end with any result, and the disk may be changed in between. A command is
sent when the host has taken the CSW of the last one, and no endpoint is reset.

`Answered` is a log of commands, each with its CSW and the pipe that was stalled for it. In every
state of such a run the device has answered all commands but possibly the last one, in their order
(`bulkOnly_conversation`) : what `NoteOk` says of a CSW holds of all of them, under the conditions
that every packet of a write has 64 bytes (`full`) and that no task fails (`clean`).
-/

set_option linter.unusedSectionVars false

namespace PicoBootrom

/-! ## Runs with a log of the stalls -/

/-- The endpoints of a direction that is stalled. -/
def ScsiDirection.pipes : ScsiDirection → List MscEndpoint
  | .dirNone => []
  | .dirIn => [.mscIn]
  | .dirOut => [.mscOut]

/-- The interface, and the endpoints that were stalled so far, each with the number of the commands
that were accepted by then. -/
structure BulkRun where
  state : MscState
  stalls : List (ℕ × MscEndpoint)

/-- The endpoints that a step stalls. -/
def newlyStalled (s s' : MscState) : List MscEndpoint :=
  [MscEndpoint.mscIn, .mscOut].filter fun e =>
    (s.endpoint e).haltState = .none ∧ (s'.endpoint e).haltState = .halted

/-- One event, with the endpoints that it stalls. -/
def bulkStep (vdReadBlock : Word → ℕ → Byte) (depth : ℕ) (r : BulkRun) (event : MscRunEvent) :
    UsbResult BulkRun := do
  let s ← mscRunStep vdReadBlock depth r.state event
  .ok ⟨s, r.stalls ++ (newlyStalled r.state s).map fun e => (s.client.accepted.length, e)⟩

/-- What the host and the worker do. A command is sent when nothing is on `msc_in`, only stalls are
cleared, and no endpoint is reset. -/
def MscRunEvent.BulkOnly (full clean : Prop) (s : MscState) : MscRunEvent → Prop
  | .usb (.buffer .mscIn _) => True
  | .usb (.buffer .mscOut packet) =>
    packet.length ≤ 64 ∧
      ((s.endpoint .mscOut).currentTransfer = some .cmd →
        (s.endpoint .mscIn).currentTransfer = none) ∧
      (full → (s.endpoint .mscOut).currentTransfer = some .sector → packet.length = 64)
  | .usb (.asyncComplete _ result) => clean → result = 0
  | .usb (.clearFeature e) => (s.endpoint e).haltState ≠ .none
  | .usb _ => False
  | .disk d => d.sectorBuf = s.client.disk.sectorBuf

/-- The commands, in their order, with a CSW for each of them that is right, and with the stalls.
The pipe that is stalled for a command is the one that was planned, if no task fails. -/
inductive Answered (full clean : Prop) :
    List ScsiCbw → List CswNote → List (ℕ × MscEndpoint) → Prop
  | nil : Answered full clean [] [] []
  | snoc {cbws : List ScsiCbw} {notes : List CswNote} {stalls : List (ℕ × MscEndpoint)}
      (h : Answered full clean cbws notes stalls) {cbw : ScsiCbw} {note : CswNote}
      (hnote : NoteOk full clean cbw note) {dir : ScsiDirection}
      (hdir : clean → dir = cbw.plan.stall) :
      Answered full clean (cbws ++ [cbw]) (notes ++ [note])
        (stalls ++ dir.pipes.map fun e => (cbws.length + 1, e))

theorem Answered.length {full clean : Prop} {cbws : List ScsiCbw} {notes : List CswNote}
    {stalls : List (ℕ × MscEndpoint)} (h : Answered full clean cbws notes stalls) :
    notes.length = cbws.length := by
  induction h with
  | nil => rfl
  | snoc h hnote hdir ih => rw [List.length_append, List.length_append, ih]; rfl

/-! ## Phases -/

/-- `msc_out` while the CSW is on `msc_in` : it is not used, it is stalled, or its stall was cleared
and it waits for the next command already. -/
inductive MscOutRests (s : MscState) : Prop
  | free (h : (s.endpoint .mscOut).Free)
  | stalled (h : (s.endpoint .mscOut).Stalled .halted)
  | armed (h : MscArmed s)

/-- The endpoints between two events of a conversation. -/
inductive BulkPhase (vdReadBlock : Word → ℕ → Byte) (full clean : Prop) (r : BulkRun) : Prop
  | waiting (hout : MscArmed r.state) (hin : (r.state.endpoint .mscIn).Quiet)
      (htasks : r.state.client.tasks = [])
      (hall : Answered full clean r.state.client.accepted r.state.client.csws r.stalls)
  | reading {cbw : ScsiCbw} {K₀ : MscClient} {x : SectorStream} {before : List (List Byte)} {k : ℕ}
      (h : Reading vdReadBlock cbw K₀ x before k r.state) (hout : (r.state.endpoint .mscOut).Free)
      (hall : Answered full clean K₀.accepted K₀.csws r.stalls)
  | responding {cbw : ScsiCbw} {K₀ : MscClient} {packet : List Byte}
      (h : Responding full clean cbw K₀ packet r.state) (hout : (r.state.endpoint .mscOut).Free)
      (hall : Answered full clean K₀.accepted K₀.csws r.stalls)
  | writing {cbw : ScsiCbw} {K₀ : MscClient} {x : SectorStream} {packet : ℕ → List Byte} {k d : ℕ}
      (h : Writing full cbw K₀ x packet k d r.state)
      (hall : Answered full clean K₀.accepted K₀.csws r.stalls)
  | held {cbw : ScsiCbw} {K₀ : MscClient} {stalls : List (ℕ × MscEndpoint)}
      (hin : (r.state.endpoint .mscIn).Stalled .halted)
      (hsend : r.state.client.msc.sendCswOnUnstall = true) (h : Underway cbw K₀ r.state.client)
      (hnote : NoteOk full clean cbw r.state.client.note) (hout : (r.state.endpoint .mscOut).Free)
      (hstalls : r.stalls = stalls ++ [(K₀.accepted.length + 1, .mscIn)])
      (hplan : clean → .dirIn = cbw.plan.stall)
      (hall : Answered full clean K₀.accepted K₀.csws stalls)
  | answered {note : CswNote} (hin : MscResponds .tfWaitCommand note.csw.bytes r.state)
      (hout : MscOutRests r.state) (htasks : r.state.client.tasks = [])
      (hlast : r.state.client.csws.getLast? = some note)
      (hall : Answered full clean r.state.client.accepted r.state.client.csws r.stalls)
  | blocked (hin : (r.state.endpoint .mscIn).Quiet)
      (hout : (r.state.endpoint .mscOut).Stalled .halted) (htasks : r.state.client.tasks = [])
      (hall : Answered full clean r.state.client.accepted r.state.client.csws r.stalls)
  | dead (hhalt : ∀ e, (r.state.endpoint e).Stalled .haltedOnCondition)
      (havail : ∀ e, (r.state.endpoint e).hw.available = []) (htasks : r.state.client.tasks = [])
      (hall : Answered full clean r.state.client.accepted r.state.client.csws r.stalls)

/-- A step of the interface leads to one of the phases. -/
def BulkGoesOn (vdReadBlock : Word → ℕ → Byte) (full clean : Prop) (r : BulkRun)
    (res : UsbResult MscState) : Prop :=
  ∃ s, res = .ok s ∧ BulkPhase vdReadBlock full clean
    ⟨s, r.stalls ++ (newlyStalled r.state s).map fun e => (s.client.accepted.length, e)⟩

section Phases

variable {vdReadBlock : Word → ℕ → Byte} {full clean : Prop} {cbw : ScsiCbw} {K₀ : MscClient}
  {r : BulkRun} {s s' : MscState} {res : UsbResult MscState} {depth : ℕ} {x : SectorStream}
  {packet : List Byte}

theorem newlyStalled_eq_nil (h : ∀ e, (s'.endpoint e).haltState = .halted →
    (s.endpoint e).haltState ≠ .none) : newlyStalled s s' = [] := by
  unfold newlyStalled
  rw [List.filter_eq_nil_iff]
  intro e _ he
  obtain ⟨hnone, hhalted⟩ := of_decide_eq_true he
  exact h e hhalted hnone

theorem newlyStalled_eq_pipes (hfree : ∀ e, (s.endpoint e).haltState = .none) {dir : ScsiDirection}
    (h : ∀ e, (s'.endpoint e).haltState = .halted ↔ e ∈ dir.pipes) :
    newlyStalled s s' = dir.pipes := by
  simp only [newlyStalled, hfree, h, true_and]
  cases dir <;> decide

/-- A step that stalls no endpoint. -/
theorem BulkGoesOn.of_quiet (hres : res = .ok s)
    (hstalls : ∀ e, (s.endpoint e).haltState = .halted → (r.state.endpoint e).haltState ≠ .none)
    (h : BulkPhase vdReadBlock full clean ⟨s, r.stalls⟩) :
    BulkGoesOn vdReadBlock full clean r res := by
  refine ⟨s, hres, ?_⟩
  rw [newlyStalled_eq_nil hstalls, List.map_nil, List.append_nil]
  exact h

/-- A step that changes nothing. -/
theorem BulkPhase.same (h : BulkPhase vdReadBlock full clean r) (hres : res = .ok r.state) :
    BulkGoesOn vdReadBlock full clean r res :=
  .of_quiet hres (fun _ hhalt hnone => nomatch hhalt.symm.trans hnone) h

/-- The endpoints after a data phase. -/
theorem DataEnded.halted_iff {dir : ScsiDirection} (h : DataEnded full clean cbw K₀ dir s)
    (e : MscEndpoint) : (s.endpoint e).haltState = .halted ↔ e ∈ dir.pipes := by
  obtain ⟨hended, -, hout⟩ := h
  have hmscOut : (s.endpoint .mscOut).haltState = .halted ↔ MscEndpoint.mscOut ∈ dir.pipes := by
    split at hout
    · next hdir =>
      rw [hdir]
      exact iff_of_true hout.halted (by decide)
    · next hdir =>
      refine iff_of_false (fun hhalt => nomatch hhalt.symm.trans hout.notHalted) ?_
      cases dir
      · decide
      · decide
      · exact absurd rfl hdir
  cases e with
  | mscOut => exact hmscOut
  | mscIn =>
    cases hended with
    | stalled hin hsend hunderway hnote => exact iff_of_true hin.halted (by decide)
    | answered hdir hin haccepted hcsws htasks htransferred hnote =>
      refine iff_of_false (fun hhalt => nomatch hhalt.symm.trans hin.notHalted) ?_
      cases dir
      · decide
      · exact absurd rfl hdir
      · decide

/-- The data phase of a command ends. -/
theorem BulkGoesOn.of_ended {dir : ScsiDirection} (hres : res = .ok s)
    (hfree : ∀ e, (r.state.endpoint e).haltState = .none)
    (h : DataEnded full clean cbw K₀ dir s)
    (hall : Answered full clean K₀.accepted K₀.csws r.stalls) :
    BulkGoesOn vdReadBlock full clean r res := by
  refine ⟨s, hres, ?_⟩
  rw [newlyStalled_eq_pipes hfree h.halted_iff]
  obtain ⟨hended, hplan, hout⟩ := h
  cases hended with
  | stalled hin hsend hunderway hnote =>
    rw [if_neg (by decide)] at hout
    refine .held hin hsend hunderway hnote hout ?_ hplan hall
    rw [hunderway.accepted, List.length_append]
    rfl
  | @answered _ _ hdir note hin haccepted hcsws htasks htransferred hnote =>
    refine .answered hin ?_ htasks ?_ ?_
    · split at hout
      · exact .stalled hout
      · exact .free hout
    · exact (congrArg List.getLast? hcsws).trans List.getLast?_concat
    · dsimp only
      rw [haccepted, hcsws, List.length_append]
      exact hall.snoc hnote hplan

/-! ### The stream of a write and of a read -/

/-- The stream of a write goes on, or has ended. -/
theorem WriteAfter.bulk {packets : ℕ → List Byte} {k d : ℕ}
    (hfree : ∀ e, (r.state.endpoint e).haltState = .none) (horigin : x.Origin cbw K₀)
    (hwhole : full → ∀ i < k, (packets i).length = 64)
    (hall : Answered full clean K₀.accepted K₀.csws r.stalls)
    (h : WriteAfter full cbw K₀ x packets k d res) : BulkGoesOn vdReadBlock full clean r res := by
  rcases h with ⟨s', hres, hwriting⟩ | ⟨s', hres, rfl, hdone, htransferred⟩
  · refine .of_quiet hres (fun e hhalt => ?_) (.writing hwriting hall)
    cases e with
    | mscIn => exact nomatch hhalt.symm.trans hwriting.quiet.notHalted
    | mscOut => exact nomatch hhalt.symm.trans hwriting.notHalted
  · have hidle := hdone.idle
    have hended : DataEnded full clean cbw K₀ cbw.plan.stall s'.endDataPhase :=
      hdone.dataEnded hidle.toKept hidle.tasks horigin (hidle.completed.trans htransferred.symm)
        fun hf => htransferred.trans (receivedBytes_full (hwhole hf))
    exact .of_ended hres hfree hended hall

/-- The stream of a read is not stalled. -/
theorem Reading.notHalted {before : List (List Byte)} {k : ℕ}
    (h : Reading vdReadBlock cbw K₀ x before k s) : (s.endpoint .mscIn).haltState = .none := by
  cases h.serving with
  | free hi ho hq hk hK => exact hi.line.notHalted
  | busy hi ho hq hs hn hK => exact hK.elim
  | queued hi ho hq hn hK => exact hK.elim

/-- The stream of a read goes on, or has ended. -/
theorem ReadAfter.bulk {before : List (List Byte)} {k : ℕ}
    (hfree : ∀ e, (r.state.endpoint e).haltState = .none) (horigin : x.Origin cbw K₀)
    (hall : Answered full clean K₀.accepted K₀.csws r.stalls)
    (h : ReadAfter vdReadBlock cbw K₀ x before k res) :
    BulkGoesOn vdReadBlock full clean r res := by
  rcases h with ⟨s', hres, hreading, hout⟩ | ⟨s', hres, rfl, hdone, htransferred, -⟩
  · refine .of_quiet hres (fun e hhalt => ?_) (.reading hreading hout hall)
    cases e with
    | mscIn => exact nomatch hhalt.symm.trans hreading.notHalted
    | mscOut => exact nomatch hhalt.symm.trans hout.notHalted
  · have hidle := hdone.idle
    have hended : DataEnded full clean cbw K₀ cbw.plan.stall s'.endDataPhase :=
      hdone.dataEnded hidle.toKept hidle.tasks horigin (hidle.completed.trans htransferred.symm)
        fun _ => htransferred
    exact .of_ended hres hfree hended hall

/-- The hardware has received a packet of a write : it is the next one of the stream. -/
theorem Writing.receive (vdReadBlock : Word → ℕ → Byte) {packets : ℕ → List Byte} {k d : ℕ}
    (h : Writing full cbw K₀ x packets k d s) (hw : MscWired s)
    (havail : (s.endpoint .mscOut).hw.available ≠ []) (hlen : packet.length ≤ 64)
    (hfull : full → packet.length = 64) (hdepth : 3 ≤ depth) :
    ∃ packets', (full → ∀ i < k + 1, (packets' i).length = 64) ∧
      WriteAfter full cbw K₀ x packets' (k + 1) d
        (mscStep vdReadBlock depth s (.buffer .mscOut packet)) := by
  have hsame (i : ℕ) (hi : i < k) : Function.update packets k packet i = packets i :=
    Function.update_of_ne (Nat.ne_of_lt hi) _ _
  have hlength (i : ℕ) : (Function.update packets k packet i).length ≤ 64 := by
    by_cases hi : i = k
    · rw [hi, Function.update_self]
      exact hlen
    · rw [Function.update_of_ne hi]
      exact h.length_le i
  have hlast (hf : full) : (Function.update packets k packet k).length = 64 := by
    rw [Function.update_self]
    exact hfull hf
  refine ⟨Function.update packets k packet, fun hf i hi => ?_, ?_⟩
  · rcases Nat.lt_succ_iff_lt_or_eq.1 hi with hlt | rfl
    · rw [hsame i hlt]
      exact h.whole hf i hlt
    · exact hlast hf
  · have hafter : WriteAfter full cbw K₀ x (Function.update packets k packet) (k + 1) d
        (mscStep vdReadBlock depth s (.buffer .mscOut (Function.update packets k packet k))) :=
      h.buffer hw havail hsame hlength hlast hdepth
    rw [Function.update_self] at hafter
    exact hafter

/-- No endpoint is stalled during a write. -/
theorem Writing.free {packets : ℕ → List Byte} {k d : ℕ}
    (h : Writing full cbw K₀ x packets k d s) (e : MscEndpoint) :
    (s.endpoint e).haltState = .none := by
  cases e with
  | mscIn => exact h.quiet.notHalted
  | mscOut => exact h.notHalted

/-- The task of a chunk has ended. -/
theorem Writing.bulk_asyncComplete {packets : ℕ → List Byte} {k d : ℕ}
    (h : Writing full cbw K₀ x packets k d r.state) (hw : MscWired r.state)
    (hall : Answered full clean K₀.accepted K₀.csws r.stalls) {i : ℕ}
    (hi : i < r.state.client.tasks.length) {result : Word} (hclean : clean → result = 0)
    (hdepth : 3 ≤ depth) :
    BulkGoesOn vdReadBlock full clean r
      (mscStep vdReadBlock depth r.state (.asyncComplete i result)) := by
  by_cases hresult : result = 0
  · subst hresult
    exact (h.asyncComplete hw hi hdepth).bulk h.free h.origin h.whole hall
  · obtain ⟨s', hs', hended⟩ : ∃ s', mscStep vdReadBlock depth r.state (.asyncComplete i result) =
        .ok s' ∧ DataEnded full clean cbw K₀ .dirOut s' :=
      h.asyncFailed hw hi hresult (fun hc => hresult (hclean hc)) (by omega)
    exact .of_ended hs' h.free hended hall

/-! ### Endpoints that are stalled -/

/-- A buffer of an endpoint that is stalled. -/
theorem mscStep_buffer_stalled (vdReadBlock : Word → ℕ → Byte) (hw : MscWired s) {e : MscEndpoint}
    (h : (s.endpoint e).Stalled .halted) (packet : List Byte) (hdepth : 1 ≤ depth) :
    ∃ E, mscStep vdReadBlock depth s (.buffer e packet) = .ok (s.modifyEndpoint e fun _ => E) ∧
      E.Stalled .halted := by
  obtain ⟨E, hs', hcurrent, hhalted⟩ := mscStep_buffer_none vdReadBlock hw h.current packet hdepth
  exact ⟨E, hs', hcurrent, hhalted h.halted⟩

/-- A stall of an endpoint stays. -/
theorem BulkGoesOn.of_stalled {e : MscEndpoint} {E : UsbEndpoint MscTransfer MscFunction}
    (hres : res = .ok (r.state.modifyEndpoint e fun _ => E))
    (he : (r.state.endpoint e).Stalled .halted)
    (h : BulkPhase vdReadBlock full clean ⟨r.state.modifyEndpoint e fun _ => E, r.stalls⟩) :
    BulkGoesOn vdReadBlock full clean r res := by
  refine .of_quiet hres (fun e' hhalt hnone => ?_) h
  by_cases hne : e' = e
  · subst hne
    exact nomatch hnone.symm.trans he.halted
  · rw [UsbState.modifyEndpoint_endpoint_of_ne _ _ _ _ hne] at hhalt
    exact nomatch hhalt.symm.trans hnone

/-- The command transfer when the host has taken a response or a CSW. -/
theorem MscResponds.taken_cmd {f : MscFunction} {sent : List Byte} (h : MscResponds f packet s)
    (hw : MscWired s)
    (hs' : ∀ c, usbBufferInterrupt c .mscIn sent s = c.call (.driver f) .mscIn s') :
    s'.transfer .cmd = s.transfer .cmd := by
  obtain ⟨b, hb, -⟩ := h.available
  have hin : (s.endpoint .mscIn).isIn = true := hw.isIn .mscIn
  obtain ⟨E, hdone⟩ : ∃ E, (s.endpoint .mscIn).bufferDone sent = some (b.which, E) := by
    simp [UsbEndpoint.bufferDone, hb, hin]
  have hcomplete : ((s.returned .mscIn b.which E).transfer .cmdResponse).onComplete = some f :=
    h.onComplete
  -- calls that change nothing leave the state that the function is called in
  have heq := hs' ⟨fun _ _ s => .ok s, fun _ s => .ok s⟩
  rw [usbBufferInterrupt_single_in h.toAwaits hin hdone, UsbState.finish] at heq
  simp only [UsbState.modifyTransfer_transfer_self, UsbTransfer.handleOne_onComplete,
    hcomplete] at heq
  rw [← Except.ok.inj heq]
  rfl

/-- The host has taken the CSW : `msc_out` waits for the next command, if it is not stalled. -/
theorem answered_taken (vdReadBlock : Word → ℕ → Byte) (h : MscResponds .tfWaitCommand packet s)
    (hw : MscWired s) (hout : MscOutRests s) (sent : List Byte) (hdepth : 2 ≤ depth) :
    ∃ s', mscStep vdReadBlock depth s (.buffer .mscIn sent) = .ok s' ∧
      (s'.endpoint .mscIn).Quiet ∧ s'.client = s.client ∧
      (MscArmed s' ∨
        (s'.endpoint .mscOut).Stalled .halted ∧ (s.endpoint .mscOut).Stalled .halted) := by
  obtain ⟨depth, rfl⟩ : ∃ d, depth = d + 1 := ⟨depth - 1, by omega⟩
  obtain ⟨s₁, hs₁, hwiring, hin₁, hout₁, hclient₁⟩ := h.taken hw sent
  have hw₁ : MscWired s₁ := hw.of_same hwiring
  have hstep : mscStep vdReadBlock (depth + 1) s (.buffer .mscIn sent) =
      tfWaitCommand (usbCalls (mscDriver vdReadBlock) depth) s₁ := by
    change usbBufferInterrupt _ .mscIn sent (countTransferred .mscIn sent s) = _
    rw [countTransferred_response h, if_neg (by decide), hs₁]
    rfl
  rw [hstep]
  cases hout with
  | free hout =>
    rw [tfWaitCommand_free hw₁ (by rw [hout₁]; exact hout) (by omega)]
    refine ⟨_, rfl, ?_, by rw [awaitCommand_client, hclient₁], .inl ?_⟩
    · rw [awaitCommand_mscIn]
      exact hin₁
    · exact awaitCommand_armed hw₁ (by rw [hout₁]; exact hout)
  | stalled hout =>
    rw [tfWaitCommand_skip hw₁ (.inr (by rw [hout₁, hout.halted]; decide))]
    exact ⟨s₁, rfl, hin₁, hclient₁, .inr ⟨by rw [hout₁]; exact hout, hout⟩⟩
  | armed hout =>
    rw [tfWaitCommand_skip hw₁ (.inl (by rw [hout₁]; exact hout.current))]
    exact ⟨s₁, rfl, hin₁, hclient₁, .inl (hout.congr hout₁ (h.taken_cmd hw hs₁))⟩

/-! ### Buffers -/

/-- The host has taken a packet from `msc_in`. -/
theorem BulkPhase.buffer_in (h : BulkPhase vdReadBlock full clean r) (hw : MscWired r.state)
    (packet : List Byte) (hdepth : 4 ≤ depth) :
    BulkGoesOn vdReadBlock full clean r
      (mscStep vdReadBlock depth r.state (.buffer .mscIn packet)) := by
  have hne : MscEndpoint.mscOut ≠ .mscIn := by decide
  have hphase := h
  cases h with
  | waiting hout hin htasks hall => exact hphase.same (mscStep_buffer_nil hin.available packet)
  | reading h hout hall =>
    by_cases havail : (r.state.endpoint .mscIn).hw.available = []
    · exact hphase.same (mscStep_buffer_nil havail packet)
    · refine (h.buffer hw hout havail packet (by omega)).bulk (fun e => ?_) h.origin hall
      cases e with
      | mscIn => exact h.notHalted
      | mscOut => exact hout.notHalted
  | responding h hout hall =>
    obtain ⟨s', hs', hended⟩ : ∃ s', mscStep vdReadBlock depth r.state (.buffer .mscIn packet) =
        .ok s' ∧ DataEnded full clean _ _ _ s' := h.buffer hw hout packet (by omega)
    refine .of_ended hs' (fun e => ?_) hended hall
    cases e with
    | mscIn => exact h.responds.notHalted
    | mscOut => exact hout.notHalted
  | writing h hall => exact hphase.same (mscStep_buffer_nil h.quiet.available packet)
  | held hin hsend h hnote hout hstalls hplan hall =>
    obtain ⟨E, hs', hE⟩ := mscStep_buffer_stalled vdReadBlock hw hin packet (by omega : 1 ≤ depth)
    refine .of_stalled hs' hin (.held ?_ hsend h hnote ?_ hstalls hplan hall)
    · rw [UsbState.modifyEndpoint_endpoint_self]
      exact hE
    · rw [UsbState.modifyEndpoint_endpoint_of_ne _ _ _ _ hne]
      exact hout
  | answered hin hout htasks hlast hall =>
    obtain ⟨s', hs', hquiet, hclient, hrests⟩ := answered_taken vdReadBlock hin hw hout packet
      (by omega : 2 ≤ depth)
    have hall' : Answered full clean s'.client.accepted s'.client.csws r.stalls := hclient ▸ hall
    have htasks' : s'.client.tasks = [] := hclient ▸ htasks
    rcases hrests with harmed | ⟨hstalled, hbefore⟩
    · refine .of_quiet hs' (fun e hhalt => ?_) (.waiting harmed hquiet htasks' hall')
      cases e with
      | mscIn => exact nomatch hhalt.symm.trans hquiet.notHalted
      | mscOut => exact nomatch hhalt.symm.trans harmed.notHalted
    · refine .of_quiet hs' (fun e hhalt hnone => ?_) (.blocked hquiet hstalled htasks' hall')
      cases e with
      | mscIn => exact nomatch hhalt.symm.trans hquiet.notHalted
      | mscOut => exact nomatch hnone.symm.trans hbefore.halted
  | blocked hin hout htasks hall => exact hphase.same (mscStep_buffer_nil hin.available packet)
  | dead hhalt havail htasks hall => exact hphase.same (mscStep_buffer_nil (havail _) packet)

/-- A packet has arrived on `msc_out` while it waits for a command. -/
theorem MscArmed.bulk_buffer (hout : MscArmed r.state) (hin : (r.state.endpoint .mscIn).Quiet)
    (htasks : r.state.client.tasks = [])
    (hall : Answered full clean r.state.client.accepted r.state.client.csws r.stalls)
    (hw : MscWired r.state) (hlen : packet.length ≤ 64) (hdepth : 4 ≤ depth) :
    BulkGoesOn vdReadBlock full clean r
      (mscStep vdReadBlock depth r.state (.buffer .mscOut packet)) := by
  have hfree (e : MscEndpoint) : (r.state.endpoint e).haltState = .none := by
    cases e with
    | mscIn => exact hin.notHalted
    | mscOut => exact hout.notHalted
  have hcount : countTransferred .mscOut packet r.state = r.state := by
    unfold countTransferred
    rw [hout.current]
  change BulkGoesOn _ _ _ _
    (usbBufferInterrupt _ .mscOut packet (countTransferred .mscOut packet r.state))
  rw [hcount]
  by_cases haccepted : (ScsiCbw.ofPacket packet).Accepted packet.length
  · obtain ⟨s', hs', hstart⟩ : ∃ s', usbBufferInterrupt (usbCalls (mscDriver vdReadBlock) depth)
        .mscOut packet r.state = .ok s' ∧ CommandStart vdReadBlock full clean (.ofPacket packet)
          r.state.client ((r.state.endpoint .mscIn).hw.given.map (·.packet)) s' :=
      bufferInterrupt_accepted_alone hout hw hin htasks haccepted hdepth
    cases hstart with
    | reading h hdata hout =>
      refine .of_quiet hs' (fun e hhalt => ?_) (.reading h hout hall)
      cases e with
      | mscIn => exact nomatch hhalt.symm.trans h.notHalted
      | mscOut => exact nomatch hhalt.symm.trans hout.notHalted
    | responding h hdata hout =>
      refine .of_quiet hs' (fun e hhalt => ?_) (.responding h hout hall)
      cases e with
      | mscIn => exact nomatch hhalt.symm.trans h.responds.notHalted
      | mscOut => exact nomatch hhalt.symm.trans hout.notHalted
    | writing h hdata =>
      refine .of_quiet hs' (fun e hhalt => ?_) (.writing h hall)
      cases e with
      | mscIn => exact nomatch hhalt.symm.trans h.quiet.notHalted
      | mscOut => exact nomatch hhalt.symm.trans h.notHalted
    | ended h hmoved => exact .of_ended hs' hfree h hall
  · obtain ⟨s', hs', hin', hout', havail, -, -, hclient⟩ : ∃ s', usbBufferInterrupt
        (usbCalls (mscDriver vdReadBlock) depth) .mscOut packet r.state = .ok s' ∧ _ :=
      bufferInterrupt_rejected hout hw hlen haccepted (by omega)
    rw [hin.stallWith (by decide)] at hin'
    have hhalted (e : MscEndpoint) : (s'.endpoint e).Stalled .haltedOnCondition := by
      cases e with
      | mscIn =>
        rw [hin']
        exact ⟨hin.current, rfl⟩
      | mscOut => exact hout'
    have havail' (e : MscEndpoint) : (s'.endpoint e).hw.available = [] := by
      cases e with
      | mscIn =>
        rw [hin']
        exact hin.available
      | mscOut => exact havail
    refine .of_quiet hs' (fun e hhalt => nomatch hhalt.symm.trans (hhalted e).halted)
      (.dead hhalted havail' ?_ ?_)
    · rw [hclient]
      exact htasks
    · rw [hclient]
      exact hall

/-- The hardware has received a packet on `msc_out`. -/
theorem BulkPhase.buffer_out (h : BulkPhase vdReadBlock full clean r) (hw : MscWired r.state)
    (hlen : packet.length ≤ 64)
    (hidle : (r.state.endpoint .mscOut).currentTransfer = some .cmd →
      (r.state.endpoint .mscIn).currentTransfer = none)
    (hfull : full → (r.state.endpoint .mscOut).currentTransfer = some .sector →
      packet.length = 64) (hdepth : 4 ≤ depth) :
    BulkGoesOn vdReadBlock full clean r
      (mscStep vdReadBlock depth r.state (.buffer .mscOut packet)) := by
  have hne : MscEndpoint.mscIn ≠ .mscOut := by decide
  have hphase := h
  cases h with
  | waiting hout hin htasks hall => exact hout.bulk_buffer hin htasks hall hw hlen hdepth
  | reading h hout hall => exact hphase.same (mscStep_buffer_nil hout.available packet)
  | responding h hout hall => exact hphase.same (mscStep_buffer_nil hout.available packet)
  | writing h hall =>
    by_cases havail : (r.state.endpoint .mscOut).hw.available = []
    · exact hphase.same (mscStep_buffer_nil havail packet)
    · obtain ⟨packets, hwhole, hafter⟩ := h.receive vdReadBlock hw havail hlen
        (fun hf => hfull hf h.current) (by omega : 3 ≤ depth)
      exact hafter.bulk h.free h.origin hwhole hall
  | held hin hsend h hnote hout hstalls hplan hall =>
    exact hphase.same (mscStep_buffer_nil hout.available packet)
  | answered hin hout htasks hlast hall =>
    cases hout with
    | free hout => exact hphase.same (mscStep_buffer_nil hout.available packet)
    | armed hout => exact nomatch (hidle hout.current).symm.trans hin.current
    | stalled hout =>
      obtain ⟨E, hs', hE⟩ := mscStep_buffer_stalled vdReadBlock hw hout packet
        (by omega : 1 ≤ depth)
      refine .of_stalled hs' hout (.answered (hin.congr ?_ rfl) (.stalled ?_) htasks hlast hall)
      · rw [UsbState.modifyEndpoint_endpoint_of_ne _ _ _ _ hne]
      · rw [UsbState.modifyEndpoint_endpoint_self]
        exact hE
  | blocked hin hout htasks hall =>
    obtain ⟨E, hs', hE⟩ := mscStep_buffer_stalled vdReadBlock hw hout packet (by omega : 1 ≤ depth)
    refine .of_stalled hs' hout (.blocked ?_ ?_ htasks hall)
    · rw [UsbState.modifyEndpoint_endpoint_of_ne _ _ _ _ hne]
      exact hin
    · rw [UsbState.modifyEndpoint_endpoint_self]
      exact hE
  | dead hhalt havail htasks hall => exact hphase.same (mscStep_buffer_nil (havail _) packet)

/-! ### Tasks, stalls and the disk -/

/-- There is a task only while a chunk is written. -/
theorem BulkPhase.tasks (h : BulkPhase vdReadBlock full clean r) :
    r.state.client.tasks = [] ∨ ∃ cbw K₀ x packets k d,
      Writing full cbw K₀ x packets k d r.state ∧
        Answered full clean K₀.accepted K₀.csws r.stalls := by
  cases h with
  | waiting hout hin htasks hall => exact .inl htasks
  | reading h hout hall =>
    cases h.serving with
    | free hi ho hq hk hK => exact .inl hK.tasks
    | busy hi ho hq hs hn hK => exact hK.elim
    | queued hi ho hq hn hK => exact hK.elim
  | responding h hout hall => exact .inl h.underway.tasks
  | writing h hall => exact .inr ⟨_, _, _, _, _, _, h, hall⟩
  | held hin hsend h hnote hout hstalls hplan hall => exact .inl h.tasks
  | answered hin hout htasks hlast hall => exact .inl htasks
  | blocked hin hout htasks hall => exact .inl htasks
  | dead hhalt havail htasks hall => exact .inl htasks

/-- A task ends. -/
theorem BulkPhase.asyncComplete (h : BulkPhase vdReadBlock full clean r) (hw : MscWired r.state)
    (i : ℕ) {result : Word} (hclean : clean → result = 0) (hdepth : 3 ≤ depth) :
    BulkGoesOn vdReadBlock full clean r
      (mscStep vdReadBlock depth r.state (.asyncComplete i result)) := by
  rcases Nat.lt_or_ge i r.state.client.tasks.length with hi | hi
  · have hne : r.state.client.tasks ≠ [] := List.ne_nil_of_length_pos (by omega)
    obtain ⟨cbw, K₀, x, packets, k, d, hwriting, hall⟩ := h.tasks.resolve_left hne
    exact hwriting.bulk_asyncComplete hw hall hi hclean hdepth
  · exact h.same (mscStep_no_task hi)

/-- The stall of `msc_in` is cleared while the CSW is held back : the CSW is started. -/
theorem usbClearFeature_mscIn (vdReadBlock : Word → ℕ → Byte) (hw : MscWired s)
    (hconfig : s.currentConfigNum ≠ 0)
    (hhalt : (s.endpoint .mscIn).haltState = .halted)
    (hsend : s.client.msc.sendCswOnUnstall = true) (hdepth : 2 ≤ depth) :
    usbClearFeature (usbCalls (mscDriver vdReadBlock) depth) .mscIn s =
      .ok (s.modifyEndpoint .mscIn fun E => E.cleared true).sendCsw := by
  obtain ⟨depth, rfl⟩ : ∃ d, depth = d + 1 := ⟨depth - 1, by omega⟩
  generalize hs₁ : s.modifyEndpoint .mscIn (fun E => E.cleared true) = s₁
  have hcleared : s₁.endpoint .mscIn = (s.endpoint .mscIn).cleared true := by
    rw [← hs₁, UsbState.modifyEndpoint_endpoint_self]
  have hw₁ : MscWired s₁ := hs₁ ▸ hw.of_same (cleared_sameWiring .mscIn true)
  have hreset : ((s.endpoint .mscIn).resetTransfers true).haltState ≠ .none := by
    rw [show ((s.endpoint .mscIn).resetTransfers true).haltState = .halted from hhalt]
    decide
  have hmodify : (s.modifyEndpoint .mscIn fun E => E.resetTransfers true).modifyEndpoint .mscIn
      (fun E => E.setHalt .none) = s₁ := by
    rw [← hs₁]
    simp [UsbState.modifyEndpoint, UsbEndpoint.cleared]
  have hcall : (usbCalls (mscDriver vdReadBlock) (depth + 1)).call (.driver .inOnStallChange)
      .mscIn s₁ = .ok s₁.sendCsw := by
    have hsend₁ : s₁.client.msc.sendCswOnUnstall = true := by
      rw [← hs₁]
      exact hsend
    change mscInOnStallChange _ _ _ = _
    rw [mscInOnStallChange, if_pos ⟨by rw [hcleared]; rfl, rfl, hsend₁⟩]
    exact mscSendCsw_eq (hw₁.isIn .mscIn) (by omega)
  have hdefault : (s₁.sendCsw.endpoint .mscIn).defaultTransfer = none :=
    (hw₁.of_same sendCsw_sameWiring).defaultTransfer .mscIn
  rw [usbClearFeature, if_neg hconfig, hhalt, if_pos (by decide), usbHardResetEndpoint]
  unfold usbResetEndpoint
  simp only [UsbState.modifyEndpoint_endpoint_self, ne_eq, hreset, not_false_eq_true, if_true,
    hmodify, hw₁.onStallChange .mscIn, hcall, bind, Except.bind, hdefault]
  exact if_neg fun h => Bool.false_ne_true h.2.1

/-- The stall of `msc_out` is cleared : it waits for the next command. -/
theorem usbClearFeature_mscOut (vdReadBlock : Word → ℕ → Byte) (hw : MscWired s)
    (hconfig : s.currentConfigNum ≠ 0)
    (hhalt : (s.endpoint .mscOut).haltState = .halted) (hdepth : 1 ≤ depth) :
    ∃ s', usbClearFeature (usbCalls (mscDriver vdReadBlock) depth) .mscOut s = .ok s' ∧
      MscArmed s' ∧ s'.SameIn s := by
  have hw₁ : MscWired (s.modifyEndpoint .mscOut fun E => E.cleared true) :=
    hw.of_same (cleared_sameWiring .mscOut true)
  refine ⟨_, ?_, ?_, awaitCommand_sameIn.trans (.modifyOut fun E => E.cleared true)⟩
  · rw [usbClearFeature, if_neg hconfig, hhalt, if_pos (by decide), usbHardResetEndpoint]
    exact usbResetEndpoint_mscOut hw hconfig true hdepth
  · refine awaitCommand_armed hw₁ ?_
    rw [UsbState.modifyEndpoint_endpoint_self]
    exact (UsbEndpoint.cleared_quiet (hw.doubleBuffered .mscOut) true).toFree

/-- The stall of an endpoint is cleared. -/
theorem BulkPhase.clearFeature (h : BulkPhase vdReadBlock full clean r) (hw : MscWired r.state)
    (hconfig : r.state.currentConfigNum ≠ 0) {e : MscEndpoint}
    (he : (r.state.endpoint e).haltState ≠ .none) (hdepth : 2 ≤ depth) :
    BulkGoesOn vdReadBlock full clean r (mscStep vdReadBlock depth r.state (.clearFeature e)) := by
  change BulkGoesOn _ _ _ _ (usbClearFeature _ e r.state)
  cases h with
  | waiting hout hin htasks hall =>
    cases e with
    | mscIn => exact absurd hin.notHalted he
    | mscOut => exact absurd hout.notHalted he
  | reading h hout hall =>
    cases e with
    | mscIn => exact absurd h.notHalted he
    | mscOut => exact absurd hout.notHalted he
  | responding h hout hall =>
    cases e with
    | mscIn => exact absurd h.responds.notHalted he
    | mscOut => exact absurd hout.notHalted he
  | writing h hall =>
    cases e with
    | mscIn => exact absurd h.quiet.notHalted he
    | mscOut => exact absurd h.notHalted he
  | @held cbw K₀ stalls hin hsend h hnote hout hstalls hplan hall =>
    cases e with
    | mscOut => exact absurd hout.notHalted he
    | mscIn =>
      generalize hs₁ : r.state.modifyEndpoint .mscIn (fun E => E.cleared true) = s₁
      have hquiet : (s₁.endpoint .mscIn).Quiet := by
        rw [← hs₁, UsbState.modifyEndpoint_endpoint_self]
        exact UsbEndpoint.cleared_quiet (hw.doubleBuffered .mscIn) true
      have hw₁ : MscWired s₁ := hs₁ ▸ hw.of_same (cleared_sameWiring .mscIn true)
      have hclient : s₁.client = r.state.client := by
        rw [← hs₁]
        rfl
      have hout₁ : s₁.endpoint .mscOut = r.state.endpoint .mscOut := by
        rw [← hs₁, UsbState.modifyEndpoint_endpoint_of_ne _ _ _ _ (by decide)]
      have hresponds : MscResponds .tfWaitCommand s₁.client.note.csw.bytes s₁.sendCsw :=
        sendCsw_responds hquiet (hw₁.isIn .mscIn)
      have hres := usbClearFeature_mscIn vdReadBlock hw hconfig hin.halted hsend hdepth
      rw [hs₁] at hres
      refine .of_quiet hres (fun e hhalt => ?_) (.answered hresponds (.free ?_) ?_ ?_ ?_)
      · cases e with
        | mscIn => exact nomatch hhalt.symm.trans hresponds.notHalted
        | mscOut =>
          rw [sendCsw_mscOut, hout₁] at hhalt
          exact nomatch hhalt.symm.trans hout.notHalted
      · rw [sendCsw_mscOut, hout₁]
        exact hout
      · rw [sendCsw_client, hclient]
        exact h.tasks
      · rw [sendCsw_client]
        exact List.getLast?_concat
      · have hlog : r.stalls = stalls ++ ScsiDirection.dirIn.pipes.map fun e =>
            (K₀.accepted.length + 1, e) := hstalls
        have hanswered := hall.snoc hnote hplan
        rw [sendCsw_client, hclient]
        dsimp only
        rw [hlog]
        change Answered full clean r.state.client.accepted
          (r.state.client.csws ++ [r.state.client.note]) _
        rw [h.accepted, h.csws]
        exact hanswered
  | answered hin hout htasks hlast hall =>
    cases e with
    | mscIn => exact absurd hin.notHalted he
    | mscOut =>
      cases hout with
      | free hout => exact absurd hout.notHalted he
      | armed hout => exact absurd hout.notHalted he
      | stalled hout =>
        obtain ⟨s', hs', harmed, hsame⟩ := usbClearFeature_mscOut vdReadBlock hw hconfig hout.halted
          (by omega : 1 ≤ depth)
        have hin' : MscResponds .tfWaitCommand _ s' :=
          hin.congr hsame.endpoint (hsame.transfer _ (by decide))
        refine .of_quiet hs' (fun e hhalt => ?_) (.answered hin' (.armed harmed) ?_ ?_ ?_)
        · cases e with
          | mscIn => exact nomatch hhalt.symm.trans hin'.notHalted
          | mscOut => exact nomatch hhalt.symm.trans harmed.notHalted
        all_goals
          dsimp only
          rw [hsame.client]
          assumption
  | blocked hin hout htasks hall =>
    cases e with
    | mscIn => exact absurd hin.notHalted he
    | mscOut =>
      obtain ⟨s', hs', harmed, hsame⟩ := usbClearFeature_mscOut vdReadBlock hw hconfig hout.halted
        (by omega : 1 ≤ depth)
      have hin' : (s'.endpoint .mscIn).Quiet := hsame.endpoint ▸ hin
      refine .of_quiet hs' (fun e hhalt => ?_) (.waiting harmed hin' ?_ ?_)
      · cases e with
        | mscIn => exact nomatch hhalt.symm.trans hin'.notHalted
        | mscOut => exact nomatch hhalt.symm.trans harmed.notHalted
      all_goals
        dsimp only
        rw [hsame.client]
        assumption
  | dead hhalt havail htasks hall =>
    -- only the data toggle is reset
    generalize hs' : r.state.modifyEndpoint e (fun E => { E with nextPid := false }) = s'
    have hkept (e' : MscEndpoint) : (s'.endpoint e').Stalled .haltedOnCondition ∧
        (s'.endpoint e').hw.available = [] := by
      rw [← hs']
      by_cases hne : e' = e
      · subst hne
        rw [UsbState.modifyEndpoint_endpoint_self]
        exact ⟨⟨(hhalt e').current, (hhalt e').halted⟩, havail e'⟩
      · rw [UsbState.modifyEndpoint_endpoint_of_ne _ _ _ _ hne]
        exact ⟨hhalt e', havail e'⟩
    have hclient : s'.client = r.state.client := by
      rw [← hs']
      rfl
    have hdead : BulkPhase vdReadBlock full clean ⟨s', r.stalls⟩ := by
      refine .dead (fun e' => (hkept e').1) (fun e' => (hkept e').2) ?_ ?_
      all_goals
        dsimp only
        rw [hclient]
        assumption
    refine .of_quiet ?_ (fun e' hhalted => nomatch hhalted.symm.trans (hkept e').1.halted) hdead
    rw [usbClearFeature, if_neg hconfig, (hhalt e).halted, if_neg (Nat.lt_irrefl _), hs']

/-- Something else changes the disk. -/
theorem BulkPhase.setDisk (h : BulkPhase vdReadBlock full clean r) {d : VirtualDisk}
    (hd : d.sectorBuf = r.state.client.disk.sectorBuf) :
    BulkPhase vdReadBlock full clean
      ⟨r.state.modifyClient (MscClient.setDisk d), r.stalls⟩ := by
  cases h with
  | waiting hout hin htasks hall => exact .waiting (hout.congr rfl rfl) hin htasks hall
  | reading h hout hall => exact .reading (h.setDisk d) hout hall
  | responding h hout hall => exact .responding (h.setDisk d) hout hall
  | writing h hall => exact .writing (h.setDisk hd) hall
  | held hin hsend h hnote hout hstalls hplan hall =>
    exact .held hin hsend ⟨h.accepted, h.csws, h.tasks⟩ hnote hout hstalls hplan hall
  | answered hin hout htasks hlast hall =>
    refine .answered (hin.congr rfl rfl) ?_ htasks hlast hall
    cases hout with
    | free h => exact .free h
    | stalled h => exact .stalled h
    | armed h => exact .armed (h.congr rfl rfl)
  | blocked hin hout htasks hall => exact .blocked hin hout htasks hall
  | dead hhalt havail htasks hall => exact .dead hhalt havail htasks hall

end Phases

/-! ## Runs -/

/-- A state of a conversation. -/
structure InConversation (vdReadBlock : Word → ℕ → Byte) (full clean : Prop) (r : BulkRun) :
    Prop where
  wired : MscWired r.state
  config : r.state.currentConfigNum ≠ 0
  phase : BulkPhase vdReadBlock full clean r

section Runs

variable {vdReadBlock : Word → ℕ → Byte} {full clean : Prop} {r : BulkRun} {depth : ℕ}

/-- A step of a conversation. -/
theorem InConversation.step (h : InConversation vdReadBlock full clean r) {event : MscRunEvent}
    (hevent : event.BulkOnly full clean r.state) (hdepth : 4 ≤ depth) :
    ∃ r', bulkStep vdReadBlock depth r event = .ok r' ∧
      InConversation vdReadBlock full clean r' := by
  have hgoes : BulkGoesOn vdReadBlock full clean r
      (mscRunStep vdReadBlock depth r.state event) := by
    cases event with
    | disk d =>
      refine .of_quiet rfl (fun _ hhalt hnone => nomatch hhalt.symm.trans hnone) ?_
      exact h.phase.setDisk hevent
    | usb event =>
      cases event with
      | buffer e packet =>
        cases e with
        | mscIn => exact h.phase.buffer_in h.wired packet hdepth
        | mscOut => exact h.phase.buffer_out h.wired hevent.1 hevent.2.1 hevent.2.2 hdepth
      | asyncComplete i result => exact h.phase.asyncComplete h.wired i hevent (by omega)
      | clearFeature e => exact h.phase.clearFeature h.wired h.config hevent (by omega)
      | mscReset => exact hevent.elim
      | setConfiguration num => exact hevent.elim
  obtain ⟨s', hs', hphase⟩ := hgoes
  have hsame : s'.SameWiring r.state := by
    cases event with
    | disk d =>
      obtain rfl := Except.ok.inj hs'
      exact .modifyClient _ _
    | usb event =>
      refine mscStep_wiring (fun num heq => ?_) hs'
      subst heq
      exact hevent
  refine ⟨_, ?_, h.wired.of_same hsame, fun hzero => h.config (hsame.config.symm.trans hzero),
    hphase⟩
  rw [bulkStep, hs']
  rfl

/-- A run of a conversation. -/
theorem InConversation.run (h : InConversation vdReadBlock full clean r) {es : List MscRunEvent}
    (hes : Run.Always (Run.attempt (bulkStep vdReadBlock depth))
      (Run.Holds fun r event => event.BulkOnly full clean r.state) (.ok r) es)
    (hdepth : 4 ≤ depth) :
    ∃ r', Run.after (Run.attempt (bulkStep vdReadBlock depth)) (.ok r) es = .ok r' ∧
      InConversation vdReadBlock full clean r' :=
  Run.Always.invariant
    (I := fun res => ∃ r', res = .ok r' ∧ InConversation vdReadBlock full clean r')
    (fun res event hevent hres => by
      obtain ⟨r', rfl, hr'⟩ := hres
      exact hr'.step (hevent r' rfl) hdepth) hes ⟨r, rfl, h⟩

/-! ## What the host has got -/

/-- The device has answered all commands but possibly the last one, in their order. While `msc_out`
waits for a command it has answered all of them, and the CSW of the last one is what `msc_in` has
for the host. -/
structure Conversation (full clean : Prop) (r : BulkRun) : Prop where
  answered : ∃ cbws stalls, Answered full clean cbws r.state.client.csws stalls ∧
    (r.state.client.accepted = cbws ∧ r.stalls = stalls ∨
      ∃ cbw now, r.state.client.accepted = cbws ++ [cbw] ∧ r.stalls = stalls ++ now)
  waits : (r.state.endpoint .mscOut).currentTransfer = some .cmd →
    r.state.client.csws.length = r.state.client.accepted.length
  csw : (r.state.endpoint .mscIn).currentTransfer = some .cmdResponse →
    (r.state.transfer .cmdResponse).onComplete = some .tfWaitCommand →
      ∃ note b, r.state.client.csws.getLast? = some note ∧
        (r.state.endpoint .mscIn).hw.available = [b] ∧ b.packet = note.csw.bytes

/-- The CSWs while a command is moving data. -/
theorem Reading.csws {cbw : ScsiCbw} {K₀ : MscClient} {x : SectorStream}
    {before : List (List Byte)} {k : ℕ} {s : MscState}
    (h : Reading vdReadBlock cbw K₀ x before k s) :
    s.client.accepted = K₀.accepted ++ [cbw] ∧ s.client.csws = K₀.csws := by
  cases h.serving with
  | free hi ho hq hk hK =>
    exact ⟨hK.accepted.trans h.origin.accepted, hK.csws.trans h.origin.csws⟩
  | busy hi ho hq hs hn hK => exact hK.elim
  | queued hi ho hq hn hK => exact hK.elim

theorem Writing.csws {cbw : ScsiCbw} {K₀ : MscClient} {x : SectorStream}
    {packet : ℕ → List Byte} {k d : ℕ} {s : MscState} (h : Writing full cbw K₀ x packet k d s) :
    s.client.accepted = K₀.accepted ++ [cbw] ∧ s.client.csws = K₀.csws := by
  have hkept {j : ℕ} (hK : x.Kept j s.client) :
      s.client.accepted = K₀.accepted ++ [cbw] ∧ s.client.csws = K₀.csws :=
    ⟨hK.accepted.trans h.origin.accepted, hK.csws.trans h.origin.csws⟩
  cases h.serving with
  | free hf hk hK => exact hkept hK.1.1.toKept
  | busy hb hk hK => exact hkept hK.1.1.toKept
  | queued hq hk hK => exact hkept hK.1.1.toKept

theorem BulkPhase.conversation (h : BulkPhase vdReadBlock full clean r) :
    Conversation full clean r := by
  have hlast {cbw : ScsiCbw} {K₀ : MscClient} {stalls now : List (ℕ × MscEndpoint)}
      (hall : Answered full clean K₀.accepted K₀.csws stalls)
      (haccepted : r.state.client.accepted = K₀.accepted ++ [cbw])
      (hcsws : r.state.client.csws = K₀.csws) (hstalls : r.stalls = stalls ++ now) :
      ∃ cbws stalls, Answered full clean cbws r.state.client.csws stalls ∧
        (r.state.client.accepted = cbws ∧ r.stalls = stalls ∨
          ∃ cbw now, r.state.client.accepted = cbws ++ [cbw] ∧ r.stalls = stalls ++ now) :=
    ⟨_, _, hcsws ▸ hall, .inr ⟨cbw, now, haccepted, hstalls⟩⟩
  have hno {e : MscEndpoint} {t : MscTransfer} {P : Prop}
      (hnone : (r.state.endpoint e).currentTransfer = none)
      (hsome : (r.state.endpoint e).currentTransfer = some t) : P :=
    nomatch hnone.symm.trans hsome
  cases h with
  | waiting hout hin htasks hall =>
    exact ⟨⟨_, _, hall, .inl ⟨rfl, rfl⟩⟩, fun _ => hall.length, fun hcur => hno hin.current hcur⟩
  | reading h hout hall =>
    have hcurrent : (r.state.endpoint .mscIn).currentTransfer = some .sector := by
      cases h.serving with
      | free hi ho hq hk hK => exact hi.line.current
      | busy hi ho hq hs hn hK => exact hK.elim
      | queued hi ho hq hn hK => exact hK.elim
    refine ⟨hlast hall h.csws.1 h.csws.2 (List.append_nil _).symm,
      fun hcur => hno hout.current hcur, fun hcur => ?_⟩
    exact nomatch hcurrent.symm.trans hcur
  | responding h hout hall =>
    refine ⟨hlast hall h.underway.accepted h.underway.csws (List.append_nil _).symm,
      fun hcur => hno hout.current hcur, fun _ hcomplete => ?_⟩
    exact nomatch h.responds.onComplete.symm.trans hcomplete
  | writing h hall =>
    refine ⟨hlast hall h.csws.1 h.csws.2 (List.append_nil _).symm, fun hcur => ?_,
      fun hcur => hno h.quiet.current hcur⟩
    exact nomatch h.current.symm.trans hcur
  | held hin hsend h hnote hout hstalls hplan hall =>
    exact ⟨hlast hall h.accepted h.csws hstalls, fun hcur => hno hout.current hcur,
      fun hcur => hno hin.current hcur⟩
  | answered hin hout htasks hlast hall =>
    obtain ⟨b, hb, hpacket⟩ := hin.available
    exact ⟨⟨_, _, hall, .inl ⟨rfl, rfl⟩⟩, fun _ => hall.length,
      fun _ _ => ⟨_, b, hlast, hb, hpacket⟩⟩
  | blocked hin hout htasks hall =>
    exact ⟨⟨_, _, hall, .inl ⟨rfl, rfl⟩⟩, fun _ => hall.length, fun hcur => hno hin.current hcur⟩
  | dead hhalt havail htasks hall =>
    exact ⟨⟨_, _, hall, .inl ⟨rfl, rfl⟩⟩, fun _ => hall.length,
      fun hcur => hno (hhalt _).current hcur⟩

/-- No command was sent to the device yet. -/
structure Unspoken (s : MscState) : Prop where
  wired : MscWired s
  config : s.currentConfigNum ≠ 0
  mscIn : (s.endpoint .mscIn).Quiet
  mscOut : MscArmed s
  tasks : s.client.tasks = []
  accepted : s.client.accepted = []
  csws : s.client.csws = []

theorem Unspoken.inConversation (vdReadBlock : Word → ℕ → Byte) (full clean : Prop) {s : MscState}
    (h : Unspoken s) : InConversation vdReadBlock full clean ⟨s, []⟩ := by
  refine ⟨h.wired, h.config, .waiting h.mscOut h.mscIn h.tasks ?_⟩
  dsimp only
  rw [h.accepted, h.csws]
  exact .nil

/-- Every run of bulk-only transport is a conversation in which the device answers the commands in
their order, each with one CSW. -/
theorem bulkOnly_conversation (vdReadBlock : Word → ℕ → Byte) (full clean : Prop) {s : MscState}
    (hs : Unspoken s) {es : List MscRunEvent}
    (hes : Run.Always (Run.attempt (bulkStep vdReadBlock depth))
      (Run.Holds fun r event => event.BulkOnly full clean r.state) (.ok ⟨s, []⟩) es)
    (hdepth : 4 ≤ depth) :
    ∃ r, Run.after (Run.attempt (bulkStep vdReadBlock depth)) (.ok ⟨s, []⟩) es = .ok r ∧
      Conversation full clean r := by
  obtain ⟨r, hr, h⟩ := (hs.inConversation vdReadBlock full clean).run hes hdepth
  exact ⟨r, hr, h.phase.conversation⟩

/-- The packet of a command of ten bytes, for a host length below 256. -/
def cbwPacket (flags op len : Byte) : List Byte :=
  wordBytes cbwSig ++ wordBytes 1 ++ wordBytes (len.setWidth 32) ++ [flags, 0, 10, op] ++
    List.replicate 15 0

/-- The device that was just configured. -/
theorem mscConfigured_unspoken : Unspoken mscConfigured.awaitCommand where
  wired := mscConfigured_wired.of_same awaitCommand_sameWiring
  config := by
    rw [awaitCommand_sameWiring.config]
    decide
  mscIn := by
    rw [awaitCommand_mscIn]
    exact ⟨⟨rfl, rfl, rfl, rfl⟩, fun h => by cases h⟩
  mscOut := mscConfigured_armed
  tasks := by rw [awaitCommand_client]; rfl
  accepted := by rw [awaitCommand_client]; rfl
  csws := by rw [awaitCommand_client]; rfl

/-- A `READ_CAPACITY_10`, of which the host takes the response and the CSW. -/
theorem bulkOnly_conversation_capacity :
    ∃ r, Run.after (Run.attempt (bulkStep emptyDisk 4)) (.ok ⟨mscConfigured.awaitCommand, []⟩)
        [.usb (.buffer .mscOut (cbwPacket 0x80 0x25 8)), .usb (.buffer .mscIn []),
          .usb (.buffer .mscIn [])] = .ok r ∧
      Conversation True True r := by
  refine bulkOnly_conversation emptyDisk True True mscConfigured_unspoken
    ⟨fun r hr => ?_, fun _ _ => trivial, fun _ _ => trivial, trivial⟩ (Nat.le_refl 4)
  obtain rfl := Except.ok.inj hr
  refine ⟨by decide, fun _ => ?_, fun _ hsector => ?_⟩
  · exact mscConfigured_unspoken.mscIn.current
  · exact nomatch mscConfigured_armed.current.symm.trans hsector

end Runs

end PicoBootrom
