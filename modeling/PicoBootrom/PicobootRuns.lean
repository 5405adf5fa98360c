import PicoBootrom.PicobootUsb
import PicoBootrom.UsbInvariant
import PicoBootrom.WorkerTurn

/-!
# Runs of PICOBOOT

The two endpoints of PICOBOOT together with the worker that executes its tasks (`PicobootWorld`),
and everything that can happen to them in any order : the buffers of the hardware with any packet,
the turns of the worker, split where an interrupt can come in between, and the requests that reset
endpoints. What the virtual disk does to the machine is any change of the machine.

`PicobootInv` is what holds in all of them : which transfers run where, and who is to acknowledge
the command of the status block. It is at most one of its single task, waiting in the queue or at
the worker, and its stream, and none of them if it is acknowledged already.
-/

set_option linter.unusedSectionVars false

namespace PicoBootrom

/-! ## The world -/

/-- The worker : with the task it took, or with the one it has executed, and with the generation
of the command that queued it. -/
inductive CommandWorker
  | idle
  | took (task : AsyncTask) (generation : ℕ)
  | ran (task : AsyncTask) (generation : ℕ)
  deriving DecidableEq

/-- A task that was executed, with its result, and the machine before and after. -/
structure ExecutedTask where
  task : AsyncTask
  before : Machine
  after : Machine

/-- The endpoints of PICOBOOT, the worker, and the tasks that were executed. -/
structure PicobootWorld where
  usb : PicobootState
  worker : CommandWorker := .idle
  executed : List ExecutedTask := []

/-- What happens next. -/
inductive PicobootEvent
  /-- The hardware is done with a buffer. -/
  | buffer (e : PicobootEndpoint) (packet : List Byte)
  /-- `PICOBOOT_IF_RESET`. -/
  | ifReset
  | clearFeature (e : PicobootEndpoint)
  /-- `SET_CONFIGURATION`, or a bus reset with the number 0. -/
  | setConfiguration (num : Byte)
  | take
  | run
  | complete
  /-- Something else changes the machine. -/
  | machine (m : Machine)

/-- The worker takes the task out of `picoboot_queue`. -/
def takeCommandTask (w : PicobootWorld) : PicobootWorld :=
  match w.worker with
  | .idle =>
    if w.usb.client.picoboot.queue.full then
      { w with
          usb := w.usb.modifyClient fun K => { K with
            picoboot := { K.picoboot with queue := { K.picoboot.queue with full := false } } }
          worker := .took w.usb.client.picoboot.queue.task w.usb.client.taskGeneration }
    else w
  | _ => w

/-- `execute_task`, up to the callback. -/
def runCommandTask (env : Env) (w : PicobootWorld) : PicobootWorld :=
  match w.worker with
  | .took task generation =>
    let r := executeCommandTask env task w.usb.client.picoboot w.usb.client.machine
    { usb := w.usb.modifyClient fun K => { K with machine := r.1 }
      worker := .ran r.2 generation
      executed := w.executed ++ [⟨r.2, w.usb.client.machine, r.1⟩] }
  | _ => w

/-- The callback of the task that was executed. -/
def completeCommandTask (c : PicobootCalls) (w : PicobootWorld) : UsbResult PicobootWorld :=
  match w.worker with
  | .ran task _ => do
    let usb ← picobootTaskDone c task w.usb
    .ok { w with usb := usb, worker := .idle }
  | _ => .ok w

/-- The stream of a command runs on an endpoint, or is chained to the transfer of the command. -/
def UsbState.Streams (s : PicobootState) (e : PicobootEndpoint) : Prop :=
  (s.endpoint e).currentTransfer = some .stream ∨
    (s.endpoint e).currentTransfer = some .cmd ∧ (s.endpoint e).chainTransfer = some .stream

instance (s : PicobootState) (e : PicobootEndpoint) : Decidable (s.Streams e) :=
  inferInstanceAs (Decidable (_ ∨ _))

/-- The command of the status block is superseded. -/
def PicobootClient.supersede (K : PicobootClient) : PicobootClient :=
  { K with generation := K.generation + 1 }

/-- `CLEAR_FEATURE(ENDPOINT_HALT)`. It supersedes a command whose stream it ends. -/
def picobootClearFeature (c : PicobootCalls) (e : PicobootEndpoint) (s : PicobootState) :
    UsbResult PicobootState := do
  let s' ← usbClearFeature c e s
  .ok (if s.Streams e ∧ ¬s'.Streams e then s'.modifyClient PicobootClient.supersede else s')

/-- `SET_CONFIGURATION`, with `_usb_boot_on_configure`. -/
def picobootSetConfiguration (c : PicobootCalls) (num : Byte) (s : PicobootState) :
    UsbResult PicobootState := do
  let s ← usbHandleSetConfig c [.picobootOut, .picobootIn] num s
  if num ≠ 0 then picobootReset c s
  else .ok (s.modifyClient PicobootClient.supersede)

/-- One event, with calls of at most the given depth. -/
def picobootStep (env : Env) (depth : ℕ) (w : PicobootWorld) (e : PicobootEvent) :
    UsbResult PicobootWorld :=
  let c := usbCalls picobootDriver depth
  let onUsb (r : UsbResult PicobootState) : UsbResult PicobootWorld := do
    let usb ← r
    .ok { w with usb := usb }
  match e with
  | .buffer e packet => onUsb (usbBufferInterrupt c e packet w.usb)
  | .ifReset => onUsb (if w.usb.currentConfigNum ≠ 0 then picobootReset c w.usb else .ok w.usb)
  | .clearFeature e => onUsb (picobootClearFeature c e w.usb)
  | .setConfiguration num => onUsb (picobootSetConfiguration c num w.usb)
  | .take => .ok (takeCommandTask w)
  | .run => .ok (runCommandTask env w)
  | .complete => completeCommandTask c w
  | .machine m => .ok { w with usb := w.usb.modifyClient fun K => { K with machine := m } }

/-! ## The transfers of the endpoints -/

/-- The transfer of the commands, which the code waits for a packet of, or whose packet is being
handled. -/
structure CommandTransfer (handling : Bool) (s : PicobootState) : Prop where
  chain : ∀ t, (s.endpoint .picobootOut).chainTransfer = some t → t = .stream
  onComplete : (s.transfer .cmd).onComplete = none
  handle : (s.transfer .cmd).remainingPacketsToHandle = 1
  queued : (s.transfer .cmd).packetQueued = false
  notCompleted : (s.transfer .cmd).completed = false
  outstanding : (s.transfer .cmd).outstandingPacket = true → handling = true
  notChained : handling = false → (s.endpoint .picobootOut).chainTransfer = none

/-- Which transfers run where, and with which functions. -/
structure PicobootLinks (handling : Bool) (s : PicobootState) : Prop where
  wired : PicobootWired s
  inNotCmd : (s.endpoint .picobootIn).currentTransfer ≠ some .cmd
  cmd : (s.endpoint .picobootOut).currentTransfer = some .cmd → CommandTransfer handling s
  ack : ∀ e, (s.endpoint e).currentTransfer = some .ack →
    (s.transfer .ack).type.onPacket = .currentPacketOnly ∧
      (s.transfer .ack).onComplete = some .tfWaitCommand
  stream : ∀ e, s.Streams e →
    (s.transfer .stream).type.onPacket = .driver .streamPacketHandler ∧
      (s.transfer .stream).onComplete = some .tfAck

/-- The task in the queue is to acknowledge the command of the status block. -/
def PicobootClient.Owes (K : PicobootClient) : Prop :=
  K.picoboot.queue.full = true ∧ K.picoboot.queue.task.callback = .atcAck ∧
    K.taskGeneration = K.generation

/-- The generation that a task of the worker is to acknowledge. -/
def CommandWorker.owes : CommandWorker → Option ℕ
  | .took task generation => if task.callback = .atcAck then some generation else none
  | .ran task generation => if task.callback = .atcAck then some generation else none
  | .idle => none

theorem CommandWorker.owes_took {task : AsyncTask} {generation n : ℕ} :
    (CommandWorker.took task generation).owes = some n ↔
      task.callback = .atcAck ∧ generation = n := by
  simp [owes]

/-- Who is to acknowledge the command of the status block : one of its task, the worker and its
stream, or none of them if it is acknowledged. `owed` is the generation of the worker. -/
structure PicobootAcks (owed : Option ℕ) (s : PicobootState) : Prop where
  le : ∀ n ∈ s.client.acks, n ≤ s.client.generation
  nodup : s.client.acks.Nodup
  owedLe : ∀ n ∈ owed, n ≤ s.client.generation
  taskLe : s.client.picoboot.queue.full = true → s.client.taskGeneration ≤ s.client.generation
  streamGeneration : ∀ e, s.Streams e → s.client.streamGeneration = s.client.generation
  acked : s.client.generation ∈ s.client.acks →
    ¬s.client.Owes ∧ owed ≠ some s.client.generation ∧ ∀ e, ¬s.Streams e
  task : s.client.Owes → owed ≠ some s.client.generation ∧ ∀ e, ¬s.Streams e
  worker : owed = some s.client.generation → ∀ e, ¬s.Streams e
  stream : ∀ e e', s.Streams e → s.Streams e' → e = e'

/-- What holds while the endpoints run by themselves : the generation is the same, and all the
acknowledgements since are of it. -/
structure PicobootInv (handling : Bool) (owed : Option ℕ) (generation : ℕ) (base : List ℕ)
    (s : PicobootState) : Prop where
  links : PicobootLinks handling s
  acks : PicobootAcks owed s
  current : s.client.generation = generation
  since : ∃ acks, s.client.acks = base ++ acks ∧ ∀ n ∈ acks, n = generation

/-! ## Transfers that end -/

/-- The endpoint has the same transfer or none. -/
structure UsbEndpoint.EndsFrom {τ ν : Type} (E' E : UsbEndpoint τ ν) : Prop where
  isIn : E'.isIn = E.isIn
  doubleBuffered : E'.doubleBuffered = E.doubleBuffered
  defaultTransfer : E'.defaultTransfer = E.defaultTransfer
  onStallChange : E'.onStallChange = E.onStallChange
  current : E'.currentTransfer = E.currentTransfer ∨ E'.currentTransfer = none
  chain : E'.chainTransfer = E.chainTransfer

/-- The same accounts of generations and acknowledgements. -/
structure PicobootClient.SameAccounts (K' K : PicobootClient) : Prop where
  queue : K'.picoboot.queue = K.picoboot.queue
  generation : K'.generation = K.generation
  streamGeneration : K'.streamGeneration = K.streamGeneration
  taskGeneration : K'.taskGeneration = K.taskGeneration
  acks : K'.acks = K.acks

/-- The same transfers run, but for those that have ended. -/
structure UsbState.EndsFrom (s' s : PicobootState) : Prop where
  endpoint : ∀ e, (s'.endpoint e).EndsFrom (s.endpoint e)
  kind : ∀ t, (s'.transfer t).type = (s.transfer t).type ∧
    (s'.transfer t).onComplete = (s.transfer t).onComplete
  cmd : (s'.endpoint .picobootOut).currentTransfer = some .cmd →
    (s'.transfer .cmd).remainingPacketsToHandle = (s.transfer .cmd).remainingPacketsToHandle ∧
      (s'.transfer .cmd).packetQueued = (s.transfer .cmd).packetQueued ∧
      (s'.transfer .cmd).completed = (s.transfer .cmd).completed ∧
      ((s'.transfer .cmd).outstandingPacket = true → (s.transfer .cmd).outstandingPacket = true)
  client : s'.client.SameAccounts s.client

section Ends

variable {handling : Bool} {owed : Option ℕ} {generation : ℕ} {base : List ℕ}
  {s s' s'' : PicobootState} {e : PicobootEndpoint} {t : PicobootTransfer}

theorem UsbEndpoint.SameLinks.endsFrom {τ ν : Type} {E' E : UsbEndpoint τ ν}
    (h : E'.SameLinks E) : E'.EndsFrom E :=
  ⟨h.isIn, h.doubleBuffered, h.defaultTransfer, h.onStallChange, .inl h.currentTransfer,
    h.chainTransfer⟩

theorem UsbEndpoint.EndsFrom.refl {τ ν : Type} (E : UsbEndpoint τ ν) : E.EndsFrom E :=
  ⟨rfl, rfl, rfl, rfl, .inl rfl, rfl⟩

theorem PicobootClient.SameAccounts.refl (K : PicobootClient) : K.SameAccounts K :=
  ⟨rfl, rfl, rfl, rfl, rfl⟩

theorem PicobootClient.SameAccounts.owes {K' K : PicobootClient} (h : K'.SameAccounts K)
    (howes : K'.Owes) : K.Owes := by
  unfold PicobootClient.Owes at howes ⊢
  rwa [h.queue, h.generation, h.taskGeneration] at howes

namespace UsbState.EndsFrom

theorem current_eq (h : s'.EndsFrom s) (ht : (s'.endpoint e).currentTransfer = some t) :
    (s.endpoint e).currentTransfer = some t := by
  rcases (h.endpoint e).current with heq | hnone
  · exact heq.symm.trans ht
  · rw [hnone] at ht
    cases ht

theorem streams (h : s'.EndsFrom s) (hs : s'.Streams e) : s.Streams e := by
  rcases hs with hstream | ⟨hcmd, hchain⟩
  · exact .inl (h.current_eq hstream)
  · exact .inr ⟨h.current_eq hcmd, (h.endpoint e).chain ▸ hchain⟩

theorem wired (h : s'.EndsFrom s) (hw : PicobootWired s) : PicobootWired s' where
  isIn e := (h.endpoint e).isIn.trans (hw.isIn e)
  doubleBuffered e := (h.endpoint e).doubleBuffered.trans (hw.doubleBuffered e)
  onStallChange e := (h.endpoint e).onStallChange.trans (hw.onStallChange e)
  defaultTransfer e := (h.endpoint e).defaultTransfer.trans (hw.defaultTransfer e)
  cmdType := (h.kind .cmd).1.trans hw.cmdType

/-- An endpoint is changed. -/
theorem of_endpoint {E : UsbEndpoint PicobootTransfer PicobootFunction}
    (hE : E.EndsFrom (s.endpoint e)) : (s.modifyEndpoint e fun _ => E).EndsFrom s where
  endpoint e' := by
    by_cases h : e' = e
    · subst h
      rwa [modifyEndpoint_endpoint_self]
    · rw [modifyEndpoint_endpoint_of_ne _ _ _ _ h]
      exact .refl _
  kind _ := ⟨rfl, rfl⟩
  cmd _ := ⟨rfl, rfl, rfl, fun h => h⟩
  client := .refl _

/-- A transfer is changed. -/
theorem of_transfer {T : UsbTransfer PicobootFunction} (htype : T.type = (s.transfer t).type)
    (hcomplete : T.onComplete = (s.transfer t).onComplete)
    (hcmd : (s.endpoint .picobootOut).currentTransfer = some .cmd → t = .cmd →
      T.remainingPacketsToHandle = (s.transfer .cmd).remainingPacketsToHandle ∧
        T.packetQueued = (s.transfer .cmd).packetQueued ∧
        T.completed = (s.transfer .cmd).completed ∧
        (T.outstandingPacket = true → (s.transfer .cmd).outstandingPacket = true)) :
    (s.modifyTransfer t fun _ => T).EndsFrom s where
  endpoint _ := .refl _
  kind t' := by
    by_cases h : t' = t
    · subst h
      rw [modifyTransfer_transfer_self]
      exact ⟨htype, hcomplete⟩
    · rw [modifyTransfer_transfer_of_ne _ _ _ _ h]
      exact ⟨rfl, rfl⟩
  cmd hcurrent := by
    by_cases h : t = .cmd
    · subst h
      rw [modifyTransfer_transfer_self]
      exact hcmd hcurrent rfl
    · rw [modifyTransfer_transfer_of_ne _ _ _ _ (Ne.symm h)]
      exact ⟨rfl, rfl, rfl, fun h => h⟩
  client := .refl _

theorem of_client {f : PicobootClient → PicobootClient} (hf : (f s.client).SameAccounts s.client) :
    (s.modifyClient f).EndsFrom s where
  endpoint _ := .refl _
  kind _ := ⟨rfl, rfl⟩
  cmd _ := ⟨rfl, rfl, rfl, fun h => h⟩
  client := hf

/-- Buffers are given to the hardware. -/
theorem of_bookkept (h : s'.Bookkept s e t) : s'.EndsFrom s where
  endpoint e' := by
    by_cases he : e' = e
    · subst he
      exact h.links.endsFrom
    · rw [h.endpoint e' he]
      exact .refl _
  kind t' := by
    by_cases ht : t' = t
    · subst ht
      exact ⟨h.handling.type, h.handling.onComplete⟩
    · rw [h.transfer t' ht]
      exact ⟨rfl, rfl⟩
  cmd _ := by
    by_cases ht : .cmd = t
    · subst ht
      exact ⟨h.handling.handle, h.handling.queued, h.handling.completed,
        fun hout => h.handling.outstanding ▸ hout⟩
    · rw [h.transfer _ ht]
      exact ⟨rfl, rfl, rfl, fun hout => hout⟩
  client := by
    rw [h.client]
    exact .refl _

theorem trans (h' : s''.EndsFrom s') (h : s'.EndsFrom s) : s''.EndsFrom s where
  endpoint e :=
    { isIn := (h'.endpoint e).isIn.trans (h.endpoint e).isIn
      doubleBuffered := (h'.endpoint e).doubleBuffered.trans (h.endpoint e).doubleBuffered
      defaultTransfer := (h'.endpoint e).defaultTransfer.trans (h.endpoint e).defaultTransfer
      onStallChange := (h'.endpoint e).onStallChange.trans (h.endpoint e).onStallChange
      current := by
        rcases (h'.endpoint e).current with heq | hnone
        · rw [heq]
          exact (h.endpoint e).current
        · exact .inr hnone
      chain := (h'.endpoint e).chain.trans (h.endpoint e).chain }
  kind t := ⟨(h'.kind t).1.trans (h.kind t).1, (h'.kind t).2.trans (h.kind t).2⟩
  cmd ht := by
    obtain ⟨h1, h2, h3, h4⟩ := h'.cmd ht
    obtain ⟨g1, g2, g3, g4⟩ := h.cmd (h'.current_eq ht)
    exact ⟨h1.trans g1, h2.trans g2, h3.trans g3, fun ho => g4 (h4 ho)⟩
  client :=
    { queue := h'.client.queue.trans h.client.queue
      generation := h'.client.generation.trans h.client.generation
      streamGeneration := h'.client.streamGeneration.trans h.client.streamGeneration
      taskGeneration := h'.client.taskGeneration.trans h.client.taskGeneration
      acks := h'.client.acks.trans h.client.acks }

/-- The current transfer of an endpoint ends. -/
theorem ended {T : UsbTransfer PicobootFunction} (ht : (s.endpoint e).currentTransfer = some t)
    (hin : (s.endpoint .picobootIn).currentTransfer ≠ some .cmd)
    (htype : T.type = (s.transfer t).type) (hcomplete : T.onComplete = (s.transfer t).onComplete) :
    ((s.modifyEndpoint e fun E => E.setTransfer none).modifyTransfer t fun _ => T).EndsFrom s := by
  have hends : (s.modifyEndpoint e fun E => E.setTransfer none).EndsFrom s :=
    .of_endpoint ⟨rfl, rfl, rfl, rfl, .inr rfl, rfl⟩
  refine trans (.of_transfer htype hcomplete ?_) hends
  rintro hcur rfl
  cases e with
  | picobootIn => exact absurd ht hin
  | picobootOut => simp at hcur

end UsbState.EndsFrom

theorem PicobootLinks.endsFrom (h : PicobootLinks handling s) (hs' : s'.EndsFrom s) :
    PicobootLinks handling s' where
  wired := hs'.wired h.wired
  inNotCmd ht := h.inNotCmd (hs'.current_eq ht)
  cmd ht := by
    obtain ⟨hhandle, hqueued, hcompleted, hout⟩ := hs'.cmd ht
    have hc := h.cmd (hs'.current_eq ht)
    have hchain := (hs'.endpoint .picobootOut).chain
    exact
      { chain := by rw [hchain]; exact hc.chain
        onComplete := (hs'.kind .cmd).2.trans hc.onComplete
        handle := hhandle.trans hc.handle
        queued := hqueued.trans hc.queued
        notCompleted := hcompleted.trans hc.notCompleted
        outstanding := fun h => hc.outstanding (hout h)
        notChained := by rw [hchain]; exact hc.notChained }
  ack e ht := by
    rw [(hs'.kind .ack).1, (hs'.kind .ack).2]
    exact h.ack e (hs'.current_eq ht)
  stream e ht := by
    rw [(hs'.kind .stream).1, (hs'.kind .stream).2]
    exact h.stream e (hs'.streams ht)

/-- Streams may end, with the accounts as they are. -/
theorem PicobootAcks.of_streams (h : PicobootAcks owed s)
    (hstreams : ∀ e, s'.Streams e → s.Streams e)
    (hclient : s'.client.SameAccounts s.client) : PicobootAcks owed s' := by
  have howes := hclient.owes
  obtain ⟨hqueue, hgeneration, hstream, htask, hacks⟩ := hclient
  exact
    { le := by rw [hacks, hgeneration]; exact h.le
      nodup := by rw [hacks]; exact h.nodup
      owedLe := by rw [hgeneration]; exact h.owedLe
      taskLe := by rw [hqueue, htask, hgeneration]; exact h.taskLe
      streamGeneration := fun e ht => by
        rw [hstream, hgeneration]
        exact h.streamGeneration e (hstreams e ht)
      acked := fun hmem => by
        rw [hacks, hgeneration] at hmem
        obtain ⟨h1, h2, h3⟩ := h.acked hmem
        exact ⟨mt howes h1, by rwa [hgeneration], fun e => mt (hstreams e) (h3 e)⟩
      task := fun ht => by
        obtain ⟨h1, h2⟩ := h.task (howes ht)
        exact ⟨by rwa [hgeneration], fun e => mt (hstreams e) (h2 e)⟩
      worker := fun hw e => by
        rw [hgeneration] at hw
        exact mt (hstreams e) (h.worker hw e)
      stream := fun e e' ht ht' => h.stream e e' (hstreams e ht) (hstreams e' ht') }

theorem PicobootInv.endsFrom (h : PicobootInv handling owed generation base s)
    (hs' : s'.EndsFrom s) : PicobootInv handling owed generation base s' where
  links := h.links.endsFrom hs'
  acks := h.acks.of_streams (fun _ => hs'.streams) hs'.client
  current := hs'.client.generation.trans h.current
  since := by
    rw [hs'.client.acks]
    exact h.since

end Ends

/-! ## The invariant of the endpoints -/

section Invariant

variable {handling : Bool} {owed : Option ℕ} {generation : ℕ} {base : List ℕ}
  {s s' : PicobootState} {e : PicobootEndpoint} {t : PicobootTransfer} {depth : ℕ}

theorem PicobootLinks.ne_cmd (h : PicobootLinks handling s)
    (ht : (s.endpoint .picobootIn).currentTransfer = some t) : t ≠ .cmd := by
  rintro rfl
  exact h.inNotCmd ht

theorem picobootKept : UsbKept (fun t : PicobootTransfer => t ≠ .cmd)
    (PicobootInv handling owed generation base) where
  endpoint h hE := h.endsFrom (.of_endpoint hE.endsFrom)
  transfer h ht hT := h.endsFrom
    (.of_transfer hT.type hT.onComplete fun _ heq => absurd heq ht)
  submit h := h.endsFrom (.of_transfer rfl rfl fun _ heq => by
    subst heq
    exact ⟨rfl, rfl, rfl, fun h => h⟩)
  done h := h.endsFrom (.of_transfer rfl rfl fun _ heq => by
    subst heq
    exact ⟨rfl, rfl, rfl, fun h => by cases h⟩)
  queued {s e t} h ht hqueued := by
    rintro rfl
    cases e with
    | picobootIn => exact h.links.inNotCmd ht
    | picobootOut =>
      rw [(h.links.cmd ht).queued] at hqueued
      cases hqueued
  served {s e t} h ht hin := by
    rw [h.links.wired.isIn e, decide_eq_true_eq] at hin
    subst hin
    exact h.links.ne_cmd ht
  halted {s e t} h ht _ := by
    have heq : (s.completeTransfer e t).modifyTransfer t UsbTransfer.dropPackets =
        (s.modifyEndpoint e fun E => E.setTransfer none).modifyTransfer t fun _ =>
          (s.transfer t).complete.dropPackets := by
      simp [UsbState.completeTransfer, UsbState.modifyEndpoint, UsbState.modifyTransfer]
    rw [heq]
    exact h.endsFrom (.ended ht h.links.inNotCmd rfl rfl)
  handled {s e t} h ht hzero := by
    cases t with
    | cmd =>
      cases e with
      | picobootIn => exact absurd ht h.links.inNotCmd
      | picobootOut =>
        rw [(h.links.cmd ht).handle] at hzero
        exact absurd hzero (by decide)
    | ack =>
      rw [(h.links.ack e ht).2]
      exact Option.some_ne_none _
    | stream =>
      rw [(h.links.stream e (.inl ht)).2]
      exact Option.some_ne_none _

/-- The links are those of the endpoints and the transfers. -/
theorem PicobootLinks.congr (h : PicobootLinks handling s) (hendpoint : s'.endpoint = s.endpoint)
    (htransfer : s'.transfer = s.transfer) : PicobootLinks handling s' := by
  obtain ⟨E, T, n, K⟩ := s
  obtain ⟨E', T', n', K'⟩ := s'
  subst hendpoint htransfer
  exact ⟨⟨h.wired.1, h.wired.2, h.wired.3, h.wired.4, h.wired.5⟩, h.inNotCmd,
    fun ht => ⟨(h.cmd ht).1, (h.cmd ht).2, (h.cmd ht).3, (h.cmd ht).4, (h.cmd ht).5, (h.cmd ht).6,
      (h.cmd ht).7⟩, h.ack, h.stream⟩

/-- A chunk of the stream that runs is queued. -/
theorem PicobootInv.onStreamChunk (h : PicobootInv handling owed generation base s)
    (hstreams : s.Streams e) (chunkLen : Word) :
    PicobootInv handling owed generation base
      (s.modifyClient (PicobootClient.onStreamChunk chunkLen)) where
  links := h.links.congr rfl rfl
  acks :=
    { le := h.acks.le
      nodup := h.acks.nodup
      owedLe := h.acks.owedLe
      taskLe := fun _ => Nat.le_of_eq (h.acks.streamGeneration e hstreams)
      streamGeneration := h.acks.streamGeneration
      acked := fun hmem => absurd hstreams ((h.acks.acked hmem).2.2 e)
      task := fun howes => by cases howes.2.1
      worker := h.acks.worker
      stream := h.acks.stream }
  current := h.current
  since := h.since

theorem PicobootInv.packetHandlerComplete {c : PicobootCalls}
    (hc : c.Keeps (fun t : PicobootTransfer => t ≠ .cmd)
      (PicobootInv handling owed generation base))
    (h : PicobootInv handling owed generation base s)
    (hs' : picobootStream.packetHandlerComplete c e s = .ok s') :
    PicobootInv handling owed generation base s' := by
  have hfetch : PicobootInv handling owed generation base (usbCurrentPacketBuffer e s) :=
    h.endsFrom (.of_endpoint (UsbEndpoint.fetchBuffer_sameLinks _).endsFrom)
  unfold UsbStream.packetHandlerComplete at hs'
  dsimp only at hs'
  generalize usbCurrentPacketBuffer e s = s₁ at hfetch hs'
  split at hs'
  · refine picobootKept.packetDone hc ?_ hs'
    have hfill : PicobootInv handling owed generation base (s₁.modifyEndpoint e fun E =>
        E.fillBuffer (picobootStream.load s₁.client)) :=
      hfetch.endsFrom (.of_endpoint ⟨rfl, rfl, rfl, rfl, .inl rfl, rfl⟩)
    exact hfill.endsFrom (.of_client ⟨rfl, rfl, rfl, rfl, rfl⟩)
  · exact picobootKept.packetDone hc (hfetch.endsFrom (.of_client ⟨rfl, rfl, rfl, rfl, rfl⟩)) hs'

theorem PicobootInv.packetHandler {c : PicobootCalls}
    (hc : c.Keeps (fun t : PicobootTransfer => t ≠ .cmd)
      (PicobootInv handling owed generation base))
    (h : PicobootInv handling owed generation base s)
    (ht : (s.endpoint e).currentTransfer = some .stream)
    (hs' : picobootStream.packetHandler c e s = .ok s') :
    PicobootInv handling owed generation base s' := by
  unfold UsbStream.packetHandler at hs'
  dsimp only at hs'
  generalize (picobootStream.transfer s.client).chunkLen (s.endpoint e).isIn = chunkLen at hs'
  obtain ⟨s₁, h₁, ht₁, hs'⟩ : ∃ s₁, PicobootInv handling owed generation base s₁ ∧
      (s₁.endpoint e).currentTransfer = some .stream ∧
      (if (picobootStream.callOnChunk chunkLen s₁.client).2 then
        .ok (s₁.modifyClient fun _ => (picobootStream.callOnChunk chunkLen s₁.client).1)
      else picobootStream.packetHandlerComplete c e
        (s₁.modifyClient fun _ => (picobootStream.callOnChunk chunkLen s₁.client).1)) =
          Except.ok s' := by
    split at hs'
    · exact ⟨s, h, ht, hs'⟩
    · have hlinks := UsbEndpoint.fetchBuffer_sameLinks (s.endpoint e)
      have hfetch : PicobootInv handling owed generation base (usbCurrentPacketBuffer e s) :=
        h.endsFrom (.of_endpoint hlinks.endsFrom)
      refine ⟨_, hfetch.endsFrom (.of_client ⟨rfl, rfl, rfl, rfl, rfl⟩), ?_, hs'⟩
      simp [usbCurrentPacketBuffer, hlinks.currentTransfer, ht]
  by_cases hlen : chunkLen = 0
  · rw [show picobootStream.callOnChunk chunkLen s₁.client = (s₁.client, false) from
      if_neg (not_not_intro hlen)] at hs'
    exact h₁.packetHandlerComplete hc hs'
  · rw [show picobootStream.callOnChunk chunkLen s₁.client =
      (s₁.client.onStreamChunk chunkLen, true) from if_pos hlen] at hs'
    cases hs'
    exact h₁.onStreamChunk (.inl ht₁) chunkLen

theorem PicobootWired.of_wiring (h : PicobootWired s)
    (hwiring : ∀ e, (s'.endpoint e).SameWiring (s.endpoint e))
    (hcmd : (s'.transfer .cmd).type = (s.transfer .cmd).type) : PicobootWired s' where
  isIn e := (hwiring e).isIn.trans (h.isIn e)
  doubleBuffered e := (hwiring e).doubleBuffered.trans (h.doubleBuffered e)
  onStallChange e := (hwiring e).onStallChange.trans (h.onStallChange e)
  defaultTransfer e := (hwiring e).defaultTransfer.trans (h.defaultTransfer e)
  cmdType := hcmd.trans h.cmdType

/-- The acknowledgement is started, on an endpoint with any transfer. -/
theorem PicobootLinks.ack_started (h : PicobootLinks handling s) (ep : PicobootEndpoint)
    (hstreams : ∀ e, ¬s.Streams e) :
    PicobootLinks handling (s.armedEmpty ep .ack (some .tfWaitCommand)) ∧
      ∀ e, ¬(s.armedEmpty ep .ack (some .tfWaitCommand)).Streams e := by
  have hother {t : PicobootTransfer} (ht : t ≠ .ack) :=
    s.armedEmpty_transfer_of_ne ep .ack (some .tfWaitCommand) ht
  have hcurrent (e : PicobootEndpoint) {t : PicobootTransfer} (ht : t ≠ .ack)
      (hcur : ((s.armedEmpty ep .ack (some .tfWaitCommand)).endpoint e).currentTransfer = some t) :
      (s.armedEmpty ep .ack (some .tfWaitCommand)).endpoint e = s.endpoint e := by
    by_cases he : e = ep
    · subst he
      rw [UsbState.armedEmpty_currentTransfer] at hcur
      exact absurd (Option.some.inj hcur).symm ht
    · exact s.armedEmpty_endpoint_of_ne ep .ack _ he
  have hnone (e : PicobootEndpoint) :
      ¬(s.armedEmpty ep .ack (some .tfWaitCommand)).Streams e := by
    rintro (hcur | ⟨hcur, hchain⟩)
    · rw [hcurrent e (by decide) hcur] at hcur
      exact hstreams e (.inl hcur)
    · have heq := hcurrent e (by decide) hcur
      rw [heq] at hcur hchain
      exact hstreams e (.inr ⟨hcur, hchain⟩)
  refine ⟨?_, hnone⟩
  exact
    { wired := h.wired.of_wiring (s.armedEmpty_sameWiring ep .ack _)
        (congrArg UsbTransfer.type (hother (by decide)))
      inNotCmd := fun hcur => by
        rw [hcurrent _ (by decide) hcur] at hcur
        exact h.inNotCmd hcur
      cmd := fun hcur => by
        have heq := hcurrent _ (by decide) hcur
        rw [heq] at hcur
        have hc := h.cmd hcur
        refine ⟨?_, ?_, ?_, ?_, ?_, ?_, ?_⟩
        · rw [heq]
          exact hc.chain
        · rw [hother (by decide)]
          exact hc.onComplete
        · rw [hother (by decide)]
          exact hc.handle
        · rw [hother (by decide)]
          exact hc.queued
        · rw [hother (by decide)]
          exact hc.notCompleted
        · rw [hother (by decide)]
          exact hc.outstanding
        · rw [heq]
          exact hc.notChained
      ack := fun e _ => by
        rw [UsbState.armedEmpty_type, UsbState.armedEmpty_onComplete]
        exact ⟨rfl, rfl⟩
      stream := fun e hs => absurd hs (hnone e) }

/-- Nobody is to acknowledge the command of the status block, and it is not acknowledged. -/
structure PicobootPending (owed : Option ℕ) (s : PicobootState) : Prop where
  owes : ¬s.client.Owes
  owed : owed ≠ some s.client.generation
  streams : ∀ e, ¬s.Streams e
  notAcked : s.client.generation ∉ s.client.acks

/-- The stream of the command of the status block has ended. -/
theorem PicobootAcks.pending (h : PicobootAcks owed s) (hs : s.Streams e) (hends : s'.EndsFrom s)
    (hnone : ∀ e, ¬s'.Streams e) : PicobootPending owed s' where
  owes howes := (h.task (hends.client.owes howes)).2 e hs
  owed howed := by
    rw [hends.client.generation] at howed
    exact h.worker howed e hs
  streams := hnone
  notAcked hmem := by
    rw [hends.client.generation, hends.client.acks] at hmem
    exact (h.acked hmem).2.2 e hs

/-- `_picoboot_ack`, if it returns. -/
theorem PicobootInv.acknowledge (h : PicobootInv handling owed generation base s)
    (hp : PicobootPending owed s)
    (hs' : picobootAck (usbCalls picobootDriver depth) s = .ok s') :
    PicobootInv handling owed generation base s' := by
  obtain ⟨hlinks, hnone⟩ := PicobootLinks.ack_started (s := s.modifyClient PicobootClient.ack)
    (h.links.congr rfl rfl) s.client.status.ackEndpoint hp.streams
  have heq := usbStartEmptyTransfer_ok hs'
  have hclient : s'.client = s.client.ack := by
    rw [heq, UsbState.armedEmpty_client]
    rfl
  rw [← heq] at hlinks hnone
  exact
    { links := hlinks
      acks :=
        { le := fun n hn => by
            rw [hclient] at hn ⊢
            rcases List.mem_append.1 hn with hmem | hmem
            · exact h.acks.le n hmem
            · exact Nat.le_of_eq (List.mem_singleton.1 hmem)
          nodup := by
            rw [hclient]
            refine List.nodup_append.2 ⟨h.acks.nodup, List.pairwise_singleton _ _, fun n hn m hm => ?_⟩
            rintro rfl
            rw [List.mem_singleton.1 hm] at hn
            exact hp.notAcked hn
          owedLe := by rw [hclient]; exact h.acks.owedLe
          taskLe := by rw [hclient]; exact h.acks.taskLe
          streamGeneration := fun e hs => absurd hs (hnone e)
          acked := fun _ => by rw [hclient]; exact ⟨hp.owes, hp.owed, hnone⟩
          task := fun _ => by rw [hclient]; exact ⟨hp.owed, hnone⟩
          worker := fun _ => hnone
          stream := fun e _ hs => absurd hs (hnone e) }
      current := by rw [hclient]; exact h.current
      since := by
        obtain ⟨acks, hacks, hgen⟩ := h.since
        refine ⟨acks ++ [s.client.generation], ?_, fun n hn => ?_⟩
        · rw [hclient]
          change s.client.acks ++ [s.client.generation] = _
          rw [hacks, List.append_assoc]
        · rcases List.mem_append.1 hn with hmem | hmem
          · exact hgen n hmem
          · rw [List.mem_singleton.1 hmem, h.current] }

/-- The transfer of the commands before it is started. -/
def UsbState.resetCommand (s : PicobootState) : PicobootState :=
  s.modifyTransfer .cmd fun _ => UsbTransfer.reset ⟨.driver .cmdPacket, 1⟩ none

theorem UsbState.Bookkept.sameWiring {ε τ ν κ : Type} [DecidableEq ε] [DecidableEq τ]
    {s s' : UsbState ε τ ν κ} {e : ε} {t : τ} (h : s'.Bookkept s e t) (e' : ε) :
    (s'.endpoint e').SameWiring (s.endpoint e') := by
  by_cases he : e' = e
  · subst he
    exact h.links.wiring
  · rw [h.endpoint e' he]
    exact .refl _

/-- The transfer of the commands takes the place of any other one. -/
theorem UsbState.armCommand_streams
    (hs' : s'.Bookkept (s.resetCommand.started .picobootOut .cmd) .picobootOut .cmd)
    (hs : s'.Streams e) : s.Streams e ∧ e ≠ .picobootOut := by
  cases e with
  | picobootIn =>
    have hin : s'.endpoint .picobootIn = s.endpoint .picobootIn := by
      rw [hs'.endpoint _ (by decide), UsbState.started_endpoint_of_ne (by decide)]
      rfl
    unfold UsbState.Streams at hs ⊢
    rw [hin] at hs
    exact ⟨hs, by decide⟩
  | picobootOut =>
    have hcurrent := hs'.links.currentTransfer
    have hchain := hs'.links.chainTransfer
    rcases hs with hcur | ⟨-, hch⟩
    · rw [hcurrent] at hcur
      simp at hcur
    · rw [hchain] at hch
      simp at hch

/-- The transfer of the commands is started, on `picoboot_out` with any transfer. -/
theorem PicobootInv.armCommand (h : PicobootInv handling owed generation base s)
    (hs' : s'.Bookkept (s.resetCommand.started .picobootOut .cmd) .picobootOut .cmd) :
    PicobootInv handling owed generation base s' := by
  have hcurrent : (s'.endpoint .picobootOut).currentTransfer = some .cmd := by
    rw [hs'.links.currentTransfer]
    simp
  have hchain : (s'.endpoint .picobootOut).chainTransfer = none := by
    rw [hs'.links.chainTransfer]
    simp
  have hin : s'.endpoint .picobootIn = s.endpoint .picobootIn := by
    rw [hs'.endpoint _ (by decide), UsbState.started_endpoint_of_ne (by decide)]
    rfl
  have hother {t : PicobootTransfer} (ht : t ≠ .cmd) : s'.transfer t = s.transfer t := by
    rw [hs'.transfer t ht, UsbState.started_transfer_of_ne ht]
    exact UsbState.modifyTransfer_transfer_of_ne _ _ _ _ ht
  have hcmd : (s'.transfer .cmd).SameHandling
      (UsbTransfer.reset ⟨.driver .cmdPacket, 1⟩ none : UsbTransfer PicobootFunction).start := by
    have hhandling := hs'.handling
    simpa [UsbState.resetCommand] using hhandling
  have hne {e : PicobootEndpoint} {t : PicobootTransfer} (ht : t ≠ .cmd)
      (hcur : (s'.endpoint e).currentTransfer = some t) :
      s'.endpoint e = s.endpoint e := by
    cases e with
    | picobootIn => exact hin
    | picobootOut =>
      rw [hcurrent] at hcur
      exact absurd (Option.some.inj hcur).symm ht
  have hstreams (e : PicobootEndpoint) (hs : s'.Streams e) : s.Streams e :=
    (UsbState.armCommand_streams hs' hs).1
  have hclient : s'.client.SameAccounts s.client := by
    rw [hs'.client]
    exact .refl _
  exact
    { links :=
        { wired := h.links.wired.of_wiring
            (fun e => (hs'.sameWiring e).trans (UsbState.started_sameWiring _ _ _ e))
            (hcmd.type.trans h.links.wired.cmdType.symm)
          inNotCmd := by
            rw [hin]
            exact h.links.inNotCmd
          cmd := fun _ =>
            { chain := fun t ht => by
                rw [hchain] at ht
                cases ht
              onComplete := hcmd.onComplete
              handle := hcmd.handle
              queued := hcmd.queued
              notCompleted := hcmd.completed
              outstanding := fun hout => by
                rw [hcmd.outstanding] at hout
                cases hout
              notChained := fun _ => hchain }
          ack := fun e hcur => by
            rw [hother (by decide)]
            rw [hne (by decide) hcur] at hcur
            exact h.links.ack e hcur
          stream := fun e hs => by
            rw [hother (by decide)]
            exact h.links.stream e (hstreams e hs) }
      acks := h.acks.of_streams hstreams hclient
      current := hclient.generation.trans h.current
      since := by
        rw [hclient.acks]
        exact h.since }

theorem PicobootWired.isIn_out (h : PicobootWired s) :
    (s.endpoint .picobootOut).isIn = false := by
  rw [h.isIn]
  rfl

/-- The default transfer of `picoboot_out` is the one of the commands. -/
theorem PicobootWired.startDefault (h : PicobootWired s)
    (hs' : usbStartDefaultTransfer (usbCalls picobootDriver depth) .picobootOut s = .ok s') :
    s'.Bookkept (s.resetCommand.started .picobootOut .cmd) .picobootOut .cmd := by
  unfold usbStartDefaultTransfer at hs'
  rw [h.defaultTransfer, if_pos rfl] at hs'
  dsimp only at hs'
  rw [h.cmdType] at hs'
  exact usbStartTransfer_out_ok (s := s.resetCommand) h.isIn_out hs'

/-- `_tf_picoboot_wait_command`, if it returns. -/
theorem PicobootWired.waitCommand (h : PicobootWired s)
    (hs' : tfPicobootWaitCommand (usbCalls picobootDriver depth) s = .ok s') :
    s' = s ∨ s'.Bookkept (s.resetCommand.started .picobootOut .cmd) .picobootOut .cmd := by
  unfold tfPicobootWaitCommand usbStartDefaultTransferIfNotAlreadyRunningOrHalted at hs'
  split at hs'
  · exact .inr (h.startDefault hs')
  · cases hs'
    exact .inl rfl

/-- A transfer that ends takes its stream with it. -/
theorem PicobootInv.complete (h : PicobootInv handling owed generation base s)
    (ht : (s.endpoint e).currentTransfer = some t) :
    (s.completeTransfer e t).EndsFrom s ∧
      (t = .stream → ∀ e', ¬(s.completeTransfer e t).Streams e') := by
  have hends : (s.completeTransfer e t).EndsFrom s := by
    have heq : s.completeTransfer e t =
        (s.modifyEndpoint e fun E => E.setTransfer none).modifyTransfer t fun _ =>
          (s.transfer t).complete := by
      simp [UsbState.completeTransfer, UsbState.modifyEndpoint, UsbState.modifyTransfer]
    rw [heq]
    exact .ended ht h.links.inNotCmd rfl rfl
  refine ⟨hends, ?_⟩
  rintro rfl e' hs
  have he : e' = e := h.acks.stream e' e (hends.streams hs) (.inl ht)
  subst he
  rcases hs with hcur | ⟨hcur, -⟩ <;> simp [UsbState.completeTransfer] at hcur

/-- What the two functions do at the end of a transfer. -/
theorem PicobootInv.onComplete {f : PicobootFunction}
    (h : PicobootInv handling owed generation base s)
    (ht : (s.endpoint e).currentTransfer = some t) (hf : (s.transfer t).onComplete = some f)
    (hs' : picobootDriver (usbCalls picobootDriver depth) f e (s.completeTransfer e t) = .ok s') :
    PicobootInv handling owed generation base s' ∧ s'.Restarted e t := by
  obtain ⟨hends, hstreams⟩ := h.complete ht
  have hcomplete := h.endsFrom hends
  cases t with
  | cmd =>
    cases e with
    | picobootIn => exact absurd ht h.links.inNotCmd
    | picobootOut =>
      rw [(h.links.cmd ht).onComplete] at hf
      cases hf
  | ack =>
    rw [(h.links.ack e ht).2] at hf
    cases hf
    rcases hcomplete.links.wired.waitCommand hs' with rfl | hkept
    · exact ⟨hcomplete, fun hnot => by simp [UsbState.completeTransfer] at hnot⟩
    · refine ⟨hcomplete.armCommand hkept, fun hnot => ?_⟩
      rw [hkept.transfer .ack (by decide), UsbState.started_transfer_of_ne (by decide),
        UsbState.resetCommand, UsbState.modifyTransfer_transfer_of_ne _ _ _ _ (by decide)] at hnot
      simp [UsbState.completeTransfer] at hnot
  | stream =>
    rw [(h.links.stream e (.inl ht)).2] at hf
    cases hf
    have hpending := h.acks.pending (.inl ht) hends (hstreams rfl)
    refine ⟨hcomplete.acknowledge hpending hs', fun hnot => ?_⟩
    rw [usbStartEmptyTransfer_ok hs', UsbState.armedEmpty_transfer_of_ne _ _ _ _ (by decide)] at hnot
    simp [UsbState.completeTransfer] at hnot

/-- The invariant is kept by all functions of the library. -/
theorem picobootInvariant : UsbInvariant picobootDriver (fun t : PicobootTransfer => t ≠ .cmd)
    (PicobootInv handling owed generation base) where
  toUsbKept := picobootKept
  onPacket {c} hc {e t f s s'} h ht hserves htype _ hs' := by
    cases t with
    | cmd => exact absurd rfl hserves
    | ack =>
      rw [(h.links.ack e ht).1] at htype
      cases htype
    | stream =>
      rw [(h.links.stream e (.inl ht)).1] at htype
      cases htype
      exact h.packetHandler hc ht hs'
  onComplete h ht _ hf hs' := h.onComplete ht hf hs'
  unexpected {depth e s s'} h _ hs' := by
    rw [usbHaltEndpoint_eq (h.links.wired.onStallChange e)] at hs'
    cases hs'
    refine h.endsFrom (.of_endpoint ?_)
    rw [UsbEndpoint.halt_eq]
    exact ⟨rfl, rfl, rfl, rfl, .inl rfl, rfl⟩

end Invariant

end PicoBootrom
