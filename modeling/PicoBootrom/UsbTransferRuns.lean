import PicoBootrom.UsbInLine
import PicoBootrom.UsbOutLine

/-!
# Runs of a transfer

A transfer of `n` packets on a double-buffered endpoint, from `usb_start_transfer` to its end, with
the buffers of the hardware and the calls of `usb_packet_done` in any order. The handler logs the
packets that `on_packet` gets and the calls of `on_complete`, and `immediate` says for each call of
`on_packet` whether its packet is done at once.

`TransferOk` is what should hold after every step. It does for OUT transfers (`OutServing`). For IN
transfers it does if the second packet is done at once whenever the first one is (`InServing`) ; if
it is not, `on_packet` is called for it twice by `usb_start_transfer` already.
-/

set_option linter.unusedSectionVars false

namespace PicoBootrom

/-! ## The log -/

/-- The packets that `on_packet` got, and the number of calls of `on_complete`. -/
structure TransferLog where
  seen : List (List Byte) := []
  completions : ℕ := 0
  deriving DecidableEq

/-- The functions of the transfer, and `on_packet` of the chained one. -/
inductive TransferFunction
  | onPacket
  | onComplete
  | nextPacket
  deriving DecidableEq

/-- The calls of `on_packet` are logged. The `k`-th packet of an IN transfer is `packet k`. -/
def logHandler (immediate : ℕ → Bool) (packet : ℕ → List Byte) : UsbHandler TransferLog where
  receive K p := ({ K with seen := K.seen ++ [p] }, immediate K.seen.length)
  finish K _ := (K, packet (K.seen.length - 1))

/-- `on_complete`. -/
def logComplete (K : TransferLog) : TransferLog := { K with completions := K.completions + 1 }

section Runs

variable {ε τ : Type} [DecidableEq ε] [DecidableEq τ]

/-- The chained transfer does not finish its first packet at once. -/
def logDriver (immediate : ℕ → Bool) (packet : ℕ → List Byte) :
    UsbDriver ε τ TransferFunction TransferLog
  | c, .onPacket, e, s => (logHandler immediate packet).onPacket c e s
  | _, .onComplete, _, s => .ok (s.modifyClient logComplete)
  | _, .nextPacket, _, s => .ok s

/-- A transfer on an endpoint, a transfer that may be chained to it, the packets of the host or of
the handler, and which of them are done at once. -/
structure TransferCase (ε τ : Type) where
  endpoint : ε
  transfer : τ
  next : τ
  isIn : Bool
  count : Word
  hasComplete : Bool
  packet : ℕ → List Byte
  immediate : ℕ → Bool

namespace TransferCase

variable (x : TransferCase ε τ)

/-- The functions that the library calls. -/
def calls (depth : ℕ) : UsbCalls ε τ TransferFunction TransferLog :=
  usbCalls (logDriver x.immediate x.packet) depth

/-- The state in which `usb_start_transfer` is called : the endpoint owns both buffers, and the
transfer is reset. -/
structure Ready (s : UsbState ε τ TransferFunction TransferLog) : Prop where
  isIn : (s.endpoint x.endpoint).isIn = x.isIn
  doubleBuffered : (s.endpoint x.endpoint).doubleBuffered = true
  notHalted : (s.endpoint x.endpoint).haltState = .none
  owned : (s.endpoint x.endpoint).ownedBufferCount = 2
  available : (s.endpoint x.endpoint).hw.available = []
  buffer : x.isIn = true → (s.endpoint x.endpoint).currentHwBuffer.valid = true →
    (s.endpoint x.endpoint).currentHwBuffer.which = (s.endpoint x.endpoint).currentGiveBuffer
  onPacket : (s.transfer x.transfer).type.onPacket = .driver .onPacket
  onComplete : (s.transfer x.transfer).onComplete =
    if x.hasComplete then some .onComplete else none
  submit : (s.transfer x.transfer).remainingPacketsToSubmit = x.count
  handle : (s.transfer x.transfer).remainingPacketsToHandle = x.count
  outstanding : (s.transfer x.transfer).outstandingPacket = false
  queued : (s.transfer x.transfer).packetQueued = false
  notCompleted : (s.transfer x.transfer).completed = false
  next_ne : x.next ≠ x.transfer
  nextPacket : (s.transfer x.next).type.onPacket = .driver .nextPacket
  nextNotStarted : (s.transfer x.next).started = false
  log : s.client = {}

/-- The runs of the transfer, with the number of buffers that the hardware has returned. -/
inductive Run (depth : ℕ) (s₀ : UsbState ε τ TransferFunction TransferLog) :
    ℕ → UsbResult (UsbState ε τ TransferFunction TransferLog) → Prop
  | start : Run depth s₀ 0 (usbStartTransfer (x.calls depth) x.endpoint x.transfer s₀)
  /-- `usb_chain_transfer`, which is only for transfers without `on_complete`. -/
  | chain {k : ℕ} {s : UsbState ε τ TransferFunction TransferLog} (h : Run depth s₀ k (.ok s))
      (hcurrent : (s.endpoint x.endpoint).currentTransfer = some x.transfer)
      (hnone : x.hasComplete = false) :
      Run depth s₀ k (.ok (usbChainTransfer x.endpoint x.next s))
  /-- The hardware is done with the first buffer it has. -/
  | buffer {k : ℕ} {s : UsbState ε τ TransferFunction TransferLog} (h : Run depth s₀ k (.ok s))
      (hcurrent : (s.endpoint x.endpoint).currentTransfer = some x.transfer)
      (havail : (s.endpoint x.endpoint).hw.available ≠ []) :
      Run depth s₀ (k + 1) (usbBufferInterrupt (x.calls depth) x.endpoint (x.packet k) s)
  /-- The user of the library calls `usb_packet_done` for the packet that is outstanding. -/
  | done {k : ℕ} {s : UsbState ε τ TransferFunction TransferLog} (h : Run depth s₀ k (.ok s))
      (hcurrent : (s.endpoint x.endpoint).currentTransfer = some x.transfer)
      (houtstanding : (s.transfer x.transfer).outstandingPacket = true) :
      Run depth s₀ k ((logHandler x.immediate x.packet).packetDone (x.calls depth) x.endpoint s)

/-- The number of packets that wait until the one outstanding is done. -/
def queued (s : UsbState ε τ TransferFunction TransferLog) : ℕ :=
  if (s.transfer x.transfer).packetQueued then 1 else 0

/-- The number of packets that are outstanding. -/
def outstanding (s : UsbState ε τ TransferFunction TransferLog) : ℕ :=
  if (s.transfer x.transfer).outstandingPacket then 1 else 0

/-- The number of buffers that the hardware holds. -/
def held (s : UsbState ε τ TransferFunction TransferLog) : ℕ :=
  (s.endpoint x.endpoint).hw.available.length

/-- Nothing was triggered at the end of the transfer yet. -/
def NotTriggered (s : UsbState ε τ TransferFunction TransferLog) : Prop :=
  s.client.completions = 0 ∧ (s.transfer x.next).started = false

/-- `on_complete` was called once if there is one, and else the chained transfer was started if
there is one. -/
def TriggeredOnce (s : UsbState ε τ TransferFunction TransferLog) : Prop :=
  if x.hasComplete then
    s.client.completions = 1 ∧ (s.endpoint x.endpoint).currentTransfer = none ∧
      (s.transfer x.next).started = false
  else
    s.client.completions = 0 ∧
      (((s.endpoint x.endpoint).currentTransfer = some x.next ∧
          (s.endpoint x.endpoint).chainTransfer = none ∧ (s.transfer x.next).started = true) ∨
        ((s.endpoint x.endpoint).currentTransfer = none ∧
          (s.endpoint x.endpoint).chainTransfer = none ∧ (s.transfer x.next).started = false))

/-- While the transfer runs, after `k` buffers : an OUT packet was seen once it came, in order,
unless it waits ; for an IN transfer `on_packet` was called once for each packet submitted and for
the one outstanding ; the counters are those of the packets still to come ; and the end is not
triggered before the last packet is handled and done. -/
structure Running (k : ℕ) (s : UsbState ε τ TransferFunction TransferLog) : Prop where
  current : (s.endpoint x.endpoint).currentTransfer = some x.transfer
  seen : if x.isIn then s.client.seen.length = k + x.held s + x.outstanding s
    else s.client.seen.length + x.queued s = k ∧
      s.client.seen = (List.range s.client.seen.length).map x.packet
  submit : (s.transfer x.transfer).remainingPacketsToSubmit.toNat + k + x.held s = x.count.toNat
  handle : (s.transfer x.transfer).remainingPacketsToHandle.toNat + k =
    x.count.toNat + x.queued s
  owned : (s.endpoint x.endpoint).ownedBufferCount.toNat + x.held s = 2
  pending : x.NotTriggered s
  unfinished : k < x.count.toNat ∨ x.outstanding s = 1

/-- At the end every packet was seen, handled and done, and the end is triggered once. -/
structure Ended (k : ℕ) (s : UsbState ε τ TransferFunction TransferLog) : Prop where
  all : k = x.count.toNat
  seen : if x.isIn then s.client.seen.length = k else s.client.seen = (List.range k).map x.packet
  submit : (s.transfer x.transfer).remainingPacketsToSubmit = 0
  handle : (s.transfer x.transfer).remainingPacketsToHandle = 0
  done : x.outstanding s = 0 ∧ x.queued s = 0
  owned : (s.endpoint x.endpoint).ownedBufferCount.toNat + x.held s = 2
  triggered : x.TriggeredOnce s

/-- What should hold after every step. -/
def TransferOk (k : ℕ) (s : UsbState ε τ TransferFunction TransferLog) : Prop :=
  x.Running k s ∨ x.Ended k s

/-! ## The handler -/

variable {x} {depth : ℕ} {s₀ : UsbState ε τ TransferFunction TransferLog}

/-- What does not change while the transfer runs, with the transfer that was chained. -/
def setup (x : TransferCase ε τ) (s₀ : UsbState ε τ TransferFunction TransferLog)
    (chain : Option τ) : LineSetup τ TransferFunction where
  transfer := x.transfer
  isIn := x.isIn
  defaultTransfer := (s₀.endpoint x.endpoint).defaultTransfer
  onStallChange := (s₀.endpoint x.endpoint).onStallChange
  count := x.count.toNat
  first := (s₀.endpoint x.endpoint).currentGiveBuffer
  onPacket := .onPacket
  onComplete := if x.hasComplete then some .onComplete else none
  chain := chain

/-- The chained transfers of a run. -/
def Chains (x : TransferCase ε τ) (chain : Option τ) : Prop :=
  chain = none ∨ (chain = some x.next ∧ x.hasComplete = false)

theorem Ready.drives (hr : x.Ready s₀) {chain : Option τ} (hc : x.Chains chain) :
    (logHandler x.immediate x.packet).Drives logComplete (logDriver x.immediate x.packet) s₀
      x.endpoint (x.setup s₀ chain) where
  onPacket c s := rfl
  onComplete f hf c s := by
    simp only [setup] at hf
    split at hf
    · cases hf
      rfl
    · cases hf
  chain next hnext := by
    rcases hc with rfl | ⟨rfl, -⟩
    · cases hnext
    · cases hnext
      exact ⟨hr.next_ne, .nextPacket, hr.nextPacket, fun _ _ => rfl⟩

/-- Before the `k`-th packet of an OUT transfer. -/
def outIdle (x : TransferCase ε τ) (k : ℕ) (K : TransferLog) : Prop :=
  K.seen = (List.range k).map x.packet ∧ K.completions = 0

/-- Before the `k`-th packet of an IN transfer. -/
def inIdle (k : ℕ) (K : TransferLog) : Prop := K.seen.length = k ∧ K.completions = 0

theorem serves_out (hlen : ∀ k, (x.packet k).length ≤ 64) :
    (logHandler x.immediate x.packet).Serves false x.count.toNat x.packet x.outIdle
      (fun k => x.outIdle (k + 1)) (fun k => x.outIdle (k + 1)) where
  length_le k _ := hlen k
  receive k _ K hK _ := by
    refine ⟨?_, hK.2⟩
    simp [logHandler, hK.1, UsbHandler.input, List.range_succ]
  atOnce k _ K hK _ := by
    refine ⟨?_, hK.2⟩
    simp [logHandler, hK.1, UsbHandler.input, List.range_succ]
  finish _ _ _ hK := hK
  sends h := by cases h

theorem serves_in (hlen : ∀ k, (x.packet k).length ≤ 64) :
    (logHandler x.immediate x.packet).Serves true x.count.toNat x.packet inIdle
      (fun k => inIdle (k + 1)) (fun k => inIdle (k + 1)) where
  length_le k _ := hlen k
  receive k _ K hK _ := by
    refine ⟨?_, hK.2⟩
    simp [logHandler, hK.1]
  atOnce k _ K hK _ := by
    refine ⟨?_, hK.2⟩
    simp [logHandler, hK.1]
  finish _ _ _ hK := hK
  sends _ k _ K hK := by
    have := hK.1
    simp [logHandler, this]

/-- The second packet is done at once if the first one is. -/
theorem prompt_of (h : x.count = 1 ∨ x.immediate 0 = false ∨ x.immediate 1 = true) :
    (logHandler x.immediate x.packet).Prompt x.count.toNat inIdle := by
  intro hn K hK hnow
  have hnow : x.immediate 0 = true := by simpa [logHandler, hK.1] using hnow
  rcases h with h | h | h
  · rw [h] at hn
    exact absurd hn (by decide)
  · rw [h] at hnow
    cases hnow
  · simpa [logHandler, hK.1] using h

/-- The state after `usb_start_transfer` has set the transfer. -/
theorem Ready.line (hr : x.Ready s₀) :
    UsbLine (x.setup s₀ none)
      (((s₀.endpoint x.endpoint).setTransfer (some x.transfer)).setChain none)
      (s₀.transfer x.transfer).start 0 0 0 where
  current := rfl
  isIn := hr.isIn
  defaultTransfer := rfl
  onStallChange := rfl
  doubleBuffered := hr.doubleBuffered
  notHalted := hr.notHalted
  chain := rfl
  onPacket := hr.onPacket
  onComplete := hr.onComplete
  notCompleted := hr.notCompleted
  submit := by simp [hr.submit, setup]
  handle := by simp [hr.handle, setup]
  owned := by simp [hr.owned]
  available := by simp [hr.available]
  give := by simp [setup]
  returned_le := Nat.le_refl 0

theorem usbStartTransfer_eq (c : UsbCalls ε τ TransferFunction TransferLog) :
    usbStartTransfer c x.endpoint x.transfer s₀ =
      usbGiveAsManyBuffersAsPossible c x.endpoint (s₀.place x.endpoint x.transfer
        (((s₀.endpoint x.endpoint).setTransfer (some x.transfer)).setChain none)
        (s₀.transfer x.transfer).start s₀.client) := by
  conv_lhs => rw [← s₀.place_self x.endpoint x.transfer]
  simp [usbStartTransfer]

/-! ## What the states of a transfer say -/

theorem UsbLine.held {p : LineSetup τ TransferFunction} {E : UsbEndpoint τ TransferFunction}
    {T : UsbTransfer TransferFunction} {submitted returned due : ℕ}
    (hl : UsbLine p E T submitted returned due) :
    returned + E.hw.available.length = submitted := by
  have hlen := congrArg List.length hl.available
  have hle := hl.returned_le
  simp only [List.length_map, List.length_range'] at hlen
  omega

/-- The end of a transfer all of whose packets are handled and done. -/
theorem ended_of_ends (hr : x.Ready s₀) {chain : Option τ} (hc : x.Chains chain)
    {E : UsbEndpoint τ TransferFunction} {T : UsbTransfer TransferFunction} {K : TransferLog}
    {s : UsbState ε τ TransferFunction TransferLog} {k : ℕ} (hk : k = x.count.toNat)
    (hl : UsbLine (x.setup s₀ chain) E T k k 0) (ho : T.outstandingPacket = false)
    (hq : T.packetQueued = false) (hK : K.completions = 0)
    (hseen : if x.isIn then K.seen.length = k else K.seen = (List.range k).map x.packet)
    (hends : Ends logComplete (x.setup s₀ chain) s₀ x.endpoint E T K s) : x.Ended k s := by
  have hT : s.transfer x.transfer = T.complete := hends.completed
  have hheld := UsbLine.held hl
  have howned := hl.owned
  have hsubmit : T.remainingPacketsToSubmit = 0 := by
    by_contra hne
    have := hl.submit_ne_zero_iff.1 hne
    simp only [setup] at this
    omega
  have hhandle : T.remainingPacketsToHandle = 0 := by
    by_contra hne
    have := hl.handle_ne_zero_iff.1 hne
    simp only [setup] at this
    omega
  have hnext (E : UsbEndpoint τ TransferFunction) (T : UsbTransfer TransferFunction)
      (K : TransferLog) :
      (s₀.place x.endpoint x.transfer E T K).transfer x.next = s₀.transfer x.next := by
    simp [UsbState.place, hr.next_ne]
  have hrest : s.client.seen = K.seen ∧
      (s.endpoint x.endpoint).ownedBufferCount.toNat + x.held s = 2 ∧ x.TriggeredOnce s := by
    unfold Ends at hends
    simp only [setup] at hends
    cases hcomplete : x.hasComplete with
    | true =>
      simp only [hcomplete, if_true] at hends
      subst hends
      refine ⟨rfl, by simp [held]; omega, ?_⟩
      simp only [TriggeredOnce, hcomplete, if_true]
      exact ⟨by simp [logComplete, hK], by simp, by rw [hnext, hr.nextNotStarted]⟩
    | false =>
      simp only [hcomplete, Bool.false_eq_true, if_false] at hends
      rcases hc with rfl | ⟨rfl, -⟩
      · subst hends
        have hchain : E.chainTransfer = none := hl.chain
        refine ⟨rfl, by simp [held]; omega, ?_⟩
        simp only [TriggeredOnce, hcomplete, Bool.false_eq_true, if_false]
        exact ⟨by simp [hK], .inr ⟨by simp, by simp [hchain], by rw [hnext, hr.nextNotStarted]⟩⟩
      · obtain ⟨-, hcurrent, hchain, hstarted, hclient, hsum⟩ := hends
        refine ⟨by rw [hclient], hsum, ?_⟩
        simp only [TriggeredOnce, hcomplete, Bool.false_eq_true, if_false]
        exact ⟨by rw [hclient, hK], .inl ⟨hcurrent, hchain, hstarted⟩⟩
  exact {
    all := hk
    seen := by
      rw [hrest.1]
      exact hseen
    submit := by simp [hT, hsubmit]
    handle := by simp [hT, hhandle]
    done := by simp [outstanding, TransferCase.queued, hT, ho, hq]
    owned := hrest.2.1
    triggered := hrest.2.2 }

/-- While the transfer runs, the counters are those of the line. -/
theorem running_of_line (hr : x.Ready s₀) {chain : Option τ}
    {E : UsbEndpoint τ TransferFunction} {T : UsbTransfer TransferFunction} {K : TransferLog}
    {submitted k due : ℕ} (hl : UsbLine (x.setup s₀ chain) E T submitted k due)
    (hdue : due = if T.packetQueued then 1 else 0) (hK : K.completions = 0)
    (hseen : if x.isIn then
        K.seen.length = submitted + if T.outstandingPacket then 1 else 0
      else K.seen.length + due = k ∧ K.seen = (List.range K.seen.length).map x.packet)
    (hunfinished : k < x.count.toNat ∨ T.outstandingPacket = true) :
    x.Running k (s₀.place x.endpoint x.transfer E T K) := by
  have hheld := UsbLine.held hl
  have hnext : (s₀.place x.endpoint x.transfer E T K).transfer x.next = s₀.transfer x.next := by
    simp [UsbState.place, hr.next_ne]
  have hsubmit := hl.submit
  have hhandle := hl.handle
  have howned := hl.owned
  simp only [setup] at hsubmit hhandle
  exact {
    current := by simp [hl.current, setup]
    seen := by
      simp only [held, TransferCase.queued, outstanding, UsbState.place_endpoint,
        UsbState.place_transfer, UsbState.place_client, hheld, ← hdue]
      exact hseen
    submit := by
      simp only [held, UsbState.place_endpoint, UsbState.place_transfer]
      omega
    handle := by
      simp only [TransferCase.queued, UsbState.place_transfer, ← hdue]
      exact hhandle
    owned := by
      simp only [held, UsbState.place_endpoint]
      omega
    pending := ⟨hK, by rw [hnext, hr.nextNotStarted]⟩
    unfinished := hunfinished.imp_right fun h => by simp [outstanding, h] }

/-! ## OUT transfers -/

theorem UsbLine.chain_setChain {s₀ : UsbState ε τ TransferFunction TransferLog} {chain : Option τ}
    {E : UsbEndpoint τ TransferFunction} {T : UsbTransfer TransferFunction}
    {submitted returned due : ℕ} (hl : UsbLine (x.setup s₀ chain) E T submitted returned due)
    (chain' : Option τ) :
    UsbLine (x.setup s₀ chain') (E.setChain chain') T submitted returned due :=
  { hl with chain := rfl }

theorem outServing_chain {idle busy : ℕ → TransferLog → Prop} {chain : Option τ} {k : ℕ}
    {E : UsbEndpoint τ TransferFunction} {T : UsbTransfer TransferFunction} {K : TransferLog}
    (h : OutServing (x.setup s₀ chain) x.packet idle busy k E T K) (chain' : Option τ) :
    OutServing (x.setup s₀ chain') x.packet idle busy k (E.setChain chain') T K := by
  cases h with
  | free hf hk hK =>
    exact .free ⟨UsbLine.chain_setChain hf.line chain', hf.outstanding, hf.queued, hf.valid⟩ hk hK
  | busy hb hk hK =>
    obtain ⟨submitted, hsub, hl⟩ := hb.line
    exact .busy ⟨⟨submitted, hsub, UsbLine.chain_setChain hl chain'⟩, hb.outstanding, hb.queued,
      { hb.holds with }⟩ hk hK
  | queued hq hk hK =>
    exact .queued ⟨UsbLine.chain_setChain hq.line chain', hq.outstanding, hq.queued,
      { hq.holds with }, hq.next⟩ hk hK

/-- The transfer runs after `k` packets, or it has ended after all of them. -/
def OutReached (x : TransferCase ε τ) (s₀ : UsbState ε τ TransferFunction TransferLog)
    (chain : Option τ) (k : ℕ) (s : UsbState ε τ TransferFunction TransferLog) : Prop :=
  (∃ E T K, s = s₀.place x.endpoint x.transfer E T K ∧
      OutServing (x.setup s₀ chain) x.packet x.outIdle (fun k => x.outIdle (k + 1)) k E T K) ∨
    (k = x.count.toNat ∧ ∃ E T K, UsbLine (x.setup s₀ chain) E T k k 0 ∧
      T.outstandingPacket = false ∧ T.packetQueued = false ∧ x.outIdle k K ∧
      Ends logComplete (x.setup s₀ chain) s₀ x.endpoint E T K s)

theorem OutReached.of_after (hr : x.Ready s₀) {chain : Option τ} (hc : x.Chains chain)
    (hdepth : 3 ≤ depth) {k : ℕ} {r : UsbResult (UsbState ε τ TransferFunction TransferLog)}
    (h : OutAfter (x.calls depth) (x.setup s₀ chain) x.packet x.outIdle
      (fun k => x.outIdle (k + 1)) s₀ x.endpoint k r) :
    ∃ s, r = .ok s ∧ x.OutReached s₀ chain k s := by
  rcases h with ⟨E, T, K, hr', hserve⟩ | ⟨hk, E, T, K, hl, ho, hq, hK, hr'⟩
  · exact ⟨_, hr', .inl ⟨E, T, K, rfl, hserve⟩⟩
  · obtain ⟨s', hs', hends⟩ := UsbLine.ends (hr.drives hc) (hk ▸ hl) (by omega : 2 ≤ depth)
      (K := K)
    exact ⟨s', hr'.trans hs', .inr ⟨hk, E, T, K, hl, ho, hq, hK, hends⟩⟩

/-- The end of the transfer leaves it completed. -/
theorem completed_of_finish (hr : x.Ready s₀) {chain : Option τ} (hc : x.Chains chain)
    (hdepth : 3 ≤ depth) {E : UsbEndpoint τ TransferFunction} {T : UsbTransfer TransferFunction}
    {K : TransferLog} {s : UsbState ε τ TransferFunction TransferLog}
    (hl : UsbLine (x.setup s₀ chain) E T x.count.toNat x.count.toNat 0)
    (hs : (x.setup s₀ chain).finish (x.calls depth) x.endpoint
      (s₀.place x.endpoint x.transfer (E.setTransfer none) T.complete K) = .ok s) :
    (s.transfer x.transfer).completed = true := by
  obtain ⟨s', hs', hends⟩ := UsbLine.ends (hr.drives hc) hl (by omega : 2 ≤ depth) (K := K)
  obtain rfl := Except.ok.inj (hs.symm.trans hs')
  have hT : s.transfer x.transfer = T.complete := hends.completed
  rw [hT]
  rfl

/-- A run of an OUT transfer keeps to the states of `OutServing`. -/
theorem run_out (hr : x.Ready s₀) (hlen : ∀ k, (x.packet k).length ≤ 64) (hout : x.isIn = false)
    (hcount : x.count ≠ 0) (hdepth : 3 ≤ depth) {k : ℕ}
    {r : UsbResult (UsbState ε τ TransferFunction TransferLog)} (hrun : x.Run depth s₀ k r) :
    ∃ s, r = .ok s ∧ ∃ chain, x.Chains chain ∧ x.OutReached s₀ chain k s := by
  have hpos : 0 < x.count.toNat := Nat.pos_of_ne_zero (toNat_ne_zero.1 hcount)
  induction hrun with
  | start =>
    have hidle : x.outIdle 0 s₀.client := by simp [outIdle, hr.log]
    obtain ⟨E, T, hE, hserve⟩ := OutServing.start hout hr.line (by simp [hr.outstanding])
      (by simp [hr.queued]) hpos hidle (logDriver x.immediate x.packet) (by omega : 2 ≤ depth)
      (s := s₀) (e := x.endpoint)
    exact ⟨_, (usbStartTransfer_eq _).trans hE, none, .inl rfl, .inl ⟨E, T, _, rfl, hserve⟩⟩
  | @chain k s _ hcurrent hnone ih =>
    obtain ⟨_, ⟨rfl⟩, chain, hc, hafter⟩ := ih
    refine ⟨_, rfl, some x.next, .inr ⟨rfl, hnone⟩, ?_⟩
    rcases hafter with ⟨E, T, K, rfl, hserve⟩ | ⟨-, E, T, K, -, -, -, -, hends⟩
    · refine .inl ⟨E.setChain (some x.next), T, K, ?_, outServing_chain hserve _⟩
      exact UsbState.place_modifyEndpoint _ _ _ _ _ _ _
    · exact absurd hcurrent (hends.current_ne fun n hn => ((hr.drives hc).chain n hn).1)
  | @buffer k s _ hcurrent havail ih =>
    obtain ⟨_, ⟨rfl⟩, chain, hc, hafter⟩ := ih
    rcases hafter with ⟨E, T, K, rfl, hserve⟩ | ⟨-, E, T, K, -, -, -, -, hends⟩
    · rw [UsbState.place_endpoint] at havail
      obtain ⟨s', hs', hafter⟩ := OutReached.of_after hr hc hdepth
        (hserve.buffer ((hr.drives hc).handles _) (serves_out hlen) hout havail hdepth)
      exact ⟨s', hs', chain, hc, hafter⟩
    · exact absurd hcurrent (hends.current_ne fun n hn => ((hr.drives hc).chain n hn).1)
  | @done k s _ hcurrent houtstanding ih =>
    obtain ⟨_, ⟨rfl⟩, chain, hc, hafter⟩ := ih
    rcases hafter with ⟨E, T, K, rfl, hserve⟩ | ⟨-, E, T, K, -, -, -, -, hends⟩
    · have hplace : (s₀.place x.endpoint x.transfer E T K).transfer x.transfer = T :=
        UsbState.place_transfer _ _ _ _ _ _
      rw [hplace] at houtstanding
      obtain ⟨s', hs', hafter⟩ := OutReached.of_after hr hc hdepth
        (hserve.done ((hr.drives hc).handles _) (serves_out hlen) hout houtstanding
          (fun _ hK => hK) hdepth fun _ _ _ _ hl hs => completed_of_finish hr hc hdepth hl hs)
      exact ⟨s', hs', chain, hc, hafter⟩
    · exact absurd hcurrent (hends.current_ne fun n hn => ((hr.drives hc).chain n hn).1)

theorem transferOk_of_outReached (hr : x.Ready s₀) (hout : x.isIn = false) {chain : Option τ}
    (hc : x.Chains chain) {k : ℕ} {s : UsbState ε τ TransferFunction TransferLog}
    (hafter : x.OutReached s₀ chain k s) : x.TransferOk k s := by
  rcases hafter with ⟨E, T, K, rfl, hserve⟩ | ⟨hk, E, T, K, hl, ho, hq, hK, hends⟩
  · left
    cases hserve with
    | free hf hk hK =>
      refine running_of_line hr hf.line (by simp [hf.queued]) hK.2 ?_ (.inl hk)
      simp [hout, hK.1]
    | busy hb hk hK =>
      obtain ⟨submitted, hsub, hl⟩ := hb.line
      refine running_of_line hr hl (by simp [hb.queued]) hK.2 ?_ (.inr hb.outstanding)
      simp [hout, hK.1]
    | queued hq hk hK =>
      refine running_of_line hr hq.line (by simp [hq.queued]) hK.2 ?_ (.inr hq.outstanding)
      simp [hout, hK.1]
  · right
    refine ended_of_ends hr hc hk hl ho hq hK.2 ?_ hends
    simp [hout, hK.1]

/-! ## IN transfers -/

theorem inServing_chain {base : List (List Byte)} {idle busy : ℕ → TransferLog → Prop}
    {chain : Option τ} {k : ℕ} {E : UsbEndpoint τ TransferFunction}
    {T : UsbTransfer TransferFunction} {K : TransferLog}
    (h : InServing (x.setup s₀ chain) x.packet base idle busy k E T K) (chain' : Option τ) :
    InServing (x.setup s₀ chain') x.packet base idle busy k (E.setChain chain') T K := by
  cases h with
  | free hi ho hq hk hK =>
    exact .free ⟨UsbLine.chain_setChain hi.line chain', hi.given, hi.valid⟩ ho hq hk hK
  | busy hi ho hq hs hn hK =>
    exact .busy ⟨UsbLine.chain_setChain hi.line chain', hi.given, hi.valid⟩ ho hq hs hn hK
  | queued hi ho hq hn hK =>
    exact .queued ⟨UsbLine.chain_setChain hi.line chain', hi.given, hi.valid⟩ ho hq hn hK

/-- The packets the hardware was given before. -/
def base (x : TransferCase ε τ) (s₀ : UsbState ε τ TransferFunction TransferLog) :
    List (List Byte) :=
  (s₀.endpoint x.endpoint).hw.given.map (·.packet)

theorem Ready.inLine (hr : x.Ready s₀) (hin : x.isIn = true) :
    InLine (x.setup s₀ none) x.packet (x.base s₀)
      (((s₀.endpoint x.endpoint).setTransfer (some x.transfer)).setChain none)
      (s₀.transfer x.transfer).start 0 0 0 :=
  ⟨hr.line, by simp [base], hr.buffer hin⟩

/-- The transfer runs after `k` buffers, or it has ended after all of them. -/
def InReached (x : TransferCase ε τ) (s₀ : UsbState ε τ TransferFunction TransferLog)
    (chain : Option τ) (k : ℕ) (s : UsbState ε τ TransferFunction TransferLog) : Prop :=
  (∃ E T K, s = s₀.place x.endpoint x.transfer E T K ∧
      InServing (x.setup s₀ chain) x.packet (x.base s₀) inIdle (fun k => inIdle (k + 1)) k E T K) ∨
    (k = x.count.toNat ∧ ∃ E T K, InLine (x.setup s₀ chain) x.packet (x.base s₀) E T k k 0 ∧
      T.outstandingPacket = false ∧ T.packetQueued = false ∧ inIdle k K ∧
      Ends logComplete (x.setup s₀ chain) s₀ x.endpoint E T K s)

theorem InReached.of_after (hr : x.Ready s₀) {chain : Option τ} (hc : x.Chains chain)
    (hdepth : 3 ≤ depth) {k : ℕ} {r : UsbResult (UsbState ε τ TransferFunction TransferLog)}
    (h : InAfter (x.calls depth) (x.setup s₀ chain) x.packet (x.base s₀) inIdle
      (fun k => inIdle (k + 1)) s₀ x.endpoint k r) :
    ∃ s, r = .ok s ∧ x.InReached s₀ chain k s := by
  rcases h with ⟨E, T, K, hr', hserve⟩ | ⟨hk, E, T, K, hi, ho, hq, hK, hr'⟩
  · exact ⟨_, hr', .inl ⟨E, T, K, rfl, hserve⟩⟩
  · obtain ⟨s', hs', hends⟩ := UsbLine.ends (hr.drives hc) (hk ▸ hi.line) (by omega : 2 ≤ depth)
      (K := K)
    exact ⟨s', hr'.trans hs', .inr ⟨hk, E, T, K, hi, ho, hq, hK, hends⟩⟩

/-- A run of an IN transfer keeps to the states of `InServing`. -/
theorem run_in (hr : x.Ready s₀) (hlen : ∀ k, (x.packet k).length ≤ 64) (hin : x.isIn = true)
    (hcount : x.count ≠ 0)
    (hprompt : x.count = 1 ∨ x.immediate 0 = false ∨ x.immediate 1 = true) (hdepth : 3 ≤ depth)
    {k : ℕ} {r : UsbResult (UsbState ε τ TransferFunction TransferLog)}
    (hrun : x.Run depth s₀ k r) :
    ∃ s, r = .ok s ∧ ∃ chain, x.Chains chain ∧ x.InReached s₀ chain k s := by
  have hpos : 0 < x.count.toNat := Nat.pos_of_ne_zero (toNat_ne_zero.1 hcount)
  induction hrun with
  | start =>
    obtain ⟨E, T, K, hE, hserve⟩ := InServing.start ((hr.drives (.inl rfl)).handles inIdle)
      (serves_in hlen) (prompt_of hprompt) hin (hr.inLine hin) (by simp [hr.queued]) hpos
      (K := s₀.client) (by simp [inIdle, hr.log]) hdepth (s := s₀)
    exact ⟨_, (usbStartTransfer_eq _).trans hE, none, .inl rfl, .inl ⟨E, T, K, rfl, hserve⟩⟩
  | @chain k s _ hcurrent hnone ih =>
    obtain ⟨_, ⟨rfl⟩, chain, hc, hafter⟩ := ih
    refine ⟨_, rfl, some x.next, .inr ⟨rfl, hnone⟩, ?_⟩
    rcases hafter with ⟨E, T, K, rfl, hserve⟩ | ⟨-, E, T, K, -, -, -, -, hends⟩
    · refine .inl ⟨E.setChain (some x.next), T, K, ?_, inServing_chain hserve _⟩
      exact UsbState.place_modifyEndpoint _ _ _ _ _ _ _
    · exact absurd hcurrent (hends.current_ne fun n hn => ((hr.drives hc).chain n hn).1)
  | @buffer k s _ hcurrent havail ih =>
    obtain ⟨_, ⟨rfl⟩, chain, hc, hafter⟩ := ih
    rcases hafter with ⟨E, T, K, rfl, hserve⟩ | ⟨-, E, T, K, -, -, -, -, hends⟩
    · rw [UsbState.place_endpoint] at havail
      obtain ⟨s', hs', hafter⟩ := InReached.of_after hr hc hdepth
        (hserve.buffer ((hr.drives hc).handles _) (serves_in hlen) hin havail
          (by omega : 2 ≤ depth) (x.packet k))
      exact ⟨s', hs', chain, hc, hafter⟩
    · exact absurd hcurrent (hends.current_ne fun n hn => ((hr.drives hc).chain n hn).1)
  | @done k s _ hcurrent houtstanding ih =>
    obtain ⟨_, ⟨rfl⟩, chain, hc, hafter⟩ := ih
    rcases hafter with ⟨E, T, K, rfl, hserve⟩ | ⟨-, E, T, K, -, -, -, -, hends⟩
    · have hplace : (s₀.place x.endpoint x.transfer E T K).transfer x.transfer = T :=
        UsbState.place_transfer _ _ _ _ _ _
      rw [hplace] at houtstanding
      obtain ⟨s', hs', hafter⟩ := InReached.of_after hr hc hdepth
        (hserve.done ((hr.drives hc).handles _) (serves_in hlen) hin houtstanding
          (fun _ hK => hK) (by omega : 2 ≤ depth))
      exact ⟨s', hs', chain, hc, hafter⟩
    · exact absurd hcurrent (hends.current_ne fun n hn => ((hr.drives hc).chain n hn).1)

theorem transferOk_of_inReached (hr : x.Ready s₀) (hin : x.isIn = true) {chain : Option τ}
    (hc : x.Chains chain) {k : ℕ} {s : UsbState ε τ TransferFunction TransferLog}
    (hafter : x.InReached s₀ chain k s) : x.TransferOk k s := by
  rcases hafter with ⟨E, T, K, rfl, hserve⟩ | ⟨hk, E, T, K, hi, ho, hq, hK, hends⟩
  · left
    cases hserve with
    | free hi ho hq hk hK =>
      exact running_of_line hr hi.line (by simp [hq]) hK.2 (by simp [hin, ho, hK.1]) (.inl hk)
    | busy hi ho hq hs hn hK =>
      exact running_of_line hr hi.line (by simp [hq]) hK.2 (by simp [hin, ho, hK.1]) (.inr ho)
    | queued hi ho hq hn hK =>
      exact running_of_line hr hi.line (by simp [hq]) hK.2 (by simp [hin, ho, hK.1]) (.inr ho)
  · exact .inr (ended_of_ends hr hc hk hi.line ho hq hK.2 (by simp [hin, hK.1]) hends)

/-! ## A second packet that is not done at once -/

/-- The packets that are given when `on_packet` was called twice for the second one. -/
def shiftedPacket (x : TransferCase ε τ) (k : ℕ) : List Byte :=
  if k = 0 then x.packet 0 else x.packet (k + 1)

/-- Before the `k`-th packet, when `on_packet` was called once too often. -/
def shiftedIdle (k : ℕ) (K : TransferLog) : Prop :=
  0 < k ∧ K.seen.length = k + 1 ∧ K.completions = 0

/-- While the `k`-th packet is not done, when `on_packet` was called once too often. -/
def shiftedBusy (k : ℕ) (K : TransferLog) : Prop :=
  0 < k ∧ K.seen.length = k + 2 ∧ K.completions = 0

theorem serves_shifted (hlen : ∀ k, (x.packet k).length ≤ 64) :
    (logHandler x.immediate x.packet).Serves true x.count.toNat x.shiftedPacket shiftedIdle
      shiftedBusy shiftedBusy where
  length_le k _ := by
    unfold shiftedPacket
    split
    · exact hlen 0
    · exact hlen (k + 1)
  receive k _ K hK _ := by
    refine ⟨hK.1, ?_, hK.2.2⟩
    simp [logHandler, hK.2.1]
  atOnce k _ K hK _ := by
    refine ⟨hK.1, ?_, hK.2.2⟩
    simp [logHandler, hK.2.1]
  finish k _ K hK := ⟨Nat.succ_pos k, hK.2.1, hK.2.2⟩
  sends _ k _ K hK := by
    have hpos : k ≠ 0 := Nat.pos_iff_ne_zero.1 hK.1
    simp [logHandler, shiftedPacket, hK.2.1, hpos]

/-- `usb_start_transfer`, when the first packet is done at once and the second one is not : the
loop in `usb_packet_done` calls `on_packet` for the second packet, and then the outer loop calls it
again. -/
theorem usbStartTransfer_twice (hr : x.Ready s₀) (hlen : ∀ k, (x.packet k).length ≤ 64)
    (hin : x.isIn = true) (hcount : 2 ≤ x.count.toNat) (hfirst : x.immediate 0 = true)
    (hsecond : x.immediate 1 = false) (hdepth : 3 ≤ depth) :
    ∃ E T K submitted, usbStartTransfer (x.calls depth) x.endpoint x.transfer s₀ =
        .ok (s₀.place x.endpoint x.transfer E T K) ∧
      UsbLine (x.setup s₀ none) E T submitted 0 0 ∧ K.seen.length = 3 ∧
      submitted + (if T.outstandingPacket then 1 else 0) = 2 := by
  have hd := hr.drives (.inl rfl)
  have hK : inIdle 0 s₀.client := by simp [inIdle, hr.log]
  obtain ⟨E, T, K, submitted, hE, hl, hcase⟩ := InLine.start_twice (hd.handles inIdle)
    (serves_in hlen) hin (hr.inLine hin) (by simp [hr.queued]) (by simpa [setup] using hcount) hK
    hdepth (by simpa [logHandler, hK.1] using hfirst) (by simpa [logHandler, hK.1] using hsecond)
    (hd.handles shiftedIdle) (serves_shifted hlen) (by simp [shiftedPacket])
    (fun K hK => ⟨by omega, hK⟩) (s := s₀)
  refine ⟨E, T, K, submitted, (usbStartTransfer_eq _).trans hE, hl, ?_⟩
  rcases hcase with ⟨rfl, ho, hidle⟩ | ⟨rfl, ho, hbusy⟩
  · exact ⟨hidle.2.1, by simp [ho]⟩
  · exact ⟨hbusy.2.1, by simp [ho]⟩

/-- `on_packet` was then called three times, for two packets. -/
theorem not_transferOk_of_twice (hr : x.Ready s₀) (hlen : ∀ k, (x.packet k).length ≤ 64)
    (hin : x.isIn = true) (hcount : 2 ≤ x.count.toNat) (hfirst : x.immediate 0 = true)
    (hsecond : x.immediate 1 = false) (hdepth : 3 ≤ depth) :
    ∃ s, usbStartTransfer (x.calls depth) x.endpoint x.transfer s₀ = .ok s ∧
      ¬x.TransferOk 0 s := by
  obtain ⟨E, T, K, submitted, hstart, hl, hseen, hsum⟩ :=
    usbStartTransfer_twice hr hlen hin hcount hfirst hsecond hdepth
  refine ⟨_, hstart, ?_⟩
  rintro (hrun | hend)
  · have hcalls := hrun.seen
    have hheld := UsbLine.held hl
    rw [if_pos hin] at hcalls
    simp only [UsbState.place_client, held, UsbState.place_endpoint, outstanding,
      UsbState.place_transfer] at hcalls
    omega
  · have := hend.all
    omega

/-! ## The transfers that keep to it -/

/-- Every run of a transfer keeps to `TransferOk`, without a fault, if and only if the transfer is
an OUT transfer, or has one packet, or its first packet is not done at once, or its second one is
done at once too. -/
theorem transferOk_iff (hr : x.Ready s₀) (hlen : ∀ k, (x.packet k).length ≤ 64)
    (hcount : x.count ≠ 0) (hdepth : 3 ≤ depth) :
    (∀ k r, x.Run depth s₀ k r → ∃ s, r = .ok s ∧ x.TransferOk k s) ↔
      (x.isIn = false ∨ x.count = 1 ∨ x.immediate 0 = false ∨ x.immediate 1 = true) := by
  constructor
  · intro hall
    by_contra hcon
    simp only [not_or, Bool.not_eq_false, Bool.not_eq_true] at hcon
    obtain ⟨hin, hone, hfirst, hsecond⟩ := hcon
    have hcount₂ : 2 ≤ x.count.toNat := by
      have hpos : x.count.toNat ≠ 0 := toNat_ne_zero.1 hcount
      have hne : x.count.toNat ≠ 1 := fun h => hone (BitVec.eq_of_toNat_eq (by simpa using h))
      omega
    obtain ⟨s, hs, hnot⟩ :=
      not_transferOk_of_twice hr hlen hin hcount₂ hfirst hsecond hdepth
    obtain ⟨s', hs', hok⟩ := hall 0 _ .start
    rw [hs] at hs'
    cases hs'
    exact hnot hok
  · intro hcond k r hrun
    cases hin : x.isIn with
    | false =>
      obtain ⟨s, hs, chain, hc, hafter⟩ := run_out hr hlen hin hcount hdepth hrun
      exact ⟨s, hs, transferOk_of_outReached hr hin hc hafter⟩
    | true =>
      have hprompt := hcond.resolve_left (by simp [hin])
      obtain ⟨s, hs, chain, hc, hafter⟩ := run_in hr hlen hin hcount hprompt hdepth hrun
      exact ⟨s, hs, transferOk_of_inReached hr hin hc hafter⟩

end TransferCase

end Runs

/-! ## Two packets on an IN endpoint -/

/-- An IN endpoint that owns both buffers, and a transfer of two packets. -/
def bulkInReady : UsbState Unit Bool TransferFunction TransferLog where
  endpoint _ :=
    { isIn := true, doubleBuffered := true, bufferSize := 64, defaultTransfer := none
      currentTransfer := none, chainTransfer := none, onStallChange := none
      currentHwBuffer := ⟨false, 0, false⟩, nextPid := false, ownedBufferCount := 2
      currentGiveBuffer := false, currentTakeBuffer := false, haltState := .none
      firstBufferAfterReset := true, hw := ⟨fun _ => [], [], []⟩ }
  transfer t :=
    .reset ⟨.driver (if t then .onPacket else .nextPacket), 2⟩
      (if t then some .onComplete else none)
  currentConfigNum := 1
  client := {}

/-- Two empty packets, of which those in the list are done at once. -/
def twoPackets (prompt : List ℕ) : TransferCase Unit Bool where
  endpoint := ()
  transfer := true
  next := false
  isIn := true
  count := 2
  hasComplete := true
  packet _ := []
  immediate k := decide (k ∈ prompt)

theorem twoPackets_ready (prompt : List ℕ) : (twoPackets prompt).Ready bulkInReady where
  isIn := rfl
  doubleBuffered := rfl
  notHalted := rfl
  owned := rfl
  available := rfl
  buffer _ h := by cases h
  onPacket := rfl
  onComplete := rfl
  submit := rfl
  handle := rfl
  outstanding := rfl
  queued := rfl
  notCompleted := rfl
  next_ne := Bool.false_ne_true
  nextPacket := rfl
  nextNotStarted := rfl
  log := rfl

/-- `transferOk_iff`, when both packets are done at once. -/
theorem transferOk_iff_prompt :
    (twoPackets [0, 1]).Ready bulkInReady ∧
      ∀ k r, (twoPackets [0, 1]).Run 3 bulkInReady k r →
        ∃ s, r = .ok s ∧ (twoPackets [0, 1]).TransferOk k s :=
  ⟨twoPackets_ready _, (TransferCase.transferOk_iff (twoPackets_ready _)
    (fun _ => by simp [twoPackets]) (by decide) (Nat.le_refl 3)).2 (by decide)⟩

/-- When the first packet is done at once and the second one later, `on_packet` is called three
times before the hardware has returned a buffer. -/
theorem second_packet_seen_twice :
    (twoPackets [0]).Ready bulkInReady ∧
      ∃ s, (twoPackets [0]).Run 8 bulkInReady 0 (.ok s) ∧ s.client.seen.length = 3 ∧
        ¬(twoPackets [0]).TransferOk 0 s := by
  have hr := twoPackets_ready [0]
  obtain ⟨E, T, K, submitted, hstart, -, hseen, -⟩ := TransferCase.usbStartTransfer_twice hr
    (fun _ => by simp [twoPackets]) rfl (by decide) (by decide) (by decide) (by decide : 3 ≤ 8)
  obtain ⟨s, hs, hnot⟩ := TransferCase.not_transferOk_of_twice hr
    (fun _ => by simp [twoPackets]) rfl (by decide) (by decide) (by decide) (by decide : 3 ≤ 8)
  have hsame := hs.symm.trans hstart
  cases hsame
  exact ⟨hr, _, hs ▸ .start, hseen, hnot⟩

end PicoBootrom
