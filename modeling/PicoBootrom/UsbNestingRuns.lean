import PicoBootrom.UsbNesting

/-!
# Runs of an endpoint, and the depth of their calls

A run of an endpoint : the interrupts for its buffers, the `usb_packet_done` of packets that were
left outstanding, the transfers that its user starts, stalls, resets, and anything else that happens
besides it (`UsbStep`), when calls can be nested to a given depth. If that is one more than the
endpoint has buffers, every call from a state of a run returns (`usbNesting_bounded`), however many
packets its transfer has. The handlers of `usb_stream_helper.c` are `on_packet` functions as they
are asked for (`UsbStream.packetHandler_onPacket`).
-/

set_option linter.unusedSectionVars false

namespace PicoBootrom

variable {ε τ ν κ : Type} [DecidableEq ε] [DecidableEq τ]

/-! ## Changes besides the bookkeeping -/

section Outside

variable {p : UsbRoles ν} {s s' s'' : UsbState ε τ ν κ} {e : ε} {t : τ}

namespace UsbState.Outside

theorem trans (h' : s''.Outside p s' e) (h : s'.Outside p s e) : s''.Outside p s e where
  isIn := h'.isIn.trans h.isIn
  doubleBuffered := h'.doubleBuffered.trans h.doubleBuffered
  onStallChange := h'.onStallChange.trans h.onStallChange
  currentTransfer := h'.currentTransfer.trans h.currentTransfer
  owned := h'.owned.trans h.owned
  available := h'.available.trans h.available
  halt := h'.halt ∘ h.halt
  transfer t ht := (h'.transfer t (h.currentTransfer.trans ht)).trans (h.transfer t ht)
  chain := h'.chain ∘ h.chain
  wired := h'.wired ∘ h.wired

theorem modifyClient (s : UsbState ε τ ν κ) (e : ε) (f : κ → κ) :
    (s.modifyClient f).Outside p s e :=
  ⟨rfl, rfl, rfl, rfl, rfl, rfl, id, fun _ _ => rfl, id, id⟩

/-- A change of the endpoint that keeps its links, its halt state and its buffers. -/
theorem modifyEndpoint {f : UsbEndpoint τ ν → UsbEndpoint τ ν}
    (hlinks : (f (s.endpoint e)).SameLinks (s.endpoint e))
    (howned : (f (s.endpoint e)).ownedBufferCount = (s.endpoint e).ownedBufferCount)
    (havailable : (f (s.endpoint e)).hw.available = (s.endpoint e).hw.available) :
    (s.modifyEndpoint e f).Outside p s e where
  isIn := by rw [modifyEndpoint_endpoint_self, hlinks.isIn]
  doubleBuffered := by rw [modifyEndpoint_endpoint_self, hlinks.doubleBuffered]
  onStallChange := by rw [modifyEndpoint_endpoint_self, hlinks.onStallChange]
  currentTransfer := by rw [modifyEndpoint_endpoint_self, hlinks.currentTransfer]
  owned := by rw [modifyEndpoint_endpoint_self, howned]
  available := by rw [modifyEndpoint_endpoint_self, havailable]
  halt := by rw [modifyEndpoint_endpoint_self, hlinks.haltState]; exact id
  transfer _ _ := rfl
  chain := by rw [modifyEndpoint_endpoint_self, hlinks.chainTransfer]; exact id
  wired := id

/-- `usb_current_packet_buffer`. -/
theorem currentPacketBuffer (s : UsbState ε τ ν κ) (e : ε) :
    (usbCurrentPacketBuffer e s).Outside p s e := by
  obtain ⟨b, hb, -⟩ := (s.endpoint e).fetchBuffer_eq
  exact modifyEndpoint (UsbEndpoint.fetchBuffer_sameLinks _) (by rw [hb]) (by rw [hb])

/-- `usb_chain_transfer`, of a transfer that was set up. -/
theorem chainTransfer (hfresh : (s.transfer t).Fresh) : (usbChainTransfer e t s).Outside p s e where
  isIn := by simp [usbChainTransfer]
  doubleBuffered := by simp [usbChainTransfer]
  onStallChange := by simp [usbChainTransfer]
  currentTransfer := by simp [usbChainTransfer]
  owned := by simp [usbChainTransfer]
  available := by simp [usbChainTransfer]
  halt := by simp [usbChainTransfer]
  transfer _ _ := rfl
  chain _ t' ht' := by
    obtain rfl : t = t' := by simpa [usbChainTransfer] using ht'
    exact hfresh
  wired := id

/-- A transfer is set up that is not the current one. -/
theorem setTransfer {T : UsbTransfer ν} (hcurrent : (s.endpoint e).currentTransfer ≠ some t)
    (hfresh : T.Fresh) (hwired : p.Wired T) :
    (s.modifyTransfer t fun _ => T).Outside p s e where
  isIn := rfl
  doubleBuffered := rfl
  onStallChange := rfl
  currentTransfer := rfl
  owned := rfl
  available := rfl
  halt := id
  transfer t' ht' := modifyTransfer_transfer_of_ne _ _ _ _ fun heq => hcurrent (heq ▸ ht')
  chain h t' ht' := by
    rcases eq_or_ne t' t with rfl | hne
    · rw [modifyTransfer_transfer_self]
      exact hfresh
    · rw [modifyTransfer_transfer_of_ne _ _ _ _ hne]
      exact h t' ht'
  wired h t' := by
    rcases eq_or_ne t' t with rfl | hne
    · rw [modifyTransfer_transfer_self]
      exact hwired
    · rw [modifyTransfer_transfer_of_ne _ _ _ _ hne]
      exact h t'

end UsbState.Outside

end Outside

/-! ## The packet handlers -/

section Handlers

variable (p : UsbRoles ν) (c : UsbCalls ε τ ν κ) (e : ε) (s : UsbState ε τ ν κ) (t : τ)

/-- The state in which a handler calls `usb_packet_done`. -/
theorem UsbHandler.packetDone_eq (h : UsbHandler κ) :
    ∃ s' : UsbState ε τ ν κ, s'.Outside p s e ∧ h.packetDone c e s = usbPacketDone c e s' := by
  unfold packetDone
  dsimp only
  generalize hs₁ : UsbState.modifyClient _ _ = s₁
  have h₁ : s₁.Outside p s e := by
    rw [← hs₁]
    exact (UsbState.Outside.modifyClient _ _ _).trans (.currentPacketBuffer s e)
  split
  · exact ⟨_, .trans (.modifyEndpoint ⟨rfl, rfl, rfl, rfl, rfl, rfl, rfl⟩ rfl rfl) h₁, rfl⟩
  · exact ⟨_, h₁, rfl⟩

/-- A handler of packets leaves the packet outstanding, or calls `usb_packet_done` once. -/
theorem UsbHandler.onPacket_onPacket (h : UsbHandler κ) :
    s.OnPacket p c e t (h.onPacket c e s) := by
  unfold onPacket
  dsimp only
  generalize hs₁ : (if (s.endpoint e).isIn then s else usbCurrentPacketBuffer e s) = s₁
  have h₁ : s₁.Outside p s e := by
    rw [← hs₁]
    split
    · exact .refl s e
    · exact .currentPacketBuffer s e
  generalize h.receive s₁.client (s₁.endpoint e).packet = r
  have h₂ : (s₁.modifyClient fun _ => r.1).Outside p s e :=
    (UsbState.Outside.modifyClient _ _ _).trans h₁
  split
  · obtain ⟨s', ho, heq⟩ := h.packetDone_eq p c e (s₁.modifyClient fun _ => r.1)
    have hmap : usbPacketDone c e s' = (usbPacketDone c e s').map id := by
      cases usbPacketDone c e s' <;> rfl
    rw [heq, hmap]
    exact .done (ho.trans h₂) fun s => ⟨.refl s e, rfl⟩
  · exact .later h₂

/-- `_usb_stream_packet_packet_handler`, which leaves the packet outstanding if `on_chunk` says so.
-/
theorem UsbStream.packetHandler_onPacket (u : UsbStream κ) :
    s.OnPacket p c e t (u.packetHandler c e s) := by
  rw [u.packetHandler_eq c e s rfl]
  exact UsbHandler.onPacket_onPacket p c e s t _

/-- `usb_stream_packet_handler_complete` calls `usb_packet_done` once. -/
theorem UsbStream.packetHandlerComplete_done (u : UsbStream κ) :
    ∃ s' : UsbState ε τ ν κ, s'.Outside p s e ∧
      u.packetHandlerComplete c e s = usbPacketDone c e s' := by
  rw [u.packetHandlerComplete_eq c e s rfl]
  exact UsbHandler.packetDone_eq p c e s _

end Handlers

/-! ## Runs -/

/-- An endpoint after a reset, before any transfer. -/
structure UsbState.Initial (p : UsbRoles ν) (s : UsbState ε τ ν κ) (e : ε) : Prop where
  isIn : (s.endpoint e).isIn = p.isIn
  doubleBuffered : (s.endpoint e).doubleBuffered = p.doubleBuffered
  wired : ∀ t, p.Wired (s.transfer t)
  onStallChange : ∀ f, (s.endpoint e).onStallChange = some f → ¬p.isPacket f
  currentTransfer : (s.endpoint e).currentTransfer = none
  chainTransfer : (s.endpoint e).chainTransfer = none
  owned : (s.endpoint e).ownedBufferCount = (s.endpoint e).bufferCount
  available : (s.endpoint e).hw.available = []

/-- What happens to an endpoint, when calls can be nested to the given depth. A packet that was left
outstanding is done by a call of `usb_packet_done` later. -/
inductive UsbStep (p : UsbRoles ν) (driver : UsbDriver ε τ ν κ) (depth : ℕ) (e : ε) :
    UsbState ε τ ν κ → UsbState ε τ ν κ → Prop
  | bufferInterrupt {s s' : UsbState ε τ ν κ} (packet : List Byte)
      (h : usbBufferInterrupt (usbCalls driver depth) e packet s = .ok s') :
      UsbStep p driver depth e s s'
  | packetDone {s s' : UsbState ε τ ν κ} {t : τ}
      (hcurrent : (s.endpoint e).currentTransfer = some t)
      (hout : (s.transfer t).outstandingPacket = true)
      (h : usbPacketDone (usbCalls driver depth) e s = .ok s') : UsbStep p driver depth e s s'
  | startTransfer {s s' : UsbState ε τ ν κ} {t : τ}
      (hcurrent : (s.endpoint e).currentTransfer = none) (hfresh : (s.transfer t).Fresh)
      (h : usbStartTransfer (usbCalls driver depth) e t s = .ok s') : UsbStep p driver depth e s s'
  | stallEndpoint {s s' : UsbState ε τ ν κ} {hs : UsbHaltState} (hne : hs ≠ .none)
      (h : usbStallEndpoint (usbCalls driver depth) e hs s = .ok s') : UsbStep p driver depth e s s'
  /-- `usb_stall_control_pipe`, for one of its endpoints. -/
  | stallControl {s s' : UsbState ε τ ν κ}
      (h : usbStallEndpoint (usbCalls driver depth) e .nonHaltStall
        (s.modifyEndpoint e UsbEndpoint.resetBuffers) = .ok s') : UsbStep p driver depth e s s'
  | resetEndpoint {s s' : UsbState ε τ ν κ} (hard : Bool)
      (h : usbResetEndpoint (usbCalls driver depth) e hard s = .ok s') :
      UsbStep p driver depth e s s'
  | outside {s s' : UsbState ε τ ν κ} (h : s'.Outside p s e) : UsbStep p driver depth e s s'

section Runs

variable {p : UsbRoles ν} {driver : UsbDriver ε τ ν κ} {own depth : ℕ} {e : ε}
  {s₀ s s' : UsbState ε τ ν κ} {t : τ}

theorem UsbState.Initial.ordered (h : s.Initial p e) : s.Ordered p e 0 where
  isIn := h.isIn
  doubleBuffered := h.doubleBuffered
  wired := h.wired
  onStallChange := h.onStallChange
  chain t ht := by simp [h.chainTransfer] at ht
  buffers := by
    rw [h.available, h.owned, List.length_nil, Nat.add_zero]
    unfold UsbEndpoint.bufferCount UsbRoles.bufferCount
    rw [h.doubleBuffered]
    split <;> rfl
  idle _ _ := h.available
  started t ht := by simp [h.currentTransfer] at ht
  notCompleted t ht := by simp [h.currentTransfer] at ht
  counts t ht := by simp [h.currentTransfer] at ht

/-- `usb_stall_control_pipe`, for one of its endpoints. -/
theorem UsbState.Ordered.stallControl (hserves : p.Serves driver e own) (h : s.Ordered p e 0)
    (hdepth : own + p.bufferCount + 1 ≤ depth) :
    ∃ s', usbStallEndpoint (usbCalls driver depth) e .nonHaltStall
      (s.modifyEndpoint e UsbEndpoint.resetBuffers) = .ok s' ∧ s'.Ordered p e 0 := by
  refine stallEndpoint hserves (fun hs hne => ?_) (by simp) hdepth
  have hcount := h.bufferCount_eq
  have hdrop : (s.modifyEndpoint e fun E => E.resetBuffers.setHalt hs).Ordered p e 0 :=
    h.dropCounts ⟨rfl, rfl, rfl, rfl⟩ rfl (by simpa using hcount) (.inr ⟨rfl, hne⟩)
  simpa [UsbState.modifyEndpoint] using hdrop

/-- The bookkeeping is kept by every step. -/
theorem UsbStep.ordered (hserves : p.Serves driver e own)
    (hdepth : own + p.bufferCount + 1 ≤ depth) (hstep : UsbStep p driver depth e s s')
    (h : s.Ordered p e 0) : s'.Ordered p e 0 := by
  -- a call returns one state only
  have unique : ∀ {r : UsbResult (UsbState ε τ ν κ)} {s'}, r = .ok s' →
      (∃ s'', r = .ok s'' ∧ s''.Ordered p e 0) → s'.Ordered p e 0 := by
    rintro r s' hr ⟨s'', hr', hordered⟩
    rw [hr] at hr'
    cases hr'
    exact hordered
  cases hstep with
  | bufferInterrupt packet hs' => exact unique hs' (h.bufferInterrupt hserves packet hdepth)
  | packetDone hcurrent hout hs' => exact unique hs' (h.packetDone hserves hcurrent hout hdepth)
  | startTransfer hcurrent hfresh hs' =>
    obtain ⟨s'', hs'', hordered, -⟩ := h.startTransfer hserves hcurrent hfresh
      (by omega : own + p.bufferCount ≤ depth)
    exact unique hs' ⟨s'', hs'', hordered⟩
  | stallEndpoint hne hs' =>
    exact unique hs'
      (UsbState.Ordered.stallEndpoint hserves (fun hs hne => h.setHalt hne) hne hdepth)
  | stallControl hs' => exact unique hs' (h.stallControl hserves hdepth)
  | resetEndpoint hard hs' => exact unique hs' (h.resetEndpoint hserves hard hdepth)
  | outside ho => exact h.outside ho

/-- The bookkeeping holds in every state of a run. -/
theorem UsbStep.run_ordered (hserves : p.Serves driver e own)
    (hdepth : own + p.bufferCount + 1 ≤ depth) (hinit : s₀.Initial p e)
    (hrun : Relation.ReflTransGen (UsbStep p driver depth e) s₀ s) : s.Ordered p e 0 := by
  induction hrun with
  | refl => exact hinit.ordered
  | tail _ hstep ih => exact hstep.ordered hserves hdepth ih

/-- The calls of an endpoint are nested one deeper than it has buffers, at most, apart from those
that the functions of its user make on their own account : with calls of that depth, every function
of the library returns from every state of a run, however long the transfer is. -/
theorem usbNesting_bounded (hserves : p.Serves driver e own)
    (hdepth : own + p.bufferCount + 1 ≤ depth) (hinit : s₀.Initial p e)
    (hrun : Relation.ReflTransGen (UsbStep p driver depth e) s₀ s) :
    (∀ packet, ∃ s', usbBufferInterrupt (usbCalls driver depth) e packet s = .ok s') ∧
      (∀ t, (s.endpoint e).currentTransfer = some t → (s.transfer t).outstandingPacket = true →
        ∃ s', usbPacketDone (usbCalls driver depth) e s = .ok s') ∧
      (∀ t, (s.endpoint e).currentTransfer = some t → (s.transfer t).outstandingPacket = false →
        ∃ s', usbGiveAsManyBuffersAsPossible (usbCalls driver depth) e s = .ok s') ∧
      (∀ t, (s.endpoint e).currentTransfer = some t → (s.transfer t).outstandingPacket = false →
        p.isIn = true → s.canGive e = true →
        ∃ s', usbCallOnPacket (usbCalls driver depth) e s = .ok s') ∧
      (∀ t, (s.endpoint e).currentTransfer = none → (s.transfer t).Fresh →
        ∃ s', usbStartTransfer (usbCalls driver depth) e t s = .ok s') ∧
      (∀ hs, hs ≠ .none → ∃ s', usbStallEndpoint (usbCalls driver depth) e hs s = .ok s') ∧
      ∀ hard, ∃ s', usbResetEndpoint (usbCalls driver depth) e hard s = .ok s' := by
  have h := UsbStep.run_ordered hserves hdepth hinit hrun
  refine ⟨fun packet => ?_, fun t hcurrent hout => ?_, fun t hcurrent hout => ?_,
    fun t hcurrent hout hin hcan => ?_, fun t hcurrent hfresh => ?_, fun hs hne => ?_,
    fun hard => ?_⟩
  · obtain ⟨s', hs', -⟩ := h.bufferInterrupt hserves packet hdepth
    exact ⟨s', hs'⟩
  · obtain ⟨s', hs', -⟩ := h.packetDone hserves hcurrent hout hdepth
    exact ⟨s', hs'⟩
  · cases hcan : s.canGive e with
    | false => exact ⟨s, usbGiveAsManyBuffersAsPossible_of_not_canGive hcan⟩
    | true =>
      have hhalt := ((UsbState.canGive_iff hcurrent).1 hcan).2.2
      have hqueued : (s.transfer t).packetQueued = false := by
        by_contra hq
        have := (h.counts t hcurrent hhalt).queued (by simpa using hq)
        simp [hout] at this
      obtain ⟨s', hs', -⟩ := h.give_stays hserves hcurrent hout hqueued
        (by omega : own + p.bufferCount ≤ depth)
      exact ⟨s', hs'⟩
  · obtain ⟨hsubmit, howned, -⟩ := (UsbState.canGive_iff hcurrent).1 hcan
    obtain ⟨s', hs', -⟩ := h.callOnPacket hserves (.inl hin) hcurrent howned hout
      (fun _ => hsubmit) hdepth
    exact ⟨s', hs'⟩
  · obtain ⟨s', hs', -⟩ := h.startTransfer hserves hcurrent hfresh
      (by omega : own + p.bufferCount ≤ depth)
    exact ⟨s', hs'⟩
  · obtain ⟨s', hs', -⟩ :=
      UsbState.Ordered.stallEndpoint hserves (fun hs hne => h.setHalt hne) hne hdepth
    exact ⟨s', hs'⟩
  · obtain ⟨s', hs', -⟩ := h.resetEndpoint hserves hard hdepth
    exact ⟨s', hs'⟩

end Runs

/-- A driver whose only function finishes every packet at once. -/
def eagerDriver : UsbDriver Unit Unit Unit Unit := fun c _ e s => usbPacketDone c e s

/-- The roles of an IN endpoint with two buffers, for that driver. -/
def eagerRoles : UsbRoles Unit := ⟨fun _ => True, true, true⟩

/-- The endpoint before a transfer of a million packets. -/
def eagerState : UsbState Unit Unit Unit Unit where
  endpoint _ :=
    { isIn := true
      doubleBuffered := true
      bufferSize := 64
      defaultTransfer := none
      currentTransfer := none
      chainTransfer := none
      onStallChange := none
      currentHwBuffer := ⟨false, 0, false⟩
      nextPid := false
      ownedBufferCount := 2
      currentGiveBuffer := false
      currentTakeBuffer := false
      haltState := .none
      firstBufferAfterReset := true
      hw := ⟨fun _ => [], [], []⟩ }
  transfer _ := (UsbTransfer.reset ⟨.driver (), 0⟩ none).grow 1000000
  currentConfigNum := 1
  client := ()

theorem eagerDriver_serves : eagerRoles.Serves eagerDriver () 0 where
  onPacket depth _ _ _ s t _ _ := by
    have hmap : usbPacketDone (usbCalls eagerDriver depth) () s =
        (usbPacketDone (usbCalls eagerDriver depth) () s).map id := by
      cases usbPacketDone (usbCalls eagerDriver depth) () s <;> rfl
    unfold eagerDriver at hmap ⊢
    rw [hmap]
    exact .done (.refl s ()) fun s => ⟨.refl s (), rfl⟩
  onComplete _ _ _ hnot := absurd trivial hnot
  onStallChange _ _ _ hnot := absurd trivial hnot

theorem eagerState_initial : eagerState.Initial eagerRoles () where
  isIn := rfl
  doubleBuffered := rfl
  wired _ := ⟨fun _ _ => trivial, fun _ h => by cases h⟩
  onStallChange _ h := by cases h
  currentTransfer := rfl
  chainTransfer := rfl
  owned := rfl
  available := rfl

/-- Calls of depth 3 are enough to start a transfer of a million packets on it. -/
theorem eagerState_starts :
    ∃ s', usbStartTransfer (usbCalls eagerDriver 3) () () eagerState = .ok s' :=
  (usbNesting_bounded eagerDriver_serves (by decide) eagerState_initial .refl).2.2.2.2.1 () rfl
    ((UsbTransfer.reset_fresh _ _).grow _)

end PicoBootrom
