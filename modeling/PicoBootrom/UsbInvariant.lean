import PicoBootrom.UsbSingle

/-!
# Invariants of the USB device library

A rule for invariants of a user of the library, whose functions the library calls at any depth.
An invariant only looks at what the endpoints and the transfers are linked to, so that it is kept by
the bookkeeping of the buffers and the packets ; what it has to be proved for are the functions of
the user and the end of a transfer (`UsbInvariant`). It is then kept by every function of the
library, for calls of any depth (`UsbInvariant.keeps`).

The transfers that are served packet by packet are told apart from those of a single packet whose
interrupt is dealt with as a whole, in which the invariant may be broken for a while. Such a
transfer of an OUT endpoint is only given buffers (`usbGiveAsManyBuffersAsPossible_out_ok`).
-/

set_option linter.unusedSectionVars false

namespace PicoBootrom

variable {ε τ ν κ : Type} [DecidableEq ε] [DecidableEq τ]

/-! ## Bookkeeping -/

/-- The endpoint is linked to the same transfers and functions, and in the same halt state. -/
structure UsbEndpoint.SameLinks (E' E : UsbEndpoint τ ν) : Prop where
  isIn : E'.isIn = E.isIn
  doubleBuffered : E'.doubleBuffered = E.doubleBuffered
  defaultTransfer : E'.defaultTransfer = E.defaultTransfer
  currentTransfer : E'.currentTransfer = E.currentTransfer
  chainTransfer : E'.chainTransfer = E.chainTransfer
  onStallChange : E'.onStallChange = E.onStallChange
  haltState : E'.haltState = E.haltState

/-- What no function of the library changes of an endpoint. -/
structure UsbEndpoint.SameWiring (E' E : UsbEndpoint τ ν) : Prop where
  isIn : E'.isIn = E.isIn
  doubleBuffered : E'.doubleBuffered = E.doubleBuffered
  defaultTransfer : E'.defaultTransfer = E.defaultTransfer
  onStallChange : E'.onStallChange = E.onStallChange

/-- The transfer has the same functions, and is completed or not. -/
structure UsbTransfer.SameKind (T' T : UsbTransfer ν) : Prop where
  type : T'.type = T.type
  onComplete : T'.onComplete = T.onComplete
  completed : T'.completed = T.completed

theorem UsbEndpoint.SameWiring.refl (E : UsbEndpoint τ ν) : E.SameWiring E :=
  ⟨rfl, rfl, rfl, rfl⟩

theorem UsbEndpoint.SameWiring.trans {E E' E'' : UsbEndpoint τ ν} (h' : E''.SameWiring E')
    (h : E'.SameWiring E) : E''.SameWiring E where
  isIn := h'.isIn.trans h.isIn
  doubleBuffered := h'.doubleBuffered.trans h.doubleBuffered
  defaultTransfer := h'.defaultTransfer.trans h.defaultTransfer
  onStallChange := h'.onStallChange.trans h.onStallChange

theorem UsbEndpoint.SameLinks.wiring {E' E : UsbEndpoint τ ν} (h : E'.SameLinks E) :
    E'.SameWiring E :=
  ⟨h.isIn, h.doubleBuffered, h.defaultTransfer, h.onStallChange⟩

theorem UsbEndpoint.fetchBuffer_sameLinks (E : UsbEndpoint τ ν) : E.fetchBuffer.SameLinks E := by
  obtain ⟨b, hb, -⟩ := E.fetchBuffer_eq
  rw [hb]
  exact ⟨rfl, rfl, rfl, rfl, rfl, rfl, rfl⟩

theorem UsbEndpoint.bufferDone_sameLinks {E E' : UsbEndpoint τ ν} {packet : List Byte}
    {which : Bool} (h : E.bufferDone packet = some (which, E')) : E'.SameLinks E := by
  unfold UsbEndpoint.bufferDone at h
  split at h
  · cases h
  · obtain ⟨-, rfl⟩ := Prod.mk.inj (Option.some.inj h)
    exact ⟨rfl, rfl, rfl, rfl, rfl, rfl, rfl⟩

/-- A buffer is only given if the endpoint is not halted. -/
theorem UsbEndpoint.giveBuffer_sameLinks {E : UsbEndpoint τ ν} (h : E.haltState = .none)
    (len : Word) : (E.giveBuffer len).SameLinks E :=
  ⟨rfl, rfl, rfl, rfl, rfl, rfl, h.symm⟩

/-- What the buffers that are given do not change of a transfer. -/
structure UsbTransfer.SameHandling (T' T : UsbTransfer ν) : Prop extends T'.SameKind T where
  handle : T'.remainingPacketsToHandle = T.remainingPacketsToHandle
  outstanding : T'.outstandingPacket = T.outstandingPacket
  queued : T'.packetQueued = T.packetQueued
  started : T'.started = T.started

/-- The state with another endpoint and another transfer, of the same links. -/
structure UsbState.Bookkept (s' s : UsbState ε τ ν κ) (e : ε) (t : τ) : Prop where
  links : (s'.endpoint e).SameLinks (s.endpoint e)
  handling : (s'.transfer t).SameHandling (s.transfer t)
  endpoint : ∀ e' ≠ e, s'.endpoint e' = s.endpoint e'
  transfer : ∀ t' ≠ t, s'.transfer t' = s.transfer t'
  currentConfigNum : s'.currentConfigNum = s.currentConfigNum
  client : s'.client = s.client

theorem UsbEndpoint.SameLinks.trans {E E' E'' : UsbEndpoint τ ν} (h' : E''.SameLinks E')
    (h : E'.SameLinks E) : E''.SameLinks E where
  isIn := h'.isIn.trans h.isIn
  doubleBuffered := h'.doubleBuffered.trans h.doubleBuffered
  defaultTransfer := h'.defaultTransfer.trans h.defaultTransfer
  currentTransfer := h'.currentTransfer.trans h.currentTransfer
  chainTransfer := h'.chainTransfer.trans h.chainTransfer
  onStallChange := h'.onStallChange.trans h.onStallChange
  haltState := h'.haltState.trans h.haltState

theorem UsbTransfer.SameHandling.trans {T T' T'' : UsbTransfer ν} (h' : T''.SameHandling T')
    (h : T'.SameHandling T) : T''.SameHandling T where
  type := h'.type.trans h.type
  onComplete := h'.onComplete.trans h.onComplete
  completed := h'.completed.trans h.completed
  handle := h'.handle.trans h.handle
  outstanding := h'.outstanding.trans h.outstanding
  queued := h'.queued.trans h.queued
  started := h'.started.trans h.started

namespace UsbState

variable {s s' s'' : UsbState ε τ ν κ} {e : ε} {t : τ}

theorem Bookkept.refl (s : UsbState ε τ ν κ) (e : ε) (t : τ) : s.Bookkept s e t :=
  ⟨⟨rfl, rfl, rfl, rfl, rfl, rfl, rfl⟩, ⟨⟨rfl, rfl, rfl⟩, rfl, rfl, rfl, rfl⟩, fun _ _ => rfl,
    fun _ _ => rfl, rfl, rfl⟩

theorem Bookkept.trans (h' : s''.Bookkept s' e t) (h : s'.Bookkept s e t) :
    s''.Bookkept s e t where
  links := h'.links.trans h.links
  handling := h'.handling.trans h.handling
  endpoint e' hne := (h'.endpoint e' hne).trans (h.endpoint e' hne)
  transfer t' hne := (h'.transfer t' hne).trans (h.transfer t' hne)
  currentConfigNum := h'.currentConfigNum.trans h.currentConfigNum
  client := h'.client.trans h.client

theorem Bookkept.give (hhalt : (s.endpoint e).haltState = .none) (len : Word) :
    ((s.modifyEndpoint e fun E => E.giveBuffer len).modifyTransfer t
      UsbTransfer.submitOne).Bookkept s e t where
  links := by
    have hlinks := UsbEndpoint.giveBuffer_sameLinks hhalt len
    simpa using hlinks
  handling := by
    rw [modifyTransfer_transfer_self]
    exact ⟨⟨rfl, rfl, rfl⟩, rfl, rfl, rfl, rfl⟩
  endpoint e' hne := by
    rw [modifyTransfer_endpoint, modifyEndpoint_endpoint_of_ne _ _ _ _ hne]
  transfer t' hne := modifyTransfer_transfer_of_ne _ _ _ _ hne
  currentConfigNum := rfl
  client := rfl

end UsbState

theorem UsbState.started_sameWiring (s : UsbState ε τ ν κ) (e : ε) (t : τ) (e' : ε) :
    ((s.started e t).endpoint e').SameWiring (s.endpoint e') := by
  by_cases h : e' = e
  · subst h
    rw [started_endpoint]
    exact ⟨rfl, rfl, rfl, rfl⟩
  · rw [started, modifyTransfer_endpoint, modifyEndpoint_endpoint_of_ne _ _ _ _ h]
    exact .refl _

theorem UsbState.armed_sameWiring (s : UsbState ε τ ν κ) (e : ε) (t : τ) (e' : ε) :
    ((s.armed e t).endpoint e').SameWiring (s.endpoint e') := by
  by_cases h : e' = e
  · subst h
    rw [armed_endpoint]
    dsimp only
    split <;> exact ⟨rfl, rfl, rfl, rfl⟩
  · rw [armed_endpoint_of_ne h]
    exact .refl _

theorem UsbState.armedEmpty_sameWiring (s : UsbState ε τ ν κ) (e : ε) (t : τ)
    (onComplete : Option ν) (e' : ε) :
    ((s.armedEmpty e t onComplete).endpoint e').SameWiring (s.endpoint e') := by
  by_cases h : e' = e
  · subst h
    obtain ⟨b, hb⟩ := s.emptyPacket_eq e'
    refine (armed_sameWiring _ e' t e').trans ?_
    rw [modifyTransfer_endpoint, hb, modifyEndpoint_endpoint_self]
    exact ⟨rfl, rfl, rfl, rfl⟩
  · rw [armedEmpty_endpoint_of_ne _ _ _ _ h]
    exact .refl _

/-- A transfer of an OUT endpoint is only given buffers. -/
theorem usbGiveAsManyBuffersAsPossible_out_ok {driver : UsbDriver ε τ ν κ} {depth : ℕ}
    {s s' : UsbState ε τ ν κ} {e : ε} {t : τ} (hin : (s.endpoint e).isIn = false)
    (hcurrent : (s.endpoint e).currentTransfer = some t)
    (hs' : usbGiveAsManyBuffersAsPossible (usbCalls driver depth) e s = .ok s') :
    s'.Bookkept s e t := by
  induction depth generalizing s with
  | zero =>
    unfold usbGiveAsManyBuffersAsPossible at hs'
    split at hs'
    · simp [hin, usbGiveBuffer, hcurrent, usbCalls, bind, Except.bind] at hs'
    · cases hs'
      exact .refl _ _ _
  | succ depth ih =>
    unfold usbGiveAsManyBuffersAsPossible at hs'
    split at hs'
    · next hcan =>
      have hhalt : (s.endpoint e).haltState = .none := by
        simp only [UsbState.canGive, hcurrent, Bool.and_eq_true, decide_eq_true_eq] at hcan
        exact hcan.2
      simp only [hin, usbGiveBuffer, hcurrent, bind, Except.bind, Bool.false_eq_true, if_false]
        at hs'
      exact (ih (by simpa using hin) (by simpa using hcurrent) hs').trans (.give hhalt _)
    · cases hs'
      exact .refl _ _ _

/-- The start of a transfer of an OUT endpoint. -/
theorem usbStartTransfer_out_ok {driver : UsbDriver ε τ ν κ} {depth : ℕ}
    {s s' : UsbState ε τ ν κ} {e : ε} {t : τ} (hin : (s.endpoint e).isIn = false)
    (hs' : usbStartTransfer (usbCalls driver depth) e t s = .ok s') :
    s'.Bookkept (s.started e t) e t :=
  usbGiveAsManyBuffersAsPossible_out_ok (by simpa using hin) (by simp) hs'

/-- A packet of an OUT transfer that has more to handle is done. -/
theorem usbPacketDone_out_ok {driver : UsbDriver ε τ ν κ} {depth : ℕ} {s s' : UsbState ε τ ν κ}
    {e : ε} {t : τ} (hcurrent : (s.endpoint e).currentTransfer = some t)
    (hin : (s.endpoint e).isIn = false) (hhalt : (s.endpoint e).haltState = .none)
    (hhandle : (s.transfer t).remainingPacketsToHandle ≠ 0)
    (hcompleted : (s.transfer t).completed = false)
    (hqueued : (s.transfer t).packetQueued = false)
    (hs' : usbPacketDone (usbCalls driver depth) e s = .ok s') :
    s'.Bookkept ((s.modifyEndpoint e UsbEndpoint.dropBuffer).modifyTransfer t
      fun T => T.setOutstanding false) e t := by
  have hplace := s.place_self e t
  rw [← hplace, usbPacketDone_place_out hcurrent hhalt hhandle hcompleted hin, hqueued,
    if_neg Bool.false_ne_true] at hs'
  have hkept := usbGiveAsManyBuffersAsPossible_out_ok (t := t) (by simpa using hin)
    (by simpa using hcurrent) hs'
  have heq : (s.modifyEndpoint e UsbEndpoint.dropBuffer).modifyTransfer t
      (fun T => T.setOutstanding false) = s.place e t (s.endpoint e).dropBuffer
        ((s.transfer t).setOutstanding false) s.client := by
    simp [UsbState.place, UsbState.modifyEndpoint, UsbState.modifyTransfer]
  rw [heq]
  exact hkept

/-! ## What is kept -/

/-- A transfer that is not completed is the current one of an endpoint that is not halted : at its
end it may have been started again. -/
def UsbState.Restarted (s : UsbState ε τ ν κ) (e : ε) (t : τ) : Prop :=
  (s.transfer t).completed = false →
    (s.endpoint e).haltState = .none ∧ (s.endpoint e).currentTransfer = some t

/-- The functions of a table keep an invariant, in the states in which the library calls them. -/
structure UsbCalls.Keeps (c : UsbCalls ε τ ν κ) (serves : τ → Prop)
    (I : UsbState ε τ ν κ → Prop) : Prop where
  packetOnly : ∀ {e s s'}, I s → c.call .currentPacketOnly e s = .ok s' → I s'
  onPacket : ∀ {e t f s s'}, I s → (s.endpoint e).currentTransfer = some t → serves t →
    (s.transfer t).type.onPacket = .driver f → (s.transfer t).outstandingPacket = true →
    c.call (.driver f) e s = .ok s' → I s'
  onComplete : ∀ {e t f s s'}, I s → (s.endpoint e).currentTransfer = some t →
    (s.endpoint e).haltState = .none → (s.transfer t).onComplete = some f →
    c.call (.driver f) e (s.completeTransfer e t) = .ok s' →
    I s' ∧ s'.Restarted e t
  again : ∀ {e s s'}, I s → c.again e s = .ok s' → I s'
  unexpected : ∀ {e s s'}, I s → (s.endpoint e).currentTransfer = none →
    usbHaltEndpoint c e s = .ok s' → I s'

/-- An invariant is kept by the bookkeeping of the library. -/
structure UsbKept (serves : τ → Prop) (I : UsbState ε τ ν κ → Prop) : Prop where
  endpoint : ∀ {s e E}, I s → E.SameLinks (s.endpoint e) → I (s.modifyEndpoint e fun _ => E)
  transfer : ∀ {s t T}, I s → serves t → T.SameKind (s.transfer t) →
    I (s.modifyTransfer t fun _ => T)
  submit : ∀ {s t}, I s → I (s.modifyTransfer t UsbTransfer.submitOne)
  done : ∀ {s t}, I s → I (s.modifyTransfer t fun T => T.setOutstanding false)
  queued : ∀ {s e t}, I s → (s.endpoint e).currentTransfer = some t →
    (s.transfer t).packetQueued = true → serves t
  served : ∀ {s e t}, I s → (s.endpoint e).currentTransfer = some t →
    (s.endpoint e).isIn = true → serves t
  halted : ∀ {s e t}, I s → (s.endpoint e).currentTransfer = some t →
    (s.endpoint e).haltState ≠ .none →
    I ((s.completeTransfer e t).modifyTransfer t UsbTransfer.dropPackets)
  handled : ∀ {s e t}, I s → (s.endpoint e).currentTransfer = some t →
    (s.transfer t).remainingPacketsToHandle = 0 → (s.transfer t).onComplete ≠ none

/-- What an invariant has to be proved for. -/
structure UsbInvariant (driver : UsbDriver ε τ ν κ) (serves : τ → Prop)
    (I : UsbState ε τ ν κ → Prop) : Prop extends UsbKept serves I where
  onPacket : ∀ {c : UsbCalls ε τ ν κ}, c.Keeps serves I → ∀ {e t f s s'}, I s →
    (s.endpoint e).currentTransfer = some t → serves t →
    (s.transfer t).type.onPacket = .driver f → (s.transfer t).outstandingPacket = true →
    driver c f e s = .ok s' → I s'
  onComplete : ∀ {depth e t f s s'}, I s → (s.endpoint e).currentTransfer = some t →
    (s.endpoint e).haltState = .none → (s.transfer t).onComplete = some f →
    driver (usbCalls driver depth) f e (s.completeTransfer e t) = .ok s' →
    I s' ∧ s'.Restarted e t
  unexpected : ∀ {depth e s s'}, I s → (s.endpoint e).currentTransfer = none →
    usbHaltEndpoint (usbCalls driver depth) e s = .ok s' → I s'

/-! ## The functions of the library -/

section Keeps

variable {driver : UsbDriver ε τ ν κ} {serves : τ → Prop} {I : UsbState ε τ ν κ → Prop}
  {c : UsbCalls ε τ ν κ} {s s' : UsbState ε τ ν κ} {e : ε} {t : τ}

/-- A call that returns has returned from its parts. -/
theorem UsbResult.bind_eq_ok {α β : Type} {r : UsbResult α} {f : α → UsbResult β} {b : β}
    (h : r >>= f = .ok b) : ∃ a, r = .ok a ∧ f a = .ok b := by
  cases r with
  | error fault => cases h
  | ok a => exact ⟨a, rfl, h⟩

namespace UsbKept

variable (hI : UsbKept serves I) (hc : c.Keeps serves I)
include hI hc

theorem callOnPacket (h : I s) (hserves : ∀ t, (s.endpoint e).currentTransfer = some t → serves t)
    (hs' : usbCallOnPacket c e s = .ok s') : I s' := by
  unfold usbCallOnPacket at hs'
  split at hs'
  · cases hs'
  · next t hcurrent =>
    have ht : I (s.modifyTransfer t fun T => T.setOutstanding true) :=
      hI.transfer h (hserves t hcurrent) ⟨rfl, rfl, rfl⟩
    cases htype : (s.transfer t).type.onPacket with
    | currentPacketOnly =>
      rw [htype] at hs'
      exact hc.packetOnly ht hs'
    | driver f =>
      rw [htype] at hs'
      exact hc.onPacket ht hcurrent (hserves t hcurrent) (by simpa using htype) (by simp) hs'

theorem giveAsManyBuffersAsPossible (h : I s)
    (hs' : usbGiveAsManyBuffersAsPossible c e s = .ok s') : I s' := by
  unfold usbGiveAsManyBuffersAsPossible at hs'
  split at hs'
  · next hcan =>
    split at hs'
    · next hin =>
      obtain ⟨s₁, hs₁, hs'⟩ := UsbResult.bind_eq_ok hs'
      have h₁ : I s₁ := hI.callOnPacket hc h (fun t hcurrent => hI.served h hcurrent hin) hs₁
      split at hs'
      · cases hs'
        exact h₁
      · exact hc.again h₁ hs'
    · obtain ⟨s₁, hs₁, hs'⟩ := UsbResult.bind_eq_ok hs'
      refine hc.again ?_ hs'
      unfold usbGiveBuffer at hs₁
      split at hs₁
      · cases hs₁
      · next t hcurrent =>
        cases hs₁
        have hhalt : (s.endpoint e).haltState = .none := by
          simp only [UsbState.canGive, hcurrent, Bool.and_eq_true, decide_eq_true_eq] at hcan
          exact hcan.2
        exact hI.submit (hI.endpoint h (UsbEndpoint.giveBuffer_sameLinks hhalt _))
  · cases hs'
    exact h

theorem checkForTransferCompletion (h : I s) (hcurrent : (s.endpoint e).currentTransfer = some t)
    (hs' : usbCheckForTransferCompletion c e s = .ok s') :
    I s' ∧ s'.Restarted e t := by
  by_cases hcompletes : s.completes e t = true
  · by_cases hhalt : (s.endpoint e).haltState = .none
    · have hdone : (s.transfer t).remainingPacketsToHandle = 0 ∧
          (s.transfer t).outstandingPacket = false := by
        simpa [UsbState.completes, hhalt] using hcompletes
      rw [usbCheckForTransferCompletion_of_done hcurrent hhalt hdone.1 hdone.2] at hs'
      unfold UsbState.finish at hs'
      cases hf : (s.transfer t).onComplete with
      | none => exact absurd hf (hI.handled h hcurrent hdone.1)
      | some f =>
        rw [hf] at hs'
        exact hc.onComplete h hcurrent hhalt hf hs'
    · rw [usbCheckForTransferCompletion_of_halted hcurrent hhalt] at hs'
      cases hs'
      exact ⟨hI.halted h hcurrent hhalt, by simp [UsbState.Restarted, UsbState.completeTransfer]⟩
  · simp only [usbCheckForTransferCompletion, hcurrent, if_neg hcompletes] at hs'
    cases hs'
    refine ⟨h, fun _ => ⟨?_, hcurrent⟩⟩
    by_contra hhalt
    simp [UsbState.completes, hhalt] at hcompletes

theorem handleTransfer {which : Bool} (h : I s)
    (hserves : ∀ t, (s.endpoint e).currentTransfer = some t → serves t)
    (hs' : usbHandleTransfer c e which s = .ok s') : I s' := by
  have hown : I (s.modifyEndpoint e UsbEndpoint.ownOne) :=
    hI.endpoint h ⟨rfl, rfl, rfl, rfl, rfl, rfl, rfl⟩
  have hsame : ((s.modifyEndpoint e UsbEndpoint.ownOne).endpoint e).currentTransfer =
      (s.endpoint e).currentTransfer := by simp
  unfold usbHandleTransfer at hs'
  dsimp only at hs'
  rw [← hsame] at hserves
  generalize s.modifyEndpoint e UsbEndpoint.ownOne = s₁ at hown hs' hserves
  cases hcurrent : (s₁.endpoint e).currentTransfer with
  | none =>
    rw [hcurrent] at hs'
    exact hc.unexpected hown hcurrent hs'
  | some t =>
    rw [hcurrent] at hs'
    dsimp only at hs'
    have ht := hserves t hcurrent
    split at hs'
    · cases hs'
      exact hI.transfer hown ht ⟨rfl, rfl, rfl⟩
    · have htake : I (s₁.modifyEndpoint e fun E => E.takeBuffer which) :=
        hI.endpoint hown ⟨rfl, rfl, rfl, rfl, rfl, rfl, rfl⟩
      obtain ⟨s₂, h₂, hs'⟩ : ∃ s₂, I s₂ ∧ (if (s₂.transfer t).completed then .ok s₂
          else usbCheckForTransferCompletion c e (s₂.modifyTransfer t UsbTransfer.handleOne)) =
            Except.ok s' := by
        split at hs'
        · obtain ⟨s₂, hs₂, hs'⟩ := UsbResult.bind_eq_ok hs'
          refine ⟨s₂, hI.callOnPacket hc htake (fun t' ht' => ?_) hs₂, hs'⟩
          exact hserves t' (by simpa using ht')
        · exact ⟨_, htake, hs'⟩
      split at hs'
      · cases hs'
        exact h₂
      · have hhandle : I (s₂.modifyTransfer t UsbTransfer.handleOne) :=
          hI.transfer h₂ ht ⟨rfl, rfl, rfl⟩
        cases hcur : ((s₂.modifyTransfer t UsbTransfer.handleOne).endpoint e).currentTransfer with
        | none =>
          simp only [usbCheckForTransferCompletion, hcur] at hs'
          cases hs'
        | some t' => exact (hI.checkForTransferCompletion hc hhandle hcur hs').1

theorem packetDone (h : I s) (hs' : usbPacketDone c e s = .ok s') : I s' := by
  unfold usbPacketDone at hs'
  cases hcurrent : (s.endpoint e).currentTransfer with
  | none =>
    rw [hcurrent] at hs'
    cases hs'
  | some t =>
    rw [hcurrent] at hs'
    obtain ⟨s₁, hs₁, hs'⟩ := UsbResult.bind_eq_ok hs'
    obtain ⟨h₁, hhalt⟩ := hI.checkForTransferCompletion hc (t := t) (hI.done h)
      (by simpa using hcurrent) hs₁
    split at hs'
    · cases hs'
      exact h₁
    · next hnot =>
      obtain ⟨hnone, hcur⟩ := hhalt (by simpa using hnot)
      obtain ⟨s₂, h₂, hcur₂, hs'⟩ : ∃ s₂, I s₂ ∧ (s₂.endpoint e).currentTransfer = some t ∧
          (let s := s₂.modifyEndpoint e UsbEndpoint.dropBuffer
          if (s.transfer t).packetQueued then
            let s := (s.modifyTransfer t fun T => T.setQueued false).modifyEndpoint e
              UsbEndpoint.disownOne
            usbHandleTransfer c e (!(s.endpoint e).currentTakeBuffer) s
          else usbGiveAsManyBuffersAsPossible c e s) = Except.ok s' := by
        split at hs'
        · obtain ⟨s₂, hs₂, hs'⟩ := UsbResult.bind_eq_ok hs'
          simp only [usbGiveBuffer, hcur] at hs₂
          cases hs₂
          have hgive : I ((s₁.modifyEndpoint e fun E => E.giveBuffer
              ((s₁.endpoint e).currentHwBuffer.dataLen.setWidth 32)).modifyTransfer t
                UsbTransfer.submitOne) :=
            hI.submit (hI.endpoint h₁ (UsbEndpoint.giveBuffer_sameLinks hnone _))
          exact ⟨_, hgive, by simpa using hcur, hs'⟩
        · exact ⟨s₁, h₁, hcur, hs'⟩
      have hdrop : I (s₂.modifyEndpoint e UsbEndpoint.dropBuffer) :=
        hI.endpoint h₂ ⟨rfl, rfl, rfl, rfl, rfl, rfl, rfl⟩
      dsimp only at hs'
      split at hs'
      · next hqueued =>
        have ht : serves t := hI.queued (e := e) hdrop (by simpa using hcur₂) hqueued
        have hset : I ((s₂.modifyEndpoint e UsbEndpoint.dropBuffer).modifyTransfer t
            fun T => T.setQueued false) := hI.transfer hdrop ht ⟨rfl, rfl, rfl⟩
        have hdisown : I (((s₂.modifyEndpoint e UsbEndpoint.dropBuffer).modifyTransfer t
            fun T => T.setQueued false).modifyEndpoint e UsbEndpoint.disownOne) :=
          hI.endpoint hset ⟨rfl, rfl, rfl, rfl, rfl, rfl, rfl⟩
        refine hI.handleTransfer hc hdisown (fun t' ht' => ?_) hs'
        have heq : t = t' := by simpa [hcur₂] using ht'
        exact heq ▸ ht
      · exact hI.giveAsManyBuffersAsPossible hc hdrop hs'

/-- The interrupt for a buffer of a transfer that is served packet by packet, or of none. -/
theorem bufferInterrupt {packet : List Byte} (h : I s)
    (hserves : ∀ t, (s.endpoint e).currentTransfer = some t → serves t)
    (hs' : usbBufferInterrupt c e packet s = .ok s') : I s' := by
  unfold usbBufferInterrupt at hs'
  split at hs'
  · cases hs'
    exact h
  · next which E hdone =>
    have hlinks := UsbEndpoint.bufferDone_sameLinks hdone
    refine hI.handleTransfer hc (hI.endpoint h hlinks) (fun t ht => ?_) hs'
    exact hserves t (hlinks.currentTransfer ▸ by simpa using ht)

end UsbKept

/-- An invariant of the user of the library is kept by its functions, for calls of any depth. -/
theorem UsbInvariant.keeps (hI : UsbInvariant driver serves I) (depth : ℕ) :
    (usbCalls driver depth).Keeps serves I := by
  induction depth with
  | zero =>
    exact
      { packetOnly := fun _ h => by cases h
        onPacket := fun _ _ _ _ _ h => by cases h
        onComplete := fun _ _ _ _ h => by cases h
        again := fun _ h => by cases h
        unexpected := hI.unexpected }
  | succ depth ih =>
    exact
      { packetOnly := fun h hs' => hI.packetDone ih h hs'
        onPacket := fun h hcurrent ht htype hout hs' =>
          hI.onPacket ih h hcurrent ht htype hout hs'
        onComplete := fun h hcurrent hhalt hf hs' => hI.onComplete h hcurrent hhalt hf hs'
        again := fun h hs' => hI.giveAsManyBuffersAsPossible ih h hs'
        unexpected := hI.unexpected }

end Keeps

end PicoBootrom
