import PicoBootrom.UsbInvariant
import PicoBootrom.UsbStream

/-!
# Frames

What no function of the USB device library changes. A frame is a preorder on states that the
library's changes of an endpoint and of a transfer respect, as they keep the wiring of the endpoint
and the type of the transfer, and that says nothing of the state of the user of the library. If the
functions of the user of the library respect it as well, every function does, for calls of any depth
(`UsbFrame.calls`).
-/

set_option linter.unusedSectionVars false

namespace PicoBootrom

variable {ε τ ν κ : Type} [DecidableEq ε] [DecidableEq τ]

/-! ## Endpoints -/

/-- The endpoint is wired the same, and the buffers that are available to the hardware are still the
last ones it was given. -/
structure UsbEndpoint.Kept (E' E : UsbEndpoint τ ν) : Prop extends E'.SameWiring E where
  order : E.hw.available <:+ E.hw.given → E'.hw.available <:+ E'.hw.given

namespace UsbEndpoint.Kept

variable {E E' E'' : UsbEndpoint τ ν}

theorem refl (E : UsbEndpoint τ ν) : E.Kept E :=
  ⟨.refl E, id⟩

theorem trans (h' : E''.Kept E') (h : E'.Kept E) : E''.Kept E :=
  ⟨h'.toSameWiring.trans h.toSameWiring, fun horder => h'.order (h.order horder)⟩

theorem fetchBuffer (E : UsbEndpoint τ ν) : E.fetchBuffer.Kept E := by
  obtain ⟨b, hb, -⟩ := E.fetchBuffer_eq
  rw [hb]
  exact ⟨⟨rfl, rfl, rfl, rfl⟩, id⟩

/-- A buffer is given. -/
theorem giveBuffer (E : UsbEndpoint τ ν) (len : Word) : (E.giveBuffer len).Kept E := by
  refine ⟨⟨rfl, rfl, rfl, rfl⟩, ?_⟩
  rintro ⟨before, hgiven⟩
  exact ⟨before, by simp [← hgiven]⟩

/-- The hardware returns a buffer. -/
theorem bufferDone {packet : List Byte} {which : Bool}
    (h : E.bufferDone packet = some (which, E')) : E'.Kept E := by
  unfold UsbEndpoint.bufferDone at h
  split at h
  · cases h
  · next b rest havail =>
    obtain ⟨-, rfl⟩ := Prod.mk.inj (Option.some.inj h)
    refine ⟨⟨rfl, rfl, rfl, rfl⟩, ?_⟩
    rintro ⟨before, hgiven⟩
    exact ⟨before ++ [b], by simp [← hgiven, havail]⟩

theorem resetTransfers (E : UsbEndpoint τ ν) (hard : Bool) : (E.resetTransfers hard).Kept E :=
  ⟨⟨rfl, rfl, rfl, rfl⟩, fun _ => List.nil_suffix⟩

end UsbEndpoint.Kept

/-! ## Frames -/

/-- A relation between the state after a call and the state before it. -/
structure UsbFrame (R : UsbState ε τ ν κ → UsbState ε τ ν κ → Prop) : Prop where
  refl : ∀ s, R s s
  trans : ∀ {s s' s''}, R s'' s' → R s' s → R s'' s
  endpoint : ∀ {s e f}, (f (s.endpoint e)).Kept (s.endpoint e) → R (s.modifyEndpoint e f) s
  transfer : ∀ {s t f}, (f (s.transfer t)).type = (s.transfer t).type → R (s.modifyTransfer t f) s
  client : ∀ s f, R (s.modifyClient f) s

/-- The functions of a table respect a frame. -/
structure UsbCalls.Frames (c : UsbCalls ε τ ν κ)
    (R : UsbState ε τ ν κ → UsbState ε τ ν κ → Prop) : Prop where
  call : ∀ {f e s s'}, c.call f e s = .ok s' → R s' s
  again : ∀ {e s s'}, c.again e s = .ok s' → R s' s

section Functions

variable {R : UsbState ε τ ν κ → UsbState ε τ ν κ → Prop} {c : UsbCalls ε τ ν κ}
  {s s' : UsbState ε τ ν κ} {e : ε} {t : τ}

namespace UsbFrame

variable (hR : UsbFrame R) (hc : c.Frames R)

section Primitive

include hR

/-- A change of an endpoint, before the rest of a call. -/
theorem endpoint_trans {f : UsbEndpoint τ ν → UsbEndpoint τ ν}
    (hf : (f (s.endpoint e)).Kept (s.endpoint e)) (h : R s' (s.modifyEndpoint e f)) :
    R s' s :=
  hR.trans h (hR.endpoint hf)

/-- A change of a transfer, before the rest of a call. -/
theorem transfer_trans {f : UsbTransfer ν → UsbTransfer ν}
    (hf : (f (s.transfer t)).type = (s.transfer t).type) (h : R s' (s.modifyTransfer t f)) :
    R s' s :=
  hR.trans h (hR.transfer hf)

theorem started : R (s.started e t) s :=
  hR.trans (hR.transfer rfl) (hR.endpoint ⟨⟨rfl, rfl, rfl, rfl⟩, id⟩)

theorem completeTransfer : R (s.completeTransfer e t) s :=
  hR.trans (hR.endpoint ⟨⟨rfl, rfl, rfl, rfl⟩, id⟩) (hR.transfer rfl)

theorem currentPacketBuffer : R (usbCurrentPacketBuffer e s) s :=
  hR.endpoint (.fetchBuffer _)

theorem giveBuffer {len : Word} (hs' : usbGiveBuffer e len s = .ok s') : R s' s := by
  unfold usbGiveBuffer at hs'
  split at hs'
  · cases hs'
  · cases hs'
    exact hR.trans (hR.transfer rfl) (hR.endpoint (.giveBuffer _ _))

end Primitive

include hR hc

theorem callOnPacket (hs' : usbCallOnPacket c e s = .ok s') : R s' s := by
  unfold usbCallOnPacket at hs'
  split at hs'
  · cases hs'
  · exact hR.transfer_trans rfl (hc.call hs')

theorem giveAsManyBuffersAsPossible (hs' : usbGiveAsManyBuffersAsPossible c e s = .ok s') :
    R s' s := by
  unfold usbGiveAsManyBuffersAsPossible at hs'
  split at hs'
  · split at hs'
    · obtain ⟨s₁, hs₁, hs'⟩ := UsbResult.bind_eq_ok hs'
      have h₁ : R s₁ s := hR.callOnPacket hc hs₁
      split at hs'
      · cases hs'
        exact h₁
      · exact hR.trans (hc.again hs') h₁
    · obtain ⟨s₁, hs₁, hs'⟩ := UsbResult.bind_eq_ok hs'
      exact hR.trans (hc.again hs') (hR.giveBuffer hs₁)
  · cases hs'
    exact hR.refl s

theorem startTransfer (hs' : usbStartTransfer c e t s = .ok s') : R s' s :=
  hR.trans (hR.giveAsManyBuffersAsPossible hc hs') hR.started

theorem startDefaultTransfer (hs' : usbStartDefaultTransfer c e s = .ok s') : R s' s := by
  unfold usbStartDefaultTransfer at hs'
  split at hs'
  · cases hs'
  · exact hR.transfer_trans rfl (hR.startTransfer hc hs')

theorem stallEndpoint {hs : UsbHaltState} (hs' : usbStallEndpoint c e hs s = .ok s') : R s' s := by
  have hset : R (s.modifyEndpoint e fun E => E.setHalt hs) s := hR.endpoint ⟨⟨rfl, rfl, rfl, rfl⟩, id⟩
  unfold usbStallEndpoint at hs'
  split at hs'
  · dsimp only at hs'
    split at hs'
    · cases hs'
      exact hset
    · exact hR.trans (hc.call hs') hset
  · split at hs'
    · cases hs'
      exact hset
    · cases hs'
      exact hR.refl s

theorem checkForTransferCompletion (hs' : usbCheckForTransferCompletion c e s = .ok s') :
    R s' s := by
  unfold usbCheckForTransferCompletion at hs'
  split at hs'
  · cases hs'
  · split at hs'
    · split at hs'
      · cases hs'
        exact hR.trans (hR.transfer rfl) hR.completeTransfer
      · split at hs'
        · exact hR.trans (hc.call hs') hR.completeTransfer
        · split at hs'
          · exact hR.trans (hR.startTransfer hc hs') hR.completeTransfer
          · cases hs'
            exact hR.completeTransfer
    · cases hs'
      exact hR.refl s

theorem handleTransfer {which : Bool} (hs' : usbHandleTransfer c e which s = .ok s') : R s' s := by
  unfold usbHandleTransfer at hs'
  refine hR.endpoint_trans (f := UsbEndpoint.ownOne) (e := e) ⟨⟨rfl, rfl, rfl, rfl⟩, id⟩ ?_
  dsimp only at hs'
  generalize s.modifyEndpoint e UsbEndpoint.ownOne = s₁ at hs'
  split at hs'
  · exact hR.stallEndpoint hc hs'
  · next t _ =>
    split at hs'
    · cases hs'
      exact hR.transfer rfl
    · refine hR.endpoint_trans (f := fun E => E.takeBuffer which) (e := e) ⟨⟨rfl, rfl, rfl, rfl⟩, id⟩ ?_
      obtain ⟨s₂, h₂, hs'⟩ : ∃ s₂, R s₂ (s₁.modifyEndpoint e fun E => E.takeBuffer which) ∧
          (if (s₂.transfer t).completed then .ok s₂ else
            usbCheckForTransferCompletion c e (s₂.modifyTransfer t UsbTransfer.handleOne)) =
              Except.ok s' := by
        split at hs'
        · obtain ⟨s₂, hs₂, hs'⟩ := UsbResult.bind_eq_ok hs'
          exact ⟨s₂, hR.callOnPacket hc hs₂, hs'⟩
        · exact ⟨_, hR.refl _, hs'⟩
      split at hs'
      · cases hs'
        exact h₂
      · refine hR.trans ?_ h₂
        exact hR.transfer_trans rfl (hR.checkForTransferCompletion hc hs')

theorem packetDone (hs' : usbPacketDone c e s = .ok s') : R s' s := by
  unfold usbPacketDone at hs'
  split at hs'
  · cases hs'
  · next t _ =>
    refine hR.transfer_trans (f := fun T => T.setOutstanding false) (t := t) rfl ?_
    obtain ⟨s₁, hs₁, hs'⟩ := UsbResult.bind_eq_ok hs'
    refine hR.trans ?_ (hR.checkForTransferCompletion hc hs₁)
    split at hs'
    · cases hs'
      exact hR.refl _
    · obtain ⟨s₂, h₂, hs'⟩ : ∃ s₂, R s₂ s₁ ∧
          (let s := s₂.modifyEndpoint e UsbEndpoint.dropBuffer
          if (s.transfer t).packetQueued then
            let s := (s.modifyTransfer t fun T => T.setQueued false).modifyEndpoint e
              UsbEndpoint.disownOne
            usbHandleTransfer c e (!(s.endpoint e).currentTakeBuffer) s
          else usbGiveAsManyBuffersAsPossible c e s) = Except.ok s' := by
        split at hs'
        · obtain ⟨s₂, hs₂, hs'⟩ := UsbResult.bind_eq_ok hs'
          exact ⟨s₂, hR.giveBuffer hs₂, hs'⟩
        · exact ⟨s₁, hR.refl _, hs'⟩
      refine hR.trans ?_ h₂
      refine hR.endpoint_trans (f := UsbEndpoint.dropBuffer) (e := e) ⟨⟨rfl, rfl, rfl, rfl⟩, id⟩ ?_
      dsimp only at hs'
      split at hs'
      · refine hR.transfer_trans (f := fun T => T.setQueued false) (t := t) rfl ?_
        exact hR.endpoint_trans (f := UsbEndpoint.disownOne) (e := e) ⟨⟨rfl, rfl, rfl, rfl⟩, id⟩
          (hR.handleTransfer hc hs')
      · exact hR.giveAsManyBuffersAsPossible hc hs'

theorem resetEndpoint {hard : Bool} (hs' : usbResetEndpoint c e hard s = .ok s') : R s' s := by
  unfold usbResetEndpoint at hs'
  dsimp only at hs'
  refine hR.endpoint_trans (f := fun E => E.resetTransfers hard) (e := e) (.resetTransfers _ _) ?_
  generalize (s.modifyEndpoint e fun E => E.resetTransfers hard) = s₁ at hs' ⊢
  obtain ⟨s₂, h₂, hs'⟩ : ∃ s₂, R s₂ s₁ ∧
      (if s₂.currentConfigNum ≠ 0 ∧ (s₂.endpoint e).defaultTransfer.isSome ∧
        (s₂.endpoint e).currentTransfer = none then usbStartDefaultTransfer c e s₂
      else .ok s₂) = Except.ok s' := by
    have hset : R (s₁.modifyEndpoint e fun E => E.setHalt .none) s₁ :=
      hR.endpoint ⟨⟨rfl, rfl, rfl, rfl⟩, id⟩
    split at hs'
    · split at hs'
      · exact ⟨_, hset, hs'⟩
      · obtain ⟨s₂, hs₂, hs'⟩ := UsbResult.bind_eq_ok hs'
        exact ⟨s₂, hR.trans (hc.call hs₂) hset, hs'⟩
    · exact ⟨s₁, hR.refl _, hs'⟩
  refine hR.trans ?_ h₂
  split at hs'
  · exact hR.startDefaultTransfer hc hs'
  · cases hs'
    exact hR.refl _

/-- `CLEAR_FEATURE(ENDPOINT_HALT)`. -/
theorem clearFeature (hs' : usbClearFeature c e s = .ok s') : R s' s := by
  unfold usbClearFeature at hs'
  split at hs'
  · cases hs'
    exact hR.refl s
  · split at hs'
    · exact hR.resetEndpoint hc hs'
    · cases hs'
      exact hR.endpoint ⟨⟨rfl, rfl, rfl, rfl⟩, id⟩

/-- The interrupt for a buffer. -/
theorem bufferInterrupt {packet : List Byte} (hs' : usbBufferInterrupt c e packet s = .ok s') :
    R s' s := by
  unfold usbBufferInterrupt at hs'
  split at hs'
  · cases hs'
    exact hR.refl s
  · next which E hdone =>
    exact hR.endpoint_trans (f := fun _ => E) (UsbEndpoint.Kept.bufferDone hdone)
      (hR.handleTransfer hc hs')

/-- `usb_stream_packet_handler_complete`. -/
theorem packetHandlerComplete {u : UsbStream κ} (hs' : u.packetHandlerComplete c e s = .ok s') :
    R s' s := by
  unfold UsbStream.packetHandlerComplete at hs'
  dsimp only at hs'
  refine hR.trans ?_ (hR.currentPacketBuffer (e := e))
  split at hs'
  · exact hR.endpoint_trans (f := fun E => E.fillBuffer (u.load s.client)) (e := e)
      ⟨⟨rfl, rfl, rfl, rfl⟩, id⟩ (hR.trans (hR.packetDone hc hs') (hR.client _ _))
  · exact hR.trans (hR.packetDone hc hs') (hR.client _ _)

/-- `_usb_stream_packet_packet_handler`. -/
theorem packetHandler {u : UsbStream κ} (hs' : u.packetHandler c e s = .ok s') : R s' s := by
  unfold UsbStream.packetHandler at hs'
  dsimp only at hs'
  generalize hs₁ : (if (s.endpoint e).isIn = true then s else _) = s₁ at hs'
  have h₁ : R s₁ s := by
    rw [← hs₁]
    split
    · exact hR.refl s
    · exact hR.trans (hR.client _ _) hR.currentPacketBuffer
  refine hR.trans ?_ h₁
  split at hs'
  · cases hs'
    exact hR.client _ _
  · exact hR.trans (hR.packetHandlerComplete hc hs') (hR.client _ _)

omit hc

/-- The functions of the library respect a frame that those of its user respect. -/
theorem calls {driver : UsbDriver ε τ ν κ}
    (hd : ∀ {c : UsbCalls ε τ ν κ}, c.Frames R → ∀ {f e s s'}, driver c f e s = .ok s' → R s' s)
    (depth : ℕ) : (usbCalls driver depth).Frames R := by
  induction depth with
  | zero =>
    exact
      { call := fun hs' => by cases hs'
        again := fun hs' => by cases hs' }
  | succ depth ih =>
    exact
      { call := fun {f} _ _ _ hs' => by
          cases f with
          | currentPacketOnly => exact hR.packetDone ih hs'
          | driver f => exact hd ih hs'
        again := fun hs' => hR.giveAsManyBuffersAsPossible ih hs' }

end UsbFrame

end Functions

end PicoBootrom
