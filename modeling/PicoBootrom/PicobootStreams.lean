import PicoBootrom.PicobootRuns
import PicoBootrom.UsbOutLine
import PicoBootrom.UsbQuiet

/-!
# The stream of a command

What the functions of PICOBOOT keep, whatever happens on the endpoints (`PicobootFrame`), and the
transfer of a stream on either endpoint.
-/

set_option linter.unusedSectionVars false

namespace PicoBootrom

/-! ## Wiring -/

/-- The wiring is kept. -/
def PicobootWired.Kept (s' s : PicobootState) : Prop := PicobootWired s → PicobootWired s'

theorem picobootFrame : UsbFrame PicobootWired.Kept where
  refl _ := id
  trans h' h hw := h' (h hw)
  endpoint {s e f} hf hw := by
    refine hw.of_wiring (fun e' => ?_) rfl
    by_cases he : e' = e
    · subst he
      rw [UsbState.modifyEndpoint_endpoint_self]
      exact hf.toSameWiring
    · rw [UsbState.modifyEndpoint_endpoint_of_ne _ _ _ _ he]
      exact .refl _
  transfer {s t f} hf hw := by
    refine hw.of_wiring (fun _ => .refl _) ?_
    by_cases ht : t = .cmd
    · subst ht
      rw [UsbState.modifyTransfer_transfer_self]
      exact hf
    · rw [UsbState.modifyTransfer_transfer_of_ne _ _ _ _ (Ne.symm ht)]
  client s f hw := hw.of_wiring (fun _ => .refl _) rfl

/-- A frame in which the transfers of a stream and of an acknowledgement may be set up. -/
structure PicobootFrame (R : PicobootState → PicobootState → Prop) : Prop extends UsbFrame R where
  setUp : ∀ {s t}, t ≠ .cmd → ∀ f, R (s.modifyTransfer t f) s

section Frames

variable {R : PicobootState → PicobootState → Prop} {c : PicobootCalls} {s s' : PicobootState}
  {e : PicobootEndpoint} {depth : ℕ}

namespace PicobootFrame

section Functions

variable (hR : PicobootFrame R) (hc : c.Frames R)

include hR hc

theorem ack (hs' : picobootAck c s = .ok s') : R s' s := by
  refine hR.trans ?_ (hR.client s PicobootClient.ack)
  unfold picobootAck usbStartEmptyTransfer usbResetAndStartTransfer at hs'
  dsimp only at hs'
  refine hR.trans (hR.startTransfer hc hs') (hR.trans (hR.setUp (by decide) _) ?_)
  split
  · exact hR.trans (hR.endpoint ⟨⟨rfl, rfl, rfl, rfl⟩, id⟩) hR.currentPacketBuffer
  · exact hR.refl _

theorem cmdAction {action : Picoboot.CmdAction} (hs' : picobootCmdAction c action s = .ok s') :
    R s' s := by
  have hsetup (ep : PicobootEndpoint) (len : Word) : R (setupPicobootStream ep len s) s :=
    hR.trans (hR.client _ _) (hR.trans (hR.setUp (by decide) _) (hR.client s _))
  cases action with
  | reboot pc sp delayMs => exact hR.trans (hR.ack hc hs') (hR.client _ _)
  | stream type len =>
    change (if _ then _ else _) = _ at hs'
    split at hs'
    · cases hs'
      exact hR.trans (hR.endpoint ⟨⟨rfl, rfl, rfl, rfl⟩, id⟩) (hsetup _ _)
    · exact hR.trans (hR.startTransfer hc hs') (hsetup _ _)
  | queueTask =>
    cases hs'
    exact hR.client _ _
  | halt =>
    obtain ⟨s₁, hs₁, hs'⟩ := UsbResult.bind_eq_ok hs'
    exact hR.trans (hR.stallEndpoint hc hs') (hR.stallEndpoint hc hs₁)

theorem driver {f : PicobootFunction} (hs' : picobootDriver c f e s = .ok s') : R s' s := by
  cases f with
  | cmdPacket =>
    obtain ⟨s₁, hs₁, hs'⟩ := UsbResult.bind_eq_ok hs'
    refine hR.trans (hR.packetDone hc hs') ?_
    exact hR.trans (hR.cmdAction hc hs₁) (hR.trans (hR.client _ _) hR.currentPacketBuffer)
  | tfWaitCommand =>
    change tfPicobootWaitCommand c s = .ok s' at hs'
    unfold tfPicobootWaitCommand usbStartDefaultTransferIfNotAlreadyRunningOrHalted at hs'
    split at hs'
    · exact hR.startDefaultTransfer hc hs'
    · cases hs'
      exact hR.refl _
  | tfAck => exact hR.ack hc hs'
  | streamPacketHandler => exact hR.packetHandler hc hs'

theorem taskDone {task : AsyncTask} (hs' : picobootTaskDone c task s = .ok s') : R s' s := by
  unfold picobootTaskDone at hs'
  split at hs'
  · unfold atcAck at hs'
    split at hs'
    · exact hR.ack hc hs'
    · cases hs'
      exact hR.refl _
  · unfold atcChunkTaskDone at hs'
    split at hs'
    · dsimp only at hs'
      split at hs'
      · obtain ⟨s₁, hs₁, hs'⟩ := UsbResult.bind_eq_ok hs'
        exact hR.trans (hR.packetHandlerComplete hc hs')
          (hR.trans (hR.stallEndpoint hc hs₁) (hR.client _ _))
      · exact hR.trans (hR.packetHandlerComplete hc hs') (hR.client _ _)
    · cases hs'
      exact hR.refl _
  · cases hs'
    exact hR.refl _

theorem reset (hs' : picobootReset c s = .ok s') : R s' s := by
  obtain ⟨s₁, hs₁, hs'⟩ := UsbResult.bind_eq_ok hs'
  obtain ⟨s₂, hs₂, hs'⟩ := UsbResult.bind_eq_ok hs'
  cases hs'
  exact hR.trans (hR.client _ _) (hR.trans (hR.resetEndpoint hc hs₂) (hR.resetEndpoint hc hs₁))

theorem clear (hs' : picobootClearFeature c e s = .ok s') : R s' s := by
  obtain ⟨s₁, hs₁, hs'⟩ := UsbResult.bind_eq_ok hs'
  have h₁ : R s₁ s := hR.clearFeature hc hs₁
  split at hs'
  · cases hs'
    exact hR.trans (hR.client _ _) h₁
  · cases hs'
    exact h₁

end Functions

/-- The functions that the library calls respect the frame. -/
theorem calls_frames (hR : PicobootFrame R) (depth : ℕ) : (usbCalls picobootDriver depth).Frames R :=
  hR.toUsbFrame.calls (fun hc _ _ _ _ hs' => hR.driver hc hs') depth

end PicobootFrame

/-- Another transfer than that of the commands is set up. -/
theorem PicobootWired.Kept.modifyTransfer {t : PicobootTransfer} (ht : t ≠ .cmd)
    (f : UsbTransfer PicobootFunction → UsbTransfer PicobootFunction) :
    PicobootWired.Kept (s.modifyTransfer t f) s := fun hw => by
  refine hw.of_wiring (fun _ => .refl _) ?_
  rw [UsbState.modifyTransfer_transfer_of_ne _ _ _ _ (Ne.symm ht)]

theorem picobootCalls_frames (depth : ℕ) :
    (usbCalls picobootDriver depth).Frames PicobootWired.Kept :=
  PicobootFrame.calls_frames { picobootFrame with setUp := fun ht f => .modifyTransfer ht f } depth

/-- The wiring and the configuration are kept. -/
structure PicobootWired.Stays (s' s : PicobootState) : Prop where
  wired : PicobootWired.Kept s' s
  config : s'.currentConfigNum = s.currentConfigNum

theorem picobootStays : PicobootFrame PicobootWired.Stays where
  refl s := ⟨picobootFrame.refl s, rfl⟩
  trans h' h := ⟨picobootFrame.trans h'.wired h.wired, h'.config.trans h.config⟩
  endpoint hf := ⟨picobootFrame.endpoint hf, rfl⟩
  transfer hf := ⟨picobootFrame.transfer hf, rfl⟩
  client s f := ⟨picobootFrame.client s f, rfl⟩
  setUp ht f := ⟨.modifyTransfer ht f, rfl⟩

end Frames

/-! ## The transfer of a stream -/

/-- The transfer of a stream on an endpoint. -/
def picobootLine (e : PicobootEndpoint) (count : ℕ) (first : Bool) :
    LineSetup PicobootTransfer PicobootFunction where
  transfer := .stream
  isIn := decide (e = .picobootIn)
  defaultTransfer := if e = .picobootOut then some .cmd else none
  onStallChange := none
  count := count
  first := first
  onPacket := .streamPacketHandler
  onComplete := some .tfAck
  chain := none

section Stream

variable {s s' : PicobootState} {e : PicobootEndpoint} {depth : ℕ}

/-- The packets of a stream go to `_usb_stream_packet_packet_handler`. -/
theorem picobootLine_handles (e : PicobootEndpoint) (count : ℕ) (first : Bool)
    (idle : ℕ → PicobootClient → Prop) :
    (picobootStream.handler (decide (e = .picobootIn))).Handles picobootDriver e
      (picobootLine e count first) idle :=
  fun c s _ hin _ => picobootStream.packetHandler_eq c e s hin

theorem UsbState.place_endpoint_of_ne {ε τ ν κ : Type} [DecidableEq ε] [DecidableEq τ]
    (s : UsbState ε τ ν κ) {e e' : ε} (t : τ) (E : UsbEndpoint τ ν) (T : UsbTransfer ν) (K : κ)
    (h : e' ≠ e) : (s.place e t E T K).endpoint e' = s.endpoint e' := by
  simp [place, h]

/-- The transfer of a stream that has ended is completed, whatever its acknowledgement does. -/
theorem picobootAck_completed {T : UsbTransfer PicobootFunction}
    (hT : s.transfer .stream = T.complete)
    (hs' : (usbCalls picobootDriver depth).call (.driver .tfAck) e s = .ok s') :
    (s'.transfer .stream).completed = true := by
  cases depth with
  | zero => cases hs'
  | succ depth =>
    rw [usbStartEmptyTransfer_ok hs', UsbState.armedEmpty_transfer_of_ne _ _ _ _ (by decide)]
    exact congrArg UsbTransfer.completed hT

end Stream

end PicoBootrom
