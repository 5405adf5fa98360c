import PicoBootrom.UsbStream

/-!
# What a call does not look at

The functions of the USB device library look at endpoints and transfers, and change the state of
their user only through its functions. A part of that state that no function of the user looks at
does not matter to any call : a change of it can be made before the call or after it
(`UsbIgnores`). As with the frames, the functions of the user are shown to ignore the change if the
table of the callbacks does, and then calls of any depth ignore it (`UsbIgnores.calls`).
-/

set_option linter.unusedSectionVars false

namespace PicoBootrom

variable {ε τ ν κ : Type} [DecidableEq ε] [DecidableEq τ]

/-! ## Changes of the state of the user -/

/-- A change of the state of the user can be made before a call or after it. -/
def UsbIgnores (φ : κ → κ) (F : UsbState ε τ ν κ → UsbResult (UsbState ε τ ν κ)) : Prop :=
  ∀ s, F (s.modifyClient φ) = (·.modifyClient φ) <$> F s

/-- The functions of a table ignore a change. -/
structure UsbCalls.Ignores (c : UsbCalls ε τ ν κ) (φ : κ → κ) : Prop where
  call : ∀ f e, UsbIgnores φ (c.call f e)
  again : ∀ e, UsbIgnores φ (c.again e)

/-- The functions of a stream ignore a change. -/
structure UsbStream.Ignores (u : UsbStream κ) (φ : κ → κ) : Prop where
  transfer : ∀ K, u.transfer (φ K) = u.transfer K
  setTransfer : ∀ S K, u.setTransfer S (φ K) = φ (u.setTransfer S K)
  chunkBuffer : ∀ K, u.chunkBuffer (φ K) = u.chunkBuffer K
  setChunkBuffer : ∀ buffer K, u.setChunkBuffer buffer (φ K) = φ (u.setChunkBuffer buffer K)
  onChunk : ∀ len K, u.onChunk len (φ K) = (φ (u.onChunk len K).1, (u.onChunk len K).2)
  onPacketComplete : ∀ K, u.onPacketComplete (φ K) = φ (u.onPacketComplete K)

namespace UsbState

variable (s : UsbState ε τ ν κ) (φ : κ → κ) (e : ε) (t : τ)

theorem modifyClient_modifyEndpoint (f : UsbEndpoint τ ν → UsbEndpoint τ ν) :
    (s.modifyClient φ).modifyEndpoint e f = (s.modifyEndpoint e f).modifyClient φ :=
  rfl

theorem modifyClient_modifyTransfer (f : UsbTransfer ν → UsbTransfer ν) :
    (s.modifyClient φ).modifyTransfer t f = (s.modifyTransfer t f).modifyClient φ :=
  rfl

theorem modifyClient_canGive : (s.modifyClient φ).canGive e = s.canGive e :=
  rfl

theorem modifyClient_completes : (s.modifyClient φ).completes e t = s.completes e t :=
  rfl

theorem modifyClient_completeTransfer :
    (s.modifyClient φ).completeTransfer e t = (s.completeTransfer e t).modifyClient φ :=
  rfl

theorem modifyClient_currentPacketBuffer :
    usbCurrentPacketBuffer e (s.modifyClient φ) = (usbCurrentPacketBuffer e s).modifyClient φ :=
  rfl

/-- A change of the state of the user is followed by one that commutes with it. -/
theorem modifyClient_comm {f : κ → κ} (h : ∀ K, f (φ K) = φ (f K)) :
    (s.modifyClient φ).modifyClient f = (s.modifyClient f).modifyClient φ :=
  congrArg (fun K => { s with client := K }) (h s.client)

end UsbState

/-- A call that ignores a change, followed by another one. -/
theorem UsbIgnores.bind {φ : κ → κ} {r r' : UsbResult (UsbState ε τ ν κ)}
    {G : UsbState ε τ ν κ → UsbResult (UsbState ε τ ν κ)} (h : r' = (·.modifyClient φ) <$> r)
    (hG : UsbIgnores φ G) : r' >>= G = (·.modifyClient φ) <$> (r >>= G) := by
  rw [h, bind_map_left, map_bind]
  exact congrArg (r >>= ·) (funext hG)

/-! ## The functions of the library -/

section Functions

variable {φ : κ → κ} {c : UsbCalls ε τ ν κ} {e : ε} {t : τ}

open UsbState

namespace UsbIgnores

theorem giveBuffer {len : Word} :
    UsbIgnores φ (usbGiveBuffer e len : UsbState ε τ ν κ → UsbResult (UsbState ε τ ν κ)) := by
  intro s
  unfold usbGiveBuffer
  rw [modifyClient_endpoint]
  split <;> rfl

section Table

variable (hc : c.Ignores φ)

include hc

theorem callOnPacket : UsbIgnores φ (usbCallOnPacket c e) := by
  intro s
  unfold usbCallOnPacket
  rw [modifyClient_endpoint]
  split
  · rfl
  · rw [modifyClient_modifyTransfer]
    exact hc.call _ e _

theorem giveAsManyBuffersAsPossible : UsbIgnores φ (usbGiveAsManyBuffersAsPossible c e) := by
  intro s
  unfold usbGiveAsManyBuffersAsPossible
  rw [modifyClient_canGive, modifyClient_endpoint]
  split
  · split
    · refine UsbIgnores.bind (callOnPacket hc s) fun s' => ?_
      rw [modifyClient_endpoint]
      split
      · rfl
      · exact hc.again e s'
    · exact UsbIgnores.bind (giveBuffer s) (hc.again e)
  · rfl

theorem startTransfer : UsbIgnores φ (usbStartTransfer c e t) := by
  intro s
  unfold usbStartTransfer
  rw [modifyClient_modifyEndpoint, modifyClient_modifyTransfer]
  exact giveAsManyBuffersAsPossible hc _

theorem resetAndStartTransfer {type : UsbTransferType ν} {onComplete : Option ν} :
    UsbIgnores φ (usbResetAndStartTransfer c e t type onComplete) := by
  intro s
  unfold usbResetAndStartTransfer
  rw [modifyClient_modifyTransfer]
  exact startTransfer hc _

theorem startDefaultTransfer : UsbIgnores φ (usbStartDefaultTransfer c e) := by
  intro s
  unfold usbStartDefaultTransfer
  rw [modifyClient_endpoint]
  split
  · rfl
  · exact resetAndStartTransfer hc s

theorem startDefaultTransferIfNotAlreadyRunningOrHalted :
    UsbIgnores φ (usbStartDefaultTransferIfNotAlreadyRunningOrHalted c e) := by
  intro s
  unfold usbStartDefaultTransferIfNotAlreadyRunningOrHalted
  rw [modifyClient_endpoint]
  split
  · exact startDefaultTransfer hc s
  · rfl

theorem stallEndpoint {hs : UsbHaltState} : UsbIgnores φ (usbStallEndpoint c e hs) := by
  intro s
  unfold usbStallEndpoint
  rw [modifyClient_endpoint]
  split
  · dsimp only
    rw [modifyClient_modifyEndpoint, modifyClient_endpoint]
    split
    · rfl
    · exact hc.call _ e _
  · split <;> rfl

theorem checkForTransferCompletion : UsbIgnores φ (usbCheckForTransferCompletion c e) := by
  intro s
  unfold usbCheckForTransferCompletion
  rw [modifyClient_endpoint, modifyClient_transfer]
  split
  · rfl
  · rw [modifyClient_completes, modifyClient_completeTransfer]
    split
    · split
      · rfl
      · split
        · exact hc.call _ e _
        · split
          · exact startTransfer hc _
          · rfl
    · rfl

theorem handleTransfer {which : Bool} : UsbIgnores φ (usbHandleTransfer c e which) := by
  intro s
  unfold usbHandleTransfer
  dsimp only
  rw [modifyClient_modifyEndpoint]
  generalize s.modifyEndpoint e UsbEndpoint.ownOne = s
  rw [modifyClient_endpoint, modifyClient_transfer]
  split
  · exact stallEndpoint hc s
  · split
    · rfl
    · next t _ _ =>
      have hrest : UsbIgnores φ fun s : UsbState ε τ ν κ =>
          if (s.transfer t).completed then .ok s
          else usbCheckForTransferCompletion c e (s.modifyTransfer t UsbTransfer.handleOne) := by
        intro s
        dsimp only
        rw [modifyClient_transfer, modifyClient_modifyTransfer]
        split
        · rfl
        · exact checkForTransferCompletion hc _
      rw [modifyClient_modifyEndpoint, modifyClient_endpoint, modifyClient_transfer]
      split
      · exact UsbIgnores.bind (callOnPacket hc _) hrest
      · exact hrest _

theorem packetDone : UsbIgnores φ (usbPacketDone c e) := by
  intro s
  unfold usbPacketDone
  rw [modifyClient_endpoint]
  split
  · rfl
  · next t _ =>
    have hrest : UsbIgnores φ fun s : UsbState ε τ ν κ =>
        let s := s.modifyEndpoint e UsbEndpoint.dropBuffer
        if (s.transfer t).packetQueued then
          let s := (s.modifyTransfer t fun T => T.setQueued false).modifyEndpoint e
            UsbEndpoint.disownOne
          usbHandleTransfer c e (!(s.endpoint e).currentTakeBuffer) s
        else usbGiveAsManyBuffersAsPossible c e s := by
      intro s
      dsimp only
      rw [modifyClient_modifyEndpoint, modifyClient_transfer, modifyClient_modifyTransfer,
        modifyClient_modifyEndpoint, modifyClient_endpoint]
      split
      · exact handleTransfer hc _
      · exact giveAsManyBuffersAsPossible hc _
    rw [modifyClient_modifyTransfer]
    refine UsbIgnores.bind (checkForTransferCompletion hc _) fun s => ?_
    dsimp only
    rw [modifyClient_transfer, modifyClient_endpoint]
    split
    · rfl
    · split
      · exact UsbIgnores.bind (giveBuffer s) hrest
      · exact hrest s

/-- The interrupt for a buffer. -/
theorem bufferInterrupt {packet : List Byte} : UsbIgnores φ (usbBufferInterrupt c e packet) := by
  intro s
  unfold usbBufferInterrupt
  rw [modifyClient_endpoint]
  split
  · rfl
  · rw [modifyClient_modifyEndpoint]
    exact handleTransfer hc _

/-! ## Streams -/

variable {u : UsbStream κ} (hu : u.Ignores φ)

include hu

omit hc in
theorem packetComplete (len : Word) (K : κ) :
    u.packetComplete len (φ K) = φ (u.packetComplete len K) := by
  unfold UsbStream.packetComplete
  rw [hu.transfer, hu.setTransfer, hu.onPacketComplete]

/-- `usb_stream_packet_handler_complete`. -/
theorem packetHandlerComplete : UsbIgnores φ (u.packetHandlerComplete c e) := by
  intro s
  have hload (K : κ) : u.load (φ K) = u.load K := by
    unfold UsbStream.load
    rw [hu.transfer, hu.chunkBuffer]
  unfold UsbStream.packetHandlerComplete
  dsimp only
  rw [modifyClient_currentPacketBuffer]
  generalize usbCurrentPacketBuffer e s = s
  rw [modifyClient_endpoint, modifyClient_client, hload, modifyClient_modifyEndpoint]
  split
  · rw [modifyClient_comm _ _ fun K => by rw [hu.transfer, packetComplete hu]]
    exact packetDone hc _
  · rw [modifyClient_comm _ _ (packetComplete hu _)]
    exact packetDone hc _

/-- `_usb_stream_packet_packet_handler`. -/
theorem packetHandler : UsbIgnores φ (u.packetHandler c e) := by
  intro s
  have hstore (packet : List Byte) (K : κ) : u.store packet (φ K) = φ (u.store packet K) := by
    unfold UsbStream.store
    rw [hu.transfer, hu.chunkBuffer, hu.setChunkBuffer]
  have hchunk (len : Word) (K : κ) :
      u.callOnChunk len (φ K) = (φ (u.callOnChunk len K).1, (u.callOnChunk len K).2) := by
    unfold UsbStream.callOnChunk
    split
    · exact hu.onChunk len K
    · rfl
  have hrest (len : Word) : UsbIgnores φ fun s : UsbState ε τ ν κ =>
      let r := u.callOnChunk len s.client
      let s := s.modifyClient fun _ => r.1
      if r.2 then .ok s else u.packetHandlerComplete c e s := by
    intro s
    dsimp only
    rw [modifyClient_client, hchunk]
    split
    · rfl
    · exact packetHandlerComplete hc hu (s.modifyClient fun _ => (u.callOnChunk len s.client).1)
  unfold UsbStream.packetHandler
  dsimp only
  rw [modifyClient_endpoint, modifyClient_client, hu.transfer]
  split
  · exact hrest _ s
  · rw [modifyClient_currentPacketBuffer, modifyClient_comm _ _ (hstore _)]
    exact hrest _ _

end Table

/-! ## The table of the callbacks -/

/-- Calls of any depth ignore a change that the functions of the user of the library ignore. -/
theorem calls {driver : UsbDriver ε τ ν κ}
    (hd : ∀ {c : UsbCalls ε τ ν κ}, c.Ignores φ → ∀ f e, UsbIgnores φ (driver c f e))
    (depth : ℕ) : (usbCalls driver depth).Ignores φ := by
  induction depth with
  | zero =>
    exact
      { call := fun _ _ _ => rfl
        again := fun _ _ => rfl }
  | succ depth ih =>
    exact
      { call := fun f e => by
          cases f with
          | currentPacketOnly => exact packetDone ih
          | driver f => exact hd ih f e
        again := fun e => giveAsManyBuffersAsPossible ih }

end UsbIgnores

end Functions

end PicoBootrom
