import Mathlib.Logic.Relation
import PicoBootrom.UsbFrame

/-!
# The nesting of the calls of the USB device library

`usb_packet_done`, `_usb_give_as_many_buffers_as_possible`, `_usb_handle_transfer` and the
`on_packet` functions call each other. What bounds the nesting is the number of buffers that the
endpoint owns : `_usb_give_as_many_buffers_as_possible` calls `on_packet` only if there is one, and
the `usb_packet_done` of an IN transfer gives one away before it calls on. The packet that waits
while another one is outstanding adds one more call, as its flag is cleared before. A count that is
decremented and incremented again for that packet stays what it was.

`Ordered` is what holds between the calls : the buffers are with the endpoint or with the hardware,
and each of the packets still to be handled is to be submitted, or is with the hardware, or waits,
or is `due`, that is, being handled. It needs of the functions of the user only that an `on_packet`
function calls `usb_packet_done` once or not at all (`OnPacket`), and that the other ones start a
transfer at most (`Callback`) ; besides that they may change everything that is not the library's
bookkeeping of the endpoint (`Outside`), and halt it. `own` is the depth of the calls that they make
on their own account, for other endpoints.
-/

set_option linter.unusedSectionVars false

namespace PicoBootrom

variable {ε τ ν κ : Type}

/-! ## The bookkeeping of an endpoint -/

/-- A transfer that was set up and has not been started. -/
structure UsbTransfer.Fresh (T : UsbTransfer ν) : Prop where
  notStarted : T.started = false
  notCompleted : T.completed = false
  notOutstanding : T.outstandingPacket = false
  notQueued : T.packetQueued = false
  packets : T.remainingPacketsToHandle = T.remainingPacketsToSubmit

theorem UsbTransfer.reset_fresh (type : UsbTransferType ν) (onComplete : Option ν) :
    (UsbTransfer.reset type onComplete).Fresh :=
  ⟨rfl, rfl, rfl, rfl, rfl⟩

theorem UsbTransfer.Fresh.grow {T : UsbTransfer ν} (h : T.Fresh) (packetCount : Word) :
    (T.grow packetCount).Fresh where
  notStarted := h.notStarted
  notCompleted := h.notCompleted
  notOutstanding := h.notOutstanding
  notQueued := h.notQueued
  packets := by simp [h.packets]

/-- The packets of a transfer that runs on an endpoint, `due` of which are being handled. -/
structure UsbEndpoint.Counts (E : UsbEndpoint τ ν) (T : UsbTransfer ν) (due : ℕ) : Prop where
  handle : T.remainingPacketsToHandle.toNat = T.remainingPacketsToSubmit.toNat +
    E.hw.available.length + T.packetQueued.toNat + due
  owned : T.outstandingPacket = true → T.packetQueued.toNat + 1 ≤ E.ownedBufferCount.toNat
  queued : T.packetQueued = true → T.outstandingPacket = true
  submit : E.isIn = true → T.outstandingPacket = true → T.remainingPacketsToSubmit ≠ 0

/-- What is fixed of an endpoint : its direction, whether it has two buffers, and which functions of
the user of the library are `on_packet` functions. -/
structure UsbRoles (ν : Type) where
  isPacket : ν → Prop
  isIn : Bool
  doubleBuffered : Bool

/-- The number of buffers. -/
def UsbRoles.bufferCount (p : UsbRoles ν) : ℕ := if p.doubleBuffered then 2 else 1

theorem UsbRoles.bufferCount_le (p : UsbRoles ν) : p.bufferCount ≤ 2 := by
  unfold bufferCount
  split <;> omega

/-- The functions of a transfer have the right roles. -/
structure UsbRoles.Wired (p : UsbRoles ν) (T : UsbTransfer ν) : Prop where
  onPacket : ∀ f, T.type.onPacket = .driver f → p.isPacket f
  onComplete : ∀ f, T.onComplete = some f → ¬p.isPacket f

/-- What holds of an endpoint and of its transfers between the calls, while `due` packets are being
handled. -/
structure UsbState.Ordered (p : UsbRoles ν) (s : UsbState ε τ ν κ) (e : ε) (due : ℕ) : Prop where
  isIn : (s.endpoint e).isIn = p.isIn
  doubleBuffered : (s.endpoint e).doubleBuffered = p.doubleBuffered
  wired : ∀ t, p.Wired (s.transfer t)
  onStallChange : ∀ f, (s.endpoint e).onStallChange = some f → ¬p.isPacket f
  chain : ∀ t, (s.endpoint e).chainTransfer = some t → (s.transfer t).Fresh
  buffers : (s.endpoint e).ownedBufferCount.toNat + (s.endpoint e).hw.available.length =
    p.bufferCount
  idle : (s.endpoint e).currentTransfer = none → (s.endpoint e).haltState = .none →
    (s.endpoint e).hw.available = []
  started : ∀ t, (s.endpoint e).currentTransfer = some t → (s.transfer t).started = true
  notCompleted : ∀ t, (s.endpoint e).currentTransfer = some t → (s.transfer t).completed = false
  counts : ∀ t, (s.endpoint e).currentTransfer = some t → (s.endpoint e).haltState = .none →
    (s.endpoint e).Counts (s.transfer t) due

/-- What a function of the user, or anything that happens besides an endpoint, may change : the
endpoint can be halted, but not unhalted, another transfer can be chained, and the bookkeeping of
its transfer stays. -/
structure UsbState.Outside (p : UsbRoles ν) (s' s : UsbState ε τ ν κ) (e : ε) : Prop where
  isIn : (s'.endpoint e).isIn = (s.endpoint e).isIn
  doubleBuffered : (s'.endpoint e).doubleBuffered = (s.endpoint e).doubleBuffered
  onStallChange : (s'.endpoint e).onStallChange = (s.endpoint e).onStallChange
  currentTransfer : (s'.endpoint e).currentTransfer = (s.endpoint e).currentTransfer
  owned : (s'.endpoint e).ownedBufferCount = (s.endpoint e).ownedBufferCount
  available : (s'.endpoint e).hw.available.length = (s.endpoint e).hw.available.length
  halt : (s.endpoint e).haltState ≠ .none → (s'.endpoint e).haltState ≠ .none
  transfer : ∀ t, (s.endpoint e).currentTransfer = some t → s'.transfer t = s.transfer t
  chain : (∀ t, (s.endpoint e).chainTransfer = some t → (s.transfer t).Fresh) →
    ∀ t, (s'.endpoint e).chainTransfer = some t → (s'.transfer t).Fresh
  wired : (∀ t, p.Wired (s.transfer t)) → ∀ t, p.Wired (s'.transfer t)

section Bookkeeping

variable {p : UsbRoles ν} {s s' : UsbState ε τ ν κ} {e : ε} {due : ℕ}

theorem UsbState.Outside.refl (s : UsbState ε τ ν κ) (e : ε) : s.Outside p s e :=
  ⟨rfl, rfl, rfl, rfl, rfl, rfl, id, fun _ _ => rfl, id, id⟩

/-- The counts only look at the number of buffers. -/
theorem UsbEndpoint.Counts.congr {E E' : UsbEndpoint τ ν} {T : UsbTransfer ν}
    (h : E.Counts T due) (hin : E'.isIn = E.isIn)
    (howned : E'.ownedBufferCount = E.ownedBufferCount)
    (havailable : E'.hw.available.length = E.hw.available.length) : E'.Counts T due where
  handle := by rw [havailable, h.handle]
  owned := by rw [howned]; exact h.owned
  queued := h.queued
  submit := by rw [hin]; exact h.submit

namespace UsbState.Ordered

theorem outside (h : s.Ordered p e due) (ho : s'.Outside p s e) : s'.Ordered p e due where
  isIn := ho.isIn.trans h.isIn
  doubleBuffered := ho.doubleBuffered.trans h.doubleBuffered
  wired := ho.wired h.wired
  onStallChange := by rw [ho.onStallChange]; exact h.onStallChange
  chain := ho.chain h.chain
  buffers := by rw [ho.owned, ho.available, h.buffers]
  idle hcurrent hhalt := by
    have hhalt' : (s.endpoint e).haltState = .none := by
      by_contra hne
      exact ho.halt hne hhalt
    have hidle := h.idle (ho.currentTransfer.symm.trans hcurrent) hhalt'
    rw [← List.length_eq_zero_iff, ho.available, hidle, List.length_nil]
  started t hcurrent := by
    rw [ho.currentTransfer] at hcurrent
    rw [ho.transfer t hcurrent, h.started t hcurrent]
  notCompleted t hcurrent := by
    rw [ho.currentTransfer] at hcurrent
    rw [ho.transfer t hcurrent, h.notCompleted t hcurrent]
  counts t hcurrent hhalt := by
    rw [ho.currentTransfer] at hcurrent
    have hhalt' : (s.endpoint e).haltState = .none := by
      by_contra hne
      exact ho.halt hne hhalt
    rw [ho.transfer t hcurrent]
    exact (h.counts t hcurrent hhalt').congr ho.isIn ho.owned ho.available

theorem owned_le (h : s.Ordered p e due) :
    (s.endpoint e).ownedBufferCount.toNat ≤ p.bufferCount := by
  have hbuffers := h.buffers
  omega

/-- Without a transfer, nothing is due. -/
theorem of_none (h : s.Ordered p e due) (hcurrent : (s.endpoint e).currentTransfer = none)
    (due' : ℕ) : s.Ordered p e due' where
  isIn := h.isIn
  doubleBuffered := h.doubleBuffered
  wired := h.wired
  onStallChange := h.onStallChange
  chain := h.chain
  buffers := h.buffers
  idle := h.idle
  started := h.started
  notCompleted := h.notCompleted
  counts t ht := by simp [hcurrent] at ht

end UsbState.Ordered

end Bookkeeping

section Updates

variable [DecidableEq ε] [DecidableEq τ] {p : UsbRoles ν} {s : UsbState ε τ ν κ} {e : ε} {t : τ}
  {due : ℕ}

namespace UsbState.Ordered

/-- A change of the endpoint and of its current transfer, which keeps their links. -/
theorem place (h : s.Ordered p e due) (hcurrent : (s.endpoint e).currentTransfer = some t)
    {E : UsbEndpoint τ ν} {T : UsbTransfer ν} {K : κ} {due' : ℕ}
    (hlinks : E.SameLinks (s.endpoint e)) (hkind : T.SameKind (s.transfer t))
    (hstarted : T.started = (s.transfer t).started)
    (hbuffers : E.ownedBufferCount.toNat + E.hw.available.length = p.bufferCount)
    (hcounts : (s.endpoint e).haltState = .none → E.Counts T due') :
    (s.place e t E T K).Ordered p e due' where
  isIn := by rw [place_endpoint, hlinks.isIn, h.isIn]
  doubleBuffered := by rw [place_endpoint, hlinks.doubleBuffered, h.doubleBuffered]
  wired t' := by
    have hwired := h.wired t'
    rcases eq_or_ne t' t with rfl | hne
    · rw [place_transfer]
      exact ⟨by rw [hkind.type]; exact hwired.onPacket,
        by rw [hkind.onComplete]; exact hwired.onComplete⟩
    · simpa [UsbState.place, hne] using hwired
  onStallChange := by
    rw [place_endpoint, hlinks.onStallChange]
    exact h.onStallChange
  chain t' hchain := by
    rw [place_endpoint, hlinks.chainTransfer] at hchain
    have hfresh := h.chain t' hchain
    have hne : t' ≠ t := by
      rintro rfl
      simpa [h.started t' hcurrent] using hfresh.notStarted
    simpa [UsbState.place, hne] using hfresh
  buffers := by rw [place_endpoint, hbuffers]
  idle hnone := by simp [hlinks.currentTransfer, hcurrent] at hnone
  started t' ht' := by
    obtain rfl : t = t' := by simpa [hlinks.currentTransfer, hcurrent] using ht'
    rw [place_transfer, hstarted, h.started t hcurrent]
  notCompleted t' ht' := by
    obtain rfl : t = t' := by simpa [hlinks.currentTransfer, hcurrent] using ht'
    rw [place_transfer, hkind.completed, h.notCompleted t hcurrent]
  counts t' ht' hhalt := by
    obtain rfl : t = t' := by simpa [hlinks.currentTransfer, hcurrent] using ht'
    rw [place_endpoint, hlinks.haltState] at hhalt
    rw [place_endpoint, place_transfer]
    exact hcounts hhalt

/-- A change of a transfer that is neither the current nor the chained one. -/
theorem modifyTransfer_of_ne (h : s.Ordered p e due)
    (hcurrent : (s.endpoint e).currentTransfer ≠ some t)
    {f : UsbTransfer ν → UsbTransfer ν} (hwired : p.Wired (f (s.transfer t)))
    (hchain : (s.endpoint e).chainTransfer = some t → (f (s.transfer t)).Fresh) :
    (s.modifyTransfer t f).Ordered p e due where
  isIn := h.isIn
  doubleBuffered := h.doubleBuffered
  wired t' := by
    rcases eq_or_ne t' t with rfl | hne
    · rw [modifyTransfer_transfer_self]
      exact hwired
    · rw [modifyTransfer_transfer_of_ne _ _ _ _ hne]
      exact h.wired t'
  onStallChange := h.onStallChange
  chain t' ht' := by
    rcases eq_or_ne t' t with rfl | hne
    · rw [modifyTransfer_transfer_self]
      exact hchain ht'
    · rw [modifyTransfer_transfer_of_ne _ _ _ _ hne]
      exact h.chain t' ht'
  buffers := h.buffers
  idle := h.idle
  started t' ht' := by
    have hne : t' ≠ t := fun heq => hcurrent (heq ▸ ht')
    rw [modifyTransfer_transfer_of_ne _ _ _ _ hne]
    exact h.started t' ht'
  notCompleted t' ht' := by
    have hne : t' ≠ t := fun heq => hcurrent (heq ▸ ht')
    rw [modifyTransfer_transfer_of_ne _ _ _ _ hne]
    exact h.notCompleted t' ht'
  counts t' ht' hhalt := by
    have hne : t' ≠ t := fun heq => hcurrent (heq ▸ ht')
    rw [modifyTransfer_transfer_of_ne _ _ _ _ hne]
    exact h.counts t' ht' hhalt

/-- A change of the endpoint, which keeps its links and the number of its buffers. -/
theorem modifyEndpoint (h : s.Ordered p e due) {f : UsbEndpoint τ ν → UsbEndpoint τ ν} {due' : ℕ}
    (hf : (f (s.endpoint e)).SameLinks (s.endpoint e))
    (hbuffers : (f (s.endpoint e)).ownedBufferCount.toNat +
      (f (s.endpoint e)).hw.available.length = p.bufferCount)
    (hidle : (s.endpoint e).currentTransfer = none → (s.endpoint e).haltState = .none →
      (f (s.endpoint e)).hw.available = [])
    (hcounts : ∀ t, (s.endpoint e).currentTransfer = some t → (s.endpoint e).haltState = .none →
      (f (s.endpoint e)).Counts (s.transfer t) due') :
    (s.modifyEndpoint e f).Ordered p e due' where
  isIn := by rw [modifyEndpoint_endpoint_self, hf.isIn, h.isIn]
  doubleBuffered := by rw [modifyEndpoint_endpoint_self, hf.doubleBuffered, h.doubleBuffered]
  wired := h.wired
  onStallChange := by
    rw [modifyEndpoint_endpoint_self, hf.onStallChange]
    exact h.onStallChange
  chain := by
    rw [modifyEndpoint_endpoint_self, hf.chainTransfer]
    exact h.chain
  buffers := by rw [modifyEndpoint_endpoint_self, hbuffers]
  idle := by
    rw [modifyEndpoint_endpoint_self, hf.currentTransfer, hf.haltState]
    exact hidle
  started := by
    rw [modifyEndpoint_endpoint_self, hf.currentTransfer]
    exact h.started
  notCompleted := by
    rw [modifyEndpoint_endpoint_self, hf.currentTransfer]
    exact h.notCompleted
  counts := by
    rw [modifyEndpoint_endpoint_self, hf.currentTransfer, hf.haltState]
    exact hcounts

/-- The transfer of an endpoint is completed. -/
theorem completeTransfer (h : s.Ordered p e due)
    (hcurrent : (s.endpoint e).currentTransfer = some t)
    (hidle : (s.endpoint e).haltState = .none → (s.endpoint e).hw.available = []) :
    (s.completeTransfer e t).Ordered p e 0 where
  isIn := by simpa [UsbState.completeTransfer] using h.isIn
  doubleBuffered := by simpa [UsbState.completeTransfer] using h.doubleBuffered
  wired t' := by
    rw [UsbState.completeTransfer, modifyEndpoint_transfer]
    rcases eq_or_ne t' t with rfl | hne
    · rw [modifyTransfer_transfer_self]
      exact ⟨(h.wired t').onPacket, (h.wired t').onComplete⟩
    · rw [modifyTransfer_transfer_of_ne _ _ _ _ hne]
      exact h.wired t'
  onStallChange := by simpa [UsbState.completeTransfer] using h.onStallChange
  chain t' hchain := by
    simp only [UsbState.completeTransfer, modifyEndpoint_endpoint_self, modifyTransfer_endpoint,
      UsbEndpoint.setTransfer_chainTransfer] at hchain
    have hfresh := h.chain t' hchain
    have hne : t' ≠ t := by
      rintro rfl
      simpa [h.started t' hcurrent] using hfresh.notStarted
    rw [UsbState.completeTransfer, modifyEndpoint_transfer,
      modifyTransfer_transfer_of_ne _ _ _ _ hne]
    exact hfresh
  buffers := by simpa [UsbState.completeTransfer] using h.buffers
  idle _ hhalt := by
    simp only [UsbState.completeTransfer, modifyEndpoint_endpoint_self, modifyTransfer_endpoint,
      UsbEndpoint.setTransfer_haltState] at hhalt
    simpa [UsbState.completeTransfer] using hidle hhalt
  started t' ht' := by simp [UsbState.completeTransfer] at ht'
  notCompleted t' ht' := by simp [UsbState.completeTransfer] at ht'
  counts t' ht' := by simp [UsbState.completeTransfer] at ht'

/-- A transfer that was set up is started on an endpoint that has none. -/
theorem start (h : s.Ordered p e due) (hcurrent : (s.endpoint e).currentTransfer = none)
    (hfresh : (s.transfer t).Fresh) : (s.started e t).Ordered p e 0 where
  isIn := by simpa using h.isIn
  doubleBuffered := by simpa using h.doubleBuffered
  wired t' := by
    rcases eq_or_ne t' t with rfl | hne
    · rw [started_transfer]
      exact ⟨(h.wired t').onPacket, (h.wired t').onComplete⟩
    · rw [started_transfer_of_ne hne]
      exact h.wired t'
  onStallChange := by simpa using h.onStallChange
  chain t' ht' := by simp at ht'
  buffers := by simpa using h.buffers
  idle hnone := by simp at hnone
  started t' ht' := by
    obtain rfl : t = t' := by simpa using ht'
    simp
  notCompleted t' ht' := by
    obtain rfl : t = t' := by simpa using ht'
    simpa using hfresh.notCompleted
  counts t' ht' hhalt := by
    obtain rfl : t = t' := by simpa using ht'
    have hidle : (s.endpoint e).hw.available = [] := h.idle hcurrent (by simpa using hhalt)
    rw [started_transfer, started_endpoint]
    exact
      { handle := by simp [hidle, hfresh.packets, hfresh.notQueued]
        owned := fun hout => by simp [hfresh.notOutstanding] at hout
        queued := fun hq => by simp [hfresh.notQueued] at hq
        submit := fun _ hout => by simp [hfresh.notOutstanding] at hout }

end UsbState.Ordered

end Updates

/-! ## The functions of the user of the library -/

section Contracts

variable [DecidableEq ε] [DecidableEq τ] (p : UsbRoles ν) (c : UsbCalls ε τ ν κ) (e : ε)

/-- What a call of an `on_packet` function for a packet of a transfer ends in : it leaves the packet
outstanding, or calls `usb_packet_done` exactly once. -/
inductive UsbState.OnPacket (t : τ) (s : UsbState ε τ ν κ) : UsbResult (UsbState ε τ ν κ) → Prop
  | later {s' : UsbState ε τ ν κ} (h : s'.Outside p s e) : OnPacket t s (.ok s')
  | done {s' : UsbState ε τ ν κ} {after : UsbState ε τ ν κ → UsbState ε τ ν κ}
      (h : s'.Outside p s e)
      (hafter : ∀ s, (after s).Outside p s e ∧ (after s).transfer t = s.transfer t) :
      OnPacket t s ((usbPacketDone c e s').map after)

/-- What a call of another function ends in : it starts a transfer that was set up, if the endpoint
has none, or does not call the library. The transfer that it is called for, if any, stays
completed. -/
inductive UsbState.Callback (for_ : Option τ) (s : UsbState ε τ ν κ) :
    UsbResult (UsbState ε τ ν κ) → Prop
  | rests {s' : UsbState ε τ ν κ} (h : s'.Outside p s e)
      (hfor : ∀ t, for_ = some t → (s'.transfer t).completed = true) : Callback for_ s (.ok s')
  | starts {s' : UsbState ε τ ν κ} {next : τ} {after : UsbState ε τ ν κ → UsbState ε τ ν κ}
      (h : s'.Outside p s e) (hcurrent : (s.endpoint e).currentTransfer = none)
      (hfresh : (s'.transfer next).Fresh)
      (hfor : ∀ t, for_ = some t → (s'.transfer t).completed = true)
      (hafter : ∀ s, (after s).Outside p s e ∧
        ∀ t, for_ = some t → (after s).transfer t = s.transfer t) :
      Callback for_ s ((usbStartTransfer c e next s').map after)

end Contracts

/-- The functions of a user of the library keep their contracts, when calls can be nested to the
depth that they need themselves. -/
structure UsbRoles.Serves [DecidableEq ε] [DecidableEq τ] (p : UsbRoles ν)
    (driver : UsbDriver ε τ ν κ) (e : ε) (own : ℕ) : Prop where
  onPacket : ∀ depth, own ≤ depth → ∀ f, p.isPacket f → ∀ (s : UsbState ε τ ν κ) (t : τ),
    (s.endpoint e).currentTransfer = some t → (s.transfer t).outstandingPacket = true →
    s.OnPacket p (usbCalls driver depth) e t (driver (usbCalls driver depth) f e s)
  onComplete : ∀ depth, own ≤ depth → ∀ f, ¬p.isPacket f → ∀ (s : UsbState ε τ ν κ) (t : τ),
    (s.endpoint e).currentTransfer = none → (s.transfer t).onComplete = some f →
    (s.transfer t).completed = true →
    s.Callback p (usbCalls driver depth) e (some t) (driver (usbCalls driver depth) f e s)
  onStallChange : ∀ depth, own ≤ depth → ∀ f, ¬p.isPacket f → ∀ s : UsbState ε τ ν κ,
    (s.endpoint e).onStallChange = some f →
    s.Callback p (usbCalls driver depth) e none (driver (usbCalls driver depth) f e s)

/-! ## Nested calls -/

/-- What a call leaves of the current transfer : it goes on, or the endpoint was halted and it is
completed ; and the endpoint does not own more buffers. -/
structure UsbState.Stays (p : UsbRoles ν) (s' s : UsbState ε τ ν κ) (e : ε) (t : τ) (due : ℕ) :
    Prop where
  ordered : s'.Ordered p e due
  owned : (s'.endpoint e).ownedBufferCount.toNat ≤ (s.endpoint e).ownedBufferCount.toNat
  transfer : ((s'.endpoint e).currentTransfer = some t ∧
      (s'.transfer t).packetQueued = (s.transfer t).packetQueued) ∨
    ((s'.endpoint e).currentTransfer = none ∧ (s'.endpoint e).haltState ≠ .none ∧
      (s'.transfer t).completed = true)

namespace UsbState.Stays

variable {p : UsbRoles ν} {s s' s'' : UsbState ε τ ν κ} {e : ε} {t : τ} {due : ℕ}

theorem refl (h : s.Ordered p e due) (hcurrent : (s.endpoint e).currentTransfer = some t) :
    s.Stays p s e t due :=
  ⟨h, le_rfl, .inl ⟨hcurrent, rfl⟩⟩

theorem outside (h : s.Ordered p e due) (hcurrent : (s.endpoint e).currentTransfer = some t)
    (ho : s'.Outside p s e) : s'.Stays p s e t due :=
  ⟨h.outside ho, by rw [ho.owned],
    .inl ⟨ho.currentTransfer.trans hcurrent, by rw [ho.transfer t hcurrent]⟩⟩

/-- A call after a change that keeps the current transfer. -/
theorem trans_left (h : s'.Stays p s e t due)
    (howned : (s.endpoint e).ownedBufferCount.toNat ≤ (s''.endpoint e).ownedBufferCount.toNat)
    (hqueued : (s.transfer t).packetQueued = (s''.transfer t).packetQueued) :
    s'.Stays p s'' e t due :=
  ⟨h.ordered, le_trans h.owned howned, h.transfer.imp_left fun hgo => ⟨hgo.1, hgo.2.trans hqueued⟩⟩

/-- A call, and what the user does after it. -/
theorem after (h : s'.Stays p s e t due) (ho : s''.Outside p s' e)
    (hsame : s''.transfer t = s'.transfer t) : s''.Stays p s e t due where
  ordered := h.ordered.outside ho
  owned := by rw [ho.owned]; exact h.owned
  transfer := by
    rw [ho.currentTransfer, hsame]
    exact h.transfer.imp_right fun hend => ⟨hend.1, ho.halt hend.2.1, hend.2.2⟩

end UsbState.Stays

section Nesting

variable [DecidableEq ε] [DecidableEq τ] {p : UsbRoles ν} {driver : UsbDriver ε τ ν κ} {own : ℕ}
  {c : UsbCalls ε τ ν κ} {s : UsbState ε τ ν κ} {e : ε} {t : τ} {due depth : ℕ}

/-- What `usb_packet_done` does to an endpoint before it calls on : the packet of an IN endpoint is
given to the hardware. -/
def UsbEndpoint.finishPacket (E : UsbEndpoint τ ν) : UsbEndpoint τ ν :=
  if E.isIn then (E.giveBuffer (E.currentHwBuffer.dataLen.setWidth 32)).dropBuffer else E.dropBuffer

/-- What `usb_packet_done` does to the transfer before it calls on. -/
def UsbTransfer.finishPacket (T : UsbTransfer ν) (isIn : Bool) : UsbTransfer ν :=
  if isIn then (T.setOutstanding false).submitOne else T.setOutstanding false

theorem usbPacketDone_of_pending (hcurrent : (s.endpoint e).currentTransfer = some t)
    (hhalt : (s.endpoint e).haltState = .none)
    (hhandle : (s.transfer t).remainingPacketsToHandle ≠ 0)
    (hcompleted : (s.transfer t).completed = false) :
    usbPacketDone c e s =
      if (s.transfer t).packetQueued then
        usbHandleTransfer c e (!(s.endpoint e).currentTakeBuffer)
          (s.place e t (s.endpoint e).finishPacket.disownOne
            (((s.transfer t).finishPacket (s.endpoint e).isIn).setQueued false) s.client)
      else usbGiveAsManyBuffersAsPossible c e
        (s.place e t (s.endpoint e).finishPacket
          ((s.transfer t).finishPacket (s.endpoint e).isIn) s.client) := by
  have hplace := s.place_self e t
  cases hin : (s.endpoint e).isIn with
  | true =>
    conv_lhs => rw [← hplace]
    rw [usbPacketDone_place_in hcurrent hhalt hhandle hcompleted hin, UsbEndpoint.finishPacket,
      UsbTransfer.finishPacket, hin, if_pos rfl, if_pos rfl]
  | false =>
    conv_lhs => rw [← hplace]
    rw [usbPacketDone_place_out hcurrent hhalt hhandle hcompleted hin, UsbEndpoint.finishPacket,
      UsbTransfer.finishPacket, hin, if_neg Bool.false_ne_true, if_neg Bool.false_ne_true]

/-- The packet of an IN endpoint leaves with its buffer. -/
theorem UsbEndpoint.finishPacket_buffers {E : UsbEndpoint τ ν}
    (h : E.isIn = true → E.ownedBufferCount ≠ 0) :
    E.finishPacket.ownedBufferCount.toNat + E.isIn.toNat = E.ownedBufferCount.toNat ∧
      E.finishPacket.hw.available.length = E.hw.available.length + E.isIn.toNat := by
  unfold finishPacket
  cases hin : E.isIn with
  | true =>
    have hsub := toNat_sub_one (h hin)
    refine ⟨?_, by simp⟩
    simpa using hsub
  | false => simp

theorem UsbEndpoint.finishPacket_sameLinks {E : UsbEndpoint τ ν} (h : E.haltState = .none) :
    E.finishPacket.SameLinks E := by
  unfold finishPacket
  split
  · exact ⟨rfl, rfl, rfl, rfl, rfl, rfl, h.symm⟩
  · exact ⟨rfl, rfl, rfl, rfl, rfl, rfl, rfl⟩

theorem UsbTransfer.finishPacket_sameKind (T : UsbTransfer ν) (isIn : Bool) :
    ((T.finishPacket isIn).setQueued false).SameKind T ∧
      ((T.finishPacket isIn).setQueued false).started = T.started := by
  unfold finishPacket
  split <;> exact ⟨⟨rfl, rfl, rfl⟩, rfl⟩

namespace UsbEndpoint.Counts

variable {E : UsbEndpoint τ ν} {T : UsbTransfer ν}

/-- A packet is due, or an outstanding one is to be submitted : there is one to be handled. -/
theorem handle_ne_zero (h : E.Counts T due)
    (hdue : E.isIn = true ∧ T.outstandingPacket = true ∨ 0 < due) :
    T.remainingPacketsToHandle ≠ 0 := by
  have hhandle := h.handle
  rw [toNat_ne_zero]
  rcases hdue with ⟨hin, hout⟩ | hdue
  · have hsubmit := toNat_ne_zero.1 (h.submit hin hout)
    omega
  · omega

/-- An outstanding packet has a buffer. -/
theorem owned_ne_zero (h : E.Counts T due) (hout : T.outstandingPacket = true) :
    E.ownedBufferCount ≠ 0 := by
  have howned := h.owned hout
  rw [toNat_ne_zero]
  omega

/-- An outstanding packet is done, and the one that waits is due. -/
theorem finishPacket (h : E.Counts T due) (hout : T.outstandingPacket = true) :
    E.finishPacket.Counts ((T.finishPacket E.isIn).setQueued false)
      (due + T.packetQueued.toNat) where
  handle := by
    have hhandle := h.handle
    have havailable := (finishPacket_buffers fun _ => h.owned_ne_zero hout).2
    rw [havailable]
    cases hin : E.isIn with
    | true =>
      have hsub := toNat_sub_one (h.submit hin hout)
      simp [UsbTransfer.finishPacket] at hsub ⊢
      omega
    | false =>
      simp [UsbTransfer.finishPacket]
      omega
  owned hout := by
    unfold UsbTransfer.finishPacket at hout
    split at hout <;> simp at hout
  queued hq := by simp at hq
  submit _ hout := by
    unfold UsbTransfer.finishPacket at hout
    split at hout <;> simp at hout

end UsbEndpoint.Counts

/-- What the condition of the loop in `_usb_give_as_many_buffers_as_possible` says. -/
theorem UsbState.canGive_iff (hcurrent : (s.endpoint e).currentTransfer = some t) :
    s.canGive e = true ↔ (s.transfer t).remainingPacketsToSubmit ≠ 0 ∧
      (s.endpoint e).ownedBufferCount ≠ 0 ∧ (s.endpoint e).haltState = .none := by
  simp [UsbState.canGive, hcurrent, and_assoc]

namespace UsbState.Ordered

/-- The state in which `usb_packet_done` calls on, with the packet that waits due. -/
theorem finishPacket (h : s.Ordered p e due) (hcurrent : (s.endpoint e).currentTransfer = some t)
    (hhalt : (s.endpoint e).haltState = .none)
    (hout : (s.transfer t).outstandingPacket = true) :
    (s.place e t (s.endpoint e).finishPacket
      (((s.transfer t).finishPacket (s.endpoint e).isIn).setQueued false) s.client).Ordered p e
        (due + (s.transfer t).packetQueued.toNat) := by
  have hcounts := h.counts t hcurrent hhalt
  have hbuffers := h.buffers
  obtain ⟨howned, havailable⟩ :=
    (s.endpoint e).finishPacket_buffers fun _ => hcounts.owned_ne_zero hout
  obtain ⟨hkind, hstarted⟩ := (s.transfer t).finishPacket_sameKind (s.endpoint e).isIn
  exact h.place hcurrent (UsbEndpoint.finishPacket_sameLinks hhalt) hkind hstarted (by omega)
    fun _ => hcounts.finishPacket hout

/-- The packet is no longer outstanding, and none waits. -/
theorem clearOutstanding (h : s.Ordered p e due)
    (hcurrent : (s.endpoint e).currentTransfer = some t)
    (hqueued : (s.endpoint e).haltState = .none → (s.transfer t).packetQueued = false) :
    (s.modifyTransfer t fun T => T.setOutstanding false).Ordered p e due := by
  have hplace : (s.place e t (s.endpoint e) ((s.transfer t).setOutstanding false)
      s.client).Ordered p e due := by
    refine h.place hcurrent ⟨rfl, rfl, rfl, rfl, rfl, rfl, rfl⟩ ⟨rfl, rfl, rfl⟩ rfl h.buffers
      fun hhalt => ?_
    exact
      { handle := (h.counts t hcurrent hhalt).handle
        owned := fun hout => by simp at hout
        queued := fun hq => by simp [hqueued hhalt] at hq
        submit := fun _ hout => by simp at hout }
  simpa [UsbState.place, UsbState.modifyTransfer] using hplace

/-- A transfer of a halted endpoint is completed. -/
theorem dropTransfer (h : s.Ordered p e due) (hcurrent : (s.endpoint e).currentTransfer = some t)
    (hhalt : (s.endpoint e).haltState ≠ .none) :
    ((s.completeTransfer e t).modifyTransfer t UsbTransfer.dropPackets).Ordered p e due := by
  have hdone := (h.completeTransfer hcurrent fun hnone => absurd hnone hhalt).of_none
    (by simp [UsbState.completeTransfer]) due
  have hwired := hdone.wired t
  refine hdone.modifyTransfer_of_ne (by simp [UsbState.completeTransfer])
    ⟨hwired.onPacket, hwired.onComplete⟩ fun hchain => ?_
  have hfresh := hdone.chain t hchain
  simpa [UsbState.completeTransfer] using hfresh.notCompleted

/-- `usb_packet_done` in a nested call, when no packet waits : the rest is the loop over the
buffers. -/
theorem packetDone_stays (h : s.Ordered p e due)
    (hcurrent : (s.endpoint e).currentTransfer = some t)
    (hout : (s.transfer t).outstandingPacket = true)
    (hnotQueued : (s.endpoint e).haltState = .none → (s.transfer t).packetQueued = false)
    (hdue : p.isIn = true ∨ 0 < due)
    (hgive : ∀ s₁ : UsbState ε τ ν κ, s₁.Ordered p e due →
      (s₁.endpoint e).currentTransfer = some t → (s₁.transfer t).outstandingPacket = false →
      (s₁.transfer t).packetQueued = false →
      (s₁.endpoint e).ownedBufferCount.toNat + p.isIn.toNat =
        (s.endpoint e).ownedBufferCount.toNat →
      ∃ s', usbGiveAsManyBuffersAsPossible c e s₁ = .ok s' ∧ s'.Stays p s₁ e t due) :
    ∃ s', usbPacketDone c e s = .ok s' ∧ s'.Stays p s e t due := by
  by_cases hhalt : (s.endpoint e).haltState = .none
  · have hqueued := hnotQueued hhalt
    have hcounts := h.counts t hcurrent hhalt
    have hhandle := hcounts.handle_ne_zero
      (hdue.imp_left fun hin => ⟨h.isIn.trans hin, hout⟩)
    have hfinish := h.finishPacket hcurrent hhalt hout
    have howned := ((s.endpoint e).finishPacket_buffers fun _ => hcounts.owned_ne_zero hout).1
    have hsame : ((s.transfer t).finishPacket (s.endpoint e).isIn).setQueued false =
        (s.transfer t).finishPacket (s.endpoint e).isIn := by
      unfold UsbTransfer.finishPacket UsbTransfer.setQueued
      split <;> simp [hqueued, UsbTransfer.setOutstanding, UsbTransfer.submitOne]
    have hnot : ((s.transfer t).finishPacket (s.endpoint e).isIn).packetQueued = false := by
      rw [← hsame, UsbTransfer.setQueued_packetQueued]
    have hdone : ((s.transfer t).finishPacket (s.endpoint e).isIn).outstandingPacket = false := by
      unfold UsbTransfer.finishPacket
      split <;> rfl
    rw [hsame, hqueued] at hfinish
    obtain ⟨s', hs', hstays⟩ := hgive _ hfinish
      (by rw [place_endpoint, (UsbEndpoint.finishPacket_sameLinks hhalt).currentTransfer, hcurrent])
      (by rw [place_transfer, hdone]) (by rw [place_transfer, hnot])
      (by rw [place_endpoint, ← h.isIn, howned])
    refine ⟨s', ?_, hstays.trans_left ?_ ?_⟩
    · rw [usbPacketDone_of_pending hcurrent hhalt hhandle (h.notCompleted t hcurrent), hqueued,
        if_neg Bool.false_ne_true, hs']
    · rw [place_endpoint]
      omega
    · rw [place_transfer, hnot, hqueued]
  · have hset := h.clearOutstanding hcurrent fun hnone => absurd hnone hhalt
    refine ⟨_, usbPacketDone_of_halted hcurrent hhalt, hset.dropTransfer hcurrent hhalt, ?_,
      .inr ⟨?_, ?_, ?_⟩⟩
    · simp [UsbState.completeTransfer]
    · simp [UsbState.completeTransfer]
    · simpa [UsbState.completeTransfer] using hhalt
    · simp [UsbState.completeTransfer]

/-- A call of `on_packet`, if every `usb_packet_done` in it returns. -/
theorem call_stays (hserves : p.Serves driver e own) (hown : own ≤ depth)
    (h : s.Ordered p e due) (hcurrent : (s.endpoint e).currentTransfer = some t)
    (hout : (s.transfer t).outstandingPacket = true)
    (hdone : ∀ s₁ : UsbState ε τ ν κ, s₁.Outside p s e →
      ∃ s', usbPacketDone (usbCalls driver depth) e s₁ = .ok s' ∧ s'.Stays p s₁ e t due) :
    ∃ s', (usbCalls driver (depth + 1)).call (s.transfer t).type.onPacket e s = .ok s' ∧
      s'.Stays p s e t due := by
  cases htype : (s.transfer t).type.onPacket with
  | currentPacketOnly => exact hdone s (.refl s e)
  | driver f =>
    have hcall := hserves.onPacket depth hown f ((h.wired t).onPacket f htype) s t hcurrent hout
    change ∃ s', driver (usbCalls driver depth) f e s = .ok s' ∧ _
    generalize driver (usbCalls driver depth) f e s = r at hcall
    cases hcall with
    | later ho => exact ⟨_, rfl, .outside h hcurrent ho⟩
    | done ho hafter =>
      obtain ⟨s₂, hs₂, hstays⟩ := hdone _ ho
      refine ⟨_, by rw [hs₂]; rfl, (hstays.trans_left (by rw [ho.owned]) ?_).after
        (hafter s₂).1 (hafter s₂).2⟩
      rw [ho.transfer t hcurrent]

/-- `on_packet` is called for a packet. -/
theorem setOutstanding (h : s.Ordered p e due)
    (hcurrent : (s.endpoint e).currentTransfer = some t)
    (howned : (s.endpoint e).ownedBufferCount ≠ 0)
    (hqueued : (s.endpoint e).haltState = .none → (s.transfer t).packetQueued = false)
    (hsubmit : p.isIn = true → (s.transfer t).remainingPacketsToSubmit ≠ 0) :
    (s.modifyTransfer t fun T => T.setOutstanding true).Ordered p e due := by
  have hplace : (s.place e t (s.endpoint e) ((s.transfer t).setOutstanding true)
      s.client).Ordered p e due := by
    refine h.place hcurrent ⟨rfl, rfl, rfl, rfl, rfl, rfl, rfl⟩ ⟨rfl, rfl, rfl⟩ rfl h.buffers
      fun hhalt => ?_
    have hcounts := h.counts t hcurrent hhalt
    exact
      { handle := hcounts.handle
        owned := fun _ => by
          have hpos := toNat_ne_zero.1 howned
          simp only [UsbTransfer.setOutstanding_packetQueued, hqueued hhalt, Bool.toNat_false]
          omega
        queued := fun _ => rfl
        submit := fun hin _ => hsubmit (h.isIn.symm.trans hin) }
  simpa [UsbState.place, UsbState.modifyTransfer] using hplace

/-- An empty buffer is given to the hardware. -/
theorem giveEmpty (h : s.Ordered p e due) (hcurrent : (s.endpoint e).currentTransfer = some t)
    (hcan : s.canGive e = true) (hout : (s.transfer t).outstandingPacket = false) (len : Word) :
    ((s.modifyEndpoint e fun E => E.giveBuffer len).modifyTransfer t
      UsbTransfer.submitOne).Ordered p e due := by
  obtain ⟨hsubmit, howned, hhalt⟩ := (canGive_iff hcurrent).1 hcan
  have hbuffers := h.buffers
  have hsub := toNat_sub_one howned
  have hplace : (s.place e t ((s.endpoint e).giveBuffer len) (s.transfer t).submitOne
      s.client).Ordered p e due := by
    refine h.place hcurrent (UsbEndpoint.giveBuffer_sameLinks hhalt len) ⟨rfl, rfl, rfl⟩ rfl ?_
      fun _ => ?_
    · simp at hsub ⊢
      omega
    have hcounts := h.counts t hcurrent hhalt
    have hhandle := hcounts.handle
    have hsub' := toNat_sub_one hsubmit
    exact
      { handle := by
          simp at hsub' ⊢
          omega
        owned := fun hout' => by simp [hout] at hout'
        queued := hcounts.queued
        submit := fun _ hout' => by simp [hout] at hout' }
  simpa [UsbState.place, UsbState.modifyTransfer, UsbState.modifyEndpoint] using hplace

/-- The loop over the buffers of an OUT endpoint, which leaves the other transfers alone. -/
theorem give_stays_out (driver : UsbDriver ε τ ν κ) (hin : p.isIn = false) (n : ℕ) :
    ∀ {depth : ℕ} {s : UsbState ε τ ν κ}, s.Ordered p e due →
    (s.endpoint e).currentTransfer = some t → (s.transfer t).outstandingPacket = false →
    (s.endpoint e).ownedBufferCount.toNat ≤ n → n ≤ depth →
    ∃ s', usbGiveAsManyBuffersAsPossible (usbCalls driver depth) e s = .ok s' ∧
      s'.Stays p s e t due ∧ ∀ t' ≠ t, s'.transfer t' = s.transfer t' := by
  induction n with
  | zero =>
    intro depth s h hcurrent hout howned hdepth
    have hcan : s.canGive e = false := by
      rw [Bool.eq_false_iff, Ne, canGive_iff hcurrent]
      intro hcan
      exact toNat_ne_zero.1 hcan.2.1 (by omega)
    exact ⟨s, usbGiveAsManyBuffersAsPossible_of_not_canGive hcan, .refl h hcurrent, fun _ _ => rfl⟩
  | succ n ih =>
    intro depth s h hcurrent hout howned hdepth
    cases hcan : s.canGive e with
    | false =>
      exact ⟨s, usbGiveAsManyBuffersAsPossible_of_not_canGive hcan, .refl h hcurrent,
        fun _ _ => rfl⟩
    | true =>
      obtain ⟨depth, rfl⟩ : ∃ d, depth = d + 1 := ⟨depth - 1, by omega⟩
      have hsub := toNat_sub_one ((canGive_iff hcurrent).1 hcan).2.1
      obtain ⟨s', hs', hstays, hothers⟩ := ih
        (h.giveEmpty hcurrent hcan hout ((s.endpoint e).bufferSize.setWidth 32))
        (by simpa using hcurrent) (by simpa using hout) (by simp at hsub ⊢; omega)
        (Nat.le_of_succ_le_succ hdepth)
      refine ⟨s', ?_, hstays.trans_left ?_ (by simp), fun t' hne => ?_⟩
      · rw [← hs']
        simp [usbGiveAsManyBuffersAsPossible, hcan, h.isIn, hin, usbGiveBuffer, hcurrent, usbCalls,
          bind, Except.bind]
      · simp at hsub ⊢
        omega
      · rw [hothers t' hne, modifyTransfer_transfer_of_ne _ _ _ _ hne, modifyEndpoint_transfer]

/-- The loop over the buffers of an IN endpoint. Each turn calls `on_packet` with one buffer less to
give below it. -/
theorem give_stays_in (hserves : p.Serves driver e own) (hin : p.isIn = true) (n : ℕ) :
    ∀ {depth : ℕ} {s : UsbState ε τ ν κ}, s.Ordered p e due →
    (s.endpoint e).currentTransfer = some t → (s.transfer t).packetQueued = false →
    (s.endpoint e).ownedBufferCount.toNat ≤ n → own + n ≤ depth →
    ∃ s', usbGiveAsManyBuffersAsPossible (usbCalls driver depth) e s = .ok s' ∧
      s'.Stays p s e t due := by
  induction n with
  | zero =>
    intro depth s h hcurrent hqueued howned hdepth
    have hcan : s.canGive e = false := by
      rw [Bool.eq_false_iff, Ne, canGive_iff hcurrent]
      intro hcan
      exact toNat_ne_zero.1 hcan.2.1 (by omega)
    exact ⟨s, usbGiveAsManyBuffersAsPossible_of_not_canGive hcan, .refl h hcurrent⟩
  | succ n ih =>
    intro depth s h hcurrent hqueued howned hdepth
    cases hcan : s.canGive e with
    | false => exact ⟨s, usbGiveAsManyBuffersAsPossible_of_not_canGive hcan, .refl h hcurrent⟩
    | true =>
      obtain ⟨depth, rfl⟩ : ∃ d, depth = d + 1 := ⟨depth - 1, by omega⟩
      obtain ⟨hsubmit, hne, hhalt⟩ := (canGive_iff hcurrent).1 hcan
      have hset := h.setOutstanding hcurrent hne (fun _ => hqueued) fun _ => hsubmit
      -- the packet, and what is nested in it
      obtain ⟨s₁, hs₁, hstays₁⟩ := hset.call_stays hserves (by omega : own ≤ depth)
        (by simpa using hcurrent) (by simp) fun s₀ ho => by
          have hsame : s₀.transfer t = (s.transfer t).setOutstanding true := by
            rw [ho.transfer t (by simpa using hcurrent), modifyTransfer_transfer_self]
          have howned₀ : (s₀.endpoint e).ownedBufferCount = (s.endpoint e).ownedBufferCount := by
            rw [ho.owned, modifyTransfer_endpoint]
          refine (hset.outside ho).packetDone_stays
            (ho.currentTransfer.trans (by simpa using hcurrent)) (by simp [hsame])
            (by simp [hsame, hqueued]) (.inl hin) fun s₂ h₂ hcurrent₂ _ hqueued₂ howned₂ => ?_
          rw [hin, Bool.toNat_true, howned₀] at howned₂
          exact ih h₂ hcurrent₂ hqueued₂ (by omega) (by omega)
      have hstays : s₁.Stays p s e t due := hstays₁.trans_left le_rfl (by simp)
      have hcall : usbCallOnPacket (usbCalls driver (depth + 1)) e s = .ok s₁ := by
        rw [← hs₁, usbCallOnPacket, hcurrent]
        simp
      have hgive : usbGiveAsManyBuffersAsPossible (usbCalls driver (depth + 1)) e s =
          if (s.endpoint e).ownedBufferCount = (s₁.endpoint e).ownedBufferCount then .ok s₁
          else usbGiveAsManyBuffersAsPossible (usbCalls driver depth) e s₁ := by
        rw [usbGiveAsManyBuffersAsPossible, if_pos hcan, h.isIn, hin, if_pos rfl, hcall]
        rfl
      rw [hgive]
      split
      · exact ⟨s₁, rfl, hstays⟩
      · next hless =>
        rcases hstays.transfer with ⟨hcurrent₁, hqueued₁⟩ | ⟨hnone, -, -⟩
        · have hlt : (s₁.endpoint e).ownedBufferCount.toNat ≠
              (s.endpoint e).ownedBufferCount.toNat :=
            fun heq => hless (BitVec.eq_of_toNat_eq heq.symm)
          have hle := hstays.owned
          obtain ⟨s', hs', hstays'⟩ := ih hstays.ordered hcurrent₁ (hqueued₁.trans hqueued)
            (by omega) (by omega : own + n ≤ depth)
          exact ⟨s', hs', hstays'.trans_left hle hqueued₁⟩
        · have hnot : s₁.canGive e = false := by simp [UsbState.canGive, hnone]
          exact ⟨s₁, usbGiveAsManyBuffersAsPossible_of_not_canGive hnot, hstays⟩

/-- The loop over the buffers of an endpoint. -/
theorem give_stays (hserves : p.Serves driver e own) (h : s.Ordered p e due)
    (hcurrent : (s.endpoint e).currentTransfer = some t)
    (hout : (s.transfer t).outstandingPacket = false)
    (hqueued : (s.transfer t).packetQueued = false) (hdepth : own + p.bufferCount ≤ depth) :
    ∃ s', usbGiveAsManyBuffersAsPossible (usbCalls driver depth) e s = .ok s' ∧
      s'.Stays p s e t due ∧ (p.isIn = false → ∀ t' ≠ t, s'.transfer t' = s.transfer t') := by
  have hle := h.owned_le
  cases hin : p.isIn with
  | true =>
    obtain ⟨s', hs', hstays⟩ :=
      h.give_stays_in hserves hin p.bufferCount hcurrent hqueued hle hdepth
    exact ⟨s', hs', hstays, fun hfalse => by simp at hfalse⟩
  | false =>
    obtain ⟨s', hs', hstays, hothers⟩ := h.give_stays_out driver hin p.bufferCount hcurrent
      hout hle (by omega : p.bufferCount ≤ depth)
    exact ⟨s', hs', hstays, fun _ => hothers⟩

/-! ## Calls between which the bookkeeping holds -/

/-- `usb_start_transfer` of a transfer that was set up. -/
theorem startTransfer (hserves : p.Serves driver e own) (h : s.Ordered p e 0)
    (hcurrent : (s.endpoint e).currentTransfer = none) (hfresh : (s.transfer t).Fresh)
    (hdepth : own + p.bufferCount ≤ depth) :
    ∃ s', usbStartTransfer (usbCalls driver depth) e t s = .ok s' ∧ s'.Ordered p e 0 ∧
      (p.isIn = false → ∀ t' ≠ t, s'.transfer t' = s.transfer t') := by
  have hstarted : ((s.started e t).endpoint e).currentTransfer = some t := by simp
  obtain ⟨s', hs', hstays, hothers⟩ := (h.start hcurrent hfresh).give_stays hserves hstarted
    (by simpa using hfresh.notOutstanding) (by simpa using hfresh.notQueued) hdepth
  refine ⟨s', hs', hstays.ordered, fun hin t' hne => ?_⟩
  rw [hothers hin t' hne, started_transfer_of_ne hne]

/-- A function of the user that is not an `on_packet` function. -/
theorem callback (hserves : p.Serves driver e own) (h : s.Ordered p e 0) {for_ : Option τ}
    {r : UsbResult (UsbState ε τ ν κ)}
    (hcall : s.Callback p (usbCalls driver depth) e for_ r)
    (hdepth : own + p.bufferCount ≤ depth) :
    ∃ s', r = .ok s' ∧ s'.Ordered p e 0 ∧
      (p.isIn = false → ∀ t, for_ = some t → (s'.transfer t).completed = true) := by
  cases hcall with
  | rests ho hfor => exact ⟨_, rfl, h.outside ho, fun _ => hfor⟩
  | @starts s₁ next after ho hcurrent hfresh hfor hafter =>
    obtain ⟨s₂, hs₂, hordered, hothers⟩ := (h.outside ho).startTransfer hserves
      (ho.currentTransfer.trans hcurrent) hfresh hdepth
    refine ⟨after s₂, by rw [hs₂]; rfl, hordered.outside (hafter s₂).1, fun hin t ht => ?_⟩
    have hne : t ≠ next := by
      rintro rfl
      simpa [hfor t ht] using hfresh.notCompleted
    rw [(hafter s₂).2 t ht, hothers hin t hne, hfor t ht]

/-- `_usb_check_for_transfer_completion`, for a transfer that is completed by it. -/
theorem check_of_completes (hserves : p.Serves driver e own) (h : s.Ordered p e due)
    (hcurrent : (s.endpoint e).currentTransfer = some t) (hcompletes : s.completes e t = true)
    (hdepth : own + p.bufferCount + 1 ≤ depth) :
    ∃ s', usbCheckForTransferCompletion (usbCalls driver depth) e s = .ok s' ∧ s'.Ordered p e 0 ∧
      (p.isIn = false ∨ (s.endpoint e).haltState ≠ .none → (s'.transfer t).completed = true) := by
  obtain ⟨depth, rfl⟩ : ∃ d, depth = d + 1 := ⟨depth - 1, by omega⟩
  by_cases hhalt : (s.endpoint e).haltState = .none
  · have hcounts := h.counts t hcurrent hhalt
    have hhandle := hcounts.handle
    obtain ⟨hzero, hout⟩ : (s.transfer t).remainingPacketsToHandle = 0 ∧
        (s.transfer t).outstandingPacket = false := by
      simpa [UsbState.completes, hhalt] using hcompletes
    have hempty : (s.endpoint e).hw.available = [] := by
      rw [hzero] at hhandle
      simp only [BitVec.ofNat_eq_ofNat, BitVec.toNat_ofNat, Nat.zero_mod] at hhandle
      exact List.length_eq_zero_iff.1 (by omega)
    have hdone := h.completeTransfer hcurrent fun _ => hempty
    have hnone : ((s.completeTransfer e t).endpoint e).currentTransfer = none := by
      simp [UsbState.completeTransfer]
    have hcompleted : ((s.completeTransfer e t).transfer t).completed = true := by
      simp [UsbState.completeTransfer]
    rw [usbCheckForTransferCompletion_of_done hcurrent hhalt hzero hout, UsbState.finish]
    cases hcomplete : (s.transfer t).onComplete with
    | some f =>
      have hcall := hserves.onComplete depth (by omega) f ((h.wired t).onComplete f hcomplete)
        (s.completeTransfer e t) t hnone (by simpa [UsbState.completeTransfer] using hcomplete)
        hcompleted
      obtain ⟨s', hs', hordered, hfor⟩ := hdone.callback hserves hcall (by omega)
      exact ⟨s', hs', hordered, fun hor => hfor (hor.resolve_right (not_not.2 hhalt)) t rfl⟩
    | none =>
      cases hchain : (s.endpoint e).chainTransfer with
      | none => exact ⟨_, rfl, hdone, fun _ => hcompleted⟩
      | some next =>
        have hfresh := hdone.chain next (by simpa [UsbState.completeTransfer] using hchain)
        have hne : t ≠ next := by
          rintro rfl
          simpa [hcompleted] using hfresh.notCompleted
        obtain ⟨s', hs', hordered, hothers⟩ := hdone.startTransfer hserves hnone hfresh
          (by omega : own + p.bufferCount ≤ depth + 1)
        refine ⟨s', hs', hordered, fun hor => ?_⟩
        rw [hothers (hor.resolve_right (not_not.2 hhalt)) t hne, hcompleted]
  · have hdone := (h.dropTransfer hcurrent hhalt).of_none (by simp [UsbState.completeTransfer]) 0
    exact ⟨_, usbCheckForTransferCompletion_of_halted hcurrent hhalt, hdone, fun _ => by
      simp [UsbState.completeTransfer]⟩

/-- The packet that was due is handled. -/
theorem handleOne (h : s.Ordered p e (due + 1))
    (hcurrent : (s.endpoint e).currentTransfer = some t) :
    (s.modifyTransfer t UsbTransfer.handleOne).Ordered p e due := by
  have hplace : (s.place e t (s.endpoint e) (s.transfer t).handleOne s.client).Ordered p e due := by
    refine h.place hcurrent ⟨rfl, rfl, rfl, rfl, rfl, rfl, rfl⟩ ⟨rfl, rfl, rfl⟩ rfl h.buffers
      fun hhalt => ?_
    have hcounts := h.counts t hcurrent hhalt
    have hhandle := hcounts.handle
    have hsub := toNat_sub_one (hcounts.handle_ne_zero (.inr due.succ_pos))
    exact
      { handle := by
          simp at hsub ⊢
          omega
        owned := hcounts.owned
        queued := hcounts.queued
        submit := hcounts.submit }
  simpa [UsbState.place, UsbState.modifyTransfer] using hplace

/-- The call of `on_packet` for a packet that is due, or for one that is to be submitted. -/
theorem callOnPacket (hserves : p.Serves driver e own) (h : s.Ordered p e due)
    (hdue : p.isIn = true ∨ 0 < due) (hcurrent : (s.endpoint e).currentTransfer = some t)
    (howned : (s.endpoint e).ownedBufferCount ≠ 0)
    (hout : (s.transfer t).outstandingPacket = false)
    (hsubmit : p.isIn = true → (s.transfer t).remainingPacketsToSubmit ≠ 0)
    (hdepth : own + p.bufferCount + 1 ≤ depth) :
    ∃ s', usbCallOnPacket (usbCalls driver depth) e s = .ok s' ∧
      s'.Stays p s e t due := by
  obtain ⟨depth, rfl⟩ : ∃ d, depth = d + 1 := ⟨depth - 1, by omega⟩
  have hnotQueued : (s.endpoint e).haltState = .none → (s.transfer t).packetQueued = false := by
    intro hhalt
    by_contra hq
    have hqueued := (h.counts t hcurrent hhalt).queued (by simpa using hq)
    simp [hout] at hqueued
  have hset := h.setOutstanding hcurrent howned hnotQueued hsubmit
  obtain ⟨s', hs', hstays⟩ := hset.call_stays hserves (by omega : own ≤ depth)
    (by simpa using hcurrent) (by simp) fun s₀ ho => by
      have hsame : s₀.transfer t = (s.transfer t).setOutstanding true := by
        rw [ho.transfer t (by simpa using hcurrent), modifyTransfer_transfer_self]
      refine (hset.outside ho).packetDone_stays
        (ho.currentTransfer.trans (by simpa using hcurrent)) (by simp [hsame]) (fun hhalt => ?_)
        hdue fun s₂ h₂ hcurrent₂ hout₂ hqueued₂ _ => ?_
      · have hhalt' : (s.endpoint e).haltState = .none := by
          by_contra hne
          exact ho.halt (by simpa using hne) hhalt
        simp [hsame, hnotQueued hhalt']
      · obtain ⟨s', hs', hstays, -⟩ := h₂.give_stays hserves hcurrent₂ hout₂ hqueued₂
          (by omega : own + p.bufferCount ≤ depth)
        exact ⟨s', hs', hstays⟩
  refine ⟨s', ?_, hstays.trans_left le_rfl (by simp)⟩
  rw [← hs', usbCallOnPacket, hcurrent]
  simp

/-- `_usb_handle_transfer` for a packet that `on_packet` can be called for. -/
theorem handleTransfer (hserves : p.Serves driver e own) {which : Bool}
    (h : (s.modifyEndpoint e UsbEndpoint.ownOne).Ordered p e 1)
    (hcurrent : (s.endpoint e).currentTransfer = some t)
    (howned : (s.endpoint e).ownedBufferCount + 1 ≠ 0)
    (hout : (s.transfer t).outstandingPacket = false)
    (hdepth : own + p.bufferCount + 1 ≤ depth) :
    ∃ s', usbHandleTransfer (usbCalls driver depth) e which s = .ok s' ∧ s'.Ordered p e 0 := by
  generalize hs₁ : (s.modifyEndpoint e UsbEndpoint.ownOne).modifyEndpoint e
    (fun E => E.takeBuffer which) = s₁
  have hcurrent₁ : (s₁.endpoint e).currentTransfer = some t := by simp [← hs₁, hcurrent]
  have htransfer₁ : s₁.transfer t = s.transfer t := by simp [← hs₁]
  have h₁ : s₁.Ordered p e 1 := by
    rw [← hs₁]
    exact h.modifyEndpoint ⟨rfl, rfl, rfl, rfl, rfl, rfl, rfl⟩ h.buffers h.idle fun t' ht' hhalt =>
      (h.counts t' ht' hhalt).congr rfl rfl rfl
  obtain ⟨s₂, hs₂, hstays⟩ : ∃ s₂, (if (s₁.endpoint e).isIn = false ∨
      (s₁.transfer t).remainingPacketsToSubmit ≠ 0 then usbCallOnPacket (usbCalls driver depth) e s₁
      else .ok s₁) = .ok s₂ ∧ s₂.Stays p s₁ e t 1 := by
    split
    · next hor =>
      refine h₁.callOnPacket hserves (.inr Nat.one_pos) hcurrent₁ (by simpa [← hs₁] using howned)
        (by rw [htransfer₁, hout]) (fun hin => ?_) hdepth
      exact hor.resolve_left (by simp [h₁.isIn, hin])
    · exact ⟨s₁, rfl, .refl h₁ hcurrent₁⟩
  have hhandle : usbHandleTransfer (usbCalls driver depth) e which s =
      if (s₂.transfer t).completed then .ok s₂
      else usbCheckForTransferCompletion (usbCalls driver depth) e
        (s₂.modifyTransfer t UsbTransfer.handleOne) := by
    simp only [usbHandleTransfer, modifyEndpoint_endpoint_self, UsbEndpoint.ownOne_currentTransfer,
      hcurrent, modifyEndpoint_transfer, hout, Bool.false_eq_true, if_false]
    have hendpoint : s₁.endpoint e = (s.endpoint e).ownOne.takeBuffer which := by simp [← hs₁]
    rw [hs₁, ← hendpoint, ← htransfer₁]
    split at hs₂
    · next hor =>
      rw [if_pos hor, hs₂]
      rfl
    · next hor =>
      rw [if_neg hor, hs₂]
      rfl
  rw [hhandle]
  rcases hstays.transfer with ⟨hcurrent₂, -⟩ | ⟨hnone, -, hcompleted⟩
  · have hone := hstays.ordered.handleOne hcurrent₂
    rw [hstays.ordered.notCompleted t hcurrent₂, if_neg Bool.false_ne_true]
    cases hcompletes : (s₂.modifyTransfer t UsbTransfer.handleOne).completes e t with
    | true =>
      obtain ⟨s', hs', hordered, -⟩ := hone.check_of_completes hserves hcurrent₂ hcompletes hdepth
      exact ⟨s', hs', hordered⟩
    | false =>
      refine ⟨_, ?_, hone⟩
      simp [usbCheckForTransferCompletion, hcurrent₂, hcompletes]
  · rw [hcompleted, if_pos rfl]
    exact ⟨s₂, rfl, hstays.ordered.of_none hnone 0⟩

/-- `usb_packet_done` for the packet that is outstanding. -/
theorem packetDone (hserves : p.Serves driver e own) (h : s.Ordered p e 0)
    (hcurrent : (s.endpoint e).currentTransfer = some t)
    (hout : (s.transfer t).outstandingPacket = true)
    (hdepth : own + p.bufferCount + 1 ≤ depth) :
    ∃ s', usbPacketDone (usbCalls driver depth) e s = .ok s' ∧ s'.Ordered p e 0 := by
  by_cases hhalt : (s.endpoint e).haltState = .none
  · have hcounts := h.counts t hcurrent hhalt
    by_cases hzero : (s.transfer t).remainingPacketsToHandle = 0
    · -- the last packet of an OUT transfer was handled before
      have hin : p.isIn = false := by
        by_contra hin
        exact hcounts.handle_ne_zero (.inl ⟨h.isIn.trans (by simpa using hin), hout⟩) hzero
      have hqueued : (s.transfer t).packetQueued = false := by
        have hhandle := hcounts.handle
        rw [hzero] at hhandle
        by_contra hq
        simp [show (s.transfer t).packetQueued = true by simpa using hq] at hhandle
      have hset := h.clearOutstanding hcurrent fun _ => hqueued
      obtain ⟨s', hs', hordered, hcompleted⟩ := hset.check_of_completes hserves hcurrent
        (by simp [UsbState.completes, hzero]) hdepth
      refine ⟨s', ?_, hordered⟩
      rw [usbPacketDone, hcurrent]
      simp [hs', hcompleted (.inl hin), bind, Except.bind]
    · have hfinish := h.finishPacket hcurrent hhalt hout
      have howned := ((s.endpoint e).finishPacket_buffers fun _ => hcounts.owned_ne_zero hout).1
      have hlinks := UsbEndpoint.finishPacket_sameLinks hhalt
      have hdone : ((s.transfer t).finishPacket (s.endpoint e).isIn).outstandingPacket = false := by
        unfold UsbTransfer.finishPacket
        split <;> rfl
      rw [usbPacketDone_of_pending hcurrent hhalt hzero (h.notCompleted t hcurrent)]
      cases hqueued : (s.transfer t).packetQueued with
      | true =>
        have hone : (s.endpoint e).finishPacket.disownOne.ownOne =
            (s.endpoint e).finishPacket := by
          simp only [UsbEndpoint.ownOne, UsbEndpoint.disownOne, BitVec.sub_add_cancel]
        have htwo := hcounts.owned hout
        rw [hqueued] at hfinish htwo
        refine handleTransfer hserves (t := t) ?_ ?_ ?_ ?_ hdepth
        · rw [place_modifyEndpoint, hone]
          simpa using hfinish
        · rw [place_endpoint]
          exact hlinks.currentTransfer.trans hcurrent
        · rw [place_endpoint, UsbEndpoint.disownOne_ownedBufferCount, BitVec.sub_add_cancel,
            toNat_ne_zero]
          have hle := Bool.toNat_le (s.endpoint e).isIn
          simp only [Bool.toNat_true] at htwo
          omega
        · simpa using hdone
      | false =>
        have hsame : ((s.transfer t).finishPacket (s.endpoint e).isIn).setQueued false =
            (s.transfer t).finishPacket (s.endpoint e).isIn := by
          unfold UsbTransfer.finishPacket UsbTransfer.setQueued
          split <;> simp [hqueued, UsbTransfer.setOutstanding, UsbTransfer.submitOne]
        have hnot : ((s.transfer t).finishPacket (s.endpoint e).isIn).packetQueued = false := by
          rw [← hsame, UsbTransfer.setQueued_packetQueued]
        rw [hsame, hqueued] at hfinish
        obtain ⟨s', hs', hstays, -⟩ := hfinish.give_stays hserves
          (by rw [place_endpoint]; exact hlinks.currentTransfer.trans hcurrent)
          (by rw [place_transfer, hdone]) (by rw [place_transfer, hnot])
          (by omega : own + p.bufferCount ≤ depth)
        exact ⟨s', hs', hstays.ordered⟩
  · have hset := h.clearOutstanding hcurrent fun hnone => absurd hnone hhalt
    exact ⟨_, usbPacketDone_of_halted hcurrent hhalt, hset.dropTransfer hcurrent hhalt⟩

/-- A packet that is due waits until the outstanding one is done. -/
theorem queueOne (h : s.Ordered p e (due + 1))
    (hcurrent : (s.endpoint e).currentTransfer = some t)
    (hout : (s.transfer t).outstandingPacket = true)
    (hqueued : (s.endpoint e).haltState = .none → (s.transfer t).packetQueued = false ∧
      2 ≤ (s.endpoint e).ownedBufferCount.toNat) :
    (s.modifyTransfer t fun T => T.setQueued true).Ordered p e due := by
  have hplace : (s.place e t (s.endpoint e) ((s.transfer t).setQueued true) s.client).Ordered
      p e due := by
    refine h.place hcurrent ⟨rfl, rfl, rfl, rfl, rfl, rfl, rfl⟩ ⟨rfl, rfl, rfl⟩ rfl h.buffers
      fun hhalt => ?_
    have hcounts := h.counts t hcurrent hhalt
    have hhandle := hcounts.handle
    obtain ⟨hnot, htwo⟩ := hqueued hhalt
    rw [hnot] at hhandle
    exact
      { handle := by
          simp at hhandle ⊢
          omega
        owned := fun _ => by simpa using htwo
        queued := fun _ => hout
        submit := hcounts.submit }
  simpa [UsbState.place, UsbState.modifyTransfer] using hplace

/-- A change of the endpoint after which the packets of its transfer no longer count : it has none
and neither has the hardware, or it is halted. -/
theorem dropCounts (h : s.Ordered p e due) {f : UsbEndpoint τ ν → UsbEndpoint τ ν}
    (hwiring : (f (s.endpoint e)).SameWiring (s.endpoint e))
    (hchain : (f (s.endpoint e)).chainTransfer = (s.endpoint e).chainTransfer)
    (hbuffers : (f (s.endpoint e)).ownedBufferCount.toNat +
      (f (s.endpoint e)).hw.available.length = p.bufferCount)
    (hdrop : (f (s.endpoint e)).currentTransfer = none ∧ (f (s.endpoint e)).hw.available = [] ∨
      (f (s.endpoint e)).currentTransfer = (s.endpoint e).currentTransfer ∧
        (f (s.endpoint e)).haltState ≠ .none) :
    (s.modifyEndpoint e f).Ordered p e 0 where
  isIn := by rw [modifyEndpoint_endpoint_self, hwiring.isIn, h.isIn]
  doubleBuffered := by rw [modifyEndpoint_endpoint_self, hwiring.doubleBuffered, h.doubleBuffered]
  wired := h.wired
  onStallChange := by
    rw [modifyEndpoint_endpoint_self, hwiring.onStallChange]
    exact h.onStallChange
  chain := by
    rw [modifyEndpoint_endpoint_self, hchain]
    exact h.chain
  buffers := by rw [modifyEndpoint_endpoint_self, hbuffers]
  idle _ hhalt := by
    rw [modifyEndpoint_endpoint_self] at hhalt ⊢
    rcases hdrop with ⟨-, hempty⟩ | ⟨-, hne⟩
    · exact hempty
    · exact absurd hhalt hne
  started t ht := by
    rw [modifyEndpoint_endpoint_self] at ht
    rcases hdrop with ⟨hnone, -⟩ | ⟨hsame, -⟩
    · simp [hnone] at ht
    · exact h.started t (hsame ▸ ht)
  notCompleted t ht := by
    rw [modifyEndpoint_endpoint_self] at ht
    rcases hdrop with ⟨hnone, -⟩ | ⟨hsame, -⟩
    · simp [hnone] at ht
    · exact h.notCompleted t (hsame ▸ ht)
  counts t ht hhalt := by
    rw [modifyEndpoint_endpoint_self] at ht hhalt
    rcases hdrop with ⟨hnone, -⟩ | ⟨-, hne⟩
    · simp [hnone] at ht
    · exact absurd hhalt hne

/-- `on_stall_change`, if there is one. -/
theorem stallChange (hserves : p.Serves driver e own) (h : s.Ordered p e 0)
    (hdepth : own + p.bufferCount + 1 ≤ depth) :
    ∃ s', (match (s.endpoint e).onStallChange with
      | none => Except.ok s
      | some f => (usbCalls driver depth).call (.driver f) e s) = .ok s' ∧ s'.Ordered p e 0 := by
  obtain ⟨depth, rfl⟩ : ∃ d, depth = d + 1 := ⟨depth - 1, by omega⟩
  cases hstall : (s.endpoint e).onStallChange with
  | none => exact ⟨s, rfl, h⟩
  | some f =>
    obtain ⟨s', hs', hordered, -⟩ := h.callback hserves
      (hserves.onStallChange depth (by omega) f (h.onStallChange f hstall) s hstall) (by omega)
    exact ⟨s', hs', hordered⟩

/-- `_usb_stall_endpoint`, after a change that keeps what is left of the bookkeeping of a halted
endpoint. -/
theorem stallEndpoint (hserves : p.Serves driver e own)
    (h : ∀ hs, hs ≠ .none → (s.modifyEndpoint e fun E => E.setHalt hs).Ordered p e 0)
    {hs : UsbHaltState} (hne : hs ≠ .none) (hdepth : own + p.bufferCount + 1 ≤ depth) :
    ∃ s', usbStallEndpoint (usbCalls driver depth) e hs s = .ok s' ∧ s'.Ordered p e 0 := by
  unfold usbStallEndpoint
  split
  · exact (h hs hne).stallChange hserves hdepth
  · next hhalt =>
    split
    · exact ⟨_, rfl, h hs hne⟩
    · refine ⟨s, rfl, ?_⟩
      have hself := h _ hhalt
      simpa [UsbState.modifyEndpoint, UsbEndpoint.setHalt] using hself

theorem setHalt (h : s.Ordered p e 0) {hs : UsbHaltState} (hne : hs ≠ .none) :
    (s.modifyEndpoint e fun E => E.setHalt hs).Ordered p e 0 :=
  h.dropCounts ⟨rfl, rfl, rfl, rfl⟩ rfl h.buffers (.inr ⟨rfl, hne⟩)

theorem bufferCount_eq (h : s.Ordered p e due) :
    (s.endpoint e).bufferCount.toNat = p.bufferCount := by
  unfold UsbEndpoint.bufferCount UsbRoles.bufferCount
  rw [h.doubleBuffered]
  split <;> rfl

/-- `_usb_reset_endpoint`. -/
theorem resetEndpoint (hserves : p.Serves driver e own) (h : s.Ordered p e 0) (hard : Bool)
    (hdepth : own + p.bufferCount + 1 ≤ depth) :
    ∃ s', usbResetEndpoint (usbCalls driver depth) e hard s = .ok s' ∧ s'.Ordered p e 0 := by
  have hcount : ((s.endpoint e).setTransfer none).bufferCount.toNat = p.bufferCount :=
    h.bufferCount_eq
  have hreset : (s.modifyEndpoint e fun E => E.resetTransfers hard).Ordered p e 0 :=
    h.dropCounts ⟨rfl, rfl, rfl, rfl⟩ rfl (by simpa [UsbEndpoint.resetTransfers] using hcount)
      (.inl ⟨rfl, rfl⟩)
  have hrest : ∀ s₁ : UsbState ε τ ν κ, s₁.Ordered p e 0 → ∃ s',
      (if s₁.currentConfigNum ≠ 0 ∧ (s₁.endpoint e).defaultTransfer.isSome ∧
          (s₁.endpoint e).currentTransfer = none then
        usbStartDefaultTransfer (usbCalls driver depth) e s₁
      else .ok s₁) = .ok s' ∧ s'.Ordered p e 0 := by
    intro s₁ h₁
    split
    · next hcond =>
      obtain ⟨t, ht⟩ := Option.isSome_iff_exists.1 hcond.2.1
      have hwired := h₁.wired t
      have hset : (s₁.modifyTransfer t fun _ =>
          UsbTransfer.reset (s₁.transfer t).type none).Ordered p e 0 :=
        h₁.modifyTransfer_of_ne (by simp [hcond.2.2]) ⟨hwired.onPacket, fun f hf => by simp at hf⟩
          fun _ => UsbTransfer.reset_fresh _ _
      have hfresh : ((s₁.modifyTransfer t fun _ =>
          UsbTransfer.reset (s₁.transfer t).type none).transfer t).Fresh := by
        rw [modifyTransfer_transfer_self]
        exact UsbTransfer.reset_fresh _ _
      obtain ⟨s', hs', hordered, -⟩ := hset.startTransfer hserves hcond.2.2 hfresh
        (by omega : own + p.bufferCount ≤ depth)
      refine ⟨s', ?_, hordered⟩
      rw [usbStartDefaultTransfer, ht]
      exact hs'
    · exact ⟨s₁, rfl, h₁⟩
  unfold usbResetEndpoint
  dsimp only
  split
  · obtain ⟨s₁, hs₁, h₁⟩ := stallChange hserves (hreset.dropCounts ⟨rfl, rfl, rfl, rfl⟩ rfl
      hreset.buffers (.inl (by simp [UsbEndpoint.resetTransfers])) :
      ((s.modifyEndpoint e fun E => E.resetTransfers hard).modifyEndpoint e
        fun E => E.setHalt .none).Ordered p e 0) hdepth
    obtain ⟨s', hs', hordered⟩ := hrest s₁ h₁
    refine ⟨s', ?_, hordered⟩
    rw [← hs']
    split
    · next hstall =>
      rw [hstall] at hs₁
      cases hs₁
      rfl
    · next f hstall =>
      rw [hstall] at hs₁
      dsimp only at hs₁
      rw [hs₁]
      rfl
  · exact hrest _ hreset

/-- The interrupt for a buffer. -/
theorem bufferInterrupt (hserves : p.Serves driver e own) (h : s.Ordered p e 0)
    (packet : List Byte) (hdepth : own + p.bufferCount + 1 ≤ depth) :
    ∃ s', usbBufferInterrupt (usbCalls driver depth) e packet s = .ok s' ∧
      s'.Ordered p e 0 := by
  unfold usbBufferInterrupt
  split
  · exact ⟨s, rfl, h⟩
  · next which E hdone =>
    have hlinks := UsbEndpoint.bufferDone_sameLinks hdone
    obtain ⟨b, rest, havailable, hrest, howned⟩ : ∃ b rest,
        (s.endpoint e).hw.available = b :: rest ∧ E.hw.available = rest ∧
        E.ownedBufferCount = (s.endpoint e).ownedBufferCount := by
      unfold UsbEndpoint.bufferDone at hdone
      split at hdone
      · cases hdone
      · next b rest havailable =>
        obtain ⟨-, rfl⟩ := Prod.mk.inj (Option.some.inj hdone)
        exact ⟨b, rest, havailable, rfl, rfl⟩
    have hbuffers := h.buffers
    have hle := p.bufferCount_le
    rw [havailable, List.length_cons] at hbuffers
    have hadd : (E.ownedBufferCount + 1).toNat = (s.endpoint e).ownedBufferCount.toNat + 1 := by
      rw [howned, BitVec.toNat_add]
      simp
      omega
    have hown : ((s.modifyEndpoint e fun _ => E).modifyEndpoint e UsbEndpoint.ownOne).Ordered
        p e 1 := by
      have hone : (s.modifyEndpoint e fun _ => E.ownOne).Ordered p e 1 := by
        refine h.modifyEndpoint ⟨hlinks.isIn, hlinks.doubleBuffered, hlinks.defaultTransfer,
          hlinks.currentTransfer, hlinks.chainTransfer, hlinks.onStallChange, hlinks.haltState⟩
          ?_ (fun hnone hhalt => ?_) fun t ht hhalt => ?_
        · rw [UsbEndpoint.ownOne_ownedBufferCount, hadd, UsbEndpoint.ownOne_hw, hrest]
          omega
        · simpa [havailable] using h.idle hnone hhalt
        · have hcounts := h.counts t ht hhalt
          have hhandle := hcounts.handle
          rw [havailable, List.length_cons] at hhandle
          exact
            { handle := by
                rw [UsbEndpoint.ownOne_hw, hrest]
                omega
              owned := fun hout => by
                rw [UsbEndpoint.ownOne_ownedBufferCount, hadd]
                exact Nat.le_succ_of_le (hcounts.owned hout)
              queued := hcounts.queued
              submit := fun hin => hcounts.submit (hlinks.isIn.symm.trans hin) }
      simpa [UsbState.modifyEndpoint] using hone
    cases hcurrent : (s.endpoint e).currentTransfer with
    | none =>
      have hnone : (((s.modifyEndpoint e fun _ => E).modifyEndpoint e
          UsbEndpoint.ownOne).endpoint e).currentTransfer = none := by
        simp [hlinks.currentTransfer, hcurrent]
      have hzero := hown.of_none hnone 0
      obtain ⟨s', hs', hordered⟩ := stallEndpoint hserves (fun hs hne => hzero.setHalt hne)
        (by simp : UsbHaltState.halted ≠ .none) hdepth
      refine ⟨s', ?_, hordered⟩
      rw [← hs']
      simp only [usbHandleTransfer]
      rw [hnone]
      rfl
    | some t =>
      have hcurrent' : ((s.modifyEndpoint e fun _ => E).endpoint e).currentTransfer = some t := by
        simp [hlinks.currentTransfer, hcurrent]
      cases hout : (s.transfer t).outstandingPacket with
      | true =>
        generalize hs₁ : (s.modifyEndpoint e fun _ => E).modifyEndpoint e UsbEndpoint.ownOne = s₁
          at hown
        have hcurrent₁ : (s₁.endpoint e).currentTransfer = some t := by
          simpa [← hs₁] using hcurrent'
        have htransfer₁ : s₁.transfer t = s.transfer t := by simp [← hs₁]
        refine ⟨s₁.modifyTransfer t fun T => T.setQueued true, ?_, hown.queueOne hcurrent₁
          (by rw [htransfer₁, hout]) fun hhalt => ?_⟩
        · simp only [usbHandleTransfer, hs₁]
          rw [hcurrent₁]
          simp [htransfer₁, hout]
        · -- a packet that waits and the outstanding one have all the buffers
          have hhalt' : (s.endpoint e).haltState = .none := by
            simpa [← hs₁, hlinks.haltState] using hhalt
          have hcounts := (h.counts t hcurrent hhalt').owned hout
          have howned₁ : (s₁.endpoint e).ownedBufferCount.toNat =
              (s.endpoint e).ownedBufferCount.toNat + 1 := by
            rw [← hadd, ← hs₁]
            simp
          rw [htransfer₁, howned₁]
          cases hqueued : (s.transfer t).packetQueued with
          | true =>
            simp only [hqueued, Bool.toNat_true] at hcounts
            omega
          | false =>
            simp only [hqueued, Bool.toNat_false] at hcounts
            exact ⟨rfl, by omega⟩
      | false =>
        refine handleTransfer hserves hown hcurrent' ?_ hout hdepth
        rw [modifyEndpoint_endpoint_self, toNat_ne_zero, hadd]
        omega

end UsbState.Ordered

end Nesting

end PicoBootrom
