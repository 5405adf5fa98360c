import PicoBootrom.UsbLine

/-!
# Packet handlers

What a user of the library does with the packets of a transfer, when it does not touch anything
else : `receive` is the part of `on_packet` before the packet is done, `finish` what is done right
before `usb_packet_done`, which for an IN transfer makes the packet. `usb_packet_done` is called by
`on_packet` if `receive` says so, and later otherwise.

`Serves` is the contract of a handler, in terms of the packets : the state of the user of the
library before it gets the `k`-th packet, while the `k`-th packet is not done, and when it can be
done. A transfer that is completed goes on with its end (`LineSetup.finish`) ; `Ends` says what is
left after an `on_complete` that only changes the state of the user of the library.
-/

namespace PicoBootrom

variable {ε τ ν κ : Type}

/-! ## Handlers -/

/-- What `on_packet` does to the state of the user of the library, and whether the packet is done
at once ; and what is done right before `usb_packet_done`, with the packet of an IN transfer. -/
structure UsbHandler (κ : Type) where
  receive : κ → List Byte → κ × Bool
  finish : κ → List Byte → κ × List Byte

/-- The packet of an OUT endpoint, as the user of the library sees it. -/
def UsbEndpoint.packet (E : UsbEndpoint τ ν) : List Byte :=
  if E.isIn then [] else E.bufferData

namespace UsbHandler

section Calls

variable [DecidableEq ε] [DecidableEq τ]

/-- The end of a packet : the user of the library finishes it and calls `usb_packet_done`. -/
def packetDone (h : UsbHandler κ) (c : UsbCalls ε τ ν κ) (e : ε) (s : UsbState ε τ ν κ) :
    UsbResult (UsbState ε τ ν κ) :=
  let s := usbCurrentPacketBuffer e s
  let r := h.finish s.client (s.endpoint e).packet
  let s := s.modifyClient fun _ => r.1
  usbPacketDone c e
    (if (s.endpoint e).isIn then s.modifyEndpoint e fun E => E.fillBuffer r.2 else s)

/-- An `on_packet` function. -/
def onPacket (h : UsbHandler κ) (c : UsbCalls ε τ ν κ) (e : ε) (s : UsbState ε τ ν κ) :
    UsbResult (UsbState ε τ ν κ) :=
  let s := if (s.endpoint e).isIn then s else usbCurrentPacketBuffer e s
  let r := h.receive s.client (s.endpoint e).packet
  let s := s.modifyClient fun _ => r.1
  if r.2 then h.packetDone c e s else .ok s

/-- The handler runs the transfer of a line : it is its `on_packet` function, `on_complete` only
changes the state of the user of the library, and a chained transfer is another one, whose first
packet is not done at once. -/
structure Drives (h : UsbHandler κ) (complete : κ → κ) (driver : UsbDriver ε τ ν κ)
    (s : UsbState ε τ ν κ) (e : ε) (p : LineSetup τ ν) : Prop where
  onPacket : ∀ c s, driver c p.onPacket e s = h.onPacket c e s
  onComplete : ∀ f, p.onComplete = some f → ∀ c s, driver c f e s = .ok (s.modifyClient complete)
  chain : ∀ next, p.chain = some next → next ≠ p.transfer ∧
    ∃ f, (s.transfer next).type.onPacket = .driver f ∧ ∀ c s, driver c f e s = .ok s

/-- The handler is the `on_packet` function of a line, in the states in which it gets a packet. -/
def Handles (h : UsbHandler κ) (driver : UsbDriver ε τ ν κ) (e : ε) (p : LineSetup τ ν)
    (idle : ℕ → κ → Prop) : Prop :=
  ∀ c s k, (s.endpoint e).isIn = p.isIn → idle k s.client →
    driver c p.onPacket e s = h.onPacket c e s

theorem Drives.handles {h : UsbHandler κ} {complete : κ → κ} {driver : UsbDriver ε τ ν κ}
    {s : UsbState ε τ ν κ} {e : ε} {p : LineSetup τ ν} (hd : h.Drives complete driver s e p)
    (idle : ℕ → κ → Prop) : h.Handles driver e p idle :=
  fun c s _ _ _ => hd.onPacket c s

end Calls

/-- What `receive` and `finish` get : the packet of an OUT transfer. -/
def input (isIn : Bool) (packet : List Byte) : List Byte := if isIn then [] else packet

/-- The contract of a handler for `n` packets : `idle k` before the `k`-th packet, `busy k` while
it is not done, and `ready k` when it can be done. The packets of an IN transfer come from the
handler. -/
structure Serves (h : UsbHandler κ) (isIn : Bool) (n : ℕ) (packet : ℕ → List Byte)
    (idle busy ready : ℕ → κ → Prop) : Prop where
  length_le : ∀ k < n, (packet k).length ≤ 64
  receive : ∀ k < n, ∀ K, idle k K → (h.receive K (input isIn (packet k))).2 = false →
    busy k (h.receive K (input isIn (packet k))).1
  atOnce : ∀ k < n, ∀ K, idle k K → (h.receive K (input isIn (packet k))).2 = true →
    ready k (h.receive K (input isIn (packet k))).1
  finish : ∀ k < n, ∀ K, ready k K → idle (k + 1) (h.finish K (input isIn (packet k))).1
  sends : isIn = true → ∀ k < n, ∀ K, ready k K → (h.finish K []).2 = packet k

section Serves

variable {h : UsbHandler κ} {isIn : Bool} {n : ℕ} {packet : ℕ → List Byte}
  {idle busy ready : ℕ → κ → Prop}

/-- What a handler keeps of the state of the user of the library may be asked for throughout. -/
theorem Serves.and (hs : h.Serves isIn n packet idle busy ready) {I : κ → Prop}
    (hreceive : ∀ K packet, I K → I (h.receive K packet).1)
    (hfinish : ∀ K packet, I K → I (h.finish K packet).1) :
    h.Serves isIn n packet (fun k K => idle k K ∧ I K) (fun k K => busy k K ∧ I K)
      (fun k K => ready k K ∧ I K) where
  length_le := hs.length_le
  receive k hk K hK hlater := ⟨hs.receive k hk K hK.1 hlater, hreceive _ _ hK.2⟩
  atOnce k hk K hK hnow := ⟨hs.atOnce k hk K hK.1 hnow, hreceive _ _ hK.2⟩
  finish k hk K hK := ⟨hs.finish k hk K hK.1, hfinish _ _ hK.2⟩
  sends hin k hk K hK := hs.sends hin k hk K hK.1

/-- While the outstanding packet cannot be done, the handler gets no packet. -/
theorem Serves.waiting (h : UsbHandler κ) (isIn : Bool) (n : ℕ)
    (hlen : ∀ i, (packet i).length ≤ 64) (busy : ℕ → κ → Prop) :
    h.Serves isIn n packet (fun _ _ => False) busy fun _ _ => False where
  length_le i _ := hlen i
  receive _ _ _ hK := hK.elim
  atOnce _ _ _ hK := hK.elim
  finish _ _ _ hK := hK.elim
  sends _ _ _ _ hK := hK.elim

/-- A transfer does not go back behind a packet that is done. -/
theorem Serves.from (hs : h.Serves isIn n packet idle busy ready) (d : ℕ) :
    h.Serves isIn n packet (fun k K => idle k K ∧ d ≤ k) (fun k K => busy k K ∧ d ≤ k)
      (fun k K => ready k K ∧ d ≤ k + 1) where
  length_le := hs.length_le
  receive k hk K hK hlater := ⟨hs.receive k hk K hK.1 hlater, hK.2⟩
  atOnce k hk K hK hnow := ⟨hs.atOnce k hk K hK.1 hnow, Nat.le_succ_of_le hK.2⟩
  finish k hk K hK := ⟨hs.finish k hk K hK.1, hK.2⟩
  sends hin k hk K hK := hs.sends hin k hk K hK.1

end Serves

end UsbHandler

/-! ## The end of a transfer -/

section End

variable [DecidableEq ε] [DecidableEq τ]

/-- What `_usb_check_for_transfer_completion` goes on with when the transfer of a line is completed
and the endpoint has none. -/
def LineSetup.finish (p : LineSetup τ ν) (c : UsbCalls ε τ ν κ) (e : ε) (s : UsbState ε τ ν κ) :
    UsbResult (UsbState ε τ ν κ) :=
  match p.onComplete, p.chain with
  | some f, _ => c.call (.driver f) e s
  | none, some next => usbStartTransfer c e next s
  | none, none => .ok s

/-- The transfer of a line is completed : `on_complete` was called once, or the chained transfer
was started. -/
def Ends (complete : κ → κ) (p : LineSetup τ ν) (s : UsbState ε τ ν κ) (e : ε)
    (E : UsbEndpoint τ ν) (T : UsbTransfer ν) (K : κ) (s' : UsbState ε τ ν κ) : Prop :=
  match p.onComplete, p.chain with
  | some _, _ => s' = s.place e p.transfer (E.setTransfer none)
      T.complete (complete K)
  | none, none => s' = s.place e p.transfer (E.setTransfer none)
      T.complete K
  | none, some next =>
    s'.transfer p.transfer = T.complete ∧
      (s'.endpoint e).currentTransfer = some next ∧ (s'.endpoint e).chainTransfer = none ∧
      (s'.transfer next).started = true ∧ s'.client = K ∧
      (s'.endpoint e).ownedBufferCount.toNat + (s'.endpoint e).hw.available.length = 2

/-- Empty buffers for the packets of an OUT transfer keep their number together with the ones
owned, and everything that belongs to other transfers. -/
theorem usbGiveAsManyBuffersAsPossible_out (driver : UsbDriver ε τ ν κ) {e : ε} {next : τ}
    {k depth : ℕ} (hk : k ≤ depth) {s : UsbState ε τ ν κ} (hin : (s.endpoint e).isIn = false)
    (hcurrent : (s.endpoint e).currentTransfer = some next)
    (howned : (s.endpoint e).ownedBufferCount.toNat = k) :
    ∃ s', usbGiveAsManyBuffersAsPossible (usbCalls driver depth) e s = .ok s' ∧
      (∀ t ≠ next, s'.transfer t = s.transfer t) ∧
      (s'.endpoint e).currentTransfer = some next ∧
      (s'.endpoint e).chainTransfer = (s.endpoint e).chainTransfer ∧
      (s'.transfer next).started = (s.transfer next).started ∧ s'.client = s.client ∧
      (s'.endpoint e).ownedBufferCount.toNat + (s'.endpoint e).hw.available.length =
        k + (s.endpoint e).hw.available.length := by
  induction k generalizing depth s with
  | zero =>
    have hzero : (s.endpoint e).ownedBufferCount = 0 := by
      by_contra h
      exact toNat_ne_zero.1 h howned
    have hcan : s.canGive e = false := by
      simp [UsbState.canGive, hcurrent, hzero]
    refine ⟨s, by simp [usbGiveAsManyBuffersAsPossible, hcan], fun _ _ => rfl, hcurrent, rfl, rfl,
      rfl, by rw [howned]⟩
  | succ k ih =>
    obtain ⟨depth, rfl⟩ : ∃ d, depth = d + 1 := ⟨depth - 1, by omega⟩
    by_cases hcan : s.canGive e = true
    · have hne : (s.endpoint e).ownedBufferCount ≠ 0 := by
        rw [toNat_ne_zero]
        omega
      have hsub := toNat_sub_one hne
      obtain ⟨s', hs', ht, hc, hch, hst, hcl, hsum⟩ := ih (Nat.le_of_succ_le_succ hk)
        (s := ((s.modifyEndpoint e fun E => E.giveBuffer
          ((s.endpoint e).bufferSize.setWidth 32)).modifyTransfer next UsbTransfer.submitOne))
        (by simpa [UsbEndpoint.giveBuffer] using hin)
        (by simpa [UsbEndpoint.giveBuffer] using hcurrent)
        (by simp [UsbEndpoint.giveBuffer] at hsub ⊢; omega)
      refine ⟨s', ?_, fun t hne => ?_, hc, ?_, ?_, hcl, ?_⟩
      · rw [← hs']
        simp [usbGiveAsManyBuffersAsPossible, hcan, hin, usbGiveBuffer, hcurrent, usbCalls, bind,
          Except.bind]
      · rw [ht t hne, UsbState.modifyTransfer_transfer_of_ne _ _ _ _ hne]
        rfl
      · simpa [UsbEndpoint.giveBuffer] using hch
      · simpa using hst
      · simp [UsbEndpoint.giveBuffer] at hsum
        omega
    · simp only [Bool.not_eq_true] at hcan
      refine ⟨s, by simp [usbGiveAsManyBuffersAsPossible, hcan], fun _ _ => rfl, hcurrent, rfl, rfl,
        rfl, by rw [howned]⟩

/-- A transfer whose first packet is not done at once starts without giving any buffer, on an IN
endpoint. -/
theorem usbGiveAsManyBuffersAsPossible_in (driver : UsbDriver ε τ ν κ) {e : ε} {next : τ} {f : ν}
    {depth : ℕ} (hdepth : 1 ≤ depth) {s : UsbState ε τ ν κ} (hin : (s.endpoint e).isIn = true)
    (hcurrent : (s.endpoint e).currentTransfer = some next)
    (hf : (s.transfer next).type.onPacket = .driver f) (hdriver : ∀ c s, driver c f e s = .ok s) :
    ∃ s', usbGiveAsManyBuffersAsPossible (usbCalls driver depth) e s = .ok s' ∧
      (∀ t ≠ next, s'.transfer t = s.transfer t) ∧ s'.endpoint = s.endpoint ∧
      (s'.transfer next).started = (s.transfer next).started ∧ s'.client = s.client := by
  obtain ⟨depth, rfl⟩ : ∃ d, depth = d + 1 := ⟨depth - 1, by omega⟩
  by_cases hcan : s.canGive e = true
  · refine ⟨s.modifyTransfer next fun T => T.setOutstanding true, ?_, fun t hne => ?_,
      rfl, by simp, rfl⟩
    · simp [usbGiveAsManyBuffersAsPossible, hcan, hin, usbCallOnPacket, hcurrent, hf, usbCalls,
        usbCall, hdriver, bind, Except.bind]
    · exact UsbState.modifyTransfer_transfer_of_ne _ _ _ _ hne
  · simp only [Bool.not_eq_true] at hcan
    exact ⟨s, by simp [usbGiveAsManyBuffersAsPossible, hcan], fun _ _ => rfl, rfl, rfl, rfl⟩

variable {h : UsbHandler κ} {complete : κ → κ} {driver : UsbDriver ε τ ν κ} {p : LineSetup τ ν}
  {s : UsbState ε τ ν κ} {e : ε} {E : UsbEndpoint τ ν} {T : UsbTransfer ν} {K : κ} {depth : ℕ}

/-- A chained transfer is started. -/
theorem Ends.of_chain (hd : h.Drives complete driver s e p) {next : τ} (hnone : p.onComplete = none)
    (hchain : p.chain = some next) (hsum : E.ownedBufferCount.toNat = 2)
    (havail : E.hw.available = []) (hdepth : 2 ≤ depth) :
    ∃ s', usbStartTransfer (usbCalls driver depth) e next
        (s.place e p.transfer (E.setTransfer none) T.complete K) =
          .ok s' ∧
      Ends complete p s e E T K s' := by
  obtain ⟨hne, f, hf, hdriver⟩ := hd.chain next hchain
  simp only [usbStartTransfer, UsbState.place_modifyEndpoint]
  generalize hs₁ : UsbState.modifyTransfer _ next _ = s₁
  have hend : s₁.endpoint e =
      ((E.setTransfer none).setTransfer (some next)).setChain none := by
    simp [← hs₁]
  have htr : s₁.transfer p.transfer = T.complete := by
    rw [← hs₁, UsbState.modifyTransfer_transfer_of_ne _ _ _ _ (Ne.symm hne),
      UsbState.place_transfer]
  have hnext : s₁.transfer next = (s.transfer next).start := by
    simp [← hs₁, UsbState.place, hne]
  have hclient : s₁.client = K := by
    simp [← hs₁]
  have hcurrent : (s₁.endpoint e).currentTransfer = some next := by
    simp [hend]
  cases hin : E.isIn with
  | true =>
    obtain ⟨s', hs', ht, he, hst, hcl⟩ := usbGiveAsManyBuffersAsPossible_in driver
      (by omega : 1 ≤ depth) (by simp [hend, hin]) hcurrent (f := f) (by simp [hnext, hf]) hdriver
    refine ⟨s', hs', ?_⟩
    simp [Ends, hnone, hchain, ht _ (Ne.symm hne), htr, he, hend, hst, hnext, hcl, hclient, havail,
      hsum]
  | false =>
    obtain ⟨s', hs', ht, hc, hch, hst, hcl, hsum'⟩ := usbGiveAsManyBuffersAsPossible_out driver
      hdepth (by simp [hend, hin]) hcurrent (by simp [hend, hsum])
    refine ⟨s', hs', ?_⟩
    simp [Ends, hnone, hchain, ht _ (Ne.symm hne), htr, hc, hch, hst, hnext, hcl, hclient, hsum',
      hend, havail]

/-- A transfer all of whose packets are handled and done is completed. -/
theorem UsbLine.check_eq {c : UsbCalls ε τ ν κ} (hl : UsbLine p E T p.count p.count 0)
    (hout : T.outstandingPacket = false) :
    usbCheckForTransferCompletion c e (s.place e p.transfer E T K) =
      p.finish c e (s.place e p.transfer (E.setTransfer none) T.complete K) := by
  have hrem : T.remainingPacketsToHandle = 0 := by
    by_contra hne
    have := hl.handle_ne_zero_iff.1 hne
    omega
  have hcompletes : (s.place e p.transfer E T K).completes e p.transfer = true := by
    simp [UsbState.completes, hrem, hout]
  have hhalt : ¬E.haltState ≠ .none := not_not_intro hl.notHalted
  have hplace := s.place_completeTransfer e p.transfer E T K
  simp only [usbCheckForTransferCompletion, UsbState.place_endpoint, hl.current, hcompletes,
    if_true, if_neg hhalt, UsbState.place_transfer, hl.onComplete, hl.chain, hplace,
    LineSetup.finish]
  cases p.onComplete <;> cases p.chain <;> rfl

/-- The end of a transfer whose `on_complete` only changes the state of the user of the library. -/
theorem UsbLine.ends (hd : h.Drives complete driver s e p)
    (hl : UsbLine p E T p.count p.count 0) (hdepth : 2 ≤ depth) :
    ∃ s', p.finish (usbCalls driver depth) e
        (s.place e p.transfer (E.setTransfer none) T.complete K) = .ok s' ∧
      Ends complete p s e E T K s' := by
  have howned := hl.owned
  have havail : E.hw.available = [] := by
    have hav := hl.available
    simpa using hav
  cases hcomplete : p.onComplete with
  | some f =>
    obtain ⟨depth, rfl⟩ : ∃ d, depth = d + 1 := ⟨depth - 1, by omega⟩
    refine ⟨_, ?_, by simp only [Ends, hcomplete]; rfl⟩
    simp only [LineSetup.finish, hcomplete]
    exact hd.onComplete f hcomplete _ _
  | none =>
    cases hchain : p.chain with
    | none =>
      refine ⟨_, ?_, by simp only [Ends, hcomplete, hchain]; rfl⟩
      simp only [LineSetup.finish, hcomplete, hchain]
    | some next =>
      obtain ⟨s', hs', hends⟩ :=
        Ends.of_chain hd hcomplete hchain (by omega) havail hdepth (T := T) (K := K)
      refine ⟨s', ?_, hends⟩
      simp only [LineSetup.finish, hcomplete, hchain]
      exact hs'

theorem Ends.completed {s' : UsbState ε τ ν κ} (h : Ends complete p s e E T K s') :
    s'.transfer p.transfer = T.complete := by
  unfold Ends at h
  split at h
  · simp [h]
  · simp [h]
  · exact h.1

/-- The transfer that ended is no longer the current one. -/
theorem Ends.current_ne {s' : UsbState ε τ ν κ} (h : Ends complete p s e E T K s')
    (hnext : ∀ next, p.chain = some next → next ≠ p.transfer) :
    (s'.endpoint e).currentTransfer ≠ some p.transfer := by
  unfold Ends at h
  split at h
  · simp [h]
  · simp [h]
  · next next _ hchain =>
    rw [h.2.1]
    exact fun heq => hnext next hchain (Option.some.inj heq)

end End

end PicoBootrom
