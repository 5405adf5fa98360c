import PicoBootrom.UsbHandler

/-!
# IN transfers

A transfer of `n` packets on a double-buffered IN endpoint, whose packets a handler makes. At any
time the hardware has returned `k` buffers, and one of the following holds (`InServing`) :

* no packet is outstanding, and the hardware has the next two packets ;
* a packet is outstanding, and the hardware has at most one ;
* a packet is outstanding, the hardware has none, and the last buffer it has returned is in the
  queue (`packet_queued`).

When a transfer starts, the endpoint owns both buffers and the loop in
`_usb_give_as_many_buffers_as_possible` calls `on_packet` for the second packet too. After a first
packet that is done at once the loop goes on even if the second one is outstanding, so the second
must then be done at once as well (`Prompt`).
-/

set_option linter.unusedSectionVars false

namespace PicoBootrom

variable {ε τ ν κ : Type}

/-! ## The states of a transfer -/

/-- A transfer that runs : the packets given to the hardware are those of the handler, after the
ones given before, and a buffer that was fetched is the next one to give. -/
structure InLine (p : LineSetup τ ν) (packet : ℕ → List Byte) (base : List (List Byte))
    (E : UsbEndpoint τ ν) (T : UsbTransfer ν) (submitted returned due : ℕ) : Prop where
  line : UsbLine p E T submitted returned due
  given : E.hw.given.map (·.packet) = base ++ (List.range submitted).map packet
  valid : E.currentHwBuffer.valid = true → E.currentHwBuffer.which = E.currentGiveBuffer

/-- A transfer that runs, after the hardware has returned `k` buffers. -/
inductive InServing (p : LineSetup τ ν) (packet : ℕ → List Byte) (base : List (List Byte))
    (idle busy : ℕ → κ → Prop) : ℕ → UsbEndpoint τ ν → UsbTransfer ν → κ → Prop
  | free {k : ℕ} {E : UsbEndpoint τ ν} {T : UsbTransfer ν} {K : κ}
      (h : InLine p packet base E T (min p.count (k + 2)) k 0) (ho : T.outstandingPacket = false)
      (hq : T.packetQueued = false) (hk : k < p.count) (hK : idle (min p.count (k + 2)) K) :
      InServing p packet base idle busy k E T K
  | busy {k submitted : ℕ} {E : UsbEndpoint τ ν} {T : UsbTransfer ν} {K : κ}
      (h : InLine p packet base E T submitted k 0) (ho : T.outstandingPacket = true)
      (hq : T.packetQueued = false) (hs : submitted ≤ k + 1) (hn : submitted < p.count)
      (hK : busy submitted K) : InServing p packet base idle busy k E T K
  | queued {k : ℕ} {E : UsbEndpoint τ ν} {T : UsbTransfer ν} {K : κ}
      (h : InLine p packet base E T (k + 1) (k + 1) 1) (ho : T.outstandingPacket = true)
      (hq : T.packetQueued = true) (hn : k + 1 < p.count) (hK : busy (k + 1) K) :
      InServing p packet base idle busy (k + 1) E T K

/-- The second packet of a transfer is done at once if the first one is. -/
def UsbHandler.Prompt (h : UsbHandler κ) (n : ℕ) (idle : ℕ → κ → Prop) : Prop :=
  1 < n → ∀ K, idle 0 K → (h.receive K []).2 = true →
    (h.receive (h.finish (h.receive K []).1 []).1 []).2 = true

section Serving

variable [DecidableEq ε] [DecidableEq τ]

/-- The transfer runs after `k` buffers, or it goes on with its end after all of them. -/
def InAfter (c : UsbCalls ε τ ν κ) (p : LineSetup τ ν) (packet : ℕ → List Byte)
    (base : List (List Byte)) (idle busy : ℕ → κ → Prop) (s : UsbState ε τ ν κ) (e : ε) (k : ℕ)
    (r : UsbResult (UsbState ε τ ν κ)) : Prop :=
  (∃ E T K, r = .ok (s.place e p.transfer E T K) ∧ InServing p packet base idle busy k E T K) ∨
    (k = p.count ∧ ∃ E T K, InLine p packet base E T k k 0 ∧ T.outstandingPacket = false ∧
      T.packetQueued = false ∧ idle k K ∧
      r = p.finish c e (s.place e p.transfer (E.setTransfer none) T.complete K))

variable {h : UsbHandler κ} {driver : UsbDriver ε τ ν κ} {p : LineSetup τ ν}
  {packet : ℕ → List Byte} {base : List (List Byte)} {idle busy ready : ℕ → κ → Prop}
  {s : UsbState ε τ ν κ} {e : ε} {E : UsbEndpoint τ ν} {T : UsbTransfer ν} {K : κ}
  {k submitted returned due depth : ℕ}

/-! ## Buffers -/

theorem UsbLine.fetchBuffer (hl : UsbLine p E T submitted returned due) :
    UsbLine p E.fetchBuffer T submitted returned due := by
  unfold UsbEndpoint.fetchBuffer
  split
  · exact hl
  · exact { hl with }

/-- The packets that the hardware has, if they are the last ones it was given. -/
theorem InLine.available_packets (hi : InLine p packet base E T submitted returned due)
    (horder : E.hw.available <:+ E.hw.given) :
    E.hw.available.map (·.packet) =
      (List.range' returned (submitted - returned)).map packet := by
  obtain ⟨before, hbefore⟩ := horder
  have hle := hi.line.returned_le
  have hlength : E.hw.available.length = submitted - returned := by
    have hmap := congrArg List.length hi.line.available
    simpa using hmap
  have hsplit : List.range submitted =
      List.range returned ++ List.range' returned (submitted - returned) := by
    rw [List.range_eq_range', List.range_eq_range', ← Nat.add_sub_cancel' hle,
      List.range'_append_1.symm]
    simp
  have hgiven := hi.given
  rw [← hbefore, List.map_append, hsplit, List.map_append, ← List.append_assoc] at hgiven
  exact (List.append_inj' hgiven (by simp [hlength])).2

/-- Only the packets that were given matter. -/
theorem InLine.congr {packet' : ℕ → List Byte}
    (hi : InLine p packet base E T submitted returned due)
    (hp : ∀ i < submitted, packet' i = packet i) :
    InLine p packet' base E T submitted returned due := by
  refine ⟨hi.line, ?_, hi.valid⟩
  rw [hi.given]
  congr 1
  exact List.map_congr_left fun i hmem => (hp i (List.mem_range.1 hmem)).symm

/-- The next packet is put into the current packet buffer and given to the hardware. -/
theorem InLine.give (hi : InLine p packet base E T submitted returned due) (hin : p.isIn = true)
    (hlen : (packet submitted).length ≤ 64) (hcount : submitted < p.count)
    (howned : submitted < returned + 2) {E₁ : UsbEndpoint τ ν}
    (hE₁ : E₁ = E.fetchBuffer.fillBuffer (packet submitted)) :
    InLine p packet base
      (E₁.giveBuffer (E₁.currentHwBuffer.dataLen.setWidth 32)).dropBuffer
      (T.setOutstanding false).submitOne (submitted + 1) returned due := by
  have hE : E.isIn = true := hi.line.isIn.trans hin
  have hl₁ : UsbLine p E₁ (T.setOutstanding false) submitted returned due := by
    rw [hE₁]
    exact { hi.line.fetchBuffer with }
  have hwhich : E.fetchBuffer.currentHwBuffer.which = E.currentGiveBuffer := by
    unfold UsbEndpoint.fetchBuffer
    split
    · next hvalid => exact hi.valid hvalid
    · simp [UsbEndpoint.currentBuffer, hE]
  have hgive : E.fetchBuffer.currentGiveBuffer = E.currentGiveBuffer := by
    unfold UsbEndpoint.fetchBuffer
    split <;> rfl
  have hgiven : E.fetchBuffer.hw.given = E.hw.given := by
    unfold UsbEndpoint.fetchBuffer
    split <;> rfl
  have hmod : (packet submitted).length % 256 % 4294967296 = (packet submitted).length := by
    omega
  refine ⟨{ hl₁.giveBuffer _ hcount howned with }, ?_, fun hvalid => by simp at hvalid⟩
  have hpacket : (E₁.nextGiven (E₁.currentHwBuffer.dataLen.setWidth 32)).packet =
      packet submitted := by
    have hin₁ : E₁.isIn = true := hl₁.isIn.trans hin
    simp [UsbEndpoint.nextGiven, hin₁]
    simp [hE₁, hwhich, hgive, hmod]
  have hbase : E₁.hw.given = E.hw.given := by
    rw [hE₁]
    exact hgiven
  simp [hbase, hi.given, hpacket, List.range_succ]

/-- `usb_packet_done` is reached with the next packet in the current packet buffer. -/
theorem InLine.packetDone (hi : InLine p packet base E T submitted returned due)
    (hin : p.isIn = true) (hs : h.Serves true p.count packet idle busy ready)
    (hcount : submitted < p.count) (hK : ready submitted K) (c : UsbCalls ε τ ν κ) :
    h.packetDone c e (s.place e p.transfer E T K) =
      usbPacketDone c e (s.place e p.transfer (E.fetchBuffer.fillBuffer (packet submitted)) T
        (h.finish K []).1) := by
  have hE : E.fetchBuffer.isIn = true := hi.line.fetchBuffer.isIn.trans hin
  simp [UsbHandler.packetDone, usbCurrentPacketBuffer, UsbEndpoint.packet, hE,
    hs.sends rfl submitted hcount K hK]

/-! ## Packets -/

theorem usbCallOnPacket_in (hd : h.Handles driver e p idle) (hin : p.isIn = true)
    (hl : UsbLine p E T submitted returned due) (hK : idle k K) (depth : ℕ) :
    usbCallOnPacket (usbCalls driver (depth + 1)) e (s.place e p.transfer E T K) =
      if (h.receive K []).2 then
        h.packetDone (usbCalls driver depth) e
          (s.place e p.transfer E (T.setOutstanding true) (h.receive K []).1)
      else .ok (s.place e p.transfer E (T.setOutstanding true) (h.receive K []).1) := by
  have hE : E.isIn = true := hl.isIn.trans hin
  rw [usbCallOnPacket_place hl.current, hl.onPacket]
  change driver (usbCalls driver depth) p.onPacket e _ = _
  rw [hd _ _ k (by simpa using hl.isIn) (by simpa using hK)]
  simp [UsbHandler.onPacket, hE, UsbEndpoint.packet]

/-- A packet is done, and no buffer is left to give. -/
theorem InLine.done_last (hi : InLine p packet base E T (returned + 1) returned due)
    (hin : p.isIn = true) (hs : h.Serves true p.count packet idle busy ready)
    (hcount : returned + 1 < p.count) (hq : T.packetQueued = false) (hK : ready (returned + 1) K)
    (c : UsbCalls ε τ ν κ) :
    ∃ E' T' K', h.packetDone c e (s.place e p.transfer E T K) =
        .ok (s.place e p.transfer E' T' K') ∧
      InLine p packet base E' T' (returned + 2) returned due ∧ T'.outstandingPacket = false ∧
      T'.packetQueued = false ∧ idle (returned + 2) K' ∧ K' = (h.finish K []).1 := by
  have hgive := hi.give hin (hs.length_le _ hcount) hcount (by omega) rfl
  have hl₁ : UsbLine p (E.fetchBuffer.fillBuffer (packet (returned + 1))) T (returned + 1)
      returned due := { hi.line.fetchBuffer with }
  refine ⟨_, _, (h.finish K []).1, ?_, hgive, rfl, hq, hs.finish _ hcount K hK, rfl⟩
  rw [hi.packetDone hin hs hcount hK,
    usbPacketDone_place_in hl₁.current hl₁.notHalted (hl₁.handle_ne_zero_iff.2 (by omega))
      hl₁.notCompleted (hl₁.isIn.trans hin), hq, if_neg Bool.false_ne_true]
  apply usbGiveAsManyBuffersAsPossible_of_not_canGive
  rw [Bool.eq_false_iff, ne_eq, hgive.line.canGive]
  omega

/-- `on_packet` makes the next packet, at once or not. -/
theorem InLine.call (hd : h.Handles driver e p idle)
    (hs : h.Serves true p.count packet idle busy ready) (hin : p.isIn = true)
    (hi : InLine p packet base E T (returned + 1) returned due) (hcount : returned + 1 < p.count)
    (hq : T.packetQueued = false) (hK : idle (returned + 1) K) (hdepth : 1 ≤ depth) :
    ∃ E' T' K', usbCallOnPacket (usbCalls driver depth) e (s.place e p.transfer E T K) =
        .ok (s.place e p.transfer E' T' K') ∧ T'.packetQueued = false ∧
      (((h.receive K []).2 = true ∧ InLine p packet base E' T' (returned + 2) returned due ∧
          T'.outstandingPacket = false ∧ idle (returned + 2) K') ∨
        ((h.receive K []).2 = false ∧ InLine p packet base E' T' (returned + 1) returned due ∧
          T'.outstandingPacket = true ∧ busy (returned + 1) K')) := by
  obtain ⟨depth, rfl⟩ : ∃ d, depth = d + 1 := ⟨depth - 1, by omega⟩
  have hbusy : (h.receive K []).2 = false → busy (returned + 1) (h.receive K []).1 :=
    hs.receive _ hcount K hK
  have hi₁ : InLine p packet base E (T.setOutstanding true) (returned + 1) returned due :=
    ⟨{ hi.line with }, hi.given, hi.valid⟩
  have hcall := usbCallOnPacket_in hd hin hi.line hK depth (s := s)
  rw [hcall]
  cases hnow : (h.receive K []).2 with
  | true =>
    have hready : ready (returned + 1) (h.receive K []).1 := hs.atOnce _ hcount K hK hnow
    obtain ⟨E', T', K', hE', hi', ho', hq', hidle, -⟩ :=
      hi₁.done_last hin hs hcount hq hready (usbCalls driver depth) (s := s) (e := e)
    exact ⟨E', T', K', by rw [if_pos rfl, hE'], hq', .inl ⟨rfl, hi', ho', hidle⟩⟩
  | false =>
    exact ⟨E, T.setOutstanding true, (h.receive K []).1, by rw [if_neg Bool.false_ne_true], hq,
      .inr ⟨rfl, hi₁, rfl, hbusy hnow⟩⟩

/-- A turn of the loop in `_usb_give_as_many_buffers_as_possible`, when the endpoint owns one
buffer. -/
theorem InLine.giveOne (hd : h.Handles driver e p idle)
    (hs : h.Serves true p.count packet idle busy ready) (hin : p.isIn = true)
    (hi : InLine p packet base E T (returned + 1) returned due) (hcount : returned + 1 < p.count)
    (hq : T.packetQueued = false) (hK : idle (returned + 1) K) (hdepth : 1 ≤ depth) :
    ∃ E' T' K', usbGiveAsManyBuffersAsPossible (usbCalls driver depth) e
        (s.place e p.transfer E T K) = .ok (s.place e p.transfer E' T' K') ∧
      T'.packetQueued = false ∧
      (((h.receive K []).2 = true ∧ InLine p packet base E' T' (returned + 2) returned due ∧
          T'.outstandingPacket = false ∧ idle (returned + 2) K') ∨
        ((h.receive K []).2 = false ∧ InLine p packet base E' T' (returned + 1) returned due ∧
          T'.outstandingPacket = true ∧ busy (returned + 1) K')) := by
  obtain ⟨E', T', K', hcall, hq', hcase⟩ := hi.call hd hs hin hcount hq hK hdepth (s := s)
  obtain ⟨depth, rfl⟩ : ∃ d, depth = d + 1 := ⟨depth - 1, by omega⟩
  have hcan : (s.place e p.transfer E T K).canGive e = true :=
    hi.line.canGive.2 ⟨hcount, by omega⟩
  have hgive : usbGiveAsManyBuffersAsPossible (usbCalls driver (depth + 1)) e
      (s.place e p.transfer E T K) =
        if E.ownedBufferCount = E'.ownedBufferCount then .ok (s.place e p.transfer E' T' K')
        else usbGiveAsManyBuffersAsPossible (usbCalls driver depth) e
          (s.place e p.transfer E' T' K') := by
    rw [usbGiveAsManyBuffersAsPossible, if_pos hcan]
    simp only [UsbState.place_endpoint, hi.line.isIn, hin, hcall, bind, Except.bind]
    rfl
  have howned := hi.line.owned
  refine ⟨E', T', K', ?_, hq', hcase⟩
  rw [hgive]
  rcases hcase with ⟨-, hi', -⟩ | ⟨-, hi', -⟩
  · have howned' := hi'.line.owned
    have hne : E.ownedBufferCount ≠ E'.ownedBufferCount := by
      intro heq
      rw [heq] at howned
      omega
    rw [if_neg hne]
    apply usbGiveAsManyBuffersAsPossible_of_not_canGive
    rw [Bool.eq_false_iff, ne_eq, hi'.line.canGive]
    omega
  · have howned' := hi'.line.owned
    rw [if_pos (BitVec.eq_of_toNat_eq (by omega))]

/-- The loop in `_usb_give_as_many_buffers_as_possible`, when the endpoint owns one buffer at
most. -/
theorem InLine.giveRest (hd : h.Handles driver e p idle)
    (hs : h.Serves true p.count packet idle busy ready) (hin : p.isIn = true)
    (hi : InLine p packet base E T submitted returned due) (hsub : returned + 1 ≤ submitted)
    (ho : T.outstandingPacket = false) (hq : T.packetQueued = false) (hK : idle submitted K)
    (hdepth : 1 ≤ depth) :
    ∃ E' T' K', usbGiveAsManyBuffersAsPossible (usbCalls driver depth) e
        (s.place e p.transfer E T K) = .ok (s.place e p.transfer E' T' K') ∧
      T'.packetQueued = false ∧
      ((InLine p packet base E' T' (min p.count (returned + 2)) returned due ∧
          T'.outstandingPacket = false ∧ idle (min p.count (returned + 2)) K') ∨
        ((h.receive K []).2 = false ∧ submitted < p.count ∧
          InLine p packet base E' T' (returned + 1) returned due ∧ T'.outstandingPacket = true ∧
          busy (returned + 1) K')) := by
  have hle := hi.line.submitted_le
  have hle₂ := hi.line.submitted_le_returned
  by_cases hcan : (s.place e p.transfer E T K).canGive e = true
  · have hlt := hi.line.canGive.1 hcan
    obtain rfl : submitted = returned + 1 := by omega
    obtain ⟨E', T', K', hE', hq', hcase⟩ := hi.giveOne hd hs hin hlt.1 hq hK hdepth (s := s)
    refine ⟨E', T', K', hE', hq', ?_⟩
    rcases hcase with ⟨-, hi', ho', hidle⟩ | ⟨hlater, hi', ho', hbusy⟩
    · have hmin : min p.count (returned + 2) = returned + 2 := by omega
      rw [hmin]
      exact .inl ⟨hi', ho', hidle⟩
    · exact .inr ⟨hlater, hlt.1, hi', ho', hbusy⟩
  · have hnot := (not_congr hi.line.canGive).1 hcan
    have hmin : min p.count (returned + 2) = submitted := by omega
    rw [Bool.not_eq_true] at hcan
    rw [hmin]
    exact ⟨E, T, K, usbGiveAsManyBuffersAsPossible_of_not_canGive hcan, hq, .inl ⟨hi, ho, hK⟩⟩

/-- A packet is done that was outstanding, with no returned buffer in the queue. -/
theorem InLine.done (hd : h.Handles driver e p idle)
    (hs : h.Serves true p.count packet idle busy ready) (hin : p.isIn = true)
    (hi : InLine p packet base E T submitted returned due) (hsub : submitted ≤ returned + 1)
    (hcount : submitted < p.count) (hq : T.packetQueued = false) (hK : ready submitted K)
    (hdepth : 1 ≤ depth) :
    ∃ E' T' K', h.packetDone (usbCalls driver depth) e (s.place e p.transfer E T K) =
        .ok (s.place e p.transfer E' T' K') ∧ T'.packetQueued = false ∧
      ((InLine p packet base E' T' (min p.count (returned + 2)) returned due ∧
          T'.outstandingPacket = false ∧ idle (min p.count (returned + 2)) K') ∨
        ((h.receive (h.finish K []).1 []).2 = false ∧ submitted + 1 < p.count ∧
          InLine p packet base E' T' (returned + 1) returned due ∧ T'.outstandingPacket = true ∧
          busy (returned + 1) K')) := by
  have hle := hi.line.returned_le
  have hgive := hi.give hin (hs.length_le _ hcount) hcount (by omega) rfl
  have hl₁ : UsbLine p (E.fetchBuffer.fillBuffer (packet submitted)) T submitted
      returned due := { hi.line.fetchBuffer with }
  obtain ⟨E', T', K', hE', hrest⟩ :=
    hgive.giveRest hd hs hin (by omega) rfl hq (hs.finish _ hcount K hK) hdepth (s := s)
  refine ⟨E', T', K', ?_, hrest⟩
  rw [hi.packetDone hin hs hcount hK,
    usbPacketDone_place_in hl₁.current hl₁.notHalted (hl₁.handle_ne_zero_iff.2 (by omega))
      hl₁.notCompleted (hl₁.isIn.trans hin), hq, if_neg Bool.false_ne_true]
  exact hE'

/-- `_usb_handle_transfer`, for a buffer that does not have to wait. -/
theorem usbHandleTransfer_in (hd : h.Handles driver e p idle)
    (hs : h.Serves true p.count packet idle busy ready) (hin : p.isIn = true) {which : Bool}
    (hi : InLine p packet base (E.ownOne.takeBuffer which) T (min p.count (k + 2)) (k + 1) 1)
    (ho : T.outstandingPacket = false) (hq : T.packetQueued = false) (hk : k < p.count)
    (hK : idle (min p.count (k + 2)) K) (hdepth : 2 ≤ depth) :
    InAfter (usbCalls driver depth) p packet base idle busy s e (k + 1)
      (usbHandleTransfer (usbCalls driver depth) e which (s.place e p.transfer E T K)) := by
  have hcurrent : E.currentTransfer = some p.transfer := hi.line.current
  have hE : E.isIn = true := hi.line.isIn.trans hin
  rcases Nat.lt_or_ge (k + 2) p.count with hlt | hge
  · have hmin : min p.count (k + 2) = k + 1 + 1 := by omega
    rw [hmin] at hi hK
    obtain ⟨E', T', K', hcall, hq', hcase⟩ := hi.call hd hs hin (by omega) hq hK
      (by omega : 1 ≤ depth) (s := s)
    have hsubmit : T.remainingPacketsToSubmit ≠ 0 := hi.line.submit_ne_zero_iff.2 (by omega)
    have hcompleted : T'.completed = false := by
      rcases hcase with ⟨-, hi', -⟩ | ⟨-, hi', -⟩ <;> exact hi'.line.notCompleted
    have hhandle : usbHandleTransfer (usbCalls driver depth) e which
        (s.place e p.transfer E T K) =
          usbCheckForTransferCompletion (usbCalls driver depth) e
            (s.place e p.transfer E' T'.handleOne K') := by
      have hsubmit' : T.remainingPacketsToSubmit ≠ 0#32 := hsubmit
      simp [usbHandleTransfer, hcurrent, ho, hsubmit', hcall, hcompleted, bind, Except.bind]
    rw [hhandle]
    rcases hcase with ⟨-, hi', ho', hidle⟩ | ⟨-, hi', ho', hbusy⟩
    · have hl := hi'.line.handleOne (by omega)
      refine .inl ⟨E', T'.handleOne, K', usbCheckForTransferCompletion_place_of_pending hl.current
        hl.notHalted (Or.inl (hl.handle_ne_zero_iff.2 (by omega))), ?_⟩
      have hle := hl.submitted_le
      have hmin' : min p.count (k + 1 + 2) = k + 1 + 2 := by omega
      refine .free ?_ ho' hq' (by omega) (by rwa [hmin'])
      rw [hmin']
      exact ⟨hl, hi'.given, hi'.valid⟩
    · have hl := hi'.line.handleOne (by omega)
      refine .inl ⟨E', T'.handleOne, K', usbCheckForTransferCompletion_place_of_pending hl.current
        hl.notHalted (Or.inr ho'), ?_⟩
      exact .busy ⟨hl, hi'.given, hi'.valid⟩ ho' hq' (by omega) (by omega) hbusy
  · have hmin : min p.count (k + 2) = p.count := by omega
    rw [hmin] at hi hK
    have hsubmit : T.remainingPacketsToSubmit = 0 := by
      by_contra hne
      have := hi.line.submit_ne_zero_iff.1 hne
      omega
    have hhandle : usbHandleTransfer (usbCalls driver depth) e which
        (s.place e p.transfer E T K) =
          usbCheckForTransferCompletion (usbCalls driver depth) e
            (s.place e p.transfer (E.ownOne.takeBuffer which) T.handleOne K) := by
      simp [usbHandleTransfer, hcurrent, ho, hsubmit, hE, hi.line.notCompleted, bind, Except.bind]
    have hl := hi.line.handleOne (by omega)
    rw [hhandle]
    rcases Nat.lt_or_ge (k + 1) p.count with hmore | hlast
    · refine .inl ⟨_, T.handleOne, K, usbCheckForTransferCompletion_place_of_pending hl.current
        hl.notHalted (Or.inl (hl.handle_ne_zero_iff.2 (by omega))), ?_⟩
      have hmin' : min p.count (k + 1 + 2) = p.count := by omega
      refine .free ?_ ho hq hmore (by rwa [hmin'])
      rw [hmin']
      exact ⟨hl, hi.given, hi.valid⟩
    · have hlast : k + 1 = p.count := by omega
      have hl' : UsbLine p (E.ownOne.takeBuffer which) T.handleOne p.count p.count 0 :=
        hlast ▸ hl
      refine .inr ⟨hlast, _, T.handleOne, K, ?_, ho, hq, ?_, hl'.check_eq ho⟩
      · rw [hlast]
        exact ⟨hl', hi.given, hi.valid⟩
      · rw [hlast]
        exact hK

/-! ## The steps of a transfer -/

/-- The transfer starts, with the endpoint owning both buffers. -/
theorem InServing.start (hd : h.Handles driver e p idle)
    (hs : h.Serves true p.count packet idle busy ready) (hprompt : h.Prompt p.count idle)
    (hin : p.isIn = true) (hi : InLine p packet base E T 0 0 0)
    (hq : T.packetQueued = false) (hcount : 0 < p.count) (hK : idle 0 K) (hdepth : 3 ≤ depth) :
    ∃ E' T' K', usbGiveAsManyBuffersAsPossible (usbCalls driver depth) e
        (s.place e p.transfer E T K) = .ok (s.place e p.transfer E' T' K') ∧
      InServing p packet base idle busy 0 E' T' K' := by
  obtain ⟨depth, rfl⟩ : ∃ d, depth = d + 1 := ⟨depth - 1, by omega⟩
  have hE : E.isIn = true := hi.line.isIn.trans hin
  have hcan : (s.place e p.transfer E T K).canGive e = true := hi.line.canGive.2 ⟨hcount, by omega⟩
  have hbusy : (h.receive K []).2 = false → busy 0 (h.receive K []).1 := hs.receive 0 hcount K hK
  have hi₁ : InLine p packet base E (T.setOutstanding true) 0 0 0 :=
    ⟨{ hi.line with }, hi.given, hi.valid⟩
  have hcall := usbCallOnPacket_in hd hin hi.line hK depth (s := s)
  have howned := hi.line.owned
  rw [usbGiveAsManyBuffersAsPossible, if_pos hcan]
  simp only [UsbState.place_endpoint, hE, if_true, hcall, bind, Except.bind]
  cases hnow : (h.receive K []).2 with
  | true =>
    have hready : ready 0 (h.receive K []).1 := hs.atOnce 0 hcount K hK hnow
    obtain ⟨E', T', K', hE', hq', hcase⟩ :=
      hi₁.done hd hs hin (by omega) hcount hq hready (by omega : 1 ≤ depth) (s := s)
    rcases hcase with ⟨hi', ho', hidle⟩ | ⟨hlater, hn, -⟩
    · have howned' := hi'.line.owned
      have hne : E.ownedBufferCount ≠ E'.ownedBufferCount := by
        intro heq
        rw [heq] at howned
        omega
      refine ⟨E', T', K', ?_, .free hi' ho' hq' hcount hidle⟩
      simp only [if_true, hE', UsbState.place_endpoint, if_neg hne]
      apply usbGiveAsManyBuffersAsPossible_of_not_canGive
      rw [Bool.eq_false_iff, ne_eq, hi'.line.canGive]
      omega
    · rw [hprompt hn K hK hnow] at hlater
      cases hlater
  | false =>
    refine ⟨E, T.setOutstanding true, (h.receive K []).1, ?_,
      .busy hi₁ rfl hq (by omega) hcount (hbusy hnow)⟩
    simp

/-- The transfer starts with a first packet that is done at once and a second one that is not : the
loop in `usb_packet_done` calls `on_packet` for the second packet, and then the outer loop calls it
again. The handler takes the second call for that of another packet. -/
theorem InLine.start_twice (hd : h.Handles driver e p idle)
    (hs : h.Serves true p.count packet idle busy ready) (hin : p.isIn = true)
    (hi : InLine p packet base E T 0 0 0) (hq : T.packetQueued = false) (hcount : 2 ≤ p.count)
    (hK : idle 0 K) (hdepth : 3 ≤ depth) (hfirst : (h.receive K []).2 = true)
    (hsecond : (h.receive (h.finish (h.receive K []).1 []).1 []).2 = false)
    {packet' : ℕ → List Byte} {idle' busy' ready' : ℕ → κ → Prop}
    (hd' : h.Handles driver e p idle') (hs' : h.Serves true p.count packet' idle' busy' ready')
    (hpacket : packet' 0 = packet 0) (hagain : ∀ K, busy 1 K → idle' 1 K) :
    ∃ E' T' K' submitted, usbGiveAsManyBuffersAsPossible (usbCalls driver depth) e
        (s.place e p.transfer E T K) = .ok (s.place e p.transfer E' T' K') ∧
      UsbLine p E' T' submitted 0 0 ∧
      ((submitted = 2 ∧ T'.outstandingPacket = false ∧ idle' 2 K') ∨
        (submitted = 1 ∧ T'.outstandingPacket = true ∧ busy' 1 K')) := by
  obtain ⟨depth, rfl⟩ : ∃ d, depth = d + 1 := ⟨depth - 1, by omega⟩
  have hE : E.isIn = true := hi.line.isIn.trans hin
  have hcan : (s.place e p.transfer E T K).canGive e = true :=
    hi.line.canGive.2 ⟨by omega, by omega⟩
  have hready : ready 0 (h.receive K []).1 := hs.atOnce 0 (by omega) K hK hfirst
  have hi₁ : InLine p packet base E (T.setOutstanding true) 0 0 0 :=
    ⟨{ hi.line with }, hi.given, hi.valid⟩
  have hgive := hi₁.give hin (hs.length_le 0 (by omega)) (by omega) (by omega) rfl
  have hl₁ : UsbLine p (E.fetchBuffer.fillBuffer (packet 0)) (T.setOutstanding true) 0 0 0 :=
    { hi₁.line.fetchBuffer with }
  -- the packet that the loop in `usb_packet_done` asks for
  obtain ⟨E₂, T₂, K₂, hE₂, hq₂, hcase₂⟩ := hgive.giveOne hd hs hin (by omega) hq
    (hs.finish 0 (by omega) _ hready) (by omega : 1 ≤ depth) (s := s)
  have hdone : h.packetDone (usbCalls driver depth) e
      (s.place e p.transfer E (T.setOutstanding true) (h.receive K []).1) =
      .ok (s.place e p.transfer E₂ T₂ K₂) := by
    rw [hi₁.packetDone hin hs (by omega) hready, usbPacketDone_place_in hl₁.current hl₁.notHalted
      (hl₁.handle_ne_zero_iff.2 (by omega)) hl₁.notCompleted (hl₁.isIn.trans hin),
      UsbTransfer.setOutstanding_packetQueued, hq, if_neg Bool.false_ne_true]
    exact hE₂
  rcases hcase₂ with ⟨hnow₂, -⟩ | ⟨-, hi₂, ho₂, hbusy₂⟩
  · have hlater := hsecond.symm.trans hnow₂
    cases hlater
  · have hi₂' : InLine p packet' base E₂ T₂ 1 0 0 :=
      ⟨hi₂.line, by simpa [hpacket] using hi₂.given, hi₂.valid⟩
    -- and the packet that the outer loop asks for
    obtain ⟨E₃, T₃, K₃, hE₃, -, hcase₃⟩ := hi₂'.giveOne hd' hs' hin (by omega) hq₂
      (hagain K₂ hbusy₂) (by omega : 1 ≤ depth) (s := s)
    have howned := hi.line.owned
    have howned₂ := hi₂.line.owned
    have hne : E.ownedBufferCount ≠ E₂.ownedBufferCount := by
      intro heq
      rw [heq] at howned
      omega
    have hcall := usbCallOnPacket_in hd hin hi.line hK depth (s := s)
    rw [hfirst, if_pos rfl, hdone] at hcall
    have hstart : usbGiveAsManyBuffersAsPossible (usbCalls driver (depth + 1)) e
        (s.place e p.transfer E T K) =
          usbGiveAsManyBuffersAsPossible (usbCalls driver depth) e
            (s.place e p.transfer E₂ T₂ K₂) := by
      rw [usbGiveAsManyBuffersAsPossible, if_pos hcan]
      simp only [UsbState.place_endpoint, hE, if_true, hcall, bind, Except.bind, if_neg hne]
      rfl
    rcases hcase₃ with ⟨-, hi₃, ho₃, hidle₃⟩ | ⟨-, hi₃, ho₃, hbusy₃⟩
    · exact ⟨E₃, T₃, K₃, 2, hstart.trans hE₃, hi₃.line, .inl ⟨rfl, ho₃, hidle₃⟩⟩
    · exact ⟨E₃, T₃, K₃, 1, hstart.trans hE₃, hi₃.line, .inr ⟨rfl, ho₃, hbusy₃⟩⟩

/-- The hardware has sent the next packet. -/
theorem InServing.buffer (hd : h.Handles driver e p idle)
    (hs : h.Serves true p.count packet idle busy ready) (hin : p.isIn = true)
    (hserve : InServing p packet base idle busy k E T K) (havail : E.hw.available ≠ [])
    (hdepth : 2 ≤ depth) (sent : List Byte) :
    InAfter (usbCalls driver depth) p packet base idle busy s e (k + 1)
      (usbBufferInterrupt (usbCalls driver depth) e sent (s.place e p.transfer E T K)) := by
  have hmore {submitted returned due : ℕ} (hl : UsbLine p E T submitted returned due) :
      returned < submitted := by
    by_contra hle
    have hnil := hl.available
    rw [show submitted - returned = 0 by omega] at hnil
    exact havail (by simpa using hnil)
  have hdone {submitted due : ℕ} (hi : InLine p packet base E T submitted k due) :
      ∃ E', E.bufferDone sent = some (nthBuffer p.first k, E') ∧
        InLine p packet base E'.ownOne T submitted (k + 1) (due + 1) := by
    obtain ⟨E', hE', hl', hbuf, -, hgiven, -⟩ := hi.line.bufferDone sent (hmore hi.line)
    refine ⟨E', hE', hl', ?_, ?_⟩
    · simp only [UsbEndpoint.ownOne_hw]
      rw [hgiven]
      exact hi.given
    · rw [hl'.give, ← hi.line.give]
      simpa [hbuf] using hi.valid
  cases hserve with
  | free hi ho hq hk hK =>
    obtain ⟨E', hE', hi'⟩ := hdone hi
    have htake : InLine p packet base (E'.ownOne.takeBuffer (nthBuffer p.first k)) T
        (min p.count (k + 2)) (k + 1) 1 := ⟨{ hi'.line with }, hi'.given, hi'.valid⟩
    have hafter := usbHandleTransfer_in hd hs hin htake ho hq hk hK hdepth (s := s) (e := e)
    simpa [usbBufferInterrupt, hE'] using hafter
  | @busy k submitted _ _ _ hi ho hq hsub hn hK =>
    have hlt := hmore hi.line
    obtain rfl : submitted = k + 1 := by omega
    obtain ⟨E', hE', hi'⟩ := hdone hi
    refine .inl ⟨E'.ownOne, T.setQueued true, K, ?_,
      .queued ⟨{ hi'.line with }, hi'.given, hi'.valid⟩ ho rfl hn hK⟩
    have hcurrent : E'.currentTransfer = some p.transfer := hi'.line.current
    simp [usbBufferInterrupt, hE', usbHandleTransfer, hcurrent, ho]
  | queued hi ho hq hn hK =>
    have := hmore hi.line
    omega

/-- The packet that is outstanding is done, when it can be. -/
theorem InServing.done {idle₀ busy₀ : ℕ → κ → Prop} (hd : h.Handles driver e p idle)
    (hs : h.Serves true p.count packet idle busy ready) (hin : p.isIn = true)
    (hserve : InServing p packet base idle₀ busy₀ k E T K)
    (houtstanding : T.outstandingPacket = true) (hready : ∀ k, busy₀ k K → ready k K)
    (hdepth : 2 ≤ depth) :
    InAfter (usbCalls driver depth) p packet base idle busy s e k
      (h.packetDone (usbCalls driver depth) e (s.place e p.transfer E T K)) := by
  cases hserve with
  | free hi ho hq hk hK =>
    rw [ho] at houtstanding
    cases houtstanding
  | busy hi ho hq hsub hn hK =>
    have hle := hi.line.returned_le
    obtain ⟨E', T', K', hE', hq', hcase⟩ :=
      hi.done hd hs hin hsub hn hq (hready _ hK) (by omega : 1 ≤ depth) (s := s)
    refine .inl ⟨E', T', K', hE', ?_⟩
    rcases hcase with ⟨hi', ho', hidle⟩ | ⟨-, hn', hi', ho', hbusy⟩
    · exact .free hi' ho' hq' (by omega) hidle
    · exact .busy hi' ho' hq' (Nat.le_refl _) (by omega) hbusy
  | @queued k _ _ _ hi ho hq hn hK =>
    have hgive := hi.give hin (hs.length_le _ hn) hn (by omega) rfl
    have hl₁ : UsbLine p (E.fetchBuffer.fillBuffer (packet (k + 1))) T (k + 1) (k + 1) 1 :=
      { hi.line.fetchBuffer with }
    have hmin : min p.count (k + 2) = k + 1 + 1 := by omega
    generalize hE₂ : UsbEndpoint.dropBuffer _ = E₂ at hgive
    have hown : E₂.disownOne.ownOne.ownedBufferCount = E₂.ownedBufferCount :=
      BitVec.sub_add_cancel _ _
    have hi₂ (which : Bool) : InLine p packet base (E₂.disownOne.ownOne.takeBuffer which)
        ((T.setOutstanding false).submitOne.setQueued false) (min p.count (k + 2)) (k + 1) 1 := by
      rw [hmin]
      refine ⟨{ hgive.line with owned := ?_ }, hgive.given, hgive.valid⟩
      rw [UsbEndpoint.takeBuffer_ownedBufferCount, hown]
      exact hgive.line.owned
    have hafter := usbHandleTransfer_in hd hs hin
      (hi₂ (!(E.fetchBuffer.fillBuffer (packet (k + 1))).currentTakeBuffer)) rfl rfl (by omega)
      (by rw [hmin]; exact hs.finish _ hn K (hready _ hK)) hdepth (s := s) (e := e)
    rw [hi.packetDone hin hs hn (hready _ hK),
      usbPacketDone_place_in hl₁.current hl₁.notHalted (hl₁.handle_ne_zero_iff.2 (by omega))
        hl₁.notCompleted (hl₁.isIn.trans hin), hq, if_pos rfl, hE₂]
    exact hafter

/-- While a packet is outstanding, the user of the library may change its state. -/
theorem InServing.change (hserve : InServing p packet base idle busy k E T K)
    (houtstanding : T.outstandingPacket = true) (K' : κ) (hK' : ∀ k, busy k K → busy k K') :
    InServing p packet base idle busy k E T K' := by
  cases hserve with
  | free hi ho hq hk hK =>
    rw [ho] at houtstanding
    cases houtstanding
  | busy hi ho hq hs hn hK => exact .busy hi ho hq hs hn (hK' _ hK)
  | queued hi ho hq hn hK => exact .queued hi ho hq hn (hK' _ hK)

/-- The user of the library may change what the handler does not depend on. -/
theorem InServing.congr {idle' busy' : ℕ → κ → Prop} {K' : κ}
    (hserve : InServing p packet base idle busy k E T K) (hidle : ∀ i, idle i K → idle' i K')
    (hbusy : ∀ i, busy i K → busy' i K') : InServing p packet base idle' busy' k E T K' := by
  cases hserve with
  | free hi ho hq hk hK => exact .free hi ho hq hk (hidle _ hK)
  | busy hi ho hq hs hn hK => exact .busy hi ho hq hs hn (hbusy _ hK)
  | queued hi ho hq hn hK => exact .queued hi ho hq hn (hbusy _ hK)

/-- While no packet is outstanding, nothing is asked of the state with one. -/
theorem InServing.idles {I : ℕ → κ → Prop}
    (hserve : InServing p packet base idle busy k E T K)
    (houtstanding : T.outstandingPacket = false) : InServing p packet base idle I k E T K := by
  cases hserve with
  | free hi ho hq hk hK => exact .free hi ho hq hk hK
  | busy hi ho hq hs hn hK =>
    rw [ho] at houtstanding
    cases houtstanding
  | queued hi ho hq hn hK =>
    rw [ho] at houtstanding
    cases houtstanding

/-- The state of the user of the library meets its condition with or without a packet. -/
theorem InServing.client (hserve : InServing p packet base idle busy k E T K) :
    if T.outstandingPacket then ∃ i, busy i K else ∃ i, idle i K := by
  cases hserve with
  | free hi ho hq hk hK =>
    rw [ho]
    exact ⟨_, hK⟩
  | busy hi ho hq hs hn hK =>
    rw [ho]
    exact ⟨_, hK⟩
  | queued hi ho hq hn hK =>
    rw [ho]
    exact ⟨_, hK⟩

/-- The counters of a transfer that runs. -/
theorem InServing.line (hserve : InServing p packet base idle busy k E T K) :
    ∃ submitted returned due, UsbLine p E T submitted returned due := by
  cases hserve with
  | free hi ho hq hk hK => exact ⟨_, _, _, hi.line⟩
  | busy hi ho hq hs hn hK => exact ⟨_, _, _, hi.line⟩
  | queued hi ho hq hn hK => exact ⟨_, _, _, hi.line⟩

/-- While a packet is outstanding, nothing is asked of the state without one. -/
theorem InServing.waits {I : ℕ → κ → Prop}
    (hserve : InServing p packet base idle busy k E T K)
    (houtstanding : T.outstandingPacket = true) : InServing p packet base I busy k E T K := by
  cases hserve with
  | free hi ho hq hk hK =>
    rw [ho] at houtstanding
    cases houtstanding
  | busy hi ho hq hs hn hK => exact .busy hi ho hq hs hn hK
  | queued hi ho hq hn hK => exact .queued hi ho hq hn hK

/-- The packet that a handler without an outstanding one is at. -/
theorem InServing.idle_at {I : ℕ → κ → Prop} (hserve : InServing p packet base idle busy k E T K)
    (houtstanding : T.outstandingPacket = false) :
    ∃ i, idle i K ∧ InServing p packet base (fun j _ => j = i) I k E T K := by
  cases hserve with
  | free hi ho hq hk hK => exact ⟨_, hK, .free hi ho hq hk rfl⟩
  | busy hi ho hq hs hn hK => exact nomatch ho.symm.trans houtstanding
  | queued hi ho hq hn hK => exact nomatch ho.symm.trans houtstanding

/-- The packet that is outstanding. -/
theorem InServing.busy_at {I : ℕ → κ → Prop} (hserve : InServing p packet base idle busy k E T K)
    (houtstanding : T.outstandingPacket = true) :
    ∃ i, busy i K ∧ InServing p packet base I (fun j _ => j = i) k E T K := by
  cases hserve with
  | free hi ho hq hk hK => exact nomatch ho.symm.trans houtstanding
  | busy hi ho hq hs hn hK => exact ⟨_, hK, .busy hi ho hq hs hn rfl⟩
  | queued hi ho hq hn hK => exact ⟨_, hK, .queued hi ho hq hn rfl⟩

/-- The packets before the one that the handler is at are those that the hardware was given. -/
theorem InServing.given_at {i : ℕ}
    (hserve : InServing p packet base (fun j _ => j = i) (fun j _ => j = i) k E T K) :
    E.hw.given.map (·.packet) = base ++ (List.range i).map packet := by
  cases hserve with
  | free hi ho hq hk hK =>
    subst hK
    exact hi.given
  | busy hi ho hq hs hn hK =>
    subst hK
    exact hi.given
  | queued hi ho hq hn hK =>
    subst hK
    exact hi.given

/-- The packet that the handler is at is one of the transfer, or the end of it. -/
theorem InServing.at_le {i : ℕ}
    (hserve : InServing p packet base (fun j _ => j = i) (fun j _ => j = i) k E T K) :
    i ≤ p.count := by
  cases hserve with
  | free hi ho hq hk hK =>
    rw [← hK]
    exact Nat.min_le_left _ _
  | busy hi ho hq hs hn hK =>
    rw [← hK]
    exact Nat.le_of_lt hn
  | queued hi ho hq hn hK =>
    rw [← hK]
    exact Nat.le_of_lt hn

/-- Only the packets before the one that the handler is at matter. -/
theorem InServing.congr_packet {packet' : ℕ → List Byte} {i : ℕ}
    (hserve : InServing p packet base (fun j _ => j = i) (fun j _ => j = i) k E T K)
    (hp : ∀ j < i, packet' j = packet j) :
    InServing p packet' base (fun j _ => j = i) (fun j _ => j = i) k E T K := by
  cases hserve with
  | free hi ho hq hk hK => exact .free (hi.congr fun j hj => hp j (hK ▸ hj)) ho hq hk hK
  | busy hi ho hq hs hn hK => exact .busy (hi.congr fun j hj => hp j (hK ▸ hj)) ho hq hs hn hK
  | queued hi ho hq hn hK => exact .queued (hi.congr fun j hj => hp j (hK ▸ hj)) ho hq hn hK

/-- A step that no packet can be done in leaves the state of the user of the library. -/
theorem InAfter.waits {c : UsbCalls ε τ ν κ} {r : UsbResult (UsbState ε τ ν κ)} {i : ℕ}
    (h : InAfter c p packet base (fun _ _ => False) (fun j K' => j = i ∧ K' = K) s e k r) :
    ∃ E T, r = .ok (s.place e p.transfer E T K) ∧ T.outstandingPacket = true ∧
      InServing p packet base (fun j _ => j = i) (fun j _ => j = i) k E T K := by
  rcases h with ⟨E, T, K', hr, hserve⟩ | ⟨-, E, T, K', -, -, -, hK, -⟩
  · have hclient := hserve.client
    split at hclient
    · next ho =>
      obtain ⟨-, -, rfl⟩ := hclient
      exact ⟨E, T, hr, ho, hserve.congr (fun _ h => h.elim) fun _ h => h.1⟩
    · exact hclient.choose_spec.elim
  · exact hK.elim

/-- What a handler keeps throughout. -/
theorem InServing.split {I : κ → Prop}
    (hserve : InServing p packet base (fun k K => idle k K ∧ I K) (fun k K => busy k K ∧ I K) k E T
      K) : InServing p packet base idle busy k E T K ∧ I K := by
  cases hserve with
  | free hi ho hq hk hK => exact ⟨.free hi ho hq hk hK.1, hK.2⟩
  | busy hi ho hq hs hn hK => exact ⟨.busy hi ho hq hs hn hK.1, hK.2⟩
  | queued hi ho hq hn hK => exact ⟨.queued hi ho hq hn hK.1, hK.2⟩

end Serving

end PicoBootrom
