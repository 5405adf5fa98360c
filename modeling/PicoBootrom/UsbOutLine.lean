import PicoBootrom.UsbHandler

/-!
# OUT transfers

A transfer of `n` packets on a double-buffered OUT endpoint, whose packets a handler serves. At
any time the hardware has returned `k` packets, and one of the following holds (`OutServing`) :

* all of them are done, and the hardware has the buffers of the next two packets ;
* the last one is not done, and the hardware has at most one buffer ;
* the last two are not done, the second of them in the queue (`packet_queued`), and the hardware
  has no buffer.

The interrupt for the next packet and `usb_packet_done` keep this up to the end of the transfer
(`OutServing.buffer`, `OutServing.done`), which happens when the last packet is both handled and
done.
-/

set_option linter.unusedSectionVars false

namespace PicoBootrom

variable {ε τ ν κ : Type}

/-! ## The states of a transfer -/

section States

variable (p : LineSetup τ ν) (packet : ℕ → List Byte) (E : UsbEndpoint τ ν) (T : UsbTransfer ν)

/-- The user of the library has the `k`-th packet. -/
structure OutHolds (k : ℕ) : Prop where
  valid : E.currentHwBuffer.valid = true
  which : E.currentHwBuffer.which = nthBuffer p.first k
  dataLen : E.currentHwBuffer.dataLen = BitVec.ofNat 8 (packet k).length
  take : E.currentTakeBuffer = nthBuffer p.first k
  dpram : E.hw.dpram (nthBuffer p.first k) = packet k

/-- No packet is outstanding, after `k` packets. -/
structure OutFree (k due : ℕ) : Prop where
  line : UsbLine p E T (min p.count (k + 2)) k due
  outstanding : T.outstandingPacket = false
  queued : T.packetQueued = false
  valid : E.currentHwBuffer.valid = false

/-- The `k`-th packet is outstanding, and the hardware has at most one buffer. -/
structure OutBusy (k due : ℕ) : Prop where
  line : ∃ submitted ≤ k + 2, UsbLine p E T submitted (k + 1) due
  outstanding : T.outstandingPacket = true
  queued : T.packetQueued = false
  holds : OutHolds p packet E k

/-- The `k`-th packet is outstanding and the next one is in the queue. -/
structure OutQueued (k : ℕ) : Prop where
  line : UsbLine p E T (k + 2) (k + 2) 1
  outstanding : T.outstandingPacket = true
  queued : T.packetQueued = true
  holds : OutHolds p packet E k
  next : E.hw.dpram (nthBuffer p.first (k + 1)) = packet (k + 1)

/-- A transfer that runs, after the hardware has returned `k` packets. -/
inductive OutServing (idle busy : ℕ → κ → Prop) : ℕ → UsbEndpoint τ ν → UsbTransfer ν → κ → Prop
  | free {k : ℕ} {E : UsbEndpoint τ ν} {T : UsbTransfer ν} {K : κ} (h : OutFree p E T k 0)
      (hk : k < p.count) (hK : idle k K) : OutServing idle busy k E T K
  | busy {k : ℕ} {E : UsbEndpoint τ ν} {T : UsbTransfer ν} {K : κ} (h : OutBusy p packet E T k 0)
      (hk : k < p.count) (hK : busy k K) : OutServing idle busy (k + 1) E T K
  | queued {k : ℕ} {E : UsbEndpoint τ ν} {T : UsbTransfer ν} {K : κ} (h : OutQueued p packet E T k)
      (hk : k + 1 < p.count) (hK : busy k K) : OutServing idle busy (k + 2) E T K

end States

section Serving

variable [DecidableEq ε] [DecidableEq τ]

/-- The transfer runs after `k` packets, or it goes on with its end after all of them. -/
def OutAfter (c : UsbCalls ε τ ν κ) (p : LineSetup τ ν) (packet : ℕ → List Byte)
    (idle busy : ℕ → κ → Prop) (s : UsbState ε τ ν κ) (e : ε) (k : ℕ)
    (r : UsbResult (UsbState ε τ ν κ)) : Prop :=
  (∃ E T K, r = .ok (s.place e p.transfer E T K) ∧ OutServing p packet idle busy k E T K) ∨
    (k = p.count ∧ ∃ E T K, UsbLine p E T k k 0 ∧ T.outstandingPacket = false ∧
      T.packetQueued = false ∧ idle k K ∧
      r = p.finish c e (s.place e p.transfer (E.setTransfer none) T.complete K))

variable {h : UsbHandler κ} {driver : UsbDriver ε τ ν κ} {p : LineSetup τ ν}
  {packet : ℕ → List Byte} {idle busy ready : ℕ → κ → Prop} {s : UsbState ε τ ν κ} {e : ε}
  {E : UsbEndpoint τ ν} {T : UsbTransfer ν} {K : κ} {k due depth : ℕ}

/-! ## Buffers -/

/-- All the buffers the transfer can use are given to the hardware. -/
theorem UsbLine.giveAll (driver : UsbDriver ε τ ν κ) {submitted returned : ℕ}
    (hl : UsbLine p E T submitted returned due) (hout : p.isIn = false) {m : ℕ}
    (hm : submitted + m = min p.count (returned + 2)) (hdepth : m ≤ depth) :
    ∃ E' T', usbGiveAsManyBuffersAsPossible (usbCalls driver depth) e
        (s.place e p.transfer E T K) = .ok (s.place e p.transfer E' T' K) ∧
      UsbLine p E' T' (submitted + m) returned due ∧
      E'.currentTakeBuffer = E.currentTakeBuffer ∧ E'.hw.dpram = E.hw.dpram ∧
      E'.currentHwBuffer.valid = (E.currentHwBuffer.valid && decide (m = 0)) ∧
      T'.outstandingPacket = T.outstandingPacket ∧ T'.packetQueued = T.packetQueued := by
  induction m generalizing submitted E T depth with
  | zero =>
    have hcan : (s.place e p.transfer E T K).canGive e = false := by
      rw [Bool.eq_false_iff, ne_eq, hl.canGive]
      omega
    exact ⟨E, T, usbGiveAsManyBuffersAsPossible_of_not_canGive hcan, hl, rfl, rfl, by simp, rfl,
      rfl⟩
  | succ m ih =>
    obtain ⟨depth, rfl⟩ : ∃ d, depth = d + 1 := ⟨depth - 1, by omega⟩
    have hcan : (s.place e p.transfer E T K).canGive e = true := by
      rw [hl.canGive]
      omega
    have hgive := hl.giveBuffer (E.bufferSize.setWidth 32) (by omega) (by omega)
    obtain ⟨E', T', hE', hl', htake, hdpram, hvalid, ho, hq⟩ :=
      ih hgive (by omega) (Nat.le_of_succ_le_succ hdepth)
    refine ⟨E', T', ?_, by rwa [show submitted + (m + 1) = submitted + 1 + m by omega],
      htake, hdpram, by simp [hvalid], ho, hq⟩
    rw [usbGiveAsManyBuffersAsPossible_place_out driver depth hcan hl.current
      (hl.isIn.trans hout)]
    exact hE'

/-! ## Packets -/

theorem OutHolds.packet_eq (hh : OutHolds p packet E k) (hout : E.isIn = false)
    (hlen : (packet k).length ≤ 64) : E.packet = packet k := by
  have hle : (packet k).length % 256 = (packet k).length := Nat.mod_eq_of_lt (by omega)
  simp [UsbEndpoint.packet, hout, UsbEndpoint.bufferData, hh.which, hh.dataLen, hh.dpram, hle]

/-- The `k`-th packet is outstanding and `h` is done with it : what `usb_packet_done` gets. -/
theorem OutHolds.packetDone (hh : OutHolds p packet E k) (hout : E.isIn = false)
    (hlen : (packet k).length ≤ 64) (h : UsbHandler κ) (c : UsbCalls ε τ ν κ) :
    h.packetDone c e (s.place e p.transfer E T K) =
      usbPacketDone c e (s.place e p.transfer E T (h.finish K (packet k)).1) := by
  have hfetch : E.fetchBuffer = E := by
    simp [UsbEndpoint.fetchBuffer, hh.valid]
  simp [UsbHandler.packetDone, usbCurrentPacketBuffer, hfetch, hout, hh.packet_eq hout hlen]

/-- A packet is done that was the only one outstanding, and it is not the last of the transfer or
it is not handled yet. -/
theorem OutBusy.done (hs : h.Serves false p.count packet idle busy ready) (hout : p.isIn = false)
    (hb : OutBusy p packet E T k due) (hK : ready k K) (hk : k < p.count)
    (hmore : k + 1 < p.count + due) (driver : UsbDriver ε τ ν κ) (hdepth : 2 ≤ depth) :
    ∃ E' T' K', h.packetDone (usbCalls driver depth) e (s.place e p.transfer E T K) =
        .ok (s.place e p.transfer E' T' K') ∧
      OutFree p E' T' (k + 1) due ∧ idle (k + 1) K' := by
  obtain ⟨submitted, hsub, hl⟩ := hb.line
  have hin : E.isIn = false := hl.isIn.trans hout
  have hle := hl.returned_le
  have hcount := hl.submitted_le
  have hT : UsbLine p E.dropBuffer (T.setOutstanding false) submitted (k + 1) due := { hl with }
  obtain ⟨m, hm⟩ : ∃ m, submitted + m = min p.count (k + 1 + 2) :=
    ⟨min p.count (k + 1 + 2) - submitted, by omega⟩
  obtain ⟨E', T', hE', hl', htake, hdpram, hvalid, ho, hq⟩ :=
    hT.giveAll driver hout hm (by omega : m ≤ depth) (s := s) (e := e)
      (K := (h.finish K (packet k)).1)
  refine ⟨E', T', (h.finish K (packet k)).1, ?_,
    ⟨by rwa [hm] at hl', by simp [ho], by rw [hq]; exact hb.queued, by simp [hvalid]⟩,
    hs.finish k hk K hK⟩
  rw [hb.holds.packetDone hin (hs.length_le k hk), ← hE',
    usbPacketDone_place_out hl.current hl.notHalted (hl.handle_ne_zero_iff.2 hmore)
      hl.notCompleted hin, hb.queued, if_neg Bool.false_ne_true]

/-- The `k`-th packet is in its buffer, and nothing is outstanding : the handler gets it. -/
structure OutReady (p : LineSetup τ ν) (packet : ℕ → List Byte) (E : UsbEndpoint τ ν)
    (T : UsbTransfer ν) (k : ℕ) : Prop where
  line : ∃ submitted ≤ k + 2, UsbLine p E T submitted (k + 1) 1
  outstanding : T.outstandingPacket = false
  queued : T.packetQueued = false
  valid : E.currentHwBuffer.valid = false
  take : E.currentTakeBuffer = nthBuffer p.first k
  dpram : E.hw.dpram (nthBuffer p.first k) = packet k

/-- `on_packet` gets the packet, and is done with it at once or not. -/
theorem OutReady.call (hd : h.Handles driver e p idle)
    (hs : h.Serves false p.count packet idle busy ready) (hout : p.isIn = false)
    (hr : OutReady p packet E T k) (hK : idle k K) (hk : k < p.count) (hdepth : 3 ≤ depth) :
    ∃ E' T' K', usbCallOnPacket (usbCalls driver depth) e (s.place e p.transfer E T K) =
        .ok (s.place e p.transfer E' T' K') ∧
      ((OutFree p E' T' (k + 1) 1 ∧ idle (k + 1) K') ∨
        (OutBusy p packet E' T' k 1 ∧ busy k K')) := by
  obtain ⟨depth, rfl⟩ : ∃ d, depth = d + 1 := ⟨depth - 1, by omega⟩
  obtain ⟨submitted, hsub, hl⟩ := hr.line
  have hin : E.isIn = false := hl.isIn.trans hout
  have hfetch : E.fetchBuffer = { E with currentHwBuffer :=
      ⟨nthBuffer p.first k, BitVec.ofNat 8 (packet k).length, true⟩ } := by
    simp [UsbEndpoint.fetchBuffer, hr.valid, UsbEndpoint.currentBuffer, hin, hr.take, hr.dpram]
  have hb : OutBusy p packet E.fetchBuffer (T.setOutstanding true) k 1 := by
    rw [hfetch]
    exact ⟨⟨submitted, hsub, { hl with }⟩, rfl, hr.queued, ⟨rfl, rfl, rfl, hr.take, hr.dpram⟩⟩
  have hin' : E.fetchBuffer.isIn = false := by rw [hfetch]; exact hin
  have hpacket := hb.holds.packet_eq hin' (hs.length_le k hk)
  have hbusy : (h.receive K (packet k)).2 = false → busy k (h.receive K (packet k)).1 :=
    hs.receive k hk K hK
  have hcall : usbCallOnPacket (usbCalls driver (depth + 1)) e (s.place e p.transfer E T K) =
      if (h.receive K (packet k)).2 then
        h.packetDone (usbCalls driver depth) e (s.place e p.transfer E.fetchBuffer
          (T.setOutstanding true) (h.receive K (packet k)).1)
      else .ok (s.place e p.transfer E.fetchBuffer (T.setOutstanding true)
        (h.receive K (packet k)).1) := by
    rw [usbCallOnPacket_place hl.current, hl.onPacket]
    change driver (usbCalls driver depth) p.onPacket e _ = _
    rw [hd _ _ k (by simpa using hl.isIn) (by simpa using hK)]
    simp [UsbHandler.onPacket, hin, usbCurrentPacketBuffer, hpacket]
  rw [hcall]
  cases hnow : (h.receive K (packet k)).2 with
  | true =>
    have hready : ready k (h.receive K (packet k)).1 := hs.atOnce k hk K hK hnow
    obtain ⟨E', T', K', hE', hfree, hidle⟩ :=
      hb.done hs hout hready hk (by omega) driver (by omega : 2 ≤ depth) (s := s) (e := e)
    exact ⟨E', T', K', by rw [if_pos rfl, hE'], .inl ⟨hfree, hidle⟩⟩
  | false => exact ⟨_, _, _, by rw [if_neg Bool.false_ne_true], .inr ⟨hb, hbusy hnow⟩⟩

/-- `_usb_handle_transfer`, for a packet that does not have to wait. -/
theorem usbHandleTransfer_out (hd : h.Handles driver e p idle)
    (hs : h.Serves false p.count packet idle busy ready) (hout : p.isIn = false)
    (hr : OutReady p packet (E.ownOne.takeBuffer (nthBuffer p.first k)) T k) (hK : idle k K)
    (hk : k < p.count) (hdepth : 3 ≤ depth) :
    OutAfter (usbCalls driver depth) p packet idle busy s e (k + 1)
      (usbHandleTransfer (usbCalls driver depth) e (nthBuffer p.first k)
        (s.place e p.transfer E T K)) := by
  obtain ⟨E', T', K', hcall, hcase⟩ := hr.call hd hs hout hK hk hdepth (s := s)
  have hline : ∃ submitted, UsbLine p E' T' submitted (k + 1) 1 := by
    rcases hcase with ⟨hf, -⟩ | ⟨hb, -⟩
    · exact ⟨_, hf.line⟩
    · exact ⟨_, hb.line.choose_spec.2⟩
  obtain ⟨_, hl'⟩ := hline
  have hcurrent : E.currentTransfer = some p.transfer := hr.line.choose_spec.2.current
  have hin : E.isIn = false := hr.line.choose_spec.2.isIn.trans hout
  have hhandle : usbHandleTransfer (usbCalls driver depth) e (nthBuffer p.first k)
      (s.place e p.transfer E T K) =
        usbCheckForTransferCompletion (usbCalls driver depth) e
          (s.place e p.transfer E' T'.handleOne K') := by
    simp [usbHandleTransfer, hcurrent, hr.outstanding, hin, hcall, hl'.notCompleted, bind,
      Except.bind]
  rw [hhandle]
  rcases hcase with ⟨hf, hidle⟩ | ⟨hb, hbusy⟩
  · have hl := hf.line.handleOne (by omega)
    rcases Nat.lt_or_ge (k + 1) p.count with hlt | hge
    · refine .inl ⟨E', T'.handleOne, K', usbCheckForTransferCompletion_place_of_pending hl.current
        hl.notHalted (Or.inl (hl.handle_ne_zero_iff.2 (by omega))), ?_⟩
      exact .free ⟨hl, hf.outstanding, hf.queued, hf.valid⟩ hlt hidle
    · have hlast : k + 1 = p.count := by omega
      rw [Nat.min_eq_left (by omega), hlast] at hl
      have hend := hl.check_eq hf.outstanding (s := s) (e := e) (K := K')
        (c := usbCalls driver depth)
      rw [← hlast] at hl
      exact .inr ⟨hlast, E', _, K', hl, hf.outstanding, hf.queued, hidle, hend⟩
  · obtain ⟨submitted, hsub, hl⟩ := hb.line
    have hl := hl.handleOne (by omega)
    refine .inl ⟨E', T'.handleOne, K', usbCheckForTransferCompletion_place_of_pending hl.current
      hl.notHalted (Or.inr hb.outstanding), ?_⟩
    exact .busy ⟨⟨submitted, hsub, hl⟩, hb.outstanding, hb.queued, hb.holds⟩ hk hbusy

/-! ## The steps of a transfer -/

/-- The transfer starts, with the endpoint owning both buffers. -/
theorem OutServing.start (hout : p.isIn = false) (hl : UsbLine p E T 0 0 0)
    (ho : T.outstandingPacket = false) (hq : T.packetQueued = false)
    (hcount : 0 < p.count) (hK : idle 0 K) (driver : UsbDriver ε τ ν κ) (hdepth : 2 ≤ depth) :
    ∃ E' T', usbGiveAsManyBuffersAsPossible (usbCalls driver depth) e
        (s.place e p.transfer E T K) = .ok (s.place e p.transfer E' T' K) ∧
      OutServing p packet idle busy 0 E' T' K := by
  obtain ⟨E', T', hE', hl', -, -, hvalid, ho', hq'⟩ :=
    hl.giveAll driver hout (m := min p.count 2) (by omega) (by omega : min p.count 2 ≤ depth)
      (s := s) (e := e) (K := K)
  have hpos : decide (min p.count 2 = 0) = false := decide_eq_false (by omega)
  refine ⟨E', T', hE', .free ⟨?_, ho'.trans ho, hq'.trans hq, by rw [hvalid, hpos, Bool.and_false]⟩
    hcount hK⟩
  simpa using hl'

/-- The hardware has received the next packet. -/
theorem OutServing.buffer (hd : h.Handles driver e p idle)
    (hs : h.Serves false p.count packet idle busy ready) (hout : p.isIn = false)
    (hserve : OutServing p packet idle busy k E T K) (havail : E.hw.available ≠ [])
    (hdepth : 3 ≤ depth) :
    OutAfter (usbCalls driver depth) p packet idle busy s e (k + 1)
      (usbBufferInterrupt (usbCalls driver depth) e (packet k) (s.place e p.transfer E T K)) := by
  have hmore {submitted returned due : ℕ} (hl : UsbLine p E T submitted returned due) :
      returned < submitted := by
    by_contra hle
    have hnil := hl.available
    rw [show submitted - returned = 0 by omega] at hnil
    exact havail (by simpa using hnil)
  cases hserve with
  | @free k _ _ _ hf hk hK =>
    obtain ⟨E', hE', hl', hbuf, htake, -, hdpram⟩ := hf.line.bufferDone (packet k) (hmore hf.line)
    have hin : E.isIn = false := hf.line.isIn.trans hout
    have hr : OutReady p packet (E'.ownOne.takeBuffer (nthBuffer p.first k)) T k :=
      ⟨⟨_, Nat.min_le_right _ _, { hl' with }⟩, hf.outstanding, hf.queued, by simp [hbuf, hf.valid],
        rfl, by simp [hdpram, hin]⟩
    have hafter := usbHandleTransfer_out hd hs hout hr hK hk hdepth (s := s) (e := e)
    simpa [usbBufferInterrupt, hE'] using hafter
  | @busy k _ _ _ hb hk hK =>
    obtain ⟨submitted, hsub, hl⟩ := hb.line
    have hlt := hmore hl
    have hcount := hl.submitted_le
    obtain rfl : submitted = k + 2 := by omega
    obtain ⟨E', hE', hl', hbuf, htake, -, hdpram⟩ := hl.bufferDone (packet (k + 1)) hlt
    have hin : E.isIn = false := hl.isIn.trans hout
    have hne : nthBuffer p.first k ≠ nthBuffer p.first (k + 1) := by
      simp [nthBuffer_succ]
    have hholds : OutHolds p packet E'.ownOne k :=
      ⟨by simp [hbuf, hb.holds.valid], by simp [hbuf, hb.holds.which],
        by simp [hbuf, hb.holds.dataLen], by simp [htake, hb.holds.take],
        by simp [hdpram, hin, hne, hb.holds.dpram]⟩
    refine .inl ⟨E'.ownOne, T.setQueued true, K, ?_,
      .queued ⟨{ hl' with }, hb.outstanding, rfl, hholds, ?_⟩ hcount hK⟩
    · have hcurrent : E'.currentTransfer = some p.transfer := hl'.current
      simp [usbBufferInterrupt, hE', usbHandleTransfer, hcurrent, hb.outstanding]
    · simp [hdpram, hin]
  | @queued k _ _ _ hq hk hK =>
    have := hmore hq.line
    omega

/-- The packet that is outstanding is done, when it can be. The end of the transfer leaves it
completed. -/
theorem OutServing.done {busy₀ : ℕ → κ → Prop} (hd : h.Handles driver e p idle)
    (hs : h.Serves false p.count packet idle busy ready) (hout : p.isIn = false)
    (hserve : OutServing p packet idle busy₀ k E T K) (houtstanding : T.outstandingPacket = true)
    (hready : ∀ k, busy₀ k K → ready k K) (hdepth : 3 ≤ depth)
    (hend : ∀ E T K s', UsbLine p E T p.count p.count 0 →
      p.finish (usbCalls driver depth) e
        (s.place e p.transfer (E.setTransfer none) T.complete K) = .ok s' →
      (s'.transfer p.transfer).completed = true) :
    OutAfter (usbCalls driver depth) p packet idle busy s e k
      (h.packetDone (usbCalls driver depth) e (s.place e p.transfer E T K)) := by
  cases hserve with
  | free hf hk hK =>
    rw [hf.outstanding] at houtstanding
    cases houtstanding
  | @busy k _ _ _ hb hk hK =>
    rcases Nat.lt_or_ge (k + 1) p.count with hlt | hge
    · obtain ⟨E', T', K', hE', hf, hidle⟩ :=
        hb.done hs hout (hready k hK) hk (by omega) driver (by omega : 2 ≤ depth) (s := s) (e := e)
      exact .inl ⟨E', T', K', hE', .free hf hlt hidle⟩
    · obtain ⟨submitted, hsub, hl⟩ := hb.line
      have hlast : k + 1 = p.count := by omega
      have hcount := hl.submitted_le
      have hle := hl.returned_le
      obtain rfl : submitted = k + 1 := by omega
      have hl₁ : UsbLine p E (T.setOutstanding false) (k + 1) (k + 1) 0 := { hl with }
      have hl₂ : UsbLine p E (T.setOutstanding false) p.count p.count 0 := hlast ▸ hl₁
      have hidle : idle (k + 1) (h.finish K (packet k)).1 := hs.finish k hk K (hready k hK)
      refine .inr ⟨hlast, E, _, _, hl₁, rfl, hb.queued, hidle, ?_⟩
      rw [hb.holds.packetDone (hl.isIn.trans hout) (hs.length_le k hk)]
      simp only [usbPacketDone, UsbState.place_endpoint, hl.current, UsbState.place_modifyTransfer,
        hl₂.check_eq rfl]
      generalize hr : p.finish _ e _ = r
      cases r with
      | error fault => rfl
      | ok s' =>
        have hcompleted := hend _ _ _ _ hl₂ hr
        simp [bind, Except.bind, hcompleted]
  | @queued k _ _ _ hq hk hK =>
    have hin : E.isIn = false := hq.line.isIn.trans hout
    have hnext : (!E.currentTakeBuffer) = nthBuffer p.first (k + 1) := by
      rw [hq.holds.take, nthBuffer_succ]
    have hown : E.dropBuffer.disownOne.ownOne.ownedBufferCount = E.ownedBufferCount :=
      BitVec.sub_add_cancel _ _
    have hline : UsbLine p (E.dropBuffer.disownOne.ownOne.takeBuffer (nthBuffer p.first (k + 1)))
        ((T.setOutstanding false).setQueued false) (k + 2) (k + 1 + 1) 1 :=
      { hq.line with
        owned := by
          rw [UsbEndpoint.takeBuffer_ownedBufferCount, hown]
          exact hq.line.owned }
    have hr : OutReady p packet
        (E.dropBuffer.disownOne.ownOne.takeBuffer (nthBuffer p.first (k + 1)))
        ((T.setOutstanding false).setQueued false) (k + 1) :=
      ⟨⟨k + 2, Nat.le_succ _, hline⟩, rfl, rfl, rfl, rfl, hq.next⟩
    have hafter := usbHandleTransfer_out hd hs hout hr
      (hs.finish k (by omega) K (hready k hK)) hk hdepth (s := s) (e := e)
    rw [hq.holds.packetDone hin (hs.length_le k (by omega)),
      usbPacketDone_place_out hq.line.current hq.line.notHalted
        (hq.line.handle_ne_zero_iff.2 (by omega)) hq.line.notCompleted hin, hq.queued, if_pos rfl,
      hnext]
    exact hafter

/-- While no packet is outstanding, nothing is asked of the state with one. -/
theorem OutServing.idles {I : ℕ → κ → Prop} (hserve : OutServing p packet idle busy k E T K)
    (houtstanding : T.outstandingPacket = false) : OutServing p packet idle I k E T K := by
  cases hserve with
  | free hf hk hK => exact .free hf hk hK
  | busy hb hk hK =>
    rw [hb.outstanding] at houtstanding
    cases houtstanding
  | queued hq hk hK =>
    rw [hq.outstanding] at houtstanding
    cases houtstanding

/-- The state of the user of the library meets its condition with or without a packet. -/
theorem OutServing.client (hserve : OutServing p packet idle busy k E T K) :
    if T.outstandingPacket then ∃ i, busy i K else ∃ i, idle i K := by
  cases hserve with
  | free hf hk hK =>
    rw [hf.outstanding]
    exact ⟨_, hK⟩
  | busy hb hk hK =>
    rw [hb.outstanding]
    exact ⟨_, hK⟩
  | queued hq hk hK =>
    rw [hq.outstanding]
    exact ⟨_, hK⟩

/-- The counters of a transfer that runs. -/
theorem OutServing.line (hserve : OutServing p packet idle busy k E T K) :
    ∃ submitted returned due, UsbLine p E T submitted returned due := by
  cases hserve with
  | free hf hk hK => exact ⟨_, _, _, hf.line⟩
  | busy hb hk hK =>
    obtain ⟨submitted, -, hl⟩ := hb.line
    exact ⟨_, _, _, hl⟩
  | queued hq hk hK => exact ⟨_, _, _, hq.line⟩

/-- While a packet is outstanding, nothing is asked of the state without one. -/
theorem OutServing.waits {I : ℕ → κ → Prop} (hserve : OutServing p packet idle busy k E T K)
    (houtstanding : T.outstandingPacket = true) : OutServing p packet I busy k E T K := by
  cases hserve with
  | free hf hk hK =>
    rw [hf.outstanding] at houtstanding
    cases houtstanding
  | busy hb hk hK => exact .busy hb hk hK
  | queued hq hk hK => exact .queued hq hk hK

theorem OutHolds.congr {packet' : ℕ → List Byte} (hh : OutHolds p packet E k)
    (hp : packet' k = packet k) : OutHolds p packet' E k :=
  { hh with dataLen := by rw [hp]; exact hh.dataLen, dpram := by rw [hp]; exact hh.dpram }

/-- Only the packets that were received matter. -/
theorem OutServing.congr {packet' : ℕ → List Byte} {idle' busy' : ℕ → κ → Prop} {K' : κ}
    (hserve : OutServing p packet idle busy k E T K) (hp : ∀ i < k, packet' i = packet i)
    (hidle : ∀ i ≤ k, idle i K → idle' i K') (hbusy : ∀ i < k, busy i K → busy' i K') :
    OutServing p packet' idle' busy' k E T K' := by
  cases hserve with
  | free hf hk hK => exact .free hf hk (hidle _ (Nat.le_refl _) hK)
  | busy hb hk hK =>
    exact .busy { hb with holds := hb.holds.congr (hp _ (Nat.lt_succ_self _)) } hk
      (hbusy _ (Nat.lt_succ_self _) hK)
  | queued hq hk hK =>
    exact .queued { hq with
      holds := hq.holds.congr (hp _ (by omega))
      next := by rw [hp _ (Nat.lt_succ_self _)]; exact hq.next } hk (hbusy _ (by omega) hK)

/-- Without an outstanding packet, the handler is at the one after those that were received. -/
theorem OutServing.idle_at {I : ℕ → κ → Prop} (hserve : OutServing p packet idle busy k E T K)
    (houtstanding : T.outstandingPacket = false) :
    idle k K ∧ OutServing p packet (fun i _ => i = k) I k E T K := by
  cases hserve with
  | free hf hk hK => exact ⟨hK, .free hf hk rfl⟩
  | busy hb hk hK => exact nomatch hb.outstanding.symm.trans houtstanding
  | queued hq hk hK => exact nomatch hq.outstanding.symm.trans houtstanding

/-- The packet that is outstanding is one of those that were received. -/
theorem OutServing.busy_at {I : ℕ → κ → Prop} (hserve : OutServing p packet idle busy k E T K)
    (houtstanding : T.outstandingPacket = true) :
    ∃ i < k, busy i K ∧ OutServing p packet I (fun j _ => j = i) k E T K := by
  cases hserve with
  | free hf hk hK => exact nomatch hf.outstanding.symm.trans houtstanding
  | busy hb hk hK => exact ⟨_, Nat.lt_succ_self _, hK, .busy hb hk rfl⟩
  | queued hq hk hK => exact ⟨_, by omega, hK, .queued hq hk rfl⟩

/-- A step that no packet can be done in leaves the state of the user of the library. -/
theorem OutAfter.waits {c : UsbCalls ε τ ν κ} {r : UsbResult (UsbState ε τ ν κ)} {i : ℕ}
    (h : OutAfter c p packet (fun _ _ => False) (fun j K' => j = i ∧ K' = K) s e k r) :
    ∃ E T, r = .ok (s.place e p.transfer E T K) ∧ T.outstandingPacket = true ∧
      OutServing p packet (fun j _ => j = i) (fun j _ => j = i) k E T K := by
  rcases h with ⟨E, T, K', hr, hserve⟩ | ⟨-, E, T, K', -, -, -, hK, -⟩
  · have hclient := hserve.client
    split at hclient
    · next ho =>
      obtain ⟨-, -, rfl⟩ := hclient
      exact ⟨E, T, hr, ho, hserve.congr (fun _ _ => rfl) (fun _ _ h => h.elim) fun _ _ h => h.1⟩
    · exact hclient.choose_spec.elim
  · exact hK.elim

/-- What a handler keeps throughout. -/
theorem OutServing.split {I : κ → Prop}
    (hserve : OutServing p packet (fun k K => idle k K ∧ I K) (fun k K => busy k K ∧ I K) k E T K) :
    OutServing p packet idle busy k E T K ∧ I K := by
  cases hserve with
  | free hf hk hK => exact ⟨.free hf hk hK.1, hK.2⟩
  | busy hb hk hK => exact ⟨.busy hb hk hK.1, hK.2⟩
  | queued hq hk hK => exact ⟨.queued hq hk hK.1, hK.2⟩

end Serving

end PicoBootrom
