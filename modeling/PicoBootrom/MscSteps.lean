import PicoBootrom.MscAccept

/-!
# The steps of a data phase

What a buffer that comes back and a task that ends make of a command in its data phase : a write, a
read, a data phase that has ended, or a response, which each of them gets on to another state of
`CommandPhase` with a smaller bound.
-/

set_option linter.unusedSectionVars false

namespace PicoBootrom

/-! ## What a stream leaves -/

section Notes

variable {full clean : Prop} {cbw : ScsiCbw} {K₀ : MscClient}
  {x : SectorStream} {k : ℕ} {K : MscClient}

theorem ScsiCbw.plan_moved_le (cbw : ScsiCbw) : cbw.plan.moved ≤ cbw.hostLength := by
  by_cases hdata : cbw.cmd.data = .none
  · rw [plan_moved_none hdata]
    exact Nat.zero_le _
  · rw [plan_moved hdata, wholePackets]
    split <;> split <;> omega

theorem SectorStream.Kept.residue (hK : x.Kept k K) (horigin : x.Origin cbw K₀)
    (hk : k ≤ x.packets) :
    K.msc.csw.residue.toNat + 64 * k = cbw.hostLength := by
  have hle := cbw.plan_moved_le
  have hmoved := horigin.moved
  have hresidue : x.base.msc.csw.residue.toNat = cbw.hostLength :=
    congrArg BitVec.toNat horigin.residue
  have hcsw : K.msc.csw.residue = x.base.msc.csw.residue - BitVec.ofNat 32 (64 * k) := by
    rw [hK.msc]
    rfl
  rw [hcsw, residue_after (by omega), hresidue]

/-- The CSW at the end of a stream. -/
theorem SectorStream.Kept.noteOk (hK : x.Kept k K) (horigin : x.Origin cbw K₀)
    (hk : k = x.packets)
    (hcompleted : K.completed = K.transferred) (hfull : full → K.transferred = 64 * k) :
    NoteOk full clean cbw K.note where
  tag := (congrArg (·.csw.tag) hK.msc).trans horigin.tag
  residue hf := by
    have hresidue := hK.residue horigin (Nat.le_of_eq hk)
    simp only [MscClient.note, hcompleted, hfull hf]
    omega
  completed_le := Nat.le_of_eq hcompleted
  complete := .inr hcompleted
  planned hf _ := by
    refine ⟨?_, ?_⟩
    · rw [horigin.moved, ← hk]
      exact hfull hf
    · rw [← horigin.status]
      exact iff_of_eq (congrArg (·.csw.status = CswStatus.phaseError) hK.msc)
  passed _ hdata hphase := (congrArg (·.csw.status) hK.msc).trans (horigin.passed hdata hphase)

/-- The CSW after an error, with the packets that are done. -/
theorem SectorStream.Kept.noteOk_failed (hK : x.Kept k K) (horigin : x.Origin cbw K₀)
    (hk : k ≤ x.packets)
    (hle : K.completed ≤ K.transferred) (hfull : full → K.completed = 64 * k) (hclean : ¬clean)
    {K' : MscClient} (hcsw : K'.msc.csw = { K.msc.csw with status := .commandFailed })
    (hcompleted : K'.completed = K.completed) (htransferred : K'.transferred = K.transferred) :
    NoteOk full clean cbw K'.note where
  tag := by
    simp only [MscClient.note, hcsw]
    exact (congrArg (·.csw.tag) hK.msc).trans horigin.tag
  residue hf := by
    have hresidue := hK.residue horigin hk
    simp only [MscClient.note, hcsw, hcompleted, hfull hf]
    exact hresidue
  completed_le := by
    simp only [MscClient.note, hcompleted, htransferred]
    exact hle
  complete := .inl (by simp [MscClient.note, hcsw])
  planned _ hc := absurd hc hclean
  passed hc := absurd hc hclean

theorem SectorStream.Kept.underway (hK : x.Kept k K) (horigin : x.Origin cbw K₀)
    (htasks : K.tasks = []) : Underway cbw K₀ K :=
  ⟨hK.accepted.trans horigin.accepted, hK.csws.trans horigin.csws, htasks⟩

theorem SectorStream.Kept.stall (hK : x.Kept k K) (horigin : x.Origin cbw K₀) :
    K.msc.stallDirectionBeforeCsw = cbw.plan.stall :=
  (congrArg (·.stallDirectionBeforeCsw) hK.msc).trans horigin.stall

end Notes

/-! ## The end of a stream -/

section StreamEnd

variable {vdReadBlock : Word → ℕ → Byte} {full clean : Prop} {cbw : ScsiCbw} {K₀ : MscClient}
  {s : MscState} {depth : ℕ} {x : SectorStream} {isIn : Bool} {e : MscEndpoint}

theorem place_endpoint_of_ne {e' : MscEndpoint} (h : e' ≠ e) (t : MscTransfer)
    (E : UsbEndpoint MscTransfer MscFunction) (T : UsbTransfer MscFunction) (K : MscClient) :
    (s.place e t E T K).endpoint e' = s.endpoint e' := by
  simp [UsbState.place, h]

/-- The wiring is the same at the end of a stream. -/
theorem UsbLine.wired_end (hw : MscWired s) {E : UsbEndpoint MscTransfer MscFunction}
    {T : UsbTransfer MscFunction} {k : ℕ}
    (hl : UsbLine (x.setup (decide (e = .mscIn))) E T k k 0) (K : MscClient) :
    MscWired (s.place e .sector (E.setTransfer none) T.complete K) := by
  have hcmd : (s.place e .sector (E.setTransfer none) T.complete K).transfer .cmd =
      s.transfer .cmd := by
    simp [UsbState.place]
  have hfield {P : MscEndpoint → UsbEndpoint MscTransfer MscFunction → Prop}
      (hE : P e (E.setTransfer none)) (hs : ∀ e', P e' (s.endpoint e')) (e' : MscEndpoint) :
      P e' ((s.place e .sector (E.setTransfer none) T.complete K).endpoint e') := by
    by_cases h : e' = e
    · rw [h, UsbState.place_endpoint]
      exact hE
    · rw [place_endpoint_of_ne h]
      exact hs e'
  exact
    { isIn := hfield (P := fun e E => E.isIn = decide (e = .mscIn)) hl.isIn hw.isIn
      doubleBuffered := hfield (P := fun _ E => E.doubleBuffered = true) hl.doubleBuffered
        hw.doubleBuffered
      onStallChange := hfield (P := fun e E => E.onStallChange =
        if e = .mscIn then some .inOnStallChange else none)
        (hl.onStallChange.trans (by cases e <;> rfl)) hw.onStallChange
      defaultTransfer := hfield (P := fun e E => E.defaultTransfer =
        if e = .mscOut then some .cmd else none)
        (hl.defaultTransfer.trans (by cases e <;> rfl)) hw.defaultTransfer
      cmdType := by
        rw [hcmd]
        exact hw.cmdType
      order := hfield (P := fun _ E => E.hw.available <:+ E.hw.given)
        (hl.free_end.available ▸ List.nil_suffix) hw.order }

/-- `_tf_data_phase_complete` is called at the end of a stream. -/
theorem sectorStream_finish (hw : MscWired s) (hdepth : 2 ≤ depth) :
    (x.setup isIn).finish (usbCalls (mscDriver vdReadBlock) depth) e s = .ok s.endDataPhase := by
  obtain ⟨depth, rfl⟩ : ∃ d, depth = d + 1 := ⟨depth - 1, by omega⟩
  exact mscDataPhaseComplete_eq hw (by omega)

/-- The last packet of a stream is done with, and the data phase is about to end. -/
structure StreamDone (x : SectorStream) (idle : ℕ → MscClient → Prop) (s : MscState) : Prop where
  wired : MscWired s
  mscIn : (s.endpoint .mscIn).Quiet
  mscOut : (s.endpoint .mscOut).Free
  idle : idle x.packets s.client

/-- A data phase is over, as it was planned. -/
theorem dataEnded_endDataPhase (hw : MscWired s) (hin : (s.endpoint .mscIn).Quiet)
    (hout : (s.endpoint .mscOut).Free) (hunderway : Underway cbw K₀ s.client)
    (hnote : NoteOk full clean cbw s.client.note)
    (hstall : s.client.msc.stallDirectionBeforeCsw = cbw.plan.stall) :
    DataEnded full clean cbw K₀ cbw.plan.stall s.endDataPhase := by
  have hended : Ended full clean cbw K₀ s.client.msc.stallDirectionBeforeCsw s.endDataPhase :=
    endDataPhase_ended hw hin hunderway hnote
  rw [hstall] at hended
  refine ⟨hended, fun _ => rfl, ?_⟩
  rw [endDataPhase_mscOut, hstall]
  split
  · refine ⟨?_, ?_⟩
    · obtain ⟨hs', heq, -⟩ := (s.endpoint .mscOut).stallWith_eq .halted
      rw [heq]
      exact hout.current
    · rw [UsbEndpoint.stallWith, hout.notHalted, if_pos (by decide)]
      rfl
  · exact hout

/-- A data phase is over with the last packet of its stream. -/
theorem StreamDone.dataEnded {idle : ℕ → MscClient → Prop} (h : StreamDone x idle s)
    (hK : x.Kept x.packets s.client) (htasks : s.client.tasks = []) (horigin : x.Origin cbw K₀)
    (hcompleted : s.client.completed = s.client.transferred)
    (hfull : full → s.client.transferred = 64 * x.packets) :
    DataEnded full clean cbw K₀ cbw.plan.stall s.endDataPhase :=
  dataEnded_endDataPhase h.wired h.mscIn h.mscOut (hK.underway horigin htasks)
    (hK.noteOk horigin rfl hcompleted hfull) (hK.stall horigin)

end StreamEnd

/-! ## The bytes of a buffer -/

theorem countTransferred_sector {s : MscState} {e : MscEndpoint} {packet : List Byte}
    {b : UsbGivenBuffer} {rest : List UsbGivenBuffer}
    (hcurrent : (s.endpoint e).currentTransfer = some .sector)
    (havail : (s.endpoint e).hw.available = b :: rest) :
    countTransferred e packet s = s.modifyClient fun K =>
      K.transfer (if e = .mscIn then b.packet else packet).length := by
  unfold countTransferred
  rw [hcurrent, havail]

/-! ## Writes -/

section Writing

variable {vdReadBlock : Word → ℕ → Byte} {full clean : Prop} {cbw : ScsiCbw} {K₀ : MscClient}
  {s : MscState} {depth : ℕ} {x : SectorStream} {packet : ℕ → List Byte} {k d : ℕ}

/-- A write goes on after `k` packets, or it has ended after all of them. -/
def WriteAfter (full : Prop) (cbw : ScsiCbw) (K₀ : MscClient) (x : SectorStream)
    (packet : ℕ → List Byte) (k d : ℕ) (r : UsbResult MscState) : Prop :=
  (∃ s', r = .ok s' ∧ Writing full cbw K₀ x packet k d s') ∨
    ∃ s', r = .ok s'.endDataPhase ∧ k = x.packets ∧ StreamDone x (x.OutIdle packet) s' ∧
      s'.client.transferred = receivedBytes packet k

theorem OutAfter.writeAfter (hw : MscWired s) (horigin : x.Origin cbw K₀)
    (hin : (s.endpoint .mscIn).Quiet) (hlen : ∀ i, (packet i).length ≤ 64)
    (hwhole : full → ∀ i < k, (packet i).length = 64) {r : UsbResult MscState} (hdepth : 2 ≤ depth)
    (hafter : OutAfter (usbCalls (mscDriver vdReadBlock) depth) (x.setup false) packet
      (fun j K => (x.OutIdle packet j K ∧ d ≤ j) ∧ K.transferred = receivedBytes packet k)
      (fun j K => (x.OutBusy packet j K ∧ d ≤ j) ∧ K.transferred = receivedBytes packet k) s .mscOut
      k r) : WriteAfter full cbw K₀ x packet k d r := by
  have hsame (E : UsbEndpoint MscTransfer MscFunction) (T : UsbTransfer MscFunction)
      (K : MscClient) : (s.place .mscOut .sector E T K).endpoint .mscIn = s.endpoint .mscIn :=
    place_endpoint_of_ne (by decide) _ _ _ _
  rcases hafter with ⟨E, T, K, hr, hserve⟩ | ⟨hk, E, T, K, hl, -, -, hK, hr⟩
  · obtain ⟨hserve, htransferred⟩ := hserve.split
    refine .inl ⟨_, hr, horigin, ?_, ?_, hlen, hwhole, htransferred⟩
    · exact (hsame E T K).symm ▸ hin
    · change OutServing _ _ _ _ _ ((s.place .mscOut .sector E T K).endpoint .mscOut)
        ((s.place .mscOut .sector E T K).transfer .sector) _
      rw [UsbState.place_endpoint, UsbState.place_transfer]
      exact hserve
  · obtain ⟨⟨hidle, -⟩, htransferred⟩ := hK
    have hw₁ : MscWired (s.place .mscOut .sector (E.setTransfer none) T.complete K) :=
      hl.wired_end (e := .mscOut) hw K
    change k = x.packets at hk
    change r = (x.setup false).finish _ .mscOut
      (s.place .mscOut .sector (E.setTransfer none) T.complete K) at hr
    rw [sectorStream_finish hw₁ hdepth] at hr
    refine .inr ⟨_, hr, hk, ⟨hw₁, ?_, ?_, hk ▸ hidle⟩, htransferred⟩
    · rw [hsame]
      exact hin
    · rw [UsbState.place_endpoint]
      exact hl.free_end

/-- The stream is the current transfer of `msc_out`. -/
theorem Writing.current (h : Writing full cbw K₀ x packet k d s) :
    (s.endpoint .mscOut).currentTransfer = some .sector := by
  cases h.serving with
  | free hf hk hK => exact hf.line.current
  | busy hb hk hK =>
    obtain ⟨submitted, -, hl⟩ := hb.line
    exact hl.current
  | queued hq hk hK => exact hq.line.current

theorem Writing.notHalted (h : Writing full cbw K₀ x packet k d s) :
    (s.endpoint .mscOut).haltState = .none := by
  cases h.serving with
  | free hf hk hK => exact hf.line.notHalted
  | busy hb hk hK =>
    obtain ⟨submitted, -, hl⟩ := hb.line
    exact hl.notHalted
  | queued hq hk hK => exact hq.line.notHalted

/-- The hardware has received the next packet of a write. -/
theorem Writing.buffer (h : Writing full cbw K₀ x packet k d s) (hw : MscWired s)
    (havail : (s.endpoint .mscOut).hw.available ≠ []) {packet' : ℕ → List Byte}
    (hsame : ∀ i < k, packet' i = packet i) (hlen : ∀ i, (packet' i).length ≤ 64)
    (hwhole : full → (packet' k).length = 64) (hdepth : 3 ≤ depth) :
    WriteAfter full cbw K₀ x packet' (k + 1) d
      (mscStep vdReadBlock depth s (.buffer .mscOut (packet' k))) := by
  obtain ⟨b, rest, hb⟩ := List.exists_cons_of_ne_nil havail
  have hstep : mscStep vdReadBlock depth s (.buffer .mscOut (packet' k)) =
      usbBufferInterrupt (usbCalls (mscDriver vdReadBlock) depth) .mscOut (packet' k)
        (s.place .mscOut .sector (s.endpoint .mscOut) (s.transfer .sector)
          (s.client.transfer (packet' k).length)) := by
    change usbBufferInterrupt _ .mscOut (packet' k) (countTransferred .mscOut (packet' k) s) = _
    rw [countTransferred_sector h.current hb, if_neg (by decide)]
    conv_lhs => rw [← s.place_self .mscOut .sector]
    rfl
  have hcount : receivedBytes packet' (k + 1) = s.client.transferred + (packet' k).length := by
    rw [receivedBytes, receivedBytes_congr hsame, h.transferred]
  have hserve : OutServing (x.setup false) packet'
      (fun j K => (x.OutIdle packet' j K ∧ d ≤ j) ∧ K.transferred = receivedBytes packet' (k + 1))
      (fun j K => (x.OutBusy packet' j K ∧ d ≤ j) ∧ K.transferred = receivedBytes packet' (k + 1))
      k (s.endpoint .mscOut) (s.transfer .sector) (s.client.transfer (packet' k).length) := by
    refine h.serving.congr hsame (fun i hi hK => ⟨⟨?_, hK.2⟩, hcount.symm⟩)
      fun i hi hK => ⟨⟨?_, hK.2⟩, hcount.symm⟩
    · exact hK.1.transfer (fun j hj => hsame j (by omega)) _
    · exact hK.1.transfer (fun j hj => hsame j (by omega)) _
  rw [hstep]
  refine OutAfter.writeAfter hw h.origin h.quiet hlen (fun hf i hi => ?_) (by omega)
    (OutServing.buffer (mscStream_handles vdReadBlock x .mscOut false _)
      (x.serves_out_from vdReadBlock hlen d _) rfl hserve havail hdepth)
  rcases Nat.lt_or_ge i k with hlt | hge
  · rw [hsame i hlt]
    exact h.whole hf i hlt
  · rw [show i = k by omega]
    exact hwhole hf

/-- There is a task while a chunk is processed. -/
theorem Writing.busy (h : Writing full cbw K₀ x packet k d s) {i : ℕ}
    (hi : i < s.client.tasks.length) :
    ∃ j < k, j < x.packets ∧ d ≤ j ∧ x.OutBusy packet j s.client ∧
      (s.transfer .sector).outstandingPacket = true := by
  cases h.serving with
  | free hf hk hK =>
    rw [hK.1.tasks] at hi
    exact absurd hi (Nat.not_lt_zero i)
  | busy hb hk hK => exact ⟨_, Nat.lt_succ_self _, hk, hK.2, hK.1, hb.outstanding⟩
  | queued hq hk hK => exact ⟨_, by omega, Nat.lt_of_succ_lt hk, hK.2, hK.1, hq.outstanding⟩

/-- The client when the only task has ended. -/
def tasksDone (K : MscClient) : MscClient := { K with tasks := [] }

/-- What `vd_async_complete` is called for. -/
theorem mscStep_asyncComplete {j i : ℕ} (hbusy : x.OutBusy packet j s.client)
    (hi : i < s.client.tasks.length) (result : Word) :
    mscStep vdReadBlock depth s (.asyncComplete i result) =
      vdAsyncComplete (usbCalls (mscDriver vdReadBlock) depth) vdReadBlock s.client.asyncToken
        result (s.modifyClient tasksDone) := by
  have hlength : s.client.tasks.length = 1 := by rw [hbusy.tasks]; rfl
  obtain rfl : i = 0 := by omega
  have hsame : (fun K : MscClient => { K with tasks := K.tasks.eraseIdx 0 }) s.client =
      tasksDone s.client := by
    simp only [tasksDone, hbusy.tasks, List.eraseIdx_cons_zero]
  unfold mscStep
  rw [hbusy.tasks]
  simp only [List.getElem?_cons_zero]
  exact congrArg (fun K => vdAsyncComplete _ vdReadBlock s.client.asyncToken result
    { s with client := K }) hsame

/-- The end of the `j`-th packet, when its task has ended. -/
theorem SectorStream.OutBusy.taskDone {K : MscClient} {j : ℕ} (h : x.OutBusy packet j K) :
    x.OutDone packet j (tasksDone K) :=
  ⟨h.toOutReady.congr (fun _ _ => rfl) rfl rfl rfl rfl rfl rfl, rfl,
    h.written.congr (fun _ _ => rfl) rfl rfl rfl rfl⟩

/-- The task of a chunk has written it. -/
theorem Writing.asyncComplete (h : Writing full cbw K₀ x packet k d s) (hw : MscWired s) {i : ℕ}
    (hi : i < s.client.tasks.length) (hdepth : 3 ≤ depth) :
    WriteAfter full cbw K₀ x packet k (d + 1)
      (mscStep vdReadBlock depth s (.asyncComplete i 0)) := by
  obtain ⟨j, -, -, -, hbusy, houtstanding⟩ := h.busy hi
  have hstep : mscStep vdReadBlock depth s (.asyncComplete i 0) =
      ((mscStream vdReadBlock).handler false).packetDone (usbCalls (mscDriver vdReadBlock) depth)
        .mscOut (s.place .mscOut .sector (s.endpoint .mscOut) (s.transfer .sector)
          (tasksDone s.client)) := by
    have hplace : s.place .mscOut .sector (s.endpoint .mscOut) (s.transfer .sector)
        (tasksDone s.client) = s.modifyClient tasksDone := by
      conv_rhs => rw [← s.place_self .mscOut .sector]
      rfl
    have htoken : s.client.asyncToken = (s.modifyClient tasksDone).client.asyncToken := rfl
    rw [mscStep_asyncComplete hbusy hi, vdAsyncComplete, if_pos htoken,
      if_neg (not_not_intro rfl), hplace]
    change (mscStream vdReadBlock).packetHandlerComplete _ s.client.streamEp _ = _
    rw [hbusy.streamEp]
    exact (mscStream vdReadBlock).packetHandlerComplete_eq _ _ _ (hw.isIn .mscOut)
  have hserve : OutServing (x.setup false) packet
      (fun j K => (x.OutIdle packet j K ∧ d + 1 ≤ j) ∧ K.transferred = receivedBytes packet k)
      (fun j K => (x.OutDone packet j K ∧ d + 1 ≤ j + 1) ∧ K.transferred = receivedBytes packet k)
      k (s.endpoint .mscOut) (s.transfer .sector) (tasksDone s.client) := by
    refine h.serving.congr (fun _ _ => rfl) (fun i _ hK => ?_) fun i _ hK =>
      ⟨⟨hK.1.taskDone, Nat.succ_le_succ hK.2⟩, h.transferred⟩
    have htasks := hK.1.tasks
    rw [hbusy.tasks] at htasks
    cases htasks
  rw [hstep]
  refine OutAfter.writeAfter hw h.origin h.quiet h.length_le h.whole (by omega)
    (OutServing.done (mscStream_handles vdReadBlock x .mscOut false _)
      (x.serves_out_from vdReadBlock h.length_le (d + 1) _) rfl hserve houtstanding
      (fun _ hK => hK) hdepth fun E T K s' hl hs' => ?_)
  have hw₁ : MscWired (s.place .mscOut .sector (E.setTransfer none) T.complete K) :=
    hl.wired_end (e := .mscOut) hw K
  change (x.setup false).finish _ .mscOut (s.place .mscOut .sector (E.setTransfer none) T.complete K)
    = _ at hs'
  rw [sectorStream_finish hw₁ (by omega)] at hs'
  obtain rfl := Except.ok.inj hs'
  change (UsbState.transfer (UsbState.endDataPhase _) .sector).completed = true
  rw [endDataPhase_transfer_of_ne (by decide), UsbState.place_transfer]
  rfl

/-- The last packet of a stream that was stalled. The transfer ends without `on_complete`. -/
theorem packetHandlerComplete_halted (vdReadBlock : Word → ℕ → Byte) {c : MscCalls}
    (hin : (s.endpoint .mscOut).isIn = false)
    (hcurrent : (s.endpoint .mscOut).currentTransfer = some .sector)
    (hhalt : (s.endpoint .mscOut).haltState = .halted) :
    ∃ s', (mscStream vdReadBlock).packetHandlerComplete c .mscOut s = .ok s' ∧
      s'.endpoint .mscIn = s.endpoint .mscIn ∧
      s'.transfer .cmdResponse = s.transfer .cmdResponse ∧
      (s'.endpoint .mscOut).Stalled .halted ∧ s'.client.accepted = s.client.accepted ∧
      s'.client.csws = s.client.csws ∧ s'.client.tasks = s.client.tasks ∧
      s'.client.transferred = s.client.transferred := by
  have hfetch : (s.endpoint .mscOut).fetchBuffer.currentTransfer = some .sector ∧
      (s.endpoint .mscOut).fetchBuffer.haltState = .halted := by
    unfold UsbEndpoint.fetchBuffer
    split
    · exact ⟨hcurrent, hhalt⟩
    · exact ⟨hcurrent, hhalt⟩
  have hin' : ((usbCurrentPacketBuffer .mscOut s).endpoint .mscOut).isIn = false := by
    rw [usbCurrentPacketBuffer, UsbState.modifyEndpoint_endpoint_self]
    exact (UsbEndpoint.fetchBuffer_isIn _).trans hin
  unfold UsbStream.packetHandlerComplete
  dsimp only
  rw [hin', if_neg Bool.false_ne_true, usbPacketDone_of_halted (t := .sector)
    (by simp [usbCurrentPacketBuffer, hfetch.1]) (by simp [usbCurrentPacketBuffer, hfetch.2])]
  refine ⟨_, rfl, ?_, rfl, ⟨?_, ?_⟩, rfl, rfl, rfl, rfl⟩
  · simp [UsbState.completeTransfer, usbCurrentPacketBuffer, UsbState.modifyEndpoint]
  · simp [UsbState.completeTransfer, usbCurrentPacketBuffer]
  · simp [UsbState.completeTransfer, usbCurrentPacketBuffer, hfetch.2]

/-- The task of a chunk has failed : `msc_out` is stalled, and the CSW is started with the packets
that were done before. -/
theorem Writing.asyncFailed (h : Writing full cbw K₀ x packet k d s) (hw : MscWired s) {i : ℕ}
    (hi : i < s.client.tasks.length) {result : Word} (hresult : result ≠ 0) (hclean : ¬clean)
    (hdepth : 1 ≤ depth) :
    ∃ s', mscStep vdReadBlock depth s (.asyncComplete i result) = .ok s' ∧
      DataEnded full clean cbw K₀ .dirOut s' := by
  obtain ⟨j, hjk, hj, -, hbusy, -⟩ := h.busy hi
  generalize hs₁ : (s.modifyClient tasksDone).modifyMsc (fun m =>
    { m.setCswFailed 0x07 0x20 2 with stallDirectionBeforeCsw := .dirOut }) = s₁
  have hw₁ : MscWired s₁ := by
    rw [← hs₁]
    exact hw.of_same ((UsbState.SameWiring.modifyClient _ _).trans (.modifyClient _ _))
  have hE₁ : s₁.endpoint = s.endpoint := by
    rw [← hs₁]
    rfl
  have hstall : s₁.client.msc.stallDirectionBeforeCsw = .dirOut := by
    rw [← hs₁]
    rfl
  have hK₁ : s₁.client.accepted = s.client.accepted ∧ s₁.client.csws = s.client.csws ∧
      s₁.client.tasks = [] := by
    rw [← hs₁]
    exact ⟨rfl, rfl, rfl⟩
  have hunderway : Underway cbw K₀ s₁.client :=
    ⟨hK₁.1.trans (hbusy.accepted.trans h.origin.accepted),
      hK₁.2.1.trans (hbusy.csws.trans h.origin.csws), hK₁.2.2⟩
  have hnote : NoteOk full clean cbw s₁.client.note := by
    refine hbusy.noteOk_failed h.origin (Nat.le_of_lt hj) ?_ (fun hf => ?_) hclean (by rw [← hs₁]; rfl)
      (by rw [← hs₁]; rfl) (by rw [← hs₁]; rfl)
    · rw [hbusy.completed, h.transferred]
      exact receivedBytes_mono (Nat.le_of_lt hjk)
    · rw [hbusy.completed]
      exact receivedBytes_full fun i hi => h.whole hf i (by omega)
  have hended : Ended full clean cbw K₀ s₁.client.msc.stallDirectionBeforeCsw s₁.endDataPhase :=
    endDataPhase_ended hw₁ (hE₁ ▸ h.quiet) hunderway hnote
  have hout : s₁.endDataPhase.endpoint .mscOut = (s.endpoint .mscOut).stallWith .halted := by
    rw [endDataPhase_mscOut, hstall, if_pos rfl, hE₁]
  have hstalled : (s.endpoint .mscOut).stallWith .halted =
      (s.endpoint .mscOut).setHalt .halted := by
    rw [UsbEndpoint.stallWith, h.notHalted, if_pos (by decide)]
  have hep : s₁.endDataPhase.client.streamEp = .mscOut := by
    rw [endDataPhase_streamEp, ← hs₁]
    exact hbusy.streamEp
  rw [hstall] at hended
  obtain ⟨s', hs', hin, hresponse, hout', haccepted', hcsws', htasks', htransferred'⟩ :=
    packetHandlerComplete_halted vdReadBlock (s := s₁.endDataPhase)
      (c := usbCalls (mscDriver vdReadBlock) depth)
      ((hw₁.of_same endDataPhase_sameWiring).isIn .mscOut)
      (by rw [hout, hstalled]; exact h.current) (by rw [hout, hstalled]; rfl)
  refine ⟨s', ?_, ?_, fun hc => absurd hc hclean, ?_⟩
  · have htoken : s.client.asyncToken = (s.modifyClient tasksDone).client.asyncToken := rfl
    rw [mscStep_asyncComplete hbusy hi, vdAsyncComplete, if_pos htoken, if_pos hresult, hs₁,
      mscDataPhaseComplete_eq hw₁ hdepth]
    change (mscStream vdReadBlock).packetHandlerComplete _ s₁.endDataPhase.client.streamEp _ = _
    rw [hep]
    exact hs'
  · generalize s₁.endDataPhase = s₂ at *
    cases hended with
    | answered hdir hin₂ haccepted hcsws htasks htransferred hnote =>
      exact .answered hdir (hin₂.congr hin hresponse) (haccepted'.trans haccepted)
        (hcsws'.trans hcsws) (htasks'.trans htasks) (htransferred'.trans htransferred) hnote
  · rw [if_pos rfl]
    exact hout'

end Writing

/-! ## Reads -/

section Reading

variable {vdReadBlock : Word → ℕ → Byte} {full clean : Prop} {cbw : ScsiCbw} {K₀ : MscClient}
  {s : MscState} {depth : ℕ} {x : SectorStream} {base : List (List Byte)} {k : ℕ}

/-- A read goes on after `k` packets, or it has ended after all of them. -/
def ReadAfter (vdReadBlock : Word → ℕ → Byte) (cbw : ScsiCbw) (K₀ : MscClient) (x : SectorStream)
    (base : List (List Byte)) (k : ℕ) (r : UsbResult MscState) : Prop :=
  (∃ s', r = .ok s' ∧ Reading vdReadBlock cbw K₀ x base k s' ∧ (s'.endpoint .mscOut).Free) ∨
    ∃ s', r = .ok s'.endDataPhase ∧ k = x.packets ∧ StreamDone x (x.InIdle vdReadBlock) s' ∧
      s'.client.transferred = 64 * k ∧ (s'.endpoint .mscIn).hw.given.map (·.packet) =
        base ++ (List.range k).map (x.shape.packet (x.bytes vdReadBlock))

/-- The stream is the current transfer of `msc_in`, and the next buffer has the next packet. -/
theorem Reading.available (h : Reading vdReadBlock cbw K₀ x base k s) (hw : MscWired s)
    (havail : (s.endpoint .mscIn).hw.available ≠ []) :
    (s.endpoint .mscIn).currentTransfer = some .sector ∧
      ∃ b rest, (s.endpoint .mscIn).hw.available = b :: rest ∧ b.packet.length = 64 := by
  cases h.serving with
  | busy hi ho hq hs hn hK => exact hK.elim
  | queued hi ho hq hn hK => exact hK.elim
  | free hi ho hq hk hK =>
    obtain ⟨b, rest, hb⟩ := List.exists_cons_of_ne_nil havail
    refine ⟨hi.line.current, b, rest, hb, ?_⟩
    have hpackets := hi.available_packets (hw.order .mscIn)
    have hcount : min (x.setup true).count (k + 2) - k =
        min (x.setup true).count (k + 2) - k - 1 + 1 := by omega
    rw [hb, hcount, List.range'_succ, List.map_cons, List.map_cons] at hpackets
    rw [(List.cons.inj hpackets).1, StreamShape.packet_length]
    exact x.packetLength_eq hk

/-- The host has taken the next packet of a read. -/
theorem Reading.buffer (h : Reading vdReadBlock cbw K₀ x base k s) (hw : MscWired s)
    (hout : (s.endpoint .mscOut).Free) (havail : (s.endpoint .mscIn).hw.available ≠ [])
    (sent : List Byte) (hdepth : 2 ≤ depth) :
    ReadAfter vdReadBlock cbw K₀ x base (k + 1)
      (mscStep vdReadBlock depth s (.buffer .mscIn sent)) := by
  obtain ⟨hcurrent, b, rest, hb, hlen⟩ := h.available hw havail
  have hstep : mscStep vdReadBlock depth s (.buffer .mscIn sent) =
      usbBufferInterrupt (usbCalls (mscDriver vdReadBlock) depth) .mscIn sent
        (s.place .mscIn .sector (s.endpoint .mscIn) (s.transfer .sector) (s.client.transfer 64)) := by
    change usbBufferInterrupt _ .mscIn sent (countTransferred .mscIn sent s) = _
    rw [countTransferred_sector hcurrent hb, if_pos rfl, hlen]
    conv_lhs => rw [← s.place_self .mscIn .sector]
    rfl
  have hserve : InServing (x.setup true) (x.shape.packet (x.bytes vdReadBlock)) base
      (fun k' K => x.InIdle vdReadBlock k' K ∧ K.transferred = 64 * (k + 1))
      (fun _ K => False ∧ K.transferred = 64 * (k + 1)) k (s.endpoint .mscIn) (s.transfer .sector)
      (s.client.transfer 64) := by
    refine h.serving.congr (fun i hK => ⟨hK.transfer 64, ?_⟩) fun i hK => hK.elim
    change s.client.transferred + 64 = _
    rw [h.transferred]
    rfl
  have hsame (E : UsbEndpoint MscTransfer MscFunction) (T : UsbTransfer MscFunction)
      (K : MscClient) : (s.place .mscIn .sector E T K).endpoint .mscOut = s.endpoint .mscOut :=
    place_endpoint_of_ne (by decide) _ _ _ _
  rw [hstep]
  rcases InServing.buffer (mscStream_handles vdReadBlock x .mscIn true _)
    (x.serves_in_counted vdReadBlock _) rfl hserve havail hdepth sent (s := s) with
      ⟨E, T, K, hr, hserve'⟩ | ⟨hk, E, T, K, hi, -, -, hK, hr⟩
  · obtain ⟨hserve', htransferred⟩ := hserve'.split
    refine .inl ⟨_, hr, ⟨h.origin, ?_, htransferred⟩, ?_⟩
    · change InServing _ _ _ _ _ _ ((s.place .mscIn .sector E T K).endpoint .mscIn)
        ((s.place .mscIn .sector E T K).transfer .sector) _
      rw [UsbState.place_endpoint, UsbState.place_transfer]
      exact hserve'
    · exact (hsame E T K).symm ▸ hout
  · have hw₁ : MscWired (s.place .mscIn .sector (E.setTransfer none) T.complete K) :=
      hi.line.wired_end (e := .mscIn) hw K
    change k + 1 = x.packets at hk
    change _ = (x.setup true).finish _ .mscIn
      (s.place .mscIn .sector (E.setTransfer none) T.complete K) at hr
    rw [sectorStream_finish hw₁ hdepth] at hr
    refine .inr ⟨_, hr, hk, ⟨hw₁, ?_, ?_, hk ▸ hK.1⟩, hK.2, ?_⟩
    · rw [UsbState.place_endpoint]
      exact hi.quiet_end
    · rw [hsame]
      exact hout
    · rw [UsbState.place_endpoint]
      exact hi.given

end Reading

/-! ## Responses -/

section Responding

variable {vdReadBlock : Word → ℕ → Byte} {full clean : Prop} {cbw : ScsiCbw} {K₀ : MscClient}
  {s : MscState} {depth : ℕ} {f : MscFunction} {packet : List Byte}

/-- The host has taken a response or a CSW : its function is called. -/
theorem MscResponds.taken (h : MscResponds f packet s) (hw : MscWired s) (sent : List Byte) :
    ∃ s', (∀ c, usbBufferInterrupt c .mscIn sent s = c.call (.driver f) .mscIn s') ∧
      s'.SameWiring s ∧ (s'.endpoint .mscIn).Quiet ∧ s'.endpoint .mscOut = s.endpoint .mscOut ∧
      s'.client = s.client := by
  obtain ⟨b, hb, -⟩ := h.available
  have hin : (s.endpoint .mscIn).isIn = true := hw.isIn .mscIn
  obtain ⟨E, hdone, hE⟩ : ∃ E, (s.endpoint .mscIn).bufferDone sent = some (b.which, E) ∧
      E = { s.endpoint .mscIn with
        hw := { (s.endpoint .mscIn).hw with available := [] } } := by
    refine ⟨_, ?_, rfl⟩
    simp [UsbEndpoint.bufferDone, hb, hin]
  refine ⟨((s.returned .mscIn b.which E).modifyTransfer .cmdResponse
    UsbTransfer.handleOne).completeTransfer .mscIn .cmdResponse, fun c => ?_, ?_, ?_, ?_, rfl⟩
  · rw [usbBufferInterrupt_single_in h.toAwaits hin hdone, UsbState.finish]
    simp only [UsbState.modifyTransfer_transfer_self, UsbTransfer.handleOne_onComplete]
    have hcomplete : ((s.returned .mscIn b.which E).transfer .cmdResponse).onComplete = some f :=
      h.onComplete
    rw [hcomplete]
  · have hkept : (E.ownOne.takeBuffer b.which).Kept E := ⟨⟨rfl, rfl, rfl, rfl⟩, id⟩
    have htake := hkept.trans (.bufferDone hdone)
    exact mscFrame.completeTransfer.trans ((UsbState.SameWiring.modifyTransfer
      fun _ => rfl).trans (.modifyEndpoint htake))
  · have hend : ((((s.returned .mscIn b.which E).modifyTransfer .cmdResponse
        UsbTransfer.handleOne).completeTransfer .mscIn .cmdResponse).endpoint .mscIn) =
        (E.ownOne.takeBuffer b.which).setTransfer none := by
      simp [UsbState.completeTransfer, UsbState.returned]
    rw [hend, hE]
    refine ⟨⟨rfl, h.notHalted, ?_, rfl⟩, fun hvalid => ?_⟩
    · change (s.endpoint .mscIn).ownedBufferCount + 1 = 2
      rw [h.owned]
      rfl
    · exact absurd (h.valid.symm.trans hvalid) Bool.false_ne_true
  · have hne : MscEndpoint.mscOut ≠ .mscIn := by decide
    rw [UsbState.completeTransfer, UsbState.modifyEndpoint_endpoint_of_ne _ _ _ _ hne]
    simp [UsbState.returned, UsbState.modifyEndpoint]

theorem countTransferred_response (h : MscResponds f packet s) (sent : List Byte) :
    countTransferred .mscIn sent s = if f = .tfDataPhaseComplete then
      s.modifyClient fun K => K.transfer packet.length else s := by
  obtain ⟨b, hb, hpacket⟩ := h.available
  unfold countTransferred
  rw [h.current, hb]
  simp only [h.onComplete, Option.some.injEq, hpacket]

/-- The host has taken the response to a command. -/
theorem Responding.buffer (h : Responding full clean cbw K₀ packet s) (hw : MscWired s)
    (hout : (s.endpoint .mscOut).Free) (sent : List Byte) (hdepth : 2 ≤ depth) :
    ∃ s', mscStep vdReadBlock depth s (.buffer .mscIn sent) = .ok s' ∧
      DataEnded full clean cbw K₀ cbw.plan.stall s' := by
  obtain ⟨depth, rfl⟩ : ∃ d, depth = d + 1 := ⟨depth - 1, by omega⟩
  generalize hs₀ : s.modifyClient (fun K => K.transfer packet.length) = s₀
  have hw₀ : MscWired s₀ := by
    rw [← hs₀]
    exact hw.of_same (.modifyClient _ _)
  have hE₀ : s₀.endpoint = s.endpoint := by
    rw [← hs₀]
    rfl
  have hclient₀ : s₀.client = s.client.transfer packet.length := by
    rw [← hs₀]
    rfl
  have hresponds : MscResponds .tfDataPhaseComplete packet s₀ :=
    h.responds.congr (by rw [hE₀]) (by rw [← hs₀]; rfl)
  obtain ⟨s₁, hs₁, hwiring, hin₁, hout₁, hclient₁⟩ := hresponds.taken hw₀ sent
  rw [hclient₀] at hclient₁
  have hw₁ : MscWired s₁ := hw₀.of_same hwiring
  refine ⟨s₁.endDataPhase, ?_, dataEnded_endDataPhase hw₁ hin₁ ?_ ?_ ?_ ?_⟩
  · change usbBufferInterrupt _ .mscIn sent (countTransferred .mscIn sent s) = _
    rw [countTransferred_response h.responds, if_pos rfl, hs₀, hs₁]
    exact mscDataPhaseComplete_eq hw₁ (by omega)
  · rw [hout₁, hE₀]
    exact hout
  · rw [hclient₁]
    exact ⟨h.underway.accepted, h.underway.csws, h.underway.tasks⟩
  · rw [hclient₁]
    exact h.noteOk
  · rw [hclient₁]
    exact h.stall

end Responding

end PicoBootrom
