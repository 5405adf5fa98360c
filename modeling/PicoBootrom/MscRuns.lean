import PicoBootrom.MscSteps

/-!
# Events of mass storage

The events of the mass storage interface together with what the worker and PICOBOOT do to the disk
behind it (`MscRunEvent`). A change of the disk does not disturb a command, and a buffer of an
endpoint without a transfer at most stalls it.

A task is pending while `_sector_buf` has its chunk (`MscClient.Pending`) : the call of
`vd_write_block` is recorded with the bytes it was given.
-/

set_option linter.unusedSectionVars false

namespace PicoBootrom

/-! ## Events -/

/-- What happens next to the mass storage interface or to the disk. -/
inductive MscRunEvent
  | usb (event : MscEvent)
  /-- Something else changes the disk. -/
  | disk (d : VirtualDisk)

/-- A change of the disk that is not made by the mass storage interface. -/
def MscClient.setDisk (d : VirtualDisk) (K : MscClient) : MscClient := { K with disk := d }

/-- One event, with calls of at most the given depth. -/
def mscRunStep (vdReadBlock : Word → ℕ → Byte) (depth : ℕ) (s : MscState) :
    MscRunEvent → UsbResult MscState
  | .usb event => mscStep vdReadBlock depth s event
  | .disk d => .ok (s.modifyClient (MscClient.setDisk d))

/-- A task has ended. -/
def MscRunEvent.Completes : MscRunEvent → Prop
  | .usb (.asyncComplete _ _) => True
  | _ => False

/-! ## Changes of the disk -/

section Disk

variable {vdReadBlock : Word → ℕ → Byte} {full clean : Prop} {cbw : ScsiCbw} {K₀ : MscClient}
  {s : MscState} {x : SectorStream} {packet : ℕ → List Byte} {k left : ℕ} {K : MscClient}
  {d : VirtualDisk}

namespace SectorStream

theorem InIdle.setDisk (h : x.InIdle vdReadBlock k K) (d : VirtualDisk) :
    x.InIdle vdReadBlock k (K.setDisk d) :=
  { msc := h.msc
    accepted := h.accepted
    csws := h.csws
    streamEp := h.streamEp
    record := h.record
    completed := h.completed
    tasks := h.tasks
    called := h.called.congr (fun _ _ => rfl) rfl rfl rfl
    buffer := h.buffer }

theorem OutIdle.setDisk (h : x.OutIdle packet k K) (d : VirtualDisk) :
    x.OutIdle packet k (K.setDisk d) :=
  ⟨h.toOutReady.congr (fun _ _ => rfl) rfl rfl rfl rfl rfl rfl, h.tasks,
    h.written.congr (fun _ _ => rfl) rfl rfl rfl rfl⟩

theorem OutBusy.setDisk (h : x.OutBusy packet k K) (hd : d.sectorBuf = K.disk.sectorBuf) :
    x.OutBusy packet k (K.setDisk d) :=
  ⟨h.toOutReady.congr (fun _ _ => rfl) rfl rfl rfl rfl rfl rfl, h.tasks,
    h.written.congr (fun _ _ => rfl) rfl rfl rfl rfl, h.pending, hd.trans h.sectorBuf⟩

end SectorStream

/-- A read goes on when the disk is changed. -/
theorem Reading.setDisk {before : List (List Byte)} (h : Reading vdReadBlock cbw K₀ x before k s)
    (d : VirtualDisk) :
    Reading vdReadBlock cbw K₀ x before k (s.modifyClient (MscClient.setDisk d)) :=
  ⟨h.origin, h.serving.congr (fun _ hK => hK.setDisk d) fun _ hK => hK, h.transferred⟩

theorem Responding.setDisk {bytes : List Byte} (h : Responding full clean cbw K₀ bytes s)
    (d : VirtualDisk) :
    Responding full clean cbw K₀ bytes (s.modifyClient (MscClient.setDisk d)) :=
  ⟨h.responds.congr rfl rfl, ⟨h.underway.accepted, h.underway.csws, h.underway.tasks⟩, h.noteOk,
    h.stall⟩

/-- A write goes on when the disk is changed, but for `sector_buf`. -/
theorem Writing.setDisk {done : ℕ} (h : Writing full cbw K₀ x packet k done s)
    (hd : d.sectorBuf = s.client.disk.sectorBuf) :
    Writing full cbw K₀ x packet k done (s.modifyClient (MscClient.setDisk d)) :=
  ⟨h.origin, h.quiet, h.serving.congr (fun _ _ => rfl) (fun _ _ hK => ⟨hK.1.setDisk d, hK.2⟩)
    fun _ _ hK => ⟨hK.1.setDisk hd, hK.2⟩, h.length_le, h.whole, h.transferred⟩

end Disk

/-! ## Buffers of endpoints without a transfer -/

section Buffers

variable {vdReadBlock : Word → ℕ → Byte} {depth : ℕ} {s : MscState} {e : MscEndpoint}

/-- The hardware has no buffer to be done with. -/
theorem mscStep_buffer_nil (h : (s.endpoint e).hw.available = []) (packet : List Byte) :
    mscStep vdReadBlock depth s (.buffer e packet) = .ok s := by
  have hcount : countTransferred e packet s = s := by
    unfold countTransferred
    rw [h]
    rcases (s.endpoint e).currentTransfer with _ | t
    · rfl
    · cases t <;> rfl
  have hdone : (s.endpoint e).bufferDone packet = none := by
    rw [UsbEndpoint.bufferDone, h]
  change usbBufferInterrupt _ e packet (countTransferred e packet s) = _
  rw [hcount, usbBufferInterrupt, hdone]

/-- A buffer of an endpoint without a transfer halts it. -/
theorem mscStep_buffer_none (vdReadBlock : Word → ℕ → Byte) (hw : MscWired s)
    (h : (s.endpoint e).currentTransfer = none)
    (packet : List Byte) (hdepth : 1 ≤ depth) :
    ∃ E, mscStep vdReadBlock depth s (.buffer e packet) = .ok (s.modifyEndpoint e fun _ => E) ∧
      E.currentTransfer = none ∧ ((s.endpoint e).haltState = .halted → E.haltState = .halted) := by
  have hcount : countTransferred e packet s = s := by
    unfold countTransferred
    rw [h]
  change ∃ E, usbBufferInterrupt _ e packet (countTransferred e packet s) = _ ∧ _
  rw [hcount, usbBufferInterrupt]
  cases hdone : (s.endpoint e).bufferDone packet with
  | none =>
    refine ⟨s.endpoint e, ?_, h, id⟩
    simp [UsbState.modifyEndpoint]
  | some r =>
    obtain ⟨which, E⟩ := r
    obtain ⟨hcurrent, hhalt, -⟩ := bufferDone_currentTransfer hdone
    have hw₁ : MscWired ((s.modifyEndpoint e fun _ => E).modifyEndpoint e
        UsbEndpoint.ownOne) := by
      refine hw.of_same (.trans (.modifyEndpoint ⟨⟨rfl, rfl, rfl, rfl⟩, id⟩) (.modifyEndpoint ?_))
      exact .bufferDone hdone
    have hnone : E.currentTransfer = none := hcurrent.trans h
    obtain ⟨hs', heq, hcases⟩ := E.ownOne.stallWith_eq .halted
    refine ⟨E.ownOne.stallWith .halted, ?_, ?_, fun hhalted => ?_⟩
    · simp only [usbHandleTransfer, UsbState.modifyEndpoint_endpoint_self,
        UsbEndpoint.ownOne_currentTransfer, hnone]
      rw [usbHaltEndpoint, mscStall_eq hw₁ (by decide) hdepth]
      simp [UsbState.modifyEndpoint]
    · rw [heq]
      exact hnone
    · rw [heq, UsbEndpoint.setHalt_haltState]
      rcases hcases with rfl | ⟨rfl, -⟩
      · rfl
      · exact hhalt.trans hhalted

end Buffers

section NoTask

variable {vdReadBlock : Word → ℕ → Byte} {s : MscState} {depth : ℕ}

theorem mscStep_no_task {i : ℕ} {result : Word} (h : s.client.tasks.length ≤ i) :
    mscStep vdReadBlock depth s (.asyncComplete i result) = .ok s := by
  unfold mscStep
  dsimp only
  rw [List.getElem?_eq_none h]

end NoTask

/-! ## Pending chunks -/

/-- The task of the last call of `vd_write_block` has not ended, and its chunk is in
`_sector_buf`. -/
structure MscClient.Pending (call : SectorCall) (K : MscClient) : Prop where
  dir : call.dir = .dirOut
  tasks : K.tasks = [call.token]
  calls : K.calls.getLast? = some call
  sector : call.sector = sectorBytes K.sectorBuf
  sectorBuf : K.disk.sectorBuf = .ofSector K.sectorBuf

/-- The data that a task reads. -/
theorem MscClient.Pending.readData {call : SectorCall} {K : MscClient} (h : K.Pending call) {i : ℕ}
    (hi : i < 256) : K.disk.readData .uf2Data i = call.sector.getD (32 + i) 0 := by
  have hlt : 32 + i < 512 := by omega
  change K.disk.sectorBuf.data i = _
  rw [h.sectorBuf, h.sector, sectorBytes, List.getD_eq_getElem?_getD, List.getElem?_map,
    List.getElem?_range hlt]
  rfl

/-- The same chunk is pending. -/
structure MscClient.SameChunk (K' K : MscClient) : Prop where
  tasks : K'.tasks = K.tasks
  calls : K'.calls = K.calls
  buffer : K'.sectorBuf = K.sectorBuf
  disk : K'.disk.sectorBuf = K.disk.sectorBuf

theorem MscClient.SameChunk.trans {K K' K'' : MscClient} (h' : K''.SameChunk K')
    (h : K'.SameChunk K) : K''.SameChunk K :=
  ⟨h'.tasks.trans h.tasks, h'.calls.trans h.calls, h'.buffer.trans h.buffer,
    h'.disk.trans h.disk⟩

theorem MscClient.Pending.congr {call : SectorCall} {K K' : MscClient} (h : K.Pending call)
    (hK : K'.SameChunk K) : K'.Pending call :=
  ⟨h.dir, hK.tasks.trans h.tasks, by rw [hK.calls]; exact h.calls,
    by rw [hK.buffer]; exact h.sector, by rw [hK.disk, hK.buffer]; exact h.sectorBuf⟩

end PicoBootrom
