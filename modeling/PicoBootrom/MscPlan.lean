import PicoBootrom.MscUsb

/-!
# What a mass storage command is going to do

The commands fall into three kinds : those without data, those with a response that fits a packet,
and those that move sectors. `ScsiCbw.plan` says what the code makes of a command and of what the
host expects, before any data is moved : how many bytes it is going to move, the pipe it is going to
stall before the CSW, and whether the status is a phase error.

`Planned` is the state of the client with which a data phase begins. Every command gets there
(`mscCommand_none`, `mscCommand_response`, `Begun.initForDiOrDo`).
-/

set_option linter.unusedSectionVars false

namespace PicoBootrom

/-! ## The kinds of commands -/

/-- What a command moves. -/
inductive ScsiData
  | none
  | response (len : ℕ)
  | sectors (dir : ScsiDirection)
  deriving DecidableEq, Repr

/-- The kind of a command. -/
def ScsiCmd.data : ScsiCmd → ScsiData
  | .inquiry => .response 36
  | .modeSense6 => .response 4
  | .readFormatCapacities => .response 12
  | .readCapacity10 => .response 8
  | .requestSense => .response 18
  | .read10 => .sectors .dirIn
  | .write10 => .sectors .dirOut
  | _ => .none

theorem ScsiCmd.sectors_dirOut {cmd : ScsiCmd} {dir : ScsiDirection} (h : cmd.data = .sectors dir)
    (hdir : dir ≠ .dirIn) : dir = .dirOut := by
  cases cmd <;> simp [data] at h
  · exact absurd h.symm hdir
  · exact h.symm

namespace ScsiCbw

variable (cbw : ScsiCbw)

/-- `data_transfer_length`, as a number. -/
def hostLength : ℕ := cbw.dataTransferLength.toNat

/-- The number of bytes that the device wants to move. -/
def deviceLength : ℕ :=
  match cbw.cmd.data with
  | .none => 0
  | .response len => min len cbw.hostLength
  | .sectors _ => cbw.blocks.toNat * 512

/-- The direction in which the device wants to move them. -/
def deviceDir : ScsiDirection :=
  match cbw.cmd.data with
  | .none => .dirNone
  | .response _ => .dirIn
  | .sectors dir => dir

/-- The bytes of `len` that can be moved : sectors are moved in whole packets. -/
def wholePackets (len : ℕ) : ℕ :=
  match cbw.cmd.data with
  | .sectors _ => 64 * (len / 64)
  | _ => len

end ScsiCbw

/-- What is settled before the data phase. -/
structure ScsiPlan where
  moved : ℕ
  stall : ScsiDirection
  phaseError : Bool
  deriving DecidableEq, Repr

/-- What `_msc_init_for_dn` and `_msc_init_for_di_or_do` settle, with the rounding of
`_scsi_read_or_write_blocks`. -/
def ScsiCbw.plan (cbw : ScsiCbw) : ScsiPlan :=
  if cbw.cmd.data = .none then
    ⟨0, if cbw.hostLength ≠ 0 then cbw.dir else .dirNone, false⟩
  else if cbw.dir ≠ cbw.deviceDir then ⟨0, cbw.dir, true⟩
  else
    ⟨cbw.wholePackets (min cbw.deviceLength cbw.hostLength),
      if cbw.deviceLength ≠ cbw.hostLength then cbw.dir else .dirNone,
      decide (cbw.hostLength < cbw.deviceLength)⟩

/-! ## The client before a data phase -/

/-- The data of an accepted command, of which nothing has been moved. `K₀` is the client before it.
-/
structure Unmoved (cbw : ScsiCbw) (K₀ : MscClient) (K : MscClient) : Prop where
  accepted : K.accepted = K₀.accepted ++ [cbw]
  csws : K.csws = K₀.csws
  calls : K.calls = K₀.calls
  tag : K.msc.csw.tag = cbw.tag
  residue : K.msc.csw.residue = cbw.dataTransferLength
  completed : K.completed = 0
  transferred : K.transferred = 0
  tasks : K.tasks = []

/-- A command was accepted, and `_msc_init_for_dn` or `_msc_init_for_di_or_do` is still to be
called. -/
structure Begun (cbw : ScsiCbw) (K₀ : MscClient) (K : MscClient) : Prop
    extends Unmoved cbw K₀ K where
  status : K.msc.csw.status ≠ .phaseError
  passed : cbw.cmd.data ≠ .none → K.msc.csw.status = .commandPassed
  token : K.asyncToken = K₀.asyncToken

/-- The data phase of a command begins. -/
structure Planned (cbw : ScsiCbw) (K₀ : MscClient) (K : MscClient) : Prop
    extends Unmoved cbw K₀ K where
  stall : K.msc.stallDirectionBeforeCsw = cbw.plan.stall
  status : K.msc.csw.status = .phaseError ↔ cbw.plan.phaseError = true
  passed : cbw.cmd.data ≠ .none → cbw.plan.phaseError = false → K.msc.csw.status = .commandPassed

section Client

variable {cbw : ScsiCbw} {K₀ : MscClient} {K K' : MscClient}

theorem Unmoved.congr (h : Unmoved cbw K₀ K) (hcsw : K'.msc.csw = K.msc.csw)
    (haccepted : K'.accepted = K.accepted) (hcsws : K'.csws = K.csws) (hcalls : K'.calls = K.calls)
    (hcompleted : K'.completed = K.completed) (htransferred : K'.transferred = K.transferred)
    (htasks : K'.tasks = K.tasks) : Unmoved cbw K₀ K' where
  accepted := haccepted.trans h.accepted
  csws := hcsws.trans h.csws
  calls := hcalls.trans h.calls
  tag := by rw [hcsw, h.tag]
  residue := by rw [hcsw, h.residue]
  completed := hcompleted.trans h.completed
  transferred := htransferred.trans h.transferred
  tasks := htasks.trans h.tasks

theorem beginCommand_begun (cbw : ScsiCbw) (htasks : K.tasks = []) :
    Begun cbw K (K.beginCommand cbw) := by
  have hcsw : (K.msc.beginCommand cbw).csw =
      ⟨cswSig, cbw.tag, cbw.dataTransferLength, .commandPassed⟩ := by
    unfold Msc.beginCommand
    dsimp only
    split <;> rfl
  have hstatus : (K.beginCommand cbw).msc.csw.status = .commandPassed :=
    congrArg ScsiCsw.status hcsw
  refine ⟨⟨rfl, rfl, rfl, ?_, ?_, rfl, rfl, htasks⟩, ?_, fun _ => hstatus, rfl⟩
  · exact congrArg ScsiCsw.tag hcsw
  · exact congrArg ScsiCsw.residue hcsw
  · rw [hstatus]
    decide

/-- A command without data that fails. -/
theorem Begun.setCswFailed (h : Begun cbw K₀ K) (hdata : cbw.cmd.data = .none)
    (key asc ascq : Byte) : Begun cbw K₀ (K.modifyMsc (Msc.setCswFailed key asc ascq)) :=
  ⟨⟨h.accepted, h.csws, h.calls, h.tag, h.residue, h.completed, h.transferred, h.tasks⟩,
    fun hstatus => (by cases hstatus), fun hne => absurd hdata hne, h.token⟩

/-- Other parts of the client do not matter. -/
theorem Begun.congr (h : Begun cbw K₀ K) (hcsw : K'.msc.csw = K.msc.csw)
    (haccepted : K'.accepted = K.accepted) (hcsws : K'.csws = K.csws) (hcalls : K'.calls = K.calls)
    (hcompleted : K'.completed = K.completed) (htransferred : K'.transferred = K.transferred)
    (htasks : K'.tasks = K.tasks) (htoken : K'.asyncToken = K.asyncToken) : Begun cbw K₀ K' :=
  ⟨h.toUnmoved.congr hcsw haccepted hcsws hcalls hcompleted htransferred htasks, by
    rw [hcsw]
    exact h.status, by
    rw [hcsw]
    exact h.passed, htoken.trans h.token⟩

theorem Planned.congr (h : Planned cbw K₀ K) (hmsc : K'.msc = K.msc)
    (haccepted : K'.accepted = K.accepted) (hcsws : K'.csws = K.csws) (hcalls : K'.calls = K.calls)
    (hcompleted : K'.completed = K.completed) (htransferred : K'.transferred = K.transferred)
    (htasks : K'.tasks = K.tasks) : Planned cbw K₀ K' :=
  ⟨h.toUnmoved.congr (by rw [hmsc]) haccepted hcsws hcalls hcompleted htransferred htasks, by
    rw [hmsc]
    exact h.stall, by
    rw [hmsc]
    exact h.status, by
    rw [hmsc]
    exact h.passed⟩

theorem Begun.initForDn (h : Begun cbw K₀ K) (hdata : cbw.cmd.data = .none) :
    Planned cbw K₀ (K.modifyMsc (Msc.initForDn cbw)) where
  toUnmoved := h.toUnmoved.congr rfl rfl rfl rfl rfl rfl rfl
  stall := by
    have hzero : cbw.dataTransferLength ≠ 0 ↔ cbw.hostLength ≠ 0 := toNat_ne_zero
    simp only [MscClient.modifyMsc, Msc.initForDn, ScsiCbw.plan, if_pos hdata, hzero]
  status := by
    simp only [ScsiCbw.plan, if_pos hdata, Bool.false_eq_true, iff_false]
    exact h.status
  passed hne := absurd hdata hne

/-- `_msc_init_for_di_or_do`, with the length and the direction of the device. -/
theorem Begun.initForDiOrDo (h : Begun cbw K₀ K) (hdata : cbw.cmd.data ≠ .none)
    {expectedLength : Word} (hlen : expectedLength.toNat = cbw.deviceLength) :
    Planned cbw K₀ (K.modifyMsc (Msc.initForDiOrDo cbw expectedLength cbw.deviceDir)) ∧
      (K.msc.initForDiOrDo cbw expectedLength cbw.deviceDir).dataPhaseLength.toNat =
        if cbw.dir ≠ cbw.deviceDir then 0 else min cbw.deviceLength cbw.hostLength := by
  have hne : expectedLength ≠ cbw.dataTransferLength ↔ cbw.deviceLength ≠ cbw.hostLength := by
    rw [ne_eq, ← BitVec.toNat_inj, hlen, ScsiCbw.hostLength]
  have hlt : cbw.dataTransferLength < expectedLength ↔ cbw.hostLength < cbw.deviceLength := by
    rw [BitVec.lt_def, hlen, ScsiCbw.hostLength]
  by_cases hdir : cbw.dir = cbw.deviceDir
  · have hinit : K.msc.initForDiOrDo cbw expectedLength cbw.deviceDir =
        { K.msc with
          stallDirectionBeforeCsw :=
            if expectedLength ≠ cbw.dataTransferLength then cbw.deviceDir else .dirNone
          csw := { K.msc.csw with
            status := if cbw.dataTransferLength < expectedLength then .phaseError
              else K.msc.csw.status }
          dataPhaseLength :=
            if expectedLength < cbw.dataTransferLength then expectedLength
            else cbw.dataTransferLength } := if_neg (not_not_intro hdir)
    simp only [MscClient.modifyMsc, hinit]
    refine ⟨⟨⟨h.accepted, h.csws, h.calls, h.tag, h.residue, h.completed, h.transferred, h.tasks⟩,
      ?_, ?_, fun _ hphase => ?_⟩, ?_⟩
    · simp only [ScsiCbw.plan, if_neg hdata, hdir, ne_eq, not_true_eq_false, if_false, hne]
    · simp only [ScsiCbw.plan, if_neg hdata, hdir, ne_eq, not_true_eq_false, if_false, hlt,
        decide_eq_true_eq]
      split
      · next hmore => simp [hmore]
      · next hmore => simp [hmore, h.status]
    · simp only [ScsiCbw.plan, if_neg hdata, hdir, ne_eq, not_true_eq_false, if_false,
        decide_eq_false_iff_not, ← hlt] at hphase
      rw [if_neg hphase]
      exact h.passed hdata
    · rw [if_neg (not_not_intro hdir), min_def, ← hlen, ScsiCbw.hostLength]
      simp only [BitVec.lt_def]
      split <;> split <;> omega
  · have hinit : K.msc.initForDiOrDo cbw expectedLength cbw.deviceDir =
        { K.msc with
          stallDirectionBeforeCsw := cbw.dir
          csw := { K.msc.csw with status := .phaseError }
          dataPhaseLength := 0 } := if_pos hdir
    simp only [MscClient.modifyMsc, hinit]
    refine ⟨⟨⟨h.accepted, h.csws, h.calls, h.tag, h.residue, h.completed, h.transferred, h.tasks⟩,
      ?_, ?_, fun _ hphase => ?_⟩, ?_⟩
    · simp only [ScsiCbw.plan, if_neg hdata, if_pos hdir]
    · simp only [ScsiCbw.plan, if_neg hdata, if_pos hdir]
    · rw [ScsiCbw.plan, if_neg hdata, if_pos hdir] at hphase
      cases hphase
    · rw [if_pos hdir]
      rfl

/-- A transfer has something to move : the directions agree. -/
theorem ScsiCbw.plan_moved (hdata : cbw.cmd.data ≠ .none) :
    cbw.plan.moved = cbw.wholePackets
      (if cbw.dir ≠ cbw.deviceDir then 0 else min cbw.deviceLength cbw.hostLength) := by
  unfold plan
  rw [if_neg hdata]
  split
  · cases hcmd : cbw.cmd.data <;> simp [wholePackets, hcmd]
  · rfl

theorem ScsiCbw.plan_moved_none (hdata : cbw.cmd.data = .none) : cbw.plan.moved = 0 := by
  rw [plan, if_pos hdata]

end Client

/-! ## The commands -/

section Commands

variable {vdReadBlock : Word → ℕ → Byte} {c : MscCalls} {s : MscState} {cbw : ScsiCbw}
  {K₀ : MscClient}

/-- A command without data. -/
theorem mscCommand_none (hdata : cbw.cmd.data = .none) (hK : Begun cbw K₀ s.client) :
    ∃ K, Planned cbw K₀ K ∧
      mscCommand c vdReadBlock cbw s = mscDataPhaseComplete c (s.modifyClient fun _ => K) := by
  have hdn (g : MscClient → MscClient) (hg : Begun cbw K₀ (g s.client)) :
      ∃ K, Planned cbw K₀ K ∧ mscInitForDn c cbw (s.modifyClient g) =
        mscDataPhaseComplete c (s.modifyClient fun _ => K) :=
    ⟨_, hg.initForDn hdata, rfl⟩
  unfold mscCommand
  cases hcmd : cbw.cmd with
  | testUnitReady =>
    change ∃ K, _ ∧ scsiHandleTestUnitReady c cbw s = _
    unfold scsiHandleTestUnitReady
    split
    · exact hdn _ (hK.setCswFailed hdata _ _ _)
    · exact hdn id hK
  | startStopUnit =>
    change ∃ K, _ ∧ scsiHandleStartStopUnit c cbw s = _
    unfold scsiHandleStartStopUnit
    split
    · exact hdn _ (hK.congr rfl rfl rfl rfl rfl rfl rfl rfl)
    · exact hdn id hK
  | other => exact hdn _ (hK.setCswFailed hdata _ _ _)
  | preventAllowMediumRemoval => exact hdn id hK
  | verify => exact hdn id hK
  | synchronizeCache => exact hdn id hK
  | requestSense => simp [hcmd, ScsiCmd.data] at hdata
  | inquiry => simp [hcmd, ScsiCmd.data] at hdata
  | modeSense6 => simp [hcmd, ScsiCmd.data] at hdata
  | readFormatCapacities => simp [hcmd, ScsiCmd.data] at hdata
  | readCapacity10 => simp [hcmd, ScsiCmd.data] at hdata
  | read10 => simp [hcmd, ScsiCmd.data] at hdata
  | write10 => simp [hcmd, ScsiCmd.data] at hdata

/-- A command with a response. -/
theorem mscCommand_response {len : ℕ} (hdata : cbw.cmd.data = .response len)
    (hK : Begun cbw K₀ s.client) :
    0 < len ∧ len < 64 ∧ ∃ bytes K, bytes.length = len ∧ Begun cbw K₀ K ∧
      mscCommand c vdReadBlock cbw s = scsiStandardResponse c cbw
        ((mscResponseBuffer bytes s).modifyClient fun _ => K) := by
  unfold mscCommand
  cases hcmd : cbw.cmd with
  | requestSense =>
    obtain rfl : 18 = len := by simpa [hcmd, ScsiCmd.data] using hdata
    exact ⟨by omega, by omega, s.client.msc.requestSense.bytes,
      s.client.modifyMsc (Msc.setSense 0 0 0), rfl, hK.congr rfl rfl rfl rfl rfl rfl rfl rfl, rfl⟩
  | inquiry =>
    obtain rfl : 36 = len := by simpa [hcmd, ScsiCmd.data] using hdata
    exact ⟨by omega, by omega, scsiIr, s.client, rfl, hK, rfl⟩
  | modeSense6 =>
    obtain rfl : 4 = len := by simpa [hcmd, ScsiCmd.data] using hdata
    exact ⟨by omega, by omega, modeSenseResponse, s.client, rfl, hK, rfl⟩
  | readFormatCapacities =>
    obtain rfl : 12 = len := by simpa [hcmd, ScsiCmd.data] using hdata
    exact ⟨by omega, by omega, readFormatCapacitiesResponse, s.client, rfl, hK, rfl⟩
  | readCapacity10 =>
    obtain rfl : 8 = len := by simpa [hcmd, ScsiCmd.data] using hdata
    exact ⟨by omega, by omega, readCapacityResponse, s.client, rfl, hK, rfl⟩
  | testUnitReady => simp [hcmd, ScsiCmd.data] at hdata
  | startStopUnit => simp [hcmd, ScsiCmd.data] at hdata
  | other => simp [hcmd, ScsiCmd.data] at hdata
  | preventAllowMediumRemoval => simp [hcmd, ScsiCmd.data] at hdata
  | verify => simp [hcmd, ScsiCmd.data] at hdata
  | synchronizeCache => simp [hcmd, ScsiCmd.data] at hdata
  | read10 => simp [hcmd, ScsiCmd.data] at hdata
  | write10 => simp [hcmd, ScsiCmd.data] at hdata

/-- `READ_10` or `WRITE_10`. -/
theorem mscCommand_sectors {dir : ScsiDirection} (hdata : cbw.cmd.data = .sectors dir) :
    mscCommand c vdReadBlock cbw s = scsiReadOrWriteBlocks c vdReadBlock cbw cbw.lba
      (cbw.blocks.setWidth 32) dir s := by
  unfold mscCommand
  cases hcmd : cbw.cmd <;> simp [hcmd, ScsiCmd.data] at hdata
  · subst hdata
    rfl
  · subst hdata
    rfl

end Commands

end PicoBootrom
