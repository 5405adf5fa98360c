import PicoBootrom.AddressChecks

/-!
# Flash operations on the SPI bus

Each flash function of the ROM takes an address in the flash window, and puts a command and the
offset of the address from `XIP_MAIN_BASE` on the bus. `flash_put_cmd_addr` puts the command into
the top byte of the offset by an `or`, so the first byte is the command only if the offset has 24
bits (`flashPutCmdAddr_eq`), as the assertions of its callers say.

The window that `_execute_task` checks is larger : it ends at `SRAM_BASE`, 256 MiB above its start,
and the 24 bits of an offset reach 16 MiB. `flash_calls_on_bus_iff` says which tasks that pass the
checks keep to these (`AsyncTask.InChip`).
-/

namespace PicoBootrom

/-! ## Frames -/

def flashcmdPageProgram : Byte := 0x02
def flashcmdReadData : Byte := 0x03
def flashcmdSectorErase : Byte := 0x20

/-- The loop of `flash_put_cmd_addr`, with the bytes it gives to `ssi->dr0`. -/
def putTopBytes : ℕ → Word → List Byte
  | 0, _ => []
  | n + 1, addr => (addr >>> 24).setWidth 8 :: putTopBytes n (addr <<< 8)

/-- `flash_put_cmd_addr`. -/
def flashPutCmdAddr (cmd : Byte) (addr : Word) : List Byte :=
  putTopBytes 4 (addr ||| cmd.setWidth 32 <<< 24)

/-- A byte of an offset. -/
def byteOf (addr : Word) (i : ℕ) : Byte :=
  (addr >>> (8 * i)).setWidth 8

/-- The byte that the loop takes from the top after `k` turns. -/
theorem topByte_shiftLeft (addr : Word) {k : ℕ} (hk : k < 4) :
    ((addr <<< (8 * k)) >>> 24).setWidth 8 = byteOf addr (3 - k) := by
  ext i hi
  simp only [byteOf, BitVec.getElem_setWidth, BitVec.getLsbD_ushiftRight, BitVec.getLsbD_shiftLeft]
  have hindex : 24 + i - 8 * k = 8 * (3 - k) + i := by omega
  simp [hindex, show 24 + i < 32 by omega, show ¬24 + i < 8 * k by omega]

theorem byteOf_or_command (cmd : Byte) (addr : Word) {i : ℕ} (hi : i < 4) :
    byteOf (addr ||| cmd.setWidth 32 <<< 24) i =
      if i = 3 then cmd ||| byteOf addr 3 else byteOf addr i := by
  ext j hj
  by_cases htop : i = 3
  · subst htop
    simp [byteOf, show 24 + j < 32 by omega, show j < 32 by omega,
      BitVec.getLsbD_eq_getElem hj]
    exact Bool.or_comm _ _
  · simp [byteOf, htop, show 8 * i + j < 24 by omega]

/-- The command shares its byte with the top byte of the offset. -/
theorem flashPutCmdAddr_eq_or (cmd : Byte) (addr : Word) :
    flashPutCmdAddr cmd addr =
      [cmd ||| byteOf addr 3, byteOf addr 2, byteOf addr 1, byteOf addr 0] := by
  have hturn {k : ℕ} (hk : k < 4) := topByte_shiftLeft (addr ||| cmd.setWidth 32 <<< 24) hk
  have hloop : flashPutCmdAddr cmd addr =
      [byteOf (addr ||| cmd.setWidth 32 <<< 24) 3, byteOf (addr ||| cmd.setWidth 32 <<< 24) 2,
        byteOf (addr ||| cmd.setWidth 32 <<< 24) 1,
        byteOf (addr ||| cmd.setWidth 32 <<< 24) 0] := by
    simp only [flashPutCmdAddr, putTopBytes, ← BitVec.shiftLeft_add]
    rw [← hturn (show 1 < 4 by omega), ← hturn (show 2 < 4 by omega), ← hturn (show 3 < 4 by omega)]
    rfl
  rw [hloop, byteOf_or_command _ _ (by omega), byteOf_or_command _ _ (by omega),
    byteOf_or_command _ _ (by omega), byteOf_or_command _ _ (by omega)]
  rfl

/-- On an offset of 24 bits, the frame is the command and the three bytes of the offset. -/
theorem flashPutCmdAddr_eq {addr : Word} (h : addr.toNat < 0x1000000) (cmd : Byte) :
    flashPutCmdAddr cmd addr = [cmd, byteOf addr 2, byteOf addr 1, byteOf addr 0] := by
  have htop : byteOf addr 3 = 0#8 := by
    refine BitVec.eq_of_toNat_eq ?_
    rw [byteOf, BitVec.toNat_setWidth, BitVec.toNat_ushiftRight, Nat.shiftRight_eq_div_pow]
    exact (Nat.div_eq_of_lt h).symm ▸ rfl
  rw [flashPutCmdAddr_eq_or, htop, BitVec.or_zero]

/-! ## Operations and their frames -/

/-- What a flash function of the ROM calls `flash_put_cmd_addr` with : `flash_sector_erase`,
`flash_page_program` and `flash_read_data`, with the offset that they get. -/
def FlashOp.call : FlashOp → Option (Byte × Word)
  | .enterCmdXip => none
  | .exitXip => none
  | .eraseSector addr => some (flashcmdSectorErase, addr - xipMainBase)
  | .pageProgram addr => some (flashcmdPageProgram, addr - xipMainBase)
  | .pageRead addr => some (flashcmdReadData, addr - xipMainBase)

/-- The offset of the operation passes the assertion, and the frame on the bus is its command and
its location. -/
def FlashOp.OnBus (op : FlashOp) : Prop :=
  ∀ cmd offset, op.call = some (cmd, offset) → offset.toNat < 0x1000000 ∧
    flashPutCmdAddr cmd offset = [cmd, byteOf offset 2, byteOf offset 1, byteOf offset 0]

/-- The end of the 16 MiB that 24 bits of an offset reach. -/
def chipEnd : Word := 0x11000000

theorem FlashOp.onBus_of_none {op : FlashOp} (h : op.call = none) : op.OnBus := by
  intro cmd offset hcall
  rw [h] at hcall
  cases hcall

/-- An operation in the flash window keeps to its frame if it is in the first 16 MiB. -/
theorem FlashOp.onBus_iff {op : FlashOp} {cmd : Byte} {addr : Word}
    (h : op.call = some (cmd, addr - xipMainBase)) (hbase : xipMainBase.toNat ≤ addr.toNat) :
    op.OnBus ↔ addr < chipEnd := by
  have hoffset : (addr - xipMainBase).toNat = addr.toNat - xipMainBase.toNat :=
    BitVec.toNat_sub_of_le hbase
  have hlt : addr < chipEnd ↔ (addr - xipMainBase).toNat < 0x1000000 := by
    rw [hoffset, BitVec.lt_def, show chipEnd.toNat = 0x11000000 from rfl]
    have hmain : xipMainBase.toNat = 0x10000000 := rfl
    omega
  rw [hlt]
  refine ⟨fun hbus => (hbus _ _ h).1, fun hsmall cmd' offset hcall => ?_⟩
  obtain ⟨rfl, rfl⟩ := Prod.mk.inj (Option.some.inj (h.symm.trans hcall))
  exact ⟨hsmall, flashPutCmdAddr_eq hsmall _⟩

/-! ## The operations of a task -/

/-- The task transfers one way at most, and does nothing else than erasing and leaving XIP mode. -/
structure AsyncTask.OnlyTransfers (task : AsyncTask) : Prop where
  vectorize : task.has atVectorizeFlash = false
  exclusive : task.has atExclusive = false
  exec : task.has atExec = false
  enter : task.has atEnterCmdXip = false
  oneWay : task.has atWrite = false ∨ task.has atRead = false

/-- The address checks of `_execute_task` let the task through. -/
def AsyncTask.PassesChecks (task : AsyncTask) : Prop :=
  (task.has atFlashErase = true → EraseAccepted task.eraseAddr task.eraseSize) ∧
    (task.has (atWrite ||| atRead) = true → task.directAccess = true ∨
      isAddressFlash task.transferAddr = true ∧
        isAddressFlash (task.transferAddr + task.dataLength) = true ∧
        task.transferAddr.toNat % 256 = 0)

instance (task : AsyncTask) : Decidable task.PassesChecks :=
  inferInstanceAs (Decidable (_ ∧ _))

/-- The sectors that the task erases. A range that wraps around has none. -/
def AsyncTask.erasedSectors (task : AsyncTask) : List Word :=
  sectorsFrom task.eraseAddr
    (((task.eraseAddr + task.eraseSize).toNat - task.eraseAddr.toNat) / 4096)

/-- The flash operations of the transfer. -/
def AsyncTask.transferOps (task : AsyncTask) : List FlashOp :=
  if task.directAccess then []
  else (if task.has atWrite then [.pageProgram task.transferAddr] else []) ++
    (if task.has atRead then [.pageRead task.transferAddr] else [])

/-- The flash operations of the task, in their order. -/
def AsyncTask.flashOps (task : AsyncTask) : List FlashOp :=
  (if task.has atExitXip then [.exitXip] else []) ++
    (if task.has atFlashErase then task.erasedSectors.map .eraseSector else []) ++
    task.transferOps

/-- The sectors and the page of the task are in the first 16 MiB of the window. -/
def AsyncTask.InChip (task : AsyncTask) : Prop :=
  (task.has atFlashErase = true → task.eraseAddr < task.eraseAddr + task.eraseSize →
      task.eraseAddr + task.eraseSize ≤ chipEnd) ∧
    (task.has (atWrite ||| atRead) = true → task.directAccess = false →
      task.transferAddr < chipEnd)

instance (task : AsyncTask) : Decidable task.InChip :=
  inferInstanceAs (Decidable (_ ∧ _))

section Ops

variable {task : AsyncTask}

/-- The sectors of an accepted range start at its address and end at its end. -/
theorem mem_erasedSectors (h : EraseAccepted task.eraseAddr task.eraseSize) {s : Word} :
    s ∈ task.erasedSectors ↔ ∃ i, s.toNat = task.eraseAddr.toNat + 4096 * i ∧
      s.toNat + 4096 ≤ (task.eraseAddr + task.eraseSize).toNat := by
  obtain ⟨haddr, hsize, hstart, hstop⟩ := h
  rw [isAddressFlash_iff] at hstart hstop
  have halign : (task.eraseAddr + task.eraseSize).toNat % 4096 = 0 := by
    rw [BitVec.toNat_add]
    omega
  rw [AsyncTask.erasedSectors, mem_sectorsFrom (by omega)]
  refine exists_congr fun i => ?_
  omega

/-- The sectors of an accepted range are in the first 16 MiB if its end is. -/
theorem erasedSectors_inChip (h : EraseAccepted task.eraseAddr task.eraseSize) :
    (∀ s ∈ task.erasedSectors, s < chipEnd) ↔
      (task.eraseAddr < task.eraseAddr + task.eraseSize →
        task.eraseAddr + task.eraseSize ≤ chipEnd) := by
  simp only [mem_erasedSectors h, BitVec.lt_def, BitVec.le_def,
    show chipEnd.toNat = 0x11000000 from rfl]
  obtain ⟨haddr, hsize, hstart, hstop⟩ := h
  rw [isAddressFlash_iff] at hstart hstop
  have halign : (task.eraseAddr + task.eraseSize).toNat % 4096 = 0 := by
    rw [BitVec.toNat_add]
    omega
  constructor
  · intro hall hlt
    -- the last sector decides
    have hlast : (task.eraseAddr + task.eraseSize - flashSectorEraseSize).toNat =
        (task.eraseAddr + task.eraseSize).toNat - 4096 :=
      BitVec.toNat_sub_of_le (by rw [BitVec.le_def]; change 4096 ≤ _; omega)
    have hbelow := hall (task.eraseAddr + task.eraseSize - flashSectorEraseSize)
      ⟨((task.eraseAddr + task.eraseSize).toNat - 4096 - task.eraseAddr.toNat) / 4096,
        by omega, by omega⟩
    omega
  · rintro hend s ⟨i, hs, hle⟩
    have hle' := hend (by omega)
    omega

theorem mem_flashOps (op : FlashOp) : op ∈ task.flashOps ↔
    (task.has atExitXip = true ∧ op = .exitXip) ∨
      (task.has atFlashErase = true ∧ ∃ s ∈ task.erasedSectors, op = .eraseSector s) ∨
      (task.directAccess = false ∧ (task.has atWrite = true ∧ op = .pageProgram task.transferAddr ∨
        task.has atRead = true ∧ op = .pageRead task.transferAddr)) := by
  unfold AsyncTask.flashOps AsyncTask.transferOps
  cases task.has atExitXip <;> cases task.has atFlashErase <;> cases task.directAccess <;>
    cases task.has atWrite <;> cases task.has atRead <;> simp [eq_comm]

/-- All operations of the task keep to their frames if and only if its locations are in the first
16 MiB. -/
theorem flashOps_onBus_iff (hpass : task.PassesChecks) :
    (∀ op ∈ task.flashOps, op.OnBus) ↔ task.InChip := by
  obtain ⟨herase, htransfer⟩ := hpass
  have hsector (h : task.has atFlashErase = true) {s : Word} (hs : s ∈ task.erasedSectors) :
      (FlashOp.eraseSector s).OnBus ↔ s < chipEnd := by
    obtain ⟨i, hi, -⟩ := (mem_erasedSectors (herase h)).1 hs
    have hbase := (isAddressFlash_iff _).1 (herase h).2.2.1
    exact FlashOp.onBus_iff rfl (by rw [show xipMainBase.toNat = 0x10000000 from rfl]; omega)
  have hpage (h : task.has (atWrite ||| atRead) = true) (hdirect : task.directAccess = false)
      {op : FlashOp} {cmd : Byte} (hop : op.call = some (cmd, task.transferAddr - xipMainBase)) :
      op.OnBus ↔ task.transferAddr < chipEnd := by
    rcases htransfer h with hin | ⟨hflash, -⟩
    · rw [hdirect] at hin
      cases hin
    · exact FlashOp.onBus_iff hop ((isAddressFlash_iff _).1 hflash).1
  constructor
  · intro hall
    refine ⟨fun h => (erasedSectors_inChip (herase h)).1 fun s hs => ?_, fun h hdirect => ?_⟩
    · exact (hsector h hs).1 (hall _ ((mem_flashOps _).2 (.inr (.inl ⟨h, s, hs, rfl⟩))))
    · have hone := h
      rw [AsyncTask.has_or, Bool.or_eq_true] at hone
      rcases hone with hwrite | hread
      · exact (hpage h hdirect rfl).1
          (hall _ ((mem_flashOps _).2 (.inr (.inr ⟨hdirect, .inl ⟨hwrite, rfl⟩⟩))))
      · exact (hpage h hdirect rfl).1
          (hall _ ((mem_flashOps _).2 (.inr (.inr ⟨hdirect, .inr ⟨hread, rfl⟩⟩))))
  · rintro ⟨hsectors, haddr⟩ op hop
    rcases (mem_flashOps op).1 hop with ⟨-, rfl⟩ | ⟨h, s, hs, rfl⟩ |
      ⟨hdirect, ⟨hwrite, rfl⟩ | ⟨hread, rfl⟩⟩
    · exact FlashOp.onBus_of_none rfl
    · exact (hsector h hs).2 ((erasedSectors_inChip (herase h)).2 (hsectors h) s hs)
    · have h : task.has (atWrite ||| atRead) = true := by rw [AsyncTask.has_or, hwrite]; rfl
      exact (hpage h hdirect rfl).2 (haddr h hdirect)
    · have h : task.has (atWrite ||| atRead) = true := by
        rw [AsyncTask.has_or, hread, Bool.or_true]
      exact (hpage h hdirect rfl).2 (haddr h hdirect)

end Ops

/-! ## The stages of `_execute_task` on the ROM's functions -/

/-- With the functions of the ROM, the stage performs the operations, or the first ones of them if
it stops with an error, which it does not do for a task of the source `src` that goes on from its
own mutations. -/
structure TaskStep.Performs (env : Env) (src : TaskSource) (s : TaskStep) (ops : List FlashOp) :
    Prop where
  ops (m : Machine) (hm : m.funcs env = defaultFlashFuncs) :
    ∃ done, done <+: ops ∧ (s m).1.flash.ops = m.flash.ops ++ done ∧
      ((s m).2 = 0 → done = ops)
  ok (m : Machine) (hm : m.funcs env = defaultFlashFuncs) (hsrc : m.lastMutationSource = src) :
    (s m).2 = 0

/-- The stage does not change which functions run, nor away from the source `src`. -/
def TaskStep.KeepsFuncs (env : Env) (src : TaskSource) (s : TaskStep) : Prop :=
  ∀ m, (s m).1.funcs env = m.funcs env ∧
    (m.lastMutationSource = src → (s m).1.lastMutationSource = src)

section Stages

variable {env : Env} {src : TaskSource} {s s' : TaskStep} {ops ops' : List FlashOp}
  {task : AsyncTask}

theorem TaskStep.Performs.of_ok (h : ∀ m, m.funcs env = defaultFlashFuncs →
    (s m).1.flash.ops = m.flash.ops ++ ops ∧ (s m).2 = 0) : s.Performs env src ops where
  ops m hm := ⟨ops, List.prefix_refl ops, (h m hm).1, fun _ => rfl⟩
  ok m hm _ := (h m hm).2

theorem TaskStep.Performs.of_skip (h : ∀ m, s m = (m, 0)) : s.Performs env src [] :=
  .of_ok fun m _ => by
    rw [h]
    exact ⟨(List.append_nil _).symm, rfl⟩

theorem TaskStep.Performs.andThen (hs : s.Performs env src ops) (hkeep : s.KeepsFuncs env src)
    (hs' : s'.Performs env src ops') : (s.andThen s').Performs env src (ops ++ ops') where
  ops m hm := by
    obtain ⟨done, hstart, hdone, hall⟩ := hs.ops m hm
    by_cases hok : (s m).2 = 0
    · obtain rfl := hall hok
      obtain ⟨done', hstart', hdone', hall'⟩ := hs'.ops (s m).1 ((hkeep m).1.trans hm)
      rw [TaskStep.andThen_of_ok (Prod.ext rfl hok)]
      refine ⟨done ++ done', (List.prefix_append_right_inj done).2 hstart', ?_, fun h => ?_⟩
      · rw [hdone', hdone, List.append_assoc]
      · rw [hall' h]
    · rw [TaskStep.andThen_of_error (Prod.ext rfl rfl) hok]
      exact ⟨done, hstart.trans (List.prefix_append ops ops'), hdone, fun h => absurd h hok⟩
  ok m hm hsrc := by
    rw [TaskStep.andThen_of_ok (Prod.ext rfl (hs.ok m hm hsrc))]
    exact hs'.ok _ ((hkeep m).1.trans hm) ((hkeep m).2 hsrc)

theorem executeExitXip_performs :
    (executeExitXip env task).Performs env src
      (if task.has atExitXip then [.exitXip] else []) := by
  refine .of_ok fun m hm => ?_
  unfold executeExitXip
  split
  · rw [hm]
    exact ⟨rfl, rfl⟩
  · exact ⟨(List.append_nil _).symm, rfl⟩

theorem executeExitXip_keepsFuncs : (executeExitXip env task).KeepsFuncs env src := by
  intro m
  unfold executeExitXip
  split <;> exact ⟨rfl, id⟩

theorem executeMutationSource_performs :
    (executeMutationSource task).Performs env task.source [] where
  ops m _ := by
    refine ⟨[], List.prefix_refl [], ?_, fun _ => rfl⟩
    rw [List.append_nil]
    unfold executeMutationSource
    split
    · split <;> rfl
    · rfl
  ok m _ hsrc := by
    unfold executeMutationSource
    rw [hsrc, bne_self_eq_false, Bool.and_false, if_neg Bool.false_ne_true]
    split <;> rfl

theorem executeMutationSource_keepsFuncs :
    (executeMutationSource task).KeepsFuncs env task.source := by
  intro m
  unfold executeMutationSource
  split
  · split
    · exact ⟨rfl, id⟩
    · exact ⟨rfl, fun _ => rfl⟩
  · exact ⟨rfl, id⟩

/-- The functions of the ROM erase each sector of an accepted range. -/
theorem doFlashEraseRange_ops (h : EraseAccepted task.eraseAddr task.eraseSize)
    (d : FlashDevice) :
    (doFlashEraseRange doFlashEraseSector task.eraseAddr task.eraseSize d).1.ops =
      d.ops ++ task.erasedSectors.map .eraseSector := by
  obtain ⟨haddr, hsize, -, -⟩ := h
  have hstop : (task.eraseAddr + task.eraseSize).toNat % 4096 = 0 := by
    rw [BitVec.toNat_add]
    omega
  have hturns : ((task.eraseAddr + task.eraseSize).toNat - task.eraseAddr.toNat + 4095) / 4096 =
      ((task.eraseAddr + task.eraseSize).toNat - task.eraseAddr.toNat) / 4096 := by omega
  rw [doFlashEraseRange, hturns, AsyncTask.erasedSectors]
  by_cases hle : task.eraseAddr.toNat ≤ (task.eraseAddr + task.eraseSize).toNat
  · obtain ⟨k, h⟩ := @eraseRangeLoop_outcome doFlashEraseSector _
      (((task.eraseAddr + task.eraseSize).toNat - task.eraseAddr.toNat) / 4096) _
      (show task.eraseAddr.toNat + 4096 * _ = (task.eraseAddr + task.eraseSize).toNat by omega) d
    rw [h.device, (h.ok (eraseRangeLoop_ok _ _ _ _)).1, ops_eraseEach]
  · rw [Nat.sub_eq_zero_of_le (by omega)]
    exact (List.append_nil _).symm

theorem executeFlashErase_performs
    (h : task.has atFlashErase = true → EraseAccepted task.eraseAddr task.eraseSize) :
    (executeFlashErase env task).Performs env src
      (if task.has atFlashErase then task.erasedSectors.map .eraseSector else []) := by
  refine .of_ok fun m hm => ?_
  rcases executeFlashErase_cases env task m with
    ⟨herase, hacc, heq⟩ | ⟨herase, hrejected, -⟩ | ⟨hno, heq⟩
  · rw [if_pos herase, heq, hm]
    exact ⟨doFlashEraseRange_ops hacc m.flash, eraseRangeLoop_ok _ _ _ _⟩
  · exact absurd (h herase) hrejected
  · rw [if_neg (Bool.eq_false_iff.1 hno), heq]
    exact ⟨(List.append_nil _).symm, rfl⟩

theorem executeFlashErase_keepsFuncs : (executeFlashErase env task).KeepsFuncs env src := by
  intro m
  rcases executeFlashErase_cases env task m with
    ⟨-, -, heq⟩ | ⟨-, -, status, -, heq⟩ | ⟨-, heq⟩
  · rw [heq]
    exact ⟨rfl, id⟩
  · rw [heq]
    exact ⟨rfl, id⟩
  · rw [heq]
    exact ⟨rfl, id⟩

theorem executeAddressCheck_of_passes (hpass : task.PassesChecks)
    (htransfer : task.has (atWrite ||| atRead) = true) (m : Machine) :
    executeAddressCheck task m = (m, 0) := by
  unfold executeAddressCheck
  rcases hpass.2 htransfer with hdirect | ⟨hstart, hend, halign⟩
  · rw [if_pos hdirect]
  · have halign' : task.transferAddr &&& (flashPageSize - 1) = 0 :=
      (and_pageMask_eq_zero _).2 halign
    rw [hstart, hend, Bool.and_self, if_pos rfl, if_neg (not_not.2 halign'), ite_self]

theorem AsyncTask.transferOps_of_none (hwrite : task.has atWrite = false)
    (hread : task.has atRead = false) : task.transferOps = [] := by
  rw [AsyncTask.transferOps, hwrite, hread]
  exact ite_self _

theorem executeWrite_performs (hread : task.has atRead = false) :
    (executeWrite env task).Performs env src task.transferOps := by
  by_cases hwrite : task.has atWrite = true
  · refine .of_ok fun m hm => ?_
    unfold executeWrite AsyncTask.transferOps
    rw [if_pos hwrite, if_pos hwrite]
    split
    · refine ⟨?_, rfl⟩
      rw [List.append_nil, Machine.revertFlashFuncs_eq]
    · rw [hread, hm]
      exact ⟨rfl, rfl⟩
  · have hnone := Bool.eq_false_iff.2 hwrite
    rw [AsyncTask.transferOps_of_none hnone hread]
    exact .of_skip (executeWrite_of_not env hnone)

theorem executeRead_performs (hwrite : task.has atWrite = false) :
    (executeRead env task).Performs env src task.transferOps := by
  have hkeeps (m : Machine) (n : ℕ) (bytes : ℕ → Byte) :
      (m.writeData task.data n bytes).flash = m.flash := by
    cases task.data <;> rfl
  by_cases hread : task.has atRead = true
  · refine .of_ok fun m hm => ?_
    unfold executeRead AsyncTask.transferOps
    rw [if_pos hread, if_pos hread]
    split
    · exact ⟨by rw [hkeeps, List.append_nil], rfl⟩
    · rw [hwrite, hkeeps, hm]
      exact ⟨rfl, rfl⟩
  · have hnone := Bool.eq_false_iff.2 hread
    rw [AsyncTask.transferOps_of_none hwrite hnone]
    exact .of_skip (executeRead_of_not env hnone)

theorem executeTransfer_performs (htask : task.OnlyTransfers) (hpass : task.PassesChecks) :
    (executeTransfer env task).Performs env src task.transferOps := by
  by_cases htransfer : task.has (atWrite ||| atRead) = true
  · have hstages : executeTransfer env task =
        (executeWrite env task).andThen (executeRead env task) := by
      funext m
      rw [executeTransfer, if_pos htransfer,
        TaskStep.andThen_of_skip (executeAddressCheck_of_passes hpass htransfer),
        TaskStep.andThen_skip _ (executeEnterCmdXip_of_not env htask.enter)]
    rw [hstages]
    rcases htask.oneWay with hwrite | hread
    · rw [TaskStep.andThen_of_skip (executeWrite_of_not env hwrite)]
      exact executeRead_performs hwrite
    · rw [TaskStep.andThen_skip _ (executeRead_of_not env hread)]
      exact executeWrite_performs hread
  · have hnone := Bool.eq_false_iff.2 htransfer
    have hneither := hnone
    rw [AsyncTask.has_or, Bool.or_eq_false_iff] at hneither
    rw [AsyncTask.transferOps_of_none hneither.1 hneither.2]
    exact .of_skip (executeTransfer_of_not env hnone)

/-- The stages of a task that passes the checks. -/
theorem executeStages_performs (htask : task.OnlyTransfers) (hpass : task.PassesChecks) :
    ((executeVectorizeFlash env task).andThen <| (executeExclusive task).andThen <|
      (executeExitXip env task).andThen <| (executeExec env task).andThen <|
      (executeMutationSource task).andThen <| (executeFlashErase env task).andThen <|
      executeTransfer env task).Performs env task.source task.flashOps := by
  rw [TaskStep.andThen_of_skip (executeVectorizeFlash_of_not env htask.vectorize),
    TaskStep.andThen_of_skip (executeExclusive_of_not htask.exclusive),
    TaskStep.andThen_of_skip (executeExec_of_not env htask.exec), AsyncTask.flashOps,
    List.append_assoc]
  exact executeExitXip_performs.andThen executeExitXip_keepsFuncs <|
    executeMutationSource_performs.andThen executeMutationSource_keepsFuncs <|
    (executeFlashErase_performs hpass.1).andThen executeFlashErase_keepsFuncs <|
    executeTransfer_performs htask hpass

end Stages

/-! ## The tasks that reach the flash chip -/

/-- The tasks of UF2 pages, and those of the PICOBOOT commands that write, read or erase. -/
inductive FlashTask : AsyncTask → Prop
  | page {uf2 : Uf2Block} {token : Word} {d d₁ d₂ : VirtualDisk}
      (h : updateCurrentUf2Info uf2 token d = (d₁, true))
      (hqueue : writeUf2Page d₁ = (d₂, true)) : FlashTask d₂.virtualDiskQueue.task
  | command {p : Picoboot} {cmd : PicobootCmd} {addr len : Word} {task : AsyncTask}
      {act : PicobootAct} (hqueues : p.Queues cmd addr len task) (hact : cmd.act = some act)
      (hkind : act = .read ∨ act = .write ∨ act = .flashErase) : FlashTask task

theorem FlashTask.onlyTransfers {task : AsyncTask} (h : FlashTask task) : task.OnlyTransfers := by
  cases h with
  | @page uf2 token _ _ _ h hqueue =>
    obtain ⟨opens, erases, htask, -⟩ := queued_pageTask h hqueue
    obtain ⟨hvectorize, hexclusive, hexec, -, -, hread, henter⟩ :=
      pageTask_bits uf2 token opens erases
    rw [htask]
    exact ⟨hvectorize, hexclusive, hexec, henter, .inr hread⟩
  | command hqueues hact hkind =>
    have hfields := hqueues.isTaskOf hact
    rcases hkind with rfl | rfl | rfl
    · exact ⟨hfields.has_not rfl, hfields.has_not rfl, hfields.has_not rfl, hfields.has_not rfl,
        .inl (hfields.has_not rfl)⟩
    · exact ⟨hfields.has_not rfl, hfields.has_not rfl, hfields.has_not rfl, hfields.has_not rfl,
        .inr (hfields.has_not rfl)⟩
    · exact ⟨hfields.has_not rfl, hfields.has_not rfl, hfields.has_not rfl, hfields.has_not rfl,
        .inl (hfields.has_not rfl)⟩

/-- Each flash operation that a task performs, with the functions of the ROM on any machine, keeps
to its command and its location on the bus, if and only if the sectors and the page of the task are
in the first 16 MiB of the window. -/
theorem flash_calls_on_bus_iff {task : AsyncTask} (h : FlashTask task)
    (hpass : task.PassesChecks) :
    (∀ env m, m.funcs env = defaultFlashFuncs →
        ∃ ops, (executeTask env task m).1.flash.ops = m.flash.ops ++ ops ∧
          ∀ op ∈ ops, op.OnBus) ↔ task.InChip := by
  rw [← flashOps_onBus_iff hpass]
  have hperforms {env : Env} := @executeStages_performs env task h.onlyTransfers hpass
  constructor
  · intro hall
    let m := { powerOn.toMachine with lastMutationSource := task.source }
    obtain ⟨ops, hops, hbus⟩ := hall notingEnv m (funcs_notingEnv m)
    have hrebooting : ¬m.rebooting = true := Bool.false_ne_true
    have hok := hperforms.ok m (funcs_notingEnv m) rfl
    obtain ⟨done, -, hdone, hdoes⟩ := hperforms.ops m (funcs_notingEnv m)
    rw [executeTask, if_neg hrebooting, hdone, List.append_cancel_left_eq, hdoes hok] at hops
    rw [hops]
    exact hbus
  · intro hbus env m hm
    rw [executeTask]
    split
    · exact ⟨[], (List.append_nil _).symm, fun op hop => absurd hop List.not_mem_nil⟩
    · obtain ⟨done, hstart, hdone, -⟩ := hperforms.ops m hm
      exact ⟨done, hdone, fun op hop => hbus op (hstart.subset hop)⟩

/-- `flash_calls_on_bus_iff`, for an erase of two sectors. -/
theorem flash_calls_on_bus_iff_two_sectors :
    (Picoboot.readCommand 32 (rangeCommand 3 0x10001000 0x2000)
        {}).1.queueCommandTask.queue.task.PassesChecks ∧
      ∀ env m, m.funcs env = defaultFlashFuncs →
        ∃ ops, (executeTask env (Picoboot.readCommand 32 (rangeCommand 3 0x10001000 0x2000)
              {}).1.queueCommandTask.queue.task m).1.flash.ops = m.flash.ops ++ ops ∧
          ∀ op ∈ ops, op.OnBus :=
  have hqueues := @Picoboot.Queues.single {} (rangeCommand 3 0x10001000 0x2000) rfl
  have hpass : (Picoboot.readCommand 32 (rangeCommand 3 0x10001000 0x2000)
      {}).1.queueCommandTask.queue.task.PassesChecks := by decide
  ⟨hpass, (flash_calls_on_bus_iff (.command hqueues rfl (.inr (.inr rfl))) hpass).2 (by decide)⟩

/-- The page 16 MiB above the start of the window is accepted, and the command on the bus is the
one of a read instead of the one that programs a page. -/
theorem page_program_reads :
    ∃ d₁ d₂, updateCurrentUf2Info (firstBlock 0x11000000) 1 powerOn = (d₁, true) ∧
      writeUf2Page d₁ = (d₂, true) ∧ d₂.virtualDiskQueue.task.PassesChecks ∧
      (executeTask bareEnv d₂.virtualDiskQueue.task d₂.toMachine).1.flash.ops =
        d₂.flash.ops ++ [.exitXip, .eraseSector 0x11000000, .pageProgram 0x11000000] ∧
      (FlashOp.pageProgram 0x11000000).call = some (flashcmdPageProgram, 0x1000000) ∧
      flashPutCmdAddr flashcmdPageProgram 0x1000000 = [flashcmdReadData, 0, 0, 0] ∧
      ¬(FlashOp.pageProgram 0x11000000).OnBus := by
  refine ⟨_, _, rfl, rfl, by decide, rfl, rfl, rfl, fun hbus => ?_⟩
  exact absurd (hbus _ _ rfl).1 (by decide)

end PicoBootrom
