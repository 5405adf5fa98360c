import PicoBootrom.SsiTransfer

/-!
# Erasing by blocks and sectors

`flash_range_erase` goes over a range of flash from its start. Where it stands at the start of a
block that ends in the range, it has the whole block erased by the command of its caller, and
elsewhere a sector by the standard command. The two steps differ in size, so the loop keeps that it
stands at the start of a sector, and that what it issued so far are the commands of a tiling of the
range up to there (`Tiles`).

The chip is known by its answers (`FlashReplies`) : what it returns for each read of its status
register, and whether an abort is seen at each look at the pin of `flash_abort`. A transfer counts
as one step here, `flash_put_get_exchanges` is about what happens within it.
-/

namespace PicoBootrom

/-! ## The source -/

def flashcmdReadStatus : Byte := 0x05
def flashcmdWriteEnable : Byte := 0x06

/-- What the hardware answers : the status register at each read of it, and `flash_was_aborted` at
each call of it. -/
structure FlashReplies where
  status : ℕ → Byte
  aborted : ℕ → Bool

/-- The bytes of each transfer so far, and how often the status register and the pin of
`flash_abort` were read. -/
structure FlashSerial where
  frames : List (List Byte)
  statusReads : ℕ
  abortReads : ℕ

namespace FlashSerial

/-- A transfer of `flash_put_get` with what its caller pushed before it. -/
def transfer (c : PutGetCall) (s : FlashSerial) : FlashSerial :=
  { s with frames := s.frames ++ [c.preload ++ c.txBytes] }

/-- `flash_was_aborted`. -/
def wasAborted (env : FlashReplies) (s : FlashSerial) : Bool × FlashSerial :=
  (env.aborted s.abortReads, { s with abortReads := s.abortReads + 1 })

/-- `flash_enable_write`. -/
def enableWrite (s : FlashSerial) : FlashSerial :=
  s.transfer (flashDoCmd flashcmdWriteEnable .null false (fun _ => 0) 0)

/-- The transfer of `flash_wait_ready`, and the byte `stat` that it reads. -/
def readStatus (env : FlashReplies) (s : FlashSerial) : Byte × FlashSerial :=
  (env.status s.statusReads,
    { s.transfer (flashDoCmd flashcmdReadStatus .null true (fun _ => 0) 1) with
      statusReads := s.statusReads + 1 })

/-- `flash_wait_ready`, for at most so many turns of its loop. -/
def waitReady (env : FlashReplies) : ℕ → FlashSerial → Option FlashSerial
  | 0, _ => none
  | fuel + 1, s =>
    let (stat, s) := s.readStatus env
    if stat &&& 1 ≠ 0 then
      let (aborted, s) := s.wasAborted env
      if !aborted then s.waitReady env fuel else some s
    else some s

/-- `flash_user_erase`. -/
def userErase (env : FlashReplies) (fuel : ℕ) (addr : Word) (cmd : Byte) (s : FlashSerial) :
    Option FlashSerial :=
  (s.enableWrite.transfer (flashUserErase addr cmd)).waitReady env fuel

/-- `flash_sector_erase`. -/
def sectorErase (env : FlashReplies) (fuel : ℕ) (addr : Word) (s : FlashSerial) :
    Option FlashSerial :=
  s.userErase env fuel addr flashcmdSectorErase

/-- The loop of `flash_range_erase`. -/
def rangeEraseLoop (env : FlashReplies) (goal blockSize : Word) (blockCmd : Byte) :
    ℕ → Word → FlashSerial → Option FlashSerial
  | 0, _, _ => none
  | fuel + 1, addr, s =>
    if addr < goal then
      let (aborted, s) := s.wasAborted env
      if !aborted then
        if addr &&& (blockSize - 1) = 0 ∧ blockSize ≤ goal - addr then
          (s.userErase env fuel addr blockCmd).bind
            (rangeEraseLoop env goal blockSize blockCmd fuel (addr + blockSize))
        else
          (s.sectorErase env fuel addr).bind
            (rangeEraseLoop env goal blockSize blockCmd fuel (addr + 1 <<< 12))
      else some s
    else some s

/-- `flash_range_erase`. -/
def rangeErase (env : FlashReplies) (fuel : ℕ) (addr count blockSize : Word) (blockCmd : Byte)
    (s : FlashSerial) : Option FlashSerial :=
  rangeEraseLoop env (addr + count) blockSize blockCmd fuel addr s

/-- The transfers of a command with an address and no data : no other one has four bytes. -/
def eraseFrames (s : FlashSerial) : List (List Byte) :=
  s.frames.filter (·.length = 4)

end FlashSerial

/-! ## Erase commands -/

/-- A command to erase a block or a sector. -/
inductive EraseCommand
  | block (addr : ℕ)
  | sector (addr : ℕ)
  deriving DecidableEq, Repr

namespace EraseCommand

/-- Where the erased bytes start. -/
def start : EraseCommand → ℕ
  | block addr => addr
  | sector addr => addr

/-- The number of bytes that are erased. -/
def size (blockSize : ℕ) : EraseCommand → ℕ
  | block _ => blockSize
  | sector _ => 4096

/-- The command byte. -/
def cmd (blockCmd : Byte) : EraseCommand → Byte
  | block _ => blockCmd
  | sector _ => flashcmdSectorErase

/-- The bytes on the bus. -/
def frame (blockCmd : Byte) (c : EraseCommand) : List Byte :=
  let addr := BitVec.ofNat 32 c.start
  [c.cmd blockCmd, byteOf addr 2, byteOf addr 1, byteOf addr 0]

/-- The numbers of the erased sectors. -/
def sectors (blockSize : ℕ) (c : EraseCommand) : List ℕ :=
  List.range' (c.start / 4096) (c.size blockSize / 4096)

/-- The commands erase what is between `a` and `b`, the lowest part first. -/
def Tiles (blockSize : ℕ) : ℕ → List EraseCommand → ℕ → Prop
  | a, [], b => a = b
  | a, c :: cs, b => c.start = a ∧ Tiles blockSize (a + c.size blockSize) cs b

variable {blockSize : ℕ}

/-- The sectors of a tiling are the sectors between its ends, each of them once. -/
theorem Tiles.sectors_eq (hblock : 4096 ∣ blockSize) {cs : List EraseCommand} {a b : ℕ}
    (ha : 4096 ∣ a) (h : Tiles blockSize a cs b) :
    a ≤ b ∧ cs.flatMap (sectors blockSize) = List.range' (a / 4096) ((b - a) / 4096) := by
  induction cs generalizing a with
  | nil =>
    obtain rfl : a = b := h
    simp
  | cons c cs ih =>
    obtain ⟨hstart, hrest⟩ := h
    have hsize : 4096 ∣ c.size blockSize := by
      cases c with
      | block => exact hblock
      | sector => exact Nat.dvd_refl 4096
    obtain ⟨hle, heq⟩ := ih (Nat.dvd_add ha hsize) hrest
    refine ⟨by omega, ?_⟩
    obtain ⟨i, rfl⟩ := ha
    obtain ⟨j, hj⟩ := hsize
    have hlength : (b - 4096 * i) / 4096 = j + (b - 4096 * (i + j)) / 4096 := by omega
    have hfirst : (4096 * i + 4096 * j) / 4096 = i + j := by omega
    rw [List.flatMap_cons, heq, sectors, hstart, hj, hfirst, Nat.mul_div_cancel_left _ (by omega),
      Nat.mul_div_cancel_left _ (by omega), hlength, ← Nat.mul_add, List.range'_append_1]

/-- A sector between the ends of a tiling is erased once, and no other one is. -/
theorem Tiles.count_sectors (hblock : 4096 ∣ blockSize) {cs : List EraseCommand} {a b : ℕ}
    (ha : 4096 ∣ a) (hb : 4096 ∣ b) (h : Tiles blockSize a cs b) (n : ℕ) :
    (cs.flatMap (sectors blockSize)).count n = if a ≤ 4096 * n ∧ 4096 * n < b then 1 else 0 := by
  obtain ⟨hle, heq⟩ := h.sectors_eq hblock ha
  rw [heq, List.Nodup.count List.nodup_range']
  simp only [List.mem_range'_1]
  exact if_congr (by omega) rfl rfl

end EraseCommand

/-! ## Polling -/

namespace FlashSerial

variable {env : FlashReplies}

@[simp] theorem eraseFrames_transfer (c : PutGetCall) (s : FlashSerial) :
    (s.transfer c).eraseFrames =
      s.eraseFrames ++ [c.preload ++ c.txBytes].filter (·.length = 4) :=
  List.filter_append _ _

@[simp] theorem eraseFrames_wasAborted (s : FlashSerial) :
    (s.wasAborted env).2.eraseFrames = s.eraseFrames :=
  rfl

@[simp] theorem eraseFrames_enableWrite (s : FlashSerial) :
    s.enableWrite.eraseFrames = s.eraseFrames := by
  rw [enableWrite, eraseFrames_transfer]
  exact List.append_nil _

@[simp] theorem eraseFrames_readStatus (s : FlashSerial) :
    (s.readStatus env).2.eraseFrames = s.eraseFrames := by
  change (s.transfer _).eraseFrames = _
  rw [eraseFrames_transfer]
  exact List.append_nil _

/-- The frame of `flash_user_erase`. -/
@[simp] theorem eraseFrames_flashUserErase (addr : Word) (cmd : Byte) (s : FlashSerial) :
    (s.transfer (flashUserErase addr cmd)).eraseFrames =
      s.eraseFrames ++ [flashPutCmdAddr cmd addr] := by
  rw [eraseFrames_transfer]
  rfl

/-- The chip is ready again after finitely many reads of its status register. -/
def Responds (env : FlashReplies) : Prop :=
  ∀ i, ∃ j ≥ i, env.status j &&& 1 = 0

/-- The loop ends when the chip is ready, and has erased nothing. -/
theorem waitReady_ends (hready : Responds env) (s : FlashSerial) :
    ∃ s' n, (∀ fuel ≥ n, s.waitReady env fuel = some s') ∧ s'.eraseFrames = s.eraseFrames := by
  obtain ⟨j, hj, hstat⟩ := hready s.statusReads
  obtain ⟨k, rfl⟩ := Nat.exists_eq_add_of_le hj
  clear hj
  -- the induction is on the reads that are left until the chip is ready
  induction k generalizing s with
  | zero =>
    refine ⟨(s.readStatus env).2, 1, fun fuel hfuel => ?_, eraseFrames_readStatus s⟩
    obtain ⟨fuel, rfl⟩ := Nat.exists_eq_add_of_le' hfuel
    exact if_neg (not_not.mpr hstat)
  | succ k ih =>
    by_cases hnow : env.status s.statusReads &&& 1 = 0
    · refine ⟨(s.readStatus env).2, 1, fun fuel hfuel => ?_, eraseFrames_readStatus s⟩
      obtain ⟨fuel, rfl⟩ := Nat.exists_eq_add_of_le' hfuel
      exact if_neg (not_not.mpr hnow)
    have hturn (fuel : ℕ) : s.waitReady env (fuel + 1) =
        if !env.aborted s.abortReads then
          ((s.readStatus env).2.wasAborted env).2.waitReady env fuel
        else some ((s.readStatus env).2.wasAborted env).2 := if_pos hnow
    by_cases habort : env.aborted s.abortReads
    · refine ⟨((s.readStatus env).2.wasAborted env).2, 1, fun fuel hfuel => ?_, by simp⟩
      obtain ⟨fuel, rfl⟩ := Nat.exists_eq_add_of_le' hfuel
      rw [hturn, habort]
      rfl
    · obtain ⟨s', n, hrun, hframes⟩ := ih ((s.readStatus env).2.wasAborted env).2 (by
        change env.status (s.statusReads + 1 + k) &&& 1 = 0
        rwa [Nat.add_assoc, Nat.add_comm 1 k])
      refine ⟨s', n + 1, fun fuel hfuel => ?_, hframes.trans (by simp)⟩
      obtain ⟨fuel, rfl⟩ := Nat.exists_eq_add_of_le' (Nat.le_of_add_left_le hfuel)
      rw [hturn, Bool.eq_false_iff.mpr habort]
      exact hrun fuel (by omega)

/-- One erase command and the wait after it. -/
theorem userErase_ends (hready : Responds env) (addr : Word) (cmd : Byte) (s : FlashSerial) :
    ∃ s' n, (∀ fuel ≥ n, s.userErase env fuel addr cmd = some s') ∧
      s'.eraseFrames = s.eraseFrames ++ [flashPutCmdAddr cmd addr] := by
  obtain ⟨s', n, hrun, hframes⟩ :=
    waitReady_ends hready (s.enableWrite.transfer (flashUserErase addr cmd))
  refine ⟨s', n, hrun, ?_⟩
  rw [hframes, eraseFrames_flashUserErase, eraseFrames_enableWrite]

/-! ## The loop -/

variable {goal blockSize : Word} {blockCmd : Byte}

/-- The end of the range, or of the last sector that meets it. -/
def roundUp (n : ℕ) : ℕ :=
  (n + 4095) / 4096 * 4096

/-- A command of the loop : it is at a multiple of its size, and a block lies in the range. -/
def EraseFits (start stop blockSize : ℕ) : EraseCommand → Prop
  | .block addr => blockSize ∣ addr ∧ start ≤ addr ∧ addr + blockSize ≤ stop
  | .sector addr => 4096 ∣ addr

/-- What the loop does from an address on. -/
def ErasesFrom (env : FlashReplies) (goal blockSize : Word) (blockCmd : Byte) (addr : Word)
    (s : FlashSerial) : Prop :=
  ∃ (cs : List EraseCommand) (s' : FlashSerial) (n : ℕ),
    (∀ fuel ≥ n, rangeEraseLoop env goal blockSize blockCmd fuel addr s = some s') ∧
      s'.eraseFrames = s.eraseFrames ++ cs.map (·.frame blockCmd) ∧
      EraseCommand.Tiles blockSize.toNat addr.toNat cs (roundUp goal.toNat) ∧
      ∀ c ∈ cs, EraseFits addr.toNat goal.toNat blockSize.toNat c

/-- A turn of the loop puts one command in front of those of the rest. -/
theorem ErasesFrom.turn (hready : Responds env) {addr : Word} (haddr : addr < goal)
    (hgoal : goal.toNat ≤ 2 ^ 24) {s : FlashSerial} (c : EraseCommand)
    (hstart : c.start = addr.toNat)
    (hfits : EraseFits addr.toNat goal.toNat blockSize.toNat c)
    (hturn : ∀ fuel, rangeEraseLoop env goal blockSize blockCmd (fuel + 1) addr s =
      ((s.wasAborted env).2.userErase env fuel addr (c.cmd blockCmd)).bind
        (rangeEraseLoop env goal blockSize blockCmd fuel
          (addr + BitVec.ofNat 32 (c.size blockSize.toNat))))
    (hnext : (addr + BitVec.ofNat 32 (c.size blockSize.toNat)).toNat =
      addr.toNat + c.size blockSize.toNat)
    (ih : ∀ s, ErasesFrom env goal blockSize blockCmd
      (addr + BitVec.ofNat 32 (c.size blockSize.toNat)) s) :
    ErasesFrom env goal blockSize blockCmd addr s := by
  obtain ⟨s₁, n₁, hrun₁, hframes₁⟩ :=
    userErase_ends hready addr (c.cmd blockCmd) (s.wasAborted env).2
  obtain ⟨cs, s', n₂, hrun₂, hframes₂, htiles, hcs⟩ := ih s₁
  rw [hnext] at htiles hcs
  have haddr24 : addr.toNat < 0x1000000 := Nat.lt_of_lt_of_le haddr hgoal
  refine ⟨c :: cs, s', n₁ + n₂ + 1, fun fuel hfuel => ?_, ?_, ⟨hstart, ?_⟩, ?_⟩
  · obtain ⟨fuel, rfl⟩ := Nat.exists_eq_add_of_le' (Nat.le_of_add_left_le hfuel)
    rw [hturn, hrun₁ fuel (by omega)]
    exact hrun₂ fuel (by omega)
  · rw [hframes₂, hframes₁, eraseFrames_wasAborted, List.append_assoc, List.map_cons,
      EraseCommand.frame, hstart, BitVec.ofNat_toNat, BitVec.setWidth_eq,
      flashPutCmdAddr_eq haddr24]
    rfl
  · exact htiles
  · rintro c' (_ | ⟨_, hc'⟩)
    · exact hfits
    · have := hcs c' hc'
      cases c' with
      | sector => exact this
      | block addr' => exact ⟨this.1, by have := this.2.1; omega, this.2.2⟩

/-- `addr & (block_size - 1)` is 0 at the multiples of the block size. -/
theorem and_blockSize_eq_zero {k : ℕ} (hblock : blockSize.toNat = 2 ^ k) (addr : Word) :
    addr &&& (blockSize - 1) = 0 ↔ blockSize.toNat ∣ addr.toNat := by
  have hpos : (1 : Word) ≤ blockSize := by
    rw [BitVec.le_def, hblock]
    exact Nat.one_le_two_pow
  have hmask : (blockSize - 1).toNat = 2 ^ k - 1 := by
    rw [BitVec.toNat_sub_of_le hpos, hblock]
    rfl
  rw [BitVec.toNat_eq, BitVec.toNat_and, hmask, Nat.and_two_pow_sub_one_eq_mod, hblock]
  exact Nat.dvd_iff_mod_eq_zero.symm

/-- The loop tiles what is left of the range. -/
theorem rangeEraseLoop_erases (hready : Responds env) (haborts : ∀ i, env.aborted i = false)
    (hgoal : goal.toNat ≤ 2 ^ 24) {k : ℕ} (hk : 12 ≤ k) (hblock : blockSize.toNat = 2 ^ k)
    {addr : Word} (halign : 4096 ∣ addr.toNat) (haddr : addr.toNat ≤ roundUp goal.toNat)
    (s : FlashSerial) : ErasesFrom env goal blockSize blockCmd addr s := by
  have hsector : 4096 ∣ blockSize.toNat := hblock ▸ Nat.pow_dvd_pow 2 hk
  have hround : roundUp goal.toNat ≤ 2 ^ 24 := by
    unfold roundUp
    omega
  -- the induction is on the bytes up to the end
  induction hn : roundUp goal.toNat - addr.toNat using Nat.strong_induction_on
    generalizing addr s with
  | _ n ih =>
    subst hn
    by_cases hlt : addr < goal
    · have hlt' : addr.toNat < goal.toNat := hlt
      have hround' : goal.toNat ≤ roundUp goal.toNat := by
        unfold roundUp
        omega
      have hloop (fuel : ℕ) : rangeEraseLoop env goal blockSize blockCmd (fuel + 1) addr s =
          if addr &&& (blockSize - 1) = 0 ∧ blockSize ≤ goal - addr then
            ((s.wasAborted env).2.userErase env fuel addr blockCmd).bind
              (rangeEraseLoop env goal blockSize blockCmd fuel (addr + blockSize))
          else
            ((s.wasAborted env).2.sectorErase env fuel addr).bind
              (rangeEraseLoop env goal blockSize blockCmd fuel (addr + 1 <<< 12)) := by
        refine (if_pos hlt).trans (if_pos ?_)
        exact (congrArg Bool.not (haborts s.abortReads)).trans rfl
      -- a step that stays below the end is not cut off, and what is left is tiled
      have hstep (c : EraseCommand) (hpos : 0 < c.size blockSize.toNat)
          (hdvd : 4096 ∣ c.size blockSize.toNat)
          (hend : addr.toNat + c.size blockSize.toNat ≤ roundUp goal.toNat) :
          (addr + BitVec.ofNat 32 (c.size blockSize.toNat)).toNat =
              addr.toNat + c.size blockSize.toNat ∧
            ∀ s, ErasesFrom env goal blockSize blockCmd
              (addr + BitVec.ofNat 32 (c.size blockSize.toNat)) s := by
        have hnext : (addr + BitVec.ofNat 32 (c.size blockSize.toNat)).toNat =
            addr.toNat + c.size blockSize.toNat := by
          rw [BitVec.toNat_add, BitVec.toNat_ofNat, Nat.add_mod_mod, Nat.mod_eq_of_lt (by omega)]
        refine ⟨hnext, fun s => ih _ ?_ (hnext ▸ Nat.dvd_add halign hdvd) (hnext ▸ hend) s rfl⟩
        rw [hnext]
        omega
      by_cases hcond : addr &&& (blockSize - 1) = 0 ∧ blockSize ≤ goal - addr
      · obtain ⟨hmask, hfits⟩ := hcond
        have hle : addr.toNat + blockSize.toNat ≤ goal.toNat := by
          rw [BitVec.le_def, BitVec.toNat_sub_of_le (BitVec.le_of_lt hlt)] at hfits
          omega
        obtain ⟨hnext, hrest⟩ := hstep (.block addr.toNat) (hblock ▸ Nat.two_pow_pos k) hsector
          (Nat.le_trans hle hround')
        refine ErasesFrom.turn hready hlt hgoal (.block addr.toNat) rfl
          ⟨(and_blockSize_eq_zero hblock addr).mp hmask, Nat.le_refl _, hle⟩ (fun fuel => ?_)
          hnext hrest
        rw [hloop, if_pos ⟨hmask, hfits⟩, EraseCommand.size, BitVec.ofNat_toNat,
          BitVec.setWidth_eq]
        rfl
      · obtain ⟨hnext, hrest⟩ := hstep (.sector addr.toNat) (Nat.succ_pos 4095)
          (Nat.dvd_refl 4096) (by
            unfold roundUp
            change addr.toNat + 4096 ≤ _
            omega)
        refine ErasesFrom.turn hready hlt hgoal (.sector addr.toNat) rfl halign (fun fuel => ?_)
          hnext hrest
        rw [hloop, if_neg hcond]
        rfl
    · refine ⟨[], s, 1, fun fuel hfuel => ?_, by simp, ?_, by simp⟩
      · obtain ⟨fuel, rfl⟩ := Nat.exists_eq_add_of_le' hfuel
        exact if_neg hlt
      · rw [BitVec.lt_def] at hlt
        unfold roundUp at haddr
        change addr.toNat = roundUp goal.toNat
        unfold roundUp
        omega

end FlashSerial

open FlashSerial

/-- A byte of the range is in the sector. -/
def MeetsSector (addr count sector : ℕ) : Prop :=
  ∃ x, x / 4096 = sector ∧ addr ≤ x ∧ x < addr + count

/-- Without an abort, and with a chip that gets ready after each command, `flash_range_erase` of a
range in the first 16 MiB that starts at a sector ends. The commands that it put on the bus erase
each sector that meets the range once and no other sector. Each block command is for a block that
lies in the range, at a multiple of the block size, and the others are for single sectors. -/
theorem flash_range_erase_covers {env : FlashReplies} (hready : Responds env)
    (haborts : ∀ i, env.aborted i = false) {addr count blockSize : Word}
    (haddr : addr.toNat % 4096 = 0) (hend : addr.toNat + count.toNat ≤ 2 ^ 24)
    {k : ℕ} (hblock : blockSize.toNat = 2 ^ k) (hsize : 4096 ≤ blockSize.toNat) (blockCmd : Byte)
    (s : FlashSerial) :
    ∃ (cs : List EraseCommand) (s' : FlashSerial) (n : ℕ),
      (∀ fuel ≥ n, s.rangeErase env fuel addr count blockSize blockCmd = some s') ∧
        s'.eraseFrames = s.eraseFrames ++ cs.map (·.frame blockCmd) ∧
        (∀ sector, MeetsSector addr.toNat count.toNat sector →
          (cs.flatMap (·.sectors blockSize.toNat)).count sector = 1) ∧
        (∀ sector, ¬MeetsSector addr.toNat count.toNat sector →
          (cs.flatMap (·.sectors blockSize.toNat)).count sector = 0) ∧
        (∀ a, .block a ∈ cs → blockSize.toNat ∣ a ∧ addr.toNat ≤ a ∧
          a + blockSize.toNat ≤ addr.toNat + count.toNat) ∧
        ∀ a, .sector a ∈ cs → 4096 ∣ a := by
  have hgoal : (addr + count).toNat = addr.toNat + count.toNat := by
    rw [BitVec.toNat_add, Nat.mod_eq_of_lt (by omega)]
  have hk : 12 ≤ k := by
    by_contra! hlt
    have := Nat.pow_lt_pow_right (show 1 < 2 by omega) hlt
    omega
  have hstart : addr.toNat ≤ roundUp (addr + count).toNat := by
    unfold roundUp
    omega
  have hloop : ErasesFrom env (addr + count) blockSize blockCmd addr s :=
    rangeEraseLoop_erases hready haborts (hgoal ▸ hend) hk hblock
      (Nat.dvd_of_mod_eq_zero haddr) hstart s
  obtain ⟨cs, s', n, hrun, hframes, htiles, hfits⟩ := hloop
  have hcount := htiles.count_sectors (hblock ▸ Nat.pow_dvd_pow 2 hk)
    (Nat.dvd_of_mod_eq_zero haddr) (Nat.dvd_mul_left 4096 _)
  rw [hgoal] at hcount
  refine ⟨cs, s', n, hrun, hframes, fun sector hmeets => ?_, fun sector hmeets => ?_,
    fun a ha => hgoal ▸ hfits _ ha, fun a ha => hfits _ ha⟩
  · obtain ⟨x, rfl, hx⟩ := hmeets
    rw [hcount, if_pos (by omega)]
  · rw [hcount, if_neg]
    intro h
    exact hmeets ⟨4096 * sector, by omega, h.1, by omega⟩

/-- Five sectors from the second one of a block on, by blocks of two sectors : the chip is busy
when its status is first read. -/
theorem flash_range_erase_covers_five :
    ∃ (cs : List EraseCommand) (s' : FlashSerial) (n : ℕ),
      (∀ fuel ≥ n, FlashSerial.rangeErase ⟨fun i => if i = 0 then 1 else 0, fun _ => false⟩ fuel
        0x1000 0x5000 0x2000 0xd8 ⟨[], 0, 0⟩ = some s') ∧
        s'.eraseFrames = [] ++ cs.map (·.frame 0xd8) ∧
        (∀ sector, MeetsSector 0x1000 0x5000 sector →
          (cs.flatMap (·.sectors 0x2000)).count sector = 1) ∧
        (∀ sector, ¬MeetsSector 0x1000 0x5000 sector →
          (cs.flatMap (·.sectors 0x2000)).count sector = 0) ∧
        (∀ a, .block a ∈ cs → 0x2000 ∣ a ∧ 0x1000 ≤ a ∧ a + 0x2000 ≤ 0x1000 + 0x5000) ∧
        ∀ a, .sector a ∈ cs → 4096 ∣ a :=
  flash_range_erase_covers (fun i => ⟨i + 1, Nat.le_succ i, by simp⟩) (fun _ => rfl) rfl (by decide)
    (k := 13) rfl (by decide) 0xd8 ⟨[], 0, 0⟩

/-- What is sent for these : a sector and two blocks. -/
example : (FlashSerial.rangeErase ⟨fun _ => 0, fun _ => false⟩ 5 0x1000 0x5000 0x2000 0xd8
    ⟨[], 0, 0⟩).map (·.eraseFrames) =
      some [[0x20, 0, 0x10, 0], [0xd8, 0, 0x20, 0], [0xd8, 0, 0x40, 0]] := by
  decide

end PicoBootrom
