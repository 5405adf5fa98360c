import PicoBootrom.MscControl
import PicoBootrom.MscSteps

/-!
# Whole sectors between the host and the disk

`READ_10` and `WRITE_10` for whole sectors, in the direction that the host expects. The events of
the data phase are the packets that the host takes or sends and the ends of the tasks
(`DataEvent`), in any order in which they can happen (`DataRun`). Every state of the data phase is
a `SectorsAt` : each event leads to another one (`SectorsAt.step`), there is an event while the CSW
was not started (`SectorsAt.progress`), and the calls of `vd_read_block` and `vd_write_block` are
those of the first sectors (`SectorsAt.calls`).

Tasks that earlier commands have left can be running beside it (`SectorsBeside`). They may end at
any time and with any result, and change nothing, if none of them has a token of the command.
-/

set_option linter.unusedSectionVars false

namespace PicoBootrom

/-! ## The data phase -/

/-- What the host and the tasks do in a data phase without errors. The host has sent `k` packets of
its data before. A task with another token than that of the sector that is written was left by an
earlier command, and its result can be anything. -/
inductive DataEvent (data : ℕ → List Byte) (s : MscState) : ℕ → MscEvent → ℕ → Prop
  | taken {k : ℕ} (packet : List Byte) (h : (s.endpoint .mscIn).hw.available ≠ []) :
      DataEvent data s k (.buffer .mscIn packet) k
  | sent {k : ℕ} (h : (s.endpoint .mscOut).hw.available ≠ []) :
      DataEvent data s k (.buffer .mscOut (data k)) (k + 1)
  | done {k i : ℕ} (h : s.client.tasks[i]? = some s.client.asyncToken) :
      DataEvent data s k (.asyncComplete i 0) k
  | left {k i : ℕ} {token : Word} (result : Word) (h : s.client.tasks[i]? = some token)
      (htoken : token ≠ s.client.asyncToken) : DataEvent data s k (.asyncComplete i result) k

/-- The event is not the end of a task that an earlier command has left. -/
def MscEvent.OfCommand (s : MscState) : MscEvent → Prop
  | .asyncComplete i _ => s.client.tasks[i]? = some s.client.asyncToken
  | _ => True

/-- The state after `m` events, as long as no CSW is started, and the number of packets that the
host has sent. -/
inductive DataRun (vdReadBlock : Word → ℕ → Byte) (depth : ℕ) (data : ℕ → List Byte)
    (s₀ : MscState) : ℕ → ℕ → MscState → Prop
  | start : DataRun vdReadBlock depth data s₀ 0 0 s₀
  | step {m k k' : ℕ} {s s' : MscState} {event : MscEvent}
      (h : DataRun vdReadBlock depth data s₀ m k s) (hcsws : s.client.csws = s₀.client.csws)
      (hevent : DataEvent data s k event k') (hs' : mscStep vdReadBlock depth s event = .ok s') :
      DataRun vdReadBlock depth data s₀ (m + 1) k' s'

/-! ## The sectors -/

namespace ScsiCbw

variable (cbw : ScsiCbw)

/-- A command for whole sectors that the host expects. -/
structure WholeSectors : Prop where
  cmd : cbw.cmd = .read10 ∨ cbw.cmd = .write10
  dir : cbw.dir = cbw.deviceDir
  hostLength : cbw.hostLength = 512 * cbw.blocks.toNat
  pos : 0 < cbw.blocks.toNat

/-- The `i`-th sector that is read, or that the host sends in packets. -/
def sector (vdReadBlock : Word → ℕ → Byte) (data : ℕ → List Byte) (i : ℕ) : List Byte :=
  if cbw.deviceDir = .dirIn then sectorBytes (vdReadBlock (cbw.lba + BitVec.ofNat 32 i))
  else (List.range 8).flatMap fun j => data (8 * i + j)

/-- The `i`-th call of `vd_read_block` or `vd_write_block`, if `token` was the token before the
command. -/
def sectorCall (vdReadBlock : Word → ℕ → Byte) (data : ℕ → List Byte) (token : Word) (i : ℕ) :
    SectorCall where
  dir := cbw.deviceDir
  token := token + 1 + BitVec.ofNat 32 (i + 1)
  lba := cbw.lba + BitVec.ofNat 32 i
  sector := cbw.sector vdReadBlock data i

/-- No task that is running has a token of the command. -/
def NoTokenLeft (K : MscClient) : Prop :=
  ∀ token ∈ K.tasks, ∀ j ≤ cbw.blocks.toNat, token ≠ K.asyncToken + 1 + BitVec.ofNat 32 j

/-- The calls for the first `j` sectors. -/
def sectorCalls (vdReadBlock : Word → ℕ → Byte) (data : ℕ → List Byte) (token : Word) (j : ℕ) :
    List SectorCall :=
  (List.range j).map (cbw.sectorCall vdReadBlock data token)

variable {cbw}

theorem WholeSectors.data (h : cbw.WholeSectors) : cbw.cmd.data = .sectors cbw.deviceDir := by
  rcases h.cmd with hcmd | hcmd
  · rw [deviceDir, hcmd]
    rfl
  · rw [deviceDir, hcmd]
    rfl

theorem WholeSectors.plan_eq (h : cbw.WholeSectors) :
    cbw.plan = ⟨512 * cbw.blocks.toNat, .dirNone, false⟩ := by
  have hdata := h.data
  have hdevice : cbw.deviceLength = cbw.hostLength := by
    rw [deviceLength, hdata, h.hostLength]
    exact Nat.mul_comm _ _
  have hne : cbw.cmd.data ≠ .none := by
    rw [hdata]
    exact fun h => by cases h
  have hwhole : cbw.wholePackets cbw.hostLength = 512 * cbw.blocks.toNat := by
    rw [wholePackets, hdata, h.hostLength]
    dsimp only
    omega
  rw [plan, if_neg hne, if_neg (not_not_intro h.dir), hdevice, Nat.min_self, hwhole,
    if_neg (not_not_intro rfl), decide_eq_false (Nat.lt_irrefl _)]

end ScsiCbw

/-- A list of equal parts. -/
theorem map_range_mul {α : Type} (f : ℕ → α) (c n : ℕ) :
    (List.range (c * n)).map f =
      (List.range n).flatMap fun i => (List.range c).map fun j => f (c * i + j) := by
  induction n with
  | zero => rfl
  | succ n ih =>
    rw [Nat.mul_succ, List.range_add, List.map_append, ih, List.range_succ, List.flatMap_append,
      List.map_map]
    simp [Function.comp_def]

namespace SectorStream

variable {x : SectorStream} {vdReadBlock : Word → ℕ → Byte} {data : ℕ → List Byte}

/-- A sector that is written is eight packets of the host. -/
theorem writeSector_eq (hdata : ∀ i, (data i).length = 64) (i : ℕ) :
    writeSector data i = (List.range 8).flatMap fun j => data (8 * i + j) := by
  have hpacket (j : ℕ) :
      ((List.range 64).map fun l => packetBytes data (512 * i + (64 * j + l))) =
        data (8 * i + j) := by
    rw [← packetBytes_packet (hdata (8 * i + j))]
    refine List.map_congr_left fun l _ => congrArg (packetBytes data) ?_
    omega
  have hparts := map_range_mul (fun j => packetBytes data (512 * i + j)) 64 8
  simp only [hpacket] at hparts
  exact hparts

/-- The packets of a read are its sectors. -/
theorem packets_flatten {n : ℕ} (hn : x.packets = 8 * n) :
    ((List.range x.packets).map (x.shape.packet (x.bytes vdReadBlock))).flatten =
      (List.range n).flatMap (x.readSector vdReadBlock) := by
  have hpackets : (List.range x.packets).map (x.shape.packet (x.bytes vdReadBlock)) =
      (List.range x.packets).map fun k =>
        (List.range 64).map fun j => x.bytes vdReadBlock (64 * k + j) := by
    refine List.map_congr_left fun k hk => ?_
    rw [StreamShape.packet, packetLength_eq x (List.mem_range.1 hk)]
  have hsector (i : ℕ) : ((List.range 512).map fun j => x.bytes vdReadBlock (512 * i + j)) =
      x.readSector vdReadBlock i := by
    unfold readSector sectorBytes
    refine List.map_congr_left fun j hj => ?_
    have hlt := List.mem_range.1 hj
    rw [bytes, show (512 * i + j) / 512 = i by omega, show (512 * i + j) % 512 = j by omega]
  rw [hpackets, ← List.flatMap_def, ← map_range_mul (x.bytes vdReadBlock) 64 x.packets, hn,
    ← Nat.mul_assoc, map_range_mul (x.bytes vdReadBlock) (64 * 8) n]
  exact congrArg (fun f => (List.range n).flatMap f) (funext hsector)

end SectorStream

/-! ## The states of the data phase -/

section Run

variable (vdReadBlock : Word → ℕ → Byte) (data : ℕ → List Byte) (cbw : ScsiCbw) (s : MscState)

/-- All sectors were moved, and the CSW says so. `s` is the state before the command. -/
structure SectorsDone (s' : MscState) : Prop where
  calls : s'.client.calls = s.client.calls ++
    cbw.sectorCalls vdReadBlock data s.client.asyncToken cbw.blocks.toNat
  csw : ∃ note packets, s'.client.csws = s.client.csws ++ [note] ∧ note.csw.tag = cbw.tag ∧
    note.csw.residue = 0 ∧ note.csw.status = .commandPassed ∧
    note.transferred = 512 * cbw.blocks.toNat ∧ (cbw.deviceDir = .dirIn →
      (s'.endpoint .mscIn).hw.given.map (·.packet) =
        (s.endpoint .mscIn).hw.given.map (·.packet) ++ packets ++ [note.csw.bytes] ∧
      packets.flatten = (List.range cbw.blocks.toNat).flatMap (cbw.sector vdReadBlock data))

/-- The state after `m` events, `k` of which were packets that the host has sent. -/
inductive SectorsAt : ℕ → ℕ → MscState → Prop
  | reading {s' : MscState} {x : SectorStream} {m : ℕ}
      (h : Reading vdReadBlock cbw s.client x ((s.endpoint .mscIn).hw.given.map (·.packet)) m s')
      (hout : (s'.endpoint .mscOut).Free) (hdir : cbw.deviceDir = .dirIn) : SectorsAt m 0 s'
  | writing {s' : MscState} {x : SectorStream} {k d : ℕ}
      (h : Writing True cbw s.client x data k d s') (hdir : cbw.deviceDir = .dirOut) :
      SectorsAt (k + d) k s'
  | done {s' : MscState} {m k : ℕ} (h : SectorsDone vdReadBlock data cbw s s')
      (hm : m ≤ 16 * cbw.blocks.toNat) : SectorsAt m k s'

variable {vdReadBlock data cbw s} {s' : MscState} {x : SectorStream} {m k d depth : ℕ}

theorem SectorStream.Origin.packets (h : x.Origin cbw s.client) (hwhole : cbw.WholeSectors) :
    x.packets = 8 * cbw.blocks.toNat := by
  have hmoved := h.moved
  rw [hwhole.plan_eq] at hmoved
  dsimp only at hmoved
  omega

/-- The calls of a stream are those of the command. -/
theorem SectorStream.Called.calls_eq {dir : ScsiDirection} {sector : ℕ → List Byte} {K : MscClient}
    (h : x.Called dir sector m K) (horigin : x.Origin cbw s.client) (hdir : cbw.deviceDir = dir)
    (hsector : ∀ i, sector i = cbw.sector vdReadBlock data i) :
    K.calls = s.client.calls ++ cbw.sectorCalls vdReadBlock data s.client.asyncToken m := by
  rw [h.calls, horigin.calls]
  refine congrArg (s.client.calls ++ ·) (List.map_congr_left fun i _ => ?_)
  rw [SectorStream.call, ScsiCbw.sectorCall, hdir, hsector, horigin.token, horigin.lba]

theorem SectorStream.Origin.readSector (h : x.Origin cbw s.client) (hdir : cbw.deviceDir = .dirIn)
    (i : ℕ) : x.readSector vdReadBlock i = cbw.sector vdReadBlock data i := by
  rw [ScsiCbw.sector, if_pos hdir, SectorStream.readSector, h.lba]

theorem writeSector_eq_sector (hdata : ∀ i, (data i).length = 64)
    (hdir : cbw.deviceDir = .dirOut) (i : ℕ) :
    SectorStream.writeSector data i = cbw.sector vdReadBlock data i := by
  rw [ScsiCbw.sector, hdir, if_neg (by decide), SectorStream.writeSector_eq hdata]

/-- The end of a stream is the end of the command. -/
theorem StreamDone.sectorsDone {idle : ℕ → MscClient → Prop} (h : StreamDone x idle s')
    (packets : List (List Byte)) (horigin : x.Origin cbw s.client) (hwhole : cbw.WholeSectors)
    (hK : x.Kept x.packets s'.client) (hcompleted : s'.client.completed = s'.client.transferred)
    (htransferred : s'.client.transferred = 64 * x.packets)
    (hcalls : s'.client.calls = s.client.calls ++
      cbw.sectorCalls vdReadBlock data s.client.asyncToken cbw.blocks.toNat)
    (hsent : cbw.deviceDir = .dirIn →
      (s'.endpoint .mscIn).hw.given.map (·.packet) =
        (s.endpoint .mscIn).hw.given.map (·.packet) ++ packets ∧
      packets.flatten = (List.range cbw.blocks.toNat).flatMap (cbw.sector vdReadBlock data)) :
    SectorsDone vdReadBlock data cbw s s'.endDataPhase := by
  have hplan := hwhole.plan_eq
  have hstall : s'.client.msc.stallDirectionBeforeCsw = .dirNone := by
    rw [hK.stall horigin, hplan]
  have hend : s'.endDataPhase = s'.sendCsw := by
    rw [UsbState.endDataPhase, hstall]
  have hnote : NoteOk True True cbw s'.client.note :=
    hK.noteOk horigin rfl hcompleted fun _ => htransferred
  have hmoved : s'.client.transferred = 512 * cbw.blocks.toNat := by
    rw [htransferred, horigin.packets hwhole]
    omega
  have hdata : cbw.cmd.data ≠ .none := by
    rw [hwhole.data]
    exact fun h => by cases h
  rw [hend]
  refine ⟨?_, s'.client.note, packets, ?_, hnote.tag, ?_, ?_, hmoved, fun hdir => ?_⟩
  · rw [sendCsw_client]
    exact hcalls
  · rw [sendCsw_client]
    exact congrArg (· ++ [s'.client.note]) (hK.csws.trans horigin.csws)
  · have hresidue : s'.client.note.csw.residue.toNat + s'.client.completed = cbw.hostLength :=
      hnote.residue trivial
    rw [hwhole.hostLength, hcompleted, hmoved] at hresidue
    refine BitVec.eq_of_toNat_eq ?_
    change _ = 0
    omega
  · exact hnote.passed trivial hdata (by rw [hplan])
  · obtain ⟨hgiven, hpackets⟩ := hsent hdir
    rw [sendCsw_given h.mscIn (h.wired.isIn .mscIn), hgiven]
    exact ⟨rfl, hpackets⟩

/-- A read after an event. -/
theorem ReadAfter.sectorsAt (hwhole : cbw.WholeSectors) (horigin : x.Origin cbw s.client)
    (hdir : cbw.deviceDir = .dirIn) {r : UsbResult MscState}
    (hafter : ReadAfter vdReadBlock cbw s.client x ((s.endpoint .mscIn).hw.given.map (·.packet)) m
      r) : ∃ s', r = .ok s' ∧ SectorsAt vdReadBlock data cbw s m 0 s' := by
  have hpackets := horigin.packets hwhole
  rcases hafter with ⟨s', hr, hreading, hout⟩ | ⟨s', hr, hend, hdone, htransferred, hgiven⟩
  · exact ⟨s', hr, .reading hreading hout hdir⟩
  · have hidle := hdone.idle
    have hcalled := hidle.called
    rw [show (x.packets + 7) / 8 = cbw.blocks.toNat by omega] at hcalled
    refine ⟨_, hr, .done
      (hdone.sectorsDone _ horigin hwhole hidle.toKept ?_ ?_ ?_ fun _ => ⟨hgiven, ?_⟩) (by omega)⟩
    · rw [hidle.completed, htransferred, hend]
    · rw [htransferred, hend]
    · exact hcalled.calls_eq horigin hdir (horigin.readSector hdir)
    · rw [hend, SectorStream.packets_flatten hpackets]
      exact congrArg (fun f => (List.range _).flatMap f) (funext (horigin.readSector hdir))

/-- A write after an event. -/
theorem WriteAfter.sectorsAt (hwhole : cbw.WholeSectors) (horigin : x.Origin cbw s.client)
    (hdir : cbw.deviceDir = .dirOut) (hdata : ∀ i, (data i).length = 64) (hd : d ≤ k)
    {r : UsbResult MscState} (hafter : WriteAfter True cbw s.client x data k d r) :
    ∃ s', r = .ok s' ∧ SectorsAt vdReadBlock data cbw s (k + d) k s' := by
  have hpackets := horigin.packets hwhole
  rcases hafter with ⟨s', hr, hwriting⟩ | ⟨s', hr, hend, hdone, htransferred⟩
  · exact ⟨s', hr, .writing hwriting hdir⟩
  · have hidle := hdone.idle
    have hreceived : s'.client.transferred = 64 * x.packets := by
      rw [htransferred, receivedBytes_full fun i _ => hdata i, hend]
    have hstored := hidle.written (by omega) fun i _ => hdata i
    have hcalled := hstored.called
    rw [show x.packets / 8 = cbw.blocks.toNat by omega] at hcalled
    refine ⟨_, hr, .done (hdone.sectorsDone [] horigin hwhole hidle.toKept ?_ hreceived ?_
      fun hin => ?_) (by omega)⟩
    · rw [hidle.completed, hreceived, receivedBytes_full fun i _ => hdata i]
    · exact hcalled.calls_eq horigin hdir (writeSector_eq_sector hdata hdir)
    · rw [hdir] at hin
      cases hin

/-! ## Steps -/

/-- In a read, the hardware has a packet for the host, and no task is running. -/
theorem Reading.idle {before : List (List Byte)}
    (h : Reading vdReadBlock cbw s.client x before k s') :
    (s'.endpoint .mscIn).hw.available ≠ [] ∧ k < x.packets ∧
      ∃ j ≤ x.packets, x.InIdle vdReadBlock j s'.client := by
  cases h.serving with
  | busy hi ho hq hs hn hK => exact hK.elim
  | queued hi ho hq hn hK => exact hK.elim
  | free hi ho hq hk hK =>
    change k < x.packets at hk
    refine ⟨fun hnil => ?_, hk, _, Nat.min_le_left _ _, hK⟩
    have havailable := hi.line.available
    rw [hnil] at havailable
    have hlength := congrArg List.length havailable
    simp only [List.map_nil, List.length_nil, List.length_map, List.length_range'] at hlength
    change 0 = min x.packets (k + 2) - k at hlength
    omega

/-- In a write, the host can send a packet, or a task is running. -/
theorem Writing.idle (h : Writing True cbw s.client x data k d s') :
    d ≤ k ∧ k ≤ x.packets ∧ s'.client.csws = s.client.csws ∧
      ((s'.endpoint .mscOut).hw.available ≠ [] ∨ s'.client.tasks = [s'.client.asyncToken]) ∧
      ∃ j ≤ x.packets, x.Written data j s'.client := by
  have htasks {j : ℕ} (hK : x.OutBusy data j s'.client) :
      s'.client.tasks = [s'.client.asyncToken] := hK.tasks
  cases h.serving with
  | free hf hk hK =>
    change k < x.packets at hk
    refine ⟨hK.2, Nat.le_of_lt hk, hK.1.csws.trans h.origin.csws, .inl fun hnil => ?_, k,
      Nat.le_of_lt hk, hK.1.written⟩
    have havailable := hf.line.available
    rw [hnil] at havailable
    have hlength := congrArg List.length havailable
    simp only [List.map_nil, List.length_nil, List.length_map, List.length_range'] at hlength
    change 0 = min x.packets (k + 2) - k at hlength
    omega
  | @busy k _ _ _ hb hk hK =>
    change k < x.packets at hk
    exact ⟨Nat.le_succ_of_le hK.2, hk, hK.1.csws.trans h.origin.csws, .inr (htasks hK.1), k + 1, hk,
      hK.1.written⟩
  | @queued k _ _ _ hq hk hK =>
    change k + 1 < x.packets at hk
    exact ⟨Nat.le_add_right_of_le hK.2, hk, hK.1.csws.trans h.origin.csws, .inr (htasks hK.1),
      k + 1, Nat.le_of_lt hk, hK.1.written⟩

/-- Every event leads to another state of the data phase. -/
theorem SectorsAt.step (h : SectorsAt vdReadBlock data cbw s m k s') (hw : MscWired s')
    (hwhole : cbw.WholeSectors) (hdata : ∀ i, (data i).length = 64)
    (hcsws : s'.client.csws = s.client.csws) {event : MscEvent} {k' : ℕ}
    (hevent : DataEvent data s' k event k') (hdepth : 3 ≤ depth) :
    ∃ s'', mscStep vdReadBlock depth s' event = .ok s'' ∧
      SectorsAt vdReadBlock data cbw s (m + 1) k' s'' := by
  cases h with
  | done hdone hm =>
    obtain ⟨note, -, hnote, -⟩ := hdone.csw
    rw [hcsws] at hnote
    simp at hnote
  | reading hreading hout hdir =>
    obtain ⟨-, -, j, -, hidle⟩ := hreading.idle
    cases hevent with
    | taken packet havail =>
      exact (hreading.buffer hw hout havail packet (by omega)).sectorsAt hwhole hreading.origin hdir
    | sent havail => exact absurd hout.available havail
    | done hi =>
      rw [hidle.tasks] at hi
      cases hi
    | left result hi htoken =>
      rw [hidle.tasks] at hi
      cases hi
  | @writing _ x k d hwriting hdir =>
    obtain ⟨hle, -⟩ := hwriting.idle
    cases hevent with
    | taken packet havail => exact absurd hwriting.quiet.available havail
    | sent havail =>
      have hafter : WriteAfter True cbw s.client x data (k + 1) d
          (mscStep vdReadBlock depth s' (.buffer .mscOut (data k))) :=
        hwriting.buffer hw havail (fun _ _ => rfl) (fun i => Nat.le_of_eq (hdata i))
          (fun _ => hdata k) hdepth
      rw [Nat.add_right_comm]
      exact hafter.sectorsAt hwhole hwriting.origin hdir hdata (Nat.le_succ_of_le hle)
    | done hi =>
      have hlt := (List.getElem?_eq_some_iff.1 hi).1
      obtain ⟨j, hj, -, hdj, -⟩ := hwriting.busy hlt
      exact (hwriting.asyncComplete hw hlt hdepth).sectorsAt hwhole hwriting.origin hdir hdata
        (by omega : d + 1 ≤ k)
    | left result hi htoken =>
      obtain ⟨j, -, -, -, hbusy, -⟩ := hwriting.busy (List.getElem?_eq_some_iff.1 hi).1
      rw [hbusy.tasks] at hi
      exact absurd (List.mem_singleton.1 (List.mem_of_getElem? hi)) htoken

/-- There is an event while the CSW was not started. -/
theorem SectorsAt.progress (h : SectorsAt vdReadBlock data cbw s m k s')
    (hcsws : s'.client.csws = s.client.csws) :
    ∃ event k', DataEvent data s' k event k' ∧ event.OfCommand s' := by
  cases h with
  | done hdone hm =>
    obtain ⟨note, -, hnote, -⟩ := hdone.csw
    rw [hcsws] at hnote
    simp at hnote
  | reading hreading hout hdir => exact ⟨_, _, .taken [] hreading.idle.1, trivial⟩
  | writing hwriting hdir =>
    obtain ⟨-, -, -, havail | htask, -⟩ := hwriting.idle
    · exact ⟨_, _, .sent havail, trivial⟩
    · have hget : s'.client.tasks[0]? = some s'.client.asyncToken := by
        rw [htask]
        rfl
      exact ⟨_, _, .done hget, hget⟩

theorem SectorsAt.events_le (h : SectorsAt vdReadBlock data cbw s m k s')
    (hwhole : cbw.WholeSectors) : m ≤ 16 * cbw.blocks.toNat := by
  cases h with
  | done hdone hm => exact hm
  | reading hreading hout hdir =>
    have hpackets := hreading.origin.packets hwhole
    have hlt := hreading.idle.2.1
    omega
  | writing hwriting hdir =>
    have hpackets := hwriting.origin.packets hwhole
    obtain ⟨hle, hk, -⟩ := hwriting.idle
    omega

/-- The calls so far are those for the first sectors. -/
theorem SectorsAt.calls (h : SectorsAt vdReadBlock data cbw s m k s')
    (hwhole : cbw.WholeSectors) (hdata : ∀ i, (data i).length = 64) :
    ∃ j ≤ cbw.blocks.toNat, s'.client.calls = s.client.calls ++
      cbw.sectorCalls vdReadBlock data s.client.asyncToken j := by
  cases h with
  | done hdone hm => exact ⟨_, Nat.le_refl _, hdone.calls⟩
  | reading hreading hout hdir =>
    have hpackets := hreading.origin.packets hwhole
    obtain ⟨-, -, j, hj, hidle⟩ := hreading.idle
    exact ⟨(j + 7) / 8, by omega,
      hidle.called.calls_eq hreading.origin hdir (hreading.origin.readSector hdir)⟩
  | writing hwriting hdir =>
    have hpackets := hwriting.origin.packets hwhole
    obtain ⟨-, -, -, -, j, hj, hwritten⟩ := hwriting.idle
    have hstored := hwritten (by omega) fun i _ => hdata i
    exact ⟨j / 8, by omega,
      hstored.called.calls_eq hwriting.origin hdir (writeSector_eq_sector hdata hdir)⟩

/-- The CSW was started at the end. -/
theorem SectorsAt.sectorsDone (h : SectorsAt vdReadBlock data cbw s m k s')
    (hcsws : s'.client.csws ≠ s.client.csws) : SectorsDone vdReadBlock data cbw s s' := by
  cases h with
  | done hdone hm => exact hdone
  | reading hreading hout hdir =>
    obtain ⟨-, -, j, -, hidle⟩ := hreading.idle
    exact absurd (hidle.csws.trans hreading.origin.csws) hcsws
  | writing hwriting hdir => exact absurd hwriting.idle.2.2.1 hcsws

/-- The token of a data phase is one of the command. -/
theorem SectorsAt.asyncToken (h : SectorsAt vdReadBlock data cbw s m k s')
    (hwhole : cbw.WholeSectors) (hdata : ∀ i, (data i).length = 64)
    (hcsws : s'.client.csws = s.client.csws) :
    ∃ j ≤ cbw.blocks.toNat, s'.client.asyncToken =
      s.client.asyncToken + 1 + BitVec.ofNat 32 j := by
  cases h with
  | done hdone hm =>
    obtain ⟨note, -, hnote, -⟩ := hdone.csw
    rw [hcsws] at hnote
    simp at hnote
  | reading hreading hout hdir =>
    have hpackets := hreading.origin.packets hwhole
    obtain ⟨-, -, j, hj, hidle⟩ := hreading.idle
    exact ⟨(j + 7) / 8, by omega, by rw [hidle.called.token, hreading.origin.token]⟩
  | writing hwriting hdir =>
    have hpackets := hwriting.origin.packets hwhole
    obtain ⟨-, -, -, -, j, hj, hwritten⟩ := hwriting.idle
    have hstored := hwritten (by omega) fun i _ => hdata i
    exact ⟨j / 8, by omega, by rw [hstored.called.token, hwriting.origin.token]⟩

/-! ## Beside tasks of earlier commands -/

/-- An event is the end of a task that an earlier command has left, or happens without those tasks
as well. -/
theorem DataEvent.withLeft_cases (vdReadBlock : Word → ℕ → Byte) (depth : ℕ) {left : List Word}
    {event : MscEvent} {k' : ℕ} (h : DataEvent data (s.withLeft left) k event k') :
    (∃ i token result, event = .asyncComplete i result ∧ left[i]? = some token ∧ k' = k) ∨
      ∃ event', DataEvent data s k event' k' ∧
        mscStep vdReadBlock depth (s.withLeft left) event =
          (·.withLeft left) <$> mscStep vdReadBlock depth s event' := by
  have hget (i : ℕ) : (∃ token, left[i]? = some token) ∨ ∃ n, i = left.length + n ∧
      (s.withLeft left).client.tasks[i]? = s.client.tasks[n]? := by
    rcases Nat.lt_or_ge i left.length with hlt | hge
    · exact .inl ⟨_, List.getElem?_eq_getElem hlt⟩
    · exact .inr ⟨i - left.length, by omega, List.getElem?_append_right hge⟩
  cases h with
  | taken packet havail => exact .inr ⟨_, .taken packet havail, mscStep_buffer_withLeft⟩
  | sent havail => exact .inr ⟨_, .sent havail, mscStep_buffer_withLeft⟩
  | @done i hi =>
    rcases hget i with ⟨token, htoken⟩ | ⟨n, rfl, heq⟩
    · exact .inl ⟨i, token, 0, rfl, htoken, rfl⟩
    · exact .inr ⟨_, .done (heq.symm.trans hi), mscStep_done_withLeft⟩
  | @left i token result hi htoken =>
    rcases hget i with ⟨token', htoken'⟩ | ⟨n, rfl, heq⟩
    · exact .inl ⟨i, token', result, rfl, htoken', rfl⟩
    · exact .inr ⟨_, .left result (heq.symm.trans hi) htoken, mscStep_done_withLeft⟩

/-- An event of the command happens beside tasks of earlier commands as well. -/
theorem DataEvent.withLeft {event : MscEvent} {k' : ℕ} (h : DataEvent data s k event k')
    (hof : event.OfCommand s) (left : List Word) :
    ∃ event', DataEvent data (s.withLeft left) k event' k' ∧
      event'.OfCommand (s.withLeft left) := by
  cases h with
  | taken packet havail => exact ⟨_, .taken packet havail, trivial⟩
  | sent havail => exact ⟨_, .sent havail, trivial⟩
  | @done i hi =>
    have hget : (s.withLeft left).client.tasks[left.length + i]? =
        some (s.withLeft left).client.asyncToken := by
      refine (List.getElem?_append_right (Nat.le_add_right _ _)).trans ?_
      rw [Nat.add_sub_cancel_left]
      exact hi
    exact ⟨_, .done hget, hget⟩
  | left result hi htoken => exact absurd (Option.some.inj (hi.symm.trans hof)) htoken

variable (vdReadBlock data cbw s) in
/-- A state of the data phase of a command, beside those tasks of `s` that are still running. `m`
has the ends of the others as well. -/
def SectorsBeside (m k : ℕ) (s' : MscState) : Prop :=
  ∃ left s₁ n, left.Sublist s.client.tasks ∧ m + left.length = n + s.client.tasks.length ∧
    s' = s₁.withLeft left ∧ SectorsAt vdReadBlock data cbw s.withoutTasks n k s₁

/-- The endpoints are wired the same without the tasks. -/
theorem MscWired.of_withLeft {left : List Word} (h : MscWired (s.withLeft left)) : MscWired s :=
  ⟨h.isIn, h.doubleBuffered, h.onStallChange, h.defaultTransfer, h.cmdType, h.order⟩

/-- Every event leads to another state of the data phase, if no task that was left has a token of
the command. -/
theorem SectorsBeside.step (h : SectorsBeside vdReadBlock data cbw s m k s') (hw : MscWired s')
    (hwhole : cbw.WholeSectors) (hdata : ∀ i, (data i).length = 64)
    (hfresh : cbw.NoTokenLeft s.client) (hcsws : s'.client.csws = s.client.csws)
    {event : MscEvent} {k' : ℕ} (hevent : DataEvent data s' k event k') (hdepth : 3 ≤ depth) :
    ∃ s'', mscStep vdReadBlock depth s' event = .ok s'' ∧
      SectorsBeside vdReadBlock data cbw s (m + 1) k' s'' := by
  obtain ⟨left, s₁, n, hsub, hcount, rfl, hat⟩ := h
  rcases hevent.withLeft_cases vdReadBlock depth with
    ⟨i, token, result, rfl, hi, rfl⟩ | ⟨event', hevent', heq⟩
  · -- the token of a task that was left is not the one that is waited for
    have hne : token ≠ s₁.client.asyncToken := by
      obtain ⟨j, hj, hj'⟩ := hat.asyncToken hwhole hdata hcsws
      rw [hj']
      exact hfresh token (hsub.subset (List.mem_of_getElem? hi)) j hj
    have hlt := (List.getElem?_eq_some_iff.1 hi).1
    have hlength := List.length_eraseIdx_of_lt hlt
    exact ⟨_, mscStep_left hi hne, left.eraseIdx i, s₁, n,
      (List.eraseIdx_sublist left i).trans hsub, by omega, rfl, hat⟩
  · obtain ⟨s₂, hs₂, hat₂⟩ := hat.step hw.of_withLeft hwhole hdata hcsws hevent' hdepth
    rw [heq, hs₂]
    exact ⟨_, rfl, left, s₂, n + 1, hsub, by omega, rfl, hat₂⟩

/-- What the states of the data phase say, beside the tasks that were left. -/
structure SectorsSound (vdReadBlock : Word → ℕ → Byte) (data : ℕ → List Byte) (cbw : ScsiCbw)
    (s : MscState) (m k : ℕ) (s' : MscState) : Prop where
  events : m ≤ 16 * cbw.blocks.toNat + s.client.tasks.length
  calls : ∃ j ≤ cbw.blocks.toNat, s'.client.calls = s.client.calls ++
    cbw.sectorCalls vdReadBlock data s.client.asyncToken j
  progress : s'.client.csws = s.client.csws →
    ∃ event k', DataEvent data s' k event k' ∧ event.OfCommand s'
  done : s'.client.csws ≠ s.client.csws → SectorsDone vdReadBlock data cbw s s'

theorem SectorsBeside.sound (h : SectorsBeside vdReadBlock data cbw s m k s')
    (hwhole : cbw.WholeSectors) (hdata : ∀ i, (data i).length = 64) :
    SectorsSound vdReadBlock data cbw s m k s' := by
  obtain ⟨left, s₁, n, hsub, hcount, rfl, hat⟩ := h
  have hle := hat.events_le hwhole
  refine ⟨by omega, hat.calls hwhole hdata, fun hcsws => ?_, fun hcsws => ?_⟩
  · obtain ⟨event, k', hevent, hof⟩ := hat.progress hcsws
    obtain ⟨event', hevent', hof'⟩ := hevent.withLeft hof left
    exact ⟨event', k', hevent', hof'⟩
  · have hdone := hat.sectorsDone hcsws
    exact ⟨hdone.calls, hdone.csw⟩

/-! ## Runs -/

/-- The state when the transfer of the command has ended. -/
theorem CommandStart.sectorsAt (hwhole : cbw.WholeSectors) (hdata : ∀ i, (data i).length = 64)
    (h : CommandStart vdReadBlock True True cbw s.client
      ((s.endpoint .mscIn).hw.given.map (·.packet)) s') :
    SectorsAt vdReadBlock data cbw s 0 0 s' ∧ s'.client.csws = s.client.csws := by
  have hsectors := hwhole.data
  cases h with
  | reading h hdir hout =>
    rw [hsectors] at hdir
    obtain ⟨-, -, j, -, hidle⟩ := h.idle
    exact ⟨.reading h hout (ScsiData.sectors.inj hdir), hidle.csws.trans h.origin.csws⟩
  | responding h hdir hout =>
    rw [hsectors] at hdir
    cases hdir
  | @writing x h hdir =>
    rw [hsectors] at hdir
    have hwriting : Writing True cbw s.client x data 0 0 s' := by
      refine ⟨h.origin, h.quiet, h.serving.congr (fun i hi => absurd hi (Nat.not_lt_zero i))
        (fun i hi hK => ⟨?_, hK.2⟩) fun i hi => absurd hi (Nat.not_lt_zero i),
        fun i => Nat.le_of_eq (hdata i), fun _ i _ => hdata i, h.transferred⟩
      exact hK.1.transfer (fun j hj => absurd (Nat.lt_of_lt_of_le hj hi) (Nat.not_lt_zero j)) 0
    exact ⟨.writing hwriting (ScsiData.sectors.inj hdir), hwriting.idle.2.2.1⟩
  | ended h hmoved =>
    have hpos := hwhole.pos
    rw [hwhole.plan_eq] at hmoved
    dsimp only at hmoved
    omega

/-- Every state of a run is one of the data phase. -/
theorem DataRun.sectorsBeside {s₀ : MscState} (hwhole : cbw.WholeSectors)
    (hdata : ∀ i, (data i).length = 64) (hfresh : cbw.NoTokenLeft s.client) (hw : MscWired s₀)
    (h₀ : SectorsBeside vdReadBlock data cbw s 0 0 s₀) (hcsws₀ : s₀.client.csws = s.client.csws)
    (hdepth : 3 ≤ depth) (h : DataRun vdReadBlock depth data s₀ m k s') :
    SectorsBeside vdReadBlock data cbw s m k s' ∧ MscWired s' := by
  induction h with
  | start => exact ⟨h₀, hw⟩
  | step h hcsws hevent hs' ih =>
    obtain ⟨hat, hw'⟩ := ih
    obtain ⟨s'', hs'', hat'⟩ :=
      hat.step hw' hwhole hdata hfresh (hcsws.trans hcsws₀) hevent hdepth
    rw [hs'] at hs''
    obtain rfl := Except.ok.inj hs''
    refine ⟨hat', hw'.of_same (mscStep_wiring (fun num hnum => ?_) hs')⟩
    rw [hnum] at hevent
    cases hevent

variable {packet : List Byte}

/-- The packet of a command, and the data phase that it begins. -/
theorem wholeSectors_start (vdReadBlock : Word → ℕ → Byte) (harmed : MscArmed s) (hw : MscWired s)
    (hin : (s.endpoint .mscIn).Quiet)
    (haccepted : (ScsiCbw.ofPacket packet).Accepted packet.length)
    (hwhole : (ScsiCbw.ofPacket packet).WholeSectors) (hdata : ∀ i, (data i).length = 64)
    (hdepth : 4 ≤ depth) :
    ∃ s₀, mscStep vdReadBlock depth s (.buffer .mscOut packet) = .ok s₀ ∧ MscWired s₀ ∧
      SectorsBeside vdReadBlock data (.ofPacket packet) s 0 0 s₀ ∧
      s₀.client.csws = s.client.csws := by
  have hcount : countTransferred .mscOut packet s = s := by
    unfold countTransferred
    rw [harmed.current]
  obtain ⟨s₀, hs₀, hstart⟩ : ∃ s₀, usbBufferInterrupt (usbCalls (mscDriver vdReadBlock) depth)
      .mscOut packet s = .ok (s₀.withLeft s.client.tasks) ∧
        CommandStart vdReadBlock True True (.ofPacket packet) s.withoutTasks.client
          ((s.endpoint .mscIn).hw.given.map (·.packet)) s₀ :=
    bufferInterrupt_accepted harmed hw hin haccepted hdepth
  have hs₀' : mscStep vdReadBlock depth s (.buffer .mscOut packet) =
      .ok (s₀.withLeft s.client.tasks) := by
    change usbBufferInterrupt _ .mscOut packet (countTransferred .mscOut packet s) = _
    rw [hcount]
    exact hs₀
  obtain ⟨hat, hcsws⟩ := CommandStart.sectorsAt (s := s.withoutTasks) hwhole hdata hstart
  exact ⟨_, hs₀', hw.of_same (mscStep_wiring (fun _ h => by cases h) hs₀'),
    ⟨s.client.tasks, s₀, 0, .refl _, rfl, rfl, hat⟩, hcsws⟩

/-- Events follow each other up to the CSW. -/
theorem DataRun.completes {s₀ : MscState} (hwhole : cbw.WholeSectors)
    (hdata : ∀ i, (data i).length = 64) (hfresh : cbw.NoTokenLeft s.client) (hw : MscWired s₀)
    (h₀ : SectorsBeside vdReadBlock data cbw s 0 0 s₀) (hcsws₀ : s₀.client.csws = s.client.csws)
    (hdepth : 3 ≤ depth) :
    ∃ m k s', DataRun vdReadBlock depth data s₀ m k s' ∧ SectorsDone vdReadBlock data cbw s s' := by
  -- a run as long as the bound, or the CSW before
  have hrun (n : ℕ) : ∃ m k s', DataRun vdReadBlock depth data s₀ m k s' ∧
      (SectorsDone vdReadBlock data cbw s s' ∨ m = n) := by
    induction n with
    | zero => exact ⟨0, 0, s₀, .start, .inr rfl⟩
    | succ n ih =>
      obtain ⟨m, k, s', hrun, hdone | rfl⟩ := ih
      · exact ⟨m, k, s', hrun, .inl hdone⟩
      · obtain ⟨hat, hw'⟩ := hrun.sectorsBeside hwhole hdata hfresh hw h₀ hcsws₀ hdepth
        by_cases hcsws : s'.client.csws = s.client.csws
        · obtain ⟨event, k', hevent, -⟩ := (hat.sound hwhole hdata).progress hcsws
          obtain ⟨s'', hs'', -⟩ := hat.step hw' hwhole hdata hfresh hcsws hevent hdepth
          exact ⟨_, k', s'', hrun.step (hcsws.trans hcsws₀.symm) hevent hs'', .inr rfl⟩
        · exact ⟨m, k, s', hrun, .inl ((hat.sound hwhole hdata).done hcsws)⟩
  obtain ⟨m, k, s', hrun, hdone | hm⟩ := hrun (16 * cbw.blocks.toNat + s.client.tasks.length + 1)
  · exact ⟨m, k, s', hrun, hdone⟩
  · have hat := (hrun.sectorsBeside hwhole hdata hfresh hw h₀ hcsws₀ hdepth).1
    have hle := (hat.sound hwhole hdata).events
    omega

/-- `READ_10` or `WRITE_10` for whole sectors, in the direction and of the length that the host
expects, when `msc_out` waits for a command, `msc_in` is quiet and no task that earlier commands
have left has a token of the command. Apart from the ends of those tasks, the data phase has at most
16 events for each sector, in any order in which they can happen, and there is one until the CSW is
started. The calls of `vd_read_block` or `vd_write_block` are those of the sectors from `lba` on, in
order, each with the next token ; when the CSW is started, all of them were made, the packets for
the host were the sectors, the residue is zero and the status is `commandPassed`. -/
theorem wholeSectors_moved (vdReadBlock : Word → ℕ → Byte) (data : ℕ → List Byte)
    (harmed : MscArmed s) (hw : MscWired s) (hin : (s.endpoint .mscIn).Quiet)
    (haccepted : (ScsiCbw.ofPacket packet).Accepted packet.length)
    (hwhole : (ScsiCbw.ofPacket packet).WholeSectors) (hdata : ∀ i, (data i).length = 64)
    (hfresh : (ScsiCbw.ofPacket packet).NoTokenLeft s.client) (hdepth : 4 ≤ depth) :
    ∃ s₀, mscStep vdReadBlock depth s (.buffer .mscOut packet) = .ok s₀ ∧
      s₀.client.csws = s.client.csws ∧
      ∀ m k s', DataRun vdReadBlock depth data s₀ m k s' →
        m ≤ 16 * (ScsiCbw.ofPacket packet).blocks.toNat + s.client.tasks.length ∧
        (∃ j ≤ (ScsiCbw.ofPacket packet).blocks.toNat, s'.client.calls = s.client.calls ++
          (ScsiCbw.ofPacket packet).sectorCalls vdReadBlock data s.client.asyncToken j) ∧
        (s'.client.csws = s.client.csws →
          (∃ event k', DataEvent data s' k event k' ∧ event.OfCommand s') ∧
          ∀ event k', DataEvent data s' k event k' →
            ∃ s'', mscStep vdReadBlock depth s' event = .ok s'') ∧
        (s'.client.csws ≠ s.client.csws →
          SectorsDone vdReadBlock data (.ofPacket packet) s s') := by
  obtain ⟨s₀, hs₀, hw₀, hat₀, hcsws₀⟩ :=
    wholeSectors_start vdReadBlock harmed hw hin haccepted hwhole hdata hdepth
  refine ⟨s₀, hs₀, hcsws₀, fun m k s' hrun => ?_⟩
  obtain ⟨hat, hw'⟩ := hrun.sectorsBeside hwhole hdata hfresh hw₀ hat₀ hcsws₀ (by omega)
  have hsound := hat.sound hwhole hdata
  refine ⟨hsound.events, hsound.calls, fun hcsws => ⟨hsound.progress hcsws, ?_⟩, hsound.done⟩
  intro event k' hevent
  obtain ⟨s'', hs'', -⟩ := hat.step hw' hwhole hdata hfresh hcsws hevent (by omega : 3 ≤ depth)
  exact ⟨s'', hs''⟩

end Run

/-! ## Commands of a configured device -/

/-- The packet of a `READ_10` or `WRITE_10`, from sector 0. -/
def blockCommand (flags op blocks : Byte) (len : Word) : List Byte :=
  wordBytes cbwSig ++ wordBytes 1 ++ wordBytes len ++
    [flags, 0, 10, op, 0, 0, 0, 0, 0, 0, 0, blocks, 0] ++ List.replicate 6 0

/-- Packets of zeroes. -/
def zeroPackets (_ : ℕ) : List Byte := List.replicate 64 0

theorem zeroPackets_length (i : ℕ) : (zeroPackets i).length = 64 := List.length_replicate

/-- A task with the given token was left before a command. -/
def taskLeft (token : Word) : MscState :=
  mscConfigured.awaitCommand.modifyClient fun K => { K with tasks := [token] }

theorem taskLeft_client (token : Word) :
    (taskLeft token).client = { mscConfigured.client with tasks := [token] } := by
  change { mscConfigured.awaitCommand.client with tasks := [token] } = _
  rw [awaitCommand_client]

theorem awaitCommand_quiet : (mscConfigured.awaitCommand.endpoint .mscIn).Quiet := by
  rw [awaitCommand_mscIn]
  exact ⟨⟨rfl, rfl, rfl, rfl⟩, fun h => by cases h⟩

/-- `wholeSectors_moved`, for a `WRITE_10` of one sector after a command that has left a task. -/
theorem wholeSectors_moved_one :
    ∃ s₀, mscStep emptyDisk 4 (taskLeft 0) (.buffer .mscOut (blockCommand 0 0x2a 1 512)) = .ok s₀ ∧
      ∀ m k s', DataRun emptyDisk 4 zeroPackets s₀ m k s' → m ≤ 17 := by
  have hwhole : (ScsiCbw.ofPacket (blockCommand 0 0x2a 1 512)).WholeSectors :=
    ⟨.inr (by decide), by decide, by decide +kernel, by decide⟩
  have hw : MscWired (taskLeft 0) :=
    mscConfigured_wired.of_same (.trans (.modifyClient _ _) awaitCommand_sameWiring)
  have hfresh : (ScsiCbw.ofPacket (blockCommand 0 0x2a 1 512)).NoTokenLeft (taskLeft 0).client := by
    intro token htoken j hj
    have hblocks : (ScsiCbw.ofPacket (blockCommand 0 0x2a 1 512)).blocks.toNat = 1 := by
      decide +kernel
    rw [taskLeft_client] at htoken ⊢
    rw [List.mem_singleton.1 htoken]
    rw [hblocks] at hj
    change (0 : Word) ≠ 0 + 1 + BitVec.ofNat 32 j
    rcases Nat.le_one_iff_eq_zero_or_eq_one.1 hj with rfl | rfl
    · decide
    · decide
  obtain ⟨s₀, hs₀, -, hruns⟩ := wholeSectors_moved (s := taskLeft 0) emptyDisk zeroPackets
    { mscConfigured_armed with } hw awaitCommand_quiet (by decide +kernel) hwhole zeroPackets_length
    hfresh (Nat.le_refl 4)
  exact ⟨s₀, hs₀, fun m k s' hrun => (hruns m k s' hrun).1⟩

/-- No sector was moved, no CSW was started, and nothing can happen in the data phase. -/
structure MscStuck (s : MscState) : Prop where
  calls : s.client.calls = []
  csws : s.client.csws = []
  noEvent : ∀ data k event k', ¬DataEvent data s k event k'

/-- A run that ends without calls, CSWs, tasks and buffers. -/
def endsEmpty : UsbResult MscState → Bool
  | .ok s => decide (s.client.calls = [] ∧ s.client.csws = [] ∧ s.client.tasks = [] ∧
      (s.endpoint .mscIn).hw.available.length = 0 ∧ (s.endpoint .mscOut).hw.available.length = 0)
  | .error _ => false

theorem mscStuck_of_endsEmpty {r : UsbResult MscState} (h : endsEmpty r = true) :
    ∃ s, r = .ok s ∧ MscStuck s := by
  cases r with
  | error fault => cases h
  | ok s =>
    obtain ⟨hcalls, hcsws, htasks, hin, hout⟩ := of_decide_eq_true h
    refine ⟨s, rfl, hcalls, hcsws, fun data k event k' hevent => ?_⟩
    cases hevent with
    | taken packet havail => exact havail (List.length_eq_zero_iff.1 hin)
    | sent havail => exact havail (List.length_eq_zero_iff.1 hout)
    | done hi =>
      rw [htasks] at hi
      cases hi
    | left result hi htoken =>
      rw [htasks] at hi
      cases hi

/-- The state in which the token is about to wrap. -/
def lastTokens : MscState :=
  mscConfigured.awaitCommand.modifyClient fun K => { K with asyncToken := 0xfffffffd }

/-- The tokens of the calls in a run. -/
def callTokens : UsbResult MscState → Option (List Word)
  | .ok s => some (s.client.calls.map (·.token))
  | .error _ => none

theorem exists_of_callTokens {r : UsbResult MscState} {tokens : List Word}
    (h : callTokens r = some tokens) : ∃ s, r = .ok s ∧ s.client.calls.map (·.token) = tokens := by
  cases r with
  | error fault => cases h
  | ok s => exact ⟨s, rfl, Option.some.inj h⟩

/-- A `WRITE_10` of two sectors, and a task that ends between them. -/
def twoSectorsWritten : List MscEvent :=
  .buffer .mscOut (blockCommand 0 0x2a 2 1024) ::
    List.replicate 8 (.buffer .mscOut (zeroPackets 0)) ++ .asyncComplete 0 0 ::
      List.replicate 8 (.buffer .mscOut (zeroPackets 0))

/-- No sector is moved if the direction flag is not that of the command, and none if `msc_in` is
still stalled for an earlier command. The tokens of two sectors are not in order if the token wraps
between them, and two sectors are written by three calls if a task that was left has the token of
the first one. -/
theorem sectors_not_moved :
    (∃ s, mscStep emptyDisk 4 mscConfigured.awaitCommand
        (.buffer .mscOut (blockCommand 0x80 0x2a 1 512)) = .ok s ∧ MscStuck s) ∧
    (∃ s, [.buffer .mscOut (blockCommand 0x80 0x00 0 1), .clearFeature .mscOut,
        .buffer .mscOut (blockCommand 0x80 0x28 1 512)].foldlM (mscStep emptyDisk 4)
          mscConfigured.awaitCommand = .ok s ∧ MscStuck s) ∧
    (∃ s₀ m k s, mscStep emptyDisk 4 lastTokens
        (.buffer .mscOut (blockCommand 0x80 0x28 2 1024)) = .ok s₀ ∧
      DataRun emptyDisk 4 zeroPackets s₀ m k s ∧
      s.client.calls.map (·.token) = [0xffffffff, 0]) ∧
    ∃ s, twoSectorsWritten.foldlM (mscStep emptyDisk 4) (taskLeft 2) = .ok s ∧
      s.client.calls.map (·.token) = [2, 3, 4] := by
  refine ⟨mscStuck_of_endsEmpty (by decide +kernel), mscStuck_of_endsEmpty (by decide +kernel), ?_,
    ?_⟩
  · have hwhole : (ScsiCbw.ofPacket (blockCommand 0x80 0x28 2 1024)).WholeSectors :=
      ⟨.inl (by decide), by decide, by decide +kernel, by decide⟩
    have hw : MscWired lastTokens :=
      mscConfigured_wired.of_same (.trans (.modifyClient _ _) awaitCommand_sameWiring)
    have hnone : lastTokens.client.tasks = [] ∧ lastTokens.client.calls = [] := by
      change mscConfigured.awaitCommand.client.tasks = [] ∧
        mscConfigured.awaitCommand.client.calls = []
      rw [awaitCommand_client]
      exact ⟨rfl, rfl⟩
    have hfresh : (ScsiCbw.ofPacket (blockCommand 0x80 0x28 2 1024)).NoTokenLeft
        lastTokens.client := by
      intro token htoken
      rw [hnone.1] at htoken
      cases htoken
    obtain ⟨s₀, hs₀, hw₀, hat₀, hcsws₀⟩ := wholeSectors_start emptyDisk (s := lastTokens)
      { mscConfigured_armed with } hw awaitCommand_quiet (by decide +kernel) hwhole
      zeroPackets_length (Nat.le_refl 4)
    obtain ⟨m, k, s, hrun, hdone⟩ :=
      DataRun.completes hwhole zeroPackets_length hfresh hw₀ hat₀ hcsws₀ (by decide : 3 ≤ 4)
    refine ⟨s₀, m, k, s, hs₀, hrun, ?_⟩
    rw [hdone.calls, List.map_append, hnone.2]
    decide +kernel
  · exact exists_of_callTokens (by decide +kernel)

end PicoBootrom
