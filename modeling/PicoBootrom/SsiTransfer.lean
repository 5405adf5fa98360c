import PicoBootrom.Runs
import PicoBootrom.FlashBus

/-!
# Transfers over the SSI

`flash_put_get` keeps the FIFOs of the SSI filled from one buffer and empties them into another,
while the hardware moves bytes at its own pace : from the TX FIFO into the shifter, which holds two
bytes at most, and from there over the bus, where the device returns a byte for each, which goes
into the RX FIFO. The loop may be interrupted for as long as the hardware likes, so no byte may be
pushed if there is no room for its answer.

A run is a list of events of the hardware and of the processor in any order. The levels of the two
FIFOs are read one after the other, and the bytes that move between the two reads are counted
twice, never missed : what is in flight is at most the sum of the levels and the two bytes in the
shifter (`PutGet.Phase`).
-/

namespace PicoBootrom

/-! ## The SSI -/

/-- The FIFOs of the SSI and its shifter, the oldest byte first, with the bytes that went over the
bus so far, each with the byte that the device returned for it. -/
structure Ssi where
  tx : List Byte := []
  shifter : List Byte := []
  rx : List Byte := []
  exchanged : List (Byte × Byte) := []
  /-- A byte was lost because a FIFO was full. -/
  overflow : Bool := false
  deriving DecidableEq, Repr

/-- The depth of the FIFOs. -/
def fifoDepth : ℕ := 16

namespace Ssi

variable {s : Ssi} {n : ℕ}

/-- The bytes that were pushed and whose answers were not popped. -/
def inFlight (s : Ssi) : ℕ :=
  s.tx.length + s.shifter.length + s.rx.length

/-- All bytes pushed so far. -/
def pushed (s : Ssi) : List Byte :=
  s.exchanged.map Prod.fst ++ s.shifter ++ s.tx

/-- A write to `dr0`. -/
def push (s : Ssi) (byte : Byte) : Ssi :=
  if s.tx.length < fifoDepth then { s with tx := s.tx ++ [byte] } else { s with overflow := true }

/-- A read of `dr0`. -/
def pop (s : Ssi) : Ssi × Byte :=
  ({ s with rx := s.rx.tail }, s.rx.headD 0)

/-- A byte moves from the TX FIFO into the shifter. -/
def shift (s : Ssi) : Ssi :=
  match s.tx with
  | [] => s
  | b :: tx => if s.shifter.length < 2 then { s with tx := tx, shifter := s.shifter ++ [b] } else s

/-- A byte in the shifter has gone over the bus, and `byte` was returned for it. -/
def receive (s : Ssi) (byte : Byte) : Ssi :=
  match s.shifter with
  | [] => s
  | b :: shifter =>
    let s := { s with shifter := shifter, exchanged := s.exchanged ++ [(b, byte)] }
    if s.rx.length < fifoDepth then { s with rx := s.rx ++ [byte] } else { s with overflow := true }

/-- No byte was lost, and of the bytes that were returned all but the first `n` are in the RX
FIFO. -/
structure Sound (s : Ssi) (n : ℕ) : Prop where
  overflow : s.overflow = false
  shifter : s.shifter.length ≤ 2
  inFlight : s.inFlight ≤ fifoDepth
  popped : n ≤ s.exchanged.length
  rx : s.rx = (s.exchanged.map Prod.snd).drop n

theorem Sound.rx_length (h : s.Sound n) : s.rx.length = s.exchanged.length - n := by
  rw [h.rx, List.length_drop, List.length_map]

/-- Each byte pushed is in flight or was popped. -/
theorem Sound.pushed_length (h : s.Sound n) : s.pushed.length = n + s.inFlight := by
  have hrx := h.rx_length
  have hn := h.popped
  rw [Ssi.pushed, Ssi.inFlight, List.length_append, List.length_append, List.length_map]
  omega

/-- A byte is pushed while there is room for its answer. -/
theorem Sound.push (h : s.Sound n) (hroom : s.inFlight < fifoDepth) (byte : Byte) :
    (s.push byte).Sound n ∧ (s.push byte).pushed = s.pushed ++ [byte] ∧
      (s.push byte).exchanged = s.exchanged ∧ (s.push byte).rx = s.rx := by
  have hlt : s.tx.length < fifoDepth := by
    rw [Ssi.inFlight] at hroom
    omega
  rw [Ssi.push, if_pos hlt]
  refine ⟨⟨h.overflow, h.shifter, ?_, h.popped, h.rx⟩, ?_, rfl, rfl⟩
  · simp only [Ssi.inFlight, List.length_append, List.length_singleton] at hroom ⊢
    omega
  · simp only [Ssi.pushed, List.append_assoc]

/-- The byte that is popped is the one that the device returned for the `n`-th byte. -/
theorem Sound.pop (h : s.Sound n) (hrx : s.rx ≠ []) :
    s.pop.1.Sound (n + 1) ∧ (s.exchanged[n]?).map Prod.snd = some s.pop.2 := by
  have hlength := h.rx_length
  have hpos := List.length_pos_iff.2 hrx
  refine ⟨⟨h.overflow, h.shifter, ?_, ?_, ?_⟩, ?_⟩
  · have hle := h.inFlight
    simp only [Ssi.inFlight, Ssi.pop, List.length_tail] at hle ⊢
    omega
  · change n + 1 ≤ s.exchanged.length
    omega
  · change s.rx.tail = _
    rw [h.rx, List.tail_drop]
    rfl
  · rw [← List.getElem?_map, ← List.head?_drop, ← h.rx, Ssi.pop]
    cases hcase : s.rx with
    | nil => exact absurd hcase hrx
    | cons b rx => rfl

/-- The hardware loses no byte and reorders none. The RX FIFO only grows. -/
structure Moves (s s' : Ssi) : Prop where
  sound (n : ℕ) (h : s.Sound n) : s'.Sound n
  pushed : s'.pushed = s.pushed
  inFlight : s'.inFlight = s.inFlight
  rx : s.rx.length ≤ s'.rx.length
  exchanged : s.exchanged <+: s'.exchanged

theorem moves_self (s : Ssi) : s.Moves s where
  sound _ h := h
  pushed := rfl
  inFlight := rfl
  rx := Nat.le_refl _
  exchanged := List.prefix_refl _

theorem moves_shift (s : Ssi) : s.Moves s.shift := by
  unfold Ssi.shift
  split
  · exact s.moves_self
  · next b tx htx =>
    split
    · next hroom =>
      have hinFlight : Ssi.inFlight { s with tx := tx, shifter := s.shifter ++ [b] } =
          s.inFlight := by
        simp only [Ssi.inFlight, htx, List.length_append, List.length_cons, List.length_nil]
        omega
      refine ⟨fun n h => ⟨h.overflow, ?_, hinFlight ▸ h.inFlight, h.popped, h.rx⟩, ?_, hinFlight,
        Nat.le_refl _, List.prefix_refl _⟩
      · rw [List.length_append, List.length_singleton]
        omega
      · simp [Ssi.pushed, htx]
    · exact s.moves_self

/-- With at most 16 bytes in flight there is room in the RX FIFO for what is in the shifter. -/
theorem moves_receive (h : s.inFlight ≤ fifoDepth) (byte : Byte) : s.Moves (s.receive byte) := by
  unfold Ssi.receive
  split
  · exact s.moves_self
  · next b shifter hshifter =>
    dsimp only
    have hlt : s.rx.length < fifoDepth := by
      rw [Ssi.inFlight, hshifter, List.length_cons] at h
      omega
    rw [if_pos hlt]
    have hinFlight : Ssi.inFlight { s with
        shifter := shifter, exchanged := s.exchanged ++ [(b, byte)], rx := s.rx ++ [byte] } =
          s.inFlight := by
      simp only [Ssi.inFlight, hshifter, List.length_append, List.length_cons, List.length_nil]
      omega
    refine ⟨fun n hs => ⟨hs.overflow, ?_, hinFlight ▸ hs.inFlight, ?_, ?_⟩, ?_, hinFlight, ?_,
      List.prefix_append _ _⟩
    · have hle := hs.shifter
      rw [hshifter, List.length_cons] at hle
      exact Nat.le_of_succ_le hle
    · rw [List.length_append]
      exact Nat.le_add_right_of_le hs.popped
    · rw [hs.rx, List.map_append, List.drop_append_of_le_length]
      · rfl
      · rw [List.length_map]
        exact hs.popped
    · simp [Ssi.pushed, hshifter]
    · rw [List.length_append]
      exact Nat.le_add_right _ _

end Ssi

/-! ## `flash_put_get` -/

/-- The pointer `tx` : null, a buffer of its own, or the same buffer as `rx`. -/
inductive TxBuffer
  | null
  | separate (data : ℕ → Byte)
  | same

/-- A call of `flash_put_get`, with the bytes that its caller pushed before it. Their number is
`rx_skip`. -/
structure PutGetCall where
  preload : List Byte
  preload_le : preload.length ≤ 5
  tx : TxBuffer
  /-- `rx` is not null. -/
  rx : Bool
  count : ℕ
  /-- The buffer at `rx` when the function is called. -/
  buffer : ℕ → Byte

/-- `tx ? tx[i] : 0`, with the buffer at `rx` as it is now. -/
def PutGetCall.txByte (c : PutGetCall) (buffer : ℕ → Byte) (i : ℕ) : Byte :=
  match c.tx with
  | .null => 0
  | .separate data => data i
  | .same => buffer i

/-- The bytes to send. -/
def PutGetCall.txBytes (c : PutGetCall) : List Byte :=
  (List.range c.count).map (c.txByte c.buffer)

/-- Where the processor is : in the caller, or in the loop before the read of `txflr`, that of
`rxflr`, and the three `if`s. -/
inductive PutGetPc
  | preload (rest : List Byte)
  | loop
  | readRx
  | put
  | get
  | check
  | done
  | aborted
  deriving DecidableEq, Repr

/-- `max_in_flight`. -/
def maxInFlight : ℕ := 16 - 2

/-- The SSI, the buffer at `rx` and the variables of `flash_put_get`. `txPos` and `rxPos` say how
far `tx` and `rx` have advanced. -/
structure PutGet where
  ssi : Ssi
  pc : PutGetPc
  txCount : ℕ
  rxCount : ℕ
  rxSkip : ℕ
  txPos : ℕ
  rxPos : ℕ
  rxBuf : ℕ → Byte
  txLevel : ℕ
  rxLevel : ℕ
  didSomething : Bool

/-- What can happen next : a move of the hardware, or a step of the processor, in which
`flash_was_aborted` would return `aborted`. -/
inductive SsiEvent
  | shift
  | receive (byte : Byte)
  | cpu (aborted : Bool)
  deriving DecidableEq, Repr

namespace PutGetCall

/-- The caller has pushed nothing yet. -/
def start (c : PutGetCall) : PutGet where
  ssi := {}
  pc := .preload c.preload
  txCount := c.count
  rxCount := c.count
  rxSkip := c.preload.length
  txPos := 0
  rxPos := 0
  rxBuf := c.buffer
  txLevel := 0
  rxLevel := 0
  didSomething := false

/-- `if (tx_count && tx_level + rx_level < max_in_flight)`. -/
def put (c : PutGetCall) (s : PutGet) : PutGet :=
  if s.txCount ≠ 0 ∧ s.txLevel + s.rxLevel < maxInFlight then
    { s with
      ssi := s.ssi.push (c.txByte s.rxBuf s.txPos)
      txPos := s.txPos + 1
      txCount := s.txCount - 1
      didSomething := true
      pc := .get }
  else { s with pc := .get }

/-- `if (rx_level)`. -/
def get (c : PutGetCall) (s : PutGet) : PutGet :=
  if s.rxLevel ≠ 0 then
    let rxbyte := s.ssi.pop.2
    let s := { s with ssi := s.ssi.pop.1, didSomething := true, pc := .check }
    if s.rxSkip ≠ 0 then { s with rxSkip := s.rxSkip - 1 }
    else
      { s with
        rxBuf := if c.rx then Function.update s.rxBuf s.rxPos rxbyte else s.rxBuf
        rxPos := s.rxPos + 1
        rxCount := s.rxCount - 1 }
  else { s with pc := .check }

/-- A step of the processor. -/
def cpu (c : PutGetCall) (aborted : Bool) (s : PutGet) : PutGet :=
  match s.pc with
  | .preload [] => { s with pc := .loop }
  | .preload (byte :: rest) => { s with ssi := s.ssi.push byte, pc := .preload rest }
  | .loop =>
    if s.txCount ≠ 0 ∨ s.rxSkip ≠ 0 ∨ s.rxCount ≠ 0 then
      { s with txLevel := s.ssi.tx.length, pc := .readRx }
    else { s with pc := .done }
  | .readRx => { s with rxLevel := s.ssi.rx.length, didSomething := false, pc := .put }
  | .put => c.put s
  | .get => c.get s
  | .check => { s with pc := if !s.didSomething && aborted then .aborted else .loop }
  | .done => s
  | .aborted => s

def step (c : PutGetCall) (s : PutGet) : SsiEvent → PutGet
  | .shift => { s with ssi := s.ssi.shift }
  | .receive byte => { s with ssi := s.ssi.receive byte }
  | .cpu aborted => c.cpu aborted s

/-- The transfer is complete : all bytes went over the bus, `rx` has what was returned for those
after the skipped ones, and nothing is left in the SSI. -/
structure Completed (c : PutGetCall) (s : PutGet) : Prop where
  sent : s.ssi.exchanged.map Prod.fst = c.preload ++ c.txBytes
  received (h : c.rx = true) (i : ℕ) (hi : i < c.count) :
    (s.ssi.exchanged[c.preload.length + i]?).map Prod.snd = some (s.rxBuf i)
  empty : s.ssi.tx = [] ∧ s.ssi.shifter = [] ∧ s.ssi.rx = []

end PutGetCall

/-! ## The invariant -/

/-- The bytes of the caller that were not pushed yet. -/
def PutGetPc.rest : PutGetPc → List Byte
  | .preload rest => rest
  | _ => []

/-- What is known at each point of the loop about the levels that were read. -/
def PutGet.Phase (s : PutGet) : Prop :=
  match s.pc with
  | .preload _ => s.txPos = 0
  | .readRx => s.ssi.inFlight ≤ s.txLevel + 2 + s.ssi.rx.length
  | .put => s.ssi.inFlight ≤ s.txLevel + 2 + s.rxLevel ∧ s.rxLevel ≤ s.ssi.rx.length
  | .get => s.rxLevel ≤ s.ssi.rx.length
  | .done => s.txCount = 0 ∧ s.rxSkip = 0 ∧ s.rxCount = 0
  | _ => True

/-- The invariant of `flash_put_get`. `n` bytes were popped, the skipped ones first. -/
structure PutGet.Inv (c : PutGetCall) (s : PutGet) (n : ℕ) : Prop where
  sound : s.ssi.Sound n
  popped : n + s.rxSkip = c.preload.length + s.rxPos
  skip : s.rxSkip ≠ 0 → s.rxPos = 0
  tx : s.txPos + s.txCount = c.count
  rx : s.rxPos + s.rxCount = c.count
  pushed : s.ssi.pushed ++ s.pc.rest = c.preload ++ c.txBytes.take s.txPos
  kept (i : ℕ) (hi : s.rxPos ≤ i) : s.rxBuf i = c.buffer i
  stored (h : c.rx = true) (i : ℕ) (hi : i < s.rxPos) :
    (s.ssi.exchanged[c.preload.length + i]?).map Prod.snd = some (s.rxBuf i)
  phase : s.Phase

namespace PutGet.Inv

variable {c : PutGetCall} {s : PutGet} {n : ℕ}

theorem start (c : PutGetCall) : Inv c c.start 0 where
  sound := ⟨rfl, Nat.zero_le _, Nat.zero_le _, Nat.zero_le _, rfl⟩
  popped := Nat.zero_add _
  skip _ := rfl
  tx := Nat.zero_add _
  rx := Nat.zero_add _
  pushed := by
    rw [PutGetCall.start, List.take_zero, List.append_nil]
    rfl
  kept _ _ := rfl
  stored _ i hi := absurd hi (Nat.not_lt_zero i)
  phase := rfl

theorem length_txBytes (c : PutGetCall) : c.txBytes.length = c.count := by
  rw [PutGetCall.txBytes, List.length_map, List.length_range]

/-- Not more bytes were pushed than there are to pop. -/
theorem pushed_le (h : Inv c s n) :
    n + s.ssi.inFlight + s.pc.rest.length = c.preload.length + s.txPos := by
  have hlength := congrArg List.length h.pushed
  have htx := h.tx
  rw [List.length_append, List.length_append, List.length_take, length_txBytes,
    h.sound.pushed_length] at hlength
  omega

/-- The hardware keeps the invariant. -/
theorem moves (h : Inv c s n) {ssi : Ssi} (hmoves : s.ssi.Moves ssi) :
    Inv c { s with ssi := ssi } n where
  sound := hmoves.sound n h.sound
  popped := h.popped
  skip := h.skip
  tx := h.tx
  rx := h.rx
  pushed := by
    rw [hmoves.pushed]
    exact h.pushed
  kept := h.kept
  stored hrx i hi := by
    have hstored := h.stored hrx i hi
    obtain ⟨later, hlater⟩ := hmoves.exchanged
    cases hbyte : s.ssi.exchanged[c.preload.length + i]? with
    | none => rw [hbyte] at hstored; cases hstored
    | some pair =>
      rw [hbyte] at hstored
      have hlt := (List.getElem?_eq_some_iff.1 hbyte).1
      dsimp only
      rw [← hlater, List.getElem?_append_left hlt, hbyte]
      exact hstored
  phase := by
    have hphase := h.phase
    have hrx := hmoves.rx
    unfold PutGet.Phase at hphase ⊢
    dsimp only
    rw [hmoves.inFlight]
    split at hphase
    · exact hphase
    · exact Nat.le_trans hphase (Nat.add_le_add_left hrx _)
    · exact ⟨hphase.1, Nat.le_trans hphase.2 hrx⟩
    · exact Nat.le_trans hphase hrx
    · exact hphase
    · trivial

/-- A byte of the buffer at `rx` is overwritten after it was sent. -/
theorem rxPos_le_txPos (h : Inv c s n) (hrest : s.pc.rest = []) : s.rxPos ≤ s.txPos := by
  have hpushed := h.pushed_le
  have hpopped := h.popped
  rw [hrest, List.length_nil] at hpushed
  by_cases hskip : s.rxSkip = 0
  · omega
  · rw [h.skip hskip]
    exact Nat.zero_le _

theorem txByte_eq (h : Inv c s n) (hrest : s.pc.rest = []) :
    c.txByte s.rxBuf s.txPos = c.txByte c.buffer s.txPos := by
  unfold PutGetCall.txByte
  split
  · rfl
  · rfl
  · exact h.kept _ (h.rxPos_le_txPos hrest)

theorem take_txBytes {i : ℕ} (hi : i < c.count) :
    c.txBytes.take (i + 1) = c.txBytes.take i ++ [c.txByte c.buffer i] := by
  rw [List.take_add_one, PutGetCall.txBytes, List.getElem?_map, List.getElem?_range hi]
  rfl

/-- A caller pushes its bytes into the empty SSI. -/
theorem preload (h : Inv c s n) {byte : Byte} {rest : List Byte}
    (hpc : s.pc = .preload (byte :: rest)) :
    Inv c { s with ssi := s.ssi.push byte, pc := .preload rest } n := by
  have htx : s.txPos = 0 := by
    have hphase := h.phase
    rw [PutGet.Phase, hpc] at hphase
    exact hphase
  have hpushed := h.pushed
  rw [hpc] at hpushed
  have hroom : s.ssi.inFlight < fifoDepth := by
    have hle := h.pushed_le
    have hpreload := c.preload_le
    rw [hpc, PutGetPc.rest, List.length_cons] at hle
    rw [fifoDepth]
    omega
  obtain ⟨hsound, hbytes, hexchanged, -⟩ := h.sound.push hroom byte
  refine { h with sound := hsound, pushed := ?_, stored := ?_, phase := htx }
  · dsimp only
    rw [hbytes, List.append_assoc]
    exact hpushed
  · dsimp only
    rw [hexchanged]
    exact h.stored

/-- A byte is pushed only if 15 bytes at most are in flight. -/
theorem put (h : Inv c s n) (hpc : s.pc = .put) : Inv c (c.put s) n := by
  have hphase := h.phase
  rw [PutGet.Phase, hpc] at hphase
  obtain ⟨hlevels, hrx⟩ := hphase
  have hrest : s.pc.rest = [] := by rw [hpc]; rfl
  have hpushed := h.pushed
  rw [hrest, List.append_nil] at hpushed
  unfold PutGetCall.put
  split
  · next hcond =>
    obtain ⟨hcount, hroom⟩ := hcond
    have hlt : s.ssi.inFlight < fifoDepth := by
      rw [maxInFlight] at hroom
      rw [fifoDepth]
      omega
    obtain ⟨hsound, hbytes, hexchanged, hrxFifo⟩ := h.sound.push hlt (c.txByte s.rxBuf s.txPos)
    have htx := h.tx
    refine { h with
      sound := hsound, tx := ?_, pushed := ?_, stored := ?_, phase := ?_ }
    · dsimp only
      omega
    · dsimp only
      rw [hbytes, hpushed, take_txBytes (by omega), h.txByte_eq hrest, ← List.append_assoc]
      exact List.append_nil _
    · dsimp only
      rw [hexchanged]
      exact h.stored
    · change s.rxLevel ≤ (s.ssi.push _).rx.length
      rw [hrxFifo]
      exact hrx
  · refine { h with pushed := ?_, phase := hrx }
    rw [← hpushed]
    exact List.append_nil _

/-- A byte that is popped is a skipped one, or the next one for `rx`. -/
theorem get (h : Inv c s n) (hpc : s.pc = .get) : ∃ n', Inv c (c.get s) n' := by
  have hrx : s.rxLevel ≤ s.ssi.rx.length := by
    have hphase := h.phase
    rw [PutGet.Phase, hpc] at hphase
    exact hphase
  have hpushed := h.pushed
  rw [hpc] at hpushed
  unfold PutGetCall.get
  split
  · next hlevel =>
    have hne : s.ssi.rx ≠ [] := List.length_pos_iff.1 (by omega)
    obtain ⟨hsound, hbyte⟩ := h.sound.pop hne
    have hpopped := h.popped
    refine ⟨n + 1, ?_⟩
    dsimp only
    split
    · next hskip =>
      have hpos := h.skip hskip
      refine { h with
        sound := hsound, popped := ?_, skip := fun _ => hpos, pushed := hpushed,
        phase := trivial }
      dsimp only
      omega
    · next hskip =>
      have hskip' : s.rxSkip = 0 := not_not.1 hskip
      have hn : n = c.preload.length + s.rxPos := by omega
      -- there is a byte left to receive, as it was sent
      have hcount : s.rxPos < c.count := by
        have hle := h.pushed_le
        have htx := h.tx
        have hflight : s.ssi.rx.length ≤ s.ssi.inFlight := Nat.le_add_left _ _
        omega
      have hrxCount := h.rx
      refine { h with
        sound := hsound, popped := ?_, skip := fun h' => absurd h' hskip, rx := ?_,
        pushed := hpushed, kept := fun i hi => ?_, stored := fun hrx' i hi => ?_,
        phase := trivial }
      · dsimp only
        omega
      · dsimp only
        omega
      · dsimp only at hi ⊢
        split
        · rw [Function.update_of_ne (by omega)]
          exact h.kept i (by omega)
        · exact h.kept i (by omega)
      · dsimp only at hi ⊢
        rw [if_pos hrx']
        by_cases hlast : i = s.rxPos
        · rw [hlast, Function.update_self, ← hn]
          exact hbyte
        · rw [Function.update_of_ne hlast]
          exact h.stored hrx' i (by omega)
  · exact ⟨n, { h with pushed := hpushed, phase := trivial }⟩

/-- A step of the processor keeps the invariant. -/
theorem cpu (h : Inv c s n) (aborted : Bool) : ∃ n', Inv c (c.cpu aborted s) n' := by
  have hphase := h.phase
  have hpushed := h.pushed
  unfold PutGet.Phase at hphase
  unfold PutGetCall.cpu
  cases hpc : s.pc with
  | preload rest =>
    cases rest with
    | nil =>
      rw [hpc] at hpushed
      exact ⟨n, { h with pushed := hpushed, phase := trivial }⟩
    | cons byte rest => exact ⟨n, h.preload hpc⟩
  | loop =>
    rw [hpc] at hpushed
    dsimp only
    split
    · refine ⟨n, { h with pushed := hpushed, phase := ?_ }⟩
      have hshifter := h.sound.shifter
      change s.ssi.inFlight ≤ s.ssi.tx.length + 2 + s.ssi.rx.length
      rw [Ssi.inFlight]
      omega
    · next hdone =>
      refine ⟨n, { h with pushed := hpushed, phase := ?_ }⟩
      change s.txCount = 0 ∧ s.rxSkip = 0 ∧ s.rxCount = 0
      omega
  | readRx =>
    rw [hpc] at hpushed hphase
    exact ⟨n, { h with pushed := hpushed, phase := ⟨hphase, Nat.le_refl _⟩ }⟩
  | put => exact ⟨n, h.put hpc⟩
  | get => exact h.get hpc
  | check =>
    rw [hpc] at hpushed
    dsimp only
    split <;> exact ⟨n, { h with pushed := hpushed, phase := trivial }⟩
  | done => exact ⟨n, h⟩
  | aborted => exact ⟨n, h⟩

theorem step (h : Inv c s n) (e : SsiEvent) : ∃ n', Inv c (c.step s e) n' := by
  cases e with
  | shift => exact ⟨n, h.moves s.ssi.moves_shift⟩
  | receive byte => exact ⟨n, h.moves (Ssi.moves_receive h.sound.inFlight byte)⟩
  | cpu aborted => exact h.cpu aborted

/-- Every run keeps the invariant. -/
theorem run (c : PutGetCall) (es : List SsiEvent) : ∃ n, Inv c (Run.after c.step c.start es) n :=
  Run.invariant (I := fun s => ∃ n, Inv c s n) (fun _ e ⟨_, h⟩ => h.step e) ⟨0, start c⟩ es

/-- What has been pushed is a part of what there is to push. -/
theorem pushed_prefix (h : Inv c s n) : s.ssi.pushed <+: c.preload ++ c.txBytes := by
  have hall : s.ssi.pushed <+: c.preload ++ c.txBytes.take s.txPos :=
    h.pushed ▸ List.prefix_append _ _
  exact hall.trans ((List.prefix_append_right_inj _).2 (List.take_prefix _ _))

/-- At the end of the loop nothing is in flight. -/
theorem completed (h : Inv c s n) (hpc : s.pc = .done) : c.Completed s := by
  have hphase := h.phase
  have hpushed := h.pushed
  rw [PutGet.Phase, hpc] at hphase
  obtain ⟨htx, hskip, hrx⟩ := hphase
  have hle := h.pushed_le
  have hpopped := h.popped
  have htxPos := h.tx
  have hrxPos := h.rx
  have hrest : s.pc.rest = [] := by rw [hpc]; rfl
  rw [hrest, List.append_nil] at hpushed
  rw [hrest, List.length_nil] at hle
  have hnone : s.ssi.inFlight = 0 := by omega
  rw [Ssi.inFlight] at hnone
  have htxFifo : s.ssi.tx = [] := List.length_eq_zero_iff.1 (by omega)
  have hshifter : s.ssi.shifter = [] := List.length_eq_zero_iff.1 (by omega)
  have hrxFifo : s.ssi.rx = [] := List.length_eq_zero_iff.1 (by omega)
  refine ⟨?_, fun hrx' i hi => h.stored hrx' i (by omega), htxFifo, hshifter, hrxFifo⟩
  rw [Ssi.pushed, htxFifo, hshifter, List.append_nil, List.append_nil,
    List.take_of_length_le (by rw [length_txBytes]; omega)] at hpushed
  exact hpushed


end PutGet.Inv

/-- In every run of the hardware and of `flash_put_get`, 16 bytes at most are in flight, no FIFO
overflows, and the bytes that are pushed are those of the caller and of `tx` in their order. If the
loop ends without an abort, all of them were exchanged, `rx` has the bytes that were returned after
the skipped ones, and nothing is left in the FIFOs. -/
theorem flash_put_get_exchanges (c : PutGetCall) (es : List SsiEvent) :
    (Run.after c.step c.start es).ssi.inFlight ≤ 16 ∧
      (Run.after c.step c.start es).ssi.overflow = false ∧
      (Run.after c.step c.start es).ssi.pushed <+: c.preload ++ c.txBytes ∧
      ((Run.after c.step c.start es).pc = .done →
        c.Completed (Run.after c.step c.start es)) := by
  obtain ⟨n, h⟩ := PutGet.Inv.run c es
  exact ⟨h.sound.inFlight, h.sound.overflow, h.pushed_prefix, h.completed⟩

/-! ## The callers -/

def flashcmdReadSfdp : Byte := 0x5a

/-- `flash_do_cmd`. -/
def flashDoCmd (cmd : Byte) (tx : TxBuffer) (rx : Bool) (buffer : ℕ → Byte) (count : ℕ) :
    PutGetCall where
  preload := [cmd]
  preload_le := Nat.succ_le_succ (Nat.zero_le 4)
  tx := tx
  rx := rx
  count := count
  buffer := buffer

theorem length_flashPutCmdAddr (cmd : Byte) (addr : Word) :
    (flashPutCmdAddr cmd addr).length = 4 :=
  rfl

/-- A call after `flash_put_cmd_addr`, and one more byte for each of `dummy`. -/
def putGetAt (cmd : Byte) (addr : Word) (dummy : List Byte) (hdummy : dummy.length ≤ 1)
    (tx : TxBuffer) (rx : Bool) (buffer : ℕ → Byte) (count : ℕ) : PutGetCall where
  preload := flashPutCmdAddr cmd addr ++ dummy
  preload_le := by
    rw [List.length_append, length_flashPutCmdAddr]
    omega
  tx := tx
  rx := rx
  count := count
  buffer := buffer

/-- The transfer of `flash_page_program`. -/
def flashPageProgram (addr : Word) (data : ℕ → Byte) : PutGetCall :=
  putGetAt flashcmdPageProgram addr [] (Nat.zero_le 1) (.separate data) false (fun _ => 0) 256

/-- The transfer of `flash_user_erase`. -/
def flashUserErase (addr : Word) (cmd : Byte) : PutGetCall :=
  putGetAt cmd addr [] (Nat.zero_le 1) .null false (fun _ => 0) 0

/-- `flash_read_data`. -/
def flashReadData (addr : Word) (buffer : ℕ → Byte) (count : ℕ) : PutGetCall :=
  putGetAt flashcmdReadData addr [] (Nat.zero_le 1) .null true buffer count

/-- `flash_read_sfdp`. -/
def flashReadSfdp (addr : Word) (buffer : ℕ → Byte) (count : ℕ) : PutGetCall :=
  putGetAt flashcmdReadSfdp addr [0] (Nat.le_refl 1) .null true buffer count

/-- A page that is programmed in the first 16 MiB goes over the bus with its command and its
address. -/
theorem flashPageProgram_sends {addr : Word} (h : addr.toNat < 0x1000000) (data : ℕ → Byte)
    {es : List SsiEvent} (hdone : (Run.after (flashPageProgram addr data).step
      (flashPageProgram addr data).start es).pc = .done) :
    (Run.after (flashPageProgram addr data).step (flashPageProgram addr data).start
        es).ssi.exchanged.map Prod.fst =
      [flashcmdPageProgram, byteOf addr 2, byteOf addr 1, byteOf addr 0] ++
        (List.range 256).map data := by
  obtain ⟨n, hinv⟩ := PutGet.Inv.run (flashPageProgram addr data) es
  rw [(hinv.completed hdone).sent]
  change flashPutCmdAddr flashcmdPageProgram addr ++ [] ++ _ = _
  rw [List.append_nil, flashPutCmdAddr_eq h]
  rfl

/-- A status register is read : the byte returned for the command is skipped. -/
example :
    let c := flashDoCmd 0x05 .null true (fun _ => 0) 1
    let s := Run.after c.step c.start
      ([.cpu false, .shift, .receive 0xff] ++ List.replicate 5 (.cpu false) ++
        [.shift, .receive 0x42] ++ List.replicate 8 (.cpu false))
    s.pc = .done ∧ s.rxBuf 0 = 0x42 := by
  decide

end PicoBootrom
