import Mathlib.Data.List.Basic
import PicoBootrom.Runs
import PicoBootrom.Address

/-!
# Launching core 1

Core 1 waits in `wait_for_vector` of `bootrom_rt0.S` until core 0 has sent it `1`, a vector table,
a stack pointer and an entry point over the FIFO between the cores, and echoes each word. A `0`, or
another word than `1` where `1` is expected, starts the handshake again : core 1 drains the FIFO and
sends `0`.

The routine is threaded code. `send_and_then` goes on at the address in `r5`, which is
`receive_and_check_zero` until the last word, and `receive_and_check_zero` returns to the `bl` that
called `send_and_then`. The model has one step for each access to the FIFO or to a system register,
`Core1.r5` and `Core1.lr` are the two registers, and a run is any order of steps and of words that
arrive, so the flags of the FIFO may change between any two steps.

`transcript` is what the two cores have said in a handshake that has come as far as the words that
were received, and the invariant ties it to the place where core 1 is (`Core1.Inv`).
-/

namespace PicoBootrom

/-! ## `wait_for_vector` -/

/-- What core 1 does with its FIFO. `drained` words are read and dropped. -/
inductive FifoAccess
  | drained (word : Word)
  | received (word : Word)
  | sent (word : Word)
  deriving DecidableEq, Repr

/-- The places where core 1 can be, each with an access to the FIFO or to a register. -/
inductive Core1Pc
  /-- `1: ldr r1, [r4, #SIO_FIFO_RD_OFFSET]`. -/
  | drain
  /-- `core_0_handshake_loop`, up to the `bl` that sends 0. -/
  | handshakeLoop
  /-- `send_and_then`, which waits for `RDY`. -/
  | sendAndThen
  /-- `str r0, [r4, #SIO_FIFO_WR_OFFSET]`. -/
  | sendWrite
  /-- `receive_and_check_zero`, which waits for `VLD`. -/
  | receiveAndCheckZero
  /-- `ldr r0, [r4, #SIO_FIFO_RD_OFFSET]`, and the return if the word is not 0. -/
  | receiveRead
  /-- `cmp r0, #1`. -/
  | checkCmd
  /-- `str r0, [r7, #(M0PLUS_VTOR_OFFSET - M0PLUS_CPUID_OFFSET)]`. -/
  | storeVtor
  /-- `msr msp, r0`. -/
  | storeSp
  /-- `adr r5, core1_launch`. -/
  | receiveIp
  /-- `core1_launch`, with its `blx r0`. -/
  | core1Launch
  /-- In the code that was called. -/
  | launched
  deriving DecidableEq, Repr

/-- Core 1, with the words that core 0 has written and that were not read, and what core 1 has done
with the FIFO. -/
structure Core1 where
  pc : Core1Pc
  r0 : Word
  r5 : Core1Pc
  lr : Core1Pc
  vtor : Word
  msp : Word
  fifo : List Word
  history : List FifoAccess
  /-- The entry point that `core1_launch` has called. -/
  launch : Option Word
  deriving DecidableEq, Repr

/-- What can happen next : core 0 writes a word, or core 1 takes a step, in which `RDY` would be
`ready`. -/
inductive LaunchEvent
  | arrive (word : Word)
  | cpu (ready : Bool)
  deriving DecidableEq, Repr

namespace Core1

/-- Core 1 enters `wait_for_vector`, whatever is in its registers and in the FIFO. -/
def waitForVector (s : Core1) : Core1 :=
  { s with pc := .drain, history := [], launch := none }

/-- A step of core 1. `VLD` is set while there is a word to read. -/
def cpu (ready : Bool) (s : Core1) : Core1 :=
  match s.pc with
  | .drain =>
    { s with
      fifo := s.fifo.tail
      history := s.history ++ s.fifo.head?.toList.map .drained
      pc := .handshakeLoop }
  | .handshakeLoop =>
    if s.fifo.isEmpty then
      { s with r5 := .receiveAndCheckZero, r0 := 0, lr := .checkCmd, pc := .sendAndThen }
    else { s with pc := .drain }
  | .sendAndThen => if ready then { s with pc := .sendWrite } else s
  | .sendWrite => { s with history := s.history ++ [.sent s.r0], pc := s.r5 }
  | .receiveAndCheckZero => if s.fifo.isEmpty then s else { s with pc := .receiveRead }
  | .receiveRead =>
    match s.fifo with
    | [] => { s with r0 := 0, pc := .handshakeLoop }
    | word :: fifo =>
      { s with
        r0 := word
        fifo := fifo
        history := s.history ++ [.received word]
        pc := if word = 0 then .handshakeLoop else s.lr }
  | .checkCmd =>
    if s.r0 = 1 then { s with lr := .storeVtor, pc := .sendAndThen }
    else { s with pc := .handshakeLoop }
  | .storeVtor => { s with vtor := s.r0, lr := .storeSp, pc := .sendAndThen }
  | .storeSp => { s with msp := s.r0, lr := .receiveIp, pc := .sendAndThen }
  | .receiveIp => { s with r5 := .core1Launch, lr := .core1Launch, pc := .sendAndThen }
  | .core1Launch => { s with launch := some s.r0, pc := .launched }
  | .launched => s

def step (s : Core1) : LaunchEvent → Core1
  | .arrive word => { s with fifo := s.fifo ++ [word] }
  | .cpu ready => s.cpu ready

/-- Core 1 is on its way to send 0. -/
def Draining (s : Core1) : Prop :=
  match s.pc with
  | .drain | .handshakeLoop => True
  | .sendAndThen | .sendWrite => s.r0 = 0 ∧ s.lr = .checkCmd
  | .checkCmd => s.r0 ≠ 1
  | _ => False

end Core1

/-! ## Handshakes -/

/-- A handshake in which core 1 has received the words and echoed them, from the 0 on that it
sends first. -/
def transcript (words : List Word) : List FifoAccess :=
  .sent 0 :: words.flatMap fun word => [.received word, .sent word]

theorem transcript_snoc (words : List Word) (word : Word) :
    transcript words ++ [.received word] ++ [.sent word] = transcript (words ++ [word]) := by
  simp [transcript, List.flatMap_append]

/-- The newest access first, the last word received ends its handshake, and no 0 was sent since. -/
def failedRev : List FifoAccess → Bool
  | .drained _ :: history => failedRev history
  | .received word :: history => word == 0 || word != 1 && history.head? == some (.sent 0)
  | _ => false

/-- The last word received is 0, or is not 1 although 1 is expected, as 0 was the last word sent,
and core 1 has only drained words since. -/
def Failed (history : List FifoAccess) : Prop :=
  failedRev history.reverse = true

@[simp] theorem failed_drained (history : List FifoAccess) (word : Word) :
    Failed (history ++ [.drained word]) ↔ Failed history := by
  rw [Failed, List.reverse_append]
  rfl

@[simp] theorem not_failed_sent (history : List FifoAccess) (word : Word) :
    ¬Failed (history ++ [.sent word]) := by
  rw [Failed, List.reverse_append]
  exact Bool.false_ne_true

@[simp] theorem failed_received (history : List FifoAccess) (word : Word) :
    Failed (history ++ [.received word]) ↔
      word = 0 ∨ word ≠ 1 ∧ history.getLast? = some (.sent 0) := by
  rw [Failed, List.reverse_append, ← List.head?_reverse]
  simp [failedRev]

namespace Core1

/-- The words of the handshake before a return to the place, with those that are in `VTOR` and in
`MSP` by then. -/
inductive Received (vtor msp : Word) : Core1Pc → List Word → Prop
  | checkCmd : Received vtor msp .checkCmd []
  | storeVtor : Received vtor msp .storeVtor [1]
  | storeSp (h : vtor ≠ 0) : Received vtor msp .storeSp [1, vtor]
  | receiveIp (h : vtor ≠ 0) (h' : msp ≠ 0) : Received vtor msp .receiveIp [1, vtor, msp]

/-- All words of a handshake have arrived, the last one in `r0`. -/
def Arrived (s : Core1) : Prop :=
  s.vtor ≠ 0 ∧ s.msp ≠ 0 ∧ s.r0 ≠ 0

/-- A word that was returned to the place follows the handshake so far. -/
def Returned (s : Core1) : Prop :=
  s.r5 = .receiveAndCheckZero ∧ s.r0 ≠ 0 ∧
    ∃ words, Received s.vtor s.msp s.pc words ∧ transcript words ++ [.received s.r0] <:+ s.history

/-- A word waits to be sent : the 0 of a new handshake, or the echo of the last word. -/
def Sending (s : Core1) : Prop :=
  s.r5 = .receiveAndCheckZero ∧ s.r0 = 0 ∧ s.lr = .checkCmd ∨
    (s.r5 = .receiveAndCheckZero ∧ ∃ words, Received s.vtor s.msp s.lr (words ++ [s.r0]) ∧
      transcript words ++ [.received s.r0] <:+ s.history) ∨
    s.r5 = .core1Launch ∧ s.Arrived ∧
      transcript [1, s.vtor, s.msp] ++ [.received s.r0] <:+ s.history

/-- The invariant : how far the handshake is where core 1 is. -/
def Inv (s : Core1) : Prop :=
  match s.pc with
  | .drain | .handshakeLoop => s.launch = none
  | .sendAndThen | .sendWrite => s.launch = none ∧ s.Sending
  | .receiveAndCheckZero | .receiveRead => s.launch = none ∧ s.r5 = .receiveAndCheckZero ∧
      ∃ words, Received s.vtor s.msp s.lr words ∧ transcript words <:+ s.history
  | .checkCmd | .storeVtor | .storeSp | .receiveIp => s.launch = none ∧ s.Returned
  | .core1Launch => s.launch = none ∧ s.Arrived ∧
      transcript [1, s.vtor, s.msp, s.r0] <:+ s.history
  | .launched => s.launch = some s.r0 ∧ s.Arrived ∧
      transcript [1, s.vtor, s.msp, s.r0] <:+ s.history

section Steps

variable {s s' : Core1} {vtor msp : Word} {pc : Core1Pc} {words : List Word} {word : Word}

theorem Received.ne_zero (h : Received vtor msp pc words) : ∀ w ∈ words, w ≠ 0 := by
  have hone : (1 : Word) ≠ 0 := by decide
  cases h with
  | checkCmd => exact fun w hw => absurd hw List.not_mem_nil
  | storeVtor => exact List.forall_mem_singleton.2 hone
  | storeSp h => exact List.forall_mem_cons.2 ⟨hone, List.forall_mem_singleton.2 h⟩
  | receiveIp h h' =>
    exact List.forall_mem_cons.2 ⟨hone, List.forall_mem_cons.2 ⟨h, List.forall_mem_singleton.2 h'⟩⟩

/-- A handshake starts with 1. -/
theorem Received.head (h : Received vtor msp pc words) : words.head? = some 1 ∨ pc = .checkCmd := by
  cases h with
  | checkCmd => exact .inr rfl
  | storeVtor | storeSp | receiveIp => exact .inl rfl

theorem Received.of_checkCmd (h : Received vtor msp .checkCmd words) : words = [] := by
  cases h
  rfl

/-- After its first word, a handshake says 0 no more. -/
theorem getLast?_transcript (hne : words ≠ []) (hwords : ∀ w ∈ words, w ≠ 0)
    (history : List FifoAccess) : (history ++ transcript words).getLast? ≠ some (.sent 0) := by
  rcases List.eq_nil_or_concat' words with rfl | ⟨init, last, rfl⟩
  · exact absurd rfl hne
  · rw [← transcript_snoc, ← List.append_assoc, List.getLast?_concat]
    intro h
    cases h
    exact hwords 0 (by simp) rfl

theorem not_failed_transcript {history : List FifoAccess} (h : transcript words <:+ history) :
    ¬Failed history := by
  obtain ⟨before, rfl⟩ := h
  rcases List.eq_nil_or_concat' words with rfl | ⟨init, last, rfl⟩
  · exact not_failed_sent before 0
  · rw [← transcript_snoc, ← List.append_assoc]
    exact not_failed_sent _ _

/-- A handshake whose words are not 0, and whose first one is 1, has not failed. -/
theorem not_failed_received {history : List FifoAccess}
    (h : transcript words ++ [.received word] <:+ history)
    (hfirst : (words ++ [word]).head? = some 1) (hwords : ∀ w ∈ words ++ [word], w ≠ 0) :
    ¬Failed history := by
  obtain ⟨before, rfl⟩ := h
  rw [← List.append_assoc, failed_received]
  rintro (hzero | ⟨hne, hsent⟩)
  · exact hwords word (List.mem_append_right _ (List.mem_singleton_self _)) hzero
  · refine getLast?_transcript ?_ (fun w hw => hwords w (List.mem_append_left _ hw)) before hsent
    rintro rfl
    exact hne (Option.some.inj hfirst)

/-- A word that waits to be sent may be the 0 of a new handshake, or follows a good word. -/
theorem Sending.draining (h : s.Sending) (hfailed : Failed s.history) :
    s.r0 = 0 ∧ s.lr = .checkCmd := by
  rcases h with ⟨-, hzero⟩ | ⟨-, words, hreceived, hsuffix⟩ | ⟨-, ⟨hvtor, hmsp, hip⟩, hsuffix⟩
  · exact hzero
  · rcases hreceived.head with hfirst | hlr
    · exact absurd hfailed (not_failed_received hsuffix hfirst hreceived.ne_zero)
    · rw [hlr] at hreceived
      exact absurd hreceived.of_checkCmd (by simp)
  · refine absurd hfailed (not_failed_received hsuffix rfl fun w hw => ?_)
    rcases List.mem_append.1 hw with hw | hw
    · exact (Received.receiveIp hvtor hmsp).ne_zero w hw
    · exact List.mem_singleton.1 hw ▸ hip

/-- A word that was returned is a good one, unless it is the first one and not 1. -/
theorem Returned.not_failed (h : s.Returned) (hpc : s.pc = .checkCmd → s.r0 = 1) :
    ¬Failed s.history := by
  obtain ⟨-, hip, words, hreceived, hsuffix⟩ := h
  refine not_failed_received hsuffix ?_ fun w hw => ?_
  · rcases hreceived.head with hfirst | hcheck
    · rw [List.head?_append, hfirst]
      rfl
    · rw [hcheck] at hreceived
      rw [hreceived.of_checkCmd, hpc hcheck]
      rfl
  · rcases List.mem_append.1 hw with hw | hw
    · exact hreceived.ne_zero w hw
    · exact List.mem_singleton.1 hw ▸ hip

/-- When a handshake has failed, core 1 is on its way to send 0, and has called nothing. -/
theorem Inv.draining (h : s.Inv) (hfailed : Failed s.history) : s.Draining ∧ s.launch = none := by
  unfold Inv at h
  unfold Draining
  cases hpc : s.pc with
  | drain | handshakeLoop =>
    rw [hpc] at h
    exact ⟨trivial, h⟩
  | sendAndThen | sendWrite =>
    rw [hpc] at h
    exact ⟨h.2.draining hfailed, h.1⟩
  | receiveAndCheckZero | receiveRead =>
    rw [hpc] at h
    obtain ⟨-, -, words, -, hsuffix⟩ := h
    exact absurd hfailed (not_failed_transcript hsuffix)
  | checkCmd =>
    rw [hpc] at h
    refine ⟨fun hone => ?_, h.1⟩
    exact h.2.not_failed (fun _ => hone) hfailed
  | storeVtor | storeSp | receiveIp =>
    rw [hpc] at h
    exact absurd hfailed (h.2.not_failed fun hcheck => by rw [hpc] at hcheck; cases hcheck)
  | core1Launch | launched =>
    rw [hpc] at h
    exact absurd hfailed (not_failed_transcript h.2.2)

theorem Inv.start (s : Core1) : s.waitForVector.Inv := by
  unfold Inv
  rfl

theorem Inv.sendWrite (h : s.Sending) (hlaunch : s.launch = none) :
    Inv { s with history := s.history ++ [.sent s.r0], pc := s.r5 } := by
  unfold Inv
  rcases h with ⟨hr5, hr0, hlr⟩ | ⟨hr5, words, hreceived, before, hsuffix⟩ |
    ⟨hr5, harrived, before, hsuffix⟩
  · simp only [hr5, hr0, hlr]
    exact ⟨hlaunch, trivial, [], .checkCmd, s.history, rfl⟩
  · simp only [hr5]
    refine ⟨hlaunch, trivial, words ++ [s.r0], hreceived, before, ?_⟩
    rw [← hsuffix, ← transcript_snoc]
    simp only [List.append_assoc]
  · simp only [hr5]
    refine ⟨hlaunch, harrived, before, ?_⟩
    rw [← hsuffix, List.append_assoc]
    rfl

theorem Inv.receiveRead (h : s.Inv) (hpc : s.pc = .receiveRead) (ready : Bool) :
    (s.cpu ready).Inv := by
  unfold Inv at h
  rw [hpc] at h
  obtain ⟨hlaunch, hr5, words, hreceived, before, hsuffix⟩ := h
  unfold cpu
  rw [hpc]
  cases hfifo : s.fifo with
  | nil => exact hlaunch
  | cons word fifo =>
    dsimp only
    by_cases hword : word = 0
    · rw [if_pos hword]
      exact hlaunch
    · rw [if_neg hword]
      have hreturned : Returned { s with
          r0 := word, fifo := fifo, history := s.history ++ [.received word], pc := s.lr } := by
        refine ⟨hr5, hword, words, hreceived, before, ?_⟩
        dsimp only
        rw [← hsuffix, List.append_assoc]
      unfold Inv
      dsimp only
      cases hlr : s.lr with
      | checkCmd | storeVtor | storeSp | receiveIp =>
        rw [hlr] at hreturned
        exact ⟨hlaunch, hreturned⟩
      | _ =>
        rw [hlr] at hreceived
        cases hreceived

/-- A word that was returned is sent back, and the return address moves on. -/
theorem Returned.sending (h : s.Returned) (hr0 : s'.r0 = s.r0) (hr5 : s'.r5 = s.r5)
    (hhistory : s'.history = s.history)
    (hreceived : ∀ words, Received s.vtor s.msp s.pc words →
      Received s'.vtor s'.msp s'.lr (words ++ [s.r0])) : s'.Sending := by
  obtain ⟨hr5', -, words, hwords, hsuffix⟩ := h
  refine .inr (.inl ⟨hr5.trans hr5', words, ?_, ?_⟩)
  · rw [hr0]
    exact hreceived words hwords
  · rw [hr0, hhistory]
    exact hsuffix

/-- A step of core 1 keeps the invariant. -/
theorem Inv.cpu (h : s.Inv) (ready : Bool) : (s.cpu ready).Inv := by
  have hinv := h
  unfold Inv at h
  cases hpc : s.pc with
  | drain =>
    rw [hpc] at h
    unfold Core1.cpu
    rw [hpc]
    exact h
  | handshakeLoop =>
    rw [hpc] at h
    unfold Core1.cpu
    rw [hpc]
    dsimp only
    split
    · exact ⟨h, .inl ⟨rfl, rfl, rfl⟩⟩
    · exact h
  | sendAndThen =>
    rw [hpc] at h
    unfold Core1.cpu
    rw [hpc]
    dsimp only
    split
    · exact h
    · exact hinv
  | sendWrite =>
    rw [hpc] at h
    unfold Core1.cpu
    rw [hpc]
    exact Inv.sendWrite h.2 h.1
  | receiveAndCheckZero =>
    rw [hpc] at h
    unfold Core1.cpu
    rw [hpc]
    dsimp only
    split
    · exact hinv
    · exact h
  | receiveRead => exact hinv.receiveRead hpc ready
  | checkCmd =>
    rw [hpc] at h
    unfold Core1.cpu
    rw [hpc]
    dsimp only
    split
    · next hone =>
      refine ⟨h.1, h.2.sending rfl rfl rfl fun words hwords => ?_⟩
      rw [hpc] at hwords
      rw [hwords.of_checkCmd, hone]
      exact .storeVtor
    · exact h.1
  | storeVtor =>
    rw [hpc] at h
    unfold Core1.cpu
    rw [hpc]
    refine ⟨h.1, h.2.sending rfl rfl rfl fun words hwords => ?_⟩
    rw [hpc] at hwords
    cases hwords
    exact .storeSp h.2.2.1
  | storeSp =>
    rw [hpc] at h
    unfold Core1.cpu
    rw [hpc]
    refine ⟨h.1, h.2.sending rfl rfl rfl fun words hwords => ?_⟩
    rw [hpc] at hwords
    cases hwords with
    | storeSp hvtor => exact .receiveIp hvtor h.2.2.1
  | receiveIp =>
    rw [hpc] at h
    unfold Core1.cpu
    rw [hpc]
    obtain ⟨hlaunch, -, hr0, words, hwords, hsuffix⟩ := h
    rw [hpc] at hwords
    cases hwords with
    | receiveIp hvtor hmsp => exact ⟨hlaunch, .inr (.inr ⟨rfl, ⟨hvtor, hmsp, hr0⟩, hsuffix⟩)⟩
  | core1Launch =>
    rw [hpc] at h
    unfold Core1.cpu
    rw [hpc]
    exact ⟨rfl, h.2⟩
  | launched =>
    unfold Core1.cpu
    rw [hpc]
    exact hinv

theorem Inv.step (h : s.Inv) (e : LaunchEvent) : (s.step e).Inv := by
  cases e with
  | arrive word => exact h
  | cpu ready => exact h.cpu ready

/-- Core 1 has called an entry point only at the end of a handshake. -/
theorem Inv.launched (h : s.Inv) {ip : Word} (hlaunch : s.launch = some ip) :
    s.vtor ≠ 0 ∧ s.msp ≠ 0 ∧ ip ≠ 0 ∧ transcript [1, s.vtor, s.msp, ip] <:+ s.history := by
  have hnone (h : s.launch = none) : False := by
    rw [hlaunch] at h
    cases h
  unfold Inv at h
  cases hpc : s.pc with
  | launched =>
    rw [hpc] at h
    obtain ⟨hr0, ⟨hvtor, hmsp, hip⟩, hsuffix⟩ := h
    obtain rfl := Option.some.inj (hlaunch.symm.trans hr0)
    exact ⟨hvtor, hmsp, hip, hsuffix⟩
  | drain | handshakeLoop =>
    rw [hpc] at h
    exact (hnone h).elim
  | _ =>
    rw [hpc] at h
    exact (hnone h.1).elim

/-- Nothing that core 1 has done is undone. -/
theorem history_step (s : Core1) (e : LaunchEvent) : s.history <+: (s.step e).history := by
  cases e with
  | arrive word => exact List.prefix_refl _
  | cpu ready =>
    unfold Core1.step Core1.cpu
    dsimp only
    split
    case h_1 => exact List.prefix_append _ _
    case h_4 => exact List.prefix_append _ _
    case h_6 =>
      split
      · exact List.prefix_refl _
      · exact List.prefix_append _ _
    all_goals first | exact List.prefix_refl _ | (split <;> exact List.prefix_refl _)

/-- On its way to send 0, core 1 drains words and does nothing else. -/
theorem Draining.step (h : s.Draining) (e : LaunchEvent) :
    (∃ words : List Word, (s.step e).history = s.history ++ words.map .drained) ∨
      (s.step e).history = s.history ++ [.sent 0] := by
  have hsame : s.history = s.history ++ ([] : List Word).map .drained := (List.append_nil _).symm
  cases e with
  | arrive word => exact .inl ⟨[], hsame⟩
  | cpu ready =>
    unfold Draining at h
    unfold Core1.step Core1.cpu
    cases hpc : s.pc with
    | drain => exact .inl ⟨s.fifo.head?.toList, rfl⟩
    | sendWrite =>
      rw [hpc] at h
      refine .inr ?_
      rw [← h.1]
    | handshakeLoop | sendAndThen | checkCmd =>
      refine .inl ⟨[], ?_⟩
      dsimp only
      split <;> exact hsame
    | _ =>
      rw [hpc] at h
      exact h.elim

end Steps

/-- After the history, core 1 has only drained words and has called nothing, until it has sent
0. -/
def GoesBack (history : List FifoAccess) (s : Core1) : Prop :=
  ∃ words : List Word, (s.history = history ++ words.map .drained ∧ s.launch = none) ∨
    history ++ words.map .drained ++ [.sent 0] <+: s.history

/-- Core 1 comes to send 0 if `RDY` is set and no more words arrive. -/
def SendsZero (s : Core1) : Prop :=
  ∃ (n : ℕ) (words : List Word),
    (Run.after step s (List.replicate n (.cpu true))).history =
      s.history ++ words.map .drained ++ [.sent 0]

section Failure

variable {s : Core1} {history : List FifoAccess}

theorem failed_map_drained (words : List Word) :
    Failed (history ++ words.map .drained) ↔ Failed history := by
  induction words using List.reverseRecOn with
  | nil => rw [List.map_nil, List.append_nil]
  | append_singleton words word ih =>
    rw [List.map_append, List.map_singleton, ← List.append_assoc, failed_drained, ih]

/-- A failed handshake goes back to the draining loop, in every run. -/
theorem Inv.goesBack (h : s.Inv) (hfailed : Failed s.history) (es : List LaunchEvent) :
    GoesBack s.history (Run.after Core1.step s es) := by
  have hrun : (Run.after Core1.step s es).Inv ∧ GoesBack s.history (Run.after Core1.step s es) := by
    refine Run.invariant (I := fun s' => s'.Inv ∧ GoesBack s.history s') ?_
      ⟨h, [], .inl ⟨(List.append_nil _).symm, (h.draining hfailed).2⟩⟩ es
    rintro s' e ⟨hinv, words, ⟨hhistory, -⟩ | hzero⟩
    · have hfailed' : Failed s'.history := by rwa [hhistory, failed_map_drained]
      refine ⟨hinv.step e, ?_⟩
      rcases (hinv.draining hfailed').1.step e with ⟨more, hmore⟩ | hsent
      · have hfailed'' : Failed (s'.step e).history := by rwa [hmore, failed_map_drained]
        refine ⟨words ++ more, .inl ⟨?_, ((hinv.step e).draining hfailed'').2⟩⟩
        rw [hmore, hhistory, List.map_append, List.append_assoc]
      · have hnow : (s'.step e).history = s.history ++ words.map .drained ++ [.sent 0] := by
          rw [hsent, hhistory]
        exact ⟨words, .inr ⟨[], (List.append_nil _).trans hnow.symm⟩⟩
    · exact ⟨hinv.step e, words, .inr (hzero.trans (history_step s' e))⟩
  exact hrun.2

/-- One step on the way to 0. -/
theorem SendsZero.of_step (h : (s.cpu true).SendsZero) (words : List Word)
    (hwords : (s.cpu true).history = s.history ++ words.map .drained) : s.SendsZero := by
  obtain ⟨n, more, hmore⟩ := h
  refine ⟨n + 1, words ++ more, ?_⟩
  rw [List.replicate_succ, Run.after_cons]
  change (Run.after step (s.cpu true) _).history = _
  rw [hmore, hwords, List.map_append, List.append_assoc s.history]

theorem sendsZero_of_sendWrite (hpc : s.pc = .sendWrite) (hr0 : s.r0 = 0) : s.SendsZero := by
  have hstep : s.cpu true = { s with history := s.history ++ [.sent s.r0], pc := s.r5 } := by
    rw [Core1.cpu, hpc]
  refine ⟨1, [], ?_⟩
  change (s.cpu true).history = _
  rw [hstep, hr0, List.map_nil, List.append_nil]

theorem sendsZero_of_sendAndThen (hpc : s.pc = .sendAndThen) (hr0 : s.r0 = 0) :
    s.SendsZero := by
  have hstep : s.cpu true = { s with pc := .sendWrite } := by
    rw [Core1.cpu, hpc]
    rfl
  refine .of_step ?_ [] (by rw [hstep]; exact (List.append_nil _).symm)
  rw [hstep]
  exact sendsZero_of_sendWrite rfl hr0

/-- The loop drains one word in each turn. -/
theorem sendsZero_of_handshakeLoop (n : ℕ) :
    ∀ s : Core1, s.fifo.length = n → s.pc = .handshakeLoop → s.SendsZero := by
  induction n with
  | zero =>
    intro s hlength hpc
    have hstep : s.cpu true =
        { s with r5 := .receiveAndCheckZero, r0 := 0, lr := .checkCmd, pc := .sendAndThen } := by
      rw [Core1.cpu, hpc, List.length_eq_zero_iff.1 hlength]
      rfl
    refine .of_step ?_ [] (by rw [hstep]; exact (List.append_nil _).symm)
    rw [hstep]
    exact sendsZero_of_sendAndThen rfl rfl
  | succ n ih =>
    intro s hlength hpc
    obtain ⟨word, fifo, hfifo⟩ := List.exists_cons_of_length_eq_add_one hlength
    have hstep : s.cpu true = { s with pc := .drain } := by
      rw [Core1.cpu, hpc, hfifo]
      rfl
    have hdrain : Core1.cpu true { s with pc := .drain } =
        { s with
          fifo := fifo, history := s.history ++ [.drained word], pc := .handshakeLoop } := by
      rw [Core1.cpu]
      dsimp only
      rw [hfifo]
      rfl
    refine .of_step ?_ [] (by rw [hstep]; exact (List.append_nil _).symm)
    rw [hstep]
    refine .of_step ?_ [word] (by rw [hdrain]; rfl)
    rw [hdrain]
    refine ih _ ?_ rfl
    rw [hfifo, List.length_cons] at hlength
    exact Nat.succ.inj hlength

theorem Draining.sendsZero (h : s.Draining) : s.SendsZero := by
  unfold Draining at h
  cases hpc : s.pc with
  | drain =>
    refine .of_step (sendsZero_of_handshakeLoop _ _ rfl ?_) s.fifo.head?.toList ?_
    · rw [Core1.cpu, hpc]
    · rw [Core1.cpu, hpc]
  | handshakeLoop => exact sendsZero_of_handshakeLoop _ s rfl hpc
  | sendAndThen =>
    rw [hpc] at h
    exact sendsZero_of_sendAndThen hpc h.1
  | sendWrite =>
    rw [hpc] at h
    exact sendsZero_of_sendWrite hpc h.1
  | checkCmd =>
    rw [hpc] at h
    have hstep : s.cpu true = { s with pc := .handshakeLoop } := by
      rw [Core1.cpu, hpc]
      exact if_neg h
    refine .of_step (sendsZero_of_handshakeLoop _ _ rfl ?_) [] ?_
    · rw [hstep]
    · rw [hstep]
      exact (List.append_nil _).symm
  | _ =>
    rw [hpc] at h
    exact h.elim

end Failure

end Core1

/-- In every run of `wait_for_vector`, core 1 calls an entry point only if the last words that it
has read are 1, the vector table in `VTOR`, the stack pointer in `MSP` and the entry point, none of
them 0 and each of them echoed, right after the 0 that it sends first. A 0, or another word where 1
is expected, leads back to the loop that drains words and sends 0, before core 1 calls anything. -/
theorem core1_launched_by_handshake (s₀ : Core1) (es : List LaunchEvent) :
    let s := Run.after Core1.step s₀.waitForVector es
    (∀ ip, s.launch = some ip → s.vtor ≠ 0 ∧ s.msp ≠ 0 ∧ ip ≠ 0 ∧
        transcript [1, s.vtor, s.msp, ip] <:+ s.history) ∧
      (Failed s.history → s.SendsZero ∧
        ∀ es', Core1.GoesBack s.history (Run.after Core1.step s es')) := by
  have h : (Run.after Core1.step s₀.waitForVector es).Inv :=
    Run.invariant (I := Core1.Inv) (fun _ e h => h.step e) (Core1.Inv.start s₀) es
  refine ⟨fun ip hlaunch => ?_, fun hfailed => ?_⟩
  · exact h.launched hlaunch
  · exact ⟨(h.draining hfailed).1.sendsZero, h.goesBack hfailed⟩

/-- A handshake that a 0 breaks off, and the one that follows. -/
example :
    let s₀ : Core1 := ⟨.drain, 0, .drain, .drain, 0, 0, [7], [], none⟩
    let words : List Word := [1, 0x20000000, 0, 1, 0x10000100, 0x20042000, 0x10000201]
    let es := words.flatMap fun word => List.replicate 12 (.cpu true) ++ [.arrive word]
    let s := Run.after Core1.step s₀.waitForVector (es ++ List.replicate 12 (.cpu true))
    s.launch = some 0x10000201 ∧ s.vtor = 0x10000100 ∧ s.msp = 0x20042000 := by
  decide +kernel

end PicoBootrom
