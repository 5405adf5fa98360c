import PicoBootrom.MscConversation
import PicoBootrom.MscSectors

/-!
# Commands are answered

Between the acceptance of a command and its CSW the device waits for the host or for the worker :
for a buffer to be taken or filled, for the end of a task, or for the end of a stall. Such an event
is productive. There is one as long as the CSW was not started, and a command takes no more of them
than a bound that depends on the length of the host, whatever the packets and the results of the
tasks are (`bulkOnly_answers`).

While a task writes a chunk, its buffer is not written, whatever the host sends (`chunk_kept`).
-/

set_option linter.unusedSectionVars false

namespace PicoBootrom

/-! ## Productive events -/

/-- An event that something in the data phase waits for : a buffer that the hardware has, a task
that is running, or the end of a stall. -/
def MscRunEvent.Productive (s : MscState) : MscRunEvent → Prop
  | .usb (.buffer e _) => (s.endpoint e).haltState = .none ∧ (s.endpoint e).hw.available ≠ []
  | .usb (.asyncComplete i _) => i < s.client.tasks.length
  | .usb (.clearFeature e) => (s.endpoint e).haltState = .halted
  | _ => False

/-- The CSW of the last command was not started yet. -/
def MscClient.Unanswered (K : MscClient) : Prop := K.csws.length < K.accepted.length

/-- Steps while the last command is not answered, of which `m` were productive. -/
inductive BulkWait (vdReadBlock : Word → ℕ → Byte) (full clean : Prop) (depth : ℕ) (r : BulkRun) :
    ℕ → BulkRun → Prop
  | start : BulkWait vdReadBlock full clean depth r 0 r
  | idle {m : ℕ} {r₁ r₂ : BulkRun} {event : MscRunEvent}
      (h : BulkWait vdReadBlock full clean depth r m r₁) (hr₁ : r₁.state.client.Unanswered)
      (hevent : event.BulkOnly full clean r₁.state) (hidle : ¬event.Productive r₁.state)
      (hstep : bulkStep vdReadBlock depth r₁ event = .ok r₂) :
      BulkWait vdReadBlock full clean depth r m r₂
  | productive {m : ℕ} {r₁ r₂ : BulkRun} {event : MscRunEvent}
      (h : BulkWait vdReadBlock full clean depth r m r₁) (hr₁ : r₁.state.client.Unanswered)
      (hevent : event.BulkOnly full clean r₁.state) (hproductive : event.Productive r₁.state)
      (hstep : bulkStep vdReadBlock depth r₁ event = .ok r₂) :
      BulkWait vdReadBlock full clean depth r (m + 1) r₂

/-- The number of productive events of a data phase : a buffer and a task for each packet, and the
end of a stall. -/
def ScsiCbw.eventBound (cbw : ScsiCbw) : ℕ := 2 * (cbw.hostLength / 64) + 1

/-- A command that is not answered, after `m` productive events. -/
inductive BulkMoving (vdReadBlock : Word → ℕ → Byte) (full clean : Prop) (cbw : ScsiCbw)
    (K₀ : MscClient) (s : MscState) : ℕ → Prop
  | reading {x : SectorStream} {before : List (List Byte)} {k : ℕ}
      (h : Reading vdReadBlock cbw K₀ x before k s) (hout : (s.endpoint .mscOut).Free) :
      BulkMoving vdReadBlock full clean cbw K₀ s k
  | responding {packet : List Byte} (h : Responding full clean cbw K₀ packet s)
      (hout : (s.endpoint .mscOut).Free) : BulkMoving vdReadBlock full clean cbw K₀ s 0
  | writing {x : SectorStream} {packet : ℕ → List Byte} {k d : ℕ}
      (h : Writing full cbw K₀ x packet k d s) :
      BulkMoving vdReadBlock full clean cbw K₀ s (k + d)
  | held {m : ℕ} (hin : (s.endpoint .mscIn).Stalled .halted)
      (hsend : s.client.msc.sendCswOnUnstall = true) (h : Underway cbw K₀ s.client)
      (hout : (s.endpoint .mscOut).Free) (hm : m ≤ cbw.eventBound) :
      BulkMoving vdReadBlock full clean cbw K₀ s m

section Progress

variable {vdReadBlock : Word → ℕ → Byte} {full clean : Prop} {cbw : ScsiCbw} {K₀ : MscClient}
  {s s' : MscState} {x : SectorStream} {packets : ℕ → List Byte} {k d m depth : ℕ}

theorem SectorStream.Origin.packets_le (h : x.Origin cbw K₀) :
    x.packets ≤ cbw.hostLength / 64 := by
  have hmoved := h.moved
  have hle := cbw.plan_moved_le
  omega

/-- In a write, the host can send a packet, or a task is running. -/
theorem Writing.progress (h : Writing full cbw K₀ x packets k d s) :
    d ≤ k ∧ k ≤ x.packets ∧
      ((s.endpoint .mscOut).hw.available ≠ [] ∨ 0 < s.client.tasks.length) := by
  have htasks {j : ℕ} (hK : x.OutBusy packets j s.client) : 0 < s.client.tasks.length := by
    rw [hK.tasks]
    exact Nat.one_pos
  cases h.serving with
  | free hf hk hK =>
    change k < x.packets at hk
    refine ⟨hK.2, Nat.le_of_lt hk, .inl fun hnil => ?_⟩
    have hlength := congrArg List.length hf.line.available
    rw [hnil] at hlength
    simp only [List.map_nil, List.length_nil, List.length_map, List.length_range'] at hlength
    change 0 = min x.packets (k + 2) - k at hlength
    omega
  | @busy k _ _ _ hb hk hK =>
    change k < x.packets at hk
    exact ⟨Nat.le_succ_of_le hK.2, hk, .inr (htasks hK.1)⟩
  | @queued k _ _ _ hq hk hK =>
    change k + 1 < x.packets at hk
    exact ⟨Nat.le_add_right_of_le hK.2, hk, .inr (htasks hK.1)⟩

/-- In a read, the hardware has a packet for the host. -/
theorem Reading.progress {before : List (List Byte)} (h : Reading vdReadBlock cbw K₀ x before k s) :
    (s.endpoint .mscIn).hw.available ≠ [] ∧ k < x.packets ∧ s.client.tasks = [] := by
  obtain ⟨havail, hk, j, -, hidle⟩ := Reading.idle (s := { s with client := K₀ }) h
  exact ⟨havail, hk, hidle.tasks⟩

theorem BulkMoving.le (h : BulkMoving vdReadBlock full clean cbw K₀ s m) : m ≤ cbw.eventBound := by
  unfold ScsiCbw.eventBound
  cases h with
  | reading h hout =>
    have hle := h.origin.packets_le
    have hlt := h.progress.2.1
    omega
  | responding h hout => exact Nat.zero_le _
  | writing h =>
    have hle := h.origin.packets_le
    obtain ⟨hd, hk, -⟩ := h.progress
    omega
  | held hin hsend h hout hm => exact hm

/-- There is an event that the command waits for. -/
theorem BulkMoving.exists_event (h : BulkMoving vdReadBlock full clean cbw K₀ s m) :
    ∃ event : MscRunEvent, event.BulkOnly full clean s ∧ event.Productive s := by
  cases h with
  | reading h hout => exact ⟨.usb (.buffer .mscIn []), trivial, h.notHalted, h.progress.1⟩
  | responding h hout =>
    obtain ⟨b, hb, -⟩ := h.responds.available
    exact ⟨.usb (.buffer .mscIn []), trivial, h.responds.notHalted, by rw [hb]; simp⟩
  | writing h =>
    obtain ⟨-, -, havail | htask⟩ := h.progress
    · refine ⟨.usb (.buffer .mscOut (List.replicate 64 0)), ⟨?_, fun hcmd => ?_, fun _ _ => ?_⟩,
        h.notHalted, havail⟩
      · exact Nat.le_of_eq List.length_replicate
      · exact nomatch hcmd.symm.trans h.current
      · exact List.length_replicate
    · exact ⟨.usb (.asyncComplete 0 0), fun _ => rfl, htask⟩
  | held hin hsend h hout hm =>
    refine ⟨.usb (.clearFeature .mscIn), ?_, hin.halted⟩
    change (s.endpoint .mscIn).haltState ≠ .none
    rw [hin.halted]
    decide

/-- The command was answered, or it goes on. -/
def BulkNext (vdReadBlock : Word → ℕ → Byte) (full clean : Prop) (cbw : ScsiCbw) (K₀ : MscClient)
    (m : ℕ) (res : UsbResult MscState) : Prop :=
  ∃ s, res = .ok s ∧ (s.client.csws.length = s.client.accepted.length ∨
    BulkMoving vdReadBlock full clean cbw K₀ s m)

theorem DataEnded.next {dir : ScsiDirection} {res : UsbResult MscState} (hres : res = .ok s)
    (h : DataEnded full clean cbw K₀ dir s) (hK₀ : K₀.csws.length = K₀.accepted.length)
    (hm : m ≤ cbw.eventBound) : BulkNext vdReadBlock full clean cbw K₀ m res := by
  obtain ⟨hended, -, hout⟩ := h
  refine ⟨s, hres, ?_⟩
  cases hended with
  | stalled hin hsend hunderway hnote =>
    rw [if_neg (by decide)] at hout
    exact .inr (.held hin hsend hunderway hout hm)
  | answered hdir hin haccepted hcsws htasks htransferred hnote =>
    refine .inl ?_
    rw [haccepted, hcsws, List.length_append, List.length_append, hK₀]
    rfl

/-- The stream of a write goes on, or its data phase has ended. -/
theorem WriteAfter.next {res : UsbResult MscState} (horigin : x.Origin cbw K₀)
    (hwhole : full → ∀ i < k, (packets i).length = 64) (hd : d ≤ x.packets)
    (hK₀ : K₀.csws.length = K₀.accepted.length)
    (h : WriteAfter full cbw K₀ x packets k d res) :
    BulkNext vdReadBlock full clean cbw K₀ (k + d) res := by
  rcases h with ⟨s', hres, hwriting⟩ | ⟨s', hres, rfl, hdone, htransferred⟩
  · exact ⟨s', hres, .inr (.writing hwriting)⟩
  · have hidle := hdone.idle
    have hended : DataEnded full clean cbw K₀ cbw.plan.stall s'.endDataPhase :=
      hdone.dataEnded hidle.toKept hidle.tasks horigin (hidle.completed.trans htransferred.symm)
        fun hf => htransferred.trans (receivedBytes_full (hwhole hf))
    have hle := horigin.packets_le
    exact hended.next hres hK₀ (by unfold ScsiCbw.eventBound; omega)

/-- The stream of a read goes on, or its data phase has ended. -/
theorem ReadAfter.next {before : List (List Byte)} {res : UsbResult MscState}
    (horigin : x.Origin cbw K₀) (hK₀ : K₀.csws.length = K₀.accepted.length)
    (h : ReadAfter vdReadBlock cbw K₀ x before k res) :
    BulkNext vdReadBlock full clean cbw K₀ k res := by
  rcases h with ⟨s', hres, hreading, hout⟩ | ⟨s', hres, rfl, hdone, htransferred, -⟩
  · exact ⟨s', hres, .inr (.reading hreading hout)⟩
  · have hidle := hdone.idle
    have hended : DataEnded full clean cbw K₀ cbw.plan.stall s'.endDataPhase :=
      hdone.dataEnded hidle.toKept hidle.tasks horigin (hidle.completed.trans htransferred.symm)
        fun _ => htransferred
    have hle := horigin.packets_le
    exact hended.next hres hK₀ (by unfold ScsiCbw.eventBound; omega)

/-- A productive event gets a command on. -/
theorem BulkMoving.productive (h : BulkMoving vdReadBlock full clean cbw K₀ s m) (hw : MscWired s)
    (hconfig : s.currentConfigNum ≠ 0) (hK₀ : K₀.csws.length = K₀.accepted.length)
    {event : MscRunEvent} (hevent : event.BulkOnly full clean s) (hproductive : event.Productive s)
    (hdepth : 4 ≤ depth) :
    BulkNext vdReadBlock full clean cbw K₀ (m + 1) (mscRunStep vdReadBlock depth s event) := by
  have hno {e : MscEndpoint} {P : Prop} (hnil : (s.endpoint e).hw.available = [])
      (hne : (s.endpoint e).hw.available ≠ []) : P := absurd hnil hne
  cases event with
  | disk d => exact hproductive.elim
  | usb event =>
    cases event with
    | mscReset => exact hevent.elim
    | setConfiguration num => exact hevent.elim
    | buffer e packet =>
      cases h with
      | reading h hout =>
        cases e with
        | mscOut => exact hno hout.available hproductive.2
        | mscIn =>
          exact (h.buffer hw hout hproductive.2 packet (by omega)).next h.origin hK₀
      | responding h hout =>
        cases e with
        | mscOut => exact hno hout.available hproductive.2
        | mscIn =>
          obtain ⟨s', hs', hended⟩ : ∃ s', mscStep vdReadBlock depth s (.buffer .mscIn packet) =
              .ok s' ∧ DataEnded full clean _ _ _ s' := h.buffer hw hout packet (by omega)
          exact hended.next hs' hK₀ (by unfold ScsiCbw.eventBound; omega)
      | writing h =>
        cases e with
        | mscIn => exact hno h.quiet.available hproductive.2
        | mscOut =>
          obtain ⟨hd, hk, -⟩ := h.progress
          obtain ⟨packets, hwhole, hafter⟩ := h.receive vdReadBlock hw hproductive.2 hevent.1
            (fun hf => hevent.2.2 hf h.current) (by omega : 3 ≤ depth)
          rw [Nat.add_right_comm]
          exact hafter.next h.origin hwhole (by omega) hK₀
      | held hin hsend h hout hm =>
        cases e with
        | mscIn => exact nomatch hproductive.1.symm.trans hin.halted
        | mscOut => exact hno hout.available hproductive.2
    | asyncComplete i result =>
      have hne : s.client.tasks ≠ [] :=
        List.ne_nil_of_length_pos (Nat.lt_of_le_of_lt (Nat.zero_le i) hproductive)
      cases h with
      | reading h hout => exact absurd h.progress.2.2 hne
      | responding h hout => exact absurd h.underway.tasks hne
      | held hin hsend h hout hm => exact absurd h.tasks hne
      | @writing x packets k d h =>
        obtain ⟨hd, hk, -⟩ := h.progress
        obtain ⟨j, hjk, hj, hdj, -⟩ := h.busy hproductive
        by_cases hresult : result = 0
        · subst hresult
          rw [Nat.add_assoc]
          exact (h.asyncComplete hw hproductive (by omega)).next h.origin h.whole (by omega) hK₀
        · obtain ⟨s', hs', hended⟩ : ∃ s', mscStep vdReadBlock depth s (.asyncComplete i result) =
              .ok s' ∧ DataEnded full clean cbw K₀ .dirOut s' :=
            h.asyncFailed hw hproductive hresult (fun hc => hresult (hevent hc)) (by omega)
          have hle := h.origin.packets_le
          exact hended.next hs' hK₀ (by unfold ScsiCbw.eventBound; omega)
    | clearFeature e =>
      cases h with
      | reading h hout =>
        cases e with
        | mscIn => exact nomatch h.notHalted.symm.trans hproductive
        | mscOut => exact nomatch hout.notHalted.symm.trans hproductive
      | responding h hout =>
        cases e with
        | mscIn => exact nomatch h.responds.notHalted.symm.trans hproductive
        | mscOut => exact nomatch hout.notHalted.symm.trans hproductive
      | writing h => exact nomatch (h.free e).symm.trans hproductive
      | held hin hsend h hout hm =>
        cases e with
        | mscOut => exact nomatch hout.notHalted.symm.trans hproductive
        | mscIn =>
          refine ⟨_, usbClearFeature_mscIn vdReadBlock hw hconfig hin.halted hsend (by omega),
            .inl ?_⟩
          rw [sendCsw_client]
          change (s.client.csws ++ [_]).length = s.client.accepted.length
          rw [h.accepted, h.csws, List.length_append, List.length_append, hK₀]
          rfl

/-- Other events leave a command where it is. -/
theorem BulkMoving.idle (h : BulkMoving vdReadBlock full clean cbw K₀ s m) (hw : MscWired s)
    {event : MscRunEvent} (hevent : event.BulkOnly full clean s) (hidle : ¬event.Productive s)
    (hdepth : 1 ≤ depth) :
    ∃ s', mscRunStep vdReadBlock depth s event = .ok s' ∧
      BulkMoving vdReadBlock full clean cbw K₀ s' m := by
  cases event with
  | disk d =>
    refine ⟨_, rfl, ?_⟩
    cases h with
    | reading h hout => exact .reading (h.setDisk d) hout
    | responding h hout => exact .responding (h.setDisk d) hout
    | writing h => exact .writing (h.setDisk hevent)
    | held hin hsend h hout hm => exact .held hin hsend ⟨h.accepted, h.csws, h.tasks⟩ hout hm
  | usb event =>
    cases event with
    | mscReset => exact hevent.elim
    | setConfiguration num => exact hevent.elim
    | asyncComplete i result => exact ⟨s, mscStep_no_task (Nat.le_of_not_lt hidle), h⟩
    | buffer e packet =>
      by_cases havail : (s.endpoint e).hw.available = []
      · exact ⟨s, mscStep_buffer_nil havail packet, h⟩
      · have hhalted : (s.endpoint e).haltState ≠ .none := fun hnone => hidle ⟨hnone, havail⟩
        cases h with
        | reading h hout =>
          cases e with
          | mscIn => exact absurd h.notHalted hhalted
          | mscOut => exact absurd hout.notHalted hhalted
        | responding h hout =>
          cases e with
          | mscIn => exact absurd h.responds.notHalted hhalted
          | mscOut => exact absurd hout.notHalted hhalted
        | writing h => exact absurd (h.free e) hhalted
        | held hin hsend h hout hm =>
          cases e with
          | mscOut => exact absurd hout.notHalted hhalted
          | mscIn =>
            obtain ⟨E, hs', hE⟩ := mscStep_buffer_stalled vdReadBlock hw hin packet hdepth
            refine ⟨_, hs', .held ?_ hsend h ?_ hm⟩
            · rw [UsbState.modifyEndpoint_endpoint_self]
              exact hE
            · rw [UsbState.modifyEndpoint_endpoint_of_ne _ _ _ _ (by decide)]
              exact hout
    | clearFeature e =>
      have hne : (s.endpoint e).haltState ≠ .none := hevent
      cases h with
      | reading h hout =>
        cases e with
        | mscIn => exact absurd h.notHalted hne
        | mscOut => exact absurd hout.notHalted hne
      | responding h hout =>
        cases e with
        | mscIn => exact absurd h.responds.notHalted hne
        | mscOut => exact absurd hout.notHalted hne
      | writing h => exact absurd (h.free e) hne
      | held hin hsend h hout hm =>
        cases e with
        | mscIn => exact absurd hin.halted hidle
        | mscOut => exact absurd hout.notHalted hne

/-- A command that is not answered is in its data phase, or its CSW is held back. -/
theorem BulkPhase.moving {r : BulkRun} (h : BulkPhase vdReadBlock full clean r)
    (hr : r.state.client.Unanswered) :
    ∃ cbw K₀ m, BulkMoving vdReadBlock full clean cbw K₀ r.state m ∧
      K₀.csws.length = K₀.accepted.length ∧ r.state.client.accepted.getLast? = some cbw := by
  have hlast {cbw : ScsiCbw} {K₀ : MscClient}
      (haccepted : r.state.client.accepted = K₀.accepted ++ [cbw]) :
      r.state.client.accepted.getLast? = some cbw := by
    rw [haccepted, List.getLast?_concat]
  have hno {P : Prop} (hall : Answered full clean r.state.client.accepted r.state.client.csws
      r.stalls) : P := absurd hall.length (Nat.ne_of_lt hr)
  cases h with
  | waiting hout hin htasks hall => exact hno hall
  | reading h hout hall => exact ⟨_, _, _, .reading h hout, hall.length, hlast h.csws.1⟩
  | responding h hout hall =>
    exact ⟨_, _, _, .responding h hout, hall.length, hlast h.underway.accepted⟩
  | writing h hall => exact ⟨_, _, _, .writing h, hall.length, hlast h.csws.1⟩
  | held hin hsend h hnote hout hstalls hplan hall =>
    exact ⟨_, _, 0, .held hin hsend h hout (Nat.zero_le _), hall.length, hlast h.accepted⟩
  | answered hin hout htasks hlast hall => exact hno hall
  | blocked hin hout htasks hall => exact hno hall
  | dead hhalt havail htasks hall => exact hno hall

theorem bulkStep_state {r r' : BulkRun} {event : MscRunEvent}
    (h : bulkStep vdReadBlock depth r event = .ok r') :
    mscRunStep vdReadBlock depth r.state event = .ok r'.state := by
  unfold bulkStep at h
  cases hs : mscRunStep vdReadBlock depth r.state event with
  | error e =>
    rw [hs] at h
    cases h
  | ok s =>
    rw [hs] at h
    rw [← Except.ok.inj h]

/-- The command after the steps. -/
theorem BulkWait.moving {r r' : BulkRun} (h : BulkWait vdReadBlock full clean depth r m r')
    (hr : InConversation vdReadBlock full clean r) {m₀ : ℕ}
    (hmoving : BulkMoving vdReadBlock full clean cbw K₀ r.state m₀)
    (hK₀ : K₀.csws.length = K₀.accepted.length) (hdepth : 4 ≤ depth) :
    InConversation vdReadBlock full clean r' ∧
      (r'.state.client.Unanswered →
        BulkMoving vdReadBlock full clean cbw K₀ r'.state (m₀ + m)) := by
  have hstays {r₁ r₂ : BulkRun} {event : MscRunEvent}
      (hr₁ : InConversation vdReadBlock full clean r₁)
      (hevent : event.BulkOnly full clean r₁.state)
      (hstep : bulkStep vdReadBlock depth r₁ event = .ok r₂) :
      InConversation vdReadBlock full clean r₂ := by
    obtain ⟨r', hr', hconversation⟩ := hr₁.step hevent hdepth
    rw [hstep] at hr'
    rwa [Except.ok.inj hr']
  induction h with
  | start => exact ⟨hr, fun _ => hmoving⟩
  | idle h hr₁ hevent hidle hstep ih =>
    obtain ⟨hconversation, hmoving⟩ := ih
    refine ⟨hstays hconversation hevent hstep, fun _ => ?_⟩
    obtain ⟨s', hs', hnext⟩ := (hmoving hr₁).idle hconversation.wired hevent hidle
      (by omega : 1 ≤ depth)
    rw [bulkStep_state hstep] at hs'
    rwa [Except.ok.inj hs']
  | productive h hr₁ hevent hproductive hstep ih =>
    obtain ⟨hconversation, hmoving⟩ := ih
    refine ⟨hstays hconversation hevent hstep, fun hr₂ => ?_⟩
    obtain ⟨s', hs', hnext⟩ := (hmoving hr₁).productive hconversation.wired hconversation.config
      hK₀ hevent hproductive hdepth
    rw [bulkStep_state hstep] at hs'
    obtain rfl := Except.ok.inj hs'
    rcases hnext with hanswered | hnext
    · exact absurd hanswered (Nat.ne_of_lt hr₂)
    · exact hnext

/-- A command that is not answered is waited for : there is a productive event as long as its CSW
was not started, and there are no more of them than a bound that depends on the length of the host.
-/
theorem bulkOnly_answers (vdReadBlock : Word → ℕ → Byte) (full clean : Prop) (hs : Unspoken s)
    {es : List MscRunEvent}
    (hes : Run.Always (Run.attempt (bulkStep vdReadBlock depth))
      (Run.Holds fun r event => event.BulkOnly full clean r.state) (.ok ⟨s, []⟩) es)
    {r : BulkRun}
    (hr : Run.after (Run.attempt (bulkStep vdReadBlock depth)) (.ok ⟨s, []⟩) es = .ok r)
    (hunanswered : r.state.client.Unanswered) (hdepth : 4 ≤ depth) :
    ∃ cbw, r.state.client.accepted.getLast? = some cbw ∧
      ∀ m r', BulkWait vdReadBlock full clean depth r m r' → r'.state.client.Unanswered →
        m ≤ cbw.eventBound ∧ ∃ event : MscRunEvent,
          event.BulkOnly full clean r'.state ∧ event.Productive r'.state := by
  obtain ⟨r₁, hr₁, h⟩ := (hs.inConversation vdReadBlock full clean).run hes hdepth
  rw [hr] at hr₁
  obtain rfl := Except.ok.inj hr₁
  obtain ⟨cbw, K₀, m₀, hmoving, hK₀, hlast⟩ := h.phase.moving hunanswered
  refine ⟨cbw, hlast, fun m r' hwait hr' => ?_⟩
  have hmoving' := (hwait.moving h hmoving hK₀ hdepth).2 hr'
  have hle := hmoving'.le
  exact ⟨by omega, hmoving'.exists_event⟩

/-- A command of the run is not answered. -/
def endsUnanswered (res : UsbResult BulkRun) : Bool :=
  match res with
  | .ok r => decide (r.state.client.csws.length < r.state.client.accepted.length)
  | .error _ => false

/-- `bulkOnly_answers`, for a `READ_CAPACITY_10` : two events are productive, the response is taken
and a stall may end. -/
theorem bulkOnly_answers_capacity :
    ∃ r, Run.after (Run.attempt (bulkStep emptyDisk 4)) (.ok ⟨mscConfigured.awaitCommand, []⟩)
        [.usb (.buffer .mscOut (cbwPacket 0x80 0x25 8))] = .ok r ∧
      ∃ cbw, r.state.client.accepted.getLast? = some cbw ∧
        ∀ m r', BulkWait emptyDisk True True 4 r m r' → r'.state.client.Unanswered →
          m ≤ cbw.eventBound ∧ ∃ event : MscRunEvent,
            event.BulkOnly True True r'.state ∧ event.Productive r'.state := by
  have hunanswered : endsUnanswered (Run.after (Run.attempt (bulkStep emptyDisk 4))
      (.ok ⟨mscConfigured.awaitCommand, []⟩)
      [.usb (.buffer .mscOut (cbwPacket 0x80 0x25 8))]) = true := by decide +kernel
  generalize hres : Run.after (Run.attempt (bulkStep emptyDisk 4)) _ _ = res at hunanswered
  cases res with
  | error fault => cases hunanswered
  | ok r =>
    have hes : Run.Always (Run.attempt (bulkStep emptyDisk 4))
        (Run.Holds fun r event => event.BulkOnly True True r.state)
        (.ok ⟨mscConfigured.awaitCommand, []⟩)
        [.usb (.buffer .mscOut (cbwPacket 0x80 0x25 8))] := by
      refine ⟨fun r hr => ?_, trivial⟩
      obtain rfl := Except.ok.inj hr
      refine ⟨by decide, fun _ => mscConfigured_unspoken.mscIn.current, fun _ hsector => ?_⟩
      exact nomatch mscConfigured_armed.current.symm.trans hsector
    have hr : r.state.client.csws.length < r.state.client.accepted.length :=
      of_decide_eq_true hunanswered
    exact ⟨r, rfl, bulkOnly_answers emptyDisk True True mscConfigured_unspoken hes hres hr
      (Nat.le_refl 4)⟩

end Progress

/-! ## Chunks that are being written -/

section Pending

variable {vdReadBlock : Word → ℕ → Byte} {full clean : Prop} {s : MscState} {r : BulkRun}
  {depth : ℕ}

/-- A chunk is pending while there is a task, and its packet is outstanding. -/
theorem BulkPhase.pending (h : BulkPhase vdReadBlock full clean r)
    (htasks : r.state.client.tasks ≠ []) :
    (∃ call, r.state.client.Pending call) ∧ (∀ e, (r.state.endpoint e).haltState = .none) ∧
      (r.state.endpoint .mscIn).hw.available = [] ∧
      (r.state.endpoint .mscOut).currentTransfer = some .sector ∧
      (r.state.transfer .sector).outstandingPacket = true := by
  obtain ⟨cbw, K₀, x, packets, k, d, hwriting, -⟩ := h.tasks.resolve_left htasks
  obtain ⟨j, -, -, -, hbusy, houtstanding⟩ := hwriting.busy (List.length_pos_iff.2 htasks)
  obtain ⟨calls, lba, hcalls⟩ := hbusy.pending
  have hpending : r.state.client.Pending
      ⟨.dirOut, r.state.client.asyncToken, lba, sectorBytes r.state.client.sectorBuf⟩ :=
    { dir := rfl
      tasks := hbusy.tasks
      calls := by rw [hcalls, List.getLast?_concat]
      sector := by dsimp only
      sectorBuf := hbusy.sectorBuf }
  exact ⟨⟨_, hpending⟩, hwriting.free, hwriting.quiet.available, hwriting.current, houtstanding⟩

/-- No step writes the chunk that is pending, until its task ends. -/
theorem InConversation.pending_step (h : InConversation vdReadBlock full clean r)
    (htasks : r.state.client.tasks ≠ []) {event : MscRunEvent}
    (hevent : event.BulkOnly full clean r.state) (hcompletes : ¬event.Completes) {r' : BulkRun}
    (hstep : bulkStep vdReadBlock depth r event = .ok r') :
    r'.state.client.SameChunk r.state.client := by
  have hs' := bulkStep_state hstep
  obtain ⟨-, hfree, hin, hcurrent, houtstanding⟩ := h.phase.pending htasks
  cases event with
  | disk d =>
    rw [← Except.ok.inj hs']
    exact ⟨rfl, rfl, rfl, hevent⟩
  | usb event =>
    cases event with
    | asyncComplete i result => exact absurd trivial hcompletes
    | clearFeature e => exact absurd (hfree e) hevent
    | mscReset => exact hevent.elim
    | setConfiguration num => exact hevent.elim
    | buffer e packet =>
      cases e with
      | mscIn =>
        rw [← Except.ok.inj ((mscStep_buffer_nil hin packet).symm.trans hs')]
        exact ⟨rfl, rfl, rfl, rfl⟩
      | mscOut =>
        -- the packet waits until the outstanding one is done with
        obtain ⟨n, hn⟩ := countTransferred_eq .mscOut packet r.state
        obtain ⟨s'', hs'', hclient⟩ := usbBufferInterrupt_outstanding
          (c := usbCalls (mscDriver vdReadBlock) depth)
          (s := r.state.modifyClient fun K => K.transfer n) hcurrent houtstanding packet
        rw [← hn] at hs''
        rw [← Except.ok.inj (hs''.symm.trans hs'), hclient]
        exact ⟨rfl, rfl, rfl, rfl⟩

/-- A run in which no task ends. -/
theorem InConversation.pending_run (h : InConversation vdReadBlock full clean r)
    (htasks : r.state.client.tasks ≠ []) {es : List MscRunEvent}
    (hes : Run.Always (Run.attempt (bulkStep vdReadBlock depth))
      (Run.Holds fun r event => event.BulkOnly full clean r.state) (.ok r) es)
    (hcompletes : ∀ event ∈ es, ¬event.Completes) (hdepth : 4 ≤ depth) :
    ∃ r', Run.after (Run.attempt (bulkStep vdReadBlock depth)) (.ok r) es = .ok r' ∧
      r'.state.client.SameChunk r.state.client := by
  induction es generalizing r with
  | nil => exact ⟨r, rfl, rfl, rfl, rfl, rfl⟩
  | cons event es ih =>
    obtain ⟨hevent, hes⟩ := hes
    obtain ⟨r₁, hr₁, h₁⟩ := h.step (hevent r rfl) hdepth
    have hsame := h.pending_step htasks (hevent r rfl) (hcompletes event List.mem_cons_self) hr₁
    have hattempt : Run.attempt (bulkStep vdReadBlock depth) (.ok r) event = .ok r₁ := hr₁
    rw [hattempt] at hes
    obtain ⟨r', hr', hsame'⟩ := ih h₁ (by rw [hsame.tasks]; exact htasks) hes
      fun event' hmem => hcompletes event' (List.mem_cons_of_mem _ hmem)
    refine ⟨r', ?_, hsame'.trans hsame⟩
    rw [Run.after_cons, hattempt]
    exact hr'

/-- From the call of `vd_write_block` that queues a task to the end of the task, the chunk stays in
its buffer, whatever the host sends, and the task finds the data of the sector there. -/
theorem chunk_kept (vdReadBlock : Word → ℕ → Byte) (full clean : Prop) (hs : Unspoken s)
    {pre post : List MscRunEvent}
    (hes : Run.Always (Run.attempt (bulkStep vdReadBlock depth))
      (Run.Holds fun r event => event.BulkOnly full clean r.state) (.ok ⟨s, []⟩) (pre ++ post))
    (hr : Run.after (Run.attempt (bulkStep vdReadBlock depth)) (.ok ⟨s, []⟩) pre = .ok r)
    (htasks : r.state.client.tasks ≠ []) (hcompletes : ∀ event ∈ post, ¬event.Completes)
    (hdepth : 4 ≤ depth) :
    ∃ call r', Run.after (Run.attempt (bulkStep vdReadBlock depth)) (.ok ⟨s, []⟩) (pre ++ post) =
        .ok r' ∧
      r.state.client.Pending call ∧ r'.state.client.Pending call ∧
      ∀ i < 256, r'.state.client.disk.readData .uf2Data i = call.sector.getD (32 + i) 0 := by
  obtain ⟨hpre, hpost⟩ := Run.always_append.1 hes
  obtain ⟨r₁, hr₁, h⟩ := (hs.inConversation vdReadBlock full clean).run hpre hdepth
  rw [hr] at hr₁
  obtain rfl := Except.ok.inj hr₁
  rw [hr] at hpost
  obtain ⟨⟨call, hcall⟩, -⟩ := h.phase.pending htasks
  obtain ⟨r', hr', hsame⟩ := h.pending_run htasks hpost hcompletes hdepth
  refine ⟨call, r', ?_, hcall, hcall.congr hsame, fun i hi => (hcall.congr hsame).readData hi⟩
  rw [Run.after_append, hr, hr']

/-- The packets of a UF2 block for the first page of the flash, a file of one block. -/
def uf2Packets : List (List Byte) :=
  let header := [uf2MagicStart0, uf2MagicStart1, uf2FlagFamilyIdPresent, 0x10000000, 256, 0, 1,
    rp2040FamilyId].flatMap wordBytes
  (header ++ List.replicate 32 0) :: List.replicate 6 (List.replicate 64 0) ++
    [List.replicate 60 0 ++ wordBytes uf2MagicEnd]

/-- The packets of a host that writes, checked. -/
def hostPacketsOk (vdReadBlock : Word → ℕ → Byte) (depth : ℕ) :
    UsbResult BulkRun → List (List Byte) → Bool
  | .ok r, packet :: packets =>
    decide (packet.length ≤ 64 ∧ ((r.state.endpoint .mscOut).currentTransfer = some .cmd →
      (r.state.endpoint .mscIn).currentTransfer = none)) &&
      hostPacketsOk vdReadBlock depth
        (bulkStep vdReadBlock depth r (.usb (.buffer .mscOut packet))) packets
  | _, _ => true

theorem always_of_hostPacketsOk {res : UsbResult BulkRun} {packets : List (List Byte)}
    (h : hostPacketsOk vdReadBlock depth res packets = true) :
    Run.Always (Run.attempt (bulkStep vdReadBlock depth))
      (Run.Holds fun r event => event.BulkOnly False False r.state) res
      (packets.map fun packet => .usb (.buffer .mscOut packet)) := by
  induction packets generalizing res with
  | nil => trivial
  | cons packet packets ih =>
    cases res with
    | error fault =>
      have hrest : hostPacketsOk vdReadBlock depth (.error fault) packets = true := by
        cases packets <;> rfl
      exact ⟨fun r hr => (by cases hr), ih hrest⟩
    | ok r =>
      rw [hostPacketsOk, Bool.and_eq_true, decide_eq_true_eq] at h
      refine ⟨fun r' hr' => ?_, ih h.2⟩
      obtain rfl := Except.ok.inj hr'
      exact ⟨h.1.1, h.1.2, False.elim⟩

/-- The run has ended with a task. -/
def endsWithTask (res : UsbResult BulkRun) : Bool :=
  match res with
  | .ok r => decide (0 < r.state.client.tasks.length)
  | .error _ => false

/-- `chunk_kept`, for a UF2 block and a packet that comes while its task is running. -/
theorem chunk_kept_uf2 : ∃ r call r',
    Run.after (Run.attempt (bulkStep emptyDisk 4)) (.ok ⟨mscConfigured.awaitCommand, []⟩)
        ((blockCommand 0 0x2a 2 1024 :: uf2Packets).map fun packet =>
          .usb (.buffer .mscOut packet)) = .ok r ∧
      Run.after (Run.attempt (bulkStep emptyDisk 4)) (.ok ⟨mscConfigured.awaitCommand, []⟩)
        ((blockCommand 0 0x2a 2 1024 :: uf2Packets).map (fun packet =>
          .usb (.buffer .mscOut packet)) ++ [.usb (.buffer .mscOut (zeroPackets 0))]) = .ok r' ∧
      r.state.client.Pending call ∧ r'.state.client.Pending call := by
  have hes : Run.Always (Run.attempt (bulkStep emptyDisk 4))
      (Run.Holds fun r event => event.BulkOnly False False r.state)
      (.ok ⟨mscConfigured.awaitCommand, []⟩)
      (((blockCommand 0 0x2a 2 1024 :: uf2Packets) ++ [zeroPackets 0]).map fun packet =>
        .usb (.buffer .mscOut packet)) := always_of_hostPacketsOk (by decide +kernel)
  have htask : endsWithTask (Run.after (Run.attempt (bulkStep emptyDisk 4))
      (.ok ⟨mscConfigured.awaitCommand, []⟩) ((blockCommand 0 0x2a 2 1024 :: uf2Packets).map
        fun packet => .usb (.buffer .mscOut packet))) = true := by decide +kernel
  rw [List.map_append] at hes
  have hnone : ∀ event ∈ [zeroPackets 0].map
      (fun packet => MscRunEvent.usb (.buffer .mscOut packet)), ¬event.Completes := by
    intro event hmem hcompletes
    obtain rfl := List.mem_singleton.1 hmem
    exact hcompletes
  generalize (blockCommand 0 0x2a 2 1024 :: uf2Packets).map
    (fun packet => MscRunEvent.usb (.buffer .mscOut packet)) = pre at *
  generalize hres : Run.after (Run.attempt (bulkStep emptyDisk 4)) _ pre = res at htask
  cases res with
  | error fault => cases htask
  | ok r =>
    have htasks : 0 < r.state.client.tasks.length := of_decide_eq_true htask
    obtain ⟨call, r', hr', hcall, hcall', -⟩ := chunk_kept emptyDisk False False
      mscConfigured_unspoken hes hres (List.ne_nil_of_length_pos htasks) hnone (Nat.le_refl 4)
    exact ⟨r, call, r', rfl, hr', hcall, hcall'⟩

end Pending

end PicoBootrom
