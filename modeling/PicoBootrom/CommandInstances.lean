import PicoBootrom.PicobootRuns

/-!
# Instances of commands

Every command that is read is an instance of its own, which the generation counts : it is superseded
by the next one, and by a reset. The code does not know the generations. A task carries the `dToken`
of its command, which the host chooses, and its callback compares it with the one of the latest
command, which a reset does not clear.

So a task of a superseded instance acts on another one if it has its token, and a stream that is
still on `picoboot_in` when the next command is read goes on with the task of that command. In every
run without these two, a task of a superseded instance does nothing, and every instance is
acknowledged once at most, by its own task (`instance_acts_alone`).
-/

set_option linter.unusedSectionVars false

namespace PicoBootrom

section Steps

variable {handling : Bool} {owed : Option ℕ} {generation : ℕ} {base : List ℕ}
  {s s' : PicobootState} {e : PicobootEndpoint} {depth : ℕ}

/-! ## Resets -/

/-- What holds between two events, in every generation. -/
structure PicobootSound (owed : Option ℕ) (s : PicobootState) : Prop where
  links : PicobootLinks false s
  acks : PicobootAcks owed s

theorem PicobootSound.inv (h : PicobootSound owed s) :
    PicobootInv false owed s.client.generation s.client.acks s :=
  ⟨h.links, h.acks, rfl, [], by simp, by simp⟩

theorem PicobootInv.sound (h : PicobootInv false owed generation base s) : PicobootSound owed s :=
  ⟨h.links, h.acks⟩

theorem PicobootSound.resetEndpoint {hard : Bool} (h : PicobootSound owed s)
    (hs' : usbResetEndpoint (usbCalls picobootDriver depth) e hard s = .ok s') :
    PicobootSound owed s' ∧ (∀ e', s'.Streams e' → s.Streams e' ∧ e' ≠ e) ∧
      s'.client = s.client := by
  have hcleared : (s.modifyEndpoint e fun E => E.cleared hard).EndsFrom s :=
    .of_endpoint ⟨rfl, rfl, rfl, rfl, .inr rfl, rfl⟩
  have hinv := h.inv.endsFrom hcleared
  have hstreams (e' : PicobootEndpoint)
      (hs : (s.modifyEndpoint e fun E => E.cleared hard).Streams e') :
      s.Streams e' ∧ e' ≠ e := by
    refine ⟨hcleared.streams hs, ?_⟩
    rintro rfl
    have hnone : ((s.modifyEndpoint e' fun E => E.cleared hard).endpoint e').currentTransfer =
        none := by
      rw [UsbState.modifyEndpoint_endpoint_self]
      rfl
    rcases hs with hcur | ⟨hcur, -⟩ <;> rw [hnone] at hcur <;> cases hcur
  rw [usbResetEndpoint_eq hard (h.links.wired.onStallChange e), h.links.wired.defaultTransfer] at hs'
  by_cases hdefault : s.currentConfigNum ≠ 0 ∧
      (if e = .picobootOut then some PicobootTransfer.cmd else none).isSome
  · rw [if_pos hdefault] at hs'
    cases e with
    | picobootIn => exact absurd hdefault.2 (by decide)
    | picobootOut =>
      have hkept := hinv.links.wired.startDefault hs'
      refine ⟨(hinv.armCommand hkept).sound, fun e' hs => ?_, hkept.client⟩
      exact hstreams e' (UsbState.armCommand_streams hkept hs).1
  · rw [if_neg hdefault] at hs'
    cases hs'
    exact ⟨hinv.sound, hstreams, rfl⟩

/-- A new generation, with no stream of an old one, has nobody to acknowledge it yet. -/
theorem PicobootAcks.newGeneration (h : PicobootAcks owed s) (s' : PicobootState)
    (hstreams : ∀ e, ¬s'.Streams e)
    (hgeneration : s'.client.generation = s.client.generation + 1)
    (hacks : s'.client.acks = s.client.acks)
    (htask : s'.client.picoboot.queue.full = true → s'.client.taskGeneration ≤ s.client.generation) :
    PicobootAcks owed s' ∧ PicobootPending owed s' := by
  have howes : ¬s'.client.Owes := by
    rintro ⟨hfull, -, heq⟩
    have hle := htask hfull
    omega
  have howed : owed ≠ some s'.client.generation := by
    intro heq
    have hle := h.owedLe _ heq
    omega
  have hacked : s'.client.generation ∉ s'.client.acks := by
    intro hmem
    rw [hacks] at hmem
    have hle := h.le _ hmem
    omega
  refine ⟨?_, howes, howed, hstreams, hacked⟩
  exact
    { le := fun n hn => by
        have hle := h.le n (hacks ▸ hn)
        omega
      nodup := by rw [hacks]; exact h.nodup
      owedLe := fun n hn => by
        have hle := h.owedLe n hn
        omega
      taskLe := fun hfull => by
        have hle := htask hfull
        omega
      streamGeneration := fun e hs => absurd hs (hstreams e)
      acked := fun hmem => absurd hmem hacked
      task := fun ht => absurd ht howes
      worker := fun hw => absurd hw howed
      stream := fun e _ hs => absurd hs (hstreams e) }

theorem PicobootSound.supersede (h : PicobootSound owed s) (hstreams : ∀ e, ¬s.Streams e) :
    PicobootSound owed (s.modifyClient PicobootClient.supersede) where
  links := h.links.congr rfl rfl
  acks := (h.acks.newGeneration (s.modifyClient PicobootClient.supersede) hstreams rfl rfl
    h.acks.taskLe).1

/-- `PICOBOOT_IF_RESET`. -/
theorem PicobootSound.reset (h : PicobootSound owed s)
    (hs' : picobootReset (usbCalls picobootDriver depth) s = .ok s') : PicobootSound owed s' := by
  unfold picobootReset at hs'
  obtain ⟨s₁, hs₁, hs'⟩ := UsbResult.bind_eq_ok hs'
  obtain ⟨s₂, hs₂, hs'⟩ := UsbResult.bind_eq_ok hs'
  cases hs'
  obtain ⟨h₁, hstreams₁, -⟩ := h.resetEndpoint hs₁
  obtain ⟨h₂, hstreams₂, -⟩ := h₁.resetEndpoint hs₂
  have hnone (e : PicobootEndpoint) : ¬s₂.Streams e := by
    intro hs
    obtain ⟨hs₁, hin⟩ := hstreams₂ e hs
    have hout := (hstreams₁ e hs₁).2
    cases e with
    | picobootIn => exact hin rfl
    | picobootOut => exact hout rfl
  exact
    { links := h₂.links.congr rfl rfl
      acks := (h₂.acks.newGeneration (s₂.modifyClient PicobootClient.reset) hnone rfl rfl
        fun hfull => by cases hfull).1 }

/-- `CLEAR_FEATURE(ENDPOINT_HALT)`. -/
theorem PicobootSound.clearFeature (h : PicobootSound owed s)
    (hs' : picobootClearFeature (usbCalls picobootDriver depth) e s = .ok s') :
    PicobootSound owed s' := by
  unfold picobootClearFeature at hs'
  obtain ⟨s₁, hs₁, hs'⟩ := UsbResult.bind_eq_ok hs'
  cases hs'
  obtain ⟨h₁, hstreams⟩ : PicobootSound owed s₁ ∧ ∀ e', s₁.Streams e' → s.Streams e' := by
    unfold usbClearFeature at hs₁
    split at hs₁
    · cases hs₁
      exact ⟨h, fun _ hs => hs⟩
    · split at hs₁
      · obtain ⟨h₁, hstreams, -⟩ := h.resetEndpoint hs₁
        exact ⟨h₁, fun e' hs => (hstreams e' hs).1⟩
      · cases hs₁
        have hends : (s.modifyEndpoint e fun E => { E with nextPid := false }).EndsFrom s :=
          .of_endpoint ⟨rfl, rfl, rfl, rfl, .inl rfl, rfl⟩
        exact ⟨(h.inv.endsFrom hends).sound, fun _ => hends.streams⟩
  split
  · next hlost =>
    refine h₁.supersede fun e' hs => ?_
    have heq : e' = e := h.acks.stream e' e (hstreams e' hs) hlost.1
    exact hlost.2 (heq ▸ hs)
  · exact h₁

/-- `SET_CONFIGURATION`, and a bus reset. -/
theorem PicobootSound.setConfiguration {num : Byte} (h : PicobootSound owed s)
    (hs' : picobootSetConfiguration (usbCalls picobootDriver depth) num s = .ok s') :
    PicobootSound owed s' := by
  unfold picobootSetConfiguration at hs'
  obtain ⟨s₁, hs₁, hs'⟩ := UsbResult.bind_eq_ok hs'
  unfold usbHandleSetConfig usbHardResetEndpoint at hs₁
  simp only [List.foldlM] at hs₁
  obtain ⟨s₂, hs₂, hs₁⟩ := UsbResult.bind_eq_ok hs₁
  obtain ⟨s₃, hs₃, hs₁⟩ := UsbResult.bind_eq_ok hs₁
  cases hs₁
  have hnum : PicobootSound owed { s with currentConfigNum := num } :=
    ⟨h.links.congr rfl rfl, ⟨h.acks.1, h.acks.2, h.acks.3, h.acks.4, h.acks.5, h.acks.6, h.acks.7,
      h.acks.8, h.acks.9⟩⟩
  obtain ⟨h₂, hstreams₂, -⟩ := hnum.resetEndpoint hs₂
  obtain ⟨h₃, hstreams₃, -⟩ := h₂.resetEndpoint hs₃
  split at hs'
  · exact h₃.reset hs'
  · cases hs'
    refine h₃.supersede fun e hs => ?_
    obtain ⟨hs₂, hin⟩ := hstreams₃ e hs
    have hout := (hstreams₂ e hs₂).2
    cases e with
    | picobootIn => exact hin rfl
    | picobootOut => exact hout rfl

/-! ## Command packets -/

/-- A packet with the length and the magic number of a command. -/
def PicobootCmd.Header (packet : List Byte) : Prop :=
  packet.length = sizeofPicobootCmd ∧ (PicobootCmd.ofPacket packet).dMagic = picobootMagic

instance (packet : List Byte) : Decidable (PicobootCmd.Header packet) :=
  inferInstanceAs (Decidable (_ ∧ _))

theorem PicobootInv.handling_of_false (h : PicobootInv false owed generation base s) :
    PicobootInv true owed generation base s :=
  { h with
    links := { h.links with
      cmd := fun ht =>
        { h.links.cmd ht with
          outstanding := fun _ => rfl
          notChained := fun hnot => by cases hnot } } }

/-- Without a transfer of the commands, no packet of it is being handled. -/
theorem PicobootInv.not_handling (h : PicobootInv true owed generation base s)
    (ht : (s.endpoint .picobootOut).currentTransfer ≠ some .cmd) :
    PicobootInv false owed generation base s :=
  { h with links := { h.links with cmd := fun hcmd => absurd hcmd ht } }

/-- The packet of a command becomes outstanding. -/
theorem PicobootInv.setOutstanding (h : PicobootInv true owed generation base s) :
    PicobootInv true owed generation base
      (s.modifyTransfer .cmd fun T => T.setOutstanding true) := by
  have hother {t : PicobootTransfer} (ht : t ≠ .cmd) :
      (s.modifyTransfer .cmd fun T => T.setOutstanding true).transfer t = s.transfer t :=
    UsbState.modifyTransfer_transfer_of_ne _ _ _ _ ht
  exact
    { links :=
        { wired := h.links.wired.of_wiring (fun _ => .refl _) (by simp)
          inNotCmd := h.links.inNotCmd
          cmd := fun ht =>
            { chain := (h.links.cmd ht).chain
              onComplete := by simpa using (h.links.cmd ht).onComplete
              handle := by simpa using (h.links.cmd ht).handle
              queued := by simpa using (h.links.cmd ht).queued
              notCompleted := by simpa using (h.links.cmd ht).notCompleted
              outstanding := fun _ => rfl
              notChained := fun hnot => by cases hnot }
          ack := fun e ht => by
            rw [hother (by decide)]
            exact h.links.ack e ht
          stream := fun e hs => by
            rw [hother (by decide)]
            exact h.links.stream e hs }
      acks := h.acks.of_streams (fun _ hs => hs) (.refl _)
      current := h.current
      since := h.since }

/-- The task of a command is queued. -/
theorem PicobootInv.queueCommandTask (h : PicobootInv handling owed generation base s)
    (hp : PicobootPending owed s) : PicobootInv handling owed generation base
      (s.modifyClient PicobootClient.queueCommandTask) where
  links := h.links.congr rfl rfl
  acks :=
    { le := h.acks.le
      nodup := h.acks.nodup
      owedLe := h.acks.owedLe
      taskLe := fun _ => Nat.le_refl _
      streamGeneration := h.acks.streamGeneration
      acked := fun hmem => absurd hmem hp.notAcked
      task := fun _ => ⟨hp.owed, hp.streams⟩
      worker := h.acks.worker
      stream := h.acks.stream }
  current := h.current
  since := h.since

/-- The stream of a command is there : it runs on an endpoint, or it is chained to the transfer of
the command. -/
theorem PicobootInv.addStream (ep : PicobootEndpoint)
    (h : PicobootInv handling owed generation base s) (hp : PicobootPending owed s)
    (hkind : (s'.transfer .stream).type.onPacket = .driver .streamPacketHandler ∧
      (s'.transfer .stream).onComplete = some .tfAck)
    (hstream : s'.client.streamGeneration = s'.client.generation)
    (hwiring : ∀ e, (s'.endpoint e).SameWiring (s.endpoint e))
    (hother : ∀ e ≠ ep, s'.endpoint e = s.endpoint e)
    (hep : (s'.endpoint ep).currentTransfer = some .stream ∨
      handling = true ∧ ep = .picobootOut ∧ (s.endpoint ep).currentTransfer = some .cmd ∧
        s'.endpoint ep = (s.endpoint ep).setChain (some .stream))
    (htransfer : ∀ t ≠ .stream, s'.transfer t = s.transfer t)
    (hqueue : s'.client.picoboot.queue = s.client.picoboot.queue)
    (htask : s'.client.taskGeneration = s.client.taskGeneration)
    (hgeneration : s'.client.generation = s.client.generation)
    (hacks : s'.client.acks = s.client.acks) :
    PicobootInv handling owed generation base s' := by
  have hne {e : PicobootEndpoint} (hs : s'.Streams e) : e = ep := by
    by_contra he
    unfold UsbState.Streams at hs
    rw [hother e he] at hs
    exact hp.streams e hs
  have hcurrent {e : PicobootEndpoint} {t : PicobootTransfer} (ht : t ≠ .stream)
      (hcur : (s'.endpoint e).currentTransfer = some t) :
      (s.endpoint e).currentTransfer = some t := by
    by_cases he : e = ep
    · subst he
      rcases hep with hstream | ⟨-, -, -, hchained⟩
      · rw [hstream] at hcur
        exact absurd (Option.some.inj hcur).symm ht
      · rw [hchained] at hcur
        exact hcur
    · rwa [hother e he] at hcur
  have howes : ¬s'.client.Owes := by
    have hnot := hp.owes
    unfold PicobootClient.Owes at hnot ⊢
    rwa [hqueue, htask, hgeneration]
  exact
    { links :=
        { wired := h.links.wired.of_wiring hwiring
            (congrArg UsbTransfer.type (htransfer _ (by decide)))
          inNotCmd := fun hcur => h.links.inNotCmd (hcurrent (by decide) hcur)
          cmd := fun hcur => by
            have hc := h.links.cmd (hcurrent (by decide) hcur)
            have hcmd := htransfer .cmd (by decide)
            have hchain : (s'.endpoint .picobootOut).chainTransfer =
                  (s.endpoint .picobootOut).chainTransfer ∨
                handling = true ∧ (s'.endpoint .picobootOut).chainTransfer = some .stream := by
              by_cases he : .picobootOut = ep
              · subst he
                rcases hep with hrunning | ⟨hhandling, -, -, hchained⟩
                · rw [hrunning] at hcur
                  cases hcur
                · exact .inr ⟨hhandling, by rw [hchained]; rfl⟩
              · exact .inl (by rw [hother _ he])
            refine ⟨fun t ht => ?_, hcmd ▸ hc.onComplete, hcmd ▸ hc.handle, hcmd ▸ hc.queued,
              hcmd ▸ hc.notCompleted, hcmd ▸ hc.outstanding, fun hnot => ?_⟩
            · rcases hchain with hsame | ⟨-, hchained⟩
              · exact hc.chain t (hsame ▸ ht)
              · exact (Option.some.inj (hchained ▸ ht)).symm
            · rcases hchain with hsame | ⟨hhandling, -⟩
              · rw [hsame]
                exact hc.notChained hnot
              · rw [hhandling] at hnot
                cases hnot
          ack := fun e hcur => by
            rw [htransfer .ack (by decide)]
            exact h.links.ack e (hcurrent (by decide) hcur)
          stream := fun _ _ => hkind }
      acks :=
        { le := by rw [hacks, hgeneration]; exact h.acks.le
          nodup := by rw [hacks]; exact h.acks.nodup
          owedLe := by rw [hgeneration]; exact h.acks.owedLe
          taskLe := by rw [hqueue, htask, hgeneration]; exact h.acks.taskLe
          streamGeneration := fun _ _ => hstream
          acked := fun hmem => by
            rw [hacks, hgeneration] at hmem
            exact absurd hmem hp.notAcked
          task := fun ht => absurd ht howes
          worker := fun hw => by
            rw [hgeneration] at hw
            exact absurd hw hp.owed
          stream := fun e e' he he' => (hne he).trans (hne he').symm }
      current := hgeneration.trans h.current
      since := by
        rw [hacks]
        exact h.since }

/-- A halt of an endpoint of PICOBOOT. -/
theorem PicobootInv.halt (h : PicobootInv handling owed generation base s) (e : PicobootEndpoint) :
    PicobootInv handling owed generation base (s.modifyEndpoint e UsbEndpoint.halt) := by
  refine h.endsFrom (.of_endpoint (E := (s.endpoint e).halt) ?_)
  rw [UsbEndpoint.halt_eq]
  exact ⟨rfl, rfl, rfl, rfl, .inl rfl, rfl⟩

/-- The transfer of the commands is the current one, and it goes on. -/
structure PicobootHandled (owed : Option ℕ) (s : PicobootState) : Prop where
  inv : ∃ generation base, PicobootInv true owed generation base s
  current : (s.endpoint .picobootOut).currentTransfer = some .cmd

theorem PicobootInv.halts (h : PicobootInv true owed generation base s)
    (hcurrent : (s.endpoint .picobootOut).currentTransfer = some .cmd)
    (hs' : picobootCmdAction (usbCalls picobootDriver depth) .halt s = .ok s') :
    PicobootHandled owed s' := by
  unfold picobootCmdAction at hs'
  rw [usbHaltEndpoint_eq (h.links.wired.onStallChange _)] at hs'
  change usbHaltEndpoint _ _ _ = _ at hs'
  have hhalted := h.halt .picobootIn
  rw [usbHaltEndpoint_eq (hhalted.links.wired.onStallChange _)] at hs'
  cases hs'
  refine ⟨⟨_, _, hhalted.halt .picobootOut⟩, ?_⟩
  rw [UsbState.modifyEndpoint_endpoint_self, UsbEndpoint.halt_eq,
    UsbState.modifyEndpoint_endpoint_of_ne _ _ _ _ (by decide)]
  exact hcurrent

/-- What a command goes on with, in its new generation. -/
theorem PicobootInv.commandAction {action : Picoboot.CmdAction}
    (h : PicobootInv true owed generation base s) (hp : PicobootPending owed s)
    (hcurrent : (s.endpoint .picobootOut).currentTransfer = some .cmd)
    (haction : match action with
      | .reboot _ _ _ => s.client.status.bCmdId = pcReboot
      | .stream _ transferLength => transferLength ≠ 0
      | _ => True)
    (hs' : picobootCmdAction (usbCalls picobootDriver depth) action s = .ok s') :
    PicobootHandled owed s' := by
  have hin : (s.endpoint .picobootIn).isIn = true := h.links.wired.isIn _
  cases action with
  | halt => exact h.halts hcurrent hs'
  | queueTask =>
    cases hs'
    exact ⟨⟨_, _, h.queueCommandTask hp⟩, hcurrent⟩
  | reboot pc sp delayMs =>
    have hreboot : PicobootInv true owed generation base
        (s.modifyClient (PicobootClient.reboot pc sp delayMs)) :=
      h.endsFrom (.of_client ⟨rfl, rfl, rfl, rfl, rfl⟩)
    refine ⟨⟨_, _, hreboot.acknowledge ⟨hp.owes, hp.owed, hp.streams, hp.notAcked⟩ hs'⟩, ?_⟩
    have hep : PicobootCmdStatus.ackEndpoint s.client.status = .picobootIn := by
      unfold PicobootCmdStatus.ackEndpoint
      rw [haction]
      rfl
    have heq := usbStartEmptyTransfer_ok hs'
    change s' = UsbState.armedEmpty _ (PicobootCmdStatus.ackEndpoint s.client.status) _ _ at heq
    rw [heq, hep, UsbState.armedEmpty_endpoint_of_ne _ _ _ _ (by decide)]
    exact hcurrent
  | stream type transferLength =>
    have hsetup (ep : PicobootEndpoint) :
        (setupPicobootStream ep transferLength s).endpoint = s.endpoint ∧
          (∀ t ≠ .stream, (setupPicobootStream ep transferLength s).transfer t = s.transfer t) ∧
          ((setupPicobootStream ep transferLength s).transfer .stream).type.onPacket =
            .driver .streamPacketHandler ∧
          ((setupPicobootStream ep transferLength s).transfer .stream).onComplete =
            some .tfAck := by
      refine ⟨rfl, fun t ht => ?_, rfl, rfl⟩
      rw [setupPicobootStream, UsbState.modifyClient_transfer, UsbStream.setupTransfer,
        UsbState.modifyTransfer_transfer_of_ne _ _ _ _ ht]
      rfl
    simp only [picobootCmdAction] at hs'
    by_cases hwrite : type &&& atWrite ≠ 0
    · rw [if_pos hwrite] at hs'
      cases hs'
      obtain ⟨hendpoint, hother, hpacket, hcomplete⟩ := hsetup .picobootOut
      refine ⟨⟨_, _, h.addStream .picobootOut hp ⟨hpacket, hcomplete⟩ rfl (fun e => ?_)
        (fun e he => ?_) (.inr ⟨rfl, rfl, hcurrent, ?_⟩) hother rfl rfl rfl rfl⟩, ?_⟩
      · unfold usbChainTransfer
        cases e with
        | picobootIn => exact .refl _
        | picobootOut => exact ⟨rfl, rfl, rfl, rfl⟩
      · exact UsbState.modifyEndpoint_endpoint_of_ne _ _ _ _ he
      · rfl
      · exact hcurrent
    · rw [if_neg hwrite] at hs'
      obtain ⟨hendpoint, hother, hpacket, hcomplete⟩ := hsetup .picobootIn
      have heq := usbStartTransfer_picobootStream_ok (s := setupPicobootStream .picobootIn
        transferLength s) haction hin rfl rfl hs'
      have hstarted : PicobootInv true owed generation base
          ((setupPicobootStream .picobootIn transferLength s).started .picobootIn .stream) := by
        refine h.addStream .picobootIn hp ?_ rfl (fun e => UsbState.started_sameWiring _ _ _ e)
          (fun e he => UsbState.started_endpoint_of_ne he) (.inl ?_) (fun t ht => ?_) rfl rfl rfl rfl
        · rw [UsbState.started_transfer]
          exact ⟨hpacket, hcomplete⟩
        · rw [UsbState.started_endpoint]
          rfl
        · rw [UsbState.started_transfer_of_ne ht]
          exact hother t ht
      have hout : (((setupPicobootStream .picobootIn transferLength s).started .picobootIn
          .stream).endpoint .picobootOut).currentTransfer = some .cmd := by
        rw [UsbState.started_endpoint_of_ne (by decide)]
        exact hcurrent
      have hstreams : ((setupPicobootStream .picobootIn transferLength s).started .picobootIn
          .stream).Streams .picobootIn := by
        refine .inl ?_
        rw [UsbState.started_endpoint]
        rfl
      rw [heq]
      generalize (setupPicobootStream .picobootIn transferLength s).started .picobootIn .stream = s₁
        at hstarted hout hstreams
      split
      · have houtstanding : PicobootInv true owed generation base
            (s₁.modifyTransfer .stream fun T => T.setOutstanding true) :=
          hstarted.endsFrom (.of_transfer rfl rfl fun _ hne => by cases hne)
        exact ⟨⟨_, _, houtstanding.onStreamChunk (e := .picobootIn) hstreams _⟩, hout⟩
      · exact ⟨⟨_, _, hstarted⟩, hout⟩

/-- `_picoboot_cmd_packet_internal`, if it returns. -/
theorem PicobootInv.commandInternal (h : PicobootInv true owed generation base s)
    (hcurrent : (s.endpoint .picobootOut).currentTransfer = some .cmd)
    (hchain : (s.endpoint .picobootOut).chainTransfer = none)
    (hread : PicobootCmd.Header (s.outPacket .picobootOut) → ¬s.Streams .picobootIn)
    (hs' : picobootCmdPacketInternal (usbCalls picobootDriver depth) .picobootOut s = .ok s') :
    PicobootHandled owed s' := by
  have hlinks := UsbEndpoint.fetchBuffer_sameLinks (s.endpoint .picobootOut)
  have hends : (usbCurrentPacketBuffer .picobootOut s).EndsFrom s := .of_endpoint hlinks.endsFrom
  have hfetch := h.endsFrom hends
  have hcur : (s.readPacket.endpoint .picobootOut).currentTransfer = some .cmd :=
    ((h.links.wired.readPacket_endpoint _).2.2.1).trans hcurrent
  change picobootCmdAction _ (s.client.picoboot.readCommand (s.outPacket .picobootOut).length
    (PicobootCmd.ofPacket (s.outPacket .picobootOut))).2 s.readPacket = _ at hs'
  by_cases hheader : PicobootCmd.Header (s.outPacket .picobootOut)
  · have hnone (e : PicobootEndpoint) : ¬s.readPacket.Streams e := by
      intro hs
      have hstill : s.Streams e := hends.streams hs
      cases e with
      | picobootIn => exact hread hheader hstill
      | picobootOut =>
        rcases hstill with hcur | ⟨-, hch⟩
        · rw [hcurrent] at hcur
          cases hcur
        · rw [hchain] at hch
          cases hch
    have hgeneration : s.readPacket.client.generation = s.client.generation + 1 :=
      if_pos hheader
    have hqueue : s.readPacket.client.picoboot.queue = s.client.picoboot.queue :=
      Picoboot.readCommand_queue _ _ _
    obtain ⟨hacks, hpending⟩ := h.acks.newGeneration s.readPacket hnone hgeneration rfl
      (by rw [hqueue]; exact h.acks.taskLe)
    have hread : PicobootInv true owed s.readPacket.client.generation s.readPacket.client.acks
        s.readPacket :=
      ⟨hfetch.links.congr rfl rfl, hacks, rfl, [], by simp, by simp⟩
    refine hread.commandAction hpending hcur ?_ hs'
    have haction := readCommand_action (s.outPacket .picobootOut).length
      (PicobootCmd.ofPacket (s.outPacket .picobootOut)) s.client.picoboot
    revert haction
    cases ((s.client.picoboot.readCommand (s.outPacket .picobootOut).length
      (PicobootCmd.ofPacket (s.outPacket .picobootOut))).2) with
    | reboot pc sp delayMs =>
      rintro ⟨hlen, hmagic, hreboot⟩
      exact (readCommand_bCmdId hlen hmagic s.client.picoboot).trans hreboot
    | stream type transferLength => exact fun hlen => hlen
    | queueTask => exact fun _ => trivial
    | halt => exact fun _ => trivial
  · have hsame : s.client.picoboot.readCommand (s.outPacket .picobootOut).length
        (PicobootCmd.ofPacket (s.outPacket .picobootOut)) = (s.client.picoboot, .halt) :=
      if_neg hheader
    rw [hsame] at hs'
    have hread : PicobootInv true owed generation base s.readPacket := by
      refine hfetch.endsFrom (.of_client ⟨Picoboot.readCommand_queue _ _ _, ?_, rfl, rfl, rfl⟩)
      exact if_neg hheader
    exact hread.halts hcur hs'

/-- The end of the transfer of a command, with the stream that is chained to it. -/
theorem PicobootInv.finishCommand (h : PicobootInv true owed generation base s)
    (hs' : (s.modifyTransfer .cmd UsbTransfer.handleOne).finish (usbCalls picobootDriver depth)
      .picobootOut .cmd = .ok s')
    (hcurrent : (s.endpoint .picobootOut).currentTransfer = some .cmd) :
    PicobootInv false owed generation base s' := by
  have hc := h.links.cmd hcurrent
  have hends : ((s.modifyTransfer .cmd UsbTransfer.handleOne).completeTransfer .picobootOut
      .cmd).EndsFrom s := by
    have heq : (s.modifyTransfer .cmd UsbTransfer.handleOne).completeTransfer .picobootOut .cmd =
        (s.modifyEndpoint .picobootOut fun E => E.setTransfer none).modifyTransfer .cmd fun _ =>
          (s.transfer .cmd).handleOne.complete := by
      simp [UsbState.completeTransfer, UsbState.modifyEndpoint, UsbState.modifyTransfer]
    rw [heq]
    exact .ended hcurrent h.links.inNotCmd rfl rfl
  have hfinish := hs'
  unfold UsbState.finish at hfinish
  simp only [UsbState.modifyTransfer_transfer_self, UsbTransfer.handleOne_onComplete,
    hc.onComplete, UsbState.modifyTransfer_endpoint] at hfinish
  have hdone : (((s.modifyTransfer .cmd UsbTransfer.handleOne).completeTransfer .picobootOut
      .cmd).endpoint .picobootOut).currentTransfer = none := by
    simp [UsbState.completeTransfer]
  generalize (s.modifyTransfer .cmd UsbTransfer.handleOne).completeTransfer .picobootOut .cmd = s₁
    at hends hfinish hdone
  have h₁ : PicobootInv false owed generation base s₁ :=
    (h.endsFrom hends).not_handling (by simp [hdone])
  cases hchain : (s.endpoint .picobootOut).chainTransfer with
  | none =>
    rw [hchain] at hfinish
    cases hfinish
    exact h₁
  | some t =>
    have ht := hc.chain t hchain
    subst ht
    rw [hchain] at hfinish
    dsimp only at hfinish
    have hstreams : s.Streams .picobootOut := .inr ⟨hcurrent, hchain⟩
    have hnone (e : PicobootEndpoint) : ¬s₁.Streams e := by
      intro hs
      have he : e = .picobootOut := h.acks.stream _ _ (hends.streams hs) hstreams
      subst he
      rcases hs with hcur | ⟨hcur, -⟩ <;> rw [hdone] at hcur <;> cases hcur
    have hp := h.acks.pending hstreams hends hnone
    have hkind := h.links.stream _ hstreams
    have hstarted : PicobootInv false owed generation base (s₁.started .picobootOut .stream) := by
      refine h₁.addStream .picobootOut hp ?_ ?_
        (fun e => UsbState.started_sameWiring _ _ _ e)
        (fun e he => UsbState.started_endpoint_of_ne he) (.inl ?_)
        (fun t ht => UsbState.started_transfer_of_ne ht) rfl rfl rfl rfl
      · rw [UsbState.started_transfer]
        exact ⟨by rw [← hkind.1, ← (hends.kind .stream).1]; rfl,
          by rw [← hkind.2, ← (hends.kind .stream).2]; rfl⟩
      · have hgeneration := h.acks.streamGeneration _ hstreams
        rw [← hends.client.streamGeneration, ← hends.client.generation] at hgeneration
        exact hgeneration
      · rw [UsbState.started_endpoint]
        rfl
    exact picobootKept.giveAsManyBuffersAsPossible (picobootInvariant.keeps depth) hstarted hfinish

/-- `usb_packet_done` for the packet of a command, and the end of its transfer. -/
theorem PicobootHandled.finish {s₃ : PicobootState} {depth' : ℕ} (h : PicobootHandled owed s)
    (hs₃ : usbPacketDone (usbCalls picobootDriver depth) .picobootOut s = .ok s₃)
    (hs' : (if (s₃.transfer .cmd).completed then .ok s₃
      else usbCheckForTransferCompletion (usbCalls picobootDriver depth') .picobootOut
        (s₃.modifyTransfer .cmd UsbTransfer.handleOne)) = Except.ok s') :
    PicobootSound owed s' := by
  obtain ⟨⟨generation, base, hinv⟩, hcurrent⟩ := h
  have hc := hinv.links.cmd hcurrent
  by_cases hhalt : (s.endpoint .picobootOut).haltState = .none
  · have hkept := usbPacketDone_out_ok hcurrent hinv.links.wired.isIn_out hhalt
      (by rw [hc.handle]; decide) hc.notCompleted hc.queued hs₃
    have hdrop : (s.modifyEndpoint .picobootOut UsbEndpoint.dropBuffer).EndsFrom s :=
      .of_endpoint (E := (s.endpoint .picobootOut).dropBuffer) ⟨rfl, rfl, rfl, rfl, .inl rfl, rfl⟩
    have hdone : ((s.modifyEndpoint .picobootOut UsbEndpoint.dropBuffer).modifyTransfer .cmd
        fun T => T.setOutstanding false).EndsFrom s :=
      .trans (.of_transfer rfl rfl fun _ _ => ⟨rfl, rfl, rfl, fun hout => by cases hout⟩) hdrop
    have h₃ := hinv.endsFrom (.trans (.of_bookkept hkept) hdone)
    have hcur₃ : (s₃.endpoint .picobootOut).currentTransfer = some .cmd := by
      rw [hkept.links.currentTransfer]
      simpa using hcurrent
    have hhalt₃ : (s₃.endpoint .picobootOut).haltState = .none := by
      rw [hkept.links.haltState]
      simpa using hhalt
    have hout₃ : (s₃.transfer .cmd).outstandingPacket = false := by
      rw [hkept.handling.outstanding]
      simp
    have hc₃ := h₃.links.cmd hcur₃
    rw [hc₃.notCompleted, if_neg Bool.false_ne_true, usbCheckForTransferCompletion_of_done
      (t := .cmd) (by simpa using hcur₃) (by simpa using hhalt₃) (by simp [hc₃.handle])
      (by simpa using hout₃)] at hs'
    exact (h₃.finishCommand hs' hcur₃).sound
  · rw [usbPacketDone_of_halted hcurrent hhalt] at hs₃
    cases hs₃
    have hends : (((s.modifyTransfer .cmd fun T => T.setOutstanding false).completeTransfer
        .picobootOut .cmd).modifyTransfer .cmd UsbTransfer.dropPackets).EndsFrom s := by
      have heq : ((s.modifyTransfer .cmd fun T => T.setOutstanding false).completeTransfer
          .picobootOut .cmd).modifyTransfer .cmd UsbTransfer.dropPackets =
          (s.modifyEndpoint .picobootOut fun E => E.setTransfer none).modifyTransfer .cmd fun _ =>
            ((s.transfer .cmd).setOutstanding false).complete.dropPackets := by
        simp [UsbState.completeTransfer, UsbState.modifyEndpoint, UsbState.modifyTransfer]
      rw [heq]
      exact .ended hcurrent hinv.links.inNotCmd rfl rfl
    rw [if_pos (by simp [UsbState.completeTransfer])] at hs'
    cases hs'
    refine ((hinv.endsFrom hends).not_handling ?_).sound
    simp [UsbState.completeTransfer]

/-- The packet that the code reads when the hardware has put one into a buffer of
`picoboot_out`. -/
def UsbState.arrivingPacket (s : PicobootState) (packet : List Byte) : List Byte :=
  match (s.endpoint .picobootOut).bufferDone packet with
  | none => []
  | some (which, E) => (E.ownOne.takeBuffer which).fetchBuffer.bufferData

/-- A packet arrives for the transfer of the commands. -/
theorem PicobootSound.commandPacket {packet : List Byte} (h : PicobootSound owed s)
    (hcurrent : (s.endpoint .picobootOut).currentTransfer = some .cmd)
    (hread : PicobootCmd.Header (s.arrivingPacket packet) → ¬s.Streams .picobootIn)
    (hs' : usbBufferInterrupt (usbCalls picobootDriver depth) .picobootOut packet s = .ok s') :
    PicobootSound owed s' := by
  unfold usbBufferInterrupt at hs'
  unfold UsbState.arrivingPacket at hread
  cases hdone : (s.endpoint .picobootOut).bufferDone packet with
  | none =>
    rw [hdone] at hs'
    cases hs'
    exact h
  | some r =>
    obtain ⟨which, E⟩ := r
    rw [hdone] at hs' hread
    dsimp only at hs' hread
    have hlinks := UsbEndpoint.bufferDone_sameLinks hdone
    have hc := h.links.cmd hcurrent
    have hout : (s.transfer .cmd).outstandingPacket = false := by
      by_contra hnot
      cases hc.outstanding (Bool.eq_true_of_not_eq_false hnot)
    -- the buffer has come back, and `on_packet` is called
    have hback : (s.modifyEndpoint .picobootOut fun _ => E.ownOne.takeBuffer which).EndsFrom s :=
      .of_endpoint ⟨hlinks.isIn, hlinks.doubleBuffered, hlinks.defaultTransfer,
        hlinks.onStallChange, .inl hlinks.currentTransfer, hlinks.chainTransfer⟩
    have hmodify : ((s.modifyEndpoint .picobootOut fun _ => E).modifyEndpoint .picobootOut
        UsbEndpoint.ownOne).modifyEndpoint .picobootOut (fun E => E.takeBuffer which) =
          s.modifyEndpoint .picobootOut fun _ => E.ownOne.takeBuffer which := by
      simp [UsbState.modifyEndpoint]
    have hcur : E.currentTransfer = some .cmd := hlinks.currentTransfer.trans hcurrent
    have hin : E.isIn = false := hlinks.isIn.trans h.links.wired.isIn_out
    unfold usbHandleTransfer at hs'
    simp only [UsbState.modifyEndpoint_endpoint_self, UsbEndpoint.ownOne_currentTransfer, hcur,
      UsbState.modifyEndpoint_transfer, hout, Bool.false_eq_true, if_false, hmodify,
      UsbEndpoint.takeBuffer_isIn, UsbEndpoint.ownOne_isIn, hin, true_or, if_true] at hs'
    have hcur₁ : ((s.modifyEndpoint .picobootOut fun _ => E.ownOne.takeBuffer which).endpoint
        .picobootOut).currentTransfer = some .cmd := by
      simpa using hcur
    have hchain₁ : ((s.modifyEndpoint .picobootOut fun _ => E.ownOne.takeBuffer which).endpoint
        .picobootOut).chainTransfer = none := by
      have hchain := hlinks.chainTransfer.trans (hc.notChained rfl)
      simpa using hchain
    have hread₁ : PicobootCmd.Header (((s.modifyEndpoint .picobootOut fun _ =>
        E.ownOne.takeBuffer which).modifyTransfer .cmd fun T =>
          T.setOutstanding true).outPacket .picobootOut) →
        ¬(s.modifyEndpoint .picobootOut fun _ => E.ownOne.takeBuffer which).Streams
          .picobootIn := by
      intro hheader hs
      refine hread ?_ (hback.streams hs)
      simpa [UsbState.outPacket, usbCurrentPacketBuffer] using hheader
    have h₁ := (h.inv.handling_of_false.endsFrom hback).setOutstanding
    obtain ⟨s₃, hs₃, hs'⟩ := UsbResult.bind_eq_ok hs'
    generalize s.modifyEndpoint .picobootOut (fun _ => E.ownOne.takeBuffer which) = s₁
      at hcur₁ hchain₁ hread₁ h₁ hs₃
    have hcall : usbCallOnPacket (usbCalls picobootDriver depth) .picobootOut s₁ =
        (usbCalls picobootDriver depth).call (.driver .cmdPacket) .picobootOut
          (s₁.modifyTransfer .cmd fun T => T.setOutstanding true) := by
      have htype : (s₁.transfer .cmd).type = ⟨.driver .cmdPacket, 1⟩ := by
        simpa using h₁.links.wired.cmdType
      simp only [usbCallOnPacket, hcur₁, htype]
    rw [hcall] at hs₃
    cases depth with
    | zero => cases hs₃
    | succ depth =>
      obtain ⟨s₂, hs₂, hs₃⟩ := UsbResult.bind_eq_ok
        (f := usbPacketDone (usbCalls picobootDriver depth) .picobootOut) hs₃
      exact (h₁.commandInternal hcur₁ hchain₁ hread₁ hs₂).finish hs₃ hs'

end Steps

/-! ## Runs -/

section Runs

variable {env : Env} {depth : ℕ} {w w' : PicobootWorld}

/-- The worker took a task that is to acknowledge a command. -/
theorem PicobootSound.take (h : PicobootSound w.worker.owes w.usb) :
    PicobootSound (takeCommandTask w).worker.owes (takeCommandTask w).usb := by
  unfold takeCommandTask
  cases hworker : w.worker with
  | idle =>
    dsimp only
    rw [hworker] at h
    split
    · next hfull =>
      have howed : CommandWorker.owes (.took w.usb.client.picoboot.queue.task
          w.usb.client.taskGeneration) = some w.usb.client.generation → w.usb.client.Owes := by
        intro heq
        obtain ⟨hcallback, hgeneration⟩ := CommandWorker.owes_took.1 heq
        exact ⟨hfull, hcallback, hgeneration⟩
      refine ⟨h.links.congr rfl rfl, ?_⟩
      exact
        { le := h.acks.le
          nodup := h.acks.nodup
          owedLe := fun n hn => by
            rw [← (CommandWorker.owes_took.1 hn).2]
            exact h.acks.taskLe hfull
          taskLe := fun hnot => by cases hnot
          streamGeneration := h.acks.streamGeneration
          acked := fun hmem => by
            obtain ⟨hnot, -, hstreams⟩ := h.acks.acked hmem
            exact ⟨fun howes => (by cases howes.1), mt howed hnot, hstreams⟩
          task := fun howes => by cases howes.1
          worker := fun howes => (h.acks.task (howed howes)).2
          stream := h.acks.stream }
    · rw [hworker]
      exact h
  | took task generation => simpa [hworker] using h
  | ran task generation => simpa [hworker] using h

theorem PicobootSound.run (h : PicobootSound w.worker.owes w.usb) :
    PicobootSound (runCommandTask env w).worker.owes (runCommandTask env w).usb := by
  unfold runCommandTask
  cases hworker : w.worker with
  | idle => simpa [hworker] using h
  | took task generation =>
    rw [hworker] at h
    have hcallback : (executeCommandTask env task w.usb.client.picoboot
        w.usb.client.machine).2.callback = task.callback :=
      rfl
    dsimp only
    generalize executeCommandTask env task w.usb.client.picoboot w.usb.client.machine = r
      at hcallback
    have hran : (w.usb.modifyClient fun K => { K with machine := r.1 }).EndsFrom w.usb :=
      .of_client ⟨rfl, rfl, rfl, rfl, rfl⟩
    have howes : (CommandWorker.ran r.2 generation).owes =
        (CommandWorker.took task generation).owes := by
      simp only [CommandWorker.owes, hcallback]
    rw [howes]
    exact (h.inv.endsFrom hran).sound
  | ran task generation => simpa [hworker] using h

/-- No task is to acknowledge a command after the callback of one. -/
theorem PicobootAcks.workerDone {owed : Option ℕ} {s : PicobootState} (h : PicobootAcks owed s) :
    PicobootAcks none s :=
  { h with
    owedLe := fun n hn => by cases hn
    acked := fun hmem => ⟨(h.acked hmem).1, by simp, (h.acked hmem).2.2⟩
    task := fun howes => ⟨by simp, (h.task howes).2⟩
    worker := fun hnot => by cases hnot }

/-- The callback of a task of the latest instance. -/
theorem PicobootSound.taskDone {s s' : PicobootState} {task : AsyncTask} {generation : ℕ}
    (h : PicobootSound (CommandWorker.owes (.ran task generation)) s)
    (hgeneration : s.client.picoboot.hasToken task = true → generation = s.client.generation)
    (hs' : picobootTaskDone (usbCalls picobootDriver depth) task s = .ok s') :
    PicobootInv false none s.client.generation s.client.acks s' := by
  have h₁ : PicobootInv false none s.client.generation s.client.acks s :=
    ⟨h.links, h.acks.workerDone, rfl, [], by simp, by simp⟩
  unfold picobootTaskDone at hs'
  cases hcallback : task.callback with
  | atcAck =>
    rw [hcallback] at hs'
    change atcAck _ task s = _ at hs'
    unfold atcAck at hs'
    split at hs'
    · next htoken =>
      have howed : CommandWorker.owes (.ran task generation) = some s.client.generation := by
        rw [CommandWorker.owes, if_pos hcallback, hgeneration htoken]
      rw [howed] at h
      refine h₁.acknowledge ⟨fun howes => ?_, by simp, h.acks.worker rfl, fun hmem => ?_⟩ hs'
      · exact (h.acks.task howes).1 rfl
      · exact (h.acks.acked hmem).2.1 rfl
    · cases hs'
      exact h₁
  | atcChunkTaskDone =>
    rw [hcallback] at hs'
    change atcChunkTaskDone _ task s = _ at hs'
    unfold atcChunkTaskDone at hs'
    split at hs'
    · have h₂ : PicobootInv false none s.client.generation s.client.acks
          (s.modifyClient (PicobootClient.chunkTaskDone task)) := by
        refine h₁.endsFrom (.of_client ⟨?_, rfl, rfl, rfl, rfl⟩)
        simp only [PicobootClient.chunkTaskDone, Picoboot.chunkTaskDone, Picoboot.setCmdStatus,
          Picoboot.ack]
        split <;> rfl
      obtain ⟨s₃, h₃, hs'⟩ : ∃ s₃, PicobootInv false none s.client.generation s.client.acks s₃ ∧
          picobootStream.chunkDone (usbCalls picobootDriver depth) s₃.client.streamEp s₃ = .ok s' := by
        dsimp only at hs'
        split at hs'
        · rw [usbHaltEndpoint_eq (h₂.links.wired.onStallChange _)] at hs'
          exact ⟨_, h₂.halt _, hs'⟩
        · exact ⟨_, h₂, hs'⟩
      exact h₃.packetHandlerComplete (picobootInvariant.keeps depth) hs'
    · cases hs'
      exact h₁
  | none =>
    rw [hcallback] at hs'
    cases hs'
    exact h₁
  | writeUf2PageComplete =>
    rw [hcallback] at hs'
    cases hs'
    exact h₁

/-- The step reaches neither of the two ways in which instances act on each other : a task of a
superseded instance that completes has another token than the latest command, and no command is read
while a stream is on `picoboot_in`. -/
def PicobootWorld.Apart (w : PicobootWorld) : PicobootEvent → Prop
  | .complete => ∀ task generation, w.worker = .ran task generation →
      generation ≠ w.usb.client.generation → w.usb.client.picoboot.hasToken task = false
  | .buffer .picobootOut packet => (w.usb.endpoint .picobootOut).currentTransfer = some .cmd →
      PicobootCmd.Header (w.usb.arrivingPacket packet) → ¬w.usb.Streams .picobootIn
  | _ => True

theorem PicobootSound.step {e : PicobootEvent} (h : PicobootSound w.worker.owes w.usb)
    (hapart : w.Apart e) (hw' : picobootStep env depth w e = .ok w') :
    PicobootSound w'.worker.owes w'.usb := by
  cases e with
  | buffer e packet =>
    obtain ⟨s', hs', hw'⟩ := UsbResult.bind_eq_ok hw'
    cases hw'
    by_cases hcmd : e = .picobootOut ∧ (w.usb.endpoint .picobootOut).currentTransfer = some .cmd
    · obtain ⟨rfl, hcurrent⟩ := hcmd
      exact h.commandPacket hcurrent (hapart hcurrent) hs'
    · refine (picobootKept.bufferInterrupt (picobootInvariant.keeps depth) h.inv ?_ hs').sound
      rintro t ht rfl
      cases e with
      | picobootIn => exact h.links.inNotCmd ht
      | picobootOut => exact hcmd ⟨rfl, ht⟩
  | ifReset =>
    obtain ⟨s', hs', hw'⟩ := UsbResult.bind_eq_ok hw'
    cases hw'
    split at hs'
    · exact h.reset hs'
    · cases hs'
      exact h
  | clearFeature e =>
    obtain ⟨s', hs', hw'⟩ := UsbResult.bind_eq_ok hw'
    cases hw'
    exact h.clearFeature hs'
  | setConfiguration num =>
    obtain ⟨s', hs', hw'⟩ := UsbResult.bind_eq_ok hw'
    cases hw'
    exact h.setConfiguration hs'
  | take =>
    cases hw'
    exact h.take
  | run =>
    cases hw'
    exact h.run
  | complete =>
    change completeCommandTask _ w = _ at hw'
    unfold completeCommandTask at hw'
    cases hworker : w.worker with
    | ran task generation =>
      rw [hworker] at hw' h
      obtain ⟨s', hs', hw'⟩ := UsbResult.bind_eq_ok hw'
      cases hw'
      refine (h.taskDone (fun htoken => ?_) hs').sound
      by_contra hne
      rw [hapart task generation hworker hne] at htoken
      cases htoken
    | idle =>
      rw [hworker] at hw'
      cases hw'
      exact h
    | took task generation =>
      rw [hworker] at hw'
      cases hw'
      exact h
  | machine m =>
    cases hw'
    exact (h.inv.endsFrom (.of_client (f := fun K => { K with machine := m })
      ⟨rfl, rfl, rfl, rfl, rfl⟩)).sound

/-- What a step does to the instances of the commands : the callback of a task of a superseded one
changes nothing, the callback of any task acknowledges its own instance only, and no instance is
acknowledged twice. -/
structure ActsAlone (env : Env) (depth : ℕ) (w : PicobootWorld) (e : PicobootEvent) : Prop where
  superseded : e = .complete → ∀ task generation, w.worker = .ran task generation →
    generation ≠ w.usb.client.generation →
    picobootStep env depth w e = .ok { w with worker := .idle }
  own : e = .complete → ∀ task generation w', w.worker = .ran task generation →
    picobootStep env depth w e = .ok w' →
    ∃ acks, w'.usb.client.acks = w.usb.client.acks ++ acks ∧ ∀ n ∈ acks, n = generation
  once : ∀ w', picobootStep env depth w e = .ok w' → w'.usb.client.acks.Nodup

/-- The callback of a task with another token does nothing. -/
theorem picobootTaskDone_of_not_hasToken {c : PicobootCalls} {task : AsyncTask} {s : PicobootState}
    (h : s.client.picoboot.hasToken task = false) : picobootTaskDone c task s = .ok s := by
  unfold picobootTaskDone atcAck atcChunkTaskDone
  rw [h]
  cases task.callback <;> rfl

theorem PicobootSound.actsAlone {e : PicobootEvent} (h : PicobootSound w.worker.owes w.usb)
    (hapart : w.Apart e) : ActsAlone env depth w e where
  superseded := by
    rintro rfl task generation hworker hne
    have htoken := hapart task generation hworker hne
    change completeCommandTask _ w = _
    unfold completeCommandTask
    rw [hworker]
    dsimp only
    rw [picobootTaskDone_of_not_hasToken htoken]
    rfl
  own := by
    rintro rfl task generation w' hworker hw'
    change completeCommandTask _ w = _ at hw'
    unfold completeCommandTask at hw'
    rw [hworker] at hw' h
    obtain ⟨s', hs', hw'⟩ := UsbResult.bind_eq_ok hw'
    cases hw'
    by_cases hne : generation = w.usb.client.generation
    · subst hne
      exact (h.taskDone (fun _ => rfl) hs').since
    · rw [picobootTaskDone_of_not_hasToken (hapart task generation hworker hne)] at hs'
      cases hs'
      exact ⟨[], by simp, by simp⟩
  once w' hw' := (h.step hapart hw').acks.nodup

/-- The endpoints and the worker after the boot : no transfer runs, and there is no task. -/
structure PicobootWorld.Booted (w : PicobootWorld) : Prop where
  wired : PicobootWired w.usb
  current : ∀ e, (w.usb.endpoint e).currentTransfer = none
  queue : w.usb.client.picoboot.queue.full = false
  acks : w.usb.client.acks = []
  worker : w.worker = .idle

theorem PicobootWorld.Booted.sound (h : w.Booted) : PicobootSound w.worker.owes w.usb := by
  have hne (e : PicobootEndpoint) (t : PicobootTransfer) :
      (w.usb.endpoint e).currentTransfer ≠ some t := by
    rw [h.current]
    exact (Option.some_ne_none t).symm
  have hnone (e : PicobootEndpoint) : ¬w.usb.Streams e := by
    rintro (hcur | ⟨hcur, -⟩)
    · exact hne _ _ hcur
    · exact hne _ _ hcur
  have howes : ¬w.usb.client.Owes := by
    rintro ⟨hfull, -⟩
    rw [h.queue] at hfull
    cases hfull
  rw [h.worker]
  exact
    { links :=
        { wired := h.wired
          inNotCmd := hne _ _
          cmd := fun hcur => absurd hcur (hne _ _)
          ack := fun e hcur => absurd hcur (hne _ _)
          stream := fun e hs => absurd hs (hnone e) }
      acks :=
        { le := by simp [h.acks]
          nodup := by simp [h.acks]
          owedLe := fun n hn => by cases hn
          taskLe := fun hfull => by
            rw [h.queue] at hfull
            cases hfull
          streamGeneration := fun e hs => absurd hs (hnone e)
          acked := by simp [h.acks]
          task := fun ht => absurd ht howes
          worker := fun hw => by cases hw
          stream := fun e _ hs => absurd hs (hnone e) } }

/-- In every run from the boot whose steps keep clear of the two defects, the instances of the
commands are apart. -/
theorem instance_acts_alone (hw : w.Booted) {es : List PicobootEvent}
    (hapart : Run.Always (Run.attempt (picobootStep env depth))
      (Run.Holds PicobootWorld.Apart) (.ok w) es) :
    Run.Always (Run.attempt (picobootStep env depth)) (Run.Holds (ActsAlone env depth)) (.ok w)
      es :=
  Run.Always.imp_holds (I := fun w : PicobootWorld => PicobootSound w.worker.owes w.usb)
    (fun _ _ _ hapart h hw' => h.step hapart hw') (fun _ _ hapart h => h.actsAlone hapart) hapart
    hw.sound

end Runs

/-- The endpoints after the boot, before the device is configured. -/
def bootedPicoboot : PicobootWorld where
  usb := { picobootConfigured with currentConfigNum := 0 }

theorem bootedPicoboot_booted : bootedPicoboot.Booted where
  wired := ⟨fun e => by cases e <;> rfl, fun e => by cases e <;> rfl, fun e => by cases e <;> rfl,
    fun e => by cases e <;> rfl, rfl⟩
  current e := by cases e <;> rfl
  queue := rfl
  acks := rfl
  worker := rfl

/-- `PC_EXIT_XIP` is executed and acknowledged. -/
def exitXipRun : List PicobootEvent :=
  [.setConfiguration 1, .buffer .picobootOut (commandPacket 6 0 0), .take, .run, .complete]

/-- `instance_acts_alone`, for `PC_EXIT_XIP`. -/
theorem instance_acts_alone_exitXip :
    Run.Always (Run.attempt (picobootStep notingEnv 3)) (Run.Holds (ActsAlone notingEnv 3))
      (.ok bootedPicoboot) exitXipRun := by
  refine instance_acts_alone bootedPicoboot_booted
    ⟨fun _ _ => trivial, ?_, fun _ _ => trivial, fun _ _ => trivial, ?_, trivial⟩
  · rintro s hs - -
    cases hs
    decide
  · rintro s hs task generation hworker hne
    cases hs
    cases hworker
    exact absurd rfl hne

/-- A reset while the task of `PC_EXIT_XIP` is executed. -/
def resetRun : List PicobootEvent :=
  [.setConfiguration 1, .buffer .picobootOut (commandPacket 6 0 0), .take, .ifReset, .run]

/-- The task of a command that a reset has superseded starts an acknowledgement. -/
theorem superseded_task_acknowledges :
    ∃ w w', Run.after (Run.attempt (picobootStep notingEnv 3)) (.ok bootedPicoboot) resetRun =
        .ok w ∧ (∃ task, w.worker = .ran task 2 ∧ w.usb.client.generation ≠ 2) ∧
      (w.usb.endpoint .picobootIn).currentTransfer = none ∧
      picobootStep notingEnv 3 w .complete = .ok w' ∧
      (w'.usb.endpoint .picobootIn).currentTransfer = some .ack := by
  refine ⟨_, _, rfl, ⟨_, rfl, ?_⟩, rfl, rfl, rfl⟩
  decide

end PicoBootrom
