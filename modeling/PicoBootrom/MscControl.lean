import PicoBootrom.Delivery
import PicoBootrom.MscAccept
import PicoBootrom.SetupPackets

/-!
# Control requests for mass storage

What a setup packet does to the endpoints of the mass storage interface : `CLEAR_FEATURE` and
`SET_FEATURE` of `ENDPOINT_HALT`, `MSC_RESET` and `SET_CONFIGURATION`. No other request touches
them.

A packet that is no command halts both endpoints on a condition, and neither comes out of it before
an `MSC_RESET` or a new configuration (`invalid_command_halts`). An `MSC_RESET` is meant to lower
the halt state only, but the reset of the endpoints that follows ends every stall
(`mscReset_keepsStall_iff`).

The control endpoints are in `SetupPackets`. Here the answer on them is a value, and the requests of
the device other than `SET_CONFIGURATION` are left out.
-/

set_option linter.unusedSectionVars false

namespace PicoBootrom

/-! ## Requests -/

/-- The answer to a request : the control pipe is stalled, an empty packet, or data. -/
inductive UsbReply
  | stall
  | empty
  | data (bytes : List Byte)
  deriving DecidableEq, Repr

namespace UsbSetupPacket

/-- `bmRequestType & USB_REQ_TYPE_TYPE_MASK`. -/
def requestType (setup : UsbSetupPacket) : Byte := setup.bmRequestType &&& 0x60

/-- `bmRequestType & USB_DIR_IN`. -/
def dirIn (setup : UsbSetupPacket) : Bool := decide (setup.bmRequestType &&& 0x80 ≠ 0)

/-- A valid `MSC_RESET`, for the interface of mass storage. -/
structure IsMscReset (setup : UsbSetupPacket) : Prop where
  recipient : setup.recipient = 1
  interfaceNum : setup.interfaceNum = 0
  requestType : setup.requestType = 0x20
  dirOut : setup.dirIn = false
  bRequest : setup.bRequest = 0xff
  wValue : setup.wValue = 0
  wLength : setup.wLength = 0

/-- A `SET_CONFIGURATION`. -/
structure IsSetConfiguration (setup : UsbSetupPacket) : Prop where
  recipient : setup.recipient = 0
  requestType : setup.requestType = 0
  dirOut : setup.dirIn = false
  bRequest : setup.bRequest = 0x09

/-- A standard request of an endpoint, for its feature `ENDPOINT_HALT` : `CLEAR_FEATURE` has the
number 1, `SET_FEATURE` the number 3. -/
structure IsEndpointHalt (setup : UsbSetupPacket) (bRequest : Byte) (wIndex : BitVec 16) :
    Prop where
  recipient : setup.recipient = 2
  wIndex_eq : setup.wIndex = wIndex
  requestType : setup.requestType = 0
  dirOut : setup.dirIn = false
  bRequest_eq : setup.bRequest = bRequest
  wValue : setup.wValue = 0

instance (setup : UsbSetupPacket) : Decidable setup.IsMscReset :=
  decidable_of_iff (setup.recipient = 1 ∧ setup.interfaceNum = 0 ∧ setup.requestType = 0x20 ∧
    setup.dirIn = false ∧ setup.bRequest = 0xff ∧ setup.wValue = 0 ∧ setup.wLength = 0)
    ⟨fun ⟨h₁, h₂, h₃, h₄, h₅, h₆, h₇⟩ => ⟨h₁, h₂, h₃, h₄, h₅, h₆, h₇⟩,
      fun ⟨h₁, h₂, h₃, h₄, h₅, h₆, h₇⟩ => ⟨h₁, h₂, h₃, h₄, h₅, h₆, h₇⟩⟩

instance (setup : UsbSetupPacket) : Decidable setup.IsSetConfiguration :=
  decidable_of_iff (setup.recipient = 0 ∧ setup.requestType = 0 ∧ setup.dirIn = false ∧
    setup.bRequest = 0x09)
    ⟨fun ⟨h₁, h₂, h₃, h₄⟩ => ⟨h₁, h₂, h₃, h₄⟩, fun ⟨h₁, h₂, h₃, h₄⟩ => ⟨h₁, h₂, h₃, h₄⟩⟩

end UsbSetupPacket

/-- `bEndpointAddress` of the endpoints. -/
def MscEndpoint.address : MscEndpoint → BitVec 16
  | .mscIn => 0x81
  | .mscOut => 0x02

/-- The endpoint of mass storage with an address. -/
def mscEndpointAt (wIndex : BitVec 16) : Option MscEndpoint :=
  if wIndex = 0x81 then some .mscIn else if wIndex = 0x02 then some .mscOut else none

/-- `_usb_default_handle_endpoint_setup_request`. -/
def usbDefaultHandleEndpointSetupRequest (c : MscCalls) (setup : UsbSetupPacket) (e : MscEndpoint)
    (s : MscState) : UsbResult (MscState × UsbReply) :=
  if setup.requestType = 0 then
    if setup.dirIn then
      if setup.bRequest = 0x00 ∧ setup.wValue = 0 ∧ setup.wLength = 2 then
        -- HALT FEATURE is not set for control stall
        .ok (s, .data [if 1 < (s.endpoint e).haltState.toNat then 1 else 0, 0])
      else .ok (s, .stall)
    else if setup.bRequest = 0x01 ∧ setup.wValue = 0 then do
      let s ← usbClearFeature c e s
      .ok (s, .empty)
    else if setup.bRequest = 0x03 ∧ setup.wValue = 0 then do
      let s ← usbStallEndpoint c e .halted s
      .ok (s, .empty)
    else .ok (s, .stall)
  else .ok (s, .stall)

/-- `msc_setup_request_handler`, which answers nothing if it does not handle the request. -/
def mscSetupRequestHandler (c : MscCalls) (setup : UsbSetupPacket) (s : MscState) :
    UsbResult (MscState × Option UsbReply) :=
  if setup.requestType = 0x20 then
    if setup.dirIn then
      if setup.bRequest = 0xfe ∧ setup.wValue = 0 ∧ setup.wLength ≠ 0 then
        .ok (s, some (.data [0]))
      else .ok (s, none)
    else if setup.bRequest = 0xff ∧ setup.wValue = 0 ∧ setup.wLength = 0 then do
      let s ← mscResetRequest c s
      .ok (s, some .empty)
    else .ok (s, none)
  else .ok (s, none)

/-- What `_usb_handle_setup_packet` does to the endpoints of mass storage, with both interfaces. -/
def mscSetupPacket (c : MscCalls) (setup : UsbSetupPacket) (s : MscState) : UsbResult MscState :=
  if setup.recipient = 0 then
    if setup.requestType = 0 ∧ setup.dirIn = false ∧ setup.bRequest = 0x09 then
      let num : Byte := setup.wValue.setWidth 8
      -- the configuration has the value 1
      if num = 0 ∨ num = 1 then mscSetConfiguration c num s else .ok s
    else .ok s
  else if setup.recipient = 1 then
    if s.currentConfigNum ≠ 0 ∧ setup.interfaceNum = 0 then do
      let r ← mscSetupRequestHandler c setup s
      .ok r.1
    else .ok s
  else if setup.recipient = 2 then
    match mscEndpointAt setup.wIndex with
    | some e =>
      if s.currentConfigNum ≠ 0 then do
        let r ← usbDefaultHandleEndpointSetupRequest c setup e s
        .ok r.1
      else .ok s
    | none => .ok s
  else .ok s

/-- Setup packets one after the other. -/
def mscSetupPackets (c : MscCalls) (setups : List UsbSetupPacket) (s : MscState) :
    UsbResult MscState :=
  setups.foldlM (fun s setup => mscSetupPacket c setup s) s

section Requests

variable {c : MscCalls} {setup : UsbSetupPacket} {s : MscState}

theorem mscSetupPacket_mscReset (h : setup.IsMscReset) (hconfig : s.currentConfigNum ≠ 0) :
    mscSetupPacket c setup s = mscResetRequest c s := by
  have hne : (1 : Byte) ≠ 0 := by decide
  simp only [mscSetupPacket, mscSetupRequestHandler, h.recipient, h.interfaceNum, h.requestType,
    h.dirOut, h.bRequest, h.wValue, h.wLength, hconfig, if_neg hne, bind, Except.bind, if_true,
    and_self, ne_eq, not_false_eq_true, Bool.false_eq_true, if_false]
  cases mscResetRequest c s <;> rfl

theorem mscSetupPacket_clearFeature {e : MscEndpoint} (h : setup.IsEndpointHalt 1 e.address)
    (hconfig : s.currentConfigNum ≠ 0) : mscSetupPacket c setup s = usbClearFeature c e s := by
  have hzero : (2 : Byte) ≠ 0 := by decide
  have hone : (2 : Byte) ≠ 1 := by decide
  have hat : mscEndpointAt setup.wIndex = some e := by
    rw [h.wIndex_eq]
    cases e with
    | mscIn => rfl
    | mscOut => rfl
  simp only [mscSetupPacket, hat, usbDefaultHandleEndpointSetupRequest, h.recipient, h.requestType,
    h.dirOut, h.bRequest_eq, h.wValue, hconfig, if_neg hzero, if_neg hone, bind, Except.bind,
    if_true, and_self, ne_eq, not_false_eq_true, Bool.false_eq_true, if_false]
  cases usbClearFeature c e s <;> rfl

/-- A setup packet that is no `MSC_RESET` and no `SET_CONFIGURATION` clears or sets the halt of an
endpoint, or does nothing. -/
theorem mscSetupPacket_cases (hreset : ¬setup.IsMscReset) (hset : ¬setup.IsSetConfiguration) :
    mscSetupPacket c setup s = .ok s ∨
      ∃ e, mscSetupPacket c setup s = usbClearFeature c e s ∨
        mscSetupPacket c setup s = usbStallEndpoint c e .halted s := by
  unfold mscSetupPacket
  split
  · next hdevice =>
    rw [if_neg fun h => hset ⟨hdevice, h.1, h.2.1, h.2.2⟩]
    exact Or.inl rfl
  split
  · next hinterface =>
    split
    · next hnum =>
      refine Or.inl ?_
      unfold mscSetupRequestHandler
      split
      · next htype =>
        split
        · split <;> rfl
        · next hdir =>
          rw [if_neg fun h => hreset ⟨hinterface, hnum.2, htype, by simpa using hdir, h.1, h.2.1,
            h.2.2⟩]
          rfl
      · rfl
    · exact Or.inl rfl
  split
  · cases mscEndpointAt setup.wIndex with
    | none => exact Or.inl rfl
    | some e =>
      dsimp only
      split
      · unfold usbDefaultHandleEndpointSetupRequest
        split
        · split
          · split <;> exact Or.inl rfl
          · split
            · refine Or.inr ⟨e, Or.inl ?_⟩
              cases usbClearFeature c e s <;> rfl
            · split
              · refine Or.inr ⟨e, Or.inr ?_⟩
                cases usbStallEndpoint c e .halted s <;> rfl
              · exact Or.inl rfl
        · exact Or.inl rfl
      · exact Or.inl rfl
  · exact Or.inl rfl

end Requests

/-! ## Resets of the endpoints -/

section Resets

variable {vdReadBlock : Word → ℕ → Byte} {depth : ℕ} {s : MscState}

theorem cleared_sameWiring (e : MscEndpoint) (hard : Bool) :
    (s.modifyEndpoint e fun E => E.cleared hard).SameWiring s :=
  .modifyEndpoint ⟨⟨rfl, rfl, rfl, rfl⟩, fun _ => List.nil_suffix⟩

/-- A reset of `msc_in`. No CSW waits for the end of its stall. -/
theorem usbResetEndpoint_mscIn (hw : MscWired s)
    (hsend : s.client.msc.sendCswOnUnstall = false) (hard : Bool) (hdepth : 1 ≤ depth) :
    usbResetEndpoint (usbCalls (mscDriver vdReadBlock) depth) .mscIn hard s =
      .ok (s.modifyEndpoint .mscIn fun E => E.cleared hard) := by
  obtain ⟨depth, rfl⟩ : ∃ d, depth = d + 1 := ⟨depth - 1, by omega⟩
  have hdefault : ((s.endpoint .mscIn).resetTransfers hard).defaultTransfer = none :=
    hw.defaultTransfer .mscIn
  have hstall : ((s.endpoint .mscIn).cleared hard).onStallChange = some .inOnStallChange :=
    hw.onStallChange .mscIn
  unfold usbResetEndpoint
  by_cases hhalt : ((s.endpoint .mscIn).resetTransfers hard).haltState = .none
  · have hsame : (s.endpoint .mscIn).resetTransfers hard = (s.endpoint .mscIn).cleared hard := by
      rw [UsbEndpoint.cleared, ← hhalt]
      rfl
    have hmodify : (s.modifyEndpoint .mscIn fun E => E.resetTransfers hard) =
        s.modifyEndpoint .mscIn fun E => E.cleared hard := by
      simp only [UsbState.modifyEndpoint, hsame]
    rw [hsame] at hhalt hdefault
    simp [hmodify, hhalt, bind, Except.bind, hdefault]
  · have hmodify : (s.modifyEndpoint .mscIn fun E => E.resetTransfers hard).modifyEndpoint .mscIn
        (fun E => E.setHalt .none) = s.modifyEndpoint .mscIn fun E => E.cleared hard := by
      simp [UsbState.modifyEndpoint, UsbEndpoint.cleared]
    have hcall : (usbCalls (mscDriver vdReadBlock) (depth + 1)).call
        (.driver .inOnStallChange) .mscIn (s.modifyEndpoint .mscIn fun E => E.cleared hard) =
          .ok (s.modifyEndpoint .mscIn fun E => E.cleared hard) := by
      change mscInOnStallChange _ _ _ = _
      rw [mscInOnStallChange, if_neg]
      rintro ⟨-, -, h⟩
      rw [UsbState.modifyEndpoint_client, hsend] at h
      exact Bool.false_ne_true h
    have hclear : ((s.endpoint .mscIn).cleared hard).defaultTransfer = none := hdefault
    simp [hmodify, hhalt, hstall, bind, Except.bind, hcall, hclear]

/-- A reset of `msc_out` in a configured device makes it wait for a command. -/
theorem usbResetEndpoint_mscOut (hw : MscWired s) (hconfig : s.currentConfigNum ≠ 0) (hard : Bool)
    (hdepth : 1 ≤ depth) :
    usbResetEndpoint (usbCalls (mscDriver vdReadBlock) depth) .mscOut hard s =
      .ok (s.modifyEndpoint .mscOut fun E => E.cleared hard).awaitCommand := by
  have hdefault : (s.endpoint .mscOut).defaultTransfer.isSome := by
    rw [hw.defaultTransfer]
    rfl
  rw [usbResetEndpoint_eq hard (hw.onStallChange .mscOut), if_pos ⟨hconfig, hdefault⟩]
  exact usbStartDefaultTransfer_cmd (hw.of_same (cleared_sameWiring .mscOut hard)) hdepth

/-- The endpoints after a reset of both : `msc_in` is quiet, and `msc_out` waits for a command. -/
structure MscReset (s s' : MscState) : Prop where
  wired : MscWired s'
  config : s'.currentConfigNum = s.currentConfigNum
  mscIn : (s'.endpoint .mscIn).Quiet
  mscOut : MscArmed s'

theorem awaitCommand_sameWiring : s.awaitCommand.SameWiring s :=
  (UsbState.SameWiring.armed _ _ _).trans (.modifyTransfer fun _ => rfl)

/-- The endpoints after a reset of `msc_in` and then of `msc_out`. -/
theorem mscReset_cleared (hw : MscWired s) (hard : Bool) : MscReset s
    ((s.modifyEndpoint .mscIn fun E => E.cleared hard).modifyEndpoint .mscOut
      fun E => E.cleared hard).awaitCommand := by
  have hw' := (hw.of_same (cleared_sameWiring .mscIn hard)).of_same
    (cleared_sameWiring .mscOut hard)
  refine ⟨hw'.of_same awaitCommand_sameWiring, awaitCommand_sameWiring.config, ?_, ?_⟩
  · rw [awaitCommand_mscIn, UsbState.modifyEndpoint_endpoint_of_ne _ _ _ _ (by decide),
      UsbState.modifyEndpoint_endpoint_self]
    exact UsbEndpoint.cleared_quiet (hw.doubleBuffered .mscIn) hard
  · refine awaitCommand_armed hw' ?_
    rw [UsbState.modifyEndpoint_endpoint_self]
    refine (UsbEndpoint.cleared_quiet ?_ hard).toFree
    exact (hw.of_same (cleared_sameWiring .mscIn hard)).doubleBuffered .mscOut

/-- An `MSC_RESET` leaves both endpoints without a stall, and `msc_out` waits for a command. -/
theorem mscResetRequest_ok (vdReadBlock : Word → ℕ → Byte) (hw : MscWired s)
    (hconfig : s.currentConfigNum ≠ 0)
    (hdepth : 1 ≤ depth) :
    ∃ s', mscResetRequest (usbCalls (mscDriver vdReadBlock) depth) s = .ok s' ∧ MscReset s s' ∧
      s'.client = s.client.reset := by
  generalize hs₁ : (usbClearHaltCondition .mscOut (usbClearHaltCondition .mscIn s)).modifyClient
    MscClient.reset = s₁
  have hkept (e : MscEndpoint) (s : MscState) : (usbClearHaltCondition e s).SameWiring s := by
    refine .modifyEndpoint ?_
    split
    · exact ⟨⟨rfl, rfl, rfl, rfl⟩, id⟩
    · exact .refl _
  have hsame : s₁.SameWiring s := by
    rw [← hs₁]
    exact (UsbState.SameWiring.modifyClient _ _).trans ((hkept .mscOut _).trans (hkept .mscIn _))
  have hw₁ : MscWired s₁ := hw.of_same hsame
  have hclient : s₁.client = s.client.reset := by
    rw [← hs₁]
    rfl
  have hreset := mscReset_cleared hw₁ false
  refine ⟨_, ?_, ⟨hreset.wired, hreset.config.trans hsame.config, hreset.mscIn, hreset.mscOut⟩, ?_⟩
  · unfold mscResetRequest mscReset usbSoftResetEndpoint
    rw [hs₁, usbResetEndpoint_mscIn hw₁ (by rw [hclient]; rfl) false hdepth]
    refine usbResetEndpoint_mscOut (hw₁.of_same (cleared_sameWiring .mscIn false)) ?_ false hdepth
    rw [UsbState.modifyEndpoint_currentConfigNum, hsame.config]
    exact hconfig
  · rw [awaitCommand_client, UsbState.modifyEndpoint_client, UsbState.modifyEndpoint_client,
      hclient]

end Resets

/-! ## `MSC_RESET` and stalls -/

/-- A stall of the endpoint stays : its halt state is lowered at most from `HS_HALTED_ON_CONDITION`
to `HS_HALTED`, its data toggle stays, and the hardware is given no buffer. -/
def KeepsStall (e : MscEndpoint) (s s' : MscState) : Prop :=
  (s.endpoint e).haltState ≠ .none →
    ((s'.endpoint e).haltState = (s.endpoint e).haltState ∨
      (s.endpoint e).haltState = .haltedOnCondition ∧ (s'.endpoint e).haltState = .halted) ∧
    (s'.endpoint e).nextPid = (s.endpoint e).nextPid ∧
    (s'.endpoint e).hw.given = (s.endpoint e).hw.given

section MscResetStalls

variable {vdReadBlock : Word → ℕ → Byte} {depth : ℕ} {s : MscState} {setup : UsbSetupPacket}

/-- A valid `MSC_RESET` keeps the stalls of the endpoints if and only if neither is stalled. -/
theorem mscReset_keepsStall_iff (hw : MscWired s) (hconfig : s.currentConfigNum ≠ 0)
    (hreset : setup.IsMscReset) (hdepth : 1 ≤ depth) :
    (∃ s', mscSetupPacket (usbCalls (mscDriver vdReadBlock) depth) setup s = .ok s' ∧
      ∀ e, KeepsStall e s s') ↔ ∀ e, (s.endpoint e).haltState = .none := by
  obtain ⟨s', hs', hafter, -⟩ := mscResetRequest_ok vdReadBlock hw hconfig hdepth
  rw [mscSetupPacket_mscReset hreset hconfig, hs']
  have hnone (e : MscEndpoint) : (s'.endpoint e).haltState = .none := by
    cases e with
    | mscIn => exact hafter.mscIn.notHalted
    | mscOut => exact hafter.mscOut.notHalted
  constructor
  · rintro ⟨_, heq, hkeeps⟩ e
    obtain rfl := Except.ok.inj heq
    by_contra hstalled
    obtain ⟨hhalt, -, -⟩ := hkeeps e hstalled
    rw [hnone e] at hhalt
    rcases hhalt with hhalt | ⟨-, hhalt⟩
    · exact hstalled hhalt.symm
    · exact nomatch hhalt
  · intro hall
    exact ⟨s', rfl, fun e hstalled => absurd (hall e) hstalled⟩

end MscResetStalls

/-! ## Packets that are no commands -/

/-- Both endpoints are halted on a condition since the state `s₀`, and nothing else has changed. -/
structure MscDead (s₀ s : MscState) : Prop where
  halted : ∀ e, (s.endpoint e).haltState = .haltedOnCondition
  hw : ∀ e, (s.endpoint e).hw = (s₀.endpoint e).hw
  client : s.client = s₀.client
  wiring : s.SameWiring s₀

section Dead

variable {vdReadBlock : Word → ℕ → Byte} {depth : ℕ} {c : MscCalls} {s₀ s : MscState}

/-- The halt of an endpoint is neither cleared nor set. -/
theorem MscDead.setupPacket (c : MscCalls) (h : MscDead s₀ s) {setup : UsbSetupPacket}
    (hreset : ¬setup.IsMscReset) (hset : ¬setup.IsSetConfiguration) :
    ∃ s', mscSetupPacket c setup s = .ok s' ∧ MscDead s₀ s' := by
  rcases mscSetupPacket_cases hreset hset with heq | ⟨e, heq | heq⟩
  · exact ⟨s, heq, h⟩
  · -- CLEAR_FEATURE resets the data toggle only
    unfold usbClearFeature at heq
    split at heq
    · exact ⟨s, heq, h⟩
    rw [h.halted e, if_neg (Nat.lt_irrefl _)] at heq
    refine ⟨_, heq, fun e' => ?_, fun e' => ?_, h.client, ?_⟩
    · by_cases he : e' = e
      · subst he
        rw [UsbState.modifyEndpoint_endpoint_self]
        exact h.halted e'
      · rw [UsbState.modifyEndpoint_endpoint_of_ne _ _ _ _ he]
        exact h.halted e'
    · by_cases he : e' = e
      · subst he
        rw [UsbState.modifyEndpoint_endpoint_self]
        exact h.hw e'
      · rw [UsbState.modifyEndpoint_endpoint_of_ne _ _ _ _ he]
        exact h.hw e'
    · exact (UsbState.SameWiring.modifyEndpoint ⟨⟨rfl, rfl, rfl, rfl⟩, id⟩).trans h.wiring
  · have hne : (s.endpoint e).haltState ≠ .none := by
      rw [h.halted e]
      exact fun h => nomatch h
    rw [usbStallEndpoint, if_neg hne, h.halted e, if_neg (by decide)] at heq
    exact ⟨s, heq, h⟩

/-- Any number of setup packets leaves both endpoints halted on the condition. -/
theorem MscDead.setupPackets (h : MscDead s₀ s) (setups : List UsbSetupPacket)
    (hsetups : ∀ setup ∈ setups, ¬setup.IsMscReset ∧ ¬setup.IsSetConfiguration) :
    ∃ s', mscSetupPackets c setups s = .ok s' ∧ MscDead s₀ s' := by
  induction setups generalizing s with
  | nil => exact ⟨s, rfl, h⟩
  | cons setup setups ih =>
    obtain ⟨hreset, hset⟩ := hsetups setup List.mem_cons_self
    obtain ⟨s₁, hs₁, h₁⟩ := h.setupPacket c hreset hset
    obtain ⟨s', hs', h'⟩ := ih h₁ fun setup' hmem => hsetups setup' (List.mem_cons_of_mem _ hmem)
    refine ⟨s', ?_, h'⟩
    rw [mscSetupPackets, List.foldlM_cons, hs₁]
    exact hs'

/-- `CLEAR_FEATURE` of an endpoint after an `MSC_RESET`. -/
theorem MscReset.clearFeature (vdReadBlock : Word → ℕ → Byte) (h : MscReset s₀ s)
    (hconfig : s₀.currentConfigNum ≠ 0)
    (hsend : s.client.msc.sendCswOnUnstall = false) (e : MscEndpoint) (hdepth : 1 ≤ depth) :
    ∃ s', usbClearFeature (usbCalls (mscDriver vdReadBlock) depth) e s = .ok s' ∧ MscReset s₀ s' ∧
      s'.client = s.client := by
  have hconfig' : s.currentConfigNum ≠ 0 := by
    rw [h.config]
    exact hconfig
  have hhalt : (s.endpoint e).haltState = .none := by
    cases e with
    | mscIn => exact h.mscIn.notHalted
    | mscOut => exact h.mscOut.notHalted
  rw [usbClearFeature, if_neg hconfig', hhalt, if_pos (by decide), usbHardResetEndpoint]
  have hkept : (s.modifyEndpoint e fun E => E.cleared true).SameWiring s :=
    cleared_sameWiring e true
  cases e with
  | mscIn =>
    rw [usbResetEndpoint_mscIn h.wired hsend true hdepth]
    refine ⟨_, rfl, ⟨h.wired.of_same hkept, hkept.config.trans h.config, ?_, ?_⟩, rfl⟩
    · rw [UsbState.modifyEndpoint_endpoint_self]
      exact UsbEndpoint.cleared_quiet (h.wired.doubleBuffered .mscIn) true
    · exact h.mscOut.congr (UsbState.modifyEndpoint_endpoint_of_ne _ _ _ _ (by decide)) rfl
  | mscOut =>
    rw [usbResetEndpoint_mscOut h.wired hconfig' true hdepth]
    have hw' := h.wired.of_same hkept
    refine ⟨_, rfl, ⟨hw'.of_same awaitCommand_sameWiring, ?_, ?_, ?_⟩, ?_⟩
    · exact (awaitCommand_sameWiring.config.trans hkept.config).trans h.config
    · rw [awaitCommand_mscIn, UsbState.modifyEndpoint_endpoint_of_ne _ _ _ _ (by decide)]
      exact h.mscIn
    · refine awaitCommand_armed hw' ?_
      rw [UsbState.modifyEndpoint_endpoint_self]
      exact (UsbEndpoint.cleared_quiet (h.wired.doubleBuffered .mscOut) true).toFree
    · exact awaitCommand_client

/-- After a valid `MSC_RESET`, and a `CLEAR_FEATURE(ENDPOINT_HALT)` for each of the endpoints,
`msc_in` is quiet and `msc_out` waits for a command. -/
theorem mscReset_recovers (vdReadBlock : Word → ℕ → Byte) (hw : MscWired s)
    (hconfig : s.currentConfigNum ≠ 0)
    {reset clear₁ clear₂ : UsbSetupPacket} {e₁ e₂ : MscEndpoint} (hreset : reset.IsMscReset)
    (hclear₁ : clear₁.IsEndpointHalt 1 e₁.address) (hclear₂ : clear₂.IsEndpointHalt 1 e₂.address)
    (hdepth : 1 ≤ depth) :
    ∃ s', mscSetupPackets (usbCalls (mscDriver vdReadBlock) depth) [reset, clear₁, clear₂] s =
      .ok s' ∧ MscReset s s' ∧ s'.client = s.client.reset := by
  obtain ⟨s₁, hs₁, h₁, hclient₁⟩ := mscResetRequest_ok vdReadBlock hw hconfig hdepth
  have hsend₁ : s₁.client.msc.sendCswOnUnstall = false := by
    rw [hclient₁]
    rfl
  obtain ⟨s₂, hs₂, h₂, hclient₂⟩ := h₁.clearFeature vdReadBlock hconfig hsend₁ e₁ hdepth
  have hsend₂ : s₂.client.msc.sendCswOnUnstall = false := by
    rw [hclient₂]
    exact hsend₁
  obtain ⟨s₃, hs₃, h₃, hclient₃⟩ := h₂.clearFeature vdReadBlock hconfig hsend₂ e₂ hdepth
  refine ⟨s₃, ?_, h₃, hclient₃.trans (hclient₂.trans hclient₁)⟩
  have hconfig₁ : s₁.currentConfigNum ≠ 0 := by
    rw [h₁.config]
    exact hconfig
  have hconfig₂ : s₂.currentConfigNum ≠ 0 := by
    rw [h₂.config]
    exact hconfig
  simp only [mscSetupPackets, List.foldlM_cons, List.foldlM_nil,
    mscSetupPacket_mscReset hreset hconfig, hs₁, mscSetupPacket_clearFeature hclear₁ hconfig₁, hs₂,
    mscSetupPacket_clearFeature hclear₂ hconfig₂, hs₃, bind, Except.bind]
  rfl

theorem UsbEndpoint.stallWith_haltedOnCondition {τ ν : Type} (E : UsbEndpoint τ ν) :
    (E.stallWith .haltedOnCondition).haltState = .haltedOnCondition := by
  unfold stallWith
  split
  · rfl
  · next hnot =>
    cases hhalt : E.haltState with
    | haltedOnCondition => rfl
    | _ =>
      rw [hhalt] at hnot
      exact absurd (by decide) hnot

theorem UsbEndpoint.stallWith_hw {τ ν : Type} (hs : UsbHaltState) (E : UsbEndpoint τ ν) :
    (E.stallWith hs).hw = E.hw := by
  obtain ⟨hs', heq, -⟩ := E.stallWith_eq hs
  rw [heq]
  rfl

/-- A packet of at most 64 bytes that is no command, while `msc_out` waits for one : whatever setup
packets follow, without an `MSC_RESET` and a `SET_CONFIGURATION`, both endpoints are halted on a
condition, the hardware has been given no buffer of either, no packet that comes on `msc_out` does
anything, and no command was accepted. After a valid `MSC_RESET` and a `CLEAR_FEATURE` for both
endpoints, in either order, `msc_in` is quiet and `msc_out` waits for a command, and a packet with a
command is accepted, whatever tasks are left of earlier ones. -/
theorem invalid_command_halts (packet : List Byte) (harmed : MscArmed s) (hw : MscWired s)
    (hconfig : s.currentConfigNum ≠ 0) (hlen : packet.length ≤ 64)
    (hrejected : ¬(ScsiCbw.ofPacket packet).Accepted packet.length) (hdepth : 4 ≤ depth)
    (setups : List UsbSetupPacket)
    (hsetups : ∀ setup ∈ setups, ¬setup.IsMscReset ∧ ¬setup.IsSetConfiguration) :
    ∃ s₁ s₂, usbBufferInterrupt (usbCalls (mscDriver vdReadBlock) depth) .mscOut packet s =
        .ok s₁ ∧
      mscSetupPackets (usbCalls (mscDriver vdReadBlock) depth) setups s₁ = .ok s₂ ∧
      (∀ e, (s₂.endpoint e).haltState = .haltedOnCondition ∧
        (s₂.endpoint e).hw.given = (s.endpoint e).hw.given) ∧
      s₂.client = s.client ∧
      (∀ packet', usbBufferInterrupt (usbCalls (mscDriver vdReadBlock) depth) .mscOut packet' s₂ =
        .ok s₂) ∧
      ∀ (reset clear₁ clear₂ : UsbSetupPacket) (e₁ e₂ : MscEndpoint), reset.IsMscReset →
        clear₁.IsEndpointHalt 1 e₁.address → clear₂.IsEndpointHalt 1 e₂.address → e₁ ≠ e₂ →
        ∃ s₃, mscSetupPackets (usbCalls (mscDriver vdReadBlock) depth) [reset, clear₁, clear₂] s₂ =
            .ok s₃ ∧
          MscArmed s₃ ∧ (s₃.endpoint .mscIn).Quiet ∧
          ∀ command, (ScsiCbw.ofPacket command).Accepted command.length →
            ∃ s₄, usbBufferInterrupt (usbCalls (mscDriver vdReadBlock) depth) .mscOut command s₃ =
                .ok s₄ ∧
              s₄.client.accepted = s.client.accepted ++ [ScsiCbw.ofPacket command] := by
  obtain ⟨s₁, hs₁, hin, hout, havailable, hgiven, hwiring, hclient⟩ :=
    bufferInterrupt_rejected harmed hw hlen hrejected (Nat.le_trans (by decide) hdepth)
  have hdead : MscDead s₁ s₁ := by
    refine ⟨fun e => ?_, fun _ => rfl, rfl, .refl _⟩
    cases e with
    | mscIn =>
      rw [hin]
      exact UsbEndpoint.stallWith_haltedOnCondition _
    | mscOut => exact hout.halted
  obtain ⟨s₂, hs₂, hdead₂⟩ := hdead.setupPackets setups hsetups
  have hclient₂ : s₂.client = s.client := hdead₂.client.trans hclient
  have hwiring₂ : s₂.SameWiring s := hdead₂.wiring.trans hwiring
  refine ⟨s₁, s₂, hs₁, hs₂, fun e => ⟨hdead₂.halted e, ?_⟩, hclient₂, fun packet' => ?_, ?_⟩
  · rw [hdead₂.hw e]
    cases e with
    | mscIn => rw [hin, UsbEndpoint.stallWith_hw]
    | mscOut => exact hgiven
  · have hnone : (s₂.endpoint .mscOut).bufferDone packet' = none := by
      rw [UsbEndpoint.bufferDone, hdead₂.hw .mscOut, havailable]
    rw [usbBufferInterrupt, hnone]
  · intro reset clear₁ clear₂ e₁ e₂ hreset hclear₁ hclear₂ hne
    have hconfig₂ : s₂.currentConfigNum ≠ 0 := by
      rw [hwiring₂.config]
      exact hconfig
    obtain ⟨s₃, hs₃, hafter, hclient₃⟩ := mscReset_recovers vdReadBlock (hw.of_same hwiring₂)
      hconfig₂ hreset hclear₁ hclear₂ (Nat.le_trans (by decide) hdepth)
    refine ⟨s₃, hs₃, hafter.mscOut, hafter.mscIn, fun command haccepted => ?_⟩
    have hclient' : s₃.client = s.client.reset := by rw [hclient₃, hclient₂]
    have haccept : ∃ s₄, usbBufferInterrupt (usbCalls (mscDriver vdReadBlock) depth) .mscOut
        command s₃ = .ok (s₄.withLeft s₃.client.tasks) ∧ CommandStart vdReadBlock True True
          (.ofPacket command) s₃.withoutTasks.client
          ((s₃.endpoint .mscIn).hw.given.map (·.packet)) s₄ :=
      bufferInterrupt_accepted hafter.mscOut hafter.wired hafter.mscIn haccepted hdepth
    obtain ⟨s₄, hs₄, hstart⟩ := haccept
    obtain ⟨left, hphase⟩ := hstart.phase
    have hbefore : s₃.client.accepted = s.client.accepted := by
      rw [hclient']
      rfl
    refine ⟨_, hs₄, ?_⟩
    change s₄.client.accepted = _
    rw [hphase.accepted, ← hbefore]
    rfl

end Dead

/-! ## A configured device -/

/-- The endpoints once `_msc_reset` has set them up. -/
def mscEndpoint (e : MscEndpoint) : UsbEndpoint MscTransfer MscFunction where
  isIn := decide (e = .mscIn)
  doubleBuffered := true
  bufferSize := 64
  defaultTransfer := if e = .mscOut then some .cmd else none
  currentTransfer := none
  chainTransfer := none
  onStallChange := if e = .mscIn then some .inOnStallChange else none
  currentHwBuffer := ⟨false, 0, false⟩
  nextPid := false
  ownedBufferCount := 2
  currentGiveBuffer := false
  currentTakeBuffer := false
  haltState := .none
  firstBufferAfterReset := true
  hw := ⟨fun _ => [], [], []⟩

/-- The device is configured, and `msc_out` does not wait for a command yet. -/
def mscConfigured : MscState where
  endpoint := mscEndpoint
  transfer t := match t with
    | .cmd => UsbTransfer.reset ⟨.driver .cmdPacket, 1⟩ none
    | _ => UsbTransfer.reset usbCurrentPacketOnlyTransferType none
  currentConfigNum := 1
  client :=
    { msc := resetMsc
      disk := powerOn
      asyncToken := 0
      stream := ⟨0, 0, 0⟩
      streamEp := .mscIn
      lba := 0
      sectorBuf := fun _ => 0 }

theorem mscConfigured_wired : MscWired mscConfigured where
  isIn _ := rfl
  doubleBuffered _ := rfl
  onStallChange _ := rfl
  defaultTransfer _ := rfl
  cmdType := rfl
  order _ := List.suffix_rfl

theorem mscConfigured_armed : MscArmed mscConfigured.awaitCommand :=
  awaitCommand_armed mscConfigured_wired ⟨rfl, rfl, rfl, rfl⟩

/-- Sectors of zeroes. -/
def emptyDisk (_ : Word) (_ : ℕ) : Byte := 0

/-- `MSC_RESET`. -/
def mscResetPacket : UsbSetupPacket := ⟨0x21, 0xff, 0, 0, 0⟩

/-- `mscReset_keepsStall_iff`, with neither endpoint stalled. -/
theorem mscReset_keepsStall_configured :
    ∃ s', mscSetupPacket (usbCalls (mscDriver emptyDisk) 1) mscResetPacket mscConfigured = .ok s' ∧
      ∀ e, KeepsStall e mscConfigured s' :=
  (mscReset_keepsStall_iff mscConfigured_wired (by decide) (by decide) (Nat.le_refl 1)).2
    fun _ => rfl

/-- An `MSC_RESET` ends the stall of `msc_out`. -/
theorem mscReset_unstalls : ¬∀ s : MscState, MscWired s → s.currentConfigNum ≠ 0 →
    ∃ s', mscSetupPacket (usbCalls (mscDriver emptyDisk) 1) mscResetPacket s = .ok s' ∧
      ∀ e, KeepsStall e s s' := by
  intro h
  generalize hs : mscConfigured.modifyEndpoint .mscOut (UsbEndpoint.stallWith .halted) = s
  have hw : MscWired s := hs ▸ mscConfigured_wired.of_same stallWith_sameWiring
  have hconfig : s.currentConfigNum ≠ 0 := by
    rw [← hs]
    decide
  have hstalled : (s.endpoint .mscOut).haltState = .halted := by
    rw [← hs]
    rfl
  obtain ⟨s', hs', hkeeps⟩ := h s hw hconfig
  obtain ⟨s'', hs'', hafter, -⟩ := mscResetRequest_ok emptyDisk hw hconfig (Nat.le_refl 1)
  rw [mscSetupPacket_mscReset (by decide) hconfig, hs''] at hs'
  obtain rfl := Except.ok.inj hs'
  obtain ⟨hhalt, -, -⟩ := hkeeps .mscOut (by rw [hstalled]; decide)
  rw [hafter.mscOut.notHalted, hstalled] at hhalt
  rcases hhalt with hhalt | ⟨-, hhalt⟩
  · exact nomatch hhalt
  · exact nomatch hhalt

/-- `invalid_command_halts`, for an empty packet and a `CLEAR_FEATURE` for each of the endpoints. -/
theorem invalid_command_halts_empty :
    ∃ s₁ s₂, usbBufferInterrupt (usbCalls (mscDriver emptyDisk) 4) .mscOut []
        mscConfigured.awaitCommand = .ok s₁ ∧
      mscSetupPackets (usbCalls (mscDriver emptyDisk) 4) [clearHalt 0x81, clearHalt 0x02] s₁ =
        .ok s₂ ∧ ∀ e, (s₂.endpoint e).haltState = .haltedOnCondition := by
  have hsetups (setup : UsbSetupPacket) (hmem : setup ∈ [clearHalt 0x81, clearHalt 0x02]) :
      ¬setup.IsMscReset ∧ ¬setup.IsSetConfiguration := by
    rcases List.mem_pair.1 hmem with rfl | rfl
    · decide
    · decide
  obtain ⟨s₁, s₂, hs₁, hs₂, hhalted, -⟩ := invalid_command_halts [] mscConfigured_armed
    (mscConfigured_wired.of_same awaitCommand_sameWiring) (by decide) (by decide) (by decide)
    (Nat.le_refl 4) _ hsetups
  exact ⟨s₁, s₂, hs₁, hs₂, fun e => (hhalted e).1⟩

end PicoBootrom
