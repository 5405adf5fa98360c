import PicoBootrom.BootDevice
import PicoBootrom.UsbDevice

/-!
# Setup packets

`_usb_handle_setup_packet` looks up the interface or the endpoint that a setup packet is addressed
to. `_usb_find_interface` reads the table that `usb_device_init` was given, and bounds the number by
a constant rather than by the number of the entries ; `_usb_find_endpoint` looks through all of
`_endpoints`, and does not check that an entry is there. Either is right as long as no interface is
disabled.

Reading an entry that is not there is a fault here. `setupContained_iff` says which packets come to
none.
-/

set_option linter.unusedSectionVars false

namespace PicoBootrom

/-! ## The lookups -/

/-- `usb_control_in` and `usb_control_out`. -/
inductive UsbControlEndpoint
  | controlIn
  | controlOut
  deriving DecidableEq, Repr

/-- `struct usb_setup_packet`. -/
structure UsbSetupPacket where
  bmRequestType : Byte
  bRequest : Byte
  wValue : BitVec 16
  wIndex : BitVec 16
  wLength : BitVec 16
  deriving DecidableEq, Repr

/-- A read of an entry that is not there : one of the table of the interfaces beyond those that
`usb_device_init` was given, or one of `_endpoints` that is `NULL`. -/
inductive LookupFault
  | interfaceEntry (i : ℕ)
  | absentEndpoint (i : ℕ)
  deriving DecidableEq, Repr

/-- What a setup packet is addressed to. -/
inductive UsbRecipient
  | device
  | interface (i : UsbInterfaceId)
  | control (e : UsbControlEndpoint)
  | endpoint (e : BootEndpoint)
  deriving DecidableEq, Repr

/-- `USB_FIXED_INTERFACE_COUNT`. -/
def usbFixedInterfaceCount : ℕ := 2

namespace UsbSetupPacket

/-- `bmRequestType & USB_REQ_TYPE_RECIPIENT_MASK`. -/
def recipient (setup : UsbSetupPacket) : Byte := setup.bmRequestType &&& 0x1f

/-- `wIndex & 0xff`. -/
def interfaceNum (setup : UsbSetupPacket) : BitVec 16 := setup.wIndex &&& 0xff

end UsbSetupPacket

namespace BootDevice

/-- `config->interfaces[i]`. -/
def interfaceAt (d : BootDevice) (i : ℕ) : Except LookupFault UsbInterfaceId :=
  match d.interfaces[i]? with
  | some interface => .ok interface
  | none => .error (.interfaceEntry i)

/-- `*_endpoints[i]`. -/
def endpointAt (d : BootDevice) (i : ℕ) : Except LookupFault BootEndpoint :=
  match d.endpoints[i]? with
  | some (some endpoint) => .ok endpoint
  | _ => .error (.absentEndpoint i)

end BootDevice

/-- `_usb_find_interface`. -/
def usbFindInterface (d : BootDevice) (currentConfigNum : Byte) (num : BitVec 16) :
    Except LookupFault (Option UsbRecipient) :=
  if currentConfigNum ≠ 0 ∧ num.toNat < usbFixedInterfaceCount then do
    let interface ← d.interfaceAt num.toNat
    .ok (some (.interface interface))
  else .ok none

/-- The loop of `_usb_find_endpoint`, over the given number of entries from the `i`-th. -/
def usbFindEndpointFrom (d : BootDevice) (num : BitVec 16) :
    ℕ → ℕ → Except LookupFault (Option UsbRecipient)
  | 0, _ => .ok none
  | count + 1, i => do
    let endpoint ← d.endpointAt i
    if endpoint.bEndpointAddress.setWidth 16 = num then .ok (some (.endpoint endpoint))
    else usbFindEndpointFrom d num count (i + 1)

/-- `_usb_find_endpoint`. -/
def usbFindEndpoint (d : BootDevice) (currentConfigNum : Byte) (num : BitVec 16) :
    Except LookupFault (Option UsbRecipient) :=
  if num = 0 then .ok (some (.control .controlOut))
  else if num = 0x80 then .ok (some (.control .controlIn))
  else if currentConfigNum ≠ 0 then usbFindEndpointFrom d num (usbMaxEndpoints - 1) 1
  else .ok none

/-- What `_usb_handle_setup_packet` finds that the packet is addressed to. -/
def usbFindRecipient (d : BootDevice) (currentConfigNum : Byte) (setup : UsbSetupPacket) :
    Except LookupFault (Option UsbRecipient) :=
  if setup.recipient = 0 then .ok (some .device)
  else if setup.recipient = 1 then usbFindInterface d currentConfigNum setup.interfaceNum
  else if setup.recipient = 2 then usbFindEndpoint d currentConfigNum setup.wIndex
  else .ok none

/-! ## The control pipe -/

variable {τ ν κ : Type} [DecidableEq τ]

/-- The control endpoints, with the transfers and the state of the rest of the device. -/
abbrev ControlState (τ ν κ : Type) := UsbState UsbControlEndpoint τ ν κ

/-- What ends the handling of a setup packet. -/
inductive SetupFault
  | usb (f : UsbFault)
  | lookup (f : LookupFault)
  deriving DecidableEq, Repr

/-- `usb_stall_control_pipe`. -/
def usbStallControlPipe (c : UsbCalls UsbControlEndpoint τ ν κ) (s : ControlState τ ν κ) :
    UsbResult (ControlState τ ν κ) := do
  let s := s.modifyEndpoint .controlIn UsbEndpoint.resetBuffers
  let s := s.modifyEndpoint .controlOut UsbEndpoint.resetBuffers
  let s ← usbStallEndpoint c .controlIn .nonHaltStall s
  usbStallEndpoint c .controlOut .nonHaltStall s

/-- What `_usb_handle_setup_packet` does first : a setup packet is always accepted, so anything in
progress is reset. -/
def usbResetControlPipe (c : UsbCalls UsbControlEndpoint τ ν κ) (s : ControlState τ ν κ) :
    UsbResult (ControlState τ ν κ) := do
  let s ← usbSoftResetEndpoint c .controlIn s
  let s ← usbSoftResetEndpoint c .controlOut s
  let s := s.modifyEndpoint .controlIn fun E => { E with nextPid := true }
  .ok (s.modifyEndpoint .controlOut fun E => { E with nextPid := true })

/-- The requests of a recipient : its own handler and the default one. -/
abbrev SetupRequestHandler (τ ν κ : Type) :=
  UsbRecipient → UsbSetupPacket → ControlState τ ν κ → UsbResult (ControlState τ ν κ)

/-- `_usb_handle_setup_packet`. -/
def usbHandleSetupPacket (c : UsbCalls UsbControlEndpoint τ ν κ)
    (handle : SetupRequestHandler τ ν κ) (d : BootDevice) (setup : UsbSetupPacket)
    (s : ControlState τ ν κ) : Except SetupFault (ControlState τ ν κ) := do
  let s ← (usbResetControlPipe c s).mapError .usb
  let recipient ← (usbFindRecipient d s.currentConfigNum setup).mapError .lookup
  match recipient with
  | some recipient => (handle recipient setup s).mapError .usb
  | none => (usbStallControlPipe c s).mapError .usb

/-- The control endpoints have neither a default transfer nor a function for a stall. -/
def ControlWired (s : ControlState τ ν κ) : Prop :=
  ∀ e, (s.endpoint e).defaultTransfer = none ∧ (s.endpoint e).onStallChange = none

/-- The control pipe is stalled, and the hardware has no buffer of it. -/
def ControlStalled (s : ControlState τ ν κ) : Prop :=
  ∀ e, (s.endpoint e).haltState = .nonHaltStall ∧ (s.endpoint e).hw.available = []

section ControlPipe

variable (c : UsbCalls UsbControlEndpoint τ ν κ) {s : ControlState τ ν κ}

/-- A reset of a control endpoint starts nothing. -/
theorem usbSoftResetEndpoint_control (hw : ControlWired s) (e : UsbControlEndpoint) :
    ∃ E, usbSoftResetEndpoint c e s = .ok (s.modifyEndpoint e fun _ => E) ∧
      E.haltState = .none ∧ E.defaultTransfer = none ∧ E.onStallChange = none := by
  obtain ⟨hdefault, hstall⟩ := hw e
  unfold usbSoftResetEndpoint usbResetEndpoint
  by_cases hhalt : (s.endpoint e).haltState = .none
  · refine ⟨(s.endpoint e).resetTransfers false, ?_, hhalt, hdefault, hstall⟩
    simp [UsbEndpoint.resetTransfers, hhalt, hdefault, bind, Except.bind, UsbState.modifyEndpoint]
  · refine ⟨((s.endpoint e).resetTransfers false).setHalt .none, ?_, rfl, hdefault, hstall⟩
    simp [UsbEndpoint.resetTransfers, hhalt, hdefault, hstall, bind, Except.bind,
      UsbState.modifyEndpoint]

/-- After the reset neither control endpoint is stalled. -/
theorem usbResetControlPipe_ok (hw : ControlWired s) :
    ∃ s', usbResetControlPipe c s = .ok s' ∧ s'.currentConfigNum = s.currentConfigNum ∧
      ControlWired s' ∧ ∀ e, (s'.endpoint e).haltState = .none := by
  obtain ⟨E, hE, hEhalt, hEwired⟩ := usbSoftResetEndpoint_control c hw .controlIn
  have hw' : ControlWired (s.modifyEndpoint .controlIn fun _ => E) := by
    intro e
    cases e with
    | controlIn => simpa using hEwired
    | controlOut => simpa [UsbState.modifyEndpoint] using hw .controlOut
  obtain ⟨F, hF, hFhalt, hFwired⟩ := usbSoftResetEndpoint_control c hw' .controlOut
  rw [usbResetControlPipe, hE]
  simp only [bind, Except.bind]
  rw [hF]
  refine ⟨_, rfl, rfl, ?_, ?_⟩
  · intro e
    cases e with
    | controlIn => simpa [UsbState.modifyEndpoint] using hEwired
    | controlOut => simpa [UsbState.modifyEndpoint] using hFwired
  · intro e
    cases e with
    | controlIn => simpa [UsbState.modifyEndpoint] using hEhalt
    | controlOut => simpa [UsbState.modifyEndpoint] using hFhalt

/-- Control endpoints that are not stalled are, after `usb_stall_control_pipe`. -/
theorem usbStallControlPipe_ok (hw : ControlWired s)
    (hhalt : ∀ e, (s.endpoint e).haltState = .none) :
    ∃ s', usbStallControlPipe c s = .ok s' ∧ ControlStalled s' := by
  have hin := hw .controlIn
  have hout := hw .controlOut
  have hhalts := hhalt .controlIn
  have hhalts' := hhalt .controlOut
  simp only [usbStallControlPipe, usbStallEndpoint, UsbState.modifyEndpoint, hin, hout, hhalts,
    hhalts', bind, Except.bind, Function.update_self, UsbEndpoint.resetBuffers_haltState,
    UsbEndpoint.resetBuffers_onStallChange, UsbEndpoint.setHalt_onStallChange, if_true, ne_eq,
    reduceCtorEq, not_false_eq_true, Function.update_of_ne]
  refine ⟨_, rfl, fun e => ?_⟩
  cases e with
  | controlIn => simp
  | controlOut => simp

end ControlPipe

/-! ## What the lookups find -/

namespace BootDevice

/-- The address of the entry of `_endpoints`, if it is there. -/
def address (d : BootDevice) (i : ℕ) : Option Byte :=
  d.endpoints[i]?.join.map BootEndpoint.bEndpointAddress

/-- The addresses of the endpoints in the configuration descriptor. -/
def configAddresses (d : BootDevice) : List Byte :=
  d.config.interfaceDesc.flatMap fun desc =>
    [desc.ep1Desc.bEndpointAddress, desc.ep2Desc.bEndpointAddress]

/-- The numbers of the interfaces in the configuration descriptor. -/
def configInterfaces (d : BootDevice) : List ℕ :=
  d.config.interfaceDesc.map fun desc => desc.desc.bInterfaceNumber.toNat

/-- The device is set up for the configuration descriptor : its interfaces are those of the table,
in order, and the entries of `_endpoints` are among its endpoints. -/
def SetUp (d : BootDevice) : Prop :=
  d.configInterfaces = List.range d.interfaces.length ∧
    ∀ entry ∈ d.endpoints, ∀ endpoint ∈ entry, endpoint.bEndpointAddress ∈ d.configAddresses

instance (d : BootDevice) : Decidable d.SetUp := by
  unfold SetUp
  infer_instance

/-- What the packet is addressed to is part of the active configuration, if it is an interface or an
endpoint. -/
def Addressed (d : BootDevice) (setup : UsbSetupPacket) : Prop :=
  (setup.recipient = 1 → setup.interfaceNum.toNat ∈ d.configInterfaces) ∧
    (setup.recipient = 2 → setup.wIndex = 0 ∨ setup.wIndex = 0x80 ∨
      ∃ address ∈ d.configAddresses, address.setWidth 16 = setup.wIndex)

end BootDevice

section Lookups

variable {d : BootDevice} {num : BitVec 16} {n : Byte} {setup : UsbSetupPacket} {i count : ℕ}
  {r : Option UsbRecipient}

theorem endpointAt_of_address {a : Byte} (h : d.address i = some a) :
    ∃ endpoint, d.endpointAt i = .ok endpoint ∧ endpoint.bEndpointAddress = a ∧
      some endpoint ∈ d.endpoints := by
  obtain ⟨endpoint, hentry, haddress⟩ := Option.map_eq_some_iff.1 h
  have hat : d.endpoints[i]? = some (some endpoint) := Option.join_eq_some_iff.1 hentry
  refine ⟨endpoint, ?_, haddress, List.mem_of_getElem? hat⟩
  rw [BootDevice.endpointAt, hat]

theorem endpointAt_of_absent (h : d.address i = none) :
    d.endpointAt i = .error (.absentEndpoint i) := by
  have hentry : d.endpoints[i]?.join = none := Option.map_eq_none_iff.1 h
  rw [BootDevice.endpointAt]
  rcases Option.join_eq_none_iff.1 hentry with hat | hat
  · rw [hat]
  · rw [hat]

/-- The first entry that the loop comes to is absent. -/
theorem usbFindEndpointFrom_absent (h : d.address i = none) :
    usbFindEndpointFrom d num (count + 1) i = .error (.absentEndpoint i) := by
  rw [usbFindEndpointFrom, endpointAt_of_absent h]
  rfl

/-- The first entry that the loop comes to is there. -/
theorem usbFindEndpointFrom_present {a : Byte} (h : d.address i = some a) :
    ∃ endpoint, endpoint.bEndpointAddress = a ∧ some endpoint ∈ d.endpoints ∧ ∀ num count,
      usbFindEndpointFrom d num (count + 1) i =
        if a.setWidth 16 = num then .ok (some (.endpoint endpoint))
        else usbFindEndpointFrom d num count (i + 1) := by
  obtain ⟨endpoint, hat, rfl, hmem⟩ := endpointAt_of_address h
  refine ⟨endpoint, rfl, hmem, fun num count => ?_⟩
  rw [usbFindEndpointFrom, hat]
  rfl

/-- What the loop finds is an endpoint of the configuration. -/
theorem usbFindEndpointFrom_ok (hd : d.SetUp)
    (h : usbFindEndpointFrom d num count i = .ok r) :
    r = none ∨ ∃ address ∈ d.configAddresses, address.setWidth 16 = num := by
  induction count generalizing i with
  | zero => exact Or.inl (Except.ok.inj h).symm
  | succ count ih =>
    cases haddress : d.address i with
    | none =>
      rw [usbFindEndpointFrom_absent haddress] at h
      exact nomatch h
    | some a =>
      obtain ⟨endpoint, rfl, hmem, heq⟩ := usbFindEndpointFrom_present haddress
      rw [heq] at h
      by_cases hnum : endpoint.bEndpointAddress.setWidth 16 = num
      · exact Or.inr ⟨_, hd.2 _ hmem _ rfl, hnum⟩
      · rw [if_neg hnum] at h
        exact ih h

/-- What the lookups find is part of the active configuration. -/
theorem usbFindRecipient_ok (hd : d.SetUp) (h : usbFindRecipient d n setup = .ok r) :
    r = none ∨ d.Addressed setup := by
  unfold usbFindRecipient at h
  by_cases hdevice : setup.recipient = 0
  · refine Or.inr ⟨fun hinterface => ?_, fun hendpoint => ?_⟩
    · exact absurd (hdevice.symm.trans hinterface) (by decide)
    · exact absurd (hdevice.symm.trans hendpoint) (by decide)
  rw [if_neg hdevice] at h
  by_cases hinterface : setup.recipient = 1
  · rw [if_pos hinterface, usbFindInterface] at h
    split at h
    · next hnum =>
      refine Or.inr ⟨fun _ => ?_, fun hendpoint => ?_⟩
      · rw [hd.1, List.mem_range]
        by_contra hlen
        rw [BootDevice.interfaceAt, List.getElem?_eq_none (Nat.le_of_not_lt hlen)] at h
        exact nomatch h
      · exact absurd (hinterface.symm.trans hendpoint) (by decide)
    · exact Or.inl (Except.ok.inj h).symm
  rw [if_neg hinterface] at h
  by_cases hendpoint : setup.recipient = 2
  · rw [if_pos hendpoint, usbFindEndpoint] at h
    split at h
    · next hzero => exact Or.inr ⟨fun h => absurd h hinterface, fun _ => Or.inl hzero⟩
    split at h
    · next hin => exact Or.inr ⟨fun h => absurd h hinterface, fun _ => Or.inr (Or.inl hin)⟩
    split at h
    · refine (usbFindEndpointFrom_ok hd h).imp_right fun haddress => ?_
      exact ⟨fun h => absurd h hinterface, fun _ => Or.inr (Or.inr haddress)⟩
    · exact Or.inl (Except.ok.inj h).symm
  · rw [if_neg hendpoint] at h
    exact Or.inl (Except.ok.inj h).symm

/-- `_usb_find_interface` reads no entry beyond the table, if and only if the table has as many
entries as the constant, or the number is below its length, or not below the constant. -/
theorem usbFindInterface_isOk_iff (hn : n ≠ 0) : (∃ r, usbFindInterface d n num = .ok r) ↔
    (num.toNat < usbFixedInterfaceCount → num.toNat < d.interfaces.length) := by
  rw [usbFindInterface]
  by_cases hnum : num.toNat < usbFixedInterfaceCount
  · rw [if_pos ⟨hn, hnum⟩, BootDevice.interfaceAt]
    constructor
    · rintro ⟨r, hr⟩ -
      by_contra hlen
      rw [List.getElem?_eq_none (Nat.le_of_not_lt hlen)] at hr
      exact nomatch hr
    · intro hlen
      rw [List.getElem?_eq_getElem (hlen hnum)]
      exact ⟨_, rfl⟩
  · rw [if_neg fun h => hnum h.2]
    exact iff_of_true ⟨_, rfl⟩ fun h => absurd h hnum

/-- The loop comes to no absent entry if all of those it looks at are there. -/
theorem usbFindEndpointFrom_isOk (h : ∀ j < count, (d.address (i + j)).isSome) :
    ∃ r, usbFindEndpointFrom d num count i = .ok r := by
  induction count generalizing i with
  | zero => exact ⟨none, rfl⟩
  | succ count ih =>
    obtain ⟨a, ha⟩ := Option.isSome_iff_exists.1 (h 0 (Nat.succ_pos count))
    rw [Nat.add_zero] at ha
    obtain ⟨endpoint, -, -, heq⟩ := usbFindEndpointFrom_present ha
    rw [heq]
    split
    · exact ⟨_, rfl⟩
    · refine ih fun j hj => ?_
      have hnext := h (j + 1) (Nat.succ_lt_succ hj)
      rwa [← Nat.add_assoc, Nat.add_right_comm] at hnext

/-- The loop goes on beyond an entry that is there. -/
theorem usbFindEndpointFrom_isOk_iff {a : Byte} (h : d.address i = some a) :
    (∃ r, usbFindEndpointFrom d num (count + 1) i = .ok r) ↔
      a.setWidth 16 = num ∨ ∃ r, usbFindEndpointFrom d num count (i + 1) = .ok r := by
  obtain ⟨endpoint, -, -, heq⟩ := usbFindEndpointFrom_present h
  rw [heq]
  by_cases hnum : a.setWidth 16 = num
  · rw [if_pos hnum]
    exact iff_of_true ⟨_, rfl⟩ (Or.inl hnum)
  · rw [if_neg hnum, or_iff_right hnum]

theorem usbFindEndpoint_isOk_iff (hn : n ≠ 0) : (∃ r, usbFindEndpoint d n num = .ok r) ↔
    num = 0 ∨ num = 0x80 ∨ ∃ r, usbFindEndpointFrom d num (usbMaxEndpoints - 1) 1 = .ok r := by
  rw [usbFindEndpoint]
  by_cases hzero : num = 0
  · rw [if_pos hzero]
    exact iff_of_true ⟨_, rfl⟩ (Or.inl hzero)
  · rw [if_neg hzero, or_iff_right hzero]
    by_cases hin : num = 0x80
    · rw [if_pos hin]
      exact iff_of_true ⟨_, rfl⟩ (Or.inl hin)
    · rw [if_neg hin, or_iff_right hin, if_pos hn]

/-- A packet comes to no fault in the lookups, if and only if the one for its recipient does not. -/
theorem usbFindRecipient_isOk_iff : (∃ r, usbFindRecipient d n setup = .ok r) ↔
    (setup.recipient = 1 → ∃ r, usbFindInterface d n setup.interfaceNum = .ok r) ∧
      (setup.recipient = 2 → ∃ r, usbFindEndpoint d n setup.wIndex = .ok r) := by
  rw [usbFindRecipient]
  by_cases hinterface : setup.recipient = 1
  · rw [if_neg (by rw [hinterface]; decide), if_pos hinterface]
    refine ⟨fun h => ⟨fun _ => h, fun hendpoint => ?_⟩, fun h => h.1 hinterface⟩
    exact absurd (hinterface.symm.trans hendpoint) (by decide)
  by_cases hendpoint : setup.recipient = 2
  · rw [if_neg (by rw [hendpoint]; decide), if_neg hinterface, if_pos hendpoint]
    exact ⟨fun h => ⟨fun h => absurd h hinterface, fun _ => h⟩, fun h => h.2 hendpoint⟩
  · refine iff_of_true ?_ ⟨fun h => absurd h hinterface, fun h => absurd h hendpoint⟩
    rw [if_neg hinterface, if_neg hendpoint]
    split
    · exact ⟨_, rfl⟩
    · exact ⟨_, rfl⟩

end Lookups

/-! ## The devices -/

/-- The entries of the tables that the lookups come to for the packet are there, with the interfaces
that the mask leaves : all of them, or the packet is not for the interface 1, and if it is for an
endpoint, for a control endpoint or, without PICOBOOT, for one of mass storage. -/
def LookupsPresent (mask : Word) (setup : UsbSetupPacket) : Prop :=
  treatedMask mask = 0 ∨
    (setup.recipient = 1 → setup.interfaceNum ≠ 1) ∧
    (setup.recipient = 2 → setup.wIndex = 0 ∨ setup.wIndex = 0x80 ∨
      treatedMask mask = 2 ∧ (setup.wIndex = 0x81 ∨ setup.wIndex = 0x02))

section Devices

variable {mask : Word} {d : BootDevice} {num : BitVec 16} {n : Byte}

/-- The tables of the device for each of the masks that the others stand for. -/
theorem usbBootDeviceInit_tables (hmask : mask = 0 ∨ mask = 1 ∨ mask = 2)
    (hd : usbBootDeviceInit mask = .ok d) : d.SetUp ∧
      d.interfaces.length = (if mask = 0 then 2 else 1) ∧
      [d.address 1, d.address 2, d.address 3, d.address 4] =
        if mask = 0 then [some 0x81, some 0x02, some 0x03, some 0x84]
        else if mask = 1 then [none, none, some 0x03, some 0x84]
        else [some 0x81, some 0x02, none, none] := by
  rcases hmask with rfl | rfl | rfl
  · obtain rfl := Except.ok.inj (show Except.ok _ = Except.ok d from hd)
    decide
  · obtain rfl := Except.ok.inj (show Except.ok _ = Except.ok d from hd)
    decide
  · obtain rfl := Except.ok.inj (show Except.ok _ = Except.ok d from hd)
    decide

/-- The lookup of an interface reads no entry that is not there, unless it is for the interface 1
and one of the interfaces is disabled. -/
theorem usbFindInterface_device (hmask : mask = 0 ∨ mask = 1 ∨ mask = 2)
    (hd : usbBootDeviceInit mask = .ok d) (hn : n ≠ 0) :
    (∃ r, usbFindInterface d n num = .ok r) ↔ mask = 0 ∨ num ≠ 1 := by
  obtain ⟨-, hlength, -⟩ := usbBootDeviceInit_tables hmask hd
  rw [usbFindInterface_isOk_iff hn, hlength, usbFixedInterfaceCount]
  by_cases hzero : mask = 0
  · rw [if_pos hzero]
    exact iff_of_true id (Or.inl hzero)
  · rw [if_neg hzero, or_iff_right hzero, Ne, BitVec.toNat_eq]
    change (num.toNat < 2 → num.toNat < 1) ↔ ¬num.toNat = 1
    omega

/-- The lookup of an endpoint reads no entry that is not there, unless it is for an endpoint that is
not found before the first absent one. -/
theorem usbFindEndpoint_device (hmask : mask = 0 ∨ mask = 1 ∨ mask = 2)
    (hd : usbBootDeviceInit mask = .ok d) (hn : n ≠ 0) :
    (∃ r, usbFindEndpoint d n num = .ok r) ↔
      mask = 0 ∨ num = 0 ∨ num = 0x80 ∨ mask = 2 ∧ (num = 0x81 ∨ num = 0x02) := by
  obtain ⟨-, -, htable⟩ := usbBootDeviceInit_tables hmask hd
  rw [usbFindEndpoint_isOk_iff hn]
  rcases hmask with rfl | rfl | rfl
  · refine iff_of_true (Or.inr (Or.inr (usbFindEndpointFrom_isOk fun j hj => ?_))) (Or.inl rfl)
    simp only [if_true, List.cons.injEq] at htable
    obtain ⟨h₁, h₂, h₃, h₄, -⟩ := htable
    have hcases : j = 0 ∨ j = 1 ∨ j = 2 ∨ j = 3 := by
      rw [usbMaxEndpoints] at hj
      omega
    rcases hcases with rfl | rfl | rfl | rfl
    · rw [h₁]; rfl
    · rw [h₂]; rfl
    · rw [h₃]; rfl
    · rw [h₄]; rfl
  · have h₁ : d.address 1 = none := (List.cons.inj htable).1
    have hfault : ¬∃ r, usbFindEndpointFrom d num (usbMaxEndpoints - 1) 1 = .ok r := by
      rintro ⟨r, hr⟩
      rw [usbMaxEndpoints, usbFindEndpointFrom_absent h₁] at hr
      exact nomatch hr
    simp [hfault]
  · have hne : ¬(2 : Word) = 0 := by decide
    have hne' : ¬(2 : Word) = 1 := by decide
    rw [if_neg hne, if_neg hne'] at htable
    simp only [List.cons.injEq] at htable
    obtain ⟨h₁, h₂, h₃, -⟩ := htable
    have hfault : ¬∃ r, usbFindEndpointFrom d num 2 3 = .ok r := by
      rintro ⟨r, hr⟩
      rw [usbFindEndpointFrom_absent h₃] at hr
      exact nomatch hr
    have hin : BitVec.setWidth 16 (0x81 : Byte) = num ↔ num = 0x81 := eq_comm
    have hout : BitVec.setWidth 16 (0x02 : Byte) = num ↔ num = 0x02 := eq_comm
    rw [usbMaxEndpoints, usbFindEndpointFrom_isOk_iff h₁, usbFindEndpointFrom_isOk_iff h₂,
      or_iff_left hfault, or_iff_right hne, hin, hout]
    simp only [true_and]

/-- The lookups for a packet come to no fault, if and only if the entries are there. -/
theorem usbFindRecipient_device (setup : UsbSetupPacket)
    (hmask : mask &&& 2 ≠ 0 ∨ mask = 0 ∨ mask = 1) (hd : usbBootDeviceInit mask = .ok d)
    (hn : n ≠ 0) : d.SetUp ∧ ((∃ r, usbFindRecipient d n setup = .ok r) ↔ LookupsPresent mask setup) := by
  rw [usbBootDeviceInit_treated hmask] at hd
  have hcases := treatedMask_cases mask
  refine ⟨(usbBootDeviceInit_tables hcases hd).1, ?_⟩
  rw [usbFindRecipient_isOk_iff, usbFindInterface_device hcases hd hn,
    usbFindEndpoint_device hcases hd hn, LookupsPresent]
  by_cases hzero : treatedMask mask = 0
  · exact iff_of_true ⟨fun _ => Or.inl hzero, fun _ => Or.inl hzero⟩ (Or.inl hzero)
  · rw [or_iff_right hzero, or_iff_right hzero, or_iff_right hzero]

end Devices

/-! ## Setup packets -/

/-- The handling of the packet reads no entry of the tables that is not there, and if what it is
addressed to is not part of the active configuration, it ends with the control pipe stalled. -/
def SetupContained (c : UsbCalls UsbControlEndpoint τ ν κ) (handle : SetupRequestHandler τ ν κ)
    (d : BootDevice) (setup : UsbSetupPacket) (s : ControlState τ ν κ) : Prop :=
  (∀ f, usbHandleSetupPacket c handle d setup s ≠ .error (.lookup f)) ∧
    (¬d.Addressed setup →
      ∃ s', usbHandleSetupPacket c handle d setup s = .ok s' ∧ ControlStalled s')

section Packets

variable (c : UsbCalls UsbControlEndpoint τ ν κ) (handle : SetupRequestHandler τ ν κ)
  {d : BootDevice} {setup : UsbSetupPacket} {s : ControlState τ ν κ}

/-- The packet ends in a fault of the lookups, in the request handler of its recipient, or with the
control pipe stalled. -/
theorem usbHandleSetupPacket_cases (d : BootDevice) (setup : UsbSetupPacket) (hw : ControlWired s) :
    match usbFindRecipient d s.currentConfigNum setup with
    | .error f => usbHandleSetupPacket c handle d setup s = .error (.lookup f)
    | .ok (some recipient) => ∃ s', usbHandleSetupPacket c handle d setup s =
        (handle recipient setup s').mapError .usb
    | .ok none => ∃ s', usbHandleSetupPacket c handle d setup s = .ok s' ∧ ControlStalled s' := by
  obtain ⟨s₁, hreset, hconfig, hw₁, hhalt⟩ := usbResetControlPipe_ok c hw
  unfold usbHandleSetupPacket
  rw [hreset]
  simp only [bind, Except.bind, Except.mapError, hconfig]
  match usbFindRecipient d s.currentConfigNum setup with
  | .error f => rfl
  | .ok (some recipient) => exact ⟨s₁, rfl⟩
  | .ok none =>
    obtain ⟨s₂, hstall, hstalled⟩ := usbStallControlPipe_ok c hw₁ hhalt
    refine ⟨s₂, ?_, hstalled⟩
    simp only [hstall]

theorem usbHandleSetupPacket_fault {f : LookupFault} (hw : ControlWired s)
    (h : usbFindRecipient d s.currentConfigNum setup = .error f) :
    usbHandleSetupPacket c handle d setup s = .error (.lookup f) := by
  have hcases := usbHandleSetupPacket_cases c handle d setup hw
  rwa [h] at hcases

/-- For the masks that set up the device they stand for : the handling of a setup packet in a
configured state keeps to the tables and stalls the control pipe for what is not in the active
configuration, if and only if the entries that the lookups come to are there. -/
theorem setupContained_iff {mask : Word} (hmask : mask &&& 2 ≠ 0 ∨ mask = 0 ∨ mask = 1)
    (hd : usbBootDeviceInit mask = .ok d) (hconfig : s.currentConfigNum ≠ 0)
    (hw : ControlWired s) : SetupContained c handle d setup s ↔ LookupsPresent mask setup := by
  obtain ⟨hsetUp, hiff⟩ := usbFindRecipient_device setup hmask hd hconfig
  have hcases := usbHandleSetupPacket_cases c handle d setup hw
  rw [← hiff]
  cases hfind : usbFindRecipient d s.currentConfigNum setup with
  | error f =>
    refine iff_of_false (fun h => h.1 f ?_) ?_
    · rwa [hfind] at hcases
    · rintro ⟨r, hr⟩
      exact nomatch hr
  | ok r =>
    refine iff_of_true ?_ ⟨r, rfl⟩
    cases r with
    | none =>
      rw [hfind] at hcases
      obtain ⟨s', hs', hstalled⟩ := hcases
      refine ⟨fun f h => ?_, fun _ => ⟨s', hs', hstalled⟩⟩
      rw [hs'] at h
      exact nomatch h
    | some recipient =>
      rw [hfind] at hcases
      obtain ⟨s', hs'⟩ := hcases
      have haddressed : d.Addressed setup :=
        (usbFindRecipient_ok hsetUp hfind).resolve_left (Option.some_ne_none recipient)
      refine ⟨fun f h => ?_, fun hnot => absurd haddressed hnot⟩
      rw [hs'] at h
      cases hhandle : handle recipient setup s' with
      | error e =>
        rw [hhandle] at h
        exact nomatch h
      | ok s'' =>
        rw [hhandle] at h
        exact nomatch h

end Packets

/-! ## Without PICOBOOT -/

/-- The device is configured, and the control endpoints are as `usb_device_init` leaves them. -/
def controlConfigured : ControlState Unit Unit Unit where
  endpoint e :=
    { isIn := decide (e = .controlIn)
      doubleBuffered := false
      bufferSize := 64
      defaultTransfer := none
      currentTransfer := none
      chainTransfer := none
      onStallChange := none
      currentHwBuffer := ⟨false, 0, false⟩
      nextPid := false
      ownedBufferCount := 1
      currentGiveBuffer := false
      currentTakeBuffer := false
      haltState := .none
      firstBufferAfterReset := true
      hw := ⟨fun _ => [], [], []⟩ }
  transfer _ := UsbTransfer.reset usbCurrentPacketOnlyTransferType none
  currentConfigNum := 1
  client := ()

theorem controlConfigured_wired : ControlWired controlConfigured := fun _ => ⟨rfl, rfl⟩

/-- Callbacks that do nothing. -/
def noCalls : UsbCalls UsbControlEndpoint Unit Unit Unit := ⟨fun _ _ s => .ok s, fun _ s => .ok s⟩

/-- A handler that does nothing. -/
def ignoreRequest : SetupRequestHandler Unit Unit Unit := fun _ _ s => .ok s

/-- `CLEAR_FEATURE(ENDPOINT_HALT)` for an endpoint. -/
def clearHalt (wIndex : BitVec 16) : UsbSetupPacket := ⟨0x02, 0x01, 0, wIndex, 0⟩

/-- `GET_STATUS` of an interface. -/
def getInterfaceStatus (wIndex : BitVec 16) : UsbSetupPacket := ⟨0x81, 0x00, 0, wIndex, 2⟩

/-- `setupContained_iff`, for an endpoint of mass storage on a device without PICOBOOT. -/
theorem setupContained_mscIn : ∃ d, usbBootDeviceInit 2 = .ok d ∧
    SetupContained noCalls ignoreRequest d (clearHalt 0x81) controlConfigured := by
  obtain ⟨d, hd, -⟩ := usbBootDeviceInit_inside (Or.inr (Or.inr rfl))
  refine ⟨d, hd, (setupContained_iff noCalls ignoreRequest (Or.inl (by decide)) hd (by decide)
    controlConfigured_wired).2 (Or.inr ⟨fun h => ?_, fun _ => ?_⟩)⟩
  · exact absurd h (by decide)
  · exact Or.inr (Or.inr ⟨rfl, Or.inl rfl⟩)

/-- A request for the interface 1 of a device without PICOBOOT reads beyond the table of the
interfaces. -/
theorem status_of_disabled_interface : ¬∀ d, usbBootDeviceInit 2 = .ok d →
    SetupContained noCalls ignoreRequest d (getInterfaceStatus 1) controlConfigured := by
  intro h
  obtain ⟨d, hd, -⟩ := usbBootDeviceInit_inside (Or.inr (Or.inr rfl))
  refine (h d hd).1 (.interfaceEntry 1) (usbHandleSetupPacket_fault noCalls ignoreRequest
    controlConfigured_wired ?_)
  obtain rfl := Except.ok.inj (show Except.ok _ = Except.ok d from hd)
  rfl

end PicoBootrom
