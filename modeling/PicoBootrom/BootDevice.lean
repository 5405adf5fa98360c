import Mathlib.Tactic.Cases
import PicoBootrom.Address

/-!
# The set-up of the USB device

`usb_boot_device_init` sets the device up for the interfaces that its mask does not disable. It
makes a configuration descriptor for a single interface if one is disabled, initialises the
interfaces from the descriptors in it, and hands the table of the interfaces to `usb_device_init`.
`usb_interface_init` finds the endpoint descriptors that follow an interface descriptor with
`usb_next_descriptor`, which goes from one descriptor to the next by their lengths and has no end
but the descriptor it looks for.

The mask is tested bit by bit, as a boolean and by equality. `reset_usb_boot` passes on all of its
bits, and a mask with a bit beyond the lowest two disables nothing by these bits, but is not `0` and
not `1`. `resetUsbBoot_sameDevice_iff` says for which masks that makes no difference.

A read beyond the end of the configuration descriptor is a fault, as is a walk that never ends. The
serial number string and the GPIO are left out.
-/

set_option linter.unusedSectionVars false

namespace PicoBootrom

/-! ## Descriptors -/

/-- `struct usb_endpoint_descriptor`, with what is the same for all endpoints of the boot device in
`UsbEndpointDescriptor.bytes`. -/
structure UsbEndpointDescriptor where
  bEndpointAddress : Byte
  deriving DecidableEq, Repr

/-- `struct usb_interface_descriptor`. -/
structure UsbInterfaceDescriptor where
  bInterfaceNumber : Byte
  bInterfaceClass : Byte
  bInterfaceSubClass : Byte
  bInterfaceProtocol : Byte
  deriving DecidableEq, Repr

/-- `struct usb_simple_interface_descriptor`. -/
structure UsbSimpleInterfaceDescriptor where
  desc : UsbInterfaceDescriptor
  ep1Desc : UsbEndpointDescriptor
  ep2Desc : UsbEndpointDescriptor
  deriving DecidableEq, Repr

/-- `struct usb_configuration_descriptor`. -/
structure UsbConfigurationDescriptor where
  wTotalLength : BitVec 16
  bNumInterfaces : Byte
  deriving DecidableEq, Repr

/-- `struct boot_device_config`, and `struct single_interface_boot_device_config`. -/
structure BootDeviceConfig where
  configDesc : UsbConfigurationDescriptor
  interfaceDesc : List UsbSimpleInterfaceDescriptor
  deriving DecidableEq, Repr

/-- `USB_DESCRIPTOR_TYPE_ENDPOINT`. -/
def usbDescriptorTypeEndpoint : Byte := 0x05

/-- A bulk endpoint with packets of 64 bytes. -/
def UsbEndpointDescriptor.bytes (d : UsbEndpointDescriptor) : List Byte :=
  [0x07, 0x05, d.bEndpointAddress, 0x02, 0x40, 0x00, 0x00]

/-- The first alternate setting of an interface with two endpoints. -/
def UsbInterfaceDescriptor.bytes (d : UsbInterfaceDescriptor) : List Byte :=
  [0x09, 0x04, d.bInterfaceNumber, 0x00, 0x02, d.bInterfaceClass, d.bInterfaceSubClass,
    d.bInterfaceProtocol, 0x00]

/-- The packed bytes of the interface and its endpoints. -/
def UsbSimpleInterfaceDescriptor.bytes (d : UsbSimpleInterfaceDescriptor) : List Byte :=
  d.desc.bytes ++ d.ep1Desc.bytes ++ d.ep2Desc.bytes

/-- The configuration has the value 1 and needs at most 500 mA. -/
def UsbConfigurationDescriptor.bytes (d : UsbConfigurationDescriptor) : List Byte :=
  [0x09, 0x02, d.wTotalLength.setWidth 8, (d.wTotalLength >>> 8).setWidth 8, d.bNumInterfaces,
    0x01, 0x00, 0x80, 0xfa]

/-- The packed bytes of the configuration descriptor and its interfaces. -/
def BootDeviceConfig.bytes (config : BootDeviceConfig) : List Byte :=
  config.configDesc.bytes ++ config.interfaceDesc.flatMap UsbSimpleInterfaceDescriptor.bytes

/-- The offset of `interface_desc[i]`. -/
def BootDeviceConfig.interfaceOffset (i : ℕ) : ℕ := 9 + 23 * i

/-- The mass storage interface, with the SCSI transparent subclass and the bulk-only protocol. -/
def mscInterfaceDescriptor : UsbSimpleInterfaceDescriptor where
  desc := ⟨0x00, 0x08, 0x06, 0x50⟩
  ep1Desc := ⟨0x81⟩
  ep2Desc := ⟨0x02⟩

/-- The PICOBOOT interface, which is vendor specific. -/
def picobootInterfaceDescriptor : UsbSimpleInterfaceDescriptor where
  desc := ⟨0x01, 0xff, 0x00, 0x00⟩
  ep1Desc := ⟨0x03⟩
  ep2Desc := ⟨0x84⟩

/-- `BOOT_DEVICE_NUM_INTERFACES`. -/
def bootDeviceNumInterfaces : ℕ := 2

/-- `boot_device_config`. -/
def bootDeviceConfig : BootDeviceConfig where
  configDesc := ⟨55, 2⟩
  interfaceDesc := [mscInterfaceDescriptor, picobootInterfaceDescriptor]

theorem bootDeviceConfig_length : bootDeviceConfig.bytes.length = 55 :=
  rfl

/-! ## The walk over descriptors -/

/-- What goes wrong in a walk : a read beyond the end, at the offset, or no end. -/
inductive WalkFault
  | outside (offset : ℕ)
  | endless
  deriving DecidableEq, Repr

/-- A byte of the configuration descriptor. -/
def readDescriptor (bytes : List Byte) (offset : ℕ) : Except WalkFault Byte :=
  match bytes[offset]? with
  | some b => .ok b
  | none => .error (.outside offset)

/-- The loop of `usb_next_descriptor`, of at most the given number of turns. -/
def usbNextDescriptorFrom (bytes : List Byte) (type : Byte) : ℕ → ℕ → Except WalkFault ℕ
  | 0, _ => .error .endless
  | turns + 1, desc => do
    let bLength ← readDescriptor bytes desc
    let bDescriptorType ← readDescriptor bytes (desc + bLength.toNat + 1)
    if bDescriptorType = type then .ok (desc + bLength.toNat)
    else usbNextDescriptorFrom bytes type turns (desc + bLength.toNat)

/-- `usb_next_descriptor`. A walk of more turns than there are bytes has come to a descriptor of
length `0`, and stays there. -/
def usbNextDescriptor (bytes : List Byte) (type : Byte) (desc : ℕ) : Except WalkFault ℕ :=
  usbNextDescriptorFrom bytes type (bytes.length + 1) desc

section Walk

variable {bytes : List Byte} {type : Byte} {turns desc q : ℕ}

theorem readDescriptor_ok {b : Byte} (h : readDescriptor bytes desc = .ok b) :
    bytes[desc]? = some b := by
  rw [readDescriptor] at h
  cases hb : bytes[desc]? with
  | none => rw [hb] at h; exact nomatch h
  | some b' =>
    rw [hb] at h
    exact congrArg some (Except.ok.inj h)

/-- One turn of the loop : the next descriptor is the one it looks for, or the walk goes on from
it. -/
theorem usbNextDescriptorFrom_succ_ok
    (h : usbNextDescriptorFrom bytes type (turns + 1) desc = .ok q) :
    ∃ bLength b, bytes[desc]? = some bLength ∧ bytes[desc + bLength.toNat + 1]? = some b ∧
      (b = type ∧ q = desc + bLength.toNat ∨
        b ≠ type ∧ usbNextDescriptorFrom bytes type turns (desc + bLength.toNat) = .ok q) := by
  rw [usbNextDescriptorFrom] at h
  cases hlength : readDescriptor bytes desc with
  | error f => rw [hlength] at h; exact nomatch h
  | ok bLength =>
    cases htype : readDescriptor bytes (desc + bLength.toNat + 1) with
    | error f =>
      simp only [hlength, htype, bind, Except.bind] at h
      exact nomatch h
    | ok b =>
      simp only [hlength, htype, bind, Except.bind] at h
      refine ⟨bLength, b, readDescriptor_ok hlength, readDescriptor_ok htype, ?_⟩
      by_cases hb : b = type
      · rw [if_pos hb] at h
        exact Or.inl ⟨hb, (Except.ok.inj h).symm⟩
      · rw [if_neg hb] at h
        exact Or.inr ⟨hb, h⟩

/-- A walk that ends has found a descriptor of the type, inside the configuration descriptor and not
before where it began. -/
theorem usbNextDescriptorFrom_ok (h : usbNextDescriptorFrom bytes type turns desc = .ok q) :
    desc ≤ q ∧ bytes[q + 1]? = some type := by
  induction turns generalizing desc with
  | zero => exact nomatch h
  | succ turns ih =>
    obtain ⟨bLength, b, -, hb, ⟨rfl, rfl⟩ | ⟨-, hrest⟩⟩ := usbNextDescriptorFrom_succ_ok h
    · exact ⟨Nat.le_add_right _ _, hb⟩
    · obtain ⟨hle, htype⟩ := ih hrest
      exact ⟨Nat.le_trans (Nat.le_add_right _ _) hle, htype⟩

/-- A walk that ends with some number of turns ends with any that is not less than the bytes left,
as each turn but the last takes the walk forward. -/
theorem usbNextDescriptorFrom_of_ok (h : usbNextDescriptorFrom bytes type turns desc = .ok q)
    {n : ℕ} (hn : bytes.length - desc < n) : usbNextDescriptorFrom bytes type n desc = .ok q := by
  induction turns generalizing desc n with
  | zero => exact nomatch h
  | succ turns ih =>
    obtain ⟨bLength, b, hlength, hb, hend⟩ := usbNextDescriptorFrom_succ_ok h
    obtain ⟨n, rfl⟩ := Nat.exists_eq_add_of_lt (Nat.zero_lt_of_lt hn)
    have hdesc : desc < bytes.length := (List.getElem?_eq_some_iff.1 hlength).1
    rw [Nat.zero_add, usbNextDescriptorFrom, readDescriptor, hlength]
    simp only [readDescriptor, hb, bind, Except.bind]
    rcases hend with ⟨rfl, rfl⟩ | ⟨hne, hrest⟩
    · rw [if_pos rfl]
    · rw [if_neg hne]
      rcases Nat.eq_zero_or_pos bLength.toNat with hzero | hpos
      · -- the descriptor has length 0, and the turn has changed nothing
        rw [hzero, Nat.add_zero] at hrest hb
        have hagain := ih hrest hn
        rw [Nat.zero_add, usbNextDescriptorFrom, readDescriptor, hlength] at hagain
        simp only [readDescriptor, hzero, Nat.add_zero, hb, bind, Except.bind] at hagain
        rw [if_neg hne] at hagain
        rwa [hzero, Nat.add_zero]
      · exact ih hrest (by omega)

/-- The bound on the turns does not cut a walk off that ends. -/
theorem usbNextDescriptor_ok_iff : usbNextDescriptor bytes type desc = .ok q ↔
    ∃ turns, usbNextDescriptorFrom bytes type turns desc = .ok q := by
  constructor
  · exact fun h => ⟨_, h⟩
  · rintro ⟨turns, h⟩
    exact usbNextDescriptorFrom_of_ok h (by omega)

end Walk

/-! ## Interfaces and endpoints -/

/-- The interfaces of the boot device. -/
inductive UsbInterfaceId
  | msdInterface
  | picobootInterface
  deriving DecidableEq, Repr

/-- The endpoints of the boot device other than the control endpoints. -/
inductive BootEndpointId
  | mscIn
  | mscOut
  | picobootOut
  | picobootIn
  deriving DecidableEq, Repr

/-- What `usb_interface_init` initialises in a `struct usb_endpoint`. The pointer to the descriptor
is an offset. -/
structure BootEndpoint where
  id : BootEndpointId
  descriptor : ℕ
  bEndpointAddress : Byte
  num : Byte
  isIn : Bool
  bufferSize : BitVec 16
  doubleBuffered : Bool
  bufferBitIndex : Byte
  deriving DecidableEq, Repr

/-- `USB_MAX_ENDPOINTS`. -/
def usbMaxEndpoints : ℕ := 5

/-- `_usb_endpoint_init_internal`, for the endpoint with the descriptor at `desc`. -/
def usbEndpointInit (id : BootEndpointId) (desc : ℕ) (bEndpointAddress : Byte)
    (wMaxPacketSize : BitVec 16) (doubleBuffered : Bool) : BootEndpoint where
  id := id
  descriptor := desc
  bEndpointAddress := bEndpointAddress
  num := bEndpointAddress &&& 0xf
  isIn := decide (bEndpointAddress &&& 0x80 ≠ 0)
  bufferSize := wMaxPacketSize
  doubleBuffered := doubleBuffered
  bufferBitIndex :=
    (bEndpointAddress &&& 0xf) * 2 + if bEndpointAddress &&& 0x80 ≠ 0 then 0 else 1

/-- The loop of `usb_interface_init`, from the descriptor at `p`. It initialises the endpoints and
puts them in `_endpoints`. -/
def usbInterfaceInitFrom (bytes : List Byte) (doubleBuffered : Bool) :
    List BootEndpointId → ℕ → List (Option BootEndpoint) →
      Except WalkFault (List (Option BootEndpoint))
  | [], _, endpoints => .ok endpoints
  | id :: ids, p, endpoints => do
    let p ← usbNextDescriptor bytes usbDescriptorTypeEndpoint p
    let bEndpointAddress ← readDescriptor bytes (p + 2)
    let lo ← readDescriptor bytes (p + 4)
    let hi ← readDescriptor bytes (p + 5)
    let endpoint := usbEndpointInit id p bEndpointAddress (hi ++ lo) doubleBuffered
    usbInterfaceInitFrom bytes doubleBuffered ids p
      (endpoints.set endpoint.num.toNat (some endpoint))

/-- `usb_interface_init`, for the interface descriptor at `desc`. -/
def usbInterfaceInit (bytes : List Byte) (desc : ℕ) (ids : List BootEndpointId)
    (doubleBuffered : Bool) (endpoints : List (Option BootEndpoint)) :
    Except WalkFault (List (Option BootEndpoint)) :=
  usbInterfaceInitFrom bytes doubleBuffered ids desc endpoints

/-! ## The device -/

/-- What `usb_boot_device_init` sets up : the configuration descriptor, the interfaces with the
offsets of their descriptors, `_endpoints`, and the table of the interfaces that `usb_device_init`
is given, with as many entries as it is told. -/
structure BootDevice where
  config : BootDeviceConfig
  msdInterface : Option ℕ
  picobootInterface : Option ℕ
  endpoints : List (Option BootEndpoint)
  interfaces : List UsbInterfaceId
  deriving DecidableEq, Repr

/-- `boot_device_interfaces`. -/
def bootDeviceInterfaces : List UsbInterfaceId := [.msdInterface, .picobootInterface]

/-- `_single_interface_config`, as `usb_boot_device_init` writes it. -/
def singleInterfaceConfig (mask : Word) : BootDeviceConfig :=
  let interface :=
    if mask &&& 1 ≠ 0 then picobootInterfaceDescriptor else mscInterfaceDescriptor
  { configDesc := ⟨32, 1⟩
    interfaceDesc := [{ interface with desc := { interface.desc with bInterfaceNumber := 0 } }] }

/-- `usb_boot_device_init` with the mask it goes by. -/
def usbBootDeviceInitWith (mask : Word) : Except WalkFault BootDevice := do
  let config := if mask ≠ 0 then singleInterfaceConfig mask else bootDeviceConfig
  let picobootInterfaceNum := if mask ≠ 0 ∧ mask &&& 1 ≠ 0 then 0 else 1
  let endpoints := List.replicate usbMaxEndpoints none
  let endpoints ←
    if mask &&& 1 = 0 then
      usbInterfaceInit config.bytes (BootDeviceConfig.interfaceOffset 0) [.mscIn, .mscOut] true
        endpoints
    else .ok endpoints
  let endpoints ←
    if mask &&& 2 = 0 then
      usbInterfaceInit config.bytes (BootDeviceConfig.interfaceOffset picobootInterfaceNum)
        [.picobootOut, .picobootIn] true endpoints
    else .ok endpoints
  .ok {
    config := config
    msdInterface := if mask &&& 1 = 0 then some (BootDeviceConfig.interfaceOffset 0) else none
    picobootInterface :=
      if mask &&& 2 = 0 then some (BootDeviceConfig.interfaceOffset picobootInterfaceNum) else none
    endpoints := endpoints
    interfaces :=
      (bootDeviceInterfaces.drop (if mask = 1 then 1 else 0)).take
        (if mask ≠ 0 then 1 else bootDeviceNumInterfaces) }

/-- `usb_boot_device_init`. It disables nothing if it is to disable both interfaces. -/
def usbBootDeviceInit (mask : Word) : Except WalkFault BootDevice :=
  usbBootDeviceInitWith (if mask &&& 3 = 3 then 0 else mask)

/-- The scratch registers of the watchdog, which a reboot keeps. -/
structure WatchdogScratch where
  usbActivityGpioPinMask : Word
  disableInterfaceMask : Word
  deriving DecidableEq, Repr

/-- What `reset_usb_boot` leaves for the reboot. -/
def resetUsbBoot (usbActivityGpioPinMask disableInterfaceMask : Word) : WatchdogScratch :=
  ⟨usbActivityGpioPinMask, disableInterfaceMask⟩

/-- `_usb_boot_reboot_wrapper`, which calls `_usb_boot` with the scratch registers, up to
`usb_device_start`. -/
def usbBootRebootWrapper (scratch : WatchdogScratch) : Except WalkFault BootDevice :=
  usbBootDeviceInit scratch.disableInterfaceMask

/-! ## The masks -/

/-- The mask that a mask stands for : its lowest two bits, and `0` if these are to disable both
interfaces. -/
def treatedMask (mask : Word) : Word := if mask &&& 3 = 3 then 0 else mask &&& 3

/-- The total length is that of the configuration descriptor, and the descriptors of the interfaces
and endpoints lie inside it. -/
def BootDevice.Inside (d : BootDevice) : Prop :=
  d.config.configDesc.wTotalLength.toNat = d.config.bytes.length ∧
    (∀ desc ∈ d.msdInterface, desc + 23 ≤ d.config.bytes.length) ∧
    (∀ desc ∈ d.picobootInterface, desc + 23 ≤ d.config.bytes.length) ∧
    ∀ entry ∈ d.endpoints, ∀ endpoint ∈ entry,
      endpoint.descriptor + 7 ≤ d.config.bytes.length

instance (d : BootDevice) : Decidable d.Inside := by
  unfold BootDevice.Inside
  infer_instance

/-- `reset_usb_boot` with the mask ends in a device with all its descriptors in the configuration
descriptor, and it is the device for the mask that the mask stands for. -/
def SameDevice (usbActivityGpioPinMask mask : Word) : Prop :=
  ∃ d, usbBootRebootWrapper (resetUsbBoot usbActivityGpioPinMask mask) = .ok d ∧
    usbBootDeviceInit (treatedMask mask) = .ok d ∧ d.Inside

section Masks

variable {m : Word}

theorem and_three_cases (m : Word) :
    m &&& 3 = 0 ∨ m &&& 3 = 1 ∨ m &&& 3 = 2 ∨ m &&& 3 = 3 := by
  have hle : (m &&& 3).toNat ≤ 3 := by
    rw [BitVec.toNat_and]
    exact Nat.and_le_right
  have hvalue (n : Word) (h : (m &&& 3).toNat = n.toNat) : m &&& 3 = n := BitVec.eq_of_toNat_eq h
  rcases Nat.lt_or_ge (m &&& 3).toNat 2 with hlow | hhigh
  · rcases Nat.lt_or_ge (m &&& 3).toNat 1 with h | h
    · exact Or.inl (hvalue 0 (Nat.lt_one_iff.1 h))
    · exact Or.inr (Or.inl (hvalue 1 (Nat.le_antisymm (Nat.le_of_lt_succ hlow) h)))
  · rcases Nat.lt_or_ge (m &&& 3).toNat 3 with h | h
    · exact Or.inr (Or.inr (Or.inl (hvalue 2 (Nat.le_antisymm (Nat.le_of_lt_succ h) hhigh))))
    · exact Or.inr (Or.inr (Or.inr (hvalue 3 (Nat.le_antisymm hle h))))

theorem and_one_eq (m : Word) : m &&& 1 = (m &&& 3) &&& 1 := by
  rw [BitVec.and_assoc]
  rfl

theorem and_two_eq (m : Word) : m &&& 2 = (m &&& 3) &&& 2 := by
  rw [BitVec.and_assoc]
  rfl

/-- The set-up depends on the lowest two bits of the mask, on whether it is `0` and on whether it is
`1`. -/
theorem usbBootDeviceInitWith_congr (m' : Word) (hbits : m &&& 3 = m' &&& 3)
    (hzero : m = 0 ↔ m' = 0) (hone : m = 1 ↔ m' = 1) :
    usbBootDeviceInitWith m = usbBootDeviceInitWith m' := by
  have hfirst : m &&& 1 = m' &&& 1 := by rw [and_one_eq m, and_one_eq m', hbits]
  have hsecond : m &&& 2 = m' &&& 2 := by rw [and_two_eq m, and_two_eq m', hbits]
  unfold usbBootDeviceInitWith singleInterfaceConfig
  simp only [hfirst, hsecond, hone, hzero, ne_eq]

theorem usbBootDeviceInit_of_ne (h : m &&& 3 ≠ 3) :
    usbBootDeviceInit m = usbBootDeviceInitWith m := by
  rw [usbBootDeviceInit, if_neg h]

theorem usbBootDeviceInit_of_eq (h : m &&& 3 = 3) :
    usbBootDeviceInit m = usbBootDeviceInitWith 0 := by
  rw [usbBootDeviceInit, if_pos h]

theorem treatedMask_of_ne (h : m &&& 3 ≠ 3) : treatedMask m = m &&& 3 := by
  rw [treatedMask, if_neg h]

theorem treatedMask_of_eq (h : m &&& 3 = 3) : treatedMask m = 0 := by
  rw [treatedMask, if_pos h]

/-- The device for each of the masks that the others stand for. -/
theorem usbBootDeviceInit_inside (h : m = 0 ∨ m = 1 ∨ m = 2) :
    ∃ d, usbBootDeviceInit m = .ok d ∧ d.Inside := by
  rcases h with rfl | rfl | rfl
  · exact ⟨_, rfl, by decide⟩
  · exact ⟨_, rfl, by decide⟩
  · exact ⟨_, rfl, by decide⟩

/-- A mask with none of the lowest two bits that is not `0` has both interfaces initialised from a
configuration descriptor for one. The walk for the second begins at its end. -/
theorem usbBootDeviceInit_outside (hbits : m &&& 3 = 0) (hzero : m ≠ 0) :
    usbBootDeviceInit m = .error (.outside 32) := by
  have hone : m ≠ 1 := by
    rintro rfl
    exact absurd hbits (by decide)
  rw [usbBootDeviceInit_of_ne (by rw [hbits]; decide),
    usbBootDeviceInitWith_congr 4 hbits (iff_of_false hzero (by decide))
      (iff_of_false hone (by decide))]
  rfl

/-- A mask that disables mass storage and is not `1` has the table of the interfaces begin with the
interface it disables. -/
theorem usbBootDeviceInit_ne (hbits : m &&& 3 = 1) (hone : m ≠ 1) :
    usbBootDeviceInit m ≠ usbBootDeviceInit 1 := by
  have hzero : m ≠ 0 := by
    rintro rfl
    exact absurd hbits (by decide)
  rw [usbBootDeviceInit_of_ne (by rw [hbits]; decide),
    usbBootDeviceInitWith_congr 5 hbits (iff_of_false hzero (by decide))
      (iff_of_false hone (by decide))]
  exact fun h => absurd (congrArg (fun r => r.toOption.map BootDevice.interfaces) h) (by decide)

theorem treatedMask_cases
    (m : Word) : treatedMask m = 0 ∨ treatedMask m = 1 ∨ treatedMask m = 2 := by
  rcases and_three_cases m with hbits | hbits | hbits | hbits
  · exact Or.inl (by rw [treatedMask_of_ne (by rw [hbits]; decide), hbits])
  · exact Or.inr (Or.inl (by rw [treatedMask_of_ne (by rw [hbits]; decide), hbits]))
  · exact Or.inr (Or.inr (by rw [treatedMask_of_ne (by rw [hbits]; decide), hbits]))
  · exact Or.inl (treatedMask_of_eq hbits)

/-- A mask that disables PICOBOOT, or both interfaces, or is `0` or `1`, has the set-up of the mask
that it stands for. -/
theorem usbBootDeviceInit_treated (h : m &&& 2 ≠ 0 ∨ m = 0 ∨ m = 1) :
    usbBootDeviceInit m = usbBootDeviceInit (treatedMask m) := by
  rw [and_two_eq m] at h
  rcases and_three_cases m with hbits | hbits | hbits | hbits
  · rw [hbits] at h
    rcases h with h | rfl | rfl
    · exact absurd rfl h
    · rfl
    · exact absurd hbits (by decide)
  · rw [hbits] at h
    rcases h with h | rfl | rfl
    · exact absurd rfl h
    · exact absurd hbits (by decide)
    · rfl
  · have hne : m &&& 3 ≠ 3 := by rw [hbits]; decide
    have hzero : m ≠ 0 := by
      rintro rfl
      exact absurd hbits (by decide)
    have hone : m ≠ 1 := by
      rintro rfl
      exact absurd hbits (by decide)
    rw [treatedMask_of_ne hne, hbits, usbBootDeviceInit_of_ne hne,
      usbBootDeviceInit_of_ne (by decide), usbBootDeviceInitWith_congr 2 hbits
        (iff_of_false hzero (by decide)) (iff_of_false hone (by decide))]
  · rw [treatedMask_of_eq hbits, usbBootDeviceInit_of_eq hbits]
    rfl

end Masks

/-- The mask makes the device that its lowest two bits stand for, if and only if it disables
PICOBOOT, or both interfaces, or is `0` or `1`. -/
theorem resetUsbBoot_sameDevice_iff (usbActivityGpioPinMask mask : Word) :
    SameDevice usbActivityGpioPinMask mask ↔ mask &&& 2 ≠ 0 ∨ mask = 0 ∨ mask = 1 := by
  unfold SameDevice usbBootRebootWrapper resetUsbBoot
  constructor
  · rintro ⟨d, hd, hd', -⟩
    dsimp only at hd
    by_contra hmask
    push Not at hmask
    obtain ⟨hsecond, hzero, hone⟩ := hmask
    rw [and_two_eq mask] at hsecond
    rcases and_three_cases mask with hbits | hbits | hbits | hbits
    · rw [usbBootDeviceInit_outside hbits hzero] at hd
      exact nomatch hd
    · rw [treatedMask_of_ne (by rw [hbits]; decide), hbits] at hd'
      exact usbBootDeviceInit_ne hbits hone (hd.trans hd'.symm)
    · exact absurd (hbits ▸ hsecond) (by decide)
    · exact absurd (hbits ▸ hsecond) (by decide)
  · intro hmask
    obtain ⟨d, hd, hinside⟩ := usbBootDeviceInit_inside (treatedMask_cases mask)
    exact ⟨d, (usbBootDeviceInit_treated hmask).trans hd, hd, hinside⟩

/-- The mask `4` has a walk begin at the end of the configuration descriptor. -/
theorem resetUsbBoot_four : ¬ ∀ mask : Word, SameDevice 0 mask := by
  intro h
  obtain ⟨d, hd, -, -⟩ := h 4
  exact nomatch (show Except.error (WalkFault.outside 32) = Except.ok d from hd)

end PicoBootrom
