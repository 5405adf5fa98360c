import Mathlib.Algebra.Ring.Nat
import Mathlib.Tactic.Simps.Basic
import PicoBootrom.Address

/-!
# The USB device library

The transfers of `usb_device.c` : packets are given to the hardware in one or two buffers of an
endpoint, the `on_packet` function of the current transfer is called for each of them, and it
calls `usb_packet_done`, at once or later. `usb_packet_done`, `_usb_handle_transfer` and
`_usb_give_as_many_buffers_as_possible` call `on_packet` in turn, so that the three are mutually
recursive through the functions of the user of the library.

The functions are over arbitrary types of endpoints, of transfers, of callbacks (`ν`, the function
pointers) and of the state of the user of the library (`κ`). They get the callbacks as a table
(`UsbCalls`) ; `usbCalls` ties the knot, with a number that bounds the nesting of the calls. A
function that comes across a transfer that is `NULL` ends in a fault.

The asserts are not modelled, as the boot ROM is built without them.
-/

set_option linter.unusedSectionVars false

namespace PicoBootrom

/-! ## The state -/

/-- `enum usb_halt_state`. -/
inductive UsbHaltState
  | none
  | nonHaltStall
  | halted
  | haltedOnCondition
  deriving DecidableEq, Repr

/-- The value of a halt state, with which `_usb_stall_endpoint` compares them. -/
def UsbHaltState.toNat : UsbHaltState → ℕ
  | .none => 0
  | .nonHaltStall => 1
  | .halted => 2
  | .haltedOnCondition => 3

/-- A function pointer : `_usb_transfer_current_packet_only` or a function of the user of the
library. -/
inductive UsbCallback (ν : Type)
  | currentPacketOnly
  | driver (f : ν)
  deriving DecidableEq

/-- `struct usb_transfer_type`. -/
structure UsbTransferType (ν : Type) where
  onPacket : UsbCallback ν
  initialPacketCount : Byte
  deriving DecidableEq

/-- `usb_current_packet_only_transfer_type`. -/
def usbCurrentPacketOnlyTransferType {ν : Type} : UsbTransferType ν := ⟨.currentPacketOnly, 1⟩

/-- `struct usb_transfer`. -/
structure UsbTransfer (ν : Type) where
  type : UsbTransferType ν
  onComplete : Option ν
  remainingPacketsToSubmit : Word
  remainingPacketsToHandle : Word
  outstandingPacket : Bool
  packetQueued : Bool
  started : Bool
  completed : Bool
  deriving DecidableEq

/-- `struct usb_buffer`. The pointer to the data is the number of the buffer in DPRAM. -/
structure UsbBuffer where
  which : Bool
  dataLen : Byte
  valid : Bool
  deriving DecidableEq, Repr

/-- A buffer that was given to the hardware, as its buffer control register says : the data toggle,
the flag that selects the first buffer, and for an IN endpoint the packet. -/
structure UsbGivenBuffer where
  which : Bool
  pid : Bool
  sel : Bool
  packet : List Byte
  deriving DecidableEq, Repr

/-- The hardware of an endpoint : its two buffers in DPRAM, the buffers that are available to the
hardware, in the order they were given, and all the buffers it was given so far. -/
structure UsbHardware where
  dpram : Bool → List Byte
  available : List UsbGivenBuffer
  given : List UsbGivenBuffer

/-- `struct usb_endpoint`. -/
structure UsbEndpoint (τ ν : Type) where
  isIn : Bool
  doubleBuffered : Bool
  bufferSize : BitVec 16
  defaultTransfer : Option τ
  currentTransfer : Option τ
  chainTransfer : Option τ
  onStallChange : Option ν
  currentHwBuffer : UsbBuffer
  nextPid : Bool
  ownedBufferCount : Byte
  currentGiveBuffer : Bool
  currentTakeBuffer : Bool
  haltState : UsbHaltState
  firstBufferAfterReset : Bool
  hw : UsbHardware

/-- The endpoints, the transfers, the configuration of the device, and the state of the user of the
library. -/
structure UsbState (ε τ ν κ : Type) where
  endpoint : ε → UsbEndpoint τ ν
  transfer : τ → UsbTransfer ν
  currentConfigNum : Byte
  client : κ

/-- What ends a run : a dereference of a transfer that is `NULL`, or a nesting of calls deeper than
the bound. -/
inductive UsbFault
  | nullTransfer
  | tooDeep
  deriving DecidableEq, Repr

/-- What a call ends in. -/
abbrev UsbResult := Except UsbFault

/-- What the functions of the library call : the callbacks, and the next turn of the loop in
`_usb_give_as_many_buffers_as_possible`. -/
structure UsbCalls (ε τ ν κ : Type) where
  call : UsbCallback ν → ε → UsbState ε τ ν κ → UsbResult (UsbState ε τ ν κ)
  again : ε → UsbState ε τ ν κ → UsbResult (UsbState ε τ ν κ)

variable {ε τ ν κ : Type}

namespace UsbTransfer

/-- `usb_reset_transfer`. -/
@[simps]
def reset (type : UsbTransferType ν) (onComplete : Option ν) : UsbTransfer ν where
  type := type
  onComplete := onComplete
  remainingPacketsToSubmit := type.initialPacketCount.setWidth 32
  remainingPacketsToHandle := type.initialPacketCount.setWidth 32
  outstandingPacket := false
  packetQueued := false
  started := false
  completed := false

/-- A packet is outstanding, or no longer. -/
@[simps]
def setOutstanding (T : UsbTransfer ν) (outstanding : Bool) : UsbTransfer ν :=
  { T with outstandingPacket := outstanding }

/-- A packet waits until the one outstanding is done, or no longer. -/
@[simps]
def setQueued (T : UsbTransfer ν) (queued : Bool) : UsbTransfer ν :=
  { T with packetQueued := queued }

/-- `remaining_packets_to_submit--`. -/
@[simps]
def submitOne (T : UsbTransfer ν) : UsbTransfer ν :=
  { T with remainingPacketsToSubmit := T.remainingPacketsToSubmit - 1 }

/-- `--remaining_packets_to_handle`. -/
@[simps]
def handleOne (T : UsbTransfer ν) : UsbTransfer ν :=
  { T with remainingPacketsToHandle := T.remainingPacketsToHandle - 1 }

/-- `remaining_packets_to_submit = remaining_packets_to_handle = 0`. -/
@[simps]
def dropPackets (T : UsbTransfer ν) : UsbTransfer ν :=
  { T with remainingPacketsToSubmit := 0, remainingPacketsToHandle := 0 }

/-- `started = true`. -/
@[simps]
def start (T : UsbTransfer ν) : UsbTransfer ν := { T with started := true }

/-- `completed = true`. -/
@[simps]
def complete (T : UsbTransfer ν) : UsbTransfer ν := { T with completed := true }

/-- `usb_grow_transfer`. -/
@[simps]
def grow (T : UsbTransfer ν) (packetCount : Word) : UsbTransfer ν :=
  { T with
    remainingPacketsToSubmit := T.remainingPacketsToSubmit + packetCount
    remainingPacketsToHandle := T.remainingPacketsToHandle + packetCount }

end UsbTransfer

namespace UsbEndpoint

/-- The current transfer, or none. -/
@[simps]
def setTransfer (E : UsbEndpoint τ ν) (t : Option τ) : UsbEndpoint τ ν :=
  { E with currentTransfer := t }

/-- The chained transfer, or none. -/
@[simps]
def setChain (E : UsbEndpoint τ ν) (t : Option τ) : UsbEndpoint τ ν :=
  { E with chainTransfer := t }

/-- A halt state. -/
@[simps]
def setHalt (E : UsbEndpoint τ ν) (hs : UsbHaltState) : UsbEndpoint τ ν :=
  { E with haltState := hs }

/-- `owned_buffer_count++`. -/
@[simps]
def ownOne (E : UsbEndpoint τ ν) : UsbEndpoint τ ν :=
  { E with ownedBufferCount := E.ownedBufferCount + 1 }

/-- `owned_buffer_count--`. -/
@[simps]
def disownOne (E : UsbEndpoint τ ν) : UsbEndpoint τ ν :=
  { E with ownedBufferCount := E.ownedBufferCount - 1 }

/-- `current_take_buffer = which`. -/
@[simps]
def takeBuffer (E : UsbEndpoint τ ν) (which : Bool) : UsbEndpoint τ ν :=
  { E with currentTakeBuffer := which }

/-- `current_hw_buffer.valid = false`. -/
@[simps]
def dropBuffer (E : UsbEndpoint τ ν) : UsbEndpoint τ ν :=
  { E with currentHwBuffer := { E.currentHwBuffer with valid := false } }

/-- `data_len` of the current packet buffer. -/
@[simps]
def setDataLen (E : UsbEndpoint τ ν) (len : Byte) : UsbEndpoint τ ν :=
  { E with currentHwBuffer := { E.currentHwBuffer with dataLen := len } }

/-- The `which` of `usb_current_packet_buffer`. -/
def currentBuffer (E : UsbEndpoint τ ν) : Bool :=
  if E.isIn then E.currentGiveBuffer else E.currentTakeBuffer

/-- `usb_current_packet_buffer`. -/
def fetchBuffer (E : UsbEndpoint τ ν) : UsbEndpoint τ ν :=
  if E.currentHwBuffer.valid then E
  else { E with
    currentHwBuffer :=
      { which := E.currentBuffer
        dataLen := if E.isIn then 0 else BitVec.ofNat 8 (E.hw.dpram E.currentBuffer).length
        valid := true } }

/-- The data of the current packet buffer. -/
def bufferData (E : UsbEndpoint τ ν) : List Byte :=
  (E.hw.dpram E.currentHwBuffer.which).take E.currentHwBuffer.dataLen.toNat

/-- What the user of the library writes to the current packet buffer of an IN endpoint : the data
and `data_len`. -/
@[simps]
def fillBuffer (E : UsbEndpoint τ ν) (packet : List Byte) : UsbEndpoint τ ν :=
  { E with
    currentHwBuffer := { E.currentHwBuffer with dataLen := BitVec.ofNat 8 packet.length }
    hw := { E.hw with dpram := Function.update E.hw.dpram E.currentHwBuffer.which packet } }

/-- The buffer that `_usb_give_buffer` makes available to the hardware. -/
def nextGiven (E : UsbEndpoint τ ν) (len : Word) : UsbGivenBuffer where
  which := E.currentGiveBuffer
  pid := E.nextPid
  sel := E.firstBufferAfterReset
  packet := if E.isIn then (E.hw.dpram E.currentGiveBuffer).take len.toNat else []

/-- What `_usb_give_buffer` does to the endpoint. -/
@[simps]
def giveBuffer (E : UsbEndpoint τ ν) (len : Word) : UsbEndpoint τ ν :=
  { E with
    haltState := .none
    firstBufferAfterReset := false
    nextPid := !E.nextPid
    hw := { E.hw with
      available := E.hw.available ++ [E.nextGiven len]
      given := E.hw.given ++ [E.nextGiven len] }
    currentHwBuffer := { E.currentHwBuffer with valid := false }
    ownedBufferCount := E.ownedBufferCount - 1
    currentGiveBuffer := if E.doubleBuffered then !E.currentGiveBuffer else E.currentGiveBuffer }

/-- `_ep_buffer_count`. -/
def bufferCount (E : UsbEndpoint τ ν) : Byte := if E.doubleBuffered then 2 else 1

/-- `_usb_reset_buffers`. -/
@[simps]
def resetBuffers (E : UsbEndpoint τ ν) : UsbEndpoint τ ν :=
  { E with
    nextPid :=
      if E.hw.available ≠ [] ∧ (E.doubleBuffered = false ∨ E.ownedBufferCount = 1) then !E.nextPid
      else E.nextPid
    hw := { E.hw with available := [] }
    ownedBufferCount := E.bufferCount
    currentGiveBuffer := false
    currentTakeBuffer := false
    firstBufferAfterReset := true }

/-- The hardware is done with the first of the buffers available to it ; for an OUT endpoint it has
put a packet there. The number of the buffer goes to `_usb_handle_transfer`. -/
def bufferDone (E : UsbEndpoint τ ν) (packet : List Byte) : Option (Bool × UsbEndpoint τ ν) :=
  match E.hw.available with
  | [] => none
  | b :: rest =>
    some (b.which, { E with
      hw := { E.hw with
        available := rest
        dpram := if E.isIn then E.hw.dpram else Function.update E.hw.dpram b.which packet } })

end UsbEndpoint

/-! ## Updates -/

namespace UsbState

variable [DecidableEq ε] [DecidableEq τ]

/-- A change of an endpoint. -/
def modifyEndpoint (s : UsbState ε τ ν κ) (e : ε) (f : UsbEndpoint τ ν → UsbEndpoint τ ν) :
    UsbState ε τ ν κ :=
  { s with endpoint := Function.update s.endpoint e (f (s.endpoint e)) }

/-- A change of a transfer. -/
def modifyTransfer (s : UsbState ε τ ν κ) (t : τ) (f : UsbTransfer ν → UsbTransfer ν) :
    UsbState ε τ ν κ :=
  { s with transfer := Function.update s.transfer t (f (s.transfer t)) }

/-- A change of the state of the user of the library. -/
def modifyClient (s : UsbState ε τ ν κ) (f : κ → κ) : UsbState ε τ ν κ :=
  { s with client := f s.client }

variable (s : UsbState ε τ ν κ) (e e' : ε) (t t' : τ)

@[simp] theorem modifyEndpoint_endpoint_self (f : UsbEndpoint τ ν → UsbEndpoint τ ν) :
    (s.modifyEndpoint e f).endpoint e = f (s.endpoint e) := by
  simp [modifyEndpoint]

theorem modifyEndpoint_endpoint_of_ne (f : UsbEndpoint τ ν → UsbEndpoint τ ν) (h : e' ≠ e) :
    (s.modifyEndpoint e f).endpoint e' = s.endpoint e' := by
  simp [modifyEndpoint, h]

@[simp] theorem modifyEndpoint_transfer (f : UsbEndpoint τ ν → UsbEndpoint τ ν) :
    (s.modifyEndpoint e f).transfer = s.transfer :=
  rfl

@[simp] theorem modifyEndpoint_client (f : UsbEndpoint τ ν → UsbEndpoint τ ν) :
    (s.modifyEndpoint e f).client = s.client :=
  rfl

@[simp] theorem modifyEndpoint_currentConfigNum (f : UsbEndpoint τ ν → UsbEndpoint τ ν) :
    (s.modifyEndpoint e f).currentConfigNum = s.currentConfigNum :=
  rfl

@[simp] theorem modifyTransfer_endpoint (f : UsbTransfer ν → UsbTransfer ν) :
    (s.modifyTransfer t f).endpoint = s.endpoint :=
  rfl

@[simp] theorem modifyTransfer_transfer_self (f : UsbTransfer ν → UsbTransfer ν) :
    (s.modifyTransfer t f).transfer t = f (s.transfer t) := by
  simp [modifyTransfer]

theorem modifyTransfer_transfer_of_ne (f : UsbTransfer ν → UsbTransfer ν) (h : t' ≠ t) :
    (s.modifyTransfer t f).transfer t' = s.transfer t' := by
  simp [modifyTransfer, h]

@[simp] theorem modifyTransfer_client (f : UsbTransfer ν → UsbTransfer ν) :
    (s.modifyTransfer t f).client = s.client :=
  rfl

@[simp] theorem modifyTransfer_currentConfigNum (f : UsbTransfer ν → UsbTransfer ν) :
    (s.modifyTransfer t f).currentConfigNum = s.currentConfigNum :=
  rfl

@[simp] theorem modifyClient_endpoint (f : κ → κ) : (s.modifyClient f).endpoint = s.endpoint :=
  rfl

@[simp] theorem modifyClient_transfer (f : κ → κ) : (s.modifyClient f).transfer = s.transfer :=
  rfl

@[simp] theorem modifyClient_client (f : κ → κ) : (s.modifyClient f).client = f s.client :=
  rfl

@[simp] theorem modifyClient_currentConfigNum (f : κ → κ) :
    (s.modifyClient f).currentConfigNum = s.currentConfigNum :=
  rfl

end UsbState

/-! ## The functions of the library -/

section Functions

variable [DecidableEq ε] [DecidableEq τ]

/-- `usb_current_packet_buffer`. -/
def usbCurrentPacketBuffer (e : ε) (s : UsbState ε τ ν κ) : UsbState ε τ ν κ :=
  s.modifyEndpoint e UsbEndpoint.fetchBuffer

/-- `_usb_give_buffer`. -/
def usbGiveBuffer (e : ε) (len : Word) (s : UsbState ε τ ν κ) : UsbResult (UsbState ε τ ν κ) :=
  match (s.endpoint e).currentTransfer with
  | none => .error .nullTransfer
  | some t =>
    .ok ((s.modifyEndpoint e fun E => E.giveBuffer len).modifyTransfer t UsbTransfer.submitOne)

/-- `_usb_call_on_packet`. -/
def usbCallOnPacket (c : UsbCalls ε τ ν κ) (e : ε) (s : UsbState ε τ ν κ) :
    UsbResult (UsbState ε τ ν κ) :=
  match (s.endpoint e).currentTransfer with
  | none => .error .nullTransfer
  | some t => c.call (s.transfer t).type.onPacket e
      (s.modifyTransfer t fun T => T.setOutstanding true)

/-- The condition of the loop in `_usb_give_as_many_buffers_as_possible`. -/
def UsbState.canGive (s : UsbState ε τ ν κ) (e : ε) : Bool :=
  match (s.endpoint e).currentTransfer with
  | none => false
  | some t => decide ((s.transfer t).remainingPacketsToSubmit ≠ 0) &&
      decide ((s.endpoint e).ownedBufferCount ≠ 0) && decide ((s.endpoint e).haltState = .none)

/-- `_usb_give_as_many_buffers_as_possible`, with the turns of the loop after the first through the
table. -/
def usbGiveAsManyBuffersAsPossible (c : UsbCalls ε τ ν κ) (e : ε) (s : UsbState ε τ ν κ) :
    UsbResult (UsbState ε τ ν κ) :=
  if s.canGive e then
    if (s.endpoint e).isIn then do
      let s' ← usbCallOnPacket c e s
      -- on_packet did not yet submit anything
      if (s.endpoint e).ownedBufferCount = (s'.endpoint e).ownedBufferCount then .ok s'
      else c.again e s'
    else do
      let s' ← usbGiveBuffer e ((s.endpoint e).bufferSize.setWidth 32) s
      c.again e s'
  else .ok s

/-- `usb_start_transfer`. -/
def usbStartTransfer (c : UsbCalls ε τ ν κ) (e : ε) (t : τ) (s : UsbState ε τ ν κ) :
    UsbResult (UsbState ε τ ν κ) :=
  usbGiveAsManyBuffersAsPossible c e
    ((s.modifyEndpoint e fun E => (E.setTransfer (some t)).setChain none).modifyTransfer t
      UsbTransfer.start)

/-- `usb_chain_transfer`. -/
def usbChainTransfer (e : ε) (t : τ) (s : UsbState ε τ ν κ) : UsbState ε τ ν κ :=
  s.modifyEndpoint e fun E => E.setChain (some t)

/-- `usb_reset_and_start_transfer`. -/
def usbResetAndStartTransfer (c : UsbCalls ε τ ν κ) (e : ε) (t : τ) (type : UsbTransferType ν)
    (onComplete : Option ν) (s : UsbState ε τ ν κ) : UsbResult (UsbState ε τ ν κ) :=
  usbStartTransfer c e t (s.modifyTransfer t fun _ => UsbTransfer.reset type onComplete)

/-- `_usb_stall_endpoint`. -/
def usbStallEndpoint (c : UsbCalls ε τ ν κ) (e : ε) (hs : UsbHaltState) (s : UsbState ε τ ν κ) :
    UsbResult (UsbState ε τ ν κ) :=
  if (s.endpoint e).haltState = .none then
    let s' := s.modifyEndpoint e fun E => E.setHalt hs
    match (s'.endpoint e).onStallChange with
    | none => .ok s'
    | some f => c.call (.driver f) e s'
  else if (s.endpoint e).haltState.toNat < hs.toNat then
    .ok (s.modifyEndpoint e fun E => E.setHalt hs)
  else .ok s

/-- `usb_halt_endpoint`. -/
def usbHaltEndpoint (c : UsbCalls ε τ ν κ) (e : ε) (s : UsbState ε τ ν κ) :
    UsbResult (UsbState ε τ ν κ) :=
  usbStallEndpoint c e .halted s

/-- `usb_halt_endpoint_on_condition`. -/
def usbHaltEndpointOnCondition (c : UsbCalls ε τ ν κ) (e : ε) (s : UsbState ε τ ν κ) :
    UsbResult (UsbState ε τ ν κ) :=
  usbStallEndpoint c e .haltedOnCondition s

/-- `usb_clear_halt_condition`. -/
def usbClearHaltCondition (e : ε) (s : UsbState ε τ ν κ) : UsbState ε τ ν κ :=
  s.modifyEndpoint e fun E =>
    if E.haltState = .haltedOnCondition then E.setHalt .halted else E

/-- The condition under which `_usb_check_for_transfer_completion` completes a transfer. -/
def UsbState.completes (s : UsbState ε τ ν κ) (e : ε) (t : τ) : Bool :=
  decide ((s.endpoint e).haltState ≠ .none) ||
    (decide ((s.transfer t).remainingPacketsToHandle = 0) && !(s.transfer t).outstandingPacket)

/-- What `_usb_check_for_transfer_completion` does first to a transfer that completes : it is
completed, and the endpoint has no transfer. -/
def UsbState.completeTransfer (s : UsbState ε τ ν κ) (e : ε) (t : τ) : UsbState ε τ ν κ :=
  (s.modifyTransfer t UsbTransfer.complete).modifyEndpoint e fun E => E.setTransfer none

/-- `_usb_check_for_transfer_completion`. -/
def usbCheckForTransferCompletion (c : UsbCalls ε τ ν κ) (e : ε) (s : UsbState ε τ ν κ) :
    UsbResult (UsbState ε τ ν κ) :=
  match (s.endpoint e).currentTransfer with
  | none => .error .nullTransfer
  | some t =>
    if s.completes e t then
      if (s.endpoint e).haltState ≠ .none then
        .ok ((s.completeTransfer e t).modifyTransfer t UsbTransfer.dropPackets)
      else match (s.transfer t).onComplete with
        | some f => c.call (.driver f) e (s.completeTransfer e t)
        | none => match (s.endpoint e).chainTransfer with
          | some next => usbStartTransfer c e next (s.completeTransfer e t)
          | none => .ok (s.completeTransfer e t)
    else .ok s

/-- `_usb_handle_transfer`. -/
def usbHandleTransfer (c : UsbCalls ε τ ν κ) (e : ε) (which : Bool) (s : UsbState ε τ ν κ) :
    UsbResult (UsbState ε τ ν κ) :=
  let s := s.modifyEndpoint e UsbEndpoint.ownOne
  match (s.endpoint e).currentTransfer with
  | none => usbHaltEndpoint c e s
  | some t =>
    if (s.transfer t).outstandingPacket then
      .ok (s.modifyTransfer t fun T => T.setQueued true)
    else do
      let s := s.modifyEndpoint e fun E => E.takeBuffer which
      -- on_packet is only called for submit-able packets for an IN transfer
      let s ← if (s.endpoint e).isIn = false ∨ (s.transfer t).remainingPacketsToSubmit ≠ 0 then
          usbCallOnPacket c e s
        else .ok s
      if (s.transfer t).completed then .ok s
      else usbCheckForTransferCompletion c e (s.modifyTransfer t UsbTransfer.handleOne)

/-- `usb_packet_done`. -/
def usbPacketDone (c : UsbCalls ε τ ν κ) (e : ε) (s : UsbState ε τ ν κ) :
    UsbResult (UsbState ε τ ν κ) :=
  match (s.endpoint e).currentTransfer with
  | none => .error .nullTransfer
  | some t => do
    let s ← usbCheckForTransferCompletion c e
      (s.modifyTransfer t fun T => T.setOutstanding false)
    if (s.transfer t).completed then .ok s
    else
      let s ← if (s.endpoint e).isIn then
          usbGiveBuffer e ((s.endpoint e).currentHwBuffer.dataLen.setWidth 32) s
        else .ok s
      let s := s.modifyEndpoint e UsbEndpoint.dropBuffer
      if (s.transfer t).packetQueued then
        let s := (s.modifyTransfer t fun T => T.setQueued false).modifyEndpoint e
          UsbEndpoint.disownOne
        usbHandleTransfer c e (!(s.endpoint e).currentTakeBuffer) s
      else usbGiveAsManyBuffersAsPossible c e s

/-- `usb_start_empty_transfer`. -/
def usbStartEmptyTransfer (c : UsbCalls ε τ ν κ) (e : ε) (t : τ) (onComplete : Option ν)
    (s : UsbState ε τ ν κ) : UsbResult (UsbState ε τ ν κ) :=
  let s := if (s.endpoint e).isIn then
      (usbCurrentPacketBuffer e s).modifyEndpoint e fun E => E.setDataLen 0
    else s
  usbResetAndStartTransfer c e t usbCurrentPacketOnlyTransferType onComplete s

/-- `usb_reset_and_start_transfer(ep, ep->default_transfer, ep->default_transfer->type, 0)`. -/
def usbStartDefaultTransfer (c : UsbCalls ε τ ν κ) (e : ε) (s : UsbState ε τ ν κ) :
    UsbResult (UsbState ε τ ν κ) :=
  match (s.endpoint e).defaultTransfer with
  | none => .error .nullTransfer
  | some t => usbResetAndStartTransfer c e t (s.transfer t).type none s

/-- `usb_start_default_transfer_if_not_already_running_or_halted`. -/
def usbStartDefaultTransferIfNotAlreadyRunningOrHalted (c : UsbCalls ε τ ν κ) (e : ε)
    (s : UsbState ε τ ν κ) : UsbResult (UsbState ε τ ν κ) :=
  if (s.endpoint e).haltState = .none ∧
      (s.endpoint e).currentTransfer ≠ (s.endpoint e).defaultTransfer then
    usbStartDefaultTransfer c e s
  else .ok s

/-- What `_usb_reset_endpoint` does before it looks at the halt state. -/
def UsbEndpoint.resetTransfers (E : UsbEndpoint τ ν) (hard : Bool) : UsbEndpoint τ ν :=
  let E := (E.setTransfer none).resetBuffers
  { E with nextPid := if hard then false else E.nextPid }.dropBuffer

/-- `_usb_reset_endpoint`. -/
def usbResetEndpoint (c : UsbCalls ε τ ν κ) (e : ε) (hard : Bool) (s : UsbState ε τ ν κ) :
    UsbResult (UsbState ε τ ν κ) := do
  let s := s.modifyEndpoint e fun E => E.resetTransfers hard
  let s ← if (s.endpoint e).haltState ≠ .none then
      let s := s.modifyEndpoint e fun E => E.setHalt .none
      match (s.endpoint e).onStallChange with
      | none => .ok s
      | some f => c.call (.driver f) e s
    else .ok s
  -- on_stall_change might have started a transfer
  if s.currentConfigNum ≠ 0 ∧ (s.endpoint e).defaultTransfer.isSome ∧
      (s.endpoint e).currentTransfer = none then
    usbStartDefaultTransfer c e s
  else .ok s

/-- `usb_soft_reset_endpoint`. -/
def usbSoftResetEndpoint (c : UsbCalls ε τ ν κ) (e : ε) (s : UsbState ε τ ν κ) :
    UsbResult (UsbState ε τ ν κ) :=
  usbResetEndpoint c e false s

/-- `usb_hard_reset_endpoint`. -/
def usbHardResetEndpoint (c : UsbCalls ε τ ν κ) (e : ε) (s : UsbState ε τ ν κ) :
    UsbResult (UsbState ε τ ν κ) :=
  usbResetEndpoint c e true s

/-- `CLEAR_FEATURE(ENDPOINT_HALT)`, which is for a configured device. Only the data toggle of an
endpoint that is halted on a condition is reset. -/
def usbClearFeature (c : UsbCalls ε τ ν κ) (e : ε) (s : UsbState ε τ ν κ) :
    UsbResult (UsbState ε τ ν κ) :=
  if s.currentConfigNum = 0 then .ok s
  else if (s.endpoint e).haltState.toNat < UsbHaltState.haltedOnCondition.toNat then
    usbHardResetEndpoint c e s
  else .ok (s.modifyEndpoint e fun E => { E with nextPid := false })

/-- `_usb_handle_set_config` for some of the endpoints, up to `on_configure`. -/
def usbHandleSetConfig (c : UsbCalls ε τ ν κ) (endpoints : List ε) (num : Byte)
    (s : UsbState ε τ ν κ) : UsbResult (UsbState ε τ ν κ) :=
  endpoints.foldlM (fun s e => usbHardResetEndpoint c e s) { s with currentConfigNum := num }

/-- The interrupt for a buffer of an endpoint, as `_usb_handle_buffer` handles it. There is none if
no buffer is available to the hardware. -/
def usbBufferInterrupt (c : UsbCalls ε τ ν κ) (e : ε) (packet : List Byte)
    (s : UsbState ε τ ν κ) : UsbResult (UsbState ε τ ν κ) :=
  match (s.endpoint e).bufferDone packet with
  | none => .ok s
  | some (which, E) => usbHandleTransfer c e which (s.modifyEndpoint e fun _ => E)

end Functions

/-! ## The table of the callbacks -/

section Knot

variable [DecidableEq ε] [DecidableEq τ]

/-- The functions of a user of the library, which call the library again. -/
abbrev UsbDriver (ε τ ν κ : Type) :=
  UsbCalls ε τ ν κ → ν → ε → UsbState ε τ ν κ → UsbResult (UsbState ε τ ν κ)

/-- A callback. `_usb_transfer_current_packet_only` is `usb_packet_done`. -/
def usbCall (driver : UsbDriver ε τ ν κ) (c : UsbCalls ε τ ν κ) :
    UsbCallback ν → ε → UsbState ε τ ν κ → UsbResult (UsbState ε τ ν κ)
  | .currentPacketOnly, e, s => usbPacketDone c e s
  | .driver f, e, s => driver c f e s

/-- The table of the callbacks for calls of at most the given depth. -/
def usbCalls (driver : UsbDriver ε τ ν κ) : ℕ → UsbCalls ε τ ν κ
  | 0 => ⟨fun _ _ _ => .error .tooDeep, fun _ _ => .error .tooDeep⟩
  | depth + 1 =>
    ⟨usbCall driver (usbCalls driver depth),
      usbGiveAsManyBuffersAsPossible (usbCalls driver depth)⟩

end Knot

end PicoBootrom
