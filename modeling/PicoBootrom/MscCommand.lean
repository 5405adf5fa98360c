import PicoBootrom.PicobootUsb
import PicoBootrom.VirtualDisk

/-!
# The commands of the mass storage device

The data of `usb_msc.c` : the command and status wrappers (CBW and CSW), the state between the two,
and the decisions of the data phase. A command says how many bytes it wants to move and in which
direction, the wrapper says how many the host wants to, and `_msc_init_for_di_or_do` and
`_msc_init_for_dn` settle what is moved, which pipe is stalled before the status is sent, and the
status.
-/

namespace PicoBootrom

/-! ## Wrappers -/

/-- `enum scsi_direction`. -/
inductive ScsiDirection
  | dirNone
  | dirIn
  | dirOut
  deriving DecidableEq, Repr

/-- `struct scsi_cbw`. -/
structure ScsiCbw where
  sig : Word
  tag : Word
  dataTransferLength : Word
  flags : Byte
  lun : Byte
  cbLength : Byte
  cb : ℕ → Byte

/-- The bytes of a packet as a `struct scsi_cbw`. -/
def ScsiCbw.ofPacket (packet : List Byte) : ScsiCbw :=
  let bytes i := packet.getD i 0
  { sig := wordAt bytes 0
    tag := wordAt bytes 4
    dataTransferLength := wordAt bytes 8
    flags := bytes 12
    lun := bytes 13
    cbLength := bytes 14
    cb := fun i => bytes (15 + i) }

/-- `CBW_SIG`. -/
def cbwSig : Word := 0x43425355

/-- `CSW_SIG`. -/
def cswSig : Word := 0x53425355

/-- The packets that `_msc_cmd_packet_internal` takes for a command. -/
def ScsiCbw.Accepted (len : ℕ) (cbw : ScsiCbw) : Prop :=
  len = 31 ∧ cbw.sig = cbwSig ∧ cbw.lun = 0 ∧ cbw.flags &&& 0x7f = 0 ∧ cbw.cbLength ≠ 0 ∧
    cbw.cbLength ≤ 16

instance (len : ℕ) (cbw : ScsiCbw) : Decidable (cbw.Accepted len) :=
  inferInstanceAs (Decidable (_ ∧ _))

/-- `_scsi_dir`. -/
def ScsiCbw.dir (cbw : ScsiCbw) : ScsiDirection :=
  if cbw.flags &&& 0x80 ≠ 0 then .dirIn else .dirOut

/-- `enum csw_status`. -/
inductive CswStatus
  | commandPassed
  | commandFailed
  | phaseError
  deriving DecidableEq, Repr

/-- The value of a `csw_status`. -/
def CswStatus.toByte : CswStatus → Byte
  | .commandPassed => 0
  | .commandFailed => 1
  | .phaseError => 2

/-- `struct scsi_csw`. -/
structure ScsiCsw where
  sig : Word
  tag : Word
  residue : Word
  status : CswStatus
  deriving DecidableEq, Repr

/-- A word as the CPU stores it. -/
def wordBytes (w : Word) : List Byte :=
  [w.setWidth 8, (w >>> 8).setWidth 8, (w >>> 16).setWidth 8, (w >>> 24).setWidth 8]

/-- The bytes of a CSW. -/
def ScsiCsw.bytes (csw : ScsiCsw) : List Byte :=
  wordBytes csw.sig ++ wordBytes csw.tag ++ wordBytes csw.residue ++ [csw.status.toByte]

/-- The fields of `struct scsi_request_sense_response` that are not zero throughout. -/
structure ScsiRequestSense where
  code : Byte
  key : Byte
  additionalSenseLen : Byte
  asc : Byte
  ascq : Byte
  deriving DecidableEq, Repr

/-- The bytes of a `struct scsi_request_sense_response`. -/
def ScsiRequestSense.bytes (r : ScsiRequestSense) : List Byte :=
  [r.code, 0, r.key, 0, 0, 0, 0, r.additionalSenseLen, 0, 0, 0, 0, r.asc, r.ascq, 0, 0, 0, 0]

/-! ## Commands -/

/-- `enum scsi_cmd`, the commands that `_msc_cmd_packet_internal` knows. -/
inductive ScsiCmd
  | testUnitReady
  | requestSense
  | inquiry
  | modeSense6
  | startStopUnit
  | preventAllowMediumRemoval
  | readFormatCapacities
  | readCapacity10
  | read10
  | write10
  | verify
  | synchronizeCache
  | other
  deriving DecidableEq, Repr

/-- The command of an operation code. -/
def ScsiCmd.ofByte (b : Byte) : ScsiCmd :=
  if b = 0x00 then .testUnitReady
  else if b = 0x03 then .requestSense
  else if b = 0x12 then .inquiry
  else if b = 0x1a then .modeSense6
  else if b = 0x1b then .startStopUnit
  else if b = 0x1e then .preventAllowMediumRemoval
  else if b = 0x23 then .readFormatCapacities
  else if b = 0x25 then .readCapacity10
  else if b = 0x28 then .read10
  else if b = 0x2a then .write10
  else if b = 0x2f then .verify
  else if b = 0x35 then .synchronizeCache
  else .other

/-- The command of a CBW. -/
def ScsiCbw.cmd (cbw : ScsiCbw) : ScsiCmd := .ofByte (cbw.cb 0)

/-- `__builtin_bswap32(cb->lba)`. -/
def ScsiCbw.lba (cbw : ScsiCbw) : Word := cbw.cb 2 ++ cbw.cb 3 ++ cbw.cb 4 ++ cbw.cb 5

/-- `__builtin_bswap16(cb->blocks)`. -/
def ScsiCbw.blocks (cbw : ScsiCbw) : BitVec 16 := cbw.cb 7 ++ cbw.cb 8

/-- `scsi_ir`. -/
def scsiIr : List Byte :=
  [0, 0x80, 2, 2, 32, 0, 0, 0] ++ [0x52, 0x50, 0x49] ++ List.replicate 5 0x20 ++
    [0x52, 0x50, 0x32] ++ List.replicate 13 0x20 ++ [0x33] ++ List.replicate 3 0x20

/-- `SECTOR_SIZE`. -/
def sectorSize : Word := 512

/-- `vd_sector_count`. -/
def vdSectorCount : Word := 128 * 1024 * 1024 / sectorSize

/-- The response of `READ_CAPACITY_10`. -/
def readCapacityResponse : List Byte :=
  (wordBytes (vdSectorCount - 1)).reverse ++ (wordBytes sectorSize).reverse

/-- The response of `READ_FORMAT_CAPACITIES`. -/
def readFormatCapacitiesResponse : List Byte :=
  [0, 0, 0, 0] ++ (wordBytes (vdSectorCount - 1)).reverse ++ [2, 0, 2, 0]

/-- The response of `MODE_SENSE_6`. -/
def modeSenseResponse : List Byte := wordBytes 3

/-! ## The state of a command -/

/-- `struct msc_state`. `ejected` is with the machine, as the tasks set it. -/
structure Msc where
  csw : ScsiCsw
  requestSense : ScsiRequestSense
  dataPhaseLength : Word
  stallDirectionBeforeCsw : ScsiDirection
  sendCswOnUnstall : Bool
  deriving DecidableEq, Repr

/-- `_msc_state` after `memset0` and the two stores of `_msc_reset`. -/
def resetMsc : Msc where
  csw := ⟨0, 0, 0, .commandPassed⟩
  requestSense := ⟨0x70, 0, 0xa, 0, 0⟩
  dataPhaseLength := 0
  stallDirectionBeforeCsw := .dirNone
  sendCswOnUnstall := false

namespace Msc

/-- A sense. -/
def setSense (key asc ascq : Byte) (m : Msc) : Msc :=
  { m with requestSense := { m.requestSense with key := key, asc := asc, ascq := ascq } }

/-- `_msc_set_csw_failed`. -/
def setCswFailed (key asc ascq : Byte) (m : Msc) : Msc :=
  { m with csw := { m.csw with status := .commandFailed } }.setSense key asc ascq

/-- What `_msc_cmd_packet_internal` does for every command. -/
def beginCommand (cbw : ScsiCbw) (m : Msc) : Msc :=
  let m := { m with csw := ⟨cswSig, cbw.tag, cbw.dataTransferLength, .commandPassed⟩ }
  if cbw.cmd ≠ .requestSense then m.setSense 0 0 0 else m

/-- `stall_direction_before_csw` for a command without data. -/
def initForDn (cbw : ScsiCbw) (m : Msc) : Msc :=
  { m with stallDirectionBeforeCsw :=
      if cbw.dataTransferLength ≠ 0 then cbw.dir else .dirNone }

/-- What `_msc_init_for_di_or_do` settles. -/
def initForDiOrDo (cbw : ScsiCbw) (expectedLength : Word) (dir : ScsiDirection) (m : Msc) : Msc :=
  if cbw.dir ≠ dir then
    { m with
        stallDirectionBeforeCsw := cbw.dir
        csw := { m.csw with status := .phaseError }
        dataPhaseLength := 0 }
  else
    { m with
        stallDirectionBeforeCsw :=
          if expectedLength ≠ cbw.dataTransferLength then dir else .dirNone
        csw := { m.csw with
          status := if cbw.dataTransferLength < expectedLength then .phaseError else m.csw.status }
        dataPhaseLength :=
          if expectedLength < cbw.dataTransferLength then expectedLength
          else cbw.dataTransferLength }

/-- `_msc_state.csw.residue -= n`. -/
def takeResidue (n : Word) (m : Msc) : Msc :=
  { m with csw := { m.csw with residue := m.csw.residue - n } }

end Msc

end PicoBootrom
