import HAL9000.Io.Files

/-! IRPs and device stacks (`io_devices.c`) and the dispatch routines of the ATA, disk, volume, FAT32
and SwapFS drivers. What the controller answers to a transfer is an input. -/
namespace HAL9000.Io

/-- An `ASSERT` of an `Io…` function on an IRP, or one of a dispatch routine or of what it runs. -/
inductive IrpFault
  | ioAssert
  | dispatchAssert
  deriving DecidableEq, Repr

/-- The state counts the transfers so far. -/
abbrev IoM := StateT ℕ (Except IrpFault)

def fault {α : Type} (e : IrpFault) : IoM α := fun _ => .error e

def ioAssert (p : Prop) [Decidable p] : IoM Unit := if p then pure () else fault .ioAssert

def dispatchAssert (p : Prop) [Decidable p] : IoM Unit :=
  if p then pure () else fault .dispatchAssert

def statusSuccess : STATUS := 0
def statusUnsupported : STATUS := 0xE8000001
def statusFileNotFound : STATUS := 0xE800001A
def statusFileNotDirectory : STATUS := 0xE800001F
def statusBufferTooSmall : STATUS := 0xE0100002
def statusDeviceDoesNotExist : STATUS := 0xE0010001
def statusDeviceNotSupported : STATUS := 0xE0010003
def statusDeviceNotInitialized : STATUS := 0xE0010004
def statusDeviceSectorOffsetExceeded : STATUS := 0xE0010005
def statusDeviceSectorCountExceeded : STATUS := 0xE0010006
def statusDeviceInvalidOperation : STATUS := 0xE0010009
def statusDeviceDataAlignmentError : STATUS := 0xE001000A
def statusDeviceAlignmentNoSatisfied : STATUS := 0xE001000E
def statusHeapInsufficientResources : STATUS := 0xE0200004

def sectorSize : QWORD := 512
def maxByte : BYTE := 0xFF

inductive MajorFunction
  | create
  | close
  | read
  | write
  | queryInformation
  | directoryControl
  | deviceControl
  deriving DecidableEq, Repr

def ioctlDiskGetLengthInfo : DWORD := 0
def ioctlDiskLayoutInfo : DWORD := 1
def ioctlVolumePartitionInfo : DWORD := 2

structure FileInformation where
  fileSize : QWORD
  fileAttributes : DWORD
  deriving DecidableEq, Repr

structure Fcb where
  fileOffsetInVolume : QWORD
  parentOffsetInVolume : QWORD
  fileInformation : FileInformation
  deriving DecidableEq, Repr

/-- The fields of a `FILE_OBJECT` that the file systems use. -/
structure FsFileObject where
  hasRelatedFileObject : Bool
  directoryFile : Bool
  create : Bool
  fileName : String
  fileSize : QWORD
  fsContext2 : Option Fcb
  deriving DecidableEq, Repr

structure PartitionInformation where
  offsetInDisk : QWORD
  partitionSize : QWORD
  partitionType : BYTE
  bootable : Bool
  deriving DecidableEq, Repr

/-- A stack location; a dispatch routine reads the parameters of its major function. -/
structure IoStackLocation where
  majorFunction : MajorFunction
  minorFunction : BYTE
  length : QWORD
  offset : QWORD
  ioControlCode : DWORD
  outputBufferLength : DWORD
  queryLength : DWORD
  fileObject : Option FsFileObject
  deriving DecidableEq, Repr

def IoStackLocation.zero : IoStackLocation := ⟨.create, 0, 0, 0, 0, 0, 0, none⟩

/-- What a routine leaves in the buffer of the request. -/
inductive OutputBuffer
  | unwritten
  | lengthInformation (length : QWORD)
  | diskLayout (partitions : List PartitionInformation)
  | partitionInformation (partition : PartitionInformation)
  | fileInformation (information : FileInformation)
  deriving DecidableEq, Repr

inductive Driver
  | ata
  | disk
  | volume
  | fat32
  | swapFs
  deriving DecidableEq, Repr

structure IoStatusBlock where
  status : STATUS
  information : QWORD
  deriving DecidableEq, Repr

/-- An IRP. The last four fields record what was done with it: how often and by which driver it was
completed, which driver set `IoStatus`, and what each driver that was called saw. -/
structure Irp where
  ioStatus : IoStatusBlock
  completed : Bool
  asynchronous : Bool
  currentStackLocation : BYTE
  stackLocations : ℕ → IoStackLocation
  output : OutputBuffer
  completions : ℕ
  completedBy : Option Driver
  statusBy : Option Driver
  seen : List (Driver × IoStackLocation)

namespace Irp

def setStatus (irp : Irp) (driver : Driver) (status : STATUS) : Irp :=
  { irp with ioStatus := { irp.ioStatus with status := status }, statusBy := some driver }

def setIoStatus (irp : Irp) (driver : Driver) (status : STATUS) (information : QWORD) : Irp :=
  { irp with ioStatus := ⟨status, information⟩, statusBy := some driver }

def setLocation (irp : Irp) (index : ℕ) (location : IoStackLocation) : Irp :=
  { irp with stackLocations := Function.update irp.stackLocations index location }

/-- The current stack location. -/
def location (irp : Irp) : IoStackLocation := irp.stackLocations irp.currentStackLocation.toNat

/-- The location the next driver will see. -/
def nextLocation (irp : Irp) : IoStackLocation :=
  irp.stackLocations (irp.currentStackLocation.toNat - 1)

def setFileObject (irp : Irp) (file : FsFileObject) : Irp :=
  irp.setLocation irp.currentStackLocation.toNat { irp.location with fileObject := some file }

end Irp

def ioAllocateIrp (stackSize : BYTE) : IoM Irp := do
  ioAssert (0 < stackSize.toNat)
  return ⟨⟨0, 0⟩, false, false, stackSize, fun _ => IoStackLocation.zero, .unwritten, 0, none, none,
    []⟩

def ioGetCurrentIrpStackLocation (irp : Irp) : IoM IoStackLocation := do
  ioAssert (maxByte ≠ irp.currentStackLocation)
  return irp.location

/-- Fills in the location of `IoGetNextIrpStackLocation`. -/
def ioSetNextIrpStackLocation (irp : Irp) (f : IoStackLocation → IoStackLocation) : IoM Irp := do
  ioAssert (0 ≠ irp.currentStackLocation)
  return irp.setLocation (irp.currentStackLocation.toNat - 1) (f irp.nextLocation)

def ioCopyCurrentStackLocationToNext (irp : Irp) : IoM Irp := do
  ioAssert (0 ≠ irp.currentStackLocation)
  return irp.setLocation (irp.currentStackLocation.toNat - 1) irp.location

def ioCompleteIrp (driver : Driver) (irp : Irp) : IoM Irp := do
  ioAssert (irp.completed = false)
  return { irp with
    completed := true
    completions := irp.completions + 1
    completedBy := some driver }

abbrev Dispatch := Irp → IoM (STATUS × Irp)

structure DeviceObject where
  driver : Driver
  stackSize : BYTE
  deviceAlignment : QWORD
  dispatchFunctions : MajorFunction → Option Dispatch

def ioCreateDevice (driver : Driver) (deviceAlignment : QWORD)
    (dispatchFunctions : MajorFunction → Option Dispatch) : DeviceObject :=
  ⟨driver, 1, deviceAlignment, dispatchFunctions⟩

def ioAttachDevice (sourceDevice targetDevice : DeviceObject) : DeviceObject :=
  { sourceDevice with stackSize := targetDevice.stackSize + 1 }

def MajorFunction.isReadWrite (m : MajorFunction) : Bool := m = .read ∨ m = .write

def ioCallDriver (device : DeviceObject) (irp : Irp) : IoM (STATUS × Irp) := do
  ioAssert (0 ≠ irp.currentStackLocation)
  let irp := { irp with currentStackLocation := irp.currentStackLocation - 1 }
  let location ← ioGetCurrentIrpStackLocation irp
  if location.majorFunction.isReadWrite ∧
      (¬isAddressAligned location.length device.deviceAlignment ∨
        ¬isAddressAligned location.offset device.deviceAlignment) then
    return (statusDeviceAlignmentNoSatisfied, irp)
  else
    match device.dispatchFunctions location.majorFunction with
    | none => return (statusDeviceInvalidOperation, irp)
    | some dispatchFunction =>
      let (status, irp) ←
        dispatchFunction { irp with seen := irp.seen ++ [(device.driver, location)] }
      return (if succeeded status then statusSuccess else status, irp)

def ioReadWriteDevice (device : DeviceObject) (length offset : QWORD) (write asynchronous : Bool) :
    IoM (STATUS × QWORD) := do
  let irp ← ioAllocateIrp device.stackSize
  let irp ← ioSetNextIrpStackLocation irp fun l =>
    { l with
      majorFunction := if write then .write else .read
      length := length
      offset := offset }
  let (status, irp) ← ioCallDriver device { irp with asynchronous := asynchronous }
  if succeeded status then return (irp.ioStatus.status, irp.ioStatus.information)
  else return (status, length)

/-! ### ATA -/

structure AtaDevice where
  initialized : Bool
  totalSectors : QWORD
  deriving DecidableEq, Repr

structure Transfer where
  status : STATUS
  sectorsRead : WORD
  deriving DecidableEq, Repr

/-- How each transfer ends, unless an `ASSERT` fails in it. -/
abbrev Controller := ℕ → Option Transfer

def ataReadWriteSectors (c : Controller) : IoM Transfer := fun n =>
  match c n with
  | none => .error .dispatchAssert
  | some transfer => .ok (transfer, n + 1)

def ataCheckAlignment (size offset : QWORD) : STATUS :=
  if ¬isAddressAligned size sectorSize then statusDeviceDataAlignmentError
  else if ¬isAddressAligned offset sectorSize then statusDeviceDataAlignmentError
  else statusSuccess

def lba48MaxValue : QWORD := 0xFFFFFFFFFFFF

def ataCheckIoParameters (a : AtaDevice) (sectorIndex : QWORD) (sectorCount : WORD) : STATUS :=
  if ¬a.initialized then statusDeviceNotInitialized
  else if sectorIndex ≥ a.totalSectors then statusDeviceSectorOffsetExceeded
  else if sectorIndex ≥ lba48MaxValue then statusDeviceSectorOffsetExceeded
  else if a.totalSectors - sectorIndex < sectorCount.setWidth 64 then statusDeviceSectorCountExceeded
  else statusSuccess

def maxWord : QWORD := 0xFFFF

/-- The guarded block of `AtaDispatchReadWrite`. -/
def ataTransfer (c : Controller) (a : AtaDevice) (sizeInBytes offset : QWORD) : IoM Transfer :=
  let aligned := ataCheckAlignment sizeInBytes offset
  let sectorIndex := offset / sectorSize
  let sectorCount := sizeInBytes / sectorSize
  let valid := ataCheckIoParameters a sectorIndex (sectorCount.setWidth 16)
  if ¬succeeded aligned then return ⟨aligned, 0⟩
  else if sectorCount > maxWord then return ⟨statusDeviceSectorCountExceeded, 0⟩
  else if ¬succeeded valid then return ⟨valid, 0⟩
  else ataReadWriteSectors c

def ataDispatchReadWrite (c : Controller) (a : AtaDevice) (irp : Irp) : IoM (STATUS × Irp) := do
  let location ← ioGetCurrentIrpStackLocation irp
  dispatchAssert location.majorFunction.isReadWrite
  let transfer ← ataTransfer c a location.length location.offset
  let irp ← ioCompleteIrp .ata
    (irp.setIoStatus .ata transfer.status (transfer.sectorsRead.setWidth 64 * sectorSize))
  return (statusSuccess, irp)

def ataDispatchDeviceControl (a : AtaDevice) (irp : Irp) : IoM (STATUS × Irp) := do
  let location ← ioGetCurrentIrpStackLocation irp
  dispatchAssert (location.majorFunction = .deviceControl)
  if location.ioControlCode = ioctlDiskGetLengthInfo then
    let information : DWORD := 8
    if location.outputBufferLength < information then
      return (statusSuccess, irp.setIoStatus .ata statusBufferTooSmall (information.setWidth 64))
    else
      let result := OutputBuffer.lengthInformation (a.totalSectors * sectorSize)
      return (statusSuccess,
        { irp with output := result }.setIoStatus .ata statusSuccess (information.setWidth 64))
  else return (statusSuccess, irp.setIoStatus .ata statusUnsupported 0)

def ataDispatchFunctions (c : Controller) (a : AtaDevice) : MajorFunction → Option Dispatch
  | .read => some (ataDispatchReadWrite c a)
  | .write => some (ataDispatchReadWrite c a)
  | .deviceControl => some (ataDispatchDeviceControl a)
  | _ => none

def ataDeviceObject (c : Controller) (a : AtaDevice) : DeviceObject :=
  ioCreateDevice .ata sectorSize (ataDispatchFunctions c a)

/-! ### Disks -/

structure DiskObject where
  diskDeviceController : AtaDevice
  partitions : List PartitionInformation
  deriving DecidableEq, Repr

def diskDispatchReadWrite (diskDeviceController : DeviceObject) (irp : Irp) :
    IoM (STATUS × Irp) := do
  let irp ← ioCopyCurrentStackLocationToNext irp
  ioCallDriver diskDeviceController irp

def diskDispatchDeviceControl (d : DiskObject) (irp : Irp) : IoM (STATUS × Irp) := do
  let location ← ioGetCurrentIrpStackLocation irp
  dispatchAssert (location.majorFunction = .deviceControl)
  let information := BitVec.ofNat 32 (8 + d.partitions.length * 24)
  if location.ioControlCode = ioctlDiskLayoutInfo then
    if location.outputBufferLength < information then
      return (statusSuccess, irp.setIoStatus .disk statusBufferTooSmall (information.setWidth 64))
    else
      return (statusSuccess, { irp with output := .diskLayout d.partitions }.setIoStatus .disk
        statusSuccess (information.setWidth 64))
  else return (statusSuccess, irp.setIoStatus .disk statusUnsupported (information.setWidth 64))

def diskDispatchFunctions (diskDeviceController : DeviceObject) (d : DiskObject) :
    MajorFunction → Option Dispatch
  | .read => some (diskDispatchReadWrite diskDeviceController)
  | .write => some (diskDispatchReadWrite diskDeviceController)
  | .deviceControl => some (diskDispatchDeviceControl d)
  | _ => none

def diskDeviceObject (c : Controller) (d : DiskObject) : DeviceObject :=
  let controller := ataDeviceObject c d.diskDeviceController
  ioAttachDevice (ioCreateDevice .disk controller.deviceAlignment (diskDispatchFunctions controller d))
    controller

/-! ### Volumes -/

structure VolumeObject where
  diskDevice : DiskObject
  partition : PartitionInformation
  deriving DecidableEq, Repr

def volCheckIoParameters (v : VolumeObject) (sectorIndex sectorCount : QWORD) : STATUS :=
  if sectorIndex ≥ v.partition.partitionSize then statusDeviceSectorOffsetExceeded
  else if v.partition.partitionSize - sectorIndex < sectorCount then statusDeviceSectorCountExceeded
  else statusSuccess

/-- The offset of a location is made relative to the disk. -/
def VolumeObject.diskLocation (v : VolumeObject) (location : IoStackLocation) : IoStackLocation :=
  { location with
    offset := (location.offset / sectorSize + v.partition.offsetInDisk) * sectorSize }

/-- The guarded block of `VolDispatchReadWrite`. -/
def volReadWrite (diskDevice : DeviceObject) (v : VolumeObject) (location : IoStackLocation)
    (irp : Irp) : IoM (STATUS × Irp) :=
  let status := volCheckIoParameters v (location.offset / sectorSize) (location.length / sectorSize)
  if ¬succeeded status then return (status, irp)
  else do
    let irp ← ioCopyCurrentStackLocationToNext irp
    let irp ← ioSetNextIrpStackLocation irp fun l =>
      { l with offset := (v.diskLocation location).offset }
    ioCallDriver diskDevice irp

def volDispatchReadWrite (diskDevice : DeviceObject) (v : VolumeObject) (irp : Irp) :
    IoM (STATUS × Irp) := do
  let location ← ioGetCurrentIrpStackLocation irp
  dispatchAssert location.majorFunction.isReadWrite
  let (status, irp) ← volReadWrite diskDevice v location irp
  if succeeded status then return (statusSuccess, irp)
  else
    let irp ← ioCompleteIrp .volume (irp.setStatus .volume status)
    return (statusSuccess, irp)

/-- `IoStatus` is set after the completion. -/
def volDispatchDeviceControl (v : VolumeObject) (irp : Irp) : IoM (STATUS × Irp) := do
  let location ← ioGetCurrentIrpStackLocation irp
  dispatchAssert (location.majorFunction = .deviceControl)
  if location.ioControlCode = ioctlVolumePartitionInfo then
    let information : DWORD := 24
    if location.outputBufferLength < information then
      let irp ← ioCompleteIrp .volume irp
      return (statusSuccess, irp.setIoStatus .volume statusBufferTooSmall (information.setWidth 64))
    else
      let irp ← ioCompleteIrp .volume { irp with output := .partitionInformation v.partition }
      return (statusSuccess, irp.setIoStatus .volume statusSuccess (information.setWidth 64))
  else
    let irp ← ioCompleteIrp .volume irp
    return (statusSuccess, irp.setIoStatus .volume statusUnsupported 0)

def volDispatchFunctions (diskDevice : DeviceObject) (v : VolumeObject) :
    MajorFunction → Option Dispatch
  | .read => some (volDispatchReadWrite diskDevice v)
  | .write => some (volDispatchReadWrite diskDevice v)
  | .deviceControl => some (volDispatchDeviceControl v)
  | _ => none

def volumeDeviceObject (c : Controller) (v : VolumeObject) : DeviceObject :=
  let disk := diskDeviceObject c v.diskDevice
  ioAttachDevice (ioCreateDevice .volume disk.deviceAlignment (volDispatchFunctions disk v)) disk

/-! ### FAT32 -/

/-- A run of a function of `fat_operations.c`: the requests it makes to the volume, each chosen
after the status and the length the one before has returned. -/
inductive FatOperation (α : Type)
  | done (result : α)
  | assertFails
  | readWriteDevice (write asynchronous : Bool) (length offset : QWORD)
      (next : STATUS → QWORD → FatOperation α)

def FatOperation.run {α : Type} (volumeDevice : DeviceObject) : FatOperation α → IoM α
  | .done result => return result
  | .assertFails => fault .dispatchAssert
  | .readWriteDevice write asynchronous length offset next => do
    let (status, length) ← ioReadWriteDevice volumeDevice length offset write asynchronous
    (next status length).run volumeDevice

/-- A mounted FAT32 volume with the functions of `fat_operations.c` and whether there is memory
for an FCB. -/
structure FatDevice where
  volumeDevice : VolumeObject
  bytesPerSector : QWORD
  fcbAllocated : Bool
  fatCreateDirectoryEntry (fileName : String) (isDirectory : Bool) : FatOperation STATUS
  fatSearch (fileName : String) (isDirectory : Bool) : FatOperation (STATUS × Fcb)
  fatReadWriteFile (write : Bool) (fcb : Fcb) (sectorOffset sectors : QWORD) (asynchronous : Bool) :
    FatOperation (STATUS × QWORD)
  fatQueryDirectory (fileOffsetInVolume : QWORD) (length : DWORD) : FatOperation (STATUS × DWORD)

def requireSome {α : Type} : Option α → IoM α
  | none => fault .dispatchAssert
  | some a => return a

def fatCreateEntry (volumeDevice : DeviceObject) (f : FatDevice) (file : FsFileObject) : IoM STATUS :=
  if file.create then
    (f.fatCreateDirectoryEntry file.fileName file.directoryFile).run volumeDevice
  else return statusSuccess

/-- The guarded block of `_FatDispatchCreate`. -/
def fatCreate (volumeDevice : DeviceObject) (f : FatDevice) (file : FsFileObject) :
    IoM (STATUS × FsFileObject) := do
  let created ← fatCreateEntry volumeDevice f file
  if ¬succeeded created then return (created, file)
  else
    let (status, fcb) ← (f.fatSearch file.fileName file.directoryFile).run volumeDevice
    if ¬succeeded status then return (status, file)
    else if ¬f.fcbAllocated then return (status, file)
    else
      return (status, { file with
        fileSize := fcb.fileInformation.fileSize
        fsContext2 := some fcb })

def fatDispatchCreate (volumeDevice : DeviceObject) (f : FatDevice) (irp : Irp) :
    IoM (STATUS × Irp) := do
  let location ← ioGetCurrentIrpStackLocation irp
  dispatchAssert (location.majorFunction = .create)
  let file ← requireSome location.fileObject
  dispatchAssert (file.hasRelatedFileObject = false)
  let (status, file) ← fatCreate volumeDevice f file
  let irp ← ioCompleteIrp .fat32 ((irp.setFileObject file).setIoStatus .fat32 status 0)
  return (statusSuccess, irp)

def fatDispatchClose (irp : Irp) : IoM (STATUS × Irp) := do
  let location ← ioGetCurrentIrpStackLocation irp
  dispatchAssert (location.majorFunction = .close)
  let file ← requireSome location.fileObject
  let _ ← requireSome file.fsContext2
  let irp := irp.setFileObject { file with fsContext2 := none }
  let irp ← ioCompleteIrp .fat32 (irp.setStatus .fat32 statusSuccess)
  return (statusSuccess, irp)

def fatDispatchReadWrite (volumeDevice : DeviceObject) (f : FatDevice) (irp : Irp) :
    IoM (STATUS × Irp) := do
  let location ← ioGetCurrentIrpStackLocation irp
  dispatchAssert location.majorFunction.isReadWrite
  let file ← requireSome location.fileObject
  let fcb ← requireSome file.fsContext2
  dispatchAssert (fcb.fileOffsetInVolume ≤ maxDword.setWidth 64)
  dispatchAssert (location.offset ≤ maxDword.setWidth 64)
  dispatchAssert (location.length ≤ maxDword.setWidth 64)
  let (status, sectorsReadOrWritten) ←
    (f.fatReadWriteFile (location.majorFunction = .write) fcb (location.offset / f.bytesPerSector)
      (location.length / f.bytesPerSector) irp.asynchronous).run volumeDevice
  let irp ← ioCompleteIrp .fat32
    (irp.setIoStatus .fat32 status (sectorsReadOrWritten * f.bytesPerSector))
  return (statusSuccess, irp)

/-- The guarded block of `_FatDispatchQueryInformation`. -/
def fatQueryInformation (location : IoStackLocation) (information : DWORD) (irp : Irp) :
    IoM (STATUS × Irp) :=
  if location.queryLength < information then return (statusBufferTooSmall, irp)
  else do
    let file ← requireSome location.fileObject
    let fcb ← requireSome file.fsContext2
    return (statusSuccess, { irp with output := .fileInformation fcb.fileInformation })

def sizeofFileInformation : DWORD := 32

def fatDispatchQueryInformation (irp : Irp) : IoM (STATUS × Irp) := do
  let location ← ioGetCurrentIrpStackLocation irp
  dispatchAssert (location.majorFunction = .queryInformation)
  dispatchAssert (location.minorFunction = 0)
  let (status, irp) ← fatQueryInformation location sizeofFileInformation irp
  let irp ← ioCompleteIrp .fat32
    (irp.setIoStatus .fat32 status (sizeofFileInformation.setWidth 64))
  return (statusSuccess, irp)

/-- The guarded block of `_FatDispatchDirectoryControl`. -/
def fatDirectoryControl (volumeDevice : DeviceObject) (f : FatDevice) (location : IoStackLocation)
    (file : FsFileObject) : IoM (STATUS × DWORD) :=
  if ¬file.directoryFile then return (statusFileNotDirectory, 0)
  else do
    let fcb ← requireSome file.fsContext2
    let (status, information) ←
      (f.fatQueryDirectory fcb.fileOffsetInVolume location.queryLength).run volumeDevice
    if ¬succeeded status then return (status, information)
    else if information > location.queryLength then return (statusBufferTooSmall, information)
    else return (status, information)

def fatDispatchDirectoryControl (volumeDevice : DeviceObject) (f : FatDevice) (irp : Irp) :
    IoM (STATUS × Irp) := do
  let location ← ioGetCurrentIrpStackLocation irp
  dispatchAssert (location.majorFunction = .directoryControl)
  dispatchAssert (location.minorFunction = 0)
  let file ← requireSome location.fileObject
  let (status, information) ← fatDirectoryControl volumeDevice f location file
  let irp ← ioCompleteIrp .fat32 (irp.setIoStatus .fat32 status (information.setWidth 64))
  return (statusSuccess, irp)

def fatDispatchFunctions (volumeDevice : DeviceObject) (f : FatDevice) :
    MajorFunction → Option Dispatch
  | .create => some (fatDispatchCreate volumeDevice f)
  | .close => some fatDispatchClose
  | .read => some (fatDispatchReadWrite volumeDevice f)
  | .write => some (fatDispatchReadWrite volumeDevice f)
  | .queryInformation => some fatDispatchQueryInformation
  | .directoryControl => some (fatDispatchDirectoryControl volumeDevice f)
  | .deviceControl => none

def fatDeviceObject (c : Controller) (f : FatDevice) : DeviceObject :=
  let volume := volumeDeviceObject c f.volumeDevice
  ioAttachDevice (ioCreateDevice .fat32 volume.deviceAlignment (fatDispatchFunctions volume f)) volume

/-! ### SwapFS -/

structure SwapFsDevice where
  volumeDevice : VolumeObject
  fileSystemSize : QWORD
  deriving DecidableEq, Repr

def swapFsCreate (w : SwapFsDevice) (irp : Irp) : IoM (STATUS × Irp) := do
  let location ← ioGetCurrentIrpStackLocation irp
  dispatchAssert (location.majorFunction = .create)
  let file ← requireSome location.fileObject
  dispatchAssert (file.hasRelatedFileObject = false)
  if file.fileName ≠ "\\" then
    let irp ← ioCompleteIrp .swapFs (irp.setIoStatus .swapFs statusFileNotFound 0)
    return (statusSuccess, irp)
  else
    let irp := irp.setFileObject { file with fileSize := w.fileSystemSize }
    let irp ← ioCompleteIrp .swapFs (irp.setIoStatus .swapFs statusSuccess 0)
    return (statusSuccess, irp)

def swapFsClose (irp : Irp) : IoM (STATUS × Irp) := do
  let irp ← ioCompleteIrp .swapFs (irp.setStatus .swapFs statusSuccess)
  return (statusSuccess, irp)

/-- The guarded blocks of `_SwapFsRead` and `_SwapFsWrite`: a page at a time. -/
def swapFsTransfer (volumeDevice : DeviceObject) (write : Bool) (location : IoStackLocation) :
    IoM (STATUS × QWORD) :=
  if location.length ≠ pageSize then return (statusDeviceNotSupported, location.length)
  else ioReadWriteDevice volumeDevice location.length location.offset write false

def swapFsReadWrite (volumeDevice : DeviceObject) (write : Bool) (irp : Irp) :
    IoM (STATUS × Irp) := do
  let location ← ioGetCurrentIrpStackLocation irp
  dispatchAssert (location.majorFunction = if write then .write else .read)
  let (status, bytes) ← swapFsTransfer volumeDevice write location
  let irp ← ioCompleteIrp .swapFs (irp.setIoStatus .swapFs status bytes)
  return (statusSuccess, irp)

def swapFsRead (volumeDevice : DeviceObject) : Dispatch := swapFsReadWrite volumeDevice false

def swapFsWrite (volumeDevice : DeviceObject) : Dispatch := swapFsReadWrite volumeDevice true

def swapFsDispatchFunctions (volumeDevice : DeviceObject) (w : SwapFsDevice) :
    MajorFunction → Option Dispatch
  | .create => some (swapFsCreate w)
  | .close => some swapFsClose
  | .read => some (swapFsRead volumeDevice)
  | .write => some (swapFsWrite volumeDevice)
  | _ => none

def swapFsDeviceObject (c : Controller) (w : SwapFsDevice) : DeviceObject :=
  let volume := volumeDeviceObject c w.volumeDevice
  ioAttachDevice (ioCreateDevice .swapFs pageSize (swapFsDispatchFunctions volume w)) volume

/-! ### Requests -/

/-- The stacks that the drivers build. -/
inductive DeviceStack
  | ata (a : AtaDevice)
  | disk (d : DiskObject)
  | volume (v : VolumeObject)
  | fat32 (f : FatDevice)
  | swapFs (w : SwapFsDevice)

/-- The top device is an ATA device or a disk. -/
def DeviceStack.isDisk : DeviceStack → Bool
  | .ata _ => true
  | .disk _ => true
  | _ => false

def DeviceStack.top (c : Controller) : DeviceStack → DeviceObject
  | .ata a => ataDeviceObject c a
  | .disk d => diskDeviceObject c d
  | .volume v => volumeDeviceObject c v
  | .fat32 f => fatDeviceObject c f
  | .swapFs w => swapFsDeviceObject c w

/-- Allocates an IRP for the device, fills in its next location and calls the driver. -/
def sendRequest (device : DeviceObject) (location : IoStackLocation) (asynchronous : Bool) :
    IoM (STATUS × Irp) := do
  let irp ← ioAllocateIrp device.stackSize
  let irp ← ioSetNextIrpStackLocation irp fun _ => location
  ioCallDriver device { irp with asynchronous := asynchronous }

end HAL9000.Io
