import HAL9000.Io.Irp

/-! The handles of `io_files.c` on FAT volumes, over runs of calls. What a call meets on the volume and in
the heap is an input of each call. -/
namespace HAL9000.Io

open Run

def statusInvalidFileName : STATUS := 0xE8000019
def statusDeviceNoFilesystemMounted : STATUS := 0xE001000B

/-- A `FILE_OBJECT`: what the file systems use of it, and its position. -/
structure FileHandle where
  file : FsFileObject
  position : FileObject
  deriving DecidableEq, Repr

/-- The arguments of `IoCreateFile`, whether the VPB of the drive letter is found and mounted, and whether
there is memory for the file object. -/
structure CreateCall where
  fileName : String
  directory : Bool
  create : Bool
  asynchronous : Bool
  vpb : Option Bool
  fileObjectAllocated : Bool

/-- The file system a call goes to, how the transfers of the disk end, and whether there is memory for an
IRP. -/
structure FileEnvironment where
  controller : Controller
  device : FatDevice
  irpAllocated : Bool

def FileEnvironment.top (e : FileEnvironment) : DeviceObject := fatDeviceObject e.controller e.device

def backslash : Char := Char.ofNat 0x5C

def fileNameMinLen : ℕ := 3

/-- `strrchr` returns the string itself if there is no backslash behind its first character. -/
def ioIsFilePathValid (fileName : String) : Bool :=
  fileNameMinLen ≤ fileName.length ∧ backslash ∈ fileName.toList.drop 1

/-- The file object of `_IoAllocateFileObject`. -/
def CreateCall.fileObject (call : CreateCall) : FsFileObject where
  hasRelatedFileObject := false
  directoryFile := call.directory
  create := call.create
  fileName := String.ofList (call.fileName.toList.drop (fileNameMinLen - 1))
  fileSize := 0
  fsContext2 := none

def createLocation : IoStackLocation := { IoStackLocation.zero with majorFunction := .create }

def closeLocation : IoStackLocation := { IoStackLocation.zero with majorFunction := .close }

def readWriteLocation (call : ReadWriteCall) (fileOffset : QWORD) : IoStackLocation :=
  { IoStackLocation.zero with
    majorFunction := if call.write then .write else .read
    length := call.length
    offset := fileOffset }

def queryLocation : IoStackLocation :=
  { IoStackLocation.zero with
    majorFunction := .queryInformation
    queryLength := sizeofFileInformation }

/-- Sends a request about a file object to the file system. Returns the status of the call or, if that is
a success, of the IRP, what the IRP was completed with, and the file object. -/
def callFileSystem (e : FileEnvironment) (location : IoStackLocation) (file : FsFileObject)
    (asynchronous : Bool) : IoM (STATUS × IoStatusBlock × OutputBuffer × FsFileObject) := do
  let (status, irp) ← sendRequest e.top { location with fileObject := some file } asynchronous
  let status := if succeeded status then irp.ioStatus.status else status
  let pStackLocation := irp.stackLocations (e.top.stackSize.toNat - 1)
  return (status, irp.ioStatus, irp.output, pStackLocation.fileObject.getD file)

def ioCreateFile (e : FileEnvironment) (call : CreateCall) : IoM (STATUS × Option FileHandle) :=
  if ¬ioIsFilePathValid call.fileName then return (statusInvalidFileName, none)
  else
    match call.vpb with
    | none => return (statusDeviceDoesNotExist, none)
    | some mounted =>
      if ¬mounted then return (statusDeviceNoFilesystemMounted, none)
      else if ¬e.irpAllocated then return (statusHeapNoMoreMemory, none)
      else do
        ioAssert call.fileObjectAllocated
        let (status, _, _, file) ← callFileSystem e createLocation call.fileObject false
        return (status, if succeeded status then some ⟨file, ⟨call.asynchronous, 0⟩⟩ else none)

def ioCloseFile (e : FileEnvironment) (handle : FileHandle) : IoM (STATUS × FileHandle) :=
  if ¬e.irpAllocated then return (statusHeapNoMoreMemory, handle)
  else do
    let (status, _, _, file) ← callFileSystem e closeLocation handle.file false
    return (status, { handle with file := file })

/-- `_IoReadWriteFile`. The number of bytes is set, and the position advances, only if the call itself is a
success. -/
def ioReadWriteHandle (e : FileEnvironment) (handle : FileHandle) (call : ReadWriteCall) :
    IoM (STATUS × FileHandle) := do
  ioAssert (handle.position.asynchronous → call.fileOffset.isSome)
  if ¬e.irpAllocated then return (statusHeapNoMoreMemory, handle)
  else
    let (status, ioStatus, _, file) ← callFileSystem e
      (readWriteLocation call (call.fileOffset.getD handle.position.currentByteOffset)) handle.file
      handle.position.asynchronous
    let position := { handle.position with
      currentByteOffset := handle.position.currentByteOffset + ioStatus.information }
    return (status, ⟨file, if succeeded status ∧ ¬handle.position.asynchronous then position
      else handle.position⟩)

/-- `IoGetFileSize`. -/
def ioGetFileSize (handle : FileHandle) : QWORD := handle.file.fileSize

def ioQueryInformationFile (e : FileEnvironment) (handle : FileHandle) :
    IoM (STATUS × OutputBuffer × FileHandle) :=
  if ¬e.irpAllocated then return (statusHeapNoMoreMemory, .unwritten, handle)
  else do
    let (status, _, output, file) ← callFileSystem e queryLocation handle.file false
    return (status, output, { handle with file := file })

/-- The volume that the file system is mounted on. -/
def FileEnvironment.volume (e : FileEnvironment) : DeviceObject :=
  volumeDeviceObject e.controller e.device.volumeDevice

/-! ### What the dispatch routines do to a file object -/

section Dispatch

variable {e : FileEnvironment} {location : IoStackLocation} {file : FsFileObject} {asynchronous : Bool}

theorem ioAssert_of {p : Prop} [Decidable p] (h : p) : ioAssert p = pure () := if_pos h

theorem dispatchAssert_of {p : Prop} [Decidable p] (h : p) : dispatchAssert p = pure () := if_pos h

/-- The IRP that the FAT driver is called with; its stack has four locations. -/
def sentIrp (location : IoStackLocation) (asynchronous : Bool) : Irp where
  ioStatus := ⟨0, 0⟩
  completed := false
  asynchronous := asynchronous
  currentStackLocation := 3
  stackLocations := Function.update (fun _ => IoStackLocation.zero) 3 location
  output := .unwritten
  completions := 0
  completedBy := none
  statusBy := none
  seen := [(.fat32, location)]

theorem getCurrent_sentIrp :
    ioGetCurrentIrpStackLocation (sentIrp location asynchronous) = pure location := by
  have hcurrent : (sentIrp location asynchronous).currentStackLocation = 3 := rfl
  unfold ioGetCurrentIrpStackLocation
  rw [hcurrent, ioAssert_of (by decide : maxByte ≠ (3 : BYTE))]
  rfl

/-- `IoCallDriver` refuses a transfer without the alignment of the device. -/
def Misaligned (e : FileEnvironment) (location : IoStackLocation) : Prop :=
  location.majorFunction.isReadWrite ∧
    (¬isAddressAligned location.length e.top.deviceAlignment ∨
      ¬isAddressAligned location.offset e.top.deviceAlignment)

instance : Decidable (Misaligned e location) := inferInstanceAs (Decidable (_ ∧ _))

theorem sendRequest_fat : sendRequest e.top location asynchronous =
    if Misaligned e location then
      pure (statusDeviceAlignmentNoSatisfied, { sentIrp location asynchronous with seen := [] })
    else
      match e.top.dispatchFunctions location.majorFunction with
      | none => pure (statusDeviceInvalidOperation, { sentIrp location asynchronous with seen := [] })
      | some dispatchFunction =>
        dispatchFunction (sentIrp location asynchronous) >>= fun r =>
          pure (if succeeded r.1 then statusSuccess else r.1, r.2) := by
  have hsize : e.top.stackSize = 4 := rfl
  unfold sendRequest ioAllocateIrp ioSetNextIrpStackLocation ioCallDriver ioGetCurrentIrpStackLocation
  rw [hsize, ioAssert_of (by decide : 0 < (4 : BYTE).toNat)]
  simp only [pure_bind]
  rw [ioAssert_of (by decide : 0 ≠ (4 : BYTE))]
  simp only [Irp.setLocation, pure_bind]
  rw [ioAssert_of (by decide : 0 ≠ (4 : BYTE)), ioAssert_of (by decide : maxByte ≠ (4 : BYTE) - 1)]
  simp only [pure_bind]
  rfl

/-- What a routine that returns success has made of the IRP. -/
def answerOf (file : FsFileObject) (irp : Irp) : STATUS × IoStatusBlock × OutputBuffer × FsFileObject :=
  (irp.ioStatus.status, irp.ioStatus, irp.output, (irp.stackLocations 3).fileObject.getD file)

theorem callFileSystem_eq (h : ¬Misaligned e location) {dispatchFunction : Dispatch}
    (hg : e.top.dispatchFunctions location.majorFunction = some dispatchFunction) {x : IoM Irp}
    (hx : dispatchFunction (sentIrp { location with fileObject := some file } asynchronous) =
      x >>= fun irp => pure (statusSuccess, irp)) :
    callFileSystem e location file asynchronous = x >>= fun irp => pure (answerOf file irp) := by
  have hmis : ¬Misaligned e { location with fileObject := some file } := h
  unfold callFileSystem
  rw [sendRequest_fat, if_neg hmis]
  dsimp only
  rw [hg]
  dsimp only
  rw [hx]
  simp only [bind_assoc, pure_bind]
  rfl

def Irp.complete (irp : Irp) (driver : Driver) : Irp :=
  { irp with
    completed := true
    completions := irp.completions + 1
    completedBy := some driver }

theorem ioCompleteIrp_of {driver : Driver} {irp : Irp} (h : irp.completed = false) :
    ioCompleteIrp driver irp = pure (irp.complete driver) := by
  unfold ioCompleteIrp
  rw [ioAssert_of h]
  rfl

section Sent

variable (hfile : location.fileObject = some file)

include hfile

theorem fatDispatchCreate_sent (hmajor : location.majorFunction = .create)
    (hrelated : file.hasRelatedFileObject = false) :
    fatDispatchCreate e.volume e.device (sentIrp location asynchronous) =
      (fatCreate e.volume e.device file >>= fun r => pure ((((sentIrp location asynchronous).setFileObject
        r.2).setIoStatus .fat32 r.1 0).complete .fat32)) >>= fun irp => pure (statusSuccess, irp) := by
  unfold fatDispatchCreate
  rw [getCurrent_sentIrp]
  simp only [pure_bind]
  rw [dispatchAssert_of hmajor, hfile]
  simp only [requireSome, pure_bind]
  rw [dispatchAssert_of hrelated]
  simp only [pure_bind, bind_assoc]
  refine congrArg (fatCreate e.volume e.device file >>= ·) (funext fun r => ?_)
  rw [ioCompleteIrp_of rfl, pure_bind]

theorem fatDispatchClose_sent (hmajor : location.majorFunction = .close) :
    fatDispatchClose (sentIrp location asynchronous) =
      (requireSome file.fsContext2 >>= fun _ => pure ((((sentIrp location asynchronous).setFileObject
        { file with fsContext2 := none }).setStatus .fat32 statusSuccess).complete .fat32)) >>=
          fun irp => pure (statusSuccess, irp) := by
  unfold fatDispatchClose
  rw [getCurrent_sentIrp]
  simp only [pure_bind]
  rw [dispatchAssert_of hmajor, hfile]
  simp only [requireSome, pure_bind, bind_assoc]
  refine congrArg (requireSome file.fsContext2 >>= ·) (funext fun _ => ?_)
  rw [ioCompleteIrp_of rfl, pure_bind]

theorem fatDispatchQueryInformation_sent (hmajor : location.majorFunction = .queryInformation)
    (hminor : location.minorFunction = 0) (hlength : ¬location.queryLength < sizeofFileInformation) :
    fatDispatchQueryInformation (sentIrp location asynchronous) =
      (requireSome file.fsContext2 >>= fun fcb => pure (({ sentIrp location asynchronous with
        output := .fileInformation fcb.fileInformation }.setIoStatus .fat32 statusSuccess
          (sizeofFileInformation.setWidth 64)).complete .fat32)) >>= fun irp => pure (statusSuccess, irp) := by
  unfold fatDispatchQueryInformation fatQueryInformation
  rw [getCurrent_sentIrp]
  simp only [pure_bind]
  rw [dispatchAssert_of hmajor]
  simp only [pure_bind]
  rw [dispatchAssert_of hminor, if_neg hlength, hfile]
  simp only [requireSome, pure_bind, bind_assoc]
  refine congrArg (requireSome file.fsContext2 >>= ·) (funext fun fcb => ?_)
  rw [ioCompleteIrp_of rfl, pure_bind]

theorem fatDispatchReadWrite_sent (hmajor : location.majorFunction.isReadWrite = true) :
    fatDispatchReadWrite e.volume e.device (sentIrp location asynchronous) =
      (requireSome file.fsContext2 >>= fun fcb => do
        dispatchAssert (fcb.fileOffsetInVolume ≤ maxDword.setWidth 64)
        dispatchAssert (location.offset ≤ maxDword.setWidth 64)
        dispatchAssert (location.length ≤ maxDword.setWidth 64)
        let (status, sectors) ← (e.device.fatReadWriteFile (location.majorFunction = .write) fcb
          (location.offset / e.device.bytesPerSector) (location.length / e.device.bytesPerSector)
          asynchronous).run e.volume
        pure (((sentIrp location asynchronous).setIoStatus .fat32 status
          (sectors * e.device.bytesPerSector)).complete .fat32)) >>=
            fun irp => pure (statusSuccess, irp) := by
  unfold fatDispatchReadWrite
  rw [getCurrent_sentIrp]
  simp only [pure_bind]
  rw [dispatchAssert_of hmajor, hfile]
  simp only [requireSome, pure_bind, bind_assoc]
  refine congrArg (requireSome file.fsContext2 >>= ·) (funext fun fcb => ?_)
  refine congrArg (dispatchAssert _ >>= ·) (funext fun _ => ?_)
  refine congrArg (dispatchAssert _ >>= ·) (funext fun _ => ?_)
  refine congrArg (dispatchAssert _ >>= ·) (funext fun _ => ?_)
  refine congrArg (_ >>= ·) (funext fun r => ?_)
  rw [ioCompleteIrp_of rfl, pure_bind]

end Sent

theorem callFileSystem_create (hrelated : file.hasRelatedFileObject = false) :
    callFileSystem e createLocation file asynchronous =
      fatCreate e.volume e.device file >>= fun r => pure (r.1, ⟨r.1, 0⟩, .unwritten, r.2) := by
  have hmis : ¬Misaligned e createLocation := fun hmis => absurd hmis.1 (by decide)
  rw [callFileSystem_eq hmis rfl (fatDispatchCreate_sent rfl rfl hrelated)]
  simp only [bind_assoc, pure_bind]
  rfl

theorem callFileSystem_close :
    callFileSystem e closeLocation file asynchronous =
      requireSome file.fsContext2 >>= fun _ =>
        pure (statusSuccess, ⟨statusSuccess, 0⟩, .unwritten, { file with fsContext2 := none }) := by
  have hmis : ¬Misaligned e closeLocation := fun hmis => absurd hmis.1 (by decide)
  rw [callFileSystem_eq hmis rfl (fatDispatchClose_sent rfl rfl)]
  simp only [bind_assoc, pure_bind]
  rfl

theorem callFileSystem_query :
    callFileSystem e queryLocation file asynchronous =
      requireSome file.fsContext2 >>= fun fcb =>
        pure (statusSuccess, ⟨statusSuccess, sizeofFileInformation.setWidth 64⟩,
          .fileInformation fcb.fileInformation, file) := by
  have hmis : ¬Misaligned e queryLocation := fun hmis => absurd hmis.1 (by decide)
  rw [callFileSystem_eq hmis rfl (fatDispatchQueryInformation_sent rfl rfl rfl (BitVec.lt_irrefl _))]
  simp only [bind_assoc, pure_bind]
  rfl

/-- A read or write needs the file control block, and leaves the file object as it is. -/
theorem callFileSystem_readWrite (call : ReadWriteCall) (fileOffset : QWORD) :
    ∃ x : Fcb → IoM (STATUS × IoStatusBlock × OutputBuffer),
      callFileSystem e (readWriteLocation call fileOffset) file asynchronous =
        if Misaligned e (readWriteLocation call fileOffset) then
          pure (statusDeviceAlignmentNoSatisfied, ⟨0, 0⟩, .unwritten, file)
        else requireSome file.fsContext2 >>= fun fcb => x fcb >>= fun r => pure (r.1, r.2.1, r.2.2, file) := by
  refine ⟨fun fcb => do
    dispatchAssert (fcb.fileOffsetInVolume ≤ maxDword.setWidth 64)
    dispatchAssert (fileOffset ≤ maxDword.setWidth 64)
    dispatchAssert (call.length ≤ maxDword.setWidth 64)
    let (status, sectors) ← (e.device.fatReadWriteFile
      ((readWriteLocation call fileOffset).majorFunction = .write) fcb
      (fileOffset / e.device.bytesPerSector) (call.length / e.device.bytesPerSector)
      asynchronous).run e.volume
    pure (status, ⟨status, sectors * e.device.bytesPerSector⟩, .unwritten), ?_⟩
  by_cases hmis : Misaligned e (readWriteLocation call fileOffset)
  · rw [if_pos hmis]
    have hmis' : Misaligned e { readWriteLocation call fileOffset with fileObject := some file } := hmis
    unfold callFileSystem
    rw [sendRequest_fat, if_pos hmis', pure_bind]
    rfl
  · rw [if_neg hmis]
    have hdispatch : e.top.dispatchFunctions (readWriteLocation call fileOffset).majorFunction =
        some (fatDispatchReadWrite e.volume e.device) := by
      cases hwrite : call.write <;> simp only [readWriteLocation, hwrite] <;> rfl
    have hmajor : (readWriteLocation call fileOffset).majorFunction.isReadWrite = true := by
      cases hwrite : call.write <;> simp only [readWriteLocation, hwrite] <;> rfl
    rw [callFileSystem_eq hmis hdispatch (fatDispatchReadWrite_sent rfl hmajor)]
    simp only [bind_assoc, pure_bind]
    rfl

end Dispatch

/-! ### Runs of calls -/

inductive FileCall
  | create (call : CreateCall)
  | readWrite (handle : ℕ) (call : ReadWriteCall)
  | queryInformation (handle : ℕ)
  | close (handle : ℕ)

structure HandleLabel where
  call : FileCall
  environment : FileEnvironment

/-- What a call returns, unless an assertion fails in it. -/
def returned {α : Type} (x : IoM α) : Option α :=
  match x 0 with
  | .ok (a, _) => some a
  | .error _ => none

/-- The open handles after a call that returns. -/
def nextHandles (handles : List FileHandle) (a : HandleLabel) : Option (List FileHandle) :=
  match a.call with
  | .create call =>
    (returned (ioCreateFile a.environment call)).map fun r => handles ++ r.2.toList
  | .readWrite i call =>
    handles[i]?.bind fun handle => (returned (ioReadWriteHandle a.environment handle call)).map
      fun r => handles.set i r.2
  | .queryInformation i =>
    handles[i]?.bind fun handle => (returned (ioQueryInformationFile a.environment handle)).map
      fun r => handles.set i r.2.2
  | .close i =>
    handles[i]?.bind fun handle => (returned (ioCloseFile a.environment handle)).map
      fun r => if succeeded r.1 then handles.eraseIdx i else handles.set i r.2

def HandleStep (handles : List FileHandle) (a : HandleLabel) (handles' : List FileHandle) : Prop :=
  nextHandles handles a = some handles'

/-- The `ASSERT` that `FsContext2` is not `NULL` holds for every open handle. -/
def Usable (handles : List FileHandle) : Prop := ∀ handle ∈ handles, handle.file.fsContext2 ≠ none

/-- `_FatDispatchCreate` comes to the allocation of the file control block. -/
structure ReachesFcb (e : FileEnvironment) (call : CreateCall) : Prop where
  path : ioIsFilePathValid call.fileName = true
  mounted : call.vpb = some true
  irp : e.irpAllocated = true
  fileObject : call.fileObjectAllocated = true
  found : ∃ created n status fcb n',
    fatCreateEntry e.volume e.device call.fileObject 0 = .ok (created, n) ∧ succeeded created = true ∧
      (e.device.fatSearch call.fileObject.fileName call.directory).run e.volume n =
        .ok ((status, fcb), n') ∧ succeeded status = true

/-- The allocation of a file control block does not fail. -/
def FcbAllocated (a : HandleLabel) : Prop :=
  ∀ call, a.call = .create call → ReachesFcb a.environment call → a.environment.device.fcbAllocated = true

section Returned

variable {α β : Type} {x : IoM α} {f : α → IoM β} {b : β}

theorem returned_map {g : α → β} : returned (x >>= fun a => pure (g a)) = (returned x).map g := by
  have hrun : (x >>= fun a => pure (g a)) 0 = Except.bind (x 0) fun r => .ok (g r.1, r.2) := rfl
  unfold returned
  rw [hrun]
  cases x 0 <;> rfl

theorem returned_ioAssert {p : Prop} [Decidable p] :
    returned (ioAssert p >>= fun _ => x) = if p then returned x else none := by
  unfold ioAssert
  split_ifs
  · rw [pure_bind]
  · rfl

end Returned

/-- What the allocation of the file control block makes of the file object. -/
def allocateFcb (f : FatDevice) (file : FsFileObject) (fcb : Fcb) : FsFileObject :=
  if f.fcbAllocated then { file with
    fileSize := fcb.fileInformation.fileSize
    fsContext2 := some fcb }
  else file

section Create

variable {volumeDevice : DeviceObject} {f : FatDevice} {file file' : FsFileObject} {created status : STATUS}
  {fcb : Fcb} {n n' : ℕ}

theorem fatCreate_of_found (hentry : fatCreateEntry volumeDevice f file 0 = .ok (created, n))
    (hcreated : succeeded created = true)
    (hsearch : (f.fatSearch file.fileName file.directoryFile).run volumeDevice n = .ok ((status, fcb), n'))
    (hstatus : succeeded status = true) :
    fatCreate volumeDevice f file 0 = .ok ((status, allocateFcb f file fcb), n') := by
  have hrun : fatCreate volumeDevice f file 0 =
      Except.bind (fatCreateEntry volumeDevice f file 0) fun r =>
        (if ¬succeeded r.1 then pure (r.1, file)
        else (f.fatSearch file.fileName file.directoryFile).run volumeDevice >>= fun q =>
          if ¬succeeded q.1 then pure (q.1, file)
          else if ¬f.fcbAllocated then pure (q.1, file)
          else pure (q.1, { file with
            fileSize := q.2.fileInformation.fileSize
            fsContext2 := some q.2 }) : IoM (STATUS × FsFileObject)) r.2 := rfl
  have hbound : ∀ g : STATUS × Fcb → IoM (STATUS × FsFileObject),
      ((f.fatSearch file.fileName file.directoryFile).run volumeDevice >>= g) n = g (status, fcb) n' := by
    intro g
    change Except.bind ((f.fatSearch file.fileName file.directoryFile).run volumeDevice n) _ = _
    rw [hsearch]
    rfl
  rw [hrun, hentry]
  dsimp only [Except.bind]
  rw [if_neg (not_not.mpr hcreated), hbound, if_neg (not_not.mpr hstatus)]
  unfold allocateFcb
  by_cases hallocated : f.fcbAllocated = true
  · rw [if_neg (not_not.mpr hallocated), if_pos hallocated]
    rfl
  · rw [if_pos hallocated, if_neg hallocated]
    rfl

/-- A success has come to the allocation. -/
theorem found_of_fatCreate (h : fatCreate volumeDevice f file 0 = .ok ((status, file'), n'))
    (hstatus : succeeded status = true) :
    ∃ created n fcb n', fatCreateEntry volumeDevice f file 0 = .ok (created, n) ∧
      succeeded created = true ∧
      (f.fatSearch file.fileName file.directoryFile).run volumeDevice n = .ok ((status, fcb), n') := by
  change Except.bind (fatCreateEntry volumeDevice f file 0) _ = _ at h
  cases hentry : fatCreateEntry volumeDevice f file 0 with
  | error e =>
    rw [hentry] at h
    cases h
  | ok r =>
    obtain ⟨created, n⟩ := r
    rw [hentry] at h
    dsimp only [Except.bind] at h
    by_cases hcreated : succeeded created = true
    · rw [if_neg (not_not.mpr hcreated)] at h
      change Except.bind ((f.fatSearch file.fileName file.directoryFile).run volumeDevice n) _ = _ at h
      cases hsearch : (f.fatSearch file.fileName file.directoryFile).run volumeDevice n with
      | error e =>
        rw [hsearch] at h
        cases h
      | ok q =>
        obtain ⟨⟨found, fcb⟩, n''⟩ := q
        rw [hsearch] at h
        dsimp only [Except.bind] at h
        have hfound : found = status := by
          split_ifs at h <;> cases h <;> rfl
        exact ⟨created, n, fcb, n'', rfl, hcreated, hfound ▸ hsearch⟩
    · rw [if_pos hcreated] at h
      cases h
      exact absurd hstatus hcreated

end Create

section Steps

variable {e : FileEnvironment} {call : CreateCall} {handle : FileHandle} {status : STATUS}
  {handles handles' : List FileHandle} {a : HandleLabel}

theorem ioCreateFile_eq (hpath : ioIsFilePathValid call.fileName = true) (hvpb : call.vpb = some true)
    (hirp : e.irpAllocated = true) (hfile : call.fileObjectAllocated = true) :
    ioCreateFile e call = fatCreate e.volume e.device call.fileObject >>= fun r =>
      pure (r.1, if succeeded r.1 then some ⟨r.2, ⟨call.asynchronous, 0⟩⟩ else none) := by
  unfold ioCreateFile
  rw [if_neg (not_not.mpr hpath), hvpb]
  dsimp only
  rw [if_neg (by simp), if_neg (not_not.mpr hirp), ioAssert_of hfile, callFileSystem_create rfl]
  simp only [pure_bind, bind_assoc]

theorem ioCreateFile_of_reaches (h : ReachesFcb e call) :
    ∃ status fcb, returned (ioCreateFile e call) = some (status, some
      ⟨allocateFcb e.device call.fileObject fcb, ⟨call.asynchronous, 0⟩⟩) := by
  obtain ⟨created, n, status, fcb, n', hentry, hcreated, hsearch, hstatus⟩ := h.found
  have hrun := fatCreate_of_found hentry hcreated hsearch hstatus
  refine ⟨status, fcb, ?_⟩
  rw [ioCreateFile_eq h.path h.mounted h.irp h.fileObject, returned_map]
  unfold returned
  rw [hrun]
  dsimp only [Option.map]
  rw [if_pos hstatus]

theorem reaches_of_ioCreateFile (h : returned (ioCreateFile e call) = some (status, some handle)) :
    ReachesFcb e call := by
  by_cases hpath : ioIsFilePathValid call.fileName = true
  swap
  · unfold ioCreateFile at h
    rw [if_pos hpath] at h
    cases h
  by_cases hvpb : call.vpb = some true
  swap
  · unfold ioCreateFile at h
    rw [if_neg (not_not.mpr hpath)] at h
    cases hfound : call.vpb with
    | none =>
      rw [hfound] at h
      cases h
    | some mounted =>
      cases mounted with
      | false =>
        rw [hfound] at h
        cases h
      | true => exact absurd hfound hvpb
  by_cases hirp : e.irpAllocated = true
  swap
  · unfold ioCreateFile at h
    rw [if_neg (not_not.mpr hpath), hvpb] at h
    dsimp only at h
    rw [if_neg (by simp), if_pos hirp] at h
    cases h
  by_cases hfile : call.fileObjectAllocated = true
  swap
  · unfold ioCreateFile at h
    rw [if_neg (not_not.mpr hpath), hvpb] at h
    dsimp only at h
    rw [if_neg (by simp), if_neg (not_not.mpr hirp), returned_ioAssert, if_neg hfile] at h
    cases h
  rw [ioCreateFile_eq hpath hvpb hirp hfile, returned_map] at h
  obtain ⟨⟨status', file⟩, hrun, heq⟩ := Option.map_eq_some_iff.mp h
  have hstatus : succeeded status' = true := by
    by_contra hfail
    rw [if_neg hfail] at heq
    cases heq
  unfold returned at hrun
  cases hcreate : fatCreate e.volume e.device call.fileObject 0 with
  | error e =>
    rw [hcreate] at hrun
    cases hrun
  | ok q =>
    obtain ⟨⟨status'', file'⟩, n'⟩ := q
    rw [hcreate] at hrun
    cases hrun
    obtain ⟨created, n, fcb, n', hentry, hcreated, hsearch⟩ := found_of_fatCreate hcreate hstatus
    exact ⟨hpath, hvpb, hirp, hfile, created, n, _, fcb, n', hentry, hcreated, hsearch, hstatus⟩

theorem returned_requireSome {α : Type} {x : Fcb → IoM α} {o : Option Fcb} :
    returned (requireSome o >>= x) = o.bind fun fcb => returned (x fcb) := by
  cases o with
  | none => rfl
  | some fcb => rfl

/-- Reads, writes and queries leave the file object as it is. -/
theorem file_of_readWrite {readWrite : ReadWriteCall} {handle' : FileHandle}
    (h : returned (ioReadWriteHandle e handle readWrite) = some (status, handle')) :
    handle'.file = handle.file := by
  obtain ⟨x, hx⟩ := @callFileSystem_readWrite e handle.file handle.position.asynchronous readWrite
    (readWrite.fileOffset.getD handle.position.currentByteOffset)
  unfold ioReadWriteHandle at h
  rw [returned_ioAssert, hx] at h
  by_cases hoffset : handle.position.asynchronous = true → readWrite.fileOffset.isSome = true
  swap
  · rw [if_neg hoffset] at h
    cases h
  rw [if_pos hoffset] at h
  by_cases hirp : ¬e.irpAllocated = true
  · rw [if_pos hirp] at h
    cases h
    rfl
  rw [if_neg hirp] at h
  by_cases hmis : Misaligned e (readWriteLocation readWrite
      (readWrite.fileOffset.getD handle.position.currentByteOffset))
  · rw [if_pos hmis] at h
    cases h
    rfl
  · rw [if_neg hmis] at h
    simp only [bind_assoc, pure_bind] at h
    rw [returned_requireSome] at h
    obtain ⟨fcb, -, h⟩ := Option.bind_eq_some_iff.mp h
    rw [returned_map] at h
    obtain ⟨r, -, heq⟩ := Option.map_eq_some_iff.mp h
    cases heq
    rfl

theorem file_of_query {output : OutputBuffer} {handle' : FileHandle}
    (h : returned (ioQueryInformationFile e handle) = some (status, output, handle')) :
    handle'.file = handle.file := by
  unfold ioQueryInformationFile at h
  rw [callFileSystem_query] at h
  by_cases hirp : ¬e.irpAllocated = true
  · rw [if_pos hirp] at h
    cases h
    rfl
  · rw [if_neg hirp] at h
    simp only [bind_assoc, pure_bind] at h
    rw [returned_requireSome] at h
    obtain ⟨fcb, -, h⟩ := Option.bind_eq_some_iff.mp h
    cases h
    rfl

/-- A file that is not closed is as it was. -/
theorem file_of_close {handle' : FileHandle}
    (h : returned (ioCloseFile e handle) = some (status, handle')) (hfail : ¬succeeded status = true) :
    handle' = handle := by
  unfold ioCloseFile at h
  rw [callFileSystem_close] at h
  by_cases hirp : ¬e.irpAllocated = true
  · rw [if_pos hirp] at h
    cases h
    rfl
  · rw [if_neg hirp] at h
    simp only [bind_assoc, pure_bind] at h
    rw [returned_requireSome] at h
    obtain ⟨fcb, -, h⟩ := Option.bind_eq_some_iff.mp h
    cases h
    exact absurd (by decide) hfail

theorem Usable.set {i : ℕ} {handle' : FileHandle} (h : Usable handles) (hget : handles[i]? = some handle)
    (hfile : handle'.file = handle.file) : Usable (handles.set i handle') := by
  intro other hmem
  rcases List.mem_or_eq_of_mem_set hmem with hold | rfl
  · exact h other hold
  · rw [hfile]
    exact h handle (List.mem_of_getElem? hget)

/-- A call keeps the handles usable exactly if it does not fail to allocate a file control block. -/
theorem usable_iff_of_step (hs : HandleStep handles a handles') (h : Usable handles) :
    Usable handles' ↔ FcbAllocated a := by
  unfold HandleStep nextHandles at hs
  cases hcall : a.call with
  | create call =>
    rw [hcall] at hs
    obtain ⟨⟨status, opened⟩, hrun, rfl⟩ := Option.map_eq_some_iff.mp hs
    have hcondition : FcbAllocated a ↔
        (ReachesFcb a.environment call → a.environment.device.fcbAllocated = true) := by
      unfold FcbAllocated
      rw [hcall]
      exact ⟨fun hall => hall call rfl, fun hone call' heq => FileCall.create.inj heq ▸ hone⟩
    rw [hcondition]
    constructor
    · intro husable hreaches
      obtain ⟨status', fcb, hcreate⟩ := ioCreateFile_of_reaches hreaches
      rw [hrun] at hcreate
      cases hcreate
      by_contra hallocated
      refine husable _ (List.mem_append_right _ (List.mem_singleton_self _)) ?_
      unfold allocateFcb
      rw [if_neg hallocated]
      rfl
    · intro hallocated other hmem
      rcases List.mem_append.mp hmem with hold | hnew
      · exact h other hold
      · obtain rfl : opened = some other := Option.mem_toList.mp hnew
        obtain ⟨status', fcb, hcreate⟩ := ioCreateFile_of_reaches (reaches_of_ioCreateFile hrun)
        rw [hrun] at hcreate
        cases hcreate
        unfold allocateFcb
        rw [if_pos (hallocated (reaches_of_ioCreateFile hrun))]
        exact Option.some_ne_none fcb
  | readWrite i call =>
    rw [hcall] at hs
    obtain ⟨handle, hget, hs⟩ := Option.bind_eq_some_iff.mp hs
    obtain ⟨⟨status, handle'⟩, hrun, rfl⟩ := Option.map_eq_some_iff.mp hs
    refine iff_of_true (h.set hget (file_of_readWrite hrun)) fun call' heq => ?_
    rw [hcall] at heq
    cases heq
  | queryInformation i =>
    rw [hcall] at hs
    obtain ⟨handle, hget, hs⟩ := Option.bind_eq_some_iff.mp hs
    obtain ⟨⟨status, output, handle'⟩, hrun, rfl⟩ := Option.map_eq_some_iff.mp hs
    refine iff_of_true (h.set hget (file_of_query hrun)) fun call' heq => ?_
    rw [hcall] at heq
    cases heq
  | close i =>
    rw [hcall] at hs
    obtain ⟨handle, hget, hs⟩ := Option.bind_eq_some_iff.mp hs
    obtain ⟨⟨status, handle'⟩, hrun, rfl⟩ := Option.map_eq_some_iff.mp hs
    refine iff_of_true ?_ fun call' heq => ?_
    · dsimp only
      split_ifs with hclosed
      · exact fun other hmem => h other (List.mem_of_mem_eraseIdx hmem)
      · exact h.set hget (congrArg FileHandle.file (file_of_close hrun hclosed))
    · rw [hcall] at heq
      cases heq

/-- In a run of calls every open handle has its file control block exactly if no allocation of one
fails. -/
theorem always_usable_iff {tr : List (List FileHandle × HandleLabel)} (h : Exec HandleStep [] tr handles) :
    Always Usable tr handles ↔ ∀ v ∈ tr, FcbAllocated v.2 := by
  induction h with
  | nil =>
    rw [always_nil]
    exact iff_of_true (fun _ hmem => absurd hmem List.not_mem_nil) fun _ hmem => absurd hmem List.not_mem_nil
  | @snoc tr s s' a _ hs ih =>
    rw [always_snoc, ih]
    constructor
    · rintro ⟨hall, hlast⟩ v hv
      rcases List.mem_append.mp hv with hold | hnew
      · exact hall v hold
      · obtain rfl := List.mem_singleton.mp hnew
        exact (usable_iff_of_step hs (ih.mpr hall).2).mp hlast
    · intro hall
      have hbefore : ∀ v ∈ tr, FcbAllocated v.2 := fun v hv => hall v (List.mem_append_left _ hv)
      refine ⟨hbefore, (usable_iff_of_step hs (ih.mpr hbefore).2).mpr ?_⟩
      exact hall (s, a) (List.mem_append_right _ (List.mem_singleton_self _))

end Steps

section Opening

def volumePartition : PartitionInformation := ⟨2048, 102400, 0x0C, false⟩

/-- A FAT volume with a file. -/
def volumeWithFile (fcbAllocated : Bool) : FatDevice where
  volumeDevice := ⟨⟨⟨true, 204800⟩, [volumePartition]⟩, volumePartition⟩
  bytesPerSector := sectorSize
  fcbAllocated := fcbAllocated
  fatCreateDirectoryEntry _ _ := .done statusSuccess
  fatSearch _ _ := .done (statusSuccess, ⟨1057, 1056, ⟨512, 0x20⟩⟩)
  fatReadWriteFile _ _ _ sectors _ := .done (statusSuccess, sectors)
  fatQueryDirectory _ _ := .done (statusSuccess, 0)

def openCall : CreateCall where
  fileName := String.ofList [Char.ofNat 0x43, Char.ofNat 0x3A, backslash, Char.ofNat 0x41]
  directory := false
  create := false
  asynchronous := false
  vpb := some true
  fileObjectAllocated := true

def openLabel (fcbAllocated : Bool) : HandleLabel where
  call := .create openCall
  environment := ⟨fun _ => some ⟨statusSuccess, 0⟩, volumeWithFile fcbAllocated, true⟩

theorem openCall_reaches (fcbAllocated : Bool) : ReachesFcb (openLabel fcbAllocated).environment openCall where
  path := by decide
  mounted := rfl
  irp := rfl
  fileObject := rfl
  found := ⟨statusSuccess, 0, statusSuccess, ⟨1057, 1056, ⟨512, 0x20⟩⟩, 0, rfl, by decide, rfl, by decide⟩

theorem openLabel_step (fcbAllocated : Bool) : ∃ handles, HandleStep [] (openLabel fcbAllocated) handles := by
  obtain ⟨status, fcb, hcreate⟩ := ioCreateFile_of_reaches (openCall_reaches fcbAllocated)
  exact ⟨_, congrArg (Option.map _) hcreate⟩

/-- A file is opened twice and read, and one of the handles is closed. -/
def openTwice : List HandleLabel :=
  [openLabel true, openLabel true, { openLabel true with call := .readWrite 1 ⟨false, 512, none⟩ },
    { openLabel true with call := .queryInformation 0 }, { openLabel true with call := .close 0 }]

theorem openTwice_returns : (exec nextHandles [] openTwice).isSome := by
  decide +kernel

theorem openTwice_usable : ((exec nextHandles [] openTwice).get openTwice_returns).2.length = 1 ∧
    Always Usable ((exec nextHandles [] openTwice).get openTwice_returns).1
      ((exec nextHandles [] openTwice).get openTwice_returns).2 := by
  have hallocated : ∀ v ∈ ((exec nextHandles [] openTwice).get openTwice_returns).1,
      v.2.environment.device.fcbAllocated = true := by
    decide +kernel
  refine ⟨by decide +kernel, (always_usable_iff (exec_get openTwice_returns)).mpr fun v hv _ _ _ => ?_⟩
  exact hallocated v hv

/-- Without memory for its control block the file is reported open. -/
theorem not_always_usable :
    ¬∀ tr handles, Exec HandleStep [] tr handles → Always Usable tr handles := by
  intro h
  obtain ⟨handles, hstep⟩ := openLabel_step false
  have husable : Usable handles := (h _ handles (.snoc .nil hstep)).2
  have hallocated := (usable_iff_of_step hstep fun _ hmem => absurd hmem List.not_mem_nil).mp husable
  exact absurd (hallocated openCall rfl (openCall_reaches false)) Bool.false_ne_true

end Opening

end HAL9000.Io
