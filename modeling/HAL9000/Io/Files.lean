import HAL9000.CommonLib.Base
import HAL9000.Lib.Run

/-! The byte offset of a `FILE_OBJECT` over sequences of reads and writes (`io_files.c`). What the file
system answers to a request is an input. -/
namespace HAL9000.Io

open Run

abbrev STATUS := DWORD

def failMask : DWORD := 0x80000000

def succeeded (status : STATUS) : Bool := status &&& failMask == 0

def statusHeapNoMoreMemory : STATUS := 0xE0200003

structure FileObject where
  asynchronous : Bool
  currentByteOffset : QWORD
  deriving DecidableEq, Repr

/-- The arguments of `IoReadFile` and `IoWriteFile`. -/
structure ReadWriteCall where
  write : Bool
  length : QWORD
  fileOffset : Option QWORD
  deriving DecidableEq, Repr

/-- What reaches the file system. -/
structure ReadWriteIrp where
  asynchronous : Bool
  write : Bool
  length : QWORD
  offset : QWORD
  deriving DecidableEq, Repr

/-- Whether there is memory for an IRP, what `IoCallDriver` returns and what it leaves in `IoStatus`. -/
structure DriverResponse where
  irpAllocated : Bool
  callStatus : STATUS
  ioStatus : STATUS
  information : QWORD
  deriving DecidableEq, Repr

def DriverResponse.succeeds (r : DriverResponse) : Bool :=
  r.irpAllocated && succeeded r.callStatus && succeeded r.ioStatus

/-- A call that returned: its status, the request it made and `BytesTransferred` where it is set. -/
structure ReadWriteResult where
  status : STATUS
  irp : Option ReadWriteIrp
  bytesTransferred : Option QWORD
  deriving DecidableEq, Repr

def ioReadWriteFile (file : FileObject) (call : ReadWriteCall) (response : DriverResponse) :
    Except Fault (FileObject × ReadWriteResult) := do
  let fileOffset ←
    if file.asynchronous then
      match call.fileOffset with
      | none => .error .assertFailed
      | some fileOffset => pure fileOffset
    else pure (call.fileOffset.getD file.currentByteOffset)
  if ¬response.irpAllocated then return (file, ⟨statusHeapNoMoreMemory, none, none⟩)
  let irp := ⟨file.asynchronous, call.write, call.length, fileOffset⟩
  if ¬succeeded response.callStatus then return (file, ⟨response.callStatus, some irp, none⟩)
  let result := ⟨response.ioStatus, some irp, some response.information⟩
  if succeeded response.ioStatus ∧ ¬file.asynchronous then
    return ({ file with currentByteOffset := file.currentByteOffset + response.information }, result)
  else return (file, result)

/-- A file handle, with the byte at which its last successful operation ended. -/
structure FileState where
  file : FileObject
  lastEnd : QWORD
  deriving DecidableEq, Repr

structure FileLabel where
  call : ReadWriteCall
  response : DriverResponse
  deriving DecidableEq, Repr

/-- The byte after those an operation transferred. -/
def ReadWriteResult.endOffset (r : ReadWriteResult) : Option QWORD := do
  let irp ← r.irp
  let bytesTransferred ← r.bytesTransferred
  if succeeded r.status then some (irp.offset + bytesTransferred) else none

def nextFile (s : FileState) (a : FileLabel) : Option FileState :=
  match ioReadWriteFile s.file a.call a.response with
  | .error _ => none
  | .ok (file, result) => some ⟨file, result.endOffset.getD s.lastEnd⟩

/-- A file that was opened for synchronous operations. -/
def openedFile : FileState := ⟨⟨false, 0⟩, 0⟩

/-- An operation without an offset is issued where the last successful one ended, and one that fails
leaves the position. -/
structure PositionSafe (s : FileState) : Prop where
  sequential : ∀ call response file result irp, call.fileOffset = none →
    ioReadWriteFile s.file call response = .ok (file, result) → result.irp = some irp →
    irp.offset = s.lastEnd
  failed : ∀ call response file result,
    ioReadWriteFile s.file call response = .ok (file, result) → succeeded result.status = false →
    file.currentByteOffset = s.file.currentByteOffset

/-- An explicit offset of an operation that succeeds is the position the handle is at. -/
def AtPosition (s : FileState) (a : FileLabel) : Prop :=
  a.response.succeeds = true → ∀ fileOffset, a.call.fileOffset = some fileOffset →
    fileOffset = s.file.currentByteOffset

section Calls

variable {s s' : FileState} {file file' : FileObject} {a : FileLabel} {call : ReadWriteCall}
  {response : DriverResponse} {result : ReadWriteResult}

/-- What a call with a synchronous handle does. -/
theorem ioReadWriteFile_eq (hs : file.asynchronous = false) :
    ioReadWriteFile file call response =
      if response.irpAllocated then
        let irp := ⟨false, call.write, call.length, call.fileOffset.getD file.currentByteOffset⟩
        if succeeded response.callStatus then
          .ok (if succeeded response.ioStatus then
              { file with currentByteOffset := file.currentByteOffset + response.information }
            else file, ⟨response.ioStatus, some irp, some response.information⟩)
        else .ok (file, ⟨response.callStatus, some irp, none⟩)
      else .ok (file, ⟨statusHeapNoMoreMemory, none, none⟩) := by
  unfold ioReadWriteFile
  cases hi : response.irpAllocated <;> cases hc : succeeded response.callStatus <;>
    cases ho : succeeded response.ioStatus <;> simp [hs, bind, Except.bind, pure, Except.pure]

theorem irp_offset_eq (hs : file.asynchronous = false) {irp : ReadWriteIrp}
    (h : ioReadWriteFile file call response = .ok (file', result)) (hirp : result.irp = some irp) :
    irp.offset = call.fileOffset.getD file.currentByteOffset := by
  rw [ioReadWriteFile_eq hs] at h
  dsimp only at h
  split_ifs at h <;> cases h <;> cases hirp <;> rfl

theorem position_of_failed (hs : file.asynchronous = false)
    (h : ioReadWriteFile file call response = .ok (file', result))
    (hfail : succeeded result.status = false) : file'.currentByteOffset = file.currentByteOffset := by
  rw [ioReadWriteFile_eq hs] at h
  dsimp only at h
  split_ifs at h with _ _ ho
  · cases h
    rw [ho] at hfail
    cases hfail
  all_goals
    cases h
    rfl

/-- A step that succeeds moves the position by the bytes transferred, one that fails leaves it. -/
theorem nextFile_cases (hs : s.file.asynchronous = false) (h : nextFile s a = some s') :
    s'.file.asynchronous = false ∧
      (a.response.succeeds = true ∧
        s'.file.currentByteOffset = s.file.currentByteOffset + a.response.information ∧
        s'.lastEnd = a.call.fileOffset.getD s.file.currentByteOffset + a.response.information ∨
      a.response.succeeds = false ∧ s'.file = s.file ∧ s'.lastEnd = s.lastEnd) := by
  have hheap : succeeded statusHeapNoMoreMemory = false := by decide
  unfold nextFile at h
  rw [ioReadWriteFile_eq hs] at h
  unfold DriverResponse.succeeds
  cases hi : a.response.irpAllocated <;> cases hc : succeeded a.response.callStatus <;>
    cases ho : succeeded a.response.ioStatus <;>
    simp [hi, hc, ho, ReadWriteResult.endOffset, hheap] at h <;> subst h <;> simp [hs]

end Calls

/-- The position is safe exactly where it is the end of the last operation. -/
theorem positionSafe_iff {s : FileState} (hs : s.file.asynchronous = false) :
    PositionSafe s ↔ s.file.currentByteOffset = s.lastEnd := by
  constructor
  · intro h
    refine h.sequential ⟨false, 0, none⟩ ⟨true, 0, 0, 0⟩ _ _ ⟨false, false, 0, _⟩ rfl
      (ioReadWriteFile_eq hs) ?_
    rfl
  · intro h
    refine ⟨fun call response file result irp hnone hok hirp => ?_,
      fun call response file result hok => position_of_failed hs hok⟩
    rw [irp_offset_eq hs hok hirp, hnone]
    exact h

theorem positionSafe_step {s s' : FileState} {a : FileLabel} (hs : s.file.asynchronous = false)
    (hsafe : PositionSafe s) (h : nextFile s a = some s') : PositionSafe s' ↔ AtPosition s a := by
  obtain ⟨hs', hstep⟩ := nextFile_cases hs h
  rw [positionSafe_iff hs] at hsafe
  rw [positionSafe_iff hs', AtPosition]
  rcases hstep with ⟨hok, hpos, hend⟩ | ⟨hfail, hfile, hend⟩
  · rw [hpos, hend, hok]
    cases hoff : a.call.fileOffset with
    | none => simp
    | some fileOffset =>
      simp only [Option.getD_some, BitVec.add_left_inj, Option.some.injEq, forall_const, forall_eq']
      exact eq_comm
  · rw [hfile, hend, hfail, hsafe]
    simp

/-- Over a whole sequence of operations the position is where the last one ended exactly if every
explicit offset of a successful operation is that position. -/
theorem always_positionSafe_iff {s : FileState} {tr : List (FileState × FileLabel)}
    (h : Exec (fun s a s' => nextFile s a = some s') openedFile tr s) :
    Always PositionSafe tr s ↔ ∀ v ∈ tr, AtPosition v.1 v.2 :=
  h.always_iff (I := fun s => s.file.asynchronous = false) rfl ((positionSafe_iff rfl).mpr rfl)
    (fun _ _ _ hs hstep => (nextFile_cases hs hstep).1)
    fun _ _ _ hs hsafe hstep => positionSafe_step hs hsafe hstep

/-- A request the file system meets in full. -/
def metRequest (call : ReadWriteCall) : FileLabel := ⟨call, ⟨true, 0, 0, call.length⟩⟩

/-- A sector is written at an explicit offset, and the next one is read without an offset. -/
def writeThenRead : List FileLabel :=
  [metRequest ⟨true, 0x200, some 0x1000⟩, metRequest ⟨false, 0x200, none⟩]

/-- Two sectors are read one after the other, and a third one at the offset they ended at. -/
def readThree : List FileLabel :=
  [metRequest ⟨false, 0x200, none⟩, metRequest ⟨false, 0x200, none⟩,
    metRequest ⟨false, 0x200, some 0x400⟩]

theorem readThree_runs : (exec nextFile openedFile readThree).isSome = true := by decide

theorem positionSafe_of_readThree :
    Always PositionSafe ((exec nextFile openedFile readThree).get readThree_runs).1
      ((exec nextFile openedFile readThree).get readThree_runs).2 := by
  refine (always_positionSafe_iff (exec_get readThree_runs)).mpr fun v hv => ?_
  have hall : ∀ v ∈ ((exec nextFile openedFile readThree).get readThree_runs).1,
      v.2.call.fileOffset = none ∨
        v.2.call.fileOffset = some v.1.file.currentByteOffset := by decide
  intro _ fileOffset hoff
  rcases hall v hv with hnone | hsome
  · rw [hnone] at hoff
    cases hoff
  · exact Option.some.inj (hoff.symm.trans hsome)

theorem writeThenRead_runs : (exec nextFile openedFile writeThenRead).isSome = true := by decide

/-- The operation without an offset is issued at 0x200, but the one before it ended at 0x1200. -/
theorem position_drifts :
    ¬Always PositionSafe ((exec nextFile openedFile writeThenRead).get writeThenRead_runs).1
      ((exec nextFile openedFile writeThenRead).get writeThenRead_runs).2 := by
  intro hall
  have hmem : (⟨⟨false, 0x200⟩, 0x1200⟩, metRequest ⟨false, 0x200, none⟩) ∈
      ((exec nextFile openedFile writeThenRead).get writeThenRead_runs).1 := by decide
  have heq := (positionSafe_iff rfl).mp (hall.1 _ hmem)
  exact absurd heq (by decide)

end HAL9000.Io
