import HAL9000.CommonLib.Bitmap

/-! Virtual address reservations of `vm_reservation_space.c`. The slots of the reservation list
lie at the start of the metadata area, the commit bitmaps behind `BitmapAddressStart`; bitmap
bytes are read and written through `memory`. The reservation lock makes every call atomic. -/
namespace HAL9000.Vmm

def maxDword : QWORD := 0xFFFFFFFF
def sizeofVmmReservation : ℕ := 0x38
def reservationListPercentageInHundreds : QWORD := 20 * 100

def vmmAllocTypeReserve : DWORD := 0x1
def vmmAllocTypeCommit : DWORD := 0x2
def vmmFreeTypeDecommit : DWORD := 0x1
def vmmFreeTypeRelease : DWORD := 0x2

inductive VmmReservationState
  | free
  | used
  | last
  deriving DecidableEq, Repr

structure VmmReservation where
  startVa : QWORD
  size : QWORD
  pageRights : DWORD
  state : VmmReservationState
  uncacheable : Bool
  backingFile : QWORD
  commitBitmap : Bitmap
  deriving DecidableEq, Repr

/-- A slot of zero bytes. -/
def VmmReservation.zero : VmmReservation := ⟨0, 0, 0, .free, false, 0, ⟨0, 0, 0⟩⟩

structure VmmReservationSpace where
  freeVirtualAddressPointer : QWORD
  startOfVirtualAddressSpace : QWORD
  bitmapAddressStart : QWORD
  reservedAreaSize : QWORD
  freeBitmapAddress : QWORD
  reservationList : QWORD
  slots : ℕ → VmmReservation
  memory : Memory

/-- The address of `ReservationList[i]`. -/
def VmmReservationSpace.slotAddress (s : VmmReservationSpace) (i : ℕ) : QWORD :=
  s.reservationList + BitVec.ofNat 64 (sizeofVmmReservation * i)

def VmmReservationSpace.setSlot (s : VmmReservationSpace) (i : ℕ) (r : VmmReservation) :
    VmmReservationSpace :=
  { s with slots := Function.update s.slots i r }

def calculatePercentage (wholeValue hundredsOfPercentage : QWORD) : Except Fault QWORD := do
  assertThat (hundredsOfPercentage ≤ 10000)
  assertThat (wholeValue ≤ BitVec.allOnes 64 / hundredsOfPercentage)
  return wholeValue * hundredsOfPercentage / 10000

/-- Pages of the metadata area are zeroed when they are first touched. -/
def vmReservationSpaceInit (reservationMetadataBaseAddress reservationBaseAddress
    reservationMetadataSize : QWORD) (memory : Memory) : Except Fault VmmReservationSpace := do
  assertThat (reservationMetadataBaseAddress ≠ 0)
  assertThat (isAddressAligned reservationMetadataBaseAddress pageSize = true)
  assertThat (reservationMetadataSize ≠ 0)
  let sizeForReservationList ←
    calculatePercentage reservationMetadataSize reservationListPercentageInHundreds
  let bitmapAddressStart := reservationMetadataBaseAddress + sizeForReservationList
  let freeVirtualAddressPointer := if reservationBaseAddress = 0 then
    reservationMetadataBaseAddress + reservationMetadataSize else reservationBaseAddress
  return {
    reservationList := reservationMetadataBaseAddress
    bitmapAddressStart := bitmapAddressStart
    freeBitmapAddress := bitmapAddressStart
    freeVirtualAddressPointer := freeVirtualAddressPointer
    startOfVirtualAddressSpace := freeVirtualAddressPointer
    reservedAreaSize := reservationMetadataSize
    slots := fun _ => .zero
    memory := memory }

def vmReservationSpaceFinishInit (s : VmmReservationSpace) : VmmReservationSpace :=
  s.setSlot 0 { s.slots 0 with state := .last }

/-- More steps than there are slots below the bitmaps. -/
def VmmReservationSpace.loopBound (s : VmmReservationSpace) : ℕ :=
  (s.bitmapAddressStart - s.reservationList).toNat / sizeofVmmReservation + 2

def findReservationLoop (s : VmmReservationSpace) (address size : QWORD) :
    ℕ → ℕ → Except Fault (Option ℕ)
  | 0, _ => .error .outOfFuel
  | fuel + 1, i =>
    if (s.slots i).state ≠ .last ∧ s.slotAddress i < s.bitmapAddressStart then
      if (s.slots i).state = .free then findReservationLoop s address size fuel (i + 1)
      else if checkBounds address size (s.slots i).startVa (s.slots i).size then .ok (some i)
      else findReservationLoop s address size fuel (i + 1)
    else .ok none

/-- The slot whose range contains the given one, `none` for `STATUS_ELEMENT_NOT_FOUND`. -/
def vmFindReservation (s : VmmReservationSpace) (address size : QWORD) :
    Except Fault (Option ℕ) := do
  assertThat (address ≠ 0)
  assertThat (size ≠ 0)
  findReservationLoop s address size s.loopBound 0

def findFirstFreeLoop (s : VmmReservationSpace) :
    ℕ → ℕ → Except Fault (VmmReservationSpace × Option ℕ)
  | 0, _ => .error .outOfFuel
  | fuel + 1, i =>
    if s.slotAddress i < s.bitmapAddressStart then
      match (s.slots i).state with
      | .free => .ok (s, some i)
      | .last =>
        let s₁ := s.setSlot i { s.slots i with state := .free }
        .ok (s₁.setSlot (i + 1) { s₁.slots (i + 1) with state := .last }, some i)
      | .used => findFirstFreeLoop s fuel (i + 1)
    else .ok (s, none)

/-- The first free slot. Taking the last one moves the marker to the next slot, without a
check against `BitmapAddressStart`. -/
def vmFindFirstFreeReservation (s : VmmReservationSpace) :
    Except Fault (VmmReservationSpace × Option ℕ) :=
  findFirstFreeLoop s s.loopBound 0

def vmInitializeReservation (s : VmmReservationSpace) (address size : QWORD) (pageRights : DWORD)
    (uncacheable : Bool) (fileObject : QWORD) (i : ℕ) : Except Fault VmmReservationSpace := do
  assertThat (address ≠ 0)
  assertThat (size ≠ 0)
  assertThat (isAddressAligned address pageSize = true)
  assertThat (isAddressAligned size pageSize = true)
  let noOfPages := size / pageSize
  assertThat (noOfPages ≤ maxDword)
  let bitmap ← bitmapPreinit (noOfPages.setWidth 32)
  let bitmapSize : QWORD := bitmap.bufferSize.setWidth 64
  assertThat (bitmapSize ≠ 0)
  assertThat (isAddressAligned s.freeBitmapAddress pageSize = true)
  let (memory, commitBitmap) ← bitmapInitEx s.memory bitmap s.freeBitmapAddress false
  assertThat (checkBounds s.freeBitmapAddress (alignAddressUpper bitmapSize pageSize)
    s.reservationList s.reservedAreaSize = true)
  let reservation : VmmReservation := {
    state := .used
    startVa := address
    size := size
    pageRights := pageRights
    uncacheable := uncacheable
    backingFile := fileObject
    commitBitmap := commitBitmap }
  return { s.setSlot i reservation with
    memory := memory
    freeBitmapAddress := s.freeBitmapAddress + alignAddressUpper bitmapSize pageSize }

/-- `PtrDiff(Address, StartVa) / PAGE_SIZE`, a signed division. -/
def pageIndex (address startVa : QWORD) : QWORD := (address - startVa).sdiv pageSize

/-- `_VmCommitReservation` and `_VmDecommitReservation`, which differ in the bit value. -/
def vmSetReservation (s : VmmReservationSpace) (address size : QWORD) (r : VmmReservation)
    (set : Bool) : Except Fault VmmReservationSpace := do
  assertThat (address ≠ 0)
  assertThat (size ≠ 0)
  assertThat (isAddressAligned address pageSize = true)
  assertThat (isAddressAligned size pageSize = true)
  let noOfPages := size / pageSize
  let startIndex := pageIndex address r.startVa
  assertThat (noOfPages ≤ maxDword)
  assertThat (startIndex ≤ maxDword)
  let memory ← bitmapSetBitsValue s.memory r.commitBitmap (startIndex.setWidth 32)
    (noOfPages.setWidth 32) set
  return { s with memory := memory }

def vmCommitReservation (s : VmmReservationSpace) (address size : QWORD) (r : VmmReservation) :
    Except Fault VmmReservationSpace :=
  vmSetReservation s address size r true

def vmDecommitReservation (s : VmmReservationSpace) (address size : QWORD) (r : VmmReservation) :
    Except Fault VmmReservationSpace :=
  vmSetReservation s address size r false

def vmIsVaCommited (s : VmmReservationSpace) (r : VmmReservation) (address : QWORD) :
    Except Fault Bool := do
  assertThat (address ≠ 0)
  let pageNo := pageIndex address r.startVa
  assertThat (pageNo ≤ maxDword)
  bitmapGetBitValue s.memory r.commitBitmap (pageNo.setWidth 32)

/-- The rights and the caching of an allocation request, which a commit has to repeat. -/
structure Attributes where
  rights : DWORD
  uncacheable : Bool
  fileObject : QWORD
  deriving DecidableEq, Repr

def vmChangeVaReservationState (s : VmmReservationSpace) (address size : QWORD)
    (allocationType : DWORD) (attr : Attributes) : Except Fault (VmmReservationSpace × Status) := do
  assertThat (address ≠ 0)
  assertThat (size ≠ 0)
  assertThat ((allocationType == vmmAllocTypeReserve) ≠ (allocationType == vmmAllocTypeCommit))
  assertThat (isAddressAligned address pageSize = true)
  assertThat (isAddressAligned size pageSize = true)
  match ← vmFindReservation s address size with
  | none =>
    if allocationType ≠ vmmAllocTypeReserve then return (s, .memoryIsNotReserved)
    match ← vmFindFirstFreeReservation s with
    | (_, none) => .error .assertFailed
    | (s₁, some i) =>
      let s₂ ← vmInitializeReservation s₁ address size attr.rights attr.uncacheable
        attr.fileObject i
      return (s₂, .success)
  | some i =>
    if allocationType = vmmAllocTypeReserve then return (s, .memoryAlreadyReserved)
    if (s.slots i).pageRights ≠ attr.rights then return (s, .memoryConflictingAccessRights)
    if (s.slots i).uncacheable ≠ attr.uncacheable then return (s, .memoryConflictingCacheability)
    let s₁ ← vmCommitReservation s address size (s.slots i)
    return (s₁, .success)

/-- Adds the size to the pointer and returns its old value. -/
def vmReservationSpaceDetermineNextFreeVirtualAddress (s : VmmReservationSpace) (size : QWORD) :
    VmmReservationSpace × QWORD :=
  ({ s with freeVirtualAddressPointer := s.freeVirtualAddressPointer + size },
    s.freeVirtualAddressPointer)

/-- The arguments of an allocation; a `baseAddress` of zero lets the space choose. -/
structure AllocRequest where
  baseAddress : QWORD
  size : QWORD
  allocType : DWORD
  attr : Attributes
  deriving DecidableEq, Repr

/-- The page range of a request and the space after an address has been chosen for it. -/
def VmmReservationSpace.place (s : VmmReservationSpace) (req : AllocRequest) :
    VmmReservationSpace × QWORD × QWORD :=
  if req.baseAddress ≠ 0 then
    let base := alignAddressLower req.baseAddress pageSize
    (s, base, alignAddressUpper (req.size + (req.baseAddress - base)) pageSize)
  else
    let alignedSize := alignAddressUpper req.size pageSize
    let (s₁, base) := vmReservationSpaceDetermineNextFreeVirtualAddress s alignedSize
    (s₁, base, alignedSize)

/-- One of the two independent halves of an allocation, taken when its flag is set. -/
def vmChangeIfRequested (s : VmmReservationSpace) (address size : QWORD) (flag : DWORD)
    (req : AllocRequest) : Except Fault (VmmReservationSpace × Status) :=
  if isBooleanFlagOn req.allocType flag then
    vmChangeVaReservationState s address size flag req.attr
  else .ok (s, .success)

/-- Returns the status and, on success, the mapped address and size. -/
def vmReservationSpaceAllocRegion (s : VmmReservationSpace) (req : AllocRequest) :
    Except Fault (VmmReservationSpace × Except Status (QWORD × QWORD)) := do
  assertThat (req.size ≠ 0)
  assertThat (isFlagOn req.allocType (vmmAllocTypeCommit ||| vmmAllocTypeReserve) = true)
  let (s₁, base, alignedSize) := s.place req
  if req.baseAddress ≠ 0 ∧ base < s.startOfVirtualAddressSpace then
    .ok (s, .error .memoryCannotBeReserved)
  else do
    let (s₂, reserved) ← vmChangeIfRequested s₁ base alignedSize vmmAllocTypeReserve req
    if reserved ≠ .success then .ok (s₂, .error reserved)
    else do
      let (s₃, committed) ← vmChangeIfRequested s₂ base alignedSize vmmAllocTypeCommit req
      if committed ≠ .success then .ok (s₃, .error committed)
      else .ok (s₃, .ok (base, alignedSize))

/-- Returns the freed range. Releasing zeroes the slot; the bitmap buffer it had is unmapped
and never handed out again. -/
def vmReservationSpaceFreeRegion (s : VmmReservationSpace) (address size : QWORD)
    (freeType : DWORD) : Except Fault (VmmReservationSpace × QWORD × QWORD) := do
  assertThat (address ≠ 0)
  let release := isBooleanFlagOn freeType vmmFreeTypeRelease
  let decommit := isBooleanFlagOn freeType vmmFreeTypeDecommit
  assertThat ((release = true ∧ size = 0) ∨ (decommit = true ∧ size ≠ 0))
  assertThat (release ≠ decommit)
  match ← vmFindReservation s address 1 with
  | none => .error .assertFailed
  | some i =>
    let r := s.slots i
    if release then
      assertThat (isAddressAligned r.commitBitmap.bitmapBuffer pageSize = true)
      return (s.setSlot i .zero, r.startVa, r.size)
    else
      let alignedAddress := alignAddressLower address pageSize
      let alignedSize := alignAddressUpper (size + (address - alignedAddress)) pageSize
      let s₁ ← vmDecommitReservation s alignedAddress alignedSize r
      return (s₁, alignedAddress, alignedSize)

/-- Steps through the range from its start, one page at a time. -/
def commitedLoop (s : VmmReservationSpace) (r : VmmReservation) (address size : QWORD) :
    ℕ → QWORD → Except Fault Bool
  | 0, _ => .error .outOfFuel
  | fuel + 1, i =>
    if i < size then do
      if ← vmIsVaCommited s r (address + i) then
        commitedLoop s r address size fuel (i + pageSize)
      else .ok false
    else .ok true

/-- The rights of the reservation that contains the range, `none` for
`STATUS_MEMORY_IS_NOT_COMMITED`, which also stands for a range that was not found. -/
def vmReservationReturnRightsForAddress (s : VmmReservationSpace) (address size : QWORD) :
    Except Fault (Option DWORD) := do
  assertThat (address ≠ 0)
  assertThat (size ≠ 0)
  match ← vmFindReservation s address size with
  | none => .ok none
  | some i => do
    if ← commitedLoop s (s.slots i) address size (size.toNat / pageSize.toNat + 2) 0 then
      .ok (some (s.slots i).pageRights)
    else .ok none

end HAL9000.Vmm
