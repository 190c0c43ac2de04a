import HAL9000.CommonLib.Base

/-! The tagged pool allocator of `cl_heap.c`. Entries live in one address-ordered list; a new
entry goes after `FreeAddress` when it fits there, otherwise into a gap found by a search
that resumes at `EntryToRestartSearch` and walks the circular list of links. -/
namespace HAL9000.Heap

def heapMinimumSize : QWORD := 64 * 1024
def heapMagic : DWORD := 0xACE2302E
def heapDefaultAlignment : DWORD := 16
def sizeofHeapHeader : QWORD := 0x48
def sizeofHeapEntry : QWORD := 0x20
def sizeofHeapTail : QWORD := 4
def maxDword : QWORD := 0xFFFFFFFF

def poolAllocatePanicIfFail : DWORD := 0x4

/-- A `HEAP_ENTRY` at `address`, together with the magic of the `HEAP_TAIL` behind its data. -/
structure HeapEntry where
  address : QWORD
  magic : DWORD
  tag : DWORD
  size : DWORD
  offset : DWORD
  tailMagic : DWORD
  deriving DecidableEq, Repr

/-- A `PLIST_ENTRY`: the list head inside the heap header, or the link field of the entry
that starts at the given address. -/
inductive Link
  | head
  | entry (address : QWORD)
  deriving DecidableEq, Repr

structure HeapHeader where
  magic : DWORD
  heapSizeMaximum : QWORD
  heapSizeRemaining : QWORD
  baseAddress : QWORD
  freeAddress : QWORD
  heapNumberOfAllocations : QWORD
  entryToRestartSearch : Link
  heapAllocations : List HeapEntry
  deriving DecidableEq, Repr

/-- The arguments of an allocation call. -/
structure Request where
  flags : DWORD
  allocationSize : DWORD
  tag : DWORD
  allocationAlignment : DWORD
  deriving DecidableEq, Repr

/-- First byte behind the tail of an entry. -/
def HeapEntry.endAddress (e : HeapEntry) : QWORD :=
  e.address + sizeofHeapEntry + e.size.setWidth 64 + sizeofHeapTail

def clHeapInit (baseAddress memoryAvailable : QWORD) : Except Status HeapHeader :=
  if baseAddress = 0 then .error .invalidParameter1
  else if memoryAvailable < heapMinimumSize then .error .heapTooSmall
  else .ok {
    magic := heapMagic
    baseAddress := baseAddress
    heapSizeMaximum := memoryAvailable
    heapSizeRemaining := memoryAvailable - sizeofHeapHeader
    heapNumberOfAllocations := 0
    entryToRestartSearch := .head
    freeAddress := baseAddress + sizeofHeapHeader
    heapAllocations := [] }

def firstLink : List HeapEntry → Link
  | [] => .head
  | e :: _ => .entry e.address

/-- `Flink` of a link; `none` when the link is not (or no longer) part of the list. -/
def flink (l : List HeapEntry) : Link → Option Link
  | .head => some (firstLink l)
  | .entry a => go l a
where
  go : List HeapEntry → QWORD → Option Link
    | [], _ => none
    | e :: rest, a => if e.address = a then some (firstLink rest) else go rest a

/-- The entry in front of the one at `a`, `none` when that one is the first. -/
def blinkEntry : List HeapEntry → QWORD → Option HeapEntry
  | p :: e :: rest, a => if e.address = a then some p else blinkEntry (e :: rest) a
  | _, _ => none

def insertHeadList (new : HeapEntry) : Link → List HeapEntry → List HeapEntry
  | .head, l => new :: l
  | .entry _, [] => []
  | .entry a, e :: rest =>
    if e.address = a then e :: new :: rest else e :: insertHeadList new (.entry a) rest

def removeEntryList (l : List HeapEntry) (a : QWORD) : List HeapEntry :=
  l.eraseP (fun e => e.address = a)

/-- Following the link of an unlinked entry reads freed memory. -/
def follow (h : HeapHeader) (link : Link) : Except Fault Link :=
  match flink h.heapAllocations link with
  | some next => .ok next
  | none => .error .danglingAccess

/-- Reads the `HEAP_ENTRY` that contains a link; the list head is not inside one. -/
def containingRecord (h : HeapHeader) : Link → Except Fault HeapEntry
  | .head => .error .danglingAccess
  | .entry a =>
    match h.heapAllocations.find? (fun e => e.address = a) with
    | some e => .ok e
    | none => .error .danglingAccess

def validateHeapEntry (e : HeapEntry) (tag : DWORD) : Except Fault Bool := do
  assertThat (tag ≠ 0)
  return decide (e.magic = heapMagic ∧ e.tailMagic = heapMagic ∧ e.tag ≠ 0 ∧ tag = e.tag)

/-- Places an entry at or behind `heapEntry`, moved up so that its data is aligned. Returns
the updated header, the entry and the address behind its tail, or address zero when
`sizeAvailable` is too small. `heapEntrySize` is a `DWORD` and truncates. -/
def initHeapEntry (h : HeapHeader) (heapEntry : QWORD) (tag size alignment : DWORD)
    (addToLinkedList : Bool) (sizeAvailable : QWORD) : HeapHeader × Option HeapEntry × QWORD :=
  let unalignedDataAddress := heapEntry + sizeofHeapEntry
  let dataAddress := alignAddressUpper unalignedDataAddress (alignment.setWidth 64)
  let heapEntrySize : DWORD := (size.setWidth 64 + sizeofHeapEntry + sizeofHeapTail).setWidth 32
  if sizeAvailable < dataAddress - unalignedDataAddress + heapEntrySize.setWidth 64 then
    (h, none, 0)
  else
    let address := dataAddress - sizeofHeapEntry
    let entry : HeapEntry := {
      address := address
      magic := heapMagic
      tag := tag
      size := size
      offset := (dataAddress - address).setWidth 32
      tailMagic := heapMagic }
    let heapAllocations :=
      if addToLinkedList then h.heapAllocations ++ [entry] else h.heapAllocations
    let heapTail := dataAddress + size.setWidth 64
    ({ h with
        heapAllocations := heapAllocations
        heapSizeRemaining := h.heapSizeRemaining - heapEntrySize.setWidth 64
        heapNumberOfAllocations := h.heapNumberOfAllocations + 1 },
      some entry, heapTail + sizeofHeapTail)

def Request.alignment (req : Request) : DWORD :=
  if req.allocationAlignment = 0 then heapDefaultAlignment else req.allocationAlignment

def Request.sizeRequired (req : Request) : QWORD :=
  req.allocationSize.setWidth 64 + sizeofHeapEntry + sizeofHeapTail

/-- The gap-search loop with its four pointers. `previousHeapEntry` is refreshed from
`curHeapEntry`, which the skipped iterations next to the list head do not update. -/
def searchLoop (req : Request) :
    ℕ → HeapHeader → Link → Option Link → Link → Option Link →
      Except Fault (Option (HeapHeader × HeapEntry))
  | 0, _, _, _, _, _ => .error .outOfFuel
  | fuel + 1, h, previousEntry, previousHeapEntry, curEntry, curHeapEntry =>
    if h.entryToRestartSearch = curEntry then .ok none
    else if curEntry = .head ∨ previousEntry = .head then do
      searchLoop req fuel h curEntry curHeapEntry (← follow h curEntry) curHeapEntry
    else
      match previousHeapEntry with
      | none => .error .assertFailed
      | some previous => do
        let previousRecord ← containingRecord h previous
        let cur ← containingRecord h curEntry
        let startAddress := previousRecord.endAddress
        let sizeBetweenEntries := cur.address - startAddress
        if req.sizeRequired.sle sizeBetweenEntries then
          match initHeapEntry h startAddress req.tag req.allocationSize req.alignment false
              sizeBetweenEntries with
          | (h', some new, tempAddress) =>
            if tempAddress = 0 then
              searchLoop req fuel h' curEntry (some curEntry) (← follow h' curEntry) (some curEntry)
            else do
              assertThat ((← validateHeapEntry previousRecord previousRecord.tag) = true)
              return some ({ h' with
                heapAllocations := insertHeadList new previousEntry h'.heapAllocations
                entryToRestartSearch := .entry new.address }, new)
          | (h', none, _) =>
            searchLoop req fuel h' curEntry (some curEntry) (← follow h' curEntry) (some curEntry)
        else
          searchLoop req fuel h curEntry (some curEntry) (← follow h curEntry) (some curEntry)

/-- The second half of an allocation: the search between two entries. The walk visits every
link at most once, so a bound of two more than the list length is never used up. -/
def searchGaps (h : HeapHeader) (req : Request) :
    Except Fault (Option (HeapHeader × HeapEntry)) := do
  assertThat (h.heapAllocations ≠ [])
  let previousEntry ← follow h h.entryToRestartSearch
  let curEntry ← follow h previousEntry
  searchLoop req (h.heapAllocations.length + 2) h previousEntry (some previousEntry) curEntry none

def HeapHeader.remainingSizeUntilEnd (h : HeapHeader) : QWORD :=
  h.baseAddress + h.heapSizeMaximum - h.freeAddress - sizeofHeapEntry

/-- The attempt to place the entry behind `FreeAddress`; the flag is `found`. -/
def placeAtEnd (h : HeapHeader) (req : Request) : HeapHeader × Option HeapEntry :=
  if req.sizeRequired.sle h.remainingSizeUntilEnd then
    match initHeapEntry h h.freeAddress req.tag req.allocationSize req.alignment true
        h.remainingSizeUntilEnd with
    | (h', entry, tempAddress) =>
      if tempAddress = 0 then (h', none) else ({ h' with freeAddress := tempAddress }, entry)
  else (h, none)

/-- The body of the allocation up to `__finally`: the placed entry, or the failure status. -/
def allocateEntry (h : HeapHeader) (req : Request) :
    Except Fault (HeapHeader × Except Status HeapEntry) :=
  if req.allocationSize = 0 then .ok (h, .error .invalidParameter2)
  else if req.tag = 0 then .ok (h, .error .invalidParameter3)
  else if h.heapSizeRemaining < req.sizeRequired then .ok (h, .error .heapNoMoreMemory)
  else
    match placeAtEnd h req with
    | (h', some entry) => .ok (h', .ok entry)
    | (h', none) =>
      if (h'.heapSizeRemaining - h.remainingSizeUntilEnd - sizeofHeapEntry).slt req.sizeRequired then
        .ok (h', .error .heapNoMoreMemory)
      else do
        match ← searchGaps h' req with
        | some (h'', entry) => return (h'', .ok entry)
        | none => return (h', .error .heapNoMoreMemory)

/-- The address handed to the caller, `NULL` after a failure. -/
def mappedAddress : Except Status HeapEntry → QWORD
  | .ok entry => entry.address + entry.offset.setWidth 64
  | .error _ => 0

/-- Returns the header and `mappedAddress`, zero when the allocation failed. With
`PoolAllocatePanicIfFail` a failure fires the `ASSERT` of the `__finally` block; zeroing the
data bytes does not touch the header. -/
def clHeapAllocatePoolWithTag (h : HeapHeader) (req : Request) :
    Except Fault (HeapHeader × QWORD) := do
  let (h', result) ← allocateEntry h req
  if isFlagOn req.flags poolAllocatePanicIfFail then
    assertThat (result.isOk = true)
    assertThat (mappedAddress result ≠ 0)
  return (h', mappedAddress result)

/-- Where free space starts once the entry is gone and it was the last one: behind its
predecessor, or behind the header. -/
def HeapHeader.previousAddress (h : HeapHeader) (heapEntry : HeapEntry) : QWORD :=
  match blinkEntry h.heapAllocations heapEntry.address with
  | some previous => previous.endAddress
  | none => h.baseAddress + sizeofHeapHeader

def clHeapFreePoolWithTag (h : HeapHeader) (memoryAddress : QWORD) (tag : DWORD) :
    Except Fault HeapHeader := do
  assertThat (memoryAddress ≠ 0)
  assertThat (tag ≠ 0)
  let heapEntry ← containingRecord h (.entry (memoryAddress - sizeofHeapEntry))
  let endAddress := memoryAddress + heapEntry.size.setWidth 64 + sizeofHeapTail
  assertThat ((← validateHeapEntry heapEntry tag) = true)
  let heapEntrySize := heapEntry.size.setWidth 64 + sizeofHeapEntry + sizeofHeapTail
  assertThat (heapEntrySize ≤ maxDword)
  return { h with
    heapAllocations := removeEntryList h.heapAllocations heapEntry.address
    heapSizeRemaining := h.heapSizeRemaining + heapEntrySize
    heapNumberOfAllocations := h.heapNumberOfAllocations - 1
    freeAddress := if endAddress = h.freeAddress then h.previousAddress heapEntry else h.freeAddress }

end HAL9000.Heap
