import HAL9000.CommonLib.Base
import HAL9000.Lib.RadixTree

/-! The paging structures of `vmm.c` and `pte.c`. Physical memory is seen as frames of 512 words, and
one walker with a callback maps, unmaps and translates. -/
namespace HAL9000.Paging

open RadixTree

def pageRightsRead : DWORD := 0
def pageRightsWrite : DWORD := 1
def pageRightsExecute : DWORD := 2

def pagingTablesLastLevel : ℕ := 4

def shiftForPhysicalAddr : ℕ := 12
def shiftForLargePage : ℕ := 21

/-- The bit fields of a `PT_ENTRY`. Bit 7 is `PAT` in an entry of the last level and `PageSize` in
the entries above. -/
structure PtEntry where
  present : Bool
  readWrite : Bool
  userSupervisor : Bool
  pwt : Bool
  pcd : Bool
  accessed : Bool
  dirty : Bool
  pageSize : Bool
  global : Bool
  ignored0 : BitVec 3
  physicalAddress : BitVec 40
  ignored1 : BitVec 11
  xd : Bool
  deriving DecidableEq, Repr

/-- A word of zero bytes. -/
def PtEntry.zero : PtEntry :=
  ⟨false, false, false, false, false, false, false, false, false, 0, 0, 0, false⟩

/-- The words of physical memory by frame and index. -/
abbrev PhysMemory := BitVec 40 → BitVec 9 → PtEntry

structure PteMapFlags where
  patIndex : BitVec 3
  writable : Bool
  executable : Bool
  pagingStructure : Bool
  userAccess : Bool
  globalPage : Bool
  deriving DecidableEq, Repr

/-- The frame of an address: the field of the entries takes 40 bits. -/
def frameOf (physicalAddress : QWORD) : BitVec 40 :=
  (physicalAddress >>> shiftForPhysicalAddr).setWidth 40

def pteMap (physicalAddress : QWORD) (flags : PteMapFlags) : PtEntry :=
  let entry := { PtEntry.zero with
    physicalAddress := frameOf physicalAddress
    present := true
    readWrite := flags.writable
    xd := !flags.executable
    userSupervisor := flags.userAccess }
  if !flags.pagingStructure then
    { entry with
      pageSize := flags.patIndex.getLsbD 2
      pcd := flags.patIndex.getLsbD 1
      pwt := flags.patIndex.getLsbD 0
      global := flags.globalPage }
  else entry

def pteUnmap : PtEntry := .zero

def pteGetPhysicalAddress (entry : PtEntry) : QWORD :=
  entry.physicalAddress.setWidth 64 <<< shiftForPhysicalAddr

/-- The address field of a 2 MB page starts at bit 21. -/
def pteLargePageGetPhysicalAddress (entry : PtEntry) : QWORD :=
  (entry.physicalAddress >>> 9).setWidth 64 <<< shiftForLargePage

def pteIsPresent (entry : PtEntry) : Bool := entry.present

def maskPml4Offset (va : QWORD) : BitVec 9 := (va >>> 39).setWidth 9
def maskPdpteOffset (va : QWORD) : BitVec 9 := (va >>> 30).setWidth 9
def maskPdeOffset (va : QWORD) : BitVec 9 := (va >>> 21).setWidth 9
def maskPteOffset (va : QWORD) : BitVec 9 := (va >>> 12).setWidth 9

/-- The index into the table at each level, the root's first. -/
def offsets (va : QWORD) : ℕ → BitVec 9
  | 0 => maskPml4Offset va
  | 1 => maskPdpteOffset va
  | 2 => maskPdeOffset va
  | _ => maskPteOffset va

structure PagingData where
  basePhysicalAddress : QWORD
  numberOfFrames : DWORD
  currentIndex : DWORD
  kernelSpace : Bool
  deriving DecidableEq, Repr

/-- A callback gets the table and index of an entry, the address and the level, and says whether the
walk goes on. -/
abbrev PageWalkCallback (σ : Type) :=
  BitVec 40 → BitVec 9 → QWORD → ℕ → PhysMemory × σ → Except Fault (Bool × PhysMemory × σ)

/-- The loop over the levels, with the last `left` of them still to do. -/
def walkLevels {σ : Type} (walkCallback : PageWalkCallback σ) (currentVa : QWORD) :
    ℕ → BitVec 40 → PhysMemory × σ → Except Fault (PhysMemory × σ)
  | 0, _, s => .ok s
  | left + 1, table, s => do
    let level := pagingTablesLastLevel - left
    let index := offsets currentVa (level - 1)
    let (goOn, s) ← walkCallback table index currentVa level s
    if !goOn then return s
    if level ≠ pagingTablesLastLevel then assertThat ((s.1 table index).pageSize = false)
    walkLevels walkCallback currentVa left (s.1 table index).physicalAddress s

/-- The loop over the pages, with `count` of them to do. -/
def walkPages {σ : Type} (cr3 : QWORD) (baseAddress : QWORD) (walkCallback : PageWalkCallback σ) :
    ℕ → QWORD → PhysMemory × σ → Except Fault (PhysMemory × σ)
  | 0, _, s => .ok s
  | count + 1, offset, s => do
    let s ← walkLevels walkCallback (baseAddress + offset) pagingTablesLastLevel (frameOf cr3) s
    walkPages cr3 baseAddress walkCallback count (offset + pageSize) s

def vmWalkPagingTables {σ : Type} (cr3 baseAddress size : QWORD)
    (walkCallback : PageWalkCallback σ) (s : PhysMemory × σ) : Except Fault (PhysMemory × σ) :=
  walkPages cr3 baseAddress walkCallback ((size.toNat + 4095) / 4096) 0 s

/-- The product is one of 32-bit numbers. -/
def vmRetrieveNextPhysicalAddressForPagingStructure (pagingData : PagingData) :
    Except Fault (QWORD × PagingData) := do
  let currentIndex := pagingData.currentIndex
  assertThat (currentIndex < pagingData.numberOfFrames)
  let nextAddress := pagingData.basePhysicalAddress + (currentIndex * 0x1000).setWidth 64
  return (nextAddress, { pagingData with currentIndex := currentIndex + 1 })

/-- Links a zeroed table into an entry. -/
def vmSetupPagingStructure (pagingData : PagingData) (mem : PhysMemory) (table : BitVec 40)
    (index : BitVec 9) : Except Fault (PhysMemory × PagingData) := do
  let (physicalAddr, pagingData) ← vmRetrieveNextPhysicalAddressForPagingStructure pagingData
  let flags : PteMapFlags := {
    patIndex := 0
    writable := true
    executable := true
    pagingStructure := true
    userAccess := !pagingData.kernelSpace
    globalPage := false }
  let mem := write mem table index (pteMap physicalAddr flags)
  return (clear mem (frameOf physicalAddr) .zero, pagingData)

/-- The page attribute indices that `VmmPreparePagingData` finds. -/
structure VmmData where
  writeBackIndex : BYTE
  uncacheableIndex : BYTE
  deriving DecidableEq, Repr

structure MapContext where
  physicalAddressBase : QWORD
  virtualAddressBase : QWORD
  pageRights : DWORD
  invalidate : Bool
  uncacheable : Bool
  deriving DecidableEq, Repr

def mapFlags (vmmData : VmmData) (ctx : MapContext) (kernelSpace : Bool) : PteMapFlags where
  executable := isBooleanFlagOn ctx.pageRights pageRightsExecute
  writable := isBooleanFlagOn ctx.pageRights pageRightsWrite
  patIndex := (if ctx.uncacheable then vmmData.uncacheableIndex
    else vmmData.writeBackIndex).setWidth 3
  globalPage := kernelSpace
  userAccess := !kernelSpace
  pagingStructure := false

/-- The physical address a page gets: as far from the base as its virtual address. -/
def MapContext.physAddr (ctx : MapContext) (virtualAddress : QWORD) : QWORD :=
  ctx.physicalAddressBase + (virtualAddress - ctx.virtualAddressBase)

def vmMapPage (vmmData : VmmData) (ctx : MapContext) : PageWalkCallback PagingData :=
  fun table index virtualAddress pageLevel s => do
    assertThat (virtualAddress ≠ 0)
    if pteIsPresent (s.1 table index) &&
        !(pageLevel == pagingTablesLastLevel && ctx.invalidate) then
      return (true, s)
    if pageLevel = pagingTablesLastLevel then
      let entry := pteMap (ctx.physAddr virtualAddress) (mapFlags vmmData ctx s.2.kernelSpace)
      return (true, write s.1 table index entry, s.2)
    else
      let s ← vmSetupPagingStructure s.2 s.1 table index
      return (true, s)

/-- The state is the list of the frames passed to `MmuReleaseMemory`, oldest first. -/
def vmUnmapPage (releaseMemory : Bool) : PageWalkCallback (List QWORD) :=
  fun table index virtualAddress pageLevel s => do
    assertThat (virtualAddress ≠ 0)
    if !pteIsPresent (s.1 table index) then return (false, s)
    if pageLevel = pagingTablesLastLevel then
      let pa := pteGetPhysicalAddress (s.1 table index)
      return (true, write s.1 table index pteUnmap, if releaseMemory then s.2 ++ [pa] else s.2)
    else return (true, s)

structure PhysAccess where
  physicalAddress : QWORD
  accessed : Bool
  dirty : Bool
  deriving DecidableEq, Repr

/-- The bits of the entry that maps the page are read, and cleared when asked for. -/
def retrieveAccess (clearAccessed clearDirty : Bool) (physicalAddress : QWORD)
    (table : BitVec 40) (index : BitVec 9) (mem : PhysMemory) : PhysMemory × PhysAccess :=
  let entry := mem table index
  let cleared := { entry with
    accessed := entry.accessed && !clearAccessed
    dirty := entry.dirty && !clearDirty }
  (write mem table index cleared, ⟨physicalAddress, entry.accessed, entry.dirty⟩)

def vmRetrievePhyAccess (clearAccessed clearDirty : Bool) : PageWalkCallback PhysAccess :=
  fun table index virtualAddress pageLevel s => do
    assertThat (virtualAddress ≠ 0)
    let entry := s.1 table index
    if !pteIsPresent entry then return (false, s.1, { s.2 with physicalAddress := 0 })
    if pageLevel < pagingTablesLastLevel - 1 then return (true, s)
    if pageLevel = pagingTablesLastLevel - 1 then
      if entry.pageSize then
        let pa := pteLargePageGetPhysicalAddress entry + (virtualAddress &&& 0x1FFFFF)
        return (false, retrieveAccess clearAccessed clearDirty pa table index s.1)
      else return (true, s)
    else return (false, retrieveAccess clearAccessed clearDirty (pteGetPhysicalAddress entry) table
      index s.1)

def vmmMapMemoryInternal (vmmData : VmmData) (mem : PhysMemory) (pagingData : PagingData)
    (physicalAddress size baseAddress : QWORD) (pageRights : DWORD) (invalidate uncacheable : Bool) :
    Except Fault (PhysMemory × PagingData) := do
  assertThat (isAddressAligned physicalAddress pageSize = true)
  assertThat (size ≠ 0 ∧ isAddressAligned size pageSize = true)
  vmWalkPagingTables pagingData.basePhysicalAddress baseAddress size
    (vmMapPage vmmData ⟨physicalAddress, baseAddress, pageRights, invalidate, uncacheable⟩)
    (mem, pagingData)

/-- Returns the memory and the frames passed to `MmuReleaseMemory`. -/
def vmmUnmapMemoryEx (mem : PhysMemory) (cr3 virtualAddress size : QWORD) (releaseMemory : Bool) :
    Except Fault (PhysMemory × List QWORD) :=
  if virtualAddress = 0 ∨ isAddressAligned virtualAddress pageSize = false then .ok (mem, [])
  else if size = 0 ∨ isAddressAligned size pageSize = false then .ok (mem, [])
  else vmWalkPagingTables cr3 virtualAddress size (vmUnmapPage releaseMemory) (mem, [])

def vmmGetPhysicalAddressEx (mem : PhysMemory) (cr3 virtualAddress : QWORD)
    (accessed dirty : Bool) : Except Fault (PhysMemory × PhysAccess) := do
  assertThat (virtualAddress ≠ 0)
  assertThat (isAddressAligned virtualAddress pageSize = true)
  vmWalkPagingTables cr3 virtualAddress pageSize (vmRetrievePhyAccess accessed dirty)
    (mem, ⟨0, false, false⟩)

def vmmGetPhysicalAddress (mem : PhysMemory) (cr3 virtualAddress : QWORD) : Except Fault QWORD := do
  let (_, access) ← vmmGetPhysicalAddressEx mem cr3 virtualAddress false false
  return access.physicalAddress

end HAL9000.Paging
