import HAL9000.Mmu.Mdl
import HAL9000.Vmm.FaultExits
import HAL9000.Vmm.Unmapping

/-! Allocating a region of virtual memory, `VmmAllocRegionEx` in `vmm.c`: the reservation, the frames,
the mapping, the read of a backing file, and the cleanup when that read fails. -/
namespace HAL9000.Paging

open RadixTree Vmm Pmm

def vmmAllocTypeNotLazy : DWORD := 0x4
def vmmAllocTypeZero : DWORD := 0x8

/-- The state that the paging data, the reservation space and the files have together; the frames in
`pagesToZero` are released by the zero worker later on. -/
structure RegionState extends FrameState where
  vaSpace : VmmReservationSpace
  openFiles : List QWORD
  pagesToZero : List QWORD

/-- What an allocation depends on: the attributes of memory, the bitmap's place, the paging data of the
kernel, the bytes that a file has when so many are read from its start, `none` if the read fails, and
whether a file can be closed. -/
structure RegionEnv where
  vmmData : VmmData
  allocationBitmap : Bitmap
  kernelBase : QWORD
  ioReadFile : QWORD → QWORD → Option (List BYTE)
  ioCloseFile : QWORD → Bool

/-- The size of the pages that a pair lies in. -/
def MdlTranslationPair.alignedSize (p : MdlTranslationPair) : QWORD :=
  alignAddressUpper (p.numberOfBytes.setWidth 64 + (p.address &&& (pageSize - 1))) pageSize

/-- The pairs are mapped one behind the other; pages that are mapped already stay. -/
def vmmMapDescribedRegion (vmmData : VmmData) (baseAddress : QWORD) (rights : DWORD) :
    List MdlTranslationPair → QWORD → PhysMemory × PagingData → Except Fault (PhysMemory × PagingData)
  | [], _, s => .ok s
  | p :: pairs, currentOffset, s => do
    let alignedPa := alignAddressLower p.address pageSize
    let alignedPaSize := p.alignedSize
    let s ← mmuMapMemoryInternal vmmData s.1 s.2 alignedPa alignedPaSize rights
      (baseAddress + currentOffset) false false
    vmmMapDescribedRegion vmmData baseAddress rights pairs (currentOffset + alignedPaSize) s

/-- Unmaps the commit bitmap and closes the backing file. -/
def vmUninitializeReservation (env : RegionEnv) (s : RegionState) (r : VmmReservation) :
    Except Fault RegionState := do
  assertThat (isAddressAligned r.commitBitmap.bitmapBuffer pageSize = true)
  let (mem, released) ← mmuUnmapMemoryEx s.mem env.kernelBase r.commitBitmap.bitmapBuffer
    (r.commitBitmap.bufferSize.setWidth 64) true
  let openFiles := if r.backingFile ≠ 0 && env.ioCloseFile r.backingFile then
    s.openFiles.erase r.backingFile else s.openFiles
  return { s with
    mem := mem
    pagesToZero := s.pagesToZero ++ released
    openFiles := openFiles }

/-- `VmReservationSpaceFreeRegion` with `VMM_FREE_TYPE_RELEASE`; returns the range of the
reservation. -/
def releaseReservation (env : RegionEnv) (s : RegionState) (address : QWORD) :
    Except Fault (RegionState × QWORD × QWORD) := do
  match ← vmFindReservation s.vaSpace address 1 with
  | none => .error .assertFailed
  | some i =>
    let (vaSpace, alignedAddress, alignedSize) ←
      vmReservationSpaceFreeRegion s.vaSpace address 0 vmmFreeTypeRelease
    let s' ← vmUninitializeReservation env { s with vaSpace := vaSpace } (s.vaSpace.slots i)
    return (s', alignedAddress, alignedSize)

/-- The failure exit when frames have been mapped. The size is that of the whole reservation, cut to
32 bits. -/
def undoRegion (env : RegionEnv) (s : RegionState) (pBaseAddress : QWORD) :
    Except Fault (QWORD × RegionState) := do
  let (s, pAlignedAddress, alignedSize) ← releaseReservation env s pBaseAddress
  assertThat (pAlignedAddress = pBaseAddress)
  let (mem, released) ← mmuUnmapMemoryEx s.mem s.pagingData.basePhysicalAddress pAlignedAddress
    ((alignedSize.setWidth 32 : DWORD).setWidth 64) true
  return (0, { s with mem := mem, pagesToZero := s.pagesToZero ++ released })

/-- The bytes of the file, and zeros behind them, go to the frames from `pa` on. -/
def RegionState.fillRegion (s : RegionState) (pa : QWORD) (bytes : List BYTE) (size : QWORD) :
    RegionState :=
  { s with contents := fun f o =>
      if f - pa < size then (bytes[(f - pa).toNat + o]?).getD 0 else s.contents f o }

/-- The frames for a region that no list describes, its mapping and its contents. -/
def backRegion (env : RegionEnv) (s : RegionState) (req : AllocRequest) (base size : QWORD) :
    Except Fault (QWORD × RegionState) := do
  assertThat (size / pageSize ≤ Vmm.maxDword)
  let noOfFrames : DWORD := (size / pageSize).setWidth 32
  let (pa, frames) ← pmmReserveMemoryEx s.frames env.allocationBitmap noOfFrames 0
  let s := { s with frames := frames }
  if pa = 0 then return (base, s)
  let (mem, pagingData) ← mmuMapMemoryInternal env.vmmData s.mem s.pagingData pa size
    req.attr.rights base true req.attr.uncacheable
  let s := { s with mem := mem, pagingData := pagingData }
  if req.attr.fileObject = 0 then return (base, s)
  match env.ioReadFile req.attr.fileObject size with
  | none => undoRegion env s base
  | some bytes =>
    assertThat (size - BitVec.ofNat 64 bytes.length ≤ Vmm.maxDword)
    return (base, s.fillRegion pa bytes size)

/-- The region that has been reserved or committed is mapped unless it is a lazy one. -/
def mapRegion (env : RegionEnv) (s : RegionState) (req : AllocRequest) (mdl : Option Mdl)
    (base size : QWORD) : Except Fault (QWORD × RegionState) := do
  assertThat (base ≠ 0)
  if isBooleanFlagOn req.allocType vmmAllocTypeNotLazy then
    assertThat (isBooleanFlagOn req.allocType vmmAllocTypeCommit = true)
    match mdl with
    | some mdl =>
      assertThat (mdl.byteCount.setWidth 64 ≤ size)
      assertThat (isAddressAligned base pageSize = true)
      let (mem, pagingData) ← vmmMapDescribedRegion env.vmmData base req.attr.rights
        (mdl.translations.take mdl.numberOfTranslationPairs.toNat) 0 (s.mem, s.pagingData)
      return (base, { s with mem := mem, pagingData := pagingData })
    | none => backRegion env s req base size
  else return (base, s)

/-- Returns the address of the region, 0 for `NULL`. -/
def vmmAllocRegionEx (env : RegionEnv) (s : RegionState) (req : AllocRequest) (mdl : Option Mdl) :
    Except Fault (QWORD × RegionState) := do
  assertThat (req.size ≠ 0)
  assertThat (isFlagOn req.allocType (vmmAllocTypeCommit ||| vmmAllocTypeReserve) = true)
  assertThat (mdl = none ∨ isBooleanFlagOn req.allocType vmmAllocTypeNotLazy = true)
  assertThat (isBooleanFlagOn req.allocType vmmAllocTypeZero = false)
  assertThat (mdl = none ∨ req.attr.fileObject = 0)
  let (vaSpace, r) ← vmReservationSpaceAllocRegion s.vaSpace req
  match r with
  | .error _ => return (0, { s with vaSpace := vaSpace })
  | .ok (base, size) => mapRegion env { s with vaSpace := vaSpace } req mdl base size

/-- `NULL` leaves reservations, commit bits, files, page tables and frames as they were; any other
address stands for a region that is mapped, unless it is a lazy one. -/
structure AllOrNothing (env : RegionEnv) (s s' : RegionState) (req : AllocRequest)
    (address : QWORD) : Prop where
  nothing : address = 0 →
    (s'.vaSpace.slots = s.vaSpace.slots ∧ s'.vaSpace.memory = s.vaSpace.memory) ∧
      s'.openFiles = s.openFiles ∧
      SameFrames env.allocationBitmap s.toFrameState s'.toFrameState
  all : address ≠ 0 → isBooleanFlagOn req.allocType vmmAllocTypeNotLazy = true →
    ∀ va, va - address < (s.vaSpace.place req).2.2 → translate s'.mem s'.pagingData.root va ≠ none

/-- There is a run of free frames for the whole region. -/
def FramesFound (env : RegionEnv) (s : RegionState) (size : QWORD) : Prop :=
  ∃ pa frames, pmmReserveMemoryEx s.frames env.allocationBitmap
    ((size / pageSize).setWidth 32) 0 = .ok (pa, frames) ∧ pa ≠ 0

/-- The pairs, one behind the other from an offset on, reach the page of the address. -/
def DescribesPage (base va : QWORD) : List MdlTranslationPair → QWORD → Prop
  | [], _ => False
  | p :: pairs, currentOffset =>
    pageDistance (base + currentOffset) va < p.alignedSize.toNat / 4096 ∨
      DescribesPage base va pairs (currentOffset + p.alignedSize)

/-- There is something to map the page to. -/
def Backed (env : RegionEnv) (s : RegionState) (mdl : Option Mdl) (base size va : QWORD) : Prop :=
  match mdl with
  | some mdl => DescribesPage base va (mdl.translations.take mdl.numberOfTranslationPairs.toNat) 0
  | none => FramesFound env s size

/-- A region that is not lazy can be mapped as a whole, and its file can be read. -/
structure Completes (env : RegionEnv) (s : RegionState) (req : AllocRequest) (mdl : Option Mdl)
    (base size : QWORD) : Prop where
  backed : ∀ va, va - base < size →
    translate s.mem s.pagingData.root va ≠ none ∨ Backed env s mdl base size va
  read : mdl = none → req.attr.fileObject ≠ 0 → FramesFound env s size →
    env.ioReadFile req.attr.fileObject size ≠ none

section Mapping

variable {vmmData : VmmData} {ctx : MapContext} {mem mem' : PhysMemory} {pd pd' : PagingData}
  {base size : QWORD}

/-- A mapping that goes through maps the pages of its range, except for those that it keeps. -/
theorem mmuMapMemoryInternal_lookup (h : PagingInv mem pd) (hsize : size.toNat ≤ 2 ^ 48)
    {pa : QWORD} {rights : DWORD} {invalidate uncacheable : Bool}
    (hok : mmuMapMemoryInternal vmmData mem pd pa size rights base invalidate uncacheable =
      .ok (mem', pd')) :
    PagingInv mem' pd' ∧ pd'.root = pd.root ∧ ∀ va, lookup mem' pd.root va =
      if pageDistance base va < size.toNat / 4096 then
        some (mappedEntry vmmData ⟨pa, base, rights, invalidate, uncacheable⟩ pd
          (pageAt base (pageDistance base va)) (lookup mem pd.root va))
      else lookup mem pd.root va := by
  obtain ⟨_, -, hok⟩ := bind_eq_ok.mp hok
  obtain ⟨_, -, hok⟩ := bind_eq_ok.mp hok
  obtain ⟨_, -, hok⟩ := bind_eq_ok.mp hok
  obtain ⟨_, hbal, hok⟩ := bind_eq_ok.mp hok
  have hr := PageRange.of_map (assertThat_eq_ok.mp hbal) hok
  have hpa : isAddressAligned pa pageSize = true := by
    obtain ⟨_, hpa, -⟩ := bind_eq_ok.mp hok
    exact assertThat_eq_ok.mp hpa
  rcases @vmmMapMemoryInternal_spec _ _ _ _ vmmData h hr hsize _ hpa rights invalidate uncacheable
    with ⟨mem₁, m, -, hspec, hinv, hlook⟩ | ⟨herr, -⟩
  · rw [hspec] at hok
    obtain ⟨rfl, rfl⟩ := Prod.mk.inj (Except.ok.inj hok)
    simp only [Nat.zero_le, true_and, Nat.zero_add] at hlook
    exact ⟨hinv, rfl, hlook⟩
  · rw [herr] at hok
    cases hok

/-- A mapping that goes through maps the pages of its range and unmaps none. -/
private theorem mmuMapMemoryInternal_ok (h : PagingInv mem pd) (hsize : size.toNat ≤ 2 ^ 48)
    {pa : QWORD} {rights : DWORD} {invalidate uncacheable : Bool}
    (hok : mmuMapMemoryInternal vmmData mem pd pa size rights base invalidate uncacheable =
      .ok (mem', pd')) :
    PagingInv mem' pd' ∧ pd'.root = pd.root ∧ ∀ va, translate mem' pd.root va ≠ none ↔
      translate mem pd.root va ≠ none ∨ pageDistance base va < size.toNat / 4096 := by
  obtain ⟨hinv, hroot, hlook⟩ := mmuMapMemoryInternal_lookup h hsize hok
  refine ⟨hinv, hroot, fun va => ?_⟩
  rw [translate, translate, hlook]
  split_ifs with hin
  · exact iff_of_true (by simp) (Or.inr hin)
  · simp [hin]

theorem alignedSize_le (p : MdlTranslationPair) : p.alignedSize.toNat ≤ 2 ^ 48 := by
  have hlt := p.numberOfBytes.isLt
  have hmask : (p.address &&& (pageSize - 1)).toNat ≤ 4095 := by
    rw [BitVec.toNat_and, show (pageSize - 1 : QWORD).toNat = 4095 from rfl]
    exact Nat.and_le_right
  have hsum : (p.numberOfBytes.setWidth 64 + (p.address &&& (pageSize - 1)) : QWORD).toNat ≤
      2 ^ 33 := by
    rw [BitVec.toNat_add, BitVec.toNat_setWidth]
    lia
  have hpad := alignPadding_lt
    (p.numberOfBytes.setWidth 64 + (p.address &&& (pageSize - 1)) : QWORD).toNat
    (show 0 < pageSize.toNat by decide)
  rw [show pageSize.toNat = 4096 from rfl] at hpad
  rw [MdlTranslationPair.alignedSize, alignAddressUpper_toNat (k := 12) rfl,
    show pageSize.toNat = 4096 from rfl]
  lia

/-- Mapping what a list describes. -/
private theorem vmmMapDescribedRegion_ok {rights : DWORD} {pairs : List MdlTranslationPair}
    {off : QWORD} (h : PagingInv mem pd)
    (hok : vmmMapDescribedRegion vmmData base rights pairs off (mem, pd) = .ok (mem', pd')) :
    pd'.root = pd.root ∧ ∀ va, translate mem' pd.root va ≠ none ↔
      translate mem pd.root va ≠ none ∨ DescribesPage base va pairs off := by
  induction pairs generalizing mem pd off with
  | nil =>
    cases hok
    exact ⟨rfl, fun va => (or_iff_left id).symm⟩
  | cons p pairs ih =>
    obtain ⟨⟨mem₁, pd₁⟩, hmap, hrest⟩ := bind_eq_ok.mp hok
    obtain ⟨hinv, hroot, hone⟩ := mmuMapMemoryInternal_ok h (alignedSize_le p) hmap
    obtain ⟨hroot', hmore⟩ := ih hinv hrest
    refine ⟨hroot'.trans hroot, fun va => ?_⟩
    have hmore := hmore va
    rw [hroot, hone va, or_assoc] at hmore
    exact hmore

end Mapping

section Calls

variable {env : RegionEnv} {s s' : RegionState} {req : AllocRequest} {mdl : Option Mdl}
  {base size address : QWORD}

/-- The cleanup gives no frame back itself. -/
private theorem undoRegion_ok (h : undoRegion env s base = .ok (address, s')) :
    address = 0 ∧ s'.frames = s.frames := by
  obtain ⟨⟨s₁, a, n⟩, hrelease, h⟩ := bind_eq_ok.mp h
  obtain ⟨_, -, h⟩ := bind_eq_ok.mp h
  obtain ⟨⟨mem, released⟩, -, h⟩ := bind_eq_ok.mp h
  cases h
  refine ⟨rfl, ?_⟩
  show s₁.frames = s.frames
  obtain ⟨found, -, hrelease⟩ := bind_eq_ok.mp hrelease
  cases found with
  | none => cases hrelease
  | some i =>
    obtain ⟨⟨vaSpace, a', n'⟩, -, hrelease⟩ := bind_eq_ok.mp hrelease
    obtain ⟨s₂, huninit, hrelease⟩ := bind_eq_ok.mp hrelease
    cases hrelease
    obtain ⟨_, -, huninit⟩ := bind_eq_ok.mp huninit
    obtain ⟨r, -, huninit⟩ := bind_eq_ok.mp huninit
    cases huninit
    rfl

/-- A region that no file backs has the reservation that was made for it. -/
theorem vmmAllocRegionEx_vaSpace (hfile : req.attr.fileObject = 0)
    (h : vmmAllocRegionEx env s req none = .ok (address, s')) :
    ∃ r, vmReservationSpaceAllocRegion s.vaSpace req = .ok (s'.vaSpace, r) ∧
      (address ≠ 0 → ∃ size, r = .ok (address, size)) := by
  obtain ⟨_, -, h⟩ := bind_eq_ok.mp h
  obtain ⟨_, -, h⟩ := bind_eq_ok.mp h
  obtain ⟨_, -, h⟩ := bind_eq_ok.mp h
  obtain ⟨_, -, h⟩ := bind_eq_ok.mp h
  obtain ⟨_, -, h⟩ := bind_eq_ok.mp h
  obtain ⟨⟨vaSpace, r⟩, hreserve, h⟩ := bind_eq_ok.mp h
  cases r with
  | error st =>
    cases h
    exact ⟨_, hreserve, fun h0 => absurd rfl h0⟩
  | ok range =>
    obtain ⟨base, size⟩ := range
    suffices hsame : s'.vaSpace = vaSpace ∧ address = base by
      rw [hsame.1, hsame.2]
      exact ⟨_, hreserve, fun _ => ⟨size, rfl⟩⟩
    obtain ⟨_, -, h⟩ := bind_eq_ok.mp h
    split_ifs at h
    · obtain ⟨_, -, h⟩ := bind_eq_ok.mp h
      obtain ⟨_, -, h⟩ := bind_eq_ok.mp h
      obtain ⟨⟨pa, frames⟩, -, h⟩ := bind_eq_ok.mp h
      dsimp only at h
      by_cases hpa : pa = 0
      · rw [if_pos hpa] at h
        cases h
        exact ⟨rfl, rfl⟩
      · rw [if_neg hpa] at h
        obtain ⟨⟨mem, pd⟩, -, h⟩ := bind_eq_ok.mp h
        dsimp only at h
        rw [if_pos hfile] at h
        cases h
        exact ⟨rfl, rfl⟩
    · cases h
      exact ⟨rfl, rfl⟩

/-- How backing a region ends. -/
private theorem backRegion_cases (hinv : PagingInv s.mem s.pagingData)
    (h : backRegion env s req base size = .ok (address, s')) :
    (∃ pa frames, pmmReserveMemoryEx s.frames env.allocationBitmap ((size / pageSize).setWidth 32)
        0 = .ok (pa, frames) ∧ pa ≠ 0 ∧ req.attr.fileObject ≠ 0 ∧
        env.ioReadFile req.attr.fileObject size = none ∧ address = 0 ∧ s'.frames = frames) ∨
      (req.attr.fileObject ≠ 0 → FramesFound env s size →
        env.ioReadFile req.attr.fileObject size ≠ none) ∧ address = base ∧
      ((∀ va, va - base < size → translate s'.mem s'.pagingData.root va ≠ none) ↔
        ∀ va, va - base < size → translate s.mem s.pagingData.root va ≠ none ∨
          FramesFound env s size) := by
  obtain ⟨_, hpages, h⟩ := bind_eq_ok.mp h
  obtain ⟨⟨pa, frames⟩, hreserve, h⟩ := bind_eq_ok.mp h
  have hpages : (size / pageSize).toNat ≤ 2 ^ 32 - 1 := assertThat_eq_ok.mp hpages
  rw [BitVec.toNat_udiv, show pageSize.toNat = 4096 from rfl] at hpages
  dsimp only at h
  by_cases hpa : pa = 0
  · rw [if_pos hpa] at h
    cases h
    have hnone : ¬ FramesFound env s size := by
      intro hfound
      obtain ⟨pa', frames', heq, hne⟩ := hfound
      rw [hreserve] at heq
      obtain ⟨rfl, -⟩ := Prod.mk.inj (Except.ok.inj heq)
      exact hne hpa
    refine Or.inr ⟨fun _ hfound => absurd hfound hnone, rfl, ?_⟩
    simp only [hnone, or_false]
  · rw [if_neg hpa] at h
    obtain ⟨⟨mem, pd⟩, hmap, h⟩ := bind_eq_ok.mp h
    have hfound : FramesFound env s size := ⟨pa, frames, hreserve, hpa⟩
    obtain ⟨-, hroot, hmapped⟩ := mmuMapMemoryInternal_ok hinv (by omega) hmap
    have hall : ∀ va, va - base < size → translate mem pd.root va ≠ none := by
      intro va hva
      have hva : (va - base).toNat < size.toNat := hva
      have hal : size.toNat % 4096 = 0 := by
        obtain ⟨_, -, hmap⟩ := bind_eq_ok.mp hmap
        obtain ⟨_, hal, -⟩ := bind_eq_ok.mp hmap
        exact aligned_iff.mp (assertThat_eq_ok.mp hal)
      rw [hroot]
      refine (hmapped va).mpr (Or.inr ?_)
      rw [pageDistance]
      lia
    have hiff : (∀ va, va - base < size → translate mem pd.root va ≠ none) ↔
        ∀ va, va - base < size → translate s.mem s.pagingData.root va ≠ none ∨
          FramesFound env s size :=
      iff_of_true hall fun _ _ => Or.inr hfound
    dsimp only at h
    by_cases hfile : req.attr.fileObject = 0
    · rw [if_pos hfile] at h
      cases h
      exact Or.inr ⟨fun hne => absurd hfile hne, rfl, hiff⟩
    · rw [if_neg hfile] at h
      cases hread : env.ioReadFile req.attr.fileObject size with
      | none =>
        simp only [hread] at h
        obtain ⟨rfl, hframes⟩ := undoRegion_ok h
        exact Or.inl ⟨pa, frames, hreserve, hpa, hfile, rfl, rfl, hframes⟩
      | some bytes =>
        simp only [hread] at h
        obtain ⟨_, -, h⟩ := bind_eq_ok.mp h
        cases h
        exact Or.inr ⟨fun _ _ => by simp, rfl, hiff⟩

/-- A granted request is all or nothing exactly if it completes. -/
private theorem mapRegion_iff {vaSpace : VmmReservationSpace} (hinv : PagingInv s.mem s.pagingData)
    (hplace : (s.vaSpace.place req).2 = (base, size))
    (hlazy : isBooleanFlagOn req.allocType vmmAllocTypeNotLazy = true)
    (h : mapRegion env { s with vaSpace := vaSpace } req mdl base size = .ok (address, s')) :
    AllOrNothing env s s' req address ↔ Completes env s req mdl base size := by
  obtain ⟨_, hbase, h⟩ := bind_eq_ok.mp h
  have hbase := assertThat_eq_ok.mp hbase
  have hsize : (s.vaSpace.place req).2.2 = size := by rw [hplace]
  rw [if_pos hlazy] at h
  obtain ⟨_, -, h⟩ := bind_eq_ok.mp h
  cases mdl with
  | some mdl =>
    obtain ⟨_, -, h⟩ := bind_eq_ok.mp h
    obtain ⟨_, -, h⟩ := bind_eq_ok.mp h
    obtain ⟨⟨mem, pd⟩, hmap, h⟩ := bind_eq_ok.mp h
    cases h
    obtain ⟨hroot, hmapped⟩ := vmmMapDescribedRegion_ok hinv hmap
    constructor
    · intro hall
      refine ⟨fun va hva => ?_, fun hnone => nomatch hnone⟩
      have hpage := hall.all hbase hlazy va (by rwa [hsize])
      dsimp only at hpage
      rw [hroot] at hpage
      exact (hmapped va).mp hpage
    · intro hcompletes
      refine ⟨fun h0 => absurd h0 hbase, fun _ _ va hva => ?_⟩
      rw [hsize] at hva
      dsimp only
      rw [hroot]
      exact (hmapped va).mpr (hcompletes.backed va hva)
  | none =>
    have hcases := backRegion_cases (s := { s with vaSpace := vaSpace }) hinv h
    rcases hcases with ⟨pa, frames, hreserve, hpa, hfile, hread, rfl, hframes⟩ | ⟨hread, rfl, hiff⟩
    · refine iff_of_false (fun hall => ?_) fun hcompletes =>
        hcompletes.read rfl hfile ⟨pa, frames, hreserve, hpa⟩ hread
      obtain ⟨-, -, -, hsame⟩ := hall.nothing rfl
      obtain ⟨hn, i, -, hfree, hbits⟩ := pmmReserveMemoryEx_granted hreserve hpa
      have hpos : 0 < ((size / pageSize).setWidth 32 : DWORD).toNat := by
        apply Nat.pos_of_ne_zero
        intro h0
        exact hn (BitVec.eq_of_toNat_eq h0)
      have hfits := hfree.1
      have hold := hfree.2 0 hpos
      have hnew := (hbits (byteAddress env.allocationBitmap.bitmapBuffer (BitVec.ofNat 32 i)) (i % 8)
        (Nat.mod_lt i (by norm_num))).1 ⟨i, Nat.le_refl i, by omega, rfl, rfl⟩
      have hbit := hsame i (by omega)
      rw [hframes] at hbit
      exact absurd (hnew.symm.trans (hbit.trans hold)) (by decide)
    · constructor
      · intro hall
        have hpages := hiff.mp fun va hva => hall.all hbase hlazy va (by rwa [hsize])
        exact ⟨hpages, fun _ hfile hfound => hread hfile hfound⟩
      · intro hcompletes
        refine ⟨fun h0 => absurd h0 hbase, fun _ _ va hva => ?_⟩
        rw [hsize] at hva
        exact hiff.mpr hcompletes.backed va hva

/-- A call that returns is all or nothing exactly if its region, once granted, is lazy or can be
completed. -/
theorem allOrNothing_iff {m : ℕ} (hm : Marker s.vaSpace m) (hinv : PagingInv s.mem s.pagingData)
    (h : vmmAllocRegionEx env s req mdl = .ok (address, s')) :
    AllOrNothing env s s' req address ↔
      ∀ vaSpace base size, vmReservationSpaceAllocRegion s.vaSpace req =
          .ok (vaSpace, .ok (base, size)) →
        isBooleanFlagOn req.allocType vmmAllocTypeNotLazy = true →
        Completes env s req mdl base size := by
  obtain ⟨_, -, h⟩ := bind_eq_ok.mp h
  obtain ⟨_, -, h⟩ := bind_eq_ok.mp h
  obtain ⟨_, -, h⟩ := bind_eq_ok.mp h
  obtain ⟨_, -, h⟩ := bind_eq_ok.mp h
  obtain ⟨_, -, h⟩ := bind_eq_ok.mp h
  obtain ⟨⟨vaSpace, r⟩, hreserve, h⟩ := bind_eq_ok.mp h
  cases r with
  | error st =>
    cases h
    refine iff_of_true ⟨fun _ => ?_, fun h0 => absurd rfl h0⟩ fun _ _ _ heq _ => ?_
    · exact ⟨vmReservationSpaceAllocRegion_refused hm hreserve, rfl, rfl, fun _ _ => rfl⟩
    · rw [hreserve] at heq
      cases heq
  | ok range =>
    obtain ⟨base, size⟩ := range
    have hplace := vmReservationSpaceAllocRegion_granted hreserve
    by_cases hlazy : isBooleanFlagOn req.allocType vmmAllocTypeNotLazy = true
    · rw [mapRegion_iff hinv hplace hlazy h]
      constructor
      · intro hcompletes vaSpace' base' size' heq _
        rw [hreserve] at heq
        obtain ⟨-, hrange⟩ := Prod.mk.inj (Except.ok.inj heq)
        obtain ⟨rfl, rfl⟩ := Prod.mk.inj (Except.ok.inj hrange)
        exact hcompletes
      · exact fun hall => hall vaSpace base size hreserve hlazy
    · obtain ⟨_, hbase, h⟩ := bind_eq_ok.mp h
      have hbase := assertThat_eq_ok.mp hbase
      rw [if_neg hlazy] at h
      cases h
      exact iff_of_true ⟨fun h0 => absurd h0 hbase, fun _ hflag => absurd hflag hlazy⟩
        fun _ _ _ _ hflag => absurd hflag hlazy

end Calls

/-- Every frame of the bitmap is reserved. -/
def noFrames : RegionEnv := ⟨⟨0, 0⟩, eightFrames, 0x100000, fun _ _ => none, fun _ => true⟩

/-- A process without reservations and mappings, and without free frames. -/
def exhausted : RegionState :=
  ⟨⟨emptyMemory, smallPool, fun _ => 0xFF, fun _ _ => 0⟩, processSpace, [], []⟩

private theorem exhausted_inv : PagingInv exhausted.mem exhausted.pagingData :=
  pagingInv_of_emptyRoot emptyMemory poolOk_smallPool fun _ => rfl

/-- One page, reserved and committed. -/
def onePageRequest (allocType : DWORD) : AllocRequest := ⟨0x140000000, 0x1000, allocType, ⟨1, false, 0⟩⟩

/-- The address of a region is returned that is not lazy and not mapped. -/
theorem region_not_mapped :
    Marker exhausted.vaSpace 0 ∧ PagingInv exhausted.mem exhausted.pagingData ∧
      ∃ s', vmmAllocRegionEx noFrames exhausted (onePageRequest 7) none = .ok (0x140000000, s') ∧
        translate s'.mem s'.pagingData.root 0x140000000 = none ∧
        ¬ AllOrNothing noFrames exhausted s' (onePageRequest 7) 0x140000000 := by
  have hcall : ∃ s', vmmAllocRegionEx noFrames exhausted (onePageRequest 7) none =
      .ok (0x140000000, s') ∧ s'.mem = emptyMemory :=
    ⟨_, rfl, rfl⟩
  obtain ⟨s', hok, hmem⟩ := hcall
  have hnone : translate s'.mem s'.pagingData.root 0x140000000 = none := by
    rw [hmem]
    rfl
  refine ⟨processSpace_initialised.marker, exhausted_inv, s', hok, hnone, fun hall => ?_⟩
  exact hall.all (by decide) (by decide) 0x140000000 (by decide) hnone

def withFrames : RegionState := { exhausted with frames := twoReserved }

/-- Two pages that are not lazy get the first two frames that are free. -/
theorem mappedRegion_allOrNothing :
    ∃ s', vmmAllocRegionEx noFrames withFrames { onePageRequest 7 with size := 0x2000 } none =
        .ok (0x140000000, s') ∧
      AllOrNothing noFrames withFrames s' { onePageRequest 7 with size := 0x2000 } 0x140000000 := by
  obtain ⟨⟨address, s'⟩, hok, haddress⟩ := ok_of_map (b := (0x140000000 : QWORD))
    (show ((vmmAllocRegionEx noFrames withFrames { onePageRequest 7 with size := 0x2000 } none).map
      Prod.fst).toOption = some 0x140000000 by decide +kernel)
  obtain rfl : address = 0x140000000 := haddress
  have hm : Marker withFrames.vaSpace 0 := processSpace_initialised.marker
  have hinv : PagingInv withFrames.mem withFrames.pagingData := exhausted_inv
  refine ⟨s', hok, (allOrNothing_iff hm hinv hok).mpr ?_⟩
  intro _ _ _ hreserve _
  obtain ⟨-, rfl⟩ := Prod.mk.inj (vmReservationSpaceAllocRegion_granted hreserve)
  exact ⟨fun _ _ => Or.inr ⟨0x1000, _, rfl, by decide⟩, fun _ hfile => absurd rfl hfile⟩

end HAL9000.Paging
