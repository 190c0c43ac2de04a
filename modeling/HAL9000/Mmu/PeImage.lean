import HAL9000.Mmu.Mdl

/-! Mapping a PE image: `PeRetrieveSection` in `pe_parser.c` and `_MmuMapPeInMemory` in `mmu.c`.
Sections that do not fill a page are held back and mapped with the section that fills it. -/
namespace HAL9000.Paging

inductive PeStatus
  | success
  | unsupported
  | invalidParameter2
  | invalidImageSize
  | notImplemented
  deriving DecidableEq, Repr

def imageFileMachineAmd64 : WORD := 0x8664

def imageScnMemExecute : DWORD := 0x20000000
def imageScnMemRead : DWORD := 0x40000000
def imageScnMemWrite : DWORD := 0x80000000

def sizeofDword : QWORD := 4
def sizeofImageFileHeader : QWORD := 20
def sizeofImageSectionHeader : QWORD := 40

/-- An entry of the section table. -/
structure ImageSectionHeader where
  virtualAddress : DWORD
  virtualSize : DWORD
  characteristics : DWORD
  deriving DecidableEq, Repr

/-- The last two fields are not part of the structure of the source: they are the contents of the
image at `NtBase`. -/
structure PeNtHeaderInfo where
  imageBase : QWORD
  ntBase : QWORD
  imageAlignment : DWORD
  fileAlignment : DWORD
  size : DWORD
  machine : WORD
  sizeOfHeaders : DWORD
  numberOfSections : DWORD
  sizeOfOptionalHeader : WORD
  sections : ℕ → ImageSectionHeader

structure PeSectionInfo where
  baseAddress : QWORD
  size : DWORD
  characteristics : DWORD
  deriving DecidableEq, Repr

def peRetrieveSection (ntInfo : PeNtHeaderInfo) (sectionIndex : ℕ) :
    Except PeStatus PeSectionInfo :=
  if ntInfo.numberOfSections.toNat ≤ sectionIndex then .error .invalidParameter2
  else if ntInfo.machine ≠ imageFileMachineAmd64 then .error .unsupported
  else
    let pSections := ntInfo.ntBase + sizeofDword + sizeofImageFileHeader +
      ntInfo.sizeOfOptionalHeader.setWidth 64
    if !checkBounds pSections (sizeofImageSectionHeader * ntInfo.numberOfSections.setWidth 64)
        ntInfo.imageBase (ntInfo.size.setWidth 64) then .error .invalidImageSize
    else
      let header := ntInfo.sections sectionIndex
      let baseAddress := ntInfo.imageBase + header.virtualAddress.setWidth 64
      if !checkBounds baseAddress (header.virtualSize.setWidth 64) ntInfo.imageBase
          (ntInfo.size.setWidth 64) then .error .invalidImageSize
      else .ok ⟨baseAddress, header.virtualSize, header.characteristics⟩

def sectionRights (characteristics : DWORD) : DWORD :=
  (if isBooleanFlagOn characteristics imageScnMemRead then pageRightsRead else 0) |||
  (if isBooleanFlagOn characteristics imageScnMemWrite then pageRightsWrite else 0) |||
  (if isBooleanFlagOn characteristics imageScnMemExecute then pageRightsExecute else 0)

/-- `AlignAddressUpper` works on 64 bits, and the result is stored in a `DWORD`. -/
def alignedSectionSize (size imageAlignment : DWORD) : DWORD :=
  (alignAddressUpper (size.setWidth 64) (imageAlignment.setWidth 64)).setWidth 32

/-- The bytes left in the page that ends with the `DWORD`. -/
def sizeUntilPageEnd (size : DWORD) : DWORD :=
  0x1000 - pageOffset (size.setWidth 64)

/-- The pages to map and their rights, one for each call of `VmmMapMemoryInternal`. -/
abbrev PageCalls := List (QWORD × DWORD)

/-- A loop over pages, from `pPage` on. -/
def mapPagesLoop (goOn : QWORD → Bool) (rights : DWORD) :
    ℕ → QWORD → PageCalls → Except Fault PageCalls
  | 0, _, _ => .error .outOfFuel
  | fuel + 1, pPage, calls =>
    if goOn pPage then mapPagesLoop goOn rights fuel (pPage + pageSize) (calls ++ [(pPage, rights)])
    else .ok calls

/-- The local variables of `_MmuMapPeInMemory`, and the calls made so far. -/
structure PeMapState where
  prevSectionRequiredRights : DWORD
  remainingSize : DWORD
  sectionSize : DWORD
  pAlignedAddress : QWORD
  calls : PageCalls
  deriving DecidableEq, Repr

/-- The body of the loop over the sections. -/
def mapSection (headerInfo : PeNtHeaderInfo) (addressToMap : QWORD) (s : PeMapState)
    (sec : PeSectionInfo) : Except Fault PeMapState := do
  let sectionSize := alignedSectionSize sec.size headerInfo.imageAlignment
  let curSectionRequiredRights := sectionRights sec.characteristics
  assertThat (isBooleanFlagOn curSectionRequiredRights (pageRightsWrite ||| pageRightsExecute) = false)
  if sectionSize < s.remainingSize then
    return { s with
      sectionSize := sectionSize
      remainingSize := s.remainingSize - sectionSize
      prevSectionRequiredRights := s.prevSectionRequiredRights ||| curSectionRequiredRights }
  let pAlignedAddress :=
    alignAddressLower (addressToMap + (sec.baseAddress - headerInfo.imageBase)) pageSize
  let (pAlignedAddress, sectionSize, calls) :=
    if s.remainingSize ≠ 0 then
      (pAlignedAddress + pageSize, sectionSize - s.remainingSize,
        s.calls ++ [(pAlignedAddress, s.prevSectionRequiredRights ||| curSectionRequiredRights)])
    else (pAlignedAddress, sectionSize, s.calls)
  let goOn (pPage : QWORD) : Bool :=
    decide (pPage + pageSize ≤ pAlignedAddress + sectionSize.setWidth 64)
  let calls ← mapPagesLoop goOn curSectionRequiredRights (sectionSize.toNat / 4096 + 1) pAlignedAddress
    calls
  return {
    prevSectionRequiredRights := curSectionRequiredRights
    remainingSize := sizeUntilPageEnd sectionSize
    sectionSize := sectionSize
    pAlignedAddress := pAlignedAddress
    calls := calls }

/-- The loop over the sections, with `left` of them still to do. -/
def mapSectionsLoop (headerInfo : PeNtHeaderInfo) (addressToMap : QWORD) :
    ℕ → PeMapState → Except Fault (PeStatus × PeMapState)
  | 0, s => .ok (.success, s)
  | left + 1, s =>
    match peRetrieveSection headerInfo (headerInfo.numberOfSections.toNat - (left + 1)) with
    | .error status => .ok (status, s)
    | .ok sec => do
      let s ← mapSection headerInfo addressToMap s sec
      mapSectionsLoop headerInfo addressToMap left s

/-- The pages that `_MmuMapPeInMemory` maps, in order. `VmmMapMemoryInternal` returns nothing, so they
do not depend on the paging structures. -/
def peMapCalls (headerInfo : PeNtHeaderInfo) (addressToMap : QWORD) :
    Except Fault (PeStatus × PageCalls) := do
  assertThat (isAddressAligned headerInfo.imageBase pageSize = true)
  assertThat (addressToMap ≠ 0)
  assertThat (isAddressAligned addressToMap pageSize = true)
  if headerInfo.fileAlignment ≠ headerInfo.imageAlignment then return (.notImplemented, [])
  let headersEnd := addressToMap + headerInfo.sizeOfHeaders.setWidth 64 - pageSize
  let calls ← mapPagesLoop (fun pHeaderPage => decide (pHeaderPage < headersEnd)) pageRightsRead
    (headerInfo.sizeOfHeaders.toNat / 4096 + 1) addressToMap []
  let (status, s) ← mapSectionsLoop headerInfo addressToMap headerInfo.numberOfSections.toNat {
    prevSectionRequiredRights := pageRightsRead
    remainingSize := sizeUntilPageEnd headerInfo.sizeOfHeaders
    sectionSize := 0
    pAlignedAddress := 0
    calls := calls }
  if status ≠ .success then return (status, s.calls)
  if s.sectionSize ≠ 0 then
    return (status, s.calls ++ [(s.pAlignedAddress, s.prevSectionRequiredRights)])
  return (status, s.calls)

/-- One call of `VmmMapMemoryInternal`. `getPhysicalAddress` is `MmuGetPhysicalAddress`: the
translation in the address space the call runs in, which it leaves as it is. -/
def mapImagePage (vmmData : VmmData) (getPhysicalAddress : QWORD → QWORD) (headerInfo : PeNtHeaderInfo)
    (addressToMap : QWORD) (s : PhysMemory × PagingData) (call : QWORD × DWORD) :
    Except Fault (PhysMemory × PagingData) :=
  vmmMapMemoryInternal vmmData s.1 s.2
    (getPhysicalAddress (headerInfo.imageBase + (call.1 - addressToMap))) pageSize call.1 call.2 true
    false

def mmuMapPeInMemory (vmmData : VmmData) (getPhysicalAddress : QWORD → QWORD) (mem : PhysMemory)
    (pagingData : PagingData) (headerInfo : PeNtHeaderInfo) (addressToMap : QWORD) :
    Except Fault (PeStatus × PhysMemory × PagingData) := do
  let (status, calls) ← peMapCalls headerInfo addressToMap
  let s ← calls.foldlM (mapImagePage vmmData getPhysicalAddress headerInfo addressToMap)
    (mem, pagingData)
  return (status, s)

/-- The rights of a page in a list of calls are those of the last call for it. -/
def lastRights : List (ℕ × DWORD) → ℕ → Option DWORD
  | [], _ => none
  | p :: ps, k => (lastRights ps k).or (if p.1 = k then some p.2 else none)

/-- The calls for pages that are counted from `AddressToMap` on. -/
def pageCalls (addressToMap : QWORD) (pages : List (ℕ × DWORD)) : PageCalls :=
  pages.map fun p => (pageAt addressToMap p.1, p.2)

section Layout

/-- The size of a section, rounded up to the alignment of the image. -/
def PeNtHeaderInfo.roundedSize (headerInfo : PeNtHeaderInfo) (i : ℕ) : ℕ :=
  (headerInfo.sections i).virtualSize.toNat +
    alignPadding (headerInfo.sections i).virtualSize.toNat headerInfo.imageAlignment.toNat

/-- Where a section starts when all of them follow the headers. -/
def PeNtHeaderInfo.sectionStart (headerInfo : PeNtHeaderInfo) : ℕ → ℕ
  | 0 => headerInfo.sizeOfHeaders.toNat
  | i + 1 => headerInfo.sectionStart i + headerInfo.roundedSize i

/-- The size that the code works with: a `DWORD`. -/
def PeNtHeaderInfo.mappedSize (headerInfo : PeNtHeaderInfo) (i : ℕ) : DWORD :=
  alignedSectionSize (headerInfo.sections i).virtualSize headerInfo.imageAlignment

def PeNtHeaderInfo.mappedStart (headerInfo : PeNtHeaderInfo) : ℕ → ℕ
  | 0 => headerInfo.sizeOfHeaders.toNat
  | i + 1 => headerInfo.mappedStart i + (headerInfo.mappedSize i).toNat

/-- The rights of a section. -/
def PeNtHeaderInfo.rights (headerInfo : PeNtHeaderInfo) (i : ℕ) : DWORD := sectionRights (headerInfo.sections i).characteristics

/-- The rights that are held back when section `i` is reached: those of the sections that touch the
page it starts in, back to the last one that filled a page. -/
def PeNtHeaderInfo.pendingRights (headerInfo : PeNtHeaderInfo) : ℕ → DWORD
  | 0 => pageRightsRead
  | i + 1 =>
    if headerInfo.mappedStart (i + 1) / 4096 = headerInfo.mappedStart i / 4096 then
      headerInfo.pendingRights i ||| headerInfo.rights i
    else headerInfo.rights i

/-- The alignment is a power of two, and the sections follow the headers without gaps. -/
structure PeNtHeaderInfo.Contiguous (headerInfo : PeNtHeaderInfo) : Prop where
  alignment : ∃ e, headerInfo.imageAlignment.toNat = 2 ^ e
  starts : ∀ i < headerInfo.numberOfSections.toNat,
    (headerInfo.sections i).virtualAddress.toNat = headerInfo.sectionStart i

variable {headerInfo : PeNtHeaderInfo}

theorem mappedSize_toNat (h : headerInfo.Contiguous) (i : ℕ) :
    (headerInfo.mappedSize i).toNat = headerInfo.roundedSize i % 2 ^ 32 := by
  obtain ⟨e, he⟩ := h.alignment
  have hlt := headerInfo.imageAlignment.isLt
  have hslt := (headerInfo.sections i).virtualSize.isLt
  have hpos : 0 < headerInfo.imageAlignment.toNat := by
    rw [he]
    exact Nat.two_pow_pos e
  have hpad := alignPadding_lt (headerInfo.sections i).virtualSize.toNat hpos
  have hal : (headerInfo.imageAlignment.setWidth 64 : QWORD).toNat = headerInfo.imageAlignment.toNat := by
    rw [BitVec.toNat_setWidth]
    lia
  have hsize : ((headerInfo.sections i).virtualSize.setWidth 64 : QWORD).toNat =
      (headerInfo.sections i).virtualSize.toNat := by
    rw [BitVec.toNat_setWidth]
    lia
  rw [PeNtHeaderInfo.mappedSize, alignedSectionSize, BitVec.toNat_setWidth,
    alignAddressUpper_toNat (hal.trans he), hal, hsize, PeNtHeaderInfo.roundedSize]
  lia

/-- Rounding up to a power of two stays within 32 bits or ends at `2 ^ 32`. -/
theorem roundedSize_le (h : headerInfo.Contiguous) (i : ℕ) :
    headerInfo.roundedSize i ≤ 2 ^ 32 := by
  obtain ⟨e, he⟩ := h.alignment
  have hlt := headerInfo.imageAlignment.isLt
  have hslt := (headerInfo.sections i).virtualSize.isLt
  have hpos : 0 < headerInfo.imageAlignment.toNat := by
    rw [he]
    exact Nat.two_pow_pos e
  have hpad := alignPadding_lt (headerInfo.sections i).virtualSize.toNat hpos
  have hdvd := dvd_add_alignPadding (headerInfo.sections i).virtualSize.toNat hpos
  have he32 : e ≤ 32 := by
    rw [he] at hlt
    exact Nat.le_of_lt ((Nat.pow_lt_pow_iff_right (by omega)).mp hlt)
  have hdvd32 : headerInfo.imageAlignment.toNat ∣ 2 ^ 32 := by
    rw [he]
    exact Nat.pow_dvd_pow 2 he32
  obtain ⟨q, hq⟩ := hdvd
  obtain ⟨r, hr⟩ := hdvd32
  rw [PeNtHeaderInfo.roundedSize, hq]
  rw [hr]
  apply Nat.mul_le_mul_left
  by_contra hgt
  have hmul := Nat.mul_le_mul_left headerInfo.imageAlignment.toNat (Nat.succ_le_of_lt (Nat.lt_of_not_le hgt))
  rw [Nat.mul_succ] at hmul
  lia

theorem mappedStart_eq (h : headerInfo.Contiguous) {i : ℕ}
    (hi : i < headerInfo.numberOfSections.toNat) :
    headerInfo.mappedStart i = headerInfo.sectionStart i := by
  induction i with
  | zero => rfl
  | succ i ih =>
    have hlt := (headerInfo.sections (i + 1)).virtualAddress.isLt
    rw [h.starts (i + 1) hi] at hlt
    rw [PeNtHeaderInfo.mappedStart, ih (by omega), mappedSize_toNat h i]
    rw [PeNtHeaderInfo.sectionStart] at hlt ⊢
    lia

/-- Only the last section can be as large as `2 ^ 32`, and it counts as empty then. -/
theorem mappedStart_succ_cases (h : headerInfo.Contiguous) {i : ℕ}
    (hi : i < headerInfo.numberOfSections.toNat) :
    headerInfo.mappedStart (i + 1) = headerInfo.sectionStart (i + 1) ∨
      i + 1 = headerInfo.numberOfSections.toNat ∧ headerInfo.mappedSize i = 0 ∧
        headerInfo.roundedSize i = 2 ^ 32 := by
  by_cases hlast : i + 1 < headerInfo.numberOfSections.toNat
  · exact Or.inl (mappedStart_eq h hlast)
  · have hle := roundedSize_le h i
    have hsize := mappedSize_toNat h i
    by_cases hlt : headerInfo.roundedSize i < 2 ^ 32
    · refine Or.inl ?_
      rw [PeNtHeaderInfo.mappedStart, PeNtHeaderInfo.sectionStart, mappedStart_eq h hi, hsize]
      lia
    · refine Or.inr ⟨by omega, ?_, by omega⟩
      apply BitVec.eq_of_toNat_eq
      rw [hsize, show headerInfo.roundedSize i = 2 ^ 32 by omega]
      rfl

theorem mappedStart_mono {i j : ℕ} (hij : i ≤ j) :
    headerInfo.mappedStart i ≤ headerInfo.mappedStart j := by
  induction hij with
  | refl => exact Nat.le_refl _
  | step _ ih =>
    rw [PeNtHeaderInfo.mappedStart]
    omega

theorem sectionStart_mono {i j : ℕ} (hij : i ≤ j) :
    headerInfo.sectionStart i ≤ headerInfo.sectionStart j := by
  induction hij with
  | refl => exact Nat.le_refl _
  | step _ ih =>
    rw [PeNtHeaderInfo.sectionStart]
    omega

theorem mappedStart_le (h : headerInfo.Contiguous) {i : ℕ}
    (hi : i ≤ headerInfo.numberOfSections.toNat) :
    headerInfo.mappedStart i ≤ headerInfo.sectionStart headerInfo.numberOfSections.toNat := by
  have hmono := @sectionStart_mono headerInfo _ _ hi
  cases i with
  | zero => exact hmono
  | succ i =>
    rcases mappedStart_succ_cases h (Nat.lt_of_succ_le hi) with heq | ⟨-, hz, -⟩
    · omega
    · have hprev := @sectionStart_mono headerInfo _ _ (Nat.le_of_lt (Nat.lt_of_succ_le hi))
      rw [PeNtHeaderInfo.mappedStart, mappedStart_eq h (Nat.lt_of_succ_le hi), hz]
      exact hprev

/-- The pages that are mapped when section `i` is reached, and their rights. -/
def PeNtHeaderInfo.mappedRights (headerInfo : PeNtHeaderInfo) : ℕ → ℕ → Option DWORD
  | 0, k => if 4096 * k + 4096 < headerInfo.sizeOfHeaders.toNat then some pageRightsRead else none
  | i + 1, k =>
    if headerInfo.mappedStart i / 4096 ≤ k ∧ k < headerInfo.mappedStart (i + 1) / 4096 then
      some (if k = headerInfo.mappedStart i / 4096 then
        headerInfo.pendingRights i ||| headerInfo.rights i else headerInfo.rights i)
    else headerInfo.mappedRights i k

/-- A byte of the section, with its size rounded up, lies in page `k` of the image. -/
def PeNtHeaderInfo.Intersects (headerInfo : PeNtHeaderInfo) (i k : ℕ) : Prop :=
  ∃ b, headerInfo.sectionStart i ≤ b ∧ b < headerInfo.sectionStart (i + 1) ∧ b / 4096 = k

/-- The pages that intersect the headers or a section. -/
def PeNtHeaderInfo.ImagePage (headerInfo : PeNtHeaderInfo) (k : ℕ) : Prop :=
  (∃ b < headerInfo.sizeOfHeaders.toNat, b / 4096 = k) ∨
    ∃ i < headerInfo.numberOfSections.toNat, headerInfo.Intersects i k

/-- The pages that are mapped: those before the last page that the headers touch, the ones that
sections fill, and the last one if it follows the start of a section directly. -/
def PeNtHeaderInfo.Reached (headerInfo : PeNtHeaderInfo) (k : ℕ) : Prop :=
  4096 * k + 4096 < headerInfo.sizeOfHeaders.toNat ∨
    headerInfo.sizeOfHeaders.toNat / 4096 ≤ k ∧
      (4096 * k + 4096 ≤ headerInfo.mappedStart headerInfo.numberOfSections.toNat ∨
        headerInfo.mappedSize (headerInfo.numberOfSections.toNat - 1) ≠ 0 ∧
          ∃ i < headerInfo.numberOfSections.toNat, headerInfo.mappedStart i / 4096 + 1 = k)

theorem imagePage_lt {k : ℕ} (h : headerInfo.ImagePage k) :
    4096 * k < headerInfo.sectionStart headerInfo.numberOfSections.toNat := by
  rcases h with ⟨b, hb, hk⟩ | ⟨i, hi, b, -, hb, hk⟩
  · have := @sectionStart_mono headerInfo _ _ (Nat.zero_le headerInfo.numberOfSections.toNat)
    have : headerInfo.sectionStart 0 = headerInfo.sizeOfHeaders.toNat := rfl
    lia
  · have : headerInfo.sectionStart (i + 1) ≤ _ :=
      @sectionStart_mono headerInfo _ _ (Nat.succ_le_of_lt hi)
    lia

/-- A page is mapped when section `i` is reached exactly if the headers or sections before it reach
over its end. -/
theorem mappedRights_isSome (i k : ℕ) :
    (headerInfo.mappedRights i k).isSome ↔ 4096 * k + 4096 < headerInfo.sizeOfHeaders.toNat ∨
      headerInfo.sizeOfHeaders.toNat / 4096 ≤ k ∧ k < headerInfo.mappedStart i / 4096 := by
  induction i with
  | zero =>
    have : headerInfo.mappedStart 0 = headerInfo.sizeOfHeaders.toNat := rfl
    rw [PeNtHeaderInfo.mappedRights]
    split_ifs with h
    · simp [h]
    · simp only [Option.isSome_none, Bool.false_eq_true, false_iff]
      lia
  | succ i ih =>
    have h0 : headerInfo.mappedStart 0 ≤ headerInfo.mappedStart i := mappedStart_mono (Nat.zero_le i)
    have h1 : headerInfo.mappedStart i ≤ headerInfo.mappedStart (i + 1) :=
      mappedStart_mono (Nat.le_succ i)
    have : headerInfo.mappedStart 0 = headerInfo.sizeOfHeaders.toNat := rfl
    rw [PeNtHeaderInfo.mappedRights]
    split_ifs with hin hk
    · simp only [Option.isSome_some, true_iff]
      lia
    · simp only [Option.isSome_some, true_iff]
      lia
    · rw [ih]
      lia

/-- The rights of a mapped page come from the headers or from the section that fills it. -/
theorem mappedRights_eq_some {i k : ℕ} {r : DWORD} (h : headerInfo.mappedRights i k = some r) :
    4096 * k + 4096 < headerInfo.sizeOfHeaders.toNat ∧ r = pageRightsRead ∨
      ∃ j < i, headerInfo.mappedStart j / 4096 ≤ k ∧ k < headerInfo.mappedStart (j + 1) / 4096 ∧
        r = if k = headerInfo.mappedStart j / 4096 then
          headerInfo.pendingRights j ||| headerInfo.rights j else headerInfo.rights j := by
  induction i with
  | zero =>
    rw [PeNtHeaderInfo.mappedRights] at h
    split_ifs at h with hk
    exact Or.inl ⟨hk, (Option.some.inj h).symm⟩
  | succ i ih =>
    rw [PeNtHeaderInfo.mappedRights] at h
    by_cases hin : headerInfo.mappedStart i / 4096 ≤ k ∧ k < headerInfo.mappedStart (i + 1) / 4096
    · rw [if_pos hin] at h
      exact Or.inr ⟨i, Nat.lt_succ_self i, hin.1, hin.2, (Option.some.inj h).symm⟩
    · rw [if_neg hin] at h
      rcases ih h with hhead | ⟨j, hj, hrest⟩
      · exact Or.inl hhead
      · exact Or.inr ⟨j, by omega, hrest⟩

end Layout

section Calls

variable {headerInfo : PeNtHeaderInfo} {addressToMap : QWORD}

theorem lastRights_append (xs ys : List (ℕ × DWORD)) (k : ℕ) :
    lastRights (xs ++ ys) k = (lastRights ys k).or (lastRights xs k) := by
  induction xs with
  | nil => simp [lastRights]
  | cons p xs ih => simp [lastRights, ih, Option.or_assoc]

theorem lastRights_range' (a m : ℕ) (rights : DWORD) (k : ℕ) :
    lastRights ((List.range' a m).map fun k => (k, rights)) k =
      if a ≤ k ∧ k < a + m then some rights else none := by
  induction m generalizing a with
  | zero => simp [lastRights]
  | succ m ih =>
    rw [List.range'_succ, List.map_cons, lastRights, ih]
    by_cases hin : a + 1 ≤ k ∧ k < a + 1 + m
    · rw [if_pos hin, Option.some_or, if_pos (by omega)]
    · rw [if_neg hin, Option.none_or]
      by_cases hk : a = k
      · rw [if_pos hk, if_pos (by omega)]
      · rw [if_neg hk, if_neg (by omega)]

/-- A loop over pages maps the pages until its condition fails. -/
private theorem mapPagesLoop_spec {goOn : QWORD → Bool} {rights : DWORD} {a m fuel : ℕ}
    {pages : List (ℕ × DWORD)} (hfuel : m < fuel)
    (hgo : ∀ j < m, goOn (pageAt addressToMap (a + j)) = true)
    (hstop : goOn (pageAt addressToMap (a + m)) = false) :
    mapPagesLoop goOn rights fuel (pageAt addressToMap a) (pageCalls addressToMap pages) =
      .ok (pageCalls addressToMap (pages ++ (List.range' a m).map fun k => (k, rights))) := by
  induction m generalizing a fuel pages with
  | zero =>
    obtain ⟨fuel, rfl⟩ : ∃ f, fuel = f + 1 := ⟨fuel - 1, by omega⟩
    have hstop : goOn (pageAt addressToMap a) = false := hstop
    simp [mapPagesLoop, hstop]
  | succ m ih =>
    obtain ⟨fuel, rfl⟩ : ∃ f, fuel = f + 1 := ⟨fuel - 1, by omega⟩
    have hfirst := hgo 0 (Nat.succ_pos m)
    rw [Nat.add_zero] at hfirst
    have hcalls : pageCalls addressToMap pages ++ [(pageAt addressToMap a, rights)] =
        pageCalls addressToMap (pages ++ [(a, rights)]) := by
      simp [pageCalls]
    have hrest : ∀ j < m, goOn (pageAt addressToMap (a + 1 + j)) = true := by
      intro j hj
      have := hgo (j + 1) (by omega)
      rwa [Nat.add_comm j 1, ← Nat.add_assoc] at this
    have hend : goOn (pageAt addressToMap (a + 1 + m)) = false := by
      rwa [show a + (m + 1) = a + 1 + m by omega] at hstop
    rw [mapPagesLoop, if_pos hfirst, hcalls, pageAt_succ, ih (by omega) hrest hend, List.range'_succ]
    simp

/-- The loop variables when section `i` is reached, after the calls for some pages. -/
structure SectionInv (headerInfo : PeNtHeaderInfo) (addressToMap : QWORD) (i : ℕ) (s : PeMapState)
    (pages : List (ℕ × DWORD)) : Prop where
  calls : s.calls = pageCalls addressToMap pages
  small : ∀ p ∈ pages, p.1 < 2 ^ 36
  mapped : ∀ k, lastRights pages k = headerInfo.mappedRights i k
  remaining : s.remainingSize.toNat = 4096 - headerInfo.mappedStart i % 4096
  pending : s.prevSectionRequiredRights = headerInfo.pendingRights i
  aligned : s.pAlignedAddress = 0 ∧
      headerInfo.mappedStart i / 4096 = headerInfo.sizeOfHeaders.toNat / 4096 ∨
    ∃ j < i, s.pAlignedAddress = pageAt addressToMap (headerInfo.mappedStart j / 4096 + 1) ∧
      headerInfo.mappedStart j / 4096 < headerInfo.mappedStart (j + 1) / 4096 ∧
      headerInfo.mappedStart (j + 1) / 4096 = headerInfo.mappedStart i / 4096
  size : s.sectionSize = 0 ↔ i = 0 ∨ ∃ j, i = j + 1 ∧ (headerInfo.mappedSize j = 0 ∨
    headerInfo.mappedStart j / 4096 < headerInfo.mappedStart i / 4096 ∧
      headerInfo.mappedStart i = 4096 * (headerInfo.mappedStart j / 4096 + 1))

private theorem sizeUntilPageEnd_toNat (size : DWORD) :
    (sizeUntilPageEnd size).toNat = 4096 - size.toNat % 4096 := by
  have hlt := size.isLt
  have hoff : (pageOffset (size.setWidth 64)).toNat = size.toNat % 4096 := by
    rw [pageOffset_toNat, BitVec.toNat_setWidth]
    lia
  rw [sizeUntilPageEnd, BitVec.toNat_sub, hoff, show (0x1000 : DWORD).toNat = 4096 from rfl]
  lia

/-- A section that does not fill the page it starts in. -/
private theorem mapSection_small {s s' : PeMapState} {sec : PeSectionInfo} {i : ℕ}
    {pages : List (ℕ × DWORD)} (hinv : SectionInv headerInfo addressToMap i s pages)
    (hsize : sec.size = (headerInfo.sections i).virtualSize)
    (hchar : sec.characteristics = (headerInfo.sections i).characteristics)
    (hlt : headerInfo.mappedSize i < s.remainingSize)
    (hok : mapSection headerInfo addressToMap s sec = .ok s') :
    SectionInv headerInfo addressToMap (i + 1) s' pages := by
  have hrem := hinv.remaining
  have hltNat : (headerInfo.mappedSize i).toNat < s.remainingSize.toNat := hlt
  have hsame : headerInfo.mappedStart (i + 1) / 4096 = headerInfo.mappedStart i / 4096 := by
    rw [PeNtHeaderInfo.mappedStart]
    lia
  have hmapped : alignedSectionSize (headerInfo.sections i).virtualSize headerInfo.imageAlignment =
      headerInfo.mappedSize i := rfl
  rw [mapSection, hsize, hchar, hmapped, bind_eq_ok] at hok
  obtain ⟨-, -, hok⟩ := hok
  rw [if_pos hlt] at hok
  cases hok
  refine ⟨hinv.calls, hinv.small, fun k => ?_, ?_, ?_, ?_, ?_⟩
  · rw [hinv.mapped k, PeNtHeaderInfo.mappedRights, if_neg (by omega)]
  · show (s.remainingSize - headerInfo.mappedSize i).toNat = _
    have hsub := BitVec.toNat_sub_of_le (BitVec.le_of_lt hlt)
    rw [hsub, PeNtHeaderInfo.mappedStart]
    lia
  · show s.prevSectionRequiredRights ||| _ = _
    rw [hinv.pending, PeNtHeaderInfo.pendingRights, if_pos hsame]
    rfl
  · rcases hinv.aligned with ⟨hnull, hstart⟩ | ⟨j, hj, haddr, hfill, hnext⟩
    · exact Or.inl ⟨hnull, hsame.trans hstart⟩
    · exact Or.inr ⟨j, by omega, haddr, hfill, hnext.trans hsame.symm⟩
  · show headerInfo.mappedSize i = 0 ↔ _
    refine ⟨fun h => Or.inr ⟨i, rfl, Or.inl h⟩, fun h => ?_⟩
    rcases h with h | ⟨j, hj, h⟩
    · omega
    · obtain rfl : i = j := by omega
      rcases h with h | ⟨h, -⟩
      · exact h
      · omega

/-- A section that fills the page it starts in. -/
private theorem mapSection_fills {s s' : PeMapState} {sec : PeSectionInfo} {i : ℕ}
    {pages : List (ℕ × DWORD)} (hA : isAddressAligned addressToMap pageSize = true)
    (hfits : addressToMap.toNat + headerInfo.mappedStart (i + 1) + 4096 < 2 ^ 64)
    (hva : (headerInfo.sections i).virtualAddress.toNat = headerInfo.mappedStart i)
    (hinv : SectionInv headerInfo addressToMap i s pages)
    (hbase : sec.baseAddress = headerInfo.imageBase +
      (headerInfo.sections i).virtualAddress.setWidth 64)
    (hsize : sec.size = (headerInfo.sections i).virtualSize)
    (hchar : sec.characteristics = (headerInfo.sections i).characteristics)
    (hge : ¬ headerInfo.mappedSize i < s.remainingSize)
    (hok : mapSection headerInfo addressToMap s sec = .ok s') :
    ∃ pages', SectionInv headerInfo addressToMap (i + 1) s' pages' := by
  have hrem := hinv.remaining
  have hgeNat : s.remainingSize.toNat ≤ (headerInfo.mappedSize i).toNat := Nat.le_of_not_lt hge
  have hnext : headerInfo.mappedStart (i + 1) =
      headerInfo.mappedStart i + (headerInfo.mappedSize i).toNat := rfl
  have hne : s.remainingSize ≠ 0 := by
    intro h0
    rw [h0] at hrem
    have : (0 : DWORD).toNat = 0 := rfl
    lia
  have hmapped : alignedSectionSize (headerInfo.sections i).virtualSize headerInfo.imageAlignment =
      headerInfo.mappedSize i := rfl
  have hAl := aligned_iff.mp hA
  obtain ⟨a, ha⟩ : ∃ a, a = headerInfo.mappedStart i / 4096 := ⟨_, rfl⟩
  obtain ⟨b, hb⟩ : ∃ b, b = a + 1 := ⟨_, rfl⟩
  obtain ⟨size, hsizeEq⟩ : ∃ size, size = headerInfo.mappedSize i - s.remainingSize := ⟨_, rfl⟩
  have hsizeNat : size.toNat = (headerInfo.mappedSize i).toNat - s.remainingSize.toNat := by
    rw [hsizeEq]
    exact BitVec.toNat_sub_of_le (Nat.le_of_not_lt hge)
  have hend : headerInfo.mappedStart (i + 1) = 4096 * b + size.toNat := by lia
  have hfirst : alignAddressLower (addressToMap + (sec.baseAddress - headerInfo.imageBase)) pageSize =
      pageAt addressToMap a := by
    have hvaddr : ((headerInfo.sections i).virtualAddress.setWidth 64 : QWORD).toNat =
        headerInfo.mappedStart i := by
      rw [BitVec.toNat_setWidth, hva]
      lia
    have hdiff : sec.baseAddress - headerInfo.imageBase =
        (headerInfo.sections i).virtualAddress.setWidth 64 := by
      rw [hbase, BitVec.add_comm, BitVec.add_sub_cancel]
    apply BitVec.eq_of_toNat_eq
    rw [hdiff, alignLower_toNat, BitVec.toNat_add, hvaddr, pageAt_toNat (by lia)]
    lia
  have hlower : (pageAt addressToMap b).toNat = addressToMap.toNat + 4096 * b :=
    pageAt_toNat (by lia)
  have hbound : (pageAt addressToMap b + size.setWidth 64).toNat =
      addressToMap.toNat + headerInfo.mappedStart (i + 1) := by
    rw [BitVec.toNat_add, hlower, BitVec.toNat_setWidth]
    lia
  have hstep : ∀ k, 4096 * k ≤ headerInfo.mappedStart (i + 1) →
      (decide (pageAt addressToMap k + pageSize ≤ pageAt addressToMap b + size.setWidth 64) =
        true ↔ 4096 * k + 4096 ≤ headerInfo.mappedStart (i + 1)) := by
    intro k hk
    have hk1 : (pageAt addressToMap k + pageSize).toNat = addressToMap.toNat + 4096 * k + 4096 := by
      rw [BitVec.toNat_add, pageAt_toNat (by lia), show pageSize.toNat = 4096 from rfl]
      lia
    rw [decide_eq_true_iff, BitVec.le_def, hk1, hbound]
    lia
  have hcalls : s.calls ++ [(pageAt addressToMap a, s.prevSectionRequiredRights |||
      sectionRights (headerInfo.sections i).characteristics)] =
      pageCalls addressToMap (pages ++ [(a, headerInfo.pendingRights i ||| headerInfo.rights i)]) := by
    rw [hinv.calls, hinv.pending]
    simp [pageCalls, PeNtHeaderInfo.rights]
  have hloop := @mapPagesLoop_spec addressToMap
    (fun pPage => decide (pPage + pageSize ≤ pageAt addressToMap b + size.setWidth 64))
    (headerInfo.rights i) b (size.toNat / 4096) _
    (pages ++ [(a, headerInfo.pendingRights i ||| headerInfo.rights i)])
    (Nat.lt_succ_self _)
    (fun j hj => (hstep _ (by lia)).mpr (by lia))
    (Bool.eq_false_iff.mpr fun h => by
      have := (hstep _ (by lia)).mp h
      lia)
  rw [mapSection, hsize, hchar, hmapped, bind_eq_ok] at hok
  obtain ⟨-, -, hok⟩ := hok
  rw [if_neg hge] at hok
  dsimp only at hok
  rw [if_pos hne, hfirst, pageAt_succ, hcalls, ← hsizeEq, ← hb] at hok
  dsimp only at hok
  rw [show sectionRights (headerInfo.sections i).characteristics = headerInfo.rights i from rfl,
    hloop] at hok
  cases hok
  refine ⟨_, rfl, ?_, fun k => ?_, ?_, ?_, Or.inr ⟨i, Nat.lt_succ_self i, by rw [hb, ha], by lia, rfl⟩, ?_⟩
  · intro p hp
    simp only [List.mem_append, List.mem_singleton, List.mem_map, List.mem_range'_1] at hp
    rcases hp with (hp | rfl) | ⟨k, hk, rfl⟩
    · exact hinv.small p hp
    · dsimp only
      omega
    · dsimp only
      omega
  · rw [lastRights_append, lastRights_append, lastRights_range', hinv.mapped k,
      PeNtHeaderInfo.mappedRights, ← ha]
    by_cases hrest : b ≤ k ∧ k < b + size.toNat / 4096
    · rw [if_pos hrest, Option.some_or, if_pos (by lia), if_neg (by omega)]
    · rw [if_neg hrest, Option.none_or]
      by_cases hk : k = a
      · rw [if_pos (by lia), if_pos hk]
        simp [lastRights, hk]
      · rw [if_neg (by lia)]
        have hk : ¬ a = k := fun h => hk h.symm
        simp [lastRights, hk]
  · show (sizeUntilPageEnd size).toNat = _
    rw [sizeUntilPageEnd_toNat, hend]
    lia
  · show headerInfo.rights i = _
    rw [PeNtHeaderInfo.pendingRights, if_neg (by lia)]
  · show size = 0 ↔ _
    have hzero : size = 0 ↔ size.toNat = 0 :=
      ⟨fun h => by rw [h]; rfl, fun h => BitVec.eq_of_toNat_eq h⟩
    rw [hzero]
    refine ⟨fun h => Or.inr ⟨i, rfl, Or.inr ⟨by lia, by rw [hend, ← ha, ← hb, h]; rfl⟩⟩, fun h => ?_⟩
    rcases h with h | ⟨j, hj, h⟩
    · omega
    · obtain rfl : i = j := by omega
      rcases h with h | ⟨-, h⟩
      · have : (0 : DWORD).toNat = 0 := rfl
        rw [h] at hgeNat
        lia
      · lia

private theorem peRetrieveSection_ok {ntInfo : PeNtHeaderInfo} {i : ℕ} {sec : PeSectionInfo}
    (h : peRetrieveSection ntInfo i = .ok sec) :
    sec = ⟨ntInfo.imageBase + (ntInfo.sections i).virtualAddress.setWidth 64,
      (ntInfo.sections i).virtualSize, (ntInfo.sections i).characteristics⟩ := by
  simp only [peRetrieveSection] at h
  split_ifs at h
  exact (Except.ok.inj h).symm

private theorem peRetrieveSection_error {ntInfo : PeNtHeaderInfo} {i : ℕ} {status : PeStatus}
    (h : peRetrieveSection ntInfo i = .error status) : status ≠ .success := by
  simp only [peRetrieveSection] at h
  split_ifs at h <;> cases h <;> decide

/-- One turn of the loop over the sections. -/
private theorem mapSection_spec {s s' : PeMapState} {sec : PeSectionInfo} {i : ℕ}
    {pages : List (ℕ × DWORD)} (hc : headerInfo.Contiguous)
    (hA : isAddressAligned addressToMap pageSize = true)
    (hfits : addressToMap.toNat + headerInfo.sectionStart headerInfo.numberOfSections.toNat + 4096 <
      2 ^ 64)
    (hi : i < headerInfo.numberOfSections.toNat)
    (hinv : SectionInv headerInfo addressToMap i s pages)
    (hsec : peRetrieveSection headerInfo i = .ok sec)
    (hok : mapSection headerInfo addressToMap s sec = .ok s') :
    (∃ pages', SectionInv headerInfo addressToMap (i + 1) s' pages') ∧
      isBooleanFlagOn (headerInfo.rights i) (pageRightsWrite ||| pageRightsExecute) = false := by
  obtain rfl := peRetrieveSection_ok hsec
  refine ⟨?_, ?_⟩
  · by_cases hlt : headerInfo.mappedSize i < s.remainingSize
    · exact ⟨pages, mapSection_small hinv rfl rfl hlt hok⟩
    · have hle : headerInfo.mappedStart (i + 1) ≤ _ := mappedStart_le hc (Nat.succ_le_of_lt hi)
      have hva := (hc.starts i hi).trans (mappedStart_eq hc hi).symm
      exact mapSection_fills hA (by omega) hva hinv rfl rfl rfl hlt hok
  · rw [mapSection, bind_eq_ok] at hok
    obtain ⟨u, hassert, -⟩ := hok
    exact assertThat_eq_ok.mp hassert

private theorem mapSectionsLoop_spec {s s' : PeMapState} {left : ℕ} {pages : List (ℕ × DWORD)}
    (hc : headerInfo.Contiguous) (hA : isAddressAligned addressToMap pageSize = true)
    (hfits : addressToMap.toNat + headerInfo.sectionStart headerInfo.numberOfSections.toNat + 4096 <
      2 ^ 64)
    (hleft : left ≤ headerInfo.numberOfSections.toNat)
    (hinv : SectionInv headerInfo addressToMap (headerInfo.numberOfSections.toNat - left) s pages)
    (hok : mapSectionsLoop headerInfo addressToMap left s = .ok (.success, s')) :
    (∃ pages', SectionInv headerInfo addressToMap headerInfo.numberOfSections.toNat s' pages') ∧
      ∀ i, headerInfo.numberOfSections.toNat - left ≤ i → i < headerInfo.numberOfSections.toNat →
        isBooleanFlagOn (headerInfo.rights i) (pageRightsWrite ||| pageRightsExecute) = false := by
  induction left generalizing s pages with
  | zero =>
    cases hok
    exact ⟨⟨pages, hinv⟩, fun i hle hlt => absurd hlt (by omega)⟩
  | succ left ih =>
    rw [mapSectionsLoop] at hok
    cases hsec : peRetrieveSection headerInfo (headerInfo.numberOfSections.toNat - (left + 1)) with
    | error status =>
      rw [hsec] at hok
      cases hok
      exact absurd rfl (peRetrieveSection_error hsec)
    | ok sec =>
      rw [hsec] at hok
      dsimp only at hok
      rw [bind_eq_ok] at hok
      obtain ⟨s₁, hok₁, hrest⟩ := hok
      obtain ⟨⟨pages₁, hinv₁⟩, hrights⟩ := mapSection_spec hc hA hfits (by omega) hinv hsec hok₁
      rw [show headerInfo.numberOfSections.toNat - (left + 1) + 1 =
        headerInfo.numberOfSections.toNat - left by lia] at hinv₁
      obtain ⟨hpages, hall⟩ := ih (by omega) hinv₁ hrest
      refine ⟨hpages, fun i hle hlt => ?_⟩
      by_cases hi : i = headerInfo.numberOfSections.toNat - (left + 1)
      · rw [hi]
        exact hrights
      · exact hall i (by omega) hlt

/-- The pages of the image that a successful call maps, and with which rights. The last page is mapped
with the rights held back. -/
structure MapsReached (headerInfo : PeNtHeaderInfo) (pages : List (ℕ × DWORD)) : Prop where
  small : ∀ p ∈ pages, p.1 < 2 ^ 36
  reached : ∀ k, headerInfo.ImagePage k → ((lastRights pages k).isSome ↔ headerInfo.Reached k)
  rights : ∀ k r, lastRights pages k = some r →
    headerInfo.mappedRights headerInfo.numberOfSections.toNat k = some r ∨
      r = headerInfo.pendingRights headerInfo.numberOfSections.toNat ∧
        headerInfo.mappedSize (headerInfo.numberOfSections.toNat - 1) ≠ 0 ∧
          ∃ j < headerInfo.numberOfSections.toNat, k = headerInfo.mappedStart j / 4096 + 1 ∧
            headerInfo.mappedStart j / 4096 < headerInfo.mappedStart (j + 1) / 4096 ∧
            headerInfo.mappedStart (j + 1) / 4096 =
              headerInfo.mappedStart headerInfo.numberOfSections.toNat / 4096

/-- After the loop over the sections, when the last one ends with its page. -/
private theorem mapsReached_of_noTail {s : PeMapState} {pages : List (ℕ × DWORD)}
    (hc : headerInfo.Contiguous)
    (hinv : SectionInv headerInfo addressToMap headerInfo.numberOfSections.toNat s pages)
    (hsize : s.sectionSize = 0) : MapsReached headerInfo pages := by
  refine ⟨hinv.small, fun k himage => ?_, fun k r hr => Or.inl ?_⟩
  · have hlt := imagePage_lt himage
    rw [hinv.mapped k, mappedRights_isSome, PeNtHeaderInfo.Reached]
    refine or_congr Iff.rfl (and_congr_right fun hk => ⟨fun h => Or.inl (by omega), fun h => ?_⟩)
    rcases h with h | ⟨hlast, i, hi, -⟩
    · omega
    · rcases hinv.size.mp hsize with h0 | ⟨j, hj, hzero | ⟨hfill, hend⟩⟩
      · omega
      · rw [hj, Nat.add_sub_cancel] at hlast
        exact absurd hzero hlast
      · rcases mappedStart_succ_cases hc (i := j) (by omega) with heq | ⟨-, hzero, -⟩
        · rw [← hj] at heq
          lia
        · rw [hj, Nat.add_sub_cancel] at hlast
          exact absurd hzero hlast
  · rw [← hinv.mapped k, hr]

/-- After the last call, for the page that the last section does not fill. -/
private theorem mapsReached_of_tail {s : PeMapState} {pages : List (ℕ × DWORD)} {j : ℕ}
    (hc : headerInfo.Contiguous)
    (hinv : SectionInv headerInfo addressToMap headerInfo.numberOfSections.toNat s pages)
    (hsize : s.sectionSize ≠ 0) (hj : j < headerInfo.numberOfSections.toNat)
    (hfill : headerInfo.mappedStart j / 4096 < headerInfo.mappedStart (j + 1) / 4096)
    (hnext : headerInfo.mappedStart (j + 1) / 4096 =
      headerInfo.mappedStart headerInfo.numberOfSections.toNat / 4096)
    (hsmall : headerInfo.mappedStart j / 4096 + 1 < 2 ^ 36) :
    MapsReached headerInfo (pages ++ [(headerInfo.mappedStart j / 4096 + 1,
      headerInfo.pendingRights headerInfo.numberOfSections.toNat)]) := by
  obtain ⟨l, hl⟩ : ∃ l, headerInfo.numberOfSections.toNat = l + 1 :=
    ⟨headerInfo.numberOfSections.toNat - 1, by omega⟩
  have hlast : headerInfo.mappedSize (headerInfo.numberOfSections.toNat - 1) ≠ 0 := by
    intro h0
    rw [hl, Nat.add_sub_cancel] at h0
    exact hsize (hinv.size.mpr (Or.inr ⟨l, hl, Or.inl h0⟩))
  have hend : headerInfo.mappedStart headerInfo.numberOfSections.toNat =
      headerInfo.sectionStart headerInfo.numberOfSections.toNat := by
    rcases mappedStart_succ_cases hc (i := l) (by omega) with heq | ⟨-, hzero, -⟩
    · rw [hl]
      exact heq
    · rw [hl, Nat.add_sub_cancel] at hlast
      exact absurd hzero hlast
  have hvalue : ∀ k, lastRights (pages ++ [(headerInfo.mappedStart j / 4096 + 1,
      headerInfo.pendingRights headerInfo.numberOfSections.toNat)]) k =
        if headerInfo.mappedStart j / 4096 + 1 = k then
          some (headerInfo.pendingRights headerInfo.numberOfSections.toNat)
        else headerInfo.mappedRights headerInfo.numberOfSections.toNat k := by
    intro k
    rw [lastRights_append, hinv.mapped k, lastRights]
    split_ifs <;> simp [lastRights]
  refine ⟨fun p hp => ?_, fun k himage => ?_, fun k r hr => ?_⟩
  · rcases List.mem_append.mp hp with hp | hp
    · exact hinv.small p hp
    · rw [List.mem_singleton.mp hp]
      exact hsmall
  · have hlt := imagePage_lt himage
    have h0 : headerInfo.mappedStart 0 ≤ headerInfo.mappedStart j := mappedStart_mono (Nat.zero_le j)
    have hhead : headerInfo.mappedStart 0 = headerInfo.sizeOfHeaders.toNat := rfl
    rw [hvalue k, PeNtHeaderInfo.Reached]
    by_cases hk : headerInfo.mappedStart j / 4096 + 1 = k
    · rw [if_pos hk]
      refine ⟨fun _ => Or.inr ⟨by lia, Or.inr ⟨hlast, j, hj, hk⟩⟩, fun _ => rfl⟩
    · rw [if_neg hk, mappedRights_isSome]
      refine or_congr Iff.rfl (and_congr_right fun hhk => ⟨fun h => Or.inl (by lia), fun h => ?_⟩)
      rcases h with h | ⟨-, i, hi, hik⟩
      · lia
      · rcases Nat.lt_or_ge j i with hji | hij
        · have : headerInfo.mappedStart (j + 1) ≤ headerInfo.mappedStart i := mappedStart_mono hji
          lia
        · have : headerInfo.mappedStart i ≤ headerInfo.mappedStart j := mappedStart_mono hij
          lia
  · rw [hvalue k] at hr
    by_cases hk : headerInfo.mappedStart j / 4096 + 1 = k
    · rw [if_pos hk] at hr
      exact Or.inr ⟨(Option.some.inj hr).symm, hlast, j, hj, hk.symm, hfill, hnext⟩
    · rw [if_neg hk] at hr
      exact Or.inl hr

/-- The calls of a successful run. A call for page 0 is one that `VmmMapMemoryInternal` does not
survive. -/
theorem peMapCalls_spec {calls : PageCalls} (hc : headerInfo.Contiguous)
    (hfits : addressToMap.toNat + headerInfo.sectionStart headerInfo.numberOfSections.toNat + 4096 <
      2 ^ 64)
    (hok : peMapCalls headerInfo addressToMap = .ok (.success, calls)) :
    addressToMap.toNat % 4096 = 0 ∧
      (∀ i < headerInfo.numberOfSections.toNat,
        isBooleanFlagOn (headerInfo.rights i) (pageRightsWrite ||| pageRightsExecute) = false) ∧
      ((∃ rights, (0, rights) ∈ calls) ∨
        ∃ pages, calls = pageCalls addressToMap pages ∧ MapsReached headerInfo pages) := by
  have hle := mappedStart_le hc (Nat.zero_le _)
  have hheaders : headerInfo.mappedStart 0 = headerInfo.sizeOfHeaders.toNat := rfl
  have hlt := headerInfo.sizeOfHeaders.isLt
  simp only [peMapCalls] at hok
  rw [bind_eq_ok] at hok
  obtain ⟨-, -, hok⟩ := hok
  rw [bind_eq_ok] at hok
  obtain ⟨u, hne, hok⟩ := hok
  rw [bind_eq_ok] at hok
  obtain ⟨u, hA, hok⟩ := hok
  have hne := assertThat_eq_ok.mp hne
  have hA := assertThat_eq_ok.mp hA
  have hAl := aligned_iff.mp hA
  have hpos : 4096 ≤ addressToMap.toNat := by
    have : addressToMap.toNat ≠ 0 := fun h => hne (BitVec.eq_of_toNat_eq h)
    lia
  split_ifs at hok
  · cases hok
  have hend : (addressToMap + headerInfo.sizeOfHeaders.setWidth 64 - pageSize).toNat =
      addressToMap.toNat + headerInfo.sizeOfHeaders.toNat - 4096 := by
    rw [BitVec.toNat_sub, BitVec.toNat_add, BitVec.toNat_setWidth, show pageSize.toNat = 4096 from rfl]
    lia
  have hstep : ∀ k, 4096 * k ≤ headerInfo.sizeOfHeaders.toNat → (decide (pageAt addressToMap k <
      addressToMap + headerInfo.sizeOfHeaders.setWidth 64 - pageSize) = true ↔
        4096 * k + 4096 < headerInfo.sizeOfHeaders.toNat) := by
    intro k hk
    rw [decide_eq_true_iff, BitVec.lt_def, hend, pageAt_toNat (by omega)]
    lia
  have hzero : pageAt addressToMap 0 = addressToMap := by simp [pageAt]
  have hloop := @mapPagesLoop_spec addressToMap
    (fun pHeaderPage => decide (pHeaderPage <
      addressToMap + headerInfo.sizeOfHeaders.setWidth 64 - pageSize))
    pageRightsRead 0 ((headerInfo.sizeOfHeaders.toNat - 1) / 4096)
    (headerInfo.sizeOfHeaders.toNat / 4096 + 1) [] (by lia)
    (fun j hj => (hstep _ (by lia)).mpr (by omega))
    (Bool.eq_false_iff.mpr fun h => by
      have := (hstep _ (by omega)).mp h
      omega)
  rw [hzero, List.nil_append] at hloop
  rw [show pageCalls addressToMap [] = [] from rfl] at hloop
  rw [hloop, bind_eq_ok] at hok
  obtain ⟨calls₁, hcalls₁, hok⟩ := hok
  obtain rfl := Except.ok.inj hcalls₁
  rw [bind_eq_ok] at hok
  obtain ⟨⟨status, s⟩, hsections, hok⟩ := hok
  dsimp only at hok
  obtain rfl : status = .success := by
    by_contra hstatus
    rw [if_pos hstatus] at hok
    cases hok
    exact hstatus rfl
  have hinv₀ : SectionInv headerInfo addressToMap (headerInfo.numberOfSections.toNat -
      headerInfo.numberOfSections.toNat) ⟨pageRightsRead, sizeUntilPageEnd headerInfo.sizeOfHeaders, 0,
        0, pageCalls addressToMap ((List.range' 0 ((headerInfo.sizeOfHeaders.toNat - 1) / 4096)).map
          fun k => (k, pageRightsRead))⟩ ((List.range' 0 ((headerInfo.sizeOfHeaders.toNat - 1) /
            4096)).map fun k => (k, pageRightsRead)) := by
    rw [Nat.sub_self]
    refine ⟨rfl, fun p hp => ?_, fun k => ?_, ?_, rfl, Or.inl ⟨rfl, rfl⟩, ?_⟩
    · obtain ⟨k, hk, rfl⟩ := List.mem_map.mp hp
      have := List.mem_range'_1.mp hk
      dsimp only
      lia
    · rw [lastRights_range', PeNtHeaderInfo.mappedRights]
      by_cases hk : 4096 * k + 4096 < headerInfo.sizeOfHeaders.toNat
      · rw [if_pos (by lia), if_pos hk]
      · rw [if_neg (by omega), if_neg hk]
    · exact sizeUntilPageEnd_toNat _
    · simp
  obtain ⟨⟨pages, hinv⟩, hrights⟩ := mapSectionsLoop_spec hc hA hfits (Nat.le_refl _) hinv₀ hsections
  refine ⟨hAl, fun i hi => hrights i (by omega) hi, ?_⟩
  by_cases hsize : s.sectionSize = 0
  · rw [if_neg (fun h => h rfl), if_neg (fun h => h hsize)] at hok
    cases hok
    exact Or.inr ⟨pages, hinv.calls, mapsReached_of_noTail hc hinv hsize⟩
  · rw [if_neg (fun h => h rfl), if_pos hsize] at hok
    cases hok
    rcases hinv.aligned with ⟨hnull, -⟩ | ⟨j, hj, haddr, hfill, hnext⟩
    · refine Or.inl ⟨s.prevSectionRequiredRights, ?_⟩
      rw [hnull]
      exact List.mem_append_right _ (List.mem_singleton.mpr rfl)
    · refine Or.inr ⟨_, ?_, mapsReached_of_tail hc hinv hsize hj hfill hnext ?_⟩
      · rw [hinv.calls, haddr, hinv.pending]
        simp [pageCalls]
      · have hva := (hc.starts j hj).trans (mappedStart_eq hc hj).symm
        omega

end Calls

end HAL9000.Paging
