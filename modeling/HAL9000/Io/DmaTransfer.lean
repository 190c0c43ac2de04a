import HAL9000.Io.Irp
import HAL9000.Lib.Segments
import HAL9000.Vmm.BufferSound
import HAL9000.Vmm.RegionAllocation

/-! The table of the memory that the bus master transfers (`_AtaPrepareDmaTransfer` in
`ata_operations.c`). It is made from the translation pairs of the buffer and has to lie in one page. -/
namespace HAL9000.Io

open Paging Segments Vmm

def statusInvalidParameter1 : STATUS := 0xE8000011
def statusInvalidParameter2 : STATUS := 0xE8000012
def statusUnsuccessful : STATUS := 0xE8000003
def statusDeviceDmaPhysicalAddressTooHigh : STATUS := 0xE0010010
def statusDeviceDmaPhysicalSpanTooLarge : STATUS := 0xE0010011

def ataDmaMaxPhysicalLen : DWORD := 64 * 1024 - 1
def ataDmaPhysicalBoundary : QWORD := 64 * 1024
def ataDmaMaxPhysicalAddress : QWORD := 0xFFFFFFFF
def ataDmaAlignment : QWORD := 4

def isInSameBoundary (addr size alig : QWORD) : Bool :=
  alignAddressLower addr alig == alignAddressLower (addr + size - 1) alig

structure PrdEntry where
  physicalAddress : DWORD
  byteCount : WORD
  lastEntry : Bool
  deriving DecidableEq, Repr

def sizeofPrdEntry : DWORD := 8

/-- Memory from `IoAllocateContinuousMemoryEx`. It starts with a page and is mapped; what it holds is
not known. -/
structure ContinuousMemory where
  address : QWORD
  physicalAddress : QWORD
  contents : ℕ → PrdEntry
  aligned : isAddressAligned address pageSize = true
  mapped : physicalAddress ≠ 0

def ataValidateTranslationPair (p : MdlTranslationPair) : STATUS :=
  if p.address > ataDmaMaxPhysicalAddress then statusDeviceDmaPhysicalAddressTooHigh
  else if ¬isAddressAligned p.address ataDmaAlignment then statusDeviceDataAlignmentError
  else if p.numberOfBytes > ataDmaMaxPhysicalLen then statusDeviceDmaPhysicalSpanTooLarge
  else if ¬isAddressAligned (p.numberOfBytes.setWidth 64) ataDmaAlignment then
    statusDeviceDataAlignmentError
  else statusSuccess

/-- The pool grants the list or does not. -/
def ioAllocateMdl (mem : PhysMemory) (cr3 : QWORD) (allocated : Bool) (virtualAddress : QWORD)
    (length : DWORD) : Except Fault (Except STATUS Mdl) :=
  if virtualAddress = 0 then .ok (.error statusInvalidParameter1)
  else if length = 0 then .ok (.error statusInvalidParameter2)
  else do
    match ← mdlAllocateEx mem cr3 true allocated virtualAddress length with
    | none => return .error statusUnsuccessful
    | some pMdl => return .ok pMdl

/-- A store to the table. -/
def setPrdEntry (prdTable : List PrdEntry) (index : ℕ) (e : PrdEntry) :
    Except Fault (List PrdEntry) :=
  if index < prdTable.length then .ok (prdTable.set index e) else .error .danglingAccess

/-- The entries for a pair, two if its memory crosses a boundary. -/
def setPairEntries (address : QWORD) (byteCountForPrd : WORD) (indexInPrdEntries : ℕ)
    (prdTable : List PrdEntry) : Except Fault (ℕ × List PrdEntry) := do
  let physicalAddress : DWORD := address.setWidth 32
  if isInSameBoundary address (byteCountForPrd.setWidth 64) ataDmaPhysicalBoundary then
    let prdTable ← setPrdEntry prdTable indexInPrdEntries ⟨physicalAddress, byteCountForPrd, false⟩
    return (indexInPrdEntries + 1, prdTable)
  else
    let byteCountForAlignment : WORD :=
      (ataDmaPhysicalBoundary - (address &&& (ataDmaPhysicalBoundary - 1))).setWidth 16
    let prdTable ← setPrdEntry prdTable indexInPrdEntries
      ⟨physicalAddress, byteCountForAlignment, false⟩
    let prdTable ← setPrdEntry prdTable (indexInPrdEntries + 1)
      ⟨physicalAddress + byteCountForAlignment.setWidth 32, byteCountForPrd - byteCountForAlignment,
        false⟩
    return (indexInPrdEntries + 2, prdTable)

/-- The loop over the pairs; returns the bytes that remain, the number of entries and the table. -/
def prdLoop : List MdlTranslationPair → DWORD → ℕ → List PrdEntry →
    Except Fault (Except STATUS (DWORD × ℕ × List PrdEntry))
  | [], bytesRemaining, indexInPrdEntries, prdTable =>
    .ok (.ok (bytesRemaining, indexInPrdEntries, prdTable))
  | pCurPair :: pairs, bytesRemaining, indexInPrdEntries, prdTable =>
    if ¬succeeded (ataValidateTranslationPair pCurPair) then
      .ok (.error (ataValidateTranslationPair pCurPair))
    else do
      let byteCountForPrd : WORD := (if pCurPair.numberOfBytes < bytesRemaining then
        pCurPair.numberOfBytes else bytesRemaining).setWidth 16
      let (indexInPrdEntries, prdTable) ←
        setPairEntries pCurPair.address byteCountForPrd indexInPrdEntries prdTable
      prdLoop pairs (bytesRemaining - byteCountForPrd.setWidth 32) indexInPrdEntries prdTable

/-- The last entry of the table is marked. -/
def markLastEntry (prdTable : List PrdEntry) (indexInPrdEntries : ℕ) : Except Fault (List PrdEntry) :=
  if 0 < indexInPrdEntries ∧ indexInPrdEntries ≤ prdTable.length then
    .ok (prdTable.modify (indexInPrdEntries - 1) fun e => { e with lastEntry := true })
  else .error .danglingAccess

/-- What the registers and the current transfer are given. -/
structure DmaTransfer where
  prdt : DWORD
  prdTable : QWORD
  indexInPrdEntries : ℕ
  entries : List PrdEntry

/-- The steps after the list of the buffer has been allocated. -/
def prepareTable (pMdl : Mdl) (byteCount : DWORD) (memory : Option ContinuousMemory) :
    Except Fault (Except STATUS DmaTransfer) := do
  let noOfMdlTranslationEntries := pMdl.numberOfTranslationPairs
  assertThat (noOfMdlTranslationEntries ≠ 0)
  let allocationSize := sizeofPrdEntry * noOfMdlTranslationEntries * 2
  match memory with
  | none => return .error statusHeapInsufficientResources
  | some memory =>
    assertThat (isInSameBoundary memory.address (allocationSize.setWidth 64) pageSize = true)
    let prdTable := (List.range (allocationSize / sizeofPrdEntry).toNat).map memory.contents
    match ← prdLoop (pMdl.translations.take noOfMdlTranslationEntries.toNat) byteCount 0 prdTable with
    | .error status => return .error status
    | .ok (bytesRemaining, indexInPrdEntries, prdTable) =>
      assertThat (bytesRemaining = 0)
      let prdTable ← markLastEntry prdTable indexInPrdEntries
      assertThat (memory.physicalAddress ≠ 0)
      if memory.physicalAddress > ataDmaMaxPhysicalAddress then
        return .error statusDeviceDmaPhysicalAddressTooHigh
      else return .ok ⟨memory.physicalAddress.setWidth 32, memory.address, indexInPrdEntries, prdTable⟩

def ataPrepareDmaTransfer (mem : PhysMemory) (cr3 : QWORD) (allocated : Bool)
    (memory : Option ContinuousMemory) (buffer : QWORD) (sectorCount : WORD) :
    Except Fault (Except STATUS DmaTransfer) := do
  assertThat (buffer ≠ 0)
  assertThat (sectorCount ≠ 0)
  let byteCount : DWORD := sectorCount.setWidth 32 * 512
  match ← ioAllocateMdl mem cr3 allocated buffer byteCount with
  | .error status => return .error status
  | .ok pMdl => prepareTable pMdl byteCount memory

/-- A mapped kernel buffer of whole sectors in memory below 4 GiB, each of whose translation pairs the
driver accepts. -/
structure DmaBuffer where
  mem : PhysMemory
  cr3 : QWORD
  address : QWORD
  sectorCount : WORD
  sectorCount_ne : sectorCount ≠ 0
  kernel : vmIsKernelAddress address = true
  fits : address.toNat + sectorCount.toNat * 512 ≤ 2 ^ 64
  mapped : BufferMapped mem (frameOf cr3) address (sectorCount.setWidth 32 * 512)
  below : ∀ k < pagesOfBuffer address (sectorCount.setWidth 32 * 512), ∀ pa,
    frameAt mem (pageAt (alignAddressLower address pageSize) k) 4 (frameOf cr3) = some pa →
      pa.toNat + 4096 ≤ 2 ^ 32
  valid : ∀ pMdl, mdlAllocateEx mem cr3 true true address (sectorCount.setWidth 32 * 512) =
    .ok (some pMdl) → ∀ p ∈ pMdl.translations, ataValidateTranslationPair p = statusSuccess

namespace DmaBuffer

variable (b : DmaBuffer)

def byteCount : DWORD := b.sectorCount.setWidth 32 * 512

def prepare (allocated : Bool) (memory : Option ContinuousMemory) :
    Except Fault (Except STATUS DmaTransfer) :=
  ataPrepareDmaTransfer b.mem b.cr3 allocated memory b.address b.sectorCount

end DmaBuffer

/-- The memory of an entry. -/
def PrdEntry.segment (e : PrdEntry) : ℕ × ℕ := (e.physicalAddress.toNat, e.byteCount.toNat)

/-- The memory of an entry lies in one block of 64 KiB and is not empty. -/
structure PrdEntry.Fits (e : PrdEntry) : Prop where
  nonempty : e.byteCount ≠ 0
  boundary : (e.physicalAddress.toNat + e.byteCount.toNat - 1) / 65536 = e.physicalAddress.toNat / 65536

namespace DmaTransfer

variable (t : DmaTransfer)

def prdEntries : List PrdEntry := t.entries.take t.indexInPrdEntries

/-- The table describes exactly the bytes of the buffer. -/
structure Describes (b : DmaBuffer) : Prop where
  inside : t.indexInPrdEntries ≤ t.entries.length
  length : (elements (t.prdEntries.map PrdEntry.segment)).length = b.sectorCount.toNat * 512
  bytes : ∀ k < b.sectorCount.toNat * 512, (elements (t.prdEntries.map PrdEntry.segment))[k]? =
    (physicalByte b.mem (frameOf b.cr3) (b.address + BitVec.ofNat 64 k)).map BitVec.toNat
  fits : ∀ e ∈ t.prdEntries, e.Fits
  last : ∀ i e, t.prdEntries[i]? = some e → (e.lastEntry = true ↔ i + 1 = t.prdEntries.length)

end DmaTransfer

namespace DmaBuffer

variable (b : DmaBuffer)

/-- No `ASSERT` fires, and if there is memory for the table, it is built. -/
def Prepares : Prop :=
  ∀ (allocated : Bool) (memory : Option ContinuousMemory), ∃ r, b.prepare allocated memory = .ok r ∧
    (∀ t, r = .ok t → t.Describes b) ∧
      (allocated = true → ∀ m, memory = some m → m.physicalAddress ≤ ataDmaMaxPhysicalAddress →
        ∃ t, r = .ok t)

def pages : ℕ := pagesOfBuffer b.address b.byteCount

/-- The frame of a page of the buffer. -/
def frame (k : ℕ) : QWORD := pagesFound b.mem (frameOf b.cr3) b.address k

/-- The runs of adjacent frames that the buffer lies in. -/
def frameRuns : ℕ := breaks (b.frame 0) ((List.range' 1 (b.pages - 1)).map b.frame) + 1

end DmaBuffer

section Boundaries

variable {addr size : QWORD}

private theorem boundary_toNat : ataDmaPhysicalBoundary.toNat = 65536 := rfl

theorem isInSameBoundary_page (haligned : isAddressAligned addr pageSize = true) (hpos : 0 < size.toNat)
    (hlt : size.toNat < 2 ^ 32) : isInSameBoundary addr size pageSize = true ↔ size.toNat ≤ 4096 := by
  have hpage : pageSize.toNat = 4096 := rfl
  have hdvd := (isAddressAligned_iff (k := 12) hpage).mp haligned
  have hone : (1 : QWORD).toNat = 1 := rfl
  have ha := addr.isLt
  unfold isInSameBoundary
  rw [beq_iff_eq, ← BitVec.toNat_inj, alignAddressLower_toNat (k := 12) hpage,
    alignAddressLower_toNat (k := 12) hpage, BitVec.toNat_sub, BitVec.toNat_add, hone]
  rw [hpage] at hdvd ⊢
  omega

/-- Memory that starts and ends in one block of 64 KiB. -/
theorem isInSameBoundary_iff (hpos : 0 < size.toNat) (hlt : addr.toNat + size.toNat < 2 ^ 64) :
    isInSameBoundary addr size ataDmaPhysicalBoundary = true ↔
      (addr.toNat + size.toNat - 1) / 65536 = addr.toNat / 65536 := by
  have hone : (1 : QWORD).toNat = 1 := rfl
  have hk : ataDmaPhysicalBoundary.toNat = 2 ^ 16 := rfl
  unfold isInSameBoundary
  rw [beq_iff_eq, ← BitVec.toNat_inj, alignAddressLower_toNat hk, alignAddressLower_toNat hk,
    BitVec.toNat_sub, BitVec.toNat_add, hone, boundary_toNat]
  omega

/-- The bytes to the end of the block. -/
theorem byteCountForAlignment_toNat (h : addr.toNat % 65536 ≠ 0) :
    ((ataDmaPhysicalBoundary - (addr &&& (ataDmaPhysicalBoundary - 1))).setWidth 16 : WORD).toNat =
      65536 - addr.toNat % 65536 := by
  have hand : (addr &&& (ataDmaPhysicalBoundary - 1)).toNat = addr.toNat % 65536 := by
    rw [BitVec.toNat_and, show (ataDmaPhysicalBoundary - 1).toNat = 2 ^ 16 - 1 from rfl,
      Nat.and_two_pow_sub_one_eq_mod]
  have hmod := Nat.mod_lt addr.toNat (show 0 < 65536 by decide)
  rw [BitVec.toNat_setWidth, BitVec.toNat_sub, hand, boundary_toNat]
  lia

end Boundaries

section Entries

variable {address : QWORD} {n : WORD} {index : ℕ} {prdTable : List PrdEntry} {e : PrdEntry}

theorem setPrdEntry_spec (h : index < prdTable.length) : ∃ table, setPrdEntry prdTable index e = .ok table ∧
    table.length = prdTable.length ∧ table.take (index + 1) = prdTable.take index ++ [e] := by
  refine ⟨prdTable.set index e, if_pos h, List.length_set, ?_⟩
  rw [List.take_add_one, List.take_set_of_le (Nat.le_refl index), List.getElem?_set_self h]
  rfl

/-- The entries describe the memory of the pair. -/
structure EntriesFor (address : QWORD) (n : WORD) (es : List PrdEntry) : Prop where
  length_le : es.length ≤ 2
  ne_nil : es ≠ []
  elements_eq : ∀ l, elements (es.map PrdEntry.segment ++ l) = elements ((address.toNat, n.toNat) :: l)
  fits : ∀ e ∈ es, e.Fits
  not_last : ∀ e ∈ es, e.lastEntry = false

/-- Memory that lies in one block has one entry. -/
theorem entriesFor_single (hpos : 0 < n.toNat) (hbelow : address.toNat + n.toNat ≤ 2 ^ 32)
    (hsame : (address.toNat + n.toNat - 1) / 65536 = address.toNat / 65536) :
    EntriesFor address n [⟨address.setWidth 32, n, false⟩] := by
  have haddress : (address.setWidth 32 : DWORD).toNat = address.toNat := by
    rw [BitVec.toNat_setWidth]
    lia
  refine ⟨by simp, by simp, fun l => ?_, fun e he => ?_, by simp⟩
  · simp [PrdEntry.segment, haddress]
  · obtain rfl := List.mem_singleton.mp he
    refine ⟨fun hzero => ?_, ?_⟩
    · rw [show n = 0 from hzero] at hpos
      exact absurd hpos (by decide)
    · rw [haddress]
      exact hsame

/-- A range that crosses a boundary is cut at it into two parts that cross none. -/
private theorem cut_at_boundary {a n c : ℕ} (hn : n < 65536) (hlt : c < 65536)
    (hcross : (a + n - 1) / 65536 ≠ a / 65536) (hc : c = 65536 - a % 65536) :
    0 < c ∧ c < n ∧ (a + c - 1) / 65536 = a / 65536 ∧
      (a + c + (n - c) - 1) / 65536 = (a + c) / 65536 := by
  have hpos : 0 < c := by lia
  have hlt : c < n := by lia
  subst hc
  clear hcross
  exact ⟨hpos, hlt, by lia, by lia⟩

/-- Memory that crosses a boundary has an entry before and one after it. -/
theorem entriesFor_pair {count : WORD} (hbelow : address.toNat + n.toNat ≤ 2 ^ 32)
    (hcross : (address.toNat + n.toNat - 1) / 65536 ≠ address.toNat / 65536)
    (hcount : count.toNat = 65536 - address.toNat % 65536) :
    EntriesFor address n [⟨address.setWidth 32, count, false⟩,
      ⟨address.setWidth 32 + count.setWidth 32, n - count, false⟩] := by
  obtain ⟨hpos, hlt, hfirst, hlast⟩ := cut_at_boundary n.isLt count.isLt hcross hcount
  clear hcross hcount
  have hzero : (0 : WORD).toNat = 0 := rfl
  have haddress : (address.setWidth 32 : DWORD).toNat = address.toNat := by
    rw [BitVec.toNat_setWidth]
    exact Nat.mod_eq_of_lt (by lia)
  have hwidth : (count.setWidth 32 : DWORD).toNat = count.toNat := by
    rw [BitVec.toNat_setWidth]
    exact Nat.mod_eq_of_lt (by omega)
  have hrest : (n - count).toNat = n.toNat - count.toNat :=
    BitVec.toNat_sub_of_le (BitVec.le_def.mpr hlt.le)
  have hsecond : (address.setWidth 32 + count.setWidth 32 : DWORD).toNat =
      address.toNat + count.toNat := by
    rw [BitVec.toNat_add, haddress, hwidth]
    exact Nat.mod_eq_of_lt (by lia)
  refine ⟨by simp, by simp, fun l => ?_, fun e he => ?_, by simp⟩
  · have hsum : count.toNat + (n.toNat - count.toNat) = n.toNat := Nat.add_sub_cancel' hlt.le
    have hsplit := elements_split address.toNat count.toNat (n.toNat - count.toNat) l
    rw [hsum] at hsplit
    simpa [PrdEntry.segment, haddress, hrest, hsecond] using hsplit
  · rcases List.mem_pair.mp he with rfl | rfl
    · refine ⟨fun hnone => ?_, ?_⟩
      · rw [show count = 0 from hnone, hzero] at hpos
        exact absurd hpos (Nat.lt_irrefl 0)
      · dsimp only
        rw [haddress]
        exact hfirst
    · refine ⟨fun hnone => ?_, ?_⟩
      · rw [show n - count = 0 from hnone, hzero] at hrest
        exact absurd hrest (Nat.sub_pos_of_lt hlt).ne
      · dsimp only
        rw [hsecond, hrest]
        exact hlast

theorem setPairEntries_spec (hpos : 0 < n.toNat) (hbelow : address.toNat + n.toNat ≤ 2 ^ 32)
    (hroom : index + 2 ≤ prdTable.length) : ∃ es table, EntriesFor address n es ∧
      setPairEntries address n index prdTable = .ok (index + es.length, table) ∧
      table.length = prdTable.length ∧
      table.take (index + es.length) = prdTable.take index ++ es := by
  have hn := n.isLt
  have hwidth : (n.setWidth 64 : QWORD).toNat = n.toNat := by
    rw [BitVec.toNat_setWidth]
    lia
  have hiff := @isInSameBoundary_iff address (n.setWidth 64) (by omega) (by omega)
  rw [hwidth] at hiff
  unfold setPairEntries
  by_cases hsame : isInSameBoundary address (n.setWidth 64) ataDmaPhysicalBoundary = true
  · obtain ⟨table, hset, hlength, htake⟩ := @setPrdEntry_spec index prdTable
      ⟨address.setWidth 32, n, false⟩ (by omega)
    refine ⟨_, table, entriesFor_single hpos hbelow (hiff.mp hsame), ?_, hlength, htake⟩
    dsimp only
    rw [if_pos hsame, hset]
    rfl
  · have hcross : ¬(address.toNat + n.toNat - 1) / 65536 = address.toNat / 65536 := fun h =>
      hsame (hiff.mpr h)
    have halign := @byteCountForAlignment_toNat address (by lia)
    generalize hcount : ((ataDmaPhysicalBoundary - (address &&& (ataDmaPhysicalBoundary - 1))).setWidth
      16 : WORD) = count at halign
    obtain ⟨table₁, hset₁, hlength₁, htake₁⟩ := @setPrdEntry_spec index prdTable
      ⟨address.setWidth 32, count, false⟩ (by omega)
    obtain ⟨table₂, hset₂, hlength₂, htake₂⟩ := @setPrdEntry_spec (index + 1) table₁
      ⟨address.setWidth 32 + count.setWidth 32, n - count, false⟩ (by omega)
    refine ⟨_, table₂, entriesFor_pair hbelow hcross halign, ?_, hlength₂.trans hlength₁, ?_⟩
    · dsimp only
      rw [if_neg hsame, hset₁]
      change (do
        let prdTable ← setPrdEntry table₁ (index + 1) _
        return (index + 2, prdTable) : Except Fault _) = _
      rw [hset₂]
      rfl
    · change table₂.take (index + 1 + 1) = _
      rw [htake₂, htake₁, List.append_assoc]
      rfl

end Entries

/-- The memory of a pair. -/
def pairSegment (p : MdlTranslationPair) : ℕ × ℕ := (p.address.toNat, p.numberOfBytes.toNat)

/-- The driver accepts the pair, and its memory is below 4 GiB. -/
structure Accepted (p : MdlTranslationPair) : Prop where
  valid : ataValidateTranslationPair p = statusSuccess
  nonempty : 0 < p.numberOfBytes.toNat
  below : p.address.toNat + p.numberOfBytes.toNat ≤ 2 ^ 32

/-- What the loop has put into the table, from `index` on. -/
structure Filled (prdTable table : List PrdEntry) (index : ℕ) (es : List PrdEntry) (l : List ℕ) : Prop where
  length_eq : table.length = prdTable.length
  take_eq : table.take (index + es.length) = prdTable.take index ++ es
  le_length : index + es.length ≤ prdTable.length
  ne_nil : es ≠ []
  elements_eq : elements (es.map PrdEntry.segment) = l
  fits : ∀ e ∈ es, e.Fits
  not_last : ∀ e ∈ es, e.lastEntry = false

section Loop

variable {p : MdlTranslationPair} {pairs : List MdlTranslationPair} {bytesRemaining : DWORD} {index : ℕ}
  {prdTable : List PrdEntry}

theorem numberOfBytes_le (h : ataValidateTranslationPair p = statusSuccess) :
    p.numberOfBytes.toNat ≤ 65535 := by
  by_contra hlt
  have hlong : p.numberOfBytes > ataDmaMaxPhysicalLen := BitVec.lt_def.mpr (Nat.not_le.mp hlt)
  unfold ataValidateTranslationPair at h
  rw [if_pos hlong] at h
  split_ifs at h <;> exact absurd h (by decide)

/-- The bytes of a pair that are transferred. -/
theorem byteCountForPrd_toNat (h : Accepted p) :
    ((if p.numberOfBytes < bytesRemaining then p.numberOfBytes else bytesRemaining).setWidth 16 :
      WORD).toNat = min p.numberOfBytes.toNat bytesRemaining.toNat := by
  have hle := numberOfBytes_le h.valid
  rw [BitVec.toNat_setWidth]
  split_ifs with hlt
  · rw [BitVec.lt_def] at hlt
    lia
  · rw [BitVec.lt_def] at hlt
    lia

/-- The loop describes all bytes that remain, unless the pairs go on after them. -/
theorem prdLoop_spec (hpairs : ∀ p ∈ pairs, Accepted p)
    (hlast : ((pairs.dropLast.map pairSegment).map Prod.snd).sum < bytesRemaining.toNat)
    (hall : bytesRemaining.toNat ≤ ((pairs.map pairSegment).map Prod.snd).sum)
    (hroom : index + 2 * pairs.length ≤ prdTable.length) :
    ∃ es table, prdLoop pairs bytesRemaining index prdTable = .ok (.ok (0, index + es.length, table)) ∧
      Filled prdTable table index es ((elements (pairs.map pairSegment)).take bytesRemaining.toNat) := by
  induction pairs generalizing bytesRemaining index prdTable with
  | nil =>
    simp only [List.map_nil, List.sum_nil, List.dropLast_nil] at hlast hall
    omega
  | cons p pairs ih =>
    have hp := hpairs p (by simp)
    have hvalid : ¬¬succeeded (ataValidateTranslationPair p) = true := by
      rw [hp.valid]
      decide
    have hcount := @byteCountForPrd_toNat p bytesRemaining hp
    have hpos := hp.nonempty
    have hbelow := hp.below
    have hr : 0 < bytesRemaining.toNat := by omega
    unfold prdLoop
    rw [if_neg hvalid]
    dsimp only
    generalize ((if p.numberOfBytes < bytesRemaining then p.numberOfBytes else bytesRemaining).setWidth
      16 : WORD) = count at hcount ⊢
    rw [List.length_cons] at hroom
    obtain ⟨es, table, hes, hset, hlength, htake⟩ := @setPairEntries_spec p.address count index prdTable
      (by lia) (by lia) (by lia)
    have hle := hes.length_le
    have hrest : (bytesRemaining - count.setWidth 32).toNat = bytesRemaining.toNat - count.toNat := by
      have hwidth : (count.setWidth 32 : DWORD).toNat = count.toNat := by
        have hlt := count.isLt
        rw [BitVec.toNat_setWidth]
        lia
      rw [BitVec.toNat_sub_of_le (BitVec.le_def.mpr (by lia)), hwidth]
    have htaken : (elements ((p :: pairs).map pairSegment)).take bytesRemaining.toNat =
        elements (es.map PrdEntry.segment) ++
          (elements (pairs.map pairSegment)).take (bytesRemaining - count.setWidth 32).toNat := by
      have hthis := hes.elements_eq []
      rw [List.append_nil] at hthis
      rw [List.map_cons, pairSegment, take_elements_cons, hthis, hrest, hcount]
    rw [hset]
    change ∃ (es' : List PrdEntry) (table' : List PrdEntry),
      prdLoop pairs (bytesRemaining - count.setWidth 32) (index + es.length) table =
        .ok (.ok (0, index + es'.length, table')) ∧ _
    rw [htaken]
    by_cases hnil : pairs = []
    · subst hnil
      have hzero : bytesRemaining - count.setWidth 32 = 0 := by
        simp only [List.map_cons, List.map_nil, List.sum_cons, List.sum_nil, pairSegment] at hall
        refine BitVec.eq_of_toNat_eq ?_
        rw [hrest, hcount]
        exact Nat.sub_eq_zero_of_le (by lia)
      refine ⟨es, table, by rw [hzero]; rfl, hlength, htake, by lia, hes.ne_nil, ?_, hes.fits,
        hes.not_last⟩
      rw [hzero]
      simp
    · rw [List.dropLast_cons_of_ne_nil hnil] at hlast
      simp only [List.map_cons, List.sum_cons, pairSegment] at hlast hall
      obtain ⟨es', table', hloop, hfilled⟩ := @ih (bytesRemaining - count.setWidth 32)
        (index + es.length) table (fun q hq => hpairs q (List.mem_cons_of_mem _ hq))
        (by lia) (by lia) (by omega)
      have hle' := hfilled.le_length
      refine ⟨es ++ es', table', ?_, hfilled.length_eq.trans hlength, ?_, ?_, ?_, ?_, ?_, ?_⟩
      · rw [hloop, List.length_append, Nat.add_assoc]
      · rw [List.length_append, ← Nat.add_assoc, hfilled.take_eq, htake, List.append_assoc]
      · rw [List.length_append]
        lia
      · simp [hes.ne_nil]
      · rw [List.map_append, elements_append, hfilled.elements_eq]
      · intro e he
        exact (List.mem_append.mp he).elim (hes.fits e) (hfilled.fits e)
      · intro e he
        exact (List.mem_append.mp he).elim (hes.not_last e) (hfilled.not_last e)

end Loop

/-- The bytes of pairs below 4 GiB are those of their segments. -/
theorem byteAt_toNat {pairs : List MdlTranslationPair}
    (h : ∀ p ∈ pairs, p.address.toNat + p.numberOfBytes.toNat ≤ 2 ^ 32) (k : ℕ) :
    (byteAt pairs k).map BitVec.toNat = (elements (pairs.map pairSegment))[k]? := by
  induction pairs generalizing k with
  | nil => simp [byteAt]
  | cons p pairs ih =>
    have hp := h p (by simp)
    rw [List.map_cons, elements_cons, List.getElem?_append, List.length_range']
    unfold byteAt
    by_cases hk : k < p.numberOfBytes.toNat
    · have hlt : k < (pairSegment p).2 := hk
      rw [if_pos hk, if_pos hlt, List.getElem?_range' hlt, Option.map_some, BitVec.toNat_add,
        BitVec.toNat_ofNat]
      change some _ = some (p.address.toNat + 1 * k)
      congr 1
      lia
    · have hnot : ¬k < (pairSegment p).2 := hk
      rw [if_neg hk, if_neg hnot, ih fun q hq => h q (List.mem_cons_of_mem _ hq)]
      rfl

namespace DmaBuffer

variable (b : DmaBuffer)

theorem byteCount_toNat : b.byteCount.toNat = b.sectorCount.toNat * 512 := by
  have hlt := b.sectorCount.isLt
  have hsize : (512 : DWORD).toNat = 512 := rfl
  unfold byteCount
  rw [BitVec.toNat_mul, BitVec.toNat_setWidth, hsize]
  lia

theorem sectorCount_pos : 0 < b.sectorCount.toNat := by
  refine Nat.pos_of_ne_zero fun hzero => b.sectorCount_ne ?_
  exact BitVec.eq_of_toNat_eq hzero

theorem byteCount_ne : b.byteCount ≠ 0 := by
  intro hzero
  have hcount := b.byteCount_toNat
  have hpos := b.sectorCount_pos
  rw [hzero, show (0 : DWORD).toNat = 0 from rfl] at hcount
  omega

theorem le_address : 2 ^ 47 ≤ b.address.toNat := by
  by_contra hlt
  have hkernel := b.kernel
  rw [vmIsKernelAddress_eq_false.mpr (by lia)] at hkernel
  cases hkernel

theorem address_ne : b.address ≠ 0 := by
  intro hzero
  have hle := b.le_address
  rw [hzero, show (0 : QWORD).toNat = 0 from rfl] at hle
  omega

theorem pages_eq : b.pages = (b.address.toNat % 4096 + b.sectorCount.toNat * 512 + 4095) / 4096 := by
  unfold pages pagesOfBuffer
  rw [byteCount_toNat]

theorem pageAt_ne {k : ℕ} (hk : k < b.pages) : pageAt (alignAddressLower b.address pageSize) k ≠ 0 := by
  intro hzero
  have hfits := b.fits
  have haddress := b.le_address
  have hpages := b.pages_eq
  have hsum := congrArg BitVec.toNat hzero
  rw [pageAt, BitVec.toNat_add, BitVec.toNat_ofNat, alignLower_toNat,
    show (0 : QWORD).toNat = 0 from rfl] at hsum
  omega

theorem frame_below {k : ℕ} (hk : k < b.pages) : (b.frame k).toNat + 4096 ≤ 2 ^ 32 :=
  b.below k hk _ (b.mapped.found hk).2

/-- The translation pairs of the buffer. -/
structure Translated (pMdl : Mdl) : Prop where
  allocated : mdlAllocateEx b.mem b.cr3 true true b.address b.byteCount = .ok (some pMdl)
  count : pMdl.numberOfTranslationPairs.toNat = pMdl.translations.length
  runs : pMdl.translations.length = b.frameRuns
  accepted : ∀ p ∈ pMdl.translations, Accepted p
  last : ((pMdl.translations.dropLast.map pairSegment).map Prod.snd).sum < b.byteCount.toNat
  all : b.byteCount.toNat ≤ ((pMdl.translations.map pairSegment).map Prod.snd).sum
  bytes : ∀ k < b.byteCount.toNat, byteAt pMdl.translations k =
    physicalByte b.mem (frameOf b.cr3) (b.address + BitVec.ofNat 64 k)

theorem translated : ∃ pMdl, b.Translated pMdl := by
  have hcount := b.byteCount_toNat
  have hsector := b.sectorCount.isLt
  have hpages := b.pages_eq
  have hpositive := b.sectorCount_pos
  have hsize : 4096 * pagesOfBuffer b.address b.byteCount < 2 ^ 32 := by
    change 4096 * b.pages < 2 ^ 32
    lia
  obtain ⟨first, pMdl, haddress, hbytes, hok, -, -, -, hpairs, htranslations⟩ := mdlAllocateEx_spec
    true b.byteCount_ne hsize (fun k hk => b.pageAt_ne hk) b.mapped
  obtain ⟨pMdl', hok', hdescribes⟩ := mdlAllocateEx_describes true b.byteCount_ne hsize
    (fun k hk => b.pageAt_ne hk) b.mapped
  obtain rfl := Option.some.inj (Except.ok.inj (hok.symm.trans hok'))
  change first.address = b.frame 0 + _ at haddress
  change pMdl.translations = coalesce first ((List.range' 1 (b.pages - 1)).map b.frame) at htranslations
  generalize hpas : (List.range' 1 (b.pages - 1)).map b.frame = pas at htranslations
  have hlength : pas.length = b.pages - 1 := by
    rw [← hpas, List.length_map, List.length_range']
  have hfits : first.numberOfBytes.toNat + 4096 * pas.length < 2 ^ 32 := by omega
  have hframe := b.frame_below (k := 0) (by lia)
  have hstart : first.address.toNat = (b.frame 0).toNat + b.address.toNat % 4096 := by
    rw [haddress, BitVec.toNat_add, BitVec.toNat_setWidth, pageOffset_toNat]
    lia
  have hends : first.endsAt (b.frame 0 + pageSize) := by
    unfold MdlTranslationPair.endsAt
    refine BitVec.eq_of_toNat_eq ?_
    rw [BitVec.toNat_add, BitVec.toNat_add, hstart, BitVec.toNat_setWidth, hbytes,
      show pageSize.toNat = 4096 from rfl]
    lia
  have hsum : ((pMdl.translations.map pairSegment).map Prod.snd).sum + b.address.toNat % 4096 =
      4096 * b.pages := by
    rw [List.map_map]
    exact hdescribes.total
  refine ⟨pMdl, hok, hpairs, ?_, fun p hp => ?_, ?_, by lia, fun k hk => hdescribes.bytes k ?_⟩
  · rw [htranslations, coalesce_length hfits hends]
    unfold frameRuns
    rw [hpas]
  · obtain ⟨hpos, hbelow⟩ := @coalesce_below first pas (2 ^ 32) (by decide) hfits (by lia) (by lia)
      (fun pa hpa => by
        rw [← hpas] at hpa
        obtain ⟨k, hk, rfl⟩ := List.mem_map.mp hpa
        rw [List.mem_range'_1] at hk
        exact b.frame_below (by omega)) p (htranslations ▸ hp)
    exact ⟨b.valid pMdl hok p hp, hpos, hbelow⟩
  · rw [List.map_map, htranslations]
    by_cases hnil : pas = []
    · rw [hnil]
      simp only [coalesce, List.dropLast_singleton, List.map_nil, List.sum_nil]
      lia
    · have hdrop := coalesce_dropLast hfits hnil
      change ((coalesce first pas).dropLast.map fun p => p.numberOfBytes.toNat).sum < _
      omega
  · change k + b.address.toNat % 4096 < 4096 * b.pages
    lia

variable {b : DmaBuffer} {pMdl : Mdl} {m : ContinuousMemory}

/-- With the translation pairs at hand, a call goes on to the table. -/
theorem Translated.prepare (h : b.Translated pMdl) (memory : Option ContinuousMemory) :
    b.prepare true memory = prepareTable pMdl b.byteCount memory := by
  have hmdl : ioAllocateMdl b.mem b.cr3 true b.address b.byteCount = .ok (.ok pMdl) := by
    unfold ioAllocateMdl
    rw [if_neg b.address_ne, if_neg b.byteCount_ne, h.allocated]
    rfl
  unfold DmaBuffer.prepare ataPrepareDmaTransfer
  rw [assertThat_of b.address_ne, assertThat_of b.sectorCount_ne]
  change (ioAllocateMdl b.mem b.cr3 true b.address b.byteCount >>= _) = _
  rw [hmdl]
  rfl

/-- Without memory for the list, a call returns. -/
theorem Translated.prepare_not_granted (h : b.Translated pMdl) (memory : Option ContinuousMemory) :
    b.prepare false memory = .ok (.error statusUnsuccessful) := by
  have hmdl : ioAllocateMdl b.mem b.cr3 false b.address b.byteCount = .ok (.error statusUnsuccessful) := by
    unfold ioAllocateMdl
    rw [if_neg b.address_ne, if_neg b.byteCount_ne, mdlAllocateEx_not_granted h.allocated]
    rfl
  unfold DmaBuffer.prepare ataPrepareDmaTransfer
  rw [assertThat_of b.address_ne, assertThat_of b.sectorCount_ne]
  change (ioAllocateMdl b.mem b.cr3 false b.address b.byteCount >>= _) = _
  rw [hmdl]
  rfl

private theorem breaks_le (previous : QWORD) (pas : List QWORD) : breaks previous pas ≤ pas.length := by
  induction pas generalizing previous with
  | nil => exact Nat.le_refl 0
  | cons pa pas ih =>
    have hrest := ih pa
    unfold breaks
    rw [List.length_cons]
    split_ifs <;> omega

theorem frameRuns_le (b : DmaBuffer) : b.frameRuns ≤ 8193 := by
  have hsector := b.sectorCount.isLt
  have hpages := b.pages_eq
  have hle := breaks_le (b.frame 0) ((List.range' 1 (b.pages - 1)).map b.frame)
  rw [List.length_map, List.length_range'] at hle
  unfold frameRuns
  omega

theorem Translated.allocationSize (h : b.Translated pMdl) :
    (sizeofPrdEntry * pMdl.numberOfTranslationPairs * 2).toNat = 16 * b.frameRuns := by
  have hle := b.frameRuns_le
  have hcount := h.count
  rw [h.runs] at hcount
  rw [BitVec.toNat_mul, BitVec.toNat_mul, hcount, show sizeofPrdEntry.toNat = 8 from rfl,
    show (2 : DWORD).toNat = 2 from rfl]
  lia

theorem Translated.pairs_ne (h : b.Translated pMdl) : pMdl.numberOfTranslationPairs ≠ 0 := by
  intro hzero
  have hcount := h.count
  have hruns := h.runs
  rw [hzero, show (0 : DWORD).toNat = 0 from rfl] at hcount
  unfold frameRuns at hruns
  omega

/-- The table fits into its page exactly if there are at most 256 runs of frames. -/
theorem Translated.isInSameBoundary (h : b.Translated pMdl) (m : ContinuousMemory) :
    isInSameBoundary m.address
      ((sizeofPrdEntry * pMdl.numberOfTranslationPairs * 2).setWidth 64) pageSize = true ↔
        b.frameRuns ≤ 256 := by
  have hle := b.frameRuns_le
  have hpos : 0 < b.frameRuns := Nat.succ_pos _
  have hsize : ((sizeofPrdEntry * pMdl.numberOfTranslationPairs * 2).setWidth 64 : QWORD).toNat =
      16 * b.frameRuns := by
    rw [BitVec.toNat_setWidth, h.allocationSize]
    lia
  rw [isInSameBoundary_page m.aligned (by omega) (by omega), hsize]
  omega

/-- A table that does not fit into a page stops the call. -/
theorem Translated.prepareTable_many (h : b.Translated pMdl) (hmany : 256 < b.frameRuns)
    (m : ContinuousMemory) : prepareTable pMdl b.byteCount (some m) = .error .assertFailed := by
  have hnot := mt (h.isInSameBoundary m).mp (by omega)
  unfold prepareTable
  dsimp only
  rw [assertThat_of h.pairs_ne, assertThat_of_not hnot]
  rfl

end DmaBuffer

section Result

variable {b : DmaBuffer} {pMdl : Mdl} {prdTable table : List PrdEntry} {es : List PrdEntry}

/-- The last entry of a list is marked. -/
theorem markLastEntry_spec (hne : es ≠ []) (hle : es.length ≤ table.length)
    (htake : table.take es.length = es) : ∃ marked, markLastEntry table es.length = .ok marked ∧
      marked.length = table.length ∧
      marked.take es.length = es.modify (es.length - 1) fun e => { e with lastEntry := true } := by
  refine ⟨_, if_pos ⟨List.length_pos_of_ne_nil hne, hle⟩, List.length_modify .., ?_⟩
  rw [List.take_modify, htake]

/-- Entries with the last one marked. -/
theorem describes_of_marked {t : DmaTransfer} (hinside : t.indexInPrdEntries ≤ t.entries.length)
    (hentries : t.prdEntries = es.modify (es.length - 1) fun e => { e with lastEntry := true })
    (hfits : ∀ e ∈ es, e.Fits) (hlast : ∀ e ∈ es, e.lastEntry = false)
    (helements : (elements (es.map PrdEntry.segment)).length = b.sectorCount.toNat * 512)
    (hbytes : ∀ k < b.sectorCount.toNat * 512, (elements (es.map PrdEntry.segment))[k]? =
      (physicalByte b.mem (frameOf b.cr3) (b.address + BitVec.ofNat 64 k)).map BitVec.toNat) :
    t.Describes b := by
  have hentry : ∀ i e, t.prdEntries[i]? = some e → ∃ e₀, es[i]? = some e₀ ∧
      e = if es.length - 1 = i then { e₀ with lastEntry := true } else e₀ := by
    intro i e he
    rw [hentries, List.getElem?_modify] at he
    cases hes : es[i]? with
    | none => simp [hes] at he
    | some e₀ =>
      rw [hes] at he
      exact ⟨e₀, rfl, (Option.some.inj he).symm⟩
  have hsegments : t.prdEntries.map PrdEntry.segment = es.map PrdEntry.segment := by
    rw [hentries]
    refine List.ext_getElem? fun i => ?_
    rw [List.getElem?_map, List.getElem?_map, List.getElem?_modify]
    cases es[i]? with
    | none => rfl
    | some e =>
      simp only [Option.map_some]
      split_ifs <;> rfl
  refine ⟨hinside, ?_, ?_, fun e he => ?_, fun i e he => ?_⟩
  · rw [hsegments]
    exact helements
  · rw [hsegments]
    exact hbytes
  · obtain ⟨i, hi⟩ := List.mem_iff_getElem?.mp he
    obtain ⟨e₀, he₀, rfl⟩ := hentry i e hi
    obtain ⟨hnonempty, hboundary⟩ := hfits e₀ (List.mem_of_getElem? he₀)
    split_ifs <;> exact ⟨hnonempty, hboundary⟩
  · obtain ⟨e₀, he₀, rfl⟩ := hentry i e he
    obtain ⟨hlt, -⟩ := List.getElem?_eq_some_iff.mp he₀
    have hnot := hlast e₀ (List.mem_of_getElem? he₀)
    rw [hentries, List.length_modify]
    by_cases hi : es.length - 1 = i
    · rw [if_pos hi]
      simp only [true_iff]
      lia
    · rw [if_neg hi, hnot]
      simp only [Bool.false_eq_true, false_iff]
      omega

/-- A table that fits into a page describes the buffer. -/
theorem DmaBuffer.Translated.prepareTable_few (h : b.Translated pMdl) (hfew : b.frameRuns ≤ 256)
    (m : ContinuousMemory) : ∃ t : DmaTransfer, t.Describes b ∧
      prepareTable pMdl b.byteCount (some m) =
        .ok (if m.physicalAddress > ataDmaMaxPhysicalAddress then
          .error statusDeviceDmaPhysicalAddressTooHigh else .ok t) := by
  have hcount := b.byteCount_toNat
  have hentries : (sizeofPrdEntry * pMdl.numberOfTranslationPairs * 2 / sizeofPrdEntry).toNat =
      2 * pMdl.translations.length := by
    rw [BitVec.toNat_udiv, h.allocationSize, h.runs, show sizeofPrdEntry.toNat = 8 from rfl]
    lia
  obtain ⟨es, table, hloop, hfilled⟩ := @prdLoop_spec pMdl.translations b.byteCount 0
    ((List.range (2 * pMdl.translations.length)).map m.contents) h.accepted h.last h.all (by simp)
  have htake := hfilled.take_eq
  have hlength := hfilled.length_eq
  have hle := hfilled.le_length
  have helements := hfilled.elements_eq
  rw [Nat.zero_add, List.take_zero, List.nil_append] at htake
  rw [Nat.zero_add] at hle
  rw [Nat.zero_add] at hloop
  obtain ⟨marked, hmarked, hlen, htaken⟩ := markLastEntry_spec hfilled.ne_nil (hle.trans hlength.ge) htake
  have hall := h.all
  refine ⟨⟨m.physicalAddress.setWidth 32, m.address, es.length, marked⟩, describes_of_marked ?_ htaken
    hfilled.fits hfilled.not_last ?_ (fun k hk => ?_), ?_⟩
  · rw [hlen, hlength]
    exact hle
  · rw [helements, List.length_take, length_elements]
    lia
  · rw [helements, List.getElem?_take_of_lt (by lia), ← byteAt_toNat fun p hp => (h.accepted p hp).below,
      h.bytes k (by omega)]
  · have htranslations : pMdl.translations.take pMdl.numberOfTranslationPairs.toNat =
        pMdl.translations := by rw [h.count, List.take_length]
    unfold prepareTable
    dsimp only
    rw [assertThat_of h.pairs_ne, assertThat_of ((h.isInSameBoundary m).mpr hfew), htranslations, hentries]
    refine bind_eq_ok.mpr ⟨_, rfl, bind_eq_ok.mpr ⟨_, rfl, bind_eq_ok.mpr ⟨_, hloop, ?_⟩⟩⟩
    refine bind_eq_ok.mpr ⟨_, assertThat_of rfl, bind_eq_ok.mpr ⟨_, hmarked,
      bind_eq_ok.mpr ⟨_, assertThat_of m.mapped, ?_⟩⟩⟩
    split_ifs <;> rfl

end Result

/-- A call builds the table of a buffer and stops at no `ASSERT`, exactly if the buffer lies in at most 256
runs of adjacent frames. -/
theorem prepares_iff (b : DmaBuffer) : b.Prepares ↔ b.frameRuns ≤ 256 := by
  obtain ⟨pMdl, h⟩ := b.translated
  constructor
  · intro hprepares
    by_contra hmany
    let m : ContinuousMemory := ⟨pageSize, pageSize, fun _ => ⟨0, 0, false⟩, by decide, by decide⟩
    obtain ⟨r, hr, -⟩ := hprepares true (some m)
    rw [h.prepare, h.prepareTable_many (by omega) m] at hr
    cases hr
  · intro hfew allocated memory
    cases allocated with
    | false => exact ⟨_, h.prepare_not_granted memory, by simp, by simp⟩
    | true =>
      rw [h.prepare]
      cases memory with
      | none =>
        have hnone : prepareTable pMdl b.byteCount none = .ok (.error statusHeapInsufficientResources) := by
          unfold prepareTable
          dsimp only
          rw [assertThat_of h.pairs_ne]
          rfl
        exact ⟨_, hnone, by simp, by simp⟩
      | some m =>
        obtain ⟨t, ht, hrun⟩ := h.prepareTable_few hfew m
        refine ⟨_, hrun, fun t' ht' => ?_, fun _ m' hm' hlow => ?_⟩
        · split_ifs at ht'
          exact Except.ok.inj ht' ▸ ht
        · obtain rfl := Option.some.inj hm'
          exact ⟨t, if_neg (BitVec.not_lt.mpr hlow)⟩

/-- Four levels of tables, in frames 1 to 4; no two pages have adjacent frames. -/
def scattered : PhysMemory := fun table i =>
  { PtEntry.zero with
    present := true
    physicalAddress := if table = 4 then 2 * i.setWidth 40 + 16 else table + 1 }

private theorem frameAt_scattered (va : QWORD) : frameAt scattered va 4 (frameOf 0x1000) =
    some ((2 * (maskPteOffset va).setWidth 40 + 16).setWidth 64 <<< shiftForPhysicalAddr) := by
  simp [frameAt, scattered, PtEntry.zero, pteGetPhysicalAddress, offsets, frameOf, shiftForPhysicalAddr]

private theorem scattered_frame : ∀ i : BitVec 9,
    (2 * i.setWidth 40 + 16 : BitVec 40).setWidth 64 <<< shiftForPhysicalAddr ≠ (0 : QWORD) ∧
      ((2 * i.setWidth 40 + 16 : BitVec 40).setWidth 64 <<< shiftForPhysicalAddr : QWORD).toNat + 4096 ≤
        2 ^ 32 := by decide +kernel

/-- The frame of a page of the buffer at the start of the kernel space. -/
private def scatteredFrame (k : ℕ) : QWORD :=
  (2 * (maskPteOffset (pageAt 0xFFFF800000000000 k)).setWidth 40 + 16).setWidth 64 <<<
    shiftForPhysicalAddr

private theorem pagesFound_scattered :
    pagesFound scattered (frameOf 0x1000) 0xFFFF800000000000 = scatteredFrame := by
  funext k
  rw [pagesFound, frameAt_scattered, Option.getD_some]
  rfl

private theorem scattered_accepted : ∀ p ∈ coalesce ⟨scatteredFrame 0, 4096⟩
    ((List.range' 1 256).map scatteredFrame), ataValidateTranslationPair p = statusSuccess := by
  decide +kernel

private theorem scattered_mapped :
    BufferMapped scattered (frameOf 0x1000) 0xFFFF800000000000 ((2056 : WORD).setWidth 32 * 512) :=
  fun _ _ => ⟨_, (scattered_frame _).1, frameAt_scattered _⟩

private theorem scattered_valid {pMdl : Mdl} (h : mdlAllocateEx scattered 0x1000 true true
    0xFFFF800000000000 ((2056 : WORD).setWidth 32 * 512) = .ok (some pMdl)) :
    ∀ p ∈ pMdl.translations, ataValidateTranslationPair p = statusSuccess := by
  have hpages : pagesOfBuffer 0xFFFF800000000000 ((2056 : WORD).setWidth 32 * 512) = 257 := by decide
  have hbase : alignAddressLower 0xFFFF800000000000 pageSize = 0xFFFF800000000000 := by decide
  have hnull : ∀ k < 257, pageAt (alignAddressLower 0xFFFF800000000000 pageSize) k ≠ 0 := by
    intro k hk hzero
    have hsum := congrArg BitVec.toNat hzero
    rw [hbase, pageAt, BitVec.toNat_add, BitVec.toNat_ofNat] at hsum
    change (0xFFFF800000000000 + 4096 * k % 2 ^ 64) % 2 ^ 64 = 0 at hsum
    lia
  obtain ⟨first, mdl, haddress, hbytes, hok, -, -, -, -, htranslations⟩ := mdlAllocateEx_spec true
    (by decide) (by rw [hpages]; decide) (hpages ▸ hnull) scattered_mapped
  obtain rfl := Option.some.inj (Except.ok.inj (hok.symm.trans h))
  have hfirst : first = ⟨scatteredFrame 0, 4096⟩ := by
    cases first
    rw [MdlTranslationPair.mk.injEq]
    rw [pagesFound_scattered] at haddress
    exact ⟨haddress, BitVec.eq_of_toNat_eq hbytes⟩
  rw [htranslations, hpages, pagesFound_scattered, hfirst]
  exact scattered_accepted

/-- A buffer of 257 pages. -/
def scatteredBuffer : DmaBuffer where
  mem := scattered
  cr3 := 0x1000
  address := 0xFFFF800000000000
  sectorCount := 2056
  sectorCount_ne := by decide
  kernel := by decide
  fits := by decide
  mapped := scattered_mapped
  below _ _ _ h := by
    rw [frameAt_scattered] at h
    exact Option.some.inj h ▸ (scattered_frame _).2
  valid _ := scattered_valid

private theorem scattered_breaks :
    256 < breaks (scatteredFrame 0) ((List.range' 1 256).map scatteredFrame) + 1 := by decide +kernel

/-- The table of the buffer takes more than a page. -/
theorem not_prepares_scattered : ¬∀ b : DmaBuffer, b.Prepares := by
  intro hall
  obtain ⟨pMdl, h⟩ := scatteredBuffer.translated
  have hframe : scatteredBuffer.frame = scatteredFrame := pagesFound_scattered
  have hpages : scatteredBuffer.pages = 257 := by decide
  have hmany : 256 < scatteredBuffer.frameRuns := by
    unfold DmaBuffer.frameRuns
    rw [hframe, hpages]
    exact scattered_breaks
  obtain ⟨r, hr, -⟩ := hall scatteredBuffer true (some ⟨pageSize, pageSize, fun _ => ⟨0, 0, false⟩,
    by decide, by decide⟩)
  rw [h.prepare, h.prepareTable_many hmany] at hr
  cases hr

end HAL9000.Io
