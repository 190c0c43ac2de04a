import HAL9000.Mmu.Pmm

/-! How `pmm.c` builds the allocation bitmap from the memory map of the firmware. All memory up to
the highest address in the map is reserved first, then the usable entries are released. -/
namespace HAL9000.Pmm

def mbSize : QWORD := 0x100000

def memoryMapTypeUsableRAM : DWORD := 1

def memoryMapTypeMax : ℕ := 6

def memoryMapEntryEaValidEntry : DWORD := 1

structure Int15MemoryMapEntry where
  baseAddress : QWORD
  length : QWORD
  type : DWORD
  extendedAttributes : DWORD
  deriving DecidableEq, Repr

def Int15MemoryMapEntry.isValid (e : Int15MemoryMapEntry) : Bool :=
  isBooleanFlagOn e.extendedAttributes memoryMapEntryEaValidEntry

/-- What `_PmmDetermineMemoryLimits` finds out; `numberOfEntries` are the counts in
`MemoryRegionList`. -/
structure MemoryLimits where
  availableSystemMemory : QWORD
  highestPresentPhysicalAddress : QWORD
  highestAvailablePhysicalAddress : QWORD
  numberOfEntries : Fin memoryMapTypeMax → DWORD

/-- `MemoryRegions[memoryType].NumberOfEntries++`. The type is the firmware's, and nothing compares it
with the length of the array. -/
def countRegion (regions : Fin memoryMapTypeMax → DWORD) (memoryType : DWORD) :
    Except Fault (Fin memoryMapTypeMax → DWORD) :=
  if h : memoryType.toNat < memoryMapTypeMax then
    .ok (Function.update regions ⟨_, h⟩ (regions ⟨_, h⟩ + 1))
  else .error .danglingAccess

def determineMemoryLimitsStep (l : MemoryLimits) (e : Int15MemoryMapEntry) :
    Except Fault MemoryLimits := do
  let present := if l.highestPresentPhysicalAddress < e.baseAddress + e.length
    then e.baseAddress + e.length else l.highestPresentPhysicalAddress
  if !e.isValid then return { l with highestPresentPhysicalAddress := present }
  let regions ← countRegion l.numberOfEntries e.type
  if memoryMapTypeUsableRAM ≠ e.type then
    return { l with highestPresentPhysicalAddress := present, numberOfEntries := regions }
  return {
    availableSystemMemory := l.availableSystemMemory + e.length
    highestPresentPhysicalAddress := present
    highestAvailablePhysicalAddress :=
      if l.highestAvailablePhysicalAddress < e.baseAddress + e.length
      then e.baseAddress + e.length else l.highestAvailablePhysicalAddress
    numberOfEntries := regions }

def pmmDetermineMemoryLimits (memoryMap : List Int15MemoryMapEntry) : Except Fault MemoryLimits := do
  assertThat (memoryMap ≠ [])
  memoryMap.foldlM determineMemoryLimitsStep ⟨0, 0, 0, fun _ => 0⟩

/-- The body of the loop that marks usable memory as free. -/
def releaseEntry (bitmap : Bitmap) (mem : Memory) (e : Int15MemoryMapEntry) :
    Except Fault Memory := do
  if !e.isValid then return mem
  if memoryMapTypeUsableRAM ≠ e.type then return mem
  if e.baseAddress < mbSize then return mem
  let physAddr := alignAddressUpper e.baseAddress pageSize
  let noOfFrames := e.length / pageSize
  assertThat (noOfFrames ≤ maxDword.setWidth 64)
  pmmReleaseMemory mem bitmap physAddr (noOfFrames.setWidth 32)

/-- Returns the memory with the bitmap in it, the bitmap and the size reserved for it. -/
def pmmInitializeAllocationBitmap (mem : Memory) (currentVirtualAddress highestMemoryAddress : QWORD)
    (memoryEntries : List Int15MemoryMapEntry) : Except Fault (Memory × Bitmap × DWORD) := do
  assertThat (currentVirtualAddress ≠ 0)
  assertThat (highestMemoryAddress ≠ 0)
  let noOfPhysicalFrames := highestMemoryAddress / pageSize
  assertThat (noOfPhysicalFrames ≤ maxDword.setWidth 64)
  let bitmap ← bitmapPreinit (noOfPhysicalFrames.setWidth 32)
  let (mem, bitmap) ← bitmapInitEx mem bitmap currentVirtualAddress false
  let (_, mem) ← pmmReserveMemoryEx mem bitmap bitmap.bitCount 0
  let mem ← memoryEntries.foldlM (releaseEntry bitmap) mem
  return (mem, bitmap, bitmap.bufferSize)

/-- The data of the allocator that `PmmInitSystem` sets up. -/
structure PmmData where
  limits : MemoryLimits
  mem : Memory
  allocationBitmap : Bitmap

/-- The memory map is a pointer and a count in the source. -/
def pmmInitSystem (mem : Memory) (baseAddress : QWORD) (memoryEntries : List Int15MemoryMapEntry) :
    Except Fault (Status × Option (PmmData × DWORD)) := do
  if baseAddress = 0 then return (.invalidParameter1, none)
  if memoryEntries = [] then return (.invalidParameter3, none)
  let limits ← pmmDetermineMemoryLimits memoryEntries
  let (mem, bitmap, sizeReserved) ← pmmInitializeAllocationBitmap mem baseAddress
    limits.highestPresentPhysicalAddress memoryEntries
  return (.success, some (⟨limits, mem, bitmap⟩,
    (alignAddressUpper (sizeReserved.setWidth 64) pageSize).setWidth 32))

namespace Int15MemoryMapEntry

/-- One past the last byte of the entry. -/
def limit (e : Int15MemoryMapEntry) : ℕ := e.baseAddress.toNat + e.length.toNat

/-- Memory the system may hand out: a valid entry of usable memory from 1 MB on. -/
def Usable (e : Int15MemoryMapEntry) : Prop :=
  e.isValid = true ∧ e.type = memoryMapTypeUsableRAM ∧ mbSize ≤ e.baseAddress

/-- A valid entry has one of the types of `MEMORY_MAP_TYPE`, or type 0. -/
def Known (e : Int15MemoryMapEntry) : Prop := e.isValid = true → e.type.toNat < memoryMapTypeMax

/-- A valid entry that is not usable memory. -/
def Other (e : Int15MemoryMapEntry) : Prop :=
  e.isValid = true ∧ e.type ≠ memoryMapTypeUsableRAM

/-- The first frame that is released: the base is rounded up. -/
def firstFrame (e : Int15MemoryMapEntry) : ℕ := (e.baseAddress.toNat + 4095) / 4096

/-- The number of frames released: the length is rounded down. -/
def noOfFrames (e : Int15MemoryMapEntry) : ℕ := e.length.toNat / 4096

/-- The whole frame lies inside the entry. -/
def Contains (e : Int15MemoryMapEntry) (i : ℕ) : Prop :=
  e.baseAddress.toNat ≤ frameAddress i ∧ frameAddress (i + 1) ≤ e.limit

/-- Some byte of the frame lies inside the entry. -/
def Meets (e : Int15MemoryMapEntry) (i : ℕ) : Prop :=
  ∃ a, frameAddress i ≤ a ∧ a < frameAddress (i + 1) ∧ e.baseAddress.toNat ≤ a ∧ a < e.limit

instance (e : Int15MemoryMapEntry) : Decidable e.Usable := by
  unfold Usable
  infer_instance

instance (e : Int15MemoryMapEntry) : Decidable e.Other := by
  unfold Other
  infer_instance

instance (e : Int15MemoryMapEntry) : Decidable e.Known := by
  unfold Known
  infer_instance

end Int15MemoryMapEntry

/-- The frame may be handed out: it is usable memory and nothing else. -/
def FrameUsable (memoryMap : List Int15MemoryMapEntry) (i : ℕ) : Prop :=
  (∃ e ∈ memoryMap, e.Usable ∧ e.Contains i) ∧ ∀ e ∈ memoryMap, e.Other → ¬ e.Meets i

/-- The system is set up without a failing assertion, and only usable frames are free. -/
def InitialisesUsable (mem : Memory) (baseAddress : QWORD) (memoryMap : List Int15MemoryMapEntry) :
    Prop :=
  ∃ d size, pmmInitSystem mem baseAddress memoryMap = .ok (.success, some (d, size)) ∧
    ∀ i, FreeRun d.mem d.allocationBitmap 1 i → FrameUsable memoryMap i

/-- What the array of the types and the rounding of the released ranges ask of the memory map. -/
structure RoundsInside (memoryMap : List Int15MemoryMapEntry) : Prop where
  known : ∀ e ∈ memoryMap, e.Known
  page : ∃ e ∈ memoryMap, 4096 ≤ e.limit
  fits : ∀ e ∈ memoryMap, e.Usable →
    ∃ e' ∈ memoryMap, frameAddress (e.firstFrame + max 1 e.noOfFrames) ≤ e'.limit
  last : ∀ e ∈ memoryMap, e.Usable → 0 < e.noOfFrames →
    ∃ e' ∈ memoryMap, e'.Usable ∧ e'.Contains (e.firstFrame + e.noOfFrames - 1)
  apart : ∀ e ∈ memoryMap, e.Usable → ∀ e' ∈ memoryMap, e'.Other →
    ∀ i, e.firstFrame ≤ i → i < e.firstFrame + e.noOfFrames → ¬ e'.Meets i

section Release

variable {mem mem' : Memory} {b : Bitmap} {e : Int15MemoryMapEntry}

private theorem pageSize_toNat_map : pageSize.toNat = 2 ^ 12 := rfl

/-- A range of frames can be released exactly if it ends inside the bitmap; releasing no frame asks
for the frame at the address to exist. -/
theorem pmmReleaseMemory_cases (mem : Memory) (hbuf : b.bitmapBuffer ≠ 0) {pa : QWORD} {n : DWORD}
    {i : ℕ} (hpa : pa.toNat = frameAddress i) (hn : n ≤ b.bitCount) :
    (i + max 1 n.toNat ≤ b.bitCount.toNat ∧ ∃ mem', pmmReleaseMemory mem b pa n = .ok mem' ∧
      ChangedBits mem mem' b.bitmapBuffer false i n.toNat) ∨
    ¬ i + max 1 n.toNat ≤ b.bitCount.toNat ∧ ∀ mem', pmmReleaseMemory mem b pa n ≠ .ok mem' := by
  have hcount := b.bitCount.isLt
  have hn : n.toNat ≤ b.bitCount.toNat := hn
  rw [frameAddress, pageSize_toNat_map] at hpa
  have hal : isAddressAligned pa pageSize = true := by
    rw [isAddressAligned_iff pageSize_toNat_map, hpa, pageSize_toNat_map]
    omega
  have hdiv : (pa / pageSize).toNat = i := by
    rw [BitVec.toNat_udiv, hpa, pageSize_toNat_map]
    omega
  have hmax : pa / pageSize ≤ maxDword.setWidth 64 ↔ i ≤ 2 ^ 32 - 1 := by
    rw [BitVec.le_def, hdiv]
    rfl
  have hsub : (b.bitCount - n).toNat = b.bitCount.toNat - n.toNat :=
    BitVec.toNat_sub_of_le hn
  simp only [pmmReleaseMemory, bitmapSetBitsValue, assertThat_of hal, bind, Except.bind]
  by_cases hi : i ≤ 2 ^ 32 - 1
  · have hidx : ((pa / pageSize).setWidth 32 : DWORD).toNat = i := by
      rw [BitVec.toNat_setWidth, hdiv]
      lia
    rw [assertThat_of (hmax.mpr hi)]
    by_cases hlow : i < b.bitCount.toNat
    · have hlt : ((pa / pageSize).setWidth 32 : DWORD) < b.bitCount := by
        rw [BitVec.lt_def, hidx]
        exact hlow
      simp only [assertThat_of hlt]
      by_cases hhigh : i + n.toNat ≤ b.bitCount.toNat
      · have hle : ((pa / pageSize).setWidth 32 : DWORD) ≤ b.bitCount - n := by
          rw [BitVec.le_def, hidx, hsub]
          lia
        obtain ⟨mem', hmem, hbits⟩ := bitmapChangeBits_spec mem false hbuf
          ((pa / pageSize).setWidth 32) n.toNat (by omega)
        rw [hidx] at hbits
        simp only [assertThat_of hle, hmem]
        exact Or.inl ⟨by lia, mem', rfl, hbits⟩
      · have hle : ¬ ((pa / pageSize).setWidth 32 : DWORD) ≤ b.bitCount - n := by
          rw [BitVec.le_def, hidx, hsub]
          lia
        simp only [assertThat_of_not hle]
        exact Or.inr ⟨by lia, fun _ => by rintro ⟨⟩⟩
    · have hlt : ¬ ((pa / pageSize).setWidth 32 : DWORD) < b.bitCount := by
        rw [BitVec.lt_def, hidx]
        exact hlow
      simp only [assertThat_of_not hlt]
      exact Or.inr ⟨by lia, fun _ => by rintro ⟨⟩⟩
  · rw [assertThat_of_not (mt hmax.mp hi)]
    exact Or.inr ⟨by lia, fun _ => by rintro ⟨⟩⟩

private theorem releaseEntry_skip (h : ¬ e.Usable) : releaseEntry b mem e = .ok mem := by
  unfold releaseEntry
  by_cases hv : e.isValid = true
  · by_cases ht : memoryMapTypeUsableRAM = e.type
    · have hb : e.baseAddress < mbSize := by
        rw [← BitVec.not_le]
        exact fun hle => h ⟨hv, ht.symm, hle⟩
      simp only [hv, ht, hb, Bool.not_true, ne_eq, not_true, Bool.false_eq_true, if_false, if_true]
      rfl
    · simp only [hv, ht, Bool.not_true, ne_eq, not_false_eq_true, Bool.false_eq_true, if_false,
        if_true]
      rfl
  · simp only [hv, Bool.not_false, if_true]
    rfl

/-- A usable entry releases the frames between its rounded ends. -/
private theorem releaseEntry_usable (hu : e.Usable) (hlim : e.limit < 2 ^ 44) :
    ∃ (pa : QWORD) (n : DWORD), pa.toNat = frameAddress e.firstFrame ∧ n.toNat = e.noOfFrames ∧
      ∀ mem, releaseEntry b mem e = pmmReleaseMemory mem b pa n := by
  obtain ⟨hv, ht, hb⟩ := hu
  unfold Int15MemoryMapEntry.limit at hlim
  have hpad := alignPadding_lt e.baseAddress.toNat (show 0 < 4096 by norm_num)
  have hdvd := dvd_add_alignPadding e.baseAddress.toNat (show 0 < 4096 by norm_num)
  have hdiv : (e.length / pageSize).toNat = e.noOfFrames := by
    rw [BitVec.toNat_udiv]
    rfl
  have hsmall : e.noOfFrames ≤ 2 ^ 32 - 1 := by
    unfold Int15MemoryMapEntry.noOfFrames
    lia
  refine ⟨alignAddressUpper e.baseAddress pageSize, (e.length / pageSize).setWidth 32, ?_, ?_,
    fun mem => ?_⟩
  · rw [alignAddressUpper_toNat pageSize_toNat_map, frameAddress, pageSize_toNat_map,
      Int15MemoryMapEntry.firstFrame]
    have h12 : (2 : ℕ) ^ 12 = 4096 := by norm_num
    rw [h12]
    omega
  · rw [BitVec.toNat_setWidth, hdiv]
    omega
  · have hmax : e.length / pageSize ≤ maxDword.setWidth 64 := by
      rw [BitVec.le_def, hdiv]
      exact hsmall
    unfold releaseEntry
    rw [if_neg (by simp [hv]), if_neg (by simp [ht]), if_neg (by rwa [BitVec.not_lt])]
    simp only [assertThat_of hmax, bind, Except.bind]

/-- The released range of the entry lies inside the bitmap. -/
private def Fits (b : Bitmap) (e : Int15MemoryMapEntry) : Prop :=
  e.firstFrame + max 1 e.noOfFrames ≤ b.bitCount.toNat

/-- A frame that a usable entry of the map releases. -/
private def Released (memoryMap : List Int15MemoryMapEntry) (i : ℕ) : Prop :=
  ∃ e ∈ memoryMap, e.Usable ∧ e.firstFrame ≤ i ∧ i < e.firstFrame + e.noOfFrames

private theorem released_cons (e : Int15MemoryMapEntry) (map : List Int15MemoryMapEntry) (i : ℕ) :
    Released (e :: map) i ↔
      (e.Usable ∧ e.firstFrame ≤ i ∧ i < e.firstFrame + e.noOfFrames) ∨ Released map i := by
  unfold Released
  constructor
  · intro h
    obtain ⟨e', he', hr⟩ := h
    rcases List.mem_cons.mp he' with rfl | he'
    · exact Or.inl hr
    · exact Or.inr ⟨e', he', hr⟩
  · intro h
    rcases h with hr | ⟨e', he', hr⟩
    · exact ⟨e, List.mem_cons_self, hr⟩
    · exact ⟨e', List.mem_cons_of_mem e he', hr⟩

/-- One turn of the loop: it goes through if the range fits, and frees exactly the range. -/
private theorem releaseEntry_cases (mem : Memory) (hbuf : b.bitmapBuffer ≠ 0)
    (hlim : e.limit < 2 ^ 44) (hn : e.noOfFrames ≤ b.bitCount.toNat) :
    ((e.Usable → Fits b e) ∧ ∃ mem', releaseEntry b mem e = .ok mem' ∧
      ∀ i < b.bitCount.toNat, bitAt mem' b.bitmapBuffer i = false ↔
        bitAt mem b.bitmapBuffer i = false ∨
          (e.Usable ∧ e.firstFrame ≤ i ∧ i < e.firstFrame + e.noOfFrames)) ∨
    ¬ (e.Usable → Fits b e) ∧ ∀ mem', releaseEntry b mem e ≠ .ok mem' := by
  have hcount := b.bitCount.isLt
  by_cases hu : e.Usable
  · obtain ⟨pa, n, hpa, hnn, heq⟩ := releaseEntry_usable (b := b) hu hlim
    rw [heq mem, Fits, ← hnn]
    rcases pmmReleaseMemory_cases mem hbuf hpa (show n.toNat ≤ _ by omega) with
      ⟨hfits, mem', hmem, hbits⟩ | ⟨hnot, hall⟩
    · refine Or.inl ⟨fun _ => hfits, mem', hmem, fun i hi => ?_⟩
      have hcov := @covers_iff b.bitmapBuffer e.firstFrame n.toNat i
        (by omega) (by omega)
      obtain ⟨hin, hout⟩ := hbits (byteAddress b.bitmapBuffer (BitVec.ofNat 32 i)) (i % 8)
        (Nat.mod_lt i (by norm_num))
      rw [hcov] at hin hout
      by_cases hc : e.firstFrame ≤ i ∧ i < e.firstFrame + n.toNat
      · exact iff_of_true (hin hc) (Or.inr ⟨hu, hc⟩)
      · rw [bitAt, hout hc, ← bitAt]
        exact ⟨Or.inl, fun h => h.resolve_right fun h => hc h.2⟩
    · exact Or.inr ⟨fun h => hnot (h hu), hall⟩
  · refine Or.inl ⟨fun h => absurd h hu, mem, releaseEntry_skip hu, fun i _ => ?_⟩
    exact ⟨Or.inl, fun h => h.resolve_right fun h => hu h.1⟩

/-- The loop ends exactly if every released range fits; then the frames of these are free too. -/
private theorem releaseLoop_cases (map : List Int15MemoryMapEntry) (mem : Memory)
    (hbuf : b.bitmapBuffer ≠ 0) (hlim : ∀ e ∈ map, e.limit < 2 ^ 44)
    (hn : ∀ e ∈ map, e.noOfFrames ≤ b.bitCount.toNat) :
    ((∀ e ∈ map, e.Usable → Fits b e) ∧ ∃ mem', map.foldlM (releaseEntry b) mem = .ok mem' ∧
      ∀ i < b.bitCount.toNat, bitAt mem' b.bitmapBuffer i = false ↔
        bitAt mem b.bitmapBuffer i = false ∨ Released map i) ∨
    ¬ (∀ e ∈ map, e.Usable → Fits b e) ∧ ∀ mem', map.foldlM (releaseEntry b) mem ≠ .ok mem' := by
  induction map generalizing mem with
  | nil =>
    refine Or.inl ⟨fun e he => absurd he (List.not_mem_nil), mem, rfl, fun i _ => ?_⟩
    exact ⟨Or.inl, fun h => h.resolve_right fun h => by
      obtain ⟨e, he, -⟩ := h
      exact absurd he (List.not_mem_nil)⟩
  | cons e map ih =>
    rw [List.foldlM_cons]
    have hhead := releaseEntry_cases mem hbuf (hlim e List.mem_cons_self) (hn e List.mem_cons_self)
    rcases hhead with ⟨hfits, mem₁, h₁, hbits₁⟩ | ⟨hnot, hall⟩
    · rw [h₁]
      have hrest := ih mem₁ (fun e' he' => hlim e' (List.mem_cons_of_mem e he'))
        (fun e' he' => hn e' (List.mem_cons_of_mem e he'))
      rcases hrest with ⟨hfits', mem', h', hbits'⟩ | ⟨hnot', hall'⟩
      · refine Or.inl ⟨List.forall_mem_cons.mpr ⟨hfits, hfits'⟩, mem', h', fun i hi => ?_⟩
        rw [hbits' i hi, hbits₁ i hi, released_cons, or_assoc]
      · exact Or.inr ⟨fun h => hnot' (List.forall_mem_cons.mp h).2, hall'⟩
    · refine Or.inr ⟨fun h => hnot (List.forall_mem_cons.mp h).1, fun mem' h' => ?_⟩
      obtain ⟨mem₁, h₁, -⟩ := bind_eq_ok.mp h'
      exact hall mem₁ h₁

/-- One turn of the loop over the map: it goes through if the type is an index of the array. -/
theorem determineMemoryLimitsStep_cases (l : MemoryLimits) (he : e.limit < 2 ^ 44) :
    (e.Known ∧ ∃ l', determineMemoryLimitsStep l e = .ok l' ∧
      l'.highestPresentPhysicalAddress.toNat = max l.highestPresentPhysicalAddress.toNat e.limit) ∨
    ¬ e.Known ∧ ∀ l', determineMemoryLimitsStep l e ≠ .ok l' := by
  have hsum : (e.baseAddress + e.length).toNat = e.limit := by
    rw [BitVec.toNat_add, Int15MemoryMapEntry.limit]
    unfold Int15MemoryMapEntry.limit at he
    lia
  have hpresent : (if l.highestPresentPhysicalAddress < e.baseAddress + e.length
      then e.baseAddress + e.length else l.highestPresentPhysicalAddress).toNat =
        max l.highestPresentPhysicalAddress.toNat e.limit := by
    split_ifs with hlt
    · rw [BitVec.lt_def, hsum] at hlt
      omega
    · rw [BitVec.lt_def, hsum] at hlt
      omega
  unfold determineMemoryLimitsStep
  by_cases hv : e.isValid = true
  · rw [if_neg (by simp [hv])]
    unfold countRegion
    by_cases ht : e.type.toNat < memoryMapTypeMax
    · rw [dif_pos ht]
      by_cases hram : memoryMapTypeUsableRAM ≠ e.type
      · simp only [bind, Except.bind, if_pos hram]
        exact Or.inl ⟨fun _ => ht, _, rfl, hpresent⟩
      · simp only [bind, Except.bind, if_neg hram]
        exact Or.inl ⟨fun _ => ht, _, rfl, hpresent⟩
    · rw [dif_neg ht]
      exact Or.inr ⟨fun h => ht (h hv), fun _ => by rintro ⟨⟩⟩
  · rw [if_pos (by simp [hv])]
    exact Or.inl ⟨fun h => absurd h hv, _, rfl, hpresent⟩

/-- The loop ends if every valid entry has a type of the array; then it has found the highest address
in the map, valid or not. -/
theorem determineMemoryLimits_cases (map : List Int15MemoryMapEntry) (l : MemoryLimits)
    (hlim : ∀ e ∈ map, e.limit < 2 ^ 44) :
    ((∀ e ∈ map, e.Known) ∧ ∃ l', map.foldlM determineMemoryLimitsStep l = .ok l' ∧
      ∀ k, k ≤ l'.highestPresentPhysicalAddress.toNat ↔
        k ≤ l.highestPresentPhysicalAddress.toNat ∨ ∃ e ∈ map, k ≤ e.limit) ∨
    ¬ (∀ e ∈ map, e.Known) ∧ ∀ l', map.foldlM determineMemoryLimitsStep l ≠ .ok l' := by
  induction map generalizing l with
  | nil => exact Or.inl ⟨by simp, l, rfl, by simp⟩
  | cons e map ih =>
    rw [List.foldlM_cons]
    rcases determineMemoryLimitsStep_cases l (hlim e List.mem_cons_self) with
      ⟨hknown, l₁, h₁, hmax⟩ | ⟨hnot, hall⟩
    · rw [h₁]
      rcases ih l₁ (fun e' he' => hlim e' (List.mem_cons_of_mem e he')) with
        ⟨hknown', l', h', hle⟩ | ⟨hnot', hall'⟩
      · refine Or.inl ⟨List.forall_mem_cons.mpr ⟨hknown, hknown'⟩, l', h', fun k => ?_⟩
        rw [hle k, hmax]
        simp only [List.mem_cons, exists_eq_or_imp, le_max_iff]
        rw [or_assoc]
      · exact Or.inr ⟨fun h => hnot' (List.forall_mem_cons.mp h).2, hall'⟩
    · refine Or.inr ⟨fun h => hnot (List.forall_mem_cons.mp h).1, fun l' h' => ?_⟩
      obtain ⟨l₁, h₁, -⟩ := bind_eq_ok.mp h'
      exact hall l₁ h₁

theorem le_highestPresent {map : List Int15MemoryMapEntry} {l : MemoryLimits}
    (hlim : ∀ e ∈ map, e.limit < 2 ^ 44) (h : pmmDetermineMemoryLimits map = .ok l) (k : ℕ) :
    k ≤ l.highestPresentPhysicalAddress.toNat ↔ k = 0 ∨ ∃ e ∈ map, k ≤ e.limit := by
  obtain ⟨_, -, h⟩ := bind_eq_ok.mp h
  rcases determineMemoryLimits_cases map ⟨0, 0, 0, fun _ => 0⟩ hlim with ⟨-, l', hl', hle⟩ | ⟨-, hall⟩
  · obtain rfl := Except.ok.inj (hl'.symm.trans h)
    rw [hle k]
    exact or_congr_left Nat.le_zero
  · exact absurd h (hall l)

/-- Reserving all frames of a clear bitmap sets every bit. -/
private theorem reserveAll (hbuf : b.bitmapBuffer ≠ 0) (hcount : b.bitCount ≠ 0)
    (hclear : ∀ i < b.bitCount.toNat, bitAt mem b.bitmapBuffer i = false) :
    ∃ pa mem', pmmReserveMemoryEx mem b b.bitCount 0 = .ok (pa, mem') ∧
      ∀ i < b.bitCount.toNat, bitAt mem' b.bitmapBuffer i = true := by
  have hlt := b.bitCount.isLt
  have hzero : (0 : QWORD) / pageSize = 0 := by decide
  have hidx : ((0 : QWORD).setWidth 32 : DWORD) = 0 := by decide
  have hmax : ¬ (maxDword.setWidth 64 : QWORD) < 0 := by decide
  have hal : isAddressAligned 0 pageSize = true := by decide
  have hrun : BitRun mem b.bitmapBuffer false b.bitCount.toNat b.bitCount.toNat 0 := by
    refine ⟨by omega, fun k hk => ?_⟩
    rw [Nat.zero_add]
    exact hclear k hk
  obtain ⟨r, mem', hscan, hspec⟩ := bitmapScanFromAndFlip_spec mem false hbuf 0 hcount
  rcases hspec with ⟨-, -, hnone⟩ | ⟨hne, hleast, hbits⟩
  · exact absurd hrun (hnone 0 (Nat.zero_le _))
  · have hr : r.toNat = 0 := Nat.le_zero.mp (hleast.2 ⟨Nat.zero_le _, hrun⟩)
    refine ⟨r.setWidth 64 * pageSize, mem', ?_, fun i hi => ?_⟩
    · unfold pmmReserveMemoryEx
      rw [if_neg hcount]
      simp only [hal, Bool.not_true, Bool.false_eq_true, if_false, hzero, hidx, if_neg hmax, hscan,
        bind, Except.bind, if_neg hne]
      rfl
    · have hcov := @covers_iff b.bitmapBuffer 0 b.bitCount.toNat i
        (by omega) (by omega)
      rw [hr] at hbits
      exact (hbits (byteAddress b.bitmapBuffer (BitVec.ofNat 32 i)) (i % 8)
        (Nat.mod_lt i (by norm_num))).1 (hcov.mpr ⟨Nat.zero_le i, by omega⟩)

end Release

section Init

variable {mem : Memory} {baseAddress : QWORD} {map : List Int15MemoryMapEntry}

/-- Setting up the bitmap for a map whose highest address is `h`. -/
private theorem initializeAllocationBitmap_cases (mem : Memory) (hbase : baseAddress ≠ 0)
    {highest : QWORD} (hhigh : highest.toNat < 2 ^ 44) (hlim : ∀ e ∈ map, e.limit ≤ highest.toNat) :
    (4096 ≤ highest.toNat ∧
      (∀ e ∈ map, e.Usable → frameAddress (e.firstFrame + max 1 e.noOfFrames) ≤ highest.toNat) ∧
      ∃ mem' b, pmmInitializeAllocationBitmap mem baseAddress highest map =
          .ok (mem', b, b.bufferSize) ∧
        ∀ i, FreeRun mem' b 1 i ↔ Released map i) ∨
    ¬ (4096 ≤ highest.toNat ∧
      ∀ e ∈ map, e.Usable → frameAddress (e.firstFrame + max 1 e.noOfFrames) ≤ highest.toNat) ∧
      ∀ r, pmmInitializeAllocationBitmap mem baseAddress highest map ≠ .ok r := by
  have hdiv : (highest / pageSize).toNat = highest.toNat / 4096 := by
    rw [BitVec.toNat_udiv]
    rfl
  have hcount : ((highest / pageSize).setWidth 32 : DWORD).toNat = highest.toNat / 4096 := by
    rw [BitVec.toNat_setWidth, hdiv]
    lia
  by_cases hpage : 4096 ≤ highest.toNat
  · have hne : (highest / pageSize).setWidth 32 ≠ (0 : DWORD) := by
      intro h0
      rw [h0] at hcount
      have h0 : (0 : DWORD).toNat = 0 := rfl
      omega
    have hzero : highest ≠ 0 := by
      intro h0
      rw [h0] at hpage
      exact absurd hpage (by decide)
    have hmax : highest / pageSize ≤ maxDword.setWidth 64 := by
      rw [BitVec.le_def, hdiv]
      show _ ≤ 2 ^ 32 - 1
      omega
    obtain ⟨pre, hpre⟩ : ∃ pre, bitmapPreinit ((highest / pageSize).setWidth 32) = .ok pre := by
      simp only [bitmapPreinit, assertThat_of hne, bind, Except.bind]
      exact ⟨_, rfl⟩
    obtain ⟨-, hbits, -⟩ := bitmapPreinit_spec hpre
    let b : Bitmap := { pre with bitmapBuffer := baseAddress }
    have hbcount : b.bitCount.toNat = highest.toNat / 4096 := by
      rw [← hcount, ← hbits]
    have hclear : ∀ i < b.bitCount.toNat, bitAt (memset mem baseAddress 0
        (pre.bufferSize.setWidth 64)) b.bitmapBuffer i = false := by
      intro i hi
      exact bitAt_memset baseAddress hpre (by omega)
    obtain ⟨pa, mem₁, hres, hset⟩ := reserveAll (b := b) hbase (by rwa [← hbits] at hne) hclear
    have hloop := releaseLoop_cases map mem₁ (b := b) hbase
      (fun e he => Nat.lt_of_le_of_lt (hlim e he) hhigh) (fun e he => by
        have := hlim e he
        rw [hbcount, Int15MemoryMapEntry.noOfFrames]
        unfold Int15MemoryMapEntry.limit at this
        lia)
    have hfit : ∀ e, Fits b e ↔
        frameAddress (e.firstFrame + max 1 e.noOfFrames) ≤ highest.toNat := by
      intro e
      rw [Fits, hbcount, frameAddress, show pageSize.toNat = 4096 from rfl]
      lia
    have hinit : pmmInitializeAllocationBitmap mem baseAddress highest map =
        (map.foldlM (releaseEntry b) mem₁).bind fun mem' => .ok (mem', b, b.bufferSize) := by
      simp only [pmmInitializeAllocationBitmap, assertThat_of hbase, assertThat_of hzero,
        assertThat_of hmax, hpre, bitmapInitEx, bind, Except.bind, pure, Except.pure,
        Bool.false_eq_true, if_false]
      simp only [b] at hres
      simp only [hres, b]
    rw [hinit]
    simp only [hfit] at hloop
    rcases hloop with ⟨hfits, mem', hmem, hfree⟩ | ⟨hnot, hall⟩
    · refine Or.inl ⟨hpage, hfits, mem', b, by rw [hmem]; rfl, fun i => ?_⟩
      constructor
      · intro hrun
        have hi : i < b.bitCount.toNat := hrun.1
        have hbit := hrun.2 0 (by norm_num)
        rw [Nat.add_zero, hfree i hi, hset i hi] at hbit
        exact hbit.resolve_left (by rintro ⟨⟩)
      · intro hrel
        obtain ⟨e, he, hu, hlo, hhi⟩ := hrel
        have hi : i < b.bitCount.toNat := by
          have := (hfit e).mpr (hfits e he hu)
          unfold Fits at this
          lia
        refine ⟨hi, fun k hk => ?_⟩
        obtain rfl := Nat.lt_one_iff.mp hk
        rw [Nat.add_zero, hfree i hi]
        exact Or.inr ⟨e, he, hu, hlo, hhi⟩
    · refine Or.inr ⟨fun h => hnot h.2, fun r hr => ?_⟩
      obtain ⟨mem', hmem, -⟩ := bind_eq_ok.mp hr
      exact hall mem' hmem
  · have hz : (highest / pageSize).setWidth 32 = (0 : DWORD) := by
      apply BitVec.eq_of_toNat_eq
      rw [hcount]
      show _ = 0
      lia
    refine Or.inr ⟨fun h => hpage h.1, fun r hr => ?_⟩
    unfold pmmInitializeAllocationBitmap at hr
    obtain ⟨-, -, hr⟩ := bind_eq_ok.mp hr
    obtain ⟨-, -, hr⟩ := bind_eq_ok.mp hr
    obtain ⟨-, -, hr⟩ := bind_eq_ok.mp hr
    obtain ⟨pre, hpre, -⟩ := bind_eq_ok.mp hr
    rw [hz] at hpre
    exact absurd hpre (by rintro ⟨⟩)

/-- The system is set up if the types are known and the ranges fit, and then exactly the released
frames are free. -/
private theorem pmmInitSystem_cases (mem : Memory) (hbase : baseAddress ≠ 0) (hne : map ≠ [])
    (hlim : ∀ e ∈ map, e.limit < 2 ^ 44) :
    ((∀ e ∈ map, e.Known) ∧ (∃ e ∈ map, 4096 ≤ e.limit) ∧
      (∀ e ∈ map, e.Usable →
        ∃ e' ∈ map, frameAddress (e.firstFrame + max 1 e.noOfFrames) ≤ e'.limit) ∧
      ∃ d size, pmmInitSystem mem baseAddress map = .ok (.success, some (d, size)) ∧
        ∀ i, FreeRun d.mem d.allocationBitmap 1 i ↔ Released map i) ∨
    ¬ ((∀ e ∈ map, e.Known) ∧ (∃ e ∈ map, 4096 ≤ e.limit) ∧
      ∀ e ∈ map, e.Usable →
        ∃ e' ∈ map, frameAddress (e.firstFrame + max 1 e.noOfFrames) ≤ e'.limit) ∧
      ∀ r, pmmInitSystem mem baseAddress map ≠ .ok r := by
  have hlimits : pmmDetermineMemoryLimits map =
      map.foldlM determineMemoryLimitsStep ⟨0, 0, 0, fun _ => 0⟩ := by
    rw [pmmDetermineMemoryLimits, assertThat_of hne]
    rfl
  rcases determineMemoryLimits_cases map ⟨0, 0, 0, fun _ => 0⟩ hlim with
    ⟨hknown, l, hloop, hle⟩ | ⟨hnot, hall⟩
  swap
  · refine Or.inr ⟨fun h => hnot h.1, fun r hr => ?_⟩
    simp only [pmmInitSystem, if_neg hbase, if_neg hne, hlimits] at hr
    obtain ⟨l, hl, -⟩ := bind_eq_ok.mp hr
    exact hall l hl
  have hpos : ∀ k, 0 < k →
      (k ≤ l.highestPresentPhysicalAddress.toNat ↔ ∃ e ∈ map, k ≤ e.limit) := by
    intro k hk
    rw [hle k]
    exact ⟨fun h => h.resolve_left (Nat.not_le_of_lt hk), Or.inr⟩
  have hhigh : l.highestPresentPhysicalAddress.toNat < 2 ^ 44 := by
    by_contra hge
    obtain ⟨e, he, hk⟩ := (hpos (2 ^ 44) (by norm_num)).mp (by omega)
    have := hlim e he
    omega
  have hrange : ∀ e : Int15MemoryMapEntry,
      0 < frameAddress (e.firstFrame + max 1 e.noOfFrames) := by
    intro e
    rw [frameAddress, show pageSize.toNat = 4096 from rfl]
    omega
  have hinit : pmmInitSystem mem baseAddress map =
      (pmmInitializeAllocationBitmap mem baseAddress l.highestPresentPhysicalAddress map).bind
        fun r => .ok (.success, some (⟨l, r.1, r.2.1⟩,
          (alignAddressUpper (r.2.2.setWidth 64) pageSize).setWidth 32)) := by
    simp only [pmmInitSystem, if_neg hbase, if_neg hne, hlimits, hloop]
    rfl
  have hcases := @initializeAllocationBitmap_cases _ map mem hbase _ hhigh
    (fun e he => (hle e.limit).mpr (Or.inr ⟨e, he, Nat.le_refl _⟩))
  simp only [hpos _ (hrange _), hpos 4096 (by norm_num)] at hcases
  rw [hinit]
  rcases hcases with ⟨hpage, hfits, mem', b, hmem, hfree⟩ | ⟨hnot, hall⟩
  · refine Or.inl ⟨hknown, hpage, hfits, ⟨l, mem', b⟩,
      (alignAddressUpper (b.bufferSize.setWidth 64) pageSize).setWidth 32, ?_, hfree⟩
    rw [hmem]
    rfl
  · refine Or.inr ⟨fun h => hnot h.2, fun r hr => ?_⟩
    obtain ⟨r', hr', -⟩ := bind_eq_ok.mp hr
    exact hall r' hr'

/-- The allocator has as many frames as there are below the highest address present. -/
theorem pmmInitSystem_limits {d : PmmData} {size : DWORD}
    (h : pmmInitSystem mem baseAddress map = .ok (.success, some (d, size))) :
    pmmDetermineMemoryLimits map = .ok d.limits ∧ d.allocationBitmap.bitmapBuffer ≠ 0 ∧
      d.allocationBitmap.bitCount.toNat =
        d.limits.highestPresentPhysicalAddress.toNat / 4096 := by
  unfold pmmInitSystem at h
  split_ifs at h with hbase hmap
  · cases h
  · cases h
  obtain ⟨limits, hlimits, h⟩ := bind_eq_ok.mp h
  obtain ⟨⟨mem', b, n⟩, hbitmap, h⟩ := bind_eq_ok.mp h
  cases h
  obtain ⟨_, -, hbitmap⟩ := bind_eq_ok.mp hbitmap
  obtain ⟨_, -, hbitmap⟩ := bind_eq_ok.mp hbitmap
  obtain ⟨_, hmax, hbitmap⟩ := bind_eq_ok.mp hbitmap
  obtain ⟨pre, hpre, hbitmap⟩ := bind_eq_ok.mp hbitmap
  obtain ⟨⟨mem₁, b₁⟩, hinit, hbitmap⟩ := bind_eq_ok.mp hbitmap
  obtain ⟨_, -, hbitmap⟩ := bind_eq_ok.mp hbitmap
  obtain ⟨_, -, hbitmap⟩ := bind_eq_ok.mp hbitmap
  cases hbitmap
  obtain ⟨_, hbuf, hinit⟩ := bind_eq_ok.mp hinit
  cases hinit
  obtain ⟨-, hcount, -⟩ := bitmapPreinit_spec hpre
  have hmax : (limits.highestPresentPhysicalAddress / pageSize).toNat ≤ 2 ^ 32 - 1 :=
    assertThat_eq_ok.mp hmax
  refine ⟨hlimits, assertThat_eq_ok.mp hbuf, ?_⟩
  show pre.bitCount.toNat = limits.highestPresentPhysicalAddress.toNat / 4096
  rw [BitVec.toNat_udiv, show pageSize.toNat = 4096 from rfl] at hmax
  rw [hcount, BitVec.toNat_setWidth, BitVec.toNat_udiv, show pageSize.toNat = 4096 from rfl]
  lia

/-- The frames that are free at first. -/
theorem pmmInitSystem_free (mem : Memory) (hbase : baseAddress ≠ 0) (hne : map ≠ [])
    (hlim : ∀ e ∈ map, e.limit < 2 ^ 44) (hknown : ∀ e ∈ map, e.Known)
    (hpage : ∃ e ∈ map, 4096 ≤ e.limit)
    (hfits : ∀ e ∈ map, e.Usable →
      ∃ e' ∈ map, frameAddress (e.firstFrame + max 1 e.noOfFrames) ≤ e'.limit) :
    ∃ d size, pmmInitSystem mem baseAddress map = .ok (.success, some (d, size)) ∧
      ∀ i, FreeRun d.mem d.allocationBitmap 1 i ↔
        ∃ e ∈ map, e.Usable ∧ e.firstFrame ≤ i ∧ i < e.firstFrame + e.noOfFrames := by
  rcases pmmInitSystem_cases mem hbase hne hlim with ⟨-, -, -, h⟩ | ⟨hnot, -⟩
  · exact h
  · exact absurd ⟨hknown, hpage, hfits⟩ hnot

/-- Only the last frame of a released range can reach beyond the entry. -/
private theorem contains_of_not_last {e : Int15MemoryMapEntry} {i : ℕ} (hlo : e.firstFrame ≤ i)
    (hhi : i + 1 < e.firstFrame + e.noOfFrames) : e.Contains i := by
  unfold Int15MemoryMapEntry.firstFrame Int15MemoryMapEntry.noOfFrames at *
  unfold Int15MemoryMapEntry.Contains Int15MemoryMapEntry.limit
  rw [frameAddress, frameAddress, show pageSize.toNat = 4096 from rfl]
  lia

private theorem roundsInside_of_initialises (hbase : baseAddress ≠ 0) (hne : map ≠ [])
    (hlim : ∀ e ∈ map, e.limit < 2 ^ 44) (h : InitialisesUsable mem baseAddress map) :
    RoundsInside map := by
  obtain ⟨d, size, hinit, hsafe⟩ := h
  rcases pmmInitSystem_cases mem hbase hne hlim with
    ⟨hknown, hpage, hfits, d', size', hinit', hfree⟩ | ⟨-, hall⟩
  · rw [hinit] at hinit'
    cases hinit'
    constructor
    · exact hknown
    · exact hpage
    · exact hfits
    · intro e he hu hpos
      exact (hsafe _ ((hfree _).mpr ⟨e, he, hu, by omega, by omega⟩)).1
    · intro e he hu e' he' ho i hlo hhi
      exact (hsafe i ((hfree i).mpr ⟨e, he, hu, hlo, hhi⟩)).2 e' he' ho
  · exact absurd hinit (hall _)

/-- Setting up the allocator works out, and frees usable frames only, exactly if the types are known and
the rounded ranges of the memory map stay inside it. -/
theorem initialisesUsable_iff (mem : Memory) (baseAddress : QWORD) (hbase : baseAddress ≠ 0)
    (memoryMap : List Int15MemoryMapEntry) (hne : memoryMap ≠ [])
    (hlim : ∀ e ∈ memoryMap, e.limit < 2 ^ 44) :
    InitialisesUsable mem baseAddress memoryMap ↔ RoundsInside memoryMap := by
  constructor
  · exact roundsInside_of_initialises hbase hne hlim
  · intro hr
    rcases pmmInitSystem_cases mem hbase hne hlim with ⟨-, -, -, d, size, hinit, hfree⟩ | ⟨hnot, -⟩
    · refine ⟨d, size, hinit, fun i hi => ?_⟩
      obtain ⟨e, he, hu, hlo, hhi⟩ := (hfree i).mp hi
      refine ⟨?_, fun e' he' ho => hr.apart e he hu e' he' ho i hlo hhi⟩
      by_cases hlast : i + 1 < e.firstFrame + e.noOfFrames
      · exact ⟨e, he, hu, contains_of_not_last hlo hlast⟩
      · have heq : i = e.firstFrame + e.noOfFrames - 1 := by omega
        rw [heq]
        exact hr.last e he hu (by omega)
    · exact absurd ⟨hr.known, hr.page, hr.fits⟩ hnot

/-- A page of usable memory that does not start at a page, and a reserved page. -/
def unalignedMap : List Int15MemoryMapEntry :=
  [⟨0x100800, 0x1000, memoryMapTypeUsableRAM, 1⟩, ⟨0x200000, 0x1000, 2, 1⟩]

/-- Frame `0x101` becomes free, and its second half is outside the usable entry. -/
theorem initialisesUsable_unalignedMap :
    (∀ e ∈ unalignedMap, e.limit < 2 ^ 44) ∧ ¬ InitialisesUsable (fun _ => 0) 0x1000 unalignedMap := by
  have hlim : ∀ e ∈ unalignedMap, e.limit < 2 ^ 44 := by decide
  refine ⟨hlim, fun h => ?_⟩
  have hr := roundsInside_of_initialises (by decide) (by decide) hlim h
  have hlast := hr.last ⟨0x100800, 0x1000, memoryMapTypeUsableRAM, 1⟩ List.mem_cons_self
    (by decide) (by decide)
  revert hlast
  unfold Int15MemoryMapEntry.Contains
  decide

/-- A page of usable memory at 1 MB. -/
def alignedMap : List Int15MemoryMapEntry := [⟨0x100000, 0x1000, memoryMapTypeUsableRAM, 1⟩]

private theorem roundsInside_alignedMap : RoundsInside alignedMap := by
  constructor
  · decide
  · decide
  · decide
  · unfold Int15MemoryMapEntry.Contains
    decide
  · intro e _ _ e' he' ho
    rw [List.mem_singleton.mp he'] at ho
    exact absurd ho (by decide)

theorem initialisesUsable_alignedMap : InitialisesUsable (fun _ => 0) 0x1000 alignedMap :=
  (initialisesUsable_iff (fun _ => 0) 0x1000 (by decide) alignedMap (by decide) (by decide)).mpr
    roundsInside_alignedMap

end Init

end HAL9000.Pmm
