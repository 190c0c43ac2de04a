import HAL9000.Mmu.MemoryMap
import HAL9000.Mmu.UserBuffer
import HAL9000.Mmu.ZeroWorker

/-! What the zero worker does with a range of frames: `MmuMapMemoryEx` in `mmu.c`, `VmmMapMemoryEx` in
`vmm.c` and the body of the loop in `_MmuZeroWorkerThreadFunction`. -/
namespace HAL9000.Paging

open RadixTree Vmm Pmm Mmu

/-- Every mapping gets new addresses; 0 is returned for ranges that are not made of pages. -/
def vmmMapMemoryEx (vmmData : VmmData) (s : RegionState) (physicalAddress size : QWORD)
    (pageRights : DWORD) (invalidate uncacheable : Bool) : Except Fault (QWORD × RegionState) := do
  if isAddressAligned physicalAddress pageSize = false then return (0, s)
  if size = 0 ∨ isAddressAligned size pageSize = false then return (0, s)
  let (vaSpace, pVirtualAddress) := vmReservationSpaceDetermineNextFreeVirtualAddress s.vaSpace size
  assertThat (isAddressAligned pVirtualAddress pageSize = true)
  let (mem, pagingData) ← vmmMapMemoryInternal vmmData s.mem s.pagingData physicalAddress size
    pVirtualAddress pageRights invalidate uncacheable
  return (pVirtualAddress, { s with mem := mem, pagingData := pagingData, vaSpace := vaSpace })

/-- The paging data is the kernel's. -/
def mmuMapMemoryEx (vmmData : VmmData) (pmmData : PmmData) (s : RegionState)
    (physicalAddress size : QWORD) (pageRights : DWORD) (invalidate uncacheable : Bool) :
    Except Fault (QWORD × RegionState) := do
  assertThat (size ≠ 0)
  let alignedPhysicalAddress := alignAddressLower physicalAddress pageSize
  let alignmentDifferences := pageOffset physicalAddress
  let alignedSize := alignAddressUpper (size + alignmentDifferences.setWidth 64) pageSize
  assertThat (alignedPhysicalAddress < pmmData.limits.highestPresentPhysicalAddress - alignedSize)
  let (pCurPointer, s) ← vmmMapMemoryEx vmmData s alignedPhysicalAddress alignedSize pageRights
    invalidate uncacheable
  if pCurPointer = 0 then return (0, s)
  return (pCurPointer + alignmentDifferences.setWidth 64, s)

/-- `memzero` on a number of pages. -/
def RegionState.zeroPages (s : RegionState) (address : QWORD) (count : ℕ) : RegionState :=
  { s with contents := fun f o =>
      if (List.range count).any fun j =>
        translate s.mem s.pagingData.root (pageAt address j) = some f then 0 else s.contents f o }

/-- The work on one item; the allocation bitmap is in `s.frames`. The number of bytes is one of 32
bits. -/
def mmuZeroWorkerItem (vmmData : VmmData) (pmmData : PmmData) (s : RegionState)
    (pItem : MmuZeroWorkerItem) : Except Fault RegionState := do
  let noOfBytes : DWORD := pItem.numberOfFrames * 0x1000
  let (pAddr, s) ← mmuMapMemoryEx vmmData pmmData s pItem.physicalAddress (noOfBytes.setWidth 64)
    (pageRightsRead ||| pageRightsWrite) false false
  assertThat (pAddr ≠ 0)
  let s := s.zeroPages pAddr (noOfBytes.toNat / 4096)
  let frames ← pmmReleaseMemory s.frames pmmData.allocationBitmap pItem.physicalAddress
    pItem.numberOfFrames
  let (mem, _) ← mmuUnmapMemoryEx s.mem s.pagingData.basePhysicalAddress pAddr
    (noOfBytes.setWidth 64) false
  return { s with mem := mem, frames := frames }

/-- No assertion fails, and the frames are free again. -/
def GoesBack (vmmData : VmmData) (pmmData : PmmData) (s : RegionState) (pItem : MmuZeroWorkerItem) :
    Prop :=
  ∃ s', mmuZeroWorkerItem vmmData pmmData s pItem = .ok s' ∧
    ∀ i, pItem.physicalAddress.toNat ≤ frameAddress i →
      frameAddress i < pItem.physicalAddress.toNat + frameAddress pItem.numberOfFrames.toNat →
      bitAt s'.frames pmmData.allocationBitmap.bitmapBuffer i = false

/-- The pages of the 4 GB that 32 bits can count. -/
def pagesCounted (pItem : MmuZeroWorkerItem) : ℕ := pItem.numberOfFrames.toNat % 2 ^ 20

/-- There are bytes to map, they end below the highest address present, and addresses and tables are
left for them. -/
structure CanZero (pmmData : PmmData) (s : RegionState) (pItem : MmuZeroWorkerItem) : Prop where
  bytes : 0 < pagesCounted pItem
  below : pItem.physicalAddress.toNat + frameAddress (pagesCounted pItem) <
    pmmData.limits.highestPresentPhysicalAddress.toNat
  addresses : PageRange s.vaSpace.freeVirtualAddressPointer (BitVec.ofNat 64 (frameAddress (pagesCounted pItem)))
  tables : s.pagingData.currentIndex.toNat + tablesNeeded s.vaSpace.freeVirtualAddressPointer 0
    (pagesCounted pItem) (linked s.mem s.pagingData.root) ≤ s.pagingData.numberOfFrames.toNat

section Item

variable {vmmData : VmmData} {d : PmmData} {s s' : RegionState} {pItem : MmuZeroWorkerItem}
  {pa size va : QWORD} {rights : DWORD} {invalidate uncacheable : Bool}

private theorem vmmMapMemoryEx_of (hinv : PagingInv s.mem s.pagingData)
    (hpa : isAddressAligned pa pageSize = true) (hsmall : size.toNat ≤ 2 ^ 48)
    (hrange : PageRange s.vaSpace.freeVirtualAddressPointer size)
    (htables : s.pagingData.currentIndex.toNat + tablesNeeded s.vaSpace.freeVirtualAddressPointer 0
      (size.toNat / 4096) (linked s.mem s.pagingData.root) ≤ s.pagingData.numberOfFrames.toNat) :
    ∃ s', vmmMapMemoryEx vmmData s pa size rights invalidate uncacheable =
        .ok (s.vaSpace.freeVirtualAddressPointer, s') ∧
      IsTree s'.mem (frameOf s'.pagingData.basePhysicalAddress) ∧ s'.frames = s.frames := by
  have hsize : ¬ (size = 0 ∨ isAddressAligned size pageSize = false) :=
    not_or_intro hrange.size_ne (by simp [hrange.size_aligned])
  have htakes := @vmmMapMemoryInternal_tables _ _ _ _ vmmData hinv hrange hsmall _ hpa rights
    invalidate uncacheable
  have hmaps := @vmmMapMemoryInternal_spec _ _ _ _ vmmData hinv hrange hsmall _ hpa rights
    invalidate uncacheable
  rcases htakes with ⟨mem', hok, -⟩ | ⟨-, hfew⟩
  · rcases hmaps with ⟨mem'', m, -, hok', hinv', -⟩ | ⟨herr, -⟩
    · refine ⟨{ s with mem := mem'', pagingData := s.pagingData.take m, vaSpace :=
        { s.vaSpace with
          freeVirtualAddressPointer := s.vaSpace.freeVirtualAddressPointer + size } },
        ?_, hinv'.tree, rfl⟩
      unfold vmmMapMemoryEx
      rw [if_neg (by simp [hpa]), if_neg hsize]
      exact bind_eq_ok.mpr ⟨(), assertThat_of hrange.base_aligned,
        bind_eq_ok.mpr ⟨_, hok', rfl⟩⟩
    · rw [hok] at herr
      cases herr
  · omega

private theorem vmmMapMemoryEx_ok (hinv : PagingInv s.mem s.pagingData)
    (hsmall : size.toNat ≤ 2 ^ 48) (hva : va ≠ 0)
    (hok : vmmMapMemoryEx vmmData s pa size rights invalidate uncacheable = .ok (va, s')) :
    PageRange s.vaSpace.freeVirtualAddressPointer size ∧
      s.pagingData.currentIndex.toNat + tablesNeeded s.vaSpace.freeVirtualAddressPointer 0
        (size.toNat / 4096) (linked s.mem s.pagingData.root) ≤ s.pagingData.numberOfFrames.toNat := by
  unfold vmmMapMemoryEx at hok
  split_ifs at hok with hpa hsize
  · cases hok
    exact absurd rfl hva
  · cases hok
    exact absurd rfl hva
  · obtain ⟨_, hal, hok⟩ := bind_eq_ok.mp hok
    obtain ⟨_, hmap, -⟩ := bind_eq_ok.mp hok
    have hrange := PageRange.of_map (assertThat_eq_ok.mp hal) hmap
    have htakes := @vmmMapMemoryInternal_tables _ _ _ _ vmmData hinv hrange hsmall pa
      (by simpa using hpa) rights invalidate uncacheable
    rcases htakes with ⟨_, -, hfits⟩ | ⟨herr, -⟩
    · exact ⟨hrange, hfits⟩
    · rw [hmap] at herr
      cases herr

/-- A range of whole pages is neither widened nor moved. -/
private theorem mmuMapMemoryEx_aligned (hpa : pa.toNat % 4096 = 0) (hal : size.toNat % 4096 = 0) :
    mmuMapMemoryEx vmmData d s pa size rights invalidate uncacheable = (do
      assertThat (size ≠ 0)
      assertThat (pa < d.limits.highestPresentPhysicalAddress - size)
      vmmMapMemoryEx vmmData s pa size rights invalidate uncacheable) := by
  have hlower : alignAddressLower pa pageSize = pa := alignLower_of_aligned hpa
  have hoffset : pageOffset pa = 0 := by
    apply BitVec.eq_of_toNat_eq
    rw [pageOffset_toNat, hpa]
    rfl
  have hsame : ∀ a : QWORD, a + (0 : DWORD).setWidth 64 = a := fun a => by simp
  have hupper : alignAddressUpper (size + (0 : DWORD).setWidth 64) pageSize = size := by
    rw [hsame, alignUpper_of_aligned hal]
  have hreturn : ∀ r : QWORD × RegionState, (if r.1 = 0 then pure (0, r.2)
      else pure (r.1 + (0 : DWORD).setWidth 64, r.2) : Except Fault (QWORD × RegionState)) =
        pure r := by
    intro r
    split_ifs with h0
    · rw [← h0]
    · rw [hsame]
  simp only [mmuMapMemoryEx, hlower, hoffset, hupper, hreturn, bind_pure]

private theorem noOfBytes_toNat (n : DWORD) :
    ((n * 0x1000 : DWORD).setWidth 64 : QWORD).toNat = 4096 * (n.toNat % 2 ^ 20) := by
  have hlt := n.isLt
  rw [BitVec.toNat_setWidth, BitVec.toNat_mul, show (0x1000 : DWORD).toNat = 4096 from rfl]
  lia

private theorem frameAddress_eq (i : ℕ) : frameAddress i = i * 4096 := rfl

private theorem ofNat_pages (n : DWORD) :
    BitVec.ofNat 64 (frameAddress (n.toNat % 2 ^ 20)) = (n * 0x1000 : DWORD).setWidth 64 := by
  apply BitVec.eq_of_toNat_eq
  rw [noOfBytes_toNat, BitVec.toNat_ofNat, frameAddress_eq]
  lia

/-- The range lies below the highest address present. -/
private theorem highest_sub {n : DWORD} {i : ℕ}
    (hfits : frameAddress (i + n.toNat) ≤ d.limits.highestPresentPhysicalAddress.toNat) :
    (d.limits.highestPresentPhysicalAddress - (n * 0x1000 : DWORD).setWidth 64 : QWORD).toNat =
      d.limits.highestPresentPhysicalAddress.toNat - 4096 * (n.toNat % 2 ^ 20) := by
  have hbytes := noOfBytes_toNat n
  rw [frameAddress_eq] at hfits
  rw [BitVec.toNat_sub_of_le, hbytes]
  rw [BitVec.le_def, hbytes]
  lia

private theorem canZero_of_goesBack {n : DWORD} {i : ℕ} (hi : pa.toNat = frameAddress i)
    (hfits : frameAddress (i + n.toNat) ≤ d.limits.highestPresentPhysicalAddress.toNat)
    (hinv : PagingInv s.mem s.pagingData) (h : GoesBack vmmData d s ⟨pa, n⟩) :
    CanZero d s ⟨pa, n⟩ := by
  have hbytes := noOfBytes_toNat n
  rw [frameAddress_eq] at hi
  obtain ⟨s', hok, -⟩ := h
  unfold mmuZeroWorkerItem at hok
  dsimp only at hok
  rw [mmuMapMemoryEx_aligned (by lia) (by lia)] at hok
  obtain ⟨⟨va, s₁⟩, hcall, hok⟩ := bind_eq_ok.mp hok
  obtain ⟨_, hva, -⟩ := bind_eq_ok.mp hok
  obtain ⟨_, hne, hcall⟩ := bind_eq_ok.mp hcall
  obtain ⟨_, hbelow, hcall⟩ := bind_eq_ok.mp hcall
  have hbelow : pa.toNat < _ := assertThat_eq_ok.mp hbelow
  obtain ⟨hrange, htables⟩ := vmmMapMemoryEx_ok hinv (by lia) (assertThat_eq_ok.mp hva) hcall
  rw [highest_sub hfits] at hbelow
  rw [hbytes, Nat.mul_div_cancel_left _ (by norm_num)] at htables
  refine ⟨?_, ?_, ?_, htables⟩
  · show 0 < n.toNat % 2 ^ 20
    by_contra h0
    apply hrange.size_ne
    apply BitVec.eq_of_toNat_eq
    rw [hbytes, Nat.eq_zero_of_not_pos h0]
    rfl
  · show pa.toNat + frameAddress (n.toNat % 2 ^ 20) < _
    rw [frameAddress_eq]
    lia
  · rwa [pagesCounted, ofNat_pages]

private theorem goesBack_of_canZero {n : DWORD} {i : ℕ} (hi : pa.toNat = frameAddress i)
    (hfits : frameAddress (i + n.toNat) ≤ d.limits.highestPresentPhysicalAddress.toNat)
    (hbuf : d.allocationBitmap.bitmapBuffer ≠ 0) (hn : n ≠ 0)
    (hrun : i + n.toNat ≤ d.allocationBitmap.bitCount.toNat)
    (hinv : PagingInv s.mem s.pagingData) (h : CanZero d s ⟨pa, n⟩) :
    GoesBack vmmData d s ⟨pa, n⟩ := by
  have hbytes := noOfBytes_toNat n
  have hcount := d.allocationBitmap.bitCount.isLt
  have hal : pa.toNat % 4096 = 0 := by
    rw [hi, frameAddress_eq]
    lia
  obtain ⟨hpos, hbelow, hrange, htables⟩ := h
  have hbelow : pa.toNat + n.toNat % 2 ^ 20 * 4096 < _ := hbelow
  rw [pagesCounted, ofNat_pages] at hrange
  have hrange : PageRange s.vaSpace.freeVirtualAddressPointer ((n * 0x1000 : DWORD).setWidth 64) :=
    hrange
  have hassert : pa < d.limits.highestPresentPhysicalAddress -
      (n * 0x1000 : DWORD).setWidth 64 := by
    rw [BitVec.lt_def, highest_sub hfits]
    lia
  obtain ⟨s₁, hcall, htree, -⟩ := @vmmMapMemoryEx_of vmmData s pa _
    (pageRightsRead ||| pageRightsWrite) false false hinv (aligned_iff.mpr hal) (by lia) hrange
    (by rwa [hbytes, Nat.mul_div_cancel_left _ (by norm_num)])
  have hmap := (mmuMapMemoryEx_aligned hal (by lia)).trans (bind_eq_ok.mpr ⟨(),
    assertThat_of hrange.size_ne, bind_eq_ok.mpr ⟨(), assertThat_of hassert, hcall⟩⟩)
  obtain ⟨frames₁, hrelease, hbits⟩ := pmmReleaseMemory_spec s₁.frames hbuf hi hn hrun
  obtain ⟨mem₁, hunmap, -⟩ := mmuUnmapMemoryEx_spec htree hrange.base_ne hrange.size_ne hrange.fits
    false
  refine ⟨_, bind_eq_ok.mpr ⟨_, hmap, bind_eq_ok.mpr ⟨(), assertThat_of hrange.base_ne,
    bind_eq_ok.mpr ⟨_, hrelease, bind_eq_ok.mpr ⟨_, hunmap, rfl⟩⟩⟩⟩, fun j hlo hhi => ?_⟩
  have hlo : pa.toNat ≤ frameAddress j := hlo
  have hhi : frameAddress j < pa.toNat + frameAddress n.toNat := hhi
  rw [hi, frameAddress_eq, frameAddress_eq] at hlo
  rw [hi, frameAddress_eq, frameAddress_eq, frameAddress_eq] at hhi
  have hcovers := (@covers_iff d.allocationBitmap.bitmapBuffer i n.toNat j (by omega)
    (by lia)).mpr ⟨by lia, by lia⟩
  exact (hbits _ (j % 8) (Nat.mod_lt j (by norm_num))).1 hcovers

/-- A range of frames that the allocator hands out goes back exactly if it can be zeroed. -/
theorem goesBack_iff {start frames frames' : Memory} {baseAddress : QWORD}
    {memoryMap : List Int15MemoryMapEntry} {reserved n : DWORD} {minPhysAddr pa : QWORD}
    (hinit : pmmInitSystem start baseAddress memoryMap = .ok (.success, some (d, reserved)))
    (hgrant : pmmReserveMemoryEx frames d.allocationBitmap n minPhysAddr = .ok (pa, frames'))
    (hpa : pa ≠ 0) (hinv : PagingInv s.mem s.pagingData) :
    GoesBack vmmData d s ⟨pa, n⟩ ↔ CanZero d s ⟨pa, n⟩ := by
  obtain ⟨-, hbuf, hcount⟩ := pmmInitSystem_limits hinit
  obtain ⟨hn, i, hi, hrun, -⟩ := pmmReserveMemoryEx_granted hgrant hpa
  have hfits : frameAddress (i + n.toNat) ≤ d.limits.highestPresentPhysicalAddress.toNat := by
    have := hrun.1
    rw [frameAddress_eq]
    lia
  exact ⟨canZero_of_goesBack hi hfits hinv,
    goesBack_of_canZero hi hfits hbuf hn hrun.1 hinv⟩

end Item

/-- Usable memory from 1 MB on. -/
def usableEntry (length : QWORD) : Int15MemoryMapEntry :=
  ⟨0x100000, length, memoryMapTypeUsableRAM, 1⟩

private theorem usable_usableEntry (length : QWORD) : (usableEntry length).Usable :=
  ⟨show isBooleanFlagOn 1 memoryMapEntryEaValidEntry = true by decide, rfl,
    show mbSize ≤ 0x100000 by decide⟩

private theorem firstFrame_usableEntry (length : QWORD) : (usableEntry length).firstFrame = 256 :=
  show ((0x100000 : QWORD).toNat + 4095) / 4096 = 256 by decide

/-- The allocator of a memory map of one usable entry hands out all of its frames. -/
private theorem usableEntry_reserve {length pa : QWORD} {n : DWORD} {i : ℕ}
    (hlen : 4096 ≤ length.toNat) (hhigh : length.toNat < 2 ^ 43) (hn : n ≠ 0)
    (hpa : pa.toNat = frameAddress i) (hlo : 256 ≤ i) (hhi : i + n.toNat ≤ 256 + length.toNat / 4096) :
    ∃ d reserved frames', pmmInitSystem (fun _ => 0) 0x1000 [usableEntry length] =
        .ok (.success, some (d, reserved)) ∧
      d.limits.highestPresentPhysicalAddress.toNat = 0x100000 + length.toNat ∧
      pmmReserveMemoryEx d.mem d.allocationBitmap n pa = .ok (pa, frames') ∧ pa ≠ 0 := by
  have hfirst := firstFrame_usableEntry length
  have hframes : (usableEntry length).noOfFrames = length.toNat / 4096 := rfl
  have hlimit : (usableEntry length).limit = 0x100000 + length.toNat := rfl
  have hmem : usableEntry length ∈ [usableEntry length] := List.mem_singleton.mpr rfl
  have hlim : ∀ e ∈ [usableEntry length], e.limit < 2 ^ 44 := by
    intro e he
    rw [List.mem_singleton.mp he, hlimit]
    omega
  obtain ⟨d, reserved, hinit, hfree⟩ := @pmmInitSystem_free 0x1000
    [usableEntry length] (fun _ => 0) (by decide) (List.cons_ne_nil _ _) hlim
    (fun e he _ => by
      rw [List.mem_singleton.mp he]
      exact (by decide : memoryMapTypeUsableRAM.toNat < memoryMapTypeMax)) ⟨_, hmem, by omega⟩
    (fun e he _ => by
      rw [List.mem_singleton.mp he]
      refine ⟨_, hmem, ?_⟩
      rw [hfirst, hframes, hlimit, frameAddress_eq]
      lia)
  simp only [List.mem_singleton, exists_eq_left, usable_usableEntry, true_and, hfirst,
    hframes] at hfree
  obtain ⟨hlimits, hbuf, hcount⟩ := pmmInitSystem_limits hinit
  have hhighest : d.limits.highestPresentPhysicalAddress.toNat = 0x100000 + length.toNat := by
    apply eq_of_forall_le_iff
    intro k
    rw [le_highestPresent hlim hlimits k, ← hlimit]
    simp only [List.mem_singleton, exists_eq_left]
    lia
  have hzero : bitAt d.mem d.allocationBitmap.bitmapBuffer 0 = true := by
    by_contra hbit
    have hfirst := (hfree 0).mp ⟨by lia, fun k hk => by
      rw [Nat.lt_one_iff.mp hk]
      simpa using hbit⟩
    omega
  have hrun : FreeRun d.mem d.allocationBitmap n.toNat i := by
    refine ⟨by lia, fun k hk => ?_⟩
    exact ((hfree (i + k)).mpr ⟨by omega, by lia⟩).2 0 Nat.one_pos
  obtain ⟨hne, frames', hreserve⟩ := pmmReserveMemoryEx_at hbuf hzero hn hpa hrun
  exact ⟨d, reserved, frames', hinit, hhighest, hreserve, hne⟩

/-- The last frame of memory, and as many frames as there are in 4 GB, are never zeroed: an assertion
fails. -/
theorem topFrames_not_zeroed :
    (∃ d reserved frames', pmmInitSystem (fun _ => 0) 0x1000 [usableEntry 0x200000000] =
        .ok (.success, some (d, reserved)) ∧
      pmmReserveMemoryEx d.mem d.allocationBitmap 1 0x2000FF000 = .ok (0x2000FF000, frames') ∧
      ¬ GoesBack ⟨0, 0⟩ d freshKernel ⟨0x2000FF000, 1⟩) ∧
    ∃ d reserved frames', pmmInitSystem (fun _ => 0) 0x1000 [usableEntry 0x200000000] =
        .ok (.success, some (d, reserved)) ∧
      pmmReserveMemoryEx d.mem d.allocationBitmap 0x100000 0x100000 = .ok (0x100000, frames') ∧
      ¬ GoesBack ⟨0, 0⟩ d freshKernel ⟨0x100000, 0x100000⟩ := by
  constructor
  · obtain ⟨d, reserved, frames', hinit, hhighest, hreserve, -⟩ :=
      @usableEntry_reserve 0x200000000 0x2000FF000 1 0x2000FF (by decide) (by decide) (by decide)
        (by decide) (by decide) (by decide)
    refine ⟨d, reserved, frames', hinit, hreserve, fun h => ?_⟩
    have hbelow := (canZero_of_goesBack (i := 0x2000FF) (by decide) (by rw [hhighest]; decide)
      freshKernel_inv h).below
    rw [hhighest] at hbelow
    exact absurd hbelow (by decide)
  · obtain ⟨d, reserved, frames', hinit, hhighest, hreserve, -⟩ :=
      @usableEntry_reserve 0x200000000 0x100000 0x100000 256 (by decide) (by decide) (by decide)
        (by decide) (by decide) (by decide)
    refine ⟨d, reserved, frames', hinit, hreserve, fun h => ?_⟩
    have hbytes := (canZero_of_goesBack (i := 256) (by decide) (by rw [hhighest]; decide)
      freshKernel_inv h).bytes
    exact absurd hbytes (by decide)

/-- The first frame is. -/
theorem firstFrame_zeroed :
    ∃ d reserved frames', pmmInitSystem (fun _ => 0) 0x1000 [usableEntry 0x200000000] =
        .ok (.success, some (d, reserved)) ∧
      pmmReserveMemoryEx d.mem d.allocationBitmap 1 0x100000 = .ok (0x100000, frames') ∧
      GoesBack ⟨0, 0⟩ d freshKernel ⟨0x100000, 1⟩ := by
  obtain ⟨d, reserved, frames', hinit, hhighest, hreserve, hne⟩ :=
    @usableEntry_reserve 0x200000000 0x100000 1 256 (by decide) (by decide) (by decide)
      (by decide) (by decide) (by decide)
  refine ⟨d, reserved, frames', hinit, hreserve, (goesBack_iff hinit hreserve hne
    freshKernel_inv).mpr ⟨by decide, ?_, by constructor <;> decide, ?_⟩⟩
  · rw [hhighest]
    decide
  · have hle := tablesNeeded_le freshKernel.vaSpace.freeVirtualAddressPointer 0 1
      (linked freshKernel.mem freshKernel.pagingData.root)
    exact Nat.le_trans (Nat.add_le_add_left hle _) (by decide)

end HAL9000.Paging
