import Mathlib.Data.List.Nodup
import HAL9000.Vmm.PageMapping
import HAL9000.Vmm.ReservationSpace

/-! Unmapping a range of bytes, `MmuUnmapMemoryEx` in `mmu.c`, and releasing a region with
`VmmFreeRegionEx`. -/
namespace HAL9000.Paging

open RadixTree Vmm

/-- Returns the memory and the frames passed to `MmuReleaseMemory`. The aligned size is a
`DWORD`. -/
def mmuUnmapMemoryEx (mem : PhysMemory) (basePhysicalAddress virtualAddress size : QWORD)
    (releaseMemory : Bool) : Except Fault (PhysMemory × List QWORD) := do
  assertThat (virtualAddress ≠ 0)
  assertThat (size ≠ 0)
  let alignedVirtualAddress := alignAddressLower virtualAddress pageSize
  let alignmentDifferences : DWORD := (virtualAddress - alignedVirtualAddress).setWidth 32
  let alignedSize : DWORD :=
    (alignAddressUpper (size + alignmentDifferences.setWidth 64) pageSize).setWidth 32
  vmmUnmapMemoryEx mem basePhysicalAddress alignedVirtualAddress (alignedSize.setWidth 64)
    releaseMemory

/-- Returns the reservation space, the memory and the frames passed to `MmuReleaseMemory`. -/
def vmmFreeRegionEx (s : VmmReservationSpace) (mem : PhysMemory) (basePhysicalAddress : QWORD)
    (address size : QWORD) (freeType : DWORD) (release : Bool) :
    Except Fault (VmmReservationSpace × PhysMemory × List QWORD) := do
  assertThat (address ≠ 0)
  assertThat (isBooleanFlagOn freeType vmmFreeTypeRelease ≠
    isBooleanFlagOn freeType vmmFreeTypeDecommit)
  assertThat ((isBooleanFlagOn freeType vmmFreeTypeRelease = true ∧ size = 0) ∨
    (isBooleanFlagOn freeType vmmFreeTypeDecommit = true ∧ size ≠ 0))
  let (s, alignedAddress, alignedSize) ← vmReservationSpaceFreeRegion s address size freeType
  if isFlagOn freeType (vmmFreeTypeDecommit ||| vmmFreeTypeRelease) then
    assertThat (alignedAddress ≠ 0)
    assertThat (alignedSize ≠ 0)
    let (mem, released) ← mmuUnmapMemoryEx mem basePhysicalAddress alignedAddress alignedSize release
    return (s, mem, released)
  else return (s, mem, [])

/-- The page of the address meets the range of bytes. -/
def InRange (virtualAddress size va : QWORD) : Prop :=
  ∃ k < size.toNat, SamePage (virtualAddress + BitVec.ofNat 64 k) va

/-- The call returns, all pages of the range are unmapped, their frames were released once each and
no others were, and every other page keeps its entry. -/
def UnmapsRange (mem : PhysMemory) (root : BitVec 40) (virtualAddress size : QWORD)
    (r : Except Fault (PhysMemory × List QWORD)) : Prop :=
  ∃ mem' released, r = .ok (mem', released) ∧
    (∀ va, InRange virtualAddress size va → translate mem' root va = none) ∧
    (∀ pa, (∃ va, InRange virtualAddress size va ∧ translate mem root va = some pa) →
      released.count pa = 1) ∧
    (∀ pa ∈ released, ∃ va, InRange virtualAddress size va ∧ translate mem root va = some pa) ∧
    ∀ va, ¬ InRange virtualAddress size va → lookup mem' root va = lookup mem root va

/-- The number of pages that meet the range. -/
def pagesOf (virtualAddress size : QWORD) : ℕ :=
  (virtualAddress.toNat % 4096 + size.toNat + 4095) / 4096

/-- The number of pages the call visits: it counts bytes modulo `2 ^ 32`, and leaves page 0 alone. -/
def pagesVisited (virtualAddress size : QWORD) : ℕ :=
  if virtualAddress.toNat < 4096 then 0 else pagesOf virtualAddress size % 2 ^ 20

/-- How many pages an address is after the first page of the range. -/
def pageOf (virtualAddress va : QWORD) : ℕ :=
  pageDistance (alignAddressLower virtualAddress pageSize) va

/-- The mapped pages of the range are visited and mapped to frames of their own. -/
structure Reaches (mem : PhysMemory) (root : BitVec 40) (virtualAddress size : QWORD) : Prop where
  valid : virtualAddress ≠ 0
  visited : ∀ va, InRange virtualAddress size va → translate mem root va ≠ none →
    pageOf virtualAddress va < pagesVisited virtualAddress size
  distinct : ∀ va va' pa, InRange virtualAddress size va → InRange virtualAddress size va' →
    translate mem root va = some pa → translate mem root va' = some pa → SamePage va va'

section Range

variable {mem : PhysMemory} {virtualAddress size va : QWORD} {root : BitVec 40}

private theorem alignLower_aligned (va : QWORD) : (alignAddressLower va pageSize).toNat % 4096 = 0 := by
  rw [alignLower_toNat]
  lia

/-- The pages of the range are the first ones from its base on. -/
theorem inRange_iff (hsize : size ≠ 0) :
    InRange virtualAddress size va ↔ pageOf virtualAddress va < pagesOf virtualAddress size := by
  have hal := alignLower_aligned virtualAddress
  have hpos : 0 < size.toNat := by
    apply Nat.pos_of_ne_zero
    intro h0
    exact hsize (BitVec.eq_of_toNat_eq h0)
  have hva := virtualAddress.isLt
  have hpage : ∀ k, SamePage (virtualAddress + BitVec.ofNat 64 k) va ↔
      (virtualAddress.toNat % 4096 + k) / 4096 % 2 ^ 36 = pageOf virtualAddress va := by
    intro k
    have hiff := @samePage_pageAt_iff _ va hal ((virtualAddress.toNat % 4096 + k) / 4096)
    rw [pageOf, ← hiff, samePage_iff, samePage_iff, pageAt, BitVec.toNat_add, BitVec.toNat_add,
      BitVec.toNat_ofNat, BitVec.toNat_ofNat, alignLower_toNat]
    omega
  have hdist : pageOf virtualAddress va < 2 ^ 36 := Nat.mod_lt _ (by norm_num)
  simp only [InRange, hpage]
  unfold pagesOf
  constructor
  · intro h
    obtain ⟨k, hk, heq⟩ := h
    lia
  · intro h
    by_cases h0 : pageOf virtualAddress va = 0
    · exact ⟨0, hpos, by lia⟩
    · refine ⟨4096 * pageOf virtualAddress va - virtualAddress.toNat % 4096, ?_, ?_⟩
      · lia
      · omega

theorem pagesVisited_le (virtualAddress size : QWORD) :
    pagesVisited virtualAddress size ≤ pagesOf virtualAddress size := by
  unfold pagesVisited
  split_ifs
  · exact Nat.zero_le _
  · exact Nat.mod_le _ _

/-- The aligned size is the number of pages, cut to 32 bits. -/
private theorem alignedSize_toNat (hfits : virtualAddress.toNat + size.toNat ≤ 2 ^ 64)
    (hpage : 4096 ≤ virtualAddress.toNat) :
    ((alignAddressUpper (size + ((virtualAddress - alignAddressLower virtualAddress pageSize).setWidth
      32 : DWORD).setWidth 64) pageSize).setWidth 32 : DWORD).toNat =
      4096 * pagesVisited virtualAddress size := by
  have hlow := alignLower_toNat virtualAddress
  have hdiff : (((virtualAddress - alignAddressLower virtualAddress pageSize).setWidth 32 :
      DWORD).setWidth 64 : QWORD).toNat = virtualAddress.toNat % 4096 := by
    rw [BitVec.toNat_setWidth, BitVec.toNat_setWidth, BitVec.toNat_sub, hlow]
    have := virtualAddress.isLt
    lia
  have hsum : (size + ((virtualAddress - alignAddressLower virtualAddress pageSize).setWidth 32 :
      DWORD).setWidth 64 : QWORD).toNat = size.toNat + virtualAddress.toNat % 4096 := by
    rw [BitVec.toNat_add, hdiff]
    have := size.isLt
    lia
  have hpad := alignPadding_lt (size.toNat + virtualAddress.toNat % 4096)
    (show 0 < 4096 by norm_num)
  have hdvd := dvd_add_alignPadding (size.toNat + virtualAddress.toNat % 4096)
    (show 0 < 4096 by norm_num)
  rw [BitVec.toNat_setWidth, alignAddressUpper_toNat (k := 12) rfl, hsum,
    show pageSize.toNat = 4096 from rfl, pagesVisited, if_neg (by lia), pagesOf]
  omega

/-- The call visits pages from the first one on. -/
theorem mmuUnmapMemoryEx_eq (cr3 : QWORD) (hva : virtualAddress ≠ 0) (hsize : size ≠ 0)
    (hfits : virtualAddress.toNat + size.toNat ≤ 2 ^ 64) (release : Bool) :
    mmuUnmapMemoryEx mem cr3 virtualAddress size release =
        walkPages cr3 (alignAddressLower virtualAddress pageSize) (vmUnmapPage release)
          (pagesVisited virtualAddress size) (BitVec.ofNat 64 (4096 * 0)) (mem, []) ∧
      ∀ j < pagesVisited virtualAddress size,
        pageAt (alignAddressLower virtualAddress pageSize) j ≠ 0 := by
  have hlow := alignLower_toNat virtualAddress
  have hal := alignLower_aligned virtualAddress
  have hva64 := virtualAddress.isLt
  simp only [mmuUnmapMemoryEx, assertThat_of hva, assertThat_of hsize, bind, Except.bind]
  by_cases hpage : 4096 ≤ virtualAddress.toNat
  · have hlen := alignedSize_toNat hfits hpage
    have hwidth : ((((alignAddressUpper (size + ((virtualAddress - alignAddressLower virtualAddress
        pageSize).setWidth 32 : DWORD).setWidth 64) pageSize).setWidth 32 : DWORD).setWidth 64 :
        QWORD)).toNat = 4096 * pagesVisited virtualAddress size := by
      rw [BitVec.toNat_setWidth, hlen]
      have hlt : pagesVisited virtualAddress size < 2 ^ 20 := by
        unfold pagesVisited
        rw [if_neg (by omega)]
        exact Nat.mod_lt _ (by norm_num)
      omega
    have hle := pagesVisited_le virtualAddress size
    have hbase : alignAddressLower virtualAddress pageSize ≠ 0 := by
      intro hc
      rw [hc] at hlow
      have h0 : (0 : QWORD).toNat = 0 := rfl
      omega
    by_cases h0 : pagesVisited virtualAddress size = 0
    · have hz : ((alignAddressUpper (size + ((virtualAddress - alignAddressLower virtualAddress
          pageSize).setWidth 32 : DWORD).setWidth 64) pageSize).setWidth 32 : DWORD).setWidth 64 =
          (0 : QWORD) := by
        apply BitVec.eq_of_toNat_eq
        rw [hwidth, h0]
        rfl
      have hskip : ¬ (alignAddressLower virtualAddress pageSize = 0 ∨
          isAddressAligned (alignAddressLower virtualAddress pageSize) pageSize = false) := by
        refine not_or_intro hbase ?_
        rw [Bool.not_eq_false, aligned_iff]
        exact hal
      rw [vmmUnmapMemoryEx, if_neg hskip, hz, if_pos (Or.inl rfl), h0]
      exact ⟨rfl, fun j hj => absurd hj (Nat.not_lt_zero j)⟩
    · have hrange : PageRange (alignAddressLower virtualAddress pageSize)
          (((alignAddressUpper (size + ((virtualAddress - alignAddressLower virtualAddress
            pageSize).setWidth 32 : DWORD).setWidth 64) pageSize).setWidth 32 : DWORD).setWidth
            64) := by
        refine ⟨hbase, aligned_iff.mpr hal, fun hc => ?_, ?_, ?_⟩
        · rw [hc] at hwidth
          have h0 : (0 : QWORD).toNat = 0 := rfl
          omega
        · rw [aligned_iff, hwidth]
          omega
        · rw [hwidth, hlow]
          unfold pagesOf at hle
          omega
      refine ⟨?_, fun j hj => hrange.pageAt_ne (by omega)⟩
      rw [vmmUnmapMemoryEx, if_neg (not_or_intro hrange.base_ne (by simp [hrange.base_aligned])),
        if_neg (not_or_intro hrange.size_ne (by simp [hrange.size_aligned])), vmWalkPagingTables,
        hrange.count, hwidth, Nat.mul_div_cancel_left _ (by norm_num)]
      rfl
  · have hz : alignAddressLower virtualAddress pageSize = 0 := by
      apply BitVec.eq_of_toNat_eq
      rw [hlow]
      show _ = 0
      lia
    have h0 : pagesVisited virtualAddress size = 0 := by
      rw [pagesVisited, if_pos (by omega)]
    rw [vmmUnmapMemoryEx, if_pos (Or.inl hz), h0]
    exact ⟨rfl, fun j hj => absurd hj (Nat.not_lt_zero j)⟩

/-- The call unmaps the pages it visits and releases their frames in order. -/
theorem mmuUnmapMemoryEx_spec {cr3 : QWORD} (htree : IsTree mem (frameOf cr3))
    (hva : virtualAddress ≠ 0) (hsize : size ≠ 0)
    (hfits : virtualAddress.toNat + size.toNat ≤ 2 ^ 64) (release : Bool) :
    ∃ mem', mmuUnmapMemoryEx mem cr3 virtualAddress size release =
        .ok (mem', if release then (List.range (pagesVisited virtualAddress size)).filterMap fun j =>
          translate mem (frameOf cr3) (pageAt (alignAddressLower virtualAddress pageSize) j) else []) ∧
      ∀ va, lookup mem' (frameOf cr3) va =
        if pageOf virtualAddress va < pagesVisited virtualAddress size then none
        else lookup mem (frameOf cr3) va := by
  obtain ⟨heq, hpos⟩ := @mmuUnmapMemoryEx_eq mem _ _ cr3 hva hsize hfits release
  have hvisited : pagesVisited virtualAddress size ≤ 2 ^ 36 := by
    unfold pagesVisited
    split_ifs <;> omega
  obtain ⟨mem', hwalk, -, hlook⟩ := walkPages_unmap (alignLower_aligned virtualAddress) htree release
    [] (k := 0) (n := pagesVisited virtualAddress size) (by omega) (fun j hj => hpos j (by omega))
  refine ⟨mem', ?_, fun va => ?_⟩
  · rw [heq, hwalk, List.range_eq_range']
    rfl
  · rw [hlook]
    simp only [Nat.zero_le, true_and, Nat.zero_add]
    rfl

/-- The page `j` pages after the first one is in the range. -/
private theorem pageOf_pageAt (virtualAddress : QWORD) {j : ℕ} (hj : j < 2 ^ 36) :
    pageOf virtualAddress (pageAt (alignAddressLower virtualAddress pageSize) j) = j := by
  have h := (samePage_pageAt_iff (alignLower_aligned virtualAddress) j).mp
    (SamePage.refl (pageAt (alignAddressLower virtualAddress pageSize) j))
  rw [pageOf, ← h, Nat.mod_eq_of_lt hj]

private theorem samePage_of_pageOf_eq {va va' : QWORD}
    (h : pageOf virtualAddress va = pageOf virtualAddress va') : SamePage va va' := by
  have hal := alignLower_aligned virtualAddress
  have hlt : pageOf virtualAddress va < 2 ^ 36 := Nat.mod_lt _ (by norm_num)
  have h₁ := (@samePage_pageAt_iff _ va hal (pageOf virtualAddress va)).mpr
    (Nat.mod_eq_of_lt hlt)
  have h₂ := (@samePage_pageAt_iff _ va' hal (pageOf virtualAddress va)).mpr (by
    rw [Nat.mod_eq_of_lt hlt]
    exact h)
  exact fun k hk => (h₁ k hk).symm.trans (h₂ k hk)

/-- A list of found values has no duplicates if no value is found at two places. -/
private theorem nodup_filterMap_range_iff {α : Type} {f : ℕ → Option α} {n : ℕ} :
    ((List.range n).filterMap f).Nodup ↔
      ∀ i j a, i < j → j < n → f i = some a → f j ≠ some a := by
  rw [List.Nodup, List.pairwise_filterMap, List.pairwise_iff_getElem]
  simp only [List.length_range, List.getElem_range]
  constructor
  · intro h i j a hij hj hi hfj
    exact h i j (by omega) hj hij a hi a hfj rfl
  · intro h i j _ hj hij a hi b hfj hab
    exact h i j a hij hj hi (hab ▸ hfj)

private theorem translate_eq_none_iff : translate mem root va = none ↔ lookup mem root va = none := by
  rw [translate, Option.map_eq_none_iff]

/-- Unmapping does what it says exactly if it visits the mapped pages of the range, and these have
frames of their own. -/
private theorem unmapsRange_iff_reaches {cr3 : QWORD} (htree : IsTree mem (frameOf cr3))
    (hsize : size ≠ 0) (hfits : virtualAddress.toNat + size.toNat ≤ 2 ^ 64) :
    UnmapsRange mem (frameOf cr3) virtualAddress size
      (mmuUnmapMemoryEx mem cr3 virtualAddress size true) ↔
      Reaches mem (frameOf cr3) virtualAddress size := by
  by_cases hva : virtualAddress = 0
  · refine iff_of_false (fun h => ?_) (fun h => h.valid hva)
    obtain ⟨mem', released, hok, -⟩ := h
    obtain ⟨u, hassert, -⟩ := bind_eq_ok.mp hok
    exact (assertThat_eq_ok.mp hassert) hva
  obtain ⟨mem', hok, hlook⟩ := mmuUnmapMemoryEx_spec htree hva hsize hfits true
  have hle := pagesVisited_le virtualAddress size
  have hsmall : pagesVisited virtualAddress size ≤ 2 ^ 36 := by
    unfold pagesVisited
    split_ifs
    · exact Nat.zero_le _
    · have := Nat.mod_lt (pagesOf virtualAddress size) (show 0 < 2 ^ 20 by norm_num)
      omega
  let f := fun j => translate mem (frameOf cr3) (pageAt (alignAddressLower virtualAddress pageSize) j)
  have hf : ∀ va, translate mem (frameOf cr3) va = f (pageOf virtualAddress va) := by
    intro va
    have hlt : pageOf virtualAddress va < 2 ^ 36 := Nat.mod_lt _ (by norm_num)
    show _ = translate _ _ _
    rw [translate, translate, lookup_congr (samePage_of_pageOf_eq (pageOf_pageAt virtualAddress
      hlt).symm)]
  have hmem : ∀ pa, pa ∈ (List.range (pagesVisited virtualAddress size)).filterMap f ↔
      ∃ j < pagesVisited virtualAddress size, f j = some pa := by
    intro pa
    rw [List.mem_filterMap]
    simp only [List.mem_range]
  simp only [if_true] at hok
  constructor
  · intro h
    obtain ⟨mem'', released, hok', hnone, honce, -, -⟩ := h
    rw [hok] at hok'
    cases hok'
    have hvisited : ∀ va, InRange virtualAddress size va →
        translate mem (frameOf cr3) va ≠ none →
        pageOf virtualAddress va < pagesVisited virtualAddress size := by
      intro va hin hmapped
      by_contra hge
      have hafter := hnone va hin
      rw [translate_eq_none_iff, hlook, if_neg hge, ← translate_eq_none_iff] at hafter
      exact hmapped hafter
    refine ⟨hva, hvisited, fun va va' pa hin hin' hpa hpa' => ?_⟩
    have hj := hvisited va hin (by rw [hpa]; rintro ⟨⟩)
    have hj' := hvisited va' hin' (by rw [hpa']; rintro ⟨⟩)
    by_contra hdiff
    have hnodup : ((List.range (pagesVisited virtualAddress size)).filterMap f).Nodup := by
      rw [List.nodup_iff_count_le_one]
      intro pa
      by_cases hpa : pa ∈ (List.range (pagesVisited virtualAddress size)).filterMap f
      · obtain ⟨j, hj, hfj⟩ := (hmem pa).mp hpa
        have hin : InRange virtualAddress size
            (pageAt (alignAddressLower virtualAddress pageSize) j) := by
          rw [inRange_iff hsize, pageOf_pageAt virtualAddress (by omega)]
          omega
        exact Nat.le_of_eq (honce pa ⟨_, hin, hfj⟩)
      · rw [List.count_eq_zero_of_not_mem hpa]
        exact Nat.zero_le 1
    have hrel := nodup_filterMap_range_iff.mp hnodup
    rw [hf] at hpa hpa'
    have hne : pageOf virtualAddress va ≠ pageOf virtualAddress va' :=
      fun heq => hdiff (samePage_of_pageOf_eq heq)
    rcases Nat.lt_or_gt_of_ne hne with hlt | hlt
    · exact hrel _ _ pa hlt hj' hpa hpa'
    · exact hrel _ _ pa hlt hj hpa' hpa
  · intro h
    refine ⟨mem', _, hok, fun va hin => ?_, fun pa hpa => ?_, fun pa hpa => ?_, fun va hout => ?_⟩
    · rw [translate_eq_none_iff, hlook]
      split_ifs with hlt
      · rfl
      · by_contra hmapped
        exact hlt (h.visited va hin (by rwa [ne_eq, translate_eq_none_iff]))
    · obtain ⟨va, hin, hpa⟩ := hpa
      have hj := h.visited va hin (by rw [hpa]; rintro ⟨⟩)
      rw [hf] at hpa
      apply List.count_eq_one_of_mem
      · apply nodup_filterMap_range_iff.mpr
        intro i j pa hij hjn hi hfj
        have hrange : ∀ k < pagesVisited virtualAddress size, InRange virtualAddress size
            (pageAt (alignAddressLower virtualAddress pageSize) k) := by
          intro k hk
          rw [inRange_iff hsize, pageOf_pageAt virtualAddress (by omega)]
          omega
        have hsame := h.distinct _ _ pa (hrange i (by omega)) (hrange j hjn) hi hfj
        rw [samePage_pageAt_iff (alignLower_aligned virtualAddress),
          Nat.mod_eq_of_lt (by lia : i < 2 ^ 36)] at hsame
        have hj := pageOf_pageAt virtualAddress (show j < 2 ^ 36 by omega)
        rw [pageOf] at hj
        omega
      · exact (hmem pa).mpr ⟨_, hj, hpa⟩
    · obtain ⟨j, hj, hfj⟩ := (hmem pa).mp hpa
      refine ⟨pageAt (alignAddressLower virtualAddress pageSize) j, ?_, hfj⟩
      rw [inRange_iff hsize, pageOf_pageAt virtualAddress (by omega)]
      omega
    · rw [inRange_iff hsize] at hout
      rw [hlook, if_neg (by omega)]

/-- The release of a region returns and leaves no page of the region mapped. -/
def ReleasesRegion (s s' : VmmReservationSpace) (mem : PhysMemory) (cr3 address startVa size : QWORD) :
    Prop :=
  ∃ mem' released,
    vmmFreeRegionEx s mem cr3 address 0 vmmFreeTypeRelease true = .ok (s', mem', released) ∧
    ∀ va, InRange startVa size va → translate mem' (frameOf cr3) va = none

private theorem releasesRegion_iff_visited {cr3 : QWORD} (htree : IsTree mem (frameOf cr3))
    {s s' : VmmReservationSpace} {address : QWORD}
    (hfree : vmReservationSpaceFreeRegion s address 0 vmmFreeTypeRelease =
      .ok (s', virtualAddress, size))
    (hsize : size ≠ 0) (hfits : virtualAddress.toNat + size.toNat ≤ 2 ^ 64) :
    ReleasesRegion s s' mem cr3 address virtualAddress size ↔
      virtualAddress ≠ 0 ∧ ∀ va, InRange virtualAddress size va →
        translate mem (frameOf cr3) va ≠ none →
        pageOf virtualAddress va < pagesVisited virtualAddress size := by
  obtain ⟨u, haddress, -⟩ := bind_eq_ok.mp hfree
  have hflags : isBooleanFlagOn vmmFreeTypeRelease vmmFreeTypeRelease ≠
      isBooleanFlagOn vmmFreeTypeRelease vmmFreeTypeDecommit := by decide
  have hzero : (isBooleanFlagOn vmmFreeTypeRelease vmmFreeTypeRelease = true ∧ (0 : QWORD) = 0) ∨
      (isBooleanFlagOn vmmFreeTypeRelease vmmFreeTypeDecommit = true ∧ (0 : QWORD) ≠ 0) := by decide
  have hon : isFlagOn vmmFreeTypeRelease (vmmFreeTypeDecommit ||| vmmFreeTypeRelease) = true := by
    decide
  have hcall : vmmFreeRegionEx s mem cr3 address 0 vmmFreeTypeRelease true =
      (do
        assertThat (virtualAddress ≠ 0)
        assertThat (size ≠ 0)
        let r ← mmuUnmapMemoryEx mem cr3 virtualAddress size true
        return (s', r)) := by
    unfold vmmFreeRegionEx
    rw [assertThat_of (assertThat_eq_ok.mp haddress), assertThat_of hflags, assertThat_of hzero, hfree]
    simp only [hon, if_true, bind, Except.bind]
  by_cases hva : virtualAddress = 0
  · refine iff_of_false (fun h => ?_) (fun h => h.1 hva)
    obtain ⟨mem', released, hok, -⟩ := h
    rw [hcall] at hok
    obtain ⟨u, hassert, -⟩ := bind_eq_ok.mp hok
    exact (assertThat_eq_ok.mp hassert) hva
  obtain ⟨mem', hok, hlook⟩ := mmuUnmapMemoryEx_spec htree hva hsize hfits true
  have hreturn : ∃ released,
      vmmFreeRegionEx s mem cr3 address 0 vmmFreeTypeRelease true = .ok (s', mem', released) := by
    simp only [hcall, assertThat_of hva, assertThat_of hsize, hok, bind, Except.bind]
    exact ⟨_, rfl⟩
  obtain ⟨released, hreturn⟩ := hreturn
  constructor
  · intro h
    obtain ⟨mem'', released', hok', hnone⟩ := h
    rw [hreturn] at hok'
    cases hok'
    refine ⟨hva, fun va hin hmapped => ?_⟩
    by_contra hge
    have hafter := hnone va hin
    rw [translate_eq_none_iff, hlook, if_neg hge, ← translate_eq_none_iff] at hafter
    exact hmapped hafter
  · intro h
    refine ⟨mem', released, hreturn, fun va hin => ?_⟩
    rw [translate_eq_none_iff, hlook]
    split_ifs with hlt
    · rfl
    · by_contra hmapped
      exact hlt (h.2 va hin (by rwa [ne_eq, translate_eq_none_iff]))

end Range

/-- Unmapping a range works out exactly if the 32-bit count of bytes gets to all its mapped pages and
these have frames of their own, and so does releasing a region, for which the frames do not matter. -/
theorem unmapsRange_iff (mem : PhysMemory) (cr3 : QWORD) (htree : IsTree mem (frameOf cr3)) :
    (∀ virtualAddress size : QWORD, size ≠ 0 → virtualAddress.toNat + size.toNat ≤ 2 ^ 64 →
      (UnmapsRange mem (frameOf cr3) virtualAddress size
        (mmuUnmapMemoryEx mem cr3 virtualAddress size true) ↔
        Reaches mem (frameOf cr3) virtualAddress size)) ∧
    ∀ s s' address startVa size,
      vmReservationSpaceFreeRegion s address 0 vmmFreeTypeRelease = .ok (s', startVa, size) →
      size ≠ 0 → startVa.toNat + size.toNat ≤ 2 ^ 64 →
      (ReleasesRegion s s' mem cr3 address startVa size ↔
        startVa ≠ 0 ∧ ∀ va, InRange startVa size va → translate mem (frameOf cr3) va ≠ none →
          pageOf startVa va < pagesVisited startVa size) :=
  ⟨fun _ _ hsize hfits => unmapsRange_iff_reaches htree hsize hfits,
    fun _ _ _ _ _ hfree hsize hfits => releasesRegion_iff_visited htree hfree hsize hfits⟩

/-- Four gigabytes are cut to zero bytes, and the first page stays mapped. -/
theorem unmapsRange_fourGigabytes : ∃ mem pd, onePage = .ok (mem, pd) ∧
    IsTree mem (frameOf 0x100000) ∧ ¬ UnmapsRange mem (frameOf 0x100000) 0x1000 0x100000000
      (mmuUnmapMemoryEx mem 0x100000 0x1000 0x100000000 true) := by
  obtain ⟨mem, pd, hok, htree, htrans⟩ := onePage_spec
  refine ⟨mem, pd, hok, htree, fun h => ?_⟩
  have hreach := (unmapsRange_iff_reaches htree (by decide) (by decide)).mp h
  have hvisited := hreach.visited 0x1000
    ((inRange_iff (by decide)).mpr (by decide)) (by
      show translate mem smallPool.root 0x1000 ≠ none
      rw [htrans]
      decide)
  exact absurd hvisited (by decide)

/-- One page is unmapped. -/
theorem unmapsRange_onePage : ∃ mem pd, onePage = .ok (mem, pd) ∧
    UnmapsRange mem (frameOf 0x100000) 0x1000 0x1000
      (mmuUnmapMemoryEx mem 0x100000 0x1000 0x1000 true) := by
  obtain ⟨mem, pd, hok, htree, htrans⟩ := onePage_spec
  refine ⟨mem, pd, hok, ((unmapsRange_iff mem 0x100000 htree).1 0x1000 0x1000 (by decide)
    (by decide)).mpr ⟨by decide, fun va hin _ => ?_, fun va va' pa hin hin' _ _ => ?_⟩⟩
  · have hlt := (inRange_iff (by decide)).mp hin
    exact Nat.lt_of_lt_of_le hlt (by decide)
  · have hlt := (inRange_iff (by decide)).mp hin
    have hlt' := (inRange_iff (by decide)).mp hin'
    have hone : pagesOf 0x1000 0x1000 = 1 := by decide
    have heq : pageOf 0x1000 va = pageOf 0x1000 va' := by omega
    exact samePage_of_pageOf_eq heq

end HAL9000.Paging
