import HAL9000.Mmu.MdlRefusal
import HAL9000.Vmm.RegionAllocation

/-! Buffers of a process that are mapped for the kernel, `MmuGetSystemVirtualAddressForUserBuffer` in
`mmu.c`. The list describes whole pages, the region has as many as the size alone takes, and a page
that is mapped already stays as it is. -/
namespace HAL9000.Paging

open RadixTree Vmm

/-- The region that is asked for: reserved, committed and mapped at once, anywhere. -/
def aliasRequest (size : QWORD) (pageRights : DWORD) : AllocRequest :=
  ⟨0, size, vmmAllocTypeReserve ||| vmmAllocTypeCommit ||| vmmAllocTypeNotLazy,
    ⟨pageRights, false, 0⟩⟩

/-- The state is the kernel's, after the pages of a kernel process have been probed. `process` is the
paging data of the process, `none` for a `NULL` process, and `kernelAddress` the place for the result.
On success the address is returned that is stored there. -/
def mmuGetSystemVirtualAddressForUserBuffer (env : RegionEnv) (s : RegionState) (allocated : Bool)
    (userAddress size : QWORD) (pageRights : DWORD) (process : Option PagingData)
    (kernelAddress : QWORD) : Except Fault (Except Status QWORD × RegionState) :=
  if userAddress = 0 then .ok (.error .invalidParameter1, s)
  else if size = 0 then .ok (.error .invalidParameter2, s)
  else match process with
    | none => .ok (.error .invalidParameter3, s)
    | some pagingData =>
      if kernelAddress = 0 then .ok (.error .invalidParameter4, s)
      else do
        assertThat (size ≤ Vmm.maxDword)
        let pMdl ← mdlAllocateEx s.mem pagingData.basePhysicalAddress pagingData.kernelSpace
          allocated userAddress (size.setWidth 32)
        match pMdl with
        | none => return (.error .unsuccessful, s)
        | some pMdl =>
          let (pKernelAddress, s) ← vmmAllocRegionEx env s (aliasRequest size pageRights) (some pMdl)
          if pKernelAddress = 0 then return (.error .memoryCannotBeCommited, s)
          else return (.ok (pKernelAddress + (userAddress &&& (pageSize - 1))), s)

/-- The address of the region that the reservation space chooses. -/
def aliasRegion (s : RegionState) (size : QWORD) (pageRights : DWORD) : QWORD × QWORD :=
  (s.vaSpace.place (aliasRequest size pageRights)).2

/-- The kernel's view of a buffer after the call: only pages of the region have changed, and each byte
lies in the region and is the byte of the process. -/
structure AliasesBuffer (s s' : RegionState) (userRoot : BitVec 40) (userAddress size : QWORD)
    (pageRights : DWORD) (kernelAddress : QWORD) : Prop where
  mapped : ∀ va, translate s'.mem s'.pagingData.root va ≠ translate s.mem s.pagingData.root va →
    pageDistance (aliasRegion s size pageRights).1 va <
      (aliasRegion s size pageRights).2.toNat / 4096
  inside : ∀ k < size.toNat, kernelAddress + BitVec.ofNat 64 k - (aliasRegion s size pageRights).1 <
    (aliasRegion s size pageRights).2
  bytes : ∀ k < size.toNat, physicalByte s'.mem s'.pagingData.root (kernelAddress + BitVec.ofNat 64 k) =
    physicalByte s.mem userRoot (userAddress + BitVec.ofNat 64 k)

/-- The buffer takes no more pages than its size alone, and each page of the region is free for the
page of the buffer, which the list has, or maps it already. -/
structure FitsRegion (s : RegionState) (userRoot : BitVec 40) (userAddress size : QWORD)
    (pageRights : DWORD) : Prop where
  pages : userAddress.toNat % 4096 + size.toNat ≤ 4096 * ((size.toNat + 4095) / 4096)
  free : ∀ k < pagesOfBuffer userAddress (size.setWidth 32),
    let page := pageAt (aliasRegion s size pageRights).1 k
    translate s.mem s.pagingData.root page =
        frameAt s.mem (pageAt (alignAddressLower userAddress pageSize) k) 4 userRoot ∨
      translate s.mem s.pagingData.root page = none ∧ (k = 0 ∨ size.toNat ≤ 0xFFFFF000)

/-- The pages that a pair is mapped to. -/
def MdlTranslationPair.frames (p : MdlTranslationPair) : List QWORD :=
  (List.range (p.alignedSize.toNat / 4096)).map (pageAt (alignAddressLower p.address pageSize))

section Frames

variable {cur p : MdlTranslationPair} {pas : List QWORD} {n : ℕ}

/-- A pair that ends with a page. -/
private def Whole (p : MdlTranslationPair) (n : ℕ) : Prop :=
  p.address.toNat % 4096 + p.numberOfBytes.toNat = 4096 * n

private theorem Whole.frames (h : Whole p n) :
    p.frames = (List.range n).map (pageAt (alignAddressLower p.address pageSize)) := by
  have hlt := p.numberOfBytes.isLt
  have hpad := alignPadding_lt (4096 * n) (show 0 < 4096 by norm_num)
  have hdvd := dvd_add_alignPadding (4096 * n) (show 0 < 4096 by norm_num)
  have hmask : (p.address &&& (pageSize - 1)).toNat = p.address.toNat % 4096 := by
    rw [BitVec.toNat_and, show (pageSize - 1 : QWORD).toNat = 2 ^ 12 - 1 from rfl,
      Nat.and_two_pow_sub_one_eq_mod]
  have hsum : (p.numberOfBytes.setWidth 64 + (p.address &&& (pageSize - 1)) : QWORD).toNat =
      4096 * n := by
    rw [← h, BitVec.toNat_add, BitVec.toNat_setWidth, hmask]
    lia
  unfold Whole at h
  have hsize : p.alignedSize.toNat / 4096 = n := by
    rw [MdlTranslationPair.alignedSize, alignAddressUpper_toNat (k := 12) rfl, hsum,
      show pageSize.toNat = 4096 from rfl]
    lia
  rw [MdlTranslationPair.frames, hsize]

private theorem Whole.addPage (h : Whole p n) (hlt : p.numberOfBytes.toNat + 4096 < 2 ^ 32) :
    Whole p.addPage (n + 1) := by
  have hpage : (0x1000 : DWORD).toNat = 4096 := rfl
  unfold Whole MdlTranslationPair.addPage at *
  dsimp only
  rw [BitVec.toNat_add, hpage]
  lia

/-- The page behind a pair is one more of its pages. -/
private theorem Whole.frames_addPage (h : Whole p n) (hlt : p.numberOfBytes.toNat + 4096 < 2 ^ 32)
    {pa : QWORD} (hpa : p.endsAt pa) : p.addPage.frames = p.frames ++ [pa] := by
  have hlast : pageAt (alignAddressLower p.address pageSize) n = pa := by
    apply BitVec.eq_of_toNat_eq
    have hplt := p.address.isLt
    have hblt := p.numberOfBytes.isLt
    unfold MdlTranslationPair.endsAt at hpa
    unfold Whole at h
    rw [← hpa, pageAt, BitVec.toNat_add, BitVec.toNat_add, alignLower_toNat, BitVec.toNat_ofNat,
      BitVec.toNat_setWidth]
    omega
  rw [(h.addPage hlt).frames, h.frames, addPage_address, List.range_succ, List.map_append,
    List.map_singleton, hlast]

private theorem whole_ofPage {pa : QWORD} (h : pa.toNat % 4096 = 0) :
    Whole (.ofPage pa) 1 ∧ (MdlTranslationPair.ofPage pa).frames = [pa] := by
  have hwhole : Whole (.ofPage pa) 1 := by
    unfold Whole
    rw [ofPage_address, ofPage_numberOfBytes, h]
  refine ⟨hwhole, ?_⟩
  have hself : alignAddressLower pa pageSize = pa := by
    apply BitVec.eq_of_toNat_eq
    rw [alignLower_toNat]
    lia
  rw [hwhole.frames, ofPage_address, hself, List.range_one, List.map_singleton, pageAt, Nat.mul_zero,
    BitVec.add_zero]

/-- Merging pairs keeps their pages. -/
theorem frames_coalesce (hcur : Whole cur n) (hpas : ∀ pa ∈ pas, pa.toNat % 4096 = 0)
    (hlt : cur.numberOfBytes.toNat + 4096 * pas.length < 2 ^ 32) :
    (coalesce cur pas).flatMap MdlTranslationPair.frames = cur.frames ++ pas := by
  induction pas generalizing cur n with
  | nil => simp [coalesce]
  | cons pa pas ih =>
    rw [List.length_cons, Nat.mul_succ, ← Nat.add_assoc] at hlt
    have hrest : ∀ pa ∈ pas, pa.toNat % 4096 = 0 := fun x hx => hpas x (List.mem_cons_of_mem pa hx)
    unfold coalesce
    split_ifs with hc
    · have hroom : cur.numberOfBytes.toNat + 4096 < 2 ^ 32 := by omega
      have hbytes : cur.addPage.numberOfBytes.toNat = cur.numberOfBytes.toNat + 4096 := by
        have hpage : (0x1000 : DWORD).toNat = 4096 := rfl
        rw [MdlTranslationPair.addPage, BitVec.toNat_add, hpage]
        lia
      rw [ih (hcur.addPage hroom) hrest (by rw [hbytes]; lia), hcur.frames_addPage hroom hc,
        List.append_assoc, List.singleton_append]
    · obtain ⟨hwhole, hframes⟩ := whole_ofPage (hpas pa List.mem_cons_self)
      have hbytes := ofPage_numberOfBytes pa
      have hroom : (MdlTranslationPair.ofPage pa).numberOfBytes.toNat + 4096 * pas.length < 2 ^ 32 := by
        rw [hbytes]
        omega
      rw [List.flatMap_cons, ih hwhole hrest hroom, hframes, List.singleton_append]

end Frames

section Mapping

variable {vmmData : VmmData} {mem mem' : PhysMemory} {pd pd' : PagingData} {base size va : QWORD}

/-- Mapping frames to pages that stay if they are mapped. -/
private theorem mmuMapMemoryInternal_frames (h : PagingInv mem pd) {pa : QWORD} {rights : DWORD}
    (hsize : size.toNat ≤ 2 ^ 48)
    (hframes : ∀ i < size.toNat / 4096, (pageAt pa i).toNat % 4096 = 0 ∧
      (pageAt pa i).toNat < 2 ^ 52)
    (hok : mmuMapMemoryInternal vmmData mem pd pa size rights base false false = .ok (mem', pd')) :
    PagingInv mem' pd' ∧ pd'.root = pd.root ∧ ∀ va, translate mem' pd.root va =
      (translate mem pd.root va).or
        ((List.range (size.toNat / 4096)).map (pageAt pa))[pageDistance base va]? := by
  obtain ⟨hinv, hroot, hlook⟩ := mmuMapMemoryInternal_lookup h hsize hok
  refine ⟨hinv, hroot, fun va => ?_⟩
  rw [translate, translate, hlook, List.getElem?_map]
  split_ifs with hin
  · rw [List.getElem?_range hin, mappedEntry]
    dsimp only
    cases lookup mem pd.root va with
    | some e => rfl
    | none =>
      obtain ⟨hal, hlt⟩ := hframes _ hin
      have haddr : (⟨pa, base, rights, false, false⟩ : MapContext).physAddr
          (pageAt base (pageDistance base va)) = pageAt pa (pageDistance base va) := by
        rw [MapContext.physAddr, pageAt, pageAt, BitVec.add_comm base, BitVec.add_sub_cancel]
      simp [mapEntry, haddr, pteGetPhysicalAddress_pteMap hal hlt]
  · rw [List.getElem?_eq_none (by rw [List.length_range]; omega), Option.map_none, Option.or_none]

private theorem frames_length (p : MdlTranslationPair) :
    p.frames.length = p.alignedSize.toNat / 4096 := by
  rw [MdlTranslationPair.frames, List.length_map, List.length_range]

/-- How far an address is from the end of a range. -/
private theorem pageDistance_add (hal : size.toNat % 4096 = 0)
    (hge : size.toNat / 4096 ≤ pageDistance base va) :
    pageDistance (base + size) va = pageDistance base va - size.toNat / 4096 := by
  have hlt := (va - base).isLt
  unfold pageDistance at *
  rw [← BitVec.sub_sub, BitVec.toNat_sub]
  lia

/-- The pages of the pairs are mapped one behind the other. -/
theorem vmmMapDescribedRegion_frames {rights : DWORD} {pairs : List MdlTranslationPair} {off : QWORD}
    (h : PagingInv mem pd)
    (hframes : ∀ pa ∈ pairs.flatMap MdlTranslationPair.frames,
      pa.toNat % 4096 = 0 ∧ pa.toNat < 2 ^ 52)
    (hok : vmmMapDescribedRegion vmmData base rights pairs off (mem, pd) = .ok (mem', pd')) :
    PagingInv mem' pd' ∧ pd'.root = pd.root ∧ ∀ va, translate mem' pd.root va =
      (translate mem pd.root va).or
        (pairs.flatMap MdlTranslationPair.frames)[pageDistance (base + off) va]? := by
  induction pairs generalizing mem pd off with
  | nil =>
    cases hok
    exact ⟨h, rfl, fun va => by simp⟩
  | cons p pairs ih =>
    obtain ⟨⟨mem₁, pd₁⟩, hmap, hrest⟩ := bind_eq_ok.mp hok
    simp only [List.flatMap_cons, List.mem_append] at hframes ⊢
    have hal : p.alignedSize.toNat % 4096 = 0 := by
      obtain ⟨_, -, hmap⟩ := bind_eq_ok.mp hmap
      obtain ⟨_, hal, -⟩ := bind_eq_ok.mp hmap
      exact aligned_iff.mp (assertThat_eq_ok.mp hal)
    have hone : ∀ i < p.alignedSize.toNat / 4096,
        (pageAt (alignAddressLower p.address pageSize) i).toNat % 4096 = 0 ∧
          (pageAt (alignAddressLower p.address pageSize) i).toNat < 2 ^ 52 := by
      intro i hi
      exact hframes _ (Or.inl (List.mem_map.mpr ⟨i, List.mem_range.mpr hi, rfl⟩))
    obtain ⟨hinv, hroot, hfirst⟩ := mmuMapMemoryInternal_frames h (alignedSize_le p) hone hmap
    obtain ⟨hinv', hroot', hmore⟩ := ih hinv (fun pa hpa => hframes pa (Or.inr hpa)) hrest
    refine ⟨hinv', hroot'.trans hroot, fun va => ?_⟩
    rw [hroot] at hmore
    rw [hmore va, hfirst va, Option.or_assoc, ← MdlTranslationPair.frames, List.getElem?_append]
    congr 1
    split_ifs with hin
    · rw [List.getElem?_eq_getElem hin, Option.some_or]
    · have hge : p.frames.length ≤ pageDistance (base + off) va := Nat.le_of_not_lt hin
      rw [List.getElem?_eq_none hge, Option.none_or, frames_length, ← BitVec.add_assoc,
        pageDistance_add hal (by rwa [frames_length] at hge)]

end Mapping

section Described

variable {mem : PhysMemory} {cr3 va : QWORD} {length : DWORD}

/-- The list that is returned for a mapped buffer has the frames of its pages, of the first one only
where the aligned size does not fit in 32 bits. -/
theorem mdlAllocateEx_frames {bKernelMemory allocated : Bool} {mdl : Mdl} (hva : va ≠ 0)
    (hlen : length ≠ 0)
    (hmapped : ∀ k < pagesOfBuffer va length, ∃ pa,
      frameAt mem (pageAt (alignAddressLower va pageSize) k) 4 (frameOf cr3) = some pa)
    (h : mdlAllocateEx mem cr3 bKernelMemory allocated va length = .ok (some mdl)) :
    let frames := (mdl.translations.take mdl.numberOfTranslationPairs.toNat).flatMap
      MdlTranslationPair.frames
    max (4096 * pagesOfBuffer va length % 2 ^ 32) 4096 = 4096 * frames.length ∧
      ∀ k pa, frames[k]? = some pa →
        frameAt mem (pageAt (alignAddressLower va pageSize) k) 4 (frameOf cr3) = some pa := by
  obtain ⟨pa, pas, haddress, hpages, hsize, -, hpairs, htranslations⟩ := mdlAllocateEx_ok h
  have hpos := pagesOfBuffer_pos va hlen
  have hlt := length.isLt
  have hoff := pageOffset_toNat va
  rw [mdlAlignedSize_toNat] at hsize
  -- the first page
  obtain ⟨first, hfirst⟩ := hmapped 0 hpos
  have hbase : pageAt (alignAddressLower va pageSize) 0 = alignAddressLower va pageSize := by
    rw [pageAt, Nat.mul_zero, BitVec.add_zero]
  have hfal := frameAt_aligned (pageAt_aligned va 0) hfirst
  have hne : alignAddressLower va pageSize ≠ 0 := by
    have hcall := haddress
    rw [mmuGetPhysicalAddressEx, if_neg hva] at hcall
    obtain ⟨x, hx, -⟩ := bind_eq_ok.mp hcall
    exact (vmmGetPhysicalAddress_ok hx).1
  have hpa : pa = first + (pageOffset va).setWidth 64 := by
    rw [hbase] at hfirst
    rw [mmuGetPhysicalAddressEx_of_frameAt hne hfirst] at haddress
    exact (Except.ok.inj haddress).symm
  have hflt := frameAt_lt hfirst
  have hpan : pa.toNat = first.toNat + va.toNat % 4096 := by
    rw [hpa, BitVec.toNat_add, BitVec.toNat_setWidth, hoff]
    lia
  -- the pages behind it
  have hrest : ∀ j x, pas[j]? = some x →
      frameAt mem (pageAt (alignAddressLower va pageSize) (j + 1)) 4 (frameOf cr3) = some x := by
    intro j x hj
    obtain ⟨hx, hcall⟩ := hpages j x hj
    have hjlt : j < pas.length := (List.getElem?_eq_some_iff.mp hj).1
    have haddr : alignAddressLower va pageSize +
        (0x1000 + BitVec.ofNat 32 (4096 * j) : DWORD).setWidth 64 =
        pageAt (alignAddressLower va pageSize) (j + 1) := by
      have hpage : (0x1000 : DWORD).toNat = 4096 := rfl
      apply BitVec.eq_of_toNat_eq
      rw [pageAt, BitVec.toNat_add, BitVec.toNat_add, BitVec.toNat_setWidth, BitVec.toNat_add,
        BitVec.toNat_ofNat, BitVec.toNat_ofNat, hpage]
      lia
    have hself := alignLower_of_aligned (pageAt_aligned va (j + 1))
    have hzero : (pageOffset (pageAt (alignAddressLower va pageSize) (j + 1))).setWidth 64 = 0#64 := by
      apply BitVec.eq_of_toNat_eq
      rw [BitVec.toNat_setWidth, pageOffset_toNat, pageAt_aligned va (j + 1)]
      rfl
    rw [haddr] at hcall
    have hnull : pageAt (alignAddressLower va pageSize) (j + 1) ≠ 0 := by
      intro h0
      rw [mmuGetPhysicalAddressEx, if_pos h0] at hcall
      exact hx (Except.ok.inj hcall).symm
    obtain ⟨f, hf⟩ := hmapped (j + 1) (by omega)
    rw [mmuGetPhysicalAddressEx_of_frameAt (by rw [hself]; exact hnull) (by rw [hself]; exact hf),
      hzero, BitVec.add_zero] at hcall
    rw [hf, Except.ok.inj hcall]
  have hbytes : (0x1000 - pageOffset va : DWORD).toNat = 4096 - va.toNat % 4096 := by
    rw [BitVec.toNat_sub, hoff, show (0x1000 : DWORD).toNat = 4096 from rfl]
    lia
  have hwhole : Whole ⟨pa, 0x1000 - pageOffset va⟩ 1 := by
    unfold Whole
    dsimp only
    rw [hbytes, hpan]
    lia
  have hpas : ∀ x ∈ pas, x.toNat % 4096 = 0 := by
    intro x hx
    obtain ⟨j, hj⟩ := List.getElem?_of_mem hx
    exact frameAt_aligned (pageAt_aligned va (j + 1)) (hrest j x hj)
  have hlower : alignAddressLower pa pageSize = first := by
    apply BitVec.eq_of_toNat_eq
    rw [alignLower_toNat, hpan]
    lia
  have hframes : (mdl.translations.take mdl.numberOfTranslationPairs.toNat).flatMap
      MdlTranslationPair.frames = first :: pas := by
    rw [hpairs, List.take_length, htranslations, frames_coalesce hwhole hpas
      (by dsimp only; rw [hbytes]; omega), hwhole.frames]
    dsimp only
    rw [hlower, List.range_one, List.map_singleton, pageAt, Nat.mul_zero, BitVec.add_zero,
      List.singleton_append]
  rw [hframes]
  refine ⟨?_, fun k x hk => ?_⟩
  · rw [hsize, List.length_cons]
    omega
  · cases k with
    | zero =>
      cases hk
      exact hfirst
    | succ k => exact hrest k x hk

end Described

section Calls

variable {env : RegionEnv} {s s' : RegionState} {allocated : Bool} {userAddress size : QWORD}
  {pageRights : DWORD} {pd : PagingData} {pointer address base : QWORD} {mdl : Mdl}

/-- A call that succeeds has a list and a region. -/
private theorem mmuGetSystemVirtualAddressForUserBuffer_ok
    (h : mmuGetSystemVirtualAddressForUserBuffer env s allocated userAddress size pageRights (some pd)
      pointer = .ok (.ok address, s')) :
    userAddress ≠ 0 ∧ size ≠ 0 ∧ size.toNat < 2 ^ 32 ∧ ∃ mdl base,
      mdlAllocateEx s.mem pd.basePhysicalAddress pd.kernelSpace allocated userAddress
        (size.setWidth 32) = .ok (some mdl) ∧
      vmmAllocRegionEx env s (aliasRequest size pageRights) (some mdl) = .ok (base, s') ∧
      base ≠ 0 ∧ address = base + (userAddress &&& (pageSize - 1)) := by
  unfold mmuGetSystemVirtualAddressForUserBuffer at h
  split_ifs at h with huser hsize hpointer
  · cases h
  · cases h
  · cases h
  obtain ⟨_, hmax, h⟩ := bind_eq_ok.mp h
  have hmax : size.toNat ≤ 2 ^ 32 - 1 := assertThat_eq_ok.mp hmax
  obtain ⟨found, hmdl, h⟩ := bind_eq_ok.mp h
  cases found with
  | none => cases h
  | some mdl =>
    obtain ⟨⟨base, s₁⟩, hregion, h⟩ := bind_eq_ok.mp h
    dsimp only at h
    split_ifs at h with hnull
    · cases h
    · cases h
      exact ⟨huser, hsize, by omega, mdl, base, hmdl, hregion, hnull, rfl⟩

private theorem aliasRegion_size (hsize : size.toNat < 2 ^ 32) :
    (aliasRegion s size pageRights).2.toNat = 4096 * ((size.toNat + 4095) / 4096) := by
  have hpad := alignPadding_lt size.toNat (show 0 < 4096 by norm_num)
  have hdvd := dvd_add_alignPadding size.toNat (show 0 < 4096 by norm_num)
  show (alignAddressUpper size pageSize).toNat = _
  rw [alignAddressUpper_toNat (k := 12) rfl, show pageSize.toNat = 4096 from rfl]
  omega

/-- A region that is returned is the one chosen, and has been mapped. -/
private theorem vmmAllocRegionEx_alias
    (h : vmmAllocRegionEx env s (aliasRequest size pageRights) (some mdl) = .ok (base, s'))
    (hbase : base ≠ 0) :
    base = (aliasRegion s size pageRights).1 ∧ base.toNat % 4096 = 0 ∧
      vmmMapDescribedRegion env.vmmData base pageRights
        (mdl.translations.take mdl.numberOfTranslationPairs.toNat) 0 (s.mem, s.pagingData) =
        .ok (s'.mem, s'.pagingData) := by
  obtain ⟨_, -, h⟩ := bind_eq_ok.mp h
  obtain ⟨_, -, h⟩ := bind_eq_ok.mp h
  obtain ⟨_, -, h⟩ := bind_eq_ok.mp h
  obtain ⟨_, -, h⟩ := bind_eq_ok.mp h
  obtain ⟨_, -, h⟩ := bind_eq_ok.mp h
  obtain ⟨⟨vaSpace, r⟩, hreserve, h⟩ := bind_eq_ok.mp h
  cases r with
  | error st =>
    cases h
    exact absurd rfl hbase
  | ok range =>
    obtain ⟨a, n⟩ := range
    have hplace := vmReservationSpaceAllocRegion_granted hreserve
    obtain ⟨_, -, h⟩ := bind_eq_ok.mp h
    have hlazy : isBooleanFlagOn (aliasRequest size pageRights).allocType vmmAllocTypeNotLazy =
        true := by
      show isBooleanFlagOn (vmmAllocTypeReserve ||| vmmAllocTypeCommit ||| vmmAllocTypeNotLazy)
        vmmAllocTypeNotLazy = true
      decide
    rw [if_pos hlazy] at h
    obtain ⟨_, -, h⟩ := bind_eq_ok.mp h
    obtain ⟨_, -, h⟩ := bind_eq_ok.mp h
    obtain ⟨_, hal, h⟩ := bind_eq_ok.mp h
    obtain ⟨⟨mem, pagingData⟩, hmap, h⟩ := bind_eq_ok.mp h
    cases h
    exact ⟨by rw [aliasRegion, hplace], aligned_iff.mp (assertThat_eq_ok.mp hal), hmap⟩

/-- What a page of the region is mapped to after the call. -/
private theorem translate_alias {frames : List QWORD} {mem' : PhysMemory} {root : BitVec 40}
    (hal : base.toNat % 4096 = 0)
    (hframes : ∀ va, translate mem' root va =
      (translate s.mem root va).or frames[pageDistance (base + 0) va]?) {q : ℕ} (hq : q < 2 ^ 36) :
    translate mem' root (pageAt base q) = (translate s.mem root (pageAt base q)).or frames[q]? := by
  rw [hframes, show base + 0 = base from BitVec.add_zero base, pageDistance_pageAt hal hq]

/-- How far a byte is from the start of the region. -/
private theorem alias_offset {k : ℕ} (hk : k < 2 ^ 32) :
    (base + (userAddress &&& (pageSize - 1)) + BitVec.ofNat 64 k - base).toNat =
      userAddress.toNat % 4096 + k := by
  rw [BitVec.add_assoc, BitVec.add_comm base, BitVec.add_sub_cancel, BitVec.toNat_add,
    BitVec.toNat_and, show (pageSize - 1 : QWORD).toNat = 2 ^ 12 - 1 from rfl,
    Nat.and_two_pow_sub_one_eq_mod, BitVec.toNat_ofNat]
  lia

/-- The byte of a page. -/
private theorem physicalByte_page (mem : PhysMemory) (root : BitVec 40) (va : QWORD) (k : ℕ) :
    physicalByte mem root (va + BitVec.ofNat 64 k) =
      (frameAt mem (pageAt (alignAddressLower va pageSize) ((va.toNat % 4096 + k) / 4096)) 4 root).map
        fun pa => pa + BitVec.ofNat 64 ((va.toNat % 4096 + k) % 4096) := by
  obtain ⟨hpage, hlow⟩ := alignLower_add va k
  rw [physicalByte, hpage, hlow]

/-- The bytes agree if and only if the pages do. -/
private theorem bytes_iff {mem mem' : PhysMemory} {root root' : BitVec 40} (hal : base.toNat % 4096 = 0)
    (hsize : size ≠ 0) (hlt : size.toNat < 2 ^ 32) :
    (∀ k < size.toNat, physicalByte mem' root'
        (base + (userAddress &&& (pageSize - 1)) + BitVec.ofNat 64 k) =
        physicalByte mem root (userAddress + BitVec.ofNat 64 k)) ↔
      ∀ q < pagesOfBuffer userAddress (size.setWidth 32),
        frameAt mem' (pageAt base q) 4 root' =
          frameAt mem (pageAt (alignAddressLower userAddress pageSize) q) 4 root := by
  have hlen : (size.setWidth 32 : DWORD).toNat = size.toNat := by
    rw [BitVec.toNat_setWidth]
    lia
  have hpos : 0 < size.toNat := by
    apply Nat.pos_of_ne_zero
    intro h0
    exact hsize (BitVec.eq_of_toNat_eq h0)
  have hkernel : ∀ k, physicalByte mem' root'
      (base + (userAddress &&& (pageSize - 1)) + BitVec.ofNat 64 k) =
      (frameAt mem' (pageAt base ((userAddress.toNat % 4096 + k) / 4096)) 4 root').map
        fun pa => pa + BitVec.ofNat 64 ((userAddress.toNat % 4096 + k) % 4096) := by
    intro k
    have hoff : userAddress &&& (pageSize - 1) = BitVec.ofNat 64 (userAddress.toNat % 4096) := by
      apply BitVec.eq_of_toNat_eq
      rw [BitVec.toNat_and, show (pageSize - 1 : QWORD).toNat = 2 ^ 12 - 1 from rfl,
        Nat.and_two_pow_sub_one_eq_mod, BitVec.toNat_ofNat]
      lia
    rw [hoff, BitVec.add_assoc, ← BitVec.ofNat_add, physicalByte_page, hal, Nat.zero_add,
      alignLower_of_aligned hal]
  have hcancel : ∀ (x y : Option QWORD) (z : QWORD),
      x.map (fun pa => pa + z) = y.map (fun pa => pa + z) ↔ x = y := fun x y z =>
    (Option.map_injective fun a b h => (BitVec.add_left_inj z).mp h).eq_iff
  unfold pagesOfBuffer
  rw [hlen]
  constructor
  · intro h q hq
    have hk := h (4096 * q - userAddress.toNat % 4096) (by lia)
    have hpage : (userAddress.toNat % 4096 + (4096 * q - userAddress.toNat % 4096)) / 4096 = q := by
      omega
    rw [hkernel, physicalByte_page, hpage] at hk
    exact (hcancel _ _ _).mp hk
  · intro h k hk
    rw [hkernel, physicalByte_page, h _ (by lia)]

/-- A call that succeeds on a mapped buffer is an alias of it exactly if the buffer fits. -/
theorem aliasesBuffer_iff (hinv : PagingInv s.mem s.pagingData)
    (hmapped : ∀ k < pagesOfBuffer userAddress (size.setWidth 32), ∃ pa,
      frameAt s.mem (pageAt (alignAddressLower userAddress pageSize) k) 4 pd.root = some pa)
    (h : mmuGetSystemVirtualAddressForUserBuffer env s allocated userAddress size pageRights (some pd)
      pointer = .ok (.ok address, s')) :
    AliasesBuffer s s' pd.root userAddress size pageRights address ↔
      FitsRegion s pd.root userAddress size pageRights := by
  obtain ⟨huser, hsize, hlt, mdl, base, hmdl, hregion, hnull, rfl⟩ :=
    mmuGetSystemVirtualAddressForUserBuffer_ok h
  obtain ⟨hbase, hal, hmap⟩ := vmmAllocRegionEx_alias hregion hnull
  have hlen : (size.setWidth 32 : DWORD).toNat = size.toNat := by
    rw [BitVec.toNat_setWidth]
    lia
  have hne : (size.setWidth 32 : DWORD) ≠ 0 := by
    intro h0
    have h0 := congrArg BitVec.toNat h0
    rw [hlen] at h0
    exact hsize (BitVec.eq_of_toNat_eq h0)
  obtain ⟨hcount, hframes⟩ := mdlAllocateEx_frames huser hne hmapped hmdl
  obtain ⟨frames, hdef⟩ : ∃ frames, frames = (mdl.translations.take
    mdl.numberOfTranslationPairs.toNat).flatMap MdlTranslationPair.frames := ⟨_, rfl⟩
  rw [← hdef] at hcount hframes
  have hgood : ∀ pa ∈ frames, pa.toNat % 4096 = 0 ∧ pa.toNat < 2 ^ 52 := by
    intro pa hpa
    obtain ⟨k, hk⟩ := List.getElem?_of_mem hpa
    have hframe := hframes k pa hk
    exact ⟨frameAt_aligned (pageAt_aligned userAddress k) hframe, frameAt_lt hframe⟩
  obtain ⟨hinv', hroot, htranslate⟩ := vmmMapDescribedRegion_frames hinv (hdef ▸ hgood) hmap
  rw [← hdef] at htranslate
  have hpage : ∀ q < 2 ^ 36, translate s'.mem s'.pagingData.root (pageAt base q) =
      (translate s.mem s.pagingData.root (pageAt base q)).or frames[q]? := by
    intro q hq
    rw [hroot]
    exact translate_alias hal htranslate hq
  have hwalk : ∀ q, frameAt s'.mem (pageAt base q) 4 s'.pagingData.root =
      translate s'.mem s'.pagingData.root (pageAt base q) := fun q =>
    frameAt_of_isTree hinv'.tree (Nat.zero_le 3) rfl
  have hbytes := @bytes_iff userAddress size base s.mem s'.mem pd.root s'.pagingData.root hal hsize hlt
  have hregionSize := @aliasRegion_size s size pageRights hlt
  have hpos : 0 < size.toNat := by
    apply Nat.pos_of_ne_zero
    intro h0
    exact hsize (BitVec.eq_of_toNat_eq h0)
  have hpages : pagesOfBuffer userAddress (size.setWidth 32) =
      (userAddress.toNat % 4096 + size.toNat + 4095) / 4096 := by
    rw [pagesOfBuffer, hlen]
  constructor
  · intro halias
    have hfits : userAddress.toNat % 4096 + size.toNat ≤ 4096 * ((size.toNat + 4095) / 4096) := by
      have hlast := halias.inside (size.toNat - 1) (by omega)
      rw [← hbase, BitVec.lt_def, alias_offset (by omega), hregionSize] at hlast
      omega
    refine ⟨hfits, fun q hq => ?_⟩
    have hq36 : q < 2 ^ 36 := by omega
    obtain ⟨pa, hpa⟩ := hmapped q hq
    have hsame := hbytes.mp halias.bytes q hq
    rw [hwalk, hpage q hq36, hpa] at hsame
    dsimp only
    rw [← hbase, hpa]
    cases hold : translate s.mem s.pagingData.root (pageAt base q) with
    | some x =>
      rw [hold, Option.some_or] at hsame
      exact Or.inl hsame
    | none =>
      rw [hold, Option.none_or] at hsame
      have hqlt := (List.getElem?_eq_some_iff.mp hsame).1
      exact Or.inr ⟨rfl, by omega⟩
  · intro hfits
    have hle := hfits.pages
    refine ⟨fun va hva => ?_, fun k hk => ?_, hbytes.mpr fun q hq => ?_⟩
    · have hchanged := htranslate va
      rw [← hroot, show base + 0 = base from BitVec.add_zero base] at hchanged
      rw [← hbase, hregionSize]
      by_contra hout
      rw [List.getElem?_eq_none (by omega), Option.or_none] at hchanged
      rw [hroot] at hva hchanged
      exact hva hchanged
    · rw [← hbase, BitVec.lt_def, alias_offset (by omega), hregionSize]
      omega
    · have hq36 : q < 2 ^ 36 := by omega
      obtain ⟨pa, hpa⟩ := hmapped q hq
      rw [hwalk, hpage q hq36]
      have hfree := hfits.free q hq
      dsimp only at hfree
      rw [← hbase, hpa] at hfree
      rw [hpa]
      obtain hkept | ⟨hnone, hlisted⟩ := hfree
      · rw [hkept, Option.some_or]
      · have hqlt : q < frames.length := by omega
        rw [hnone, Option.none_or, List.getElem?_eq_getElem hqlt]
        exact (hpa.symm.trans (hframes q _ (List.getElem?_eq_getElem hqlt))).symm

end Calls

/-- The address space of the kernel, behind 4 GB of physical memory. -/
def systemSpace : VmmReservationSpace :=
  vmReservationSpaceFinishInit ((vmReservationSpaceInit 0xFFFF800100000000 0 0x140000000
    fun _ => 0).toOption.get (by decide))

/-- The process has the table in frame 5, which maps every page to frame 5. -/
def userTables : PhysMemory := fun table _ =>
  if table = 5 then { PtEntry.zero with present := true, physicalAddress := 5 } else .zero

def userPaging : PagingData := ⟨0x5000, 16, 1, false⟩

/-- A kernel without reservations and mappings. -/
def freshKernel : RegionState :=
  ⟨⟨userTables, smallPool, fun _ => 0xFF, fun _ _ => 0⟩, systemSpace, [], []⟩

theorem freshKernel_inv : PagingInv freshKernel.mem freshKernel.pagingData :=
  pagingInv_of_emptyRoot userTables poolOk_smallPool fun _ => rfl

private theorem frameAt_userTables (va : QWORD) :
    frameAt freshKernel.mem va 4 userPaging.root = some 0x5000 := by
  have hroot : userPaging.root = 5 := by decide
  simp [hroot, freshKernel, frameAt, userTables, PtEntry.zero, pteGetPhysicalAddress,
    shiftForPhysicalAddr]

/-- A page from its middle on needs two pages: the second one is mapped behind the region, and half of
the bytes lie there. -/
theorem halfPages_not_aliased :
    PagingInv freshKernel.mem freshKernel.pagingData ∧
      ∃ s', mmuGetSystemVirtualAddressForUserBuffer noFrames freshKernel true 0x140000800 0x1000
          pageRightsWrite (some userPaging) 0xFFFF800000001000 =
          .ok (.ok 0xFFFF800240000800, s') ∧
        aliasRegion freshKernel 0x1000 pageRightsWrite = (0xFFFF800240000000, 0x1000) ∧
        translate s'.mem s'.pagingData.root 0xFFFF800240001000 = some 0x5000 ∧
        ¬ AliasesBuffer freshKernel s' userPaging.root 0x140000800 0x1000 pageRightsWrite
          0xFFFF800240000800 := by
  have hcall : ∃ s', mmuGetSystemVirtualAddressForUserBuffer noFrames freshKernel true 0x140000800
      0x1000 pageRightsWrite (some userPaging) 0xFFFF800000001000 =
        .ok (.ok 0xFFFF800240000800, s') ∧
      translate s'.mem s'.pagingData.root 0xFFFF800240001000 = some 0x5000 := ⟨_, rfl, rfl⟩
  obtain ⟨s', hok, houtside⟩ := hcall
  refine ⟨freshKernel_inv, s', hok, by decide, houtside, fun h => ?_⟩
  exact absurd (h.inside 0x800 (by decide)) (by decide)

/-- A buffer from the middle of one page to the end of the next one has an alias. -/
theorem twoPages_aliased :
    ∃ s', mmuGetSystemVirtualAddressForUserBuffer noFrames freshKernel true 0x140000010 0x1FF0
        pageRightsWrite (some userPaging) 0xFFFF800000001000 =
        .ok (.ok 0xFFFF800240000010, s') ∧
      AliasesBuffer freshKernel s' userPaging.root 0x140000010 0x1FF0 pageRightsWrite
        0xFFFF800240000010 := by
  have hcall : ∃ s', mmuGetSystemVirtualAddressForUserBuffer noFrames freshKernel true 0x140000010
      0x1FF0 pageRightsWrite (some userPaging) 0xFFFF800000001000 =
        .ok (.ok 0xFFFF800240000010, s') := ⟨_, rfl⟩
  obtain ⟨s', hok⟩ := hcall
  refine ⟨s', hok, (aliasesBuffer_iff freshKernel_inv (fun k _ => ⟨0x5000, frameAt_userTables _⟩)
    hok).mpr ⟨by decide, fun k hk => ?_⟩⟩
  have htwo : pagesOfBuffer 0x140000010 ((0x1FF0 : QWORD).setWidth 32) = 2 := by decide
  rw [htwo] at hk
  interval_cases k
  · exact Or.inr ⟨rfl, by decide⟩
  · exact Or.inr ⟨rfl, by decide⟩

end HAL9000.Paging
