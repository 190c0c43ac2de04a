import Mathlib.Tactic.Tauto
import HAL9000.Mmu.PeImage

/-! What `_MmuMapPeInMemory` leaves in the paging structures: which pages of the image are mapped, and
with which rights. -/
namespace HAL9000.Paging

/-- The entry of a page of the image. -/
def imageEntry (vmmData : VmmData) (getPhysicalAddress : QWORD → QWORD) (imageBase : QWORD)
    (kernelSpace : Bool) (k : ℕ) (rights : DWORD) : PtEntry :=
  pteMap (getPhysicalAddress (pageAt imageBase k))
    (mapFlags vmmData ⟨0, 0, rights, true, false⟩ kernelSpace)

section Run

variable {vmmData : VmmData} {getPhysicalAddress : QWORD → QWORD} {headerInfo : PeNtHeaderInfo}
  {addressToMap : QWORD} {mem : PhysMemory} {pd : PagingData}

/-- A call that goes through is not for page 0. -/
private theorem mapImagePage_ne_zero {s s' : PhysMemory × PagingData} {call : QWORD × DWORD}
    (hok : mapImagePage vmmData getPhysicalAddress headerInfo addressToMap s call = .ok s') :
    isAddressAligned (getPhysicalAddress (headerInfo.imageBase + (call.1 - addressToMap))) pageSize =
      true ∧ call.1 ≠ 0 := by
  obtain ⟨_, hpa, hok⟩ := bind_eq_ok.mp hok
  obtain ⟨_, -, hwalk⟩ := bind_eq_ok.mp hok
  have hpage := walkPages_map_ne_zero (k := 0) hwalk 0 (by decide)
  rw [pageAt] at hpage
  simp only [Nat.add_zero, Nat.mul_zero, BitVec.ofNat_eq_ofNat, BitVec.add_zero] at hpage
  exact ⟨assertThat_eq_ok.mp hpa, hpage⟩

/-- One call maps one page. -/
private theorem mapImagePage_spec (h : PagingInv mem pd) (hA : addressToMap.toNat % 4096 = 0) {k : ℕ}
    (hk : k < 2 ^ 36) (rights : DWORD)
    (hpa : isAddressAligned (getPhysicalAddress (pageAt headerInfo.imageBase k)) pageSize = true)
    (hne : pageAt addressToMap k ≠ 0) :
    (∃ mem', ∃ m ≤ 3, mapImagePage vmmData getPhysicalAddress headerInfo addressToMap (mem, pd)
        (pageAt addressToMap k, rights) = .ok (mem', pd.take m) ∧ PagingInv mem' (pd.take m) ∧
      ∀ va, lookup mem' pd.root va = if k = pageDistance addressToMap va then
          some (imageEntry vmmData getPhysicalAddress headerInfo.imageBase pd.kernelSpace k rights)
        else lookup mem pd.root va) ∨
    mapImagePage vmmData getPhysicalAddress headerInfo addressToMap (mem, pd)
        (pageAt addressToMap k, rights) = .error .assertFailed ∧
      pd.numberOfFrames.toNat < pd.currentIndex.toNat + 3 := by
  have haligned : isAddressAligned (pageAt addressToMap k) pageSize = true := by
    rw [aligned_iff, pageAt, BitVec.toNat_add, BitVec.toNat_ofNat]
    lia
  have hal := aligned_iff.mp haligned
  have hfits : (pageAt addressToMap k).toNat + pageSize.toNat ≤ 2 ^ 64 := by
    have := (pageAt addressToMap k).isLt
    rw [show pageSize.toNat = 4096 from rfl]
    omega
  have hr : PageRange (pageAt addressToMap k) pageSize :=
    ⟨hne, haligned, by decide, by decide, hfits⟩
  have hoffset : headerInfo.imageBase + (pageAt addressToMap k - addressToMap) =
      pageAt headerInfo.imageBase k := by
    rw [pageAt, pageAt, BitVec.add_comm addressToMap, BitVec.add_sub_cancel]
  rw [mapImagePage, hoffset]
  rcases @vmmMapMemoryInternal_spec _ _ _ _ vmmData h hr (by decide) _ hpa rights true false
    with ⟨mem', m, hm, hok, hinv, hlook⟩ | hfail
  · refine Or.inl ⟨mem', m, hm, hok, hinv, fun va => ?_⟩
    have hzero : pageAt (pageAt addressToMap k) 0 = pageAt addressToMap k := by
      simp [pageAt]
    have hiff : k = pageDistance addressToMap va ↔ pageDistance (pageAt addressToMap k) va = 0 := by
      have h₁ := @samePage_pageAt_iff _ va hA k
      have h₂ := @samePage_pageAt_iff _ va hal 0
      rw [hzero, Nat.zero_mod] at h₂
      rw [Nat.mod_eq_of_lt hk] at h₁
      rw [← h₁, h₂]
      exact eq_comm
    rw [hlook va]
    simp only [Nat.zero_le, true_and, Nat.zero_add]
    rw [show pageSize.toNat / 4096 = 1 from rfl]
    by_cases hd : k = pageDistance addressToMap va
    · rw [if_pos (by rw [hiff.mp hd]; exact Nat.one_pos), if_pos hd, hiff.mp hd, hzero, mappedEntry,
        if_pos rfl, mapEntry, MapContext.physAddr, BitVec.sub_self, BitVec.add_zero]
      rfl
    · rw [if_neg (fun hlt => hd (hiff.mpr (Nat.lt_one_iff.mp hlt))), if_neg hd]
  · exact Or.inr hfail

/-- The calls for some pages, one after the other. -/
private theorem mapImagePages_spec {pages : List (ℕ × DWORD)} {s' : PhysMemory × PagingData}
    (h : PagingInv mem pd) (hA : addressToMap.toNat % 4096 = 0) (hsmall : ∀ p ∈ pages, p.1 < 2 ^ 36)
    (hok : (pageCalls addressToMap pages).foldlM
      (mapImagePage vmmData getPhysicalAddress headerInfo addressToMap) (mem, pd) = .ok s') :
    PagingInv s'.1 s'.2 ∧ s'.2.root = pd.root ∧ ∀ va, lookup s'.1 pd.root va =
      ((lastRights pages (pageDistance addressToMap va)).map
        (imageEntry vmmData getPhysicalAddress headerInfo.imageBase pd.kernelSpace
          (pageDistance addressToMap va))).or (lookup mem pd.root va) := by
  induction pages generalizing mem pd with
  | nil =>
    cases hok
    exact ⟨h, rfl, fun va => by simp [lastRights]⟩
  | cons p pages ih =>
    have hk := hsmall p List.mem_cons_self
    obtain ⟨s₁, hfirst, hrest⟩ := bind_eq_ok.mp hok
    obtain ⟨hpa, hne⟩ := mapImagePage_ne_zero hfirst
    have hoffset : headerInfo.imageBase + (pageAt addressToMap p.1 - addressToMap) =
        pageAt headerInfo.imageBase p.1 := by
      rw [pageAt, pageAt, BitVec.add_comm addressToMap, BitVec.add_sub_cancel]
    rw [hoffset] at hpa
    rcases @mapImagePage_spec vmmData _ _ _ _ _ h hA _ hk p.2 hpa hne
      with ⟨mem₁, m, -, hspec, hinv, hlook⟩ | ⟨herr, -⟩
    · rw [hspec] at hfirst
      obtain rfl := Except.ok.inj hfirst
      obtain ⟨hinv', hroot, hlook'⟩ := ih hinv (fun q hq => hsmall q (List.mem_cons_of_mem p hq)) hrest
      refine ⟨hinv', hroot, fun va => ?_⟩
      have hlook' := hlook' va
      rw [show (pd.take m).root = pd.root from rfl,
        show (pd.take m).kernelSpace = pd.kernelSpace from rfl, hlook va] at hlook'
      rw [hlook', lastRights]
      cases lastRights pages (pageDistance addressToMap va) with
      | some r => rfl
      | none =>
        split_ifs with hd
        · simp [← hd]
        · simp
    · rw [herr] at hfirst
      cases hfirst

/-- The calls go through if three frames are left for each page. -/
private theorem mapImagePages_ok {pages : List (ℕ × DWORD)} (h : PagingInv mem pd)
    (hA : addressToMap.toNat % 4096 = 0) (hsmall : ∀ p ∈ pages, p.1 < 2 ^ 36)
    (hpages : ∀ p ∈ pages, isAddressAligned
      (getPhysicalAddress (pageAt headerInfo.imageBase p.1)) pageSize = true ∧
        pageAt addressToMap p.1 ≠ 0)
    (hpool : pd.currentIndex.toNat + 3 * pages.length ≤ pd.numberOfFrames.toNat) :
    ∃ s', (pageCalls addressToMap pages).foldlM
      (mapImagePage vmmData getPhysicalAddress headerInfo addressToMap) (mem, pd) = .ok s' := by
  induction pages generalizing mem pd with
  | nil => exact ⟨_, rfl⟩
  | cons p pages ih =>
    obtain ⟨hpa, hne⟩ := hpages p List.mem_cons_self
    rw [List.length_cons] at hpool
    rcases @mapImagePage_spec vmmData _ _ _ _ _ h hA _ (hsmall p List.mem_cons_self) p.2 hpa hne
      with ⟨mem₁, m, hm, hspec, hinv, -⟩ | ⟨-, hfew⟩
    · have hcurrent := take_current_le pd m
      have hpool : (pd.take m).currentIndex.toNat + 3 * pages.length ≤ pd.numberOfFrames.toNat := by
        lia
      obtain ⟨s', hrest⟩ := ih hinv (fun q hq => hsmall q (List.mem_cons_of_mem p hq))
        (fun q hq => hpages q (List.mem_cons_of_mem p hq)) hpool
      exact ⟨s', bind_eq_ok.mpr ⟨_, hspec, hrest⟩⟩
    · omega

private theorem mapImagePages_ne_zero {calls : PageCalls} {s s' : PhysMemory × PagingData}
    (hok : calls.foldlM (mapImagePage vmmData getPhysicalAddress headerInfo addressToMap) s = .ok s') :
    ∀ call ∈ calls, call.1 ≠ 0 := by
  induction calls generalizing s with
  | nil => simp
  | cons call calls ih =>
    obtain ⟨s₁, hfirst, hrest⟩ := bind_eq_ok.mp hok
    intro c hc
    rcases List.mem_cons.mp hc with rfl | hc
    · exact (mapImagePage_ne_zero hfirst).2
    · exact ih hrest c hc

/-- What a successful call leaves: the entries of the pages it mapped, and all others as they were. -/
theorem mmuMapPeInMemory_spec {s' : PhysMemory × PagingData} (h : PagingInv mem pd)
    (hc : headerInfo.Contiguous)
    (hfits : addressToMap.toNat + headerInfo.sectionStart headerInfo.numberOfSections.toNat + 4096 <
      2 ^ 64)
    (hok : mmuMapPeInMemory vmmData getPhysicalAddress mem pd headerInfo addressToMap =
      .ok (.success, s')) :
    (∀ i < headerInfo.numberOfSections.toNat,
        isBooleanFlagOn (headerInfo.rights i) (pageRightsWrite ||| pageRightsExecute) = false) ∧
      PagingInv s'.1 s'.2 ∧ s'.2.root = pd.root ∧
      ∃ pages, MapsReached headerInfo pages ∧ ∀ k < 2 ^ 36,
        lookup s'.1 pd.root (pageAt addressToMap k) = ((lastRights pages k).map
          (imageEntry vmmData getPhysicalAddress headerInfo.imageBase pd.kernelSpace k)).or
            (lookup mem pd.root (pageAt addressToMap k)) := by
  obtain ⟨⟨status, calls⟩, hcalls, hrun⟩ := bind_eq_ok.mp hok
  obtain ⟨s₁, hrun, hret⟩ := bind_eq_ok.mp hrun
  cases hret
  obtain ⟨hA, hrights, hnull | ⟨pages, rfl, hreached⟩⟩ := peMapCalls_spec hc hfits hcalls
  · obtain ⟨rights, hmem⟩ := hnull
    exact absurd rfl (mapImagePages_ne_zero hrun _ hmem)
  · obtain ⟨hinv, hroot, hlook⟩ := mapImagePages_spec h hA hreached.small hrun
    refine ⟨hrights, hinv, hroot, pages, hreached, fun k hk => ?_⟩
    have hdist : pageDistance addressToMap (pageAt addressToMap k) = k := by
      rw [← (samePage_pageAt_iff hA k).mp (SamePage.refl _), Nat.mod_eq_of_lt hk]
    rw [hlook, hdist]

end Run

section Rights

variable {headerInfo : PeNtHeaderInfo}

theorem isBooleanFlagOn_iff {x f : DWORD} :
    isBooleanFlagOn x f = true ↔ ∀ n, f.getLsbD n = true → x.getLsbD n = true := by
  rw [isBooleanFlagOn, beq_iff_eq]
  constructor
  · intro h n hn
    rw [← h, BitVec.getLsbD_and] at hn
    exact (Bool.and_eq_true_iff.mp hn).1
  · intro h
    apply BitVec.eq_of_getLsbD_eq
    intro n _
    rw [BitVec.getLsbD_and]
    cases hf : f.getLsbD n with
    | false => rw [Bool.and_false]
    | true => rw [h n hf, Bool.and_true]

theorem isBooleanFlagOn_self (x : DWORD) : isBooleanFlagOn x x = true :=
  isBooleanFlagOn_iff.mpr fun _ h => h

theorem isBooleanFlagOn_trans {x y z : DWORD} (h : isBooleanFlagOn x y = true)
    (h' : isBooleanFlagOn y z = true) : isBooleanFlagOn x z = true :=
  isBooleanFlagOn_iff.mpr fun n hn => isBooleanFlagOn_iff.mp h n (isBooleanFlagOn_iff.mp h' n hn)

theorem isBooleanFlagOn_or_left (x y : DWORD) : isBooleanFlagOn (x ||| y) x = true :=
  isBooleanFlagOn_iff.mpr fun n hn => by rw [BitVec.getLsbD_or, hn, Bool.true_or]

theorem isBooleanFlagOn_or_right (x y : DWORD) : isBooleanFlagOn (x ||| y) y = true :=
  isBooleanFlagOn_iff.mpr fun n hn => by rw [BitVec.getLsbD_or, hn, Bool.or_true]

/-- The rights held back include those of every section after which no page was filled. -/
theorem pendingRights_covers {i m : ℕ} (hm : m < i)
    (hsame : headerInfo.mappedStart (m + 1) / 4096 = headerInfo.mappedStart i / 4096) :
    isBooleanFlagOn (headerInfo.pendingRights i) (headerInfo.rights m) = true := by
  induction i with
  | zero => exact absurd hm (Nat.not_lt_zero m)
  | succ i ih =>
    rw [PeNtHeaderInfo.pendingRights]
    by_cases hmi : m = i
    · rw [hmi]
      split_ifs
      · exact isBooleanFlagOn_or_right _ _
      · exact isBooleanFlagOn_self _
    · have hlow : headerInfo.mappedStart (m + 1) ≤ headerInfo.mappedStart i :=
        mappedStart_mono (by omega)
      have hhigh : headerInfo.mappedStart i ≤ headerInfo.mappedStart (i + 1) :=
        mappedStart_mono (Nat.le_succ i)
      rw [if_pos (by lia)]
      exact isBooleanFlagOn_trans (isBooleanFlagOn_or_left _ _) (ih (by omega) (by lia))

/-- A mapped page has the rights of every section that intersects it. -/
theorem lastRights_covers {pages : List (ℕ × DWORD)} {k i : ℕ} {r : DWORD}
    (hc : headerInfo.Contiguous) (h : MapsReached headerInfo pages) (hr : lastRights pages k = some r)
    (hi : i < headerInfo.numberOfSections.toNat) (hk : headerInfo.Intersects i k) :
    isBooleanFlagOn r (headerInfo.rights i) = true := by
  obtain ⟨b, hlow, hhigh, hb⟩ := hk
  have hstart := mappedStart_eq hc hi
  have hmono : ∀ {l m}, l ≤ m → headerInfo.mappedStart l ≤ headerInfo.mappedStart m :=
    fun h => mappedStart_mono h
  rcases h.rights k r hr with hmapped | ⟨rfl, hlast, j, hj, hkj, hfill, hnext⟩
  · rcases mappedRights_eq_some hmapped with ⟨hhead, -⟩ | ⟨j, hj, hjk, hkj, rfl⟩
    · have h0 : headerInfo.mappedStart 0 ≤ headerInfo.mappedStart i := hmono (Nat.zero_le i)
      have : headerInfo.mappedStart 0 = headerInfo.sizeOfHeaders.toNat := rfl
      lia
    · have hij : i ≤ j := by
        by_contra hgt
        have : headerInfo.mappedStart (j + 1) ≤ headerInfo.mappedStart i := hmono (by omega)
        lia
      rcases mappedStart_succ_cases hc hi with hend | ⟨hn, hz, -⟩
      · rw [← hend] at hhigh
        by_cases heq : i = j
        · rw [heq]
          split_ifs
          · exact isBooleanFlagOn_or_right _ _
          · exact isBooleanFlagOn_self _
        · have : headerInfo.mappedStart (i + 1) ≤ headerInfo.mappedStart j := hmono (by omega)
          rw [if_pos (by lia)]
          exact isBooleanFlagOn_trans (isBooleanFlagOn_or_left _ _)
            (pendingRights_covers (by omega) (by lia))
      · obtain rfl : i = j := by omega
        have : headerInfo.mappedStart (i + 1) = headerInfo.mappedStart i := by
          rw [PeNtHeaderInfo.mappedStart, hz]
          rfl
        lia
  · have hend : headerInfo.mappedStart (i + 1) = headerInfo.sectionStart (i + 1) := by
      rcases mappedStart_succ_cases hc hi with hend | ⟨hn, hz, -⟩
      · exact hend
      · rw [← hn, Nat.add_sub_cancel] at hlast
        exact absurd hz hlast
    have hji : j ≤ i := by
      by_contra hgt
      have : headerInfo.mappedStart (i + 1) ≤ headerInfo.mappedStart j := hmono (by omega)
      lia
    have hjn : headerInfo.mappedStart (j + 1) ≤ headerInfo.mappedStart (i + 1) := hmono (by omega)
    have hin : headerInfo.mappedStart (i + 1) ≤
        headerInfo.mappedStart headerInfo.numberOfSections.toNat := hmono (by omega)
    exact pendingRights_covers hi (by lia)

end Rights

/-- The entry lets the accesses through that the rights allow. -/
def PtEntry.CoversRights (e : PtEntry) (rights : DWORD) : Prop :=
  (isBooleanFlagOn rights pageRightsWrite = true → e.readWrite = true) ∧
    (isBooleanFlagOn rights pageRightsExecute = true → e.xd = false)

section Coverage

variable {vmmData : VmmData} {getPhysicalAddress : QWORD → QWORD} {headerInfo : PeNtHeaderInfo}
  {addressToMap : QWORD} {mem : PhysMemory} {pd : PagingData}

/-- Page `k` of the image is mapped to the frame of the page of `ImageBase`, with the rights of every
section that intersects it. -/
def MapsImagePage (getPhysicalAddress : QWORD → QWORD) (headerInfo : PeNtHeaderInfo)
    (addressToMap : QWORD) (mem : PhysMemory) (root : BitVec 40) (k : ℕ) : Prop :=
  ∃ e, lookup mem root (pageAt addressToMap k) = some e ∧
    e.physicalAddress = frameOf (getPhysicalAddress (pageAt headerInfo.imageBase k)) ∧
    ∀ i < headerInfo.numberOfSections.toNat, headerInfo.Intersects i k →
      e.CoversRights (headerInfo.rights i)

private theorem imageEntry_covers {kernelSpace : Bool} {k : ℕ} {r rights : DWORD}
    (h : isBooleanFlagOn r rights = true) :
    (imageEntry vmmData getPhysicalAddress headerInfo.imageBase kernelSpace k r).CoversRights
      rights := by
  refine ⟨fun hw => ?_, fun hx => ?_⟩
  · exact isBooleanFlagOn_trans h hw
  · show (!isBooleanFlagOn r pageRightsExecute) = false
    rw [isBooleanFlagOn_trans h hx]
    rfl

theorem imagePage_small (hc : headerInfo.Contiguous) {k : ℕ} (h : headerInfo.ImagePage k) :
    k < 2 ^ 36 := by
  rcases h with ⟨b, hb, hk⟩ | ⟨i, hi, b, -, hb, hk⟩
  · have := headerInfo.sizeOfHeaders.isLt
    lia
  · have hlt := (headerInfo.sections i).virtualAddress.isLt
    have hle := roundedSize_le hc i
    rw [hc.starts i hi] at hlt
    rw [PeNtHeaderInfo.sectionStart] at hb
    lia

/-- After a successful call every page of the image is mapped as it should be exactly when the call
reached the page or it was mapped so before. -/
theorem mmuMapPeInMemory_covers_iff {mem' : PhysMemory} {pd' : PagingData} (h : PagingInv mem pd)
    (hc : headerInfo.Contiguous)
    (hfits : addressToMap.toNat + headerInfo.sectionStart headerInfo.numberOfSections.toNat + 4096 <
      2 ^ 64)
    (hok : mmuMapPeInMemory vmmData getPhysicalAddress mem pd headerInfo addressToMap =
      .ok (.success, mem', pd')) :
    (∀ k, headerInfo.ImagePage k →
        MapsImagePage getPhysicalAddress headerInfo addressToMap mem' pd'.root k) ↔
      ∀ k, headerInfo.ImagePage k → headerInfo.Reached k ∨
        MapsImagePage getPhysicalAddress headerInfo addressToMap mem pd.root k := by
  obtain ⟨-, -, hroot, pages, hreached, hlook⟩ := mmuMapPeInMemory_spec h hc hfits hok
  have hlook := fun k hk => hlook k (imagePage_small hc hk)
  rw [show pd'.root = pd.root from hroot]
  refine forall_congr' fun k => forall_congr' fun hk => ?_
  rw [← hreached.reached k hk]
  cases hr : lastRights pages k with
  | none =>
    have hsame : lookup mem' pd.root (pageAt addressToMap k) =
        lookup mem pd.root (pageAt addressToMap k) := by
      simpa [hr] using hlook k hk
    simp [MapsImagePage, hsame]
  | some r =>
    refine iff_of_true ⟨imageEntry vmmData getPhysicalAddress headerInfo.imageBase pd.kernelSpace k r,
      ?_, pteMap_physicalAddress _ _, fun i hi hik => ?_⟩ (Or.inl rfl)
    · simpa [hr] using hlook k hk
    · exact imageEntry_covers (lastRights_covers hc hreached hr hi hik)

end Coverage

/-- The entry lets exactly the accesses through that the rights allow. -/
def PtEntry.HasRights (e : PtEntry) (rights : DWORD) : Prop :=
  e.readWrite = isBooleanFlagOn rights pageRightsWrite ∧
    e.xd = !isBooleanFlagOn rights pageRightsExecute

def PageHasRights (addressToMap : QWORD) (mem : PhysMemory) (root : BitVec 40) (k : ℕ)
    (rights : DWORD) : Prop :=
  ∃ e, lookup mem root (pageAt addressToMap k) = some e ∧ e.HasRights rights

/-- No write or execute right is in the first rights only. -/
def RightsWithin (rights rights' : DWORD) : Prop :=
  (isBooleanFlagOn rights pageRightsWrite = true →
    isBooleanFlagOn rights' pageRightsWrite = true) ∧
    (isBooleanFlagOn rights pageRightsExecute = true →
      isBooleanFlagOn rights' pageRightsExecute = true)

/-- Every page of the image has the rights of the section, or of the headers, it belongs to. -/
structure ExactRights (headerInfo : PeNtHeaderInfo) (addressToMap : QWORD) (mem : PhysMemory)
    (root : BitVec 40) : Prop where
  headers : ∀ k < headerInfo.sizeOfHeaders.toNat / 4096,
    PageHasRights addressToMap mem root k pageRightsRead
  sections : ∀ i < headerInfo.numberOfSections.toNat, ∀ k, headerInfo.Intersects i k →
    PageHasRights addressToMap mem root k (headerInfo.rights i)
  notWritableCode : ∀ k, headerInfo.ImagePage k → ∀ e,
    lookup mem root (pageAt addressToMap k) = some e → ¬ (e.readWrite = true ∧ e.xd = false)

/-- No section that is not empty comes after one with rights that it lacks, when only empty sections
are between them. -/
def PeNtHeaderInfo.RightsKept (headerInfo : PeNtHeaderInfo) : Prop :=
  ∀ i < headerInfo.numberOfSections.toNat, headerInfo.mappedSize i ≠ 0 → ∀ j < i,
    (∀ l, j < l → l < i → headerInfo.mappedSize l = 0) →
      RightsWithin (headerInfo.rights j) (headerInfo.rights i)

section Exact

variable {vmmData : VmmData} {getPhysicalAddress : QWORD → QWORD} {headerInfo : PeNtHeaderInfo}
  {addressToMap : QWORD} {mem : PhysMemory} {pd : PagingData}

private theorem flag_or {f : DWORD} {b : ℕ} (hf : f = BitVec.ofNat 32 (2 ^ b)) (x y : DWORD) :
    isBooleanFlagOn (x ||| y) f = true ↔ isBooleanFlagOn x f = true ∨ isBooleanFlagOn y f = true := by
  have hbit : ∀ n, f.getLsbD n = true → n = b := by
    intro n hn
    rw [hf, BitVec.getLsbD_ofNat, Bool.and_eq_true_iff, Nat.testBit_two_pow] at hn
    exact (of_decide_eq_true hn.2).symm
  simp only [isBooleanFlagOn_iff, BitVec.getLsbD_or, Bool.or_eq_true_iff]
  constructor
  · intro h
    by_cases hfb : f.getLsbD b = true
    · rcases h b hfb with hx | hy
      · exact Or.inl fun n hn => by rw [hbit n hn]; exact hx
      · exact Or.inr fun n hn => by rw [hbit n hn]; exact hy
    · exact Or.inl fun n hn => absurd (hbit n hn ▸ hn) hfb
  · intro h n hn
    exact h.imp (fun hx => hx n hn) (fun hy => hy n hn)

private theorem write_or (x y : DWORD) : isBooleanFlagOn (x ||| y) pageRightsWrite = true ↔
    isBooleanFlagOn x pageRightsWrite = true ∨ isBooleanFlagOn y pageRightsWrite = true :=
  flag_or (b := 0) rfl x y

private theorem execute_or (x y : DWORD) : isBooleanFlagOn (x ||| y) pageRightsExecute = true ↔
    isBooleanFlagOn x pageRightsExecute = true ∨ isBooleanFlagOn y pageRightsExecute = true :=
  flag_or (b := 1) rfl x y

theorem rightsWithin_or {x y z : DWORD} :
    RightsWithin (x ||| y) z ↔ RightsWithin x z ∧ RightsWithin y z := by
  simp only [RightsWithin, write_or, execute_or, or_imp]
  tauto

/-- Rights are added to those of an entry unless the entry has them already. -/
private theorem imageEntry_or_hasRights {kernelSpace : Bool} {k : ℕ} {r rights : DWORD} :
    (imageEntry vmmData getPhysicalAddress headerInfo.imageBase kernelSpace k
      (r ||| rights)).HasRights rights ↔ RightsWithin r rights := by
  have hw : isBooleanFlagOn (r ||| rights) pageRightsWrite = isBooleanFlagOn rights pageRightsWrite ↔
      (isBooleanFlagOn r pageRightsWrite = true → isBooleanFlagOn rights pageRightsWrite = true) := by
    rw [Bool.eq_iff_iff, write_or]
    tauto
  have hx : isBooleanFlagOn (r ||| rights) pageRightsExecute =
      isBooleanFlagOn rights pageRightsExecute ↔ (isBooleanFlagOn r pageRightsExecute = true →
        isBooleanFlagOn rights pageRightsExecute = true) := by
    rw [Bool.eq_iff_iff, execute_or]
    tauto
  rw [RightsWithin, ← hw, ← hx, ← Bool.not_inj_iff (y := isBooleanFlagOn rights pageRightsExecute)]
  rfl

/-- On whole pages the rights held back are those of the last section that is not empty and of the
empty ones after it. -/
private theorem pendingRights_within {i : ℕ} {rights : DWORD}
    (hwhole : ∀ l, headerInfo.mappedStart l % 4096 = 0) :
    RightsWithin (headerInfo.pendingRights i) rights ↔ ∀ j < i,
      (∀ l, j < l → l < i → headerInfo.mappedSize l = 0) →
        RightsWithin (headerInfo.rights j) rights := by
  induction i with
  | zero =>
    refine iff_of_true ⟨fun h => ?_, fun h => ?_⟩ fun j hj => absurd hj (Nat.not_lt_zero j)
    · rw [PeNtHeaderInfo.pendingRights] at h
      exact absurd h (by decide)
    · rw [PeNtHeaderInfo.pendingRights] at h
      exact absurd h (by decide)
  | succ i ih =>
    have hnext : headerInfo.mappedStart (i + 1) =
        headerInfo.mappedStart i + (headerInfo.mappedSize i).toNat := rfl
    have h0 := hwhole i
    have h1 := hwhole (i + 1)
    have hzero : headerInfo.mappedStart (i + 1) / 4096 = headerInfo.mappedStart i / 4096 ↔
        headerInfo.mappedSize i = 0 := by
      rw [← BitVec.toNat_inj, show (0 : DWORD).toNat = 0 from rfl]
      lia
    rw [PeNtHeaderInfo.pendingRights]
    by_cases hs : headerInfo.mappedSize i = 0
    · rw [if_pos (hzero.mpr hs), rightsWithin_or, ih]
      constructor
      · intro h j hj hempty
        by_cases hji : j = i
        · rw [hji]
          exact h.2
        · exact h.1 j (by omega) fun l hl hli => hempty l hl (by omega)
      · intro h
        refine ⟨fun j hj hempty => h j (by omega) fun l hl hli => ?_, h i (by omega) fun l hl hli => ?_⟩
        · by_cases hlast : l = i
          · rw [hlast, hs]
          · exact hempty l hl (by omega)
        · omega
    · rw [if_neg fun h => hs (hzero.mp h)]
      constructor
      · intro h j hj hempty
        by_cases hji : j = i
        · rw [hji]
          exact h
        · exact absurd (hempty i (by omega) (Nat.lt_succ_self i)) hs
      · exact fun h => h i (Nat.lt_succ_self i) fun l hl hli => absurd hl (by omega)

/-- The headers and the sections consist of whole pages. -/
structure PeNtHeaderInfo.WholePages (headerInfo : PeNtHeaderInfo) : Prop where
  headers : headerInfo.sizeOfHeaders.toNat % 4096 = 0
  alignment : headerInfo.imageAlignment.toNat % 4096 = 0

private theorem WholePages.roundedSize (hc : headerInfo.Contiguous) (h : headerInfo.WholePages)
    (i : ℕ) : headerInfo.roundedSize i % 4096 = 0 := by
  obtain ⟨e, he⟩ := hc.alignment
  have hpos : 0 < headerInfo.imageAlignment.toNat := by
    rw [he]
    exact Nat.two_pow_pos e
  have hdvd := dvd_add_alignPadding (headerInfo.sections i).virtualSize.toNat hpos
  exact Nat.mod_eq_zero_of_dvd ((Nat.dvd_of_mod_eq_zero h.alignment).trans hdvd)

private theorem WholePages.mappedStart (hc : headerInfo.Contiguous) (h : headerInfo.WholePages)
    (i : ℕ) : headerInfo.mappedStart i % 4096 = 0 := by
  induction i with
  | zero => exact h.headers
  | succ i ih =>
    have hr := WholePages.roundedSize hc h i
    have hs := mappedSize_toNat hc i
    rw [PeNtHeaderInfo.mappedStart]
    lia

/-- On whole pages a page is mapped with the rights of its section, and the first page of a section
with those held back as well. -/
private theorem lastRights_of_wholePages {pages : List (ℕ × DWORD)} {i k : ℕ} {r : DWORD}
    (hc : headerInfo.Contiguous) (hw : headerInfo.WholePages) (h : MapsReached headerInfo pages)
    (hr : lastRights pages k = some r) (hi : i < headerInfo.numberOfSections.toNat)
    (hlow : headerInfo.mappedStart i / 4096 ≤ k) (hhigh : k < headerInfo.mappedStart (i + 1) / 4096) :
    r = if k = headerInfo.mappedStart i / 4096 then
      headerInfo.pendingRights i ||| headerInfo.rights i else headerInfo.rights i := by
  have hmono : ∀ {l m}, l ≤ m → headerInfo.mappedStart l ≤ headerInfo.mappedStart m :=
    fun h => mappedStart_mono h
  have hunique : ∀ j, headerInfo.mappedStart j / 4096 ≤ k →
      k < headerInfo.mappedStart (j + 1) / 4096 → j = i := by
    intro j hj hj'
    rcases Nat.lt_trichotomy j i with hlt | heq | hgt
    · have : headerInfo.mappedStart (j + 1) ≤ headerInfo.mappedStart i := hmono (by omega)
      lia
    · exact heq
    · have : headerInfo.mappedStart (i + 1) ≤ headerInfo.mappedStart j := hmono (by omega)
      lia
  rcases h.rights k r hr with hmapped | ⟨rfl, hlast, j, hj, hkj, hfill, hnext⟩
  · rcases mappedRights_eq_some hmapped with ⟨hhead, -⟩ | ⟨j, hj, hjk, hkj, rfl⟩
    · have h0 : headerInfo.mappedStart 0 ≤ headerInfo.mappedStart i := hmono (Nat.zero_le i)
      have : headerInfo.mappedStart 0 = headerInfo.sizeOfHeaders.toNat := rfl
      lia
    · rw [hunique j hjk hkj]
  · obtain ⟨l, hl⟩ : ∃ l, headerInfo.numberOfSections.toNat = l + 1 :=
      ⟨headerInfo.numberOfSections.toNat - 1, by lia⟩
    rw [hl, Nat.add_sub_cancel] at hlast
    have hlastNat : (headerInfo.mappedSize l).toNat ≠ 0 := fun h0 =>
      hlast (BitVec.eq_of_toNat_eq h0)
    have hend : headerInfo.mappedStart (l + 1) =
        headerInfo.mappedStart l + (headerInfo.mappedSize l).toNat := rfl
    have hl0 := WholePages.mappedStart hc hw l
    have hl1 := WholePages.mappedStart hc hw (l + 1)
    rw [hl] at hnext hj
    have hjl : j = l := by
      by_contra hne
      have : headerInfo.mappedStart (j + 1) ≤ headerInfo.mappedStart l := hmono (by lia)
      lia
    have hil : i = l := by
      by_contra hne
      have : headerInfo.mappedStart (i + 1) ≤ headerInfo.mappedStart l := hmono (by lia)
      rw [hjl] at hkj
      lia
    rw [hl, PeNtHeaderInfo.pendingRights, if_neg (by lia), hil, if_neg (by rw [hkj, hjl]; omega)]

variable {mem' : PhysMemory} {root : BitVec 40} {pages : List (ℕ × DWORD)} {i k : ℕ} {r rights : DWORD}

private theorem pageHasRights_of_some (hlook : lookup mem' root (pageAt addressToMap k) =
      ((lastRights pages k).map (imageEntry vmmData getPhysicalAddress headerInfo.imageBase
        pd.kernelSpace k)).or (lookup mem root (pageAt addressToMap k)))
    (hr : lastRights pages k = some r) :
    PageHasRights addressToMap mem' root k rights ↔ (imageEntry vmmData getPhysicalAddress
      headerInfo.imageBase pd.kernelSpace k r).HasRights rights := by
  rw [hr, Option.map_some, Option.some_or] at hlook
  simp [PageHasRights, hlook]

private theorem pageHasRights_of_none (hlook : lookup mem' root (pageAt addressToMap k) =
      ((lastRights pages k).map (imageEntry vmmData getPhysicalAddress headerInfo.imageBase
        pd.kernelSpace k)).or (lookup mem root (pageAt addressToMap k)))
    (hr : lastRights pages k = none) :
    PageHasRights addressToMap mem' root k rights ↔ PageHasRights addressToMap mem root k rights := by
  rw [hr, Option.map_none, Option.none_or] at hlook
  rw [PageHasRights, PageHasRights, hlook]

/-- The pages of the headers are mapped for reading, but for the last one. -/
private theorem header_pageHasRights (h : MapsReached headerInfo pages)
    (hw : headerInfo.WholePages) (hlook : ∀ k < 2 ^ 36, lookup mem' root (pageAt addressToMap k) =
      ((lastRights pages k).map (imageEntry vmmData getPhysicalAddress headerInfo.imageBase
        pd.kernelSpace k)).or (lookup mem root (pageAt addressToMap k)))
    (hk : k < headerInfo.sizeOfHeaders.toNat / 4096) :
    PageHasRights addressToMap mem' root k pageRightsRead ↔
      (k = headerInfo.sizeOfHeaders.toNat / 4096 - 1 →
        PageHasRights addressToMap mem root k pageRightsRead) := by
  have hlt := headerInfo.sizeOfHeaders.isLt
  have himage : headerInfo.ImagePage k := Or.inl ⟨4096 * k, by omega, by omega⟩
  have hlook := hlook k (by omega)
  have hreached := h.reached k himage
  have hheaders := hw.headers
  by_cases hlast : k = headerInfo.sizeOfHeaders.toNat / 4096 - 1
  · have hnone : lastRights pages k = none := by
      rw [← Option.not_isSome_iff_eq_none, hreached, PeNtHeaderInfo.Reached]
      lia
    rw [pageHasRights_of_none hlook hnone]
    exact ⟨fun h _ => h, fun h => h hlast⟩
  · have hsome : (lastRights pages k).isSome := hreached.mpr (Or.inl (by lia))
    obtain ⟨r, hr⟩ := Option.isSome_iff_exists.mp hsome
    have h0 : ∀ j, headerInfo.mappedStart 0 ≤ headerInfo.mappedStart j := fun j =>
      mappedStart_mono (Nat.zero_le j)
    have hhead : headerInfo.mappedStart 0 = headerInfo.sizeOfHeaders.toNat := rfl
    have hread : r = pageRightsRead := by
      rcases h.rights k r hr with hmapped | ⟨-, -, j, -, hkj, -⟩
      · rcases mappedRights_eq_some hmapped with ⟨-, hread⟩ | ⟨j, -, hjk, -⟩
        · exact hread
        · have := h0 j
          lia
      · have := h0 j
        lia
    rw [pageHasRights_of_some hlook hr, hread]
    exact iff_of_true ⟨rfl, rfl⟩ fun h => absurd h hlast

/-- The pages of a section are mapped with its rights, the first one if the rights held back are among
them. -/
private theorem section_pageHasRights (h : MapsReached headerInfo pages) (hc : headerInfo.Contiguous)
    (hw : headerInfo.WholePages) (hlook : ∀ k < 2 ^ 36, lookup mem' root (pageAt addressToMap k) =
      ((lastRights pages k).map (imageEntry vmmData getPhysicalAddress headerInfo.imageBase
        pd.kernelSpace k)).or (lookup mem root (pageAt addressToMap k)))
    (hi : i < headerInfo.numberOfSections.toNat) (hk : headerInfo.Intersects i k) :
    PageHasRights addressToMap mem' root k (headerInfo.rights i) ↔
      if headerInfo.roundedSize i = 2 ^ 32 then
        PageHasRights addressToMap mem root k (headerInfo.rights i)
      else k = headerInfo.mappedStart i / 4096 →
        RightsWithin (headerInfo.pendingRights i) (headerInfo.rights i) := by
  have himage : headerInfo.ImagePage k := Or.inr ⟨i, hi, hk⟩
  have hlook := hlook k (imagePage_small hc himage)
  have hreached := h.reached k himage
  obtain ⟨b, hlow, hhigh, hb⟩ := hk
  have hstart := mappedStart_eq hc hi
  have h0 : headerInfo.mappedStart 0 ≤ headerInfo.mappedStart i := mappedStart_mono (Nat.zero_le i)
  have hhead : headerInfo.mappedStart 0 = headerInfo.sizeOfHeaders.toNat := rfl
  have hwhole := WholePages.mappedStart hc hw i
  rcases mappedStart_succ_cases hc hi with hend | ⟨hn, hz, hround⟩
  · have hwhole' := WholePages.mappedStart hc hw (i + 1)
    have hle : headerInfo.mappedStart (i + 1) ≤
        headerInfo.mappedStart headerInfo.numberOfSections.toNat := mappedStart_mono hi
    have hround : headerInfo.roundedSize i ≠ 2 ^ 32 := by
      intro hround
      have hsize := mappedSize_toNat hc i
      rw [hround, Nat.mod_self] at hsize
      rw [PeNtHeaderInfo.mappedStart, PeNtHeaderInfo.sectionStart] at hend
      lia
    have hsome : (lastRights pages k).isSome :=
      hreached.mpr (Or.inr ⟨by lia, Or.inl (by lia)⟩)
    obtain ⟨r, hr⟩ := Option.isSome_iff_exists.mp hsome
    have hvalue := lastRights_of_wholePages hc hw h hr hi (by lia) (by lia)
    rw [pageHasRights_of_some hlook hr, hvalue, if_neg hround]
    by_cases hfirst : k = headerInfo.mappedStart i / 4096
    · rw [if_pos hfirst, imageEntry_or_hasRights]
      exact ⟨fun h _ => h, fun h => h hfirst⟩
    · rw [if_neg hfirst]
      exact iff_of_true ⟨rfl, rfl⟩ fun h => absurd h hfirst
  · have hlast : headerInfo.mappedStart headerInfo.numberOfSections.toNat =
        headerInfo.mappedStart i := by
      rw [← hn, PeNtHeaderInfo.mappedStart, hz]
      rfl
    have hnone : lastRights pages k = none := by
      rw [← Option.not_isSome_iff_eq_none, hreached, PeNtHeaderInfo.Reached, hlast, ← hn,
        Nat.add_sub_cancel]
      intro hcase
      rcases hcase with hcase | ⟨-, hcase | ⟨hcase, -⟩⟩
      · lia
      · lia
      · exact hcase hz
    rw [pageHasRights_of_none hlook hnone, if_pos hround]

private theorem not_write_execute {rights : DWORD}
    (h : isBooleanFlagOn rights (pageRightsWrite ||| pageRightsExecute) = false) :
    ¬ (isBooleanFlagOn rights pageRightsWrite = true ∧
      isBooleanFlagOn rights pageRightsExecute = true) := by
  intro hboth
  refine Bool.eq_false_iff.mp h (isBooleanFlagOn_iff.mpr fun n hn => ?_)
  rw [BitVec.getLsbD_or, Bool.or_eq_true_iff] at hn
  exact hn.elim (isBooleanFlagOn_iff.mp hboth.1 n) (isBooleanFlagOn_iff.mp hboth.2 n)

/-- No section is both writable and executable, so no page with the rights of a section is. -/
private theorem notWritableCode_of_hasRights (hassert : ∀ i < headerInfo.numberOfSections.toNat,
      isBooleanFlagOn (headerInfo.rights i) (pageRightsWrite ||| pageRightsExecute) = false)
    (hw : headerInfo.WholePages)
    (hheaders : ∀ k < headerInfo.sizeOfHeaders.toNat / 4096,
      PageHasRights addressToMap mem' root k pageRightsRead)
    (hsections : ∀ i < headerInfo.numberOfSections.toNat, ∀ k, headerInfo.Intersects i k →
      PageHasRights addressToMap mem' root k (headerInfo.rights i)) :
    ∀ k, headerInfo.ImagePage k → ∀ e, lookup mem' root (pageAt addressToMap k) = some e →
      ¬ (e.readWrite = true ∧ e.xd = false) := by
  have hexact : ∀ k, headerInfo.ImagePage k → ∃ rights,
      isBooleanFlagOn rights (pageRightsWrite ||| pageRightsExecute) = false ∧
        PageHasRights addressToMap mem' root k rights := by
    intro k hk
    rcases hk with ⟨b, hb, hk⟩ | ⟨i, hi, hk⟩
    · have := hw.headers
      exact ⟨pageRightsRead, by decide, hheaders k (by lia)⟩
    · exact ⟨_, hassert i hi, hsections i hi k hk⟩
  intro k hk e he hboth
  obtain ⟨rights, hassert, e', he', hwrite, hxd⟩ := hexact k hk
  rw [he] at he'
  obtain rfl := Option.some.inj he'
  apply not_write_execute hassert
  rw [hboth.1] at hwrite
  rw [hboth.2] at hxd
  exact ⟨hwrite.symm, by simpa using hxd.symm⟩

/-- After a successful call every page has exactly the rights of its section if and only if no rights
are held back that a section lacks and the pages left out had their rights before: the last page of
the headers, and a last section of `2 ^ 32` bytes. -/
theorem mmuMapPeInMemory_exactRights_iff {pd' : PagingData} (h : PagingInv mem pd)
    (hc : headerInfo.Contiguous) (hw : headerInfo.WholePages)
    (hfits : addressToMap.toNat + headerInfo.sectionStart headerInfo.numberOfSections.toNat + 4096 <
      2 ^ 64)
    (hok : mmuMapPeInMemory vmmData getPhysicalAddress mem pd headerInfo addressToMap =
      .ok (.success, mem', pd')) :
    ExactRights headerInfo addressToMap mem' pd'.root ↔
      (0 < headerInfo.sizeOfHeaders.toNat → PageHasRights addressToMap mem pd.root
        (headerInfo.sizeOfHeaders.toNat / 4096 - 1) pageRightsRead) ∧
      headerInfo.RightsKept ∧
      ∀ i < headerInfo.numberOfSections.toNat, headerInfo.roundedSize i = 2 ^ 32 →
        ∀ k, headerInfo.Intersects i k →
          PageHasRights addressToMap mem pd.root k (headerInfo.rights i) := by
  obtain ⟨hassert, -, hroot, pages, hreached, hlook⟩ := mmuMapPeInMemory_spec h hc hfits hok
  rw [show pd'.root = pd.root from hroot]
  have hhead := fun k hk => header_pageHasRights (k := k) hreached hw hlook hk
  have hsec := fun i k hi hk => section_pageHasRights (i := i) (k := k) hreached hc hw hlook hi hk
  have hpos : 0 < headerInfo.sizeOfHeaders.toNat →
      headerInfo.sizeOfHeaders.toNat / 4096 - 1 < headerInfo.sizeOfHeaders.toNat / 4096 := by
    have := hw.headers
    omega
  constructor
  · intro hexact
    refine ⟨fun h0 => (hhead _ (hpos h0)).mp (hexact.headers _ (hpos h0)) rfl,
      fun i hi hsize j hj hempty => ?_, fun i hi hround k hk => ?_⟩
    · have hround := mappedSize_toNat hc i
      have hsizeNat : (headerInfo.mappedSize i).toNat ≠ 0 := fun h0 =>
        hsize (BitVec.eq_of_toNat_eq h0)
      have hk : headerInfo.Intersects i (headerInfo.mappedStart i / 4096) := by
        refine ⟨headerInfo.sectionStart i, Nat.le_refl _, ?_, by rw [mappedStart_eq hc hi]⟩
        rw [PeNtHeaderInfo.sectionStart]
        lia
      have hpending := (hsec i _ hi hk).mp (hexact.sections i hi _ hk)
      rw [if_neg (by omega)] at hpending
      exact (pendingRights_within (WholePages.mappedStart hc hw)).mp (hpending rfl) j hj hempty
    · have hbefore := (hsec i k hi hk).mp (hexact.sections i hi k hk)
      rwa [if_pos hround] at hbefore
  · intro hcond
    obtain ⟨hlast, hkept, htoolarge⟩ := hcond
    have hheaders : ∀ k < headerInfo.sizeOfHeaders.toNat / 4096,
        PageHasRights addressToMap mem' pd.root k pageRightsRead := by
      intro k hk
      refine (hhead k hk).mpr fun heq => ?_
      rw [heq]
      exact hlast (by omega)
    have hsections : ∀ i < headerInfo.numberOfSections.toNat, ∀ k, headerInfo.Intersects i k →
        PageHasRights addressToMap mem' pd.root k (headerInfo.rights i) := by
      intro i hi k hk
      apply (hsec i k hi hk).mpr
      split_ifs with hround
      · exact htoolarge i hi hround k hk
      · intro _
        obtain ⟨b, hlow, hhigh, -⟩ := hk
        have hsize : headerInfo.mappedSize i ≠ 0 := by
          intro h0
          have hmod := mappedSize_toNat hc i
          have hle := roundedSize_le hc i
          rw [PeNtHeaderInfo.sectionStart] at hhigh
          rw [h0, show (0 : DWORD).toNat = 0 from rfl] at hmod
          lia
        exact (pendingRights_within (WholePages.mappedStart hc hw)).mpr
          fun j hj hempty => hkept i hi hsize j hj hempty
    exact ⟨hheaders, hsections, notWritableCode_of_hasRights hassert hw hheaders hsections⟩

end Exact

/-- An image of 64 KB, loaded at 16 MB. -/
def sampleImage (sizeOfHeaders imageAlignment : DWORD) (sections : List ImageSectionHeader) :
    PeNtHeaderInfo where
  imageBase := 0x1000000
  ntBase := 0x1000080
  imageAlignment := imageAlignment
  fileAlignment := imageAlignment
  size := 0x10000
  machine := imageFileMachineAmd64
  sizeOfHeaders := sizeOfHeaders
  numberOfSections := BitVec.ofNat 32 sections.length
  sizeOfOptionalHeader := 240
  sections i := sections.getD i ⟨0, 0, 0⟩

/-- The frames of that image, from 4 MB on. -/
def sampleFrames (va : QWORD) : QWORD := va - 0x1000000 + 0x400000

/-- A page of headers, a page of code and a page of data. -/
def codeAndData : PeNtHeaderInfo :=
  sampleImage 0x1000 0x1000 [⟨0x1000, 0x1000, 0x60000000⟩, ⟨0x2000, 0x1000, 0xC0000000⟩]

/-- Code that shares its page with the headers and fills it. -/
def oneFullPage : PeNtHeaderInfo := sampleImage 0x200 0x200 [⟨0x200, 0xE00, 0x60000000⟩]

/-- A page of headers, and a page of constants before a page of code. -/
def constantsAndCode : PeNtHeaderInfo :=
  sampleImage 0x1000 0x1000 [⟨0x1000, 0x1000, 0x40000000⟩, ⟨0x2000, 0x1000, 0x60000000⟩]

private theorem sampleRun {mem : PhysMemory} {pd : PagingData} {headerInfo : PeNtHeaderInfo}
    {pages : List (ℕ × DWORD)} (h : PagingInv mem pd)
    (hcalls : peMapCalls headerInfo 0x10000 = .ok (.success, pageCalls 0x10000 pages))
    (hpages : ∀ p ∈ pages, p.1 < 2 ^ 36 ∧ isAddressAligned
      (sampleFrames (pageAt headerInfo.imageBase p.1)) pageSize = true ∧ pageAt 0x10000 p.1 ≠ 0)
    (hpool : pd.currentIndex.toNat + 3 * pages.length ≤ pd.numberOfFrames.toNat) :
    ∃ mem' pd', mmuMapPeInMemory ⟨0, 0⟩ sampleFrames mem pd headerInfo 0x10000 =
      .ok (.success, mem', pd') := by
  obtain ⟨⟨mem', pd'⟩, hrun⟩ := @mapImagePages_ok ⟨0, 0⟩ sampleFrames headerInfo 0x10000 _ _ _ h (by decide)
    (fun p hp => (hpages p hp).1) (fun p hp => (hpages p hp).2) hpool
  exact ⟨mem', pd', bind_eq_ok.mpr ⟨_, hcalls, bind_eq_ok.mpr ⟨_, hrun, rfl⟩⟩⟩

private theorem emptyPagingInv : PagingInv emptyMemory smallPool :=
  pagingInv_of_emptyRoot emptyMemory poolOk_smallPool fun _ => rfl

private theorem codeAndData_contiguous : codeAndData.Contiguous := by
  refine ⟨⟨12, rfl⟩, fun i hi => ?_⟩
  have hn : codeAndData.numberOfSections.toNat = 2 := rfl
  obtain rfl | rfl : i = 0 ∨ i = 1 := by omega
  · rfl
  · rfl

private theorem codeAndData_run : ∃ mem pd, mmuMapPeInMemory ⟨0, 0⟩ sampleFrames emptyMemory smallPool
    codeAndData 0x10000 = .ok (.success, mem, pd) :=
  @sampleRun _ _ _ [(1, pageRightsExecute), (2, pageRightsWrite ||| pageRightsExecute)]
    emptyPagingInv rfl (by decide) (by decide)

/-- The page of the headers is not mapped. -/
theorem codeAndData_not_covered : codeAndData.Contiguous ∧ PagingInv emptyMemory smallPool ∧
    ∃ mem pd, mmuMapPeInMemory ⟨0, 0⟩ sampleFrames emptyMemory smallPool codeAndData 0x10000 =
        .ok (.success, mem, pd) ∧
      codeAndData.ImagePage 0 ∧
      ¬ MapsImagePage sampleFrames codeAndData 0x10000 mem pd.root 0 := by
  obtain ⟨mem, pd, hrun⟩ := codeAndData_run
  have himage : codeAndData.ImagePage 0 := Or.inl ⟨0, by decide, rfl⟩
  refine ⟨codeAndData_contiguous, emptyPagingInv, mem, pd, hrun, himage, fun hmapped => ?_⟩
  obtain ⟨-, -, hroot, pages, hreached, hlook⟩ :=
    mmuMapPeInMemory_spec emptyPagingInv codeAndData_contiguous (by decide) hrun
  have hnone : lastRights pages 0 = none := by
    rw [← Option.not_isSome_iff_eq_none, hreached.reached 0 himage, PeNtHeaderInfo.Reached]
    decide
  have hempty : lookup emptyMemory smallPool.root (pageAt 0x10000 0) = none :=
    lookup_of_emptyRoot (fun _ => rfl) _
  have hlook := hlook 0 (by decide)
  rw [hnone, Option.map_none, Option.none_or, hempty] at hlook
  obtain ⟨e, he, -⟩ := hmapped
  rw [show pd.root = smallPool.root from hroot, hlook] at he
  cases he

/-- The page of the data is writable and executable. -/
theorem codeAndData_writableCode : codeAndData.Contiguous ∧ codeAndData.WholePages ∧
    PagingInv emptyMemory smallPool ∧
    ∃ mem pd, mmuMapPeInMemory ⟨0, 0⟩ sampleFrames emptyMemory smallPool codeAndData 0x10000 =
        .ok (.success, mem, pd) ∧
      (∃ e, lookup mem pd.root (pageAt 0x10000 2) = some e ∧ e.readWrite = true ∧ e.xd = false) ∧
      ¬ ExactRights codeAndData 0x10000 mem pd.root := by
  obtain ⟨mem, pd, hrun⟩ := codeAndData_run
  have hwhole : codeAndData.WholePages := by constructor <;> decide
  have hk : codeAndData.Intersects 1 2 := ⟨0x2000, by decide, by decide, rfl⟩
  have himage : codeAndData.ImagePage 2 := Or.inr ⟨1, by decide, hk⟩
  obtain ⟨-, -, hroot, pages, hreached, hlook⟩ :=
    mmuMapPeInMemory_spec emptyPagingInv codeAndData_contiguous (by decide) hrun
  have hsome : (lastRights pages 2).isSome :=
    (hreached.reached 2 himage).mpr (Or.inr ⟨by decide, Or.inl (by decide)⟩)
  obtain ⟨r, hr⟩ := Option.isSome_iff_exists.mp hsome
  have hvalue := lastRights_of_wholePages codeAndData_contiguous hwhole hreached hr
    (i := 1) (by decide) (by decide) (by decide)
  have hlook := hlook 2 (by decide)
  rw [hr, hvalue, Option.map_some, Option.some_or] at hlook
  have hbad : ∃ e, lookup mem pd.root (pageAt 0x10000 2) = some e ∧ e.readWrite = true ∧
      e.xd = false := by
    rw [show pd.root = smallPool.root from hroot]
    exact ⟨_, hlook, rfl, rfl⟩
  refine ⟨codeAndData_contiguous, hwhole, emptyPagingInv, mem, pd, hrun, hbad, fun hexact => ?_⟩
  obtain ⟨e, he, hboth⟩ := hbad
  exact hexact.notWritableCode 2 himage e he hboth

/-- An image without a page of its own for the headers is covered. -/
theorem oneFullPage_covered : ∃ mem pd,
    mmuMapPeInMemory ⟨0, 0⟩ sampleFrames emptyMemory smallPool oneFullPage 0x10000 =
        .ok (.success, mem, pd) ∧
      ∀ k, oneFullPage.ImagePage k → MapsImagePage sampleFrames oneFullPage 0x10000 mem pd.root k := by
  have hc : oneFullPage.Contiguous := by
    refine ⟨⟨9, rfl⟩, fun i hi => ?_⟩
    have hn : oneFullPage.numberOfSections.toNat = 1 := rfl
    obtain rfl : i = 0 := by omega
    rfl
  obtain ⟨mem, pd, hrun⟩ := @sampleRun _ _ oneFullPage [(0, pageRightsExecute)] emptyPagingInv rfl (by decide) (by decide)
  refine ⟨mem, pd, hrun, (mmuMapPeInMemory_covers_iff emptyPagingInv hc (by decide) hrun).mpr ?_⟩
  intro k hk
  have hlt := imagePage_lt hk
  have hend : oneFullPage.sectionStart oneFullPage.numberOfSections.toNat = 4096 := rfl
  obtain rfl : k = 0 := by omega
  exact Or.inl (Or.inr ⟨by decide, Or.inl (by decide)⟩)

/-- With the page of the headers mapped before, an image whose code follows its constants has exact
rights. -/
theorem constantsAndCode_exactRights : ∃ mem pd mem' pd', PagingInv mem pd ∧
    mmuMapPeInMemory ⟨0, 0⟩ sampleFrames mem pd constantsAndCode 0x10000 = .ok (.success, mem', pd') ∧
      ExactRights constantsAndCode 0x10000 mem' pd'.root := by
  have hc : constantsAndCode.Contiguous := by
    refine ⟨⟨12, rfl⟩, fun i hi => ?_⟩
    have hn : constantsAndCode.numberOfSections.toNat = 2 := rfl
    obtain rfl | rfl : i = 0 ∨ i = 1 := by omega
    · rfl
    · rfl
  have hw : constantsAndCode.WholePages := by constructor <;> decide
  rcases @mapImagePage_spec ⟨0, 0⟩ sampleFrames constantsAndCode 0x10000 _ _ emptyPagingInv (by decide)
      0 (by decide) pageRightsRead (by decide) (by decide)
    with ⟨mem, m, hm, -, hinv, hlook⟩ | ⟨-, hfew⟩
  · have hcurrent := take_current_le smallPool m
    have hpool : (smallPool.take m).currentIndex.toNat + 3 * 2 ≤ smallPool.numberOfFrames.toNat := by
      have hone : smallPool.currentIndex.toNat = 1 := rfl
      have hall : smallPool.numberOfFrames.toNat = 16 := rfl
      omega
    obtain ⟨mem', pd', hrun⟩ := @sampleRun _ _ constantsAndCode
      [(1, pageRightsRead), (2, pageRightsExecute)] hinv rfl (by decide) hpool
    refine ⟨mem, _, mem', pd', hinv, hrun,
      (mmuMapPeInMemory_exactRights_iff hinv hc hw (by decide) hrun).mpr ⟨fun _ => ?_, ?_, ?_⟩⟩
    · have hmapped := (hlook (pageAt 0x10000 0)).trans (if_pos (by decide))
      exact ⟨_, hmapped, rfl, rfl⟩
    · intro i hi _ j hj _
      have hn : constantsAndCode.numberOfSections.toNat = 2 := rfl
      obtain ⟨rfl, rfl⟩ : i = 1 ∧ j = 0 := by lia
      exact ⟨fun h => absurd h (by decide), fun h => absurd h (by decide)⟩
    · intro i hi hround
      have hn : constantsAndCode.numberOfSections.toNat = 2 := rfl
      obtain rfl | rfl : i = 0 ∨ i = 1 := by omega
      · exact absurd hround (by decide)
      · exact absurd hround (by decide)
  · exact absurd hfew (by decide)

end HAL9000.Paging
