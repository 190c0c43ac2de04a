import HAL9000.Vmm.PageMapping

/-! Runs of map and unmap calls on one set of paging structures. The translation of a page is the one
that the last call covering it assigned. -/
namespace HAL9000.Paging

open RadixTree

inductive PagingCall
  | map (physicalAddress size baseAddress : QWORD) (pageRights : DWORD) (uncacheable : Bool)
  | unmap (virtualAddress size : QWORD) (releaseMemory : Bool)
  deriving DecidableEq, Repr

def PagingCall.run (vmmData : VmmData) (s : PhysMemory × PagingData) :
    PagingCall → Except Fault (PhysMemory × PagingData)
  | .map physicalAddress size baseAddress pageRights uncacheable =>
    vmmMapMemoryInternal vmmData s.1 s.2 physicalAddress size baseAddress pageRights true uncacheable
  | .unmap virtualAddress size releaseMemory => do
    let (mem, _) ← vmmUnmapMemoryEx s.1 s.2.basePhysicalAddress virtualAddress size releaseMemory
    return (mem, s.2)

def runCalls (vmmData : VmmData) (s : PhysMemory × PagingData) (calls : List PagingCall) :
    Except Fault (PhysMemory × PagingData) :=
  calls.foldlM (PagingCall.run vmmData) s

/-- The range lies in one half of the canonical addresses. -/
def CanonicalRange (base size : ℕ) : Prop :=
  base + size ≤ 2 ^ 47 ∨ 2 ^ 64 - 2 ^ 47 ≤ base ∧ base + size ≤ 2 ^ 64

instance (base size : ℕ) : Decidable (CanonicalRange base size) :=
  inferInstanceAs (Decidable (_ ∨ _))

def PagingCall.base : PagingCall → QWORD
  | .map _ _ baseAddress _ _ => baseAddress
  | .unmap virtualAddress _ _ => virtualAddress

def PagingCall.size : PagingCall → QWORD
  | .map _ size _ _ _ => size
  | .unmap _ size _ => size

/-- Page-aligned arguments: a canonical range and, to map it, a range of physical memory. -/
structure PagingCall.Aligned (c : PagingCall) : Prop where
  base_aligned : isAddressAligned c.base pageSize = true
  size_aligned : isAddressAligned c.size pageSize = true
  size_ne : c.size ≠ 0
  canonical : CanonicalRange c.base.toNat c.size.toNat
  physical : ∀ pa size base rights uncacheable, c = .map pa size base rights uncacheable →
    isAddressAligned pa pageSize = true ∧ pa.toNat + size.toNat ≤ 2 ^ 52

/-- Where a call puts an address of its range. -/
def PagingCall.target (va : QWORD) : PagingCall → Option QWORD
  | .map physicalAddress _ baseAddress _ _ => some (physicalAddress + (va - baseAddress))
  | .unmap _ _ _ => none

/-- What a call makes of the translation of an address. -/
def PagingCall.assigned (va : QWORD) (old : Option QWORD) (c : PagingCall) : Option QWORD :=
  if c.base.toNat ≤ va.toNat ∧ va.toNat < c.base.toNat + c.size.toNat then c.target va else old

/-- A page that can be asked for. -/
structure CanonicalPage (va : QWORD) : Prop where
  ne_zero : va ≠ 0
  aligned : isAddressAligned va pageSize = true
  canonical : CanonicalRange va.toNat 4096

/-- No two entries above the last level link to the same table, and none links to the root. -/
def NoSharedTable (mem : PhysMemory) (root : BitVec 40) : Prop :=
  ∀ t i f, Reached link mem root 2 t → link (mem t i) = some f →
    f ≠ root ∧ ∀ t' i', Reached link mem root 2 t' → link (mem t' i') = some f → t' = t ∧ i' = i

/-- The paging structures implement the mapping that the calls describe. -/
def ImplementsMapping (calls : List PagingCall) (mem mem' : PhysMemory) (pd pd' : PagingData) :
    Prop :=
  (∀ va, CanonicalPage va →
    vmmGetPhysicalAddress mem' pd'.basePhysicalAddress va =
      .ok ((calls.foldl (PagingCall.assigned va) (translate mem pd.root va)).getD 0) ∧
    translate mem' pd'.root va = calls.foldl (PagingCall.assigned va) (translate mem pd.root va)) ∧
  NoSharedTable mem' pd'.root

section Runs

variable {mem mem' : PhysMemory} {pd pd' : PagingData} {va : QWORD}

/-- In canonical ranges the pages of the walker are the pages of the range. -/
private theorem pageDistance_lt_iff {base : QWORD} {size : ℕ} (hb : base.toNat % 4096 = 0)
    (hs : size % 4096 = 0) (hcan : CanonicalRange base.toNat size) (hva : CanonicalPage va) :
    pageDistance base va < size / 4096 ↔ base.toNat ≤ va.toNat ∧ va.toNat < base.toNat + size := by
  have hal := aligned_iff.mp hva.aligned
  have hc := hva.canonical
  have hblt := base.isLt
  have hvlt := va.isLt
  unfold CanonicalRange at hcan hc
  rw [pageDistance, BitVec.toNat_sub]
  lia

private theorem pageAt_pageDistance {base : QWORD} {size : ℕ} (hb : base.toNat % 4096 = 0)
    (hcan : CanonicalRange base.toNat size) (hva : CanonicalPage va)
    (hin : base.toNat ≤ va.toNat ∧ va.toNat < base.toNat + size) :
    pageAt base (pageDistance base va) = va := by
  have hal := aligned_iff.mp hva.aligned
  have hblt := base.isLt
  have hvlt := va.isLt
  unfold CanonicalRange at hcan
  apply BitVec.eq_of_toNat_eq
  rw [pageAt, BitVec.toNat_add, BitVec.toNat_ofNat, pageDistance, BitVec.toNat_sub]
  lia

private theorem canonical_size_le {base size : ℕ} (h : CanonicalRange base size) : size ≤ 2 ^ 48 := by
  unfold CanonicalRange at h
  omega

private theorem pageRange_of_aligned {c : PagingCall} (hc : c.Aligned) (hne : c.base ≠ 0) :
    PageRange c.base c.size := by
  have hcan := hc.canonical
  unfold CanonicalRange at hcan
  exact ⟨hne, hc.base_aligned, hc.size_ne, hc.size_aligned, by omega⟩

/-- One call: it goes through and assigns the translations, or the pool runs out. -/
private theorem run_spec (vmmData : VmmData) {c : PagingCall} (h : PagingInv mem pd)
    (hc : c.Aligned) (hne : c.base ≠ 0) :
    (∃ mem', ∃ m ≤ 3 * (c.size.toNat / 4096), c.run vmmData (mem, pd) = .ok (mem', pd.take m) ∧
      PagingInv mem' (pd.take m) ∧
      ∀ va, CanonicalPage va → translate mem' pd.root va = c.assigned va (translate mem pd.root va)) ∨
    c.run vmmData (mem, pd) = .error .assertFailed ∧
      pd.numberOfFrames.toNat < pd.currentIndex.toNat + 3 * (c.size.toNat / 4096) := by
  have hr := pageRange_of_aligned hc hne
  have hb := aligned_iff.mp hc.base_aligned
  have hs := aligned_iff.mp hc.size_aligned
  have hsize := canonical_size_le hc.canonical
  have hcan := hc.canonical
  cases c with
  | map pa size base rights uncacheable =>
    dsimp only [PagingCall.base, PagingCall.size] at hr hb hs hsize hcan
    obtain ⟨hpa, hphys⟩ := hc.physical pa size base rights uncacheable rfl
    have hspec := @vmmMapMemoryInternal_spec _ _ _ _ vmmData h hr hsize _ hpa rights true uncacheable
    rcases hspec with ⟨mem', m, hm, hok, hinv, hlook⟩ | hfail
    · refine Or.inl ⟨mem', m, hm, hok, hinv, fun va hva => ?_⟩
      have hiff := pageDistance_lt_iff hb hs hcan hva
      rw [translate, hlook va]
      simp only [Nat.zero_le, true_and, Nat.zero_add]
      by_cases hin : base.toNat ≤ va.toNat ∧ va.toNat < base.toNat + size.toNat
      · rw [if_pos (hiff.mpr hin), PagingCall.assigned, if_pos (by exact hin), Option.map_some]
        have hpage := pageAt_pageDistance hb hcan hva hin
        have hphysAddr : (pa + (va - base)).toNat = pa.toNat + (va.toNat - base.toNat) := by
          rw [BitVec.toNat_add, BitVec.toNat_sub]
          have := base.isLt
          have := va.isLt
          lia
        have hpal := aligned_iff.mp hpa
        have hval := aligned_iff.mp hva.aligned
        have hmod : (pa + (va - base)).toNat % 4096 = 0 := by lia
        have hlt : (pa + (va - base)).toNat < 2 ^ 52 := by lia
        rw [hpage, mappedEntry, if_pos rfl, mapEntry, MapContext.physAddr,
          pteGetPhysicalAddress_pteMap hmod hlt]
        rfl
      · rw [if_neg (fun h => hin (hiff.mp h)), PagingCall.assigned, if_neg (by exact hin), translate]
    · exact Or.inr hfail
  | unmap base size release =>
    dsimp only [PagingCall.base, PagingCall.size] at hr hb hs hsize hcan
    have htree : IsTree mem (frameOf pd.basePhysicalAddress) := h.tree
    obtain ⟨mem', hok, hkeeps, hlook⟩ := vmmUnmapMemoryEx_spec htree hr hsize release
    refine Or.inl ⟨mem', 0, Nat.zero_le _, ?_, ?_, fun va hva => ?_⟩
    · simp only [PagingCall.run, hok, take_zero, bind, Except.bind]
      rfl
    · rw [take_zero]
      exact ⟨h.pool, hkeeps.tree, fun j hle hj hr => h.fresh j hle hj (hkeeps.reached _ hr)⟩
    · have hiff := pageDistance_lt_iff hb hs hcan hva
      have hlook := hlook va
      rw [show frameOf pd.basePhysicalAddress = pd.root from rfl] at hlook
      rw [translate, hlook]
      by_cases hin : base.toNat ≤ va.toNat ∧ va.toNat < base.toNat + size.toNat
      · rw [if_pos (hiff.mpr hin), PagingCall.assigned, if_pos (by exact hin)]
        rfl
      · rw [if_neg (fun h => hin (hiff.mp h)), PagingCall.assigned, if_neg (by exact hin), translate]

/-- The pages that the calls ask for. -/
def pagesAsked (calls : List PagingCall) : ℕ := (calls.map fun c => c.size.toNat / 4096).sum

/-- A run of calls: it goes through and assigns the translations, or the pool runs out. -/
private theorem runCalls_spec (vmmData : VmmData) {calls : List PagingCall} (h : PagingInv mem pd)
    (hcalls : ∀ c ∈ calls, c.Aligned ∧ c.base ≠ 0) :
    (∃ mem', ∃ m ≤ 3 * pagesAsked calls, runCalls vmmData (mem, pd) calls = .ok (mem', pd.take m) ∧
      PagingInv mem' (pd.take m) ∧
      ∀ va, CanonicalPage va → translate mem' pd.root va =
        calls.foldl (PagingCall.assigned va) (translate mem pd.root va)) ∨
    runCalls vmmData (mem, pd) calls = .error .assertFailed ∧
      pd.numberOfFrames.toNat < pd.currentIndex.toNat + 3 * pagesAsked calls := by
  induction calls generalizing mem pd with
  | nil => exact Or.inl ⟨mem, 0, Nat.zero_le _, by rw [take_zero]; rfl, by rwa [take_zero],
      fun _ _ => rfl⟩
  | cons c calls ih =>
    obtain ⟨hc, hne⟩ := hcalls c List.mem_cons_self
    have hpages : pagesAsked (c :: calls) = c.size.toNat / 4096 + pagesAsked calls := by
      simp [pagesAsked]
    have hstep : runCalls vmmData (mem, pd) (c :: calls) =
        (c.run vmmData (mem, pd)).bind fun s => runCalls vmmData s calls := rfl
    rcases run_spec vmmData h hc hne with ⟨mem₁, m₁, hm₁, hok, hinv, hset⟩ | ⟨herr, hfew⟩
    · have hrest := ih hinv fun c' hc' => hcalls c' (List.mem_cons_of_mem c hc')
      rw [hstep, hok]
      rcases hrest with ⟨mem', m, hm, hok', hinv', hset'⟩ | ⟨herr, hfew⟩
      · rw [take_take] at hok' hinv'
        refine Or.inl ⟨mem', m₁ + m, by lia, hok', hinv', fun va hva => ?_⟩
        rw [List.foldl_cons, ← hset va hva]
        exact hset' va hva
      · refine Or.inr ⟨herr, ?_⟩
        have hfew : pd.numberOfFrames.toNat < (pd.take m₁).currentIndex.toNat + 3 * pagesAsked calls :=
          hfew
        have := take_current_le pd m₁
        omega
    · rw [hstep, herr]
      exact Or.inr ⟨rfl, by omega⟩

/-- In a tree every table has one entry that links to it. -/
private theorem noSharedTable_of_isTree {root : BitVec 40} (h : IsTree mem root) :
    NoSharedTable mem root := by
  have hkey : ∀ t i f, Reached link mem root 2 t → link (mem t i) = some f →
      ∃ key d, d ≤ 2 ∧ tableAt link mem root key d = some t ∧ key d = i ∧
        tableAt link mem root key (d + 1) = some f := by
    intro t i f ht hl
    obtain ⟨key, d, hd, ht⟩ := ht
    let key' : ℕ → BitVec 9 := fun k => if k = d then i else key k
    have hsame : SamePrefix key key' d := fun k hk => by
      simp [key', Nat.ne_of_lt hk]
    have ht' : tableAt link mem root key' d = some t := by rw [← tableAt_congr hsame, ht]
    have hi : key' d = i := by simp [key']
    exact ⟨key', d, hd, ht', hi, by rw [tableAt_succ ht', hi, hl]⟩
  intro t i f ht hl
  obtain ⟨key, d, hd, htab, rfl, hf⟩ := hkey t i f ht hl
  refine ⟨?_, fun t' i' ht' hl' => ?_⟩
  · intro heq
    have := (h.unshared key key (d + 1) 0 f (by omega) (Nat.zero_le 3) hf (by rw [heq]; rfl)).1
    omega
  · obtain ⟨key', d', hd', htab', rfl, hf'⟩ := hkey t' i' f ht' hl'
    obtain ⟨hdd, hpath⟩ := h.unshared key key' (d + 1) (d' + 1) f (by omega) (by omega) hf hf'
    obtain rfl : d = d' := by omega
    have hd0 : tableAt link mem root key d = tableAt link mem root key' d :=
      tableAt_congr fun k hk => hpath k (by omega)
    rw [htab, htab'] at hd0
    exact ⟨(Option.some.inj hd0).symm, (hpath d (by omega)).symm⟩

/-- As long as the pool has frames, a run of calls on page-aligned canonical ranges above page 0
leaves paging structures that implement the mapping, and it goes through if three frames are left
for each page that is asked for. -/
theorem runCalls_implementsMapping (vmmData : VmmData) {calls : List PagingCall}
    (h : PagingInv mem pd) (hcalls : ∀ c ∈ calls, c.Aligned ∧ c.base ≠ 0) :
    (∀ mem' pd', runCalls vmmData (mem, pd) calls = .ok (mem', pd') →
      PagingInv mem' pd' ∧ ImplementsMapping calls mem mem' pd pd') ∧
    (pd.currentIndex.toNat + 3 * pagesAsked calls ≤ pd.numberOfFrames.toNat →
      ∃ s', runCalls vmmData (mem, pd) calls = .ok s') := by
  refine ⟨fun mem' pd' hrun => ?_, fun hpool => ?_⟩
  · rcases runCalls_spec vmmData h hcalls with ⟨mem₁, m, -, hok, hinv, hset⟩ | ⟨herr, -⟩
    · rw [hok] at hrun
      obtain ⟨rfl, rfl⟩ := Prod.mk.inj (Except.ok.inj hrun)
      have htree : IsTree mem₁ (frameOf (pd.take m).basePhysicalAddress) := hinv.tree
      refine ⟨hinv, fun va hva => ⟨?_, hset va hva⟩, noSharedTable_of_isTree hinv.tree⟩
      rw [vmmGetPhysicalAddress_of_isTree htree hva.ne_zero hva.aligned, ← hset va hva]
      rfl
    · rw [herr] at hrun
      cases hrun
  · rcases runCalls_spec vmmData h hcalls with ⟨mem₁, m, -, hok, -, -⟩ | ⟨-, hfew⟩
    · exact ⟨_, hok⟩
    · omega

end Runs

/-- A page is mapped, and then a range from address 0 on is unmapped. -/
def unmapFromNull : List PagingCall :=
  [.map 0x200000 0x1000 0x1000 pageRightsWrite false, .unmap 0 0x2000 false]

theorem unmapFromNull_aligned : ∀ c ∈ unmapFromNull, c.Aligned := by
  intro c hc
  have hc : c = .map 0x200000 0x1000 0x1000 pageRightsWrite false ∨ c = .unmap 0 0x2000 false := by
    simpa [unmapFromNull] using hc
  rcases hc with rfl | rfl
  · refine ⟨by decide, by decide, by decide, by decide, fun pa size base rights uncacheable heq => ?_⟩
    obtain ⟨rfl, rfl, -⟩ := PagingCall.map.inj heq
    decide
  · refine ⟨by decide, by decide, by decide, by decide, fun pa size base rights uncacheable heq => ?_⟩
    cases heq

/-- `VmmUnmapMemoryEx` leaves a range alone that starts at address 0. -/
theorem unmapFromNull_not_implementsMapping :
    (∀ c ∈ unmapFromNull, c.Aligned) ∧ PagingInv emptyMemory smallPool ∧
      ∃ mem pd, runCalls ⟨0, 0⟩ (emptyMemory, smallPool) unmapFromNull = .ok (mem, pd) ∧
        CanonicalPage 0x1000 ∧
        unmapFromNull.foldl (PagingCall.assigned 0x1000)
          (translate emptyMemory smallPool.root 0x1000) = none ∧
        vmmGetPhysicalAddress mem pd.basePhysicalAddress 0x1000 = .ok 0x200000 ∧
        ¬ ImplementsMapping unmapFromNull emptyMemory mem smallPool pd := by
  have hinv := pagingInv_of_emptyRoot emptyMemory poolOk_smallPool fun _ => rfl
  have hpage : CanonicalPage 0x1000 := by constructor <;> decide
  have hlast : unmapFromNull.foldl (PagingCall.assigned 0x1000)
      (translate emptyMemory smallPool.root 0x1000) = none := by
    simp only [unmapFromNull, List.foldl_cons, List.foldl_nil]
    rw [PagingCall.assigned, if_pos (by decide)]
    rfl
  have hfirst : ∀ c ∈ [PagingCall.map 0x200000 0x1000 0x1000 pageRightsWrite false],
      c.Aligned ∧ c.base ≠ 0 := by
    intro c hc
    rw [List.mem_singleton.mp hc]
    exact ⟨unmapFromNull_aligned _ List.mem_cons_self, by decide⟩
  rcases runCalls_spec ⟨0, 0⟩ hinv hfirst with ⟨mem, m, -, hrun, hinv', hset⟩ | ⟨-, hfew⟩
  swap
  · exact absurd hfew (by decide)
  obtain ⟨pd, hpd⟩ : ∃ pd, pd = smallPool.take m := ⟨_, rfl⟩
  have hroot : frameOf pd.basePhysicalAddress = smallPool.root := by
    rw [hpd]
    rfl
  rw [← hpd] at hrun hinv'
  have htree : IsTree mem (frameOf pd.basePhysicalAddress) := hinv'.tree
  have hphys : vmmGetPhysicalAddress mem pd.basePhysicalAddress 0x1000 = .ok 0x200000 := by
    rw [vmmGetPhysicalAddress_of_isTree htree (by decide) (by decide), hroot, hset 0x1000 hpage,
      List.foldl_cons, List.foldl_nil, PagingCall.assigned, if_pos (by decide)]
    rfl
  refine ⟨unmapFromNull_aligned, hinv, mem, pd, ?_, hpage, hlast, hphys, fun himpl' => ?_⟩
  · have hunmap : PagingCall.run ⟨0, 0⟩ (mem, pd) (.unmap 0 0x2000 false) = .ok (mem, pd) := rfl
    have hstep : runCalls ⟨0, 0⟩ (emptyMemory, smallPool) unmapFromNull =
        (runCalls ⟨0, 0⟩ (emptyMemory, smallPool)
          [.map 0x200000 0x1000 0x1000 pageRightsWrite false]).bind fun s =>
            PagingCall.run ⟨0, 0⟩ s (.unmap 0 0x2000 false) := by
      simp only [runCalls, unmapFromNull, List.foldlM_cons, List.foldlM_nil, bind_pure]
      rfl
    rw [hstep, hrun]
    exact hunmap
  · have hnull := (himpl'.1 0x1000 hpage).1
    rw [hphys, hlast] at hnull
    exact absurd (Except.ok.inj hnull) (by decide)

/-- Two pages are mapped, the second one again with other rights, and the first one is unmapped. -/
def remapSecond : List PagingCall :=
  [.map 0x200000 0x2000 0x1000 pageRightsWrite false, .map 0x300000 0x1000 0x2000 0 true,
    .unmap 0x1000 0x1000 false]

theorem runCalls_implementsMapping_remap :
    ∃ mem pd, runCalls ⟨0, 0⟩ (emptyMemory, smallPool) remapSecond = .ok (mem, pd) ∧
      ImplementsMapping remapSecond emptyMemory mem smallPool pd := by
  have hcalls : ∀ c ∈ remapSecond, c.Aligned ∧ c.base ≠ 0 := by
    intro c hc
    simp only [remapSecond, List.mem_cons, List.not_mem_nil, or_false] at hc
    rcases hc with rfl | rfl | rfl
    all_goals
      refine ⟨⟨by decide, by decide, by decide, by decide,
        fun pa size base rights uncacheable heq => ?_⟩, by decide⟩
      cases heq
    all_goals decide
  have hrun := runCalls_implementsMapping ⟨0, 0⟩
    (pagingInv_of_emptyRoot emptyMemory poolOk_smallPool fun _ => rfl) hcalls
  obtain ⟨⟨mem, pd⟩, hok⟩ := hrun.2 (by decide)
  exact ⟨mem, pd, hok, (hrun.1 mem pd hok).2⟩

end HAL9000.Paging
