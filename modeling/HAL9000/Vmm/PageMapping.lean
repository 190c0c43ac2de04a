import Mathlib.Data.List.Basic
import HAL9000.Vmm.PageTrees

/-! Mapping pages. New tables come from the pool of the paging data, so a table that is linked in was
not part of the tree before. -/
namespace HAL9000.Paging

open RadixTree

/-- The frame of the root table. -/
def PagingData.root (pd : PagingData) : BitVec 40 := frameOf pd.basePhysicalAddress

/-- The `j`th frame of the pool; the root is frame 0. -/
def PagingData.frame (pd : PagingData) (j : ℕ) : BitVec 40 :=
  BitVec.ofNat 40 (pd.basePhysicalAddress.toNat / 4096 + j)

/-- The frames of the pool are physical memory, and their size is a 32-bit number. -/
structure PoolOk (pd : PagingData) : Prop where
  aligned : pd.basePhysicalAddress.toNat % 4096 = 0
  fits : pd.basePhysicalAddress.toNat + 4096 * pd.numberOfFrames.toNat ≤ 2 ^ 52
  size : pd.numberOfFrames.toNat < 2 ^ 20
  rootTaken : 1 ≤ pd.currentIndex.toNat
  current : pd.currentIndex.toNat ≤ pd.numberOfFrames.toNat

/-- The paging structures form a tree, and the frames left in the pool are not part of it. Tables that
came from elsewhere may be. -/
structure PagingInv (mem : PhysMemory) (pd : PagingData) : Prop where
  pool : PoolOk pd
  tree : IsTree mem pd.root
  fresh : ∀ j, pd.currentIndex.toNat ≤ j → j < pd.numberOfFrames.toNat →
    ¬ Reached link mem pd.root 3 (pd.frame j)

/-- The entry a page is mapped with. -/
def mapEntry (vmmData : VmmData) (ctx : MapContext) (pd : PagingData) (va : QWORD) : PtEntry :=
  pteMap (ctx.physAddr va) (mapFlags vmmData ctx pd.kernelSpace)

/-- A present entry is kept unless the caller invalidates. -/
def mappedEntry (vmmData : VmmData) (ctx : MapContext) (pd : PagingData) (va : QWORD)
    (old : Option PtEntry) : PtEntry :=
  if ctx.invalidate then mapEntry vmmData ctx pd va else old.getD (mapEntry vmmData ctx pd va)

/-- The table for level `e` on the way to a page is there. -/
def linked (mem : PhysMemory) (root : BitVec 40) (va : QWORD) (e : ℕ) : Bool :=
  (tableAt link mem root (offsets va) e).isSome

/-- How many of the tables below level `d` are missing. -/
def missing (found : ℕ → Bool) (d : ℕ) : ℕ := ((List.range' (d + 1) (3 - d)).filter (!found ·)).length

/-- The tables that are linked once there are those for a page. -/
def linkPage (found : QWORD → ℕ → Bool) (page va : QWORD) (e : ℕ) : Bool :=
  found va e || decide (SamePrefix (offsets page) (offsets va) e)

/-- How many tables are set up while the pages from a base on are mapped one after the other. -/
def tablesNeeded (base : QWORD) : ℕ → ℕ → (QWORD → ℕ → Bool) → ℕ
  | _, 0, _ => 0
  | k, n + 1, found =>
    let page := base + BitVec.ofNat 64 (4096 * k)
    missing (found page) 0 + tablesNeeded base (k + 1) n (linkPage found page)

section Pool

variable {pd : PagingData}

private theorem PoolOk.root_eq (h : PoolOk pd) : pd.root = pd.frame 0 := by
  apply BitVec.eq_of_toNat_eq
  have hfits := h.fits
  rw [PagingData.root, frameOf, PagingData.frame, BitVec.toNat_setWidth, BitVec.toNat_ushiftRight,
    Nat.shiftRight_eq_div_pow, BitVec.toNat_ofNat, shiftForPhysicalAddr]
  lia

private theorem PoolOk.frame_inj (h : PoolOk pd) {i j : ℕ} (hi : i < pd.numberOfFrames.toNat)
    (hj : j < pd.numberOfFrames.toNat) (heq : pd.frame i = pd.frame j) : i = j := by
  have hfits := h.fits
  have heq := congrArg BitVec.toNat heq
  rw [PagingData.frame, PagingData.frame, BitVec.toNat_ofNat, BitVec.toNat_ofNat] at heq
  lia

/-- The next frame of the pool, as long as there is one. -/
private theorem PoolOk.next (h : PoolOk pd)
    (hlt : pd.currentIndex.toNat < pd.numberOfFrames.toNat) :
    ∃ pa, vmRetrieveNextPhysicalAddressForPagingStructure pd =
        .ok (pa, { pd with currentIndex := pd.currentIndex + 1 }) ∧
      frameOf pa = pd.frame pd.currentIndex.toNat := by
  have hcur : pd.currentIndex < pd.numberOfFrames := hlt
  refine ⟨pd.basePhysicalAddress + (pd.currentIndex * 0x1000).setWidth 64, ?_, ?_⟩
  · simp only [vmRetrieveNextPhysicalAddressForPagingStructure, assertThat_of hcur, bind, Except.bind]
    rfl
  · have hfits := h.fits
    have hsize := h.size
    have hal := h.aligned
    have hprod : (pd.currentIndex * 0x1000 : DWORD).toNat = pd.currentIndex.toNat * 4096 := by
      rw [BitVec.toNat_mul, show (0x1000 : DWORD).toNat = 4096 from rfl]
      lia
    have hsum : (pd.basePhysicalAddress + (pd.currentIndex * 0x1000).setWidth 64 : QWORD).toNat =
        pd.basePhysicalAddress.toNat + pd.currentIndex.toNat * 4096 := by
      rw [BitVec.toNat_add, BitVec.toNat_setWidth, hprod]
      lia
    apply BitVec.eq_of_toNat_eq
    rw [frameOf, PagingData.frame, BitVec.toNat_setWidth, BitVec.toNat_ushiftRight,
      Nat.shiftRight_eq_div_pow, BitVec.toNat_ofNat, hsum, shiftForPhysicalAddr]
    lia

end Pool

section Missing

variable {found found' : ℕ → Bool} {d : ℕ}

theorem missing_succ (hd : d < 3) :
    missing found d = (if found (d + 1) then 0 else 1) + missing found (d + 1) := by
  obtain ⟨n, hn⟩ : ∃ n, 3 - d = n + 1 := ⟨2 - d, by lia⟩
  have hrest : 3 - (d + 1) = n := by lia
  rw [missing, missing, hn, hrest, List.range'_succ, List.filter_cons]
  cases found (d + 1) with
  | true => simp
  | false =>
    simp only [Bool.not_false, if_true, List.length_cons, Bool.false_eq_true, if_false]
    exact Nat.add_comm _ _

theorem missing_congr (h : ∀ e, d < e → e ≤ 3 → found e = found' e) :
    missing found d = missing found' d := by
  unfold missing
  congr 1
  apply List.filter_congr
  intro e he
  have he := List.mem_range'_1.mp he
  rw [h e (by omega) (by omega)]

theorem missing_le (found : ℕ → Bool) (d : ℕ) : missing found d ≤ 3 - d := by
  have h := List.length_filter_le (!found ·) (List.range' (d + 1) (3 - d))
  rwa [List.length_range'] at h

theorem tablesNeeded_le (base : QWORD) (k n : ℕ) (found : QWORD → ℕ → Bool) :
    tablesNeeded base k n found ≤ 3 * n := by
  induction n generalizing k found with
  | zero => exact Nat.le_refl 0
  | succ n ih =>
    have hpage := missing_le (found (base + BitVec.ofNat 64 (4096 * k))) 0
    have hrest := ih (k + 1) (linkPage found (base + BitVec.ofNat 64 (4096 * k)))
    unfold tablesNeeded
    dsimp only
    omega

/-- Only the upper levels are looked at. -/
theorem tablesNeeded_congr {found found' : QWORD → ℕ → Bool} (base : QWORD) (k n : ℕ)
    (h : ∀ va e, e ≤ 3 → found va e = found' va e) :
    tablesNeeded base k n found = tablesNeeded base k n found' := by
  induction n generalizing k found found' with
  | zero => rfl
  | succ n ih =>
    unfold tablesNeeded
    dsimp only
    rw [missing_congr fun e _ he => h _ e he]
    congr 1
    apply ih
    intro va e he
    rw [linkPage, linkPage, h va e he]

end Missing

section Setup

variable {mem : PhysMemory} {pd : PagingData} {va : QWORD} {t : BitVec 40} {d : ℕ}

private theorem next_current (h : PagingInv mem pd)
    (hlt : pd.currentIndex.toNat < pd.numberOfFrames.toNat) :
    (pd.currentIndex + 1).toNat = pd.currentIndex.toNat + 1 := by
  have := h.pool.size
  exact toNat_add_one (by omega)

/-- A new table is linked in where the walk found no entry; no page is mapped or lost. -/
private theorem setup_spec (h : PagingInv mem pd) (hd : d < 3)
    (ht : tableAt link mem pd.root (offsets va) d = some t)
    (hp : (mem t (offsets va d)).present = false)
    (hlt : pd.currentIndex.toNat < pd.numberOfFrames.toNat) :
    ∃ mem', vmSetupPagingStructure pd mem t (offsets va d) =
        .ok (mem', { pd with currentIndex := pd.currentIndex + 1 }) ∧
      PagingInv mem' { pd with currentIndex := pd.currentIndex + 1 } ∧
      (mem' t (offsets va d)).present = true ∧ (mem' t (offsets va d)).pageSize = false ∧
      tableAt link mem' pd.root (offsets va) d = some t ∧
      (∀ va' e, e ≤ 3 → linked mem' pd.root va' e = (linked mem pd.root va' e ||
        decide (e = d + 1 ∧ SamePrefix (offsets va) (offsets va') (d + 1)))) ∧
      ∀ va', lookup mem' pd.root va' = lookup mem pd.root va' := by
  obtain ⟨pa, hnext, hpa⟩ := h.pool.next hlt
  have hcur := next_current h hlt
  let e := pteMap pa ⟨0, true, true, true, !pd.kernelSpace, false⟩
  have he : link e = some (frameOf pa) := by
    rw [link_of_present (pteMap_present _ _), pteMap_physicalAddress]
  have hnone : link (mem t (offsets va d)) = none := link_of_not_present hp
  have hfresh : ¬ Reached link mem pd.root 3 (frameOf pa) := by
    rw [hpa]
    exact h.fresh _ (Nat.le_refl _) hlt
  have hne : t ≠ frameOf pa := by
    intro heq
    exact hfresh ⟨offsets va, d, by omega, heq ▸ ht⟩
  have hun := h.tree.unshared
  let mem' := extend mem t (offsets va d) e (frameOf pa) .zero
  have hhere : mem' t (offsets va d) = e := by
    simp only [mem', extend, clear_of_ne hne, write_self]
  have htable : ∀ key k, k ≤ 3 → tableAt link mem' pd.root key k =
      if k = d + 1 ∧ SamePrefix (offsets va) key (d + 1) then some (frameOf pa)
      else tableAt link mem pd.root key k := fun key k hk =>
    tableAt_extend hun ht hd hnone he link_zero hfresh hk
  refine ⟨mem', ?_, ⟨⟨h.pool.aligned, h.pool.fits, h.pool.size, ?_, ?_⟩, ⟨?_, ?_⟩, ?_⟩, ?_, ?_, ?_,
    fun va' e he => ?_, fun va' => ?_⟩
  · simp only [vmSetupPagingStructure, hnext, bind, Except.bind]
    rfl
  · show 1 ≤ (pd.currentIndex + 1).toNat
    omega
  · show (pd.currentIndex + 1).toNat ≤ pd.numberOfFrames.toNat
    omega
  · exact hun.extend ht hd hnone he link_zero hfresh
  · intro key k t' hk ht' hp'
    have ht' : tableAt link mem' pd.root key k = some t' := ht'
    rw [htable key k (by omega)] at ht'
    by_cases hf : t' = frameOf pa
    · subst hf
      simp only [mem', extend, clear_self] at hp'
      cases hp'
    · have hold : tableAt link mem pd.root key k = some t' := by
        split_ifs at ht' with hc
        · exact absurd (Option.some.inj ht').symm hf
        · exact ht'
      simp only [mem', extend, clear_of_ne hf] at hp' ⊢
      by_cases hc : t' = t ∧ key k = offsets va d
      · obtain ⟨rfl, hkey⟩ := hc
        rw [hkey, write_self]
        rfl
      · rw [write_of_ne hc] at hp' ⊢
        exact h.tree.small key k t' hk hold hp'
  · intro j hle hj hr
    have hle : pd.currentIndex.toNat + 1 ≤ j := by
      rw [← hcur]
      exact hle
    rcases (reached_extend hun ht hd hnone he link_zero hfresh _).mp hr with heq | hr
    · rw [hpa] at heq
      have := h.pool.frame_inj hj hlt heq
      omega
    · exact h.fresh j (by omega) hj hr
  · rw [hhere]
    exact pteMap_present _ _
  · rw [hhere]
    rfl
  · rw [htable (offsets va) d (by omega), if_neg (by omega), ht]
  · rw [linked, linked, htable (offsets va') e he]
    split_ifs with hc
    · simp [hc.1, hc.2]
    · simp [hc]
  · unfold lookup
    rw [entryAt_extend hun ht hd hnone he link_zero hfresh]
    split_ifs with hc
    · obtain ⟨hd3, hsame⟩ := hc
      have hold : tableAt link mem pd.root (offsets va') 3 = none := by
        rw [hd3, ← tableAt_congr hsame, tableAt_succ ht, hnone]
      simp [entryAt, hold, PtEntry.zero]
    · rfl

/-- Writing an entry of the last level maps that page and no other. -/
private theorem write_spec (h : PagingInv mem pd)
    (ht : tableAt link mem pd.root (offsets va) 3 = some t) {e : PtEntry} (he : e.present = true) :
    PagingInv (write mem t (offsets va 3) e) pd ∧
      (∀ va' d, d ≤ 3 → linked (write mem t (offsets va 3) e) pd.root va' d =
        linked mem pd.root va' d) ∧
      ∀ va', lookup (write mem t (offsets va 3) e) pd.root va' =
        if SamePage va va' then some e else lookup mem pd.root va' := by
  have hun := h.tree.unshared
  refine ⟨⟨h.pool, ⟨hun.write ht, ?_⟩, fun j hle hj hr => ?_⟩, fun va' d hd => ?_, fun va' => ?_⟩
  · intro key k t' hk ht' hp
    rw [tableAt_write hun ht (by omega)] at ht'
    have hne : ¬ (t' = t ∧ key k = offsets va 3) := by
      intro hc
      have := (hun key (offsets va) k 3 t (by omega) (Nat.le_refl 3) (hc.1 ▸ ht') ht).1
      omega
    rw [write_of_ne hne] at hp ⊢
    exact h.tree.small key k t' hk ht' hp
  · exact h.fresh j hle hj ((reached_write hun ht _).mp hr)
  · rw [linked, linked, tableAt_write hun ht hd]
  · unfold lookup
    split_ifs with hs
    · rw [← entryAt_congr hs, entryAt_write_self hun ht]
      simp [he]
    · rw [entryAt_write_of_ne hun ht hs]

end Setup

section Map

variable {mem : PhysMemory} {pd : PagingData} {vmmData : VmmData} {ctx : MapContext} {va : QWORD}

/-- The paging data after a number of frames were taken from the pool. -/
def PagingData.take (pd : PagingData) (n : ℕ) : PagingData :=
  { pd with currentIndex := pd.currentIndex + BitVec.ofNat 32 n }

theorem take_zero (pd : PagingData) : pd.take 0 = pd := by
  simp [PagingData.take]

private theorem take_succ (pd : PagingData) (n : ℕ) :
    PagingData.take { pd with currentIndex := pd.currentIndex + 1 } n = pd.take (n + 1) := by
  simp only [PagingData.take, PagingData.mk.injEq, true_and, and_true]
  rw [BitVec.add_assoc, Nat.add_comm n 1, BitVec.ofNat_add]
  rfl

/-- What mapping a page from level `d` on leads to: the missing tables are linked in and the page is
mapped, or fewer frames than that are left in the pool. -/
def MapsPage (vmmData : VmmData) (ctx : MapContext) (va : QWORD) (mem : PhysMemory) (pd : PagingData)
    (d : ℕ) (r : Except Fault (PhysMemory × PagingData)) : Prop :=
  (∃ mem', r = .ok (mem', pd.take (missing (linked mem pd.root va) d)) ∧
    pd.currentIndex.toNat + missing (linked mem pd.root va) d ≤ pd.numberOfFrames.toNat ∧
    PagingInv mem' (pd.take (missing (linked mem pd.root va) d)) ∧
    (∀ va' e, e ≤ 3 → linked mem' pd.root va' e = (linked mem pd.root va' e ||
      decide (d < e ∧ SamePrefix (offsets va) (offsets va') e))) ∧
    ∀ va', lookup mem' pd.root va' =
      if SamePage va va' then some (mappedEntry vmmData ctx pd va (lookup mem pd.root va))
      else lookup mem pd.root va') ∨
  r = .error .assertFailed ∧
    pd.numberOfFrames.toNat < pd.currentIndex.toNat + missing (linked mem pd.root va) d

/-- At the last level the entry is written, unless it is present and kept. -/
private theorem walkLevels_map_last (h : PagingInv mem pd) (hva : va ≠ 0) {t : BitVec 40}
    (ht : tableAt link mem pd.root (offsets va) 3 = some t) :
    MapsPage vmmData ctx va mem pd 3 (walkLevels (vmMapPage vmmData ctx) va 1 t (mem, pd)) := by
  have hentry : entryAt link mem pd.root 3 (offsets va) = some (mem t (offsets va 3)) := by
    simp [entryAt, ht]
  have hnone : ∀ va' e, e ≤ 3 → decide (3 < e ∧ SamePrefix (offsets va) (offsets va') e) = false := by
    intro va' e he
    rw [decide_eq_false_iff_not]
    omega
  have hroom := h.pool.current
  have hzero : missing (linked mem pd.root va) 3 = 0 := rfl
  rw [MapsPage, hzero, take_zero]
  refine Or.inl ?_
  by_cases hkeep : (mem t (offsets va 3)).present = true ∧ ctx.invalidate = false
  · obtain ⟨hp, hinv⟩ := hkeep
    have hold : lookup mem pd.root va = some (mem t (offsets va 3)) := by
      simp [lookup, hentry, hp]
    refine ⟨mem, ?_, hroom, h, fun va' e he => by rw [hnone va' e he, Bool.or_false], fun va' => ?_⟩
    · rw [walkLevels_last]
      simp only [vmMapPage, assertThat_of hva, bind, Except.bind, pteIsPresent, hp, hinv]
      rfl
    · simp only [mappedEntry, hinv, hold, Bool.false_eq_true, if_false, Option.getD_some]
      split_ifs with hs
      · rw [← lookup_congr hs, hold]
      · rfl
  · have hnew : mappedEntry vmmData ctx pd va (lookup mem pd.root va) =
        mapEntry vmmData ctx pd va := by
      cases hi : ctx.invalidate with
      | true => simp [mappedEntry, hi]
      | false =>
        have hp : (mem t (offsets va 3)).present = false := by
          by_contra hp
          exact hkeep ⟨by simpa using hp, hi⟩
        simp [mappedEntry, hi, lookup, hentry, Option.filter, hp]
    have hguard : (pteIsPresent (mem t (offsets va 3)) &&
        !((4 : ℕ) == pagingTablesLastLevel && ctx.invalidate)) = false := by
      cases hi : ctx.invalidate with
      | true => simp [pagingTablesLastLevel]
      | false =>
        have hp : (mem t (offsets va 3)).present = false := by
          by_contra hp
          exact hkeep ⟨by simpa using hp, hi⟩
        simp [pteIsPresent, hp]
    obtain ⟨hinv', hlinked, hlook⟩ := write_spec h ht
      (show (mapEntry vmmData ctx pd va).present = true from pteMap_present _ _)
    refine ⟨write mem t (offsets va 3) (mapEntry vmmData ctx pd va), ?_, hroom, hinv',
      fun va' e he => by rw [hlinked va' e he, hnone va' e he, Bool.or_false], by rw [hnew]; exact hlook⟩
    rw [walkLevels_last]
    simp only [vmMapPage, assertThat_of hva, bind, Except.bind, hguard]
    rfl

/-- From any level on, the missing tables are linked in and the page is mapped. -/
private theorem walkLevels_map (h : PagingInv mem pd) (hva : va ≠ 0) {d : ℕ} (hd : d ≤ 3)
    {t : BitVec 40} (ht : tableAt link mem pd.root (offsets va) d = some t) :
    MapsPage vmmData ctx va mem pd d
      (walkLevels (vmMapPage vmmData ctx) va (4 - d) t (mem, pd)) := by
  induction hk : 3 - d generalizing mem pd d t with
  | zero =>
    obtain rfl : d = 3 := by omega
    exact walkLevels_map_last h hva ht
  | succ k ih =>
    have hlt : d < 3 := by omega
    have hleft : 4 - d = (3 - d) + 1 := by lia
    have hnext : 3 - d = 4 - (d + 1) := by lia
    have hlevel : pagingTablesLastLevel - (3 - d) = d + 1 := by
      rw [pagingTablesLastLevel]
      lia
    have hne : d + 1 ≠ pagingTablesLastLevel := by
      rw [pagingTablesLastLevel]
      omega
    have hmissing := @missing_succ (linked mem pd.root va) d hlt
    rw [hleft]
    unfold walkLevels
    simp only [hlevel, Nat.add_sub_cancel, vmMapPage, assertThat_of hva, bind, Except.bind,
      pteIsPresent, if_neg hne]
    by_cases hp : (mem t (offsets va d)).present = true
    · -- the table is there already
      have hguard : ((mem t (offsets va d)).present &&
          !(d + 1 == pagingTablesLastLevel && ctx.invalidate)) = true := by
        simp [hp, hne]
      have hstep : tableAt link mem pd.root (offsets va) (d + 1) =
          some (mem t (offsets va d)).physicalAddress := by
        rw [tableAt_succ ht, link_of_present hp]
      have hfound : linked mem pd.root va (d + 1) = true := by
        rw [linked, hstep]
        rfl
      rw [hfound, if_pos rfl, Nat.zero_add] at hmissing
      have hrest := ih h (by omega) hstep (by lia)
      simp only [hguard, if_true, pure, Except.pure, Bool.not_true, Bool.false_eq_true, if_false,
        if_pos hne, assertThat_of (h.tree.small _ d t hlt ht hp)]
      rw [hnext]
      unfold MapsPage at hrest ⊢
      rw [hmissing]
      rcases hrest with ⟨mem', hok, hroom, hinv, hlinked, hlook⟩ | hfail
      · refine Or.inl ⟨mem', hok, hroom, hinv, fun va' e he => ?_, hlook⟩
        rw [hlinked va' e he]
        by_cases hs : e = d + 1 ∧ SamePrefix (offsets va) (offsets va') (d + 1)
        · obtain ⟨rfl, hs⟩ := hs
          have hthere : linked mem pd.root va' (d + 1) = true := by
            rw [← hfound, linked, linked, tableAt_congr hs]
          simp [hthere]
        · congr 1
          rw [decide_eq_decide]
          constructor
          · exact fun hc => ⟨by omega, hc.2⟩
          · intro hc
            have : e ≠ d + 1 := fun heq => hs ⟨heq, heq ▸ hc.2⟩
            exact ⟨by omega, hc.2⟩
      · exact Or.inr hfail
    · have hp : (mem t (offsets va d)).present = false := by simpa using hp
      have hfound : linked mem pd.root va (d + 1) = false := by
        rw [linked, tableAt_succ ht, link_of_not_present hp]
        rfl
      rw [hfound, if_neg Bool.false_ne_true] at hmissing
      simp only [hp, Bool.false_and, Bool.false_eq_true, if_false]
      by_cases hpool : pd.currentIndex.toNat < pd.numberOfFrames.toNat
      · obtain ⟨mem₁, hset, hinv₁, hp₁, hs₁, ht₁, hlinked₁, hl₁⟩ := setup_spec h hlt ht hp hpool
        have hcur := next_current h hpool
        have hstep : tableAt link mem₁ pd.root (offsets va) (d + 1) =
            some (mem₁ t (offsets va d)).physicalAddress := by
          rw [tableAt_succ ht₁, link_of_present hp₁]
        have hsame : missing (linked mem₁ pd.root va) (d + 1) =
            missing (linked mem pd.root va) (d + 1) := by
          apply missing_congr
          intro e he hle
          rw [hlinked₁ va e hle, decide_eq_false (by omega), Bool.or_false]
        have hrest := ih hinv₁ (by omega) hstep (by lia)
        simp only [hset, pure, Except.pure, Bool.not_true, Bool.false_eq_true, if_false, if_pos hne,
          assertThat_of hs₁]
        rw [hnext]
        unfold MapsPage at hrest ⊢
        have hplus : missing (linked mem pd.root va) (d + 1) + 1 = missing (linked mem pd.root va) d := by
          omega
        rw [show ({ pd with currentIndex := pd.currentIndex + 1 } : PagingData).root = pd.root
          from rfl, hsame, take_succ, hplus] at hrest
        rcases hrest with ⟨mem', hok, hroom, hinv', hlinked, hl'⟩ | ⟨herr, hfew⟩
        · have hroom : (pd.currentIndex + 1).toNat + missing (linked mem pd.root va) (d + 1) ≤
            pd.numberOfFrames.toNat := hroom
          refine Or.inl ⟨mem', hok, by omega, hinv', fun va' e he => ?_, fun va' => ?_⟩
          · rw [hlinked va' e he, hlinked₁ va' e he, Bool.or_assoc, ← Bool.decide_or]
            congr 1
            rw [decide_eq_decide]
            constructor
            · rintro (⟨rfl, hs⟩ | ⟨hlt', hs⟩)
              · exact ⟨by omega, hs⟩
              · exact ⟨by omega, hs⟩
            · intro hc
              by_cases he1 : e = d + 1
              · exact Or.inl ⟨he1, he1 ▸ hc.2⟩
              · exact Or.inr ⟨by omega, hc.2⟩
          · have hl' := hl' va'
            rw [hl₁, hl₁] at hl'
            exact hl'
        · refine Or.inr ⟨herr, ?_⟩
          have hfew : pd.numberOfFrames.toNat <
            (pd.currentIndex + 1).toNat + missing (linked mem pd.root va) (d + 1) := hfew
          lia
      · have hge : ¬ pd.currentIndex < pd.numberOfFrames := hpool
        refine Or.inr ⟨?_, by omega⟩
        simp only [vmSetupPagingStructure, vmRetrieveNextPhysicalAddressForPagingStructure,
          assertThat_of_not hge, bind, Except.bind]

/-- Mapping one page. -/
theorem walkLevels_map_spec (h : PagingInv mem pd) (hva : va ≠ 0) :
    MapsPage vmmData ctx va mem pd 0
      (walkLevels (vmMapPage vmmData ctx) va 4 pd.root (mem, pd)) :=
  walkLevels_map h hva (Nat.zero_le 3) rfl

end Map

/-- The `k`th page from a base on. -/
def pageAt (base : QWORD) (k : ℕ) : QWORD := base + BitVec.ofNat 64 (4096 * k)

/-- How many pages an address is after the base, counted in the pages the walker tells apart. -/
def pageDistance (base va : QWORD) : ℕ := (va - base).toNat / 4096 % 2 ^ 36

section Range

variable {mem : PhysMemory} {pd : PagingData} {base va : QWORD} {root : BitVec 40}

theorem samePage_pageAt_iff (hal : base.toNat % 4096 = 0) (k : ℕ) :
    SamePage (pageAt base k) va ↔ k % 2 ^ 36 = pageDistance base va := by
  have hb := base.isLt
  have hv := va.isLt
  rw [samePage_iff, pageAt, pageDistance, BitVec.toNat_add, BitVec.toNat_ofNat, BitVec.toNat_sub]
  lia

theorem offset_succ (k : ℕ) :
    BitVec.ofNat 64 (4096 * k) + pageSize = BitVec.ofNat 64 (4096 * (k + 1)) := by
  rw [Nat.mul_succ, BitVec.ofNat_add]
  rfl

theorem pageAt_succ (base : QWORD) (k : ℕ) : pageAt base k + pageSize = pageAt base (k + 1) := by
  rw [pageAt, pageAt, BitVec.add_assoc, offset_succ]

theorem pageAt_toNat {k : ℕ} (h : base.toNat + 4096 * k < 2 ^ 64) :
    (pageAt base k).toNat = base.toNat + 4096 * k := by
  rw [pageAt, BitVec.toNat_add, BitVec.toNat_ofNat]
  lia

theorem pageDistance_pageAt (hal : base.toNat % 4096 = 0) {k : ℕ} (hk : k < 2 ^ 36) :
    pageDistance base (pageAt base k) = k := by
  rw [← (samePage_pageAt_iff hal k).mp (SamePage.refl _), Nat.mod_eq_of_lt hk]

/-- Unmapping consecutive pages, from page `k` on. -/
theorem walkPages_unmap {cr3 : QWORD} (hal : base.toNat % 4096 = 0)
    (htree : IsTree mem (frameOf cr3)) (release : Bool) (released : List QWORD) {k n : ℕ}
    (hsum : k + n ≤ 2 ^ 36) (hpos : ∀ j < k + n, pageAt base j ≠ 0) :
    ∃ mem', walkPages cr3 base (vmUnmapPage release) n (BitVec.ofNat 64 (4096 * k)) (mem, released) =
        .ok (mem', released ++ if release then
          (List.range' k n).filterMap fun j => translate mem (frameOf cr3) (pageAt base j) else []) ∧
      Keeps mem mem' (frameOf cr3) ∧
      ∀ va, lookup mem' (frameOf cr3) va =
        if k ≤ pageDistance base va ∧ pageDistance base va < k + n then none
        else lookup mem (frameOf cr3) va := by
  induction n generalizing mem released k with
  | zero =>
    refine ⟨mem, by cases release <;> simp [walkPages], htree.keeps, fun va => ?_⟩
    rw [if_neg (by omega)]
  | succ n ih =>
    obtain ⟨mem₁, h₁, hkeeps₁, hl₁⟩ := walkLevels_unmap htree (hpos k (by omega)) release released
    obtain ⟨mem', h', hkeeps', hl'⟩ := ih hkeeps₁.tree (released ++
      if release then (translate mem (frameOf cr3) (pageAt base k)).toList else [])
      (k := k + 1) (by omega) (fun j hj => hpos j (by omega))
    refine ⟨mem', ?_, hkeeps₁.trans hkeeps', fun va => ?_⟩
    · have hrest : (List.range' (k + 1) n).filterMap
            (fun j => translate mem₁ (frameOf cr3) (pageAt base j)) =
          (List.range' (k + 1) n).filterMap
            fun j => translate mem (frameOf cr3) (pageAt base j) := by
        apply List.filterMap_congr
        intro j hj
        have hj := List.mem_range'_1.mp hj
        have hne : ¬ SamePage (pageAt base k) (pageAt base j) := by
          rw [samePage_pageAt_iff hal, pageDistance_pageAt hal (by omega)]
          omega
        rw [translate, translate, hl₁, if_neg hne]
      unfold walkPages
      simp only [bind, Except.bind, offset_succ]
      rw [show base + BitVec.ofNat 64 (4096 * k) = pageAt base k from rfl,
        show pagingTablesLastLevel = 4 from rfl, h₁]
      dsimp only
      rw [h', hrest]
      cases release with
      | false => simp
      | true =>
        cases ht : translate mem (frameOf cr3) (pageAt base k) with
        | none => simp [List.range'_succ, ht]
        | some pa => simp [List.range'_succ, ht]
    · rw [hl', hl₁]
      have hiff := @samePage_pageAt_iff _ va hal k
      rw [Nat.mod_eq_of_lt (by omega : k < 2 ^ 36)] at hiff
      by_cases hin : k + 1 ≤ pageDistance base va ∧ pageDistance base va < k + 1 + n
      · rw [if_pos hin, if_pos (by omega)]
      · rw [if_neg hin]
        by_cases hs : SamePage (pageAt base k) va
        · have := hiff.mp hs
          rw [if_pos hs, if_pos (by omega)]
        · have : ¬ k = pageDistance base va := fun h => hs (hiff.mpr h)
          rw [if_neg hs, if_neg (by omega)]

/-- What mapping the pages `k`, …, `k + n - 1` leads to, or the pool runs out. -/
def MapsPages (vmmData : VmmData) (ctx : MapContext) (base : QWORD) (mem : PhysMemory)
    (pd : PagingData) (k n : ℕ) (r : Except Fault (PhysMemory × PagingData)) : Prop :=
  (∃ mem', ∃ m ≤ 3 * n, r = .ok (mem', pd.take m) ∧ PagingInv mem' (pd.take m) ∧
    ∀ va, lookup mem' pd.root va =
      if k ≤ pageDistance base va ∧ pageDistance base va < k + n then
        some (mappedEntry vmmData ctx pd (pageAt base (pageDistance base va))
          (lookup mem pd.root va))
      else lookup mem pd.root va) ∨
  r = .error .assertFailed ∧ pd.numberOfFrames.toNat < pd.currentIndex.toNat + 3 * n

/-- The frames that mapping the pages takes from the pool, and when there are too few. -/
def TakesTables (base : QWORD) (mem : PhysMemory) (pd : PagingData) (k n : ℕ)
    (r : Except Fault (PhysMemory × PagingData)) : Prop :=
  (∃ mem', r = .ok (mem', pd.take (tablesNeeded base k n (linked mem pd.root))) ∧
    pd.currentIndex.toNat + tablesNeeded base k n (linked mem pd.root) ≤ pd.numberOfFrames.toNat) ∨
  r = .error .assertFailed ∧
    pd.numberOfFrames.toNat < pd.currentIndex.toNat + tablesNeeded base k n (linked mem pd.root)

theorem take_take (pd : PagingData) (m n : ℕ) : (pd.take m).take n = pd.take (m + n) := by
  simp only [PagingData.take, PagingData.mk.injEq, true_and, and_true]
  rw [BitVec.add_assoc, ← BitVec.ofNat_add]

theorem take_current_le (pd : PagingData) (m : ℕ) :
    (pd.take m).currentIndex.toNat ≤ pd.currentIndex.toNat + m := by
  show (pd.currentIndex + BitVec.ofNat 32 m).toNat ≤ _
  rw [BitVec.toNat_add, BitVec.toNat_ofNat]
  lia

theorem walkPages_map {vmmData : VmmData} {ctx : MapContext} (hal : base.toNat % 4096 = 0)
    (h : PagingInv mem pd) {k n : ℕ} (hsum : k + n ≤ 2 ^ 36)
    (hpos : ∀ j < k + n, pageAt base j ≠ 0) :
    MapsPages vmmData ctx base mem pd k n (walkPages pd.basePhysicalAddress base
        (vmMapPage vmmData ctx) n (BitVec.ofNat 64 (4096 * k)) (mem, pd)) ∧
      TakesTables base mem pd k n (walkPages pd.basePhysicalAddress base
        (vmMapPage vmmData ctx) n (BitVec.ofNat 64 (4096 * k)) (mem, pd)) := by
  induction n generalizing mem pd k with
  | zero =>
    refine ⟨Or.inl ⟨mem, 0, Nat.le_refl 0, by rw [take_zero]; rfl, by rwa [take_zero], fun va => ?_⟩,
      Or.inl ⟨mem, by rw [tablesNeeded, take_zero]; rfl, h.pool.current⟩⟩
    rw [if_neg (by omega)]
  | succ n ih =>
    have hpage := @walkLevels_map_spec _ _ vmmData ctx _ h (hpos k (by omega))
    have hle := missing_le (linked mem pd.root (pageAt base k)) 0
    have hneeded : tablesNeeded base k (n + 1) (linked mem pd.root) =
        missing (linked mem pd.root (pageAt base k)) 0 +
          tablesNeeded base (k + 1) n (linkPage (linked mem pd.root) (pageAt base k)) := rfl
    unfold TakesTables
    rw [hneeded]
    unfold walkPages
    simp only [bind, Except.bind, offset_succ]
    rw [show base + BitVec.ofNat 64 (4096 * k) = pageAt base k from rfl,
      show pagingTablesLastLevel = 4 from rfl, show frameOf pd.basePhysicalAddress = pd.root from rfl]
    obtain ⟨mem₁, hstep, hroom, hinv₁, hlinked, hl₁⟩ | ⟨herr, hfew⟩ := hpage
    · rw [hstep]
      dsimp only
      obtain ⟨hmaps, htakes⟩ := ih hinv₁ (k := k + 1) (by omega) (fun j hj => hpos j (by omega))
      have hcur : (pd.take (missing (linked mem pd.root (pageAt base k)) 0)).currentIndex.toNat =
          pd.currentIndex.toNat + missing (linked mem pd.root (pageAt base k)) 0 := by
        have hsize := h.pool.size
        show (pd.currentIndex + BitVec.ofNat 32 _).toNat = _
        rw [BitVec.toNat_add, BitVec.toNat_ofNat]
        lia
      have hsame : tablesNeeded base (k + 1) n
          (linked mem₁ (pd.take (missing (linked mem pd.root (pageAt base k)) 0)).root) =
          tablesNeeded base (k + 1) n (linkPage (linked mem pd.root) (pageAt base k)) := by
        apply tablesNeeded_congr
        intro va e he
        rw [show (pd.take (missing (linked mem pd.root (pageAt base k)) 0)).root = pd.root from rfl,
          hlinked va e he, linkPage]
        cases e with
        | zero => simp [linked, tableAt]
        | succ e => simp
      constructor
      · obtain ⟨mem', m, hm, h', hinv', hl'⟩ | ⟨herr, hfew⟩ := hmaps
        · rw [take_take] at h' hinv'
          refine Or.inl ⟨mem', _, by lia, h', hinv', fun va => ?_⟩
          have hl' := hl' va
          rw [show (pd.take (missing (linked mem pd.root (pageAt base k)) 0)).root = pd.root from rfl,
            hl₁] at hl'
          rw [hl']
          have hiff := @samePage_pageAt_iff _ va hal k
          rw [Nat.mod_eq_of_lt (by omega : k < 2 ^ 36)] at hiff
          by_cases hin : k + 1 ≤ pageDistance base va ∧ pageDistance base va < k + 1 + n
          · have hne : ¬ SamePage (pageAt base k) va := by
              rw [hiff]
              omega
            rw [if_pos hin, if_neg hne, if_pos (by omega)]
            rfl
          · rw [if_neg hin]
            by_cases hs : SamePage (pageAt base k) va
            · have hk := hiff.mp hs
              rw [if_pos hs, if_pos (by omega), ← hk, lookup_congr hs]
            · have : ¬ k = pageDistance base va := fun h => hs (hiff.mpr h)
              rw [if_neg hs, if_neg (by omega)]
        · rw [hcur] at hfew
          have hfew : pd.numberOfFrames.toNat < _ := hfew
          exact Or.inr ⟨herr, by lia⟩
      · unfold TakesTables at htakes
        rw [hsame, take_take, hcur] at htakes
        obtain ⟨mem', h', hfits⟩ | ⟨herr, hfew⟩ := htakes
        · have hfits : _ ≤ pd.numberOfFrames.toNat := hfits
          exact Or.inl ⟨mem', h', by lia⟩
        · have hfew : pd.numberOfFrames.toNat < _ := hfew
          exact Or.inr ⟨herr, by lia⟩
    · rw [herr]
      exact ⟨Or.inr ⟨rfl, by lia⟩, Or.inr ⟨rfl, by omega⟩⟩

/-- The walk does not get past page 0. -/
theorem walkPages_map_ne_zero {vmmData : VmmData} {ctx : MapContext} {cr3 : QWORD} {n k : ℕ}
    {s r : PhysMemory × PagingData}
    (h : walkPages cr3 base (vmMapPage vmmData ctx) n (BitVec.ofNat 64 (4096 * k)) s = .ok r) :
    ∀ j < n, pageAt base (k + j) ≠ 0 := by
  induction n generalizing k s with
  | zero => exact fun j hj => absurd hj (Nat.not_lt_zero j)
  | succ n ih =>
    obtain ⟨s₁, hpage, hrest⟩ := bind_eq_ok.mp h
    have hfirst : pageAt base k ≠ 0 := by
      obtain ⟨_, hcall, -⟩ := bind_eq_ok.mp hpage
      obtain ⟨_, hne, -⟩ := bind_eq_ok.mp hcall
      exact assertThat_eq_ok.mp hne
    rw [offset_succ] at hrest
    intro j hj
    cases j with
    | zero => exact hfirst
    | succ j =>
      have := ih hrest j (by omega)
      rwa [show k + (j + 1) = k + 1 + j by omega]

/-- A range of whole pages that neither starts in page 0 nor runs over the end of the address
space. -/
structure PageRange (base size : QWORD) : Prop where
  base_ne : base ≠ 0
  base_aligned : isAddressAligned base pageSize = true
  size_ne : size ≠ 0
  size_aligned : isAddressAligned size pageSize = true
  fits : base.toNat + size.toNat ≤ 2 ^ 64

variable {size : QWORD}

theorem aligned_iff {a : QWORD} : isAddressAligned a pageSize = true ↔ a.toNat % 4096 = 0 := by
  rw [isAddressAligned_iff (k := 12) rfl, Nat.dvd_iff_mod_eq_zero]
  rfl

theorem alignLower_toNat (va : QWORD) :
    (alignAddressLower va pageSize).toNat = va.toNat - va.toNat % 4096 :=
  alignAddressLower_toNat (k := 12) rfl

theorem alignLower_of_aligned {va : QWORD} (h : va.toNat % 4096 = 0) :
    alignAddressLower va pageSize = va := by
  apply BitVec.eq_of_toNat_eq
  rw [alignLower_toNat]
  lia

theorem alignUpper_of_aligned {va : QWORD} (h : va.toNat % 4096 = 0) :
    alignAddressUpper va pageSize = va := by
  have hlt := va.isLt
  apply BitVec.eq_of_toNat_eq
  rw [alignAddressUpper_toNat (k := 12) rfl, alignPadding, show pageSize.toNat = 4096 from rfl]
  lia

theorem PageRange.pageAt_ne (h : PageRange base size) {j : ℕ} (hj : 4096 * j < size.toNat) :
    pageAt base j ≠ 0 := by
  have hfits := h.fits
  intro h0
  have h0 := congrArg BitVec.toNat h0
  have hz : (0 : QWORD).toNat = 0 := rfl
  rw [pageAt, BitVec.toNat_add, BitVec.toNat_ofNat, hz] at h0
  apply h.base_ne
  apply BitVec.eq_of_toNat_eq
  rw [hz]
  lia

theorem PageRange.count (h : PageRange base size) :
    (size.toNat + 4095) / 4096 = size.toNat / 4096 := by
  have := aligned_iff.mp h.size_aligned
  lia

/-- A mapping that goes through neither starts in page 0 nor runs over the end. -/
theorem PageRange.of_map {vmmData : VmmData} {pa : QWORD} {rights : DWORD}
    {invalidate uncacheable : Bool} {r : PhysMemory × PagingData}
    (hbase : isAddressAligned base pageSize = true)
    (hok : vmmMapMemoryInternal vmmData mem pd pa size base rights invalidate uncacheable = .ok r) :
    PageRange base size := by
  obtain ⟨_, -, hok⟩ := bind_eq_ok.mp hok
  obtain ⟨_, hsize, hwalk⟩ := bind_eq_ok.mp hok
  obtain ⟨hne, hal⟩ := assertThat_eq_ok.mp hsize
  have hpages := walkPages_map_ne_zero (k := 0) hwalk
  have hmod := aligned_iff.mp hal
  have hbmod := aligned_iff.mp hbase
  have hlt := base.isLt
  have hz : (0 : QWORD).toNat = 0 := rfl
  have hpos : size.toNat ≠ 0 := fun h0 => hne (BitVec.eq_of_toNat_eq h0)
  refine ⟨?_, hbase, hne, hal, ?_⟩
  · have hfirst := hpages 0 (by lia)
    simpa [pageAt] using hfirst
  · by_contra hwraps
    apply hpages ((2 ^ 64 - base.toNat) / 4096) (by lia)
    apply BitVec.eq_of_toNat_eq
    rw [pageAt, BitVec.toNat_add, BitVec.toNat_ofNat, hz]
    lia

/-- `VmmMapMemoryInternal` maps the pages of the range, as long as the pool has frames. -/
theorem vmmMapMemoryInternal_spec {vmmData : VmmData} (h : PagingInv mem pd)
    (hr : PageRange base size) (hsize : size.toNat ≤ 2 ^ 48) {pa : QWORD}
    (hpa : isAddressAligned pa pageSize = true) (rights : DWORD) (invalidate uncacheable : Bool) :
    MapsPages vmmData ⟨pa, base, rights, invalidate, uncacheable⟩ base mem pd 0 (size.toNat / 4096)
      (vmmMapMemoryInternal vmmData mem pd pa size base rights invalidate uncacheable) := by
  have hs : size ≠ 0 ∧ isAddressAligned size pageSize = true := ⟨hr.size_ne, hr.size_aligned⟩
  simp only [vmmMapMemoryInternal, assertThat_of hpa, assertThat_of hs, bind, Except.bind,
    vmWalkPagingTables, hr.count]
  exact (walkPages_map (aligned_iff.mp hr.base_aligned) h (by omega)
    (fun j hj => hr.pageAt_ne (by omega))).1

/-- How many frames it takes from the pool. -/
theorem vmmMapMemoryInternal_tables {vmmData : VmmData} (h : PagingInv mem pd)
    (hr : PageRange base size) (hsize : size.toNat ≤ 2 ^ 48) {pa : QWORD}
    (hpa : isAddressAligned pa pageSize = true) (rights : DWORD) (invalidate uncacheable : Bool) :
    TakesTables base mem pd 0 (size.toNat / 4096)
      (vmmMapMemoryInternal vmmData mem pd pa size base rights invalidate uncacheable) := by
  have hs : size ≠ 0 ∧ isAddressAligned size pageSize = true := ⟨hr.size_ne, hr.size_aligned⟩
  simp only [vmmMapMemoryInternal, assertThat_of hpa, assertThat_of hs, bind, Except.bind,
    vmWalkPagingTables, hr.count]
  exact (walkPages_map (aligned_iff.mp hr.base_aligned) h (by omega)
    (fun j hj => hr.pageAt_ne (by omega))).2

/-- `VmmUnmapMemoryEx` unmaps the pages of the range and releases their frames in order. -/
theorem vmmUnmapMemoryEx_spec {cr3 : QWORD} (htree : IsTree mem (frameOf cr3))
    (hr : PageRange base size) (hsize : size.toNat ≤ 2 ^ 48) (release : Bool) :
    ∃ mem', vmmUnmapMemoryEx mem cr3 base size release =
        .ok (mem', if release then (List.range (size.toNat / 4096)).filterMap
          fun j => translate mem (frameOf cr3) (pageAt base j) else []) ∧
      Keeps mem mem' (frameOf cr3) ∧
      ∀ va, lookup mem' (frameOf cr3) va =
        if pageDistance base va < size.toNat / 4096 then none
        else lookup mem (frameOf cr3) va := by
  obtain ⟨mem', h', hkeeps, hl'⟩ := walkPages_unmap (aligned_iff.mp hr.base_aligned) htree release []
    (k := 0) (n := size.toNat / 4096) (by omega) (fun j hj => hr.pageAt_ne (by omega))
  refine ⟨mem', ?_, hkeeps, fun va => ?_⟩
  · have hbase : ¬ (base = 0 ∨ isAddressAligned base pageSize = false) :=
      not_or_intro hr.base_ne (by simp [hr.base_aligned])
    have hlen : ¬ (size = 0 ∨ isAddressAligned size pageSize = false) :=
      not_or_intro hr.size_ne (by simp [hr.size_aligned])
    rw [vmmUnmapMemoryEx, if_neg hbase, if_neg hlen, vmWalkPagingTables, hr.count,
      List.range_eq_range']
    exact h'
  · rw [hl']
    simp only [Nat.zero_le, true_and, Nat.zero_add]

end Range

/-- Nothing is mapped yet under a root table without present entries. -/
theorem lookup_of_emptyRoot {mem : PhysMemory} {root : BitVec 40}
    (hroot : ∀ i, (mem root i).present = false) (va : QWORD) : lookup mem root va = none := by
  simp [lookup, entryAt, tableAt, link, hroot]

/-- A root table without present entries is a tree, whatever the other frames hold. -/
theorem pagingInv_of_emptyRoot (mem : PhysMemory) {pd : PagingData} (h : PoolOk pd)
    (hroot : ∀ i, (mem pd.root i).present = false) : PagingInv mem pd := by
  have honly : ∀ key d t, tableAt link mem pd.root key d = some t → d = 0 ∧ t = pd.root := by
    intro key d t ht
    induction d generalizing t with
    | zero => exact ⟨rfl, (Option.some.inj ht).symm⟩
    | succ d ih =>
      obtain ⟨t', ht', hl⟩ := tableAt_of_succ ht
      obtain ⟨rfl, rfl⟩ := ih t' ht'
      rw [link_of_not_present (hroot _)] at hl
      cases hl
  refine ⟨h, ⟨?_, ?_⟩, ?_⟩
  · intro key key' d d' t _ _ ht ht'
    obtain ⟨rfl, -⟩ := honly key d t ht
    obtain ⟨rfl, -⟩ := honly key' d' t ht'
    exact ⟨rfl, fun k hk => absurd hk (by omega)⟩
  · intro key d t _ ht hp
    obtain ⟨rfl, rfl⟩ := honly key d t ht
    rw [hroot] at hp
    cases hp
  · intro j hle hj hr
    obtain ⟨key, d, -, ht⟩ := hr
    obtain ⟨-, heq⟩ := honly key d _ ht
    have hroot := h.rootTaken
    have := h.frame_inj hj (by omega) (heq.trans h.root_eq)
    omega

/-- Memory of zero bytes. -/
def emptyMemory : PhysMemory := fun _ _ => .zero

/-- A pool of 16 frames from 1 MB on. -/
def smallPool : PagingData := ⟨0x100000, 16, 1, true⟩

theorem poolOk_smallPool : PoolOk smallPool := by
  constructor <;> decide

/-- The page at `0x1000` mapped to the frame at `0x200000`. -/
def onePage : Except Fault (PhysMemory × PagingData) :=
  vmmMapMemoryInternal ⟨0, 0⟩ emptyMemory smallPool 0x200000 0x1000 0x1000 pageRightsWrite true false

theorem onePage_spec : ∃ mem pd, onePage = .ok (mem, pd) ∧ IsTree mem smallPool.root ∧
    ∀ va, translate mem smallPool.root va =
      if pageDistance 0x1000 va = 0 then some 0x200000 else none := by
  have hr : PageRange 0x1000 0x1000 := by constructor <;> decide
  have hspec := @vmmMapMemoryInternal_spec _ _ _ _ ⟨0, 0⟩
    (pagingInv_of_emptyRoot emptyMemory poolOk_smallPool fun _ => rfl) hr (by decide) 0x200000
    (by decide) pageRightsWrite true false
  rcases hspec with ⟨mem, m, -, hok, hinv, hlook⟩ | ⟨-, hfew⟩
  · refine ⟨mem, _, hok, hinv.tree, fun va => ?_⟩
    rw [translate, hlook va, lookup_of_emptyRoot fun _ => rfl]
    have hone : (0x1000 : QWORD).toNat / 4096 = 1 := by decide
    simp only [hone, Nat.zero_le, true_and, Nat.zero_add, Nat.lt_one_iff]
    split_ifs with h
    · rw [h]
      decide
    · rfl
  · exact absurd hfew (by decide)

end HAL9000.Paging
