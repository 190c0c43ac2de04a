import HAL9000.Vmm.PageTables

/-! What the walker does on paging structures that form a tree: one page is mapped, unmapped or
translated, and every other page keeps its entry. -/
namespace HAL9000.Paging

open RadixTree

/-- The table an entry links to. -/
def link (e : PtEntry) : Option (BitVec 40) :=
  if e.present then some e.physicalAddress else none

/-- The entry that maps the page of an address. -/
def lookup (mem : PhysMemory) (root : BitVec 40) (va : QWORD) : Option PtEntry :=
  (entryAt link mem root 3 (offsets va)).filter (·.present)

/-- The address of the frame to which the page of an address is mapped. -/
def translate (mem : PhysMemory) (root : BitVec 40) (va : QWORD) : Option QWORD :=
  (lookup mem root va).map pteGetPhysicalAddress

/-- The addresses lie in one page: the bits from 48 on are not looked at. -/
def SamePage (va va' : QWORD) : Prop := SamePrefix (offsets va) (offsets va') 4

instance (va va' : QWORD) : Decidable (SamePage va va') :=
  inferInstanceAs (Decidable (SamePrefix (offsets va) (offsets va') 4))

/-- The paging structures under a root: no table is shared, and there are no large pages. -/
structure IsTree (mem : PhysMemory) (root : BitVec 40) : Prop where
  unshared : Unshared link mem root 3
  small : ∀ key d t, d < 3 → tableAt link mem root key d = some t →
    (mem t (key d)).present = true → (mem t (key d)).pageSize = false

/-- No large page is found on the way to a page. -/
def SmallPages (mem : PhysMemory) (root : BitVec 40) : Prop :=
  ∀ va d t, d < 3 → tableAt link mem root (offsets va) d = some t →
    (mem t (offsets va d)).present = true → (mem t (offsets va d)).pageSize = false

theorem IsTree.smallPages {mem : PhysMemory} {root : BitVec 40} (h : IsTree mem root) :
    SmallPages mem root := fun va => h.small (offsets va)

/-- The paging structures still form a tree, of tables that it had before. -/
structure Keeps (mem mem' : PhysMemory) (root : BitVec 40) : Prop where
  tree : IsTree mem' root
  reached : ∀ t, Reached link mem' root 3 t → Reached link mem root 3 t

theorem IsTree.keeps {mem : PhysMemory} {root : BitVec 40} (h : IsTree mem root) :
    Keeps mem mem root := ⟨h, fun _ => id⟩

theorem Keeps.trans {mem₁ mem₂ mem₃ : PhysMemory} {root : BitVec 40} (h : Keeps mem₁ mem₂ root)
    (h' : Keeps mem₂ mem₃ root) : Keeps mem₁ mem₃ root :=
  ⟨h'.tree, fun t ht => h.reached t (h'.reached t ht)⟩

@[simp] theorem link_zero : link .zero = none := rfl

theorem link_of_present {e : PtEntry} (h : e.present = true) : link e = some e.physicalAddress :=
  if_pos h

theorem link_of_not_present {e : PtEntry} (h : e.present = false) : link e = none := by
  simp [link, h]

@[simp] theorem pteMap_present (pa : QWORD) (flags : PteMapFlags) :
    (pteMap pa flags).present = true := by
  unfold pteMap
  split_ifs <;> rfl

@[simp] theorem pteMap_physicalAddress (pa : QWORD) (flags : PteMapFlags) :
    (pteMap pa flags).physicalAddress = frameOf pa := by
  unfold pteMap
  split_ifs <;> rfl

/-- A physical address survives being stored in an entry. -/
theorem pteGetPhysicalAddress_pteMap {pa : QWORD} (hal : pa.toNat % 4096 = 0)
    (hlt : pa.toNat < 2 ^ 52) (flags : PteMapFlags) :
    pteGetPhysicalAddress (pteMap pa flags) = pa := by
  apply BitVec.eq_of_toNat_eq
  rw [pteGetPhysicalAddress, pteMap_physicalAddress, frameOf, BitVec.toNat_shiftLeft,
    BitVec.toNat_setWidth, BitVec.toNat_setWidth, BitVec.toNat_ushiftRight,
    Nat.shiftRight_eq_div_pow, Nat.shiftLeft_eq, shiftForPhysicalAddr]
  lia

private theorem offset_toNat (va : QWORD) (s : ℕ) :
    ((va >>> s).setWidth 9 : BitVec 9).toNat = va.toNat / 2 ^ s % 512 := by
  rw [BitVec.toNat_setWidth, BitVec.toNat_ushiftRight, Nat.shiftRight_eq_div_pow]

/-- Two addresses are in one page if they agree in bits 12 to 47. -/
theorem samePage_iff {va va' : QWORD} :
    SamePage va va' ↔ va.toNat / 4096 % 2 ^ 36 = va'.toNat / 4096 % 2 ^ 36 := by
  have hdigits : SamePage va va' ↔
      va.toNat / 2 ^ 39 % 512 = va'.toNat / 2 ^ 39 % 512 ∧
      va.toNat / 2 ^ 30 % 512 = va'.toNat / 2 ^ 30 % 512 ∧
      va.toNat / 2 ^ 21 % 512 = va'.toNat / 2 ^ 21 % 512 ∧
      va.toNat / 2 ^ 12 % 512 = va'.toNat / 2 ^ 12 % 512 := by
    simp only [← offset_toNat, BitVec.toNat_inj]
    constructor
    · intro h
      exact ⟨h 0 (by norm_num), h 1 (by norm_num), h 2 (by norm_num), h 3 (by norm_num)⟩
    · intro h k hk
      obtain ⟨h0, h1, h2, h3⟩ := h
      match k, hk with
      | 0, _ => exact h0
      | 1, _ => exact h1
      | 2, _ => exact h2
      | 3, _ => exact h3
  rw [hdigits]
  have h := va.isLt
  have h' := va'.isLt
  omega

theorem SamePage.refl (va : QWORD) : SamePage va va := SamePrefix.refl _ _

theorem SamePage.symm {va va' : QWORD} (h : SamePage va va') : SamePage va' va := SamePrefix.symm h

theorem lookup_congr {mem : PhysMemory} {root : BitVec 40} {va va' : QWORD} (h : SamePage va va') :
    lookup mem root va = lookup mem root va' := by
  rw [lookup, lookup, entryAt_congr h]

section Walk

variable {σ : Type} {mem : PhysMemory} {root t : BitVec 40} {va va' : QWORD}
  {walkCallback : PageWalkCallback σ}

/-- The last level: whatever the callback says, the walk is over. -/
theorem walkLevels_last (s : PhysMemory × σ) :
    walkLevels walkCallback va 1 t s =
      (walkCallback t (offsets va 3) va 4 s).map Prod.snd := by
  unfold walkLevels
  cases h : walkCallback t (offsets va 3) va 4 s with
  | error f =>
    show (walkCallback t (offsets va 3) va 4 s).bind _ = _
    rw [h]
    rfl
  | ok r =>
    show (walkCallback t (offsets va 3) va 4 s).bind _ = _
    rw [h]
    obtain ⟨goOn, s'⟩ := r
    cases goOn <;> rfl

/-- A callback that only follows the upper levels, and ends the walk at an entry that is not
present. -/
def Follows (walkCallback : PageWalkCallback σ) (va : QWORD) (miss : σ → σ) : Prop :=
  ∀ t d s, d < 3 → (s.1 t (offsets va d)).pageSize = false ∨ (s.1 t (offsets va d)).present = false →
    walkCallback t (offsets va d) va (d + 1) s =
      if (s.1 t (offsets va d)).present then .ok (true, s) else .ok (false, s.1, miss s.2)

/-- Such a callback is applied to the entry of the last level, if the walk gets there. -/
theorem walkLevels_follow {miss : σ → σ} (hf : Follows walkCallback va miss)
    (hs : SmallPages mem root) (x : σ) {d : ℕ} (hd : d ≤ 3)
    (ht : tableAt link mem root (offsets va) d = some t) :
    walkLevels walkCallback va (4 - d) t (mem, x) =
      match tableAt link mem root (offsets va) 3 with
      | none => .ok (mem, miss x)
      | some t' => (walkCallback t' (offsets va 3) va 4 (mem, x)).map Prod.snd := by
  induction hk : 3 - d generalizing d t with
  | zero =>
    obtain rfl : d = 3 := by omega
    rw [ht, walkLevels_last]
  | succ k ih =>
    have hlt : d < 3 := by omega
    have hleft : 4 - d = (3 - d) + 1 := by lia
    have hlevel : pagingTablesLastLevel - (3 - d) = d + 1 := by
      rw [pagingTablesLastLevel]
      lia
    have hnext : 4 - (d + 1) = 3 - d := by lia
    have hsmall := hs va d t hlt ht
    have hstep := hf t d (mem, x) hlt (by
      by_cases hp : (mem t (offsets va d)).present = true
      · exact Or.inl (hsmall hp)
      · exact Or.inr (by simpa using hp))
    rw [hleft]
    unfold walkLevels
    simp only [hlevel, Nat.add_sub_cancel, hstep]
    cases hp : (mem t (offsets va d)).present with
    | false =>
      have hnone : tableAt link mem root (offsets va) (d + 1) = none := by
        rw [tableAt_succ ht, link_of_not_present hp]
      cases h3 : tableAt link mem root (offsets va) 3 with
      | none => rfl
      | some t' =>
        obtain ⟨t'', ht''⟩ := tableAt_isSome_of_le h3 (show d + 1 ≤ 3 by omega)
        rw [hnone] at ht''
        cases ht''
    | true =>
      have hsome : tableAt link mem root (offsets va) (d + 1) =
          some (mem t (offsets va d)).physicalAddress := by
        rw [tableAt_succ ht, link_of_present hp]
      have hne : d + 1 ≠ pagingTablesLastLevel := by
        rw [pagingTablesLastLevel]
        omega
      have := ih (by omega) hsome (by lia)
      rw [hnext] at this
      simp only [if_true, bind, Except.bind, Bool.not_true, Bool.false_eq_true, if_false, if_pos hne,
        assertThat_of (hsmall hp)]
      exact this

end Walk

section Unmap

variable {mem : PhysMemory} {root : BitVec 40} {va va' : QWORD}

theorem follows_unmap (release : Bool) (hva : va ≠ 0) :
    Follows (vmUnmapPage release) va id := by
  intro t d s hd _
  have hne : d + 1 ≠ pagingTablesLastLevel := by
    rw [pagingTablesLastLevel]
    omega
  simp only [vmUnmapPage, assertThat_of hva, bind, Except.bind, pteIsPresent, if_neg hne, pure,
    Except.pure, id]
  cases (s.1 t (offsets va d)).present <;> rfl

theorem vmUnmapPage_last (hva : va ≠ 0) (release : Bool) (t : BitVec 40) (i : BitVec 9)
    (released : List QWORD) :
    vmUnmapPage release t i va 4 (mem, released) =
      if (mem t i).present then .ok (true, write mem t i pteUnmap,
        released ++ if release then [pteGetPhysicalAddress (mem t i)] else [])
      else .ok (false, mem, released) := by
  simp only [vmUnmapPage, assertThat_of hva, bind, Except.bind, pteIsPresent, pure, Except.pure]
  cases (mem t i).present with
  | false => rfl
  | true => cases release <;> simp [pagingTablesLastLevel]

/-- Unmapping one page. -/
theorem walkLevels_unmap (htree : IsTree mem root) (hva : va ≠ 0) (release : Bool)
    (released : List QWORD) :
    ∃ mem', walkLevels (vmUnmapPage release) va 4 root (mem, released) =
        .ok (mem', released ++ if release then (translate mem root va).toList else []) ∧
      Keeps mem mem' root ∧
      ∀ va', lookup mem' root va' = if SamePage va va' then none else lookup mem root va' := by
  have hwalk := walkLevels_follow (follows_unmap release hva) htree.smallPages released (Nat.zero_le 3)
    (show tableAt link mem root (offsets va) 0 = some root from rfl)
  rw [show 4 - 0 = 4 from rfl] at hwalk
  rw [hwalk]
  have hkeep : ∀ va', lookup mem root va = none →
      lookup mem root va' = if SamePage va va' then none else lookup mem root va' := by
    intro va' hnone
    split_ifs with hs
    · rw [← lookup_congr hs, hnone]
    · rfl
  cases ht : tableAt link mem root (offsets va) 3 with
  | none =>
    have hnone : lookup mem root va = none := by
      simp [lookup, entryAt, ht]
    refine ⟨mem, ?_, htree.keeps, fun va' => hkeep va' hnone⟩
    simp [translate, hnone]
  | some t =>
    have hentry : entryAt link mem root 3 (offsets va) = some (mem t (offsets va 3)) := by
      simp [entryAt, ht]
    cases hp : (mem t (offsets va 3)).present with
    | false =>
      have hnone : lookup mem root va = none := by
        simp [lookup, hentry, hp]
      refine ⟨mem, ?_, htree.keeps, fun va' => hkeep va' hnone⟩
      dsimp only
      rw [vmUnmapPage_last hva, hp]
      simp [translate, hnone, Except.map]
    | true =>
      have hsome : translate mem root va = some (pteGetPhysicalAddress (mem t (offsets va 3))) := by
        simp [translate, lookup, hentry, hp]
      refine ⟨write mem t (offsets va 3) pteUnmap, ?_, ⟨⟨htree.unshared.write ht, ?_⟩, fun t' =>
        (reached_write htree.unshared ht t').mp⟩, fun va' => ?_⟩
      · dsimp only
        rw [vmUnmapPage_last hva, hp, hsome]
        rfl
      · intro key d t' hd ht' hp'
        rw [tableAt_write htree.unshared ht (by omega)] at ht'
        have hne : ¬ (t' = t ∧ key d = offsets va 3) := by
          intro hc
          have := (htree.unshared key (offsets va) d 3 t (by omega) (Nat.le_refl 3) (hc.1 ▸ ht')
            ht).1
          omega
        rw [write_of_ne hne] at hp' ⊢
        exact htree.small key d t' hd ht' hp'
      · unfold lookup
        split_ifs with hs
        · rw [← entryAt_congr hs, entryAt_write_self htree.unshared ht]
          rfl
        · rw [entryAt_write_of_ne htree.unshared ht hs]

end Unmap

/-- The frame of a page as the processor finds it below a table with `left` levels to go; there are
pages of 4 KB and of 2 MB. -/
def frameAt (mem : PhysMemory) (va : QWORD) : ℕ → BitVec 40 → Option QWORD
  | 0, _ => none
  | left + 1, table =>
    let entry := mem table (offsets va (3 - left))
    if !entry.present then none
    else if left = 0 then some (pteGetPhysicalAddress entry)
    else if entry.pageSize then
      if left = 1 then some (pteLargePageGetPhysicalAddress entry + (va &&& 0x1FFFFF)) else none
    else frameAt mem va left entry.physicalAddress

section Retrieve

variable {mem : PhysMemory} {root t : BitVec 40} {va : QWORD}

private theorem retrieveAccess_keeps (pa : QWORD) (t : BitVec 40) (i : BitVec 9) :
    retrieveAccess false false pa t i mem = (mem, ⟨pa, (mem t i).accessed, (mem t i).dirty⟩) := by
  have hwrite : write mem t i (mem t i) = mem := by
    funext t' i'
    unfold write
    split_ifs with h
    · rw [h.1, h.2]
    · rfl
  simp only [retrieveAccess, Bool.not_false, Bool.and_true, hwrite]

/-- One level of the walk that looks for a frame. -/
theorem walkLevels_retrieve_step (hva : va ≠ 0) {left : ℕ} (hleft : left ≤ 3) (x : PhysAccess) :
    walkLevels (vmRetrievePhyAccess false false) va (left + 1) t (mem, x) =
      let entry := mem t (offsets va (3 - left))
      if entry.present = false then .ok (mem, { x with physicalAddress := 0 })
      else if left = 0 then
        .ok (mem, ⟨pteGetPhysicalAddress entry, entry.accessed, entry.dirty⟩)
      else if entry.pageSize = true then
        if left = 1 then
          .ok (mem, ⟨pteLargePageGetPhysicalAddress entry + (va &&& 0x1FFFFF), entry.accessed,
            entry.dirty⟩)
        else .error .assertFailed
      else walkLevels (vmRetrievePhyAccess false false) va left entry.physicalAddress (mem, x) := by
  have hlevel : pagingTablesLastLevel - left - 1 = 3 - left := by
    rw [pagingTablesLastLevel]
    lia
  have hl4 : pagingTablesLastLevel = 4 := rfl
  rw [walkLevels]
  simp only [hlevel, vmRetrievePhyAccess, assertThat_of hva, bind, Except.bind, pteIsPresent, pure,
    Except.pure]
  cases hp : (mem t (offsets va (3 - left))).present with
  | false => rfl
  | true =>
    simp only [Bool.not_true, Bool.false_eq_true, Bool.true_eq_false, if_false]
    by_cases h0 : left = 0
    · subst h0
      rw [if_neg (by omega), if_neg (by omega), retrieveAccess_keeps]
      rfl
    · have hne : pagingTablesLastLevel - left ≠ pagingTablesLastLevel := by omega
      rw [if_neg h0]
      by_cases h1 : left = 1
      · subst h1
        rw [if_neg (by omega), if_pos (by omega)]
        cases hs : (mem t (offsets va (3 - 1))).pageSize with
        | true => simp [retrieveAccess_keeps]
        | false => simp [hs, hne, assertThat_of]
      · rw [if_pos (by lia)]
        cases hs : (mem t (offsets va (3 - left))).pageSize with
        | true => simp [hs, hne, h1, assertThat_of_not]
        | false => simp [hs, hne, assertThat_of]

/-- The walk finds the frame that the processor finds. -/
theorem walkLevels_retrieve (hva : va ≠ 0) {left : ℕ} (hleft : left ≤ 4) (x : PhysAccess) {pa : QWORD}
    (h : frameAt mem va left t = some pa) :
    ∃ a d, walkLevels (vmRetrievePhyAccess false false) va left t (mem, x) =
      .ok (mem, ⟨pa, a, d⟩) := by
  induction left generalizing t with
  | zero => cases h
  | succ left ih =>
    unfold frameAt at h
    rw [walkLevels_retrieve_step hva (by omega)]
    dsimp only at h ⊢
    cases hp : (mem t (offsets va (3 - left))).present with
    | false => simp [hp] at h
    | true =>
      simp only [hp, Bool.not_true, Bool.false_eq_true, Bool.true_eq_false, if_false] at h ⊢
      split_ifs at h ⊢ with h0 hs h1
      · cases h
        exact ⟨_, _, rfl⟩
      · cases h
        exact ⟨_, _, rfl⟩
      · exact ih (by omega) h

/-- The walk over the one page. -/
theorem vmmGetPhysicalAddress_eq {cr3 : QWORD} (hva : va ≠ 0)
    (hal : isAddressAligned va pageSize = true) :
    vmmGetPhysicalAddress mem cr3 va = (walkLevels (vmRetrievePhyAccess false false) va 4
      (frameOf cr3) (mem, ⟨0, false, false⟩)).map fun s => s.2.physicalAddress := by
  have hpages : (pageSize.toNat + 4095) / 4096 = 1 := by decide
  simp only [vmmGetPhysicalAddress, vmmGetPhysicalAddressEx, assertThat_of hva, assertThat_of hal,
    vmWalkPagingTables, hpages, walkPages, bind, Except.bind, pagingTablesLastLevel]
  rw [show va + 0 = va from BitVec.add_zero va]
  cases walkLevels (vmRetrievePhyAccess false false) va 4 (frameOf cr3) (mem, ⟨0, false, false⟩) <;>
    rfl

theorem vmmGetPhysicalAddress_of_frameAt {cr3 pa : QWORD} (hva : va ≠ 0)
    (hal : isAddressAligned va pageSize = true)
    (h : frameAt mem va 4 (frameOf cr3) = some pa) :
    vmmGetPhysicalAddress mem cr3 va = .ok pa := by
  obtain ⟨a, d, hwalk⟩ := walkLevels_retrieve hva (Nat.le_refl 4) ⟨0, false, false⟩ h
  rw [vmmGetPhysicalAddress_eq hva hal, hwalk]
  rfl

private theorem follows_retrieve (hva : va ≠ 0) :
    Follows (vmRetrievePhyAccess false false) va fun x => { x with physicalAddress := 0 } := by
  intro t d s hd hsmall
  simp only [vmRetrievePhyAccess, assertThat_of hva, bind, Except.bind, pteIsPresent, pure,
    Except.pure, pagingTablesLastLevel]
  by_cases hp : (s.1 t (offsets va d)).present = true
  · simp only [hp, Bool.true_eq_false, or_false] at hsmall
    simp only [hp, Bool.not_true, Bool.false_eq_true, if_false, if_true, hsmall]
    split_ifs with h2 h3
    · rfl
    · rfl
    · omega
  · simp only [Bool.not_eq_true] at hp
    simp only [hp, Bool.not_false, if_true, Bool.false_eq_true, if_false]

/-- On a tree `VmmGetPhysicalAddress` is the translation, and 0 without one. -/
theorem vmmGetPhysicalAddress_of_isTree {cr3 : QWORD} (htree : IsTree mem (frameOf cr3))
    (hva : va ≠ 0) (hal : isAddressAligned va pageSize = true) :
    vmmGetPhysicalAddress mem cr3 va = .ok ((translate mem (frameOf cr3) va).getD 0) := by
  have hwalk := walkLevels_follow (follows_retrieve hva) htree.smallPages ⟨0, false, false⟩ (Nat.zero_le 3)
    (show tableAt link mem (frameOf cr3) (offsets va) 0 = some (frameOf cr3) from rfl)
  rw [vmmGetPhysicalAddress_eq hva hal, show (4 : ℕ) = 4 - 0 from rfl, hwalk]
  cases ht : tableAt link mem (frameOf cr3) (offsets va) 3 with
  | none =>
    simp only [translate, lookup, entryAt, ht]
    rfl
  | some t =>
    simp only [translate, lookup, entryAt, ht, vmRetrievePhyAccess, assertThat_of hva, bind,
      Except.bind, pteIsPresent, pure, Except.pure, pagingTablesLastLevel, Option.map_some]
    by_cases hp : (mem t (offsets va 3)).present = true
    · simp [Except.map, Option.filter, hp, retrieveAccess_keeps]
    · simp [Except.map, Option.filter, hp]

/-- On a tree the processor finds what the entry of the last level says. -/
theorem frameAt_of_isTree (htree : IsTree mem root) {d : ℕ} (hd : d ≤ 3)
    (ht : tableAt link mem root (offsets va) d = some t) :
    frameAt mem va (4 - d) t = translate mem root va := by
  induction hk : 3 - d generalizing d t with
  | zero =>
    obtain rfl : d = 3 := by omega
    rw [translate, lookup, entryAt, ht]
    cases hp : (mem t (offsets va 3)).present <;> simp [frameAt, Option.filter, hp]
  | succ k ih =>
    have hlt : d < 3 := by omega
    rw [show 4 - d = (3 - d) + 1 by omega, frameAt, show 3 - (3 - d) = d by lia]
    cases hp : (mem t (offsets va d)).present with
    | false =>
      have hnone : tableAt link mem root (offsets va) 3 = none := by
        cases h3 : tableAt link mem root (offsets va) 3 with
        | none => rfl
        | some t' =>
          obtain ⟨t'', ht''⟩ := tableAt_isSome_of_le h3 (show d + 1 ≤ 3 by omega)
          rw [tableAt_succ ht, link_of_not_present hp] at ht''
          cases ht''
      simp [translate, lookup, entryAt, hnone]
    | true =>
      have hnext : tableAt link mem root (offsets va) (d + 1) =
          some (mem t (offsets va d)).physicalAddress := by
        rw [tableAt_succ ht, link_of_present hp]
      rw [if_neg (by simp), if_neg (by omega),
        if_neg (by rw [htree.small (offsets va) d t hlt ht hp]; exact Bool.false_ne_true),
        ← ih (by omega) hnext (by lia), show 4 - (d + 1) = 3 - d by lia]

end Retrieve

end HAL9000.Paging
