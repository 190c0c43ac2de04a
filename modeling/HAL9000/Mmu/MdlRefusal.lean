import HAL9000.Mmu.Mdl

/-! Buffers that are not mapped, `MdlAllocateEx` in `mdl.c` on the paging data of a process. Only the
translation of the first address is compared with `NULL`; for the other pages it is asserted. -/
namespace HAL9000.Paging

/-- The processor's walk below a table with `left` levels to go ends at an entry that is not
present. -/
def Unmapped (mem : PhysMemory) (va : QWORD) : ℕ → BitVec 40 → Prop
  | 0, _ => False
  | left + 1, table =>
    let entry := mem table (offsets va (3 - left))
    entry.present = false ∨
      left ≠ 0 ∧ entry.pageSize = false ∧ Unmapped mem va left entry.physicalAddress

instance decidableUnmapped (mem : PhysMemory) (va : QWORD) :
    (left : ℕ) → (table : BitVec 40) → Decidable (Unmapped mem va left table)
  | 0, _ => inferInstanceAs (Decidable False)
  | left + 1, table =>
    have := decidableUnmapped mem va left (mem table (offsets va (3 - left))).physicalAddress
    inferInstanceAs (Decidable (_ ∨ _ ∧ _ ∧ _))

/-- A buffer with a page that is not mapped is refused with `NULL`, whatever the pool grants. -/
def RefusesUnmapped (mem : PhysMemory) (cr3 virtualAddress : QWORD) (length : DWORD) : Prop :=
  (∃ k < pagesOfBuffer virtualAddress length,
      Unmapped mem (pageAt (alignAddressLower virtualAddress pageSize) k) 4 (frameOf cr3)) →
    ∀ allocated, mdlAllocateEx mem cr3 false allocated virtualAddress length = .ok none

/-- The buffer starts with a page, and that page has no frame, or frame 0. -/
def StartsUnmapped (mem : PhysMemory) (cr3 virtualAddress : QWORD) : Prop :=
  virtualAddress ≠ 0 ∧ virtualAddress.toNat % 4096 = 0 ∧
    (Unmapped mem virtualAddress 4 (frameOf cr3) ∨
      frameAt mem virtualAddress 4 (frameOf cr3) = some 0)

section Walk

variable {mem : PhysMemory} {cr3 va : QWORD} {t : BitVec 40} {left : ℕ}

/-- The walk that looks for an address reports 0 at an entry that is not present. -/
private theorem walkLevels_retrieve_unmapped (hva : va ≠ 0) (hleft : left ≤ 4) (x : PhysAccess)
    (h : Unmapped mem va left t) :
    walkLevels (vmRetrievePhyAccess false false) va left t (mem, x) =
      .ok (mem, { x with physicalAddress := 0 }) := by
  induction left generalizing t with
  | zero => cases h
  | succ left ih =>
    rw [walkLevels_retrieve_step hva (by omega)]
    dsimp only
    by_cases hp : (mem t (offsets va (3 - left))).present = false
    · rw [if_pos hp]
    · obtain habsent | ⟨h0, hs, hrest⟩ := h
      · exact absurd habsent hp
      · rw [if_neg hp, if_neg h0, if_neg (by simp [hs])]
        exact ih (by omega) hrest

/-- A walk that goes through has found the processor's frame, or an entry that is not present. -/
private theorem walkLevels_retrieve_ok (hva : va ≠ 0) (hpos : left ≠ 0) (hleft : left ≤ 4)
    {x : PhysAccess} {r : PhysMemory × PhysAccess}
    (h : walkLevels (vmRetrievePhyAccess false false) va left t (mem, x) = .ok r) :
    Unmapped mem va left t ∧ r.2.physicalAddress = 0 ∨
      frameAt mem va left t = some r.2.physicalAddress := by
  induction left generalizing t with
  | zero => exact absurd rfl hpos
  | succ left ih =>
    rw [walkLevels_retrieve_step hva (by omega)] at h
    unfold Unmapped frameAt
    dsimp only at h ⊢
    cases hp : (mem t (offsets va (3 - left))).present with
    | false =>
      rw [hp, if_pos rfl] at h
      cases h
      exact Or.inl ⟨Or.inl rfl, rfl⟩
    | true =>
      simp only [hp, Bool.true_eq_false, if_false, Bool.not_true, Bool.false_eq_true, false_or]
        at h ⊢
      split_ifs at h ⊢ with h0 hs h1
      · cases h
        exact Or.inr rfl
      · cases h
        exact Or.inr rfl
      · obtain ⟨hrest, hzero⟩ | hframe := ih h0 (by omega) h
        · exact Or.inl ⟨⟨h0, Bool.not_eq_true _ ▸ hs, hrest⟩, hzero⟩
        · exact Or.inr hframe

/-- What the translation of a page reports. -/
theorem vmmGetPhysicalAddress_ok {pa : QWORD}
    (h : vmmGetPhysicalAddress mem cr3 va = .ok pa) :
    va ≠ 0 ∧ (Unmapped mem va 4 (frameOf cr3) ∧ pa = 0 ∨
      frameAt mem va 4 (frameOf cr3) = some pa) := by
  obtain ⟨r, hwalk, h⟩ := bind_eq_ok.mp h
  cases h
  obtain ⟨_, hva, hwalk⟩ := bind_eq_ok.mp hwalk
  obtain ⟨_, -, hwalk⟩ := bind_eq_ok.mp hwalk
  have hva := assertThat_eq_ok.mp hva
  obtain ⟨s, hone, hrest⟩ := bind_eq_ok.mp hwalk
  cases hrest
  rw [show va + 0 = va from BitVec.add_zero va] at hone
  exact ⟨hva, walkLevels_retrieve_ok hva (by decide) (by decide) hone⟩

private theorem vmmGetPhysicalAddress_of_unmapped (hva : va ≠ 0)
    (hal : isAddressAligned va pageSize = true) (h : Unmapped mem va 4 (frameOf cr3)) :
    vmmGetPhysicalAddress mem cr3 va = .ok 0 := by
  have hwalk := walkLevels_retrieve_unmapped hva (Nat.le_refl 4) ⟨0, false, false⟩ h
  rw [vmmGetPhysicalAddress_eq hva hal, hwalk]
  rfl

end Walk

section Refusal

variable {mem : PhysMemory} {cr3 va : QWORD} {length : DWORD}

/-- `NULL` is the address of an aligned page without a frame, or with frame 0; the offset in the page
makes any other address different from it. -/
private theorem mmuGetPhysicalAddressEx_null_iff (hva : va ≠ 0) :
    mmuGetPhysicalAddressEx mem va cr3 = .ok 0 ↔ StartsUnmapped mem cr3 va := by
  unfold mmuGetPhysicalAddressEx
  rw [if_neg hva]
  constructor
  · intro h
    obtain ⟨pa, hpa, h⟩ := bind_eq_ok.mp h
    have hsum := congrArg BitVec.toNat (Except.ok.inj h)
    have hoff := pageOffset_toNat va
    have hz : (0 : QWORD).toNat = 0 := rfl
    have hlt := pa.isLt
    obtain ⟨hne, hfound⟩ := vmmGetPhysicalAddress_ok hpa
    have hpal : pa.toNat % 4096 = 0 := by
      obtain ⟨-, rfl⟩ | hframe := hfound
      · rfl
      · exact frameAt_aligned (by rw [alignLower_toNat]; lia) hframe
    rw [BitVec.toNat_add, BitVec.toNat_setWidth, hoff, hz] at hsum
    have hal : va.toNat % 4096 = 0 := by lia
    have hnull : pa = 0 := by
      apply BitVec.eq_of_toNat_eq
      rw [hz]
      lia
    rw [alignLower_of_aligned hal, hnull] at hfound
    exact ⟨hva, hal, hfound.imp_left And.left⟩
  · intro h
    obtain ⟨-, hal, hfound⟩ := h
    have hoff : (pageOffset va).setWidth 64 = 0#64 := by
      apply BitVec.eq_of_toNat_eq
      rw [BitVec.toNat_setWidth, pageOffset_toNat, hal]
      rfl
    have hpa : vmmGetPhysicalAddress mem cr3 va = .ok 0 := by
      obtain hun | hframe := hfound
      · exact vmmGetPhysicalAddress_of_unmapped hva (aligned_iff.mpr hal) hun
      · exact vmmGetPhysicalAddress_of_frameAt hva (aligned_iff.mpr hal) hframe
    rw [alignLower_of_aligned hal, hpa, hoff]
    rfl

/-- With memory for the list, `NULL` is returned for a first address without a frame only. -/
private theorem mdlAllocateEx_refused {bKernelMemory : Bool}
    (h : mdlAllocateEx mem cr3 bKernelMemory true va length = .ok none) :
    va ≠ 0 ∧ mmuGetPhysicalAddressEx mem va cr3 = .ok 0 := by
  obtain ⟨_, hva, h⟩ := bind_eq_ok.mp h
  obtain ⟨_, -, h⟩ := bind_eq_ok.mp h
  obtain ⟨address, haddress, h⟩ := bind_eq_ok.mp h
  refine ⟨assertThat_eq_ok.mp hva, ?_⟩
  by_cases hnull : address = 0
  · rw [haddress, hnull]
  · rw [if_neg hnull] at h
    obtain ⟨_, -, h⟩ := bind_eq_ok.mp h
    obtain ⟨_, -, h⟩ := bind_eq_ok.mp h
    obtain ⟨_, -, h⟩ := bind_eq_ok.mp h
    obtain ⟨_, -, h⟩ := bind_eq_ok.mp h
    cases h

/-- A buffer with a missing page is refused exactly if it starts with that page. -/
theorem refusesUnmapped_iff (hlen : length ≠ 0) :
    RefusesUnmapped mem cr3 va length ↔
      (∀ k < pagesOfBuffer va length,
        ¬ Unmapped mem (pageAt (alignAddressLower va pageSize) k) 4 (frameOf cr3)) ∨
        StartsUnmapped mem cr3 va := by
  constructor
  · intro h
    by_cases hmissing : ∃ k < pagesOfBuffer va length,
        Unmapped mem (pageAt (alignAddressLower va pageSize) k) 4 (frameOf cr3)
    · obtain ⟨hva, hnull⟩ := mdlAllocateEx_refused (h hmissing true)
      exact Or.inr ((mmuGetPhysicalAddressEx_null_iff hva).mp hnull)
    · push Not at hmissing
      exact Or.inl hmissing
  · intro h hmissing allocated
    obtain hmapped | hstart := h
    · obtain ⟨k, hk, hun⟩ := hmissing
      exact absurd hun (hmapped k hk)
    · have hnull := (mmuGetPhysicalAddressEx_null_iff hstart.1).mpr hstart
      simp only [mdlAllocateEx, assertThat_of hstart.1, assertThat_of hlen, bind, Except.bind, hnull,
        if_true]
      rfl

end Refusal

/-- Every table and every page is frame 5, but entry 1 of each table is not present. -/
def secondMissing : PhysMemory :=
  fun _ index => { PtEntry.zero with present := decide (index ≠ 1), physicalAddress := 5 }

/-- A second page that is missing is refused by an assertion, and a first page that is missing but
not entered at its start is described as frame 0. -/
theorem unmapped_not_refused :
    ¬ RefusesUnmapped secondMissing 0x100000 0x140000000 0x2000 ∧
      mdlAllocateEx secondMissing 0x100000 false true 0x140000000 0x2000 = .error .assertFailed ∧
      ¬ RefusesUnmapped secondMissing 0x100000 0x140001001 1 ∧
      mdlAllocateEx secondMissing 0x100000 false true 0x140001001 1 =
        .ok (some ⟨0x140001000, 1, 1, 1, [⟨1, 0xFFF⟩]⟩) := by
  have hsecond : mdlAllocateEx secondMissing 0x100000 false true 0x140000000 0x2000 =
      .error .assertFailed := by decide
  have hfirst : mdlAllocateEx secondMissing 0x100000 false true 0x140001001 1 =
      .ok (some ⟨0x140001000, 1, 1, 1, [⟨1, 0xFFF⟩]⟩) := by decide
  refine ⟨fun h => ?_, hsecond, fun h => ?_, hfirst⟩
  · have hnull := h ⟨1, by decide, by decide⟩ true
    rw [hsecond] at hnull
    cases hnull
  · have hnull := h ⟨0, by decide, by decide⟩ true
    rw [hfirst] at hnull
    cases hnull

/-- A page that is missing is refused from its start. -/
theorem refusesUnmapped_secondMissing : RefusesUnmapped secondMissing 0x100000 0x140001000 1 :=
  (refusesUnmapped_iff (by decide)).mpr (Or.inr ⟨by decide, by decide, Or.inl (by decide)⟩)

end HAL9000.Paging
