import HAL9000.CommonLib.Heap.Layout

/-! Freeing: unlinking an entry keeps the layout, and a valid free returns. -/
namespace HAL9000.Heap

/-- Unlinking an entry keeps the invariant; `FreeAddress` moves back only when the entry was
the last one. -/
theorem WellFormed.remove {h : HeapHeader} (hw : WellFormed h) {e : HeapEntry}
    {l₁ l₂ : List HeapEntry} (hl : h.heapAllocations = l₁ ++ e :: l₂) {f size : QWORD}
    (hsize : size.toNat = e.footprint)
    (hf : f.toNat = if e.endNat = h.freeAddress.toNat then
      lastEnd (h.baseAddress.toNat + 72) l₁ else h.freeAddress.toNat) :
    WellFormed { h with
      heapAllocations := l₁ ++ l₂
      heapSizeRemaining := h.heapSizeRemaining + size
      heapNumberOfAllocations := h.heapNumberOfAllocations - 1
      freeAddress := f } := by
  have ho := hw.ordered
  rw [hl] at ho
  obtain ⟨ho₁, ho₂, ho₁₂⟩ := List.pairwise_append.mp ho
  have hmem : ∀ a ∈ l₁ ++ l₂, a ∈ h.heapAllocations := by
    intro a ha
    rw [hl]
    rcases List.mem_append.mp ha with ha | ha
    · exact List.mem_append.mpr (Or.inl ha)
    · exact List.mem_append.mpr (Or.inr (List.mem_cons_of_mem e ha))
  have hord : (l₁ ++ l₂).Pairwise fun a b => a.endNat ≤ b.address.toNat := by
    refine List.pairwise_append.mpr ⟨ho₁, (List.pairwise_cons.mp ho₂).2, ?_⟩
    intro a ha b hb
    exact ho₁₂ a ha b (List.mem_cons_of_mem e hb)
  have hfree : f.toNat = lastEnd (h.baseAddress.toNat + 72) (l₁ ++ l₂) := by
    have hlast := hw.free
    rw [hl, lastEnd_append_cons] at hlast
    cases l₂ with
    | nil =>
      have he : e.endNat = h.freeAddress.toNat := by
        rw [hlast]
        rfl
      rw [hf, if_pos he, List.append_nil]
    | cons b l₂ =>
      rw [lastEnd_cons_cons] at hlast
      have hne : e.endNat ≠ h.freeAddress.toNat := by
        have hb := (List.pairwise_cons.mp ho₂).1 b (by simp)
        have hbf := hw.endNat_le_free (hl ▸ by simp : b ∈ h.heapAllocations)
        unfold HeapEntry.endNat HeapEntry.footprint at hb hbf ⊢
        lia
      rw [hf, if_neg hne, lastEnd_append_cons, hlast]
  have hfle : f.toNat ≤ h.freeAddress.toNat := by
    rw [hf]
    split_ifs with he
    · cases hlast : l₁.getLast? with
      | none =>
        have := hw.header_le_free
        simpa [lastEnd, hlast] using this
      | some a =>
        have ha : a ∈ h.heapAllocations := by
          rw [hl]
          exact List.mem_append.mpr (Or.inl (List.mem_of_getLast? hlast))
        simpa [lastEnd, hlast] using hw.endNat_le_free ha
    · exact le_rfl
  have hr := hw.remaining
  have hlt := hw.remaining_lt
  have hsum : (h.heapAllocations.map HeapEntry.footprint).sum =
      ((l₁ ++ l₂).map HeapEntry.footprint).sum + e.footprint := by
    rw [hl]
    simp only [List.map_append, List.map_cons, List.sum_append, List.sum_cons]
    omega
  constructor
  · exact hw.small
  · exact hw.room
  · exact hw.noWrap
  · exact hord
  · exact fun a ha => hw.above a (hmem a ha)
  · exact fun a ha => hw.sealed a (hmem a ha)
  · exact hfree
  · have := hw.below
    change f.toNat + 32 ≤ h.baseAddress.toNat + h.heapSizeMaximum.toNat
    lia
  · have hc := hw.count
    have hlen : h.heapAllocations.length = (l₁ ++ l₂).length + 1 := by
      rw [hl]
      simp only [List.length_append, List.length_cons]
      omega
    have hle := h.heapNumberOfAllocations.isLt
    change (h.heapNumberOfAllocations - 1).toNat = (l₁ ++ l₂).length
    rw [BitVec.toNat_sub]
    change (2 ^ 64 - 1 + h.heapNumberOfAllocations.toNat) % 2 ^ 64 = _
    lia
  · have hs := hw.small
    change (h.heapSizeRemaining + size).toNat + _ = h.heapSizeMaximum.toNat - 72
    rw [BitVec.toNat_add, hsize]
    change (h.heapSizeRemaining.toNat + e.footprint) % 2 ^ 64 +
      ((l₁ ++ l₂).map HeapEntry.footprint).sum = _
    lia

section Free

variable {h : HeapHeader} (hw : WellFormed h) {e : HeapEntry} {l₁ l₂ : List HeapEntry}
  (hl : h.heapAllocations = l₁ ++ e :: l₂)
include hw hl

theorem footprint_lt : e.footprint < 2 ^ 32 := by
  have hr := hw.remaining
  have hm := hw.small
  rw [hl] at hr
  simp only [List.map_append, List.map_cons, List.sum_append, List.sum_cons] at hr
  lia

theorem previousAddress_toNat :
    (h.previousAddress e).toNat = lastEnd (h.baseAddress.toNat + 72) l₁ := by
  have hd := hw.distinct
  rw [hl] at hd
  unfold HeapHeader.previousAddress
  rw [hl, blinkEntry_eq hd]
  cases hlast : l₁.getLast? with
  | none =>
    have hn := hw.noWrap
    have hm := hw.room
    simp only [lastEnd, hlast, Option.map_none, Option.getD_none, BitVec.toNat_add,
      sizeofHeapHeader_toNat]
    lia
  | some a =>
    have ha : a ∈ h.heapAllocations := by
      rw [hl]
      exact List.mem_append.mpr (Or.inl (List.mem_of_getLast? hlast))
    simp only [lastEnd, hlast, Option.map_some, Option.getD_some]
    exact hw.endAddress_toNat ha

/-- A valid free returns, unlinks exactly the named entry and keeps the invariant. -/
theorem clHeapFreePoolWithTag_spec :
    ∃ h', clHeapFreePoolWithTag h (e.address + sizeofHeapEntry) e.tag = .ok h' ∧ WellFormed h' ∧
      h'.heapAllocations = l₁ ++ l₂ ∧ h'.entryToRestartSearch = h.entryToRestartSearch ∧
      h'.baseAddress = h.baseAddress ∧ h'.heapSizeMaximum = h.heapSizeMaximum := by
  have he : e ∈ h.heapAllocations := by simp [hl]
  have hs := hw.sealed e he
  have hend := hw.endAddress_toNat he
  have hle := hw.endNat_le_free he
  have hlt := h.freeAddress.isLt
  have habove := hw.above e he
  have hd := hw.distinct
  have hsub : e.address + sizeofHeapEntry - sizeofHeapEntry = e.address := by bv_omega
  have hrec := containingRecord_of_mem hd he
  have hnz : e.address + sizeofHeapEntry ≠ 0 := by
    intro hz
    have hn := congrArg BitVec.toNat hz
    unfold HeapEntry.endNat HeapEntry.footprint at hle
    rw [BitVec.toNat_add, sizeofHeapEntry_toNat] at hn
    change _ = 0 at hn
    lia
  have hsize : (e.size.setWidth 64 + sizeofHeapEntry + sizeofHeapTail).toNat = e.footprint := by
    have hsz := e.size.isLt
    simp only [BitVec.toNat_add, BitVec.toNat_setWidth, sizeofHeapEntry_toNat,
      sizeofHeapTail_toNat, HeapEntry.footprint]
    lia
  have hmax : e.size.setWidth 64 + sizeofHeapEntry + sizeofHeapTail ≤ maxDword := by
    have hlt := footprint_lt hw hl
    rw [BitVec.le_def, hsize]
    change e.footprint ≤ 4294967295
    omega
  have hdone : e.address + sizeofHeapEntry + e.size.setWidth 64 + sizeofHeapTail = h.freeAddress ↔
      e.endNat = h.freeAddress.toNat := by
    rw [← hend, ← BitVec.toNat_inj]
    rfl
  have hremove : removeEntryList h.heapAllocations e.address = l₁ ++ l₂ := by
    rw [hl] at hd ⊢
    exact removeEntryList_eq hd
  unfold clHeapFreePoolWithTag
  rw [assertThat_of hnz, assertThat_of hs.tag, hsub, hrec]
  simp only [bind, Except.bind, validateHeapEntry_eq hs, assertThat_of hmax,
    pure, Except.pure, hremove]
  refine ⟨_, rfl, hw.remove hl hsize ?_, rfl, rfl, rfl, rfl⟩
  by_cases hc : e.endNat = h.freeAddress.toNat
  · rw [if_pos hc, if_pos (hdone.mpr hc), previousAddress_toNat hw hl]
  · rw [if_neg hc, if_neg (fun h => hc (hdone.mp h))]

end Free

end HAL9000.Heap
