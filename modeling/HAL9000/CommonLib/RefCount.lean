import HAL9000.CommonLib.Base

/-! Reference counts of `ref_cnt.c`. Both operations are one interlocked access to the 32-bit
count followed by checks of the new value. -/
namespace HAL9000

/-- The count after `RfcInit`. -/
def rfcInit : DWORD := 1

/-- The new count, or a failed `ASSERT`. -/
def rfcReference (referenceCount : DWORD) : Except Fault DWORD := do
  let newRefCount := referenceCount + 1
  assertThat (maxDword > newRefCount)
  assertThat (1 ≤ newRefCount)
  return newRefCount

/-- The new count, or a failed `ASSERT`; the free function is called when it is 0. -/
def rfcDereference (referenceCount : DWORD) : Except Fault DWORD := do
  let newRefCount := referenceCount - 1
  assertThat (maxDword ≠ newRefCount)
  return newRefCount

theorem rfcReference_toNat {c c' : DWORD} (h : rfcReference c = .ok c') :
    c'.toNat = c.toNat + 1 := by
  simp only [rfcReference, bind_eq_ok, assertThat_eq_ok] at h
  obtain ⟨_, -, _, hpos, hc⟩ := h
  cases hc
  have hpos : 1 ≤ (c + 1).toNat := hpos
  rw [BitVec.toNat_add] at hpos ⊢
  have h1 : (1 : DWORD).toNat = 1 := rfl
  omega

theorem rfcDereference_toNat {c c' : DWORD} (h : rfcDereference c = .ok c') :
    c'.toNat + 1 = c.toNat := by
  simp only [rfcDereference, bind_eq_ok, assertThat_eq_ok] at h
  obtain ⟨_, hne, hc⟩ := h
  cases hc
  have hne : (c - 1).toNat ≠ 0xFFFFFFFF := by
    intro heq
    exact hne (BitVec.eq_of_toNat_eq heq.symm)
  rw [BitVec.toNat_sub] at hne ⊢
  have h1 : (1 : DWORD).toNat = 1 := rfl
  omega

/-- Dropping a reference that is counted never fails. -/
theorem rfcDereference_of_pos {c : DWORD} (h : 0 < c.toNat) : rfcDereference c = .ok (c - 1) := by
  have hne : maxDword ≠ c - 1 := by
    intro heq
    have hnat := congrArg BitVec.toNat heq
    rw [BitVec.toNat_sub] at hnat
    have h1 : (1 : DWORD).toNat = 1 := rfl
    have h2 : maxDword.toNat = 0xFFFFFFFF := rfl
    omega
  simp only [rfcDereference, assertThat_of hne]
  rfl

end HAL9000
