import HAL9000.CommonLib.Heap.Model
import Mathlib.Data.List.Nodup

/-! The list operations of the heap on a list split at one entry. All of them look an entry
up by its address, so the results assume that addresses are distinct. -/
namespace HAL9000.Heap

/-- No two entries start at one address. -/
def DistinctAddresses (l : List HeapEntry) : Prop := (l.map (·.address)).Nodup

@[simp] theorem firstLink_nil : firstLink [] = .head := rfl
@[simp] theorem firstLink_cons (e : HeapEntry) (l : List HeapEntry) :
    firstLink (e :: l) = .entry e.address := rfl

section Split

variable {l₁ l₂ : List HeapEntry} {e : HeapEntry}

theorem DistinctAddresses.ne_left (hn : DistinctAddresses (l₁ ++ e :: l₂)) {a : HeapEntry}
    (ha : a ∈ l₁) : a.address ≠ e.address := by
  unfold DistinctAddresses at hn
  rw [List.map_append, List.nodup_append] at hn
  exact hn.2.2 a.address (List.mem_map_of_mem ha) e.address (by simp)

theorem DistinctAddresses.ne_right (hn : DistinctAddresses (l₁ ++ e :: l₂)) {b : HeapEntry}
    (hb : b ∈ l₂) : b.address ≠ e.address := by
  unfold DistinctAddresses at hn
  rw [List.map_append, List.map_cons, List.nodup_append, List.nodup_cons] at hn
  intro hc
  exact hn.2.1.1 (hc ▸ List.mem_map_of_mem hb)

theorem flink_eq (hn : DistinctAddresses (l₁ ++ e :: l₂)) :
    flink (l₁ ++ e :: l₂) (.entry e.address) = some (firstLink l₂) := by
  have hgo : ∀ l : List HeapEntry, (∀ a ∈ l, a.address ≠ e.address) →
      flink.go (l ++ e :: l₂) e.address = some (firstLink l₂) := by
    intro l hl
    induction l with
    | nil => simp [flink.go]
    | cons a l ih =>
      have ha : a.address ≠ e.address := hl a (by simp)
      simpa [flink.go, ha] using ih (fun b hb => hl b (by simp [hb]))
  exact hgo l₁ (fun a ha => hn.ne_left ha)

theorem find?_eq (hn : DistinctAddresses (l₁ ++ e :: l₂)) :
    (l₁ ++ e :: l₂).find? (fun x => x.address = e.address) = some e := by
  rw [List.find?_append, List.find?_eq_none.mpr]
  · simp
  · intro a ha
    simpa using hn.ne_left ha

theorem removeEntryList_eq (hn : DistinctAddresses (l₁ ++ e :: l₂)) :
    removeEntryList (l₁ ++ e :: l₂) e.address = l₁ ++ l₂ := by
  unfold removeEntryList
  rw [List.eraseP_append_right]
  · simp
  · intro a ha hc
    exact hn.ne_left ha (of_decide_eq_true hc)

theorem insertHeadList_eq (new : HeapEntry) (hn : DistinctAddresses (l₁ ++ e :: l₂)) :
    insertHeadList new (.entry e.address) (l₁ ++ e :: l₂) = l₁ ++ e :: new :: l₂ := by
  have hgo : ∀ l : List HeapEntry, (∀ a ∈ l, a.address ≠ e.address) →
      insertHeadList new (.entry e.address) (l ++ e :: l₂) = l ++ e :: new :: l₂ := by
    intro l hl
    induction l with
    | nil => simp [insertHeadList]
    | cons a l ih =>
      have ha : a.address ≠ e.address := hl a (by simp)
      simpa [insertHeadList, ha] using ih (fun b hb => hl b (by simp [hb]))
  exact hgo l₁ (fun a ha => hn.ne_left ha)

private theorem blinkEntry_eq_none {l : List HeapEntry} {a : QWORD}
    (hl : ∀ b ∈ l.tail, b.address ≠ a) : blinkEntry l a = none := by
  induction l with
  | nil => rfl
  | cons x l ih =>
    cases l with
    | nil => rfl
    | cons b l =>
      have hb : b.address ≠ a := hl b (by simp)
      simpa [blinkEntry, hb] using ih (fun c hc => hl c (List.mem_of_mem_tail hc))

theorem blinkEntry_eq (hn : DistinctAddresses (l₁ ++ e :: l₂)) :
    blinkEntry (l₁ ++ e :: l₂) e.address = l₁.getLast? := by
  have hnone : blinkEntry (e :: l₂) e.address = none :=
    blinkEntry_eq_none (fun b hb => hn.ne_right hb)
  have hgo : ∀ l : List HeapEntry, (∀ a ∈ l, a.address ≠ e.address) →
      blinkEntry (l ++ e :: l₂) e.address = l.getLast? := by
    intro l hl
    induction l with
    | nil => exact hnone
    | cons a l ih =>
      cases l with
      | nil => simp [blinkEntry]
      | cons b l =>
        have hb : b.address ≠ e.address := hl b (by simp)
        simpa [blinkEntry, hb, List.getLast?_cons_cons] using
          ih (fun c hc => hl c (List.mem_cons_of_mem a hc))
  exact hgo l₁ (fun a ha => hn.ne_left ha)

end Split

section Header

variable {h : HeapHeader}

theorem follow_head : follow h .head = .ok (firstLink h.heapAllocations) := rfl

theorem follow_entry (hn : DistinctAddresses h.heapAllocations) {l₁ l₂ : List HeapEntry}
    {e : HeapEntry} (hl : h.heapAllocations = l₁ ++ e :: l₂) :
    follow h (.entry e.address) = .ok (firstLink l₂) := by
  rw [hl] at hn
  unfold follow
  rw [hl, flink_eq hn]

theorem containingRecord_of_mem (hn : DistinctAddresses h.heapAllocations) {e : HeapEntry}
    (he : e ∈ h.heapAllocations) : containingRecord h (.entry e.address) = .ok e := by
  obtain ⟨l₁, l₂, hl⟩ := List.append_of_mem he
  rw [hl] at hn
  simp only [containingRecord, hl, find?_eq hn]

end Header

end HAL9000.Heap
