import HAL9000.CommonLib.HashTable.Search

/-! How insertion and removal change the buckets of a hash table. -/
namespace HAL9000.HashTable

open Ring

variable {cfg : HashConfig}

section Represents

variable {s : HashState cfg} {bucket : ℕ → List QWORD} {e y : QWORD} {i : ℕ} {l₁ l₂ : List QWORD}

theorem Represents.isOrdered (h : Represents s bucket) (hi : i < cfg.maxKeys.toNat) :
    Ordered s (bucket i) :=
  (h.ordered i hi).imp fun hab => compareKeys_neg.mp hab

theorem Represents.not_mem (h : Represents s bucket) (he : s.linked e = false)
    (hi : i < cfg.maxKeys.toNat) : e ∉ bucket i := by
  intro hmem
  have := (h.linked e).mpr ⟨i, hi, hmem⟩
  simp [he] at this

/-- Buckets share no nodes. -/
theorem Represents.disjoint (h : Represents s bucket) {j : ℕ} (hi : i < cfg.maxKeys.toNat)
    (hj : j < cfg.maxKeys.toNat) (hij : j ≠ i) :
    ∀ x ∈ HashNode.bucket i :: (bucket i).map .entry,
      x ∉ HashNode.bucket j :: (bucket j).map .entry := by
  intro x hx hx'
  cases x with
  | bucket n => simp_all
  | entry a =>
    simp only [List.mem_cons, reduceCtorEq, List.mem_map, HashNode.entry.injEq, exists_eq_right,
      false_or] at hx hx'
    exact hij ((h.hashed j hj a hx').symm.trans (h.hashed i hi a hx))

/-- Bucket `i` gets a new list; the others keep their rings. -/
private theorem Represents.change (h : Represents s bucket) {l : List QWORD}
    {links : Links HashNode} {count : DWORD} {linked : QWORD → Bool} (hi : i < cfg.maxKeys.toNat)
    (hring : IsRing links (.bucket i) (l.map .entry))
    (hothers : ∀ j < cfg.maxKeys.toNat, j ≠ i → IsRing links (.bucket j) ((bucket j).map .entry))
    (hord : Ordered s l) (hhash : ∀ a ∈ l, (cfg.hashFunc (s.key a)).toNat = i)
    (hlinked : ∀ a, linked a = true ↔ a ∈ l ∨ s.linked a = true ∧ a ∉ bucket i) :
    Represents { s with links := links, numberOfElements := count, linked := linked }
      (Function.update bucket i l) where
  ring j hj := by
    by_cases hji : j = i
    · subst hji
      simpa using hring
    · simpa [Function.update_of_ne hji] using hothers j hj hji
  ordered j hj := by
    by_cases hji : j = i
    · subst hji
      rw [Function.update_self]
      exact hord.imp fun hab => compareKeys_neg.mpr hab
    · rw [Function.update_of_ne hji]
      exact h.ordered j hj
  hashed j hj := by
    by_cases hji : j = i
    · subst hji
      rw [Function.update_self]
      exact hhash
    · rw [Function.update_of_ne hji]
      exact h.hashed j hj
  linked a := by
    rw [hlinked, h.linked]
    constructor
    · intro ha
      rcases ha with ha | ⟨⟨j, hj, ha⟩, hout⟩
      · exact ⟨i, hi, by rwa [Function.update_self]⟩
      · have hji : j ≠ i := fun heq => hout (heq ▸ ha)
        exact ⟨j, hj, by rwa [Function.update_of_ne hji]⟩
    · intro ha
      obtain ⟨j, hj, ha⟩ := ha
      by_cases hji : j = i
      · subst hji
        rw [Function.update_self] at ha
        exact Or.inl ha
      · rw [Function.update_of_ne hji] at ha
        have hout : a ∉ bucket i := fun ha' =>
          hji ((h.hashed j hj a ha).symm.trans (h.hashed i hi a ha'))
        exact Or.inr ⟨⟨j, hj, ha⟩, hout⟩

/-- An element whose key changes is in no bucket. -/
theorem Represents.setKey (h : Represents s bucket) (he : s.linked e = false)
    (key : Key cfg.keySize.toNat) :
    Represents { s with key := Function.update s.key e key } bucket := by
  have hkey : ∀ i < cfg.maxKeys.toNat, ∀ a ∈ bucket i,
      Function.update s.key e key a = s.key a := by
    intro i hi a ha
    have hae : a ≠ e := fun heq => h.not_mem he hi (heq ▸ ha)
    exact Function.update_of_ne hae ..
  refine ⟨h.ring, fun i hi => ?_, fun i hi a ha => ?_, h.linked⟩
  · refine (h.ordered i hi).imp_of_mem fun {a b} ha hb hab => ?_
    show compareKeys (Function.update s.key e key a) (Function.update s.key e key b) < 0
    rwa [hkey i hi a ha, hkey i hi b hb]
  · show (cfg.hashFunc (Function.update s.key e key a)).toNat = i
    rw [hkey i hi a ha]
    exact h.hashed i hi a ha

private theorem ordered_insert (hord : Ordered s (l₁ ++ l₂))
    (h₁ : ∀ a ∈ l₁, keyValue (s.key a) < keyValue (s.key e))
    (h₂ : ∀ a ∈ l₂, keyValue (s.key e) < keyValue (s.key a)) : Ordered s (l₁ ++ e :: l₂) := by
  obtain ⟨ho₁, ho₂, ho₃⟩ := List.pairwise_append.mp hord
  refine List.pairwise_append.mpr ⟨ho₁, List.pairwise_cons.mpr ⟨h₂, ho₂⟩, fun a ha b hb => ?_⟩
  rcases List.mem_cons.mp hb with rfl | hb
  · exact h₁ a ha
  · exact ho₃ a ha b hb

/-- `HashTableInsert` of a new key. -/
theorem Represents.insert (h : Represents s bucket) (he : s.linked e = false)
    (hi : (cfg.hashFunc (s.key e)).toNat = i) (hlt : i < cfg.maxKeys.toNat)
    (hl : bucket i = l₁ ++ l₂) (h₁ : ∀ a ∈ l₁, keyValue (s.key a) < keyValue (s.key e))
    (h₂ : ∀ a ∈ l₂, keyValue (s.key e) < keyValue (s.key a)) (count : DWORD) :
    Represents { s with
      links := insertHeadList s.links ((HashNode.bucket i :: l₁.map .entry).getLast (by simp))
        (.entry e)
      numberOfElements := count
      linked := Function.update s.linked e true } (Function.update bucket i (l₁ ++ e :: l₂)) := by
  have hring := h.ring i hlt
  have hnew : ∀ j < cfg.maxKeys.toNat,
      HashNode.entry e ∉ HashNode.bucket j :: (bucket j).map .entry := by
    intro j hj
    simpa using h.not_mem he hj
  have hord := h.isOrdered hlt
  have hhash := h.hashed i hlt
  have hnot := hnew i hlt
  rw [hl] at hord hhash
  rw [hl, List.map_append] at hring hnot
  refine h.change hlt ?_ (fun j hj hji => ?_) (ordered_insert hord h₁ h₂) (fun a ha => ?_)
    (fun a => ?_)
  · rw [List.map_append, List.map_cons]
    exact hring.insertLast hnot
  · refine (h.ring j hj).insertAfter_other (h.ring i hlt) ?_ (hnew j hj) (h.disjoint hlt hj hji)
    have hmem := List.getLast_mem (l := HashNode.bucket i :: l₁.map .entry) (by simp)
    rw [hl, List.map_append, ← List.cons_append]
    exact List.mem_append_left _ hmem
  · rcases List.mem_append.mp ha with ha | ha
    · exact hhash a (by simp [ha])
    · rcases List.mem_cons.mp ha with rfl | ha
      · exact hi
      · exact hhash a (by simp [ha])
  · have hmem : a ∈ bucket i → s.linked a = true := fun ha => (h.linked a).mpr ⟨i, hlt, ha⟩
    rw [hl] at hmem ⊢
    by_cases hae : a = e
    · simp [hae]
    · rw [Function.update_of_ne hae]
      simp only [List.mem_append, List.mem_cons] at hmem ⊢
      tauto

/-- `HashTableRemoveEntry`. -/
theorem Represents.remove (h : Represents s bucket) (hlt : i < cfg.maxKeys.toNat)
    (hl : bucket i = l₁ ++ e :: l₂) (count : DWORD) :
    Represents { s with
      links := removeEntryList s.links (.entry e), numberOfElements := count
      linked := Function.update s.linked e false } (Function.update bucket i (l₁ ++ l₂)) := by
  have hring := h.ring i hlt
  have hord := h.isOrdered hlt
  have hhash := h.hashed i hlt
  rw [hl] at hord hhash
  rw [hl, List.map_append, List.map_cons] at hring
  have hout : e ∉ l₁ ++ l₂ := by
    have hnd := (List.nodup_cons.mp hring.nodup).2
    have hnd' : (l₁ ++ e :: l₂).Nodup := by
      apply List.Nodup.of_map HashNode.entry
      simpa using hnd
    grind
  refine h.change hlt ?_ (fun j hj hji => ?_) ?_ (fun a ha => ?_) (fun a => ?_)
  · rw [List.map_append]
    exact hring.unlink
  · exact (h.ring j hj).unlink_other (h.ring i hlt) (by simp [hl]) (h.disjoint hlt hj hji)
  · exact hord.sublist (by simp)
  · exact hhash a (by simp only [List.mem_append, List.mem_cons] at ha ⊢; tauto)
  · have hmem : a ∈ bucket i → s.linked a = true := fun ha => (h.linked a).mpr ⟨i, hlt, ha⟩
    rw [hl] at hmem ⊢
    by_cases hae : a = e
    · subst hae
      simpa using hout
    · rw [Function.update_of_ne hae]
      simp only [List.mem_append, List.mem_cons] at hmem ⊢
      tauto

/-- `HashTableInsert` of a key that is there: the new element takes the place of the old one. -/
theorem Represents.replace (h : Represents s bucket) (he : s.linked e = false)
    (hlt : i < cfg.maxKeys.toNat) (hl : bucket i = l₁ ++ y :: l₂) (hkey : s.key y = s.key e) :
    Represents { s with
      links := removeEntryList (insertHeadList s.links (.entry y) (.entry e)) (.entry y)
      linked := Function.update (Function.update s.linked y false) e true }
      (Function.update bucket i (l₁ ++ e :: l₂)) := by
  have hring := h.ring i hlt
  have hnew : ∀ j < cfg.maxKeys.toNat,
      HashNode.entry e ∉ HashNode.bucket j :: (bucket j).map .entry := by
    intro j hj
    simpa using h.not_mem he hj
  have hord := h.isOrdered hlt
  have hhash := h.hashed i hlt
  have hnot := hnew i hlt
  have hey : y ≠ e := by
    intro heq
    exact h.not_mem he hlt (by simp [hl, heq])
  rw [hl] at hord hhash
  rw [hl, List.map_append, List.map_cons] at hring hnot
  have hins := hring.insertAfter hnot
  have hout : y ∉ l₁ ++ l₂ := by
    have hnd := (List.nodup_cons.mp hring.nodup).2
    have hnd' : (l₁ ++ y :: l₂).Nodup := by
      apply List.Nodup.of_map HashNode.entry
      simpa using hnd
    grind
  refine h.change hlt ?_ (fun j hj hji => ?_) ?_ (fun a ha => ?_) (fun a => ?_)
  · rw [List.map_append, List.map_cons]
    exact hins.unlink
  · have hother := (h.ring j hj).insertAfter_other (h.ring i hlt)
      (show HashNode.entry y ∈ _ by simp [hl]) (hnew j hj) (h.disjoint hlt hj hji)
    refine hother.unlink_other hins (by simp) (fun x hx => ?_)
    by_cases hxe : x = .entry e
    · exact hxe ▸ hnew j hj
    · refine h.disjoint hlt hj hji x ?_
      rw [hl, List.map_append, List.map_cons]
      simp only [List.mem_cons, List.mem_append] at hx ⊢
      tauto
  · obtain ⟨ho₁, ho₂, ho₃⟩ := List.pairwise_append.mp hord
    obtain ⟨ho₄, ho₅⟩ := List.pairwise_cons.mp ho₂
    refine List.pairwise_append.mpr ⟨ho₁, List.pairwise_cons.mpr ⟨fun b hb => ?_, ho₅⟩,
      fun a ha b hb => ?_⟩
    · rw [← hkey]
      exact ho₄ b hb
    · rcases List.mem_cons.mp hb with rfl | hb
      · rw [← hkey]
        exact ho₃ a ha y (by simp)
      · exact ho₃ a ha b (List.mem_cons_of_mem y hb)
  · rcases List.mem_append.mp ha with ha | ha
    · exact hhash a (by simp [ha])
    · rcases List.mem_cons.mp ha with rfl | ha
      · rw [← hkey]
        exact hhash y (by simp)
      · exact hhash a (by simp [ha])
  · have hmem : a ∈ bucket i → s.linked a = true := fun ha => (h.linked a).mpr ⟨i, hlt, ha⟩
    rw [hl] at hmem ⊢
    by_cases hae : a = e
    · simp [hae]
    · rw [Function.update_of_ne hae]
      by_cases hay : a = y
      · subst hay
        simpa [hae] using hout
      · rw [Function.update_of_ne hay]
        simp only [List.mem_append, List.mem_cons] at hmem ⊢
        tauto

end Represents

end HAL9000.HashTable
