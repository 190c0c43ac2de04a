import Mathlib.Data.List.Sort

/-! Comparison functions with a sign, and stable insertion into sorted lists. -/
namespace Comparison

variable {α : Type*} {cmp : α → α → ℤ} {S : Set α}

/-- A total preorder on `S`: the arguments may be exchanged with the sign, and `≤` is transitive. -/
structure IsPreorder (S : Set α) (cmp : α → α → ℤ) : Prop where
  antisymm : ∀ a ∈ S, ∀ b ∈ S, cmp a b < 0 ↔ 0 < cmp b a
  trans : ∀ a ∈ S, ∀ b ∈ S, ∀ c ∈ S, cmp a b ≤ 0 → cmp b c ≤ 0 → cmp a c ≤ 0

def Sorted (cmp : α → α → ℤ) (l : List α) : Prop := l.Pairwise fun a b => cmp a b ≤ 0

/-- The element comes before the first one that is greater. -/
def insert (cmp : α → α → ℤ) (e : α) (l : List α) : List α := l.orderedInsert (fun a b => cmp a b < 0) e

/-- The elements that are equal to `x`, in their order. -/
def equals (cmp : α → α → ℤ) (x : α) (l : List α) : List α := l.filter fun a => cmp x a = 0

theorem perm_insert (cmp : α → α → ℤ) (e : α) (l : List α) : (insert cmp e l).Perm (e :: l) :=
  List.perm_orderedInsert ..

section Insertion

variable (h : IsPreorder S cmp) {a b c e x : α} {l l₁ l₂ : List α}
include h

namespace IsPreorder

theorem le_of_not_lt (ha : a ∈ S) (hb : b ∈ S) (hab : ¬ cmp a b < 0) : cmp b a ≤ 0 := by
  rw [h.antisymm a ha b hb] at hab
  exact Int.not_lt.mp hab

theorem lt_of_lt_of_le (ha : a ∈ S) (hb : b ∈ S) (hc : c ∈ S) (hab : cmp a b < 0) (hbc : cmp b c ≤ 0) :
    cmp a c < 0 := by
  by_contra hac
  have hba := h.trans b hb c hc a ha hbc (h.le_of_not_lt ha hc hac)
  have := (h.antisymm a ha b hb).mp hab
  omega

theorem lt_of_le_of_lt (ha : a ∈ S) (hb : b ∈ S) (hc : c ∈ S) (hab : cmp a b ≤ 0) (hbc : cmp b c < 0) :
    cmp a c < 0 := by
  by_contra hac
  have hcb := h.trans c hc a ha b hb (h.le_of_not_lt ha hc hac) hab
  have := (h.antisymm b hb c hc).mp hbc
  omega

end IsPreorder

/-- A sorted list splits where the element is inserted. -/
theorem insert_split (hl : Sorted cmp l) (hS : ∀ a ∈ l, a ∈ S) (he : e ∈ S) :
    ∃ l₁ l₂, l = l₁ ++ l₂ ∧ insert cmp e l = l₁ ++ e :: l₂ ∧ (∀ a ∈ l₁, cmp a e ≤ 0) ∧ ∀ a ∈ l₂, cmp e a < 0 := by
  induction l with
  | nil => exact ⟨[], [], rfl, rfl, by simp, by simp⟩
  | cons x l ih =>
    obtain ⟨hx, hl⟩ := List.pairwise_cons.mp hl
    have hxS := hS x List.mem_cons_self
    have hlS := fun a ha => hS a (List.mem_cons_of_mem x ha)
    unfold insert
    rw [List.orderedInsert]
    by_cases hlt : cmp e x < 0
    · rw [if_pos hlt]
      refine ⟨[], x :: l, rfl, rfl, by simp, fun a ha => ?_⟩
      rcases List.mem_cons.mp ha with rfl | ha
      · exact hlt
      · exact h.lt_of_lt_of_le he hxS (hlS a ha) hlt (hx a ha)
    · rw [if_neg hlt]
      obtain ⟨l₁, l₂, rfl, hinsert, hbefore, hafter⟩ := ih hl hlS
      refine ⟨x :: l₁, l₂, rfl, congrArg (x :: ·) hinsert, fun a ha => ?_, hafter⟩
      rcases List.mem_cons.mp ha with rfl | ha
      · exact h.le_of_not_lt he hxS hlt
      · exact hbefore a ha

theorem sorted_insert (hl : Sorted cmp l) (hS : ∀ a ∈ l, a ∈ S) (he : e ∈ S) : Sorted cmp (insert cmp e l) := by
  obtain ⟨l₁, l₂, rfl, hinsert, hbefore, hafter⟩ := insert_split h hl hS he
  obtain ⟨h₁, h₂, hcross⟩ := List.pairwise_append.mp hl
  rw [hinsert]
  refine List.pairwise_append.mpr ⟨h₁, List.pairwise_cons.mpr ⟨fun a ha => (hafter a ha).le, h₂⟩, ?_⟩
  intro a ha b hb
  rcases List.mem_cons.mp hb with rfl | hb
  · exact hbefore a ha
  · exact hcross a ha b hb

/-- An element is inserted after those that it is equal to. -/
theorem equals_insert (hl : Sorted cmp l) (hS : ∀ a ∈ l, a ∈ S) (he : e ∈ S) (hx : x ∈ S) :
    equals cmp x (insert cmp e l) = equals cmp x l ++ equals cmp x [e] := by
  obtain ⟨l₁, l₂, rfl, hinsert, -, hafter⟩ := insert_split h hl hS he
  rw [hinsert]
  unfold equals
  rw [List.append_cons, List.filter_append, List.filter_append, List.filter_append]
  by_cases heq : cmp x e = 0
  · have hnone : l₂.filter (fun a => cmp x a = 0) = [] := by
      refine List.filter_eq_nil_iff.mpr fun a ha => ?_
      have haS := hS a (List.mem_append_right l₁ ha)
      have hlt := h.lt_of_le_of_lt hx he haS (Int.le_of_eq heq) (hafter a ha)
      simp only [decide_eq_true_eq]
      omega
    rw [hnone, List.append_nil, List.append_nil]
  · have hnone : [e].filter (fun a => cmp x a = 0) = [] := by simp [heq]
    rw [hnone, List.append_nil, List.append_nil]

/-- Nothing behind a greater element is equal. -/
theorem ne_of_gt (hl : Sorted cmp (a :: l)) (hS : ∀ x ∈ a :: l, x ∈ S) {wanted : α} (hwanted : wanted ∈ S)
    (hgt : 0 < cmp a wanted) : ∀ x ∈ a :: l, cmp x wanted ≠ 0 := by
  intro x hx heq
  have haS := hS a List.mem_cons_self
  have hxS := hS x hx
  rcases List.mem_cons.mp hx with rfl | hx
  · omega
  · have := h.trans a haS x hxS wanted hwanted ((List.pairwise_cons.mp hl).1 x hx) (Int.le_of_eq heq)
    omega

end Insertion

end Comparison
