import Mathlib.Data.List.Nodup
import Mathlib.Logic.Function.Basic
import Mathlib.Logic.Function.Iterate

/-! Circular doubly linked lists over any type of nodes. A ring is a head with the list of the
other nodes in the order in which the forward links visit them. -/
namespace Ring

variable {ν : Type*}

structure Links (ν : Type*) where
  flink : ν → ν
  blink : ν → ν

/-- The links lead from `a` through `l` to `b`, and back. -/
def Seg (k : Links ν) (a : ν) : List ν → ν → Prop
  | [], b => k.flink a = b ∧ k.blink b = a
  | x :: l, b => k.flink a = x ∧ k.blink x = a ∧ Seg k x l b

/-- The ring of `head` has the other nodes `l`. -/
structure IsRing (k : Links ν) (head : ν) (l : List ν) : Prop where
  nodup : (head :: l).Nodup
  seg : Seg k head l head

section Seg

variable {k k' : Links ν} {a b x : ν} {l l₁ l₂ : List ν}

theorem seg_append : Seg k a (l₁ ++ x :: l₂) b ↔ Seg k a l₁ x ∧ Seg k x l₂ b := by
  induction l₁ generalizing a with
  | nil => simp [Seg, and_assoc]
  | cons y l₁ ih => simp [Seg, ih, and_assoc]

/-- A segment depends on the forward links of all its nodes but the last and on the backward links
of all but the first. -/
theorem Seg.congr (h : Seg k a l b) (hf : ∀ x ∈ a :: l, k'.flink x = k.flink x)
    (hb : ∀ x ∈ l ++ [b], k'.blink x = k.blink x) : Seg k' a l b := by
  induction l generalizing a with
  | nil =>
    obtain ⟨h₁, h₂⟩ := h
    exact ⟨(hf a (by simp)).trans h₁, (hb b (by simp)).trans h₂⟩
  | cons x l ih =>
    obtain ⟨h₁, h₂, h₃⟩ := h
    refine ⟨(hf a (by simp)).trans h₁, (hb x (by simp)).trans h₂, ih h₃ ?_ ?_⟩
    · exact fun y hy => hf y (List.mem_cons_of_mem a hy)
    · exact fun y hy => hb y (List.mem_cons_of_mem x hy)

/-- The node after `a`. -/
theorem Seg.flink (h : Seg k a l b) : k.flink a = (l ++ [b]).headD b := by
  cases l with
  | nil => exact h.1
  | cons x l => exact h.1

/-- The node before `b`. -/
theorem Seg.blink (h : Seg k a l b) : k.blink b = (a :: l).getLast (by simp) := by
  induction l generalizing a with
  | nil => exact h.2
  | cons x l ih =>
    rw [List.getLast_cons (by simp)]
    exact ih h.2.2

/-- The next node of the first node of a segment is in it. -/
theorem Seg.flink_mem (h : Seg k a l b) : k.flink a ∈ l ++ [b] := by
  cases l with
  | nil => simp [h.1]
  | cons x l => simp [h.1]

/-- The neighbours of a node point back to it. -/
theorem Seg.blink_flink (h : Seg k a l b) (hx : x ∈ a :: l) : k.blink (k.flink x) = x := by
  induction l generalizing a with
  | nil =>
    obtain rfl := List.mem_singleton.mp hx
    rw [h.1, h.2]
  | cons y l ih =>
    obtain ⟨h₁, h₂, h₃⟩ := h
    rcases List.mem_cons.mp hx with rfl | hx
    · rw [h₁, h₂]
    · exact ih h₃ hx

theorem Seg.flink_blink (h : Seg k a l b) (hx : x ∈ l ++ [b]) : k.flink (k.blink x) = x := by
  induction l generalizing a with
  | nil =>
    obtain rfl := List.mem_singleton.mp hx
    rw [h.2, h.1]
  | cons y l ih =>
    obtain ⟨h₁, h₂, h₃⟩ := h
    rcases List.mem_cons.mp hx with rfl | hx
    · rw [h₂, h₁]
    · exact ih h₃ hx

theorem Seg.reaches (h : Seg k a l b) (hx : x ∈ a :: l) : ∃ n, k.flink^[n] a = x := by
  induction l generalizing a with
  | nil => exact ⟨0, (List.mem_singleton.mp hx).symm⟩
  | cons y l ih =>
    obtain ⟨h₁, -, h₃⟩ := h
    rcases List.mem_cons.mp hx with rfl | hx
    · exact ⟨0, rfl⟩
    · obtain ⟨n, hn⟩ := ih h₃ hx
      refine ⟨n + 1, ?_⟩
      rw [Function.iterate_succ_apply, h₁]
      exact hn

theorem Seg.blink_mem (h : Seg k a l b) : k.blink b ∈ a :: l := by
  rw [h.blink]
  exact List.getLast_mem _

end Seg

theorem IsRing.frame {k k' : Links ν} {head : ν} {l : List ν} (h : IsRing k head l)
    (hf : ∀ x ∈ head :: l, k'.flink x = k.flink x)
    (hb : ∀ x ∈ head :: l, k'.blink x = k.blink x) : IsRing k' head l := by
  refine ⟨h.nodup, h.seg.congr hf fun x hx => hb x ?_⟩
  rw [List.mem_append, List.mem_singleton] at hx
  rcases hx with hx | hx
  · exact List.mem_cons_of_mem head hx
  · simp [hx]

/-- Links do not lead out of a ring. -/
theorem IsRing.flink_mem {k : Links ν} {head x : ν} {l : List ν} (h : IsRing k head l)
    (hx : x ∈ head :: l) : k.flink x ∈ head :: l := by
  rcases List.mem_cons.mp hx with rfl | hx
  · have := h.seg.flink_mem
    simp only [List.mem_append, List.mem_singleton] at this
    exact List.mem_cons.mpr this.symm
  · obtain ⟨l₁, l₂, rfl⟩ := List.append_of_mem hx
    have := (seg_append.mp h.seg).2.flink_mem
    simp only [List.mem_append, List.mem_singleton] at this
    simp only [List.mem_cons, List.mem_append]
    tauto

theorem IsRing.blink_mem {k : Links ν} {head x : ν} {l : List ν} (h : IsRing k head l)
    (hx : x ∈ head :: l) : k.blink x ∈ head :: l := by
  rcases List.mem_cons.mp hx with rfl | hx
  · exact h.seg.blink_mem
  · obtain ⟨l₁, l₂, rfl⟩ := List.append_of_mem hx
    have := (seg_append.mp h.seg).1.blink_mem
    simp only [List.mem_cons, List.mem_append] at this ⊢
    tauto

theorem IsRing.blink_flink {k : Links ν} {head x : ν} {l : List ν} (h : IsRing k head l)
    (hx : x ∈ head :: l) : k.blink (k.flink x) = x :=
  h.seg.blink_flink hx

theorem IsRing.flink_blink {k : Links ν} {head x : ν} {l : List ν} (h : IsRing k head l)
    (hx : x ∈ head :: l) : k.flink (k.blink x) = x := by
  refine h.seg.flink_blink ?_
  rw [List.mem_append, List.mem_singleton]
  exact (List.mem_cons.mp hx).symm

/-- The nodes of a ring are those that the forward links lead to. -/
theorem IsRing.mem_iff_reaches {k : Links ν} {head x : ν} {l : List ν} (h : IsRing k head l) :
    x ∈ head :: l ↔ ∃ n, k.flink^[n] head = x := by
  constructor
  · exact h.seg.reaches
  · rintro ⟨n, rfl⟩
    induction n with
    | zero => exact List.mem_cons_self
    | succ n ih =>
      rw [Function.iterate_succ_apply']
      exact h.flink_mem ih

variable [DecidableEq ν]

namespace Links

def setFlink (k : Links ν) (a b : ν) : Links ν :=
  { k with flink := Function.update k.flink a b }

def setBlink (k : Links ν) (a b : ν) : Links ν :=
  { k with blink := Function.update k.blink a b }

/-- A node that is its own ring. -/
def single (k : Links ν) (a : ν) : Links ν :=
  (k.setFlink a a).setBlink a a

/-- Links `e` between `p` and the node after it. -/
def insertAfter (k : Links ν) (p e : ν) : Links ν :=
  let next := k.flink p
  (((k.setFlink e next).setBlink e p).setBlink next e).setFlink p e

/-- Links the neighbours of `e` with each other. -/
def unlink (k : Links ν) (e : ν) : Links ν :=
  let next := k.flink e
  let prev := k.blink e
  (k.setFlink prev next).setBlink next prev

end Links

section Operations

variable {k : Links ν} {head p e b : ν} {l l₁ l₂ : List ν}

theorem isRing_single (k : Links ν) (a : ν) : IsRing (k.single a) a [] := by
  refine ⟨by simp, ?_⟩
  simp [Seg, Links.single, Links.setFlink, Links.setBlink]

theorem insertAfter_flink {x : ν} (he : x ≠ e) (hp : x ≠ p) :
    (k.insertAfter p e).flink x = k.flink x := by
  simp [Links.insertAfter, Links.setFlink, Links.setBlink, Function.update_of_ne, he, hp]

theorem insertAfter_blink {x : ν} (he : x ≠ e) (hp : x ≠ k.flink p) :
    (k.insertAfter p e).blink x = k.blink x := by
  simp [Links.insertAfter, Links.setFlink, Links.setBlink, Function.update_of_ne, he, hp]

theorem unlink_flink {x : ν} (hx : x ≠ k.blink e) : (k.unlink e).flink x = k.flink x := by
  simp [Links.unlink, Links.setFlink, Links.setBlink, Function.update_of_ne hx]

theorem unlink_blink {x : ν} (hx : x ≠ k.flink e) : (k.unlink e).blink x = k.blink x := by
  simp [Links.unlink, Links.setFlink, Links.setBlink, Function.update_of_ne hx]

private theorem insertAfter_seg (h : Seg k p l b) (he : e ∉ p :: (l ++ [b])) (hp : p ∉ l)
    (hl : (l ++ [b]).Nodup) : Seg (k.insertAfter p e) p (e :: l) b := by
  have hep : e ≠ p := fun heq => he (by simp [heq])
  cases l with
  | nil =>
    have heb : e ≠ b := fun heq => he (by simp [heq])
    have h₁ : k.flink p = b := h.1
    simp [Seg, Links.insertAfter, Links.setFlink, Links.setBlink, h₁, heb, hep]
  | cons x l =>
    obtain ⟨h₁, h₂, h₃⟩ := h
    have hex : e ≠ x := fun heq => he (by simp [heq])
    refine ⟨?_, ?_, ?_, ?_, h₃.congr (fun y hy => ?_) (fun y hy => ?_)⟩
    · simp [Links.insertAfter, Links.setFlink]
    · simp [Links.insertAfter, Links.setFlink, Links.setBlink, h₁, hex]
    · simp [Links.insertAfter, Links.setFlink, Links.setBlink, h₁, hep]
    · simp [Links.insertAfter, Links.setFlink, Links.setBlink, h₁]
    · have hye : y ≠ e := fun heq => he (by rw [← heq]; simp at hy ⊢; tauto)
      exact insertAfter_flink hye (fun heq => hp (heq ▸ hy))
    · have hye : y ≠ e := fun heq => he (by rw [← heq]; simp at hy ⊢; tauto)
      rw [List.cons_append, List.nodup_cons] at hl
      refine insertAfter_blink hye (fun heq => hl.1 ?_)
      rw [← h₁, ← heq]
      exact hy

theorem IsRing.insertHead (h : IsRing k head l) (he : e ∉ head :: l) :
    IsRing (k.insertAfter head e) head (e :: l) := by
  have hnd := List.nodup_cons.mp h.nodup
  refine ⟨?_, insertAfter_seg h.seg ?_ hnd.1 ?_⟩
  · grind
  · grind
  · grind

theorem IsRing.insertAfter (h : IsRing k head (l₁ ++ p :: l₂)) (he : e ∉ head :: (l₁ ++ p :: l₂)) :
    IsRing (k.insertAfter p e) head (l₁ ++ p :: e :: l₂) := by
  have hnd := h.nodup
  obtain ⟨hfront, hback⟩ := seg_append.mp h.seg
  refine ⟨by grind, ?_⟩
  have hnew := insertAfter_seg hback (e := e) (by grind) (by grind) (by grind)
  refine seg_append.mpr ⟨hfront.congr (fun y hy => ?_) (fun y hy => ?_), hnew⟩
  · exact insertAfter_flink (by grind) (by grind)
  · have hmem := hback.flink_mem
    exact insertAfter_blink (by grind) (by grind)

/-- Insertion after the last of the nodes `head :: l₁`. -/
theorem IsRing.insertLast (h : IsRing k head (l₁ ++ l₂)) (he : e ∉ head :: (l₁ ++ l₂)) :
    IsRing (k.insertAfter ((head :: l₁).getLast (List.cons_ne_nil head l₁)) e) head
      (l₁ ++ e :: l₂) := by
  rcases List.eq_nil_or_concat l₁ with rfl | ⟨l₀, p, rfl⟩
  · exact h.insertHead he
  · simp only [List.concat_eq_append, List.append_assoc, List.singleton_append] at h he ⊢
    have hlast : (head :: (l₀ ++ [p])).getLast (List.cons_ne_nil _ _) = p := by simp
    rw [hlast]
    exact h.insertAfter he

private theorem unlink_seg (hpe : Seg k p [] e) (h : Seg k e l b) (hp : p ∉ l)
    (hl : (l ++ [b]).Nodup) : Seg (k.unlink e) p l b := by
  have hprev : k.blink e = p := hpe.2
  cases l with
  | nil =>
    have hnext : k.flink e = b := h.1
    simp [Seg, Links.unlink, Links.setFlink, Links.setBlink, hprev, hnext]
  | cons x l =>
    obtain ⟨h₁, h₂, h₃⟩ := h
    refine ⟨?_, ?_, h₃.congr (fun y hy => ?_) (fun y hy => ?_)⟩
    · simp [Links.unlink, Links.setFlink, Links.setBlink, hprev, h₁]
    · simp [Links.unlink, Links.setFlink, Links.setBlink, hprev, h₁]
    · exact unlink_flink (by rw [hprev]; exact fun heq => hp (heq ▸ hy))
    · rw [List.cons_append, List.nodup_cons] at hl
      exact unlink_blink (by rw [h₁]; exact fun heq => hl.1 (heq ▸ hy))

theorem IsRing.unlink (h : IsRing k head (l₁ ++ e :: l₂)) :
    IsRing (k.unlink e) head (l₁ ++ l₂) := by
  have hnd := h.nodup
  obtain ⟨hfront, hback⟩ := seg_append.mp h.seg
  refine ⟨by grind, ?_⟩
  rcases List.eq_nil_or_concat l₁ with rfl | ⟨l₀, p, rfl⟩
  · exact unlink_seg hfront hback (by grind) (by grind)
  · rw [List.concat_eq_append] at hfront hnd ⊢
    obtain ⟨hstart, hprev⟩ := seg_append.mp hfront
    have hnew := unlink_seg hprev hback (by grind) (by grind)
    rw [List.append_assoc, List.singleton_append]
    refine seg_append.mpr ⟨hstart.congr (fun y hy => ?_) (fun y hy => ?_), hnew⟩
    · exact unlink_flink (by rw [hprev.2]; grind)
    · have hmem := hback.flink_mem
      exact unlink_blink (by grind)

theorem IsRing.single_other {a : ν} (h : IsRing k head l) (ha : a ∉ head :: l) :
    IsRing (k.single a) head l := by
  have hne : ∀ x ∈ head :: l, x ≠ a := fun x hx heq => ha (heq ▸ hx)
  apply h.frame
  · intro x hx
    exact Function.update_of_ne (hne x hx) ..
  · intro x hx
    exact Function.update_of_ne (hne x hx) ..

/-- A ring that shares no node with the one that changes. -/
theorem IsRing.insertAfter_other {head' : ν} {l' : List ν} (h' : IsRing k head' l')
    (h : IsRing k head l) (hp : p ∈ head :: l) (he : e ∉ head' :: l')
    (hd : ∀ x ∈ head :: l, x ∉ head' :: l') : IsRing (k.insertAfter p e) head' l' := by
  have hnext := hd _ (h.flink_mem hp)
  have hprev := hd p hp
  apply h'.frame
  · intro x hx
    exact insertAfter_flink (fun heq => he (heq ▸ hx)) (fun heq => hprev (heq ▸ hx))
  · intro x hx
    exact insertAfter_blink (fun heq => he (heq ▸ hx)) (fun heq => hnext (heq ▸ hx))

theorem IsRing.unlink_other {head' : ν} {l' : List ν} (h' : IsRing k head' l')
    (h : IsRing k head l) (he : e ∈ head :: l) (hd : ∀ x ∈ head :: l, x ∉ head' :: l') :
    IsRing (k.unlink e) head' l' := by
  have hnext := hd _ (h.flink_mem he)
  have hprev := hd _ (h.blink_mem he)
  apply h'.frame
  · intro x hx
    exact unlink_flink (fun heq => hprev (heq ▸ hx))
  · intro x hx
    exact unlink_blink (fun heq => hnext (heq ▸ hx))

end Operations

end Ring
