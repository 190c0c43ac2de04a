import Mathlib.Data.List.Basic

/-! Lists that are made of blocks of one length. -/
namespace Blocks

variable {α β : Type*} {f : α → List β} {k : ℕ}

theorem length_flatMap (hf : ∀ a, (f a).length = k) (l : List α) :
    (l.flatMap f).length = l.length * k := by
  induction l with
  | nil => simp
  | cons a l ih =>
    rw [List.flatMap_cons, List.length_append, hf, ih, List.length_cons, Nat.add_one_mul, Nat.add_comm]

/-- Dropping whole blocks. -/
theorem drop_flatMap (hf : ∀ a, (f a).length = k) (l : List α) (n : ℕ) :
    (l.flatMap f).drop (n * k) = (l.drop n).flatMap f := by
  induction n generalizing l with
  | zero => simp
  | succ n ih =>
    cases l with
    | nil => simp
    | cons a l =>
      rw [List.flatMap_cons, Nat.add_one_mul, Nat.add_comm, List.drop_append, List.drop_of_length_le
        (by rw [hf]; omega), List.nil_append, hf, Nat.add_sub_cancel_left, ih]
      rfl

/-- Taking whole blocks. -/
theorem take_flatMap (hf : ∀ a, (f a).length = k) (l : List α) (n : ℕ) :
    (l.flatMap f).take (n * k) = (l.take n).flatMap f := by
  induction n generalizing l with
  | zero => simp
  | succ n ih =>
    cases l with
    | nil => simp
    | cons a l =>
      rw [List.flatMap_cons, Nat.add_one_mul, Nat.add_comm, List.take_append, List.take_of_length_le
        (by rw [hf]; omega), hf, Nat.add_sub_cancel_left, ih]
      rfl

/-- The elements of a block. -/
theorem getElem?_flatMap (hf : ∀ a, (f a).length = k) (hk : 0 < k) (l : List α) (i : ℕ) :
    (l.flatMap f)[i]? = l[i / k]?.bind fun a => (f a)[i % k]? := by
  have hmod := Nat.mod_lt i hk
  have hdrop : (l.flatMap f)[i]? = ((l.drop (i / k)).flatMap f)[i % k]? := by
    rw [← drop_flatMap hf, List.getElem?_drop, Nat.div_add_mod']
  rw [hdrop]
  by_cases hlt : i / k < l.length
  · rw [List.drop_eq_getElem_cons hlt, List.flatMap_cons, List.getElem?_append_left (by rw [hf]; exact hmod),
      List.getElem?_eq_getElem hlt]
    rfl
  · have hnone : l[i / k]? = none := List.getElem?_eq_none (by omega)
    rw [List.drop_of_length_le (by omega), hnone]
    rfl

end Blocks
