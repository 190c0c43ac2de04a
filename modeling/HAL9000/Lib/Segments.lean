import Mathlib

/-! Numbers that are described by segments, each of which is a start and a length. -/
namespace Segments

variable {a m n : ℕ} {l : List (ℕ × ℕ)}

/-- The numbers of the segments, one segment after the other. -/
def elements (l : List (ℕ × ℕ)) : List ℕ := l.flatMap fun s => List.range' s.1 s.2

@[simp] theorem elements_nil : elements [] = [] := rfl

theorem elements_cons (s : ℕ × ℕ) (l : List (ℕ × ℕ)) :
    elements (s :: l) = List.range' s.1 s.2 ++ elements l := List.flatMap_cons

theorem elements_append (l l' : List (ℕ × ℕ)) : elements (l ++ l') = elements l ++ elements l' :=
  List.flatMap_append

theorem length_elements (l : List (ℕ × ℕ)) : (elements l).length = (l.map Prod.snd).sum := by
  induction l with
  | nil => rfl
  | cons s l ih => rw [elements_cons, List.length_append, List.length_range', ih, List.map_cons, List.sum_cons]

/-- A segment is its two parts. -/
theorem elements_split (a m n : ℕ) (l : List (ℕ × ℕ)) :
    elements ((a, m) :: (a + m, n) :: l) = elements ((a, m + n) :: l) := by
  rw [elements_cons, elements_cons, elements_cons, ← List.append_assoc, List.range'_append_1]

/-- The first numbers are those of a part of the first segment, and then those of the others. -/
theorem take_elements_cons (a n r : ℕ) (l : List (ℕ × ℕ)) :
    (elements ((a, n) :: l)).take r =
      elements [(a, min n r)] ++ (elements l).take (r - min n r) := by
  rw [elements_cons, elements_cons, elements_nil, List.append_nil, List.take_append, List.length_range']
  have htake : (List.range' a n).take r = List.range' a (min n r) := by
    rcases Nat.le_total n r with h | h
    · rw [List.take_range'_of_length_le h, Nat.min_eq_left h]
    · rw [List.take_range'_of_length_ge h, Nat.min_eq_right h]
  rw [htake, show r - n = r - min n r by lia]

end Segments
