import Mathlib.Data.Fintype.Card
import Mathlib.Logic.Function.Basic
import Mathlib.Tactic.SplitIfs

/-! Program counters of any number of threads, and the one pattern by which a thread acts on
another: a wake-up, which is taken once its target has blocked. For counters that many threads
update, the number of threads at given places. -/
namespace Threads

variable {ι π : Type*} [DecidableEq ι] [DecidableEq π]

/-- Thread `t` moves to `p`; the thread it wakes moves from `blocked` to `woken`. -/
def move (blocked woken : π) (pc : ι → π) (t : ι) (p : π) : Option ι → Option (ι → π)
  | none => some (Function.update pc t p)
  | some u =>
    if pc u = blocked then some (Function.update (Function.update pc t p) u woken) else none

variable {blocked woken p : π} {pc pc' : ι → π} {t : ι} {w : Option ι}

/-- The thread that moves ends where it goes, unless it is itself blocked. -/
theorem move_self (h : move blocked woken pc t p w = some pc') (ht : pc t ≠ blocked) :
    pc' t = p := by
  cases w with
  | none =>
    cases h
    exact Function.update_self ..
  | some u =>
    simp only [move] at h
    split_ifs at h with hu
    cases h
    have hne : t ≠ u := by
      intro htu
      exact ht (htu ▸ hu)
    simp [Function.update_of_ne hne]

theorem move_of_ne (h : move blocked woken pc t p w = some pc') {r : ι} (hr : r ≠ t)
    (hw : w ≠ some r) : pc' r = pc r := by
  cases w with
  | none =>
    cases h
    exact Function.update_of_ne hr ..
  | some u =>
    simp only [move] at h
    split_ifs at h with hu
    cases h
    have hru : r ≠ u := fun hru => hw (congrArg some hru.symm)
    simp [Function.update_of_ne hr, Function.update_of_ne hru]

theorem move_woken {u : ι} (h : move blocked woken pc t p (some u) = some pc') :
    pc u = blocked ∧ pc' u = woken := by
  simp only [move] at h
  split_ifs at h with hu
  cases h
  exact ⟨hu, Function.update_self ..⟩

/-- A thread that is neither moved nor blocked stays where it is. -/
theorem move_frame (h : move blocked woken pc t p w = some pc') {r : ι} (hr : r ≠ t)
    (hb : pc r ≠ blocked) : pc' r = pc r := by
  apply move_of_ne h hr
  intro hw
  subst hw
  exact hb (move_woken h).1

section Population

variable [Fintype ι]

/-- How many threads stand at a place that satisfies `q`. -/
def population (q : π → Bool) (pc : ι → π) : ℕ :=
  (Finset.univ.filter fun i => q (pc i) = true).card

omit [DecidableEq π] in
/-- Only the thread that moves leaves or enters the count. -/
theorem population_update (q : π → Bool) (pc : ι → π) (t : ι) (p : π) :
    population q (Function.update pc t p) + (q (pc t)).toNat =
      population q pc + (q p).toNat := by
  have hsplit : ∀ f : ι → π, population q f =
      ((Finset.univ.erase t).filter fun i => q (f i) = true).card + (q (f t)).toNat := by
    intro f
    unfold population
    rw [← Finset.insert_erase (Finset.mem_univ t), Finset.filter_insert]
    cases hq : q (f t) with
    | false => simp
    | true => simp [Finset.card_insert_of_notMem]
  have hrest : ((Finset.univ.erase t).filter fun i => q (Function.update pc t p i) = true) =
      (Finset.univ.erase t).filter fun i => q (pc i) = true := by
    apply Finset.filter_congr
    intro i hi
    rw [Function.update_of_ne (Finset.ne_of_mem_erase hi)]
  rw [hsplit (Function.update pc t p), hsplit pc, hrest, Function.update_self]
  omega

omit [DecidableEq ι] [DecidableEq π] in
theorem population_le (q : π → Bool) (pc : ι → π) : population q pc ≤ Fintype.card ι :=
  Finset.card_le_univ _

omit [DecidableEq ι] [DecidableEq π] in
theorem population_eq_zero {q : π → Bool} {pc : ι → π} :
    population q pc = 0 ↔ ∀ i, q (pc i) = false := by
  simp [population, Finset.filter_eq_empty_iff]

omit [DecidableEq ι] [DecidableEq π] in
theorem population_pos {q : π → Bool} {pc : ι → π} {t : ι} (h : q (pc t) = true) :
    0 < population q pc := by
  apply Nat.pos_of_ne_zero
  intro h0
  simp [population_eq_zero.mp h0 t] at h

omit [DecidableEq ι] [DecidableEq π] in
theorem population_mono {q q' : π → Bool} (pc : ι → π) (h : ∀ p, q p = true → q' p = true) :
    population q pc ≤ population q' pc := by
  apply Finset.card_le_card
  intro i hi
  simp only [Finset.mem_filter, Finset.mem_univ, true_and] at hi ⊢
  exact h _ hi

omit [DecidableEq ι] [DecidableEq π] in
/-- Two threads are never both counted once. -/
theorem one_lt_population {q : π → Bool} {pc : ι → π} {t u : ι} (htu : t ≠ u)
    (ht : q (pc t) = true) (hu : q (pc u) = true) : 1 < population q pc := by
  apply Finset.one_lt_card.mpr
  exact ⟨t, by simp [ht], u, by simp [hu], htu⟩

end Population

end Threads
