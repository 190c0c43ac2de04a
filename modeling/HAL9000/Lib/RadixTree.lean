import Mathlib.Data.Nat.Notation
import Mathlib.Data.Option.Basic
import Mathlib.Tactic.SplitIfs

/-! Trees of tables in memory: an entry of a table may link to a table one level down, and a key
says which entry to follow at each level. The facts are about any kind of tables and entries. -/
namespace RadixTree

variable {α ι ε : Type*}

/-- The table reached from the root by the first `d` digits of a key. -/
def tableAt (link : ε → Option α) (mem : α → ι → ε) (root : α) (key : ℕ → ι) : ℕ → Option α
  | 0 => some root
  | d + 1 => (tableAt link mem root key d).bind fun t => link (mem t (key d))

/-- The keys agree in their first `d` digits. -/
def SamePrefix (key key' : ℕ → ι) (d : ℕ) : Prop := ∀ k < d, key k = key' k

/-- No table is reached along two ways in the first `n` levels. -/
def Unshared (link : ε → Option α) (mem : α → ι → ε) (root : α) (n : ℕ) : Prop :=
  ∀ key key' d d' t, d ≤ n → d' ≤ n → tableAt link mem root key d = some t →
    tableAt link mem root key' d' = some t → d = d' ∧ SamePrefix key key' d

/-- The table is reached in the first `n` levels. -/
def Reached (link : ε → Option α) (mem : α → ι → ε) (root : α) (n : ℕ) (t : α) : Prop :=
  ∃ key, ∃ d ≤ n, tableAt link mem root key d = some t

/-- The entry a key leads to in the tables at depth `n`. -/
def entryAt (link : ε → Option α) (mem : α → ι → ε) (root : α) (n : ℕ) (key : ℕ → ι) : Option ε :=
  (tableAt link mem root key n).map fun t => mem t (key n)

def write [DecidableEq α] [DecidableEq ι] (mem : α → ι → ε) (t : α) (i : ι) (e : ε) : α → ι → ε :=
  fun t' i' => if t' = t ∧ i' = i then e else mem t' i'

/-- Every entry of the table becomes `e`. -/
def clear [DecidableEq α] (mem : α → ι → ε) (t : α) (e : ε) : α → ι → ε :=
  fun t' i' => if t' = t then e else mem t' i'

variable {link : ε → Option α} {mem : α → ι → ε} {root t f : α} {key key' : ℕ → ι} {d d' n : ℕ}
  {i : ι} {e : ε}

theorem SamePrefix.refl (key : ℕ → ι) (d : ℕ) : SamePrefix key key d := fun _ _ => rfl

theorem SamePrefix.symm (h : SamePrefix key key' d) : SamePrefix key' key d :=
  fun k hk => (h k hk).symm

theorem SamePrefix.mono (h : SamePrefix key key' d) (hle : d' ≤ d) : SamePrefix key key' d' :=
  fun k hk => h k (Nat.lt_of_lt_of_le hk hle)

theorem samePrefix_succ_iff :
    SamePrefix key key' (d + 1) ↔ SamePrefix key key' d ∧ key d = key' d := by
  constructor
  · intro h
    exact ⟨h.mono (Nat.le_succ d), h d (Nat.lt_succ_self d)⟩
  · intro h k hk
    rcases Nat.lt_succ_iff_lt_or_eq.mp hk with hk | rfl
    · exact h.1 k hk
    · exact h.2

theorem tableAt_succ (h : tableAt link mem root key d = some t) :
    tableAt link mem root key (d + 1) = link (mem t (key d)) := by
  simp [tableAt, h]

/-- Only the first digits say which table is reached. -/
theorem tableAt_congr (h : SamePrefix key key' d) :
    tableAt link mem root key d = tableAt link mem root key' d := by
  induction d with
  | zero => rfl
  | succ d ih =>
    obtain ⟨hd, hlast⟩ := samePrefix_succ_iff.mp h
    simp only [tableAt, ih hd, hlast]

theorem entryAt_congr (h : SamePrefix key key' (n + 1)) :
    entryAt link mem root n key = entryAt link mem root n key' := by
  obtain ⟨hd, hlast⟩ := samePrefix_succ_iff.mp h
  simp only [entryAt, tableAt_congr hd, hlast]

theorem tableAt_of_succ (h : tableAt link mem root key (d + 1) = some t) :
    ∃ t', tableAt link mem root key d = some t' ∧ link (mem t' (key d)) = some t :=
  Option.bind_eq_some_iff.mp h

/-- A way that reaches a table reaches one at every smaller depth. -/
theorem tableAt_isSome_of_le (h : tableAt link mem root key d = some t) (hle : d' ≤ d) :
    ∃ t', tableAt link mem root key d' = some t' := by
  induction d generalizing t with
  | zero =>
    obtain rfl := Nat.le_zero.mp hle
    exact ⟨t, h⟩
  | succ d ih =>
    obtain ⟨t', ht', -⟩ := tableAt_of_succ h
    rcases Nat.le_succ_iff.mp hle with hle | rfl
    · exact ih ht' hle
    · exact ⟨t, h⟩

variable [DecidableEq α]

@[simp] theorem clear_self {i : ι} : clear mem t e t i = e := if_pos rfl

theorem clear_of_ne {t' : α} (h : t' ≠ t) : clear mem t e t' i = mem t' i := if_neg h

variable [DecidableEq ι]

instance (key key' : ℕ → ι) (d : ℕ) : Decidable (SamePrefix key key' d) :=
  Nat.decidableBallLT d fun k _ => key k = key' k

@[simp] theorem write_self : write mem t i e t i = e := if_pos ⟨rfl, rfl⟩

theorem write_of_ne {t' : α} {i' : ι} (h : ¬ (t' = t ∧ i' = i)) :
    write mem t i e t' i' = mem t' i' := if_neg h

section Write

variable (hun : Unshared link mem root n) (ht : tableAt link mem root key n = some t)
include hun ht

/-- Writing to a table of the last level leaves the ways to all tables alone. -/
theorem tableAt_write (hd : d ≤ n) :
    tableAt link (write mem t i e) root key' d = tableAt link mem root key' d := by
  induction d with
  | zero => rfl
  | succ d ih =>
    simp only [tableAt, ih (Nat.le_of_succ_le hd)]
    cases h : tableAt link mem root key' d with
    | none => rfl
    | some t' =>
      have hne : t' ≠ t := by
        intro heq
        have := (hun key' key d n t (Nat.le_of_succ_le hd) (Nat.le_refl n) (heq ▸ h) ht).1
        omega
      simp only [Option.bind_some, write_of_ne fun hc => hne hc.1]

theorem Unshared.write : Unshared link (write mem t i e) root n := by
  intro key₁ key₂ d d' t' hd hd' h₁ h₂
  rw [tableAt_write hun ht hd] at h₁
  rw [tableAt_write hun ht hd'] at h₂
  exact hun key₁ key₂ d d' t' hd hd' h₁ h₂

theorem reached_write (t' : α) :
    Reached link (RadixTree.write mem t i e) root n t' ↔ Reached link mem root n t' := by
  unfold Reached
  constructor
  · intro h
    obtain ⟨key', d, hd, h⟩ := h
    exact ⟨key', d, hd, by rwa [tableAt_write hun ht hd] at h⟩
  · intro h
    obtain ⟨key', d, hd, h⟩ := h
    exact ⟨key', d, hd, by rwa [tableAt_write hun ht hd]⟩

theorem entryAt_write_self :
    entryAt link (RadixTree.write mem t (key n) e) root n key = some e := by
  rw [entryAt, tableAt_write hun ht (Nat.le_refl n), ht]
  simp

/-- A key that differs somewhere keeps its entry. -/
theorem entryAt_write_of_ne (hne : ¬ SamePrefix key key' (n + 1)) :
    entryAt link (RadixTree.write mem t (key n) e) root n key' = entryAt link mem root n key' := by
  rw [entryAt, entryAt, tableAt_write hun ht (Nat.le_refl n)]
  cases h : tableAt link mem root key' n with
  | none => rfl
  | some t' =>
    have hsame : ¬ (t' = t ∧ key' n = key n) := by
      intro hc
      obtain ⟨heq, hlast⟩ := hc
      have hpre := (hun key key' n n t (Nat.le_refl n) (Nat.le_refl n) ht (heq ▸ h)).2
      exact hne (samePrefix_succ_iff.mpr ⟨hpre, hlast.symm⟩)
    simp only [Option.map_some, write_of_ne hsame]

end Write

section Extend

/-- The tables after a new table was linked in. -/
def extend (mem : α → ι → ε) (t : α) (i : ι) (e : ε) (f : α) (empty : ε) : α → ι → ε :=
  clear (write mem t i e) f empty

variable {empty : ε} (hun : Unshared link mem root n) (ht : tableAt link mem root key d = some t)
  (hd : d < n) (hnone : link (mem t (key d)) = none) (he : link e = some f)
  (hempty : link empty = none) (hfresh : ¬ Reached link mem root n f)
include hun ht hd hnone he hempty hfresh

/-- The new table is reached along the way that was extended, and all other tables as before. -/
theorem tableAt_extend (hd' : d' ≤ n) :
    tableAt link (extend mem t (key d) e f empty) root key' d' =
      if d' = d + 1 ∧ SamePrefix key key' (d + 1) then some f
      else tableAt link mem root key' d' := by
  induction d' with
  | zero => simp [tableAt]
  | succ k ih =>
    have hprev := ih (Nat.le_of_succ_le hd')
    simp only [tableAt, hprev]
    by_cases hk : k = d + 1 ∧ SamePrefix key key' (d + 1)
    · -- one level below the new table there is nothing yet
      obtain ⟨rfl, hsame⟩ := hk
      have hold : tableAt link mem root key' (d + 1) = none := by
        rw [← tableAt_congr hsame, tableAt_succ ht, hnone]
      simp [hsame, extend, hempty, hold]
    · rw [if_neg hk]
      cases h : tableAt link mem root key' k with
      | none =>
        have hno : ¬ (k + 1 = d + 1 ∧ SamePrefix key key' (d + 1)) := by
          intro hc
          obtain ⟨hkd, hsame⟩ := hc
          obtain rfl := Nat.succ.inj hkd
          rw [← tableAt_congr (hsame.mono (Nat.le_succ k)), ht] at h
          cases h
        rw [if_neg hno]
        rfl
      | some t' =>
        have hne : t' ≠ f := by
          intro heq
          exact hfresh ⟨key', k, Nat.le_of_succ_le hd', heq ▸ h⟩
        simp only [Option.bind_some, extend, clear_of_ne hne]
        by_cases hc : t' = t ∧ key' k = key d
        · obtain ⟨rfl, hlast⟩ := hc
          obtain ⟨hkd, hpre⟩ := hun key key' d k t' (Nat.le_of_lt hd) (Nat.le_of_succ_le hd') ht h
          subst hkd
          have hsame : SamePrefix key key' (d + 1) := samePrefix_succ_iff.mpr ⟨hpre, hlast.symm⟩
          rw [if_pos ⟨rfl, hsame⟩, hlast, write_self, he]
        · have hno : ¬ (k + 1 = d + 1 ∧ SamePrefix key key' (d + 1)) := by
            intro hs
            obtain ⟨hkd, hsame⟩ := hs
            obtain rfl := Nat.succ.inj hkd
            obtain ⟨hpre, hlast⟩ := samePrefix_succ_iff.mp hsame
            rw [← tableAt_congr hpre, ht] at h
            exact hc ⟨(Option.some.inj h).symm, hlast.symm⟩
          rw [if_neg hno, write_of_ne hc]

theorem reached_extend (t' : α) :
    Reached link (extend mem t (key d) e f empty) root n t' ↔
      t' = f ∨ Reached link mem root n t' := by
  constructor
  · intro h
    obtain ⟨key', k, hk, h⟩ := h
    rw [tableAt_extend hun ht hd hnone he hempty hfresh hk] at h
    split_ifs at h with hc
    · exact Or.inl (Option.some.inj h).symm
    · exact Or.inr ⟨key', k, hk, h⟩
  · intro h
    rcases h with rfl | ⟨key', k, hk, h⟩
    · refine ⟨key, d + 1, hd, ?_⟩
      rw [tableAt_extend hun ht hd hnone he hempty hfresh hd,
        if_pos ⟨rfl, SamePrefix.refl key (d + 1)⟩]
    · refine ⟨key', k, hk, ?_⟩
      rw [tableAt_extend hun ht hd hnone he hempty hfresh hk, if_neg, h]
      intro hc
      obtain ⟨rfl, hsame⟩ := hc
      rw [← tableAt_congr hsame, tableAt_succ ht, hnone] at h
      cases h

theorem Unshared.extend : Unshared link (extend mem t (key d) e f empty) root n := by
  intro key₁ key₂ k₁ k₂ t' hk₁ hk₂ h₁ h₂
  rw [tableAt_extend hun ht hd hnone he hempty hfresh hk₁] at h₁
  rw [tableAt_extend hun ht hd hnone he hempty hfresh hk₂] at h₂
  split_ifs at h₁ h₂ with hc₁ hc₂ hc₂
  · obtain ⟨rfl, hs₁⟩ := hc₁
    obtain ⟨rfl, hs₂⟩ := hc₂
    exact ⟨rfl, fun k hk => (hs₁ k hk).symm.trans (hs₂ k hk)⟩
  · exact absurd ⟨key₂, k₂, hk₂, (Option.some.inj h₁) ▸ h₂⟩ hfresh
  · exact absurd ⟨key₁, k₁, hk₁, (Option.some.inj h₂) ▸ h₁⟩ hfresh
  · exact hun key₁ key₂ k₁ k₂ t' hk₁ hk₂ h₁ h₂

/-- Entries of the last level: those of the new table are empty, all others are kept. -/
theorem entryAt_extend :
    entryAt link (RadixTree.extend mem t (key d) e f empty) root n key' =
      if n = d + 1 ∧ SamePrefix key key' (d + 1) then some empty
      else entryAt link mem root n key' := by
  rw [entryAt, tableAt_extend hun ht hd hnone he hempty hfresh (Nat.le_refl n)]
  by_cases hc : n = d + 1 ∧ SamePrefix key key' (d + 1)
  · simp [if_pos hc, RadixTree.extend]
  · rw [if_neg hc, if_neg hc, entryAt]
    cases h : tableAt link mem root key' n with
    | none => rfl
    | some t' =>
      have hne : t' ≠ f := by
        intro heq
        exact hfresh ⟨key', n, Nat.le_refl n, heq ▸ h⟩
      have hnt : t' ≠ t := by
        intro heq
        have := (hun key key' d n t (Nat.le_of_lt hd) (Nat.le_refl n) ht (heq ▸ h)).1
        omega
      simp only [Option.map_some, RadixTree.extend, clear_of_ne hne, write_of_ne fun hs => hnt hs.1]

end Extend

end RadixTree
