import Mathlib.Data.Set.Finite.Basic
import Mathlib.Data.Fintype.Card

/-! Walks along a partial successor function. Over finitely many states a walk ends exactly if it never
comes back to a state. -/
namespace Walk

variable {σ : Type*} {next : σ → Option σ} {s a b : σ}

/-- The state after a number of steps, unless the walk has ended before. -/
def after (next : σ → Option σ) : ℕ → σ → Option σ
  | 0, s => some s
  | n + 1, s => (next s).bind (after next n)

def Reaches (next : σ → Option σ) (s a : σ) : Prop := ∃ n, after next n s = some a

def Ends (next : σ → Option σ) (s : σ) : Prop := ∃ n, after next n s = none

def NeverRepeats (next : σ → Option σ) (s : σ) : Prop :=
  ∀ i j a, i < j → after next i s = some a → after next j s ≠ some a

theorem after_add (m n : ℕ) (s : σ) :
    after next (m + n) s = (after next m s).bind (after next n) := by
  induction m generalizing s with
  | zero => simp [after]
  | succ m ih =>
    have hsucc : m + 1 + n = m + n + 1 := by omega
    rw [hsucc]
    cases h : next s with
    | none => simp [after, h]
    | some b => simpa [after, h] using ih b

theorem after_none_of_le {m n : ℕ} (h : after next m s = none) (hle : m ≤ n) :
    after next n s = none := by
  obtain ⟨k, rfl⟩ := Nat.exists_eq_add_of_le hle
  rw [after_add, h]
  rfl

theorem Reaches.refl : Reaches next s s := ⟨0, rfl⟩

theorem Reaches.step (h : next s = some b) (hb : Reaches next b a) : Reaches next s a := by
  obtain ⟨n, hn⟩ := hb
  exact ⟨n + 1, by simpa [after, h] using hn⟩

theorem reaches_iff_of_some (h : next s = some b) : Reaches next s a ↔ a = s ∨ Reaches next b a := by
  constructor
  · intro ha
    obtain ⟨n, hn⟩ := ha
    cases n with
    | zero => exact Or.inl (Option.some.inj hn).symm
    | succ n => exact Or.inr ⟨n, by simpa [after, h] using hn⟩
  · intro ha
    rcases ha with rfl | ha
    · exact .refl
    · exact ha.step h

theorem reaches_iff_of_none (h : next s = none) : Reaches next s a ↔ a = s := by
  constructor
  · intro ha
    obtain ⟨n, hn⟩ := ha
    cases n with
    | zero => exact (Option.some.inj hn).symm
    | succ n => simp [after, h] at hn
  · intro ha
    exact ha ▸ .refl

theorem Reaches.eq_or_next (h : Reaches next s a) : a = s ∨ ∃ b, next b = some a := by
  obtain ⟨n, hn⟩ := h
  cases n with
  | zero => exact Or.inl (Option.some.inj hn).symm
  | succ n =>
    rw [after_add] at hn
    obtain ⟨b, -, hb⟩ := Option.bind_eq_some_iff.mp hn
    exact Or.inr ⟨b, by simpa [after] using hb⟩

theorem forall_reaches_iff {p : σ → Prop} :
    (∀ a, Reaches next s a → p a) ↔ p s ∧ ∀ b, next s = some b → ∀ a, Reaches next b a → p a := by
  constructor
  · intro h
    exact ⟨h s .refl, fun b hb a ha => h a (ha.step hb)⟩
  · intro h a ha
    obtain ⟨n, hn⟩ := ha
    cases n with
    | zero => exact Option.some.inj hn ▸ h.1
    | succ n =>
      obtain ⟨b, hb, hrest⟩ := Option.bind_eq_some_iff.mp hn
      exact h.2 b hb a ⟨n, hrest⟩

theorem after_succ_eq_none {n : ℕ} :
    after next (n + 1) s = none ↔ ∀ b, next s = some b → after next n b = none :=
  Option.bind_eq_none_iff

theorem exists_after_succ {p : σ → Prop} {n : ℕ} :
    (∃ i < n + 1, ∃ a, after next i s = some a ∧ p a) ↔
      p s ∨ ∃ b, next s = some b ∧ ∃ i < n, ∃ a, after next i b = some a ∧ p a := by
  constructor
  · intro h
    obtain ⟨i, hi, a, ha, hp⟩ := h
    cases i with
    | zero => exact Or.inl (Option.some.inj ha ▸ hp)
    | succ i =>
      obtain ⟨b, hb, hrest⟩ := Option.bind_eq_some_iff.mp ha
      exact Or.inr ⟨b, hb, i, by omega, a, hrest, hp⟩
  · intro h
    rcases h with hp | ⟨b, hb, i, hi, a, ha, hp⟩
    · exact ⟨0, by omega, s, rfl, hp⟩
    · exact ⟨i + 1, by omega, a, Option.bind_eq_some_iff.mpr ⟨b, hb, ha⟩, hp⟩

/-- A walk has at most one last state. -/
theorem Reaches.unique_last (ha : Reaches next s a) (hb : Reaches next s b) (hna : next a = none)
    (hnb : next b = none) : a = b := by
  obtain ⟨m, hm⟩ := ha
  obtain ⟨n, hn⟩ := hb
  have hstop : ∀ {i j c e}, i < j → after next i s = some c → next c = none →
      after next j s ≠ some e := by
    intro i j c e hij hi hnone hj
    obtain ⟨k, rfl⟩ := Nat.exists_eq_add_of_lt hij
    rw [show i + k + 1 = i + (k + 1) by omega, after_add, hi] at hj
    simp [after, hnone] at hj
  rcases Nat.lt_trichotomy m n with hlt | rfl | hlt
  · exact absurd hn (hstop hlt hm hna)
  · exact Option.some.inj (hm.symm.trans hn)
  · exact absurd hm (hstop hlt hn hnb)

theorem ends_of_none (h : next s = none) : Ends next s := ⟨1, by simp [after, h]⟩

theorem ends_iff_of_some (h : next s = some b) : Ends next s ↔ Ends next b := by
  constructor
  · intro hs
    obtain ⟨n, hn⟩ := hs
    cases n with
    | zero => cases hn
    | succ n => exact ⟨n, by simpa [after, h] using hn⟩
  · intro hb
    obtain ⟨n, hn⟩ := hb
    exact ⟨n + 1, by simpa [after, h] using hn⟩

/-- A state that comes back comes back again and again. -/
theorem after_add_mul {i k : ℕ} (hi : after next i s = some a) (hk : after next (i + k) s = some a)
    (m : ℕ) : after next (i + m * k) s = some a := by
  have hloop : after next k a = some a := by
    rw [after_add, hi] at hk
    exact hk
  induction m with
  | zero => simpa using hi
  | succ m ih =>
    have hsucc : i + (m + 1) * k = i + m * k + k := by
      rw [Nat.succ_mul]
      omega
    rw [hsucc, after_add, ih]
    exact hloop

theorem Ends.neverRepeats (h : Ends next s) : NeverRepeats next s := by
  intro i j a hij hi hj
  obtain ⟨n, hn⟩ := h
  obtain ⟨k, rfl⟩ := Nat.exists_eq_add_of_le hij.le
  have hle : n ≤ i + n * k := (Nat.le_mul_of_pos_right n (by omega)).trans (Nat.le_add_left ..)
  have hnone := after_none_of_le hn hle
  rw [after_add_mul hi hj n] at hnone
  cases hnone

theorem NeverRepeats.ends (h : NeverRepeats next s) (hfin : {a | Reaches next s a}.Finite) :
    Ends next s := by
  by_contra hnot
  have hsome : ∀ n, ∃ a, after next n s = some a := fun n =>
    Option.ne_none_iff_exists'.mp fun hn => hnot ⟨n, hn⟩
  choose f hf using hsome
  have hmem : ∀ n, f n ∈ {a | Reaches next s a} := fun n => ⟨n, hf n⟩
  have hinj : Function.Injective f := by
    intro i j hij
    by_contra hne
    rcases Nat.lt_or_gt_of_ne hne with hlt | hlt
    · exact h i j (f i) hlt (hf i) (hij ▸ hf j)
    · exact h j i (f j) hlt (hf j) (hij ▸ hf i)
  exact Set.infinite_of_injective_forall_mem hinj hmem hfin

theorem Ends.finite_reaches (h : Ends next s) : {a | Reaches next s a}.Finite := by
  obtain ⟨n, hn⟩ := h
  refine ((Set.finite_lt_nat n).image fun i => (after next i s).getD s).subset fun a ha => ?_
  obtain ⟨i, hi⟩ := ha
  refine ⟨i, ?_, congrArg (Option.getD · s) hi⟩
  by_contra hle
  rw [after_none_of_le hn (Nat.not_lt.mp hle)] at hi
  cases hi

theorem ends_iff_neverRepeats (hfin : {a | Reaches next s a}.Finite) :
    Ends next s ↔ NeverRepeats next s :=
  ⟨Ends.neverRepeats, fun h => h.ends hfin⟩

/-- A walk in which a state follows itself does not end. -/
theorem not_neverRepeats_of_loop (h : next s = some s) : ¬NeverRepeats next s :=
  fun hn => hn 0 1 s Nat.zero_lt_one rfl (by simp [after, h])

theorem Ends.exists_last (h : Ends next s) : ∃ a, Reaches next s a ∧ next a = none := by
  obtain ⟨n, hn⟩ := h
  induction n generalizing s with
  | zero => cases hn
  | succ n ih =>
    cases hs : next s with
    | none => exact ⟨s, .refl, hs⟩
    | some b =>
      obtain ⟨a, ha, hlast⟩ := ih (after_succ_eq_none.mp hn b hs)
      exact ⟨a, ha.step hs, hlast⟩

theorem Reaches.ends (h : Reaches next s a) (hlast : next a = none) : Ends next s := by
  obtain ⟨n, hn⟩ := h
  refine ⟨n + 1, ?_⟩
  rw [after_add, hn]
  simp [after, hlast]

section Project

variable {τ : Type*} {next' : τ → Option τ} {f : τ → σ} {e : τ}

theorem after_project (hstep : ∀ c d, next' c = some d → next (f c) = some (f d)) {n : ℕ} {d : τ}
    (h : after next' n e = some d) : after next n (f e) = some (f d) := by
  induction n generalizing e with
  | zero => exact congrArg (fun c => some (f c)) (Option.some.inj h)
  | succ n ih =>
    obtain ⟨c, hc, hrest⟩ := Option.bind_eq_some_iff.mp h
    exact Option.bind_eq_some_iff.mpr ⟨f c, hstep e c hc, ih hrest⟩

/-- A walk whose steps are steps of another one ends with it or before. -/
theorem ends_iff_of_project (hstep : ∀ c d, next' c = some d → next (f c) = some (f d)) :
    Ends next' e ↔ Ends next (f e) ∨ ∃ a, Reaches next' e a ∧ next' a = none ∧ next (f a) ≠ none := by
  constructor
  · intro h
    obtain ⟨a, ha, hlast⟩ := h.exists_last
    by_cases hnone : next (f a) = none
    · obtain ⟨n, hn⟩ := ha
      have hproj : Reaches next (f e) (f a) := ⟨n, after_project hstep hn⟩
      exact .inl (hproj.ends hnone)
    · exact .inr ⟨a, ha, hlast, hnone⟩
  · intro h
    rcases h with hends | ⟨a, ha, hlast, -⟩
    · obtain ⟨n, hn⟩ := hends
      refine ⟨n, Option.eq_none_iff_forall_ne_some.mpr fun d hd => ?_⟩
      rw [after_project hstep hd] at hn
      cases hn
    · exact ha.ends hlast

end Project

/-- The walk that does not leave a state of `p`. -/
def stopAt (p : σ → Prop) [DecidablePred p] (next : σ → Option σ) (s : σ) : Option σ :=
  if p s then none else next s

section StopAt

variable {p : σ → Prop} [DecidablePred p]

theorem after_stopAt {n : ℕ} : after (stopAt p next) n s = some a ↔
    after next n s = some a ∧ ∀ m < n, ∀ b, after next m s = some b → ¬p b := by
  induction n generalizing s with
  | zero => exact ⟨fun h => ⟨h, by omega⟩, fun h => h.1⟩
  | succ n ih =>
    by_cases hp : p s
    · have hnone : after (stopAt p next) (n + 1) s = none := by simp [after, stopAt, hp]
      rw [hnone]
      refine ⟨fun h => (nomatch h), fun h => ?_⟩
      exact absurd hp (h.2 0 (by omega) s rfl)
    cases hs : next s with
    | none => simp [after, stopAt, hp, hs]
    | some b =>
      have hleft : after (stopAt p next) (n + 1) s = after (stopAt p next) n b := by
        simp [after, stopAt, hp, hs]
      have hright : ∀ m, after next (m + 1) s = after next m b := fun m => by simp [after, hs]
      rw [hleft, ih, hright]
      refine and_congr_right fun _ => ?_
      constructor
      · intro h m hm c hc
        cases m with
        | zero => exact Option.some.inj hc ▸ hp
        | succ m => exact h m (by omega) c (hright m ▸ hc)
      · intro h m hm c hc
        exact h (m + 1) (by omega) c ((hright m).trans hc)

theorem Reaches.of_stopAt (h : Reaches (stopAt p next) s a) : Reaches next s a := by
  obtain ⟨n, hn⟩ := h
  exact ⟨n, (after_stopAt.mp hn).1⟩

/-- A walk that comes to a state of `p` comes to a first one. -/
theorem Reaches.exists_first (h : Reaches next s a) (ha : p a) :
    ∃ b, p b ∧ Reaches (stopAt p next) s b := by
  obtain ⟨n, hn⟩ := h
  induction n using Nat.strong_induction_on generalizing a with
  | _ n ih =>
    by_cases hbefore : ∃ m < n, ∃ b, after next m s = some b ∧ p b
    · obtain ⟨m, hm, b, hb, hpb⟩ := hbefore
      exact ih m hm hpb hb
    · refine ⟨a, ha, n, after_stopAt.mpr ⟨hn, fun m hm b hb hpb => ?_⟩⟩
      exact hbefore ⟨m, hm, b, hb, hpb⟩

end StopAt

end Walk
