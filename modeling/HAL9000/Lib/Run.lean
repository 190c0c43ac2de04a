import Mathlib.Algebra.GroupWithZero.Nat
import Mathlib.Data.List.Basic

/-! Finite runs of a labelled transition relation, with the state before each step
kept in the trace. Invariants are proved step by step and transferred to whole runs. -/
namespace Run

variable {σ α : Type*}

-- The sizes of finite types of labels in runs that are evaluated.
@[instance] theorem neZero_one : NeZero (1 : ℕ) := ⟨Nat.succ_ne_zero 0⟩

@[instance] theorem neZero_two : NeZero (2 : ℕ) := ⟨Nat.succ_ne_zero 1⟩

/-- A run from `s₀`: the trace lists every step as the state it left and its label. -/
inductive Exec (step : σ → α → σ → Prop) (s₀ : σ) : List (σ × α) → σ → Prop
  | nil : Exec step s₀ [] s₀
  | snoc {tr : List (σ × α)} {s s' : σ} {a : α} :
      Exec step s₀ tr s → step s a s' → Exec step s₀ (tr ++ [(s, a)]) s'

/-- Every state of the run, the last one included, satisfies `P`. -/
def Always (P : σ → Prop) (tr : List (σ × α)) (s : σ) : Prop :=
  (∀ v ∈ tr, P v.1) ∧ P s

theorem always_nil {P : σ → Prop} {s : σ} : Always P ([] : List (σ × α)) s ↔ P s := by
  simp [Always]

theorem always_snoc {P : σ → Prop} {tr : List (σ × α)} {s s' : σ} {a : α} :
    Always P (tr ++ [(s, a)]) s' ↔ Always P tr s ∧ P s' := by
  simp only [Always, List.mem_append, List.mem_singleton]
  constructor
  · intro hall
    obtain ⟨hv, hs⟩ := hall
    exact ⟨⟨fun v h => hv v (Or.inl h), hv (s, a) (Or.inr rfl)⟩, hs⟩
  · rintro ⟨⟨hv, hp⟩, hs⟩
    refine ⟨fun v h => ?_, hs⟩
    rcases h with h | rfl
    · exact hv v h
    · exact hp

theorem Always.mono {P P' : σ → Prop} {tr : List (σ × α)} {s : σ} (h : Always P tr s)
    (hp : ∀ s, P s → P' s) : Always P' tr s :=
  ⟨fun v hv => hp v.1 (h.1 v hv), hp s h.2⟩

/-- A property of the first state that every step meeting `Q` preserves holds all along
a run whose steps all meet `Q`. -/
theorem Exec.always_of_steps {step : σ → α → σ → Prop} {s₀ s : σ} {tr : List (σ × α)}
    {P : σ → Prop} {Q : σ → α → Prop} (h : Exec step s₀ tr s) (h₀ : P s₀)
    (hstep : ∀ s a s', P s → Q s a → step s a s' → P s') (hq : ∀ v ∈ tr, Q v.1 v.2) :
    Always P tr s := by
  induction h with
  | nil => exact always_nil.mpr h₀
  | @snoc tr s s' a _ hs ih =>
    have ha := ih (fun v hv => hq v (List.mem_append.mpr (Or.inl hv)))
    exact always_snoc.mpr ⟨ha, hstep s a s' ha.2 (hq (s, a) (by simp)) hs⟩

/-- The unconditional invariant rule. -/
theorem Exec.always {step : σ → α → σ → Prop} {s₀ s : σ} {tr : List (σ × α)}
    {P : σ → Prop} (h : Exec step s₀ tr s) (h₀ : P s₀)
    (hstep : ∀ s a s', P s → step s a s' → P s') : Always P tr s := by
  apply h.always_of_steps (Q := fun _ _ => True) h₀
  · intro s a s' hp _ hs
    exact hstep s a s' hp hs
  · intro v _
    trivial

/-- When a step keeps `P` exactly if it meets `Q`, given an invariant `I`, a run stays in `P`
exactly if all its steps meet `Q`. -/
theorem Exec.always_iff {step : σ → α → σ → Prop} {s₀ s : σ} {tr : List (σ × α)}
    {I P : σ → Prop} {Q : σ → α → Prop} (h : Exec step s₀ tr s) (hi₀ : I s₀) (hp₀ : P s₀)
    (hi : ∀ s a s', I s → step s a s' → I s')
    (hp : ∀ s a s', I s → P s → step s a s' → (P s' ↔ Q s a)) :
    Always P tr s ↔ ∀ v ∈ tr, Q v.1 v.2 := by
  have hinv := h.always hi₀ hi
  induction h with
  | nil => simp [always_nil, hp₀]
  | @snoc tr s s' a _ hs ih =>
    obtain ⟨hinv, _⟩ := always_snoc.mp hinv
    have hih : Always P tr s ↔ ∀ v ∈ tr, Q v.1 v.2 := ih hinv
    rw [always_snoc, hih]
    constructor
    · intro hall v hv
      obtain ⟨hq, hps'⟩ := hall
      rcases List.mem_append.mp hv with hv | hv
      · exact hq v hv
      · obtain rfl := List.mem_singleton.mp hv
        exact (hp s a s' hinv.2 (hih.mpr hq).2 hs).mp hps'
    · intro hq
      have hq' : ∀ v ∈ tr, Q v.1 v.2 := fun v hv => hq v (List.mem_append.mpr (Or.inl hv))
      exact ⟨hq', (hp s a s' hinv.2 (hih.mpr hq').2 hs).mpr (hq (s, a) (by simp))⟩

/-- Every entry of the trace is a step that was taken. -/
theorem Exec.step_of_mem {step : σ → α → σ → Prop} {s₀ s : σ} {tr : List (σ × α)}
    (h : Exec step s₀ tr s) {v : σ × α} (hv : v ∈ tr) : ∃ s', step v.1 v.2 s' := by
  induction h with
  | nil => cases hv
  | @snoc tr s s' a _ hs ih =>
    rcases List.mem_append.mp hv with hv | hv
    · exact ih hv
    · obtain rfl := List.mem_singleton.mp hv
      exact ⟨s', hs⟩

/-- A step-by-step simulation of one relation by another relates their runs: every run has one of
the other relation with the same labels. -/
theorem Exec.simulates {τ : Type*} {step : σ → α → σ → Prop} {step' : τ → α → τ → Prop}
    {R : σ → τ → Prop} {s₀ s : σ} {t₀ : τ} {tr : List (σ × α)} (h : Exec step s₀ tr s)
    (h₀ : R s₀ t₀)
    (hsim : ∀ s a s' t, R s t → step s a s' → ∃ t', step' t a t' ∧ R s' t') :
    ∃ tr' t, Exec step' t₀ tr' t ∧ tr'.map Prod.snd = tr.map Prod.snd ∧ R s t := by
  induction h with
  | nil => exact ⟨[], t₀, Exec.nil, rfl, h₀⟩
  | @snoc tr s s' a _ hs ih =>
    obtain ⟨tr', t, hexec, hlabels, hr⟩ := ih
    obtain ⟨t', hs', hr'⟩ := hsim s a s' t hr hs
    exact ⟨tr' ++ [(t, a)], t', hexec.snoc hs', by simp [hlabels], hr'⟩

/-- Executes a list of labels with a partial step function, keeping the trace. -/
def exec (next : σ → α → Option σ) : σ → List α → Option (List (σ × α) × σ)
  | s, [] => some ([], s)
  | s, a :: as =>
    (next s a).bind fun s' => (exec next s' as).map fun r => ((s, a) :: r.1, r.2)

theorem Exec.cons {step : σ → α → σ → Prop} {s₀ s₁ s : σ} {a : α} {tr : List (σ × α)}
    (ha : step s₀ a s₁) (h : Exec step s₁ tr s) : Exec step s₀ ((s₀, a) :: tr) s := by
  induction h with
  | nil =>
    show Exec step s₀ ([] ++ [(s₀, a)]) s₁
    exact Exec.snoc Exec.nil ha
  | snoc _ hs ih => exact Exec.snoc ih hs

/-- An evaluated run is a run. -/
theorem exec_sound {next : σ → α → Option σ} {s s' : σ} {as : List α} {tr : List (σ × α)}
    (h : exec next s as = some (tr, s')) :
    Exec (fun s a t => next s a = some t) s tr s' := by
  induction as generalizing s tr with
  | nil =>
    obtain ⟨rfl, rfl⟩ : [] = tr ∧ s = s' := by simpa [exec] using h
    exact Exec.nil
  | cons a as ih =>
    cases hn : next s a with
    | none => simp [exec, hn] at h
    | some s₁ =>
      cases he : exec next s₁ as with
      | none => simp [exec, hn, he] at h
      | some r =>
        obtain ⟨rfl, rfl⟩ : (s, a) :: r.1 = tr ∧ r.2 = s' := by simpa [exec, hn, he] using h
        exact Exec.cons hn (ih he)

/-- The run of a list of labels whose steps are all enabled. -/
theorem exec_get {next : σ → α → Option σ} {s : σ} {as : List α} (h : (exec next s as).isSome) :
    Exec (fun s a t => next s a = some t) s ((exec next s as).get h).1
      ((exec next s as).get h).2 :=
  exec_sound (Option.some_get h).symm

end Run
