import Mathlib.Logic.Basic

/-! Computations that return a value or an error, with the accesses that they make on the way. -/
namespace Tracing

variable {ι ε α β : Type}

structure Traced (ι ε α : Type) where
  result : Except ε α
  accesses : List ι

namespace Traced

def bind (x : Traced ι ε α) (f : α → Traced ι ε β) : Traced ι ε β :=
  match x.result with
  | .error e => ⟨.error e, x.accesses⟩
  | .ok a => ⟨(f a).result, x.accesses ++ (f a).accesses⟩

instance : Monad (Traced ι ε) where
  pure a := ⟨.ok a, []⟩
  bind := Traced.bind

def fail (e : ε) : Traced ι ε α := ⟨.error e, []⟩

/-- An access, and the value that it finds. -/
def access (i : ι) (a : α) : Traced ι ε α := ⟨.ok a, [i]⟩

/-- Every access is of the kind `P`. -/
def Within (P : ι → Prop) (x : Traced ι ε α) : Prop := ∀ i ∈ x.accesses, P i

variable {P : ι → Prop} {i : ι} {a : α} {e : ε} {x : Traced ι ε α} {f : α → Traced ι ε β}

@[simp] theorem result_pure : (pure a : Traced ι ε α).result = .ok a := rfl

@[simp] theorem result_fail : (fail e : Traced ι ε α).result = .error e := rfl

@[simp] theorem result_access_bind : ((access i a : Traced ι ε α) >>= f).result = (f a).result := rfl

/-- A check that is passed. -/
theorem result_ite_fail {c : Prop} [Decidable c] :
    (if c then fail e else x).result = .ok a ↔ ¬ c ∧ x.result = .ok a := by
  by_cases hc : c
  · simp [hc]
  · simp [hc]

@[simp] theorem within_pure : Within P (pure a : Traced ι ε α) := by
  simp [Within, pure]

@[simp] theorem within_fail : Within P (fail e : Traced ι ε α) := by
  simp [Within, fail]

@[simp] theorem within_access_bind :
    Within P ((access i a : Traced ι ε α) >>= f) ↔ P i ∧ Within P (f a) := by
  simp [Within, access, Bind.bind, Traced.bind]

theorem within_ite {c : Prop} [Decidable c] {y : Traced ι ε α} :
    Within P (if c then x else y) ↔ (c → Within P x) ∧ (¬ c → Within P y) := by
  by_cases hc : c
  · simp [hc]
  · simp [hc]

end Traced

end Tracing
