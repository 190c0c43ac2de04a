import Mathlib.Logic.Basic
import Mathlib.Tactic.SplitIfs

/-! Programs that read and change a state, may return an error, and may fault. A triple says what
holds of the state a program leaves, with a value or with an error; it says nothing of a program
that faults. -/
namespace Program

variable {σ ε φ α β : Type}

/-- A program returns a value or an error with the state it leaves, or it faults. -/
def Prog (σ ε φ α : Type) := σ → Except φ (Except ε α × σ)

namespace Prog

def bind (x : Prog σ ε φ α) (f : α → Prog σ ε φ β) : Prog σ ε φ β := fun s =>
  match x s with
  | .error e => .error e
  | .ok (.error e, s') => .ok (.error e, s')
  | .ok (.ok a, s') => f a s'

instance : Monad (Prog σ ε φ) where
  pure a := fun s => .ok (.ok a, s)
  bind := Prog.bind

theorem pure_bind (a : α) (f : α → Prog σ ε φ β) : (Pure.pure a : Prog σ ε φ α) >>= f = f a := rfl

def fail (e : ε) : Prog σ ε φ α := fun s => .ok (.error e, s)

def fault (e : φ) : Prog σ ε φ α := fun _ => .error e

def get : Prog σ ε φ σ := fun s => .ok (.ok s, s)

def modify (f : σ → σ) : Prog σ ε φ Unit := fun s => .ok (.ok (), f s)

/-- Runs a computation that has no state and returns no error. -/
def lift (x : Except φ α) : Prog σ ε φ α := fun s =>
  match x with
  | .error e => .error e
  | .ok a => .ok (.ok a, s)

/-- Runs a program and returns its error as a value. -/
def attempt (x : Prog σ ε φ α) : Prog σ ε φ (Except ε α) := fun s =>
  match x s with
  | .error e => .error e
  | .ok (r, s') => .ok (.ok r, s')

variable {x : Prog σ ε φ α} {f : α → Prog σ ε φ β} {s s' : σ}

theorem bind_of_ok {a : α} (h : x s = .ok (.ok a, s')) : (x >>= f) s = f a s' := by
  change Prog.bind x f s = _
  unfold Prog.bind
  rw [h]

theorem bind_of_error {e : ε} (h : x s = .ok (.error e, s')) :
    (x >>= f) s = .ok (.error e, s') := by
  change Prog.bind x f s = _
  unfold Prog.bind
  rw [h]

/-- What a sequence of two programs that returns has done. -/
theorem bind_returns {r : Except ε β} (h : (x >>= f) s = .ok (r, s')) :
    (∃ e, r = .error e ∧ x s = .ok (.error e, s')) ∨
      ∃ a s₁, x s = .ok (.ok a, s₁) ∧ f a s₁ = .ok (r, s') := by
  change Prog.bind x f s = _ at h
  unfold Prog.bind at h
  cases hx : x s with
  | error e => simp [hx] at h
  | ok res =>
    obtain ⟨res, s₁⟩ := res
    cases res with
    | error e =>
      obtain ⟨rfl, rfl⟩ : Except.error e = r ∧ s₁ = s' := by simpa [hx] using h
      exact Or.inl ⟨e, rfl, rfl⟩
    | ok a => exact Or.inr ⟨a, s₁, rfl, by simpa [hx] using h⟩

/-- Where a sequence of two programs faults. -/
theorem bind_faults {e : φ} (h : (x >>= f) s = .error e) :
    x s = .error e ∨ ∃ a s₁, x s = .ok (.ok a, s₁) ∧ f a s₁ = .error e := by
  change Prog.bind x f s = _ at h
  unfold Prog.bind at h
  cases hx : x s with
  | error e' => exact Or.inl (by simpa [hx] using h)
  | ok res =>
    obtain ⟨res, s₁⟩ := res
    cases res with
    | error e' => simp [hx] at h
    | ok a => exact Or.inr ⟨a, s₁, rfl, by simpa [hx] using h⟩

theorem bind_assoc {γ : Type} (x : Prog σ ε φ α) (f : α → Prog σ ε φ β) (g : β → Prog σ ε φ γ) :
    x >>= f >>= g = x >>= fun a => f a >>= g := by
  funext s
  change Prog.bind (Prog.bind x f) g s = Prog.bind x _ s
  cases hx : x s with
  | error e => simp only [Prog.bind, hx]
  | ok r =>
    obtain ⟨r, s'⟩ := r
    cases r with
    | error e => simp only [Prog.bind, hx]
    | ok a =>
      simp only [Prog.bind, hx]
      rfl

theorem lift_ok_bind (a : α) : (Prog.lift (.ok a) : Prog σ ε φ α) >>= f = f a := rfl

theorem lift_error_bind (e : φ) : (Prog.lift (.error e) : Prog σ ε φ α) >>= f = Prog.fault e := rfl

theorem attempt_eq_ok {r : Except ε (Except ε α)} :
    x.attempt s = .ok (r, s') ↔ ∃ a, r = .ok a ∧ x s = .ok (a, s') := by
  unfold Prog.attempt
  cases x s with
  | error e => simp
  | ok res =>
    obtain ⟨a, s₁⟩ := res
    simp only [Except.ok.injEq, Prod.mk.injEq]
    constructor
    · intro h
      exact ⟨a, h.1.symm, rfl, h.2⟩
    · intro h
      obtain ⟨b, rfl, rfl, rfl⟩ := h
      exact ⟨rfl, rfl⟩

end Prog

open Prog

/-- The program never faults. -/
def Total (x : Prog σ ε φ α) : Prop := ∀ s, ∃ r s', x s = .ok (r, s')

namespace Total

variable {x : Prog σ ε φ α} {f : α → Prog σ ε φ β}

theorem ret (a : α) : Total (pure a : Prog σ ε φ α) := fun s => ⟨_, s, rfl⟩

theorem fail (e : ε) : Total (Prog.fail e : Prog σ ε φ α) := fun s => ⟨_, s, rfl⟩

theorem get : Total (Prog.get : Prog σ ε φ σ) := fun s => ⟨_, s, rfl⟩

theorem modify (f : σ → σ) : Total (Prog.modify f : Prog σ ε φ Unit) := fun s => ⟨_, f s, rfl⟩

theorem bind (hx : Total x) (hf : ∀ a, Total (f a)) : Total (x >>= f) := by
  intro s
  obtain ⟨r, s₁, hr⟩ := hx s
  cases r with
  | ok a =>
    obtain ⟨r', s', hr'⟩ := hf a s₁
    exact ⟨r', s', (bind_of_ok hr).trans hr'⟩
  | error e => exact ⟨_, s₁, bind_of_error hr⟩

theorem ite {c : Prop} [Decidable c] {y : Prog σ ε φ α} (hx : Total x) (hy : Total y) :
    Total (if c then x else y) := by
  split_ifs
  · exact hx
  · exact hy

end Total

/-- From a state in `P`, the program leaves a state in `Q` with its value, or one in `E` with its
error. -/
def Triple (P : σ → Prop) (x : Prog σ ε φ α) (Q : α → σ → Prop) (E : σ → Prop) : Prop :=
  ∀ s r s', P s → x s = .ok (r, s') → match r with
    | .ok a => Q a s'
    | .error _ => E s'

namespace Triple

variable {P P' : σ → Prop} {Q Q' : α → σ → Prop} {R : β → σ → Prop} {E E' : σ → Prop}
  {x : Prog σ ε φ α} {f : α → Prog σ ε φ β}

theorem conseq (h : Triple P x Q E) (hp : ∀ s, P' s → P s) (hq : ∀ a s, Q a s → Q' a s)
    (he : ∀ s, E s → E' s) : Triple P' x Q' E' := by
  intro s r s' hs hrun
  have hres := h s r s' (hp s hs) hrun
  cases r with
  | ok a => exact hq a s' hres
  | error e => exact he s' hres

theorem pre (h : Triple P x Q E) (hp : ∀ s, P' s → P s) : Triple P' x Q E :=
  h.conseq hp (fun _ _ => id) (fun _ => id)

/-- Nothing is asked of the program. -/
theorem any (x : Prog σ ε φ α) : Triple (fun _ => True) x (fun _ _ => True) fun _ => True := by
  intro _ r _ _ _
  cases r <;> trivial

theorem ret {a : α} (h : ∀ s, P s → Q a s) : Triple P (pure a : Prog σ ε φ α) Q E := by
  intro s r s' hs hrun
  obtain ⟨rfl, rfl⟩ : Except.ok a = r ∧ s = s' := by
    simpa [Pure.pure] using hrun
  exact h s hs

theorem bind (hx : Triple P x Q E) (hf : ∀ a, Triple (Q a) (f a) R E) :
    Triple P (x >>= f) R E := by
  intro s r s' hs hrun
  change Prog.bind x f s = .ok (r, s') at hrun
  unfold Prog.bind at hrun
  cases hr : x s with
  | error e => simp [hr] at hrun
  | ok res =>
    obtain ⟨res, s₁⟩ := res
    have hres := hx s res s₁ hs hr
    cases res with
    | error e =>
      obtain ⟨rfl, rfl⟩ : Except.error e = r ∧ s₁ = s' := by simpa [hr] using hrun
      exact hres
    | ok a =>
      simp only [hr] at hrun
      exact hf a s₁ r s' hres hrun

theorem fail {e : ε} (h : ∀ s, P s → E s) : Triple P (Prog.fail e : Prog σ ε φ α) Q E := by
  intro s r s' hs hrun
  obtain ⟨rfl, rfl⟩ : Except.error e = r ∧ s = s' := by simpa [Prog.fail] using hrun
  exact h s hs

theorem fault {e : φ} : Triple P (Prog.fault e : Prog σ ε φ α) Q E := by
  intro s r s' _ hrun
  simp [Prog.fault] at hrun

theorem modify {g : σ → σ} {Q : Unit → σ → Prop} (h : ∀ s, P s → Q () (g s)) :
    Triple P (Prog.modify g : Prog σ ε φ Unit) Q E := by
  intro s r s' hs hrun
  obtain ⟨rfl, rfl⟩ : Except.ok () = r ∧ g s = s' := by simpa [Prog.modify] using hrun
  exact h s hs

theorem get {Q : σ → σ → Prop} (h : ∀ s, P s → Q s s) :
    Triple P (Prog.get : Prog σ ε φ σ) Q E := by
  intro s r s' hs hrun
  obtain ⟨rfl, rfl⟩ : Except.ok s = r ∧ s = s' := by simpa [Prog.get] using hrun
  exact h s hs

theorem lift {y : Except φ α} (h : ∀ a s, y = .ok a → P s → Q a s) :
    Triple P (Prog.lift y : Prog σ ε φ α) Q E := by
  intro s r s' hs hrun
  cases y with
  | error e => simp [Prog.lift] at hrun
  | ok a =>
    obtain ⟨rfl, rfl⟩ : Except.ok a = r ∧ s = s' := by simpa [Prog.lift] using hrun
    exact h a s rfl hs

theorem attempt {Q : Except ε α → σ → Prop}
    (h : Triple P x (fun a => Q (.ok a)) fun s => ∀ e, Q (.error e) s) :
    Triple P x.attempt Q E := by
  intro s r s' hs hrun
  obtain ⟨res, rfl, hr⟩ := Prog.attempt_eq_ok.mp hrun
  have hres := h s res s' hs hr
  cases res with
  | ok a => exact hres
  | error e => exact hres e

theorem ite {c : Prop} [Decidable c] {y : Prog σ ε φ α} (hx : c → Triple P x Q E)
    (hy : ¬c → Triple P y Q E) : Triple P (if c then x else y) Q E := by
  split_ifs with h
  · exact hx h
  · exact hy h

/-- What does not depend on the state may be assumed. -/
theorem assume {p : Prop} (h : p → Triple P x Q E) : Triple (fun s => p ∧ P s) x Q E :=
  fun s r s' hs hrun => h hs.1 s r s' hs.2 hrun

theorem exists_pre {γ : Type} {P : γ → σ → Prop} (h : ∀ c, Triple (P c) x Q E) :
    Triple (fun s => ∃ c, P c s) x Q E :=
  fun s r s' hs hrun => hs.elim fun c hc => h c s r s' hc hrun

end Triple

/-- The program does not change what `g` reads of the state. -/
def Preserves {γ : Type} (g : σ → γ) (x : Prog σ ε φ α) : Prop :=
  ∀ s r s', x s = .ok (r, s') → g s' = g s

namespace Preserves

variable {γ : Type} {g : σ → γ} {x : Prog σ ε φ α} {f : α → Prog σ ε φ β}

theorem ret (a : α) : Preserves g (pure a : Prog σ ε φ α) := by
  intro s r s' hrun
  obtain ⟨-, rfl⟩ : Except.ok a = r ∧ s = s' := by simpa [Pure.pure] using hrun
  rfl

theorem fail (e : ε) : Preserves g (Prog.fail e : Prog σ ε φ α) := by
  intro s r s' hrun
  obtain ⟨-, rfl⟩ : Except.error e = r ∧ s = s' := by simpa [Prog.fail] using hrun
  rfl

theorem fault (e : φ) : Preserves g (Prog.fault e : Prog σ ε φ α) := by
  intro s r s' hrun
  simp [Prog.fault] at hrun

theorem get : Preserves g (Prog.get : Prog σ ε φ σ) := by
  intro s r s' hrun
  obtain ⟨-, rfl⟩ : Except.ok s = r ∧ s = s' := by simpa [Prog.get] using hrun
  rfl

theorem modify {h : σ → σ} (hg : ∀ s, g (h s) = g s) :
    Preserves g (Prog.modify h : Prog σ ε φ Unit) := by
  intro s r s' hrun
  obtain ⟨-, rfl⟩ : Except.ok () = r ∧ h s = s' := by simpa [Prog.modify] using hrun
  exact hg s

theorem bind (hx : Preserves g x) (hf : ∀ a, Preserves g (f a)) : Preserves g (x >>= f) := by
  intro s r s' hrun
  change Prog.bind x f s = .ok (r, s') at hrun
  unfold Prog.bind at hrun
  cases hr : x s with
  | error e => simp [hr] at hrun
  | ok res =>
    obtain ⟨res, s₁⟩ := res
    cases res with
    | error e =>
      obtain ⟨-, rfl⟩ : Except.error e = r ∧ s₁ = s' := by simpa [hr] using hrun
      exact hx s _ _ hr
    | ok a =>
      simp only [hr] at hrun
      exact (hf a s₁ r s' hrun).trans (hx s _ _ hr)

theorem ite {c : Prop} [Decidable c] {y : Prog σ ε φ α} (hx : Preserves g x)
    (hy : Preserves g y) : Preserves g (if c then x else y) := by
  split_ifs
  · exact hx
  · exact hy

theorem lift (y : Except φ α) : Preserves g (Prog.lift y : Prog σ ε φ α) := by
  intro s r s' hrun
  cases y with
  | error e => simp [Prog.lift] at hrun
  | ok a =>
    obtain ⟨-, rfl⟩ : Except.ok a = r ∧ s = s' := by simpa [Prog.lift] using hrun
    rfl

theorem attempt (hx : Preserves g x) : Preserves g x.attempt := by
  intro s r s' hrun
  obtain ⟨a, -, hr⟩ := Prog.attempt_eq_ok.mp hrun
  exact hx s a s' hr

theorem keeps {c : γ} (hk : Preserves g x) :
    Triple (fun s => g s = c) x (fun _ s => g s = c) (fun s => g s = c) := by
  intro s r s' hs hrun
  have hs' : g s' = c := (hk s r s' hrun).trans hs
  cases r with
  | ok a => exact hs'
  | error e => exact hs'

/-- What is preserved may be carried along a triple. -/
theorem triple {P : σ → Prop} {Q : α → σ → Prop} {E : σ → Prop} {c : γ} (hk : Preserves g x)
    (h : Triple P x Q E) : Triple (fun s => g s = c ∧ P s) x (fun a s => g s = c ∧ Q a s) E := by
  intro s r s' hs hrun
  have hres := h s r s' hs.2 hrun
  cases r with
  | ok a => exact ⟨(hk s _ s' hrun).trans hs.1, hres⟩
  | error e => exact hres

end Preserves

/-- Where the first program returns, the second one does the same and returns the result mapped. -/
def Maps {γ : Type} (g : α → γ) (x : Prog σ ε φ α) (y : Prog σ ε φ γ) : Prop :=
  ∀ s r s', x s = .ok (r, s') → y s = .ok (r.map g, s')

namespace Maps

variable {γ δ : Type} {g : α → γ} {x x' : Prog σ ε φ α} {y y' : Prog σ ε φ γ} {z : Prog σ ε φ β}

theorem fault (e : φ) : Maps g (Prog.fault e : Prog σ ε φ α) y := fun _ _ _ h => nomatch h

theorem bind {h : β → δ} {z' : Prog σ ε φ δ} {f : β → Prog σ ε φ α} {f' : δ → Prog σ ε φ γ}
    (hz : Maps h z z') (hf : ∀ b, Maps g (f b) (f' (h b))) : Maps g (z >>= f) (z' >>= f') := by
  intro s r s' hrun
  rcases Prog.bind_returns hrun with ⟨e, rfl, he⟩ | ⟨b, s₁, hb, hrest⟩
  · exact Prog.bind_of_error (hz _ _ _ he)
  · rw [Prog.bind_of_ok (hz _ _ _ hb)]
    exact hf b _ _ _ hrest

/-- Both programs begin in the same way. -/
theorem bind_same {f : β → Prog σ ε φ α} {f' : β → Prog σ ε φ γ} (hf : ∀ b, Maps g (f b) (f' b)) :
    Maps g (z >>= f) (z >>= f') := by
  refine bind (h := id) (fun s r s' hrun => ?_) hf
  rw [hrun]
  cases r <;> rfl

theorem ite {c : Prop} [Decidable c] (hx : Maps g x y) (hx' : Maps g x' y') :
    Maps g (if c then x else x') (if c then y else y') := by
  split_ifs
  · exact hx
  · exact hx'

theorem lift {a : Except φ α} {b : Except φ γ} (h : ∀ v, a = .ok v → b = .ok (g v)) :
    Maps g (Prog.lift a : Prog σ ε φ α) (Prog.lift b) := by
  intro s r s' hrun
  cases a with
  | error e => cases hrun
  | ok v =>
    rw [h v rfl]
    obtain ⟨rfl, rfl⟩ : Except.ok v = r ∧ s = s' := by simpa [Prog.lift] using hrun
    rfl

end Maps

end Program
