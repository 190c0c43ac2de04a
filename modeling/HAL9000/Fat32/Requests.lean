import HAL9000.Fat32.Searching

/-! The runs of a program on a device whose reads succeed. Its writes and its requests for memory may be
met or not, and the byte after a buffer may be any. -/
namespace HAL9000.Fat32

open Program

variable {α β : Type}

def ReadsMet (o : Outcome) : Prop := ∀ site t, o .read site t = true

/-- Every run returns: some bound on the rounds of its loops is enough. -/
def Returns (x : ℕ → FatM α) (v : Volume) : Prop :=
  ∀ o t, ReadsMet o → ∃ fuel r w, x fuel ⟨v, t, o⟩ = .ok (r, w)

/-- What a run can return, and the volume it can leave. -/
def Can (x : FatM α) (v : Volume) (r : Except FatStatus α) (v' : Volume) : Prop :=
  ∃ o t t', ReadsMet o ∧ x ⟨v, t, o⟩ = .ok (r, ⟨v', t', o⟩)

/-- The program makes some requests, and does the same wherever they have the same outcomes. -/
def Local (x : FatM α) : Prop :=
  ∀ v t o r w, x ⟨v, t, o⟩ = .ok (r, w) → ∃ k, w = ⟨w.volume, t + k, o⟩ ∧
    ∀ t' o', (∀ resource site u, u < k → o' resource site (t' + u) = o resource site (t + u)) →
      x ⟨v, t', o'⟩ = .ok (r, ⟨w.volume, t' + k, o'⟩)

namespace Local

variable {x : FatM α} {f : α → FatM β}

theorem ret (a : α) : Local (pure a : FatM α) := by
  intro v t o r w h
  obtain ⟨rfl, rfl⟩ : Except.ok a = r ∧ (⟨v, t, o⟩ : World) = w := by simpa [Pure.pure] using h
  exact ⟨0, rfl, fun _ _ _ => rfl⟩

theorem fail (status : FatStatus) : Local (Prog.fail status : FatM α) := by
  intro v t o r w h
  obtain ⟨rfl, rfl⟩ : Except.error status = r ∧ (⟨v, t, o⟩ : World) = w := by
    simpa [Prog.fail] using h
  exact ⟨0, rfl, fun _ _ _ => rfl⟩

theorem fault (e : Fault) : Local (Prog.fault e : FatM α) := by
  intro v t o r w h
  simp [Prog.fault] at h

theorem lift (y : Except Fault α) : Local (Prog.lift y : FatM α) := by
  cases y with
  | error e => exact fault e
  | ok a => exact ret a

theorem volume : Local volume := by
  intro v t o r w h
  obtain ⟨rfl, rfl⟩ : Except.ok v = r ∧ (⟨v, t, o⟩ : World) = w := by
    simpa [Fat32.volume, Prog.get, Bind.bind, Prog.bind, Pure.pure] using h
  exact ⟨0, rfl, fun _ _ _ => rfl⟩

theorem setVolume (g : Volume → Volume) : Local (setVolume g) := by
  intro v t o r w h
  obtain ⟨rfl, rfl⟩ : Except.ok () = r ∧ (⟨g v, t, o⟩ : World) = w := by
    simpa [Fat32.setVolume, Prog.modify] using h
  exact ⟨0, rfl, fun _ _ _ => rfl⟩

theorem request (resource : Resource) (site : Site) : Local (request resource site) := by
  intro v t o r w h
  obtain ⟨rfl, rfl⟩ : Except.ok (o resource site t) = r ∧ (⟨v, t + 1, o⟩ : World) = w := by
    simpa [Fat32.request] using h
  refine ⟨1, rfl, fun t' o' ho => ?_⟩
  have hsame : o' resource site t' = o resource site t := ho resource site 0 Nat.zero_lt_one
  simp [Fat32.request, hsame]

theorem bind (hx : Local x) (hf : ∀ a, Local (f a)) : Local (x >>= f) := by
  intro v t o r w h
  rcases Prog.bind_returns h with ⟨e, rfl, hrun⟩ | ⟨a, w₁, hrun, hrest⟩
  · obtain ⟨k, hw, hsame⟩ := hx _ _ _ _ _ hrun
    exact ⟨k, hw, fun t' o' ho => Prog.bind_of_error (hsame t' o' ho)⟩
  · obtain ⟨k, hw, hsame⟩ := hx _ _ _ _ _ hrun
    rw [hw] at hrest
    obtain ⟨k', hw', hsame'⟩ := hf a _ _ _ _ _ hrest
    refine ⟨k + k', by rw [← Nat.add_assoc]; exact hw', fun t' o' ho => ?_⟩
    have hfirst := hsame t' o' fun resource site u hu => ho resource site u (by omega)
    have hsecond := hsame' (t' + k) o' fun resource site u hu => by
      simpa [Nat.add_assoc] using ho resource site (k + u) (by omega)
    rw [Prog.bind_of_ok hfirst, hsecond, Nat.add_assoc]

theorem attempt (hx : Local x) : Local x.attempt := by
  intro v t o r w h
  obtain ⟨res, rfl, hrun⟩ := Prog.attempt_eq_ok.mp h
  obtain ⟨k, hw, hsame⟩ := hx _ _ _ _ _ hrun
  exact ⟨k, hw, fun t' o' ho => Prog.attempt_eq_ok.mpr ⟨res, rfl, hsame t' o' ho⟩⟩

theorem ite {c : Prop} [Decidable c] {y : FatM α} (hx : Local x) (hy : Local y) :
    Local (if c then x else y) := by
  split_ifs
  · exact hx
  · exact hy

theorem exAllocatePool (site : Site) : Local (exAllocatePool site) :=
  .bind (request _ _) fun _ => .ite (fail _) (ret _)

theorem ioDevice (access : Resource) (site : Site) : Local (ioDevice access site) :=
  .bind (request _ _) fun _ => .ite (fail _) (ret _)

theorem answer (r : Except FatStatus α) : Local (answer r) := by
  cases r with
  | ok a => exact ret a
  | error e => exact fail e

end Local

section Requests

variable {access : Resource} {site : Site} {w : World}

theorem total_request : Total (request access site) := fun _ => ⟨_, _, rfl⟩

theorem total_exAllocatePool : Total (exAllocatePool site) :=
  .bind total_request fun _ => .ite (.fail _) (.ret _)

theorem total_ioDevice : Total (ioDevice access site) :=
  .bind total_request fun _ => .ite (.fail _) (.ret _)

theorem total_volume : Total volume := .bind .get fun _ => .ret _

theorem total_setVolume (f : Volume → Volume) : Total (setVolume f) := .modify _

theorem total_answer (r : Except FatStatus α) : Total (answer r) := by
  cases r with
  | ok a => exact .ret a
  | error e => exact .fail e

theorem ioDevice_eq_of_met (h : w.outcome access site w.clock = true) :
    ioDevice access site w = .ok (.ok (), { w with clock := w.clock + 1 }) := by
  simp [ioDevice, request, Bind.bind, Prog.bind, Pure.pure, h]

end Requests

section Bind

variable {x : FatM α} {f : α → FatM β} {v v' v₁ : Volume} {r : Except FatStatus β}

/-- A run may be followed by any other. -/
theorem Local.glue {o o₁ : Outcome} {t t' : ℕ} (t₁ : ℕ) {a : Except FatStatus α} (hx : Local x)
    (hrun : x ⟨v, t, o⟩ = .ok (a, ⟨v₁, t', o⟩)) (ho : ReadsMet o) (ho₁ : ReadsMet o₁) :
    ∃ o₂ k, ReadsMet o₂ ∧ x ⟨v, 0, o₂⟩ = .ok (a, ⟨v₁, k, o₂⟩) ∧
      ∀ resource site u, o₁ resource site (t₁ + u) = o₂ resource site (k + u) := by
  obtain ⟨k, -, hsame⟩ := hx _ _ _ _ _ hrun
  refine ⟨fun resource site u =>
    if u < k then o resource site (t + u) else o₁ resource site (t₁ + (u - k)), k, ?_, ?_, ?_⟩
  · intro site u
    dsimp only
    split_ifs
    · exact ho _ _
    · exact ho₁ _ _
  · have hstart := hsame 0 (fun resource site u =>
      if u < k then o resource site (t + u) else o₁ resource site (t₁ + (u - k)))
      fun resource site u hu => by simp [hu]
    simpa using hstart
  · intro resource site u
    simp

theorem Can.bind (hx : Local x) {a : α} (hf : Local (f a)) (h : Can x v (.ok a) v₁)
    (h' : Can (f a) v₁ r v') : Can (x >>= f) v r v' := by
  obtain ⟨o, t, t', ho, hrun⟩ := h
  obtain ⟨o₁, t₁, t₁', ho₁, hrun₁⟩ := h'
  obtain ⟨o₂, k, ho₂, hfirst, hsame⟩ := hx.glue t₁ hrun ho ho₁
  obtain ⟨k', -, hnext⟩ := hf _ _ _ _ _ hrun₁
  refine ⟨o₂, 0, k + k', ho₂, ?_⟩
  rw [Prog.bind_of_ok hfirst]
  exact hnext k o₂ fun resource site u _ => (hsame resource site u).symm

theorem Can.bind_error {e : FatStatus} (h : Can x v (.error e) v') : Can (x >>= f) v (.error e) v' := by
  obtain ⟨o, t, t', ho, hrun⟩ := h
  exact ⟨o, t, t', ho, Prog.bind_of_error hrun⟩

theorem Can.of_bind (hx : Local x) (h : Can (x >>= f) v r v') :
    (∃ e, r = .error e ∧ Can x v (.error e) v') ∨
      ∃ a v₁, Can x v (.ok a) v₁ ∧ Can (f a) v₁ r v' := by
  obtain ⟨o, t, t', ho, hrun⟩ := h
  rcases Prog.bind_returns hrun with ⟨e, rfl, hfirst⟩ | ⟨a, w₁, hfirst, hrest⟩
  · exact Or.inl ⟨e, rfl, o, t, t', ho, hfirst⟩
  · obtain ⟨k, hw, -⟩ := hx _ _ _ _ _ hfirst
    rw [hw] at hfirst hrest
    exact Or.inr ⟨a, w₁.volume, ⟨o, t, t + k, ho, hfirst⟩, o, t + k, t', ho, hrest⟩

end Bind

/-- A larger bound changes nothing. -/
structure Bounded (x : ℕ → FatM α) : Prop where
  each : ∀ n, Local (x n)
  succ : ∀ n w res, x n w = .ok res → x (n + 1) w = .ok res

namespace Bounded

variable {x : ℕ → FatM α} {f : ℕ → α → FatM β} {v : Volume}

theorem const {y : FatM α} (h : Local y) : Bounded fun _ => y := ⟨fun _ => h, fun _ _ _ => id⟩

theorem le (h : Bounded x) {m n : ℕ} (hle : m ≤ n) {w : World} {res : Except FatStatus α × World}
    (hrun : x m w = .ok res) : x n w = .ok res := by
  induction hle with
  | refl => exact hrun
  | step _ ih => exact h.succ _ _ _ ih

theorem bind (hx : Bounded x) (hf : ∀ a, Bounded fun n => f n a) : Bounded fun n => x n >>= f n := by
  refine ⟨fun n => (hx.each n).bind fun a => (hf a).each n, fun n w res hrun => ?_⟩
  obtain ⟨r, w'⟩ := res
  rcases Prog.bind_returns hrun with ⟨e, rfl, hfirst⟩ | ⟨a, w₁, hfirst, hrest⟩
  · exact Prog.bind_of_error (hx.succ _ _ _ hfirst)
  · exact (Prog.bind_of_ok (hx.succ _ _ _ hfirst)).trans ((hf a).succ _ _ _ hrest)

theorem attempt (hx : Bounded x) : Bounded fun n => (x n).attempt := by
  refine ⟨fun n => (hx.each n).attempt, fun n w res hrun => ?_⟩
  obtain ⟨r, w'⟩ := res
  obtain ⟨a, rfl, hfirst⟩ := Prog.attempt_eq_ok.mp hrun
  exact Prog.attempt_eq_ok.mpr ⟨a, rfl, hx.succ _ _ _ hfirst⟩

theorem ite {c : Prop} [Decidable c] {y : ℕ → FatM α} (hx : Bounded x) (hy : Bounded y) :
    Bounded fun n => if c then x n else y n := by
  split_ifs
  · exact hx
  · exact hy

theorem can_le (h : Bounded x) {m n : ℕ} (hle : m ≤ n) {r : Except FatStatus α} {v' : Volume}
    (hcan : Can (x m) v r v') : Can (x n) v r v' := by
  obtain ⟨o, t, t', ho, hrun⟩ := hcan
  exact ⟨o, t, t', ho, h.le hle hrun⟩

end Bounded

section Returns

variable {x : ℕ → FatM α} {f : ℕ → α → FatM β} {v : Volume}

theorem returns_of_total (h : ∀ n, Total (x n)) : Returns x v := by
  intro o t _
  obtain ⟨r, w, hrun⟩ := h 0 ⟨v, t, o⟩
  exact ⟨0, r, w, hrun⟩

theorem returns_bind_total (hf : ∀ n a, Total (f n a)) :
    Returns (fun n => x n >>= f n) v ↔ Returns x v := by
  constructor
  · intro h o t ho
    obtain ⟨fuel, r, w, hrun⟩ := h o t ho
    rcases Prog.bind_returns hrun with ⟨e, -, hfirst⟩ | ⟨a, w₁, hfirst, -⟩
    · exact ⟨fuel, _, w, hfirst⟩
    · exact ⟨fuel, _, w₁, hfirst⟩
  · intro h o t ho
    obtain ⟨fuel, r, w, hrun⟩ := h o t ho
    cases r with
    | ok a =>
      obtain ⟨r', w', hrest⟩ := hf fuel a w
      exact ⟨fuel, r', w', (Prog.bind_of_ok hrun).trans hrest⟩
    | error e => exact ⟨fuel, _, w, Prog.bind_of_error hrun⟩

/-- A sequence returns if its first program does, and its second after whatever the first can return. -/
theorem returns_bind_iff (hx : Bounded x) (hf : ∀ a, Bounded fun n => f n a) :
    Returns (fun n => x n >>= f n) v ↔
      Returns x v ∧ ∀ n a v', Can (x n) v (.ok a) v' → Returns (fun m => f m a) v' := by
  constructor
  · intro h
    refine ⟨fun o t ho => ?_, fun n a v' hcan o₁ t₁ ho₁ => ?_⟩
    · obtain ⟨fuel, r, w, hrun⟩ := h o t ho
      rcases Prog.bind_returns hrun with ⟨e, -, hfirst⟩ | ⟨a, w₁, hfirst, -⟩
      · exact ⟨fuel, _, w, hfirst⟩
      · exact ⟨fuel, _, w₁, hfirst⟩
    · obtain ⟨o, t, t', ho, hrun⟩ := hcan
      obtain ⟨o₂, k, ho₂, hfirst, hsame⟩ := (hx.each n).glue t₁ hrun ho ho₁
      obtain ⟨fuel, r, w, hboth⟩ := h o₂ 0 ho₂
      have hn := hx.le (le_max_left n fuel) hfirst
      have hmax := (hx.bind hf).le (le_max_right n fuel) hboth
      rw [Prog.bind_of_ok hn] at hmax
      obtain ⟨k', -, hnext⟩ := (hf a).each _ _ _ _ _ _ hmax
      exact ⟨max n fuel, r, _, hnext t₁ o₁ fun resource site u _ => hsame resource site u⟩
  · intro h o t ho
    obtain ⟨fuel, r, w, hrun⟩ := h.1 o t ho
    cases r with
    | error e => exact ⟨fuel, _, w, Prog.bind_of_error hrun⟩
    | ok a =>
      obtain ⟨k, hw, -⟩ := hx.each _ _ _ _ _ _ hrun
      rw [hw] at hrun
      obtain ⟨fuel', r', w', hrest⟩ :=
        h.2 fuel a w.volume ⟨o, t, t + k, ho, hrun⟩ o (t + k) ho
      refine ⟨max fuel fuel', r', w', ?_⟩
      exact (Prog.bind_of_ok (hx.le (le_max_left ..) hrun)).trans
        ((hf a).le (le_max_right ..) hrest)

end Returns

end HAL9000.Fat32
