import HAL9000.CommonLib.RefCount
import HAL9000.Lib.Run
import HAL9000.Lib.Threads

/-! The life of a process of `process.c`: created together with its main thread, joined and left
by further threads, and referenced by the handle that `ProcessCreate` returns. A critical section
of `ThreadListLock` is one step, and so is every other change of the reference count. -/
namespace HAL9000.Process

open Run Threads

/-- Where the caller of `ProcessCreate` stands, from `UmApplicationRun` to the closed handle. -/
inductive CreatorPc
  | createThread
  | closeThreadHandle
  | reference
  | opened
  | closed
  | dereference
  | failed
  deriving DecidableEq, Repr

/-- A thread of the process. A thread whose creation failed late stays in the list for good. -/
inductive MemberPc
  | absent
  | running
  | leaked
  | exited
  | dropInitial
  | gone
  deriving DecidableEq, Repr

/-- The process and its `n + 1` threads, the first of which is the main thread; `destroys` counts
the calls of `_ProcessDestroy`. -/
structure ProcessState (n : ℕ) where
  refCnt : DWORD
  numberOfThreads : DWORD
  activeThreads : DWORD
  destroys : ℕ
  creator : CreatorPc
  thread : Fin (n + 1) → MemberPc

/-- How `ThreadCreateEx` ends: with a thread, or with an error before or after it has linked the
thread into the process. -/
inductive CreateOutcome
  | created
  | failedEarly
  | failedLate
  deriving DecidableEq, Repr

inductive ProcessAction (n : ℕ)
  | creator (outcome : CreateOutcome)
  | closeHandle
  | create (t u : Fin (n + 1)) (outcome : CreateOutcome)
  | exit (t : Fin (n + 1))
  | destroy (t : Fin (n + 1))
  | dropInitial (t : Fin (n + 1))
  deriving DecidableEq, Repr

variable {n : ℕ}

/-- `_ProcessDereference`, with `_ProcessDestroy` when the count gets to 0. -/
def processDereference (s : ProcessState n) : Option (ProcessState n) :=
  match rfcDereference s.refCnt with
  | .error _ => none
  | .ok newRefCount =>
    if newRefCount = 0 then
      if s.numberOfThreads = 0 then
        some { s with refCnt := newRefCount, destroys := s.destroys + 1 }
      else none
    else some { s with refCnt := newRefCount }

def processReference (s : ProcessState n) : Option (ProcessState n) :=
  match rfcReference s.refCnt with
  | .error _ => none
  | .ok newRefCount => some { s with refCnt := newRefCount }

def processInsertThreadInList (s : ProcessState n) (u : Fin (n + 1)) (p : MemberPc) :
    Option (ProcessState n) :=
  if s.numberOfThreads < maxDword ∧ s.activeThreads + 1 ≤ s.numberOfThreads + 1 then
    processReference { s with
      numberOfThreads := s.numberOfThreads + 1
      activeThreads := s.activeThreads + 1
      thread := Function.update s.thread u p }
  else none

/-- `ProcessRemoveThreadFromList` up to the release of `ThreadListLock`. -/
def processRemoveThreadFromList (s : ProcessState n) (t : Fin (n + 1)) : Option (ProcessState n) :=
  let remainingThreads := s.numberOfThreads - 1
  if remainingThreads ≠ maxDword then
    processDereference { s with
      numberOfThreads := remainingThreads
      thread := Function.update s.thread t (if remainingThreads = 0 then .dropInitial else .gone) }
  else none

/-- One step of `ProcessCreate`. -/
def processCreateStep (s : ProcessState n) (outcome : CreateOutcome) : Option (ProcessState n) :=
  match s.creator with
  | .createThread =>
    match outcome with
    | .created => processInsertThreadInList { s with creator := .closeThreadHandle } 0 .running
    | .failedEarly => some { s with creator := .dereference }
    | .failedLate => processInsertThreadInList { s with creator := .dereference } 0 .leaked
  | .closeThreadHandle => some { s with creator := .reference }
  | .reference => processReference { s with creator := .opened }
  | .dereference => processDereference { s with creator := .failed }
  | .opened | .closed | .failed => none

/-- The main thread's handle is closed by `UmApplicationRun`; only then it can be destroyed. -/
def CreatorPc.closedThreadHandle : CreatorPc → Bool
  | .createThread | .closeThreadHandle => false
  | _ => true

def nextProcess (s : ProcessState n) : ProcessAction n → Option (ProcessState n)
  | .creator outcome => processCreateStep s outcome
  | .closeHandle =>
    if s.creator = .opened then processDereference { s with creator := .closed } else none
  | .create t u outcome =>
    if s.thread t = .running ∧ s.thread u = .absent then
      match outcome with
      | .failedEarly => some s
      | .created => processInsertThreadInList s u .running
      | .failedLate => processInsertThreadInList s u .leaked
    else none
  | .exit t =>
    if s.thread t = .running then
      some { s with activeThreads := s.activeThreads - 1,
                    thread := Function.update s.thread t .exited }
    else none
  | .destroy t =>
    if s.thread t = .exited ∧ (t = 0 → s.creator.closedThreadHandle = true) then
      processRemoveThreadFromList s t
    else none
  | .dropInitial t =>
    if s.thread t = .dropInitial then
      processDereference { s with thread := Function.update s.thread t .gone }
    else none

/-- `_ProcessInit` leaves one reference and no thread. -/
def processStart (n : ℕ) : ProcessState n := ⟨rfcInit, 0, 0, 0, .createThread, fun _ => .absent⟩

/-- The process lives at least as long as its handle, and is destroyed once, without threads. -/
structure ProcessSafe (s : ProcessState n) : Prop where
  handle : s.creator = .opened → s.destroys = 0
  once : s.destroys ≤ 1
  only : 0 < s.destroys → s.numberOfThreads = 0 ∧ (s.creator = .closed ∨ s.creator = .failed)
  destroyed : s.creator = .closed → (∀ t, s.thread t = .absent ∨ s.thread t = .gone) →
    s.destroys = 1

/-- The last thread is only removed after `ProcessCreate` has taken the handle's reference. -/
def ReferencedFirst (s : ProcessState n) : ProcessAction n → Prop
  | .destroy _ => s.numberOfThreads = 1 → s.creator ≠ .closeThreadHandle ∧ s.creator ≠ .reference
  | _ => True

instance (s : ProcessState n) : DecidablePred (ReferencedFirst s)
  | .destroy _ => inferInstanceAs (Decidable (_ → _))
  | .creator _ | .closeHandle | .create .. | .exit _ | .dropInitial _ =>
    inferInstanceAs (Decidable True)

def MemberPc.counted : MemberPc → Bool
  | .running | .leaked | .exited => true
  | _ => false

def MemberPc.active : MemberPc → Bool
  | .running | .leaked => true
  | _ => false

def MemberPc.drops : MemberPc → Bool
  | .dropInitial => true
  | _ => false

/-- The reference of `_ProcessInit`: it goes with the last thread, or with a failed creation. -/
def ProcessState.initial (s : ProcessState n) : ℕ :=
  match s.creator with
  | .createThread | .dereference => 1
  | .failed => 0
  | _ => if population MemberPc.counted s.thread = 0 then population MemberPc.drops s.thread else 1

def CreatorPc.holds : CreatorPc → Bool
  | .opened => true
  | _ => false

/-- The creation has not succeeded, or not yet. -/
def CreatorPc.unsuccessful : CreatorPc → Bool
  | .createThread | .dereference | .failed => true
  | _ => false

/-- Who holds a reference, and whether the process is alive. -/
structure ProcessInv (s : ProcessState n) : Prop where
  threads : s.numberOfThreads.toNat = population MemberPc.counted s.thread
  active : s.activeThreads.toNat = population MemberPc.active s.thread
  references : s.refCnt.toNat =
    population MemberPc.counted s.thread + s.initial + s.creator.holds.toNat
  destroyed : s.destroys = if s.refCnt.toNat = 0 then 1 else 0
  dropping : population MemberPc.drops s.thread ≤ 1 ∧
    (0 < population MemberPc.counted s.thread → population MemberPc.drops s.thread = 0)
  created : s.creator = .closeThreadHandle ∨ s.creator = .reference →
    0 < population MemberPc.counted s.thread
  unsuccessful : s.creator.unsuccessful = true → ∀ t, s.thread t = .absent ∨ s.thread t = .leaked
  uncreated : s.creator = .createThread → ∀ t, s.thread t = .absent

theorem processStart_inv : ProcessInv (processStart n) := by
  have hnone : ∀ q : MemberPc → Bool, q .absent = false →
      population q (processStart n).thread = 0 := by
    intro q hq
    exact population_eq_zero.mpr fun _ => hq
  have hc := hnone MemberPc.counted rfl
  have ha := hnone MemberPc.active rfl
  have hd := hnone MemberPc.drops rfl
  refine ⟨hc.symm, ha.symm, ?_, rfl, ⟨by omega, fun _ => hd⟩, nofun, fun _ _ => Or.inl rfl,
    fun _ _ => rfl⟩
  rw [hc]
  rfl

section Steps

variable {s s' : ProcessState n}

theorem processDereference_eq_some (h : processDereference s = some s') :
    ∃ c : DWORD, c.toNat + 1 = s.refCnt.toNat ∧
      s' = { s with refCnt := c, destroys := s.destroys + if c.toNat = 0 then 1 else 0 } := by
  simp only [processDereference] at h
  cases hc : rfcDereference s.refCnt with
  | error e => simp [hc] at h
  | ok c =>
    simp only [hc] at h
    refine ⟨c, rfcDereference_toNat hc, ?_⟩
    split_ifs at h with hzero
    · cases h
      rw [if_pos (by rw [hzero]; rfl)]
    · cases h
      have hne : c.toNat ≠ 0 := fun h0 => hzero (BitVec.eq_of_toNat_eq h0)
      rw [if_neg hne]
      rfl

theorem processReference_eq_some (h : processReference s = some s') :
    ∃ c : DWORD, c.toNat = s.refCnt.toNat + 1 ∧ s' = { s with refCnt := c } := by
  simp only [processReference] at h
  cases hc : rfcReference s.refCnt with
  | error e => simp [hc] at h
  | ok c =>
    simp only [hc] at h
    cases h
    exact ⟨c, rfcReference_toNat hc, rfl⟩

/-- A thread joins: both counters and the reference count go up by one. -/
theorem processInsertThreadInList_eq_some {u : Fin (n + 1)} {p : MemberPc}
    (h : processInsertThreadInList s u p = some s') :
    ∃ c m k : DWORD, c.toNat = s.refCnt.toNat + 1 ∧ m.toNat = s.numberOfThreads.toNat + 1 ∧
      (s.activeThreads.toNat ≤ s.numberOfThreads.toNat → k.toNat = s.activeThreads.toNat + 1) ∧
      s' = { s with refCnt := c, numberOfThreads := m, activeThreads := k,
                    thread := Function.update s.thread u p } := by
  simp only [processInsertThreadInList] at h
  split_ifs at h with hlt
  obtain ⟨c, hc, rfl⟩ := processReference_eq_some h
  have hmax : s.numberOfThreads.toNat < 2 ^ 32 - 1 := hlt.1
  refine ⟨c, _, _, hc, toNat_add_one (by omega), fun hle => toNat_add_one (by omega), rfl⟩

theorem initial_of_successful (h : s.creator.unsuccessful = false) :
    s.initial = if population MemberPc.counted s.thread = 0 then population MemberPc.drops s.thread
      else 1 := by
  unfold ProcessState.initial
  cases hc : s.creator <;> rw [hc] at h <;> first | rfl | cases h

/-- Threads that run, have exited or leave only exist in a process that was created. -/
theorem ProcessInv.successful (hi : ProcessInv s) {t : Fin (n + 1)} (h₁ : s.thread t ≠ .absent)
    (h₂ : s.thread t ≠ .leaked) : s.creator.unsuccessful = false := by
  cases hu : s.creator.unsuccessful with
  | false => rfl
  | true =>
    rcases hi.unsuccessful hu t with ht | ht
    · exact absurd ht h₁
    · exact absurd ht h₂

/-- The counts after a thread went on. -/
theorem population_members {t : Fin (n + 1)} {p : MemberPc} (ht : s.thread t = p) (p' : MemberPc) :
    population MemberPc.counted (Function.update s.thread t p') + p.counted.toNat =
        population MemberPc.counted s.thread + p'.counted.toNat ∧
      population MemberPc.active (Function.update s.thread t p') + p.active.toNat =
        population MemberPc.active s.thread + p'.active.toNat ∧
      population MemberPc.drops (Function.update s.thread t p') + p.drops.toNat =
        population MemberPc.drops s.thread + p'.drops.toNat := by
  subst ht
  exact ⟨population_update .., population_update .., population_update ..⟩

/-- The counts after a new thread was linked. -/
theorem population_insert {u : Fin (n + 1)} {p : MemberPc} (hu : s.thread u = .absent)
    (hp : p = .running ∨ p = .leaked) :
    population MemberPc.counted (Function.update s.thread u p) =
        population MemberPc.counted s.thread + 1 ∧
      population MemberPc.active (Function.update s.thread u p) =
        population MemberPc.active s.thread + 1 ∧
      population MemberPc.drops (Function.update s.thread u p) =
        population MemberPc.drops s.thread := by
  rcases hp with rfl | rfl <;> exact population_members hu _

theorem population_active_le : population MemberPc.active s.thread ≤
    population MemberPc.counted s.thread := by
  apply population_mono
  intro p hp
  cases p <;> first | rfl | cases hp

/-- The invariant of a process that was created. -/
theorem ProcessInv.of_successful (hs : s.creator.unsuccessful = false)
    (hth : s.numberOfThreads.toNat = population MemberPc.counted s.thread)
    (hact : s.activeThreads.toNat = population MemberPc.active s.thread)
    (href : s.refCnt.toNat = population MemberPc.counted s.thread +
      (if population MemberPc.counted s.thread = 0 then population MemberPc.drops s.thread else 1) +
        s.creator.holds.toNat)
    (hdes : s.destroys = if s.refCnt.toNat = 0 then 1 else 0)
    (hdrop : population MemberPc.drops s.thread ≤ 1 ∧
      (0 < population MemberPc.counted s.thread → population MemberPc.drops s.thread = 0))
    (hcr : s.creator = .closeThreadHandle ∨ s.creator = .reference →
      0 < population MemberPc.counted s.thread) : ProcessInv s where
  threads := hth
  active := hact
  references := by rw [initial_of_successful hs, href]
  destroyed := hdes
  dropping := hdrop
  created := hcr
  unsuccessful := by
    intro hun
    rw [hs] at hun
    cases hun
  uncreated := by
    intro hc
    rw [hc] at hs
    cases hs

/-- A running thread creates another one. -/
theorem ProcessInv.insert (hi : ProcessInv s) {t u : Fin (n + 1)} {p : MemberPc}
    (ht : s.thread t = .running) (hu : s.thread u = .absent) (hp : p = .running ∨ p = .leaked)
    (h : processInsertThreadInList s u p = some s') : ProcessInv s' := by
  obtain ⟨c, m, k, hc, hm, hk, rfl⟩ := processInsertThreadInList_eq_some h
  obtain ⟨h₁, h₂, h₃⟩ := population_insert hu hp
  have hsucc := hi.successful (t := t) (by rw [ht]; nofun) (by rw [ht]; nofun)
  have hpos : 0 < population MemberPc.counted s.thread := population_pos (t := t) (by rw [ht]; rfl)
  have hle := population_active_le (s := s)
  have hth := hi.threads
  have hact := hi.active
  have href := hi.references
  have hdes := hi.destroyed
  have hdrop := hi.dropping.2 hpos
  have hk := hk (by omega)
  rw [initial_of_successful hsucc, if_neg (by omega)] at href
  rw [if_neg (by lia)] at hdes
  apply ProcessInv.of_successful <;> simp only [h₁, h₂, h₃, hdes, hdrop]
  · exact hsucc
  · omega
  · lia
  · rw [if_neg (by omega)]
    omega
  · rw [if_neg (by omega)]
  · simp
  · exact fun _ => Nat.succ_pos _

/-- `ProcessCreate` links the main thread. -/
theorem ProcessInv.insert_main (hi : ProcessInv s) (hpc : s.creator = .createThread)
    {q : CreatorPc} {p : MemberPc}
    (hq : q = .closeThreadHandle ∧ p = .running ∨ q = .dereference ∧ p = .leaked)
    (h : processInsertThreadInList { s with creator := q } 0 p = some s') : ProcessInv s' := by
  obtain ⟨c, m, k, hc, hm, hk, rfl⟩ := processInsertThreadInList_eq_some h
  have habs := hi.uncreated hpc
  have hp : p = .running ∨ p = .leaked := by
    rcases hq with ⟨-, hp⟩ | ⟨-, hp⟩
    · exact Or.inl hp
    · exact Or.inr hp
  obtain ⟨h₁, h₂, h₃⟩ := population_insert (habs 0) hp
  have hnone : ∀ q : MemberPc → Bool, q .absent = false → population q s.thread = 0 := by
    intro q hq
    apply population_eq_zero.mpr
    intro t
    rw [habs t, hq]
  have hz₁ := hnone MemberPc.counted rfl
  have hz₂ := hnone MemberPc.active rfl
  have hz₃ := hnone MemberPc.drops rfl
  have hth := hi.threads
  have hact := hi.active
  have href := hi.references
  have hdes := hi.destroyed
  have hk := hk (by simp only; lia)
  simp only at hc hm hk
  have hinit : s.initial = 1 := by simp only [ProcessState.initial, hpc]
  have hholds : s.creator.holds = false := by rw [hpc]; rfl
  rw [hinit, hholds, hz₁, Bool.toNat_false] at href
  rw [if_neg (by omega)] at hdes
  rcases hq with ⟨rfl, rfl⟩ | ⟨rfl, rfl⟩
  · apply ProcessInv.of_successful <;> simp only [h₁, h₂, h₃, hdes, CreatorPc.holds]
    · rfl
    · omega
    · lia
    · rw [if_neg (by omega), Bool.toNat_false]
      omega
    · rw [if_neg (by omega)]
    · omega
    · omega
  · refine ⟨?_, ?_, ?_, ?_, ?_, ?_, ?_, nofun⟩ <;>
      simp only [h₁, h₂, h₃, hdes, CreatorPc.holds, ProcessState.initial, Bool.toNat_false]
    · omega
    · omega
    · omega
    · rw [if_neg (by omega)]
    · omega
    · omega
    · intro _ t
      by_cases ht : t = 0
      · subst ht
        exact Or.inr (Function.update_self ..)
      · rw [Function.update_of_ne ht]
        exact Or.inl (habs t)

/-- `ProcessCreate` goes on without a change to the process. -/
theorem ProcessInv.creator_move (hi : ProcessInv s) {q : CreatorPc}
    (hu : q.unsuccessful = s.creator.unsuccessful)
    (hinit : ({ s with creator := q } : ProcessState n).initial = s.initial)
    (hh : q.holds = s.creator.holds)
    (hc : q = .closeThreadHandle ∨ q = .reference → s.creator = .closeThreadHandle)
    (hn : q ≠ .createThread) : ProcessInv { s with creator := q } := by
  refine ⟨hi.threads, hi.active, ?_, hi.destroyed, hi.dropping, fun h => hi.created (Or.inl (hc h)),
    fun h => hi.unsuccessful (hu ▸ h), fun h => absurd h hn⟩
  rw [hinit]
  simpa only [hh] using hi.references

/-- `ProcessCreate` takes the reference of the handle while a thread is left. -/
theorem ProcessInv.reference (hi : ProcessInv s) (hpc : s.creator = .reference)
    (h : processReference { s with creator := .opened } = some s') : ProcessInv s' := by
  obtain ⟨c, hc, rfl⟩ := processReference_eq_some h
  have hpos := hi.created (Or.inr hpc)
  have href := hi.references
  have hdes := hi.destroyed
  rw [initial_of_successful (by rw [hpc]; rfl), if_neg (by omega), hpc] at href
  simp only [CreatorPc.holds, Bool.toNat_false] at href hc
  rw [if_neg (by omega)] at hdes
  apply ProcessInv.of_successful <;> simp only [CreatorPc.holds, Bool.toNat_true, hdes]
  · rfl
  · exact hi.threads
  · exact hi.active
  · rw [if_neg (by omega)]
    omega
  · rw [if_neg (by omega)]
  · exact hi.dropping
  · exact fun _ => hpos

/-- A creation that failed drops the initial reference. -/
theorem ProcessInv.dereference (hi : ProcessInv s) (hpc : s.creator = .dereference)
    (h : processDereference { s with creator := .failed } = some s') : ProcessInv s' := by
  obtain ⟨c, hc, rfl⟩ := processDereference_eq_some h
  have href := hi.references
  have hdes := hi.destroyed
  have hinit : s.initial = 1 := by simp only [ProcessState.initial, hpc]
  rw [hinit, hpc] at href
  simp only [CreatorPc.holds, Bool.toNat_false] at href hc
  rw [if_neg (by lia)] at hdes
  refine ⟨hi.threads, hi.active, ?_, ?_, hi.dropping, nofun,
    fun _ => hi.unsuccessful (by rw [hpc]; rfl), nofun⟩ <;>
    simp only [ProcessState.initial, CreatorPc.holds, Bool.toNat_false, hdes]
  · omega
  · omega

/-- The handle is closed. -/
theorem ProcessInv.close (hi : ProcessInv s) (hpc : s.creator = .opened)
    (h : processDereference { s with creator := .closed } = some s') : ProcessInv s' := by
  obtain ⟨c, hc, rfl⟩ := processDereference_eq_some h
  have href := hi.references
  have hdes := hi.destroyed
  rw [initial_of_successful (by rw [hpc]; rfl), hpc] at href
  simp only [CreatorPc.holds, Bool.toNat_true] at href hc
  rw [if_neg (by omega)] at hdes
  apply ProcessInv.of_successful <;> simp only [CreatorPc.holds, Bool.toNat_false, hdes]
  · rfl
  · exact hi.threads
  · exact hi.active
  · omega
  · omega
  · exact hi.dropping
  · nofun

theorem processCreateStep_inv (hi : ProcessInv s) {outcome : CreateOutcome}
    (h : processCreateStep s outcome = some s') : ProcessInv s' := by
  cases hpc : s.creator with
  | createThread =>
    simp only [processCreateStep, hpc] at h
    cases outcome with
    | created => exact hi.insert_main hpc (Or.inl ⟨rfl, rfl⟩) h
    | failedEarly =>
      cases h
      apply hi.creator_move <;> simp [hpc, ProcessState.initial, CreatorPc.unsuccessful,
        CreatorPc.holds]
    | failedLate => exact hi.insert_main hpc (Or.inr ⟨rfl, rfl⟩) h
  | closeThreadHandle =>
    simp only [processCreateStep, hpc] at h
    cases h
    apply hi.creator_move <;> simp [hpc, ProcessState.initial, CreatorPc.unsuccessful,
      CreatorPc.holds]
  | reference =>
    simp only [processCreateStep, hpc] at h
    exact hi.reference hpc h
  | dereference =>
    simp only [processCreateStep, hpc] at h
    exact hi.dereference hpc h
  | opened | closed | failed => simp [processCreateStep, hpc] at h

/-- A thread exits and stays in the list. -/
theorem ProcessInv.exit (hi : ProcessInv s) {t : Fin (n + 1)} (ht : s.thread t = .running) :
    ProcessInv { s with activeThreads := s.activeThreads - 1,
                        thread := Function.update s.thread t .exited } := by
  have hsucc := hi.successful (t := t) (by rw [ht]; nofun) (by rw [ht]; nofun)
  obtain ⟨h₁, h₂, h₃⟩ := population_members ht .exited
  have hpos : 0 < population MemberPc.active s.thread := population_pos (t := t) (by rw [ht]; rfl)
  simp only [MemberPc.counted, MemberPc.active, MemberPc.drops, Bool.toNat_true, Bool.toNat_false,
    Nat.add_right_cancel_iff] at h₁ h₂ h₃
  have hact := hi.active
  have hsub := toNat_sub_one (x := s.activeThreads) (by omega)
  have href := hi.references
  rw [initial_of_successful hsucc] at href
  apply ProcessInv.of_successful <;> simp only [h₁, h₃]
  · exact hsucc
  · exact hi.threads
  · lia
  · exact href
  · exact hi.destroyed
  · exact hi.dropping
  · exact hi.created

/-- A thread leaves the list; the last one goes on to drop the initial reference. -/
theorem ProcessInv.remove (hi : ProcessInv s) {t : Fin (n + 1)} (ht : s.thread t = .exited)
    (hq : s.numberOfThreads = 1 → s.creator ≠ .closeThreadHandle ∧ s.creator ≠ .reference)
    (h : processRemoveThreadFromList s t = some s') : ProcessInv s' := by
  have hsucc := hi.successful (t := t) (by rw [ht]; nofun) (by rw [ht]; nofun)
  have hpos : 0 < population MemberPc.counted s.thread := population_pos (t := t) (by rw [ht]; rfl)
  have hth := hi.threads
  have hsub := toNat_sub_one (x := s.numberOfThreads) (by omega)
  have hzero : s.numberOfThreads - 1 = 0 ↔ (s.numberOfThreads - 1).toNat = 0 :=
    ⟨fun h => by rw [h]; rfl, fun h => BitVec.eq_of_toNat_eq h⟩
  have hlast : (s.numberOfThreads - 1).toNat = 0 → s.numberOfThreads = 1 := by
    intro h0
    apply BitVec.eq_of_toNat_eq
    show _ = 1
    omega
  have href := hi.references
  have hdes := hi.destroyed
  have hdrop := hi.dropping.2 hpos
  rw [initial_of_successful hsucc, if_neg (by lia)] at href
  rw [if_neg (by omega)] at hdes
  simp only [processRemoveThreadFromList] at h
  split_ifs at h with hmax hrem
  · obtain ⟨c, hc, rfl⟩ := processDereference_eq_some h
    obtain ⟨h₁, h₂, h₃⟩ := population_members ht .dropInitial
    simp only [MemberPc.counted, MemberPc.active, MemberPc.drops, Bool.toNat_true, Bool.toNat_false,
      Nat.add_zero] at h₁ h₂ h₃
    have h0 := hzero.mp hrem
    have hone := hq (hlast h0)
    apply ProcessInv.of_successful <;> simp only [h₂, h₃, hdrop, hdes] at hc ⊢
    · exact hsucc
    · lia
    · exact hi.active
    · rw [if_pos (by lia)]
      lia
    · omega
    · lia
    · intro hcr
      rcases hcr with hcr | hcr
      · exact absurd hcr hone.1
      · exact absurd hcr hone.2
  · obtain ⟨c, hc, rfl⟩ := processDereference_eq_some h
    obtain ⟨h₁, h₂, h₃⟩ := population_members ht .gone
    simp only [MemberPc.counted, MemberPc.active, MemberPc.drops, Bool.toNat_true, Bool.toNat_false,
      Nat.add_zero] at h₁ h₂ h₃
    have h0 : (s.numberOfThreads - 1).toNat ≠ 0 := fun h0 => hrem (hzero.mpr h0)
    apply ProcessInv.of_successful <;> simp only [h₂, h₃, hdrop, hdes] at hc ⊢
    · exact hsucc
    · lia
    · exact hi.active
    · rw [if_neg (by lia)]
      lia
    · omega
    · simp
    · intro _
      lia

/-- The last thread drops the initial reference. -/
theorem ProcessInv.drop (hi : ProcessInv s) {t : Fin (n + 1)} (ht : s.thread t = .dropInitial)
    (h : processDereference { s with thread := Function.update s.thread t .gone } = some s') :
    ProcessInv s' := by
  have hsucc := hi.successful (t := t) (by rw [ht]; nofun) (by rw [ht]; nofun)
  have hpos : 0 < population MemberPc.drops s.thread := population_pos (t := t) (by rw [ht]; rfl)
  obtain ⟨hle, hnone⟩ := hi.dropping
  have hz : population MemberPc.counted s.thread = 0 := by
    by_contra hne
    have := hnone (by omega)
    omega
  have hth := hi.threads
  have href := hi.references
  have hdes := hi.destroyed
  rw [initial_of_successful hsucc, if_pos hz] at href
  rw [if_neg (by lia)] at hdes
  obtain ⟨c, hc, rfl⟩ := processDereference_eq_some h
  obtain ⟨h₁, h₂, h₃⟩ := population_members ht .gone
  simp only [MemberPc.counted, MemberPc.active, MemberPc.drops, Bool.toNat_true, Bool.toNat_false,
    Nat.add_zero] at h₁ h₂ h₃
  apply ProcessInv.of_successful <;> simp only [h₁, h₂, hdes] at hc ⊢
  · exact hsucc
  · exact hth
  · exact hi.active
  · rw [if_pos hz]
    lia
  · omega
  · lia
  · exact hi.created

theorem nextProcess_inv {a : ProcessAction n} (hi : ProcessInv s) (hq : ReferencedFirst s a)
    (h : nextProcess s a = some s') : ProcessInv s' := by
  cases a with
  | creator outcome => exact processCreateStep_inv hi h
  | closeHandle =>
    simp only [nextProcess] at h
    split_ifs at h with hpc
    exact hi.close hpc h
  | create t u outcome =>
    simp only [nextProcess] at h
    split_ifs at h with htu
    cases outcome with
    | created => exact hi.insert htu.1 htu.2 (Or.inl rfl) h
    | failedEarly =>
      cases h
      exact hi
    | failedLate => exact hi.insert htu.1 htu.2 (Or.inr rfl) h
  | exit t =>
    simp only [nextProcess] at h
    split_ifs at h with ht
    cases h
    exact hi.exit ht
  | destroy t =>
    simp only [nextProcess] at h
    split_ifs at h with ht
    exact hi.remove ht.1 hq h
  | dropInitial t =>
    simp only [nextProcess] at h
    split_ifs at h with ht
    exact hi.drop ht h

theorem ProcessInv.safe (hi : ProcessInv s) : ProcessSafe s := by
  have hth := hi.threads
  have href := hi.references
  have hdes := hi.destroyed
  refine ⟨?_, ?_, ?_, ?_⟩
  · intro hpc
    rw [hpc] at href
    simp only [CreatorPc.holds, Bool.toNat_true] at href
    rw [hdes, if_neg (by omega)]
  · split_ifs at hdes <;> omega
  · intro hpos
    have hz : s.refCnt.toNat = 0 := by
      by_contra hne
      rw [if_neg hne] at hdes
      omega
    refine ⟨BitVec.eq_of_toNat_eq (by rw [hth]; show _ = 0; lia), ?_⟩
    have hinit : s.initial = 0 := by omega
    have hcr := hi.created
    cases hpc : s.creator with
    | closed => exact Or.inl rfl
    | failed => exact Or.inr rfl
    | opened =>
      rw [hpc] at href
      simp only [CreatorPc.holds, Bool.toNat_true] at href
      omega
    | createThread | dereference =>
      simp only [ProcessState.initial, hpc] at hinit
      omega
    | closeThreadHandle | reference =>
      rw [hpc] at hcr
      have := hcr (by simp)
      lia
  · intro hpc hall
    have hnone : ∀ q : MemberPc → Bool, q .absent = false → q .gone = false →
        population q s.thread = 0 := by
      intro q hq₁ hq₂
      apply population_eq_zero.mpr
      intro t
      rcases hall t with ht | ht <;> rw [ht] <;> assumption
    have hz₁ := hnone MemberPc.counted rfl rfl
    have hz₂ := hnone MemberPc.drops rfl rfl
    rw [initial_of_successful (by rw [hpc]; rfl), if_pos hz₁, hz₁, hz₂, hpc] at href
    rw [hdes, if_pos (by rw [href]; rfl)]

end Steps

/-- A run in which the handle's reference is taken before the last thread leaves keeps the
process alive until the handle is closed, and destroys it once. -/
theorem always_processSafe {tr : List (ProcessState n × ProcessAction n)} {s : ProcessState n}
    (h : Exec (fun s a s' => nextProcess s a = some s') (processStart n) tr s)
    (hq : ∀ v ∈ tr, ReferencedFirst v.1 v.2) : Always ProcessSafe tr s := by
  have hinv := h.always_of_steps processStart_inv
    (fun s a s' hi hq hs => nextProcess_inv hi hq hs) hq
  exact hinv.mono fun s hi => hi.safe

/-- The main thread creates a second one; both leave after `ProcessCreate` has returned, and the
handle is closed last. -/
def twoThreads : List (ProcessAction 1) :=
  [.creator .created, .create 0 1 .created, .creator .created, .exit 0, .creator .created,
    .destroy 0, .exit 1, .destroy 1, .dropInitial 1, .closeHandle]

theorem twoThreads_safe :
    ∃ h : (exec nextProcess (processStart 1) twoThreads).isSome,
      ((exec nextProcess (processStart 1) twoThreads).get h).2.destroys = 1 ∧
      Always ProcessSafe ((exec nextProcess (processStart 1) twoThreads).get h).1
        ((exec nextProcess (processStart 1) twoThreads).get h).2 :=
  ⟨by decide, by decide, always_processSafe (exec_get (by decide)) (by decide)⟩

/-- The main thread exits and is destroyed before `ProcessCreate` takes its reference. -/
def earlyExit : List (ProcessAction 0) :=
  [.creator .created, .exit 0, .creator .created, .destroy 0, .dropInitial 0, .creator .created]

private theorem earlyExit_runs : (exec nextProcess (processStart 0) earlyExit).isSome := by
  decide

theorem process_destroyed_early : ∃ tr s,
    Exec (fun s a s' => nextProcess s a = some s') (processStart 0) tr s ∧
      s.creator = .opened ∧ s.destroys = 1 ∧ ¬ ProcessSafe s := by
  refine ⟨_, _, exec_get earlyExit_runs, by decide, by decide, fun hs => ?_⟩
  exact absurd (hs.handle (by decide)) (by decide)

end HAL9000.Process
