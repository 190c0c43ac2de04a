import HAL9000.Thread.Lifetime

/-! Threads that wait, are being created or are being woken up, and threads that exit. Threads are
not terminated by others here. -/
namespace HAL9000.Thread

namespace CpuPc

/-- The thread that `ThreadUnblock` has not linked into the ready list yet. -/
def wakes : CpuPc → Option Tid
  | .unblockTake u _ | .unblockAssert u _ | .unblockLock u _ | .unblockInsert u _ => some u
  | _ => none

/-- The current thread is dying. -/
def leaving : CpuPc → Bool
  | .exiting | .scheduleLock .exit | .schedule .exit => true
  | .unblockTake _ inExit | .unblockAssert _ inExit | .unblockLock _ inExit
  | .unblockInsert _ inExit | .unblockUnlock _ inExit | .unblockRelease _ inExit => inExit
  | _ => false

/-- The CPU is inside `ThreadExit`. -/
def exits : CpuPc → Bool
  | .exitRelease | .exitDying => true
  | p => p.leaving

theorem unblocks_of_wakes {p : CpuPc} {u : Tid} (h : p.wakes = some u) : p.unblocks = some u := by
  cases p <;> simp_all [wakes, unblocks]

end CpuPc

/-- The thread waits, is being created, or is being woken up. -/
def Suspended (s : SchedState) (t : Tid) : Prop :=
  s.waiting t = true ∨ s.creating t ≠ none ∨ ∃ c, (s.pc c).wakes = some t

/-- Only a thread that is about to block, is being replaced by another one or is being unblocked
has its block lock taken; a dying thread is current until its CPU switches away from it. -/
structure Quiet (s : SchedState) : Prop where
  flags : ∀ t, s.flags t = 0
  absent : ∀ t, s.allThreads t = false → s.state t ≠ .dying
  listed : ∀ t, Suspended s t → t ∉ s.readyThreadsList
  alive : ∀ t, Suspended s t → s.state t ≠ .dying
  current : ∀ c t, Suspended s t → s.currentThread c = some t → (s.pc c).ownsBlock = true
  waits_once : ∀ t c, s.waiting t = true → (s.pc c).wakes ≠ some t
  wakes_once : ∀ t c c', (s.pc c).wakes = some t → (s.pc c').wakes = some t → c = c'
  idle : ∀ c t, s.idleThread c = some t → s.state t ≠ .dying
  exits : ∀ c t, (s.pc c).exits = true → s.currentThread c = some t → s.idleThread c ≠ some t
  leaving : ∀ c t, s.currentThread c = some t → s.state t = .dying → (s.pc c).leaving = true
  blocks : ∀ c t, s.currentThread c = some t → (s.pc c).blocking = true → s.state t = .blocked
  owner : ∀ c t, s.blockLock t = some c →
    s.currentThread c = some t ∧ (s.pc c).ownsBlock = true ∨
      s.Awaits c t ∧ (s.state t = .blocked ∧ Settled s.toPlacement t ∨ s.idleThread c = some t) ∨
        (s.pc c).holdsBlock = some t

theorem quiet_schedStart : Quiet schedStart := by
  constructor <;> simp [schedStart, Suspended, CpuPc.wakes, CpuPc.exits, CpuPc.leaving]

section Steps

variable {s s' : SchedState} {c : Cpu} {t u : Tid} {inExit : Bool}

attribute [local grind] CpuPc.wakes CpuPc.leaving CpuPc.exits CpuPc.ownsBlock CpuPc.cleans
  CpuPc.holdsBlock CpuPc.scheduling CpuPc.asserted CpuPc.unblocks CpuPc.blocking

/-- A step of `c` that only moves it, taking or releasing `ReadyThreadsLock`. -/
private theorem Quiet.goto (hq : Quiet s) {q : CpuPc} {lock : Option Cpu}
    (hw : ∀ u, q.wakes = some u → (s.pc c).wakes = some u)
    (hl : (s.pc c).leaving = true → q.leaving = true)
    (he : q.exits = true → (s.pc c).exits = true)
    (ho : (s.pc c).ownsBlock = true → q.ownsBlock = true)
    (hb : q.blocking = true → (s.pc c).blocking = true)
    (hc : (s.pc c).cleans = true → q.cleans = true)
    (hh : ∀ u, (s.pc c).holdsBlock = some u → q.holdsBlock = some u) :
    Quiet ({ s with readyThreadsLock := lock }.goto c q) := by
  cases hq
  constructor <;>
    simp only [SchedState.goto, SchedState.Awaits, Suspended, Settled,
      Function.update_apply] at * <;> grind

/-- The invariant where the places before and after a move are known. -/
private theorem Quiet.move (hq : Quiet s) {p q : CpuPc} {lock : Option Cpu} (hpc : s.pc c = p)
    (hw : q.wakes = p.wakes ∨ q.wakes = none) (hl : p.leaving = true → q.leaving = true)
    (he : q.exits = true → p.exits = true) (ho : q.ownsBlock = p.ownsBlock)
    (hb : q.blocking = p.blocking) (hc : q.cleans = p.cleans) (hh : q.holdsBlock = p.holdsBlock) :
    Quiet ({ s with readyThreadsLock := lock }.goto c q) := by
  subst hpc
  apply hq.goto
  · intro u hu
    rcases hw with hw | hw
    · exact hw ▸ hu
    · rw [hw] at hu
      cases hu
  · exact hl
  · exact he
  · exact fun h => ho ▸ h
  · exact fun h => hb ▸ h
  · exact fun h => hc ▸ h
  · exact fun u h => hh ▸ h

private theorem quiet_yieldInsert (h : SchedInv s) (hq : Quiet s)
    (hcur : s.currentThread c = some t) (hpc : s.pc c = .yieldInsert)
    (hs : cpuStep s c t (s.pc c) = some s') : Quiet s' := by
  rw [hpc] at hs
  simp only [cpuStep] at hs
  cases hs
  have hone := h.placed.one_cpu
  have hidle := h.placed.idle_current
  have hblocked := (h.cpus c).blocked t hcur
  have hall := h.placed.current c t hcur
  cases hq
  split_ifs with hi
  · constructor <;>
    simp only [SchedState.goto, SchedState.setState, SchedState.Awaits, Suspended, Settled,
      Function.update_apply] at * <;> grind
  · constructor <;>
    simp only [SchedState.goto, SchedState.setState, SchedState.insertReady, SchedState.Awaits,
      Suspended, Settled, Function.update_apply] at * <;> grind

private theorem quiet_blockTest (hq : Quiet s) (hcur : s.currentThread c = some t)
    (hpc : s.pc c = .blockTest) (hs : cpuStep s c t (s.pc c) = some s') : Quiet s' := by
  rw [hpc] at hs
  simp only [cpuStep, hq.flags] at hs
  rw [if_neg (show ¬ (0 : DWORD) = threadFlagForceTerminatePending by decide)] at hs
  split_ifs at hs
  cases hs
  cases hq
  constructor <;>
    simp only [SchedState.goto, SchedState.setState, SchedState.Awaits, Suspended, Settled,
      Function.update_apply] at * <;> grind

private theorem quiet_exitDying (h : SchedInv s) (hq : Quiet s)
    (hcur : s.currentThread c = some t) (hpc : s.pc c = .exitDying)
    (hs : cpuStep s c t (s.pc c) = some s') : Quiet s' := by
  rw [hpc] at hs
  simp only [cpuStep] at hs
  cases hs
  have hone := h.placed.one_cpu
  have hidle := h.placed.idle_current
  have hblocked := (h.cpus c).blocked t hcur
  have hall := h.placed.current c t hcur
  cases hq
  constructor <;>
    simp only [SchedState.goto, SchedState.setState, SchedState.Awaits, Suspended, Settled,
      Function.update_apply] at * <;> grind

private theorem quiet_exitRelease (hq : Quiet s) (hpc : s.pc c = .exitRelease)
    (hs : cpuStep s c t (s.pc c) = some s') : Quiet s' := by
  rw [hpc] at hs
  simp only [cpuStep] at hs
  cases hs
  cases hq
  split_ifs with howner <;>
    constructor <;>
    simp only [SchedState.goto, SchedState.setBlockLock, SchedState.Awaits, Suspended, Settled,
      Function.update_apply] at * <;> grind

private theorem quiet_unblockTake (hq : Quiet s) (hpc : s.pc c = .unblockTake u inExit)
    (hs : cpuStep s c t (s.pc c) = some s') : Quiet s' := by
  rw [hpc] at hs
  simp only [cpuStep] at hs
  split_ifs at hs
  cases hs
  cases hq
  constructor <;>
    simp only [SchedState.goto, SchedState.setBlockLock, SchedState.Awaits, Suspended, Settled,
      Function.update_apply] at * <;> grind

private theorem quiet_unblockInsert (h : SchedInv s) (hq : Quiet s)
    (hpc : s.pc c = .unblockInsert u inExit) (hs : cpuStep s c t (s.pc c) = some s') :
    Quiet s' := by
  rw [hpc] at hs
  simp only [cpuStep] at hs
  cases hs
  have hset := (h.cpus c).unblocks u (by rw [hpc]; rfl)
  have hnew := hset.2.1
  have hheld := (h.cpus c).holds u (by rw [hpc]; rfl)
  have hout : ∀ c', s.currentThread c' ≠ some u := fun c' =>
    h.asserted_not_current (c := c) (by rw [hpc]; rfl)
  cases hq
  constructor <;>
    simp only [SchedState.goto, SchedState.setState, SchedState.insertReady, SchedState.Awaits,
      Suspended, Settled, Function.update_apply] at * <;> grind

private theorem quiet_unblockRelease (hq : Quiet s) (hpc : s.pc c = .unblockRelease u inExit)
    (hs : cpuStep s c t (s.pc c) = some s') : Quiet s' := by
  rw [hpc] at hs
  simp only [cpuStep] at hs
  cases hs
  cases hq
  constructor <;>
    simp only [SchedState.goto, SchedState.setBlockLock, SchedState.Awaits, Suspended, Settled,
      Function.update_apply] at * <;> grind

/-- A block lock may be released. -/
private theorem Quiet.release (hq : Quiet s) (t : Tid) : Quiet (s.setBlockLock t none) where
  flags := hq.flags
  absent := hq.absent
  listed := hq.listed
  alive := hq.alive
  current := hq.current
  waits_once := hq.waits_once
  wakes_once := hq.wakes_once
  idle := hq.idle
  exits := hq.exits
  leaving := hq.leaving
  blocks := hq.blocks
  owner := by
    intro c u hu
    simp only [SchedState.setBlockLock, Function.update_apply] at hu
    split_ifs at hu
    exact hq.owner c u hu

/-- A CPU is done with the previous thread once it owns no block lock. -/
private theorem Quiet.cleaned (hq : Quiet s) (hpc : s.pc c = .cleanupPrevious)
    (hnone : ∀ u, s.blockLock u ≠ some c) (previous : Option Tid) :
    Quiet ({ s with previousThread := Function.update s.previousThread c previous }.goto c
      .run) := by
  cases hq
  constructor <;>
    simp only [SchedState.goto, SchedState.Awaits, Suspended, Settled,
      Function.update_apply] at * <;> grind

private theorem quiet_cleanupPrevious (hq : Quiet s) (hpc : s.pc c = .cleanupPrevious)
    (hs : s.cleanupPrevious c = some s') : Quiet (s'.goto c .run) := by
  have howner : ∀ u, s.blockLock u = some c → s.previousThread c = some u := by
    intro u hu
    rcases hq.owner c u hu with ⟨-, howns⟩ | ⟨hprev, -⟩ | hholds
    · rw [hpc] at howns
      cases howns
    · exact hprev.1
    · rw [hpc] at hholds
      cases hholds
  have hsame : Function.update s.previousThread c (s.previousThread c) = s.previousThread :=
    Function.update_eq_self c s.previousThread
  unfold SchedState.cleanupPrevious at hs
  split at hs
  · rename_i hprev
    cases hs
    have hdone := hq.cleaned hpc (fun u hu => by simp [howner u hu] at hprev) (s.previousThread c)
    rwa [hsame] at hdone
  · rename_i t hprev
    have honly : ∀ u, s.blockLock u = some c → u = t := by
      intro u hu
      rw [howner u hu] at hprev
      exact Option.some.inj hprev
    split_ifs at hs with howned hstate hdying
    · cases hs
      have hnone : ∀ u, (s.setBlockLock t none).blockLock u ≠ some c := by
        intro u hu
        simp only [SchedState.setBlockLock, Function.update_apply] at hu
        split_ifs at hu with hut
        exact hut (honly u hu)
      have hdone := (hq.release t).cleaned hpc hnone (s.previousThread c)
      rwa [show (s.setBlockLock t none).previousThread = s.previousThread from rfl, hsame] at hdone
    · cases hs
      exact hq.cleaned hpc (fun u hu => howned (honly u hu ▸ hu)) none
    · cases hs
      have hdone := hq.cleaned hpc (fun u hu => howned (honly u hu ▸ hu)) (s.previousThread c)
      rwa [hsame] at hdone

/-- A thread that is not suspended becomes current. -/
private theorem Quiet.switch (hq : Quiet s) {caller : ScheduleCaller} {list left : List Tid}
    (hcur : s.currentThread c = some t) (hset : s.idleThread c ≠ some t → Settled s.toPlacement t)
    (hpc : s.pc c = .schedule caller) (hsub : list ⊆ s.readyThreadsList)
    (hu : ¬ Suspended s u) (halive : s.state u ≠ .dying) :
    Quiet ({ s with
      readyThreadsList := list, left := left,
      currentThread := Function.update s.currentThread c (some u),
      previousThread := Function.update s.previousThread c (s.currentThread c) }.goto c
        .cleanupUnlock) := by
  cases hq
  have hmem : ∀ v, v ∈ list → v ∈ s.readyThreadsList := fun _ hv => hsub hv
  constructor <;>
    simp only [SchedState.goto, SchedState.Awaits, Suspended, Settled,
      Function.update_apply] at * <;> grind

private theorem quiet_schedule {caller : ScheduleCaller} (h : SchedInv s) (hq : Quiet s)
    (hcur : s.currentThread c = some t) (hpc : s.pc c = .schedule caller)
    (hs : s.threadSchedule c = some s') : Quiet (s'.goto c .cleanupUnlock) := by
  unfold SchedState.threadSchedule SchedState.threadGetReadyThread at hs
  split at hs
  · simp only [Option.map_eq_some_iff] at hs
    obtain ⟨_, ⟨u, hidle, rfl⟩, rfl⟩ := hs
    refine hq.switch hcur (h.settled hcur) hpc (List.Subset.refl _) ?_ (hq.idle c u hidle)
    intro hsus
    rcases hsus with hw | hcr | ⟨c', hw⟩
    · exact (h.placed.waiting u hw).2.2 c hidle
    · exact hcr (h.placed.idle c u hidle).2
    · exact ((h.cpus c').unblocks u (CpuPc.unblocks_of_wakes hw)).2.2 c hidle
  · rename_i u rest hlist
    have hmem : u ∈ s.readyThreadsList := by simp [hlist]
    split_ifs at hs with hready
    swap
    · cases hs
    cases hs
    exact hq.switch hcur (h.settled hcur) hpc (by simp [hlist]) (fun hsus => hq.listed u hsus hmem)
      (by simp [hready])

theorem quiet_cpuStep (h : SchedInv s) (hq : Quiet s) (hcur : s.currentThread c = some t)
    (hs : cpuStep s c t (s.pc c) = some s') : Quiet s' := by
  cases hpc : s.pc c with
  | off | run =>
    rw [hpc] at hs
    cases hs
  | yieldTest =>
    simp only [hpc, cpuStep, hq.flags] at hs
    cases hs
    exact hq.move hpc (Or.inr rfl) (by rintro ⟨⟩) (by rintro ⟨⟩) rfl rfl rfl rfl
  | yieldLock =>
    simp only [hpc, cpuStep] at hs
    split_ifs at hs
    cases hs
    exact hq.move hpc (Or.inr rfl) (by rintro ⟨⟩) (by rintro ⟨⟩) rfl rfl rfl rfl
  | yieldInsert => exact quiet_yieldInsert h hq hcur hpc hs
  | blockTest => exact quiet_blockTest hq hcur hpc hs
  | scheduleLock caller =>
    simp only [hpc, cpuStep] at hs
    split_ifs at hs
    cases hs
    cases caller <;> exact hq.move hpc (Or.inr rfl) (fun hl => hl) (fun he => he) rfl rfl rfl rfl
  | schedule caller =>
    simp only [hpc, cpuStep, Option.map_eq_some_iff] at hs
    obtain ⟨s₁, hs, rfl⟩ := hs
    exact quiet_schedule h hq hcur hpc hs
  | cleanupUnlock =>
    simp only [hpc, cpuStep] at hs
    cases hs
    exact hq.move hpc (Or.inr rfl) (by rintro ⟨⟩) (by rintro ⟨⟩) rfl rfl rfl rfl
  | cleanupPrevious =>
    simp only [hpc, cpuStep, Option.map_eq_some_iff] at hs
    obtain ⟨s₁, hs, rfl⟩ := hs
    exact quiet_cleanupPrevious hq hpc hs
  | exitRelease => exact quiet_exitRelease hq hpc hs
  | exitDying => exact quiet_exitDying h hq hcur hpc hs
  | exiting =>
    simp only [hpc, cpuStep] at hs
    cases hs
    exact hq.move hpc (Or.inr rfl) (fun hl => hl) (fun he => he) rfl rfl rfl rfl
  | unblockTake u inExit => exact quiet_unblockTake hq hpc hs
  | unblockAssert u inExit | unblockLock u inExit =>
    simp only [hpc, cpuStep] at hs
    split_ifs at hs
    cases hs
    exact hq.move hpc (Or.inl rfl) (fun hl => hl) (fun he => he) rfl rfl rfl rfl
  | unblockInsert u inExit => exact quiet_unblockInsert h hq hpc hs
  | unblockUnlock u inExit =>
    simp only [hpc, cpuStep] at hs
    cases hs
    exact hq.move hpc (Or.inr rfl) (fun hl => hl) (fun he => he) rfl rfl rfl rfl
  | unblockRelease u inExit => exact quiet_unblockRelease hq hpc hs

private theorem Quiet.takeBlock (hq : Quiet s) (hcur : s.currentThread c = some t)
    (hpc : s.pc c = .run) :
    Quiet ((s.setBlockLock t (some c)).goto c .blockTest) := by
  cases hq
  constructor <;>
    simp only [SchedState.goto, SchedState.setBlockLock, SchedState.Awaits, Suspended, Settled,
      Function.update_apply] at * <;> grind

private theorem Quiet.setWaiting (hq : Quiet s) (hcur : s.currentThread c = some t)
    (hone : ∀ c', s.currentThread c' = some t → c' = c) (hpc : s.pc c = .blockTest)
    (hout : t ∉ s.readyThreadsList) (hwakes : ∀ c', (s.pc c').wakes ≠ some t) :
    Quiet { s with waiting := Function.update s.waiting t true } := by
  cases hq
  constructor <;>
    simp only [SchedState.Awaits, Suspended, Settled, Function.update_apply] at * <;> grind

private theorem quiet_initMain (hq : Quiet s) (ht : Unplaced s t) (hpc : s.pc c = .off)
    (hcr : s.creating t = none) :
    Quiet { ((s.threadInit t).setState t .running).goto c .run with
      currentThread := Function.update s.currentThread c (some t) } := by
  obtain ⟨hlist, hwait, hcur, hidle, hun⟩ := ht
  have hwakes : ∀ c, (s.pc c).wakes ≠ some t := fun c hw => hun c (CpuPc.unblocks_of_wakes hw)
  cases hq
  constructor <;>
    simp only [SchedState.goto, SchedState.setState, SchedState.threadInit, SchedState.Awaits,
      Suspended, Settled, Function.update_apply] at * <;> grind

private theorem quiet_init (hq : Quiet s) (ht : Unplaced s t) :
    Quiet { s.threadInit t with creating := Function.update s.creating t (some c) } := by
  obtain ⟨hlist, hwait, hcur, hidle, hun⟩ := ht
  have hwakes : ∀ c, (s.pc c).wakes ≠ some t := fun c hw => hun c (CpuPc.unblocks_of_wakes hw)
  cases hq
  constructor <;>
    simp only [SchedState.threadInit, SchedState.Awaits, Suspended, Settled,
      Function.update_apply] at * <;> grind

private theorem quiet_placeIdle (hq : Quiet s) (ht : Unplaced s t) {pCpu : Cpu}
    (hcr : s.creating t = some pCpu) (hnone : s.idleThread pCpu = none) :
    Quiet { { s with creating := Function.update s.creating t none }.setState t .ready with
      idleThread := Function.update s.idleThread pCpu (some t) } := by
  obtain ⟨hlist, hwait, hcur, hidle, hun⟩ := ht
  have hwakes : ∀ c, (s.pc c).wakes ≠ some t := fun c hw => hun c (CpuPc.unblocks_of_wakes hw)
  cases hq
  constructor <;>
    simp only [SchedState.setState, SchedState.Awaits, Suspended, Settled,
      Function.update_apply] at * <;> grind

private theorem quiet_place (hq : Quiet s) (ht : Unplaced s t) (hcr : s.creating t ≠ none)
    (hpc : s.pc c = .run) :
    Quiet ({ s with creating := Function.update s.creating t none }.goto c
      (.unblockTake t false)) := by
  obtain ⟨hlist, hwait, hcur, hidle, hun⟩ := ht
  have hwakes : ∀ c, (s.pc c).wakes ≠ some t := fun c hw => hun c (CpuPc.unblocks_of_wakes hw)
  cases hq
  constructor <;>
    simp only [SchedState.goto, SchedState.Awaits, Suspended, Settled,
      Function.update_apply] at * <;> grind

private theorem quiet_exit (hq : Quiet s) (hpc : s.pc c = .run)
    (hidle : s.currentThread c ≠ s.idleThread c) : Quiet (s.goto c .exitRelease) := by
  cases hq
  constructor <;>
    simp only [SchedState.goto, SchedState.Awaits, Suspended, Settled,
      Function.update_apply] at * <;> grind

private theorem quiet_unblock (hq : Quiet s) (hpc : s.pc c = .run ∨ s.pc c = .exiting)
    (hwait : s.waiting t = true) :
    Quiet { s.goto c (.unblockTake t (s.pc c = .exiting)) with
      waiting := Function.update s.waiting t false } := by
  cases hq
  constructor <;>
    simp only [SchedState.goto, SchedState.Awaits, Suspended, Settled,
      Function.update_apply] at * <;> grind

theorem quiet_nextSched {a : SchedAction} (h : SchedInv s) (hq : Quiet s)
    (ha : s.allows a = true) (hs : nextSched s a = some s') : Quiet s' := by
  cases a with
  | initMain c t =>
    simp only [nextSched] at hs
    split_ifs at hs with hnew
    cases hs
    refine quiet_initMain hq (h.unplaced_of_not_settled (by simp [hnew.2])) hnew.1 ?_
    by_contra hcr
    simp [h.placed.creating t hcr] at hnew
  | init c t =>
    simp only [nextSched] at hs
    split_ifs at hs with hnew
    cases hs
    exact quiet_init hq (h.unplaced_of_not_settled (by simp [hnew.2]))
  | place c t =>
    simp only [nextSched] at hs
    split at hs
    · cases hs
    · rename_i pCpu hcr
      have ht : Unplaced s t := h.unplaced_of_not_settled (by simp [hcr])
      split_ifs at hs with hpc hidle
      · cases hs
        exact quiet_placeIdle hq ht hcr hidle
      · cases hs
        exact quiet_place hq ht (by simp [hcr]) hpc
  | yield c =>
    simp only [nextSched] at hs
    split_ifs at hs with hpc
    cases hs
    exact hq.move hpc (Or.inr rfl) (by rintro ⟨⟩) (by rintro ⟨⟩) rfl rfl rfl rfl
  | wait c =>
    simp only [nextSched] at hs
    split at hs
    · cases hs
    · rename_i t hcur
      split_ifs at hs with hguard
      cases hs
      have hpc := hguard.1
      refine (hq.takeBlock hcur hpc).setWaiting (c := c) hcur
        (fun c' hc' => h.placed.one_cpu c' c t hc' hcur) (Function.update_self ..)
        (h.not_listed hcur (by rw [hpc]; rfl)) (fun c' hw => ?_)
      by_cases hc : c' = c
      · rw [hc] at hw
        simp [SchedState.goto, CpuPc.wakes] at hw
      · have hw' : (s.pc c').wakes = some t := by
          simpa [SchedState.goto, SchedState.setBlockLock, Function.update_of_ne hc] using hw
        have howns := hq.current c t (Or.inr (Or.inr ⟨c', hw'⟩)) hcur
        rw [hpc] at howns
        cases howns
  | idle c =>
    simp only [nextSched] at hs
    split at hs
    · cases hs
    · rename_i t hcur
      split_ifs at hs with hguard
      cases hs
      exact hq.takeBlock hcur hguard.1
  | exit c =>
    simp only [nextSched] at hs
    split_ifs at hs with hpc
    cases hs
    exact quiet_exit hq hpc (by simpa [SchedState.allows] using ha)
  | unblock c t =>
    simp only [nextSched] at hs
    split_ifs at hs with hguard
    cases hs
    exact quiet_unblock hq hguard.1 hguard.2
  | terminate t => cases ha
  | step c =>
    simp only [nextSched] at hs
    split at hs
    · cases hs
    · rename_i t hcur
      exact quiet_cpuStep h hq hcur hs

end Steps

end HAL9000.Thread
