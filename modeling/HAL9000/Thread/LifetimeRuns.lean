import HAL9000.Thread.Parked

/-! The references of threads over whole runs of the scheduler. -/
namespace HAL9000.Thread

open Run

/-- A step that no dying thread notices: the same threads are dying, and the same CPUs run them or
have yet to examine them. -/
structure Keeps (s s' : SchedState) : Prop where
  dying : ∀ t, s'.state t = .dying ↔ s.state t = .dying
  current : ∀ c t, s.state t = .dying → (s'.currentThread c = some t ↔ s.currentThread c = some t)
  awaits : ∀ c t, s.state t = .dying → (s'.Awaits c t ↔ s.Awaits c t)

/-- A place where a step decides about a dying thread. -/
def CpuPc.decides : CpuPc → Bool
  | .schedule _ | .cleanupPrevious | .exitDying => true
  | _ => false

section Keeps

variable {s s' : SchedState} {c : Cpu} {t : Tid}

/-- A step that moves `c` from `p` to `q` and switches no threads. -/
private theorem Keeps.of_goto {p q : CpuPc} (hp : s.pc c = p)
    (hstate : ∀ t, s'.state t = .dying ↔ s.state t = .dying)
    (hpc : s'.pc = Function.update s.pc c q) (hcleans : q.cleans = p.cleans)
    (hcur : s'.currentThread = s.currentThread) (hprev : s'.previousThread = s.previousThread) : Keeps s s' where
  dying := hstate
  current c t _ := by rw [hcur]
  awaits d t _ := by
    have hd : (s'.pc d).cleans = (s.pc d).cleans := by
      rw [hpc]
      by_cases hd : d = c
      · rw [hd, Function.update_self, hp, hcleans]
      · rw [Function.update_of_ne hd]
    rw [SchedState.Awaits, SchedState.Awaits, hprev, hd]

private theorem update_dying {state : Tid → ThreadState} {u : Tid} {new : ThreadState}
    (hold : state u ≠ .dying) (hnew : new ≠ .dying) (t : Tid) :
    Function.update state u new t = .dying ↔ state t = .dying := by
  by_cases ht : t = u
  · subst ht
    simp [hold, hnew]
  · rw [Function.update_of_ne ht]

theorem keeps_cpuStep (hq : Quiet s) (hcur : s.currentThread c = some t)
    (hpc : (s.pc c).decides = false) (hs : cpuStep s c t (s.pc c) = some s') : Keeps s s' := by
  have halive : (s.pc c).leaving = false → s.state t ≠ .dying := by
    intro hl hd
    have := hq.leaving c t hcur hd
    simp [hl] at this
  have hwakes : ∀ u, (s.pc c).wakes = some u → s.state u ≠ .dying := fun u hu =>
    hq.alive u (Or.inr (Or.inr ⟨c, hu⟩))
  cases hp : s.pc c with
  | off | run =>
    rw [hp] at hs
    cases hs
  | schedule _ | cleanupPrevious | exitDying =>
    rw [hp] at hpc
    cases hpc
  | yieldInsert =>
    simp only [hp, cpuStep] at hs halive
    split_ifs at hs <;> cases hs <;>
      exact Keeps.of_goto hp (update_dying (halive rfl) (by rintro ⟨⟩)) rfl rfl rfl rfl
  | blockTest =>
    simp only [hp, cpuStep, hq.flags] at hs halive
    rw [if_neg (show ¬ (0 : DWORD) = threadFlagForceTerminatePending by decide)] at hs
    split_ifs at hs
    cases hs
    exact Keeps.of_goto hp (update_dying (halive rfl) (by rintro ⟨⟩)) rfl rfl rfl rfl
  | unblockInsert u inExit =>
    simp only [hp, cpuStep] at hs hwakes
    cases hs
    exact Keeps.of_goto hp (update_dying (hwakes u rfl) (by rintro ⟨⟩)) rfl rfl rfl rfl
  | yieldTest =>
    simp only [hp, cpuStep, hq.flags] at hs
    cases hs
    exact Keeps.of_goto hp (fun _ => Iff.rfl) rfl rfl rfl rfl
  | cleanupUnlock | exiting | unblockUnlock _ _ =>
    simp only [hp, cpuStep] at hs
    cases hs
    exact Keeps.of_goto hp (fun _ => Iff.rfl) rfl rfl rfl rfl
  | exitRelease =>
    simp only [hp, cpuStep] at hs
    split_ifs at hs <;> cases hs <;>
      exact Keeps.of_goto hp (fun _ => Iff.rfl) rfl rfl rfl rfl
  | unblockRelease u inExit =>
    simp only [hp, cpuStep] at hs
    cases hs
    cases inExit <;> exact Keeps.of_goto hp (fun _ => Iff.rfl) rfl rfl rfl rfl
  | yieldLock | scheduleLock _ | unblockTake _ _ | unblockAssert _ _ | unblockLock _ _ =>
    simp only [hp, cpuStep] at hs
    split_ifs at hs
    cases hs
    exact Keeps.of_goto hp (fun _ => Iff.rfl) rfl rfl rfl rfl

theorem keeps_nextSched {a : SchedAction} (hq : Quiet s)
    (ha : s.allows a = true) (hdec : ∀ c, a = .step c → (s.pc c).decides = false)
    (hs : nextSched s a = some s') : Keeps s s' := by
  cases a with
  | initMain c t =>
    simp only [nextSched] at hs
    split_ifs at hs with hnew
    cases hs
    have hold := hq.absent t hnew.2
    refine ⟨fun u => ?_, fun d u hu => ?_, fun d u hu => ?_⟩
    · have hnew : ThreadState.running ≠ .dying := (by rintro ⟨⟩)
      show Function.update (Function.update s.state t .blocked) t .running u = .dying ↔ _
      rw [Function.update_idem]
      exact update_dying hold hnew u
    · have hut : t ≠ u := fun hut => hold (hut ▸ hu)
      by_cases hd : d = c
      · subst hd
        have hoff : s.currentThread d ≠ some u := by
          intro hcur
          have := hq.leaving d u hcur hu
          rw [hnew.1] at this
          cases this
        simp [hut, hoff]
      · simp [Function.update_of_ne hd]
    · by_cases hd : d = c
      · subst hd
        simp [SchedState.Awaits, SchedState.goto, hnew.1, CpuPc.cleans]
      · simp [SchedState.Awaits, SchedState.goto, Function.update_of_ne hd]
        rfl
  | init c t =>
    simp only [nextSched] at hs
    split_ifs at hs with hnew
    cases hs
    exact ⟨update_dying (hq.absent t hnew.2) (by rintro ⟨⟩), fun _ _ _ => Iff.rfl, fun _ _ _ => Iff.rfl⟩
  | place c t =>
    simp only [nextSched] at hs
    split at hs
    · cases hs
    · rename_i pCpu hcr
      have hold := hq.alive t (Or.inr (Or.inl (by simp [hcr])))
      split_ifs at hs with hpc hidle
      · cases hs
        exact ⟨update_dying hold (by rintro ⟨⟩), fun _ _ _ => Iff.rfl, fun _ _ _ => Iff.rfl⟩
      · cases hs
        exact Keeps.of_goto hpc (fun _ => Iff.rfl) rfl rfl rfl rfl
  | yield c | exit c =>
    simp only [nextSched] at hs
    split_ifs at hs with hpc
    cases hs
    exact Keeps.of_goto hpc (fun _ => Iff.rfl) rfl rfl rfl rfl
  | wait c | idle c =>
    simp only [nextSched] at hs
    split at hs
    · cases hs
    · split_ifs at hs with hguard
      cases hs
      exact Keeps.of_goto hguard.1 (fun _ => Iff.rfl) rfl rfl rfl rfl
  | unblock c t =>
    simp only [nextSched] at hs
    split_ifs at hs with hguard
    cases hs
    rcases hguard.1 with hpc | hpc <;>
      exact Keeps.of_goto hpc (fun _ => Iff.rfl) rfl rfl rfl rfl
  | terminate t => cases ha
  | step c =>
    simp only [nextSched] at hs
    split at hs
    · cases hs
    · rename_i t hcur
      exact keeps_cpuStep hq hcur (hdec c rfl) hs

end Keeps

section Frame

variable {s s' : SchedState} {c : Cpu} {t : Tid}

/-- A step of a CPU moves it, and neither creates threads nor hands one to `ThreadUnblock`. -/
theorem cpuStep_frame (hs : cpuStep s c t (s.pc c) = some s') :
    ∃ q : CpuPc, s'.pc = Function.update s.pc c q ∧
      (∀ u, q.unblocks = some u → (s.pc c).unblocks = some u) ∧
        s'.allThreads = s.allThreads ∧ s'.creating = s.creating := by
  cases hp : s.pc c with
  | off | run =>
    rw [hp] at hs
    cases hs
  | cleanupPrevious =>
    simp only [hp, cpuStep, SchedState.cleanupPrevious] at hs
    split at hs
    · cases hs
      exact ⟨_, rfl, (by rintro _ ⟨⟩), rfl, rfl⟩
    · split_ifs at hs <;> cases hs <;> exact ⟨_, rfl, (by rintro _ ⟨⟩), rfl, rfl⟩
  | schedule caller =>
    simp only [hp, cpuStep, SchedState.threadSchedule, SchedState.threadGetReadyThread] at hs
    split at hs
    · simp only [Option.map_eq_some_iff] at hs
      obtain ⟨_, ⟨_, ⟨u, hidle, rfl⟩, rfl⟩, rfl⟩ := hs
      exact ⟨_, rfl, (by rintro _ ⟨⟩), rfl, rfl⟩
    · split_ifs at hs <;> cases hs
      exact ⟨_, rfl, (by rintro _ ⟨⟩), rfl, rfl⟩
  | cleanupUnlock | exiting | exitDying =>
    simp only [hp, cpuStep] at hs
    cases hs
    exact ⟨_, rfl, (by rintro _ ⟨⟩), rfl, rfl⟩
  | yieldTest | yieldLock | yieldInsert | blockTest | scheduleLock _ | exitRelease =>
    simp only [hp, cpuStep] at hs
    split_ifs at hs <;> cases hs <;> exact ⟨_, rfl, (by rintro _ ⟨⟩), rfl, rfl⟩
  | unblockTake _ _ | unblockAssert _ _ | unblockLock _ _ =>
    simp only [hp, cpuStep] at hs
    split_ifs at hs
    cases hs
    exact ⟨_, rfl, fun _ hu => hu, rfl, rfl⟩
  | unblockInsert _ _ | unblockUnlock _ _ =>
    simp only [hp, cpuStep] at hs
    cases hs
    exact ⟨_, rfl, fun _ hu => hu, rfl, rfl⟩
  | unblockRelease u inExit =>
    simp only [hp, cpuStep] at hs
    cases hs
    cases inExit <;> exact ⟨_, rfl, (by rintro _ ⟨⟩), rfl, rfl⟩

/-- What the other actions do: `place` ends a creation, `place` and `unblock` call
`ThreadUnblock` for a suspended thread. -/
theorem nextSched_frame {a : SchedAction} (hinit : ∀ c t, a ≠ .initMain c t ∧ a ≠ .init c t)
    (hs : nextSched s a = some s') :
    s'.allThreads = s.allThreads ∧ (∀ t, s'.creating t ≠ none → s.creating t ≠ none) ∧
      ∀ d u, (s'.pc d).unblocks = some u → (s.pc d).unblocks = some u ∨ Suspended s u := by
  have hgoto : ∀ {c : Cpu} {q : CpuPc}, (∀ u, q.unblocks = some u → Suspended s u) → ∀ d u,
      (Function.update s.pc c q d).unblocks = some u →
        (s.pc d).unblocks = some u ∨ Suspended s u := by
    intro c q hq d u hu
    by_cases hd : d = c
    · rw [hd, Function.update_self] at hu
      exact Or.inr (hq u hu)
    · rw [Function.update_of_ne hd] at hu
      exact Or.inl hu
  cases a with
  | initMain c t => exact absurd rfl (hinit c t).1
  | init c t => exact absurd rfl (hinit c t).2
  | place c t =>
    simp only [nextSched] at hs
    split at hs
    · cases hs
    · rename_i pCpu hcr
      have hcreating : ∀ u, Function.update s.creating t none u ≠ none → s.creating u ≠ none := by
        intro u hu
        by_cases hut : u = t
        · simp [hut] at hu
        · rwa [Function.update_of_ne hut] at hu
      split_ifs at hs
      · cases hs
        exact ⟨rfl, hcreating, fun _ _ hu => Or.inl hu⟩
      · cases hs
        refine ⟨rfl, hcreating, hgoto fun u hu => ?_⟩
        cases hu
        exact Or.inr (Or.inl (by simp [hcr]))
  | yield c | exit c =>
    simp only [nextSched] at hs
    split_ifs at hs
    cases hs
    exact ⟨rfl, fun _ hcr => hcr, hgoto (by rintro _ ⟨⟩)⟩
  | wait c | idle c =>
    simp only [nextSched] at hs
    split at hs
    · cases hs
    · split_ifs at hs
      cases hs
      exact ⟨rfl, fun _ hcr => hcr, hgoto (by rintro _ ⟨⟩)⟩
  | unblock c t =>
    simp only [nextSched] at hs
    split_ifs at hs with hguard
    cases hs
    refine ⟨rfl, fun _ hcr => hcr, hgoto fun u hu => ?_⟩
    cases hu
    exact Or.inl hguard.2
  | terminate t =>
    simp only [nextSched] at hs
    split_ifs at hs
    cases hs
    exact ⟨rfl, fun _ hcr => hcr, fun _ _ hu => Or.inl hu⟩
  | step c =>
    simp only [nextSched] at hs
    split at hs
    · cases hs
    · obtain ⟨q, hpc, hun, hall, hcr⟩ := cpuStep_frame hs
      refine ⟨hall, fun t => by rw [hcr]; exact fun h => h, fun d u hu => Or.inl ?_⟩
      rw [hpc] at hu
      by_cases hd : d = c
      · rw [hd, Function.update_self] at hu
        exact hd ▸ hun u hu
      · rwa [Function.update_of_ne hd] at hu

end Frame

/-- The last way of a thread: a dying thread is current on one CPU, then one CPU has yet to examine
it, and then the reference of the scheduler has been dropped. -/
structure Tracked (s : SchedState) (dropped : ℕ) (t : Tid) : Prop where
  alive : s.state t ≠ .dying → dropped = 0
  once : dropped ≤ 1
  gone : dropped = 1 → ∀ c, s.currentThread c ≠ some t ∧ ¬ s.Awaits c t
  remains : s.state t = .dying → dropped = 0 → ∃ c, s.currentThread c = some t ∨ s.Awaits c t
  exclusive : s.state t = .dying → ∀ c c', s.currentThread c = some t → ¬ s.Awaits c' t
  awaits_once : s.state t = .dying → ∀ c c', s.Awaits c t → s.Awaits c' t → c = c'

section Tracked

variable {s s' : SchedState} {c : Cpu} {t u : Tid} {dropped : ℕ}

theorem Tracked.dying (h : Tracked s dropped t) (hd : dropped = 1) : s.state t = .dying := by
  by_contra hs
  have := h.alive hs
  omega

theorem Tracked.keeps (h : Tracked s dropped t) (hk : Keeps s s') : Tracked s' dropped t where
  alive hs := h.alive (fun hd => hs ((hk.dying t).mpr hd))
  once := h.once
  gone hd c := by
    have hs := h.dying hd
    rw [Ne, hk.current c t hs, hk.awaits c t hs]
    exact h.gone hd c
  remains hs hd := by
    rw [hk.dying] at hs
    obtain ⟨c, hc⟩ := h.remains hs hd
    rw [← hk.current c t hs, ← hk.awaits c t hs] at hc
    exact ⟨c, hc⟩
  exclusive hs c c' := by
    rw [hk.dying] at hs
    rw [hk.current c t hs, hk.awaits c' t hs]
    exact h.exclusive hs c c'
  awaits_once hs c c' := by
    rw [hk.dying] at hs
    rw [hk.awaits c t hs, hk.awaits c' t hs]
    exact h.awaits_once hs c c'

/-- The current thread of `c` is set dying. -/
theorem Tracked.exitDying (h : Tracked s dropped t) (hpc : s.pc c = .exitDying)
    (hcur : s.currentThread c = some u) (hfirst : ∀ c', ¬ s.Awaits c' u) :
    Tracked ((s.setState u .dying).goto c .exiting) dropped t := by
  cases h
  constructor <;>
    simp only [SchedState.Awaits, SchedState.goto, SchedState.setState, Function.update_apply] at *
    <;> grind [CpuPc.cleans]

/-- `c` switches from `u` to a thread that is not dying. -/
theorem Tracked.schedule (h : Tracked s dropped t) {next : Tid} (hpc : (s.pc c).cleans = false)
    (hcur : s.currentThread c = some u) (hnext : s.state next ≠ .dying)
    (hone : ∀ d, s.currentThread d = some u → d = c) (hstate : s'.state = s.state)
    (hcur' : s'.currentThread = Function.update s.currentThread c (some next))
    (hprev' : s'.previousThread = Function.update s.previousThread c (s.currentThread c))
    (hpc' : s'.pc = Function.update s.pc c .cleanupUnlock) : Tracked s' dropped t := by
  cases h
  constructor <;> simp only [SchedState.Awaits, hstate, hcur', hprev', hpc', Function.update_apply] at *
    <;> grind [CpuPc.cleans]

/-- `c` has examined the thread it switched away from. -/
theorem Tracked.cleanup (h : Tracked s dropped t) (hpc : s.pc c = .cleanupPrevious)
    (hprev : s.Awaits c t → s.state t ≠ .dying) (hstate : s'.state = s.state)
    (hcur' : s'.currentThread = s.currentThread)
    (hprev' : ∀ d ≠ c, s'.previousThread d = s.previousThread d)
    (hpc' : s'.pc = Function.update s.pc c .run) : Tracked s' dropped t := by
  cases h
  constructor <;> simp only [SchedState.Awaits, hstate, hcur', hpc', Function.update_apply] at *
    <;> grind [CpuPc.cleans]

theorem Tracked.cleanup_dying (h : Tracked s dropped t) (hprev : s.Awaits c t)
    (hdying : s.state t = .dying) (hstate : s'.state = s.state)
    (hcur' : s'.currentThread = s.currentThread)
    (hprev' : ∀ d ≠ c, s'.previousThread d = s.previousThread d)
    (hpc' : s'.pc = Function.update s.pc c .run) :
    dropped = 0 ∧ Tracked s' (dropped + 1) t := by
  have h0 : dropped = 0 := by
    have hle := h.once
    by_contra hne
    exact (h.gone (by omega) c).2 hprev
  cases h
  refine ⟨h0, ?_⟩
  constructor <;> simp only [SchedState.Awaits, hstate, hcur', hpc', Function.update_apply] at *
    <;> grind [CpuPc.cleans]

end Tracked

/-- The references of one thread: one of the scheduler until it is dropped, and one of the handle
until it is closed. -/
structure Counted (s : LifeState) (t : Tid) : Prop where
  absent : s.allThreads t = false → s.handle t = .absent
  present : s.allThreads t = true → s.handle t ≠ .absent ∧
    (s.refCnt t).toNat = (if s.dropped t = 0 then 1 else 0) + (s.handle t).holds.toNat
  destroyed : s.destroyed t = if s.allThreads t = true ∧ s.refCnt t = 0 then 1 else 0
  creating : s.creating t ≠ none → s.handle t = .pending
  unused : s.allThreads t = true → s.refCnt t = 0 → ∀ c, (s.pc c).unblocks ≠ some t

structure LifeInv (s : LifeState) : Prop where
  sched : SchedInv s.toSchedState
  quiet : Quiet s.toSchedState
  tracked : ∀ t, Tracked s.toSchedState (s.dropped t) t
  counted : ∀ t, Counted s t

theorem lifeStart_inv : LifeInv lifeStart where
  sched := schedStart_inv
  quiet := quiet_schedStart
  tracked t := by
    constructor <;> simp [lifeStart, schedStart]
  counted t := by
    constructor <;> simp [lifeStart, schedStart]

section Counted

variable {s s' : LifeState} {t : Tid}

theorem threadDereference_eq_some (h : s.threadDereference t = some s') :
    ∃ n : DWORD, n.toNat + 1 = (s.refCnt t).toNat ∧ s' = { s with
      refCnt := Function.update s.refCnt t n
      destroyed := if n = 0 then Function.update s.destroyed t (s.destroyed t + 1)
        else s.destroyed } := by
  unfold LifeState.threadDereference at h
  split at h
  · cases h
  · rename_i n hn
    cases h
    exact ⟨n, rfcDereference_toNat hn, rfl⟩

private theorem dword_eq_zero {n : DWORD} : n = 0 ↔ n.toNat = 0 :=
  ⟨fun h => by rw [h]; rfl, fun h => BitVec.eq_of_toNat_eq h⟩

/-- A step of the scheduler that leaves the references alone, and may open the handle of a thread
that has been created. -/
private theorem Counted.frame (h : Counted s t) (hall : s'.allThreads t = s.allThreads t)
    (hcr : s'.creating t ≠ none → s.creating t ≠ none) (href : s'.refCnt t = s.refCnt t)
    (hdrop : s'.dropped t = s.dropped t) (hdes : s'.destroyed t = s.destroyed t)
    (hhandle : s'.handle t = s.handle t ∨
      s.handle t = .pending ∧ s'.handle t = .opened ∧ s'.creating t = none)
    (hun : ∀ c, (s'.pc c).unblocks = some t → (s.pc c).unblocks = some t ∨ s.refCnt t ≠ 0) :
    Counted s' t := by
  have hunused : s'.allThreads t = true → s'.refCnt t = 0 →
      ∀ c, (s'.pc c).unblocks ≠ some t := by
    rw [hall, href]
    intro ha hz c hc
    rcases hun c hc with hc | hc
    · exact h.unused ha hz c hc
    · exact hc hz
  have hdestroyed : s'.destroyed t =
      if s'.allThreads t = true ∧ s'.refCnt t = 0 then 1 else 0 := by
    rw [hdes, hall, href]
    exact h.destroyed
  rcases hhandle with hh | ⟨hpend, hopen, hnone⟩
  · refine ⟨?_, ?_, hdestroyed, ?_, hunused⟩
    · rw [hall, hh]
      exact h.absent
    · rw [hall, hh, href, hdrop]
      exact h.present
    · rw [hh]
      exact fun hcr' => h.creating (hcr hcr')
  · have ha : s.allThreads t = true := by
      by_contra ha
      rw [h.absent (by simpa using ha)] at hpend
      cases hpend
    refine ⟨?_, ?_, hdestroyed, ?_, hunused⟩
    · rw [hall, ha]
      nofun
    · intro _
      have hp := (h.present ha).2
      rw [hpend] at hp
      rw [hopen, href, hdrop]
      exact ⟨nofun, hp⟩
    · exact fun hcr' => absurd hnone hcr'

/-- A reference of `t` that was counted is dropped; `s` says already who holds the others. -/
private theorem Counted.dereference {u : Tid} (h : s.threadDereference t = some s')
    (hall : s.allThreads t = true) (habsent : s.handle t ≠ .absent)
    (href : (s.refCnt t).toNat = (if s.dropped t = 0 then 1 else 0) + (s.handle t).holds.toNat + 1)
    (hdes : s.destroyed t = 0) (hcr : s.creating t = none)
    (hlast : s.refCnt t = 1 → ∀ c, (s.pc c).unblocks ≠ some t)
    (hothers : u ≠ t → Counted s u) : Counted s' u := by
  obtain ⟨n, hn, rfl⟩ := threadDereference_eq_some h
  by_cases hut : u = t
  · subst hut
    constructor
    · intro hall'
      rw [hall] at hall'
      cases hall'
    · intro _
      refine ⟨habsent, ?_⟩
      show (Function.update s.refCnt u n u).toNat =
        (if s.dropped u = 0 then 1 else 0) + (s.handle u).holds.toNat
      rw [Function.update_self]
      omega
    · show (if n = 0 then Function.update s.destroyed u (s.destroyed u + 1) else s.destroyed) u = _
      simp only [hall, Function.update_self, true_and]
      split_ifs
      · rw [Function.update_self, hdes]
      · exact hdes
    · exact fun hcr' => absurd hcr hcr'
    · intro _ hz
      apply hlast
      have hz : Function.update s.refCnt u n u = 0 := hz
      rw [Function.update_self] at hz
      apply BitVec.eq_of_toNat_eq
      rw [← hn, dword_eq_zero.mp hz]
      rfl
  · refine (hothers hut).frame rfl (fun hc => hc) (Function.update_of_ne hut ..) rfl ?_ (Or.inl rfl)
      (fun _ hc => Or.inl hc)
    show (if n = 0 then Function.update s.destroyed t (s.destroyed t + 1) else s.destroyed) u = _
    split_ifs
    · rw [Function.update_of_ne hut]
    · rfl

end Counted

section Steps

variable {s s' : LifeState} {c : Cpu} {t : Tid}

private theorem LifeInv.refCnt_of_suspended (hi : LifeInv s) (ht : Suspended s.toSchedState t) :
    s.refCnt t ≠ 0 := by
  have hall : s.allThreads t = true := by
    rcases ht with hw | hcr | ⟨c, hw⟩
    · exact (hi.sched.placed.waiting t hw).1
    · exact hi.sched.placed.creating t hcr
    · exact ((hi.sched.cpus c).unblocks t (CpuPc.unblocks_of_wakes hw)).1
  have href := ((hi.counted t).present hall).2
  rw [(hi.tracked t).alive (hi.quiet.alive t ht), if_pos rfl] at href
  intro hz
  rw [hz] at href
  have h0 : (0 : DWORD).toNat = 0 := rfl
  omega

/-- The last step of `ThreadCloseHandle`. -/
theorem LifeInv.closeHandle (hi : LifeInv s) (hopen : s.handle t = .opened) (hlast : s.LastUse t)
    (h : ({ s with handle := Function.update s.handle t .closed }).threadDereference t = some s') :
    LifeInv s' := by
  have hc := hi.counted t
  have hall : s.allThreads t = true := by
    by_contra hall
    rw [hc.absent (by simpa using hall)] at hopen
    cases hopen
  have href := (hc.present hall).2
  rw [hopen] at href
  have hcounted : ∀ u, Counted s' u := by
    intro u
    refine Counted.dereference h hall ?_ ?_ ?_ ?_ hlast (fun hut => ?_)
    · simp
    · simpa [HandleState.holds] using href
    · show s.destroyed t = 0
      rw [hc.destroyed, if_neg]
      intro hz
      rw [hz.2] at href
      have h0 : (0 : DWORD).toNat = 0 := rfl
      have h1 : HandleState.opened.holds.toNat = 1 := rfl
      omega
    · by_contra hcr
      have := hc.creating hcr
      rw [hopen] at this
      cases this
    · exact (hi.counted u).frame rfl (fun hcr => hcr) rfl rfl rfl
        (Or.inl (Function.update_of_ne hut ..)) (fun _ hun => Or.inl hun)
  obtain ⟨n, hn, rfl⟩ := threadDereference_eq_some h
  exact ⟨hi.sched, hi.quiet, hi.tracked, hcounted⟩

/-- A step of the scheduler that creates no thread and drops no reference. -/
private theorem LifeInv.frame {a : SchedAction} {sched : SchedState} (hi : LifeInv s)
    (ha : s.allows a = true) (hinit : ∀ c t, a ≠ .initMain c t ∧ a ≠ .init c t)
    (hs : nextSched s.toSchedState a = some sched)
    (htracked : ∀ t, Tracked sched (s.dropped t) t) :
    ∀ handle : Tid → HandleState, (∀ t, handle t = s.handle t ∨
      s.handle t = .pending ∧ handle t = .opened ∧ sched.creating t = none) →
        LifeInv { s with toSchedState := sched, handle := handle } := by
  intro handle hhandle
  refine ⟨schedInv_nextSched hi.sched hs, quiet_nextSched hi.sched hi.quiet ha hs, htracked,
    fun t => ?_⟩
  obtain ⟨hall, hcr, hun⟩ := nextSched_frame hinit hs
  refine (hi.counted t).frame (congrFun hall t) (hcr t) rfl rfl rfl (hhandle t) (fun c hc => ?_)
  exact (hun c t hc).imp_right hi.refCnt_of_suspended

private theorem place_creating {s s' : SchedState} (hs : nextSched s (.place c t) = some s') :
    s.creating t ≠ none ∧ s'.creating t = none := by
  simp only [nextSched] at hs
  split at hs
  · cases hs
  · rename_i pCpu hcr
    refine ⟨by simp [hcr], ?_⟩
    split_ifs at hs <;> cases hs <;> exact Function.update_self ..

/-- A new thread gets its first references. -/
private theorem LifeInv.init {a : SchedAction} {sched : SchedState} {refCnt : DWORD}
    {handle : HandleState} (hi : LifeInv s) (ha : s.allows a = true)
    (hs : nextSched s.toSchedState a = some sched) (hdec : ∀ c, a ≠ .step c)
    (hnew : s.allThreads t = false)
    (hall : sched.allThreads = Function.update s.allThreads t true)
    (hcr : ∀ u ≠ t, sched.creating u = s.creating u)
    (hcr' : sched.creating t ≠ none → handle = .pending)
    (hun : ∀ d u, (sched.pc d).unblocks = some u → (s.pc d).unblocks = some u)
    (hhandle : handle ≠ .absent) (href : refCnt.toNat = 1 + handle.holds.toNat) :
    LifeInv (({ s with toSchedState := sched }).threadInitRef t refCnt handle) where
  sched := schedInv_nextSched hi.sched hs
  quiet := quiet_nextSched hi.sched hi.quiet ha hs
  tracked u := by
    have hk := keeps_nextSched hi.quiet ha (fun c hc => absurd hc (hdec c)) hs
    exact (hi.tracked u).keeps hk
  counted u := by
    by_cases hut : u = t
    · subst hut
      have hdrop : s.dropped u = 0 := (hi.tracked u).alive (hi.quiet.absent u hnew)
      have hne : refCnt ≠ 0 := by
        intro hz
        rw [hz] at href
        have h0 : (0 : DWORD).toNat = 0 := rfl
        omega
      have hdes := (hi.counted u).destroyed
      simp only [hnew, Bool.false_eq_true, false_and, if_false] at hdes
      constructor <;> simp only [LifeState.threadInitRef, hall, Function.update_self]
      · nofun
      · simp only [hdrop, if_true]
        exact fun _ => ⟨hhandle, href⟩
      · rw [if_neg (fun hz => hne hz.2)]
        exact hdes
      · exact hcr'
      · exact fun _ hz => absurd hz hne
    · refine (hi.counted u).frame ?_ ?_ (Function.update_of_ne hut ..) rfl rfl
        (Or.inl (Function.update_of_ne hut ..)) (fun d hd => Or.inl (hun d u hd))
      · show sched.allThreads u = s.allThreads u
        rw [hall, Function.update_of_ne hut]
      · show sched.creating u ≠ none → s.creating u ≠ none
        rw [hcr u hut]
        exact fun h => h

/-- A dying thread that `c` switched away from is dereferenced by `c`. -/
private theorem Quiet.dereferences {s : SchedState} (hq : Quiet s) (hpc : s.pc c = .cleanupPrevious)
    (hprev : s.previousThread c = some t) (hdying : s.state t = .dying) :
    s.dereferences c = some t := by
  have hlock : s.blockLock t ≠ some c := by
    intro hlock
    rcases hq.owner c t hlock with ⟨-, hown⟩ | ⟨-, hidle⟩ | hhold
    · rw [hpc] at hown
      cases hown
    · rcases hidle with ⟨hb, -⟩ | hidle
      · rw [hdying] at hb
        cases hb
      · exact hq.idle c t hidle hdying
    · rw [hpc] at hhold
      cases hhold
  simp [SchedState.dereferences, hpc, hprev, hlock, hdying]

private theorem dereferences_eq_some {s : SchedState} (h : s.dereferences c = some t) :
    s.pc c = .cleanupPrevious ∧ s.previousThread c = some t ∧ s.state t = .dying := by
  unfold SchedState.dereferences at h
  split at h
  · rename_i u hpc hprev
    split_ifs at h with hd
    cases h
    exact ⟨hpc, hprev, hd.2⟩
  · cases h

private theorem cleanupPrevious_frame {s s' : SchedState} (hs : s.cleanupPrevious c = some s') :
    s'.state = s.state ∧ s'.currentThread = s.currentThread ∧ s'.pc = s.pc ∧
      ∀ d ≠ c, s'.previousThread d = s.previousThread d := by
  unfold SchedState.cleanupPrevious at hs
  split at hs
  · cases hs
    exact ⟨rfl, rfl, rfl, fun _ _ => rfl⟩
  · split_ifs at hs <;> cases hs
    · exact ⟨rfl, rfl, rfl, fun _ _ => rfl⟩
    · exact ⟨rfl, rfl, rfl, fun _ hd => Function.update_of_ne hd ..⟩
    · exact ⟨rfl, rfl, rfl, fun _ _ => rfl⟩

/-- `ThreadCleanupPostSchedule` after the ready list has been released. -/
private theorem LifeInv.cleanup {sched : SchedState} (hi : LifeInv s)
    (hpc : s.pc c = .cleanupPrevious)
    (hs : nextSched s.toSchedState (.step c) = some sched)
    (hlast : ∀ t, s.dereferences c = some t → s.LastUse t)
    (h : s.follow { s with toSchedState := sched } (.step c) = some s') : LifeInv s' := by
  have hsched := schedInv_nextSched hi.sched hs
  have hquiet := quiet_nextSched hi.sched hi.quiet rfl hs
  have hframe := nextSched_frame (a := .step c) (fun _ _ => ⟨nofun, nofun⟩) hs
  have hstep : ∃ s₁, s.cleanupPrevious c = some s₁ ∧ s₁.goto c .run = sched := by
    simp only [nextSched] at hs
    split at hs
    · cases hs
    · simpa [hpc, cpuStep] using hs
  obtain ⟨s₁, hs₁, rfl⟩ := hstep
  obtain ⟨hstate, hcur, hpcs, hprev⟩ := cleanupPrevious_frame hs₁
  have hpc' : (s₁.goto c .run).pc = Function.update s.pc c .run := by
    rw [← hpcs]
    rfl
  have htracked : ∀ t, s.dereferences c ≠ some t → Tracked (s₁.goto c .run) (s.dropped t) t := by
    intro t ht
    exact (hi.tracked t).cleanup hpc
      (fun ha hd => ht (hi.quiet.dereferences hpc ha.1 hd)) hstate hcur hprev hpc'
  simp only [LifeState.follow, hpc] at h
  split at h
  · rename_i hnone
    cases h
    exact hi.frame (a := .step c) rfl (fun _ _ => ⟨nofun, nofun⟩) hs (fun t => htracked t (by simp [hnone]))
      s.handle (fun _ => Or.inl rfl)
  · rename_i t hsome
    obtain ⟨-, hprevt, hdying⟩ := dereferences_eq_some hsome
    have haw : s.Awaits c t := ⟨hprevt, by rw [hpc]; rfl⟩
    have hgone : s.dropped t = 0 ∧ Tracked (s₁.goto c .run) (s.dropped t + 1) t :=
      (hi.tracked t).cleanup_dying haw hdying hstate hcur hprev hpc'
    obtain ⟨h0, hgone⟩ := hgone
    have hall : s.allThreads t = true := by
      by_contra hall
      exact hi.quiet.absent t (by simpa using hall) hdying
    have href := ((hi.counted t).present hall).2
    rw [h0, if_pos rfl] at href
    have hcounted : ∀ u, Counted s' u := by
      intro u
      refine Counted.dereference h ?_ ?_ ?_ ?_ ?_ ?_ (fun hut => ?_)
      · exact (congrFun hframe.1 t).trans hall
      · exact ((hi.counted t).present hall).1
      · show (s.refCnt t).toNat = (if Function.update s.dropped t (s.dropped t + 1) t = 0 then 1
          else 0) + (s.handle t).holds.toNat + 1
        rw [Function.update_self, h0, if_neg (by omega)]
        omega
      · show s.destroyed t = 0
        rw [(hi.counted t).destroyed, if_neg]
        intro hz
        rw [hz.2] at href
        have h0 : (0 : DWORD).toNat = 0 := rfl
        omega
      · by_contra hcr
        exact hi.quiet.alive t (Or.inr (Or.inl (hframe.2.1 t hcr))) hdying
      · intro hone d hd
        rcases hframe.2.2 d t hd with hd | hsus
        · exact hlast t hsome hone d hd
        · exact hi.quiet.alive t hsus hdying
      · exact (hi.counted u).frame (congrFun hframe.1 u) (hframe.2.1 u) rfl
          (Function.update_of_ne hut ..) rfl (Or.inl rfl)
          (fun d hd => (hframe.2.2 d u hd).imp_right hi.refCnt_of_suspended)
    obtain ⟨n, hn, rfl⟩ := threadDereference_eq_some h
    refine ⟨hsched, hquiet, fun u => ?_, hcounted⟩
    show Tracked (s₁.goto c .run) (Function.update s.dropped t (s.dropped t + 1) u) u
    by_cases hut : u = t
    · subst hut
      rw [Function.update_self]
      exact hgone
    · rw [Function.update_of_ne hut]
      exact htracked u (by simp [hsome, Ne.symm hut])

/-- `_ThreadSchedule` and `ThreadExit`'s assignment, which decide about a dying thread. -/
private theorem LifeInv.tracked_step {sched : SchedState} (hi : LifeInv s)
    (hs : nextSched s.toSchedState (.step c) = some sched) (hpc : s.pc c ≠ .cleanupPrevious)
    (hfirst : s.pc c = .exitDying → ∀ t, s.currentThread c = some t → ∀ c', ¬ s.Awaits c' t) :
    ∀ t, Tracked sched (s.dropped t) t := by
  intro t
  by_cases hdec : (s.pc c).decides = false
  · have hk := keeps_nextSched (a := .step c) hi.quiet rfl
      (fun d hd => by cases hd; exact hdec) hs
    exact (hi.tracked t).keeps hk
  simp only [nextSched] at hs
  split at hs
  · cases hs
  rename_i u hcur
  cases hp : s.pc c with
  | exitDying =>
    simp only [hp, cpuStep] at hs
    cases hs
    exact (hi.tracked t).exitDying hp hcur (hfirst hp u hcur)
  | schedule caller =>
    simp only [hp, cpuStep, SchedState.threadSchedule, SchedState.threadGetReadyThread] at hs
    have hone : ∀ d, s.currentThread d = some u → d = c := fun d hd =>
      hi.sched.placed.one_cpu d c u hd hcur
    split at hs
    · simp only [Option.map_eq_some_iff] at hs
      obtain ⟨_, ⟨_, ⟨next, hidle, rfl⟩, rfl⟩, rfl⟩ := hs
      exact (hi.tracked t).schedule (by rw [hp]; rfl) hcur (hi.quiet.idle c next hidle) hone rfl rfl
        rfl rfl
    · split_ifs at hs with hready
      · cases hs
        exact (hi.tracked t).schedule (by rw [hp]; rfl) hcur (by simp [hready]) hone rfl rfl rfl rfl
      · cases hs
  | cleanupPrevious => exact absurd hp hpc
  | _ =>
    rw [hp] at hdec
    exact absurd rfl hdec

theorem nextLife_inv {a : LifeAction} (hi : LifeInv s) (hq : ExaminedFirst s a)
    (h : nextLife s a = some s') : LifeInv s' := by
  cases a with
  | closeHandle t =>
    simp only [nextLife] at h
    split_ifs at h with hopen
    exact hi.closeHandle hopen hq h
  | sched a =>
    simp only [nextLife] at h
    split_ifs at h with ha
    obtain ⟨sched, hs, h⟩ := Option.bind_eq_some_iff.mp h
    have hkeep : (∀ c, a ≠ .step c) → ∀ t, Tracked sched (s.dropped t) t := fun hstep t =>
      (hi.tracked t).keeps (keeps_nextSched hi.quiet ha (fun c hc => absurd hc (hstep c)) hs)
    cases a with
    | initMain c t =>
      cases h
      have hs' := hs
      simp only [nextSched] at hs'
      split_ifs at hs' with hnew
      cases hs'
      refine hi.init ha hs (by rintro _ ⟨⟩) hnew.2 rfl (fun _ _ => rfl) ?_ ?_ (by rintro ⟨⟩) rfl
      · intro hcr
        have := hi.sched.placed.creating t hcr
        simp [hnew.2] at this
      · intro d u hu
        by_cases hd : d = c
        · subst hd
          simp [SchedState.goto, CpuPc.unblocks] at hu
        · simpa [SchedState.goto, SchedState.setState, SchedState.threadInit,
            Function.update_of_ne hd] using hu
    | init c t =>
      simp only [LifeState.follow] at h
      split at h
      · cases h
      · rename_i n hn
        cases h
        have hs' := hs
        simp only [nextSched] at hs'
        split_ifs at hs' with hnew
        cases hs'
        refine hi.init ha hs (by rintro _ ⟨⟩) hnew.2 rfl (fun u hu => Function.update_of_ne hu ..)
          (fun _ => rfl) (fun _ _ hu => hu) (by rintro ⟨⟩) ?_
        rw [rfcReference_toNat hn]
        rfl
    | place c t =>
      have hframe := hi.frame ha (fun _ _ => ⟨(by rintro ⟨⟩), (by rintro ⟨⟩)⟩) hs (hkeep (by rintro _ ⟨⟩))
      simp only [LifeState.follow] at h
      split_ifs at h with hpc
      · cases h
        obtain ⟨hcr, hcr'⟩ := place_creating hs
        apply hframe
        intro u
        by_cases hut : u = t
        · subst hut
          exact Or.inr ⟨(hi.counted u).creating hcr, Function.update_self .., hcr'⟩
        · exact Or.inl (Function.update_of_ne hut ..)
      · cases h
        exact hframe s.handle (fun _ => Or.inl rfl)
    | yield c | wait c | idle c | exit c | unblock c t | terminate t =>
      cases h
      exact hi.frame ha (fun _ _ => ⟨(by rintro ⟨⟩), (by rintro ⟨⟩)⟩) hs (hkeep (by rintro _ ⟨⟩)) s.handle
        (fun _ => Or.inl rfl)
    | step c =>
      obtain ⟨hdying, hlast⟩ := hq
      by_cases hpc : s.pc c = .cleanupPrevious
      · exact hi.cleanup hpc hs hlast h
      have hframe := hi.frame ha (fun _ _ => ⟨(by rintro ⟨⟩), (by rintro ⟨⟩)⟩) hs
        (hi.tracked_step hs hpc hdying)
      cases hp : s.pc c with
      | unblockRelease u inExit =>
        simp only [LifeState.follow, hp] at h
        split_ifs at h with hpend
        · cases h
          apply hframe
          intro v
          by_cases hvu : v = u
          · subst hvu
            refine Or.inr ⟨hpend, Function.update_self .., ?_⟩
            have hset := (hi.sched.cpus c).unblocks v (by rw [hp]; rfl)
            by_contra hcr
            have hframe := nextSched_frame (fun _ _ => ⟨(by rintro ⟨⟩), (by rintro ⟨⟩)⟩) hs
            exact hframe.2.1 v hcr hset.2.1
          · exact Or.inl (Function.update_of_ne hvu ..)
        · cases h
          exact hframe s.handle (fun _ => Or.inl rfl)
      | cleanupPrevious => exact absurd hp hpc
      | _ =>
        simp only [LifeState.follow, hp] at h
        cases h
        exact hframe s.handle (fun _ => Or.inl rfl)

theorem LifeInv.safe (hi : LifeInv s) : LifeSafe s := by
  have hdying : ∀ t, 0 < s.dropped t → s.dropped t = 1 ∧ s.state t = .dying := by
    intro t ht
    have hone : s.dropped t = 1 := by
      have := (hi.tracked t).once
      omega
    exact ⟨hone, (hi.tracked t).dying hone⟩
  have hgone : ∀ t, 0 < s.destroyed t → s.allThreads t = true ∧ s.refCnt t = 0 ∧
      s.dropped t = 1 ∧ s.handle t = .closed := by
    intro t ht
    have hd := (hi.counted t).destroyed
    by_cases hz : s.allThreads t = true ∧ s.refCnt t = 0
    · obtain ⟨hall, hz⟩ := hz
      obtain ⟨hne, href⟩ := (hi.counted t).present hall
      have hone := (hi.tracked t).once
      rw [hz, show (0 : DWORD).toNat = 0 from rfl] at href
      refine ⟨hall, hz, ?_, ?_⟩
      · split_ifs at href <;> omega
      · cases hh : s.handle t with
        | absent => exact absurd hh hne
        | closed => rfl
        | pending | opened =>
          rw [hh] at href
          simp [HandleState.holds] at href
    · rw [if_neg hz] at hd
      omega
  refine ⟨fun t => (hi.tracked t).once, ?_, ?_, ?_, ?_, ?_, ?_⟩
  · intro t ht
    obtain ⟨hone, hd⟩ := hdying t ht
    exact ⟨hd, fun c => ((hi.tracked t).gone hone c).1⟩
  · intro t hd hout
    by_contra hne
    have hz : s.dropped t = 0 := by
      have := (hi.tracked t).once
      omega
    obtain ⟨c, hc⟩ := (hi.tracked t).remains hd hz
    rcases hc with hc | hc
    · exact (hout c).1 hc
    · exact (hout c).2 hc
  · intro t
    rw [(hi.counted t).destroyed]
    split_ifs <;> omega
  · intro t ht
    obtain ⟨-, -, hone, hclosed⟩ := hgone t ht
    exact ⟨(hi.tracked t).dying hone, hone, hclosed⟩
  · intro t hone hclosed
    have hall : s.allThreads t = true := by
      by_contra hall
      exact hi.quiet.absent t (by simpa using hall) ((hi.tracked t).dying hone)
    have href := ((hi.counted t).present hall).2
    rw [hone, hclosed] at href
    rw [(hi.counted t).destroyed, if_pos ⟨hall, dword_eq_zero.mpr href⟩]
  · intro t ht huses
    obtain ⟨hall, hz, hone, -⟩ := hgone t ht
    have hd := (hi.tracked t).dying hone
    rcases huses with hlist | hwait | hcr | ⟨c, hcur | hidle | haw | hun⟩
    · have := hi.sched.placed.ready t hlist
      rw [hd] at this
      cases this
    · exact hi.quiet.alive t (Or.inl hwait) hd
    · exact hi.quiet.alive t (Or.inr (Or.inl hcr)) hd
    · exact ((hi.tracked t).gone hone c).1 hcur
    · exact hi.quiet.idle c t hidle hd
    · exact ((hi.tracked t).gone hone c).2 haw
    · exact (hi.counted t).unused hall hz c hun

end Steps

/-- In a run in which threads die only when every CPU that switched away from them has examined
them, and lose their last reference only when `ThreadUnblock` has returned, every thread is
destroyed once, at its end, and not used afterwards. -/
theorem always_lifeSafe {tr : List (LifeState × LifeAction)} {s : LifeState}
    (h : Exec (fun s a s' => nextLife s a = some s') lifeStart tr s)
    (hq : ∀ v ∈ tr, ExaminedFirst v.1 v.2) : Always LifeSafe tr s := by
  have hinv := h.always_of_steps lifeStart_inv (fun s a s' hi hq hs => nextLife_inv hi hq hs) hq
  exact hinv.mono fun s hi => hi.safe

section Uniprocessor

variable {s s' : LifeState} {c d : Cpu}

def SchedAction.onCpu (c : Cpu) : SchedAction → Bool
  | .initMain d _ | .init d _ | .place d _ | .yield d | .wait d | .idle d | .exit d | .unblock d _
  | .step d => d = c
  | .terminate _ => false

/-- The action is made by code that CPU `c` runs. -/
def LifeAction.runsOn (c : Cpu) (s : LifeState) : LifeAction → Bool
  | .sched a => a.onCpu c
  | .closeHandle _ => s.pc c = .run

private theorem nextSched_others {s s' : SchedState} {a : SchedAction} (ha : a.onCpu c = true)
    (hs : nextSched s a = some s') (hd : d ≠ c) : s'.pc d = s.pc d := by
  cases a with
  | terminate t => cases ha
  | initMain c' t | init c' t | yield c' | exit c' | unblock c' t =>
    obtain rfl : c' = c := by simpa [SchedAction.onCpu] using ha
    simp only [nextSched] at hs
    split_ifs at hs
    cases hs
    first
      | rfl
      | exact Function.update_of_ne hd ..
  | place c' t =>
    obtain rfl : c' = c := by simpa [SchedAction.onCpu] using ha
    simp only [nextSched] at hs
    split at hs
    · cases hs
    · split_ifs at hs <;> cases hs
      · rfl
      · exact Function.update_of_ne hd ..
  | wait c' | idle c' =>
    obtain rfl : c' = c := by simpa [SchedAction.onCpu] using ha
    simp only [nextSched] at hs
    split at hs
    · cases hs
    · split_ifs at hs
      cases hs
      exact Function.update_of_ne hd ..
  | step c' =>
    obtain rfl : c' = c := by simpa [SchedAction.onCpu] using ha
    simp only [nextSched] at hs
    split at hs
    · cases hs
    · obtain ⟨q, hpc, -⟩ := cpuStep_frame hs
      rw [hpc, Function.update_of_ne hd]

private theorem follow_sched {s'' : LifeState} {a : SchedAction} (h : s.follow s' a = some s'') :
    s''.toSchedState = s'.toSchedState := by
  cases a with
  | initMain _ _ | yield _ | wait _ | idle _ | exit _ | unblock _ _ | terminate _ =>
    cases h
    rfl
  | init _ _ =>
    simp only [LifeState.follow] at h
    split at h
    · cases h
    · cases h
      rfl
  | place _ _ =>
    simp only [LifeState.follow] at h
    split_ifs at h <;> cases h <;> rfl
  | step c =>
    simp only [LifeState.follow] at h
    split at h
    · split_ifs at h <;> cases h <;> rfl
    · split at h
      · cases h
        rfl
      · obtain ⟨_, -, rfl⟩ := threadDereference_eq_some h
        rfl
    · cases h
      rfl

private theorem nextLife_others {a : LifeAction} (ha : a.runsOn c s = true)
    (h : nextLife s a = some s') (hd : d ≠ c) : s'.pc d = s.pc d := by
  cases a with
  | closeHandle t =>
    simp only [nextLife] at h
    split_ifs at h
    obtain ⟨_, -, rfl⟩ := threadDereference_eq_some h
    rfl
  | sched a =>
    simp only [nextLife] at h
    split_ifs at h
    obtain ⟨sched, hs, h⟩ := Option.bind_eq_some_iff.mp h
    rw [follow_sched h]
    exact nextSched_others ha hs hd

/-- What one CPU does while the others are off. -/
private theorem examinedFirst_of_off {a : LifeAction} (hoff : ∀ d ≠ c, s.pc d = .off)
    (ha : a.runsOn c s = true) : ExaminedFirst s a := by
  have hlast : ∀ t, (s.pc c).unblocks = none → s.LastUse t := by
    intro t hun _ d hd
    by_cases hdc : d = c
    · rw [hdc, hun] at hd
      cases hd
    · rw [hoff d hdc] at hd
      cases hd
  cases a with
  | closeHandle t =>
    have hrun : s.pc c = .run := by simpa [LifeAction.runsOn] using ha
    exact hlast t (by rw [hrun]; rfl)
  | sched a =>
    cases a with
    | step c' =>
      obtain rfl : c' = c := by simpa [LifeAction.runsOn, SchedAction.onCpu] using ha
      refine ⟨fun hpc t _ d haw => ?_, fun t ht => ?_⟩
      · by_cases hdc : d = c'
        · have hcl := haw.2
          rw [hdc, hpc] at hcl
          cases hcl
        · have hcl := haw.2
          rw [hoff d hdc] at hcl
          cases hcl
      · exact hlast t (by rw [(dereferences_eq_some ht).1]; rfl)
    | _ => trivial

/-- With one CPU running, the condition of the runs above always holds. -/
theorem examinedFirst_of_uniprocessor {tr : List (LifeState × LifeAction)}
    (h : Exec (fun s a s' => nextLife s a = some s') lifeStart tr s)
    (ha : ∀ v ∈ tr, v.2.runsOn c v.1 = true) : ∀ v ∈ tr, ExaminedFirst v.1 v.2 := by
  have hoff : Always (fun s : LifeState => ∀ d ≠ c, s.pc d = .off) tr s := by
    apply h.always_of_steps (Q := fun s a => LifeAction.runsOn c s a = true)
    · exact fun _ _ => rfl
    · intro s a s' hoff ha hs d hd
      rw [nextLife_others ha hs hd]
      exact hoff d hd
    · exact ha
  exact fun v hv => examinedFirst_of_off (hoff.1 v hv) (ha v hv)

end Uniprocessor

/-- `k` steps of CPU `c`. -/
def steps (c : Cpu) (k : ℕ) : List LifeAction :=
  List.replicate k (.sched (.step c))

/-- A CPU boots with main thread `t` and creates its idle thread `u`. -/
def bootCpu (c : Cpu) (t u : Tid) : List LifeAction :=
  [.sched (.initMain c t), .sched (.init c u), .sched (.place c u)]

/-- Thread 2 is created, runs and exits on one CPU, and its handle is closed. -/
def createAndExit (c : Cpu) : List LifeAction :=
  bootCpu c 0 1 ++ [.sched (.init c 2), .sched (.place c 2)] ++ steps c 6 ++
    [.sched (.yield c)] ++ steps c 6 ++ [.sched (.exit c)] ++ steps c 7 ++ [.closeHandle 2]

theorem createAndExit_safe :
    ∃ h : (exec nextLife lifeStart (createAndExit ⟨0⟩)).isSome,
      ((exec nextLife lifeStart (createAndExit ⟨0⟩)).get h).2.destroyed 2 = 1 ∧
      Always LifeSafe ((exec nextLife lifeStart (createAndExit ⟨0⟩)).get h).1
        ((exec nextLife lifeStart (createAndExit ⟨0⟩)).get h).2 :=
  ⟨by decide, by decide, always_lifeSafe (exec_get (by decide))
    (examinedFirst_of_uniprocessor (c := ⟨0⟩) (exec_get (by decide)) (by decide))⟩

/-- CPU 0 switches away from thread 4 and releases the ready list; CPU 1 runs thread 4, which sets
itself dying before CPU 0 examines it. -/
def examinedLate : List LifeAction :=
  bootCpu ⟨0⟩ 0 1 ++ bootCpu ⟨1⟩ 2 3 ++ [.sched (.init ⟨0⟩ 4), .sched (.place ⟨0⟩ 4)] ++
    steps ⟨0⟩ 6 ++ [.sched (.yield ⟨0⟩)] ++ steps ⟨0⟩ 6 ++ [.sched (.yield ⟨0⟩)] ++ steps ⟨0⟩ 5 ++
    [.sched (.yield ⟨1⟩)] ++ steps ⟨1⟩ 6 ++ [.sched (.exit ⟨1⟩)] ++ steps ⟨1⟩ 2 ++
    steps ⟨0⟩ 1 ++ [.closeHandle 4]

private theorem examinedLate_runs : (exec nextLife lifeStart examinedLate).isSome := by
  decide

theorem thread_destroyed_early : ∃ tr s,
    Exec (fun s a s' => nextLife s a = some s') lifeStart tr s ∧
      s.currentThread ⟨1⟩ = some 4 ∧ s.destroyed 4 = 1 ∧ ¬ LifeSafe s := by
  have hcur : ((exec nextLife lifeStart examinedLate).get examinedLate_runs).2.currentThread ⟨1⟩ =
      some 4 := by decide
  refine ⟨_, _, exec_get examinedLate_runs, hcur, by decide, fun hs => ?_⟩
  exact hs.unused 4 (by decide) (Or.inr (Or.inr (Or.inr ⟨⟨1⟩, Or.inl hcur⟩)))

end HAL9000.Thread
