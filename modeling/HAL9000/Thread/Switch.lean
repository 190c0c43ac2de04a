import HAL9000.Thread.Placement

/-! Switching and creating threads keeps every thread in its place. -/
namespace HAL9000.Thread

section Switch

variable {s s' : SchedState} {c : Cpu} {t : Tid}

/-- `c` switches to `t` inside the critical section of `ReadyThreadsLock`. -/
private theorem SchedInv.switch (h : SchedInv s) {caller : ScheduleCaller} {list left : List Tid}
    (hpc : s.pc c = .schedule caller)
    (hplaced : Placed { s.toPlacement with
      readyThreadsList := list, left := left,
      currentThread := Function.update s.currentThread c (some t) })
    (hsub : list ⊆ s.readyThreadsList) (hout : t ∉ list)
    (hblock : s.state t = .blocked → s.idleThread c = some t) :
    SchedInv ({ s with
      readyThreadsList := list, left := left,
      currentThread := Function.update s.currentThread c (some t),
      previousThread := Function.update s.previousThread c (s.currentThread c) }.goto c
        .cleanupUnlock) := by
  have hlock : s.readyThreadsLock = some c := (h.cpus c).lock.mp (by rw [hpc]; rfl)
  refine SchedInv.of_self (c := c) hplaced ?_ ?_
  · constructor <;> simp only [SchedState.goto, Function.update_self]
    · exact iff_of_true rfl hlock
    · intro u heq hmem
      cases heq
      exact absurd hmem hout
    · intro u heq
      cases heq
    · intro u heq hb
      cases heq
      exact Or.inl (hblock hb)
    · intro u _ heq
      cases heq
    · intro u heq
      cases heq
    · intro u heq
      cases heq
  · intro c' hne
    have hc' := h.cpus c'
    exact hc'.frame (Function.update_of_ne hne ..) (Function.update_of_ne hne ..) Iff.rfl
      (fun _ _ hm => hsub hm) hc'.unblocks (fun _ _ hb => hb) (fun _ hi => hi) (fun _ hb => hb)
      hc'.asserted

theorem SchedInv.schedule (h : SchedInv s) {caller : ScheduleCaller}
    (hpc : s.pc c = .schedule caller) (hs : s.threadSchedule c = some s') :
    SchedInv (s'.goto c .cleanupUnlock) := by
  unfold SchedState.threadSchedule SchedState.threadGetReadyThread at hs
  split at hs
  · rename_i hnil
    simp only [Option.map_eq_some_iff] at hs
    obtain ⟨_, ⟨t, hidle, rfl⟩, rfl⟩ := hs
    refine h.switch hpc (h.placed.setCurrent ?_ (h.placed.idle c t hidle) ?_) (List.Subset.refl _)
      (by simp [hnil]) (fun _ => hidle)
    · exact fun c' hne hcur => hne (h.placed.idle_current c c' t hidle hcur)
    · exact fun c' hidle' => h.placed.idle_once c c' t hidle hidle'
  · rename_i t rest hlist
    have hmem : t ∈ s.readyThreadsList := by simp [hlist]
    have hset := h.placed.listed t hmem
    have hnodup := h.placed.nodup
    rw [hlist, List.nodup_cons] at hnodup
    split_ifs at hs with hready
    swap
    · cases hs
    cases hs
    refine h.switch hpc ((h.placed.removeHead hlist).setCurrent ?_ ⟨hset.1, hset.2.1⟩ ?_)
      (by simp [hlist]) hnodup.1 (by simp [hready])
    · intro c' hne hcur
      have hsched := (h.cpus c').listed t hcur hmem
      have hlock := (h.cpus c').lock.mp (CpuPc.locked_of_scheduling hsched)
      rw [(h.cpus c).lock.mp (by rw [hpc]; rfl)] at hlock
      exact hne (Option.some.inj hlock).symm
    · exact fun c' hidle => absurd hidle (hset.2.2 c')

end Switch

/-- A thread that no list, CPU or caller of `ThreadUnblock` knows. -/
structure Unplaced (s : SchedState) (t : Tid) : Prop where
  not_listed : t ∉ s.readyThreadsList
  not_waiting : s.waiting t = false
  not_current : ∀ c, s.currentThread c ≠ some t
  not_idle : ∀ c, s.idleThread c ≠ some t
  not_unblocked : ∀ c, (s.pc c).unblocks ≠ some t

section Creation

variable {s s' : SchedState} {c pCpu : Cpu} {t : Tid}

theorem SchedInv.unplaced_of_not_settled (h : SchedInv s)
    (ht : ¬ (s.allThreads t = true ∧ s.creating t = none)) : Unplaced s t where
  not_listed hmem := ht ⟨(h.placed.listed t hmem).1, (h.placed.listed t hmem).2.1⟩
  not_waiting := by
    by_contra hw
    have hset := h.placed.waiting t (by simpa using hw)
    exact ht ⟨hset.1, hset.2.1⟩
  not_current c hcur := ht (h.placed.current c t hcur)
  not_idle c hidle := ht (h.placed.idle c t hidle)
  not_unblocked c hun := by
    have hset := (h.cpus c).unblocks t hun
    exact ht ⟨hset.1, hset.2.1⟩

/-- Whatever is done to a thread that nobody knows leaves the others where they are. -/
theorem SchedInv.of_unplaced (h : SchedInv s) (ht : Unplaced s t) {allThreads : Tid → Bool}
    {state : Tid → ThreadState} {creating blockLock : Tid → Option Cpu} {flags : Tid → DWORD}
    (hnew : allThreads t = true)
    (hsame : ∀ u ≠ t, allThreads u = s.allThreads u ∧ state u = s.state u ∧
      creating u = s.creating u ∧ blockLock u = s.blockLock u) :
    SchedInv { s with
      allThreads := allThreads, state := state, creating := creating, blockLock := blockLock,
      flags := flags } := by
  have hset : ∀ u ≠ t, Settled s.toPlacement u →
      allThreads u = true ∧ creating u = none ∧ ∀ c, s.idleThread c ≠ some u := by
    intro u hu hset
    obtain ⟨hall, _, hcr, _⟩ := hsame u hu
    exact ⟨hall.trans hset.1, hcr.trans hset.2.1, hset.2.2⟩
  have hlisted : ∀ u ∈ s.readyThreadsList, u ≠ t := by
    intro u hu heq
    subst heq
    exact ht.not_listed hu
  have hcurrent : ∀ c u, s.currentThread c = some u → u ≠ t := by
    intro c u hu heq
    subst heq
    exact ht.not_current c hu
  have hunblocked : ∀ c u, (s.pc c).unblocks = some u → u ≠ t := by
    intro c u hu heq
    subst heq
    exact ht.not_unblocked c hu
  refine ⟨?_, fun c => ?_⟩
  · have hp := h.placed
    constructor
    · exact hp.nodup
    · intro u hu
      exact (hsame u (hlisted u hu)).2.1.trans (hp.ready u hu)
    · exact fun u hu => hset u (hlisted u hu) (hp.listed u hu)
    · exact hp.one_cpu
    · intro c u hu
      obtain ⟨hall, _, hcr, _⟩ := hsame u (hcurrent c u hu)
      obtain ⟨hall', hcr'⟩ := hp.current c u hu
      exact ⟨hall.trans hall', hcr.trans hcr'⟩
    · intro c u hu
      have hut : u ≠ t := by
        intro heq
        subst heq
        exact ht.not_idle c hu
      obtain ⟨hall, _, hcr, _⟩ := hsame u hut
      obtain ⟨hall', hcr'⟩ := hp.idle c u hu
      exact ⟨hall.trans hall', hcr.trans hcr'⟩
    · exact hp.idle_current
    · exact hp.idle_once
    · intro u hu
      have hut : u ≠ t := by
        intro heq
        subst heq
        simp [ht.not_waiting] at hu
      exact hset u hut (hp.waiting u hu)
    · intro u hu
      by_cases hut : u = t
      · exact hut ▸ hnew
      · obtain ⟨hall, _, hcr, _⟩ := hsame u hut
        exact hall.trans (hp.creating u (fun hn => hu (hcr.trans hn)))
    · exact hp.fifo
  · have hc := h.cpus c
    have hheld : ∀ u, (s.pc c).holdsBlock = some u → u ≠ t := fun u hu =>
      hunblocked c u (CpuPc.unblocks_of_holdsBlock hu)
    constructor
    · exact hc.lock
    · exact hc.listed
    · exact fun u hu => hset u (hunblocked c u hu) (hc.unblocks u hu)
    · intro u hu hb
      exact hc.blocked u hu ((hsame u (hcurrent c u hu)).2.1.symm.trans hb)
    · intro u hu ho
      exact (hsame u (hcurrent c u hu)).2.2.2.trans (hc.owns u hu ho)
    · intro u hu
      exact (hsame u (hheld u hu)).2.2.2.trans (hc.holds u hu)
    · intro u hu
      have hut := hheld u (CpuPc.holdsBlock_of_asserted hu)
      exact (hsame u hut).2.1.trans (hc.asserted u hu)

/-- The first thread a CPU creates becomes its idle thread. -/
theorem SchedInv.setIdle (h : SchedInv s) (ht : Unplaced s t)
    (hall : s.allThreads t = true ∧ s.creating t = none) (hnone : s.idleThread pCpu = none) :
    SchedInv { s with idleThread := Function.update s.idleThread pCpu (some t) } := by
  have hidle : ∀ c u, Function.update s.idleThread pCpu (some t) c = some u →
      s.idleThread c = some u ∨ c = pCpu ∧ u = t := by
    intro c u hu
    by_cases hc : c = pCpu
    · rw [hc, Function.update_self] at hu
      exact Or.inr ⟨hc, (Option.some.inj hu).symm⟩
    · rw [Function.update_of_ne hc] at hu
      exact Or.inl hu
  have hset : ∀ u ≠ t, Settled s.toPlacement u → s.allThreads u = true ∧ s.creating u = none ∧
      ∀ c, Function.update s.idleThread pCpu (some t) c ≠ some u := by
    intro u hu hset
    refine ⟨hset.1, hset.2.1, fun c hc => ?_⟩
    rcases hidle c u hc with hc | ⟨_, hut⟩
    · exact hset.2.2 c hc
    · exact hu hut
  refine ⟨?_, fun c => ?_⟩
  · have hp := h.placed
    constructor
    · exact hp.nodup
    · exact hp.ready
    · exact fun u hu => hset u (fun hut => ht.not_listed (hut ▸ hu)) (hp.listed u hu)
    · exact hp.one_cpu
    · exact hp.current
    · intro c u hu
      rcases hidle c u hu with hu | ⟨_, rfl⟩
      · exact hp.idle c u hu
      · exact hall
    · intro c c' u hu hcur
      rcases hidle c u hu with hu | ⟨_, rfl⟩
      · exact hp.idle_current c c' u hu hcur
      · exact absurd hcur (ht.not_current c')
    · intro c c' u hu hu'
      rcases hidle c u hu with hold | ⟨hc, rfl⟩
      · rcases hidle c' u hu' with hold' | ⟨_, rfl⟩
        · exact hp.idle_once c c' u hold hold'
        · exact absurd hold (ht.not_idle c)
      · rcases hidle c' u hu' with hold' | ⟨hc', _⟩
        · exact absurd hold' (ht.not_idle c')
        · exact hc'.trans hc.symm
    · intro u hu
      refine hset u ?_ (hp.waiting u hu)
      intro heq
      subst heq
      simp [ht.not_waiting] at hu
    · exact hp.creating
    · exact hp.fifo
  · have hc := h.cpus c
    constructor
    · exact hc.lock
    · exact hc.listed
    · exact fun u hu => hset u (fun hut => ht.not_unblocked c (hut ▸ hu)) (hc.unblocks u hu)
    · intro u hu hb
      refine (hc.blocked u hu hb).imp_left fun hi => ?_
      have hne : c ≠ pCpu := by
        intro heq
        subst heq
        simp [hnone] at hi
      simpa [Function.update_of_ne hne] using hi
    · exact hc.owns
    · exact hc.holds
    · exact hc.asserted

/-- The main thread of a CPU is its first current thread. -/
theorem SchedInv.start (h : SchedInv s) (ht : Unplaced s t)
    (hall : s.allThreads t = true ∧ s.creating t = none) (hstate : s.state t ≠ .blocked)
    (hpc : s.pc c = .off) :
    SchedInv { s.goto c .run with
      currentThread := Function.update s.currentThread c (some t) } := by
  have hlock : s.readyThreadsLock ≠ some c := by
    intro hl
    have := (h.cpus c).lock.mpr hl
    rw [hpc] at this
    cases this
  refine SchedInv.of_self (c := c) (h.placed.setCurrent (fun c' _ => ht.not_current c') hall
    (fun c' hi => absurd hi (ht.not_idle c'))) ?_ ?_
  · constructor <;> simp only [SchedState.goto, Function.update_self]
    · exact iff_of_false (by simp [CpuPc.locked]) hlock
    · intro u heq hmem
      cases heq
      exact absurd hmem ht.not_listed
    · intro u heq
      cases heq
    · intro u heq hb
      cases heq
      exact absurd hb hstate
    · intro u _ heq
      cases heq
    · intro u heq
      cases heq
    · intro u heq
      cases heq
  · intro c' hne
    have hc' := h.cpus c'
    exact hc'.frame (Function.update_of_ne hne ..) (Function.update_of_ne hne ..) Iff.rfl
      (fun _ _ hm => hm) hc'.unblocks (fun _ _ hb => hb) (fun _ hi => hi) (fun _ hb => hb)
      hc'.asserted

end Creation

end HAL9000.Thread
