import HAL9000.Thread.Scheduler

/-! Where threads can be: in the ready list, current on one CPU, blocked or being unblocked. -/
namespace HAL9000.Thread

namespace CpuPc

/-- The CPU holds `ReadyThreadsLock`. -/
def locked : CpuPc → Bool
  | .yieldInsert | .schedule _ | .cleanupUnlock | .unblockInsert _ _ | .unblockUnlock _ _ => true
  | _ => false

def scheduling : CpuPc → Bool
  | .schedule _ => true
  | _ => false

/-- The current thread blocks and owns its block lock. -/
def ownsBlock : CpuPc → Bool
  | .blockTest | .scheduleLock .block | .schedule .block => true
  | _ => false

/-- The current thread has the state of a blocked thread already. -/
def blocking : CpuPc → Bool
  | .scheduleLock .block | .schedule .block => true
  | _ => false

/-- The thread `ThreadUnblock` is about. -/
def unblocks : CpuPc → Option Tid
  | .unblockTake u _ | .unblockAssert u _ | .unblockLock u _ | .unblockInsert u _
  | .unblockUnlock u _ | .unblockRelease u _ => some u
  | _ => none

/-- The thread whose block lock `ThreadUnblock` holds. -/
def holdsBlock : CpuPc → Option Tid
  | .unblockAssert u _ | .unblockLock u _ | .unblockInsert u _ | .unblockUnlock u _
  | .unblockRelease u _ => some u
  | _ => none

/-- The thread that `ThreadUnblock` has found blocked. -/
def asserted : CpuPc → Option Tid
  | .unblockLock u _ | .unblockInsert u _ => some u
  | _ => none

end CpuPc

section Pc

variable {p : CpuPc} {u : Tid}

theorem CpuPc.locked_of_scheduling (h : p.scheduling = true) : p.locked = true := by
  cases p <;> simp_all [scheduling, locked]

theorem CpuPc.ownsBlock_of_blocking (h : p.blocking = true) : p.ownsBlock = true := by
  cases p with
  | scheduleLock k => cases k <;> simp_all [blocking, ownsBlock]
  | schedule k => cases k <;> simp_all [blocking, ownsBlock]
  | _ => cases h

theorem CpuPc.holdsBlock_of_asserted (h : p.asserted = some u) : p.holdsBlock = some u := by
  cases p <;> simp_all [asserted, holdsBlock]

theorem CpuPc.unblocks_of_holdsBlock (h : p.holdsBlock = some u) : p.unblocks = some u := by
  cases p <;> simp_all [unblocks, holdsBlock]

theorem CpuPc.blocking_of_asserted (h : p.asserted = some u) : p.blocking = false := by
  cases p <;> simp_all [asserted, blocking]

end Pc

/-- A thread that exists, is not being created any more and is no idle thread. -/
def Settled (p : Placement) (t : Tid) : Prop :=
  p.allThreads t = true ∧ p.creating t = none ∧ ∀ c, p.idleThread c ≠ some t

/-- What holds of the places of threads at every step of every CPU. -/
structure Placed (p : Placement) : Prop where
  nodup : p.readyThreadsList.Nodup
  ready : ∀ t ∈ p.readyThreadsList, p.state t = .ready
  listed : ∀ t ∈ p.readyThreadsList, Settled p t
  one_cpu : ∀ c c' t, p.currentThread c = some t → p.currentThread c' = some t → c = c'
  current : ∀ c t, p.currentThread c = some t → p.allThreads t = true ∧ p.creating t = none
  idle : ∀ c t, p.idleThread c = some t → p.allThreads t = true ∧ p.creating t = none
  idle_current : ∀ c c' t, p.idleThread c = some t → p.currentThread c' = some t → c' = c
  idle_once : ∀ c c' t, p.idleThread c = some t → p.idleThread c' = some t → c' = c
  waiting : ∀ t, p.waiting t = true → Settled p t
  creating : ∀ t, p.creating t ≠ none → p.allThreads t = true
  fifo : p.entered = p.left ++ p.readyThreadsList

section Placed

variable {p : Placement} {t : Tid}

theorem Placed.setState (h : Placed p) {state : ThreadState} (ht : t ∉ p.readyThreadsList) :
    Placed { p with state := Function.update p.state t state } where
  nodup := h.nodup
  ready u hu := by
    have hut : u ≠ t := fun hut => ht (hut ▸ hu)
    simpa [Function.update_of_ne hut] using h.ready u hu
  listed := h.listed
  one_cpu := h.one_cpu
  current := h.current
  idle := h.idle
  idle_current := h.idle_current
  idle_once := h.idle_once
  waiting := h.waiting
  creating := h.creating
  fifo := h.fifo

theorem Placed.insertReady (h : Placed p) (ht : t ∉ p.readyThreadsList) (hset : Settled p t) :
    Placed { p with
      readyThreadsList := p.readyThreadsList ++ [t]
      entered := p.entered ++ [t]
      state := Function.update p.state t .ready } where
  nodup := List.nodup_append.mpr ⟨h.nodup, by simp, by grind⟩
  ready u hu := by
    by_cases hut : u = t
    · simp [hut]
    · simp only [List.mem_append, List.mem_singleton, hut, or_false] at hu
      simpa [Function.update_of_ne hut] using h.ready u hu
  listed u hu := by
    rcases List.mem_append.mp hu with hu | hu
    · exact h.listed u hu
    · exact List.mem_singleton.mp hu ▸ hset
  one_cpu := h.one_cpu
  current := h.current
  idle := h.idle
  idle_current := h.idle_current
  idle_once := h.idle_once
  waiting := h.waiting
  creating := h.creating
  fifo := by
    show p.entered ++ [t] = p.left ++ (p.readyThreadsList ++ [t])
    rw [h.fifo, List.append_assoc]

theorem Placed.removeHead (h : Placed p) {rest : List Tid} (hlist : p.readyThreadsList = t :: rest) :
    Placed { p with readyThreadsList := rest, left := p.left ++ [t] } where
  nodup := by
    have := h.nodup
    rw [hlist] at this
    exact this.of_cons
  ready u hu := h.ready u (by simp [hlist, show u ∈ rest from hu])
  listed u hu := h.listed u (by simp [hlist, show u ∈ rest from hu])
  one_cpu := h.one_cpu
  current := h.current
  idle := h.idle
  idle_current := h.idle_current
  idle_once := h.idle_once
  waiting := h.waiting
  creating := h.creating
  fifo := by
    show p.entered = p.left ++ [t] ++ rest
    rw [h.fifo, hlist]
    simp

theorem Placed.setCurrent (h : Placed p) {c : Cpu} (hfree : ∀ c' ≠ c, p.currentThread c' ≠ some t)
    (hall : p.allThreads t = true ∧ p.creating t = none)
    (hidle : ∀ c', p.idleThread c' = some t → c' = c) :
    Placed { p with currentThread := Function.update p.currentThread c (some t) } where
  nodup := h.nodup
  ready := h.ready
  listed := h.listed
  one_cpu c₁ c₂ u h₁ h₂ := by
    simp only [Function.update_apply] at h₁ h₂
    have hone := h.one_cpu c₁ c₂ u
    have hfree₁ := hfree c₁
    have hfree₂ := hfree c₂
    grind
  current c₁ u h₁ := by
    by_cases hc : c₁ = c
    · obtain rfl : t = u := by simpa [hc] using h₁
      exact hall
    · exact h.current c₁ u (by simpa [Function.update_of_ne hc] using h₁)
  idle := h.idle
  idle_current c₁ c₂ u h₁ h₂ := by
    by_cases hc : c₂ = c
    · obtain rfl : t = u := by simpa [hc] using h₂
      exact hc.trans (hidle c₁ h₁).symm
    · exact h.idle_current c₁ c₂ u h₁ (by simpa [Function.update_of_ne hc] using h₂)
  idle_once := h.idle_once
  waiting := h.waiting
  creating := h.creating
  fifo := h.fifo

end Placed

/-- What a CPU relies on where it stands. -/
structure CpuOk (s : SchedState) (c : Cpu) : Prop where
  lock : (s.pc c).locked = true ↔ s.readyThreadsLock = some c
  listed : ∀ t, s.currentThread c = some t → t ∈ s.readyThreadsList → (s.pc c).scheduling = true
  unblocks : ∀ t, (s.pc c).unblocks = some t → Settled s.toPlacement t
  blocked : ∀ t, s.currentThread c = some t → s.state t = .blocked →
    s.idleThread c = some t ∨ (s.pc c).blocking = true
  owns : ∀ t, s.currentThread c = some t → (s.pc c).ownsBlock = true → s.blockLock t = some c
  holds : ∀ t, (s.pc c).holdsBlock = some t → s.blockLock t = some c
  asserted : ∀ t, (s.pc c).asserted = some t → s.state t = .blocked

structure SchedInv (s : SchedState) : Prop where
  placed : Placed s.toPlacement
  cpus : ∀ c, CpuOk s c

theorem SchedInv.safe {s : SchedState} (h : SchedInv s) : SchedSafe s where
  nodup := h.placed.nodup
  listed_current c t hcur ht := by
    have hs := (h.cpus c).listed t hcur ht
    refine ⟨(h.cpus c).lock.mp (CpuPc.locked_of_scheduling hs), ?_⟩
    cases hpc : s.pc c with
    | schedule caller => exact ⟨caller, rfl⟩
    | _ =>
      rw [hpc] at hs
      cases hs
  one_cpu := h.placed.one_cpu
  ready := h.placed.ready
  idle_not_listed c t hidle ht := (h.placed.listed t ht).2.2 c hidle
  fifo := h.placed.fifo

theorem schedStart_inv : SchedInv schedStart where
  placed := by constructor <;> simp [schedStart]
  cpus c := by constructor <;> simp [schedStart, CpuPc.locked, CpuPc.unblocks, CpuPc.holdsBlock,
    CpuPc.asserted]

section Facts

variable {s : SchedState} {c c' : Cpu} {t u : Tid}

theorem SchedInv.not_listed (h : SchedInv s) (hcur : s.currentThread c = some t)
    (hpc : (s.pc c).scheduling = false) : t ∉ s.readyThreadsList := by
  intro ht
  have := (h.cpus c).listed t hcur ht
  simp [hpc] at this

theorem SchedInv.settled (h : SchedInv s) (hcur : s.currentThread c = some t)
    (hidle : s.idleThread c ≠ some t) : Settled s.toPlacement t := by
  obtain ⟨hall, hnew⟩ := h.placed.current c t hcur
  refine ⟨hall, hnew, fun c' hc' => ?_⟩
  obtain rfl := h.placed.idle_current c' c t hc' hcur
  exact hidle hc'

theorem SchedInv.asserted_settled (h : SchedInv s) (hu : (s.pc c).asserted = some u) :
    Settled s.toPlacement u :=
  (h.cpus c).unblocks u (CpuPc.unblocks_of_holdsBlock (CpuPc.holdsBlock_of_asserted hu))

/-- A thread found blocked under its block lock runs nowhere. -/
theorem SchedInv.asserted_not_current (h : SchedInv s) (hu : (s.pc c).asserted = some u) :
    s.currentThread c' ≠ some u := by
  intro hcur
  rcases (h.cpus c').blocked u hcur ((h.cpus c).asserted u hu) with hidle | hblock
  · exact (h.asserted_settled hu).2.2 c' hidle
  · have howns := (h.cpus c').owns u hcur (CpuPc.ownsBlock_of_blocking hblock)
    rw [(h.cpus c).holds u (CpuPc.holdsBlock_of_asserted hu)] at howns
    cases howns
    simp [CpuPc.blocking_of_asserted hu] at hblock

theorem SchedInv.holdsBlock_unique (h : SchedInv s) (hu : (s.pc c).holdsBlock = some u)
    (hu' : (s.pc c').holdsBlock = some u) : c' = c := by
  have hc := (h.cpus c).holds u hu
  rw [(h.cpus c').holds u hu'] at hc
  exact Option.some.inj hc

end Facts

section Frame

variable {s s' : SchedState} {c c' : Cpu}

/-- What a CPU relies on while another one steps. -/
theorem CpuOk.frame (h : CpuOk s c') (hpc : s'.pc c' = s.pc c')
    (hcur : s'.currentThread c' = s.currentThread c')
    (hlock : s'.readyThreadsLock = some c' ↔ s.readyThreadsLock = some c')
    (hlist : ∀ t, s.currentThread c' = some t → t ∈ s'.readyThreadsList → t ∈ s.readyThreadsList)
    (hset : ∀ t, (s.pc c').unblocks = some t → Settled s'.toPlacement t)
    (hstate : ∀ t, s.currentThread c' = some t → s'.state t = .blocked → s.state t = .blocked)
    (hidle : ∀ t, s.idleThread c' = some t → s'.idleThread c' = some t)
    (hblock : ∀ t, s.blockLock t = some c' → s'.blockLock t = some c')
    (hass : ∀ t, (s.pc c').asserted = some t → s'.state t = .blocked) : CpuOk s' c' where
  lock := by rw [hpc, hlock, h.lock]
  listed t ht hmem := by
    rw [hcur] at ht
    rw [hpc]
    exact h.listed t ht (hlist t ht hmem)
  unblocks t ht := by
    rw [hpc] at ht
    exact hset t ht
  blocked t ht hb := by
    rw [hcur] at ht
    rw [hpc]
    exact (h.blocked t ht (hstate t ht hb)).imp_left (hidle t)
  owns t ht ho := by
    rw [hcur] at ht
    rw [hpc] at ho
    exact hblock t (h.owns t ht ho)
  holds t ht := by
    rw [hpc] at ht
    exact hblock t (h.holds t ht)
  asserted t ht := by
    rw [hpc] at ht
    exact hass t ht

/-- The invariant after a step of `c`. -/
theorem SchedInv.of_self (hplaced : Placed s'.toPlacement) (hself : CpuOk s' c)
    (hothers : ∀ c' ≠ c, CpuOk s' c') : SchedInv s' := by
  refine ⟨hplaced, fun c' => ?_⟩
  by_cases hc : c' = c
  · exact hc ▸ hself
  · exact hothers c' hc

end Frame

/-- A place relies on no more than another one. -/
structure CpuPc.Leads (p q : CpuPc) : Prop where
  scheduling : p.scheduling = true → q.scheduling = true
  blocking : p.blocking = true → q.blocking = true
  ownsBlock : q.ownsBlock = true → p.ownsBlock = true
  holdsBlock : ∀ u, q.holdsBlock = some u → p.holdsBlock = some u

section Steps

variable {s s' : SchedState} {c : Cpu} {t : Tid} {p : CpuPc}

/-- The invariant after a step that only moves `c`, taking or releasing `ReadyThreadsLock`. -/
theorem SchedInv.goto (h : SchedInv s) {lock : Option Cpu} {flags : Tid → DWORD}
    (hothers : ∀ c' ≠ c, lock = some c' ↔ s.readyThreadsLock = some c')
    (hlock : p.locked = true ↔ lock = some c) (hleads : (s.pc c).Leads p)
    (hun : ∀ u, p.unblocks = some u → Settled s.toPlacement u)
    (hass : ∀ u, p.asserted = some u → s.state u = .blocked) :
    SchedInv ({ s with readyThreadsLock := lock, flags := flags }.goto c p) := by
  have hc := h.cpus c
  refine SchedInv.of_self (c := c) h.placed ?_ ?_
  · constructor <;> simp only [SchedState.goto, Function.update_self]
    · exact hlock
    · exact fun u hu hmem => hleads.scheduling (hc.listed u hu hmem)
    · exact hun
    · exact fun u hu hb => (hc.blocked u hu hb).imp_right hleads.blocking
    · exact fun u hu ho => hc.owns u hu (hleads.ownsBlock ho)
    · exact fun u hu => hc.holds u (hleads.holdsBlock u hu)
    · exact hass
  · intro c' hne
    have hc' := h.cpus c'
    exact hc'.frame (Function.update_of_ne hne ..) rfl (hothers c' hne) (fun _ _ hm => hm)
      hc'.unblocks (fun _ _ hb => hb) (fun _ hi => hi) (fun _ hb => hb) hc'.asserted

/-- The invariant after a step that only moves `c` between places that hold the same locks. -/
theorem SchedInv.move (h : SchedInv s) {p q : CpuPc} {flags : Tid → DWORD} (hpc : s.pc c = p)
    (hleads : p.Leads q) (hlock : p.locked = q.locked) (hun : q.unblocks = none)
    (hass : q.asserted = none) : SchedInv ({ s with flags := flags }.goto c q) := by
  have hc := (h.cpus c).lock
  rw [hpc, hlock] at hc
  exact h.goto (fun _ _ => Iff.rfl) hc (hpc ▸ hleads) (by simp [hun]) (by simp [hass])

/-- A step of `c` that changes the state of its own current thread, which is not listed. -/
theorem SchedInv.setState (h : SchedInv s) {state : ThreadState}
    (hcur : s.currentThread c = some t) (hout : t ∉ s.readyThreadsList)
    (hleads : (s.pc c).Leads p) (hlock : (s.pc c).locked = p.locked) (hun : p.unblocks = none)
    (hass : p.asserted = none) (hstate : state = .blocked → p.blocking = true) :
    SchedInv ((s.setState t state).goto c p) := by
  have hc := h.cpus c
  refine SchedInv.of_self (c := c) (h.placed.setState hout) ?_ ?_
  · constructor <;> simp only [SchedState.goto, SchedState.setState, Function.update_self]
    · rw [← hlock]
      exact hc.lock
    · exact fun u hu hmem => hleads.scheduling (hc.listed u hu hmem)
    · simp [hun]
    · intro u hu hb
      obtain rfl : t = u := Option.some.inj (hcur.symm.trans hu)
      rw [Function.update_self] at hb
      exact Or.inr (hstate hb)
    · exact fun u hu ho => hc.owns u hu (hleads.ownsBlock ho)
    · exact fun u hu => hc.holds u (hleads.holdsBlock u hu)
    · simp [hass]
  · intro c' hne
    have hc' := h.cpus c'
    refine hc'.frame (Function.update_of_ne hne ..) rfl Iff.rfl (fun _ _ hm => hm)
      hc'.unblocks (fun u hu hb => ?_) (fun _ hi => hi) (fun _ hb => hb) (fun u hu => ?_)
    · have hut : u ≠ t := by
        intro heq
        subst heq
        exact hne (h.placed.one_cpu c' c u hu hcur)
      simpa [SchedState.goto, SchedState.setState, Function.update_of_ne hut] using hb
    · have hut : u ≠ t := by
        intro heq
        subst heq
        exact h.asserted_not_current hu hcur
      simpa [SchedState.goto, SchedState.setState, Function.update_of_ne hut] using hc'.asserted u hu

/-- A step of `c` that links a thread which runs nowhere, or is just being replaced on `c`. -/
theorem SchedInv.insertReady (h : SchedInv s) (hset : Settled s.toPlacement t)
    (hout : t ∉ s.readyThreadsList)
    (hcur : ∀ c', s.currentThread c' = some t → c' = c ∧ p.scheduling = true)
    (hothers : ∀ c' ≠ c, (s.pc c').asserted ≠ some t) (hleads : (s.pc c).Leads p)
    (hlock : (s.pc c).locked = p.locked)
    (hun : ∀ u, p.unblocks = some u → Settled s.toPlacement u) (hass : p.asserted = none) :
    SchedInv (((s.insertReady t).setState t .ready).goto c p) := by
  have hc := h.cpus c
  have hstate : ∀ u, Function.update s.state t .ready u = .blocked → s.state u = .blocked := by
    intro u hu
    by_cases hut : u = t
    · simp [hut] at hu
    · simpa [Function.update_of_ne hut] using hu
  refine SchedInv.of_self (c := c) (h.placed.insertReady hout hset) ?_ ?_
  · constructor <;> simp only [SchedState.goto, SchedState.setState, SchedState.insertReady,
      Function.update_self]
    · rw [← hlock]
      exact hc.lock
    · intro u hu hmem
      rcases List.mem_append.mp hmem with hmem | hmem
      · exact hleads.scheduling (hc.listed u hu hmem)
      · exact (hcur c (List.mem_singleton.mp hmem ▸ hu)).2
    · exact hun
    · exact fun u hu hb => (hc.blocked u hu (hstate u hb)).imp_right hleads.blocking
    · exact fun u hu ho => hc.owns u hu (hleads.ownsBlock ho)
    · exact fun u hu => hc.holds u (hleads.holdsBlock u hu)
    · simp [hass]
  · intro c' hne
    have hc' := h.cpus c'
    refine hc'.frame (Function.update_of_ne hne ..) rfl Iff.rfl (fun u hu hm => ?_)
      hc'.unblocks (fun u _ hb => hstate u hb) (fun _ hi => hi) (fun _ hb => hb) (fun u hu => ?_)
    · rcases List.mem_append.mp hm with hm | hm
      · exact hm
      · exact absurd (hcur c' (List.mem_singleton.mp hm ▸ hu)).1 hne
    · have hut : u ≠ t := by
        intro heq
        subst heq
        exact hothers c' hne hu
      simpa [SchedState.goto, SchedState.setState, SchedState.insertReady,
        Function.update_of_ne hut] using hc'.asserted u hu

/-- A step of `c` that takes a block lock or releases its own. -/
theorem SchedInv.setBlockLock (h : SchedInv s) {owner : Option Cpu}
    (hfrom : s.blockLock t = none ∨ s.blockLock t = some c)
    (hlock : (s.pc c).locked = p.locked)
    (hsched : (s.pc c).scheduling = true → p.scheduling = true)
    (hun : ∀ u, p.unblocks = some u → Settled s.toPlacement u)
    (hblock : (s.pc c).blocking = true → p.blocking = true)
    (howns : p.ownsBlock = true → s.currentThread c = some t ∧ owner = some c)
    (hholds : ∀ u, p.holdsBlock = some u → u = t ∧ owner = some c) (hass : p.asserted = none) :
    SchedInv ((s.setBlockLock t owner).goto c p) := by
  have hc := h.cpus c
  refine SchedInv.of_self (c := c) h.placed ?_ ?_
  · constructor <;> simp only [SchedState.goto, SchedState.setBlockLock, Function.update_self]
    · rw [← hlock]
      exact hc.lock
    · exact fun u hu hmem => hsched (hc.listed u hu hmem)
    · exact hun
    · exact fun u hu hb => (hc.blocked u hu hb).imp_right hblock
    · intro u hu ho
      obtain ⟨hcur, howner⟩ := howns ho
      obtain rfl : t = u := Option.some.inj (hcur.symm.trans hu)
      rw [Function.update_self, howner]
    · intro u hu
      obtain ⟨rfl, howner⟩ := hholds u hu
      rw [Function.update_self, howner]
    · simp [hass]
  · intro c' hne
    have hc' := h.cpus c'
    refine hc'.frame (Function.update_of_ne hne ..) rfl Iff.rfl (fun _ _ hm => hm)
      hc'.unblocks (fun _ _ hb => hb) (fun _ hi => hi) (fun u hu => ?_) hc'.asserted
    have hut : u ≠ t := by
      intro heq
      subst heq
      rcases hfrom with hfrom | hfrom
      · simp [hfrom] at hu
      · rw [hfrom] at hu
        exact hne (Option.some.inj hu).symm
    simpa [SchedState.goto, SchedState.setBlockLock, Function.update_of_ne hut] using hu

theorem SchedInv.setWaiting (h : SchedInv s) (waits : Bool)
    (hset : waits = true → Settled s.toPlacement t) :
    SchedInv { s with waiting := Function.update s.waiting t waits } where
  placed := { h.placed with
    waiting := fun u hu => by
      by_cases hut : u = t
      · subst hut
        exact hset (by simpa using hu)
      · exact h.placed.waiting u (by simpa [Function.update_of_ne hut] using hu) }
  cpus c := { h.cpus c with }

/-- No place depends on flags or on previous threads. -/
theorem SchedInv.setOther (h : SchedInv s) (flags : Tid → DWORD) (previous : Cpu → Option Tid) :
    SchedInv { s with flags := flags, previousThread := previous } where
  placed := h.placed
  cpus c := { h.cpus c with }

end Steps

end HAL9000.Thread
