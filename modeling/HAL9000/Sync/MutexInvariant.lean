import HAL9000.Sync.Mutex

/-! Exclusion, hand-over and recursion depth of a mutex over whole runs. -/
namespace HAL9000.Sync

open Run

/-- The thread is in a critical section of `MutexLock`. -/
def MutexPc.locked : MutexPc → Bool
  | .take | .insert | .unlockBlock | .retest | .acquireUnlock | .handOver | .wake _
  | .releaseUnlock => true
  | _ => false

/-- What holds of the mutex for a thread that stands at a given place. -/
def Mutex.Local (m : Mutex) (t : Tid) : MutexPc → Prop
  | .idle | .acquireTest | .releaseTest | .releaseUnlock => t ∉ m.waitingList
  | .recurse => m.holder = some t ∧ m.currentRecursivityDepth < m.maxRecursivityDepth
  | .unrecurse => m.holder = some t ∧ 1 < m.currentRecursivityDepth
  | .releaseLock | .handOver => m.holder = some t ∧ m.currentRecursivityDepth = 1
  | .acquireLock | .take => m.holder ≠ some t ∧ t ∉ m.waitingList
  | .insert => m.holder ≠ some t ∧ m.holder ≠ none ∧ t ∉ m.waitingList
  | .unlockBlock => t ∈ m.waitingList
  | .block | .blocked => t ∈ m.waitingList ∨ m.holder = some t
  | .relock | .retest | .acquireUnlock => m.holder = some t
  | .wake u => m.holder = some u ∧ t ∉ m.waitingList

structure MutexInv (s : MutexState) : Prop where
  lock : ∀ t, (s.pc t).locked = true ↔ s.mutex.mutexLock = some t
  loc : ∀ t, s.mutex.Local t (s.pc t)
  nodup : s.mutex.waitingList.Nodup
  holder_not_waiting : ∀ t, s.mutex.holder = some t → t ∉ s.mutex.waitingList
  waited_held : s.mutex.waitingList ≠ [] → s.mutex.holder ≠ none
  depth_pos : s.mutex.holder ≠ none → 1 ≤ s.mutex.currentRecursivityDepth
  balance : ∀ t, s.history.acquires t = s.history.releases t +
    if s.mutex.holder = some t then s.mutex.currentRecursivityDepth.toNat else 0
  fifo : s.history.enqueued = s.history.granted ++ s.mutex.waitingList

theorem MutexInv.safe {s : MutexState} (h : MutexInv s) : MutexSafe s where
  exclusive t ht := by
    by_contra hne
    have := h.balance t
    rw [if_neg hne] at this
    omega
  returns_holder t ht := by
    have := h.loc t
    rwa [ht] at this
  holder_not_waiting := h.holder_not_waiting
  nodup := h.nodup
  waited_held hne _ := h.waited_held hne
  fifo := h.fifo
  depth t ht := by
    have := h.balance t
    rwa [if_pos ht] at this

theorem mutexStart_inv (recursive : Bool) : MutexInv (mutexStart recursive) where
  lock t := by simp [mutexStart, MutexPc.locked, mutexInit]
  loc t := by simp [mutexStart, Mutex.Local, mutexInit]
  nodup := List.nodup_nil
  holder_not_waiting t _ := by simp [mutexStart, mutexInit]
  waited_held h := absurd rfl h
  depth_pos h := absurd rfl h
  balance t := by simp [mutexStart, mutexInit]
  fifo := rfl

/-- The parts of a step of `t`. -/
theorem nextMutex_step {s s' : MutexState} {t : Tid} (h : nextMutex s (.step t) = some s') :
    ∃ pc wakes, mutexStep t s.mutex (s.pc t) = some (s'.mutex, pc, wakes) ∧
      Threads.move .blocked .relock s.pc t pc wakes = some s'.pc ∧
      s'.history = s.history.record t s.mutex (s.pc t) := by
  obtain ⟨⟨m, pc, wakes⟩, hstep, h⟩ := Option.bind_eq_some_iff.mp h
  obtain ⟨pcs, hmove, rfl⟩ := Option.map_eq_some_iff.mp h
  exact ⟨pc, wakes, hstep, hmove, rfl⟩

section Step

variable {t : Tid} {m m' : Mutex} {pc pc' : MutexPc} {wakes : Option Tid}

private theorem mutexStep_not_blocked (h : mutexStep t m pc = some (m', pc', wakes)) :
    pc ≠ .blocked := by
  intro heq
  subst heq
  cases h

/-- A step leaves `MutexLock` alone, takes it while it is free, or releases it. -/
theorem mutexStep_lock (h : mutexStep t m pc = some (m', pc', wakes)) :
    (m'.mutexLock = m.mutexLock ∧ pc'.locked = pc.locked) ∨
      (m.mutexLock = none ∧ m'.mutexLock = some t ∧ pc'.locked = true) ∨
      (pc.locked = true ∧ m'.mutexLock = none ∧ pc'.locked = false) := by
  cases pc <;> grind [mutexStep, MutexPc.locked, whileNotHolder]

/-- What a step from a given place does to the holder, its depth and the queue. -/
private inductive Effect (t : Tid) (m : Mutex) : MutexPc → Mutex → Prop
  | keep {pc : MutexPc} {m' : Mutex} (holder : m'.holder = m.holder)
      (depth : m'.currentRecursivityDepth = m.currentRecursivityDepth)
      (max : m'.maxRecursivityDepth = m.maxRecursivityDepth)
      (list : m'.waitingList = m.waitingList)
      (history : ∀ h : MutexHistory, h.record t m pc = h) : Effect t m pc m'
  | recurse : Effect t m .recurse
      { m with currentRecursivityDepth := m.currentRecursivityDepth + 1 }
  | unrecurse : Effect t m .unrecurse
      { m with currentRecursivityDepth := m.currentRecursivityDepth - 1 }
  | take (free : m.holder = none) :
      Effect t m .take { m with holder := some t, currentRecursivityDepth := 1 }
  | insert : Effect t m .insert { m with waitingList := m.waitingList ++ [t] }
  | free (list : m.waitingList = []) : Effect t m .handOver { m with holder := none }
  | grant {u : Tid} {rest : List Tid} (list : m.waitingList = u :: rest) : Effect t m .handOver
      { m with waitingList := rest, holder := some u, currentRecursivityDepth := 1 }

private theorem mutexStep_effect (h : mutexStep t m pc = some (m', pc', wakes)) :
    Effect t m pc m' := by
  cases pc with
  | recurse =>
    cases h
    exact .recurse
  | unrecurse =>
    cases h
    exact .unrecurse
  | take =>
    simp only [mutexStep] at h
    split_ifs at h with hfree
    · cases h
      exact .take hfree
    · cases h
      exact .keep rfl rfl rfl rfl (fun h => if_neg hfree)
  | insert =>
    cases h
    exact .insert
  | handOver =>
    simp only [mutexStep] at h
    split at h
    · rename_i hnil
      cases h
      exact .free hnil
    · rename_i u rest hcons
      cases h
      exact .grant hcons
  | _ =>
    have hkeep : m'.holder = m.holder ∧ m'.currentRecursivityDepth = m.currentRecursivityDepth ∧
        m'.maxRecursivityDepth = m.maxRecursivityDepth ∧ m'.waitingList = m.waitingList := by
      grind [mutexStep]
    exact .keep hkeep.1 hkeep.2.1 hkeep.2.2.1 hkeep.2.2.2 (fun _ => rfl)

end Step

section Preservation

variable {s s' : MutexState} {t : Tid} {pc : MutexPc} {wakes : Option Tid}

/-- Where `t` arrives, what the place asks for holds of the mutex it leaves behind. -/
private theorem local_self (hinv : MutexInv s)
    (h : mutexStep t s.mutex (s.pc t) = some (s'.mutex, pc, wakes)) : s'.mutex.Local t pc := by
  have hloc := hinv.loc t
  have hheld := hinv.holder_not_waiting t
  have hpos := hinv.depth_pos
  cases hpc : s.pc t <;> rw [hpc] at h hloc <;>
    grind [mutexStep, Mutex.Local, whileNotHolder]

private theorem local_of_ne (hinv : MutexInv s)
    (heff : Effect t s.mutex (s.pc t) s'.mutex) {r : Tid} (hr : r ≠ t) :
    s'.mutex.Local r (s.pc r) := by
  have hloc := hinv.loc r
  have hlock := hinv.lock r
  have hlockt := hinv.lock t
  have hloct := hinv.loc t
  generalize s.pc t = p at heff hloct hlockt
  generalize s'.mutex = m' at heff
  cases heff with
  | keep holder depth max list _ =>
    cases hpc : s.pc r <;> rw [hpc] at hloc <;> simp_all [Mutex.Local]
  | recurse =>
    cases hpc : s.pc r <;> rw [hpc] at hloc <;> simp_all [Mutex.Local]
  | unrecurse =>
    cases hpc : s.pc r <;> rw [hpc] at hloc <;> simp_all [Mutex.Local]
  | take free =>
    cases hpc : s.pc r <;> rw [hpc] at hloc <;> grind [Mutex.Local]
  | insert =>
    cases hpc : s.pc r <;> rw [hpc] at hloc <;> grind [Mutex.Local]
  | free list =>
    cases hpc : s.pc r <;> rw [hpc] at hloc <;> grind [Mutex.Local, MutexPc.locked]
  | grant list =>
    cases hpc : s.pc r <;> rw [hpc] at hloc <;> grind [Mutex.Local, MutexPc.locked]

private theorem locked_of_ne (hmove : Threads.move .blocked .relock s.pc t pc wakes = some s'.pc)
    {r : Tid} (hr : r ≠ t) : (s'.pc r).locked = (s.pc r).locked := by
  by_cases hw : wakes = some r
  · subst hw
    obtain ⟨hb, hk⟩ := Threads.move_woken hmove
    rw [hb, hk]
    rfl
  · rw [Threads.move_of_ne hmove hr hw]

private theorem lock_step (hinv : MutexInv s)
    (h : mutexStep t s.mutex (s.pc t) = some (s'.mutex, pc, wakes))
    (hmove : Threads.move .blocked .relock s.pc t pc wakes = some s'.pc) (r : Tid) :
    (s'.pc r).locked = true ↔ s'.mutex.mutexLock = some r := by
  have hself := Threads.move_self hmove (mutexStep_not_blocked h)
  have ht := hinv.lock t
  have hr := hinv.lock r
  by_cases hrt : r = t
  · subst hrt
    rw [hself]
    rcases mutexStep_lock h with ⟨hl, hp⟩ | ⟨-, hl, hp⟩ | ⟨-, hl, hp⟩ <;> simp_all
  · rw [locked_of_ne hmove hrt]
    rcases mutexStep_lock h with ⟨hl, -⟩ | ⟨hn, hl, -⟩ | ⟨hp, hl, -⟩
    · rw [hl]
      exact hr
    · rw [hr, hn, hl]
      simp [Ne.symm hrt]
    · rw [hr, ht.mp hp, hl]
      simp [Ne.symm hrt]

/-- A woken thread is the one its waker has made the holder. -/
private theorem local_step (hinv : MutexInv s)
    (h : mutexStep t s.mutex (s.pc t) = some (s'.mutex, pc, wakes))
    (hmove : Threads.move .blocked .relock s.pc t pc wakes = some s'.pc) (r : Tid) :
    s'.mutex.Local r (s'.pc r) := by
  by_cases hrt : r = t
  · subst hrt
    rw [Threads.move_self hmove (mutexStep_not_blocked h)]
    exact local_self hinv h
  · by_cases hw : wakes = some r
    · subst hw
      rw [(Threads.move_woken hmove).2]
      have hloc := hinv.loc t
      cases hpc : s.pc t <;> rw [hpc] at h hloc <;> grind [mutexStep, Mutex.Local]
    · rw [Threads.move_of_ne hmove hrt hw]
      exact local_of_ne hinv (mutexStep_effect h) hrt

private theorem nodup_step (hinv : MutexInv s) (heff : Effect t s.mutex (s.pc t) s'.mutex) :
    s'.mutex.waitingList.Nodup := by
  have hnd := hinv.nodup
  have hloc := hinv.loc t
  generalize s.pc t = p at heff hloc
  generalize s'.mutex = m' at heff
  cases heff with
  | keep _ _ _ list _ => rwa [list]
  | recurse | unrecurse | take | free => exact hnd
  | insert =>
    have hnot : t ∉ s.mutex.waitingList := hloc.2.2
    exact List.nodup_append.mpr ⟨hnd, by simp, by grind⟩
  | grant list =>
    rw [list] at hnd
    exact hnd.of_cons

/-- The holder stays out of the queue, and a queue that is not empty has a holder. -/
private theorem holder_step (hinv : MutexInv s) (heff : Effect t s.mutex (s.pc t) s'.mutex) :
    (∀ u, s'.mutex.holder = some u → u ∉ s'.mutex.waitingList) ∧
      (s'.mutex.waitingList ≠ [] → s'.mutex.holder ≠ none) := by
  have hnot := hinv.holder_not_waiting
  have hheld := hinv.waited_held
  have hnd := hinv.nodup
  have hloc := hinv.loc t
  generalize s.pc t = p at heff hloc
  generalize s'.mutex = m' at heff
  cases heff with
  | keep holder _ _ list _ =>
    rw [holder, list]
    exact ⟨hnot, hheld⟩
  | recurse | unrecurse => exact ⟨hnot, hheld⟩
  | take free =>
    have hout : t ∉ s.mutex.waitingList := hloc.2
    exact ⟨by simpa using hout, by simp⟩
  | insert =>
    obtain ⟨hne, hsome, -⟩ := hloc
    refine ⟨fun u hu hmem => ?_, fun _ => hsome⟩
    rcases List.mem_append.mp hmem with hmem | hmem
    · exact hnot u hu hmem
    · exact hne (List.mem_singleton.mp hmem ▸ hu)
  | free list => exact ⟨by simp, fun h => absurd list h⟩
  | @grant u rest list =>
    rw [list] at hnd
    exact ⟨by simpa using (List.nodup_cons.mp hnd).1, by simp⟩

/-- The depth of the holder counts the acquires it has not released. -/
private theorem balance_step (hinv : MutexInv s) (heff : Effect t s.mutex (s.pc t) s'.mutex)
    (hhist : s'.history = s.history.record t s.mutex (s.pc t)) :
    (s'.mutex.holder ≠ none → 1 ≤ s'.mutex.currentRecursivityDepth) ∧
      ∀ r, s'.history.acquires r = s'.history.releases r +
        if s'.mutex.holder = some r then s'.mutex.currentRecursivityDepth.toNat else 0 := by
  have hpos := hinv.depth_pos
  have hbal := hinv.balance
  have hloc := hinv.loc t
  have hnot := hinv.holder_not_waiting
  rw [hhist]
  generalize s.pc t = p at heff hloc
  generalize s'.mutex = m' at heff
  cases heff with
  | keep holder depth _ _ history =>
    rw [holder, depth, history]
    exact ⟨hpos, hbal⟩
  | recurse =>
    obtain ⟨hholder, hlt⟩ := hloc
    have hpos := hpos (by simp [hholder])
    have hdepth : (s.mutex.currentRecursivityDepth + 1).toNat =
        s.mutex.currentRecursivityDepth.toNat + 1 := by
      bv_omega
    refine ⟨fun _ => by bv_omega, fun r => ?_⟩
    have hr := hbal r
    simp only [MutexHistory.record, MutexHistory.acquired_acquires,
      MutexHistory.acquired_releases, hdepth, hholder, Option.some.injEq] at hr ⊢
    split_ifs at hr ⊢ <;> omega
  | unrecurse =>
    obtain ⟨hholder, hlt⟩ := hloc
    have hdepth : (s.mutex.currentRecursivityDepth - 1).toNat + 1 =
        s.mutex.currentRecursivityDepth.toNat := by
      bv_omega
    refine ⟨fun _ => by bv_omega, fun r => ?_⟩
    have hr := hbal r
    simp only [MutexHistory.record, MutexHistory.released_acquires,
      MutexHistory.released_releases, hholder, Option.some.injEq] at hr ⊢
    split_ifs at hr ⊢ <;> omega
  | take free =>
    refine ⟨fun _ => BitVec.le_refl _, fun r => ?_⟩
    have hr := hbal r
    simp only [MutexHistory.record, MutexHistory.acquired_acquires,
      MutexHistory.acquired_releases, free, Option.some.injEq, reduceCtorEq, ↓reduceIte] at hr ⊢
    split_ifs <;> simp <;> omega
  | insert => exact ⟨hpos, hbal⟩
  | free list =>
    obtain ⟨hholder, hone⟩ := hloc
    refine ⟨fun h => absurd rfl h, fun r => ?_⟩
    have hr := hbal r
    simp only [MutexHistory.record, list, MutexHistory.released_acquires,
      MutexHistory.released_releases, hholder, hone, Option.some.injEq, reduceCtorEq,
      ↓reduceIte] at hr ⊢
    split_ifs at hr ⊢ <;> simp at * <;> omega
  | @grant u rest list =>
    obtain ⟨hholder, hone⟩ := hloc
    have hut : u ≠ t := by
      intro heq
      subst heq
      exact hnot u hholder (by simp [list])
    refine ⟨fun _ => BitVec.le_refl _, fun r => ?_⟩
    have hr := hbal r
    simp only [MutexHistory.record, list, MutexHistory.acquired_acquires,
      MutexHistory.acquired_releases, MutexHistory.released_acquires,
      MutexHistory.released_releases, hholder, hone, Option.some.injEq] at hr ⊢
    split_ifs at hr ⊢ <;> simp at * <;> omega

private theorem fifo_step (hinv : MutexInv s) (heff : Effect t s.mutex (s.pc t) s'.mutex)
    (hhist : s'.history = s.history.record t s.mutex (s.pc t)) :
    s'.history.enqueued = s'.history.granted ++ s'.mutex.waitingList := by
  have hfifo := hinv.fifo
  rw [hhist]
  generalize s.pc t = p at heff
  generalize s'.mutex = m' at heff
  cases heff with
  | keep _ _ _ list history =>
    rw [list, history]
    exact hfifo
  | recurse | unrecurse => exact hfifo
  | take free =>
    simp only [MutexHistory.record, if_pos free]
    exact hfifo
  | insert =>
    show s.history.enqueued ++ [t] = _
    rw [hfifo, List.append_assoc]
    rfl
  | free list =>
    simp only [MutexHistory.record, list]
    rw [← list]
    exact hfifo
  | @grant u rest list =>
    simp only [MutexHistory.record, list]
    show s.history.enqueued = s.history.granted ++ [u] ++ rest
    rw [hfifo, list]
    simp

theorem mutexInv_step (hinv : MutexInv s) (h : nextMutex s (.step t) = some s') : MutexInv s' := by
  obtain ⟨pc, wakes, hstep, hmove, hhist⟩ := nextMutex_step h
  have heff := mutexStep_effect hstep
  obtain ⟨hnot, hheld⟩ := holder_step hinv heff
  obtain ⟨hpos, hbal⟩ := balance_step hinv heff hhist
  exact ⟨lock_step hinv hstep hmove, local_step hinv hstep hmove, nodup_step hinv heff, hnot, hheld,
    hpos, hbal, fifo_step hinv heff hhist⟩

private theorem mutexInv_start (hinv : MutexInv s) (hidle : s.pc t = .idle)
    (hlocked : pc.locked = false) (hloc : s.mutex.Local t pc) :
    MutexInv { s with pc := Function.update s.pc t pc } := by
  refine ⟨fun r => ?_, fun r => ?_, hinv.nodup, hinv.holder_not_waiting, hinv.waited_held,
    hinv.depth_pos, hinv.balance, hinv.fifo⟩
  · rw [← hinv.lock r]
    by_cases hr : r = t
    · subst hr
      have hfree : MutexPc.idle.locked = false := rfl
      simp [hidle, hlocked, hfree]
    · simp [Function.update_of_ne hr]
  · by_cases hr : r = t
    · subst hr
      simpa using hloc
    · simpa [Function.update_of_ne hr] using hinv.loc r

theorem mutexInv_nextMutex {a : MutexAction} (hinv : MutexInv s) (h : nextMutex s a = some s') :
    MutexInv s' := by
  cases a with
  | acquire t | release t =>
    simp only [nextMutex] at h
    split_ifs at h with hidle
    cases h
    have hloc := hinv.loc t
    rw [hidle] at hloc
    exact mutexInv_start hinv hidle rfl hloc
  | step t => exact mutexInv_step hinv h

/-- Ownership is taken, or handed on, at depth 1. -/
private theorem depth_of_holder_ne {a : MutexAction} (h : nextMutex s a = some s')
    (hne : s'.mutex.holder ≠ s.mutex.holder) {u : Tid} (hu : s'.mutex.holder = some u) :
    s'.mutex.currentRecursivityDepth = 1 := by
  cases a with
  | acquire t | release t =>
    simp only [nextMutex] at h
    split_ifs at h
    cases h
    exact absurd rfl hne
  | step t =>
    obtain ⟨pc, wakes, hstep, -, -⟩ := nextMutex_step h
    have heff := mutexStep_effect hstep
    generalize s.pc t = p at heff
    generalize s'.mutex = m' at heff hne hu
    cases heff with
    | keep holder _ _ _ _ => exact absurd holder hne
    | recurse | unrecurse | insert => exact absurd rfl hne
    | take _ | grant _ => rfl
    | free _ => cases hu

theorem handsOver_nextMutex {a : MutexAction} (hinv : MutexInv s) (h : nextMutex s a = some s') :
    HandsOver s s' := by
  intro hne
  have hbal := (mutexInv_nextMutex hinv h).balance
  constructor
  · intro t ht
    have hnt : s'.mutex.holder ≠ some t := by rwa [← ht]
    rw [hbal t, if_neg hnt, Nat.add_zero]
  · intro u hu
    have hdepth := depth_of_holder_ne h hne hu
    refine ⟨hdepth, ?_⟩
    rw [hbal u, if_pos hu, hdepth]
    rfl

end Preservation

/-- The thread is on its way through `MutexAcquire`. -/
def MutexPc.acquires : MutexPc → Bool
  | .acquireTest | .recurse | .acquireLock | .take | .insert | .unlockBlock | .block | .blocked
  | .relock | .retest | .acquireUnlock => true
  | _ => false

section Frame

variable {s s' : MutexState} {t u : Tid}

/-- Only the holder gives the mutex away. -/
theorem MutexInv.holder_step_ne (hinv : MutexInv s) (h : nextMutex s (.step t) = some s')
    (hu : s.mutex.holder = some u) (hne : t ≠ u) : s'.mutex.holder = some u := by
  obtain ⟨pc, wakes, hstep, -, -⟩ := nextMutex_step h
  have hloc := hinv.loc t
  cases hpc : s.pc t <;> rw [hpc] at hstep hloc <;> grind [mutexStep, Mutex.Local]

/-- A step of another thread wakes a blocked thread or leaves it where it is. -/
theorem pc_step_ne (h : nextMutex s (.step t) = some s') (hne : u ≠ t) :
    s'.pc u = s.pc u ∨ s.pc u = .blocked ∧ s'.pc u = .relock := by
  obtain ⟨pc, wakes, -, hmove, -⟩ := nextMutex_step h
  by_cases hw : wakes = some u
  · subst hw
    exact Or.inr (Threads.move_woken hmove)
  · exact Or.inl (Threads.move_of_ne hmove hne hw)

/-- `MutexAcquire` returns to its caller as the holder. -/
theorem MutexInv.acquires_step (hinv : MutexInv s) (h : nextMutex s (.step t) = some s')
    (ht : (s.pc t).acquires = true) :
    (s'.pc t).acquires = true ∨ s'.pc t = .idle ∧ s'.mutex.holder = some t := by
  obtain ⟨pc, wakes, hstep, hmove, -⟩ := nextMutex_step h
  have hloc := hinv.loc t
  rw [Threads.move_self hmove (mutexStep_not_blocked hstep)]
  cases hpc : s.pc t <;> rw [hpc] at hstep hloc ht <;>
    grind [mutexStep, Mutex.Local, MutexPc.acquires, whileNotHolder]

end Frame

/-- Every run of `MutexAcquire` and `MutexRelease` keeps the mutex exclusive, its queue fair and
its depth exact, and every change of holder is a complete release and a fresh grant. -/
theorem mutexSafe_of_run {recursive : Bool} {tr : List (MutexState × MutexAction)} {s : MutexState}
    (h : Exec (fun s a s' => nextMutex s a = some s') (mutexStart recursive) tr s) :
    Always MutexSafe tr s ∧
      ∀ v ∈ tr, ∀ s', nextMutex v.1 v.2 = some s' → HandsOver v.1 s' := by
  have hinv := h.always (mutexStart_inv recursive) (fun _ _ _ => mutexInv_nextMutex)
  refine ⟨hinv.mono fun _ => MutexInv.safe, fun v hv s' hs => ?_⟩
  exact handsOver_nextMutex (hinv.1 v hv) hs

/-- Thread 0 takes a recursive mutex twice, thread 1 waits and is granted it at the end. -/
def contended : List MutexAction :=
  [.acquire 0, .step 0, .step 0, .step 0, .step 0, .acquire 0, .step 0, .step 0,
    .acquire 1, .step 1, .step 1, .step 1, .step 1, .step 1, .step 1,
    .release 0, .step 0, .step 0, .release 0, .step 0, .step 0, .step 0, .step 0, .step 0,
    .step 1, .step 1, .step 1]

theorem mutexSafe_of_contended :
    ∃ h : (exec nextMutex (mutexStart true) contended).isSome,
      ((exec nextMutex (mutexStart true) contended).get h).2.mutex.holder = some 1 ∧
      Always MutexSafe ((exec nextMutex (mutexStart true) contended).get h).1
        ((exec nextMutex (mutexStart true) contended).get h).2 :=
  ⟨by decide, by decide, (mutexSafe_of_run (exec_get (by decide))).1⟩

end HAL9000.Sync
