import HAL9000.Thread.DeadWaiters

/-! Forced termination over whole runs. -/
namespace HAL9000.Thread

open Run Sync

section Run

variable {s s' : TerminationState}

/-- A running thread is awaited by nobody. -/
private theorem not_awaited {t : Tid} (hpc : s.pc t = .run) (i : ℕ) : ¬ Awaited s i t := by
  rintro (⟨q, hq, -⟩ | hexit)
  · rw [hpc] at hq
    cases hq
  · rw [hpc] at hexit
    cases hexit

/-- `_ThreadForcedExit` of a thread that is not linked. -/
private theorem TerminationInv.forcedExit {t : Tid} (h : TerminationInv s)
    (hout : ∀ i, t ∉ (s.objects i).waitingList) (halive : (s.pc t).dead = false) :
    TerminationInv (s.threadForcedExit t) := by
  have hnot : ¬ (s.state t = .dying ∨ s.destroyed t = true) := by
    intro hdead
    simp [h.dead t hdead] at halive
  exact h.goto (p := .exitDying) hout nofun (Or.inl rfl) (fun _ _ => rfl)
    (fun hd => absurd (Or.inl hd) hnot) (fun hd => absurd (Or.inr hd) hnot) _

theorem terminationInv_step {t : Tid} (h : TerminationInv s)
    (hq : BlocksUnterminated s (.step t)) (hs : nextTermination s (.step t) = some s') :
    TerminationInv s' := by
  cases hpc : s.pc t with
  | run | exited =>
    simp only [nextTermination, hpc] at hs
    cases hs
  | exitDying =>
    simp only [nextTermination, hpc] at hs
    cases hs
    refine h.goto (h.not_linked (by simp [hpc])) ?_ (Or.inl rfl)
      (fun u hu => Function.update_of_ne hu ..) (fun _ => rfl) (fun _ => rfl) s.flags
    intro i pc b heq
    cases heq
    exact ⟨rfl, fun _ => rfl⟩
  | call i pc b =>
    simp only [nextTermination, hpc] at hs
    by_cases hterm : pc.blocks = true ∧ s.flags t = threadFlagForceTerminatePending
    · simp only [TerminationState.callStep, if_pos hterm, Option.some.injEq] at hs
      subst hs
      have hunlinked : t ∉ (s.objects i).waitingList := by
        simp only [BlocksUnterminated, hpc] at hq
        exact hq hterm.1 hterm.2
      apply h.forcedExit
      · intro j hmem
        obtain ⟨q, hcall, -⟩ := h.linked j t hmem
        rw [hpc] at hcall
        cases hcall
        exact hunlinked hmem
      · rw [hpc]
        cases b
        · rfl
        · have hl := WaitPc.linked_of_signals (h.exiting t i pc hpc)
          simp [WaitPc.linked_of_blocks hterm.1] at hl
    · obtain ⟨pc', o', w, hc⟩ := callStep_of_eq hpc hterm hs
      exact hc.inv h

private theorem SyncCall.entry_free {f : SyncCall} {o : WaitObject} {pc : WaitPc}
    (h : f.entry o = some pc) : pc.locked = false := by
  cases f <;> cases o <;> cases h <;> rfl

private theorem run_alive {t : Tid} (h : TerminationInv s) (hpc : s.pc t = .run) :
    ¬ (s.state t = .dying ∨ s.destroyed t = true) := by
  intro hdead
  have := h.dead t hdead
  rw [hpc] at this
  cases this

theorem terminationInv_next {a : TerminationAction} (h : TerminationInv s)
    (hq : BlocksUnterminated s a) (hs : nextTermination s a = some s') : TerminationInv s' := by
  cases a with
  | call t i function =>
    simp only [nextTermination] at hs
    split_ifs at hs with hpc
    obtain ⟨pc, hentry, rfl⟩ := Option.map_eq_some_iff.mp hs
    have halive := run_alive h hpc
    refine h.goto (p := .call i pc false) (h.not_linked (by simp [hpc])) ?_
      (Or.inr (not_awaited hpc)) (fun _ _ => rfl) (fun hd => absurd (Or.inl hd) halive)
      (fun hd => absurd (Or.inr hd) halive) s.flags
    intro j q b heq
    cases heq
    exact ⟨SyncCall.entry_free hentry, nofun⟩
  | terminate t =>
    cases hs
    exact ⟨h.lock, h.linked, h.nodup, h.wakes, h.exiting, h.dead⟩
  | yield t =>
    simp only [nextTermination] at hs
    split_ifs at hs with hint hterm
    · cases hs
      have hpcs : (∀ i pc, s.pc t = .call i pc false → pc.linked = false) ∧
          (s.pc t).dead = false := by
        cases hpc : s.pc t with
        | call i pc b =>
          simp only [hpc, ThreadPc.interruptible, Bool.and_eq_true, Bool.not_eq_true'] at hint
          refine ⟨?_, by rw [hint.2]; rfl⟩
          intro j q heq
          cases heq
          exact WaitPc.linked_of_interruptible hint.1
        | run => exact ⟨nofun, rfl⟩
        | exitDying | exited => simp [hpc, ThreadPc.interruptible] at hint
      exact h.forcedExit (h.not_linked hpcs.1) hpcs.2
    · cases hs
      exact h
  | exit t =>
    simp only [nextTermination] at hs
    split_ifs at hs with hpc
    cases hs
    have halive := run_alive h hpc
    exact h.goto (p := .exitDying) (h.not_linked (by simp [hpc])) nofun (Or.inl rfl)
      (fun _ _ => rfl) (fun hd => absurd (Or.inl hd) halive)
      (fun hd => absurd (Or.inr hd) halive) s.flags
  | destroy t =>
    simp only [nextTermination] at hs
    split_ifs at hs with hpc
    cases hs
    refine ⟨h.lock, h.linked, h.nodup, h.wakes, h.exiting, fun r hr => ?_⟩
    by_cases hrt : r = t
    · rw [hrt]
      show (s.pc t).dead = true
      rw [hpc]
      rfl
    · exact h.dead r (by simpa [Function.update_of_ne hrt] using hr)
  | step t => exact terminationInv_step h hq hs

end Run

/-- No dead thread is left in a waiting list in a run in which no thread finds its termination
flag in `ThreadBlock` while it is linked. -/
theorem always_noDeadWaiter {s₀ s : TerminationState}
    {tr : List (TerminationState × TerminationAction)} (h₀ : TerminationStart s₀)
    (h : Exec (fun s a s' => nextTermination s a = some s') s₀ tr s)
    (hq : ∀ v ∈ tr, BlocksUnterminated v.1 v.2) : Always NoDeadWaiter tr s := by
  have hinv : Always TerminationInv tr s :=
    h.always_of_steps h₀.inv (fun _ _ _ => terminationInv_next) hq
  exact hinv.mono fun _ => TerminationInv.noDeadWaiter

/-- One mutex, a termination event for each thread, and two threads that may use them. -/
def oneMutex : TerminationState where
  objects i := if i = 0 then .mutex (mutexInit false) else .event (exEventInit .notification false)
  terminationEvt t := t + 1
  state _ := .ready
  flags _ := 0
  destroyed _ := false
  pc _ := .run

theorem oneMutex_start : TerminationStart oneMutex where
  waitingList i := by
    unfold oneMutex
    dsimp only
    split_ifs <;> rfl
  state _ := nofun
  destroyed _ := rfl
  pc _ := rfl

/-- Thread 0 takes the mutex and thread 1 links itself into its waiting list. -/
def contend : List TerminationAction :=
  [.call 0 0 .mutexAcquire, .step 0, .step 0, .step 0, .step 0,
    .call 1 0 .mutexAcquire, .step 1, .step 1, .step 1, .step 1, .step 1]

/-- Thread 1 is terminated while it sleeps, is granted the mutex, and exits when it yields. -/
def terminateBlocked : List TerminationAction :=
  contend ++ [.step 1, .terminate 1, .call 0 0 .mutexRelease, .step 0, .step 0, .step 0, .step 0,
    .step 0, .step 1, .step 1, .step 1, .yield 1, .step 1]

theorem noDeadWaiter_of_terminateBlocked :
    ∃ h : (exec nextTermination oneMutex terminateBlocked).isSome,
      ((exec nextTermination oneMutex terminateBlocked).get h).2.state 1 = .dying ∧
      Always NoDeadWaiter ((exec nextTermination oneMutex terminateBlocked).get h).1
        ((exec nextTermination oneMutex terminateBlocked).get h).2 :=
  ⟨by decide, by decide, always_noDeadWaiter oneMutex_start (exec_get (by decide)) (by decide)⟩

/-- Thread 1 is terminated just before it blocks. -/
def terminateBlocking : List TerminationAction :=
  contend ++ [.terminate 1, .step 1, .step 1, .step 1, .step 1, .step 1, .step 1, .destroy 1]

private theorem terminateBlocking_runs :
    (exec nextTermination oneMutex terminateBlocking).isSome := by
  decide

theorem dead_waiter : ∃ s₀ tr s, TerminationStart s₀ ∧
    Exec (fun s a s' => nextTermination s a = some s') s₀ tr s ∧ s.destroyed 1 = true ∧
      ¬ NoDeadWaiter s := by
  refine ⟨oneMutex, _, _, oneMutex_start, exec_get terminateBlocking_runs, by decide, fun h => ?_⟩
  exact h 1 (Or.inr (by decide)) 0 (by decide)

end HAL9000.Thread
