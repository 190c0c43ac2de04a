import HAL9000.Thread.Switch

/-! The placement of threads over whole runs of the scheduler. -/
namespace HAL9000.Thread

open Run

section Run

variable {s s' : SchedState} {c : Cpu} {t : Tid}

private theorem others_take (hfree : s.readyThreadsLock = none) {c' : Cpu} (hne : c' ≠ c) :
    some c = some c' ↔ s.readyThreadsLock = some c' := by
  simp [hfree, hne.symm]

private theorem others_release (h : SchedInv s) (hpc : (s.pc c).locked = true) {c' : Cpu}
    (hne : c' ≠ c) : none = some c' ↔ s.readyThreadsLock = some c' := by
  simp [(h.cpus c).lock.mp hpc, hne.symm]

private theorem schedInv_cleanupPrevious (h : SchedInv s) (hpc : s.pc c = .cleanupPrevious)
    (hs : s.cleanupPrevious c = some s') : SchedInv (s'.goto c .run) := by
  have hleads : CpuPc.Leads .cleanupPrevious .run := ⟨nofun, nofun, nofun, nofun⟩
  unfold SchedState.cleanupPrevious at hs
  split at hs
  · cases hs
    exact h.move hpc hleads rfl rfl rfl
  · split_ifs at hs with howner
    · cases hs
      exact h.setBlockLock (Or.inr howner) (by rw [hpc]; rfl) (by rw [hpc]; nofun) nofun
        (by rw [hpc]; nofun) nofun nofun rfl
    · cases hs
      exact (h.setOther s.flags (Function.update s.previousThread c none)).move hpc hleads rfl rfl
        rfl
    · cases hs
      exact h.move hpc hleads rfl rfl rfl

/-- The steps of `ThreadUnblock`. -/
private theorem schedInv_unblock {u : Tid} (h : SchedInv s) (hun : (s.pc c).unblocks = some u)
    (hs : cpuStep s c t (s.pc c) = some s') : SchedInv s' := by
  have hlock := (h.cpus c).lock
  have hset := (h.cpus c).unblocks u hun
  cases hpc : s.pc c with
  | unblockTake u inExit =>
    rw [hpc] at hun
    cases hun
    simp only [hpc, cpuStep] at hs
    split_ifs at hs with hfree
    cases hs
    apply h.setBlockLock (Or.inl hfree)
    · rw [hpc]
      rfl
    · rw [hpc]
      nofun
    · intro v heq
      cases heq
      exact hset
    · rw [hpc]
      nofun
    · nofun
    · intro v heq
      cases heq
      exact ⟨rfl, rfl⟩
    · rfl
  | unblockAssert u inExit =>
    rw [hpc] at hun hlock
    cases hun
    simp only [hpc, cpuStep] at hs
    split_ifs at hs with hstate
    cases hs
    refine h.goto (p := .unblockLock u inExit) (fun _ _ => Iff.rfl) hlock ?_ ?_ ?_
    · rw [hpc]
      exact ⟨nofun, nofun, nofun, fun _ hv => hv⟩
    · intro v heq
      cases heq
      exact hset
    · intro v heq
      cases heq
      exact hstate
  | unblockLock u inExit =>
    have hstate := (h.cpus c).asserted u (by rw [hpc]; rfl)
    rw [hpc] at hun
    cases hun
    simp only [hpc, cpuStep] at hs
    split_ifs at hs with hfree
    cases hs
    apply h.goto (fun _ => others_take hfree) (iff_of_true rfl rfl)
    · rw [hpc]
      exact ⟨nofun, nofun, nofun, fun _ hv => hv⟩
    · intro v heq
      cases heq
      exact hset
    · intro v heq
      cases heq
      exact hstate
  | unblockInsert u inExit =>
    have hass : (s.pc c).asserted = some u := by
      rw [hpc]
      rfl
    have hout : u ∉ s.readyThreadsList := by
      intro hmem
      have := h.placed.ready u hmem
      simp [(h.cpus c).asserted u hass] at this
    rw [hpc] at hun
    cases hun
    simp only [hpc, cpuStep] at hs
    cases hs
    apply h.insertReady hset hout
    · exact fun c' hcur => absurd hcur (h.asserted_not_current hass)
    · intro c' hne hass'
      exact hne (h.holdsBlock_unique (CpuPc.holdsBlock_of_asserted hass)
        (CpuPc.holdsBlock_of_asserted hass'))
    · rw [hpc]
      exact ⟨nofun, nofun, nofun, fun _ hv => hv⟩
    · rw [hpc]
      rfl
    · intro v heq
      cases heq
      exact hset
    · rfl
  | unblockUnlock u inExit =>
    rw [hpc] at hun
    cases hun
    simp only [hpc, cpuStep] at hs
    cases hs
    refine h.goto (p := .unblockRelease u inExit) (fun _ => others_release h (by rw [hpc]; rfl))
      (iff_of_false nofun nofun) ?_ ?_ nofun
    · rw [hpc]
      exact ⟨nofun, nofun, nofun, fun _ hv => hv⟩
    · intro v heq
      cases heq
      exact hset
  | unblockRelease u inExit =>
    have howner := (h.cpus c).holds u (by rw [hpc]; rfl)
    simp only [hpc, cpuStep] at hs
    cases hs
    have hback : (if inExit then CpuPc.exiting else .run) = .exiting ∨
        (if inExit then CpuPc.exiting else .run) = .run := by
      cases inExit <;> simp
    rcases hback with hback | hback <;> rw [hback] <;>
      exact h.setBlockLock (Or.inr howner) (by rw [hpc]; rfl) (by rw [hpc]; nofun) nofun
        (by rw [hpc]; nofun) nofun nofun rfl
  | _ =>
    rw [hpc] at hun
    cases hun

theorem schedInv_cpuStep (h : SchedInv s) (hcur : s.currentThread c = some t)
    (hs : cpuStep s c t (s.pc c) = some s') : SchedInv s' := by
  cases hpc : s.pc c with
  | off | run =>
    rw [hpc] at hs
    cases hs
  | yieldTest =>
    simp only [hpc, cpuStep] at hs
    split_ifs at hs <;> cases hs <;>
      exact h.move hpc ⟨nofun, nofun, nofun, nofun⟩ rfl rfl rfl
  | yieldLock =>
    simp only [hpc, cpuStep] at hs
    split_ifs at hs with hfree
    cases hs
    exact h.goto (fun _ => others_take hfree) (iff_of_true rfl rfl)
      (by rw [hpc]; exact ⟨nofun, nofun, nofun, nofun⟩) nofun nofun
  | yieldInsert =>
    simp only [hpc, cpuStep] at hs
    have hout := h.not_listed hcur (by rw [hpc]; rfl)
    split_ifs at hs with hidle <;> cases hs
    · exact h.setState hcur hout (by rw [hpc]; exact ⟨nofun, nofun, nofun, nofun⟩)
        (by rw [hpc]; rfl) rfl rfl nofun
    · apply h.insertReady (h.settled hcur hidle) hout
      · exact fun c' hcur' => ⟨h.placed.one_cpu c' c t hcur' hcur, rfl⟩
      · exact fun c' _ hass => h.asserted_not_current hass hcur
      · rw [hpc]
        exact ⟨nofun, nofun, nofun, nofun⟩
      · rw [hpc]
        rfl
      · nofun
      · rfl
  | blockTest =>
    simp only [hpc, cpuStep] at hs
    split_ifs at hs <;> cases hs
    · exact h.move hpc ⟨nofun, nofun, nofun, nofun⟩ rfl rfl rfl
    · exact h.setState hcur (h.not_listed hcur (by rw [hpc]; rfl))
        (by rw [hpc]; exact ⟨nofun, nofun, fun _ => rfl, nofun⟩) (by rw [hpc]; rfl) rfl rfl
        (fun _ => rfl)
  | scheduleLock caller =>
    simp only [hpc, cpuStep] at hs
    split_ifs at hs with hfree
    cases hs
    refine h.goto (fun _ => others_take hfree) (iff_of_true rfl rfl) ?_ nofun nofun
    rw [hpc]
    cases caller
    · exact ⟨nofun, nofun, nofun, nofun⟩
    · exact ⟨nofun, fun _ => rfl, fun _ => rfl, nofun⟩
    · exact ⟨nofun, nofun, nofun, nofun⟩
  | schedule caller =>
    simp only [hpc, cpuStep, Option.map_eq_some_iff] at hs
    obtain ⟨s₁, hs, rfl⟩ := hs
    exact h.schedule hpc hs
  | cleanupUnlock =>
    simp only [hpc, cpuStep] at hs
    cases hs
    exact h.goto (fun _ => others_release h (by rw [hpc]; rfl)) (iff_of_false nofun nofun)
      (by rw [hpc]; exact ⟨nofun, nofun, nofun, nofun⟩) nofun nofun
  | cleanupPrevious =>
    simp only [hpc, cpuStep, Option.map_eq_some_iff] at hs
    obtain ⟨s₁, hs, rfl⟩ := hs
    exact schedInv_cleanupPrevious h hpc hs
  | exitRelease =>
    simp only [hpc, cpuStep] at hs
    split_ifs at hs with howner <;> cases hs
    · exact h.setBlockLock (Or.inr howner) (by rw [hpc]; rfl) (by rw [hpc]; nofun) nofun
        (by rw [hpc]; nofun) nofun nofun rfl
    · exact h.move hpc ⟨nofun, nofun, nofun, nofun⟩ rfl rfl rfl
  | exitDying =>
    simp only [hpc, cpuStep] at hs
    cases hs
    exact h.setState hcur (h.not_listed hcur (by rw [hpc]; rfl))
      (by rw [hpc]; exact ⟨nofun, nofun, nofun, nofun⟩) (by rw [hpc]; rfl) rfl rfl nofun
  | exiting =>
    simp only [hpc, cpuStep] at hs
    cases hs
    exact h.move hpc ⟨nofun, nofun, nofun, nofun⟩ rfl rfl rfl
  | unblockTake u inExit | unblockAssert u inExit | unblockLock u inExit
  | unblockInsert u inExit | unblockUnlock u inExit | unblockRelease u inExit =>
    exact schedInv_unblock h (by rw [hpc]; rfl) hs

/-- `nextSched` on every action. -/
theorem schedInv_nextSched {a : SchedAction} (h : SchedInv s) (hs : nextSched s a = some s') :
    SchedInv s' := by
  cases a with
  | initMain c t =>
    simp only [nextSched] at hs
    split_ifs at hs with hnew
    cases hs
    have ht : Unplaced s t := h.unplaced_of_not_settled (by simp [hnew.2])
    have hcr : s.creating t = none := by
      by_contra hcr
      simp [h.placed.creating t hcr] at hnew
    have hinit : SchedInv ((s.threadInit t).setState t .running) :=
      h.of_unplaced ht (Function.update_self ..) (fun u hu => by
        simp [SchedState.threadInit, Function.update_of_ne hu])
    refine hinit.start ⟨ht.1, ht.2, ht.3, ht.4, ht.5⟩ ⟨Function.update_self .., hcr⟩ ?_ hnew.1
    simp [SchedState.setState]
  | init c t =>
    simp only [nextSched] at hs
    split_ifs at hs with hnew
    cases hs
    have ht : Unplaced s t := h.unplaced_of_not_settled (by simp [hnew.2])
    exact h.of_unplaced ht (Function.update_self ..) (fun u hu => by
      simp [SchedState.threadInit, Function.update_of_ne hu])
  | place c t =>
    simp only [nextSched] at hs
    split at hs
    · cases hs
    · rename_i pCpu hcr
      have hne : s.creating t ≠ none := by simp [hcr]
      have hall := h.placed.creating t hne
      have ht : Unplaced s t := h.unplaced_of_not_settled (by simp [hcr])
      split_ifs at hs with hpc hidle
      · cases hs
        have hplaced : SchedInv ({ s with creating := Function.update s.creating t none }.setState t
            .ready) :=
          h.of_unplaced ht hall (fun u hu => by simp [Function.update_of_ne hu])
        exact hplaced.setIdle ⟨ht.1, ht.2, ht.3, ht.4, ht.5⟩ ⟨hall, Function.update_self ..⟩ hidle
      · cases hs
        have hplaced : SchedInv { s with creating := Function.update s.creating t none } :=
          h.of_unplaced ht hall (fun u hu => by simp [Function.update_of_ne hu])
        have hlock := (h.cpus c).lock
        rw [hpc] at hlock
        refine hplaced.goto (p := .unblockTake t false) (fun _ _ => Iff.rfl) hlock ?_ ?_ (by rintro _ ⟨⟩)
        · show (s.pc c).Leads _
          rw [hpc]
          exact ⟨(by rintro ⟨⟩), (by rintro ⟨⟩), (by rintro ⟨⟩), (by rintro _ ⟨⟩)⟩
        · intro v heq
          cases heq
          exact ⟨hall, Function.update_self .., ht.not_idle⟩
  | yield c =>
    simp only [nextSched] at hs
    split_ifs at hs with hpc
    cases hs
    exact h.move hpc ⟨(by rintro ⟨⟩), (by rintro ⟨⟩), (by rintro ⟨⟩), (by rintro _ ⟨⟩)⟩ rfl rfl rfl
  | wait c =>
    simp only [nextSched] at hs
    split at hs
    · cases hs
    · rename_i t hcur
      split_ifs at hs with hguard
      cases hs
      obtain ⟨hpc, hidle, hfree⟩ := hguard
      have hwait := h.setWaiting (t := t) true (fun _ => h.settled hcur hidle)
      exact hwait.setBlockLock (Or.inl hfree) (by rw [hpc]; rfl) (by rw [hpc]; rintro ⟨⟩) (by rintro _ ⟨⟩)
        (by rw [hpc]; rintro ⟨⟩) (fun _ => ⟨hcur, rfl⟩) (by rintro _ ⟨⟩) rfl
  | idle c =>
    simp only [nextSched] at hs
    split at hs
    · cases hs
    · rename_i t hcur
      split_ifs at hs with hguard
      cases hs
      obtain ⟨hpc, -, hfree⟩ := hguard
      exact h.setBlockLock (Or.inl hfree) (by rw [hpc]; rfl) (by rw [hpc]; rintro ⟨⟩) (by rintro _ ⟨⟩)
        (by rw [hpc]; rintro ⟨⟩) (fun _ => ⟨hcur, rfl⟩) (by rintro _ ⟨⟩) rfl
  | exit c =>
    simp only [nextSched] at hs
    split_ifs at hs with hpc
    cases hs
    exact h.move hpc ⟨(by rintro ⟨⟩), (by rintro ⟨⟩), (by rintro ⟨⟩), (by rintro _ ⟨⟩)⟩ rfl rfl rfl
  | unblock c t =>
    simp only [nextSched] at hs
    split_ifs at hs with hguard
    cases hs
    obtain ⟨hpc, hwait⟩ := hguard
    have hset := h.placed.waiting t hwait
    have hlock := (h.cpus c).lock
    refine (h.setWaiting (t := t) false (by rintro ⟨⟩)).goto
      (p := .unblockTake t (s.pc c = .exiting)) (fun _ _ => Iff.rfl) ?_ ?_ ?_ (by rintro _ ⟨⟩)
    · rcases hpc with hpc | hpc <;> rw [hpc] at hlock <;> exact hlock
    · show (s.pc c).Leads _
      rcases hpc with hpc | hpc <;> rw [hpc] <;>
        exact ⟨(by rintro ⟨⟩), (by rintro ⟨⟩), (by rintro ⟨⟩), (by rintro _ ⟨⟩)⟩
    · intro v heq
      cases heq
      exact hset
  | terminate t =>
    simp only [nextSched] at hs
    split_ifs at hs
    cases hs
    exact h.setOther _ _
  | step c =>
    simp only [nextSched] at hs
    split at hs
    · cases hs
    · rename_i t hcur
      exact schedInv_cpuStep h hcur hs

end Run

/-- In every run of the scheduler, threads are where they may be in every state reached. -/
theorem schedSafe_of_run {tr : List (SchedState × SchedAction)} {s : SchedState}
    (h : Exec (fun s a s' => nextSched s a = some s') schedStart tr s) : Always SchedSafe tr s := by
  have hinv := h.always schedStart_inv (fun _ _ _ => schedInv_nextSched)
  exact hinv.mono fun _ => SchedInv.safe

/-- A CPU boots, creates its idle thread 1 and thread 2, and its main thread yields to it. -/
def boot (c : Cpu) : List SchedAction :=
  [.initMain c 0, .init c 1, .place c 1, .init c 2, .place c 2, .step c, .step c, .step c, .step c,
    .step c, .step c, .yield c, .step c, .step c, .step c, .step c, .step c, .step c]

theorem schedSafe_of_boot : ∃ h : (exec nextSched schedStart (boot ⟨0⟩)).isSome,
    ((exec nextSched schedStart (boot ⟨0⟩)).get h).2.currentThread ⟨0⟩ = some 2 ∧
    ((exec nextSched schedStart (boot ⟨0⟩)).get h).2.readyThreadsList = [0] ∧
    Always SchedSafe ((exec nextSched schedStart (boot ⟨0⟩)).get h).1
      ((exec nextSched schedStart (boot ⟨0⟩)).get h).2 :=
  ⟨by decide, by decide, by decide, schedSafe_of_run (exec_get (by decide))⟩

end HAL9000.Thread
