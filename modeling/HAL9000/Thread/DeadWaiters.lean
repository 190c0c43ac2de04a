import HAL9000.Thread.Termination

/-! Which threads can be linked in a waiting list, and what a step of a call does to them. -/
namespace HAL9000.Thread

open Sync

/-- The thread has entered `ThreadExit`. -/
def ThreadPc.exits : ThreadPc → Bool
  | .exitDying | .exited | .call _ _ true => true
  | _ => false

/-- The thread is dying. -/
def ThreadPc.dead : ThreadPc → Bool
  | .exited | .call _ _ true => true
  | _ => false

/-- A thread taken out of the list of object `i` blocks there until it is woken, unless it has
been made to exit. -/
def Awaited (s : TerminationState) (i : ℕ) (u : Tid) : Prop :=
  (∃ pc, s.pc u = .call i pc false ∧ pc.waits = true) ∨ (s.pc u).exits = true

structure TerminationInv (s : TerminationState) : Prop where
  lock : ∀ t i pc b, s.pc t = .call i pc b → pc.locked = true → (s.objects i).lock = some t
  linked : ∀ i, ∀ t ∈ (s.objects i).waitingList, ∃ pc, s.pc t = .call i pc false ∧ pc.linked = true
  nodup : ∀ i, (s.objects i).waitingList.Nodup
  wakes : ∀ t i pc b u, s.pc t = .call i pc b → pc.wakes = some u →
    u ∉ (s.objects i).waitingList ∧ Awaited s i u
  exiting : ∀ t i pc, s.pc t = .call i pc true → pc.signals = true
  dead : ∀ t, s.state t = .dying ∨ s.destroyed t = true → (s.pc t).dead = true

theorem TerminationInv.noDeadWaiter {s : TerminationState} (h : TerminationInv s) :
    NoDeadWaiter s := by
  intro t ht i hmem
  obtain ⟨pc, hpc, -⟩ := h.linked i t hmem
  have hdead := h.dead t ht
  rw [hpc] at hdead
  cases hdead

theorem TerminationStart.inv {s : TerminationState} (h : TerminationStart s) : TerminationInv s where
  lock t i pc b hpc := by simp [h.pc t] at hpc
  linked i t hmem := by simp [h.waitingList i] at hmem
  nodup i := by simp [h.waitingList i]
  wakes t i pc b u hpc := by simp [h.pc t] at hpc
  exiting t i pc hpc := by simp [h.pc t] at hpc
  dead t ht := by simp [h.state t, h.destroyed t] at ht

section Goto

variable {s : TerminationState} {t : Tid} {p : ThreadPc}

/-- A thread that is not linked may go to any place where it is neither linked nor holds a lock. -/
theorem TerminationInv.goto (h : TerminationInv s) (hout : ∀ i, t ∉ (s.objects i).waitingList)
    (hcall : ∀ i pc b, p = .call i pc b → pc.locked = false ∧ (b = true → pc.signals = true))
    (hawait : p.exits = true ∨ ∀ i, ¬ Awaited s i t) {state : Tid → ThreadState}
    (hstate : ∀ u ≠ t, state u = s.state u) (hdead : state t = .dying → p.dead = true)
    (hdestroyed : s.destroyed t = true → p.dead = true) (flags : Tid → DWORD) :
    TerminationInv ({ s with state := state, flags := flags }.goto t p) := by
  have hself : ∀ {r i pc b}, Function.update s.pc t p r = .call i pc b →
      r ≠ t ∧ s.pc r = .call i pc b ∨ r = t ∧ p = .call i pc b := by
    intro r i pc b hr
    by_cases hrt : r = t
    · rw [hrt, Function.update_self] at hr
      exact Or.inr ⟨hrt, hr⟩
    · rw [Function.update_of_ne hrt] at hr
      exact Or.inl ⟨hrt, hr⟩
  constructor
  · intro r i pc b hr hl
    rcases hself hr with ⟨-, hr⟩ | ⟨-, hr⟩
    · exact h.lock r i pc b hr hl
    · simp [(hcall i pc b hr).1] at hl
  · intro i r hr
    obtain ⟨pc, hpc, hl⟩ := h.linked i r hr
    have hrt : r ≠ t := by
      intro heq
      subst heq
      exact hout i hr
    exact ⟨pc, by simpa [TerminationState.goto, Function.update_of_ne hrt] using hpc, hl⟩
  · exact h.nodup
  · intro r i pc b u hr hw
    rcases hself hr with ⟨-, hr⟩ | ⟨-, hr⟩
    · obtain ⟨hnot, hwait⟩ := h.wakes r i pc b u hr hw
      refine ⟨hnot, ?_⟩
      by_cases hut : u = t
      · subst hut
        rcases hawait with hexit | hnone
        · exact Or.inr (by simpa [TerminationState.goto] using hexit)
        · exact absurd hwait (hnone i)
      · simpa [Awaited, TerminationState.goto, Function.update_of_ne hut] using hwait
    · have hlocked := WaitPc.locked_of_wakes hw
      simp [(hcall i pc b hr).1] at hlocked
  · intro r i pc hr
    rcases hself hr with ⟨-, hr⟩ | ⟨-, hr⟩
    · exact h.exiting r i pc hr
    · exact (hcall i pc true hr).2 rfl
  · intro r hr
    by_cases hrt : r = t
    · subst hrt
      simp only [TerminationState.goto, Function.update_self]
      exact hr.elim hdead hdestroyed
    · simp only [TerminationState.goto, Function.update_of_ne hrt]
      exact h.dead r (hr.imp_left fun hs => (hstate r hrt).symm.trans hs)

theorem TerminationInv.not_linked (h : TerminationInv s)
    (hpc : ∀ i pc, s.pc t = .call i pc false → pc.linked = false) (i : ℕ) :
    t ∉ (s.objects i).waitingList := by
  intro hmem
  obtain ⟨pc, hcall, hl⟩ := h.linked i t hmem
  simp [hpc i pc hcall] at hl

end Goto

section Call

variable {s s' : TerminationState} {t : Tid} {i : ℕ} {pc pc' : WaitPc} {b : Bool}
  {o' : WaitObject} {w : Option Tid}

theorem ThreadPc.afterCall_eq_call {j : ℕ} {q : WaitPc} {b' : Bool}
    (h : ThreadPc.afterCall i pc b = .call j q b') :
    i = j ∧ pc = q ∧ b = b' ∧ pc.returned = false := by
  unfold ThreadPc.afterCall at h
  split_ifs at h with hr hb
  cases h
  exact ⟨rfl, rfl, rfl, by simpa using hr⟩

theorem ThreadPc.exits_of_dead {p : ThreadPc} (h : p.dead = true) : p.exits = true := by
  unfold ThreadPc.dead at h
  split at h
  · rfl
  · rfl
  · cases h

theorem ThreadPc.dead_afterCall (i : ℕ) (pc : WaitPc) :
    (ThreadPc.afterCall i pc true).dead = true := by
  unfold ThreadPc.afterCall
  cases pc.returned <;> rfl

/-- A step of `t` in a call on object `i`. -/
structure CallStep (s s' : TerminationState) (t : Tid) (i : ℕ) (pc pc' : WaitPc) (b : Bool)
    (o' : WaitObject) (w : Option Tid) : Prop where
  start : s.pc t = .call i pc b
  step : waitStep t (s.objects i) pc = some (o', pc', w)
  objects : s'.objects = Function.update s.objects i o'
  self : s'.pc t = .afterCall i pc' b
  others : ∀ r ≠ t, s'.pc r = s.pc r ∨
    (pc.wakes = some r ∧ s.pc r = .call i pc.blocked false ∧ s'.pc r = .call i pc.woken false)
  state : ∀ r, s'.state r = .dying → s.state r = .dying
  destroyed : s'.destroyed = s.destroyed

theorem callStep_of_eq (hpc : s.pc t = .call i pc b)
    (hn : ¬ (pc.blocks = true ∧ s.flags t = threadFlagForceTerminatePending))
    (h : s.callStep t i pc b = some s') : ∃ pc' o' w, CallStep s s' t i pc pc' b o' w := by
  unfold TerminationState.callStep at h
  rw [if_neg hn] at h
  obtain ⟨⟨o', pc', w⟩, hstep, h⟩ := Option.bind_eq_some_iff.mp h
  obtain ⟨pcs, hmove, rfl⟩ := Option.map_eq_some_iff.mp h
  have hnb : s.pc t ≠ .call i pc.blocked false := by
    rw [hpc]
    intro heq
    simp only [ThreadPc.call.injEq, true_and] at heq
    exact waitStep_not_blocked hstep heq.1
  refine ⟨pc', o', w, hpc, hstep, rfl, Threads.move_self hmove hnb, ?_, ?_, rfl⟩
  · intro r hr
    by_cases hw : w = some r
    · subst hw
      exact Or.inr ⟨(waitStep_wakes hstep).symm, Threads.move_woken hmove⟩
    · exact Or.inl (Threads.move_of_ne hmove hr hw)
  · intro r hr
    simp only [TerminationState.stateAfter] at hr
    have hold : ∀ u x, x ≠ ThreadState.dying → ∀ f : Tid → ThreadState,
        Function.update f u x r = .dying → f r = .dying := by
      intro u x hx f hf
      by_cases hru : r = u
      · rw [hru, Function.update_self] at hf
        exact absurd hf hx
      · rwa [Function.update_of_ne hru] at hf
    have hblock : (if pc.blocks then Function.update s.state t .blocked else s.state) r = .dying →
        s.state r = .dying := by
      split_ifs
      · exact hold t .blocked nofun s.state
      · exact id
    cases w with
    | none => exact hblock hr
    | some u => exact hblock (hold u .ready nofun _ hr)

/-- A thread of the list is not woken by the step. -/
private theorem CallStep.pc_of_linked (hc : CallStep s s' t i pc pc' b o' w) (h : TerminationInv s)
    {j : ℕ} {u : Tid} (hu : u ∈ (s.objects j).waitingList) (hut : u ≠ t) : s'.pc u = s.pc u := by
  rcases hc.others u hut with hsame | ⟨hw, hb, -⟩
  · exact hsame
  · obtain ⟨q, hq, -⟩ := h.linked j u hu
    rw [hb] at hq
    cases hq
    exact absurd hu (h.wakes t i pc b u hc.start hw).1

private theorem CallStep.lock (hc : CallStep s s' t i pc pc' b o' w) (h : TerminationInv s)
    {r : Tid} {j : ℕ} {q : WaitPc} {b' : Bool} (hr : s'.pc r = .call j q b')
    (hl : q.locked = true) : (s'.objects j).lock = some r := by
  rw [hc.objects]
  by_cases hrt : r = t
  · subst hrt
    rw [hc.self] at hr
    obtain ⟨rfl, rfl, -, -⟩ := ThreadPc.afterCall_eq_call hr
    rw [Function.update_self]
    rcases waitStep_lock hc.step with ⟨ho, hp⟩ | ⟨-, ho, -⟩ | ⟨-, -, hp⟩
    · rw [ho]
      exact h.lock r i pc b hc.start (hp ▸ hl)
    · exact ho
    · simp [hp] at hl
  · rcases hc.others r hrt with hsame | ⟨-, -, hw⟩
    · rw [hsame] at hr
      have hlock := h.lock r j q b' hr hl
      by_cases hj : j = i
      · subst hj
        rw [Function.update_self]
        rcases waitStep_lock hc.step with ⟨ho, -⟩ | ⟨hn, -, -⟩ | ⟨hp, -, -⟩
        · rw [ho]
          exact hlock
        · simp [hn] at hlock
        · rw [h.lock t j pc b hc.start hp] at hlock
          exact absurd (Option.some.inj hlock).symm hrt
      · rwa [Function.update_of_ne hj]
    · rw [hw] at hr
      cases hr
      simp [WaitPc.locked_woken] at hl

private theorem CallStep.linked (hc : CallStep s s' t i pc pc' b o' w) (h : TerminationInv s)
    {j : ℕ} {u : Tid} (hu : u ∈ (s'.objects j).waitingList) :
    ∃ q, s'.pc u = .call j q false ∧ q.linked = true := by
  have hold : u ≠ t → u ∈ (s.objects j).waitingList → ∃ q, s'.pc u = .call j q false ∧
      q.linked = true := by
    intro hut hmem
    rw [hc.pc_of_linked h hmem hut]
    exact h.linked j u hmem
  have hself : b = false → pc'.linked = true → ∃ q, s'.pc t = .call i q false ∧
      q.linked = true := by
    intro hb hl
    refine ⟨pc', ?_, hl⟩
    rw [hc.self, ThreadPc.afterCall, WaitPc.returned_of_linked hl, hb]
    rfl
  have hstart : ∀ {j}, t ∈ (s.objects j).waitingList → j = i ∧ b = false ∧ pc.linked = true := by
    intro j hmem
    obtain ⟨q, hq, hl⟩ := h.linked j t hmem
    rw [hc.start] at hq
    cases hq
    exact ⟨rfl, rfl, hl⟩
  rw [hc.objects] at hu
  by_cases hj : j = i
  · subst hj
    rw [Function.update_self] at hu
    have heff := waitStep_list hc.step
    generalize hlist : (s.objects j).waitingList = list at heff
    generalize o'.waitingList = list' at heff hu
    cases heff with
    | keep hl _ _ =>
      by_cases hut : u = t
      · subst hut
        obtain ⟨-, hb, hlinked⟩ := hstart (hlist ▸ hu)
        exact hself hb (hl.trans hlinked)
      · exact hold hut (hlist ▸ hu)
    | insert _ hafter _ hcall =>
      by_cases hut : u = t
      · subst hut
        apply hself _ hafter
        by_contra hb
        have hsig := h.exiting u j pc (by rw [hc.start]; simpa using hb)
        simp [hcall] at hsig
      · refine hold hut (hlist ▸ ?_)
        simpa [hut] using hu
    | remove _ hbefore _ =>
      have hmem : u ∈ (s.objects j).waitingList := hlist ▸ List.mem_cons_of_mem _ hu
      have hut : u ≠ t := by
        intro heq
        subst heq
        simp [(hstart hmem).2.2] at hbefore
      exact hold hut hmem
  · rw [Function.update_of_ne hj] at hu
    have hut : u ≠ t := by
      intro heq
      subst heq
      exact hj (hstart hu).1
    exact hold hut hu

private theorem CallStep.nodup (hc : CallStep s s' t i pc pc' b o' w) (h : TerminationInv s)
    (j : ℕ) : (s'.objects j).waitingList.Nodup := by
  rw [hc.objects]
  by_cases hj : j = i
  · subst hj
    rw [Function.update_self]
    have heff := waitStep_list hc.step
    have hnd := h.nodup j
    generalize hlist : (s.objects j).waitingList = list at heff hnd
    generalize o'.waitingList = list' at heff
    cases heff with
    | keep _ _ _ => exact hnd
    | insert hbefore _ _ _ =>
      have hout : t ∉ list := by
        rw [← hlist]
        apply h.not_linked
        intro k q hq
        rw [hc.start] at hq
        cases hq
        exact hbefore
      exact List.nodup_append.mpr ⟨hnd, by simp, by grind⟩
    | remove _ _ _ => exact hnd.of_cons
  · rw [Function.update_of_ne hj]
    exact h.nodup j

/-- Who has been taken out of a list and not woken yet stays out of it, and keeps waiting. -/
private theorem CallStep.awaited (hc : CallStep s s' t i pc pc' b o' w) (h : TerminationInv s)
    {r : Tid} {j : ℕ} {q : WaitPc} {b' : Bool} {u : Tid} (hrt : r ≠ t)
    (hr : s.pc r = .call j q b') (hw : q.wakes = some u) :
    u ∉ (s'.objects j).waitingList ∧ Awaited s' j u := by
  obtain ⟨hout, hwait⟩ := h.wakes r j q b' u hr hw
  have hstart : u = t → (j = i ∧ b = false ∧ pc.waits = true) ∨ b = true := by
    intro heq
    subst heq
    rcases hwait with ⟨q', hq', hq'w⟩ | hexit
    · rw [hc.start] at hq'
      cases hq'
      exact Or.inl ⟨rfl, rfl, hq'w⟩
    · rw [hc.start] at hexit
      cases b
      · cases hexit
      · exact Or.inr rfl
  have hsignals : b = true → pc.signals = true := by
    intro heq
    subst heq
    exact h.exiting t i pc hc.start
  have heff := waitStep_list hc.step
  constructor
  · rw [hc.objects]
    by_cases hj : j = i
    · subst hj
      rw [Function.update_self]
      generalize hlist : (s.objects j).waitingList = list at heff hout
      generalize o'.waitingList = list' at heff
      cases heff with
      | keep _ _ _ => exact hout
      | insert hbefore _ _ hcall =>
        have hut : u ≠ t := by
          intro hut
          rcases hstart hut with ⟨-, -, hwaits⟩ | hb
          · simp [WaitPc.linked_of_waits hwaits] at hbefore
          · simp [hsignals hb] at hcall
        simpa [hut] using hout
      | remove _ _ _ => exact fun hmem => hout (List.mem_cons_of_mem _ hmem)
    · rwa [Function.update_of_ne hj]
  · by_cases hut : u = t
    · subst hut
      rcases hstart rfl with ⟨rfl, rfl, hwaits⟩ | rfl
      · have hwaits' := heff.waits hwaits
        refine Or.inl ⟨pc', ?_, hwaits'⟩
        rw [hc.self, ThreadPc.afterCall,
          WaitPc.returned_of_linked (WaitPc.linked_of_waits hwaits')]
        rfl
      · refine Or.inr ?_
        rw [hc.self]
        exact ThreadPc.exits_of_dead (ThreadPc.dead_afterCall i pc')
    · rcases hc.others u hut with hsame | ⟨hwu, hb, -⟩
      · simpa only [Awaited, hsame] using hwait
      · exfalso
        have hji : j = i := by
          rcases hwait with ⟨q', hq', -⟩ | hexit
          · rw [hb] at hq'
            cases hq'
            rfl
          · rw [hb] at hexit
            cases hexit
        subst hji
        have hl := h.lock r j q b' hr (WaitPc.locked_of_wakes hw)
        rw [h.lock t j pc b hc.start (WaitPc.locked_of_wakes hwu)] at hl
        exact hrt (Option.some.inj hl).symm

/-- Who is taken out of the list blocks there already: its lock is held by `t`. -/
private theorem CallStep.removed (hc : CallStep s s' t i pc pc' b o' w) (h : TerminationInv s)
    {u : Tid} (hw : pc'.wakes = some u) :
    u ∉ (s'.objects i).waitingList ∧ Awaited s' i u := by
  rw [hc.objects, Function.update_self]
  have heff := waitStep_list hc.step
  have hnd := h.nodup i
  generalize hlist : (s.objects i).waitingList = list at heff hnd
  generalize o'.waitingList = list' at heff
  cases heff with
  | keep _ _ hnone => simp [hnone] at hw
  | insert _ _ hnone _ => simp [hnone] at hw
  | @remove v rest hlocked hbefore hv =>
    obtain rfl : v = u := Option.some.inj (hv.symm.trans hw)
    have hmem : v ∈ (s.objects i).waitingList := by simp [hlist]
    obtain ⟨q, hq, hl⟩ := h.linked i v hmem
    have hvt : v ≠ t := by
      intro heq
      subst heq
      rw [hc.start] at hq
      cases hq
      simp [hbefore] at hl
    refine ⟨(List.nodup_cons.mp hnd).1, Or.inl ⟨q, ?_, ?_⟩⟩
    · rw [hc.pc_of_linked h hmem hvt, hq]
    · apply WaitPc.waits_of_linked hl
      by_contra hql
      have hlock := h.lock v i q false hq (by simpa using hql)
      rw [h.lock t i pc b hc.start hlocked] at hlock
      exact hvt (Option.some.inj hlock).symm

theorem CallStep.inv (hc : CallStep s s' t i pc pc' b o' w) (h : TerminationInv s) :
    TerminationInv s' where
  lock r j q b' hr hl := hc.lock h hr hl
  linked j u hu := hc.linked h hu
  nodup j := hc.nodup h j
  wakes r j q b' u hr hw := by
    by_cases hrt : r = t
    · subst hrt
      rw [hc.self] at hr
      obtain ⟨rfl, rfl, -, -⟩ := ThreadPc.afterCall_eq_call hr
      exact hc.removed h hw
    · rcases hc.others r hrt with hsame | ⟨-, -, hwoken⟩
      · exact hc.awaited h hrt (hsame ▸ hr) hw
      · rw [hwoken] at hr
        cases hr
        have hlocked := WaitPc.locked_of_wakes hw
        simp [WaitPc.locked_woken] at hlocked
  exiting r j q hr := by
    by_cases hrt : r = t
    · subst hrt
      rw [hc.self] at hr
      obtain ⟨rfl, rfl, rfl, hret⟩ := ThreadPc.afterCall_eq_call hr
      exact waitStep_signals hc.step (h.exiting r i pc hc.start) hret
    · rcases hc.others r hrt with hsame | ⟨-, -, hwoken⟩
      · exact h.exiting r j q (hsame ▸ hr)
      · rw [hwoken] at hr
        cases hr
  dead r hr := by
    have hdead := h.dead r (by rw [hc.destroyed] at hr; exact hr.imp_left (hc.state r))
    by_cases hrt : r = t
    · subst hrt
      rw [hc.start] at hdead
      cases b
      · cases hdead
      · rw [hc.self]
        exact ThreadPc.dead_afterCall i pc'
    · rcases hc.others r hrt with hsame | ⟨-, hb, -⟩
      · rwa [hsame]
      · rw [hb] at hdead
        cases hdead

end Call

end HAL9000.Thread
