import HAL9000.Io.AtaChannel

/-! The invariant of one ATA channel while its two units are kept apart: who transfers, what is
outstanding, and how far the interrupt of a DMA command has come. -/
namespace HAL9000.Io

open Run

variable {Thread Handler : Type}

namespace AtaPc

/-- The thread has issued a command and does not know yet that it has ended. -/
def issued : AtaPc → Bool
  | .running _ _ stage =>
    match stage with
    | .startBusMaster | .waitTransfer | .transferBuffer => true
    | _ => false
  | _ => false

/-- What the state of a unit is when the holder of its `DeviceLock` stands here. -/
def Fits (d : AtaUnitState Thread) : AtaPc → Prop
  | .outside | .assertFailed => False
  | .dispatching _ _ | .completing _ _ => d.state = .free
  | .running u r stage =>
    match stage with
    | .startTransfer => d.state = .free
    | .waitIdle | .selectDevice | .waitReady | .writeDeviceControl | .writeIoParameters =>
      d.state = .inProgress
    | .prepareDma => d.state = .inProgress ∧ r.asynchronous = true
    | .writeCommand => d.state = .inProgress ∧ (r.asynchronous = true → d.prdt = true)
    | .startBusMaster =>
      d.state = .inProgress ∧ u = .master ∧ r.asynchronous = true ∧ d.prdt = true
    | .waitTransfer => u = .master ∧ r.asynchronous = true ∧ d.prdt = true
    | .checkFinished => d.state = .finished ∧ d.prdt = true
    | .transferBuffer => d.state = .inProgress ∧ r.asynchronous = false
    | .freeTransfer _ => True

/-- Whether the command the thread has issued is a DMA command. -/
def issuesDma : AtaPc → Bool
  | .running _ r _ => r.asynchronous
  | _ => false

theorem transferring_of_issued {p : AtaPc} (h : p.issued = true) : p.transferring = true := by
  cases p with
  | running u r stage => cases stage <;> simp_all [issued, transferring]
  | _ => simp [issued] at h

theorem fits_deviceLock {p : AtaPc} {d : AtaUnitState Thread} {v : Option Thread} (h : p.Fits d) :
    p.Fits { d with deviceLock := v } := by
  cases p with
  | running u r stage => cases stage <;> exact h
  | _ => exact h

theorem unit_of_transferring {p : AtaPc} (h : p.transferring = true) : ∃ u, p.unit = some u := by
  cases p with
  | running u r stage => exact ⟨u, rfl⟩
  | _ => simp [transferring] at h

end AtaPc

/-- How far the interrupt of a DMA command has come: no command has ended, the interrupt is raised,
handler `i` looks for the unit, it has passed the master by, it has set the state, the event is
signaled. -/
inductive DmaPhase (Handler : Type)
  | quiet
  | raised
  | handling (i : Handler)
  | passed (i : Handler)
  | finished (i : Handler)
  | ready

namespace DmaPhase

def owner : DmaPhase Handler → Option Handler
  | .handling i | .passed i | .finished i => some i
  | .quiet | .raised | .ready => none

def pending : DmaPhase Handler → ℕ
  | .raised => 1
  | _ => 0

def state : DmaPhase Handler → AtaTransferState
  | .finished _ | .ready => .finished
  | _ => .inProgress

def signaled : DmaPhase Handler → Bool
  | .ready => true
  | _ => false

/-- Where the handler of the interrupt stands, and whether the bus master runs. -/
def Stage (s : AtaChannel Thread Handler) : DmaPhase Handler → Prop
  | .quiet | .raised => True
  | .handling i =>
    s.isr i = .selectDevice .master ∨ s.isr i = .readBusStatus .master ∨
      s.isr i = .readStatus .master ∨ s.isr i = .stopBusMaster .master ∨
      s.isr i = .finishTransfer .master ∧ s.busStarted = false
  | .passed i => (s.isr i = .selectDevice .slave ∨ s.isr i = .readBusStatus .slave) ∧ s.busIrq = false
  | .finished i => s.isr i = .signal .master ∧ s.busStarted = false
  | .ready => s.busStarted = false

end DmaPhase

/-- A request to the master waits for the end of its DMA command. -/
def WaitsForDma (s : AtaChannel Thread Handler) (t : Thread) : Prop :=
  ∃ r, s.pc t = .running .master r .waitTransfer

structure DmaInv (s : AtaChannel Thread Handler) (p : DmaPhase Handler) : Prop where
  interrupts : s.interrupts = p.pending
  ready : (s.units .master).transferReady = p.signaled
  handlers : ∀ i, p.owner ≠ some i → s.isr i = .idle ∨ s.isr i = .clearIrq .master
  ended : p = .quiet ∨ s.commands = [] ∧ ∃ t, WaitsForDma s t
  state : ∀ t, WaitsForDma s t → (s.units .master).state = p.state
  stage : p.Stage s

/-- Every outstanding command is that of a thread which waits for it. -/
def Outstanding (s : AtaChannel Thread Handler) : Prop :=
  s.commands = [] ∨ ∃ c, s.commands = [c] ∧ (s.pc c.requester).issued = true ∧
    (s.pc c.requester).issuesDma = c.dma

structure AtaInv (s : AtaChannel Thread Handler) : Prop where
  holds : ∀ t u, (s.pc t).unit = some u ↔ (s.units u).deviceLock = some t
  released : ∀ u, (s.units u).deviceLock = none → (s.units u).state = .free
  fits : ∀ t u, (s.pc t).unit = some u → (s.pc t).Fits (s.units u)
  alive : ∀ t, s.pc t ≠ .assertFailed
  exclusive : ∀ t t', (s.pc t).transferring = true → (s.pc t').transferring = true → t = t'
  outstanding : Outstanding s
  started : s.busStarted = true → ∃ t, WaitsForDma s t
  working : ∀ u, s.failed u = false
  dma : ∃ p, DmaInv s p

section Invariant

variable {s s' : AtaChannel Thread Handler} {t : Thread} {u : AtaUnit} {p : DmaPhase Handler}

theorem WaitsForDma.unit (h : WaitsForDma s t) : (s.pc t).unit = some .master := by
  obtain ⟨r, hp⟩ := h
  rw [hp]
  rfl

theorem WaitsForDma.issued (h : WaitsForDma s t) : (s.pc t).issued = true := by
  obtain ⟨r, hp⟩ := h
  rw [hp]
  rfl

theorem not_waitsForDma (h : (s.pc t).issued = false) : ¬ WaitsForDma s t := by
  intro hwaits
  rw [hwaits.issued] at h
  cases h

theorem AtaInv.eq_of_unit (hi : AtaInv s) {t' : Thread} (ht : (s.pc t).unit = some u)
    (ht' : (s.pc t').unit = some u) : t = t' :=
  Option.some.inj (((hi.holds t u).mp ht).symm.trans ((hi.holds t' u).mp ht'))

theorem AtaInv.safe (hi : AtaInv s) : AtaSafe s := by
  obtain ⟨p, hdma⟩ := hi.dma
  constructor
  · exact hi.alive
  · intro i
    by_cases hown : p.owner = some i
    · have hstage := hdma.stage
      cases p with
      | quiet | raised | ready => cases hown
      | handling j | passed j | finished j =>
        cases hown
        simp only [DmaPhase.Stage] at hstage
        intro hfail
        simp [hfail] at hstage
    · obtain hisr | hisr := hdma.handlers i hown
      · rw [hisr]
        nofun
      · rw [hisr]
        nofun
  · obtain hnone | ⟨c, hone, -⟩ := hi.outstanding
    · simp [hnone]
    · simp [hone]
  · intro t hresumed c hc hreq
    obtain hnone | ⟨c', hone, hissued, -⟩ := hi.outstanding
    · simp [hnone] at hc
    · obtain rfl : c = c' := by simpa [hone] using hc
      rw [hreq] at hissued
      cases hp : s.pc t with
      | running u r stage => cases stage <;> simp_all [AtaPc.issued, AtaPc.resumed]
      | _ => simp [hp, AtaPc.resumed] at hresumed

/-- While a thread transfers that has not issued its command, none is outstanding. -/
theorem AtaInv.commands_eq_nil (hi : AtaInv s) (ht : (s.pc t).transferring = true)
    (hissued : (s.pc t).issued = false) : s.commands = [] := by
  obtain hnone | ⟨c, -, hc, -⟩ := hi.outstanding
  · exact hnone
  · have hreq := hi.exclusive c.requester t (AtaPc.transferring_of_issued hc) ht
    rw [hreq, hissued] at hc
    cases hc

section Threads

variable [DecidableEq Thread] {q : AtaPc} {d : AtaUnitState Thread}

/-- A thread goes on in its dispatch routine and changes only the state of its own unit. -/
theorem AtaInv.advance (hi : AtaInv s) (hu : (s.pc t).unit = some u)
    (hpc : s'.pc = Function.update s.pc t q) (hunits : s'.units = Function.update s.units u d)
    (hq : q.unit = some u) (hfit : q.Fits d) (hlock : d.deviceLock = (s.units u).deviceLock)
    (hapart : q.transferring = true → (s.pc t).transferring = true ∨
      ∀ t' ∈ (s.units u.other).deviceLock, (s.pc t').transferring = false)
    (hout : Outstanding s') (hstarted : s'.busStarted = true → ∃ t, WaitsForDma s' t)
    (hworking : ∀ u, s'.failed u = false) (hdma : ∃ p, DmaInv s' p) : AtaInv s' := by
  have hunit : ∀ t', (s'.pc t').unit = (s.pc t').unit := by
    intro t'
    rw [hpc]
    by_cases ht : t' = t
    · rw [ht, Function.update_self, hq, hu]
    · rw [Function.update_of_ne ht]
  have hlocks : ∀ v, (s'.units v).deviceLock = (s.units v).deviceLock := by
    intro v
    rw [hunits]
    by_cases hv : v = u
    · rw [hv, Function.update_self, hlock]
    · rw [Function.update_of_ne hv]
  have hmoves : ∀ t', t' ≠ t → q.transferring = true → (s.pc t').transferring = true → False := by
    intro t' ht hqt ht'
    obtain hown | hother := hapart hqt
    · exact ht (hi.exclusive t' t ht' hown)
    · obtain ⟨v, hv⟩ := AtaPc.unit_of_transferring ht'
      by_cases hvu : v = u
      · exact ht (hi.eq_of_unit (hvu ▸ hv) hu)
      · have hv' : v = u.other := by cases u <;> cases v <;> simp_all [AtaUnit.other]
        have hlocked := (hi.holds t' v).mp hv
        rw [hv'] at hlocked
        rw [hother t' hlocked] at ht'
        cases ht'
  refine ⟨?_, ?_, ?_, ?_, ?_, hout, hstarted, hworking, hdma⟩
  · intro t' v
    rw [hunit, hlocks]
    exact hi.holds t' v
  · intro v hv
    rw [hlocks] at hv
    have hvu : v ≠ u := by
      intro hvu
      rw [hvu, (hi.holds t u).mp hu] at hv
      cases hv
    rw [hunits, Function.update_of_ne hvu]
    exact hi.released v hv
  · intro t' v hv
    rw [hunit] at hv
    by_cases ht : t' = t
    · obtain rfl : u = v := Option.some.inj (hu.symm.trans (ht ▸ hv))
      rw [hpc, hunits, ht, Function.update_self, Function.update_self]
      exact hfit
    · have hvu : v ≠ u := fun hvu => ht (hi.eq_of_unit (hvu ▸ hv) hu)
      rw [hpc, hunits, Function.update_of_ne ht, Function.update_of_ne hvu]
      exact hi.fits t' v hv
  · intro t' hfail
    rw [hpc] at hfail
    by_cases ht : t' = t
    · rw [ht, Function.update_self] at hfail
      rw [hfail] at hq
      cases hq
    · rw [Function.update_of_ne ht] at hfail
      exact hi.alive t' hfail
  · intro t₁ t₂ h₁ h₂
    rw [hpc] at h₁ h₂
    by_cases ht₁ : t₁ = t
    · by_cases ht₂ : t₂ = t
      · rw [ht₁, ht₂]
      · rw [ht₁, Function.update_self] at h₁
        rw [Function.update_of_ne ht₂] at h₂
        exact (hmoves t₂ ht₂ h₁ h₂).elim
    · rw [Function.update_of_ne ht₁] at h₁
      by_cases ht₂ : t₂ = t
      · rw [ht₂, Function.update_self] at h₂
        exact (hmoves t₁ ht₁ h₂ h₁).elim
      · rw [Function.update_of_ne ht₂] at h₂
        exact hi.exclusive t₁ t₂ h₁ h₂

/-- A thread that does not wait for a DMA command leaves those that do as they are. -/
theorem waitsForDma_iff (hpc : s'.pc = Function.update s.pc t q) (hbefore : ¬ WaitsForDma s t)
    (hafter : ¬ WaitsForDma s' t) (t' : Thread) : WaitsForDma s' t' ↔ WaitsForDma s t' := by
  by_cases ht : t' = t
  · subst ht
    exact iff_of_false hafter hbefore
  · unfold WaitsForDma
    rw [hpc, Function.update_of_ne ht]

/-- Nor does it change how far the interrupt has come. -/
theorem AtaInv.dma_frame (hi : AtaInv s)
    (hstate : (s.pc t).unit = some u ∨ d.state = (s.units u).state)
    (hpc : s'.pc = Function.update s.pc t q) (hunits : s'.units = Function.update s.units u d)
    (hready : d.transferReady = (s.units u).transferReady)
    (hbefore : ¬ WaitsForDma s t) (hafter : ¬ WaitsForDma s' t)
    (hisr : s'.isr = s.isr) (hinterrupts : s'.interrupts = s.interrupts)
    (hirq : s'.busIrq = s.busIrq) (hstarted : s'.busStarted = s.busStarted)
    (hcommands : ∀ t, WaitsForDma s t → s.commands = [] → s'.commands = []) :
    (s'.busStarted = true → ∃ t, WaitsForDma s' t) ∧ ∃ p, DmaInv s' p := by
  have hwaits := waitsForDma_iff hpc hbefore hafter
  constructor
  · intro h
    obtain ⟨t', ht'⟩ := hi.started (hstarted ▸ h)
    exact ⟨t', (hwaits t').mpr ht'⟩
  · obtain ⟨p, hdma⟩ := hi.dma
    refine ⟨p, hinterrupts.trans hdma.interrupts, ?_, ?_, ?_, ?_, ?_⟩
    · rw [← hdma.ready, hunits]
      by_cases hm : AtaUnit.master = u
      · rw [← hm, Function.update_self, hm, hready]
      · rw [Function.update_of_ne hm]
    · rw [hisr]
      exact hdma.handlers
    · obtain hquiet | ⟨hnone, t', ht'⟩ := hdma.ended
      · exact Or.inl hquiet
      · exact Or.inr ⟨hcommands t' ht' hnone, t', (hwaits t').mpr ht'⟩
    · intro t' ht'
      have ht' := (hwaits t').mp ht'
      rw [← hdma.state t' ht', hunits]
      by_cases hm : AtaUnit.master = u
      · obtain hu | hsame := hstate
        · obtain rfl := hi.eq_of_unit ht'.unit (hm ▸ hu)
          exact (hbefore ht').elim
        · rw [hm, Function.update_self, hsame]
      · rw [Function.update_of_ne hm]
    · have hstage := hdma.stage
      cases p <;> simp only [DmaPhase.Stage, hisr, hirq, hstarted] at hstage ⊢ <;> exact hstage

theorem Outstanding.frame (h : Outstanding s) (hpc : s'.pc = Function.update s.pc t q)
    (hbefore : (s.pc t).issued = false) (hcommands : s'.commands = s.commands) :
    Outstanding s' := by
  obtain hnone | ⟨c, hone, hissued, hc⟩ := h
  · exact Or.inl (hcommands.trans hnone)
  · have ht : c.requester ≠ t := by
      intro ht
      rw [ht, hbefore] at hissued
      cases hissued
    refine Or.inr ⟨c, hcommands.trans hone, ?_, ?_⟩
    · rw [hpc, Function.update_of_ne ht, hissued]
    · rw [hpc, Function.update_of_ne ht, hc]

/-- A step outside the part of the request that has a command outstanding. -/
theorem AtaInv.advance_unissued (hi : AtaInv s) (hu : (s.pc t).unit = some u)
    (hpc : s'.pc = Function.update s.pc t q) (hunits : s'.units = Function.update s.units u d)
    (hq : q.unit = some u) (hfit : q.Fits d) (hlock : d.deviceLock = (s.units u).deviceLock)
    (hready : d.transferReady = (s.units u).transferReady)
    (hapart : q.transferring = true → (s.pc t).transferring = true ∨
      ∀ t' ∈ (s.units u.other).deviceLock, (s.pc t').transferring = false)
    (hbefore : (s.pc t).issued = false) (hafter : q.issued = false)
    (hisr : s'.isr = s.isr) (hinterrupts : s'.interrupts = s.interrupts)
    (hirq : s'.busIrq = s.busIrq) (hstarted : s'.busStarted = s.busStarted)
    (hcommands : s'.commands = s.commands) (hfailed : s'.failed = s.failed) : AtaInv s' := by
  have hafter' : ¬ WaitsForDma s' t := by
    apply not_waitsForDma
    rw [hpc, Function.update_self, hafter]
  obtain ⟨hstarted', hdma⟩ := hi.dma_frame (Or.inl hu) hpc hunits hready (not_waitsForDma hbefore) hafter' hisr
    hinterrupts hirq hstarted fun _ _ h => hcommands.trans h
  apply hi.advance hu hpc hunits hq hfit hlock hapart ?_ hstarted' ?_ hdma
  · exact hi.outstanding.frame hpc hbefore hcommands
  · rw [hfailed]
    exact hi.working

theorem AtaInv.writeCommand {r : AtaRequest} (hi : AtaInv s)
    (hp : s.pc t = .running u r .writeCommand) (hdma : r.asynchronous = true → u = .master)
    (hs : s' = { s with
      failed := Function.update s.failed s.selected false
      commands := s.commands ++ [s.command t r] }.goto t
        (.running u r (if r.asynchronous then .startBusMaster else .transferBuffer))) :
    AtaInv s' := by
  have hu : (s.pc t).unit = some u := by rw [hp]; rfl
  have hissued : (s.pc t).issued = false := by rw [hp]; rfl
  have htransfer : (s.pc t).transferring = true := by rw [hp]; rfl
  have hpc : s'.pc = Function.update s.pc t
      (.running u r (if r.asynchronous then .startBusMaster else .transferBuffer)) := by
    rw [hs]
    rfl
  have hunits : s'.units = Function.update s.units u (s.units u) := by
    rw [hs, Function.update_eq_self]
    rfl
  have hfit := hi.fits t u hu
  rw [hp] at hfit
  have hnone := hi.commands_eq_nil htransfer hissued
  have hwaits : ∀ t', ¬ WaitsForDma s t' := by
    intro t' ht'
    have heq := hi.exclusive t' t (AtaPc.transferring_of_issued ht'.issued) htransfer
    rw [← heq, ht'.issued] at hissued
    cases hissued
  have hafter : ¬ WaitsForDma s' t := by
    intro hafter
    obtain ⟨r', hr'⟩ := hafter
    rw [hpc, Function.update_self] at hr'
    cases ha : r.asynchronous <;> simp [ha] at hr'
  obtain ⟨hstarted, hdma'⟩ := hi.dma_frame (Or.inl hu) hpc hunits rfl (hwaits t) hafter (by rw [hs]; rfl)
    (by rw [hs]; rfl) (by rw [hs]; rfl) (by rw [hs]; rfl) fun t' ht' => (hwaits t' ht').elim
  apply hi.advance hu hpc hunits rfl ?_ rfl (fun _ => Or.inl htransfer) ?_ hstarted ?_ hdma'
  · cases ha : r.asynchronous with
    | true => exact ⟨hfit.1, hdma ha, ha, hfit.2 ha⟩
    | false => exact ⟨hfit.1, ha⟩
  · refine Or.inr ⟨s.command t r, ?_, ?_, ?_⟩
    · rw [hs]
      simp [AtaChannel.goto, hnone]
    · have hself : s'.pc (s.command t r).requester = _ := (congrFun hpc t).trans (Function.update_self ..)
      rw [hself]
      cases r.asynchronous <;> rfl
    · have hself : s'.pc (s.command t r).requester = _ := (congrFun hpc t).trans (Function.update_self ..)
      rw [hself]
      rfl
  · intro v
    rw [hs]
    show Function.update s.failed s.selected false v = false
    by_cases hv : v = s.selected
    · rw [hv, Function.update_self]
    · rw [Function.update_of_ne hv]
      exact hi.working v

/-- The command of a synchronous request ends when its buffer has been transferred. -/
theorem AtaInv.transferBuffer {r : AtaRequest} (hi : AtaInv s)
    (hp : s.pc t = .running u r .transferBuffer) (hdone : s.commands.any s.bufferDone = true)
    (hs : s' = { s with commands := s.commands.eraseP s.bufferDone }.goto t
      (.running u r (.freeTransfer ⟨statusSuccess, r.sectorCount⟩))) : AtaInv s' := by
  have hu : (s.pc t).unit = some u := by rw [hp]; rfl
  have hpc : s'.pc = Function.update s.pc t
      (.running u r (.freeTransfer ⟨statusSuccess, r.sectorCount⟩)) := by
    rw [hs]
    rfl
  have hunits : s'.units = Function.update s.units u (s.units u) := by
    rw [hs, Function.update_eq_self]
    rfl
  have hnone : s'.commands = [] := by
    rw [hs]
    show s.commands.eraseP s.bufferDone = []
    obtain hnone | ⟨c, hone, -, -⟩ := hi.outstanding
    · rw [hnone]
      rfl
    · simpa [hone] using hdone
  have hbefore : ¬ WaitsForDma s t := by
    intro hbefore
    obtain ⟨r', hr'⟩ := hbefore
    rw [hp] at hr'
    cases hr'
  have hafter : ¬ WaitsForDma s' t := by
    apply not_waitsForDma
    rw [hpc, Function.update_self]
    rfl
  obtain ⟨hstarted, hdma⟩ := hi.dma_frame (Or.inl hu) hpc hunits rfl hbefore hafter (by rw [hs]; rfl)
    (by rw [hs]; rfl) (by rw [hs]; rfl) (by rw [hs]; rfl) fun _ _ _ => hnone
  apply hi.advance hu hpc hunits rfl trivial rfl nofun (Or.inl hnone) hstarted ?_ hdma
  rw [hs]
  exact hi.working

/-- The bus master is started while no interrupt of an earlier command is under way. -/
theorem AtaInv.startBusMaster {r : AtaRequest} (hi : AtaInv s)
    (hp : s.pc t = .running u r .startBusMaster)
    (hs : s' = { s with busStarted := true }.goto t (.running u r .waitTransfer)) : AtaInv s' := by
  have hu : (s.pc t).unit = some u := by rw [hp]; rfl
  have hfit := hi.fits t u hu
  rw [hp] at hfit
  obtain ⟨hstate, rfl, ha, hprdt⟩ := hfit
  have hpc : s'.pc = Function.update s.pc t (.running .master r .waitTransfer) := by
    rw [hs]
    rfl
  have hunits : s'.units = Function.update s.units .master (s.units .master) := by
    rw [hs, Function.update_eq_self]
    rfl
  have hwaits : WaitsForDma s' t := ⟨r, by rw [hpc, Function.update_self]⟩
  have hnone : ∀ t', ¬ WaitsForDma s t' := by
    intro t' ht'
    obtain rfl := hi.eq_of_unit ht'.unit hu
    obtain ⟨r', hr'⟩ := ht'
    rw [hp] at hr'
    cases hr'
  obtain ⟨p, hdma⟩ := hi.dma
  obtain rfl : p = .quiet := hdma.ended.elim id fun h => (hnone _ h.2.choose_spec).elim
  apply hi.advance hu hpc hunits rfl ⟨rfl, ha, hprdt⟩ rfl (fun _ => Or.inl (by rw [hp]; rfl)) ?_
    (fun _ => ⟨t, hwaits⟩) ?_ ⟨.quiet, ?_⟩
  · obtain hnone | ⟨c, hone, hissued, hc⟩ := hi.outstanding
    · left
      rw [hs]
      exact hnone
    · refine Or.inr ⟨c, by rw [hs]; exact hone, ?_⟩
      rw [hpc]
      by_cases ht : c.requester = t
      · rw [ht, hp] at hc
        rw [ht, Function.update_self]
        exact ⟨rfl, hc⟩
      · rw [Function.update_of_ne ht]
        exact ⟨hissued, hc⟩
  · rw [hs]
    exact hi.working
  · constructor
    · rw [hs]
      exact hdma.interrupts
    · rw [hs]
      exact hdma.ready
    · rw [hs]
      exact hdma.handlers
    · exact Or.inl rfl
    · intro t' _
      rw [hs]
      exact hstate
    · trivial

/-- A thread that `TransferReady` wakes finds its transfer finished. -/
theorem AtaInv.waitTransfer {r : AtaRequest} (hi : AtaInv s)
    (hp : s.pc t = .running u r .waitTransfer) (hready : (s.units u).transferReady = true)
    (hs : s' = (s.setUnit u { s.units u with transferReady := false }).goto t
      (.running u r .checkFinished)) : AtaInv s' := by
  have hu : (s.pc t).unit = some u := by rw [hp]; rfl
  have hfit := hi.fits t u hu
  rw [hp] at hfit
  obtain ⟨rfl, ha, hprdt⟩ := hfit
  have hpc : s'.pc = Function.update s.pc t (.running .master r .checkFinished) := by
    rw [hs]
    rfl
  have hunits : s'.units = Function.update s.units .master
      { s.units .master with transferReady := false } := by
    rw [hs]
    rfl
  have hnone : ∀ t', ¬ WaitsForDma s' t' := by
    intro t' ht'
    obtain ⟨r', hr'⟩ := ht'
    rw [hpc] at hr'
    by_cases ht : t' = t
    · rw [ht, Function.update_self] at hr'
      cases hr'
    · rw [Function.update_of_ne ht] at hr'
      exact ht (hi.eq_of_unit (by rw [hr']; rfl) hu)
  obtain ⟨p, hdma⟩ := hi.dma
  obtain rfl : p = .ready := by
    have hsignaled := hdma.ready.symm.trans hready
    cases p with
    | ready => rfl
    | _ => cases hsignaled
  have hcommands : s'.commands = [] := by
    rw [hs]
    obtain hquiet | ⟨hended, -⟩ := hdma.ended
    · cases hquiet
    · exact hended
  apply hi.advance hu hpc hunits rfl ⟨hdma.state t ⟨r, hp⟩, hprdt⟩ rfl nofun (Or.inl hcommands) ?_ ?_
    ⟨.quiet, ?_⟩
  · intro hstarted
    rw [hs] at hstarted
    exact Bool.noConfusion (hstarted.symm.trans hdma.stage)
  · rw [hs]
    exact hi.working
  · constructor
    · rw [hs]
      exact hdma.interrupts
    · rw [hunits, Function.update_self]
      rfl
    · rw [hs]
      exact hdma.handlers
    · exact Or.inl rfl
    · intro t' ht'
      exact (hnone t' ht').elim
    · trivial

/-- One step of `AtaReadWriteSectors` keeps the invariant, if it keeps the units apart. -/
theorem ataReadWriteStep_inv {r : AtaRequest} {stage : AtaStage} {dmaStatus : STATUS} (hi : AtaInv s)
    (hp : s.pc t = .running u r stage) (hkeep : KeepsApart s (.step t dmaStatus))
    (h : ataReadWriteStep s t dmaStatus u r stage = some s') : AtaInv s' := by
  have hu : (s.pc t).unit = some u := by rw [hp]; rfl
  have hfit := hi.fits t u hu
  have hsame := (Function.update_eq_self u s.units).symm
  rw [hp] at hfit
  simp only [KeepsApart, hp] at hkeep
  obtain ⟨hselect, hissue⟩ := hkeep
  cases stage with
  | startTransfer =>
    have hfree : (s.units u).state = .free := hfit
    simp only [ataReadWriteStep, if_pos hfree] at h
    cases h
    refine hi.advance_unissued hu rfl rfl rfl ?_ rfl rfl ?_ (by rw [hp]; rfl) ?_ rfl rfl rfl rfl rfl rfl
    · split_ifs
      · trivial
      · rfl
    · split_ifs
      · nofun
      · nofun
    · split_ifs
      · rfl
      · rfl
  | waitIdle =>
    simp only [ataReadWriteStep] at h
    split_ifs at h
    cases h
    exact hi.advance_unissued hu rfl hsame rfl hfit rfl rfl nofun (by rw [hp]; rfl) rfl rfl rfl rfl rfl
      rfl rfl
  | selectDevice =>
    cases h
    exact hi.advance_unissued hu rfl hsame rfl hfit rfl rfl (fun _ => Or.inr (hselect u rfl))
      (by rw [hp]; rfl) rfl rfl rfl rfl rfl rfl rfl
  | waitReady =>
    simp only [ataReadWriteStep] at h
    split_ifs at h
    cases h
    exact hi.advance_unissued hu rfl hsame rfl hfit rfl rfl (fun _ => Or.inl (by rw [hp]; rfl))
      (by rw [hp]; rfl) rfl rfl rfl rfl rfl rfl rfl
  | writeDeviceControl =>
    cases h
    exact hi.advance_unissued hu rfl rfl rfl hfit rfl rfl (fun _ => Or.inl (by rw [hp]; rfl))
      (by rw [hp]; rfl) rfl rfl rfl rfl rfl rfl rfl
  | writeIoParameters =>
    cases h
    refine hi.advance_unissued hu rfl hsame rfl ?_ rfl rfl (fun _ => Or.inl (by rw [hp]; rfl))
      (by rw [hp]; rfl) ?_ rfl rfl rfl rfl rfl rfl
    · cases ha : r.asynchronous with
      | true => exact ⟨hfit, ha⟩
      | false => exact ⟨hfit, by simp [ha]⟩
    · cases r.asynchronous <;> rfl
  | prepareDma =>
    simp only [ataReadWriteStep] at h
    split_ifs at h
    · cases h
      exact hi.advance_unissued hu rfl rfl rfl ⟨hfit.1, fun _ => rfl⟩ rfl rfl
        (fun _ => Or.inl (by rw [hp]; rfl)) (by rw [hp]; rfl) rfl rfl rfl rfl rfl rfl rfl
    · cases h
      exact hi.advance_unissued hu rfl hsame rfl trivial rfl rfl nofun (by rw [hp]; rfl) rfl rfl rfl
        rfl rfl rfl rfl
  | writeCommand =>
    apply hi.writeCommand hp ?_ (Option.some.inj h).symm
    intro ha
    cases u with
    | master => rfl
    | slave => simp [AtaPc.issuingDma, ha] at hissue
  | startBusMaster => exact hi.startBusMaster hp (Option.some.inj h).symm
  | waitTransfer =>
    simp only [ataReadWriteStep] at h
    split_ifs at h with hready
    exact hi.waitTransfer hp hready (Option.some.inj h).symm
  | checkFinished =>
    have hfinished : (s.units u).state = .finished ∧ (s.units u).prdt = true := hfit
    simp only [ataReadWriteStep, if_pos hfinished] at h
    cases h
    exact hi.advance_unissued hu rfl rfl rfl trivial rfl rfl nofun (by rw [hp]; rfl) rfl rfl rfl rfl rfl
      rfl rfl
  | transferBuffer =>
    simp only [ataReadWriteStep] at h
    split_ifs at h with hdone
    exact hi.transferBuffer hp hdone (Option.some.inj h).symm
  | freeTransfer transfer =>
    cases h
    exact hi.advance_unissued hu rfl rfl rfl rfl rfl rfl nofun (by rw [hp]; rfl) rfl rfl rfl rfl rfl
      rfl rfl

/-- A thread takes the `DeviceLock` of a unit or gives it back, and does nothing else. -/
theorem AtaInv.lock {v : Option Thread} (hi : AtaInv s)
    (hpc : s'.pc = Function.update s.pc t q)
    (hunits : s'.units = Function.update s.units u { s.units u with deviceLock := v })
    (hholds : ∀ t' u', (s'.pc t').unit = some u' ↔ (s'.units u').deviceLock = some t')
    (hfree : (s.units u).state = .free)
    (hfits : ∀ u', q.unit = some u' → u' = u ∧ q.Fits (s.units u)) (hq : q ≠ .assertFailed)
    (hbefore : (s.pc t).issued = false) (hafter : q.transferring = false)
    (hisr : s'.isr = s.isr) (hinterrupts : s'.interrupts = s.interrupts)
    (hirq : s'.busIrq = s.busIrq) (hstarted : s'.busStarted = s.busStarted)
    (hcommands : s'.commands = s.commands) (hfailed : s'.failed = s.failed) : AtaInv s' := by
  have hafter' : ¬ WaitsForDma s' t := by
    intro hwaits
    have htransfer := AtaPc.transferring_of_issued hwaits.issued
    rw [hpc, Function.update_self, hafter] at htransfer
    cases htransfer
  have hstate : (s.pc t).unit = some u ∨
      ({ s.units u with deviceLock := v } : AtaUnitState Thread).state = (s.units u).state :=
    Or.inr rfl
  obtain ⟨hstarted', hdma⟩ := hi.dma_frame hstate hpc hunits rfl (not_waitsForDma hbefore) hafter'
    hisr hinterrupts hirq hstarted fun _ _ h => hcommands.trans h
  refine ⟨hholds, ?_, ?_, ?_, ?_, hi.outstanding.frame hpc hbefore hcommands, hstarted', ?_, hdma⟩
  · intro u' hu'
    rw [hunits] at hu' ⊢
    by_cases hu : u' = u
    · rw [hu, Function.update_self]
      exact hfree
    · rw [Function.update_of_ne hu] at hu' ⊢
      exact hi.released u' hu'
  · intro t' u' hu'
    rw [hpc] at hu' ⊢
    have hfit : (Function.update s.pc t q t').Fits (s.units u') := by
      by_cases ht : t' = t
      · rw [ht, Function.update_self] at hu' ⊢
        obtain ⟨rfl, hfit⟩ := hfits u' hu'
        exact hfit
      · rw [Function.update_of_ne ht] at hu' ⊢
        exact hi.fits t' u' hu'
    rw [hunits]
    by_cases hu : u' = u
    · rw [hu, Function.update_self]
      exact AtaPc.fits_deviceLock (hu ▸ hfit)
    · rw [Function.update_of_ne hu]
      exact hfit
  · intro t'
    rw [hpc]
    by_cases ht : t' = t
    · rw [ht, Function.update_self]
      exact hq
    · rw [Function.update_of_ne ht]
      exact hi.alive t'
  · intro t₁ t₂ h₁ h₂
    have hold : ∀ t', (s'.pc t').transferring = true → (s.pc t').transferring = true := by
      intro t' ht'
      rw [hpc] at ht'
      by_cases ht : t' = t
      · rw [ht, Function.update_self, hafter] at ht'
        cases ht'
      · rwa [Function.update_of_ne ht] at ht'
    exact hi.exclusive t₁ t₂ (hold t₁ h₁) (hold t₂ h₂)
  · rw [hfailed]
    exact hi.working

theorem AtaInv.ioCallDriver {irp : AtaIrp} (hi : AtaInv s) (ht : s.pc t = .outside)
    (hlock : (s.units u).deviceLock = none)
    (hs : s' = (s.setUnit u { s.units u with deviceLock := some t }).goto t (.dispatching u irp)) :
    AtaInv s' := by
  subst hs
  refine hi.lock rfl rfl ?_ (hi.released u hlock) ?_ nofun (by rw [ht]; rfl) rfl rfl rfl rfl rfl rfl rfl
  · intro t' u'
    have hheld := hi.holds t' u'
    show (Function.update s.pc t _ t').unit = _ ↔ (Function.update s.units u _ u').deviceLock = _
    by_cases hu : u' = u
    · subst hu
      rw [Function.update_self]
      by_cases htt : t' = t
      · rw [htt, Function.update_self]
        exact iff_of_true rfl rfl
      · rw [Function.update_of_ne htt, hheld, hlock]
        exact iff_of_false nofun fun h => htt (Option.some.inj h).symm
    · rw [Function.update_of_ne hu]
      by_cases htt : t' = t
      · subst htt
        rw [Function.update_self, ← hheld, ht]
        exact iff_of_false (fun h => hu (Option.some.inj h).symm) nofun
      · rw [Function.update_of_ne htt, hheld]
  · intro u' hu'
    exact ⟨(Option.some.inj hu').symm, hi.released u hlock⟩

theorem AtaInv.release {ioStatus : IoStatusBlock} (hi : AtaInv s)
    (hp : s.pc t = .completing u ioStatus)
    (hs : s' = (s.setUnit u { s.units u with deviceLock := none }).goto t .outside) : AtaInv s' := by
  subst hs
  have hu : (s.pc t).unit = some u := by rw [hp]; rfl
  have hfit := hi.fits t u hu
  rw [hp] at hfit
  refine hi.lock rfl rfl ?_ hfit nofun nofun (by rw [hp]; rfl) rfl rfl rfl rfl rfl rfl rfl
  intro t' u'
  have hheld := hi.holds t' u'
  show (Function.update s.pc t _ t').unit = _ ↔ (Function.update s.units u _ u').deviceLock = _
  by_cases htt : t' = t
  · subst htt
    rw [Function.update_self]
    by_cases huu : u' = u
    · subst huu
      rw [Function.update_self]
      exact iff_of_false nofun nofun
    · rw [Function.update_of_ne huu, ← hheld, hu]
      exact iff_of_false nofun fun h => huu (Option.some.inj h).symm
  · rw [Function.update_of_ne htt]
    by_cases huu : u' = u
    · subst huu
      rw [Function.update_self]
      exact iff_of_false (fun h => htt (hi.eq_of_unit h hu)) nofun
    · rw [Function.update_of_ne huu, hheld]

/-- One step of a thread. -/
theorem ataDispatchStep_inv {devices : AtaUnit → AtaDevice} {dmaStatus : STATUS} (hi : AtaInv s)
    (hkeep : KeepsApart s (.step t dmaStatus))
    (h : ataDispatchStep devices s t dmaStatus = some s') : AtaInv s' := by
  have hsame : ∀ u, s.units = Function.update s.units u (s.units u) := by
    intro u
    exact (Function.update_eq_self u s.units).symm
  cases hp : s.pc t with
  | outside | assertFailed => simp [ataDispatchStep, hp] at h
  | dispatching u irp =>
    have hu : (s.pc t).unit = some u := by rw [hp]; rfl
    have hfit := hi.fits t u hu
    rw [hp] at hfit
    simp only [ataDispatchStep, hp] at h
    split at h
    · cases h
      exact hi.advance_unissued hu rfl (hsame u) rfl hfit rfl rfl nofun (by rw [hp]; rfl) rfl rfl rfl
        rfl rfl rfl rfl
    · cases h
      exact hi.advance_unissued hu rfl (hsame u) rfl hfit rfl rfl nofun (by rw [hp]; rfl) rfl rfl rfl
        rfl rfl rfl rfl
  | running u r stage =>
    simp only [ataDispatchStep, hp] at h
    exact ataReadWriteStep_inv hi hp hkeep h
  | completing u ioStatus =>
    simp only [ataDispatchStep, hp] at h
    exact hi.release hp (Option.some.inj h).symm

end Threads

/-- The devices and the interrupt handlers leave the threads and the units as they are, -/
theorem AtaInv.of_units_eq (hi : AtaInv s) (hpc : s'.pc = s.pc) (hunits : s'.units = s.units)
    (hout : Outstanding s') (hstarted : s'.busStarted = true → s.busStarted = true)
    (hworking : ∀ u, s'.failed u = false) (hdma : ∃ p, DmaInv s' p) : AtaInv s' := by
  refine ⟨?_, ?_, ?_, ?_, ?_, hout, ?_, hworking, hdma⟩
  · rw [hpc, hunits]
    exact hi.holds
  · rw [hunits]
    exact hi.released
  · rw [hpc, hunits]
    exact hi.fits
  · rw [hpc]
    exact hi.alive
  · rw [hpc]
    exact hi.exclusive
  · intro h
    obtain ⟨t, r, hp⟩ := hi.started (hstarted h)
    exact ⟨t, r, by rw [hpc, hp]⟩

/-- or change the state and the event of the master while a thread waits for its DMA command. -/
theorem AtaInv.of_units_update {d : AtaUnitState Thread} (hi : AtaInv s) (hpc : s'.pc = s.pc)
    (hwaits : WaitsForDma s t) (hunits : s'.units = Function.update s.units .master d)
    (hlock : d.deviceLock = (s.units .master).deviceLock) (hprdt : d.prdt = (s.units .master).prdt)
    (hcommands : s'.commands = s.commands) (hstarted : s'.busStarted = s.busStarted)
    (hfailed : s'.failed = s.failed) (hdma : ∃ p, DmaInv s' p) : AtaInv s' := by
  have hlocks : ∀ v, (s'.units v).deviceLock = (s.units v).deviceLock := by
    intro v
    rw [hunits]
    by_cases hv : v = .master
    · rw [hv, Function.update_self, hlock]
    · rw [Function.update_of_ne hv]
  obtain ⟨r, hp⟩ := hwaits
  have hheld : (s.units .master).deviceLock = some t := (hi.holds t .master).mp (by rw [hp]; rfl)
  refine ⟨?_, ?_, ?_, ?_, ?_, ?_, ?_, ?_, hdma⟩
  · intro t' v
    rw [hpc, hlocks]
    exact hi.holds t' v
  · intro v hv
    rw [hlocks] at hv
    have hm : v ≠ .master := by
      intro hm
      rw [hm, hheld] at hv
      cases hv
    rw [hunits, Function.update_of_ne hm]
    exact hi.released v hv
  · intro t' v hv
    rw [hpc] at hv ⊢
    have hfit := hi.fits t' v hv
    rw [hunits]
    by_cases hm : v = .master
    · subst hm
      obtain rfl := hi.eq_of_unit hv (by rw [hp]; rfl : (s.pc t).unit = some .master)
      rw [hp] at hfit ⊢
      rw [Function.update_self]
      exact ⟨rfl, hfit.2.1, hprdt.trans hfit.2.2⟩
    · rw [Function.update_of_ne hm]
      exact hfit
  · rw [hpc]
    exact hi.alive
  · rw [hpc]
    exact hi.exclusive
  · unfold Outstanding
    rw [hcommands, hpc]
    exact hi.outstanding
  · unfold WaitsForDma
    rw [hstarted, hpc]
    exact hi.started
  · rw [hfailed]
    exact hi.working

theorem AtaInv.dataReady (hi : AtaInv s)
    (hs : s' = { s with
      commands := s.commands.map fun c => if c.unit = u then { c with busy := false } else c }) :
    AtaInv s' := by
  subst hs
  obtain ⟨p, hdma⟩ := hi.dma
  refine hi.of_units_eq rfl rfl ?_ id hi.working
    ⟨p, hdma.interrupts, hdma.ready, hdma.handlers, ?_, hdma.state, ?_⟩
  · obtain hnone | ⟨c, hone, hissued, hc⟩ := hi.outstanding
    · left
      show List.map _ s.commands = []
      rw [hnone]
      rfl
    · refine Or.inr ⟨if c.unit = u then { c with busy := false } else c, ?_, ?_⟩
      · show List.map _ s.commands = _
        rw [hone]
        rfl
      · split_ifs
        · exact ⟨hissued, hc⟩
        · exact ⟨hissued, hc⟩
  · obtain hquiet | ⟨hnone, hwaits⟩ := hdma.ended
    · exact Or.inl hquiet
    · refine Or.inr ⟨?_, hwaits⟩
      show List.map _ s.commands = []
      rw [hnone]
      rfl
  · have hstage := hdma.stage
    cases p <;> exact hstage

/-- A DMA command ends while its requester waits for it. -/
theorem AtaInv.dmaComplete (hi : AtaInv s) (hstarted : s.busStarted = true)
    (hcommand : s.commands.any (fun c => c.unit = u ∧ c.dma) = true)
    (hs : s' = { s with
      commands := s.commands.eraseP fun c => c.unit = u ∧ c.dma
      failed := Function.update s.failed u false
      busIrq := s.busIrq || !s.interruptsDisabled
      interrupts := if s.interruptsDisabled then s.interrupts else s.interrupts + 1 }) : AtaInv s' := by
  subst hs
  obtain ⟨p, hdma⟩ := hi.dma
  obtain ⟨t, ht⟩ := hi.started hstarted
  have hone : ∃ c, s.commands = [c] := by
    obtain hnone | ⟨c, hone, -, -⟩ := hi.outstanding
    · simp [hnone] at hcommand
    · exact ⟨c, hone⟩
  obtain ⟨c, hone⟩ := hone
  have herase : s.commands.eraseP (fun c => decide (c.unit = u ∧ c.dma = true)) = [] := by
    simpa [hone] using hcommand
  obtain rfl : p = .quiet := by
    obtain hquiet | ⟨hnone, -⟩ := hdma.ended
    · exact hquiet
    · rw [hnone] at hone
      cases hone
  have hinterrupts : s.interrupts = 0 := hdma.interrupts
  refine hi.of_units_eq rfl rfl (Or.inl herase) id ?_
    ⟨if s.interruptsDisabled then .quiet else .raised, ?_⟩
  · intro v
    show Function.update s.failed u false v = false
    by_cases hv : v = u
    · rw [hv, Function.update_self]
    · rw [Function.update_of_ne hv]
      exact hi.working v
  · have hended : s.commands.eraseP (fun c => decide (c.unit = u ∧ c.dma = true)) = [] ∧
        ∃ t, WaitsForDma s t := ⟨herase, t, ht⟩
    cases hdisabled : s.interruptsDisabled with
    | true => exact ⟨hinterrupts, hdma.ready, hdma.handlers, Or.inl rfl, hdma.state, trivial⟩
    | false =>
      refine ⟨?_, hdma.ready, hdma.handlers, Or.inr hended, hdma.state, trivial⟩
      show s.interrupts + 1 = 1
      omega

section Handlers

variable [DecidableEq Handler] {i : Handler}

/-- The handler takes the interrupt to the first registered routine, that of the master. -/
theorem AtaInv.interrupt (hi : AtaInv s) (hpending : 0 < s.interrupts)
    (hs : s' = { s with interrupts := s.interrupts - 1 }.isrGoto i (.selectDevice .master)) :
    AtaInv s' := by
  subst hs
  obtain ⟨p, hdma⟩ := hi.dma
  have hinterrupts := hdma.interrupts
  obtain rfl : p = .raised := by
    cases p with
    | raised => rfl
    | _ =>
      simp only [DmaPhase.pending] at hinterrupts
      omega
  have hone : s.interrupts = 1 := hinterrupts
  refine hi.of_units_eq rfl rfl hi.outstanding id hi.working
    ⟨.handling i, ?_, hdma.ready, ?_, Or.inr (hdma.ended.resolve_left nofun), hdma.state, Or.inl ?_⟩
  · show s.interrupts - 1 = 0
    lia
  · intro j hj
    show Function.update s.isr i _ j = _ ∨ Function.update s.isr i _ j = _
    have hji : j ≠ i := fun h => hj (congrArg some h.symm)
    rw [Function.update_of_ne hji]
    exact hdma.handlers j nofun
  · exact Function.update_self ..

/-- A handler that has not finished its interrupt is the only one, and the DMA command has ended. -/
theorem DmaInv.of_busy (h : DmaInv s p) (hidle : s.isr i ≠ .idle) (hclear : s.isr i ≠ .clearIrq .master) :
    p.owner = some i ∧ p.pending = 0 ∧ s.commands = [] ∧ ∃ t, WaitsForDma s t := by
  have hown : p.owner = some i := by
    by_contra hne
    exact (h.handlers i hne).elim hidle hclear
  have hended : s.commands = [] ∧ ∃ t, WaitsForDma s t := by
    obtain rfl | hended := h.ended
    · cases hown
    · exact hended
  cases p with
  | quiet | raised | ready => cases hown
  | handling j | passed j | finished j => exact ⟨hown, rfl, hended⟩

/-- The handler that owns the interrupt takes it to another phase. -/
theorem DmaInv.step_owner {x : IsrPc} {p' : DmaPhase Handler} (h : DmaInv s p)
    (hown : p.owner = some i) (hisr : s'.isr = Function.update s.isr i x)
    (howner : p'.owner = some i ∨ p'.owner = none ∧ (x = .idle ∨ x = .clearIrq .master))
    (hinterrupts : s'.interrupts = p'.pending) (hready : (s'.units .master).transferReady = p'.signaled)
    (hended : s'.commands = [] ∧ ∃ t, WaitsForDma s' t)
    (hstate : (s'.units .master).state = p'.state) (hstage : p'.Stage s') : DmaInv s' p' := by
  refine ⟨hinterrupts, hready, ?_, Or.inr hended, fun _ _ => hstate, hstage⟩
  intro j hj
  rw [hisr]
  by_cases hji : j = i
  · rw [hji, Function.update_self]
    obtain hown' | ⟨-, hx⟩ := howner
    · exact (hj (hji ▸ hown')).elim
    · exact hx
  · rw [Function.update_of_ne hji]
    apply h.handlers j
    rw [hown]
    exact fun hij => hji (Option.some.inj hij).symm

/-- A handler that clears the interrupt bit has already signaled the event. -/
theorem DmaInv.clearIrq {u : AtaUnit} (h : DmaInv s p) (hp : s.isr i = .clearIrq u) :
    DmaInv ({ s with busIrq := false }.isrGoto i .idle) p := by
  have hne : ∀ j, p.owner = some j → j ≠ i := by
    intro j hj hji
    have hstage := h.stage
    cases p with
    | quiet | raised | ready => cases hj
    | handling k | passed k | finished k =>
      cases hj
      subst hji
      simp [DmaPhase.Stage, hp] at hstage
  refine ⟨h.interrupts, h.ready, ?_, h.ended, h.state, ?_⟩
  · intro j hj
    show Function.update s.isr i _ j = _ ∨ Function.update s.isr i _ j = _
    by_cases hji : j = i
    · rw [hji, Function.update_self]
      exact Or.inl rfl
    · rw [Function.update_of_ne hji]
      exact h.handlers j hj
  · have hstage := h.stage
    cases p with
    | quiet | raised | ready => exact hstage
    | handling j | finished j =>
      simp only [DmaPhase.Stage, AtaChannel.isrGoto, Function.update_of_ne (hne j rfl)] at hstage ⊢
      exact hstage
    | passed j =>
      simp only [DmaPhase.Stage, AtaChannel.isrGoto, Function.update_of_ne (hne j rfl)] at hstage ⊢
      exact ⟨hstage.1, trivial⟩

/-- The handler that owns the interrupt, in the phase that fits the place where it stands. -/
theorem DmaInv.phase_of_busy (h : DmaInv s p) (hidle : s.isr i ≠ .idle)
    (hclear : s.isr i ≠ .clearIrq .master) :
    p = .handling i ∧ (DmaPhase.handling i).Stage s ∨ p = .passed i ∧ (DmaPhase.passed i).Stage s ∨
      p = .finished i ∧ (DmaPhase.finished i).Stage s := by
  obtain ⟨hown, -⟩ := h.of_busy hidle hclear
  have hstage := h.stage
  cases p with
  | quiet | raised | ready => cases hown
  | handling j =>
    cases hown
    exact Or.inl ⟨rfl, hstage⟩
  | passed j =>
    cases hown
    exact Or.inr (Or.inl ⟨rfl, hstage⟩)
  | finished j =>
    cases hown
    exact Or.inr (Or.inr ⟨rfl, hstage⟩)

/-- One step of an interrupt handler. -/
theorem ataDmaInterruptStep_inv (hi : AtaInv s) (h : ataDmaInterruptStep s i = some s') :
    AtaInv s' := by
  obtain ⟨p, hdma⟩ := hi.dma
  by_cases hidle : s.isr i = .idle
  · simp [ataDmaInterruptStep, hidle] at h
  by_cases hclear : s.isr i = .clearIrq .master
  · simp only [ataDmaInterruptStep, hclear] at h
    cases h
    exact hi.of_units_eq rfl rfl hi.outstanding id hi.working ⟨p, hdma.clearIrq hclear⟩
  have hphase := hdma.phase_of_busy hidle hclear
  obtain ⟨hown, hpending, hended⟩ := hdma.of_busy hidle hclear
  obtain ⟨t, ht⟩ := hended.2
  have hstate := hdma.state t ht
  have hinterrupts := hdma.interrupts.trans hpending
  have hself : ∀ x, Function.update s.isr i x i = x := fun x => Function.update_self ..
  cases hp : s.isr i with
  | idle => exact (hidle hp).elim
  | assertFailed =>
    simp [hp, DmaPhase.Stage] at hphase
  | clearIrq u =>
    simp [hp, DmaPhase.Stage] at hphase
  | selectDevice u =>
    simp only [ataDmaInterruptStep, hp] at h
    cases h
    refine hi.of_units_eq rfl rfl hi.outstanding id hi.working ⟨p, ?_⟩
    refine hdma.step_owner hown rfl (Or.inl hown) hdma.interrupts hdma.ready hended hstate ?_
    have hphase : p = .handling i ∧ u = .master ∨ p = .passed i ∧ u = .slave ∧ s.busIrq = false := by
      simpa [hp, DmaPhase.Stage] using hphase
    obtain ⟨rfl, rfl⟩ | ⟨rfl, rfl, hirq⟩ := hphase
    · exact Or.inr (Or.inl (hself _))
    · exact ⟨Or.inr (hself _), hirq⟩
  | readBusStatus u =>
    simp only [ataDmaInterruptStep, hp] at h
    cases h
    have hphase : p = .handling i ∧ u = .master ∨ p = .passed i ∧ u = .slave ∧ s.busIrq = false := by
      simpa [hp, DmaPhase.Stage] using hphase
    obtain ⟨rfl, rfl⟩ | ⟨rfl, rfl, hirq⟩ := hphase
    · cases hirq : s.busIrq with
      | true =>
        refine hi.of_units_eq rfl rfl hi.outstanding id hi.working ⟨.handling i, ?_⟩
        refine hdma.step_owner hown rfl (Or.inl rfl) hinterrupts hdma.ready hended hstate ?_
        exact Or.inr (Or.inr (Or.inl (hself _)))
      | false =>
        refine hi.of_units_eq rfl rfl hi.outstanding id hi.working ⟨.passed i, ?_⟩
        refine hdma.step_owner hown rfl (Or.inl rfl) hinterrupts hdma.ready hended hstate ?_
        exact ⟨Or.inl (hself _), hirq⟩
    · rw [hirq]
      refine hi.of_units_eq rfl rfl hi.outstanding id hi.working ⟨.quiet, ?_⟩
      exact hdma.step_owner hown rfl (Or.inr ⟨rfl, Or.inl rfl⟩) hinterrupts hdma.ready hended hstate
        trivial
  | readStatus u =>
    simp only [ataDmaInterruptStep, hp, hi.working] at h
    cases h
    obtain ⟨rfl, rfl⟩ : p = .handling i ∧ u = .master := by
      simpa [hp, DmaPhase.Stage] using hphase
    refine hi.of_units_eq rfl rfl hi.outstanding id hi.working ⟨.handling i, ?_⟩
    refine hdma.step_owner hown rfl (Or.inl rfl) hinterrupts hdma.ready hended hstate ?_
    exact Or.inr (Or.inr (Or.inr (Or.inl (hself _))))
  | stopBusMaster u =>
    simp only [ataDmaInterruptStep, hp] at h
    cases h
    obtain ⟨rfl, rfl⟩ : p = .handling i ∧ u = .master := by
      simpa [hp, DmaPhase.Stage] using hphase
    refine hi.of_units_eq rfl rfl hi.outstanding nofun hi.working ⟨.handling i, ?_⟩
    refine hdma.step_owner hown rfl (Or.inl rfl) hinterrupts hdma.ready hended hstate ?_
    exact Or.inr (Or.inr (Or.inr (Or.inr ⟨hself _, rfl⟩)))
  | finishTransfer u =>
    obtain ⟨rfl, rfl, hstopped⟩ : p = .handling i ∧ u = .master ∧ s.busStarted = false := by
      simpa [hp, DmaPhase.Stage] using hphase
    have hprogress : (s.units .master).state = .inProgress := hstate
    simp only [ataDmaInterruptStep, hp, if_pos hprogress] at h
    cases h
    refine hi.of_units_update rfl ht rfl rfl rfl rfl rfl rfl ⟨.finished i, ?_⟩
    exact hdma.step_owner hown rfl (Or.inl rfl) hinterrupts hdma.ready hended rfl ⟨hself _, hstopped⟩
  | signal u =>
    obtain ⟨rfl, rfl, hstopped⟩ : p = .finished i ∧ u = .master ∧ s.busStarted = false := by
      simpa [hp, DmaPhase.Stage] using hphase
    simp only [ataDmaInterruptStep, hp] at h
    cases h
    refine hi.of_units_update rfl ht rfl rfl rfl rfl rfl rfl ⟨.ready, ?_⟩
    exact hdma.step_owner hown rfl (Or.inr ⟨rfl, Or.inr rfl⟩) hinterrupts rfl hended hstate hstopped

end Handlers

/-- Every step that keeps the units apart keeps the invariant. -/
theorem nextAta_inv [DecidableEq Thread] [DecidableEq Handler] {devices : AtaUnit → AtaDevice}
    {a : AtaAction Thread Handler} (hi : AtaInv s) (hkeep : KeepsApart s a)
    (h : nextAta devices s a = some s') : AtaInv s' := by
  cases a with
  | ioCallDriver t u irp =>
    simp only [nextAta] at h
    split_ifs at h with hcall
    exact hi.ioCallDriver hcall.1 hcall.2 (Option.some.inj h).symm
  | step t dmaStatus => exact ataDispatchStep_inv hi hkeep h
  | dataReady u => exact hi.dataReady (Option.some.inj h).symm
  | dmaComplete u failed =>
    simp only [nextAta] at h
    obtain rfl : failed = false := hkeep
    split at h
    · rename_i hdone
      exact hi.dmaComplete hdone.1 hdone.2 (Option.some.inj h).symm
    · cases h
  | interrupt i =>
    simp only [nextAta] at h
    split_ifs at h with hpending
    exact hi.interrupt hpending.2 (Option.some.inj h).symm
  | isrStep i => exact ataDmaInterruptStep_inv hi h

end Invariant

theorem ataStart_inv (selected : AtaUnit) (parameters : QWORD × WORD) (busIrq : Bool) :
    AtaInv (ataStart selected parameters busIrq : AtaChannel Thread Handler) := by
  have hnone : ∀ t, ¬ WaitsForDma (ataStart selected parameters busIrq : AtaChannel Thread Handler) t :=
    fun _ => not_waitsForDma rfl
  refine ⟨fun _ _ => iff_of_false nofun nofun, fun _ _ => rfl, nofun, nofun, nofun, Or.inl rfl, nofun,
    fun _ => rfl, ⟨.quiet, rfl, rfl, fun _ _ => Or.inl rfl, Or.inl rfl, ?_, trivial⟩⟩
  intro t ht
  exact (hnone t ht).elim

/-- In a run whose steps all keep the two units apart no `ASSERT` fails, one command at most is
outstanding, and a DMA requester resumes only after its own transfer has ended. -/
theorem ataSafe_of_run [DecidableEq Thread] [DecidableEq Handler] {devices : AtaUnit → AtaDevice}
    {selected : AtaUnit} {parameters : QWORD × WORD} {busIrq : Bool}
    {tr : List (AtaChannel Thread Handler × AtaAction Thread Handler)}
    {s : AtaChannel Thread Handler}
    (hr : Exec (fun s a s' => nextAta devices s a = some s') (ataStart selected parameters busIrq) tr s)
    (hkeep : ∀ v ∈ tr, KeepsApart v.1 v.2) : Always AtaSafe tr s := by
  have hinv : Always AtaInv tr s := by
    apply hr.always_of_steps (ataStart_inv selected parameters busIrq) ?_ hkeep
    intro s a s' hi hq hs
    exact nextAta_inv hi hq hs
  exact hinv.mono fun _ => AtaInv.safe

/-- Two disks of a thousand sectors. -/
def disks : AtaUnit → AtaDevice := fun _ => ⟨true, 1000⟩

/-- Thread `t` asks for the first sector of a unit and takes `n` steps. -/
def readSector (t : Fin 3) (u : AtaUnit) (asynchronous : Bool) (n : ℕ) :
    List (AtaAction (Fin 3) Unit) :=
  .ioCallDriver t u ⟨512, 0, asynchronous, false⟩ :: List.replicate n (.step t statusSuccess)

/-- The DMA command of a unit ends, and the handlers take `n` steps. -/
def dmaEnds (u : AtaUnit) (n : ℕ) : List (AtaAction (Fin 3) Unit) :=
  [.dataReady u, .dmaComplete u false, .interrupt ()] ++ List.replicate n (.isrStep ())

/-- A DMA request to the master and, after it, a synchronous one to the slave. -/
def apart : List (AtaAction (Fin 3) Unit) :=
  readSector 1 .master true 10 ++ dmaEnds .master 7 ++ List.replicate 4 (.step 1 statusSuccess) ++
    readSector 2 .slave false 8 ++ .dataReady .slave :: List.replicate 3 (.step 2 statusSuccess)

/-- Nothing but a DMA request to the slave. -/
def slaveDma : List (AtaAction (Fin 3) Unit) :=
  readSector 1 .slave true 10 ++ dmaEnds .slave 5

/-- Two synchronous requests at once. -/
def overlapping : List (AtaAction (Fin 3) Unit) :=
  readSector 1 .master false 8 ++ .dataReady .master :: readSector 2 .slave false 8

/-- The DMA command of the slave ends while a DMA request to the master is in its first steps. -/
def stolenInterrupt : List (AtaAction (Fin 3) Unit) :=
  readSector 1 .slave true 10 ++ readSector 2 .master true 2 ++ dmaEnds .slave 7 ++
    List.replicate 9 (.step 2 statusSuccess)

/-- The run of a list of actions from a channel on which the master is selected. -/
def runAta (as : List (AtaAction (Fin 3) Unit)) :
    Option (List (AtaChannel (Fin 3) Unit × AtaAction (Fin 3) Unit) × AtaChannel (Fin 3) Unit) :=
  exec (nextAta disks) (ataStart .master (0, 0) false) as

private theorem apart_runs : (runAta apart).isSome = true := by
  decide +kernel

private theorem slaveDma_runs : (runAta slaveDma).isSome = true := by
  decide +kernel

private theorem overlapping_runs : (runAta overlapping).isSome = true := by
  decide +kernel

private theorem stolenInterrupt_runs : (runAta stolenInterrupt).isSome = true := by
  decide +kernel

theorem ataSafe_of_apart :
    Always AtaSafe ((runAta apart).get apart_runs).1 ((runAta apart).get apart_runs).2 := by
  apply ataSafe_of_run (exec_get apart_runs)
  decide +kernel

/-- A DMA request to the slave makes an `ASSERT` of the master's handler fail, two requests at once have
two commands outstanding, and the interrupt of the slave wakes a request whose own command is not
done. -/
theorem channel_shared_unsafe :
    (∃ tr s, Exec (fun s a s' => nextAta disks s a = some s') (ataStart .master (0, 0) false) tr s ∧
      (s : AtaChannel (Fin 3) Unit).isr () = .assertFailed) ∧
    (∃ tr s, Exec (fun s a s' => nextAta disks s a = some s') (ataStart .master (0, 0) false) tr s ∧
      (s : AtaChannel (Fin 3) Unit).commands.length = 2) ∧
    ∃ tr s, Exec (fun s a s' => nextAta disks s a = some s') (ataStart .master (0, 0) false) tr s ∧
      ((s : AtaChannel (Fin 3) Unit).pc 2).resumed = true ∧ ∃ c ∈ s.commands, c.requester = 2 := by
  refine ⟨⟨_, _, exec_get slaveDma_runs, ?_⟩, ⟨_, _, exec_get overlapping_runs, ?_⟩,
    ⟨_, _, exec_get stolenInterrupt_runs, ?_, ?_⟩⟩
  · decide +kernel
  · decide +kernel
  · decide +kernel
  · decide +kernel

end HAL9000.Io
