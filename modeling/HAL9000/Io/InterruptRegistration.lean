import HAL9000.Io.Interrupts
import HAL9000.Lib.Run

/-! What calls of `IomuRegisterInterrupt` leave behind: a failed one may keep a vector or a handler, and
a successful one may leave its line without a redirection entry. -/
namespace HAL9000.Interrupts

open Program

/-- `IomuPreinitSystem`, as far as it sets up the bitmap: the vectors of exceptions are reserved. -/
def iomuPreinitSystem (mem : Memory) (buffer : QWORD) : Except Fault (Memory × Bitmap) := do
  let bitmap ← bitmapPreinit noOfTotalInterrupts
  let (mem, bitmap) ← bitmapInitEx mem bitmap buffer false
  let mem ← bitmapSetBitsValue mem bitmap 0 (noOfReservedExceptions.setWidth 32) true
  return (mem, bitmap)

def bootMemory : Memory :=
  match iomuPreinitSystem (fun _ => 0) 0x1000 with
  | .ok (mem, _) => mem
  | .error _ => fun _ => 0

/-- A machine with nothing registered. -/
def atBoot : InterruptState where
  mem := bootMemory
  interruptBitmap := ⟨0x1000, 32, 256⟩
  registeredInterrupts := fun _ => []
  isrRoutines := fun _ => false
  interruptsWritten := fun _ => false
  redirectionTable := fun _ => ⟨0, .fixed, .physical, 0, .activeHigh, .edge, true⟩
  maskInterrupts := true
  bitmapBuffer_ne := by decide
  bitCount_eq := rfl

/-- One IO APIC with 24 pins and no overrides. -/
def oneIoApic : IoApicSystem := ⟨[⟨0, 23⟩], []⟩

section Failure

variable (sys : IoApicSystem) (s : InterruptState) (interrupt : IoInterrupt)

/-- The call claims the vector. -/
def TakesVector (v : BYTE) : Prop :=
  ∃ line, ioApicLine interrupt.type = .ok line ∧
    registeredVector sys s line interrupt.irql = .ok none ∧ FirstFree s interrupt.irql v

/-- The call goes on with a vector that is already claimed. -/
def SharesVector (v : BYTE) : Prop :=
  ∃ line registered, ioApicLine interrupt.type = .ok line ∧
    registeredVector sys s line interrupt.irql = .ok registered ∧
    (registered = none → ClassFull s interrupt.irql) ∧ interrupt.exclusive = false ∧
    v = registered.getD (irqlToVector interrupt.irql)

/-- Whatever is done before a failure needs no undoing: a call that claims a vector meets no failure
after that, and one that shares a vector does not fail once the handler is linked. -/
def NothingToUndo (env : Surroundings) : Prop :=
  (∀ v, TakesVector sys s interrupt v → Stops s interrupt v ∨
    CanInstall s v ∧ env.heapHasRoom = true ∧ Programs env interrupt) ∧
  (∀ v, SharesVector sys s interrupt v → Stops s interrupt v ∨
    (CanInstall s v → env.heapHasRoom = true → Programs env interrupt))

end Failure

/-- The interrupt bitmap and the lists are the same. -/
def LeavesNoTrace (s t : InterruptState) : Prop :=
  (∀ v, claimed t v = claimed s v) ∧ t.registeredInterrupts = s.registeredInterrupts

section Failure

variable {sys : IoApicSystem} {s t : InterruptState} {env : Surroundings} {interrupt : IoInterrupt}
  {device : QWORD} {line registered : Option BYTE} {v : BYTE}

theorem link_trace (entry : RegisteredInterruptEntry) :
    (link s v entry).registeredInterrupts ≠ s.registeredInterrupts := by
  intro heq
  have hlist := congrFun heq (v - noOfReservedExceptions)
  have hlen := congrArg List.length hlist
  simp [link, handlers] at hlen

/-- The state a call leaves once its handler is linked and the hardware is programmed: an entry is
written for a line that has none, if the list was empty. -/
theorem connect_succeeds (h : ¬ Stops s interrupt v) (hinst : CanInstall s v)
    (hroom : env.heapHasRoom = true) (hprog : Programs env interrupt)
    (hpin : ∀ irq, line = some irq → registered = none →
      ∃ pin, ioApicSystemGetIoApicForIrq sys irq = some pin ∧ s.interruptsWritten pin = false) :
    ∃ t, connect sys env interrupt device line registered v s = .ok (.ok v, t) ∧
      ((∃ irq pin, line = some irq ∧ registered = none ∧ handlers s v = [] ∧
          ioApicSystemGetIoApicForIrq sys irq = some pin ∧
          Writes (link s v ⟨interrupt.serviceRoutine, device⟩) pin v t) ∨
        (line = none ∨ registered ≠ none ∨ handlers s v ≠ []) ∧
          t = link s v ⟨interrupt.serviceRoutine, device⟩) := by
  rw [connect_linked h hinst hroom]
  by_cases hset : ∃ irq, line = some irq ∧ registered = none ∧ handlers s v = []
  · obtain ⟨irq, hline, hreg, hempty⟩ := hset
    obtain ⟨pin, hpin, hfree⟩ := hpin irq hline hreg
    obtain ⟨t, hwrites, hrun⟩ := programInterrupt_line (v := v)
      (s := link s v ⟨interrupt.serviceRoutine, device⟩) hprog hpin hfree
    refine ⟨t, ?_, Or.inl ⟨irq, pin, hline, hreg, hempty, hpin, hwrites⟩⟩
    rw [hline, hreg, hempty]
    exact Prog.bind_of_ok hrun
  · have hnot : line = none ∨ registered ≠ none ∨ handlers s v ≠ [] := by
      by_contra hall
      simp only [not_or, not_not] at hall
      obtain ⟨irq, hirq⟩ := Option.ne_none_iff_exists'.mp hall.1
      exact hset ⟨irq, hirq, hall.2.1, hall.2.2⟩
    refine ⟨_, ?_, Or.inr ⟨hnot, rfl⟩⟩
    apply Prog.bind_of_ok
    apply programInterrupt_none hprog
    rcases hnot with hline | hreg | hne
    · exact Or.inl hline
    · obtain ⟨w, rfl⟩ := Option.ne_none_iff_exists'.mp hreg
      exact Or.inr (Bool.and_false _)
    · refine Or.inr ?_
      rw [show (handlers s v).isEmpty = false by simpa using hne]
      rfl

theorem registeredVector_pin {irql : Irql} (hreg : registeredVector sys s line irql = .ok registered) :
    ∀ irq, line = some irq → registered = none →
      ∃ pin, ioApicSystemGetIoApicForIrq sys irq = some pin ∧ s.interruptsWritten pin = false := by
  intro irq hline hnone
  rw [hline, hnone] at hreg
  exact ioApicSystemGetVectorForIrq_notConfigured (registeredVector_none hreg)

/-- What the end of a call returns and leaves. -/
theorem connect_returns {r : Except Status BYTE}
    (hpin : ∀ irq, line = some irq → registered = none →
      ∃ pin, ioApicSystemGetIoApicForIrq sys irq = some pin ∧ s.interruptsWritten pin = false)
    (h : connect sys env interrupt device line registered v s = .ok (r, t)) :
    ¬ Stops s interrupt v ∧
      (¬ CanInstall s v ∧ r = .error .alreadyInitialized ∧ t = s ∨
        CanInstall s v ∧ ¬ env.heapHasRoom = true ∧ r = .error .heapInsufficientResources ∧
          t = install s v ∨
        CanInstall s v ∧ env.heapHasRoom = true ∧ ¬ Programs env interrupt ∧
          r = .error .pciProgramming ∧ t = link s v ⟨interrupt.serviceRoutine, device⟩ ∨
        r = .ok v ∧ ((∃ irq pin, line = some irq ∧ registered = none ∧ handlers s v = [] ∧
            ioApicSystemGetIoApicForIrq sys irq = some pin ∧
            Writes (link s v ⟨interrupt.serviceRoutine, device⟩) pin v t) ∨
          (line = none ∨ registered ≠ none ∨ handlers s v ≠ []) ∧
            t = link s v ⟨interrupt.serviceRoutine, device⟩)) := by
  by_cases hstop : Stops s interrupt v
  · obtain ⟨fault, hfault⟩ : ∃ fault, connect sys env interrupt device line registered v s =
      .error fault := connect_stops hstop
    rw [hfault] at h
    cases h
  refine ⟨hstop, ?_⟩
  by_cases hinst : CanInstall s v
  · by_cases hroom : env.heapHasRoom = true
    · by_cases hprog : Programs env interrupt
      · obtain ⟨t', ht', heffect⟩ : ∃ t', connect sys env interrupt device line registered v s =
          .ok (.ok v, t') ∧ _ := connect_succeeds hstop hinst hroom hprog hpin
        rw [ht'] at h
        cases h
        exact Or.inr (Or.inr (Or.inr ⟨rfl, heffect⟩))
      · rw [connect_linked hstop hinst hroom,
          Prog.bind_of_error (programInterrupt_fails hprog _ _)] at h
        cases h
        exact Or.inr (Or.inr (Or.inl ⟨hinst, hroom, hprog, rfl, rfl⟩))
    · rw [connect_noRoom hstop hinst hroom] at h
      cases h
      exact Or.inr (Or.inl ⟨hinst, hroom, rfl, rfl⟩)
  · rw [connect_notInstalled hstop hinst] at h
    cases h
    exact Or.inl ⟨hinst, rfl, rfl⟩

/-- When the end of a call returns an error, and what it leaves then. -/
theorem connect_error {status : Status}
    (hpin : ∀ irq, line = some irq → registered = none →
      ∃ pin, ioApicSystemGetIoApicForIrq sys irq = some pin ∧ s.interruptsWritten pin = false)
    (h : connect sys env interrupt device line registered v s = .ok (.error status, t)) :
    ¬ Stops s interrupt v ∧ t.mem = s.mem ∧ t.interruptBitmap = s.interruptBitmap ∧
      ((¬ CanInstall s v ∨ ¬ env.heapHasRoom = true) ∧
          t.registeredInterrupts = s.registeredInterrupts ∨
        CanInstall s v ∧ env.heapHasRoom = true ∧ ¬ Programs env interrupt ∧
          t.registeredInterrupts ≠ s.registeredInterrupts) := by
  obtain ⟨hstop, hwhy⟩ := connect_returns hpin h
  refine ⟨hstop, ?_⟩
  rcases hwhy with ⟨hinst, -, rfl⟩ | ⟨-, hroom, -, rfl⟩ | ⟨hinst, hroom, hprog, -, rfl⟩ | ⟨hok, -⟩
  · exact ⟨rfl, rfl, Or.inl ⟨Or.inl hinst, rfl⟩⟩
  · exact ⟨rfl, rfl, Or.inl ⟨Or.inr hroom, rfl⟩⟩
  · exact ⟨rfl, rfl, Or.inr ⟨hinst, hroom, hprog, link_trace _⟩⟩
  · cases hok

/-- The end of a call does return an error where one of its steps cannot be done. -/
theorem connect_returns_error (hstop : ¬ Stops s interrupt v)
    (h : ¬ (CanInstall s v ∧ env.heapHasRoom = true ∧ Programs env interrupt)) :
    ∃ status t, connect sys env interrupt device line registered v s = .ok (.error status, t) := by
  by_cases hinst : CanInstall s v
  · by_cases hroom : env.heapHasRoom = true
    · have hprog : ¬ Programs env interrupt := fun hprog => h ⟨hinst, hroom, hprog⟩
      rw [connect_linked hstop hinst hroom]
      exact ⟨_, _, Prog.bind_of_error (programInterrupt_fails hprog _ _)⟩
    · exact ⟨_, _, connect_noRoom hstop hinst hroom⟩
  · exact ⟨_, _, connect_notInstalled hstop hinst⟩

theorem Claims.same {t : InterruptState} (h : Claims s v t) :
    t.registeredInterrupts = s.registeredInterrupts ∧ t.isrRoutines = s.isrRoutines ∧
      t.interruptsWritten = s.interruptsWritten ∧ t.redirectionTable = s.redirectionTable := by
  obtain ⟨mem, rfl, -⟩ := h
  exact ⟨rfl, rfl, rfl, rfl⟩

theorem Claims.stops_iff {t : InterruptState} (h : Claims s v t) :
    Stops t interrupt v ↔ Stops s interrupt v := by
  obtain ⟨mem, rfl, -⟩ := h
  exact Iff.rfl

theorem Claims.canInstall_iff {t : InterruptState} (h : Claims s v t) :
    CanInstall t v ↔ CanInstall s v := by
  obtain ⟨mem, rfl, -⟩ := h
  exact Iff.rfl

/-- A call that claims a vector goes on with it. -/
theorem call_takes (hline : ioApicLine interrupt.type = .ok line)
    (hreg : registeredVector sys s line interrupt.irql = .ok none)
    (hfirst : FirstFree s interrupt.irql v) :
    ∃ t, Claims s v t ∧ registeredVector sys t line interrupt.irql = .ok none ∧
      iomuRegisterInterrupt sys env interrupt device s =
        connect sys env interrupt device line none v t := by
  obtain ⟨t, hclaims, hchoose⟩ := chooseVector_new hfirst
  refine ⟨t, hclaims, ?_, ?_⟩
  · obtain ⟨mem, rfl, -⟩ := hclaims
    exact hreg
  · rw [iomuRegisterInterrupt_eq hline hreg]
    exact Prog.bind_of_ok hchoose

theorem call_shares (hline : ioApicLine interrupt.type = .ok line)
    (hreg : registeredVector sys s line interrupt.irql = .ok registered)
    (hfull : registered = none → ClassFull s interrupt.irql) (hshared : interrupt.exclusive = false) :
    iomuRegisterInterrupt sys env interrupt device s = connect sys env interrupt device line
      registered (registered.getD (irqlToVector interrupt.irql)) s := by
  have hchoose := chooseVector_shared hfull
  rw [if_neg (by rw [hshared]; exact Bool.false_ne_true)] at hchoose
  rw [iomuRegisterInterrupt_eq hline hreg]
  exact Prog.bind_of_ok hchoose

/-- A call claims a vector, shares one, or returns an error or faults before it does anything. -/
theorem call_cases (sys : IoApicSystem) (s : InterruptState) (env : Surroundings)
    (interrupt : IoInterrupt) (device : QWORD) :
    (∃ v, TakesVector sys s interrupt v) ∨ (∃ v, SharesVector sys s interrupt v) ∨
      (∃ fault, iomuRegisterInterrupt sys env interrupt device s = .error fault) ∨
      ∃ status, iomuRegisterInterrupt sys env interrupt device s = .ok (.error status, s) := by
  cases hline : ioApicLine interrupt.type with
  | error fault =>
    refine Or.inr (Or.inr (Or.inl ⟨fault, ?_⟩))
    unfold iomuRegisterInterrupt
    rw [hline]
    rfl
  | ok line =>
    cases hreg : registeredVector sys s line interrupt.irql with
    | error status =>
      refine Or.inr (Or.inr (Or.inr ⟨status, ?_⟩))
      unfold iomuRegisterInterrupt
      rw [hline, Prog.lift_ok_bind, Prog.bind_of_ok (show Prog.get s = .ok (.ok s, s) from rfl), hreg]
      rfl
    | ok registered =>
      by_cases hfull : registered = none → ClassFull s interrupt.irql
      · by_cases hex : interrupt.exclusive = true
        · have hchoose := chooseVector_shared hfull
          rw [if_pos hex] at hchoose
          refine Or.inr (Or.inr (Or.inr ⟨.deviceInterruptNotAvailable, ?_⟩))
          rw [iomuRegisterInterrupt_eq hline hreg]
          exact Prog.bind_of_error hchoose
        · exact Or.inr (Or.inl ⟨_, line, registered, hline, hreg, hfull,
            Bool.eq_false_of_not_eq_true hex, rfl⟩)
      · simp only [Classical.not_imp] at hfull
        obtain ⟨rfl, hnotFull⟩ := hfull
        rcases full_or_firstFree s interrupt.irql with h | ⟨v, hv⟩
        · exact absurd h hnotFull
        · exact Or.inl ⟨v, line, hline, hreg, hv⟩

/-- A failing call that has claimed a vector always leaves it claimed. -/
theorem takes_leavesTrace {status : Status} (h : TakesVector sys s interrupt v)
    (hrun : iomuRegisterInterrupt sys env interrupt device s = .ok (.error status, t)) :
    ¬ LeavesNoTrace s t := by
  intro hsame
  obtain ⟨line, hline, hreg, hfirst⟩ := h
  obtain ⟨t₁, hclaims, hreg, heq⟩ : ∃ t₁, Claims s v t₁ ∧ _ ∧
    iomuRegisterInterrupt sys env interrupt device s = _ := call_takes hline hreg hfirst
  rw [heq] at hrun
  obtain ⟨-, hmem, hbitmap, -⟩ := connect_error (registeredVector_pin hreg) hrun
  have hset : claimed t v = true := by
    obtain ⟨mem, rfl, hbits⟩ := hclaims
    have := hbits v
    unfold claimed at this ⊢
    rw [hmem, hbitmap, this]
    simp
  rw [hsame.1 v, hfirst.2.1] at hset
  cases hset

/-- A failing call leaves no trace exactly if it had nothing to undo. -/
theorem failure_leavesNoTrace_iff (sys : IoApicSystem) (s : InterruptState) (env : Surroundings)
    (interrupt : IoInterrupt) (device : QWORD) :
    (∀ status t, iomuRegisterInterrupt sys env interrupt device s = .ok (.error status, t) →
      LeavesNoTrace s t) ↔ NothingToUndo sys s interrupt env := by
  constructor
  · intro hclean
    refine ⟨fun v hv => ?_, fun v hv => ?_⟩
    · by_contra hbad
      rw [not_or] at hbad
      obtain ⟨line, hline, hreg, hfirst⟩ := hv
      obtain ⟨t, hclaims, -, heq⟩ : ∃ t, Claims s v t ∧ _ ∧
        iomuRegisterInterrupt sys env interrupt device s = _ := call_takes hline hreg hfirst
      obtain ⟨status, t', herror⟩ : ∃ status t', connect sys env interrupt device line none v t =
        .ok (.error status, t') := connect_returns_error (mt hclaims.stops_iff.mp hbad.1)
          (by rw [hclaims.canInstall_iff]; exact hbad.2)
      rw [← heq] at herror
      exact takes_leavesTrace ⟨line, hline, hreg, hfirst⟩ herror (hclean status t' herror)
    · by_contra hbad
      simp only [not_or, Classical.not_imp] at hbad
      obtain ⟨hstop, hinst, hroom, hprog⟩ := hbad
      obtain ⟨line, registered, hline, hreg, hfull, hshared, rfl⟩ := hv
      have heq : iomuRegisterInterrupt sys env interrupt device s = _ :=
        call_shares hline hreg hfull hshared
      rw [connect_linked hstop hinst hroom,
        Prog.bind_of_error (programInterrupt_fails hprog _ _)] at heq
      exact link_trace _ (hclean _ _ heq).2
  · intro hnothing status t hrun
    rcases call_cases sys s env interrupt device with ⟨v, hv⟩ | ⟨v, hv⟩ | ⟨fault, hfault⟩ | ⟨e, he⟩
    · have hall := hnothing.1 v hv
      obtain ⟨line, hline, hreg, hfirst⟩ := hv
      obtain ⟨t₁, hclaims, hreg, heq⟩ : ∃ t₁, Claims s v t₁ ∧ _ ∧
        iomuRegisterInterrupt sys env interrupt device s = _ := call_takes hline hreg hfirst
      rw [heq] at hrun
      obtain ⟨hstop, -, -, hwhy⟩ := connect_error (registeredVector_pin hreg) hrun
      rw [hclaims.stops_iff] at hstop
      rw [hclaims.canInstall_iff] at hwhy
      have hall := hall.resolve_left hstop
      rcases hwhy with ⟨hinst | hroom, -⟩ | ⟨-, -, hprog, -⟩
      · exact absurd hall.1 hinst
      · exact absurd hall.2.1 hroom
      · exact absurd hall.2.2 hprog
    · have hall := hnothing.2 v hv
      obtain ⟨line, registered, hline, hreg, hfull, hshared, rfl⟩ := hv
      have heq : iomuRegisterInterrupt sys env interrupt device s = _ :=
        call_shares hline hreg hfull hshared
      rw [heq] at hrun
      obtain ⟨hstop, hmem, hbitmap, hwhy⟩ := connect_error (registeredVector_pin hreg) hrun
      have hall := hall.resolve_left hstop
      rcases hwhy with ⟨-, hsame⟩ | ⟨hinst, hroom, hprog, -⟩
      · refine ⟨fun w => ?_, hsame⟩
        unfold claimed
        rw [hmem, hbitmap]
      · exact absurd (hall hinst hroom) hprog
    · rw [hfault] at hrun
      cases hrun
    · rw [he] at hrun
      cases hrun
      exact ⟨fun _ => rfl, rfl⟩

end Failure

/-- A call that finds the heap full has claimed a vector and does not give it back. -/
theorem not_failure_leavesNoTrace : ¬ ∀ (sys : IoApicSystem) (s : InterruptState)
    (env : Surroundings) (interrupt : IoInterrupt) (device : QWORD) (status : Status)
    (t : InterruptState), iomuRegisterInterrupt sys env interrupt device s = .ok (.error status, t) →
    LeavesNoTrace s t := by
  intro hall
  have hclean := hall oneIoApic atBoot ⟨false, true⟩ ⟨.lapic, .dispatchLevel, false, 1, false⟩ 1
    .heapInsufficientResources _ rfl
  exact absurd (hclean.1 48) (by decide +kernel)

/-! ### Runs of successful calls -/

/-- Nothing is registered yet. -/
def Initial (s : InterruptState) : Prop :=
  (∃ mem buffer, iomuPreinitSystem mem buffer = .ok (s.mem, s.interruptBitmap)) ∧
    (∀ i, s.registeredInterrupts i = []) ∧ (∀ i, s.isrRoutines i = false) ∧
    ∀ pin, s.interruptsWritten pin = false

/-- A call of `IomuRegisterInterrupt` that succeeds with the vector. -/
structure Registration where
  env : Surroundings
  interrupt : IoInterrupt
  device : QWORD
  vector : BYTE
  deriving DecidableEq, Repr

/-- The machine with the calls that have succeeded. -/
structure System where
  machine : InterruptState
  registrations : List Registration

def register (sys : IoApicSystem) (s : System) (r : Registration) : Option System :=
  match iomuRegisterInterrupt sys r.env r.interrupt r.device s.machine with
  | .ok (.ok v, t) => if v = r.vector then some ⟨t, s.registrations ++ [r]⟩ else none
  | _ => none

/-- The line delivers the vector, the vector has the priority asked for, and the handler is in the list
that is run for it. -/
def Connected (sys : IoApicSystem) (s : InterruptState) (r : Registration) : Prop :=
  (∀ irq, ioApicLine r.interrupt.type = .ok (some irq) →
    ioApicSystemGetVectorForIrq sys s irq = .ok r.vector) ∧
  vectorToIrql r.vector = r.interrupt.irql.value ∧
  ⟨r.interrupt.serviceRoutine, r.device⟩ ∈ handlers s r.vector ∧ installed s r.vector = true

/-- A line that has no entry yet finds a free vector. -/
def FindsVector (sys : IoApicSystem) (s : InterruptState) (r : Registration) : Prop :=
  ∀ irq, ioApicLine r.interrupt.type = .ok (some irq) →
    ioApicSystemGetVectorForIrq sys s irq = .error .deviceInterruptNotConfigured →
    ¬ ClassFull s r.interrupt.irql

/-- The claimed vectors are those with handlers, and the entries hold claimed vectors. -/
structure Consistent (s : InterruptState) : Prop where
  claimed_iff : ∀ v, noOfReservedExceptions ≤ v → (claimed s v = true ↔ handlers s v ≠ [])
  installed_of : ∀ v, handlers s v ≠ [] → installed s v = true
  written : ∀ pin, s.interruptsWritten pin = true →
    noOfReservedExceptions ≤ (s.redirectionTable pin).vector ∧
      claimed s (s.redirectionTable pin).vector = true

section Runs

variable {sys : IoApicSystem} {s t : InterruptState} {env : Surroundings} {interrupt : IoInterrupt}
  {device : QWORD} {v : BYTE}

theorem index_inj {w : BYTE} (h : w - noOfReservedExceptions = v - noOfReservedExceptions) :
    w = v := by
  have := congrArg (· + noOfReservedExceptions) h
  simpa [BitVec.sub_add_cancel] using this

theorem handlers_link (w : BYTE) (entry : RegisteredInterruptEntry) :
    handlers (link s v entry) w = if w = v then handlers s v ++ [entry] else handlers s w := by
  unfold handlers link
  dsimp only
  by_cases heq : w = v
  · rw [if_pos heq, heq, Function.update_self]
    rfl
  · rw [if_neg heq, Function.update_of_ne]
    intro h
    exact heq (index_inj h)

theorem installed_link (hinst : handlers s v ≠ [] → installed s v = true) (w : BYTE)
    (entry : RegisteredInterruptEntry) :
    installed (link s v entry) w = (decide (w = v) || installed s w) := by
  unfold installed link install
  dsimp only
  by_cases hempty : handlers s v = []
  · rw [hempty, if_pos (show ([] : List RegisteredInterruptEntry).isEmpty = true from rfl)]
    by_cases heq : w = v
    · subst heq
      rw [Function.update_self]
      simp
    · rw [Function.update_of_ne (fun h => heq (index_inj h))]
      simp [heq]
  · rw [if_neg (by simpa using hempty)]
    by_cases heq : w = v
    · subst heq
      simpa [installed] using hinst hempty
    · simp [heq]

/-- What a successful call has done. -/
theorem call_success (h : iomuRegisterInterrupt sys env interrupt device s = .ok (.ok v, t)) :
    ∃ line registered s₁, ioApicLine interrupt.type = .ok line ∧
      registeredVector sys s line interrupt.irql = .ok registered ∧
      (registered = none ∧ FirstFree s interrupt.irql v ∧ Claims s v s₁ ∨
        (registered = none → ClassFull s interrupt.irql) ∧
          v = registered.getD (irqlToVector interrupt.irql) ∧ s₁ = s) ∧
      ¬ Stops s₁ interrupt v ∧
      ((∃ irq pin, line = some irq ∧ registered = none ∧ handlers s₁ v = [] ∧
          ioApicSystemGetIoApicForIrq sys irq = some pin ∧
          Writes (link s₁ v ⟨interrupt.serviceRoutine, device⟩) pin v t) ∨
        (line = none ∨ registered ≠ none ∨ handlers s₁ v ≠ []) ∧
          t = link s₁ v ⟨interrupt.serviceRoutine, device⟩) := by
  rcases call_cases sys s env interrupt device with ⟨w, hw⟩ | ⟨w, hw⟩ | ⟨fault, hfault⟩ | ⟨e, he⟩
  · obtain ⟨line, hline, hreg, hfirst⟩ := hw
    obtain ⟨s₁, hclaims, hreg₁, heq⟩ : ∃ s₁, Claims s w s₁ ∧ _ ∧
      iomuRegisterInterrupt sys env interrupt device s = _ := call_takes hline hreg hfirst
    rw [heq] at h
    obtain ⟨hstop, hwhy⟩ := connect_returns (registeredVector_pin hreg₁) h
    rcases hwhy with ⟨-, hr, -⟩ | ⟨-, -, hr, -⟩ | ⟨-, -, -, hr, -⟩ | ⟨hr, heffect⟩ <;> cases hr
    exact ⟨line, none, s₁, hline, hreg, Or.inl ⟨rfl, hfirst, hclaims⟩, hstop, heffect⟩
  · obtain ⟨line, registered, hline, hreg, hfull, hshared, rfl⟩ := hw
    have heq : iomuRegisterInterrupt sys env interrupt device s = _ :=
      call_shares hline hreg hfull hshared
    rw [heq] at h
    obtain ⟨hstop, hwhy⟩ := connect_returns (registeredVector_pin hreg) h
    rcases hwhy with ⟨-, hr, -⟩ | ⟨-, -, hr, -⟩ | ⟨-, -, -, hr, -⟩ | ⟨hr, heffect⟩ <;> cases hr
    exact ⟨line, registered, s, hline, hreg, Or.inr ⟨hfull, rfl, rfl⟩, hstop, heffect⟩
  · rw [hfault] at h
    cases h
  · rw [he] at h
    cases h

/-- How a call that succeeds has come by its vector. -/
def Chooses (s : InterruptState) (irql : Irql) (registered : Option BYTE) (v : BYTE) : Prop :=
  registered = none ∧ FirstFree s irql v ∨
    (registered = none → ClassFull s irql) ∧ v = registered.getD (irqlToVector irql)

theorem Chooses.priority {line registered : Option BYTE} {irql : Irql}
    (h : Chooses s irql registered v) (hreg : registeredVector sys s line irql = .ok registered) :
    vectorToIrql v = irql.value := by
  rcases h with ⟨-, hfirst⟩ | ⟨-, rfl⟩
  · exact hfirst.1
  · cases registered with
    | none => exact vectorToIrql_irqlToVector irql
    | some w =>
      obtain ⟨irq, -, -, hw⟩ := registeredVector_some hreg
      exact hw

/-- The entry that a call writes for a line that has none, where the list was empty. -/
def WritesEntry (sys : IoApicSystem) (s : InterruptState) (line registered : Option BYTE) (v : BYTE)
    (t : InterruptState) : Prop :=
  (∃ irq pin entry, line = some irq ∧ registered = none ∧ handlers s v = [] ∧
      ioApicSystemGetIoApicForIrq sys irq = some pin ∧ s.interruptsWritten pin = false ∧
      t.interruptsWritten = Function.update s.interruptsWritten pin true ∧ entry.vector = v ∧
      t.redirectionTable = Function.update s.redirectionTable pin entry) ∨
    (line = none ∨ registered ≠ none ∨ handlers s v ≠ []) ∧
      t.interruptsWritten = s.interruptsWritten ∧ t.redirectionTable = s.redirectionTable

/-- A call that succeeds claims its vector, unless it shares it, links the handler, and writes the
entry. -/
theorem success_effects (hi : Consistent s)
    (h : iomuRegisterInterrupt sys env interrupt device s = .ok (.ok v, t)) :
    ∃ line registered, ioApicLine interrupt.type = .ok line ∧
      registeredVector sys s line interrupt.irql = .ok registered ∧
      Chooses s interrupt.irql registered v ∧ noOfReservedExceptions ≤ v ∧
      (∀ w, claimed t w = (decide (w = v) || claimed s w)) ∧
      (∀ w, handlers t w = if w = v
        then handlers s v ++ [⟨interrupt.serviceRoutine, device⟩] else handlers s w) ∧
      (∀ w, installed t w = (decide (w = v) || installed s w)) ∧
      WritesEntry sys s line registered v t := by
  obtain ⟨line, registered, s₁, hline, hreg, hchosen, hstop, hdone⟩ := call_success h
  have hge : noOfReservedExceptions ≤ v := by
    rw [← BitVec.not_lt]
    exact fun hlt => hstop (Or.inl hlt)
  have hchooses : Chooses s interrupt.irql registered v := by
    rcases hchosen with ⟨hnone, hfirst, -⟩ | ⟨hfull, hv, -⟩
    · exact Or.inl ⟨hnone, hfirst⟩
    · exact Or.inr ⟨hfull, hv⟩
  have hclaimed : ∀ w, claimed s₁ w = (decide (w = v) || claimed s w) := by
    intro w
    rcases hchosen with ⟨-, -, mem, rfl, hbits⟩ | ⟨hfull, hv, rfl⟩
    · exact hbits w
    · by_cases heq : w = v
      · rw [decide_eq_true heq, Bool.true_or, heq]
        cases registered with
        | none => exact hfull rfl v (hchooses.priority hreg)
        | some w =>
          obtain ⟨irq, -, hvector, -⟩ := registeredVector_some hreg
          obtain ⟨pin, -, hwritten, hw⟩ := ioApicSystemGetVectorForIrq_ok hvector
          rw [hv, Option.getD_some, ← hw]
          exact (hi.written pin hwritten).2
      · simp [heq]
  have hsame : s₁.registeredInterrupts = s.registeredInterrupts ∧
      s₁.isrRoutines = s.isrRoutines ∧ s₁.interruptsWritten = s.interruptsWritten ∧
      s₁.redirectionTable = s.redirectionTable := by
    rcases hchosen with ⟨-, -, hclaims⟩ | ⟨-, -, rfl⟩
    · exact hclaims.same
    · exact ⟨rfl, rfl, rfl, rfl⟩
  obtain ⟨hlists, hroutines, hwritten, htable⟩ := hsame
  have hhandlers : ∀ w, handlers s₁ w = handlers s w := fun w => congrFun hlists _
  have hinstalled : ∀ w, installed s₁ w = installed s w := fun w => congrFun hroutines _
  have hinst : handlers s₁ v ≠ [] → installed s₁ v = true := by
    rw [hhandlers, hinstalled]
    exact hi.installed_of v
  have hlinked : ∀ w, handlers (link s₁ v ⟨interrupt.serviceRoutine, device⟩) w = if w = v
      then handlers s v ++ [⟨interrupt.serviceRoutine, device⟩] else handlers s w := by
    intro w
    rw [handlers_link, hhandlers, hhandlers]
  have hroutine : ∀ w, installed (link s₁ v ⟨interrupt.serviceRoutine, device⟩) w =
      (decide (w = v) || installed s w) := by
    intro w
    rw [installed_link hinst, hinstalled]
  refine ⟨line, registered, hline, hreg, hchooses, hge, ?_⟩
  rw [hhandlers] at hdone
  rcases hdone with ⟨irq, pin, rfl, rfl, hempty, hpin, entry, hentry, rfl⟩ | ⟨hnot, rfl⟩
  · obtain ⟨pin', hpin', hfree⟩ := registeredVector_pin hreg irq rfl rfl
    rw [hpin] at hpin'
    cases hpin'
    refine ⟨hclaimed, hlinked, hroutine,
      Or.inl ⟨irq, pin, entry, rfl, rfl, hempty, hpin, hfree, ?_, hentry, ?_⟩⟩
    · rw [← hwritten]
      rfl
    · rw [← htable]
      rfl
  · exact ⟨hclaimed, hlinked, hroutine, Or.inr ⟨hnot, hwritten, htable⟩⟩

section Entries

variable {line registered : Option BYTE}

/-- Entries that are written stay as they are. -/
theorem WritesEntry.kept (h : WritesEntry sys s line registered v t) {pin : Pin}
    (hpin : s.interruptsWritten pin = true) :
    t.interruptsWritten pin = true ∧ t.redirectionTable pin = s.redirectionTable pin := by
  rcases h with ⟨irq, pin', entry, -, -, -, -, hfree, hwritten, -, htable⟩ | ⟨-, hwritten, htable⟩
  · have hne : pin ≠ pin' := by
      rintro rfl
      rw [hfree] at hpin
      cases hpin
    rw [hwritten, htable, Function.update_of_ne hne, Function.update_of_ne hne]
    exact ⟨hpin, rfl⟩
  · rw [hwritten, htable]
    exact ⟨hpin, rfl⟩

/-- A new entry holds the vector of the call. -/
theorem WritesEntry.fresh (h : WritesEntry sys s line registered v t) {pin : Pin}
    (hpin : t.interruptsWritten pin = true) :
    s.interruptsWritten pin = true ∧ t.redirectionTable pin = s.redirectionTable pin ∨
      (t.redirectionTable pin).vector = v := by
  rcases h with ⟨irq, pin', entry, -, -, -, -, -, hwritten, hentry, htable⟩ | ⟨-, hwritten, htable⟩
  · by_cases heq : pin = pin'
    · subst heq
      rw [htable, Function.update_self]
      exact Or.inr hentry
    · rw [hwritten, Function.update_of_ne heq] at hpin
      rw [htable, Function.update_of_ne heq]
      exact Or.inl ⟨hpin, rfl⟩
  · rw [hwritten] at hpin
    rw [htable]
    exact Or.inl ⟨hpin, rfl⟩

theorem WritesEntry.vector_kept (h : WritesEntry sys s line registered v t) {irq w : BYTE}
    (hw : ioApicSystemGetVectorForIrq sys s irq = .ok w) :
    ioApicSystemGetVectorForIrq sys t irq = .ok w := by
  obtain ⟨pin, hpin, hwritten, hvector⟩ := ioApicSystemGetVectorForIrq_ok hw
  obtain ⟨hwritten', htable⟩ := h.kept hwritten
  unfold ioApicSystemGetVectorForIrq
  rw [hpin]
  dsimp only
  rw [if_pos hwritten', htable, hvector]

/-- The line delivers the vector of the call unless it had no entry and the class was full. -/
theorem WritesEntry.line_iff {irql : Irql} (hi : Consistent s)
    (h : WritesEntry sys s line registered v t) (hge : noOfReservedExceptions ≤ v)
    (hreg : registeredVector sys s line irql = .ok registered) (hv : Chooses s irql registered v)
    {irq : BYTE} (hline : line = some irq) :
    ioApicSystemGetVectorForIrq sys t irq = .ok v ↔
      (ioApicSystemGetVectorForIrq sys s irq = .error .deviceInterruptNotConfigured →
        ¬ ClassFull s irql) := by
  have hpriority := hv.priority hreg
  subst hline
  cases registered with
  | some w =>
    obtain ⟨irq', hirq, hw, -⟩ := registeredVector_some hreg
    cases hirq
    obtain rfl : v = w := by
      rcases hv with ⟨hnone, -⟩ | ⟨-, hv⟩
      · cases hnone
      · exact hv
    rw [hw]
    exact ⟨fun _ hnone => (nomatch hnone), fun _ => h.vector_kept hw⟩
  | none =>
    have hnone := registeredVector_none hreg
    rcases h with ⟨irq', pin, entry, hirq, -, hempty, hpin, hfree, hwritten, hentry, htable⟩ |
      ⟨hnot, hwritten, htable⟩
    · cases hirq
      have hfreeVector : claimed s v = false := by
        rw [← Bool.not_eq_true, hi.claimed_iff v hge, not_not]
        exact hempty
      constructor
      · intro _ _ hfull
        rw [hfull v hpriority] at hfreeVector
        cases hfreeVector
      · intro _
        unfold ioApicSystemGetVectorForIrq
        rw [hpin]
        dsimp only
        rw [hwritten, htable, Function.update_self, Function.update_self, if_pos rfl, hentry]
    · have hlist : handlers s v ≠ [] := by
        rcases hnot with hnot | hnot | hnot
        · cases hnot
        · exact absurd rfl hnot
        · exact hnot
      have hfull : ClassFull s irql := by
        rcases hv with ⟨-, hfirst⟩ | ⟨hfull, -⟩
        · have := (hi.claimed_iff v hge).mpr hlist
          rw [hfirst.2.1] at this
          cases this
        · exact hfull rfl
      have hsame : ioApicSystemGetVectorForIrq sys t irq = ioApicSystemGetVectorForIrq sys s irq := by
        unfold ioApicSystemGetVectorForIrq
        rw [hwritten, htable]
      rw [hsame, hnone]
      exact ⟨fun hok => (nomatch hok), fun hfree => absurd hfull (hfree rfl)⟩

end Entries

/-- Setting up the bitmap sets the bits of the exceptions only. -/
theorem iomuPreinitSystem_spec {mem mem' : Memory} {buffer : QWORD} {bitmap : Bitmap}
    (h : iomuPreinitSystem mem buffer = .ok (mem', bitmap)) {i : ℕ} (hi : i < 256) :
    bitAt mem' bitmap.bitmapBuffer i = decide (i < 32) := by
  obtain ⟨b, hpre, h⟩ := bind_eq_ok.mp h
  obtain ⟨⟨mem₁, b₁⟩, hinit, h⟩ := bind_eq_ok.mp h
  obtain ⟨mem₂, hset, h⟩ := bind_eq_ok.mp h
  cases h
  obtain ⟨_, hbuf, hinit⟩ := bind_eq_ok.mp hinit
  cases hinit
  obtain ⟨_, -, hset⟩ := bind_eq_ok.mp hset
  obtain ⟨_, -, hset⟩ := bind_eq_ok.mp hset
  have h32 : (noOfReservedExceptions.setWidth 32 : DWORD).toNat = 32 := rfl
  have h0 : (0 : DWORD).toNat = 0 := rfl
  have h256 : noOfTotalInterrupts.toNat = 256 := rfl
  obtain ⟨mem₃, hrun, hbits⟩ := bitmapChangeBits_spec (memset mem buffer 0 (b.bufferSize.setWidth 64))
    true (assertThat_eq_ok.mp hbuf) (0 : DWORD) 32 (by decide)
  rw [h32] at hset
  dsimp only at hset
  rw [if_neg Bool.false_ne_true, hrun] at hset
  cases hset
  rw [hbits.bitAt (by rw [h0]; omega) (by omega), bitAt_memset buffer hpre (by rw [h256]; exact hi), h0]
  by_cases hlt : i < 32
  · rw [if_pos (by omega), decide_eq_true hlt]
  · rw [if_neg (by omega), decide_eq_false hlt]

theorem Initial.claimed_eq (h : Initial s) (w : BYTE) :
    claimed s w = decide (w < noOfReservedExceptions) := by
  obtain ⟨⟨mem, buffer, hinit⟩, -⟩ := h
  exact iomuPreinitSystem_spec hinit w.isLt

theorem Initial.consistent (h : Initial s) : Consistent s := by
  obtain ⟨-, hlists, -, hwritten⟩ := id h
  refine ⟨fun w hw => ?_, fun w hw => absurd (hlists _) hw, fun pin hpin => ?_⟩
  · rw [h.claimed_eq, decide_eq_true_eq]
    exact ⟨fun hlt => absurd hw (BitVec.not_le.mpr hlt), fun hne => absurd (hlists _) hne⟩
  · rw [hwritten pin] at hpin
    cases hpin

theorem consistent_call (hi : Consistent s)
    (h : iomuRegisterInterrupt sys env interrupt device s = .ok (.ok v, t)) : Consistent t := by
  obtain ⟨line, registered, -, -, -, hge, hclaimed, hhandlers, hinstalled, hentry⟩ :=
    success_effects hi h
  refine ⟨fun w hw => ?_, fun w hw => ?_, fun pin hpin => ?_⟩
  · rw [hclaimed, hhandlers]
    by_cases heq : w = v
    · simp [heq]
    · simpa [heq] using hi.claimed_iff w hw
  · rw [hinstalled]
    rw [hhandlers] at hw
    by_cases heq : w = v
    · simp [heq]
    · simpa [heq] using hi.installed_of w (by simpa [heq] using hw)
  · rcases hentry.fresh hpin with ⟨hwritten, htable⟩ | hv
    · obtain ⟨hge', hset⟩ := hi.written pin hwritten
      rw [htable, hclaimed, hset, Bool.or_true]
      exact ⟨hge', rfl⟩
    · rw [hv, hclaimed, decide_eq_true rfl]
      exact ⟨hge, rfl⟩

/-- What is connected stays connected. -/
theorem connected_call (hi : Consistent s)
    (h : iomuRegisterInterrupt sys env interrupt device s = .ok (.ok v, t)) {r : Registration}
    (hr : Connected sys s r) : Connected sys t r := by
  obtain ⟨line, registered, -, -, -, -, -, hhandlers, hinstalled, hentry⟩ := success_effects hi h
  obtain ⟨hline, hpriority, hmem, hinst⟩ := hr
  refine ⟨fun irq hirq => hentry.vector_kept (hline irq hirq), hpriority, ?_, ?_⟩
  · rw [hhandlers]
    by_cases heq : r.vector = v
    · rw [if_pos heq, ← heq]
      exact List.mem_append_left _ hmem
    · rw [if_neg heq]
      exact hmem
  · rw [hinstalled, hinst, Bool.or_true]

/-- A call that succeeds connects its line exactly if a line without an entry finds a vector. -/
theorem connected_iff (hi : Consistent s) {r : Registration}
    (h : iomuRegisterInterrupt sys r.env r.interrupt r.device s = .ok (.ok r.vector, t)) :
    Connected sys t r ↔ FindsVector sys s r := by
  obtain ⟨line, registered, hline, hreg, hchooses, hge, -, hhandlers, hinstalled, hentry⟩ :=
    success_effects hi h
  have hiff : ∀ irq, ioApicLine r.interrupt.type = .ok (some irq) →
      (ioApicSystemGetVectorForIrq sys t irq = .ok r.vector ↔
        (ioApicSystemGetVectorForIrq sys s irq = .error .deviceInterruptNotConfigured →
          ¬ ClassFull s r.interrupt.irql)) := by
    intro irq hirq
    rw [hline] at hirq
    cases hirq
    exact hentry.line_iff hi hge hreg hchooses rfl
  constructor
  · intro hconnected irq hirq
    exact (hiff irq hirq).mp (hconnected.1 irq hirq)
  · intro hfinds
    refine ⟨fun irq hirq => (hiff irq hirq).mpr (hfinds irq hirq), hchooses.priority hreg, ?_, ?_⟩
    · rw [hhandlers, if_pos rfl]
      exact List.mem_append_right _ (List.mem_singleton.mpr rfl)
    · rw [hinstalled, decide_eq_true rfl, Bool.true_or]

theorem register_eq_some {x y : System} {r : Registration} (h : register sys x r = some y) :
    iomuRegisterInterrupt sys r.env r.interrupt r.device x.machine = .ok (.ok r.vector, y.machine) ∧
      y.registrations = x.registrations ++ [r] := by
  unfold register at h
  split at h
  next w u hrun =>
    split_ifs at h with hv
    cases h
    rw [← hv]
    exact ⟨hrun, rfl⟩
  · cases h

end Runs

/-- The registrations that have succeeded are connected. -/
def AllConnected (sys : IoApicSystem) (s : System) : Prop :=
  ∀ r ∈ s.registrations, Connected sys s.machine r

theorem initial_atBoot : Initial atBoot :=
  ⟨⟨fun _ => 0, 0x1000, rfl⟩, fun _ => rfl, fun _ => rfl, fun _ => rfl⟩

/-- Along a run of successful calls everything stays connected exactly if every line that has no entry
yet finds a free vector in the class of its `IRQL`. -/
theorem registrations_connected_iff {sys : IoApicSystem} {s₀ : InterruptState} {s : System}
    {tr : List (System × Registration)} (h₀ : Initial s₀)
    (h : Run.Exec (fun s r t => register sys s r = some t) ⟨s₀, []⟩ tr s) :
    Run.Always (AllConnected sys) tr s ↔ ∀ x ∈ tr, FindsVector sys x.1.machine x.2 := by
  refine h.always_iff (I := fun s => Consistent s.machine) (P := AllConnected sys)
    (Q := fun s r => FindsVector sys s.machine r) h₀.consistent ?_ ?_ ?_
  · intro r hr
    cases hr
  · intro s r t hi hs
    exact consistent_call hi (register_eq_some hs).1
  · intro s r t hi hall hs
    obtain ⟨hcall, hregs⟩ := register_eq_some hs
    rw [← connected_iff hi hcall, AllConnected, hregs]
    constructor
    · intro hnew
      exact hnew r (by simp)
    · intro hr r' hr'
      rcases List.mem_append.mp hr' with hold | hnew
      · exact connected_call hi hcall (hall r' hold)
      · rw [List.mem_singleton.mp hnew]
        exact hr

def keyboard : Registration :=
  ⟨⟨true, true⟩, ⟨.legacy 1, .dispatchLevel, false, 2, false⟩, 2, 48⟩

/-- A local interrupt gets the first vector of the class, and the keyboard, registered twice, shares the
next one. -/
def sharedKeyboard : List Registration :=
  ⟨⟨true, true⟩, ⟨.lapic, .dispatchLevel, false, 1, false⟩, 1, 48⟩ ::
    List.replicate 2 { keyboard with vector := 49 }

theorem sharedKeyboard_registers :
    (Run.exec (register oneIoApic) ⟨atBoot, []⟩ sharedKeyboard).isSome := by
  decide +kernel

theorem sharedKeyboard_connected :
    Run.Always (AllConnected oneIoApic)
      ((Run.exec (register oneIoApic) ⟨atBoot, []⟩ sharedKeyboard).get sharedKeyboard_registers).1
      ((Run.exec (register oneIoApic) ⟨atBoot, []⟩ sharedKeyboard).get sharedKeyboard_registers).2 := by
  -- Vector 63 of the class stays free.
  have hfree : ∀ x ∈ ((Run.exec (register oneIoApic) ⟨atBoot, []⟩ sharedKeyboard).get
      sharedKeyboard_registers).1, x.2.interrupt.irql.value = vectorToIrql 63 ∧
        claimed x.1.machine 63 = false := by
    decide +kernel
  refine (registrations_connected_iff initial_atBoot (Run.exec_get sharedKeyboard_registers)).mpr ?_
  intro x hx _ _ _ hfull
  obtain ⟨hclass, hclaimed⟩ := hfree x hx
  have hclaimed' : claimed x.1.machine 63 = true := hfull 63 hclass.symm
  rw [hclaimed] at hclaimed'
  cases hclaimed'

/-- Sixteen local interrupts use up the class before the line of the keyboard is registered. -/
def fillThenKeyboard : List Registration :=
  (List.range 16).map (fun i => ⟨⟨true, true⟩, ⟨.lapic, .dispatchLevel, false, 1, false⟩, 1,
    48 + BitVec.ofNat 8 i⟩) ++ [keyboard]

theorem fillThenKeyboard_registers :
    (Run.exec (register oneIoApic) ⟨atBoot, []⟩ fillThenKeyboard).isSome := by
  decide +kernel

/-- The last call succeeds and shares vector 48, but the line has no entry. -/
theorem not_registrations_connected : ¬ ∀ (sys : IoApicSystem) (s₀ : InterruptState) (s : System)
    (tr : List (System × Registration)), Initial s₀ →
    Run.Exec (fun s r t => register sys s r = some t) ⟨s₀, []⟩ tr s →
    Run.Always (AllConnected sys) tr s := by
  intro hall
  have hlast := (hall oneIoApic atBoot _ _ initial_atBoot (Run.exec_get fillThenKeyboard_registers)).2
  have hconnected := (hlast keyboard (by decide +kernel)).1 1 rfl
  exact absurd hconnected (by decide +kernel)

end HAL9000.Interrupts
