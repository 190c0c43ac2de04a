import HAL9000.CommonLib.BitmapBits
import HAL9000.Lib.Program

/-! Interrupt registration in `iomu.c`, with the parts of `isr.c` and `ioapic_system.c` that it calls.
A call runs under the global interrupt lock, so calls follow one another. -/
namespace HAL9000.Interrupts

open Program

inductive Irql
  | apcLevel
  | dispatchLevel
  | userInputLevel
  | storageLevel
  | networkLevel
  | errorLevel
  | clockLevel
  | ipiLevel
  | assertLevel
  deriving DecidableEq, Repr

def Irql.value : Irql → BYTE
  | .apcLevel => 0x2
  | .dispatchLevel => 0x3
  | .userInputLevel => 0x4
  | .storageLevel => 0x5
  | .networkLevel => 0x6
  | .errorLevel => 0xC
  | .clockLevel => 0xD
  | .ipiLevel => 0xE
  | .assertLevel => 0xF

def irqlToVector (irql : Irql) : BYTE := irql.value <<< 4

/-- The priority class of a vector. -/
def vectorToIrql (vec : BYTE) : BYTE := vec >>> 4

def vectorsPerIrql : DWORD := 0x10

def noOfReservedExceptions : BYTE := 32

def noOfTotalInterrupts : DWORD := 256

inductive Status
  | deviceDoesNotExist
  | deviceInterruptNotConfigured
  | deviceInterruptNotAvailable
  | deviceInterruptPriorityNotAvailable
  | alreadyInitialized
  | heapInsufficientResources
  | pciProgramming
  deriving DecidableEq, Repr

/-- What `_IomuIsDeviceMsiCapable` and `IoApicGetInterruptLineForPciDevice` return for a device. -/
structure PciDevice where
  msiCapable : Bool
  interruptLine : DWORD
  deriving DecidableEq, Repr

inductive IoInterruptType
  | legacy (irq : BYTE)
  | lapic
  | pci (pciDevice : PciDevice)
  deriving DecidableEq, Repr

structure IoInterrupt where
  type : IoInterruptType
  irql : Irql
  exclusive : Bool
  serviceRoutine : QWORD
  broadcastInterrupt : Bool
  deriving DecidableEq, Repr

structure RegisteredInterruptEntry where
  function : QWORD
  device : QWORD
  deriving DecidableEq, Repr

inductive ApicDeliveryMode
  | fixed
  | lowest
  deriving DecidableEq, Repr

inductive ApicDestinationMode
  | physical
  | logical
  deriving DecidableEq, Repr

inductive ApicPinPolarity
  | activeHigh
  | activeLow
  deriving DecidableEq, Repr

inductive ApicTriggerMode
  | edge
  | level
  deriving DecidableEq, Repr

structure IoApicRedirTableEntry where
  vector : BYTE
  deliveryMode : ApicDeliveryMode
  destinationMode : ApicDestinationMode
  destination : BYTE
  pinPolarity : ApicPinPolarity
  triggerMode : ApicTriggerMode
  masked : Bool
  deriving DecidableEq, Repr

structure IoApicInterruptOverride where
  sourceIrq : BYTE
  destinationIrq : BYTE
  triggerMode : ApicTriggerMode
  pinPolarity : ApicPinPolarity
  deriving DecidableEq, Repr

structure IoApicEntry where
  irqBase : BYTE
  maximumRedirectionEntry : BYTE
  deriving DecidableEq, Repr

/-- What the ACPI tables say about the IO APICs. -/
structure IoApicSystem where
  apicList : List IoApicEntry
  interruptOverrides : List IoApicInterruptOverride

/-- The interrupt pin of an IO APIC. -/
structure Pin where
  apic : ℕ
  offset : BYTE
  deriving DecidableEq, Repr

/-- `interruptsWritten` is the bitmap of each IO APIC. -/
structure InterruptState where
  mem : Memory
  interruptBitmap : Bitmap
  registeredInterrupts : BYTE → List RegisteredInterruptEntry
  isrRoutines : BYTE → Bool
  interruptsWritten : Pin → Bool
  redirectionTable : Pin → IoApicRedirTableEntry
  maskInterrupts : Bool
  bitmapBuffer_ne : interruptBitmap.bitmapBuffer ≠ 0
  bitCount_eq : interruptBitmap.bitCount = noOfTotalInterrupts

/-- What a call finds outside: whether the heap has room for an entry, and whether the PCI configuration
space takes the message address and data. -/
structure Surroundings where
  heapHasRoom : Bool
  pciProgrammed : Bool
  deriving DecidableEq, Repr

abbrev Registering := Prog InterruptState Status Fault

section IoApic

variable (sys : IoApicSystem)

/-- The last override for the line. -/
def ioApicReturnInterruptOverrideForIrq (irq : BYTE) : Option IoApicInterruptOverride :=
  sys.interruptOverrides.reverse.find? fun entry => entry.sourceIrq = irq

def ioApicSystemGetIoApicForIrq (irq : BYTE) : Option Pin :=
  let finalIrq := match ioApicReturnInterruptOverrideForIrq sys irq with
    | some entry => entry.destinationIrq
    | none => irq
  let handles (apic : IoApicEntry) : Bool := checkBounds (finalIrq.setWidth 64) 1
    (apic.irqBase.setWidth 64) (apic.maximumRedirectionEntry.setWidth 64 + 1)
  (sys.apicList.findIdx? handles).map fun i =>
    ⟨i, finalIrq - (sys.apicList.getD i ⟨0, 0⟩).irqBase⟩

def ioApicSystemGetVectorForIrq (s : InterruptState) (irq : BYTE) : Except Status BYTE :=
  match ioApicSystemGetIoApicForIrq sys irq with
  | none => .error .deviceDoesNotExist
  | some pin =>
    if s.interruptsWritten pin then .ok (s.redirectionTable pin).vector
    else .error .deviceInterruptNotConfigured

/-- Called with `Overwrite` false. The line of the real-time clock is always level triggered. -/
def ioApicSystemSetInterrupt (irq vector : BYTE) (destinationMode : ApicDestinationMode)
    (deliveryMode : ApicDeliveryMode) (pinPolarity : ApicPinPolarity)
    (triggerMode : ApicTriggerMode) (destination : BYTE) : Registering Unit := do
  let s ← Prog.get
  let override := ioApicReturnInterruptOverrideForIrq sys irq
  match ioApicSystemGetIoApicForIrq sys irq with
  | none => Prog.fail .deviceDoesNotExist
  | some pin =>
    if s.interruptsWritten pin then Prog.fail .deviceInterruptNotAvailable
    else
      let triggerMode := (override.map (·.triggerMode)).getD triggerMode
      let entry : IoApicRedirTableEntry := {
        vector := vector
        deliveryMode := deliveryMode
        destinationMode := destinationMode
        destination := destination
        pinPolarity := (override.map (·.pinPolarity)).getD pinPolarity
        triggerMode := if 8 ≠ irq then triggerMode else .level
        masked := s.maskInterrupts }
      Prog.modify fun s => { s with
        redirectionTable := Function.update s.redirectionTable pin entry
        interruptsWritten := Function.update s.interruptsWritten pin true }

end IoApic

/-- The routine that runs the list of a vector is the only one that is installed. -/
def isrInstallEx (vector : BYTE) : Registering Unit := do
  Prog.lift (assertThat (noOfReservedExceptions < vector))
  let s ← Prog.get
  let indexInRoutines := vector - noOfReservedExceptions
  if s.isrRoutines indexInRoutines then Prog.fail .alreadyInitialized
  else Prog.modify fun s => { s with isrRoutines := Function.update s.isrRoutines indexInRoutines true }

/-- The line of an interrupt that goes through an IO APIC. -/
def ioApicLine : IoInterruptType → Except Fault (Option BYTE)
  | .legacy irq => .ok (some irq)
  | .lapic => .ok none
  | .pci device =>
    if device.msiCapable then .ok none
    else do
      assertThat (device.interruptLine ≤ 0xFF)
      return some (device.interruptLine.setWidth 8)

/-- The vector that the line already has. -/
def registeredVector (sys : IoApicSystem) (s : InterruptState) (line : Option BYTE) (irql : Irql) :
    Except Status (Option BYTE) :=
  match line with
  | none => .ok none
  | some line =>
    match ioApicSystemGetVectorForIrq sys s line with
    | .ok vector =>
      if vectorToIrql vector ≠ irql.value then .error .deviceInterruptPriorityNotAvailable
      else .ok (some vector)
    | .error .deviceInterruptNotConfigured => .ok none
    | .error status => .error status

/-- A vector of the class of the `IRQL` that is still free is claimed. -/
def scanForVector (s : InterruptState) (irql : Irql) : Except Fault (DWORD × Memory) :=
  bitmapScanFromToAndFlip s.mem s.interruptBitmap ((irqlToVector irql).setWidth 32)
    ((irqlToVector irql).setWidth 32 + vectorsPerIrql) 1 false

/-- The vector of the line is shared, else a free one is claimed, else the first one of the class is
shared. -/
def chooseVector (interrupt : IoInterrupt) (registered : Option BYTE) : Registering BYTE := do
  let s ← Prog.get
  let (bitmapResult, mem) ← Prog.lift (match registered with
    | none => scanForVector s interrupt.irql
    | some _ => .ok (maxDword, s.mem))
  Prog.modify fun s => { s with mem := mem }
  if bitmapResult = maxDword then
    if interrupt.exclusive then Prog.fail .deviceInterruptNotAvailable
    else return registered.getD (irqlToVector interrupt.irql)
  else return bitmapResult.setWidth 8

/-- The first handler of a vector needs the routine that runs the list. -/
def installForFirst (bListEmpty : Bool) (vector : BYTE) : Registering Unit :=
  if bListEmpty then isrInstallEx vector else return ()

def insertHandler (interrupt : IoInterrupt) (device : QWORD) (env : Surroundings)
    (interruptIndex : BYTE) : Registering Unit :=
  if env.heapHasRoom then
    Prog.modify fun s =>
      let entries := s.registeredInterrupts interruptIndex ++ [⟨interrupt.serviceRoutine, device⟩]
      { s with registeredInterrupts := Function.update s.registeredInterrupts interruptIndex entries }
  else Prog.fail .heapInsufficientResources

/-- Links the handler into the list of the vector, and tells whether it is the first one. -/
def addHandler (interrupt : IoInterrupt) (device : QWORD) (env : Surroundings) (vector : BYTE) :
    Registering Bool := do
  Prog.lift (assertThat (noOfReservedExceptions ≤ vector))
  let interruptIndex := vector - noOfReservedExceptions
  let s ← Prog.get
  let bListEmpty := (s.registeredInterrupts interruptIndex).isEmpty
  Prog.lift (assertThat (bListEmpty ∨ !interrupt.exclusive))
  installForFirst bListEmpty vector
  insertHandler interrupt device env interruptIndex
  return bListEmpty

/-- The message of the device, or the redirection entry of a line that has none if the list was empty. -/
def programInterrupt (sys : IoApicSystem) (interrupt : IoInterrupt) (env : Surroundings)
    (line : Option BYTE) (setup : Bool) (vector : BYTE) : Registering Unit := do
  let deliveryMode := if interrupt.broadcastInterrupt then .fixed else .lowest
  match interrupt.type with
  | .pci device =>
    if device.msiCapable && !env.pciProgrammed then Prog.fail .pciProgramming
    else match line, setup with
      | some line, true =>
        ioApicSystemSetInterrupt sys line vector .logical deliveryMode .activeLow .level 0xFF
      | _, _ => return ()
  | _ => match line, setup with
    | some line, true =>
      ioApicSystemSetInterrupt sys line vector .logical deliveryMode .activeHigh .edge 0xFF
    | _, _ => return ()

/-- `IomuRegisterInterrupt`; the vector is what it returns. -/
def iomuRegisterInterrupt (sys : IoApicSystem) (env : Surroundings) (interrupt : IoInterrupt)
    (device : QWORD) : Registering BYTE := do
  let line ← Prog.lift (ioApicLine interrupt.type)
  let s ← Prog.get
  match registeredVector sys s line interrupt.irql with
  | .error status => Prog.fail status
  | .ok registered =>
    let vector ← chooseVector interrupt registered
    let bListEmpty ← addHandler interrupt device env vector
    programInterrupt sys interrupt env line (bListEmpty && registered.isNone) vector
    return vector

/-! ### The choice of the vector -/

/-- The bit of the vector in the interrupt bitmap. -/
def claimed (s : InterruptState) (v : BYTE) : Bool :=
  bitAt s.mem s.interruptBitmap.bitmapBuffer v.toNat

def ClassFull (s : InterruptState) (irql : Irql) : Prop :=
  ∀ v, vectorToIrql v = irql.value → claimed s v = true

/-- The first free vector of the class. -/
def FirstFree (s : InterruptState) (irql : Irql) (v : BYTE) : Prop :=
  vectorToIrql v = irql.value ∧ claimed s v = false ∧
    ∀ w, vectorToIrql w = irql.value → claimed s w = false → v ≤ w

/-- The state `t` is `s` with the bit of the vector set. -/
def Claims (s : InterruptState) (v : BYTE) (t : InterruptState) : Prop :=
  ∃ mem, t = { s with mem := mem } ∧ ∀ w, claimed t w = (w = v || claimed s w)

theorem irqlToVector_toNat (irql : Irql) : (irqlToVector irql).toNat = 16 * irql.value.toNat := by
  cases irql <;> rfl

theorem irql_bounds (irql : Irql) : 2 ≤ irql.value.toNat ∧ irql.value.toNat ≤ 15 := by
  cases irql <;> exact ⟨by decide, by decide⟩

theorem vectorToIrql_eq_iff {v : BYTE} {irql : Irql} : vectorToIrql v = irql.value ↔
    (irqlToVector irql).toNat ≤ v.toNat ∧ v.toNat < (irqlToVector irql).toNat + 16 := by
  rw [irqlToVector_toNat, ← BitVec.toNat_inj, vectorToIrql, BitVec.toNat_ushiftRight,
    Nat.shiftRight_eq_div_pow]
  lia

theorem vectorToIrql_irqlToVector (irql : Irql) : vectorToIrql (irqlToVector irql) = irql.value := by
  rw [vectorToIrql_eq_iff]
  omega

/-- The scan claims the first free vector, if the class has one. -/
theorem scanForVector_spec (s : InterruptState) (irql : Irql) :
    (ClassFull s irql ∧ scanForVector s irql = .ok (maxDword, s.mem)) ∨
      ∃ (v : BYTE) (mem : Memory), FirstFree s irql v ∧
        scanForVector s irql = .ok (v.setWidth 32, mem) ∧ Claims s v { s with mem := mem } := by
  have hbounds := irql_bounds irql
  have hfirst := irqlToVector_toNat irql
  have h16 : vectorsPerIrql.toNat = 16 := rfl
  have hindex : ((irqlToVector irql).setWidth 32 : DWORD).toNat = (irqlToVector irql).toNat := by
    rw [BitVec.toNat_setWidth]
    lia
  have hlimit : ((irqlToVector irql).setWidth 32 + vectorsPerIrql : DWORD).toNat =
      (irqlToVector irql).toNat + 16 := by
    rw [BitVec.toNat_add, hindex, h16]
    lia
  have hcount : (irqlToVector irql).setWidth 32 + vectorsPerIrql ≤ s.interruptBitmap.bitCount := by
    rw [s.bitCount_eq, BitVec.le_def, hlimit]
    have h256 : noOfTotalInterrupts.toNat = 256 := rfl
    omega
  have hclass : ∀ v : BYTE, vectorToIrql v = irql.value ↔
      BitRun s.mem s.interruptBitmap.bitmapBuffer (claimed s v)
        ((irqlToVector irql).setWidth 32 + vectorsPerIrql : DWORD).toNat (1 : DWORD).toNat v.toNat ∧
      ((irqlToVector irql).setWidth 32 : DWORD).toNat ≤ v.toNat := by
    intro v
    rw [vectorToIrql_eq_iff, BitRun, hlimit, hindex]
    have h1 : (1 : DWORD).toNat = 1 := rfl
    rw [h1]
    constructor
    · intro h
      refine ⟨⟨by omega, fun k hk => ?_⟩, h.1⟩
      obtain rfl : k = 0 := by omega
      rfl
    · intro h
      exact ⟨h.2, by have := h.1.1; omega⟩
  obtain ⟨r, mem, hscan, hspec⟩ := bitmapScanFromToAndFlip_spec s.mem false s.bitmapBuffer_ne
    ((irqlToVector irql).setWidth 32) (n := 1) (by decide) hcount
  rcases hspec with ⟨rfl, rfl, hnone⟩ | ⟨-, hleast, hbits⟩
  · refine Or.inl ⟨fun v hv => ?_, hscan⟩
    by_contra hfree
    obtain ⟨hrun, hlo⟩ := (hclass v).mp hv
    rw [Bool.not_eq_true] at hfree
    rw [hfree] at hrun
    exact hnone v.toNat hlo hrun
  · obtain ⟨⟨hlo, hrun⟩, hmin⟩ := hleast
    have hlt := hrun.1
    have h1 : (1 : DWORD).toNat = 1 := rfl
    rw [hlimit, h1] at hlt
    have hv : (r.setWidth 8 : BYTE).toNat = r.toNat := by
      rw [BitVec.toNat_setWidth]
      lia
    have hfree : claimed s (r.setWidth 8) = false := by
      have := hrun.2 0 (by decide)
      rwa [Nat.add_zero, ← hv] at this
    refine Or.inr ⟨r.setWidth 8, mem, ⟨?_, hfree, fun w hw hwfree => ?_⟩, ?_, mem, rfl, fun w => ?_⟩
    · rw [hclass, hfree, hv]
      exact ⟨hrun, hlo⟩
    · obtain ⟨hwrun, hwlo⟩ := (hclass w).mp hw
      rw [hwfree] at hwrun
      rw [BitVec.le_def, hv]
      exact hmin ⟨hwlo, hwrun⟩
    · have hback : (r.setWidth 8 : BYTE).setWidth 32 = r := by
        apply BitVec.eq_of_toNat_eq
        rw [BitVec.toNat_setWidth, hv]
        lia
      rw [hback]
      exact hscan
    · have hw := w.isLt
      have := hbits.bitAt (i := w.toNat) (by rw [h1]; omega) (by omega)
      rw [h1] at this
      by_cases heq : w = r.setWidth 8
      · subst heq
        simp only [claimed, decide_true, Bool.true_or, this]
        rw [if_pos (by omega)]
        rfl
      · have hne : w.toNat ≠ r.toNat := fun h => heq (BitVec.eq_of_toNat_eq (h.trans hv.symm))
        simp only [claimed, heq, decide_false, Bool.false_or, this]
        rw [if_neg (by lia)]

theorem firstFree_unique {s : InterruptState} {irql : Irql} {v w : BYTE} (hv : FirstFree s irql v)
    (hw : FirstFree s irql w) : v = w :=
  BitVec.le_antisymm (hv.2.2 w hw.1 hw.2.1) (hw.2.2 v hv.1 hv.2.1)

theorem FirstFree.not_full {s : InterruptState} {irql : Irql} {v : BYTE} (h : FirstFree s irql v) :
    ¬ ClassFull s irql := by
  intro hfull
  have := hfull v h.1
  rw [h.2.1] at this
  cases this

theorem full_or_firstFree (s : InterruptState) (irql : Irql) :
    ClassFull s irql ∨ ∃ v, FirstFree s irql v := by
  rcases scanForVector_spec s irql with h | ⟨v, -, hv, -⟩
  · exact Or.inl h.1
  · exact Or.inr ⟨v, hv⟩

theorem chooseVector_new {s : InterruptState} {interrupt : IoInterrupt} {v : BYTE}
    (hv : FirstFree s interrupt.irql v) :
    ∃ t, Claims s v t ∧ chooseVector interrupt none s = .ok (.ok v, t) := by
  rcases scanForVector_spec s interrupt.irql with h | ⟨w, mem, hw, hscan, hclaims⟩
  · exact absurd h.1 hv.not_full
  · obtain rfl := firstFree_unique hv hw
    refine ⟨_, hclaims, ?_⟩
    have hlt := v.isLt
    have hne : (v.setWidth 32 : DWORD) ≠ maxDword := by
      intro heq
      have := congrArg BitVec.toNat heq
      rw [BitVec.toNat_setWidth, show maxDword.toNat = 2 ^ 32 - 1 from rfl] at this
      lia
    have hback : ((v.setWidth 32 : DWORD).setWidth 8 : BYTE) = v := by
      apply BitVec.eq_of_toNat_eq
      rw [BitVec.toNat_setWidth, BitVec.toNat_setWidth]
      lia
    unfold chooseVector
    rw [Prog.bind_of_ok (show Prog.get s = .ok (.ok s, s) from rfl)]
    simp only [hscan, Prog.lift_ok_bind]
    rw [Prog.bind_of_ok (show Prog.modify _ s = .ok (.ok (), { s with mem := mem }) from rfl),
      if_neg hne, hback]
    rfl

/-- The vector of the line or the first one of a full class is shared, if the caller allows it. -/
theorem chooseVector_shared {s : InterruptState} {interrupt : IoInterrupt} {registered : Option BYTE}
    (h : registered = none → ClassFull s interrupt.irql) :
    chooseVector interrupt registered s = .ok (if interrupt.exclusive
      then .error .deviceInterruptNotAvailable
      else .ok (registered.getD (irqlToVector interrupt.irql)), s) := by
  have hscan : (match registered with
      | none => scanForVector s interrupt.irql
      | some _ => .ok (maxDword, s.mem)) = .ok (maxDword, s.mem) := by
    cases registered with
    | some v => rfl
    | none =>
      rcases scanForVector_spec s interrupt.irql with hfull | ⟨v, -, hv, -⟩
      · exact hfull.2
      · exact absurd (h rfl) hv.not_full
  unfold chooseVector
  rw [Prog.bind_of_ok (show Prog.get s = .ok (.ok s, s) from rfl)]
  rw [hscan, Prog.lift_ok_bind]
  dsimp only
  rw [Prog.bind_of_ok (show Prog.modify _ s = .ok (.ok (), s) from rfl),
    if_pos (show maxDword = maxDword from rfl)]
  by_cases hex : interrupt.exclusive = true
  · rw [if_pos hex, if_pos hex]
    rfl
  · rw [if_neg hex, if_neg hex]
    rfl

/-! ### The handler -/

/-- The list run for a vector. -/
def handlers (s : InterruptState) (v : BYTE) : List RegisteredInterruptEntry :=
  s.registeredInterrupts (v - noOfReservedExceptions)

def installed (s : InterruptState) (v : BYTE) : Bool := s.isrRoutines (v - noOfReservedExceptions)

/-- An assertion stops the machine before the handler is linked. -/
def Stops (s : InterruptState) (interrupt : IoInterrupt) (v : BYTE) : Prop :=
  v < noOfReservedExceptions ∨ handlers s v = [] ∧ v = noOfReservedExceptions ∨
    handlers s v ≠ [] ∧ interrupt.exclusive = true

/-- The routine can be installed where the handler is the first of its vector. -/
def CanInstall (s : InterruptState) (v : BYTE) : Prop :=
  handlers s v = [] → installed s v = false

/-- The state after the routine is installed where needed. -/
def install (s : InterruptState) (v : BYTE) : InterruptState := { s with
  isrRoutines := if (handlers s v).isEmpty
    then Function.update s.isrRoutines (v - noOfReservedExceptions) true else s.isrRoutines }

/-- The state after the handler is linked. -/
def link (s : InterruptState) (v : BYTE) (entry : RegisteredInterruptEntry) : InterruptState :=
  { install s v with registeredInterrupts :=
      Function.update s.registeredInterrupts (v - noOfReservedExceptions) (handlers s v ++ [entry]) }

section Handler

variable {s : InterruptState} {interrupt : IoInterrupt} {device : QWORD} {env : Surroundings} {v : BYTE}

theorem addHandler_stops (h : Stops s interrupt v) :
    ∃ fault, addHandler interrupt device env v s = .error fault := by
  unfold addHandler
  by_cases hlt : v < noOfReservedExceptions
  · rw [assertThat_of_not (by rw [BitVec.not_le]; exact hlt)]
    exact ⟨_, rfl⟩
  · rw [assertThat_of (BitVec.not_lt.mp hlt), Prog.lift_ok_bind,
      Prog.bind_of_ok (show Prog.get s = .ok (.ok s, s) from rfl)]
    rcases h with h | ⟨hempty, rfl⟩ | ⟨hne, hex⟩
    · exact absurd h hlt
    · unfold handlers at hempty
      simp only [hempty]
      refine ⟨.assertFailed, ?_⟩
      rfl
    · unfold handlers at hne
      have hne' : (s.registeredInterrupts (v - noOfReservedExceptions)).isEmpty = false := by
        simpa using hne
      simp only [hne', hex]
      exact ⟨.assertFailed, rfl⟩

theorem installForFirst_eq (hge : noOfReservedExceptions ≤ v)
    (hfirst : handlers s v = [] → v ≠ noOfReservedExceptions) :
    (¬ CanInstall s v →
      installForFirst (handlers s v).isEmpty v s = .ok (.error .alreadyInitialized, s)) ∧
    (CanInstall s v → installForFirst (handlers s v).isEmpty v s = .ok (.ok (), install s v)) := by
  unfold installForFirst CanInstall install
  by_cases hempty : handlers s v = []
  · have hlt : noOfReservedExceptions < v := by
      have hle : noOfReservedExceptions.toNat ≤ v.toNat := hge
      have hne : v.toNat ≠ noOfReservedExceptions.toNat := fun h =>
        hfirst hempty (BitVec.eq_of_toNat_eq h)
      rw [BitVec.lt_def]
      omega
    rw [hempty, if_pos (show ([] : List RegisteredInterruptEntry).isEmpty = true from rfl)]
    unfold isrInstallEx installed
    rw [assertThat_of hlt, Prog.lift_ok_bind,
      Prog.bind_of_ok (show Prog.get s = .ok (.ok s, s) from rfl)]
    by_cases hinst : s.isrRoutines (v - noOfReservedExceptions) = true
    · rw [if_pos hinst]
      refine ⟨fun _ => rfl, fun h => ?_⟩
      rw [h rfl] at hinst
      cases hinst
    · rw [if_neg hinst]
      refine ⟨fun h => ?_, fun _ => rfl⟩
      exact absurd (fun _ => Bool.not_eq_true _ ▸ hinst) h
  · have hne : (handlers s v).isEmpty = false := by simpa using hempty
    rw [hne]
    exact ⟨fun h => absurd (fun h' => absurd h' hempty) h, fun _ => rfl⟩

theorem addHandler_eq (h : ¬ Stops s interrupt v) :
    (¬ CanInstall s v → addHandler interrupt device env v s = .ok (.error .alreadyInitialized, s)) ∧
    (CanInstall s v → addHandler interrupt device env v s = if env.heapHasRoom
      then .ok (.ok (handlers s v).isEmpty, link s v ⟨interrupt.serviceRoutine, device⟩)
      else .ok (.error .heapInsufficientResources, install s v)) := by
  simp only [Stops, not_or, not_and] at h
  obtain ⟨hge, hfirst, hex⟩ := h
  obtain ⟨hfails, hinstalls⟩ := installForFirst_eq (BitVec.not_lt.mp hge) hfirst
  have hassert : (handlers s v).isEmpty = true ∨ (!interrupt.exclusive) = true := by
    by_cases hempty : handlers s v = []
    · simp [hempty]
    · simpa using Or.inr (hex hempty)
  unfold addHandler
  rw [assertThat_of (BitVec.not_lt.mp hge), Prog.lift_ok_bind,
    Prog.bind_of_ok (show Prog.get s = .ok (.ok s, s) from rfl)]
  change (¬ CanInstall s v → (Prog.lift (assertThat ((handlers s v).isEmpty = true ∨
      (!interrupt.exclusive) = true)) >>= _) s = _) ∧
    (CanInstall s v → (Prog.lift (assertThat ((handlers s v).isEmpty = true ∨
      (!interrupt.exclusive) = true)) >>= _) s = _)
  rw [assertThat_of hassert, Prog.lift_ok_bind]
  refine ⟨fun h => Prog.bind_of_error (hfails h), fun h => ?_⟩
  refine (Prog.bind_of_ok (hinstalls h)).trans ?_
  by_cases hroom : env.heapHasRoom = true
  · rw [if_pos hroom]
    refine Prog.bind_of_ok (a := ()) ?_
    unfold insertHandler
    rw [if_pos hroom]
    rfl
  · rw [if_neg hroom]
    refine Prog.bind_of_error ?_
    unfold insertHandler
    rw [if_neg hroom]
    rfl

/-- Programming the message of the device works where it is needed. -/
def Programs (env : Surroundings) (interrupt : IoInterrupt) : Prop :=
  ∀ pciDevice, interrupt.type = .pci pciDevice → pciDevice.msiCapable = true →
    env.pciProgrammed = true

theorem Programs.not_failing (h : Programs env interrupt) {pciDevice : PciDevice}
    (htype : interrupt.type = .pci pciDevice) : (pciDevice.msiCapable && !env.pciProgrammed) = false := by
  cases hmsi : pciDevice.msiCapable with
  | false => rfl
  | true => rw [h pciDevice htype hmsi]; rfl

/-- The state `t` is `s` with an entry for the vector written at the pin. -/
def Writes (s : InterruptState) (pin : Pin) (v : BYTE) (t : InterruptState) : Prop :=
  ∃ entry : IoApicRedirTableEntry, entry.vector = v ∧ t = { s with
    redirectionTable := Function.update s.redirectionTable pin entry
    interruptsWritten := Function.update s.interruptsWritten pin true }

variable {sys : IoApicSystem}

theorem ioApicSystemSetInterrupt_eq {irq : BYTE} {pin : Pin}
    (hpin : ioApicSystemGetIoApicForIrq sys irq = some pin) (hfree : s.interruptsWritten pin = false)
    (destinationMode : ApicDestinationMode) (deliveryMode : ApicDeliveryMode)
    (pinPolarity : ApicPinPolarity) (triggerMode : ApicTriggerMode) (destination : BYTE) :
    ∃ t, Writes s pin v t ∧ ioApicSystemSetInterrupt sys irq v destinationMode deliveryMode
      pinPolarity triggerMode destination s = .ok (.ok (), t) := by
  unfold ioApicSystemSetInterrupt
  rw [Prog.bind_of_ok (show Prog.get s = .ok (.ok s, s) from rfl), hpin]
  dsimp only
  rw [hfree, if_neg Bool.false_ne_true]
  exact ⟨_, ⟨_, rfl, rfl⟩, rfl⟩

theorem programInterrupt_fails (h : ¬ Programs env interrupt) (line : Option BYTE) (setup : Bool) :
    programInterrupt sys interrupt env line setup v s = .ok (.error .pciProgramming, s) := by
  simp only [Programs, not_forall] at h
  obtain ⟨pciDevice, htype, hmsi, hnot⟩ := h
  unfold programInterrupt
  rw [htype]
  dsimp only
  rw [hmsi, Bool.eq_false_of_not_eq_true hnot, if_pos (show (true && !false) = true from rfl)]
  rfl

theorem programInterrupt_none (h : Programs env interrupt) {line : Option BYTE} {setup : Bool}
    (hnone : line = none ∨ setup = false) :
    programInterrupt sys interrupt env line setup v s = .ok (.ok (), s) := by
  have hskip : ∀ x : BYTE → Registering Unit, (match line, setup with
      | some line, true => x line
      | _, _ => pure ()) s = .ok (.ok (), s) := by
    intro x
    rcases hnone with rfl | rfl
    · rfl
    · cases line <;> rfl
  unfold programInterrupt
  cases htype : interrupt.type with
  | legacy irq => exact hskip _
  | lapic => exact hskip _
  | pci pciDevice =>
    dsimp only
    rw [h.not_failing htype, if_neg Bool.false_ne_true]
    exact hskip _

theorem programInterrupt_line (h : Programs env interrupt) {line : BYTE} {pin : Pin}
    (hpin : ioApicSystemGetIoApicForIrq sys line = some pin) (hfree : s.interruptsWritten pin = false) :
    ∃ t, Writes s pin v t ∧
      programInterrupt sys interrupt env (some line) true v s = .ok (.ok (), t) := by
  unfold programInterrupt
  cases htype : interrupt.type with
  | legacy irq => exact ioApicSystemSetInterrupt_eq hpin hfree _ _ _ _ _
  | lapic => exact ioApicSystemSetInterrupt_eq hpin hfree _ _ _ _ _
  | pci pciDevice =>
    dsimp only
    rw [h.not_failing htype, if_neg Bool.false_ne_true]
    exact ioApicSystemSetInterrupt_eq hpin hfree _ _ _ _ _

end Handler

/-! ### A whole call -/

section Call

variable {sys : IoApicSystem} {s t : InterruptState} {env : Surroundings} {interrupt : IoInterrupt}
  {device : QWORD} {line : Option BYTE} {registered : Option BYTE} {v : BYTE}

/-- A line that is not configured has a pin without an entry. -/
theorem ioApicSystemGetVectorForIrq_notConfigured {irq : BYTE}
    (h : ioApicSystemGetVectorForIrq sys s irq = .error .deviceInterruptNotConfigured) :
    ∃ pin, ioApicSystemGetIoApicForIrq sys irq = some pin ∧ s.interruptsWritten pin = false := by
  unfold ioApicSystemGetVectorForIrq at h
  cases hpin : ioApicSystemGetIoApicForIrq sys irq with
  | none => simp [hpin] at h
  | some pin =>
    refine ⟨pin, rfl, ?_⟩
    by_contra hwritten
    simp [hpin, hwritten] at h

theorem ioApicSystemGetVectorForIrq_ok {irq : BYTE}
    (h : ioApicSystemGetVectorForIrq sys s irq = .ok v) :
    ∃ pin, ioApicSystemGetIoApicForIrq sys irq = some pin ∧ s.interruptsWritten pin = true ∧
      (s.redirectionTable pin).vector = v := by
  unfold ioApicSystemGetVectorForIrq at h
  cases hpin : ioApicSystemGetIoApicForIrq sys irq with
  | none => simp [hpin] at h
  | some pin =>
    by_cases hwritten : s.interruptsWritten pin = true
    · exact ⟨pin, rfl, hwritten, by simpa [hpin, hwritten] using h⟩
    · simp [hpin, hwritten] at h

theorem registeredVector_none {line : BYTE} {irql : Irql}
    (h : registeredVector sys s (some line) irql = .ok none) :
    ioApicSystemGetVectorForIrq sys s line = .error .deviceInterruptNotConfigured := by
  unfold registeredVector at h
  dsimp only at h
  split at h
  · split_ifs at h
    simp at h
  · assumption
  · cases h

theorem registeredVector_some {irql : Irql} (h : registeredVector sys s line irql = .ok (some v)) :
    ∃ irq, line = some irq ∧ ioApicSystemGetVectorForIrq sys s irq = .ok v ∧
      vectorToIrql v = irql.value := by
  unfold registeredVector at h
  cases line with
  | none => simp at h
  | some irq =>
    dsimp only at h
    split at h
    next w hw =>
      split_ifs at h with hirql
      obtain rfl : w = v := by simpa using h
      exact ⟨irq, rfl, hw, not_not.mp hirql⟩
    · simp at h
    · cases h

/-- What remains once the vector is chosen. -/
def connect (sys : IoApicSystem) (env : Surroundings) (interrupt : IoInterrupt) (device : QWORD)
    (line registered : Option BYTE) (v : BYTE) : Registering BYTE :=
  addHandler interrupt device env v >>= fun bListEmpty =>
    programInterrupt sys interrupt env line (bListEmpty && registered.isNone) v >>= fun _ => pure v

theorem iomuRegisterInterrupt_eq (hline : ioApicLine interrupt.type = .ok line)
    (hreg : registeredVector sys s line interrupt.irql = .ok registered) :
    iomuRegisterInterrupt sys env interrupt device s = (chooseVector interrupt registered >>=
      connect sys env interrupt device line registered) s := by
  unfold iomuRegisterInterrupt
  rw [hline, Prog.lift_ok_bind, Prog.bind_of_ok (show Prog.get s = .ok (.ok s, s) from rfl), hreg]
  rfl

theorem connect_stops (h : Stops s interrupt v) :
    ∃ fault, connect sys env interrupt device line registered v s = .error fault := by
  obtain ⟨fault, hfault⟩ : ∃ fault, addHandler interrupt device env v s = .error fault :=
    addHandler_stops h
  refine ⟨fault, ?_⟩
  unfold connect
  change Prog.bind _ _ s = _
  unfold Prog.bind
  rw [hfault]

theorem connect_notInstalled (h : ¬ Stops s interrupt v) (hinst : ¬ CanInstall s v) :
    connect sys env interrupt device line registered v s = .ok (.error .alreadyInitialized, s) :=
  Prog.bind_of_error ((addHandler_eq h).1 hinst)

theorem connect_noRoom (h : ¬ Stops s interrupt v) (hinst : CanInstall s v)
    (hroom : ¬ env.heapHasRoom = true) :
    connect sys env interrupt device line registered v s =
      .ok (.error .heapInsufficientResources, install s v) := by
  have hadd : addHandler interrupt device env v s = _ := (addHandler_eq h).2 hinst
  rw [if_neg hroom] at hadd
  exact Prog.bind_of_error hadd

theorem connect_linked (h : ¬ Stops s interrupt v) (hinst : CanInstall s v)
    (hroom : env.heapHasRoom = true) :
    connect sys env interrupt device line registered v s =
      (programInterrupt sys interrupt env line ((handlers s v).isEmpty && registered.isNone) v >>=
        fun _ => pure v) (link s v ⟨interrupt.serviceRoutine, device⟩) := by
  have hadd : addHandler interrupt device env v s = _ := (addHandler_eq h).2 hinst
  rw [if_pos hroom] at hadd
  exact Prog.bind_of_ok hadd

end Call

end HAL9000.Interrupts
