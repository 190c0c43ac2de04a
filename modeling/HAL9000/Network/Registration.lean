import HAL9000.Io.AtaChannel
import HAL9000.Io.DmaTransfer
import HAL9000.Io.PciSearch
import Mathlib.Data.Finset.Image
import Mathlib.Data.Nat.SuccPred
import Mathlib.Order.Interval.Finset.Nat
import Mathlib.Algebra.Order.Interval.Finset.SuccPred

/-! The registration of a miniport driver (`network_port.c`, `network_structures.c`). What the setup steps of each
device return is an input. A device object, a worker thread and an interrupt count as resources like the blocks of
the heap; a resource that is released twice, or read after it was released, ends the computation. -/
namespace HAL9000.Network

open Io (STATUS succeeded statusSuccess statusDeviceDoesNotExist statusHeapInsufficientResources)

def statusInvalidFunction : STATUS := 0xE800002B
def statusInvalidBuffer : STATUS := 0xE800002C
def statusInvalidParameter6 : STATUS := 0xE8000016
def statusInvalidParameter8 : STATUS := 0xE8000018
def statusDeviceCouldNotBeCreated : STATUS := 0xE0010007

inductive Queue
  | rx
  | tx
  deriving DecidableEq, Repr

/-- What is allocated or registered; the devices are numbered in the order of the PCI devices. -/
inductive Resource
  | pciDevices
  | driverExtension
  | physicalAddresses (q : Queue)
  | deviceObject (d : ℕ)
  | miniportDevice (d : ℕ)
  | deviceExtension (d : ℕ)
  | bufferArray (q : Queue) (d : ℕ)
  | buffer (q : Queue) (d i : ℕ)
  | ringBuffer (q : Queue) (d : ℕ)
  | transmitWorkerThread (d : ℕ)
  | interrupt (d : ℕ)
  deriving DecidableEq, Repr

/-- The device that a resource is for. -/
def Resource.device : Resource → Option ℕ
  | pciDevices | driverExtension | physicalAddresses _ => none
  | deviceObject d | miniportDevice d | deviceExtension d | bufferArray _ d | buffer _ d _ | ringBuffer _ d
  | transmitWorkerThread d | interrupt d => some d

/-- The device objects, worker threads and interrupts use the extension of the driver. -/
def Resource.usesDriver : Resource → Bool
  | deviceObject _ | transmitWorkerThread _ | interrupt _ => true
  | _ => false

/-- The resources in use. -/
abbrev Live := Finset Resource

def release (r : Resource) (s : Live) : Except Fault Live :=
  if r ∈ s then .ok (s.erase r) else .error .danglingAccess

/-- A pointer that is not NULL is given up. -/
def releaseIf (notNull : Bool) (r : Resource) (s : Live) : Except Fault Live :=
  if notNull then release r s else .ok s

structure MiniportBufferDescription where
  numberOfBuffers : DWORD
  descriptorSize : DWORD
  bufferSize : WORD
  deriving DecidableEq, Repr

/-- Which functions of the miniport are not NULL. -/
structure MiniportFunctions where
  miniportInitializeDevice : Bool
  miniportSendBuffer : Bool
  miniportInterruptHandler : Bool
  miniportChangeDeviceStatus : Bool
  deriving DecidableEq, Repr

structure MiniportRegistration where
  deviceContextSize : DWORD
  buffers : Queue → MiniportBufferDescription
  miniportFunctions : MiniportFunctions

/-- What the allocations of `_NetworkPortInitializeMiniportBuffers` return: NULL or not. -/
structure BufferOutcome where
  array : Bool
  buffer : ℕ → Bool
  ringBuffer : Bool

/-- What the setup steps of a device return. -/
structure DeviceOutcome where
  deviceObject : Bool
  miniportDevice : Bool
  deviceExtension : Bool
  buffers : Queue → BufferOutcome
  miniportInitializeDevice : STATUS
  threadCreate : STATUS
  registerInterrupt : STATUS

/-- What the other steps of the registration return. -/
structure RegistrationOutcome where
  pciDevices : Except STATUS (List DeviceOutcome)
  driverExtension : Bool
  physicalAddresses : Queue → Bool

section Code

variable (registration : MiniportRegistration) (d : ℕ) (o : DeviceOutcome)

def networkPortValidateMiniportFunctions (f : MiniportFunctions) : Bool :=
  f.miniportInitializeDevice && f.miniportSendBuffer && f.miniportInterruptHandler && f.miniportChangeDeviceStatus

def networkPortValidateBufferDescription (b : MiniportBufferDescription) : Bool :=
  b.numberOfBuffers != 0 && b.descriptorSize != 0 && b.bufferSize != 0

/-- The first buffer that cannot be allocated ends the loop. -/
def allocateBuffers (q : Queue) (succeeds : ℕ → Bool) : ℕ → ℕ → Live → ℕ × Live
  | 0, i, s => (i, s)
  | n + 1, i, s =>
    if succeeds i then allocateBuffers q succeeds n (i + 1) (insert (.buffer q d i) s) else (i, s)

/-- The entries of the array behind the allocated ones are NULL. -/
def freeBuffers (q : Queue) (allocated : ℕ) : ℕ → ℕ → Live → Except Fault Live
  | 0, _, s => .ok s
  | n + 1, i, s => do freeBuffers q allocated n (i + 1) (← releaseIf (i < allocated) (.buffer q d i) s)

/-- `_NetworkPortInitializeMiniportBuffers`; the arrays are handed out with a success only. Their size
is exact, where the code has a `DWORD`. -/
def networkPortInitializeMiniportBuffers (description : MiniportBufferDescription) (q : Queue) (o : BufferOutcome)
    (s : Live) : Except Fault (STATUS × Live) :=
  if o.array then
    let n := description.numberOfBuffers.toNat
    let allocation := allocateBuffers d q o.buffer n 0 (insert (.bufferArray q d) s)
    if allocation.1 = n ∧ o.ringBuffer then .ok (statusSuccess, insert (.ringBuffer q d) allocation.2)
    else do
      let s ← freeBuffers d q allocation.1 n 0 allocation.2
      return (statusHeapInsufficientResources, ← release (.bufferArray q d) s)
  else .ok (statusHeapInsufficientResources, s)

/-- The pointers of a `NETWORK_PORT_DEVICE`. -/
structure PortDevice where
  miniport : Bool
  buffers : Queue → Bool

/-- `NetworkPortDeviceInit`. The events are of a valid type, so that their initialisation succeeds. -/
def networkPortDeviceInit (p : PortDevice) (s : Live) : STATUS × PortDevice × Live :=
  if (registration.buffers .rx).numberOfBuffers = 0 then (Io.statusInvalidParameter3, p, s)
  else if (registration.buffers .rx).bufferSize = 0 then (Io.statusInvalidParameter5, p, s)
  else if (registration.buffers .tx).numberOfBuffers = 0 then (statusInvalidParameter6, p, s)
  else if (registration.buffers .tx).bufferSize = 0 then (statusInvalidParameter8, p, s)
  else (o.threadCreate, ⟨true, fun _ => true⟩,
    if succeeded o.threadCreate then insert (.transmitWorkerThread d) s else s)

/-- `NetworkPortDeviceUninit`, with the extension of the miniport device. `MiniportUninitializeDevice` frees what the
miniport itself has allocated. -/
def networkPortDeviceUninit (p : PortDevice) (deviceExtension : Bool) (s : Live) : Except Fault Live := do
  let s ← releaseIf (p.miniport && deviceExtension) (.deviceExtension d) s
  let s ← releaseIf p.miniport (.miniportDevice d) s
  let s ← releaseIf (p.buffers .rx) (.bufferArray .rx d) s
  releaseIf (p.buffers .tx) (.bufferArray .tx d) s

/-- The variables of `_NetworkPortConfigureDevice`: the status, the port device, which is there as soon as the device
object is, and whether the other pointers are not NULL. -/
structure ConfigureVariables where
  status : STATUS
  portDevice : Option PortDevice
  miniportDevice : Bool
  deviceExtension : Bool
  buffers : Queue → Bool

/-- The buffers of an array that is not NULL, and the array. -/
def freeBufferArray (q : Queue) (notNull : Bool) (s : Live) : Except Fault Live :=
  if notNull then
    if .bufferArray q d ∈ s then do
      let n := (registration.buffers q).numberOfBuffers.toNat
      release (.bufferArray q d) (← freeBuffers d q n n 0 s)
    else .error .danglingAccess
  else .ok s

/-- The `__try` block of `_NetworkPortConfigureDevice` from the buffers on. -/
def configureBuffers (s : Live) : Except Fault (ConfigureVariables × Live) := do
  let port : PortDevice := ⟨false, fun _ => false⟩
  let extended := registration.deviceContextSize != 0
  let (status, s) ← networkPortInitializeMiniportBuffers d (registration.buffers .rx) .rx (o.buffers .rx) s
  if !succeeded status then return (⟨status, port, true, extended, fun _ => false⟩, s)
  else
    let (status, s) ← networkPortInitializeMiniportBuffers d (registration.buffers .tx) .tx (o.buffers .tx) s
    if !succeeded status then return (⟨status, port, true, extended, fun q => q = .rx⟩, s)
    else if !succeeded o.miniportInitializeDevice then
      return (⟨o.miniportInitializeDevice, port, true, extended, fun _ => true⟩, s)
    else
      let (status, port, s) := networkPortDeviceInit registration d o port s
      if !succeeded status then return (⟨status, port, true, extended, fun _ => true⟩, s)
      else
        assertThat (succeeded o.registerInterrupt)
        return (⟨o.registerInterrupt, port, true, extended, fun _ => true⟩, insert (.interrupt d) s)

/-- The `__try` block. -/
def configureTry (s : Live) : Except Fault (ConfigureVariables × Live) :=
  if !o.deviceObject then .ok (⟨statusDeviceCouldNotBeCreated, none, false, false, fun _ => false⟩, s)
  else
    let port : PortDevice := ⟨false, fun _ => false⟩
    let s := insert (.deviceObject d) s
    if !o.miniportDevice then .ok (⟨statusHeapInsufficientResources, port, false, false, fun _ => false⟩, s)
    else
      let s := insert (.miniportDevice d) s
      let extended := registration.deviceContextSize != 0
      if extended && !o.deviceExtension then
        .ok (⟨statusHeapInsufficientResources, port, true, false, fun _ => false⟩, s)
      else configureBuffers registration d o (if extended then insert (.deviceExtension d) s else s)

/-- The `__finally` block where the status is an error. The miniport device is read for its extension. -/
def configureFinally (v : ConfigureVariables) (s : Live) : Except Fault Live := do
  let s ← match v.portDevice with
    | none => pure s
    | some p => do release (.deviceObject d) (← networkPortDeviceUninit d p v.deviceExtension s)
  let s ← if v.miniportDevice then
      if .miniportDevice d ∈ s then do
        release (.miniportDevice d) (← releaseIf v.deviceExtension (.deviceExtension d) s)
      else .error .danglingAccess
    else pure s
  let s ← freeBufferArray registration d .rx (v.buffers .rx) s
  freeBufferArray registration d .tx (v.buffers .tx) s

/-- `_NetworkPortConfigureDevice`. -/
def networkPortConfigureDevice (s : Live) : Except Fault (STATUS × Live) := do
  let (v, s) ← configureTry registration d o s
  if succeeded v.status then return (v.status, s)
  else return (v.status, ← configureFinally registration d v s)

/-- The loop over the devices. The devices whose success is logged stand for their number,
`noOfDevicesInitialized`. -/
def configureDevices : List DeviceOutcome → ℕ → List ℕ → Live → Except Fault (List ℕ × Live)
  | [], _, initialized, s => .ok (initialized, s)
  | o :: devices, d, initialized, s => do
    let (status, s) ← networkPortConfigureDevice registration d o s
    configureDevices devices (d + 1) (if succeeded status then initialized ++ [d] else initialized) s

/-- The pointers of `NetworkPortRegisterMiniportDriver` that are not NULL. -/
structure RegisterVariables where
  pciDevices : Bool
  driverExtension : Bool
  physicalAddresses : Queue → Bool

/-- Its `__finally` block. -/
def registerFinally (v : RegisterVariables) (initialized : List ℕ) (s : Live) :
    Except Fault (STATUS × List ℕ × Live) := do
  let s ← releaseIf (v.physicalAddresses .rx) (.physicalAddresses .rx) s
  let s ← releaseIf (v.physicalAddresses .tx) (.physicalAddresses .tx) s
  let s ← releaseIf v.pciDevices .pciDevices s
  let status := if 1 < initialized.length then statusSuccess else statusDeviceDoesNotExist
  let s ← releaseIf (!succeeded status && v.driverExtension) .driverExtension s
  return (status, initialized, s)

/-- Its `__try` block. -/
def registerTry (outcome : RegistrationOutcome) (s : Live) : Except Fault (RegisterVariables × List ℕ × Live) :=
  match outcome.pciDevices with
  | .error _ => .ok (⟨false, false, fun _ => false⟩, [], s)
  | .ok devices => do
    let found := !devices.isEmpty
    let s := if found then insert .pciDevices s else s
    assertThat (.driverExtension ∉ s)
    if !outcome.driverExtension then return (⟨found, false, fun _ => false⟩, [], s)
    else
      let s := insert .driverExtension s
      if !outcome.physicalAddresses .rx then return (⟨found, true, fun _ => false⟩, [], s)
      else
        let s := insert (.physicalAddresses .rx) s
        if !outcome.physicalAddresses .tx then return (⟨found, true, fun q => q = .rx⟩, [], s)
        else
          let (initialized, s) ← configureDevices registration devices 0 [] (insert (.physicalAddresses .tx) s)
          return (⟨found, true, fun _ => true⟩, initialized, s)

/-- The status, the devices that were initialised and the resources that stay. -/
def networkPortRegisterMiniportDriver (outcome : RegistrationOutcome) (s : Live) :
    Except Fault (STATUS × List ℕ × Live) :=
  if !networkPortValidateBufferDescription (registration.buffers .rx) then .ok (statusInvalidBuffer, [], s)
  else if !networkPortValidateBufferDescription (registration.buffers .tx) then .ok (statusInvalidBuffer, [], s)
  else if !networkPortValidateMiniportFunctions registration.miniportFunctions then .ok (statusInvalidFunction, [], s)
  else do
    let (v, initialized, s) ← registerTry registration outcome s
    registerFinally v initialized s

end Code

/-! ### The outcomes -/

/-- All allocations of a queue succeed. -/
def BufferOutcome.Complete (o : BufferOutcome) (n : ℕ) : Prop :=
  o.array = true ∧ (∀ i < n, o.buffer i = true) ∧ o.ringBuffer = true

instance (o : BufferOutcome) (n : ℕ) : Decidable (o.Complete n) := inferInstanceAs (Decidable (_ ∧ _))

/-- The buffers of a queue are allocated. -/
def DeviceOutcome.HasBuffers (registration : MiniportRegistration) (o : DeviceOutcome) (q : Queue) : Prop :=
  (o.buffers q).Complete (registration.buffers q).numberOfBuffers.toNat

instance (registration : MiniportRegistration) (o : DeviceOutcome) (q : Queue) :
    Decidable (o.HasBuffers registration q) := inferInstanceAs (Decidable (BufferOutcome.Complete _ _))

/-- The device object and the miniport device are there, with the extension that the miniport asks for. -/
def DeviceOutcome.HasMiniport (registration : MiniportRegistration) (o : DeviceOutcome) : Prop :=
  o.deviceObject = true ∧ o.miniportDevice = true ∧ (registration.deviceContextSize ≠ 0 → o.deviceExtension = true)

instance (registration : MiniportRegistration) (o : DeviceOutcome) : Decidable (o.HasMiniport registration) :=
  inferInstanceAs (Decidable (_ ∧ _ ∧ (_ → _)))

/-- A step up to the buffers of the receive queue fails. -/
def DeviceOutcome.FailsEarly (registration : MiniportRegistration) (o : DeviceOutcome) : Prop :=
  ¬ (o.HasMiniport registration ∧ o.HasBuffers registration .rx)

instance (registration : MiniportRegistration) (o : DeviceOutcome) : Decidable (o.FailsEarly registration) :=
  inferInstanceAs (Decidable (¬ _))

/-- Every step succeeds. -/
def DeviceOutcome.Succeeds (registration : MiniportRegistration) (o : DeviceOutcome) : Prop :=
  (o.HasMiniport registration ∧ o.HasBuffers registration .rx) ∧ o.HasBuffers registration .tx ∧
    succeeded o.miniportInitializeDevice = true ∧ succeeded o.threadCreate = true ∧ succeeded o.registerInterrupt = true

instance (registration : MiniportRegistration) (o : DeviceOutcome) : Decidable (o.Succeeds registration) :=
  inferInstanceAs (Decidable (_ ∧ _))

/-! ### Single steps -/

section Steps

variable {registration : MiniportRegistration} {d : ℕ} {o : DeviceOutcome} {s : Live} {q : Queue} {r : Resource}

theorem release_of_mem (h : r ∈ s) : release r s = .ok (s.erase r) := if_pos h

theorem release_of_notMem (h : r ∉ s) : release r s = .error .danglingAccess := if_neg h

theorem releaseIf_of_mem {notNull : Bool} (h : notNull = true → r ∈ s) :
    releaseIf notNull r s = .ok (if notNull then s.erase r else s) := by
  unfold releaseIf
  cases notNull with
  | false => rfl
  | true => exact release_of_mem (h rfl)

/-- No resource of the device is in use. -/
def Fresh (d : ℕ) (s : Live) : Prop := ∀ r ∈ s, r.device ≠ some d

theorem Fresh.notMem (h : Fresh d s) (hr : r.device = some d) : r ∉ s := fun hmem => h r hmem hr

/-- Some of the buffers of a queue. -/
def bufferRange (q : Queue) (d i k : ℕ) : Live := (Finset.Ico i k).image (.buffer q d)

theorem mem_bufferRange {i k : ℕ} : r ∈ bufferRange q d i k ↔ ∃ j, i ≤ j ∧ j < k ∧ r = .buffer q d j := by
  unfold bufferRange
  simp only [Finset.mem_image, Finset.mem_Ico, and_assoc, eq_comm]

theorem bufferRange_self (i : ℕ) : bufferRange q d i i = ∅ := by
  unfold bufferRange
  rw [Finset.Ico_self, Finset.image_empty]

theorem bufferRange_succ {i k : ℕ} (h : i < k) :
    bufferRange q d i k = insert (.buffer q d i) (bufferRange q d (i + 1) k) := by
  unfold bufferRange
  rw [← Finset.insert_Ico_add_one_left_eq_Ico h, Finset.image_insert]

theorem allocateBuffers_spec (succeeds : ℕ → Bool) (n i : ℕ) (s : Live) : ∃ k, i ≤ k ∧ k ≤ i + n ∧
    (k = i + n ↔ ∀ j, i ≤ j → j < i + n → succeeds j = true) ∧
    allocateBuffers d q succeeds n i s = (k, s ∪ bufferRange q d i k) := by
  induction n generalizing i s with
  | zero => exact ⟨i, le_rfl, le_rfl, ⟨fun _ j hle hlt => by omega, fun _ => rfl⟩, by
      rw [bufferRange_self, Finset.union_empty]
      rfl⟩
  | succ n ih =>
    unfold allocateBuffers
    by_cases hi : succeeds i = true
    · obtain ⟨k, hle, hk, hall, hrun⟩ := ih (i + 1) (insert (.buffer q d i) s)
      refine ⟨k, by omega, by omega, ?_, ?_⟩
      · rw [show i + (n + 1) = i + 1 + n by omega, hall]
        refine ⟨fun h j hj hlt => ?_, fun h j hj => h j (by omega)⟩
        by_cases heq : j = i
        · rw [heq]
          exact hi
        · exact h j (by omega) hlt
      · rw [if_pos hi, hrun, bufferRange_succ (show i < k by omega), Finset.union_insert, Finset.insert_union]
    · refine ⟨i, le_rfl, by omega, ⟨fun h => by omega, fun h => absurd (h i le_rfl (by omega)) hi⟩, ?_⟩
      rw [if_neg hi, bufferRange_self, Finset.union_empty]

theorem freeBuffers_spec (k n i : ℕ) (s : Live) (h : bufferRange q d i (min k (i + n)) ⊆ s) :
    freeBuffers d q k n i s = .ok (s \ bufferRange q d i (min k (i + n))) := by
  induction n generalizing i s with
  | zero =>
    have hempty : bufferRange q d i (min k (i + 0)) = ∅ := by
      unfold bufferRange
      rw [Finset.Ico_eq_empty (by omega), Finset.image_empty]
    rw [hempty, Finset.sdiff_empty]
    rfl
  | succ n ih =>
    unfold freeBuffers
    by_cases hi : i < k
    · have hrange := @bufferRange_succ d q i (min k (i + (n + 1))) (by omega)
      rw [show min k (i + (n + 1)) = min k (i + 1 + n) by lia] at hrange h ⊢
      rw [hrange] at h ⊢
      have hmem : .buffer q d i ∈ s := h (Finset.mem_insert_self ..)
      have hnot : Resource.buffer q d i ∉ bufferRange q d (i + 1) (min k (i + 1 + n)) := by
        rw [mem_bufferRange]
        rintro ⟨j, hj, -, heq⟩
        cases heq
        omega
      have hrest : bufferRange q d (i + 1) (min k (i + 1 + n)) ⊆ s.erase (.buffer q d i) :=
        Finset.subset_erase.mpr ⟨(Finset.subset_insert ..).trans h, hnot⟩
      rw [releaseIf_of_mem fun _ => hmem]
      refine (ih (i + 1) _ ?_).trans ?_
      · simpa only [hi, decide_true, if_true] using hrest
      · simp only [hi, decide_true, if_true]
        rw [Finset.sdiff_insert, Finset.erase_sdiff_comm]
    · have hempty (j m : ℕ) (hm : m ≤ j) : bufferRange q d j m = ∅ := by
        unfold bufferRange
        rw [Finset.Ico_eq_empty (by omega), Finset.image_empty]
      have hrun := ih (i + 1) s (by rw [hempty _ _ (by lia)]; exact Finset.empty_subset s)
      rw [hempty _ _ (by lia)] at hrun ⊢
      simp only [releaseIf, hi, decide_false, Bool.false_eq_true, if_false]
      exact hrun

/-- What a queue needs. -/
def queueResources (q : Queue) (d n : ℕ) : Live := insert (.bufferArray q d) (bufferRange q d 0 n)

theorem initializeBuffers_complete {description : MiniportBufferDescription} {b : BufferOutcome}
    (h : b.Complete description.numberOfBuffers.toNat) : networkPortInitializeMiniportBuffers d description q b s =
      .ok (statusSuccess, insert (.ringBuffer q d) (s ∪ queueResources q d description.numberOfBuffers.toNat)) := by
  obtain ⟨harray, hbuffers, hring⟩ := h
  obtain ⟨k, -, -, hall, hrun⟩ := @allocateBuffers_spec d q b.buffer description.numberOfBuffers.toNat 0
    (insert (.bufferArray q d) s)
  have hk := hall.mpr fun j _ hj => hbuffers j (by omega)
  rw [Nat.zero_add] at hk
  unfold networkPortInitializeMiniportBuffers queueResources
  rw [if_pos harray]
  dsimp only
  rw [hrun, if_pos ⟨hk, hring⟩, hk, Finset.insert_union, Finset.union_insert]

theorem initializeBuffers_incomplete {description : MiniportBufferDescription} {b : BufferOutcome}
    (h : ¬ b.Complete description.numberOfBuffers.toNat)
    (hfresh : ∀ r ∈ queueResources q d description.numberOfBuffers.toNat, r ∉ s) :
    networkPortInitializeMiniportBuffers d description q b s = .ok (statusHeapInsufficientResources, s) := by
  unfold networkPortInitializeMiniportBuffers
  by_cases harray : b.array = true
  · obtain ⟨k, -, hk, hall, hrun⟩ := @allocateBuffers_spec d q b.buffer description.numberOfBuffers.toNat 0
      (insert (.bufferArray q d) s)
    rw [Nat.zero_add] at hk hall
    have hnot : ¬ (k = description.numberOfBuffers.toNat ∧ b.ringBuffer = true) := fun hboth =>
      h ⟨harray, fun i hi => hall.mp hboth.1 i (Nat.zero_le i) hi, hboth.2⟩
    have hfree := @freeBuffers_spec d q k description.numberOfBuffers.toNat 0
      (insert (.bufferArray q d) s ∪ bufferRange q d 0 k) (by
        rw [Nat.zero_add, Nat.min_eq_left hk]
        exact Finset.subset_union_right)
    rw [Nat.zero_add, Nat.min_eq_left hk] at hfree
    have hrest : (insert (.bufferArray q d) s ∪ bufferRange q d 0 k) \ bufferRange q d 0 k =
        insert (.bufferArray q d) s := by
      refine Finset.union_sdiff_cancel_right (Finset.disjoint_left.mpr fun r hr hrange => ?_)
      obtain ⟨j, -, hj, rfl⟩ := mem_bufferRange.mp hrange
      rcases Finset.mem_insert.mp hr with heq | hmem
      · cases heq
      · exact hfresh _ (Finset.mem_insert_of_mem (mem_bufferRange.mpr ⟨j, Nat.zero_le j, by omega, rfl⟩)) hmem
    rw [if_pos harray]
    dsimp only
    rw [hrun, if_neg hnot]
    dsimp only
    rw [hfree, hrest]
    simp only [bind, Except.bind]
    rw [release_of_mem (Finset.mem_insert_self ..), Finset.erase_insert (hfresh _ (Finset.mem_insert_self ..))]
    rfl
  · rw [if_neg harray]

theorem mem_queueResources {n : ℕ} : r ∈ queueResources q d n ↔ r = .bufferArray q d ∨ ∃ j < n, r = .buffer q d j := by
  unfold queueResources
  rw [Finset.mem_insert, mem_bufferRange]
  simp only [Nat.zero_le, true_and]

theorem device_queueResources {n : ℕ} (h : r ∈ queueResources q d n) : r.device = some d := by
  rcases mem_queueResources.mp h with rfl | ⟨j, -, rfl⟩ <;> rfl

theorem freeBufferArray_spec {notNull : Bool}
    (h : notNull = true → queueResources q d (registration.buffers q).numberOfBuffers.toNat ⊆ s) :
    freeBufferArray registration d q notNull s =
      .ok (s \ if notNull then queueResources q d (registration.buffers q).numberOfBuffers.toNat else ∅) := by
  unfold freeBufferArray
  cases notNull with
  | false =>
    simp only [Bool.false_eq_true, if_false]
    rw [Finset.sdiff_empty]
  | true =>
    have hsub := h rfl
    unfold queueResources at hsub ⊢
    obtain ⟨harray, hbuffers⟩ := Finset.insert_subset_iff.mp hsub
    have hfree := @freeBuffers_spec d q (registration.buffers q).numberOfBuffers.toNat
      (registration.buffers q).numberOfBuffers.toNat 0 s
    rw [Nat.zero_add, Nat.min_self] at hfree
    have hnot : Resource.bufferArray q d ∉ bufferRange q d 0 (registration.buffers q).numberOfBuffers.toNat := by
      rw [mem_bufferRange]
      rintro ⟨j, -, -, heq⟩
      cases heq
    rw [if_pos rfl, if_pos harray, if_pos rfl]
    dsimp only
    rw [hfree hbuffers]
    simp only [bind, Except.bind]
    rw [release_of_mem (Finset.mem_sdiff.mpr ⟨harray, hnot⟩), Finset.sdiff_insert]

/-- What the miniport device of a device needs. -/
def miniportResources (registration : MiniportRegistration) (d : ℕ) : Live :=
  {.deviceObject d, .miniportDevice d} ∪ if registration.deviceContextSize != 0 then {.deviceExtension d} else ∅

theorem mem_miniportResources : r ∈ miniportResources registration d ↔ r = .deviceObject d ∨ r = .miniportDevice d ∨
    (registration.deviceContextSize != 0) = true ∧ r = .deviceExtension d := by
  unfold miniportResources
  rw [Finset.mem_union, Finset.mem_insert, Finset.mem_singleton, or_assoc]
  cases registration.deviceContextSize != 0 <;> simp

/-- What `__finally` gives up again: the miniport device and the queues that are marked. -/
def given (registration : MiniportRegistration) (d : ℕ) (b : Queue → Bool) : Live :=
  miniportResources registration d ∪
    (if b .rx then queueResources .rx d (registration.buffers .rx).numberOfBuffers.toNat else ∅) ∪
    if b .tx then queueResources .tx d (registration.buffers .tx).numberOfBuffers.toNat else ∅

theorem configureFinally_given {status : STATUS} {b : Queue → Bool} (h : given registration d b ⊆ s) :
    configureFinally registration d
      ⟨status, some ⟨false, fun _ => false⟩, true, registration.deviceContextSize != 0, b⟩ s =
        .ok (s \ given registration d b) := by
  unfold given at h
  obtain ⟨hfirst, htx⟩ := Finset.union_subset_iff.mp h
  obtain ⟨hminiport, hrx⟩ := Finset.union_subset_iff.mp hfirst
  have hdevice : .deviceObject d ∈ s := hminiport (mem_miniportResources.mpr (.inl rfl))
  have hmini : .miniportDevice d ∈ s.erase (.deviceObject d) :=
    Finset.mem_erase.mpr ⟨nofun, hminiport (mem_miniportResources.mpr (.inr (.inl rfl)))⟩
  have hextension : (registration.deviceContextSize != 0) = true →
      .deviceExtension d ∈ s.erase (.deviceObject d) := fun hsize =>
    Finset.mem_erase.mpr ⟨nofun, hminiport (mem_miniportResources.mpr (.inr (.inr ⟨hsize, rfl⟩)))⟩
  have hstill : .miniportDevice d ∈ (if (registration.deviceContextSize != 0) = true then
      (s.erase (.deviceObject d)).erase (.deviceExtension d) else s.erase (.deviceObject d)) := by
    by_cases hsize : (registration.deviceContextSize != 0) = true
    · rw [if_pos hsize]
      exact Finset.mem_erase.mpr ⟨nofun, hmini⟩
    · rw [if_neg hsize]
      exact hmini
  have hgone : (if (registration.deviceContextSize != 0) = true then
        (s.erase (.deviceObject d)).erase (.deviceExtension d) else s.erase (.deviceObject d)).erase
          (.miniportDevice d) = s \ miniportResources registration d := by
    ext r
    rw [Finset.mem_sdiff, mem_miniportResources]
    cases registration.deviceContextSize != 0 <;> simp <;> tauto
  have hqueue (q : Queue) (hsub : b q = true →
      queueResources q d (registration.buffers q).numberOfBuffers.toNat ⊆ s) (hq : b q = true) :
      queueResources q d (registration.buffers q).numberOfBuffers.toNat ⊆ s \ miniportResources registration d :=
    fun r hr => by
      refine Finset.mem_sdiff.mpr ⟨hsub hq hr, ?_⟩
      rw [mem_miniportResources]
      rcases mem_queueResources.mp hr with rfl | ⟨j, -, rfl⟩ <;> simp
  have hqueues : ∀ r ∈ queueResources .tx d (registration.buffers .tx).numberOfBuffers.toNat,
      r ∉ queueResources .rx d (registration.buffers .rx).numberOfBuffers.toNat := fun r hr => by
    rw [mem_queueResources]
    rcases mem_queueResources.mp hr with rfl | ⟨j, -, rfl⟩ <;> simp
  have hrun := @freeBufferArray_spec registration d (s \ miniportResources registration d) .rx (b .rx)
    (hqueue .rx fun hq => by rwa [if_pos hq] at hrx)
  have hrun' := @freeBufferArray_spec registration d ((s \ miniportResources registration d) \
      if b .rx then queueResources .rx d (registration.buffers .rx).numberOfBuffers.toNat else ∅) .tx (b .tx) fun hq => by
    refine fun r hr => Finset.mem_sdiff.mpr ⟨hqueue .tx (fun hq => by rwa [if_pos hq] at htx) hq hr, ?_⟩
    cases b .rx with
    | false => exact Finset.notMem_empty r
    | true => exact hqueues r hr
  unfold configureFinally given
  simp only [networkPortDeviceUninit, releaseIf, Bool.false_and, Bool.false_eq_true, if_false, bind, Except.bind, pure,
    Except.pure, if_true]
  rw [release_of_mem hdevice]
  simp only [hmini, if_true]
  have hrelease := releaseIf_of_mem hextension
  unfold releaseIf at hrelease
  rw [hrelease]
  dsimp only
  rw [release_of_mem hstill, hgone]
  dsimp only
  rw [hrun]
  dsimp only
  rw [hrun', sdiff_sdiff_left, sdiff_sdiff_left, ← sup_assoc]
  rfl

/-- What the block gives up was not in use before. -/
theorem Fresh.given_sdiff {b : Queue → Bool} (h : Fresh d s) {t : Live} (ht : Disjoint t (given registration d b)) :
    (s ∪ t ∪ given registration d b) \ given registration d b = s ∪ t := by
  refine Finset.union_sdiff_cancel_right (Finset.disjoint_union_left.mpr ⟨?_, ht⟩)
  refine Finset.disjoint_right.mpr fun r hr => h.notMem ?_
  unfold given at hr
  rw [Finset.mem_union, Finset.mem_union, mem_miniportResources] at hr
  rcases hr with (hr | hr) | hr
  · rcases hr with rfl | rfl | ⟨-, rfl⟩ <;> rfl
  · cases hb : b .rx with
    | false =>
      rw [hb] at hr
      exact absurd hr (Finset.notMem_empty r)
    | true =>
      rw [hb] at hr
      exact device_queueResources hr
  · cases hb : b .tx with
    | false =>
      rw [hb] at hr
      exact absurd hr (Finset.notMem_empty r)
    | true =>
      rw [hb] at hr
      exact device_queueResources hr

/-- The registration is accepted. -/
structure MiniportRegistration.Valid (registration : MiniportRegistration) : Prop where
  buffers : ∀ q, networkPortValidateBufferDescription (registration.buffers q) = true
  functions : networkPortValidateMiniportFunctions registration.miniportFunctions = true

theorem device_miniportResources (h : r ∈ miniportResources registration d) : r.device = some d := by
  rcases mem_miniportResources.mp h with rfl | rfl | ⟨-, rfl⟩ <;> rfl

theorem configureTry_ready (h : o.HasMiniport registration) : configureTry registration d o s =
    configureBuffers registration d o (s ∪ miniportResources registration d) := by
  obtain ⟨hobject, hmini, hextension⟩ := h
  have hstate : (if (registration.deviceContextSize != 0) = true then
      insert (.deviceExtension d) (insert (.miniportDevice d) (insert (.deviceObject d) s))
    else insert (.miniportDevice d) (insert (.deviceObject d) s)) = s ∪ miniportResources registration d := by
    ext r
    rw [Finset.mem_union, mem_miniportResources]
    cases registration.deviceContextSize != 0 <;> simp <;> tauto
  have hnot : ((registration.deviceContextSize != 0) && !o.deviceExtension) = false := by
    cases hsize : registration.deviceContextSize != 0 with
    | false => rfl
    | true =>
      rw [hextension (bne_iff_ne.mp hsize)]
      rfl
  unfold configureTry
  rw [hobject, hmini]
  dsimp only
  rw [hnot, hstate]
  rfl

theorem configureDevice_succeeds {v : ConfigureVariables} {s' : Live}
    (htry : configureTry registration d o s = .ok (v, s')) (hv : succeeded v.status = true) :
    networkPortConfigureDevice registration d o s = .ok (v.status, s') := by
  unfold networkPortConfigureDevice
  rw [htry]
  exact if_pos hv

theorem configureDevice_fails {v : ConfigureVariables} {s' : Live}
    (htry : configureTry registration d o s = .ok (v, s')) (hv : succeeded v.status = false) :
    networkPortConfigureDevice registration d o s =
      (configureFinally registration d v s').map fun s => (v.status, s) := by
  unfold networkPortConfigureDevice
  rw [htry]
  refine (if_neg (Bool.eq_false_iff.mp hv)).trans ?_
  cases configureFinally registration d v s' <;> rfl

/-- The device object is deleted, and the miniport device is freed where it was allocated. -/
theorem not_hasMiniport_spec (hfresh : Fresh d s) (h : ¬ o.HasMiniport registration) :
    ∃ status, succeeded status = false ∧ networkPortConfigureDevice registration d o s = .ok (status, s) := by
  have hobject : .deviceObject d ∉ s := hfresh.notMem rfl
  have hmini : .miniportDevice d ∉ s := hfresh.notMem rfl
  cases hdevice : o.deviceObject with
  | false =>
    have htry : configureTry registration d o s =
        .ok (⟨statusDeviceCouldNotBeCreated, none, false, false, fun _ => false⟩, s) := by
      unfold configureTry
      rw [hdevice]
      rfl
    exact ⟨statusDeviceCouldNotBeCreated, rfl, (configureDevice_fails htry rfl).trans rfl⟩
  | true =>
    refine ⟨statusHeapInsufficientResources, rfl, ?_⟩
    cases hminiport : o.miniportDevice with
    | false =>
      have htry : configureTry registration d o s = .ok (⟨statusHeapInsufficientResources,
          some ⟨false, fun _ => false⟩, false, false, fun _ => false⟩, insert (.deviceObject d) s) := by
        unfold configureTry
        rw [hdevice, hminiport]
        rfl
      rw [configureDevice_fails htry rfl]
      simp only [configureFinally, networkPortDeviceUninit, releaseIf, Bool.false_and, Bool.false_eq_true, if_false,
        bind, Except.bind, pure, Except.pure]
      rw [release_of_mem (Finset.mem_insert_self ..), Finset.erase_insert hobject]
      rfl
    | true =>
      have hextension : ((registration.deviceContextSize != 0) && !o.deviceExtension) = true := by
        by_contra hnot
        refine h ⟨hdevice, hminiport, fun hsize => ?_⟩
        rw [bne_iff_ne.mpr hsize] at hnot
        simpa using hnot
      have htry : configureTry registration d o s = .ok (⟨statusHeapInsufficientResources,
          some ⟨false, fun _ => false⟩, true, false, fun _ => false⟩,
          insert (.miniportDevice d) (insert (.deviceObject d) s)) := by
        unfold configureTry
        rw [hdevice, hminiport]
        dsimp only
        rw [hextension]
        rfl
      have herase : (insert (.miniportDevice d) (insert (.deviceObject d) s)).erase (.deviceObject d) =
          insert (.miniportDevice d) s := by
        rw [Finset.erase_insert_of_ne (show Resource.miniportDevice d ≠ .deviceObject d from nofun),
          Finset.erase_insert hobject]
      rw [configureDevice_fails htry rfl]
      simp only [configureFinally, networkPortDeviceUninit, releaseIf, Bool.false_and, Bool.false_eq_true, if_false,
        bind, Except.bind, pure, Except.pure]
      rw [release_of_mem (Finset.mem_insert_of_mem (Finset.mem_insert_self ..)), herase]
      simp only [Finset.mem_insert_self, if_true]
      rw [release_of_mem (Finset.mem_insert_self ..), Finset.erase_insert hmini]
      rfl

/-- The queues of a device do not share resources with its miniport device. -/
theorem queue_notMem {n : ℕ} (h : r ∈ queueResources q d n) : r ∉ miniportResources registration d := by
  rw [mem_miniportResources]
  rcases mem_queueResources.mp h with rfl | ⟨j, -, rfl⟩ <;> simp

theorem not_receives_spec (hfresh : Fresh d s) (hmini : o.HasMiniport registration)
    (h : ¬ o.HasBuffers registration .rx) : ∃ status, succeeded status = false ∧
      networkPortConfigureDevice registration d o s = .ok (status, s) := by
  have hgiven : given registration d (fun _ => false) = miniportResources registration d := by
    unfold given
    simp
  have htry : configureTry registration d o s = .ok (⟨statusHeapInsufficientResources,
      some ⟨false, fun _ => false⟩, true, registration.deviceContextSize != 0, fun _ => false⟩,
      s ∪ miniportResources registration d) := by
    rw [configureTry_ready hmini]
    unfold configureBuffers
    rw [initializeBuffers_incomplete h fun r hr hmem => ?_]
    · rfl
    · rcases Finset.mem_union.mp hmem with hold | hnew
      · exact hfresh.notMem (device_queueResources hr) hold
      · exact queue_notMem hr hnew
  refine ⟨statusHeapInsufficientResources, rfl, ?_⟩
  rw [configureDevice_fails htry (show succeeded statusHeapInsufficientResources = false from rfl)]
  dsimp only
  rw [← hgiven, configureFinally_given Finset.subset_union_right]
  have hleft := @Fresh.given_sdiff registration d s (fun _ => false) hfresh ∅ (Finset.disjoint_empty_left _)
  rw [Finset.union_empty] at hleft
  rw [hleft]
  rfl

/-- The state behind the buffers of both queues. -/
def withQueues (registration : MiniportRegistration) (d : ℕ) (s : Live) : Live :=
  s ∪ {.ringBuffer .rx d, .ringBuffer .tx d} ∪ given registration d fun _ => true

theorem configureBuffers_received (hrx : o.HasBuffers registration .rx) (htx : ¬ o.HasBuffers registration .tx)
    (hfresh : Fresh d s) : configureBuffers registration d o (s ∪ miniportResources registration d) =
      .ok (⟨statusHeapInsufficientResources, some ⟨false, fun _ => false⟩, true, registration.deviceContextSize != 0,
        fun q => q = .rx⟩, s ∪ {.ringBuffer .rx d} ∪ given registration d fun q => q = .rx) := by
  have hstate : s ∪ {.ringBuffer .rx d} ∪ (given registration d fun q => q = .rx) =
      insert (.ringBuffer .rx d) (s ∪ miniportResources registration d ∪
        queueResources .rx d (registration.buffers .rx).numberOfBuffers.toNat) := by
    unfold given
    ext r
    simp
  unfold configureBuffers
  rw [initializeBuffers_complete hrx]
  simp only [bind, Except.bind, show succeeded statusSuccess = true from rfl, Bool.not_true, Bool.false_eq_true,
    if_false]
  rw [initializeBuffers_incomplete htx fun r hr hmem => ?_]
  · rw [hstate]
    simp only [show succeeded statusHeapInsufficientResources = false from rfl, Bool.not_false, if_true]
    rfl
  · rw [Finset.mem_insert, Finset.mem_union, Finset.mem_union] at hmem
    rcases hmem with hring | (hold | hmini) | hqueue
    · rw [hring, mem_queueResources] at hr
      simp at hr
    · exact hfresh.notMem (device_queueResources hr) hold
    · exact queue_notMem hr hmini
    · rw [mem_queueResources] at hr hqueue
      rcases hr with rfl | ⟨j, -, rfl⟩ <;> simp at hqueue

theorem configureBuffers_both (hrx : o.HasBuffers registration .rx) (htx : o.HasBuffers registration .tx) :
    configureBuffers registration d o (s ∪ miniportResources registration d) =
      if !succeeded o.miniportInitializeDevice then
        .ok (⟨o.miniportInitializeDevice, some ⟨false, fun _ => false⟩, true, registration.deviceContextSize != 0,
          fun _ => true⟩, withQueues registration d s)
      else
        let (status, port, s) :=
          networkPortDeviceInit registration d o ⟨false, fun _ => false⟩ (withQueues registration d s)
        if !succeeded status then
          .ok (⟨status, some port, true, registration.deviceContextSize != 0, fun _ => true⟩, s)
        else do
          assertThat (succeeded o.registerInterrupt)
          return (⟨o.registerInterrupt, some port, true, registration.deviceContextSize != 0, fun _ => true⟩,
            insert (.interrupt d) s) := by
  have hstate : insert (.ringBuffer .tx d) (insert (.ringBuffer .rx d) (s ∪ miniportResources registration d ∪
      queueResources .rx d (registration.buffers .rx).numberOfBuffers.toNat) ∪
        queueResources .tx d (registration.buffers .tx).numberOfBuffers.toNat) = withQueues registration d s := by
    unfold withQueues given
    ext r
    simp
    tauto
  unfold configureBuffers
  rw [initializeBuffers_complete hrx]
  simp only [bind, Except.bind, show succeeded statusSuccess = true from rfl, Bool.not_true, Bool.false_eq_true,
    if_false]
  rw [initializeBuffers_complete htx]
  simp only [show succeeded statusSuccess = true from rfl, Bool.not_true, Bool.false_eq_true, if_false]
  rw [hstate]
  rfl

theorem releaseIf_subset {notNull : Bool} {s' : Live} (h : releaseIf notNull r s = .ok s') : s' ⊆ s := by
  unfold releaseIf release at h
  cases notNull with
  | false => exact (Except.ok.inj h) ▸ Finset.Subset.refl s
  | true =>
    by_cases hmem : r ∈ s
    · rw [if_pos rfl, if_pos hmem] at h
      exact (Except.ok.inj h) ▸ Finset.erase_subset r s
    · rw [if_pos rfl, if_neg hmem] at h
      cases h

/-- A port device that has its miniport device frees it. -/
theorem networkPortDeviceUninit_frees {b : Queue → Bool} {extended : Bool} {s' : Live}
    (h : networkPortDeviceUninit d ⟨true, b⟩ extended s = .ok s') : .miniportDevice d ∉ s' := by
  unfold networkPortDeviceUninit at h
  obtain ⟨s₁, -, h⟩ := bind_eq_ok.mp h
  obtain ⟨s₂, hfree, h⟩ := bind_eq_ok.mp h
  obtain ⟨s₃, hrx, h⟩ := bind_eq_ok.mp h
  have hnot : .miniportDevice d ∉ s₂ := by
    by_cases hmem : .miniportDevice d ∈ s₁
    · rw [releaseIf_of_mem fun _ => hmem, if_pos rfl] at hfree
      rw [← Except.ok.inj hfree]
      exact Finset.notMem_erase _ s₁
    · exact absurd (hfree.symm.trans (release_of_notMem hmem)) nofun
  exact fun hmem => hnot (releaseIf_subset hrx (releaseIf_subset h hmem))

/-- `__finally` reads the miniport device behind `NetworkPortDeviceUninit`, which has freed it. -/
theorem configureFinally_faults {status : STATUS} {extended : Bool} {b b' : Queue → Bool} :
    ∃ fault, configureFinally registration d ⟨status, some ⟨true, b'⟩, true, extended, b⟩ s = .error fault := by
  unfold configureFinally
  cases huninit : networkPortDeviceUninit d ⟨true, b'⟩ extended s with
  | error fault =>
    refine ⟨fault, ?_⟩
    dsimp only
    rw [huninit]
    rfl
  | ok s' =>
    have hnot := networkPortDeviceUninit_frees huninit
    dsimp only
    rw [huninit]
    simp only [bind, Except.bind]
    cases hdelete : release (.deviceObject d) s' with
    | error fault => exact ⟨fault, rfl⟩
    | ok s'' =>
      have hnot' : .miniportDevice d ∉ s'' := fun hmem =>
        hnot (releaseIf_subset (show releaseIf true _ s' = .ok s'' from hdelete) hmem)
      refine ⟨.danglingAccess, ?_⟩
      simp only [hnot', if_true, if_false]

/-- Everything that a device uses when it is configured. -/
def owned (registration : MiniportRegistration) (d : ℕ) : Live :=
  {.ringBuffer .rx d, .ringBuffer .tx d, .transmitWorkerThread d, .interrupt d} ∪ given registration d fun _ => true

theorem networkPortDeviceInit_valid (hvalid : ∀ q, networkPortValidateBufferDescription (registration.buffers q) = true)
    (p : PortDevice) : networkPortDeviceInit registration d o p s = (o.threadCreate, ⟨true, fun _ => true⟩,
      if succeeded o.threadCreate then insert (.transmitWorkerThread d) s else s) := by
  have hrx := hvalid .rx
  have htx := hvalid .tx
  simp only [networkPortValidateBufferDescription, Bool.and_eq_true, bne_iff_ne] at hrx htx
  unfold networkPortDeviceInit
  rw [if_neg hrx.1.1, if_neg hrx.2, if_neg htx.1.1, if_neg htx.2]

theorem ringBuffer_notMem (b : Queue → Bool) : .ringBuffer q d ∉ given registration d b := by
  unfold given
  cases b .rx <;> cases b .tx <;> simp [mem_miniportResources, mem_queueResources]

/-- The device fails and leaves something, or the computation ends. -/
def Spoiled (registration : MiniportRegistration) (d : ℕ) (o : DeviceOutcome) (s : Live) : Prop :=
  (∃ fault, networkPortConfigureDevice registration d o s = .error fault) ∨
    ∃ status left, succeeded status = false ∧ left.Nonempty ∧ (∀ r ∈ left, r.device = some d) ∧
      networkPortConfigureDevice registration d o s = .ok (status, s ∪ left)

/-- The ring buffer of the receive queue is left. -/
theorem not_transmits_spec (hfresh : Fresh d s) (hmini : o.HasMiniport registration)
    (hrx : o.HasBuffers registration .rx) (htx : ¬ o.HasBuffers registration .tx) : Spoiled registration d o s := by
  have htry := (@configureTry_ready registration d o s hmini).trans (configureBuffers_received hrx htx hfresh)
  refine .inr ⟨statusHeapInsufficientResources, {.ringBuffer .rx d}, rfl, Finset.singleton_nonempty _, ?_, ?_⟩
  · intro r hr
    rw [Finset.mem_singleton.mp hr]
    rfl
  · rw [configureDevice_fails htry (show succeeded statusHeapInsufficientResources = false from rfl)]
    dsimp only
    rw [configureFinally_given Finset.subset_union_right,
      hfresh.given_sdiff (Finset.disjoint_singleton_left.mpr (ringBuffer_notMem _))]
    rfl

/-- Both ring buffers are left. -/
theorem not_initialized_spec (hfresh : Fresh d s) (hmini : o.HasMiniport registration)
    (hrx : o.HasBuffers registration .rx) (htx : o.HasBuffers registration .tx)
    (hinit : succeeded o.miniportInitializeDevice = false) : Spoiled registration d o s := by
  have htry := (@configureTry_ready registration d o s hmini).trans (configureBuffers_both hrx htx)
  rw [hinit] at htry
  simp only [Bool.not_false, if_true] at htry
  refine .inr ⟨o.miniportInitializeDevice, {.ringBuffer .rx d, .ringBuffer .tx d}, hinit, Finset.insert_nonempty .., ?_,
    ?_⟩
  · intro r hr
    rcases Finset.mem_insert.mp hr with rfl | hr
    · rfl
    · rw [Finset.mem_singleton.mp hr]
      rfl
  · rw [configureDevice_fails htry hinit]
    unfold withQueues
    rw [configureFinally_given Finset.subset_union_right, hfresh.given_sdiff]
    · rfl
    · rw [Finset.disjoint_insert_left, Finset.disjoint_singleton_left]
      exact ⟨ringBuffer_notMem _, ringBuffer_notMem _⟩

/-- The miniport device is freed by `NetworkPortDeviceUninit` and read by its caller. -/
theorem not_started_spec (hvalid : ∀ q, networkPortValidateBufferDescription (registration.buffers q) = true)
    (hmini : o.HasMiniport registration) (hrx : o.HasBuffers registration .rx) (htx : o.HasBuffers registration .tx)
    (hinit : succeeded o.miniportInitializeDevice = true) (hthread : succeeded o.threadCreate = false) :
    Spoiled registration d o s := by
  have htry := (@configureTry_ready registration d o s hmini).trans (configureBuffers_both hrx htx)
  rw [networkPortDeviceInit_valid hvalid, hinit, hthread] at htry
  simp only [Bool.not_true, Bool.not_false, Bool.false_eq_true, if_true, if_false, hthread] at htry
  obtain ⟨fault, hfault⟩ := @configureFinally_faults registration d (withQueues registration d s) o.threadCreate
    (registration.deviceContextSize != 0) (fun _ => true) fun _ => true
  refine .inl ⟨fault, ?_⟩
  rw [configureDevice_fails htry hthread, hfault]
  rfl

/-- A refused interrupt fails the assertion. -/
theorem not_registered_spec (hvalid : ∀ q, networkPortValidateBufferDescription (registration.buffers q) = true)
    (hmini : o.HasMiniport registration) (hrx : o.HasBuffers registration .rx) (htx : o.HasBuffers registration .tx)
    (hinit : succeeded o.miniportInitializeDevice = true) (hthread : succeeded o.threadCreate = true)
    (hinterrupt : succeeded o.registerInterrupt = false) : Spoiled registration d o s := by
  have htry := (@configureTry_ready registration d o s hmini).trans (configureBuffers_both hrx htx)
  rw [networkPortDeviceInit_valid hvalid, hinit] at htry
  simp only [Bool.not_true, Bool.false_eq_true, if_false, hthread, hinterrupt] at htry
  rw [assertThat_of_not (by simp)] at htry
  refine .inl ⟨.assertFailed, ?_⟩
  unfold networkPortConfigureDevice
  rw [htry]
  rfl

theorem succeeds_spec (hvalid : ∀ q, networkPortValidateBufferDescription (registration.buffers q) = true)
    (h : o.Succeeds registration) :
    networkPortConfigureDevice registration d o s = .ok (o.registerInterrupt, s ∪ owned registration d) := by
  obtain ⟨⟨hmini, hrx⟩, htx, hinit, hthread, hinterrupt⟩ := h
  have htry := (@configureTry_ready registration d o s hmini).trans (configureBuffers_both hrx htx)
  rw [networkPortDeviceInit_valid hvalid, hinit] at htry
  simp only [Bool.not_true, Bool.false_eq_true, if_false, if_true, hthread, hinterrupt] at htry
  rw [assertThat_of trivial] at htry
  have hstate : insert (.interrupt d) (insert (.transmitWorkerThread d) (withQueues registration d s)) =
      s ∪ owned registration d := by
    unfold withQueues owned
    ext r
    simp
    tauto
  rw [configureDevice_succeeds htry hinterrupt, hstate]

/-- What becomes of a device: it is configured; it fails early, and nothing of it is left; or it fails later. -/
theorem configureDevice_cases (hvalid : ∀ q, networkPortValidateBufferDescription (registration.buffers q) = true)
    (hfresh : Fresh d s) :
    (o.Succeeds registration ∧
      networkPortConfigureDevice registration d o s = .ok (o.registerInterrupt, s ∪ owned registration d)) ∨
    (o.FailsEarly registration ∧ ∃ status, succeeded status = false ∧
      networkPortConfigureDevice registration d o s = .ok (status, s)) ∨
    (¬ (o.Succeeds registration ∨ o.FailsEarly registration) ∧ Spoiled registration d o s) := by
  by_cases hmini : o.HasMiniport registration
  swap
  · exact .inr (.inl ⟨fun h => hmini h.1, not_hasMiniport_spec hfresh hmini⟩)
  by_cases hrx : o.HasBuffers registration .rx
  swap
  · exact .inr (.inl ⟨fun h => hrx h.2, not_receives_spec hfresh hmini hrx⟩)
  by_cases hsucceeds : o.Succeeds registration
  · exact .inl ⟨hsucceeds, succeeds_spec hvalid hsucceeds⟩
  refine .inr (.inr ⟨fun h => h.elim hsucceeds fun h => h ⟨hmini, hrx⟩, ?_⟩)
  by_cases htx : o.HasBuffers registration .tx
  swap
  · exact not_transmits_spec hfresh hmini hrx htx
  cases hinit : succeeded o.miniportInitializeDevice with
  | false => exact not_initialized_spec hfresh hmini hrx htx hinit
  | true =>
    cases hthread : succeeded o.threadCreate with
    | false => exact not_started_spec hvalid hmini hrx htx hinit hthread
    | true =>
      cases hinterrupt : succeeded o.registerInterrupt with
      | false => exact not_registered_spec hvalid hmini hrx htx hinit hthread hinterrupt
      | true => exact absurd ⟨⟨hmini, hrx⟩, htx, hinit, hthread, hinterrupt⟩ hsucceeds

end Steps

/-! ### All devices -/

section Devices

variable {registration : MiniportRegistration} {outcome : RegistrationOutcome} {d : ℕ} {s s' : Live} {r : Resource}
  {devices : List DeviceOutcome} {initialized initialized' : List ℕ}

theorem device_owned (h : r ∈ owned registration d) : r.device = some d := by
  unfold owned given at h
  simp only [Finset.mem_union, Finset.mem_insert, Finset.mem_singleton, if_true] at h
  rcases h with (rfl | rfl | rfl | rfl) | (h | h) | h
  · rfl
  · rfl
  · rfl
  · rfl
  · exact device_miniportResources h
  · exact device_queueResources h
  · exact device_queueResources h

theorem interrupt_mem_owned : .interrupt d ∈ owned registration d := by
  unfold owned
  simp

/-- Only devices before this one use resources. -/
def Below (d : ℕ) (s : Live) : Prop := ∀ r ∈ s, ∀ j, r.device = some j → j < d

theorem Below.fresh (h : Below d s) : Fresh d s := fun r hr hd => lt_irrefl d (h r hr d hd)

theorem Below.union (h : Below d s) {left : Live} (hleft : ∀ r ∈ left, r.device = some d) : Below (d + 1) (s ∪ left) := by
  intro r hr j hj
  rcases Finset.mem_union.mp hr with hold | hnew
  · exact Nat.lt_succ_of_lt (h r hold j hj)
  · rw [hleft r hnew] at hj
    cases hj
    exact Nat.lt_succ_self d

/-- A device that returns leaves what was in use before. -/
theorem configureDevice_ok {o : DeviceOutcome} {status : STATUS}
    (hvalid : ∀ q, networkPortValidateBufferDescription (registration.buffers q) = true) (hfresh : Fresh d s)
    (h : networkPortConfigureDevice registration d o s = .ok (status, s')) :
    ∃ left, s' = s ∪ left ∧ (∀ r ∈ left, r.device = some d) ∧
      ((succeeded status = true ∧ o.Succeeds registration ∧ .interrupt d ∈ left) ∨
        (succeeded status = false ∧ ¬ o.Succeeds registration)) := by
  rcases configureDevice_cases (o := o) hvalid hfresh with ⟨hsucceeds, hrun⟩ | ⟨hearly, status', hfails, hrun⟩ |
    ⟨hlate, ⟨fault, hrun⟩ | ⟨status', left, hfails, -, hleft, hrun⟩⟩
  · cases hrun.symm.trans h
    exact ⟨_, rfl, fun r hr => device_owned hr, .inl ⟨hsucceeds.2.2.2.2, hsucceeds, interrupt_mem_owned⟩⟩
  · cases hrun.symm.trans h
    exact ⟨∅, (Finset.union_empty s).symm, fun r hr => absurd hr (Finset.notMem_empty r),
      .inr ⟨hfails, fun hsucceeds => hearly hsucceeds.1⟩⟩
  · cases hrun.symm.trans h
  · cases hrun.symm.trans h
    exact ⟨left, rfl, hleft, .inr ⟨hfails, fun hsucceeds => hlate (.inl hsucceeds)⟩⟩

/-- The loop keeps what is in use, and registers an interrupt for every device that it counts. -/
theorem configureDevices_ok (hvalid : ∀ q, networkPortValidateBufferDescription (registration.buffers q) = true)
    (hbelow : Below d s)
    (h : configureDevices registration devices d initialized s = .ok (initialized', s')) : s ⊆ s' ∧
      ∃ new, initialized' = initialized ++ new ∧ (∀ j ∈ new, d ≤ j) ∧
        new.length = devices.countP fun o => o.Succeeds registration := by
  induction devices generalizing d initialized s with
  | nil =>
    cases h
    exact ⟨Finset.Subset.refl _, [], (List.append_nil _).symm, fun j hj => absurd hj List.not_mem_nil, rfl⟩
  | cons o devices ih =>
    obtain ⟨⟨status, s₁⟩, hdevice, hrest⟩ := bind_eq_ok.mp h
    obtain ⟨left, rfl, hleft, hstatus⟩ := configureDevice_ok hvalid hbelow.fresh hdevice
    obtain ⟨hsub, new, hnew, hle, hcount⟩ := ih (hbelow.union hleft) hrest
    refine ⟨Finset.subset_union_left.trans hsub, ?_⟩
    rcases hstatus with ⟨hok, hsucceeds, -⟩ | ⟨hfails, hnot⟩
    · refine ⟨d :: new, ?_, fun j hj => ?_, ?_⟩
      · rw [hnew, if_pos hok, List.append_assoc, List.singleton_append]
      · rcases List.mem_cons.mp hj with rfl | hj
        · exact le_rfl
        · exact (Nat.le_succ d).trans (hle j hj)
      · rw [List.countP_cons_of_pos (by simpa using hsucceeds), List.length_cons, hcount]
    · refine ⟨new, ?_, fun j hj => (Nat.le_succ d).trans (hle j hj), ?_⟩
      · rw [hnew, if_neg (by rw [hfails]; exact Bool.false_ne_true)]
      · rw [List.countP_cons_of_neg (by simpa using hnot), hcount]

/-- Every device is configured, or fails before something can be left of it. -/
theorem configureDevices_clean (hvalid : ∀ q, networkPortValidateBufferDescription (registration.buffers q) = true)
    (hbelow : Below d s)
    (hclean : ∀ o ∈ devices, o.Succeeds registration ∨ o.FailsEarly registration) :
    ∃ new s', configureDevices registration devices d initialized s = .ok (initialized ++ new, s') ∧
      ∀ r ∈ s', r ∈ s ∨ ∃ j ∈ new, r.device = some j := by
  induction devices generalizing d initialized s with
  | nil => exact ⟨[], s, by rw [List.append_nil]; rfl, fun r hr => .inl hr⟩
  | cons o devices ih =>
    have hrest : ∀ o ∈ devices, o.Succeeds registration ∨ o.FailsEarly registration := fun o ho =>
      hclean o (List.mem_cons_of_mem _ ho)
    unfold configureDevices
    rcases configureDevice_cases (o := o) hvalid hbelow.fresh with ⟨hsucceeds, hrun⟩ | ⟨-, status, hfails, hrun⟩ |
      ⟨hlate, -⟩
    · obtain ⟨new, s', hloop, hin⟩ := @ih (d + 1) (s ∪ owned registration d) (initialized ++ [d])
        (hbelow.union fun r hr => device_owned hr) hrest
      refine ⟨d :: new, s', ?_, fun r hr => ?_⟩
      · rw [hrun]
        simp only [bind, Except.bind, hsucceeds.2.2.2.2, if_true]
        rw [hloop, List.append_assoc, List.singleton_append]
      · rcases hin r hr with hmem | ⟨j, hj, hdevice⟩
        · rcases Finset.mem_union.mp hmem with hold | hnew
          · exact .inl hold
          · exact .inr ⟨d, List.mem_cons_self, device_owned hnew⟩
        · exact .inr ⟨j, List.mem_cons_of_mem d hj, hdevice⟩
    · obtain ⟨new, s', hloop, hin⟩ := @ih (d + 1) s initialized
        (fun r hr j hj => Nat.lt_succ_of_lt (hbelow r hr j hj)) hrest
      refine ⟨new, s', ?_, hin⟩
      rw [hrun]
      simp only [bind, Except.bind, hfails, Bool.false_eq_true, if_false]
      exact hloop
    · exact absurd (hclean o List.mem_cons_self) hlate

/-- A device that fails late leaves something for the whole run. -/
theorem configureDevices_spoiled (hvalid : ∀ q, networkPortValidateBufferDescription (registration.buffers q) = true)
    (hbelow : Below d s) (hcounted : ∀ j ∈ initialized, j < d) {o : DeviceOutcome} (ho : o ∈ devices)
    (hlate : ¬ (o.Succeeds registration ∨ o.FailsEarly registration))
    (h : configureDevices registration devices d initialized s = .ok (initialized', s')) :
    ∃ r ∈ s', ∃ j, r.device = some j ∧ j ∉ initialized' := by
  induction devices generalizing d initialized s with
  | nil => exact absurd ho List.not_mem_nil
  | cons o' devices ih =>
    obtain ⟨⟨status, s₁⟩, hdevice, hrest⟩ := bind_eq_ok.mp h
    obtain ⟨left, rfl, hleft, hstatus⟩ := configureDevice_ok hvalid hbelow.fresh hdevice
    have hcounted' : ∀ j ∈ (if succeeded status then initialized ++ [d] else initialized), j < d + 1 := by
      intro j hj
      by_cases hok : succeeded status = true
      · rw [if_pos hok] at hj
        rcases List.mem_append.mp hj with hold | hnew
        · exact Nat.lt_succ_of_lt (hcounted j hold)
        · rw [List.mem_singleton.mp hnew]
          exact Nat.lt_succ_self d
      · rw [if_neg hok] at hj
        exact Nat.lt_succ_of_lt (hcounted j hj)
    rcases List.mem_cons.mp ho with rfl | ho
    · rcases configureDevice_cases (o := o) hvalid hbelow.fresh with ⟨hsucceeds, -⟩ | ⟨hearly, -⟩ |
        ⟨-, ⟨fault, hrun⟩ | ⟨status', left', hfails, ⟨r, hr⟩, hleft', hrun⟩⟩
      · exact absurd (.inl hsucceeds) hlate
      · exact absurd (.inr hearly) hlate
      · cases hrun.symm.trans hdevice
      · rw [hdevice] at hrun
        obtain ⟨rfl, hstate⟩ := Prod.mk.inj (Except.ok.inj hrun)
        obtain ⟨hsub, new, rfl, hle, -⟩ := configureDevices_ok hvalid (hbelow.union hleft) hrest
        refine ⟨r, hsub (hstate ▸ Finset.mem_union_right s hr), d, hleft' r hr, fun hmem => ?_⟩
        rw [if_neg (by rw [hfails]; exact Bool.false_ne_true)] at hmem
        rcases List.mem_append.mp hmem with hold | hnew
        · exact lt_irrefl d (hcounted d hold)
        · exact absurd (hle d hnew) (Nat.not_succ_le_self d)
    · exact ih (hbelow.union hleft) hcounted' ho hrest

/-! ### The registration -/

/-- Success exactly if a device was configured; nothing is left of the others, or freed twice; and nothing that uses
the extension of the driver is left with a failure. -/
def RegistersCleanly (registration : MiniportRegistration) (outcome : RegistrationOutcome) : Prop :=
  ∃ status initialized s, networkPortRegisterMiniportDriver registration outcome ∅ = .ok (status, initialized, s) ∧
    (succeeded status = true ↔ initialized ≠ []) ∧
    (∀ r ∈ s, ∀ d, r.device = some d → d ∈ initialized) ∧
    (succeeded status = false → ∀ r ∈ s, r.usesDriver = false)

/-- The registration is accepted, and the allocations before the loop succeed. -/
structure Reaches (registration : MiniportRegistration) (outcome : RegistrationOutcome)
    (devices : List DeviceOutcome) : Prop where
  buffers : ∀ q, networkPortValidateBufferDescription (registration.buffers q) = true
  functions : networkPortValidateMiniportFunctions registration.miniportFunctions = true
  pciDevices : outcome.pciDevices = .ok devices
  driverExtension : outcome.driverExtension = true
  physicalAddresses : ∀ q, outcome.physicalAddresses q = true

theorem device_of_usesDriver (h : r.usesDriver = true) : ∃ d, r.device = some d := by
  cases r <;> first | exact ⟨_, rfl⟩ | cases h

/-- The pointers that are not NULL. -/
structure RegisterVariables.Holds (v : RegisterVariables) (s : Live) : Prop where
  pciDevices : v.pciDevices = true → .pciDevices ∈ s
  driverExtension : v.driverExtension = true → .driverExtension ∈ s
  physicalAddresses : ∀ q, v.physicalAddresses q = true → .physicalAddresses q ∈ s

theorem releaseIf_other {notNull : Bool} {r' : Resource} (h : releaseIf notNull r s = .ok s') (hr : r' ∈ s)
    (hne : r' ≠ r) : r' ∈ s' := by
  unfold releaseIf release at h
  cases notNull with
  | false => exact (Except.ok.inj h) ▸ hr
  | true =>
    by_cases hmem : r ∈ s
    · rw [if_pos rfl, if_pos hmem] at h
      exact (Except.ok.inj h) ▸ Finset.mem_erase.mpr ⟨hne, hr⟩
    · rw [if_pos rfl, if_neg hmem] at h
      cases h

theorem releaseIf_returns {notNull : Bool} (h : notNull = true → r ∈ s) : ∃ s', releaseIf notNull r s = .ok s' :=
  ⟨_, releaseIf_of_mem h⟩

theorem registerFinally_spec {v : RegisterVariables} (hv : v.Holds s) (initialized : List ℕ) :
    ∃ s', registerFinally v initialized s =
        .ok (if 1 < initialized.length then statusSuccess else statusDeviceDoesNotExist, initialized, s') ∧
      s' ⊆ s ∧ ∀ r ∈ s, ∀ d, r.device = some d → r ∈ s' := by
  obtain ⟨s₁, h₁⟩ := releaseIf_returns (hv.physicalAddresses .rx)
  obtain ⟨s₂, h₂⟩ := releaseIf_returns fun hq => releaseIf_other h₁ (hv.physicalAddresses .tx hq) nofun
  obtain ⟨s₃, h₃⟩ := releaseIf_returns fun hp =>
    releaseIf_other h₂ (releaseIf_other h₁ (hv.pciDevices hp) nofun) nofun
  obtain ⟨s₄, h₄⟩ := @releaseIf_returns s₃ .driverExtension
    (!succeeded (if 1 < initialized.length then statusSuccess else statusDeviceDoesNotExist) && v.driverExtension)
    fun hboth => releaseIf_other h₃ (releaseIf_other h₂ (releaseIf_other h₁
      (hv.driverExtension (Bool.and_eq_true_iff.mp hboth).2) nofun) nofun) nofun
  refine ⟨s₄, ?_, ?_, fun r hr d hd => ?_⟩
  · unfold registerFinally
    rw [h₁]
    simp only [bind, Except.bind]
    rw [h₂]
    dsimp only
    rw [h₃]
    dsimp only
    rw [h₄]
    rfl
  · exact (releaseIf_subset h₄).trans ((releaseIf_subset h₃).trans ((releaseIf_subset h₂).trans (releaseIf_subset h₁)))
  · have hne (r' : Resource) (hr' : r'.device = none) : r ≠ r' := by
      rintro rfl
      rw [hr'] at hd
      cases hd
    exact releaseIf_other h₄ (releaseIf_other h₃ (releaseIf_other h₂ (releaseIf_other h₁ hr (hne _ rfl)) (hne _ rfl))
      (hne _ rfl)) (hne _ rfl)

/-- What is in use when the devices have been found. -/
def foundDevices (devices : List DeviceOutcome) : Live := if !devices.isEmpty then insert .pciDevices ∅ else ∅

theorem mem_foundDevices : r ∈ foundDevices devices ↔ (!devices.isEmpty) = true ∧ r = .pciDevices := by
  unfold foundDevices
  cases devices.isEmpty <;> simp

/-- What is in use before the loop. -/
def beforeLoop (devices : List DeviceOutcome) : Live :=
  insert (.physicalAddresses .tx) (insert (.physicalAddresses .rx) (insert .driverExtension (foundDevices devices)))

theorem device_beforeLoop (h : r ∈ beforeLoop devices) : r.device = none := by
  unfold beforeLoop at h
  simp only [Finset.mem_insert, mem_foundDevices] at h
  rcases h with rfl | rfl | rfl | ⟨-, rfl⟩ <;> rfl

theorem registerTry_found (hpci : outcome.pciDevices = .ok devices) : registerTry registration outcome ∅ =
    if !outcome.driverExtension then .ok (⟨!devices.isEmpty, false, fun _ => false⟩, [], foundDevices devices)
    else if !outcome.physicalAddresses .rx then
      .ok (⟨!devices.isEmpty, true, fun _ => false⟩, [], insert .driverExtension (foundDevices devices))
    else if !outcome.physicalAddresses .tx then .ok (⟨!devices.isEmpty, true, fun q => q = .rx⟩, [],
      insert (.physicalAddresses .rx) (insert .driverExtension (foundDevices devices)))
    else (configureDevices registration devices 0 [] (beforeLoop devices)).map
      fun x => (⟨!devices.isEmpty, true, fun _ => true⟩, x.1, x.2) := by
  have hnot : .driverExtension ∉ foundDevices devices := by
    rw [mem_foundDevices]
    exact nofun
  unfold registerTry
  rw [hpci]
  change (assertThat (.driverExtension ∉ foundDevices devices) >>= fun _ => _) = _
  rw [assertThat_of hnot]
  refine if_congr Iff.rfl rfl (if_congr Iff.rfl rfl (if_congr Iff.rfl rfl ?_))
  change (configureDevices registration devices 0 [] (beforeLoop devices) >>= fun _ => _) = _
  cases configureDevices registration devices 0 [] (beforeLoop devices) <;> rfl

/-- Where the loop is not reached, nothing is left of any device. -/
theorem registerTry_stops (h : ∀ devices, ¬ Reaches registration outcome devices)
    (hbuffers : ∀ q, networkPortValidateBufferDescription (registration.buffers q) = true)
    (hfunctions : networkPortValidateMiniportFunctions registration.miniportFunctions = true) :
    ∃ v s, registerTry registration outcome ∅ = .ok (v, [], s) ∧ v.Holds s ∧ ∀ r ∈ s, r.device = none := by
  cases hpci : outcome.pciDevices with
  | error status =>
    refine ⟨⟨false, false, fun _ => false⟩, ∅, ?_, ⟨nofun, nofun, nofun⟩, fun r hr => absurd hr (Finset.notMem_empty r)⟩
    unfold registerTry
    rw [hpci]
  | ok devices =>
    have hfound (hp : (!devices.isEmpty) = true) : .pciDevices ∈ foundDevices devices := mem_foundDevices.mpr ⟨hp, rfl⟩
    rw [registerTry_found hpci]
    cases hextension : outcome.driverExtension with
    | false =>
      refine ⟨_, _, rfl, ⟨hfound, nofun, nofun⟩, fun r hr => ?_⟩
      rw [(mem_foundDevices.mp hr).2]
      rfl
    | true =>
      cases hrx : outcome.physicalAddresses .rx with
      | false =>
        refine ⟨_, _, rfl, ⟨fun hp => Finset.mem_insert_of_mem (hfound hp), fun _ => Finset.mem_insert_self .., nofun⟩,
          fun r hr => ?_⟩
        rcases Finset.mem_insert.mp hr with rfl | hr
        · rfl
        · rw [(mem_foundDevices.mp hr).2]
          rfl
      | true =>
        cases htx : outcome.physicalAddresses .tx with
        | false =>
          refine ⟨_, _, rfl, ⟨fun hp => Finset.mem_insert_of_mem (Finset.mem_insert_of_mem (hfound hp)),
            fun _ => Finset.mem_insert_of_mem (Finset.mem_insert_self ..), fun q hq => ?_⟩, fun r hr => ?_⟩
          · rw [of_decide_eq_true hq]
            exact Finset.mem_insert_self ..
          · exact device_beforeLoop (Finset.mem_insert_of_mem hr)
        | true =>
          refine absurd ⟨hbuffers, hfunctions, hpci, hextension, fun q => ?_⟩ (h devices)
          cases q with
          | rx => exact hrx
          | tx => exact htx

theorem networkPortRegisterMiniportDriver_valid
    (hbuffers : ∀ q, networkPortValidateBufferDescription (registration.buffers q) = true)
    (hfunctions : networkPortValidateMiniportFunctions registration.miniportFunctions = true) :
    networkPortRegisterMiniportDriver registration outcome s =
      registerTry registration outcome s >>= fun x => registerFinally x.1 x.2.1 x.2.2 := by
  unfold networkPortRegisterMiniportDriver
  rw [hbuffers .rx, hbuffers .tx, hfunctions]
  rfl

theorem registersCleanly_of_nothing {status : STATUS} (hfails : succeeded status = false)
    (hrun : networkPortRegisterMiniportDriver registration outcome ∅ = .ok (status, [], s))
    (hnone : ∀ r ∈ s, r.device = none) : RegistersCleanly registration outcome := by
  refine ⟨status, [], s, hrun, by simp [hfails], fun r hr d hd => ?_, fun _ r hr => ?_⟩
  · rw [hnone r hr] at hd
    cases hd
  · by_contra huses
    rw [Bool.not_eq_false] at huses
    obtain ⟨d, hd⟩ := device_of_usesDriver huses
    rw [hnone r hr] at hd
    cases hd

theorem registersCleanly_of_stops (h : ∀ devices, ¬ Reaches registration outcome devices) :
    RegistersCleanly registration outcome := by
  have hempty : ∀ r ∈ (∅ : Live), r.device = none := fun r hr => absurd hr (Finset.notMem_empty r)
  by_cases hrx : networkPortValidateBufferDescription (registration.buffers .rx) = true
  swap
  · refine registersCleanly_of_nothing (show succeeded statusInvalidBuffer = false from rfl) (if_pos ?_) hempty
    rw [Bool.not_eq_true _ |>.mp hrx]
    rfl
  by_cases htx : networkPortValidateBufferDescription (registration.buffers .tx) = true
  swap
  · refine registersCleanly_of_nothing (show succeeded statusInvalidBuffer = false from rfl) ?_ hempty
    unfold networkPortRegisterMiniportDriver
    rw [hrx, Bool.not_eq_true _ |>.mp htx]
    rfl
  by_cases hfunctions : networkPortValidateMiniportFunctions registration.miniportFunctions = true
  swap
  · refine registersCleanly_of_nothing (show succeeded statusInvalidFunction = false from rfl) ?_ hempty
    unfold networkPortRegisterMiniportDriver
    rw [hrx, htx, Bool.not_eq_true _ |>.mp hfunctions]
    rfl
  have hbuffers : ∀ q, networkPortValidateBufferDescription (registration.buffers q) = true := fun q => by
    cases q with
    | rx => exact hrx
    | tx => exact htx
  obtain ⟨v, s, htry, hv, hnone⟩ := registerTry_stops h hbuffers hfunctions
  obtain ⟨s', hfinally, hsub, -⟩ := registerFinally_spec hv []
  refine registersCleanly_of_nothing (show succeeded statusDeviceDoesNotExist = false from rfl) ?_ fun r hr =>
    hnone r (hsub hr)
  rw [networkPortRegisterMiniportDriver_valid hbuffers hfunctions, htry]
  exact hfinally

/-- Where the loop is reached, its devices decide. -/
theorem networkPortRegisterMiniportDriver_reaches (h : Reaches registration outcome devices) :
    networkPortRegisterMiniportDriver registration outcome ∅ =
      configureDevices registration devices 0 [] (beforeLoop devices) >>= fun x =>
        registerFinally ⟨!devices.isEmpty, true, fun _ => true⟩ x.1 x.2 := by
  rw [networkPortRegisterMiniportDriver_valid h.buffers h.functions, registerTry_found h.pciDevices,
    h.driverExtension, h.physicalAddresses .rx, h.physicalAddresses .tx]
  simp only [Bool.not_true, Bool.false_eq_true, if_false]
  cases configureDevices registration devices 0 [] (beforeLoop devices) <;> rfl

theorem beforeLoop_holds (hsub : beforeLoop devices ⊆ s) :
    RegisterVariables.Holds ⟨!devices.isEmpty, true, fun _ => true⟩ s := by
  unfold beforeLoop at hsub
  refine ⟨fun hp => hsub ?_, fun _ => hsub ?_, fun q _ => hsub ?_⟩
  · simp only [Finset.mem_insert, mem_foundDevices]
    exact .inr (.inr (.inr ⟨hp, trivial⟩))
  · simp
  · cases q <;> simp

theorem below_beforeLoop : Below 0 (beforeLoop devices) := fun r hr j hj => by
  rw [device_beforeLoop hr] at hj
  cases hj

/-- The registration is clean exactly if every device that is reached is configured or fails before the buffers of its
receive queue are there, and not exactly one device is configured. -/
theorem registersCleanly_iff (registration : MiniportRegistration) (outcome : RegistrationOutcome) :
    RegistersCleanly registration outcome ↔ ∀ devices, Reaches registration outcome devices →
      (∀ o ∈ devices, o.Succeeds registration ∨ o.FailsEarly registration) ∧
        (devices.countP fun o => o.Succeeds registration) ≠ 1 := by
  constructor
  · rintro ⟨status, initialized, s, hrun, hverdict, hleft, -⟩ devices hreaches
    rw [networkPortRegisterMiniportDriver_reaches hreaches] at hrun
    obtain ⟨⟨initialized', s'⟩, hloop, hfinally⟩ := bind_eq_ok.mp hrun
    obtain ⟨hsub, new, hnew, -, hcount⟩ := configureDevices_ok hreaches.buffers below_beforeLoop hloop
    obtain ⟨s'', hfinally', -, hkept⟩ := registerFinally_spec (beforeLoop_holds hsub) initialized'
    cases hfinally'.symm.trans hfinally
    refine ⟨fun o ho => ?_, fun hone => ?_⟩
    · by_contra hlate
      obtain ⟨r, hr, j, hj, hnot⟩ := configureDevices_spoiled hreaches.buffers below_beforeLoop
        (fun j hj => absurd hj List.not_mem_nil) ho hlate hloop
      exact hnot (hleft r (hkept r hr j hj) j hj)
    · rw [List.nil_append] at hnew
      have hlength : initialized.length = 1 := by rw [hnew, hcount, hone]
      rw [hlength, if_neg (lt_irrefl 1)] at hverdict
      refine absurd (hverdict.mpr fun hnil => ?_) (by decide)
      rw [hnil] at hlength
      cases hlength
  · intro h
    by_cases hreaches : ∃ devices, Reaches registration outcome devices
    swap
    · exact registersCleanly_of_stops fun devices hdevices => hreaches ⟨devices, hdevices⟩
    obtain ⟨devices, hreaches⟩ := hreaches
    obtain ⟨hclean, hcount⟩ := h devices hreaches
    obtain ⟨new, s', hloop, hin⟩ := @configureDevices_clean registration 0 (beforeLoop devices) devices []
      hreaches.buffers below_beforeLoop hclean
    rw [List.nil_append] at hloop
    obtain ⟨hsub, new', hnew, -, hlength⟩ := configureDevices_ok hreaches.buffers below_beforeLoop hloop
    obtain ⟨s'', hfinally, hsub', -⟩ := registerFinally_spec (beforeLoop_holds hsub) new
    rw [List.nil_append] at hnew
    rw [← hnew] at hlength
    have hdevice : ∀ r ∈ s'', ∀ d, r.device = some d → d ∈ new := fun r hr d hd => by
      rcases hin r (hsub' hr) with hbefore | ⟨j, hj, hj'⟩
      · rw [device_beforeLoop hbefore] at hd
        cases hd
      · rw [hj'] at hd
        cases hd
        exact hj
    refine ⟨if 1 < new.length then statusSuccess else statusDeviceDoesNotExist, new, s'', ?_, ?_, hdevice,
      fun hfails r hr => ?_⟩
    · rw [networkPortRegisterMiniportDriver_reaches hreaches, hloop]
      exact hfinally
    · by_cases hmany : 1 < new.length
      · rw [if_pos hmany]
        exact ⟨fun _ => List.ne_nil_of_length_pos (by omega), fun _ => rfl⟩
      · rw [if_neg hmany]
        have hnil : new = [] := List.eq_nil_of_length_eq_zero (by omega)
        exact ⟨fun hok => absurd hok (by decide), fun hne => absurd hnil hne⟩
    · by_contra huses
      rw [Bool.not_eq_false] at huses
      obtain ⟨d, hd⟩ := device_of_usesDriver huses
      have hmem := hdevice r hr d hd
      have hmany : ¬ 1 < new.length := fun hmany => by
        rw [if_pos hmany] at hfails
        exact absurd hfails (by decide)
      have hpos := List.length_pos_of_mem hmem
      omega

/-- A registration with one buffer a queue, one device of which all steps succeed. -/
def plainRegistration : MiniportRegistration where
  deviceContextSize := 0x40
  buffers := fun _ => ⟨1, 16, 2048⟩
  miniportFunctions := ⟨true, true, true, true⟩

def plainDevice : DeviceOutcome where
  deviceObject := true
  miniportDevice := true
  deviceExtension := true
  buffers := fun _ => ⟨true, fun _ => true, true⟩
  miniportInitializeDevice := 0
  threadCreate := 0
  registerInterrupt := 0

/-- The only device is configured, and the registration returns an error and frees the extension of the driver. -/
theorem not_registersCleanly :
    ¬ RegistersCleanly plainRegistration ⟨.ok [plainDevice], true, fun _ => true⟩ := by
  rintro ⟨status, initialized, s, hrun, hverdict, -, -⟩
  have hresult : (networkPortRegisterMiniportDriver plainRegistration ⟨.ok [plainDevice], true, fun _ => true⟩ ∅).map
      (fun x => (x.1, x.2.1)) = .ok (statusDeviceDoesNotExist, [0]) := by decide
  rw [hrun] at hresult
  cases hresult
  exact absurd (hverdict.mpr (by decide)) (by decide)

end Devices

end HAL9000.Network
