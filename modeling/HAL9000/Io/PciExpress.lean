import HAL9000.Io.InterruptOverrides
import HAL9000.Io.PciCapabilities

/-! Configuration accesses of PCI Express through the mapped window (`pcie.c`, `pci_system.c`). As many
megabytes are mapped as there are buses, but addresses are formed from the number of the bus. -/
namespace HAL9000.Io

open Interrupts (PciDeviceLocation)

def statusDeviceNoMoreDevices : STATUS := 0xE0010002
def statusDeviceNotConnected : STATUS := 0xE0010017
def statusDeviceSpaceRangeExceeded : STATUS := 0xE001001D
def statusMemoryCannotBeMapped : STATUS := 0xE0100004

def mbSize : ℕ := 1024 * 1024
def predefinedPciExpressDeviceSpaceSize : ℕ := 4096

structure AcpiMcfgAllocation where
  address : QWORD
  pciSegment : WORD
  startBusNumber : BYTE
  endBusNumber : BYTE
  deriving DecidableEq, Repr

/-- A `PCI_ROOT_COMPLEX`, and the size of the window that has been mapped for it. -/
structure PciRootComplex where
  baseAddress : QWORD
  startBusNumber : BYTE
  endBusNumber : BYTE
  mappedBytes : DWORD
  deriving DecidableEq, Repr

/-- `mapped` is what `IoMapMemory` returns. -/
def pciSystemInitRootComplexEntry (AcpiEntry : AcpiMcfgAllocation) (heap : Bool) (mapped : QWORD) :
    Except Fault (Except STATUS PciRootComplex) := do
  assertThat (AcpiEntry.pciSegment = 0)
  if heap then
    let bytesToMap := BitVec.ofInt 32
      ((AcpiEntry.endBusNumber.toNat - AcpiEntry.startBusNumber.toNat + 1) * mbSize)
    if mapped ≠ 0 then
      .ok (.ok ⟨mapped, AcpiEntry.startBusNumber, AcpiEntry.endBusNumber, bytesToMap⟩)
    else .ok (.error statusMemoryCannotBeMapped)
  else .ok (.error statusHeapInsufficientResources)

/-- `PCI_EXPRESS_FORM_ADDRESS`. -/
def pciExpressFormAddress (base : QWORD) (loc : PciDeviceLocation) : QWORD :=
  base + (loc.bus.setWidth 64 <<< 20) + (loc.device.setWidth 64 <<< 15) +
    (loc.function.setWidth 64 <<< 12)

/-- What the device memory behind a window holds, by the offset in the window. -/
abbrev WindowContent := ℕ → DWORD

namespace PciRootComplex

variable (rc : PciRootComplex) (content : WindowContent)

/-- An access of 4 bytes. -/
def checkAccess (address : QWORD) : Except Fault ℕ :=
  let offset := (address - rc.baseAddress).toNat
  if offset + 4 ≤ rc.mappedBytes.toNat then .ok offset else .error .danglingAccess

/-- The static variables of `PciExpressRetrieveNextDevice`. -/
structure Search where
  currentDeviceLocation : PciDeviceLocation
  exhaustedPciSpace : Bool
  deriving DecidableEq, Repr

/-- The location after one, and whether the space is then exhausted. -/
def advance (loc : PciDeviceLocation) : PciDeviceLocation × Bool :=
  let function := (loc.function + 1) % 8
  if function = 0 then
    let device := (loc.device + 1) % 32
    if device = 0 then
      let bus := loc.bus + 1
      (⟨bus, device, function⟩, bus = 0 || rc.endBusNumber.toNat + 1 = bus.toNat)
    else (⟨loc.bus, device, function⟩, false)
  else (⟨loc.bus, loc.device, function⟩, false)

def retrieveLoop : ℕ → PciDeviceLocation → Except Fault (STATUS × Option PciDeviceLocation × Search)
  | 0, _ => .error .outOfFuel
  | fuel + 1, loc => do
    let offset ← rc.checkAccess (pciExpressFormAddress rc.baseAddress loc)
    let (next, exhausted) := rc.advance loc
    if content offset ≠ maxDword then .ok (statusSuccess, some loc, ⟨next, exhausted⟩)
    else if exhausted then .ok (statusDeviceNoMoreDevices, none, ⟨next, true⟩)
    else retrieveLoop fuel next

/-- The location of the device that is found. The loop has a round for every function there can be. -/
def pciExpressRetrieveNextDevice (ResetSearch : Bool) (s : Search) :
    Except Fault (STATUS × Option PciDeviceLocation × Search) :=
  let s := if ResetSearch then ⟨⟨rc.startBusNumber, 0, 0⟩, false⟩ else s
  if s.exhaustedPciSpace then .ok (statusDeviceNoMoreDevices, none, s)
  else rc.retrieveLoop content (256 * 32 * 8) s.currentDeviceLocation

/-- The address at which a register is accessed. -/
def configurationAddress (loc : PciDeviceLocation) (Register : WORD) : Except Fault QWORD := do
  assertThat (rc.baseAddress ≠ 0)
  assertThat (Register.toNat < predefinedPciExpressDeviceSpaceSize)
  .ok (pciExpressFormAddress rc.baseAddress loc + Register.setWidth 64)

def pciExpressReadConfigurationSpace (loc : PciDeviceLocation) (Register : WORD) : Except Fault DWORD := do
  let offset ← rc.checkAccess (← rc.configurationAddress loc Register)
  .ok (content offset)

def pciExpressWriteConfigurationSpace (loc : PciDeviceLocation) (Register : WORD) (Value : DWORD) :
    Except Fault WindowContent := do
  let offset ← rc.checkAccess (← rc.configurationAddress loc Register)
  .ok (Function.update content offset Value)

def Covers (loc : PciDeviceLocation) : Prop := rc.startBusNumber ≤ loc.bus ∧ loc.bus ≤ rc.endBusNumber

instance (loc : PciDeviceLocation) : Decidable (rc.Covers loc) := inferInstanceAs (Decidable (_ ∧ _))

end PciRootComplex

/-- `m_pciSystemData` with the device memory behind each window, and what the ports read without PCI
Express. -/
structure PciSystemData where
  pciExpressSupport : Bool
  rootComplexes : List (PciRootComplex × WindowContent)
  legacySpace : PciDeviceLocation → BYTE → DWORD

namespace PciSystemData

variable (sys : PciSystemData)

/-- `_PciSystemFindRootComplexForDevice`. -/
def findRootComplexForDevice (loc : PciDeviceLocation) : Option (PciRootComplex × WindowContent) :=
  sys.rootComplexes.find? fun w => w.1.Covers loc

def pciSystemReadConfigurationSpace (loc : PciDeviceLocation) (Register : WORD) :
    Except Fault (STATUS × Option DWORD) := do
  assertThat (4 ∣ Register.toNat)
  if sys.pciExpressSupport then
    if Register.toNat ≥ predefinedPciExpressDeviceSpaceSize then
      .ok (statusDeviceSpaceRangeExceeded, none)
    else match sys.findRootComplexForDevice loc with
      | none => .ok (statusDeviceNotConnected, none)
      | some (rc, content) => do
        let value ← rc.pciExpressReadConfigurationSpace content loc Register
        .ok (statusSuccess, some value)
  else if Register.toNat ≥ predefinedPciDeviceSpaceSize then .ok (statusDeviceSpaceRangeExceeded, none)
  else .ok (statusSuccess, some (sys.legacySpace loc (Register.setWidth 8)))

/-- The device memory of a window is left if it has been written. -/
def pciSystemWriteConfigurationSpace (loc : PciDeviceLocation) (Register : WORD) (Value : DWORD) :
    Except Fault (STATUS × Option WindowContent) := do
  assertThat (4 ∣ Register.toNat)
  if sys.pciExpressSupport then
    if Register.toNat ≥ predefinedPciExpressDeviceSpaceSize then
      .ok (statusDeviceSpaceRangeExceeded, none)
    else match sys.findRootComplexForDevice loc with
      | none => .ok (statusDeviceNotConnected, none)
      | some (rc, content) => do
        let content ← rc.pciExpressWriteConfigurationSpace content loc Register Value
        .ok (statusSuccess, some content)
  else if Register.toNat ≥ predefinedPciDeviceSpaceSize then .ok (statusDeviceSpaceRangeExceeded, none)
  else .ok (statusSuccess, none)

end PciSystemData

/-- The functions of all buses in order. -/
def functionIndex (loc : PciDeviceLocation) : ℕ :=
  loc.bus.toNat * 256 + loc.device.toNat * 8 + loc.function.toNat

def functionAt (i : ℕ) : PciDeviceLocation :=
  ⟨BitVec.ofNat 8 (i / 256), BitVec.ofNat 8 (i / 8 % 32), BitVec.ofNat 8 (i % 8)⟩

namespace PciRootComplex

variable (rc : PciRootComplex) (content : WindowContent)

/-- The number of functions that the window has room for. -/
def windowFunctions : ℕ := 256 * (rc.endBusNumber.toNat - rc.startBusNumber.toNat + 1)

/-- The functions of the buses of the window that answer, in order. The first one is at its start. -/
def presentFunctions : List PciDeviceLocation :=
  ((List.range rc.windowFunctions).filter fun i => content (4096 * i) ≠ maxDword).map fun i =>
    functionAt (256 * rc.startBusNumber.toNat + i)

/-- The first call starts the search, the others go on with it. -/
def nthCall (s : Search) : ℕ → Except Fault (STATUS × Option PciDeviceLocation × Search)
  | 0 => rc.pciExpressRetrieveNextDevice content true s
  | k + 1 => do
    let (_, _, s) ← nthCall s k
    rc.pciExpressRetrieveNextDevice content false s

/-- The calls report the functions that are present, one each, and then the end. -/
def ReportsPresent : Prop := ∀ s k, ∃ s', rc.nthCall content s k =
  .ok (match (rc.presentFunctions content)[k]? with
    | some loc => (statusSuccess, some loc, s')
    | none => (statusDeviceNoMoreDevices, none, s'))

/-- A register that the functions of `pci_system.c` accept. -/
def Accepted (Register : WORD) : Prop :=
  4 ∣ Register.toNat ∧ Register.toNat < predefinedPciExpressDeviceSpaceSize

/-- The enumeration stays inside and reports what is present; and so do a read and a write of a register of a
device on a bus of the window. -/
def StaysInWindow (loc : PciDeviceLocation) (Register : WORD) : Prop :=
  rc.ReportsPresent content ∧
    (rc.Covers loc → Accepted Register → ∀ sys : PciSystemData, sys.pciExpressSupport = true →
      sys.findRootComplexForDevice loc = some (rc, content) →
        (∃ value, sys.pciSystemReadConfigurationSpace loc Register = .ok (statusSuccess, some value)) ∧
        ∀ Value, ∃ content', sys.pciSystemWriteConfigurationSpace loc Register Value =
          .ok (statusSuccess, some content'))

/-- What `_PciSystemInitRootComplexEntry` leaves. -/
structure Mapped : Prop where
  base_ne : rc.baseAddress ≠ 0
  bus_le : rc.startBusNumber.toNat ≤ rc.endBusNumber.toNat
  mapped_eq : rc.mappedBytes.toNat = 4096 * rc.windowFunctions

section Addresses

variable {rc content} {loc : PciDeviceLocation} {Register : WORD}

theorem mapped_of_init {e : AcpiMcfgAllocation} {heap : Bool} {mapped : QWORD}
    (hbus : e.startBusNumber ≤ e.endBusNumber)
    (h : pciSystemInitRootComplexEntry e heap mapped = .ok (.ok rc)) : rc.Mapped := by
  obtain ⟨-, -, h⟩ := bind_eq_ok.mp h
  split_ifs at h with hheap hmapped
  · cases Except.ok.inj h
    have hle : e.startBusNumber.toNat ≤ e.endBusNumber.toNat := BitVec.le_def.mp hbus
    have hend := e.endBusNumber.isLt
    refine ⟨hmapped, hle, ?_⟩
    dsimp only [windowFunctions]
    rw [BitVec.toNat_ofInt]
    unfold mbSize
    lia
  all_goals cases Except.ok.inj h

theorem offset_formAddress (base : QWORD) (x : QWORD) :
    (pciExpressFormAddress base loc + x - base).toNat =
      (4096 * functionIndex loc + x.toNat) % 2 ^ 64 := by
  have hsub : pciExpressFormAddress base loc + x - base = (loc.bus.setWidth 64 <<< 20) +
      (loc.device.setWidth 64 <<< 15) + (loc.function.setWidth 64 <<< 12) + x := by
    unfold pciExpressFormAddress
    generalize loc.bus.setWidth 64 <<< 20 = b
    generalize loc.device.setWidth 64 <<< 15 = c
    generalize loc.function.setWidth 64 <<< 12 = d
    rw [show base + b + c + d + x = base + (b + c + d + x) by simp only [BitVec.add_assoc],
      BitVec.add_comm, BitVec.add_sub_cancel]
  have hb := loc.bus.isLt
  have hd := loc.device.isLt
  have hf := loc.function.isLt
  rw [hsub]
  simp only [BitVec.toNat_add, BitVec.toNat_shiftLeft, BitVec.toNat_setWidth, Nat.shiftLeft_eq]
  unfold functionIndex
  lia

/-- An access to a register is inside exactly if the function is one of those that the window has room
for, counted from bus 0. -/
theorem checkAccess_register (hm : rc.Mapped) (hreg : Accepted Register) :
    rc.checkAccess (pciExpressFormAddress rc.baseAddress loc + Register.setWidth 64) =
      if functionIndex loc < rc.windowFunctions then
        .ok (4096 * functionIndex loc + Register.toNat)
      else .error .danglingAccess := by
  obtain ⟨hdvd, hlt⟩ := hreg
  unfold predefinedPciExpressDeviceSpaceSize at hlt
  have hb := loc.bus.isLt
  have hd := loc.device.isLt
  have hf := loc.function.isLt
  have hoffset : (pciExpressFormAddress rc.baseAddress loc + Register.setWidth 64 -
      rc.baseAddress).toNat = 4096 * functionIndex loc + Register.toNat := by
    rw [offset_formAddress, BitVec.toNat_setWidth, functionIndex]
    lia
  unfold checkAccess
  rw [hoffset, hm.mapped_eq]
  by_cases hin : functionIndex loc < rc.windowFunctions
  · rw [if_pos hin]
    exact if_pos (by lia)
  · rw [if_neg hin]
    exact if_neg (by lia)

theorem checkAccess_function (hm : rc.Mapped) :
    rc.checkAccess (pciExpressFormAddress rc.baseAddress loc) =
      if functionIndex loc < rc.windowFunctions then .ok (4096 * functionIndex loc)
      else .error .danglingAccess := by
  have h := @checkAccess_register rc loc 0 hm ⟨by decide, by decide⟩
  have hzero : pciExpressFormAddress rc.baseAddress loc + (0 : WORD).setWidth 64 =
    pciExpressFormAddress rc.baseAddress loc := BitVec.add_zero _
  rw [hzero] at h
  exact h

end Addresses

section Positions

variable {i : ℕ}

theorem functionIndex_functionAt (h : i < 256 * 256) : functionIndex (functionAt i) = i := by
  simp only [functionIndex, functionAt, BitVec.toNat_ofNat]
  lia

/-- The counters together count the functions. -/
theorem advance_functionAt (h : i < 256 * (rc.endBusNumber.toNat + 1)) :
    rc.advance (functionAt i) =
      (functionAt (i + 1), decide (i + 1 = 256 * (rc.endBusNumber.toNat + 1))) := by
  have hend := rc.endBusNumber.isLt
  have hzero : ∀ n < 256, BitVec.ofNat 8 n = 0 ↔ n = 0 := fun n hn => by
    rw [← BitVec.toNat_inj, BitVec.toNat_ofNat, Nat.mod_eq_of_lt hn]
    rfl
  have hone : (1 : BYTE).toNat = 1 := rfl
  have hfunction : (BitVec.ofNat 8 (i % 8) + 1) % 8 = BitVec.ofNat 8 ((i + 1) % 8) := by
    apply BitVec.eq_of_toNat_eq
    rw [BitVec.toNat_umod, BitVec.toNat_add, BitVec.toNat_ofNat, BitVec.toNat_ofNat, hone,
      show (8 : BYTE).toNat = 8 from rfl]
    lia
  have hdevice : (BitVec.ofNat 8 (i / 8 % 32) + 1) % 32 = BitVec.ofNat 8 ((i / 8 + 1) % 32) := by
    apply BitVec.eq_of_toNat_eq
    rw [BitVec.toNat_umod, BitVec.toNat_add, BitVec.toNat_ofNat, BitVec.toNat_ofNat, hone,
      show (32 : BYTE).toNat = 32 from rfl]
    lia
  have hbus : BitVec.ofNat 8 (i / 256) + 1 = BitVec.ofNat 8 (i / 256 + 1) :=
    (BitVec.ofNat_add ..).symm
  unfold advance functionAt
  simp only [hfunction, hdevice, hbus]
  by_cases h8 : (i + 1) % 8 = 0
  · rw [if_pos ((hzero _ (by omega)).mpr h8)]
    by_cases h32 : (i / 8 + 1) % 32 = 0
    · rw [if_pos ((hzero _ (by omega)).mpr h32), show (i + 1) / 256 = i / 256 + 1 by lia,
        show (i + 1) / 8 % 32 = (i / 8 + 1) % 32 by lia]
      refine Prod.ext rfl ?_
      rw [← Bool.decide_or]
      refine decide_eq_decide.mpr ?_
      rw [← BitVec.toNat_inj, BitVec.toNat_ofNat, show (0 : BYTE).toNat = 0 from rfl]
      lia
    · rw [if_neg (mt (hzero _ (by omega)).mp h32), show (i + 1) / 256 = i / 256 by lia,
        show (i + 1) / 8 % 32 = (i / 8 + 1) % 32 by lia]
      refine Prod.ext rfl (decide_eq_false ?_).symm
      lia
  · rw [if_neg (mt (hzero _ (by omega)).mp h8), show (i + 1) / 256 = i / 256 by lia,
      show (i + 1) / 8 % 32 = i / 8 % 32 by lia]
    refine Prod.ext rfl (decide_eq_false ?_).symm
    lia

end Positions

/-- The number of functions up to the last bus of the window. -/
def endFunctions : ℕ := 256 * (rc.endBusNumber.toNat + 1)

/-- The search with a number of functions behind it. -/
def searchAt (i : ℕ) : Search := ⟨functionAt i, decide (i = rc.endFunctions)⟩

/-- The functions from one on that answer. -/
def answering (i : ℕ) : List ℕ :=
  (List.range' i (rc.endFunctions - i)).filter fun j => content (4096 * j) ≠ maxDword

/-- What a call returns that finds a function, or none. -/
def callResult (found : Option ℕ) (s : Search) : STATUS × Option PciDeviceLocation × Search :=
  match found with
  | some j => (statusSuccess, some (functionAt j), s)
  | none => (statusDeviceNoMoreDevices, none, s)

section Enumeration

variable {rc content} {i fuel : ℕ}

theorem retrieveLoop_outside (hm : rc.Mapped) (hi : i < rc.endFunctions)
    (hout : ¬i < rc.windowFunctions) :
    rc.retrieveLoop content (fuel + 1) (functionAt i) = .error .danglingAccess := by
  have hend := rc.endBusNumber.isLt
  unfold endFunctions at hi
  unfold retrieveLoop
  rw [checkAccess_function hm, functionIndex_functionAt (by omega), if_neg hout]
  rfl

/-- A round of the loop inside the window. -/
theorem retrieveLoop_inside (hm : rc.Mapped) (hi : i < rc.endFunctions) (hin : i < rc.windowFunctions) :
    rc.retrieveLoop content (fuel + 1) (functionAt i) =
      if content (4096 * i) ≠ maxDword then
        .ok (callResult (some i) (rc.searchAt (i + 1)))
      else if i + 1 = rc.endFunctions then .ok (callResult none (rc.searchAt (i + 1)))
      else rc.retrieveLoop content fuel (functionAt (i + 1)) := by
  have hend := rc.endBusNumber.isLt
  have hdef : 256 * (rc.endBusNumber.toNat + 1) = rc.endFunctions := rfl
  conv_lhs => unfold retrieveLoop
  rw [checkAccess_function hm, functionIndex_functionAt (by omega), if_pos hin]
  simp only [bind, Except.bind, advance_functionAt rc hi, decide_eq_true_eq, hdef]
  by_cases hpresent : content (4096 * i) ≠ maxDword
  · rw [if_pos hpresent, if_pos hpresent]
    rfl
  rw [if_neg hpresent, if_neg hpresent]
  by_cases hlast : i + 1 = rc.endFunctions
  · rw [if_pos hlast, if_pos hlast]
    simp only [callResult, searchAt, hlast, decide_true]
  · rw [if_neg hlast, if_neg hlast]

theorem answering_end : rc.answering content rc.endFunctions = [] := by
  rw [answering, Nat.sub_self]
  rfl

theorem answering_eq (hi : i < rc.endFunctions) : rc.answering content i =
    if content (4096 * i) ≠ maxDword then i :: rc.answering content (i + 1)
    else rc.answering content (i + 1) := by
  rw [answering, show rc.endFunctions - i = rc.endFunctions - (i + 1) + 1 by lia, List.range'_succ,
    List.filter_cons]
  simp only [decide_eq_true_eq]
  rfl

/-- With a window from bus 0 on, a call finds the first function that is left. -/
theorem retrieveLoop_finds (hm : rc.Mapped) (hall : rc.windowFunctions = rc.endFunctions)
    (hi : i < rc.endFunctions) (hfuel : rc.endFunctions - i ≤ fuel) :
    ∃ j ≤ rc.endFunctions, rc.answering content j = (rc.answering content i).tail ∧
      rc.retrieveLoop content fuel (functionAt i) =
        .ok (callResult (rc.answering content i).head? (rc.searchAt j)) := by
  induction fuel generalizing i with
  | zero => lia
  | succ fuel ih =>
    rw [retrieveLoop_inside hm hi (hall ▸ hi), answering_eq hi]
    by_cases hpresent : content (4096 * i) ≠ maxDword
    · simp only [if_pos hpresent]
      exact ⟨i + 1, hi, rfl, rfl⟩
    simp only [if_neg hpresent]
    by_cases hlast : i + 1 = rc.endFunctions
    · simp only [hlast, answering_end]
      exact ⟨rc.endFunctions, le_rfl, answering_end, rfl⟩
    · simp only [if_neg hlast]
      exact ih (by omega) (by omega)

variable (content) in
theorem retrieveNextDevice_finds (hm : rc.Mapped) (hall : rc.windowFunctions = rc.endFunctions)
    (hi : i ≤ rc.endFunctions) :
    ∃ j ≤ rc.endFunctions, rc.answering content j = (rc.answering content i).tail ∧
      rc.pciExpressRetrieveNextDevice content false (rc.searchAt i) =
        .ok (callResult (rc.answering content i).head? (rc.searchAt j)) := by
  have hend := rc.endBusNumber.isLt
  unfold pciExpressRetrieveNextDevice
  rcases Nat.eq_or_lt_of_le hi with rfl | hlt
  · refine ⟨rc.endFunctions, le_rfl, by rw [answering_end]; rfl, ?_⟩
    rw [answering_end]
    simp [searchAt, callResult]
  · have hnot : (rc.searchAt i).exhaustedPciSpace = false := decide_eq_false (by omega)
    simp only [Bool.false_eq_true, if_false, hnot]
    exact retrieveLoop_finds hm hall hlt (by unfold endFunctions; lia)

variable (content) in
/-- The first call starts at the first bus. -/
theorem retrieveNextDevice_reset (hm : rc.Mapped) (s : Search) :
    rc.pciExpressRetrieveNextDevice content true s =
      rc.pciExpressRetrieveNextDevice content false (rc.searchAt (256 * rc.startBusNumber.toNat)) := by
  have hle := hm.bus_le
  have hstart : rc.searchAt (256 * rc.startBusNumber.toNat) = ⟨⟨rc.startBusNumber, 0, 0⟩, false⟩ := by
    unfold searchAt functionAt
    rw [Nat.mul_div_cancel_left _ (by decide), BitVec.ofNat_toNat, BitVec.setWidth_eq,
      show 256 * rc.startBusNumber.toNat / 8 % 32 = 0 by lia,
      show 256 * rc.startBusNumber.toNat % 8 = 0 by lia,
      decide_eq_false (by unfold endFunctions; omega)]
    rfl
  unfold pciExpressRetrieveNextDevice
  rw [hstart]
  rfl

variable (content) in
/-- The calls one after the other. -/
theorem nthCall_finds (hm : rc.Mapped) (hall : rc.windowFunctions = rc.endFunctions) (s : Search)
    (k : ℕ) : ∃ j ≤ rc.endFunctions,
      rc.answering content j =
        (rc.answering content (256 * rc.startBusNumber.toNat)).drop (k + 1) ∧
      rc.nthCall content s k = .ok (callResult
        (rc.answering content (256 * rc.startBusNumber.toNat))[k]? (rc.searchAt j)) := by
  have hle := hm.bus_le
  induction k with
  | zero =>
    obtain ⟨j, hj, hrest, hrun⟩ := retrieveNextDevice_finds content
      (i := 256 * rc.startBusNumber.toNat) hm hall (by unfold endFunctions; omega)
    refine ⟨j, hj, by rw [hrest, List.drop_one], ?_⟩
    rw [nthCall, retrieveNextDevice_reset content hm, hrun, List.head?_eq_getElem?]
  | succ k ih =>
    obtain ⟨i, hi, hrest, hrun⟩ := ih
    obtain ⟨j, hj, hrest', hrun'⟩ := retrieveNextDevice_finds content hm hall hi
    refine ⟨j, hj, ?_, ?_⟩
    · rw [hrest', hrest, List.tail_drop]
    · rw [hrest, List.head?_drop] at hrun'
      rw [nthCall, hrun]
      cases (rc.answering content (256 * rc.startBusNumber.toNat))[k]? <;> exact hrun'

theorem presentFunctions_eq (hzero : rc.startBusNumber = 0) (hall : rc.windowFunctions = rc.endFunctions) :
    rc.presentFunctions content =
      (rc.answering content (256 * rc.startBusNumber.toNat)).map functionAt := by
  have hstart : 256 * rc.startBusNumber.toNat = 0 := by
    rw [hzero]
    rfl
  rw [presentFunctions, answering, hstart, hall, Nat.sub_zero, List.range_eq_range']
  simp only [Nat.zero_add]

theorem reportsPresent_of_zero (hm : rc.Mapped) (hzero : rc.startBusNumber = 0) :
    rc.ReportsPresent content := by
  have hall : rc.windowFunctions = rc.endFunctions := by
    rw [windowFunctions, hzero]
    rfl
  intro s k
  obtain ⟨j, -, -, hrun⟩ := nthCall_finds content hm hall s k
  refine ⟨rc.searchAt j, ?_⟩
  rw [hrun, presentFunctions_eq hzero hall, List.getElem?_map]
  cases (rc.answering content (256 * rc.startBusNumber.toNat))[k]? <;> rfl

variable (content) in
/-- With a window from another bus on, a call goes on inside the window or leaves it. -/
theorem retrieveLoop_leaves (hm : rc.Mapped) (hshort : rc.windowFunctions < rc.endFunctions)
    (hi : i < rc.endFunctions) (hfuel : rc.endFunctions - i ≤ fuel) :
    rc.retrieveLoop content fuel (functionAt i) = .error .danglingAccess ∨
      ∃ j, i < j ∧ j ≤ rc.windowFunctions ∧ ∃ r,
        rc.retrieveLoop content fuel (functionAt i) = .ok (callResult r (rc.searchAt j)) := by
  induction fuel generalizing i with
  | zero => omega
  | succ fuel ih =>
    by_cases hin : i < rc.windowFunctions
    swap
    · exact .inl (retrieveLoop_outside hm hi hin)
    rw [retrieveLoop_inside hm hi hin]
    by_cases hpresent : content (4096 * i) ≠ maxDword
    · simp only [if_pos hpresent]
      exact .inr ⟨i + 1, Nat.lt_succ_self i, hin, _, rfl⟩
    have hmore : ¬i + 1 = rc.endFunctions := by omega
    simp only [if_neg hpresent, if_neg hmore]
    rcases ih (i := i + 1) (by omega) (by omega) with herror | ⟨j, hlt, hle, r, hrun⟩
    · exact .inl herror
    · exact .inr ⟨j, by omega, hle, r, hrun⟩

variable (content) in
/-- Some call leaves the window. -/
theorem nthCall_leaves (hm : rc.Mapped) (hshort : rc.windowFunctions < rc.endFunctions) (s : Search)
    (hi : i < rc.endFunctions) {k : ℕ}
    (hnext : rc.nthCall content s k = rc.pciExpressRetrieveNextDevice content false (rc.searchAt i)) :
    ∃ k, rc.nthCall content s k = .error .danglingAccess := by
  induction hmeasure : rc.windowFunctions - i using Nat.strong_induction_on generalizing i k with
  | _ n ih =>
    have hend := rc.endBusNumber.isLt
    have hnot : (rc.searchAt i).exhaustedPciSpace = false := decide_eq_false (by omega)
    have hloop : rc.nthCall content s k = rc.retrieveLoop content (256 * 32 * 8) (functionAt i) := by
      rw [hnext]
      unfold pciExpressRetrieveNextDevice
      simp only [Bool.false_eq_true, if_false, hnot]
      rfl
    have hfuel : rc.endFunctions - i ≤ 256 * 32 * 8 := by
      unfold endFunctions
      lia
    rcases retrieveLoop_leaves content hm hshort hi hfuel with herror | ⟨j, hlt, hle, r, hrun⟩
    · exact ⟨k, hloop.trans herror⟩
    · refine ih (rc.windowFunctions - j) (by omega) (i := j) (k := k + 1) (by omega) ?_ rfl
      rw [nthCall, hloop, hrun]
      cases r <;> rfl

theorem not_reportsPresent (hm : rc.Mapped) (hne : rc.startBusNumber ≠ 0) :
    ¬rc.ReportsPresent content := by
  have hpos : 0 < rc.startBusNumber.toNat := Nat.pos_of_ne_zero fun hzero =>
    hne (BitVec.eq_of_toNat_eq hzero)
  have hle := hm.bus_le
  intro h
  let s : Search := ⟨⟨0, 0, 0⟩, false⟩
  obtain ⟨k, hk⟩ := nthCall_leaves content (k := 0) (i := 256 * rc.startBusNumber.toNat) hm
    (by unfold windowFunctions endFunctions; lia) s (by unfold endFunctions; lia)
    (retrieveNextDevice_reset content hm s)
  obtain ⟨s', hs'⟩ := h s k
  exact nomatch hk.symm.trans hs'

end Enumeration

section Registers

variable {rc content} {loc : PciDeviceLocation} {Register : WORD} {sys : PciSystemData}

theorem configurationAddress_ok (hm : rc.Mapped) (hreg : Accepted Register) :
    rc.configurationAddress loc Register =
      .ok (pciExpressFormAddress rc.baseAddress loc + Register.setWidth 64) := by
  unfold configurationAddress
  rw [assertThat_of hm.base_ne, assertThat_of hreg.2]
  rfl

theorem pciExpressReadConfigurationSpace_eq (hm : rc.Mapped) (hreg : Accepted Register) :
    rc.pciExpressReadConfigurationSpace content loc Register =
      if functionIndex loc < rc.windowFunctions then
        .ok (content (4096 * functionIndex loc + Register.toNat))
      else .error .danglingAccess := by
  unfold pciExpressReadConfigurationSpace
  rw [configurationAddress_ok hm hreg]
  simp only [bind, Except.bind, checkAccess_register hm hreg]
  split_ifs <;> rfl

theorem pciExpressWriteConfigurationSpace_eq (hm : rc.Mapped) (hreg : Accepted Register) (Value : DWORD) :
    rc.pciExpressWriteConfigurationSpace content loc Register Value =
      if functionIndex loc < rc.windowFunctions then
        .ok (Function.update content (4096 * functionIndex loc + Register.toNat) Value)
      else .error .danglingAccess := by
  unfold pciExpressWriteConfigurationSpace
  rw [configurationAddress_ok hm hreg]
  simp only [bind, Except.bind, checkAccess_register hm hreg]
  split_ifs <;> rfl

/-- What the two requests come to. -/
theorem pciSystemReadConfigurationSpace_eq (hm : rc.Mapped) (hreg : Accepted Register)
    (hexpress : sys.pciExpressSupport = true)
    (hfind : sys.findRootComplexForDevice loc = some (rc, content)) :
    sys.pciSystemReadConfigurationSpace loc Register =
      if functionIndex loc < rc.windowFunctions then
        .ok (statusSuccess, some (content (4096 * functionIndex loc + Register.toNat)))
      else .error .danglingAccess := by
  have hsize : ¬Register.toNat ≥ predefinedPciExpressDeviceSpaceSize := Nat.not_le.mpr hreg.2
  unfold PciSystemData.pciSystemReadConfigurationSpace
  simp only [assertThat_of hreg.1, bind, Except.bind, if_pos hexpress, if_neg hsize, hfind,
    pciExpressReadConfigurationSpace_eq hm hreg]
  split_ifs <;> rfl

theorem pciSystemWriteConfigurationSpace_eq (hm : rc.Mapped) (hreg : Accepted Register)
    (hexpress : sys.pciExpressSupport = true)
    (hfind : sys.findRootComplexForDevice loc = some (rc, content)) (Value : DWORD) :
    sys.pciSystemWriteConfigurationSpace loc Register Value =
      if functionIndex loc < rc.windowFunctions then
        .ok (statusSuccess,
          some (Function.update content (4096 * functionIndex loc + Register.toNat) Value))
      else .error .danglingAccess := by
  have hsize : ¬Register.toNat ≥ predefinedPciExpressDeviceSpaceSize := Nat.not_le.mpr hreg.2
  unfold PciSystemData.pciSystemWriteConfigurationSpace
  simp only [assertThat_of hreg.1, bind, Except.bind, if_pos hexpress, if_neg hsize, hfind,
    pciExpressWriteConfigurationSpace_eq hm hreg]
  split_ifs <;> rfl

end Registers

/-- All accesses stay in the window exactly if it starts at bus 0 and the device is one of the last bus or
before. -/
theorem staysInWindow_iff {rc : PciRootComplex} {e : AcpiMcfgAllocation} {heap : Bool} {mapped : QWORD}
    (hbus : e.startBusNumber ≤ e.endBusNumber)
    (hinit : pciSystemInitRootComplexEntry e heap mapped = .ok (.ok rc)) (content : WindowContent)
    (loc : PciDeviceLocation) (Register : WORD) :
    rc.StaysInWindow content loc Register ↔ rc.startBusNumber = 0 ∧
      (rc.Covers loc → Accepted Register → functionIndex loc < 256 * (rc.endBusNumber.toNat + 1)) := by
  have hm := mapped_of_init hbus hinit
  by_cases hzero : rc.startBusNumber = 0
  swap
  · exact iff_of_false (fun h => not_reportsPresent hm hzero h.1) fun h => hzero h.1
  have hall : rc.windowFunctions = 256 * (rc.endBusNumber.toNat + 1) := by
    rw [windowFunctions, hzero]
    rfl
  refine (and_iff_right (reportsPresent_of_zero hm hzero)).trans
    (Iff.trans ?_ (and_iff_right hzero).symm)
  rw [← hall]
  refine forall_congr' fun hcovers => forall_congr' fun hreg => ?_
  constructor
  · intro h
    by_contra hout
    have hfind : (⟨true, [(rc, content)], fun _ _ => 0⟩ : PciSystemData).findRootComplexForDevice loc =
        some (rc, content) := by
      simp [PciSystemData.findRootComplexForDevice, hcovers]
    obtain ⟨⟨value, hread⟩, -⟩ := h _ rfl hfind
    rw [pciSystemReadConfigurationSpace_eq hm hreg rfl hfind, if_neg hout] at hread
    cases hread
  · intro hin sys hexpress hfind
    have hread := pciSystemReadConfigurationSpace_eq hm hreg hexpress hfind
    have hwrite := pciSystemWriteConfigurationSpace_eq hm hreg hexpress hfind
    exact ⟨⟨_, hread.trans (if_pos hin)⟩, fun Value => ⟨_, (hwrite Value).trans (if_pos hin)⟩⟩

/-- The allocation of a machine whose window serves buses 1 and 2. -/
def secondSegment : AcpiMcfgAllocation := ⟨0xE0000000, 0, 1, 2⟩

def secondComplex : PciRootComplex := ⟨0x100000, 1, 2, 0x200000⟩

theorem pciSystemInitRootComplexEntry_secondSegment :
    pciSystemInitRootComplexEntry secondSegment true 0x100000 = .ok (.ok secondComplex) := rfl

theorem staysInWindow_iff_secondComplex :
    secondComplex.StaysInWindow (fun _ => 0) ⟨1, 0, 0⟩ 0 ↔ secondComplex.startBusNumber = 0 ∧
      (secondComplex.Covers ⟨1, 0, 0⟩ → Accepted 0 →
        functionIndex ⟨1, 0, 0⟩ < 256 * (secondComplex.endBusNumber.toNat + 1)) :=
  staysInWindow_iff (by decide) pciSystemInitRootComplexEntry_secondSegment _ _ _

/-- Bus 2 is behind the two megabytes of the window. -/
theorem not_staysInWindow :
    pciSystemInitRootComplexEntry secondSegment true 0x100000 = .ok (.ok secondComplex) ∧
      secondComplex.Covers ⟨2, 0, 0⟩ ∧ Accepted 0 ∧
      ¬secondComplex.StaysInWindow (fun _ => 0) ⟨2, 0, 0⟩ 0 := by
  refine ⟨rfl, by decide, ⟨by decide, by decide⟩, fun h => ?_⟩
  have hm : secondComplex.Mapped :=
    mapped_of_init (by decide) pciSystemInitRootComplexEntry_secondSegment
  exact not_reportsPresent hm (by decide) h.1

end PciRootComplex

end HAL9000.Io
