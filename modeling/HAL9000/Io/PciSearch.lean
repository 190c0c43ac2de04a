import HAL9000.Io.PciHierarchy

/-! The searches of `pci_system.c` for the devices that match a specification. They test the number of
devices that have been found against the capacity after the place behind the array has been written. -/
namespace HAL9000.Io

open Interrupts (PciDeviceLocation)

def statusElementNotFound : STATUS := 0xE8000004
def statusInvalidParameter5 : STATUS := 0xE8000015

namespace PciDevice

variable (d : PciDevice)

def vendorID : WORD := d.byteAt 0x01 ++ d.byteAt 0x00
def deviceID : WORD := d.byteAt 0x03 ++ d.byteAt 0x02
def subclass : BYTE := d.byteAt 0x0A
def classCode : BYTE := d.byteAt 0x0B

end PciDevice

structure PciDescription where
  vendorId : WORD
  deviceId : WORD
  subclass : BYTE
  classCode : BYTE
  deriving DecidableEq, Repr

structure PciSpec where
  description : PciDescription
  matchClass : Bool
  matchSubclass : Bool
  matchVendor : Bool
  matchDevice : Bool
  deriving DecidableEq, Repr

structure PciSpecLocation where
  location : PciDeviceLocation
  matchBus : Bool
  matchDevice : Bool
  matchFunction : Bool
  deriving DecidableEq, Repr

def PciSpec.accepts (s : PciSpec) (d : PciDeviceDescription) : Bool :=
  (!s.matchClass || d.deviceData.classCode == s.description.classCode) &&
    (!s.matchSubclass || d.deviceData.subclass == s.description.subclass) &&
    (!s.matchVendor || d.deviceData.vendorID == s.description.vendorId) &&
    (!s.matchDevice || d.deviceData.deviceID == s.description.deviceId)

def PciSpecLocation.accepts (s : PciSpecLocation) (d : PciDeviceDescription) : Bool :=
  (!s.matchBus || d.deviceLocation.bus == s.location.bus) &&
    (!s.matchDevice || d.deviceLocation.device == s.location.device) &&
    (!s.matchFunction || d.deviceLocation.function == s.location.function)

/-- The status, the writes to `PciDevices` in their order, with the place of each device in the list, and
`*NumberOfDevices` afterwards. -/
structure Found where
  status : STATUS
  stores : List (DWORD × ℕ) := []
  numberOfDevices : Option DWORD := none
  deriving DecidableEq, Repr

section Search

variable (accepts : PciDeviceDescription → Bool) (pciDevices : Bool) (NumberOfDevices : DWORD)

def findLoop : List (PciDeviceDescription × ℕ) → DWORD → List (DWORD × ℕ) → Found
  | [], noOfDevicesFound, stores =>
    ⟨if 0 ≠ noOfDevicesFound then statusSuccess else statusElementNotFound, stores, some noOfDevicesFound⟩
  | (d, i) :: rest, noOfDevicesFound, stores =>
    if accepts d then
      if pciDevices then
        if NumberOfDevices < noOfDevicesFound then ⟨statusBufferTooSmall, stores, some NumberOfDevices⟩
        else findLoop rest (noOfDevicesFound + 1) (stores ++ [(noOfDevicesFound, i)])
      else findLoop rest (noOfDevicesFound + 1) stores
    else findLoop rest noOfDevicesFound stores

/-- Pointers may be `NULL`; of `PciDevices` only this is given. -/
def findDevices (PciDeviceList : Option (List PciDeviceDescription)) (NumberOfDevices : Option DWORD) :
    Found :=
  match PciDeviceList, NumberOfDevices with
  | none, n => { status := statusInvalidParameter1, numberOfDevices := n }
  | some _, none => { status := statusInvalidParameter5 }
  | some devices, some n => findLoop accepts pciDevices n devices.zipIdx 0 []

end Search

def pciSystemFindDevicesMatchingSpecification (PciDeviceList : Option (List PciDeviceDescription))
    (Specification : PciSpec) (pciDevices : Bool) (NumberOfDevices : Option DWORD) : Found :=
  findDevices Specification.accepts pciDevices PciDeviceList NumberOfDevices

def pciSystemFindDevicesMatchingLocation (PciDeviceList : Option (List PciDeviceDescription))
    (Specification : PciSpecLocation) (pciDevices : Bool) (NumberOfDevices : Option DWORD) : Found :=
  findDevices Specification.accepts pciDevices PciDeviceList NumberOfDevices

/-- The places of the devices that match, in list order. -/
def matching (accepts : PciDeviceDescription → Bool) (devices : List (PciDeviceDescription × ℕ)) : List ℕ :=
  (devices.filter fun p => accepts p.1).map Prod.snd

/-- The entries of an array from an index on. -/
def storesFrom (k : ℕ) (places : List ℕ) : List (DWORD × ℕ) :=
  (places.zipIdx k).map fun p => (BitVec.ofNat 32 p.2, p.1)

/-- No entry behind the capacity is written, more matches than it are reported, and otherwise the matches
and their number are stored. -/
structure Found.Respects (r : Found) (places : List ℕ) (capacity : DWORD) : Prop where
  inside : ∀ s ∈ r.stores, s.1 < capacity
  tooSmall : r.status = statusBufferTooSmall ↔ capacity.toNat < places.length
  stored : places.length ≤ capacity.toNat → r.stores = storesFrom 0 places ∧
    r.numberOfDevices = some (BitVec.ofNat 32 places.length)

section Loop

variable {accepts : PciDeviceDescription → Bool} {n : DWORD} {devices : List (PciDeviceDescription × ℕ)}

theorem matching_cons_of_pos {p : PciDeviceDescription × ℕ} (h : accepts p.1 = true) :
    matching accepts (p :: devices) = p.2 :: matching accepts devices := by
  simp [matching, h]

theorem matching_cons_of_neg {p : PciDeviceDescription × ℕ} (h : accepts p.1 = false) :
    matching accepts (p :: devices) = matching accepts devices := by
  simp [matching, h]

theorem storesFrom_cons (k i : ℕ) (places : List ℕ) :
    storesFrom k (i :: places) = (BitVec.ofNat 32 k, i) :: storesFrom (k + 1) places := by
  unfold storesFrom
  rw [List.zipIdx_cons, List.map_cons]

/-- What has been stored stays. -/
theorem stores_prefix {found : DWORD} {stores : List (DWORD × ℕ)} :
    stores <+: (findLoop accepts true n devices found stores).stores := by
  induction devices generalizing found stores with
  | nil => exact List.prefix_rfl
  | cons p devices ih =>
    rw [findLoop]
    split_ifs
    · exact List.prefix_rfl
    · exact (List.prefix_append _ _).trans ih
    · contradiction
    · exact ih

/-- The test lets one match more than the capacity through. -/
theorem findLoop_passes {k : ℕ} {stores : List (DWORD × ℕ)}
    (h : k + (matching accepts devices).length ≤ n.toNat + 1)
    (hcount : k + (matching accepts devices).length < 2 ^ 32) :
    findLoop accepts true n devices (BitVec.ofNat 32 k) stores =
      ⟨if k + (matching accepts devices).length ≠ 0 then statusSuccess else statusElementNotFound,
        stores ++ storesFrom k (matching accepts devices),
        some (BitVec.ofNat 32 (k + (matching accepts devices).length))⟩ := by
  induction devices generalizing k stores with
  | nil =>
    have hk : k < 2 ^ 32 := hcount
    have hzero : 0#32 = BitVec.ofNat 32 k ↔ k = 0 := by
      rw [eq_comm, ← BitVec.toNat_inj, BitVec.toNat_ofNat, Nat.mod_eq_of_lt (by omega)]
      rfl
    simp [findLoop, matching, storesFrom, hzero]
  | cons p devices ih =>
    rw [findLoop]
    cases hp : accepts p.1 with
    | true =>
      rw [matching_cons_of_pos hp, List.length_cons] at h hcount ⊢
      have hroom : ¬n < BitVec.ofNat 32 k := by
        rw [BitVec.lt_def, BitVec.toNat_ofNat, Nat.mod_eq_of_lt (by omega)]
        omega
      have hnext : BitVec.ofNat 32 k + 1 = BitVec.ofNat 32 (k + 1) := (BitVec.ofNat_add k 1).symm
      rw [if_pos rfl, if_pos rfl, if_neg hroom, hnext, ih (by omega) (by omega), storesFrom_cons, List.append_assoc,
        show k + 1 + (matching accepts devices).length = k + ((matching accepts devices).length + 1) by omega]
      rfl
    | false =>
      rw [matching_cons_of_neg hp] at h hcount ⊢
      rw [if_neg Bool.false_ne_true]
      exact ih h hcount

/-- If there are more matches than the capacity, the entry behind the array is written. -/
theorem findLoop_overruns {k : ℕ} {stores : List (DWORD × ℕ)} (hk : k ≤ n.toNat)
    (h : n.toNat < k + (matching accepts devices).length) :
    ∃ i, (n, i) ∈ (findLoop accepts true n devices (BitVec.ofNat 32 k) stores).stores := by
  have hn := n.isLt
  induction devices generalizing k stores with
  | nil => exact absurd h (by simp [matching, hk])
  | cons p devices ih =>
    rw [findLoop]
    cases hp : accepts p.1 with
    | true =>
      rw [matching_cons_of_pos hp, List.length_cons] at h
      have hroom : ¬n < BitVec.ofNat 32 k := by
        rw [BitVec.lt_def, BitVec.toNat_ofNat, Nat.mod_eq_of_lt (by omega)]
        omega
      rw [if_pos rfl, if_pos rfl, if_neg hroom]
      rcases Nat.eq_or_lt_of_le hk with rfl | hlt
      · refine ⟨p.2, stores_prefix.subset (List.mem_append_right _ (List.mem_singleton.mpr ?_))⟩
        rw [BitVec.ofNat_toNat, BitVec.setWidth_eq]
      · have hnext : BitVec.ofNat 32 k + 1 = BitVec.ofNat 32 (k + 1) := (BitVec.ofNat_add k 1).symm
        rw [hnext]
        exact ih hlt (by omega)
    | false =>
      rw [matching_cons_of_neg hp] at h
      rw [if_neg Bool.false_ne_true]
      exact ih hk h

theorem findLoop_respects_iff :
    (findLoop accepts true n devices 0 []).Respects (matching accepts devices) n ↔
      (matching accepts devices).length ≤ n.toNat := by
  constructor
  · intro h
    by_contra hlt
    obtain ⟨i, hi⟩ := @findLoop_overruns accepts n devices 0 [] (Nat.zero_le _) (by omega)
    exact BitVec.lt_irrefl _ (h.inside _ hi)
  · intro h
    have hn := n.isLt
    have hrun := @findLoop_passes accepts n devices 0 [] (by omega) (by omega)
    rw [List.nil_append, Nat.zero_add] at hrun
    change (findLoop accepts true n devices 0#32 []).Respects _ n
    rw [hrun]
    refine ⟨fun s hs => ?_, ?_, fun _ => ⟨rfl, rfl⟩⟩
    · obtain ⟨p, hp, rfl⟩ := List.mem_map.mp hs
      have hlt := List.snd_lt_of_mem_zipIdx hp
      rw [BitVec.lt_def, BitVec.toNat_ofNat]
      exact lt_of_le_of_lt (Nat.mod_le _ _) (by omega)
    · refine iff_of_false ?_ (by omega)
      change (if _ then statusSuccess else statusElementNotFound) ≠ statusBufferTooSmall
      split_ifs <;> decide

end Loop

/-- The two searches respect the array exactly if no more devices match than it has room for. -/
theorem findDevices_respects_iff (devices : List PciDeviceDescription) (capacity : DWORD) :
    (∀ spec : PciSpec,
      (pciSystemFindDevicesMatchingSpecification (some devices) spec true (some capacity)).Respects
          (matching spec.accepts devices.zipIdx) capacity ↔
        (matching spec.accepts devices.zipIdx).length ≤ capacity.toNat) ∧
      ∀ spec : PciSpecLocation,
        (pciSystemFindDevicesMatchingLocation (some devices) spec true (some capacity)).Respects
            (matching spec.accepts devices.zipIdx) capacity ↔
          (matching spec.accepts devices.zipIdx).length ≤ capacity.toNat :=
  ⟨fun _ => findLoop_respects_iff, fun _ => findLoop_respects_iff⟩

/-- Any device. -/
def anySpec : PciSpec := ⟨⟨0, 0, 0, 0⟩, false, false, false, false⟩

/-- Two devices match and the array has one entry: two entries are written, and success is returned. -/
theorem not_findDevices_respects : ¬∀ (devices : List PciDeviceDescription) (capacity : DWORD) (spec : PciSpec),
    (pciSystemFindDevicesMatchingSpecification (some devices) spec true (some capacity)).Respects
      (matching spec.accepts devices.zipIdx) capacity := by
  intro h
  have hrun : pciSystemFindDevicesMatchingSpecification (some [plainDevice 0, plainDevice 0]) anySpec true
    (some 1) = ⟨statusSuccess, [(0, 0), (1, 1)], some 2⟩ := rfl
  have hinside := (h [plainDevice 0, plainDevice 0] 1 anySpec).inside
  rw [hrun] at hinside
  exact absurd (hinside (1, 1) (by decide)) (by decide)

end HAL9000.Io
