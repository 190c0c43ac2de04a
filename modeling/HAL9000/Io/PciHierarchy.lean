import HAL9000.Io.InterruptOverrides
import HAL9000.Io.PciCapabilities

/-! The parents of PCI devices (`pci_system.c`) and the walk along them in `ioapic_system.c`. A pointer to a
device is its place in the device list. -/
namespace HAL9000.Io

open Interrupts (PciDeviceLocation IoApicPrtEntry)

def pciHeaderLayoutPciToPci : BYTE := 1

namespace PciDevice

variable (d : PciDevice)

/-- `Header.HeaderType.Layout`. -/
def layout : BYTE := d.byteAt 0x0E &&& 0x7F

/-- `Header.Bridge.SecondaryBusNumber`. -/
def secondaryBusNumber : BYTE := d.byteAt 0x19

/-- `Header.Device.InterruptPin`. -/
def interruptPin : BYTE := d.byteAt 0x3D

end PciDevice

/-- A `PCI_DEVICE_DESCRIPTION` without its parent. -/
structure PciDeviceDescription where
  deviceLocation : PciDeviceLocation
  deviceData : PciDevice

namespace PciDeviceDescription

variable (d : PciDeviceDescription)

def IsBridge : Prop := d.deviceData.layout = pciHeaderLayoutPciToPci

instance : Decidable d.IsBridge := inferInstanceAs (Decidable (_ = _))

/-- The device is the bridge to the bus. -/
def LeadsTo (bus : BYTE) : Prop := d.IsBridge ∧ d.deviceData.secondaryBusNumber = bus

instance (bus : BYTE) : Decidable (d.LeadsTo bus) := inferInstanceAs (Decidable (_ ∧ _))

end PciDeviceDescription

/-- `Parent` of each device. -/
abbrev Parents := ℕ → Option ℕ

def retrieveParentLoop (Bus : BYTE) : List (PciDeviceDescription × ℕ) → Except Fault (Option ℕ)
  | [] => .ok none
  | (d, i) :: rest => do
    assertThat d.IsBridge
    if d.deviceData.secondaryBusNumber = Bus then .ok (some i) else retrieveParentLoop Bus rest

def pciSystemRetrieveParentForDevice (BridgeList : List (PciDeviceDescription × ℕ)) (Bus : BYTE) :
    Except Fault (Option ℕ) := do
  assertThat (Bus ≠ 0)
  retrieveParentLoop Bus BridgeList

/-- The loop has come to the device at place `i`. -/
def establishLoop : List PciDeviceDescription → ℕ → List (PciDeviceDescription × ℕ) → Parents →
    Except Fault (List (PciDeviceDescription × ℕ) × Parents)
  | [], _, bridges, parents => .ok (bridges, parents)
  | d :: rest, i, bridges, parents => do
    let bridges := if d.IsBridge then bridges ++ [(d, i)] else bridges
    if d.deviceLocation.bus ≠ 0 then
      match ← pciSystemRetrieveParentForDevice bridges d.deviceLocation.bus with
      | some parent => establishLoop rest (i + 1) bridges (Function.update parents i (some parent))
      | none => .error .assertFailed
    else establishLoop rest (i + 1) bridges parents

/-- The entries of the list have been allocated with zeroes. -/
def pciSystemEstablishHierarchy (PciDeviceList : List PciDeviceDescription) :
    Except Fault (List (PciDeviceDescription × ℕ) × Parents) :=
  establishLoop PciDeviceList 0 [] fun _ => none

section InterruptLine

variable (devices : List PciDeviceDescription) (parents : Parents)

def IoApicPrtEntry.serves (e : IoApicPrtEntry) (d : PciDeviceDescription) : Bool :=
  e.deviceLocation.bus = d.deviceLocation.bus && e.deviceLocation.device = d.deviceLocation.device &&
    (e.deviceLocation.function = 0xFF || e.deviceLocation.function = d.deviceLocation.function) &&
    e.interruptPin = d.deviceData.interruptPin

def parentLoop : ℕ → Option ℕ → BYTE → Except Fault BYTE
  | 0, _, _ => .error .outOfFuel
  | _ + 1, none, accumulatedOffset => .ok accumulatedOffset
  | fuel + 1, some p, accumulatedOffset =>
    match devices[p]? with
    | none => .error .danglingAccess
    | some d =>
      parentLoop fuel (parents p) (if (parents p).isSome then
        BitVec.ofNat 8 ((accumulatedOffset.toNat + d.deviceLocation.function.toNat) % 4)
        else accumulatedOffset)

def ioApicGetInterruptLineForPciDevice (PrtEntries : List IoApicPrtEntry) (fuel : ℕ) (i : ℕ)
    (d : PciDeviceDescription) : Except Fault DWORD :=
  match PrtEntries.find? fun e => IoApicPrtEntry.serves e d with
  | some e => .ok e.ioApicLine
  | none => do
    let accumulatedOffset ← parentLoop devices parents fuel (parents i) d.deviceData.interruptPin
    .ok (0x10 + accumulatedOffset.setWidth 32)

end InterruptLine

/-- A root complex: its first bus, and its devices in the order in which they are enumerated. -/
structure RootComplex where
  firstBus : BYTE
  devices : List PciDeviceDescription

section Claims

variable (cs : List RootComplex) (devices : List PciDeviceDescription)

/-- The device is at the place in the list. -/
abbrev IsAt (i : ℕ) (d : PciDeviceDescription) : Prop := devices[i]? = some d

def allDevices : List PciDeviceDescription := cs.flatMap RootComplex.devices

def IsFirstBus (bus : BYTE) : Prop := ∃ c ∈ cs, c.firstBus = bus

/-- Each complex has a first bus of its own, its buses ascend, and each other bus has exactly one bridge. -/
structure Enumerated : Prop where
  firstBuses : (cs.map RootComplex.firstBus).Nodup
  first_le : ∀ c ∈ cs, ∀ d ∈ c.devices, c.firstBus ≤ d.deviceLocation.bus
  ascending : ∀ c ∈ cs, c.devices.Pairwise fun d e => d.deviceLocation.bus ≤ e.deviceLocation.bus
  bridge : ∀ d ∈ allDevices cs, ¬IsFirstBus cs d.deviceLocation.bus →
    ∃! j, ∃ b, IsAt (allDevices cs) j b ∧ b.LeadsTo d.deviceLocation.bus

/-- The devices of the first buses have no parent, and the parent of another is the bridge to its bus. -/
def ParentsRight (parents : Parents) : Prop := ∀ i d, IsAt (allDevices cs) i d →
  (IsFirstBus cs d.deviceLocation.bus → parents i = none) ∧
    (¬IsFirstBus cs d.deviceLocation.bus → ∃ j b, parents i = some j ∧ IsAt (allDevices cs) j b ∧
      b.LeadsTo d.deviceLocation.bus)

/-- The interrupt line of every device is found after finitely many steps. -/
def LinesFound (parents : Parents) : Prop := ∀ prtEntries i d, IsAt devices i d → ∃ fuel line,
  ioApicGetInterruptLineForPciDevice devices parents prtEntries fuel i d = .ok line

def IsForest : Prop :=
  (Enumerated cs → ∃ bridges parents, pciSystemEstablishHierarchy (allDevices cs) = .ok (bridges, parents) ∧
    ParentsRight cs parents) ∧
  ∀ bridges parents, pciSystemEstablishHierarchy (allDevices cs) = .ok (bridges, parents) →
    LinesFound (allDevices cs) parents

/-- No device that is not on bus 0 comes before all bridges to its bus. -/
def BridgesFirst : Prop := ∀ i d, IsAt devices i d →
  d.deviceLocation.bus ≠ 0 → ∃ j ≤ i, ∃ b, IsAt devices j b ∧ b.LeadsTo d.deviceLocation.bus

/-- A bridge to its own bus comes after another one. -/
def NoOwnBridge : Prop := ∀ i d, IsAt devices i d →
  d.deviceLocation.bus ≠ 0 → d.LeadsTo d.deviceLocation.bus →
  ∃ j < i, ∃ b, IsAt devices j b ∧ b.LeadsTo d.deviceLocation.bus

end Claims

/-! ### The parents that are found -/

section Parents

variable {devices : List PciDeviceDescription} {d b : PciDeviceDescription} {i j : ℕ} {bus : BYTE}

def bridgesOf (devices : List PciDeviceDescription) : List (PciDeviceDescription × ℕ) :=
  devices.zipIdx.filter fun p => p.1.IsBridge

theorem bridgesOf_append (devices : List PciDeviceDescription) (d : PciDeviceDescription) :
    bridgesOf (devices ++ [d]) =
      if d.IsBridge then bridgesOf devices ++ [(d, devices.length)] else bridgesOf devices := by
  unfold bridgesOf
  rw [List.zipIdx_append, List.filter_append]
  split_ifs with hd <;> simp [hd]

/-- The first bridge to a bus. -/
theorem find?_bridgesOf (devices : List PciDeviceDescription) (bus : BYTE) :
    ((bridgesOf devices).find? fun p => p.1.deviceData.secondaryBusNumber = bus).map Prod.snd =
      devices.findIdx? fun b => b.LeadsTo bus := by
  induction devices using List.reverseRecOn with
  | nil => rfl
  | append_singleton devices d ih =>
    rw [bridgesOf_append, List.findIdx?_append, ← ih]
    by_cases hd : d.IsBridge
    · rw [if_pos hd, List.find?_append]
      cases (bridgesOf devices).find? fun p => p.1.deviceData.secondaryBusNumber = bus with
      | some p => simp
      | none =>
        by_cases hbus : d.deviceData.secondaryBusNumber = bus <;>
          simp [PciDeviceDescription.LeadsTo, hd, hbus]
    · have hnone : [d].findIdx? (fun b => decide (b.LeadsTo bus)) = none := by
        simp [PciDeviceDescription.LeadsTo, hd]
      rw [if_neg hd, hnone]
      simp

theorem retrieveParentLoop_eq {bridges : List (PciDeviceDescription × ℕ)}
    (h : ∀ p ∈ bridges, p.1.IsBridge) : retrieveParentLoop bus bridges =
      .ok ((bridges.find? fun p => p.1.deviceData.secondaryBusNumber = bus).map Prod.snd) := by
  induction bridges with
  | nil => rfl
  | cons p bridges ih =>
    obtain ⟨d, i⟩ := p
    rw [retrieveParentLoop, assertThat_of (h _ List.mem_cons_self)]
    change (if _ then _ else _) = _
    by_cases hbus : d.deviceData.secondaryBusNumber = bus
    · rw [if_pos hbus, List.find?_cons_of_pos (by simpa using hbus)]
      rfl
    · rw [if_neg hbus, List.find?_cons_of_neg (by simpa using hbus)]
      exact ih fun p hp => h p (List.mem_cons_of_mem _ hp)

theorem pciSystemRetrieveParentForDevice_eq (hbus : bus ≠ 0) :
    pciSystemRetrieveParentForDevice (bridgesOf devices) bus =
      .ok (devices.findIdx? fun b => b.LeadsTo bus) := by
  have hbridges : ∀ p ∈ bridgesOf devices, p.1.IsBridge := fun p hp => by
    simpa using (List.mem_filter.mp hp).2
  unfold pciSystemRetrieveParentForDevice
  rw [assertThat_of hbus, ← find?_bridgesOf]
  exact retrieveParentLoop_eq hbridges

/-- The parent that a device is given: the first bridge to its bus, if it comes no later. -/
def parentOf (devices : List PciDeviceDescription) (i : ℕ) : Option ℕ :=
  devices[i]?.bind fun d => if d.deviceLocation.bus = 0 then none
    else (devices.take (i + 1)).findIdx? fun b => b.LeadsTo d.deviceLocation.bus

theorem parentOf_eq_some_iff (hd : IsAt devices i d) : parentOf devices i = some j ↔
    d.deviceLocation.bus ≠ 0 ∧ j ≤ i ∧ (∃ b, IsAt devices j b ∧ b.LeadsTo d.deviceLocation.bus) ∧
      ∀ k < j, ∀ b, IsAt devices k b → ¬b.LeadsTo d.deviceLocation.bus := by
  have hi := (List.getElem?_eq_some_iff.mp hd).1
  unfold parentOf
  rw [hd, Option.bind_some]
  by_cases hbus : d.deviceLocation.bus = 0
  · rw [if_pos hbus]
    exact iff_of_false (fun h => nomatch h) fun h => h.1 hbus
  rw [if_neg hbus, List.findIdx?_eq_some_iff_getElem]
  constructor
  · rintro ⟨hlt, hleads, hfirst⟩
    rw [List.length_take] at hlt
    refine ⟨hbus, by lia, ⟨devices[j], List.getElem?_eq_getElem _, by simpa using hleads⟩, fun k hk b hb => ?_⟩
    obtain ⟨hlen, rfl⟩ := List.getElem?_eq_some_iff.mp hb
    simpa using hfirst k hk
  · rintro ⟨-, hle, ⟨b, hb, hleads⟩, hfirst⟩
    obtain ⟨hlen, rfl⟩ := List.getElem?_eq_some_iff.mp hb
    refine ⟨by rw [List.length_take]; omega, by simpa using hleads, fun k hk => ?_⟩
    simpa using hfirst k hk _ (List.getElem?_eq_getElem (by omega))

theorem parentOf_le (h : parentOf devices i = some j) : j ≤ i ∧ j < devices.length := by
  obtain ⟨d, hd, -⟩ := Option.bind_eq_some_iff.mp h
  obtain ⟨-, hle, ⟨b, hb, -⟩, -⟩ := (parentOf_eq_some_iff hd).mp h
  exact ⟨hle, (List.getElem?_eq_some_iff.mp hb).1⟩

theorem bridgesFirst_iff : BridgesFirst devices ↔
    ∀ i d, IsAt devices i d → d.deviceLocation.bus ≠ 0 → (parentOf devices i).isSome = true := by
  refine forall_congr' fun i => forall_congr' fun d => forall_congr' fun hd => forall_congr' fun hbus => ?_
  constructor
  · rintro ⟨j, hle, b, hb, hleads⟩
    rw [Option.isSome_iff_exists]
    have hex : ∃ j, ∃ b, IsAt devices j b ∧ b.LeadsTo d.deviceLocation.bus := ⟨j, b, hb, hleads⟩
    classical
    exact ⟨Nat.find hex, (parentOf_eq_some_iff hd).mpr ⟨hbus, (Nat.find_min' hex ⟨b, hb, hleads⟩).trans hle,
      Nat.find_spec hex, fun k hk b hb hleads => Nat.find_min hex hk ⟨b, hb, hleads⟩⟩⟩
  · intro h
    obtain ⟨j, hj⟩ := Option.isSome_iff_exists.mp h
    obtain ⟨-, hle, hbridge, -⟩ := (parentOf_eq_some_iff hd).mp hj
    exact ⟨j, hle, hbridge⟩

/-- The parents of the first devices. -/
def parentsBefore (devices : List PciDeviceDescription) (n : ℕ) : Parents := fun i =>
  if i < n then parentOf devices i else none

/-- A device is given its parent, if it has one; on bus 0 it needs none. -/
theorem establishLoop_cons {pre rest : List PciDeviceDescription} (h : devices = pre ++ d :: rest) :
    establishLoop (d :: rest) pre.length (bridgesOf pre) (parentsBefore devices pre.length) =
      if d.deviceLocation.bus ≠ 0 ∧ parentOf devices pre.length = none then .error .assertFailed
      else establishLoop rest (pre ++ [d]).length (bridgesOf (pre ++ [d]))
        (parentsBefore devices (pre ++ [d]).length) := by
  have hd : IsAt devices pre.length d := by
    rw [IsAt, h, List.getElem?_append_right (le_refl _), Nat.sub_self]
    rfl
  have htake : devices.take (pre.length + 1) = pre ++ [d] := by
    rw [h, List.take_append]
    simp
  have hparents : parentsBefore devices (pre ++ [d]).length =
      Function.update (parentsBefore devices pre.length) pre.length (parentOf devices pre.length) := by
    funext i
    rw [Function.update_apply, List.length_append, List.length_singleton]
    unfold parentsBefore
    rcases Nat.lt_trichotomy i pre.length with hlt | rfl | hgt
    · rw [if_neg (Nat.ne_of_lt hlt), if_pos hlt, if_pos (by omega)]
    · rw [if_pos rfl, if_pos (Nat.lt_succ_self _)]
    · rw [if_neg (Nat.ne_of_gt hgt), if_neg (by omega), if_neg (by omega)]
  have hparent : parentOf devices pre.length = if d.deviceLocation.bus = 0 then none
      else (pre ++ [d]).findIdx? fun b => b.LeadsTo d.deviceLocation.bus := by
    unfold parentOf
    rw [hd, Option.bind_some, htake]
  rw [establishLoop, ← bridgesOf_append, hparents]
  by_cases hbus : d.deviceLocation.bus = 0
  · rw [if_neg (not_not.mpr hbus), if_neg fun hne => hne.1 hbus, hparent, if_pos hbus]
    have hsame : Function.update (parentsBefore devices pre.length) pre.length none =
        parentsBefore devices pre.length := by
      rw [Function.update_eq_self_iff]
      exact (if_neg (Nat.lt_irrefl _)).symm
    rw [hsame, List.length_append]
    rfl
  · rw [if_neg hbus] at hparent
    rw [if_pos hbus, pciSystemRetrieveParentForDevice_eq hbus, ← hparent]
    cases parentOf devices pre.length with
    | none =>
      rw [if_pos ⟨hbus, rfl⟩]
      rfl
    | some parent =>
      have hlen : (pre ++ [d]).length = pre.length + 1 := List.length_append
      rw [if_neg fun hne => nomatch hne.2]
      change establishLoop rest (pre.length + 1) _ _ = _
      rw [hlen]

theorem establishLoop_nil {pre : List PciDeviceDescription} (h : devices = pre) :
    establishLoop [] pre.length (bridgesOf pre) (parentsBefore devices pre.length) =
      .ok (bridgesOf devices, parentOf devices) := by
  have hparents : parentsBefore devices pre.length = parentOf devices := by
    funext i
    unfold parentsBefore
    split_ifs with hlt
    · rfl
    · have hnone : devices[i]? = none := List.getElem?_eq_none (by rw [h]; omega)
      rw [parentOf, hnone]
      rfl
  rw [hparents, ← h]
  rfl

/-- The devices after the first ones. -/
theorem establishLoop_eq {pre rest : List PciDeviceDescription} (h : devices = pre ++ rest) :
    establishLoop rest pre.length (bridgesOf pre) (parentsBefore devices pre.length) =
      .ok (bridgesOf devices, parentOf devices) ∧
        (∀ i d, pre.length ≤ i → IsAt devices i d → d.deviceLocation.bus ≠ 0 → parentOf devices i ≠ none) ∨
    establishLoop rest pre.length (bridgesOf pre) (parentsBefore devices pre.length) =
      .error .assertFailed ∧
        ∃ i d, IsAt devices i d ∧ d.deviceLocation.bus ≠ 0 ∧ parentOf devices i = none := by
  induction rest generalizing pre with
  | nil =>
    rw [List.append_nil] at h
    refine Or.inl ⟨establishLoop_nil h, fun i d hle hd => ?_⟩
    have hlt := (List.getElem?_eq_some_iff.mp hd).1
    rw [h] at hlt
    omega
  | cons d rest ih =>
    have hd : IsAt devices pre.length d := by
      rw [IsAt, h, List.getElem?_append_right (le_refl _), Nat.sub_self]
      rfl
    rw [establishLoop_cons h]
    by_cases hstop : d.deviceLocation.bus ≠ 0 ∧ parentOf devices pre.length = none
    · rw [if_pos hstop]
      exact Or.inr ⟨rfl, _, d, hd, hstop⟩
    rw [if_neg hstop]
    rcases @ih (pre ++ [d]) (by rw [h, List.append_assoc]; rfl) with ⟨hrun, hall⟩ | ⟨hrun, hnone⟩
    · refine Or.inl ⟨hrun, fun i e hle he hbus hparent => ?_⟩
      rcases Nat.eq_or_lt_of_le hle with rfl | hlt
      · obtain rfl := Option.some.inj (hd.symm.trans he)
        exact hstop ⟨hbus, hparent⟩
      · exact hall i e (by rw [List.length_append]; exact hlt) he hbus hparent
    · exact Or.inr ⟨hrun, hnone⟩

theorem pciSystemEstablishHierarchy_ok (h : BridgesFirst devices) :
    pciSystemEstablishHierarchy devices = .ok (bridgesOf devices, parentOf devices) := by
  rcases @establishLoop_eq devices [] devices rfl with ⟨hrun, -⟩ | ⟨-, i, d, hd, hbus, hnone⟩
  · exact hrun
  · have hsome := bridgesFirst_iff.mp h i d hd hbus
    rw [hnone] at hsome
    cases hsome

/-- If the loop ends, all devices that need a parent have been given one. -/
theorem bridgesFirst_of_ok {bridges : List (PciDeviceDescription × ℕ)} {parents : Parents}
    (h : pciSystemEstablishHierarchy devices = .ok (bridges, parents)) :
    BridgesFirst devices ∧ parents = parentOf devices := by
  rcases @establishLoop_eq devices [] devices rfl with ⟨hrun, hall⟩ | ⟨hrun, -⟩
  · obtain ⟨-, rfl⟩ := Prod.mk.inj (Except.ok.inj (h.symm.trans hrun))
    refine ⟨bridgesFirst_iff.mpr fun i d hd hbus => ?_, rfl⟩
    exact Option.isSome_iff_ne_none.mpr (hall i d (Nat.zero_le _) hd hbus)
  · cases h.symm.trans hrun

end Parents

/-! ### The walk along the parents -/

section Walking

variable {devices : List PciDeviceDescription} {parents : Parents}

theorem parentLoop_returns_iff (hin : ∀ i p, parents i = some p → p < devices.length) {fuel i : ℕ} {acc : BYTE} :
    (∃ r, parentLoop devices parents fuel (parents i) acc = .ok r) ↔ Walk.after parents fuel i = none := by
  induction fuel generalizing i acc with
  | zero => exact iff_of_false (fun ⟨_, h⟩ => nomatch h) fun h => nomatch h
  | succ fuel ih =>
    rw [Walk.after]
    cases hp : parents i with
    | none => exact iff_of_true ⟨acc, rfl⟩ rfl
    | some p =>
      rw [Option.bind_some, parentLoop, List.getElem?_eq_getElem (hin i p hp)]
      exact ih

theorem linesFound_iff (hin : ∀ i p, parents i = some p → p < devices.length) :
    LinesFound devices parents ↔ ∀ i < devices.length, Walk.Ends parents i := by
  constructor
  · intro h i hi
    obtain ⟨fuel, line, hrun⟩ := h [] i devices[i] (List.getElem?_eq_getElem hi)
    obtain ⟨r, hr, -⟩ := bind_eq_ok.mp hrun
    exact ⟨fuel, (parentLoop_returns_iff hin).mp ⟨r, hr⟩⟩
  · intro h prtEntries i d hd
    obtain ⟨fuel, hend⟩ := h i (List.getElem?_eq_some_iff.mp hd).1
    unfold ioApicGetInterruptLineForPciDevice
    cases prtEntries.find? fun e => IoApicPrtEntry.serves e d with
    | some e => exact ⟨fuel, _, rfl⟩
    | none =>
      obtain ⟨r, hr⟩ : ∃ r, parentLoop devices parents fuel (parents i) d.deviceData.interruptPin = .ok r :=
        (parentLoop_returns_iff hin).mpr hend
      exact ⟨fuel, _, bind_eq_ok.mpr ⟨r, hr, rfl⟩⟩

/-- Parents come no later in the list, so the walk ends unless it comes to a device that is its own parent. -/
theorem ends_parentOf_iff : (∀ i < devices.length, Walk.Ends (parentOf devices) i) ↔
    ∀ i, parentOf devices i ≠ some i := by
  constructor
  · intro h i hi
    exact Walk.not_neverRepeats_of_loop hi (h i (parentOf_le hi).2).neverRepeats
  · intro h i _
    induction i using Nat.strongRecOn with
    | ind i ih =>
      cases hp : parentOf devices i with
      | none => exact Walk.ends_of_none hp
      | some j =>
        obtain ⟨hle, hlt⟩ := parentOf_le hp
        have hne : j ≠ i := fun heq => h i (heq ▸ hp)
        exact (Walk.ends_iff_of_some hp).mpr (ih j (lt_of_le_of_ne hle hne) hlt)

theorem noOwnBridge_iff : NoOwnBridge devices ↔ ∀ i, parentOf devices i ≠ some i := by
  constructor
  · intro h i hi
    obtain ⟨d, hd, -⟩ := Option.bind_eq_some_iff.mp hi
    obtain ⟨hbus, -, ⟨b, hb, hleads⟩, hfirst⟩ := (parentOf_eq_some_iff hd).mp hi
    obtain rfl := Option.some.inj (hd.symm.trans hb)
    obtain ⟨j, hj, c, hc, hother⟩ := h i d hd hbus hleads
    exact hfirst j hj c hc hother
  · intro h i d hd hbus hleads
    by_contra hnone
    push Not at hnone
    exact h i ((parentOf_eq_some_iff hd).mpr ⟨hbus, le_refl i, ⟨d, hd, hleads⟩, hnone⟩)

end Walking

/-! ### The hierarchy -/

section Hierarchy

variable {cs : List RootComplex}

theorem isFirstBus_zero (h : Enumerated cs) {d : PciDeviceDescription} (hd : d ∈ allDevices cs)
    (hbus : d.deviceLocation.bus = 0) : IsFirstBus cs d.deviceLocation.bus := by
  obtain ⟨c, hc, hmem⟩ := List.mem_flatMap.mp hd
  have hle := h.first_le c hc d hmem
  rw [hbus, BitVec.le_def] at hle
  refine ⟨c, hc, BitVec.eq_of_toNat_eq ?_⟩
  rw [hbus]
  exact Nat.le_zero.mp hle

/-- On an enumerated list the parents are right exactly if the only first bus with devices is bus 0 and each
bridge comes before the devices of its bus. -/
theorem parentsRight_iff (h : Enumerated cs) :
    (∃ bridges parents, pciSystemEstablishHierarchy (allDevices cs) = .ok (bridges, parents) ∧
      ParentsRight cs parents) ↔
    (∀ d ∈ allDevices cs, IsFirstBus cs d.deviceLocation.bus → d.deviceLocation.bus = 0) ∧
      ∀ i d j b, IsAt (allDevices cs) i d → ¬IsFirstBus cs d.deviceLocation.bus → IsAt (allDevices cs) j b →
        b.LeadsTo d.deviceLocation.bus → j ≤ i := by
  constructor
  · rintro ⟨bridges, parents, hrun, hright⟩
    obtain ⟨hfirst, rfl⟩ := bridgesFirst_of_ok hrun
    constructor
    · intro d hd hbus
      by_contra hne
      obtain ⟨i, hi⟩ := List.mem_iff_getElem?.mp hd
      have hsome := bridgesFirst_iff.mp hfirst i d hi hne
      rw [(hright i d hi).1 hbus] at hsome
      cases hsome
    · intro i d j b hd hbus hb hleads
      obtain ⟨k, c, hk, hc, hother⟩ := (hright i d hd).2 hbus
      obtain ⟨_, -, hunique⟩ := h.bridge d (List.mem_iff_getElem?.mpr ⟨i, hd⟩) hbus
      obtain rfl : j = k := (hunique j ⟨b, hb, hleads⟩).trans (hunique k ⟨c, hc, hother⟩).symm
      exact (parentOf_le hk).1
  · rintro ⟨hzero, hbefore⟩
    have hfirst : BridgesFirst (allDevices cs) := by
      intro i d hd hbus
      have hmem : d ∈ allDevices cs := List.mem_iff_getElem?.mpr ⟨i, hd⟩
      have hother : ¬IsFirstBus cs d.deviceLocation.bus := fun hf => hbus (hzero d hmem hf)
      obtain ⟨j, ⟨b, hb, hleads⟩, -⟩ := h.bridge d hmem hother
      exact ⟨j, hbefore i d j b hd hother hb hleads, b, hb, hleads⟩
    refine ⟨_, _, pciSystemEstablishHierarchy_ok hfirst, fun i d hd => ⟨fun hf => ?_, fun hother => ?_⟩⟩
    · rw [parentOf, hd, Option.bind_some, if_pos (hzero d (List.mem_iff_getElem?.mpr ⟨i, hd⟩) hf)]
    · have hbus : d.deviceLocation.bus ≠ 0 := fun hz =>
        hother (isFirstBus_zero h (List.mem_iff_getElem?.mpr ⟨i, hd⟩) hz)
      obtain ⟨j, hj⟩ := Option.isSome_iff_exists.mp (bridgesFirst_iff.mp hfirst i d hd hbus)
      obtain ⟨-, -, ⟨b, hb, hleads⟩, -⟩ := (parentOf_eq_some_iff hd).mp hj
      exact ⟨j, b, hj, hb, hleads⟩

/-- The hierarchy is a forest with the right parents exactly if no root complex has devices on a first bus
other than 0, each bridge comes before the devices of its bus, and no bridge leads to its own bus. -/
theorem isForest_iff : IsForest cs ↔
    (Enumerated cs →
      (∀ d ∈ allDevices cs, IsFirstBus cs d.deviceLocation.bus → d.deviceLocation.bus = 0) ∧
      ∀ i d j b, IsAt (allDevices cs) i d → ¬IsFirstBus cs d.deviceLocation.bus → IsAt (allDevices cs) j b →
        b.LeadsTo d.deviceLocation.bus → j ≤ i) ∧
    (BridgesFirst (allDevices cs) → NoOwnBridge (allDevices cs)) := by
  refine and_congr (forall_congr' parentsRight_iff) ?_
  have hlines : LinesFound (allDevices cs) (parentOf (allDevices cs)) ↔ NoOwnBridge (allDevices cs) :=
    (linesFound_iff fun i p hp => (parentOf_le hp).2).trans (ends_parentOf_iff.trans noOwnBridge_iff.symm)
  constructor
  · intro h hfirst
    exact hlines.mp (h _ _ (pciSystemEstablishHierarchy_ok hfirst))
  · intro h bridges parents hrun
    obtain ⟨hfirst, rfl⟩ := bridgesFirst_of_ok hrun
    exact hlines.mpr (h hfirst)

/-- A device without functions of a bridge. -/
def plainDevice (bus : BYTE) : PciDeviceDescription := ⟨⟨bus, 0, 0⟩, fun _ => 0⟩

/-- Two host bridges: the buses of the second one start at 128. -/
def twoComplexes : List RootComplex := [⟨0, [plainDevice 0]⟩, ⟨128, [plainDevice 128]⟩]

theorem enumerated_twoComplexes : Enumerated twoComplexes where
  firstBuses := by decide
  first_le := by
    intro c hc d hd
    rcases List.mem_cons.mp hc with rfl | hc
    · rw [List.mem_singleton.mp hd]
      decide
    · rw [List.mem_singleton.mp hc] at hd ⊢
      rw [List.mem_singleton.mp hd]
      decide
  ascending := by
    intro c hc
    rcases List.mem_cons.mp hc with rfl | hc
    · exact List.pairwise_singleton _ _
    · rw [List.mem_singleton.mp hc]
      exact List.pairwise_singleton _ _
  bridge := by
    intro d hd hother
    refine absurd ?_ hother
    rcases List.mem_cons.mp hd with rfl | hd
    · exact ⟨_, List.mem_cons_self, rfl⟩
    · rw [List.mem_singleton.mp hd]
      exact ⟨_, List.mem_cons_of_mem _ List.mem_cons_self, rfl⟩

/-- The device of the second one has no bridge, and `NOT_REACHED` is reached. -/
theorem not_isForest : ¬∀ cs, IsForest cs := by
  intro h
  obtain ⟨bridges, parents, hrun, -⟩ := (h twoComplexes).1 enumerated_twoComplexes
  have hstop : pciSystemEstablishHierarchy (allDevices twoComplexes) = .error .assertFailed := rfl
  cases hstop.symm.trans hrun

end Hierarchy

end HAL9000.Io
