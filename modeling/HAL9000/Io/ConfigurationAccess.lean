import HAL9000.Io.PciExpress
import Mathlib.Data.BitVec

/-! Accesses of 8, 16, 32 and 64 bits to configuration space (`pci_system.c`). They are made of aligned
accesses of 32 bits. -/
namespace HAL9000.Io

open Interrupts (PciDeviceLocation)

/-- What the two functions return; the first three are codes of ACPI. -/
inductive AccessStatus
  | aeOk
  | aeError
  | aeBadParameter
  | invalidParameter3
  deriving DecidableEq, Repr

/-- `m_pciSystemData`, and the bytes of the configuration space of each device. -/
structure ConfigurationSpace where
  pciExpressSupport : Bool
  rootComplexes : List PciRootComplex
  bytes : PciDeviceLocation → ℕ → BYTE

/-- The least significant byte is at the lowest address. -/
def dwordAt (m : ℕ → BYTE) (r : ℕ) : DWORD := m (r + 3) ++ m (r + 2) ++ m (r + 1) ++ m r

def storeDword (m : ℕ → BYTE) (r : ℕ) (value : DWORD) : ℕ → BYTE := fun a =>
  if r ≤ a ∧ a < r + 4 then value.extractLsb' (8 * (a - r)) 8 else m a

def addressOffset (addr alig : QWORD) : QWORD := addr &&& (alig - 1)

namespace ConfigurationSpace

variable (s : ConfigurationSpace) (DeviceLocation : PciDeviceLocation)

/-- The check that both functions make; the offset of an access to plain memory. -/
def register (Register : WORD) : Except Fault (Except STATUS ℕ) := do
  assertThat (isAddressAligned (Register.setWidth 64) 4)
  if s.pciExpressSupport then
    if Register.toNat ≥ predefinedPciExpressDeviceSpaceSize then
      .ok (.error statusDeviceSpaceRangeExceeded)
    else match s.rootComplexes.find? fun rc => rc.Covers DeviceLocation with
      | none => .ok (.error statusDeviceNotConnected)
      | some _ => .ok (.ok Register.toNat)
  else if Register.toNat ≥ predefinedPciDeviceSpaceSize then .ok (.error statusDeviceSpaceRangeExceeded)
  else .ok (.ok (Register.setWidth 8).toNat)

/-- `_PciSystemReadConfigurationSpace`. -/
def readDword (Register : WORD) : Except Fault (Except STATUS DWORD) := do
  match ← s.register DeviceLocation Register with
  | .error status => .ok (.error status)
  | .ok r => .ok (.ok (dwordAt (s.bytes DeviceLocation) r))

/-- `_PciSystemWriteConfigurationSpace`. -/
def writeDword (Register : WORD) (Value : DWORD) : Except Fault (Except STATUS ConfigurationSpace) := do
  match ← s.register DeviceLocation Register with
  | .error status => .ok (.error status)
  | .ok r => .ok (.ok { s with
      bytes := Function.update s.bytes DeviceLocation (storeDword (s.bytes DeviceLocation) r Value) })

/-- The value is there if the status is `AE_OK`. -/
def pciSystemReadConfigurationSpaceGeneric (Register : WORD) (Width : BYTE) :
    Except Fault (AccessStatus × Option QWORD) := do
  if ¬isAddressAligned (Register.setWidth 64) (Width / 8 |>.setWidth 64) then
    return (.invalidParameter3, none)
  match ← s.readDword DeviceLocation ((alignAddressLower (Register.setWidth 64) 4).setWidth 16) with
  | .error _ => return (.aeError, none)
  | .ok value =>
    let value := value >>> (addressOffset (Register.setWidth 64) 4 * 8)
    if Width = 8 then return (.aeOk, some ((value &&& 0xFF).setWidth 64))
    else if Width = 16 then return (.aeOk, some ((value &&& 0xFFFF).setWidth 64))
    else if Width = 32 then return (.aeOk, some ((value &&& 0xFFFFFFFF).setWidth 64))
    else if Width = 64 then
      match ← s.readDword DeviceLocation (Register + 4) with
      | .error _ => return (.aeError, none)
      | .ok valueHigh => return (.aeOk, some (valueHigh.setWidth 64 <<< 32 ||| value.setWidth 64))
    else return (.aeBadParameter, none)

/-- The value that is written to the aligned register. -/
def valueToWrite (initialValue : DWORD) (offsetInRegisterBits Width : BYTE) (Value : QWORD) : DWORD :=
  if Width = 8 then (initialValue &&& ~~~((0xFF : DWORD) <<< offsetInRegisterBits)) |||
    ((Value &&& 0xFF) <<< offsetInRegisterBits).setWidth 32
  else if Width = 16 then (initialValue &&& ~~~((0xFFFF : DWORD) <<< offsetInRegisterBits)) |||
    ((Value &&& 0xFFFF) <<< offsetInRegisterBits).setWidth 32
  else if Width = 32 ∨ Width = 64 then (Value &&& 0xFFFFFFFF).setWidth 32
  else 0

def pciSystemWriteConfigurationSpaceGeneric (Register : WORD) (Width : BYTE) (Value : QWORD) :
    Except Fault (AccessStatus × ConfigurationSpace) := do
  if ¬isAddressAligned (Register.setWidth 64) (Width / 8 |>.setWidth 64) then
    return (.invalidParameter3, s)
  let alignedRegister : DWORD := (alignAddressLower (Register.setWidth 64) 4).setWidth 32
  assertThat (alignedRegister ≤ 0xFFFF)
  let offsetInRegisterBits : BYTE := ((Register.setWidth 32 - alignedRegister) * 8).setWidth 8
  let initialValue ← if Width < 32 then s.readDword DeviceLocation (alignedRegister.setWidth 16)
    else .ok (.ok 0)
  match initialValue with
  | .error _ => return (.aeError, s)
  | .ok initialValue =>
    match ← s.writeDword DeviceLocation (alignedRegister.setWidth 16)
      (valueToWrite initialValue offsetInRegisterBits Width Value) with
    | .error _ => return (.aeError, s)
    | .ok s =>
      if Width = 64 then
        match ← s.writeDword DeviceLocation (alignedRegister.setWidth 16 + 4) ((Value >>> 32).setWidth 32) with
        | .error _ => return (.aeError, s)
        | .ok s => return (.aeOk, s)
      else return (.aeOk, s)

end ConfigurationSpace

/-! ### Registers of plain memory -/

/-- Bit `k` of a memory. -/
def bitAt (m : ℕ → BYTE) (k : ℕ) : Bool := (m (k / 8)).getLsbD (k % 8)

/-- The number is what the bits from an offset in bytes on spell. -/
def Spells (m : ℕ → BYTE) (r width : ℕ) (v : QWORD) : Prop := ∀ i, v.getLsbD i =
  (decide (i < width) && bitAt m (8 * r + i))

/-- Exactly the bits from an offset in bytes on are replaced. -/
def Replaces (m : ℕ → BYTE) (r width : ℕ) (v : QWORD) (m' : ℕ → BYTE) : Prop := ∀ k, bitAt m' k =
  if 8 * r ≤ k ∧ k < 8 * r + width then v.getLsbD (k - 8 * r) else bitAt m k

section Memory

variable {m : ℕ → BYTE} {r : ℕ}

theorem getLsbD_dwordAt {i : ℕ} (hi : i < 32) : (dwordAt m r).getLsbD i = bitAt m (8 * r + i) := by
  have hdiv : (8 * r + i) / 8 = r + i / 8 := by lia
  have hmod : (8 * r + i) % 8 = i % 8 := by lia
  unfold dwordAt bitAt
  rw [hdiv, hmod]
  simp only [BitVec.getLsbD_append]
  have hcases : i / 8 = 0 ∨ i / 8 = 1 ∨ i / 8 = 2 ∨ i / 8 = 3 := by lia
  rcases hcases with h | h | h | h
  · rw [h, if_pos (by lia), Nat.add_zero, Nat.mod_eq_of_lt (by omega)]
  · rw [h, if_neg (by lia), if_pos (by lia)]
    congr 1
    lia
  · rw [h, if_neg (by lia), if_neg (by lia), if_pos (by lia)]
    congr 1
    lia
  · rw [h, if_neg (by lia), if_neg (by lia), if_neg (by lia)]
    congr 1
    lia

theorem bitAt_storeDword (value : DWORD) (k : ℕ) : bitAt (storeDword m r value) k =
    if 8 * r ≤ k ∧ k < 8 * r + 32 then value.getLsbD (k - 8 * r) else bitAt m k := by
  unfold bitAt storeDword
  by_cases h : r ≤ k / 8 ∧ k / 8 < r + 4
  · rw [if_pos h, if_pos (by lia), BitVec.getLsbD_extractLsb', decide_eq_true (by omega), Bool.true_and]
    congr 1
    lia
  · rw [if_neg h, if_neg (by lia)]

/-- The bits of a field of a word are replaced. -/
theorem getLsbD_merge {width off : ℕ} {initial : DWORD} {value : QWORD} {i : ℕ} (hi : i < 32) :
    ((initial &&& ~~~(BitVec.ofNat 32 (2 ^ width - 1) <<< off)) |||
      ((value &&& BitVec.ofNat 64 (2 ^ width - 1)) <<< off).setWidth 32).getLsbD i =
        if off ≤ i ∧ i < off + width then value.getLsbD (i - off) else initial.getLsbD i := by
  simp only [BitVec.getLsbD_or, BitVec.getLsbD_and, BitVec.getLsbD_not, BitVec.getLsbD_shiftLeft,
    BitVec.getLsbD_setWidth, BitVec.getLsbD_ofNat, Nat.testBit_two_pow_sub_one]
  by_cases h : off ≤ i ∧ i < off + width
  · rw [if_pos h]
    simp [hi, show i < 64 by omega, show i - off < 32 by omega, show i - off < 64 by omega,
      show ¬i < off by omega, show i - off < width by omega]
  · rw [if_neg h]
    by_cases hlow : i < off
    · simp [hi, hlow]
    · simp [hi, show ¬i - off < width by omega]

theorem getLsbD_low {width : ℕ} {value : DWORD} {i : ℕ} (hwidth : width ≤ 32) :
    ((value &&& BitVec.ofNat 32 (2 ^ width - 1)).setWidth 64).getLsbD i =
      (decide (i < width) && value.getLsbD i) := by
  simp only [BitVec.getLsbD_and, BitVec.getLsbD_setWidth, BitVec.getLsbD_ofNat, Nat.testBit_two_pow_sub_one]
  by_cases h : i < width
  · simp [h, show i < 64 by omega, show i < 32 by omega]
  · simp [h]

theorem Spells.eq {m : ℕ → BYTE} {r width : ℕ} {v w : QWORD} (hv : Spells m r width v)
    (hw : Spells m r width w) : v = w := by
  apply BitVec.eq_of_getLsbD_eq
  intro i _
  rw [hv i, hw i]

theorem eq_of_bitAt {m m' : ℕ → BYTE} (h : ∀ k, bitAt m k = bitAt m' k) : m = m' := by
  funext a
  apply BitVec.eq_of_getLsbD_eq
  intro i hi
  have hbit := h (8 * a + i)
  unfold bitAt at hbit
  rwa [show (8 * a + i) / 8 = a by lia, show (8 * a + i) % 8 = i by lia] at hbit

end Memory

namespace ConfigurationSpace

/-- The size of the configuration space that can be accessed. -/
def spaceSize (s : ConfigurationSpace) (loc : PciDeviceLocation) : ℕ :=
  if s.pciExpressSupport then
    if (s.rootComplexes.find? fun rc => rc.Covers loc).isSome then predefinedPciExpressDeviceSpaceSize else 0
  else predefinedPciDeviceSpaceSize

def withBytes (s : ConfigurationSpace) (loc : PciDeviceLocation) (m : ℕ → BYTE) : ConfigurationSpace :=
  { s with bytes := Function.update s.bytes loc m }

section Registers

variable {s : ConfigurationSpace} {loc : PciDeviceLocation} {Register : WORD}

theorem spaceSize_dvd (s : ConfigurationSpace) (loc : PciDeviceLocation) : 8 ∣ s.spaceSize loc := by
  unfold spaceSize
  split_ifs <;> decide

theorem withBytes_bytes (m : ℕ → BYTE) : (s.withBytes loc m).bytes loc = m := Function.update_self ..

theorem withBytes_withBytes (m m' : ℕ → BYTE) : (s.withBytes loc m).withBytes loc m' = s.withBytes loc m' := by
  unfold withBytes
  simp

theorem isAddressAligned_four (halign : 4 ∣ Register.toNat) : isAddressAligned (Register.setWidth 64) 4 := by
  rw [isAddressAligned_iff (k := 2) rfl, BitVec.toNat_setWidth]
  have hlt := Register.isLt
  rw [Nat.mod_eq_of_lt (by lia)]
  exact halign

theorem register_ok (halign : 4 ∣ Register.toNat) (h : Register.toNat < s.spaceSize loc) :
    s.register loc Register = .ok (.ok Register.toNat) := by
  unfold spaceSize at h
  unfold register
  rw [assertThat_of (isAddressAligned_four halign)]
  simp only [bind, Except.bind]
  by_cases hexpress : s.pciExpressSupport = true
  · rw [if_pos hexpress] at h ⊢
    cases hfind : s.rootComplexes.find? fun rc => rc.Covers loc with
    | none =>
      rw [hfind] at h
      exact absurd h (by simp)
    | some rc =>
      rw [hfind] at h
      change Register.toNat < predefinedPciExpressDeviceSpaceSize at h
      rw [if_neg (by omega)]
  · rw [if_neg hexpress] at h ⊢
    have hsize : predefinedPciDeviceSpaceSize = 2 ^ 8 := rfl
    rw [if_neg (by omega), BitVec.toNat_setWidth, Nat.mod_eq_of_lt (by lia)]

theorem register_refused (halign : 4 ∣ Register.toNat) (h : s.spaceSize loc ≤ Register.toNat) :
    ∃ status, s.register loc Register = .ok (.error status) := by
  unfold spaceSize at h
  unfold register
  rw [assertThat_of (isAddressAligned_four halign)]
  simp only [bind, Except.bind]
  by_cases hexpress : s.pciExpressSupport = true
  · rw [if_pos hexpress] at h ⊢
    by_cases hlarge : Register.toNat ≥ predefinedPciExpressDeviceSpaceSize
    · rw [if_pos hlarge]
      exact ⟨_, rfl⟩
    rw [if_neg hlarge]
    cases hfind : s.rootComplexes.find? fun rc => rc.Covers loc with
    | none => exact ⟨_, rfl⟩
    | some rc =>
      rw [hfind] at h
      exact absurd h hlarge
  · rw [if_neg hexpress] at h ⊢
    rw [if_pos h]
    exact ⟨_, rfl⟩

theorem readDword_ok (halign : 4 ∣ Register.toNat) (h : Register.toNat < s.spaceSize loc) :
    s.readDword loc Register = .ok (.ok (dwordAt (s.bytes loc) Register.toNat)) := by
  rw [readDword, register_ok halign h]
  rfl

theorem readDword_refused (halign : 4 ∣ Register.toNat) (h : s.spaceSize loc ≤ Register.toNat) :
    ∃ status, s.readDword loc Register = .ok (.error status) := by
  obtain ⟨status, hrun⟩ := register_refused halign h
  rw [readDword, hrun]
  exact ⟨status, rfl⟩

theorem writeDword_ok (halign : 4 ∣ Register.toNat) (h : Register.toNat < s.spaceSize loc) (Value : DWORD) :
    s.writeDword loc Register Value =
      .ok (.ok (s.withBytes loc (storeDword (s.bytes loc) Register.toNat Value))) := by
  rw [writeDword, register_ok halign h]
  rfl

theorem writeDword_refused (halign : 4 ∣ Register.toNat) (h : s.spaceSize loc ≤ Register.toNat)
    (Value : DWORD) : ∃ status, s.writeDword loc Register Value = .ok (.error status) := by
  obtain ⟨status, hrun⟩ := register_refused halign h
  rw [writeDword, hrun]
  exact ⟨status, rfl⟩

end Registers

section Offsets

variable {Register : WORD}

theorem alignAddressLower_four :
    (alignAddressLower (Register.setWidth 64) 4).toNat = Register.toNat - Register.toNat % 4 := by
  rw [alignAddressLower_toNat (k := 2) rfl, BitVec.toNat_setWidth_of_le (by omega)]
  rfl

theorem alignedRegister_toNat : ((alignAddressLower (Register.setWidth 64) 4).setWidth 16).toNat =
    Register.toNat - Register.toNat % 4 := by
  have hlt := Register.isLt
  rw [BitVec.toNat_setWidth, alignAddressLower_four, Nat.mod_eq_of_lt (by lia)]

theorem alignedRegister_toNat' : ((alignAddressLower (Register.setWidth 64) 4).setWidth 32).toNat =
    Register.toNat - Register.toNat % 4 := by
  have hlt := Register.isLt
  rw [BitVec.toNat_setWidth, alignAddressLower_four, Nat.mod_eq_of_lt (by lia)]

theorem addressOffset_toNat :
    (addressOffset (Register.setWidth 64) 4 * 8).toNat = 8 * (Register.toNat % 4) := by
  have hoffset : (addressOffset (Register.setWidth 64) 4).toNat = Register.toNat % 4 := by
    rw [addressOffset, BitVec.toNat_and, BitVec.toNat_setWidth_of_le (by omega)]
    exact Nat.and_two_pow_sub_one_eq_mod _ 2
  rw [BitVec.toNat_mul, hoffset]
  change Register.toNat % 4 * 8 % 2 ^ 64 = _
  lia

theorem offsetInRegisterBits_toNat :
    (((Register.setWidth 32 - (alignAddressLower (Register.setWidth 64) 4).setWidth 32) * 8).setWidth 8).toNat =
      8 * (Register.toNat % 4) := by
  have hlt := Register.isLt
  rw [BitVec.toNat_setWidth, BitVec.toNat_mul, BitVec.toNat_sub, alignedRegister_toNat',
    BitVec.toNat_setWidth_of_le (by omega)]
  change (2 ^ 32 - (Register.toNat - Register.toNat % 4) + Register.toNat) % 2 ^ 32 * 8 % 2 ^ 32 % 2 ^ 8 = _
  lia

end Offsets

/-! ### What the two functions do -/

def IsWidth (Width : BYTE) : Prop := Width = 8 ∨ Width = 16 ∨ Width = 32 ∨ Width = 64

/-- The register is aligned for its width and lies in the space of the device. -/
def Accessible (s : ConfigurationSpace) (loc : PciDeviceLocation) (Register : WORD) (Width : BYTE) : Prop :=
  Width.toNat / 8 ∣ Register.toNat ∧ Register.toNat < s.spaceSize loc

section Accesses

variable {s : ConfigurationSpace} {loc : PciDeviceLocation} {Register : WORD} {Width : BYTE}

theorem isAddressAligned_width (hwidth : IsWidth Width) :
    isAddressAligned (Register.setWidth 64) (Width / 8 |>.setWidth 64) = true ↔
      Width.toNat / 8 ∣ Register.toNat := by
  have hvalue : Register.toNat = (Register.setWidth 64).toNat := by
    rw [BitVec.toNat_setWidth_of_le (by omega)]
  rw [hvalue]
  rcases hwidth with rfl | rfl | rfl | rfl
  · exact isAddressAligned_iff (k := 0) rfl
  · exact isAddressAligned_iff (k := 1) rfl
  · exact isAddressAligned_iff (k := 2) rfl
  · exact isAddressAligned_iff (k := 3) rfl

/-- A register of at most 32 bits lies inside its aligned word, one of 64 bits starts at it. -/
theorem inside_word (hwidth : IsWidth Width) (haligned : Width.toNat / 8 ∣ Register.toNat) :
    (Width.toNat ≤ 32 → 8 * (Register.toNat % 4) + Width.toNat ≤ 32) ∧
      (32 ≤ Width.toNat → Register.toNat % 4 = 0) ∧ (Width = 64 → Register.toNat % 8 = 0) := by
  rcases hwidth with rfl | rfl | rfl | rfl
  · refine ⟨fun _ => ?_, fun h => absurd h (by decide), fun h => absurd h (by decide)⟩
    change 8 * (Register.toNat % 4) + 8 ≤ 32
    lia
  · change 2 ∣ Register.toNat at haligned
    refine ⟨fun _ => ?_, fun h => absurd h (by decide), fun h => absurd h (by decide)⟩
    change 8 * (Register.toNat % 4) + 16 ≤ 32
    lia
  · change 4 ∣ Register.toNat at haligned
    refine ⟨fun _ => ?_, fun _ => by omega, fun h => absurd h (by decide)⟩
    change 8 * (Register.toNat % 4) + 32 ≤ 32
    lia
  · change 8 ∣ Register.toNat at haligned
    exact ⟨fun h => absurd h (by decide), fun _ => by lia, fun _ => by omega⟩

theorem aligned_dvd (Register : WORD) :
    4 ∣ ((alignAddressLower (Register.setWidth 64) 4).setWidth 16).toNat := by
  rw [alignedRegister_toNat]
  lia

theorem aligned_lt (h : Register.toNat < s.spaceSize loc) :
    ((alignAddressLower (Register.setWidth 64) 4).setWidth 16).toNat < s.spaceSize loc := by
  rw [alignedRegister_toNat]
  lia

theorem le_aligned (h : s.spaceSize loc ≤ Register.toNat) :
    s.spaceSize loc ≤ ((alignAddressLower (Register.setWidth 64) 4).setWidth 16).toNat := by
  have hdvd := spaceSize_dvd s loc
  rw [alignedRegister_toNat]
  lia

/-- The second half of 64 bits. -/
theorem secondHalf (haligned : Register.toNat % 8 = 0) (h : Register.toNat < s.spaceSize loc) :
    (Register + 4).toNat = Register.toNat + 4 ∧ 4 ∣ (Register + 4).toNat ∧
      (Register + 4).toNat < s.spaceSize loc := by
  have hdvd := spaceSize_dvd s loc
  have hlt := Register.isLt
  have hvalue : (Register + 4).toNat = Register.toNat + 4 := by
    rw [BitVec.toNat_add]
    change (Register.toNat + 4) % 2 ^ 16 = _
    lia
  lia

/-! ### Reading -/

theorem read_unaligned (hwidth : IsWidth Width) (haligned : ¬Width.toNat / 8 ∣ Register.toNat) :
    s.pciSystemReadConfigurationSpaceGeneric loc Register Width = .ok (.invalidParameter3, none) := by
  unfold pciSystemReadConfigurationSpaceGeneric
  rw [if_pos (by rwa [isAddressAligned_width hwidth])]
  rfl

theorem read_beyond (hwidth : IsWidth Width) (haligned : Width.toNat / 8 ∣ Register.toNat)
    (h : s.spaceSize loc ≤ Register.toNat) :
    s.pciSystemReadConfigurationSpaceGeneric loc Register Width = .ok (.aeError, none) := by
  unfold pciSystemReadConfigurationSpaceGeneric
  rw [if_neg (by rw [isAddressAligned_width hwidth]; exact not_not.2 haligned)]
  obtain ⟨status, hread⟩ := readDword_refused (aligned_dvd Register) (le_aligned h)
  rw [hread]
  rfl

/-- The bits of a word after the shift, in memory. -/
theorem getLsbD_shifted {m : ℕ → BYTE} {i : ℕ} (hi : 8 * (Register.toNat % 4) + i < 32) :
    (dwordAt m (Register.toNat - Register.toNat % 4) >>>
      (addressOffset (Register.setWidth 64) 4 * 8)).getLsbD i = bitAt m (8 * Register.toNat + i) := by
  rw [BitVec.ushiftRight_eq', BitVec.getLsbD_ushiftRight, addressOffset_toNat, getLsbD_dwordAt hi]
  congr 1
  lia

theorem spells_low {m : ℕ → BYTE} {width : ℕ} (hinside : 8 * (Register.toNat % 4) + width ≤ 32) :
    Spells m Register.toNat width (((dwordAt m (Register.toNat - Register.toNat % 4) >>>
      (addressOffset (Register.setWidth 64) 4 * 8)) &&& BitVec.ofNat 32 (2 ^ width - 1)).setWidth 64) := by
  intro i
  rw [getLsbD_low (by lia)]
  by_cases hi : i < width
  · rw [getLsbD_shifted (by lia)]
  · rw [decide_eq_false hi, Bool.false_and, Bool.false_and]

theorem spells_high {m : ℕ → BYTE} (haligned : Register.toNat % 8 = 0) :
    Spells m Register.toNat 64 ((dwordAt m (Register.toNat + 4)).setWidth 64 <<< 32 |||
      (dwordAt m (Register.toNat - Register.toNat % 4) >>>
        (addressOffset (Register.setWidth 64) 4 * 8)).setWidth 64) := by
  intro i
  rw [BitVec.getLsbD_or, BitVec.getLsbD_shiftLeft, BitVec.getLsbD_setWidth, BitVec.getLsbD_setWidth]
  by_cases hlow : i < 32
  · rw [getLsbD_shifted (by lia)]
    simp [hlow, show i < 64 by omega]
  by_cases hhigh : i < 64
  · have hzero : (dwordAt m (Register.toNat - Register.toNat % 4) >>>
        (addressOffset (Register.setWidth 64) 4 * 8)).getLsbD i = false := BitVec.getLsbD_of_ge _ _ (by omega)
    rw [hzero, getLsbD_dwordAt (by omega), show 8 * (Register.toNat + 4) + (i - 32) = 8 * Register.toNat + i by lia]
    simp [hlow, hhigh, show i - 32 < 64 by omega]
  · simp [hhigh]

theorem read_spells (hwidth : IsWidth Width) (h : s.Accessible loc Register Width) :
    ∃ v, s.pciSystemReadConfigurationSpaceGeneric loc Register Width = .ok (.aeOk, some v) ∧
      Spells (s.bytes loc) Register.toNat Width.toNat v := by
  obtain ⟨haligned, hlt⟩ := h
  obtain ⟨hinside, -, height⟩ := inside_word hwidth haligned
  unfold pciSystemReadConfigurationSpaceGeneric
  rw [if_neg (by rw [isAddressAligned_width hwidth]; exact not_not.2 haligned)]
  rw [readDword_ok (aligned_dvd Register) (aligned_lt hlt), alignedRegister_toNat]
  rcases hwidth with rfl | rfl | rfl | rfl
  · exact ⟨_, rfl, @spells_low _ _ 8 (hinside (by decide))⟩
  · exact ⟨_, rfl, @spells_low _ _ 16 (hinside (by decide))⟩
  · exact ⟨_, rfl, @spells_low _ _ 32 (hinside (by decide))⟩
  · obtain ⟨hvalue, hdvd, hsecond⟩ := secondHalf (height rfl) hlt
    have hhigh := readDword_ok hdvd hsecond
    rw [hvalue] at hhigh
    simp only [pure, Except.pure, bind, Except.bind, hhigh]
    exact ⟨_, rfl, spells_high (height rfl)⟩

/-! ### Writing -/

theorem write_unaligned (hwidth : IsWidth Width) (haligned : ¬Width.toNat / 8 ∣ Register.toNat) (Value : QWORD) :
    s.pciSystemWriteConfigurationSpaceGeneric loc Register Width Value = .ok (.invalidParameter3, s) := by
  unfold pciSystemWriteConfigurationSpaceGeneric
  rw [if_pos (by rwa [isAddressAligned_width hwidth])]
  rfl

theorem alignedRegister_le (Register : WORD) :
    (alignAddressLower (Register.setWidth 64) 4).setWidth 32 ≤ (0xFFFF : DWORD) := by
  have hlt := Register.isLt
  rw [BitVec.le_def, alignedRegister_toNat']
  change _ ≤ 65535
  lia

theorem setWidth_alignedRegister : ((alignAddressLower (Register.setWidth 64) 4).setWidth 32).setWidth 16 =
    (alignAddressLower (Register.setWidth 64) 4).setWidth 16 := by
  have hlt := Register.isLt
  rw [← BitVec.toNat_inj, BitVec.toNat_setWidth, alignedRegister_toNat', alignedRegister_toNat,
    Nat.mod_eq_of_lt (by omega)]

theorem write_beyond (hwidth : IsWidth Width) (haligned : Width.toNat / 8 ∣ Register.toNat)
    (h : s.spaceSize loc ≤ Register.toNat) (Value : QWORD) :
    s.pciSystemWriteConfigurationSpaceGeneric loc Register Width Value = .ok (.aeError, s) := by
  obtain ⟨status, hread⟩ := readDword_refused (aligned_dvd Register) (le_aligned h)
  have hwrite := writeDword_refused (aligned_dvd Register) (le_aligned h)
  unfold pciSystemWriteConfigurationSpaceGeneric
  rw [if_neg (by rw [isAddressAligned_width hwidth]; exact not_not.2 haligned)]
  simp only [assertThat_of (alignedRegister_le Register), setWidth_alignedRegister, hread,
    bind, Except.bind, pure, Except.pure]
  by_cases hnarrow : Width < 32
  · rw [if_pos hnarrow]
  · rw [if_neg hnarrow]
    obtain ⟨status', hwrite⟩ := hwrite (valueToWrite 0 (((Register.setWidth 32 -
      (alignAddressLower (Register.setWidth 64) 4).setWidth 32) * 8).setWidth 8) Width Value)
    simp only [hwrite]

/-- The word that a narrow value is merged into. -/
theorem replaces_merge {m : ℕ → BYTE} {width : ℕ} {off : BYTE} {value : QWORD}
    (hoff : off.toNat = 8 * (Register.toNat % 4)) (hinside : 8 * (Register.toNat % 4) + width ≤ 32) :
    Replaces m Register.toNat width value (storeDword m (Register.toNat - Register.toNat % 4)
      ((dwordAt m (Register.toNat - Register.toNat % 4) &&& ~~~(BitVec.ofNat 32 (2 ^ width - 1) <<< off)) |||
        ((value &&& BitVec.ofNat 64 (2 ^ width - 1)) <<< off).setWidth 32)) := by
  intro k
  rw [bitAt_storeDword]
  by_cases hword : 8 * (Register.toNat - Register.toNat % 4) ≤ k ∧
      k < 8 * (Register.toNat - Register.toNat % 4) + 32
  · rw [if_pos hword, BitVec.shiftLeft_eq', BitVec.shiftLeft_eq', hoff, getLsbD_merge (by lia)]
    by_cases hk : 8 * Register.toNat ≤ k ∧ k < 8 * Register.toNat + width
    · rw [if_pos (by lia), if_pos hk]
      congr 1
      lia
    · rw [if_neg (by lia), if_neg hk, getLsbD_dwordAt (by omega)]
      congr 1
      lia
  · rw [if_neg hword, if_neg (by lia)]

theorem getLsbD_quadLow {value : QWORD} {i : ℕ} (hi : i < 32) :
    ((value &&& 0xFFFFFFFF).setWidth 32).getLsbD i = value.getLsbD i := by
  have hmask : (0xFFFFFFFF : QWORD) = BitVec.ofNat 64 (2 ^ 32 - 1) := rfl
  rw [hmask, BitVec.getLsbD_setWidth, BitVec.getLsbD_and, BitVec.getLsbD_ofNat, Nat.testBit_two_pow_sub_one]
  simp [hi, show i < 64 by omega]

theorem replaces_word {m : ℕ → BYTE} {value : QWORD} (haligned : Register.toNat % 4 = 0) :
    Replaces m Register.toNat 32 value (storeDword m (Register.toNat - Register.toNat % 4)
      ((value &&& 0xFFFFFFFF).setWidth 32)) := by
  intro k
  rw [bitAt_storeDword, haligned, Nat.sub_zero]
  by_cases hk : 8 * Register.toNat ≤ k ∧ k < 8 * Register.toNat + 32
  · rw [if_pos hk, if_pos hk, getLsbD_quadLow (by lia)]
  · rw [if_neg hk, if_neg hk]

theorem replaces_words {m : ℕ → BYTE} {value : QWORD} (haligned : Register.toNat % 4 = 0) :
    Replaces m Register.toNat 64 value (storeDword (storeDword m (Register.toNat - Register.toNat % 4)
      ((value &&& 0xFFFFFFFF).setWidth 32)) (Register.toNat + 4) ((value >>> 32).setWidth 32)) := by
  intro k
  rw [bitAt_storeDword, replaces_word haligned k]
  by_cases hhigh : 8 * (Register.toNat + 4) ≤ k ∧ k < 8 * (Register.toNat + 4) + 32
  · rw [if_pos hhigh, if_pos (by lia), BitVec.getLsbD_setWidth, decide_eq_true (by lia), Bool.true_and,
      BitVec.getLsbD_ushiftRight]
    congr 1
    lia
  rw [if_neg hhigh]
  by_cases hlow : 8 * Register.toNat ≤ k ∧ k < 8 * Register.toNat + 32
  · rw [if_pos hlow, if_pos (by lia)]
  · rw [if_neg hlow, if_neg (by lia)]

theorem write_replaces (hwidth : IsWidth Width) (h : s.Accessible loc Register Width) (Value : QWORD) :
    ∃ m, s.pciSystemWriteConfigurationSpaceGeneric loc Register Width Value = .ok (.aeOk, s.withBytes loc m) ∧
      Replaces (s.bytes loc) Register.toNat Width.toNat Value m := by
  obtain ⟨haligned, hlt⟩ := h
  obtain ⟨hinside, hword, height⟩ := inside_word hwidth haligned
  have hread := readDword_ok (aligned_dvd Register) (aligned_lt hlt)
  have hwrite := writeDword_ok (aligned_dvd Register) (aligned_lt hlt)
  rw [alignedRegister_toNat] at hread hwrite
  unfold pciSystemWriteConfigurationSpaceGeneric
  rw [if_neg (by rw [isAddressAligned_width hwidth]; exact not_not.2 haligned)]
  simp only [assertThat_of (alignedRegister_le Register), setWidth_alignedRegister, hread,
    bind, Except.bind, pure, Except.pure]
  rcases hwidth with rfl | rfl | rfl | rfl
  · rw [if_pos (by decide)]
    simp only [hwrite]
    exact ⟨_, rfl, @replaces_merge _ _ 8 _ _ offsetInRegisterBits_toNat (hinside (by decide))⟩
  · rw [if_pos (by decide)]
    simp only [hwrite]
    exact ⟨_, rfl, @replaces_merge _ _ 16 _ _ offsetInRegisterBits_toNat (hinside (by decide))⟩
  · rw [if_neg (by decide)]
    simp only [hwrite]
    exact ⟨_, rfl, replaces_word (hword (by decide))⟩
  · rw [if_neg (by decide)]
    simp only [hwrite]
    obtain ⟨hvalue, hdvd', hsecond⟩ := secondHalf (height rfl) hlt
    have hregister : (alignAddressLower (Register.setWidth 64) 4).setWidth 16 = Register := by
      rw [← BitVec.toNat_inj, alignedRegister_toNat]
      have := height rfl
      lia
    have hhigh := fun m => writeDword_ok (s := s.withBytes loc m) hdvd' hsecond
    rw [hvalue] at hhigh
    simp only [↓reduceIte, hregister, hhigh, withBytes_withBytes, withBytes_bytes]
    exact ⟨_, rfl, replaces_words (hword (by decide))⟩

end Accesses

/-! ### Reading what was written -/

def Writes (s : ConfigurationSpace) (loc : PciDeviceLocation) (Register : WORD) (Width : BYTE) (Value : QWORD)
    (s' : ConfigurationSpace) : Prop :=
  s.pciSystemWriteConfigurationSpaceGeneric loc Register Width Value = .ok (.aeOk, s')

def Reads (s : ConfigurationSpace) (loc : PciDeviceLocation) (Register : WORD) (Width : BYTE) (v : QWORD) : Prop :=
  s.pciSystemReadConfigurationSpaceGeneric loc Register Width = .ok (.aeOk, some v)

def lowBits (Width : BYTE) (Value : QWORD) : QWORD := Value &&& BitVec.ofNat 64 (2 ^ Width.toNat - 1)

/-- The write is refused and changes nothing, or changes exactly the bits of the register. -/
def WritesExactly (s : ConfigurationSpace) (loc : PciDeviceLocation) (Register : WORD) (Width : BYTE)
    (Value : QWORD) : Prop :=
  (∃ status, status ≠ .aeOk ∧
    s.pciSystemWriteConfigurationSpaceGeneric loc Register Width Value = .ok (status, s)) ∨
  ∃ m, s.Writes loc Register Width Value (s.withBytes loc m) ∧
    Replaces (s.bytes loc) Register.toNat Width.toNat Value m

/-- No byte is in both registers. -/
def Apart (Register : WORD) (Width : BYTE) (Register' : WORD) (Width' : BYTE) : Prop :=
  8 * Register.toNat + Width.toNat ≤ 8 * Register'.toNat ∨
    8 * Register'.toNat + Width'.toNat ≤ 8 * Register.toNat

section RoundTrip

variable {s s' : ConfigurationSpace} {loc : PciDeviceLocation} {Register Register' : WORD}
  {Width Width' : BYTE} {Value Value' : QWORD}

theorem getLsbD_lowBits (hwidth : IsWidth Width) (i : ℕ) :
    (lowBits Width Value).getLsbD i = (decide (i < Width.toNat) && Value.getLsbD i) := by
  have hle : Width.toNat ≤ 64 := by
    rcases hwidth with rfl | rfl | rfl | rfl <;> decide
  rw [lowBits, BitVec.getLsbD_and, BitVec.getLsbD_ofNat, Nat.testBit_two_pow_sub_one]
  by_cases hi : i < Width.toNat
  · simp [hi, show i < 64 by omega]
  · simp [hi]

theorem write_cases (s : ConfigurationSpace) (loc : PciDeviceLocation) (Register : WORD) (hwidth : IsWidth Width)
    (Value : QWORD) : s.Accessible loc Register Width ∨
      ∃ status, status ≠ AccessStatus.aeOk ∧
        s.pciSystemWriteConfigurationSpaceGeneric loc Register Width Value = .ok (status, s) ∧
        s.pciSystemReadConfigurationSpaceGeneric loc Register Width = .ok (status, none) := by
  by_cases haligned : Width.toNat / 8 ∣ Register.toNat
  · by_cases hlt : Register.toNat < s.spaceSize loc
    · exact .inl ⟨haligned, hlt⟩
    · exact .inr ⟨.aeError, by decide, write_beyond hwidth haligned (by omega) Value,
        read_beyond hwidth haligned (by omega)⟩
  · exact .inr ⟨.invalidParameter3, by decide, write_unaligned hwidth haligned Value,
      read_unaligned hwidth haligned⟩

theorem Writes.accessible (hwidth : IsWidth Width) (h : s.Writes loc Register Width Value s') :
    s.Accessible loc Register Width := by
  rcases write_cases s loc Register hwidth Value with h' | ⟨status, hstatus, hrun, -⟩
  · exact h'
  · unfold Writes at h
    rw [hrun] at h
    cases h
    exact absurd rfl hstatus

theorem Reads.accessible (hwidth : IsWidth Width) {v : QWORD} (h : s.Reads loc Register Width v) :
    s.Accessible loc Register Width := by
  rcases write_cases s loc Register hwidth 0 with h' | ⟨status, -, -, hrun⟩
  · exact h'
  · unfold Reads at h
    rw [hrun] at h
    cases h

theorem Writes.exists_bytes (hwidth : IsWidth Width) (h : s.Writes loc Register Width Value s') :
    ∃ m, s' = s.withBytes loc m ∧ Replaces (s.bytes loc) Register.toNat Width.toNat Value m := by
  obtain ⟨m, hrun, hm⟩ := write_replaces hwidth (h.accessible hwidth) Value
  unfold Writes at h
  rw [hrun] at h
  cases h
  exact ⟨m, rfl, hm⟩

theorem Accessible.withBytes (h : s.Accessible loc Register Width) (m : ℕ → BYTE) :
    (s.withBytes loc m).Accessible loc Register Width := h

theorem reads_lowBits (hwidth : IsWidth Width) (h : s.Accessible loc Register Width)
    (hbits : ∀ i < Width.toNat, bitAt (s.bytes loc) (8 * Register.toNat + i) = Value.getLsbD i) :
    s.Reads loc Register Width (lowBits Width Value) := by
  obtain ⟨v, hrun, hv⟩ := read_spells hwidth h
  have hlow : Spells (s.bytes loc) Register.toNat Width.toNat (lowBits Width Value) := by
    intro i
    rw [getLsbD_lowBits hwidth]
    by_cases hi : i < Width.toNat
    · rw [hbits i hi]
    · simp [hi]
  rw [hlow.eq hv]
  exact hrun

theorem Writes.reads (hwidth : IsWidth Width) (h : s.Writes loc Register Width Value s') :
    s'.Reads loc Register Width (lowBits Width Value) := by
  obtain ⟨m, rfl, hm⟩ := h.exists_bytes hwidth
  refine reads_lowBits hwidth ((h.accessible hwidth).withBytes m) fun i hi => ?_
  rw [withBytes_bytes, hm, if_pos (by lia)]
  congr 1
  lia

/-- A write keeps what a register apart from it reads. -/
theorem Writes.reads_apart (hwidth : IsWidth Width) (hwidth' : IsWidth Width')
    (happart : Apart Register Width Register' Width') (h : s.Writes loc Register' Width' Value' s')
    (hread : s.Reads loc Register Width (lowBits Width Value)) :
    s'.Reads loc Register Width (lowBits Width Value) := by
  have hacc := hread.accessible hwidth
  obtain ⟨m, rfl, hm⟩ := h.exists_bytes hwidth'
  obtain ⟨v, hrun, hv⟩ := read_spells hwidth hacc
  unfold Reads at hread
  rw [hrun] at hread
  cases hread
  refine reads_lowBits hwidth (hacc.withBytes m) fun i hi => ?_
  have hbit := hv i
  rw [getLsbD_lowBits hwidth, decide_eq_true hi, Bool.true_and, Bool.true_and] at hbit
  have hout : ¬(8 * Register'.toNat ≤ 8 * Register.toNat + i ∧
      8 * Register.toNat + i < 8 * Register'.toNat + Width'.toNat) := by
    unfold Apart at happart
    lia
  rw [withBytes_bytes, hm, if_neg hout, hbit]

/-- Two writes to registers apart from each other can be done in either order. -/
theorem Writes.comm (hwidth : IsWidth Width) (hwidth' : IsWidth Width')
    (happart : Apart Register Width Register' Width') {s₁ s₂ : ConfigurationSpace}
    (h₁ : s.Writes loc Register Width Value s₁) (h₂ : s₁.Writes loc Register' Width' Value' s₂) :
    ∃ s₁', s.Writes loc Register' Width' Value' s₁' ∧ s₁'.Writes loc Register Width Value s₂ := by
  have hacc := h₁.accessible hwidth
  have hacc' := h₂.accessible hwidth'
  obtain ⟨m₁, rfl, hm₁⟩ := h₁.exists_bytes hwidth
  obtain ⟨m₂, rfl, hm₂⟩ := h₂.exists_bytes hwidth'
  obtain ⟨m, hrun, hm⟩ := write_replaces hwidth' (s := s) hacc' Value'
  obtain ⟨m', hrun', hm'⟩ := write_replaces hwidth (Accessible.withBytes hacc m) Value
  rw [withBytes_bytes] at hm₂ hm'
  refine ⟨_, hrun, ?_⟩
  have heq : m₂ = m' := by
    apply eq_of_bitAt
    intro k
    rw [hm₂, hm₁, hm', hm]
    unfold Apart at happart
    by_cases hk : 8 * Register.toNat ≤ k ∧ k < 8 * Register.toNat + Width.toNat
    · rw [if_pos hk, if_pos hk, if_neg (by lia)]
    · rw [if_neg hk, if_neg hk]
  rw [withBytes_withBytes, heq, ← withBytes_withBytes (s := s) m m']
  exact hrun'

end RoundTrip

theorem genericAccesses_agree (s : ConfigurationSpace) (loc : PciDeviceLocation) (Register : WORD)
    (Width : BYTE) (Value : QWORD) (hwidth : IsWidth Width) :
    s.WritesExactly loc Register Width Value ∧
    ((∃ v, s.Reads loc Register Width v) ↔ ∃ s', s.Writes loc Register Width Value s') ∧
    (∀ v, s.Reads loc Register Width v → Spells (s.bytes loc) Register.toNat Width.toNat v) ∧
    (∀ s', s.Writes loc Register Width Value s' → s'.Reads loc Register Width (lowBits Width Value)) ∧
    ∀ (Register' : WORD) (Width' : BYTE) (Value' : QWORD), IsWidth Width' →
      Apart Register Width Register' Width' → ∀ s₁ s₂,
      s.Writes loc Register Width Value s₁ → s₁.Writes loc Register' Width' Value' s₂ →
        s₂.Reads loc Register Width (lowBits Width Value) ∧
        s₂.Reads loc Register' Width' (lowBits Width' Value') ∧
        ∃ s₁', s.Writes loc Register' Width' Value' s₁' ∧ s₁'.Writes loc Register Width Value s₂ := by
  refine ⟨?_, ⟨fun ⟨v, hv⟩ => ?_, fun ⟨s', hs'⟩ => ?_⟩, fun v hv => ?_, fun s' h => h.reads hwidth,
    fun Register' Width' Value' hwidth' happart s₁ s₂ h₁ h₂ =>
      ⟨h₂.reads_apart hwidth hwidth' happart (h₁.reads hwidth), h₂.reads hwidth',
        h₁.comm hwidth hwidth' happart h₂⟩⟩
  · rcases write_cases s loc Register hwidth Value with h | ⟨status, hstatus, hrun, -⟩
    · exact .inr (write_replaces hwidth h Value)
    · exact .inl ⟨status, hstatus, hrun⟩
  · obtain ⟨m, hrun, -⟩ := write_replaces hwidth (hv.accessible hwidth) Value
    exact ⟨_, hrun⟩
  · obtain ⟨v, hrun, -⟩ := read_spells hwidth (hs'.accessible hwidth)
    exact ⟨v, hrun⟩
  · obtain ⟨w, hrun, hw⟩ := read_spells hwidth (hv.accessible hwidth)
    unfold Reads at hv
    rw [hrun] at hv
    cases hv
    exact hw

/-- A device whose 256 bytes are full of ones; the byte at `0x11`. -/
theorem genericAccesses_agree_byte : IsWidth 8 ∧
    ∃ s', Writes ⟨false, [], fun _ _ => 0xFF⟩ ⟨0, 0, 0⟩ 0x11 8 0x1234 s' ∧ s'.Reads ⟨0, 0, 0⟩ 0x11 8 0x34 :=
  ⟨.inl rfl, _, rfl,
    (genericAccesses_agree ⟨false, [], fun _ _ => 0xFF⟩ ⟨0, 0, 0⟩ 0x11 8 0x1234 (.inl rfl)).2.2.2.1 _ rfl⟩

end ConfigurationSpace

end HAL9000.Io
