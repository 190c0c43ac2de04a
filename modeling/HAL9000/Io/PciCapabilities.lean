import HAL9000.Io.DmaTransfer
import HAL9000.Lib.Walk

/-! The search for a capability of a PCI device, `PciDevRetrieveCapabilityById` of `pci_device.c`. The list
runs through bytes that the device supplies. -/
namespace HAL9000.Io

def statusDeviceCapabilitiesNotSupported : STATUS := 0xE0010019
def statusDeviceCapabilityDoesNotExist : STATUS := 0xE001001A

def predefinedPciDeviceSpaceSize : ℕ := 256

/-- `Data` of a `PCI_DEVICE`. -/
abbrev PciDevice := Fin predefinedPciDeviceSpaceSize → BYTE

namespace PciDevice

/-- What a pointer that is a byte leads to is always inside. -/
def byteAt (d : PciDevice) (p : BYTE) : BYTE := d ⟨p.toNat, p.isLt⟩

def read (d : PciDevice) (offset : ℕ) : Except Fault BYTE :=
  if h : offset < predefinedPciDeviceSpaceSize then .ok (d ⟨offset, h⟩) else .error .danglingAccess

/-- `Header.Status.CapabilitiesList`. -/
def capabilitiesList (d : PciDevice) : Bool := (d.byteAt 0x06).getLsbD 4

/-- `Header.Device.CapabilitiesPointer`. -/
def capabilitiesPointer (d : PciDevice) : BYTE := d.byteAt 0x34

end PciDevice

/-- The offset of the capability that is found. -/
def retrieveLoop (d : PciDevice) (Id : BYTE) : ℕ → BYTE → Except Fault (STATUS × Option BYTE)
  | 0, _ => .error .outOfFuel
  | fuel + 1, capPtr =>
    if capPtr ≠ 0 then do
      let capabilityId ← d.read capPtr.toNat
      if capabilityId = Id then .ok (statusSuccess, some capPtr)
      else do
        let nextPointer ← d.read (capPtr.toNat + 1)
        retrieveLoop d Id fuel nextPointer
    else .ok (statusDeviceCapabilityDoesNotExist, none)

def pciDevRetrieveCapabilityById (fuel : ℕ) (Device : Option PciDevice) (Id : BYTE) :
    Except Fault (STATUS × Option BYTE) :=
  match Device with
  | none => .ok (statusInvalidParameter1, none)
  | some d =>
    if d.capabilitiesList then retrieveLoop d Id fuel d.capabilitiesPointer
    else .ok (statusDeviceCapabilitiesNotSupported, none)

namespace PciDevice

variable (d : PciDevice) (Id : BYTE)

/-- Where the list goes on, unless it ends or the space ends before `NextPointer`. -/
def nextPointer (p : BYTE) : Option BYTE :=
  if p = 0 ∨ p = 255 then none else some (d.byteAt (p + 1))

def firstPointer : BYTE := if d.capabilitiesList then d.capabilitiesPointer else 0

def Holds (p : BYTE) : Prop := p ≠ 0 ∧ d.byteAt p = Id

instance (p : BYTE) : Decidable (d.Holds Id p) := inferInstanceAs (Decidable (_ ∧ _))

/-- The list up to the first capability with the Id. -/
def searchPointer : BYTE → Option BYTE := Walk.stopAt (d.Holds Id) d.nextPointer

/-- The list reaches a capability with the Id. -/
def Has : Prop := ∃ p, Walk.Reaches d.nextPointer d.firstPointer p ∧ d.Holds Id p

/-- The capability is the first with its Id along the list. -/
def IsFirst (p : BYTE) : Prop := d.Holds Id p ∧ ∃ n, Walk.after d.nextPointer n d.firstPointer = some p ∧
  ∀ m < n, ∀ q, Walk.after d.nextPointer m d.firstPointer = some q → ¬d.Holds Id q

/-- The search returns after finitely many rounds without an access outside the space. It succeeds exactly
if the list has a capability with the Id, and finds the first one. -/
def FindsCapability : Prop := ∃ fuel status capability,
  pciDevRetrieveCapabilityById fuel (some d) Id = .ok (status, capability) ∧
    (succeeded status = true ↔ d.Has Id) ∧
    (succeeded status = true → ∃ p, capability = some p ∧ d.IsFirst Id p)

section Reading

variable {d Id} {p : BYTE}

theorem read_toNat : d.read p.toNat = .ok (d.byteAt p) := dif_pos p.isLt

theorem read_next (hp : p ≠ 255) : d.read (p.toNat + 1) = .ok (d.byteAt (p + 1)) := by
  have hlt : p.toNat + 1 < predefinedPciDeviceSpaceSize := by
    have hne : p.toNat ≠ 255 := fun h => hp (BitVec.eq_of_toNat_eq h)
    have := p.isLt
    unfold predefinedPciDeviceSpaceSize
    omega
  have hindex : (p + 1).toNat = p.toNat + 1 := by
    unfold predefinedPciDeviceSpaceSize at hlt
    rw [BitVec.toNat_add, show (1 : BYTE).toNat = 1 from rfl, Nat.mod_eq_of_lt hlt]
  refine (dif_pos hlt).trans ?_
  simp only [byteAt, hindex]

theorem read_past : d.read ((255 : BYTE).toNat + 1) = .error .danglingAccess :=
  dif_neg (by decide)

end Reading

section Rounds

variable {d Id} {p q : BYTE} {fuel : ℕ}

/-- The verdict at a pointer at which the search stops. -/
def verdict (d : PciDevice) (Id p : BYTE) : Except Fault (STATUS × Option BYTE) :=
  if p = 0 then .ok (statusDeviceCapabilityDoesNotExist, none)
  else if d.byteAt p = Id then .ok (statusSuccess, some p)
  else .error .danglingAccess

/-- The search stops at the end of the list, at a capability that it finds, or before the end of the space. -/
theorem eq_last_of_none (h : d.searchPointer Id p = none) (hzero : p ≠ 0) (hid : d.byteAt p ≠ Id) :
    p = 255 := by
  have hholds : ¬d.Holds Id p := fun hp => hid hp.2
  unfold searchPointer Walk.stopAt at h
  rw [if_neg hholds] at h
  unfold nextPointer at h
  by_contra hne
  rw [if_neg (not_or.mpr ⟨hzero, hne⟩)] at h
  cases h

theorem retrieveLoop_stop (h : d.searchPointer Id p = none) :
    retrieveLoop d Id (fuel + 1) p = d.verdict Id p := by
  unfold retrieveLoop verdict
  by_cases hzero : p = 0
  · rw [if_neg (not_not.mpr hzero), if_pos hzero]
  rw [if_pos hzero, if_neg hzero, read_toNat]
  by_cases hid : d.byteAt p = Id
  · simp only [bind, Except.bind, if_pos hid]
  · obtain rfl := eq_last_of_none h hzero hid
    simp only [bind, Except.bind, if_neg hid, read_past]

theorem retrieveLoop_next (h : d.searchPointer Id p = some q) :
    retrieveLoop d Id (fuel + 1) p = retrieveLoop d Id fuel q := by
  have hholds : ¬d.Holds Id p := fun hp => by simp [searchPointer, Walk.stopAt, hp] at h
  have hnext : d.nextPointer p = some q := by simpa [searchPointer, Walk.stopAt, hholds] using h
  unfold nextPointer at hnext
  split_ifs at hnext with hend
  obtain ⟨hzero, hlast⟩ := not_or.mp hend
  have hid : ¬d.byteAt p = Id := fun hp => hholds ⟨hzero, hp⟩
  conv_lhs => unfold retrieveLoop
  rw [if_pos hzero, read_toNat, ← Option.some.inj hnext]
  simp [bind, Except.bind, hid, read_next hlast]

/-- A search that ends has come to a last pointer. -/
theorem retrieveLoop_of_ends {n : ℕ} (h : Walk.after (d.searchPointer Id) n p = none) :
    ∃ q, Walk.Reaches (d.searchPointer Id) p q ∧ d.searchPointer Id q = none ∧
      retrieveLoop d Id n p = d.verdict Id q := by
  induction n generalizing p with
  | zero => cases h
  | succ n ih =>
    cases hs : d.searchPointer Id p with
    | none => exact ⟨p, .refl, hs, retrieveLoop_stop hs⟩
    | some b =>
      obtain ⟨q, hreach, hlast, hrun⟩ := ih (Walk.after_succ_eq_none.mp h b hs)
      exact ⟨q, hreach.step hs, hlast, (retrieveLoop_next hs).trans hrun⟩

theorem after_none_of_retrieveLoop {r : STATUS × Option BYTE}
    (h : retrieveLoop d Id fuel p = .ok r) : Walk.after (d.searchPointer Id) fuel p = none := by
  induction fuel generalizing p with
  | zero => cases h
  | succ fuel ih =>
    refine Walk.after_succ_eq_none.mpr fun b hb => ih ?_
    rw [← retrieveLoop_next hb]
    exact h

end Rounds

section Search

variable {d Id} {p : BYTE}

theorem searchPointer_eq_none_of_holds (h : d.Holds Id p) : d.searchPointer Id p = none := if_pos h

theorem has_iff_of_last (hreach : Walk.Reaches (d.searchPointer Id) d.firstPointer p)
    (hlast : d.searchPointer Id p = none) : d.Has Id ↔ d.Holds Id p := by
  constructor
  · intro h
    obtain ⟨q, hq, hholds⟩ := h
    obtain ⟨b, hb, hfirst⟩ := hq.exists_first hholds
    have heq := hreach.unique_last hfirst hlast (searchPointer_eq_none_of_holds hb)
    exact heq ▸ hb
  · intro h
    exact ⟨p, hreach.of_stopAt, h⟩

theorem isFirst_of_reaches (hreach : Walk.Reaches (d.searchPointer Id) d.firstPointer p)
    (h : d.Holds Id p) : d.IsFirst Id p := by
  obtain ⟨n, hn⟩ := hreach
  obtain ⟨hafter, hbefore⟩ := Walk.after_stopAt.mp hn
  exact ⟨h, n, hafter, hbefore⟩

theorem searchPointer_zero : d.searchPointer Id 0 = none := by
  have hholds : ¬d.Holds Id 0 := fun h => h.1 rfl
  rw [searchPointer, Walk.stopAt, if_neg hholds]
  rfl

theorem searchPointer_last : d.searchPointer Id 255 = none := by
  unfold searchPointer Walk.stopAt nextPointer
  rw [if_pos (Or.inr rfl), ite_self]

theorem not_has_of_firstPointer (h : d.firstPointer = 0) : ¬d.Has Id := fun hhas =>
  ((has_iff_of_last (h ▸ .refl) searchPointer_zero).mp hhas).1 rfl

/-- Where the search stops its verdict is right, unless it would read on at the last offset. -/
theorem verdict_right (hreach : Walk.Reaches (d.searchPointer Id) d.firstPointer p)
    (hlast : d.searchPointer Id p = none) (hinside : p = 0 ∨ d.byteAt p = Id) :
    ∃ status capability, d.verdict Id p = .ok (status, capability) ∧
      (succeeded status = true ↔ d.Has Id) ∧
      (succeeded status = true → ∃ q, capability = some q ∧ d.IsFirst Id q) := by
  rw [has_iff_of_last hreach hlast]
  by_cases hzero : p = 0
  · have hfail : ¬succeeded statusDeviceCapabilityDoesNotExist = true := by decide
    exact ⟨_, _, if_pos hzero, ⟨fun h => absurd h hfail, fun h => absurd hzero h.1⟩,
      fun h => absurd h hfail⟩
  · have hid := hinside.resolve_left hzero
    have hholds : d.Holds Id p := ⟨hzero, hid⟩
    refine ⟨_, _, (if_neg hzero).trans (if_pos hid), ⟨fun _ => hholds, fun _ => by decide⟩, fun _ => ?_⟩
    exact ⟨p, rfl, isFirst_of_reaches hreach hholds⟩

/-- A list whose head is its end: whatever is returned is a failure. -/
theorem findsCapability_of_firstPointer (h : d.firstPointer = 0) : d.FindsCapability Id := by
  by_cases hlist : d.capabilitiesList = true
  · have hpointer : d.capabilitiesPointer = 0 := by simpa [firstPointer, hlist] using h
    obtain ⟨status, capability, hrun, hright⟩ :=
      @verdict_right d Id 0 (h ▸ .refl) searchPointer_zero (Or.inl rfl)
    refine ⟨1, status, capability, ?_, hright⟩
    have hstop := @retrieveLoop_stop d Id 0 0 searchPointer_zero
    simpa [pciDevRetrieveCapabilityById, hlist, hpointer] using hstop.trans hrun
  · have hfail : ¬succeeded statusDeviceCapabilitiesNotSupported = true := by decide
    refine ⟨0, statusDeviceCapabilitiesNotSupported, none, ?_, ?_, fun h => absurd h hfail⟩
    · simp [pciDevRetrieveCapabilityById, hlist]
    · exact ⟨fun h => absurd h hfail, fun hhas => absurd hhas (not_has_of_firstPointer h)⟩

theorem retrieve_eq_loop (h : d.firstPointer ≠ 0) (fuel : ℕ) :
    pciDevRetrieveCapabilityById fuel (some d) Id = retrieveLoop d Id fuel d.firstPointer := by
  have hlist : d.capabilitiesList = true := by
    by_contra hnot
    exact h (if_neg hnot)
  simp [pciDevRetrieveCapabilityById, firstPointer, hlist]

end Search

/-- The search is right exactly if it does not come back to a pointer and does not pass the last offset. -/
theorem findsCapability_iff (d : PciDevice) (Id : BYTE) : d.FindsCapability Id ↔
    Walk.NeverRepeats (d.searchPointer Id) d.firstPointer ∧
      ¬(Walk.Reaches (d.searchPointer Id) d.firstPointer 255 ∧ d.byteAt 255 ≠ Id) := by
  rw [← Walk.ends_iff_neverRepeats (Set.toFinite _)]
  by_cases hfirst : d.firstPointer = 0
  · have hends : Walk.Ends (d.searchPointer Id) d.firstPointer :=
      hfirst ▸ Walk.ends_of_none searchPointer_zero
    refine iff_of_true (findsCapability_of_firstPointer hfirst) ⟨hends, fun h => ?_⟩
    have hlast := h.1
    rw [hfirst, Walk.reaches_iff_of_none searchPointer_zero] at hlast
    exact absurd hlast (by decide)
  constructor
  · intro h
    obtain ⟨fuel, status, capability, hrun, -, -⟩ := h
    rw [retrieve_eq_loop hfirst] at hrun
    have hafter := after_none_of_retrieveLoop hrun
    refine ⟨⟨fuel, hafter⟩, fun hlast => ?_⟩
    obtain ⟨q, hreach, hstop, hverdict⟩ := retrieveLoop_of_ends hafter
    rw [hreach.unique_last hlast.1 hstop searchPointer_last] at hverdict
    have herror : d.verdict Id 255 = .error .danglingAccess :=
      (if_neg (by decide)).trans (if_neg hlast.2)
    exact nomatch (hrun.symm.trans hverdict).trans herror
  · intro h
    obtain ⟨⟨n, hn⟩, hinside⟩ := h
    obtain ⟨q, hreach, hlast, hrun⟩ := retrieveLoop_of_ends hn
    have hq : q = 0 ∨ d.byteAt q = Id := by
      by_contra hnot
      obtain ⟨hzero, hid⟩ := not_or.mp hnot
      have hend := eq_last_of_none hlast hzero hid
      exact hinside ⟨hend ▸ hreach, hend ▸ hid⟩
    obtain ⟨status, capability, hverdict, hright⟩ := verdict_right hreach hlast hq
    refine ⟨n, status, capability, ?_, hright⟩
    rw [retrieve_eq_loop hfirst, hrun, hverdict]

/-- A device whose only capability, an MSI capability, is followed by itself. -/
def cyclicDevice : PciDevice := fun offset =>
  if offset.val = 0x06 then 0x10
  else if offset.val = 0x34 then 0x40
  else if offset.val = 0x40 then 0x05
  else if offset.val = 0x41 then 0x40
  else 0

/-- The search for another capability goes round. -/
theorem not_findsCapability : ¬cyclicDevice.FindsCapability 0x11 := by
  intro h
  obtain ⟨fuel, status, capability, hrun, -, -⟩ := h
  have hloop : cyclicDevice.searchPointer 0x11 0x40 = some 0x40 := by decide
  have hfirst : cyclicDevice.firstPointer = 0x40 := by decide
  rw [retrieve_eq_loop (by rw [hfirst]; decide), hfirst] at hrun
  have hends : Walk.Ends (cyclicDevice.searchPointer 0x11) 0x40 := ⟨fuel, after_none_of_retrieveLoop hrun⟩
  exact Walk.not_neverRepeats_of_loop hloop hends.neverRepeats

end PciDevice

end HAL9000.Io
