import HAL9000.CommonLib.BitmapBits
import HAL9000.Vmm.Metadata

/-! Runs that release every region before they allocate the next one. The slot is used again, but
every allocation takes a new bitmap page and new addresses. -/
namespace HAL9000.Vmm

open Run

/-- The space, the region that is allocated, the number of allocations so far and the fault that has
stopped the system. -/
structure CycleState where
  space : VmmReservationSpace
  region : Option (QWORD × QWORD)
  allocs : ℕ
  fault : Option Fault

inductive CycleCall
  | alloc (size : QWORD) (attr : Attributes)
  | free (address : QWORD)
  deriving DecidableEq, Repr

/-- The commit bitmap of a region of this size takes one page: it has a bit for each page of the
region. -/
def FitsOnePage (size : QWORD) : Prop := 0 < size.toNat ∧ size.toNat ≤ 8 * 4096 * 4096

instance (size : QWORD) : Decidable (FitsOnePage size) := inferInstanceAs (Decidable (_ ∧ _))

/-- Reserves and commits a region at an address that the space chooses. -/
def cycleRequest (size : QWORD) (attr : Attributes) : AllocRequest :=
  ⟨0, size, vmmAllocTypeReserve ||| vmmAllocTypeCommit, attr⟩

/-- A region is released through any of its addresses. -/
def cycle (s : CycleState) : CycleCall → Option CycleState
  | .alloc size attr =>
    if s.fault = none ∧ s.region = none ∧ FitsOnePage size then
      match vmReservationSpaceAllocRegion s.space (cycleRequest size attr) with
      | .ok (space, .ok region) => some ⟨space, some region, s.allocs + 1, none⟩
      | .ok (space, .error _) => some ⟨space, none, s.allocs, none⟩
      | .error fault => some { s with fault := some fault }
    else none
  | .free address =>
    match s.region with
    | none => none
    | some (base, size) =>
      if s.fault = none ∧ address - base < size then
        match vmReservationSpaceFreeRegion s.space address 0 vmmFreeTypeRelease with
        | .ok (space, _) => some ⟨space, none, s.allocs, none⟩
        | .error fault => some { s with fault := some fault }
      else none

/-- A bitmap page and an address are left for an allocation, and a region that is released does not
reach the end of the address space, unless it is released through the very last address. -/
def CycleState.HasRoom (pages : ℕ) (s : CycleState) : CycleCall → Prop
  | .alloc _ _ => 4096 * (pages + s.allocs + 1) ≤ s.space.reservedAreaSize.toNat ∧
      s.space.freeVirtualAddressPointer ≠ 0
  | .free address => ∀ r ∈ s.region, r.1.toNat + r.2.toNat < 2 ^ 64 ∨ address = BitVec.allOnes 64

/-- No slot is in use; only the first one has ever been. -/
def Unused (s : VmmReservationSpace) : Prop :=
  (s.slots 0).state = .last ∨ ((s.slots 0).state = .free ∧ (s.slots 1).state = .last)

/-- The region of `n` bytes at `a` has the first slot, and no other slot is in use. -/
structure Holds (s : VmmReservationSpace) (a n : QWORD) : Prop where
  used : (s.slots 0).state = .used
  last : (s.slots 1).state = .last
  startVa : (s.slots 0).startVa = a
  size : (s.slots 0).size = n
  buffer : isAddressAligned (s.slots 0).commitBitmap.bitmapBuffer pageSize = true

section Search

variable {s : VmmReservationSpace} {a n : QWORD} (haddr : s.slotAddress 0 < s.bitmapAddressStart)
include haddr

theorem vmFindReservation_unused (h : Unused s) (ha : a ≠ 0) (hn : n ≠ 0) :
    vmFindReservation s a n = .ok none := by
  unfold vmFindReservation VmmReservationSpace.loopBound
  rw [assertThat_of ha, assertThat_of hn]
  show findReservationLoop s a n (_ + 1 + 1) 0 = _
  obtain hlast | ⟨hfree, hlast⟩ := h
  · rw [findReservationLoop, if_neg fun h => h.1 hlast]
  · rw [findReservationLoop, if_pos ⟨by rw [hfree]; rintro ⟨⟩, haddr⟩, if_pos hfree,
      findReservationLoop, if_neg fun h => h.1 hlast]

theorem vmFindReservation_holds {b k : QWORD} (h : Holds s b k) (ha : a ≠ 0) (hn : n ≠ 0) :
    vmFindReservation s a n = .ok (if checkBounds a n b k then some 0 else none) := by
  unfold vmFindReservation VmmReservationSpace.loopBound
  rw [assertThat_of ha, assertThat_of hn]
  show findReservationLoop s a n (_ + 1 + 1) 0 = _
  rw [findReservationLoop, if_pos ⟨by rw [h.used]; rintro ⟨⟩, haddr⟩,
    if_neg (by rw [h.used]; rintro ⟨⟩), h.startVa, h.size]
  by_cases hin : checkBounds a n b k = true
  · rw [if_pos hin, if_pos hin]
  · rw [if_neg hin, if_neg hin, findReservationLoop, if_neg fun hc => hc.1 h.last]

/-- The first slot is free, or it is the last one and the marker moves on. -/
theorem vmFindFirstFreeReservation_unused (h : Unused s) :
    ∃ s₁, vmFindFirstFreeReservation s = .ok (s₁, some 0) ∧ SameArea s s₁ ∧
      s₁.freeBitmapAddress = s.freeBitmapAddress ∧
      s₁.freeVirtualAddressPointer = s.freeVirtualAddressPointer ∧ (s₁.slots 1).state = .last := by
  unfold vmFindFirstFreeReservation VmmReservationSpace.loopBound
  rw [findFirstFreeLoop, if_pos haddr]
  obtain hlast | ⟨hfree, hlast⟩ := h
  · simp only [hlast]
    refine ⟨_, rfl, ⟨rfl, rfl, rfl, rfl⟩, rfl, rfl, ?_⟩
    rw [setSlot_same]
  · simp only [hfree]
    exact ⟨s, rfl, SameArea.refl s, rfl, rfl, hlast⟩

end Search

private theorem pageSize_toNat' : pageSize.toNat = 2 ^ 12 := rfl

/-- The size of a region is rounded up to whole pages. -/
theorem FitsOnePage.aligned {size : QWORD} (h : FitsOnePage size) :
    4096 ∣ (alignAddressUpper size pageSize).toNat ∧ 0 < (alignAddressUpper size pageSize).toNat ∧
      (alignAddressUpper size pageSize).toNat ≤ 8 * 4096 * 4096 := by
  obtain ⟨hpos, hle⟩ := h
  have hpad := alignPadding_lt size.toNat (show 0 < 4096 by norm_num)
  have hdvd := dvd_add_alignPadding size.toNat (show 0 < 4096 by norm_num)
  have heq : (alignAddressUpper size pageSize).toNat =
      (size.toNat + alignPadding size.toNat 4096) % 2 ^ 64 := alignAddressUpper_toNat pageSize_toNat'
  rw [heq, Nat.mod_eq_of_lt (by lia)]
  lia

/-- The bytes set aside for a bitmap of at most `8 * 4096` bits. -/
theorem areaSize_of_pages {b : Bitmap} {pages : ℕ} (hb : b.bufferSize.toNat = (pages + 7) / 8)
    (hpos : 0 < pages) (hle : pages ≤ 8 * 4096) : Bitmap.areaSize b = pageSize := by
  have hw : (b.bufferSize.setWidth 64 : QWORD).toNat = b.bufferSize.toNat := by
    have := b.bufferSize.isLt
    rw [BitVec.toNat_setWidth]
    lia
  have hpad := alignPadding_lt b.bufferSize.toNat (show 0 < 4096 by norm_num)
  have hdvd := dvd_add_alignPadding b.bufferSize.toNat (show 0 < 4096 by norm_num)
  apply BitVec.eq_of_toNat_eq
  unfold Bitmap.areaSize
  rw [alignAddressUpper_toNat pageSize_toNat', hw]
  change (b.bufferSize.toNat + alignPadding b.bufferSize.toNat 4096) % 2 ^ 64 = 4096
  omega

/-- The arguments that `_VmInitializeReservation` and `_VmCommitReservation` require of a range whose
bitmap fits in one page. -/
structure PageRange (a n : QWORD) : Prop where
  nonNull : a ≠ 0
  sizeNonZero : n ≠ 0
  aligned : isAddressAligned a pageSize = true
  sizeAligned : isAddressAligned n pageSize = true
  le : n.toNat ≤ 8 * 4096 * 4096

theorem PageRange.pages {a n : QWORD} (h : PageRange a n) :
    n / pageSize ≤ maxDword ∧ ((n / pageSize).setWidth 32 : DWORD).toNat = n.toNat / 4096 ∧
      0 < n.toNat / 4096 := by
  have hle := h.le
  have hdvd := (isAddressAligned_iff pageSize_toNat').mp h.sizeAligned
  have hpos : n.toNat ≠ 0 := fun hz => h.sizeNonZero (BitVec.eq_of_toNat_eq hz)
  rw [pageSize_toNat'] at hdvd
  have hdiv : (n / pageSize).toNat = n.toNat / 4096 := BitVec.toNat_udiv
  refine ⟨?_, ?_, ?_⟩
  · rw [BitVec.le_def, hdiv]
    change _ ≤ 4294967295
    omega
  · rw [BitVec.toNat_setWidth, hdiv]
    lia
  · lia

section Reserve

variable {s : VmmReservationSpace} {a n : QWORD} (hr : PageRange a n)
  (hbuf : s.freeBitmapAddress ≠ 0) (hal : isAddressAligned s.freeBitmapAddress pageSize = true)
include hr hbuf hal

/-- The bitmap page must lie in the metadata area; no other check can fail. -/
theorem vmInitializeReservation_page (attr : Attributes) :
    (checkBounds s.freeBitmapAddress pageSize s.reservationList s.reservedAreaSize = false →
      vmInitializeReservation s a n attr.rights attr.uncacheable attr.fileObject 0 =
        .error .assertFailed) ∧
    (checkBounds s.freeBitmapAddress pageSize s.reservationList s.reservedAreaSize = true →
      ∃ s', vmInitializeReservation s a n attr.rights attr.uncacheable attr.fileObject 0 = .ok s' ∧
        SameArea s s' ∧ s'.freeBitmapAddress = s.freeBitmapAddress + pageSize ∧
        s'.freeVirtualAddressPointer = s.freeVirtualAddressPointer ∧
        (s'.slots 0).state = .used ∧ (s'.slots 0).startVa = a ∧ (s'.slots 0).size = n ∧
        (s'.slots 0).pageRights = attr.rights ∧ (s'.slots 0).uncacheable = attr.uncacheable ∧
        (s'.slots 0).commitBitmap.bitmapBuffer = s.freeBitmapAddress ∧
        (s'.slots 0).commitBitmap.bitCount = (n / pageSize).setWidth 32 ∧
        s'.slots 1 = s.slots 1) := by
  obtain ⟨hmax, hpages, hpos⟩ := hr.pages
  have hle := hr.le
  have hnonzero : ((n / pageSize).setWidth 32 : DWORD) ≠ 0 := by
    intro hz
    rw [hz] at hpages
    change 0 = _ at hpages
    omega
  obtain ⟨b, hb⟩ : ∃ b, bitmapPreinit ((n / pageSize).setWidth 32) = .ok b := by
    unfold bitmapPreinit
    rw [assertThat_of hnonzero]
    exact ⟨_, rfl⟩
  obtain ⟨-, hcount, hbytes⟩ := bitmapPreinit_spec hb
  rw [hpages] at hbytes
  have harea : alignAddressUpper (b.bufferSize.setWidth 64) pageSize = pageSize :=
    areaSize_of_pages hbytes hpos (by lia)
  have hsize : (b.bufferSize.setWidth 64 : QWORD) ≠ 0 := by
    intro hz
    have hz' : (b.bufferSize.setWidth 64 : QWORD).toNat = 0 := by rw [hz]; rfl
    have := b.bufferSize.isLt
    rw [BitVec.toNat_setWidth] at hz'
    lia
  unfold vmInitializeReservation bitmapInitEx
  simp only [assertThat_of hr.nonNull, assertThat_of hr.sizeNonZero, assertThat_of hr.aligned,
    assertThat_of hr.sizeAligned, assertThat_of hmax, hb, bind, Except.bind, pure, Except.pure,
    assertThat_of hsize, assertThat_of hal, assertThat_of hbuf, harea]
  refine ⟨fun hout => ?_, fun hin => ?_⟩
  · rw [hout]
    rfl
  · rw [assertThat_of hin]
    refine ⟨_, rfl, ⟨rfl, rfl, rfl, rfl⟩, rfl, rfl, ?_, ?_, ?_, ?_, ?_, ?_, ?_, ?_⟩
    all_goals simp [hcount]

end Reserve

/-- A whole region can be committed. -/
theorem vmCommitReservation_whole {s : VmmReservationSpace} {a n : QWORD} {r : VmmReservation}
    (hr : PageRange a n) (hva : r.startVa = a) (hbuf : r.commitBitmap.bitmapBuffer ≠ 0)
    (hcount : r.commitBitmap.bitCount = (n / pageSize).setWidth 32) :
    ∃ mem, vmCommitReservation s a n r = .ok { s with memory := mem } := by
  obtain ⟨hmax, hpages, hpos⟩ := hr.pages
  have hindex : pageIndex a r.startVa = 0 := by
    unfold pageIndex
    rw [hva, BitVec.sub_self]
    rfl
  have hlt : (0 : DWORD) < r.commitBitmap.bitCount := by
    rw [BitVec.lt_def, hcount, hpages]
    exact hpos
  have hle : (0 : DWORD) ≤ r.commitBitmap.bitCount - (n / pageSize).setWidth 32 :=
    BitVec.le_def.mpr (Nat.zero_le _)
  have hwidth : (0 : DWORD).toNat + ((n / pageSize).setWidth 32 : DWORD).toNat ≤ 2 ^ 32 := by
    have := ((n / pageSize).setWidth 32 : DWORD).isLt
    change 0 + _ ≤ _
    omega
  obtain ⟨mem, hmem, -⟩ := bitmapChangeBits_spec s.memory true hbuf 0
    ((n / pageSize).setWidth 32 : DWORD).toNat hwidth
  have hset : bitmapSetBitsValue s.memory r.commitBitmap ((0 : QWORD).setWidth 32)
      ((n / pageSize).setWidth 32) true = .ok mem := by
    unfold bitmapSetBitsValue
    change (assertThat ((0 : DWORD) < _) >>= fun _ => assertThat ((0 : DWORD) ≤ _) >>= fun _ => _) = _
    rw [assertThat_of hlt, assertThat_of hle]
    exact hmem
  refine ⟨mem, ?_⟩
  unfold vmCommitReservation vmSetReservation
  simp only [assertThat_of hr.nonNull, assertThat_of hr.sizeNonZero, assertThat_of hr.aligned,
    assertThat_of hr.sizeAligned, assertThat_of hmax, hindex,
    assertThat_of (show (0 : QWORD) ≤ maxDword by decide), bind, Except.bind, hset]
  rfl

/-- What an allocation leaves in the first slot. -/
structure Filled (s : VmmReservationSpace) (a n : QWORD) (attr : Attributes) : Prop where
  holds : Holds s a n
  rights : (s.slots 0).pageRights = attr.rights
  uncacheable : (s.slots 0).uncacheable = attr.uncacheable
  bufferNonNull : (s.slots 0).commitBitmap.bitmapBuffer ≠ 0
  bitCount : (s.slots 0).commitBitmap.bitCount = (n / pageSize).setWidth 32

section Change

variable {s : VmmReservationSpace} {a n : QWORD} (haddr : s.slotAddress 0 < s.bitmapAddressStart)
  (hr : PageRange a n)
include haddr hr

theorem reserve_unused (h : Unused s) (hbuf : s.freeBitmapAddress ≠ 0)
    (hal : isAddressAligned s.freeBitmapAddress pageSize = true) (attr : Attributes) :
    (checkBounds s.freeBitmapAddress pageSize s.reservationList s.reservedAreaSize = false →
      vmChangeVaReservationState s a n vmmAllocTypeReserve attr = .error .assertFailed) ∧
    (checkBounds s.freeBitmapAddress pageSize s.reservationList s.reservedAreaSize = true →
      ∃ s', vmChangeVaReservationState s a n vmmAllocTypeReserve attr = .ok (s', .success) ∧
        SameArea s s' ∧ s'.freeBitmapAddress = s.freeBitmapAddress + pageSize ∧
        s'.freeVirtualAddressPointer = s.freeVirtualAddressPointer ∧ Filled s' a n attr) := by
  have hfind := vmFindReservation_unused haddr h hr.nonNull hr.sizeNonZero
  obtain ⟨s₁, hfree, harea, hbitmap, hva, hlast⟩ := vmFindFirstFreeReservation_unused haddr h
  rw [← hbitmap] at hbuf hal
  obtain ⟨hout, hin⟩ := vmInitializeReservation_page hr hbuf hal attr
  rw [hbitmap, harea.list, harea.size] at hout hin
  have hkind : (vmmAllocTypeReserve == vmmAllocTypeReserve) ≠
      (vmmAllocTypeReserve == vmmAllocTypeCommit) := by decide
  unfold vmChangeVaReservationState
  simp only [assertThat_of hr.nonNull, assertThat_of hr.sizeNonZero, assertThat_of hkind,
    assertThat_of hr.aligned, assertThat_of hr.sizeAligned, hfind, hfree, bind, Except.bind, pure,
    Except.pure, ne_eq, not_true_eq_false, if_false]
  refine ⟨fun hb => ?_, fun hb => ?_⟩
  · rw [hout hb]
  · obtain ⟨s₂, hinit, harea₂, hbitmap₂, hva₂, hused, hstart, hsize, hrights, hunc, hbuffer, hcount,
      hsecond⟩ := hin hb
    rw [hinit]
    rw [hbitmap] at hbuf hal
    refine ⟨s₂, rfl, harea.trans harea₂, hbitmap₂, hva₂.trans hva, ?_⟩
    refine ⟨⟨hused, ?_, hstart, hsize, ?_⟩, hrights, hunc, ?_, hcount⟩
    · rw [hsecond, hlast]
    · rw [hbuffer]
      exact hal
    · rw [hbuffer]
      exact hbuf

theorem commit_filled {attr : Attributes} (h : Filled s a n attr) :
    ∃ mem, vmChangeVaReservationState s a n vmmAllocTypeCommit attr =
      .ok ({ s with memory := mem }, .success) := by
  have hfind := vmFindReservation_holds haddr h.holds hr.nonNull hr.sizeNonZero
  rw [if_pos (by simp [checkBounds])] at hfind
  obtain ⟨mem, hcommit⟩ := vmCommitReservation_whole (s := s) hr h.holds.startVa h.bufferNonNull
    h.bitCount
  have hkind : (vmmAllocTypeCommit == vmmAllocTypeReserve) ≠
      (vmmAllocTypeCommit == vmmAllocTypeCommit) := by decide
  refine ⟨mem, ?_⟩
  unfold vmChangeVaReservationState
  simp only [assertThat_of hr.nonNull, assertThat_of hr.sizeNonZero, assertThat_of hkind,
    assertThat_of hr.aligned, assertThat_of hr.sizeAligned, hfind, bind, Except.bind, pure,
    Except.pure, h.rights, h.uncacheable, hcommit, ne_eq, not_true_eq_false, if_false]
  rw [if_neg (by decide)]

end Change

/-- Allocations have taken one bitmap page each; the region that is allocated ends where the next one
will start. -/
structure CycleInv (metadata size : QWORD) (pages : ℕ) (s : CycleState) : Prop where
  list : s.space.reservationList = metadata
  area : s.space.reservedAreaSize = size
  bitmaps : s.space.bitmapAddressStart.toNat = metadata.toNat + 4096 * pages
  aligned : 4096 ∣ metadata.toNat
  freeBitmap : s.space.freeBitmapAddress.toNat = metadata.toNat + 4096 * (pages + s.allocs)
  room : 4096 * (pages + s.allocs) ≤ size.toNat
  pointer : 4096 ∣ s.space.freeVirtualAddressPointer.toNat
  empty : s.fault = none → s.region = none → Unused s.space
  held : ∀ a n, s.fault = none → s.region = some (a, n) →
    Holds s.space a n ∧ a ≠ 0 ∧ n ≠ 0 ∧ s.space.freeVirtualAddressPointer = a + n

theorem cycleInv_of_initialised {metadata base size : QWORD} {pages : ℕ} {s : VmmReservationSpace}
    (hi : Initialised metadata base size s) (ha : MetadataArea metadata size pages)
    (hstart : 4096 ∣ s.freeVirtualAddressPointer.toNat) :
    CycleInv metadata size pages ⟨s, none, 0, none⟩ := by
  have hm := metadataInv_of_initialised hi ha
  have hshare := ha.share
  have htop := ha.top
  obtain ⟨mem, s₀, hinit, rfl⟩ := hi.init
  obtain ⟨_, _, hinit⟩ := bind_eq_ok.mp hinit
  obtain ⟨_, haligned, hinit⟩ := bind_eq_ok.mp hinit
  obtain ⟨_, _, hinit⟩ := bind_eq_ok.mp hinit
  obtain ⟨share, _, hinit⟩ := bind_eq_ok.mp hinit
  have hal := (isAddressAligned_iff pageSize_toNat').mp (assertThat_eq_ok.mp haligned)
  have hbitmaps := hm.bitmaps
  cases hinit
  refine ⟨rfl, rfl, hbitmaps, hal, ?_, ?_, hstart, fun _ _ => Or.inl ?_, nofun⟩
  · change (metadata + share).toNat = _
    rw [add_zero]
    exact hbitmaps
  · change 4096 * (pages + 0) ≤ _
    lia
  · rw [hm.marker.last]

section Step

variable {metadata size : QWORD} {pages : ℕ} {s s' : CycleState}

theorem CycleInv.slotAddress_lt (hi : CycleInv metadata size pages s)
    (ha : MetadataArea metadata size pages) :
    s.space.slotAddress 0 < s.space.bitmapAddressStart := by
  have hpos := ha.positive
  have hzero : s.space.slotAddress 0 = metadata := by
    unfold VmmReservationSpace.slotAddress
    rw [hi.list]
    exact BitVec.add_zero metadata
  rw [hzero, BitVec.lt_def, hi.bitmaps]
  omega

/-- The check of `_VmInitializeReservation` against the end of the metadata area. -/
theorem CycleInv.checkBounds_iff (hi : CycleInv metadata size pages s)
    (ha : MetadataArea metadata size pages) :
    checkBounds s.space.freeBitmapAddress pageSize s.space.reservationList s.space.reservedAreaSize =
      true ↔ 4096 * (pages + s.allocs + 1) ≤ size.toNat := by
  have htop := ha.top
  have hfree := hi.freeBitmap
  have hroom := hi.room
  have hend : (metadata + size).toNat = metadata.toNat + size.toNat := by
    rw [BitVec.toNat_add]
    lia
  have hsum : (s.space.freeBitmapAddress + pageSize).toNat =
      s.space.freeBitmapAddress.toNat + 4096 := by
    rw [BitVec.toNat_add]
    change (_ + 4096) % _ = _
    lia
  rw [checkBounds_eq_true, hi.list, hi.area, hend, hsum, hfree]
  lia

theorem CycleInv.freeBitmap_ok (hi : CycleInv metadata size pages s)
    (ha : MetadataArea metadata size pages) :
    s.space.freeBitmapAddress ≠ 0 ∧ isAddressAligned s.space.freeBitmapAddress pageSize = true := by
  have hpos := ha.positive
  have hfree := hi.freeBitmap
  have hal := hi.aligned
  constructor
  · intro hz
    rw [hz] at hfree
    change 0 = _ at hfree
    lia
  · rw [isAddressAligned_iff pageSize_toNat', hfree]
    exact Nat.dvd_add hal (Nat.dvd_mul_right 4096 _)

theorem CycleInv.pageRange (hi : CycleInv metadata size pages s)
    (hne : s.space.freeVirtualAddressPointer ≠ 0) {n : QWORD} (hfit : FitsOnePage n) :
    PageRange s.space.freeVirtualAddressPointer (alignAddressUpper n pageSize) := by
  obtain ⟨hdvd, hpos, hle⟩ := hfit.aligned
  refine ⟨hne, fun hz => ?_, ?_, ?_, hle⟩
  · rw [hz] at hpos
    exact absurd hpos (by decide)
  · rw [isAddressAligned_iff pageSize_toNat']
    exact hi.pointer
  · rw [isAddressAligned_iff pageSize_toNat']
    exact hdvd

/-- An allocation succeeds as long as a bitmap page and an address are left. -/
theorem CycleInv.alloc (hi : CycleInv metadata size pages s) (ha : MetadataArea metadata size pages)
    (hf : s.fault = none) (hn : s.region = none) {n : QWORD} (hfit : FitsOnePage n)
    (attr : Attributes) :
    (¬(4096 * (pages + s.allocs + 1) ≤ size.toNat ∧ s.space.freeVirtualAddressPointer ≠ 0) →
      vmReservationSpaceAllocRegion s.space (cycleRequest n attr) = .error .assertFailed) ∧
    (4096 * (pages + s.allocs + 1) ≤ size.toNat → s.space.freeVirtualAddressPointer ≠ 0 →
      ∃ sp, vmReservationSpaceAllocRegion s.space (cycleRequest n attr) =
          .ok (sp, .ok (s.space.freeVirtualAddressPointer, alignAddressUpper n pageSize)) ∧
        CycleInv metadata size pages ⟨sp, some (s.space.freeVirtualAddressPointer,
          alignAddressUpper n pageSize), s.allocs + 1, none⟩) := by
  have hunused := hi.empty hf hn
  obtain ⟨hbuf, hal⟩ := hi.freeBitmap_ok ha
  have haddr := hi.slotAddress_lt ha
  have hdvd := (hfit.aligned).1
  set m := alignAddressUpper n pageSize with hm
  set a := s.space.freeVirtualAddressPointer with hva
  set sp : VmmReservationSpace := { s.space with freeVirtualAddressPointer := a + m } with hsp
  have hplace : s.space.place (cycleRequest n attr) = (sp, a, m) := rfl
  have hsize : n ≠ 0 := fun hz => by
    have := hfit.1
    rw [hz] at this
    exact absurd this (by decide)
  have hflags : isFlagOn (cycleRequest n attr).allocType (vmmAllocTypeCommit ||| vmmAllocTypeReserve) =
      true := (by decide : isFlagOn (vmmAllocTypeReserve ||| vmmAllocTypeCommit) _ = true)
  have hreserve : isBooleanFlagOn (cycleRequest n attr).allocType vmmAllocTypeReserve = true :=
    (by decide : isBooleanFlagOn (vmmAllocTypeReserve ||| vmmAllocTypeCommit) _ = true)
  have hcommit : isBooleanFlagOn (cycleRequest n attr).allocType vmmAllocTypeCommit = true :=
    (by decide : isBooleanFlagOn (vmmAllocTypeReserve ||| vmmAllocTypeCommit) _ = true)
  have hbase : ¬((cycleRequest n attr).baseAddress ≠ 0 ∧ a < s.space.startOfVirtualAddressSpace) :=
    fun h => h.1 rfl
  unfold vmReservationSpaceAllocRegion
  simp only [assertThat_of (show (cycleRequest n attr).size ≠ 0 from hsize), assertThat_of hflags,
    show (cycleRequest n attr).attr = attr from rfl, hplace, if_neg hbase, vmChangeIfRequested,
    hreserve, hcommit, if_true, bind, Except.bind]
  refine ⟨fun hb => ?_, fun hb hne => ?_⟩
  · by_cases hne : a = 0
    · have hnull : vmChangeVaReservationState sp a m vmmAllocTypeReserve attr =
          .error .assertFailed := by
        rw [hne]
        rfl
      simp only [hnull]
    · have hr : PageRange a m := hi.pageRange hne hfit
      have hfalse := mt (hi.checkBounds_iff ha).mp fun hle => hb ⟨hle, hne⟩
      rw [Bool.not_eq_true] at hfalse
      simp only [(reserve_unused (s := sp) haddr hr hunused hbuf hal attr).1 hfalse]
  · have hr : PageRange a m := hi.pageRange hne hfit
    obtain ⟨s₁, hres, harea, hbitmap, hpointer, hfilled⟩ :=
      (reserve_unused (s := sp) haddr hr hunused hbuf hal attr).2 ((hi.checkBounds_iff ha).mpr hb)
    have haddr₁ : s₁.slotAddress 0 < s₁.bitmapAddressStart := by
      rw [harea.slotAddress, harea.bitmaps]
      exact haddr
    obtain ⟨mem, hcom⟩ := commit_filled haddr₁ hr hfilled
    refine ⟨{ s₁ with memory := mem }, ?_, ?_⟩
    · simp only [hres, hcom, ne_eq, not_true_eq_false, if_false]
    · have htop := ha.top
      have hfree := hi.freeBitmap
      refine ⟨harea.list.trans hi.list, harea.size.trans hi.area, ?_, hi.aligned, ?_, ?_, ?_, (by rintro _ ⟨⟩), ?_⟩
      · change s₁.bitmapAddressStart.toNat = _
        rw [harea.bitmaps]
        exact hi.bitmaps
      · change s₁.freeBitmapAddress.toNat = metadata.toNat + 4096 * (pages + (s.allocs + 1))
        rw [hbitmap]
        change (s.space.freeBitmapAddress + pageSize).toNat = _
        rw [BitVec.toNat_add]
        change (_ + 4096) % _ = _
        lia
      · change 4096 * (pages + (s.allocs + 1)) ≤ _
        omega
      · change 4096 ∣ s₁.freeVirtualAddressPointer.toNat
        rw [hpointer]
        change 4096 ∣ (a + m).toNat
        rw [BitVec.toNat_add]
        exact (Nat.dvd_mod_iff (by norm_num)).mpr (Nat.dvd_add hi.pointer hdvd)
      · intro b k _ hbk
        cases hbk
        obtain ⟨hused, hlast, hstart, hlen, hbuffer⟩ := hfilled.holds
        exact ⟨⟨hused, hlast, hstart, hlen, hbuffer⟩, hr.nonNull, hr.sizeNonZero, hpointer⟩

/-- `CHECK_BOUNDS` accepts an address of the region unless the region reaches the end of the address
space. -/
theorem checkBounds_address {a k address : QWORD} (hin : address - a < k) :
    checkBounds address 1 a k = true ↔
      a.toNat + k.toNat < 2 ^ 64 ∨ address = BitVec.allOnes 64 := by
  have ha := a.isLt
  have hk := k.isLt
  have hd := address.isLt
  rw [BitVec.lt_def, BitVec.toNat_sub] at hin
  have hall : address = BitVec.allOnes 64 ↔ address.toNat = 2 ^ 64 - 1 := by
    rw [← BitVec.toNat_inj, BitVec.toNat_allOnes]
  have hone : (1 : QWORD).toNat = 1 := rfl
  rw [checkBounds_eq_true, BitVec.toNat_add, BitVec.toNat_add, hall, hone]
  lia

/-- A release empties the space, or panics because it does not find the region. -/
theorem CycleInv.free (hi : CycleInv metadata size pages s) (ha : MetadataArea metadata size pages)
    (hf : s.fault = none) {a k address : QWORD} (hregion : s.region = some (a, k))
    (hin : address - a < k) :
    (¬(a.toNat + k.toNat < 2 ^ 64 ∨ address = BitVec.allOnes 64) →
      ∃ fault, vmReservationSpaceFreeRegion s.space address 0 vmmFreeTypeRelease = .error fault) ∧
    (a.toNat + k.toNat < 2 ^ 64 ∨ address = BitVec.allOnes 64 →
      vmReservationSpaceFreeRegion s.space address 0 vmmFreeTypeRelease =
          .ok (s.space.setSlot 0 .zero, a, k) ∧
        CycleInv metadata size pages ⟨s.space.setSlot 0 .zero, none, s.allocs, none⟩) := by
  obtain ⟨hholds, hnull, -, -⟩ := hi.held a k hf hregion
  have haddr := hi.slotAddress_lt ha
  have hflag : isBooleanFlagOn vmmFreeTypeRelease vmmFreeTypeRelease = true := by decide
  have hnotDecommit : isBooleanFlagOn vmmFreeTypeRelease vmmFreeTypeDecommit = false := by decide
  by_cases hz : address = 0
  · refine ⟨fun _ => ⟨.assertFailed, ?_⟩, fun hok => ?_⟩
    · rw [hz]
      rfl
    · exfalso
      have hcheck := (checkBounds_address hin).mpr hok
      rw [hz] at hcheck
      rw [checkBounds_eq_true] at hcheck
      exact hnull (BitVec.eq_of_toNat_eq (Nat.le_zero.mp hcheck.1))
  · have hfind := vmFindReservation_holds haddr hholds hz (show (1 : QWORD) ≠ 0 by decide)
    unfold vmReservationSpaceFreeRegion
    simp only [assertThat_of hz, hfind, hflag, hnotDecommit, bind, Except.bind]
    refine ⟨fun hout => ⟨.assertFailed, ?_⟩, fun hok => ?_⟩
    · rw [if_neg (mt (checkBounds_address hin).mp hout)]
      rfl
    · rw [if_pos ((checkBounds_address hin).mpr hok)]
      refine ⟨?_, ?_⟩
      · simp only [assertThat_of hholds.buffer, hholds.startVa, hholds.size]
        rfl
      · refine ⟨hi.list, hi.area, hi.bitmaps, hi.aligned, hi.freeBitmap, hi.room, hi.pointer,
          fun _ _ => Or.inr ⟨?_, ?_⟩, (by rintro _ _ _ ⟨⟩)⟩
        · rw [setSlot_same]
          rfl
        · rw [setSlot_ne _ _ (by decide)]
          exact hholds.last

/-- A step keeps the invariant and ends in a fault exactly if there was no room for it. -/
theorem cycle_inv {c : CycleCall} (hi : CycleInv metadata size pages s)
    (ha : MetadataArea metadata size pages) (hs : cycle s c = some s') :
    CycleInv metadata size pages s' ∧ (s.fault = none → (s'.fault = none ↔ s.HasRoom pages c)) := by
  have hfaulted : ∀ fault, CycleInv metadata size pages { s with fault := some fault } :=
    fun fault => ⟨hi.list, hi.area, hi.bitmaps, hi.aligned, hi.freeBitmap, hi.room, hi.pointer,
      nofun, nofun⟩
  cases c with
  | alloc n attr =>
    simp only [cycle] at hs
    obtain ⟨⟨hf, hn, hfit⟩, hs⟩ := Option.ite_none_right_eq_some.mp hs
    obtain ⟨hout, hok⟩ := hi.alloc ha hf hn hfit attr
    rw [CycleState.HasRoom, hi.area]
    by_cases hroom : 4096 * (pages + s.allocs + 1) ≤ size.toNat ∧
        s.space.freeVirtualAddressPointer ≠ 0
    · obtain ⟨sp, halloc, hinv⟩ := hok hroom.1 hroom.2
      rw [halloc] at hs
      cases hs
      exact ⟨hinv, fun _ => ⟨fun _ => hroom, fun _ => rfl⟩⟩
    · rw [hout hroom] at hs
      cases hs
      exact ⟨hfaulted _, fun _ => ⟨nofun, fun h => absurd h hroom⟩⟩
  | free address =>
    cases hregion : s.region with
    | none => simp [cycle, hregion] at hs
    | some r =>
      obtain ⟨a, k⟩ := r
      simp only [cycle, hregion] at hs
      obtain ⟨⟨hf, hin⟩, hs⟩ := Option.ite_none_right_eq_some.mp hs
      obtain ⟨hout, hok⟩ := hi.free ha hf hregion hin
      have hcond : s.HasRoom pages (.free address) ↔
          a.toNat + k.toNat < 2 ^ 64 ∨ address = BitVec.allOnes 64 := by
        unfold CycleState.HasRoom
        rw [hregion]
        exact ⟨fun h => h (a, k) rfl, fun h r hr => by cases hr; exact h⟩
      rw [hcond]
      by_cases hroom : a.toNat + k.toNat < 2 ^ 64 ∨ address = BitVec.allOnes 64
      · obtain ⟨hfree, hinv⟩ := hok hroom
        rw [hfree] at hs
        cases hs
        exact ⟨hinv, fun _ => ⟨fun _ => hroom, fun _ => rfl⟩⟩
      · obtain ⟨fault, hfree⟩ := hout hroom
        have hinv := hfaulted fault
        rw [hregion] at hinv
        rw [hfree] at hs
        cases hs
        exact ⟨hinv, fun _ => ⟨nofun, fun h => absurd h hroom⟩⟩

end Step

/-- A run in which each region is released before the next one is allocated meets no failing `ASSERT`
exactly as long as there is room for its steps. -/
theorem always_noFault_iff {metadata base size : QWORD} {pages : ℕ} {s₀ : VmmReservationSpace}
    {tr : List (CycleState × CycleCall)} {s : CycleState} (hi : Initialised metadata base size s₀)
    (ha : MetadataArea metadata size pages) (hstart : 4096 ∣ s₀.freeVirtualAddressPointer.toNat)
    (h : Exec (fun s c s' => cycle s c = some s') ⟨s₀, none, 0, none⟩ tr s) :
    Always (fun s => s.fault = none) tr s ↔ ∀ v ∈ tr, v.1.HasRoom pages v.2 :=
  h.always_iff (I := CycleInv metadata size pages) (cycleInv_of_initialised hi ha hstart) rfl
    (fun _ _ _ hinv hs => (cycle_inv hinv ha hs).1)
    fun _ _ _ hinv hf hs => (cycle_inv hinv ha hs).2 hf

/-- The calls that allocate and release the page at `address`. -/
def pageCycle (address : QWORD) : List CycleCall := [.alloc 0x1000 ⟨1, false, 0⟩, .free address]

/-- Two pages, the second one in the slot of the first. -/
def twoPages : List CycleCall := pageCycle 0x140000000 ++ pageCycle 0x140001000

theorem twoPages_runs : (exec cycle ⟨processSpace, none, 0, none⟩ twoPages).isSome = true := by
  decide

theorem noFault_of_twoPages :
    Always (fun s => s.fault = none)
      ((exec cycle ⟨processSpace, none, 0, none⟩ twoPages).get twoPages_runs).1
      ((exec cycle ⟨processSpace, none, 0, none⟩ twoPages).get twoPages_runs).2 := by
  have harea : MetadataArea 0xFFFF850000000000 0x140000000 262144 :=
    ⟨by decide, by decide, by decide⟩
  refine (always_noFault_iff processSpace_initialised harea (by decide)
    (exec_get twoPages_runs)).mpr fun v hv => ?_
  have hall : (((exec cycle ⟨processSpace, none, 0, none⟩ twoPages).get twoPages_runs).1.all fun v =>
      decide (4096 * (262144 + v.1.allocs + 1) ≤ v.1.space.reservedAreaSize.toNat) &&
        decide (v.1.space.freeVirtualAddressPointer ≠ 0) &&
        v.1.region.all fun r => decide (r.1.toNat + r.2.toNat < 2 ^ 64)) = true := rfl
  have hroom := List.all_eq_true.mp hall v hv
  simp only [Bool.and_eq_true, decide_eq_true_eq, Option.all_eq_true] at hroom
  obtain ⟨⟨hbitmap, haddress⟩, hregion⟩ := hroom
  cases hc : v.2 with
  | alloc n attr => exact ⟨hbitmap, haddress⟩
  | free address => exact fun r hr => Or.inl (hregion r hr)

section Exhaust

variable {metadata base size : QWORD} {pages : ℕ} {s₀ : VmmReservationSpace}

/-- The page that the cycle with number `i` allocates. -/
def cyclePage (s₀ : VmmReservationSpace) (i : ℕ) : QWORD :=
  s₀.freeVirtualAddressPointer + BitVec.ofNat 64 (4096 * i)

/-- As long as there is room, a page can be allocated and released over and over. -/
theorem exec_pageCycles (hi : Initialised metadata base size s₀)
    (ha : MetadataArea metadata size pages) (hstart : 4096 ∣ s₀.freeVirtualAddressPointer.toNat)
    (hnull : s₀.freeVirtualAddressPointer ≠ 0) {k : ℕ} (hbitmap : 4096 * (pages + k) ≤ size.toNat)
    (haddress : s₀.freeVirtualAddressPointer.toNat + 4096 * k < 2 ^ 64) :
    ∃ tr sp, Exec (fun s c s' => cycle s c = some s') ⟨s₀, none, 0, none⟩ tr ⟨sp, none, k, none⟩ ∧
      tr.map Prod.snd = (List.range k).flatMap (fun i => pageCycle (cyclePage s₀ i)) ∧
      sp.freeVirtualAddressPointer = cyclePage s₀ k := by
  induction k with
  | zero => exact ⟨[], s₀, Exec.nil, rfl, (BitVec.add_zero _).symm⟩
  | succ k ih =>
    obtain ⟨tr, sp, hrun, hlabels, hva⟩ := ih (by omega) (by lia)
    have hinv : CycleInv metadata size pages ⟨sp, none, k, none⟩ :=
      (hrun.always (cycleInv_of_initialised hi ha hstart)
        fun _ _ _ hinv hs => (cycle_inv hinv ha hs).1).2
    have hpage : (cyclePage s₀ k).toNat = s₀.freeVirtualAddressPointer.toNat + 4096 * k := by
      unfold cyclePage
      rw [BitVec.toNat_add, BitVec.toNat_ofNat]
      lia
    have hne : cyclePage s₀ k ≠ 0 := by
      intro hz
      rw [hz] at hpage
      have hzero : (0 : QWORD).toNat = 0 := rfl
      exact hnull (BitVec.eq_of_toNat_eq (by lia))
    have hfit : FitsOnePage 0x1000 := by decide
    have hround : alignAddressUpper 0x1000 pageSize = 0x1000 := by decide
    obtain ⟨sp₁, halloc, hinv₁⟩ := (hinv.alloc ha rfl rfl hfit ⟨1, false, 0⟩).2 hbitmap
      (by rw [hva]; exact hne)
    simp only [hva, hround] at halloc hinv₁
    obtain ⟨-, -, -, hnext⟩ := hinv₁.held _ _ rfl rfl
    have hin : cyclePage s₀ k - cyclePage s₀ k < 0x1000 := by
      rw [BitVec.sub_self]
      decide
    have hlength : (0x1000 : QWORD).toNat = 4096 := rfl
    have hend : (cyclePage s₀ k).toNat + (0x1000 : QWORD).toNat < 2 ^ 64 := by lia
    obtain ⟨hfree, -⟩ := (hinv₁.free ha rfl rfl hin).2 (Or.inl hend)
    refine ⟨tr ++ [(⟨sp, none, k, none⟩, .alloc 0x1000 ⟨1, false, 0⟩)] ++
      [(⟨sp₁, some (cyclePage s₀ k, 0x1000), k + 1, none⟩, .free (cyclePage s₀ k))],
      sp₁.setSlot 0 .zero, (hrun.snoc ?_).snoc ?_, ?_, ?_⟩
    · simp only [cycle, halloc, hfit, and_self, if_true]
    · simp only [cycle, hin, hfree, and_self, if_true]
    · simp [hlabels, List.range_succ, pageCycle]
    · change sp₁.freeVirtualAddressPointer = _
      rw [hnext]
      unfold cyclePage
      apply BitVec.eq_of_toNat_eq
      rw [BitVec.toNat_add, BitVec.toNat_add, BitVec.toNat_add, BitVec.toNat_ofNat,
        BitVec.toNat_ofNat, hlength]
      lia

end Exhaust

/-- A process allocates and releases a page 1048576 times; the `ASSERT` on the metadata area fails in
the next allocation. -/
theorem metadata_exhausted :
    ∃ tr s, Exec (fun s c s' => cycle s c = some s') ⟨processSpace, none, 0, none⟩ tr s ∧
      tr.map Prod.snd = (List.range 1048576).flatMap (fun i => pageCycle (cyclePage processSpace i)) ++
        [.alloc 0x1000 ⟨1, false, 0⟩] ∧
      s.fault = some .assertFailed := by
  have harea : MetadataArea 0xFFFF850000000000 0x140000000 262144 :=
    ⟨by decide, by decide, by decide⟩
  obtain ⟨tr, sp, hrun, hlabels, -⟩ := exec_pageCycles processSpace_initialised harea (by decide)
    (by decide) (k := 1048576) (by decide) (by decide)
  have hinv := (hrun.always (cycleInv_of_initialised processSpace_initialised harea (by decide))
    fun _ _ _ hinv hs => (cycle_inv hinv harea hs).1).2
  have hfit : FitsOnePage 0x1000 := by decide
  have hfull : ¬4096 * (262144 + 1048576 + 1) ≤ (0x140000000 : QWORD).toNat := by decide
  have halloc := (hinv.alloc harea rfl rfl hfit ⟨1, false, 0⟩).1 fun h => hfull h.1
  refine ⟨tr ++ [(⟨sp, none, 1048576, none⟩, .alloc 0x1000 ⟨1, false, 0⟩)],
    ⟨sp, none, 1048576, some .assertFailed⟩, hrun.snoc ?_, ?_, rfl⟩
  · simp only [cycle, halloc, hfit, and_self, if_true]
  · rw [List.map_append, hlabels]
    rfl

end HAL9000.Vmm
