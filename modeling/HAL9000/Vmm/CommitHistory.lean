import HAL9000.CommonLib.BitmapBits
import HAL9000.Vmm.Overlap
import HAL9000.Vmm.PageFault

/-! Commit semantics: `VmReservationCanAddressBeAccessed` against the history of the calls that were
granted. The commit bitmaps remember the last commit or decommit of every page. -/
namespace HAL9000.Vmm

open Run

/-- What a granted call did. -/
inductive SpaceEvent
  | reserved (base size : QWORD) (attr : Attributes)
  | committed (base size : QWORD)
  | decommitted (base size : QWORD)
  | released (base size : QWORD)
  deriving DecidableEq, Repr

structure Reservation where
  base : QWORD
  size : QWORD
  attr : Attributes
  deriving DecidableEq, Repr

/-- The events of a call, newest first. -/
def eventsOf (s : VmmReservationSpace) : Call → List SpaceEvent
  | .alloc req =>
    match vmReservationSpaceAllocRegion s req with
    | .ok (_, .ok (base, size)) =>
      (if isBooleanFlagOn req.allocType vmmAllocTypeCommit then [.committed base size] else []) ++
        if isBooleanFlagOn req.allocType vmmAllocTypeReserve then [.reserved base size req.attr]
        else []
    | _ => []
  | .free address size freeType =>
    match vmReservationSpaceFreeRegion s address size freeType with
    | .ok (_, base, n) =>
      if isBooleanFlagOn freeType vmmFreeTypeRelease then [.released base n]
      else [.decommitted base n]
    | .error _ => []

/-- The events of a run, newest first. -/
def history (tr : List (VmmReservationSpace × Call)) : List SpaceEvent :=
  tr.foldl (fun h v => eventsOf v.1 v.2 ++ h) []

theorem history_snoc (tr : List (VmmReservationSpace × Call)) (s : VmmReservationSpace) (c : Call) :
    history (tr ++ [(s, c)]) = eventsOf s c ++ history tr := by
  simp [history]

/-- The reservation was made and not released since. -/
def Live (r : Reservation) : List SpaceEvent → Prop
  | [] => False
  | .reserved base size attr :: h => r = ⟨base, size, attr⟩ ∨ Live r h
  | .released base size :: h => Live r h ∧ ¬ (r.base = base ∧ r.size = size)
  | .committed _ _ :: h => Live r h
  | .decommitted _ _ :: h => Live r h

/-- Since the reservation of the address was made, the last event that covers it is a commit. -/
def LastIsCommit (a : QWORD) : List SpaceEvent → Prop
  | [] => False
  | .reserved base size _ :: h => ¬ InBuffer base size a ∧ LastIsCommit a h
  | .released _ _ :: h => LastIsCommit a h
  | .committed base size :: h => InBuffer base size a ∨ LastIsCommit a h
  | .decommitted base size :: h => ¬ InBuffer base size a ∧ LastIsCommit a h

/-- The range lies in a live reservation. -/
def InsideOne (h : List SpaceEvent) (base size : QWORD) : Prop :=
  ∃ r, Live r h ∧ r.base.toNat ≤ base.toNat ∧
    base.toNat + size.toNat ≤ r.base.toNat + r.size.toNat

/-- Every commit and decommit stays inside one reservation. -/
def CommitsInside : List SpaceEvent → Prop
  | [] => True
  | .committed base size :: h => InsideOne h base size ∧ CommitsInside h
  | .decommitted base size :: h => InsideOne h base size ∧ CommitsInside h
  | .reserved _ _ _ :: h => CommitsInside h
  | .released _ _ :: h => CommitsInside h

/-- No reservation reaches the end of the address space. -/
def EndsBelow (h : List SpaceEvent) : Prop :=
  ∀ base size attr, .reserved base size attr ∈ h → base.toNat + size.toNat < 2 ^ 64

/-- What the access check returns for an address of the reservation. -/
def Reservation.description (r : Reservation) (a : QWORD) : PageDescription where
  pageRights := r.attr.rights
  uncacheable := r.attr.uncacheable
  backingFile := r.attr.fileObject
  fileOffset := if r.attr.fileObject ≠ 0 then alignAddressLower (a - r.base) pageSize else 0

/-- The access check returns, and grants exactly the accesses that the history allows. -/
def AccessCorrect (s : VmmReservationSpace) (h : List SpaceEvent) (vmmMemoryAccess : Bool)
    (a : QWORD) (rights : DWORD) : Prop :=
  ∃ result, vmReservationCanAddressBeAccessed s vmmMemoryAccess a rights = .ok result ∧
    ∀ d, result = some d ↔ ∃ r, Live r h ∧ InBuffer r.base r.size a ∧ LastIsCommit a h ∧
      isBooleanFlagOn r.attr.rights rights = true ∧ d = r.description a

/-- The reservation that a slot describes. -/
def VmmReservationSpace.reservationAt (s : VmmReservationSpace) (i : ℕ) : Reservation :=
  ⟨(s.slots i).startVa, (s.slots i).size, (s.slots i).attributes⟩

/-- The slots and their bitmaps hold what the history says. -/
structure HistoryInv (h : List SpaceEvent) (s : VmmReservationSpace) : Prop where
  live : ∀ r, Live r h ↔ ∃ i, s.Used i ∧ s.reservationAt i = r
  nonEmpty : ∀ i, s.Used i → (s.slots i).size ≠ 0
  below : ∀ i, s.Used i → (s.slots i).startVa.toNat + (s.slots i).size.toNat < 2 ^ 64
  bufferSize : ∀ i, s.Used i →
    (s.slots i).commitBitmap.bufferSize.toNat = ((s.slots i).size.toNat / 4096 + 7) / 8
  bits : ∀ i, s.Used i → ∀ a, InBuffer (s.slots i).startVa (s.slots i).size a →
    (s.committed (s.slots i) ((a.toNat - (s.slots i).startVa.toNat) / 4096) = true ↔
      LastIsCommit a h)

section Bits

variable {s s' : VmmReservationSpace}

theorem committed_eq_bitAt {r : VmmReservation} (hok : SlotOk r) {page : ℕ} (hp : page < 2 ^ 32) :
    s.committed r page = bitAt s.memory r.commitBitmap.bitmapBuffer page := by
  have hget := @bitmapGetBit_eq s.memory _ hok.buffer (BitVec.ofNat 32 page)
  rw [BitVec.toNat_ofNat, Nat.mod_eq_of_lt hp, bitmapGetBit, assertThat_of hok.buffer] at hget
  exact Except.ok.inj hget

theorem bufferSize_le_areaSize (b : Bitmap) : b.bufferSize.toNat ≤ (Bitmap.areaSize b).toNat := by
  have hlt := b.bufferSize.isLt
  have hw : (b.bufferSize.setWidth 64 : QWORD).toNat = b.bufferSize.toNat := by
    rw [BitVec.toNat_setWidth]
    lia
  have hpad := alignPadding_lt b.bufferSize.toNat (show 0 < 4096 by norm_num)
  have heq := @alignAddressUpper_toNat (b.bufferSize.setWidth 64) pageSize 12 rfl
  rw [hw, show pageSize.toNat = 4096 from rfl] at heq
  rw [Bitmap.areaSize, heq]
  lia

/-- The byte of a commit bit lies in the area of its bitmap. -/
theorem byteAddress_mem_area {metadata size : QWORD} {pages m i : ℕ}
    (ha : MetadataArea metadata size pages) (hm : MetadataInv metadata size pages m s)
    {h : List SpaceEvent} (hi : HistoryInv h s) (hu : s.Used i) (hok : SlotOk (s.slots i))
    {page : ℕ}
    (hp : page < (s.slots i).size.toNat / 4096) :
    (byteAddress (s.slots i).commitBitmap.bitmapBuffer (BitVec.ofNat 32 page)).toNat =
        (s.slots i).commitBitmap.bitmapBuffer.toNat + page / 8 ∧
      (byteAddress (s.slots i).commitBitmap.bitmapBuffer (BitVec.ofNat 32 page)).toNat ∈
        Bitmap.area (s.slots i).commitBitmap := by
  have hpages := hok.pages
  have hsize := hi.bufferSize i hu
  have hle := bufferSize_le_areaSize (s.slots i).commitBitmap
  have hhigh := hm.bufferHigh i hu
  have hbound := hm.bound
  have htop := ha.top
  have hidx : ((BitVec.ofNat 32 page / 8 : DWORD).setWidth 64 : QWORD).toNat = page / 8 := by
    rw [BitVec.toNat_setWidth, BitVec.toNat_udiv, BitVec.toNat_ofNat,
      show (8 : DWORD).toNat = 8 from rfl]
    lia
  have haddr : (byteAddress (s.slots i).commitBitmap.bitmapBuffer (BitVec.ofNat 32 page)).toNat =
      (s.slots i).commitBitmap.bitmapBuffer.toNat + page / 8 := by
    rw [byteAddress, BitVec.toNat_add, hidx]
    lia
  refine ⟨haddr, ?_⟩
  rw [haddr]
  exact ⟨by lia, by lia⟩

private theorem sub_lt_of_inBuffer {base size a : QWORD} (h : InBuffer base size a) :
    a - base < size := by
  obtain ⟨hlow, hhigh⟩ := h
  rw [BitVec.lt_def, BitVec.toNat_sub_of_le (BitVec.le_def.mpr hlow)]
  omega

/-- No address lies in two reservations. -/
theorem NoOverlap.unique (hno : NoOverlap s) {i j : ℕ} (hi : s.Used i) (hj : s.Used j) {a : QWORD}
    (hai : InBuffer (s.slots i).startVa (s.slots i).size a)
    (haj : InBuffer (s.slots j).startVa (s.slots j).size a) : i = j := by
  by_contra hne
  exact hno i j hne hi hj a ⟨sub_lt_of_inBuffer hai, sub_lt_of_inBuffer haj⟩

theorem start_inBuffer {base size : QWORD} (hne : size ≠ 0) : InBuffer base size base := by
  have : size.toNat ≠ 0 := fun h => hne (BitVec.eq_of_toNat_eq h)
  exact ⟨Nat.le_refl _, by omega⟩

/-- `CHECK_BOUNDS` of a single byte that is not the last one of the address space. -/
theorem contains_one_iff {base size a : QWORD} (hbelow : base.toNat + size.toNat < 2 ^ 64)
    (ha : a.toNat + 1 < 2 ^ 64) : checkBounds a 1 base size = true ↔ InBuffer base size a := by
  rw [checkBounds_eq_true, BitVec.toNat_add, BitVec.toNat_add, Nat.mod_eq_of_lt hbelow,
    show (1 : QWORD).toNat = 1 from rfl, Nat.mod_eq_of_lt ha]
  exact Iff.rfl

/-- A call that leaves slots and commit bits alone. -/
theorem HistoryInv.same {h : List SpaceEvent} (hi : HistoryInv h s) (hslots : s'.slots = s.slots)
    (hmem : s'.memory = s.memory) : HistoryInv h s' := by
  have hused : ∀ i, s'.Used i ↔ s.Used i := fun i => by
    rw [VmmReservationSpace.Used, hslots, VmmReservationSpace.Used]
  refine ⟨fun r => ?_, fun i hu => ?_, fun i hu => ?_, fun i hu => ?_, fun i hu a ha => ?_⟩
  · rw [hi.live r]
    simp only [hused, VmmReservationSpace.reservationAt, hslots]
  · rw [hslots]
    exact hi.nonEmpty i ((hused i).mp hu)
  · rw [hslots]
    exact hi.below i ((hused i).mp hu)
  · rw [hslots]
    exact hi.bufferSize i ((hused i).mp hu)
  · rw [VmmReservationSpace.committed, hslots, hmem]
    rw [hslots] at ha
    exact hi.bits i ((hused i).mp hu) a ha

/-- A release takes the reservation of its slot away and nothing else. -/
theorem HistoryInv.released {h : List SpaceEvent} {i : ℕ} (hi : HistoryInv h s) (hno : NoOverlap s)
    (hr : Released s s' i) :
    HistoryInv (.released (s.slots i).startVa (s.slots i).size :: h) s' := by
  have hof : ∀ j, s'.Used j → s'.slots j = s.slots j ∧ s.Used j := fun j hj => hr.of_used hj
  have hback : ∀ j, s.Used j → j ≠ i → s'.Used j := by
    intro j hj hne
    rw [hr.eq, VmmReservationSpace.Used, setSlot_ne _ _ hne]
    exact hj
  have hgone : ¬ s'.Used i := by
    rw [hr.eq]
    simp [VmmReservationSpace.Used, VmmReservation.zero]
  have hmem : s'.memory = s.memory := by
    rw [hr.eq]
    rfl
  refine ⟨fun r => ?_, fun j hj => ?_, fun j hj => ?_, fun j hj => ?_, fun j hj x hx => ?_⟩
  · rw [Live, hi.live r]
    constructor
    · intro hall
      obtain ⟨⟨j, hj, rfl⟩, hne⟩ := hall
      have hji : j ≠ i := by
        intro hji
        subst hji
        exact hne ⟨rfl, rfl⟩
      have hj' := hback j hj hji
      refine ⟨j, hj', ?_⟩
      rw [VmmReservationSpace.reservationAt, (hof j hj').1, VmmReservationSpace.reservationAt]
    · intro hall
      obtain ⟨j, hj', rfl⟩ := hall
      obtain ⟨heq, hj⟩ := hof j hj'
      rw [VmmReservationSpace.reservationAt, heq]
      refine ⟨⟨j, hj, rfl⟩, fun hsame => hgone ?_⟩
      have hbase : (s.slots j).startVa = (s.slots i).startVa := hsame.1
      have hji : j = i := by
        apply hno.unique hj hr.used (a := (s.slots i).startVa)
        · rw [← hbase]
          exact start_inBuffer (hi.nonEmpty j hj)
        · exact start_inBuffer (hi.nonEmpty i hr.used)
      rwa [hji] at hj'
  · obtain ⟨heq, hj⟩ := hof j hj
    rw [heq]
    exact hi.nonEmpty j hj
  · obtain ⟨heq, hj⟩ := hof j hj
    rw [heq]
    exact hi.below j hj
  · obtain ⟨heq, hj⟩ := hof j hj
    rw [heq]
    exact hi.bufferSize j hj
  · obtain ⟨heq, hj⟩ := hof j hj
    rw [heq] at hx ⊢
    rw [VmmReservationSpace.committed, hmem]
    exact hi.bits j hj x hx

section Step

variable {metadata size : QWORD} {pages m : ℕ} {h : List SpaceEvent}
  (ha : MetadataArea metadata size pages) (hm : MetadataInv metadata size pages m s)
  (hok : ∀ i, s.Used i → SlotOk (s.slots i)) (hi : HistoryInv h s)
include ha hm hok hi

/-- A new reservation has no committed pages, and the bits of the others keep their values. -/
theorem HistoryInv.reserved {i : ℕ} {a n : QWORD} {attr : Attributes} (hr : Reserved s s' i a n)
    (hattr : (s'.slots i).attributes = attr)
    (hmem : s'.memory = memset s.memory s.freeBitmapAddress 0
      ((s'.slots i).commitBitmap.bufferSize.setWidth 64))
    (hno : NoOverlap s') (hbelow : a.toNat + n.toNat < 2 ^ 64) :
    HistoryInv (.reserved a n attr :: h) s' := by
  have hat : s'.reservationAt i = ⟨a, n, attr⟩ := by
    rw [VmmReservationSpace.reservationAt, hr.startVa, hr.size, hattr]
  have hui : s'.Used i := (hr.used i).mpr (Or.inl rfl)
  have holdAt : ∀ j, s.Used j → s'.reservationAt j = s.reservationAt j := by
    intro j hj
    rw [VmmReservationSpace.reservationAt, hr.same j hj, VmmReservationSpace.reservationAt]
  have hnew := hr.slotOk
  have hdiv : (n / pageSize).toNat = n.toNat / 4096 := BitVec.toNat_udiv
  have hsize : (s'.slots i).commitBitmap.bufferSize.toNat = (n.toNat / 4096 + 7) / 8 := by
    rw [hr.bufferSize, hdiv]
  have hsize64 : ((s'.slots i).commitBitmap.bufferSize.setWidth 64 : QWORD).toNat =
      (n.toNat / 4096 + 7) / 8 := by
    have := (s'.slots i).commitBitmap.bufferSize.isLt
    rw [BitVec.toNat_setWidth, hsize]
    lia
  refine ⟨fun r => ?_, fun j hj => ?_, fun j hj => ?_, fun j hj => ?_, fun j hj x hx => ?_⟩
  · rw [Live, hi.live r]
    constructor
    · intro hcase
      rcases hcase with rfl | ⟨j, hj, rfl⟩
      · exact ⟨i, hui, hat⟩
      · exact ⟨j, (hr.used j).mpr (Or.inr hj), holdAt j hj⟩
    · intro hcase
      obtain ⟨j, hj, rfl⟩ := hcase
      rcases (hr.used j).mp hj with rfl | hj
      · exact Or.inl hat
      · exact Or.inr ⟨j, hj, (holdAt j hj).symm⟩
  · rcases (hr.used j).mp hj with rfl | hj
    · rw [hr.size]
      exact hr.sizeNonZero
    · rw [hr.same j hj]
      exact hi.nonEmpty j hj
  · rcases (hr.used j).mp hj with rfl | hj
    · rw [hr.startVa, hr.size]
      exact hbelow
    · rw [hr.same j hj]
      exact hi.below j hj
  · rcases (hr.used j).mp hj with rfl | hj
    · rw [hr.size]
      exact hsize
    · rw [hr.same j hj]
      exact hi.bufferSize j hj
  · rw [LastIsCommit]
    by_cases hji : j = i
    · subst hji
      rw [hr.startVa, hr.size] at hx
      have hpages := hnew.pages
      have hna := hnew.sizeAligned
      rw [hr.size] at hpages hna
      obtain ⟨hlow, hhigh⟩ := hx
      refine iff_of_false ?_ fun hc => hc.1 ⟨hlow, hhigh⟩
      rw [committed_eq_bitAt hnew (by rw [hr.startVa]; lia), bitAt, hmem, hr.buffer, hr.startVa]
      obtain ⟨page, hpage⟩ : ∃ page, page = (x.toNat - a.toNat) / 4096 := ⟨_, rfl⟩
      have hidx : ((BitVec.ofNat 32 page / 8 : DWORD).setWidth 64 : QWORD).toNat = page / 8 := by
        rw [BitVec.toNat_setWidth, BitVec.toNat_udiv, BitVec.toNat_ofNat,
          show (8 : DWORD).toNat = 8 from rfl]
        lia
      have hin : byteAddress s.freeBitmapAddress (BitVec.ofNat 32 page) - s.freeBitmapAddress <
          (s'.slots j).commitBitmap.bufferSize.setWidth 64 := by
        rw [byteAddress, BitVec.add_comm, BitVec.add_sub_cancel, BitVec.lt_def, hidx, hsize64]
        omega
      rw [← hpage, memset, if_pos hin]
      simp
    · have hj := ((hr.used j).mp hj).resolve_left hji
      rw [hr.same j hj] at hx ⊢
      have hout : ¬ InBuffer a n x := by
        intro hxa
        apply hji
        refine hno.unique ((hr.used j).mpr (Or.inr hj)) hui (a := x) ?_ ?_
        · rw [hr.same j hj]
          exact hx
        · rw [hr.startVa, hr.size]
          exact hxa
      rw [and_iff_right hout, ← hi.bits j hj x hx]
      obtain ⟨hlow, hhigh⟩ := hx
      have hpages := (hok j hj).pages
      have hna := (hok j hj).sizeAligned
      have hin : (x.toNat - (s.slots j).startVa.toNat) / 4096 < (s.slots j).size.toNat / 4096 := by
        omega
      obtain ⟨hbyte, hmemArea⟩ := byteAddress_mem_area ha hm hi hj (hok j hj) hin
      have hhighArea := hm.bufferHigh j hj
      have hbound := hm.bound
      have htop := ha.top
      have hnpages := hnew.pages
      rw [hr.size] at hnpages
      rw [committed_eq_bitAt (hok j hj) (by lia), committed_eq_bitAt (hok j hj) (by omega), bitAt,
        bitAt, hmem, memset, if_neg]
      rw [BitVec.lt_def, hsize64, BitVec.toNat_sub]
      have hlt := lt_of_lt_of_le hmemArea.2 hhighArea
      have hfree := s.freeBitmapAddress.isLt
      lia

omit ha hm hok hi in
theorem live_change {a n : QWORD} {set : Bool} (r : Reservation) :
    Live r ((if set then .committed a n else .decommitted a n) :: h) ↔ Live r h := by
  cases set
  · exact Iff.rfl
  · exact Iff.rfl

omit ha hm hok hi in
theorem lastIsCommit_change {a n : QWORD} {set : Bool} (x : QWORD) :
    LastIsCommit x ((if set then .committed a n else .decommitted a n) :: h) ↔
      if InBuffer a n x then set = true else LastIsCommit x h := by
  cases set
  · by_cases hx : InBuffer a n x
    · simp [LastIsCommit, hx]
    · simp [LastIsCommit, hx]
  · by_cases hx : InBuffer a n x
    · simp [LastIsCommit, hx]
    · simp [LastIsCommit, hx]

/-- A range of commit bits changes as asked for, and no other bit of a reservation. -/
theorem HistoryInv.changed {i : ℕ} {a n : QWORD} {set : Bool} (hno : NoOverlap s) (hu : s.Used i)
    (hlow : (s.slots i).startVa.toNat ≤ a.toNat)
    (hhigh : a.toNat + n.toNat ≤ (s.slots i).startVa.toNat + (s.slots i).size.toNat)
    (hset : vmSetReservation s a n (s.slots i) set = .ok s') :
    HistoryInv ((if set then .committed a n else .decommitted a n) :: h) s' := by
  have hslot := hok i hu
  have hbelow := hi.below i hu
  have hpages := hslot.pages
  have hsa := hslot.aligned
  have hsn := hslot.sizeAligned
  obtain ⟨_, _, hset⟩ := bind_eq_ok.mp hset
  obtain ⟨_, hn0, hset⟩ := bind_eq_ok.mp hset
  obtain ⟨_, haa, hset⟩ := bind_eq_ok.mp hset
  obtain ⟨_, hna, hset⟩ := bind_eq_ok.mp hset
  obtain ⟨_, _, hset⟩ := bind_eq_ok.mp hset
  obtain ⟨_, _, hset⟩ := bind_eq_ok.mp hset
  obtain ⟨mem', hbits, hset⟩ := bind_eq_ok.mp hset
  cases hset
  have hn0 : n.toNat ≠ 0 := fun h0 => assertThat_eq_ok.mp hn0 (BitVec.eq_of_toNat_eq h0)
  have haa := (isAddressAligned_iff (show pageSize.toNat = 2 ^ 12 from rfl)).mp
    (assertThat_eq_ok.mp haa)
  have hna := (isAddressAligned_iff (show pageSize.toNat = 2 ^ 12 from rfl)).mp
    (assertThat_eq_ok.mp hna)
  rw [show pageSize.toNat = 4096 from rfl] at haa hna
  have hdiv : (n / pageSize).toNat = n.toNat / 4096 := BitVec.toNat_udiv
  have hidx : (pageIndex a (s.slots i).startVa).toNat =
      (a.toNat - (s.slots i).startVa.toNat) / 4096 := by
    apply hslot.pageIndex_toNat
    · rw [BitVec.toNat_sub_of_le (BitVec.le_def.mpr hlow)]
    · lia
  have hlo : ((pageIndex a (s.slots i).startVa).setWidth 32 : DWORD).toNat =
      (a.toNat - (s.slots i).startVa.toNat) / 4096 := by
    rw [BitVec.toNat_setWidth, hidx]
    lia
  have hcnt : ((n / pageSize).setWidth 32 : DWORD).toNat = n.toNat / 4096 := by
    rw [BitVec.toNat_setWidth, hdiv]
    lia
  obtain ⟨_, _, hbits⟩ := bind_eq_ok.mp hbits
  obtain ⟨_, _, hbits⟩ := bind_eq_ok.mp hbits
  obtain ⟨mem₂, hmem₂, hchanged⟩ := bitmapChangeBits_spec s.memory set hslot.buffer
    ((pageIndex a (s.slots i).startVa).setWidth 32) ((n / pageSize).setWidth 32 : DWORD).toNat
    (by lia)
  obtain rfl : mem₂ = mem' := Except.ok.inj (hmem₂.symm.trans hbits)
  rw [hlo, hcnt] at hchanged
  clear hdiv hidx hlo hcnt hn0
  refine ⟨fun r => ?_, hi.nonEmpty, hi.below, hi.bufferSize, fun j hj x hx => ?_⟩
  · rw [live_change]
    exact hi.live r
  · change InBuffer (s.slots j).startVa (s.slots j).size x at hx
    have hokj := hok j hj
    have hpagesj := hokj.pages
    have hsnj := hokj.sizeAligned
    have hxl := hx.1
    have hxh := hx.2
    obtain ⟨page, hpage⟩ : ∃ page, page = (x.toNat - (s.slots j).startVa.toNat) / 4096 := ⟨_, rfl⟩
    have hin : page < (s.slots j).size.toNat / 4096 := by
      rw [hpage]
      omega
    obtain ⟨-, hmemj⟩ := byteAddress_mem_area ha hm hi hj hokj hin
    have hold := hi.bits j hj x hx
    rw [← hpage, committed_eq_bitAt hokj (by omega)] at hold
    change VmmReservationSpace.committed { s with memory := mem₂ } (s.slots j) _ = true ↔ _
    rw [← hpage, committed_eq_bitAt hokj (by omega), lastIsCommit_change]
    obtain ⟨hon, hoff⟩ := hchanged
      (byteAddress (s.slots j).commitBitmap.bitmapBuffer (BitVec.ofNat 32 page)) (page % 8)
      (Nat.mod_lt _ (by norm_num))
    by_cases hji : j = i
    · subst hji
      rw [covers_iff (by omega) (by omega)] at hon hoff
      by_cases hxa : InBuffer a n x
      · rw [if_pos hxa, ← hon ⟨by have := hxa.1; lia, by have := hxa.2; omega⟩]
        rfl
      · rw [if_neg hxa, ← hold, bitAt, bitAt]
        apply iff_of_eq
        apply congrArg (· = true)
        apply hoff
        intro hc
        apply hxa
        exact ⟨by omega, by lia⟩
    · have hxa : ¬ InBuffer a n x := fun hxa =>
        hji (hno.unique hj hu hx ⟨hlow.trans hxa.1, hxa.2.trans_le hhigh⟩)
      rw [if_neg hxa, ← hold, bitAt, bitAt]
      apply iff_of_eq
      apply congrArg (· = true)
      apply hoff
      intro hc
      obtain ⟨p, hp₁, hp₂, hp₃, -⟩ := hc
      have hpi : p < (s.slots i).size.toNat / 4096 := by lia
      obtain ⟨-, hmemi⟩ := byteAddress_mem_area ha hm hi hu hslot hpi
      rw [hp₃] at hmemj
      exact Set.disjoint_left.mp (hm.disjoint j i hji hj hu) hmemj hmemi

/-- A reservation that goes through. -/
theorem HistoryInv.reserve {a n : QWORD} {attr : Attributes}
    (hset : vmChangeVaReservationState s a n vmmAllocTypeReserve attr = .ok (s', .success))
    (hno : NoOverlap s') (hbelow : a.toNat + n.toNat < 2 ^ 64) :
    HistoryInv (.reserved a n attr :: h) s' := by
  obtain ⟨hst, -⟩ | ⟨-, -, i, ⟨m', hr, -⟩, hattr, hmem⟩ := reserve_cases hm.marker hset
  · cases hst
  · exact HistoryInv.reserved ha hm hok hi hr hattr hmem hno hbelow

omit ha hm hok in
/-- The reservation that `CHECK_BOUNDS` finds for a range inside a live one is that one. -/
theorem HistoryInv.found {a n : QWORD} {i : ℕ} (hin : InsideOne h a n) (hc : s.Contains a n i) :
    (s.slots i).startVa.toNat ≤ a.toNat ∧
      a.toNat + n.toNat ≤ (s.slots i).startVa.toNat + (s.slots i).size.toNat := by
  obtain ⟨r, hlive, hlow, hhigh⟩ := hin
  obtain ⟨k, hk, rfl⟩ := (hi.live r).mp hlive
  have hbelow : a.toNat + n.toNat < 2 ^ 64 := hhigh.trans_lt (hi.below k hk)
  obtain ⟨hu, hc⟩ := hc
  have hbelowi := hi.below i hu
  rw [checkBounds_eq_true, BitVec.toNat_add, BitVec.toNat_add, Nat.mod_eq_of_lt hbelow,
    Nat.mod_eq_of_lt hbelowi] at hc
  exact hc

/-- A commit that goes through. -/
theorem HistoryInv.commit {a n : QWORD} {attr : Attributes} (hno : NoOverlap s)
    (hin : InsideOne h a n)
    (hset : vmChangeVaReservationState s a n vmmAllocTypeCommit attr = .ok (s', .success)) :
    HistoryInv (.committed a n :: h) s' := by
  obtain ⟨_, _, hset⟩ := bind_eq_ok.mp hset
  obtain ⟨_, _, hset⟩ := bind_eq_ok.mp hset
  obtain ⟨_, _, hset⟩ := bind_eq_ok.mp hset
  obtain ⟨_, _, hset⟩ := bind_eq_ok.mp hset
  obtain ⟨_, _, hset⟩ := bind_eq_ok.mp hset
  obtain ⟨r, hfind, hset⟩ := bind_eq_ok.mp hset
  have hfound := vmFindReservation_spec hm.marker hfind
  cases r with
  | none => cases hset
  | some i =>
    have hne : ¬ vmmAllocTypeCommit = vmmAllocTypeReserve := by decide
    simp only [if_neg hne] at hset
    split_ifs at hset
    · cases hset
    · cases hset
    · obtain ⟨s₁, hset, hend⟩ := bind_eq_ok.mp hset
      cases hend
      obtain ⟨hlow, hhigh⟩ := hi.found hin hfound.2
      have hchanged := HistoryInv.changed ha hm hok hi hno hfound.2.1 hlow hhigh hset
      exact hchanged

/-- The first half of an allocation. -/
theorem HistoryInv.reserveIfRequested {req : AllocRequest} {a n : QWORD}
    (hres : vmChangeIfRequested s a n vmmAllocTypeReserve req = .ok (s', .success))
    (hno : NoOverlap s')
    (hends : EndsBelow ((if isBooleanFlagOn req.allocType vmmAllocTypeReserve then
      [.reserved a n req.attr] else []) ++ h)) :
    ∃ m', MetadataInv metadata size pages m' s' ∧ (∀ i, s'.Used i → SlotOk (s'.slots i)) ∧
      HistoryInv ((if isBooleanFlagOn req.allocType vmmAllocTypeReserve then
        [.reserved a n req.attr] else []) ++ h) s' := by
  unfold vmChangeIfRequested at hres
  split_ifs at hres hends ⊢ with hflag
  · have hbelow := hends a n req.attr (List.mem_append.mpr (Or.inl (List.mem_singleton.mpr rfl)))
    have hi' := HistoryInv.reserve ha hm hok hi hres hno hbelow
    obtain ⟨hst, -⟩ | ⟨-, -, hreserves⟩ := reserve_spec hm.marker hres
    · cases hst
    · obtain ⟨m', hm'⟩ := hm.reserved ha hreserves
      obtain ⟨j, -, hr, -⟩ := hreserves
      refine ⟨m', hm', fun i hu => ?_, hi'⟩
      rcases (hr.used i).mp hu with rfl | hu
      · exact hr.slotOk
      · rw [hr.same i hu]
        exact hok i hu
  · cases hres
    exact ⟨m, hm, hok, hi⟩

omit ha hm hok hi in
theorem Keeps.noOverlap_iff (hk : Keeps s s') : NoOverlap s' ↔ NoOverlap s := by
  unfold NoOverlap VmmReservationSpace.Used
  rw [hk.slots]

/-- An allocation records the commit and the reservation it makes. -/
theorem HistoryInv.alloc {req : AllocRequest} {base len : QWORD} (hno : NoOverlap s')
    (hcall : vmReservationSpaceAllocRegion s req = .ok (s', .ok (base, len)))
    (hin : CommitsInside (eventsOf s (.alloc req) ++ h))
    (hends : EndsBelow (eventsOf s (.alloc req) ++ h)) :
    HistoryInv (eventsOf s (.alloc req) ++ h) s' := by
  have hrange := vmReservationSpaceAllocRegion_granted hcall
  have hevents : eventsOf s (.alloc req) =
      (if isBooleanFlagOn req.allocType vmmAllocTypeCommit then [.committed base len] else []) ++
        if isBooleanFlagOn req.allocType vmmAllocTypeReserve then
          [.reserved base len req.attr] else [] := by
    simp only [eventsOf, hcall]
  rw [hevents] at hin hends ⊢
  obtain ⟨_, _, hcall⟩ := bind_eq_ok.mp hcall
  obtain ⟨_, _, hcall⟩ := bind_eq_ok.mp hcall
  have hkeep := place_keeps s req
  have hmem : (s.place req).1.memory = s.memory := by
    unfold VmmReservationSpace.place
    split_ifs
    · rfl
    · rfl
  rcases hplace : s.place req with ⟨s₁, a, n⟩
  rw [hplace] at hcall hkeep hmem hrange
  cases hrange
  have hm₁ := hm.keeps hkeep
  have hi₁ : HistoryInv h s₁ := hi.same hkeep.slots hmem
  have hok₁ : ∀ i, s₁.Used i → SlotOk (s₁.slots i) := by
    intro i hu
    rw [hkeep.slots]
    exact hok i ((hkeep.used_iff i).mp hu)
  dsimp only at hcall
  split_ifs at hcall with hlow
  · cases hcall
  obtain ⟨⟨s₂, reserved⟩, hres, hcall⟩ := bind_eq_ok.mp hcall
  dsimp only at hcall
  split_ifs at hcall with hfail
  · cases hcall
  obtain ⟨⟨s₃, committed⟩, hcom, hcall⟩ := bind_eq_ok.mp hcall
  dsimp only at hcall
  split_ifs at hcall with hfail'
  · cases hcall
  cases hcall
  obtain rfl : reserved = .success := by simpa using hfail
  obtain rfl : committed = .success := by simpa using hfail'
  have hkeep₂ : Keeps s₂ s' := by
    unfold vmChangeIfRequested at hcom
    split_ifs at hcom
    · exact commit_keeps hcom
    · cases hcom
      exact Keeps.refl _
  have hno₂ := hkeep₂.noOverlap_iff.mp hno
  rw [List.append_assoc] at hin hends ⊢
  obtain ⟨m₂, hm₂, hok₂, hi₂⟩ := HistoryInv.reserveIfRequested ha hm₁ hok₁ hi₁ hres hno₂
    fun b k r hr => hends b k r (List.mem_append.mpr (Or.inr hr))
  unfold vmChangeIfRequested at hcom
  by_cases hflag : isBooleanFlagOn req.allocType vmmAllocTypeCommit = true
  · rw [if_pos hflag] at hcom hin ⊢
    exact HistoryInv.commit ha hm₂ hok₂ hi₂ hno₂ hin.1 hcom
  · rw [if_neg hflag] at hcom ⊢
    cases hcom
    exact hi₂

omit ha hm hok in
/-- The reservation found for the address of a decommit contains the whole range. -/
theorem HistoryInv.decommitFound {address a n : QWORD} {i : ℕ} (hno : NoOverlap s)
    (hc : s.Contains address 1 i) (haddr : a = alignAddressLower address pageSize)
    (hset : vmDecommitReservation s a n (s.slots i) = .ok s') (hin : InsideOne h a n) :
    (s.slots i).startVa.toNat ≤ a.toNat ∧
      a.toNat + n.toNat ≤ (s.slots i).startVa.toNat + (s.slots i).size.toNat := by
  obtain ⟨r, hlive, hlow, hhigh⟩ := hin
  obtain ⟨k, hk, rfl⟩ := (hi.live r).mp hlive
  have hbelow := hi.below k hk
  change (s.slots k).startVa.toNat ≤ a.toNat at hlow
  change a.toNat + n.toNat ≤ (s.slots k).startVa.toNat + (s.slots k).size.toNat at hhigh
  obtain ⟨_, _, hset⟩ := bind_eq_ok.mp hset
  obtain ⟨_, hn0, hset⟩ := bind_eq_ok.mp hset
  obtain ⟨_, _, hset⟩ := bind_eq_ok.mp hset
  obtain ⟨_, hna, _⟩ := bind_eq_ok.mp hset
  have hn0 : n.toNat ≠ 0 := fun h0 => assertThat_eq_ok.mp hn0 (BitVec.eq_of_toNat_eq h0)
  have hna := (isAddressAligned_iff (show pageSize.toNat = 2 ^ 12 from rfl)).mp
    (assertThat_eq_ok.mp hna)
  have hpage := @alignAddressLower_toNat address pageSize 12 rfl
  rw [← haddr, show pageSize.toNat = 4096 from rfl] at hpage
  rw [show pageSize.toNat = 4096 from rfl] at hna
  have haddrk : InBuffer (s.slots k).startVa (s.slots k).size address := ⟨by lia, by lia⟩
  obtain ⟨hu, hc⟩ := hc
  have haddri := (contains_one_iff (hi.below i hu) (by lia)).mp hc
  obtain rfl := hno.unique hu hk haddri haddrk
  exact ⟨hlow, hhigh⟩

/-- A call that frees records the decommit or the release it makes. -/
theorem HistoryInv.free {address len : QWORD} {freeType : DWORD} {r : QWORD × QWORD}
    (hno : NoOverlap s)
    (hcall : vmReservationSpaceFreeRegion s address len freeType = .ok (s', r))
    (hin : CommitsInside (eventsOf s (.free address len freeType) ++ h)) :
    HistoryInv (eventsOf s (.free address len freeType) ++ h) s' := by
  have hevents : eventsOf s (.free address len freeType) =
      if isBooleanFlagOn freeType vmmFreeTypeRelease then [.released r.1 r.2]
      else [.decommitted r.1 r.2] := by
    simp only [eventsOf, hcall]
  rw [hevents] at hin ⊢
  obtain ⟨_, _, hcall⟩ := bind_eq_ok.mp hcall
  obtain ⟨_, _, hcall⟩ := bind_eq_ok.mp hcall
  obtain ⟨_, _, hcall⟩ := bind_eq_ok.mp hcall
  obtain ⟨found, hfind, hcall⟩ := bind_eq_ok.mp hcall
  have hfound := vmFindReservation_spec hm.marker hfind
  cases found with
  | none => cases hcall
  | some i =>
    dsimp only at hcall
    by_cases hflag : isBooleanFlagOn freeType vmmFreeTypeRelease = true
    · rw [if_pos hflag] at hcall hin ⊢
      obtain ⟨_, _, hcall⟩ := bind_eq_ok.mp hcall
      cases hcall
      exact hi.released hno ⟨hfound.2.1, rfl⟩
    · rw [if_neg hflag] at hcall hin ⊢
      obtain ⟨s₁, hset, hcall⟩ := bind_eq_ok.mp hcall
      cases hcall
      obtain ⟨hlow, hhigh⟩ := hi.decommitFound hno hfound.2 rfl hset hin.1
      have hchanged := HistoryInv.changed ha hm hok hi hno hfound.2.1 hlow hhigh hset
      exact hchanged

/-- One call. -/
theorem HistoryInv.next {c : Call} (hno : NoOverlap s) (hno' : NoOverlap s')
    (hin : CommitsInside (eventsOf s c ++ h)) (hends : EndsBelow (eventsOf s c ++ h))
    (hstep : next s c = some s') : HistoryInv (eventsOf s c ++ h) s' := by
  cases c with
  | alloc req =>
    obtain ⟨⟨s₁, r⟩, hcall, rfl⟩ := ok_of_map hstep
    cases r with
    | error st =>
      obtain ⟨hslots, hmem⟩ := vmReservationSpaceAllocRegion_refused hm.marker hcall
      have hnone : eventsOf s (.alloc req) = [] := by simp only [eventsOf, hcall]
      rw [hnone]
      exact hi.same hslots hmem
    | ok range => exact HistoryInv.alloc ha hm hok hi hno' hcall hin hends
  | free address len freeType =>
    obtain ⟨⟨s₁, r⟩, hcall, rfl⟩ := ok_of_map hstep
    exact HistoryInv.free ha hm hok hi hno hcall hin

end Step

end Bits

theorem historyInv_of_initialised {metadata base size : QWORD} {s : VmmReservationSpace}
    (hi : Initialised metadata base size s) : HistoryInv [] s := by
  have hnone : ∀ i, ¬ s.Used i := fun i hu =>
    absurd (hi.marker.lt_of_used hu) (Nat.not_lt_zero i)
  refine ⟨fun r => ⟨fun hf => hf.elim, fun hall => ?_⟩, fun i hu => absurd hu (hnone i),
    fun i hu => absurd hu (hnone i), fun i hu => absurd hu (hnone i),
    fun i hu => absurd hu (hnone i)⟩
  obtain ⟨i, hu, -⟩ := hall
  exact hnone i hu

theorem CommitsInside.of_append {h₁ h₂ : List SpaceEvent} (hin : CommitsInside (h₁ ++ h₂)) :
    CommitsInside h₂ := by
  induction h₁ with
  | nil => exact hin
  | cons e h₁ ih =>
    cases e with
    | reserved base size attr => exact ih hin
    | released base size => exact ih hin
    | committed base size => exact ih hin.2
    | decommitted base size => exact ih hin.2

/-- The bitmaps agree with the history along a run. -/
theorem historyInv_of_exec {metadata size : QWORD} {pages : ℕ} {s₀ s : VmmReservationSpace}
    {base : QWORD} {tr : List (VmmReservationSpace × Call)} (ha : MetadataArea metadata size pages)
    (hi : Initialised metadata base size s₀)
    (hrun : Exec (fun s c s' => next s c = some s') s₀ tr s) (hno : Always NoOverlap tr s)
    (hin : CommitsInside (history tr)) (hends : EndsBelow (history tr)) :
    HistoryInv (history tr) s := by
  induction hrun with
  | nil => exact historyInv_of_initialised hi
  | @snoc tr s s' c hrun hstep ih =>
    obtain ⟨hno, hno'⟩ := always_snoc.mp hno
    rw [history_snoc] at hin hends ⊢
    have hr : Reaches metadata base size tr s := ⟨s₀, hi, hrun⟩
    obtain ⟨m, hm, hok⟩ := hr.slotsOk ha
    have hold := ih hno hin.of_append fun b k r he => hends b k r (List.mem_append.mpr (Or.inr he))
    exact HistoryInv.next ha hm hok hold hno.2 hno' hin hends hstep

section Access

variable {metadata size : QWORD} {pages m : ℕ} {s : VmmReservationSpace} {h : List SpaceEvent}
  {a : QWORD} {vmmMemoryAccess : Bool} {rights : DWORD}

/-- No live reservation contains the address, and the check returns `FALSE`. -/
theorem accessCorrect_of_refused (hi : HistoryInv h s)
    (hnone : ∀ i, s.Used i → ¬ InBuffer (s.slots i).startVa (s.slots i).size a)
    (hcall : vmReservationCanAddressBeAccessed s vmmMemoryAccess a rights = .ok none) :
    AccessCorrect s h vmmMemoryAccess a rights := by
  refine ⟨none, hcall, fun d => iff_of_false (by simp) fun hall => ?_⟩
  obtain ⟨r, hlive, hin, -⟩ := hall
  obtain ⟨i, hu, rfl⟩ := (hi.live r).mp hlive
  exact hnone i hu hin

/-- The address lies in the reservation of a slot, and the check looks at the bit of its page. -/
theorem accessCorrect_of_slot (hi : HistoryInv h s) (hno : NoOverlap s) {i : ℕ} (hu : s.Used i)
    (hin : InBuffer (s.slots i).startVa (s.slots i).size a)
    (hcall : vmReservationCanAddressBeAccessed s vmmMemoryAccess a rights =
      .ok (if s.committed (s.slots i) ((a.toNat - (s.slots i).startVa.toNat) / 4096) &&
        isBooleanFlagOn (s.slots i).pageRights rights then
          some ((s.reservationAt i).description a) else none)) :
    AccessCorrect s h vmmMemoryAccess a rights := by
  refine ⟨_, hcall, fun d => ?_⟩
  have hbit := hi.bits i hu a hin
  have hlive := (hi.live _).mpr ⟨i, hu, rfl⟩
  constructor
  · intro hsome
    split_ifs at hsome with hand
    rw [Bool.and_eq_true] at hand
    exact ⟨s.reservationAt i, hlive, hin, hbit.mp hand.1, hand.2, (Option.some.inj hsome).symm⟩
  · intro hall
    obtain ⟨r, hlive, hinr, hlast, hrights, rfl⟩ := hall
    obtain ⟨j, hj, rfl⟩ := (hi.live r).mp hlive
    obtain rfl := hno.unique hj hu hinr hin
    have hrights : isBooleanFlagOn (s.slots j).pageRights rights = true := hrights
    rw [hbit.mpr hlast, hrights]
    rfl

/-- The last byte of the address space is taken for metadata, since `CHECK_BOUNDS` overflows. -/
theorem accessCorrect_last_iff (hi : HistoryInv h s) :
    AccessCorrect s h vmmMemoryAccess (BitVec.allOnes 64) rights ↔
      ¬ (vmmMemoryAccess = true ∧ isBooleanFlagOn rights pageRightsExecute = false) := by
  have hnone : ∀ i, s.Used i →
      ¬ InBuffer (s.slots i).startVa (s.slots i).size (BitVec.allOnes 64) := by
    intro i hu hin
    have hbelow := hi.below i hu
    have hhigh : 2 ^ 64 - 1 < (s.slots i).startVa.toNat + (s.slots i).size.toNat := hin.2
    omega
  have hmetadata :
      checkBounds (BitVec.allOnes 64) 1 s.reservationList s.reservedAreaSize = true := by
    rw [checkBounds_eq_true, show (BitVec.allOnes 64 + 1 : QWORD).toNat = 0 from rfl,
      show (BitVec.allOnes 64).toNat = 2 ^ 64 - 1 from rfl]
    have := s.reservationList.isLt
    exact ⟨by omega, Nat.zero_le _⟩
  have hcall : vmReservationCanAddressBeAccessed s vmmMemoryAccess (BitVec.allOnes 64) rights =
      if vmmMemoryAccess && !isBooleanFlagOn rights pageRightsExecute then
        .ok (some ⟨pageRightsReadwrite, false, 0, 0⟩) else .ok none := by
    rw [vmReservationCanAddressBeAccessed, if_neg (by decide), if_pos hmetadata]
  by_cases hgranted : vmmMemoryAccess = true ∧ isBooleanFlagOn rights pageRightsExecute = false
  · refine iff_of_false (fun hall => ?_) (not_not_intro hgranted)
    obtain ⟨result, hres, hspec⟩ := hall
    rw [hcall, hgranted.1, hgranted.2] at hres
    cases hres
    obtain ⟨r, hlive, hin, -⟩ := (hspec _).mp rfl
    obtain ⟨i, hu, rfl⟩ := (hi.live r).mp hlive
    exact hnone i hu hin
  · refine iff_of_true (accessCorrect_of_refused hi hnone ?_) hgranted
    rw [hcall, if_neg]
    simpa using hgranted

variable (ha : MetadataArea metadata size pages) (hm : MetadataInv metadata size pages m s)
  (hok : ∀ i, s.Used i → SlotOk (s.slots i)) (hi : HistoryInv h s) (hno : NoOverlap s)
include ha hm hok hi hno

/-- Every address but the last one of the address space. -/
theorem accessCorrect_of_below (hout : ¬ InBuffer metadata size a) (hlast : a.toNat + 1 < 2 ^ 64) :
    AccessCorrect s h vmmMemoryAccess a rights := by
  have htop := ha.top
  have hmetadata : ¬ checkBounds a 1 s.reservationList s.reservedAreaSize = true := by
    rw [hm.list, hm.areaSize, contains_one_iff (by omega) hlast]
    exact hout
  by_cases h0 : a = 0
  · subst h0
    apply accessCorrect_of_refused hi
    · intro i hu hin
      have hstart := (hok i hu).start_ge
      have hlow : (s.slots i).startVa.toNat ≤ 0 := hin.1
      omega
    · simp [vmReservationCanAddressBeAccessed]
  obtain ⟨r, hfind⟩ := hm.vmFindReservation_total ha h0 (show (1 : QWORD) ≠ 0 by decide)
  have hfound := vmFindReservation_spec hm.marker hfind
  cases r with
  | none =>
    apply accessCorrect_of_refused hi
    · intro i hu hin
      exact hfound i (Nat.zero_le i) ⟨hu, (contains_one_iff (hi.below i hu) hlast).mpr hin⟩
    · rw [vmReservationCanAddressBeAccessed, if_neg h0, if_neg hmetadata]
      simp only [hfind, bind, Except.bind]
  | some i =>
    obtain ⟨-, hu, hc⟩ := hfound
    have hin := (contains_one_iff (hi.below i hu) hlast).mp hc
    have hlow := hin.1
    have hhigh := hin.2
    have htest := vmIsVaCommited_inside (s := s) (hok i hu)
      (BitVec.toNat_sub_of_le (BitVec.le_def.mpr hlow)) (by lia) h0
    apply accessCorrect_of_slot hi hno hu hin
    rw [vmReservationCanAddressBeAccessed, if_neg h0, if_neg hmetadata]
    simp only [hfind, htest, bind, Except.bind]
    generalize (s.committed _ _ && _) = granted
    cases granted
    · rfl
    · rfl

end Access

/-- In a run in which no reservation reaches the end of the address space, an access is granted
exactly when the last commit or decommit of its page since the reservation was a commit and the
rights suffice. Only a processor that works on the metadata may touch one byte more, the last one
of the address space. -/
theorem accessCorrect_iff_of_reaches {metadata base size : QWORD} {pages : ℕ}
    {tr : List (VmmReservationSpace × Call)} {s : VmmReservationSpace}
    (ha : MetadataArea metadata size pages) (hr : Reaches metadata base size tr s)
    (hno : Always NoOverlap tr s) (hin : CommitsInside (history tr))
    (hends : EndsBelow (history tr))
    {a : QWORD} (hout : ¬ InBuffer metadata size a) (vmmMemoryAccess : Bool) (rights : DWORD) :
    AccessCorrect s (history tr) vmmMemoryAccess a rights ↔
      ¬ (a = BitVec.allOnes 64 ∧ vmmMemoryAccess = true ∧
        isBooleanFlagOn rights pageRightsExecute = false) := by
  obtain ⟨m, hm, hok⟩ := hr.slotsOk ha
  obtain ⟨s₀, hinit, hrun⟩ := hr
  have hi := historyInv_of_exec ha hinit hrun hno hin hends
  by_cases hlast : a = BitVec.allOnes 64
  · subst hlast
    rw [accessCorrect_last_iff hi]
    simp
  · refine iff_of_true ?_ fun hall => hlast hall.1
    apply accessCorrect_of_below ha hm hok hi hno.2 hout
    have hne : a.toNat ≠ 2 ^ 64 - 1 := fun heq => hlast (BitVec.eq_of_toNat_eq heq)
    have hlt := a.isLt
    omega

private theorem commitStart_reservation (s : VmmReservationSpace) (size : QWORD) :
    s.reservation (commitStart size) = none := by
  have hflag : isBooleanFlagOn vmmAllocTypeCommit vmmAllocTypeReserve = false := by decide
  exact if_neg fun hc => Bool.false_ne_true (hflag.symm.trans hc.1)

private theorem fullyCommitted_history : history fullyCommitted.1 =
    [.committed 0x140000000 0x2000, .reserved 0x140000000 0x2000 ⟨1, false, 0⟩] := by
  decide

theorem accessCorrect_of_fullyCommitted :
    AccessCorrect fullyCommitted.2 (history fullyCommitted.1) false 0x140001234 1 := by
  have hr : Reaches 0xFFFF850000000000 0x140000000 0x140000000 fullyCommitted.1 fullyCommitted.2 :=
    reaches_of_runProcess _
  refine (accessCorrect_iff_of_reaches processArea hr ((always_noOverlap_iff hr).mpr ?_) ?_ ?_
    (by decide) false 1).mpr (by decide)
  · intro v hv a n hrange
    rcases List.mem_cons.mp hv with rfl | hv
    · refine Or.inr fun i hi => ?_
      exact absurd (processSpace_initialised.marker.lt_of_used hi) (Nat.not_lt_zero i)
    · have hcall : v.2 = commitStart 0x2000 := by rw [List.mem_singleton.mp hv]
      rw [hcall, commitStart_reservation] at hrange
      cases hrange
  · rw [fullyCommitted_history]
    exact ⟨⟨⟨0x140000000, 0x2000, ⟨1, false, 0⟩⟩, Or.inl rfl, by decide, by decide⟩, trivial⟩
  · rw [fullyCommitted_history]
    intro b k r he
    obtain ⟨rfl, rfl, rfl⟩ : b = 0x140000000 ∧ k = 0x2000 ∧ r = ⟨1, false, 0⟩ := by simpa using he
    decide

/-- One page at the very end of the address space, reserved and committed at once. -/
def topPage : List (VmmReservationSpace × Call) × VmmReservationSpace :=
  (runProcess [.alloc ⟨0xFFFFFFFFFFFFF000, 0x1000, vmmAllocTypeReserve ||| vmmAllocTypeCommit,
    ⟨1, false, 0⟩⟩]).get (by decide)

private theorem topPage_history : history topPage.1 =
    [.committed 0xFFFFFFFFFFFFF000 0x1000, .reserved 0xFFFFFFFFFFFFF000 0x1000 ⟨1, false, 0⟩] := by
  decide

/-- The committed page cannot be accessed, and the last byte of an empty space can. -/
theorem access_check_wraps :
    (Reaches 0xFFFF850000000000 0x140000000 0x140000000 topPage.1 topPage.2 ∧
      Always NoOverlap topPage.1 topPage.2 ∧ CommitsInside (history topPage.1) ∧
      ¬ InBuffer 0xFFFF850000000000 0x140000000 0xFFFFFFFFFFFFF000 ∧
      ¬ AccessCorrect topPage.2 (history topPage.1) false 0xFFFFFFFFFFFFF000 1) ∧
    (Reaches 0xFFFF850000000000 0x140000000 0x140000000 [] processSpace ∧
      ¬ InBuffer 0xFFFF850000000000 0x140000000 0xFFFFFFFFFFFFFFFF ∧
      ¬ AccessCorrect processSpace [] true 0xFFFFFFFFFFFFFFFF 1) := by
  have hr : Reaches 0xFFFF850000000000 0x140000000 0x140000000 topPage.1 topPage.2 :=
    reaches_of_runProcess _
  refine ⟨⟨hr, (always_noOverlap_iff hr).mpr ?_, ?_, by decide, fun hall => ?_⟩,
    ⟨processSpace, processSpace_initialised, Exec.nil⟩, by decide, fun hall => ?_⟩
  · intro v hv a n _
    obtain rfl := List.mem_singleton.mp hv
    refine Or.inr fun i hi => ?_
    exact absurd (processSpace_initialised.marker.lt_of_used hi) (Nat.not_lt_zero i)
  · rw [topPage_history]
    exact ⟨⟨⟨0xFFFFFFFFFFFFF000, 0x1000, ⟨1, false, 0⟩⟩, Or.inl rfl, by decide, by decide⟩, trivial⟩
  · obtain ⟨result, hres, hspec⟩ := hall
    have hrefused : vmReservationCanAddressBeAccessed topPage.2 false 0xFFFFFFFFFFFFF000 1 =
        .ok none := by
      decide
    rw [hrefused] at hres
    cases hres
    rw [topPage_history] at hspec
    have hsome := (hspec _).mpr ⟨⟨0xFFFFFFFFFFFFF000, 0x1000, ⟨1, false, 0⟩⟩, Or.inl rfl, by decide,
      Or.inl (by decide), by decide, rfl⟩
    cases hsome
  · obtain ⟨result, hres, hspec⟩ := hall
    have hgranted : vmReservationCanAddressBeAccessed processSpace true 0xFFFFFFFFFFFFFFFF 1 =
        .ok (some ⟨1, false, 0, 0⟩) := by
      decide
    rw [hgranted] at hres
    cases hres
    obtain ⟨r, hlive, -⟩ := (hspec _).mp rfl
    exact hlive

end HAL9000.Vmm
