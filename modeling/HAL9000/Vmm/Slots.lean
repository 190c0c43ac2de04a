import HAL9000.Vmm.ReservationSpace

/-! The slot list. Every slot before the marker has been handed out, every slot behind it is
untouched, and a call does one of three things to the list: nothing, fill one slot, clear one. -/
namespace HAL9000.Vmm

@[simp] theorem setSlot_same (s : VmmReservationSpace) (i : ℕ) (r : VmmReservation) :
    (s.setSlot i r).slots i = r := by
  unfold VmmReservationSpace.setSlot
  exact Function.update_self i r s.slots

@[simp] theorem setSlot_ne (s : VmmReservationSpace) {i j : ℕ} (r : VmmReservation) (h : j ≠ i) :
    (s.setSlot i r).slots j = s.slots j := by
  unfold VmmReservationSpace.setSlot
  exact Function.update_of_ne h r s.slots

/-- The slot at `i` is in use. -/
def VmmReservationSpace.Used (s : VmmReservationSpace) (i : ℕ) : Prop := (s.slots i).state = .used

instance (s : VmmReservationSpace) (i : ℕ) : Decidable (s.Used i) :=
  inferInstanceAs (Decidable (_ = _))

/-- What a reservation was made with. -/
def VmmReservation.attributes (r : VmmReservation) : Attributes :=
  ⟨r.pageRights, r.uncacheable, r.backingFile⟩

/-- Slot `i` is in use and its range contains the given one, as `CHECK_BOUNDS` sees it. -/
def VmmReservationSpace.Contains (s : VmmReservationSpace) (a n : QWORD) (i : ℕ) : Prop :=
  s.Used i ∧ checkBounds a n (s.slots i).startVa (s.slots i).size = true

/-- The marker is at `n`; the slots before it lie below the bitmaps. -/
structure Marker (s : VmmReservationSpace) (n : ℕ) : Prop where
  last : (s.slots n).state = .last
  before : ∀ i < n, (s.slots i).state ≠ .last
  after : ∀ i > n, (s.slots i).state = .free
  below : ∀ i < n, s.slotAddress i < s.bitmapAddressStart

/-- The bounds of the metadata area. -/
structure SameArea (s s' : VmmReservationSpace) : Prop where
  list : s'.reservationList = s.reservationList
  bitmaps : s'.bitmapAddressStart = s.bitmapAddressStart
  size : s'.reservedAreaSize = s.reservedAreaSize
  start : s'.startOfVirtualAddressSpace = s.startOfVirtualAddressSpace

/-- Nothing but the next free address and bitmap contents changed. -/
structure Keeps (s s' : VmmReservationSpace) : Prop where
  area : SameArea s s'
  slots : s'.slots = s.slots
  freeBitmap : s'.freeBitmapAddress = s.freeBitmapAddress

/-- Slot `i` has been filled with the range of `n` bytes at `a`, and its commit bitmap has been
cut off the free bitmap space. -/
structure Reserved (s s' : VmmReservationSpace) (i : ℕ) (a n : QWORD) : Prop where
  area : SameArea s s'
  fresh : ¬ s.Used i
  used : ∀ j, s'.Used j ↔ j = i ∨ s.Used j
  same : ∀ j, s.Used j → s'.slots j = s.slots j
  startVa : (s'.slots i).startVa = a
  size : (s'.slots i).size = n
  nonNull : a ≠ 0
  aligned : isAddressAligned a pageSize = true
  sizeNonZero : n ≠ 0
  sizeAligned : isAddressAligned n pageSize = true
  pages : (n / pageSize) ≤ maxDword
  buffer : (s'.slots i).commitBitmap.bitmapBuffer = s.freeBitmapAddress
  bufferNonNull : s.freeBitmapAddress ≠ 0
  bufferAligned : isAddressAligned s.freeBitmapAddress pageSize = true
  bitCount : (s'.slots i).commitBitmap.bitCount = (n / pageSize).setWidth 32
  bufferSize : (s'.slots i).commitBitmap.bufferSize.toNat = ((n / pageSize).toNat + 7) / 8
  inside : checkBounds s.freeBitmapAddress
    (alignAddressUpper ((s'.slots i).commitBitmap.bufferSize.setWidth 64) pageSize)
    s.reservationList s.reservedAreaSize = true
  freeBitmap : s'.freeBitmapAddress = s.freeBitmapAddress +
    alignAddressUpper ((s'.slots i).commitBitmap.bufferSize.setWidth 64) pageSize

/-- Slot `i` was in use and has been cleared. -/
structure Released (s s' : VmmReservationSpace) (i : ℕ) : Prop where
  used : s.Used i
  eq : s' = s.setSlot i .zero

theorem Released.of_used {s s' : VmmReservationSpace} {i j : ℕ} (h : Released s s' i)
    (hj : s'.Used j) : s'.slots j = s.slots j ∧ s.Used j := by
  have hne : j ≠ i := by
    intro heq
    subst heq
    rw [h.eq] at hj
    simp [VmmReservationSpace.Used, VmmReservation.zero] at hj
  have heq : s'.slots j = s.slots j := by rw [h.eq, setSlot_ne _ _ hne]
  refine ⟨heq, ?_⟩
  unfold VmmReservationSpace.Used at hj ⊢
  rwa [← heq]

theorem SameArea.refl (s : VmmReservationSpace) : SameArea s s := ⟨rfl, rfl, rfl, rfl⟩

theorem SameArea.trans {s s₁ s₂ : VmmReservationSpace} (h : SameArea s s₁) (h' : SameArea s₁ s₂) :
    SameArea s s₂ :=
  ⟨h'.list.trans h.list, h'.bitmaps.trans h.bitmaps, h'.size.trans h.size, h'.start.trans h.start⟩

theorem SameArea.slotAddress {s s' : VmmReservationSpace} (h : SameArea s s') (i : ℕ) :
    s'.slotAddress i = s.slotAddress i := by
  unfold VmmReservationSpace.slotAddress
  rw [h.list]

theorem Keeps.refl (s : VmmReservationSpace) : Keeps s s := ⟨SameArea.refl s, rfl, rfl⟩

theorem Keeps.trans {s s₁ s₂ : VmmReservationSpace} (h : Keeps s s₁) (h' : Keeps s₁ s₂) :
    Keeps s s₂ :=
  ⟨h.area.trans h'.area, h'.slots.trans h.slots, h'.freeBitmap.trans h.freeBitmap⟩

theorem Keeps.used_iff {s s' : VmmReservationSpace} (h : Keeps s s') (i : ℕ) :
    s'.Used i ↔ s.Used i := by
  unfold VmmReservationSpace.Used
  rw [h.slots]

theorem Keeps.marker {s s' : VmmReservationSpace} (h : Keeps s s') {n : ℕ} (hm : Marker s n) :
    Marker s' n := by
  constructor
  · rw [h.slots]
    exact hm.last
  · rw [h.slots]
    exact hm.before
  · rw [h.slots]
    exact hm.after
  · intro i hi
    rw [h.area.slotAddress, h.area.bitmaps]
    exact hm.below i hi

/-- The slots in use and the free bitmap space are the same. -/
structure SameUsed (s s' : VmmReservationSpace) : Prop where
  area : SameArea s s'
  used : ∀ i, s'.Used i ↔ s.Used i
  same : ∀ i, s.Used i → s'.slots i = s.slots i
  freeBitmap : s'.freeBitmapAddress = s.freeBitmapAddress

theorem Keeps.sameUsed {s s' : VmmReservationSpace} (h : Keeps s s') : SameUsed s s' :=
  ⟨h.area, h.used_iff, fun i _ => by rw [h.slots], h.freeBitmap⟩

/-- Filling a slot only looks at what `SameUsed` compares. -/
theorem SameUsed.reserved {s s₁ s₂ : VmmReservationSpace} {i : ℕ} {a n : QWORD}
    (h : SameUsed s s₁) (hr : Reserved s₁ s₂ i a n) : Reserved s s₂ i a n := by
  refine { hr with area := h.area.trans hr.area, fresh := ?_, used := ?_, same := ?_, buffer := ?_,
                   bufferNonNull := ?_, bufferAligned := ?_, inside := ?_, freeBitmap := ?_ }
  · rw [← h.used]
    exact hr.fresh
  · intro j
    rw [hr.used, h.used]
  · intro j hj
    rw [hr.same j ((h.used j).mpr hj), h.same j hj]
  · rw [← h.freeBitmap]
    exact hr.buffer
  · rw [← h.freeBitmap]
    exact hr.bufferNonNull
  · rw [← h.freeBitmap]
    exact hr.bufferAligned
  · rw [← h.freeBitmap, ← h.area.list, ← h.area.size]
    exact hr.inside
  · rw [← h.freeBitmap]
    exact hr.freeBitmap

theorem Reserved.keeps {s s₁ s₂ : VmmReservationSpace} {i : ℕ} {a n : QWORD}
    (hr : Reserved s s₁ i a n) (h : Keeps s₁ s₂) : Reserved s s₂ i a n := by
  obtain ⟨harea, hslots, hfree⟩ := h
  refine { hr with area := hr.area.trans harea, used := ?_, same := ?_, startVa := ?_, size := ?_,
                   buffer := ?_, bitCount := ?_, bufferSize := ?_, inside := ?_, freeBitmap := ?_ }
  · simpa only [VmmReservationSpace.Used, hslots] using hr.used
  all_goals simp only [hslots, hfree]
  · exact hr.same
  · exact hr.startVa
  · exact hr.size
  · exact hr.buffer
  · exact hr.bitCount
  · exact hr.bufferSize
  · exact hr.inside
  · exact hr.freeBitmap

theorem Marker.lt_of_used {s : VmmReservationSpace} {n i : ℕ} (hm : Marker s n) (hu : s.Used i) :
    i < n := by
  unfold VmmReservationSpace.Used at hu
  rcases Nat.lt_trichotomy i n with h | h | h
  · exact h
  · rw [h, hm.last] at hu
    cases hu
  · rw [hm.after i h] at hu
    cases hu

/-- The slots in use come before the marker. -/
theorem Marker.used_lt {s : VmmReservationSpace} {n m i : ℕ} (hm : Marker s n)
    (hlast : (s.slots m).state = .last) (hi : s.Used i) : i < m :=
  Nat.lt_of_not_ge fun hle => hm.before m (hle.trans_lt (hm.lt_of_used hi)) hlast

/-- The outcome of a search that starts at slot `i`. -/
def FoundFrom (s : VmmReservationSpace) (address size : QWORD) (i : ℕ) : Option ℕ → Prop
  | some j => i ≤ j ∧ s.Contains address size j
  | none => ∀ j, i ≤ j → ¬ s.Contains address size j

theorem FoundFrom.skip {s : VmmReservationSpace} {address size : QWORD} {i : ℕ} {r : Option ℕ}
    (h : FoundFrom s address size (i + 1) r) (hi : ¬ s.Contains address size i) :
    FoundFrom s address size i r := by
  cases r with
  | some j => exact ⟨Nat.le_of_succ_le h.1, h.2⟩
  | none =>
    intro j hij
    rcases Nat.eq_or_lt_of_le hij with rfl | hlt
    · exact hi
    · exact h j hlt

section Loops

variable {s : VmmReservationSpace} {n : ℕ} (hm : Marker s n)
include hm

/-- A search that returns has seen every slot in use from where it started. -/
theorem findReservationLoop_spec {address size : QWORD} {fuel i : ℕ} {r : Option ℕ} (hi : i ≤ n)
    (hr : findReservationLoop s address size fuel i = .ok r) : FoundFrom s address size i r := by
  induction fuel generalizing i with
  | zero => simp [findReservationLoop] at hr
  | succ fuel ih =>
    unfold findReservationLoop at hr
    by_cases hin : i < n
    · rw [if_pos ⟨hm.before i hin, hm.below i hin⟩] at hr
      split_ifs at hr with hfree hcheck
      · apply (ih hin hr).skip
        intro hall
        obtain ⟨hu, _⟩ := hall
        rw [VmmReservationSpace.Used, hfree] at hu
        cases hu
      · cases hr
        have hused : s.Used i := by
          have hl := hm.before i hin
          unfold VmmReservationSpace.Used
          cases hst : (s.slots i).state with
          | free => exact absurd hst hfree
          | used => rfl
          | last => exact absurd hst hl
        exact ⟨le_rfl, hused, hcheck⟩
      · apply (ih hin hr).skip
        intro hall
        obtain ⟨_, hc⟩ := hall
        exact hcheck hc
    · obtain rfl : i = n := by omega
      rw [if_neg (fun hc => hc.1 hm.last)] at hr
      cases hr
      intro j hij hj
      exact absurd (hm.lt_of_used hj.1) (by omega)

/-- What the search for a slot returns: a free one before the marker, or the marker slot
with the marker moved on. -/
theorem findFirstFreeLoop_spec {s' : VmmReservationSpace} {fuel i j : ℕ} (hi : i ≤ n)
    (hr : findFirstFreeLoop s fuel i = .ok (s', some j)) :
    (j < n ∧ (s.slots j).state = .free ∧ s' = s) ∨
      (j = n ∧ s.slotAddress n < s.bitmapAddressStart ∧
        s' = (s.setSlot n { s.slots n with state := .free }).setSlot (n + 1)
          { s.slots (n + 1) with state := .last }) := by
  induction fuel generalizing i with
  | zero => simp [findFirstFreeLoop] at hr
  | succ fuel ih =>
    unfold findFirstFreeLoop at hr
    split_ifs at hr with haddr
    · by_cases hin : i < n
      · cases hst : (s.slots i).state with
        | free =>
          simp only [hst] at hr
          cases hr
          exact Or.inl ⟨hin, hst, rfl⟩
        | used =>
          simp only [hst] at hr
          exact ih hin hr
        | last => exact absurd hst (hm.before i hin)
      · obtain rfl : i = n := by omega
        simp only [hm.last, setSlot_ne _ _ (Nat.succ_ne_self i)] at hr
        cases hr
        exact Or.inr ⟨rfl, haddr, rfl⟩
    · cases hr

end Loops

theorem vmFindReservation_spec {s : VmmReservationSpace} {m : ℕ} (hm : Marker s m)
    {address size : QWORD} {r : Option ℕ} (hr : vmFindReservation s address size = .ok r) :
    FoundFrom s address size 0 r := by
  obtain ⟨_, _, hr⟩ := bind_eq_ok.mp hr
  obtain ⟨_, _, hr⟩ := bind_eq_ok.mp hr
  exact findReservationLoop_spec hm (Nat.zero_le m) hr

theorem vmInitializeReservation_spec {s s' : VmmReservationSpace} {a n : QWORD} {rights : DWORD}
    {uncacheable : Bool} {file : QWORD} {i : ℕ}
    (hr : vmInitializeReservation s a n rights uncacheable file i = .ok s') (hi : ¬ s.Used i) :
    Reserved s s' i a n ∧ (∀ j, j ≠ i → s'.slots j = s.slots j) ∧
      (s'.slots i).attributes = ⟨rights, uncacheable, file⟩ ∧
      s'.memory = memset s.memory s.freeBitmapAddress 0
        ((s'.slots i).commitBitmap.bufferSize.setWidth 64) := by
  obtain ⟨_, ha, hr⟩ := bind_eq_ok.mp hr
  obtain ⟨_, hn, hr⟩ := bind_eq_ok.mp hr
  obtain ⟨_, haa, hr⟩ := bind_eq_ok.mp hr
  obtain ⟨_, hna, hr⟩ := bind_eq_ok.mp hr
  obtain ⟨_, hpages, hr⟩ := bind_eq_ok.mp hr
  obtain ⟨bitmap, hpre, hr⟩ := bind_eq_ok.mp hr
  obtain ⟨_, _, hr⟩ := bind_eq_ok.mp hr
  obtain ⟨_, hba, hr⟩ := bind_eq_ok.mp hr
  obtain ⟨⟨mem, commit⟩, hinit, hr⟩ := bind_eq_ok.mp hr
  obtain ⟨_, hin, hr⟩ := bind_eq_ok.mp hr
  obtain ⟨_, hbuf, hinit⟩ := bind_eq_ok.mp hinit
  obtain ⟨_, hcount, hbytes⟩ := bitmapPreinit_spec hpre
  have hw : ((n / pageSize).setWidth 32 : DWORD).toNat = (n / pageSize).toNat := by
    have hle := BitVec.le_def.mp (assertThat_eq_ok.mp hpages)
    change _ ≤ 4294967295 at hle
    rw [BitVec.toNat_setWidth]
    lia
  rw [hw] at hbytes
  cases hinit
  cases hr
  have hother : ∀ (j : ℕ) (r : VmmReservation), j ≠ i → (s.setSlot i r).slots j = s.slots j :=
    fun j r hj => setSlot_ne s r hj
  refine ⟨?_, fun j hj => hother j _ hj, by simp [VmmReservation.attributes], by simp⟩
  constructor
  · exact ⟨rfl, rfl, rfl, rfl⟩
  · exact hi
  · intro j
    by_cases hj : j = i
    · simp [VmmReservationSpace.Used, hj]
    · simp [VmmReservationSpace.Used, hj]
  · intro j hj
    exact hother j _ (fun hji => hi (hji ▸ hj))
  · simp
  · simp
  · exact assertThat_eq_ok.mp ha
  · exact assertThat_eq_ok.mp haa
  · exact assertThat_eq_ok.mp hn
  · exact assertThat_eq_ok.mp hna
  · exact assertThat_eq_ok.mp hpages
  · simp
  · exact assertThat_eq_ok.mp hbuf
  · exact assertThat_eq_ok.mp hba
  · simpa using hcount
  · simpa using hbytes
  · simpa using assertThat_eq_ok.mp hin
  · simp

/-- The marker after slot `i` has been filled. -/
theorem Marker.fill {s s' : VmmReservationSpace} {m i : ℕ} (hm : Marker s m)
    (hi : i < m) (harea : SameArea s s') (hused : s'.Used i)
    (hother : ∀ j, j ≠ i → s'.slots j = s.slots j) : Marker s' m := by
  constructor
  · rw [hother m (by omega)]
    exact hm.last
  · intro j hj
    by_cases hji : j = i
    · unfold VmmReservationSpace.Used at hused
      rw [hji, hused]
      simp
    · rw [hother j hji]
      exact hm.before j hj
  · intro j hj
    rw [hother j (by omega)]
    exact hm.after j hj
  · intro j hj
    rw [harea.slotAddress, harea.bitmaps]
    exact hm.below j hj

/-- The list with the marker moved one slot on. -/
def VmmReservationSpace.moveMarker (s : VmmReservationSpace) (m : ℕ) : VmmReservationSpace :=
  (s.setSlot m { s.slots m with state := .free }).setSlot (m + 1)
    { s.slots (m + 1) with state := .last }

section Move

variable {s : VmmReservationSpace} {m : ℕ} (hm : Marker s m)
include hm

theorem Marker.sameUsed_move : SameUsed s (s.moveMarker m) := by
  have hne : ∀ j, s.Used j → j ≠ m + 1 ∧ j ≠ m := by
    intro j hj
    have := hm.lt_of_used hj
    omega
  constructor
  · exact ⟨rfl, rfl, rfl, rfl⟩
  · intro j
    unfold VmmReservationSpace.Used VmmReservationSpace.moveMarker
    by_cases h₁ : j = m + 1
    · simp [h₁, hm.after (m + 1) (Nat.lt_succ_self m)]
    · by_cases h₂ : j = m
      · simp [h₂, hm.last]
      · simp [h₁, h₂]
  · intro j hj
    obtain ⟨h₁, h₂⟩ := hne j hj
    simp [VmmReservationSpace.moveMarker, h₁, h₂]
  · rfl

theorem Marker.move (haddr : s.slotAddress m < s.bitmapAddressStart) :
    Marker (s.moveMarker m) (m + 1) := by
  constructor
  · simp [VmmReservationSpace.moveMarker]
  · intro j hj
    unfold VmmReservationSpace.moveMarker
    by_cases h₂ : j = m
    · simp [h₂]
    · have h₁ : j ≠ m + 1 := by omega
      simpa [h₁, h₂] using hm.before j (by omega)
  · intro j hj
    unfold VmmReservationSpace.moveMarker
    have h₁ : j ≠ m + 1 := by omega
    have h₂ : j ≠ m := by omega
    simpa [h₁, h₂] using hm.after j (by omega)
  · intro j hj
    change s.slotAddress j < s.bitmapAddressStart
    rcases Nat.eq_or_lt_of_le (Nat.le_of_lt_succ hj) with rfl | hlt
    · exact haddr
    · exact hm.below j hlt

end Move

end HAL9000.Vmm
