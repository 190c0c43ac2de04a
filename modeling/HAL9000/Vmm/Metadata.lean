import HAL9000.Vmm.Calls
import Mathlib

/-! The metadata area: reservation list in the first fifth, commit bitmaps behind it. The list
cannot grow into the bitmaps because every slot it gains costs at least one bitmap page. -/
namespace HAL9000.Vmm

open Run

/-- An area whose list share is a whole number of pages, at least one, and that ends far
enough below the top of the address space for a bitmap of the largest size. -/
structure MetadataArea (metadata size : QWORD) (pages : ℕ) : Prop where
  share : size.toNat * 2000 / 10000 = 4096 * pages
  positive : 0 < pages
  top : metadata.toNat + size.toNat + 2 ^ 29 < 2 ^ 64

/-- The bytes set aside for a bitmap, a whole number of pages. -/
def Bitmap.areaSize (b : Bitmap) : QWORD := alignAddressUpper (b.bufferSize.setWidth 64) pageSize

/-- The page range set aside for a bitmap. -/
def Bitmap.area (b : Bitmap) : Set ℕ :=
  Set.Ico b.bitmapBuffer.toNat (b.bitmapBuffer.toNat + (Bitmap.areaSize b).toNat)

structure MetadataLayout (metadata size : QWORD) (s : VmmReservationSpace) : Prop where
  marker : ∃ n, (s.slots n).state = .last ∧ (∀ i, (s.slots i).state = .last → i = n) ∧
    (∀ i < n, (s.slots i).state = .used ∨ (s.slots i).state = .free) ∧
    metadata.toNat + sizeofVmmReservation * (n + 1) ≤ s.bitmapAddressStart.toNat
  aligned : ∀ i, s.Used i → pageSize.toNat ∣ (s.slots i).commitBitmap.bitmapBuffer.toNat ∧
    pageSize.toNat ∣ (Bitmap.areaSize (s.slots i).commitBitmap).toNat
  inside : ∀ i, s.Used i → Bitmap.area (s.slots i).commitBitmap ⊆
    Set.Ico s.bitmapAddressStart.toNat (metadata.toNat + size.toNat)
  disjoint : ∀ i j, i ≠ j → s.Used i → s.Used j →
    Disjoint (Bitmap.area (s.slots i).commitBitmap) (Bitmap.area (s.slots j).commitBitmap)

/-- The invariant behind the layout, with the marker at `m`. -/
structure MetadataInv (metadata size : QWORD) (pages m : ℕ) (s : VmmReservationSpace) : Prop where
  marker : Marker s m
  list : s.reservationList = metadata
  areaSize : s.reservedAreaSize = size
  bitmaps : s.bitmapAddressStart.toNat = metadata.toNat + 4096 * pages
  aligned : 4096 ∣ s.freeBitmapAddress.toNat
  paid : s.bitmapAddressStart.toNat + 4096 * m ≤ s.freeBitmapAddress.toNat
  bound : s.freeBitmapAddress.toNat ≤ metadata.toNat + size.toNat
  bufferAligned : ∀ i, s.Used i → 4096 ∣ (s.slots i).commitBitmap.bitmapBuffer.toNat ∧
    4096 ∣ (Bitmap.areaSize (s.slots i).commitBitmap).toNat
  bufferLow : ∀ i, s.Used i →
    s.bitmapAddressStart.toNat ≤ (s.slots i).commitBitmap.bitmapBuffer.toNat
  bufferHigh : ∀ i, s.Used i → (s.slots i).commitBitmap.bitmapBuffer.toNat +
    (Bitmap.areaSize (s.slots i).commitBitmap).toNat ≤ s.freeBitmapAddress.toNat
  disjoint : ∀ i j, i ≠ j → s.Used i → s.Used j →
    Disjoint (Bitmap.area (s.slots i).commitBitmap) (Bitmap.area (s.slots j).commitBitmap)

private theorem pageSize_toNat : pageSize.toNat = 2 ^ 12 := rfl

/-- A bitmap of `n` bits takes between one page and `2 ^ 29` bytes. -/
theorem areaSize_spec {b : Bitmap} {n : ℕ} (hb : b.bufferSize.toNat = (n + 7) / 8) (h0 : 0 < n)
    (hn : n < 2 ^ 32) :
    4096 ∣ (Bitmap.areaSize b).toNat ∧ 4096 ≤ (Bitmap.areaSize b).toNat ∧
      (Bitmap.areaSize b).toNat ≤ 2 ^ 29 := by
  have hw : (b.bufferSize.setWidth 64 : QWORD).toNat = b.bufferSize.toNat := by
    have := b.bufferSize.isLt
    rw [BitVec.toNat_setWidth]
    lia
  have hpad := alignPadding_lt b.bufferSize.toNat (show 0 < 4096 by norm_num)
  have hdvd := dvd_add_alignPadding b.bufferSize.toNat (show 0 < 4096 by norm_num)
  have heq : (Bitmap.areaSize b).toNat =
      b.bufferSize.toNat + alignPadding b.bufferSize.toNat 4096 := by
    unfold Bitmap.areaSize
    rw [alignAddressUpper_toNat pageSize_toNat, hw]
    change (b.bufferSize.toNat + alignPadding b.bufferSize.toNat 4096) % 2 ^ 64 = _
    lia
  rw [heq]
  lia

section Step

variable {metadata size : QWORD} {pages m : ℕ} {s s' : VmmReservationSpace}

theorem MetadataInv.keeps (hi : MetadataInv metadata size pages m s) (h : Keeps s s') :
    MetadataInv metadata size pages m s' := by
  constructor
  · exact h.marker hi.marker
  · rw [h.area.list, hi.list]
  · rw [h.area.size, hi.areaSize]
  · rw [h.area.bitmaps, hi.bitmaps]
  · rw [h.freeBitmap]
    exact hi.aligned
  · rw [h.freeBitmap, h.area.bitmaps]
    exact hi.paid
  · rw [h.freeBitmap]
    exact hi.bound
  · intro i hu
    rw [h.slots]
    exact hi.bufferAligned i ((h.used_iff i).mp hu)
  · intro i hu
    rw [h.slots, h.area.bitmaps]
    exact hi.bufferLow i ((h.used_iff i).mp hu)
  · intro i hu
    rw [h.slots, h.freeBitmap]
    exact hi.bufferHigh i ((h.used_iff i).mp hu)
  · intro i j hij hui huj
    rw [h.slots]
    exact hi.disjoint i j hij ((h.used_iff i).mp hui) ((h.used_iff j).mp huj)

theorem MetadataInv.released (hi : MetadataInv metadata size pages m s) {k : ℕ}
    (h : Released s s' k) : MetadataInv metadata size pages m s' := by
  have hm := h.marker hi.marker
  have hof : ∀ i, s'.Used i → s'.slots i = s.slots i ∧ s.Used i := fun i hu => h.of_used hu
  obtain ⟨_, rfl⟩ := h
  constructor
  · exact hm
  · exact hi.list
  · exact hi.areaSize
  · exact hi.bitmaps
  · exact hi.aligned
  · exact hi.paid
  · exact hi.bound
  · intro i hu
    obtain ⟨heq, hu'⟩ := hof i hu
    rw [heq]
    exact hi.bufferAligned i hu'
  · intro i hu
    obtain ⟨heq, hu'⟩ := hof i hu
    rw [heq]
    exact hi.bufferLow i hu'
  · intro i hu
    obtain ⟨heq, hu'⟩ := hof i hu
    rw [heq]
    exact hi.bufferHigh i hu'
  · intro i j hij hui huj
    obtain ⟨heqi, hui'⟩ := hof i hui
    obtain ⟨heqj, huj'⟩ := hof j huj
    rw [heqi, heqj]
    exact hi.disjoint i j hij hui' huj'

/-- The bitmap of a fresh reservation: pages right behind the ones handed out before. -/
theorem MetadataInv.fresh (hi : MetadataInv metadata size pages m s)
    (ha : MetadataArea metadata size pages) {k : ℕ} {a n : QWORD} (h : Reserved s s' k a n) :
    4096 ∣ (Bitmap.areaSize (s'.slots k).commitBitmap).toNat ∧
      4096 ≤ (Bitmap.areaSize (s'.slots k).commitBitmap).toNat ∧
      s'.freeBitmapAddress.toNat = s.freeBitmapAddress.toNat +
        (Bitmap.areaSize (s'.slots k).commitBitmap).toNat ∧
      s'.freeBitmapAddress.toNat ≤ metadata.toNat + size.toNat := by
  have hpos : 0 < (n / pageSize).toNat := by
    have hd := (isAddressAligned_iff pageSize_toNat).mp h.sizeAligned
    have hn : n.toNat ≠ 0 := fun h0 => h.sizeNonZero (BitVec.eq_of_toNat_eq h0)
    rw [BitVec.toNat_udiv, pageSize_toNat]
    rw [pageSize_toNat] at hd
    omega
  have hlt : (n / pageSize).toNat < 2 ^ 32 := by
    have := BitVec.le_def.mp h.pages
    change _ ≤ 4294967295 at this
    omega
  obtain ⟨hdvd, hmin, hmax⟩ := areaSize_spec h.bufferSize hpos hlt
  have hb := hi.bound
  have htop := ha.top
  have hsum : (s.freeBitmapAddress + Bitmap.areaSize (s'.slots k).commitBitmap).toNat =
      s.freeBitmapAddress.toNat + (Bitmap.areaSize (s'.slots k).commitBitmap).toNat := by
    rw [BitVec.toNat_add]
    lia
  have hend : (metadata + size).toNat = metadata.toNat + size.toNat := by
    rw [BitVec.toNat_add]
    lia
  have hin := h.inside
  rw [checkBounds_eq_true, hi.list, hi.areaSize] at hin
  have hfree : s'.freeBitmapAddress.toNat = s.freeBitmapAddress.toNat +
      (Bitmap.areaSize (s'.slots k).commitBitmap).toNat := by
    rw [h.freeBitmap]
    exact hsum
  refine ⟨hdvd, hmin, hfree, ?_⟩
  rw [hfree, ← hsum, ← hend]
  exact hin.2

theorem MetadataInv.reserved (hi : MetadataInv metadata size pages m s)
    (ha : MetadataArea metadata size pages) {a n : QWORD} (h : Reserves s s' m a n) :
    ∃ m', MetadataInv metadata size pages m' s' := by
  obtain ⟨k, m', hr, hm', hmm⟩ := h
  obtain ⟨hdvd, hmin, hfree, hbound⟩ := hi.fresh ha hr
  have hpaid := hi.paid
  have hal := hi.aligned
  have hbuf := hr.buffer
  have hlow : ∀ i, s.Used i → ∀ x ∈ Bitmap.area (s.slots i).commitBitmap,
      x < s.freeBitmapAddress.toNat := by
    intro i hu x hx
    exact lt_of_lt_of_le hx.2 (hi.bufferHigh i hu)
  have hnew : ∀ i, s.Used i → Disjoint (Bitmap.area (s.slots i).commitBitmap)
      (Bitmap.area (s'.slots k).commitBitmap) := by
    intro i hu
    rw [Set.disjoint_left]
    intro x hx hy
    have h₁ := hlow i hu x hx
    have h₂ := hy.1
    rw [hbuf] at h₂
    omega
  refine ⟨m', ?_⟩
  constructor
  · exact hm'
  · rw [hr.area.list, hi.list]
  · rw [hr.area.size, hi.areaSize]
  · rw [hr.area.bitmaps, hi.bitmaps]
  · rw [hfree]
    exact Nat.dvd_add hal hdvd
  · rw [hfree, hr.area.bitmaps]
    lia
  · exact hbound
  · intro i hu
    rcases (hr.used i).mp hu with rfl | hu'
    · rw [hbuf]
      exact ⟨hal, hdvd⟩
    · rw [hr.same i hu']
      exact hi.bufferAligned i hu'
  · intro i hu
    rw [hr.area.bitmaps]
    rcases (hr.used i).mp hu with rfl | hu'
    · rw [hbuf]
      lia
    · rw [hr.same i hu']
      exact hi.bufferLow i hu'
  · intro i hu
    rcases (hr.used i).mp hu with rfl | hu'
    · rw [hbuf, hfree]
    · rw [hr.same i hu', hfree]
      have := hi.bufferHigh i hu'
      lia
  · intro i j hij hui huj
    rcases (hr.used i).mp hui with rfl | hui'
    · rcases (hr.used j).mp huj with rfl | huj'
      · exact absurd rfl hij
      · rw [hr.same j huj']
        exact (hnew j huj').symm
    · rw [hr.same i hui']
      rcases (hr.used j).mp huj with rfl | huj'
      · exact hnew i hui'
      · rw [hr.same j huj']
        exact hi.disjoint i j hij hui' huj'

/-- The counting argument: the marker has moved at most once for every bitmap page, and four
fifths of the area hold too few pages for the list to fill its fifth. -/
theorem MetadataInv.layout (hi : MetadataInv metadata size pages m s)
    (ha : MetadataArea metadata size pages) : MetadataLayout metadata size s := by
  have hcount : 56 * (m + 1) ≤ 4096 * pages := by
    have hshare := ha.share
    have hpos := ha.positive
    have hpaid := hi.paid
    have hbound := hi.bound
    have hbitmaps := hi.bitmaps
    lia
  constructor
  · refine ⟨m, hi.marker.last, ?_, ?_, ?_⟩
    · intro i hl
      rcases Nat.lt_trichotomy i m with hlt | rfl | hgt
      · exact absurd hl (hi.marker.before i hlt)
      · rfl
      · rw [hi.marker.after i hgt] at hl
        cases hl
    · intro i hlt
      have hne := hi.marker.before i hlt
      cases hst : (s.slots i).state with
      | free => exact Or.inr rfl
      | used => exact Or.inl rfl
      | last => exact absurd hst hne
    · rw [hi.bitmaps]
      change metadata.toNat + 56 * (m + 1) ≤ _
      lia
  · exact hi.bufferAligned
  · intro i hu x hx
    have hlow := hi.bufferLow i hu
    have hhigh := hi.bufferHigh i hu
    have hbound := hi.bound
    have h₁ := hx.1
    have h₂ := hx.2
    constructor
    · omega
    · omega
  · exact hi.disjoint

end Step

theorem metadataInv_of_initialised {metadata base size : QWORD} {pages : ℕ}
    {s : VmmReservationSpace} (hi : Initialised metadata base size s)
    (ha : MetadataArea metadata size pages) : MetadataInv metadata size pages 0 s := by
  have hm := hi.marker
  have hnone : ∀ i, ¬ s.Used i := fun i hu => absurd (hm.lt_of_used hu) (Nat.not_lt_zero i)
  obtain ⟨mem, s₀, hinit, rfl⟩ := hi.init
  obtain ⟨_, _, hinit⟩ := bind_eq_ok.mp hinit
  obtain ⟨_, haligned, hinit⟩ := bind_eq_ok.mp hinit
  obtain ⟨_, _, hinit⟩ := bind_eq_ok.mp hinit
  obtain ⟨share, hshare, hinit⟩ := bind_eq_ok.mp hinit
  obtain ⟨_, _, hshare⟩ := bind_eq_ok.mp hshare
  obtain ⟨_, hover, hshare⟩ := bind_eq_ok.mp hshare
  have hal := (isAddressAligned_iff pageSize_toNat).mp (assertThat_eq_ok.mp haligned)
  have hval : share.toNat = 4096 * pages := by
    have hle := BitVec.le_def.mp (assertThat_eq_ok.mp hover)
    change size.toNat ≤ 9223372036854775 at hle
    have hmod : size.toNat * 2000 % 2 ^ 64 = size.toNat * 2000 := Nat.mod_eq_of_lt (by omega)
    cases hshare
    rw [BitVec.toNat_udiv, BitVec.toNat_mul]
    change size.toNat * 2000 % 2 ^ 64 / 10000 = _
    rw [hmod]
    exact ha.share
  have htop := ha.top
  have hs := ha.share
  have hsum : (metadata + share).toNat = metadata.toNat + 4096 * pages := by
    rw [BitVec.toNat_add, hval]
    lia
  cases hinit
  constructor
  · exact hm
  · rfl
  · rfl
  · exact hsum
  · change 4096 ∣ (metadata + share).toNat
    rw [hsum]
    exact Nat.dvd_add hal (Nat.dvd_mul_right 4096 pages)
  · change (metadata + share).toNat + 4096 * 0 ≤ (metadata + share).toNat
    omega
  · change (metadata + share).toNat ≤ _
    lia
  · exact fun i hu => absurd hu (hnone i)
  · exact fun i hu => absurd hu (hnone i)
  · exact fun i hu => absurd hu (hnone i)
  · exact fun i j _ hu => absurd hu (hnone i)

theorem metadataInv_next {metadata size : QWORD} {pages m : ℕ} {s s' : VmmReservationSpace}
    {c : Call} (ha : MetadataArea metadata size pages) (hi : MetadataInv metadata size pages m s)
    (hs : next s c = some s') : ∃ m', MetadataInv metadata size pages m' s' := by
  obtain ⟨hk, _⟩ | ⟨a, n, _, _, hres⟩ | ⟨i, hrel, _⟩ := next_cases hi.marker hs
  · exact ⟨m, hi.keeps hk⟩
  · exact hi.reserved ha hres
  · exact ⟨m, hi.released hrel⟩

/-- The metadata area keeps its layout over every run of calls. -/
theorem metadataLayout_of_reaches {metadata base size : QWORD} {pages : ℕ}
    {tr : List (VmmReservationSpace × Call)} {s : VmmReservationSpace}
    (ha : MetadataArea metadata size pages) (hr : Reaches metadata base size tr s) :
    Always (MetadataLayout metadata size) tr s := by
  obtain ⟨s₀, hi, hrun⟩ := hr
  have hinv : Always (fun s => ∃ m, MetadataInv metadata size pages m s) tr s := by
    apply hrun.always
    · exact ⟨0, metadataInv_of_initialised hi ha⟩
    · intro s c s' hall hs
      obtain ⟨m, hinv⟩ := hall
      exact metadataInv_next ha hinv hs
  constructor
  · intro v hv
    obtain ⟨m, hm⟩ := hinv.1 v hv
    exact hm.layout ha
  · obtain ⟨m, hm⟩ := hinv.2
    exact hm.layout ha

/-- Two reservations, the first of them released, and a third that takes over its slot. -/
def recycled : List (VmmReservationSpace × Call) × VmmReservationSpace :=
  (runProcess [reserveTwo 0, reserveTwo 0, .free 0x140000000 0 vmmFreeTypeRelease,
    reserveTwo 0]).get (by decide)

theorem metadataLayout_of_recycled :
    MetadataArea 0xFFFF850000000000 0x140000000 262144 ∧
      Always (MetadataLayout 0xFFFF850000000000 0x140000000) recycled.1 recycled.2 := by
  have ha : MetadataArea 0xFFFF850000000000 0x140000000 262144 :=
    ⟨by decide, by decide, by decide⟩
  exact ⟨ha, metadataLayout_of_reaches ha (reaches_of_runProcess _)⟩

/-- An area of ten pages that ends ten pages below the top of the address space. -/
def topSpace : VmmReservationSpace :=
  vmReservationSpaceFinishInit ((vmReservationSpaceInit 0xFFFFFFFFFFFEC000 0x140000000 0xA000
    fun _ => 0).toOption.get (by decide))

/-- The reservation of a range whose commit bitmap takes eighteen pages. -/
def reserveMany : Call := .alloc ⟨0, 0x90000000, vmmAllocTypeReserve, ⟨1, false, 0⟩⟩

/-- The bitmap ends at `2 ^ 64`, which `CHECK_BOUNDS` takes for 0, and leaves the area. -/
theorem not_metadataLayout : ¬ ∀ (metadata base size : QWORD) (pages : ℕ)
    (tr : List (VmmReservationSpace × Call)) (s : VmmReservationSpace),
    size.toNat * 2000 / 10000 = 4096 * pages → Reaches metadata base size tr s →
      Always (MetadataLayout metadata size) tr s := by
  intro h
  obtain ⟨s, hs⟩ : ∃ s, next topSpace reserveMany = some s := Option.isSome_iff_exists.mp (by decide)
  have hr : Reaches 0xFFFFFFFFFFFEC000 0x140000000 0xA000 [(topSpace, reserveMany)] s :=
    ⟨topSpace, ⟨fun _ => 0, _, rfl, rfl⟩, Exec.cons hs Exec.nil⟩
  have hlayout := (h _ _ _ 2 _ _ (by decide) hr).2
  obtain rfl : (next topSpace reserveMany).get (by decide) = s := by simp [hs]
  have hin : 0xFFFFFFFFFFFF8000 ∈ Set.Ico _ (0xFFFFFFFFFFFEC000 + 0xA000) :=
    hlayout.inside 0 (by decide) ⟨by decide, by decide⟩
  exact absurd hin.2 (by decide)

end HAL9000.Vmm
