import HAL9000.Vmm.CommitHistory
import HAL9000.Vmm.RegionAllocation

/-! Releasing a region, `VmmFreeRegionEx` in `vmm.c` with `VMM_FREE_TYPE_RELEASE`: the reservation that
an address lies in goes, with its commit bitmap and its mapping. -/
namespace HAL9000.Paging

open RadixTree

/-- `VmmFreeRegionEx` with `VMM_FREE_TYPE_RELEASE`. -/
def vmmReleaseRegion (env : RegionEnv) (s : RegionState) (address : QWORD) :
    Except Fault RegionState := do
  assertThat (address ≠ 0)
  let (s, alignedAddress, alignedSize) ← releaseReservation env s address
  assertThat (alignedAddress ≠ 0)
  assertThat (alignedSize ≠ 0)
  let (mem, released) ← mmuUnmapMemoryEx s.mem s.pagingData.basePhysicalAddress alignedAddress
    alignedSize true
  return { s with mem := mem, pagesToZero := s.pagesToZero ++ released }

/-- Entries were only removed. -/
def Fewer (mem mem' : PhysMemory) : Prop :=
  ∀ t i, mem' t i = mem t i ∨ (mem' t i).present = false

section Unmap

variable {mem mem' mem'' : PhysMemory} {root : BitVec 40} {va : QWORD}

theorem Fewer.refl (mem : PhysMemory) : Fewer mem mem := fun _ _ => Or.inl rfl

theorem Fewer.trans (h : Fewer mem mem') (h' : Fewer mem' mem'') : Fewer mem mem'' := by
  intro t i
  rcases h' t i with heq | hnone
  · rw [heq]
    exact h t i
  · exact Or.inr hnone

theorem fewer_unmap (mem : PhysMemory) (t : BitVec 40) (i : BitVec 9) :
    Fewer mem (write mem t i pteUnmap) := by
  intro t' i'
  by_cases h : t' = t ∧ i' = i
  · right
    rw [h.1, h.2, write_self]
    rfl
  · exact Or.inl (write_of_ne h)

theorem Fewer.tableAt (h : Fewer mem mem') {key : ℕ → BitVec 9} {d : ℕ} {t : BitVec 40}
    (ht : tableAt link mem' root key d = some t) : tableAt link mem root key d = some t := by
  induction d generalizing t with
  | zero => exact ht
  | succ d ih =>
    obtain ⟨t', ht', hl⟩ := tableAt_of_succ ht
    have heq : mem' t' (key d) = mem t' (key d) := by
      rcases h t' (key d) with heq | hnone
      · exact heq
      · rw [link_of_not_present hnone] at hl
        cases hl
    rw [heq] at hl
    rw [tableAt_succ (ih ht'), hl]

theorem SmallPages.fewer (hs : SmallPages mem root) (h : Fewer mem mem') : SmallPages mem' root := by
  intro va d t hd ht hp
  rcases h t (offsets va d) with heq | hnone
  · rw [heq] at hp ⊢
    exact hs va d t hd (h.tableAt ht) hp
  · rw [hnone] at hp
    cases hp

/-- Unmapping one page. -/
private theorem walkLevels_unmap_fewer (hs : SmallPages mem root) (hva : va ≠ 0) (release : Bool)
    (l : List QWORD) :
    ∃ r, walkLevels (vmUnmapPage release) va 4 root (mem, l) = .ok r ∧ Fewer mem r.1 := by
  have hwalk := walkLevels_follow (follows_unmap release hva) hs l (Nat.zero_le 3)
    (show RadixTree.tableAt link mem root (offsets va) 0 = some root from rfl)
  rw [show 4 - 0 = 4 from rfl] at hwalk
  rw [hwalk]
  cases RadixTree.tableAt link mem root (offsets va) 3 with
  | none => exact ⟨_, rfl, Fewer.refl mem⟩
  | some t =>
    dsimp only
    rw [vmUnmapPage_last hva]
    by_cases hp : (mem t (offsets va 3)).present = true
    · rw [if_pos hp]
      exact ⟨_, rfl, fewer_unmap mem t (offsets va 3)⟩
    · rw [if_neg hp]
      exact ⟨_, rfl, Fewer.refl mem⟩

private theorem walkPages_unmap_fewer {cr3 base : QWORD} {n k : ℕ}
    (hs : SmallPages mem (frameOf cr3)) (release : Bool) (hpos : ∀ j < n, pageAt base (k + j) ≠ 0)
    (l : List QWORD) :
    ∃ r, walkPages cr3 base (vmUnmapPage release) n (BitVec.ofNat 64 (4096 * k)) (mem, l) = .ok r ∧
      Fewer mem r.1 := by
  induction n generalizing mem k l with
  | zero => exact ⟨_, rfl, Fewer.refl mem⟩
  | succ n ih =>
    obtain ⟨⟨mem₁, l₁⟩, hstep, hfewer⟩ := walkLevels_unmap_fewer hs (hpos 0 (by omega)) release l
    obtain ⟨r, hrest, hmore⟩ := ih (hs.fewer hfewer) (k := k + 1)
      (fun j hj => by
        have := hpos (j + 1) (by omega)
        rwa [show k + (j + 1) = k + 1 + j by omega] at this) l₁
    refine ⟨r, ?_, hfewer.trans hmore⟩
    unfold walkPages
    rw [offset_succ]
    exact bind_eq_ok.mpr ⟨_, hstep, hrest⟩

/-- Unmapping a range that does not run over the end goes through, and removes entries only. -/
theorem mmuUnmapMemoryEx_fewer {cr3 size : QWORD} (hs : SmallPages mem (frameOf cr3)) (hva : va ≠ 0)
    (hsize : size ≠ 0) (hfits : va.toNat + size.toNat ≤ 2 ^ 64) (release : Bool) :
    ∃ r, mmuUnmapMemoryEx mem cr3 va size release = .ok r ∧ Fewer mem r.1 := by
  obtain ⟨heq, hpos⟩ := @mmuUnmapMemoryEx_eq mem va size cr3 hva hsize hfits release
  rw [heq]
  exact walkPages_unmap_fewer hs release (fun j hj => by rw [Nat.zero_add]; exact hpos j hj) []

end Unmap

end HAL9000.Paging

namespace HAL9000.Vmm

open Run

/-- The metadata of a reservation space lie in their area. -/
def MetadataSound (s : VmmReservationSpace) : Prop :=
  ∃ metadata size pages m, MetadataArea metadata size pages ∧ MetadataInv metadata size pages m s

/-- Calls after which slot `i` is still in use, and the reservations have lain apart all along. -/
def Undisturbed (i : ℕ) (s s' : VmmReservationSpace) : Prop :=
  ∃ tr, Exec (fun s c s' => next s c = some s') s tr s' ∧
    Always (fun s => NoOverlap s ∧ s.Used i) tr s'

section Undisturbed

variable {s s' : VmmReservationSpace} {i : ℕ}

theorem MetadataSound.marker (h : MetadataSound s) : ∃ m, Marker s m := by
  obtain ⟨_, _, _, m, -, hinv⟩ := h
  exact ⟨m, hinv.marker⟩

theorem MetadataSound.next {c : Call} (h : MetadataSound s) (hs : next s c = some s') :
    MetadataSound s' := by
  obtain ⟨metadata, size, pages, m, harea, hinv⟩ := h
  obtain ⟨m', hinv'⟩ := metadataInv_next harea hinv hs
  exact ⟨metadata, size, pages, m', harea, hinv'⟩

theorem MetadataSound.alloc {req : AllocRequest} {r : Except Status (QWORD × QWORD)}
    (h : MetadataSound s) (hs : vmReservationSpaceAllocRegion s req = .ok (s', r)) :
    MetadataSound s' := by
  refine @MetadataSound.next s s' (.alloc req) h ?_
  have hperform : perform s (.alloc req) = .ok s' := by
    show Except.map _ (vmReservationSpaceAllocRegion s req) = .ok s'
    rw [hs]
    rfl
  rw [Vmm.next, hperform]
  rfl

/-- One call does not touch a slot that is in use before and after it. -/
private theorem next_slots {m : ℕ} {c : Call} (hm : Marker s m) (hs : next s c = some s')
    (hu : s.Used i) (hu' : s'.Used i) : s'.slots i = s.slots i := by
  obtain ⟨hk, -⟩ | ⟨a, n, -, -, j, m', hr, -, -⟩ | ⟨j, hr, -⟩ := next_cases hm hs
  · rw [hk.slots]
  · exact hr.same i hu
  · exact (hr.of_used hu').1

theorem Undisturbed.metadata (h : Undisturbed i s s') (hm : MetadataSound s) :
    MetadataSound s' := by
  obtain ⟨tr, hrun, -⟩ := h
  exact (hrun.always hm fun _ _ _ hm hs => hm.next hs).2

theorem Undisturbed.slots (h : Undisturbed i s s') (hm : MetadataSound s) :
    s'.Used i ∧ s'.slots i = s.slots i := by
  obtain ⟨tr, hrun, hall⟩ := h
  refine ⟨hall.2.2, ?_⟩
  induction hrun with
  | nil => rfl
  | @snoc tr s₁ s₂ c hrun hs ih =>
    obtain ⟨hall, -, hu⟩ := always_snoc.mp hall
    obtain ⟨m, hm⟩ := (Undisturbed.metadata ⟨tr, hrun, hall⟩ hm).marker
    exact (next_slots hm hs hall.2.2 hu).trans (ih hall)

theorem Undisturbed.apart (h : Undisturbed i s s') : NoOverlap s' := by
  obtain ⟨tr, -, hall⟩ := h
  exact hall.2.1

end Undisturbed

section Find

variable {s : VmmReservationSpace} {a : QWORD} {i : ℕ}

/-- `CHECK_BOUNDS` of one byte, also for a range that runs over the end. -/
theorem sub_lt_of_checkBounds {base size : QWORD} (h : checkBounds a 1 base size = true)
    (ha : a.toNat + 1 < 2 ^ 64) : a - base < size := by
  have hsize := size.isLt
  have hbase := base.isLt
  rw [checkBounds_eq_true, BitVec.toNat_add, BitVec.toNat_add, show (1 : QWORD).toNat = 1 from rfl] at h
  rw [BitVec.lt_def, BitVec.toNat_sub_of_le (BitVec.le_def.mpr h.1)]
  lia

/-- A range that contains a byte does not run over the end. -/
theorem inBuffer_of_checkBounds {base size : QWORD} (h : checkBounds a 1 base size = true)
    (ha : a.toNat + 1 < 2 ^ 64) : InBuffer base size a ∧ base.toNat + size.toNat < 2 ^ 64 := by
  have hbelow : base.toNat + size.toNat < 2 ^ 64 := by
    have hsize := size.isLt
    have hbase := base.isLt
    rw [checkBounds_eq_true, BitVec.toNat_add, BitVec.toNat_add, show (1 : QWORD).toNat = 1 from rfl] at h
    lia
  exact ⟨(contains_one_iff hbelow ha).mp h, hbelow⟩

/-- The search for an address finds the reservation that it lies in. -/
theorem MetadataSound.find (h : MetadataSound s) (hno : NoOverlap s) (hu : s.Used i)
    (hin : InBuffer (s.slots i).startVa (s.slots i).size a)
    (hbelow : (s.slots i).startVa.toNat + (s.slots i).size.toNat < 2 ^ 64) (ha : a ≠ 0) :
    vmFindReservation s a 1 = .ok (some i) := by
  obtain ⟨_, _, _, m, harea, hinv⟩ := h
  have hlt : a.toNat + 1 < 2 ^ 64 := by
    have := hin.2
    omega
  obtain ⟨r, hfind⟩ := hinv.vmFindReservation_total harea ha (show (1 : QWORD) ≠ 0 by decide)
  have hfound := vmFindReservation_spec hinv.marker hfind
  have hcheck := (contains_one_iff hbelow hlt).mpr hin
  cases r with
  | none => exact absurd ⟨hu, hcheck⟩ (hfound i (Nat.zero_le i))
  | some j =>
    obtain ⟨-, huj, hj⟩ := hfound
    rw [hfind]
    congr 2
    by_contra hne
    exact hno j i hne huj hu a ⟨sub_lt_of_checkBounds hj hlt, sub_lt_of_checkBounds hcheck hlt⟩

end Find

end HAL9000.Vmm

namespace HAL9000.Paging

open Vmm

section Release

variable {env : RegionEnv} {s s' : RegionState} {address : QWORD} {i : ℕ}

/-- A reservation that can be released: it does not run over the end, and its commit bitmap can be
unmapped. -/
structure Releasable (r : VmmReservation) : Prop where
  start : r.startVa ≠ 0
  size : r.size ≠ 0
  below : r.startVa.toNat + r.size.toNat < 2 ^ 64
  buffer : r.commitBitmap.bitmapBuffer ≠ 0
  bufferAligned : isAddressAligned r.commitBitmap.bitmapBuffer pageSize = true
  bufferSize : r.commitBitmap.bufferSize ≠ 0
  bufferBelow : r.commitBitmap.bitmapBuffer.toNat + r.commitBitmap.bufferSize.toNat ≤ 2 ^ 64

private theorem vmReservationSpaceFreeRegion_release {vaSpace : VmmReservationSpace}
    (hfind : vmFindReservation vaSpace address 1 = .ok (some i)) (ha : address ≠ 0)
    (hal : isAddressAligned (vaSpace.slots i).commitBitmap.bitmapBuffer pageSize = true) :
    vmReservationSpaceFreeRegion vaSpace address 0 vmmFreeTypeRelease =
      .ok (vaSpace.setSlot i .zero, (vaSpace.slots i).startVa, (vaSpace.slots i).size) := by
  have hflags : isBooleanFlagOn vmmFreeTypeRelease vmmFreeTypeRelease = true ∧
      isBooleanFlagOn vmmFreeTypeRelease vmmFreeTypeDecommit = false := by decide
  unfold vmReservationSpaceFreeRegion
  simp only [hflags.1, hflags.2, assertThat_of ha, hfind, bind, Except.bind]
  rw [assertThat_of (by decide), assertThat_of (by decide)]
  simp only [assertThat_of hal, if_true]
  rfl

/-- A region goes with the reservation that the address lies in. -/
theorem vmmReleaseRegion_of (hm : MetadataSound s.vaSpace) (hno : NoOverlap s.vaSpace)
    (hu : s.vaSpace.Used i)
    (hr : Releasable (s.vaSpace.slots i))
    (hin : InBuffer (s.vaSpace.slots i).startVa (s.vaSpace.slots i).size address)
    (hkernel : SmallPages s.mem (frameOf env.kernelBase))
    (hsmall : SmallPages s.mem (frameOf s.pagingData.basePhysicalAddress)) :
    ∃ s', vmmReleaseRegion env s address = .ok s' ∧ Released s.vaSpace s'.vaSpace i ∧
      s'.pagingData = s.pagingData ∧ Fewer s.mem s'.mem := by
  have hstart : (s.vaSpace.slots i).startVa.toNat ≠ 0 :=
    fun h0 => hr.start (BitVec.eq_of_toNat_eq h0)
  have ha : address ≠ 0 := by
    intro h0
    have hlow := hin.1
    rw [h0] at hlow
    have hz : (0 : QWORD).toNat = 0 := rfl
    omega
  have hfind := hm.find hno hu hin hr.below ha
  have hfree := vmReservationSpaceFreeRegion_release hfind ha hr.bufferAligned
  have hbuffer : ((s.vaSpace.slots i).commitBitmap.bufferSize.setWidth 64 : QWORD).toNat =
      (s.vaSpace.slots i).commitBitmap.bufferSize.toNat := by
    rw [BitVec.toNat_setWidth]
    omega
  have hbufferNe : ((s.vaSpace.slots i).commitBitmap.bufferSize.setWidth 64 : QWORD) ≠ 0 := by
    intro h0
    rw [h0] at hbuffer
    exact hr.bufferSize (BitVec.eq_of_toNat_eq hbuffer.symm)
  obtain ⟨⟨mem₁, l₁⟩, hbitmap, hfewer₁⟩ := mmuUnmapMemoryEx_fewer hkernel hr.buffer hbufferNe
    (by rw [hbuffer]; exact hr.bufferBelow) true
  obtain ⟨⟨mem₂, l₂⟩, hregion, hfewer₂⟩ := mmuUnmapMemoryEx_fewer (hsmall.fewer hfewer₁) hr.start
    hr.size (Nat.le_of_lt hr.below) true
  refine ⟨_, bind_eq_ok.mpr ⟨(), assertThat_of ha, bind_eq_ok.mpr ⟨_, bind_eq_ok.mpr ⟨_, hfind,
    bind_eq_ok.mpr ⟨_, hfree, bind_eq_ok.mpr ⟨_, bind_eq_ok.mpr ⟨(), assertThat_of hr.bufferAligned,
      bind_eq_ok.mpr ⟨_, hbitmap, rfl⟩⟩, rfl⟩⟩⟩, bind_eq_ok.mpr ⟨(), assertThat_of hr.start,
        bind_eq_ok.mpr ⟨(), assertThat_of hr.size, bind_eq_ok.mpr ⟨_, hregion, rfl⟩⟩⟩⟩⟩,
    ⟨hu, rfl⟩, rfl, hfewer₁.trans hfewer₂⟩

/-- Only a reservation that contains the address goes. -/
theorem vmmReleaseRegion_ok {m : ℕ} (hm : Marker s.vaSpace m)
    (h : vmmReleaseRegion env s address = .ok s') :
    ∃ j, Released s.vaSpace s'.vaSpace j ∧ s.vaSpace.Contains address 1 j := by
  obtain ⟨_, ha, h⟩ := bind_eq_ok.mp h
  obtain ⟨⟨s₁, a, n⟩, hrelease, h⟩ := bind_eq_ok.mp h
  obtain ⟨_, -, h⟩ := bind_eq_ok.mp h
  obtain ⟨_, -, h⟩ := bind_eq_ok.mp h
  obtain ⟨⟨mem, l⟩, -, h⟩ := bind_eq_ok.mp h
  cases h
  obtain ⟨found, hfind, hrelease⟩ := bind_eq_ok.mp hrelease
  cases found with
  | none => cases hrelease
  | some j =>
    obtain ⟨⟨vaSpace, a', n'⟩, hfree, hrelease⟩ := bind_eq_ok.mp hrelease
    obtain ⟨s₂, huninit, hrelease⟩ := bind_eq_ok.mp hrelease
    cases hrelease
    obtain ⟨_, hal, huninit⟩ := bind_eq_ok.mp huninit
    obtain ⟨r, -, huninit⟩ := bind_eq_ok.mp huninit
    cases huninit
    rw [vmReservationSpaceFreeRegion_release hfind (assertThat_eq_ok.mp ha)
      (assertThat_eq_ok.mp hal)] at hfree
    cases hfree
    obtain ⟨-, hcontains⟩ := vmFindReservation_spec hm hfind
    exact ⟨j, ⟨hcontains.1, rfl⟩, hcontains⟩

end Release

end HAL9000.Paging
