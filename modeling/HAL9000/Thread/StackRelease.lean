import HAL9000.Thread.Creation

/-! Which reservations the destruction of a thread releases: `MmuFreeStack` looks a stack up by the
address that the thread keeps, and `MmuAllocStack` returned the first address behind it. -/
namespace HAL9000.Creation

open Paging
open Vmm (VmmReservationSpace Reserved Released MetadataSound NoOverlap Undisturbed InBuffer
  inBuffer_of_checkBounds)

/-- Slot `i` has been filled. -/
def Filled (v v' : VmmReservationSpace) (i : ℕ) : Prop := ¬ v.Used i ∧ v'.Used i

/-- Exactly the slots that were filled between the first two states have been cleared. -/
def Returned (v v₁ v₂ v₃ : VmmReservationSpace) : Prop :=
  ∀ i, (Filled v v₁ i → v₃.slots i = .zero) ∧ (¬ Filled v v₁ i → v₃.slots i = v₂.slots i)

/-- Of every address space exactly the reservations are gone that the creation made. -/
def StacksReturned (s s₁ s₂ s₃ : ThreadSystem) : Prop :=
  ∀ q, Returned (s.region q).vaSpace (s₁.region q).vaSpace (s₂.region q).vaSpace
    (s₃.region q).vaSpace

/-- A stack reserved at the next free address does not run over the end. -/
def StackFits (v : VmmReservationSpace) : Prop :=
  v.freeVirtualAddressPointer.toNat + 0xA000 < 2 ^ 64

instance (v : VmmReservationSpace) : Decidable (StackFits v) := inferInstanceAs (Decidable (_ < _))

section Slots

variable {v v₁ v₂ v₃ : VmmReservationSpace} {i j : ℕ} {a n : QWORD}

theorem filled_iff (h : Reserved v v₁ i a n) : Filled v v₁ j ↔ j = i := by
  constructor
  · rintro ⟨hnot, hused⟩
    exact ((h.used j).mp hused).resolve_right hnot
  · rintro rfl
    exact ⟨h.fresh, (h.used j).mpr (Or.inl rfl)⟩

theorem returned_of_released (h : Reserved v v₁ i a n) (hr : Released v₂ v₃ i) :
    Returned v v₁ v₂ v₃ := by
  intro j
  rw [filled_iff h, hr.eq]
  constructor
  · rintro rfl
    simp
  · intro hne
    simp [hne]

theorem returned_of_same (h : v₁ = v) (h' : v₃ = v₂) : Returned v v₁ v₂ v₃ := by
  subst h h'
  exact fun i => ⟨fun hf => absurd hf.2 hf.1, fun _ => rfl⟩

/-- A cleared slot is one that was filled. -/
theorem Returned.slot (hr : Returned v v₁ v₂ v₃) (h : Reserved v v₁ i a n)
    (hj : Released v₂ v₃ j) : j = i := by
  by_contra hne
  have hsame := (hr j).2 fun hf => hne ((filled_iff h).mp hf)
  have hused := hj.used
  unfold VmmReservationSpace.Used at hused
  rw [← hsame, hj.eq, Vmm.setSlot_same] at hused
  cases hused

/-- The reservation of a stack stays what it was until it is released. -/
theorem releasable_of_reserved (h : Reserved v v₁ i a 0xA000) (hsame : v₂.slots i = v₁.slots i)
    (hbelow : a.toNat + 0xA000 < 2 ^ 64) : Releasable (v₂.slots i) := by
  have hbuffer := h.bufferSize
  have haligned := h.bufferAligned
  rw [show ((0xA000 : QWORD) / pageSize).toNat = 10 from rfl] at hbuffer
  rw [hsame]
  refine ⟨h.startVa ▸ h.nonNull, h.size ▸ h.sizeNonZero, ?_, h.buffer ▸ h.bufferNonNull,
    h.buffer ▸ h.bufferAligned, fun h0 => ?_, ?_⟩
  · rw [h.startVa, h.size]
    exact hbelow
  · rw [h0] at hbuffer
    cases hbuffer
  · rw [h.buffer, hbuffer]
    have := aligned_iff.mp haligned
    have := v.freeBitmapAddress.isLt
    omega

end Slots

section Free

variable {env : ThreadEnv} {s s' : ThreadSystem} {q : Option QWORD} {a : QWORD} {i : ℕ}

/-- Both page tables that a stack of the address space is unmapped in end in small pages. -/
def SmallSpaces (s : ThreadSystem) (q : Option QWORD) : Prop :=
  SmallPages s.mem (frameOf s.pagingData.basePhysicalAddress) ∧
    SmallPages s.mem (frameOf (s.region q).pagingData.basePhysicalAddress)

theorem mmuFreeStack_of (hm : MetadataSound (s.region q).vaSpace)
    (hno : NoOverlap (s.region q).vaSpace) (hu : (s.region q).vaSpace.Used i)
    (hr : Releasable ((s.region q).vaSpace.slots i))
    (hin : InBuffer ((s.region q).vaSpace.slots i).startVa ((s.region q).vaSpace.slots i).size a)
    (hsmall : SmallSpaces s q) :
    ∃ r, mmuFreeStack env s a q = .ok (s.setRegion q r) ∧
      Released (s.region q).vaSpace r.vaSpace i ∧
      r.pagingData = (s.region q).pagingData ∧ Fewer s.mem r.mem := by
  have hmem : (s.region q).mem = s.mem := by cases q <;> rfl
  obtain ⟨r, hrelease, hreleased, hpaging, hfewer⟩ := @vmmReleaseRegion_of (s.regionEnv env)
    (s.region q) a i hm hno hu hr hin (hmem ▸ hsmall.1) (hmem ▸ hsmall.2)
  have ha : a ≠ 0 := by
    intro h0
    have hlow := hin.1
    have hpos : ((s.region q).vaSpace.slots i).startVa.toNat ≠ 0 :=
      fun hz => hr.start (BitVec.eq_of_toNat_eq hz)
    rw [h0, show (0 : QWORD).toNat = 0 from rfl] at hlow
    omega
  exact ⟨r, bind_eq_ok.mpr ⟨(), assertThat_of ha, bind_eq_ok.mpr ⟨r, hrelease, rfl⟩⟩, hreleased,
    hpaging, hmem ▸ hfewer⟩

theorem mmuFreeStack_ok (hm : MetadataSound (s.region q).vaSpace)
    (h : mmuFreeStack env s a q = .ok s') :
    ∃ r j, s' = s.setRegion q r ∧ Released (s.region q).vaSpace r.vaSpace j ∧
      (s.region q).vaSpace.Contains a 1 j := by
  obtain ⟨m, hmarker⟩ := hm.marker
  obtain ⟨_, -, h⟩ := bind_eq_ok.mp h
  obtain ⟨r, hrelease, h⟩ := bind_eq_ok.mp h
  cases h
  obtain ⟨j, hreleased, hcontains⟩ := vmmReleaseRegion_ok hmarker hrelease
  exact ⟨r, j, rfl, hreleased, hcontains⟩

end Free

section Remove

variable {s s' : ThreadSystem} {t p : QWORD}

/-- The address spaces of the processes are the same. -/
def SameSpaces (ps ps' : QWORD → Process) : Prop :=
  ∀ q, (ps' q).pagingData = (ps q).pagingData ∧ (ps' q).vaSpace = (ps q).vaSpace

theorem SameSpaces.trans {ps ps' ps'' : QWORD → Process} (h : SameSpaces ps ps')
    (h' : SameSpaces ps' ps'') : SameSpaces ps ps'' :=
  fun q => ⟨(h' q).1.trans (h q).1, (h' q).2.trans (h q).2⟩

theorem sameSpaces_update {ps : QWORD → Process} {new : Process}
    (hp : new.pagingData = (ps p).pagingData) (hv : new.vaSpace = (ps p).vaSpace) :
    SameSpaces ps (Function.update ps p new) := by
  intro q
  by_cases h : q = p
  · subst h
    rw [Function.update_self]
    exact ⟨hp, hv⟩
  · rw [Function.update_of_ne h]
    exact ⟨rfl, rfl⟩

theorem SameSpaces.region {ps : QWORD → Process} (h : SameSpaces s.processes ps)
    (q : Option QWORD) : ({ s with processes := ps } : ThreadSystem).region q = s.region q := by
  cases q with
  | none => rfl
  | some q => simp [ThreadSystem.region, h q]

/-- Dropping a reference to a process. -/
theorem processDereference_ok (h : processDereference s p = .ok s') :
    ∃ ps, s' = { s with processes := ps } ∧ SameSpaces s.processes ps := by
  obtain ⟨c, -, h⟩ := bind_eq_ok.mp h
  dsimp only at h
  by_cases hc : c = 0
  · rw [if_pos hc] at h
    obtain ⟨_, -, h⟩ := bind_eq_ok.mp h
    cases h
    exact ⟨_, rfl, sameSpaces_update rfl rfl⟩
  · rw [if_neg hc] at h
    cases h
    exact ⟨_, rfl, sameSpaces_update rfl rfl⟩

theorem processRemoveThreadFromList_ok (h : processRemoveThreadFromList s t = .ok s') :
    ∃ ps, s' = { s with processes := ps } ∧ SameSpaces s.processes ps := by
  unfold processRemoveThreadFromList at h
  cases hp : (s.threads t).process with
  | none =>
    rw [hp] at h
    cases h
  | some p =>
    rw [hp] at h
    obtain ⟨_, -, h⟩ := bind_eq_ok.mp h
    obtain ⟨threadList, -, h⟩ := bind_eq_ok.mp h
    obtain ⟨s₁, hderef, h⟩ := bind_eq_ok.mp h
    obtain ⟨ps, rfl, hsame⟩ := processDereference_ok hderef
    have hsame : SameSpaces s.processes ps := by
      refine SameSpaces.trans ?_ hsame
      exact sameSpaces_update rfl rfl
    dsimp only at h
    split_ifs at h
    · obtain ⟨ps', rfl, hsame'⟩ := processDereference_ok h
      exact ⟨ps', rfl, hsame.trans hsame'⟩
    · cases h
      exact ⟨ps, rfl, hsame⟩

theorem removeEntryList_of {l : List QWORD} (h : t ∈ l) : removeEntryList l t = .ok (l.erase t) :=
  if_pos h

/-- A reference that is counted can be dropped, the last one when the process has no threads. -/
theorem processDereference_of (hpos : 0 < (s.processes p).refCnt.toNat)
    (hlast : (s.processes p).refCnt - 1 = 0 → (s.processes p).numberOfThreads = 0) :
    ∃ s', processDereference s p = .ok s' ∧
      (s'.processes p).refCnt = (s.processes p).refCnt - 1 ∧
      (s'.processes p).numberOfThreads = (s.processes p).numberOfThreads := by
  by_cases hc : (s.processes p).refCnt - 1 = 0
  · refine ⟨s.setProcess p { s.processes p with
      refCnt := (s.processes p).refCnt - 1, destroyed := true }, ?_, ?_⟩
    · refine bind_eq_ok.mpr ⟨_, rfcDereference_of_pos hpos, ?_⟩
      rw [if_pos hc]
      exact bind_eq_ok.mpr ⟨(), assertThat_of (hlast hc), rfl⟩
    · simp [ThreadSystem.setProcess]
  · refine ⟨s.setProcess p { s.processes p with refCnt := (s.processes p).refCnt - 1 }, ?_, ?_⟩
    · refine bind_eq_ok.mpr ⟨_, rfcDereference_of_pos hpos, ?_⟩
      rw [if_neg hc]
      rfl
    · simp [ThreadSystem.setProcess]

/-- What makes the removal of a thread from its process go through: the process lists and counts it,
and its references are more than the one of the thread. -/
structure Listed (s : ThreadSystem) (t p : QWORD) : Prop where
  process : (s.threads t).process = some p
  listed : t ∈ (s.processes p).threadList
  counted : (s.processes p).numberOfThreads ≠ 0
  referenced : 2 ≤ (s.processes p).refCnt.toNat

theorem processRemoveThreadFromList_of (h : Listed s t p) :
    ∃ s', processRemoveThreadFromList s t = .ok s' := by
  have hreferenced := h.referenced
  have hcount : (s.processes p).numberOfThreads - 1 ≠ maxDword := by
    have := h.counted
    unfold maxDword
    bv_omega
  have hrest : ((s.processes p).refCnt - 1).toNat = (s.processes p).refCnt.toNat - 1 := by
    bv_omega
  have hne : (s.processes p).refCnt - 1 ≠ 0 := by
    intro heq
    rw [heq] at hrest
    have hzero : (0 : DWORD).toNat = 0 := rfl
    omega
  let s₁ := s.setProcess p { s.processes p with
    numberOfThreads := (s.processes p).numberOfThreads - 1
    threadList := (s.processes p).threadList.erase t }
  have hs₁ : s₁.processes p = { s.processes p with
      numberOfThreads := (s.processes p).numberOfThreads - 1
      threadList := (s.processes p).threadList.erase t } := by
    simp [s₁, ThreadSystem.setProcess]
  have hpos : 0 < (s.processes p).refCnt.toNat := by omega
  obtain ⟨s₂, hderef, hcnt₂, hthreads₂⟩ := @processDereference_of s₁ p
    (by rw [hs₁]; exact hpos) (by rw [hs₁]; exact fun h0 => absurd h0 hne)
  rw [hs₁] at hcnt₂ hthreads₂
  have hlast : ∃ s', (if (s.processes p).numberOfThreads - 1 = 0 then processDereference s₂ p
      else .ok s₂) = .ok s' := by
    by_cases hr : (s.processes p).numberOfThreads - 1 = 0
    · rw [if_pos hr]
      obtain ⟨s₃, hderef', -⟩ := @processDereference_of s₂ p
        (by rw [hcnt₂, hrest]; exact Nat.sub_pos_of_lt hreferenced) (fun _ => by rw [hthreads₂]; exact hr)
      exact ⟨s₃, hderef'⟩
    · rw [if_neg hr]
      exact ⟨s₂, rfl⟩
  obtain ⟨s₃, hlast⟩ := hlast
  refine ⟨s₃, ?_⟩
  unfold processRemoveThreadFromList
  rw [h.process]
  exact bind_eq_ok.mpr ⟨(), assertThat_of hcount, bind_eq_ok.mpr ⟨_, removeEntryList_of h.listed,
    bind_eq_ok.mpr ⟨s₂, hderef, hlast⟩⟩⟩

end Remove

section Destroy

variable {env : ThreadEnv} {s s' : ThreadSystem} {t p : QWORD} {i : ℕ}

theorem exFreePoolWithTag_of {heap : Heap.HeapHeader} {a : QWORD} {tag : DWORD}
    (h : Heap.clHeapFreePoolWithTag s.heap a tag = .ok heap) :
    exFreePoolWithTag s a tag = .ok { s with heap := heap } :=
  bind_eq_ok.mpr ⟨heap, h, rfl⟩

theorem exFreePoolWithTag_region {a : QWORD} {tag : DWORD} (h : exFreePoolWithTag s a tag = .ok s')
    (q : Option QWORD) : s'.region q = s.region q := by
  obtain ⟨heap, -, h⟩ := bind_eq_ok.mp h
  cases h
  exact region_setHeap s q heap

theorem threadFreeName_ok (h : threadFreeName s t = .ok s') :
    (∀ q, s'.region q = s.region q) ∧ (s'.threads t).stack = (s.threads t).stack := by
  unfold threadFreeName at h
  split_ifs at h
  · cases h
    exact ⟨fun _ => rfl, rfl⟩
  · obtain ⟨s₁, hfree, h⟩ := bind_eq_ok.mp h
    cases h
    refine ⟨fun q => (region_setThread s₁ q t _).trans (exFreePoolWithTag_region hfree q), ?_⟩
    obtain ⟨heap, -, hfree⟩ := bind_eq_ok.mp hfree
    cases hfree
    rw [threads_setThread]

/-- What the destruction of a thread does to the address spaces: it frees the user stack, then the
kernel stack. -/
theorem threadDestroy_ok (h : threadDestroy env s t = .ok s') :
    ∃ l s₁ s₂ s₃, threadFreeUserStack env { s with allThreadsList := l } t = .ok s₁ ∧
      (∀ q, s₂.region q = s₁.region q) ∧ (s₂.threads t).stack = (s₁.threads t).stack ∧
      threadFreeKernelStack env s₂ t = .ok s₃ ∧ ∀ q, s'.region q = s₃.region q := by
  obtain ⟨l, -, h⟩ := bind_eq_ok.mp h
  obtain ⟨s₁, huser, h⟩ := bind_eq_ok.mp h
  obtain ⟨s₂, hremove, h⟩ := bind_eq_ok.mp h
  obtain ⟨ps, rfl, hsame⟩ := processRemoveThreadFromList_ok hremove
  obtain ⟨s₃, hname, h⟩ := bind_eq_ok.mp h
  obtain ⟨s₄, hkernel, h⟩ := bind_eq_ok.mp h
  obtain ⟨hregion, hstack⟩ := threadFreeName_ok hname
  exact ⟨l, s₁, s₃, s₄, huser, fun q => (hregion q).trans (hsame.region q), hstack, hkernel,
    exFreePoolWithTag_region h⟩

/-- What the destruction of a thread relies on besides the address spaces: its process lists it, and
the heap takes its name and its record back. -/
structure Destroyable (s : ThreadSystem) (t p : QWORD) : Prop extends Listed s t p where
  named : (s.threads t).name ≠ 0
  freed : ∃ heap heap', Heap.clHeapFreePoolWithTag s.heap (s.threads t).name heapThreadTag = .ok heap ∧
    Heap.clHeapFreePoolWithTag heap t heapThreadTag = .ok heap'

/-- The kernel stack is found by the saved stack pointer. -/
structure KernelStack (s : ThreadSystem) (t : QWORD) (i : ℕ) : Prop where
  sound : MetadataSound s.vaSpace
  apart : NoOverlap s.vaSpace
  used : s.vaSpace.Used i
  releasable : Releasable (s.vaSpace.slots i)
  inside : InBuffer (s.vaSpace.slots i).startVa (s.vaSpace.slots i).size (s.threads t).stack
  small : SmallPages s.mem (frameOf s.pagingData.basePhysicalAddress)

/-- The destruction of a thread goes through when its user stack is gone. -/
theorem threadDestroy_of {s₀ : ThreadSystem} (halive : t ∈ s₀.allThreadsList)
    (huser : threadFreeUserStack env { s₀ with allThreadsList := s₀.allThreadsList.erase t } t = .ok s)
    (hd : Destroyable s t p) (hk : KernelStack s t i) :
    ∃ s', threadDestroy env s₀ t = .ok s' ∧ Released s.vaSpace s'.vaSpace i ∧
      ∀ q, q ≠ none → (s'.region q).vaSpace = (s.region q).vaSpace := by
  obtain ⟨s₁, hremove⟩ := processRemoveThreadFromList_of hd.toListed
  obtain ⟨ps, rfl, hsame⟩ := processRemoveThreadFromList_ok hremove
  obtain ⟨heap, heap', hfree, hfree'⟩ := hd.freed
  let s₂ := ({ s with processes := ps, heap := heap } : ThreadSystem).setThread t
    { s.threads t with name := 0 }
  have hname : threadFreeName { s with processes := ps } t = .ok s₂ := by
    unfold threadFreeName
    rw [if_neg hd.named]
    exact bind_eq_ok.mpr ⟨_, exFreePoolWithTag_of hfree, rfl⟩
  have hregion₂ : ∀ q, s₂.region q = s.region q := fun q =>
    (region_setThread _ q t _).trans ((region_setHeap _ q heap).trans (hsame.region q))
  have hstack₂ : (s₂.threads t).stack = (s.threads t).stack := by
    simp [s₂]
  have hne : (s₂.threads t).stack ≠ 0 := by
    intro h0
    have hlow := hk.inside.1
    have hpos : (s.vaSpace.slots i).startVa.toNat ≠ 0 :=
      fun hz => hk.releasable.start (BitVec.eq_of_toNat_eq hz)
    rw [← hstack₂, h0, show (0 : QWORD).toNat = 0 from rfl] at hlow
    omega
  obtain ⟨r, hrelease, hreleased, -, -⟩ := @mmuFreeStack_of env s₂ none (s₂.threads t).stack i
    hk.sound hk.apart hk.used hk.releasable (by rw [hstack₂]; exact hk.inside)
    ⟨hk.small, hk.small⟩
  have hkernel : threadFreeKernelStack env s₂ t = .ok ((s₂.setRegion none r).setThread t
      { (s₂.setRegion none r).threads t with stack := 0 }) := by
    unfold threadFreeKernelStack
    rw [if_neg hne]
    exact bind_eq_ok.mpr ⟨_, hrelease, rfl⟩
  refine ⟨_, bind_eq_ok.mpr ⟨_, removeEntryList_of halive, bind_eq_ok.mpr ⟨_, huser,
    bind_eq_ok.mpr ⟨_, hremove, bind_eq_ok.mpr ⟨_, hname, bind_eq_ok.mpr ⟨_, hkernel,
      exFreePoolWithTag_of hfree'⟩⟩⟩⟩⟩, hreleased, ?_⟩
  intro q hq
  rw [region_setHeap, region_setThread, vaSpace_setRegion hq, hregion₂]

end Destroy

section Lifetime

variable {env : ThreadEnv} {s s₁ s₂ : ThreadSystem} {t p function : QWORD}

/-- What happens between the creation of a thread and its destruction: nobody else releases the
reservations of its stacks or makes others over them, its record keeps the user stack, and the saved
stack pointer stays in its kernel stack. -/
structure Meanwhile (s s₁ s₂ : ThreadSystem) (t p : QWORD) : Prop where
  undisturbed : ∀ q i, Filled (s.region q).vaSpace (s₁.region q).vaSpace i →
    Undisturbed i (s₁.region q).vaSpace (s₂.region q).vaSpace
  small : SmallSpaces s₂ (some p)
  userStack : (s₂.threads t).userStack = (s₁.threads t).userStack
  stackBelow : 0 < ((s₁.threads t).initialStackBase - (s₂.threads t).stack).toNat
  stackAbove : ((s₁.threads t).initialStackBase - (s₂.threads t).stack).toNat ≤
    (s₁.threads t).stackSize.toNat
  stackAligned : (s₂.threads t).stack.toNat % 8 = 0

/-- A reservation that the creation made is still there. -/
theorem Meanwhile.kept (hm : Meanwhile s s₁ s₂ t p) {q : Option QWORD} {i : ℕ} {a n : QWORD}
    (hr : Reserved (s.region q).vaSpace (s₁.region q).vaSpace i a n)
    (hsound : MetadataSound (s₁.region q).vaSpace) :
    MetadataSound (s₂.region q).vaSpace ∧ NoOverlap (s₂.region q).vaSpace ∧
      (s₂.region q).vaSpace.Used i ∧ (s₂.region q).vaSpace.slots i = (s₁.region q).vaSpace.slots i := by
  have hundisturbed := hm.undisturbed q i ((filled_iff hr).mpr rfl)
  obtain ⟨hused, hslots⟩ := hundisturbed.slots hsound
  exact ⟨hundisturbed.metadata hsound, hundisturbed.apart, hused, hslots⟩

theorem kernelStack_of (hc : Created s s₁ t p function) (hm : Meanwhile s s₁ s₂ t p)
    (hfits : StackFits s.vaSpace) :
    ∃ i a, Reserved (s.region none).vaSpace (s₁.region none).vaSpace i a 0xA000 ∧
      KernelStack s₂ t i := by
  obtain ⟨i, hr⟩ := hc.kernelReserved
  obtain ⟨hsound, hapart, hused, hslots⟩ := hm.kept hr hc.kernelSound
  refine ⟨i, _, hr, hsound, hapart, hused, releasable_of_reserved hr hslots hfits, ?_, hm.small.1⟩
  have hbelow := hm.stackBelow
  have habove := hm.stackAbove
  rw [hc.initialStackBase] at hbelow habove
  rw [hc.stackSize, show stackDefaultSize.toNat = 0x8000 from rfl] at habove
  unfold StackFits at hfits
  have hbase : (s.vaSpace.freeVirtualAddressPointer + 0xA000).toNat =
      s.vaSpace.freeVirtualAddressPointer.toNat + 0xA000 := by
    rw [BitVec.toNat_add, show (0xA000 : QWORD).toNat = 0xA000 from rfl, Nat.mod_eq_of_lt hfits]
  rw [BitVec.toNat_sub, hbase] at hbelow habove
  have hstack := (s₂.threads t).stack.isLt
  show InBuffer ((s₂.region none).vaSpace.slots i).startVa ((s₂.region none).vaSpace.slots i).size _
  rw [hslots, hr.startVa, hr.size, InBuffer, show (0xA000 : QWORD).toNat = 0xA000 from rfl]
  lia

/-- The user stack of a thread that does not start at the entry point is found. -/
theorem userStack_of (hc : Created s s₁ t p function) (hm : Meanwhile s s₁ s₂ t p)
    (hk : (s.processes p).pagingData.kernelSpace = false)
    (hentry : function ≠ (s.processes p).addressOfEntryPoint)
    (hfits : StackFits (s.region (some p)).vaSpace) (l : List QWORD)
    (hprocess : (s₂.threads t).process = some p) :
    ∃ i a r, Reserved (s.region (some p)).vaSpace (s₁.region (some p)).vaSpace i a 0xA000 ∧
      threadFreeUserStack env { s₂ with allThreadsList := l } t =
        .ok ((({ s₂ with allThreadsList := l } : ThreadSystem).setRegion (some p) r).setThread t
          { s₂.threads t with userStack := 0 }) ∧
      Released (s₂.region (some p)).vaSpace r.vaSpace i ∧ Fewer s₂.mem r.mem := by
  obtain ⟨huser, hne, hsound, i, hr⟩ := hc.userStack hk
  obtain ⟨hsound₂, hapart, hused, hslots⟩ := hm.kept hr hsound
  unfold StackFits at hfits
  have hvalue : (userStackOf s p function).toNat =
      (s.region (some p)).vaSpace.freeVirtualAddressPointer.toNat + 0x9FD8 := by
    rw [userStackOf, if_neg hentry]
    unfold shadowStackSize
    bv_omega
  have hin : InBuffer ((s₂.region (some p)).vaSpace.slots i).startVa
      ((s₂.region (some p)).vaSpace.slots i).size (s₂.threads t).userStack := by
    rw [hslots, hr.startVa, hr.size, InBuffer, hm.userStack, huser, hvalue,
      show (0xA000 : QWORD).toNat = 0xA000 from rfl]
    omega
  obtain ⟨r, hfree, hreleased, -, hfewer⟩ := @mmuFreeStack_of env
    { s₂ with allThreadsList := l } (some p) (s₂.threads t).userStack i hsound₂ hapart hused
    (releasable_of_reserved hr hslots hfits) hin hm.small
  refine ⟨i, _, r, hr, ?_, hreleased, hfewer⟩
  unfold threadFreeUserStack
  rw [if_neg (by rw [hm.userStack, huser]; exact hne), hprocess]
  exact bind_eq_ok.mpr ⟨_, hfree, rfl⟩

/-- What makes the destruction release exactly what the creation reserved. -/
def ReleasesItsStacks (s : ThreadSystem) (p function : QWORD) : Prop :=
  StackFits s.vaSpace ∧ ((s.processes p).pagingData.kernelSpace = true ∨
    function ≠ (s.processes p).addressOfEntryPoint ∧ StackFits (s.processes p).vaSpace)

theorem stacksReturned_of (hc : Created s s₁ t p function) (hm : Meanwhile s s₁ s₂ t p)
    (halive : t ∈ s₂.allThreadsList) (hd : Destroyable s₂ t p)
    (hreleases : ReleasesItsStacks s p function) :
    ∃ s₃, threadDestroy env s₂ t = .ok s₃ ∧ StacksReturned s s₁ s₂ s₃ := by
  obtain ⟨hfits, hstart⟩ := hreleases
  obtain ⟨i, a, hr, hk⟩ := kernelStack_of hc hm hfits
  let sa : ThreadSystem := { s₂ with allThreadsList := s₂.allThreadsList.erase t }
  by_cases hspace : (s.processes p).pagingData.kernelSpace = true
  · have huser : threadFreeUserStack env sa t = .ok sa :=
      if_pos (hm.userStack.trans (hc.noUserStack hspace))
    have hd' : Destroyable sa t p := ⟨⟨hd.process, hd.listed, hd.counted, hd.referenced⟩, hd.named,
      hd.freed⟩
    have hk' : KernelStack sa t i := ⟨hk.sound, hk.apart, hk.used, hk.releasable, hk.inside, hk.small⟩
    obtain ⟨s₃, hdestroy, hreleased, hothers⟩ := threadDestroy_of halive huser hd' hk'
    refine ⟨s₃, hdestroy, fun q => ?_⟩
    by_cases hq : q = none
    · rw [hq]
      exact returned_of_released hr hreleased
    · exact returned_of_same (hc.others q hq fun _ => hspace) ((hothers q hq).trans (by cases q <;> rfl))
  · obtain ⟨hentry, hfits'⟩ := hstart.resolve_left hspace
    obtain ⟨j, b, r, hr', huser, hreleased', hfewer⟩ := @userStack_of env s s₁ s₂ t p function hc hm
      (eq_false_of_ne_true hspace) hentry hfits' (s₂.allThreadsList.erase t) hd.process
    let sb := (sa.setRegion (some p) r).setThread t { s₂.threads t with userStack := 0 }
    have hprocesses : sb.processes = Function.update s₂.processes p { s₂.processes p with
        pagingData := r.pagingData, vaSpace := r.vaSpace } := rfl
    have hthread : sb.threads t = { s₂.threads t with userStack := 0 } := threads_setThread _ _ _
    have hd' : Destroyable sb t p := by
      refine ⟨⟨?_, ?_, ?_, ?_⟩, ?_, ?_⟩
      · rw [hthread]
        exact hd.process
      · rw [hprocesses, Function.update_self]
        exact hd.listed
      · rw [hprocesses, Function.update_self]
        exact hd.counted
      · rw [hprocesses, Function.update_self]
        exact hd.referenced
      · rw [hthread]
        exact hd.named
      · rw [hthread]
        exact hd.freed
    have hk' : KernelStack sb t i := by
      refine ⟨hk.sound, hk.apart, hk.used, hk.releasable, ?_, hk.small.fewer hfewer⟩
      rw [hthread]
      exact hk.inside
    obtain ⟨s₃, hdestroy, hreleased, hothers⟩ := threadDestroy_of halive huser hd' hk'
    have hregion : ∀ q, (sb.region q).vaSpace = ((sa.setRegion (some p) r).region q).vaSpace :=
      fun q => congrArg RegionState.vaSpace (region_setThread _ q t _)
    refine ⟨s₃, hdestroy, fun q => ?_⟩
    by_cases hq : q = none
    · rw [hq]
      exact returned_of_released hr hreleased
    · rw [hothers q hq, hregion q]
      by_cases hp : q = some p
      · rw [hp, region_setRegion]
        exact returned_of_released hr' hreleased'
      · exact returned_of_same (hc.others q hq fun heq => absurd heq hp)
          ((vaSpace_setRegion hp).trans (by cases q <;> rfl))

/-- A stack that was returned was found by an address in it. -/
private theorem Returned.inBuffer {v v₁ v₂ v₃ : VmmReservationSpace} {i j : ℕ} {a x : QWORD}
    (hret : Returned v v₁ v₂ v₃) (hr : Reserved v v₁ i a 0xA000) (hslots : v₂.slots i = v₁.slots i)
    (hj : Released v₂ v₃ j) (hx : v₂.Contains x 1 j) (haligned : x.toNat % 8 = 0) :
    InBuffer a 0xA000 x ∧ a.toNat + 0xA000 < 2 ^ 64 := by
  obtain rfl := hret.slot hr hj
  have hcheck := hx.2
  rw [hslots, hr.startVa, hr.size] at hcheck
  exact inBuffer_of_checkBounds hcheck (by have := x.isLt; omega)

/-- A slot that was filled and is in use has to be released. -/
private theorem Returned.ne {v v₁ v₂ : VmmReservationSpace} {i : ℕ} {a n : QWORD}
    (hret : Returned v v₁ v₂ v₂) (hr : Reserved v v₁ i a n) : ¬ v₂.Used i := by
  have hzero := (hret i).1 ((filled_iff hr).mpr rfl)
  unfold VmmReservationSpace.Used
  rw [hzero]
  simp [Vmm.VmmReservation.zero]

theorem threadFreeUserStack_ok {s' : ThreadSystem} (hprocess : (s.threads t).process = some p)
    (hsound : (s.threads t).userStack ≠ 0 → MetadataSound (s.region (some p)).vaSpace)
    (h : threadFreeUserStack env s t = .ok s') :
    (s'.region none).vaSpace = (s.region none).vaSpace ∧
      (s'.threads t).stack = (s.threads t).stack ∧
      ((s.threads t).userStack ≠ 0 → ∃ j,
        Released (s.region (some p)).vaSpace (s'.region (some p)).vaSpace j ∧
          (s.region (some p)).vaSpace.Contains (s.threads t).userStack 1 j) := by
  unfold threadFreeUserStack at h
  split_ifs at h with huser
  · cases h
    exact ⟨rfl, rfl, fun hne => absurd huser hne⟩
  · obtain ⟨s₁, hfree, h⟩ := bind_eq_ok.mp h
    cases h
    rw [hprocess] at hfree
    obtain ⟨r, j, rfl, hreleased, hcontains⟩ := mmuFreeStack_ok (hsound huser) hfree
    refine ⟨?_, ?_, fun _ => ⟨j, ?_, hcontains⟩⟩
    · rw [region_setThread, vaSpace_setRegion (by simp)]
    · rw [threads_setThread, threads_setRegion]
    · rw [region_setThread, region_setRegion]
      exact hreleased

theorem threadFreeKernelStack_ok {s' : ThreadSystem} (hsound : MetadataSound (s.region none).vaSpace)
    (h : threadFreeKernelStack env s t = .ok s') :
    (∀ q, q ≠ none → (s'.region q).vaSpace = (s.region q).vaSpace) ∧
      (s' = s ∨ ∃ j, Released (s.region none).vaSpace (s'.region none).vaSpace j ∧
        (s.region none).vaSpace.Contains (s.threads t).stack 1 j) := by
  unfold threadFreeKernelStack at h
  split_ifs at h
  · cases h
    exact ⟨fun _ _ => rfl, Or.inl rfl⟩
  · obtain ⟨s₁, hfree, h⟩ := bind_eq_ok.mp h
    cases h
    obtain ⟨r, j, rfl, hreleased, hcontains⟩ := mmuFreeStack_ok hsound hfree
    refine ⟨fun q hq => ?_, Or.inr ⟨j, ?_, hcontains⟩⟩
    · rw [region_setThread, vaSpace_setRegion hq]
    · rw [region_setThread, region_setRegion]
      exact hreleased

/-- A user stack that was returned was found by an address in it, which the end of the stack is not. -/
private theorem userStack_returned {v₃ : VmmReservationSpace} {j : ℕ}
    (hc : Created s s₁ t p function) (hm : Meanwhile s s₁ s₂ t p)
    (hk : (s.processes p).pagingData.kernelSpace = false)
    (hret : Returned (s.region (some p)).vaSpace (s₁.region (some p)).vaSpace
      (s₂.region (some p)).vaSpace v₃)
    (hj : Released (s₂.region (some p)).vaSpace v₃ j)
    (hx : (s₂.region (some p)).vaSpace.Contains (s₂.threads t).userStack 1 j) :
    function ≠ (s.processes p).addressOfEntryPoint ∧ StackFits (s.processes p).vaSpace := by
  obtain ⟨huser, -, hsound, i, hr⟩ := hc.userStack hk
  obtain ⟨-, -, -, hslots⟩ := hm.kept hr hsound
  have hpointer := aligned_iff.mp hr.aligned
  rw [hm.userStack, huser] at hx
  have haligned : (userStackOf s p function).toNat % 8 = 0 := by
    unfold userStackOf shadowStackSize
    split_ifs <;> bv_omega
  obtain ⟨hin, hfits⟩ := hret.inBuffer hr hslots hj hx haligned
  refine ⟨fun hentry => ?_, hfits⟩
  rw [userStackOf, if_pos hentry] at hin
  have hhigh := hin.2
  rw [BitVec.toNat_add, show (0xA000 : QWORD).toNat = 0xA000 from rfl, Nat.mod_eq_of_lt hfits] at hhigh
  exact absurd hhigh (Nat.lt_irrefl _)

theorem releases_of_stacksReturned {s₃ : ThreadSystem} (hc : Created s s₁ t p function)
    (hm : Meanwhile s s₁ s₂ t p) (hprocess : (s₂.threads t).process = some p)
    (h : threadDestroy env s₂ t = .ok s₃) (hret : StacksReturned s s₁ s₂ s₃) :
    ReleasesItsStacks s p function := by
  obtain ⟨l, sa, sb, sc, huser, hregion, hstack, hkernel, hlast⟩ := threadDestroy_ok h
  have hsound : (s₂.threads t).userStack ≠ 0 → MetadataSound (s₂.region (some p)).vaSpace := by
    intro hne
    by_cases hk : (s.processes p).pagingData.kernelSpace = true
    · exact absurd (hm.userStack.trans (hc.noUserStack hk)) hne
    · obtain ⟨-, -, hsound, i, hr⟩ := hc.userStack (eq_false_of_ne_true hk)
      exact (hm.kept hr hsound).1
  obtain ⟨hnone, hstack', hreleased⟩ := @threadFreeUserStack_ok env
    { s₂ with allThreadsList := l } t p sa hprocess hsound huser
  have hnone : (sb.region none).vaSpace = (s₂.region none).vaSpace :=
    (congrArg RegionState.vaSpace (hregion none)).trans hnone
  obtain ⟨i, hr⟩ := hc.kernelReserved
  obtain ⟨hsound₂, -, hused, hslots⟩ := hm.kept hr hc.kernelSound
  obtain ⟨hothers, hfreed⟩ := threadFreeKernelStack_ok (by rw [hnone]; exact hsound₂) hkernel
  constructor
  · have hretNone := hret none
    rw [hlast] at hretNone
    rcases hfreed with rfl | ⟨j, hj, hcontains⟩
    · rw [hnone] at hretNone
      exact absurd hused (hretNone.ne hr)
    · rw [hnone, hstack, hstack'] at hcontains
      rw [hnone] at hj
      exact (hretNone.inBuffer hr hslots hj hcontains hm.stackAligned).2
  · by_cases hk : (s.processes p).pagingData.kernelSpace = true
    · exact Or.inl hk
    · have hk := eq_false_of_ne_true hk
      have hne : (s₂.threads t).userStack ≠ 0 := by
        rw [hm.userStack, (hc.userStack hk).1]
        exact (hc.userStack hk).2.1
      obtain ⟨j, hj, hcontains⟩ := hreleased hne
      have hretUser := hret (some p)
      rw [hlast, hothers (some p) (by simp), hregion] at hretUser
      exact Or.inr (userStack_returned hc hm hk hretUser hj hcontains)

/-- The destruction of a thread releases exactly the reservations of its stacks if and only if they do
not run over the end of the address space and no user stack is looked up by its exclusive end. -/
theorem stacksReturned_iff {req : CreateRequest} (hp : req.process = some p)
    (hkernel : MetadataSound s.vaSpace) (huser : MetadataSound (s.processes p).vaSpace)
    (hcreate : threadCreateEx env s req = .ok (.success, some t, s₁)) (hm : Meanwhile s s₁ s₂ t p)
    (halive : t ∈ s₂.allThreadsList) (hd : Destroyable s₂ t p) :
    (∃ s₃, threadDestroy env s₂ t = .ok s₃ ∧ StacksReturned s s₁ s₂ s₃) ↔
      ReleasesItsStacks s p req.function := by
  have hc := threadCreateEx_ok hp hcreate hkernel huser
  constructor
  · rintro ⟨s₃, hdestroy, hret⟩
    exact releases_of_stacksReturned hc hm hd.process hdestroy hret
  · exact stacksReturned_of hc hm halive hd

end Lifetime

/-- The first thread of a process takes the reservation behind its user stack along, or an `ASSERT` fires
because there is none. -/
theorem neighbour_released :
    (∃ t s₁ s₂ s₃, threadCreateEx freshEnv freshSystem (threadAt 0x400000) = .ok (.success, some t, s₁) ∧
      reserveRegion freshEnv s₁ 0x30000 0 0x2000 = .ok ((s₁.threads t).userStack, s₂) ∧
      threadDestroy freshEnv s₂ t = .ok s₃ ∧ ¬ StacksReturned freshSystem s₁ s₂ s₃ ∧
      (s₃.processes 0x30000).vaSpace.Used 0 ∧ (s₂.processes 0x30000).vaSpace.Used 1 ∧
      ¬ (s₃.processes 0x30000).vaSpace.Used 1) ∧
    ∃ t s₁, threadCreateEx freshEnv freshSystem (threadAt 0x400000) = .ok (.success, some t, s₁) ∧
      threadDestroy freshEnv s₁ t = .error .assertFailed := by
  constructor
  · refine ⟨_, _, _, _, rfl, rfl, rfl, fun hret => ?_, rfl, rfl, by intro h; cases h⟩
    have h0 := (hret (some 0x30000) 0).1 ⟨(fun h => by cases h), rfl⟩
    cases congrArg (fun r => r.state) h0
  · exact ⟨_, _, rfl, rfl⟩

private theorem kernelSpace_initialised :
    Vmm.Initialised 0xFFFF840000000000 0 0x140000000 kernelSpace :=
  ⟨fun _ => 0, _, rfl, rfl⟩

private theorem sound_of_initialised {metadata base : QWORD} {v : VmmReservationSpace}
    (h : Vmm.Initialised metadata base 0x140000000 v)
    (htop : metadata.toNat + 0x140000000 + 2 ^ 29 < 2 ^ 64) : MetadataSound v := by
  have harea : Vmm.MetadataArea metadata 0x140000000 262144 := ⟨by decide, by decide, htop⟩
  exact ⟨_, _, _, 0, harea, Vmm.metadataInv_of_initialised h harea⟩

private theorem unused_of_initialised {metadata base size : QWORD} {v : VmmReservationSpace}
    (h : Vmm.Initialised metadata base size v) (i : ℕ) : ¬ v.Used i :=
  fun hu => absurd (h.marker.lt_of_used hu) (Nat.not_lt_zero i)

/-- The first reservation of a space lies apart from all others. -/
private theorem undisturbed_of_first {v v₁ : VmmReservationSpace} {i : ℕ} {a n : QWORD}
    (hnone : ∀ j, ¬ v.Used j) (hr : Reserved v v₁ i a n) : Undisturbed i v₁ v₁ := by
  refine ⟨[], .nil, by simp, ?_, (hr.used i).mpr (Or.inl rfl)⟩
  intro j k hjk hj hk
  have hj := ((hr.used j).mp hj).resolve_right (hnone j)
  have hk := ((hr.used k).mp hk).resolve_right (hnone k)
  exact absurd (hj.trans hk.symm) hjk

/-- Both stacks of a thread that a process starts behind its entry point are given back. -/
theorem secondThread_stacksReturned :
    ∃ t s₁ s₂, threadCreateEx freshEnv freshSystem (threadAt 0x401000) = .ok (.success, some t, s₁) ∧
      threadDestroy freshEnv s₁ t = .ok s₂ ∧ StacksReturned freshSystem s₁ s₁ s₂ := by
  have hcall : ∃ t s₁, threadCreateEx freshEnv freshSystem (threadAt 0x401000) =
      .ok (.success, some t, s₁) ∧ s₁.mem = emptyMemory ∧ t ∈ s₁.allThreadsList ∧
      Destroyable s₁ t 0x30000 ∧ (s₁.threads t).stack.toNat % 8 = 0 ∧
      0 < ((s₁.threads t).initialStackBase - (s₁.threads t).stack).toNat ∧
      ((s₁.threads t).initialStackBase - (s₁.threads t).stack).toNat ≤
        (s₁.threads t).stackSize.toNat :=
    ⟨_, _, rfl, rfl, List.mem_singleton.mpr rfl,
      ⟨⟨rfl, List.mem_singleton.mpr rfl, by decide, by decide⟩, by decide, _, _, rfl, rfl⟩,
      by decide, by decide, by decide⟩
  obtain ⟨t, s₁, hcreate, hmem, halive, hd, haligned, hbelow, habove⟩ := hcall
  have hkernel : MetadataSound freshSystem.vaSpace :=
    sound_of_initialised kernelSpace_initialised (by decide)
  have huser : MetadataSound (freshSystem.processes 0x30000).vaSpace :=
    sound_of_initialised Vmm.processSpace_initialised (by decide)
  have hc := threadCreateEx_ok rfl hcreate hkernel huser
  obtain ⟨-, -, -, i, hr⟩ := hc.userStack rfl
  obtain ⟨j, hr'⟩ := hc.kernelReserved
  have hsmall : ∀ root, SmallPages s₁.mem root := by
    rw [hmem]
    exact fun _ _ _ _ _ _ hp => (by cases hp)
  have hm : Meanwhile freshSystem s₁ s₁ t 0x30000 := by
    refine ⟨fun q k hk => ?_, ⟨hsmall _, hsmall _⟩, rfl, hbelow, habove, haligned⟩
    by_cases hq : q = none
    · subst hq
      exact undisturbed_of_first (unused_of_initialised kernelSpace_initialised)
        ((filled_iff hr').mp hk ▸ hr')
    by_cases hp : q = some 0x30000
    · subst hp
      exact undisturbed_of_first (unused_of_initialised Vmm.processSpace_initialised)
        ((filled_iff hr).mp hk ▸ hr)
    · have hsame := hc.others q hq fun heq => absurd heq hp
      rw [hsame] at hk
      exact absurd hk.2 hk.1
  obtain ⟨s₂, hdestroy, hret⟩ := (stacksReturned_iff rfl hkernel huser hcreate hm halive hd).mpr
    ⟨by decide, Or.inr ⟨by decide, by decide⟩⟩
  exact ⟨t, s₁, s₂, hcreate, hdestroy, hret⟩

end HAL9000.Creation
