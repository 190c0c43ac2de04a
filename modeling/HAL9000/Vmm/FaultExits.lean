import HAL9000.Mmu.Pmm
import HAL9000.Vmm.PageFault
import HAL9000.Vmm.PageMapping

/-! The ways out of `VmmSolvePageFault`, with the page tables and the allocation bitmap of the frames
it works on. -/
namespace HAL9000.Paging

open RadixTree Vmm Pmm

def mmuMapMemoryInternal (vmmData : VmmData) (mem : PhysMemory) (pagingData : PagingData)
    (physicalAddress size : QWORD) (pageRights : DWORD) (virtualAddress : QWORD)
    (invalidate uncacheable : Bool) : Except Fault (PhysMemory × PagingData) := do
  assertThat (size ≠ 0)
  assertThat (isAddressAligned size pageSize = true)
  assertThat (virtualAddress ≠ 0)
  assertThat (isAddressAligned virtualAddress pageSize = true)
  vmmMapMemoryInternal vmmData mem pagingData physicalAddress size virtualAddress pageRights
    invalidate uncacheable

/-- The paging structures, the allocation bitmap of the frames, and what the frames hold. -/
structure FrameState where
  mem : PhysMemory
  pagingData : PagingData
  frames : Memory
  contents : QWORD → ℕ → BYTE

/-- The bytes read from the file come first, the rest of the page is zeroed. -/
def FrameState.fillPage (s : FrameState) (pa : QWORD) (bytes : List BYTE) : FrameState :=
  { s with contents := Function.update s.contents pa fun o => (bytes[o]?).getD 0 }

/-- What does not change while faults are solved: the attributes of memory, the bitmap's place, the
reservations of the address space, and what is read from a file at an offset, `none` if the read
fails. -/
structure FaultEnv where
  vmmData : VmmData
  allocationBitmap : Bitmap
  vaSpace : VmmReservationSpace
  ioReadFile : QWORD → QWORD → Option (List BYTE)

/-- The access check for the paging data at hand. -/
def FaultEnv.check (env : FaultEnv) (s : FrameState) (vmmMemoryAccess : Bool)
    (faultingAddress : QWORD) (rightsRequested : DWORD) : Except Fault (Option PageDescription) :=
  FaultContext.canBeSolved ⟨env.vaSpace, s.pagingData.kernelSpace, env.ioReadFile⟩ vmmMemoryAccess
    faultingAddress rightsRequested

/-- Reserves a frame and maps the page to it; returns the frame. -/
def FaultEnv.mapFrame (env : FaultEnv) (s : FrameState) (faultingAddress : QWORD)
    (page : PageDescription) : Except Fault (QWORD × FrameState) := do
  let (pa, frames) ← pmmReserveMemoryEx s.frames env.allocationBitmap 1 0
  assertThat (pa ≠ 0)
  let (mem, pagingData) ← mmuMapMemoryInternal env.vmmData s.mem s.pagingData pa pageSize
    page.pageRights (alignAddressLower faultingAddress pageSize) true page.uncacheable
  return (pa, { s with mem := mem, pagingData := pagingData, frames := frames })

def vmmSolvePageFault (env : FaultEnv) (s : FrameState) (vmmMemoryAccess : Bool)
    (faultingAddress : QWORD) (rightsRequested : DWORD) : Except Fault (Bool × FrameState) := do
  match ← env.check s vmmMemoryAccess faultingAddress rightsRequested with
  | none => return (false, s)
  | some page =>
    let (pa, s) ← env.mapFrame s faultingAddress page
    if page.backingFile ≠ 0 then
      match env.ioReadFile page.backingFile page.fileOffset with
      | none => return (false, s)
      | some bytes =>
        assertThat (bytes.length ≤ 4096)
        return (true, s.fillPage pa bytes)
    else return (true, s.fillPage pa [])

/-- The same page tables, and the same frames are reserved. -/
def SameFrames (b : Bitmap) (s s' : FrameState) : Prop :=
  s'.mem = s.mem ∧
    ∀ i < b.bitCount.toNat, bitAt s'.frames b.bitmapBuffer i = bitAt s.frames b.bitmapBuffer i

/-- The page may be accessed and is backed by a file that cannot be read at the page's offset. -/
def ReadFails (env : FaultEnv) (s : FrameState) (vmmMemoryAccess : Bool) (faultingAddress : QWORD)
    (rightsRequested : DWORD) (page : PageDescription) : Prop :=
  env.check s vmmMemoryAccess faultingAddress rightsRequested = .ok (some page) ∧
    page.backingFile ≠ 0 ∧ env.ioReadFile page.backingFile page.fileOffset = none

section Exits

variable {env : FaultEnv} {s s' : FrameState} {vmmMemoryAccess : Bool} {faultingAddress : QWORD}
  {rightsRequested : DWORD}

/-- `FALSE` is returned before a frame is reserved, or after the page has been mapped to one. -/
private theorem vmmSolvePageFault_false
    (h : vmmSolvePageFault env s vmmMemoryAccess faultingAddress rightsRequested = .ok (false, s')) :
    s' = s ∨ ∃ page pa, ReadFails env s vmmMemoryAccess faultingAddress rightsRequested page ∧
      env.mapFrame s faultingAddress page = .ok (pa, s') := by
  obtain ⟨check, hcheck, h⟩ := bind_eq_ok.mp h
  cases check with
  | none =>
    cases h
    exact Or.inl rfl
  | some page =>
    obtain ⟨⟨pa, s₁⟩, hmap, h⟩ := bind_eq_ok.mp h
    dsimp only at h
    split_ifs at h with hfile
    · cases hread : env.ioReadFile page.backingFile page.fileOffset with
      | none =>
        simp only [hread] at h
        cases h
        exact Or.inr ⟨page, pa, ⟨hcheck, hfile, hread⟩, hmap⟩
      | some bytes =>
        simp only [hread] at h
        obtain ⟨_, _, h⟩ := bind_eq_ok.mp h
        cases h
    · cases h

private theorem vmmSolvePageFault_of_readFails {page : PageDescription} {pa : QWORD}
    (h : ReadFails env s vmmMemoryAccess faultingAddress rightsRequested page)
    (hmap : env.mapFrame s faultingAddress page = .ok (pa, s')) :
    vmmSolvePageFault env s vmmMemoryAccess faultingAddress rightsRequested = .ok (false, s') := by
  obtain ⟨hcheck, hfile, hread⟩ := h
  simp only [vmmSolvePageFault, hcheck, hmap, bind, Except.bind, if_pos hfile, hread]
  rfl

private theorem mapFrame_of_returns {page : PageDescription} {r : Bool × FrameState}
    (hcheck : env.check s vmmMemoryAccess faultingAddress rightsRequested = .ok (some page))
    (h : vmmSolvePageFault env s vmmMemoryAccess faultingAddress rightsRequested = .ok r) :
    ∃ x, env.mapFrame s faultingAddress page = .ok x := by
  obtain ⟨check, hcheck', h⟩ := bind_eq_ok.mp h
  rw [hcheck] at hcheck'
  cases hcheck'
  obtain ⟨x, hmap, -⟩ := bind_eq_ok.mp h
  exact ⟨x, hmap⟩

/-- The frame that the page is mapped to was free and is reserved. -/
private theorem mapFrame_reserves {page : PageDescription} {pa : QWORD}
    (h : env.mapFrame s faultingAddress page = .ok (pa, s')) :
    ∃ i < env.allocationBitmap.bitCount.toNat,
      bitAt s.frames env.allocationBitmap.bitmapBuffer i = false ∧
      bitAt s'.frames env.allocationBitmap.bitmapBuffer i = true := by
  obtain ⟨⟨pa', frames⟩, hreserve, h⟩ := bind_eq_ok.mp h
  obtain ⟨_, hne, h⟩ := bind_eq_ok.mp h
  obtain ⟨r, _, h⟩ := bind_eq_ok.mp h
  cases h
  obtain ⟨-, i, -, hfree, hbits⟩ := pmmReserveMemoryEx_granted hreserve (assertThat_eq_ok.mp hne)
  have hfits := hfree.1
  have hone : (1 : DWORD).toNat = 1 := rfl
  rw [hone] at hfits hbits
  refine ⟨i, by omega, hfree.2 0 (by rw [hone]; exact Nat.one_pos), ?_⟩
  exact (hbits _ _ (Nat.mod_lt i (by norm_num))).1 ⟨i, Nat.le_refl i, by omega, rfl, rfl⟩

end Exits

/-- A call that returns leaves page tables and frames alone, unless it solves the fault, exactly if
there is no page at hand whose file cannot be read. -/
theorem sameFrames_of_unsolved_iff {env : FaultEnv} {s s' : FrameState} {vmmMemoryAccess : Bool}
    {faultingAddress : QWORD} {rightsRequested : DWORD} {solved : Bool}
    (h : vmmSolvePageFault env s vmmMemoryAccess faultingAddress rightsRequested =
      .ok (solved, s')) :
    (solved = false → SameFrames env.allocationBitmap s s') ↔
      ∀ page, ¬ ReadFails env s vmmMemoryAccess faultingAddress rightsRequested page := by
  constructor
  · intro hkeeps page hfails
    obtain ⟨⟨pa, s₁⟩, hmap⟩ := mapFrame_of_returns hfails.1 h
    rw [vmmSolvePageFault_of_readFails hfails hmap] at h
    cases h
    obtain ⟨-, hsame⟩ := hkeeps rfl
    obtain ⟨i, hi, hfree, hreserved⟩ := mapFrame_reserves hmap
    have := hsame i hi
    rw [hfree, hreserved] at this
    cases this
  · intro hnot hfalse
    subst hfalse
    rcases vmmSolvePageFault_false h with rfl | ⟨page, pa, hfails, -⟩
    · exact ⟨rfl, fun _ _ => rfl⟩
    · exact absurd hfails (hnot page)

/-- A page reserved and committed for the file `0x7000`. -/
def fileBacked : List (VmmReservationSpace × Call) × VmmReservationSpace :=
  (runProcess [.alloc ⟨0x140000000, 0x1000, vmmAllocTypeReserve ||| vmmAllocTypeCommit,
    ⟨1, false, 0x7000⟩⟩]).get (by decide)

/-- Reads always fail. -/
def unreadable : FaultEnv := ⟨⟨0, 0⟩, eightFrames, fileBacked.2, fun _ _ => none⟩

/-- Nothing is mapped yet, and frame 1 is the first free one. -/
def freshProcess : FrameState :=
  ⟨emptyMemory, { smallPool with kernelSpace := false }, twoReserved, fun _ _ => 0xCC⟩

private theorem freshProcess_inv : PagingInv freshProcess.mem freshProcess.pagingData := by
  apply pagingInv_of_emptyRoot
  · constructor <;> decide
  · exact fun _ => rfl

private theorem reserves_frameOne : ∃ frames,
    pmmReserveMemoryEx twoReserved eightFrames 1 0 = .ok (0x1000, frames) ∧
      bitAt frames eightFrames.bitmapBuffer 1 = true :=
  ⟨_, rfl, by decide⟩

private theorem mapFrame_freshProcess : ∃ s',
    unreadable.mapFrame freshProcess 0x140000010 ⟨1, false, 0x7000, 0⟩ = .ok (0x1000, s') ∧
      bitAt s'.frames eightFrames.bitmapBuffer 1 = true ∧
      translate s'.mem freshProcess.pagingData.root 0x140000000 = some 0x1000 := by
  obtain ⟨frames, hreserve, hbit⟩ := reserves_frameOne
  have hr : PageRange 0x140000000 pageSize := by constructor <;> decide
  have hspec := @vmmMapMemoryInternal_spec _ _ _ _ ⟨0, 0⟩ freshProcess_inv hr
    (by decide) 0x1000 (by decide) 1 true false
  rcases hspec with ⟨mem, m, -, hok, -, hlook⟩ | ⟨-, hfew⟩
  swap
  · exact absurd hfew (by decide)
  refine ⟨⟨mem, freshProcess.pagingData.take m, frames, freshProcess.contents⟩, ?_, hbit, ?_⟩
  · have hmap : mmuMapMemoryInternal ⟨0, 0⟩ freshProcess.mem freshProcess.pagingData 0x1000 pageSize 1
        0x140000000 true false = .ok (mem, freshProcess.pagingData.take m) := hok
    have haddr : alignAddressLower 0x140000010 pageSize = 0x140000000 := by decide
    simp only [FaultEnv.mapFrame, unreadable, haddr]
    simp only [freshProcess] at hmap ⊢
    simp only [hreserve, bind, Except.bind, hmap]
    rfl
  · show translate mem freshProcess.pagingData.root 0x140000000 = some 0x1000
    rw [translate, hlook, if_pos (by decide)]
    decide

/-- The page stays mapped to frame 1, which stays reserved. -/
theorem readFails_keeps_frame : ∃ s',
    vmmSolvePageFault unreadable freshProcess false 0x140000010 1 = .ok (false, s') ∧
      bitAt freshProcess.frames eightFrames.bitmapBuffer 1 = false ∧
      bitAt s'.frames eightFrames.bitmapBuffer 1 = true ∧
      translate freshProcess.mem freshProcess.pagingData.root 0x140000000 = none ∧
      translate s'.mem freshProcess.pagingData.root 0x140000000 = some 0x1000 ∧
      ¬ SameFrames eightFrames freshProcess s' := by
  obtain ⟨s', hmap, hbit, htrans⟩ := mapFrame_freshProcess
  have hfails : ReadFails unreadable freshProcess false 0x140000010 1 ⟨1, false, 0x7000, 0⟩ :=
    ⟨by decide, by decide, rfl⟩
  have hfree : bitAt freshProcess.frames eightFrames.bitmapBuffer 1 = false := by decide
  refine ⟨s', vmmSolvePageFault_of_readFails hfails hmap, hfree, hbit, by decide, htrans,
    fun hsame => ?_⟩
  have := hsame.2 1 (by decide)
  rw [hfree, hbit] at this
  cases this

/-- A write to a page that may only be read is refused before a frame is reserved. -/
theorem writeFault_sameFrames :
    vmmSolvePageFault unreadable freshProcess false 0x140000010 2 = .ok (false, freshProcess) ∧ SameFrames eightFrames freshProcess freshProcess := by
  have h : vmmSolvePageFault unreadable freshProcess false 0x140000010 2 = .ok (false, freshProcess) := rfl
  have hcheck : unreadable.check freshProcess false 0x140000010 2 = .ok none := rfl
  have hread : ∀ page, ¬ ReadFails unreadable freshProcess false 0x140000010 2 page :=
    fun page hfails => nomatch hcheck.symm.trans hfails.1
  exact ⟨h, (sameFrames_of_unsolved_iff h).mpr hread rfl⟩

end HAL9000.Paging
