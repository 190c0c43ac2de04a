import Mathlib.Data.List.Nodup
import HAL9000.Vmm.BufferSound

/-! Page faults on one lazily committed page, `VmmSolvePageFault` in `vmm.c`, taken by any
number of processors. The access check, the reservation of a frame, the mapping, the read from
the backing file and the zeroing are steps of their own. -/
namespace HAL9000.Vmm

open Run

def pageRightsExecute : DWORD := 2
def pageRightsReadwrite : DWORD := 1

/-- What `VmReservationCanAddressBeAccessed` says about a page. -/
structure PageDescription where
  pageRights : DWORD
  uncacheable : Bool
  backingFile : QWORD
  fileOffset : QWORD
  deriving DecidableEq, Repr

/-- `none` is `FALSE`. The metadata of the space may be accessed by the processors that work
on it. -/
def vmReservationCanAddressBeAccessed (s : VmmReservationSpace) (vmmMemoryAccess : Bool)
    (faultingAddress : QWORD) (rightsRequested : DWORD) :
    Except Fault (Option PageDescription) :=
  if faultingAddress = 0 then .ok none
  else if checkBounds faultingAddress 1 s.reservationList s.reservedAreaSize then
    if vmmMemoryAccess && !isBooleanFlagOn rightsRequested pageRightsExecute then
      .ok (some ⟨pageRightsReadwrite, false, 0, 0⟩)
    else .ok none
  else do
    match ← vmFindReservation s faultingAddress 1 with
    | none => .ok none
    | some i =>
      let r := s.slots i
      let isVaCommited ← vmIsVaCommited s r faultingAddress
      let fileOffset :=
        if r.backingFile ≠ 0 then alignAddressLower (faultingAddress - r.startVa) pageSize else 0
      if isVaCommited && isBooleanFlagOn r.pageRights rightsRequested then
        .ok (some ⟨r.pageRights, r.uncacheable, r.backingFile, fileOffset⟩)
      else .ok none

/-- The address space in which the faults happen, and what `IoReadFile` reads from a file at an
offset, `none` if it fails. -/
structure FaultContext where
  vaSpace : VmmReservationSpace
  kernelSpace : Bool
  ioReadFile : QWORD → QWORD → Option (List BYTE)

/-- The checks of `VmmSolvePageFault` before it reserves a frame; `none` returns `FALSE`. -/
def FaultContext.canBeSolved (ctx : FaultContext) (vmmMemoryAccess : Bool)
    (faultingAddress : QWORD) (rightsRequested : DWORD) : Except Fault (Option PageDescription) :=
  if alignAddressLower faultingAddress pageSize = 0 then .ok none
  else if vmIsKernelAddress faultingAddress != ctx.kernelSpace then .ok none
  else vmReservationCanAddressBeAccessed ctx.vaSpace vmmMemoryAccess faultingAddress
    rightsRequested

structure Pte where
  physicalAddress : QWORD
  pageRights : DWORD
  uncacheable : Bool
  deriving DecidableEq, Repr

/-- `_VmMapPage` at the last level: a present entry is replaced if the caller invalidates. -/
def vmMapPage (pte : Option Pte) (invalidate : Bool) (new : Pte) : Option Pte :=
  if pte.isSome && !invalidate then pte else some new

/-- Where a processor stands in `VmmSolvePageFault`. The three last places are those of a call
that has returned: `FALSE` without a frame, `FALSE` because the file could not be read, and
`TRUE`. -/
inductive FaultPc
  | idle
  | checkAccess (vmmMemoryAccess : Bool) (faultingAddress : QWORD) (rightsRequested : DWORD)
  | reserve (page : PageDescription)
  | map (page : PageDescription) (pa : QWORD)
  | read (page : PageDescription)
  | zero (bytesReadFromFile : ℕ)
  | rejected
  | failed
  | solved
  deriving DecidableEq, Repr

/-- The page's entry in the page table, the free frames and the contents of all frames. The run
also records which frames the calls reserved, the translation under which the first of them
returned `TRUE`, and what was stored through it. -/
structure FaultState where
  pte : Option Pte
  freeFrames : List QWORD
  memory : QWORD → ℕ → BYTE
  pc : Tid → FaultPc
  reserved : List QWORD
  settled : Option Pte
  stored : ℕ → Option BYTE

/-- Writes bytes of the page from `offset` on through its translation. -/
def writePage (s : FaultState) (offset : ℕ) (bytes : List BYTE) : QWORD → ℕ → BYTE :=
  match s.pte with
  | none => s.memory
  | some pte => Function.update s.memory pte.physicalAddress fun o =>
    if offset ≤ o then (bytes[o - offset]?).getD (s.memory pte.physicalAddress o)
    else s.memory pte.physicalAddress o

def FaultState.setPc (s : FaultState) (c : Tid) (p : FaultPc) : FaultState :=
  { s with pc := Function.update s.pc c p }

/-- One step of `VmmSolvePageFault` on processor `c`. A step whose `ASSERT` fails is not taken. -/
def faultStep (ctx : FaultContext) (s : FaultState) (c : Tid) : Option FaultState :=
  match s.pc c with
  | .idle | .rejected | .failed | .solved => none
  | .checkAccess vmmMemoryAccess faultingAddress rightsRequested =>
    match ctx.canBeSolved vmmMemoryAccess faultingAddress rightsRequested with
    | .error _ => none
    | .ok none => some (s.setPc c .rejected)
    | .ok (some page) => some (s.setPc c (.reserve page))
  | .reserve page =>
    match s.freeFrames with
    | [] => none
    | pa :: rest =>
      some ({ s with freeFrames := rest, reserved := pa :: s.reserved }.setPc c (.map page pa))
  | .map page pa =>
    some ({ s with pte := vmMapPage s.pte true ⟨pa, page.pageRights, page.uncacheable⟩ }.setPc c
      (if page.backingFile ≠ 0 then .read page else .zero 0))
  | .read page =>
    match ctx.ioReadFile page.backingFile page.fileOffset with
    | none => some (s.setPc c .failed)
    | some bytes =>
      if bytes.length ≤ 4096 then
        some ({ s with memory := writePage s 0 bytes }.setPc c (.zero bytes.length))
      else none
  | .zero bytesReadFromFile =>
    some ({ s with
      memory := writePage s bytesReadFromFile (List.replicate (4096 - bytesReadFromFile) 0)
      settled := s.settled.or s.pte }.setPc c .solved)

/-- `store` is a write to the page after some call has returned `TRUE`. -/
inductive FaultAction
  | fault (c : Tid) (vmmMemoryAccess : Bool) (faultingAddress : QWORD) (rightsRequested : DWORD)
  | step (c : Tid)
  | store (offset : ℕ) (value : BYTE)
  deriving DecidableEq, Repr

/-- The faulting addresses all lie in `page`. -/
def nextFault (ctx : FaultContext) (page : QWORD) (s : FaultState) :
    FaultAction → Option FaultState
  | .fault c vmmMemoryAccess faultingAddress rightsRequested =>
    if s.pc c = .idle ∧ alignAddressLower faultingAddress pageSize = page then
      some (s.setPc c (.checkAccess vmmMemoryAccess faultingAddress rightsRequested))
    else none
  | .step c => faultStep ctx s c
  | .store offset value =>
    if s.settled.isSome ∧ offset < 4096 then
      some { s with memory := writePage s offset [value]
                    stored := Function.update s.stored offset (some value) }
    else none

/-- The page is committed and has no frame yet; the free frames are all different. -/
structure FaultStart (s : FaultState) : Prop where
  unmapped : s.pte = none
  idle : ∀ c, s.pc c = .idle
  frames : s.freeFrames.Nodup
  reserved : s.reserved = []
  settled : s.settled = none
  stored : ∀ o, s.stored o = none

def FaultPc.returned : FaultPc → Bool
  | .idle | .rejected | .failed | .solved => true
  | _ => false

/-- Every call has returned. -/
def FaultState.AllReturned (s : FaultState) : Prop := ∀ c, (s.pc c).returned = true

/-- The translation under which a call returned `TRUE` stays, what is stored through it can be
read back, and in the end one of the reserved frames is mapped and the others are free again. -/
structure FaultSafe (s : FaultState) : Prop where
  translation : ∀ pte, s.settled = some pte → s.pte = some pte
  stores : ∀ pte, s.pte = some pte → ∀ o v, s.stored o = some v →
    s.memory pte.physicalAddress o = v
  one_frame : s.AllReturned → s.reserved ≠ [] →
    ∃ pte, s.pte = some pte ∧ pte.physicalAddress ∈ s.reserved ∧
      ∀ pa ∈ s.reserved, pa ≠ pte.physicalAddress → pa ∈ s.freeFrames

def FaultPc.reserves : FaultPc → Bool
  | .reserve _ => true
  | _ => false

/-- A frame is only reserved if no call has reserved one for this page. -/
def ReservesOnce (s : FaultState) : FaultAction → Prop
  | .step c => (s.pc c).reserves = true → s.reserved = []
  | _ => True

instance (s : FaultState) : DecidablePred (ReservesOnce s)
  | .fault .. | .store .. => inferInstanceAs (Decidable True)
  | .step c => inferInstanceAs (Decidable ((s.pc c).reserves = true → s.reserved = []))

/-- The processor has reserved a frame. -/
def FaultPc.owns : FaultPc → Bool
  | .map .. | .read _ | .zero _ | .failed | .solved => true
  | _ => false

/-- No call has returned `TRUE`, and nothing was stored. -/
def FaultState.Untouched (s : FaultState) : Prop :=
  s.settled = none ∧ ∀ o, s.stored o = none

/-- The state of the page, by the place of the one processor that reserved frame `pa`. -/
inductive OwnerAt (s : FaultState) (pa : QWORD) : FaultPc → Prop
  | map (page : PageDescription) : s.pte = none → s.Untouched → OwnerAt s pa (.map page pa)
  | read {pte : Pte} (page : PageDescription) : s.pte = some pte → pte.physicalAddress = pa →
      s.Untouched → OwnerAt s pa (.read page)
  | zero {pte : Pte} (k : ℕ) : s.pte = some pte → pte.physicalAddress = pa → s.Untouched →
      OwnerAt s pa (.zero k)
  | failed {pte : Pte} : s.pte = some pte → pte.physicalAddress = pa → s.Untouched →
      OwnerAt s pa .failed
  | solved {pte : Pte} : s.pte = some pte → pte.physicalAddress = pa → s.settled = some pte →
      (∀ o v, s.stored o = some v → s.memory pa o = v) → OwnerAt s pa .solved

/-- Either no frame has been reserved, or one processor has reserved one. -/
def FaultInv (s : FaultState) : Prop :=
  (s.reserved = [] ∧ s.pte = none ∧ s.Untouched ∧ ∀ c, (s.pc c).owns = false) ∨
    ∃ c pa, s.reserved = [pa] ∧ (∀ d, d ≠ c → (s.pc d).owns = false) ∧ OwnerAt s pa (s.pc c)

theorem OwnerAt.owns {s : FaultState} {pa : QWORD} {p : FaultPc} (h : OwnerAt s pa p) :
    p.owns = true := by
  cases h <;> rfl

theorem FaultStart.inv {s : FaultState} (h : FaultStart s) : FaultInv s := by
  refine Or.inl ⟨h.reserved, h.unmapped, ⟨h.settled, h.stored⟩, ?_⟩
  intro c
  rw [h.idle c]
  rfl

section Steps

variable {ctx : FaultContext} {s s' : FaultState} {c : Tid}

/-- The description of the page does not read the places of the processors. -/
theorem OwnerAt.setPc {pa : QWORD} {p q : FaultPc} (h : OwnerAt s pa p) :
    OwnerAt (s.setPc c q) pa p := by
  cases h with
  | map page h₁ h₂ => exact .map page h₁ h₂
  | read page h₁ h₂ h₃ => exact .read page h₁ h₂ h₃
  | zero k h₁ h₂ h₃ => exact .zero k h₁ h₂ h₃
  | failed h₁ h₂ h₃ => exact .failed h₁ h₂ h₃
  | solved h₁ h₂ h₃ h₄ => exact .solved h₁ h₂ h₃ h₄

/-- A processor without a frame goes on without one. -/
theorem FaultInv.setPc (hi : FaultInv s) {q : FaultPc} (hp : (s.pc c).owns = false)
    (hq : q.owns = false) : FaultInv (s.setPc c q) := by
  have hrest : ∀ d, (s.pc d).owns = false → ((s.setPc c q).pc d).owns = false := by
    intro d hd
    by_cases hdc : d = c
    · subst hdc
      simpa [FaultState.setPc] using hq
    · simpa [FaultState.setPc, Function.update_of_ne hdc] using hd
  rcases hi with ⟨hr, hpte, hun, hnone⟩ | ⟨o, pa, hr, hnone, ho⟩
  · exact Or.inl ⟨hr, hpte, hun, fun d => hrest d (hnone d)⟩
  · refine Or.inr ⟨o, pa, hr, fun d hd => hrest d (hnone d hd), ?_⟩
    have hoc : o ≠ c := by
      intro hoc
      rw [← hoc, ho.owns] at hp
      cases hp
    have hpc : (s.setPc c q).pc o = s.pc o := Function.update_of_ne hoc ..
    rw [hpc]
    exact ho.setPc

/-- The processor that owns the frame. -/
theorem FaultInv.owner (hi : FaultInv s) (hp : (s.pc c).owns = true) :
    ∃ pa, s.reserved = [pa] ∧ (∀ d, d ≠ c → (s.pc d).owns = false) ∧ OwnerAt s pa (s.pc c) := by
  rcases hi with ⟨-, -, -, hnone⟩ | ⟨o, pa, hr, hnone, ho⟩
  · rw [hnone c] at hp
    cases hp
  · by_cases hco : c = o
    · subst hco
      exact ⟨pa, hr, hnone, ho⟩
    · rw [hnone c hco] at hp
      cases hp

/-- The owner of the frame moves to a place that describes the page as it is now. -/
theorem FaultInv.of_owner (pa : QWORD) {q : FaultPc} (hr : s.reserved = [pa])
    (hnone : ∀ d, d ≠ c → (s.pc d).owns = false) (ho : OwnerAt s pa q) :
    FaultInv (s.setPc c q) := by
  refine Or.inr ⟨c, pa, hr, ?_, ?_⟩
  · intro d hd
    simpa [FaultState.setPc, Function.update_of_ne hd] using hnone d hd
  · have hpc : (s.setPc c q).pc c = q := Function.update_self ..
    rw [hpc]
    exact ho.setPc

theorem faultStep_inv (hi : FaultInv s) (hq : ReservesOnce s (.step c))
    (h : faultStep ctx s c = some s') : FaultInv s' := by
  cases hpc : s.pc c with
  | idle | rejected | failed | solved => simp [faultStep, hpc] at h
  | checkAccess access address rights =>
    simp only [faultStep, hpc] at h
    split at h
    · cases h
    · cases h
      exact hi.setPc (by rw [hpc]; rfl) rfl
    · cases h
      exact hi.setPc (by rw [hpc]; rfl) rfl
  | reserve page =>
    have hempty := hq (by rw [hpc]; rfl)
    simp only [faultStep, hpc] at h
    cases hf : s.freeFrames with
    | nil => simp [hf] at h
    | cons pa rest =>
      simp only [hf] at h
      cases h
      rcases hi with ⟨-, hpte, hun, hnone⟩ | ⟨o, pa', hr, -, -⟩
      · apply FaultInv.of_owner pa
        · rw [hempty]
        · exact fun d _ => hnone d
        · exact .map page hpte hun
      · rw [hempty] at hr
        cases hr
  | map page pa =>
    obtain ⟨pa', hr, hnone, ho⟩ := hi.owner (c := c) (by rw [hpc]; rfl)
    rw [hpc] at ho
    cases ho with
    | map _ hpte hun =>
      simp only [faultStep, hpc] at h
      cases h
      have hmap : vmMapPage s.pte true ⟨pa, page.pageRights, page.uncacheable⟩ =
          some ⟨pa, page.pageRights, page.uncacheable⟩ := by simp [vmMapPage]
      apply FaultInv.of_owner pa
      · exact hr
      · exact hnone
      · split_ifs
        · exact .read page hmap rfl hun
        · exact .zero 0 hmap rfl hun
  | read page =>
    obtain ⟨pa, hr, hnone, ho⟩ := hi.owner (c := c) (by rw [hpc]; rfl)
    rw [hpc] at ho
    cases ho with
    | read _ hpte hpa hun =>
      simp only [faultStep, hpc] at h
      split at h
      · cases h
        exact FaultInv.of_owner pa hr hnone (.failed hpte hpa hun)
      · split_ifs at h with hlen
        cases h
        apply FaultInv.of_owner pa
        · exact hr
        · exact hnone
        · exact .zero _ hpte hpa hun
  | zero k =>
    obtain ⟨pa, hr, hnone, ho⟩ := hi.owner (c := c) (by rw [hpc]; rfl)
    rw [hpc] at ho
    cases ho with
    | zero _ hpte hpa hun =>
      simp only [faultStep, hpc] at h
      cases h
      apply FaultInv.of_owner pa
      · exact hr
      · exact hnone
      · refine .solved hpte hpa ?_ ?_
        · simp [hun.1, hpte]
        · intro o v hv
          rw [hun.2 o] at hv
          cases hv

/-- A byte stored through the translation is read back through it. -/
theorem writePage_store {pte : Pte} (hpte : s.pte = some pte) (offset : ℕ) (value : BYTE) (o : ℕ) :
    writePage s offset [value] pte.physicalAddress o =
      if o = offset then value else s.memory pte.physicalAddress o := by
  simp only [writePage, hpte, Function.update_self]
  by_cases ho : o = offset
  · subst ho
    simp
  · rw [if_neg ho]
    split_ifs with hle
    · have hlen : [value].length ≤ o - offset := by
        simp only [List.length_singleton]
        omega
      rw [List.getElem?_eq_none hlen]
      rfl
    · rfl

theorem nextFault_inv {page : QWORD} {a : FaultAction} (hi : FaultInv s) (hq : ReservesOnce s a)
    (h : nextFault ctx page s a = some s') : FaultInv s' := by
  cases a with
  | fault c access address rights =>
    simp only [nextFault] at h
    split_ifs at h with hidle
    cases h
    exact hi.setPc (by rw [hidle.1]; rfl) rfl
  | step c => exact faultStep_inv hi hq h
  | store offset value =>
    simp only [nextFault] at h
    split_ifs at h with hs
    cases h
    rcases hi with ⟨-, -, hun, -⟩ | ⟨o, pa, hr, hnone, ho⟩
    · rw [hun.1] at hs
      cases hs.1
    · refine Or.inr ⟨o, pa, hr, hnone, ?_⟩
      generalize s.pc o = p at ho ⊢
      cases ho with
      | map _ _ hun | read _ _ _ hun | zero _ _ _ hun | failed _ _ hun =>
        rw [hun.1] at hs
        cases hs.1
      | solved hpte hpa hset hst =>
        refine .solved hpte hpa hset ?_
        intro o' v hv
        subst hpa
        simp only [writePage_store hpte]
        by_cases ho' : o' = offset
        · subst ho'
          rw [if_pos rfl]
          simpa using hv
        · simp only [Function.update_of_ne ho'] at hv
          rw [if_neg ho']
          exact hst o' v hv

theorem FaultInv.safe (hi : FaultInv s) : FaultSafe s := by
  rcases hi with ⟨hr, hpte, hun, -⟩ | ⟨o, pa, hr, -, ho⟩
  · refine ⟨?_, ?_, fun _ hne => absurd hr hne⟩
    · intro pte hs
      rw [hun.1] at hs
      cases hs
    · intro pte hs
      rw [hpte] at hs
      cases hs
  · have hmapped : ∀ {pte : Pte}, s.pte = some pte → pte.physicalAddress = pa →
        ∃ pte, s.pte = some pte ∧ pte.physicalAddress ∈ s.reserved ∧
          ∀ q ∈ s.reserved, q ≠ pte.physicalAddress → q ∈ s.freeFrames := by
      intro pte hpte hpa
      refine ⟨pte, hpte, by simp [hr, hpa], ?_⟩
      intro q hq hne
      rw [hr, List.mem_singleton] at hq
      exact absurd (hq.trans hpa.symm) hne
    have hearly : s.Untouched → (∀ pte, s.settled = some pte → s.pte = some pte) ∧
        ∀ pte, s.pte = some pte → ∀ o v, s.stored o = some v →
          s.memory pte.physicalAddress o = v := by
      intro hun
      constructor
      · intro pte hs
        rw [hun.1] at hs
        cases hs
      · intro pte _ o v hv
        rw [hun.2 o] at hv
        cases hv
    generalize hp : s.pc o = p at ho
    cases ho with
    | map page hpte hun =>
      refine ⟨(hearly hun).1, (hearly hun).2, fun hall _ => ?_⟩
      have hret := hall o
      rw [hp] at hret
      cases hret
    | read _ hpte hpa hun | zero _ hpte hpa hun | failed hpte hpa hun =>
      exact ⟨(hearly hun).1, (hearly hun).2, fun _ _ => hmapped hpte hpa⟩
    | solved hpte hpa hset hst =>
      refine ⟨?_, ?_, fun _ _ => hmapped hpte hpa⟩
      · intro pte hs
        rw [hset] at hs
        cases hs
        exact hpte
      · intro pte hs o v hv
        rw [hpte] at hs
        cases hs
        rw [hpa]
        exact hst o v hv

/-- A frame is reserved at most once, and none of the reserved ones is free. -/
def FramesKept (s : FaultState) : Prop := (s.reserved ++ s.freeFrames).Nodup

theorem reservesOnce_of_empty (h : s.reserved = []) (a : FaultAction) : ReservesOnce s a := by
  cases a with
  | step c => exact fun _ => h
  | fault => trivial
  | store => trivial

/-- A step reserves the first free frame or leaves the frames alone; none is ever given back. -/
theorem nextFault_frames {page : QWORD} {a : FaultAction} (h : nextFault ctx page s a = some s') :
    (s'.reserved = s.reserved ∧ s'.freeFrames = s.freeFrames ∧ ReservesOnce s a) ∨
      ∃ pa, s.freeFrames = pa :: s'.freeFrames ∧ s'.reserved = pa :: s.reserved := by
  cases a with
  | fault c access address rights =>
    simp only [nextFault] at h
    split_ifs at h
    cases h
    exact Or.inl ⟨rfl, rfl, trivial⟩
  | store offset value =>
    simp only [nextFault] at h
    split_ifs at h
    cases h
    exact Or.inl ⟨rfl, rfl, trivial⟩
  | step c =>
    simp only [nextFault] at h
    cases hpc : s.pc c with
    | idle | rejected | failed | solved => simp [faultStep, hpc] at h
    | reserve page =>
      simp only [faultStep, hpc] at h
      cases hf : s.freeFrames with
      | nil => simp [hf] at h
      | cons pa rest =>
        simp only [hf] at h
        cases h
        exact Or.inr ⟨pa, rfl, rfl⟩
    | checkAccess access address rights =>
      simp only [faultStep, hpc] at h
      have hq : ReservesOnce s (.step c) := by
        intro hr
        rw [hpc] at hr
        cases hr
      split at h <;> cases h <;> exact Or.inl ⟨rfl, rfl, hq⟩
    | map page pa =>
      simp only [faultStep, hpc] at h
      cases h
      refine Or.inl ⟨rfl, rfl, fun hr => ?_⟩
      rw [hpc] at hr
      cases hr
    | read page =>
      simp only [faultStep, hpc] at h
      have hq : ReservesOnce s (.step c) := by
        intro hr
        rw [hpc] at hr
        cases hr
      split at h
      · cases h
        exact Or.inl ⟨rfl, rfl, hq⟩
      · split_ifs at h
        cases h
        exact Or.inl ⟨rfl, rfl, hq⟩
    | zero k =>
      simp only [faultStep, hpc] at h
      cases h
      refine Or.inl ⟨rfl, rfl, fun hr => ?_⟩
      rw [hpc] at hr
      cases hr

theorem nextFault_framesKept {page : QWORD} {a : FaultAction} (hk : FramesKept s)
    (h : nextFault ctx page s a = some s') : FramesKept s' := by
  rcases nextFault_frames h with ⟨hr, hf, -⟩ | ⟨pa, hf, hr⟩
  · unfold FramesKept
    rw [hr, hf]
    exact hk
  · unfold FramesKept at hk ⊢
    rw [hf, List.nodup_middle] at hk
    rw [hr]
    exact hk

/-- With two frames reserved, one of them is neither mapped nor free. -/
theorem FramesKept.lost (hk : FramesKept s) (hlen : 2 ≤ s.reserved.length) (hall : s.AllReturned) :
    ¬ FaultSafe s := by
  intro hsafe
  obtain ⟨pte, -, -, hfree⟩ := hsafe.one_frame hall (by
    intro hnil
    simp [hnil] at hlen)
  obtain ⟨hnodup, -, hdisj⟩ := List.nodup_append.mp hk
  match hres : s.reserved, hlen with
  | pa :: pb :: rest, _ =>
    have hne : pa ≠ pb := by
      intro hab
      rw [hres] at hnodup
      simp [hab] at hnodup
    have hnot : ∀ q ∈ s.reserved, q = pte.physicalAddress := by
      intro q hq
      by_contra hqne
      exact hdisj q hq q (hfree q hq hqne) rfl
    exact hne ((hnot pa (by simp [hres])).trans (hnot pb (by simp [hres])).symm)

end Steps

section Runs

variable {ctx : FaultContext} {page : QWORD} {s₀ s : FaultState}
  {tr : List (FaultState × FaultAction)}

/-- A run in which some call reserves a second frame ends with two frames reserved. -/
theorem reservesOnce_or_two
    (h : Exec (fun s a s' => nextFault ctx page s a = some s') s₀ tr s) :
    (∀ v ∈ tr, ReservesOnce v.1 v.2) ∨ 2 ≤ s.reserved.length := by
  induction h with
  | nil => exact Or.inl (by simp)
  | @snoc tr s s' a _ hs ih =>
    rcases nextFault_frames hs with ⟨hr, -, hq⟩ | ⟨pa, -, hr⟩
    · rcases ih with ih | ih
      · exact Or.inl (List.forall_mem_append.mpr ⟨ih, List.forall_mem_singleton.mpr hq⟩)
      · exact Or.inr (hr ▸ ih)
    · have hlen : s'.reserved.length = s.reserved.length + 1 := by rw [hr, List.length_cons]
      rcases ih with ih | ih
      · by_cases hempty : s.reserved = []
        · exact Or.inl (List.forall_mem_append.mpr
            ⟨ih, List.forall_mem_singleton.mpr (reservesOnce_of_empty hempty a)⟩)
        · have hpos := List.length_pos_of_ne_nil hempty
          exact Or.inr (by omega)
      · exact Or.inr (by omega)

/-- If only one call reserves a frame, the page is safe throughout. Otherwise it is not once all
calls have returned. -/
theorem faultSafe_runs (h₀ : FaultStart s₀)
    (h : Exec (fun s a s' => nextFault ctx page s a = some s') s₀ tr s) :
    ((∀ v ∈ tr, ReservesOnce v.1 v.2) → Always FaultSafe tr s) ∧
      (s.AllReturned → FaultSafe s → ∀ v ∈ tr, ReservesOnce v.1 v.2) := by
  constructor
  · intro hq
    have hinv := h.always_of_steps h₀.inv (fun s a s' hi hq hs => nextFault_inv hi hq hs) hq
    exact hinv.mono fun s hi => hi.safe
  · intro hall hsafe
    have hkept : FramesKept s₀ := by
      unfold FramesKept
      rw [h₀.reserved]
      exact h₀.frames
    have hframes := (h.always hkept fun s a s' hk hs => nextFault_framesKept hk hs).2
    rcases reservesOnce_or_two h with hq | hlen
    · exact hq
    · exact absurd hsafe (hframes.lost hlen hall)

end Runs

/-- The first page of `fullyCommitted`, which is not backed by a file. -/
def committedContext : FaultContext := ⟨fullyCommitted.2, false, fun _ _ => none⟩

/-- Three free frames that are filled with `0xCC`. -/
def twoProcessors : FaultState :=
  ⟨none, [0x5000, 0x6000, 0x7000], fun _ _ => 0xCC, fun _ => .idle, [], none, fun _ => none⟩

private theorem twoProcessors_start : FaultStart twoProcessors :=
  ⟨rfl, fun _ => rfl, by decide, rfl, rfl, fun _ => rfl⟩

/-- Processor 0 solves its fault and stores a byte; the access of processor 1 is denied. -/
def oneFault : List FaultAction :=
  [.fault 0 false 0x140000010 1, .fault 1 false 0x140000020 2, .step 0, .step 1, .step 0, .step 0,
    .step 0, .store 0x10 0x42]

theorem oneFault_safe :
    ∃ h : (exec (nextFault committedContext 0x140000000) twoProcessors oneFault).isSome,
      Always FaultSafe
        ((exec (nextFault committedContext 0x140000000) twoProcessors oneFault).get h).1
        ((exec (nextFault committedContext 0x140000000) twoProcessors oneFault).get h).2 :=
  ⟨by decide, (faultSafe_runs twoProcessors_start (exec_get (by decide))).1 (by decide)⟩

/-- Both processors pass the access check before either maps its frame. Processor 0 returns and
stores a byte, then processor 1 maps its own frame. -/
def twoFaults : List FaultAction :=
  [.fault 0 false 0x140000010 1, .fault 1 false 0x140000020 1, .step 0, .step 1, .step 0, .step 1,
    .step 0, .step 0, .store 0x10 0x42, .step 1, .step 1]

private theorem twoFaults_runs :
    (exec (nextFault committedContext 0x140000000) twoProcessors twoFaults).isSome := by
  decide

theorem frame_lost : ∃ tr s,
    Exec (fun s a s' => nextFault committedContext 0x140000000 s a = some s') twoProcessors tr s ∧
      FaultStart twoProcessors ∧ s.AllReturned ∧ s.settled.map Pte.physicalAddress = some 0x5000 ∧
      s.pte.map Pte.physicalAddress = some 0x6000 ∧ s.memory 0x6000 0x10 = 0 ∧
      s.stored 0x10 = some 0x42 ∧ 0x5000 ∉ s.freeFrames ∧ ¬ FaultSafe s := by
  have hall : ((exec (nextFault committedContext 0x140000000) twoProcessors twoFaults).get
      twoFaults_runs).2.AllReturned
    | 0 => rfl
    | 1 => rfl
    | _ + 2 => rfl
  refine ⟨_, _, exec_get twoFaults_runs, twoProcessors_start, hall, by decide, by decide,
    by decide, by decide, by decide, fun hsafe => ?_⟩
  have hkeeps := hsafe.translation ⟨0x5000, 1, false⟩ (by decide)
  exact absurd hkeeps (by decide)

end HAL9000.Vmm
