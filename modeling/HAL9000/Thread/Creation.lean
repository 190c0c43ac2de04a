import HAL9000.CommonLib.Heap.Calls
import HAL9000.CommonLib.RefCount
import HAL9000.Thread.Scheduler
import HAL9000.Vmm.Releases

/-! How a thread is created and destroyed, `ThreadCreateEx` and `_ThreadDestroy` in `thread.c`, with
the stacks that `mmu.c` allocates for it. Threads and processes are told apart by their addresses. -/
namespace HAL9000.Creation

open Paging
open Thread (ThreadState)
open Vmm (VmmReservationSpace AllocRequest vmmAllocTypeReserve vmmAllocTypeCommit)

def heapThreadTag : DWORD := 0x3A524854
def poolAllocateZeroMemory : DWORD := 0x2
def stackDefaultSize : DWORD := 0x8000
def stackGuardSize : DWORD := 0x2000
def shadowStackSize : QWORD := 0x20
def threadPriorityMaximum : DWORD := 31
def tidIncrement : QWORD := 4
def sizeofInterruptStack : QWORD := 0x28
def sizeofCompleteProcessorState : QWORD := 0x490

/-- What a new thread starts with: the return frame of the pseudo-interrupt and the two argument
registers. -/
structure ThreadStart where
  rip : QWORD
  rsp : QWORD
  rcx : QWORD
  rdx : QWORD
  deriving DecidableEq, Repr

structure Thread where
  refCnt : DWORD
  id : QWORD
  name : QWORD
  priority : DWORD
  state : ThreadState
  initialStackBase : QWORD
  stackSize : DWORD
  stack : QWORD
  userStack : QWORD
  process : Option QWORD
  start : Option ThreadStart
  deriving DecidableEq, Repr

/-- A thread of zero bytes; `ThreadStateRunning` is 0. -/
def Thread.zero : Thread := ⟨0, 0, 0, 0, .running, 0, 0, 0, 0, none, none⟩

/-- What `_ProcessDestroy` frees besides is left out. -/
structure Process where
  refCnt : DWORD
  numberOfThreads : DWORD
  activeThreads : DWORD
  threadList : List QWORD
  pagingData : PagingData
  vaSpace : VmmReservationSpace
  addressOfEntryPoint : QWORD
  numberOfArguments : DWORD
  destroyed : Bool

/-- The kernel's paging data and reservation space, and what all address spaces share. -/
structure ThreadSystem where
  heap : Heap.HeapHeader
  threads : QWORD → Thread
  processes : QWORD → Process
  allThreadsList : List QWORD
  readyThreadsList : List QWORD
  idleThread : Option QWORD
  currentTid : QWORD
  pagingData : PagingData
  vaSpace : VmmReservationSpace
  mem : PhysMemory
  frames : Memory
  contents : QWORD → ℕ → BYTE
  openFiles : List QWORD
  pagesToZero : List QWORD

/-- What the creation of a thread depends on: what allocations depend on, the size of a `THREAD` and
the address of `_ThreadKernelFunction`. -/
structure ThreadEnv extends RegionEnv where
  sizeofThread : DWORD
  threadKernelFunction : QWORD

namespace ThreadSystem

def setThread (s : ThreadSystem) (t : QWORD) (thread : Thread) : ThreadSystem :=
  { s with threads := Function.update s.threads t thread }

def setProcess (s : ThreadSystem) (p : QWORD) (process : Process) : ThreadSystem :=
  { s with processes := Function.update s.processes p process }

/-- The address space of a process, or the kernel's for `NULL`. -/
def region (s : ThreadSystem) : Option QWORD → RegionState
  | none => ⟨⟨s.mem, s.pagingData, s.frames, s.contents⟩, s.vaSpace, s.openFiles, s.pagesToZero⟩
  | some p => ⟨⟨s.mem, (s.processes p).pagingData, s.frames, s.contents⟩, (s.processes p).vaSpace,
      s.openFiles, s.pagesToZero⟩

/-- What allocations depend on, with the kernel's paging data. -/
def regionEnv (s : ThreadSystem) (env : ThreadEnv) : RegionEnv :=
  { env.toRegionEnv with kernelBase := s.pagingData.basePhysicalAddress }

def setRegion (s : ThreadSystem) (process : Option QWORD) (r : RegionState) : ThreadSystem :=
  let s := { s with
    mem := r.mem
    frames := r.frames
    contents := r.contents
    openFiles := r.openFiles
    pagesToZero := r.pagesToZero }
  match process with
  | none => { s with pagingData := r.pagingData, vaSpace := r.vaSpace }
  | some p => s.setProcess p { s.processes p with pagingData := r.pagingData, vaSpace := r.vaSpace }

end ThreadSystem

/-- `RemoveEntryList`; an entry that is in no list has null links. -/
def removeEntryList (list : List QWORD) (entry : QWORD) : Except Fault (List QWORD) :=
  if entry ∈ list then .ok (list.erase entry) else .error .danglingAccess

def exAllocatePoolWithTag (s : ThreadSystem) (flags allocationSize tag allocationAlignment : DWORD) :
    Except Fault (QWORD × ThreadSystem) := do
  let (heap, p) ← Heap.clHeapAllocatePoolWithTag s.heap
    ⟨flags, allocationSize, tag, allocationAlignment⟩
  return (p, { s with heap := heap })

def exFreePoolWithTag (s : ThreadSystem) (memoryAddress : QWORD) (tag : DWORD) :
    Except Fault ThreadSystem := do
  let heap ← Heap.clHeapFreePoolWithTag s.heap memoryAddress tag
  return { s with heap := heap }

/-- `PAGE_RIGHTS_READWRITE`, cached, without a file. -/
def stackAttributes : Vmm.Attributes := ⟨pageRightsRead ||| pageRightsWrite, false, 0⟩

/-- Returns the first address behind the stack, 0 for `NULL`. The guard is reserved below the stack
and not committed. -/
def mmuAllocStack (env : ThreadEnv) (s : ThreadSystem) (stackSize : DWORD)
    (protectStack lazyMap : Bool) (process : Option QWORD) :
    Except Fault (QWORD × ThreadSystem) := do
  assertThat (isAddressAligned (stackSize.setWidth 64) pageSize = true)
  let guardSize : DWORD := if protectStack then stackGuardSize else 0
  let totalAllocationSize : DWORD := stackSize + guardSize
  let allocTypeCommit := vmmAllocTypeCommit ||| if lazyMap then 0 else vmmAllocTypeNotLazy
  let (pStackBase, r) ← vmmAllocRegionEx (s.regionEnv env) (s.region process)
    ⟨0, totalAllocationSize.setWidth 64, vmmAllocTypeReserve, stackAttributes⟩ none
  let s := s.setRegion process r
  if pStackBase = 0 then return (0, s)
  let (pCommitedStackBase, r) ← vmmAllocRegionEx (s.regionEnv env) (s.region process)
    ⟨pStackBase + guardSize.setWidth 64, stackSize.setWidth 64, allocTypeCommit, stackAttributes⟩ none
  let s := s.setRegion process r
  if pCommitedStackBase = 0 then return (0, s)
  return (pStackBase + totalAllocationSize.setWidth 64, s)

def mmuFreeStack (env : ThreadEnv) (s : ThreadSystem) (stack : QWORD) (process : Option QWORD) :
    Except Fault ThreadSystem := do
  assertThat (stack ≠ 0)
  let r ← vmmReleaseRegion (s.regionEnv env) (s.region process) stack
  return s.setRegion process r

/-- `_ProcessDereference`, with `_ProcessDestroy` when the count gets to 0. -/
def processDereference (s : ThreadSystem) (p : QWORD) : Except Fault ThreadSystem := do
  let newRefCount ← rfcDereference (s.processes p).refCnt
  if newRefCount = 0 then
    assertThat ((s.processes p).numberOfThreads = 0)
    return s.setProcess p { s.processes p with refCnt := newRefCount, destroyed := true }
  return s.setProcess p { s.processes p with refCnt := newRefCount }

def processInsertThreadInList (s : ThreadSystem) (p t : QWORD) : Except Fault ThreadSystem := do
  let process := s.processes p
  assertThat (process.numberOfThreads < maxDword)
  assertThat (process.activeThreads + 1 ≤ process.numberOfThreads + 1)
  let newRefCount ← rfcReference process.refCnt
  let s := s.setThread t { s.threads t with process := some p }
  return s.setProcess p { process with
    numberOfThreads := process.numberOfThreads + 1
    activeThreads := process.activeThreads + 1
    threadList := process.threadList ++ [t]
    refCnt := newRefCount }

def processRemoveThreadFromList (s : ThreadSystem) (t : QWORD) : Except Fault ThreadSystem := do
  match (s.threads t).process with
  | none => .error .assertFailed
  | some p =>
    let remainingThreads := (s.processes p).numberOfThreads - 1
    assertThat (remainingThreads ≠ maxDword)
    let threadList ← removeEntryList (s.processes p).threadList t
    let s := s.setProcess p { s.processes p with
      numberOfThreads := remainingThreads, threadList := threadList }
    let s ← processDereference s p
    if remainingThreads = 0 then processDereference s p else return s

/-- The user stack goes before the process can. -/
def threadFreeUserStack (env : ThreadEnv) (s : ThreadSystem) (t : QWORD) :
    Except Fault ThreadSystem :=
  if (s.threads t).userStack = 0 then .ok s
  else do
    let s ← mmuFreeStack env s (s.threads t).userStack (s.threads t).process
    return s.setThread t { s.threads t with userStack := 0 }

def threadFreeName (s : ThreadSystem) (t : QWORD) : Except Fault ThreadSystem :=
  if (s.threads t).name = 0 then .ok s
  else do
    let s ← exFreePoolWithTag s (s.threads t).name heapThreadTag
    return s.setThread t { s.threads t with name := 0 }

def threadFreeKernelStack (env : ThreadEnv) (s : ThreadSystem) (t : QWORD) :
    Except Fault ThreadSystem :=
  if (s.threads t).stack = 0 then .ok s
  else do
    let s ← mmuFreeStack env s (s.threads t).stack none
    return s.setThread t { s.threads t with stack := 0 }

/-- `_ThreadDestroy`. -/
def threadDestroy (env : ThreadEnv) (s : ThreadSystem) (t : QWORD) : Except Fault ThreadSystem := do
  let allThreadsList ← removeEntryList s.allThreadsList t
  let s ← threadFreeUserStack env { s with allThreadsList := allThreadsList } t
  let s ← processRemoveThreadFromList s t
  let s ← threadFreeName s t
  let s ← threadFreeKernelStack env s t
  exFreePoolWithTag s t heapThreadTag

/-- `_ThreadDereference`. -/
def threadDereference (env : ThreadEnv) (s : ThreadSystem) (t : QWORD) :
    Except Fault ThreadSystem := do
  let newRefCount ← rfcDereference (s.threads t).refCnt
  let s := s.setThread t { s.threads t with refCnt := newRefCount }
  if newRefCount = 0 then threadDestroy env s t else return s

/-- `_ThreadReference`. -/
def threadReference (s : ThreadSystem) (t : QWORD) : Except Fault ThreadSystem := do
  let newRefCount ← rfcReference (s.threads t).refCnt
  return s.setThread t { s.threads t with refCnt := newRefCount }

/-- The failure exit of `_ThreadInit` for a thread that exists already. -/
def abandonThread (env : ThreadEnv) (s : ThreadSystem) (t : QWORD) (status : Status) :
    Except Fault (Status × Option QWORD × ThreadSystem) := do
  let s ← threadDereference env s t
  return (status, none, s)

/-- The zeroed record of a new thread, with its reference count. -/
def newThread (s : ThreadSystem) (t : QWORD) : ThreadSystem :=
  s.setThread t { Thread.zero with refCnt := rfcInit }

def withKernelStack (s : ThreadSystem) (t stack : QWORD) : ThreadSystem :=
  s.setThread t { s.threads t with
    stack := stack, initialStackBase := stack, stackSize := stackDefaultSize }

/-- The part of `_ThreadInit` behind the kernel stack. -/
def threadInitName (env : ThreadEnv) (s : ThreadSystem) (t : QWORD) (name : List BYTE)
    (priority : DWORD) : Except Fault (Status × Option QWORD × ThreadSystem) := do
  let nameLen : DWORD := BitVec.ofNat 32 name.length
  let (pName, s) ← exAllocatePoolWithTag s poolAllocateZeroMemory (nameLen + 1) heapThreadTag 0
  if pName = 0 then abandonThread env s t .heapInsufficientResources
  else
    let s := s.setThread t { s.threads t with
      name := pName, id := s.currentTid, state := .blocked, priority := priority }
    return (.success, some t, { s with
      currentTid := s.currentTid + tidIncrement
      allThreadsList := s.allThreadsList ++ [t] })

/-- Returns the status and the thread. The event of the thread and its lock are left out. -/
def threadInit (env : ThreadEnv) (s : ThreadSystem) (name : List BYTE) (priority : DWORD)
    (allocateKernelStack : Bool) : Except Fault (Status × Option QWORD × ThreadSystem) := do
  assertThat (priority ≤ threadPriorityMaximum)
  let (t, s) ← exAllocatePoolWithTag s poolAllocateZeroMemory env.sizeofThread heapThreadTag 0
  if t = 0 then return (.heapInsufficientResources, none, s)
  let s := newThread s t
  if allocateKernelStack then
    let (pStack, s) ← mmuAllocStack env s stackDefaultSize true false none
    if pStack = 0 then abandonThread env s t .memoryCannotBeCommited
    else threadInitName env (withKernelStack s t pStack) t name priority
  else threadInitName env s t name priority

/-- The stack of the first thread of a process stays as it is. -/
def threadSetupMainThreadUserStack (initialStack : QWORD) : Except Fault QWORD := do
  assertThat (initialStack ≠ 0)
  return initialStack

/-- The kernel stack gets a shadow space, a return address, the interrupt frame, the address of
`ThreadStart` and the processor state. -/
def threadSetupInitialState (s : ThreadSystem) (t startFunction firstArgument secondArgument : QWORD)
    (kernelStack : Bool) : Except Fault ThreadSystem := do
  assertThat (startFunction ≠ 0)
  let pIst := (s.threads t).stack - 8 * 5 - sizeofInterruptStack
  if !kernelStack then assertThat ((s.threads t).userStack ≠ 0)
  let rsp := if kernelStack then pIst + sizeofInterruptStack else (s.threads t).userStack
  return s.setThread t { s.threads t with
    stack := pIst - 8 - sizeofCompleteProcessorState
    start := some ⟨startFunction, rsp, firstArgument, secondArgument⟩ }

def threadUnblock (s : ThreadSystem) (t : QWORD) : Except Fault ThreadSystem := do
  assertThat ((s.threads t).state = .blocked)
  let s := s.setThread t { s.threads t with state := .ready }
  return { s with readyThreadsList := s.readyThreadsList ++ [t] }

/-- The first thread of a CPU becomes its idle thread. -/
def threadMakeReady (s : ThreadSystem) (t : QWORD) : Except Fault ThreadSystem :=
  match s.idleThread with
  | none => .ok { s.setThread t { s.threads t with state := .ready } with idleThread := some t }
  | some _ => threadUnblock s t

/-- The arguments of `ThreadCreateEx`; 0 and `none` stand for `NULL`. -/
structure CreateRequest where
  name : Option (List BYTE)
  priority : DWORD
  function : QWORD
  context : QWORD
  thread : QWORD
  process : Option QWORD
  deriving DecidableEq, Repr

/-- The user stack of a new thread and the function and arguments it starts with; `none` if there is
no memory for the stack. -/
def threadCreateUserStack (env : ThreadEnv) (s : ThreadSystem) (t p function context : QWORD) :
    Except Fault (Option (QWORD × QWORD × QWORD) × ThreadSystem) := do
  let (userStack, s) ← mmuAllocStack env s stackDefaultSize true false (some p)
  let s := s.setThread t { s.threads t with userStack := userStack }
  if userStack = 0 then return (none, s)
  let process := s.processes p
  let bProcessInitialThread := function = process.addressOfEntryPoint
  if bProcessInitialThread then
    assertThat (process.numberOfThreads = 1)
    let userStack ← threadSetupMainThreadUserStack userStack
    let s := s.setThread t { s.threads t with userStack := userStack }
    return (some (process.addressOfEntryPoint, process.numberOfArguments.setWidth 64,
      userStack + (shadowStackSize + 8)), s)
  else
    let s := s.setThread t { s.threads t with userStack := userStack - (shadowStackSize + 8) }
    return (some (function, context, 0), s)

/-- What a new thread starts with: a kernel thread goes through `_ThreadKernelFunction`. -/
def threadSetupStart (env : ThreadEnv) (s : ThreadSystem) (t p function context : QWORD) :
    Except Fault (Option (QWORD × QWORD × QWORD) × ThreadSystem) :=
  if (s.processes p).pagingData.kernelSpace then
    .ok (some (env.threadKernelFunction, function, context), s)
  else threadCreateUserStack env s t p function context

/-- The part of `ThreadCreateEx` behind `_ThreadInit`. -/
def threadCreateIn (env : ThreadEnv) (s : ThreadSystem) (t p function context : QWORD) :
    Except Fault (Status × Option QWORD × ThreadSystem) := do
  let s ← processInsertThreadInList s p t
  let s ← threadReference s t
  let kernelSpace := (s.processes p).pagingData.kernelSpace
  let (start, s) ← threadSetupStart env s t p function context
  match start with
  | none => return (.memoryCannotBeCommited, none, s)
  | some (startFunction, firstArg, secondArg) =>
    let s ← threadSetupInitialState s t startFunction firstArg secondArg kernelSpace
    let s ← threadMakeReady s t
    return (.success, some t, s)

/-- Returns the status and the thread. -/
def threadCreateEx (env : ThreadEnv) (s : ThreadSystem) (req : CreateRequest) :
    Except Fault (Status × Option QWORD × ThreadSystem) :=
  match req.name with
  | none => .ok (.invalidParameter1, none, s)
  | some name =>
    if req.function = 0 then .ok (.invalidParameter3, none, s)
    else if req.thread = 0 then .ok (.invalidParameter5, none, s)
    else match req.process with
      | none => .ok (.invalidParameter6, none, s)
      | some p => do
        match ← threadInit env s name req.priority true with
        | (.success, some t, s) => threadCreateIn env s t p req.function req.context
        | (status, _, s) => return (status, none, s)

section Regions

variable (s : ThreadSystem) (process : Option QWORD) (r r' : RegionState)

@[simp] theorem region_setThread (t : QWORD) (thread : Thread) :
    (s.setThread t thread).region process = s.region process := by
  cases process <;> rfl

@[simp] theorem threads_setThread (t : QWORD) (thread : Thread) :
    (s.setThread t thread).threads t = thread := by
  simp [ThreadSystem.setThread]

@[simp] theorem region_setHeap (heap : Heap.HeapHeader) :
    ({ s with heap := heap } : ThreadSystem).region process = s.region process := by
  cases process <;> rfl

@[simp] theorem region_setRegion : (s.setRegion process r).region process = r := by
  cases process with
  | none => rfl
  | some p => simp [ThreadSystem.region, ThreadSystem.setRegion, ThreadSystem.setProcess]

@[simp] theorem setRegion_setRegion :
    (s.setRegion process r).setRegion process r' = s.setRegion process r' := by
  cases process with
  | none => rfl
  | some p => simp [ThreadSystem.setRegion, ThreadSystem.setProcess]

@[simp] theorem threads_setRegion : (s.setRegion process r).threads = s.threads := by
  cases process <;> rfl

variable {s process r}

/-- The reservations of the other address spaces are as before. -/
theorem vaSpace_setRegion {other : Option QWORD} (h : other ≠ process) :
    ((s.setRegion process r).region other).vaSpace = (s.region other).vaSpace := by
  cases process with
  | none =>
    cases other with
    | none => exact absurd rfl h
    | some q => rfl
  | some p =>
    cases other with
    | none => rfl
    | some q =>
      have hne : q ≠ p := fun heq => h (congrArg some heq)
      simp [ThreadSystem.region, ThreadSystem.setRegion, ThreadSystem.setProcess, hne]

theorem region_setProcess {p : QWORD} {new : Process} (hp : new.pagingData = (s.processes p).pagingData)
    (hv : new.vaSpace = (s.processes p).vaSpace) :
    (s.setProcess p new).region process = s.region process := by
  cases process with
  | none => rfl
  | some q =>
    by_cases heq : q = p
    · subst heq
      simp [ThreadSystem.region, ThreadSystem.setProcess, hp, hv]
    · simp [ThreadSystem.region, ThreadSystem.setProcess, heq]

end Regions

section Stacks

variable {env : ThreadEnv} {s s' : ThreadSystem} {process : Option QWORD} {a : QWORD}

/-- A commit changes commit bits only. -/
private theorem commit_keepsSlots {vaSpace vaSpace' : VmmReservationSpace} {m : ℕ}
    {base size : QWORD} {r : Except Status (QWORD × QWORD)} (hm : Vmm.Marker vaSpace m)
    (h : Vmm.vmReservationSpaceAllocRegion vaSpace ⟨base, size,
      vmmAllocTypeCommit ||| vmmAllocTypeNotLazy, stackAttributes⟩ = .ok (vaSpace', r)) :
    Vmm.Keeps vaSpace vaSpace' := by
  rcases Vmm.vmReservationSpaceAllocRegion_spec hm h with ⟨hkeeps, -⟩ | ⟨a, n, hrange, -⟩
  · exact hkeeps
  · have hflag : ¬ isBooleanFlagOn (vmmAllocTypeCommit ||| vmmAllocTypeNotLazy)
        vmmAllocTypeReserve = true := by decide
    unfold VmmReservationSpace.requestedRange at hrange
    dsimp only at hrange
    rw [if_neg fun hc => hflag hc.1] at hrange
    cases hrange

/-- The stack of a thread with its guard has ten pages. -/
theorem mmuAllocStack_spec
    (h : mmuAllocStack env s stackDefaultSize true false process = .ok (a, s'))
    (hm : Vmm.MetadataSound (s.region process).vaSpace) (ha : a ≠ 0) :
    a = (s.region process).vaSpace.freeVirtualAddressPointer + 0xA000 ∧
      (∃ i, Vmm.Reserved (s.region process).vaSpace (s'.region process).vaSpace i
        (s.region process).vaSpace.freeVirtualAddressPointer 0xA000) ∧
      Vmm.MetadataSound (s'.region process).vaSpace ∧ ∃ r, s' = s.setRegion process r := by
  obtain ⟨m, hmarker⟩ := hm.marker
  obtain ⟨_, -, h⟩ := bind_eq_ok.mp h
  obtain ⟨⟨base, r₁⟩, hreserve, h⟩ := bind_eq_ok.mp h
  dsimp only at h
  by_cases hbase : base = 0
  · rw [if_pos hbase] at h
    cases h
    exact absurd rfl ha
  rw [if_neg hbase] at h
  obtain ⟨⟨commited, r₂⟩, hcommit, h⟩ := bind_eq_ok.mp h
  dsimp only at h
  by_cases hcommited : commited = 0
  · rw [if_pos hcommited] at h
    cases h
    exact absurd rfl ha
  rw [if_neg hcommited] at h
  obtain ⟨hend, hs'⟩ := Prod.mk.inj (Except.ok.inj h)
  obtain ⟨x₁, halloc₁, hgranted⟩ := vmmAllocRegionEx_vaSpace rfl hreserve
  obtain ⟨size, rfl⟩ := hgranted hbase
  have hplace := Vmm.vmReservationSpaceAllocRegion_granted halloc₁
  obtain ⟨hptr, rfl⟩ : (s.region process).vaSpace.freeVirtualAddressPointer = base ∧
      0xA000 = size := Prod.mk.inj hplace
  obtain ⟨i, m', hres, hm', -⟩ :=
    Vmm.vmReservationSpaceAllocRegion_reserved hmarker (by decide) halloc₁
  obtain ⟨x₂, halloc₂, -⟩ := vmmAllocRegionEx_vaSpace rfl hcommit
  rw [region_setRegion] at halloc₂
  have hkeeps := commit_keepsSlots hm' halloc₂
  rw [setRegion_setRegion] at hs'
  rw [← hend, ← hs', region_setRegion, hptr]
  refine ⟨?_, ⟨i, hres.keeps hkeeps⟩, (hm.alloc halloc₁).alloc halloc₂, r₂, rfl⟩
  exact congrArg (base + ·) (show ((stackDefaultSize + stackGuardSize).setWidth 64 : QWORD) = 0xA000
    by decide)

/-- A thread that `_ThreadInit` made has a record, a kernel stack and a name. -/
theorem threadInit_success {name : List BYTE} {priority : DWORD} {t : QWORD}
    (h : threadInit env s name priority true = .ok (.success, some t, s')) :
    ∃ s₁ k s₂ pName s₃,
      exAllocatePoolWithTag s poolAllocateZeroMemory env.sizeofThread heapThreadTag 0 = .ok (t, s₁) ∧
      mmuAllocStack env (newThread s₁ t) stackDefaultSize true false none = .ok (k, s₂) ∧ k ≠ 0 ∧
      exAllocatePoolWithTag (withKernelStack s₂ t k) poolAllocateZeroMemory
        (BitVec.ofNat 32 name.length + 1) heapThreadTag 0 = .ok (pName, s₃) ∧
      s' = { s₃.setThread t { s₃.threads t with
          name := pName, id := s₃.currentTid, state := .blocked, priority := priority } with
        currentTid := s₃.currentTid + tidIncrement, allThreadsList := s₃.allThreadsList ++ [t] } := by
  obtain ⟨_, -, h⟩ := bind_eq_ok.mp h
  obtain ⟨⟨t', s₁⟩, halloc, h⟩ := bind_eq_ok.mp h
  dsimp only at h
  by_cases ht : t' = 0
  · rw [if_pos ht] at h
    cases h
  rw [if_neg ht, if_pos rfl] at h
  obtain ⟨⟨k, s₂⟩, hstack, h⟩ := bind_eq_ok.mp h
  dsimp only at h
  by_cases hk : k = 0
  · rw [if_pos hk] at h
    obtain ⟨_, -, h⟩ := bind_eq_ok.mp h
    cases h
  rw [if_neg hk] at h
  obtain ⟨⟨pName, s₃⟩, hname, h⟩ := bind_eq_ok.mp h
  dsimp only at h
  by_cases hpName : pName = 0
  · rw [if_pos hpName] at h
    obtain ⟨_, -, h⟩ := bind_eq_ok.mp h
    cases h
  rw [if_neg hpName] at h
  cases h
  exact ⟨s₁, k, s₂, pName, s₃, halloc, hstack, hk, hname, rfl⟩

/-- A new thread has a kernel stack; processes and their address spaces are as before. -/
theorem threadInit_ok (hm : Vmm.MetadataSound s.vaSpace) {name : List BYTE} {priority : DWORD}
    {t : QWORD} (h : threadInit env s name priority true = .ok (.success, some t, s')) :
    s.vaSpace.freeVirtualAddressPointer + 0xA000 ≠ 0 ∧
      (∃ i, Vmm.Reserved s.vaSpace s'.vaSpace i s.vaSpace.freeVirtualAddressPointer 0xA000) ∧
      Vmm.MetadataSound s'.vaSpace ∧ s'.processes = s.processes ∧
      (s'.threads t).initialStackBase = s.vaSpace.freeVirtualAddressPointer + 0xA000 ∧
      (s'.threads t).stack = s.vaSpace.freeVirtualAddressPointer + 0xA000 ∧
      (s'.threads t).stackSize = stackDefaultSize ∧ (s'.threads t).userStack = 0 := by
  obtain ⟨s₁, k, s₂, pName, s₃, halloc, hstack, hk, hname, rfl⟩ := threadInit_success h
  obtain ⟨⟨heap₁, p₁⟩, -, halloc⟩ := bind_eq_ok.mp halloc
  cases halloc
  obtain ⟨⟨heap₂, p₂⟩, -, hname⟩ := bind_eq_ok.mp hname
  cases hname
  obtain ⟨hend, hreserved, hm', r, rfl⟩ := mmuAllocStack_spec hstack hm hk
  refine ⟨fun h0 => hk (hend.trans h0), hreserved, hm', rfl, ?_⟩
  simp [ThreadSystem.setThread, withKernelStack, newThread, hend, Thread.zero]
  rfl

/-- A process lists a new thread; its address space is as before. -/
theorem processInsertThreadInList_ok {p t : QWORD} (h : processInsertThreadInList s p t = .ok s') :
    (∀ q, s'.region q = s.region q) ∧
      s'.threads = Function.update s.threads t { s.threads t with process := some p } ∧
      (s'.processes p).addressOfEntryPoint = (s.processes p).addressOfEntryPoint := by
  obtain ⟨_, -, h⟩ := bind_eq_ok.mp h
  obtain ⟨_, -, h⟩ := bind_eq_ok.mp h
  obtain ⟨c, -, h⟩ := bind_eq_ok.mp h
  cases h
  refine ⟨fun q => ?_, rfl, ?_⟩
  · rw [region_setProcess, region_setThread] <;> rfl
  · simp [ThreadSystem.setProcess]

/-- Where the user stack of a thread points to after its creation. -/
def userStackOf (s : ThreadSystem) (p function : QWORD) : QWORD :=
  if function = (s.processes p).addressOfEntryPoint then
    (s.region (some p)).vaSpace.freeVirtualAddressPointer + 0xA000
  else (s.region (some p)).vaSpace.freeVirtualAddressPointer + 0xA000 - (shadowStackSize + 8)

theorem threadCreateUserStack_ok {t p function context : QWORD} {start : QWORD × QWORD × QWORD}
    (h : threadCreateUserStack env s t p function context = .ok (some start, s'))
    (hm : Vmm.MetadataSound (s.region (some p)).vaSpace) :
    (∃ i, Vmm.Reserved (s.region (some p)).vaSpace (s'.region (some p)).vaSpace i
        (s.region (some p)).vaSpace.freeVirtualAddressPointer 0xA000) ∧
      Vmm.MetadataSound (s'.region (some p)).vaSpace ∧
      s'.threads t = { s.threads t with userStack := userStackOf s p function } ∧
      ∀ q, q ≠ some p → (s'.region q).vaSpace = (s.region q).vaSpace := by
  obtain ⟨⟨u, s₁⟩, hstack, h⟩ := bind_eq_ok.mp h
  dsimp only at h
  by_cases hu : u = 0
  · rw [if_pos hu] at h
    cases h
  rw [if_neg hu] at h
  obtain ⟨hend, hreserved, hm', r, rfl⟩ := mmuAllocStack_spec hstack hm hu
  have hentry : (((s.setRegion (some p) r).setThread t
      { (s.setRegion (some p) r).threads t with userStack := u }).processes p).addressOfEntryPoint =
      (s.processes p).addressOfEntryPoint := by
    simp [ThreadSystem.setThread, ThreadSystem.setRegion, ThreadSystem.setProcess]
  rw [hentry] at h
  by_cases hfunction : function = (s.processes p).addressOfEntryPoint
  · rw [if_pos hfunction] at h
    obtain ⟨_, -, h⟩ := bind_eq_ok.mp h
    obtain ⟨v, hv, h⟩ := bind_eq_ok.mp h
    obtain ⟨_, -, hv⟩ := bind_eq_ok.mp hv
    cases hv
    cases h
    refine ⟨by simpa using hreserved, by simpa using hm', ?_, fun q hq => ?_⟩
    · rw [userStackOf, if_pos hfunction, ← hend]
      simp [ThreadSystem.setThread]
    · simpa using vaSpace_setRegion hq
  · rw [if_neg hfunction] at h
    cases h
    refine ⟨by simpa using hreserved, by simpa using hm', ?_, fun q hq => ?_⟩
    · rw [userStackOf, if_neg hfunction, ← hend]
      simp [ThreadSystem.setThread]
    · simpa using vaSpace_setRegion hq

/-- What `ThreadCreateEx` leaves: the reservations of the stacks and where the thread keeps them. -/
structure Created (s s' : ThreadSystem) (t p function : QWORD) : Prop where
  process : (s'.threads t).process = some p
  kernelNonNull : s.vaSpace.freeVirtualAddressPointer + 0xA000 ≠ 0
  kernelReserved : ∃ i, Vmm.Reserved (s.region none).vaSpace (s'.region none).vaSpace i
    s.vaSpace.freeVirtualAddressPointer 0xA000
  kernelSound : Vmm.MetadataSound (s'.region none).vaSpace
  initialStackBase : (s'.threads t).initialStackBase = s.vaSpace.freeVirtualAddressPointer + 0xA000
  stackSize : (s'.threads t).stackSize = stackDefaultSize
  others : ∀ q, q ≠ none → (q = some p → (s.processes p).pagingData.kernelSpace = true) →
    (s'.region q).vaSpace = (s.region q).vaSpace
  noUserStack : (s.processes p).pagingData.kernelSpace = true → (s'.threads t).userStack = 0
  userStack : (s.processes p).pagingData.kernelSpace = false →
    (s'.threads t).userStack = userStackOf s p function ∧ userStackOf s p function ≠ 0 ∧
      Vmm.MetadataSound (s'.region (some p)).vaSpace ∧
      ∃ i, Vmm.Reserved (s.region (some p)).vaSpace (s'.region (some p)).vaSpace i
        (s.region (some p)).vaSpace.freeVirtualAddressPointer 0xA000

theorem threadMakeReady_ok {t : QWORD} (h : threadMakeReady s t = .ok s') :
    (∀ q, s'.region q = s.region q) ∧ s'.threads t = { s.threads t with state := .ready } := by
  unfold threadMakeReady at h
  cases hidle : s.idleThread with
  | none =>
    rw [hidle] at h
    cases h
    refine ⟨fun q => ?_, threads_setThread s t _⟩
    cases q <;> rfl
  | some _ =>
    rw [hidle] at h
    obtain ⟨_, -, hunblock⟩ := bind_eq_ok.mp h
    cases hunblock
    refine ⟨fun q => ?_, threads_setThread s t _⟩
    cases q <;> rfl

theorem threadSetupInitialState_ok {t f a b : QWORD} {kernelStack : Bool}
    (h : threadSetupInitialState s t f a b kernelStack = .ok s') :
    (∀ q, s'.region q = s.region q) ∧ (kernelStack = false → (s.threads t).userStack ≠ 0) ∧
      ∃ stack start, s'.threads t = { s.threads t with stack := stack, start := start } := by
  obtain ⟨_, -, h⟩ := bind_eq_ok.mp h
  cases kernelStack with
  | true =>
    cases h
    exact ⟨fun q => region_setThread s q t _, fun hc => (by cases hc), _, _,
      threads_setThread s t _⟩
  | false =>
    obtain ⟨_, huser, h⟩ := bind_eq_ok.mp h
    cases h
    exact ⟨fun q => region_setThread s q t _, fun _ => assertThat_eq_ok.mp huser, _, _,
      threads_setThread s t _⟩

/-- The part of the creation behind `_ThreadInit`. -/
private theorem threadCreateIn_ok {t t' p function context : QWORD}
    (h : threadCreateIn env s t p function context = .ok (.success, some t', s'))
    (hm : Vmm.MetadataSound (s.region (some p)).vaSpace) :
    t' = t ∧ (s'.threads t).process = some p ∧
      (s'.threads t).initialStackBase = (s.threads t).initialStackBase ∧
      (s'.threads t).stackSize = (s.threads t).stackSize ∧
      (∀ q, q ≠ some p → (s'.region q).vaSpace = (s.region q).vaSpace) ∧
      if (s.processes p).pagingData.kernelSpace = true then
        (s'.threads t).userStack = (s.threads t).userStack ∧
          (s'.region (some p)).vaSpace = (s.region (some p)).vaSpace
      else (s'.threads t).userStack = userStackOf s p function ∧ userStackOf s p function ≠ 0 ∧
        Vmm.MetadataSound (s'.region (some p)).vaSpace ∧
        ∃ i, Vmm.Reserved (s.region (some p)).vaSpace (s'.region (some p)).vaSpace i
          (s.region (some p)).vaSpace.freeVirtualAddressPointer 0xA000 := by
  obtain ⟨s₁, hinsert, h⟩ := bind_eq_ok.mp h
  obtain ⟨s₂, hreference, h⟩ := bind_eq_ok.mp h
  obtain ⟨hregion₁, hthreads₁, hentry₁⟩ := processInsertThreadInList_ok hinsert
  obtain ⟨c, -, hreference⟩ := bind_eq_ok.mp hreference
  cases hreference
  have hregion₂ : ∀ q, (s₁.setThread t { s₁.threads t with refCnt := c }).region q = s.region q :=
    fun q => (region_setThread s₁ q t _).trans (hregion₁ q)
  have hthread₂ : (s₁.setThread t { s₁.threads t with refCnt := c }).threads t =
      { s.threads t with process := some p, refCnt := c } := by
    rw [threads_setThread, hthreads₁, Function.update_self]
  have hentry₂ : ((s₁.setThread t { s₁.threads t with refCnt := c }).processes p).addressOfEntryPoint =
      (s.processes p).addressOfEntryPoint := hentry₁
  generalize s₁.setThread t { s₁.threads t with refCnt := c } = s₂ at *
  have hspace : (s₂.processes p).pagingData = (s.processes p).pagingData :=
    congrArg (fun r => r.pagingData) (hregion₂ (some p))
  obtain ⟨⟨start, s₃⟩, hstart, h⟩ := bind_eq_ok.mp h
  rw [threadSetupStart, hspace] at hstart
  cases start with
  | none => cases h
  | some start =>
    obtain ⟨startFunction, firstArg, secondArg⟩ := start
    obtain ⟨s₄, hinitial, h⟩ := bind_eq_ok.mp h
    obtain ⟨s₅, hready, h⟩ := bind_eq_ok.mp h
    cases h
    obtain ⟨hregion₄, huser, stack, first, hthread₄⟩ := threadSetupInitialState_ok hinitial
    obtain ⟨hregion₅, hthread₅⟩ := threadMakeReady_ok hready
    have hregion : ∀ q, s'.region q = s₃.region q := fun q => (hregion₅ q).trans (hregion₄ q)
    rw [hthread₄] at hthread₅
    by_cases hk : (s.processes p).pagingData.kernelSpace = true
    · rw [if_pos hk] at hstart ⊢
      cases hstart
      rw [hthread₂] at hthread₅
      rw [hthread₅, hregion, hregion₂]
      exact ⟨rfl, rfl, rfl, rfl, fun q _ => by rw [hregion, hregion₂], rfl, rfl⟩
    · rw [if_neg hk] at hstart ⊢
      obtain ⟨hreserved, hm', hthread₃, hothers⟩ := threadCreateUserStack_ok hstart
        (by rw [hregion₂]; exact hm)
      rw [hregion₂] at hreserved
      have hof : userStackOf s₂ p function = userStackOf s p function := by
        rw [userStackOf, userStackOf, hentry₂, hregion₂]
      rw [hthread₃] at huser
      rw [hthread₃, hthread₂] at hthread₅
      rw [hof] at huser hthread₅
      rw [hthread₅, hregion]
      refine ⟨rfl, rfl, rfl, rfl, fun q hq => ?_, rfl, ?_, hm', hreserved⟩
      · rw [hregion, hothers q hq, hregion₂]
      · exact huser (hspace ▸ eq_false_of_ne_true hk)

/-- Every thread that `ThreadCreateEx` makes. -/
theorem threadCreateEx_ok {req : CreateRequest} {t p : QWORD} (hp : req.process = some p)
    (h : threadCreateEx env s req = .ok (.success, some t, s'))
    (hkernel : Vmm.MetadataSound (s.region none).vaSpace)
    (huser : Vmm.MetadataSound (s.region (some p)).vaSpace) : Created s s' t p req.function := by
  unfold threadCreateEx at h
  cases hname : req.name with
  | none =>
    rw [hname] at h
    cases h
  | some name =>
    rw [hname] at h
    dsimp only at h
    by_cases hf : req.function = 0
    · rw [if_pos hf] at h
      cases h
    rw [if_neg hf] at h
    by_cases ht : req.thread = 0
    · rw [if_pos ht] at h
      cases h
    rw [if_neg ht, hp] at h
    obtain ⟨⟨st, t', s₁⟩, hinit, h⟩ := bind_eq_ok.mp h
    split at h
    · next t'' s₁ heq =>
      cases heq
      obtain ⟨hnonNull, hreserved, hsound, hprocesses, hbase, -, hsize, hnoUser⟩ :=
        threadInit_ok hkernel hinit
      have hspace : ∀ q, q ≠ none → (s₁.region q).vaSpace = (s.region q).vaSpace := by
        intro q hq
        cases q with
        | none => exact absurd rfl hq
        | some q => exact congrArg (fun f => (f q).vaSpace) hprocesses
      have hof : userStackOf s₁ p req.function = userStackOf s p req.function := by
        rw [userStackOf, userStackOf, hprocesses, hspace _ (by simp)]
      obtain ⟨rfl, hprocess, hbase', hsize', hothers, hstart⟩ :=
        threadCreateIn_ok h (by rw [hspace _ (by simp)]; exact huser)
      rw [hprocesses, hof, hspace _ (by simp)] at hstart
      have hnone := hothers none (by simp)
      have hreserved' : ∃ i, Vmm.Reserved (s.region none).vaSpace (s'.region none).vaSpace i
          s.vaSpace.freeVirtualAddressPointer 0xA000 := by
        rw [hnone]
        exact hreserved
      refine ⟨hprocess, hnonNull, hreserved', hnone ▸ hsound, hbase'.trans hbase,
        hsize'.trans hsize, fun q hq hqp => ?_, fun hk => ?_, fun hk => ?_⟩
      · by_cases heq : q = some p
        · rw [if_pos (hqp heq)] at hstart
          rw [heq, hstart.2]
        · rw [hothers q heq, hspace q hq]
      · rw [if_pos hk] at hstart
        exact hstart.1.trans hnoUser
      · rw [if_neg (by simp [hk])] at hstart
        exact hstart
    · cases h

end Stacks

/-- The kernel's reservation space, with 5 GiB of metadata before it. -/
def kernelSpace : VmmReservationSpace :=
  Vmm.vmReservationSpaceFinishInit ((Vmm.vmReservationSpaceInit 0xFFFF840000000000 0 0x140000000
    fun _ => 0).toOption.get (by decide))

/-- A user process that has no threads yet. -/
def freshProcess : Process :=
  ⟨1, 0, 0, [], ⟨0x200000, 16, 1, false⟩, Vmm.processSpace, 0x400000, 1, false⟩

/-- A system with an idle thread, and without free frames. -/
def freshSystem : ThreadSystem where
  heap := ((Heap.clHeapInit 0x10000 0x10000).toOption.get (by decide))
  threads := fun _ => Thread.zero
  processes := fun _ => freshProcess
  allThreadsList := []
  readyThreadsList := []
  idleThread := some 0x20000
  currentTid := 8
  pagingData := smallPool
  vaSpace := kernelSpace
  mem := emptyMemory
  frames := fun _ => 0xFF
  contents := fun _ _ => 0
  openFiles := []
  pagesToZero := []

def freshEnv : ThreadEnv := ⟨noFrames, 0x200, 0x180000000⟩

/-- A thread of a process that starts at `function`. -/
def threadAt (function : QWORD) : CreateRequest :=
  ⟨some [0x6D], 16, function, 0, 0x1000, some 0x30000⟩

/-- A process reserves a region, for the address 0 where the kernel chooses. -/
def reserveRegion (env : ThreadEnv) (s : ThreadSystem) (p address size : QWORD) :
    Except Fault (QWORD × ThreadSystem) := do
  let (address, r) ← vmmAllocRegionEx (s.regionEnv env) (s.region (some p))
    ⟨address, size, vmmAllocTypeReserve, stackAttributes⟩ none
  return (address, s.setRegion (some p) r)

end HAL9000.Creation
