import HAL9000.Thread.Creation

/-! What a failed `ThreadCreateEx` leaves behind. `_ThreadInit` gives a thread up through its destructor,
which unlinks it from a list that it is not in yet; behind `_ThreadInit` nothing is given up. -/
namespace HAL9000.Creation

open Paging
open Heap (WellFormed sizeofHeapEntry)

/-- Where `ThreadCreateEx` and `_ThreadInit` return an error. -/
inductive FailurePoint
  | parameters
  | threadAllocation
  | kernelStack
  | nameAllocation
  | userStack
  deriving DecidableEq, Repr

/-- The parameters that `ThreadCreateEx` and `_ThreadInit` accept. -/
structure Accepted (req : CreateRequest) (name : List BYTE) (p : QWORD) : Prop where
  name : req.name = some name
  function : req.function ≠ 0
  thread : req.thread ≠ 0
  process : req.process = some p
  priority : req.priority ≤ threadPriorityMaximum

section Failure

variable (env : ThreadEnv) (s : ThreadSystem) (req : CreateRequest)

/-- The creation gets to the point, and what it asks for there is refused. -/
inductive FailsAt : FailurePoint → Prop
  | parameters (h : req.name = none ∨ req.function = 0 ∨ req.thread = 0 ∨ req.process = none) :
      FailsAt .parameters
  | threadAllocation {name : List BYTE} {p : QWORD} {s₁ : ThreadSystem} (h : Accepted req name p)
      (hthread : exAllocatePoolWithTag s poolAllocateZeroMemory env.sizeofThread heapThreadTag 0 =
        .ok (0, s₁)) : FailsAt .threadAllocation
  | kernelStack {name : List BYTE} {p t : QWORD} {s₁ s₂ : ThreadSystem} (h : Accepted req name p)
      (hthread : exAllocatePoolWithTag s poolAllocateZeroMemory env.sizeofThread heapThreadTag 0 =
        .ok (t, s₁)) (ht : t ≠ 0)
      (hstack : mmuAllocStack env (newThread s₁ t) stackDefaultSize true false none = .ok (0, s₂)) :
      FailsAt .kernelStack
  | nameAllocation {name : List BYTE} {p t k : QWORD} {s₁ s₂ s₃ : ThreadSystem}
      (h : Accepted req name p)
      (hthread : exAllocatePoolWithTag s poolAllocateZeroMemory env.sizeofThread heapThreadTag 0 =
        .ok (t, s₁)) (ht : t ≠ 0)
      (hstack : mmuAllocStack env (newThread s₁ t) stackDefaultSize true false none = .ok (k, s₂))
      (hk : k ≠ 0)
      (hname : exAllocatePoolWithTag (withKernelStack s₂ t k) poolAllocateZeroMemory
        (BitVec.ofNat 32 name.length + 1) heapThreadTag 0 = .ok (0, s₃)) : FailsAt .nameAllocation
  | userStack {name : List BYTE} {p t : QWORD} {s₁ s₂ s₃ s₄ : ThreadSystem} (h : Accepted req name p)
      (hinit : threadInit env s name req.priority true = .ok (.success, some t, s₁))
      (hinsert : processInsertThreadInList s₁ p t = .ok s₂) (href : threadReference s₂ t = .ok s₃)
      (hspace : (s₃.processes p).pagingData.kernelSpace = false)
      (hstack : mmuAllocStack env s₃ stackDefaultSize true false (some p) = .ok (0, s₄)) :
      FailsAt .userStack

/-- The creation returns an error and no thread, and the lists, the processes with their counts and
reservations, the heap and the kernel's reservations are as before. -/
def FailsCleanly : Prop :=
  ∃ status s', threadCreateEx env s req = .ok (status, none, s') ∧ status ≠ .success ∧
    s'.allThreadsList = s.allThreadsList ∧ s'.processes = s.processes ∧ s'.heap = s.heap ∧
    s'.vaSpace = s.vaSpace

/-- The records of the threads in the list are on the heap. -/
def ThreadsLive : Prop :=
  ∀ t ∈ s.allThreadsList, ∃ e ∈ s.heap.heapAllocations, t = e.address + sizeofHeapEntry

end Failure

section Abandon

variable {env : ThreadEnv} {s s' : ThreadSystem} {req : CreateRequest} {t : QWORD}

/-- A heap that has no room is as before; else the new pointer is no thread of the list. -/
theorem exAllocatePoolWithTag_spec (hw : WellFormed s.heap) (hlive : ThreadsLive s)
    {flags size : DWORD} (h : exAllocatePoolWithTag s flags size heapThreadTag 0 = .ok (t, s')) :
    (t = 0 → s' = s) ∧ (t ≠ 0 → t ∉ s.allThreadsList) := by
  obtain ⟨⟨heap, p⟩, halloc, h⟩ := bind_eq_ok.mp h
  cases h
  have hvalid : Heap.Request.Valid ⟨flags, size, heapThreadTag, 0⟩ :=
    ⟨show heapThreadTag ≠ 0 by decide, Or.inl rfl⟩
  rcases Heap.clHeapAllocatePoolWithTag_spec hw hvalid halloc with ⟨rfl, rfl⟩ | ⟨e, l₁, l₂, ha⟩
  · exact ⟨fun _ => rfl, fun hne => absurd rfl hne⟩
  · refine ⟨fun h0 => absurd h0 ha.nonNull, fun _ hmem => ?_⟩
    obtain ⟨e', he', heq⟩ := hlive _ hmem
    have hdistinct := ha.wellFormed.distinct
    rw [ha.after] at hdistinct
    have haddress : e'.address = e.address := by
      rw [ha.pointer] at heq
      exact (BitVec.add_left_inj _).mp heq.symm
    rw [ha.before, List.mem_append] at he'
    rcases he' with hmem | hmem
    · exact hdistinct.ne_left hmem haddress
    · exact hdistinct.ne_right hmem haddress

theorem exAllocatePoolWithTag_keeps {flags size tag alignment : DWORD}
    (h : exAllocatePoolWithTag s flags size tag alignment = .ok (t, s')) :
    s'.allThreadsList = s.allThreadsList ∧ s'.threads = s.threads := by
  obtain ⟨⟨heap, p⟩, -, h⟩ := bind_eq_ok.mp h
  cases h
  exact ⟨rfl, rfl⟩

/-- Also a failed stack allocation changes one address space only. -/
theorem mmuAllocStack_setRegion {stackSize : DWORD} {protectStack lazyMap : Bool}
    {process : Option QWORD} {a : QWORD}
    (h : mmuAllocStack env s stackSize protectStack lazyMap process = .ok (a, s')) :
    ∃ r, s' = s.setRegion process r := by
  obtain ⟨_, -, h⟩ := bind_eq_ok.mp h
  obtain ⟨⟨base, r₁⟩, -, h⟩ := bind_eq_ok.mp h
  dsimp only at h
  by_cases hbase : base = 0
  · rw [if_pos hbase] at h
    cases h
    exact ⟨r₁, rfl⟩
  rw [if_neg hbase] at h
  obtain ⟨⟨commited, r₂⟩, -, h⟩ := bind_eq_ok.mp h
  dsimp only at h
  rw [setRegion_setRegion] at h
  by_cases hcommited : commited = 0
  · rw [if_pos hcommited] at h
    cases h
    exact ⟨r₂, rfl⟩
  · rw [if_neg hcommited] at h
    obtain ⟨-, rfl⟩ := Prod.mk.inj (Except.ok.inj h)
    exact ⟨r₂, rfl⟩

@[simp] theorem allThreadsList_setRegion (process : Option QWORD) (r : RegionState) :
    (s.setRegion process r).allThreadsList = s.allThreadsList := by
  cases process <;> rfl

/-- Giving up a thread that is in no list follows its null links. -/
theorem abandonThread_fault {status : Status} (hlist : t ∉ s.allThreadsList)
    (hcnt : (s.threads t).refCnt = rfcInit) :
    abandonThread env s t status = .error .danglingAccess := by
  have hderef : rfcDereference (s.threads t).refCnt = .ok 0 := by
    rw [hcnt]
    rfl
  unfold abandonThread threadDereference
  rw [hderef]
  show (threadDestroy env _ t >>= _) = _
  unfold threadDestroy removeEntryList
  rw [if_neg (show t ∉ (s.setThread t { s.threads t with refCnt := 0 }).allThreadsList from hlist)]
  rfl

variable {name : List BYTE} {p k : QWORD} {s₁ s₂ s₃ : ThreadSystem}

/-- `ThreadCreateEx` with parameters that it accepts. -/
theorem threadCreateEx_of_accepted (h : Accepted req name p) :
    threadCreateEx env s req = (do
      match ← threadInit env s name req.priority true with
      | (.success, some t, s) => threadCreateIn env s t p req.function req.context
      | (status, _, s) => return (status, none, s)) := by
  unfold threadCreateEx
  rw [h.name]
  dsimp only
  rw [if_neg h.function, if_neg h.thread]
  exact h.process ▸ rfl

/-- `_ThreadInit` with a record for the thread. -/
theorem threadInit_of_thread (h : Accepted req name p)
    (hthread : exAllocatePoolWithTag s poolAllocateZeroMemory env.sizeofThread heapThreadTag 0 =
      .ok (t, s₁)) (ht : t ≠ 0)
    (hstack : mmuAllocStack env (newThread s₁ t) stackDefaultSize true false none = .ok (k, s₂)) :
    threadInit env s name req.priority true =
      if k = 0 then abandonThread env s₂ t .memoryCannotBeCommited
      else threadInitName env (withKernelStack s₂ t k) t name req.priority := by
  unfold threadInit
  rw [assertThat_of h.priority]
  simp only [bind, Except.bind, hthread, if_neg ht, if_true, hstack]

/-- A new thread is in no list while it gets its stack. -/
private theorem newThread_unlisted {stackSize : DWORD} {a : QWORD} (hw : WellFormed s.heap)
    (hlive : ThreadsLive s)
    (hthread : exAllocatePoolWithTag s poolAllocateZeroMemory env.sizeofThread heapThreadTag 0 =
      .ok (t, s₁)) (ht : t ≠ 0)
    (hstack : mmuAllocStack env (newThread s₁ t) stackSize true false none = .ok (a, s₂)) :
    t ∉ s₂.allThreadsList ∧ (s₂.threads t).refCnt = rfcInit := by
  obtain ⟨hlist, -⟩ := exAllocatePoolWithTag_keeps hthread
  obtain ⟨r, rfl⟩ := mmuAllocStack_setRegion hstack
  constructor
  · rw [allThreadsList_setRegion]
    show t ∉ s₁.allThreadsList
    rw [hlist]
    exact (exAllocatePoolWithTag_spec hw hlive hthread).2 ht
  · rw [threads_setRegion, newThread, threads_setThread]

/-- Without memory for the kernel stack or the name, a list entry is unlinked that was never
inserted. -/
theorem failsAt_fault (hw : WellFormed s.heap) (hlive : ThreadsLive s) {point : FailurePoint}
    (h : FailsAt env s req point) (hpoint : point = .kernelStack ∨ point = .nameAllocation) :
    threadCreateEx env s req = .error .danglingAccess := by
  have hfault : ∀ {name p}, Accepted req name p →
      threadInit env s name req.priority true = .error .danglingAccess →
      threadCreateEx env s req = .error .danglingAccess := by
    intro name p h hinit
    rw [threadCreateEx_of_accepted h, hinit]
    rfl
  cases h with
  | parameters => simp at hpoint
  | threadAllocation => simp at hpoint
  | userStack => simp at hpoint
  | kernelStack h hthread ht hstack =>
    obtain ⟨hlist, hcnt⟩ := newThread_unlisted hw hlive hthread ht hstack
    refine hfault h ?_
    rw [threadInit_of_thread h hthread ht hstack, if_pos rfl]
    exact abandonThread_fault hlist hcnt
  | nameAllocation h hthread ht hstack hk hname =>
    obtain ⟨hlist, hcnt⟩ := newThread_unlisted hw hlive hthread ht hstack
    obtain ⟨hlist', hthreads'⟩ := exAllocatePoolWithTag_keeps hname
    refine hfault h ?_
    rw [threadInit_of_thread h hthread ht hstack, if_neg hk, threadInitName]
    simp only [bind, Except.bind, hname, if_true]
    refine abandonThread_fault ?_ ?_
    · rw [hlist']
      exact hlist
    · rw [hthreads', withKernelStack, threads_setThread]
      exact hcnt

private theorem threadInit_listed {priority : DWORD}
    (h : threadInit env s name priority true = .ok (.success, some t, s')) :
    s'.allThreadsList = s.allThreadsList ++ [t] := by
  obtain ⟨s₁, k, s₂, pName, s₃, hthread, hstack, -, hname, rfl⟩ := threadInit_success h
  obtain ⟨r, rfl⟩ := mmuAllocStack_setRegion hstack
  show s₃.allThreadsList ++ [t] = _
  rw [(exAllocatePoolWithTag_keeps hname).1]
  show (((newThread s₁ t).setRegion none r).allThreadsList) ++ [t] = _
  rw [allThreadsList_setRegion]
  show s₁.allThreadsList ++ [t] = _
  rw [(exAllocatePoolWithTag_keeps hthread).1]

/-- A process whose new thread gets no user stack keeps the thread. -/
theorem failsAt_userStack (h : FailsAt env s req .userStack) :
    ∃ t s', threadCreateEx env s req = .ok (.memoryCannotBeCommited, none, s') ∧
      s'.allThreadsList = s.allThreadsList ++ [t] := by
  cases h with
  | @userStack name p t s₁ s₂ s₃ s₄ h hinit hinsert href hspace hstack =>
    refine ⟨t, s₄.setThread t { s₄.threads t with userStack := 0 }, ?_, ?_⟩
    · rw [threadCreateEx_of_accepted h, hinit]
      show threadCreateIn env s₁ t p req.function req.context = _
      unfold threadCreateIn threadSetupStart threadCreateUserStack
      simp only [bind, Except.bind, hinsert, href, hspace, hstack]
      rfl
    · have hlist := threadInit_listed hinit
      obtain ⟨r, rfl⟩ := mmuAllocStack_setRegion hstack
      obtain ⟨_, -, href⟩ := bind_eq_ok.mp href
      cases href
      obtain ⟨_, -, hinsert⟩ := bind_eq_ok.mp hinsert
      obtain ⟨_, -, hinsert⟩ := bind_eq_ok.mp hinsert
      obtain ⟨_, -, hinsert⟩ := bind_eq_ok.mp hinsert
      cases hinsert
      exact (allThreadsList_setRegion (some p) r).trans hlist

theorem failsAt_parameters (h : FailsAt env s req .parameters) : FailsCleanly env s req := by
  have hreturns : ∃ status, threadCreateEx env s req = .ok (status, none, s) ∧ status ≠ .success := by
    cases h with
    | parameters h =>
      unfold threadCreateEx
      cases hname : req.name with
      | none => exact ⟨_, rfl, by decide⟩
      | some name =>
        dsimp only
        by_cases hf : req.function = 0
        · exact ⟨_, if_pos hf, by decide⟩
        rw [if_neg hf]
        by_cases ht : req.thread = 0
        · exact ⟨_, if_pos ht, by decide⟩
        rw [if_neg ht]
        cases hp : req.process with
        | none => exact ⟨_, rfl, by decide⟩
        | some p =>
          rcases h with h | h | h | h
          · rw [hname] at h
            cases h
          · exact absurd h hf
          · exact absurd h ht
          · rw [hp] at h
            cases h
  obtain ⟨status, hok, hne⟩ := hreturns
  exact ⟨status, s, hok, hne, rfl, rfl, rfl, rfl⟩

theorem failsAt_threadAllocation (hw : WellFormed s.heap) (hlive : ThreadsLive s)
    (h : FailsAt env s req .threadAllocation) : FailsCleanly env s req := by
  cases h with
  | threadAllocation h hthread =>
    obtain rfl := (exAllocatePoolWithTag_spec hw hlive hthread).1 rfl
    refine ⟨.heapInsufficientResources, _, ?_, by decide, rfl, rfl, rfl, rfl⟩
    rw [threadCreateEx_of_accepted h]
    unfold threadInit
    rw [assertThat_of h.priority]
    simp only [bind, Except.bind, hthread, if_true]
    rfl

/-- What `_ThreadInit` returns if it returns no thread comes from one of its points. -/
private theorem failsAt_of_threadInit {status : Status} {t' : Option QWORD}
    (haccepted : req.priority ≤ threadPriorityMaximum → Accepted req name p)
    (h : threadInit env s name req.priority true = .ok (status, t', s')) :
    (∃ point, FailsAt env s req point) ∨ status = .success ∧ ∃ t, t' = some t := by
  obtain ⟨_, hpriority, h⟩ := bind_eq_ok.mp h
  have ha := haccepted (assertThat_eq_ok.mp hpriority)
  obtain ⟨⟨t, s₁⟩, hthread, h⟩ := bind_eq_ok.mp h
  dsimp only at h
  by_cases ht : t = 0
  · exact Or.inl ⟨_, .threadAllocation ha (ht ▸ hthread)⟩
  rw [if_neg ht, if_pos rfl] at h
  obtain ⟨⟨k, s₂⟩, hstack, h⟩ := bind_eq_ok.mp h
  dsimp only at h
  by_cases hk : k = 0
  · exact Or.inl ⟨_, .kernelStack ha hthread ht (hk ▸ hstack)⟩
  rw [if_neg hk] at h
  obtain ⟨⟨pName, s₃⟩, hname, h⟩ := bind_eq_ok.mp h
  dsimp only at h
  by_cases hpName : pName = 0
  · exact Or.inl ⟨_, .nameAllocation ha hthread ht hstack hk (hpName ▸ hname)⟩
  rw [if_neg hpName] at h
  cases h
  exact Or.inr ⟨rfl, t, rfl⟩

private theorem failsAt_of_threadCreateIn {status : Status} {function context : QWORD}
    (ha : Accepted req name p)
    (hinit : threadInit env s name req.priority true = .ok (.success, some t, s₁))
    (h : threadCreateIn env s₁ t p function context = .ok (status, none, s')) :
    FailsAt env s req .userStack := by
  obtain ⟨s₂, hinsert, h⟩ := bind_eq_ok.mp h
  obtain ⟨s₃, href, h⟩ := bind_eq_ok.mp h
  obtain ⟨⟨start, s₄⟩, hstart, h⟩ := bind_eq_ok.mp h
  cases start with
  | some start =>
    obtain ⟨_, -, h⟩ := bind_eq_ok.mp h
    obtain ⟨_, -, h⟩ := bind_eq_ok.mp h
    cases h
  | none =>
    unfold threadSetupStart at hstart
    split_ifs at hstart with hspace
    · cases hstart
    · obtain ⟨⟨u, s₅⟩, hstack, hstart⟩ := bind_eq_ok.mp hstart
      dsimp only at hstart
      by_cases hu : u = 0
      · exact .userStack ha hinit hinsert href (eq_false_of_ne_true hspace) (hu ▸ hstack)
      rw [if_neg hu] at hstart
      split_ifs at hstart
      · obtain ⟨_, -, hstart⟩ := bind_eq_ok.mp hstart
        obtain ⟨_, -, hstart⟩ := bind_eq_ok.mp hstart
        cases hstart
      · cases hstart

/-- Every error that `ThreadCreateEx` returns comes from one of the points. -/
theorem failsAt_of_returned {status : Status}
    (h : threadCreateEx env s req = .ok (status, none, s')) : ∃ point, FailsAt env s req point := by
  unfold threadCreateEx at h
  cases hname : req.name with
  | none => exact ⟨_, .parameters (Or.inl hname)⟩
  | some name =>
    rw [hname] at h
    dsimp only at h
    by_cases hf : req.function = 0
    · exact ⟨_, .parameters (Or.inr (Or.inl hf))⟩
    rw [if_neg hf] at h
    by_cases ht : req.thread = 0
    · exact ⟨_, .parameters (Or.inr (Or.inr (Or.inl ht)))⟩
    rw [if_neg ht] at h
    cases hp : req.process with
    | none => exact ⟨_, .parameters (Or.inr (Or.inr (Or.inr hp)))⟩
    | some p =>
      rw [hp] at h
      obtain ⟨⟨st, t', s₁⟩, hinit, h⟩ := bind_eq_ok.mp h
      have haccepted := fun hpriority => Accepted.mk hname hf ht hp hpriority
      rcases failsAt_of_threadInit haccepted hinit with hfails | ⟨rfl, t, rfl⟩
      · exact hfails
      · obtain ⟨_, hpriority, -⟩ := bind_eq_ok.mp hinit
        exact ⟨_, failsAt_of_threadCreateIn (haccepted (assertThat_eq_ok.mp hpriority)) hinit h⟩

/-- A creation fails cleanly exactly where nothing has been taken yet. -/
theorem failsCleanly_iff (hw : WellFormed s.heap) (hlive : ThreadsLive s) {point : FailurePoint}
    (h : FailsAt env s req point) :
    FailsCleanly env s req ↔ point = .parameters ∨ point = .threadAllocation := by
  cases point with
  | parameters => exact iff_of_true (failsAt_parameters h) (Or.inl rfl)
  | threadAllocation => exact iff_of_true (failsAt_threadAllocation hw hlive h) (Or.inr rfl)
  | kernelStack =>
    refine iff_of_false ?_ (by simp)
    rintro ⟨status, s', hok, -⟩
    rw [failsAt_fault hw hlive h (Or.inl rfl)] at hok
    cases hok
  | nameAllocation =>
    refine iff_of_false ?_ (by simp)
    rintro ⟨status, s', hok, -⟩
    rw [failsAt_fault hw hlive h (Or.inr rfl)] at hok
    cases hok
  | userStack =>
    refine iff_of_false ?_ (by simp)
    rintro ⟨status, s', hok, -, hlist, -⟩
    obtain ⟨t, s'', hok', hlist'⟩ := failsAt_userStack h
    rw [hok'] at hok
    cases hok
    rw [hlist'] at hlist
    simp at hlist

end Abandon

/-- A system after an allocation from its heap. -/
def afterAllocation (size : DWORD) : ThreadSystem :=
  { freshSystem with
    heap := ((Heap.clHeapAllocatePoolWithTag freshSystem.heap ⟨0, size, 1, 0⟩).toOption.getD
      (freshSystem.heap, 0)).1 }

/-- A thread with a name of 80 characters. -/
def longName : CreateRequest := { threadAt 0x400000 with name := some (List.replicate 80 0x6D) }

/-- A process that reserved the range which its next stack would get keeps a thread that it was not
given; a heap without room for the name makes the destructor unlink a thread that is in no list. -/
theorem creation_not_clean :
    (∃ s s', reserveRegion freshEnv freshSystem 0x30000 0x140000000 0xA000 = .ok (0x140000000, s) ∧
      threadCreateEx freshEnv s (threadAt 0x400000) = .ok (.memoryCannotBeCommited, none, s') ∧
      s'.allThreadsList ≠ s.allThreadsList ∧ (s.processes 0x30000).numberOfThreads = 0 ∧
      (s'.processes 0x30000).numberOfThreads = 1 ∧ ¬ FailsCleanly freshEnv s (threadAt 0x400000)) ∧
    FailsAt freshEnv (afterAllocation 0xFD00) longName .nameAllocation ∧
    threadCreateEx freshEnv (afterAllocation 0xFD00) longName = .error .danglingAccess := by
  refine ⟨⟨_, _, rfl, rfl, by decide, rfl, rfl, ?_⟩, ?_, rfl⟩
  · rintro ⟨status, s', hok, -, hlist, -⟩
    cases hok
    cases hlist
  · exact .nameAllocation ⟨rfl, by decide, by decide, rfl, by decide⟩ rfl (by decide) rfl (by decide) rfl

/-- Without memory for the thread itself nothing has changed. -/
theorem creation_clean_withoutMemory :
    FailsCleanly freshEnv (afterAllocation 0xFE00) (threadAt 0x400000) := by
  have hinit : WellFormed freshSystem.heap := by
    refine @Heap.wellFormed_of_init 0x10000 0x10000 _ rfl ?_ ?_ <;> decide
  have hw : WellFormed (afterAllocation 0xFE00).heap := by
    have hcall : ∃ p, Heap.clHeapAllocatePoolWithTag freshSystem.heap ⟨0, 0xFE00, 1, 0⟩ =
        .ok ((afterAllocation 0xFE00).heap, p) := ⟨_, rfl⟩
    obtain ⟨p, hcall⟩ := hcall
    rcases Heap.clHeapAllocatePoolWithTag_spec hinit ⟨by decide, Or.inl rfl⟩ hcall with
      ⟨-, heq⟩ | ⟨_, _, _, ha⟩
    · rw [heq]
      exact hinit
    · exact ha.wellFormed
  have hlive : ThreadsLive (afterAllocation 0xFE00) := fun t ht => absurd ht List.not_mem_nil
  exact (failsCleanly_iff hw hlive (.threadAllocation ⟨rfl, by decide, by decide, rfl, by decide⟩
    rfl)).mpr (Or.inr rfl)

end HAL9000.Creation
