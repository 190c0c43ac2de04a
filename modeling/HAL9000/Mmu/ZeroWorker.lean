import HAL9000.Sync.ExEvent

/-! Frames released by `MmuReleaseMemory` and the thread that zeroes them. Each operation on
`NewPagesEvent` and each critical section of `PagesLock` is one step. -/
namespace HAL9000.Mmu

open Run Sync

/-- `ExEventSignal` as one operation; the threads it unblocks are returned. -/
def exEventSignal (e : ExEvent) : ExEvent × List Tid :=
  match e.eventType with
  | .notification => ({ e with signaled := true, waitingList := [] }, e.waitingList)
  | .synchronization =>
    ({ e with signaled := true, waitingList := e.waitingList.drop 1 }, e.waitingList.take 1)

/-- The part of `ExEventWaitForSignal` up to `ThreadBlock`: whether `t` goes on at once. -/
def exEventWaitForSignal (t : Tid) (e : ExEvent) : ExEvent × Bool :=
  let (e', old) := compareExchangeSignaled e
  if old then (e', true) else ({ e' with waitingList := e'.waitingList ++ [t] }, false)

structure MmuZeroWorkerItem where
  physicalAddress : QWORD
  numberOfFrames : DWORD
  deriving DecidableEq, Repr

/-- Where the worker stands in the loop of `_MmuZeroWorkerThreadFunction`. -/
inductive WorkerPc
  | wait
  | blocked
  | woken
  | dequeue
  | clear
  | zero (item : MmuZeroWorkerItem)
  deriving DecidableEq, Repr

/-- Where a thread stands in `MmuReleaseMemory`. -/
inductive ReleasePc
  | idle
  | enqueue (item : MmuZeroWorkerItem)
  | signal
  deriving DecidableEq, Repr

/-- The zero thread's data; `pmmReleased` lists what was given back to the frame allocator. -/
structure ZeroThreadState where
  newPagesEvent : ExEvent
  pagesToZeroList : List MmuZeroWorkerItem
  pmmReleased : List MmuZeroWorkerItem
  workerThread : Tid
  worker : WorkerPc
  releaser : Tid → ReleasePc

inductive ZeroThreadAction
  | release (t : Tid) (physicalAddr : QWORD) (noOfFrames : DWORD)
  | releaser (t : Tid)
  | worker
  deriving DecidableEq, Repr

/-- One step of the worker. -/
def mmuZeroWorkerStep (s : ZeroThreadState) : Option ZeroThreadState :=
  match s.worker with
  | .wait =>
    let (e, signaled) := exEventWaitForSignal s.workerThread s.newPagesEvent
    some { s with newPagesEvent := e, worker := if signaled then .dequeue else .blocked }
  | .blocked => none
  | .woken =>
    some { s with
      worker := if s.newPagesEvent.eventType = .notification then .dequeue else .wait }
  | .dequeue =>
    match s.pagesToZeroList with
    | [] => some { s with worker := .clear }
    | item :: rest => some { s with pagesToZeroList := rest, worker := .zero item }
  | .clear => some { s with newPagesEvent := exEventClearSignal s.newPagesEvent, worker := .wait }
  | .zero item => some { s with pmmReleased := s.pmmReleased ++ [item], worker := .wait }

/-- One step of `MmuReleaseMemory` after its arguments were checked. -/
def mmuReleaseMemoryStep (s : ZeroThreadState) (t : Tid) : Option ZeroThreadState :=
  match s.releaser t with
  | .idle => none
  | .enqueue item =>
    some { s with pagesToZeroList := s.pagesToZeroList ++ [item],
                  releaser := Function.update s.releaser t .signal }
  | .signal =>
    let (e, unblocked) := exEventSignal s.newPagesEvent
    some { s with newPagesEvent := e,
                  worker := if s.workerThread ∈ unblocked then .woken else s.worker,
                  releaser := Function.update s.releaser t .idle }

def nextZeroThread (s : ZeroThreadState) : ZeroThreadAction → Option ZeroThreadState
  | .release t physicalAddr noOfFrames =>
    if s.releaser t = .idle ∧ isAddressAligned physicalAddr pageSize ∧ noOfFrames ≠ 0 then
      some { s with releaser := Function.update s.releaser t (.enqueue ⟨physicalAddr, noOfFrames⟩) }
    else none
  | .releaser t => mmuReleaseMemoryStep s t
  | .worker => mmuZeroWorkerStep s

/-- `NewPagesEvent` as `MmuInitSystem` sets it up. -/
def zeroThreadStart (workerThread : Tid) : ZeroThreadState :=
  ⟨exEventInit .notification false, [], [], workerThread, .wait, fun _ => .idle⟩

/-- Some `MmuReleaseMemory` is between its enqueue and its signal. -/
def ZeroThreadState.Pending (s : ZeroThreadState) : Prop := ∃ t, s.releaser t = .signal

/-- No frame waits while the worker is blocked and nobody is about to signal it. -/
def NoStrandedFrame (s : ZeroThreadState) : Prop :=
  s.worker = .blocked → ¬ s.Pending → s.pagesToZeroList = []

/-- The worker clears the event only if the list it found empty still is, or if a releaser
is about to signal. -/
def ClearsEmpty (s : ZeroThreadState) : ZeroThreadAction → Prop
  | .worker => s.worker = .clear → s.pagesToZeroList = [] ∨ s.Pending
  | _ => True

/-- Queued frames are announced, by the event or by a releaser that will set it. -/
structure ZeroThreadInv (s : ZeroThreadState) : Prop where
  notification : s.newPagesEvent.eventType = .notification
  waiting : s.worker = .blocked → s.workerThread ∈ s.newPagesEvent.waitingList
  announced : s.pagesToZeroList ≠ [] →
    s.Pending ∨ (s.newPagesEvent.signaled = true ∧ s.worker ≠ .blocked)

theorem zeroThreadStart_inv (w : Tid) : ZeroThreadInv (zeroThreadStart w) := by
  refine ⟨rfl, ?_, ?_⟩
  · intro h
    cases h
  · intro h
    exact absurd rfl h

variable {s s' : ZeroThreadState}

theorem mmuZeroWorkerStep_inv (hi : ZeroThreadInv s) (hq : ClearsEmpty s .worker)
    (h : mmuZeroWorkerStep s = some s') : ZeroThreadInv s' := by
  obtain ⟨hn, hw, ha⟩ := hi
  cases hpc : s.worker with
  | wait =>
    cases hs : s.newPagesEvent.signaled with
    | false =>
      simp only [mmuZeroWorkerStep, hpc, exEventWaitForSignal, compareExchangeSignaled, hs] at h
      cases h
      refine ⟨hn, fun _ => by simp, fun hne => ?_⟩
      rcases ha hne with hp | ⟨hsig, -⟩
      · exact Or.inl hp
      · rw [hs] at hsig
        cases hsig
    | true =>
      simp only [mmuZeroWorkerStep, hpc, exEventWaitForSignal, compareExchangeSignaled, hs, hn] at h
      cases h
      refine ⟨rfl, (by rintro ⟨⟩), fun _ => Or.inr ⟨rfl, (by rintro ⟨⟩)⟩⟩
  | blocked => simp [mmuZeroWorkerStep, hpc] at h
  | woken =>
    simp only [mmuZeroWorkerStep, hpc, hn] at h
    cases h
    refine ⟨hn, (by rintro ⟨⟩), fun hne => ?_⟩
    rcases ha hne with hp | ⟨hs, -⟩
    · exact Or.inl hp
    · exact Or.inr ⟨hs, (by rintro ⟨⟩)⟩
  | dequeue =>
    cases hl : s.pagesToZeroList with
    | nil =>
      simp only [mmuZeroWorkerStep, hpc, hl] at h
      cases h
      exact ⟨hn, (by rintro ⟨⟩), fun hne => absurd rfl hne⟩
    | cons item rest =>
      simp only [mmuZeroWorkerStep, hpc, hl] at h
      cases h
      refine ⟨hn, (by rintro ⟨⟩), fun _ => ?_⟩
      rcases ha (by simp [hl]) with hp | ⟨hs, -⟩
      · exact Or.inl hp
      · exact Or.inr ⟨hs, (by rintro ⟨⟩)⟩
  | clear =>
    simp only [mmuZeroWorkerStep, hpc] at h
    cases h
    refine ⟨hn, (by rintro ⟨⟩), fun hne => ?_⟩
    rcases hq hpc with hl | hp
    · exact absurd hl hne
    · exact Or.inl hp
  | zero item =>
    simp only [mmuZeroWorkerStep, hpc] at h
    cases h
    refine ⟨hn, (by rintro ⟨⟩), fun hne => ?_⟩
    rcases ha hne with hp | ⟨hs, -⟩
    · exact Or.inl hp
    · exact Or.inr ⟨hs, (by rintro ⟨⟩)⟩

theorem mmuReleaseMemoryStep_inv {t : Tid} (hi : ZeroThreadInv s)
    (h : mmuReleaseMemoryStep s t = some s') : ZeroThreadInv s' := by
  obtain ⟨hn, hw, ha⟩ := hi
  cases hpc : s.releaser t with
  | idle => simp [mmuReleaseMemoryStep, hpc] at h
  | enqueue item =>
    simp only [mmuReleaseMemoryStep, hpc] at h
    cases h
    exact ⟨hn, hw, fun _ => Or.inl ⟨t, Function.update_self ..⟩⟩
  | signal =>
    simp only [mmuReleaseMemoryStep, hpc, exEventSignal, hn] at h
    cases h
    have hawake : (if s.workerThread ∈ s.newPagesEvent.waitingList then WorkerPc.woken
        else s.worker) ≠ .blocked := by
      split_ifs with hm
      · nofun
      · exact fun hb => hm (hw hb)
    exact ⟨rfl, fun hb => absurd hb hawake, fun _ => Or.inr ⟨rfl, hawake⟩⟩

theorem nextZeroThread_inv {a : ZeroThreadAction} (hi : ZeroThreadInv s) (hq : ClearsEmpty s a)
    (h : nextZeroThread s a = some s') : ZeroThreadInv s' := by
  cases a with
  | release t physicalAddr noOfFrames =>
    simp only [nextZeroThread] at h
    split_ifs at h with hidle
    cases h
    refine ⟨hi.notification, hi.waiting, fun hne => ?_⟩
    rcases hi.announced hne with ⟨u, hu⟩ | hs
    · refine Or.inl ⟨u, ?_⟩
      have hut : u ≠ t := by
        intro hut
        rw [hut, hidle.1] at hu
        cases hu
      exact (Function.update_of_ne hut ..).trans hu
    · exact Or.inr hs
  | releaser t => exact mmuReleaseMemoryStep_inv hi h
  | worker => exact mmuZeroWorkerStep_inv hi hq h

theorem ZeroThreadInv.noStrandedFrame (hi : ZeroThreadInv s) : NoStrandedFrame s := by
  intro hb hp
  by_contra hne
  rcases hi.announced hne with hpending | ⟨-, hawake⟩
  · exact hp hpending
  · exact hawake hb

/-- No frame is ever stranded in a run whose worker never clears the event over a frame that
nobody is about to announce. -/
theorem always_noStrandedFrame {w : Tid} {tr : List (ZeroThreadState × ZeroThreadAction)}
    (h : Exec (fun s a s' => nextZeroThread s a = some s') (zeroThreadStart w) tr s)
    (hq : ∀ v ∈ tr, ClearsEmpty v.1 v.2) : Always NoStrandedFrame tr s := by
  have hinv := h.always_of_steps (zeroThreadStart_inv w)
    (fun s a s' hi hq hs => nextZeroThread_inv hi hq hs) hq
  exact hinv.mono fun s hi => hi.noStrandedFrame

/-- A frame is released, zeroed and given back; the worker finds the list empty, clears the
event and blocks, and a second release wakes it. -/
def releaseTwice : List ZeroThreadAction :=
  [.worker, .release 1 0x5000 1, .releaser 1, .releaser 1, .worker, .worker, .worker, .worker,
    .worker, .worker, .worker, .release 1 0x6000 2, .releaser 1, .releaser 1, .worker, .worker]

theorem releaseTwice_not_stranded :
    ∃ h : (exec nextZeroThread (zeroThreadStart 7) releaseTwice).isSome,
      Always NoStrandedFrame ((exec nextZeroThread (zeroThreadStart 7) releaseTwice).get h).1
        ((exec nextZeroThread (zeroThreadStart 7) releaseTwice).get h).2 := by
  have hempty : ∀ v ∈ ((exec nextZeroThread (zeroThreadStart 7) releaseTwice).get (by decide)).1,
      v.1.worker = .clear → v.1.pagesToZeroList = [] := by
    decide
  refine ⟨by decide, always_noStrandedFrame (exec_get (by decide)) ?_⟩
  intro v hv
  obtain ⟨s, a⟩ := v
  cases a with
  | worker => exact fun hpc => Or.inl (hempty _ hv hpc)
  | _ => trivial

/-- A frame is released after the worker has found the list empty and before it clears the
event. -/
def releaseBeforeClear : List ZeroThreadAction :=
  [.release 1 0x5000 1, .releaser 1, .releaser 1, .worker, .worker, .worker, .worker, .worker,
    .release 1 0x6000 2, .releaser 1, .releaser 1, .worker, .worker]

private theorem releaseBeforeClear_runs :
    (exec nextZeroThread (zeroThreadStart 7) releaseBeforeClear).isSome := by
  decide

theorem frame_stranded : ∃ tr s,
    Exec (fun s a s' => nextZeroThread s a = some s') (zeroThreadStart 7) tr s ∧
      s.pagesToZeroList = [⟨0x6000, 2⟩] ∧ ¬ NoStrandedFrame s := by
  refine ⟨_, _, exec_get releaseBeforeClear_runs, by decide, fun hs => ?_⟩
  have hidle : ∀ t, ((exec nextZeroThread (zeroThreadStart 7) releaseBeforeClear).get
      releaseBeforeClear_runs).2.releaser t ≠ .signal
    | 0 => nofun
    | 1 => nofun
    | _ + 2 => nofun
  have hempty := hs rfl fun hp => hp.elim hidle
  cases hempty

end HAL9000.Mmu
