import HAL9000.CommonLib.RefCount
import HAL9000.Thread.SchedulerRuns

/-! The life of threads: the scheduler with reference counts and handles. A thread has one
reference for the scheduler, which the CPU that switches away from it for the last time drops,
and one for the handle that `ThreadCreateEx` returns. -/
namespace HAL9000.Thread

open Run

/-- The handle of a thread: not there, not returned yet, open, or closed. The main thread of a
CPU has none to close. -/
inductive HandleState
  | absent
  | pending
  | opened
  | closed
  deriving DecidableEq, Repr

def HandleState.holds : HandleState → Bool
  | .pending | .opened => true
  | _ => false

/-- `dropped` counts how often the reference of the scheduler was dropped, `destroyed` the calls
of `_ThreadDestroy`. -/
structure LifeState extends SchedState where
  refCnt : Tid → DWORD
  handle : Tid → HandleState
  dropped : Tid → ℕ
  destroyed : Tid → ℕ

inductive LifeAction
  | sched (action : SchedAction)
  | closeHandle (t : Tid)
  deriving DecidableEq, Repr

/-- The previous thread that `ThreadCleanupPostSchedule` finds dying and dereferences. -/
def SchedState.dereferences (s : SchedState) (c : Cpu) : Option Tid :=
  match s.pc c, s.previousThread c with
  | .cleanupPrevious, some t =>
    if s.blockLock t ≠ some c ∧ s.state t = .dying then some t else none
  | _, _ => none

namespace LifeState

/-- `_ThreadDereference`, with `_ThreadDestroy` when the count gets to 0. -/
def threadDereference (s : LifeState) (t : Tid) : Option LifeState :=
  match rfcDereference (s.refCnt t) with
  | .error _ => none
  | .ok newRefCount =>
    some { s with
      refCnt := Function.update s.refCnt t newRefCount
      destroyed := if newRefCount = 0 then Function.update s.destroyed t (s.destroyed t + 1)
        else s.destroyed }

/-- A new thread with its first reference. -/
def threadInitRef (s : LifeState) (t : Tid) (refCnt : DWORD) (handle : HandleState) : LifeState :=
  { s with refCnt := Function.update s.refCnt t refCnt
           handle := Function.update s.handle t handle }

def openHandle (s : LifeState) (t : Tid) : LifeState :=
  { s with handle := Function.update s.handle t .opened }

/-- What a step of the scheduler does to references and handles; `s` is the state before it and
`s'` already has the scheduler's part. `ThreadCreateEx` returns with its call of `ThreadUnblock`,
or at once if it created an idle thread. -/
def follow (s s' : LifeState) : SchedAction → Option LifeState
  | .initMain _ t => some (s'.threadInitRef t rfcInit .closed)
  | .init _ t =>
    match rfcReference rfcInit with
    | .error _ => none
    | .ok newRefCount => some (s'.threadInitRef t newRefCount .pending)
  | .place c t => some (if s'.pc c = .run then s'.openHandle t else s')
  | .step c =>
    match s.pc c with
    | .unblockRelease u _ => some (if s.handle u = .pending then s'.openHandle u else s')
    | .cleanupPrevious =>
      match s.dereferences c with
      | none => some s'
      | some t =>
        { s' with dropped := Function.update s'.dropped t (s'.dropped t + 1) }.threadDereference t
    | _ => some s'
  | _ => some s'

end LifeState

/-- Whether the run may contain the action: threads are not terminated by others, and the function
of an idle thread never returns. -/
def SchedState.allows (s : SchedState) : SchedAction → Bool
  | .terminate _ => false
  | .exit c => s.currentThread c != s.idleThread c
  | _ => true

def nextLife (s : LifeState) : LifeAction → Option LifeState
  | .sched a =>
    if s.allows a then (nextSched s.toSchedState a).bind fun t =>
      s.follow { s with toSchedState := t } a
    else none
  | .closeHandle t =>
    if s.handle t = .opened then
      { s with handle := Function.update s.handle t .closed }.threadDereference t
    else none

def lifeStart : LifeState :=
  { schedStart with
    refCnt := fun _ => 0, handle := fun _ => .absent, dropped := fun _ => 0,
    destroyed := fun _ => 0 }

def CpuPc.cleans : CpuPc → Bool
  | .cleanupUnlock | .cleanupPrevious => true
  | _ => false

/-- CPU `c` has switched away from thread `t` and not examined it yet. -/
def SchedState.Awaits (s : SchedState) (c : Cpu) (t : Tid) : Prop :=
  s.previousThread c = some t ∧ (s.pc c).cleans = true

/-- Some CPU will read or write the fields of thread `t`, or a list still links it. -/
def SchedState.Uses (s : SchedState) (t : Tid) : Prop :=
  t ∈ s.readyThreadsList ∨ s.waiting t = true ∨ s.creating t ≠ none ∨
    ∃ c, s.currentThread c = some t ∨ s.idleThread c = some t ∨ s.Awaits c t ∨
      (s.pc c).unblocks = some t

/-- The scheduler drops its reference once, after the last switch, and a thread is destroyed once,
when it has exited, been switched out and had its handle closed; nobody uses it afterwards. -/
structure LifeSafe (s : LifeState) : Prop where
  dropped_once : ∀ t, s.dropped t ≤ 1
  dropped_late : ∀ t, 0 < s.dropped t → s.state t = .dying ∧ ∀ c, s.currentThread c ≠ some t
  dropped : ∀ t, s.state t = .dying → (∀ c, s.currentThread c ≠ some t ∧ ¬ s.Awaits c t) →
    s.dropped t = 1
  destroyed_once : ∀ t, s.destroyed t ≤ 1
  destroyed_late : ∀ t, 0 < s.destroyed t → s.state t = .dying ∧ s.dropped t = 1 ∧
    s.handle t = .closed
  destroyed : ∀ t, s.dropped t = 1 → s.handle t = .closed → s.destroyed t = 1
  unused : ∀ t, 0 < s.destroyed t → ¬ s.Uses t

/-- Nobody is inside `ThreadUnblock` for a thread whose last reference is dropped. -/
def LifeState.LastUse (s : LifeState) (t : Tid) : Prop :=
  s.refCnt t = 1 → ∀ c, (s.pc c).unblocks ≠ some t

/-- A thread is set dying only when no other CPU has yet to examine it after a switch, and its
last reference is dropped only when nobody is inside `ThreadUnblock` for it. -/
def ExaminedFirst (s : LifeState) : LifeAction → Prop
  | .sched (.step c) =>
    (s.pc c = .exitDying → ∀ t, s.currentThread c = some t → ∀ c', ¬ s.Awaits c' t) ∧
      ∀ t, s.dereferences c = some t → s.LastUse t
  | .closeHandle t => s.LastUse t
  | _ => True

end HAL9000.Thread
