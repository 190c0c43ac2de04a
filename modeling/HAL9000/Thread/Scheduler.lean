import HAL9000.CommonLib.Base
import HAL9000.Lib.Run
import Mathlib.Logic.Function.Basic

/-! The scheduler of `thread.c` on any number of CPUs. Each step of a CPU is one action of a
critical section of `ReadyThreadsLock` or of a `BlockLock`. Spin locks are owned by CPUs, and a CPU
goes on with `ThreadCleanupPostSchedule` whichever thread it has switched to, so the place in the
code belongs to the CPU. -/
namespace HAL9000.Thread

/-- A CPU is known by its APIC id; there is no bound on the number of CPUs. -/
structure Cpu where
  apicId : ℕ
  deriving DecidableEq, Repr

inductive ThreadState
  | running
  | ready
  | blocked
  | dying
  deriving DecidableEq, Repr

def threadFlagForceTerminatePending : DWORD := 1

def threadFlagForceTerminated : DWORD := 2

/-- The function that called `_ThreadSchedule`. -/
inductive ScheduleCaller
  | yield
  | block
  | exit
  deriving DecidableEq, Repr

/-- Where a CPU stands. `ThreadUnblock` is called by running code or by `ThreadExit`, when it
signals the termination event. -/
inductive CpuPc
  | off
  | run
  | yieldTest
  | yieldLock
  | yieldInsert
  | blockTest
  | scheduleLock (caller : ScheduleCaller)
  | schedule (caller : ScheduleCaller)
  | cleanupUnlock
  | cleanupPrevious
  | exitRelease
  | exitDying
  | exiting
  | unblockTake (thread : Tid) (inExit : Bool)
  | unblockAssert (thread : Tid) (inExit : Bool)
  | unblockLock (thread : Tid) (inExit : Bool)
  | unblockInsert (thread : Tid) (inExit : Bool)
  | unblockUnlock (thread : Tid) (inExit : Bool)
  | unblockRelease (thread : Tid) (inExit : Bool)
  deriving DecidableEq, Repr

/-- What says where threads are. A thread in `waiting` has linked itself into the waiting list of
a mutex or an event. A thread in `creating` is inside `ThreadCreateEx`, called on the given CPU.
The last two fields record who has entered and left the ready list. -/
structure Placement where
  readyThreadsList : List Tid
  allThreads : Tid → Bool
  state : Tid → ThreadState
  waiting : Tid → Bool
  creating : Tid → Option Cpu
  currentThread : Cpu → Option Tid
  idleThread : Cpu → Option Tid
  entered : List Tid
  left : List Tid

/-- The data of the thread system, of every CPU and, of every thread, the fields the scheduler
reads. -/
structure SchedState extends Placement where
  readyThreadsLock : Option Cpu
  flags : Tid → DWORD
  blockLock : Tid → Option Cpu
  previousThread : Cpu → Option Tid
  pc : Cpu → CpuPc

namespace SchedState

def goto (s : SchedState) (c : Cpu) (pc : CpuPc) : SchedState :=
  { s with pc := Function.update s.pc c pc }

def setState (s : SchedState) (t : Tid) (state : ThreadState) : SchedState :=
  { s with state := Function.update s.state t state }

def setBlockLock (s : SchedState) (t : Tid) (owner : Option Cpu) : SchedState :=
  { s with blockLock := Function.update s.blockLock t owner }

def orFlags (s : SchedState) (t : Tid) (flags : DWORD) : SchedState :=
  { s with flags := Function.update s.flags t (s.flags t ||| flags) }

/-- `InsertTailList` on the ready list. -/
def insertReady (s : SchedState) (t : Tid) : SchedState :=
  { s with readyThreadsList := s.readyThreadsList ++ [t], entered := s.entered ++ [t] }

/-- `_ThreadInit` links a new, blocked thread into the list of all threads. -/
def threadInit (s : SchedState) (t : Tid) : SchedState :=
  { s with
    allThreads := Function.update s.allThreads t true
    state := Function.update s.state t .blocked
    flags := Function.update s.flags t 0
    blockLock := Function.update s.blockLock t none }

/-- `_ThreadGetReadyThread`; there may be no idle thread yet, and the state of the thread that
is taken is asserted. -/
def threadGetReadyThread (s : SchedState) (c : Cpu) : Option (Tid × SchedState) :=
  match s.readyThreadsList with
  | [] => (s.idleThread c).map fun t => (t, s)
  | t :: rest =>
    if s.state t = .ready then some (t, { s with readyThreadsList := rest, left := s.left ++ [t] })
    else none

/-- `_ThreadSchedule` up to and including `ThreadSwitch`. -/
def threadSchedule (s : SchedState) (c : Cpu) : Option SchedState :=
  (s.threadGetReadyThread c).map fun (next, s') =>
    { s' with
      previousThread := Function.update s.previousThread c (s.currentThread c)
      currentThread := Function.update s.currentThread c (some next) }

/-- What `ThreadCleanupPostSchedule` does to the previous thread once it has released the ready
list. -/
def cleanupPrevious (s : SchedState) (c : Cpu) : Option SchedState :=
  match s.previousThread c with
  | none => some s
  | some t =>
    if s.blockLock t = some c then
      if s.state t = .blocked ∨ s.idleThread c = some t then some (s.setBlockLock t none) else none
    else if s.state t = .dying then
      some { s with previousThread := Function.update s.previousThread c none }
    else some s

def forcedExit (s : SchedState) (c : Cpu) (t : Tid) : SchedState :=
  (s.orFlags t threadFlagForceTerminated).goto c .exitRelease

end SchedState

/-- One step of CPU `c`, whose current thread is `t`. -/
def cpuStep (s : SchedState) (c : Cpu) (t : Tid) : CpuPc → Option SchedState
  | .off | .run => none
  | .yieldTest =>
    if s.flags t = threadFlagForceTerminatePending then some (s.forcedExit c t)
    else some (s.goto c .yieldLock)
  | .yieldLock =>
    if s.readyThreadsLock = none then
      some ({ s with readyThreadsLock := some c }.goto c .yieldInsert)
    else none
  | .yieldInsert =>
    let s' := if s.idleThread c = some t then s else s.insertReady t
    some ((s'.setState t .ready).goto c (.schedule .yield))
  | .blockTest =>
    if s.blockLock t = some c then
      if s.flags t = threadFlagForceTerminatePending then some (s.forcedExit c t)
      else some ((s.setState t .blocked).goto c (.scheduleLock .block))
    else none
  | .scheduleLock caller =>
    if s.readyThreadsLock = none then
      some ({ s with readyThreadsLock := some c }.goto c (.schedule caller))
    else none
  | .schedule _ => (s.threadSchedule c).map fun s' => s'.goto c .cleanupUnlock
  | .cleanupUnlock => some ({ s with readyThreadsLock := none }.goto c .cleanupPrevious)
  | .cleanupPrevious => (s.cleanupPrevious c).map fun s' => s'.goto c .run
  | .exitRelease =>
    some ((if s.blockLock t = some c then s.setBlockLock t none else s).goto c .exitDying)
  | .exitDying => some ((s.setState t .dying).goto c .exiting)
  | .exiting => some (s.goto c (.scheduleLock .exit))
  | .unblockTake u inExit =>
    if s.blockLock u = none then some ((s.setBlockLock u (some c)).goto c (.unblockAssert u inExit))
    else none
  | .unblockAssert u inExit =>
    if s.state u = .blocked then some (s.goto c (.unblockLock u inExit)) else none
  | .unblockLock u inExit =>
    if s.readyThreadsLock = none then
      some ({ s with readyThreadsLock := some c }.goto c (.unblockInsert u inExit))
    else none
  | .unblockInsert u inExit =>
    some (((s.insertReady u).setState u .ready).goto c (.unblockUnlock u inExit))
  | .unblockUnlock u inExit =>
    some ({ s with readyThreadsLock := none }.goto c (.unblockRelease u inExit))
  | .unblockRelease u inExit =>
    some ((s.setBlockLock u none).goto c (if inExit then .exiting else .run))

inductive SchedAction
  | initMain (c : Cpu) (t : Tid)
  | init (c : Cpu) (t : Tid)
  | place (c : Cpu) (t : Tid)
  | yield (c : Cpu)
  | wait (c : Cpu)
  | idle (c : Cpu)
  | exit (c : Cpu)
  | unblock (c : Cpu) (t : Tid)
  | terminate (t : Tid)
  | step (c : Cpu)
  deriving DecidableEq, Repr

/-- The calls that running code makes, and the steps of a call. `ThreadCreateEx` is `init`, where
it reads its CPU and initialises the thread, and `place`, which another CPU may reach. Waiting
links the current thread into a list under the lock of that list and takes its block lock; idle
threads block without waiting. Whoever unblocks a thread has taken it out of a waiting list. -/
def nextSched (s : SchedState) : SchedAction → Option SchedState
  | .initMain c t =>
    if s.pc c = .off ∧ s.allThreads t = false then
      some { ((s.threadInit t).setState t .running).goto c .run with
        currentThread := Function.update s.currentThread c (some t) }
    else none
  | .init c t =>
    if s.pc c = .run ∧ s.allThreads t = false then
      some { s.threadInit t with creating := Function.update s.creating t (some c) }
    else none
  | .place c t =>
    match s.creating t with
    | none => none
    | some pCpu =>
      let s' := { s with creating := Function.update s.creating t none }
      if s.pc c = .run then
        if s.idleThread pCpu = none then
          some { s'.setState t .ready with idleThread := Function.update s.idleThread pCpu (some t) }
        else some (s'.goto c (.unblockTake t false))
      else none
  | .yield c => if s.pc c = .run then some (s.goto c .yieldTest) else none
  | .wait c =>
    match s.currentThread c with
    | none => none
    | some t =>
      if s.pc c = .run ∧ s.idleThread c ≠ some t ∧ s.blockLock t = none then
        some { (s.setBlockLock t (some c)).goto c .blockTest with
          waiting := Function.update s.waiting t true }
      else none
  | .idle c =>
    match s.currentThread c with
    | none => none
    | some t =>
      if s.pc c = .run ∧ s.idleThread c = some t ∧ s.blockLock t = none then
        some ((s.setBlockLock t (some c)).goto c .blockTest)
      else none
  | .exit c => if s.pc c = .run then some (s.goto c .exitRelease) else none
  | .unblock c t =>
    if (s.pc c = .run ∨ s.pc c = .exiting) ∧ s.waiting t = true then
      some { s.goto c (.unblockTake t (s.pc c = .exiting)) with
        waiting := Function.update s.waiting t false }
    else none
  | .terminate t =>
    if s.allThreads t = true then some (s.orFlags t threadFlagForceTerminatePending) else none
  | .step c =>
    match s.currentThread c with
    | none => none
    | some t => cpuStep s c t (s.pc c)

/-- After `ThreadSystemPreinit`: no CPU runs a thread yet. -/
def schedStart : SchedState where
  readyThreadsLock := none
  readyThreadsList := []
  allThreads _ := false
  state _ := .blocked
  flags _ := 0
  blockLock _ := none
  waiting _ := false
  creating _ := none
  currentThread _ := none
  idleThread _ := none
  previousThread _ := none
  pc _ := .off
  entered := []
  left := []

/-- Where threads are. A thread that is listed and current is being replaced on its CPU, which
holds `ReadyThreadsLock` then. -/
structure SchedSafe (s : SchedState) : Prop where
  nodup : s.readyThreadsList.Nodup
  listed_current : ∀ c t, s.currentThread c = some t → t ∈ s.readyThreadsList →
    s.readyThreadsLock = some c ∧ ∃ caller, s.pc c = .schedule caller
  one_cpu : ∀ c c' t, s.currentThread c = some t → s.currentThread c' = some t → c = c'
  ready : ∀ t ∈ s.readyThreadsList, s.state t = .ready
  idle_not_listed : ∀ c t, s.idleThread c = some t → t ∉ s.readyThreadsList
  fifo : s.entered = s.left ++ s.readyThreadsList

end HAL9000.Thread
