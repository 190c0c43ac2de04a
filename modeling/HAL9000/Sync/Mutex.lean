import HAL9000.CommonLib.Base
import HAL9000.Lib.Run
import HAL9000.Lib.Threads

/-! Mutexes of `mutex.c`. A step of a thread is one access to the shared fields made without
`MutexLock`, or one action of a critical section of `MutexLock`. A run also keeps a history of
who acquired, released, waited and was granted the mutex. -/
namespace HAL9000.Sync

structure Mutex where
  mutexLock : Option Tid
  currentRecursivityDepth : BYTE
  maxRecursivityDepth : BYTE
  waitingList : List Tid
  holder : Option Tid
  deriving DecidableEq, Repr

/-- `MUTEX_MAX_RECURSIVITY_DEPTH`, which is `MAX_BYTE`. -/
def mutexMaxRecursivityDepth : BYTE := 0xFF

def mutexInit (recursive : Bool) : Mutex where
  mutexLock := none
  currentRecursivityDepth := 0
  maxRecursivityDepth := if recursive then mutexMaxRecursivityDepth else 1
  waitingList := []
  holder := none

/-- Where a thread stands in `MutexAcquire` or `MutexRelease`. -/
inductive MutexPc
  | idle
  | acquireTest
  | recurse
  | acquireLock
  | take
  | insert
  | unlockBlock
  | block
  | blocked
  | relock
  | retest
  | acquireUnlock
  | releaseTest
  | unrecurse
  | releaseLock
  | handOver
  | wake (thread : Tid)
  | releaseUnlock
  deriving DecidableEq, Repr

/-- The test of the loop that waits for ownership, made under `MutexLock`. -/
def whileNotHolder (t : Tid) (m : Mutex) : MutexPc :=
  if m.holder = some t then .acquireUnlock else .insert

/-- One step of thread `t`; the last component is the thread it has to wake. A step whose
`ASSERT` fails halts the system and is not taken. -/
def mutexStep (t : Tid) (m : Mutex) : MutexPc → Option (Mutex × MutexPc × Option Tid)
  | .idle => none
  | .acquireTest =>
    if m.holder = some t then
      if m.currentRecursivityDepth < m.maxRecursivityDepth then some (m, .recurse, none) else none
    else some (m, .acquireLock, none)
  | .recurse =>
    some ({ m with currentRecursivityDepth := m.currentRecursivityDepth + 1 }, .idle, none)
  | .acquireLock =>
    if m.mutexLock = none then some ({ m with mutexLock := some t }, .take, none) else none
  | .take =>
    let m' := if m.holder = none then { m with holder := some t, currentRecursivityDepth := 1 }
      else m
    some (m', whileNotHolder t m', none)
  | .insert => some ({ m with waitingList := m.waitingList ++ [t] }, .unlockBlock, none)
  | .unlockBlock => some ({ m with mutexLock := none }, .block, none)
  | .block => some (m, .blocked, none)
  | .blocked => none
  | .relock =>
    if m.mutexLock = none then some ({ m with mutexLock := some t }, .retest, none) else none
  | .retest => some (m, whileNotHolder t m, none)
  | .acquireUnlock => some ({ m with mutexLock := none }, .idle, none)
  | .releaseTest =>
    if m.holder = some t then
      some (m, if m.currentRecursivityDepth > 1 then .unrecurse else .releaseLock, none)
    else none
  | .unrecurse =>
    some ({ m with currentRecursivityDepth := m.currentRecursivityDepth - 1 }, .idle, none)
  | .releaseLock =>
    if m.mutexLock = none then some ({ m with mutexLock := some t }, .handOver, none) else none
  | .handOver =>
    match m.waitingList with
    | [] => some ({ m with holder := none }, .releaseUnlock, none)
    | u :: rest =>
      some ({ m with waitingList := rest, holder := some u, currentRecursivityDepth := 1 },
        .wake u, none)
  | .wake u => some (m, .releaseUnlock, some u)
  | .releaseUnlock => some ({ m with mutexLock := none }, .idle, none)

/-- What has happened to a mutex: how often each thread has taken it or been granted it, how
often it has given it up, and who has waited and been granted it, in order. -/
structure MutexHistory where
  acquires : Tid → ℕ
  releases : Tid → ℕ
  enqueued : List Tid
  granted : List Tid

def MutexHistory.acquired (h : MutexHistory) (t : Tid) : MutexHistory :=
  { h with acquires := Function.update h.acquires t (h.acquires t + 1) }

def MutexHistory.released (h : MutexHistory) (t : Tid) : MutexHistory :=
  { h with releases := Function.update h.releases t (h.releases t + 1) }

@[simp]
theorem MutexHistory.acquired_acquires (h : MutexHistory) (t r : Tid) :
    (h.acquired t).acquires r = h.acquires r + if t = r then 1 else 0 := by
  simp only [acquired, Function.update_apply, eq_comm]
  split_ifs with hr <;> simp [hr]

@[simp]
theorem MutexHistory.acquired_releases (h : MutexHistory) (t : Tid) :
    (h.acquired t).releases = h.releases := rfl

@[simp]
theorem MutexHistory.released_acquires (h : MutexHistory) (t : Tid) :
    (h.released t).acquires = h.acquires := rfl

@[simp]
theorem MutexHistory.released_releases (h : MutexHistory) (t r : Tid) :
    (h.released t).releases r = h.releases r + if t = r then 1 else 0 := by
  simp only [released, Function.update_apply, eq_comm]
  split_ifs with hr <;> simp [hr]

/-- The history after a step of thread `t` on mutex `m`. -/
def MutexHistory.record (h : MutexHistory) (t : Tid) (m : Mutex) : MutexPc → MutexHistory
  | .recurse => h.acquired t
  | .take => if m.holder = none then h.acquired t else h
  | .insert => { h with enqueued := h.enqueued ++ [t] }
  | .unrecurse => h.released t
  | .handOver =>
    match m.waitingList with
    | [] => h.released t
    | u :: _ => { (h.released t).acquired u with granted := h.granted ++ [u] }
  | _ => h

structure MutexState where
  mutex : Mutex
  pc : Tid → MutexPc
  history : MutexHistory

inductive MutexAction
  | acquire (t : Tid)
  | release (t : Tid)
  | step (t : Tid)
  deriving DecidableEq, Repr

/-- Calls start at idle threads; `ThreadUnblock` is taken once its thread is blocked. -/
def nextMutex (s : MutexState) : MutexAction → Option MutexState
  | .acquire t =>
    if s.pc t = .idle then some { s with pc := Function.update s.pc t .acquireTest } else none
  | .release t =>
    if s.pc t = .idle then some { s with pc := Function.update s.pc t .releaseTest } else none
  | .step t =>
    (mutexStep t s.mutex (s.pc t)).bind fun (m, pc, wakes) =>
      (Threads.move .blocked .relock s.pc t pc wakes).map fun pcs =>
        ⟨m, pcs, s.history.record t s.mutex (s.pc t)⟩

/-- No thread uses the mutex yet. -/
def mutexStart (recursive : Bool) : MutexState :=
  ⟨mutexInit recursive, fun _ => .idle, ⟨fun _ => 0, fun _ => 0, [], []⟩⟩

/-- Who owns the mutex, who waits for it and how deep its owner holds it, in terms of the
history. -/
structure MutexSafe (s : MutexState) : Prop where
  exclusive : ∀ t, s.history.releases t < s.history.acquires t → s.mutex.holder = some t
  returns_holder : ∀ t, s.pc t = .acquireUnlock → s.mutex.holder = some t
  holder_not_waiting : ∀ t, s.mutex.holder = some t → t ∉ s.mutex.waitingList
  nodup : s.mutex.waitingList.Nodup
  waited_held : s.mutex.waitingList ≠ [] → s.mutex.mutexLock = none → s.mutex.holder ≠ none
  fifo : s.history.enqueued = s.history.granted ++ s.mutex.waitingList
  depth : ∀ t, s.mutex.holder = some t →
    s.history.acquires t = s.history.releases t + s.mutex.currentRecursivityDepth.toNat

/-- When the holder changes, the old one has released all it acquired and the new one is at
depth 1. -/
def HandsOver (s s' : MutexState) : Prop :=
  s'.mutex.holder ≠ s.mutex.holder →
    (∀ t, s.mutex.holder = some t → s'.history.acquires t = s'.history.releases t) ∧
      ∀ u, s'.mutex.holder = some u → s'.mutex.currentRecursivityDepth = 1 ∧
        s'.history.acquires u = s'.history.releases u + 1

end HAL9000.Sync
