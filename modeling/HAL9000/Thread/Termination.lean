import HAL9000.Sync.WaitObject
import HAL9000.Thread.Scheduler

/-! Forced termination of threads that use any number of mutexes and events. `ThreadTerminate` only
sets a flag, which the thread itself finds when it yields or blocks. -/
namespace HAL9000.Thread

open Run Sync

/-- Where a thread stands: outside the primitives, in a call on one of them, which `ThreadExit`
makes as well, or past its last instruction. -/
inductive ThreadPc
  | run
  | call (object : ℕ) (pc : WaitPc) (exiting : Bool)
  | exitDying
  | exited
  deriving DecidableEq, Repr

/-- The mutexes and events of the system and, of every thread, what termination reads and
writes. -/
structure TerminationState where
  objects : ℕ → WaitObject
  terminationEvt : Tid → ℕ
  state : Tid → ThreadState
  flags : Tid → DWORD
  destroyed : Tid → Bool
  pc : Tid → ThreadPc

inductive SyncCall
  | mutexAcquire
  | mutexRelease
  | exEventWaitForSignal
  | exEventSignal
  deriving DecidableEq, Repr

/-- The first place of a call, if the object is of the right kind. -/
def SyncCall.entry : SyncCall → WaitObject → Option WaitPc
  | .mutexAcquire, .mutex _ => some (.mutex .acquireTest)
  | .mutexRelease, .mutex _ => some (.mutex .releaseTest)
  | .exEventWaitForSignal, .event _ => some (.event .waitTest)
  | .exEventSignal, .event _ => some (.event .signalLock)
  | _, _ => none

inductive TerminationAction
  | call (t : Tid) (object : ℕ) (function : SyncCall)
  | terminate (t : Tid)
  | yield (t : Tid)
  | exit (t : Tid)
  | destroy (t : Tid)
  | step (t : Tid)
  deriving DecidableEq, Repr

/-- The thread may be made to yield; `ThreadExit` disables interrupts. -/
def ThreadPc.interruptible : ThreadPc → Bool
  | .run => true
  | .call _ pc exiting => pc.interruptible && !exiting
  | _ => false

/-- Where a thread goes from a call: `ThreadExit` never returns. -/
def ThreadPc.afterCall (object : ℕ) (pc : WaitPc) (exiting : Bool) : ThreadPc :=
  if pc.returned then if exiting then .exited else .run else .call object pc exiting

namespace TerminationState

def goto (s : TerminationState) (t : Tid) (pc : ThreadPc) : TerminationState :=
  { s with pc := Function.update s.pc t pc }

def orFlags (s : TerminationState) (t : Tid) (flags : DWORD) : TerminationState :=
  { s with flags := Function.update s.flags t (s.flags t ||| flags) }

/-- `_ThreadForcedExit` calls `ThreadExit` and does not return. -/
def threadForcedExit (s : TerminationState) (t : Tid) : TerminationState :=
  (s.orFlags t threadFlagForceTerminated).goto t .exitDying

/-- `ThreadBlock` sets the state of its thread, `ThreadUnblock` that of the thread it wakes. -/
def stateAfter (s : TerminationState) (t : Tid) (pc : WaitPc) (wakes : Option Tid) :
    Tid → ThreadState :=
  let state := if pc.blocks then Function.update s.state t .blocked else s.state
  match wakes with
  | none => state
  | some u => Function.update state u .ready

/-- A step of thread `t` in a call; the flag is tested where the thread blocks. -/
def callStep (s : TerminationState) (t : Tid) (i : ℕ) (pc : WaitPc) (exiting : Bool) :
    Option TerminationState :=
  if pc.blocks = true ∧ s.flags t = threadFlagForceTerminatePending then
    some (s.threadForcedExit t)
  else
    (waitStep t (s.objects i) pc).bind fun (o, pc', wakes) =>
      (Threads.move (.call i pc.blocked false) (.call i pc.woken false) s.pc t
        (.afterCall i pc' exiting) wakes).map fun pcs =>
          { s with
            objects := Function.update s.objects i o
            state := s.stateAfter t pc wakes
            pc := pcs }

end TerminationState

def nextTermination (s : TerminationState) : TerminationAction → Option TerminationState
  | .call t i function =>
    if s.pc t = .run then
      (function.entry (s.objects i)).map fun pc => s.goto t (.call i pc false)
    else none
  | .terminate t => some (s.orFlags t threadFlagForceTerminatePending)
  | .yield t =>
    if (s.pc t).interruptible then
      if s.flags t = threadFlagForceTerminatePending then some (s.threadForcedExit t) else some s
    else none
  | .exit t => if s.pc t = .run then some (s.goto t .exitDying) else none
  | .destroy t =>
    if s.pc t = .exited then some { s with destroyed := Function.update s.destroyed t true }
    else none
  | .step t =>
    match s.pc t with
    | .run | .exited => none
    | .exitDying =>
      some ({ s with state := Function.update s.state t .dying }.goto t
        (.call (s.terminationEvt t) (.event .signalLock) true))
    | .call i pc exiting => s.callStep t i pc exiting

/-- Nobody waits and no thread is being terminated. -/
structure TerminationStart (s : TerminationState) : Prop where
  waitingList : ∀ i, (s.objects i).waitingList = []
  state : ∀ t, s.state t ≠ .dying
  destroyed : ∀ t, s.destroyed t = false
  pc : ∀ t, s.pc t = .run

/-- No thread that is dying or destroyed is linked in a waiting list. -/
def NoDeadWaiter (s : TerminationState) : Prop :=
  ∀ t, s.state t = .dying ∨ s.destroyed t = true → ∀ i, t ∉ (s.objects i).waitingList

/-- Thread `t`, about to step from a given place, does not find the pending flag in `ThreadBlock`
while it is linked in the waiting list. -/
def UnlinkedIfTerminated (s : TerminationState) (t : Tid) : ThreadPc → Prop
  | .call i pc _ => pc.blocks = true → s.flags t = threadFlagForceTerminatePending →
      t ∉ (s.objects i).waitingList
  | _ => True

instance (s : TerminationState) (t : Tid) : DecidablePred (UnlinkedIfTerminated s t)
  | .call i pc _ => inferInstanceAs (Decidable (pc.blocks = true →
      s.flags t = threadFlagForceTerminatePending → t ∉ (s.objects i).waitingList))
  | .run | .exitDying | .exited => inferInstanceAs (Decidable True)

def BlocksUnterminated (s : TerminationState) : TerminationAction → Prop
  | .step t => UnlinkedIfTerminated s t (s.pc t)
  | _ => True

instance (s : TerminationState) : DecidablePred (BlocksUnterminated s)
  | .step t => inferInstanceAs (Decidable (UnlinkedIfTerminated s t (s.pc t)))
  | .call .. | .terminate _ | .yield _ | .exit _ | .destroy _ => inferInstanceAs (Decidable True)

end HAL9000.Thread
