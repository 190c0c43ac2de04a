import HAL9000.Sync.ExEvent
import HAL9000.Sync.MutexInvariant

/-! Mutexes and events as objects with a lock and a waiting list, which threads link themselves
into before they block and are taken out of before they are woken. -/
namespace HAL9000.Sync

inductive WaitObject
  | mutex (m : Mutex)
  | event (e : ExEvent)
  deriving DecidableEq, Repr

/-- Where a thread stands in a function of `mutex.c` or `ex_event.c`. -/
inductive WaitPc
  | mutex (pc : MutexPc)
  | event (pc : EventPc)
  deriving DecidableEq, Repr

namespace WaitObject

def lock : WaitObject → Option Tid
  | .mutex m => m.mutexLock
  | .event e => e.eventLock

def waitingList : WaitObject → List Tid
  | .mutex m => m.waitingList
  | .event e => e.waitingList

end WaitObject

namespace MutexPc

def waits : MutexPc → Bool
  | .block | .blocked => true
  | _ => false

def linked : MutexPc → Bool
  | .unlockBlock | .block | .blocked => true
  | _ => false

def wakes : MutexPc → Option Tid
  | .wake u => some u
  | _ => none

end MutexPc

namespace EventPc

def locked : EventPc → Bool
  | .waitInsert | .waitRelease | .signalSet | .signalDrain | .signalWake _ | .signalRelease => true
  | _ => false

def waits : EventPc → Bool
  | .waitBlock | .blocked => true
  | _ => false

def linked : EventPc → Bool
  | .waitRelease | .waitBlock | .blocked => true
  | _ => false

def wakes : EventPc → Option Tid
  | .signalWake u => some u
  | _ => none

end EventPc

namespace WaitPc

/-- The function has returned. -/
def returned : WaitPc → Bool
  | .mutex .idle | .event .idle => true
  | _ => false

/-- The thread has called `ThreadBlock`. -/
def blocks : WaitPc → Bool
  | .mutex .block | .event .waitBlock => true
  | _ => false

/-- The thread holds the lock of the object. -/
def locked : WaitPc → Bool
  | .mutex pc => pc.locked
  | .event pc => pc.locked

/-- The thread blocks or is blocked. -/
def waits : WaitPc → Bool
  | .mutex pc => pc.waits
  | .event pc => pc.waits

/-- The thread has linked itself into the waiting list. -/
def linked : WaitPc → Bool
  | .mutex pc => pc.linked
  | .event pc => pc.linked

/-- The thread that has been taken out of the waiting list and has to be woken. -/
def wakes : WaitPc → Option Tid
  | .mutex pc => pc.wakes
  | .event pc => pc.wakes

/-- The thread is inside `ExEventSignal`. -/
def signals : WaitPc → Bool
  | .event pc => pc.inSignal
  | _ => false

def blocked : WaitPc → WaitPc
  | .mutex _ => .mutex .blocked
  | .event _ => .event .blocked

def woken : WaitPc → WaitPc
  | .mutex _ => .mutex .relock
  | .event _ => .event .woken

/-- Interrupts are enabled here, so the thread may be made to yield. -/
def interruptible : WaitPc → Bool
  | .mutex .acquireTest | .mutex .recurse | .mutex .releaseTest | .mutex .unrecurse
  | .mutex .releaseLock | .event .signalLock => true
  | _ => false

end WaitPc

/-- One step of thread `t` on the object; the last component is the thread it has to wake. -/
def waitStep (t : Tid) : WaitObject → WaitPc → Option (WaitObject × WaitPc × Option Tid)
  | .mutex m, .mutex pc => (mutexStep t m pc).map fun (m, pc, w) => (.mutex m, .mutex pc, w)
  | .event e, .event pc => (exEventStep t e pc).map fun (e, pc, w) => (.event e, .event pc, w)
  | _, _ => none

/-- What a step does to the waiting list. -/
inductive ListEffect (t : Tid) (pc pc' : WaitPc) : List Tid → List Tid → Prop
  | keep {list : List Tid} (linked : pc'.linked = pc.linked) (waits : pc.waits = true → pc'.waits = true)
      (wakes : pc'.wakes = none) : ListEffect t pc pc' list list
  | insert {list : List Tid} (before : pc.linked = false) (after : pc'.linked = true)
      (wakes : pc'.wakes = none) (call : pc.signals = false) : ListEffect t pc pc' list (list ++ [t])
  | remove {u : Tid} {list : List Tid} (locked : pc.locked = true) (before : pc.linked = false)
      (wakes : pc'.wakes = some u) : ListEffect t pc pc' (u :: list) list

section Step

variable {t : Tid} {o o' : WaitObject} {pc pc' : WaitPc} {w : Option Tid}

private theorem mutexStep_list {m m' : Mutex} {p p' : MutexPc}
    (h : mutexStep t m p = some (m', p', w)) :
    ListEffect t (.mutex p) (.mutex p') m.waitingList m'.waitingList := by
  cases p with
  | insert =>
    cases h
    exact .insert rfl rfl rfl rfl
  | handOver =>
    simp only [mutexStep] at h
    split at h
    · cases h
      exact .keep rfl (by rintro ⟨⟩) rfl
    · rename_i u rest hcons
      cases h
      rw [hcons]
      exact .remove rfl rfl rfl
  | _ =>
    simp only [mutexStep, whileNotHolder] at h
    repeat' split at h
    all_goals cases h
    all_goals exact .keep rfl (fun hw => by first | rfl | cases hw) rfl

private theorem exEventStep_list {e e' : ExEvent} {p p' : EventPc}
    (h : exEventStep t e p = some (e', p', w)) :
    ListEffect t (.event p) (.event p') e.waitingList e'.waitingList := by
  cases p with
  | waitInsert =>
    cases h
    exact .insert rfl rfl rfl rfl
  | signalDrain =>
    simp only [exEventStep] at h
    split at h
    · cases h
      exact .keep rfl (by rintro ⟨⟩) rfl
    · rename_i u rest hcons
      cases h
      rw [hcons]
      exact .remove rfl rfl rfl
  | waitTest =>
    cases hsig : e.signaled <;> simp only [exEventStep, compareExchangeSignaled, hsig] at h
    · cases h
      exact .keep rfl (by rintro ⟨⟩) rfl
    · cases h
      exact .keep rfl (by rintro ⟨⟩) rfl
  | _ =>
    simp only [exEventStep] at h
    repeat' split at h
    all_goals cases h
    all_goals exact .keep rfl (fun hw => by first | rfl | cases hw) rfl

private theorem exEventStep_lock {e e' : ExEvent} {p p' : EventPc}
    (h : exEventStep t e p = some (e', p', w)) :
    (e'.eventLock = e.eventLock ∧ p'.locked = p.locked) ∨
      (e.eventLock = none ∧ e'.eventLock = some t ∧ p'.locked = true) ∨
      (p.locked = true ∧ e'.eventLock = none ∧ p'.locked = false) := by
  cases p <;> grind [exEventStep, compareExchangeSignaled, EventPc.locked]

theorem waitStep_list (h : waitStep t o pc = some (o', pc', w)) :
    ListEffect t pc pc' o.waitingList o'.waitingList := by
  cases o <;> cases pc <;> simp only [waitStep, Option.map_eq_some_iff, reduceCtorEq] at h
  · obtain ⟨⟨m, p, w⟩, hm, ⟨⟩⟩ := h
    exact mutexStep_list hm
  · obtain ⟨⟨e, p, w⟩, he, ⟨⟩⟩ := h
    exact exEventStep_list he

/-- A step leaves the lock of the object alone, takes it while it is free, or releases it. -/
theorem waitStep_lock (h : waitStep t o pc = some (o', pc', w)) :
    (o'.lock = o.lock ∧ pc'.locked = pc.locked) ∨
      (o.lock = none ∧ o'.lock = some t ∧ pc'.locked = true) ∨
      (pc.locked = true ∧ o'.lock = none ∧ pc'.locked = false) := by
  cases o <;> cases pc <;> simp only [waitStep, Option.map_eq_some_iff, reduceCtorEq] at h
  · obtain ⟨⟨m, p, w⟩, hm, ⟨⟩⟩ := h
    exact mutexStep_lock hm
  · obtain ⟨⟨e, p, w⟩, he, ⟨⟩⟩ := h
    exact exEventStep_lock he

/-- The thread that is woken is the one taken out of the list. -/
theorem waitStep_wakes (h : waitStep t o pc = some (o', pc', w)) : w = pc.wakes := by
  cases o <;> cases pc <;> simp only [waitStep, Option.map_eq_some_iff, reduceCtorEq] at h
  · obtain ⟨⟨m, p, w⟩, hm, ⟨⟩⟩ := h
    rename_i p₀
    cases p₀ <;> grind [mutexStep, WaitPc.wakes, MutexPc.wakes]
  · obtain ⟨⟨e, p, w⟩, he, ⟨⟩⟩ := h
    rename_i p₀
    cases p₀ <;> grind [exEventStep, WaitPc.wakes, EventPc.wakes]

theorem waitStep_not_blocked (h : waitStep t o pc = some (o', pc', w)) : pc ≠ pc.blocked := by
  intro hb
  rw [hb] at h
  cases o <;> cases pc <;> cases h

/-- `ExEventSignal` does nothing else until it returns. -/
theorem waitStep_signals (h : waitStep t o pc = some (o', pc', w)) (hs : pc.signals = true)
    (hr : pc'.returned = false) : pc'.signals = true := by
  cases o <;> cases pc <;> simp only [waitStep, Option.map_eq_some_iff, reduceCtorEq] at h
  · cases hs
  · obtain ⟨⟨e, p, w⟩, he, ⟨⟩⟩ := h
    rename_i p₀
    cases p₀ <;> grind [exEventStep, WaitPc.signals, EventPc.inSignal, WaitPc.returned]

end Step

section Pc

variable {pc : WaitPc} {u : Tid}

theorem WaitPc.linked_of_waits (h : pc.waits = true) : pc.linked = true := by
  cases pc with
  | mutex p => cases p <;> simp_all [waits, linked, MutexPc.waits, MutexPc.linked]
  | event p => cases p <;> simp_all [waits, linked, EventPc.waits, EventPc.linked]

theorem WaitPc.linked_of_blocks (h : pc.blocks = true) : pc.linked = true := by
  cases pc with
  | mutex p => cases p <;> simp_all [blocks, linked, MutexPc.linked]
  | event p => cases p <;> simp_all [blocks, linked, EventPc.linked]

theorem WaitPc.linked_of_interruptible (h : pc.interruptible = true) : pc.linked = false := by
  cases pc with
  | mutex p => cases p <;> simp_all [interruptible, linked, MutexPc.linked]
  | event p => cases p <;> simp_all [interruptible, linked, EventPc.linked]

theorem WaitPc.locked_of_wakes (h : pc.wakes = some u) : pc.locked = true := by
  cases pc with
  | mutex p => cases p <;> simp_all [wakes, locked, MutexPc.wakes, MutexPc.locked]
  | event p => cases p <;> simp_all [wakes, locked, EventPc.wakes, EventPc.locked]

/-- A linked thread waits, unless it still holds the lock under which it linked itself. -/
theorem WaitPc.waits_of_linked (h : pc.linked = true) (hl : pc.locked = false) :
    pc.waits = true := by
  cases pc with
  | mutex p =>
    cases p <;> simp_all [waits, linked, locked, MutexPc.waits, MutexPc.linked, MutexPc.locked]
  | event p =>
    cases p <;> simp_all [waits, linked, locked, EventPc.waits, EventPc.linked, EventPc.locked]

theorem WaitPc.linked_of_signals (h : pc.signals = true) : pc.linked = false := by
  cases pc with
  | mutex p => cases h
  | event p => cases p <;> simp_all [signals, EventPc.inSignal, linked, EventPc.linked]

theorem WaitPc.returned_of_linked (h : pc.linked = true) : pc.returned = false := by
  cases pc with
  | mutex p => cases p <;> simp_all [linked, MutexPc.linked, returned]
  | event p => cases p <;> simp_all [linked, EventPc.linked, returned]

theorem WaitPc.locked_woken (pc : WaitPc) : pc.woken.locked = false := by
  cases pc <;> rfl

/-- A waiting thread goes on waiting while it steps. -/
theorem ListEffect.waits {t : Tid} {pc' : WaitPc} {list list' : List Tid}
    (h : ListEffect t pc pc' list list') (hw : pc.waits = true) : pc'.waits = true := by
  have hl := WaitPc.linked_of_waits hw
  cases h with
  | keep _ hkeep _ => exact hkeep hw
  | insert hbefore _ _ _ => simp [hl] at hbefore
  | remove _ hbefore _ => simp [hl] at hbefore

end Pc

end HAL9000.Sync
