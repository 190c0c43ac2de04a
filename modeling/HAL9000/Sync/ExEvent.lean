import HAL9000.CommonLib.Base
import HAL9000.Lib.Run
import HAL9000.Lib.Threads

/-! Executive events of `ex_event.c`. Each step of a thread is one interlocked access to
`Signaled` or one action of a critical section of `EventLock`; blocking and waking go through
the block lock, so a wake-up waits until its thread has blocked. -/
namespace HAL9000.Sync

open Run

inductive ExEventType
  | notification
  | synchronization
  deriving DecidableEq, Repr

structure ExEvent where
  eventLock : Option Tid
  eventType : ExEventType
  signaled : Bool
  waitingList : List Tid
  deriving DecidableEq, Repr

def exEventInit (eventType : ExEventType) (signaled : Bool) : ExEvent :=
  ⟨none, eventType, signaled, []⟩

def exEventClearSignal (e : ExEvent) : ExEvent := { e with signaled := false }

/-- Where a thread stands in `ExEventWaitForSignal` or `ExEventSignal`. -/
inductive EventPc
  | idle
  | waitTest
  | waitLock
  | waitInsert
  | waitRelease
  | waitBlock
  | blocked
  | woken
  | signalLock
  | signalSet
  | signalDrain
  | signalWake (thread : Tid)
  | signalRelease
  deriving DecidableEq, Repr

/-- `_InterlockedCompareExchange8(&Signaled, newState, TRUE)`, which returns the old value. -/
def compareExchangeSignaled (e : ExEvent) : ExEvent × Bool :=
  let newState := decide (e.eventType = .notification)
  (if e.signaled then { e with signaled := newState } else e, e.signaled)

/-- One step of thread `t`; the last component is the thread it has to wake. -/
def exEventStep (t : Tid) (e : ExEvent) : EventPc → Option (ExEvent × EventPc × Option Tid)
  | .idle => none
  | .waitTest =>
    let (e', old) := compareExchangeSignaled e
    some (e', if old then .idle else .waitLock, none)
  | .waitLock => if e.eventLock = none then some ({ e with eventLock := some t }, .waitInsert, none)
    else none
  | .waitInsert => some ({ e with waitingList := e.waitingList ++ [t] }, .waitRelease, none)
  | .waitRelease => some ({ e with eventLock := none }, .waitBlock, none)
  | .waitBlock => some (e, .blocked, none)
  | .blocked => none
  | .woken => some (e, if e.eventType = .notification then .idle else .waitTest, none)
  | .signalLock => if e.eventLock = none then some ({ e with eventLock := some t }, .signalSet, none)
    else none
  | .signalSet => some ({ e with signaled := true }, .signalDrain, none)
  | .signalDrain =>
    match e.waitingList with
    | [] => some (e, .signalRelease, none)
    | u :: rest => some ({ e with waitingList := rest }, .signalWake u, none)
  | .signalWake u =>
    some (e, if e.eventType = .synchronization then .signalRelease else .signalDrain, some u)
  | .signalRelease => some ({ e with eventLock := none }, .idle, none)

structure EventState where
  event : ExEvent
  pc : Tid → EventPc

inductive EventAction
  | wait (t : Tid)
  | signal (t : Tid)
  | clear (t : Tid)
  | step (t : Tid)
  deriving DecidableEq, Repr

def EventAction.isClear : EventAction → Bool
  | .clear _ => true
  | _ => false

/-- Calls start at idle threads; `ThreadUnblock` is taken once its thread is blocked. -/
def nextEvent (s : EventState) : EventAction → Option EventState
  | .wait t =>
    if s.pc t = .idle then some { s with pc := Function.update s.pc t .waitTest } else none
  | .signal t =>
    if s.pc t = .idle then some { s with pc := Function.update s.pc t .signalLock } else none
  | .clear t =>
    if s.pc t = .idle then some { s with event := exEventClearSignal s.event } else none
  | .step t =>
    (exEventStep t s.event (s.pc t)).bind fun (e, pc, wakes) =>
      (Threads.move .blocked .woken s.pc t pc wakes).map (EventState.mk e)

/-- No thread uses the event yet. -/
def eventStart (eventType : ExEventType) (signaled : Bool) : EventState :=
  ⟨exEventInit eventType signaled, fun _ => .idle⟩

def EventPc.inSignal : EventPc → Bool
  | .signalLock | .signalSet | .signalDrain | .signalWake _ | .signalRelease => true
  | _ => false

/-- With the event signaled and no signaller or lock holder left, nobody is blocked on it. -/
def NoLostWakeup (s : EventState) : Prop :=
  s.event.signaled = true → (∀ t, (s.pc t).inSignal = false) → s.event.eventLock = none →
    ∀ t ∈ s.event.waitingList, s.pc t ≠ .blocked

/-- A thread that links itself into the waiting list does so while the event is not signaled. -/
def EnqueuesUnsignaled (s : EventState) (a : EventAction) : Prop :=
  match a with
  | .step t => s.pc t = .waitInsert → s.event.signaled = false
  | _ => True

instance (s : EventState) : DecidablePred (EnqueuesUnsignaled s)
  | .step t => inferInstanceAs (Decidable (s.pc t = .waitInsert → s.event.signaled = false))
  | .wait _ | .signal _ | .clear _ => inferInstanceAs (Decidable True)

/-- A signaller is emptying the waiting list. -/
def Draining (s : EventState) : Prop :=
  ∃ t, s.pc t = .signalDrain ∨ ∃ u, s.pc t = .signalWake u

/-- A list that is not empty after the signal is being emptied. -/
def DrainInv (s : EventState) : Prop :=
  s.event.eventType = .notification ∧
    (s.event.signaled = true → s.event.waitingList ≠ [] → Draining s)

theorem DrainInv.noLostWakeup {s : EventState} (h : DrainInv s) : NoLostWakeup s := by
  intro hsig hnone _ t ht
  obtain ⟨r, hr | ⟨u, hr⟩⟩ := h.2 hsig (List.ne_nil_of_mem ht)
  · have := hnone r
    rw [hr] at this
    cases this
  · have := hnone r
    rw [hr] at this
    cases this

/-- The parts of a step of `t`. -/
theorem nextEvent_step {s s' : EventState} {t : Tid} (h : nextEvent s (.step t) = some s') :
    ∃ pc wakes, exEventStep t s.event (s.pc t) = some (s'.event, pc, wakes) ∧
      Threads.move .blocked .woken s.pc t pc wakes = some s'.pc := by
  obtain ⟨⟨e, pc, wakes⟩, hstep, h⟩ := Option.bind_eq_some_iff.mp h
  obtain ⟨pcs, hmove, rfl⟩ := Option.map_eq_some_iff.mp h
  exact ⟨pc, wakes, hstep, hmove⟩

private theorem not_blocked_of_step {t : Tid} {e : ExEvent} {pc : EventPc}
    {r : ExEvent × EventPc × Option Tid} (h : exEventStep t e pc = some r) : pc ≠ .blocked := by
  intro heq
  subst heq
  cases h

private theorem drainInv_start {s : EventState} {t : Tid} {pc : EventPc} (h : DrainInv s)
    (ht : s.pc t = .idle) : DrainInv { s with pc := Function.update s.pc t pc } := by
  refine ⟨h.1, fun hsig hne => ?_⟩
  obtain ⟨r, hr⟩ := h.2 hsig hne
  have hrt : r ≠ t := by
    intro hrt
    rw [hrt, ht] at hr
    simp at hr
  exact ⟨r, by simpa [Function.update_of_ne hrt] using hr⟩

/-- The drainer's own steps, and those that change `Signaled` or the list. -/
private theorem drainInv_step {s s' : EventState} {t : Tid} (hinv : DrainInv s)
    (hq : EnqueuesUnsignaled s (.step t)) (h : nextEvent s (.step t) = some s') : DrainInv s' := by
  obtain ⟨htype, hdrain⟩ := hinv
  obtain ⟨pc, wakes, hstep, hmove⟩ := nextEvent_step h
  have hpc : s'.pc t = pc := Threads.move_self hmove (not_blocked_of_step hstep)
  have hold : s.event.signaled = true → s.event.waitingList ≠ [] →
      s.pc t ≠ .signalDrain → (∀ u, s.pc t ≠ .signalWake u) → Draining s' := by
    intro hsig hne hnd hnw
    obtain ⟨r, hr⟩ := hdrain hsig hne
    have hrt : r ≠ t := by
      intro heq
      subst heq
      rcases hr with hr | ⟨u, hr⟩
      · exact hnd hr
      · exact hnw u hr
    have hb : s.pc r ≠ .blocked := by
      intro hb
      simp [hb] at hr
    exact ⟨r, by rwa [Threads.move_frame hmove hrt hb]⟩
  have hnew : pc = .signalDrain ∨ (∃ u, pc = .signalWake u) → Draining s' :=
    fun hp => ⟨t, by rwa [hpc]⟩
  cases hcur : s.pc t with
  | waitInsert =>
    have hsig := hq hcur
    simp only [hcur, exEventStep, Option.some.injEq, Prod.mk.injEq] at hstep
    obtain ⟨he, -, -⟩ := hstep
    refine ⟨by rw [← he]; exact htype, fun hs => ?_⟩
    rw [← he] at hs
    simp [hsig] at hs
  | signalSet =>
    simp only [hcur, exEventStep, Option.some.injEq, Prod.mk.injEq] at hstep
    obtain ⟨he, hp, -⟩ := hstep
    exact ⟨by rw [← he]; exact htype, fun _ _ => hnew (Or.inl hp.symm)⟩
  | signalDrain =>
    simp only [hcur, exEventStep] at hstep
    split at hstep
    · rename_i hnil
      simp only [Option.some.injEq, Prod.mk.injEq] at hstep
      obtain ⟨he, -, -⟩ := hstep
      rw [DrainInv, ← he]
      exact ⟨htype, fun _ hne => absurd hnil hne⟩
    · rename_i u rest _
      simp only [Option.some.injEq, Prod.mk.injEq] at hstep
      obtain ⟨he, hp, -⟩ := hstep
      exact ⟨by rw [← he]; exact htype, fun _ _ => hnew (Or.inr ⟨u, hp.symm⟩)⟩
  | signalWake u =>
    simp only [hcur, exEventStep, htype, reduceCtorEq, ↓reduceIte, Option.some.injEq,
      Prod.mk.injEq] at hstep
    obtain ⟨he, hp, -⟩ := hstep
    exact ⟨by rw [← he]; exact htype, fun _ _ => hnew (Or.inl hp.symm)⟩
  | _ =>
    have hsame : s'.event.eventType = s.event.eventType ∧
        s'.event.signaled = s.event.signaled ∧ s'.event.waitingList = s.event.waitingList := by
      simp only [hcur, exEventStep, compareExchangeSignaled] at hstep
      grind
    refine ⟨hsame.1.trans htype, fun hsig hne => ?_⟩
    rw [hsame.2.1] at hsig
    rw [hsame.2.2] at hne
    exact hold hsig hne (by simp [hcur]) (by simp [hcur])

theorem drainInv_nextEvent {s s' : EventState} {a : EventAction} (hinv : DrainInv s)
    (hclear : a.isClear = false) (hq : EnqueuesUnsignaled s a) (h : nextEvent s a = some s') :
    DrainInv s' := by
  cases a with
  | wait t =>
    simp only [nextEvent] at h
    split_ifs at h with ht
    cases h
    exact drainInv_start hinv ht
  | signal t =>
    simp only [nextEvent] at h
    split_ifs at h with ht
    cases h
    exact drainInv_start hinv ht
  | clear t => cases hclear
  | step t => exact drainInv_step hinv hq h

/-- No wake-up of a notification event is lost in a run, without `ExEventClearSignal`, whose
waiters all link themselves before the signal. -/
theorem always_noLostWakeup {signaled : Bool} {tr : List (EventState × EventAction)} {s : EventState}
    (h : Exec (fun s a s' => nextEvent s a = some s') (eventStart .notification signaled) tr s)
    (hclear : ∀ v ∈ tr, v.2.isClear = false) (hq : ∀ v ∈ tr, EnqueuesUnsignaled v.1 v.2) :
    Always NoLostWakeup tr s := by
  have hstart : DrainInv (eventStart .notification signaled) :=
    ⟨rfl, fun _ hne => absurd rfl hne⟩
  have hinv : Always DrainInv tr s := by
    apply h.always_of_steps (Q := fun s a => a.isClear = false ∧ EnqueuesUnsignaled s a) hstart
    · intro s a s' hi hqa hs
      exact drainInv_nextEvent hi hqa.1 hqa.2 hs
    · intro v hv
      exact ⟨hclear v hv, hq v hv⟩
  exact hinv.mono fun _ => DrainInv.noLostWakeup

/-- Evaluates a list of actions on a notification event that is not signaled. -/
def runEvent (actions : List EventAction) : Option (List (EventState × EventAction) × EventState) :=
  exec nextEvent (eventStart .notification false) actions

/-- Thread 0 is blocked when thread 1 signals. -/
def earlyWait : List EventAction :=
  [.wait 0, .step 0, .step 0, .step 0, .step 0, .step 0, .signal 1, .step 1, .step 1, .step 1,
    .step 1, .step 1, .step 1, .step 0]

theorem noLostWakeup_of_earlyWait : ∃ h : (runEvent earlyWait).isSome,
    Always NoLostWakeup ((runEvent earlyWait).get h).1 ((runEvent earlyWait).get h).2 :=
  ⟨by decide, always_noLostWakeup (exec_get (by decide)) (by decide) (by decide)⟩

/-- Thread 0 tests the event, thread 1 signals it, then thread 0 links itself and blocks. -/
def lateWait : List EventAction :=
  [.wait 0, .step 0, .signal 1, .step 1, .step 1, .step 1, .step 1, .step 0, .step 0, .step 0,
    .step 0]

private theorem runEvent_lateWait : (runEvent lateWait).isSome := by
  decide

theorem wakeup_lost : ∃ tr s,
    Exec (fun s a s' => nextEvent s a = some s') (eventStart .notification false) tr s ∧
      (∀ v ∈ tr, v.2.isClear = false) ∧ ¬ NoLostWakeup s := by
  refine ⟨_, _, exec_get runEvent_lateWait, by decide, fun hlost => ?_⟩
  have hidle : ∀ t, (((runEvent lateWait).get runEvent_lateWait).2.pc t).inSignal = false
    | 0 => rfl
    | 1 => rfl
    | _ + 2 => rfl
  exact hlost rfl hidle rfl 0 (by decide) rfl

end HAL9000.Sync
