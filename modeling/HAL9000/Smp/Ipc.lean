import HAL9000.CommonLib.RefCount
import HAL9000.Lib.Run
import HAL9000.Lib.Threads

/-! The life of one inter-processor event of `ipc.c`: generated and queued by its sender,
processed on every destination, waited for if the sender asked to, and freed by whoever drops
the last reference. Each access to the event is a step of its own. -/
namespace HAL9000.Smp

open Run Threads

inductive EventType
  | notification
  | synchronization
  deriving DecidableEq, Repr

/-- `EVENT`, a busy-waiting event of `event.c`. -/
structure Event where
  eventType : EventType
  signaled : Bool
  deriving DecidableEq, Repr

def evtSignal (e : Event) : Event := { e with signaled := true }

/-- One turn of the loop of `EvtWaitForSignal`: the event after the compare-exchange, and whether
it was signaled before. -/
def evtWaitForSignal (e : Event) : Event × Bool :=
  let exchangeValue := decide (e.eventType = .notification)
  (if e.signaled then { e with signaled := exchangeValue } else e, e.signaled)

structure IpcEvent where
  refCnt : DWORD
  signalTermination : Bool
  terminationEvent : Event
  deriving DecidableEq, Repr

/-- The loop that takes the additional references. -/
def rfcReferences : ℕ → DWORD → Except Fault DWORD
  | 0, c => .ok c
  | k + 1, c => do rfcReferences k (← rfcReference c)

/-- `allocated` tells whether the pool had memory for the event. Without a wish to wait the
termination event keeps the zeroes of its allocation. The size of the event, a `DWORD`, is exact below
2^27 CPUs. -/
def ipcGenerateEvent (allocated waitForHandling : Bool) (numberOfCpus : DWORD) :
    Except Fault (Option IpcEvent) :=
  if numberOfCpus = 0 then .ok none
  else
    let noOfAdditionalReferences := if waitForHandling then numberOfCpus else numberOfCpus - 1
    if allocated then do
      let refCnt ← rfcReferences noOfAdditionalReferences.toNat rfcInit
      return some ⟨refCnt, waitForHandling,
        ⟨if waitForHandling then .synchronization else .notification, false⟩⟩
    else .ok none

/-- Where a destination stands: its part of the event not yet or still in its event list, or the
next step of `IpcProcessEvent` and of the functions that it calls. -/
inductive IpcCpuPc
  | unqueued
  | queued
  | function
  | readSignalTermination
  | dereference (signalTermination : Bool)
  | freeFunction
  | deallocate
  | signal
  | done
  deriving DecidableEq, Repr

/-- Where the sender stands in `SmpSendGenericIpiEx` once it has generated the event. -/
inductive IpcSenderPc
  | enqueue (i : ℕ)
  | sendIpi
  | assertSignalTermination
  | wait
  | dereference
  | freeFunction
  | deallocate
  | returned
  deriving DecidableEq, Repr

/-- `frees` counts how often the event was deallocated. -/
structure IpcState (n : ℕ) where
  event : IpcEvent
  frees : ℕ
  sender : IpcSenderPc
  cpu : Fin n → IpcCpuPc

variable {n : ℕ}

def ipcStart (n : ℕ) (e : IpcEvent) : IpcState n := ⟨e, 0, .enqueue 0, fun _ => .unqueued⟩

/-- What `IpcProcessEvent` does after it dropped its reference. -/
def afterDereference (signalTermination : Bool) (newRefCount : DWORD) : IpcCpuPc :=
  if newRefCount = 0 then .freeFunction
  else if signalTermination ∧ newRefCount = 1 then .signal
  else .done

/-- One step of destination `i`, from the removal of its entry from its event list on. -/
def ipcProcessEventStep (s : IpcState n) (i : Fin n) : Option (IpcState n) :=
  match s.cpu i with
  | .unqueued | .done => none
  | .queued => some { s with cpu := Function.update s.cpu i .function }
  | .function => some { s with cpu := Function.update s.cpu i .readSignalTermination }
  | .readSignalTermination =>
    some { s with cpu := Function.update s.cpu i (.dereference s.event.signalTermination) }
  | .dereference signalTermination =>
    match rfcDereference s.event.refCnt with
    | .error _ => none
    | .ok newRefCount =>
      some { s with
        event := { s.event with refCnt := newRefCount },
        cpu := Function.update s.cpu i (afterDereference signalTermination newRefCount) }
  | .freeFunction => some { s with cpu := Function.update s.cpu i .deallocate }
  | .deallocate =>
    some { s with frees := s.frees + 1, cpu := Function.update s.cpu i .done }
  | .signal =>
    some { s with
      event := { s.event with terminationEvent := evtSignal s.event.terminationEvent },
      cpu := Function.update s.cpu i .done }

/-- One step of the sender. -/
def smpSendGenericIpiStep (s : IpcState n) : Option (IpcState n) :=
  match s.sender with
  | .enqueue i =>
    if h : i < n then
      some { s with sender := .enqueue (i + 1), cpu := Function.update s.cpu ⟨i, h⟩ .queued }
    else some { s with sender := .sendIpi }
  | .sendIpi =>
    some { s with
      sender := if s.event.signalTermination then .assertSignalTermination else .returned }
  | .assertSignalTermination =>
    if s.event.signalTermination then some { s with sender := .wait } else none
  | .wait =>
    let (e, signaled) := evtWaitForSignal s.event.terminationEvent
    some { s with
      event := { s.event with terminationEvent := e },
      sender := if signaled then .dereference else .wait }
  | .dereference =>
    match rfcDereference s.event.refCnt with
    | .error _ => none
    | .ok newRefCount =>
      some { s with
        event := { s.event with refCnt := newRefCount },
        sender := if newRefCount = 0 then .freeFunction else .returned }
  | .freeFunction => some { s with sender := .deallocate }
  | .deallocate => some { s with frees := s.frees + 1, sender := .returned }
  | .returned => none

inductive IpcAction (n : ℕ)
  | sender
  | cpu (i : Fin n)
  deriving DecidableEq, Repr

def nextIpc (s : IpcState n) : IpcAction n → Option (IpcState n)
  | .sender => smpSendGenericIpiStep s
  | .cpu i => ipcProcessEventStep s i

/-- The event is linked into the destination's list, or the next step reads or writes it. -/
def IpcCpuPc.touches : IpcCpuPc → Bool
  | .unqueued | .done => false
  | _ => true

/-- The next step reads or writes the event. -/
def IpcSenderPc.touches (n : ℕ) : IpcSenderPc → Bool
  | .enqueue i => decide (i < n)
  | .sendIpi | .returned => false
  | _ => true

/-- The destination has run the broadcast function. -/
def IpcCpuPc.hasRun : IpcCpuPc → Bool
  | .unqueued | .queued | .function => false
  | _ => true

/-- The event is freed once and not used afterwards, the sender waits for every destination and
is always released from its wait, and no `ASSERT` fails. -/
structure IpcSafe (s : IpcState n) : Prop where
  freed_once : s.frees ≤ 1
  freed : s.sender = .returned → (∀ i, s.cpu i = .done) → s.frees = 1
  cpu_alive : ∀ i, (s.cpu i).touches = true → s.frees = 0
  sender_alive : s.sender.touches n = true → s.frees = 0
  handled : s.event.signalTermination = true → s.sender = .returned →
    ∀ i, (s.cpu i).hasRun = true
  released : s.sender = .wait → (∀ i, s.cpu i = .done) →
    s.event.terminationEvent.signaled = true
  cpu_asserts : ∀ i b, s.cpu i = .dereference b → (rfcDereference s.event.refCnt).isOk
  sender_asserts : s.sender = .assertSignalTermination → s.event.signalTermination = true
  sender_dereference : s.sender = .dereference → (rfcDereference s.event.refCnt).isOk

def IpcCpuPc.holds : IpcCpuPc → Bool
  | .unqueued | .queued | .function | .readSignalTermination | .dereference _ => true
  | _ => false

def IpcCpuPc.frees : IpcCpuPc → Bool
  | .freeFunction | .deallocate => true
  | _ => false

def IpcCpuPc.signals : IpcCpuPc → Bool
  | .signal => true
  | _ => false

def IpcSenderPc.holds : IpcSenderPc → Bool
  | .freeFunction | .deallocate | .returned => false
  | _ => true

def IpcSenderPc.frees : IpcSenderPc → Bool
  | .freeFunction | .deallocate => true
  | _ => false

/-- The sender has got past its wait. -/
def IpcSenderPc.passed : IpcSenderPc → Bool
  | .dereference | .freeFunction | .deallocate | .returned => true
  | _ => false

/-- Who holds a reference, who frees the event and where its one signal is. -/
structure IpcInv (s : IpcState n) : Prop where
  references : s.event.refCnt.toNat =
    population IpcCpuPc.holds s.cpu + (s.event.signalTermination && s.sender.holds).toNat
  freeing : s.frees + population IpcCpuPc.frees s.cpu + s.sender.frees.toNat =
    if s.event.refCnt.toNat = 0 then 1 else 0
  signaling : population IpcCpuPc.signals s.cpu + s.event.terminationEvent.signaled.toNat +
      (s.event.signalTermination && s.sender.passed).toNat =
    if s.event.signalTermination = true ∧ population IpcCpuPc.holds s.cpu = 0 then 1 else 0
  remembered : ∀ i b, s.cpu i = .dereference b → b = s.event.signalTermination
  synchronization : s.event.signalTermination = true →
    s.event.terminationEvent.eventType = .synchronization
  waits : s.event.signalTermination = true ∨ s.sender = .returned ∨ s.sender = .sendIpi ∨
    ∃ i, s.sender = .enqueue i
  unqueued : ∀ i, s.sender = .enqueue i → ∀ j : Fin n, i ≤ j → s.cpu j = .unqueued

theorem rfcReferences_toNat {k : ℕ} {c c' : DWORD} (h : rfcReferences k c = .ok c') :
    c'.toNat = c.toNat + k := by
  induction k generalizing c with
  | zero =>
    cases h
    rfl
  | succ k ih =>
    obtain ⟨c₁, hc, hk⟩ := bind_eq_ok.mp h
    have := ih hk
    have := rfcReference_toNat hc
    lia

/-- The event starts with one reference for each destination and one for a sender that waits. -/
theorem ipcGenerateEvent_eq_some {allocated waitForHandling : Bool} {numberOfCpus : DWORD}
    {e : IpcEvent} (h : ipcGenerateEvent allocated waitForHandling numberOfCpus = .ok (some e)) :
    0 < numberOfCpus.toNat ∧ e.signalTermination = waitForHandling ∧
      e.refCnt.toNat = numberOfCpus.toNat + waitForHandling.toNat ∧
      e.terminationEvent.signaled = false ∧
      (waitForHandling = true → e.terminationEvent.eventType = .synchronization) := by
  simp only [ipcGenerateEvent] at h
  split_ifs at h with hzero halloc hwait
  · cases h
  · obtain ⟨c, hc, he⟩ := bind_eq_ok.mp h
    cases he
    have href := rfcReferences_toNat hc
    have hpos : numberOfCpus.toNat ≠ 0 := fun h0 => hzero (BitVec.eq_of_toNat_eq h0)
    have hone : rfcInit.toNat = 1 := rfl
    refine ⟨by lia, rfl, ?_, rfl, fun _ => rfl⟩
    rw [hwait, Bool.toNat_true]
    show c.toNat = _
    omega
  · obtain ⟨c, hc, he⟩ := bind_eq_ok.mp h
    cases he
    have href := rfcReferences_toNat hc
    have hpos : numberOfCpus.toNat ≠ 0 := fun h0 => hzero (BitVec.eq_of_toNat_eq h0)
    have hone : rfcInit.toNat = 1 := rfl
    have hle : (1 : DWORD) ≤ numberOfCpus := by
      rw [BitVec.le_def]
      show 1 ≤ _
      omega
    have hpred := BitVec.toNat_sub_of_le hle
    have h1 : (1 : DWORD).toNat = 1 := rfl
    have hfalse : waitForHandling = false := by simpa using hwait
    refine ⟨by omega, rfl, ?_, rfl, fun ht => absurd ht hwait⟩
    rw [hfalse, Bool.toNat_false]
    show c.toNat = _
    lia
  · cases h

theorem ipcStart_inv {allocated waitForHandling : Bool} {numberOfCpus : DWORD} {e : IpcEvent}
    (h : ipcGenerateEvent allocated waitForHandling numberOfCpus = .ok (some e)) :
    IpcInv (ipcStart numberOfCpus.toNat e) := by
  obtain ⟨hpos, hterm, href, hsig, hsync⟩ := ipcGenerateEvent_eq_some h
  have hall : population IpcCpuPc.holds (ipcStart numberOfCpus.toNat e).cpu =
      numberOfCpus.toNat := by
    simp [population, ipcStart, IpcCpuPc.holds]
  have hnone : ∀ q : IpcCpuPc → Bool, q .unqueued = false →
      population q (ipcStart numberOfCpus.toNat e).cpu = 0 := by
    intro q hq
    exact population_eq_zero.mpr fun _ => hq
  constructor
  · rw [hall]
    simp [ipcStart, href, hterm, IpcSenderPc.holds]
  · rw [hnone _ rfl, if_neg (by simp only [ipcStart]; omega)]
    rfl
  · rw [hnone _ rfl, hall, if_neg (by omega)]
    simp [ipcStart, hsig, IpcSenderPc.passed]
  · intro i b hb
    cases hb
  · intro hs
    exact hsync (hterm ▸ hs)
  · exact Or.inr (Or.inr (Or.inr ⟨0, rfl⟩))
  · intro i hi j hj
    rfl

section Steps

variable {s s' : IpcState n}

/-- What the other destinations remember and whose entry is not queued yet does not change
when a destination moves. -/
theorem IpcInv.cpu_frame (hi : IpcInv s) {i : Fin n} {p : IpcCpuPc} (hold : s.cpu i ≠ .unqueued)
    (hr : ∀ b, p = .dereference b → b = s.event.signalTermination) :
    (∀ j b, Function.update s.cpu i p j = .dereference b → b = s.event.signalTermination) ∧
      ∀ k, s.sender = .enqueue k → ∀ j : Fin n, k ≤ j →
        Function.update s.cpu i p j = .unqueued := by
  constructor
  · intro j b hj
    by_cases hji : j = i
    · subst hji
      rw [Function.update_self] at hj
      exact hr b hj
    · rw [Function.update_of_ne hji] at hj
      exact hi.remembered j b hj
  · intro k hk j hj
    have hji : j ≠ i := by
      intro hji
      exact hold (hi.unqueued k hk i (hji ▸ hj))
    rw [Function.update_of_ne hji]
    exact hi.unqueued k hk j hj

/-- The counts after a destination went on. -/
theorem population_cpu {i : Fin n} {p : IpcCpuPc} (hpc : s.cpu i = p) (p' : IpcCpuPc) :
    population IpcCpuPc.holds (Function.update s.cpu i p') + p.holds.toNat =
        population IpcCpuPc.holds s.cpu + p'.holds.toNat ∧
      population IpcCpuPc.frees (Function.update s.cpu i p') + p.frees.toNat =
        population IpcCpuPc.frees s.cpu + p'.frees.toNat ∧
      population IpcCpuPc.signals (Function.update s.cpu i p') + p.signals.toNat =
        population IpcCpuPc.signals s.cpu + p'.signals.toNat := by
  subst hpc
  exact ⟨population_update .., population_update .., population_update ..⟩

/-- A destination goes on without a change to what the invariant counts. -/
theorem IpcInv.cpu_move (hi : IpcInv s) {i : Fin n} {p : IpcCpuPc} (hold : s.cpu i ≠ .unqueued)
    (hh : p.holds = (s.cpu i).holds) (hf : p.frees = (s.cpu i).frees)
    (hs : p.signals = (s.cpu i).signals)
    (hr : ∀ b, p = .dereference b → b = s.event.signalTermination) :
    IpcInv { s with cpu := Function.update s.cpu i p } := by
  obtain ⟨h₁, h₂, h₃⟩ := population_cpu (s := s) (i := i) rfl p
  rw [hh, Nat.add_right_cancel_iff] at h₁
  rw [hf, Nat.add_right_cancel_iff] at h₂
  rw [hs, Nat.add_right_cancel_iff] at h₃
  obtain ⟨hrem, hun⟩ := hi.cpu_frame hold hr
  refine ⟨?_, ?_, ?_, hrem, hi.synchronization, hi.waits, hun⟩
  · simpa only [h₁] using hi.references
  · simpa only [h₂] using hi.freeing
  · simpa only [h₁, h₃] using hi.signaling

/-- A reference that is held is counted, so the event has not been freed. -/
theorem IpcInv.alive (hi : IpcInv s) (href : 0 < s.event.refCnt.toNat) :
    s.frees = 0 ∧ population IpcCpuPc.frees s.cpu = 0 ∧ s.sender.frees = false := by
  have hf := hi.freeing
  rw [if_neg (by omega)] at hf
  refine ⟨by omega, by omega, ?_⟩
  cases hs : s.sender.frees with
  | false => rfl
  | true => simp [hs] at hf

/-- While a destination holds a reference, nobody signals and the sender is not past its wait. -/
theorem IpcInv.unsignaled (hi : IpcInv s) {i : Fin n} (hh : (s.cpu i).holds = true) :
    population IpcCpuPc.signals s.cpu = 0 ∧ s.event.terminationEvent.signaled = false ∧
      (s.event.signalTermination = true → s.sender.passed = false) := by
  have hpos := population_pos hh
  have hs := hi.signaling
  rw [if_neg (by omega)] at hs
  refine ⟨by omega, ?_, ?_⟩
  · cases ht : s.event.terminationEvent.signaled with
    | false => rfl
    | true => simp [ht] at hs
  · intro hterm
    cases hp : s.sender.passed with
    | false => rfl
    | true => simp [hp, hterm] at hs

theorem IpcSenderPc.holds_of_not_passed {p : IpcSenderPc} (h : p.passed = false) :
    p.holds = true := by
  cases p <;> first | rfl | cases h

theorem afterDereference_counts (b : Bool) (c : DWORD) :
    (afterDereference b c).holds = false ∧
      (afterDereference b c).frees.toNat = (if c.toNat = 0 then 1 else 0) ∧
      (afterDereference b c).signals.toNat = (if b = true ∧ c.toNat = 1 then 1 else 0) ∧
      ∀ b', afterDereference b c ≠ .dereference b' := by
  have hzero : c = 0 ↔ c.toNat = 0 := ⟨fun h => h ▸ rfl, fun h => BitVec.eq_of_toNat_eq h⟩
  have hone : c = 1 ↔ c.toNat = 1 := ⟨fun h => h ▸ rfl, fun h => BitVec.eq_of_toNat_eq h⟩
  simp only [afterDereference, hzero, hone]
  split_ifs with h₀ h₁
  · omega
  all_goals simp [IpcCpuPc.holds, IpcCpuPc.frees, IpcCpuPc.signals]

/-- Dropping a reference in `IpcProcessEvent`. The last destination to do so signals a sender
that waits, or frees the event if nobody waits. -/
theorem IpcInv.cpu_dereference (hi : IpcInv s) {i : Fin n} {b : Bool} {c : DWORD}
    (hpc : s.cpu i = .dereference b) (hc : rfcDereference s.event.refCnt = .ok c) :
    IpcInv { s with event := { s.event with refCnt := c },
                    cpu := Function.update s.cpu i (afterDereference b c) } := by
  obtain rfl := hi.remembered i b hpc
  have hhold : (s.cpu i).holds = true := by rw [hpc]; rfl
  have hnat := rfcDereference_toNat hc
  have href := hi.references
  obtain ⟨hfrees, hpf, hsf⟩ := hi.alive (by omega)
  obtain ⟨hps, hsig, hpass⟩ := hi.unsignaled hhold
  obtain ⟨hqh, hqf, hqs, hqd⟩ := afterDereference_counts s.event.signalTermination c
  obtain ⟨h₁, h₂, h₃⟩ := population_cpu hpc (afterDereference s.event.signalTermination c)
  rw [hqh, Bool.toNat_false] at h₁
  rw [hqf, hpf] at h₂
  rw [hqs, hps] at h₃
  simp only [IpcCpuPc.holds, IpcCpuPc.frees, IpcCpuPc.signals, Bool.toNat_true, Bool.toNat_false]
    at h₁ h₂ h₃
  obtain ⟨hrem, hun⟩ := hi.cpu_frame (p := afterDereference s.event.signalTermination c)
    (by rw [hpc]; nofun) fun b hb => absurd hb (hqd b)
  refine ⟨?_, ?_, ?_, hrem, hi.synchronization, hi.waits, hun⟩
  · simp only
    lia
  · simp only [hfrees, hsf, Bool.toNat_false]
    lia
  · cases hterm : s.event.signalTermination with
    | false =>
      simp [hterm] at h₃
      simp [hsig, h₃]
    | true =>
      have hnp := hpass hterm
      have hsh := IpcSenderPc.holds_of_not_passed hnp
      rw [hterm] at h₁ h₃
      simp only [hterm, hsh, Bool.and_self, Bool.toNat_true] at href
      simp only [hsig, hnp, true_and] at h₃ ⊢
      simp only [Bool.and_false, Bool.toNat_false]
      split_ifs at h₃ ⊢ <;> lia

theorem IpcInv.cpu_deallocate (hi : IpcInv s) {i : Fin n} (hpc : s.cpu i = .deallocate) :
    IpcInv { s with frees := s.frees + 1, cpu := Function.update s.cpu i .done } := by
  obtain ⟨h₁, h₂, h₃⟩ := population_cpu hpc .done
  simp only [IpcCpuPc.holds, IpcCpuPc.frees, IpcCpuPc.signals, Bool.toNat_false, Bool.toNat_true,
    Nat.add_zero] at h₁ h₂ h₃
  obtain ⟨hrem, hun⟩ := hi.cpu_frame (p := .done) (by rw [hpc]; nofun) nofun
  refine ⟨?_, ?_, ?_, hrem, hi.synchronization, hi.waits, hun⟩
  · simpa only [h₁] using hi.references
  · have hf := hi.freeing
    simp only
    lia
  · simpa only [h₁, h₃] using hi.signaling

theorem IpcInv.cpu_signal (hi : IpcInv s) {i : Fin n} (hpc : s.cpu i = .signal) :
    IpcInv { s with
      event := { s.event with terminationEvent := evtSignal s.event.terminationEvent },
      cpu := Function.update s.cpu i .done } := by
  obtain ⟨h₁, h₂, h₃⟩ := population_cpu hpc .done
  simp only [IpcCpuPc.holds, IpcCpuPc.frees, IpcCpuPc.signals, Bool.toNat_false, Bool.toNat_true,
    Nat.add_zero] at h₁ h₂ h₃
  obtain ⟨hrem, hun⟩ := hi.cpu_frame (p := .done) (by rw [hpc]; nofun) nofun
  refine ⟨?_, ?_, ?_, hrem, hi.synchronization, hi.waits, hun⟩
  · simpa only [h₁] using hi.references
  · simpa only [h₂] using hi.freeing
  · have hs := hi.signaling
    have hle : s.event.terminationEvent.signaled.toNat = 0 := by
      split_ifs at hs <;> lia
    simp only [evtSignal, h₁, Bool.toNat_true]
    rw [hle] at hs
    lia

theorem ipcProcessEventStep_inv (hi : IpcInv s) {i : Fin n}
    (h : ipcProcessEventStep s i = some s') : IpcInv s' := by
  have hne : s.cpu i ≠ .unqueued := by
    intro hu
    simp [ipcProcessEventStep, hu] at h
  cases hpc : s.cpu i with
  | unqueued | done => simp [ipcProcessEventStep, hpc] at h
  | queued | function | freeFunction | readSignalTermination =>
    simp only [ipcProcessEventStep, hpc] at h
    cases h
    apply hi.cpu_move hne <;> simp [hpc, IpcCpuPc.holds, IpcCpuPc.frees, IpcCpuPc.signals]
  | dereference b =>
    simp only [ipcProcessEventStep, hpc] at h
    cases hc : rfcDereference s.event.refCnt with
    | error e => simp [hc] at h
    | ok c =>
      simp only [hc] at h
      cases h
      exact hi.cpu_dereference hpc hc
  | deallocate =>
    simp only [ipcProcessEventStep, hpc] at h
    cases h
    exact hi.cpu_deallocate hpc
  | signal =>
    simp only [ipcProcessEventStep, hpc] at h
    cases h
    exact hi.cpu_signal hpc

/-- The sender goes on without a change to what the invariant counts. -/
theorem IpcInv.sender_move (hi : IpcInv s) {q : IpcSenderPc}
    (hh : (s.event.signalTermination && q.holds) = (s.event.signalTermination && s.sender.holds))
    (hf : q.frees = s.sender.frees)
    (hp : (s.event.signalTermination && q.passed) = (s.event.signalTermination && s.sender.passed))
    (hw : s.event.signalTermination = true ∨ q = .returned ∨ q = .sendIpi)
    (hq : ∀ k, q ≠ .enqueue k) : IpcInv { s with sender := q } := by
  refine ⟨?_, ?_, ?_, hi.remembered, hi.synchronization, ?_, fun k hk => absurd hk (hq k)⟩
  · simpa only [hh] using hi.references
  · simpa only [hf] using hi.freeing
  · simpa only [hp] using hi.signaling
  · rcases hw with hw | hw | hw
    · exact Or.inl hw
    · exact Or.inr (Or.inl hw)
    · exact Or.inr (Or.inr (Or.inl hw))

/-- The sender queues the entry of the next destination. -/
theorem IpcInv.sender_enqueue (hi : IpcInv s) {k : ℕ} (hpc : s.sender = .enqueue k) (hk : k < n) :
    IpcInv { s with sender := .enqueue (k + 1), cpu := Function.update s.cpu ⟨k, hk⟩ .queued } := by
  have hun := hi.unqueued k hpc ⟨k, hk⟩ (Nat.le_refl k)
  obtain ⟨h₁, h₂, h₃⟩ := population_cpu hun .queued
  have hr := hi.references
  have hf := hi.freeing
  have hs := hi.signaling
  rw [hpc] at hr hf hs
  simp only [IpcCpuPc.holds, IpcCpuPc.frees, IpcCpuPc.signals, Nat.add_right_cancel_iff] at h₁ h₂ h₃
  refine ⟨?_, ?_, ?_, ?_, hi.synchronization, Or.inr (Or.inr (Or.inr ⟨k + 1, rfl⟩)), ?_⟩
  · simp only [h₁]
    exact hr
  · simp only [h₂]
    exact hf
  · simp only [h₁, h₃]
    exact hs
  · intro j b hj
    by_cases hjk : j = ⟨k, hk⟩
    · subst hjk
      simp [Function.update_self] at hj
    · simp only [Function.update_of_ne hjk] at hj
      exact hi.remembered j b hj
  · intro k' hk' j hj
    cases hk'
    have hjk : j ≠ ⟨k, hk⟩ := by
      intro hjk
      subst hjk
      simp at hj
    simp only [Function.update_of_ne hjk]
    exact hi.unqueued k hpc j (by omega)

theorem IpcInv.sender_waits (hi : IpcInv s) (h₁ : s.sender ≠ .returned) (h₂ : s.sender ≠ .sendIpi)
    (h₃ : ∀ i, s.sender ≠ .enqueue i) : s.event.signalTermination = true := by
  rcases hi.waits with hw | hw | hw | ⟨i, hw⟩
  · exact hw
  · exact absurd hw h₁
  · exact absurd hw h₂
  · exact absurd hw (h₃ i)

/-- Once the sender is past its wait, no destination holds a reference. -/
theorem IpcInv.none_holds (hi : IpcInv s) (ht : s.event.signalTermination = true)
    (hp : s.sender.passed = true) : population IpcCpuPc.holds s.cpu = 0 := by
  have hs := hi.signaling
  rw [ht, hp] at hs
  by_contra hne
  simp [hne] at hs

/-- A synchronization event lets one waiter pass and is cleared by it. -/
theorem evtWaitForSignal_synchronization {e : Event} (ht : e.eventType = .synchronization)
    (hs : e.signaled = true) : evtWaitForSignal e = (⟨.synchronization, false⟩, true) := by
  simp [evtWaitForSignal, ht, hs]

theorem IpcInv.sender_wait (hi : IpcInv s) (hpc : s.sender = .wait)
    (hsig : s.event.terminationEvent.signaled = true) :
    IpcInv { s with
      event := { s.event with terminationEvent := ⟨.synchronization, false⟩ }
      sender := .dereference } := by
  have ht := hi.sender_waits (by rw [hpc]; nofun) (by rw [hpc]; nofun) (by rw [hpc]; nofun)
  have hr := hi.references
  have hf := hi.freeing
  have hs := hi.signaling
  rw [hpc] at hr hf hs
  refine ⟨hr, hf, ?_, hi.remembered, fun _ => rfl, Or.inl ht, nofun⟩
  simp only [ht, hsig, IpcSenderPc.passed, Bool.and_false, Bool.and_true, Bool.toNat_false,
    Bool.toNat_true] at hs ⊢
  exact hs

theorem IpcInv.sender_dereference (hi : IpcInv s) (hpc : s.sender = .dereference) {c : DWORD}
    (hc : rfcDereference s.event.refCnt = .ok c) :
    IpcInv { s with event := { s.event with refCnt := c },
                    sender := if c = 0 then .freeFunction else .returned } := by
  have ht := hi.sender_waits (by rw [hpc]; nofun) (by rw [hpc]; nofun) (by rw [hpc]; nofun)
  have hnone := hi.none_holds ht (by rw [hpc]; rfl)
  have hnat := rfcDereference_toNat hc
  have hr := hi.references
  have hs := hi.signaling
  obtain ⟨hfrees, hpf, -⟩ := hi.alive (by omega)
  rw [hpc, ht, hnone] at hr
  rw [hpc, ht] at hs
  have hzero : c.toNat = 0 := by
    simp only [IpcSenderPc.holds, Bool.and_self, Bool.toNat_true] at hr
    omega
  obtain rfl : c = 0 := BitVec.eq_of_toNat_eq hzero
  refine ⟨?_, ?_, ?_, hi.remembered, hi.synchronization, Or.inl ht, nofun⟩
  · simp [hnone, IpcSenderPc.holds]
  · simp [hfrees, hpf, IpcSenderPc.frees]
  · simpa [ht, IpcSenderPc.passed] using hs

theorem IpcInv.sender_deallocate (hi : IpcInv s) (hpc : s.sender = .deallocate) :
    IpcInv { s with frees := s.frees + 1, sender := .returned } := by
  have hr := hi.references
  have hf := hi.freeing
  have hs := hi.signaling
  rw [hpc] at hr hf hs
  refine ⟨hr, ?_, hs, hi.remembered, hi.synchronization, Or.inr (Or.inl rfl), nofun⟩
  simp only [IpcSenderPc.frees, Bool.toNat_true, Bool.toNat_false] at hf ⊢
  omega

theorem smpSendGenericIpiStep_inv (hi : IpcInv s) (h : smpSendGenericIpiStep s = some s') :
    IpcInv s' := by
  cases hpc : s.sender with
  | enqueue k =>
    simp only [smpSendGenericIpiStep, hpc] at h
    split_ifs at h with hk
    · cases h
      exact hi.sender_enqueue hpc hk
    · cases h
      apply hi.sender_move <;> simp [hpc, IpcSenderPc.holds, IpcSenderPc.frees, IpcSenderPc.passed]
  | sendIpi =>
    simp only [smpSendGenericIpiStep, hpc] at h
    cases h
    cases ht : s.event.signalTermination <;> apply hi.sender_move <;>
      simp [hpc, ht, IpcSenderPc.holds, IpcSenderPc.frees, IpcSenderPc.passed]
  | assertSignalTermination =>
    simp only [smpSendGenericIpiStep, hpc] at h
    split_ifs at h with ht
    cases h
    apply hi.sender_move <;>
      simp [hpc, ht, IpcSenderPc.holds, IpcSenderPc.frees, IpcSenderPc.passed]
  | wait =>
    have ht := hi.sender_waits (by rw [hpc]; nofun) (by rw [hpc]; nofun) (by rw [hpc]; nofun)
    cases hsig : s.event.terminationEvent.signaled with
    | false =>
      simp only [smpSendGenericIpiStep, hpc, evtWaitForSignal, hsig] at h
      cases h
      apply hi.sender_move <;> simp [hpc, ht]
    | true =>
      simp only [smpSendGenericIpiStep, hpc,
        evtWaitForSignal_synchronization (hi.synchronization ht) hsig] at h
      cases h
      exact hi.sender_wait hpc hsig
  | dereference =>
    simp only [smpSendGenericIpiStep, hpc] at h
    cases hc : rfcDereference s.event.refCnt with
    | error e => simp [hc] at h
    | ok c =>
      simp only [hc] at h
      cases h
      exact hi.sender_dereference hpc hc
  | freeFunction =>
    have ht := hi.sender_waits (by rw [hpc]; nofun) (by rw [hpc]; nofun) (by rw [hpc]; nofun)
    simp only [smpSendGenericIpiStep, hpc] at h
    cases h
    apply hi.sender_move <;>
      simp [hpc, ht, IpcSenderPc.holds, IpcSenderPc.frees, IpcSenderPc.passed]
  | deallocate =>
    simp only [smpSendGenericIpiStep, hpc] at h
    cases h
    exact hi.sender_deallocate hpc
  | returned => simp [smpSendGenericIpiStep, hpc] at h

theorem nextIpc_inv (hi : IpcInv s) {a : IpcAction n} (h : nextIpc s a = some s') : IpcInv s' := by
  cases a with
  | sender => exact smpSendGenericIpiStep_inv hi h
  | cpu i => exact ipcProcessEventStep_inv hi h

theorem IpcCpuPc.signals_of_touches {p : IpcCpuPc} (ht : p.touches = true) (hh : p.holds = false)
    (hf : p.frees = false) : p.signals = true := by
  cases p with
  | signal => rfl
  | unqueued | done => cases ht
  | freeFunction | deallocate => cases hf
  | queued | function | readSignalTermination | dereference b => cases hh

/-- An event that a destination holds or frees, or whose sender it signals, is still allocated. -/
theorem IpcInv.cpu_alive (hi : IpcInv s) {i : Fin n} (ht : (s.cpu i).touches = true) :
    s.frees = 0 := by
  have hr := hi.references
  have hf := hi.freeing
  cases hh : (s.cpu i).holds with
  | true =>
    have hpos := population_pos hh
    exact (hi.alive (by omega)).1
  | false =>
    cases hfr : (s.cpu i).frees with
    | true =>
      have hpos := population_pos hfr
      split_ifs at hf <;> omega
    | false =>
      have hpos := population_pos (IpcCpuPc.signals_of_touches ht hh hfr)
      have hs := hi.signaling
      have hwait : s.event.signalTermination = true ∧ s.sender.passed = false := by
        split_ifs at hs with hc
        · rw [hc.1] at hs ⊢
          cases hp : s.sender.passed with
          | false => exact ⟨rfl, rfl⟩
          | true =>
            simp [hp] at hs
            omega
        · omega
      have hhold := IpcSenderPc.holds_of_not_passed hwait.2
      rw [hwait.1, hhold] at hr
      exact (hi.alive (by simp at hr; omega)).1

theorem IpcInv.sender_alive (hi : IpcInv s) (ht : s.sender.touches n = true) : s.frees = 0 := by
  have hr := hi.references
  have hf := hi.freeing
  have hholds : s.event.signalTermination = true → s.sender.holds = true → s.frees = 0 := by
    intro hw hh
    rw [hw, hh] at hr
    exact (hi.alive (by simp at hr; omega)).1
  cases hpc : s.sender with
  | enqueue k =>
    rw [hpc] at ht
    have hk : k < n := by simpa [IpcSenderPc.touches] using ht
    have hun := hi.unqueued k hpc ⟨k, hk⟩ (Nat.le_refl k)
    have hholds : (s.cpu ⟨k, hk⟩).holds = true := by
      rw [hun]
      rfl
    have hpos := population_pos hholds
    exact (hi.alive (by lia)).1
  | sendIpi | returned =>
    rw [hpc] at ht
    cases ht
  | assertSignalTermination | wait | dereference =>
    apply hholds
    · apply hi.sender_waits <;> rw [hpc] <;> nofun
    · rw [hpc]
      rfl
  | freeFunction | deallocate =>
    rw [hpc] at hf
    simp only [IpcSenderPc.frees, Bool.toNat_true] at hf
    split_ifs at hf
    omega

/-- Nobody holds a reference once every destination is done. -/
theorem population_done (hd : ∀ i, s.cpu i = .done) :
    population IpcCpuPc.holds s.cpu = 0 ∧ population IpcCpuPc.frees s.cpu = 0 ∧
      population IpcCpuPc.signals s.cpu = 0 := by
  have hnone : ∀ q : IpcCpuPc → Bool, q .done = false → population q s.cpu = 0 := by
    intro q hq
    apply population_eq_zero.mpr
    intro i
    rw [hd i, hq]
  exact ⟨hnone _ rfl, hnone _ rfl, hnone _ rfl⟩

theorem IpcInv.safe (hi : IpcInv s) : IpcSafe s where
  freed_once := by
    have hf := hi.freeing
    split_ifs at hf <;> omega
  freed := by
    intro hret hd
    obtain ⟨hh, hfr, -⟩ := population_done hd
    have hr := hi.references
    have hf := hi.freeing
    rw [hret, hh] at hr
    rw [hret, hfr] at hf
    simp only [IpcSenderPc.holds, Bool.and_false, Bool.toNat_false] at hr
    simpa [hr, IpcSenderPc.frees] using hf
  cpu_alive := fun i ht => hi.cpu_alive ht
  sender_alive := hi.sender_alive
  handled := by
    intro hw hret i
    have hnone := population_eq_zero.mp (hi.none_holds hw (by rw [hret]; rfl)) i
    cases hpc : s.cpu i <;> rw [hpc] at hnone <;> first | rfl | cases hnone
  released := by
    intro hwait hd
    obtain ⟨hh, -, hsg⟩ := population_done hd
    have hw : s.event.signalTermination = true := by
      apply hi.sender_waits <;> rw [hwait] <;> nofun
    have hs := hi.signaling
    rw [hwait, hw, hh, hsg] at hs
    cases ht : s.event.terminationEvent.signaled with
    | true => rfl
    | false => simp [ht, IpcSenderPc.passed] at hs
  cpu_asserts := by
    intro i b hpc
    have hholds : (s.cpu i).holds = true := by
      rw [hpc]
      rfl
    have hpos := population_pos hholds
    have hr := hi.references
    rw [rfcDereference_of_pos (by omega)]
    rfl
  sender_asserts := by
    intro hpc
    apply hi.sender_waits <;> rw [hpc] <;> nofun
  sender_dereference := by
    intro hpc
    have hw : s.event.signalTermination = true := by
      apply hi.sender_waits <;> rw [hpc] <;> nofun
    have hr := hi.references
    rw [hpc, hw] at hr
    simp only [IpcSenderPc.holds, Bool.and_self, Bool.toNat_true] at hr
    rw [rfcDereference_of_pos (by omega)]
    rfl

end Steps

/-- Every state of every run of an event, for any number of destinations, with or without a
sender that waits. -/
theorem ipcEvent_safe {allocated waitForHandling : Bool} {numberOfCpus : DWORD} {e : IpcEvent}
    (hg : ipcGenerateEvent allocated waitForHandling numberOfCpus = .ok (some e))
    {tr : List (IpcState numberOfCpus.toNat × IpcAction numberOfCpus.toNat)}
    {s : IpcState numberOfCpus.toNat}
    (h : Exec (fun s a s' => nextIpc s a = some s') (ipcStart numberOfCpus.toNat e) tr s) :
    Always IpcSafe tr s := by
  have hinv := h.always (ipcStart_inv hg) fun s a s' hi hs => nextIpc_inv hi hs
  exact hinv.mono fun s hi => hi.safe

/-- The sender queues the event on two processors and waits; both process it, the second while
the sender already spins. -/
def broadcastToTwo : List (IpcAction 2) :=
  [.sender, .cpu 0, .sender, .cpu 0, .sender, .sender, .cpu 0, .cpu 0, .sender, .sender,
    .cpu 1, .cpu 1, .cpu 1, .cpu 1, .sender, .cpu 1, .sender, .sender, .sender, .sender]

/-- What two processors and a sender that waits start with. -/
def waitedEvent : IpcEvent := ⟨3, true, ⟨.synchronization, false⟩⟩

private theorem waitedEvent_generated :
    ipcGenerateEvent true true 2 = .ok (some waitedEvent) := rfl

theorem broadcastToTwo_safe :
    ∃ h : (exec nextIpc (ipcStart 2 waitedEvent) broadcastToTwo).isSome,
      ((exec nextIpc (ipcStart 2 waitedEvent) broadcastToTwo).get h).2.frees = 1 ∧
      Always IpcSafe ((exec nextIpc (ipcStart 2 waitedEvent) broadcastToTwo).get h).1
        ((exec nextIpc (ipcStart 2 waitedEvent) broadcastToTwo).get h).2 :=
  ⟨by decide, by decide, ipcEvent_safe waitedEvent_generated (exec_get (by decide))⟩

end HAL9000.Smp
