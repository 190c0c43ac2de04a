import HAL9000.Network.Frames
import HAL9000.Sync.MutexInvariant

/-! Requests to one network device. `IoCallDriver` holds the `DeviceLock` around
`NetPortDeviceControl`, which waits for a frame when it is asked to receive one. The miniport's
notifications and the transmit worker do not take the lock. -/
namespace HAL9000.Network

open Run Sync

def sizeofNetReceiveFrameOutput : DWORD := 14
def sizeofNetGetSetPhysicalAddress : DWORD := 6
def sizeofNetGetSetDeviceStatus : DWORD := 2
def sizeofNetGetLinkStatus : DWORD := 1

/-- A device control request with the lengths and the input of its stack location. -/
inductive NetRequest (Payload : Type)
  | receiveFrame (outputBufferLength : DWORD)
  | getPhysicalAddress (outputBufferLength : DWORD)
  | sendFrame (frame : Frame Payload)
  | getDeviceStatus (outputBufferLength : DWORD)
  | setDeviceStatus (inputBufferLength : DWORD) (rxEnabled txEnabled : Bool)
  | getLinkStatus (outputBufferLength : DWORD)
  | other
  deriving DecidableEq, Repr

inductive ControlStatus
  | of (status : NetStatus)
  | unsupported
  deriving DecidableEq, Repr

/-- What a request writes to the output buffer; the frame of a receive is in the log of its port. -/
inductive NetOutput
  | none
  | physicalAddress (address : BitVec 48)
  | deviceStatus (rxEnabled txEnabled : Bool)
  | linkStatus (linkUp : Bool)
  deriving DecidableEq, Repr

structure IoStatusBlock where
  status : ControlStatus
  information : DWORD
  output : NetOutput
  deriving DecidableEq, Repr

/-- Where a thread stands in `IoCallDriver`, in the miniport's receive notification or in the transmit
worker. -/
inductive CallPc (Payload : Type)
  | outside (last : Option IoStatusBlock)
  | acquiring (request : NetRequest Payload)
  | dispatching (request : NetRequest Payload)
  | receiving
  | sending
  | completing (io : IoStatusBlock)
  | releasing (io : IoStatusBlock)
  | notifying
  | transmitting
  deriving DecidableEq, Repr

structure DeviceState (Payload : Type) where
  deviceLock : MutexState
  rx : PortState Tid Payload
  tx : PortState Tid Payload
  physicalAddress : BitVec 48
  pc : Tid → CallPc Payload

variable {Payload : Type}

namespace DeviceState

def goto (s : DeviceState Payload) (t : Tid) (p : CallPc Payload) : DeviceState Payload :=
  { s with pc := Function.update s.pc t p }

/-- The status of the miniport device, which the dispatch functions of both directions look at. -/
def setStatus (s : DeviceState Payload) (linkUp rxEnabled txEnabled : Bool) : DeviceState Payload :=
  { s with
    rx := { s.rx with linkUp := linkUp, rxEnabled := rxEnabled, txEnabled := txEnabled }
    tx := { s.tx with linkUp := linkUp, rxEnabled := rxEnabled, txEnabled := txEnabled } }

/-- A request that needs `size` bytes of a buffer of `length` bytes and writes its answer there. -/
def answer (s : DeviceState Payload) (t : Tid) (length size : DWORD) (output : NetOutput) :
    DeviceState Payload :=
  s.goto t (.completing (if length < size then ⟨.of .bufferTooSmall, size, .none⟩
    else ⟨.of .success, size, output⟩))

end DeviceState

section Steps

variable (rxBuffers txBuffers : PortBuffers)

/-- The `switch` of `NetPortDeviceControl`. -/
def netPortDeviceControl (s : DeviceState Payload) (t : Tid) (allocated : Bool) :
    NetRequest Payload → Option (DeviceState Payload)
  | .receiveFrame outputBufferLength =>
    if outputBufferLength < sizeofNetReceiveFrameOutput then
      some (s.answer t outputBufferLength sizeofNetReceiveFrameOutput .none)
    else
      (nextPort .rx rxBuffers s.rx (.receive t outputBufferLength)).map fun rx =>
        { s with rx := rx }.goto t .receiving
  | .getPhysicalAddress outputBufferLength =>
    some (s.answer t outputBufferLength sizeofNetGetSetPhysicalAddress
      (.physicalAddress s.physicalAddress))
  | .sendFrame frame =>
    (nextPort .tx txBuffers s.tx (.send t frame 0 allocated)).map fun tx =>
      { s with tx := tx }.goto t .sending
  | .getDeviceStatus outputBufferLength =>
    some (s.answer t outputBufferLength sizeofNetGetSetDeviceStatus
      (.deviceStatus s.rx.rxEnabled s.tx.txEnabled))
  | .setDeviceStatus inputBufferLength rxEnabled txEnabled =>
    if inputBufferLength < sizeofNetGetSetDeviceStatus then
      some (s.answer t inputBufferLength sizeofNetGetSetDeviceStatus .none)
    else
      some ((s.setStatus s.rx.linkUp rxEnabled txEnabled).answer t inputBufferLength
        sizeofNetGetSetDeviceStatus .none)
  | .getLinkStatus outputBufferLength =>
    some (s.answer t outputBufferLength sizeofNetGetLinkStatus (.linkStatus s.rx.linkUp))
  | .other => some (s.goto t (.completing ⟨.unsupported, 0, .none⟩))

/-- One step of `DeviceLock`. -/
def DeviceState.mutexStep (s : DeviceState Payload) (t : Tid) : Option (DeviceState Payload) :=
  (nextMutex s.deviceLock (.step t)).map fun m => { s with deviceLock := m }

/-- One step of a thread. -/
def deviceStep (s : DeviceState Payload) (t : Tid) : Option (DeviceState Payload) :=
  match s.pc t with
  | .outside _ | .dispatching _ => none
  | .acquiring request =>
    if s.deviceLock.pc t = .idle then some (s.goto t (.dispatching request)) else s.mutexStep t
  | .receiving =>
    match s.rx.pc t with
    | .returned status information =>
      some (s.goto t (.completing ⟨.of status, information, .none⟩))
    | _ => (netStep s.rx t).map fun rx => { s with rx := rx }
  | .sending =>
    match s.tx.pc t with
    | .returned status _ => some (s.goto t (.completing ⟨.of status, 0, .none⟩))
    | _ => (netStep s.tx t).map fun tx => { s with tx := tx }
  | .completing io =>
    (nextMutex s.deviceLock (.release t)).map fun m =>
      { s with deviceLock := m }.goto t (.releasing io)
  | .releasing io =>
    if s.deviceLock.pc t = .idle then some (s.goto t (.outside (some io))) else s.mutexStep t
  | .notifying =>
    match s.rx.pc t with
    | .returned _ _ => some (s.goto t (.outside none))
    | _ => (netStep s.rx t).map fun rx => { s with rx := rx }
  | .transmitting => (netStep s.tx t).map fun tx => { s with tx := tx }

inductive DeviceAction (Payload : Type)
  | ioCallDriver (t : Tid) (request : NetRequest Payload)
  | dispatch (t : Tid) (allocated : Bool)
  | notifyReceiveBuffer (t : Tid) (frame : Frame Payload) (descriptorIndex : DWORD)
      (allocated : Bool)
  | step (t : Tid)
  | notifyLinkStatusChange (linkUp : Bool)
  | notifyTxDescriptorAvailable
  | notifyTxQueueFull
  deriving DecidableEq, Repr

/-- Threads make requests, frames arrive, and the miniport reports its link and its transmit queue. -/
def nextDevice (s : DeviceState Payload) : DeviceAction Payload → Option (DeviceState Payload)
  | .ioCallDriver t request =>
    match s.pc t with
    | .outside _ =>
      (nextMutex s.deviceLock (.acquire t)).map fun m =>
        { s with deviceLock := m }.goto t (.acquiring request)
    | _ => none
  | .dispatch t allocated =>
    match s.pc t with
    | .dispatching request => netPortDeviceControl rxBuffers txBuffers s t allocated request
    | _ => none
  | .notifyReceiveBuffer t frame descriptorIndex allocated =>
    match s.pc t with
    | .outside _ =>
      (nextPort .rx rxBuffers s.rx (.send t frame descriptorIndex allocated)).map fun rx =>
        { s with rx := rx }.goto t .notifying
    | _ => none
  | .step t => deviceStep s t
  | .notifyLinkStatusChange linkUp => some (s.setStatus linkUp s.rx.rxEnabled s.tx.txEnabled)
  | .notifyTxDescriptorAvailable =>
    (nextPort .tx txBuffers s.tx .notifyTxDescriptorAvailable).map fun tx => { s with tx := tx }
  | .notifyTxQueueFull =>
    (nextPort .tx txBuffers s.tx .notifyTxQueueFull).map fun tx => { s with tx := tx }

end Steps

/-- A device after its initialisation: the transmit worker runs and no request is made yet. -/
def deviceStart (worker : Tid) (physicalAddress : BitVec 48) : DeviceState Payload where
  deviceLock := mutexStart false
  rx := portStart .rx worker
  tx := portStart .tx worker
  physicalAddress := physicalAddress
  pc := fun t => if t = worker then .transmitting else .outside none

/-- The thread is blocked in `_NetDispatchReceiveFrame`. -/
def NetPc.waits : NetPc Payload → Bool
  | .rxBlocked _ => true
  | _ => false

/-- The thread is blocked on an event of a port. -/
def NetPc.blocked : NetPc Payload → Bool
  | .rxBlocked _ | .txBlocked | .txBlockedDescriptors _ => true
  | _ => false

def DeviceState.Blocked (s : DeviceState Payload) (t : Tid) : Prop :=
  s.deviceLock.pc t = .blocked ∨ (s.rx.pc t).blocked = true ∨ (s.tx.pc t).blocked = true

/-- While a thread waits for a frame, no blocked thread holds the `DeviceLock`. -/
def ReceiversYield (s : DeviceState Payload) : Prop :=
  ∀ t, (s.rx.pc t).waits = true → ∀ u, s.deviceLock.mutex.holder = some u → ¬ s.Blocked u

/-- The receiver is about to wait for the event. -/
def NetPc.atWait : NetPc Payload → Bool
  | .rxWait _ => true
  | _ => false

/-- The step makes a receiver wait on an event that is not signaled. -/
def BlocksReceiver (s : DeviceState Payload) : DeviceAction Payload → Prop
  | .step t => (s.rx.pc t).atWait = true ∧ s.rx.framesListNotEmptyEvent = false
  | _ => False

instance (s : DeviceState Payload) (a : DeviceAction Payload) : Decidable (BlocksReceiver s a) :=
  match a with
  | .step _ => inferInstanceAs (Decidable (_ ∧ _))
  | .ioCallDriver _ _ | .dispatch _ _ | .notifyReceiveBuffer _ _ _ _ | .notifyLinkStatusChange _
  | .notifyTxDescriptorAvailable | .notifyTxQueueFull => inferInstanceAs (Decidable False)

section Port

variable {s s' : PortState Tid Payload} {t : Tid}

/-- A step moves its own thread; a signal also lets the blocked threads go on. -/
theorem netStep_pc (h : netStep s t = some s') :
    (∃ p, s'.pc = Function.update s.pc t p) ∨
      s.pc t = .sendSignal ∧
        s'.pc = fun u => (Function.update s.pc t (.returned .success 0) u).wakeFrames := by
  unfold netStep at h
  cases hp : s.pc t <;> simp only [hp] at h <;> (try split at h) <;> cases h <;>
    simp [PortState.goto]

/-- Only a receive goes on as a receive, and it waits when it finds the event clear. -/
theorem netStep_receives (h : netStep s t = some s') :
    ((s'.pc t).receives = true → (s.pc t).receives = true) ∧
      ((s'.pc t).waits = true ↔
        (s.pc t).atWait = true ∧ s.framesListNotEmptyEvent = false) := by
  unfold netStep at h
  cases hp : s.pc t <;> simp only [hp] at h <;> (try split at h) <;> cases h <;>
    (try split) <;>
    simp_all [PortState.goto, NetPc.receives, NetPc.waits, NetPc.atWait, NetPc.wakeFrames]

theorem wakeFrames_waits (p : NetPc Payload) : p.wakeFrames.waits = false := by
  cases p <;> rfl

theorem wakeFrames_receives (p : NetPc Payload) : p.wakeFrames.receives = p.receives :=
  p.wakeFrames_eq.2.2.2.1

theorem receives_of_waits {p : NetPc Payload} (h : p.waits = true) : p.receives = true := by
  cases p with
  | rxBlocked => rfl
  | _ => cases h

theorem blocked_of_waits {p : NetPc Payload} (h : p.waits = true) : p.blocked = true := by
  cases p with
  | rxBlocked => rfl
  | _ => cases h

theorem eq_rxWait {p : NetPc Payload} (h : p.atWait = true) : ∃ size, p = .rxWait size := by
  cases p with
  | rxWait size => exact ⟨size, rfl⟩
  | _ => cases h

theorem netStep_of_waits (h : (s.pc t).waits = true) : netStep s t = none := by
  unfold netStep
  cases hp : s.pc t with
  | rxBlocked => rfl
  | _ => simp [hp, NetPc.waits] at h

theorem netStep_others (h : netStep s t = some s') {u : Tid} (hu : u ≠ t) :
    (s'.pc u).receives = (s.pc u).receives ∧
      ((s'.pc u).waits = (s.pc u).waits ∨ s.pc t = .sendSignal ∧ (s'.pc u).waits = false) := by
  obtain ⟨p, hpc⟩ | ⟨hsignal, hpc⟩ := netStep_pc h
  · rw [hpc, Function.update_of_ne hu]
    exact ⟨rfl, Or.inl rfl⟩
  · rw [hpc]
    dsimp only
    rw [Function.update_of_ne hu]
    exact ⟨wakeFrames_receives _, Or.inr ⟨hsignal, wakeFrames_waits _⟩⟩

theorem nextPort_receive {buffers : PortBuffers} {size : DWORD}
    (h : nextPort .rx buffers s (.receive t size) = some s') :
    s' = s.goto t (.rxLock size) ∧ (s.pc t).waits = false := by
  simp only [nextPort] at h
  split at h
  · rename_i hp
    cases h
    exact ⟨rfl, by rw [hp]; rfl⟩
  · cases h

/-- What a send may do to the port before it takes the lock. -/
theorem nextPort_send {port : Port} {buffers : PortBuffers} {frame : Frame Payload}
    {descriptorIndex : DWORD} {allocated : Bool}
    (h : nextPort port buffers s (.send t frame descriptorIndex allocated) = some s') :
    ∃ p, s' = s.goto t p ∧ p.receives = false ∧ p.waits = false ∧ (s.pc t).waits = false := by
  simp only [nextPort] at h
  split at h
  · rename_i hp
    split_ifs at h
    split at h
    · cases h
      exact ⟨_, rfl, rfl, rfl, by rw [hp]; rfl⟩
    · cases h
      exact ⟨_, rfl, rfl, rfl, by rw [hp]; rfl⟩
  · cases h

end Port

/-- The thread runs under the `DeviceLock`. -/
def CallPc.inside : CallPc Payload → Bool
  | .dispatching _ | .receiving | .sending | .completing _ => true
  | _ => false

def CallPc.isAcquiring : CallPc Payload → Bool
  | .acquiring _ => true
  | _ => false

structure DeviceInv (s : DeviceState Payload) : Prop where
  lock : MutexInv s.deviceLock
  holds : ∀ t, (s.pc t).inside = true → s.deviceLock.mutex.holder = some t
  acquires : ∀ t, (s.pc t).isAcquiring = true → (s.deviceLock.pc t).acquires = true ∨
    s.deviceLock.pc t = .idle ∧ s.deviceLock.mutex.holder = some t
  receives : ∀ t, (s.rx.pc t).receives = true → s.pc t = .receiving

theorem deviceStart_inv (worker : Tid) (physicalAddress : BitVec 48) :
    DeviceInv (deviceStart worker physicalAddress : DeviceState Payload) := by
  have hpc : ∀ t, ((deviceStart worker physicalAddress : DeviceState Payload).pc t).inside = false ∧
      ((deviceStart worker physicalAddress : DeviceState Payload).pc t).isAcquiring = false := by
    intro t
    show ((if t = worker then _ else _ : CallPc Payload)).inside = false ∧
      ((if t = worker then _ else _ : CallPc Payload)).isAcquiring = false
    split_ifs
    · exact ⟨rfl, rfl⟩
    · exact ⟨rfl, rfl⟩
  refine ⟨mutexStart_inv false, fun t h => ?_, fun t h => ?_, fun t h => ?_⟩
  · rw [(hpc t).1] at h
    cases h
  · rw [(hpc t).2] at h
    cases h
  · cases h

section Device

variable {s s' : DeviceState Payload} {t : Tid} {q : CallPc Payload}

/-- Thread `t` moves to `q`, and the others keep their place, the lock and their part of the receive
buffers. -/
theorem DeviceInv.move (hi : DeviceInv s) (hpc : s'.pc = Function.update s.pc t q)
    (hlock : MutexInv s'.deviceLock)
    (hholder : ∀ u ≠ t, s.deviceLock.mutex.holder = some u → s'.deviceLock.mutex.holder = some u)
    (hmutex : ∀ u ≠ t, s'.deviceLock.pc u = s.deviceLock.pc u ∨
      s.deviceLock.pc u = .blocked ∧ s'.deviceLock.pc u = .relock)
    (hrx : ∀ u ≠ t, (s'.rx.pc u).receives = (s.rx.pc u).receives)
    (hinside : q.inside = true → s'.deviceLock.mutex.holder = some t)
    (hacquires : q.isAcquiring = true → (s'.deviceLock.pc t).acquires = true ∨
      s'.deviceLock.pc t = .idle ∧ s'.deviceLock.mutex.holder = some t)
    (hreceives : (s'.rx.pc t).receives = true → q = .receiving) : DeviceInv s' := by
  have hself : s'.pc t = q := by rw [hpc, Function.update_self]
  have hother : ∀ u ≠ t, s'.pc u = s.pc u := fun u hu => by rw [hpc, Function.update_of_ne hu]
  refine ⟨hlock, fun u h => ?_, fun u h => ?_, fun u h => ?_⟩
  · by_cases hu : u = t
    · subst hu
      rw [hself] at h
      exact hinside h
    · rw [hother u hu] at h
      exact hholder u hu (hi.holds u h)
  · by_cases hu : u = t
    · subst hu
      rw [hself] at h
      exact hacquires h
    · rw [hother u hu] at h
      rcases hi.acquires u h with hold | ⟨hidle, hheld⟩
      · rcases hmutex u hu with hsame | ⟨-, hwoken⟩
        · rw [hsame]
          exact Or.inl hold
        · rw [hwoken]
          exact Or.inl rfl
      · rcases hmutex u hu with hsame | ⟨hblocked, -⟩
        · rw [hsame]
          exact Or.inr ⟨hidle, hholder u hu hheld⟩
        · rw [hidle] at hblocked
          cases hblocked
  · by_cases hu : u = t
    · subst hu
      rw [hself]
      exact hreceives h
    · rw [hrx u hu] at h
      rw [hother u hu]
      exact hi.receives u h

/-- A step that moves a thread, which is then under the lock only if it was before. -/
theorem DeviceInv.goto (hi : DeviceInv s) (hinside : q.inside = true → (s.pc t).inside = true)
    (hacquires : q.isAcquiring = false)
    (hreceives : (s.rx.pc t).receives = true → q = .receiving) : DeviceInv (s.goto t q) := by
  refine hi.move rfl hi.lock (fun _ _ h => h) (fun _ _ => Or.inl rfl) (fun _ _ => rfl)
    (fun h => hi.holds t (hinside h)) (fun h => ?_) hreceives
  rw [hacquires] at h
  cases h

theorem DeviceInv.mutexStep (hi : DeviceInv s) (hinside : (s.pc t).inside = false)
    (hbusy : s.deviceLock.pc t ≠ .idle) (h : s.mutexStep t = some s') : DeviceInv s' := by
  obtain ⟨m, hm, rfl⟩ := Option.map_eq_some_iff.mp h
  refine hi.move (Function.update_eq_self t s.pc).symm (mutexInv_nextMutex hi.lock hm)
    (fun u hu hheld => hi.lock.holder_step_ne hm hheld hu.symm) (fun u hu => pc_step_ne hm hu)
    (fun _ _ => rfl) (fun h => ?_) (fun hacq => ?_) (hi.receives t)
  · rw [hinside] at h
    cases h
  · rcases hi.acquires t hacq with hon | ⟨hidle, -⟩
    · exact hi.lock.acquires_step hm hon
    · exact absurd hidle hbusy

/-- A step of the thread in the receive buffers. -/
theorem DeviceInv.rxStep (hi : DeviceInv s) (hacquires : (s.pc t).isAcquiring = false)
    {rx : PortState Tid Payload} (h : netStep s.rx t = some rx) : DeviceInv { s with rx := rx } := by
  refine hi.move (Function.update_eq_self t s.pc).symm hi.lock (fun _ _ h => h)
    (fun _ _ => Or.inl rfl) (fun u hu => (netStep_others h hu).1) (hi.holds t) (fun hacq => ?_)
    fun hrx => hi.receives t ((netStep_receives h).1 hrx)
  rw [hacquires] at hacq
  cases hacq

/-- What happens in the transmit buffers. -/
theorem DeviceInv.tx (hi : DeviceInv s) (tx : PortState Tid Payload) :
    DeviceInv { s with tx := tx } := ⟨hi.lock, hi.holds, hi.acquires, hi.receives⟩

theorem DeviceInv.setStatus (hi : DeviceInv s) (linkUp rxEnabled txEnabled : Bool) :
    DeviceInv (s.setStatus linkUp rxEnabled txEnabled) :=
  ⟨hi.lock, hi.holds, hi.acquires, hi.receives⟩

/-- A thread that is not in the receive buffers. -/
theorem DeviceInv.not_receives (hi : DeviceInv s) (hp : s.pc t ≠ .receiving) :
    (s.rx.pc t).receives = false := by
  rw [Bool.eq_false_iff]
  exact fun h => hp (hi.receives t h)

theorem DeviceInv.complete (hi : DeviceInv s) {io : IoStatusBlock} (hp : (s.pc t).inside = true)
    (hrx : (s.rx.pc t).receives = false) : DeviceInv (s.goto t (.completing io)) := by
  refine hi.goto (fun _ => hp) rfl fun h => ?_
  rw [hrx] at h
  cases h

theorem nextMutex_acquire {m m' : MutexState} (h : nextMutex m (.acquire t) = some m') :
    m' = { m with pc := Function.update m.pc t .acquireTest } := by
  simp only [nextMutex] at h
  split_ifs at h
  cases h
  rfl

theorem nextMutex_release {m m' : MutexState} (h : nextMutex m (.release t) = some m') :
    m' = { m with pc := Function.update m.pc t .releaseTest } := by
  simp only [nextMutex] at h
  split_ifs at h
  cases h
  rfl

/-- The thread calls `MutexAcquire` or `MutexRelease`. -/
theorem DeviceInv.call (hi : DeviceInv s) {m : MutexState} {p : MutexPc} (hm : MutexInv m)
    (heq : m = { s.deviceLock with pc := Function.update s.deviceLock.pc t p })
    (hinside : q.inside = false) (hacquires : q.isAcquiring = true → p.acquires = true)
    (hrx : (s.rx.pc t).receives = false) :
    DeviceInv ({ s with deviceLock := m }.goto t q) := by
  subst heq
  refine hi.move rfl hm (fun _ _ h => h) (fun u hu => Or.inl (Function.update_of_ne hu ..))
    (fun _ _ => rfl) (fun h => ?_) (fun h => Or.inl ?_) fun h => ?_
  · rw [hinside] at h
    cases h
  · show (Function.update s.deviceLock.pc t p t).acquires = true
    rw [Function.update_self]
    exact hacquires h
  · exact Bool.noConfusion (hrx.symm.trans h)

theorem netPortDeviceControl_inv {rxBuffers txBuffers : PortBuffers} {allocated : Bool}
    {request : NetRequest Payload} (hi : DeviceInv s) (hp : s.pc t = .dispatching request)
    (h : netPortDeviceControl rxBuffers txBuffers s t allocated request = some s') :
    DeviceInv s' := by
  have hinside : (s.pc t).inside = true := by rw [hp]; rfl
  have hrx : (s.rx.pc t).receives = false := hi.not_receives (by rw [hp]; nofun)
  cases request with
  | receiveFrame outputBufferLength =>
    simp only [netPortDeviceControl] at h
    split_ifs at h
    · cases h
      exact hi.complete hinside hrx
    · obtain ⟨rx, hport, rfl⟩ := Option.map_eq_some_iff.mp h
      rw [(nextPort_receive hport).1]
      refine hi.move rfl hi.lock (fun _ _ h => h) (fun _ _ => Or.inl rfl) (fun u hu => ?_)
        (fun _ => hi.holds t hinside) nofun fun _ => rfl
      show (Function.update s.rx.pc t _ u).receives = _
      rw [Function.update_of_ne hu]
  | sendFrame frame =>
    obtain ⟨tx, -, rfl⟩ := Option.map_eq_some_iff.mp h
    refine (hi.tx tx).goto (fun _ => hinside) rfl fun h => ?_
    rw [hrx] at h
    cases h
  | setDeviceStatus inputBufferLength rxEnabled txEnabled =>
    simp only [netPortDeviceControl] at h
    split_ifs at h
    · cases h
      exact hi.complete hinside hrx
    · cases h
      exact (hi.setStatus s.rx.linkUp rxEnabled txEnabled).complete hinside hrx
  | getPhysicalAddress | getDeviceStatus | getLinkStatus | other =>
    cases h
    exact hi.complete hinside hrx

theorem deviceStep_inv (hi : DeviceInv s) (h : deviceStep s t = some s') : DeviceInv s' := by
  unfold deviceStep at h
  cases hp : s.pc t with
  | outside | dispatching => simp [hp] at h
  | acquiring request =>
    simp only [hp] at h
    split_ifs at h with hidle
    · cases h
      have hheld : s.deviceLock.mutex.holder = some t := by
        rcases hi.acquires t (by rw [hp]; rfl) with hon | ⟨-, hheld⟩
        · rw [hidle] at hon
          cases hon
        · exact hheld
      refine hi.move rfl hi.lock (fun _ _ h => h) (fun _ _ => Or.inl rfl) (fun _ _ => rfl)
        (fun _ => hheld) nofun fun hrx => ?_
      have hpc := hi.receives t hrx
      rw [hp] at hpc
      cases hpc
    · exact hi.mutexStep (by rw [hp]; rfl) hidle h
  | receiving =>
    simp only [hp] at h
    split at h
    · rename_i status information hreturned
      cases h
      exact hi.complete (by rw [hp]; rfl) (by rw [hreturned]; rfl)
    · obtain ⟨rx, hrx, rfl⟩ := Option.map_eq_some_iff.mp h
      exact hi.rxStep (by rw [hp]; rfl) hrx
  | sending =>
    simp only [hp] at h
    split at h
    · cases h
      exact hi.complete (by rw [hp]; rfl) (hi.not_receives (by rw [hp]; nofun))
    · obtain ⟨tx, -, rfl⟩ := Option.map_eq_some_iff.mp h
      exact hi.tx tx
  | completing io =>
    simp only [hp] at h
    obtain ⟨m, hm, rfl⟩ := Option.map_eq_some_iff.mp h
    exact hi.call (mutexInv_nextMutex hi.lock hm) (nextMutex_release hm) rfl nofun
      (hi.not_receives (by rw [hp]; nofun))
  | releasing io =>
    simp only [hp] at h
    split_ifs at h with hidle
    · cases h
      refine hi.goto nofun rfl fun hrx => ?_
      have hpc := hi.receives t hrx
      rw [hp] at hpc
      cases hpc
    · exact hi.mutexStep (by rw [hp]; rfl) hidle h
  | notifying =>
    simp only [hp] at h
    split at h
    · rename_i hreturned
      cases h
      refine hi.goto nofun rfl fun hrx => ?_
      have hpc := hi.receives t hrx
      rw [hp] at hpc
      cases hpc
    · obtain ⟨rx, hrx, rfl⟩ := Option.map_eq_some_iff.mp h
      exact hi.rxStep (by rw [hp]; rfl) hrx
  | transmitting =>
    simp only [hp] at h
    obtain ⟨tx, -, rfl⟩ := Option.map_eq_some_iff.mp h
    exact hi.tx tx

theorem nextDevice_inv {rxBuffers txBuffers : PortBuffers} {a : DeviceAction Payload}
    (hi : DeviceInv s) (h : nextDevice rxBuffers txBuffers s a = some s') : DeviceInv s' := by
  cases a with
  | ioCallDriver t request =>
    simp only [nextDevice] at h
    cases hp : s.pc t with
    | outside last =>
      simp only [hp] at h
      obtain ⟨m, hm, rfl⟩ := Option.map_eq_some_iff.mp h
      exact hi.call (mutexInv_nextMutex hi.lock hm) (nextMutex_acquire hm) rfl (fun _ => rfl)
        (hi.not_receives (by rw [hp]; nofun))
    | _ => simp [hp] at h
  | dispatch t allocated =>
    simp only [nextDevice] at h
    cases hp : s.pc t with
    | dispatching request =>
      simp only [hp] at h
      exact netPortDeviceControl_inv hi hp h
    | _ => simp [hp] at h
  | notifyReceiveBuffer t frame descriptorIndex allocated =>
    simp only [nextDevice] at h
    cases hp : s.pc t with
    | outside last =>
      simp only [hp] at h
      obtain ⟨rx, hport, rfl⟩ := Option.map_eq_some_iff.mp h
      obtain ⟨p, rfl, hreceives, -⟩ := nextPort_send hport
      refine hi.move rfl hi.lock (fun _ _ h => h) (fun _ _ => Or.inl rfl) (fun u hu => ?_) nofun
        nofun fun hrx => ?_
      · show (Function.update s.rx.pc t p u).receives = _
        rw [Function.update_of_ne hu]
      · have hrx : (Function.update s.rx.pc t p t).receives = true := hrx
        rw [Function.update_self, hreceives] at hrx
        cases hrx
    | _ => simp [hp] at h
  | step t => exact deviceStep_inv hi h
  | notifyLinkStatusChange linkUp =>
    cases h
    exact hi.setStatus linkUp s.rx.rxEnabled s.tx.txEnabled
  | notifyTxDescriptorAvailable | notifyTxQueueFull =>
    cases h
    exact hi.tx _

/-- What an action does to the receive buffers: a step of a thread in them, one call, or nothing. -/
theorem nextDevice_rx {rxBuffers txBuffers : PortBuffers} {a : DeviceAction Payload}
    (h : nextDevice rxBuffers txBuffers s a = some s') :
    (∃ t, a = .step t ∧ netStep s.rx t = some s'.rx) ∨ s'.rx.pc = s.rx.pc ∨
      ∃ t p, s'.rx.pc = Function.update s.rx.pc t p ∧ p.waits = false ∧ (s.rx.pc t).waits = false := by
  cases a with
  | ioCallDriver t request =>
    simp only [nextDevice] at h
    split at h
    · obtain ⟨m, -, rfl⟩ := Option.map_eq_some_iff.mp h
      exact Or.inr (Or.inl rfl)
    · cases h
  | dispatch t allocated =>
    simp only [nextDevice] at h
    split at h
    · rename_i request hp
      cases request with
      | receiveFrame outputBufferLength =>
        simp only [netPortDeviceControl] at h
        split_ifs at h
        · cases h
          exact Or.inr (Or.inl rfl)
        · obtain ⟨rx, hport, rfl⟩ := Option.map_eq_some_iff.mp h
          obtain ⟨rfl, hwaits⟩ := nextPort_receive hport
          exact Or.inr (Or.inr ⟨t, _, rfl, rfl, hwaits⟩)
      | sendFrame frame =>
        obtain ⟨tx, -, rfl⟩ := Option.map_eq_some_iff.mp h
        exact Or.inr (Or.inl rfl)
      | setDeviceStatus inputBufferLength rxEnabled txEnabled =>
        simp only [netPortDeviceControl] at h
        split_ifs at h
        · cases h
          exact Or.inr (Or.inl rfl)
        · cases h
          exact Or.inr (Or.inl rfl)
      | getPhysicalAddress | getDeviceStatus | getLinkStatus | other =>
        cases h
        exact Or.inr (Or.inl rfl)
    · cases h
  | notifyReceiveBuffer t frame descriptorIndex allocated =>
    simp only [nextDevice] at h
    split at h
    · obtain ⟨rx, hport, rfl⟩ := Option.map_eq_some_iff.mp h
      obtain ⟨p, rfl, -, hwaits, hold⟩ := nextPort_send hport
      exact Or.inr (Or.inr ⟨t, p, rfl, hwaits, hold⟩)
    · cases h
  | step t =>
    simp only [nextDevice, deviceStep, DeviceState.mutexStep] at h
    cases hp : s.pc t with
    | outside | dispatching => simp [hp] at h
    | acquiring | releasing =>
      simp only [hp] at h
      split_ifs at h
      · cases h
        exact Or.inr (Or.inl rfl)
      · obtain ⟨m, -, rfl⟩ := Option.map_eq_some_iff.mp h
        exact Or.inr (Or.inl rfl)
    | receiving | notifying =>
      simp only [hp] at h
      split at h
      · cases h
        exact Or.inr (Or.inl rfl)
      · obtain ⟨rx, hrx, rfl⟩ := Option.map_eq_some_iff.mp h
        exact Or.inl ⟨t, rfl, hrx⟩
    | sending =>
      simp only [hp] at h
      split at h
      · cases h
        exact Or.inr (Or.inl rfl)
      · obtain ⟨tx, -, rfl⟩ := Option.map_eq_some_iff.mp h
        exact Or.inr (Or.inl rfl)
    | completing | transmitting =>
      simp only [hp] at h
      obtain ⟨m, -, rfl⟩ := Option.map_eq_some_iff.mp h
      exact Or.inr (Or.inl rfl)
  | notifyLinkStatusChange | notifyTxDescriptorAvailable | notifyTxQueueFull =>
    cases h
    exact Or.inr (Or.inl rfl)

/-- While thread `t` waits for a frame it holds the `DeviceLock`, and no other thread runs under it. -/
theorem DeviceInv.locked_of_waits (hi : DeviceInv s) (ht : (s.rx.pc t).waits = true) :
    s.deviceLock.mutex.holder = some t ∧ ∀ u ≠ t, (s.pc u).inside = false := by
  have hheld := hi.holds t (by rw [hi.receives t (receives_of_waits ht)]; rfl)
  refine ⟨hheld, fun u hu => ?_⟩
  rw [Bool.eq_false_iff]
  intro hinside
  exact hu (Option.some.inj ((hi.holds u hinside).symm.trans hheld))

/-- A thread that waits for a frame holds the `DeviceLock`, so nobody may wait for one. -/
theorem DeviceInv.receiversYield_iff (hi : DeviceInv s) :
    ReceiversYield s ↔ ∀ t, (s.rx.pc t).waits = false := by
  constructor
  · intro hyield t
    rw [Bool.eq_false_iff]
    intro hwaits
    exact hyield t hwaits t (hi.locked_of_waits hwaits).1 (Or.inr (Or.inl (blocked_of_waits hwaits)))
  · intro hnone t hwaits
    rw [hnone t] at hwaits
    cases hwaits

/-- A receiver is blocked by a step that finds the event clear, and in no other way. -/
theorem DeviceInv.waits_iff {rxBuffers txBuffers : PortBuffers} {a : DeviceAction Payload}
    (hi : DeviceInv s) (hnone : ∀ t, (s.rx.pc t).waits = false)
    (h : nextDevice rxBuffers txBuffers s a = some s') :
    (∀ t, (s'.rx.pc t).waits = false) ↔ ¬ BlocksReceiver s a := by
  constructor
  · intro hnone' hblocks
    cases a with
    | step t =>
      obtain ⟨hat, hevent⟩ := hblocks
      obtain ⟨size, hp⟩ := eq_rxWait hat
      have hpc := hi.receives t (by rw [hp]; rfl)
      simp only [nextDevice, deviceStep, hpc, hp] at h
      obtain ⟨rx, hstep, rfl⟩ := Option.map_eq_some_iff.mp h
      have hwaits := (netStep_receives hstep).2.mpr ⟨hat, hevent⟩
      exact Bool.noConfusion ((hnone' t).symm.trans hwaits)
    | _ => exact hblocks
  · intro hnot u
    rcases nextDevice_rx h with ⟨t, rfl, hstep⟩ | hsame | ⟨t, p, hpc, hwaits, -⟩
    · by_cases hu : u = t
      · subst hu
        rw [Bool.eq_false_iff]
        exact fun hwaits => hnot ((netStep_receives hstep).2.mp hwaits)
      · rcases (netStep_others hstep hu).2 with hold | ⟨-, hwoken⟩
        · rw [hold]
          exact hnone u
        · exact hwoken
    · rw [hsame]
      exact hnone u
    · rw [hpc]
      by_cases hu : u = t
      · rw [hu, Function.update_self]
        exact hwaits
      · rw [Function.update_of_ne hu]
        exact hnone u

/-- A receiver stays blocked until a thread that has inserted a frame signals the event. -/
theorem waits_next {rxBuffers txBuffers : PortBuffers} {a : DeviceAction Payload}
    (ht : (s.rx.pc t).waits = true) (h : nextDevice rxBuffers txBuffers s a = some s')
    (hsignal : ∀ u, a = .step u → s.rx.pc u ≠ .sendSignal) : (s'.rx.pc t).waits = true := by
  rcases nextDevice_rx h with ⟨u, rfl, hstep⟩ | hsame | ⟨u, p, hpc, -, hold⟩
  · have hut : t ≠ u := by
      intro hut
      subst hut
      rw [netStep_of_waits ht] at hstep
      cases hstep
    rcases (netStep_others hstep hut).2 with hold | ⟨hsig, -⟩
    · rw [hold]
      exact ht
    · exact absurd hsig (hsignal u rfl)
  · rw [hsame]
    exact ht
  · have hut : t ≠ u := by
      intro hut
      subst hut
      exact Bool.noConfusion (hold.symm.trans ht)
    rw [hpc, Function.update_of_ne hut]
    exact ht

end Device

/-- From a state in which a receiver waits, no request of another thread is dispatched in a run in which
no frame arrives. -/
theorem locked_until_signal {rxBuffers txBuffers : PortBuffers} {t : Tid}
    {tr : List (DeviceState Payload × DeviceAction Payload)} {s₀ s : DeviceState Payload}
    (hi : DeviceInv s₀) (ht : (s₀.rx.pc t).waits = true)
    (hr : Exec (fun s a s' => nextDevice rxBuffers txBuffers s a = some s') s₀ tr s)
    (hsignal : ∀ v ∈ tr, ∀ u, v.2 = .step u → v.1.rx.pc u ≠ .sendSignal) :
    Always (fun s => s.deviceLock.mutex.holder = some t ∧ ∀ u ≠ t, (s.pc u).inside = false) tr s := by
  have hall : Always (fun s => DeviceInv s ∧ (s.rx.pc t).waits = true) tr s := by
    apply hr.always_of_steps (Q := fun s a => ∀ u, a = .step u → s.rx.pc u ≠ .sendSignal) ⟨hi, ht⟩
    · intro s a s' hs hq hstep
      exact ⟨nextDevice_inv hs.1 hstep, waits_next hs.2 hstep hq⟩
    · exact hsignal
  exact hall.mono fun s hs => hs.1.locked_of_waits hs.2

/-- No blocked thread ever holds the `DeviceLock` while a receiver waits exactly when no receiver is
made to wait: `IoCallDriver` holds the lock around the wait. -/
theorem receiversYield_iff_of_run {rxBuffers txBuffers : PortBuffers} {worker : Tid}
    {physicalAddress : BitVec 48} {tr : List (DeviceState Payload × DeviceAction Payload)}
    {s : DeviceState Payload}
    (hr : Exec (fun s a s' => nextDevice rxBuffers txBuffers s a = some s')
      (deviceStart worker physicalAddress) tr s) :
    Always ReceiversYield tr s ↔ ∀ v ∈ tr, ¬ BlocksReceiver v.1 v.2 := by
  apply hr.always_iff (I := DeviceInv) (Q := fun s a => ¬ BlocksReceiver s a)
    (deviceStart_inv worker physicalAddress) ?_ (fun _ _ _ => nextDevice_inv)
    fun s a s' hi hyield hs => ?_
  · intro t ht
    cases ht
  · rw [(nextDevice_inv hi hs).receiversYield_iff]
    exact hi.waits_iff (hi.receiversYield_iff.mp hyield) hs

/-- A request of a thread that finds the `DeviceLock` free, up to its dispatch. -/
def request (t : Tid) (r : NetRequest Unit) : List (DeviceAction Unit) :=
  .ioCallDriver t r :: List.replicate 5 (.step t) ++ [.dispatch t true]

/-- The device is linked and enabled, which thread 1 asks for. -/
def enabled : List (DeviceAction Unit) :=
  .notifyLinkStatusChange true :: request 1 (.setDeviceStatus 2 true true) ++
    List.replicate 6 (.step 1)

/-- A frame arrives before thread 1 asks for it. -/
def receiveArrived : List (DeviceAction Unit) :=
  enabled ++ .notifyReceiveBuffer 3 ⟨60, ()⟩ 0 true :: List.replicate 6 (.step 3) ++
    request 1 (.receiveFrame 64) ++ List.replicate 12 (.step 1)

/-- Thread 1 waits for a frame, and thread 2 for the `DeviceLock`. -/
def receiveFirst : List (DeviceAction Unit) :=
  enabled ++ request 1 (.receiveFrame 64) ++ List.replicate 7 (.step 1) ++
    .ioCallDriver 2 (.sendFrame ⟨60, ()⟩) :: List.replicate 6 (.step 2)

private theorem receiveArrived_runs :
    (exec (nextDevice ⟨16, 2048⟩ ⟨16, 2048⟩) (deviceStart 0 0) receiveArrived).isSome = true := by
  decide

private theorem receiveFirst_runs :
    (exec (nextDevice ⟨16, 2048⟩ ⟨16, 2048⟩) (deviceStart 0 0) receiveFirst).isSome = true := by
  decide

/-- Thread 1 waits for a frame. -/
def receiveBlocked : List (DeviceAction Unit) :=
  enabled ++ request 1 (.receiveFrame 64) ++ List.replicate 7 (.step 1)

/-- Thread 2 asks for the device. -/
def sendBehind : List (DeviceAction Unit) :=
  .ioCallDriver 2 (.sendFrame ⟨60, ()⟩) :: List.replicate 6 (.step 2)

private theorem receiveBlocked_runs :
    (exec (nextDevice ⟨16, 2048⟩ ⟨16, 2048⟩) (deviceStart 0 0) receiveBlocked).isSome = true := by
  decide

def blockedDevice : DeviceState Unit :=
  ((exec (nextDevice ⟨16, 2048⟩ ⟨16, 2048⟩) (deviceStart 0 0) receiveBlocked).get
    receiveBlocked_runs).2

/-- The action signals that a frame has arrived. -/
def signals (s : DeviceState Unit) : DeviceAction Unit → Bool
  | .step u => s.rx.pc u = .sendSignal
  | _ => false

private theorem sendBehind_runs :
    (exec (nextDevice ⟨16, 2048⟩ ⟨16, 2048⟩) blockedDevice sendBehind).isSome = true := by
  decide

theorem locked_until_signal_sendBehind :
    Always (fun s => s.deviceLock.mutex.holder = some 1 ∧ ∀ u ≠ 1, (s.pc u).inside = false)
      ((exec (nextDevice ⟨16, 2048⟩ ⟨16, 2048⟩) blockedDevice sendBehind).get sendBehind_runs).1
      ((exec (nextDevice ⟨16, 2048⟩ ⟨16, 2048⟩) blockedDevice sendBehind).get sendBehind_runs).2 := by
  have hinv := ((exec_get receiveBlocked_runs).always (deviceStart_inv 0 0)
    fun _ _ _ => nextDevice_inv).2
  refine locked_until_signal hinv (by decide) (exec_get sendBehind_runs) fun v hv u hu => ?_
  have hquiet : ∀ v ∈ ((exec (nextDevice ⟨16, 2048⟩ ⟨16, 2048⟩) blockedDevice sendBehind).get
      sendBehind_runs).1, signals v.1 v.2 = false := by
    decide
  have hv' := hquiet v hv
  rw [hu] at hv'
  exact of_decide_eq_false hv'

theorem receiversYield_of_receiveArrived :
    Always ReceiversYield
      ((exec (nextDevice ⟨16, 2048⟩ ⟨16, 2048⟩) (deviceStart 0 0) receiveArrived).get
        receiveArrived_runs).1
      ((exec (nextDevice ⟨16, 2048⟩ ⟨16, 2048⟩) (deviceStart 0 0) receiveArrived).get
        receiveArrived_runs).2 :=
  (receiversYield_iff_of_run (exec_get receiveArrived_runs)).mpr (by decide)

/-- A send request cannot be dispatched before a frame arrives. -/
theorem receiver_blocks_device : ∃ tr s,
    Exec (fun s a s' => nextDevice ⟨16, 2048⟩ ⟨16, 2048⟩ s a = some s')
      (deviceStart 0 0 : DeviceState Unit) tr s ∧
      ¬ ReceiversYield s ∧ s.pc 2 = .acquiring (.sendFrame ⟨60, ()⟩) ∧
      s.deviceLock.pc 2 = .blocked := by
  refine ⟨_, _, exec_get receiveFirst_runs, fun hyield => ?_, by decide, by decide⟩
  exact hyield 1 (by decide) 1 (by decide) (Or.inr (Or.inl (by decide)))

end HAL9000.Network
