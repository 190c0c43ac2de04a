import HAL9000.CommonLib.Base
import HAL9000.Lib.Run

/-! The frames that wait in a `PORT_BUFFERS` of `network_dispatch.c` and `network_miniport.c`. Each step
is one access in the critical section of `FramesLock`, or one operation on an event. Which transmit
buffer a frame is copied to is not part of it. -/
namespace HAL9000.Network

open Run

structure Frame (Payload : Type) where
  bufferSize : DWORD
  buffer : Payload
  deriving DecidableEq, Repr

inductive NetStatus
  | success
  | deviceNotConnected
  | deviceDisabled
  | bufferTooLarge
  | bufferTooSmall
  | heapInsufficientResources
  | invalidParameter2
  | invalidParameter3
  deriving DecidableEq, Repr

/-- A device has one `PORT_BUFFERS` for each direction. -/
inductive Port
  | tx
  | rx
  deriving DecidableEq, Repr

structure PortBuffers where
  numberOfBuffers : DWORD
  bufferSize : WORD
  deriving DecidableEq, Repr

/-- What a receiver has found in its critical section. -/
inductive Found (Payload : Type)
  | empty
  | tooSmall (frame : Frame Payload)
  | removed (frame : Frame Payload)
  deriving DecidableEq, Repr

/-- Where a thread stands in `_NetDispatchSendFrame` or `NetworkPortNotifyReceiveBuffer`, which insert
frames in the same way, in `NetPortTransmitFunction` or in `_NetDispatchReceiveFrame`. -/
inductive NetPc (Payload : Type)
  | returned (status : NetStatus) (information : DWORD)
  | sendLock (frame : Frame Payload)
  | sendTest (frame : Frame Payload)
  | sendInsert (frame : Frame Payload) (listWasEmpty : Bool)
  | sendUnlock (listWasEmpty : Bool)
  | sendSignal
  | txWait
  | txBlocked
  | txLock
  | txRemove
  | txClear
  | txUnlock (entry : Option (Frame Payload))
  | txWaitDescriptors (frame : Frame Payload)
  | txBlockedDescriptors (frame : Frame Payload)
  | txSend (frame : Frame Payload)
  | rxLock (outputBufferSize : DWORD)
  | rxTest (outputBufferSize : DWORD)
  | rxRemove (outputBufferSize : DWORD) (frame : Frame Payload)
  | rxClear (outputBufferSize : DWORD)
  | rxUnlock (outputBufferSize : DWORD) (found : Found Payload)
  | rxTestLink (outputBufferSize : DWORD)
  | rxTestEnabled (outputBufferSize : DWORD)
  | rxWait (outputBufferSize : DWORD)
  | rxBlocked (outputBufferSize : DWORD)
  | rxCopy (frame : Frame Payload)
  deriving DecidableEq, Repr

/-- The buffers of one direction, and the frames that were inserted, that a thread took off the list and
that `MiniportSendBuffer` or the caller of a receive has been given. -/
structure PortState (Thread Payload : Type) where
  linkUp : Bool
  rxEnabled : Bool
  txEnabled : Bool
  framesLock : Option Thread
  framesList : List (Frame Payload)
  framesListNotEmptyEvent : Bool
  descriptorsAvailable : Bool
  pc : Thread → NetPc Payload
  accepted : List (Frame Payload)
  taken : List (Frame Payload × Thread)
  handed : List (Frame Payload × Thread)

variable {Thread Payload : Type} [DecidableEq Thread]

def PortState.goto (s : PortState Thread Payload) (t : Thread) (p : NetPc Payload) :
    PortState Thread Payload :=
  { s with pc := Function.update s.pc t p }

/-- A thread that is blocked on `FramesListNotEmptyEvent` goes on when the event is signaled. -/
def NetPc.wakeFrames : NetPc Payload → NetPc Payload
  | .txBlocked => .txLock
  | .rxBlocked size => .rxLock size
  | p => p

def NetPc.wakeDescriptors : NetPc Payload → NetPc Payload
  | .txBlockedDescriptors frame => .txSend frame
  | p => p

/-- The checks before a frame is inserted. -/
def sendStatus (port : Port) (buffers : PortBuffers) (s : PortState Thread Payload)
    (size descriptorIndex : DWORD) (allocated : Bool) : NetStatus :=
  match port with
  | .tx =>
    if s.linkUp = false then .deviceNotConnected
    else if s.txEnabled = false then .deviceDisabled
    else if buffers.bufferSize.setWidth 32 < size then .bufferTooLarge
    else if allocated = false then .heapInsufficientResources
    else .success
  | .rx =>
    if buffers.numberOfBuffers ≤ descriptorIndex then .invalidParameter2
    else if buffers.bufferSize.setWidth 32 < size then .invalidParameter3
    else if allocated = false then .heapInsufficientResources
    else .success

/-- One step of a thread. -/
def netStep (s : PortState Thread Payload) (t : Thread) : Option (PortState Thread Payload) :=
  match s.pc t with
  | .returned _ _ | .txBlocked | .txBlockedDescriptors _ | .rxBlocked _ => none
  | .sendLock frame =>
    if s.framesLock = none then some ({ s with framesLock := some t }.goto t (.sendTest frame)) else none
  | .sendTest frame => some (s.goto t (.sendInsert frame s.framesList.isEmpty))
  | .sendInsert frame listWasEmpty =>
    some ({ s with framesList := s.framesList ++ [frame], accepted := s.accepted ++ [frame] }.goto t
      (.sendUnlock listWasEmpty))
  | .sendUnlock listWasEmpty =>
    some ({ s with framesLock := none }.goto t (if listWasEmpty then .sendSignal else .returned .success 0))
  | .sendSignal =>
    some { s with
      framesListNotEmptyEvent := true
      pc := fun u => (Function.update s.pc t (.returned .success 0) u).wakeFrames }
  | .txWait => some (s.goto t (if s.framesListNotEmptyEvent then .txLock else .txBlocked))
  | .txLock =>
    if s.framesLock = none then some ({ s with framesLock := some t }.goto t .txRemove) else none
  | .txRemove =>
    match s.framesList with
    | [] => some (s.goto t .txClear)
    | frame :: rest =>
      some ({ s with framesList := rest, taken := s.taken ++ [(frame, t)] }.goto t
        (.txUnlock (some frame)))
  | .txClear => some ({ s with framesListNotEmptyEvent := false }.goto t (.txUnlock none))
  | .txUnlock entry =>
    some ({ s with framesLock := none }.goto t
      (match entry with
        | none => .txWait
        | some frame => .txWaitDescriptors frame))
  | .txWaitDescriptors frame =>
    some (s.goto t (if s.descriptorsAvailable then .txSend frame else .txBlockedDescriptors frame))
  | .txSend frame => some ({ s with handed := s.handed ++ [(frame, t)] }.goto t .txWait)
  | .rxLock size =>
    if s.framesLock = none then some ({ s with framesLock := some t }.goto t (.rxTest size)) else none
  | .rxTest size =>
    match s.framesList with
    | [] => some (s.goto t (.rxClear size))
    | frame :: _ =>
      some (s.goto t (if size < frame.bufferSize then .rxUnlock size (.tooSmall frame)
        else .rxRemove size frame))
  | .rxRemove size frame =>
    some ({ s with framesList := s.framesList.tail, taken := s.taken ++ [(frame, t)] }.goto t
      (.rxUnlock size (.removed frame)))
  | .rxClear size =>
    some ({ s with framesListNotEmptyEvent := false }.goto t (.rxUnlock size .empty))
  | .rxUnlock size found =>
    some ({ s with framesLock := none }.goto t
      (match found with
        | .empty => .rxTestLink size
        | .tooSmall frame => .returned .bufferTooSmall frame.bufferSize
        | .removed frame => .rxCopy frame))
  | .rxTestLink size =>
    some (s.goto t (if s.linkUp then .rxTestEnabled size else .returned .deviceNotConnected 0))
  | .rxTestEnabled size =>
    some (s.goto t (if s.rxEnabled then .rxWait size else .returned .deviceDisabled 0))
  | .rxWait size => some (s.goto t (if s.framesListNotEmptyEvent then .rxLock size else .rxBlocked size))
  | .rxCopy frame =>
    some ({ s with handed := s.handed ++ [(frame, t)] }.goto t (.returned .success frame.bufferSize))

inductive PortAction (Thread Payload : Type)
  | send (t : Thread) (frame : Frame Payload) (descriptorIndex : DWORD) (allocated : Bool)
  | receive (t : Thread) (outputBufferSize : DWORD)
  | step (t : Thread)
  | setStatus (linkUp rxEnabled txEnabled : Bool)
  | notifyTxDescriptorAvailable
  | notifyTxQueueFull

/-- Frames are received from the buffers of the one direction and sent through those of the other. The
miniport may change the device's status and the state of `DescriptorsAvailable` at any time. -/
def nextPort (port : Port) (buffers : PortBuffers) (s : PortState Thread Payload) :
    PortAction Thread Payload → Option (PortState Thread Payload)
  | .send t frame descriptorIndex allocated =>
    match s.pc t with
    | .returned _ _ =>
      if frame.bufferSize ≠ 0 then
        match sendStatus port buffers s frame.bufferSize descriptorIndex allocated with
        | .success => some (s.goto t (.sendLock frame))
        | status => some (s.goto t (.returned status 0))
      else none
    | _ => none
  | .receive t outputBufferSize =>
    match s.pc t with
    | .returned _ _ => if port = .rx then some (s.goto t (.rxLock outputBufferSize)) else none
    | _ => none
  | .step t => netStep s t
  | .setStatus linkUp rxEnabled txEnabled =>
    some { s with linkUp := linkUp, rxEnabled := rxEnabled, txEnabled := txEnabled }
  | .notifyTxDescriptorAvailable =>
    some { s with descriptorsAvailable := true, pc := fun u => (s.pc u).wakeDescriptors }
  | .notifyTxQueueFull => some { s with descriptorsAvailable := false }

/-- The transmit worker runs from the start; the other threads make no call yet. -/
def portStart (port : Port) (worker : Thread) : PortState Thread Payload where
  linkUp := false
  rxEnabled := false
  txEnabled := false
  framesLock := none
  framesList := []
  framesListNotEmptyEvent := false
  descriptorsAvailable := true
  pc := fun t => if port = .tx ∧ t = worker then .txWait else .returned .success 0
  accepted := []
  taken := []
  handed := []

/-- The thread has inserted a frame into an empty list and has not signaled the event yet. -/
def NetPc.signals : NetPc Payload → Bool
  | .sendUnlock listWasEmpty => listWasEmpty
  | .sendSignal => true
  | _ => false

/-- The frame that a thread has taken off the list and not handed on. -/
def NetPc.hands : NetPc Payload → List (Frame Payload)
  | .txUnlock entry => entry.toList
  | .txWaitDescriptors frame | .txBlockedDescriptors frame | .txSend frame | .rxCopy frame => [frame]
  | .rxUnlock _ (.removed frame) => [frame]
  | _ => []

/-- The frames of a log that belong to a thread. -/
def framesOf (t : Thread) (log : List (Frame Payload × Thread)) : List (Frame Payload) :=
  (log.filter fun x => x.2 = t).map Prod.fst

/-- No frame is lost, duplicated or stranded: the accepted frames are, in their order, those that were
taken and those that are still in the list; every thread has handed on the frames it took, in their
order, but for the one in its hands. -/
structure FramesSafe (port : Port) (worker : Thread) (s : PortState Thread Payload) : Prop where
  order : s.accepted = s.taken.map Prod.fst ++ s.framesList
  once : ∀ t, framesOf t s.taken = framesOf t s.handed ++ (s.pc t).hands
  transmitted : port = .tx →
    s.accepted = s.handed.map Prod.fst ++ (s.pc worker).hands ++ s.framesList
  tooSmall : ∀ t size frame, s.pc t = .rxUnlock size (.tooSmall frame) →
    size < frame.bufferSize ∧ s.framesList.head? = some frame
  notStranded : s.framesListNotEmptyEvent = false → (∀ t, (s.pc t).signals = false) →
    s.framesList = []

namespace NetPc

/-- The thread holds `FramesLock`. -/
def inside : NetPc Payload → Bool
  | .sendTest _ | .sendInsert _ _ | .sendUnlock _ | .txRemove | .txClear | .txUnlock _ | .rxTest _
  | .rxRemove _ _ | .rxClear _ | .rxUnlock _ _ => true
  | _ => false

def transmits : NetPc Payload → Bool
  | .txWait | .txBlocked | .txLock | .txRemove | .txClear | .txUnlock _ | .txWaitDescriptors _
  | .txBlockedDescriptors _ | .txSend _ => true
  | _ => false

def receives : NetPc Payload → Bool
  | .rxLock _ | .rxTest _ | .rxRemove _ _ | .rxClear _ | .rxUnlock _ _ | .rxTestLink _
  | .rxTestEnabled _ | .rxWait _ | .rxBlocked _ | .rxCopy _ => true
  | _ => false

/-- What the thread that holds the lock knows about the list. -/
def Sees (list : List (Frame Payload)) : NetPc Payload → Prop
  | .sendInsert _ listWasEmpty => listWasEmpty = list.isEmpty
  | .txClear | .rxClear _ => list = []
  | .rxRemove _ frame => list.head? = some frame
  | .rxUnlock size (.tooSmall frame) => size < frame.bufferSize ∧ list.head? = some frame
  | _ => True

theorem sees_of_outside {p : NetPc Payload} (h : p.inside = false) (list : List (Frame Payload)) :
    p.Sees list := by
  cases p <;> simp_all [inside, Sees]

theorem wakeFrames_eq (p : NetPc Payload) :
    p.wakeFrames.inside = p.inside ∧ p.wakeFrames.hands = p.hands ∧
      p.wakeFrames.transmits = p.transmits ∧ p.wakeFrames.receives = p.receives ∧
      (∀ list, p.Sees list → p.wakeFrames.Sees list) := by
  cases p <;> simp [wakeFrames, inside, hands, transmits, receives, Sees]

theorem wakeDescriptors_eq (p : NetPc Payload) :
    p.wakeDescriptors.inside = p.inside ∧ p.wakeDescriptors.hands = p.hands ∧
      p.wakeDescriptors.transmits = p.transmits ∧ p.wakeDescriptors.receives = p.receives ∧
      p.wakeDescriptors.signals = p.signals ∧ (∀ list, p.Sees list → p.wakeDescriptors.Sees list) := by
  cases p <;> simp [wakeDescriptors, inside, hands, transmits, receives, signals, Sees]

end NetPc

@[simp] theorem framesOf_append (t u : Thread) (log : List (Frame Payload × Thread))
    (frame : Frame Payload) :
    framesOf t (log ++ [(frame, u)]) = framesOf t log ++ if u = t then [frame] else [] := by
  unfold framesOf
  by_cases h : u = t
  · simp [h]
  · simp [h]

theorem framesOf_eq_map {t : Thread} {log : List (Frame Payload × Thread)}
    (h : ∀ x ∈ log, x.2 = t) : framesOf t log = log.map Prod.fst := by
  unfold framesOf
  rw [List.filter_eq_self.mpr fun x hx => by simpa using h x hx]

structure PortInv (port : Port) (worker : Thread) (s : PortState Thread Payload) : Prop where
  lock : ∀ t, (s.pc t).inside = true ↔ s.framesLock = some t
  sees : ∀ t, (s.pc t).Sees s.framesList
  order : s.accepted = s.taken.map Prod.fst ++ s.framesList
  once : ∀ t, framesOf t s.taken = framesOf t s.handed ++ (s.pc t).hands
  takers : port = .tx → ∀ x ∈ s.taken, x.2 = worker
  handers : port = .tx → ∀ x ∈ s.handed, x.2 = worker
  transmits : ∀ t, (s.pc t).transmits = true → t = worker
  receives : ∀ t, (s.pc t).receives = true → port = .rx
  notStranded : s.framesListNotEmptyEvent = false → s.framesList ≠ [] →
    ∃ t, (s.pc t).signals = true

theorem PortInv.safe {port : Port} {worker : Thread} {s : PortState Thread Payload}
    (hi : PortInv port worker s) : FramesSafe port worker s where
  order := hi.order
  once := hi.once
  transmitted hport := by
    rw [hi.order, ← framesOf_eq_map (hi.takers hport), hi.once, framesOf_eq_map (hi.handers hport)]
  tooSmall t size frame hp := by
    have hsees := hi.sees t
    rw [hp] at hsees
    exact hsees
  notStranded hevent hnone := by
    by_contra hne
    obtain ⟨t, ht⟩ := hi.notStranded hevent hne
    rw [hnone t] at ht
    cases ht

theorem portStart_inv (port : Port) (worker : Thread) :
    PortInv port worker (portStart port worker : PortState Thread Payload) := by
  have hpc : ∀ t, (portStart port worker : PortState Thread Payload).pc t = .txWait ∧ t = worker ∨
      (portStart port worker : PortState Thread Payload).pc t = .returned .success 0 := by
    intro t
    show (if port = .tx ∧ t = worker then _ else _) = _ ∧ _ ∨ _
    split_ifs with h
    · exact Or.inl ⟨rfl, h.2⟩
    · exact Or.inr (if_neg h)
  refine ⟨fun t => ?_, fun t => ?_, rfl, fun t => ?_, fun _ => nofun, fun _ => nofun, fun t h => ?_,
    fun t h => ?_, fun _ hne => absurd rfl hne⟩
  · obtain ⟨hp, -⟩ | hp := hpc t
    · rw [hp]
      exact ⟨nofun, nofun⟩
    · rw [hp]
      exact ⟨nofun, nofun⟩
  · obtain ⟨hp, -⟩ | hp := hpc t
    · rw [hp]
      trivial
    · rw [hp]
      trivial
  · obtain ⟨hp, -⟩ | hp := hpc t
    · rw [hp]
      rfl
    · rw [hp]
      rfl
  · obtain ⟨-, ht⟩ | hp := hpc t
    · exact ht
    · rw [hp] at h
      cases h
  · obtain ⟨hp, -⟩ | hp := hpc t
    · rw [hp] at h
      cases h
    · rw [hp] at h
      cases h

section Steps

variable {port : Port} {worker : Thread} {s s' : PortState Thread Payload} {t : Thread}
  {p : NetPc Payload}

/-- Thread `t` moves to `p`. The list changes only in its critical section, and the logs only for its own
frames. -/
theorem PortInv.move (hi : PortInv port worker s) (hpc : s'.pc = Function.update s.pc t p)
    (hlock : p.inside = true ↔ s'.framesLock = some t)
    (hothers : ∀ u ≠ t, s'.framesLock = some u ↔ s.framesLock = some u)
    (hlist : s'.framesList = s.framesList ∨ (s.pc t).inside = true) (hsees : p.Sees s'.framesList)
    (horder : s'.accepted = s'.taken.map Prod.fst ++ s'.framesList)
    (honce : framesOf t s'.taken = framesOf t s'.handed ++ p.hands)
    (hlogs : ∀ u ≠ t, framesOf u s'.taken = framesOf u s.taken ∧
      framesOf u s'.handed = framesOf u s.handed)
    (htakers : ∀ x ∈ s'.taken, x ∈ s.taken ∨ x.2 = t ∧ (s.pc t).transmits = true ∨ port = .rx)
    (hhanders : ∀ x ∈ s'.handed, x ∈ s.handed ∨ x.2 = t ∧ (s.pc t).transmits = true ∨ port = .rx)
    (htransmits : p.transmits = true → t = worker) (hreceives : p.receives = true → port = .rx)
    (hstranded : s'.framesListNotEmptyEvent = false → s'.framesList ≠ [] → p.signals = true ∨
      (s.framesListNotEmptyEvent = false ∧ s.framesList ≠ [] ∧ (s.pc t).signals = false)) :
    PortInv port worker s' := by
  have hself : s'.pc t = p := by rw [hpc, Function.update_self]
  have hother : ∀ u ≠ t, s'.pc u = s.pc u := fun u hu => by rw [hpc, Function.update_of_ne hu]
  refine ⟨fun u => ?_, fun u => ?_, horder, fun u => ?_, fun hport x hx => ?_, fun hport x hx => ?_,
    fun u h => ?_, fun u h => ?_, fun hevent hne => ?_⟩
  · by_cases hu : u = t
    · subst hu
      rw [hself]
      exact hlock
    · rw [hother u hu, hothers u hu]
      exact hi.lock u
  · by_cases hu : u = t
    · subst hu
      rw [hself]
      exact hsees
    · rw [hother u hu]
      rcases hlist with heq | hin
      · rw [heq]
        exact hi.sees u
      · refine NetPc.sees_of_outside (Bool.eq_false_iff.mpr fun hinside => ?_) _
        have hsome := ((hi.lock u).mp hinside).symm.trans ((hi.lock t).mp hin)
        exact hu (Option.some.inj hsome)
  · by_cases hu : u = t
    · subst hu
      rw [hself]
      exact honce
    · rw [hother u hu, (hlogs u hu).1, (hlogs u hu).2]
      exact hi.once u
  · rcases htakers x hx with hold | ⟨rfl, htr⟩ | hrx
    · exact hi.takers hport x hold
    · exact hi.transmits _ htr
    · rw [hport] at hrx
      cases hrx
  · rcases hhanders x hx with hold | ⟨rfl, htr⟩ | hrx
    · exact hi.handers hport x hold
    · exact hi.transmits _ htr
    · rw [hport] at hrx
      cases hrx
  · by_cases hu : u = t
    · subst hu
      rw [hself] at h
      exact htransmits h
    · rw [hother u hu] at h
      exact hi.transmits u h
  · by_cases hu : u = t
    · subst hu
      rw [hself] at h
      exact hreceives h
    · rw [hother u hu] at h
      exact hi.receives u h
  · rcases hstranded hevent hne with hsig | ⟨hold, hnonempty, hnot⟩
    · exact ⟨t, by rw [hself]; exact hsig⟩
    · obtain ⟨u, hu⟩ := hi.notStranded hold hnonempty
      have hut : u ≠ t := fun heq => by
        rw [heq, hnot] at hu
        cases hu
      exact ⟨u, by rw [hother u hut]; exact hu⟩

/-- A step that changes nothing but the place of its thread. -/
theorem PortInv.goto (hi : PortInv port worker s) (hinside : p.inside = (s.pc t).inside)
    (hsees : p.Sees s.framesList) (hhands : p.hands = (s.pc t).hands)
    (htransmits : p.transmits = true → t = worker) (hreceives : p.receives = true → port = .rx)
    (hsignals : (s.pc t).signals = false) : PortInv port worker (s.goto t p) := by
  refine hi.move rfl ?_ (fun _ _ => Iff.rfl) (Or.inl rfl) hsees hi.order ?_ (fun _ _ => ⟨rfl, rfl⟩)
    (fun _ => Or.inl) (fun _ => Or.inl) htransmits hreceives fun hevent hne => Or.inr ⟨hevent, hne, hsignals⟩
  · rw [hinside]
    exact hi.lock t
  · rw [hhands]
    exact hi.once t

/-- `LockAcquire` of a thread that has no frame in its hands. -/
theorem PortInv.acquire (hi : PortInv port worker s) (hfree : s.framesLock = none)
    (hinside : p.inside = true) (hsees : p.Sees s.framesList) (hhands : p.hands = (s.pc t).hands)
    (htransmits : p.transmits = true → t = worker) (hreceives : p.receives = true → port = .rx)
    (hsignals : (s.pc t).signals = false) :
    PortInv port worker ({ s with framesLock := some t }.goto t p) := by
  refine hi.move rfl ⟨fun _ => rfl, fun _ => hinside⟩ (fun u hu => ?_) (Or.inl rfl) hsees hi.order ?_
    (fun _ _ => ⟨rfl, rfl⟩) (fun _ => Or.inl) (fun _ => Or.inl) htransmits hreceives
    fun hevent hne => Or.inr ⟨hevent, hne, hsignals⟩
  · rw [hfree]
    exact ⟨fun h => absurd (Option.some.inj h).symm hu, nofun⟩
  · rw [hhands]
    exact hi.once t

/-- `LockRelease`. -/
theorem PortInv.release (hi : PortInv port worker s) (hin : (s.pc t).inside = true)
    (hinside : p.inside = false) (hhands : p.hands = (s.pc t).hands)
    (htransmits : p.transmits = true → t = worker) (hreceives : p.receives = true → port = .rx)
    (hsignals : (s.pc t).signals = p.signals) :
    PortInv port worker ({ s with framesLock := none }.goto t p) := by
  have hheld := (hi.lock t).mp hin
  refine hi.move rfl ⟨fun h => ?_, nofun⟩ (fun u hu => ⟨nofun, fun h => ?_⟩) (Or.inl rfl)
    (NetPc.sees_of_outside hinside _) hi.order ?_ (fun _ _ => ⟨rfl, rfl⟩) (fun _ => Or.inl)
    (fun _ => Or.inl) htransmits hreceives fun hevent hne => ?_
  · rw [hinside] at h
    cases h
  · rw [hheld] at h
    exact absurd (Option.some.inj h).symm hu
  · rw [hhands]
    exact hi.once t
  · cases hsig : p.signals with
    | true => exact Or.inl rfl
    | false => exact Or.inr ⟨hevent, hne, hsignals.trans hsig⟩

/-- The event is signaled, which lets the threads that are blocked on it go on. -/
theorem PortInv.signal (hi : PortInv port worker s) (hp : s.pc t = .sendSignal) :
    PortInv port worker { s with
      framesListNotEmptyEvent := true
      pc := fun u => (Function.update s.pc t (.returned .success 0) u).wakeFrames } := by
  have hgone : PortInv port worker
      ({ s with framesListNotEmptyEvent := true }.goto t (.returned .success 0)) := by
    refine hi.move rfl ?_ (fun _ _ => Iff.rfl) (Or.inl rfl) trivial hi.order ?_ (fun _ _ => ⟨rfl, rfl⟩)
      (fun _ => Or.inl) (fun _ => Or.inl) nofun nofun nofun
    · have hlock := hi.lock t
      rw [hp] at hlock
      exact hlock
    · have honce := hi.once t
      rw [hp] at honce
      exact honce
  refine ⟨fun u => ?_, fun u => ?_, hi.order, fun u => ?_, hi.takers, hi.handers, fun u h => ?_,
    fun u h => ?_, nofun⟩
  · rw [(NetPc.wakeFrames_eq _).1]
    exact hgone.lock u
  · exact (NetPc.wakeFrames_eq _).2.2.2.2 _ (hgone.sees u)
  · rw [(NetPc.wakeFrames_eq _).2.1]
    exact hgone.once u
  · rw [(NetPc.wakeFrames_eq _).2.2.1] at h
    exact hgone.transmits u h
  · rw [(NetPc.wakeFrames_eq _).2.2.2.1] at h
    exact hgone.receives u h

theorem PortInv.wakeDescriptors (hi : PortInv port worker s) :
    PortInv port worker { s with
      descriptorsAvailable := true, pc := fun u => (s.pc u).wakeDescriptors } := by
  refine ⟨fun u => ?_, fun u => ?_, hi.order, fun u => ?_, hi.takers, hi.handers, fun u h => ?_,
    fun u h => ?_, fun hevent hne => ?_⟩
  · rw [(NetPc.wakeDescriptors_eq _).1]
    exact hi.lock u
  · exact (NetPc.wakeDescriptors_eq _).2.2.2.2.2 _ (hi.sees u)
  · rw [(NetPc.wakeDescriptors_eq _).2.1]
    exact hi.once u
  · rw [(NetPc.wakeDescriptors_eq _).2.2.1] at h
    exact hi.transmits u h
  · rw [(NetPc.wakeDescriptors_eq _).2.2.2.1] at h
    exact hi.receives u h
  · obtain ⟨u, hu⟩ := hi.notStranded hevent hne
    exact ⟨u, by rw [(NetPc.wakeDescriptors_eq _).2.2.2.2.1]; exact hu⟩

/-- The frame goes to the end of the list; a thread that found the list empty owes a signal. -/
theorem PortInv.insert (hi : PortInv port worker s) {frame : Frame Payload} {listWasEmpty : Bool}
    (hp : s.pc t = .sendInsert frame listWasEmpty) :
    PortInv port worker ({ s with
      framesList := s.framesList ++ [frame], accepted := s.accepted ++ [frame] }.goto t
        (.sendUnlock listWasEmpty)) := by
  have hlock := hi.lock t
  have hsees := hi.sees t
  have honce := hi.once t
  rw [hp] at hlock hsees honce
  refine hi.move rfl hlock (fun _ _ => Iff.rfl) (Or.inr (by rw [hp]; rfl)) trivial ?_ honce
    (fun _ _ => ⟨rfl, rfl⟩) (fun _ => Or.inl) (fun _ => Or.inl) nofun nofun fun hevent _ => ?_
  · show s.accepted ++ [frame] = s.taken.map Prod.fst ++ (s.framesList ++ [frame])
    rw [hi.order, List.append_assoc]
  · by_cases hempty : s.framesList = []
    · left
      show listWasEmpty = true
      rw [show listWasEmpty = s.framesList.isEmpty from hsees, hempty]
      rfl
    · exact Or.inr ⟨hevent, hempty, by rw [hp]; rfl⟩

/-- The first frame is taken off the list. -/
theorem PortInv.take (hi : PortInv port worker s) {frame : Frame Payload}
    (hhead : s.framesList.head? = some frame) (hin : (s.pc t).inside = true)
    (hhands : (s.pc t).hands = []) (hsignals : (s.pc t).signals = false) (hinside : p.inside = true)
    (hsees : p.Sees s.framesList.tail) (hp : p.hands = [frame])
    (htaker : (s.pc t).transmits = true ∨ port = .rx)
    (htransmits : p.transmits = true → t = worker) (hreceives : p.receives = true → port = .rx) :
    PortInv port worker ({ s with
      framesList := s.framesList.tail, taken := s.taken ++ [(frame, t)] }.goto t p) := by
  have honce := hi.once t
  have hlist : s.framesList = frame :: s.framesList.tail := by
    cases hcons : s.framesList with
    | nil => simp [hcons] at hhead
    | cons f rest => simp_all
  refine hi.move rfl ?_ (fun _ _ => Iff.rfl) (Or.inr hin) hsees ?_ ?_ (fun u hu => ⟨?_, rfl⟩)
    (fun x hx => ?_) (fun _ => Or.inl) htransmits hreceives fun hevent _ => ?_
  · rw [hinside]
    exact ⟨fun _ => (hi.lock t).mp hin, fun _ => rfl⟩
  · show s.accepted = (s.taken ++ [(frame, t)]).map Prod.fst ++ s.framesList.tail
    rw [hi.order, hlist]
    simp
  · show framesOf t (s.taken ++ [(frame, t)]) = framesOf t s.handed ++ p.hands
    rw [framesOf_append, if_pos rfl, honce, hhands, hp, List.append_nil]
  · show framesOf u (s.taken ++ [(frame, t)]) = framesOf u s.taken
    rw [framesOf_append, if_neg hu.symm, List.append_nil]
  · rcases List.mem_append.mp hx with hold | hnew
    · exact Or.inl hold
    · obtain rfl := List.mem_singleton.mp hnew
      rcases htaker with htr | hrx
      · exact Or.inr (Or.inl ⟨rfl, htr⟩)
      · exact Or.inr (Or.inr hrx)
  · refine Or.inr ⟨hevent, ?_, hsignals⟩
    rw [hlist]
    exact List.cons_ne_nil _ _

/-- The frame in the hands of a thread is handed on. -/
theorem PortInv.hand (hi : PortInv port worker s) {frame : Frame Payload}
    (hhands : (s.pc t).hands = [frame]) (hsignals : (s.pc t).signals = false)
    (hout : (s.pc t).inside = false) (hinside : p.inside = false) (hp : p.hands = [])
    (hhander : (s.pc t).transmits = true ∨ port = .rx)
    (htransmits : p.transmits = true → t = worker) (hreceives : p.receives = true → port = .rx) :
    PortInv port worker ({ s with handed := s.handed ++ [(frame, t)] }.goto t p) := by
  have honce := hi.once t
  refine hi.move rfl ?_ (fun _ _ => Iff.rfl) (Or.inl rfl) (NetPc.sees_of_outside hinside _) hi.order ?_
    (fun u hu => ⟨rfl, ?_⟩) (fun _ => Or.inl) (fun x hx => ?_) htransmits hreceives
    fun hevent hne => Or.inr ⟨hevent, hne, hsignals⟩
  · rw [hinside, ← hout]
    exact hi.lock t
  · show framesOf t s.taken = framesOf t (s.handed ++ [(frame, t)]) ++ p.hands
    rw [framesOf_append, if_pos rfl, honce, hhands, hp, List.append_nil]
  · show framesOf u (s.handed ++ [(frame, t)]) = framesOf u s.handed
    rw [framesOf_append, if_neg hu.symm, List.append_nil]
  · rcases List.mem_append.mp hx with hold | hnew
    · exact Or.inl hold
    · obtain rfl := List.mem_singleton.mp hnew
      rcases hhander with htr | hrx
      · exact Or.inr (Or.inl ⟨rfl, htr⟩)
      · exact Or.inr (Or.inr hrx)

/-- The event is cleared in the critical section in which the list was found empty. -/
theorem PortInv.clear (hi : PortInv port worker s) (hempty : s.framesList = [])
    (hin : (s.pc t).inside = true) (hinside : p.inside = true) (hsees : p.Sees s.framesList)
    (hhands : p.hands = (s.pc t).hands) (htransmits : p.transmits = true → t = worker)
    (hreceives : p.receives = true → port = .rx) :
    PortInv port worker ({ s with framesListNotEmptyEvent := false }.goto t p) := by
  refine hi.move rfl ?_ (fun _ _ => Iff.rfl) (Or.inl rfl) hsees hi.order ?_ (fun _ _ => ⟨rfl, rfl⟩)
    (fun _ => Or.inl) (fun _ => Or.inl) htransmits hreceives fun _ hne => absurd hempty hne
  · rw [hinside]
    exact ⟨fun _ => (hi.lock t).mp hin, fun _ => rfl⟩
  · rw [hhands]
    exact hi.once t

theorem netStep_inv (hi : PortInv port worker s) (h : netStep s t = some s') :
    PortInv port worker s' := by
  have hsees := hi.sees t
  have htr := hi.transmits t
  have hrx := hi.receives t
  unfold netStep at h
  cases hp : s.pc t with
  | returned | txBlocked | txBlockedDescriptors | rxBlocked => simp [hp] at h
  | sendLock frame =>
    simp only [hp] at h
    obtain ⟨hfree, h⟩ := Option.ite_none_right_eq_some.mp h
    cases h
    exact hi.acquire hfree rfl trivial (by rw [hp]; rfl) nofun nofun (by rw [hp]; rfl)
  | sendTest frame =>
    simp only [hp, Option.some.injEq] at h
    subst h
    exact hi.goto (by rw [hp]; rfl) rfl (by rw [hp]; rfl) nofun nofun (by rw [hp]; rfl)
  | sendInsert frame listWasEmpty =>
    simp only [hp, Option.some.injEq] at h
    subst h
    exact hi.insert hp
  | sendUnlock listWasEmpty =>
    simp only [hp, Option.some.injEq] at h
    subst h
    cases listWasEmpty with
    | true => exact hi.release (by rw [hp]; rfl) rfl (by rw [hp]; rfl) nofun nofun (by rw [hp]; rfl)
    | false => exact hi.release (by rw [hp]; rfl) rfl (by rw [hp]; rfl) nofun nofun (by rw [hp]; rfl)
  | sendSignal =>
    simp only [hp, Option.some.injEq] at h
    subst h
    exact hi.signal hp
  | txWait =>
    rw [hp] at htr
    simp only [hp, Option.some.injEq] at h
    subst h
    cases s.framesListNotEmptyEvent with
    | true =>
      exact hi.goto (by rw [hp]; rfl) trivial (by rw [hp]; rfl) (fun _ => htr rfl) nofun (by rw [hp]; rfl)
    | false =>
      exact hi.goto (by rw [hp]; rfl) trivial (by rw [hp]; rfl) (fun _ => htr rfl) nofun (by rw [hp]; rfl)
  | txLock =>
    rw [hp] at htr
    simp only [hp] at h
    obtain ⟨hfree, h⟩ := Option.ite_none_right_eq_some.mp h
    cases h
    exact hi.acquire hfree rfl trivial (by rw [hp]; rfl) (fun _ => htr rfl) nofun (by rw [hp]; rfl)
  | txRemove =>
    rw [hp] at htr
    simp only [hp] at h
    cases hlist : s.framesList with
    | nil =>
      simp only [hlist, Option.some.injEq] at h
      subst h
      exact hi.goto (by rw [hp]; rfl) hlist (by rw [hp]; rfl) (fun _ => htr rfl) nofun (by rw [hp]; rfl)
    | cons frame rest =>
      simp only [hlist, Option.some.injEq] at h
      subst h
      have htake := hi.take (p := .txUnlock (some frame)) (by rw [hlist]; rfl) (by rw [hp]; rfl)
        (by rw [hp]; rfl) (by rw [hp]; rfl) rfl trivial rfl (Or.inl (by rw [hp]; rfl))
        (fun _ => htr rfl) nofun
      rw [hlist] at htake
      exact htake
  | txClear =>
    rw [hp] at htr hsees
    simp only [hp, Option.some.injEq] at h
    subst h
    exact hi.clear hsees (by rw [hp]; rfl) rfl trivial (by rw [hp]; rfl) (fun _ => htr rfl) nofun
  | txUnlock entry =>
    rw [hp] at htr
    simp only [hp, Option.some.injEq] at h
    subst h
    cases entry with
    | none =>
      exact hi.release (by rw [hp]; rfl) rfl (by rw [hp]; rfl) (fun _ => htr rfl) nofun (by rw [hp]; rfl)
    | some frame =>
      exact hi.release (by rw [hp]; rfl) rfl (by rw [hp]; rfl) (fun _ => htr rfl) nofun (by rw [hp]; rfl)
  | txWaitDescriptors frame =>
    rw [hp] at htr
    simp only [hp, Option.some.injEq] at h
    subst h
    cases s.descriptorsAvailable with
    | true =>
      exact hi.goto (by rw [hp]; rfl) trivial (by rw [hp]; rfl) (fun _ => htr rfl) nofun (by rw [hp]; rfl)
    | false =>
      exact hi.goto (by rw [hp]; rfl) trivial (by rw [hp]; rfl) (fun _ => htr rfl) nofun (by rw [hp]; rfl)
  | txSend frame =>
    rw [hp] at htr
    simp only [hp, Option.some.injEq] at h
    subst h
    exact hi.hand (by rw [hp]; rfl) (by rw [hp]; rfl) (by rw [hp]; rfl) rfl rfl
      (Or.inl (by rw [hp]; rfl)) (fun _ => htr rfl) nofun
  | rxLock size =>
    rw [hp] at hrx
    simp only [hp] at h
    obtain ⟨hfree, h⟩ := Option.ite_none_right_eq_some.mp h
    cases h
    exact hi.acquire hfree rfl trivial (by rw [hp]; rfl) nofun (fun _ => hrx rfl) (by rw [hp]; rfl)
  | rxTest size =>
    rw [hp] at hrx
    simp only [hp] at h
    cases hlist : s.framesList with
    | nil =>
      simp only [hlist, Option.some.injEq] at h
      subst h
      exact hi.goto (by rw [hp]; rfl) hlist (by rw [hp]; rfl) nofun (fun _ => hrx rfl) (by rw [hp]; rfl)
    | cons frame rest =>
      simp only [hlist, Option.some.injEq] at h
      subst h
      have hhead : s.framesList.head? = some frame := by rw [hlist]; rfl
      by_cases hsize : size < frame.bufferSize
      · rw [if_pos hsize]
        exact hi.goto (by rw [hp]; rfl) ⟨hsize, hhead⟩ (by rw [hp]; rfl) nofun (fun _ => hrx rfl)
          (by rw [hp]; rfl)
      · rw [if_neg hsize]
        exact hi.goto (by rw [hp]; rfl) hhead (by rw [hp]; rfl) nofun (fun _ => hrx rfl)
          (by rw [hp]; rfl)
  | rxRemove size frame =>
    rw [hp] at hrx hsees
    simp only [hp, Option.some.injEq] at h
    subst h
    exact hi.take hsees (by rw [hp]; rfl) (by rw [hp]; rfl) (by rw [hp]; rfl) rfl trivial rfl
      (Or.inr (hrx rfl)) nofun fun _ => hrx rfl
  | rxClear size =>
    rw [hp] at hrx hsees
    simp only [hp, Option.some.injEq] at h
    subst h
    exact hi.clear hsees (by rw [hp]; rfl) rfl trivial (by rw [hp]; rfl) nofun fun _ => hrx rfl
  | rxUnlock size found =>
    rw [hp] at hrx
    simp only [hp, Option.some.injEq] at h
    subst h
    cases found with
    | empty =>
      exact hi.release (by rw [hp]; rfl) rfl (by rw [hp]; rfl) nofun (fun _ => hrx rfl) (by rw [hp]; rfl)
    | tooSmall frame =>
      exact hi.release (by rw [hp]; rfl) rfl (by rw [hp]; rfl) nofun (fun _ => hrx rfl) (by rw [hp]; rfl)
    | removed frame =>
      exact hi.release (by rw [hp]; rfl) rfl (by rw [hp]; rfl) nofun (fun _ => hrx rfl) (by rw [hp]; rfl)
  | rxTestLink size =>
    rw [hp] at hrx
    simp only [hp, Option.some.injEq] at h
    subst h
    cases s.linkUp with
    | true =>
      exact hi.goto (by rw [hp]; rfl) trivial (by rw [hp]; rfl) nofun (fun _ => hrx rfl) (by rw [hp]; rfl)
    | false => exact hi.goto (by rw [hp]; rfl) trivial (by rw [hp]; rfl) nofun nofun (by rw [hp]; rfl)
  | rxTestEnabled size =>
    rw [hp] at hrx
    simp only [hp, Option.some.injEq] at h
    subst h
    cases s.rxEnabled with
    | true =>
      exact hi.goto (by rw [hp]; rfl) trivial (by rw [hp]; rfl) nofun (fun _ => hrx rfl) (by rw [hp]; rfl)
    | false => exact hi.goto (by rw [hp]; rfl) trivial (by rw [hp]; rfl) nofun nofun (by rw [hp]; rfl)
  | rxWait size =>
    rw [hp] at hrx
    simp only [hp, Option.some.injEq] at h
    subst h
    cases s.framesListNotEmptyEvent with
    | true =>
      exact hi.goto (by rw [hp]; rfl) trivial (by rw [hp]; rfl) nofun (fun _ => hrx rfl) (by rw [hp]; rfl)
    | false =>
      exact hi.goto (by rw [hp]; rfl) trivial (by rw [hp]; rfl) nofun (fun _ => hrx rfl) (by rw [hp]; rfl)
  | rxCopy frame =>
    rw [hp] at hrx
    simp only [hp, Option.some.injEq] at h
    subst h
    exact hi.hand (by rw [hp]; rfl) (by rw [hp]; rfl) (by rw [hp]; rfl) rfl rfl (Or.inr (hrx rfl))
      nofun nofun

theorem nextPort_inv {buffers : PortBuffers} {a : PortAction Thread Payload}
    (hi : PortInv port worker s) (h : nextPort port buffers s a = some s') :
    PortInv port worker s' := by
  cases a with
  | send t frame descriptorIndex allocated =>
    simp only [nextPort] at h
    cases hp : s.pc t with
    | returned status information =>
      simp only [hp] at h
      obtain ⟨-, h⟩ := Option.ite_none_right_eq_some.mp h
      cases hstatus : sendStatus port buffers s frame.bufferSize descriptorIndex allocated with
      | success =>
        simp only [hstatus, Option.some.injEq] at h
        subst h
        exact hi.goto (by rw [hp]; rfl) trivial (by rw [hp]; rfl) nofun nofun (by rw [hp]; rfl)
      | _ =>
        simp only [hstatus, Option.some.injEq] at h
        subst h
        exact hi.goto (by rw [hp]; rfl) trivial (by rw [hp]; rfl) nofun nofun (by rw [hp]; rfl)
    | _ => simp [hp] at h
  | receive t outputBufferSize =>
    simp only [nextPort] at h
    cases hp : s.pc t with
    | returned status information =>
      simp only [hp] at h
      obtain ⟨hport, h⟩ := Option.ite_none_right_eq_some.mp h
      cases h
      exact hi.goto (by rw [hp]; rfl) trivial (by rw [hp]; rfl) nofun (fun _ => hport) (by rw [hp]; rfl)
    | _ => simp [hp] at h
  | step t => exact netStep_inv hi h
  | setStatus linkUp rxEnabled txEnabled =>
    cases h
    exact ⟨hi.lock, hi.sees, hi.order, hi.once, hi.takers, hi.handers, hi.transmits, hi.receives,
      hi.notStranded⟩
  | notifyTxDescriptorAvailable =>
    cases h
    exact hi.wakeDescriptors
  | notifyTxQueueFull =>
    cases h
    exact ⟨hi.lock, hi.sees, hi.order, hi.once, hi.takers, hi.handers, hi.transmits, hi.receives,
      hi.notStranded⟩

end Steps

/-- The frames of either direction over every interleaving of any threads. -/
theorem frames_safe {port : Port} {buffers : PortBuffers} {worker : Thread}
    {s : PortState Thread Payload}
    {tr : List (PortState Thread Payload × PortAction Thread Payload)}
    (h : Exec (fun s a s' => nextPort port buffers s a = some s') (portStart port worker) tr s) :
    Always (FramesSafe port worker) tr s :=
  (h.always (P := PortInv port worker) (portStart_inv port worker) fun _ _ _ hi hs =>
    nextPort_inv hi hs).mono fun _ hi => hi.safe

/-- A frame is sent and given to the miniport by the worker, thread 0. -/
def sendOne : List (PortAction (Fin 2) Unit) :=
  [.setStatus true true true, .step 0, .send 1 ⟨60, ()⟩ 0 true, .step 1, .step 1, .step 1, .step 1,
    .step 1, .step 0, .step 0, .step 0, .step 0, .step 0]

theorem sendOne_runs :
    (exec (nextPort .tx ⟨16, 2048⟩) (portStart .tx (0 : Fin 2)) sendOne).isSome = true := by decide

theorem framesSafe_of_sendOne :
    Always (FramesSafe .tx 0)
      ((exec (nextPort .tx ⟨16, 2048⟩) (portStart .tx (0 : Fin 2)) sendOne).get sendOne_runs).1
      ((exec (nextPort .tx ⟨16, 2048⟩) (portStart .tx (0 : Fin 2)) sendOne).get sendOne_runs).2 :=
  frames_safe (exec_get sendOne_runs)

end HAL9000.Network
