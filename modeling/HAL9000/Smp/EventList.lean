import HAL9000.CommonLib.Base
import HAL9000.Lib.Run
import HAL9000.Lib.Threads

/-! Queued events and the interrupts that announce them. Senders of `SmpSendGenericIpiEx` queue
an event on every destination and send one interrupt; `_SmpIpcIpiIsr` takes one event from the
list of its processor. A processor's local APIC holds one pending request besides the one in
service, into which later requests merge. -/
namespace HAL9000.Smp

open Run Threads

/-- Where a processor stands in the service of an inter-processor interrupt. -/
inductive IsrPc
  | idle
  | dequeue
  | process (event : ℕ)
  | sendEoi
  deriving DecidableEq, Repr

/-- The event list of a processor, and the interrupt's state in its local APIC. -/
structure PcpuEvents where
  eventList : List ℕ
  noOfEventsInList : DWORD
  pending : Bool
  isr : IsrPc
  deriving DecidableEq, Repr

/-- The processors that `_SmpRetrieveMatchingCpus` found; each is in the list of processors
once. -/
structure MatchingCpus where
  cpus : List ℕ
  nodup : cpus.Nodup
  nonempty : cpus ≠ []
  deriving DecidableEq

/-- Where a sender stands in `SmpSendGenericIpiEx`. -/
inductive SendPc
  | idle
  | enqueue (event : ℕ) (matching : MatchingCpus) (i : ℕ)
  | sendIpi (matching : MatchingCpus)
  deriving DecidableEq

/-- `n` is the number of senders. -/
structure SmpState (n : ℕ) where
  cpu : ℕ → PcpuEvents
  sender : Fin n → SendPc

inductive SmpAction (n : ℕ)
  | send (t : Fin n) (event : ℕ) (matching : MatchingCpus)
  | sender (t : Fin n)
  | deliver (c : ℕ)
  | isr (c : ℕ)

variable {n : ℕ}

def insertEvent (event : ℕ) (p : PcpuEvents) : PcpuEvents :=
  { p with eventList := p.eventList ++ [event], noOfEventsInList := p.noOfEventsInList + 1 }

/-- One step of a sender: an event is linked into a list under `EventListLock`, or the interrupt
is sent to all destinations. -/
def sendStep (s : SmpState n) (t : Fin n) : Option (SmpState n) :=
  match s.sender t with
  | .idle => none
  | .enqueue event m i =>
    match m.cpus[i]? with
    | some c =>
      some ⟨Function.update s.cpu c (insertEvent event (s.cpu c)),
        Function.update s.sender t (.enqueue event m (i + 1))⟩
    | none => some { s with sender := Function.update s.sender t (.sendIpi m) }
  | .sendIpi m =>
    some ⟨fun c => if c ∈ m.cpus then { s.cpu c with pending := true } else s.cpu c,
      Function.update s.sender t .idle⟩

/-- One step of `_SmpIpcIpiIsr`. A step whose `ASSERT` fails is not taken. -/
def smpIpcIpiIsrStep (p : PcpuEvents) : Option PcpuEvents :=
  match p.isr with
  | .idle => none
  | .dequeue =>
    if p.noOfEventsInList > 0 then
      match p.eventList with
      | [] => none
      | event :: rest =>
        some { p with eventList := rest, noOfEventsInList := p.noOfEventsInList - 1,
                      isr := .process event }
    else none
  | .process _ => some { p with isr := .sendEoi }
  | .sendEoi => some { p with isr := .idle }

def nextSmp (s : SmpState n) : SmpAction n → Option (SmpState n)
  | .send t event m =>
    match s.sender t with
    | .idle => some { s with sender := Function.update s.sender t (.enqueue event m 0) }
    | _ => none
  | .sender t => sendStep s t
  | .deliver c =>
    if (s.cpu c).pending = true ∧ (s.cpu c).isr = .idle then
      some { s with
        cpu := Function.update s.cpu c { s.cpu c with pending := false, isr := .dequeue } }
    else none
  | .isr c =>
    (smpIpcIpiIsrStep (s.cpu c)).map fun p => { s with cpu := Function.update s.cpu c p }

def smpStart (n : ℕ) : SmpState n := ⟨fun _ => ⟨[], 0, false, .idle⟩, fun _ => .idle⟩

/-- The sender has queued an event on processor `c` and not sent its interrupt. -/
def SendPc.between (c : ℕ) : SendPc → Bool
  | .idle => false
  | .enqueue _ m i => decide (c ∈ m.cpus.take i)
  | .sendIpi m => decide (c ∈ m.cpus)

/-- With no sender between its enqueue and its interrupt, queued events are announced. -/
def NoStrandedEvent (s : SmpState n) : Prop :=
  (∀ t c, (s.sender t).between c = false) →
    ∀ c, (s.cpu c).eventList ≠ [] → (s.cpu c).pending = true ∨ (s.cpu c).isr ≠ .idle

/-- The service routine finds an event in its list. -/
def IsrFindsEvent (s : SmpState n) : Prop :=
  ∀ c, (s.cpu c).isr = .dequeue → (s.cpu c).eventList ≠ []

/-- The processors that the sender's next step interrupts. -/
def SendPc.receivers : SendPc → List ℕ
  | .sendIpi m => m.cpus
  | _ => []

/-- An interrupt is only sent to processors that have none pending. -/
def Unmerged (s : SmpState n) : SmpAction n → Prop
  | .sender t => ∀ c ∈ (s.sender t).receivers, (s.cpu c).pending = false
  | _ => True

instance (s : SmpState n) : DecidablePred (Unmerged s)
  | .send .. | .deliver _ | .isr _ => inferInstanceAs (Decidable True)
  | .sender t => inferInstanceAs
    (Decidable (∀ c ∈ (s.sender t).receivers, (s.cpu c).pending = false))

/-- How many dequeues of processor `c` are announced or about to be. -/
def announced (s : SmpState n) (c : ℕ) : ℕ :=
  population (SendPc.between c) s.sender + (s.cpu c).pending.toNat +
    (decide ((s.cpu c).isr = .dequeue)).toNat

section Balance

variable {s s' : SmpState n}

/-- What a step changes for processor `c`: the list and the announcements move together, except
that an interrupt that merges with a pending one announces an event less. -/
def Balanced (s s' : SmpState n) (c : ℕ) (exact : Prop) : Prop :=
  announced s' c + (s.cpu c).eventList.length ≤ announced s c + (s'.cpu c).eventList.length ∧
    (exact →
      announced s' c + (s.cpu c).eventList.length = announced s c + (s'.cpu c).eventList.length)

theorem Balanced.of_eq {c : ℕ} {exact : Prop}
    (h : announced s' c + (s.cpu c).eventList.length =
      announced s c + (s'.cpu c).eventList.length) : Balanced s s' c exact :=
  ⟨Nat.le_of_eq h, fun _ => h⟩

/-- A sender moves between places that say the same about processor `c`. -/
theorem announced_sender {t : Fin n} {p : SendPc} {c : ℕ}
    (h : p.between c = (s.sender t).between c) :
    announced { s with sender := Function.update s.sender t p } c = announced s c := by
  have hu := population_update (SendPc.between c) s.sender t p
  rw [h, Nat.add_right_cancel_iff] at hu
  simp only [announced, hu]

/-- The next destination has not been queued on yet. -/
theorem between_enqueue {m : MatchingCpus} {i d : ℕ} (h : m.cpus[i]? = some d) (event c : ℕ) :
    ((SendPc.enqueue event m (i + 1)).between c).toNat =
      ((SendPc.enqueue event m i).between c).toNat + (decide (c = d)).toNat := by
  obtain ⟨hi, hd⟩ := List.getElem?_eq_some_iff.mp h
  have htake : m.cpus.take (i + 1) = m.cpus.take i ++ [d] := by
    rw [List.take_succ_eq_append_getElem hi, hd]
  have hnotin : d ∉ m.cpus.take i := by
    have hnodup := m.nodup.sublist (List.take_sublist (i + 1) m.cpus)
    rw [htake] at hnodup
    exact fun hmem => (List.nodup_append.mp hnodup).2.2 d hmem d (by simp) rfl
  simp only [SendPc.between, htake, List.mem_append, List.mem_singleton]
  by_cases hc : c = d
  · subst hc
    simp [hnotin]
  · simp [hc]

theorem between_sendIpi {m : MatchingCpus} {i : ℕ} (h : m.cpus[i]? = none) (event c : ℕ) :
    (SendPc.sendIpi m).between c = (SendPc.enqueue event m i).between c := by
  have hlen := List.getElem?_eq_none_iff.mp h
  simp only [SendPc.between, List.take_of_length_le hlen]

/-- An event is queued on processor `d`, and its sender owes `d` an interrupt. -/
theorem enqueue_balanced {t : Fin n} {event i d : ℕ} {m : MatchingCpus}
    (hpc : s.sender t = .enqueue event m i) (hd : m.cpus[i]? = some d) (c : ℕ) {exact : Prop} :
    Balanced s ⟨Function.update s.cpu d (insertEvent event (s.cpu d)),
      Function.update s.sender t (.enqueue event m (i + 1))⟩ c exact := by
  have hu := population_update (SendPc.between c) s.sender t (.enqueue event m (i + 1))
  rw [hpc, between_enqueue hd] at hu
  apply Balanced.of_eq
  simp only [announced]
  by_cases hc : c = d
  · subst hc
    simp only [Function.update_self, insertEvent, List.length_append, List.length_singleton]
    simp only [decide_true, Bool.toNat_true] at hu
    lia
  · simp only [Function.update_of_ne hc]
    simp only [hc, decide_false, Bool.toNat_false] at hu
    omega

/-- The interrupt reaches all destinations; where one is pending already, the two merge. -/
theorem sendIpi_balanced {t : Fin n} {m : MatchingCpus} (hpc : s.sender t = .sendIpi m) (c : ℕ) :
    Balanced s ⟨fun c => if c ∈ m.cpus then { s.cpu c with pending := true } else s.cpu c,
      Function.update s.sender t .idle⟩ c (Unmerged s (.sender t)) := by
  have hu := population_update (SendPc.between c) s.sender t .idle
  rw [hpc] at hu
  by_cases hc : c ∈ m.cpus
  · simp only [SendPc.between, hc, decide_true, Bool.toNat_true, Bool.toNat_false] at hu
    constructor
    · simp only [announced, if_pos hc, Bool.toNat_true]
      omega
    · intro hq
      have hp : (s.cpu c).pending = false := by
        apply hq c
        rw [hpc]
        exact hc
      simp only [announced, if_pos hc, hp, Bool.toNat_true, Bool.toNat_false]
      omega
  · simp only [SendPc.between, hc, decide_false, Bool.toNat_false] at hu
    apply Balanced.of_eq
    simp only [announced, if_neg hc]
    omega

theorem sendStep_balanced {t : Fin n} (h : sendStep s t = some s') (c : ℕ) :
    Balanced s s' c (Unmerged s (.sender t)) := by
  cases hpc : s.sender t with
  | idle => simp [sendStep, hpc] at h
  | enqueue event m i =>
    simp only [sendStep, hpc] at h
    cases hd : m.cpus[i]? with
    | none =>
      simp only [hd] at h
      cases h
      apply Balanced.of_eq
      rw [announced_sender (hpc ▸ between_sendIpi hd event c)]
    | some d =>
      simp only [hd] at h
      cases h
      exact enqueue_balanced hpc hd c
  | sendIpi m =>
    simp only [sendStep, hpc] at h
    cases h
    exact sendIpi_balanced hpc c

/-- A processor changes on its own. -/
theorem Balanced.of_cpu {d : ℕ} {p : PcpuEvents} {exact : Prop}
    (h : p.pending.toNat + (decide (p.isr = .dequeue)).toNat + (s.cpu d).eventList.length =
      (s.cpu d).pending.toNat + (decide ((s.cpu d).isr = .dequeue)).toNat + p.eventList.length)
    (c : ℕ) : Balanced s { s with cpu := Function.update s.cpu d p } c exact := by
  apply Balanced.of_eq
  simp only [announced]
  by_cases hc : c = d
  · subst hc
    simp only [Function.update_self]
    lia
  · simp only [Function.update_of_ne hc]

theorem isr_balanced {d : ℕ} {p : PcpuEvents} (h : smpIpcIpiIsrStep (s.cpu d) = some p) :
    p.pending.toNat + (decide (p.isr = .dequeue)).toNat + (s.cpu d).eventList.length =
      (s.cpu d).pending.toNat + (decide ((s.cpu d).isr = .dequeue)).toNat +
        p.eventList.length := by
  cases hpc : (s.cpu d).isr with
  | idle => simp [smpIpcIpiIsrStep, hpc] at h
  | dequeue =>
    simp only [smpIpcIpiIsrStep, hpc] at h
    split_ifs at h with hn
    cases hl : (s.cpu d).eventList with
    | nil => simp [hl] at h
    | cons event rest =>
      simp only [hl] at h
      cases h
      simp
      omega
  | process event =>
    simp only [smpIpcIpiIsrStep, hpc] at h
    cases h
    simp
  | sendEoi =>
    simp only [smpIpcIpiIsrStep, hpc] at h
    cases h
    simp

theorem nextSmp_balanced {a : SmpAction n} (h : nextSmp s a = some s') (c : ℕ) :
    Balanced s s' c (Unmerged s a) := by
  cases a with
  | send t event m =>
    simp only [nextSmp] at h
    cases hpc : s.sender t with
    | idle =>
      simp only [hpc] at h
      cases h
      apply Balanced.of_eq
      rw [announced_sender]
      rw [hpc]
      simp [SendPc.between]
    | enqueue event m i => simp [hpc] at h
    | sendIpi m => simp [hpc] at h
  | sender t => exact sendStep_balanced h c
  | deliver d =>
    simp only [nextSmp] at h
    split_ifs at h with hd
    cases h
    apply Balanced.of_cpu
    simp [hd.1, hd.2]
  | isr d =>
    simp only [nextSmp, Option.map_eq_some_iff] at h
    obtain ⟨p, hp, rfl⟩ := h
    exact Balanced.of_cpu (isr_balanced hp) c

end Balance

theorem smpStart_announced (n c : ℕ) :
    announced (smpStart n) c = ((smpStart n).cpu c).eventList.length := by
  have hnone : population (SendPc.between c) (smpStart n).sender = 0 :=
    population_eq_zero.mpr fun _ => rfl
  rw [announced, hnone]
  rfl

theorem isrFindsEvent_of_announced {s : SmpState n}
    (h : ∀ c, announced s c ≤ (s.cpu c).eventList.length) : IsrFindsEvent s := by
  intro c hpc hempty
  have hle := h c
  simp [announced, hpc, hempty] at hle

theorem noStrandedEvent_of_announced {s : SmpState n}
    (h : ∀ c, announced s c = (s.cpu c).eventList.length) : NoStrandedEvent s := by
  intro hnone c hne
  by_contra hcon
  obtain ⟨hp, hisr⟩ := not_or.mp hcon
  have hidle : (s.cpu c).isr = .idle := not_not.mp hisr
  have hz : population (SendPc.between c) s.sender = 0 :=
    population_eq_zero.mpr fun t => hnone t c
  have hlen := h c
  simp only [announced, hz, hidle, Bool.eq_false_iff.mpr hp] at hlen
  exact hne (List.length_eq_zero_iff.mp hlen.symm)

/-- The service routine never finds its list empty. If no interrupt is sent to a processor that
has one pending, no event is stranded. -/
theorem always_noStrandedEvent {tr : List (SmpState n × SmpAction n)} {s : SmpState n}
    (h : Exec (fun s a s' => nextSmp s a = some s') (smpStart n) tr s) :
    Always IsrFindsEvent tr s ∧
      ((∀ v ∈ tr, Unmerged v.1 v.2) → Always NoStrandedEvent tr s) := by
  constructor
  · have hle := h.always (P := fun s => ∀ c, announced s c ≤ (s.cpu c).eventList.length)
      (fun c => Nat.le_of_eq (smpStart_announced n c)) fun s a s' hi hs c => by
        have hb := (nextSmp_balanced hs c).1
        have := hi c
        omega
    exact hle.mono fun s => isrFindsEvent_of_announced
  · intro hq
    have heq := h.always_of_steps (P := fun s => ∀ c, announced s c = (s.cpu c).eventList.length)
      (smpStart_announced n) (fun s a s' hi hq hs c => by
        have hb := (nextSmp_balanced hs c).2 hq
        have := hi c
        omega) hq
    exact heq.mono fun s => noStrandedEvent_of_announced

def cpuZero : MatchingCpus := ⟨[0], by decide, by decide⟩

/-- A second event is queued while the first is processed, and announced after the first
interrupt was delivered. -/
def overlappingSends : List (SmpAction 2) :=
  [.send 0 10 cpuZero, .send 1 11 cpuZero, .sender 0, .sender 0, .sender 0, .sender 1, .sender 1,
    .deliver 0, .sender 1, .isr 0, .isr 0, .isr 0, .deliver 0, .isr 0, .isr 0, .isr 0]

theorem overlappingSends_not_stranded :
    ∃ h : (exec nextSmp (smpStart 2) overlappingSends).isSome,
      Always NoStrandedEvent ((exec nextSmp (smpStart 2) overlappingSends).get h).1
        ((exec nextSmp (smpStart 2) overlappingSends).get h).2 :=
  ⟨by decide, (always_noStrandedEvent (exec_get (by decide))).2 (by decide)⟩

/-- Both interrupts are sent before the first is delivered. -/
def mergedSends : List (SmpAction 2) :=
  [.send 0 10 cpuZero, .send 1 11 cpuZero, .sender 0, .sender 0, .sender 0, .sender 1, .sender 1,
    .sender 1, .deliver 0, .isr 0, .isr 0, .isr 0]

private theorem mergedSends_runs : (exec nextSmp (smpStart 2) mergedSends).isSome := by
  decide

theorem event_stranded : ∃ tr s,
    Exec (fun s a s' => nextSmp s a = some s') (smpStart 2) tr s ∧
      (s.cpu 0).eventList = [11] ∧ ¬ NoStrandedEvent s := by
  refine ⟨_, _, exec_get mergedSends_runs, by decide, fun hs => ?_⟩
  have hidle : ∀ t c, ((((exec nextSmp (smpStart 2) mergedSends).get mergedSends_runs).2.sender
      t).between c) = false
    | 0, _ => rfl
    | 1, _ => rfl
  rcases hs hidle 0 (by decide) with hp | hisr
  · cases hp
  · exact hisr rfl

end HAL9000.Smp
