import HAL9000.CommonLib.Base
import HAL9000.Lib.Run
import Mathlib.Data.Nat.ModEq

/-! The transmit ring of `eth_82574L_operations.c`: the transmit worker fills descriptors and moves the
tail, the controller processes them and moves the head, and its interrupts signal
`DescriptorsAvailable`. Each access to a register, to the ring or to the event is a step. -/
namespace HAL9000.Network

open Run

/-- Where the worker stands in `NetPortTransmitFunction` and `EthSendFrame`. -/
inductive TxPc
  | idle
  | waitDescriptors
  | blocked
  | assertDone
  | clearDone
  | advance
  | readHead
  | lock
  | readHeadAgain
  | notifyQueueFull
  | unlock
  | setTail
  | returned
  deriving DecidableEq, Repr

/-- Where a run of `EthHandleInterrupt` stands. -/
inductive TxIsrPc
  | idle
  | lock
  | notifyAvailable
  | unlock
  deriving DecidableEq, Repr

/-- The ring with its registers, the controller, which has written back the descriptor at its head or
not, and its interrupts that are not delivered yet. `sent`, `published` and `processed` count the
descriptors that software has filled, that lie before the tail and that the controller is done with. -/
structure TxRing (Isr : Type) where
  currentDescriptor : ℕ
  descriptorDone : ℕ → Bool
  txHead : ℕ
  txTail : ℕ
  currentTxIndex : ℕ
  descriptorsAvailable : Bool
  txInterruptLock : Option (Option Isr)
  worker : TxPc
  isr : Isr → TxIsrPc
  wroteBack : Bool
  interrupts : ℕ
  sent : ℕ
  published : ℕ
  processed : ℕ

variable {Isr : Type}

def TxRing.nextTxIndex (n : ℕ) (s : TxRing Isr) : ℕ := (s.currentDescriptor + 1) % n

/-- What `EthSendFrame` asserts about the descriptor it fills. -/
def TxRing.SlotOk (n : ℕ) (s : TxRing Isr) : Prop :=
  s.currentTxIndex = s.currentDescriptor ∧ s.currentDescriptor < n ∧
    s.descriptorDone s.currentDescriptor = true

instance (n : ℕ) (s : TxRing Isr) : Decidable (s.SlotOk n) := inferInstanceAs (Decidable (_ ∧ _))

/-- One step of the worker for a ring of `n` descriptors. An `ASSERT` that fails halts it. -/
def workerStep (n : ℕ) (s : TxRing Isr) : Option (TxRing Isr) :=
  match s.worker with
  | .idle | .blocked => none
  | .waitDescriptors =>
    some { s with worker := if s.descriptorsAvailable then .assertDone else .blocked }
  | .assertDone => if s.SlotOk n then some { s with worker := .clearDone } else none
  | .clearDone =>
    some { s with
      descriptorDone := Function.update s.descriptorDone s.currentDescriptor false
      worker := .advance }
  | .advance => some { s with
      currentDescriptor := (s.currentDescriptor + 1) % n, sent := s.sent + 1, worker := .readHead }
  | .readHead => some { s with worker := if s.nextTxIndex n = s.txHead then .lock else .setTail }
  | .lock =>
    if s.txInterruptLock = none then
      some { s with txInterruptLock := some none, worker := .readHeadAgain }
    else none
  | .readHeadAgain =>
    some { s with worker := if s.nextTxIndex n = s.txHead then .notifyQueueFull else .unlock }
  | .notifyQueueFull => some { s with descriptorsAvailable := false, worker := .unlock }
  | .unlock => some { s with txInterruptLock := none, worker := .setTail }
  | .setTail => some { s with
      txTail := s.currentDescriptor, published := s.sent, worker := .returned }
  | .returned => some { s with currentTxIndex := (s.currentTxIndex + 1) % n, worker := .idle }

/-- The controller writes the descriptor at its head back, then moves on and owes an interrupt. -/
def controllerStep (n : ℕ) (s : TxRing Isr) : Option (TxRing Isr) :=
  if s.txHead = s.txTail then none
  else if s.wroteBack then
    some { s with
      txHead := (s.txHead + 1) % n
      wroteBack := false
      interrupts := s.interrupts + 1
      processed := s.processed + 1 }
  else
    some { s with
      descriptorDone := Function.update s.descriptorDone s.txHead true
      wroteBack := true }

def txIsrStep [DecidableEq Isr] (s : TxRing Isr) (i : Isr) : Option (TxRing Isr) :=
  match s.isr i with
  | .idle => none
  | .lock =>
    if s.txInterruptLock = none then
      some { s with
        txInterruptLock := some (some i), isr := Function.update s.isr i .notifyAvailable }
    else none
  | .notifyAvailable => some { s with
      descriptorsAvailable := true
      worker := if s.worker = .blocked then .assertDone else s.worker
      isr := Function.update s.isr i .unlock }
  | .unlock => some { s with txInterruptLock := none, isr := Function.update s.isr i .idle }

inductive RingAction (Isr : Type)
  | frame
  | worker
  | controller
  | interrupt (i : Isr)
  | isr (i : Isr)
  deriving DecidableEq

/-- The worker finds a frame to send at any time; an interrupt is delivered at any later time. -/
def nextRing [DecidableEq Isr] (n : ℕ) (s : TxRing Isr) : RingAction Isr → Option (TxRing Isr)
  | .frame => if s.worker = .idle then some { s with worker := .waitDescriptors } else none
  | .worker => workerStep n s
  | .controller => controllerStep n s
  | .interrupt i =>
    if 0 < s.interrupts ∧ s.isr i = .idle then
      some { s with interrupts := s.interrupts - 1, isr := Function.update s.isr i .lock }
    else none
  | .isr i => txIsrStep s i

def ringStart (Isr : Type) : TxRing Isr where
  currentDescriptor := 0
  descriptorDone := fun _ => true
  txHead := 0
  txTail := 0
  currentTxIndex := 0
  descriptorsAvailable := true
  txInterruptLock := none
  worker := .idle
  isr := fun _ => .idle
  wroteBack := false
  interrupts := 0
  sent := 0
  published := 0
  processed := 0

/-- The descriptor that is filled next is done, and a ring whose tail is at its head is empty. -/
structure RingSafe (n : ℕ) (s : TxRing Isr) : Prop where
  asserts : s.worker = .assertDone → s.SlotOk n
  notOverrun : s.txTail = s.txHead → s.processed = s.published

/-- An interrupt does not signal `DescriptorsAvailable` again while the ring is still full. -/
def NotReopened (n : ℕ) (s : TxRing Isr) : RingAction Isr → Prop
  | .isr i => s.isr i = .notifyAvailable → s.descriptorsAvailable = false →
      s.nextTxIndex n ≠ s.txHead
  | _ => True

instance (n : ℕ) (s : TxRing Isr) : DecidablePred (NotReopened n s)
  | .isr i => inferInstanceAs (Decidable (s.isr i = .notifyAvailable →
      s.descriptorsAvailable = false → s.nextTxIndex n ≠ s.txHead))
  | .frame | .worker | .controller | .interrupt _ => inferInstanceAs (Decidable True)

namespace TxPc

/-- The worker has filled a descriptor that is not before the tail yet. -/
def holds : TxPc → Bool
  | .readHead | .lock | .readHeadAgain | .notifyQueueFull | .unlock | .setTail => true
  | _ => false

/-- The worker has passed its wait and not taken the descriptor yet. -/
def admitted : TxPc → Bool
  | .assertDone | .clearDone | .advance => true
  | _ => false

/-- The worker may still find the ring full. -/
def decides : TxPc → Bool
  | .readHead | .lock | .readHeadAgain | .notifyQueueFull => true
  | _ => false

end TxPc

/-- The registers are the counters modulo the size of the ring; the ring is never fuller than `n - 1`
descriptors, and one less while a descriptor may be sent. -/
structure RingInv (n : ℕ) (s : TxRing Isr) : Prop where
  current : s.currentDescriptor = s.sent % n
  head : s.txHead = s.processed % n
  tail : s.txTail = s.published % n
  index : s.currentTxIndex =
    (if s.worker.holds = true ∨ s.worker = .returned then s.sent - 1 else s.sent) % n
  published : s.published = if s.worker.holds = true then s.sent - 1 else s.sent
  positive : s.worker.holds = true ∨ s.worker = .returned → 0 < s.sent
  processed : s.processed ≤ s.published
  room : s.sent < s.processed + n
  admitted : s.worker.admitted = true → s.sent + 1 < s.processed + n
  opened : s.descriptorsAvailable = true → s.worker.decides = false → s.sent + 1 < s.processed + n
  closed : s.worker = .blocked → s.descriptorsAvailable = false
  done : ∀ k, s.sent + (if s.worker = .advance then 1 else 0) ≤ k → k < s.processed + n →
    s.descriptorDone (k % n) = true
  wroteBack : s.wroteBack = true →
    s.processed < s.published ∧ s.descriptorDone (s.processed % n) = true

theorem mod_eq_mod_of_lt {a b n : ℕ} (hle : b ≤ a) (hlt : a < b + n) : a % n = b % n ↔ a = b := by
  refine ⟨fun h => ?_, fun h => by rw [h]⟩
  have hdvd : n ∣ a - b := (Nat.modEq_iff_dvd' hle).mp h.symm
  have hzero := Nat.eq_zero_of_dvd_of_lt hdvd (by omega)
  omega

section Steps

variable {n : ℕ} {s s' : TxRing Isr}

/-- The check of `_EthSignalTxQueueFullIfNecessary`: only one more descriptor would fit. -/
theorem RingInv.full_iff (hi : RingInv n s) :
    s.nextTxIndex n = s.txHead ↔ s.sent + 1 = s.processed + n := by
  have hroom := hi.room
  have hle := hi.processed
  have hpub := hi.published
  unfold TxRing.nextTxIndex
  rw [hi.current, hi.head, Nat.mod_add_mod]
  by_cases heq : s.sent + 1 = s.processed + n
  · rw [heq, Nat.add_mod_right]
    simp
  · have hge : s.processed ≤ s.sent := by
      split_ifs at hpub <;> omega
    rw [mod_eq_mod_of_lt (by omega) (by omega)]
    omega

theorem RingInv.processed_le_sent (hi : RingInv n s) : s.processed ≤ s.sent := by
  have hle := hi.processed
  have hpub := hi.published
  split_ifs at hpub <;> omega

theorem RingInv.safe (hi : RingInv n s) : RingSafe n s where
  asserts hw := by
    have hroom := hi.room
    have hadm := hi.admitted (by rw [hw]; rfl)
    refine ⟨?_, ?_, ?_⟩
    · rw [hi.index, hi.current, hw]
      rfl
    · rw [hi.current]
      exact Nat.mod_lt _ (by have := hi.processed_le_sent; omega)
    · rw [hi.current]
      refine hi.done s.sent ?_ hroom
      rw [hw]
      exact Nat.le_refl _
  notOverrun h := by
    have hroom := hi.room
    have hle := hi.processed
    have hpub := hi.published
    rw [hi.tail, hi.head] at h
    refine ((mod_eq_mod_of_lt hle ?_).mp h).symm
    split_ifs at hpub <;> omega

/-- The worker moves on without a change of the counters. -/
theorem RingInv.goto (hi : RingInv n s) {p : TxPc} (hholds : p.holds = s.worker.holds)
    (hreturned : p = .returned ↔ s.worker = .returned)
    (hadvance : p = .advance ↔ s.worker = .advance)
    (hadmitted : p.admitted = true → s.sent + 1 < s.processed + n)
    (hopened : s.descriptorsAvailable = true → p.decides = false → s.sent + 1 < s.processed + n)
    (hclosed : p = .blocked → s.descriptorsAvailable = false) :
    RingInv n { s with worker := p } := by
  refine ⟨hi.current, hi.head, hi.tail, ?_, ?_, ?_, hi.processed, hi.room, hadmitted, hopened, hclosed,
    ?_, hi.wroteBack⟩
  · simp only [hholds, hreturned]
    exact hi.index
  · simp only [hholds]
    exact hi.published
  · simp only [hholds, hreturned]
    exact hi.positive
  · simp only [hadvance]
    exact hi.done

/-- The lock, the interrupts and the runs of the handler are not part of the invariant. -/
theorem RingInv.frame (hi : RingInv n s) (txInterruptLock : Option (Option Isr))
    (isr : Isr → TxIsrPc) (interrupts : ℕ) :
    RingInv n { s with
      txInterruptLock := txInterruptLock, isr := isr, interrupts := interrupts } :=
  ⟨hi.current, hi.head, hi.tail, hi.index, hi.published, hi.positive, hi.processed, hi.room,
    hi.admitted, hi.opened, hi.closed, hi.done, hi.wroteBack⟩

/-- The descriptor that is being filled is not the one the controller has written back. -/
theorem RingInv.clearDone (hi : RingInv n s) (hw : s.worker = .clearDone) :
    RingInv n { s with
      descriptorDone := Function.update s.descriptorDone s.currentDescriptor false
      worker := .advance } := by
  have hadm := hi.admitted (by rw [hw]; rfl)
  have hpub := hi.published
  have hindex := hi.index
  have hdone := hi.done
  rw [hw] at hpub hindex hdone
  have hpub : s.published = s.sent := hpub
  refine ⟨hi.current, hi.head, hi.tail, hindex, hpub, nofun, hi.processed, hi.room, fun _ => hadm,
    fun _ _ => hadm, nofun, fun k hle hlt => ?_, fun hwrote => ?_⟩
  · have hne : k % n ≠ s.currentDescriptor := by
      rw [hi.current]
      intro heq
      have hle : s.sent + 1 ≤ k := hle
      have hlt : k < s.processed + n := hlt
      have := (mod_eq_mod_of_lt (by omega) (by have := hi.processed_le_sent; omega)).mp heq
      omega
    show Function.update s.descriptorDone _ false _ = true
    rw [Function.update_of_ne hne]
    exact hdone k (Nat.le_of_succ_le hle) hlt
  · obtain ⟨hlt, hback⟩ := hi.wroteBack hwrote
    have hne : s.processed % n ≠ s.currentDescriptor := by
      rw [hi.current]
      intro heq
      have := (mod_eq_mod_of_lt (by omega) (by omega)).mp heq.symm
      omega
    exact ⟨hlt, (Function.update_of_ne hne ..).trans hback⟩

theorem RingInv.advance (hi : RingInv n s) (hw : s.worker = .advance) :
    RingInv n { s with
      currentDescriptor := (s.currentDescriptor + 1) % n, sent := s.sent + 1, worker := .readHead } := by
  have hadm := hi.admitted (by rw [hw]; rfl)
  have hpub := hi.published
  have hindex := hi.index
  have hdone := hi.done
  rw [hw] at hpub hindex hdone
  refine ⟨?_, hi.head, hi.tail, hindex, hpub, fun _ => Nat.succ_pos _, hi.processed, hadm, nofun, nofun,
    nofun, hdone, hi.wroteBack⟩
  show (s.currentDescriptor + 1) % n = (s.sent + 1) % n
  rw [hi.current, Nat.mod_add_mod]

theorem workerStep_inv (hi : RingInv n s) (h : workerStep n s = some s') : RingInv n s' := by
  have hopened := hi.opened
  have hadmitted := hi.admitted
  unfold workerStep at h
  cases hw : s.worker with
  | idle | blocked => simp [hw] at h
  | waitDescriptors =>
    rw [hw] at hopened
    simp only [hw, Option.some.injEq] at h
    subst h
    by_cases hevent : s.descriptorsAvailable = true
    · rw [if_pos hevent]
      exact hi.goto (by rw [hw]; rfl) (by rw [hw]; simp) (by rw [hw]; simp)
        (fun _ => hopened hevent rfl) (fun _ _ => hopened hevent rfl) nofun
    · rw [if_neg hevent]
      exact hi.goto (by rw [hw]; rfl) (by rw [hw]; simp) (by rw [hw]; simp) nofun
        (fun hev => absurd hev hevent) fun _ => Bool.eq_false_iff.mpr hevent
  | assertDone =>
    rw [hw] at hadmitted
    simp only [hw] at h
    obtain ⟨-, h⟩ := Option.ite_none_right_eq_some.mp h
    cases h
    exact hi.goto (by rw [hw]; rfl) (by rw [hw]; simp) (by rw [hw]; simp) (fun _ => hadmitted rfl)
      (fun _ _ => hadmitted rfl) nofun
  | clearDone =>
    simp only [hw, Option.some.injEq] at h
    subst h
    exact hi.clearDone hw
  | advance =>
    simp only [hw, Option.some.injEq] at h
    subst h
    exact hi.advance hw
  | readHead =>
    simp only [hw, Option.some.injEq] at h
    subst h
    have hroom := hi.room
    by_cases hfull : s.nextTxIndex n = s.txHead
    · rw [if_pos hfull]
      exact hi.goto (by rw [hw]; rfl) (by rw [hw]; simp) (by rw [hw]; simp) nofun nofun nofun
    · rw [if_neg hfull]
      have hlt : s.sent + 1 < s.processed + n := by
        have := mt hi.full_iff.mpr hfull
        omega
      exact hi.goto (by rw [hw]; rfl) (by rw [hw]; simp) (by rw [hw]; simp) nofun (fun _ _ => hlt) nofun
  | lock =>
    simp only [hw] at h
    obtain ⟨-, h⟩ := Option.ite_none_right_eq_some.mp h
    cases h
    exact (hi.goto (p := .readHeadAgain) (by rw [hw]; rfl) (by rw [hw]; simp) (by rw [hw]; simp) nofun nofun
      nofun).frame _ _ _
  | readHeadAgain =>
    simp only [hw, Option.some.injEq] at h
    subst h
    have hroom := hi.room
    by_cases hfull : s.nextTxIndex n = s.txHead
    · rw [if_pos hfull]
      exact hi.goto (by rw [hw]; rfl) (by rw [hw]; simp) (by rw [hw]; simp) nofun nofun nofun
    · rw [if_neg hfull]
      have hlt : s.sent + 1 < s.processed + n := by
        have := mt hi.full_iff.mpr hfull
        omega
      exact hi.goto (by rw [hw]; rfl) (by rw [hw]; simp) (by rw [hw]; simp) nofun (fun _ _ => hlt) nofun
  | notifyQueueFull =>
    have hpub := hi.published
    have hindex := hi.index
    have hpos := hi.positive
    have hdone := hi.done
    rw [hw] at hpub hindex hpos hdone
    simp only [hw, Option.some.injEq] at h
    subst h
    exact ⟨hi.current, hi.head, hi.tail, hindex, hpub, fun _ => hpos (Or.inl rfl), hi.processed, hi.room,
      nofun, nofun, nofun, hdone, hi.wroteBack⟩
  | unlock =>
    rw [hw] at hopened
    simp only [hw, Option.some.injEq] at h
    subst h
    exact (hi.goto (p := .setTail) (by rw [hw]; rfl) (by rw [hw]; simp) (by rw [hw]; simp) nofun
      (fun hev _ => hopened hev rfl) nofun).frame _ _ _
  | setTail =>
    have hpub := hi.published
    have hindex := hi.index
    have hpos := hi.positive
    have hdone := hi.done
    rw [hw] at hpub hindex hpos hdone hopened
    simp only [hw, Option.some.injEq] at h
    subst h
    have hpub : s.published = s.sent - 1 := hpub
    have hle := hi.processed
    refine ⟨hi.current, hi.head, hi.current, hindex, rfl, fun _ => hpos (Or.inl rfl), ?_, hi.room, nofun,
      fun hev _ => hopened hev rfl, nofun, hdone, fun hwrote => ?_⟩
    · show s.processed ≤ s.sent
      lia
    · obtain ⟨hlt, hback⟩ := hi.wroteBack hwrote
      exact ⟨by show s.processed < s.sent; omega, hback⟩
  | returned =>
    have hpub := hi.published
    have hindex := hi.index
    have hpos := hi.positive
    have hdone := hi.done
    rw [hw] at hpub hindex hpos hdone hopened
    simp only [hw, Option.some.injEq] at h
    subst h
    refine ⟨hi.current, hi.head, hi.tail, ?_, hpub, nofun, hi.processed, hi.room, nofun,
      fun hev _ => hopened hev rfl, nofun, hdone, hi.wroteBack⟩
    have hindex : s.currentTxIndex = (s.sent - 1) % n := hindex
    have hpos : 0 < s.sent := hpos (Or.inr rfl)
    show (s.currentTxIndex + 1) % n = s.sent % n
    rw [hindex, Nat.mod_add_mod, Nat.sub_add_cancel hpos]

theorem controllerStep_inv (hi : RingInv n s) (h : controllerStep n s = some s') : RingInv n s' := by
  have hroom := hi.room
  have hle := hi.processed
  have hsent := hi.processed_le_sent
  unfold controllerStep at h
  split_ifs at h with hempty hwrote
  · cases h
    obtain ⟨hlt, hback⟩ := hi.wroteBack hwrote
    refine ⟨hi.current, ?_, hi.tail, hi.index, hi.published, hi.positive, hlt, ?_, fun hadm => ?_,
      fun hev hdec => ?_, hi.closed, fun k hk hkn => ?_, nofun⟩
    · show (s.txHead + 1) % n = (s.processed + 1) % n
      rw [hi.head, Nat.mod_add_mod]
    · show s.sent < s.processed + 1 + n
      omega
    · have := hi.admitted hadm
      show s.sent + 1 < s.processed + 1 + n
      omega
    · have := hi.opened hev hdec
      show s.sent + 1 < s.processed + 1 + n
      omega
    · have hkn : k < s.processed + 1 + n := hkn
      by_cases hlast : k = s.processed + n
      · rw [hlast, Nat.add_mod_right]
        exact hback
      · exact hi.done k hk (by omega)
  · cases h
    have hne : s.processed ≠ s.published := by
      intro heq
      rw [hi.head, hi.tail, heq] at hempty
      exact hempty rfl
    refine ⟨hi.current, hi.head, hi.tail, hi.index, hi.published, hi.positive, hi.processed, hi.room,
      hi.admitted, hi.opened, hi.closed, fun k hk hkn => ?_, fun _ => ⟨?_, ?_⟩⟩
    · by_cases hk' : k % n = s.txHead
      · show Function.update s.descriptorDone _ true _ = true
        rw [hk', Function.update_self]
      · exact (Function.update_of_ne hk' ..).trans (hi.done k hk hkn)
    · show s.processed < s.published
      omega
    · show Function.update s.descriptorDone _ true _ = true
      rw [hi.head, Function.update_self]

theorem txIsrStep_inv [DecidableEq Isr] (hi : RingInv n s) {i : Isr} (hq : NotReopened n s (.isr i))
    (h : txIsrStep s i = some s') : RingInv n s' := by
  unfold txIsrStep at h
  cases hp : s.isr i with
  | idle => simp [hp] at h
  | lock =>
    simp only [hp] at h
    obtain ⟨-, h⟩ := Option.ite_none_right_eq_some.mp h
    cases h
    exact hi.frame _ _ _
  | notifyAvailable =>
    simp only [hp, Option.some.injEq] at h
    subst h
    have hroom := hi.room
    -- With the event signaled already, the signal changes nothing.
    have hopen : s.worker.decides = false → s.sent + 1 < s.processed + n := by
      intro hdec
      cases hevent : s.descriptorsAvailable with
      | true => exact hi.opened hevent hdec
      | false =>
        have := mt hi.full_iff.mpr (hq hp hevent)
        omega
    have hsignaled : RingInv n { s with
        worker := if s.worker = .blocked then .assertDone else s.worker } := by
      by_cases hblocked : s.worker = .blocked
      · have hlt := hopen (by rw [hblocked]; rfl)
        rw [if_pos hblocked]
        exact hi.goto (by rw [hblocked]; rfl) (by rw [hblocked]; simp) (by rw [hblocked]; simp)
          (fun _ => hlt) (fun _ _ => hlt) nofun
      · rw [if_neg hblocked]
        exact hi
    have hopen' : (if s.worker = .blocked then .assertDone else s.worker : TxPc).decides = false →
        s.sent + 1 < s.processed + n := by
      by_cases hblocked : s.worker = .blocked
      · exact fun _ => hopen (by rw [hblocked]; rfl)
      · rw [if_neg hblocked]
        exact hopen
    refine ⟨hsignaled.current, hsignaled.head, hsignaled.tail, hsignaled.index, hsignaled.published,
      hsignaled.positive, hsignaled.processed, hsignaled.room, hsignaled.admitted, fun _ => hopen',
      fun hblocked => ?_, hsignaled.done, hsignaled.wroteBack⟩
    have hblocked : (if s.worker = .blocked then .assertDone else s.worker : TxPc) = .blocked := hblocked
    split_ifs at hblocked with hb
    exact absurd hblocked hb
  | unlock =>
    simp only [hp, Option.some.injEq] at h
    subst h
    exact hi.frame _ _ _

theorem nextRing_inv [DecidableEq Isr] {a : RingAction Isr} (hi : RingInv n s) (hq : NotReopened n s a)
    (h : nextRing n s a = some s') : RingInv n s' := by
  cases a with
  | frame =>
    simp only [nextRing] at h
    obtain ⟨hw, h⟩ := Option.ite_none_right_eq_some.mp h
    cases h
    have hopened := hi.opened
    rw [hw] at hopened
    exact hi.goto (by rw [hw]; rfl) (by rw [hw]; simp) (by rw [hw]; simp) nofun
      (fun hev _ => hopened hev rfl) nofun
  | worker => exact workerStep_inv hi h
  | controller => exact controllerStep_inv hi h
  | interrupt i =>
    simp only [nextRing] at h
    obtain ⟨-, h⟩ := Option.ite_none_right_eq_some.mp h
    cases h
    exact hi.frame _ _ _
  | isr i => exact txIsrStep_inv hi hq h

theorem ringStart_inv (hn : 2 ≤ n) : RingInv n (ringStart Isr) := by
  refine ⟨rfl, rfl, rfl, rfl, rfl, fun h => ?_, Nat.le_refl _, ?_, nofun, fun _ _ => ?_, nofun,
    fun _ _ _ => rfl, nofun⟩
  · rcases h with h | h <;> cases h
  · show 0 < 0 + n
    omega
  · show 0 + 1 < 0 + n
    omega

end Steps

/-- The ring does not overrun as long as no interrupt signals the event while the ring is full. -/
theorem ring_safe [DecidableEq Isr] {n : ℕ} (hn : 2 ≤ n) {s : TxRing Isr}
    {tr : List (TxRing Isr × RingAction Isr)}
    (h : Exec (fun s a s' => nextRing n s a = some s') (ringStart Isr) tr s)
    (hq : ∀ v ∈ tr, NotReopened n v.1 v.2) : Always (RingSafe n) tr s :=
  (h.always_of_steps (P := RingInv n) (Q := NotReopened n) (ringStart_inv hn)
    (fun _ _ _ hi hqs hs => nextRing_inv hi hqs hs) hq).mono fun _ hi => hi.safe

/-- The worker sends a frame. -/
def sendFrame : List (RingAction Unit) := .frame :: List.replicate 7 .worker

/-- The worker sends a frame that fills the ring. -/
def sendLastFrame : List (RingAction Unit) := .frame :: List.replicate 11 .worker

/-- An interrupt is delivered and handled. -/
def handleInterrupt : List (RingAction Unit) := [.interrupt (), .isr (), .isr (), .isr ()]

/-- Two frames through a ring of two descriptors; the interrupt of the first one lets the second one
go. -/
def twoFrames : List (RingAction Unit) :=
  sendLastFrame ++ [.frame, .worker, .controller, .controller] ++ handleInterrupt ++
    List.replicate 10 .worker

theorem twoFrames_runs : (exec (nextRing 2) (ringStart Unit) twoFrames).isSome = true := by decide

theorem ringSafe_of_twoFrames :
    Always (RingSafe 2) ((exec (nextRing 2) (ringStart Unit) twoFrames).get twoFrames_runs).1
      ((exec (nextRing 2) (ringStart Unit) twoFrames).get twoFrames_runs).2 :=
  ring_safe (by decide) (exec_get twoFrames_runs) (by decide)

/-- In a ring of three descriptors the first one is processed before the ring is full, and its interrupt
is delivered when the ring is full. -/
def delayedInterrupt : List (RingAction Unit) :=
  sendFrame ++ [.controller, .controller] ++ sendFrame ++ sendLastFrame ++ handleInterrupt ++ sendFrame

theorem delayedInterrupt_runs :
    (exec (nextRing 3) (ringStart Unit) delayedInterrupt).isSome = true := by decide

/-- The fourth frame moves the tail onto the head with three descriptors before it. -/
theorem ring_overrun :
    ¬Always (RingSafe 3) ((exec (nextRing 3) (ringStart Unit) delayedInterrupt).get
        delayedInterrupt_runs).1
      ((exec (nextRing 3) (ringStart Unit) delayedInterrupt).get delayedInterrupt_runs).2 :=
  fun h => absurd (h.2.notOverrun (by decide)) (by decide)

end HAL9000.Network
