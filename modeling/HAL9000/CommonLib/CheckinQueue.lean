import HAL9000.CommonLib.Base
import HAL9000.Lib.Run
import HAL9000.Lib.Threads

/-! The check-in queue of `checkin_queue.c`. Every compare-exchange is a step of its own, and the calls of
`CheckinQueueMarkPresence` and `CheckinQueueWaitOn` take steps in any order. -/
namespace HAL9000

open Run Threads

structure CheckinQueue where
  array : ℕ → Bool
  numberOfThreads : DWORD

/-- `CheckinQueuePreInit` and `CheckinQueueInit`. -/
def checkinQueueInit (numberOfThreads : DWORD) : CheckinQueue := ⟨fun _ => false, numberOfThreads⟩

/-- The old value and the queue after it; there is nothing behind the array. -/
def CheckinQueue.compareExchange8 (q : CheckinQueue) (i : ℕ) (exchange comparand : Bool) :
    Option (Bool × CheckinQueue) :=
  if i < q.numberOfThreads.toNat then
    some (q.array i, if q.array i = comparand then { q with array := Function.update q.array i exchange } else q)
  else none

/-- Where a call of `CheckinQueueMarkPresence` stands. -/
inductive MarkPc
  | idle
  | exchange (i : ℕ)
  | marked
  | fell
  deriving DecidableEq, Repr

/-- Where a call of `CheckinQueueWaitOn` stands, and the number of slots that it looks at. -/
inductive WaitOnPc
  | idle
  | look (numberOfThreads i : ℕ) (semaphoreGreen : Bool)
  | returned (numberOfThreads : ℕ)
  deriving DecidableEq, Repr

/-- A step of the loop; a call that finds no slot falls through. -/
def markStep (q : CheckinQueue) : MarkPc → Option (CheckinQueue × MarkPc)
  | .idle | .marked | .fell => none
  | .exchange i =>
    if i < q.numberOfThreads.toNat then
      (q.compareExchange8 i true false).map fun (old, q') => (q', if !old then .marked else .exchange (i + 1))
    else some (q, .fell)

/-- A step of the two loops. -/
def checkinWaitStep (q : CheckinQueue) : WaitOnPc → Option (CheckinQueue × WaitOnPc)
  | .idle | .returned _ => none
  | .look n i semaphoreGreen =>
    if i < n then
      (q.compareExchange8 i true true).map fun (old, q') =>
        (q', .look n (i + 1) (if !old then false else semaphoreGreen))
    else if semaphoreGreen then some (q, .returned n)
    else some (q, .look n 0 true)

/-- `ι` and `ω` are the calls that mark a presence and the calls that wait. -/
structure CheckinState (ι ω : Type) where
  queue : CheckinQueue
  mark : ι → MarkPc
  wait : ω → WaitOnPc

inductive CheckinAction (ι ω : Type)
  | markPresence (t : ι)
  | mark (t : ι)
  | waitOn (w : ω) (waitAll : Bool) (numberOfCheckinsToWait : DWORD)
  | wait (w : ω)
  deriving DecidableEq

section Steps

variable {q : CheckinQueue} {n i : ℕ} {g : Bool}

/-- A call takes the slot if it is free, and goes on otherwise. -/
theorem markStep_exchange (hi : i < q.numberOfThreads.toNat) :
    markStep q (.exchange i) =
      if q.array i then some (q, .exchange (i + 1))
      else some ({ q with array := Function.update q.array i true }, .marked) := by
  rw [markStep, if_pos hi, CheckinQueue.compareExchange8, if_pos hi]
  cases hold : q.array i with
  | true => rfl
  | false => rfl

/-- A waiting call changes no slot. -/
theorem checkinWaitStep_look (hin : i < n) (hi : i < q.numberOfThreads.toNat) :
    checkinWaitStep q (.look n i g) = some (q, .look n (i + 1) (q.array i && g)) := by
  rw [checkinWaitStep, if_pos hin, CheckinQueue.compareExchange8, if_pos hi]
  cases hold : q.array i with
  | true =>
    have hsame : Function.update q.array i true = q.array := hold ▸ Function.update_eq_self i q.array
    simp [hsame]
  | false => rfl

end Steps

variable {ι ω : Type} [DecidableEq ι] [DecidableEq ω]

/-- The calls begin with an `ASSERT` on the number of threads. -/
def nextCheckin (s : CheckinState ι ω) : CheckinAction ι ω → Option (CheckinState ι ω)
  | .markPresence t =>
    if s.mark t = .idle ∧ 0 < s.queue.numberOfThreads.toNat then
      some { s with mark := Function.update s.mark t (.exchange 0) }
    else none
  | .mark t => (markStep s.queue (s.mark t)).map fun (q, p) => { s with queue := q, mark := Function.update s.mark t p }
  | .waitOn w waitAll numberOfCheckinsToWait =>
    if s.wait w = .idle ∧ 0 < s.queue.numberOfThreads.toNat then
      let n := if waitAll then s.queue.numberOfThreads else numberOfCheckinsToWait
      some { s with wait := Function.update s.wait w (.look n.toNat 0 true) }
    else none
  | .wait w =>
    (checkinWaitStep s.queue (s.wait w)).map fun (q, p) => { s with queue := q, wait := Function.update s.wait w p }

def CheckinStep (s : CheckinState ι ω) (a : CheckinAction ι ω) (s' : CheckinState ι ω) : Prop := nextCheckin s a = some s'

def checkinStart (ι ω : Type) (numberOfThreads : DWORD) : CheckinState ι ω :=
  ⟨checkinQueueInit numberOfThreads, fun _ => .idle, fun _ => .idle⟩

variable [Fintype ι]

/-- How many calls have taken a slot. -/
def CheckinState.taken (s : CheckinState ι ω) : ℕ := population (fun p => p = .marked) s.mark

/-- The slots before `i` that a waiting call has found green are taken. -/
def WaitOnPc.Within (taken : ℕ) : WaitOnPc → Prop
  | .idle => True
  | .look n i semaphoreGreen => i ≤ n ∧ (semaphoreGreen → i ≤ taken)
  | .returned n => n ≤ taken

structure CheckinInv (N : DWORD) (s : CheckinState ι ω) : Prop where
  size : s.queue.numberOfThreads = N
  slots : ∀ i, s.queue.array i = true ↔ i < s.taken
  passed : ∀ t i, s.mark t = .exchange i → i ≤ s.taken
  found : ∀ t, s.mark t ≠ .fell
  within : ∀ w, (s.wait w).Within s.taken

section Invariant

variable {N : DWORD} {s s' : CheckinState ι ω} {a : CheckinAction ι ω} {t : ι} {w : ω} {n i : ℕ} {g : Bool}

omit [DecidableEq ι] [DecidableEq ω] in
theorem taken_lt_of_not_marked (ht : s.mark t ≠ .marked) : s.taken < Fintype.card ι := by
  refine Finset.card_lt_univ_of_notMem (x := t) ?_
  simpa using ht

omit [DecidableEq ω] in
/-- The count after a call has moved. -/
theorem taken_update (t : ι) (p : MarkPc) (s : CheckinState ι ω) :
    population (fun p => p = .marked) (Function.update s.mark t p) + (decide (s.mark t = .marked)).toNat =
      s.taken + (decide (p = .marked)).toNat :=
  population_update (fun p => p = .marked) s.mark t p

theorem WaitOnPc.Within.mono {p : WaitOnPc} {m : ℕ} (h : p.Within n) (hle : n ≤ m) : p.Within m := by
  cases p with
  | idle => trivial
  | look k i g => exact ⟨h.1, fun hg => (h.2 hg).trans hle⟩
  | returned k => exact Nat.le_trans h hle

omit [DecidableEq ι] [DecidableEq ω] in
theorem CheckinInv.exchange_lt (hinv : CheckinInv N s) (hk : Fintype.card ι ≤ N.toNat) (ht : s.mark t = .exchange i) :
    i < s.queue.numberOfThreads.toNat := by
  have hpassed := hinv.passed t i ht
  have hlt := taken_lt_of_not_marked (s := s) (t := t) (by rw [ht]; exact MarkPc.noConfusion)
  rw [hinv.size]
  omega

omit [DecidableEq ω] in
/-- A call that moves without taking a slot. -/
theorem CheckinInv.move (hinv : CheckinInv N s) (ht : s.mark t ≠ .marked) (hp : i ≤ s.taken) :
    CheckinInv N { s with mark := Function.update s.mark t (.exchange i) } := by
  have htaken : CheckinState.taken { s with mark := Function.update s.mark t (.exchange i) } = s.taken := by
    have hcount := taken_update t (.exchange i) s
    have hno : ¬ (MarkPc.exchange i = .marked) := MarkPc.noConfusion
    simp only [ht, hno, decide_false, Bool.toNat_false, add_zero] at hcount
    exact hcount
  refine ⟨hinv.size, fun j => ?_, fun u j hu => ?_, fun u => ?_, fun w => ?_⟩
  · rw [htaken]
    exact hinv.slots j
  · rw [htaken]
    by_cases hut : u = t
    · subst hut
      simp only [Function.update_self, MarkPc.exchange.injEq] at hu
      exact hu ▸ hp
    · simp only [Function.update_of_ne hut] at hu
      exact hinv.passed u j hu
  · by_cases hut : u = t
    · subst hut
      simp [Function.update_self]
    · simp only [Function.update_of_ne hut]
      exact hinv.found u
  · rw [htaken]
    exact hinv.within w

omit [DecidableEq ω] in
/-- A call that takes the first free slot. -/
theorem CheckinInv.take (hinv : CheckinInv N s) (ht : s.mark t = .exchange i) (hi : i = s.taken) :
    CheckinInv N { s with queue := { s.queue with array := Function.update s.queue.array i true }
                          mark := Function.update s.mark t .marked } := by
  have htaken : CheckinState.taken { s with queue := { s.queue with array := Function.update s.queue.array i true }
                                            mark := Function.update s.mark t .marked } = s.taken + 1 := by
    have hcount := taken_update t .marked s
    have hno : ¬ (s.mark t = .marked) := by rw [ht]; exact MarkPc.noConfusion
    simp only [hno, decide_false, Bool.toNat_false, add_zero, decide_true, Bool.toNat_true] at hcount
    exact hcount
  refine ⟨hinv.size, fun j => ?_, fun u j hu => ?_, fun u => ?_, fun w => ?_⟩
  · rw [htaken]
    by_cases hj : j = i
    · subst hj
      simp only [Function.update_self, true_iff]
      omega
    · simp only [Function.update_of_ne hj]
      rw [hinv.slots j]
      lia
  · rw [htaken]
    by_cases hut : u = t
    · subst hut
      simp only [Function.update_self] at hu
      exact MarkPc.noConfusion hu
    · simp only [Function.update_of_ne hut] at hu
      exact (hinv.passed u j hu).trans (Nat.le_succ _)
  · by_cases hut : u = t
    · subst hut
      simp [Function.update_self]
    · simp only [Function.update_of_ne hut]
      exact hinv.found u
  · rw [htaken]
    exact (hinv.within w).mono (Nat.le_succ _)

omit [DecidableEq ι] in
theorem CheckinInv.wait (hinv : CheckinInv N s) {p : WaitOnPc} (hp : p.Within s.taken) :
    CheckinInv N { s with wait := Function.update s.wait w p } := by
  refine ⟨hinv.size, hinv.slots, hinv.passed, hinv.found, fun u => ?_⟩
  by_cases huw : u = w
  · subst huw
    simp only [Function.update_self]
    exact hp
  · simp only [Function.update_of_ne huw]
    exact hinv.within u

omit [DecidableEq ι] [DecidableEq ω] in
/-- A step of a waiting call leaves the queue alone and keeps to what it has found. -/
theorem CheckinInv.checkinWaitStep_within (hinv : CheckinInv N s) {q : CheckinQueue} {p : WaitOnPc}
    (hstep : checkinWaitStep s.queue (s.wait w) = some (q, p)) : q = s.queue ∧ p.Within s.taken := by
  have hwithin := hinv.within w
  cases hw : s.wait w with
  | idle =>
    rw [hw] at hstep
    cases hstep
  | returned n =>
    rw [hw] at hstep
    cases hstep
  | look n i g =>
    rw [hw] at hstep hwithin
    obtain ⟨hin, hgreen⟩ := hwithin
    by_cases hlt : i < n
    · by_cases hi : i < s.queue.numberOfThreads.toNat
      · rw [checkinWaitStep_look hlt hi, Option.some_inj, Prod.mk.injEq] at hstep
        obtain ⟨rfl, rfl⟩ := hstep
        refine ⟨rfl, hlt, fun hg => ?_⟩
        rw [Bool.and_eq_true] at hg
        exact (hinv.slots i).mp hg.1
      · rw [checkinWaitStep, if_pos hlt, CheckinQueue.compareExchange8, if_neg hi] at hstep
        cases hstep
    · rw [checkinWaitStep, if_neg hlt] at hstep
      have hi : i = n := by omega
      cases g with
      | true =>
        cases hstep
        exact ⟨rfl, hi ▸ hgreen rfl⟩
      | false =>
        cases hstep
        exact ⟨rfl, Nat.zero_le _, fun _ => Nat.zero_le _⟩

theorem CheckinInv.step (hinv : CheckinInv N s) (hk : Fintype.card ι ≤ N.toNat) (h : CheckinStep s a s') :
    CheckinInv N s' := by
  unfold CheckinStep at h
  cases a with
  | markPresence t =>
    simp only [nextCheckin] at h
    split_ifs at h with hidle
    cases h
    exact hinv.move (by rw [hidle.1]; exact MarkPc.noConfusion) (Nat.zero_le _)
  | mark t =>
    cases ht : s.mark t with
    | idle => simp [nextCheckin, ht, markStep] at h
    | marked => simp [nextCheckin, ht, markStep] at h
    | fell => exact absurd ht (hinv.found t)
    | exchange i =>
      have hi := hinv.exchange_lt hk ht
      rw [nextCheckin, ht, markStep_exchange hi] at h
      cases hslot : s.queue.array i with
      | true =>
        rw [hslot] at h
        cases h
        exact hinv.move (by rw [ht]; exact MarkPc.noConfusion) ((hinv.slots i).mp hslot)
      | false =>
        rw [hslot] at h
        cases h
        have hge : ¬ i < s.taken := fun hlt => by simp [(hinv.slots i).mpr hlt] at hslot
        have hle := hinv.passed t i ht
        exact hinv.take ht (by omega)
  | waitOn w waitAll n =>
    simp only [nextCheckin] at h
    split_ifs at h
    · cases h
      exact hinv.wait ⟨Nat.zero_le _, fun _ => Nat.zero_le _⟩
    · cases h
      exact hinv.wait ⟨Nat.zero_le _, fun _ => Nat.zero_le _⟩
  | wait w =>
    rw [nextCheckin, Option.map_eq_some_iff] at h
    obtain ⟨⟨q, p⟩, hstep, rfl⟩ := h
    obtain ⟨rfl, hp⟩ := hinv.checkinWaitStep_within hstep
    exact hinv.wait hp

omit [DecidableEq ι] [DecidableEq ω] in
theorem checkinInv_start (N : DWORD) : CheckinInv N (checkinStart ι ω N) := by
  have hnone : (checkinStart ι ω N).taken = 0 := by
    refine population_eq_zero.mpr fun t => ?_
    rfl
  refine ⟨rfl, fun i => ?_, fun t i ht => ?_, fun t => MarkPc.noConfusion, fun w => trivial⟩
  · rw [hnone]
    simp [checkinStart, checkinQueueInit]
  · exact MarkPc.noConfusion ht

/-! ### The steps that a waiting call needs -/

/-- The steps to the return when the slots are taken: the rest of the pass, and another one if a slot was free. -/
def WaitOnPc.remaining : WaitOnPc → ℕ
  | .look n i true => n - i + 1
  | .look n i false => n - i + 1 + (n + 1)
  | .idle | .returned _ => 0

/-- How often the call takes a step. -/
def stepsOf (w : ω) (tr : List (CheckinState ι ω × CheckinAction ι ω)) : ℕ := (tr.map Prod.snd).count (.wait w)

/-- The call waits for `n` presences, or has done so. -/
def WaitOnPc.Waits (n : ℕ) (p : WaitOnPc) : Prop := p = .returned n ∨ ∃ i g, p = .look n i g

omit [DecidableEq ι] [DecidableEq ω] in
theorem CheckinInv.checkinWaitStep_taken (hinv : CheckinInv N s) (hw : s.wait w = .look n i g) (hN : n ≤ N.toNat)
    (hn : n ≤ s.taken) :
    ∃ p, checkinWaitStep s.queue (.look n i g) = some (s.queue, p) ∧ p.Waits n ∧
      p.remaining + 1 = (WaitOnPc.look n i g).remaining := by
  have hin : i ≤ n := by
    have hwithin := hinv.within w
    rw [hw] at hwithin
    exact hwithin.1
  by_cases hlt : i < n
  · have hi : i < s.queue.numberOfThreads.toNat := hinv.size ▸ Nat.lt_of_lt_of_le hlt hN
    have hslot : s.queue.array i = true := (hinv.slots i).mpr (Nat.lt_of_lt_of_le hlt hn)
    refine ⟨.look n (i + 1) g, ?_, .inr ⟨_, _, rfl⟩, ?_⟩
    · rw [checkinWaitStep_look hlt hi, hslot, Bool.true_and]
    · cases g with
      | true =>
        simp only [WaitOnPc.remaining]
        lia
      | false =>
        simp only [WaitOnPc.remaining]
        lia
  · have hi : i = n := by omega
    subst hi
    rw [checkinWaitStep, if_neg hlt]
    cases g with
    | true => exact ⟨_, rfl, .inl rfl, by simp [WaitOnPc.remaining]⟩
    | false => exact ⟨_, rfl, .inr ⟨_, _, rfl⟩, by simp [WaitOnPc.remaining]; omega⟩

omit [Fintype ι] in
/-- Nobody else moves a waiting call. -/
theorem wait_of_ne (h : CheckinStep s a s') (hw : s.wait w ≠ .idle) (ha : a ≠ .wait w) : s'.wait w = s.wait w := by
  unfold CheckinStep at h
  cases a with
  | markPresence t =>
    simp only [nextCheckin] at h
    split_ifs at h
    cases h
    rfl
  | mark t =>
    rw [nextCheckin, Option.map_eq_some_iff] at h
    obtain ⟨⟨q, p⟩, -, rfl⟩ := h
    rfl
  | waitOn u waitAll k =>
    simp only [nextCheckin] at h
    split_ifs at h with hidle
    · cases h
      exact Function.update_of_ne (fun heq : w = u => hw (heq ▸ hidle.1)) ..
    · cases h
      exact Function.update_of_ne (fun heq : w = u => hw (heq ▸ hidle.1)) ..
  | wait u =>
    rw [nextCheckin, Option.map_eq_some_iff] at h
    obtain ⟨⟨q, p⟩, -, rfl⟩ := h
    have hne : w ≠ u := fun heq => ha (heq ▸ rfl)
    exact Function.update_of_ne hne ..

/-- A slot once taken stays taken. -/
theorem taken_mono (h : CheckinStep s a s') : s.taken ≤ s'.taken := by
  unfold CheckinStep at h
  cases a with
  | markPresence t =>
    simp only [nextCheckin] at h
    split_ifs at h with hidle
    cases h
    have hcount := taken_update t (.exchange 0) s
    have hno : ¬ (s.mark t = .marked) := by rw [hidle.1]; exact MarkPc.noConfusion
    simp only [hno, decide_false, Bool.toNat_false, add_zero] at hcount
    unfold CheckinState.taken at hcount ⊢
    dsimp only
    omega
  | mark t =>
    rw [nextCheckin, Option.map_eq_some_iff] at h
    obtain ⟨⟨q, p⟩, hstep, rfl⟩ := h
    have hcount := taken_update t p s
    have hno : ¬ (s.mark t = .marked) := by
      intro hmarked
      rw [hmarked] at hstep
      cases hstep
    simp only [hno, decide_false, Bool.toNat_false, add_zero] at hcount
    unfold CheckinState.taken at hcount ⊢
    dsimp only
    omega
  | waitOn u waitAll k =>
    simp only [nextCheckin] at h
    split_ifs at h
    · cases h
      exact le_rfl
    · cases h
      exact le_rfl
  | wait u =>
    rw [nextCheckin, Option.map_eq_some_iff] at h
    obtain ⟨⟨q, p⟩, -, rfl⟩ := h
    exact le_rfl

/-- Every step of the waiting call counts, whatever the other calls do. -/
theorem CheckinInv.run_waits {tr : List (CheckinState ι ω × CheckinAction ι ω)} (hinv : CheckinInv N s)
    (hk : Fintype.card ι ≤ N.toNat) (hw : (s.wait w).Waits n) (hN : n ≤ N.toNat) (hn : n ≤ s.taken)
    (hexec : Exec CheckinStep s tr s') :
    CheckinInv N s' ∧ n ≤ s'.taken ∧ (s'.wait w).Waits n ∧
      stepsOf w tr + (s'.wait w).remaining = (s.wait w).remaining := by
  induction hexec with
  | nil => exact ⟨hinv, hn, hw, Nat.zero_add _⟩
  | @snoc tr u u' a _ hs ih =>
    obtain ⟨hinv', hn', hw', hsteps⟩ := ih
    refine ⟨hinv'.step hk hs, hn'.trans (taken_mono hs), ?_⟩
    have hsnoc : stepsOf w (tr ++ [(u, a)]) = stepsOf w tr + if a = .wait w then 1 else 0 := by
      unfold stepsOf
      rw [List.map_append, List.count_append]
      simp [List.count_singleton]
    rw [hsnoc]
    by_cases ha : a = .wait w
    · subst ha
      rw [if_pos rfl]
      unfold CheckinStep at hs
      rw [nextCheckin, Option.map_eq_some_iff] at hs
      obtain ⟨⟨q, p⟩, hstep, rfl⟩ := hs
      rcases hw' with hret | ⟨i, g, hlook⟩
      · rw [hret] at hstep
        cases hstep
      · obtain ⟨p', hstep', hwaits, hremaining⟩ := hinv'.checkinWaitStep_taken hlook hN hn'
        rw [hlook, hstep', Option.some_inj, Prod.mk.injEq] at hstep
        obtain ⟨-, rfl⟩ := hstep
        dsimp only
        rw [Function.update_self]
        rw [hlook] at hsteps
        exact ⟨hwaits, by lia⟩
    · have hnot : u.wait w ≠ .idle := by
        intro hidle
        rw [hidle] at hw'
        rcases hw' with h | ⟨i, g, h⟩
        · cases h
        · cases h
      rw [if_neg ha, wait_of_ne hs hnot ha]
      exact ⟨hw', hsteps⟩

end Invariant

/-- The slots that are taken form a prefix, as long as the number of calls that took one, every call finds a slot, and
a wait returns only after as many presences as it waits for. -/
def CheckinState.Prefix (s : CheckinState ι ω) : Prop :=
  (∀ i, s.queue.array i = true ↔ i < s.taken) ∧ (∀ t, s.mark t ≠ .fell) ∧
    ∀ w n, s.wait w = .returned n → n ≤ s.taken

/-- Once enough presences are marked, a call that waits is never stuck, and it returns within the rest of its pass and
another one. -/
def CheckinState.Returns (N : DWORD) (s : CheckinState ι ω) : Prop :=
  ∀ w n i g, s.wait w = .look n i g → n ≤ N.toNat → n ≤ s.taken → ∀ tr s', Exec CheckinStep s tr s' →
    s'.wait w = .returned n ∨ (∃ s'', CheckinStep s' (.wait w) s'') ∧ stepsOf w tr < n - i + 1 + (n + 1)

theorem checkinQueue_prefix_returns (N : DWORD) (hk : Fintype.card ι ≤ N.toNat)
    {tr : List (CheckinState ι ω × CheckinAction ι ω)} {s : CheckinState ι ω}
    (hexec : Exec CheckinStep (checkinStart ι ω N) tr s) :
    Always CheckinState.Prefix tr s ∧ s.Returns N := by
  have hinv := hexec.always (checkinInv_start N) fun s a s' hinv h => hinv.step hk h
  refine ⟨hinv.mono fun s h => ⟨h.slots, h.found, fun w n hw => ?_⟩, fun w n i g hw hN hn tr' s' hexec' => ?_⟩
  · have hwithin := h.within w
    rw [hw] at hwithin
    exact hwithin
  · obtain ⟨hinv', hn', hwaits, hsteps⟩ := hinv.2.run_waits hk (.inr ⟨i, g, hw⟩) hN hn hexec'
    rcases hwaits with hret | ⟨i', g', hlook⟩
    · exact .inl hret
    · obtain ⟨p, hstep, -, hremaining⟩ := hinv'.checkinWaitStep_taken hlook hN hn'
      refine .inr ⟨⟨{ s' with wait := Function.update s'.wait w p }, ?_⟩, ?_⟩
      · unfold CheckinStep
        rw [nextCheckin, hlook, hstep]
        rfl
      · have hbound : (WaitOnPc.look n i g).remaining ≤ n - i + 1 + (n + 1) := by
          cases g with
          | true => exact Nat.le_add_right _ _
          | false => exact le_rfl
        rw [hw, hlook] at hsteps
        omega

/-- A call waits for the two others, which compete for the first slot. -/
private def twoPresences : List (CheckinAction (Fin 2) (Fin 1)) :=
  [.waitOn 0 true 0, .wait 0, .markPresence 0, .markPresence 1, .mark 1, .mark 0, .wait 0, .mark 0, .wait 0, .wait 0,
    .wait 0, .wait 0]

theorem checkinQueue_prefix_returns_two :
    ∃ h : (Run.exec nextCheckin (checkinStart (Fin 2) (Fin 1) 2) twoPresences).isSome,
      ((Run.exec nextCheckin (checkinStart (Fin 2) (Fin 1) 2) twoPresences).get h).2.wait 0 = .returned 2 ∧
      Always CheckinState.Prefix ((Run.exec nextCheckin (checkinStart (Fin 2) (Fin 1) 2) twoPresences).get h).1
        ((Run.exec nextCheckin (checkinStart (Fin 2) (Fin 1) 2) twoPresences).get h).2 ∧
      ((Run.exec nextCheckin (checkinStart (Fin 2) (Fin 1) 2) twoPresences).get h).2.Returns 2 :=
  ⟨by decide, by decide, checkinQueue_prefix_returns 2 (by decide) (Run.exec_get (by decide))⟩

end HAL9000
