import HAL9000.CommonLib.Base
import HAL9000.Lib.Run
import HAL9000.Lib.Threads

/-! The reader/writer spinlock of `rw_spinlock.c`. Every interlocked operation and every
`ASSERT` is a step of its own, and any number of participants take steps in any order. -/
namespace HAL9000.Sync

structure RwSpinlock where
  waitingWriters : WORD
  activeWriter : WORD
  activeReaders : WORD
  deriving DecidableEq, Repr

def rwSpinlockInit : RwSpinlock := ⟨0, 0, 0⟩

/-- The double word at the address of `ActiveWriter`, which ends with `ActiveReaders`. -/
def RwSpinlock.activeWriterDword (l : RwSpinlock) : DWORD := l.activeReaders ++ l.activeWriter

def RwSpinlock.setActiveWriterDword (l : RwSpinlock) (v : DWORD) : RwSpinlock :=
  { l with activeWriter := v.extractLsb' 0 16, activeReaders := v.extractLsb' 16 16 }

/-- The double word at the address of `WaitingWriters`, which ends with `ActiveWriter`. -/
def RwSpinlock.waitingWritersDword (l : RwSpinlock) : DWORD := l.activeWriter ++ l.waitingWriters

def RwSpinlock.setWaitingWritersDword (l : RwSpinlock) (v : DWORD) : RwSpinlock :=
  { l with waitingWriters := v.extractLsb' 0 16, activeWriter := v.extractLsb' 16 16 }

/-- `MAX_WORD + 1`. -/
def pseudoActiveWriter : DWORD := 0x10000

/-- Where a participant stands: the operation it makes next, or the critical section it is in. -/
inductive RwPc
  | idle
  | incrementWaiting
  | exchangeExclusive
  | decrementWaiting
  | writing
  | assertWriter
  | releaseWriter
  | exchangeShared
  | incrementReaders
  | assertPseudoWriter
  | confess
  | reading
  | releaseReader
  deriving DecidableEq, Repr

/-- One step of `RwSpinlockAcquire` or `RwSpinlockRelease`. A compare-exchange that fails is
tried again; an `ASSERT` that fails halts the system and its step is not taken. -/
def rwStep (l : RwSpinlock) : RwPc → Option (RwSpinlock × RwPc)
  | .idle | .writing | .reading => none
  | .incrementWaiting =>
    some ({ l with waitingWriters := l.waitingWriters + 1 }, .exchangeExclusive)
  | .exchangeExclusive =>
    if l.activeWriterDword = 0 then some (l.setActiveWriterDword 1, .decrementWaiting)
    else some (l, .exchangeExclusive)
  | .decrementWaiting => some ({ l with waitingWriters := l.waitingWriters - 1 }, .writing)
  | .assertWriter => if l.activeWriter = 1 then some (l, .releaseWriter) else none
  | .releaseWriter => some ({ l with activeWriter := l.activeWriter - 1 }, .idle)
  | .exchangeShared =>
    if l.waitingWritersDword = 0 then
      some (l.setWaitingWritersDword pseudoActiveWriter, .incrementReaders)
    else some (l, .exchangeShared)
  | .incrementReaders =>
    some ({ l with activeReaders := l.activeReaders + 1 }, .assertPseudoWriter)
  | .assertPseudoWriter => if l.activeWriter = 1 then some (l, .confess) else none
  | .confess => some ({ l with activeWriter := l.activeWriter - 1 }, .reading)
  | .releaseReader => some ({ l with activeReaders := l.activeReaders - 1 }, .idle)

/-- The first step of `RwSpinlockAcquire`. -/
def rwSpinlockAcquire (exclusive : Bool) : RwPc :=
  if exclusive then .incrementWaiting else .exchangeShared

/-- The first step of `RwSpinlockRelease`, called as the acquire was. -/
def rwSpinlockRelease : RwPc → Option RwPc
  | .writing => some .assertWriter
  | .reading => some .releaseReader
  | _ => none

structure RwState (n : ℕ) where
  lock : RwSpinlock
  pc : Fin n → RwPc

inductive RwAction (n : ℕ)
  | acquire (t : Fin n) (exclusive : Bool)
  | release (t : Fin n)
  | step (t : Fin n)
  deriving DecidableEq, Repr

variable {n : ℕ}

def nextRw (s : RwState n) : RwAction n → Option (RwState n)
  | .acquire t exclusive =>
    if s.pc t = .idle then
      some { s with pc := Function.update s.pc t (rwSpinlockAcquire exclusive) }
    else none
  | .release t =>
    (rwSpinlockRelease (s.pc t)).map fun p => { s with pc := Function.update s.pc t p }
  | .step t => (rwStep s.lock (s.pc t)).map fun (l, p) => ⟨l, Function.update s.pc t p⟩

def rwStart (n : ℕ) : RwState n := ⟨rwSpinlockInit, fun _ => .idle⟩

/-- The operation a participant makes next wraps the counter it changes. -/
def RwPc.Wraps (l : RwSpinlock) : RwPc → Prop
  | .incrementWaiting => l.waitingWriters = 0xFFFF
  | .decrementWaiting => l.waitingWriters = 0
  | .incrementReaders => l.activeReaders = 0xFFFF
  | .confess | .releaseWriter => l.activeWriter = 0
  | .releaseReader => l.activeReaders = 0
  | _ => False

/-- What the lock is for, and that its counters neither wrap nor drift. -/
structure RwSafe (s : RwState n) : Prop where
  exclusive : ∀ t u, t ≠ u → s.pc t = .writing → s.pc u ≠ .writing ∧ s.pc u ≠ .reading
  asserts : ∀ t, s.pc t = .assertWriter ∨ s.pc t = .assertPseudoWriter → s.lock.activeWriter = 1
  no_wrap : ∀ t, ¬ (s.pc t).Wraps s.lock
  unused : (∀ t, s.pc t = .idle) → s.lock = rwSpinlockInit

def RwPc.waits : RwPc → Bool
  | .exchangeExclusive | .decrementWaiting => true
  | _ => false

/-- A writer that owns the lock. -/
def RwPc.owns : RwPc → Bool
  | .decrementWaiting | .writing | .assertWriter | .releaseWriter => true
  | _ => false

/-- A writer that owns the lock, or a reader that still passes for one. -/
def RwPc.activeWriter : RwPc → Bool
  | .incrementReaders | .assertPseudoWriter | .confess => true
  | p => p.owns

def RwPc.activeReader : RwPc → Bool
  | .assertPseudoWriter | .confess | .reading | .releaseReader => true
  | _ => false

/-- Each counter counts the participants at its places; writers own the lock alone. -/
structure RwInv (s : RwState n) : Prop where
  waiting : s.lock.waitingWriters.toNat = Threads.population RwPc.waits s.pc
  writer : s.lock.activeWriter.toNat = Threads.population RwPc.activeWriter s.pc
  readers : s.lock.activeReaders.toNat = Threads.population RwPc.activeReader s.pc
  one_writer : Threads.population RwPc.activeWriter s.pc ≤ 1
  alone : Threads.population RwPc.owns s.pc = 0 ∨ Threads.population RwPc.activeReader s.pc = 0

theorem rwStart_inv : RwInv (rwStart n) := by
  have hz : ∀ q : RwPc → Bool, q .idle = false → Threads.population q (rwStart n).pc = 0 := by
    intro q hq
    exact Threads.population_eq_zero.mpr fun _ => hq
  have hw := hz RwPc.waits rfl
  have ha := hz RwPc.activeWriter rfl
  have hr := hz RwPc.activeReader rfl
  have ho := hz RwPc.owns rfl
  exact ⟨hw.symm, ha.symm, hr.symm, by omega, Or.inl ho⟩

/-- A double word is 0 exactly if both of its words are. -/
private theorem append_eq_zero {x y : WORD} : (x ++ y : DWORD) = 0 ↔ x = 0 ∧ y = 0 := by
  constructor
  · intro h
    have hx := congrArg (BitVec.extractLsb' 16 16) h
    have hy := congrArg (BitVec.extractLsb' 0 16) h
    rw [BitVec.extractLsb'_append_eq_left] at hx
    rw [BitVec.extractLsb'_append_eq_right] at hy
    exact ⟨hx, hy⟩
  · intro h
    rw [h.1, h.2]
    rfl

theorem setActiveWriterDword_one (l : RwSpinlock) :
    l.setActiveWriterDword 1 = { l with activeWriter := 1, activeReaders := 0 } := rfl

theorem setWaitingWritersDword_pseudoActiveWriter (l : RwSpinlock) :
    l.setWaitingWritersDword pseudoActiveWriter =
      { l with waitingWriters := 0, activeWriter := 1 } := by
  have h₁ : pseudoActiveWriter.extractLsb' 0 16 = 0 := by decide
  have h₂ : pseudoActiveWriter.extractLsb' 16 16 = 1 := by decide
  simp only [RwSpinlock.setWaitingWritersDword, h₁, h₂]

section Moves

variable {s : RwState n}

/-- A participant moves and the counters change by what its places say. A move makes a writer
the owner, or a reader active, only while there is none of the other kind. -/
theorem RwInv.move (hi : RwInv s) (t : Fin n) (p : RwPc) (l : RwSpinlock)
    (hw : l.waitingWriters.toNat + (s.pc t).waits.toNat =
      s.lock.waitingWriters.toNat + p.waits.toNat)
    (ha : l.activeWriter.toNat + (s.pc t).activeWriter.toNat =
      s.lock.activeWriter.toNat + p.activeWriter.toNat)
    (hr : l.activeReaders.toNat + (s.pc t).activeReader.toNat =
      s.lock.activeReaders.toNat + p.activeReader.toNat)
    (hone : l.activeWriter.toNat ≤ 1)
    (howns : p.owns.toNat ≤ (s.pc t).owns.toNat ∨ l.activeReaders.toNat = 0)
    (hreads : p.activeReader.toNat ≤ (s.pc t).activeReader.toNat ∨
      Threads.population RwPc.owns s.pc + p.owns.toNat = 0) :
    RwInv ⟨l, Function.update s.pc t p⟩ := by
  have h₁ := Threads.population_update RwPc.waits s.pc t p
  have h₂ := Threads.population_update RwPc.activeWriter s.pc t p
  have h₃ := Threads.population_update RwPc.activeReader s.pc t p
  have h₄ := Threads.population_update RwPc.owns s.pc t p
  obtain ⟨hiw, hia, hir, -, hial⟩ := hi
  constructor <;> simp only <;> lia

/-- The counters stay in range: a participant that is not counted leaves room for itself. -/
theorem RwInv.room (hi : RwInv s) (hn : n < 65536) {t : Fin n} :
    ((s.pc t).waits = false → s.lock.waitingWriters.toNat < 65535) ∧
      ((s.pc t).activeReader = false → s.lock.activeReaders.toNat < 65535) := by
  have hroom : ∀ (q : RwPc → Bool) (p : RwPc), q (s.pc t) = false → q p = true →
      Threads.population q s.pc < n := by
    intro q p hq hp
    have hu := Threads.population_update q s.pc t p
    have hle := Threads.population_le q (Function.update s.pc t p)
    simp only [hq, hp, Fintype.card_fin, Bool.toNat_false, Bool.toNat_true] at hu hle
    omega
  constructor
  · intro hq
    have := hroom RwPc.waits .exchangeExclusive hq rfl
    have := hi.waiting
    omega
  · intro hq
    have := hroom RwPc.activeReader .reading hq rfl
    have := hi.readers
    omega

theorem RwInv.counted (hi : RwInv s) (t : Fin n) :
    ((s.pc t).waits = true → 0 < s.lock.waitingWriters.toNat) ∧
      ((s.pc t).activeWriter = true → s.lock.activeWriter.toNat = 1) ∧
      ((s.pc t).activeReader = true → 0 < s.lock.activeReaders.toNat) := by
  refine ⟨fun h => ?_, fun h => ?_, fun h => ?_⟩
  · rw [hi.waiting]
    exact Threads.population_pos h
  · have hpos := Threads.population_pos h
    have hone := hi.one_writer
    rw [hi.writer]
    omega
  · rw [hi.readers]
    exact Threads.population_pos h

theorem RwPc.activeWriter_of_owns {p : RwPc} (h : p.owns = true) : p.activeWriter = true := by
  cases p <;> first | exact h | rfl

/-- A reader that passes for a writer is the only one that does: no writer owns the lock. -/
theorem RwInv.no_owner (hi : RwInv s) {t : Fin n} (ha : (s.pc t).activeWriter = true)
    (ho : (s.pc t).owns = false) : Threads.population RwPc.owns s.pc = 0 := by
  apply Threads.population_eq_zero.mpr
  intro u
  cases hu : (s.pc u).owns with
  | false => rfl
  | true =>
    have htu : t ≠ u := by
      intro htu
      rw [htu, hu] at ho
      cases ho
    have hlt := Threads.one_lt_population htu ha (RwPc.activeWriter_of_owns hu)
    have hle := hi.one_writer
    omega

/-- A step of `RwSpinlockAcquire` or `RwSpinlockRelease` keeps the invariant. -/
theorem RwInv.step (hi : RwInv s) (hn : n < 65536) {t : Fin n} {l : RwSpinlock} {p : RwPc}
    (h : rwStep s.lock (s.pc t) = some (l, p)) : RwInv ⟨l, Function.update s.pc t p⟩ := by
  obtain ⟨hcw, hca, hcr⟩ := hi.counted t
  obtain ⟨hrw, hrr⟩ := hi.room hn (t := t)
  have hone : s.lock.activeWriter.toNat ≤ 1 := hi.writer ▸ hi.one_writer
  cases hp : s.pc t <;> rw [hp] at h hcw hca hcr hrw hrr <;> simp only [rwStep] at h
  case idle | writing | reading => cases h
  case incrementWaiting =>
    cases h
    have hroom := toNat_add_one (Nat.succ_lt_succ (hrw rfl))
    apply hi.move <;> simp only [hp, RwPc.waits, RwPc.activeWriter, RwPc.activeReader,
      RwPc.owns, Bool.toNat_true, Bool.toNat_false] <;> omega
  case exchangeExclusive =>
    split_ifs at h with hz
    · cases h
      obtain ⟨hreaders, hwriter⟩ := append_eq_zero.mp hz
      rw [setActiveWriterDword_one]
      apply hi.move <;> simp [hp, RwPc.waits, RwPc.activeWriter, RwPc.activeReader,
        RwPc.owns, hreaders, hwriter]
    · cases h
      apply hi.move <;> simp [hp, hone]
  case decrementWaiting =>
    cases h
    have hpos := toNat_sub_one (hcw rfl)
    apply hi.move <;> simp only [hp, RwPc.waits, RwPc.activeWriter, RwPc.activeReader,
      RwPc.owns, Bool.toNat_true, Bool.toNat_false] <;> omega
  case assertWriter =>
    split_ifs at h
    cases h
    apply hi.move <;> simp [hp, hone, RwPc.waits, RwPc.activeWriter, RwPc.activeReader, RwPc.owns]
  case releaseWriter =>
    cases h
    have hpos := toNat_sub_one (hca rfl ▸ Nat.one_pos)
    apply hi.move <;> simp only [hp, RwPc.waits, RwPc.activeWriter, RwPc.activeReader,
      RwPc.owns, Bool.toNat_true, Bool.toNat_false] <;> omega
  case exchangeShared =>
    split_ifs at h with hz
    · cases h
      obtain ⟨hwriter, hwaiting⟩ := append_eq_zero.mp hz
      rw [setWaitingWritersDword_pseudoActiveWriter]
      apply hi.move <;> simp [hp, RwPc.waits, RwPc.activeWriter, RwPc.activeReader,
        RwPc.owns, hwriter, hwaiting]
    · cases h
      apply hi.move <;> simp [hp, hone]
  case incrementReaders =>
    cases h
    have hroom := toNat_add_one (Nat.succ_lt_succ (hrr rfl))
    have hnone := hi.no_owner (t := t) (by rw [hp]; rfl) (by rw [hp]; rfl)
    apply hi.move <;> simp only [hp, RwPc.waits, RwPc.activeWriter, RwPc.activeReader,
      RwPc.owns, Bool.toNat_true, Bool.toNat_false] <;> omega
  case assertPseudoWriter =>
    split_ifs at h
    cases h
    apply hi.move <;> simp [hp, hone, RwPc.waits, RwPc.activeWriter, RwPc.activeReader, RwPc.owns]
  case confess =>
    cases h
    have hpos := toNat_sub_one (hca rfl ▸ Nat.one_pos)
    apply hi.move <;> simp only [hp, RwPc.waits, RwPc.activeWriter, RwPc.activeReader,
      RwPc.owns, Bool.toNat_true, Bool.toNat_false] <;> omega
  case releaseReader =>
    cases h
    have hpos := toNat_sub_one (hcr rfl)
    apply hi.move <;> simp only [hp, RwPc.waits, RwPc.activeWriter, RwPc.activeReader,
      RwPc.owns, Bool.toNat_true, Bool.toNat_false] <;> omega

/-- Calling `RwSpinlockAcquire` or `RwSpinlockRelease` changes no counter. -/
theorem RwInv.call (hi : RwInv s) {t : Fin n} {p : RwPc} (hw : p.waits = (s.pc t).waits)
    (ha : p.activeWriter = (s.pc t).activeWriter) (hr : p.activeReader = (s.pc t).activeReader)
    (ho : p.owns = (s.pc t).owns) : RwInv { s with pc := Function.update s.pc t p } := by
  have hone : s.lock.activeWriter.toNat ≤ 1 := hi.writer ▸ hi.one_writer
  apply hi.move <;> simp [hw, ha, hr, ho, hone]

theorem nextRw_inv (hi : RwInv s) (hn : n < 65536) {a : RwAction n} {s' : RwState n}
    (h : nextRw s a = some s') : RwInv s' := by
  cases a with
  | acquire t exclusive =>
    simp only [nextRw] at h
    split_ifs at h with hidle
    cases h
    cases exclusive <;> apply hi.call <;> rw [hidle] <;> rfl
  | release t =>
    simp only [nextRw, Option.map_eq_some_iff] at h
    obtain ⟨p, hp, rfl⟩ := h
    cases hpc : s.pc t <;> rw [hpc] at hp <;> cases hp <;> apply hi.call <;> rw [hpc] <;> rfl
  | step t =>
    simp only [nextRw, Option.map_eq_some_iff] at h
    obtain ⟨⟨l, p⟩, hp, rfl⟩ := h
    exact hi.step hn hp

theorem RwInv.safe (hi : RwInv s) (hn : n < 65536) : RwSafe s where
  exclusive := by
    intro t u htu ht
    have howns : (s.pc t).owns = true := by
      rw [ht]
      rfl
    constructor
    · intro hu
      have hlt := Threads.one_lt_population htu (RwPc.activeWriter_of_owns howns)
        (RwPc.activeWriter_of_owns (p := s.pc u) (by rw [hu]; rfl))
      have hle := hi.one_writer
      omega
    · intro hu
      have hpos := Threads.population_pos howns
      have hactive : (s.pc u).activeReader = true := by
        rw [hu]
        rfl
      have hreads := Threads.population_pos hactive
      have halone := hi.alone
      omega
  asserts := by
    intro t ht
    apply BitVec.eq_of_toNat_eq
    apply (hi.counted t).2.1
    rcases ht with ht | ht <;> rw [ht] <;> rfl
  no_wrap := by
    intro t hw
    obtain ⟨hcw, hca, hcr⟩ := hi.counted t
    obtain ⟨hrw, hrr⟩ := hi.room hn (t := t)
    cases hp : s.pc t <;> rw [hp] at hw hcw hca hcr hrw hrr <;> simp only [RwPc.Wraps] at hw
    case incrementWaiting =>
      have := hrw rfl
      simp [hw] at this
    case incrementReaders =>
      have := hrr rfl
      simp [hw] at this
    case decrementWaiting =>
      have := hcw rfl
      simp [hw] at this
    case releaseReader =>
      have := hcr rfl
      simp [hw] at this
    case confess | releaseWriter =>
      have := hca rfl
      simp [hw] at this
  unused := by
    intro hidle
    have hz : ∀ q : RwPc → Bool, q .idle = false → Threads.population q s.pc = 0 := by
      intro q hq
      apply Threads.population_eq_zero.mpr
      intro t
      rw [hidle t, hq]
    have hw := hi.waiting.trans (hz RwPc.waits rfl)
    have ha := hi.writer.trans (hz RwPc.activeWriter rfl)
    have hr := hi.readers.trans (hz RwPc.activeReader rfl)
    have hlock : ∀ l : RwSpinlock, l.waitingWriters.toNat = 0 → l.activeWriter.toNat = 0 →
        l.activeReaders.toNat = 0 → l = rwSpinlockInit := by
      intro l hw ha hr
      obtain ⟨w, a, r⟩ := l
      obtain rfl : w = 0 := BitVec.eq_of_toNat_eq hw
      obtain rfl : a = 0 := BitVec.eq_of_toNat_eq ha
      obtain rfl : r = 0 := BitVec.eq_of_toNat_eq hr
      rfl
    exact hlock s.lock hw ha hr

end Moves

/-- In every state of every run of fewer than 65536 participants, writers exclude everybody
else, no `ASSERT` fails, no counter wraps, and an unused lock has all counters 0. -/
theorem rwSpinlock_safe (hn : n < 65536) {tr : List (RwState n × RwAction n)} {s : RwState n}
    (h : Run.Exec (fun s a s' => nextRw s a = some s') (rwStart n) tr s) :
    Run.Always RwSafe tr s := by
  have hinv := h.always rwStart_inv fun s a s' hi hs => nextRw_inv hi hn hs
  exact hinv.mono fun s hi => hi.safe hn

/-- A writer takes the lock, a reader that arrives spins, gets in after the writer has left and
leaves in turn. -/
def writerThenReader : List (RwAction 2) :=
  [.acquire 0 true, .step 0, .step 0, .acquire 1 false, .step 1, .step 0, .release 0, .step 0,
    .step 0, .step 1, .step 1, .step 1, .step 1, .release 1, .step 1]

theorem rwSpinlock_safe_writerThenReader :
    ∃ h : (Run.exec nextRw (rwStart 2) writerThenReader).isSome,
      ((Run.exec nextRw (rwStart 2) writerThenReader).get h).2.lock = rwSpinlockInit ∧
      Run.Always RwSafe ((Run.exec nextRw (rwStart 2) writerThenReader).get h).1
        ((Run.exec nextRw (rwStart 2) writerThenReader).get h).2 :=
  ⟨by decide, by decide, rwSpinlock_safe (by decide) (Run.exec_get (by decide))⟩

end HAL9000.Sync
