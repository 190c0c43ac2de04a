import HAL9000.CommonLib.Base
import HAL9000.Lib.Run
import Mathlib.Data.Finset.Basic

/-! The recursive reader/writer spinlock of `rec_rw_spinlock.c`. Every access to its fields is a step of
its own. The reader/writer spinlock below it excludes writers from all others, and no more is assumed of
it. -/
namespace HAL9000.Sync

open Run

/-- `Holder` is `none` for `NULL`. -/
structure RecRwSpinlock (Cpu : Type) where
  currentRecursivityDepth : BYTE
  maxRecursivityDepth : BYTE
  holder : Option Cpu

def rwDefaultRecursivityDepthMax : BYTE := 2

def recRwSpinlockInit (Cpu : Type) (recursivityDepth : BYTE) : RecRwSpinlock Cpu :=
  ⟨0, if recursivityDepth = 0 then rwDefaultRecursivityDepthMax else recursivityDepth, none⟩

/-- Who is inside the reader/writer spinlock. -/
structure RwOwners (Cpu : Type) where
  writer : Option Cpu
  readers : Finset Cpu

/-- Where a CPU stands: the access it makes next, or the critical section it is in. `nested` tells an
acquire by the CPU that holds the lock from its first one. -/
inductive RecPc
  | idle
  | disableInterrupts (exclusive nested : Bool)
  | testHolder (nested : Bool)
  | assertDepth
  | loadDepth
  | storeDepth (depth : BYTE)
  | rwAcquire (exclusive : Bool)
  | assertNoHolder (exclusive : Bool)
  | assertNoDepth (exclusive : Bool)
  | setDepth
  | setHolder
  | writing
  | reading
  | assertInterrupts (exclusive : Bool)
  | assertHolder
  | loadDecrement
  | storeDecrement (depth : BYTE)
  | testDepth (exclusive : Bool)
  | clearHolder (exclusive : Bool)
  | rwRelease (exclusive : Bool)
  deriving DecidableEq, Repr

/-- The lock, the CPUs with their interrupt flags, the interrupt states that acquires have returned and
that are not given back yet, the one a release is called with, and how often each CPU has acquired and
released the lock exclusively. -/
structure RecState (Cpu : Type) where
  lock : RecRwSpinlock Cpu
  rw : RwOwners Cpu
  pc : Cpu → RecPc
  interrupts : Cpu → Bool
  saved : Cpu → List Bool
  intrState : Cpu → Bool
  acquires : Cpu → ℕ
  releases : Cpu → ℕ

variable {Cpu : Type} [DecidableEq Cpu]

namespace RecState

def goto (s : RecState Cpu) (c : Cpu) (p : RecPc) : RecState Cpu :=
  { s with pc := Function.update s.pc c p }

def setDepth (s : RecState Cpu) (depth : BYTE) : RecState Cpu :=
  { s with lock := { s.lock with currentRecursivityDepth := depth } }

def setHolder (s : RecState Cpu) (holder : Option Cpu) : RecState Cpu :=
  { s with lock := { s.lock with holder := holder } }

def setInterrupts (s : RecState Cpu) (c : Cpu) (enabled : Bool) : RecState Cpu :=
  { s with interrupts := Function.update s.interrupts c enabled }

def countAcquire (s : RecState Cpu) (c : Cpu) : RecState Cpu :=
  { s with acquires := Function.update s.acquires c (s.acquires c + 1) }

def countRelease (s : RecState Cpu) (c : Cpu) : RecState Cpu :=
  { s with releases := Function.update s.releases c (s.releases c + 1) }

end RecState

/-- `RwSpinlockAcquire` returns, once nobody is inside that it must wait for. -/
def RwOwners.acquire (rw : RwOwners Cpu) (c : Cpu) (exclusive : Bool) : Option (RwOwners Cpu) :=
  if exclusive then
    if rw.writer = none ∧ rw.readers = ∅ then some { rw with writer := some c } else none
  else if rw.writer = none then some { rw with readers := insert c rw.readers } else none

def RwOwners.release (rw : RwOwners Cpu) (c : Cpu) (exclusive : Bool) : RwOwners Cpu :=
  if exclusive then { rw with writer := none } else { rw with readers := rw.readers.erase c }

/-- One step of `RecRwSpinlockAcquire` or `RecRwSpinlockRelease`. An `ASSERT` that fails halts the
system and its step is not taken. -/
def recStep (s : RecState Cpu) (c : Cpu) : Option (RecState Cpu) :=
  match s.pc c with
  | .idle | .writing | .reading => none
  | .disableInterrupts exclusive nested =>
    some ({ s.setInterrupts c false with
        saved := Function.update s.saved c (s.interrupts c :: s.saved c) }.goto c
      (if exclusive then .testHolder nested else .rwAcquire false))
  | .testHolder _ =>
    some (s.goto c (if s.lock.holder = some c then .assertDepth else .rwAcquire true))
  | .assertDepth =>
    if s.lock.currentRecursivityDepth < s.lock.maxRecursivityDepth then some (s.goto c .loadDepth)
    else none
  | .loadDepth => some (s.goto c (.storeDepth (s.lock.currentRecursivityDepth + 1)))
  | .storeDepth depth => some (((s.setDepth depth).countAcquire c).goto c .writing)
  | .rwAcquire exclusive =>
    (s.rw.acquire c exclusive).map fun rw => { s with rw := rw }.goto c (.assertNoHolder exclusive)
  | .assertNoHolder exclusive =>
    if s.lock.holder = none then some (s.goto c (.assertNoDepth exclusive)) else none
  | .assertNoDepth exclusive =>
    if s.lock.currentRecursivityDepth = 0 then
      some (s.goto c (if exclusive then .setDepth else .reading))
    else none
  | .setDepth => some (((s.setDepth 1).countAcquire c).goto c .setHolder)
  | .setHolder => some ((s.setHolder (some c)).goto c .writing)
  | .assertInterrupts exclusive =>
    if s.interrupts c = false then
      some (s.goto c (if exclusive then .assertHolder else .testDepth false))
    else none
  | .assertHolder =>
    if s.lock.holder = some c then some (s.goto c .loadDecrement) else none
  | .loadDecrement => some (s.goto c (.storeDecrement (s.lock.currentRecursivityDepth - 1)))
  | .storeDecrement depth => some (((s.setDepth depth).countRelease c).goto c (.testDepth true))
  | .testDepth exclusive =>
    some (s.goto c (if s.lock.currentRecursivityDepth = 0 ∨ exclusive = false then
      .clearHolder exclusive else .writing))
  | .clearHolder exclusive => some ((s.setHolder none).goto c (.rwRelease exclusive))
  | .rwRelease exclusive =>
    some (({ s with rw := s.rw.release c exclusive }.setInterrupts c (s.intrState c)).goto c .idle)

inductive RecAction (Cpu : Type)
  | acquire (c : Cpu) (exclusive : Bool)
  | release (c : Cpu) (intrState : Bool)
  | step (c : Cpu)
  | setInterrupts (c : Cpu) (enabled : Bool)

/-- A CPU acquires the lock exclusively again only up to the depth of the lock, and shared only when it
does not hold it. A release gives back an interrupt state that an acquire returned. -/
def nextRec (s : RecState Cpu) : RecAction Cpu → Option (RecState Cpu)
  | .acquire c exclusive =>
    match s.pc c with
    | .idle => some (s.goto c (.disableInterrupts exclusive false))
    | .writing =>
      if exclusive = true ∧ s.acquires c < s.releases c + s.lock.maxRecursivityDepth.toNat then
        some (s.goto c (.disableInterrupts true true))
      else none
    | _ => none
  | .release c intrState =>
    if intrState ∈ s.saved c then
      let s' := { s with
        saved := Function.update s.saved c ((s.saved c).erase intrState)
        intrState := Function.update s.intrState c intrState }
      match s.pc c with
      | .writing => some (s'.goto c (.assertInterrupts true))
      | .reading => some (s'.goto c (.assertInterrupts false))
      | _ => none
    else none
  | .step c => recStep s c
  | .setInterrupts c enabled => if s.pc c = .idle then some (s.setInterrupts c enabled) else none

def recStart (Cpu : Type) (recursivityDepth : BYTE) : RecState Cpu where
  lock := recRwSpinlockInit Cpu recursivityDepth
  rw := ⟨none, ∅⟩
  pc := fun _ => .idle
  interrupts := fun _ => true
  saved := fun _ => []
  intrState := fun _ => true
  acquires := fun _ => 0
  releases := fun _ => 0

/-- The next access of the CPU is an `ASSERT` that fails. -/
def RecState.AssertFails (s : RecState Cpu) (c : Cpu) : Prop :=
  match s.pc c with
  | .assertDepth => ¬s.lock.currentRecursivityDepth < s.lock.maxRecursivityDepth
  | .assertNoHolder _ => s.lock.holder ≠ none
  | .assertNoDepth _ => s.lock.currentRecursivityDepth ≠ 0
  | .assertInterrupts _ => s.interrupts c ≠ false
  | .assertHolder => s.lock.holder ≠ some c
  | _ => False

/-- A writer on its way in or out, which has not set the depth yet or has counted it down. -/
def RecPc.passes : RecPc → Bool
  | .setDepth => true
  | .assertNoHolder exclusive | .assertNoDepth exclusive | .testDepth exclusive
  | .clearHolder exclusive | .rwRelease exclusive => exclusive
  | _ => false

/-- What ties the owner, the depth and the reader/writer spinlock together. -/
structure RecSafe (s : RecState Cpu) : Prop where
  exclusive : s.rw.writer ≠ none → s.rw.readers = ∅
  holder : ∀ c, s.lock.holder = some c → s.rw.writer = some c
  inside : ∀ c, s.pc c = .writing → s.rw.writer = some c ∧ s.lock.holder = some c
  depth : ∀ c, s.rw.writer = some c →
    s.acquires c = s.releases c + s.lock.currentRecursivityDepth.toNat
  balanced : ∀ c, s.rw.writer ≠ some c → s.acquires c = s.releases c
  released : ∀ c, s.pc c = .rwRelease true → s.lock.currentRecursivityDepth = 0
  held : ∀ c, s.pc c = .writing → s.lock.currentRecursivityDepth ≠ 0
  passes : ∀ c, s.rw.writer = some c → s.lock.currentRecursivityDepth = 0 →
    (s.pc c).passes = true
  asserts : ∀ c, ¬s.AssertFails c

namespace RecPc

/-- A writer that is inside the reader/writer spinlock. -/
def writes : RecPc → Bool
  | .disableInterrupts _ nested | .testHolder nested => nested
  | .assertDepth | .loadDepth | .storeDepth _ | .setDepth | .setHolder | .writing | .assertHolder
  | .loadDecrement | .storeDecrement _ => true
  | .assertNoHolder exclusive | .assertNoDepth exclusive | .assertInterrupts exclusive
  | .testDepth exclusive | .clearHolder exclusive | .rwRelease exclusive => exclusive
  | .idle | .rwAcquire _ | .reading => false

def reads : RecPc → Bool
  | .reading => true
  | .assertNoHolder exclusive | .assertNoDepth exclusive | .assertInterrupts exclusive
  | .testDepth exclusive | .clearHolder exclusive | .rwRelease exclusive => !exclusive
  | _ => false

/-- A writer that `Holder` names. -/
def holds : RecPc → Bool
  | .assertNoHolder _ | .assertNoDepth _ | .setDepth | .setHolder | .rwRelease _ => false
  | p => p.writes

def masked : RecPc → Bool
  | .idle => false
  | .disableInterrupts _ nested => nested
  | _ => true

/-- What a place says about the depth, which only the writer changes. -/
def DepthOk (max depth : BYTE) : RecPc → Prop
  | .disableInterrupts exclusive nested =>
    nested = true → exclusive = true ∧ 0 < depth.toNat ∧ depth.toNat < max.toNat
  | .testHolder nested => nested = true → 0 < depth.toNat ∧ depth.toNat < max.toNat
  | .assertDepth | .loadDepth => 0 < depth.toNat ∧ depth.toNat < max.toNat
  | .storeDepth new => new = depth + 1 ∧ 0 < depth.toNat ∧ depth.toNat < max.toNat
  | .assertNoHolder exclusive | .assertNoDepth exclusive => exclusive = true → depth = 0
  | .setDepth => depth = 0
  | .setHolder => depth = 1
  | .writing | .assertHolder | .loadDecrement => 0 < depth.toNat ∧ depth.toNat ≤ max.toNat
  | .storeDecrement new => new = depth - 1 ∧ 0 < depth.toNat ∧ depth.toNat ≤ max.toNat
  | .assertInterrupts exclusive => exclusive = true → 0 < depth.toNat ∧ depth.toNat ≤ max.toNat
  | .testDepth exclusive => exclusive = true → depth.toNat ≤ max.toNat
  | .clearHolder exclusive | .rwRelease exclusive => exclusive = true → depth = 0
  | .idle | .rwAcquire _ | .reading => True

theorem depthOk_of_not_writes {max depth depth' : BYTE} {p : RecPc} (hp : p.writes = false)
    (h : p.DepthOk max depth) : p.DepthOk max depth' := by
  cases p <;> simp_all [writes, DepthOk]

theorem writes_of_holds {p : RecPc} (h : p.holds = true) : p.writes = true := by
  cases p <;> simp_all [holds, writes]

theorem not_reads_of_writes {p : RecPc} (h : p.writes = true) : p.reads = false := by
  cases p <;> simp_all [reads, writes]

end RecPc

structure RecInv (s : RecState Cpu) : Prop where
  max_pos : 0 < s.lock.maxRecursivityDepth.toNat
  exclusive : s.rw.writer ≠ none → s.rw.readers = ∅
  writer : ∀ c, s.rw.writer = some c ↔ (s.pc c).writes = true
  reader : ∀ c, c ∈ s.rw.readers ↔ (s.pc c).reads = true
  holder : ∀ c, s.lock.holder = some c ↔ (s.pc c).holds = true
  depthOk : ∀ c, (s.pc c).DepthOk s.lock.maxRecursivityDepth s.lock.currentRecursivityDepth
  unowned : s.rw.writer = none → s.lock.currentRecursivityDepth = 0
  depth : ∀ c, s.rw.writer = some c →
    s.acquires c = s.releases c + s.lock.currentRecursivityDepth.toNat
  balanced : ∀ c, s.rw.writer ≠ some c → s.acquires c = s.releases c
  masked : ∀ c, (s.pc c).masked = true → s.interrupts c = false

omit [DecidableEq Cpu] in
theorem recStart_inv (recursivityDepth : BYTE) : RecInv (recStart Cpu recursivityDepth) where
  max_pos := by
    show 0 < (if recursivityDepth = 0 then rwDefaultRecursivityDepthMax else recursivityDepth).toNat
    split_ifs with h
    · decide
    · exact Nat.pos_of_ne_zero fun hz => h (BitVec.eq_of_toNat_eq hz)
  exclusive _ := rfl
  writer c := by simp [recStart, RecPc.writes]
  reader c := by simp [recStart, RecPc.reads]
  holder c := by simp [recStart, recRwSpinlockInit, RecPc.holds, RecPc.writes]
  depthOk _ := trivial
  unowned _ := rfl
  depth c h := by cases h
  balanced _ _ := rfl
  masked c h := by cases h

section Steps

variable {s s' : RecState Cpu} {c : Cpu} {q : RecPc}

/-- Only `c` moves, and only the writer changes the depth. -/
theorem RecInv.of_self (hi : RecInv s) (hpc : s'.pc = Function.update s.pc c q)
    (hmax : s'.lock.maxRecursivityDepth = s.lock.maxRecursivityDepth)
    (hex : s'.rw.writer ≠ none → s'.rw.readers = ∅)
    (hw : s'.rw.writer = some c ↔ q.writes = true)
    (hwo : ∀ u ≠ c, s'.rw.writer = some u ↔ s.rw.writer = some u)
    (hr : c ∈ s'.rw.readers ↔ q.reads = true)
    (hro : ∀ u ≠ c, u ∈ s'.rw.readers ↔ u ∈ s.rw.readers)
    (hh : s'.lock.holder = some c ↔ q.holds = true)
    (hho : ∀ u ≠ c, s'.lock.holder = some u ↔ s.lock.holder = some u)
    (hd : q.DepthOk s'.lock.maxRecursivityDepth s'.lock.currentRecursivityDepth)
    (hdo : s'.lock.currentRecursivityDepth = s.lock.currentRecursivityDepth ∨ s.rw.writer = some c)
    (hun : s'.rw.writer = none → s'.lock.currentRecursivityDepth = 0)
    (hdc : s'.rw.writer = some c →
      s'.acquires c = s'.releases c + s'.lock.currentRecursivityDepth.toNat)
    (hbc : s'.rw.writer ≠ some c → s'.acquires c = s'.releases c)
    (hco : ∀ u ≠ c, s'.acquires u = s.acquires u ∧ s'.releases u = s.releases u)
    (hm : q.masked = true → s'.interrupts c = false)
    (hmo : ∀ u ≠ c, s'.interrupts u = s.interrupts u) : RecInv s' := by
  have hself : s'.pc c = q := by
    rw [hpc]
    exact Function.update_self ..
  have hother : ∀ u ≠ c, s'.pc u = s.pc u := by
    intro u hu
    rw [hpc]
    exact Function.update_of_ne hu ..
  have hsame : ∀ u ≠ c, s.rw.writer = some u →
      s'.lock.currentRecursivityDepth = s.lock.currentRecursivityDepth := by
    intro u hu hwu
    refine hdo.resolve_right fun hwc => hu ?_
    rw [hwc] at hwu
    exact (Option.some.inj hwu).symm
  refine ⟨hmax ▸ hi.max_pos, hex, fun u => ?_, fun u => ?_, fun u => ?_, fun u => ?_, hun,
    fun u hu => ?_, fun u hu => ?_, fun u hu => ?_⟩ <;> by_cases huc : u = c
  · rw [huc, hself]
    exact hw
  · rw [hother u huc, hwo u huc]
    exact hi.writer u
  · rw [huc, hself]
    exact hr
  · rw [hother u huc, hro u huc]
    exact hi.reader u
  · rw [huc, hself]
    exact hh
  · rw [hother u huc, hho u huc]
    exact hi.holder u
  · rw [huc, hself]
    exact hd
  · rw [hother u huc, hmax]
    cases hwu : (s.pc u).writes with
    | false => exact RecPc.depthOk_of_not_writes hwu (hi.depthOk u)
    | true =>
      rw [hsame u huc ((hi.writer u).mpr hwu)]
      exact hi.depthOk u
  · rw [huc]
    exact hdc (huc ▸ hu)
  · rw [hwo u huc] at hu
    rw [(hco u huc).1, (hco u huc).2, hsame u huc hu]
    exact hi.depth u hu
  · rw [huc]
    exact hbc (huc ▸ hu)
  · rw [Ne, hwo u huc] at hu
    rw [(hco u huc).1, (hco u huc).2]
    exact hi.balanced u hu
  · rw [huc] at hu ⊢
    rw [hself] at hu
    exact hm hu
  · rw [hother u huc] at hu
    rw [hmo u huc]
    exact hi.masked u hu

/-- A step that only moves `c`, to a place of the same kind. -/
theorem RecInv.goto (hi : RecInv s) (hw : q.writes = (s.pc c).writes) (hr : q.reads = (s.pc c).reads)
    (hh : q.holds = (s.pc c).holds)
    (hd : q.DepthOk s.lock.maxRecursivityDepth s.lock.currentRecursivityDepth)
    (hm : q.masked = true → s.interrupts c = false) : RecInv (s.goto c q) :=
  hi.of_self rfl rfl hi.exclusive (hw ▸ hi.writer c) (fun _ _ => Iff.rfl) (hr ▸ hi.reader c)
    (fun _ _ => Iff.rfl) (hh ▸ hi.holder c) (fun _ _ => Iff.rfl) hd (Or.inl rfl) hi.unowned
    (hi.depth c) (hi.balanced c) (fun _ _ => ⟨rfl, rfl⟩) hm fun _ _ => rfl

/-- The interrupt flag of a CPU that is at no place that needs it off. -/
theorem RecInv.setInterrupts (hi : RecInv s) {enabled : Bool}
    (hm : (s.pc c).masked = true → enabled = false) : RecInv (s.setInterrupts c enabled) := by
  refine hi.of_self (q := s.pc c) (Function.update_eq_self ..).symm rfl hi.exclusive (hi.writer c)
    (fun _ _ => Iff.rfl) (hi.reader c) (fun _ _ => Iff.rfl) (hi.holder c) (fun _ _ => Iff.rfl)
    (hi.depthOk c) (Or.inl rfl) hi.unowned (hi.depth c) (hi.balanced c) (fun _ _ => ⟨rfl, rfl⟩)
    (fun h => ?_) fun u hu => Function.update_of_ne hu ..
  rw [RecState.setInterrupts]
  exact (Function.update_self ..).trans (hm h)

omit [DecidableEq Cpu] in
/-- The interrupt states the callers keep play no part. -/
theorem RecInv.frame (hi : RecInv s) (hlock : s'.lock = s.lock) (hrw : s'.rw = s.rw)
    (hpc : s'.pc = s.pc) (hint : s'.interrupts = s.interrupts) (hacq : s'.acquires = s.acquires)
    (hrel : s'.releases = s.releases) : RecInv s' := by
  obtain ⟨lock, rw', pc, interrupts, saved, intrState, acquires, releases⟩ := s'
  subst hlock hrw hpc hint hacq hrel
  exact ⟨hi.max_pos, hi.exclusive, hi.writer, hi.reader, hi.holder, hi.depthOk, hi.unowned, hi.depth,
    hi.balanced, hi.masked⟩

/-- The writer stores a new depth. -/
theorem RecInv.setDepth (hi : RecInv s) {depth : BYTE} {acquires releases : Cpu → ℕ}
    (hc : s.rw.writer = some c)
    (hw : q.writes = true) (hr : q.reads = false) (hh : q.holds = (s.pc c).holds)
    (hd : q.DepthOk s.lock.maxRecursivityDepth depth)
    (hcount : acquires c = releases c + depth.toNat)
    (hco : ∀ u ≠ c, acquires u = s.acquires u ∧ releases u = s.releases u) :
    RecInv ({ s.setDepth depth with acquires := acquires, releases := releases }.goto c q) := by
  have hpw := (hi.writer c).mp hc
  have hpr := RecPc.not_reads_of_writes hpw
  refine hi.of_self rfl rfl hi.exclusive ⟨fun _ => hw, fun _ => hc⟩ (fun _ _ => Iff.rfl) ?_
    (fun _ _ => Iff.rfl) (hh ▸ hi.holder c) (fun _ _ => Iff.rfl) hd (Or.inr hc) ?_ (fun _ => hcount)
    (fun hne => absurd hc hne) hco (fun _ => hi.masked c ?_) fun _ _ => rfl
  · rw [hr, ← hpr]
    exact hi.reader c
  · intro hnone
    rw [show s.rw.writer = none from hnone] at hc
    cases hc
  · cases hp : s.pc c <;> simp_all [RecPc.writes, RecPc.masked]

theorem RecInv.rwAcquire (hi : RecInv s) {exclusive : Bool} {rw : RwOwners Cpu}
    (hp : s.pc c = .rwAcquire exclusive) (h : s.rw.acquire c exclusive = some rw) :
    RecInv ({ s with rw := rw }.goto c (.assertNoHolder exclusive)) := by
  have hnot : s.lock.holder ≠ some c := by
    intro hh
    have hholds := (hi.holder c).mp hh
    rw [hp] at hholds
    cases hholds
  have hreader : c ∉ s.rw.readers := by
    intro hr
    have hreads := (hi.reader c).mp hr
    rw [hp] at hreads
    cases hreads
  have hm : s.interrupts c = false := hi.masked c (by rw [hp]; rfl)
  unfold RwOwners.acquire at h
  split_ifs at h with hexcl hfree hfree
  · subst hexcl
    cases h
    have hdepth := hi.unowned hfree.1
    refine hi.of_self rfl rfl (fun _ => hfree.2) ⟨fun _ => rfl, fun _ => rfl⟩ (fun u hu => ?_)
      ⟨fun h => absurd h hreader, nofun⟩ (fun _ _ => Iff.rfl) ⟨fun h => absurd h hnot, nofun⟩
      (fun _ _ => Iff.rfl) (fun _ => hdepth) (Or.inl rfl) (fun hnone => by cases hnone)
      (fun _ => ?_) (fun hne => absurd rfl hne) (fun _ _ => ⟨rfl, rfl⟩) (fun _ => hm) fun _ _ => rfl
    · rw [hfree.1]
      exact ⟨fun h => absurd (Option.some.inj h).symm hu, nofun⟩
    · have hbal := hi.balanced c (by rw [hfree.1]; simp)
      show s.acquires c = s.releases c + s.lock.currentRecursivityDepth.toNat
      rw [hdepth]
      exact hbal
  · cases exclusive with
    | true => exact absurd rfl hexcl
    | false =>
      cases h
      refine hi.of_self rfl rfl (fun hne => absurd hfree hne)
        ⟨fun h => absurd (hfree.symm.trans h) nofun, nofun⟩ (fun _ _ => Iff.rfl)
        ⟨fun _ => rfl, fun _ => Finset.mem_insert_self ..⟩ (fun u hu => Finset.mem_insert.trans ?_)
        ⟨fun h => absurd h hnot, nofun⟩ (fun _ _ => Iff.rfl) (fun hx => by cases hx) (Or.inl rfl)
        hi.unowned (hi.depth c) (hi.balanced c) (fun _ _ => ⟨rfl, rfl⟩) (fun _ => hm) fun _ _ => rfl
      exact or_iff_right hu

theorem RecInv.setHolder (hi : RecInv s) (hp : s.pc c = .setHolder) :
    RecInv ((s.setHolder (some c)).goto c .writing) := by
  have hw := (hi.writer c).mpr (by rw [hp]; rfl)
  have hd := hi.depthOk c
  rw [hp] at hd
  have hd : s.lock.currentRecursivityDepth = 1 := hd
  have hnone : ∀ u ≠ c, s.lock.holder ≠ some u := by
    intro u hu hh
    have hwu := (hi.writer u).mpr (RecPc.writes_of_holds ((hi.holder u).mp hh))
    rw [hw] at hwu
    exact hu (Option.some.inj hwu).symm
  refine hi.of_self rfl rfl hi.exclusive ⟨fun _ => rfl, fun _ => hw⟩ (fun _ _ => Iff.rfl) ?_
    (fun _ _ => Iff.rfl) ⟨fun _ => rfl, fun _ => rfl⟩ (fun u hu => ?_) ?_ (Or.inl rfl) hi.unowned
    (hi.depth c) (hi.balanced c) (fun _ _ => ⟨rfl, rfl⟩) (fun _ => hi.masked c (by rw [hp]; rfl))
    fun _ _ => rfl
  · have hr := hi.reader c
    rw [hp] at hr
    exact hr
  · exact ⟨fun h => absurd (Option.some.inj h).symm hu, fun h => absurd h (hnone u hu)⟩
  · show 0 < s.lock.currentRecursivityDepth.toNat ∧
      s.lock.currentRecursivityDepth.toNat ≤ s.lock.maxRecursivityDepth.toNat
    rw [hd]
    exact ⟨by decide, hi.max_pos⟩

/-- A release clears `Holder` while it is still inside the reader/writer spinlock. -/
theorem RecInv.clearHolder (hi : RecInv s) {exclusive : Bool} (hp : s.pc c = .clearHolder exclusive) :
    RecInv ((s.setHolder none).goto c (.rwRelease exclusive)) := by
  have hw := hi.writer c
  have hr := hi.reader c
  have hd := hi.depthOk c
  have hm := hi.masked c
  rw [hp] at hw hr hd hm
  have hnone : ∀ u ≠ c, s.lock.holder ≠ some u := by
    intro u hu hh
    have hwu := (hi.writer u).mpr (RecPc.writes_of_holds ((hi.holder u).mp hh))
    cases exclusive with
    | true =>
      rw [hw.mpr rfl] at hwu
      exact hu (Option.some.inj hwu).symm
    | false =>
      have hmem := hr.mpr rfl
      rw [hi.exclusive (by rw [hwu]; exact nofun)] at hmem
      cases hmem
  exact hi.of_self rfl rfl hi.exclusive hw (fun _ _ => Iff.rfl) hr (fun _ _ => Iff.rfl)
    ⟨nofun, nofun⟩ (fun u hu => ⟨nofun, fun h => absurd h (hnone u hu)⟩) hd (Or.inl rfl) hi.unowned
    (hi.depth c) (hi.balanced c) (fun _ _ => ⟨rfl, rfl⟩) (fun _ => hm rfl) fun _ _ => rfl

theorem RecInv.rwRelease (hi : RecInv s) {exclusive : Bool} (hp : s.pc c = .rwRelease exclusive) :
    RecInv (({ s with rw := s.rw.release c exclusive }.setInterrupts c (s.intrState c)).goto c
      .idle) := by
  have hw := hi.writer c
  have hr := hi.reader c
  have hh := hi.holder c
  have hd := hi.depthOk c
  rw [hp] at hw hr hh hd
  have hnot : s.lock.holder ≠ some c := fun h => by cases hh.mp h
  cases exclusive with
  | true =>
    have hwc := hw.mpr rfl
    have hzero : s.lock.currentRecursivityDepth = 0 := hd rfl
    have hcount := hi.depth c hwc
    rw [hzero] at hcount
    refine hi.of_self rfl rfl (fun hne => absurd rfl hne) ⟨nofun, nofun⟩ (fun u hu => ⟨nofun, ?_⟩) hr
      (fun _ _ => Iff.rfl) ⟨fun h => absurd h hnot, nofun⟩ (fun _ _ => Iff.rfl) trivial (Or.inl rfl)
      (fun _ => hzero) nofun (fun _ => hcount) (fun _ _ => ⟨rfl, rfl⟩) nofun
      fun u hu => Function.update_of_ne hu ..
    intro h
    exact absurd (Option.some.inj (hwc.symm.trans h)).symm hu
  | false =>
    have hwc : s.rw.writer ≠ some c := fun h => by cases hw.mp h
    have hnone : s.rw.writer = none := by
      by_contra hne
      have hmem := hr.mpr rfl
      rw [hi.exclusive hne] at hmem
      cases hmem
    refine hi.of_self rfl rfl (fun hne => absurd hnone hne) ⟨fun h => absurd h hwc, nofun⟩
      (fun _ _ => Iff.rfl) ⟨fun h => absurd rfl (Finset.ne_of_mem_erase h), nofun⟩ (fun u hu => ?_)
      ⟨fun h => absurd h hnot, nofun⟩ (fun _ _ => Iff.rfl) trivial (Or.inl rfl) hi.unowned (hi.depth c)
      (hi.balanced c) (fun _ _ => ⟨rfl, rfl⟩) nofun fun u hu => Function.update_of_ne hu ..
    exact ⟨Finset.mem_of_mem_erase, Finset.mem_erase_of_ne_of_mem hu⟩

theorem recStep_inv (hi : RecInv s) (h : recStep s c = some s') : RecInv s' := by
  have hw := hi.writer c
  have hr := hi.reader c
  have hh := hi.holder c
  have hd := hi.depthOk c
  have hm := hi.masked c
  unfold recStep at h
  cases hp : s.pc c with
  | idle | writing | reading => simp [hp] at h
  | disableInterrupts exclusive nested =>
    rw [hp] at hw hr hh hd hm
    simp only [hp, Option.some.injEq] at h
    subst h
    have hoff : RecInv (s.setInterrupts c false) := hi.setInterrupts fun _ => rfl
    refine RecInv.goto (hoff.frame rfl rfl rfl rfl rfl rfl) ?_ ?_ ?_ ?_ fun _ => ?_
    · show (if exclusive then _ else _ : RecPc).writes = (s.pc c).writes
      cases exclusive <;> cases nested <;> simp_all [RecPc.writes, RecPc.DepthOk]
    · show (if exclusive then _ else _ : RecPc).reads = (s.pc c).reads
      cases exclusive <;> simp [hp, RecPc.reads]
    · show (if exclusive then _ else _ : RecPc).holds = (s.pc c).holds
      cases exclusive <;> cases nested <;> simp_all [RecPc.holds, RecPc.writes, RecPc.DepthOk]
    · show (if exclusive then _ else _ : RecPc).DepthOk s.lock.maxRecursivityDepth
        s.lock.currentRecursivityDepth
      cases exclusive
      · trivial
      · exact fun hnested => (hd hnested).2
    · exact Function.update_self ..
  | testHolder nested =>
    rw [hp] at hw hr hh hd hm
    simp only [hp, Option.some.injEq] at h
    subst h
    cases nested with
    | true =>
      rw [if_pos (hh.mpr rfl)]
      exact hi.goto (by rw [hp]; rfl) (by rw [hp]; rfl) (by rw [hp]; rfl) (hd rfl) fun _ => hm rfl
    | false =>
      rw [if_neg fun heq => by cases hh.mp heq]
      exact hi.goto (by rw [hp]; rfl) (by rw [hp]; rfl) (by rw [hp]; rfl) trivial fun _ => hm rfl
  | assertDepth =>
    rw [hp] at hd hm
    simp only [hp] at h
    split_ifs at h
    cases h
    exact hi.goto (by rw [hp]; rfl) (by rw [hp]; rfl) (by rw [hp]; rfl) hd fun _ => hm rfl
  | loadDepth =>
    rw [hp] at hd hm
    simp only [hp, Option.some.injEq] at h
    subst h
    exact hi.goto (by rw [hp]; rfl) (by rw [hp]; rfl) (by rw [hp]; rfl) ⟨rfl, hd⟩ fun _ => hm rfl
  | storeDepth depth =>
    rw [hp] at hw hd
    simp only [hp, Option.some.injEq] at h
    subst h
    obtain ⟨rfl, -, hlt⟩ := hd
    have hmax := s.lock.maxRecursivityDepth.isLt
    have hsucc : (s.lock.currentRecursivityDepth + 1).toNat =
        s.lock.currentRecursivityDepth.toNat + 1 := toNat_add_one (by omega)
    have hcount := hi.depth c (hw.mpr rfl)
    refine hi.setDepth (hw.mpr rfl) rfl rfl (by rw [hp]; rfl) ⟨?_, ?_⟩ ?_
      fun u hu => ⟨Function.update_of_ne hu .., rfl⟩
    · omega
    · omega
    · rw [Function.update_self, hsucc]
      show s.acquires c + 1 = s.releases c + _
      omega
  | rwAcquire exclusive =>
    simp only [hp] at h
    obtain ⟨rw', hacq, rfl⟩ := Option.map_eq_some_iff.mp h
    exact hi.rwAcquire hp hacq
  | assertNoHolder exclusive =>
    rw [hp] at hd hm
    simp only [hp] at h
    split_ifs at h
    cases h
    exact hi.goto (by rw [hp]; rfl) (by rw [hp]; rfl) (by rw [hp]; rfl) hd fun _ => hm rfl
  | assertNoDepth exclusive =>
    rw [hp] at hd hm
    simp only [hp] at h
    obtain ⟨hassert, h⟩ := Option.ite_none_right_eq_some.mp h
    cases h
    cases exclusive with
    | true =>
      exact hi.goto (by rw [hp]; rfl) (by rw [hp]; rfl) (by rw [hp]; rfl) (hd rfl) fun _ => hm rfl
    | false =>
      exact hi.goto (by rw [hp]; rfl) (by rw [hp]; rfl) (by rw [hp]; rfl) trivial fun _ => hm rfl
  | setDepth =>
    rw [hp] at hw hd
    simp only [hp, Option.some.injEq] at h
    subst h
    have hcount := hi.depth c (hw.mpr rfl)
    rw [show s.lock.currentRecursivityDepth = 0 from hd] at hcount
    refine hi.setDepth (hw.mpr rfl) rfl rfl (by rw [hp]; rfl) rfl ?_
      fun u hu => ⟨Function.update_of_ne hu .., rfl⟩
    rw [Function.update_self]
    show s.acquires c + 1 = s.releases c + 1
    rw [hcount]
    rfl
  | setHolder =>
    simp only [hp, Option.some.injEq] at h
    subst h
    exact hi.setHolder hp
  | assertInterrupts exclusive =>
    rw [hp] at hd hm
    simp only [hp] at h
    obtain ⟨hassert, h⟩ := Option.ite_none_right_eq_some.mp h
    cases h
    cases exclusive with
    | true =>
      exact hi.goto (by rw [hp]; rfl) (by rw [hp]; rfl) (by rw [hp]; rfl) (hd rfl) fun _ => hm rfl
    | false =>
      exact hi.goto (by rw [hp]; rfl) (by rw [hp]; rfl) (by rw [hp]; rfl) nofun fun _ => hm rfl
  | assertHolder =>
    rw [hp] at hd hm
    simp only [hp] at h
    split_ifs at h
    cases h
    exact hi.goto (by rw [hp]; rfl) (by rw [hp]; rfl) (by rw [hp]; rfl) hd fun _ => hm rfl
  | loadDecrement =>
    rw [hp] at hd hm
    simp only [hp, Option.some.injEq] at h
    subst h
    exact hi.goto (by rw [hp]; rfl) (by rw [hp]; rfl) (by rw [hp]; rfl) ⟨rfl, hd⟩ fun _ => hm rfl
  | storeDecrement depth =>
    rw [hp] at hw hd
    simp only [hp, Option.some.injEq] at h
    subst h
    obtain ⟨rfl, hpos, hle⟩ := hd
    have hpred := toNat_sub_one hpos
    have hcount := hi.depth c (hw.mpr rfl)
    refine hi.setDepth (hw.mpr rfl) rfl rfl (by rw [hp]; rfl) (fun _ => ?_) ?_
      fun u hu => ⟨rfl, Function.update_of_ne hu ..⟩
    · lia
    · rw [Function.update_self]
      show s.acquires c = s.releases c + 1 + _
      omega
  | testDepth exclusive =>
    rw [hp] at hd hm
    simp only [hp, Option.some.injEq] at h
    subst h
    cases exclusive with
    | true =>
      by_cases hzero : s.lock.currentRecursivityDepth = 0
      · rw [if_pos (Or.inl hzero)]
        exact hi.goto (by rw [hp]; rfl) (by rw [hp]; rfl) (by rw [hp]; rfl) (fun _ => hzero)
          fun _ => hm rfl
      · rw [if_neg fun h => h.elim hzero nofun]
        refine hi.goto (by rw [hp]; rfl) (by rw [hp]; rfl) (by rw [hp]; rfl) ⟨?_, hd rfl⟩
          fun _ => hm rfl
        exact Nat.pos_of_ne_zero fun hz => hzero (BitVec.eq_of_toNat_eq hz)
    | false =>
      rw [if_pos (Or.inr rfl)]
      exact hi.goto (by rw [hp]; rfl) (by rw [hp]; rfl) (by rw [hp]; rfl) nofun fun _ => hm rfl
  | clearHolder exclusive =>
    simp only [hp, Option.some.injEq] at h
    subst h
    exact hi.clearHolder hp
  | rwRelease exclusive =>
    simp only [hp, Option.some.injEq] at h
    subst h
    exact hi.rwRelease hp

theorem nextRec_inv {a : RecAction Cpu} (hi : RecInv s) (h : nextRec s a = some s') :
    RecInv s' := by
  cases a with
  | acquire c exclusive =>
    simp only [nextRec] at h
    have hd := hi.depthOk c
    have hm := hi.masked c
    cases hp : s.pc c with
    | idle =>
      simp only [hp, Option.some.injEq] at h
      subst h
      exact hi.goto (by rw [hp]; rfl) (by rw [hp]; rfl) (by rw [hp]; rfl) nofun nofun
    | writing =>
      rw [hp] at hd hm
      simp only [hp] at h
      obtain ⟨hguard, h⟩ := Option.ite_none_right_eq_some.mp h
      cases h
      have hcount := hi.depth c ((hi.writer c).mpr (by rw [hp]; rfl))
      refine hi.goto (by rw [hp]; rfl) (by rw [hp]; rfl) (by rw [hp]; rfl) (fun _ => ⟨rfl, hd.1, ?_⟩)
        fun _ => hm rfl
      omega
    | _ => simp [hp] at h
  | release c intrState =>
    simp only [nextRec] at h
    obtain ⟨-, h⟩ := Option.ite_none_right_eq_some.mp h
    have hd := hi.depthOk c
    have hm := hi.masked c
    cases hp : s.pc c with
    | writing =>
      rw [hp] at hd hm
      simp only [hp, Option.some.injEq] at h
      subst h
      exact RecInv.goto (hi.frame rfl rfl rfl rfl rfl rfl) (by rw [hp]; rfl) (by rw [hp]; rfl)
        (by rw [hp]; rfl) (fun _ => hd) fun _ => hm rfl
    | reading =>
      rw [hp] at hm
      simp only [hp, Option.some.injEq] at h
      subst h
      exact RecInv.goto (hi.frame rfl rfl rfl rfl rfl rfl) (by rw [hp]; rfl) (by rw [hp]; rfl)
        (by rw [hp]; rfl) nofun fun _ => hm rfl
    | _ => simp [hp] at h
  | step c => exact recStep_inv hi h
  | setInterrupts c enabled =>
    simp only [nextRec] at h
    split_ifs at h with hp
    cases h
    exact hi.setInterrupts fun hmask => by
      rw [hp] at hmask
      cases hmask

omit [DecidableEq Cpu] in
theorem RecInv.safe (hi : RecInv s) : RecSafe s where
  exclusive := hi.exclusive
  holder c h := (hi.writer c).mpr (RecPc.writes_of_holds ((hi.holder c).mp h))
  inside c hp := ⟨(hi.writer c).mpr (by rw [hp]; rfl), (hi.holder c).mpr (by rw [hp]; rfl)⟩
  depth := hi.depth
  balanced := hi.balanced
  released c hp := by
    have hd := hi.depthOk c
    rw [hp] at hd
    exact hd rfl
  held c hp hzero := by
    have hd := hi.depthOk c
    rw [hp, hzero] at hd
    exact absurd hd.1 (by decide)
  passes c hwc hzero := by
    have hw := (hi.writer c).mp hwc
    have hd := hi.depthOk c
    rw [hzero] at hd
    cases hp : s.pc c <;> simp_all [RecPc.passes, RecPc.writes, RecPc.DepthOk]
  asserts c hfail := by
    have hw := hi.writer c
    have hr := hi.reader c
    have hh := hi.holder c
    have hd := hi.depthOk c
    have hm := hi.masked c
    unfold RecState.AssertFails at hfail
    cases hp : s.pc c <;> rw [hp] at hfail hw hr hh hd hm
    case assertDepth => exact hfail hd.2
    case assertNoHolder exclusive =>
      obtain ⟨u, hu⟩ := Option.ne_none_iff_exists'.mp hfail
      have hholds := (hi.holder u).mp hu
      have hwu := (hi.writer u).mpr (RecPc.writes_of_holds hholds)
      cases exclusive with
      | true =>
        obtain rfl := Option.some.inj (hwu.symm.trans (hw.mpr rfl))
        rw [hp] at hholds
        cases hholds
      | false =>
        have hmem := hr.mpr rfl
        rw [hi.exclusive (by rw [hwu]; exact nofun)] at hmem
        cases hmem
    case assertNoDepth exclusive =>
      cases exclusive with
      | true => exact hfail (hd rfl)
      | false =>
        refine hfail (hi.unowned ?_)
        by_contra hne
        have hmem := hr.mpr rfl
        rw [hi.exclusive hne] at hmem
        cases hmem
    case assertInterrupts exclusive => exact hfail (hm rfl)
    case assertHolder => exact hfail (hh.mpr rfl)
    all_goals exact hfail

end Steps

/-- The recursive lock over every interleaving of any CPUs. -/
theorem recRwSpinlock_safe {recursivityDepth : BYTE} {s : RecState Cpu}
    {tr : List (RecState Cpu × RecAction Cpu)}
    (h : Exec (fun s a s' => nextRec s a = some s') (recStart Cpu recursivityDepth) tr s) :
    Always RecSafe tr s :=
  (h.always (P := RecInv) (recStart_inv recursivityDepth) fun _ _ _ hi hs => nextRec_inv hi hs).mono
    fun _ hi => hi.safe

/-- One CPU acquires the lock twice and releases it twice; another one, which has been waiting, reads. -/
def nestedThenReader : List (RecAction (Fin 2)) :=
  [.acquire 0 true, .step 0, .step 0, .step 0, .step 0, .step 0, .step 0, .step 0,
    .acquire 1 false, .step 1,
    .acquire 0 true, .step 0, .step 0, .step 0, .step 0, .step 0,
    .release 0 false, .step 0, .step 0, .step 0, .step 0, .step 0,
    .release 0 true, .step 0, .step 0, .step 0, .step 0, .step 0, .step 0, .step 0,
    .step 1, .step 1, .step 1, .release 1 true, .step 1, .step 1, .step 1, .step 1]

theorem nestedThenReader_runs :
    (exec nextRec (recStart (Fin 2) 0) nestedThenReader).isSome = true := by decide

theorem recRwSpinlock_safe_nestedThenReader :
    Always RecSafe ((exec nextRec (recStart (Fin 2) 0) nestedThenReader).get
        nestedThenReader_runs).1
      ((exec nextRec (recStart (Fin 2) 0) nestedThenReader).get nestedThenReader_runs).2 :=
  recRwSpinlock_safe (exec_get nestedThenReader_runs)

end HAL9000.Sync
