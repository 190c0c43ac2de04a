import HAL9000.CommonLib.Base
import HAL9000.Lib.Run

/-! The system time of `iomu.c`. Timer ticks add to the microseconds of the uptime; a CMOS update reads
the seconds and later stores the next second over both. -/
namespace HAL9000.SystemTime

open Run

structure Uptime where
  uptimeSeconds : DWORD
  uptimeMicroseconds : DWORD
  deriving DecidableEq, Repr

def Uptime.ofRaw (raw : QWORD) : Uptime := ⟨raw.setWidth 32, (raw >>> 32).setWidth 32⟩

def secInUs : QWORD := 1000000

/-- `IomuGetSystemTimeUs`, for the word that it has read. -/
def iomuGetSystemTimeUs (uptime : Uptime) : QWORD :=
  uptime.uptimeSeconds.setWidth 64 * secInUs +
    if secInUs ≤ uptime.uptimeMicroseconds.setWidth 64 then secInUs
    else uptime.uptimeMicroseconds.setWidth 64

/-- The word, and `newSecCount` for each processor that is in `IomuCmosUpdateOccurred`. The source has
no `tickedUs`: it counts the microseconds since the last update. -/
structure TimeState where
  systemUptime : Uptime
  newSecCount : ℕ → Option QWORD
  tickedUs : ℕ

/-- The atomic accesses to the word; a read has the time that is returned. -/
inductive TimeAction
  | tick (timeUpdatePerCpuUs : DWORD)
  | read (systemTime : QWORD)
  | cmosRead (cpu : ℕ)
  | cmosExchange (cpu : ℕ)
  deriving DecidableEq, Repr

def nextTime (s : TimeState) : TimeAction → Option TimeState
  | .tick us => some { s with
      systemUptime.uptimeMicroseconds := s.systemUptime.uptimeMicroseconds + us
      tickedUs := s.tickedUs + us.toNat }
  | .read systemTime => if systemTime = iomuGetSystemTimeUs s.systemUptime then some s else none
  | .cmosRead cpu =>
    if s.newSecCount cpu = none then some { s with
      newSecCount := Function.update s.newSecCount cpu
        (some (s.systemUptime.uptimeSeconds.setWidth 64 + 1)) }
    else none
  | .cmosExchange cpu =>
    match s.newSecCount cpu with
    | none => none
    | some newSecCount =>
      -- the assertion stops a system that has run for 2³² seconds
      if newSecCount ≤ maxDword.setWidth 64 then some {
        systemUptime := .ofRaw newSecCount
        newSecCount := Function.update s.newSecCount cpu none
        tickedUs := 0 }
      else none

def timeStep (s : TimeState) (a : TimeAction) (s' : TimeState) : Prop := nextTime s a = some s'

def startOfTime : TimeState := ⟨⟨0, 0⟩, fun _ => none, 0⟩

/-- Less than 2³² microseconds pass between two updates. -/
def FewTicks (s : TimeState) : TimeAction → Prop
  | .tick us => s.tickedUs + us.toNat < 2 ^ 32
  | _ => True

instance (s : TimeState) : DecidablePred (FewTicks s)
  | .tick us => inferInstanceAs (Decidable (s.tickedUs + us.toNat < 2 ^ 32))
  | .read _ => isTrue trivial
  | .cmosRead _ => isTrue trivial
  | .cmosExchange _ => isTrue trivial

/-- No update has stored its seconds since this one has read them. -/
def ReadsCurrent (s : TimeState) : TimeAction → Prop
  | .cmosExchange cpu => s.newSecCount cpu = some (s.systemUptime.uptimeSeconds.setWidth 64 + 1)
  | _ => True

instance (s : TimeState) : DecidablePred (ReadsCurrent s)
  | .cmosExchange cpu => inferInstanceAs
    (Decidable (s.newSecCount cpu = some (s.systemUptime.uptimeSeconds.setWidth 64 + 1)))
  | .tick _ => isTrue trivial
  | .read _ => isTrue trivial
  | .cmosRead _ => isTrue trivial

def TimeAction.reading : TimeAction → Option QWORD
  | .read systemTime => some systemTime
  | _ => none

/-- The times that are returned, in order. -/
def readings (tr : List (TimeState × TimeAction)) : List QWORD := tr.filterMap fun v => v.2.reading

theorem iomuGetSystemTimeUs_toNat (uptime : Uptime) : (iomuGetSystemTimeUs uptime).toNat =
    uptime.uptimeSeconds.toNat * 1000000 + min uptime.uptimeMicroseconds.toNat 1000000 := by
  have hsec := uptime.uptimeSeconds.isLt
  have hus := uptime.uptimeMicroseconds.isLt
  have hsecInUs : secInUs.toNat = 1000000 := rfl
  have hseconds : (uptime.uptimeSeconds.setWidth 64).toNat = uptime.uptimeSeconds.toNat := by
    rw [BitVec.toNat_setWidth]
    lia
  have hmicros : (uptime.uptimeMicroseconds.setWidth 64).toNat =
      uptime.uptimeMicroseconds.toNat := by
    rw [BitVec.toNat_setWidth]
    lia
  rw [iomuGetSystemTimeUs, BitVec.toNat_add, BitVec.toNat_mul, hseconds, hsecInUs]
  by_cases hclamp : secInUs ≤ uptime.uptimeMicroseconds.setWidth 64
  · rw [if_pos hclamp, hsecInUs]
    rw [BitVec.le_def, hmicros, hsecInUs] at hclamp
    lia
  · rw [if_neg hclamp, hmicros]
    rw [BitVec.le_def, hmicros, hsecInUs] at hclamp
    lia

/-- The next second, with no microseconds. -/
theorem ofRaw_next {seconds : DWORD} (h : seconds.setWidth 64 + 1 ≤ maxDword.setWidth 64) :
    (Uptime.ofRaw (seconds.setWidth 64 + 1)).uptimeSeconds.toNat = seconds.toNat + 1 ∧
      (Uptime.ofRaw (seconds.setWidth 64 + 1)).uptimeMicroseconds.toNat = 0 := by
  have hlt := seconds.isLt
  have hone : (1 : QWORD).toNat = 1 := rfl
  have hmax : (maxDword.setWidth 64).toNat = 2 ^ 32 - 1 := rfl
  have hnext : (seconds.setWidth 64 + 1).toNat = seconds.toNat + 1 := by
    rw [BitVec.toNat_add, BitVec.toNat_setWidth, hone]
    lia
  rw [BitVec.le_def, hnext, hmax] at h
  refine ⟨?_, ?_⟩
  · rw [Uptime.ofRaw, BitVec.toNat_setWidth, hnext]
    lia
  · rw [Uptime.ofRaw, BitVec.toNat_setWidth, BitVec.toNat_ushiftRight, hnext]
    omega

section Runs

variable {s s' : TimeState} {a : TimeAction} {tr : List (TimeState × TimeAction)}

theorem timeStep_read {systemTime : QWORD} (h : timeStep s (.read systemTime) s') :
    systemTime = iomuGetSystemTimeUs s.systemUptime ∧ s' = s := by
  simp only [timeStep, nextTime] at h
  split_ifs at h with htime
  exact ⟨htime, (Option.some.inj h).symm⟩

theorem timeStep_cmosRead {cpu : ℕ} (h : timeStep s (.cmosRead cpu) s') :
    s'.systemUptime = s.systemUptime ∧ s'.tickedUs = s.tickedUs := by
  simp only [timeStep, nextTime] at h
  split_ifs at h
  obtain rfl := Option.some.inj h
  exact ⟨rfl, rfl⟩

theorem timeStep_cmosExchange {cpu : ℕ} {newSecCount : QWORD}
    (h : timeStep s (.cmosExchange cpu) s') (hcount : s.newSecCount cpu = some newSecCount) :
    newSecCount ≤ maxDword.setWidth 64 ∧ s'.systemUptime = .ofRaw newSecCount ∧ s'.tickedUs = 0 := by
  simp only [timeStep, nextTime, hcount] at h
  split_ifs at h with hassert
  obtain rfl := Option.some.inj h
  exact ⟨hassert, rfl, rfl⟩

/-- The microseconds have not wrapped since the last update. -/
def TickedInv (s : TimeState) : Prop :=
  s.systemUptime.uptimeMicroseconds.toNat = s.tickedUs

/-- No step puts the time back. -/
theorem time_le_of_step (h : timeStep s a s') (hinv : TickedInv s) (hticks : FewTicks s a)
    (hcurrent : ReadsCurrent s a) : TickedInv s' ∧
      (iomuGetSystemTimeUs s.systemUptime).toNat ≤ (iomuGetSystemTimeUs s'.systemUptime).toNat := by
  rw [iomuGetSystemTimeUs_toNat, iomuGetSystemTimeUs_toNat]
  cases a with
  | tick us =>
    obtain rfl := Option.some.inj h
    have hsum : (s.systemUptime.uptimeMicroseconds + us).toNat = s.tickedUs + us.toNat := by
      have hless : s.tickedUs + us.toNat < 2 ^ 32 := hticks
      rw [BitVec.toNat_add, hinv, Nat.mod_eq_of_lt hless]
    refine ⟨hsum, ?_⟩
    rw [TickedInv] at hinv
    dsimp only
    lia
  | read systemTime =>
    obtain ⟨-, rfl⟩ := timeStep_read h
    exact ⟨hinv, le_rfl⟩
  | cmosRead cpu =>
    obtain ⟨huptime, hticked⟩ := timeStep_cmosRead h
    rw [TickedInv, huptime, hticked]
    exact ⟨hinv, le_rfl⟩
  | cmosExchange cpu =>
    obtain ⟨hassert, huptime, hticked⟩ := timeStep_cmosExchange h hcurrent
    obtain ⟨hseconds, hmicros⟩ := ofRaw_next hassert
    rw [TickedInv, huptime, hticked, hseconds, hmicros]
    exact ⟨rfl, by lia⟩

/-- What a step returns is the time in the state before it. -/
theorem reading_eq (h : timeStep s a s') :
    readings [(s, a)] = [] ∨ readings [(s, a)] = [iomuGetSystemTimeUs s.systemUptime] := by
  cases a with
  | tick us => exact Or.inl rfl
  | read systemTime =>
    obtain ⟨rfl, -⟩ := timeStep_read h
    exact Or.inr rfl
  | cmosRead cpu => exact Or.inl rfl
  | cmosExchange cpu => exact Or.inl rfl

/-- Two updates read the same second; the later exchange takes back the microseconds that were counted
after the other one. -/
def overlappingUpdates : List TimeAction :=
  [.cmosRead 0, .cmosRead 1, .cmosExchange 0, .tick 40000, .read 1040000, .cmosExchange 1, .read 1000000]

theorem overlappingUpdates_run : (exec nextTime startOfTime overlappingUpdates).isSome := by
  decide +kernel

end Runs

end HAL9000.SystemTime
