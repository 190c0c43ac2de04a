import HAL9000.CommonLib.Base
import Mathlib.Logic.Function.Basic
import Mathlib.Tactic.SplitIfs

/-! Bytes in memory and `cl_memmove` of `cl_memory.c`, which copies upwards whichever way the two ranges
overlap. -/
namespace HAL9000

/-- What is at an address; `none` is not to be accessed. -/
abbrev MappedMemory := QWORD → Option BYTE

namespace MappedMemory

def read (m : MappedMemory) (a : QWORD) : Except Fault BYTE :=
  match m a with
  | some b => .ok b
  | none => .error .danglingAccess

def write (m : MappedMemory) (a : QWORD) (b : BYTE) : Except Fault MappedMemory :=
  match m a with
  | some _ => .ok (Function.update m a (some b))
  | none => .error .danglingAccess

/-- All bytes may be accessed. -/
def whole (content : QWORD → BYTE) : MappedMemory := fun a => some (content a)

/-- Only the first `size` bytes from `base` on may be accessed. -/
def window (base : QWORD) (size : ℕ) (content : ℕ → BYTE) : MappedMemory := fun a =>
  if (a - base).toNat < size then some (content (a - base).toNat) else none

end MappedMemory

def memsetLoop (address : QWORD) (value : BYTE) : ℕ → DWORD → MappedMemory → Except Fault MappedMemory
  | 0, _, m => .ok m
  | n + 1, i, m => do memsetLoop address value n (i + 1) (← m.write (address + i.setWidth 64) value)

/-- `cl_memset`. -/
def clMemset (m : MappedMemory) (address : QWORD) (value : BYTE) (size : DWORD) : Except Fault MappedMemory :=
  if address = 0 then .ok m else memsetLoop address value size.toNat 0 m

def memmoveLoop (dst src : QWORD) : ℕ → QWORD → MappedMemory → Except Fault MappedMemory
  | 0, _, m => .ok m
  | n + 1, i, m => do
    let b ← m.read (src + i)
    memmoveLoop dst src n (i + 1) (← m.write (dst + i) b)

def clMemmove (m : MappedMemory) (Destination Source Count : QWORD) : Except Fault MappedMemory :=
  if Destination = 0 ∨ Source = 0 then .ok m
  else memmoveLoop Destination Source Count.toNat 0 m

/-- The bytes at the destination are those that were at the source, and no other byte changes. -/
def Moves (content content' : QWORD → BYTE) (dst src : QWORD) (n : ℕ) : Prop :=
  (∀ i < n, content' (dst + BitVec.ofNat 64 i) = content (src + BitVec.ofNat 64 i)) ∧
    ∀ a, (∀ i < n, a ≠ dst + BitVec.ofNat 64 i) → content' a = content a

/-- A call on a memory of which all bytes may be accessed. -/
def MovesExactly (content : QWORD → BYTE) (dst src count : QWORD) : Prop :=
  ∃ content', clMemmove (.whole content) dst src count = .ok (.whole content') ∧
    Moves content content' dst src count.toNat

namespace MappedMemory

section Access

variable {content : QWORD → BYTE} {base a : QWORD} {size : ℕ} {c : ℕ → BYTE} {j : ℕ} {b : BYTE}

theorem read_whole : (whole content).read a = .ok (content a) := rfl

theorem write_whole : (whole content).write a b = .ok (whole (Function.update content a b)) := by
  refine congrArg Except.ok (funext fun x => ?_)
  unfold whole
  by_cases hx : x = a
  · rw [hx, Function.update_self, Function.update_self]
  · rw [Function.update_of_ne hx, Function.update_of_ne hx]

theorem add_toNat_sub : base + BitVec.ofNat 64 (a - base).toNat = a := by
  rw [BitVec.ofNat_toNat, BitVec.setWidth_eq, BitVec.add_comm, BitVec.sub_add_cancel]

theorem toNat_add_sub (hj : j < 2 ^ 64) : (base + BitVec.ofNat 64 j - base).toNat = j := by
  rw [BitVec.add_comm, BitVec.add_sub_cancel, BitVec.toNat_ofNat, Nat.mod_eq_of_lt hj]

theorem window_at (hj : j < size) (hsize : size ≤ 2 ^ 64) :
    window base size c (base + BitVec.ofNat 64 j) = some (c j) := by
  unfold window
  rw [toNat_add_sub (hj.trans_le hsize), if_pos hj]

theorem read_window (hj : j < size) (hsize : size ≤ 2 ^ 64) :
    (window base size c).read (base + BitVec.ofNat 64 j) = .ok (c j) := by
  unfold read
  rw [window_at hj hsize]

theorem read_window_outside (hj : size ≤ j) (hlt : j < 2 ^ 64) :
    (window base size c).read (base + BitVec.ofNat 64 j) = .error .danglingAccess := by
  unfold read window
  rw [toNat_add_sub hlt, if_neg (Nat.not_lt.mpr hj)]

theorem write_window (hj : j < size) (hsize : size ≤ 2 ^ 64) :
    (window base size c).write (base + BitVec.ofNat 64 j) b =
      .ok (window base size (Function.update c j b)) := by
  unfold write
  rw [window_at hj hsize]
  refine congrArg Except.ok (funext fun x => ?_)
  by_cases hx : x = base + BitVec.ofNat 64 j
  · rw [hx, Function.update_self, window_at hj hsize, Function.update_self]
  · rw [Function.update_of_ne hx]
    unfold window
    have hne : (x - base).toNat ≠ j := by
      intro heq
      exact hx (heq ▸ add_toNat_sub.symm)
    rw [Function.update_of_ne hne]

end Access

end MappedMemory

/-! ### Loops over a window -/

section Window

variable {base : QWORD} {size : ℕ} {content : ℕ → BYTE} {value : BYTE}

/-- The bytes from `start` on are set. -/
theorem memsetLoop_window (hsize : size ≤ 2 ^ 64) {start : ℕ} (n i : ℕ) (hlt : i + n < 2 ^ 32)
    (hin : start + (i + n) ≤ size) :
    memsetLoop (base + BitVec.ofNat 64 start) value n (BitVec.ofNat 32 i)
      (.window base size fun j => if start ≤ j ∧ j < start + i then value else content j) =
    .ok (.window base size fun j => if start ≤ j ∧ j < start + (i + n) then value else content j) := by
  induction n generalizing i with
  | zero => rfl
  | succ n ih =>
    have haddress : base + BitVec.ofNat 64 start + (BitVec.ofNat 32 i).setWidth 64 =
        base + BitVec.ofNat 64 (start + i) := by
      rw [BitVec.ofNat_add, BitVec.add_assoc, ← BitVec.toNat_inj]
      simp only [BitVec.toNat_add, BitVec.toNat_setWidth, BitVec.toNat_ofNat]
      rw [Nat.mod_eq_of_lt (show i < 2 ^ 32 by omega)]
    have hnext : Function.update (fun j => if start ≤ j ∧ j < start + i then value else content j) (start + i)
        value = fun j => if start ≤ j ∧ j < start + (i + 1) then value else content j := by
      funext j
      by_cases hj : j = start + i
      · rw [hj, Function.update_self, if_pos (by omega)]
      · rw [Function.update_of_ne hj]
        by_cases hji : start ≤ j ∧ j < start + i
        · rw [if_pos hji, if_pos (by omega)]
        · rw [if_neg hji, if_neg (by omega)]
    have hstep := ih (i + 1) (by omega) (by omega)
    rw [BitVec.ofNat_add, Nat.add_right_comm, ← hnext] at hstep
    unfold memsetLoop
    rw [haddress, MappedMemory.write_window (by omega) hsize]
    exact hstep

/-- The shift to the left by `start` bytes goes on while there are bytes to be read. -/
theorem memmoveLoop_window (hsize : size ≤ 2 ^ 64) {start : ℕ} (hstart : 0 < start) (n i : ℕ)
    (hlt : start + (i + n) ≤ 2 ^ 64) (hin : i + n ≤ size) (hfit : start + i ≤ size) :
    memmoveLoop base (base + BitVec.ofNat 64 start) n (BitVec.ofNat 64 i)
      (.window base size fun j => if j < i then content (start + j) else content j) =
    if start + (i + n) ≤ size
    then .ok (.window base size fun j => if j < i + n then content (start + j) else content j)
    else .error .danglingAccess := by
  induction n generalizing i with
  | zero => exact (if_pos hfit).symm
  | succ n ih =>
    have haddress : base + BitVec.ofNat 64 start + BitVec.ofNat 64 i = base + BitVec.ofNat 64 (start + i) := by
      rw [BitVec.ofNat_add, BitVec.add_assoc]
    unfold memmoveLoop
    rw [haddress]
    by_cases hread : start + i < size
    · rw [MappedMemory.read_window hread hsize, if_neg (by omega)]
      change ((MappedMemory.window _ _ _).write _ _ >>= _) = _
      rw [MappedMemory.write_window (by omega) hsize]
      have hnext : Function.update (fun j => if j < i then content (start + j) else content j) i
          (content (start + i)) = fun j => if j < i + 1 then content (start + j) else content j := by
        funext j
        by_cases hj : j = i
        · rw [hj, Function.update_self, if_pos (Nat.lt_succ_self i)]
        · rw [Function.update_of_ne hj]
          by_cases hji : j < i
          · rw [if_pos hji, if_pos (by omega)]
          · rw [if_neg hji, if_neg (by omega)]
      have hstep := ih (i + 1) (by omega) (by omega) (by omega)
      rw [BitVec.ofNat_add, Nat.add_right_comm, ← hnext] at hstep
      exact hstep
    · rw [MappedMemory.read_window_outside (by omega) (by omega), if_neg (by omega)]
      rfl

theorem clMemset_window (hsize : size ≤ 2 ^ 64) {start : ℕ} {count : DWORD}
    (hnull : base + BitVec.ofNat 64 start ≠ 0) (hin : start + count.toNat ≤ size) :
    clMemset (.window base size content) (base + BitVec.ofNat 64 start) value count =
      .ok (.window base size fun j => if start ≤ j ∧ j < start + count.toNat then value else content j) := by
  have hloop := @memsetLoop_window base size content value hsize start count.toNat 0
    (by have := count.isLt; omega) (by omega)
  have hzero : (fun j => if start ≤ j ∧ j < start + 0 then value else content j) = content :=
    funext fun j => if_neg (by omega)
  rw [hzero, Nat.zero_add] at hloop
  rw [clMemset, if_neg hnull]
  exact hloop

theorem clMemmove_window (hsize : size ≤ 2 ^ 64) {start : ℕ} {count : QWORD} (hstart : 0 < start)
    (hdst : base ≠ 0) (hsrc : base + BitVec.ofNat 64 start ≠ 0) (hin : start + count.toNat ≤ size) :
    clMemmove (.window base size content) base (base + BitVec.ofNat 64 start) count =
      .ok (.window base size fun j => if j < count.toNat then content (start + j) else content j) := by
  have hloop := @memmoveLoop_window base size content hsize start hstart count.toNat 0 (by omega) (by omega)
    (by omega)
  rw [if_pos (by omega), Nat.zero_add] at hloop
  rw [clMemmove, if_neg fun hnull => hnull.elim hdst hsrc]
  exact hloop

end Window

/-! ### Moves over the whole memory -/

section Whole

variable {content : QWORD → BYTE} {dst src count : QWORD} {n : ℕ}

/-- What a copy upwards leaves: the bytes before the destination are copied again and again. -/
def copiedUpwards (content : QWORD → BYTE) (dst src : QWORD) (n : ℕ) : QWORD → BYTE := fun a =>
  if (a - dst).toNat < n
  then content (src + BitVec.ofNat 64 ((a - dst).toNat % (dst - src).toNat)) else content a

theorem copiedUpwards_zero : copiedUpwards content dst src 0 = content := by
  funext a
  exact if_neg (Nat.not_lt_zero _)

/-- What is read at the next byte of the source. -/
theorem copiedUpwards_source (hn : n < 2 ^ 64) :
    copiedUpwards content dst src n (src + BitVec.ofNat 64 n) =
      content (src + BitVec.ofNat 64 (n % (dst - src).toNat)) := by
  have hoffset : src + BitVec.ofNat 64 n - dst = BitVec.ofNat 64 n - (dst - src) := by
    apply BitVec.eq_of_toNat_eq
    simp only [BitVec.toNat_sub, BitVec.toNat_add, BitVec.toNat_ofNat]
    omega
  have hnat : (BitVec.ofNat 64 n - (dst - src)).toNat = (2 ^ 64 - (dst - src).toNat + n) % 2 ^ 64 := by
    rw [BitVec.toNat_sub, BitVec.toNat_ofNat, Nat.mod_eq_of_lt hn]
  unfold copiedUpwards
  rw [hoffset, hnat]
  have hlt := (dst - src).isLt
  generalize (dst - src).toNat = distance at hlt
  by_cases hle : distance ≤ n
  · rw [show (2 ^ 64 - distance + n) % 2 ^ 64 = n - distance by lia]
    by_cases hzero : distance = 0
    · rw [hzero, Nat.sub_zero, if_neg (lt_irrefl n), Nat.mod_zero]
    · rw [if_pos (by lia), ← Nat.mod_eq_sub_mod hle]
  · rw [show (2 ^ 64 - distance + n) % 2 ^ 64 = 2 ^ 64 - distance + n by lia, if_neg (by omega),
      Nat.mod_eq_of_lt (Nat.not_le.mp hle)]

theorem copiedUpwards_succ (hn : n < 2 ^ 64) :
    Function.update (copiedUpwards content dst src n) (dst + BitVec.ofNat 64 n)
      (copiedUpwards content dst src n (src + BitVec.ofNat 64 n)) =
      copiedUpwards content dst src (n + 1) := by
  rw [copiedUpwards_source hn]
  funext a
  by_cases ha : a = dst + BitVec.ofNat 64 n
  · subst ha
    unfold copiedUpwards
    rw [Function.update_self, MappedMemory.toNat_add_sub hn, if_pos (Nat.lt_succ_self n)]
  · have hne : (a - dst).toNat ≠ n := by
      intro heq
      exact ha (heq ▸ MappedMemory.add_toNat_sub.symm)
    rw [Function.update_of_ne ha]
    unfold copiedUpwards
    by_cases hlt : (a - dst).toNat < n
    · rw [if_pos hlt, if_pos (by omega)]
    · rw [if_neg hlt, if_neg (by omega)]

theorem memmoveLoop_whole (n i : ℕ) (hn : i + n ≤ 2 ^ 64) :
    memmoveLoop dst src n (BitVec.ofNat 64 i) (.whole (copiedUpwards content dst src i)) =
      .ok (.whole (copiedUpwards content dst src (i + n))) := by
  induction n generalizing i with
  | zero => rfl
  | succ n ih =>
    have hstep := ih (i + 1) (by omega)
    rw [BitVec.ofNat_add, show i + 1 + n = i + (n + 1) by omega] at hstep
    unfold memmoveLoop
    rw [MappedMemory.read_whole]
    change ((MappedMemory.whole _).write _ _ >>= _) = _
    rw [MappedMemory.write_whole, copiedUpwards_succ (by omega)]
    exact hstep

theorem clMemmove_whole : clMemmove (.whole content) dst src count =
    .ok (.whole (if dst = 0 ∨ src = 0 then content else copiedUpwards content dst src count.toNat)) := by
  unfold clMemmove
  by_cases hnull : dst = 0 ∨ src = 0
  · rw [if_pos hnull, if_pos hnull]
  · have hloop := @memmoveLoop_whole content dst src count.toNat 0 (by have := count.isLt; omega)
    rw [copiedUpwards_zero, Nat.zero_add] at hloop
    rw [if_neg hnull, if_neg hnull]
    exact hloop

theorem moves_copiedUpwards_iff (hn : n ≤ 2 ^ 64) :
    Moves content (copiedUpwards content dst src n) dst src n ↔
      ∀ i < n, content (src + BitVec.ofNat 64 i) =
        content (src + BitVec.ofNat 64 (i % (dst - src).toNat)) := by
  have hcopied : ∀ i < n, copiedUpwards content dst src n (dst + BitVec.ofNat 64 i) =
      content (src + BitVec.ofNat 64 (i % (dst - src).toNat)) := by
    intro i hi
    unfold copiedUpwards
    rw [MappedMemory.toNat_add_sub (by omega), if_pos hi]
  constructor
  · intro h i hi
    rw [← hcopied i hi, h.1 i hi]
  · intro h
    exact ⟨fun i hi => by rw [hcopied i hi, h i hi], fun a ha => if_neg fun hlt =>
      ha _ hlt MappedMemory.add_toNat_sub.symm⟩

end Whole

/-- The bytes are moved exactly if the source repeats itself at the distance of the destination, or is not
that long; with a null pointer nothing is moved. -/
theorem movesExactly_iff (content : QWORD → BYTE) (dst src count : QWORD) :
    MovesExactly content dst src count ↔
      if dst = 0 ∨ src = 0 then
        ∀ i < count.toNat, content (dst + BitVec.ofNat 64 i) = content (src + BitVec.ofNat 64 i)
      else ∀ i < count.toNat, content (src + BitVec.ofNat 64 i) =
        content (src + BitVec.ofNat 64 (i % (dst - src).toNat)) := by
  have hcontent : ∀ content', MappedMemory.whole content' = MappedMemory.whole
      (if dst = 0 ∨ src = 0 then content else copiedUpwards content dst src count.toNat) →
      content' = if dst = 0 ∨ src = 0 then content else copiedUpwards content dst src count.toNat :=
    fun content' h => funext fun a => Option.some.inj (congrFun h a)
  have hmoves : MovesExactly content dst src count ↔ Moves content
      (if dst = 0 ∨ src = 0 then content else copiedUpwards content dst src count.toNat) dst src
      count.toNat := by
    unfold MovesExactly
    rw [clMemmove_whole]
    constructor
    · rintro ⟨content', hrun, h⟩
      rwa [hcontent content' (Except.ok.inj hrun).symm] at h
    · exact fun h => ⟨_, rfl, h⟩
  rw [hmoves]
  by_cases hnull : dst = 0 ∨ src = 0
  · rw [if_pos hnull, if_pos hnull]
    exact ⟨fun h => h.1, fun h => ⟨h, fun _ _ => rfl⟩⟩
  · rw [if_neg hnull, if_neg hnull]
    exact moves_copiedUpwards_iff count.isLt.le

/-- The second of two different bytes is overwritten before it is read. -/
theorem not_movesExactly : ¬ ∀ (content : QWORD → BYTE) (dst src count : QWORD),
    MovesExactly content dst src count := by
  intro hall
  obtain ⟨content', hrun, hmoves, -⟩ := hall (fun a => if a = 0x1000 then 1 else 2) 0x1001 0x1000 2
  rw [clMemmove_whole] at hrun
  have hsecond := hmoves 1 (by decide)
  have hcontent := congrFun (Except.ok.inj hrun) (0x1001 + BitVec.ofNat 64 1)
  rw [← Option.some.inj hcontent] at hsecond
  exact absurd hsecond (by decide)

end HAL9000
