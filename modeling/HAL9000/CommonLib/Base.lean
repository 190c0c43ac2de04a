import Mathlib.Data.Fintype.EquivFin
import Mathlib.Data.Nat.Bitwise
import Mathlib.Tactic.Linarith

/-! Machine integers, alignment arithmetic and failure modes shared by all models.
Fixed-width C integers are bit vectors, so sums and differences wrap as they do in the source. -/
namespace HAL9000

abbrev BYTE := BitVec 8
abbrev WORD := BitVec 16
abbrev DWORD := BitVec 32
abbrev QWORD := BitVec 64

instance finite_bitVec {w : ℕ} : Finite (BitVec w) :=
  Finite.of_injective BitVec.toFin fun _ _ => BitVec.eq_of_toFin_eq

@[instance] theorem lawfulBEq_byte : LawfulBEq BYTE := inferInstance

/-- Threads are numbered; there is no bound on their number. -/
abbrev Tid := ℕ

/-- Ways in which a modelled call does not return: an `ASSERT` fires, memory outside every
live object is followed as a pointer, or a loop has not ended within its bound. -/
inductive Fault
  | assertFailed
  | danglingAccess
  | outOfFuel
  deriving DecidableEq, Repr

/-- The status codes the modelled functions return. -/
inductive Status
  | success
  | unsuccessful
  | unsupported
  | elementNotFound
  | invalidParameter1
  | invalidParameter2
  | invalidParameter3
  | invalidParameter4
  | invalidParameter5
  | invalidParameter6
  | heapTooSmall
  | heapNoMoreMemory
  | heapInsufficientResources
  | memoryCannotBeReserved
  | memoryAlreadyReserved
  | memoryIsNotReserved
  | memoryConflictingAccessRights
  | memoryConflictingCacheability
  | memoryIsNotCommited
  | memoryCannotBeCommited
  | memoryPreventsUsermodeAccess
  | memoryInsufficientAccessRights
  deriving DecidableEq, Repr

def assertThat (p : Prop) [Decidable p] : Except Fault Unit :=
  if p then .ok () else .error .assertFailed

@[simp] theorem assertThat_eq_ok {p : Prop} [Decidable p] {u : Unit} :
    assertThat p = .ok u ↔ p := by
  unfold assertThat
  split_ifs with h <;> simp [h]

theorem assertThat_of {p : Prop} [Decidable p] (h : p) : assertThat p = .ok () :=
  assertThat_eq_ok.mpr h

theorem assertThat_of_not {p : Prop} [Decidable p] (h : ¬p) :
    assertThat p = .error .assertFailed := if_neg h

/-- A sequence of calls returns exactly when each of them does. -/
theorem bind_eq_ok {ε α β : Type} {x : Except ε α} {f : α → Except ε β} {r : β} :
    (x >>= f) = .ok r ↔ ∃ a, x = .ok a ∧ f a = .ok r := by
  cases x with
  | error e => simp [bind, Except.bind]
  | ok a => simp [bind, Except.bind]

def isFlagOn (x f : DWORD) : Bool := x &&& f != 0
def isBooleanFlagOn (x f : DWORD) : Bool := x &&& f == f

def alignAddressLower (addr alig : QWORD) : QWORD := addr &&& ~~~(alig - 1)
def alignAddressUpper (addr alig : QWORD) : QWORD := alignAddressLower (addr + alig - 1) alig
def isAddressAligned (addr alig : QWORD) : Bool := addr &&& (alig - 1) == 0

/-- `CHECK_BOUNDS`: both sums are taken modulo `2 ^ 64`. -/
def checkBounds (p ps b s : QWORD) : Bool := decide (b ≤ p) && decide (p + ps ≤ b + s)

theorem checkBounds_eq_true {p ps b s : QWORD} :
    checkBounds p ps b s = true ↔ b.toNat ≤ p.toNat ∧ (p + ps).toNat ≤ (b + s).toNat := by
  rw [checkBounds, Bool.and_eq_true, decide_eq_true_eq, decide_eq_true_eq, BitVec.le_def,
    BitVec.le_def]

def pageSize : QWORD := 0x1000

def maxDword : DWORD := 0xFFFFFFFF

/-- Incrementing a machine integer that is not the greatest one. -/
theorem toNat_add_one {w : ℕ} {x : BitVec w} (h : x.toNat + 1 < 2 ^ w) :
    (x + 1).toNat = x.toNat + 1 := by
  have h1 : 1 % 2 ^ w = 1 := Nat.mod_eq_of_lt (by omega)
  rw [BitVec.toNat_add, BitVec.ofNat_eq_ofNat, BitVec.toNat_ofNat, h1, Nat.mod_eq_of_lt h]

/-- Decrementing a machine integer that is not 0. -/
theorem toNat_sub_one {w : ℕ} {x : BitVec w} (h : 0 < x.toNat) :
    (x - 1).toNat + 1 = x.toNat := by
  have hlt := x.isLt
  have hmod : 1 % 2 ^ w = 1 := Nat.mod_eq_of_lt (by omega)
  have h1 : (1 : BitVec w).toNat = 1 := by
    rw [BitVec.ofNat_eq_ofNat, BitVec.toNat_ofNat, hmod]
  have hle : (1 : BitVec w) ≤ x := by
    rw [BitVec.le_def, h1]
    exact h
  rw [BitVec.toNat_sub_of_le hle, h1]
  omega

private theorem toInt_of_small {x : QWORD} (hx : x.toNat < 2 ^ 63) : x.toInt = x.toNat :=
  BitVec.toInt_eq_toNat_of_lt (by omega)

/-- Signed comparison of two values that are not negative. -/
theorem sle_iff_toNat_le {x y : QWORD} (hx : x.toNat < 2 ^ 63) (hy : y.toNat < 2 ^ 63) :
    x.sle y = true ↔ x.toNat ≤ y.toNat := by
  rw [BitVec.sle_iff_toInt_le, toInt_of_small hx, toInt_of_small hy]
  omega

theorem slt_iff_toNat_lt {x y : QWORD} (hx : x.toNat < 2 ^ 63) (hy : y.toNat < 2 ^ 63) :
    x.slt y = true ↔ x.toNat < y.toNat := by
  rw [BitVec.slt_iff_toInt_lt, toInt_of_small hx, toInt_of_small hy]
  omega

/-- A negative value is not above one that is not negative. -/
theorem not_sle_of_negative {x y : QWORD} (hx : x.toNat < 2 ^ 63) (hy : 2 ^ 63 ≤ y.toNat) :
    x.sle y = false := by
  have hn : ¬ x.sle y = true := by
    rw [BitVec.sle_iff_toInt_le, toInt_of_small hx, BitVec.toInt_eq_toNat_cond,
      if_neg (by omega : ¬ 2 * y.toNat < 2 ^ 64)]
    have := y.isLt
    push_cast
    omega
  simpa using hn

private theorem and_pred_toNat {x alig : QWORD} {k : ℕ} (hk : alig.toNat = 2 ^ k) :
    (x &&& (alig - 1)).toNat = x.toNat % alig.toNat := by
  have hp : 0 < 2 ^ k := by positivity
  have ha : (alig - 1).toNat = 2 ^ k - 1 := by
    have h1 : 1 ≤ alig := by
      rw [BitVec.le_def, hk]
      exact hp
    rw [BitVec.toNat_sub_of_le h1, hk]
    rfl
  rw [BitVec.toNat_and, ha, Nat.and_two_pow_sub_one_eq_mod, hk]

theorem isAddressAligned_iff {addr alig : QWORD} {k : ℕ} (hk : alig.toNat = 2 ^ k) :
    isAddressAligned addr alig = true ↔ alig.toNat ∣ addr.toNat := by
  rw [isAddressAligned, beq_iff_eq, ← BitVec.toNat_inj, and_pred_toNat hk,
    Nat.dvd_iff_mod_eq_zero]
  rfl

/-- Clearing the low bits rounds down to a multiple of the alignment. -/
theorem alignAddressLower_toNat {addr alig : QWORD} {k : ℕ} (hk : alig.toNat = 2 ^ k) :
    (alignAddressLower addr alig).toNat = addr.toNat - addr.toNat % alig.toNat := by
  have hz : (addr &&& ~~~(alig - 1)) &&& (addr &&& (alig - 1)) = 0#64 := by
    ext i hi
    simp only [BitVec.getElem_and, BitVec.getElem_not, BitVec.getElem_zero]
    cases addr[i] <;> cases (alig - 1)[i] <;> rfl
  have hs : (addr &&& ~~~(alig - 1)) + (addr &&& (alig - 1)) = addr := by
    rw [BitVec.add_eq_or_of_and_eq_zero _ _ hz]
    ext i hi
    simp only [BitVec.getElem_or, BitVec.getElem_and, BitVec.getElem_not]
    cases addr[i] <;> cases (alig - 1)[i] <;> rfl
  have hn := BitVec.toNat_add_of_and_eq_zero hz
  rw [hs, and_pred_toNat hk] at hn
  unfold alignAddressLower
  lia

/-- Bytes skipped to reach the next multiple of `m`. -/
def alignPadding (a m : ℕ) : ℕ := (m - a % m) % m

theorem alignPadding_lt (a : ℕ) {m : ℕ} (hm : 0 < m) : alignPadding a m < m :=
  Nat.mod_lt _ hm

/-- The padding is the only offset below the alignment that reaches a multiple of it. -/
theorem eq_alignPadding {a m n : ℕ} (hn : n < m) (hd : m ∣ a + n) : n = alignPadding a m := by
  have hm : 0 < m := by omega
  have ha := Nat.mod_lt a hm
  have hs : (a % m + n) % m = 0 := by
    rw [Nat.mod_add_mod]
    exact Nat.mod_eq_zero_of_dvd hd
  unfold alignPadding
  by_cases hz : a % m = 0
  · rw [hz, zero_add, Nat.mod_eq_of_lt hn] at hs
    rw [hz, hs]
    simp
  · rw [Nat.mod_eq_of_lt (by omega : m - a % m < m)]
    obtain ⟨q, hq⟩ := Nat.dvd_of_mod_eq_zero hs
    have hq1 : q = 1 := by
      have h0 : q ≠ 0 := by
        intro heq
        subst heq
        omega
      have h2 : q < 2 := by
        by_contra hh
        have := Nat.mul_le_mul_left m (show 2 ≤ q by omega)
        omega
      omega
    rw [hq1] at hq
    lia

theorem dvd_add_alignPadding (a : ℕ) {m : ℕ} (hm : 0 < m) : m ∣ a + alignPadding a m := by
  have ha := Nat.mod_lt a hm
  have hle := Nat.mod_le a m
  have hd : m ∣ a - a % m := Nat.dvd_sub_mod a
  unfold alignPadding
  by_cases hz : a % m = 0
  · rw [hz]
    simpa using Nat.dvd_of_mod_eq_zero hz
  · rw [Nat.mod_eq_of_lt (by omega : m - a % m < m)]
    have he : a + (m - a % m) = (a - a % m) + m := by lia
    rw [he]
    exact Nat.dvd_add hd (Nat.dvd_refl m)

/-- Rounding up wraps to zero only when the next multiple is `2 ^ 64` itself. -/
theorem alignAddressUpper_toNat {addr alig : QWORD} {k : ℕ} (hk : alig.toNat = 2 ^ k) :
    (alignAddressUpper addr alig).toNat =
      (addr.toNat + alignPadding addr.toNat alig.toNat) % 2 ^ 64 := by
  have hp : 0 < 2 ^ k := by positivity
  have hk64 : k < 64 := by
    have hlt := alig.isLt
    rw [hk] at hlt
    exact (Nat.pow_lt_pow_iff_right (by norm_num)).mp hlt
  have hd : 2 ^ k ∣ 2 ^ 64 := pow_dvd_pow 2 hk64.le
  have hx : (addr + alig - 1).toNat = (addr.toNat + 2 ^ k - 1) % 2 ^ 64 := by
    have ha := addr.isLt
    rw [← hk]
    have h1 : (1 : QWORD).toNat = 1 := rfl
    have h2 := alig.isLt
    rw [BitVec.toNat_sub, BitVec.toNat_add, h1]
    lia
  set u := addr.toNat + 2 ^ k - 1 with hu
  have hm : u % 2 ^ 64 % 2 ^ k = u % 2 ^ k := Nat.mod_mod_of_dvd u hd
  have hlt := Nat.mod_lt u hp
  have hle := Nat.mod_le u (2 ^ k)
  have hdiv : 2 ^ k ∣ u - u % 2 ^ k := Nat.dvd_sub_mod u
  have he : addr.toNat + (u - u % 2 ^ k - addr.toNat) = u - u % 2 ^ k := by lia
  have hpad : u - u % 2 ^ k - addr.toNat = alignPadding addr.toNat (2 ^ k) :=
    eq_alignPadding (by lia) (by rwa [he])
  rw [alignAddressUpper, alignAddressLower_toNat hk, hx, hk, hm, ← hpad, he]
  obtain ⟨q, hq⟩ := hdiv
  obtain ⟨r, hr⟩ := hd
  by_cases hc : u < 2 ^ 64
  · have hs : u - u % 2 ^ k < 2 ^ 64 := by omega
    rw [Nat.mod_eq_of_lt hc, Nat.mod_eq_of_lt hs]
  · have hqr : r ≤ q := by
      by_contra hh
      have h3 : 2 ^ k * (q + 1) ≤ 2 ^ k * r := Nat.mul_le_mul_left _ (by omega)
      rw [Nat.mul_add, ← hq, ← hr] at h3
      omega
    have h4 : 2 ^ k * r ≤ 2 ^ k * q := Nat.mul_le_mul_left _ hqr
    rw [← hq, ← hr] at h4
    have h5 := addr.isLt
    have h6 := alig.isLt
    lia

end HAL9000
