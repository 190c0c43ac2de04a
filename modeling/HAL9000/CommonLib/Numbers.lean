import HAL9000.CommonLib.Strings
import Mathlib.Data.Nat.Digits.Defs

/-! Numbers and their digits in `strutils.c`. The digits of a number are those of `Nat.digits`, the last
one first; `itoa` reverses them in its buffer. -/
namespace HAL9000.Strings

/-- The bytes at the two places are exchanged with three exclusive ors. -/
def swap (buffer : List BYTE) (i j : ℕ) : List BYTE :=
  let buffer := buffer.set i (charAt buffer i ^^^ charAt buffer j)
  let buffer := buffer.set j (charAt buffer j ^^^ charAt buffer i)
  buffer.set i (charAt buffer i ^^^ charAt buffer j)

/-- The loop that reverses a string, with the number of exchanges that are left. -/
def reverseLoop : ℕ → ℕ → List BYTE → List BYTE
  | 0, _, buffer => buffer
  | n + 1, i, buffer => reverseLoop n (i + 1) (swap buffer i (buffer.length - i - 1))

/-- A digit is an `int`. -/
def digitChar (digit : DWORD) : BYTE :=
  if (9 : DWORD).slt digit then (digit - 10).setWidth 8 + 0x41 else digit.setWidth 8 + 0x30

/-- The loop over the digits, the last one first. It does not end in base 1. -/
def digitLoop (base : QWORD) : ℕ → QWORD → Except Fault (List BYTE)
  | 0, value => if value = 0 then .ok [] else .error .outOfFuel
  | n + 1, value =>
    if value = 0 then .ok []
    else do
      let digits ← digitLoop base n (value / base)
      return digitChar ((value % base).setWidth 32) :: digits

/-- Whether there is a sign, and the number without it; the negative of an `INT32` is an `int`. -/
def itoaMagnitude (value : QWORD) (signedValue is64BitValue : Bool) : Bool × QWORD :=
  if is64BitValue then
    if signedValue && value.msb then (true, -value) else (false, value)
  else
    if signedValue && (value.setWidth 32).msb then (true, (-value.setWidth 32).signExtend 64)
    else (false, (value.setWidth 32).setWidth 64)

/-- No number has more than 64 digits. -/
def itoaDigits (base : DWORD) (value : QWORD) : Except Fault (List BYTE) :=
  if value = 0 then .ok [0x30] else digitLoop (base.setWidth 64) 64 value

/-- The string that is left in the buffer. -/
def itoa (value : QWORD) (signedValue : Bool) (base : DWORD) (is64BitValue : Bool) :
    Except Fault (List BYTE) := do
  assertThat (0 ≠ base)
  let (negative, value) := itoaMagnitude value signedValue is64BitValue
  let digits ← itoaDigits base value
  let buffer := if negative then digits ++ [0x2D] else digits
  return reverseLoop (buffer.length / 2) 0 buffer

/-- `isascii`, of a signed character. -/
def isAscii (c : BYTE) : Bool := (0x1F : BYTE).slt c

/-- The characters from `'0'` to `'9'`, from `'a'` to `'z'`, or any other one. -/
def charValue (c : BYTE) : BYTE :=
  let c := tolower c
  if (0x30 : BYTE).sle c && c.sle 0x39 then c - 0x30
  else if (0x61 : BYTE).sle c && c.sle 0x7A then c - 0x61 + 10
  else 0xFF

def atoiLoop (base : DWORD) : List BYTE → QWORD → Except Fault QWORD
  | [], value => .ok value
  | c :: buffer, value => do
    assertThat (isAscii c)
    assertThat ((charValue c).setWidth 32 < base)
    atoiLoop base buffer (value * base.setWidth 64 + (charValue c).setWidth 64)

/-- The bits that are stored, 64 or 32 of them. -/
def atoi (buffer : List BYTE) (base : DWORD) (is64BitValue : Bool) : Except Fault QWORD := do
  assertThat (0 ≠ base)
  let negative := charAt buffer 0 = 0x2D
  let value ← atoiLoop base (if negative then buffer.tail else buffer) 0
  let value := if negative then -value else value
  if is64BitValue then return value
  else
    assertThat (negative ∨ value ≤ (maxDword.setWidth 64))
    return (value.setWidth 32).setWidth 64

/-- A number in a base. -/
def numeral (base n : ℕ) : List BYTE :=
  if n = 0 then [0x30] else ((Nat.digits base n).map fun k => digitChar (BitVec.ofNat 32 k)).reverse

section Reversing

variable {buffer : List BYTE} {i j : ℕ}

theorem charAt_set (k : ℕ) (c : BYTE) (h : i < buffer.length) :
    charAt (buffer.set i c) k = if k = i then c else charAt buffer k := by
  unfold charAt
  rw [List.getD_eq_getElem?_getD, List.getElem?_set, List.getD_eq_getElem?_getD]
  by_cases hk : k = i
  · rw [if_pos hk, if_pos hk.symm, if_pos h]
    rfl
  · rw [if_neg hk, if_neg (Ne.symm hk)]

theorem length_swap (buffer : List BYTE) (i j : ℕ) : (swap buffer i j).length = buffer.length := by
  unfold swap
  rw [List.length_set, List.length_set, List.length_set]

theorem charAt_swap (hi : i < buffer.length) (hj : j < buffer.length) (hij : i ≠ j) (k : ℕ) :
    charAt (swap buffer i j) k =
      if k = i then charAt buffer j else if k = j then charAt buffer i else charAt buffer k := by
  unfold swap
  dsimp only
  generalize hx : charAt buffer i = x
  generalize hy : charAt buffer j = y
  have hfirst : ∀ k, charAt (buffer.set i (x ^^^ y)) k = if k = i then x ^^^ y else charAt buffer k :=
    fun k => charAt_set k _ hi
  have hvalue : y ^^^ (x ^^^ y) = x := by
    rw [BitVec.xor_comm x y, ← BitVec.xor_assoc, BitVec.xor_self, BitVec.zero_xor]
  have hlast : (x ^^^ y) ^^^ x = y := by
    rw [BitVec.xor_comm x y, BitVec.xor_assoc, BitVec.xor_self, BitVec.xor_zero]
  rw [hfirst j, hfirst i, if_neg hij.symm, if_pos rfl, hy, hvalue]
  have hsecond : ∀ k, charAt ((buffer.set i (x ^^^ y)).set j x) k =
      if k = j then x else if k = i then x ^^^ y else charAt buffer k := by
    intro k
    rw [charAt_set k _ (by simpa using hj), hfirst]
  rw [hsecond i, hsecond j, if_neg hij, if_pos rfl, if_pos rfl, hlast, charAt_set k _ (by simpa using hi),
    hsecond]
  by_cases hki : k = i
  · rw [if_pos hki, if_pos hki]
  · rw [if_neg hki, if_neg hki, if_neg hki]

/-- The outer characters have been exchanged, and the inner ones are exchanged by the loop. -/
theorem charAt_reverseLoop (n : ℕ) (h : 2 * (i + n) ≤ buffer.length) (k : ℕ) :
    charAt (reverseLoop n i buffer) k =
      if i ≤ k ∧ k < i + n ∨ buffer.length < k + i + n + 1 ∧ k + i < buffer.length then
        charAt buffer (buffer.length - k - 1)
      else charAt buffer k := by
  induction n generalizing i buffer with
  | zero => rw [if_neg (by omega)]; rfl
  | succ n ih =>
    have hswap := @charAt_swap buffer i (buffer.length - i - 1) (by omega) (by omega) (by omega)
    have hlength := length_swap buffer i (buffer.length - i - 1)
    rw [reverseLoop, ih (by rw [hlength]; omega), hlength, hswap, hswap]
    by_cases hk : k = i ∨ k = buffer.length - i - 1
    · rcases hk with rfl | rfl
      · rw [if_neg (by omega), if_pos rfl, if_pos (by lia), Nat.sub_right_comm]
      · rw [if_neg (by omega), if_neg (by lia), if_pos rfl, if_pos (by omega)]
        congr 1
        omega
    · by_cases hin : i + 1 ≤ k ∧ k < i + 1 + n ∨
          buffer.length < k + (i + 1) + n + 1 ∧ k + (i + 1) < buffer.length
      · rw [if_pos hin, if_neg (by lia), if_neg (by omega), if_pos (by omega)]
      · rw [if_neg hin, if_neg (by lia), if_neg (by lia), if_neg (by lia)]

theorem length_reverseLoop (n i : ℕ) (buffer : List BYTE) :
    (reverseLoop n i buffer).length = buffer.length := by
  induction n generalizing i buffer with
  | zero => rfl
  | succ n ih => rw [reverseLoop, ih, length_swap]

theorem ext_charAt {a b : List BYTE} (hlength : a.length = b.length)
    (h : ∀ k < a.length, charAt a k = charAt b k) : a = b := by
  refine List.ext_getElem hlength fun k ha hb => ?_
  have hk := h k ha
  unfold charAt at hk
  rwa [List.getD_eq_getElem _ _ ha, List.getD_eq_getElem _ _ hb] at hk

theorem reverseLoop_eq (buffer : List BYTE) :
    reverseLoop (buffer.length / 2) 0 buffer = buffer.reverse := by
  refine ext_charAt (by rw [length_reverseLoop, List.length_reverse]) fun k hk => ?_
  rw [length_reverseLoop] at hk
  have hreverse : charAt buffer.reverse k = charAt buffer (buffer.length - k - 1) := by
    unfold charAt
    rw [List.getD_eq_getElem _ _ (by simpa using hk), List.getD_eq_getElem _ _ (by omega),
      List.getElem_reverse]
    congr 1
    omega
  rw [charAt_reverseLoop _ (by omega), hreverse]
  by_cases hmiddle : k = buffer.length - k - 1
  · rw [← hmiddle, ite_self]
  · rw [if_pos (by lia)]

end Reversing

section Digits

variable {base : DWORD}

/-- The digits are read back. -/
theorem charValue_digitChar {k : ℕ} (hk : k < 36) :
    isAscii (digitChar (BitVec.ofNat 32 k)) = true ∧
      charValue (digitChar (BitVec.ofNat 32 k)) = BitVec.ofNat 8 k ∧
      digitChar (BitVec.ofNat 32 k) ≠ 0x2D ∧ digitChar (BitVec.ofNat 32 k) ≠ 0 := by
  have hall : ∀ k : Fin 36, isAscii (digitChar (BitVec.ofNat 32 k)) = true ∧
      charValue (digitChar (BitVec.ofNat 32 k)) = BitVec.ofNat 8 k ∧
      digitChar (BitVec.ofNat 32 k) ≠ 0x2D ∧ digitChar (BitVec.ofNat 32 k) ≠ 0 := by decide
  exact hall ⟨k, hk⟩

theorem digitLoop_eq (hbase : 1 < base.toNat) {n : ℕ} {value : QWORD} (hvalue : value.toNat < 2 ^ n) :
    digitLoop (base.setWidth 64) n value =
      .ok ((Nat.digits base.toNat value.toNat).map fun k => digitChar (BitVec.ofNat 32 k)) := by
  have hwidth : (base.setWidth 64).toNat = base.toNat := by
    rw [BitVec.toNat_setWidth]
    omega
  have hnone : (0 : QWORD).toNat = 0 := rfl
  induction n generalizing value with
  | zero =>
    have hzero : value = 0 := BitVec.eq_of_toNat_eq (by simpa using hvalue)
    rw [digitLoop, if_pos hzero, hzero, hnone, Nat.digits_zero, List.map_nil]
  | succ n ih =>
    by_cases hzero : value = 0
    · rw [digitLoop, if_pos hzero, hzero, hnone, Nat.digits_zero, List.map_nil]
    · have hpos : 0 < value.toNat := Nat.pos_of_ne_zero fun h => hzero (BitVec.eq_of_toNat_eq h)
      have hdiv : (value / base.setWidth 64).toNat = value.toNat / base.toNat := by
        rw [BitVec.toNat_udiv, hwidth]
      have hmod : (value % base.setWidth 64).setWidth 32 = BitVec.ofNat 32 (value.toNat % base.toNat) := by
        refine BitVec.eq_of_toNat_eq ?_
        rw [BitVec.toNat_setWidth, BitVec.toNat_umod, hwidth, BitVec.toNat_ofNat]
      have hlt : (value / base.setWidth 64).toNat < 2 ^ n := by
        rw [hdiv]
        refine Nat.div_lt_of_lt_mul ?_
        rw [pow_succ] at hvalue
        exact hvalue.trans_le (by rw [Nat.mul_comm]; exact Nat.mul_le_mul_right _ hbase)
      rw [digitLoop, if_neg hzero, ih hlt, Nat.digits_def' hbase hpos, List.map_cons, ← hmod, hdiv]
      rfl

/-- The digits of a number, the first one first; 0 has one digit. -/
theorem numeral_eq (hbase : 1 < base.toNat) (n : ℕ) : ∃ digits : List ℕ,
    (∀ k ∈ digits, k < base.toNat) ∧ Nat.ofDigits base.toNat digits.reverse = n ∧ digits ≠ [] ∧
      numeral base.toNat n = digits.map fun k => digitChar (BitVec.ofNat 32 k) := by
  unfold numeral
  by_cases hzero : n = 0
  · exact ⟨[0], fun k hk => by rw [List.mem_singleton.mp hk]; omega, by simp [hzero], by simp,
      by rw [if_pos hzero]; rfl⟩
  · refine ⟨(Nat.digits base.toNat n).reverse, fun k hk => ?_, ?_, ?_, ?_⟩
    · exact Nat.digits_lt_base hbase (List.mem_reverse.mp hk)
    · rw [List.reverse_reverse, Nat.ofDigits_digits]
    · rw [ne_eq, List.reverse_eq_nil_iff, Nat.digits_eq_nil_iff_eq_zero]
      exact hzero
    · rw [if_neg hzero, List.map_reverse]

/-- What `itoa` writes: the sign and the magnitude. -/
theorem itoa_eq (hbase : 1 < base.toNat) (value : QWORD) (signedValue is64BitValue : Bool) :
    itoa value signedValue base is64BitValue =
      .ok ((if (itoaMagnitude value signedValue is64BitValue).1 then [0x2D] else []) ++
        numeral base.toNat (itoaMagnitude value signedValue is64BitValue).2.toNat) := by
  have hne : (0 : DWORD) ≠ base := fun h => by
    rw [← h] at hbase
    exact absurd hbase (by decide)
  unfold itoa
  rw [assertThat_of hne]
  generalize itoaMagnitude value signedValue is64BitValue = m
  obtain ⟨negative, magnitude⟩ := m
  have hdigits : itoaDigits base magnitude = .ok (numeral base.toNat magnitude.toNat).reverse := by
    unfold itoaDigits numeral
    by_cases hzero : magnitude = 0
    · rw [if_pos hzero, if_pos (by rw [hzero]; rfl)]
      rfl
    · have hnat : magnitude.toNat ≠ 0 := fun h => hzero (BitVec.eq_of_toNat_eq h)
      rw [if_neg hzero, if_neg hnat, digitLoop_eq hbase magnitude.isLt, List.reverse_reverse]
  change (itoaDigits base magnitude >>= _) = _
  rw [hdigits]
  change Except.ok (reverseLoop _ 0 _) = _
  rw [reverseLoop_eq]
  cases negative with
  | false => exact congrArg Except.ok (List.reverse_reverse _)
  | true =>
    refine congrArg Except.ok ?_
    rw [if_pos rfl, if_pos rfl, List.reverse_append, List.reverse_reverse]
    rfl

theorem atoiLoop_eq (hbase : base.toNat ≤ 36) {digits : List ℕ} (h : ∀ k ∈ digits, k < base.toNat)
    (v : ℕ) : atoiLoop base (digits.map fun k => digitChar (BitVec.ofNat 32 k)) (BitVec.ofNat 64 v) =
      .ok (BitVec.ofNat 64 (digits.foldl (fun v k => k + base.toNat * v) v)) := by
  induction digits generalizing v with
  | nil => rfl
  | cons k digits ih =>
    obtain ⟨hk, hdigits⟩ := List.forall_mem_cons.mp h
    obtain ⟨hascii, hchar, -, -⟩ := @charValue_digitChar k (by omega)
    have hless : (charValue (digitChar (BitVec.ofNat 32 k))).setWidth 32 < base := by
      rw [hchar, BitVec.lt_def, BitVec.toNat_setWidth, BitVec.toNat_ofNat]
      lia
    have hbits : base.setWidth 64 = BitVec.ofNat 64 base.toNat := by
      rw [BitVec.ofNat_toNat]
    have hchar' : (BitVec.ofNat 8 k).setWidth 64 = BitVec.ofNat 64 k := by
      refine BitVec.eq_of_toNat_eq ?_
      rw [BitVec.toNat_setWidth, BitVec.toNat_ofNat, BitVec.toNat_ofNat]
      lia
    have hstep : BitVec.ofNat 64 v * base.setWidth 64 + (BitVec.ofNat 8 k).setWidth 64 =
        BitVec.ofNat 64 (k + base.toNat * v) := by
      rw [hchar', hbits, BitVec.ofNat_add, BitVec.ofNat_mul, BitVec.add_comm,
        BitVec.mul_comm (BitVec.ofNat 64 v)]
    rw [List.map_cons, atoiLoop, assertThat_of hascii, assertThat_of hless, hchar, hstep]
    exact ih hdigits _

/-- The digits of a number are read as the number. -/
theorem atoiLoop_numeral (hbase : 1 < base.toNat) (hle : base.toNat ≤ 36) (n : ℕ) :
    atoiLoop base (numeral base.toNat n) 0 = .ok (BitVec.ofNat 64 n) ∧
      charAt (numeral base.toNat n) 0 ≠ 0x2D := by
  obtain ⟨digits, hdigits, hvalue, hne, hnumeral⟩ := numeral_eq hbase n
  rw [hnumeral]
  constructor
  · have hloop := atoiLoop_eq hle hdigits 0
    rw [Nat.ofDigits_eq_foldr, List.foldr_reverse] at hvalue
    exact hloop.trans (congrArg (fun v => Except.ok (BitVec.ofNat 64 v)) hvalue)
  · obtain ⟨k, rest, rfl⟩ := List.exists_cons_of_ne_nil hne
    have hk := hdigits k List.mem_cons_self
    exact (@charValue_digitChar k (by omega)).2.2.1

/-- The sign and the magnitude make up the value. -/
theorem itoaMagnitude_spec (value : QWORD) (signedValue is64BitValue : Bool) :
    let m := itoaMagnitude value signedValue is64BitValue
    (is64BitValue = true → (if m.1 then -m.2 else m.2) = value) ∧
      (is64BitValue = false → (if m.1 then -m.2 else m.2).setWidth 32 = value.setWidth 32 ∧
        (m.1 = false → m.2 ≤ maxDword.setWidth 64)) := by
  cases is64BitValue with
  | true =>
    refine ⟨fun _ => ?_, fun h => nomatch h⟩
    by_cases hneg : (signedValue && value.msb) = true
    · simp [itoaMagnitude, hneg]
    · simp [itoaMagnitude, hneg]
  | false =>
    refine ⟨fun h => absurd h (by decide), fun _ => ?_⟩
    by_cases hneg : (signedValue && (value.setWidth 32).msb) = true
    · have hbits : (-(-value.setWidth 32).signExtend 64).setWidth 32 = value.setWidth 32 := by
        have hsign : ((-value.setWidth 32).signExtend 64).setWidth 32 = -value.setWidth 32 := by
          refine BitVec.eq_of_toNat_eq ?_
          rw [BitVec.toNat_setWidth, BitVec.toNat_signExtend, BitVec.toNat_setWidth]
          split_ifs <;> omega
        rw [BitVec.setWidth_neg_of_le (by decide), hsign, BitVec.neg_neg]
      simp [itoaMagnitude, hneg, hbits]
    · have hbound : (value.setWidth 32).setWidth 64 ≤ maxDword.setWidth 64 := by
        have hlt := (value.setWidth 32).isLt
        have hmax : (maxDword.setWidth 64).toNat = 2 ^ 32 - 1 := rfl
        rw [BitVec.le_def, BitVec.toNat_setWidth, hmax]
        omega
      simpa [itoaMagnitude, hneg] using hbound

/-- A sign and a numeral are read. -/
theorem atoi_numeral (hbase : 2 ≤ base.toNat) (hle : base.toNat ≤ 36) (negative : Bool)
    (magnitude : QWORD) (is64BitValue : Bool) :
    atoi ((if negative then [0x2D] else []) ++ numeral base.toNat magnitude.toNat) base is64BitValue =
      if is64BitValue then .ok (if negative then -magnitude else magnitude)
      else do
        assertThat (negative = true ∨ (if negative then -magnitude else magnitude) ≤ maxDword.setWidth 64)
        return ((if negative then -magnitude else magnitude).setWidth 32).setWidth 64 := by
  have hne : (0 : DWORD) ≠ base := fun h => by
    rw [← h] at hbase
    exact absurd hbase (by decide)
  obtain ⟨hread, hsign⟩ := atoiLoop_numeral hbase hle magnitude.toNat
  rw [BitVec.ofNat_toNat, BitVec.setWidth_eq] at hread
  unfold atoi
  rw [assertThat_of hne]
  cases negative with
  | true =>
    have hminus : charAt ([0x2D] ++ numeral base.toNat magnitude.toNat) 0 = 0x2D := rfl
    change (atoiLoop base (if charAt ([0x2D] ++ numeral base.toNat magnitude.toNat) 0 = 0x2D then _
      else _) 0 >>= _) = _
    rw [if_pos hminus]
    change (atoiLoop base (numeral base.toNat magnitude.toNat) 0 >>= _) = _
    rw [hread]
    cases is64BitValue <;> rfl
  | false =>
    change (atoiLoop base (if charAt (numeral base.toNat magnitude.toNat) 0 = 0x2D then _ else
      numeral base.toNat magnitude.toNat) 0 >>= _) = _
    rw [if_neg hsign, hread]
    cases is64BitValue with
    | true => exact congrArg Except.ok (if_neg hsign)
    | false =>
      change (assertThat (charAt (numeral base.toNat magnitude.toNat) 0 = 0x2D ∨
        (if charAt (numeral base.toNat magnitude.toNat) 0 = 0x2D then -magnitude else magnitude) ≤
          maxDword.setWidth 64) >>= fun _ => .ok (((if charAt (numeral base.toNat magnitude.toNat) 0 = 0x2D
            then -magnitude else magnitude).setWidth 32).setWidth 64)) = _
      rw [if_neg hsign]
      by_cases hbound : magnitude ≤ maxDword.setWidth 64
      · rw [assertThat_of (Or.inr hbound)]
        exact (congrArg (· >>= _) (assertThat_of (Or.inr hbound))).symm
      · rw [assertThat_of_not fun h => h.elim hsign hbound]
        exact (congrArg (· >>= _) (assertThat_of_not fun h => h.elim (by decide) hbound)).symm

/-- What `itoa` has written is read as the same bits. -/
theorem atoi_itoa (hbase : 2 ≤ base.toNat) (hle : base.toNat ≤ 36) (value : QWORD)
    (signedValue is64BitValue : Bool) :
    ∃ buffer, itoa value signedValue base is64BitValue = .ok buffer ∧
      atoi buffer base is64BitValue =
        .ok (if is64BitValue then value else (value.setWidth 32).setWidth 64) := by
  refine ⟨_, itoa_eq hbase value signedValue is64BitValue, ?_⟩
  obtain ⟨h64, h32⟩ := itoaMagnitude_spec value signedValue is64BitValue
  rw [atoi_numeral hbase hle]
  cases is64BitValue with
  | true => rw [if_pos rfl, if_pos rfl, h64 rfl]
  | false =>
    obtain ⟨hbits, hbound⟩ := h32 rfl
    have hassert : (itoaMagnitude value signedValue false).1 = true ∨
        (if (itoaMagnitude value signedValue false).1 then -(itoaMagnitude value signedValue false).2
          else (itoaMagnitude value signedValue false).2) ≤ maxDword.setWidth 64 := by
      cases hneg : (itoaMagnitude value signedValue false).1 with
      | true => exact Or.inl rfl
      | false => exact Or.inr (hbound hneg)
    rw [if_neg (by simp), assertThat_of hassert, hbits]
    rfl

theorem atoi_itoa_minimum : ∃ buffer, itoa 0x80000000 true 10 false = .ok buffer ∧
    atoi buffer 10 false = .ok 0x80000000 := atoi_itoa (by decide) (by decide) 0x80000000 true false

/-- The negative of the least `INT32` is not extended to 64 bits as a number without sign. -/
example : itoa 0x80000000 true 10 false = .ok [0x2D, 0x31, 0x38, 0x34, 0x34, 0x36, 0x37, 0x34, 0x34, 0x30,
    0x37, 0x31, 0x35, 0x36, 0x32, 0x30, 0x36, 0x37, 0x39, 0x36, 0x38] := by decide +kernel

end Digits

end HAL9000.Strings
