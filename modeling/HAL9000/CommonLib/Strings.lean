import HAL9000.CommonLib.Base
import Mathlib.Data.List.Basic
import Mathlib.Tactic.SplitIfs

/-! The comparisons of `cl_string.c`. A `char` is signed, and a string ends at its first `'\0'`. -/
namespace HAL9000.Strings

/-- The characters of a string before its `'\0'`. -/
structure ZString where
  chars : List BYTE
  zero_notMem : 0 ∉ chars

/-- What is read at an index; the terminator follows the last character. -/
def charAt (str : List BYTE) (i : ℕ) : BYTE := str.getD i 0

def lowerUpperDiff : BYTE := 0x20

def tolower (c : BYTE) : BYTE := c ||| lowerUpperDiff

def statusInvalidParameter1 : DWORD := 0xE8000011
def statusInvalidParameter2 : DWORD := 0xE8000012
def statusInvalidParameter3 : DWORD := 0xE8000013

/-- The loop from an index on, with the number of characters that are left. -/
def strncmpLoop (fold : BYTE → BYTE) (str1 str2 : List BYTE) : ℕ → ℕ → ℤ
  | 0, _ => 0
  | n + 1, i =>
    if charAt str1 i ≠ 0 ∧ charAt str2 i ≠ 0 then
      let c1 := fold (charAt str1 i)
      let c2 := fold (charAt str2 i)
      if c2.slt c1 then 1
      else if c1.slt c2 then -1
      else strncmpLoop fold str1 str2 n (i + 1)
    else if charAt str1 i ≠ 0 then 1
    else -1

/-- `cl_strncmp` and `cl_strnicmp` differ in what they compare of a character. A pointer may be `NULL`. -/
def strncmpWith (fold : BYTE → BYTE) (str1 str2 : Option ZString) (length : DWORD) : ℤ :=
  match str1, str2 with
  | none, _ => statusInvalidParameter1.toInt
  | _, none => statusInvalidParameter2.toInt
  | some str1, some str2 =>
    if length = 0 then statusInvalidParameter3.toInt
    else strncmpLoop fold str1.chars str2.chars length.toNat 0

def clStrncmp : Option ZString → Option ZString → DWORD → ℤ := strncmpWith id

def clStrnicmp : Option ZString → Option ZString → DWORD → ℤ := strncmpWith tolower

/-- A comparison of the first `n` characters, one way and the other, follows the first difference. -/
structure Orders (r r' : ℤ) (a b : List BYTE) (n : ℕ) : Prop where
  zero : r = 0 ↔ a.take n = b.take n
  sign : ∀ i < n, (∀ j < i, charAt a j = charAt b j) → charAt a i ≠ charAt b i →
    r.sign = ((charAt a i).toInt - (charAt b i).toInt).sign
  symm : r = -r'

/-- The strings are not equal and shorter than `n`, and no character from 0x80 on stands against the end
of a string. -/
structure Comparable (a b : List BYTE) (n : ℕ) : Prop where
  long : a = b → n ≤ a.length
  left : ∀ c, a.length < n → a ++ [c] <+: b → c.toNat < 128
  right : ∀ c, b.length < n → b ++ [c] <+: a → c.toNat < 128

section Loop

variable {fold : BYTE → BYTE} {a b : List BYTE} {n : ℕ}

/-- The comparison by recursion on the strings. -/
def compareChars : ℕ → List BYTE → List BYTE → ℤ
  | 0, _, _ => 0
  | n + 1, c1 :: a, c2 :: b => if c2.slt c1 then 1 else if c1.slt c2 then -1 else compareChars n a b
  | _ + 1, _ :: _, [] => 1
  | _ + 1, [], _ => -1

theorem charAt_cons_succ (c : BYTE) (a : List BYTE) (i : ℕ) : charAt (c :: a) (i + 1) = charAt a i := rfl

theorem charAt_of_ge {i : ℕ} (h : a.length ≤ i) : charAt a i = 0 := List.getD_eq_default _ _ h

theorem charAt_ne_zero_iff (h : 0 ∉ a) {i : ℕ} : charAt a i ≠ 0 ↔ i < a.length := by
  constructor
  · intro hne
    by_contra hge
    exact hne (charAt_of_ge (Nat.not_lt.mp hge))
  · intro hlt
    unfold charAt
    rw [List.getD_eq_getElem _ _ hlt]
    exact ne_of_mem_of_not_mem (List.getElem_mem hlt) h

theorem strncmpLoop_eq (ha : 0 ∉ a) (hb : 0 ∉ b) (i : ℕ) :
    strncmpLoop fold a b n i = compareChars n ((a.drop i).map fold) ((b.drop i).map fold) := by
  induction n generalizing i with
  | zero => rfl
  | succ n ih =>
    have hca := @charAt_ne_zero_iff a ha i
    have hcb := @charAt_ne_zero_iff b hb i
    unfold strncmpLoop
    by_cases hai : i < a.length
    · rw [List.drop_eq_getElem_cons hai]
      by_cases hbi : i < b.length
      · rw [List.drop_eq_getElem_cons hbi, if_pos ⟨hca.mpr hai, hcb.mpr hbi⟩, ih]
        unfold charAt
        rw [List.getD_eq_getElem _ _ hai, List.getD_eq_getElem _ _ hbi]
        rfl
      · rw [if_neg fun h => hbi (hcb.mp h.2), if_pos (hca.mpr hai), List.drop_eq_nil_of_le (Nat.not_lt.mp hbi)]
        rfl
    · rw [if_neg fun h => hai (hca.mp h.1), if_neg fun h => hai (hca.mp h),
        List.drop_eq_nil_of_le (Nat.not_lt.mp hai)]
      cases b.drop i <;> rfl

theorem slt_antisymm {c c' : BYTE} (h : ¬c'.slt c = true) (h' : ¬c.slt c' = true) : c = c' := by
  rw [BitVec.slt_iff_toInt_lt, Int.not_lt] at h h'
  exact BitVec.eq_of_toInt_eq (le_antisymm h h')

theorem compareChars_eq_zero_iff :
    compareChars n a b = 0 ↔ a.take n = b.take n ∧ n ≤ a.length := by
  induction n generalizing a b with
  | zero => simp [compareChars]
  | succ n ih =>
    cases a with
    | nil => cases b <;> simp [compareChars]
    | cons c a =>
      cases b with
      | nil => simp [compareChars]
      | cons c' b =>
        rw [List.take_succ_cons, List.take_succ_cons, List.length_cons, Nat.succ_le_succ_iff, List.cons.injEq,
          compareChars]
        by_cases hgt : c'.slt c = true
        · rw [if_pos hgt]
          have hne : c ≠ c' := fun h => by simp [h, BitVec.slt_iff_toInt_lt] at hgt
          simp [hne]
        · by_cases hlt : c.slt c' = true
          · rw [if_neg hgt, if_pos hlt]
            have hne : c ≠ c' := fun h => by simp [h, BitVec.slt_iff_toInt_lt] at hlt
            simp [hne]
          · rw [if_neg hgt, if_neg hlt, ih, slt_antisymm hgt hlt]
            simp

/-- The result at the first difference. -/
theorem compareChars_of_first {i : ℕ} (ha : 0 ∉ a) (hb : 0 ∉ b) (hi : i < n)
    (hbefore : ∀ j < i, charAt a j = charAt b j) (hne : charAt a i ≠ charAt b i) :
    compareChars n a b =
      if a.length ≤ i then -1 else if b.length ≤ i then 1
      else ((charAt a i).toInt - (charAt b i).toInt).sign := by
  induction n generalizing a b i with
  | zero => exact absurd hi (Nat.not_lt_zero i)
  | succ n ih =>
    cases a with
    | nil => cases b <;> rfl
    | cons c a =>
      cases b with
      | nil =>
        have hzero : i = 0 := by
          by_contra hpos
          have hfirst : c = 0 := hbefore 0 (Nat.pos_of_ne_zero hpos)
          exact ha (hfirst ▸ List.mem_cons_self)
        subst hzero
        rfl
      | cons c' b =>
        rw [compareChars]
        cases i with
        | zero =>
          have hcc : c ≠ c' := hne
          rw [List.length_cons, List.length_cons, if_neg (Nat.not_succ_le_zero _),
            if_neg (Nat.not_succ_le_zero _)]
          change _ = (c.toInt - c'.toInt).sign
          by_cases hgt : c'.slt c = true
          · rw [if_pos hgt, Int.sign_eq_one_of_pos]
            rw [BitVec.slt_iff_toInt_lt] at hgt
            omega
          · by_cases hlt : c.slt c' = true
            · rw [if_neg hgt, if_pos hlt, Int.sign_eq_neg_one_of_neg]
              rw [BitVec.slt_iff_toInt_lt] at hlt
              omega
            · exact absurd (slt_antisymm hgt hlt) hcc
        | succ i =>
          have hfirst : c = c' := hbefore 0 (Nat.succ_pos i)
          have hself : ¬c'.slt c' = true := by simp [BitVec.slt_iff_toInt_lt]
          rw [hfirst, if_neg hself, if_neg hself, ih (List.not_mem_of_not_mem_cons ha)
            (List.not_mem_of_not_mem_cons hb) (Nat.lt_of_succ_lt_succ hi)
            (fun j hj => hbefore (j + 1) (Nat.succ_lt_succ hj)) hne]
          simp only [List.length_cons, Nat.succ_le_succ_iff, charAt_cons_succ]

/-- Two strings of which one is not the other one have a first difference. -/
theorem compareChars_symm_of_ne (ha : 0 ∉ a) (hb : 0 ∉ b) (h : a = b → n ≤ a.length) :
    compareChars n a b = -compareChars n b a := by
  induction n generalizing a b with
  | zero => rfl
  | succ n ih =>
    cases a with
    | nil =>
      cases b with
      | nil => exact absurd (h rfl) (Nat.not_succ_le_zero n)
      | cons c' b => rfl
    | cons c a =>
      cases b with
      | nil => rfl
      | cons c' b =>
        rw [compareChars, compareChars]
        by_cases hgt : c'.slt c = true
        · have hlt : ¬c.slt c' = true := by
            rw [BitVec.slt_iff_toInt_lt] at hgt ⊢
            omega
          rw [if_pos hgt, if_neg hlt, if_pos hgt]
          rfl
        · by_cases hlt : c.slt c' = true
          · rw [if_neg hgt, if_pos hlt, if_pos hlt]
          · rw [if_neg hgt, if_neg hlt, if_neg hlt, if_neg hgt]
            refine ih (List.not_mem_of_not_mem_cons ha) (List.not_mem_of_not_mem_cons hb) fun hab => ?_
            exact Nat.le_of_succ_le_succ (h (by rw [slt_antisymm hgt hlt, hab]))

/-- Before the first difference of two strings, neither has ended. -/
theorem first_le_length {i : ℕ} (hb : 0 ∉ b) (hbefore : ∀ j < i, charAt a j = charAt b j)
    (hne : charAt a i ≠ charAt b i) : i ≤ a.length := by
  by_contra hlt
  have hend := hbefore a.length (Nat.not_le.mp hlt)
  rw [charAt_of_ge le_rfl] at hend
  have hbend : b.length ≤ a.length := by
    by_contra hlong
    exact (charAt_ne_zero_iff hb).mpr (Nat.not_le.mp hlong) hend.symm
  exact hne ((charAt_of_ge (Nat.le_of_not_le hlt)).trans
    (charAt_of_ge (hbend.trans (Nat.le_of_not_le hlt))).symm)

/-- The first difference is at the end of the first string exactly if it is continued by the second. -/
theorem append_isPrefix_iff {c : BYTE} (hb : 0 ∉ b) (hc : c ≠ 0) : a ++ [c] <+: b ↔
    (∀ j < a.length, charAt a j = charAt b j) ∧ charAt b a.length = c := by
  constructor
  · intro h
    obtain ⟨rest, rfl⟩ := h
    refine ⟨fun j hj => ?_, ?_⟩
    · unfold charAt
      rw [List.append_assoc, List.getD_append _ _ _ _ hj]
    · unfold charAt
      rw [List.append_assoc, List.getD_append_right _ _ _ _ le_rfl, Nat.sub_self]
      rfl
  · intro h
    obtain ⟨hbefore, hlast⟩ := h
    have hlt : a.length < b.length := (charAt_ne_zero_iff hb).mp (hlast.symm ▸ hc)
    rw [List.prefix_iff_eq_take]
    refine List.ext_getElem ?_ fun j hj hj' => ?_
    · rw [List.length_take, List.length_append, List.length_singleton]
      omega
    · rw [List.getElem_take]
      rw [List.length_append, List.length_singleton] at hj
      by_cases hja : j < a.length
      · have hchar := hbefore j hja
        unfold charAt at hchar
        rw [List.getD_eq_getElem _ _ hja, List.getD_eq_getElem _ _ (hja.trans hlt)] at hchar
        rw [List.getElem_append_left hja, hchar]
      · obtain rfl : j = a.length := by omega
        unfold charAt at hlast
        rw [List.getD_eq_getElem _ _ hlt] at hlast
        simp [hlast]

end Loop

section Orders

variable {a b : List BYTE} {n : ℕ}

theorem sign_sub_toInt {c : BYTE} (hc : c ≠ 0) : c.toNat < 128 ↔ c.toInt.sign = 1 := by
  have hzero : c.toNat ≠ 0 := fun h => hc (BitVec.eq_of_toNat_eq h)
  have hlt := c.isLt
  rw [Int.sign_eq_one_iff_pos, BitVec.toInt_eq_toNat_cond]
  split_ifs <;> lia

theorem Orders.swap {r r' : ℤ} (h : Orders r r' a b n) : Orders r' r b a n := by
  have hneg : r' = -r := by rw [h.symm, neg_neg]
  refine ⟨?_, fun i hi hbefore hne => ?_, hneg⟩
  · rw [hneg, neg_eq_zero, h.zero]
    exact eq_comm
  · have hsign := h.sign i hi (fun j hj => (hbefore j hj).symm) hne.symm
    rw [hneg, Int.sign_neg, hsign, ← Int.sign_neg, neg_sub]

/-- A character that stands against the end of a string is positive. -/
theorem Orders.left {r' : ℤ} (ha : 0 ∉ a) (hb : 0 ∉ b) (h : Orders (compareChars n a b) r' a b n)
    (c : BYTE) (hlt : a.length < n) (hbefore : a ++ [c] <+: b) : c.toNat < 128 := by
  have hc : c ≠ 0 := ne_of_mem_of_not_mem (hbefore.subset (by simp)) hb
  obtain ⟨hsame, hlast⟩ := (append_isPrefix_iff hb hc).mp hbefore
  have hend : charAt a a.length = 0 := charAt_of_ge le_rfl
  have hne : charAt a a.length ≠ charAt b a.length := by
    rw [hend, hlast]
    exact hc.symm
  have hsign := h.sign a.length hlt hsame hne
  have hzero : (0 : BYTE).toInt = 0 := by decide
  rw [compareChars_of_first ha hb hlt hsame hne, if_pos le_rfl, hend, hlast, hzero, zero_sub, Int.sign_neg,
    Int.sign_neg, Int.sign_one] at hsign
  rw [sign_sub_toInt hc]
  omega

theorem Comparable.sign {i : ℕ} (h : Comparable a b n) (ha : 0 ∉ a) (hb : 0 ∉ b) (hi : i < n)
    (hbefore : ∀ j < i, charAt a j = charAt b j) (hne : charAt a i ≠ charAt b i) :
    (compareChars n a b).sign = ((charAt a i).toInt - (charAt b i).toInt).sign := by
  have hzero : (0 : BYTE).toInt = 0 := by decide
  rw [compareChars_of_first ha hb hi hbefore hne]
  by_cases hai : a.length ≤ i
  · obtain rfl : i = a.length := le_antisymm (first_le_length hb hbefore hne) hai
    have hend : charAt a a.length = 0 := charAt_of_ge le_rfl
    rw [hend] at hne
    have hpos := (sign_sub_toInt hne.symm).mp
      (h.left _ hi ((append_isPrefix_iff hb hne.symm).mpr ⟨hbefore, rfl⟩))
    rw [if_pos hai, hend, hzero, zero_sub, Int.sign_neg, Int.sign_neg, hpos]
    rfl
  · rw [if_neg hai]
    by_cases hbi : b.length ≤ i
    · obtain rfl : i = b.length :=
        le_antisymm (first_le_length ha (fun j hj => (hbefore j hj).symm) hne.symm) hbi
      have hend : charAt b b.length = 0 := charAt_of_ge le_rfl
      rw [hend] at hne
      have hpos := (sign_sub_toInt hne).mp
        (h.right _ hi ((append_isPrefix_iff ha hne).mpr ⟨fun j hj => (hbefore j hj).symm, rfl⟩))
      rw [if_pos hbi, hend, hzero, sub_zero, hpos]
      rfl
    · rw [if_neg hbi, Int.sign_sign]

/-- The comparison of two strings is an order on their first characters, but for strings that are equal
and too short, and for characters from 0x80 on that stand against the end of a string. -/
theorem compareChars_orders_iff (ha : 0 ∉ a) (hb : 0 ∉ b) :
    Orders (compareChars n a b) (compareChars n b a) a b n ↔ Comparable a b n := by
  constructor
  · intro h
    refine ⟨fun hab => ?_, h.left ha hb, h.swap.left hb ha⟩
    exact (compareChars_eq_zero_iff.mp (h.zero.mpr (by rw [hab]))).2
  · intro h
    refine ⟨?_, fun i hi hbefore hne => h.sign ha hb hi hbefore hne, compareChars_symm_of_ne ha hb h.long⟩
    rw [compareChars_eq_zero_iff, and_iff_left_iff_imp]
    intro htake
    by_contra hlt
    have hlength := congrArg List.length htake
    rw [List.length_take, List.length_take] at hlength
    rw [List.take_of_length_le (by omega), List.take_of_length_le (by omega)] at htake
    exact hlt (h.long htake)

theorem tolower_ne_zero (c : BYTE) : tolower c ≠ 0 := by
  intro h
  have hbit := congrArg (·.getLsbD 5) h
  simp [tolower, lowerUpperDiff] at hbit

theorem zero_notMem_map_tolower (str : List BYTE) : 0 ∉ str.map tolower := by
  intro h
  obtain ⟨c, -, hc⟩ := List.mem_map.mp h
  exact tolower_ne_zero c hc

variable (str1 str2 : ZString) (length : DWORD)

theorem clStrncmp_eq (h : length ≠ 0) : clStrncmp (some str1) (some str2) length =
    compareChars length.toNat str1.chars str2.chars := by
  have hloop := @strncmpLoop_eq id str1.chars str2.chars length.toNat str1.zero_notMem str2.zero_notMem 0
  rw [List.map_id, List.map_id] at hloop
  exact (if_neg h).trans hloop

theorem clStrnicmp_eq (h : length ≠ 0) : clStrnicmp (some str1) (some str2) length =
    compareChars length.toNat (str1.chars.map tolower) (str2.chars.map tolower) :=
  (if_neg h).trans (strncmpLoop_eq str1.zero_notMem str2.zero_notMem 0)

/-- `cl_strncmp` and, on what `tolower` makes of the characters, `cl_strnicmp`. -/
theorem clStrncmp_orders_iff (h : length ≠ 0) :
    (Orders (clStrncmp (some str1) (some str2) length) (clStrncmp (some str2) (some str1) length)
      str1.chars str2.chars length.toNat ↔ Comparable str1.chars str2.chars length.toNat) ∧
    (clStrncmp (some str1) (some str1) length = 0 ↔ length.toNat ≤ str1.chars.length) ∧
    (Orders (clStrnicmp (some str1) (some str2) length) (clStrnicmp (some str2) (some str1) length)
      (str1.chars.map tolower) (str2.chars.map tolower) length.toNat ↔
        Comparable (str1.chars.map tolower) (str2.chars.map tolower) length.toNat) ∧
    (clStrnicmp (some str1) (some str1) length = 0 ↔ length.toNat ≤ str1.chars.length) := by
  rw [clStrncmp_eq _ _ _ h, clStrncmp_eq _ _ _ h, clStrncmp_eq _ _ _ h, clStrnicmp_eq _ _ _ h,
    clStrnicmp_eq _ _ _ h, clStrnicmp_eq _ _ _ h, compareChars_eq_zero_iff, compareChars_eq_zero_iff,
    List.length_map, and_iff_right rfl, and_iff_right rfl]
  exact ⟨compareChars_orders_iff str1.zero_notMem str2.zero_notMem, Iff.rfl,
    compareChars_orders_iff (zero_notMem_map_tolower _) (zero_notMem_map_tolower _), Iff.rfl⟩

/-- Two strings that end together differ from themselves. -/
theorem clStrncmp_orders_a :
    Orders (clStrncmp (some ⟨[0x61], by decide⟩) (some ⟨[0x62], by decide⟩) 5)
      (clStrncmp (some ⟨[0x62], by decide⟩) (some ⟨[0x61], by decide⟩) 5) [0x61] [0x62] 5 :=
  (clStrncmp_orders_iff ⟨[0x61], by decide⟩ ⟨[0x62], by decide⟩ 5 (by decide)).1.mpr
    ⟨by decide, fun c _ h => by simp at h, fun c _ h => by simp at h⟩

theorem not_clStrncmp_self : ¬∀ (str1 str2 : ZString) (length : DWORD), length ≠ 0 →
    Orders (clStrncmp (some str1) (some str2) length) (clStrncmp (some str2) (some str1) length)
      str1.chars str2.chars length.toNat := by
  intro h
  have hself := (h ⟨[0x61], by decide⟩ ⟨[0x61], by decide⟩ 5 (by decide)).zero.mpr rfl
  exact absurd hself (by decide)

end Orders

end HAL9000.Strings
