import HAL9000.CommonLib.Strings

/-! The comparison of whole strings, `cl_strcmp` and `cl_stricmp` of `cl_string.c`. `tolower` sets a bit of
every character and not of letters only. -/
namespace HAL9000.Strings

/-- The loop from an index on. The index wraps, so that the loop does not end if the first `2 ^ 32`
characters are taken for equal. -/
def strcmpLoop (fold : BYTE → BYTE) (str1 str2 : List BYTE) : ℕ → DWORD → Except Fault ℤ
  | 0, _ => .error .outOfFuel
  | fuel + 1, i =>
    if charAt str1 i.toNat ≠ 0 ∧ charAt str2 i.toNat ≠ 0 then
      let c1 := fold (charAt str1 i.toNat)
      let c2 := fold (charAt str2 i.toNat)
      if c2.slt c1 then .ok 1
      else if c1.slt c2 then .ok (-1)
      else strcmpLoop fold str1 str2 fuel (i + 1)
    else if charAt str1 i.toNat ≠ 0 then .ok 1
    else if charAt str2 i.toNat ≠ 0 then .ok (-1)
    else .ok 0

/-- `cl_strcmp` and `cl_stricmp` differ in what they compare of a character. A pointer may be `NULL`. -/
def strcmpWith (fold : BYTE → BYTE) (str1 str2 : Option ZString) : Except Fault ℤ :=
  match str1, str2 with
  | none, _ => .ok statusInvalidParameter1.toInt
  | _, none => .ok statusInvalidParameter2.toInt
  | some str1, some str2 => strcmpLoop fold str1.chars str2.chars (2 ^ 32) 0

def clStrcmp : Option ZString → Option ZString → Except Fault ℤ := strcmpWith id

def clStricmp : Option ZString → Option ZString → Except Fault ℤ := strcmpWith tolower

def isUpper (c : BYTE) : Prop := 0x41 ≤ c.toNat ∧ c.toNat ≤ 0x5A

instance (c : BYTE) : Decidable (isUpper c) := inferInstanceAs (Decidable (_ ∧ _))

/-- Equal, or the two cases of a letter. -/
def SameLetter (c c' : BYTE) : Prop :=
  c = c' ∨ isUpper c ∧ c' = c + lowerUpperDiff ∨ isUpper c' ∧ c = c' + lowerUpperDiff

instance (c c' : BYTE) : Decidable (SameLetter c c') := inferInstanceAs (Decidable (_ ∨ _))

/-- The strings are equal but for the case of letters. -/
def EqualIgnoringCase (a b : List BYTE) : Prop :=
  a.length = b.length ∧ ∀ i < a.length, SameLetter (charAt a i) (charAt b i)

/-- Neither string has ended, and the comparison goes on. -/
def AgreeAt (fold : BYTE → BYTE) (a b : List BYTE) (i : ℕ) : Prop :=
  charAt a i ≠ 0 ∧ charAt b i ≠ 0 ∧ fold (charAt a i) = fold (charAt b i)

/-- One string has ended, or the characters differ in more than the bit that `tolower` sets. -/
def DifferAt (fold : BYTE → BYTE) (a b : List BYTE) (i : ℕ) : Prop :=
  ¬(charAt a i = 0 ∧ charAt b i = 0) ∧ ¬AgreeAt fold a b i

/-- Characters that only `tolower` takes for one. -/
def Clash (c c' : BYTE) : Prop := tolower c = tolower c' ∧ ¬SameLetter c c'

/-- The result is 0 for strings that are equal but for the case of letters, and for no others. -/
def ComparesExactly (a b : ZString) : Prop :=
  ∃ r, clStricmp (some a) (some b) = .ok r ∧ (r = 0 ↔ EqualIgnoringCase a.chars b.chars)

section Loop

variable {fold : BYTE → BYTE} {a b : List BYTE} {n fuel : ℕ}

/-- The comparison goes on to the first index at which the strings do not agree. -/
theorem strcmpLoop_skip (hagree : ∀ i < n, AgreeAt fold a b i) (hn : n ≤ 2 ^ 32) (hfuel : n ≤ fuel) :
    strcmpLoop fold a b fuel 0 = strcmpLoop fold a b (fuel - n) (BitVec.ofNat 32 n) := by
  induction n with
  | zero => rfl
  | succ n ih =>
    obtain ⟨ha, hb, hsame⟩ := hagree n (Nat.lt_succ_self n)
    have hindex : (BitVec.ofNat 32 n).toNat = n := by
      rw [BitVec.toNat_ofNat, Nat.mod_eq_of_lt (by omega)]
    have hself : ¬(fold (charAt b n)).slt (fold (charAt b n)) = true := by
      rw [BitVec.slt_iff_toInt_lt]
      exact lt_irrefl _
    rw [ih (fun i hi => hagree i (by lia)) (by omega) (by omega),
      show fuel - n = fuel - (n + 1) + 1 by lia, BitVec.ofNat_add]
    conv_lhs => unfold strcmpLoop
    rw [hindex, if_pos ⟨ha, hb⟩]
    dsimp only
    rw [hsame, if_neg hself, if_neg hself]
    rfl

/-- The round at which the strings do not agree. -/
theorem strcmpLoop_stop {i : DWORD} (hagree : ¬AgreeAt fold a b i.toNat) :
    ∃ r, strcmpLoop fold a b (fuel + 1) i = .ok r ∧
      (r = 0 ↔ charAt a i.toNat = 0 ∧ charAt b i.toNat = 0) := by
  unfold strcmpLoop
  by_cases ha : charAt a i.toNat = 0
  · rw [if_neg fun h => h.1 ha, if_neg (not_not.mpr ha)]
    by_cases hb : charAt b i.toNat = 0
    · rw [if_neg (not_not.mpr hb)]
      exact ⟨0, rfl, fun _ => ⟨ha, hb⟩, fun _ => rfl⟩
    · rw [if_pos hb]
      exact ⟨-1, rfl, fun h => absurd h (by decide), fun h => absurd h.2 hb⟩
  · have hstop : ¬(charAt a i.toNat = 0 ∧ charAt b i.toNat = 0) := fun h => ha h.1
    by_cases hb : charAt b i.toNat = 0
    · rw [if_neg fun h => h.2 hb, if_pos ha]
      exact ⟨1, rfl, fun h => absurd h (by decide), fun h => absurd h hstop⟩
    · rw [if_pos ⟨ha, hb⟩]
      dsimp only
      by_cases hgt : (fold (charAt b i.toNat)).slt (fold (charAt a i.toNat)) = true
      · rw [if_pos hgt]
        exact ⟨1, rfl, fun h => absurd h (by decide), fun h => absurd h hstop⟩
      · by_cases hlt : (fold (charAt a i.toNat)).slt (fold (charAt b i.toNat)) = true
        · rw [if_neg hgt, if_pos hlt]
          exact ⟨-1, rfl, fun h => absurd h (by decide), fun h => absurd h hstop⟩
        · exact absurd ⟨ha, hb, slt_antisymm hgt hlt⟩ hagree

/-- The whole comparison: it does not end, or it ends at the first index at which the strings do not
agree. -/
theorem strcmpLoop_cases (fold : BYTE → BYTE) (a b : List BYTE) :
    (∀ i < 2 ^ 32, AgreeAt fold a b i) ∧ strcmpLoop fold a b (2 ^ 32) 0 = .error .outOfFuel ∨
    ∃ n < 2 ^ 32, (∀ i < n, AgreeAt fold a b i) ∧ ¬AgreeAt fold a b n ∧
      ∃ r, strcmpLoop fold a b (2 ^ 32) 0 = .ok r ∧ (r = 0 ↔ charAt a n = 0 ∧ charAt b n = 0) := by
  classical
  by_cases hall : ∀ i < 2 ^ 32, AgreeAt fold a b i
  · refine Or.inl ⟨hall, (strcmpLoop_skip hall le_rfl le_rfl).trans ?_⟩
    rw [Nat.sub_self]
    rfl
  · have hex : ∃ n, n < 2 ^ 32 ∧ ¬AgreeAt fold a b n := by
      by_contra hnone
      exact hall fun i hi => not_not.mp fun hi' => hnone ⟨i, hi, hi'⟩
    obtain ⟨hn, hstop⟩ := Nat.find_spec hex
    have hbefore : ∀ i < Nat.find hex, AgreeAt fold a b i := fun i hi =>
      not_not.mp fun hi' => Nat.find_min hex hi ⟨hi.trans hn, hi'⟩
    generalize Nat.find hex = n at hn hstop hbefore
    have hindex : (BitVec.ofNat 32 n).toNat = n := by
      rw [BitVec.toNat_ofNat, Nat.mod_eq_of_lt hn]
    rw [← hindex] at hstop
    obtain ⟨r, hrun, hr⟩ := @strcmpLoop_stop fold a b (2 ^ 32 - (n + 1)) (BitVec.ofNat 32 n) hstop
    rw [hindex] at hstop hr
    refine Or.inr ⟨n, hn, hbefore, hstop, r, (strcmpLoop_skip hbefore hn.le hn.le).trans ?_, hr⟩
    rw [show 2 ^ 32 - n = 2 ^ 32 - (n + 1) + 1 by lia]
    exact hrun

end Loop

section Exact

variable {a b : List BYTE} {n : ℕ}

theorem tolower_upper : ∀ c : BYTE, isUpper c → tolower (c + lowerUpperDiff) = tolower c := by
  decide

theorem SameLetter.tolower_eq {c c' : BYTE} (h : SameLetter c c') : tolower c = tolower c' := by
  rcases h with rfl | ⟨hupper, rfl⟩ | ⟨hupper, rfl⟩
  · rfl
  · exact (tolower_upper c hupper).symm
  · exact tolower_upper c' hupper

/-- Strings that agree up to an index at which both end. -/
theorem length_of_agree (ha : 0 ∉ a) (hagree : ∀ i < n, charAt a i ≠ 0) (hend : charAt a n = 0) :
    a.length = n := by
  apply le_antisymm
  · by_contra hlt
    exact (charAt_ne_zero_iff ha).mpr (by omega) hend
  · by_contra hlt
    exact hagree a.length (by omega) (charAt_of_ge le_rfl)

end Exact

/-- The comparison is exact if the strings differ in one of the first `2 ^ 32` characters in more than the
bit, and else exactly if they are shorter and do not differ in a character that is no letter. -/
theorem comparesExactly_iff (a b : ZString) : ComparesExactly a b ↔
    (∃ i < 2 ^ 32, DifferAt tolower a.chars b.chars i) ∨
      a.chars.length < 2 ^ 32 ∧ ∀ i < a.chars.length, ¬Clash (charAt a.chars i) (charAt b.chars i) := by
  have hcall : clStricmp (some a) (some b) = strcmpLoop tolower a.chars b.chars (2 ^ 32) 0 := rfl
  unfold ComparesExactly
  rw [hcall]
  rcases strcmpLoop_cases tolower a.chars b.chars with
    ⟨hall, hrun⟩ | ⟨n, hn, hbefore, hstop, r, hrun, hr⟩
  · rw [hrun]
    refine iff_of_false ?_ ?_
    · rintro ⟨r, hok, -⟩
      cases hok
    · rintro (⟨i, hi, -, hdiffer⟩ | ⟨hlen, -⟩)
      · exact hdiffer (hall i hi)
      · exact (hall _ hlen).1 (charAt_of_ge le_rfl)
  · rw [hrun]
    have hexact : (∃ r', (.ok r : Except Fault ℤ) = .ok r' ∧
        (r' = 0 ↔ EqualIgnoringCase a.chars b.chars)) ↔
        (charAt a.chars n = 0 ∧ charAt b.chars n = 0 ↔ EqualIgnoringCase a.chars b.chars) := by
      rw [← hr]
      constructor
      · rintro ⟨r', hr', hiff⟩
        cases hr'
        exact hiff
      · exact fun hiff => ⟨r, rfl, hiff⟩
    rw [hexact]
    by_cases hend : charAt a.chars n = 0 ∧ charAt b.chars n = 0
    · have hla := length_of_agree a.zero_notMem (fun i hi => (hbefore i hi).1) hend.1
      have hlb := length_of_agree b.zero_notMem (fun i hi => (hbefore i hi).2.1) hend.2
      rw [iff_true_left hend]
      constructor
      · rintro ⟨-, hsame⟩
        exact Or.inr ⟨by omega, fun i hi hclash => hclash.2 (hsame i hi)⟩
      · rintro (⟨i, hi, hnot, hdiffer⟩ | ⟨-, hnone⟩)
        · rcases Nat.lt_or_ge i n with hlt | hge
          · exact absurd (hbefore i hlt) hdiffer
          · exact absurd ⟨charAt_of_ge (by omega), charAt_of_ge (by omega)⟩ hnot
        · refine ⟨hla.trans hlb.symm, fun i hi => ?_⟩
          by_contra hletter
          exact hnone i hi ⟨(hbefore i (by omega)).2.2, hletter⟩
    · rw [iff_false_left hend]
      refine iff_of_true ?_ (Or.inl ⟨n, hn, hend, hstop⟩)
      rintro ⟨hlen, hsame⟩
      have hlt : n < a.chars.length := by
        by_contra hge
        exact hend ⟨charAt_of_ge (by omega), charAt_of_ge (by omega)⟩
      exact hstop ⟨(charAt_ne_zero_iff a.zero_notMem).mpr hlt,
        (charAt_ne_zero_iff b.zero_notMem).mpr (by omega), (hsame n hlt).tolower_eq⟩

/-- `[` and `{` are taken for one character. -/
theorem not_comparesExactly : ¬ ∀ a b : ZString, (∀ c ∈ a.chars ++ b.chars, c.toNat < 0x80) →
    ComparesExactly a b := by
  intro hall
  obtain ⟨r, hrun, hr⟩ := hall ⟨[0x5B], by decide⟩ ⟨[0x7B], by decide⟩ (by decide)
  have hzero : clStricmp (some ⟨[0x5B], by decide⟩) (some ⟨[0x7B], by decide⟩) = .ok 0 := by
    decide +kernel
  rw [hzero] at hrun
  cases hrun
  obtain ⟨-, hsame⟩ := hr.mp rfl
  exact absurd (hsame 0 (by decide)) (by decide)

end HAL9000.Strings
