import HAL9000.CommonLib.Strings

/-! Counting and splitting at a delimiter, `cl_strcelem` and `cl_strtok_s` of `cl_string.c`. A pointer into
a string is the rest of the string from there on. -/
namespace HAL9000.Strings

/-- The index at which the loop of `cl_strchr` or `cl_strtok_s` stops: the next wanted character, or the
end of the string. It wraps, so that the loop may not end in a string of `2 ^ 32` characters or more. -/
def searchLoop (str : List BYTE) (wanted : BYTE → Bool) : ℕ → DWORD → Except Fault DWORD
  | 0, _ => .error .outOfFuel
  | fuel + 1, i =>
    if charAt str i.toNat = 0 ∨ wanted (charAt str i.toNat) then .ok i
    else searchLoop str wanted fuel (i + 1)

def search (str : List BYTE) (wanted : BYTE → Bool) : Except Fault DWORD :=
  searchLoop str wanted (2 ^ 32) 0

/-- How far the pointer that is returned lies behind `str`: `str` itself is returned if there is no `c`. -/
def clStrchr (str : List BYTE) (c : BYTE) : Except Fault DWORD := do
  let i ← search str (· == c)
  return if charAt str i.toNat = 0 then 0 else i

/-- The rounds from a position on; `string` is what `pPrevValue` points to. -/
def strcelemLoop (delimiter : BYTE) : ℕ → DWORD → List BYTE → Except Fault DWORD
  | 0, _, _ => .error .outOfFuel
  | fuel + 1, noOfElements, string => do
    let curPosition ← clStrchr string delimiter
    if curPosition ≠ 0 then
      strcelemLoop delimiter fuel (noOfElements + 1) (string.drop (curPosition.toNat + 1))
    else return noOfElements

def clStrcelem (string : Option (List BYTE)) (delimiter : BYTE) : Except Fault DWORD :=
  match string with
  | none => .ok maxDword
  | some string => strcelemLoop delimiter (string.length + 1) 1 string

/-- The token, which is ended by a `'\0'` in the place of the delimiter, and the new context. -/
def clStrtokS (strToken delimiters context : Option (List BYTE)) :
    Except Fault (Option (List BYTE × List BYTE)) :=
  match delimiters, context.or strToken with
  | none, _ | _, none => .ok none
  | some delimiters, some str => do
    if charAt str 0 = 0 then return none
    let i ← search str (· ∈ delimiters)
    return some (str.take i.toNat, str.drop (i.toNat + 1))

/-- The tokens of repeated calls with one context, up to the first `NULL`. -/
def strtokAll (delimiters : List BYTE) :
    ℕ → Option (List BYTE) → Option (List BYTE) → Except Fault (List (List BYTE))
  | 0, _, _ => .error .outOfFuel
  | fuel + 1, strToken, context => do
    match ← clStrtokS strToken (some delimiters) context with
    | none => return []
    | some (token, rest) => return token :: (← strtokAll delimiters fuel none (some rest))

/-- All tokens of a string. A call that returns a token goes on behind at least one character. -/
def tokens (delimiters string : List BYTE) : Except Fault (List (List BYTE)) :=
  strtokAll delimiters (string.length + 1) (some string) none

/-! ### Pieces between delimiters -/

/-- Without an empty piece at the end. -/
def withoutLastEmpty (pieces : List (List BYTE)) : List (List BYTE) :=
  if pieces.getLast? = some [] then pieces.dropLast else pieces

/-- The non-empty pieces at the front; the last piece does not count. -/
def leading (pieces : List (List BYTE)) : List (List BYTE) :=
  pieces.dropLast.takeWhile (· ≠ [])

/-- No empty piece, or the last two pieces only. -/
def SinglySpaced (pieces : List (List BYTE)) : Prop :=
  [] ∉ pieces ∨ ∃ words, [] ∉ words ∧ pieces = words ++ [[], []]

section Pieces

variable {piece : List BYTE} {pieces : List (List BYTE)}

theorem withoutLastEmpty_cons (h : pieces ≠ []) :
    withoutLastEmpty (piece :: pieces) = piece :: withoutLastEmpty pieces := by
  obtain ⟨next, rest, rfl⟩ := List.exists_cons_of_ne_nil h
  unfold withoutLastEmpty
  rw [List.getLast?_cons_cons, List.dropLast_cons_cons]
  split_ifs <;> rfl

theorem leading_cons (h : pieces ≠ []) :
    leading (piece :: pieces) = if piece = [] then [] else piece :: leading pieces := by
  unfold leading
  rw [List.dropLast_cons_of_ne_nil h, List.takeWhile_cons]
  by_cases hempty : piece = []
  · rw [if_pos hempty, if_neg (by simp [hempty])]
  · rw [if_neg hempty, if_pos (by simp [hempty])]

theorem withoutLastEmpty_eq_nil_iff (h : pieces ≠ []) : withoutLastEmpty pieces = [] ↔ pieces = [[]] := by
  obtain ⟨piece, rest, rfl⟩ := List.exists_cons_of_ne_nil h
  cases rest with
  | nil =>
    unfold withoutLastEmpty
    by_cases hempty : piece = []
    · simp [hempty]
    · simp [hempty]
  | cons next rest =>
    rw [withoutLastEmpty_cons (List.cons_ne_nil _ _)]
    simp

theorem singlySpaced_cons (h : pieces ≠ []) (hpiece : piece ≠ []) :
    SinglySpaced (piece :: pieces) ↔ SinglySpaced pieces := by
  unfold SinglySpaced
  rw [List.mem_cons, not_or]
  constructor
  · rintro (⟨-, hnone⟩ | ⟨words, hwords, heq⟩)
    · exact Or.inl hnone
    · cases words with
      | nil =>
        cases heq
        exact absurd rfl hpiece
      | cons word words =>
        cases heq
        exact Or.inr ⟨words, fun hmem => hwords (List.mem_cons_of_mem _ hmem), rfl⟩
  · rintro (hnone | ⟨words, hwords, rfl⟩)
    · exact Or.inl ⟨hpiece.symm, hnone⟩
    · refine Or.inr ⟨piece :: words, ?_, rfl⟩
      rw [List.mem_cons, not_or]
      exact ⟨hpiece.symm, hwords⟩

theorem singlySpaced_nil_cons : SinglySpaced ([] :: pieces) ↔ pieces = [[]] := by
  constructor
  · rintro (hnone | ⟨words, hwords, heq⟩)
    · exact absurd List.mem_cons_self hnone
    · cases words with
      | nil =>
        cases heq
        rfl
      | cons word words =>
        cases heq
        exact absurd List.mem_cons_self hwords
  · rintro rfl
    exact Or.inr ⟨[], List.not_mem_nil, rfl⟩

theorem singlySpaced_singleton : SinglySpaced [piece] ↔ piece ≠ [] := by
  constructor
  · rintro (hnone | ⟨words, -, heq⟩) rfl
    · exact hnone (List.mem_singleton_self _)
    · have hlen := congrArg List.length heq
      rw [List.length_append, List.length_singleton, List.length_cons, List.length_singleton] at hlen
      omega
  · intro hne
    exact Or.inl fun hmem => hne (List.mem_singleton.mp hmem).symm

/-- The two counts agree. -/
theorem length_withoutLastEmpty_iff (h : pieces ≠ []) :
    (withoutLastEmpty pieces).length = (leading pieces).length + 1 ↔ SinglySpaced pieces := by
  induction pieces with
  | nil => exact absurd rfl h
  | cons piece pieces ih =>
    by_cases hlast : pieces = []
    · subst hlast
      rw [singlySpaced_singleton]
      unfold withoutLastEmpty leading
      by_cases hempty : piece = []
      · simp [hempty]
      · simp [hempty]
    · rw [withoutLastEmpty_cons hlast, leading_cons hlast, List.length_cons]
      by_cases hempty : piece = []
      · rw [if_pos hempty, hempty, singlySpaced_nil_cons, ← withoutLastEmpty_eq_nil_iff hlast,
          List.length_nil, Nat.add_right_cancel_iff, List.length_eq_zero_iff]
      · rw [if_neg hempty, List.length_cons, Nat.add_right_cancel_iff, ih hlast,
          singlySpaced_cons hlast hempty]

end Pieces

/-! ### What is counted -/

section Counting

variable {string w rest : List BYTE} {c : BYTE}

theorem searchLoop_eq {wanted : BYTE → Bool} {n : ℕ} (hn : n < 2 ^ 32)
    (hstop : charAt string n = 0 ∨ wanted (charAt string n))
    (hbefore : ∀ j < n, ¬(charAt string j = 0 ∨ wanted (charAt string j))) (m : ℕ) :
    ∀ i fuel, i + m = n → m < fuel →
      searchLoop string wanted fuel (BitVec.ofNat 32 i) = .ok (BitVec.ofNat 32 n) := by
  induction m with
  | zero =>
    rintro i (_ | fuel) hi hfuel
    · cases hfuel
    · have hindex : (BitVec.ofNat 32 i).toNat = i := by
        rw [BitVec.toNat_ofNat, Nat.mod_eq_of_lt (by omega)]
      unfold searchLoop
      obtain rfl : i = n := by omega
      rw [hindex, if_pos hstop]
  | succ m ih =>
    rintro i (_ | fuel) hi hfuel
    · cases hfuel
    · have hindex : (BitVec.ofNat 32 i).toNat = i := by
        rw [BitVec.toNat_ofNat, Nat.mod_eq_of_lt (by lia)]
      unfold searchLoop
      rw [hindex, if_neg (hbefore i (by omega)), ← ih (i + 1) fuel (by omega) (by omega), BitVec.ofNat_add]
      rfl

theorem search_eq {wanted : BYTE → Bool} {n : ℕ} (hn : n < 2 ^ 32)
    (hstop : charAt string n = 0 ∨ wanted (charAt string n))
    (hbefore : ∀ j < n, ¬(charAt string j = 0 ∨ wanted (charAt string j))) :
    search string wanted = .ok (BitVec.ofNat 32 n) :=
  searchLoop_eq hn hstop hbefore n 0 (2 ^ 32) (Nat.zero_add n) hn

theorem charAt_append_of_lt {i : ℕ} (h : i < w.length) : charAt (w ++ rest) i = charAt w i :=
  List.getD_append _ _ _ _ h

theorem charAt_append_cons : charAt (w ++ c :: rest) w.length = c := by
  unfold charAt
  rw [List.getD_append_right _ _ _ _ le_rfl, Nat.sub_self]
  rfl

/-- A search goes on over a piece without the wanted characters. -/
theorem not_stopped {wanted : BYTE → Bool} (hw : ∀ x ∈ w, x ≠ 0 ∧ wanted x = false) {j : ℕ}
    (hj : j < w.length) : ¬(charAt (w ++ rest) j = 0 ∨ wanted (charAt (w ++ rest) j)) := by
  rw [charAt_append_of_lt hj]
  unfold charAt
  rw [List.getD_eq_getElem _ _ hj]
  obtain ⟨hne, hnot⟩ := hw _ (List.getElem_mem hj)
  rintro (hzero | hwanted)
  · exact hne hzero
  · rw [hnot] at hwanted
    cases hwanted

theorem search_append {wanted : BYTE → Bool} (hw : ∀ x ∈ w, x ≠ 0 ∧ wanted x = false)
    (hc : wanted c) (hlen : w.length < 2 ^ 32) :
    search (w ++ c :: rest) wanted = .ok (BitVec.ofNat 32 w.length) := by
  refine search_eq hlen ?_ fun j hj => not_stopped hw hj
  rw [charAt_append_cons]
  exact Or.inr hc

theorem search_end {wanted : BYTE → Bool} (hw : ∀ x ∈ w, x ≠ 0 ∧ wanted x = false)
    (hlen : w.length < 2 ^ 32) : search w wanted = .ok (BitVec.ofNat 32 w.length) := by
  refine search_eq hlen (Or.inl (charAt_of_ge le_rfl)) fun j hj => ?_
  have hnot := @not_stopped w [] wanted hw j hj
  rwa [List.append_nil] at hnot

/-- The characters of a piece are not the end and not the delimiter. -/
theorem piece_chars (hzero : 0 ∉ w) (hc : c ∉ w) {wanted : BYTE → Bool}
    (hwanted : ∀ x, wanted x = true ↔ x = c) : ∀ x ∈ w, x ≠ 0 ∧ wanted x = false := by
  intro x hx
  refine ⟨ne_of_mem_of_not_mem hx hzero, ?_⟩
  rw [Bool.eq_false_iff, ne_eq, hwanted]
  exact ne_of_mem_of_not_mem hx hc

theorem ofNat_toNat_of_lt {n : ℕ} (h : n < 2 ^ 32) : (BitVec.ofNat 32 n).toNat = n := by
  rw [BitVec.toNat_ofNat, Nat.mod_eq_of_lt h]

theorem clStrchr_append (hzero : 0 ∉ w) (hcw : c ∉ w) (hc : c ≠ 0) (hlen : w.length < 2 ^ 32) :
    clStrchr (w ++ c :: rest) c = .ok (BitVec.ofNat 32 w.length) := by
  unfold clStrchr
  rw [search_append (piece_chars hzero hcw fun x => beq_iff_eq) (beq_self_eq_true c) hlen]
  change Except.ok (if charAt (w ++ c :: rest) (BitVec.ofNat 32 w.length).toNat = 0 then 0 else _) = _
  rw [ofNat_toNat_of_lt hlen, charAt_append_cons, if_neg hc]

theorem clStrchr_of_notMem (hzero : 0 ∉ w) (hcw : c ∉ w) (hlen : w.length < 2 ^ 32) :
    clStrchr w c = .ok 0 := by
  unfold clStrchr
  rw [search_end (piece_chars hzero hcw fun x => beq_iff_eq) hlen]
  change Except.ok (if charAt w (BitVec.ofNat 32 w.length).toNat = 0 then 0 else _) = _
  rw [ofNat_toNat_of_lt hlen, if_pos (charAt_of_ge le_rfl)]

/-- A string without the delimiter, or its first piece with what follows. -/
theorem splitOn_cases (string : List BYTE) (c : BYTE) :
    (c ∉ string ∧ string.splitOn c = [string]) ∨
    ∃ w rest, string = w ++ c :: rest ∧ c ∉ w ∧ string.splitOn c = w :: rest.splitOn c := by
  by_cases hmem : c ∈ string
  · obtain ⟨w, rest, rfl, hw⟩ := List.eq_append_cons_of_mem hmem
    exact Or.inr ⟨w, rest, rfl, hw, List.splitOn_append_cons_self_of_not_mem hw rest⟩
  · exact Or.inl ⟨hmem, List.splitOn_eq_singleton hmem⟩

theorem strcelemLoop_of_strchr {fuel : ℕ} {n i : DWORD} (hrun : clStrchr string c = .ok i) :
    strcelemLoop c (fuel + 1) n string =
      if i ≠ 0 then strcelemLoop c fuel (n + 1) (string.drop (i.toNat + 1)) else .ok n := by
  change (clStrchr string c >>= _) = _
  rw [hrun]
  rfl

theorem drop_piece : (w ++ c :: rest).drop (w.length + 1) = rest :=
  List.drop_length_add_append 1

theorem length_leading_le (string : List BYTE) (c : BYTE) :
    (leading (string.splitOn c)).length ≤ string.length := by
  rcases splitOn_cases string c with ⟨-, hsplit⟩ | ⟨w, rest, heq, -, hsplit⟩
  · rw [hsplit]
    exact Nat.zero_le _
  · have hlen : string.length = w.length + (rest.length + 1) := by
      rw [heq, List.length_append, List.length_cons]
    have ih := length_leading_le rest c
    rw [hsplit, leading_cons (List.splitOn_ne_nil c rest)]
    split_ifs
    · exact Nat.zero_le _
    · rw [List.length_cons]
      omega
termination_by string.length
decreasing_by omega

/-- The count goes up to the first empty piece. -/
theorem strcelemLoop_eq (hc : c ≠ 0) {fuel : ℕ} (hzero : 0 ∉ string) (hlen : string.length < 2 ^ 32)
    (hfuel : string.length < fuel) (n : DWORD) :
    strcelemLoop c fuel n string = .ok (n + BitVec.ofNat 32 (leading (string.splitOn c)).length) := by
  induction fuel generalizing string n with
  | zero => exact absurd hfuel (Nat.not_lt_zero _)
  | succ fuel ih =>
    rcases splitOn_cases string c with ⟨hnone, hsplit⟩ | ⟨w, rest, rfl, hw, hsplit⟩
    · rw [hsplit, strcelemLoop_of_strchr (clStrchr_of_notMem hzero hnone hlen), if_neg (not_not.mpr rfl)]
      exact congrArg Except.ok (BitVec.add_zero n).symm
    · rw [List.length_append, List.length_cons] at hlen hfuel
      rw [List.mem_append, List.mem_cons, not_or, not_or] at hzero
      obtain ⟨hzero, -, hrest⟩ := hzero
      rw [hsplit, leading_cons (List.splitOn_ne_nil c rest),
        strcelemLoop_of_strchr (clStrchr_append hzero hw hc (by omega))]
      by_cases hempty : w = []
      · subst hempty
        rw [if_pos rfl]
        exact congrArg Except.ok (BitVec.add_zero n).symm
      · have hne : BitVec.ofNat 32 w.length ≠ 0 := by
          intro heq
          have hnat := congrArg BitVec.toNat heq
          rw [ofNat_toNat_of_lt (by omega)] at hnat
          exact hempty (List.length_eq_zero_iff.mp hnat)
        rw [if_pos hne, if_neg hempty, ofNat_toNat_of_lt (by omega), drop_piece,
          ih hrest (by omega) (by omega) (n + 1), List.length_cons, Nat.add_comm _ 1, BitVec.ofNat_add,
          ← BitVec.add_assoc]
        rfl

theorem clStrcelem_eq (hc : c ≠ 0) (hzero : 0 ∉ string) (hlen : string.length < 2 ^ 32) :
    clStrcelem (some string) c = .ok (BitVec.ofNat 32 ((leading (string.splitOn c)).length + 1)) := by
  rw [Nat.add_comm, BitVec.ofNat_add]
  exact strcelemLoop_eq hc hzero hlen (Nat.lt_succ_self _) 1

/-! ### What is split off -/

theorem clStrtokS_context {strToken : Option (List BYTE)} :
    clStrtokS strToken (some [c]) (some string) = clStrtokS (some string) (some [c]) none := by
  cases strToken <;> rfl

theorem clStrtokS_nil : clStrtokS (some []) (some [c]) none = .ok none := rfl

theorem clStrtokS_of_ne_nil {i : DWORD} (hzero : 0 ∉ string) (hne : string ≠ [])
    (hrun : search string (· ∈ [c]) = .ok i) :
    clStrtokS (some string) (some [c]) none =
      .ok (some (string.take i.toNat, string.drop (i.toNat + 1))) := by
  have hfirst : charAt string 0 ≠ 0 :=
    (charAt_ne_zero_iff hzero).mpr (List.length_pos_iff.mpr hne)
  change (if charAt string 0 = 0 then _ else search string (· ∈ [c]) >>= _) = _
  rw [if_neg hfirst, hrun]
  rfl

theorem clStrtokS_append (hzero : 0 ∉ w ++ c :: rest) (hcw : c ∉ w) (hlen : w.length < 2 ^ 32) :
    clStrtokS (some (w ++ c :: rest)) (some [c]) none = .ok (some (w, rest)) := by
  have hw : 0 ∉ w := fun h => hzero (List.mem_append_left _ h)
  have hrun := @search_append w rest c (· ∈ [c]) (piece_chars hw hcw fun x => by simp) (by simp) hlen
  rw [clStrtokS_of_ne_nil hzero (by simp) hrun, ofNat_toNat_of_lt hlen, drop_piece, List.take_left]

theorem clStrtokS_last (hzero : 0 ∉ w) (hcw : c ∉ w) (hne : w ≠ []) (hlen : w.length < 2 ^ 32) :
    clStrtokS (some w) (some [c]) none = .ok (some (w, [])) := by
  have hrun := @search_end w (· ∈ [c]) (piece_chars hzero hcw fun x => by simp) hlen
  rw [clStrtokS_of_ne_nil hzero hne hrun, ofNat_toNat_of_lt hlen, List.take_length,
    List.drop_eq_nil_of_le (Nat.le_succ _)]

theorem strtokAll_of_none {fuel : ℕ} {strToken context : Option (List BYTE)}
    (hrun : clStrtokS strToken (some [c]) context = .ok none) :
    strtokAll [c] (fuel + 1) strToken context = .ok [] := by
  change (clStrtokS strToken (some [c]) context >>= _) = _
  rw [hrun]
  rfl

theorem strtokAll_of_some {fuel : ℕ} {strToken context : Option (List BYTE)} {token : List BYTE}
    {found : List (List BYTE)} (hrun : clStrtokS strToken (some [c]) context = .ok (some (token, rest)))
    (hrest : strtokAll [c] fuel none (some rest) = .ok found) :
    strtokAll [c] (fuel + 1) strToken context = .ok (token :: found) := by
  change (clStrtokS strToken (some [c]) context >>= _) = _
  rw [hrun]
  change (strtokAll [c] fuel none (some rest) >>= _) = _
  rw [hrest]
  rfl

/-- The tokens from a context on. -/
theorem strtokAll_eq {fuel : ℕ} (hzero : 0 ∉ string) (hlen : string.length < 2 ^ 32)
    (hfuel : string.length < fuel) :
    strtokAll [c] fuel none (some string) = .ok (withoutLastEmpty (string.splitOn c)) := by
  induction fuel generalizing string with
  | zero => exact absurd hfuel (Nat.not_lt_zero _)
  | succ fuel ih =>
    rcases splitOn_cases string c with ⟨hnone, hsplit⟩ | ⟨w, rest, rfl, hw, hsplit⟩
    · rw [hsplit]
      by_cases hempty : string = []
      · subst hempty
        exact strtokAll_of_none rfl
      · have hpos := List.length_pos_iff.mpr hempty
        have hend := @ih [] List.not_mem_nil (by simp) (by simp; omega)
        rw [strtokAll_of_some (clStrtokS_context.trans (clStrtokS_last hzero hnone hempty hlen)) hend]
        simp [withoutLastEmpty, hempty]
    · have hrest : 0 ∉ rest := fun h => hzero (List.mem_append_right _ (List.mem_cons_of_mem _ h))
      rw [List.length_append, List.length_cons] at hlen hfuel
      rw [hsplit, withoutLastEmpty_cons (List.splitOn_ne_nil c rest)]
      exact strtokAll_of_some (clStrtokS_context.trans (clStrtokS_append hzero hw (by omega)))
        (ih hrest (by omega) (by omega))

theorem tokens_eq (hzero : 0 ∉ string) (hlen : string.length < 2 ^ 32) :
    tokens [c] string = .ok (withoutLastEmpty (string.splitOn c)) := by
  have hfound := @strtokAll_eq string c _ hzero hlen (Nat.lt_succ_self _)
  unfold tokens
  unfold strtokAll at hfound ⊢
  rwa [clStrtokS_context] at hfound

end Counting

end HAL9000.Strings
