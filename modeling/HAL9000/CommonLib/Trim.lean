import HAL9000.CommonLib.Memory
import HAL9000.CommonLib.Strings
import Mathlib.Data.List.DropRight

/-! `cl_strtrim` of `cl_string.c`. The characters are shifted to the left by a length that is counted from
before the left trim. -/
namespace HAL9000.Strings

def isspace (c : BYTE) : Bool := c = 0x20 ∨ c = 0x09 ∨ c = 0x0A ∨ c = 0x0D

section Code

variable (m : MappedMemory) (string : QWORD)

def charAddress (i : DWORD) : QWORD := string + i.setWidth 64

/-- A loop over the characters that stops at the end of the string or at a wanted character. The index
wraps, so that it may not end in a string of `2 ^ 32` characters or more. -/
def scanLoop (wanted : BYTE → Bool) : ℕ → DWORD → Except Fault DWORD
  | 0, _ => .error .outOfFuel
  | fuel + 1, i => do
    let c ← m.read (charAddress string i)
    if c = 0 ∨ wanted c then return i
    else scanLoop wanted fuel (i + 1)

def strlenAt : Except Fault DWORD := scanLoop m string (fun _ => false) (2 ^ 32) 0

/-- The index of the first character that is no space, or `MAX_DWORD`. -/
def findStart : Except Fault DWORD := do
  let i ← scanLoop m string (fun c => !isspace c) (2 ^ 32) 0
  return if (← m.read (charAddress string i)) = 0 then maxDword else i

/-- The loop from the end of the string down to `startIndex`: `'\0'` is put behind the last character that
is no space. -/
def rightTrimLoop (startIndex lengthAfterRightTrim : DWORD) : ℕ → DWORD → Except Fault (DWORD × MappedMemory)
  | 0, _ => .error .outOfFuel
  | fuel + 1, i =>
    if startIndex < i then do
      let c ← m.read (charAddress string (i - 1))
      if !isspace c then return (i, ← m.write (charAddress string i) 0)
      else rightTrimLoop startIndex lengthAfterRightTrim fuel (i - 1)
    else return (lengthAfterRightTrim, m)

def clStrtrim : Except Fault MappedMemory := do
  assertThat (0 ≠ string)
  let startIndex ← findStart m string
  if maxDword = startIndex then m.write string 0
  else
    let length ← strlenAt m string
    let (lengthAfterRightTrim, m) ← rightTrimLoop m string startIndex length (length.toNat + 1) length
    if 0 ≠ startIndex then do
      assertThat (lengthAfterRightTrim ≠ 0)
      clMemmove m string (charAddress string startIndex) (lengthAfterRightTrim.setWidth 64)
    else return m

end Code

/-- The string without the spaces at its ends. -/
def trimmed (s : List BYTE) : List BYTE := (s.dropWhile isspace).rdropWhile isspace

def leadingSpaces (s : List BYTE) : ℕ := (s.takeWhile isspace).length

def trailingSpaces (s : List BYTE) : ℕ := (s.rtakeWhile isspace).length

/-- The bytes from the start of a buffer on are a string with its terminator. -/
def HoldsString (content : ℕ → BYTE) (s : List BYTE) : Prop := ∀ i ≤ s.length, content i = charAt s i

/-- A string is trimmed in place, and no byte behind its terminator is accessed; a second call leaves the
string as it is. -/
def Trims (string : QWORD) (s : List BYTE) : Prop :=
  ∃ content, clStrtrim (.window string (s.length + 1) (charAt s)) string =
      .ok (.window string (s.length + 1) content) ∧ HoldsString content (trimmed s) ∧
    ∃ content', clStrtrim (.window string (s.length + 1) content) string =
      .ok (.window string (s.length + 1) content') ∧ HoldsString content' (trimmed s)

/-! ### Spaces -/

/-- A string with a character that is no space, and the spaces around its middle. -/
structure Around (s lead core trail : List BYTE) : Prop where
  eq : s = lead ++ (core ++ trail)
  lead : ∀ c ∈ lead, isspace c = true
  trail : ∀ c ∈ trail, isspace c = true
  first : ∃ c rest, core = c :: rest ∧ isspace c = false
  last : ∃ rest c, core = rest ++ [c] ∧ isspace c = false

section Spaces

variable {s lead core trail : List BYTE}

theorem around_of_exists (h : ∃ c ∈ s, isspace c = false) : ∃ lead core trail, Around s lead core trail := by
  obtain ⟨c, hc, hspace⟩ := h
  have hne : s.dropWhile isspace ≠ [] := by
    intro hnil
    rw [List.dropWhile_eq_nil_iff] at hnil
    rw [hnil c hc] at hspace
    cases hspace
  have hhead : ∀ c rest, s.dropWhile isspace = c :: rest → isspace c = false := by
    intro c rest heq
    have hnot := List.head_dropWhile_not isspace hne
    simpa [heq] using hnot
  have hcore : (s.dropWhile isspace).rdropWhile isspace ≠ [] := by
    intro hnil
    rw [List.rdropWhile_eq_nil_iff] at hnil
    obtain ⟨c, rest, heq⟩ := List.exists_cons_of_ne_nil hne
    have hspace := hnil c (heq ▸ List.mem_cons_self)
    rw [hhead c rest heq] at hspace
    cases hspace
  refine ⟨s.takeWhile isspace, (s.dropWhile isspace).rdropWhile isspace,
    (s.dropWhile isspace).rtakeWhile isspace, ?_, fun c hc => List.mem_takeWhile_imp hc,
    fun c hc => List.mem_rtakeWhile_imp hc, ?_, ?_⟩
  · rw [List.rdropWhile_append_rtakeWhile, List.takeWhile_append_dropWhile]
  · obtain ⟨c, rest, heq⟩ := List.exists_cons_of_ne_nil hcore
    obtain ⟨tail, htail⟩ := List.rdropWhile_prefix isspace (s.dropWhile isspace)
    refine ⟨c, rest, heq, hhead c (rest ++ tail) ?_⟩
    rw [← htail, heq]
    rfl
  · refine ⟨_, _, (List.dropLast_append_getLast hcore).symm, ?_⟩
    have hnot := List.rdropWhile_last_not isspace _ hcore
    rwa [Bool.not_eq_true] at hnot

theorem takeWhile_core (h : Around s lead core trail) (rest : List BYTE) :
    (core ++ rest).takeWhile isspace = [] ∧ (core ++ rest).dropWhile isspace = core ++ rest := by
  obtain ⟨c, xs, rfl, hc⟩ := h.first
  have hnot : ¬isspace c = true := Bool.eq_false_iff.mp hc
  exact ⟨List.takeWhile_cons_of_neg hnot, List.dropWhile_cons_of_neg hnot⟩

theorem takeWhile_core_reverse (h : Around s lead core trail) (rest : List BYTE) :
    (core.reverse ++ rest).takeWhile isspace = [] ∧
      (core.reverse ++ rest).dropWhile isspace = core.reverse ++ rest := by
  obtain ⟨xs, c, rfl, hc⟩ := h.last
  have hnot : ¬isspace c = true := Bool.eq_false_iff.mp hc
  rw [List.reverse_append]
  exact ⟨List.takeWhile_cons_of_neg hnot, List.dropWhile_cons_of_neg hnot⟩

theorem Around.trimmed_eq (h : Around s lead core trail) : trimmed s = core := by
  unfold trimmed List.rdropWhile
  rw [h.eq, List.dropWhile_append_of_pos h.lead, (takeWhile_core h trail).2, List.reverse_append,
    List.dropWhile_append_of_pos fun c hc => h.trail c (List.mem_reverse.mp hc)]
  have hcore := (takeWhile_core_reverse h []).2
  rw [List.append_nil] at hcore
  rw [hcore, List.reverse_reverse]

theorem Around.leadingSpaces_eq (h : Around s lead core trail) : leadingSpaces s = lead.length := by
  unfold leadingSpaces
  rw [h.eq, List.takeWhile_append_of_pos h.lead, (takeWhile_core h trail).1, List.append_nil]

theorem Around.trailingSpaces_eq (h : Around s lead core trail) : trailingSpaces s = trail.length := by
  unfold trailingSpaces List.rtakeWhile
  rw [h.eq, List.reverse_append, List.reverse_append, List.append_assoc,
    List.takeWhile_append_of_pos fun c hc => h.trail c (List.mem_reverse.mp hc),
    (takeWhile_core_reverse h _).1, List.append_nil, List.reverse_reverse]

theorem trimmed_of_spaces (h : ∀ c ∈ s, isspace c = true) : trimmed s = [] := by
  unfold trimmed
  rw [List.dropWhile_eq_nil_iff.mpr h]
  rfl

end Spaces

/-! ### The loops -/

section Loops

variable {base : QWORD} {size : ℕ} {content : ℕ → BYTE} {wanted : BYTE → Bool} {n fuel : ℕ}

theorem charAddress_ofNat {i : ℕ} (hi : i < 2 ^ 32) :
    charAddress base (BitVec.ofNat 32 i) = base + BitVec.ofNat 64 i := by
  unfold charAddress
  congr 1
  apply BitVec.eq_of_toNat_eq
  rw [BitVec.toNat_setWidth, BitVec.toNat_ofNat, BitVec.toNat_ofNat]
  lia

theorem read_char {i : ℕ} (hi : i < 2 ^ 32) (hin : i < size) (hsize : size ≤ 2 ^ 64) :
    (MappedMemory.window base size content).read (charAddress base (BitVec.ofNat 32 i)) = .ok (content i) := by
  rw [charAddress_ofNat hi, MappedMemory.read_window hin hsize]

theorem write_char {i : ℕ} {b : BYTE} (hi : i < 2 ^ 32) (hin : i < size) (hsize : size ≤ 2 ^ 64) :
    (MappedMemory.window base size content).write (charAddress base (BitVec.ofNat 32 i)) b =
      .ok (.window base size (Function.update content i b)) := by
  rw [charAddress_ofNat hi, MappedMemory.write_window hin hsize]

/-- A scan goes on over the characters that are not wanted. -/
theorem scanLoop_skip (hsize : size ≤ 2 ^ 64) (hpass : ∀ i < n, i < size ∧ content i ≠ 0 ∧
    wanted (content i) = false) (hn : n ≤ 2 ^ 32) (hfuel : n ≤ fuel) :
    scanLoop (.window base size content) base wanted fuel 0 =
      scanLoop (.window base size content) base wanted (fuel - n) (BitVec.ofNat 32 n) := by
  induction n with
  | zero => rfl
  | succ n ih =>
    obtain ⟨hin, hne, hnot⟩ := hpass n (Nat.lt_succ_self n)
    rw [ih (fun i hi => hpass i (by omega)) (by omega) (by omega),
      show fuel - n = fuel - (n + 1) + 1 by omega, BitVec.ofNat_add]
    conv_lhs => unfold scanLoop
    rw [read_char (by lia) hin hsize]
    refine if_neg ?_
    rintro (hzero | hwanted)
    · exact hne hzero
    · rw [hnot] at hwanted
      cases hwanted

theorem scanLoop_stop (hsize : size ≤ 2 ^ 64) (hpass : ∀ i < n, content i ≠ 0 ∧ wanted (content i) = false)
    (hn : n < 2 ^ 32) (hin : n < size) (hstop : content n = 0 ∨ wanted (content n) = true) :
    scanLoop (.window base size content) base wanted (2 ^ 32) 0 = .ok (BitVec.ofNat 32 n) := by
  rw [scanLoop_skip hsize (fun i hi => ⟨by omega, hpass i hi⟩) hn.le hn.le,
    show 2 ^ 32 - n = 2 ^ 32 - (n + 1) + 1 by lia]
  unfold scanLoop
  rw [read_char hn hin hsize]
  exact if_pos hstop

theorem scanLoop_endless (hsize : size ≤ 2 ^ 64) (hpass : ∀ i < 2 ^ 32, i < size ∧ content i ≠ 0 ∧
    wanted (content i) = false) :
    scanLoop (.window base size content) base wanted (2 ^ 32) 0 = .error .outOfFuel := by
  rw [scanLoop_skip hsize hpass le_rfl le_rfl, Nat.sub_self]
  rfl

/-- The loop from the end puts `'\0'` behind the last character that is no space. -/
theorem rightTrimLoop_eq (hsize : size ≤ 2 ^ 64) {start len : ℕ} {length : DWORD} (hstart : start < len)
    (hlast : isspace (content (len - 1)) = false) (k : ℕ)
    (hspaces : ∀ i, len ≤ i → i < len + k → isspace (content i) = true) (hk : len + k < 2 ^ 32)
    (hin : len + k < size) (hfuel : k < fuel) :
    rightTrimLoop (.window base size content) base (BitVec.ofNat 32 start) length fuel
      (BitVec.ofNat 32 (len + k)) =
        .ok (BitVec.ofNat 32 len, .window base size (Function.update content len 0)) := by
  have hbelow : ∀ i, start < i → i < 2 ^ 32 → BitVec.ofNat 32 start < BitVec.ofNat 32 i := by
    intro i hlt hi
    rw [BitVec.lt_def, BitVec.toNat_ofNat, BitVec.toNat_ofNat, Nat.mod_eq_of_lt (by omega), Nat.mod_eq_of_lt hi]
    exact hlt
  have hprevious : ∀ i, 0 < i → BitVec.ofNat 32 i - 1 = BitVec.ofNat 32 (i - 1) := by
    intro i hi
    rw [show i = i - 1 + 1 by omega, BitVec.ofNat_add, Nat.add_sub_cancel]
    exact BitVec.add_sub_cancel _ _
  induction k generalizing fuel with
  | zero =>
    cases fuel with
    | zero => exact absurd hfuel (Nat.lt_irrefl 0)
    | succ fuel =>
      unfold rightTrimLoop
      rw [Nat.add_zero, if_pos (hbelow len hstart (by omega)), hprevious len (by omega),
        read_char (by lia) (by omega) hsize]
      refine (if_pos (by simp [hlast])).trans ?_
      rw [write_char (by omega) (by omega) hsize]
      rfl
  | succ k ih =>
    cases fuel with
    | zero => exact absurd hfuel (Nat.not_lt_zero _)
    | succ fuel =>
      unfold rightTrimLoop
      rw [if_pos (hbelow _ (by omega) hk), hprevious _ (by omega), ← Nat.add_assoc, Nat.add_sub_cancel,
        read_char (by omega) (by omega) hsize]
      refine (if_neg (by simp [hspaces (len + k) (by omega) (by omega)])).trans ?_
      exact ih (fun i hle hlt => hspaces i hle (by omega)) (by omega) (by omega) (by omega)

end Loops

/-! ### Runs -/

section Runs

variable {base : QWORD} {size : ℕ} {content : ℕ → BYTE} {s lead core trail : List BYTE}

theorem findStart_of_scan {n : ℕ} (hsize : size ≤ 2 ^ 64) (hn : n < 2 ^ 32) (hin : n < size)
    (hscan : scanLoop (.window base size content) base (fun c => !isspace c) (2 ^ 32) 0 =
      .ok (BitVec.ofNat 32 n)) :
    findStart (.window base size content) base =
      .ok (if content n = 0 then maxDword else BitVec.ofNat 32 n) := by
  unfold findStart
  rw [hscan]
  change ((MappedMemory.window _ _ _).read _ >>= _) = _
  rw [read_char hn hin hsize]
  rfl

/-- The first loop over a string of spaces. -/
theorem findStart_spaces (hsize : size ≤ 2 ^ 64) (hs : HoldsString content s) (hzero : 0 ∉ s)
    (hlen : s.length < 2 ^ 32) (hin : s.length < size) (hall : ∀ c ∈ s, isspace c = true) :
    findStart (.window base size content) base = .ok maxDword := by
  have hend : content s.length = 0 := (hs _ le_rfl).trans (charAt_of_ge le_rfl)
  have hscan := @scanLoop_stop base size content (fun c => !isspace c) s.length hsize (fun i hi => by
    rw [hs i hi.le]
    refine ⟨(charAt_ne_zero_iff hzero).mpr hi, ?_⟩
    unfold charAt
    rw [List.getD_eq_getElem _ _ hi, hall _ (List.getElem_mem hi)]
    rfl) hlen hin (Or.inl hend)
  rw [findStart_of_scan hsize hlen hin hscan, if_pos hend]

theorem Around.charAt_lead (h : Around s lead core trail) {i : ℕ} (hi : i < lead.length) :
    isspace (charAt s i) = true := by
  unfold charAt
  rw [h.eq, List.getD_append _ _ _ _ hi, List.getD_eq_getElem _ _ hi]
  exact h.lead _ (List.getElem_mem hi)

theorem Around.charAt_core (h : Around s lead core trail) {i : ℕ} (hi : i < core.length) :
    charAt s (lead.length + i) = charAt core i := by
  unfold charAt
  rw [h.eq, List.getD_append_right _ _ _ _ (Nat.le_add_right _ _), Nat.add_sub_cancel_left,
    List.getD_append _ _ _ _ hi]

theorem Around.charAt_trail (h : Around s lead core trail) {i : ℕ} (hi : i < trail.length) :
    isspace (charAt s (lead.length + core.length + i)) = true := by
  unfold charAt
  rw [h.eq, ← List.append_assoc, List.getD_append_right _ _ _ _ (by rw [List.length_append]; omega),
    List.length_append, Nat.add_sub_cancel_left, List.getD_eq_getElem _ _ hi]
  exact h.trail _ (List.getElem_mem hi)

theorem Around.length_eq (h : Around s lead core trail) :
    s.length = lead.length + core.length + trail.length ∧ 0 < core.length := by
  obtain ⟨c, rest, hcore, -⟩ := h.first
  refine ⟨?_, by rw [hcore]; exact Nat.succ_pos _⟩
  rw [h.eq, List.length_append, List.length_append, Nat.add_assoc]

theorem Around.charAt_first (h : Around s lead core trail) :
    isspace (charAt s lead.length) = false := by
  obtain ⟨c, rest, hcore, hc⟩ := h.first
  have hfirst := @Around.charAt_core s lead core trail h 0 h.length_eq.2
  rw [Nat.add_zero] at hfirst
  rw [hfirst, hcore]
  exact hc

theorem Around.charAt_last (h : Around s lead core trail) :
    isspace (charAt s (lead.length + core.length - 1)) = false := by
  obtain ⟨rest, c, hcore, hc⟩ := h.last
  have hlast := @Around.charAt_core s lead core trail h rest.length (by rw [hcore]; simp)
  have hlength : core.length = rest.length + 1 := by rw [hcore, List.length_append, List.length_singleton]
  rw [show lead.length + core.length - 1 = lead.length + rest.length by lia, hlast, hcore]
  unfold charAt
  rw [List.getD_append_right _ _ _ _ le_rfl, Nat.sub_self]
  exact hc

theorem findStart_around (hsize : size ≤ 2 ^ 64) (hs : HoldsString content s) (hzero : 0 ∉ s)
    (h : Around s lead core trail) (hlead : lead.length < 2 ^ 32) (hin : s.length < size) :
    findStart (.window base size content) base = .ok (BitVec.ofNat 32 lead.length) := by
  obtain ⟨hlength, hcore⟩ := h.length_eq
  have hfirst : content lead.length = charAt s lead.length := hs _ (by lia)
  have hscan := @scanLoop_stop base size content (fun c => !isspace c) lead.length hsize (fun i hi => by
    rw [hs i (by lia)]
    refine ⟨(charAt_ne_zero_iff hzero).mpr (by lia), ?_⟩
    rw [h.charAt_lead hi]
    rfl) hlead (by lia) (Or.inr (by rw [hfirst, h.charAt_first]; rfl))
  rw [findStart_of_scan hsize hlead (by omega) hscan, hfirst,
    if_neg ((charAt_ne_zero_iff hzero).mpr (by lia))]

theorem strlenAt_window (hsize : size ≤ 2 ^ 64) (hs : HoldsString content s) (hzero : 0 ∉ s)
    (hlen : s.length < 2 ^ 32) (hin : s.length < size) :
    strlenAt (.window base size content) base = .ok (BitVec.ofNat 32 s.length) :=
  scanLoop_stop hsize (fun i hi => ⟨by rw [hs i hi.le]; exact (charAt_ne_zero_iff hzero).mpr hi, rfl⟩)
    hlen hin (Or.inl ((hs _ le_rfl).trans (charAt_of_ge le_rfl)))

theorem clStrtrim_of_none {m : MappedMemory} (hbase : base ≠ 0) (h : findStart m base = .ok maxDword) :
    clStrtrim m base = m.write base 0 := by
  unfold clStrtrim
  rw [assertThat_of hbase.symm]
  simp [bind, Except.bind, h]

theorem write_first (hin : 0 < size) (hsize : size ≤ 2 ^ 64) :
    (MappedMemory.window base size content).write base 0 =
      .ok (.window base size (Function.update content 0 0)) := by
  have hwrite := @MappedMemory.write_window base size content 0 0 hin hsize
  rwa [show BitVec.ofNat 64 0 = 0#64 from rfl, BitVec.add_zero] at hwrite

/-- A string of spaces only. -/
theorem clStrtrim_spaces (hbase : base ≠ 0) (hsize : size ≤ 2 ^ 64) (hs : HoldsString content s)
    (hzero : 0 ∉ s) (hlen : s.length < 2 ^ 32) (hin : s.length < size)
    (hall : ∀ c ∈ s, isspace c = true) :
    clStrtrim (.window base size content) base =
      .ok (.window base size (Function.update content 0 0)) := by
  rw [clStrtrim_of_none hbase (findStart_spaces hsize hs hzero hlen hin hall)]
  exact write_first (by omega) hsize

/-- What is in the window after the two trims. -/
def shifted (content : ℕ → BYTE) (start length : ℕ) : ℕ → BYTE := fun j =>
  if start ≠ 0 ∧ j < length then Function.update content length 0 (start + j)
  else Function.update content length 0 j

/-- A string with other characters: the shift reads as many bytes from its first character on as there are
up to its last one from the start. -/
theorem clStrtrim_around (hbase : base ≠ 0) (hwrap : base.toNat + size ≤ 2 ^ 64)
    (hs : HoldsString content s) (hzero : 0 ∉ s) (hlen : s.length < 2 ^ 32) (hin : s.length < size)
    (h : Around s lead core trail) :
    clStrtrim (.window base size content) base =
      if lead.length = 0 ∨ lead.length + (lead.length + core.length) ≤ size
      then .ok (.window base size (shifted content lead.length (lead.length + core.length)))
      else .error .danglingAccess := by
  have hsize : size ≤ 2 ^ 64 := by omega
  obtain ⟨hlength, hcore⟩ := h.length_eq
  have hstart : maxDword ≠ BitVec.ofNat 32 lead.length := by
    intro heq
    have hnat := congrArg BitVec.toNat heq
    rw [BitVec.toNat_ofNat, Nat.mod_eq_of_lt (by lia)] at hnat
    change 2 ^ 32 - 1 = _ at hnat
    omega
  have hright := @rightTrimLoop_eq base size content (s.length + 1) hsize lead.length
    (lead.length + core.length) (BitVec.ofNat 32 s.length) (by omega)
    (by rw [hs _ (by lia)]; exact h.charAt_last) trail.length
    (fun i hle hlt => by
      have htrail := @Around.charAt_trail s lead core trail h (i - (lead.length + core.length)) (by omega)
      rw [Nat.add_sub_cancel' hle] at htrail
      rw [hs i (by omega)]
      exact htrail) (by omega) (by omega) (by omega)
  rw [← hlength] at hright
  have hnat : (BitVec.ofNat 32 s.length).toNat = s.length := by
    rw [BitVec.toNat_ofNat, Nat.mod_eq_of_lt hlen]
  unfold clStrtrim
  rw [assertThat_of hbase.symm]
  change (findStart _ _ >>= _) = _
  rw [findStart_around hsize hs hzero h (by lia) hin]
  refine (if_neg hstart).trans ?_
  rw [strlenAt_window hsize hs hzero hlen hin]
  change (rightTrimLoop _ _ _ _ ((BitVec.ofNat 32 s.length).toNat + 1) _ >>= _) = _
  rw [hnat, hright]
  change (if 0 ≠ BitVec.ofNat 32 lead.length then _ else _) = _
  by_cases hlead : lead.length = 0
  · have hstay : ¬(0 ≠ BitVec.ofNat 32 lead.length) := by
      rw [hlead]
      exact fun hne => hne rfl
    rw [if_neg hstay, if_pos (Or.inl hlead)]
    refine congrArg (fun c => Except.ok (MappedMemory.window base size c)) (funext fun j => ?_)
    exact (if_neg fun hj => hj.1 hlead).symm
  · have hne : 0 ≠ BitVec.ofNat 32 lead.length := by
      intro heq
      have hnat := congrArg BitVec.toNat heq
      rw [BitVec.toNat_ofNat, Nat.mod_eq_of_lt (by lia)] at hnat
      exact hlead hnat.symm
    have hlengthNe : BitVec.ofNat 32 (lead.length + core.length) ≠ 0 := by
      intro heq
      have hnat := congrArg BitVec.toNat heq
      rw [BitVec.toNat_ofNat, Nat.mod_eq_of_lt (by lia)] at hnat
      change _ = 0 at hnat
      lia
    have hsource : charAddress base (BitVec.ofNat 32 lead.length) ≠ 0 := by
      intro heq
      rw [charAddress_ofNat (by omega)] at heq
      have hnat := congrArg BitVec.toNat heq
      have hpos : base.toNat ≠ 0 := fun h0 => hbase (BitVec.eq_of_toNat_eq h0)
      rw [BitVec.toNat_add, BitVec.toNat_ofNat] at hnat
      change _ = 0 at hnat
      lia
    have hcount : ((BitVec.ofNat 32 (lead.length + core.length)).setWidth 64).toNat =
        lead.length + core.length := by
      rw [BitVec.toNat_setWidth, BitVec.toNat_ofNat]
      lia
    have hloop := @memmoveLoop_window base size
      (Function.update content (lead.length + core.length) 0) hsize lead.length (by lia)
      (lead.length + core.length) 0 (by lia) (by lia) (by lia)
    rw [Nat.zero_add] at hloop
    rw [if_pos hne, assertThat_of hlengthNe]
    change clMemmove _ _ _ _ = _
    unfold clMemmove
    rw [if_neg fun hnull => hnull.elim hbase hsource, hcount, charAddress_ofNat (by lia)]
    refine hloop.trans ?_
    by_cases hfit : lead.length + (lead.length + core.length) ≤ size
    · rw [if_pos hfit, if_pos (Or.inr hfit)]
      refine congrArg (fun c => Except.ok (MappedMemory.window base size c)) (funext fun j => ?_)
      unfold shifted
      by_cases hj : j < lead.length + core.length
      · rw [if_pos hj, if_pos ⟨hlead, hj⟩]
      · rw [if_neg hj, if_neg fun h' => hj h'.2]
    · rw [if_neg hfit, if_neg fun h' => h'.elim hlead hfit]

/-- The middle of the string is at the start. -/
theorem holds_shifted (hs : HoldsString content s) (h : Around s lead core trail) :
    HoldsString (shifted content lead.length (lead.length + core.length)) core := by
  obtain ⟨hlength, -⟩ := h.length_eq
  intro i hi
  have hvalue : shifted content lead.length (lead.length + core.length) i =
      Function.update content (lead.length + core.length) 0 (lead.length + i) := by
    unfold shifted
    by_cases hlead : lead.length = 0
    · rw [hlead, if_neg fun h' => h'.1 rfl, Nat.zero_add, Nat.zero_add]
    · rw [if_pos ⟨hlead, by omega⟩]
  rw [hvalue]
  rcases Nat.lt_or_eq_of_le hi with hlt | rfl
  · rw [Function.update_of_ne (by omega), hs _ (by omega), h.charAt_core hlt]
  · rw [Function.update_self, charAt_of_ge le_rfl]

/-- A string without spaces at its ends is left as it is. -/
theorem clStrtrim_trimmed (hbase : base ≠ 0) (hwrap : base.toNat + size ≤ 2 ^ 64)
    (hs : HoldsString content s) (hzero : 0 ∉ s) (hlen : s.length < 2 ^ 32) (hin : s.length < size)
    (h : s = [] ∨ Around s [] s []) : ∃ content',
    clStrtrim (.window base size content) base = .ok (.window base size content') ∧
      HoldsString content' s := by
  rcases h with rfl | h
  · refine ⟨_, clStrtrim_spaces hbase (by omega) hs hzero hlen hin fun c hc => (nomatch hc), fun i hi => ?_⟩
    obtain rfl : i = 0 := Nat.le_zero.mp hi
    exact Function.update_self ..
  · refine ⟨_, (clStrtrim_around hbase hwrap hs hzero hlen hin h).trans (if_pos (Or.inl rfl)), ?_⟩
    exact holds_shifted hs h

theorem Around.core_trimmed (h : Around s lead core trail) : Around core [] core [] :=
  ⟨(List.append_nil core).symm, fun _ hc => (nomatch hc), fun _ hc => (nomatch hc), h.first, h.last⟩

theorem window_injective {content' : ℕ → BYTE} (hsize : size ≤ 2 ^ 64)
    (h : MappedMemory.window base size content = .window base size content') {j : ℕ} (hj : j < size) :
    content j = content' j := by
  have hat := congrFun h (base + BitVec.ofNat 64 j)
  rw [MappedMemory.window_at hj hsize, MappedMemory.window_at hj hsize] at hat
  exact Option.some.inj hat

/-- In a string of `2 ^ 32` characters or more the index wraps. -/
theorem clStrtrim_long (hbase : base ≠ 0) (hsize : size ≤ 2 ^ 64) (hs : HoldsString content s)
    (hzero : 0 ∉ s) (hlen : 2 ^ 32 ≤ s.length) (hin : s.length < size) :
    clStrtrim (.window base size content) base = .error .outOfFuel ∨
      trimmed s ≠ [] ∧ clStrtrim (.window base size content) base =
        .ok (.window base size (Function.update content 0 0)) := by
  have hchar : ∀ i < 2 ^ 32, i < size ∧ content i ≠ 0 := fun i hi => by
    rw [hs i (by omega)]
    exact ⟨by omega, (charAt_ne_zero_iff hzero).mpr (by omega)⟩
  have hendless : strlenAt (.window base size content) base = .error .outOfFuel :=
    scanLoop_endless hsize fun i hi => ⟨(hchar i hi).1, (hchar i hi).2, rfl⟩
  by_cases hspaces : ∀ i < 2 ^ 32, isspace (charAt s i) = true
  · left
    have hscan := @scanLoop_endless base size content (fun c => !isspace c) hsize fun i hi =>
      ⟨(hchar i hi).1, (hchar i hi).2, by rw [hs i (by omega), hspaces i hi]; rfl⟩
    unfold clStrtrim findStart
    rw [assertThat_of hbase.symm, hscan]
    rfl
  · obtain ⟨i, hi, hspace⟩ : ∃ i < 2 ^ 32, isspace (charAt s i) = false := by
      by_contra hnone
      refine hspaces fun i hi => ?_
      by_contra hnot
      exact hnone ⟨i, hi, Bool.eq_false_iff.mpr hnot⟩
    obtain ⟨lead, core, trail, h⟩ := around_of_exists ⟨charAt s i, by
      unfold charAt
      rw [List.getD_eq_getElem _ _ (by omega)]
      exact List.getElem_mem _, hspace⟩
    obtain ⟨-, hcore⟩ := h.length_eq
    have hlead : lead.length < 2 ^ 32 := by
      by_contra hge
      rw [h.charAt_lead (by omega)] at hspace
      cases hspace
    have hfind := @findStart_around base size content s lead core trail hsize hs hzero h hlead hin
    by_cases hmax : maxDword = BitVec.ofNat 32 lead.length
    · right
      rw [← hmax] at hfind
      refine ⟨?_, (clStrtrim_of_none hbase hfind).trans (write_first (by omega) hsize)⟩
      rw [h.trimmed_eq]
      exact List.ne_nil_of_length_pos hcore
    · left
      unfold clStrtrim
      rw [assertThat_of hbase.symm]
      change (findStart _ _ >>= _) = _
      rw [hfind]
      refine (if_neg hmax).trans ?_
      rw [hendless]
      rfl

end Runs

/-- A string is trimmed within its bytes exactly if it has less than `2 ^ 32` characters and, unless it
has spaces only, at most one more space at its start than at its end. -/
theorem trims_iff {string : QWORD} {s : ZString} (hstring : string ≠ 0)
    (hwrap : string.toNat + s.chars.length < 2 ^ 64) : Trims string s.chars ↔
      s.chars.length < 2 ^ 32 ∧
        (trimmed s.chars = [] ∨ leadingSpaces s.chars ≤ trailingSpaces s.chars + 1) := by
  have hholds : HoldsString (charAt s.chars) s.chars := fun _ _ => rfl
  have hin := Nat.lt_succ_self s.chars.length
  have hsize : s.chars.length + 1 ≤ 2 ^ 64 := by omega
  by_cases hlen : s.chars.length < 2 ^ 32
  · rw [and_iff_right hlen]
    by_cases hall : ∀ c ∈ s.chars, isspace c = true
    · have hnil := trimmed_of_spaces hall
      have hrun := clStrtrim_spaces hstring hsize hholds s.zero_notMem hlen hin hall
      have hfirst : HoldsString (Function.update (charAt s.chars) 0 0) [] := by
        intro i hi
        obtain rfl : i = 0 := Nat.le_zero.mp hi
        exact Function.update_self ..
      refine iff_of_true ⟨_, hrun, by rwa [hnil], ?_⟩ (Or.inl hnil)
      rw [hnil]
      exact clStrtrim_trimmed hstring hwrap hfirst List.not_mem_nil (by simp) (by simp) (Or.inl rfl)
    · obtain ⟨lead, core, trail, h⟩ : ∃ lead core trail, Around s.chars lead core trail := by
        refine around_of_exists ?_
        by_contra hnone
        refine hall fun c hc => ?_
        by_contra hnot
        exact hnone ⟨c, hc, Bool.eq_false_iff.mpr hnot⟩
      obtain ⟨hlength, hcore⟩ := h.length_eq
      have hrun := clStrtrim_around hstring hwrap hholds s.zero_notMem hlen hin h
      have hcorezero : 0 ∉ core := fun hmem => s.zero_notMem (by
        rw [h.eq]
        exact List.mem_append_right _ (List.mem_append_left _ hmem))
      rw [h.trimmed_eq, h.leadingSpaces_eq, h.trailingSpaces_eq]
      constructor
      · rintro ⟨content, hok, -⟩
        right
        by_contra hgt
        rw [hrun, if_neg (by lia)] at hok
        cases hok
      · rintro (hnil | hle)
        · rw [hnil] at hcore
          exact absurd hcore (Nat.lt_irrefl 0)
        · rw [if_pos (by omega)] at hrun
          have hcoreHolds := holds_shifted hholds h
          refine ⟨_, hrun, by rwa [h.trimmed_eq], ?_⟩
          rw [h.trimmed_eq]
          exact clStrtrim_trimmed hstring hwrap hcoreHolds hcorezero (by omega) (by omega)
            (Or.inr h.core_trimmed)
  · refine iff_of_false ?_ fun h => hlen h.1
    rintro ⟨content, hok, hcontent, -⟩
    rcases clStrtrim_long hstring hsize hholds s.zero_notMem (by omega) hin with hrun | ⟨hne, hrun⟩
    · rw [hrun] at hok
      cases hok
    · rw [hrun] at hok
      have hfirst := @window_injective string _ _ _ hsize (Except.ok.inj hok) 0 (Nat.succ_pos _)
      rw [Function.update_self, hcontent 0 (Nat.zero_le _)] at hfirst
      have hzero : 0 ∉ trimmed s.chars := fun hmem => s.zero_notMem
        ((List.dropWhile_suffix isspace).subset ((List.rdropWhile_prefix isspace _).subset hmem))
      exact (charAt_ne_zero_iff hzero).mpr (List.length_pos_iff.mpr hne) hfirst.symm

theorem trims_iff_surrounded : Trims 0x1000 [0x20, 0x41, 0x20] ↔ [0x20, 0x41, 0x20].length < 2 ^ 32 ∧
    (trimmed [0x20, 0x41, 0x20] = [] ∨
      leadingSpaces [0x20, 0x41, 0x20] ≤ trailingSpaces [0x20, 0x41, 0x20] + 1) :=
  @trims_iff 0x1000 ⟨[0x20, 0x41, 0x20], by decide⟩ (by decide) (by decide)

/-- The shift of a character behind two spaces reads the byte behind the terminator. -/
theorem not_trims : ¬ ∀ (string : QWORD) (s : ZString), string ≠ 0 →
    string.toNat + s.chars.length < 2 ^ 64 → Trims string s.chars := by
  intro hall
  obtain ⟨content, hrun, -⟩ := hall 0x1000 ⟨[0x20, 0x20, 0x41], by decide⟩ (by decide) (by decide)
  have haround : Around [0x20, 0x20, 0x41] [0x20, 0x20] [0x41] [] :=
    ⟨rfl, by decide, by decide, ⟨_, _, rfl, rfl⟩, ⟨[], _, rfl, rfl⟩⟩
  rw [clStrtrim_around (by decide) (by decide) (fun _ _ => rfl) (by decide) (by decide) (by decide) haround,
    if_neg (by decide)] at hrun
  cases hrun

end HAL9000.Strings
