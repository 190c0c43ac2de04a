import HAL9000.CommonLib.Tokens
import HAL9000.Fat32.DirectoryEntries
import HAL9000.Fat32.NameSlots

/-! The loop of `FatSearch` over the string of a path, and the buffer for the current name. -/
namespace HAL9000.Fat32

open Program Strings Walk

/-- The index wraps in a string of `2 ^ 32` characters or more, and the loop does not end. -/
def clStrlen (str : List BYTE) : Except Fault DWORD := search str fun _ => false

/-- The buffer of `LONG_NAME_MAX_CHARS` characters for the name between two backslashes. -/
abbrev PartialName := Fin longNameMaxChars → BYTE

def PartialName.write (dst : PartialName) (i : ℕ) (c : BYTE) : Except Fault PartialName :=
  if h : i < longNameMaxChars then .ok (Function.update dst ⟨i, h⟩ c) else .error .danglingAccess

def clStrncpyLoop (src : List BYTE) (length : DWORD) :
    ℕ → DWORD → PartialName → Except Fault PartialName
  | 0, _, _ => .error .outOfFuel
  | fuel + 1, i, dst =>
    if i < length ∧ charAt src i.toNat ≠ 0 then do
      let dst ← dst.write i.toNat (charAt src i.toNat)
      clStrncpyLoop src length fuel (i + 1) dst
    else dst.write i.toNat 0

def clStrncpy (dst : PartialName) (src : List BYTE) (length : DWORD) : Except Fault PartialName := do
  assertThat (0 ≠ length)
  clStrncpyLoop src length (length.toNat + 1) 0 dst

/-- The length of the name at an index, and whether the parse is finished with it. The terminator may be
read, but nothing behind it. -/
def nextPartialName (name : List BYTE) (startIndexInName : DWORD) : Except Fault (DWORD × Bool) := do
  if name.length < startIndexInName.toNat then throw .danglingAccess
  let partialNameEnd ← clStrchr (name.drop startIndexInName.toNat) fatDelimiter
  if partialNameEnd = 0 then return ((← clStrlen name) - startIndexInName, true)
  else return (partialNameEnd, false)

/-- `FatSearchDirectoryEntry` of a sector, for a name and a type. -/
abbrev LookUp := ℕ → Name → BYTE → FatM (Option SearchResult)

def directoryLookUp (d : FatData) (fuel : ℕ) (wantsInformation : Bool) : LookUp :=
  fun sector part searchType => fatSearchDirectoryEntry d fuel sector part searchType wantsInformation

/-- The variables of the loop of `FatSearch`. -/
structure PathState where
  startIndexInName : DWORD
  partialName : PartialName
  currentSearchSector : ℕ
  result : SearchResult

section Code

variable (lookUp : LookUp) (name : List BYTE) (searchType : BYTE)

/-- The loop of `FatSearch`, within a number of rounds. -/
def searchPathLoop : ℕ → PathState → FatM SearchResult
  | 0, _ => Prog.fault .outOfFuel
  | rounds + 1, s => do
    let (partialNameLength, finishedParse) ← Prog.lift (nextPartialName name s.startIndexInName)
    if partialNameLength.toNat ≥ longNameMaxChars ∨ partialNameLength = 0 then
      Prog.fail .pathNotValid
    else do
      let partialName ← Prog.lift
        (clStrncpy s.partialName (name.drop s.startIndexInName.toNat) partialNameLength)
      let found ← lookUp s.currentSearchSector (cString (List.ofFn partialName))
        (if finishedParse then searchType else attrDirectory)
      let result := found.getD s.result
      if finishedParse then return result
      else
        searchPathLoop rounds ⟨s.startIndexInName + (partialNameLength + 1), partialName,
          result.searchResult, result⟩

/-- `FatSearch` over the characters of its string. -/
def fatSearchString (d : FatData) (rounds : ℕ) : FatM SearchResult :=
  if charAt name 0 ≠ fatDelimiter then Prog.fail .invalidFileName
  else do
    let length ← Prog.lift (clStrlen name)
    if length = 1 then
      if searchType &&& attrDirectory ≠ attrDirectory then Prog.fail .fileTypeInvalid
      else return ⟨d.sectorOf d.rootCluster, 0⟩
    else
      searchPathLoop lookUp name searchType rounds ⟨1, fun _ => 0, d.sectorOf d.rootCluster, ⟨0, 0⟩⟩

end Code

/-! ### The copy of a name -/

section Copy

variable {w rest : List BYTE} {dst : PartialName}

theorem PartialName.write_of_lt {i : ℕ} {c : BYTE} (h : i < longNameMaxChars) :
    dst.write i c = .ok (Function.update dst ⟨i, h⟩ c) := dif_pos h

theorem ofNat_length_eq_zero_iff (hlen : w.length < 2 ^ 32) : BitVec.ofNat 32 w.length = 0 ↔ w = [] := by
  rw [← List.length_eq_zero_iff, ← BitVec.toNat_inj, ofNat_toNat_of_lt hlen]
  rfl

/-- The rounds of the copy from a position on. -/
theorem clStrncpyLoop_eq (hzero : 0 ∉ w) (hlen : w.length < longNameMaxChars) (m : ℕ) :
    ∀ i fuel (dst : PartialName), i + m = w.length → m < fuel →
      (∀ j : Fin longNameMaxChars, j.val < i → dst j = charAt w j) →
      ∃ dst', clStrncpyLoop (w ++ rest) (BitVec.ofNat 32 w.length) fuel (BitVec.ofNat 32 i) dst = .ok dst' ∧
        ∀ j : Fin longNameMaxChars, j.val ≤ w.length → dst' j = charAt w j := by
  have hmax : longNameMaxChars = 255 := rfl
  induction m with
  | zero =>
    rintro i (_ | fuel) dst hi hfuel hdst
    · cases hfuel
    · obtain rfl : i = w.length := by omega
      have hindex := ofNat_toNat_of_lt (n := w.length) (by omega)
      refine ⟨Function.update dst ⟨w.length, hlen⟩ 0, ?_, fun j hj => ?_⟩
      · unfold clStrncpyLoop
        rw [if_neg fun h => BitVec.lt_irrefl _ h.1, hindex, PartialName.write_of_lt hlen]
      · by_cases heq : j = ⟨w.length, hlen⟩
        · rw [heq, Function.update_self, charAt_of_ge le_rfl]
        · rw [Function.update_of_ne heq]
          exact hdst j (lt_of_le_of_ne hj fun h => heq (Fin.ext h))
  | succ m ih =>
    rintro i (_ | fuel) dst hi hfuel hdst
    · cases hfuel
    · have hlt : i < w.length := by omega
      have hindex := ofNat_toNat_of_lt (n := i) (by omega)
      have hlength := ofNat_toNat_of_lt (n := w.length) (by omega)
      have hchar : charAt (w ++ rest) i = charAt w i := charAt_append_of_lt hlt
      have hcond : BitVec.ofNat 32 i < BitVec.ofNat 32 w.length ∧ charAt w i ≠ 0 := by
        refine ⟨?_, (charAt_ne_zero_iff hzero).mpr hlt⟩
        rw [BitVec.lt_def, hindex, hlength]
        exact hlt
      obtain ⟨dst', hrun, hdst'⟩ := ih (i + 1) fuel
        (Function.update dst ⟨i, by lia⟩ (charAt w i)) (by omega) (by omega) fun j hj => by
          by_cases heq : j = ⟨i, by lia⟩
          · rw [heq, Function.update_self]
          · rw [Function.update_of_ne heq]
            exact hdst j (lt_of_le_of_ne (Nat.le_of_lt_succ hj) fun h => heq (Fin.ext h))
      refine ⟨dst', ?_, hdst'⟩
      unfold clStrncpyLoop
      rw [hindex, hchar, if_pos hcond, PartialName.write_of_lt (by omega)]
      rw [BitVec.ofNat_add] at hrun
      exact hrun

/-- What a buffer with a name and its terminator holds. -/
theorem cString_ofFn (hzero : 0 ∉ w) (hlen : w.length < longNameMaxChars)
    (hdst : ∀ j : Fin longNameMaxChars, j.val ≤ w.length → dst j = charAt w j) :
    cString (List.ofFn dst) = w := by
  have hget : ∀ i ≤ w.length, (List.ofFn dst)[i]? = some (charAt w i) := by
    intro i hi
    rw [List.getElem?_ofFn, dif_pos (hi.trans_lt hlen)]
    exact congrArg some (hdst ⟨i, hi.trans_lt hlen⟩ hi)
  have hlength : (cString (List.ofFn dst)).length = w.length := by
    refine le_antisymm (length_cString_le ?_) (le_length_cString fun i hi => ?_)
    · rw [hget _ le_rfl, charAt_of_ge le_rfl]
    · exact ⟨charAt w i, (charAt_ne_zero_iff hzero).mpr hi, hget i hi.le⟩
  have htaken : cString (List.ofFn dst) = (List.ofFn dst).take (cString (List.ofFn dst)).length :=
    List.prefix_iff_eq_take.mp (List.takeWhile_prefix _)
  rw [htaken, hlength]
  refine List.ext_getElem? fun i => ?_
  by_cases hi : i < w.length
  · rw [List.getElem?_take_of_lt hi, hget i hi.le, List.getElem?_eq_getElem hi]
    exact congrArg some (List.getD_eq_getElem _ _ hi)
  · rw [List.getElem?_take_eq_none (Nat.not_lt.mp hi), List.getElem?_eq_none (Nat.not_lt.mp hi)]

/-- A name that fits is copied to the buffer, with its terminator. -/
theorem clStrncpy_eq (hzero : 0 ∉ w) (hne : w ≠ []) (hlen : w.length < longNameMaxChars) :
    ∃ dst', clStrncpy dst (w ++ rest) (BitVec.ofNat 32 w.length) = .ok dst' ∧
      cString (List.ofFn dst') = w := by
  have hlt : w.length < 2 ^ 32 := hlen.trans (by decide)
  have hlength : 0 ≠ BitVec.ofNat 32 w.length := fun h => hne ((ofNat_length_eq_zero_iff hlt).mp h.symm)
  obtain ⟨dst', hrun, hdst'⟩ := @clStrncpyLoop_eq w rest hzero hlen w.length 0 (w.length + 1) dst
    (Nat.zero_add _) (Nat.lt_succ_self _) fun j hj => absurd hj (Nat.not_lt_zero _)
  refine ⟨dst', ?_, cString_ofFn hzero hlen hdst'⟩
  unfold clStrncpy
  rw [assertThat_of hlength, ofNat_toNat_of_lt hlt]
  exact hrun

end Copy

/-! ### The rounds of the loop -/

theorem splitPath_of_last {rest : Name} (h : fatDelimiter ∉ rest ∨ rest.head? = some fatDelimiter) (m : ℕ) :
    splitPath m rest = [rest] := by
  cases m with
  | zero => rfl
  | succ m =>
    have hlast : (rest.takeWhile (· ≠ fatDelimiter)).length = rest.length ∨
        rest.takeWhile (· ≠ fatDelimiter) = [] := by
      refine h.imp (fun hnone => congrArg List.length ?_) fun hhead => ?_
      · exact List.takeWhile_eq_self_iff.mpr fun c hc => by simpa using ne_of_mem_of_not_mem hc hnone
      · obtain ⟨tail, rfl⟩ := List.head?_eq_some_iff.mp hhead
        exact List.takeWhile_cons_of_neg (by simp)
    rw [splitPath, if_pos hlast]

theorem splitPath_of_delimiter {w tail : Name} (hw : fatDelimiter ∉ w) (hne : w ≠ []) (m : ℕ) :
    splitPath (m + 1) (w ++ fatDelimiter :: tail) = w :: splitPath m tail := by
  have htake : (w ++ fatDelimiter :: tail).takeWhile (· ≠ fatDelimiter) = w := by
    rw [List.takeWhile_append_of_pos fun c hc => by simpa using ne_of_mem_of_not_mem hc hw,
      List.takeWhile_cons_of_neg (by simp), List.append_nil]
  have hlen : ¬(w.length = (w ++ fatDelimiter :: tail).length ∨ w = []) := by
    rw [List.length_append, List.length_cons]
    exact not_or_intro (by omega) hne
  rw [splitPath, htake, if_neg hlen, drop_piece]

theorem splitPath_ne_nil (m : ℕ) (rest : Name) : splitPath m rest ≠ [] := by
  cases m with
  | zero => exact List.cons_ne_nil _ _
  | succ m =>
    unfold splitPath
    dsimp only
    split_ifs
    · exact List.cons_ne_nil _ _
    · exact List.cons_ne_nil _ _

section Rounds

variable {pre rest part tail : List BYTE} {lookUp : LookUp} {name : List BYTE} {searchType : BYTE}
  {s : PathState} {finishedParse : Bool}

theorem clStrlen_eq (hzero : 0 ∉ name) (hlen : name.length < 2 ^ 32) :
    clStrlen name = .ok (BitVec.ofNat 32 name.length) :=
  search_end (fun _ hx => ⟨ne_of_mem_of_not_mem hx hzero, rfl⟩) hlen

theorem nextPartialName_of_strchr {i : DWORD} (hlen : (pre ++ rest).length < 2 ^ 32)
    (hrun : clStrchr rest fatDelimiter = .ok i) :
    nextPartialName (pre ++ rest) (BitVec.ofNat 32 pre.length) =
      if i = 0 then (clStrlen (pre ++ rest)).map fun n => (n - BitVec.ofNat 32 pre.length, true)
      else .ok (i, false) := by
  have hpre : pre.length ≤ (pre ++ rest).length := List.length_append ▸ Nat.le_add_right _ _
  unfold nextPartialName
  rw [ofNat_toNat_of_lt (hpre.trans_lt hlen), if_neg (Nat.not_lt.mpr hpre), List.drop_left]
  change (clStrchr rest fatDelimiter >>= _) = _
  rw [hrun]
  change (if i = 0 then _ else _) = _
  split_ifs
  · cases clStrlen (pre ++ rest) <;> rfl
  · rfl

/-- The last name, or a name before a backslash. -/
theorem nextPartialName_cases (hzero : 0 ∉ pre ++ rest) (hlen : (pre ++ rest).length < 2 ^ 32) :
    (nextPartialName (pre ++ rest) (BitVec.ofNat 32 pre.length) =
        .ok (BitVec.ofNat 32 rest.length, true) ∧ ∀ m, splitPath m rest = [rest]) ∨
      ∃ w tail, rest = w ++ fatDelimiter :: tail ∧ w ≠ [] ∧
        nextPartialName (pre ++ rest) (BitVec.ofNat 32 pre.length) =
          .ok (BitVec.ofNat 32 w.length, false) ∧
        ∀ m, splitPath (m + 1) rest = w :: splitPath m tail := by
  have hrest : rest.length ≤ (pre ++ rest).length := List.length_append ▸ Nat.le_add_left _ _
  have hzeroRest : 0 ∉ rest := fun h => hzero (List.mem_append_right _ h)
  have hlast : clStrchr rest fatDelimiter = .ok 0 →
      nextPartialName (pre ++ rest) (BitVec.ofNat 32 pre.length) =
        .ok (BitVec.ofNat 32 rest.length, true) := by
    intro hrun
    rw [nextPartialName_of_strchr hlen hrun, if_pos rfl, clStrlen_eq hzero hlen, List.length_append,
      BitVec.ofNat_add]
    have hsub : BitVec.ofNat 32 pre.length + BitVec.ofNat 32 rest.length - BitVec.ofNat 32 pre.length =
        BitVec.ofNat 32 rest.length := by rw [BitVec.add_comm, BitVec.add_sub_cancel]
    exact congrArg (fun n => Except.ok (n, true)) hsub
  rcases splitOn_cases rest fatDelimiter with ⟨hnone, -⟩ | ⟨w, tail, rfl, hw, -⟩
  · exact Or.inl ⟨hlast (clStrchr_of_notMem hzeroRest hnone (hrest.trans_lt hlen)),
      splitPath_of_last (Or.inl hnone)⟩
  · have hlenw : w.length < 2 ^ 32 := by
      rw [List.length_append] at hrest
      lia
    have hrun : clStrchr (w ++ fatDelimiter :: tail) fatDelimiter = .ok (BitVec.ofNat 32 w.length) :=
      clStrchr_append (fun h => hzeroRest (List.mem_append_left _ h)) hw (by decide) hlenw
    by_cases hempty : w = []
    · subst hempty
      exact Or.inl ⟨hlast hrun, splitPath_of_last (Or.inr rfl)⟩
    · refine Or.inr ⟨w, tail, rfl, hempty, ?_, splitPath_of_delimiter hw hempty⟩
      rw [nextPartialName_of_strchr hlen hrun,
        if_neg fun h => hempty ((ofNat_length_eq_zero_iff hlenw).mp h)]

theorem searchPathLoop_invalid (hlen : part.length < 2 ^ 32)
    (hnext : nextPartialName name s.startIndexInName = .ok (BitVec.ofNat 32 part.length, finishedParse))
    (hbad : part.length ≥ longNameMaxChars ∨ part = []) (rounds : ℕ) :
    searchPathLoop lookUp name searchType (rounds + 1) s = Prog.fail .pathNotValid := by
  have hbad' : (BitVec.ofNat 32 part.length).toNat ≥ longNameMaxChars ∨ BitVec.ofNat 32 part.length = 0 := by
    rw [ofNat_toNat_of_lt hlen, ofNat_length_eq_zero_iff hlen]
    exact hbad
  unfold searchPathLoop
  rw [hnext, Prog.lift_ok_bind]
  exact if_pos hbad'

theorem searchPathLoop_valid (hzero : 0 ∉ part) (hlen : part.length < longNameMaxChars) (hne : part ≠ [])
    (hnext : nextPartialName name s.startIndexInName = .ok (BitVec.ofNat 32 part.length, finishedParse))
    (hdrop : name.drop s.startIndexInName.toNat = part ++ tail) (rounds : ℕ) :
    ∃ partialName, searchPathLoop lookUp name searchType (rounds + 1) s =
      lookUp s.currentSearchSector part (if finishedParse then searchType else attrDirectory) >>= fun found =>
        if finishedParse then pure (found.getD s.result)
        else searchPathLoop lookUp name searchType rounds
          ⟨s.startIndexInName + (BitVec.ofNat 32 part.length + 1), partialName,
            (found.getD s.result).searchResult, found.getD s.result⟩ := by
  have hlt : part.length < 2 ^ 32 := hlen.trans (by decide)
  have hfits : ¬((BitVec.ofNat 32 part.length).toNat ≥ longNameMaxChars ∨
      BitVec.ofNat 32 part.length = 0) := by
    rw [ofNat_toNat_of_lt hlt, ofNat_length_eq_zero_iff hlt]
    exact not_or_intro (Nat.not_le.mpr hlen) hne
  obtain ⟨dst', hcopy, hpart⟩ := @clStrncpy_eq part tail s.partialName hzero hne hlen
  refine ⟨dst', ?_⟩
  rw [searchPathLoop, hnext, Prog.lift_ok_bind]
  dsimp only
  rw [if_neg hfits, hdrop, hcopy, Prog.lift_ok_bind, hpart]

theorem start_succ {w : List BYTE} : BitVec.ofNat 32 pre.length + (BitVec.ofNat 32 w.length + 1) =
    BitVec.ofNat 32 (pre ++ w ++ [fatDelimiter]).length := by
  rw [List.length_append, List.length_append, BitVec.ofNat_add, BitVec.ofNat_add, BitVec.add_assoc]
  rfl

/-- A round fails for a name that is empty or too long. Otherwise it looks the name up, and the parse is
finished or goes on behind the next backslash. -/
theorem searchPathLoop_round (hzero : 0 ∉ pre ++ rest) (hlen : (pre ++ rest).length < 2 ^ 32)
    (hs : s.startIndexInName = BitVec.ofNat 32 pre.length) (rounds : ℕ) :
    (∃ part, (part.length ≥ longNameMaxChars ∨ part = []) ∧
      (∀ m, ∃ parts, splitPath (m + 1) rest = part :: parts) ∧
      searchPathLoop lookUp (pre ++ rest) searchType (rounds + 1) s = Prog.fail .pathNotValid) ∨
    (¬(rest.length ≥ longNameMaxChars ∨ rest = []) ∧ (∀ m, splitPath m rest = [rest]) ∧
      searchPathLoop lookUp (pre ++ rest) searchType (rounds + 1) s =
        lookUp s.currentSearchSector rest searchType >>= fun found => pure (found.getD s.result)) ∨
    ∃ part tail partialName, rest = part ++ fatDelimiter :: tail ∧
      ¬(part.length ≥ longNameMaxChars ∨ part = []) ∧
      (∀ m, splitPath (m + 1) rest = part :: splitPath m tail) ∧
      searchPathLoop lookUp (pre ++ rest) searchType (rounds + 1) s =
        lookUp s.currentSearchSector part attrDirectory >>= fun found =>
          searchPathLoop lookUp (pre ++ rest) searchType rounds
            ⟨BitVec.ofNat 32 (pre ++ part ++ [fatDelimiter]).length, partialName,
              (found.getD s.result).searchResult, found.getD s.result⟩ := by
  have hpre : pre.length ≤ (pre ++ rest).length := List.length_append ▸ Nat.le_add_right _ _
  have hrest : rest.length ≤ (pre ++ rest).length := List.length_append ▸ Nat.le_add_left _ _
  have hdrop : (pre ++ rest).drop s.startIndexInName.toNat = rest := by
    rw [hs, ofNat_toNat_of_lt (hpre.trans_lt hlen), List.drop_left]
  have hzeroRest : 0 ∉ rest := fun h => hzero (List.mem_append_right _ h)
  rcases nextPartialName_cases hzero hlen with ⟨hnext, hsplit⟩ | ⟨part, tail, rfl, hne, hnext, hsplit⟩
  · rw [← hs] at hnext
    by_cases hbad : rest.length ≥ longNameMaxChars ∨ rest = []
    · exact Or.inl ⟨rest, hbad, fun m => ⟨[], hsplit _⟩,
        searchPathLoop_invalid (hrest.trans_lt hlen) hnext hbad rounds⟩
    · obtain ⟨hfits, hne⟩ := not_or.mp hbad
      obtain ⟨partialName, hround⟩ := @searchPathLoop_valid rest [] lookUp _ searchType s true hzeroRest
        (Nat.not_le.mp hfits) hne hnext (by rw [hdrop, List.append_nil]) rounds
      exact Or.inr (Or.inl ⟨hbad, hsplit, hround⟩)
  · rw [← hs] at hnext
    rw [List.length_append] at hrest
    by_cases hbad : part.length ≥ longNameMaxChars ∨ part = []
    · exact Or.inl ⟨part, hbad, fun m => ⟨_, hsplit m⟩,
        searchPathLoop_invalid (by omega) hnext hbad rounds⟩
    · obtain ⟨partialName, hround⟩ := @searchPathLoop_valid part (fatDelimiter :: tail) lookUp _ searchType
        s false (fun h => hzeroRest (List.mem_append_left _ h)) (Nat.not_le.mp (not_or.mp hbad).1) hne hnext
        hdrop rounds
      rw [hs, start_succ] at hround
      exact Or.inr (Or.inr ⟨part, tail, partialName, rfl, hbad, hsplit, hround⟩)

theorem append_delimiter {w : List BYTE} :
    pre ++ (w ++ fatDelimiter :: tail) = pre ++ w ++ [fatDelimiter] ++ tail := by simp

/-- The loop writes nothing outside the buffer, whatever the searches return. -/
theorem searchPathLoop_ne_dangling
    (hlookUp : ∀ sector part searchType w, lookUp sector part searchType w ≠ .error .danglingAccess)
    (rounds : ℕ) (pre rest : List BYTE) (hzero : 0 ∉ pre ++ rest) (hlen : (pre ++ rest).length < 2 ^ 32)
    (s : PathState) (hs : s.startIndexInName = BitVec.ofNat 32 pre.length) (w : World) :
    searchPathLoop lookUp (pre ++ rest) searchType rounds s w ≠ .error .danglingAccess := by
  induction rounds generalizing pre rest s w with
  | zero =>
    intro h
    cases h
  | succ rounds ih =>
    rcases searchPathLoop_round hzero hlen hs rounds with ⟨part, -, -, hround⟩ | ⟨-, -, hround⟩ |
      ⟨part, tail, partialName, rfl, -, -, hround⟩
    · rw [hround]
      intro h
      cases h
    · rw [hround]
      intro h
      rcases Prog.bind_faults h with hfault | ⟨found, w', -, hfault⟩
      · exact hlookUp _ _ _ _ hfault
      · cases hfault
    · rw [hround]
      intro h
      rcases Prog.bind_faults h with hfault | ⟨found, w', -, hfault⟩
      · exact hlookUp _ _ _ _ hfault
      · rw [append_delimiter] at hzero hlen hfault
        exact ih _ _ hzero hlen _ rfl _ hfault

/-- With enough rounds the loop goes over the names of the path. -/
theorem searchPathLoop_eq {d : FatData} {fuel m : ℕ} {wantsInformation : Bool} (rounds : ℕ)
    (pre rest : List BYTE) (hzero : 0 ∉ pre ++ rest) (hlen : (pre ++ rest).length < 2 ^ 32)
    (s : PathState) (hs : s.startIndexInName = BitVec.ofNat 32 pre.length) (hrounds : rest.length < rounds)
    (hm : rest.length ≤ m) :
    searchPathLoop (directoryLookUp d fuel wantsInformation) (pre ++ rest) searchType rounds s =
      searchNames d fuel searchType wantsInformation (splitPath (m + 1) rest) s.currentSearchSector
        s.result := by
  induction rounds generalizing pre rest s m with
  | zero => exact absurd hrounds (Nat.not_lt_zero _)
  | succ rounds ih =>
    rcases searchPathLoop_round hzero hlen hs rounds with ⟨part, hbad, hsplit, hround⟩ |
      ⟨hok, hsplit, hround⟩ | ⟨part, tail, partialName, rfl, hok, hsplit, hround⟩
    · obtain ⟨parts, hparts⟩ := hsplit m
      rw [hround, hparts]
      exact (if_pos hbad).symm
    · rw [hround, hsplit, searchNames, if_neg hok]
      rfl
    · rw [List.length_append, List.length_cons] at hrounds hm
      obtain ⟨m, rfl⟩ : ∃ n, m = n + 1 := ⟨m - 1, by lia⟩
      rw [hround, hsplit, searchNames, if_neg hok]
      dsimp only
      rw [if_neg (splitPath_ne_nil _ _)]
      rw [append_delimiter] at hzero hlen ⊢
      refine congrArg _ (funext fun found => ?_)
      exact ih _ _ hzero hlen _ rfl (by omega) (by omega)

/-- `FatSearch` on a string is the search for the names between its backslashes. -/
theorem fatSearchString_eq {d : FatData} {fuel rounds : ℕ} {wantsInformation : Bool} (hzero : 0 ∉ name)
    (hlen : name.length < 2 ^ 32) (hrounds : name.length ≤ rounds) :
    fatSearchString (directoryLookUp d fuel wantsInformation) name searchType d rounds =
      fatSearch d fuel name searchType wantsInformation := by
  unfold fatSearchString fatSearch
  cases name with
  | nil => rfl
  | cons c rest =>
    by_cases hc : c = fatDelimiter
    · subst hc
      have hone : BitVec.ofNat 32 (fatDelimiter :: rest).length = 1 ↔ (fatDelimiter :: rest).length = 1 := by
        rw [← BitVec.toNat_inj, ofNat_toNat_of_lt hlen]
        rfl
      have hfirst : ¬charAt (fatDelimiter :: rest) 0 ≠ fatDelimiter := not_not.mpr rfl
      have hhead : ¬(fatDelimiter :: rest).head? ≠ some fatDelimiter := not_not.mpr rfl
      rw [if_neg hfirst, if_neg hhead, clStrlen_eq hzero hlen, Prog.lift_ok_bind]
      by_cases hroot : (fatDelimiter :: rest).length = 1
      · rw [if_pos (hone.mpr hroot), if_pos hroot]
      · rw [if_neg (mt hone.mp hroot), if_neg hroot]
        rw [List.length_cons] at hrounds
        exact searchPathLoop_eq rounds [fatDelimiter] rest hzero hlen _ rfl (by omega) le_rfl
    · have hfirst : charAt (c :: rest) 0 ≠ fatDelimiter := hc
      have hhead : (c :: rest).head? ≠ some fatDelimiter := fun h => hc (Option.some.inj h)
      rw [if_pos hfirst, if_pos hhead]

end Rounds

/-! ### Paths of valid names -/

section Components

/-- A name that `FatSearch` looks up: not empty, without a backslash, and short enough for the buffer. -/
structure IsComponent (c : Name) : Prop where
  ne_nil : c ≠ []
  noDelimiter : fatDelimiter ∉ c
  fits : c.length < longNameMaxChars

def pathOf (components : List Name) : Name := components.flatMap (fatDelimiter :: ·)

/-- The names are looked up one after the other, each in the directory found before it. A search without
memory succeeds, and leaves what was found before. -/
def lookUpAll (lookUp : LookUp) (searchType : BYTE) : List Name → ℕ → SearchResult → FatM SearchResult
  | [], _, result => return result
  | c :: components, sector, result => do
    let found ← lookUp sector c (if components = [] then searchType else attrDirectory)
    let result := found.getD result
    lookUpAll lookUp searchType components result.searchResult result

variable {d : FatData} {fuel : ℕ} {searchType : BYTE} {wantsInformation : Bool}

theorem splitPath_pathOf {c : Name} {components : List Name} (hc : IsComponent c)
    (hall : ∀ c ∈ components, IsComponent c) {m : ℕ} (hm : components.length ≤ m) :
    splitPath m (c ++ pathOf components) = c :: components := by
  induction components generalizing c m with
  | nil =>
    rw [pathOf, List.flatMap_nil, List.append_nil]
    exact splitPath_of_last (Or.inl hc.noDelimiter) m
  | cons c' components ih =>
    rw [List.length_cons] at hm
    obtain ⟨m, rfl⟩ : ∃ n, m = n + 1 := ⟨m - 1, by omega⟩
    have hpath : pathOf (c' :: components) = fatDelimiter :: (c' ++ pathOf components) := rfl
    rw [hpath, splitPath_of_delimiter hc.noDelimiter hc.ne_nil,
      ih (hall c' List.mem_cons_self) (fun c hmem => hall c (List.mem_cons_of_mem _ hmem)) (by omega)]

theorem searchNames_eq_lookUpAll {components : List Name} (hall : ∀ c ∈ components, IsComponent c)
    (sector : ℕ) (result : SearchResult) :
    searchNames d fuel searchType wantsInformation components sector result =
      lookUpAll (directoryLookUp d fuel wantsInformation) searchType components sector result := by
  induction components generalizing sector result with
  | nil => rfl
  | cons c components ih =>
    have hc := hall c List.mem_cons_self
    have hrest : ∀ sector result, _ := fun sector result =>
      ih (fun c hmem => hall c (List.mem_cons_of_mem _ hmem)) sector result
    rw [searchNames, if_neg (not_or_intro (Nat.not_le.mpr hc.fits) hc.ne_nil), lookUpAll]
    simp only [hrest]
    rfl

theorem length_le_pathOf (components : List Name) : components.length ≤ (pathOf components).length := by
  induction components with
  | nil => exact le_rfl
  | cons c components ih =>
    have hpath : pathOf (c :: components) = fatDelimiter :: (c ++ pathOf components) := rfl
    rw [hpath, List.length_cons, List.length_cons, List.length_append]
    omega

/-- The search for a path of valid names. -/
theorem fatSearch_pathOf {components : List Name} (hne : components ≠ [])
    (hall : ∀ c ∈ components, IsComponent c) :
    fatSearch d fuel (pathOf components) searchType wantsInformation =
      lookUpAll (directoryLookUp d fuel wantsInformation) searchType components
        (d.sectorOf d.rootCluster) ⟨0, 0⟩ := by
  obtain ⟨c, components, rfl⟩ := List.exists_cons_of_ne_nil hne
  have hc := hall c List.mem_cons_self
  have hpath : pathOf (c :: components) = fatDelimiter :: (c ++ pathOf components) := rfl
  have hpos := List.length_pos_of_ne_nil hc.ne_nil
  have hlength : (fatDelimiter :: (c ++ pathOf components)).length =
      c.length + (pathOf components).length + 1 := by rw [List.length_cons, List.length_append]
  have hle := length_le_pathOf components
  have hhead : ¬(fatDelimiter :: (c ++ pathOf components)).head? ≠ some fatDelimiter := not_not.mpr rfl
  rw [hpath, fatSearch, if_neg hhead, if_neg (by omega), List.tail_cons,
    splitPath_pathOf hc (fun c hmem => hall c (List.mem_cons_of_mem _ hmem)) (by omega)]
  exact searchNames_eq_lookUpAll hall _ _

end Components

/-! ### Halting -/

/-- Each run ends: with enough rounds it returns or fails an assertion. -/
def Halts {α : Type} (x : ℕ → FatM α) (v : Volume) : Prop :=
  ∀ o t, ReadsMet o → ∃ bound, ∀ fuel ≥ bound, x fuel ⟨v, t, o⟩ ≠ .error .outOfFuel

section Halting

variable {α β : Type} {x : ℕ → FatM α} {f : ℕ → α → FatM β} {v u : Volume}

theorem Halts.of_total (h : ∀ n, Total (x n)) : Halts x v := by
  intro o t _
  refine ⟨0, fun fuel _ => ?_⟩
  obtain ⟨r, w, hrun⟩ := h fuel ⟨v, t, o⟩
  rw [hrun]
  exact fun h => (nomatch h)

theorem Halts.bind (hx : Halts x v) (hbounded : Bounded x)
    (hf : ∀ n a u, Can (x n) v (.ok a) u → Halts (fun m => f m a) u) :
    Halts (fun n => x n >>= f n) v := by
  intro o t ho
  obtain ⟨bound, hbound⟩ := hx o t ho
  by_cases hreturns : ∃ n a w, x n ⟨v, t, o⟩ = .ok (.ok a, w)
  · obtain ⟨n, a, w, hrun⟩ := hreturns
    obtain ⟨k, hw, -⟩ := hbounded.each _ _ _ _ _ _ hrun
    rw [hw] at hrun
    obtain ⟨bound', hbound'⟩ := hf n a _ ⟨o, t, _, ho, hrun⟩ o (t + k) ho
    refine ⟨max n bound', fun fuel hfuel => ?_⟩
    beta_reduce
    rw [Prog.bind_of_ok (hbounded.le (le_of_max_le_left hfuel) hrun)]
    exact hbound' fuel (le_of_max_le_right hfuel)
  · refine ⟨bound, fun fuel hfuel h => ?_⟩
    rcases Prog.bind_faults h with hfault | ⟨a, w, hrun, -⟩
    · exact hbound fuel hfuel hfault
    · exact hreturns ⟨fuel, a, w, hrun⟩

variable {d : FatData} {σ ρ : Type} {k : DirectoryWalk σ ρ}

theorem scanCluster_ne_outOfFuel (hk : ∀ sector s e, k.visit sector s e ≠ .error .outOfFuel)
    (sector : ℕ) : ∀ n index s, scanCluster d k v sector n index s ≠ .error .outOfFuel := by
  intro n
  induction n with
  | zero => exact fun _ _ => by rintro ⟨⟩
  | succ n ih =>
    intro index s
    cases hvisit : k.visit sector s (v.entryAt d sector index) with
    | error e =>
      rw [scanCluster, hvisit]
      intro h
      obtain rfl : e = .outOfFuel := Except.error.inj h
      exact hk _ _ _ hvisit
    | ok visit =>
      cases visit with
      | stop r =>
        rw [scanCluster, hvisit]
        rintro ⟨⟩
      | next s' =>
        rw [scanCluster_of_next hvisit]
        split_ifs
        · rintro ⟨⟩
        · exact ih _ _

/-- A walk that ends does so within the number of its clusters. -/
theorem walkDirectory_ne_outOfFuel (hk : ∀ sector s e, k.visit sector s e ≠ .error .outOfFuel)
    {n : ℕ} {a : ℕ × σ} (hends : after (k.next d v) n a = none) (hu : SameWalks v u) {o : Outcome}
    (ho : ReadsMet o) (t : ℕ) : walkDirectory d k n a.1 a.2 ⟨u, t, o⟩ ≠ .error .outOfFuel := by
  induction n generalizing a u t with
  | zero => cases hends
  | succ n ih =>
    have hmemory : request .memory k.site ⟨u, t, o⟩ = .ok (.ok (o .memory k.site t), ⟨u, t + 1, o⟩) := rfl
    have hread : ioDevice .read k.site ⟨u, t + 1, o⟩ = .ok (.ok (), ⟨u, t + 2, o⟩) :=
      ioDevice_eq_of_met (ho _ _)
    have hvolume : volume ⟨u, t + 2, o⟩ = .ok (.ok u, ⟨u, t + 2, o⟩) := rfl
    have hanswer : ∀ (r : Except FatStatus ρ) w, answer r w ≠ .error .outOfFuel := by
      intro r w
      obtain ⟨r', w', hrun⟩ := total_answer r w
      rw [hrun]
      exact fun h => (nomatch h)
    rw [walkDirectory_succ, walkRound, Prog.bind_of_ok hmemory]
    by_cases hmet : ¬o .memory k.site t = true
    · rw [if_pos hmet]
      exact hanswer _ _
    rw [if_neg hmet, scanRound, Prog.bind_of_ok hread, Prog.bind_of_ok hvolume, scanCluster_congr hu.data]
    cases hscan : scanCluster d k v a.1 d.entriesPerCluster 0 a.2 with
    | error e =>
      intro h
      obtain rfl : e = .outOfFuel := Except.error.inj h
      exact scanCluster_ne_outOfFuel hk _ _ _ _ hscan
    | ok scanned =>
      rw [Prog.lift_ok_bind]
      cases scanned with
      | stop r => exact hanswer _ _
      | endOfDirectory s => exact hanswer _ _
      | endOfCluster s =>
        have hbuffer : request .pastBuffer k.site ⟨u, t + 2, o⟩ =
            .ok (.ok (o .pastBuffer k.site (t + 2)), ⟨u, t + 3, o⟩) := rfl
        rw [afterScan, Prog.bind_of_ok hbuffer]
        by_cases hlive : ¬o .pastBuffer k.site (t + 2) = true
        · rw [if_pos hlive]
          exact hanswer _ _
        rw [if_neg hlive]
        intro h
        rcases Prog.bind_faults h with hfault | ⟨next, w, hrun, hfault⟩
        · obtain ⟨r, w, hrun⟩ := total_nextSectorInClusterChain (d := d) a.1 ⟨u, t + 3, o⟩
          rw [hrun] at hfault
          cases hfault
        · split_ifs at hfault with hzero
          · exact hanswer _ _ hfault
          obtain ⟨j, hw, -⟩ := local_nextSectorInClusterChain _ _ _ _ _ _ hrun
          rw [hw] at hrun hfault
          obtain ⟨hsector, hu'⟩ := (nextSectorInClusterChain_behaves a.1).sound 0 u _ _ hu
            ⟨o, _, _, ho, hrun⟩
          have hfollowing : v.following d a.1 = some next :=
            Volume.following_eq_some.mpr ⟨(hsector.resolve_right not_failed_ok).symm, hzero⟩
          have hnext : k.next d v a = some (next, s) := by
            unfold DirectoryWalk.next DirectoryWalk.scan
            rw [hscan]
            exact congrArg (Option.map fun sector => (sector, s)) hfollowing
          exact ih (after_succ_eq_none.mp hends _ hnext) hu' _ hfault

theorem writeChars_ne_outOfFuel (chars : Name) (index : ℕ) (buffer : NameBuffer) :
    writeChars chars index buffer ≠ .error .outOfFuel := by
  induction chars generalizing index buffer with
  | nil => rintro ⟨⟩
  | cons c chars ih =>
    unfold writeChars
    split_ifs
    · exact ih _ _
    · rintro ⟨⟩

theorem writePartial_ne_outOfFuel (e : DirEntry) (buffer : NameBuffer) :
    writePartialLongFatNameToName e buffer ≠ .error .outOfFuel := by
  unfold writePartialLongFatNameToName
  dsimp only
  cases hwrite : writeChars (cString e.longNameChars) (longNameTotalChars *
      ((e.name 0 &&& ~~~longNameOrdEndMask).setWidth 32 - 1)).toNat buffer with
  | error e' =>
    intro h
    obtain rfl : e' = .outOfFuel := Except.error.inj h
    exact writeChars_ne_outOfFuel _ _ _ hwrite
  | ok written =>
    change (if _ then _ else _) ≠ _
    split_ifs <;> exact fun h => (nomatch h)

theorem searchWalk_visit_ne_outOfFuel {name : Name} {searchType : BYTE} {wantsInformation : Bool}
    (sector : ℕ) (s : NameBuffer) (e : DirEntry) :
    (searchWalk d name searchType wantsInformation).visit sector s e ≠ .error .outOfFuel := by
  change visitEntry (fun _ longName => longName) id
    (searchShort d name searchType wantsInformation sector) s e ≠ _
  unfold visitEntry
  split_ifs
  · exact fun h => (nomatch h)
  · cases hwrite : writePartialLongFatNameToName e (id s) with
    | error e' =>
      intro h
      obtain rfl : e' = .outOfFuel := Except.error.inj h
      exact writePartial_ne_outOfFuel _ _ hwrite
    | ok longName => exact fun h => (nomatch h)
  · unfold searchShort
    split_ifs <;> exact fun h => (nomatch h)

theorem fatSearchDirectoryEntry_halts {sector : ℕ} {name : Name} {searchType : BYTE}
    {wantsInformation : Bool} (hacyclic : NeverRepeats (v.following d) sector) (hu : SameWalks v u) :
    Halts (fun n => fatSearchDirectoryEntry d n sector name searchType wantsInformation) u := by
  intro o t ho
  obtain ⟨l, hl⟩ := exists_listed hacyclic
  have hends : Ends ((searchWalk d name searchType wantsInformation).next d v)
      (sector, NameBuffer.empty) := hl.ends NameBuffer.empty
  obtain ⟨n, hn⟩ := hends
  exact ⟨n, fun fuel hfuel => walkDirectory_ne_outOfFuel searchWalk_visit_ne_outOfFuel
    (after_none_of_le hn hfuel) hu ho t⟩

/-- No chain of clusters comes back to one of its sectors. -/
def AcyclicChains (d : FatData) (v : Volume) : Prop := ∀ sector, NeverRepeats (v.following d) sector

theorem searchNames_halts {searchType : BYTE} {wantsInformation : Bool} (hacyclic : AcyclicChains d v)
    (names : List Name) (sector : ℕ) (result : SearchResult) (hu : SameWalks v u) :
    Halts (fun n => searchNames d n searchType wantsInformation names sector result) u := by
  induction names generalizing sector result u with
  | nil => exact .of_total fun _ => .ret _
  | cons name names ih =>
    by_cases hbad : name.length ≥ longNameMaxChars ∨ name = []
    · have hfail : (fun n => searchNames d n searchType wantsInformation (name :: names) sector result) =
          fun _ => Prog.fail .pathNotValid := funext fun n => if_pos hbad
      rw [hfail]
      exact .of_total fun _ => .fail _
    · have hsearch : (fun n => searchNames d n searchType wantsInformation (name :: names) sector result) =
          _ := funext fun n => if_neg hbad
      rw [hsearch]
      refine Halts.bind (fatSearchDirectoryEntry_halts (hacyclic sector) hu) (walkDirectory_bounded (_, _))
        fun n found u' hcan => ?_
      have hu' := ((fatSearchDirectoryEntry_behaves (v := v) sector name _ _).sound n u _ _ hu hcan).2
      exact ih _ _ hu'

theorem fatSearch_halts {searchType : BYTE} {wantsInformation : Bool} (hacyclic : AcyclicChains d v)
    (name : Name) : Halts (fun n => fatSearch d n name searchType wantsInformation) v := by
  unfold fatSearch
  split_ifs
  · exact .of_total fun _ => .fail _
  · exact .of_total fun _ => .fail _
  · exact .of_total fun _ => .ret _
  · exact searchNames_halts hacyclic _ _ _ (.refl v)

end Halting

/-! ### Resolution -/

/-- A path of valid names is resolved name by name, and whatever the string is, the search ends on acyclic
chains and writes nothing outside the buffer for a name. -/
structure ResolvesPaths (d : FatData) (name : ZString) : Prop where
  componentWise : ∀ components, components ≠ [] → (∀ c ∈ components, IsComponent c) →
    name.chars = pathOf components → ∀ fuel rounds searchType wantsInformation,
      name.chars.length ≤ rounds →
        fatSearchString (directoryLookUp d fuel wantsInformation) name.chars searchType d rounds =
          lookUpAll (directoryLookUp d fuel wantsInformation) searchType components
            (d.sectorOf d.rootCluster) ⟨0, 0⟩
  terminates : ∀ v, AcyclicChains d v → ∀ searchType wantsInformation,
    Halts (fun n => fatSearchString (directoryLookUp d n wantsInformation) name.chars searchType d n) v
  staysInBuffer : ∀ lookUp rounds searchType w,
    (∀ sector part searchType w, lookUp sector part searchType w ≠ .error .danglingAccess) →
      fatSearchString lookUp name.chars searchType d rounds w ≠ .error .danglingAccess

section Resolution

variable {d : FatData} {name : ZString}

theorem fatSearchString_ne_dangling {lookUp : LookUp} {rounds : ℕ} {searchType : BYTE} {w : World}
    (hlen : name.chars.length < 2 ^ 32)
    (hlookUp : ∀ sector part searchType w, lookUp sector part searchType w ≠ .error .danglingAccess) :
    fatSearchString lookUp name.chars searchType d rounds w ≠ .error .danglingAccess := by
  unfold fatSearchString
  by_cases hfirst : charAt name.chars 0 ≠ fatDelimiter
  · rw [if_pos hfirst]
    exact fun h => (nomatch h)
  rw [if_neg hfirst, clStrlen_eq name.zero_notMem hlen, Prog.lift_ok_bind]
  split_ifs
  · exact fun h => (nomatch h)
  · exact fun h => (nomatch h)
  · obtain ⟨c, rest, hname⟩ : ∃ c rest, name.chars = c :: rest := by
      refine List.exists_cons_of_ne_nil fun hnil => hfirst ?_
      rw [hnil]
      decide
    have hzero := name.zero_notMem
    rw [hname] at hlen hzero ⊢
    exact searchPathLoop_ne_dangling hlookUp rounds [c] rest hzero hlen _ rfl w

/-- The string is shorter than `2 ^ 32`, so that its length is a `DWORD`. -/
theorem resolvesPaths (d : FatData) (name : ZString) (hlen : name.chars.length < 2 ^ 32) :
    ResolvesPaths d name where
  componentWise components hne hall hname fuel rounds searchType wantsInformation hrounds := by
    rw [fatSearchString_eq name.zero_notMem hlen hrounds, hname]
    exact fatSearch_pathOf hne hall
  terminates v hacyclic searchType wantsInformation o t ho := by
    obtain ⟨bound, hbound⟩ :=
      @fatSearch_halts v d searchType wantsInformation hacyclic name.chars o t ho
    refine ⟨max bound name.chars.length, fun fuel hfuel => ?_⟩
    beta_reduce
    rw [fatSearchString_eq name.zero_notMem hlen (le_of_max_le_right hfuel)]
    exact hbound fuel (le_of_max_le_left hfuel)
  staysInBuffer lookUp rounds searchType w hlookUp := fatSearchString_ne_dangling hlen hlookUp

/-- The path `\AB\C\A`. -/
theorem resolvesPaths_nested :
    ResolvesPaths smallDisk ⟨[0x5C, 0x41, 0x42, 0x5C, 0x43, 0x5C, 0x41], by decide⟩ :=
  resolvesPaths smallDisk _ (by decide)

/-- A backslash and `2 ^ 32` characters. -/
def endlessPath : ZString where
  chars := fatDelimiter :: List.replicate (2 ^ 32) 0x41
  zero_notMem h := by
    rcases List.mem_cons.mp h with hfirst | hrest
    · exact absurd hfirst (by decide)
    · exact absurd (List.eq_of_mem_replicate hrest) (by decide)

theorem clStrlen_of_ge {str : List BYTE} (hzero : 0 ∉ str) (hlen : 2 ^ 32 ≤ str.length) :
    clStrlen str = .error .outOfFuel := by
  have hloop : ∀ fuel i, searchLoop str (fun _ => false) fuel i = .error .outOfFuel := by
    intro fuel
    induction fuel with
    | zero => exact fun _ => rfl
    | succ fuel ih =>
      intro i
      have hchar : ¬(charAt str i.toNat = 0 ∨ false = true) :=
        not_or_intro ((charAt_ne_zero_iff hzero).mpr (i.isLt.trans_le hlen)) Bool.false_ne_true
      rw [searchLoop, if_neg hchar]
      exact ih _
  exact hloop _ _

/-- Every entry of the table ends a chain. -/
def endedVolume : Volume where
  fat _ := fat32EocMark
  fsInfo := .zero
  data _ _ := .zero

theorem acyclicChains_endedVolume : AcyclicChains d endedVolume := by
  intro sector
  have hnone : endedVolume.following d sector = none := by
    refine Option.eq_none_iff_forall_ne_some.mpr fun next hnext => ?_
    obtain ⟨hsector, hne⟩ := Volume.following_eq_some.mp hnext
    unfold Volume.nextSector at hsector
    cases hcluster : d.clusterAt sector with
    | error e =>
      rw [hcluster] at hsector
      cases hsector
    | ok cluster =>
      rw [hcluster] at hsector
      have hlink : endedVolume.link cluster = fat32EocMark.toNat :=
        Volume.link_of_mark (by decide : clusterOf fat32EocMark = fat32EocMark.toNat)
      have hzero : d.sectorAfter (endedVolume.link cluster) = .ok 0 := by
        rw [hlink]
        exact if_pos (by decide)
      change d.sectorAfter (endedVolume.link cluster) = .ok next at hsector
      rw [hzero] at hsector
      exact hne (Except.ok.inj hsector).symm
  exact (ends_of_none hnone).neverRepeats

/-- The length of a string of `2 ^ 32` characters is never found. -/
theorem not_resolvesPaths : ¬∀ d name, ResolvesPaths d name := by
  intro h
  have hlen : 2 ^ 32 ≤ endlessPath.chars.length := by
    have hchars : endlessPath.chars.length = (List.replicate (2 ^ 32) (0x41 : BYTE)).length + 1 :=
      List.length_cons
    rw [hchars, List.length_replicate]
    exact Nat.le_succ _
  obtain ⟨bound, hbound⟩ := (h smallDisk endlessPath).terminates endedVolume acyclicChains_endedVolume
    attrDirectory false (fun _ _ _ => true) 0 fun _ _ => rfl
  refine hbound bound le_rfl ?_
  have hfirst : ¬charAt endlessPath.chars 0 ≠ fatDelimiter := not_not.mpr rfl
  beta_reduce
  rw [fatSearchString, if_neg hfirst, clStrlen_of_ge endlessPath.zero_notMem hlen]
  rfl

end Resolution

end HAL9000.Fat32
