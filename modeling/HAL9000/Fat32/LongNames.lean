import HAL9000.Fat32.Names

/-! Long names on a volume. The format puts the characters of a name into entries of 13 each, with the
entry of the last characters first; `WritePartialLongFatNameToName` reads them back. -/
namespace HAL9000.Fat32

/-- A character of a long name: a `'\0'` follows the name if there is room, then padding. -/
def longNameUnit (name : Name) (i : ℕ) : WORD :=
  if i < name.length then (name.getD i 0).setWidth 16 else if i = name.length then 0 else 0xFFFF

def longEntryCount (name : Name) : ℕ := (name.length + 12) / 13

/-- The ordinals are counted from 1; the entry of the last characters is marked. -/
def longEntryOrd (k : ℕ) (isLast : Bool) : BYTE :=
  BitVec.ofNat 8 (k + 1) ||| if isLast then longNameOrdEndMask else 0

/-- The entry of the characters from `13 * k` on. -/
def longEntry (name : Name) (checksum : BYTE) (k : ℕ) : DirEntry where
  name j :=
    if j = 0 then longEntryOrd k (k + 1 = longEntryCount name)
    else if j.val % 2 = 1 then (longNameUnit name (13 * k + j / 2)).setWidth 8
    else (longNameUnit name (13 * k + (j / 2 - 1)) >>> 8).setWidth 8
  attr := attrLongName
  ntRes := 0
  crtTimeTenth := checksum
  crtTime := longNameUnit name (13 * k + 5)
  crtDate := longNameUnit name (13 * k + 6)
  lstAccDate := longNameUnit name (13 * k + 7)
  fstClusHI := longNameUnit name (13 * k + 8)
  wrtTime := longNameUnit name (13 * k + 9)
  wrtDate := longNameUnit name (13 * k + 10)
  fstClusLO := 0
  fileSize := longNameUnit name (13 * k + 12) ++ longNameUnit name (13 * k + 11)

/-- The first `n` entries of a name, in the order in which they are on the volume. -/
def longEntries (name : Name) (checksum : BYTE) : ℕ → List DirEntry
  | 0 => []
  | k + 1 => longEntry name checksum k :: longEntries name checksum k

/-- The calls for the entries before a short one. -/
def collectLongName : List DirEntry → NameBuffer → Except Fault NameBuffer
  | [], buffer => .ok buffer
  | e :: entries, buffer => do
    let buffer ← writePartialLongFatNameToName e buffer
    collectLongName entries buffer

section Chars

variable {name : Name} {checksum : BYTE} {k : ℕ}

private theorem getLsbD_words (hi lo : WORD) (i : ℕ) :
    (hi ++ lo : DWORD).getLsbD i = if i < 16 then lo.getLsbD i else hi.getLsbD (i - 16) :=
  BitVec.getLsbD_append

/-- The low bytes of the two halves. -/
private theorem setWidth_words (hi lo : WORD) : (hi ++ lo : DWORD).setWidth 8 = lo.setWidth 8 ∧
    ((hi ++ lo : DWORD) >>> 16).setWidth 8 = hi.setWidth 8 := by
  constructor
  · refine BitVec.eq_of_getLsbD_eq fun i hi' => ?_
    rw [BitVec.getLsbD_setWidth, BitVec.getLsbD_setWidth, getLsbD_words, if_pos (by omega)]
  · refine BitVec.eq_of_getLsbD_eq fun i hi' => ?_
    rw [BitVec.getLsbD_setWidth, BitVec.getLsbD_setWidth, BitVec.getLsbD_ushiftRight, getLsbD_words,
      if_neg (by omega), Nat.add_sub_cancel_left]

theorem longNameChars_longEntry : (longEntry name checksum k).longNameChars =
    (List.range' (13 * k) 13).map fun i => (longNameUnit name i).setWidth 8 := by
  have hlast := setWidth_words (longNameUnit name (13 * k + 12)) (longNameUnit name (13 * k + 11))
  have hsize : (longEntry name checksum k).fileSize =
    longNameUnit name (13 * k + 12) ++ longNameUnit name (13 * k + 11) := rfl
  unfold DirEntry.longNameChars
  rw [hsize, hlast.1, hlast.2]
  rfl

/-- The characters up to the first `'\0'`. -/
theorem cString_units (h0 : 0 ∉ name) {a : ℕ} (n : ℕ) (ha : a ≤ name.length) :
    cString ((List.range' a n).map fun i => (longNameUnit name i).setWidth 8) =
      (name.drop a).take n := by
  induction n generalizing a with
  | zero => rfl
  | succ n ih =>
    rw [List.range'_succ, List.map_cons]
    unfold cString longNameUnit at *
    by_cases hlt : a < name.length
    · have hne : name[a] ≠ 0 := fun h => h0 (h ▸ List.getElem_mem hlt)
      have hunit : ((name.getD a 0).setWidth 16).setWidth 8 = name[a] := by
        rw [List.getD_eq_getElem _ _ hlt]
        ext i hi
        simp
      rw [if_pos hlt, hunit, List.takeWhile_cons_of_pos (by simpa using hne), ih hlt,
        List.drop_eq_getElem_cons hlt, List.take_succ_cons]
    · have hend : a = name.length := by omega
      rw [if_neg hlt, if_pos hend, List.takeWhile_cons_of_neg (by simp), hend]
      simp

end Chars

section Calls

variable {name chars : Name} {checksum : BYTE} {k : ℕ} {buffer : NameBuffer}

/-- The characters from `a` on are in the buffer, with a `'\0'` after them. -/
def HoldsFrom (buffer : NameBuffer) (name : Name) (a : ℕ) : Prop :=
  (∀ i : Fin 256, a ≤ i → i < name.length → buffer i = name.getD i 0) ∧
    ∀ i : Fin 256, i = name.length → buffer i = 0

theorem writeChars_eq {index : ℕ} (hfits : index + chars.length ≤ longNameMaxChars) :
    ∃ buffer', writeChars chars index buffer = .ok (index + chars.length, buffer') ∧
      ∀ i : Fin 256, buffer' i =
        if index ≤ i ∧ i < index + chars.length then chars.getD (i - index) 0 else buffer i := by
  induction chars generalizing index buffer with
  | nil => exact ⟨buffer, rfl, fun i => (if_neg fun h => absurd h.2 (by simpa using h.1)).symm⟩
  | cons c chars ih =>
    rw [List.length_cons] at hfits
    have hlt : index < longNameMaxChars := by omega
    obtain ⟨buffer', hrun, hbuffer⟩ :=
      @ih (Function.update buffer ⟨index, Nat.lt_succ_of_lt hlt⟩ c) (index + 1) (by omega)
    refine ⟨buffer', ?_, fun i => ?_⟩
    · unfold writeChars
      rw [dif_pos hlt, hrun, List.length_cons, Nat.add_right_comm, Nat.add_assoc]
    · rw [hbuffer i, List.length_cons]
      by_cases heq : i.val = index
      · have hi : i = ⟨index, Nat.lt_succ_of_lt hlt⟩ := Fin.ext heq
        rw [if_neg (by omega), if_pos (by omega), hi, Function.update_self, Nat.sub_self]
        rfl
      · have hne : i ≠ ⟨index, Nat.lt_succ_of_lt hlt⟩ := fun h => heq (congrArg Fin.val h)
        rw [Function.update_of_ne hne]
        by_cases hin : index + 1 ≤ i ∧ i < index + 1 + chars.length
        · obtain ⟨j, hj⟩ : ∃ j, i.val - index = j + 1 := ⟨i - index - 1, by omega⟩
          rw [if_pos hin, if_pos (by omega), hj, show i.val - (index + 1) = j by omega]
          rfl
        · rw [if_neg hin, if_neg (by omega)]

/-- What an entry writes when its characters fit. -/
theorem writePartial_eq {e : DirEntry} {index : ℕ}
    (hindex : (longNameTotalChars *
      ((e.name 0 &&& ~~~longNameOrdEndMask).setWidth 32 - 1)).toNat = index)
    (hfits : index + (cString e.longNameChars).length ≤ longNameMaxChars) :
    ∃ buffer', writePartialLongFatNameToName e buffer = .ok buffer' ∧ ∀ i : Fin 256, buffer' i =
      if index ≤ i ∧ i < index + (cString e.longNameChars).length then
        (cString e.longNameChars).getD (i - index) 0
      else if e.name 0 &&& longNameOrdEndMask = longNameOrdEndMask ∧
        i = index + (cString e.longNameChars).length then 0
      else buffer i := by
  obtain ⟨buffer₁, hrun, hbuffer⟩ := @writeChars_eq (cString e.longNameChars) buffer index hfits
  have hlt : index + (cString e.longNameChars).length < 256 := by
    unfold longNameMaxChars at hfits
    omega
  unfold writePartialLongFatNameToName
  dsimp only
  rw [hindex, hrun]
  by_cases hend : e.name 0 &&& longNameOrdEndMask = longNameOrdEndMask
  · refine ⟨Function.update buffer₁ ⟨_, hlt⟩ 0, (if_pos hend).trans (dif_pos hlt), fun i => ?_⟩
    by_cases heq : i = ⟨index + (cString e.longNameChars).length, hlt⟩
    · rw [heq, Function.update_self, if_neg (fun h => lt_irrefl _ h.2), if_pos ⟨hend, rfl⟩]
    · have hne : i.val ≠ index + (cString e.longNameChars).length := fun h => heq (Fin.ext h)
      have hother : ¬(e.name 0 &&& longNameOrdEndMask = longNameOrdEndMask ∧
          i.val = index + (cString e.longNameChars).length) := fun h => hne h.2
      rw [Function.update_of_ne heq, hbuffer i, if_neg hother]
  · refine ⟨buffer₁, if_neg hend, fun i => ?_⟩
    have hother : ¬(e.name 0 &&& longNameOrdEndMask = longNameOrdEndMask ∧
        i.val = index + (cString e.longNameChars).length) := fun h => hend h.1
    rw [hbuffer i, if_neg hother]

theorem longEntryOrd_eq {isLast : Bool} (hk : k < 20) :
    (longNameTotalChars *
        ((longEntryOrd k isLast &&& ~~~longNameOrdEndMask).setWidth 32 - 1)).toNat = 13 * k ∧
      (longEntryOrd k isLast &&& longNameOrdEndMask = longNameOrdEndMask ↔ isLast = true) := by
  have hall : ∀ k : Fin 20, ∀ isLast : Bool,
      (longNameTotalChars *
          ((longEntryOrd k isLast &&& ~~~longNameOrdEndMask).setWidth 32 - 1)).toNat = 13 * k ∧
        (longEntryOrd k isLast &&& longNameOrdEndMask = longNameOrdEndMask ↔ isLast = true) := by
    decide
  exact hall ⟨k, hk⟩ isLast

/-- An entry adds its characters to those that are in the buffer already. -/
theorem writePartial_longEntry (h0 : 0 ∉ name) (hlen : name.length ≤ longNameMaxChars)
    (hk : k < longEntryCount name)
    (hrest : k + 1 < longEntryCount name → HoldsFrom buffer name (13 * (k + 1))) :
    ∃ buffer', writePartialLongFatNameToName (longEntry name checksum k) buffer = .ok buffer' ∧
      HoldsFrom buffer' name (13 * k) := by
  have hcount : longEntryCount name = (name.length + 12) / 13 := rfl
  unfold longNameMaxChars at hlen
  have hchars : cString (longEntry name checksum k).longNameChars = (name.drop (13 * k)).take 13 := by
    rw [longNameChars_longEntry, cString_units h0 13 (by omega)]
  have hlength : ((name.drop (13 * k)).take 13).length = min 13 (name.length - 13 * k) := by
    rw [List.length_take, List.length_drop]
  obtain ⟨hord, hend⟩ := @longEntryOrd_eq k (k + 1 = longEntryCount name) (by omega)
  have hname : (longEntry name checksum k).name 0 =
      longEntryOrd k (k + 1 = longEntryCount name) := rfl
  obtain ⟨buffer', hrun, hbuffer⟩ := @writePartial_eq buffer (longEntry name checksum k) (13 * k)
    (by rw [hname, hord]) (by rw [hchars, hlength]; unfold longNameMaxChars; omega)
  simp only [hchars, hlength, hname, hend, decide_eq_true_eq] at hbuffer
  refine ⟨buffer', hrun, fun i hge hlt => ?_, fun i hi => ?_⟩
  · rw [hbuffer i]
    by_cases hin : i.val < 13 * k + min 13 (name.length - 13 * k)
    · rw [if_pos ⟨hge, hin⟩, List.getD_eq_getElem?_getD, List.getElem?_take_of_lt (by omega),
        List.getElem?_drop, Nat.add_sub_cancel' hge, ← List.getD_eq_getElem?_getD]
    · rw [if_neg fun h => hin h.2, if_neg fun h => absurd h.2 (by omega)]
      exact (hrest (by omega)).1 i (by omega) hlt
  · rw [hbuffer i, if_neg (by omega)]
    by_cases hlast : k + 1 = longEntryCount name
    · rw [if_pos ⟨hlast, by lia⟩]
    · rw [if_neg fun h => hlast h.1]
      exact (hrest (by omega)).2 i hi

theorem collectLongName_longEntries (h0 : 0 ∉ name) (hlen : name.length ≤ longNameMaxChars)
    (hk : k ≤ longEntryCount name)
    (hrest : k < longEntryCount name → HoldsFrom buffer name (13 * k)) :
    ∃ buffer', collectLongName (longEntries name checksum k) buffer = .ok buffer' ∧
      (0 < longEntryCount name → HoldsFrom buffer' name 0) := by
  induction k generalizing buffer with
  | zero => exact ⟨buffer, rfl, hrest⟩
  | succ k ih =>
    obtain ⟨buffer₁, hrun, hbuffer⟩ := @writePartial_longEntry name checksum k buffer h0 hlen hk hrest
    obtain ⟨buffer', hrest', hbuffer'⟩ := @ih buffer₁ (Nat.le_of_succ_le hk) fun _ => hbuffer
    refine ⟨buffer', ?_, hbuffer'⟩
    unfold longEntries collectLongName
    rw [hrun]
    exact hrest'

theorem HoldsFrom.name_eq (h0 : 0 ∉ name) (hlen : name.length ≤ longNameMaxChars)
    (h : HoldsFrom buffer name 0) : buffer.name = name := by
  unfold longNameMaxChars at hlen
  have hsplit : List.ofFn buffer = name ++ 0 :: (List.ofFn buffer).drop (name.length + 1) := by
    refine List.ext_getElem? fun i => ?_
    rcases Nat.lt_trichotomy i name.length with hlt | heq | hgt
    · rw [List.getElem?_append_left hlt, List.getElem?_ofFn, dif_pos (by omega),
        h.1 ⟨i, by omega⟩ (Nat.zero_le _) hlt, List.getD_eq_getElem _ _ hlt,
        List.getElem?_eq_getElem hlt]
    · rw [List.getElem?_append_right heq.ge, heq, Nat.sub_self, List.getElem?_cons_zero,
        List.getElem?_ofFn, dif_pos (by omega), h.2 ⟨name.length, by omega⟩ rfl]
    · obtain ⟨j, rfl⟩ := Nat.exists_eq_add_of_lt hgt
      rw [List.getElem?_append_right (by omega), show name.length + j + 1 - name.length = j + 1 by omega,
        List.getElem?_cons_succ, List.getElem?_drop, Nat.add_right_comm]
  unfold NameBuffer.name cString
  rw [hsplit, List.takeWhile_append_of_pos fun c hc => by simpa using ne_of_mem_of_not_mem hc h0,
    List.takeWhile_cons_of_neg (by simp), List.append_nil]

end Calls

/-- A name that is written as the format prescribes is read back into any buffer. -/
theorem longEntries_decode (name : Name) (checksum : BYTE) (buffer : NameBuffer)
    (hpos : 1 ≤ name.length) (hlen : name.length ≤ 255) (h0 : ∀ c ∈ name, c ≠ 0) :
    ∃ buffer', collectLongName (longEntries name checksum (longEntryCount name)) buffer =
      .ok buffer' ∧ buffer'.name = name := by
  have hnot : 0 ∉ name := fun h => h0 0 h rfl
  have hcount : longEntryCount name = (name.length + 12) / 13 := rfl
  obtain ⟨buffer', hrun, hbuffer⟩ := @collectLongName_longEntries name checksum
    (longEntryCount name) buffer hnot hlen le_rfl fun h => absurd h (lt_irrefl _)
  exact ⟨buffer', hrun, (hbuffer (by lia)).name_eq hnot hlen⟩

/-- `readme.textile`, in two entries. -/
def readmeName : Name :=
  [0x72, 0x65, 0x61, 0x64, 0x6D, 0x65, 0x2E, 0x74, 0x65, 0x78, 0x74, 0x69, 0x6C, 0x65]

theorem readmeName_decode : ∃ buffer',
    collectLongName (longEntries readmeName 0x5A (longEntryCount readmeName)) (fun _ => 0x78) =
      .ok buffer' ∧ buffer'.name = readmeName :=
  longEntries_decode readmeName 0x5A (fun _ => 0x78) (by decide) (by decide) (by decide)

end HAL9000.Fat32
