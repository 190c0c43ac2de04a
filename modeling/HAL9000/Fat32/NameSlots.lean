import HAL9000.Fat32.DirectoryRecords
import HAL9000.Fat32.LongNames

/-! Directories as sequences of files with their long names, and what `FatQueryDirectory` reads of them.
The ordinal of the fifth part of a long name, 5, is also the mark of a free entry. -/
namespace HAL9000.Fat32

open FileDirectoryInformation

/-- A free entry, an entry without a long name, or one behind the parts of its long name. -/
inductive Slot
  | free (e : DirEntry)
  | file (e : DirEntry)
  | named (name : Name) (checksum : BYTE) (e : DirEntry)

namespace DirEntry

variable (e : DirEntry)

def base : Name := ((List.ofFn e.name).take 8).rdropWhile (· = space)

def extension : Name := ((List.ofFn e.name).drop 8).rdropWhile (· = space)

/-- The name without its padding. -/
def shortName : Name := e.base ++ if e.extension = [] then [] else dot :: e.extension

/-- After a space, the extension is padding. -/
def ExtensionPadded : Prop :=
  ∀ i j : Fin 11, 8 ≤ i.val → i < j → e.name i = space → e.name j = space

/-- The name is not empty and has no `'\0'`, and the dates are valid. -/
structure Legal : Prop where
  short : e.isShort = true
  dates : e.hasDates = true
  chars : ∀ i, e.name i ≠ 0
  first : e.name 0 ≠ space

end DirEntry

namespace Slot

def entries : Slot → List DirEntry
  | free e => [e]
  | file e => [e]
  | named name checksum e => longEntries name checksum (longEntryCount name) ++ [e]

def WellFormed : Slot → Prop
  | free e => e.unused = true
  | file e => e.Legal
  | named name _ e => e.Legal ∧ name ≠ [] ∧ name.length ≤ longNameMaxChars ∧ 0 ∉ name

/-- The short name and the name by which a file is to be listed. -/
def names : Slot → Option (Name × Name)
  | free _ => none
  | file e => some (e.shortName, e.shortName)
  | named name _ e => some (e.shortName, name)

/-- The short name is padded as it is read. -/
def Padded : Slot → Prop
  | free _ => True
  | file e => e.ExtensionPadded
  | named _ _ e => e.ExtensionPadded

/-- The characters that the fifth part of a name has left in the buffer, unless there is a `'\0'`. -/
def fifthLeft (left : Option Name) : Slot → Option Name
  | named name _ _ =>
    if name.length < 52 ∨ 65 < name.length then left
    else if name.length = 65 then some (name.drop 52)
    else none
  | _ => left

/-- The fifth part of a name is not read if there is a sixth one. -/
def FifthKept (left : Option Name) : Slot → Prop
  | named name _ _ => 65 < name.length → left = some ((name.drop 52).take 13)
  | _ => True

end Slot

def FifthsKept : Option Name → List Slot → Prop
  | _, [] => True
  | left, s :: slots => s.FifthKept left ∧ FifthsKept (s.fifthLeft left) slots

variable {e : DirEntry}

section ShortNames

theorem ofFn_name (e : DirEntry) : List.ofFn e.name = [e.name 0, e.name 1, e.name 2, e.name 3, e.name 4,
    e.name 5, e.name 6, e.name 7, e.name 8, e.name 9, e.name 10] := rfl

/-- The extension as it is read, up to its first space. -/
def DirEntry.readExtension (e : DirEntry) : Name := ((List.ofFn e.name).drop 8).takeWhile (· ≠ space)

theorem readExtension_eq_iff : e.readExtension = e.extension ↔ e.ExtensionPadded := by
  have hread : e.readExtension = [e.name 8, e.name 9, e.name 10].takeWhile (· ≠ space) := rfl
  have hext : e.extension = [e.name 8, e.name 9, e.name 10].rdropWhile (· = space) := rfl
  have hpadded : e.ExtensionPadded ↔ (e.name 8 = space → e.name 9 = space ∧ e.name 10 = space) ∧
      (e.name 9 = space → e.name 10 = space) := by
    constructor
    · intro h
      exact ⟨fun h8 => ⟨h 8 9 (by decide) (by decide) h8, h 8 10 (by decide) (by decide) h8⟩,
        h 9 10 (by decide) (by decide)⟩
    · intro h i j hi hij hspace
      have hcases : (i = 8 ∧ (j = 9 ∨ j = 10)) ∨ i = 9 ∧ j = 10 := by
        simp only [Fin.ext_iff]
        change (i.val = 8 ∧ (j.val = 9 ∨ j.val = 10)) ∨ i.val = 9 ∧ j.val = 10
        lia
      rcases hcases with ⟨rfl, rfl | rfl⟩ | ⟨rfl, rfl⟩
      · exact (h.1 hspace).1
      · exact (h.1 hspace).2
      · exact h.2 hspace
  rw [hread, hext, hpadded]
  by_cases h8 : e.name 8 = space <;> by_cases h9 : e.name 9 = space <;>
    by_cases h10 : e.name 10 = space <;>
    simp [List.takeWhile, List.rdropWhile, List.dropWhile, h8, h9, h10]

theorem length_readExtension_le : e.readExtension.length ≤ e.extension.length := by
  have hread : e.readExtension = [e.name 8, e.name 9, e.name 10].takeWhile (· ≠ space) := rfl
  have hext : e.extension = [e.name 8, e.name 9, e.name 10].rdropWhile (· = space) := rfl
  rw [hread, hext]
  by_cases h8 : e.name 8 = space <;> by_cases h9 : e.name 9 = space <;>
    by_cases h10 : e.name 10 = space <;>
    simp [List.takeWhile, List.rdropWhile, List.dropWhile, h8, h9, h10]

/-- The short name as it is read. -/
def DirEntry.readName (e : DirEntry) : Name :=
  e.base ++ if e.readExtension = [] then [] else dot :: e.readExtension

theorem cString_eq_self {l : Name} (h : 0 ∉ l) : cString l = l := by
  refine List.takeWhile_eq_self_iff.mpr fun c hc => ?_
  simpa using ne_of_mem_of_not_mem hc h

theorem DirEntry.Legal.zero_notMem (h : e.Legal) : 0 ∉ List.ofFn e.name := by
  intro hmem
  obtain ⟨i, hi⟩ := List.mem_ofFn.mp hmem
  exact h.chars i hi

theorem convertFatNameToName_legal (h : e.Legal) :
    convertFatNameToName e = (e.readName, e.readName.length) := by
  have hbase : cString e.base = e.base := cString_eq_self fun hmem =>
    h.zero_notMem (List.mem_of_mem_take ((List.rdropWhile_prefix _ _).subset hmem))
  have hext : cString e.readExtension = e.readExtension := cString_eq_self fun hmem =>
    h.zero_notMem (List.mem_of_mem_drop ((List.takeWhile_prefix _).subset hmem))
  change (if e.readExtension = [] then (cString e.base, (cString e.base).length)
    else (cString e.base ++ dot :: cString e.readExtension,
      (cString e.base).length + e.readExtension.length + 1)) = _
  unfold DirEntry.readName
  rw [hbase, hext]
  split_ifs
  · rw [List.append_nil]
  · rw [List.length_append, List.length_cons]
    rfl

theorem readName_ne_nil (h : e.Legal) : e.readName ≠ [] := by
  intro hnil
  have hbase : e.base = [] := (List.append_eq_nil_iff.mp hnil).1
  have hspace := List.rdropWhile_eq_nil_iff.mp hbase (e.name 0) (by rw [ofFn_name]; simp)
  exact h.first (by simpa using hspace)

theorem readName_eq_iff : e.readName = e.shortName ↔ e.ExtensionPadded := by
  rw [← readExtension_eq_iff]
  unfold DirEntry.readName DirEntry.shortName
  rw [List.append_right_inj]
  constructor
  · intro h
    split_ifs at h with hread hext hext
    · rw [hread, hext]
    · exact (List.cons.inj h).2
  · intro h
    rw [h]

theorem length_readName_le (e : DirEntry) : e.readName.length ≤ e.shortName.length := by
  have hle := @length_readExtension_le e
  unfold DirEntry.readName DirEntry.shortName
  rw [List.length_append, List.length_append]
  split_ifs with hread hext hext
  · exact le_rfl
  · exact Nat.add_le_add_left (Nat.zero_le _) _
  · rw [hext] at hle
    exact absurd (List.length_eq_zero_iff.mp (Nat.le_zero.mp hle)) hread
  · rw [List.length_cons, List.length_cons]
    omega

theorem length_readName (h : e.Legal) : e.readName.length ≤ 12 := by
  have hlength := length_convertFatNameToName e
  rw [convertFatNameToName_legal h] at hlength
  exact hlength

/-- The start of a buffer that a name has been copied to. -/
theorem take_ofFn_eq {n : ℕ} {buffer : Fin n → BYTE} {name : Name} (hlen : name.length ≤ n)
    (h : ∀ i : Fin n, i.val < name.length → buffer i = name.getD i 0) :
    (List.ofFn buffer).take name.length = name := by
  refine List.ext_getElem ?_ fun i hi hi' => ?_
  · rw [List.length_take, List.length_ofFn]
    omega
  · rw [List.getElem_take, List.getElem_ofFn, h ⟨i, by omega⟩ hi', List.getD_eq_getElem _ _ hi']

theorem take_shortName_copy (buffer : ShortNameBuffer) (h : e.Legal) :
    (List.ofFn (buffer.copy e.readName)).take e.readName.length = e.readName :=
  take_ofFn_eq ((length_readName h).trans (by decide)) fun _ hi => if_pos hi

theorem take_longName_copy (buffer : NameBuffer) (h : e.Legal) :
    (List.ofFn (buffer.copy e.readName e.readName.length)).take e.readName.length = e.readName := by
  refine take_ofFn_eq ((length_readName h).trans (by decide)) fun i hi => ?_
  unfold NameBuffer.copy
  rw [min_self, if_pos hi]

/-- Without a long name in the buffer, a file is listed by its short name. -/
theorem nameToList_file {buffer : NameBuffer} (hempty : buffer 0 = 0) (h : e.Legal) :
    nameToList buffer e = (buffer.copy e.readName e.readName.length, e.readName.length) := by
  have hnone : (cString ((List.ofFn buffer).take longNameMaxChars)).length = 0 := by
    rw [List.ofFn_succ]
    unfold cString longNameMaxChars
    rw [List.take_succ_cons, List.takeWhile_cons_of_neg (by simpa using hempty)]
    rfl
  unfold nameToList
  dsimp only
  rw [if_pos hnone, convertFatNameToName_legal h]

end ShortNames

section LongNames

variable {name : Name} {checksum : BYTE} {k : ℕ} {buffer buffer₀ : NameBuffer}

/-- The parts from the last one down to `k` have been read, but not the fifth of more than five. -/
def PartsRead (name : Name) (buffer₀ : NameBuffer) (k : ℕ) (buffer : NameBuffer) : Prop :=
  ∀ i : Fin 256, buffer i =
    if i.val = name.length ∧ k < longEntryCount name then 0
    else if 13 * k ≤ i ∧ i.val < name.length ∧ ¬(65 < name.length ∧ 52 ≤ i.val ∧ i.val < 65) then
      name.getD i 0
    else buffer₀ i

theorem longEntry_unused (hk : k < longEntryCount name) (hlen : name.length ≤ 255) :
    (longEntry name checksum k).unused = true ↔ k = 4 ∧ 65 < name.length := by
  have hall : ∀ (k : Fin 20) (isLast : Bool), ((longEntryOrd k isLast = freeEntry ∨
      longEntryOrd k isLast = freeJapEntry) ↔ k = 4 ∧ isLast = false) := by decide
  have hcount : longEntryCount name = (name.length + 12) / 13 := rfl
  have hord := hall ⟨k, by lia⟩ (k + 1 = longEntryCount name)
  have hname : (longEntry name checksum k).name 0 = longEntryOrd k (k + 1 = longEntryCount name) := rfl
  have hfour : (⟨k, by omega⟩ : Fin 20) = 4 ↔ k = 4 := Fin.ext_iff
  unfold DirEntry.unused
  rw [decide_eq_true_iff, hname, hord, hfour, decide_eq_false_iff_not]
  lia

theorem longEntry_isLongPart : (longEntry name checksum k).isLongPart = true :=
  decide_eq_true (by decide : attrLongName &&& attrLongNameMask = attrLongName)

theorem partsRead_succ (h0 : 0 ∉ name) (hlen : name.length ≤ 255) (hk : k < longEntryCount name)
    (hused : (longEntry name checksum k).unused = false) (hb : PartsRead name buffer₀ (k + 1) buffer) :
    ∃ buffer', writePartialLongFatNameToName (longEntry name checksum k) buffer = .ok buffer' ∧
      PartsRead name buffer₀ k buffer' := by
  have hcount : longEntryCount name = (name.length + 12) / 13 := rfl
  have hchars : cString (longEntry name checksum k).longNameChars = (name.drop (13 * k)).take 13 := by
    rw [longNameChars_longEntry, cString_units h0 13 (by lia)]
  have hlength : ((name.drop (13 * k)).take 13).length = min 13 (name.length - 13 * k) := by
    rw [List.length_take, List.length_drop]
  obtain ⟨hord, hend⟩ := @longEntryOrd_eq k (k + 1 = longEntryCount name) (by lia)
  have hname : (longEntry name checksum k).name 0 = longEntryOrd k (k + 1 = longEntryCount name) := rfl
  obtain ⟨buffer', hrun, hbuffer⟩ := @writePartial_eq buffer (longEntry name checksum k) (13 * k)
    (by rw [hname, hord]) (by rw [hchars, hlength]; unfold longNameMaxChars; lia)
  simp only [hchars, hlength, hname, hend, decide_eq_true_eq] at hbuffer
  have hfifth : ¬(k = 4 ∧ 65 < name.length) := fun h => by
    rw [(longEntry_unused hk hlen).mpr h] at hused
    cases hused
  refine ⟨buffer', hrun, fun i => ?_⟩
  rw [hbuffer i, hb i]
  by_cases hin : 13 * k ≤ i.val ∧ i.val < 13 * k + min 13 (name.length - 13 * k)
  · rw [if_pos hin, if_neg (by omega), if_pos (by omega), List.getD_eq_getElem?_getD,
      List.getElem?_take_of_lt (by omega), List.getElem?_drop, Nat.add_sub_cancel' hin.1,
      ← List.getD_eq_getElem?_getD]
  · rw [if_neg hin]
    by_cases hterm : i.val = name.length ∧ k < longEntryCount name
    · rw [if_pos hterm]
      by_cases hlast : k + 1 = longEntryCount name
      · rw [if_pos ⟨hlast, by lia⟩]
      · rw [if_neg fun h => hlast h.1, if_pos ⟨hterm.1, by omega⟩]
    · rw [if_neg hterm, if_neg (by lia), if_neg (by omega)]
      refine if_congr (by omega) rfl rfl

/-- What is read of the parts of a long name, in front of any entries. -/
theorem directoryRecords_longEntries (h0 : 0 ∉ name) (hlen : name.length ≤ 255)
    (hk : k ≤ longEntryCount name) (hb : PartsRead name buffer₀ k buffer) :
    ∃ buffer', PartsRead name buffer₀ 0 buffer' ∧ ∀ deviceAlignment shortName l,
      directoryRecords deviceAlignment buffer shortName (longEntries name checksum k ++ l) =
        directoryRecords deviceAlignment buffer' shortName l := by
  induction k generalizing buffer with
  | zero => exact ⟨buffer, hb, fun _ _ _ => rfl⟩
  | succ k ih =>
    have hcount : longEntryCount name = (name.length + 12) / 13 := rfl
    by_cases hunused : (longEntry name checksum k).unused = true
    · obtain ⟨rfl, hlong⟩ := (longEntry_unused (by omega) hlen).mp hunused
      have hb' : PartsRead name buffer₀ 4 buffer := by
        intro i
        rw [hb i]
        refine if_congr (by lia) rfl (if_congr (by lia) rfl rfl)
      obtain ⟨buffer', hread, hrest⟩ := ih (by omega) hb'
      refine ⟨buffer', hread, fun deviceAlignment shortName l => ?_⟩
      rw [← hrest]
      exact directoryRecords_unused hunused
    · rw [Bool.not_eq_true] at hunused
      obtain ⟨buffer₁, hwrite, hb₁⟩ := partsRead_succ h0 hlen (by omega) hunused hb
      obtain ⟨buffer', hread, hrest⟩ := ih (by omega) hb₁
      refine ⟨buffer', hread, fun deviceAlignment shortName l => ?_⟩
      rw [← hrest, longEntries, List.cons_append, directoryRecords, if_neg (by simp [hunused]),
        if_pos longEntry_isLongPart, hwrite]
      rfl

theorem length_cString_le {l : List BYTE} {m : ℕ} (h : l[m]? = some 0) : (cString l).length ≤ m := by
  unfold cString
  induction l generalizing m with
  | nil => exact Nat.zero_le _
  | cons c l ih =>
    cases m with
    | zero =>
      obtain rfl : c = 0 := by simpa using h
      rw [List.takeWhile_cons_of_neg (by simp)]
      exact le_rfl
    | succ m =>
      by_cases hc : c = 0
      · rw [List.takeWhile_cons_of_neg (by simpa using hc)]
        exact Nat.zero_le _
      · rw [List.takeWhile_cons_of_pos (by simpa using hc), List.length_cons]
        exact Nat.succ_le_succ (ih h)

theorem le_length_cString {l : List BYTE} {m : ℕ} (h : ∀ i < m, ∃ c, c ≠ 0 ∧ l[i]? = some c) :
    m ≤ (cString l).length := by
  unfold cString
  induction l generalizing m with
  | nil =>
    rcases Nat.eq_zero_or_pos m with rfl | hm
    · exact le_rfl
    · obtain ⟨c, -, hc⟩ := h 0 hm
      cases hc
  | cons c l ih =>
    cases m with
    | zero => exact Nat.zero_le _
    | succ m =>
      obtain ⟨c', hc', hget⟩ := h 0 (Nat.succ_pos m)
      obtain rfl : c = c' := by simpa using hget
      rw [List.takeWhile_cons_of_pos (by simpa using hc'), List.length_cons]
      exact Nat.succ_le_succ (ih fun i hi => h (i + 1) (Nat.succ_lt_succ hi))

theorem getElem?_take_ofFn (buffer : NameBuffer) {i : ℕ} (hi : i < 255) :
    ((List.ofFn buffer).take longNameMaxChars)[i]? = some (buffer ⟨i, Nat.lt_succ_of_lt hi⟩) := by
  unfold longNameMaxChars
  rw [List.getElem?_take_of_lt hi, List.getElem?_ofFn, dif_pos (Nat.lt_succ_of_lt hi)]

/-- The characters that have been in place of the fifth part are those of the name. -/
def FifthMatches (buffer₀ : NameBuffer) (name : Name) : Prop :=
  65 < name.length → ∀ i : Fin 256, 52 ≤ i.val → i.val < 65 → buffer₀ i = name.getD i 0

/-- A file is listed by the name in the buffer, which is its long name if the fifth part is right. -/
theorem nameToList_named (hne : name ≠ []) (h0 : 0 ∉ name) (hlen : name.length ≤ 255)
    (hb : PartsRead name buffer₀ 0 buffer) :
    (nameToList buffer e).1 = buffer ∧ (nameToList buffer e).2 ≠ 0 ∧
      (nameToList buffer e).2 ≤ name.length ∧
      ((List.ofFn buffer).take (nameToList buffer e).2 = name ↔ FifthMatches buffer₀ name) := by
  have hpos := List.length_pos_of_ne_nil hne
  have hcount : longEntryCount name = (name.length + 12) / 13 := rfl
  have hchar : ∀ i < name.length, name.getD i 0 ≠ 0 := by
    intro i hi
    rw [List.getD_eq_getElem _ _ hi]
    exact ne_of_mem_of_not_mem (List.getElem_mem hi) h0
  have hget := @getElem?_take_ofFn buffer
  generalize hl : (List.ofFn buffer).take longNameMaxChars = l at hget
  have hmax : (cString l).length ≤ 255 := by
    refine (List.takeWhile_prefix _).length_le.trans ?_
    rw [← hl, List.length_take]
    exact Nat.min_le_left _ _
  have hlower : 1 ≤ (cString l).length := by
    have hval : (0 : Fin 256).val = 0 := rfl
    have hzero : buffer 0 = name.getD 0 0 := by
      rw [hb, hval, if_neg (by omega), if_pos (by omega)]
    refine le_length_cString fun i hi => ⟨name.getD 0 0, hchar 0 hpos, ?_⟩
    obtain rfl : i = 0 := by omega
    rw [hget (by decide), ← hzero]
    rfl
  have hupper : (cString l).length ≤ name.length := by
    rcases Nat.lt_or_ge name.length 255 with hlt | hge
    · refine length_cString_le ?_
      rw [hget hlt, hb, if_pos ⟨rfl, by lia⟩]
    · exact hmax.trans hge
  have hlist : nameToList buffer e = (buffer, (cString l).length) := by
    unfold nameToList
    dsimp only
    rw [hl, if_neg (by omega)]
  rw [hlist]
  refine ⟨rfl, by dsimp only; omega, hupper, ?_⟩
  constructor
  · intro h hlong i hge hlt
    have hlength := congrArg List.length h
    rw [List.length_take, List.length_ofFn] at hlength
    have hi := congrArg (·.getD i 0) h
    have htake : ((List.ofFn buffer).take (cString l).length).getD i 0 = buffer i := by
      rw [List.getD_eq_getElem?_getD, List.getElem?_take_of_lt (by lia), List.getElem?_ofFn,
        dif_pos i.isLt]
      rfl
    dsimp only at hi
    rw [htake, hb, if_neg (by omega), if_neg (by omega)] at hi
    exact hi
  · intro h
    have hall : ∀ i : Fin 256, i.val < name.length → buffer i = name.getD i 0 := by
      intro i hi
      rw [hb, if_neg (by omega)]
      by_cases hfifth : 65 < name.length ∧ 52 ≤ i.val ∧ i.val < 65
      · rw [if_neg fun h' => h'.2.2 hfifth]
        exact h hfifth.1 i hfifth.2.1 hfifth.2.2
      · rw [if_pos ⟨by omega, hi, hfifth⟩]
    have hfull : (cString l).length = name.length := by
      refine le_antisymm hupper (le_length_cString fun i hi => ⟨_, ?_, hget (by omega)⟩)
      rw [hall _ hi]
      exact hchar i hi
    dsimp only
    rw [hfull]
    exact take_ofFn_eq (by omega) hall

end LongNames

section Slots

variable {left : Option Name} {buffer buffer' : NameBuffer} {shortName : ShortNameBuffer} {name : Name}
  {deviceAlignment : QWORD}

/-- What the buffer holds in place of a fifth part. -/
def Remains : Option Name → NameBuffer → Prop
  | some part, buffer => part.length = 13 ∧
      ∀ i : Fin 256, 52 ≤ i.val → i.val < 65 → buffer i = part.getD (i - 52) 0
  | none, buffer => ∃ i : Fin 256, 52 ≤ i.val ∧ i.val < 65 ∧ buffer i = 0

theorem Remains.congr (h : Remains left buffer)
    (hsame : ∀ i : Fin 256, 52 ≤ i.val → i.val < 65 → buffer' i = buffer i) : Remains left buffer' := by
  cases left with
  | some part => exact ⟨h.1, fun i hge hlt => (hsame i hge hlt).trans (h.2 i hge hlt)⟩
  | none =>
    obtain ⟨i, hge, hlt, hzero⟩ := h
    exact ⟨i, hge, hlt, (hsame i hge hlt).trans hzero⟩

theorem Remains.reset (h : Remains left buffer) : Remains left buffer.reset :=
  h.congr fun i hge _ => Function.update_of_ne (by rintro rfl; exact absurd hge (by decide)) ..

theorem reset_zero (buffer : NameBuffer) : buffer.reset 0 = 0 := Function.update_self ..

theorem fifthMatches_iff (h : Remains left buffer) (h0 : 0 ∉ name) : FifthMatches buffer name ↔
    (65 < name.length → left = some ((name.drop 52).take 13)) := by
  refine forall_congr' fun hlong => ?_
  have htake : ((name.drop 52).take 13).length = 13 := by
    rw [List.length_take, List.length_drop]
    lia
  cases left with
  | none =>
    obtain ⟨i, hge, hlt, hzero⟩ := h
    refine iff_of_false (fun hmatch => ?_) fun h => nomatch h
    have hchar := hmatch i hge hlt
    rw [hzero, List.getD_eq_getElem _ _ (by omega)] at hchar
    exact h0 (hchar ▸ List.getElem_mem _)
  | some part =>
    rw [Option.some.injEq]
    constructor
    · intro hmatch
      refine List.ext_getElem (h.1.trans htake.symm) fun i hi _ => ?_
      have hlt : i < 13 := h.1 ▸ hi
      have hchar := (h.2 ⟨52 + i, by omega⟩ (by simp) (by change 52 + i < 65; omega)).symm.trans
        (hmatch ⟨52 + i, by omega⟩ (by simp) (by change 52 + i < 65; omega))
      dsimp only at hchar
      rw [Nat.add_sub_cancel_left, List.getD_eq_getElem _ _ hi, List.getD_eq_getElem _ _ (by omega)] at hchar
      rw [hchar, List.getElem_take, List.getElem_drop]
    · intro hpart i hge hlt
      rw [h.2 i hge hlt, hpart, List.getD_eq_getElem?_getD, List.getElem?_take_of_lt (by omega),
        List.getElem?_drop, Nat.add_sub_cancel' hge, ← List.getD_eq_getElem?_getD]

/-- What a long name leaves in place of a fifth part. -/
theorem remains_named {checksum : BYTE} {e : DirEntry} (h : Remains left buffer) (hne : name ≠ [])
    (hb : PartsRead name buffer 0 buffer') :
    Remains ((Slot.named name checksum e).fifthLeft left) buffer' := by
  have hpos := List.length_pos_of_ne_nil hne
  have hcount : longEntryCount name = (name.length + 12) / 13 := rfl
  unfold Slot.fifthLeft
  dsimp only
  by_cases hother : name.length < 52 ∨ 65 < name.length
  · rw [if_pos hother]
    refine h.congr fun i hge hlt => ?_
    rw [hb, if_neg (by omega), if_neg (by lia)]
  · rw [if_neg hother]
    by_cases hfull : name.length = 65
    · rw [if_pos hfull]
      refine ⟨by rw [List.length_drop]; omega, fun i hge hlt => ?_⟩
      rw [hb, if_neg (by omega), if_pos (by omega), @List.getD_eq_getElem?_getD _ (name.drop 52),
        List.getElem?_drop, Nat.add_sub_cancel' hge, ← List.getD_eq_getElem?_getD]
    · rw [if_neg hfull]
      have hlt : name.length < 256 := by omega
      exact ⟨⟨name.length, hlt⟩, by dsimp only; omega, by dsimp only; omega,
        by rw [hb, if_pos ⟨rfl, by lia⟩]⟩

def FileDirectoryInformation.names (r : FileDirectoryInformation) : Name × Name :=
  (r.shortFilename, r.filename)

/-- The size of the records for a list of files. -/
def listedSize (files : List (Name × Name)) : ℕ :=
  (files.map fun p => sizeofFileDirectoryInformation + p.2.length).sum

/-- What is read of a sequence of files: a record for each, with the right names exactly if all short names
are padded and no fifth part of a long name is lost. -/
theorem directoryRecords_slots {slots : List Slot} (hw : ∀ s ∈ slots, s.WellFormed)
    (hempty : buffer 0 = 0) (hleft : Remains left buffer) :
    ∃ records, directoryRecords deviceAlignment buffer shortName (slots.flatMap Slot.entries) =
        .ok records ∧
      totalSize records ≤ listedSize (slots.filterMap Slot.names) ∧
      (records.map names = slots.filterMap Slot.names ↔
        (∀ s ∈ slots, s.Padded) ∧ FifthsKept left slots) := by
  induction slots generalizing left buffer shortName with
  | nil => exact ⟨[], rfl, le_rfl, by simp [FifthsKept]⟩
  | cons slot slots ih =>
    obtain ⟨hslot, hslots⟩ := List.forall_mem_cons.mp hw
    rw [List.flatMap_cons, List.forall_mem_cons, FifthsKept]
    cases slot with
    | free e =>
      obtain ⟨records, hrecords, hsize, hnames⟩ := @ih left buffer shortName hslots hempty hleft
      refine ⟨records, (directoryRecords_unused hslot).trans hrecords, hsize, ?_⟩
      rw [List.filterMap_cons_none rfl, hnames]
      simp [Slot.Padded, Slot.FifthKept, Slot.fifthLeft]
    | file e =>
      have hfile : (Slot.file e :: slots).filterMap Slot.names =
        (e.shortName, e.shortName) :: slots.filterMap Slot.names := rfl
      have hlist := nameToList_file hempty hslot
      have hlength := length_readName hslot
      obtain ⟨information, hinformation⟩ := (fatPopulateFileInformation_ok_iff deviceAlignment e).mpr
        hslot.dates
      obtain ⟨records, hrecords, hsize, hnames⟩ := @ih left (nameToList buffer e).1.reset
        (shortName.copy (convertFatNameToName e).1) hslots (reset_zero _) (.reset (hleft.congr
          fun i hge hlt => by
            rw [hlist]
            dsimp only [NameBuffer.copy]
            rw [min_self, if_neg (by omega), if_neg (by omega)]))
      refine ⟨_, (directoryRecords_isShort hslot.short).mpr ⟨?_, information, hinformation, records,
        hrecords, rfl⟩, ?_, ?_⟩
      · rw [hlist]
        exact mt List.length_eq_zero_iff.mp (readName_ne_nil hslot)
      · rw [totalSize_cons, FileDirectoryInformation.size, length_filename, hlist, hfile]
        have hle := length_readName_le e
        unfold listedSize at *
        rw [List.map_cons, List.sum_cons]
        dsimp only
        omega
      · rw [List.map_cons, hfile, List.cons.injEq, hnames, hlist, convertFatNameToName_legal hslot]
        unfold FileDirectoryInformation.names
        dsimp only
        rw [take_shortName_copy _ hslot, take_longName_copy _ hslot, Prod.mk.injEq, and_self,
          readName_eq_iff]
        simp only [Slot.Padded, Slot.FifthKept, Slot.fifthLeft, true_and, and_assoc]
    | named name checksum e =>
      have hnamed : (Slot.named name checksum e :: slots).filterMap Slot.names =
        (e.shortName, name) :: slots.filterMap Slot.names := rfl
      obtain ⟨hlegal, hne, hlen, h0⟩ := hslot
      obtain ⟨buffer', hread, hrest⟩ := @directoryRecords_longEntries name checksum
        (longEntryCount name) buffer buffer h0 hlen le_rfl fun i => by
          have hcount : longEntryCount name = (name.length + 12) / 13 := rfl
          rw [if_neg (by omega), if_neg (by lia)]
      obtain ⟨hbuffer, hnonzero, hle, hright⟩ := nameToList_named (e := e) hne h0 hlen hread
      obtain ⟨information, hinformation⟩ := (fatPopulateFileInformation_ok_iff deviceAlignment e).mpr
        hlegal.dates
      have hremains := (@remains_named left buffer buffer' name checksum e hleft hne hread).reset
      rw [← hbuffer] at hremains
      obtain ⟨records, hrecords, hsize, hnames⟩ := @ih _ _ (shortName.copy (convertFatNameToName e).1)
        hslots (reset_zero _) hremains
      have hall := (directoryRecords_isShort (l := slots.flatMap Slot.entries) hlegal.short).mpr
        ⟨hnonzero, information, hinformation, records, hrecords, rfl⟩
      refine ⟨_, by rw [Slot.entries, List.append_assoc, hrest]; exact hall, ?_, ?_⟩
      · rw [totalSize_cons, FileDirectoryInformation.size, length_filename, hnamed]
        unfold listedSize at *
        rw [List.map_cons, List.sum_cons]
        dsimp only
        omega
      · rw [List.map_cons, hnamed, List.cons.injEq, hnames, convertFatNameToName_legal hlegal]
        unfold FileDirectoryInformation.names
        dsimp only
        rw [take_shortName_copy _ hlegal, Prod.mk.injEq, hbuffer, hright, readName_eq_iff,
          fifthMatches_iff hleft h0]
        exact and_and_and_comm

end Slots

end HAL9000.Fat32
