import HAL9000.CommonLib.Memory
import HAL9000.CommonLib.Strings

/-! The text screen of `display.c`. A full screen is scrolled when the next character comes. -/
namespace HAL9000.Console

open Strings (ZString)

def charsPerLine : BYTE := 80
def bytesPerLine : DWORD := 160
def linesPerScreen : BYTE := 25
def bytesPerChar : DWORD := 2
def whiteColor : BYTE := 7

/-- `m_displayData`, and the memory that the screen is mapped to. -/
structure Display where
  mappedScreenAddress : QWORD
  startOfUsableScreen : QWORD
  totalUsableCharacters : DWORD
  totalUsableBytes : DWORD
  currentColumn : BYTE
  currentLine : BYTE
  currentColor : BYTE
  indexOfFirstValidLine : BYTE
  indexOfFirstInvalidLine : BYTE
  memory : MappedMemory

/-- A string whose characters can be counted in the `DWORD` of the loop. -/
structure Text extends ZString where
  length_lt : chars.length < 2 ^ 32

def lineAddress (screen : QWORD) (Line : BYTE) : QWORD := screen + Line.setWidth 64 * 160

section Code

def dispClearScreen (s : Display) : Except Fault Display := do
  return { s with
    memory := ← clMemset s.memory s.startOfUsableScreen 0 s.totalUsableBytes
    currentLine := s.indexOfFirstValidLine }

def dispPreinitScreen (memory : MappedMemory) (VideoAddress : QWORD)
    (IndexOfFirstUsableRow IndexOfFirstUnusableRow : BYTE) : Except Fault Display :=
  let totalUsableCharacters : DWORD :=
    (IndexOfFirstUnusableRow.setWidth 32 - IndexOfFirstUsableRow.setWidth 32) * charsPerLine.setWidth 32
  dispClearScreen
    { mappedScreenAddress := VideoAddress
      startOfUsableScreen := lineAddress VideoAddress IndexOfFirstUsableRow
      totalUsableCharacters
      totalUsableBytes := bytesPerChar * totalUsableCharacters
      currentColumn := 0
      currentLine := IndexOfFirstUsableRow
      currentColor := whiteColor
      indexOfFirstValidLine := IndexOfFirstUsableRow
      indexOfFirstInvalidLine := IndexOfFirstUnusableRow
      memory }

def dispClearLine (s : Display) (Line : BYTE) : Except Fault Display := do
  return { s with memory := ← clMemset s.memory (lineAddress s.mappedScreenAddress Line) 0 bytesPerLine }

def dispScrollScreen (s : Display) : Except Fault Display := do
  let memory ← clMemmove s.memory s.startOfUsableScreen (lineAddress s.startOfUsableScreen 1)
    ((s.totalUsableBytes - bytesPerLine).setWidth 64)
  dispClearLine { s with memory, currentLine := s.currentLine - 1 } (s.currentLine - 1)

def dispPutChar (s : Display) (Character Line Column : BYTE) : Except Fault Display := do
  let pScreenAddress := lineAddress s.mappedScreenAddress Line + Column.setWidth 64 * 2
  let memory ← s.memory.write (pScreenAddress + 1) s.currentColor
  return { s with memory := ← memory.write pScreenAddress Character }

/-- Before a character is written. -/
def scrollIfNeeded (s : Display) : Except Fault Display :=
  if s.indexOfFirstInvalidLine = s.currentLine then dispScrollScreen s else .ok s

def endLine (s : Display) : Display := { s with currentLine := s.currentLine + 1, currentColumn := 0 }

/-- The loop of `DispPrintString` over the characters that are left. -/
def dispPrintChars (s : Display) : List BYTE → Except Fault Display
  | [] => .ok s
  | c :: Buffer => do
    let s ← scrollIfNeeded s
    if c = 0x0A then dispPrintChars (endLine s) Buffer
    else if c = 0x09 then
      let s ← dispPrintChars s [0x20, 0x20, 0x20, 0x20]
      dispPrintChars s Buffer
    else
      let s ← dispPutChar s c s.currentLine s.currentColumn
      let s := { s with currentColumn := s.currentColumn + 1 }
      if charsPerLine = s.currentColumn then dispPrintChars (endLine s) Buffer
      else dispPrintChars s Buffer
termination_by Buffer => (Buffer.count 0x09, Buffer.length)
decreasing_by all_goals simp_all [Prod.lex_def]; try omega

def dispPrintString (s : Display) : Option Text → Except Fault Display
  | none => .ok s
  | some Buffer => dispPrintChars s Buffer.chars

end Code

/-! ### The layout of a text -/

/-- The rows that have ended, and the row that has not. -/
structure Layout where
  ended : List (List BYTE)
  last : List BYTE

def expand (c : BYTE) : List BYTE := if c = 0x09 then [0x20, 0x20, 0x20, 0x20] else [c]

/-- A row ends with a newline or its last column. -/
def Layout.add (l : Layout) (c : BYTE) : Layout :=
  if c = 0x0A then ⟨l.ended ++ [l.last], []⟩
  else if l.last.length + 1 = 80 then ⟨l.ended ++ [l.last ++ [c]], []⟩
  else ⟨l.ended, l.last ++ [c]⟩

def layout (text : List BYTE) : Layout := (text.flatMap expand).foldl Layout.add ⟨[], []⟩

/-- A final row that is still empty is not counted. -/
def Layout.rows (l : Layout) : List (List BYTE) := if l.last = [] then l.ended else l.ended ++ [l.last]

def lastRows (height : ℕ) (rows : List (List BYTE)) : List (List BYTE) := rows.drop (rows.length - height)

/-- The character and the colour of a cell; a blank cell is all zero. -/
def cellBytes (rows : List (List BYTE)) (i j : ℕ) : BYTE × BYTE :=
  match (rows.getD i [])[j]? with
  | some c => (c, whiteColor)
  | none => (0, 0)

/-- What the usable rows hold, from the top. -/
def Shows (content : ℕ → BYTE) (height : ℕ) (rows : List (List BYTE)) : Prop :=
  ∀ i < height, ∀ j < 80, (content (160 * i + 2 * j), content (160 * i + 2 * j + 1)) = cellBytes rows i j

/-- The screen lies in memory, at an address that is not null. -/
structure Placed (VideoAddress : QWORD) (f u : BYTE) : Prop where
  lt : f < u
  le : u ≤ linesPerScreen
  pos : 0 < VideoAddress.toNat
  fits : VideoAddress.toNat + 4000 < 2 ^ 64

/-- The screen shows the last `k` rows that have ended, and below them the row that has not. -/
structure At (VideoAddress : QWORD) (f u : BYTE) (l : Layout) (k : ℕ) (s : Display) : Prop where
  mapped : s.mappedScreenAddress = VideoAddress
  start : s.startOfUsableScreen = lineAddress VideoAddress f
  bytes : s.totalUsableBytes.toNat = 160 * (u.toNat - f.toNat)
  color : s.currentColor = whiteColor
  invalid : s.indexOfFirstInvalidLine = u
  column : s.currentColumn.toNat = l.last.length
  short : l.last.length < 80
  line : s.currentLine.toNat = f.toNat + k
  inside : k ≤ u.toNat - f.toNat
  full : k = u.toNat - f.toNat → l.last = []
  kept : k ≤ l.ended.length
  shown : ∃ content, s.memory = .window (lineAddress VideoAddress f) (160 * (u.toNat - f.toNat)) content ∧
    Shows content (u.toNat - f.toNat) (l.ended.drop (l.ended.length - k) ++ [l.last])

/-! ### Cells -/

section Cells

variable {rows : List (List BYTE)} {row : List BYTE} {content : ℕ → BYTE} {height i j : ℕ} {c : BYTE}

theorem cellBytes_append_of_lt (h : i < rows.length) : cellBytes (rows ++ [row]) i j = cellBytes rows i j := by
  unfold cellBytes
  rw [List.getD_append _ _ _ _ h]

theorem cellBytes_append_self : cellBytes (rows ++ [row]) rows.length j = cellBytes [row] 0 j := by
  unfold cellBytes
  rw [List.getD_append_right _ _ _ _ le_rfl, Nat.sub_self]

theorem cellBytes_of_ge (h : rows.length ≤ i) : cellBytes rows i j = (0, 0) := by
  unfold cellBytes
  rw [List.getD_eq_default _ _ h]
  rfl

/-- An empty row below the others changes nothing. -/
theorem cellBytes_append_nil : cellBytes (rows ++ [[]]) i j = cellBytes rows i j := by
  rcases Nat.lt_trichotomy i rows.length with h | rfl | h
  · exact cellBytes_append_of_lt h
  · rw [cellBytes_append_self, cellBytes_of_ge le_rfl]
    rfl
  · rw [cellBytes_of_ge (by rw [List.length_append]; exact h), cellBytes_of_ge h.le]

theorem cellBytes_tail : cellBytes rows.tail i j = cellBytes rows (i + 1) j := by
  unfold cellBytes
  cases rows with
  | nil => rfl
  | cons r rows => rfl

theorem shows_append_nil : Shows content height (rows ++ [[]]) ↔ Shows content height rows := by
  unfold Shows
  simp only [cellBytes_append_nil]

/-- A character is added to the last row. -/
theorem cellBytes_append_char : cellBytes (rows ++ [row ++ [c]]) i j =
    if i = rows.length ∧ j = row.length then (c, whiteColor) else cellBytes (rows ++ [row]) i j := by
  rcases Nat.lt_trichotomy i rows.length with h | rfl | h
  · rw [cellBytes_append_of_lt h, cellBytes_append_of_lt h, if_neg (by omega)]
  · rw [cellBytes_append_self, cellBytes_append_self]
    change (match (row ++ [c])[j]? with | some c => (c, whiteColor) | none => (0, 0)) = if _ then _ else
      (match row[j]? with | some c => (c, whiteColor) | none => (0, 0))
    rcases Nat.lt_trichotomy j row.length with hj | rfl | hj
    · rw [List.getElem?_append_left hj, if_neg (by omega)]
    · rw [List.getElem?_append_right le_rfl, Nat.sub_self, if_pos ⟨rfl, rfl⟩]
      rfl
    · rw [List.getElem?_eq_none (by rw [List.length_append]; exact hj), List.getElem?_eq_none hj.le, if_neg (by omega)]
  · rw [cellBytes_of_ge (by rw [List.length_append]; exact h), cellBytes_of_ge (by rw [List.length_append]; exact h), if_neg (by omega)]

/-- The rows are moved up by one. -/
theorem shows_scrolled (h : Shows content height (rows ++ [[]])) (hlength : rows.length = height)
    {content' : ℕ → BYTE} (hcontent : ∀ j < 160 * height, content' j =
      if j < 160 * (height - 1) then content (160 + j) else 0) : Shows content' height (rows.tail ++ [[]]) := by
  rw [shows_append_nil] at h ⊢
  intro i hi j hj
  rw [hcontent _ (by lia), hcontent _ (by lia), cellBytes_tail]
  by_cases hlast : i + 1 < height
  · rw [if_pos (by lia), if_pos (by lia), ← h (i + 1) hlast j hj,
      show 160 + (160 * i + 2 * j) = 160 * (i + 1) + 2 * j by lia,
      show 160 + (160 * i + 2 * j + 1) = 160 * (i + 1) + 2 * j + 1 by lia]
  · rw [if_neg (by lia), if_neg (by lia), cellBytes_of_ge (by omega)]

theorem shows_put (h : Shows content height (rows ++ [row])) (hrow : row.length < 80) :
    Shows (Function.update (Function.update content (160 * rows.length + 2 * row.length + 1) whiteColor)
      (160 * rows.length + 2 * row.length) c) height (rows ++ [row ++ [c]]) := by
  intro i hi j hj
  rw [cellBytes_append_char, ← h i hi j hj]
  by_cases hcell : i = rows.length ∧ j = row.length
  · obtain ⟨rfl, rfl⟩ := hcell
    rw [if_pos ⟨rfl, rfl⟩, Function.update_self, Function.update_of_ne (by omega), Function.update_self]
  · rw [if_neg hcell, Function.update_of_ne (by lia), Function.update_of_ne (by lia),
      Function.update_of_ne (by lia), Function.update_of_ne (by lia)]

end Cells

/-! ### Addresses -/

section Addresses

variable {V : QWORD} {f u Line : BYTE}

theorem nextLine_eq : lineAddress (lineAddress V f) 1 = lineAddress V f + BitVec.ofNat 64 160 := rfl

variable (hplaced : Placed V f u)
include hplaced

theorem lineAddress_toNat (hline : Line ≤ linesPerScreen) :
    (lineAddress V Line).toNat = V.toNat + 160 * Line.toNat := by
  have hfits := hplaced.fits
  rw [BitVec.le_def] at hline
  change Line.toNat ≤ 25 at hline
  rw [lineAddress, BitVec.toNat_add, BitVec.toNat_mul, BitVec.toNat_setWidth]
  change (V.toNat + Line.toNat % 2 ^ 64 * 160 % 2 ^ 64) % 2 ^ 64 = _
  lia

theorem lineAddress_ne_zero (hline : Line ≤ linesPerScreen) : lineAddress V Line ≠ 0 := by
  have hpos := hplaced.pos
  have hvalue := lineAddress_toNat hplaced hline
  intro hzero
  rw [hzero] at hvalue
  change 0 = _ at hvalue
  lia

/-- A usable row, as an offset into the usable screen. -/
theorem lineAddress_eq {k : ℕ} (hk : Line.toNat = f.toNat + k) (hline : Line ≤ linesPerScreen) :
    lineAddress V Line = lineAddress V f + BitVec.ofNat 64 (160 * k) := by
  have hle := hline
  rw [BitVec.le_def] at hle
  change Line.toNat ≤ 25 at hle
  have hfirst : f ≤ linesPerScreen := by
    rw [BitVec.le_def]
    change f.toNat ≤ 25
    lia
  have hfits := hplaced.fits
  rw [← BitVec.toNat_inj, lineAddress_toNat hplaced hline, BitVec.toNat_add, lineAddress_toNat hplaced hfirst,
    BitVec.toNat_ofNat, hk]
  lia

theorem height_le : 160 * (u.toNat - f.toNat) ≤ 4000 ∧ 0 < u.toNat - f.toNat ∧ u.toNat ≤ 25 := by
  have hlt := hplaced.lt
  have hle := hplaced.le
  rw [BitVec.lt_def] at hlt
  rw [BitVec.le_def] at hle
  change u.toNat ≤ 25 at hle
  lia

end Addresses

/-! ### Steps -/

section Steps

variable {V : QWORD} {f u : BYTE} {l : Layout} {k : ℕ} {s : Display} {c : BYTE} (hplaced : Placed V f u)
include hplaced

theorem At.line_le (h : At V f u l k s) (hk : k < u.toNat - f.toNat) : s.currentLine ≤ linesPerScreen := by
  obtain ⟨-, -, hu⟩ := height_le hplaced
  have hline := h.line
  rw [BitVec.le_def]
  change s.currentLine.toNat ≤ 25
  lia

theorem At.prevLine_toNat (h : At V f u l (u.toNat - f.toNat) s) :
    (s.currentLine - 1).toNat = f.toNat + (u.toNat - f.toNat - 1) := by
  obtain ⟨-, hpos, -⟩ := height_le hplaced
  have hline := h.line
  rw [BitVec.toNat_sub_of_le (by rw [BitVec.le_def, hline]; change 1 ≤ _; omega), hline]
  change _ - 1 = _
  lia

theorem At.moved_toNat (h : At V f u l k s) :
    ((s.totalUsableBytes - bytesPerLine).setWidth 64).toNat = 160 * (u.toNat - f.toNat - 1) := by
  obtain ⟨-, hpos, -⟩ := height_le hplaced
  have hbytes := h.bytes
  rw [BitVec.toNat_setWidth_of_le (by omega), BitVec.toNat_sub_of_le, hbytes]
  · change _ - 160 = _
    lia
  · rw [BitVec.le_def, hbytes]
    change 160 ≤ _
    omega

theorem first_le : f ≤ linesPerScreen := by
  have hlt := hplaced.lt
  have hle := hplaced.le
  rw [BitVec.lt_def] at hlt
  rw [BitVec.le_def] at hle ⊢
  omega

/-- The second usable row; it is on the screen, or just behind it. -/
theorem secondLine_ne_zero : lineAddress V f + BitVec.ofNat 64 160 ≠ 0 := by
  obtain ⟨-, hpos, hu⟩ := height_le hplaced
  have hvalue := lineAddress_toNat hplaced (first_le hplaced)
  have hfits := hplaced.fits
  intro hzero
  have hnat := congrArg BitVec.toNat hzero
  rw [BitVec.toNat_add, hvalue] at hnat
  change (_ + 160) % 2 ^ 64 = 0 at hnat
  lia

theorem At.scroll_run (h : At V f u l (u.toNat - f.toNat) s) {content : ℕ → BYTE}
    (hmemory : s.memory = .window (lineAddress V f) (160 * (u.toNat - f.toNat)) content) :
    ∃ content' : ℕ → BYTE, (∀ j < 160 * (u.toNat - f.toNat), content' j =
      if j < 160 * (u.toNat - f.toNat - 1) then content (160 + j) else 0) ∧
    dispScrollScreen s = .ok { s with
      currentLine := s.currentLine - 1
      memory := .window (lineAddress V f) (160 * (u.toNat - f.toNat)) content' } := by
  obtain ⟨hsize, hpos, hu⟩ := height_le hplaced
  have hprev := h.prevLine_toNat hplaced
  have hprevLe : s.currentLine - 1 ≤ linesPerScreen := by
    rw [BitVec.le_def, hprev]
    change _ ≤ 25
    lia
  have hcount := h.moved_toNat hplaced
  have hmove := @clMemmove_window (lineAddress V f) (160 * (u.toNat - f.toNat)) content (by omega) 160
    ((s.totalUsableBytes - bytesPerLine).setWidth 64) (by omega)
    (lineAddress_ne_zero hplaced (first_le hplaced)) (secondLine_ne_zero hplaced) (by lia)
  rw [hcount] at hmove
  have hnull := lineAddress_ne_zero hplaced hprevLe
  have haddress := lineAddress_eq hplaced hprev hprevLe
  rw [haddress] at hnull
  have hclear := @clMemset_window (lineAddress V f) (160 * (u.toNat - f.toNat))
    (fun j => if j < 160 * (u.toNat - f.toNat - 1) then content (160 + j) else content j) 0 (by omega)
    (160 * (u.toNat - f.toNat - 1)) bytesPerLine hnull (by change _ + 160 ≤ _; lia)
  have hwidth : bytesPerLine.toNat = 160 := rfl
  rw [hwidth] at hclear
  refine ⟨fun j => if 160 * (u.toNat - f.toNat - 1) ≤ j ∧ j < 160 * (u.toNat - f.toNat - 1) + 160 then 0
    else if j < 160 * (u.toNat - f.toNat - 1) then content (160 + j) else content j, fun j hj => ?_, ?_⟩
  · beta_reduce
    by_cases hlow : j < 160 * (u.toNat - f.toNat - 1)
    · rw [if_pos hlow, if_pos hlow, if_neg fun hlast => absurd hlast.1 (by omega)]
    · rw [if_neg hlow, if_neg hlow, if_pos ⟨by omega, by omega⟩]
  · unfold dispScrollScreen dispClearLine
    rw [hmemory, h.start, nextLine_eq, hmove]
    change (clMemset _ (lineAddress s.mappedScreenAddress _) _ _ >>= _) = _
    rw [h.mapped, haddress, hclear]
    rfl

/-- A full screen loses its first row. -/
theorem At.scroll (h : At V f u l (u.toNat - f.toNat) s) :
    ∃ s', dispScrollScreen s = .ok s' ∧ At V f u l (u.toNat - f.toNat - 1) s' := by
  obtain ⟨hsize, hpos, hu⟩ := height_le hplaced
  obtain ⟨content, hmemory, hshown⟩ := h.shown
  have hempty := h.full rfl
  have hkept := h.kept
  obtain ⟨content', hcontent, hrun⟩ := h.scroll_run hplaced hmemory
  refine ⟨_, hrun, h.mapped, h.start, h.bytes, h.color, h.invalid, h.column, h.short,
    h.prevLine_toNat hplaced, by lia, fun heq => by omega, by omega, content', rfl, ?_⟩
  rw [hempty] at hshown ⊢
  have hdrop : l.ended.drop (l.ended.length - (u.toNat - f.toNat - 1)) =
      (l.ended.drop (l.ended.length - (u.toNat - f.toNat))).tail := by
    rw [List.tail_drop]
    congr 1
    omega
  rw [hdrop]
  exact shows_scrolled hshown (by rw [List.length_drop]; omega) hcontent

/-- The place below the rows that are shown. -/
theorem At.put (h : At V f u l k s) (hk : k < u.toNat - f.toNat) :
    ∃ content, dispPutChar s c s.currentLine s.currentColumn = .ok { s with
      memory := .window (lineAddress V f) (160 * (u.toNat - f.toNat)) content } ∧
    Shows content (u.toNat - f.toNat) (l.ended.drop (l.ended.length - k) ++ [l.last ++ [c]]) := by
  obtain ⟨hsize, hpos, hu⟩ := height_le hplaced
  obtain ⟨content, hmemory, hshown⟩ := h.shown
  have hkept := h.kept
  have hshort := h.short
  have hlength : (l.ended.drop (l.ended.length - k)).length = k := by
    rw [List.length_drop]
    lia
  have hput := shows_put (c := c) hshown hshort
  rw [hlength] at hput
  have hcolumn : s.currentColumn.setWidth 64 * 2 = BitVec.ofNat 64 (2 * l.last.length) := by
    rw [← BitVec.toNat_inj, BitVec.toNat_mul, BitVec.toNat_setWidth, h.column, BitVec.toNat_ofNat]
    change _ % 2 ^ 64 * 2 % 2 ^ 64 = _
    lia
  have haddress : lineAddress s.mappedScreenAddress s.currentLine + s.currentColumn.setWidth 64 * 2 =
      lineAddress V f + BitVec.ofNat 64 (160 * k + 2 * l.last.length) := by
    rw [h.mapped, lineAddress_eq hplaced h.line (h.line_le hplaced hk), hcolumn, BitVec.add_assoc,
      ← BitVec.ofNat_add]
  have hcolor : lineAddress V f + BitVec.ofNat 64 (160 * k + 2 * l.last.length) + 1 =
      lineAddress V f + BitVec.ofNat 64 (160 * k + 2 * l.last.length + 1) := by
    rw [BitVec.ofNat_add (160 * k + 2 * l.last.length) 1, ← BitVec.add_assoc]
    rfl
  refine ⟨_, ?_, hput⟩
  unfold dispPutChar
  simp only [haddress, hcolor, hmemory]
  rw [MappedMemory.write_window (by lia) (by omega)]
  change ((MappedMemory.window _ _ _).write _ _ >>= _) = _
  rw [MappedMemory.write_window (by lia) (by omega), h.color]
  rfl

/-- A row ends below the rows that are shown. -/
theorem At.ended (h : At V f u l k s) (hk : k < u.toNat - f.toNat) {row : List BYTE} {content : ℕ → BYTE}
    {column : BYTE}
    (hshown : Shows content (u.toNat - f.toNat) (l.ended.drop (l.ended.length - k) ++ [row])) :
    At V f u ⟨l.ended ++ [row], []⟩ (k + 1) (endLine { s with
      currentColumn := column
      memory := .window (lineAddress V f) (160 * (u.toNat - f.toNat)) content }) := by
  obtain ⟨-, -, hu⟩ := height_le hplaced
  have hline := h.line
  have hkept := h.kept
  have hnext : (s.currentLine + 1).toNat = f.toNat + (k + 1) := by
    rw [BitVec.toNat_add, hline]
    change (_ + 1) % 2 ^ 8 = _
    lia
  refine ⟨h.mapped, h.start, h.bytes, h.color, h.invalid, rfl, Nat.zero_lt_succ _, hnext, hk, fun _ => rfl,
    ?_, content, rfl, ?_⟩
  · rw [List.length_append]
    exact Nat.succ_le_succ hkept
  · have hdrop : (l.ended ++ [row]).drop ((l.ended ++ [row]).length - (k + 1)) =
        l.ended.drop (l.ended.length - k) ++ [row] := by
      rw [List.length_append, List.length_singleton, Nat.add_sub_add_right,
        List.drop_append_of_le_length (Nat.sub_le _ _)]
    rw [hdrop, shows_append_nil]
    exact hshown

omit hplaced in
theorem At.added (h : At V f u l k s) (hk : k < u.toNat - f.toNat) (hshort : l.last.length + 1 < 80)
    {content : ℕ → BYTE}
    (hshown : Shows content (u.toNat - f.toNat) (l.ended.drop (l.ended.length - k) ++ [l.last ++ [c]])) :
    At V f u ⟨l.ended, l.last ++ [c]⟩ k { s with
      currentColumn := s.currentColumn + 1
      memory := .window (lineAddress V f) (160 * (u.toNat - f.toNat)) content } := by
  have hcolumn : (s.currentColumn + 1).toNat = (l.last ++ [c]).length := by
    rw [BitVec.toNat_add, h.column, List.length_append]
    change (_ + 1) % 2 ^ 8 = _ + 1
    lia
  exact ⟨h.mapped, h.start, h.bytes, h.color, h.invalid, hcolumn, by rwa [List.length_append], h.line, h.inside,
    fun heq => absurd heq (by omega), h.kept, content, rfl, hshown⟩

end Steps

/-! ### Printing -/

/-- The number of ended rows that are shown when nothing waits for the next character. -/
def place (height : ℕ) (l : Layout) : ℕ :=
  if l.last = [] then min l.ended.length height else min l.ended.length (height - 1)

theorem le_place (height : ℕ) (l : Layout) : min l.ended.length (height - 1) ≤ place height l := by
  unfold place
  split_ifs <;> lia

section Printing

variable {V : QWORD} {f u : BYTE} {l : Layout} {k : ℕ} {s : Display} {c : BYTE} (hplaced : Placed V f u)
include hplaced

theorem At.ready (h : At V f u l k s) (hk : min l.ended.length (u.toNat - f.toNat - 1) ≤ k) :
    ∃ s', scrollIfNeeded s = .ok s' ∧
      At V f u l (min l.ended.length (u.toNat - f.toNat - 1)) s' := by
  obtain ⟨-, hpos, -⟩ := height_le hplaced
  have hline := h.line
  have hinside := h.inside
  have hkept := h.kept
  unfold scrollIfNeeded
  by_cases hfull : k = u.toNat - f.toNat
  · have heq : s.indexOfFirstInvalidLine = s.currentLine := by
      rw [h.invalid, ← BitVec.toNat_inj, hline]
      omega
    rw [if_pos heq]
    subst hfull
    rw [Nat.min_eq_right (by lia)]
    exact h.scroll hplaced
  · have hne : ¬s.indexOfFirstInvalidLine = s.currentLine := by
      rw [h.invalid, ← BitVec.toNat_inj, hline]
      lia
    rw [if_neg hne]
    have heq : min l.ended.length (u.toNat - f.toNat - 1) = k := by lia
    exact ⟨s, rfl, heq ▸ h⟩

theorem At.printChar (h : At V f u l k s) (hk : min l.ended.length (u.toNat - f.toNat - 1) ≤ k) (hc : c ≠ 0x09) :
    ∃ s', (∀ Buffer, dispPrintChars s (c :: Buffer) = dispPrintChars s' Buffer) ∧
      At V f u (l.add c) (place (u.toNat - f.toNat) (l.add c)) s' := by
  obtain ⟨-, hpos, -⟩ := height_le hplaced
  obtain ⟨s₁, hready, h₁⟩ := h.ready hplaced hk
  have hlt : min l.ended.length (u.toNat - f.toNat - 1) < u.toNat - f.toNat := by lia
  have hnext : min l.ended.length (u.toNat - f.toNat - 1) + 1 =
      min (l.ended.length + 1) (u.toNat - f.toNat) := by lia
  have hended : ∀ row, place (u.toNat - f.toNat) ⟨l.ended ++ [row], []⟩ =
      min l.ended.length (u.toNat - f.toNat - 1) + 1 := by
    intro row
    rw [place, if_pos rfl, List.length_append, hnext]
    rfl
  unfold Layout.add
  by_cases hnewline : c = 0x0A
  · obtain ⟨content, hmemory, hshown⟩ := h₁.shown
    have hat := @At.ended _ _ _ _ _ _ hplaced h₁ hlt _ _ s₁.currentColumn hshown
    rw [← hmemory] at hat
    refine ⟨endLine s₁, fun Buffer => ?_, ?_⟩
    · rw [dispPrintChars, hready]
      exact if_pos hnewline
    · rw [if_pos hnewline, hended]
      exact hat
  obtain ⟨content, hput, hshown⟩ := h₁.put hplaced (c := c) hlt
  have hcolumn := h₁.column
  have hshort := h₁.short
  have hnextColumn : (s₁.currentColumn + 1).toNat = l.last.length + 1 := by
    rw [BitVec.toNat_add, hcolumn]
    change (_ + 1) % 2 ^ 8 = _
    lia
  have hstep : ∀ Buffer, dispPrintChars s (c :: Buffer) =
      if charsPerLine = s₁.currentColumn + 1 then dispPrintChars (endLine { s₁ with
        currentColumn := s₁.currentColumn + 1
        memory := .window (lineAddress V f) (160 * (u.toNat - f.toNat)) content }) Buffer
      else dispPrintChars { s₁ with
        currentColumn := s₁.currentColumn + 1
        memory := .window (lineAddress V f) (160 * (u.toNat - f.toNat)) content } Buffer := by
    intro Buffer
    rw [dispPrintChars, hready]
    change (if c = 0x0A then _ else if c = 0x09 then _ else _) = _
    rw [if_neg hnewline, if_neg hc, hput]
    rfl
  by_cases hwrap : l.last.length + 1 = 80
  · have hfull : charsPerLine = s₁.currentColumn + 1 := by
      rw [← BitVec.toNat_inj, hnextColumn, hwrap]
      rfl
    refine ⟨_, fun Buffer => (hstep Buffer).trans (if_pos hfull), ?_⟩
    rw [if_neg hnewline, if_pos hwrap, hended]
    exact h₁.ended hplaced hlt hshown
  · have hfull : ¬charsPerLine = s₁.currentColumn + 1 := by
      rw [← BitVec.toNat_inj, hnextColumn]
      change ¬80 = _
      omega
    refine ⟨_, fun Buffer => (hstep Buffer).trans (if_neg hfull), ?_⟩
    rw [if_neg hnewline, if_neg hwrap, place, if_neg (by simp)]
    exact h₁.added hlt (by lia) hshown

/-- Characters other than tabs. -/
theorem At.printPlain {text : List BYTE} (h : At V f u l k s)
    (hk : min l.ended.length (u.toNat - f.toNat - 1) ≤ k) (hplain : 0x09 ∉ text) (hne : text ≠ []) :
    ∃ s', dispPrintChars s text = .ok s' ∧
      At V f u (text.foldl Layout.add l) (place (u.toNat - f.toNat) (text.foldl Layout.add l)) s' := by
  induction text generalizing l k s with
  | nil => exact absurd rfl hne
  | cons c text ih =>
    have hc : c ≠ 0x09 := fun heq => hplain (heq ▸ List.mem_cons_self)
    have hrest : 0x09 ∉ text := fun hmem => hplain (List.mem_cons_of_mem _ hmem)
    obtain ⟨s₁, hstep, h₁⟩ := h.printChar hplaced hk hc
    rw [hstep, List.foldl_cons]
    by_cases hend : text = []
    · subst hend
      exact ⟨s₁, by rw [dispPrintChars], h₁⟩
    · exact ih h₁ (le_place _ _) hrest hend

/-- A character of the text, which may be a tab. -/
theorem At.printOne (h : At V f u l (place (u.toNat - f.toNat) l) s) (c : BYTE) :
    ∃ s', (∀ Buffer, dispPrintChars s (c :: Buffer) = dispPrintChars s' Buffer) ∧
      At V f u ((expand c).foldl Layout.add l)
        (place (u.toNat - f.toNat) ((expand c).foldl Layout.add l)) s' := by
  unfold expand
  by_cases hc : c = 0x09
  · obtain ⟨s₁, hready, h₁⟩ := h.ready hplaced (le_place _ _)
    obtain ⟨s₂, hblanks, h₂⟩ := @At.printPlain _ _ _ _ _ _ hplaced [0x20, 0x20, 0x20, 0x20] h₁ le_rfl (by decide)
      (by simp)
    refine ⟨s₂, fun Buffer => ?_, by rwa [if_pos hc]⟩
    rw [dispPrintChars, hready]
    change (if c = 0x0A then _ else if c = 0x09 then _ else _) = _
    rw [if_neg (by rw [hc]; decide), if_pos hc, hblanks]
    rfl
  · rw [if_neg hc]
    exact h.printChar hplaced (le_place _ _) hc

theorem At.printChars (h : At V f u l (place (u.toNat - f.toNat) l) s) (text : List BYTE) :
    ∃ s', dispPrintChars s text = .ok s' ∧
      At V f u ((text.flatMap expand).foldl Layout.add l)
        (place (u.toNat - f.toNat) ((text.flatMap expand).foldl Layout.add l)) s' := by
  induction text generalizing l s with
  | nil => exact ⟨s, by rw [dispPrintChars], h⟩
  | cons c text ih =>
    obtain ⟨s₁, hstep, h₁⟩ := h.printOne hplaced c
    rw [hstep, List.flatMap_cons, List.foldl_append]
    exact ih h₁

end Printing

/-! ### Runs -/

/-- The screen is set up, then the strings are printed one after the other. -/
def printAll (memory : MappedMemory) (VideoAddress : QWORD) (f u : BYTE) (texts : List (Option Text)) :
    Except Fault Display := do
  texts.foldlM dispPrintString (← dispPreinitScreen memory VideoAddress f u)

def Text.charsOf : Option Text → List BYTE
  | none => []
  | some text => text.chars

section Runs

variable {V : QWORD} {f u : BYTE} {l : Layout} {s : Display} (hplaced : Placed V f u)
include hplaced

theorem preinit_at (content : ℕ → BYTE) :
    ∃ s, dispPreinitScreen (.window (lineAddress V f) (160 * (u.toNat - f.toNat)) content) V f u = .ok s ∧
      At V f u ⟨[], []⟩ 0 s := by
  obtain ⟨hsize, hpos, hu⟩ := height_le hplaced
  have hchars : ((u.setWidth 32 - f.setWidth 32 : DWORD) * charsPerLine.setWidth 32).toNat =
      80 * (u.toNat - f.toNat) := by
    rw [BitVec.toNat_mul, BitVec.toNat_sub_of_le, BitVec.toNat_setWidth_of_le (by omega),
      BitVec.toNat_setWidth_of_le (by omega)]
    · change _ * 80 % 2 ^ 32 = _
      lia
    · rw [BitVec.le_def, BitVec.toNat_setWidth_of_le (by omega), BitVec.toNat_setWidth_of_le (by omega)]
      omega
  have hbytes : (bytesPerChar * ((u.setWidth 32 - f.setWidth 32 : DWORD) * charsPerLine.setWidth 32)).toNat =
      160 * (u.toNat - f.toNat) := by
    rw [BitVec.toNat_mul, hchars]
    change 2 * _ % 2 ^ 32 = _
    lia
  have hzero : lineAddress V f = lineAddress V f + BitVec.ofNat 64 0 := (BitVec.add_zero _).symm
  have hnull := lineAddress_ne_zero hplaced (first_le hplaced)
  rw [hzero] at hnull
  have hclear := @clMemset_window (lineAddress V f) (160 * (u.toNat - f.toNat)) content 0 (by omega) 0
    (bytesPerChar * ((u.setWidth 32 - f.setWidth 32 : DWORD) * charsPerLine.setWidth 32)) hnull (by omega)
  rw [← hzero, hbytes] at hclear
  have hcleared : (fun j => if 0 ≤ j ∧ j < 0 + 160 * (u.toNat - f.toNat) then 0 else content j) =
      fun j => if j < 160 * (u.toNat - f.toNat) then (0 : BYTE) else content j := by
    funext j
    rw [Nat.zero_add]
    exact if_congr (and_iff_right (Nat.zero_le j)) rfl rfl
  rw [hcleared] at hclear
  unfold dispPreinitScreen dispClearScreen
  dsimp only
  rw [hclear]
  refine ⟨_, rfl, rfl, rfl, hbytes, rfl, rfl, rfl, by decide, rfl, Nat.zero_le _, fun _ => rfl, le_rfl,
    fun j => if j < 160 * (u.toNat - f.toNat) then 0 else content j, rfl, fun i hi j hj => ?_⟩
  beta_reduce
  rw [if_pos (by lia), if_pos (by lia)]
  change _ = cellBytes ([] ++ [[]]) i j
  rw [cellBytes_append_nil, cellBytes_of_ge (Nat.zero_le _)]

theorem printTexts_at (texts : List (Option Text)) (h : At V f u l (place (u.toNat - f.toNat) l) s) :
    ∃ s', texts.foldlM dispPrintString s = .ok s' ∧
      At V f u (((texts.flatMap Text.charsOf).flatMap expand).foldl Layout.add l)
        (place (u.toNat - f.toNat) (((texts.flatMap Text.charsOf).flatMap expand).foldl Layout.add l)) s' := by
  induction texts generalizing l s with
  | nil => exact ⟨s, rfl, h⟩
  | cons text texts ih =>
    have hfirst : ∃ s', dispPrintString s text = .ok s' ∧
        At V f u (((Text.charsOf text).flatMap expand).foldl Layout.add l)
          (place (u.toNat - f.toNat) (((Text.charsOf text).flatMap expand).foldl Layout.add l)) s' := by
      cases text with
      | none => exact ⟨s, rfl, h⟩
      | some text => exact h.printChars hplaced text.chars
    obtain ⟨s₁, hrun, h₁⟩ := hfirst
    rw [List.foldlM_cons, hrun, List.flatMap_cons, List.flatMap_append, List.foldl_append]
    exact ih h₁

/-- At the place, the rows above and the row that has not ended are the last rows. -/
theorem At.shows_lastRows (h : At V f u l (place (u.toNat - f.toNat) l) s) : ∃ content,
    s.memory = .window (lineAddress V f) (160 * (u.toNat - f.toNat)) content ∧
      Shows content (u.toNat - f.toNat) (lastRows (u.toNat - f.toNat) l.rows) := by
  obtain ⟨-, hpos, -⟩ := height_le hplaced
  obtain ⟨content, hmemory, hshown⟩ := h.shown
  refine ⟨content, hmemory, ?_⟩
  unfold place at hshown
  unfold lastRows Layout.rows
  by_cases hlast : l.last = []
  · rw [if_pos hlast, hlast, shows_append_nil] at hshown
    rw [if_pos hlast]
    rwa [show l.ended.length - (u.toNat - f.toNat) =
      l.ended.length - min l.ended.length (u.toNat - f.toNat) by lia]
  · rw [if_neg hlast] at hshown ⊢
    rw [List.length_append, List.length_singleton, List.drop_append_of_le_length (by omega)]
    rwa [show l.ended.length + 1 - (u.toNat - f.toNat) =
      l.ended.length - min l.ended.length (u.toNat - f.toNat - 1) by lia]

end Runs

/-- Only the usable rows may be accessed: no other row of the screen is read or written. -/
theorem printAll_shows_tail (VideoAddress : QWORD) (f u : BYTE) (hplaced : Placed VideoAddress f u)
    (content : ℕ → BYTE) (texts : List (Option Text)) : ∃ s content',
    printAll (.window (lineAddress VideoAddress f) (160 * (u.toNat - f.toNat)) content) VideoAddress f u texts =
      .ok s ∧
    f ≤ s.currentLine ∧ s.currentLine ≤ u ∧ s.currentColumn < charsPerLine ∧
    s.memory = .window (lineAddress VideoAddress f) (160 * (u.toNat - f.toNat)) content' ∧
    Shows content' (u.toNat - f.toNat)
      (lastRows (u.toNat - f.toNat) (layout (texts.flatMap Text.charsOf)).rows) := by
  obtain ⟨-, hpos, -⟩ := height_le hplaced
  obtain ⟨s₀, hinit, h₀⟩ := preinit_at hplaced content
  have hplace : place (u.toNat - f.toNat) ⟨[], []⟩ = 0 := Nat.zero_min (u.toNat - f.toNat)
  rw [← hplace] at h₀
  obtain ⟨s, hrun, h⟩ := printTexts_at hplaced texts h₀
  obtain ⟨content', hmemory, hshown⟩ := h.shows_lastRows hplaced
  have hline := h.line
  have hinside := h.inside
  refine ⟨s, content', ?_, ?_, ?_, ?_, hmemory, hshown⟩
  · rw [printAll, hinit]
    exact hrun
  · rw [BitVec.le_def, hline]
    exact Nat.le_add_right _ _
  · rw [BitVec.le_def, hline]
    omega
  · rw [BitVec.lt_def, h.column]
    exact h.short

/-- Two strings and a `NULL` with four lines for a window of two rows, the third one with a tab. -/
def fourLines : List (Option Text) :=
  [some ⟨⟨[0x61, 0x0A, 0x62, 0x0A], by decide⟩, by decide⟩, none,
    some ⟨⟨[0x63, 0x09, 0x64, 0x0A, 0x65], by decide⟩, by decide⟩]

theorem printAll_shows_tail_scrolled : Placed 0xFFFF8000000B8000 1 3 ∧ ∃ s content',
    printAll (.window (lineAddress 0xFFFF8000000B8000 1) 320 fun _ => 0) 0xFFFF8000000B8000 1 3 fourLines = .ok s ∧
    s.memory = .window (lineAddress 0xFFFF8000000B8000 1) 320 content' ∧
    Shows content' 2 [[0x63, 0x20, 0x20, 0x20, 0x20, 0x64], [0x65]] := by
  have hplaced : Placed 0xFFFF8000000B8000 1 3 := ⟨by decide, by decide, by decide, by decide⟩
  obtain ⟨s, content', hrun, -, -, -, hmemory, hshown⟩ :=
    printAll_shows_tail 0xFFFF8000000B8000 1 3 hplaced (fun _ => 0) fourLines
  have hrows : lastRows 2 (layout (fourLines.flatMap Text.charsOf)).rows =
      [[0x63, 0x20, 0x20, 0x20, 0x20, 0x64], [0x65]] := by
    decide
  exact ⟨hplaced, s, content', hrun, hmemory, hrows ▸ hshown⟩

end HAL9000.Console
