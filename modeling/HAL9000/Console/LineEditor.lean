import HAL9000.CommonLib.Trim
import HAL9000.Console.Keyboard

/-! The line editor of `keyboard_utils.c`. The keys and the characters that `KeyboardKeyToAscii` makes of them are
inputs; what is drawn on the screen is left out. A write outside of a buffer ends the computation. -/
namespace HAL9000.Console

open Strings (HoldsString Around charAt clStrtrim leadingSpaces trimmed)

/-- What `getch` returns, and its character or 0. -/
structure KeyPress where
  key : WORD
  ascii : BYTE
  known : key ≠ keyUnknown

/-- `m_CmdHistory` with the index of its first entry and the number of its entries. -/
structure CmdHistory where
  entry : ℕ → ℕ → BYTE
  firstIndex : DWORD
  size : DWORD

def cmdHistoryMaxSize : DWORD := 16

/-- `CHARS_PER_LINE`. -/
def historyLine : ℕ := 80

def setChar (size : ℕ) (b : ℕ → BYTE) (i : ℕ) (c : BYTE) : Except Fault (ℕ → BYTE) :=
  if i < size then .ok (Function.update b i c) else .error .danglingAccess

def strlenLoop (str : ℕ → BYTE) : ℕ → ℕ → ℕ
  | 0, i => i
  | n + 1, i => if str i = 0 then i else strlenLoop str n (i + 1)

def clStrlenS (str : ℕ → BYTE) (maxLen : ℕ) : ℕ := strlenLoop str maxLen 0

def strncpyLoop (size : ℕ) (src : ℕ → BYTE) : ℕ → ℕ → (ℕ → BYTE) → Except Fault (ℕ → BYTE)
  | 0, i, dst => setChar size dst i 0
  | n + 1, i, dst =>
    if src i = 0 then setChar size dst i 0
    else do strncpyLoop size src n (i + 1) (← setChar size dst i (src i))

def clStrncpy (size : ℕ) (dst src : ℕ → BYTE) (length : ℕ) : Except Fault (ℕ → BYTE) := do
  assertThat (0 ≠ length)
  strncpyLoop size src length 0 dst

/-- `strtrim` of the buffer at an address. -/
def trimBuffer (Buffer : QWORD) (size : ℕ) (b : ℕ → BYTE) : Except Fault (ℕ → BYTE) := do
  let m ← clStrtrim (.window Buffer size b) Buffer
  return fun k => (m (Buffer + BitVec.ofNat 64 k)).getD 0

/-- The characters from `j` on are moved to the left; the length is measured in every round. -/
def shiftLeftLoop (size maxBufferSize : ℕ) : ℕ → ℕ → (ℕ → BYTE) → Except Fault (ℕ → BYTE)
  | 0, _, _ => .error .outOfFuel
  | fuel + 1, j, b =>
    if j ≤ clStrlenS b (maxBufferSize - 1) then do
      shiftLeftLoop size maxBufferSize fuel (j + 1) (← setChar size b (j - 1) (b j))
    else .ok b

/-- The `n` characters from `i` on are moved to the right, the last one first. -/
def shiftRightLoop (size i : ℕ) : ℕ → (ℕ → BYTE) → Except Fault (ℕ → BYTE)
  | 0, b => .ok b
  | n + 1, b => do shiftRightLoop size i n (← setChar size b (i + n + 1) (b (i + n)))

structure LineState where
  buffer : ℕ → BYTE
  i : ℕ
  cmdHistoryIndex : DWORD

inductive Gets
  | typing (s : LineState)
  | done (buffer : ℕ → BYTE) (usedSize : ℕ) (history : CmdHistory)

/-- `min(BufferSize, CHARS_PER_LINE - CMD_SHELL_SIZE + 1)`. -/
def maxBufferSize (BufferSize : DWORD) : ℕ := min BufferSize.toNat 78

section Code

variable (Buffer : QWORD) (BufferSize : DWORD) (h : CmdHistory) (s : LineState)

/-- Room for another entry, which is that of the oldest one in a full history. -/
def nextHistory (h : CmdHistory) : CmdHistory :=
  if cmdHistoryMaxSize = h.size then { h with firstIndex := (h.firstIndex + 1) % cmdHistoryMaxSize }
  else { h with size := h.size + 1 }

def lastEntry (h : CmdHistory) : DWORD := (h.firstIndex + h.size - 1) % cmdHistoryMaxSize

/-- An entry of the history is copied into the buffer. -/
def recallEntry (index : DWORD) : Except Fault Gets := do
  let buffer ← clStrncpy BufferSize.toNat s.buffer (h.entry index.toNat) (maxBufferSize BufferSize - 1)
  return .typing ⟨buffer, clStrlenS buffer (maxBufferSize BufferSize), index⟩

def pressReturn : Except Fault Gets :=
  if clStrlenS s.buffer (maxBufferSize BufferSize) = 0 then .ok (.done s.buffer s.i h)
  else do
    let h := nextHistory h
    let buffer ← trimBuffer Buffer BufferSize.toNat s.buffer
    let slot := (lastEntry h).toNat
    let entry ← clStrncpy historyLine (h.entry slot) buffer (maxBufferSize BufferSize - 1)
    return .done buffer s.i { h with entry := Function.update h.entry slot entry }

def pressBackspace : Except Fault Gets :=
  if s.i ≠ 0 then do
    let buffer ← shiftLeftLoop BufferSize.toNat (maxBufferSize BufferSize) (maxBufferSize BufferSize + 1) s.i s.buffer
    return .typing { s with buffer := buffer, i := s.i - 1 }
  else .ok (.typing s)

def pressUp : Except Fault Gets :=
  if h.size = 0 then .ok (.typing s)
  else recallEntry BufferSize h s
    (if s.cmdHistoryIndex = maxDword then lastEntry h
    else if s.cmdHistoryIndex ≠ h.firstIndex then (s.cmdHistoryIndex - 1) % cmdHistoryMaxSize
    else s.cmdHistoryIndex)

def pressDown : Except Fault Gets :=
  if h.size = 0 then .ok (.typing s)
  else if s.cmdHistoryIndex = maxDword then .ok (.typing s)
  else recallEntry BufferSize h s
    (if s.cmdHistoryIndex ≠ lastEntry h then (s.cmdHistoryIndex + 1) % cmdHistoryMaxSize else s.cmdHistoryIndex)

def pressRight : Gets :=
  if s.i < maxBufferSize BufferSize - 2 ∧ s.buffer s.i ≠ 0 then .typing { s with i := s.i + 1 } else .typing s

def pressOther (c : BYTE) : Except Fault Gets := do
  let s ← if c ≠ 0 then do
      let n := clStrlenS s.buffer (maxBufferSize BufferSize - 1) + 1 - s.i
      let buffer ← setChar BufferSize.toNat (← shiftRightLoop BufferSize.toNat s.i n s.buffer) s.i c
      pure { s with buffer := buffer, i := s.i + 1 }
    else pure s
  return if maxBufferSize BufferSize - 1 ≤ s.i then .done s.buffer s.i h else .typing s

/-- One round of the loop. -/
def getsKey (k : KeyPress) : Except Fault Gets :=
  if k.key = keyReturn then pressReturn Buffer BufferSize h s
  else if k.key = keyBackspace then pressBackspace BufferSize s
  else if k.key = keyDelete then .ok (.typing s)
  else if k.key = keyUp then pressUp BufferSize h s
  else if k.key = keyDown then pressDown BufferSize h s
  else if k.key = keyLeft then .ok (.typing { s with i := s.i - 1 })
  else if k.key = keyRight then .ok (pressRight BufferSize s)
  else if k.key = keyHome then .ok (.typing { s with i := 0 })
  else if k.key = keyEnd then .ok (.typing { s with i := clStrlenS s.buffer (maxBufferSize BufferSize) })
  else if k.key = keyTab then .ok (.typing s)
  else pressOther BufferSize h s k.ascii

/-- The keys that come; those behind the end of the line are not read. -/
def getsLoop : List KeyPress → LineState → Except Fault Gets
  | [], s => .ok (.typing s)
  | k :: keys, s => do
    match ← getsKey Buffer BufferSize h s k with
    | .typing s => getsLoop keys s
    | .done buffer usedSize history => return .done buffer usedSize history

def getsS (buffer : ℕ → BYTE) (keys : List KeyPress) : Except Fault Gets := do
  assertThat (0 ≠ Buffer)
  assertThat (1 < BufferSize)
  getsLoop Buffer BufferSize h keys ⟨fun k => if k < BufferSize.toNat then 0 else buffer k, 0, maxDword⟩

end Code

/-! ### The reference -/

/-- A text with a cursor, and the entry of the history that was recalled last. -/
structure Editor where
  text : List BYTE
  cursor : ℕ
  recalled : Option ℕ

namespace Editor

variable (max : ℕ) (lines : List (List BYTE)) (e : Editor)

/-- The cursor is put behind an entry of the history. -/
def recallLine (p : ℕ) : Editor :=
  let text := (lines.getD p []).take max
  ⟨text, text.length, some p⟩

def backspace : Editor :=
  if e.cursor = 0 then e
  else { e with text := e.text.take (e.cursor - 1) ++ e.text.drop e.cursor, cursor := e.cursor - 1 }

def up : Editor :=
  if lines = [] then e
  else match e.recalled with
    | none => recallLine max lines (lines.length - 1)
    | some p => recallLine max lines (p - 1)

def down : Editor :=
  match e.recalled with
  | none => e
  | some p => recallLine max lines (min (p + 1) (lines.length - 1))

def insert (c : BYTE) : Editor :=
  if c ≠ 0 ∧ e.text.length < max then
    { e with text := e.text.take e.cursor ++ c :: e.text.drop e.cursor, cursor := e.cursor + 1 }
  else e

/-- What a key other than Return does to a text of at most `max` characters. -/
def press (k : KeyPress) : Editor :=
  if k.key = keyBackspace then e.backspace
  else if k.key = keyDelete then e
  else if k.key = keyUp then up max lines e
  else if k.key = keyDown then down max lines e
  else if k.key = keyLeft then { e with cursor := e.cursor - 1 }
  else if k.key = keyRight then { e with cursor := min (e.cursor + 1) e.text.length }
  else if k.key = keyHome then { e with cursor := 0 }
  else if k.key = keyEnd then { e with cursor := e.text.length }
  else if k.key = keyTab then e
  else insert max e k.ascii

end Editor

/-- The key is none of those that edit the line. -/
def KeyPress.IsOther (k : KeyPress) : Prop :=
  k.key ∉ [keyReturn, keyBackspace, keyDelete, keyUp, keyDown, keyLeft, keyRight, keyHome, keyEnd, keyTab]

instance (k : KeyPress) : Decidable k.IsOther := inferInstanceAs (Decidable (_ ∉ _))

/-- A line that is typed, that was entered with Return, or that is full. -/
inductive Line
  | typing (e : Editor)
  | entered (text : List BYTE)
  | full (text : List BYTE)

def Editor.run (max : ℕ) (lines : List (List BYTE)) : List KeyPress → Editor → Line
  | [], e => .typing e
  | k :: keys, e =>
    if k.key = keyReturn then .entered (trimmed e.text)
    else
      let e := e.press max lines k
      if k.IsOther ∧ e.cursor = max then .full e.text else Editor.run max lines keys e

/-! ### Buffers -/

section Buffers

variable {b dst src : ℕ → BYTE} {t : List BYTE} {size i n p : ℕ} {c : BYTE}

theorem setChar_of_lt (h : i < size) : setChar size b i c = .ok (Function.update b i c) := if_pos h

theorem strlenLoop_eq (hle : i ≤ p) (hp : p ≤ i + n) (hpass : ∀ k, i ≤ k → k < p → b k ≠ 0)
    (hstop : p = i + n ∨ b p = 0) : strlenLoop b n i = p := by
  induction n generalizing i with
  | zero => exact Nat.le_antisymm hle hp
  | succ n ih =>
    unfold strlenLoop
    by_cases hzero : b i = 0
    · rw [if_pos hzero]
      by_contra hne
      exact hpass i le_rfl (by omega) hzero
    · rw [if_neg hzero]
      have hne : i ≠ p := by
        rintro rfl
        rcases hstop with h | h
        · omega
        · exact hzero h
      exact ih (by omega) (by omega) (fun k hk => hpass k (by omega)) (hstop.imp_left fun h => by omega)

theorem strlenLoop_le (hle : i ≤ p) (hstop : b p = 0) : strlenLoop b n i ≤ p := by
  induction n generalizing i with
  | zero => exact hle
  | succ n ih =>
    unfold strlenLoop
    by_cases hzero : b i = 0
    · rw [if_pos hzero]
      exact hle
    · rw [if_neg hzero]
      have hne : i ≠ p := fun h => hzero (h ▸ hstop)
      exact ih (by omega)

theorem holds_ne_zero (hb : HoldsString b t) (hzero : 0 ∉ t) {k : ℕ} (hk : k < t.length) : b k ≠ 0 := by
  rw [hb k hk.le]
  exact (Strings.charAt_ne_zero_iff hzero).mpr hk

theorem holds_end (hb : HoldsString b t) : b t.length = 0 := (hb _ le_rfl).trans (Strings.charAt_of_ge le_rfl)

theorem clStrlenS_of_holds (hb : HoldsString b t) (hzero : 0 ∉ t) (hn : t.length ≤ n) : clStrlenS b n = t.length :=
  strlenLoop_eq (Nat.zero_le _) (by omega) (fun _ _ hk => holds_ne_zero hb hzero hk) (.inr (holds_end hb))

theorem strncpyLoop_eq (hle : i ≤ p) (hp : p ≤ i + n) (hpass : ∀ k, i ≤ k → k < p → src k ≠ 0)
    (hstop : p = i + n ∨ src p = 0) (hsize : p < size) : strncpyLoop size src n i dst =
      .ok fun k => if i ≤ k ∧ k < p then src k else if k = p then 0 else dst k := by
  induction n generalizing i dst with
  | zero =>
    obtain rfl : i = p := Nat.le_antisymm hle hp
    unfold strncpyLoop
    rw [setChar_of_lt hsize]
    refine congrArg Except.ok (funext fun k => ?_)
    rw [if_neg (by omega)]
    by_cases hk : k = i
    · rw [hk, Function.update_self, if_pos rfl]
    · rw [Function.update_of_ne hk, if_neg hk]
  | succ n ih =>
    unfold strncpyLoop
    by_cases hzero : src i = 0
    · obtain rfl : i = p := by
        by_contra hne
        exact hpass i le_rfl (by omega) hzero
      rw [if_pos hzero, setChar_of_lt hsize]
      refine congrArg Except.ok (funext fun k => ?_)
      rw [if_neg (by omega)]
      by_cases hk : k = i
      · rw [hk, Function.update_self, if_pos rfl]
      · rw [Function.update_of_ne hk, if_neg hk]
    · have hne : i ≠ p := by
        rintro rfl
        rcases hstop with h | h
        · omega
        · exact hzero h
      rw [if_neg hzero, setChar_of_lt (by omega)]
      refine (ih (by omega) (by omega) (fun k hk => hpass k (by omega)) (hstop.imp_left fun h => by omega)).trans ?_
      refine congrArg Except.ok (funext fun k => ?_)
      by_cases hk : k = i
      · rw [hk, if_neg (by omega), if_neg hne, Function.update_self, if_pos (by omega)]
      · rw [Function.update_of_ne hk]
        by_cases hin : i + 1 ≤ k ∧ k < p
        · rw [if_pos hin, if_pos (by omega)]
        · rw [if_neg hin, if_neg (show ¬(i ≤ k ∧ k < p) by omega)]

/-- A copy is cut to the length. -/
theorem clStrncpy_holds (hsrc : HoldsString src t) (hzero : 0 ∉ t) (hn : n ≠ 0) (hsize : min n t.length < size) :
    ∃ b, clStrncpy size dst src n = .ok b ∧ HoldsString b (t.take n) := by
  have hloop := @strncpyLoop_eq dst src size 0 n (min n t.length) (Nat.zero_le _) (by omega)
    (fun k _ hk => holds_ne_zero hsrc hzero (by omega)) (by
      by_cases hle : n ≤ t.length
      · left
        omega
      · right
        rw [Nat.min_eq_right (by omega)]
        exact holds_end hsrc) hsize
  refine ⟨fun k => if 0 ≤ k ∧ k < min n t.length then src k else if k = min n t.length then 0 else dst k, ?_,
    fun k hk => ?_⟩
  · unfold clStrncpy
    rw [assertThat_of hn.symm]
    exact hloop
  · dsimp only
    rw [List.length_take] at hk
    by_cases hlt : k < min n t.length
    · rw [if_pos ⟨Nat.zero_le k, hlt⟩, hsrc k (by omega)]
      unfold charAt
      rw [List.getD_eq_getElem?_getD, List.getD_eq_getElem?_getD, List.getElem?_take_of_lt (by omega)]
    · have heq : k = min n t.length := by omega
      rw [if_neg (by omega), if_pos heq, Strings.charAt_of_ge (by rw [List.length_take]; omega)]

theorem shiftRightLoop_eq (h : i + n < size) :
    shiftRightLoop size i n b = .ok fun k => if i < k ∧ k ≤ i + n then b (k - 1) else b k := by
  induction n generalizing b with
  | zero => exact congrArg Except.ok (funext fun k => (if_neg (by omega)).symm)
  | succ n ih =>
    unfold shiftRightLoop
    rw [setChar_of_lt (by omega)]
    refine (ih (by omega)).trans (congrArg Except.ok (funext fun k => ?_))
    by_cases hk : k = i + n + 1
    · rw [hk, if_neg (by omega), Function.update_self, if_pos (by omega), Nat.add_sub_cancel]
    · by_cases hin : i < k ∧ k ≤ i + n
      · rw [if_pos hin, Function.update_of_ne (by omega), if_pos (by omega)]
      · rw [if_neg hin, Function.update_of_ne hk, if_neg (by omega)]

theorem charAt_insert (hi : i ≤ t.length) (k : ℕ) : charAt (t.take i ++ c :: t.drop i) k =
    if k < i then charAt t k else if k = i then c else charAt t (k - 1) := by
  unfold charAt
  simp only [List.getD_eq_getElem?_getD]
  rw [List.getElem?_append, List.length_take, Nat.min_eq_left hi]
  by_cases hlt : k < i
  · rw [if_pos hlt, if_pos hlt, List.getElem?_take_of_lt hlt]
  · rw [if_neg hlt, if_neg hlt]
    by_cases heq : k = i
    · rw [if_pos heq, heq, Nat.sub_self]
      rfl
    · rw [if_neg heq, show k - i = k - 1 - i + 1 by lia, List.getElem?_cons_succ, List.getElem?_drop,
        show i + (k - 1 - i) = k - 1 by lia]

theorem charAt_erase (hpos : i ≠ 0) (hi : i ≤ t.length) (k : ℕ) : charAt (t.take (i - 1) ++ t.drop i) k =
    if k < i - 1 then charAt t k else charAt t (k + 1) := by
  unfold charAt
  simp only [List.getD_eq_getElem?_getD]
  rw [List.getElem?_append, List.length_take, Nat.min_eq_left (by omega)]
  by_cases hlt : k < i - 1
  · rw [if_pos hlt, if_pos hlt, List.getElem?_take_of_lt hlt]
  · rw [if_neg hlt, if_neg hlt, List.getElem?_drop, show i + (k - (i - 1)) = k + 1 by lia]

/-- An insertion into a line with room. -/
theorem insert_holds (hb : HoldsString b t) (hi : i ≤ t.length) (hsize : t.length + 1 < size) :
    ∃ b', (shiftRightLoop size i (t.length + 1 - i) b >>= fun b => setChar size b i c) = .ok b' ∧
      HoldsString b' (t.take i ++ c :: t.drop i) := by
  have hloop := @shiftRightLoop_eq b size i (t.length + 1 - i) (by omega)
  refine ⟨Function.update (fun k => if i < k ∧ k ≤ i + (t.length + 1 - i) then b (k - 1) else b k) i c, ?_,
    fun k hk => ?_⟩
  · rw [hloop]
    exact setChar_of_lt (by omega)
  · have hlen : (t.take i ++ c :: t.drop i).length = t.length + 1 := by
      rw [List.length_append, List.length_take, List.length_cons, List.length_drop]
      lia
    rw [hlen] at hk
    rw [charAt_insert hi]
    by_cases heq : k = i
    · rw [heq, Function.update_self, if_neg (lt_irrefl i), if_pos rfl]
    · rw [Function.update_of_ne heq]
      by_cases hlt : k < i
      · rw [if_neg (by omega), if_pos hlt, hb k (by omega)]
      · rw [if_pos (by lia), if_neg hlt, if_neg heq, hb (k - 1) (by omega)]

/-- The characters from `i` up to `j` are moved to the left. -/
def shiftedLeft (b : ℕ → BYTE) (i j : ℕ) : ℕ → BYTE := fun k => if i ≤ k + 1 ∧ k + 1 < j then b (k + 1) else b k

theorem shiftedLeft_end (hb : HoldsString b t) {j : ℕ} (hj : j ≤ t.length + 1) : shiftedLeft b i j t.length = 0 :=
  (if_neg (by omega)).trans (holds_end hb)

theorem shiftedLeft_ne_zero (hb : HoldsString b t) (hzero : 0 ∉ t) {j k : ℕ} (hj : j ≤ t.length) (hk : k < t.length) :
    shiftedLeft b i j k ≠ 0 := by
  unfold shiftedLeft
  by_cases hin : i ≤ k + 1 ∧ k + 1 < j
  · rw [if_pos hin]
    exact holds_ne_zero hb hzero (by omega)
  · rw [if_neg hin]
    exact holds_ne_zero hb hzero hk

theorem shiftedLeft_succ {j : ℕ} (hpos : j ≠ 0) (hij : i ≤ j) :
    Function.update (shiftedLeft b i j) (j - 1) (shiftedLeft b i j j) = shiftedLeft b i (j + 1) := by
  funext k
  unfold shiftedLeft
  by_cases hk : k = j - 1
  · rw [hk, Function.update_self, show j - 1 + 1 = j by omega, if_neg (by omega), if_pos (by omega)]
  · rw [Function.update_of_ne hk]
    by_cases hin : i ≤ k + 1 ∧ k + 1 < j
    · rw [if_pos hin, if_pos (by omega)]
    · rw [if_neg hin, if_neg (by lia)]

/-- The length stays the same until the terminator is moved. -/
theorem shiftLeftLoop_eq {max fuel : ℕ} (hb : HoldsString b t) (hzero : 0 ∉ t) (hmax : t.length ≤ max - 1)
    (hsize : t.length < size) (hi : i ≠ 0) (n j : ℕ) (hij : i ≤ j) (hj : j + n = t.length + 1) (hfuel : n < fuel) :
    shiftLeftLoop size max fuel j (shiftedLeft b i j) = .ok (shiftedLeft b i (t.length + 1)) := by
  induction n generalizing j fuel with
  | zero =>
    obtain ⟨fuel, rfl⟩ := Nat.exists_eq_add_one.mpr hfuel
    have hle : clStrlenS (shiftedLeft b i j) (max - 1) ≤ t.length :=
      strlenLoop_le (Nat.zero_le _) (shiftedLeft_end hb (by omega))
    unfold shiftLeftLoop
    rw [if_neg (by omega), show j = t.length + 1 by omega]
  | succ n ih =>
    obtain ⟨fuel, rfl⟩ := Nat.exists_eq_add_one.mpr (Nat.zero_lt_of_lt hfuel)
    have hlen : clStrlenS (shiftedLeft b i j) (max - 1) = t.length :=
      strlenLoop_eq (Nat.zero_le _) (by omega) (fun k _ hk => shiftedLeft_ne_zero hb hzero (by omega) hk)
        (.inr (shiftedLeft_end hb (by omega)))
    unfold shiftLeftLoop
    rw [hlen, if_pos (by omega), setChar_of_lt (by lia), shiftedLeft_succ (by omega) hij]
    exact ih (j + 1) (by omega) (by omega) (Nat.lt_of_succ_lt_succ hfuel)

/-- A deletion. -/
theorem erase_holds {max : ℕ} (hb : HoldsString b t) (hzero : 0 ∉ t) (hmax : t.length ≤ max - 1)
    (hsize : t.length < size) (hpos : i ≠ 0) (hi : i ≤ t.length) :
    ∃ b', shiftLeftLoop size max (max + 1) i b = .ok b' ∧ HoldsString b' (t.take (i - 1) ++ t.drop i) := by
  have hloop := @shiftLeftLoop_eq b t size i max (max + 1) hb hzero hmax hsize hpos (t.length + 1 - i) i le_rfl
    (by omega) (by lia)
  have hstart : shiftedLeft b i i = b := funext fun k => if_neg (by omega)
  rw [hstart] at hloop
  refine ⟨_, hloop, fun k hk => ?_⟩
  rw [List.length_append, List.length_take, List.length_drop] at hk
  rw [charAt_erase hpos hi]
  unfold shiftedLeft
  by_cases hlt : k < i - 1
  · rw [if_neg (by omega), if_pos hlt, hb k (by omega)]
  · rw [if_pos (by lia), if_neg hlt, hb (k + 1) (by lia)]

end Buffers

/-! ### The history -/

/-- The history holds these lines, the oldest one first. -/
structure HistoryHolds (h : CmdHistory) (lines : List (List BYTE)) : Prop where
  first : h.firstIndex.toNat < 16
  size : h.size.toNat = lines.length
  atMost : lines.length ≤ 16
  entries : ∀ k (hk : k < lines.length), HoldsString (h.entry ((h.firstIndex.toNat + k) % 16)) lines[k]
  clean : ∀ line ∈ lines, 0 ∉ line ∧ line.length < 78

/-- The last 16 lines. -/
def lastLines (lines : List (List BYTE)) : List (List BYTE) := lines.drop (lines.length - 16)

section History

variable {h : CmdHistory} {lines : List (List BYTE)} {t : List BYTE} {b : ℕ → BYTE}

theorem lastLines_append (lines : List (List BYTE)) (t : List BYTE) : lastLines (lines ++ [t]) =
    if (lastLines lines).length = 16 then (lastLines lines).tail ++ [t] else lastLines lines ++ [t] := by
  unfold lastLines
  rw [List.length_drop, List.length_append, List.length_singleton, List.tail_drop]
  by_cases hfull : lines.length - (lines.length - 16) = 16
  · rw [if_pos hfull, List.drop_append_of_le_length (by omega), show lines.length + 1 - 16 = lines.length - 16 + 1 by lia]
  · rw [if_neg hfull, List.drop_append_of_le_length (by omega), show lines.length + 1 - 16 = lines.length - 16 by lia]

theorem lastEntry_toNat (hh : HistoryHolds h lines) (hpos : lines ≠ []) :
    (lastEntry h).toNat = (h.firstIndex.toNat + (lines.length - 1)) % 16 := by
  have hfirst := hh.first
  have hsize := hh.size
  have hmost := hh.atMost
  have hlen := List.length_pos_iff.mpr hpos
  unfold lastEntry
  rw [BitVec.toNat_umod, BitVec.toNat_sub, BitVec.toNat_add]
  change (2 ^ 32 - 1 + (h.firstIndex.toNat + h.size.toNat) % 2 ^ 32) % 2 ^ 32 % 16 = _
  lia

def appendLine (lines : List (List BYTE)) (t : List BYTE) : List (List BYTE) :=
  if lines.length = 16 then lines.tail ++ [t] else lines ++ [t]

theorem nextHistory_of_full (hh : HistoryHolds h lines) (hfull : lines.length = 16) :
    nextHistory h = { h with firstIndex := (h.firstIndex + 1) % cmdHistoryMaxSize } := by
  refine if_pos (BitVec.eq_of_toNat_eq ?_)
  rw [hh.size, hfull]
  rfl

theorem nextHistory_of_room (hh : HistoryHolds h lines) (hroom : lines.length ≠ 16) :
    nextHistory h = { h with size := h.size + 1 } := by
  refine if_neg fun heq => hroom ?_
  rw [← hh.size, ← heq]
  rfl

/-- A line that is put into the slot behind the others, or into that of the oldest one. -/
theorem HistoryHolds.append (hh : HistoryHolds h lines) (hb : HoldsString b t) (hzero : 0 ∉ t) (hlen : t.length < 78) :
    HistoryHolds { nextHistory h with
      entry := Function.update (nextHistory h).entry (lastEntry (nextHistory h)).toNat b } (appendLine lines t) := by
  have hfirst := hh.first
  have hsize := hh.size
  have hmost := hh.atMost
  by_cases hfull : lines.length = 16
  · rw [nextHistory_of_full hh hfull]
    unfold appendLine
    rw [if_pos hfull]
    have hnext : ((h.firstIndex + 1) % cmdHistoryMaxSize).toNat = (h.firstIndex.toNat + 1) % 16 := by
      rw [BitVec.toNat_umod, BitVec.toNat_add]
      change (h.firstIndex.toNat + 1) % 2 ^ 32 % 16 = _
      lia
    have hslot : (lastEntry { h with firstIndex := (h.firstIndex + 1) % cmdHistoryMaxSize }).toNat =
        ((h.firstIndex.toNat + 1) % 16 + 15) % 16 := by
      unfold lastEntry
      rw [BitVec.toNat_umod, BitVec.toNat_sub, BitVec.toNat_add, hnext, hsize, hfull]
      change (2 ^ 32 - 1 + ((h.firstIndex.toNat + 1) % 16 + 16) % 2 ^ 32) % 2 ^ 32 % 16 = _
      lia
    refine ⟨?_, ?_, ?_, fun k hk => ?_, fun line hline => ?_⟩
    · rw [hnext]
      lia
    · simp only [List.length_append, List.length_tail, List.length_singleton]
      lia
    · simp only [List.length_append, List.length_tail, List.length_singleton]
      omega
    · simp only [List.length_append, List.length_tail, List.length_singleton] at hk
      dsimp only
      rw [hnext, hslot]
      by_cases hlast : k = 15
      · subst hlast
        rw [Function.update_self, List.getElem_append_right (by simp; omega)]
        simpa using hb
      · rw [Function.update_of_ne (by lia), List.getElem_append_left (by simp; lia), List.getElem_tail]
        have hold := hh.entries (k + 1) (by lia)
        rwa [show (h.firstIndex.toNat + (k + 1)) % 16 = ((h.firstIndex.toNat + 1) % 16 + k) % 16 by lia] at hold
    · rcases List.mem_append.mp hline with hold | hnew
      · exact hh.clean line (List.mem_of_mem_tail hold)
      · rw [List.mem_singleton.mp hnew]
        exact ⟨hzero, hlen⟩
  · rw [nextHistory_of_room hh hfull]
    unfold appendLine
    rw [if_neg hfull]
    have hnext : (h.size + 1).toNat = lines.length + 1 := by
      rw [toNat_add_one (by omega), hsize]
    have hslot : (lastEntry { h with size := h.size + 1 }).toNat = (h.firstIndex.toNat + lines.length) % 16 := by
      unfold lastEntry
      rw [BitVec.toNat_umod, BitVec.toNat_sub, BitVec.toNat_add, hnext]
      change (2 ^ 32 - 1 + (h.firstIndex.toNat + (lines.length + 1)) % 2 ^ 32) % 2 ^ 32 % 16 = _
      lia
    refine ⟨hfirst, ?_, ?_, fun k hk => ?_, fun line hline => ?_⟩
    · rw [hnext, List.length_append, List.length_singleton]
    · rw [List.length_append, List.length_singleton]
      lia
    · rw [List.length_append, List.length_singleton] at hk
      dsimp only
      rw [hslot]
      by_cases hlast : k = lines.length
      · subst hlast
        rw [Function.update_self, List.getElem_append_right le_rfl]
        simpa using hb
      · rw [Function.update_of_ne (by lia), List.getElem_append_left (by lia)]
        exact hh.entries k (by omega)
    · rcases List.mem_append.mp hline with hold | hnew
      · exact hh.clean line hold
      · rw [List.mem_singleton.mp hnew]
        exact ⟨hzero, hlen⟩

end History

/-! ### The keys -/

/-- The index is that of the entry that was recalled last. -/
def RecalledAt (h : CmdHistory) (lines : List (List BYTE)) (index : DWORD) : Option ℕ → Prop
  | none => index = maxDword
  | some p => p < lines.length ∧ index.toNat = (h.firstIndex.toNat + p) % 16

/-- The buffer holds the text of the editor. -/
structure LineHolds (max : ℕ) (h : CmdHistory) (lines : List (List BYTE)) (s : LineState) (e : Editor) : Prop where
  text : HoldsString s.buffer e.text
  clean : 0 ∉ e.text
  short : e.text.length ≤ max
  cursor : s.i = e.cursor
  inside : e.cursor ≤ e.text.length
  recalled : RecalledAt h lines s.cmdHistoryIndex e.recalled

/-- What the size of the buffer leaves for the text. -/
structure RoomFor (BufferSize : DWORD) (max : ℕ) : Prop where
  max_eq : maxBufferSize BufferSize = max + 1
  pos : 0 < max
  small : max ≤ 77
  fits : max < BufferSize.toNat

section Keys

variable {BufferSize : DWORD} {max : ℕ} {h : CmdHistory} {lines : List (List BYTE)} {s : LineState} {e : Editor}

theorem roomFor (hsize : 1 < BufferSize) : RoomFor BufferSize (maxBufferSize BufferSize - 1) := by
  rw [BitVec.lt_def] at hsize
  change 1 < BufferSize.toNat at hsize
  have hmax : maxBufferSize BufferSize = min BufferSize.toNat 78 := rfl
  constructor <;> lia

theorem LineHolds.length_eq (hs : LineHolds max h lines s e) {n : ℕ} (hn : max ≤ n) :
    clStrlenS s.buffer n = e.text.length := clStrlenS_of_holds hs.text hs.clean (hs.short.trans hn)

theorem recallEntry_holds (hr : RoomFor BufferSize max) (hh : HistoryHolds h lines) (s : LineState) {index : DWORD}
    {p : ℕ} (hindex : RecalledAt h lines index (some p)) :
    ∃ s', recallEntry BufferSize h s index = .ok (.typing s') ∧ LineHolds max h lines s' (Editor.recallLine max lines p) := by
  obtain ⟨hp, hat⟩ := hindex
  have hmax := hr.max_eq
  have hpos := hr.pos
  have hfits := hr.fits
  have hmem := List.getElem_mem hp
  have hclean := (hh.clean _ hmem).1
  have hentry := hh.entries p hp
  rw [← hat] at hentry
  obtain ⟨b, hcopy, hb⟩ := @clStrncpy_holds s.buffer _ _ BufferSize.toNat max hentry hclean (Nat.pos_iff_ne_zero.mp hpos)
    (show min max lines[p].length < BufferSize.toNat by omega)
  have htake : 0 ∉ lines[p].take max := fun hzero => hclean (List.mem_of_mem_take hzero)
  have hshort : (lines[p].take max).length ≤ max := List.length_take_le ..
  have hlen := clStrlenS_of_holds hb htake (n := maxBufferSize BufferSize) (by omega)
  have hrecall : Editor.recallLine max lines p = ⟨lines[p].take max, (lines[p].take max).length, some p⟩ := by
    unfold Editor.recallLine
    rw [List.getD_eq_getElem _ _ hp]
  refine ⟨⟨b, (lines[p].take max).length, index⟩, ?_, ?_⟩
  · unfold recallEntry
    rw [hmax, Nat.add_sub_cancel, hcopy]
    simp only [bind, Except.bind, pure, Except.pure]
    rw [hmax] at hlen
    rw [hlen]
  · rw [hrecall]
    exact ⟨hb, htake, hshort, rfl, le_rfl, hp, hat⟩

theorem pressUp_holds (hr : RoomFor BufferSize max) (hh : HistoryHolds h lines) (hs : LineHolds max h lines s e) :
    ∃ s', pressUp BufferSize h s = .ok (.typing s') ∧ LineHolds max h lines s' (Editor.up max lines e) := by
  have hsize := hh.size
  have hrec := hs.recalled
  unfold pressUp Editor.up
  by_cases hnil : lines = []
  · have hzero : h.size = 0 := BitVec.eq_of_toNat_eq (by rw [hsize, hnil]; rfl)
    rw [if_pos hnil, if_pos hzero]
    exact ⟨s, rfl, hs⟩
  · have hlen := List.length_pos_iff.mpr hnil
    have hne : h.size ≠ 0 := by
      intro hzero
      rw [hzero] at hsize
      change 0 = _ at hsize
      omega
    rw [if_neg hnil, if_neg hne]
    cases hrecalled : e.recalled with
    | none =>
      rw [hrecalled] at hrec
      have hmax : s.cmdHistoryIndex = maxDword := hrec
      rw [if_pos hmax]
      exact recallEntry_holds hr hh s ⟨by omega, lastEntry_toNat hh hnil⟩
    | some p =>
      rw [hrecalled] at hrec
      obtain ⟨hp, hat⟩ := hrec
      have hfirst := hh.first
      have hmost := hh.atMost
      have hnot : s.cmdHistoryIndex ≠ maxDword := by
        intro heq
        rw [heq] at hat
        change 2 ^ 32 - 1 = _ at hat
        omega
      rw [if_neg hnot]
      refine recallEntry_holds hr hh s ⟨by lia, ?_⟩
      by_cases hfirstEntry : s.cmdHistoryIndex = h.firstIndex
      · rw [if_neg (not_not_intro hfirstEntry), hat]
        rw [hfirstEntry] at hat
        have hp0 : p = 0 := by lia
        rw [hp0]
      · have hne' : s.cmdHistoryIndex.toNat ≠ h.firstIndex.toNat := fun heq => hfirstEntry (BitVec.eq_of_toNat_eq heq)
        rw [if_pos hfirstEntry, BitVec.toNat_umod, BitVec.toNat_sub, hat]
        change (2 ^ 32 - 1 + (h.firstIndex.toNat + p) % 16) % 2 ^ 32 % 16 = _
        lia

theorem pressDown_holds (hr : RoomFor BufferSize max) (hh : HistoryHolds h lines) (hs : LineHolds max h lines s e) :
    ∃ s', pressDown BufferSize h s = .ok (.typing s') ∧ LineHolds max h lines s' (Editor.down max lines e) := by
  have hsize := hh.size
  have hrec := hs.recalled
  unfold pressDown Editor.down
  cases hrecalled : e.recalled with
  | none =>
    rw [hrecalled] at hrec
    have hmax : s.cmdHistoryIndex = maxDword := hrec
    refine ⟨s, ?_, hs⟩
    rw [if_pos hmax, ite_self]
  | some p =>
    rw [hrecalled] at hrec
    obtain ⟨hp, hat⟩ := hrec
    have hfirst := hh.first
    have hmost := hh.atMost
    have hnil : lines ≠ [] := List.ne_nil_of_length_pos (by lia)
    have hlast := lastEntry_toNat hh hnil
    have hne : h.size ≠ 0 := by
      intro hzero
      rw [hzero] at hsize
      change 0 = _ at hsize
      lia
    have hnot : s.cmdHistoryIndex ≠ maxDword := by
      intro heq
      rw [heq] at hat
      change 2 ^ 32 - 1 = _ at hat
      lia
    rw [if_neg hne, if_neg hnot]
    refine recallEntry_holds hr hh s ⟨by lia, ?_⟩
    by_cases hlastEntry : s.cmdHistoryIndex = lastEntry h
    · rw [if_neg (not_not_intro hlastEntry), hat]
      rw [hlastEntry, hlast] at hat
      have hp' : min (p + 1) (lines.length - 1) = p := by lia
      rw [hp']
    · have hne' : s.cmdHistoryIndex.toNat ≠ (lastEntry h).toNat := fun heq => hlastEntry (BitVec.eq_of_toNat_eq heq)
      rw [if_pos hlastEntry, BitVec.toNat_umod, BitVec.toNat_add, hat]
      change ((h.firstIndex.toNat + p) % 16 + 1) % 2 ^ 32 % 16 = _
      rw [hat, hlast] at hne'
      have hp' : min (p + 1) (lines.length - 1) = p + 1 := by
        by_contra hne''
        exact hne' (by congr 1; lia)
      rw [hp']
      lia

theorem pressBackspace_holds (hr : RoomFor BufferSize max) (hs : LineHolds max h lines s e) :
    ∃ s', pressBackspace BufferSize s = .ok (.typing s') ∧ LineHolds max h lines s' e.backspace := by
  have hcursor := hs.cursor
  have hinside := hs.inside
  have hshort := hs.short
  have hmax := hr.max_eq
  have hfits := hr.fits
  unfold pressBackspace Editor.backspace
  by_cases hzero : e.cursor = 0
  · rw [if_neg (by omega), if_pos hzero]
    exact ⟨s, rfl, hs⟩
  · obtain ⟨b, hshift, hb⟩ := @erase_holds s.buffer e.text BufferSize.toNat e.cursor (maxBufferSize BufferSize) hs.text
      hs.clean (by omega) (by omega) hzero hinside
    rw [if_pos (by omega), if_neg hzero, hcursor, hshift]
    refine ⟨_, rfl, hb, ?_, ?_, rfl, ?_, hs.recalled⟩
    · rw [List.mem_append, not_or]
      exact ⟨fun h => hs.clean (List.mem_of_mem_take h), fun h => hs.clean (List.mem_of_mem_drop h)⟩
    · rw [List.length_append, List.length_take, List.length_drop]
      lia
    · simp only [List.length_append, List.length_take, List.length_drop]
      lia

/-- A key other than those that edit the line, in a line with room for its character. -/
theorem pressOther_holds (hr : RoomFor BufferSize max) (hs : LineHolds max h lines s e) {c : BYTE}
    (hroom : c ≠ 0 → e.text.length < max) : ∃ s', LineHolds max h lines s' (Editor.insert max e c) ∧
      pressOther BufferSize h s c =
        .ok (if (Editor.insert max e c).cursor = max then .done s'.buffer s'.i h else .typing s') := by
  have hcursor := hs.cursor
  have hinside := hs.inside
  have hshort := hs.short
  have hmax := hr.max_eq
  have hfits := hr.fits
  unfold pressOther Editor.insert
  by_cases hc : c = 0
  · rw [if_neg (not_not_intro hc), if_neg fun h => h.1 hc]
    refine ⟨s, hs, congrArg Except.ok ?_⟩
    by_cases hfull : e.cursor = max
    · rw [if_pos hfull, if_pos (by omega)]
    · rw [if_neg hfull, if_neg (by lia)]
  · have hlt := hroom hc
    rw [if_pos hc, if_pos ⟨hc, hlt⟩, hs.length_eq (show max ≤ maxBufferSize BufferSize - 1 by omega), hcursor]
    obtain ⟨b, hinsert, hb⟩ := @insert_holds s.buffer e.text BufferSize.toNat e.cursor c hs.text hinside (by omega)
    cases hshift : shiftRightLoop BufferSize.toNat e.cursor (e.text.length + 1 - e.cursor) s.buffer with
    | error err =>
      rw [hshift] at hinsert
      cases hinsert
    | ok shifted =>
      rw [hshift] at hinsert
      have hset : setChar BufferSize.toNat shifted e.cursor c = .ok b := hinsert
      refine ⟨⟨b, e.cursor + 1, s.cmdHistoryIndex⟩, ⟨hb, ?_, ?_, rfl, ?_, hs.recalled⟩, ?_⟩
      · rw [List.mem_append, List.mem_cons, not_or, not_or]
        exact ⟨fun h => hs.clean (List.mem_of_mem_take h), Ne.symm hc, fun h => hs.clean (List.mem_of_mem_drop h)⟩
      · rw [List.length_append, List.length_take, List.length_cons, List.length_drop]
        lia
      · simp only [List.length_append, List.length_take, List.length_cons, List.length_drop]
        omega
      · simp only [hshift, bind, Except.bind, hset, pure, Except.pure]
        by_cases hfull : e.cursor + 1 = max
        · rw [if_pos hfull, if_pos (by omega)]
        · rw [if_neg hfull, if_neg (by lia)]

theorem pressRight_holds (hr : RoomFor BufferSize max) (hs : LineHolds max h lines s e)
    (hright : ¬ (e.cursor + 1 = max ∧ e.text.length = max)) : ∃ s', pressRight BufferSize s = .typing s' ∧
      LineHolds max h lines s' { e with cursor := min (e.cursor + 1) e.text.length } := by
  have hcursor := hs.cursor
  have hinside := hs.inside
  have hshort := hs.short
  have hmax := hr.max_eq
  unfold pressRight
  by_cases hend : e.cursor = e.text.length
  · have hzero : s.buffer s.i = 0 := by
      rw [hcursor, hend]
      exact holds_end hs.text
    rw [if_neg fun h => h.2 hzero, Nat.min_eq_right (by omega)]
    exact ⟨s, rfl, hs.text, hs.clean, hshort, hcursor.trans hend, le_rfl, hs.recalled⟩
  · have hne : s.buffer s.i ≠ 0 := by
      rw [hcursor]
      exact holds_ne_zero hs.text hs.clean (by omega)
    rw [if_pos ⟨by lia, hne⟩, Nat.min_eq_left (by omega), hcursor]
    exact ⟨_, rfl, hs.text, hs.clean, hshort, rfl, by dsimp only; omega, hs.recalled⟩

theorem trimBuffer_holds {Buffer : QWORD} {size : ℕ} {b : ℕ → BYTE} {t : List BYTE} (hBuffer : Buffer ≠ 0)
    (hwrap : Buffer.toNat + size ≤ 2 ^ 64) (hb : HoldsString b t) (hzero : 0 ∉ t) (hlen : t.length < 2 ^ 32)
    (hin : t.length < size) (hne : trimmed t ≠ [])
    (hreads : leadingSpaces t = 0 ∨ leadingSpaces t + (leadingSpaces t + (trimmed t).length) ≤ size) :
    ∃ b', trimBuffer Buffer size b = .ok b' ∧ HoldsString b' (trimmed t) := by
  obtain ⟨lead, core, trail, haround⟩ : ∃ lead core trail, Around t lead core trail := by
    refine Strings.around_of_exists ?_
    by_contra hnone
    refine hne (Strings.trimmed_of_spaces fun c hc => ?_)
    by_contra hnot
    exact hnone ⟨c, hc, Bool.eq_false_iff.mpr hnot⟩
  have hrun := Strings.clStrtrim_around hBuffer hwrap hb hzero hlen hin haround
  have hholds := Strings.holds_shifted hb haround
  have hlength := haround.length_eq
  rw [haround.trimmed_eq, haround.leadingSpaces_eq] at hreads
  rw [if_pos hreads] at hrun
  rw [haround.trimmed_eq]
  refine ⟨fun k => (MappedMemory.window Buffer size (Strings.shifted b lead.length (lead.length + core.length))
    (Buffer + BitVec.ofNat 64 k)).getD 0, ?_, fun k hk => ?_⟩
  · unfold trimBuffer
    rw [hrun]
    rfl
  · dsimp only
    rw [MappedMemory.window_at (by lia) (by omega)]
    exact hholds k hk

theorem zero_notMem_trimmed {t : List BYTE} (hzero : 0 ∉ t) : 0 ∉ trimmed t := fun hmem => hzero
  ((List.dropWhile_suffix Strings.isspace).subset ((List.rdropWhile_prefix Strings.isspace _).subset hmem))

theorem trimmed_length_le (t : List BYTE) : (trimmed t).length ≤ t.length :=
  (List.rdropWhile_prefix Strings.isspace _).length_le.trans (List.dropWhile_suffix Strings.isspace).length_le

/-- The line may be entered: it is empty, or the cursor is at the length of the trimmed line, which is not empty, and
the trim reads no byte behind the buffer. -/
def Editor.MayEnter (BufferSize : DWORD) (e : Editor) : Prop :=
  e.text = [] ∨ trimmed e.text ≠ [] ∧ e.cursor = (trimmed e.text).length ∧
    (leadingSpaces e.text = 0 ∨
      leadingSpaces e.text + (leadingSpaces e.text + (trimmed e.text).length) ≤ BufferSize.toNat)

instance (BufferSize : DWORD) (e : Editor) : Decidable (e.MayEnter BufferSize) := inferInstanceAs (Decidable (_ ∨ _))

/-- The history behind an entered line. -/
def enterLine (lines : List (List BYTE)) (t : List BYTE) : List (List BYTE) :=
  if t = [] then lines else appendLine lines t

theorem pressReturn_holds {Buffer : QWORD} (hBuffer : Buffer ≠ 0) (hwrap : Buffer.toNat + BufferSize.toNat ≤ 2 ^ 64)
    (hr : RoomFor BufferSize max) (hh : HistoryHolds h lines) (hs : LineHolds max h lines s e)
    (henter : e.MayEnter BufferSize) : ∃ b h', pressReturn Buffer BufferSize h s =
        .ok (.done b (trimmed e.text).length h') ∧ HoldsString b (trimmed e.text) ∧
      HistoryHolds h' (enterLine lines (trimmed e.text)) := by
  have hmax := hr.max_eq
  have hpos := hr.pos
  have hsmall := hr.small
  have hfits := hr.fits
  have hshort := hs.short
  have hle := trimmed_length_le e.text
  unfold pressReturn
  rw [hs.length_eq (show max ≤ maxBufferSize BufferSize by omega)]
  rcases henter with hempty | ⟨hne, hcursor, hreads⟩
  · have hinside := hs.inside
    have hi : s.i = 0 := by
      rw [hs.cursor]
      rw [hempty] at hinside
      exact Nat.le_zero.mp hinside
    have htrimmed : trimmed e.text = [] := by
      rw [hempty]
      rfl
    rw [if_pos (by rw [hempty]; rfl), htrimmed, hi]
    refine ⟨s.buffer, h, rfl, hempty ▸ hs.text, ?_⟩
    unfold enterLine
    rwa [if_pos rfl]
  · have htext : e.text.length ≠ 0 := by
      have := List.length_pos_iff.mpr hne
      omega
    have hzero := zero_notMem_trimmed hs.clean
    obtain ⟨b, htrim, hb⟩ := trimBuffer_holds hBuffer hwrap hs.text hs.clean (by omega) (by omega) hne hreads
    obtain ⟨entry, hcopy, hentry⟩ := @clStrncpy_holds ((nextHistory h).entry (lastEntry (nextHistory h)).toNat) _ _
      historyLine max hb hzero (Nat.pos_iff_ne_zero.mp hpos) (show min max (trimmed e.text).length < historyLine by
        unfold historyLine
        lia)
    rw [List.take_of_length_le (by omega)] at hentry
    refine ⟨b, { nextHistory h with
      entry := Function.update (nextHistory h).entry (lastEntry (nextHistory h)).toNat entry }, ?_, hb, ?_⟩
    · rw [if_neg htext, htrim, hmax, Nat.add_sub_cancel, hs.cursor, hcursor]
      simp only [bind, Except.bind]
      rw [hcopy]
      rfl
    · unfold enterLine
      rw [if_neg hne]
      exact hh.append hentry hzero (by omega)

/-- What the code and the reference do alike with a key: Return where the line may be entered, a character where the
line has room for it, and Right unless it leads behind the last character of a full line. -/
structure Editor.CleanKey (BufferSize : DWORD) (max : ℕ) (e : Editor) (k : KeyPress) : Prop where
  enter : k.key = keyReturn → e.MayEnter BufferSize
  right : k.key = keyRight → ¬ (e.cursor + 1 = max ∧ e.text.length = max)
  room : k.IsOther → k.ascii ≠ 0 → e.text.length < max

instance (BufferSize : DWORD) (max : ℕ) (e : Editor) (k : KeyPress) : Decidable (e.CleanKey BufferSize max k) :=
  decidable_of_iff ((k.key = keyReturn → e.MayEnter BufferSize) ∧
      (k.key = keyRight → ¬ (e.cursor + 1 = max ∧ e.text.length = max)) ∧
      (k.IsOther → k.ascii ≠ 0 → e.text.length < max))
    ⟨fun ⟨enter, right, room⟩ => ⟨enter, right, room⟩, fun h => ⟨h.enter, h.right, h.room⟩⟩

/-- A key that neither ends the line nor inserts a character. -/
theorem getsKey_typing {Buffer : QWORD} {k : KeyPress} (hr : RoomFor BufferSize max) (hh : HistoryHolds h lines)
    (hs : LineHolds max h lines s e) (hclean : e.CleanKey BufferSize max k) (hret : k.key ≠ keyReturn)
    (hother : ¬ k.IsOther) : ∃ s', getsKey Buffer BufferSize h s k = .ok (.typing s') ∧
      LineHolds max h lines s' (e.press max lines k) := by
  have hmem := not_not.mp hother
  simp only [List.mem_cons, List.not_mem_nil, or_false] at hmem
  unfold getsKey Editor.press
  rcases hmem with hk | hk | hk | hk | hk | hk | hk | hk | hk | hk
  · exact absurd hk hret
  · rw [hk]
    exact pressBackspace_holds hr hs
  · rw [hk]
    exact ⟨s, rfl, hs⟩
  · rw [hk]
    exact pressUp_holds hr hh hs
  · rw [hk]
    exact pressDown_holds hr hh hs
  · rw [hk]
    exact ⟨_, rfl, hs.text, hs.clean, hs.short, congrArg (· - 1) hs.cursor, (Nat.sub_le ..).trans hs.inside,
      hs.recalled⟩
  · obtain ⟨s', hrun, hs'⟩ := pressRight_holds hr hs (hclean.right hk)
    rw [hk]
    exact ⟨s', congrArg Except.ok hrun, hs'⟩
  · rw [hk]
    exact ⟨_, rfl, hs.text, hs.clean, hs.short, rfl, Nat.zero_le _, hs.recalled⟩
  · have hmax := hr.max_eq
    rw [hk]
    exact ⟨_, rfl, hs.text, hs.clean, hs.short, hs.length_eq (by omega), le_rfl, hs.recalled⟩
  · rw [hk]
    exact ⟨s, rfl, hs⟩

/-- One round of the loop. -/
theorem getsKey_holds {Buffer : QWORD} {k : KeyPress} (hr : RoomFor BufferSize max) (hh : HistoryHolds h lines)
    (hs : LineHolds max h lines s e) (hclean : e.CleanKey BufferSize max k) (hret : k.key ≠ keyReturn) :
    ∃ s', LineHolds max h lines s' (e.press max lines k) ∧ getsKey Buffer BufferSize h s k =
      .ok (if k.IsOther ∧ (e.press max lines k).cursor = max then .done s'.buffer s'.i h else .typing s') := by
  by_cases hother : k.IsOther
  · have hnot := hother
    unfold KeyPress.IsOther at hnot
    simp only [List.mem_cons, List.not_mem_nil, or_false, not_or] at hnot
    obtain ⟨s', hs', hrun⟩ := pressOther_holds hr hs (hclean.room hother)
    have hpress : e.press max lines k = Editor.insert max e k.ascii := by
      unfold Editor.press
      simp only [hnot, if_false]
    refine ⟨s', hpress ▸ hs', ?_⟩
    unfold getsKey
    simp only [hnot, if_false]
    rw [hrun, hpress]
    simp only [hother, true_and]
  · obtain ⟨s', hrun, hs'⟩ := getsKey_typing hr hh hs hclean hret hother
    exact ⟨s', hs', by rw [hrun, if_neg fun h => hother h.1]⟩

/-- Every key is clean where the reference meets it. -/
def CleanKeys (BufferSize : DWORD) (max : ℕ) (lines : List (List BYTE)) : List KeyPress → Editor → Prop
  | [], _ => True
  | k :: keys, e => e.CleanKey BufferSize max k ∧
      (k.key ≠ keyReturn → ¬ (k.IsOther ∧ (e.press max lines k).cursor = max) →
        CleanKeys BufferSize max lines keys (e.press max lines k))

instance CleanKeys.decidable (BufferSize : DWORD) (max : ℕ) (lines : List (List BYTE)) :
    (keys : List KeyPress) → (e : Editor) → Decidable (CleanKeys BufferSize max lines keys e)
  | [], _ => isTrue trivial
  | k :: keys, e =>
    have := CleanKeys.decidable BufferSize max lines keys (e.press max lines k)
    inferInstanceAs (Decidable (_ ∧ (_ → _ → _)))

/-- The lines entered so far; an empty one does not count. -/
def enterLast (entered : List (List BYTE)) (t : List BYTE) : List (List BYTE) :=
  if t = [] then entered else entered ++ [t]

theorem enterLine_lastLines (entered : List (List BYTE)) (t : List BYTE) :
    enterLine (lastLines entered) t = lastLines (enterLast entered t) := by
  unfold enterLine enterLast
  by_cases hempty : t = []
  · rw [if_pos hempty, if_pos hempty]
  · rw [if_neg hempty, if_neg hempty, lastLines_append]
    rfl

/-- The text of the buffer and the size are those of the line, and the history holds the line if it was entered. -/
def Agrees (max : ℕ) (h : CmdHistory) (entered : List (List BYTE)) : Gets → Line → Prop
  | .typing s, .typing e => LineHolds max h (lastLines entered) s e
  | .done b usedSize h', .entered t => HoldsString b t ∧ t.length ≤ max ∧ usedSize = t.length ∧
      HistoryHolds h' (lastLines (enterLast entered t))
  | .done b usedSize h', .full t => HoldsString b t ∧ t.length ≤ max ∧ usedSize = t.length ∧ h' = h
  | _, _ => False

/-- Induction over the keys; the editor stands for the buffer in every round. -/
theorem getsLoop_agrees {Buffer : QWORD} {entered : List (List BYTE)} (hBuffer : Buffer ≠ 0)
    (hwrap : Buffer.toNat + BufferSize.toNat ≤ 2 ^ 64) (hr : RoomFor BufferSize max)
    (hh : HistoryHolds h (lastLines entered)) (keys : List KeyPress) :
    ∀ (s : LineState) (e : Editor), LineHolds max h (lastLines entered) s e →
      CleanKeys BufferSize max (lastLines entered) keys e → ∃ g, getsLoop Buffer BufferSize h keys s = .ok g ∧
        Agrees max h entered g (Editor.run max (lastLines entered) keys e) := by
  induction keys with
  | nil => exact fun s e hs _ => ⟨_, rfl, hs⟩
  | cons k keys ih =>
    intro s e hs hclean
    obtain ⟨hkey, hrest⟩ := hclean
    unfold getsLoop Editor.run
    by_cases hret : k.key = keyReturn
    · obtain ⟨b, h', hrun, hb, hh'⟩ := pressReturn_holds hBuffer hwrap hr hh hs (hkey.enter hret)
      have hround : getsKey Buffer BufferSize h s k = pressReturn Buffer BufferSize h s := if_pos hret
      rw [enterLine_lastLines] at hh'
      rw [if_pos hret, hround, hrun]
      exact ⟨_, rfl, hb, (trimmed_length_le _).trans hs.short, rfl, hh'⟩
    · obtain ⟨s', hs', hrun⟩ := @getsKey_holds BufferSize max h _ s e Buffer k hr hh hs hkey hret
      rw [if_neg hret, hrun]
      dsimp only
      by_cases hfull : k.IsOther ∧ (e.press max (lastLines entered) k).cursor = max
      · have hshort := hs'.short
        have hinside := hs'.inside
        rw [if_pos hfull, if_pos hfull]
        exact ⟨_, rfl, hs'.text, hshort, by rw [hs'.cursor]; omega, rfl⟩
      · rw [if_neg hfull, if_neg hfull]
        exact ih s' _ hs' (hrest hret hfull)

variable {Buffer : QWORD} {entered : List (List BYTE)} {keys : List KeyPress}

/-- Where every key is clean the buffer holds the line of the reference, and nothing outside of it is written. -/
theorem getsS_agrees (hBuffer : Buffer ≠ 0) (hwrap : Buffer.toNat + BufferSize.toNat ≤ 2 ^ 64) (hsize : 1 < BufferSize)
    (hh : HistoryHolds h (lastLines entered)) (hclean : CleanKeys BufferSize (maxBufferSize BufferSize - 1)
      (lastLines entered) keys ⟨[], 0, none⟩) (buffer : ℕ → BYTE) :
    ∃ g, getsS Buffer BufferSize h buffer keys = .ok g ∧ Agrees (maxBufferSize BufferSize - 1) h entered g
      (Editor.run (maxBufferSize BufferSize - 1) (lastLines entered) keys ⟨[], 0, none⟩) := by
  have hr := roomFor hsize
  have hfits := hr.fits
  have hstart : LineHolds (maxBufferSize BufferSize - 1) h (lastLines entered)
      ⟨fun k => if k < BufferSize.toNat then 0 else buffer k, 0, maxDword⟩ ⟨[], 0, none⟩ := by
    refine ⟨fun k hk => ?_, List.not_mem_nil, Nat.zero_le _, rfl, le_rfl, rfl⟩
    rw [Nat.le_zero.mp hk]
    exact if_pos (by omega)
  unfold getsS
  rw [assertThat_of hBuffer.symm, assertThat_of hsize]
  exact getsLoop_agrees hBuffer hwrap hr hh keys _ _ hstart hclean

/-- `m_CmdHistory` at the start. -/
def cmdHistory : CmdHistory := ⟨fun _ _ => 0, 0, 0⟩

theorem cmdHistory_holds : HistoryHolds cmdHistory (lastLines []) :=
  ⟨by decide, rfl, Nat.zero_le _, fun _ hk => absurd hk (Nat.not_lt_zero _), fun _ hline => absurd hline List.not_mem_nil⟩

def letter (c : Char) (h : key c ≠ keyUnknown) : KeyPress := ⟨key c, BitVec.ofNat 8 c.toNat, h⟩

def leftKey : KeyPress := ⟨keyLeft, 0, by decide⟩

def returnKey : KeyPress := ⟨keyReturn, 0, by decide⟩

/-- The keys of a word, the second of which is typed before the first. -/
def wordKeys : List KeyPress := [letter 's' (by decide), leftKey, letter 'l' (by decide), ⟨keyEnd, 0, by decide⟩, returnKey]

theorem getsS_agrees_word : ∃ g, getsS 0x1000 80 cmdHistory (fun _ => 0) wordKeys = .ok g ∧
    Agrees (maxBufferSize 80 - 1) cmdHistory [] g
      (Editor.run (maxBufferSize 80 - 1) (lastLines []) wordKeys ⟨[], 0, none⟩) :=
  getsS_agrees (by decide) (by decide) (by decide) cmdHistory_holds (by decide) _

/-- In a full line whose cursor is not at its end another character is written behind the buffer. -/
theorem not_getsS_agrees : ∃ keys : List KeyPress, keys.getLast? = some returnKey ∧
    ¬ ∃ g, getsS 0x1000 3 cmdHistory (fun _ => 0) keys = .ok g ∧ Agrees (maxBufferSize 3 - 1) cmdHistory [] g
      (Editor.run (maxBufferSize 3 - 1) (lastLines []) keys ⟨[], 0, none⟩) := by
  refine ⟨[letter 'a' (by decide), leftKey, letter 'b' (by decide), letter 'c' (by decide), returnKey], rfl, ?_⟩
  rintro ⟨g, hrun, -⟩
  have hfault : getsS 0x1000 3 cmdHistory (fun _ => 0) [letter 'a' (by decide), leftKey, letter 'b' (by decide),
    letter 'c' (by decide), returnKey] = .error .danglingAccess := rfl
  rw [hfault] at hrun
  cases hrun

end Keys

end HAL9000.Console
