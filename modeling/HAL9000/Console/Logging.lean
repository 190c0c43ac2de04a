import HAL9000.CommonLib.PrintingCut
import HAL9000.Console.Display

/-! The log of `log.c`. A message is formatted into the log buffer; the serial port takes the buffer for a text
and the screen takes it for a format. -/
namespace HAL9000.Console

open Strings (Argument Chars Exit Format Holds PrintFault Vars Verbatim ZString charAt clVsnprintf holds_append
  printBind_eq_ok printLoop put renderItems store)

def logBufMaxSize : DWORD := 512
def screenBufferSize : DWORD := 260
def redColor : BYTE := 0x4
def yellowColor : BYTE := 0xE

inductive LogLevel
  | trace
  | info
  | warning
  | error
  deriving DecidableEq, Repr

namespace LogLevel

def value : LogLevel → DWORD
  | .trace => 0
  | .info => 1
  | .warning => 2
  | .error => 3

/-- Nothing, `[WARNING]` and `[ERROR]`. -/
def modifier : LogLevel → List BYTE
  | .trace | .info => []
  | .warning => [0x5B, 0x57, 0x41, 0x52, 0x4E, 0x49, 0x4E, 0x47, 0x5D]
  | .error => [0x5B, 0x45, 0x52, 0x52, 0x4F, 0x52, 0x5D]

end LogLevel

/-- `m_logData` without its lock. -/
structure LogData where
  enabled : Bool
  loggingLevel : LogLevel
  loggingComponents : DWORD

/-- A text on the screen. -/
structure Shown where
  color : BYTE
  text : ZString

/-- What a message leaves. -/
structure Logged where
  screen : Shown
  serial : ZString

section Code

/-- The string that starts at an index of a buffer. A string without an end leads out of it. -/
def bufferText (content : Chars) : ℕ → ℕ → Except PrintFault ZString
  | 0, _ => .error .overrun
  | n + 1, i =>
    if h : content i = 0 then .ok ⟨[], List.not_mem_nil⟩
    else do
      let rest ← bufferText content n (i + 1)
      return ⟨content i :: rest.chars, by
        rw [List.mem_cons, not_or]
        exact ⟨Ne.symm h, rest.zero_notMem⟩⟩

def clStrcpy (size : ℕ) (output : Chars) (i : ℕ) : List BYTE → Except PrintFault Chars
  | [] => store size output i 0
  | c :: src => do clStrcpy size (← store size output i c) (i + 1) src

section Print

variable (fuel : ℕ) (printBuffer : Chars)

def vprintColor (Format : ZString) (Args : List Argument) (Color : BYTE) : Except PrintFault Shown := do
  let (_, v) ← clVsnprintf fuel (some printBuffer) screenBufferSize (some Format) Args
  let text ← bufferText ((v.map Vars.output).getD printBuffer) screenBufferSize.toNat 0
  return ⟨Color, text⟩

def perror (Format : ZString) (argPtr : List Argument) : Except PrintFault Shown :=
  vprintColor fuel printBuffer Format argPtr redColor

def pwarn (Format : ZString) (argPtr : List Argument) : Except PrintFault Shown :=
  vprintColor fuel printBuffer Format argPtr yellowColor

def printf (Format : ZString) (argPtr : List Argument) : Except PrintFault Shown :=
  vprintColor fuel printBuffer Format argPtr whiteColor

def LogLevel.printFunction : LogLevel → ZString → List Argument → Except PrintFault Shown
  | .trace | .info => printf fuel printBuffer
  | .warning => pwarn fuel printBuffer
  | .error => perror fuel printBuffer

end Print

/-- The print function gets the buffer and no arguments. -/
def logBufferInternal (Buffer : Chars) (PrintFunction : ZString → List Argument → Except PrintFault Shown) :
    Except PrintFault Logged := do
  let text ← bufferText Buffer logBufMaxSize.toNat 0
  return ⟨← PrintFunction text [], text⟩

/-- The level and the component of a message are logged. -/
def IsLogged (m : LogData) (LogLevel : LogLevel) (LogComponent : DWORD) : Prop :=
  m.enabled = true ∧ ¬ LogLevel.value < m.loggingLevel.value ∧
    ¬ (LogLevel = .trace ∧ m.loggingComponents &&& LogComponent = 0)

instance (m : LogData) (LogLevel : LogLevel) (LogComponent : DWORD) :
    Decidable (IsLogged m LogLevel LogComponent) :=
  inferInstanceAs (Decidable (_ ∧ _))

/-- The log buffer is on the stack. The formatter gets what is behind the modifier. -/
def logEx (fuel : ℕ) (m : LogData) (logBuffer printBuffer : Chars) (LogLevel : LogLevel) (LogComponent : DWORD)
    (FormatBuffer : ZString) (va : List Argument) : Except PrintFault (Option Logged) :=
  if IsLogged m LogLevel LogComponent then do
    let modifierLength := LogLevel.modifier.length
    let logBuffer ← clStrcpy logBufMaxSize.toNat logBuffer 0 LogLevel.modifier
    let (_, v) ← clVsnprintf fuel (some fun i => logBuffer (modifierLength + i))
      (logBufMaxSize - BitVec.ofNat 32 modifierLength) (some FormatBuffer) va
    let output := (v.map Vars.output).getD fun i => logBuffer (modifierLength + i)
    return some (← logBufferInternal
      (fun i => if i < modifierLength then logBuffer i else output (i - modifierLength))
      (LogLevel.printFunction fuel printBuffer))
  else .ok none

end Code

/-- Whatever the buffers held, the serial port and the screen get the modifier and the text, each cut to its
buffer, and the second formatting takes no character for the beginning of a conversion. -/
def LogsVerbatim (m : LogData) (LogLevel : LogLevel) (LogComponent : DWORD) (FormatBuffer : Format)
    (va : List Argument) (text : List BYTE) : Prop :=
  ∀ logBuffer printBuffer, ∃ fuel logged,
    logEx fuel m logBuffer printBuffer LogLevel LogComponent FormatBuffer.string va = .ok (some logged) ∧
      logged.serial.chars = (LogLevel.modifier ++ text).take (logBufMaxSize.toNat - 1) ∧
      logged.screen.text.chars = (LogLevel.modifier ++ text).take (screenBufferSize.toNat - 1) ∧
      Verbatim screenBufferSize logged.serial.chars printBuffer []

section Buffers

variable {content : Chars} {size i n : ℕ} {text : ZString}

theorem holds_cons {c : BYTE} {rest : List BYTE} :
    Holds content i (c :: rest) ↔ (c ≠ 0 ∧ content i = c) ∧ Holds content (i + 1) rest := by
  rw [show c :: rest = [c] ++ rest from rfl, holds_append, List.length_singleton]
  refine and_congr_left fun _ => ⟨fun h => ?_, fun h => ?_⟩
  · exact ⟨fun hzero => h.1 (List.mem_singleton.mpr hzero.symm), h.2 0 (by decide)⟩
  · refine ⟨fun hmem => h.1 (List.mem_singleton.mp hmem).symm, fun j hj => ?_⟩
    obtain rfl := Nat.lt_one_iff.mp hj
    exact h.2

/-- The string is the one that the buffer holds. -/
theorem bufferText_eq_ok : bufferText content n i = .ok text ↔ text.chars.length < n ∧ Holds content i text.chars := by
  obtain ⟨chars, hchars⟩ := text
  induction n generalizing i chars with
  | zero => exact ⟨fun h => (nomatch h), fun h => absurd h.1 (Nat.not_lt_zero _)⟩
  | succ n ih =>
    unfold bufferText
    by_cases hend : content i = 0
    · rw [dif_pos hend]
      constructor
      · intro h
        cases h
        exact ⟨Nat.succ_pos n, Strings.holds_nil.mpr hend⟩
      · rintro ⟨-, hholds⟩
        cases chars with
        | nil => rfl
        | cons c chars =>
          obtain ⟨⟨hne, hc⟩, -⟩ := holds_cons.mp hholds
          exact absurd (hc.symm.trans hend) hne
    · rw [dif_neg hend]
      constructor
      · intro h
        obtain ⟨rest, hrest, h⟩ := printBind_eq_ok.mp h
        cases h
        obtain ⟨hlt, hholds⟩ := (ih rest.chars rest.zero_notMem).mp hrest
        exact ⟨Nat.succ_lt_succ hlt, holds_cons.mpr ⟨⟨hend, rfl⟩, hholds⟩⟩
      · rintro ⟨hlt, hholds⟩
        cases chars with
        | nil => exact absurd (Strings.holds_nil.mp hholds) hend
        | cons c chars =>
          obtain ⟨⟨-, hc⟩, hrest⟩ := holds_cons.mp hholds
          have hzero : 0 ∉ chars := fun h => hchars (List.mem_cons_of_mem _ h)
          refine printBind_eq_ok.mpr ⟨⟨chars, hzero⟩, (ih chars hzero).mpr ⟨Nat.lt_of_succ_lt_succ hlt, hrest⟩, ?_⟩
          subst hc
          rfl

theorem clStrcpy_eq {output : Chars} {src : List BYTE} (h : i + src.length < size) :
    clStrcpy size output i src = .ok (put output i (src ++ [0])) := by
  induction src generalizing i output with
  | nil => exact Strings.store_of_lt h
  | cons c src ih =>
    rw [List.length_cons] at h
    have hput := @Strings.put_put output i [c] (src ++ [0])
    rw [List.length_singleton] at hput
    rw [clStrcpy, Strings.store_of_lt (by omega)]
    change clStrcpy size (put output i [c]) (i + 1) src = _
    rw [ih (by omega), hput]
    rfl

end Buffers

section Message

variable {m : LogData} {LogLevel : LogLevel} {LogComponent : DWORD} {FormatBuffer : Format} {va : List Argument}
  {text : List BYTE} {fuel : ℕ}

theorem modifier_clean (LogLevel : Console.LogLevel) : LogLevel.modifier.length ≤ 9 ∧ 0 ∉ LogLevel.modifier := by
  cases LogLevel <;> decide

/-- What is left of the log buffer. -/
theorem room_toNat (LogLevel : Console.LogLevel) :
    (logBufMaxSize - BitVec.ofNat 32 LogLevel.modifier.length).toNat = 512 - LogLevel.modifier.length := by
  cases LogLevel <;> rfl

theorem printFunction_eq (fuel : ℕ) (printBuffer : Chars) (LogLevel : Console.LogLevel) :
    ∃ color, LogLevel.printFunction fuel printBuffer = fun format args =>
      vprintColor fuel printBuffer format args color := by
  cases LogLevel <;> exact ⟨_, rfl⟩

/-- The log buffer when the message is formatted: the formatter wrote behind the modifier. -/
def formatted (modifier : List BYTE) (logBuffer : Chars) (v : Vars) (i : ℕ) : BYTE :=
  if i < modifier.length then put logBuffer 0 (modifier ++ [0]) i else v.output (i - modifier.length)

/-- What is formatted in a buffer, and starts with the terminator of the modifier. -/
def behind (modifier : List BYTE) (logBuffer : Chars) (i : ℕ) : BYTE :=
  put logBuffer 0 (modifier ++ [0]) (modifier.length + i)

theorem holds_formatted {modifier : List BYTE} (hzero : 0 ∉ modifier) {logBuffer : Chars} {v : Vars} {t : List BYTE} :
    Holds (formatted modifier logBuffer v) 0 (modifier ++ t) ↔ Holds v.output 0 t := by
  have hbehind : ∀ i, formatted modifier logBuffer v (modifier.length + i) = v.output i := fun i => by
    unfold formatted
    rw [if_neg (by omega), Nat.add_sub_cancel_left]
  rw [holds_append, Nat.zero_add]
  constructor
  · rintro ⟨-, hclean, h⟩
    refine ⟨hclean, fun i hi => ?_⟩
    rw [Nat.zero_add, ← hbehind]
    exact h i hi
  · rintro ⟨hclean, h⟩
    refine ⟨⟨hzero, fun i hi => ?_⟩, hclean, fun i hi => ?_⟩
    · unfold formatted
      rw [Nat.zero_add, if_pos hi, Strings.put_start hi.le]
    · rw [hbehind, ← h i hi, Nat.zero_add]

theorem room_ne_zero (LogLevel : Console.LogLevel) : logBufMaxSize - BitVec.ofNat 32 LogLevel.modifier.length ≠ 0 := by
  cases LogLevel <;> decide

/-- A message that is logged: it is formatted, and the buffer is printed and sent. -/
theorem logEx_eq_ok (hlogged : IsLogged m LogLevel LogComponent) {logBuffer printBuffer : Chars} {logged : Logged} :
    logEx fuel m logBuffer printBuffer LogLevel LogComponent FormatBuffer.string va = .ok (some logged) ↔
      ∃ e v, clVsnprintf fuel (some (behind LogLevel.modifier logBuffer))
          (logBufMaxSize - BitVec.ofNat 32 LogLevel.modifier.length) (some FormatBuffer.string) va = .ok (e, some v) ∧
        bufferText (formatted LogLevel.modifier logBuffer v) logBufMaxSize.toNat 0 = .ok logged.serial ∧
        LogLevel.printFunction fuel printBuffer logged.serial [] = .ok logged.screen := by
  have hlen : 0 + LogLevel.modifier.length < logBufMaxSize.toNat := by
    have := (modifier_clean LogLevel).1
    change _ < 512
    omega
  have hcopy := @clStrcpy_eq _ _ logBuffer _ hlen
  rw [logEx, if_pos hlogged]
  constructor
  · intro h
    obtain ⟨buffer, hcopy', h⟩ := printBind_eq_ok.mp h
    cases hcopy.symm.trans hcopy'
    obtain ⟨⟨e, v⟩, hformat, h⟩ := printBind_eq_ok.mp h
    have hsome : ∃ w, v = some w := by
      rw [Format.clVsnprintf_of_some (room_ne_zero LogLevel)] at hformat
      obtain ⟨r, -, hr⟩ := printBind_eq_ok.mp hformat
      cases hr
      exact ⟨_, rfl⟩
    obtain ⟨v, rfl⟩ := hsome
    obtain ⟨l, hinternal, h⟩ := printBind_eq_ok.mp h
    cases h
    obtain ⟨serial, hserial, h⟩ := printBind_eq_ok.mp hinternal
    obtain ⟨screen, hscreen, h⟩ := printBind_eq_ok.mp h
    cases h
    exact ⟨e, v, hformat, hserial, hscreen⟩
  · rintro ⟨e, v, hformat, hserial, hscreen⟩
    refine printBind_eq_ok.mpr ⟨_, hcopy, printBind_eq_ok.mpr ⟨(e, some v), hformat, ?_⟩⟩
    refine printBind_eq_ok.mpr ⟨logged, ?_, rfl⟩
    exact printBind_eq_ok.mpr ⟨_, hserial, printBind_eq_ok.mpr ⟨_, hscreen, rfl⟩⟩

/-- A text that is printed. -/
theorem vprintColor_eq_ok {printBuffer : Chars} {format : ZString} {color : BYTE} {shown : Shown} :
    vprintColor fuel printBuffer format [] color = .ok shown ↔
      ∃ e v, clVsnprintf fuel (some printBuffer) screenBufferSize (some format) [] = .ok (e, some v) ∧
        bufferText v.output screenBufferSize.toNat 0 = .ok shown.text ∧ shown.color = color := by
  constructor
  · intro h
    obtain ⟨⟨e, v⟩, hformat, h⟩ := printBind_eq_ok.mp h
    have hsome : ∃ w, v = some w := by
      rw [Format.clVsnprintf_of_some (by decide)] at hformat
      obtain ⟨r, -, hr⟩ := printBind_eq_ok.mp hformat
      cases hr
      exact ⟨_, rfl⟩
    obtain ⟨v, rfl⟩ := hsome
    obtain ⟨text, htext, h⟩ := printBind_eq_ok.mp h
    cases h
    exact ⟨e, v, hformat, htext, rfl⟩
  · rintro ⟨e, v, hformat, htext, rfl⟩
    exact printBind_eq_ok.mpr ⟨(e, some v), hformat, printBind_eq_ok.mpr ⟨_, htext, rfl⟩⟩

theorem behind_zero (modifier : List BYTE) (logBuffer : Chars) : behind modifier logBuffer 0 = 0 := by
  unfold behind put
  rw [if_pos (by simp), Nat.sub_zero, Nat.add_zero]
  exact Strings.charAt_append_add 0

/-- The buffer behind a modifier may hold anything after the terminator. -/
theorem behind_of_zero (modifier : List BYTE) {output : Chars} (hzero : output 0 = 0) :
    behind modifier (fun i => output (i - modifier.length)) = output := by
  funext i
  by_cases hi : i = 0
  · rw [hi, behind_zero, hzero]
  · unfold behind put
    rw [if_neg (by simp; omega)]
    dsimp only
    rw [Nat.add_sub_cancel_left]

/-- What is sent: the modifier and the text as far as the formatter has room. -/
theorem serial_chars (LogLevel : Console.LogLevel) (text : List BYTE) :
    (LogLevel.modifier ++ text).take (logBufMaxSize.toNat - 1) = LogLevel.modifier ++
      text.take ((logBufMaxSize - BitVec.ofNat 32 LogLevel.modifier.length).toNat - 1) := by
  have hlen := (modifier_clean LogLevel).1
  have hmax : logBufMaxSize.toNat = 512 := rfl
  rw [room_toNat, hmax, List.take_append, List.take_of_length_le (by omega)]
  congr 2
  lia

theorem LogsVerbatim.leaves (h : LogsVerbatim m LogLevel LogComponent FormatBuffer va text)
    (hlogged : IsLogged m LogLevel LogComponent) :
    FormatBuffer.Leaves (logBufMaxSize - BitVec.ofNat 32 LogLevel.modifier.length) va text := by
  intro output hzero
  obtain ⟨fuel, logged, hlog, hserial, -, -⟩ := h (fun i => output (i - LogLevel.modifier.length)) output
  obtain ⟨e, v, hformat, hbuffer, -⟩ := (logEx_eq_ok hlogged).mp hlog
  rw [behind_of_zero _ hzero] at hformat
  refine ⟨fuel, e, v, hformat, ?_⟩
  have hholds := (bufferText_eq_ok.mp hbuffer).2
  rw [hserial, serial_chars, holds_formatted (modifier_clean LogLevel).2] at hholds
  exact hholds

theorem LogsVerbatim.clean (h : LogsVerbatim m LogLevel LogComponent FormatBuffer va text) :
    0x25 ∉ (LogLevel.modifier ++ text).take screenBufferSize.toNat := by
  obtain ⟨fuel, logged, -, hserial, -, hverbatim⟩ := h (fun _ => 0) fun _ => 0
  have hclean := (Strings.verbatim_iff logged.serial.zero_notMem (by decide)).mp hverbatim
  rw [hserial, List.take_take] at hclean
  exact hclean

/-- The second formatting copies what the first one left. -/
theorem logsVerbatim_of (hlogged : IsLogged m LogLevel LogComponent)
    (hleaves : FormatBuffer.Leaves (logBufMaxSize - BitVec.ofNat 32 LogLevel.modifier.length) va text)
    (hclean : 0x25 ∉ (LogLevel.modifier ++ text).take screenBufferSize.toNat) :
    LogsVerbatim m LogLevel LogComponent FormatBuffer va text := by
  intro logBuffer printBuffer
  obtain ⟨fuel₁, e, v, hformat, hholds⟩ := hleaves (behind LogLevel.modifier logBuffer) (behind_zero _ _)
  have hzero := (modifier_clean LogLevel).2
  have hserial := (@holds_formatted _ hzero logBuffer _ _).mpr hholds
  rw [← serial_chars] at hserial
  have hmax : logBufMaxSize.toNat = 512 := rfl
  have hscreenSize : screenBufferSize.toNat = 260 := rfl
  have hbuffer : bufferText (formatted LogLevel.modifier logBuffer v) logBufMaxSize.toNat 0 =
      .ok ⟨(LogLevel.modifier ++ text).take (logBufMaxSize.toNat - 1), hserial.1⟩ := by
    refine bufferText_eq_ok.mpr ⟨?_, hserial⟩
    rw [List.length_take]
    lia
  have hplain : 0x25 ∉ ((LogLevel.modifier ++ text).take (logBufMaxSize.toNat - 1)).take screenBufferSize.toNat := by
    rw [List.take_take]
    exact hclean
  obtain ⟨fuel₂, e', w, hprint, hscreen⟩ := @Strings.clVsnprintf_verbatim screenBufferSize printBuffer []
    ⟨(LogLevel.modifier ++ text).take (logBufMaxSize.toNat - 1), hserial.1⟩ (by decide) hplain
  have htake : ((LogLevel.modifier ++ text).take (logBufMaxSize.toNat - 1)).take (screenBufferSize.toNat - 1) =
      (LogLevel.modifier ++ text).take (screenBufferSize.toNat - 1) := by
    rw [List.take_take, hmax, hscreenSize]
    rfl
  dsimp only at hscreen
  rw [htake] at hscreen
  obtain ⟨color, hfunction⟩ := printFunction_eq (fuel₁ + fuel₂) printBuffer LogLevel
  have hshown : LogLevel.printFunction (fuel₁ + fuel₂) printBuffer
      ⟨(LogLevel.modifier ++ text).take (logBufMaxSize.toNat - 1), hserial.1⟩ [] =
      .ok ⟨color, ⟨(LogLevel.modifier ++ text).take (screenBufferSize.toNat - 1), hscreen.1⟩⟩ := by
    rw [hfunction]
    refine vprintColor_eq_ok.mpr ⟨e', w, ?_, bufferText_eq_ok.mpr ⟨?_, hscreen⟩, rfl⟩
    · rw [Nat.add_comm]
      exact Format.clVsnprintf_mono (by decide) hprint fuel₁
    · rw [List.length_take]
      omega
  refine ⟨fuel₁ + fuel₂, ⟨_, _⟩, (logEx_eq_ok hlogged).mpr ⟨e, v, ?_, hbuffer, hshown⟩, rfl, rfl, ?_⟩
  · exact Format.clVsnprintf_mono (room_ne_zero LogLevel) hformat fuel₂
  · exact (Strings.verbatim_iff hserial.1 (by decide)).mpr hplain

end Message

/-- A message is shown verbatim exactly if the formatter shows it in what is left of the log buffer, and no `%` is among
the characters that the printing looks at. -/
theorem logsVerbatim_iff (m : LogData) (LogLevel : LogLevel) (LogComponent : DWORD) (FormatBuffer : Format)
    (va : List Argument) (text : List BYTE) (hlogged : IsLogged m LogLevel LogComponent)
    (htext : renderItems FormatBuffer.items va = some text) :
    LogsVerbatim m LogLevel LogComponent FormatBuffer va text ↔
      Strings.Shows (512 - LogLevel.modifier.length) 0 true FormatBuffer.items va ∧
        0x25 ∉ (LogLevel.modifier ++ text).take screenBufferSize.toNat := by
  have hsmall : (logBufMaxSize - BitVec.ofNat 32 LogLevel.modifier.length).toNat + 21 ≤ 2 ^ 32 := by
    rw [room_toNat]
    omega
  have hleaves := Format.leaves_iff (room_ne_zero LogLevel) hsmall htext
  rw [room_toNat] at hleaves
  constructor
  · intro h
    exact ⟨hleaves.mp (h.leaves hlogged), h.clean⟩
  · rintro ⟨hshows, hclean⟩
    exact logsVerbatim_of hlogged (hleaves.mpr hshows) hclean

/-- The format `%s`. -/
def stringFormat : Format := ⟨[.field [] (by decide) (.whole .text)], by decide⟩

def allLogged : LogData := ⟨true, .trace, 0⟩

theorem logsVerbatim_iff_string :
    LogsVerbatim allLogged .info 0 stringFormat [.string (some ⟨[0x68, 0x69], by decide⟩)] [0x68, 0x69] ↔
      Strings.Shows (512 - LogLevel.info.modifier.length) 0 true stringFormat.items
          [.string (some ⟨[0x68, 0x69], by decide⟩)] ∧
        0x25 ∉ (LogLevel.info.modifier ++ [0x68, 0x69]).take screenBufferSize.toNat :=
  logsVerbatim_iff allLogged .info 0 stringFormat _ _ (by decide) (by decide)

/-- The argument `100%` is taken for the beginning of a conversion. -/
theorem not_logsVerbatim : ¬ LogsVerbatim allLogged .info 0 stringFormat
    [.string (some ⟨[0x31, 0x30, 0x30, 0x25], by decide⟩)] [0x31, 0x30, 0x30, 0x25] :=
  fun h => h.clean (by decide)

end HAL9000.Console
