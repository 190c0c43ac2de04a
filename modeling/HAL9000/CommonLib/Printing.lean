import HAL9000.CommonLib.Numbers
import Mathlib.Data.Nat.Digits.Lemmas

/-! Formatted printing, `cl_vsnprintf` of `cl_string.c`. A write outside the buffer that it belongs to
ends the computation. -/
namespace HAL9000.Strings

inductive PrintFault
  | overrun
  | argumentMismatch
  | fault (f : Fault)
  deriving DecidableEq, Repr

def liftFault {α : Type} : Except Fault α → Except PrintFault α
  | .ok a => .ok a
  | .error f => .error (.fault f)

/-- What the argument list holds; a string may be `NULL`. -/
inductive Argument
  | dword (value : DWORD)
  | qword (value : QWORD)
  | char (c : BYTE)
  | string (str : Option ZString)

/-- The contents of memory from the start of a buffer on. -/
abbrev Chars := ℕ → BYTE

section Writing

variable (size : ℕ)

/-- A write to a buffer of `size` characters. -/
def store (output : Chars) (offset : ℕ) (c : BYTE) : Except PrintFault Chars :=
  if offset < size then .ok (Function.update output offset c) else .error .overrun

def clMemset (output : Chars) (address : ℕ) (value : BYTE) : ℕ → Except PrintFault Chars
  | 0 => .ok output
  | n + 1 => do store size (← clMemset output address value n) (address + n) value

def strncpyLoop (dst : ℕ) (src : List BYTE) : ℕ → ℕ → Chars → Except PrintFault Chars
  | 0, i, output => store size output (dst + i) 0
  | n + 1, i, output =>
    if charAt src i = 0 then store size output (dst + i) 0
    else do strncpyLoop dst src n (i + 1) (← store size output (dst + i) (charAt src i))

def clStrncpy (output : Chars) (dst : ℕ) (src : List BYTE) (length : DWORD) :
    Except PrintFault Chars := do
  liftFault (assertThat (0 ≠ length))
  strncpyLoop size dst src length.toNat 0 output

end Writing

def vsnprintfBufferSize : ℕ := 65

/-- A string with its terminator is written to the temporary buffer. -/
def toTemp (str : List BYTE) : Except PrintFault (List BYTE) :=
  if str.length < vsnprintfBufferSize then .ok str else .error .overrun

inductive Specifier
  | number (signedValue : Bool) (base : DWORD) (is64BitValue : Bool)
  | char
  | string (clipped : Bool)
  deriving DecidableEq, Repr

/-- The cases of the `switch`. -/
def specifiers : List (BYTE × Specifier) :=
  [(0x62, .number false 2 false), (0x42, .number false 2 true), (0x75, .number false 10 false),
    (0x55, .number false 10 true), (0x64, .number true 10 false), (0x44, .number true 10 true),
    (0x78, .number false 16 false), (0x58, .number false 16 true), (0x63, .char),
    (0x73, .string false), (0x53, .string true)]

def specifierOf (next : BYTE) : Option Specifier := specifiers.lookup next

/-- The next argument as a number. -/
def numberArgument : Bool → Argument → Except PrintFault QWORD
  | false, .dword value => .ok (value.setWidth 64)
  | true, .qword value => .ok value
  | _, _ => .error .argumentMismatch

/-- One character of a string that ends where it is `'\0'`. -/
def charString (c : BYTE) : List BYTE := if c = 0 then [] else [c]

/-- The string that `temp_str` points to, or `NULL`. -/
def convert : Specifier → Argument → Except PrintFault (Option (List BYTE))
  | .number signedValue base is64BitValue, argument => do
    let value ← numberArgument is64BitValue argument
    let str ← liftFault (itoa value signedValue base is64BitValue)
    return some (← toTemp str)
  | .char, .char c => do return some (← toTemp (charString c))
  | .string _, .string str => .ok (str.map ZString.chars)
  | _, _ => .error .argumentMismatch

/-- The index wraps in a string of `2 ^ 32` characters or more, and the loop does not end. -/
def clStrlen (str : Option (List BYTE)) : Except PrintFault DWORD :=
  match str with
  | none => .ok maxDword
  | some str => if str.length < 2 ^ 32 then .ok (BitVec.ofNat 32 str.length) else .error (.fault .outOfFuel)

/-- The loop over the digits of a width. There are `2 ^ 32` indices: if all of them hold digits the
loop does not end. -/
def digitsLoop (inputBuffer : List BYTE) :
    ℕ → Bool → BYTE → DWORD → DWORD → Except PrintFault (BYTE × DWORD × DWORD)
  | 0, _, _, _, _ => .error (.fault .outOfFuel)
  | fuel + 1, firstSpecificator, fillChar, digits, index =>
    let next := charAt inputBuffer (index + 1).toNat
    if (0x30 : BYTE).sle next ∧ next.sle 0x39 then
      digitsLoop inputBuffer fuel false
        (if firstSpecificator ∧ next = 0x30 then 0x30 else fillChar)
        (digits * 10 + next.setWidth 32 - 0x30) (index + 1)
    else .ok (fillChar, digits, index)

/-- A conversion with its argument, before anything is written. -/
structure Directive where
  fillChar : BYTE
  digits : DWORD
  index : DWORD
  str : List BYTE
  clipped : Bool
  argptr : List Argument

namespace Directive

variable (d : Directive)

def tempLen : DWORD := BitVec.ofNat 32 d.str.length

def charsToCopy : DWORD :=
  if d.clipped then (if d.digits < d.tempLen then d.digits else d.tempLen) else d.tempLen

def fillSpaces : DWORD := if d.tempLen < d.digits then d.digits - d.tempLen else 0

end Directive

/-- Reads a conversion; there is none if its character is not known. -/
def readDirective (inputBuffer : List BYTE) (index : DWORD) (argptr : List Argument) :
    Except PrintFault (Option Directive) := do
  let (fillChar, digits, index) ← digitsLoop inputBuffer (2 ^ 32) true 0x20 0 index
  match specifierOf (charAt inputBuffer (index + 1).toNat) with
  | none => return none
  | some specifier =>
    match argptr with
    | [] => .error .argumentMismatch
    | argument :: argptr =>
      let str ← convert specifier argument
      let tempLen ← clStrlen str
      liftFault (assertThat (tempLen ≠ maxDword))
      return some {
        fillChar := fillChar
        digits := digits
        index := index
        str := str.getD []
        clipped := specifier = .string true
        argptr := argptr }

/-- The variables of `cl_vsnprintf` between two rounds of its loop. -/
structure Vars where
  index : DWORD
  paramIndex : DWORD
  outBufferOffset : DWORD
  argptr : List Argument
  output : Chars

/-- The ways out. -/
inductive Exit
  | done (conversions : DWORD)
  | bufferTooSmall
  | parseFailed
  | invalidParameter1
  | invalidParameter2
  | invalidParameter3
  deriving DecidableEq, Repr

/-- The value that is returned. -/
def Exit.status : Exit → DWORD
  | .done conversions => conversions
  | .bufferTooSmall => 0xE0100002
  | .parseFailed => 0xE8000021
  | .invalidParameter1 => statusInvalidParameter1
  | .invalidParameter2 => statusInvalidParameter2
  | .invalidParameter3 => statusInvalidParameter3

inductive Round
  | next (v : Vars)
  | exit (e : Exit) (v : Vars)

section Loop

variable (buffSize : DWORD)

def copyChars (output : Chars) (outBufferOffset : DWORD) (d : Directive) : Except PrintFault Chars :=
  if d.charsToCopy ≠ 0 then
    clStrncpy buffSize.toNat output outBufferOffset.toNat d.str d.charsToCopy
  else .ok output

/-- The padding and the text of a conversion, if there is room for them. -/
def printDirective (v : Vars) (d : Directive) : Except PrintFault Round := do
  if buffSize ≤ v.outBufferOffset + d.tempLen then return .exit .bufferTooSmall v
  if buffSize ≤ v.outBufferOffset + d.tempLen + d.fillSpaces then return .exit .bufferTooSmall v
  let output ← clMemset buffSize.toNat v.output v.outBufferOffset.toNat d.fillChar d.fillSpaces.toNat
  let outBufferOffset := v.outBufferOffset + d.fillSpaces
  let output ← copyChars buffSize output outBufferOffset d
  return .next {
    index := d.index + 2
    paramIndex := v.paramIndex + 1
    outBufferOffset := outBufferOffset + d.charsToCopy
    argptr := d.argptr
    output := output }

def printLiteral (v : Vars) (c : BYTE) : Except PrintFault Round := do
  if buffSize ≤ v.outBufferOffset + 1 then
    let output ← store buffSize.toNat v.output v.outBufferOffset.toNat 0
    return .exit .bufferTooSmall { v with output := output }
  let output ← store buffSize.toNat v.output v.outBufferOffset.toNat c
  return .next { v with
    index := v.index + 1
    outBufferOffset := v.outBufferOffset + 1
    output := output }

variable (inputBuffer : List BYTE)

/-- One round of the loop, or what follows it. -/
def printRound (v : Vars) : Except PrintFault Round := do
  let c := charAt inputBuffer v.index.toNat
  if c = 0 then
    let output ← store buffSize.toNat v.output v.outBufferOffset.toNat 0
    return .exit (.done (v.paramIndex - 1)) { v with output := output }
  else if c = 0x25 then
    match ← readDirective inputBuffer v.index v.argptr with
    | none => return .exit .parseFailed v
    | some d => printDirective buffSize v d
  else printLiteral buffSize v c

def printLoop : ℕ → Vars → Except PrintFault (Exit × Vars)
  | 0, _ => .error (.fault .outOfFuel)
  | fuel + 1, v => do
    match ← printRound buffSize inputBuffer v with
    | .next v => printLoop fuel v
    | .exit e v => return (e, v)

end Loop

def Vars.start (output : Chars) (argptr : List Argument) : Vars := ⟨0, 1, 0, argptr, output⟩

/-- The exit, with the variables then if the loop was entered. -/
def clVsnprintf (fuel : ℕ) (outputBuffer : Option Chars) (buffSize : DWORD)
    (inputBuffer : Option ZString) (argptr : List Argument) :
    Except PrintFault (Exit × Option Vars) :=
  match outputBuffer with
  | none => .ok (.invalidParameter1, none)
  | some output =>
    if buffSize = 0 then .ok (.invalidParameter2, none)
    else match inputBuffer with
      | none => .ok (.invalidParameter3, none)
      | some inputBuffer => do
        let (e, v) ← printLoop buffSize inputBuffer.chars fuel (.start output argptr)
        return (e, some v)

example : (clVsnprintf 9 (some fun _ => 0xFF) 10 (some ⟨[0x25, 0x30, 0x33, 0x75, 0x21], by decide⟩)
    [.dword 7]).toOption.map (fun r => (r.1, r.2.map fun v => (List.range 6).map v.output)) =
    some (.done 1, some [0x30, 0x30, 0x37, 0x21, 0, 0xFF]) := by decide +kernel

/-! ### What is written -/

/-- A text put at an offset. -/
def put (output : Chars) (offset : ℕ) (text : List BYTE) : Chars := fun i =>
  if offset ≤ i ∧ i < offset + text.length then charAt text (i - offset) else output i

section Put

variable {output : Chars} {offset : ℕ}

theorem put_of_lt {text : List BYTE} {i : ℕ} (h : i < offset) : put output offset text i = output i :=
  if_neg fun hi => absurd hi.1 (Nat.not_le.mpr h)

theorem put_of_ge {text : List BYTE} {i : ℕ} (h : offset + text.length ≤ i) :
    put output offset text i = output i :=
  if_neg fun hi => absurd hi.2 (Nat.not_lt.mpr h)

theorem put_add {text : List BYTE} {i : ℕ} (h : i < text.length) :
    put output offset text (offset + i) = charAt text i := by
  unfold put
  rw [if_pos ⟨Nat.le_add_right _ _, Nat.add_lt_add_left h _⟩, Nat.add_sub_cancel_left]

theorem put_nil : put output offset [] = output := by
  funext i
  exact if_neg fun hi => absurd (lt_of_le_of_lt hi.1 hi.2) (by simp)

theorem update_eq_put (c : BYTE) : Function.update output offset c = put output offset [c] := by
  funext i
  unfold put
  rw [Function.update_apply]
  by_cases hi : i = offset
  · rw [if_pos hi, if_pos (by simp [hi]), hi, Nat.sub_self]
    rfl
  · rw [if_neg hi, if_neg]
    intro h
    rw [List.length_singleton] at h
    omega

theorem put_put (a b : List BYTE) :
    put (put output offset a) (offset + a.length) b = put output offset (a ++ b) := by
  funext i
  unfold put
  rw [List.length_append]
  by_cases hb : offset + a.length ≤ i ∧ i < offset + a.length + b.length
  · rw [if_pos hb, if_pos (by omega)]
    unfold charAt
    rw [List.getD_append_right _ _ _ _ (by omega), Nat.sub_sub]
  · rw [if_neg hb]
    by_cases ha : offset ≤ i ∧ i < offset + a.length
    · rw [if_pos ha, if_pos (by omega)]
      unfold charAt
      rw [List.getD_append _ _ _ _ (by omega)]
    · rw [if_neg ha, if_neg (by omega)]

end Put

section Writing

variable {size : ℕ}

theorem store_of_lt {output : Chars} {offset : ℕ} {c : BYTE} (h : offset < size) :
    store size output offset c = .ok (put output offset [c]) := by
  rw [store, if_pos h, update_eq_put]

theorem store_of_ge {output : Chars} {offset : ℕ} {c : BYTE} (h : size ≤ offset) :
    store size output offset c = .error .overrun :=
  if_neg (Nat.not_lt.mpr h)

theorem clMemset_of_le {output : Chars} {address n : ℕ} {value : BYTE} (h : address + n ≤ size) :
    clMemset size output address value n = .ok (put output address (List.replicate n value)) := by
  induction n with
  | zero => exact congrArg Except.ok put_nil.symm
  | succ n ih =>
    have hput := @put_put output address (List.replicate n value) [value]
    rw [List.length_replicate] at hput
    rw [clMemset, ih (by omega)]
    change store size _ _ _ = _
    rw [store_of_lt (by omega), hput, List.replicate_succ']

theorem clMemset_of_gt {output : Chars} {address n : ℕ} {value : BYTE} (hn : 0 < n)
    (h : size < address + n) : clMemset size output address value n = .error .overrun := by
  induction n with
  | zero => exact absurd hn (Nat.lt_irrefl 0)
  | succ n ih =>
    rw [clMemset]
    by_cases hlast : size < address + n ∧ 0 < n
    · rw [ih hlast.2 hlast.1]
      rfl
    · have hprev : clMemset size output address value n =
          .ok (put output address (List.replicate n value)) := by
        rcases Nat.eq_zero_or_pos n with rfl | hpos
        · exact congrArg Except.ok put_nil.symm
        · exact clMemset_of_le (by omega)
      rw [hprev]
      exact store_of_ge (by omega)

theorem strncpyLoop_eq {dst n i : ℕ} {src : List BYTE} {output : Chars} (hsrc : 0 ∉ src) :
    strncpyLoop size dst src n i output =
      if dst + i + min n (src.length - i) < size
      then .ok (put output (dst + i) ((src.drop i).take n ++ [0])) else .error .overrun := by
  induction n generalizing i output with
  | zero =>
    rw [strncpyLoop, Nat.zero_min, Nat.add_zero, List.take_zero, List.nil_append, store, update_eq_put]
  | succ n ih =>
    rw [strncpyLoop]
    by_cases hi : i < src.length
    · have hne := (charAt_ne_zero_iff hsrc).mpr hi
      have hchar : charAt src i = src[i] := List.getD_eq_getElem _ _ hi
      rw [if_neg hne]
      by_cases hin : dst + i < size
      · have hput := @put_put output (dst + i) [charAt src i] ((src.drop (i + 1)).take n ++ [0])
        have hmin : min (n + 1) (src.length - i) = min n (src.length - (i + 1)) + 1 := by lia
        rw [store_of_lt hin]
        change strncpyLoop size dst src n (i + 1) _ = _
        rw [ih, List.drop_eq_getElem_cons hi, List.take_succ_cons, ← hchar, hmin]
        rw [List.length_singleton] at hput
        rw [← Nat.add_assoc dst i 1, hput]
        simp only [Nat.add_assoc, Nat.add_comm 1]
        rfl
      · rw [store_of_ge (Nat.not_lt.mp hin), if_neg (by lia)]
        rfl
    · have hzero : charAt src i = 0 := charAt_of_ge (Nat.not_lt.mp hi)
      rw [if_pos hzero, List.drop_eq_nil_of_le (Nat.not_lt.mp hi), List.take_nil, List.nil_append,
        show src.length - i = 0 by omega, Nat.min_zero, Nat.add_zero, store, update_eq_put]

theorem clStrncpy_eq {dst : ℕ} {src : List BYTE} {output : Chars} {length : DWORD} (hsrc : 0 ∉ src)
    (hlength : length ≠ 0) : clStrncpy size output dst src length =
      if dst + min length.toNat src.length < size
      then .ok (put output dst (src.take length.toNat ++ [0])) else .error .overrun := by
  unfold clStrncpy
  rw [assertThat_of hlength.symm]
  exact strncpyLoop_eq hsrc

end Writing

namespace Directive

variable (d : Directive)

/-- What is printed for a conversion. -/
def text : List BYTE :=
  List.replicate d.fillSpaces.toNat d.fillChar ++ d.str.take d.charsToCopy.toNat

/-- The string is one that `strlen` and the assertion let pass. -/
structure Sound : Prop where
  short : d.str.length < 2 ^ 32 - 1
  zero_notMem : 0 ∉ d.str

variable {d} (h : d.Sound)

include h in
theorem tempLen_toNat : d.tempLen.toNat = d.str.length := by
  have := h.short
  rw [tempLen, BitVec.toNat_ofNat]
  lia

include h in
theorem charsToCopy_toNat : d.charsToCopy.toNat =
    if d.clipped then min d.digits.toNat d.str.length else d.str.length := by
  have hlen := tempLen_toNat h
  unfold charsToCopy
  split_ifs with hclipped hlt
  · rw [BitVec.lt_def, hlen] at hlt
    omega
  · rw [BitVec.lt_def, hlen] at hlt
    omega
  · exact hlen

include h in
theorem fillSpaces_toNat : d.fillSpaces.toNat = d.digits.toNat - d.str.length := by
  have hlen := tempLen_toNat h
  unfold fillSpaces
  split_ifs with hlt
  · rw [BitVec.toNat_sub_of_le (BitVec.le_of_lt hlt), hlen]
  · rw [BitVec.lt_def, hlen] at hlt
    have hzero : (0 : DWORD).toNat = 0 := rfl
    omega

include h in
theorem charsToCopy_le : d.charsToCopy.toNat ≤ d.str.length := by
  rw [charsToCopy_toNat h]
  split_ifs <;> omega

include h in
theorem length_text : d.text.length = d.fillSpaces.toNat + d.charsToCopy.toNat := by
  have hle := charsToCopy_le h
  unfold text
  rw [List.length_append, List.length_replicate, List.length_take]
  omega

/-- The two tests, in 32 bits. -/
def Accepted (buffSize offset : DWORD) (d : Directive) : Prop :=
  ¬ buffSize ≤ offset + d.tempLen ∧ ¬ buffSize ≤ offset + d.tempLen + d.fillSpaces

instance (buffSize offset : DWORD) : Decidable (Accepted buffSize offset d) :=
  inferInstanceAs (Decidable (_ ∧ _))

include h in
/-- Where the sums do not wrap, the tests ask for room for the longer one of width and string. -/
theorem accepted_iff {buffSize offset : DWORD}
    (hwrap : offset.toNat + max d.digits.toNat d.str.length < 2 ^ 32) :
    Accepted buffSize offset d ↔
      offset.toNat + max d.digits.toNat d.str.length < buffSize.toNat := by
  have hlen := tempLen_toNat h
  have hfill := fillSpaces_toNat h
  have hfirst : (offset + d.tempLen).toNat = offset.toNat + d.str.length := by
    rw [BitVec.toNat_add, hlen]
    lia
  have hsecond : (offset + d.tempLen + d.fillSpaces).toNat =
      offset.toNat + max d.digits.toNat d.str.length := by
    rw [BitVec.toNat_add, hfirst, hfill]
    lia
  unfold Accepted
  rw [BitVec.not_le, BitVec.not_le, BitVec.lt_def, BitVec.lt_def, hfirst, hsecond]
  lia

end Directive

section Rounds

variable {buffSize : DWORD} {v : Vars} {d : Directive}

theorem printDirective_rejected (h : ¬ d.Accepted buffSize v.outBufferOffset) :
    printDirective buffSize v d = .ok (.exit .bufferTooSmall v) := by
  unfold printDirective
  by_cases hfirst : buffSize ≤ v.outBufferOffset + d.tempLen
  · rw [if_pos hfirst]
    rfl
  · rw [if_neg hfirst, if_pos (by_contra fun hsecond => h ⟨hfirst, hsecond⟩)]
    rfl

/-- The variables after a conversion is printed; copying ends with a terminator. -/
def afterDirective (v : Vars) (d : Directive) : Vars where
  index := d.index + 2
  paramIndex := v.paramIndex + 1
  outBufferOffset := v.outBufferOffset + d.fillSpaces + d.charsToCopy
  argptr := d.argptr
  output := put v.output v.outBufferOffset.toNat
    (d.text ++ if d.charsToCopy ≠ 0 then [0] else [])

theorem printDirective_accepted (hd : d.Sound) (h : d.Accepted buffSize v.outBufferOffset)
    (hfits : v.outBufferOffset.toNat + d.text.length < buffSize.toNat) :
    printDirective buffSize v d = .ok (.next (afterDirective v d)) := by
  rw [Directive.length_text hd] at hfits
  have hlt := buffSize.isLt
  have hle := Directive.charsToCopy_le hd
  have hoffset : (v.outBufferOffset + d.fillSpaces).toNat =
      v.outBufferOffset.toNat + d.fillSpaces.toNat := by
    rw [BitVec.toNat_add]
    lia
  have hput := fun b => @put_put v.output v.outBufferOffset.toNat
    (List.replicate d.fillSpaces.toNat d.fillChar) b
  rw [List.length_replicate] at hput
  unfold printDirective
  rw [if_neg h.1, if_neg h.2, clMemset_of_le (by omega)]
  unfold afterDirective Directive.text
  change copyChars buffSize _ _ d >>= _ = _
  unfold copyChars
  by_cases hcopy : d.charsToCopy = 0
  · have hzero : d.charsToCopy.toNat = 0 := by rw [hcopy]; rfl
    rw [if_neg (not_not.mpr hcopy), if_neg (not_not.mpr hcopy), hzero, List.take_zero, List.append_nil,
      List.append_nil]
    rfl
  · rw [if_pos hcopy, if_pos hcopy, clStrncpy_eq hd.zero_notMem hcopy, hoffset, if_pos (by lia), hput,
      List.append_assoc]
    rfl

/-- A conversion that passes the tests and does not fit overruns the buffer. -/
theorem printDirective_overruns (hd : d.Sound) (h : d.Accepted buffSize v.outBufferOffset)
    (hoff : v.outBufferOffset.toNat < buffSize.toNat)
    (hlong : buffSize.toNat ≤ v.outBufferOffset.toNat + d.text.length) :
    printDirective buffSize v d = .error .overrun := by
  rw [Directive.length_text hd] at hlong
  have hlt := buffSize.isLt
  have hcopied := Directive.charsToCopy_toNat hd
  have hfill := Directive.fillSpaces_toNat hd
  unfold printDirective
  rw [if_neg h.1, if_neg h.2]
  by_cases hmemset : buffSize.toNat < v.outBufferOffset.toNat + d.fillSpaces.toNat
  · rw [clMemset_of_gt (by omega) hmemset]
    rfl
  · have hoffset : (v.outBufferOffset + d.fillSpaces).toNat =
        v.outBufferOffset.toNat + d.fillSpaces.toNat := by
      rw [BitVec.toNat_add]
      lia
    have hcopy : d.charsToCopy ≠ 0 := by
      -- With nothing to copy the padding is the whole width, and the second test does not wrap.
      intro hzero
      have hnat : d.charsToCopy.toNat = 0 := by rw [hzero]; rfl
      have hempty : d.str.length = 0 := by
        split_ifs at hcopied <;> lia
      have haccepted := (@Directive.accepted_iff d hd buffSize v.outBufferOffset (by lia)).mp h
      lia
    rw [clMemset_of_le (by omega)]
    change copyChars buffSize _ _ d >>= _ = _
    unfold copyChars
    have hmin := Directive.charsToCopy_le hd
    rw [if_pos hcopy, clStrncpy_eq hd.zero_notMem hcopy, hoffset, if_neg (by lia)]
    rfl

end Rounds

/-! ### What is read -/

section Reading

theorem liftFault_eq_ok {α : Type} {x : Except Fault α} {a : α} : liftFault x = .ok a ↔ x = .ok a := by
  cases x <;> simp [liftFault]

theorem printBind_eq_ok {α β : Type} {x : Except PrintFault α} {f : α → Except PrintFault β} {b : β} :
    x >>= f = .ok b ↔ ∃ a, x = .ok a ∧ f a = .ok b := by
  cases x <;> simp [bind, Except.bind]

theorem printBind_eq_error {α β : Type} {x : Except PrintFault α} {f : α → Except PrintFault β}
    {e : PrintFault} : x >>= f = .error e ↔ x = .error e ∨ ∃ a, x = .ok a ∧ f a = .error e := by
  cases x <;> simp [bind, Except.bind]

theorem toTemp_eq_ok {str str' : List BYTE} (h : toTemp str = .ok str') : str' = str := by
  unfold toTemp at h
  split_ifs at h
  cases h
  rfl

theorem zero_notMem_numeral {base : DWORD} (hbase : 1 < base.toNat) (hle : base.toNat ≤ 36) (n : ℕ) :
    0 ∉ numeral base.toNat n := by
  obtain ⟨digits, hdigits, -, -, hnumeral⟩ := numeral_eq hbase n
  rw [hnumeral]
  intro h
  obtain ⟨k, hk, hzero⟩ := List.mem_map.mp h
  have hlt := hdigits k hk
  exact (@charValue_digitChar k (by omega)).2.2.2 hzero

theorem length_numeral_le {base : DWORD} (hbase : 1 < base.toNat) {n k : ℕ} (hn : n < base.toNat ^ k)
    (hk : 0 < k) : (numeral base.toNat n).length ≤ k := by
  unfold numeral
  by_cases hzero : n = 0
  · rw [if_pos hzero]
    exact hk
  · rw [if_neg hzero, List.length_reverse, List.length_map]
    exact (Nat.digits_length_le_iff hbase n).mpr hn

theorem specifierOf_mem {next : BYTE} {specifier : Specifier}
    (h : specifierOf next = some specifier) : (next, specifier) ∈ specifiers := by
  obtain ⟨before, after, heq, -⟩ := List.lookup_eq_some_iff.mp h
  rw [heq]
  exact List.mem_append_right _ List.mem_cons_self

/-- The bases of the conversions. -/
theorem specifierOf_number {next : BYTE} {signedValue is64BitValue : Bool} {base : DWORD}
    (h : specifierOf next = some (.number signedValue base is64BitValue)) :
    1 < base.toNat ∧ base.toNat ≤ 36 ∧ (signedValue = true → base = 10) := by
  have hmem := specifierOf_mem h
  simp only [specifiers, List.mem_cons, Prod.mk.injEq, List.not_mem_nil, or_false, Specifier.number.injEq,
    reduceCtorEq, and_false] at hmem
  rcases hmem with ⟨-, rfl, rfl, rfl⟩ | ⟨-, rfl, rfl, rfl⟩ | ⟨-, rfl, rfl, rfl⟩ | ⟨-, rfl, rfl, rfl⟩ |
    ⟨-, rfl, rfl, rfl⟩ | ⟨-, rfl, rfl, rfl⟩ | ⟨-, rfl, rfl, rfl⟩ | ⟨-, rfl, rfl, rfl⟩ <;>
    exact ⟨by decide, by decide, by decide⟩

theorem itoa_numeral {value : QWORD} {signedValue is64BitValue : Bool} {base : DWORD}
    {str : List BYTE} (hbase : 1 < base.toNat)
    (h : itoa value signedValue base is64BitValue = .ok str) :
    str = (if (itoaMagnitude value signedValue is64BitValue).1 then [0x2D] else []) ++
      numeral base.toNat (itoaMagnitude value signedValue is64BitValue).2.toNat := by
  rw [itoa_eq hbase] at h
  cases h
  rfl

/-- A number fits into the temporary buffer: 64 digits, or a sign and 20 digits. -/
theorem toTemp_itoa {next : BYTE} {value : QWORD} {signedValue is64BitValue : Bool} {base : DWORD}
    {str : List BYTE} (hspec : specifierOf next = some (.number signedValue base is64BitValue))
    (h : itoa value signedValue base is64BitValue = .ok str) : toTemp str = .ok str := by
  obtain ⟨hbase, -, hten⟩ := specifierOf_number hspec
  have hstr := itoa_numeral hbase h
  have hlt := (itoaMagnitude value signedValue is64BitValue).2.isLt
  refine if_pos ?_
  rw [hstr, List.length_append]
  cases signedValue with
  | true =>
    rw [hten rfl]
    have h10 : (10 : DWORD).toNat = 10 := rfl
    have hdigits := fun hn => @length_numeral_le 10 (by decide)
      (itoaMagnitude value true is64BitValue).2.toNat 20 hn (by decide)
    have hsign : (if (itoaMagnitude value true is64BitValue).1 = true then [(0x2D : BYTE)]
        else []).length ≤ 1 := by
      split_ifs <;> decide
    exact lt_of_le_of_lt (Nat.add_le_add hsign (hdigits (by rw [h10]; omega))) (by decide)
  | false =>
    have hsign : (itoaMagnitude value false is64BitValue).1 = false := by
      cases is64BitValue <;> rfl
    have hpow : 2 ^ 64 ≤ base.toNat ^ 64 := Nat.pow_le_pow_left hbase 64
    have hdigits := @length_numeral_le base hbase _ 64 (lt_of_lt_of_le hlt hpow) (by decide)
    rw [hsign]
    exact lt_of_le_of_lt (Nat.add_le_add (le_refl 0) hdigits) (by decide)

theorem toTemp_charString (c : BYTE) : toTemp (charString c) = .ok (charString c) := by
  refine if_pos ?_
  unfold charString vsnprintfBufferSize
  split_ifs <;> simp

/-- The temporary buffer is never overrun. -/
theorem convert_ne_overrun {next : BYTE} {specifier : Specifier} {argument : Argument}
    (hspec : specifierOf next = some specifier) : convert specifier argument ≠ .error .overrun := by
  intro h
  cases specifier with
  | number signedValue base is64BitValue =>
    rcases printBind_eq_error.mp h with hvalue | ⟨value, -, h⟩
    · unfold numberArgument at hvalue
      split at hvalue <;> cases hvalue
    · rcases printBind_eq_error.mp h with hitoa | ⟨str, hitoa, h⟩
      · cases hrun : itoa value signedValue base is64BitValue <;> rw [hrun] at hitoa <;> cases hitoa
      · rw [toTemp_itoa hspec (liftFault_eq_ok.mp hitoa)] at h
        cases h
  | char =>
    cases argument with
    | char c =>
      rcases printBind_eq_error.mp h with htemp | ⟨str, -, h⟩
      · rw [toTemp_charString] at htemp
        cases htemp
      · cases h
    | _ => cases h
  | string clipped => cases argument <;> cases h

theorem convert_zero_notMem {next : BYTE} {specifier : Specifier} {argument : Argument}
    {str : List BYTE} (hspec : specifierOf next = some specifier)
    (h : convert specifier argument = .ok (some str)) : 0 ∉ str := by
  cases specifier with
  | number signedValue base is64BitValue =>
    obtain ⟨value, -, h⟩ := printBind_eq_ok.mp h
    obtain ⟨str₁, hitoa, h⟩ := printBind_eq_ok.mp h
    obtain ⟨str₂, htemp, h⟩ := printBind_eq_ok.mp h
    cases h
    obtain ⟨hbase, hle, -⟩ := specifierOf_number hspec
    rw [toTemp_eq_ok htemp, itoa_numeral hbase (liftFault_eq_ok.mp hitoa)]
    intro hmem
    rcases List.mem_append.mp hmem with hsign | hdigit
    · split_ifs at hsign
      · exact absurd hsign (by decide)
      · cases hsign
    · exact zero_notMem_numeral hbase hle _ hdigit
  | char =>
    cases argument with
    | char c =>
      obtain ⟨str₁, htemp, h⟩ := printBind_eq_ok.mp h
      cases h
      rw [toTemp_eq_ok htemp, charString]
      by_cases hc : c = 0
      · rw [if_pos hc]
        exact List.not_mem_nil
      · rw [if_neg hc, List.mem_singleton]
        exact Ne.symm hc
    | _ => cases h
  | string clipped =>
    cases argument with
    | string str' =>
      cases str' with
      | none => cases h
      | some str' =>
        cases h
        exact str'.zero_notMem
    | _ => cases h

theorem clStrlen_eq_ok {str : Option (List BYTE)} {len : DWORD} (h : clStrlen str = .ok len)
    (hne : len ≠ maxDword) : ∃ chars, str = some chars ∧ chars.length < 2 ^ 32 - 1 := by
  cases str with
  | none =>
    cases h
    exact absurd rfl hne
  | some chars =>
    unfold clStrlen at h
    dsimp only at h
    split_ifs at h with hlt
    cases h
    refine ⟨chars, rfl, ?_⟩
    by_contra hge
    refine hne (BitVec.eq_of_toNat_eq ?_)
    have hmax : maxDword.toNat = 2 ^ 32 - 1 := rfl
    rw [BitVec.toNat_ofNat, hmax]
    lia

theorem readDirective_sound {inputBuffer : List BYTE} {index : DWORD} {argptr : List Argument}
    {d : Directive} (h : readDirective inputBuffer index argptr = .ok (some d)) : d.Sound := by
  obtain ⟨⟨fillChar, digits, last⟩, -, h⟩ := printBind_eq_ok.mp h
  dsimp only at h
  cases hspec : specifierOf (charAt inputBuffer (last + 1).toNat) with
  | none =>
    rw [hspec] at h
    cases h
  | some specifier =>
    rw [hspec] at h
    cases argptr with
    | nil => cases h
    | cons argument argptr =>
      obtain ⟨str, hstr, h⟩ := printBind_eq_ok.mp h
      obtain ⟨len, hlen, h⟩ := printBind_eq_ok.mp h
      obtain ⟨_, hassert, h⟩ := printBind_eq_ok.mp h
      obtain ⟨chars, rfl, hshort⟩ :=
        clStrlen_eq_ok hlen (assertThat_eq_ok.mp (liftFault_eq_ok.mp hassert))
      cases h
      exact ⟨hshort, convert_zero_notMem hspec hstr⟩

theorem liftFault_ne_overrun {α : Type} {x : Except Fault α} : liftFault x ≠ .error .overrun := by
  cases x <;> simp [liftFault]

theorem digitsLoop_ne_overrun {inputBuffer : List BYTE} {fuel : ℕ} {first : Bool} {fillChar : BYTE}
    {digits index : DWORD} :
    digitsLoop inputBuffer fuel first fillChar digits index ≠ .error .overrun := by
  induction fuel generalizing first fillChar digits index with
  | zero => exact fun h => nomatch h
  | succ fuel ih =>
    rw [digitsLoop]
    by_cases hdigit : (0x30 : BYTE).sle (charAt inputBuffer (index + 1).toNat) ∧
        (charAt inputBuffer (index + 1).toNat).sle 0x39
    · rw [if_pos hdigit]
      exact ih
    · rw [if_neg hdigit]
      exact fun h => nomatch h

theorem readDirective_ne_overrun {inputBuffer : List BYTE} {index : DWORD} {argptr : List Argument} :
    readDirective inputBuffer index argptr ≠ .error .overrun := by
  intro h
  rcases printBind_eq_error.mp h with hdigits | ⟨⟨fillChar, digits, last⟩, -, h⟩
  · exact digitsLoop_ne_overrun hdigits
  · dsimp only at h
    cases hspec : specifierOf (charAt inputBuffer (last + 1).toNat) with
    | none =>
      rw [hspec] at h
      cases h
    | some specifier =>
      rw [hspec] at h
      cases argptr with
      | nil => cases h
      | cons argument argptr =>
        rcases printBind_eq_error.mp h with hstr | ⟨str, -, h⟩
        · exact convert_ne_overrun hspec hstr
        · rcases printBind_eq_error.mp h with hlen | ⟨len, -, h⟩
          · unfold clStrlen at hlen
            split at hlen
            · cases hlen
            · split_ifs at hlen
              cases hlen
          · rcases printBind_eq_error.mp h with hassert | ⟨_, -, h⟩
            · exact liftFault_ne_overrun hassert
            · cases h

end Reading

/-! ### One round -/

section Loop

variable {buffSize : DWORD} {inputBuffer : List BYTE} {v : Vars}

theorem printRound_end (hoff : v.outBufferOffset.toNat < buffSize.toNat)
    (hc : charAt inputBuffer v.index.toNat = 0) :
    printRound buffSize inputBuffer v = .ok (.exit (.done (v.paramIndex - 1))
      { v with output := put v.output v.outBufferOffset.toNat [0] }) := by
  unfold printRound
  rw [if_pos hc, store_of_lt hoff]
  rfl

theorem toNat_add_one_of_lt {a b : DWORD} (h : a.toNat < b.toNat) : (a + 1).toNat = a.toNat + 1 := by
  have hb := b.isLt
  have h1 : (1 : DWORD).toNat = 1 := rfl
  rw [BitVec.toNat_add, h1]
  lia

theorem printRound_literal (hoff : v.outBufferOffset.toNat < buffSize.toNat)
    (hc : charAt inputBuffer v.index.toNat ≠ 0) (hp : charAt inputBuffer v.index.toNat ≠ 0x25) :
    printRound buffSize inputBuffer v = if v.outBufferOffset.toNat + 1 < buffSize.toNat
      then .ok (.next { v with
        index := v.index + 1
        outBufferOffset := v.outBufferOffset + 1
        output := put v.output v.outBufferOffset.toNat [charAt inputBuffer v.index.toNat] })
      else .ok (.exit .bufferTooSmall { v with output := put v.output v.outBufferOffset.toNat [0] }) := by
  have hnext := toNat_add_one_of_lt hoff
  unfold printRound printLiteral
  rw [if_neg hc, if_neg hp]
  by_cases hfull : buffSize ≤ v.outBufferOffset + 1
  · rw [if_pos hfull, store_of_lt hoff, if_neg]
    · rfl
    · rw [BitVec.le_def, hnext] at hfull
      omega
  · rw [if_neg hfull, store_of_lt hoff, if_pos]
    · rfl
    · rw [BitVec.le_def, hnext] at hfull
      omega

theorem printRound_directive (hp : charAt inputBuffer v.index.toNat = 0x25) {d : Directive}
    (hread : readDirective inputBuffer v.index v.argptr = .ok (some d)) :
    printRound buffSize inputBuffer v = printDirective buffSize v d := by
  unfold printRound
  rw [if_neg (by rw [hp]; decide), if_pos hp, hread]
  rfl

theorem printRound_unknown (hp : charAt inputBuffer v.index.toNat = 0x25)
    (hread : readDirective inputBuffer v.index v.argptr = .ok none) :
    printRound buffSize inputBuffer v = .ok (.exit .parseFailed v) := by
  unfold printRound
  rw [if_neg (by rw [hp]; decide), if_pos hp, hread]
  rfl

theorem printRound_error (hp : charAt inputBuffer v.index.toNat = 0x25) {e : PrintFault}
    (hread : readDirective inputBuffer v.index v.argptr = .error e) :
    printRound buffSize inputBuffer v = .error e := by
  unfold printRound
  rw [if_neg (by rw [hp]; decide), if_pos hp, hread]
  rfl

theorem printLoop_next {fuel : ℕ} {v' : Vars}
    (h : printRound buffSize inputBuffer v = .ok (.next v')) :
    printLoop buffSize inputBuffer (fuel + 1) v = printLoop buffSize inputBuffer fuel v' := by
  rw [printLoop, h]
  rfl

theorem printLoop_exit {fuel : ℕ} {e : Exit} {v' : Vars}
    (h : printRound buffSize inputBuffer v = .ok (.exit e v')) :
    printLoop buffSize inputBuffer (fuel + 1) v = .ok (e, v') := by
  rw [printLoop, h]
  rfl

theorem printLoop_error {fuel : ℕ} {e : PrintFault}
    (h : printRound buffSize inputBuffer v = .error e) :
    printLoop buffSize inputBuffer (fuel + 1) v = .error e := by
  rw [printLoop, h]
  rfl

end Loop

end HAL9000.Strings
