import HAL9000.CommonLib.PrintingBounds
import HAL9000.CommonLib.PrintingText
import Mathlib.Data.List.TakeWhile

/-! Formatted printing into a buffer that may be too small for the text. A format has the conversions of
`PrintingText` and `%S`, which cuts its string to the width. -/
namespace HAL9000.Strings

/-- The conversions. -/
inductive Field
  | whole (kind : Conversion)
  | clipped
  deriving DecidableEq, Repr

namespace Field

def char : Field → BYTE
  | .whole kind => kind.char
  | .clipped => 0x53

def specifier : Field → Specifier
  | .whole kind => kind.specifier
  | .clipped => .string true

/-- The string that an argument stands for, if it matches. -/
def string : Field → Argument → Option (List BYTE)
  | .whole kind, arg => kind.rendered arg
  | .clipped, .string (some str) => some str.chars
  | .clipped, _ => none

def cut (width : List (Fin 10)) : Field → List BYTE → List BYTE
  | .whole _, str => str
  | .clipped, str => str.take (widthValue width)

/-- The text of a string. -/
def text (width : List (Fin 10)) (kind : Field) (str : List BYTE) : List BYTE := padded width (kind.cut width str)

def Faithful : Field → Argument → Prop
  | .whole kind, arg => kind.Faithful arg
  | .clipped, _ => True

end Field

/-- A piece of a well-formed format. A width is a `DWORD`. -/
inductive Item
  | literal (c : BYTE) (h : c ≠ 0 ∧ c ≠ 0x25)
  | field (width : List (Fin 10)) (h : widthValue width < 2 ^ 32) (kind : Field)

def Item.chars : Item → List BYTE
  | .literal c _ => [c]
  | .field width _ kind => 0x25 :: (width.map digitByte ++ [kind.char])

def spellItems (items : List Item) : List BYTE := items.flatMap Item.chars

/-- A well-formed format; its index is a `DWORD`. -/
structure Format where
  items : List Item
  short : (spellItems items).length < 2 ^ 32

/-- The texts of the pieces, one after the other, if the arguments match. Further arguments are not read. -/
def renderItems : List Item → List Argument → Option (List BYTE)
  | [], _ => some []
  | .literal c _ :: items, args => (renderItems items args).map (c :: ·)
  | .field width _ kind :: items, arg :: args => do
    let str ← kind.string arg
    let rest ← renderItems items args
    return kind.text width str ++ rest
  | .field _ _ _ :: _, [] => none

/-- The characters before the first `'\0'`. -/
def beforeZero (str : List BYTE) : List BYTE := str.takeWhile (· ≠ 0)

/-- The two tests for a string of `count` characters; the sums have 32 bits. -/
def Room (size offset width count : ℕ) : Prop :=
  (offset + count) % 2 ^ 32 < size ∧ (offset + max width count) % 2 ^ 32 < size

instance (size offset width count : ℕ) : Decidable (Room size offset width count) :=
  inferInstanceAs (Decidable (_ ∧ _))

/-- From an offset on, the rendering comes into a buffer of `size` characters as far as there is room, with a
terminator; `ended` says that there is one at the offset. A literal is cut at the end of the buffer. A conversion
for which there is no room ends the text, which has to be complete then and to have its terminator. -/
def Shows (size : ℕ) : ℕ → Bool → List Item → List Argument → Prop
  | _, _, [], _ => True
  | offset, _, .literal _ _ :: items, args => offset + 1 < size → Shows size (offset + 1) false items args
  | _, _, .field _ _ _ :: _, [] => False
  | offset, ended, .field width h kind :: items, arg :: args =>
    let str := beforeZero ((kind.string arg).getD [])
    str.length < 2 ^ 32 - 1 ∧
      if Room size offset (widthValue width) str.length then
        (kind.Faithful arg ∨ offset + 1 = size) ∧ offset + (kind.text width str).length < size ∧
          Shows size (offset + (kind.text width str).length)
            (kind.cut width str ≠ [] ∨ widthValue width ≤ str.length ∧ ended) items args
      else ended ∧ ∀ r, renderItems (.field width h kind :: items) (arg :: args) = some r →
        r.take (size - 1 - offset) = []

/-- A text with a terminator. -/
def Holds (output : Chars) (offset : ℕ) (text : List BYTE) : Prop :=
  0 ∉ text ∧ ∀ i ≤ text.length, output (offset + i) = charAt text i

/-! ### Fields -/

section Fields

variable {width : List (Fin 10)} {kind : Field} {arg : Argument} {str : List BYTE} {index : DWORD}
  {args : List Argument}

theorem specifierOf_field (kind : Field) : specifierOf kind.char = some kind.specifier := by
  cases kind with
  | whole kind => exact specifierOf_char kind
  | clipped => rfl

theorem field_char_spec (kind : Field) :
    ¬ ((0x30 : BYTE).sle kind.char ∧ kind.char.sle 0x39) ∧ kind.char ≠ 0 := by
  cases kind with
  | whole kind => exact char_spec kind
  | clipped => decide

/-- The string of an argument, and the one that the code has for it: they differ for the least `INT32` and for
`'\0'`. -/
inductive Printed (kind : Field) (arg : Argument) : List BYTE → List BYTE → Prop
  | faithful {str : List BYTE} (h : kind.Faithful arg) (hzero : 0 ∉ str) : Printed kind arg str str
  | minimum (h : ¬ kind.Faithful arg) (whole : Conversion) (hkind : kind = .whole whole) :
    Printed kind arg minimumRendered minimumPrinted
  | zero (h : ¬ kind.Faithful arg) (whole : Conversion) (hkind : kind = .whole whole) : Printed kind arg [0] []

theorem convert_field (h : kind.string arg = some str) :
    ∃ printed, convert kind.specifier arg = .ok (some printed) ∧ 0 ∉ printed ∧ Printed kind arg str printed := by
  cases kind with
  | whole kind =>
    rcases printed_cases h with ⟨hfaithful, hprinted⟩ | ⟨hfaithful, hprinted⟩
    · have hzero := printed_zero_notMem hprinted
      exact ⟨str, convert_printed hprinted, hzero, .faithful hfaithful hzero⟩
    · rcases hprinted with ⟨hprinted, rfl⟩ | ⟨hprinted, rfl⟩
      · exact ⟨_, convert_printed hprinted, printed_zero_notMem hprinted, .minimum hfaithful kind rfl⟩
      · exact ⟨_, convert_printed hprinted, printed_zero_notMem hprinted, .zero hfaithful kind rfl⟩
  | clipped =>
    cases arg with
    | string arg =>
      cases arg with
      | none => cases h
      | some arg =>
        cases h
        exact ⟨arg.chars, rfl, arg.zero_notMem, .faithful trivial arg.zero_notMem⟩
    | _ => cases h

theorem beforeZero_of_notMem (h : 0 ∉ str) : beforeZero str = str :=
  List.takeWhile_eq_self_iff.mpr fun _ hc => decide_eq_true fun hzero => h (hzero ▸ hc)

namespace Printed

variable {printed : List BYTE} (h : Printed kind arg str printed)
include h

/-- The string that is counted is the one that is printed, but for the least `INT32`. -/
theorem counted : beforeZero str = printed ∨
    ¬ kind.Faithful arg ∧ printed.length = 21 ∧ (beforeZero str).length = 11 := by
  cases h with
  | faithful _ hzero => exact Or.inl (beforeZero_of_notMem hzero)
  | minimum hnot => exact Or.inr ⟨hnot, rfl, by decide⟩
  | zero => exact Or.inl (by decide)

theorem text_pos (hnot : ¬ kind.Faithful arg) (width : List (Fin 10)) : 0 < (kind.text width str).length := by
  have hpos : ∀ whole, 0 < str.length → 0 < ((Field.whole whole).text width str).length := by
    intro whole hpos
    unfold Field.text
    rw [length_padded]
    exact lt_of_lt_of_le hpos (Nat.le_max_right _ _)
  cases h with
  | faithful hfaithful => exact absurd hfaithful hnot
  | minimum _ whole hkind =>
    rw [hkind]
    exact hpos whole (by decide)
  | zero _ whole hkind =>
    rw [hkind]
    exact hpos whole (by decide)

end Printed

theorem zero_notMem_text (h : 0 ∉ str) : 0 ∉ kind.text width str := by
  unfold Field.text
  rw [zero_mem_padded]
  cases kind with
  | whole kind => exact h
  | clipped => exact fun hmem => h (List.mem_of_mem_take hmem)

/-- A conversion with its argument, as it is read. -/
def fieldDirective (kind : Field) (width : List (Fin 10)) (index : DWORD) (str : List BYTE)
    (args : List Argument) : Directive :=
  { directiveOf width index str args with clipped := kind.specifier = .string true }

theorem fieldDirective_digits (hwidth : widthValue width < 2 ^ 32) :
    (fieldDirective kind width index str args).digits.toNat = widthValue width := by
  unfold fieldDirective directiveOf
  rw [BitVec.toNat_ofNat, Nat.mod_eq_of_lt hwidth]

theorem fieldDirective_clipped :
    (fieldDirective kind width index str args).clipped = decide (kind = .clipped) := by
  cases kind with
  | whole kind => cases kind <;> rfl
  | clipped => rfl

variable (hd : (fieldDirective kind width index str args).Sound) (hwidth : widthValue width < 2 ^ 32)
include hd hwidth

theorem fieldDirective_fill :
    (fieldDirective kind width index str args).fillSpaces.toNat = widthValue width - str.length := by
  have hfill := Directive.fillSpaces_toNat hd
  rwa [fieldDirective_digits hwidth] at hfill

theorem fieldDirective_copy :
    (fieldDirective kind width index str args).charsToCopy.toNat = (kind.cut width str).length := by
  have hcopy := Directive.charsToCopy_toNat hd
  rw [fieldDirective_digits hwidth, fieldDirective_clipped] at hcopy
  rw [hcopy]
  cases kind with
  | whole kind => rfl
  | clipped => exact (List.length_take).symm

theorem fieldDirective_text : (fieldDirective kind width index str args).text = kind.text width str := by
  have hcut : (fieldDirective kind width index str args).str.take (kind.cut width str).length =
      kind.cut width str := by
    cases kind with
    | whole kind => exact List.take_length
    | clipped =>
      change str.take (str.take (widthValue width)).length = str.take (widthValue width)
      rw [List.length_take, ← List.take_eq_take_min]
  have hpad : widthValue width - str.length = widthValue width - (kind.cut width str).length := by
    cases kind with
    | whole kind => rfl
    | clipped =>
      change _ = widthValue width - (str.take (widthValue width)).length
      rw [List.length_take]
      lia
  unfold Directive.text Field.text padded
  rw [fieldDirective_fill hd hwidth, fieldDirective_copy hd hwidth, hcut, hpad]
  rfl

theorem fieldDirective_accepted_iff {buffSize offset : DWORD} :
    (fieldDirective kind width index str args).Accepted buffSize offset ↔
      Room buffSize.toNat offset.toNat (widthValue width) str.length := by
  have hlen : (fieldDirective kind width index str args).tempLen.toNat = str.length :=
    Directive.tempLen_toNat hd
  have hfill := fieldDirective_fill hd hwidth
  have hfirst : (offset + (fieldDirective kind width index str args).tempLen).toNat =
      (offset.toNat + str.length) % 2 ^ 32 := by
    rw [BitVec.toNat_add, hlen]
  have hsecond : (offset + (fieldDirective kind width index str args).tempLen +
      (fieldDirective kind width index str args).fillSpaces).toNat =
      (offset.toNat + max (widthValue width) str.length) % 2 ^ 32 := by
    rw [BitVec.toNat_add, hfirst, hfill, Nat.mod_add_mod]
    congr 1
    lia
  unfold Directive.Accepted Room
  rw [BitVec.not_le, BitVec.not_le, BitVec.lt_def, BitVec.lt_def, hfirst, hsecond]

theorem fieldDirective_ended {p : Position} :
    (p.afterDirective (fieldDirective kind width index str args)).ended =
      decide (kind.cut width str ≠ [] ∨ widthValue width ≤ str.length ∧ p.ended) := by
  have hcopy := fieldDirective_copy hd hwidth
  have hfill := fieldDirective_fill hd hwidth
  have hzero : (0 : DWORD).toNat = 0 := rfl
  have hcopied : (fieldDirective kind width index str args).charsToCopy = 0 ↔ kind.cut width str = [] := by
    rw [← BitVec.toNat_inj, hcopy, hzero, List.length_eq_zero_iff]
  have hfilled : (fieldDirective kind width index str args).fillSpaces = 0 ↔ widthValue width ≤ str.length := by
    rw [← BitVec.toNat_inj, hfill, hzero]
    lia
  unfold Position.afterDirective
  dsimp only
  rw [decide_eq_decide, hfilled, Ne, hcopied]

end Fields

/-! ### Holding a text -/

section Holding

variable {output : Chars} {offset : ℕ} {a b : List BYTE}

theorem charAt_append_left {i : ℕ} (h : i < a.length) : charAt (a ++ b) i = charAt a i :=
  List.getD_append _ _ _ _ h

theorem charAt_append_add (i : ℕ) : charAt (a ++ b) (a.length + i) = charAt b i := by
  unfold charAt
  rw [List.getD_append_right _ _ _ _ (Nat.le_add_right _ _), Nat.add_sub_cancel_left]

theorem holds_nil : Holds output offset [] ↔ output offset = 0 := by
  constructor
  · intro h
    exact h.2 0 le_rfl
  · intro h
    refine ⟨List.not_mem_nil, fun i hi => ?_⟩
    rw [List.length_nil, Nat.le_zero] at hi
    rw [hi]
    exact h

theorem holds_append : Holds output offset (a ++ b) ↔
    (0 ∉ a ∧ ∀ i < a.length, output (offset + i) = charAt a i) ∧ Holds output (offset + a.length) b := by
  unfold Holds
  rw [List.mem_append, not_or, List.length_append]
  constructor
  · rintro ⟨⟨hzeroA, hzeroB⟩, h⟩
    refine ⟨⟨hzeroA, fun i hi => ?_⟩, hzeroB, fun i hi => ?_⟩
    · rw [h i (by omega), charAt_append_left hi]
    · rw [Nat.add_assoc, h _ (by omega), charAt_append_add]
  · rintro ⟨⟨hzeroA, hA⟩, hzeroB, hB⟩
    refine ⟨⟨hzeroA, hzeroB⟩, fun i hi => ?_⟩
    rcases Nat.lt_or_ge i a.length with hlt | hge
    · rw [hA i hlt, charAt_append_left hlt]
    · obtain ⟨k, rfl⟩ := Nat.exists_eq_add_of_le hge
      rw [← Nat.add_assoc, hB k (by omega), charAt_append_add]

/-- What is written behind the text of a piece leaves it there. -/
theorem kept_of_put {before output : Chars} {e : List BYTE}
    (h : ∀ i < offset + a.length, output i = put before offset (a ++ e) i) :
    ∀ i < a.length, output (offset + i) = charAt a i := by
  intro i hi
  rw [h _ (by omega), put_add (by rw [List.length_append]; omega), charAt_append_left hi]

end Holding

section Rounds

variable {buffSize : DWORD} {inputBuffer : List BYTE} {p : Position} {v w : Vars} {e : Exit} {fuel : ℕ}

/-- The loop leaves alone what stands before its offset. -/
theorem printLoop_frame (hoff : v.outBufferOffset.toNat < buffSize.toNat)
    (hrun : printLoop buffSize inputBuffer fuel v = .ok (e, w)) :
    ∀ i < v.outBufferOffset.toNat, w.output i = v.output i := by
  induction fuel generalizing v with
  | zero => cases hrun
  | succ fuel ih =>
    intro i hi
    by_cases hc : charAt inputBuffer v.index.toNat = 0
    · rw [printLoop_exit (printRound_end hoff hc)] at hrun
      cases hrun
      exact put_of_lt hi
    by_cases hp : charAt inputBuffer v.index.toNat = 0x25
    · cases hread : readDirective inputBuffer v.index v.argptr with
      | error f =>
        rw [printLoop_error (printRound_error hp hread)] at hrun
        cases hrun
      | ok r =>
        cases r with
        | none =>
          rw [printLoop_exit (printRound_unknown hp hread)] at hrun
          cases hrun
          rfl
        | some d =>
          have hd := readDirective_sound hread
          have hround := @printRound_directive buffSize inputBuffer v hp d hread
          by_cases hacc : d.Accepted buffSize v.outBufferOffset
          · by_cases hfits : v.outBufferOffset.toNat + d.text.length < buffSize.toNat
            · rw [printLoop_next (hround.trans (printDirective_accepted hd hacc hfits))] at hrun
              have hoffset : (afterDirective v d).outBufferOffset.toNat =
                  v.outBufferOffset.toNat + d.text.length :=
                @afterDirective_offset buffSize ⟨v.index, v.outBufferOffset, v.argptr, false⟩ d hd hfits
              rw [ih (by omega) hrun i (by omega)]
              exact put_of_lt hi
            · rw [printLoop_error (hround.trans (printDirective_overruns hd hacc hoff (Nat.not_lt.mp hfits)))]
                at hrun
              cases hrun
          · rw [printLoop_exit (hround.trans (printDirective_rejected hacc))] at hrun
            cases hrun
            rfl
    · have hround := printRound_literal hoff hc hp
      by_cases hroom : v.outBufferOffset.toNat + 1 < buffSize.toNat
      · rw [if_pos hroom] at hround
        rw [printLoop_next hround] at hrun
        have hoffset := toNat_add_one_of_lt hoff
        rw [ih (by rw [hoffset]; exact hroom) hrun i (by rw [hoffset]; omega)]
        exact put_of_lt hi
      · rw [if_neg hroom] at hround
        rw [printLoop_exit hround] at hrun
        cases hrun
        exact put_of_lt hi

variable {width : List (Fin 10)} {h : widthValue width < 2 ^ 32} {kind : Field} {arg : Argument}
  {printed rest : List BYTE} {args : List Argument}

/-- A conversion is read, unless its string is too long. -/
theorem printRound_field (hlen : inputBuffer.length < 2 ^ 32) (hv : At p v)
    (hdrop : inputBuffer.drop p.index.toNat = (Item.field width h kind).chars ++ rest)
    (hargs : p.argptr = arg :: args) (hconvert : convert kind.specifier arg = .ok (some printed)) :
    if printed.length < 2 ^ 32 - 1 then
      (fieldDirective kind width p.index printed args).Sound ∧ printRound buffSize inputBuffer v =
        printDirective buffSize v (fieldDirective kind width p.index printed args)
    else ∃ f, printRound buffSize inputBuffer v = .error f := by
  have hread := @readDirective_of inputBuffer p.index hlen width kind.char kind.specifier rest printed arg args
    (field_char_spec kind).1 (specifierOf_field kind) hdrop hconvert
  have hpercent : charAt inputBuffer v.index.toNat = 0x25 := by
    rw [hv.index]
    exact charAt_of_drop hdrop
  rw [← hargs, ← hv.index, ← hv.argptr] at hread
  by_cases hshort : printed.length < 2 ^ 32 - 1
  · rw [if_pos hshort] at hread ⊢
    rw [← hv.index]
    exact ⟨readDirective_sound hread, printRound_directive hpercent hread⟩
  · rw [if_neg hshort] at hread ⊢
    obtain ⟨f, hread⟩ := hread
    exact ⟨_, printRound_error hpercent hread⟩

/-- The index behind a conversion. -/
theorem fieldDirective_index (hlen : inputBuffer.length < 2 ^ 32)
    (hdrop : inputBuffer.drop p.index.toNat = (Item.field width h kind).chars ++ rest) :
    inputBuffer.drop (p.afterDirective (fieldDirective kind width p.index printed args)).index.toNat = rest := by
  have hin := length_of_drop hdrop (by simp [Item.chars])
  have hchars : (Item.field width h kind).chars.length = width.length + 2 := by
    unfold Item.chars
    rw [List.length_cons, List.length_append, List.length_map, List.length_singleton]
  rw [List.length_append, hchars] at hin
  have hindex : (p.afterDirective (fieldDirective kind width p.index printed args)).index =
      p.index + BitVec.ofNat 32 (width.length + 2) := by
    change p.index + BitVec.ofNat 32 width.length + 2 = _
    rw [BitVec.ofNat_add, BitVec.add_assoc]
    rfl
  rw [hindex, toNat_add_ofNat (by lia), ← hchars]
  exact drop_add_of_drop hdrop

theorem renderItems_field {items : List Item} {r : List BYTE}
    (hr : renderItems (.field width h kind :: items) args = some r) :
    ∃ arg args' str rest, args = arg :: args' ∧ kind.string arg = some str ∧
      renderItems items args' = some rest ∧ r = kind.text width str ++ rest := by
  cases args with
  | nil => cases hr
  | cons arg args' =>
    obtain ⟨str, hstr, hr⟩ := Option.bind_eq_some_iff.mp hr
    obtain ⟨rest, hrest, hr⟩ := Option.bind_eq_some_iff.mp hr
    cases hr
    exact ⟨arg, args', str, rest, rfl, hstr, hrest, rfl⟩

theorem take_text {t rest : List BYTE} {size offset : ℕ} (hfits : offset + t.length < size) :
    (t ++ rest).take (size - 1 - offset) = t ++ rest.take (size - 1 - (offset + t.length)) := by
  rw [List.take_append, List.take_of_length_le (by omega), Nat.sub_sub _ offset]

/-- At the end of the buffer there is no room for a string. -/
theorem not_room {size offset count : ℕ} (hpos : 0 < count) (hcount : count ≤ 21) (hsmall : size + 21 ≤ 2 ^ 32)
    (hlast : offset + 1 = size) : ¬ Room size offset (widthValue width) count := by
  intro hroom
  have hfirst := hroom.1
  rw [Nat.mod_eq_of_lt (by omega)] at hfirst
  omega

theorem At.offset_lt (hv : At p v) (hoff : p.offset.toNat < buffSize.toNat) :
    v.outBufferOffset.toNat < buffSize.toNat := by
  rw [hv.offset]
  exact hoff

/-- The terminator at the end of the text. -/
theorem holds_end {output : Chars} {offset : ℕ} : Holds (put output offset [0]) offset [] := by
  rw [holds_nil]
  exact @put_add output offset [0] 0 (by decide)

/-- A conversion for whose text there is room. -/
theorem field_next (hlen : inputBuffer.length < 2 ^ 32) (hv : At p v)
    (hdrop : inputBuffer.drop p.index.toNat = (Item.field width h kind).chars ++ rest)
    (hd : (fieldDirective kind width p.index printed args).Sound)
    (hround : printRound buffSize inputBuffer v =
      printDirective buffSize v (fieldDirective kind width p.index printed args))
    (hroom : Room buffSize.toNat p.offset.toNat (widthValue width) printed.length)
    (hfits : p.offset.toNat + (kind.text width printed).length < buffSize.toNat) :
    ∃ p' v', printRound buffSize inputBuffer v = .ok (.next v') ∧ At p' v' ∧ (Dirty p v → Dirty p' v') ∧
      inputBuffer.drop p'.index.toNat = rest ∧ p'.argptr = args ∧
      p'.offset.toNat = p.offset.toNat + (kind.text width printed).length ∧
      p'.ended = decide (kind.cut width printed ≠ [] ∨ widthValue width ≤ printed.length ∧ p.ended) ∧
      ∃ e, v'.output = put v.output p.offset.toNat (kind.text width printed ++ e) := by
  have htext := fieldDirective_text hd h
  have hfits' : Fits buffSize p (fieldDirective kind width p.index printed args) := by
    unfold Fits
    rw [htext]
    exact hfits
  have hacc := (fieldDirective_accepted_iff hd h).mpr hroom
  rw [← hv.offset] at hacc
  refine ⟨_, _, hround.trans (printDirective_accepted hd hacc ?_), hv.directive hd hfits',
    fun hdirty => hdirty.directive hv hd hfits', fieldDirective_index hlen hdrop, rfl, ?_,
    fieldDirective_ended hd h, if (fieldDirective kind width p.index printed args).charsToCopy ≠ 0 then [0] else [],
    ?_⟩
  · rw [hv.offset]
    exact hfits'
  · rw [← htext]
    exact afterDirective_offset hd hfits'
  · rw [← htext, ← hv.offset]
    rfl

/-- If what is left shows the rendering, the loop leaves it. -/
theorem Shows.run (hlen : inputBuffer.length < 2 ^ 32) (hsmall : buffSize.toNat + 21 ≤ 2 ^ 32) {items : List Item}
    {t : List BYTE} (hv : At p v) (hdrop : inputBuffer.drop p.index.toNat = spellItems items)
    (ht : renderItems items p.argptr = some t) (hoff : p.offset.toNat < buffSize.toNat)
    (hshows : Shows buffSize.toNat p.offset.toNat p.ended items p.argptr) :
    ∃ e w, printLoop buffSize inputBuffer (items.length + 1) v = .ok (e, w) ∧
      Holds w.output p.offset.toNat (t.take (buffSize.toNat - 1 - p.offset.toNat)) := by
  induction items generalizing p v t with
  | nil =>
    cases ht
    have hend : charAt inputBuffer v.index.toNat = 0 := by
      rw [hv.index]
      exact charAt_of_ge (List.drop_eq_nil_iff.mp hdrop)
    refine ⟨_, _, printLoop_exit (printRound_end (hv.offset_lt hoff) hend), ?_⟩
    rw [List.take_nil, ← hv.offset]
    exact holds_end
  | cons item items ih =>
    cases item with
    | literal c hc =>
      obtain ⟨t', ht', rfl⟩ := Option.map_eq_some_iff.mp ht
      rw [← hv.index] at hdrop
      obtain ⟨hdrop', hround⟩ := printRound_char hlen hc hdrop (hv.offset_lt hoff)
      rw [hv.offset] at hround
      by_cases hroom : p.offset.toNat + 1 < buffSize.toNat
      · rw [if_pos hroom] at hround
        rw [hv.index] at hdrop'
        have hoffset := toNat_add_one_of_lt hoff
        have hv' := hv.literal c
        rw [hv.offset] at hv'
        have hlt : (p.offset + 1).toNat < buffSize.toNat := by
          rw [hoffset]
          exact hroom
        have hnext : Shows buffSize.toNat (p.offset + 1).toNat false items p.argptr := by
          rw [hoffset]
          exact hshows hroom
        obtain ⟨e, w, hrun, hholds⟩ := ih hv' hdrop' ht' hlt hnext
        have hframe := printLoop_frame (hv'.offset_lt hlt) hrun
        refine ⟨e, w, (printLoop_next hround).trans hrun, ?_⟩
        rw [show c :: t' = [c] ++ t' from rfl, take_text (by rw [List.length_singleton]; exact hroom), holds_append]
        dsimp only at hholds hframe
        rw [hoffset] at hholds hframe
        refine ⟨⟨fun hmem => hc.1 (List.mem_singleton.mp hmem).symm, ?_⟩, hholds⟩
        exact kept_of_put (e := []) hframe
      · rw [if_neg hroom] at hround
        refine ⟨_, _, printLoop_exit hround, ?_⟩
        rw [show buffSize.toNat - 1 - p.offset.toNat = 0 by omega, List.take_zero, ← hv.offset]
        exact holds_end
    | field width h kind =>
      obtain ⟨arg, args, str, t', hargs, hstr, ht', rfl⟩ := renderItems_field ht
      obtain ⟨printed, hconvert, hzero, hprinted⟩ := convert_field hstr
      have hround := @printRound_field buffSize inputBuffer p v width h kind arg printed (spellItems items) args hlen
        hv hdrop hargs hconvert
      rw [hargs] at hshows
      unfold Shows at hshows
      dsimp only at hshows
      rw [hstr, Option.getD_some] at hshows
      obtain ⟨hcount, hshows⟩ := hshows
      by_cases hroom : Room buffSize.toNat p.offset.toNat (widthValue width) (beforeZero str).length
      · rw [if_pos hroom] at hshows
        obtain ⟨hfaithful, hfits, hnext⟩ := hshows
        have hsame : beforeZero str = printed := by
          rcases hprinted.counted with hsame | ⟨hnot, -, hcounted⟩
          · exact hsame
          · have hlast := hfaithful.resolve_left hnot
            exact absurd hroom (not_room (by omega) (by omega) hsmall hlast)
        rw [hsame] at hcount hroom hfits hnext
        rw [if_pos hcount] at hround
        obtain ⟨hd, hround⟩ := hround
        obtain ⟨p', v', hround', hv', -, hdrop', hargs', hoffset, hended, e, hput⟩ :=
          field_next hlen hv hdrop hd hround hroom hfits
        rw [← hoffset] at hfits
        rw [← hoffset, ← hended, ← hargs'] at hnext
        obtain ⟨e, w, hrun, hholds⟩ := ih hv' hdrop' (by rw [hargs']; exact ht') hfits hnext
        have hframe := printLoop_frame (hv'.offset_lt hfits) hrun
        refine ⟨e, w, (printLoop_next hround').trans hrun, ?_⟩
        rw [hv'.offset, hoffset, hput] at hframe
        rw [hoffset] at hholds hfits
        by_cases hf : kind.Faithful arg
        · cases hprinted with
          | faithful =>
            rw [take_text hfits, holds_append]
            exact ⟨⟨zero_notMem_text hzero, kept_of_put hframe⟩, hholds⟩
          | minimum hnot => exact absurd hf hnot
          | zero hnot => exact absurd hf hnot
        · have hlast := hfaithful.resolve_left hf
          have hnone : (kind.text width printed).length = 0 := by lia
          rw [hnone, Nat.add_zero] at hholds
          rw [show buffSize.toNat - 1 - p.offset.toNat = 0 by omega, List.take_zero] at hholds ⊢
          exact hholds
      · rw [if_neg hroom] at hshows
        obtain ⟨hended, hcomplete⟩ := hshows
        have hnothing := hcomplete _ (hargs ▸ ht)
        have hrefused : printed.length < 2 ^ 32 - 1 ∧
            ¬ Room buffSize.toNat p.offset.toNat (widthValue width) printed.length := by
          rcases hprinted.counted with hsame | ⟨hnot, hlength, -⟩
          · rw [hsame] at hcount hroom
            exact ⟨hcount, hroom⟩
          · have hpos := hprinted.text_pos hnot width
            have htaken := congrArg List.length hnothing
            rw [List.length_take, List.length_append, List.length_nil] at htaken
            rw [hlength]
            exact ⟨by decide, not_room (by decide) le_rfl hsmall (by omega)⟩
        rw [if_pos hrefused.1] at hround
        obtain ⟨hd, hround⟩ := hround
        have hrejected : ¬ (fieldDirective kind width p.index printed args).Accepted buffSize v.outBufferOffset := by
          rw [hv.offset, fieldDirective_accepted_iff hd h]
          exact hrefused.2
        refine ⟨_, _, printLoop_exit (hround.trans (printDirective_rejected hrejected)), ?_⟩
        rw [hnothing, holds_nil]
        exact hv.ended hended

/-- The least `INT32` is printed in another way than it is rendered. -/
theorem minimum_differs (width : List (Fin 10)) : ∃ i < (padded width minimumRendered).length,
    charAt (padded width minimumPrinted) i ≠ charAt (padded width minimumRendered) i := by
  have hprinted : minimumPrinted.length = 21 := rfl
  have hrendered : minimumRendered.length = 11 := rfl
  rw [length_padded, hrendered]
  unfold padded
  rw [hprinted, hrendered]
  by_cases hwidth : widthValue width ≤ 11
  · refine ⟨1, by omega, ?_⟩
    rw [Nat.sub_eq_zero_of_le hwidth, Nat.sub_eq_zero_of_le (by omega)]
    exact (by decide : charAt ([] ++ minimumPrinted) 1 ≠ charAt ([] ++ minimumRendered) 1)
  · refine ⟨widthValue width - 21, by omega, ?_⟩
    have hminus := @charAt_append_add (List.replicate (widthValue width - 21) (padChar width)) minimumPrinted 0
    rw [List.length_replicate, Nat.add_zero] at hminus
    rw [hminus, charAt_append_left (by rw [List.length_replicate]; omega)]
    have hpad : charAt (List.replicate (widthValue width - 11) (padChar width)) (widthValue width - 21) =
        padChar width := by
      unfold charAt
      rw [List.getD_eq_getElem _ _ (by rw [List.length_replicate]; omega), List.getElem_replicate]
    rw [hpad]
    rcases padChar_cases width with heq | heq <;> rw [heq] <;> decide

/-- Where nothing more is written, nothing is missing. -/
theorem Dirty.complete (hdirty : Dirty p v) {x : List BYTE} (hholds : Holds v.output p.offset.toNat x) :
    x = [] ∧ p.ended = true := by
  have hlast : v.output (p.offset.toNat + x.length) = 0 := (hholds.2 _ le_rfl).trans (charAt_of_ge le_rfl)
  have hempty : x.length = 0 := by
    by_contra hne
    exact hdirty.beyond _ (by omega) hlast
  rw [hempty, Nat.add_zero] at hlast
  exact ⟨List.length_eq_zero_iff.mp hempty, hdirty.ended hlast⟩

/-- A text that was printed and is the rendering is that of a faithful conversion, or there is no room left. -/
theorem Printed.agrees {str rest : List BYTE} {size offset : ℕ} {output : Chars}
    (hprinted : Printed kind arg str printed) (hfits : offset + (kind.text width printed).length < size)
    (hkept : ∀ i < (kind.text width printed).length, output (offset + i) = charAt (kind.text width printed) i)
    (hholds : Holds output offset ((kind.text width str ++ rest).take (size - 1 - offset))) :
    beforeZero str = printed ∧ (kind.Faithful arg ∨ offset + 1 = size) := by
  cases hprinted with
  | faithful hf hzero => exact ⟨beforeZero_of_notMem hzero, Or.inl hf⟩
  | minimum hnot whole hkind =>
    rw [hkind] at hfits hkept hholds
    have hlonger : ((Field.whole whole).text width minimumRendered).length ≤
        ((Field.whole whole).text width minimumPrinted).length := by
      unfold Field.text
      rw [length_padded, length_padded]
      exact max_le_max le_rfl (by decide : minimumRendered.length ≤ minimumPrinted.length)
    obtain ⟨i, hi, hdiffers⟩ := minimum_differs width
    rw [take_text (by omega), holds_append] at hholds
    have hsame := hholds.1.2 i hi
    rw [hkept i (lt_of_lt_of_le hi hlonger)] at hsame
    exact absurd hsame hdiffers
  | zero hnot whole hkind =>
    refine ⟨by decide, Or.inr ?_⟩
    by_contra hroom
    rw [hkind] at hfits hholds
    have hlength : ((Field.whole whole).text width [0]).length =
        max ((Field.whole whole).text width []).length 1 := by
      unfold Field.text
      rw [length_padded, length_padded]
      change max _ 1 = max (max _ 0) 1
      rw [Nat.max_zero]
    rw [take_text (by lia)] at hholds
    exact hholds.1 (List.mem_append_left _ (zero_mem_padded.mpr List.mem_cons_self))

/-- If the loop leaves the rendering in a buffer that held nothing but garbage, what was left shows it. -/
theorem shows_of_run (hlen : inputBuffer.length < 2 ^ 32) (hsmall : buffSize.toNat + 21 ≤ 2 ^ 32)
    {items : List Item} {t : List BYTE} (hv : At p v) (hdirty : Dirty p v)
    (hdrop : inputBuffer.drop p.index.toNat = spellItems items) (ht : renderItems items p.argptr = some t)
    (hoff : p.offset.toNat < buffSize.toNat) (hrun : printLoop buffSize inputBuffer fuel v = .ok (e, w))
    (hholds : Holds w.output p.offset.toNat (t.take (buffSize.toNat - 1 - p.offset.toNat))) :
    Shows buffSize.toNat p.offset.toNat p.ended items p.argptr := by
  induction items generalizing p v t fuel with
  | nil => exact trivial
  | cons item items ih =>
    obtain ⟨fuel, rfl⟩ : ∃ n, fuel = n + 1 := by
      cases fuel with
      | zero => cases hrun
      | succ fuel => exact ⟨fuel, rfl⟩
    cases item with
    | literal c hc =>
      intro hroom
      obtain ⟨t', ht', rfl⟩ := Option.map_eq_some_iff.mp ht
      rw [← hv.index] at hdrop
      obtain ⟨hdrop', hround⟩ := printRound_char hlen hc hdrop (hv.offset_lt hoff)
      rw [hv.offset, if_pos hroom] at hround
      rw [hv.index] at hdrop'
      have hoffset := toNat_add_one_of_lt hoff
      have hv' := hv.literal c
      have hdirty' := hdirty.literal hv hoff c
      rw [hv.offset] at hv' hdirty'
      rw [show c :: t' = [c] ++ t' from rfl, take_text (by rw [List.length_singleton]; exact hroom), holds_append]
        at hholds
      rw [printLoop_next hround] at hrun
      have hnext := ih hv' hdirty' hdrop' ht'
        (by rw [hoffset]; exact hroom) hrun (by rw [hoffset]; exact hholds.2)
      rwa [hoffset] at hnext
    | field width h kind =>
      obtain ⟨arg, args, str, t', hargs, hstr, ht', rfl⟩ := renderItems_field ht
      obtain ⟨printed, hconvert, hzero, hprinted⟩ := convert_field hstr
      have hround := @printRound_field buffSize inputBuffer p v width h kind arg printed (spellItems items) args hlen
        hv hdrop hargs hconvert
      have hshort : printed.length < 2 ^ 32 - 1 := by
        by_contra hlong
        rw [if_neg hlong] at hround
        obtain ⟨f, hround⟩ := hround
        rw [printLoop_error hround] at hrun
        cases hrun
      rw [if_pos hshort] at hround
      obtain ⟨hd, hround⟩ := hround
      rw [hargs]
      unfold Shows
      dsimp only
      rw [hstr, Option.getD_some]
      have hacc := @fieldDirective_accepted_iff width kind printed p.index args hd h buffSize p.offset
      by_cases hroom : Room buffSize.toNat p.offset.toNat (widthValue width) printed.length
      · have hfits : p.offset.toNat + (kind.text width printed).length < buffSize.toNat := by
          by_contra hlong
          rw [← hacc, ← hv.offset] at hroom
          rw [← fieldDirective_text hd h, ← hv.offset] at hlong
          rw [printLoop_error (hround.trans (printDirective_overruns hd hroom (hv.offset_lt hoff)
            (Nat.not_lt.mp hlong)))] at hrun
          cases hrun
        obtain ⟨p', v', hround', hv', hdirty', hdrop', hargs', hoffset, hended, e', hput⟩ :=
          field_next hlen hv hdrop hd hround hroom hfits
        rw [printLoop_next hround'] at hrun
        have hfits' := hfits
        rw [← hoffset] at hfits'
        have hframe := printLoop_frame (hv'.offset_lt hfits') hrun
        rw [hv'.offset, hoffset, hput] at hframe
        obtain ⟨hsame, hfaithful⟩ := hprinted.agrees hfits (kept_of_put hframe) hholds
        rw [hsame]
        refine ⟨hshort, ?_⟩
        rw [if_pos hroom]
        refine ⟨hfaithful, hfits, ?_⟩
        have hrest : Holds w.output p'.offset.toNat (t'.take (buffSize.toNat - 1 - p'.offset.toNat)) := by
          rw [hoffset]
          rcases hfaithful with hf | hlast
          · cases hprinted with
            | faithful =>
              rw [take_text hfits, holds_append] at hholds
              exact hholds.2
            | minimum hnot => exact absurd hf hnot
            | zero hnot => exact absurd hf hnot
          · have hnone : (kind.text width printed).length = 0 := by omega
            rw [show buffSize.toNat - 1 - p.offset.toNat = 0 by omega, List.take_zero] at hholds
            rw [hnone, Nat.add_zero, show buffSize.toNat - 1 - p.offset.toNat = 0 by omega, List.take_zero]
            exact hholds
        have hnext := ih hv' (hdirty' hdirty) hdrop' (by rw [hargs']; exact ht') hfits' hrun hrest
        rwa [hoffset, hended, hargs'] at hnext
      · rw [← hacc, ← hv.offset] at hroom
        rw [printLoop_exit (hround.trans (printDirective_rejected hroom))] at hrun
        cases hrun
        rw [hv.offset, hacc] at hroom
        obtain ⟨hnothing, hended⟩ := hdirty.complete hholds
        have hcounted : (beforeZero str).length < 2 ^ 32 - 1 ∧
            ¬ Room buffSize.toNat p.offset.toNat (widthValue width) (beforeZero str).length := by
          rcases hprinted.counted with hsame | ⟨hnot, -, hlength⟩
          · rw [hsame]
            exact ⟨hshort, hroom⟩
          · have hpos := hprinted.text_pos hnot width
            have htaken := congrArg List.length hnothing
            rw [List.length_take, List.length_append, List.length_nil] at htaken
            rw [hlength]
            exact ⟨by decide, not_room (by decide) (by decide) hsmall (by omega)⟩
        refine ⟨hcounted.1, ?_⟩
        rw [if_neg hcounted.2]
        refine ⟨hended, fun r hr => ?_⟩
        rw [hargs] at ht
        rw [Option.some.inj (hr.symm.trans ht)]
        exact hnothing

end Rounds

/-! ### A whole format -/

namespace Format

variable (format : Format)

def string : ZString where
  chars := spellItems format.items
  zero_notMem := by
    intro h
    obtain ⟨item, -, hmem⟩ := List.mem_flatMap.mp h
    cases item with
    | literal c hc => exact hc.1 (List.mem_singleton.mp hmem).symm
    | field width _ kind =>
      rcases List.mem_cons.mp hmem with hpercent | hmem
      · exact absurd hpercent (by decide)
      · rcases List.mem_append.mp hmem with hdigit | hchar
        · obtain ⟨d, -, hd⟩ := List.mem_map.mp hdigit
          have hne : ∀ d, digitByte d ≠ 0 := by decide
          exact hne d hd
        · exact (field_char_spec kind).2 (List.mem_singleton.mp hchar).symm

/-- Whatever a buffer that starts with a terminator holds behind it, the call leaves the text as far as there is
room. -/
def Leaves (buffSize : DWORD) (args : List Argument) (text : List BYTE) : Prop :=
  ∀ output, output 0 = 0 → ∃ fuel e v, clVsnprintf fuel (some output) buffSize (some format.string) args =
    .ok (e, some v) ∧ Holds v.output 0 (text.take (buffSize.toNat - 1))

variable {format} {buffSize : DWORD} {args : List Argument} {text : List BYTE}

theorem clVsnprintf_of_some (hsize : buffSize ≠ 0) (fuel : ℕ) (output : Chars) (inputBuffer : ZString) :
    clVsnprintf fuel (some output) buffSize (some inputBuffer) args =
      printLoop buffSize inputBuffer.chars fuel (.start output args) >>= fun r => .ok (r.1, some r.2) :=
  if_neg hsize

/-- More fuel does not change the result. -/
theorem printLoop_mono {buffSize : DWORD} {inputBuffer : List BYTE} {fuel : ℕ} {v : Vars} {r : Exit × Vars}
    (h : printLoop buffSize inputBuffer fuel v = .ok r) (more : ℕ) :
    printLoop buffSize inputBuffer (fuel + more) v = .ok r := by
  induction fuel generalizing v with
  | zero => cases h
  | succ fuel ih =>
    obtain ⟨round, hround, h⟩ := printBind_eq_ok.mp h
    rw [Nat.succ_add]
    refine printBind_eq_ok.mpr ⟨round, hround, ?_⟩
    cases round with
    | next v => exact ih h
    | exit e v => exact h

theorem clVsnprintf_mono {buffSize : DWORD} (hsize : buffSize ≠ 0) {fuel : ℕ} {output : Chars} {format : ZString}
    {args : List Argument} {r : Exit × Option Vars}
    (h : clVsnprintf fuel (some output) buffSize (some format) args = .ok r) (more : ℕ) :
    clVsnprintf (fuel + more) (some output) buffSize (some format) args = .ok r := by
  rw [clVsnprintf_of_some hsize] at h ⊢
  obtain ⟨w, hloop, h⟩ := printBind_eq_ok.mp h
  exact printBind_eq_ok.mpr ⟨w, printLoop_mono hloop more, h⟩

theorem leaves_iff (hsize : buffSize ≠ 0) (hsmall : buffSize.toNat + 21 ≤ 2 ^ 32)
    (ht : renderItems format.items args = some text) :
    format.Leaves buffSize args text ↔ Shows buffSize.toNat 0 true format.items args := by
  have hpos : (0 : DWORD).toNat < buffSize.toNat :=
    Nat.pos_of_ne_zero fun hzero => hsize (BitVec.eq_of_toNat_eq hzero)
  have hat : ∀ output : Chars, output 0 = 0 → At ⟨0, 0, args, true⟩ (.start output args) :=
    fun output hzero => ⟨rfl, rfl, rfl, fun _ => hzero⟩
  constructor
  · intro hleaves
    obtain ⟨fuel, e, v, hrun, hholds⟩ := hleaves (Function.update (fun _ => 0xFF) 0 0) (Function.update_self _ _ _)
    rw [clVsnprintf_of_some hsize] at hrun
    obtain ⟨⟨e', w⟩, hloop, hrun⟩ := printBind_eq_ok.mp hrun
    cases hrun
    have hdirty : Dirty ⟨0, 0, args, true⟩ (.start (Function.update (fun _ => 0xFF) 0 0) args) := by
      refine ⟨fun _ => rfl, fun i hi => ?_⟩
      have hne : i ≠ 0 := Nat.ne_of_gt hi
      change Function.update (fun _ => (0xFF : BYTE)) 0 0 i ≠ 0
      rw [Function.update_of_ne hne]
      decide
    exact shows_of_run format.short hsmall (hat _ (Function.update_self _ _ _)) hdirty rfl ht hpos hloop hholds
  · intro hshows output hzero
    obtain ⟨e, w, hloop, hholds⟩ := hshows.run (p := ⟨0, 0, args, true⟩) format.short hsmall (hat output hzero) rfl ht
      hpos
    refine ⟨format.items.length + 1, e, w, ?_, hholds⟩
    rw [clVsnprintf_of_some hsize]
    exact printBind_eq_ok.mpr ⟨_, hloop, rfl⟩

end Format

/-! ### A text as a format -/

section Plain

variable (buffSize : DWORD) (inputBuffer : List BYTE) (output : Chars) (args : List Argument)

/-- The loop comes to these variables. -/
def Comes (v : Vars) : Prop :=
  Relation.ReflTransGen (fun v w => printRound buffSize inputBuffer v = .ok (.next w)) (.start output args) v

/-- No character is taken for the beginning of a conversion. -/
def Verbatim : Prop := ∀ v, Comes buffSize inputBuffer output args v → charAt inputBuffer v.index.toNat ≠ 0x25

/-- The variables when `k` characters are copied. -/
def copied (k : ℕ) : Vars where
  index := BitVec.ofNat 32 k
  paramIndex := 1
  outBufferOffset := BitVec.ofNat 32 k
  argptr := args
  output := put output 0 (inputBuffer.take k)

variable {buffSize inputBuffer output args} (hzero : 0 ∉ inputBuffer) {k : ℕ}

theorem copied_zero : copied inputBuffer output args 0 = .start output args := by
  unfold copied Vars.start
  rw [List.take_zero, put_nil]
  rfl

theorem copied_toNat (hk : k < buffSize.toNat) : (BitVec.ofNat 32 k).toNat = k := by
  have := buffSize.isLt
  rw [BitVec.toNat_ofNat]
  lia

theorem put_take_succ (hk : k < inputBuffer.length) :
    put (put output 0 (inputBuffer.take k)) k [charAt inputBuffer k] = put output 0 (inputBuffer.take (k + 1)) := by
  have hput := @put_put output 0 (inputBuffer.take k) [charAt inputBuffer k]
  rw [List.length_take, Nat.min_eq_left hk.le, Nat.zero_add] at hput
  rw [hput, List.take_succ_eq_append_getElem hk]
  unfold charAt
  rw [List.getD_eq_getElem _ _ hk]

theorem put_take_end (hk : k ≤ inputBuffer.length) :
    put (put output 0 (inputBuffer.take k)) k [0] = put output 0 (inputBuffer.take k ++ [0]) := by
  have hput := @put_put output 0 (inputBuffer.take k) [0]
  rwa [List.length_take, Nat.min_eq_left hk, Nat.zero_add] at hput

theorem holds_put {a : List BYTE} (ha : 0 ∉ a) : Holds (put output 0 (a ++ [0])) 0 a := by
  refine ⟨ha, fun i hi => ?_⟩
  rw [Nat.zero_add]
  exact put_start hi

theorem charAt_mem_take {n : ℕ} (hk : k < inputBuffer.length) (hn : k < n) :
    charAt inputBuffer k ∈ inputBuffer.take n := by
  unfold charAt
  rw [List.getD_eq_getElem _ _ hk]
  exact List.mem_take_iff_getElem.mpr ⟨k, by omega, rfl⟩

theorem copied_end (hk : k < buffSize.toNat) (hend : k = inputBuffer.length) :
    ∃ e, printRound buffSize inputBuffer (copied inputBuffer output args k) =
      .ok (.exit e { copied inputBuffer output args k with output := put output 0 (inputBuffer.take k ++ [0]) }) := by
  have hindex := copied_toNat hk
  have hround := @printRound_end buffSize inputBuffer (copied inputBuffer output args k)
    (by change (BitVec.ofNat 32 k).toNat < _; rw [hindex]; exact hk)
    (by change charAt _ (BitVec.ofNat 32 k).toNat = 0; rw [hindex]; exact charAt_of_ge hend.ge)
  refine ⟨.done ((copied inputBuffer output args k).paramIndex - 1), hround.trans ?_⟩
  have hput : put (put output 0 (inputBuffer.take k)) (BitVec.ofNat 32 k).toNat [0] =
      put output 0 (inputBuffer.take k ++ [0]) := by
    rw [hindex, put_take_end hend.le]
  rw [← hput]
  rfl

include hzero

theorem copied_round (hk : k < buffSize.toNat) (hin : k < inputBuffer.length) (hplain : charAt inputBuffer k ≠ 0x25) :
    printRound buffSize inputBuffer (copied inputBuffer output args k) =
      if k + 1 < buffSize.toNat then .ok (.next (copied inputBuffer output args (k + 1)))
      else .ok (.exit .bufferTooSmall { copied inputBuffer output args k with
        output := put output 0 (inputBuffer.take k ++ [0]) }) := by
  have hindex := copied_toNat hk
  have hround := @printRound_literal buffSize inputBuffer (copied inputBuffer output args k)
    (by change (BitVec.ofNat 32 k).toNat < _; rw [hindex]; exact hk)
    (by change charAt _ (BitVec.ofNat 32 k).toNat ≠ 0; rw [hindex]; exact (charAt_ne_zero_iff hzero).mpr hin)
    (by change charAt _ (BitVec.ofNat 32 k).toNat ≠ 0x25; rw [hindex]; exact hplain)
  rw [hround]
  unfold copied
  dsimp only
  rw [hindex, put_take_succ hin, put_take_end hin.le, BitVec.ofNat_add]
  rfl

theorem comes_copied (hk : k < buffSize.toNat) (hin : k ≤ inputBuffer.length) (hplain : 0x25 ∉ inputBuffer.take k) :
    Comes buffSize inputBuffer output args (copied inputBuffer output args k) := by
  induction k with
  | zero =>
    rw [copied_zero]
    exact Relation.ReflTransGen.refl
  | succ k ih =>
    have hchar : charAt inputBuffer k ≠ 0x25 := fun heq =>
      hplain (heq ▸ charAt_mem_take hin (Nat.lt_succ_self k))
    have hround := @copied_round buffSize inputBuffer output args hzero k (by omega) hin hchar
    rw [if_pos hk] at hround
    have hbefore : 0x25 ∉ inputBuffer.take k := fun hmem =>
      hplain (List.mem_of_mem_take (by rwa [List.take_take, Nat.min_eq_left (Nat.le_succ k)]))
    exact (ih (by omega) (by omega) hbefore).tail hround

/-- Where there is no `%`, the loop copies. -/
theorem comes_cases (hplain : 0x25 ∉ inputBuffer.take buffSize.toNat) (hsize : 0 < buffSize.toNat) {v : Vars}
    (hcomes : Comes buffSize inputBuffer output args v) :
    ∃ k < buffSize.toNat, k ≤ inputBuffer.length ∧ v = copied inputBuffer output args k := by
  induction hcomes with
  | refl => exact ⟨0, hsize, Nat.zero_le _, copied_zero.symm⟩
  | tail _ hround ih =>
    obtain ⟨k, hk, hin, rfl⟩ := ih
    rcases Nat.lt_or_eq_of_le hin with hlt | heq
    · have hchar : charAt inputBuffer k ≠ 0x25 := fun heq => hplain (heq ▸ charAt_mem_take hlt hk)
      rw [copied_round hzero hk hlt hchar] at hround
      by_cases hroom : k + 1 < buffSize.toNat
      · rw [if_pos hroom] at hround
        cases hround
        exact ⟨k + 1, hroom, hlt, rfl⟩
      · rw [if_neg hroom] at hround
        cases hround
    · obtain ⟨e, hend⟩ := @copied_end buffSize inputBuffer output args k hk heq
      rw [hend] at hround
      cases hround

/-- A text is copied verbatim if there is no `%` in what fits into the buffer and in the character after it. -/
theorem verbatim_iff (hsize : 0 < buffSize.toNat) :
    Verbatim buffSize inputBuffer output args ↔ 0x25 ∉ inputBuffer.take buffSize.toNat := by
  constructor
  · intro hverbatim hmem
    obtain ⟨i, hi, hchar⟩ := List.mem_take_iff_getElem.mp hmem
    have hexists : ∃ i, ∃ h : i < inputBuffer.length, i < buffSize.toNat ∧ inputBuffer[i] = 0x25 :=
      ⟨i, by omega, by omega, hchar⟩
    obtain ⟨hlt, hroom, hpercent⟩ := Nat.find_spec hexists
    have hbefore : 0x25 ∉ inputBuffer.take (Nat.find hexists) := by
      intro hearlier
      obtain ⟨j, hj, hj'⟩ := List.mem_take_iff_getElem.mp hearlier
      exact Nat.find_min hexists (by omega : j < Nat.find hexists) ⟨by omega, by omega, hj'⟩
    refine hverbatim _ (comes_copied hzero hroom hlt.le hbefore) ?_
    change charAt inputBuffer (BitVec.ofNat 32 (Nat.find hexists)).toNat = 0x25
    rw [copied_toNat hroom]
    unfold charAt
    rw [List.getD_eq_getElem _ _ hlt]
    exact hpercent
  · intro hplain v hcomes
    obtain ⟨k, hk, hin, rfl⟩ := comes_cases hzero hplain hsize hcomes
    change charAt inputBuffer (BitVec.ofNat 32 k).toNat ≠ 0x25
    rw [copied_toNat hk]
    rcases Nat.lt_or_eq_of_le hin with hlt | heq
    · exact fun heq => hplain (heq ▸ charAt_mem_take hlt hk)
    · rw [charAt_of_ge heq.ge]
      decide

theorem printLoop_copied (hplain : 0x25 ∉ inputBuffer.take buffSize.toNat) (n : ℕ) :
    ∀ k < buffSize.toNat, k + n = inputBuffer.length → ∃ fuel e w,
      printLoop buffSize inputBuffer fuel (copied inputBuffer output args k) = .ok (e, w) ∧
        Holds w.output 0 (inputBuffer.take (buffSize.toNat - 1)) := by
  have hclean : ∀ k, 0 ∉ inputBuffer.take k := fun k h => hzero (List.mem_of_mem_take h)
  induction n with
  | zero =>
    intro k hk hend
    obtain ⟨e, hround⟩ := @copied_end buffSize inputBuffer output args k hk hend
    refine ⟨1, _, _, printLoop_exit hround, ?_⟩
    rw [List.take_of_length_le (by omega : inputBuffer.length ≤ buffSize.toNat - 1),
      List.take_of_length_le (by omega : inputBuffer.length ≤ k)]
    exact holds_put hzero
  | succ n ih =>
    intro k hk hend
    have hin : k < inputBuffer.length := by lia
    have hchar : charAt inputBuffer k ≠ 0x25 := fun heq => hplain (heq ▸ charAt_mem_take hin hk)
    have hround := @copied_round buffSize inputBuffer output args hzero k hk hin hchar
    by_cases hroom : k + 1 < buffSize.toNat
    · rw [if_pos hroom] at hround
      obtain ⟨fuel, e, w, hrun, hholds⟩ := ih (k + 1) hroom (by omega)
      exact ⟨fuel + 1, e, w, (printLoop_next hround).trans hrun, hholds⟩
    · rw [if_neg hroom] at hround
      refine ⟨1, _, _, printLoop_exit hround, ?_⟩
      rw [show buffSize.toNat - 1 = k by lia]
      exact holds_put (hclean k)

omit hzero in
/-- Then the buffer holds the text as far as there is room. -/
theorem clVsnprintf_verbatim {text : ZString} (hsize : 0 < buffSize.toNat)
    (hplain : 0x25 ∉ text.chars.take buffSize.toNat) :
    ∃ fuel e v, clVsnprintf fuel (some output) buffSize (some text) args = .ok (e, some v) ∧
      Holds v.output 0 (text.chars.take (buffSize.toNat - 1)) := by
  have hne : buffSize ≠ 0 := by
    rintro rfl
    exact absurd hsize (Nat.lt_irrefl 0)
  obtain ⟨fuel, e, w, hrun, hholds⟩ := @printLoop_copied buffSize text.chars output args text.zero_notMem hplain
    text.chars.length 0 hsize (Nat.zero_add _)
  rw [copied_zero] at hrun
  refine ⟨fuel, e, w, ?_, hholds⟩
  rw [Format.clVsnprintf_of_some hne]
  exact printBind_eq_ok.mpr ⟨_, hrun, rfl⟩

end Plain

end HAL9000.Strings
