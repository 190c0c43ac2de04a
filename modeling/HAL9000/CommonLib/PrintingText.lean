import HAL9000.CommonLib.Printing

/-! The text that formatted printing leaves. A format is a list of pieces, and its rendering is a
function of the pieces and the arguments. -/
namespace HAL9000.Strings

/-- The conversions `%b %B %u %U %d %D %x %X %c %s`. -/
inductive Conversion
  | binary32
  | binary64
  | unsigned32
  | unsigned64
  | signed32
  | signed64
  | hexa32
  | hexa64
  | character
  | text
  deriving DecidableEq, Repr

def Conversion.char : Conversion → BYTE
  | .binary32 => 0x62
  | .binary64 => 0x42
  | .unsigned32 => 0x75
  | .unsigned64 => 0x55
  | .signed32 => 0x64
  | .signed64 => 0x44
  | .hexa32 => 0x78
  | .hexa64 => 0x58
  | .character => 0x63
  | .text => 0x73

/-- A piece of a well-formed format. -/
inductive Piece
  | literal (c : BYTE) (h : c ≠ 0 ∧ c ≠ 0x25)
  | conversion (width : List (Fin 10)) (kind : Conversion)

def digitByte (d : Fin 10) : BYTE := BitVec.ofNat 8 (0x30 + d.val)

def Piece.chars : Piece → List BYTE
  | .literal c _ => [c]
  | .conversion width kind => 0x25 :: (width.map digitByte ++ [kind.char])

def spell (pieces : List Piece) : List BYTE := pieces.flatMap Piece.chars

def conversions : List Piece → ℕ
  | [] => 0
  | .literal _ _ :: pieces => conversions pieces
  | .conversion _ _ :: pieces => conversions pieces + 1

def signedNumeral (v : ℤ) : List BYTE := (if v < 0 then [0x2D] else []) ++ numeral 10 v.natAbs

/-- The text of a conversion without its padding, if the argument matches. -/
def Conversion.rendered : Conversion → Argument → Option (List BYTE)
  | .binary32, .dword v => some (numeral 2 v.toNat)
  | .binary64, .qword v => some (numeral 2 v.toNat)
  | .unsigned32, .dword v => some (numeral 10 v.toNat)
  | .unsigned64, .qword v => some (numeral 10 v.toNat)
  | .signed32, .dword v => some (signedNumeral v.toInt)
  | .signed64, .qword v => some (signedNumeral v.toInt)
  | .hexa32, .dword v => some (numeral 16 v.toNat)
  | .hexa64, .qword v => some (numeral 16 v.toNat)
  | .character, .char c => some [c]
  | .text, .string (some str) => some str.chars
  | _, _ => none

def widthFrom (n : ℕ) (width : List (Fin 10)) : ℕ := width.foldl (fun n d => n * 10 + d.val) n

def widthValue (width : List (Fin 10)) : ℕ := widthFrom 0 width

def padChar (width : List (Fin 10)) : BYTE := if width.head? = some 0 then 0x30 else 0x20

/-- A text filled up on the left. -/
def padded (width : List (Fin 10)) (text : List BYTE) : List BYTE :=
  List.replicate (widthValue width - text.length) (padChar width) ++ text

/-- The texts of the pieces, one after the other, if the arguments match. Further arguments are not
read. -/
def renderWith (text : Conversion → Argument → Option (List BYTE)) :
    List Piece → List Argument → Option (List BYTE)
  | [], _ => some []
  | .literal c _ :: pieces, args => (renderWith text pieces args).map (c :: ·)
  | .conversion width kind :: pieces, arg :: args => do
    let t ← text kind arg
    let rest ← renderWith text pieces args
    return padded width t ++ rest
  | .conversion _ _ :: _, [] => none

def rendering : List Piece → List Argument → Option (List BYTE) := renderWith Conversion.rendered

/-- The conversion prints its argument as it should: not the least `INT32`, and no `'\0'`. -/
def Conversion.Faithful : Conversion → Argument → Prop
  | .signed32, .dword v => v ≠ 0x80000000
  | .character, .char c => c ≠ 0
  | _, _ => True

def Faithful : List Piece → List Argument → Prop
  | .literal _ _ :: pieces, args => Faithful pieces args
  | .conversion _ kind :: pieces, arg :: args => kind.Faithful arg ∧ Faithful pieces args
  | _, _ => True

/-! ### Conversions -/

def Conversion.specifier : Conversion → Specifier
  | .binary32 => .number false 2 false
  | .binary64 => .number false 2 true
  | .unsigned32 => .number false 10 false
  | .unsigned64 => .number false 10 true
  | .signed32 => .number true 10 false
  | .signed64 => .number true 10 true
  | .hexa32 => .number false 16 false
  | .hexa64 => .number false 16 true
  | .character => .char
  | .text => .string false

theorem specifierOf_char (kind : Conversion) : specifierOf kind.char = some kind.specifier := by
  cases kind <;> rfl

/-- What the code prints for a conversion without the padding. -/
def Conversion.printed (kind : Conversion) (arg : Argument) : Option (List BYTE) :=
  match convert kind.specifier arg with
  | .ok str => str
  | .error _ => none

theorem convert_printed {kind : Conversion} {arg : Argument} {str : List BYTE}
    (h : kind.printed arg = some str) : convert kind.specifier arg = .ok (some str) := by
  unfold Conversion.printed at h
  cases hrun : convert kind.specifier arg with
  | ok str' =>
    rw [hrun] at h
    exact congrArg Except.ok h
  | error e =>
    rw [hrun] at h
    cases h

theorem printed_zero_notMem {kind : Conversion} {arg : Argument} {str : List BYTE}
    (h : kind.printed arg = some str) : 0 ∉ str :=
  convert_zero_notMem (specifierOf_char kind) (convert_printed h)

section Numbers

/-- What is printed for a number. -/
theorem printed_number {kind : Conversion} {signedValue is64BitValue : Bool} {base : DWORD}
    (hspec : kind.specifier = .number signedValue base is64BitValue) {arg : Argument} {value : QWORD}
    (harg : numberArgument is64BitValue arg = .ok value) :
    kind.printed arg = some ((if (itoaMagnitude value signedValue is64BitValue).1 then [0x2D] else []) ++
      numeral base.toNat (itoaMagnitude value signedValue is64BitValue).2.toNat) := by
  have hof := specifierOf_char kind
  rw [hspec] at hof
  have hitoa := itoa_eq (specifierOf_number hof).1 value signedValue is64BitValue
  unfold Conversion.printed
  rw [hspec]
  have hconvert : convert (.number signedValue base is64BitValue) arg =
      .ok (some ((if (itoaMagnitude value signedValue is64BitValue).1 then [0x2D] else []) ++
        numeral base.toNat (itoaMagnitude value signedValue is64BitValue).2.toNat)) := by
    unfold convert
    dsimp only
    rw [harg]
    change (liftFault (itoa value signedValue base is64BitValue) >>= _) = _
    rw [hitoa]
    change (toTemp _ >>= _) = _
    rw [toTemp_itoa hof hitoa]
    rfl
  rw [hconvert]

theorem magnitude_unsigned32 (v : DWORD) : itoaMagnitude (v.setWidth 64) false false =
    (false, v.setWidth 64) := by
  unfold itoaMagnitude
  have hback : ((v.setWidth 64).setWidth 32 : DWORD) = v := by
    apply BitVec.eq_of_toNat_eq
    rw [BitVec.toNat_setWidth, BitVec.toNat_setWidth]
    have := v.isLt
    lia
  rw [hback]
  rfl

theorem magnitude_unsigned64 (v : QWORD) : itoaMagnitude v false true = (false, v) := rfl

theorem magnitude_signed64 (v : QWORD) : itoaMagnitude v true true = (decide (v.toInt < 0),
    BitVec.ofNat 64 v.toInt.natAbs) := by
  have hlt := v.isLt
  unfold itoaMagnitude
  rw [if_pos rfl, Bool.true_and]
  by_cases hneg : v.msb = true
  · have hint := BitVec.toInt_eq_msb_cond v
    rw [if_pos hneg] at hint
    rw [if_pos hneg, decide_eq_true (by omega)]
    refine congrArg _ (BitVec.eq_of_toNat_eq ?_)
    rw [BitVec.toNat_neg, BitVec.toNat_ofNat]
    have := BitVec.toNat_ge_of_msb_true hneg
    lia
  · have hint := BitVec.toInt_eq_msb_cond v
    rw [if_neg hneg] at hint
    rw [if_neg hneg, decide_eq_false (by omega)]
    refine congrArg _ (BitVec.eq_of_toNat_eq ?_)
    rw [BitVec.toNat_ofNat]
    lia

theorem magnitude_signed32 {v : DWORD} (hv : v ≠ 0x80000000) :
    itoaMagnitude (v.setWidth 64) true false = (decide (v.toInt < 0),
      BitVec.ofNat 64 v.toInt.natAbs) := by
  have hlt := v.isLt
  have hmin : v.toNat ≠ 2147483648 := fun h => hv (BitVec.eq_of_toNat_eq h)
  have hback : ((v.setWidth 64).setWidth 32 : DWORD) = v := by
    apply BitVec.eq_of_toNat_eq
    rw [BitVec.toNat_setWidth, BitVec.toNat_setWidth]
    lia
  have hint := BitVec.toInt_eq_msb_cond v
  unfold itoaMagnitude
  rw [if_neg Bool.false_ne_true, hback, Bool.true_and]
  by_cases hneg : v.msb = true
  · have hge := BitVec.toNat_ge_of_msb_true hneg
    rw [if_pos hneg] at hint
    have hnegative : (-v).toNat = 2 ^ 32 - v.toNat := by
      rw [BitVec.toNat_neg]
      lia
    have hmsb : (-v).msb = false := by
      rw [BitVec.msb_eq_false_iff_two_mul_lt, hnegative]
      lia
    rw [if_pos hneg, decide_eq_true (by omega), BitVec.signExtend_eq_setWidth_of_msb_false hmsb]
    refine congrArg _ (BitVec.eq_of_toNat_eq ?_)
    rw [BitVec.toNat_setWidth, hnegative, BitVec.toNat_ofNat]
    lia
  · rw [if_neg hneg] at hint
    rw [if_neg hneg, decide_eq_false (by omega)]
    refine congrArg _ (BitVec.eq_of_toNat_eq ?_)
    rw [BitVec.toNat_setWidth, BitVec.toNat_ofNat]
    lia

theorem printed_unsigned32 {kind : Conversion} {base : DWORD}
    (hspec : kind.specifier = .number false base false) (v : DWORD) :
    kind.printed (.dword v) = some (numeral base.toNat v.toNat) := by
  have hwidth : (v.setWidth 64 : QWORD).toNat = v.toNat := by
    rw [BitVec.toNat_setWidth]
    have := v.isLt
    lia
  rw [printed_number hspec (show numberArgument false (.dword v) = .ok (v.setWidth 64) from rfl),
    magnitude_unsigned32, hwidth]
  rfl

theorem printed_unsigned64 {kind : Conversion} {base : DWORD}
    (hspec : kind.specifier = .number false base true) (v : QWORD) :
    kind.printed (.qword v) = some (numeral base.toNat v.toNat) := by
  rw [printed_number hspec (show numberArgument true (.qword v) = .ok v from rfl),
    magnitude_unsigned64]
  rfl

/-- A number with its sign, where the magnitude has 64 bits. -/
theorem signedNumeral_eq {v : ℤ} (h : v.natAbs < 2 ^ 64) :
    (if decide (v < 0) = true then [0x2D] else []) ++
      numeral (10 : DWORD).toNat (BitVec.ofNat 64 v.natAbs).toNat = signedNumeral v := by
  unfold signedNumeral
  rw [BitVec.toNat_ofNat, Nat.mod_eq_of_lt h]
  simp only [decide_eq_true_eq]
  rfl

theorem printed_signed64 (v : QWORD) :
    Conversion.signed64.printed (.qword v) = some (signedNumeral v.toInt) := by
  have hbound : v.toInt.natAbs < 2 ^ 64 := by
    have := v.isLt
    rw [BitVec.toInt_eq_toNat_cond]
    split_ifs <;> lia
  rw [printed_number (show Conversion.signed64.specifier = .number true 10 true from rfl)
    (show numberArgument true (.qword v) = .ok v from rfl), magnitude_signed64]
  exact congrArg some (signedNumeral_eq hbound)

theorem printed_signed32 {v : DWORD} (hv : v ≠ 0x80000000) :
    Conversion.signed32.printed (.dword v) = some (signedNumeral v.toInt) := by
  have hbound : v.toInt.natAbs < 2 ^ 64 := by
    have := v.isLt
    rw [BitVec.toInt_eq_toNat_cond]
    split_ifs <;> lia
  rw [printed_number (show Conversion.signed32.specifier = .number true 10 false from rfl)
    (show numberArgument false (.dword v) = .ok (v.setWidth 64) from rfl), magnitude_signed32 hv]
  exact congrArg some (signedNumeral_eq hbound)

end Numbers

/-- What is printed for the least `INT32`: its magnitude is extended to 64 bits with its sign. -/
def minimumPrinted : List BYTE :=
  [0x2D, 0x31, 0x38, 0x34, 0x34, 0x36, 0x37, 0x34, 0x34, 0x30, 0x37, 0x31, 0x35, 0x36, 0x32, 0x30, 0x36,
    0x37, 0x39, 0x36, 0x38]

def minimumRendered : List BYTE :=
  [0x2D, 0x32, 0x31, 0x34, 0x37, 0x34, 0x38, 0x33, 0x36, 0x34, 0x38]

theorem printed_minimum : Conversion.signed32.printed (.dword 0x80000000) = some minimumPrinted := by
  decide +kernel

theorem rendered_minimum : Conversion.signed32.rendered (.dword 0x80000000) = some minimumRendered := by
  decide +kernel

/-- A conversion prints what it should, but for the least `INT32` and `'\0'`. -/
theorem printed_cases {kind : Conversion} {arg : Argument} {t : List BYTE}
    (h : kind.rendered arg = some t) : kind.Faithful arg ∧ kind.printed arg = some t ∨
      ¬ kind.Faithful arg ∧
        (kind.printed arg = some minimumPrinted ∧ t = minimumRendered ∨
          kind.printed arg = some [] ∧ t = [0]) := by
  cases kind with
  | binary32 =>
    cases arg with
    | dword v =>
      cases h
      exact Or.inl ⟨trivial, @printed_unsigned32 .binary32 2 rfl v⟩
    | _ => cases h
  | binary64 =>
    cases arg with
    | qword v =>
      cases h
      exact Or.inl ⟨trivial, @printed_unsigned64 .binary64 2 rfl v⟩
    | _ => cases h
  | unsigned32 =>
    cases arg with
    | dword v =>
      cases h
      exact Or.inl ⟨trivial, @printed_unsigned32 .unsigned32 10 rfl v⟩
    | _ => cases h
  | unsigned64 =>
    cases arg with
    | qword v =>
      cases h
      exact Or.inl ⟨trivial, @printed_unsigned64 .unsigned64 10 rfl v⟩
    | _ => cases h
  | signed32 =>
    cases arg with
    | dword v =>
      by_cases hv : v = 0x80000000
      · subst hv
        cases rendered_minimum.symm.trans h
        exact Or.inr ⟨fun hne => hne rfl, Or.inl ⟨printed_minimum, rfl⟩⟩
      · cases h
        exact Or.inl ⟨hv, printed_signed32 hv⟩
    | _ => cases h
  | signed64 =>
    cases arg with
    | qword v =>
      cases h
      exact Or.inl ⟨trivial, printed_signed64 v⟩
    | _ => cases h
  | hexa32 =>
    cases arg with
    | dword v =>
      cases h
      exact Or.inl ⟨trivial, @printed_unsigned32 .hexa32 16 rfl v⟩
    | _ => cases h
  | hexa64 =>
    cases arg with
    | qword v =>
      cases h
      exact Or.inl ⟨trivial, @printed_unsigned64 .hexa64 16 rfl v⟩
    | _ => cases h
  | character =>
    cases arg with
    | char c =>
      cases h
      have hprinted : Conversion.character.printed (.char c) = some (charString c) := by
        unfold Conversion.printed Conversion.specifier convert
        dsimp only
        rw [toTemp_charString]
        rfl
      by_cases hc : c = 0
      · rw [hprinted, charString, if_pos hc, hc]
        exact Or.inr ⟨fun hne => hne rfl, Or.inr ⟨rfl, rfl⟩⟩
      · rw [hprinted, charString, if_neg hc]
        exact Or.inl ⟨hc, rfl⟩
    | _ => cases h
  | text =>
    cases arg with
    | string str =>
      cases str with
      | none => cases h
      | some str =>
        cases h
        exact Or.inl ⟨trivial, rfl⟩
    | _ => cases h

/-! ### Renderings -/

section Rendering

variable {width : List (Fin 10)} {text : Conversion → Argument → Option (List BYTE)}

theorem padChar_cases (width : List (Fin 10)) : padChar width = 0x30 ∨ padChar width = 0x20 := by
  unfold padChar
  split_ifs
  · exact Or.inl rfl
  · exact Or.inr rfl

theorem length_padded (width : List (Fin 10)) (t : List BYTE) :
    (padded width t).length = max (widthValue width) t.length := by
  unfold padded
  rw [List.length_append, List.length_replicate]
  lia

theorem count_nine_padded (width : List (Fin 10)) (t : List BYTE) :
    (padded width t).count 0x39 = t.count 0x39 := by
  have hpad : (List.replicate (widthValue width - t.length) (padChar width)).count 0x39 = 0 := by
    rw [List.count_eq_zero]
    intro hmem
    have heq := List.eq_of_mem_replicate hmem
    rcases padChar_cases width with h | h <;> rw [h] at heq <;> exact absurd heq (by decide)
  unfold padded
  rw [List.count_append, hpad, Nat.zero_add]

theorem zero_mem_padded {t : List BYTE} : 0 ∈ padded width t ↔ 0 ∈ t := by
  unfold padded
  rw [List.mem_append, or_iff_right]
  intro hmem
  have heq := List.eq_of_mem_replicate hmem
  rcases padChar_cases width with h | h <;> rw [h] at heq <;> exact absurd heq (by decide)

theorem renderWith_literal {c : BYTE} {h : c ≠ 0 ∧ c ≠ 0x25} {pieces : List Piece}
    {args : List Argument} {r : List BYTE}
    (hr : renderWith text (.literal c h :: pieces) args = some r) :
    ∃ rest, renderWith text pieces args = some rest ∧ r = c :: rest := by
  obtain ⟨rest, hrest, rfl⟩ := Option.map_eq_some_iff.mp hr
  exact ⟨rest, hrest, rfl⟩

theorem renderWith_conversion {kind : Conversion} {pieces : List Piece} {args : List Argument}
    {r : List BYTE} (hr : renderWith text (.conversion width kind :: pieces) args = some r) :
    ∃ arg args' t rest, args = arg :: args' ∧ text kind arg = some t ∧
      renderWith text pieces args' = some rest ∧ r = padded width t ++ rest := by
  cases args with
  | nil => cases hr
  | cons arg args' =>
    obtain ⟨t, ht, hr⟩ := Option.bind_eq_some_iff.mp hr
    obtain ⟨rest, hrest, hr⟩ := Option.bind_eq_some_iff.mp hr
    cases hr
    exact ⟨arg, args', t, rest, rfl, ht, hrest, rfl⟩

/-- The text that is printed is the rendering exactly if all conversions are faithful: the others leave
out a `'\0'` or print one more nine. -/
theorem printed_rendering {pieces : List Piece} {args : List Argument} {r : List BYTE}
    (hr : rendering pieces args = some r) :
    ∃ t, renderWith Conversion.printed pieces args = some t ∧ 0 ∉ t ∧
      r.count 0x39 ≤ t.count 0x39 ∧ (Faithful pieces args → t = r) ∧
      (¬ Faithful pieces args → 0 ∈ r ∨ r.count 0x39 < t.count 0x39) := by
  induction pieces generalizing args r with
  | nil =>
    cases hr
    exact ⟨[], rfl, List.not_mem_nil, le_rfl, fun _ => rfl, fun h => absurd trivial h⟩
  | cons piece pieces ih =>
    cases piece with
    | literal c hc =>
      obtain ⟨rest, hrest, rfl⟩ := renderWith_literal hr
      obtain ⟨t, ht, hzero, hcount, hsame, hnot⟩ := ih hrest
      refine ⟨c :: t, ?_, ?_, ?_, fun hf => ?_, fun hf => ?_⟩
      · exact congrArg (Option.map (c :: ·)) ht
      · rw [List.mem_cons, not_or]
        exact ⟨hc.1.symm, hzero⟩
      · rw [List.count_cons, List.count_cons]
        omega
      · rw [hsame hf]
      · rw [List.mem_cons, List.count_cons, List.count_cons]
        rcases hnot hf with h | h
        · exact Or.inl (Or.inr h)
        · exact Or.inr (by omega)
    | conversion width kind =>
      obtain ⟨arg, args', t₀, rest, rfl, ht₀, hrest, rfl⟩ := renderWith_conversion hr
      obtain ⟨t, ht, hzero, hcount, hsame, hnot⟩ := ih hrest
      have hprint : ∀ str, kind.printed arg = some str →
          renderWith Conversion.printed (.conversion width kind :: pieces) (arg :: args') =
            some (padded width str ++ t) := by
        intro str hstr
        unfold renderWith
        rw [hstr, ht]
        rfl
      have hclean : ∀ str, kind.printed arg = some str → 0 ∉ padded width str ++ t := by
        intro str hstr hmem
        rcases List.mem_append.mp hmem with h | h
        · exact printed_zero_notMem hstr (zero_mem_padded.mp h)
        · exact hzero h
      simp only [List.count_append, count_nine_padded]
      rcases printed_cases ht₀ with ⟨hf₀, hstr⟩ | ⟨hf₀, ⟨hstr, rfl⟩ | ⟨hstr, rfl⟩⟩
      · refine ⟨_, hprint _ hstr, hclean _ hstr, ?_, fun hf => ?_, fun hf => ?_⟩
        · rw [List.count_append, count_nine_padded]
          omega
        · rw [hsame hf.2]
        · rw [List.count_append, count_nine_padded]
          rcases hnot (fun h => hf ⟨hf₀, h⟩) with h | h
          · exact Or.inl (List.mem_append_right _ h)
          · exact Or.inr (by omega)
      · have hmin : minimumRendered.count 0x39 + 1 = minimumPrinted.count 0x39 := by decide
        refine ⟨_, hprint _ hstr, hclean _ hstr, ?_, fun hf => absurd hf.1 hf₀, fun _ => Or.inr ?_⟩
        · rw [List.count_append, count_nine_padded]
          omega
        · rw [List.count_append, count_nine_padded]
          omega
      · have hnone : ([0] : List BYTE).count 0x39 = ([] : List BYTE).count 0x39 := by decide
        refine ⟨_, hprint _ hstr, hclean _ hstr, ?_, fun hf => absurd hf.1 hf₀, fun _ => Or.inl ?_⟩
        · rw [List.count_append, count_nine_padded]
          omega
        · exact List.mem_append_left _ (zero_mem_padded.mpr List.mem_cons_self)

end Rendering

/-! ### Reading the pieces -/

section Reading

variable {inputBuffer : List BYTE} {index : DWORD}

theorem charAt_of_drop {i : ℕ} {c : BYTE} {rest : List BYTE} (h : inputBuffer.drop i = c :: rest) :
    charAt inputBuffer i = c := by
  have hhead := congrArg (fun l => l.getD 0 0) h
  simpa [charAt, List.getD_eq_getElem?_getD, List.getElem?_drop] using hhead

theorem drop_add_of_drop {i : ℕ} {a rest : List BYTE} (h : inputBuffer.drop i = a ++ rest) :
    inputBuffer.drop (i + a.length) = rest := by
  rw [← List.drop_drop, h, List.drop_left]

theorem toNat_add_ofNat {n : ℕ} (h : index.toNat + n < 2 ^ 32) :
    (index + BitVec.ofNat 32 n).toNat = index.toNat + n := by
  rw [BitVec.toNat_add, BitVec.toNat_ofNat]
  lia

theorem length_of_drop {i : ℕ} {a : List BYTE} (h : inputBuffer.drop i = a) (ha : a ≠ []) :
    i + a.length = inputBuffer.length := by
  have hlen := congrArg List.length h
  have hpos := List.length_pos_of_ne_nil ha
  rw [List.length_drop] at hlen
  omega

theorem digitByte_spec (d : Fin 10) : ((0x30 : BYTE).sle (digitByte d) ∧ (digitByte d).sle 0x39) ∧
    (digitByte d = 0x30 ↔ d = 0) ∧ (digitByte d).setWidth 32 = BitVec.ofNat 32 (0x30 + d.val) := by
  revert d
  decide

theorem char_spec (kind : Conversion) :
    ¬ ((0x30 : BYTE).sle kind.char ∧ kind.char.sle 0x39) ∧ kind.char ≠ 0 := by
  cases kind <;> decide

/-- The loop over the digits of a width. -/
theorem digitsLoop_eq (hlen : inputBuffer.length < 2 ^ 32) {width : List (Fin 10)} {next : BYTE}
    {rest : List BYTE} {fuel n : ℕ} {first : Bool} {fillChar : BYTE}
    (hdrop : inputBuffer.drop (index.toNat + 1) = width.map digitByte ++ next :: rest)
    (hnext : ¬ ((0x30 : BYTE).sle next ∧ next.sle 0x39)) (hfuel : width.length < fuel) :
    digitsLoop inputBuffer fuel first fillChar (BitVec.ofNat 32 n) index =
      .ok (if first ∧ width.head? = some 0 then 0x30 else fillChar,
        BitVec.ofNat 32 (widthFrom n width), index + BitVec.ofNat 32 width.length) := by
  induction width generalizing index fuel n first fillChar with
  | nil =>
    obtain ⟨fuel, rfl⟩ := Nat.exists_eq_succ_of_ne_zero (Nat.ne_zero_of_lt hfuel)
    have hin := length_of_drop hdrop (by simp)
    have hindex : (index + 1).toNat = index.toNat + 1 :=
      @toNat_add_ofNat index 1 (by simp at hin; omega)
    have hchar := charAt_of_drop hdrop
    rw [digitsLoop, hindex, hchar, if_neg hnext, if_neg (by simp)]
    have hzero : index + BitVec.ofNat 32 0 = index := by simp
    exact congrArg (fun i => Except.ok (fillChar, BitVec.ofNat 32 n, i)) hzero.symm
  | cons d width ih =>
    obtain ⟨fuel, rfl⟩ := Nat.exists_eq_succ_of_ne_zero (Nat.ne_zero_of_lt hfuel)
    obtain ⟨hdigit, hzero, hvalue⟩ := digitByte_spec d
    have hin := length_of_drop hdrop (by simp)
    have hindex : (index + 1).toNat = index.toNat + 1 :=
      @toNat_add_ofNat index 1 (by simp at hin; lia)
    have hchar := charAt_of_drop hdrop
    have hdigits : BitVec.ofNat 32 n * 10 + (digitByte d).setWidth 32 - 0x30 =
        BitVec.ofNat 32 (n * 10 + d.val) := by
      rw [hvalue, BitVec.ofNat_add 0x30, BitVec.add_comm (BitVec.ofNat 32 0x30), ← BitVec.add_assoc,
        BitVec.ofNat_add, BitVec.ofNat_mul]
      exact BitVec.add_sub_cancel _ _
    have hlast : index + 1 + BitVec.ofNat 32 width.length = index + BitVec.ofNat 32 (d :: width).length := by
      rw [List.length_cons, Nat.add_comm width.length 1, BitVec.ofNat_add, ← BitVec.add_assoc]
      rfl
    have hrest : inputBuffer.drop ((index + 1).toNat + 1) = width.map digitByte ++ next :: rest := by
      rw [hindex]
      exact @drop_add_of_drop inputBuffer _ [digitByte d] _ hdrop
    rw [digitsLoop, hindex, hchar, if_pos hdigit, hdigits, ih hrest (Nat.lt_of_succ_lt_succ hfuel), hlast,
      if_neg (by simp)]
    have hfill : (if first = true ∧ digitByte d = 0x30 then (0x30 : BYTE) else fillChar) =
        if first = true ∧ (d :: width).head? = some 0 then 0x30 else fillChar := by
      simp only [List.head?_cons, Option.some_inj, hzero]
    rw [hfill]
    rfl

/-- A conversion with its argument, as it is read. -/
def directiveOf (width : List (Fin 10)) (index : DWORD) (str : List BYTE) (args : List Argument) :
    Directive where
  fillChar := padChar width
  digits := BitVec.ofNat 32 (widthValue width)
  index := index + BitVec.ofNat 32 width.length
  str := str
  clipped := false
  argptr := args

/-- A conversion is read, unless its string is too long for `strlen` or the assertion. -/
theorem readDirective_of (hlen : inputBuffer.length < 2 ^ 32) {width : List (Fin 10)} {next : BYTE}
    {specifier : Specifier} {rest str : List BYTE} {arg : Argument} {args : List Argument}
    (hnext : ¬ ((0x30 : BYTE).sle next ∧ next.sle 0x39)) (hspec : specifierOf next = some specifier)
    (hdrop : inputBuffer.drop index.toNat = 0x25 :: (width.map digitByte ++ [next]) ++ rest)
    (hstr : convert specifier arg = .ok (some str)) :
    if str.length < 2 ^ 32 - 1 then readDirective inputBuffer index (arg :: args) =
      .ok (some { directiveOf width index str args with clipped := specifier = .string true })
    else ∃ f, readDirective inputBuffer index (arg :: args) = .error (.fault f) := by
  have hin := length_of_drop hdrop (by simp)
  rw [List.length_append, List.length_cons, List.length_append, List.length_map,
    List.length_singleton] at hin
  have hrest : inputBuffer.drop (index.toNat + 1) = width.map digitByte ++ next :: rest := by
    have := @drop_add_of_drop inputBuffer index.toNat [0x25] (width.map digitByte ++ next :: rest)
      (by rw [hdrop]; simp)
    exact this
  have hdigits : digitsLoop inputBuffer (2 ^ 32) true 0x20 0 index =
      .ok (padChar width, BitVec.ofNat 32 (widthValue width), index + BitVec.ofNat 32 width.length) := by
    have hloop := @digitsLoop_eq inputBuffer index hlen width next rest (2 ^ 32) 0 true 0x20 hrest
      hnext (by lia)
    simpa [padChar, widthValue] using hloop
  have hindex : (index + BitVec.ofNat 32 width.length + 1).toNat = index.toNat + 1 + width.length := by
    have hsum : (index + BitVec.ofNat 32 width.length).toNat = index.toNat + width.length :=
      toNat_add_ofNat (by omega)
    have hsucc : (index + BitVec.ofNat 32 width.length + 1).toNat =
        (index + BitVec.ofNat 32 width.length).toNat + 1 :=
      @toNat_add_ofNat (index + BitVec.ofNat 32 width.length) 1 (by rw [hsum]; lia)
    rw [hsucc, hsum]
    omega
  have hchar : charAt inputBuffer (index + BitVec.ofNat 32 width.length + 1).toNat = next := by
    rw [hindex]
    apply charAt_of_drop
    have := drop_add_of_drop hrest
    rwa [List.length_map] at this
  have hread : readDirective inputBuffer index (arg :: args) = clStrlen (some str) >>= fun tempLen =>
      liftFault (assertThat (tempLen ≠ maxDword)) >>= fun _ =>
        .ok (some { directiveOf width index str args with clipped := specifier = .string true }) := by
    unfold readDirective
    rw [hdigits]
    dsimp only [bind, Except.bind]
    rw [hchar, hspec]
    dsimp only
    rw [hstr]
    rfl
  have hmax : maxDword.toNat = 2 ^ 32 - 1 := rfl
  rw [hread]
  unfold clStrlen
  dsimp only
  by_cases hshort : str.length < 2 ^ 32 - 1
  · have hne : BitVec.ofNat 32 str.length ≠ maxDword := by
      intro heq
      have hnat := congrArg BitVec.toNat heq
      rw [BitVec.toNat_ofNat, hmax] at hnat
      omega
    rw [if_pos hshort, if_pos (by omega)]
    change (liftFault (assertThat (BitVec.ofNat 32 str.length ≠ maxDword)) >>= _) = _
    rw [assertThat_of hne]
    rfl
  · rw [if_neg hshort]
    by_cases hlast : str.length < 2 ^ 32
    · have heq : BitVec.ofNat 32 str.length = maxDword := by
        apply BitVec.eq_of_toNat_eq
        rw [BitVec.toNat_ofNat, hmax]
        lia
      rw [if_pos hlast]
      change ∃ f, (liftFault (assertThat (BitVec.ofNat 32 str.length ≠ maxDword)) >>= _) = _
      rw [assertThat_of_not (not_not.mpr heq)]
      exact ⟨_, rfl⟩
    · rw [if_neg hlast]
      exact ⟨_, rfl⟩

theorem readDirective_eq (hlen : inputBuffer.length < 2 ^ 32) {width : List (Fin 10)}
    {kind : Conversion} {rest str : List BYTE} {arg : Argument} {args : List Argument}
    (hdrop : inputBuffer.drop index.toNat = (Piece.conversion width kind).chars ++ rest)
    (hstr : kind.printed arg = some str) :
    if str.length < 2 ^ 32 - 1 then readDirective inputBuffer index (arg :: args) =
      .ok (some (directiveOf width index str args))
    else ∃ f, readDirective inputBuffer index (arg :: args) = .error (.fault f) := by
  have hclipped : decide (kind.specifier = .string true) = false := by cases kind <;> rfl
  have hread := @readDirective_of inputBuffer index hlen width kind.char kind.specifier rest str arg args
    (char_spec kind).1 (specifierOf_char kind) hdrop (convert_printed hstr)
  rwa [hclipped] at hread

/-- The text of a conversion is its padded string. -/
theorem directiveOf_text {width : List (Fin 10)} {str : List BYTE} {args : List Argument}
    (hsound : (directiveOf width index str args).Sound) (hwidth : widthValue width < 2 ^ 32) :
    (directiveOf width index str args).text = padded width str := by
  have hfill := Directive.fillSpaces_toNat hsound
  have hcopy := Directive.charsToCopy_toNat hsound
  have hdigits : (directiveOf width index str args).digits.toNat = widthValue width := by
    unfold directiveOf
    rw [BitVec.toNat_ofNat, Nat.mod_eq_of_lt hwidth]
  rw [hdigits] at hfill
  unfold Directive.text padded
  rw [hfill, hcopy]
  unfold directiveOf
  dsimp only
  rw [if_neg Bool.false_ne_true, List.take_length]

end Reading

/-! ### The whole format -/

section Printing

variable {buffSize : DWORD} {inputBuffer : List BYTE}

/-- What follows a text overwrites its terminator. -/
theorem put_overwrite {output : Chars} {offset : ℕ} {a e b : List BYTE} (h : e.length ≤ b.length) :
    put (put output offset (a ++ e)) (offset + a.length) b = put output offset (a ++ b) := by
  rw [← put_put a e, ← put_put a b]
  generalize put output offset a = out
  funext i
  unfold put
  by_cases hb : offset + a.length ≤ i ∧ i < offset + a.length + b.length
  · rw [if_pos hb, if_pos hb]
  · rw [if_neg hb, if_neg hb, if_neg (by omega)]

/-- The widths fit a `DWORD`. -/
def Widths : List Piece → Prop
  | [] => True
  | .literal _ _ :: pieces => Widths pieces
  | .conversion width _ :: pieces => widthValue width < 2 ^ 32 ∧ Widths pieces

/-- No width is larger than the text. -/
theorem widths_of_rendering {pieces : List Piece} {args : List Argument} {r : List BYTE}
    (hr : rendering pieces args = some r) (hshort : r.length < 2 ^ 32) : Widths pieces := by
  induction pieces generalizing args r with
  | nil => trivial
  | cons piece pieces ih =>
    cases piece with
    | literal c hc =>
      obtain ⟨rest, hrest, rfl⟩ := renderWith_literal hr
      rw [List.length_cons] at hshort
      exact ih hrest (by omega)
    | conversion width kind =>
      obtain ⟨arg, args, t, rest, rfl, -, hrest, rfl⟩ := renderWith_conversion hr
      rw [List.length_append, length_padded] at hshort
      exact ⟨by omega, ih hrest (by omega)⟩

/-- A conversion is printed if there is room for its text, and otherwise the loop does not go on. -/
theorem printRound_conversion (hlen : inputBuffer.length < 2 ^ 32) {v : Vars} {width : List (Fin 10)}
    {kind : Conversion} {rest str : List BYTE} {arg : Argument} {args : List Argument}
    (hdrop : inputBuffer.drop v.index.toNat = (Piece.conversion width kind).chars ++ rest)
    (hargs : v.argptr = arg :: args) (hstr : kind.printed arg = some str)
    (hwidth : widthValue width < 2 ^ 32) (hoff : v.outBufferOffset.toNat < buffSize.toNat) :
    if v.outBufferOffset.toNat + (padded width str).length < buffSize.toNat
    then ∃ e : List BYTE, e.length ≤ 1 ∧ printRound buffSize inputBuffer v = .ok (.next {
      index := v.index + BitVec.ofNat 32 (Piece.conversion width kind).chars.length
      paramIndex := v.paramIndex + 1
      outBufferOffset := v.outBufferOffset + BitVec.ofNat 32 (padded width str).length
      argptr := args
      output := put v.output v.outBufferOffset.toNat (padded width str ++ e) })
    else (∃ e, printRound buffSize inputBuffer v = .error e) ∨
      printRound buffSize inputBuffer v = .ok (.exit .bufferTooSmall v) := by
  have hlt := buffSize.isLt
  have hread := @readDirective_eq inputBuffer v.index hlen width kind rest str arg args hdrop hstr
  rw [← hargs] at hread
  by_cases hshort : ¬ str.length < 2 ^ 32 - 1
  · rw [if_neg hshort] at hread
    obtain ⟨f, hread⟩ := hread
    rw [if_neg (by rw [length_padded]; lia)]
    exact Or.inl ⟨_, printRound_error (charAt_of_drop hdrop) hread⟩
  rw [if_pos (not_not.mp hshort)] at hread
  have hd := readDirective_sound hread
  have htext := directiveOf_text hd hwidth
  have hround := @printRound_directive buffSize inputBuffer v (charAt_of_drop hdrop) _ hread
  rw [hround, ← htext]
  by_cases hfits : v.outBufferOffset.toNat + (directiveOf width v.index str args).text.length <
      buffSize.toNat
  · rw [if_pos hfits]
    have hdigits : (directiveOf width v.index str args).digits.toNat = widthValue width := by
      unfold directiveOf
      rw [BitVec.toNat_ofNat, Nat.mod_eq_of_lt hwidth]
    have hmax : (directiveOf width v.index str args).text.length =
        max (directiveOf width v.index str args).digits.toNat
          (directiveOf width v.index str args).str.length := by
      rw [htext, length_padded, hdigits]
      rfl
    have hacc := (@Directive.accepted_iff _ hd buffSize v.outBufferOffset (by lia)).mpr (by omega)
    have hlength := Directive.length_text hd
    refine ⟨if (directiveOf width v.index str args).charsToCopy ≠ 0 then [0] else [], ?_,
      (printDirective_accepted hd hacc hfits).trans ?_⟩
    · split_ifs <;> simp
    · unfold afterDirective
      refine congrArg (fun v' => Except.ok (Round.next v')) ?_
      have hindex : (directiveOf width v.index str args).index + 2 =
          v.index + BitVec.ofNat 32 (Piece.conversion width kind).chars.length := by
        unfold directiveOf Piece.chars
        dsimp only
        rw [List.length_cons, List.length_append, List.length_map, List.length_singleton,
          BitVec.add_assoc, Nat.add_assoc, BitVec.ofNat_add]
        rfl
      have hoffset : v.outBufferOffset + (directiveOf width v.index str args).fillSpaces +
          (directiveOf width v.index str args).charsToCopy =
          v.outBufferOffset + BitVec.ofNat 32 (directiveOf width v.index str args).text.length := by
        rw [BitVec.add_assoc]
        congr 1
        apply BitVec.eq_of_toNat_eq
        rw [hlength, BitVec.toNat_add, BitVec.toNat_ofNat]
      rw [hindex, hoffset]
      rfl
  · rw [if_neg hfits]
    by_cases hacc : (directiveOf width v.index str args).Accepted buffSize v.outBufferOffset
    · exact Or.inl ⟨_, printDirective_overruns hd hacc hoff (Nat.not_lt.mp hfits)⟩
    · exact Or.inr (printDirective_rejected hacc)

/-- The round of a literal character. -/
theorem printRound_char (hlen : inputBuffer.length < 2 ^ 32) {v : Vars} {c : BYTE} {rest : List BYTE}
    (hc : c ≠ 0 ∧ c ≠ 0x25) (hdrop : inputBuffer.drop v.index.toNat = c :: rest)
    (hoff : v.outBufferOffset.toNat < buffSize.toNat) :
    inputBuffer.drop (v.index + 1).toNat = rest ∧
      printRound buffSize inputBuffer v = if v.outBufferOffset.toNat + 1 < buffSize.toNat
        then .ok (.next { v with
          index := v.index + 1
          outBufferOffset := v.outBufferOffset + 1
          output := put v.output v.outBufferOffset.toNat [c] })
        else .ok (.exit .bufferTooSmall { v with output := put v.output v.outBufferOffset.toNat [0] }) := by
  have hchar := charAt_of_drop hdrop
  have hin := length_of_drop hdrop (by simp)
  rw [List.length_cons] at hin
  constructor
  · rw [show (v.index + 1).toNat = v.index.toNat + 1 from @toNat_add_ofNat v.index 1 (by omega)]
    exact drop_add_of_drop (a := [c]) hdrop
  · rw [printRound_literal hoff (by rw [hchar]; exact hc.1) (by rw [hchar]; exact hc.2), hchar]

/-- The loop over the pieces of a format: it ends with the text and a terminator in the buffer if there
is room for them, and does not end otherwise. -/
theorem printLoop_pieces (hlen : inputBuffer.length < 2 ^ 32) {pieces : List Piece} {v : Vars}
    {t : List BYTE} (hdrop : inputBuffer.drop v.index.toNat = spell pieces) (hwidths : Widths pieces)
    (ht : renderWith Conversion.printed pieces v.argptr = some t)
    (hoff : v.outBufferOffset.toNat < buffSize.toNat) :
    (v.outBufferOffset.toNat + t.length < buffSize.toNat → ∃ w,
      printLoop buffSize inputBuffer (pieces.length + 1) v =
        .ok (.done (v.paramIndex + BitVec.ofNat 32 (conversions pieces) - 1), w)) ∧
    ∀ fuel n w, printLoop buffSize inputBuffer fuel v = .ok (.done n, w) →
      v.outBufferOffset.toNat + t.length < buffSize.toNat ∧
        w.output = put v.output v.outBufferOffset.toNat (t ++ [0]) := by
  induction pieces generalizing v t with
  | nil =>
    cases ht
    have hend : charAt inputBuffer v.index.toNat = 0 :=
      charAt_of_ge (List.drop_eq_nil_iff.mp hdrop)
    have hround := @printRound_end buffSize inputBuffer v hoff hend
    refine ⟨fun _ => ⟨{ v with output := put v.output v.outBufferOffset.toNat [0] }, ?_⟩,
      fun fuel n w hrun => ?_⟩
    · rw [show conversions [] = 0 from rfl, BitVec.add_zero]
      exact printLoop_exit hround
    · cases fuel with
      | zero => cases hrun
      | succ fuel =>
        rw [printLoop_exit hround] at hrun
        cases hrun
        exact ⟨hoff, rfl⟩
  | cons piece pieces ih =>
    have hsize := buffSize.isLt
    cases piece with
    | literal c hc =>
      obtain ⟨t', ht', rfl⟩ := renderWith_literal ht
      obtain ⟨hdrop', hround⟩ := printRound_char hlen hc hdrop hoff
      have hoffset := toNat_add_one_of_lt hoff
      rw [List.length_cons]
      by_cases hroom : v.outBufferOffset.toNat + 1 < buffSize.toNat
      · rw [if_pos hroom] at hround
        obtain ⟨hdone, hmust⟩ := @ih { v with
          index := v.index + 1
          outBufferOffset := v.outBufferOffset + 1
          output := put v.output v.outBufferOffset.toNat [c] } t'
          hdrop' hwidths ht' (by rw [hoffset]; exact hroom)
        rw [hoffset] at hdone hmust
        refine ⟨fun hfits => ?_, fun fuel n w hrun => ?_⟩
        · obtain ⟨w, hw⟩ := hdone (by omega)
          exact ⟨w, (printLoop_next hround).trans hw⟩
        · cases fuel with
          | zero => cases hrun
          | succ fuel =>
            rw [printLoop_next hround] at hrun
            obtain ⟨hfits, hput⟩ := hmust fuel n w hrun
            refine ⟨by omega, ?_⟩
            rw [hput]
            exact put_put [c] (t' ++ [0])
      · rw [if_neg hroom] at hround
        refine ⟨fun hfits => absurd hfits (by omega), fun fuel n w hrun => ?_⟩
        cases fuel with
        | zero => cases hrun
        | succ fuel =>
          rw [printLoop_exit hround] at hrun
          cases hrun
    | conversion width kind =>
      obtain ⟨arg, args, str, t', hargs, hstr, ht', rfl⟩ := renderWith_conversion ht
      obtain ⟨hwidth, hwidths⟩ := hwidths
      have hdrop' : inputBuffer.drop v.index.toNat =
          (Piece.conversion width kind).chars ++ spell pieces := hdrop
      have hin := length_of_drop hdrop' (by simp [Piece.chars])
      rw [List.length_append] at hin
      have hround := printRound_conversion hlen hdrop' hargs hstr hwidth hoff
      have hindex : (v.index + BitVec.ofNat 32 (Piece.conversion width kind).chars.length).toNat =
          v.index.toNat + (Piece.conversion width kind).chars.length := toNat_add_ofNat (by omega)
      rw [List.length_append]
      by_cases hroom : v.outBufferOffset.toNat + (padded width str).length < buffSize.toNat
      · rw [if_pos hroom] at hround
        obtain ⟨e, he, hround⟩ := hround
        have hoffset : (v.outBufferOffset + BitVec.ofNat 32 (padded width str).length).toNat =
            v.outBufferOffset.toNat + (padded width str).length := toNat_add_ofNat (by omega)
        obtain ⟨hdone, hmust⟩ := @ih {
          index := v.index + BitVec.ofNat 32 (Piece.conversion width kind).chars.length
          paramIndex := v.paramIndex + 1
          outBufferOffset := v.outBufferOffset + BitVec.ofNat 32 (padded width str).length
          argptr := args
          output := put v.output v.outBufferOffset.toNat (padded width str ++ e) } t'
          (by rw [hindex]; exact drop_add_of_drop hdrop') hwidths ht' (by rw [hoffset]; exact hroom)
        rw [hoffset] at hdone hmust
        refine ⟨fun hfits => ?_, fun fuel n w hrun => ?_⟩
        · obtain ⟨w, hw⟩ := hdone (by omega)
          refine ⟨w, (printLoop_next hround).trans (hw.trans ?_)⟩
          have hcount : conversions (.conversion width kind :: pieces) = 1 + conversions pieces :=
            Nat.add_comm _ _
          rw [hcount, BitVec.ofNat_add, ← BitVec.add_assoc]
          rfl
        · cases fuel with
          | zero => cases hrun
          | succ fuel =>
            rw [printLoop_next hround] at hrun
            obtain ⟨hfits, hput⟩ := hmust fuel n w hrun
            refine ⟨by omega, ?_⟩
            rw [hput, List.append_assoc]
            exact put_overwrite (by rw [List.length_append, List.length_singleton]; omega)
      · rw [if_neg hroom] at hround
        refine ⟨fun hfits => absurd hfits (by omega), fun fuel n w hrun => ?_⟩
        cases fuel with
        | zero => cases hrun
        | succ fuel =>
          rcases hround with ⟨e, hround⟩ | hround
          · rw [printLoop_error hround] at hrun
            cases hrun
          · rw [printLoop_exit hround] at hrun
            cases hrun

theorem printRound_exit_ne_done {v w : Vars} {e : Exit} (hc : charAt inputBuffer v.index.toNat ≠ 0)
    (h : printRound buffSize inputBuffer v = .ok (.exit e w)) (n : DWORD) : e ≠ .done n := by
  rintro rfl
  unfold printRound at h
  rw [if_neg hc] at h
  by_cases hp : charAt inputBuffer v.index.toNat = 0x25
  · rw [if_pos hp] at h
    obtain ⟨r, -, h⟩ := printBind_eq_ok.mp h
    cases r with
    | none => cases h
    | some d =>
      change printDirective buffSize v d = _ at h
      unfold printDirective at h
      split_ifs at h
      · cases h
      · cases h
      · obtain ⟨output, -, h⟩ := printBind_eq_ok.mp h
        obtain ⟨output', -, h⟩ := printBind_eq_ok.mp h
        cases h
  · rw [if_neg hp] at h
    unfold printLiteral at h
    split_ifs at h
    · obtain ⟨output, -, h⟩ := printBind_eq_ok.mp h
      cases h
    · obtain ⟨output, -, h⟩ := printBind_eq_ok.mp h
      cases h

/-- The loop ends well only at the end of a format of less than `2 ^ 32` characters. -/
theorem length_lt_of_done (hzero : 0 ∉ inputBuffer) {fuel : ℕ} {v w : Vars} {n : DWORD}
    (h : printLoop buffSize inputBuffer fuel v = .ok (.done n, w)) : inputBuffer.length < 2 ^ 32 := by
  induction fuel generalizing v with
  | zero => cases h
  | succ fuel ih =>
    by_cases hc : charAt inputBuffer v.index.toNat = 0
    · have hge : ¬ v.index.toNat < inputBuffer.length := fun hlt =>
        (charAt_ne_zero_iff hzero).mpr hlt hc
      have := v.index.isLt
      omega
    · cases hround : printRound buffSize inputBuffer v with
      | error e =>
        rw [printLoop_error hround] at h
        cases h
      | ok round =>
        cases round with
        | next v' =>
          rw [printLoop_next hround] at h
          exact ih h
        | exit e v' =>
          rw [printLoop_exit hround] at h
          cases h
          exact absurd rfl (printRound_exit_ne_done hc hround n)

/-- The buffer holds a text and its terminator. -/
theorem charAt_append_zero {a : List BYTE} {i : ℕ} (h : i ≤ a.length) :
    charAt (a ++ [0]) i = charAt a i := by
  unfold charAt
  rcases Nat.lt_or_eq_of_le h with hlt | rfl
  · rw [List.getD_append _ _ _ _ hlt]
  · rw [List.getD_append_right _ _ _ _ le_rfl, Nat.sub_self, List.getD_eq_default _ _ le_rfl]
    rfl

theorem put_start {output : Chars} {a : List BYTE} {i : ℕ} (h : i ≤ a.length) :
    put output 0 (a ++ [0]) i = charAt a i := by
  have hput := @put_add output 0 (a ++ [0]) i (by rw [List.length_append, List.length_singleton]; omega)
  rwa [Nat.zero_add, charAt_append_zero h] at hput

/-- A text without `'\0'` that has been put into a buffer full of other characters is the only one that
the buffer holds. -/
theorem eq_of_put {a b : List BYTE} (ha : 0 ∉ a)
    (h : ∀ i ≤ b.length, put (fun _ => 0xFF) 0 (a ++ [0]) i = charAt b i) : a = b := by
  have hend : charAt b b.length = 0 := charAt_of_ge le_rfl
  rcases Nat.lt_trichotomy a.length b.length with hlt | heq | hgt
  · have hlast := h b.length le_rfl
    rw [put_of_ge (by rw [List.length_append, List.length_singleton]; omega), hend] at hlast
    exact absurd hlast (by decide)
  · refine ext_charAt heq fun i hi => ?_
    rw [← h i (by omega), put_start hi.le]
  · have hlast := h b.length le_rfl
    rw [put_start hgt.le, hend] at hlast
    exact absurd hlast ((charAt_ne_zero_iff ha).mpr hgt)

end Printing

/-- A well-formed format. -/
def formatString (pieces : List Piece) : ZString where
  chars := spell pieces
  zero_notMem := by
    intro h
    obtain ⟨piece, -, hmem⟩ := List.mem_flatMap.mp h
    cases piece with
    | literal c hc => exact hc.1 (List.mem_singleton.mp hmem).symm
    | conversion width kind =>
      rcases List.mem_cons.mp hmem with hpercent | hmem
      · exact absurd hpercent (by decide)
      · rcases List.mem_append.mp hmem with hdigit | hchar
        · obtain ⟨d, -, hd⟩ := List.mem_map.mp hdigit
          have hne : ∀ d, digitByte d ≠ 0 := by decide
          exact hne d hd
        · exact (char_spec kind).2 (List.mem_singleton.mp hchar).symm

/-- Whatever the buffer held, the call returns the number of conversions and leaves the text and a
terminator. -/
def PrintsText (buffSize : DWORD) (pieces : List Piece) (args : List Argument) (text : List BYTE) :
    Prop :=
  ∀ output, ∃ fuel v, clVsnprintf fuel (some output) buffSize (some (formatString pieces)) args =
    .ok (.done (BitVec.ofNat 32 (conversions pieces)), some v) ∧
      ∀ i ≤ text.length, v.output i = charAt text i

/-- A call whose rendering fits prints it exactly if the format has less than `2 ^ 32` characters and no
argument is the least `INT32` for `%d` or `'\0'` for `%c`. -/
theorem printsText_iff {buffSize : DWORD} {pieces : List Piece} {args : List Argument}
    {text : List BYTE} (htext : rendering pieces args = some text)
    (hfits : text.length < buffSize.toNat) :
    PrintsText buffSize pieces args text ↔
      (spell pieces).length < 2 ^ 32 ∧ Faithful pieces args := by
  have hsize : buffSize ≠ 0 := by
    rintro rfl
    exact absurd hfits (Nat.not_lt_zero _)
  have hlt := buffSize.isLt
  have hcall : ∀ fuel output, clVsnprintf fuel (some output) buffSize (some (formatString pieces)) args =
      printLoop buffSize (spell pieces) fuel (.start output args) >>= fun r =>
        .ok (r.1, some r.2) := fun fuel output => if_neg hsize
  obtain ⟨t, ht, hzero, -, hsame, hdiffer⟩ := printed_rendering htext
  have hpieces := fun hlen output => @printLoop_pieces buffSize (spell pieces) hlen pieces
    (.start output args) t rfl (widths_of_rendering htext (by omega)) ht (by
      change 0 < buffSize.toNat
      omega)
  constructor
  · intro hprints
    obtain ⟨fuel, v, hrun, hchars⟩ := hprints fun _ => 0xFF
    rw [hcall] at hrun
    obtain ⟨⟨e, w⟩, hloop, hrun⟩ := printBind_eq_ok.mp hrun
    cases hrun
    have hlen := length_lt_of_done (formatString pieces).zero_notMem hloop
    refine ⟨hlen, ?_⟩
    obtain ⟨-, hput⟩ := (hpieces hlen fun _ => 0xFF).2 fuel _ w hloop
    have heq : t = text := by
      refine eq_of_put hzero fun i hi => ?_
      rw [← hchars i hi, hput]
      rfl
    by_contra hnot
    subst heq
    rcases hdiffer hnot with h | h
    · exact hzero h
    · exact absurd h (Nat.lt_irrefl _)
  · intro h output
    obtain ⟨hlen, hfaithful⟩ := h
    obtain rfl := hsame hfaithful
    obtain ⟨hdone, hmust⟩ := hpieces hlen output
    obtain ⟨w, hloop⟩ := hdone (by
      change 0 + t.length < buffSize.toNat
      omega)
    obtain ⟨-, hput⟩ := hmust _ _ _ hloop
    refine ⟨pieces.length + 1, w, ?_, fun i hi => ?_⟩
    · rw [hcall, hloop]
      change Except.ok (Exit.done (1 + BitVec.ofNat 32 (conversions pieces) - 1), some w) = _
      rw [BitVec.add_comm, BitVec.add_sub_cancel]
    · rw [hput]
      exact put_start hi

/-- The format `"%04x!%d"`. -/
def paddedPieces : List Piece :=
  [.conversion [0, 4] .hexa32, .literal 0x21 ⟨by decide, by decide⟩, .conversion [] .signed32]

theorem padded_printsText :
    PrintsText 16 paddedPieces [.dword 0xAB, .dword (-7)] [0x30, 0x30, 0x41, 0x42, 0x21, 0x2D, 0x37] :=
  (printsText_iff (by decide +kernel) (by decide)).mpr ⟨by decide, trivial, show (-7 : DWORD) ≠ 0x80000000 by decide, trivial⟩

theorem not_printsText : ¬ ∀ (buffSize : DWORD) (pieces : List Piece) (args : List Argument)
    (text : List BYTE), rendering pieces args = some text → text.length < buffSize.toNat →
    PrintsText buffSize pieces args text := by
  intro hall
  have hrendered : rendering [.conversion [] .signed32] [.dword 0x80000000] = some minimumRendered := by
    decide +kernel
  have hprinted : renderWith Conversion.printed [.conversion [] .signed32] [.dword 0x80000000] =
      some minimumPrinted := by
    decide +kernel
  obtain ⟨fuel, v, hrun, hchars⟩ := hall 64 _ _ _ hrendered (by decide) fun _ => 0xFF
  obtain ⟨⟨e, w⟩, hloop, hrun⟩ := printBind_eq_ok.mp hrun
  cases hrun
  obtain ⟨-, hput⟩ := (@printLoop_pieces 64 (spell [.conversion [] .signed32]) (by decide)
    [.conversion [] .signed32] (.start (fun _ => 0xFF) [.dword 0x80000000]) _ rfl
    (widths_of_rendering hrendered (by decide)) hprinted (by decide)).2 fuel _ _ hloop
  have hsecond := hchars 1 (by decide)
  rw [hput] at hsecond
  exact absurd hsecond (by decide +kernel)

end HAL9000.Strings
