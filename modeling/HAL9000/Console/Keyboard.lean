import HAL9000.CommonLib.Base
import Mathlib.Data.List.Basic
import Mathlib.Data.List.Induction
import Mathlib.Tactic.SplitIfs

/-! The interrupt routine of `keyboard.c`, which decodes the bytes of the keyboard encoder. A byte whose seven
low bits are above `0x58` is looked up behind the tables. -/
namespace HAL9000.Console

def key (c : Char) : WORD := BitVec.ofNat 16 c.toNat

def keyEscape : WORD := 0x1001
def keyUp : WORD := 0x1100
def keyDown : WORD := 0x1101
def keyLeft : WORD := 0x1102
def keyRight : WORD := 0x1103
def keyF1 : WORD := 0x1201
def keyF2 : WORD := 0x1202
def keyF3 : WORD := 0x1203
def keyF4 : WORD := 0x1204
def keyF5 : WORD := 0x1205
def keyF6 : WORD := 0x1206
def keyF7 : WORD := 0x1207
def keyF8 : WORD := 0x1208
def keyF9 : WORD := 0x1209
def keyF10 : WORD := 0x120A
def keyF11 : WORD := 0x120B
def keyF12 : WORD := 0x120B
def keyReturn : WORD := 0x0D
def keyBackspace : WORD := 0x08
def keyQuote : WORD := 0x27
def keyBackslash : WORD := 0x5C
def keyKpNumlock : WORD := 0x300F
def keyKpEnter : WORD := 0x3010
def keyTab : WORD := 0x4000
def keyCapslock : WORD := 0x4001
def keyLshift : WORD := 0x4002
def keyLctrl : WORD := 0x4003
def keyLalt : WORD := 0x4004
def keyRshift : WORD := 0x4006
def keyRctrl : WORD := 0x4007
def keyRalt : WORD := 0x4008
def keyDelete : WORD := 0x400B
def keyHome : WORD := 0x400C
def keyEnd : WORD := 0x400D
def keyScrolllock : WORD := 0x4010
def keyUnknown : WORD := 0x4012

/-- `_kkybrd_scancode_std`; the index is the make code. -/
def kkybrdScancodeStd : List WORD :=
  [keyUnknown, keyEscape, key '1', key '2', key '3', key '4', key '5', key '6', key '7', key '8', key '9',
   key '0', key '-', key '=', keyBackspace, keyTab,
   -- 0x10
   key 'q', key 'w', key 'e', key 'r', key 't', key 'y', key 'u', key 'i', key 'o', key 'p', key '[', key ']',
   keyReturn, keyLctrl, key 'a', key 's',
   -- 0x20
   key 'd', key 'f', key 'g', key 'h', key 'j', key 'k', key 'l', key ';', keyQuote, key '`', keyLshift,
   keyBackslash, key 'z', key 'x', key 'c', key 'v',
   -- 0x30
   key 'b', key 'n', key 'm', key ',', key '.', key '/', keyRshift, key '*', keyRalt, key ' ', keyCapslock,
   keyF1, keyF2, keyF3, keyF4, keyF5,
   -- 0x40
   keyF6, keyF7, keyF8, keyF9, keyF10, keyKpNumlock, keyScrolllock, key '7', key '8', key '9', key '-',
   key '4', key '5', key '6', key '+', key '1',
   -- 0x50
   key '2', key '3', key '0', key '.', keyUnknown, keyUnknown, keyUnknown, keyF11, keyF12]

/-- `_kkybrd_scancode_ext`. -/
def kkybrdScancodeExt : List WORD :=
  List.replicate 0x1C keyUnknown ++ [keyKpEnter] ++ List.replicate 0x2A keyUnknown ++
  [keyHome, keyUp, keyUnknown, keyUnknown, keyLeft, keyUnknown, keyRight, keyUnknown, keyEnd,
   -- 0x50
   keyDown, keyUnknown, keyUnknown, keyDelete, keyUnknown, keyUnknown, keyUnknown, keyUnknown, keyUnknown]

/-- `m_keyboardData`, the static flag of the routine, and the bytes sent to the encoder. -/
structure KeyboardData where
  keycode : WORD
  numLock : Bool
  scrollLock : Bool
  capsLock : Bool
  shift : Bool
  alt : Bool
  ctrl : Bool
  keyPressedEvt : Bool
  extendedCode : Bool
  sent : List BYTE
  deriving DecidableEq, Repr

/-- After `KeyboardInitialize`. -/
def keyboardInitialized : KeyboardData :=
  ⟨keyUnknown, false, false, false, false, false, false, false, false, [0xED, 0]⟩

def keyboardUpdateLEDs (s : KeyboardData) : KeyboardData :=
  let data : BYTE := (if s.scrollLock then 1 else 0) ||| (if s.numLock then 2 else 0) |||
    (if s.capsLock then 4 else 0)
  { s with sent := s.sent ++ [0xED, data] }

def scancode (table : List WORD) (code : BYTE) : Except Fault WORD :=
  match table[code.toNat]? with
  | some key => .ok key
  | none => .error .danglingAccess

def keyReleased (s : KeyboardData) (key : WORD) : KeyboardData :=
  if key = keyLctrl ∨ key = keyRctrl then { s with ctrl := false }
  else if key = keyLshift ∨ key = keyRshift then { s with shift := false }
  else if key = keyLalt ∨ key = keyRalt then { s with alt := false }
  else s

def keyPressed (s : KeyboardData) (key : WORD) : KeyboardData :=
  let s := { s with keycode := key }
  if key = keyLctrl ∨ key = keyRctrl then { s with ctrl := true }
  else if key = keyLshift ∨ key = keyRshift then { s with shift := true }
  else if key = keyLalt ∨ key = keyRalt then { s with alt := true }
  else if key = keyCapslock then keyboardUpdateLEDs { s with capsLock := !s.capsLock }
  else if key = keyKpNumlock then keyboardUpdateLEDs { s with numLock := !s.numLock }
  else if key = keyScrolllock then keyboardUpdateLEDs { s with scrollLock := !s.scrollLock }
  else s

/-- `_KeyboardIsr` on the byte that it reads from the encoder. -/
def keyboardIsr (s : KeyboardData) (code : BYTE) : Except Fault KeyboardData :=
  if 0xE0 = code ∨ 0xE1 = code then .ok { s with extendedCode := true }
  else do
    let keyBreak : Bool := code &&& 0x80 ≠ 0
    let code := if keyBreak then code - 0x80 else code
    let key ← scancode (if s.extendedCode then kkybrdScancodeExt else kkybrdScancodeStd) code
    let s := if keyBreak then keyReleased s key else keyPressed s key
    return { s with extendedCode := false, keyPressedEvt := true }

def keyboardRun (bytes : List BYTE) : Except Fault KeyboardData := bytes.foldlM keyboardIsr keyboardInitialized

/-! ### Keys and modifiers -/

inductive Modifier
  | shift
  | ctrl
  | alt
  deriving DecidableEq, Repr

def modifierOf (key : WORD) : Option Modifier :=
  if key = keyLctrl ∨ key = keyRctrl then some .ctrl
  else if key = keyLshift ∨ key = keyRshift then some .shift
  else if key = keyLalt ∨ key = keyRalt then some .alt
  else none

def KeyboardData.flag (s : KeyboardData) : Modifier → Bool
  | .shift => s.shift
  | .ctrl => s.ctrl
  | .alt => s.alt

/-- A key of the keyboard; its code has seven bits. -/
structure Key where
  extended : Bool
  code : BYTE
  deriving DecidableEq, Repr

structure KeyEvent where
  key : Key
  released : Bool
  deriving DecidableEq, Repr

def IsExtension (b : BYTE) : Prop := 0xE0 = b ∨ 0xE1 = b

instance (b : BYTE) : Decidable (IsExtension b) := inferInstanceAs (Decidable (_ ∨ _))

def eventOf (extended : Bool) (b : BYTE) : KeyEvent := ⟨⟨extended, b &&& 0x7F⟩, b &&& 0x80 ≠ 0⟩

/-- What a sequence of bytes says of the keys. -/
def events : Bool → List BYTE → List KeyEvent
  | _, [] => []
  | extended, b :: bytes =>
    if IsExtension b then events true bytes else eventOf extended b :: events false bytes

/-- Whether the next byte is of the second table. -/
def extendedAfter (extended : Bool) (bytes : List BYTE) : Bool :=
  bytes.foldl (fun _ b => decide (IsExtension b)) extended

/-- A key was pressed and has not been released since. -/
def Held (es : List KeyEvent) (k : Key) : Prop :=
  ∃ i : ℕ, es[i]? = some ⟨k, false⟩ ∧ ∀ j, i < j → es[j]? ≠ some ⟨k, true⟩

/-- The tables decode a key to a modifier. -/
def Decodes (k : Key) (m : Modifier) : Prop :=
  ∃ key, (if k.extended then kkybrdScancodeExt else kkybrdScancodeStd)[k.code.toNat]? = some key ∧
    modifierOf key = some m

/-- All accesses to the tables are inside, and the modifiers are those of the keys that are held. -/
def FollowsKeys (bytes : List BYTE) : Prop :=
  ∃ s, keyboardRun bytes = .ok s ∧
    ∀ m, s.flag m = true ↔ ∃ k, Decodes k m ∧ Held (events false bytes) k

/-- A byte is in the tables, and does not release a modifier that another key holds. -/
structure FollowedByte (bytes : List BYTE) (b : BYTE) : Prop where
  inTables : IsExtension b ∨ (b &&& 0x7F).toNat ≤ 0x58
  unshared : ¬IsExtension b → (eventOf (extendedAfter false bytes) b).released = true →
    ∀ m, Decodes (eventOf (extendedAfter false bytes) b).key m →
      ∀ k, k ≠ (eventOf (extendedAfter false bytes) b).key → Decodes k m → ¬Held (events false bytes) k

/-! ### Events -/

section Events

variable {es : List KeyEvent} {e : KeyEvent} {k : Key} {m : Modifier} {extended : Bool} {bytes : List BYTE}
  {b : BYTE}

theorem not_held_nil : ¬Held [] k := by
  rintro ⟨i, hi, -⟩
  exact absurd hi (by simp)

theorem held_snoc : Held (es ++ [e]) k ↔ e = ⟨k, false⟩ ∨ Held es k ∧ e ≠ ⟨k, true⟩ := by
  constructor
  · rintro ⟨i, hi, hafter⟩
    rcases Nat.lt_trichotomy i es.length with hlt | rfl | hgt
    · right
      rw [List.getElem?_append_left hlt] at hi
      refine ⟨⟨i, hi, fun j hj => ?_⟩, fun heq => ?_⟩
      · by_cases hj' : j < es.length
        · rw [← @List.getElem?_append_left _ es [e] j hj']
          exact hafter j hj
        · rw [List.getElem?_eq_none (Nat.le_of_not_lt hj')]
          exact nofun
      · refine hafter es.length hlt ?_
        rw [List.getElem?_append_right le_rfl, Nat.sub_self, heq]
        rfl
    · left
      rw [List.getElem?_append_right le_rfl, Nat.sub_self] at hi
      exact Option.some.inj hi
    · rw [List.getElem?_eq_none (by rw [List.length_append]; exact hgt)] at hi
      exact absurd hi nofun
  · rintro (rfl | ⟨⟨i, hi, hafter⟩, hne⟩)
    · refine ⟨es.length, by simp, fun j hj => ?_⟩
      rw [List.getElem?_eq_none (by rw [List.length_append]; exact hj)]
      exact nofun
    · have hlt : i < es.length := by
        by_contra hge
        rw [List.getElem?_eq_none (Nat.le_of_not_lt hge)] at hi
        exact absurd hi nofun
      refine ⟨i, by rwa [List.getElem?_append_left hlt], fun j hj => ?_⟩
      rcases Nat.lt_trichotomy j es.length with hlt' | rfl | hgt
      · rw [List.getElem?_append_left hlt']
        exact hafter j hj
      · rw [List.getElem?_append_right le_rfl, Nat.sub_self]
        exact fun heq => hne (Option.some.inj heq)
      · rw [List.getElem?_eq_none (by rw [List.length_append]; exact hgt)]
        exact nofun

theorem held_pressed {k' : Key} : Held (es ++ [⟨k, false⟩]) k' ↔ k' = k ∨ Held es k' := by
  rw [held_snoc]
  simp [eq_comm]

theorem held_released {k' : Key} : Held (es ++ [⟨k, true⟩]) k' ↔ Held es k' ∧ k' ≠ k := by
  rw [held_snoc]
  simp [eq_comm]

theorem extendedAfter_snoc : extendedAfter extended (bytes ++ [b]) = decide (IsExtension b) := by
  unfold extendedAfter
  rw [List.foldl_append]
  rfl

theorem events_snoc : events extended (bytes ++ [b]) =
    events extended bytes ++ if IsExtension b then [] else [eventOf (extendedAfter extended bytes) b] := by
  induction bytes generalizing extended with
  | nil =>
    by_cases hb : IsExtension b
    · simp [events, hb]
    · simp [events, hb, extendedAfter]
  | cons c bytes ih =>
    have hafter : extendedAfter extended (c :: bytes) = extendedAfter (decide (IsExtension c)) bytes := rfl
    rw [hafter, List.cons_append]
    by_cases hc : IsExtension c
    · rw [events, events, if_pos hc, if_pos hc, ih, decide_eq_true hc]
    · rw [events, events, if_neg hc, if_neg hc, ih, decide_eq_false hc, List.cons_append]

end Events

/-! ### Steps -/

section Steps

variable {s : KeyboardData} {b : BYTE} {bytes : List BYTE}

theorem keyPressed_flag (s : KeyboardData) (key : WORD) (m : Modifier) :
    (keyPressed s key).flag m = (s.flag m || decide (modifierOf key = some m)) := by
  unfold keyPressed modifierOf
  split_ifs <;> cases m <;> simp [KeyboardData.flag, keyboardUpdateLEDs]

theorem keyReleased_flag (s : KeyboardData) (key : WORD) (m : Modifier) :
    (keyReleased s key).flag m = (s.flag m && !decide (modifierOf key = some m)) := by
  unfold keyReleased modifierOf
  split_ifs <;> cases m <;> simp [KeyboardData.flag]

theorem makeCode_eq : ∀ b : BYTE, (if (b &&& 0x80 ≠ 0 : Bool) then b - 0x80 else b) = b &&& 0x7F := by
  decide

theorem keyboardIsr_extension (h : IsExtension b) : keyboardIsr s b = .ok { s with extendedCode := true } :=
  if_pos h

/-- The modifiers after a make or a break code. -/
theorem keyboardIsr_key (h : ¬IsExtension b) {key : WORD}
    (hkey : (if s.extendedCode then kkybrdScancodeExt else kkybrdScancodeStd)[(b &&& 0x7F).toNat]? = some key) :
    ∃ s', keyboardIsr s b = .ok s' ∧ s'.extendedCode = false ∧ ∀ m, s'.flag m =
      if b &&& 0x80 ≠ 0 then s.flag m && !decide (modifierOf key = some m)
      else s.flag m || decide (modifierOf key = some m) := by
  have hrun : keyboardIsr s b = .ok
      { (if (b &&& 0x80 ≠ 0 : Bool) then keyReleased s key else keyPressed s key) with
        extendedCode := false, keyPressedEvt := true } := by
    unfold keyboardIsr scancode
    refine (if_neg h).trans ?_
    dsimp only
    rw [makeCode_eq, hkey]
    rfl
  refine ⟨_, hrun, rfl, fun m => ?_⟩
  have hflag : ∀ t : KeyboardData, KeyboardData.flag { t with extendedCode := false, keyPressedEvt := true } m =
      t.flag m := fun t => by cases m <;> rfl
  rw [hflag]
  by_cases hbreak : b &&& 0x80 ≠ 0
  · rw [if_pos hbreak, if_pos (decide_eq_true hbreak), keyReleased_flag]
  · rw [if_neg hbreak, if_neg (by simpa using hbreak), keyPressed_flag]

theorem scancodes_length (extended : Bool) :
    (if extended then kkybrdScancodeExt else kkybrdScancodeStd).length = 0x59 := by
  cases extended <;> rfl

theorem keyboardIsr_outside (h : ¬IsExtension b) (hout : ¬(b &&& 0x7F).toNat ≤ 0x58) :
    keyboardIsr s b = .error .danglingAccess := by
  unfold keyboardIsr scancode
  refine (if_neg h).trans ?_
  dsimp only
  rw [makeCode_eq, List.getElem?_eq_none (by rw [scancodes_length]; omega)]
  rfl

/-- The flag of the routine and the modifiers are those of the bytes so far. -/
structure Follows (bytes : List BYTE) (s : KeyboardData) : Prop where
  extended : s.extendedCode = extendedAfter false bytes
  flags : ∀ m, s.flag m = true ↔ ∃ k, Decodes k m ∧ Held (events false bytes) k

theorem follows_initialized : Follows [] keyboardInitialized := by
  refine ⟨rfl, fun m => ⟨fun h => ?_, fun ⟨k, _, hk⟩ => absurd hk not_held_nil⟩⟩
  cases m <;> exact absurd h (by decide)

theorem decodes_iff {k : Key} {key : WORD} {m : Modifier}
    (hkey : (if k.extended then kkybrdScancodeExt else kkybrdScancodeStd)[k.code.toNat]? = some key) :
    Decodes k m ↔ modifierOf key = some m := by
  unfold Decodes
  rw [hkey]
  exact ⟨fun ⟨key', heq, hm⟩ => Option.some.inj heq ▸ hm, fun hm => ⟨key, rfl, hm⟩⟩

/-- One byte, and the condition under which the modifiers stay right. -/
theorem Follows.step (h : Follows bytes s) (b : BYTE) :
    (∃ s', keyboardIsr s b = .ok s' ∧
      ∀ m, s'.flag m = true ↔ ∃ k, Decodes k m ∧ Held (events false (bytes ++ [b])) k) ↔
    FollowedByte bytes b := by
  by_cases hext : IsExtension b
  · have hevents : events false (bytes ++ [b]) = events false bytes := by
      rw [events_snoc, if_pos hext, List.append_nil]
    rw [keyboardIsr_extension hext, hevents]
    refine ⟨fun _ => ⟨.inl hext, fun hne => absurd hext hne⟩, fun _ => ⟨_, rfl, fun m => ?_⟩⟩
    rw [← h.flags m]
    cases m <;> rfl
  by_cases hin : (b &&& 0x7F).toNat ≤ 0x58
  swap
  · rw [keyboardIsr_outside hext hin]
    exact ⟨fun ⟨s', hs', _⟩ => absurd hs' nofun, fun hb => absurd hb.inTables (not_or.mpr ⟨hext, hin⟩)⟩
  obtain ⟨key, hkey⟩ : ∃ key, (if s.extendedCode then kkybrdScancodeExt
      else kkybrdScancodeStd)[(b &&& 0x7F).toNat]? = some key :=
    ⟨_, List.getElem?_eq_getElem (by rw [scancodes_length]; omega)⟩
  obtain ⟨s', hrun, -, hflags⟩ := keyboardIsr_key hext hkey
  rw [h.extended] at hkey
  have hdecodes : ∀ m, Decodes (eventOf (extendedAfter false bytes) b).key m ↔ modifierOf key = some m :=
    fun m => decodes_iff hkey
  have hevents : events false (bytes ++ [b]) = events false bytes ++ [eventOf (extendedAfter false bytes) b] := by
    rw [events_snoc, if_neg hext]
  have hok : (∃ s'', keyboardIsr s b = .ok s'' ∧
      ∀ m, s''.flag m = true ↔ ∃ k, Decodes k m ∧ Held (events false (bytes ++ [b])) k) ↔
      ∀ m, s'.flag m = true ↔ ∃ k, Decodes k m ∧ Held (events false (bytes ++ [b])) k := by
    rw [hrun]
    exact ⟨fun ⟨s'', heq, hs''⟩ => Except.ok.inj heq ▸ hs'', fun hs' => ⟨s', rfl, hs'⟩⟩
  rw [hok, hevents]
  by_cases hbreak : b &&& 0x80 ≠ 0
  · have hevent : eventOf (extendedAfter false bytes) b = ⟨⟨extendedAfter false bytes, b &&& 0x7F⟩, true⟩ := by
      rw [eventOf, decide_eq_true hbreak]
    rw [hevent] at hdecodes ⊢
    simp only [hflags, if_pos hbreak, held_released, Bool.and_eq_true, h.flags, Bool.not_eq_true',
      decide_eq_false_iff_not, ← hdecodes]
    constructor
    · intro hall
      refine ⟨.inr hin, fun _ _ m hm k hne hk hheld => ?_⟩
      rw [hevent] at hm hne
      exact ((hall m).mpr ⟨k, hk, hheld, hne⟩).2 hm
    · intro hb m
      constructor
      · rintro ⟨⟨k, hk, hheld⟩, hm⟩
        exact ⟨k, hk, hheld, fun heq => hm (heq ▸ hk)⟩
      · rintro ⟨k, hk, hheld, hne⟩
        refine ⟨⟨k, hk, hheld⟩, fun hm => ?_⟩
        have hunshared := hb.unshared hext
        rw [hevent] at hunshared
        exact hunshared rfl m hm k hne hk hheld
  · have hevent : eventOf (extendedAfter false bytes) b = ⟨⟨extendedAfter false bytes, b &&& 0x7F⟩, false⟩ := by
      rw [eventOf, decide_eq_false hbreak]
    rw [hevent] at hdecodes ⊢
    simp only [hflags, if_neg hbreak, held_pressed, Bool.or_eq_true, h.flags, decide_eq_true_eq, ← hdecodes]
    constructor
    · intro _
      refine ⟨.inr hin, fun _ hreleased => ?_⟩
      rw [hevent] at hreleased
      exact absurd hreleased Bool.false_ne_true
    · intro _ m
      constructor
      · rintro (⟨k, hk, hheld⟩ | hm)
        · exact ⟨k, hk, .inr hheld⟩
        · exact ⟨_, hm, .inl rfl⟩
      · rintro ⟨k, hk, rfl | hheld⟩
        · exact .inr hk
        · exact .inl ⟨k, hk, hheld⟩

end Steps

/-! ### Runs -/

theorem keyboardRun_snoc (bytes : List BYTE) (b : BYTE) :
    keyboardRun (bytes ++ [b]) = keyboardRun bytes >>= fun s => keyboardIsr s b := by
  unfold keyboardRun
  rw [List.foldlM_append]
  refine congrArg (keyboardRun bytes >>= ·) (funext fun s => ?_)
  rw [List.foldlM_cons]
  exact bind_pure _

theorem keyboardIsr_extended {s s' : KeyboardData} {b : BYTE} (h : keyboardIsr s b = .ok s') :
    s'.extendedCode = decide (IsExtension b) := by
  by_cases hext : IsExtension b
  · rw [keyboardIsr_extension hext] at h
    cases h
    exact (decide_eq_true hext).symm
  · by_cases hin : (b &&& 0x7F).toNat ≤ 0x58
    · obtain ⟨s'', hrun, hfalse, -⟩ := keyboardIsr_key (s := s) hext
        (List.getElem?_eq_getElem (by rw [scancodes_length]; omega))
      rw [hrun] at h
      cases h
      rw [hfalse, decide_eq_false hext]
    · rw [keyboardIsr_outside hext hin] at h
      exact absurd h nofun

/-- A run that goes right up to a byte, and that byte. -/
theorem followsKeys_snoc {bytes : List BYTE} {s : KeyboardData} (hrun : keyboardRun bytes = .ok s)
    (h : Follows bytes s) (b : BYTE) :
    (FollowsKeys (bytes ++ [b]) ↔ FollowedByte bytes b) ∧
      (FollowedByte bytes b → ∃ s', keyboardRun (bytes ++ [b]) = .ok s' ∧ Follows (bytes ++ [b]) s') := by
  have hstep := h.step b
  have hsnoc : keyboardRun (bytes ++ [b]) = keyboardIsr s b := by
    rw [keyboardRun_snoc, hrun]
    rfl
  refine ⟨?_, fun hb => ?_⟩
  · unfold FollowsKeys
    rw [hsnoc]
    exact hstep
  · obtain ⟨s', hs', hflags⟩ := hstep.mpr hb
    exact ⟨s', hsnoc.trans hs', by rw [extendedAfter_snoc, keyboardIsr_extended hs'], hflags⟩

theorem exists_follows {bytes : List BYTE} (hall : ∀ part b, part ++ [b] <+: bytes → FollowedByte part b) :
    ∃ s, keyboardRun bytes = .ok s ∧ Follows bytes s := by
  induction bytes using List.reverseRecOn with
  | nil => exact ⟨_, rfl, follows_initialized⟩
  | append_singleton bytes b ih =>
    obtain ⟨s, hrun, h⟩ := ih fun part c hpart => hall part c (hpart.trans (List.prefix_append _ _))
    exact (followsKeys_snoc hrun h b).2 (hall bytes b (List.prefix_refl _))

/-- The property holds after every part of a sequence exactly if every byte of it meets the condition. -/
theorem followsKeys_iff (bytes : List BYTE) :
    (∀ part, part <+: bytes → FollowsKeys part) ↔
      ∀ part b, part ++ [b] <+: bytes → FollowedByte part b := by
  constructor
  · induction bytes using List.reverseRecOn with
    | nil =>
      intro _ part b hpart
      exact absurd (List.prefix_nil.mp hpart) (by simp)
    | append_singleton bytes b ih =>
      intro hall part c hpart
      have hbytes := ih fun part hpart => hall part (hpart.trans (List.prefix_append _ _))
      rcases List.prefix_concat_iff.mp hpart with heq | hpart
      · obtain ⟨rfl, hlast⟩ := List.append_inj' heq rfl
        cases hlast
        obtain ⟨s, hrun, h⟩ := exists_follows hbytes
        exact (followsKeys_snoc hrun h _).1.mp (hall _ (List.prefix_refl _))
      · exact hbytes part c hpart
  · intro hall part hpart
    obtain ⟨s, hrun, h⟩ := exists_follows fun before b hbefore => hall before b (hbefore.trans hpart)
    exact ⟨s, hrun, h.flags⟩

/-- Both shift keys are pressed and the left one is released: the right one is held, and Shift is off. -/
theorem not_followsKeys : ¬∀ bytes, FollowsKeys bytes := by
  intro hall
  obtain ⟨s, hrun, hflags⟩ := hall [0x2A, 0x36, 0xAA]
  have hs : keyboardRun [0x2A, 0x36, 0xAA] =
      .ok ⟨keyRshift, false, false, false, false, false, false, true, false, [0xED, 0]⟩ := rfl
  rw [hs] at hrun
  cases hrun
  have hshift := (hflags .shift).mpr ⟨⟨false, 0x36⟩, ⟨keyRshift, rfl, rfl⟩, 1, rfl, fun j hj => ?_⟩
  · exact absurd hshift Bool.false_ne_true
  · match j with
    | 2 => decide
    | j + 3 => exact nofun

end HAL9000.Console
