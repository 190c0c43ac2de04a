import HAL9000.CommonLib.Base
import HAL9000.Lib.Run
import Mathlib.Data.List.Nodup
import Mathlib.Logic.Function.Basic

/-! The stack of `stack_dynamic.c`, which is linked through the items on it. -/
namespace HAL9000

variable {ν : Type} [DecidableEq ν]

/-- What the items hold in `Next`; an item that may not be accessed has none. -/
abbrev EntryLinks (ν : Type) := ν → Option (Option ν)

def readNext (m : EntryLinks ν) (entry : ν) : Except Fault (Option ν) :=
  match m entry with
  | some next => .ok next
  | none => .error .danglingAccess

def writeNext (m : EntryLinks ν) (entry : ν) (next : Option ν) : Except Fault (EntryLinks ν) :=
  match m entry with
  | some _ => .ok (Function.update m entry (some next))
  | none => .error .danglingAccess

/-- The first entry and the head behind it. -/
def clPopEntryList (m : EntryLinks ν) (listHead : Option ν) : Except Fault (Option ν × Option ν) :=
  match listHead with
  | none => .ok (none, none)
  | some firstEntry => do return (some firstEntry, ← readNext m firstEntry)

def clPushEntryList (m : EntryLinks ν) (listHead : Option ν) (entry : ν) : Except Fault (EntryLinks ν × Option ν) := do
  return (← writeNext m entry listHead, some entry)

structure Stack (ν : Type) where
  topOfStack : Option ν
  numberOfElements : DWORD

def stackDynamicInit : Stack ν := ⟨none, 0⟩

def stackDynamicPush (m : EntryLinks ν) (s : Stack ν) (item : ν) : Except Fault (Bool × EntryLinks ν × Stack ν) := do
  let (m, top) ← clPushEntryList m s.topOfStack item
  assertThat (s.numberOfElements < maxDword)
  return (true, m, ⟨top, s.numberOfElements + 1⟩)

def stackDynamicPop (m : EntryLinks ν) (s : Stack ν) : Except Fault (Option ν × Stack ν) := do
  let (entry, top) ← clPopEntryList m s.topOfStack
  match entry with
  | none => return (none, ⟨top, s.numberOfElements⟩)
  | some item =>
    assertThat (0 < s.numberOfElements)
    return (some item, ⟨top, s.numberOfElements - 1⟩)

/-- The loop of `StackDynamicPeek` with the steps that are left. -/
def peekLoop (m : EntryLinks ν) : ℕ → Option ν → Except Fault (Option ν)
  | 0, item => .ok item
  | _ + 1, none => .ok none
  | n + 1, some item => do peekLoop m n (← readNext m item)

def stackDynamicPeek (m : EntryLinks ν) (s : Stack ν) (index : DWORD) : Except Fault (Option ν) :=
  if s.numberOfElements ≤ index then .ok none
  else do
    let item ← peekLoop m index.toNat s.topOfStack
    assertThat (item ≠ none)
    return item

def stackDynamicIsEmpty (s : Stack ν) : Bool := s.topOfStack = none

def stackDynamicSize (s : Stack ν) : DWORD := s.numberOfElements

/-- The items that were passed to `FreeFunction`, in order. An item may not be accessed after that. -/
def stackDynamicClear (hasFreeFunction : Bool) :
    ℕ → EntryLinks ν → Stack ν → Except Fault (List ν × EntryLinks ν × Stack ν)
  | 0, _, _ => .error .outOfFuel
  | fuel + 1, m, s =>
    if stackDynamicIsEmpty s then .ok ([], m, s)
    else do
      let (item, s) ← stackDynamicPop m s
      match item with
      | none => .error .assertFailed
      | some item =>
        if hasFreeFunction then
          let (freed, m, s) ← stackDynamicClear hasFreeFunction fuel (Function.update m item none) s
          return (item :: freed, m, s)
        else stackDynamicClear hasFreeFunction fuel m s

/-- The calls, and what happens to an item while it is not on the stack: it is written to, released or allocated. -/
inductive StackOperation (ν : Type)
  | push (item : ν)
  | pop
  | peek (index : DWORD)
  | clear (hasFreeFunction : Bool)
  | isEmpty
  | size
  | elsewhere (item : ν) (next : Option (Option ν))

inductive StackResult (ν : Type)
  | void
  | boolean (b : Bool)
  | item (e : Option ν)
  | freed (items : List ν)
  | dword (n : DWORD)
  deriving DecidableEq

def StackOperation.run (fuel : ℕ) (m : EntryLinks ν) (s : Stack ν) :
    StackOperation ν → Except Fault (StackResult ν × EntryLinks ν × Stack ν)
  | .push item => do
    let (success, m, s) ← stackDynamicPush m s item
    return (.boolean success, m, s)
  | .pop => do
    let (item, s) ← stackDynamicPop m s
    return (.item item, m, s)
  | .peek index => do return (.item (← stackDynamicPeek m s index), m, s)
  | .clear hasFreeFunction => do
    let (freed, m, s) ← stackDynamicClear hasFreeFunction fuel m s
    return (.freed freed, m, s)
  | .isEmpty => .ok (.boolean (stackDynamicIsEmpty s), m, s)
  | .size => .ok (.dword (stackDynamicSize s), m, s)
  | .elsewhere item next => .ok (.void, Function.update m item next, s)

/-- What an operation returns and does for the list of the items on the stack, from the top down. -/
def StackOperation.act (l : List ν) : StackOperation ν → StackResult ν × List ν
  | .push item => (.boolean true, item :: l)
  | .pop => (.item l.head?, l.tail)
  | .peek index => (.item l[index.toNat]?, l)
  | .clear hasFreeFunction => (.freed (if hasFreeFunction then l else []), [])
  | .isEmpty => (.boolean l.isEmpty, l)
  | .size => (.dword (BitVec.ofNat 32 l.length), l)
  | .elsewhere _ _ => (.void, l)

/-- What the callers have to see to: an item that is pushed is not on the stack, and there is room in the counter; an
item on the stack is left alone. -/
def StackOperation.Allowed (m : EntryLinks ν) (l : List ν) : StackOperation ν → Prop
  | .push item => item ∉ l ∧ (m item).isSome ∧ l.length < 2 ^ 32 - 1
  | .elsewhere item _ => item ∉ l
  | .pop | .peek _ | .clear _ | .isEmpty | .size => True

/-- The links lead through the items. -/
def StackLinked (m : EntryLinks ν) : Option ν → List ν → Prop
  | top, [] => top = none
  | top, e :: l => top = some e ∧ ∃ next, m e = some next ∧ StackLinked m next l

structure StackHolds (m : EntryLinks ν) (s : Stack ν) (l : List ν) : Prop where
  linked : StackLinked m s.topOfStack l
  nodup : l.Nodup
  count : s.numberOfElements.toNat = l.length

section Refinement

variable {m m' : EntryLinks ν} {s : Stack ν} {top : Option ν} {e : ν} {l : List ν} {next : Option (Option ν)}

omit [DecidableEq ν] in
/-- Only the items on the stack matter. -/
theorem StackLinked.congr (h : StackLinked m top l) (hm : ∀ x ∈ l, m' x = m x) : StackLinked m' top l := by
  induction l generalizing top with
  | nil => exact h
  | cons x l ih =>
    obtain ⟨htop, next, hnext, hl⟩ := h
    refine ⟨htop, next, (hm x List.mem_cons_self).trans hnext, ih hl fun y hy => hm y (List.mem_cons_of_mem x hy)⟩

theorem StackLinked.update (h : StackLinked m top l) (he : e ∉ l) : StackLinked (Function.update m e next) top l :=
  h.congr fun x hx => Function.update_of_ne (fun heq : x = e => he (heq ▸ hx)) ..

omit [DecidableEq ν] in
theorem StackLinked.isEmpty_iff (h : StackLinked m top l) : top = none ↔ l = [] := by
  cases l with
  | nil => exact iff_of_true h rfl
  | cons x l => simp [h.1]

theorem StackHolds.push (h : StackHolds m s l) (he : e ∉ l) (hm : (m e).isSome) (hl : l.length < 2 ^ 32 - 1) :
    ∃ m' s', stackDynamicPush m s e = .ok (true, m', s') ∧ StackHolds m' s' (e :: l) := by
  obtain ⟨old, hold⟩ := Option.isSome_iff_exists.mp hm
  have hroom : s.numberOfElements < maxDword := by
    rw [BitVec.lt_def, h.count]
    exact hl
  refine ⟨Function.update m e (some s.topOfStack), ⟨some e, s.numberOfElements + 1⟩, ?_, ⟨rfl, s.topOfStack, ?_, ?_⟩,
    List.nodup_cons.mpr ⟨he, h.nodup⟩, ?_⟩
  · unfold stackDynamicPush clPushEntryList writeNext
    rw [hold]
    simp only [bind, Except.bind]
    rw [assertThat_of hroom]
    rfl
  · exact Function.update_self ..
  · exact h.linked.update he
  · rw [toNat_add_one (by rw [h.count]; omega), h.count]
    rfl

omit [DecidableEq ν] in
theorem StackHolds.pop (h : StackHolds m s (e :: l)) :
    ∃ s', stackDynamicPop m s = .ok (some e, s') ∧ StackHolds m s' l := by
  obtain ⟨htop, next, hnext, hl⟩ := h.linked
  have hcount := h.count
  rw [List.length_cons] at hcount
  have hpos : 0 < s.numberOfElements := by
    rw [BitVec.lt_def, hcount]
    exact Nat.succ_pos _
  refine ⟨⟨next, s.numberOfElements - 1⟩, ?_, hl, (List.nodup_cons.mp h.nodup).2, ?_⟩
  · unfold stackDynamicPop clPopEntryList readNext
    rw [htop]
    simp only [bind, Except.bind, hnext, pure, Except.pure]
    rw [assertThat_of hpos]
  · have hone : (1 : DWORD) ≤ s.numberOfElements := by
      rw [BitVec.le_def, hcount]
      exact Nat.succ_le_succ (Nat.zero_le _)
    rw [BitVec.toNat_sub_of_le hone, hcount]
    rfl

omit [DecidableEq ν] in
theorem StackHolds.pop_empty (h : StackHolds m s []) : stackDynamicPop m s = .ok (none, s) := by
  have htop : s.topOfStack = none := h.linked
  obtain ⟨top, count⟩ := s
  cases htop
  rfl

omit [DecidableEq ν] in
theorem peekLoop_eq (h : StackLinked m top l) (n : ℕ) : peekLoop m n top = .ok l[n]? := by
  induction n generalizing top l with
  | zero =>
    cases l with
    | nil => rw [h.isEmpty_iff.mpr rfl]; rfl
    | cons x l => rw [h.1]; rfl
  | succ n ih =>
    cases l with
    | nil => rw [h.isEmpty_iff.mpr rfl]; rfl
    | cons x l =>
      obtain ⟨rfl, next, hnext, hl⟩ := h
      unfold peekLoop readNext
      rw [hnext]
      exact ih hl

omit [DecidableEq ν] in
theorem StackHolds.peek (h : StackHolds m s l) (index : DWORD) : stackDynamicPeek m s index = .ok l[index.toNat]? := by
  unfold stackDynamicPeek
  by_cases hle : s.numberOfElements ≤ index
  · rw [if_pos hle, List.getElem?_eq_none]
    rw [BitVec.le_def, h.count] at hle
    exact hle
  · have hlt : index.toNat < l.length := by
      rw [BitVec.le_def, h.count] at hle
      omega
    have hsome : l[index.toNat]? ≠ none := by simpa using hlt
    rw [if_neg hle, peekLoop_eq h.linked]
    simp only [bind, Except.bind]
    rw [assertThat_of hsome]
    rfl

/-- Every item is taken from the stack before it is passed on. -/
theorem StackHolds.clear (h : StackHolds m s l) (hasFreeFunction : Bool) :
    ∃ m' s', (∀ fuel > l.length, stackDynamicClear hasFreeFunction fuel m s =
      .ok (if hasFreeFunction then l else [], m', s')) ∧ StackHolds m' s' [] := by
  induction l generalizing m s with
  | nil =>
    have hempty : stackDynamicIsEmpty s = true := decide_eq_true h.linked
    refine ⟨m, s, fun fuel hfuel => ?_, h⟩
    obtain ⟨fuel, rfl⟩ := Nat.exists_eq_add_one.mpr hfuel
    rw [stackDynamicClear, if_pos hempty, ite_self]
  | cons e l ih =>
    have hnot : ¬ stackDynamicIsEmpty s = true := by
      intro hempty
      have htop := of_decide_eq_true hempty
      rw [h.linked.1] at htop
      cases htop
    obtain ⟨s₁, hpop, hrest⟩ := h.pop
    cases hasFreeFunction with
    | true =>
      have hfree : StackHolds (Function.update m e none) s₁ l :=
        ⟨hrest.linked.update (List.nodup_cons.mp h.nodup).1, hrest.nodup, hrest.count⟩
      obtain ⟨m', s', hclear, hdone⟩ := ih hfree
      refine ⟨m', s', fun fuel hfuel => ?_, hdone⟩
      obtain ⟨fuel, rfl⟩ := Nat.exists_eq_add_one.mpr (Nat.zero_lt_of_lt hfuel)
      rw [stackDynamicClear, if_neg hnot, hpop]
      simp only [bind, Except.bind, if_true]
      rw [hclear fuel (Nat.lt_of_succ_lt_succ hfuel)]
      rfl
    | false =>
      obtain ⟨m', s', hclear, hdone⟩ := ih hrest
      refine ⟨m', s', fun fuel hfuel => ?_, hdone⟩
      obtain ⟨fuel, rfl⟩ := Nat.exists_eq_add_one.mpr (Nat.zero_lt_of_lt hfuel)
      rw [stackDynamicClear, if_neg hnot, hpop]
      exact hclear fuel (Nat.lt_of_succ_lt_succ hfuel)

/-- An operation that is allowed returns what it does for the list. -/
theorem StackHolds.run (h : StackHolds m s l) {op : StackOperation ν} (hop : op.Allowed m l) :
    ∃ m' s', (∀ fuel > l.length, op.run fuel m s = .ok ((op.act l).1, m', s')) ∧ StackHolds m' s' (op.act l).2 := by
  cases op with
  | push item =>
    obtain ⟨he, hm, hl⟩ := hop
    obtain ⟨m', s', hcall, hholds⟩ := h.push he hm hl
    refine ⟨m', s', fun fuel _ => ?_, hholds⟩
    rw [StackOperation.run, hcall]
    rfl
  | pop =>
    cases l with
    | nil =>
      refine ⟨m, s, fun fuel _ => ?_, h⟩
      rw [StackOperation.run, h.pop_empty]
      rfl
    | cons e l =>
      obtain ⟨s', hcall, hholds⟩ := h.pop
      refine ⟨m, s', fun fuel _ => ?_, hholds⟩
      rw [StackOperation.run, hcall]
      rfl
  | peek index =>
    refine ⟨m, s, fun fuel _ => ?_, h⟩
    rw [StackOperation.run, h.peek index]
    rfl
  | clear hasFreeFunction =>
    obtain ⟨m', s', hcall, hholds⟩ := h.clear hasFreeFunction
    refine ⟨m', s', fun fuel hfuel => ?_, hholds⟩
    rw [StackOperation.run, hcall fuel hfuel]
    rfl
  | isEmpty =>
    refine ⟨m, s, fun fuel _ => ?_, h⟩
    have hempty : stackDynamicIsEmpty s = l.isEmpty := by
      rw [Bool.eq_iff_iff, List.isEmpty_iff, ← h.linked.isEmpty_iff]
      exact decide_eq_true_iff
    rw [StackOperation.run, hempty]
    rfl
  | size =>
    refine ⟨m, s, fun fuel _ => ?_, h⟩
    have hsize : stackDynamicSize s = BitVec.ofNat 32 l.length := by
      rw [← h.count, BitVec.ofNat_toNat, BitVec.setWidth_eq]
      rfl
    rw [StackOperation.run, hsize]
    rfl
  | elsewhere item next =>
    exact ⟨_, s, fun fuel _ => rfl, h.linked.update hop, h.nodup, h.count⟩

end Refinement

/-- The memory and the stack, with the list that the operations so far have left. -/
abbrev StackState (ν : Type) := (EntryLinks ν × Stack ν) × List ν

/-- The call returns, given enough steps. -/
def StackOperation.Returns (op : StackOperation ν) (s : EntryLinks ν × Stack ν) (r : StackResult ν)
    (s' : EntryLinks ν × Stack ν) : Prop := ∃ bound, ∀ fuel > bound, op.run fuel s.1 s.2 = .ok (r, s')

def StackDynamicStep (s : StackState ν) (op : StackOperation ν) (s' : StackState ν) : Prop :=
  op.Allowed s.1.1 s.2 ∧ (∃ r, op.Returns s.1 r s'.1) ∧ s'.2 = (op.act s.2).2

/-- The stack holds the list in every state of every run from its initialization on, and every operation that is
allowed there returns what it does for the list. -/
theorem stackDynamic_refines (m : EntryLinks ν) {tr : List (StackState ν × StackOperation ν)} {s : StackState ν}
    (hrun : Run.Exec StackDynamicStep ((m, stackDynamicInit), []) tr s) :
    Run.Always (fun s => StackHolds s.1.1 s.1.2 s.2 ∧
      ∀ op : StackOperation ν, op.Allowed s.1.1 s.2 → ∃ s', op.Returns s.1 (op.act s.2).1 s') tr s := by
  have hholds : Run.Always (fun s : StackState ν => StackHolds s.1.1 s.1.2 s.2) tr s := by
    refine hrun.always ⟨rfl, List.nodup_nil, rfl⟩ ?_
    rintro ⟨⟨m, s⟩, l⟩ op ⟨⟨m', s'⟩, l'⟩ hs ⟨hop, ⟨r, bound, hreturns⟩, rfl⟩
    obtain ⟨m₁, s₁, hcall, hs₁⟩ := hs.run hop
    have hfuel : l.length + bound + 1 > l.length := by omega
    cases (hcall _ hfuel).symm.trans (hreturns _ (by omega))
    exact hs₁
  refine hholds.mono fun s hs => ⟨hs, fun op hop => ?_⟩
  obtain ⟨m', s', hcall, -⟩ := hs.run hop
  exact ⟨(m', s'), s.2.length, hcall⟩

/-- Two items are pushed and the last one is popped. -/
theorem stackDynamic_refines_pop : ∃ tr s,
    Run.Exec StackDynamicStep ((fun _ => some none, stackDynamicInit), []) tr s ∧
    tr.map Prod.snd = [StackOperation.push 7, .push 8, .pop, .size] ∧ s.2 = [7] ∧
    Run.Always (fun s => StackHolds s.1.1 s.1.2 s.2 ∧
      ∀ op : StackOperation ℕ, op.Allowed s.1.1 s.2 → ∃ s', op.Returns s.1 (op.act s.2).1 s') tr s := by
  have hpush : StackDynamicStep ((fun _ => some none, stackDynamicInit), []) (.push 7) (_, [7]) :=
    ⟨⟨by decide, rfl, by decide⟩, ⟨_, 0, fun _ _ => rfl⟩, rfl⟩
  have hpushes := @Run.Exec.snoc _ _ _ _ _ _ (_, [8, 7]) (StackOperation.push 8) (Run.Exec.nil.snoc hpush)
    ⟨⟨by decide, rfl, by decide⟩, ⟨_, 0, fun _ _ => rfl⟩, rfl⟩
  have hpop := @Run.Exec.snoc _ _ _ _ _ _ (_, [7]) StackOperation.pop hpushes ⟨trivial, ⟨_, 0, fun _ _ => rfl⟩, rfl⟩
  have hrun := @Run.Exec.snoc _ _ _ _ _ _ (_, [7]) StackOperation.size hpop ⟨trivial, ⟨_, 0, fun _ _ => rfl⟩, rfl⟩
  exact ⟨_, _, hrun, rfl, rfl, stackDynamic_refines _ hrun⟩

end HAL9000
