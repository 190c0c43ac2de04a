import HAL9000.CommonLib.ListEntry
import HAL9000.Lib.Run

/-! The lists of `list.c` as sequences. Any number of lists share the links of a heap. -/
namespace HAL9000

open Ring

variable {ν : Type} [DecidableEq ν]

inductive ListOperation (ν : Type)
  | insertHead (listHead entry : ν)
  | insertTail (listHead entry : ν)
  | removeHead (listHead : ν)
  | removeTail (listHead : ν)
  | removeEntry (entry : ν)

inductive ListResult (ν : Type)
  | void
  | entry (e : ν)
  | empty (b : Bool)
  deriving DecidableEq

/-- The node that debug builds validate. -/
def ListOperation.validated : ListOperation ν → ν
  | .insertHead listHead _ | .insertTail listHead _ | .removeHead listHead | .removeTail listHead => listHead
  | .removeEntry entry => entry

def ListOperation.apply (k : Links ν) : ListOperation ν → ListResult ν × Links ν
  | .insertHead listHead entry => (.void, insertHeadList k listHead entry)
  | .insertTail listHead entry => (.void, insertTailList k listHead entry)
  | .removeHead listHead => (.entry (removeHeadList k listHead).1, (removeHeadList k listHead).2)
  | .removeTail listHead => (.entry (removeTailList k listHead).1, (removeTailList k listHead).2)
  | .removeEntry entry => (.empty (k.flink entry = k.blink entry), removeEntryList k entry)

/-- A call in a debug build or another one. -/
def ListOperation.run (debug : Bool) (k : Links ν) (op : ListOperation ν) : Except Fault (ListResult ν × Links ν) := do
  if debug then assertThat (ValidateListEntry k op.validated)
  return op.apply k

/-- The sequence of each list head. -/
abbrev Lists (ν : Type) := ν → Option (List ν)

/-- The entry is in no list, and no list head. -/
def Unlinked (lists : Lists ν) (entry : ν) : Prop := ∀ h l, lists h = some l → entry ∉ h :: l

/-- What an operation does to the sequences. Only unlinked entries are inserted and only linked ones removed. -/
inductive Acts (lists : Lists ν) : ListOperation ν → ListResult ν → Lists ν → Prop
  | insertHead {h e : ν} {l : List ν} (hl : lists h = some l) (he : Unlinked lists e) :
    Acts lists (.insertHead h e) .void (Function.update lists h (some (e :: l)))
  | insertTail {h e : ν} {l : List ν} (hl : lists h = some l) (he : Unlinked lists e) :
    Acts lists (.insertTail h e) .void (Function.update lists h (some (l ++ [e])))
  | removeHeadEmpty {h : ν} (hl : lists h = some []) : Acts lists (.removeHead h) (.entry h) lists
  | removeHead {h e : ν} {l : List ν} (hl : lists h = some (e :: l)) :
    Acts lists (.removeHead h) (.entry e) (Function.update lists h (some l))
  | removeTailEmpty {h : ν} (hl : lists h = some []) : Acts lists (.removeTail h) (.entry h) lists
  | removeTail {h e : ν} {l : List ν} (hl : lists h = some (l ++ [e])) :
    Acts lists (.removeTail h) (.entry e) (Function.update lists h (some l))
  | removeEntry {h e : ν} {l₁ l₂ : List ν} (hl : lists h = some (l₁ ++ e :: l₂)) :
    Acts lists (.removeEntry e) (.empty (l₁ ++ l₂ = [])) (Function.update lists h (some (l₁ ++ l₂)))

/-- What a caller has to see to. -/
def ListOperation.Allowed (lists : Lists ν) : ListOperation ν → Prop
  | .insertHead listHead entry | .insertTail listHead entry => (∃ l, lists listHead = some l) ∧ Unlinked lists entry
  | .removeHead listHead | .removeTail listHead => ∃ l, lists listHead = some l
  | .removeEntry entry => ∃ h l, lists h = some l ∧ entry ∈ l

/-- The links are disjoint rings with these sequences. -/
structure Represents (k : Links ν) (lists : Lists ν) : Prop where
  ring : ∀ h l, lists h = some l → IsRing k h l
  disjoint : ∀ h l h' l', lists h = some l → lists h' = some l' → h ≠ h' → ∀ x ∈ h :: l, x ∉ h' :: l'

/-- Every node that is linked is the neighbour of its neighbours, and there is one list head from which it is
reached. -/
structure WellLinked (k : Links ν) (lists : Lists ν) : Prop where
  valid : ∀ h l, lists h = some l → ∀ x ∈ h :: l, ValidateListEntry k x
  reached : ∀ h l, lists h = some l → ∀ x ∈ h :: l, ∃! h', (∃ l', lists h' = some l') ∧ ∃ n, k.flink^[n] h' = x

section Sequences

variable {k k' : Links ν} {lists lists' : Lists ν} {h e : ν} {l l' : List ν} {op : ListOperation ν} {r : ListResult ν}

theorem ListOperation.Allowed.acts (hop : op.Allowed lists) : ∃ r lists', Acts lists op r lists' := by
  cases op with
  | insertHead h e =>
    obtain ⟨⟨l, hl⟩, he⟩ := hop
    exact ⟨_, _, .insertHead hl he⟩
  | insertTail h e =>
    obtain ⟨⟨l, hl⟩, he⟩ := hop
    exact ⟨_, _, .insertTail hl he⟩
  | removeHead h =>
    obtain ⟨l, hl⟩ := hop
    cases l with
    | nil => exact ⟨_, _, .removeHeadEmpty hl⟩
    | cons e l => exact ⟨_, _, .removeHead hl⟩
  | removeTail h =>
    obtain ⟨l, hl⟩ := hop
    rcases List.eq_nil_or_concat l with rfl | ⟨l, e, rfl⟩
    · exact ⟨_, _, .removeTailEmpty hl⟩
    · rw [List.concat_eq_append] at hl
      exact ⟨_, _, .removeTail hl⟩
  | removeEntry e =>
    obtain ⟨h, l, hl, he⟩ := hop
    obtain ⟨l₁, l₂, rfl⟩ := List.append_of_mem he
    exact ⟨_, _, .removeEntry hl⟩

theorem Represents.wellLinked (hk : Represents k lists) : WellLinked k lists := by
  refine ⟨fun h l hl x hx => ⟨(hk.ring h l hl).blink_flink hx, (hk.ring h l hl).flink_blink hx⟩, ?_⟩
  intro h l hl x hx
  refine ⟨h, ⟨⟨l, hl⟩, (hk.ring h l hl).mem_iff_reaches.mp hx⟩, ?_⟩
  rintro h' ⟨⟨l', hl'⟩, hreaches⟩
  by_contra hne
  exact hk.disjoint h l h' l' hl hl' (Ne.symm hne) x hx ((hk.ring h' l' hl').mem_iff_reaches.mpr hreaches)

/-- One list changes, and may take nodes that were not linked. -/
theorem Represents.update (hk : Represents k lists) (hl : lists h = some l) (hring : IsRing k' h l')
    (hnew : ∀ x ∈ h :: l', x ∈ h :: l ∨ Unlinked lists x)
    (hother : ∀ h' m, h' ≠ h → lists h' = some m → IsRing k' h' m) :
    Represents k' (Function.update lists h (some l')) := by
  have hapart : ∀ h' m, h' ≠ h → lists h' = some m → ∀ x ∈ h :: l', x ∉ h' :: m := by
    intro h' m hne hm x hx hmem
    rcases hnew x hx with hold | hunlinked
    · exact hk.disjoint h l h' m hl hm (Ne.symm hne) x hold hmem
    · exact hunlinked h' m hm hmem
  constructor
  · intro h₁ m hm
    by_cases heq : h₁ = h
    · subst heq
      rw [Function.update_self, Option.some_inj] at hm
      exact hm ▸ hring
    · rw [Function.update_of_ne heq] at hm
      exact hother h₁ m heq hm
  · intro h₁ m₁ h₂ m₂ hm₁ hm₂ hne x hx
    by_cases heq₁ : h₁ = h
    · subst heq₁
      rw [Function.update_self, Option.some_inj] at hm₁
      rw [Function.update_of_ne (Ne.symm hne)] at hm₂
      exact hapart h₂ m₂ (Ne.symm hne) hm₂ x (hm₁ ▸ hx)
    · rw [Function.update_of_ne heq₁] at hm₁
      by_cases heq₂ : h₂ = h
      · subst heq₂
        rw [Function.update_self, Option.some_inj] at hm₂
        exact fun hmem => hapart h₁ m₁ heq₁ hm₁ x (hm₂ ▸ hmem) hx
      · rw [Function.update_of_ne heq₂] at hm₂
        exact hk.disjoint h₁ m₁ h₂ m₂ hm₁ hm₂ hne x hx

/-! ### The operations on one ring -/

/-- Insertion before a node that is linked. -/
theorem insertTailList_eq_insertAfter (hnext : k.flink (k.blink h) = h) :
    insertTailList k h e = k.insertAfter (k.blink h) e := by
  unfold insertTailList Links.insertAfter
  rw [hnext]
  rfl

theorem insertTailList_eq (hring : IsRing k h l) (e : ν) :
    insertTailList k h e = k.insertAfter ((h :: l).getLast (List.cons_ne_nil h l)) e := by
  rw [insertTailList_eq_insertAfter (hring.flink_blink List.mem_cons_self), hring.seg.blink]

theorem removeHeadList_eq (hring : IsRing k h (e :: l)) : removeHeadList k h = (e, k.unlink e) := by
  obtain ⟨hnext, hback, -⟩ := hring.seg
  unfold removeHeadList Links.unlink
  dsimp only
  rw [hnext, hback]

theorem removeTailList_eq (hring : IsRing k h (l ++ [e])) : removeTailList k h = (e, k.unlink e) := by
  have hback : k.blink h = e := by
    rw [hring.seg.blink]
    exact List.getLast_append_singleton (l := h :: l) ..
  have hnext : k.flink e = h := hback ▸ hring.flink_blink List.mem_cons_self
  unfold removeTailList Links.unlink
  dsimp only
  rw [hback, hnext]
  rfl

theorem setFlink_self (k : Links ν) (x : ν) : k.setFlink x (k.flink x) = k := by
  unfold Links.setFlink
  rw [Function.update_eq_self]

theorem setBlink_self (k : Links ν) (x : ν) : k.setBlink x (k.blink x) = k := by
  unfold Links.setBlink
  rw [Function.update_eq_self]

theorem removeHeadList_empty (hring : IsRing k h []) : removeHeadList k h = (h, k) := by
  obtain ⟨hnext, hback⟩ := hring.seg
  have hlinks : (k.setFlink h (k.flink h)).setBlink h (k.blink h) = k := by
    rw [setFlink_self, setBlink_self]
  rw [hnext, hback] at hlinks
  unfold removeHeadList
  dsimp only
  rw [hnext, hnext, hlinks]

theorem removeTailList_empty (hring : IsRing k h []) : removeTailList k h = (h, k) := by
  obtain ⟨hnext, hback⟩ := hring.seg
  have hlinks : (k.setBlink h (k.blink h)).setFlink h (k.flink h) = k := by
    rw [setBlink_self, setFlink_self]
  rw [hnext, hback] at hlinks
  unfold removeTailList
  dsimp only
  rw [hback, hback, hlinks]

omit [DecidableEq ν] in
/-- The neighbours are the same node exactly if the list becomes empty. -/
theorem neighbours_eq_iff {l₁ l₂ : List ν} (hring : IsRing k h (l₁ ++ e :: l₂)) :
    k.flink e = k.blink e ↔ l₁ ++ l₂ = [] := by
  obtain ⟨hfront, hback⟩ := seg_append.mp hring.seg
  have hnodup := hring.nodup
  have hnext := hback.flink
  have hprev := hfront.blink
  constructor
  · intro heq
    cases l₂ with
    | nil =>
      rcases List.eq_nil_or_concat l₁ with rfl | ⟨l₀, p, rfl⟩
      · rfl
      · rw [List.concat_eq_append] at hprev hnodup
        have hlast : k.blink e = p := hprev.trans (List.getLast_append_singleton (l := h :: l₀) ..)
        have hhead : k.flink e = h := hnext
        rw [hlast, hhead] at heq
        subst heq
        simp at hnodup
    | cons x l₂ =>
      have hx : k.flink e = x := hnext
      have hmem := hfront.blink_mem
      rw [← heq, hx] at hmem
      simp only [List.mem_cons] at hmem
      simp only [List.nodup_cons, List.mem_append, List.mem_cons, List.nodup_append] at hnodup
      grind
  · intro hempty
    obtain ⟨rfl, rfl⟩ := List.append_eq_nil_iff.mp hempty
    exact hnext.trans hprev.symm

/-- The links of the nodes that are not in the ring that changes. -/
theorem insertAfter_links (hring : IsRing k h l) {p x : ν} (hp : p ∈ h :: l) (hx : x ∉ h :: l) (hxe : x ≠ e) :
    (k.insertAfter p e).flink x = k.flink x ∧ (k.insertAfter p e).blink x = k.blink x :=
  ⟨insertAfter_flink hxe fun heq => hx (heq ▸ hp),
    insertAfter_blink hxe fun heq => hx (heq ▸ hring.flink_mem hp)⟩

theorem unlink_links (hring : IsRing k h l) {x : ν} (he : e ∈ h :: l) (hx : x ∉ h :: l) :
    (k.unlink e).flink x = k.flink x ∧ (k.unlink e).blink x = k.blink x :=
  ⟨unlink_flink fun heq => hx (heq ▸ hring.blink_mem he), unlink_blink fun heq => hx (heq ▸ hring.flink_mem he)⟩

/-- The links of the lists that do not hold a node are as they were. -/
def KeepsOthers (k k' : Links ν) (lists : Lists ν) (node : ν) : Prop :=
  ∀ h l, lists h = some l → node ∉ h :: l → ∀ x ∈ h :: l, k'.flink x = k.flink x ∧ k'.blink x = k.blink x

/-- A change inside one ring. -/
theorem Represents.changes (hk : Represents k lists) (hl : lists h = some l) {node : ν} (hnode : node ∈ h :: l)
    (hring : IsRing k' h l') (hnew : ∀ x ∈ h :: l', x ∈ h :: l ∨ Unlinked lists x)
    (hlinks : ∀ x, (∃ h' m, lists h' = some m ∧ x ∈ h' :: m) → x ∉ h :: l →
      k'.flink x = k.flink x ∧ k'.blink x = k.blink x) :
    Represents k' (Function.update lists h (some l')) ∧ KeepsOthers k k' lists node := by
  have hothers : ∀ h' m, h' ≠ h → lists h' = some m → ∀ x ∈ h' :: m,
      k'.flink x = k.flink x ∧ k'.blink x = k.blink x := fun h' m hne hm x hx =>
    hlinks x ⟨h', m, hm, hx⟩ (hk.disjoint h' m h l hm hl hne x hx)
  refine ⟨hk.update hl hring hnew fun h' m hne hm => ?_, fun h' m hm hnot x hx => hothers h' m ?_ hm x hx⟩
  · exact (hk.ring h' m hm).frame (fun x hx => (hothers h' m hne hm x hx).1) fun x hx =>
      (hothers h' m hne hm x hx).2
  · rintro rfl
    rw [hl, Option.some_inj] at hm
    exact hnot (hm ▸ hnode)

theorem Represents.inserts (hk : Represents k lists) (hl : lists h = some l) (he : Unlinked lists e) {p : ν}
    (hp : p ∈ h :: l) (hring : IsRing (k.insertAfter p e) h l') (hmem : ∀ x ∈ l', x = e ∨ x ∈ l) :
    Represents (k.insertAfter p e) (Function.update lists h (some l')) ∧
      KeepsOthers k (k.insertAfter p e) lists h := by
  refine hk.changes hl List.mem_cons_self hring (fun x hx => ?_) fun x hlinked hx => ?_
  · rcases List.mem_cons.mp hx with rfl | hx
    · exact Or.inl List.mem_cons_self
    · rcases hmem x hx with rfl | hx
      · exact Or.inr he
      · exact Or.inl (List.mem_cons_of_mem _ hx)
  · obtain ⟨h', m, hm, hx'⟩ := hlinked
    exact insertAfter_links (hk.ring h l hl) hp hx fun heq => he h' m hm (heq ▸ hx')

theorem Represents.removes (hk : Represents k lists) {l₁ l₂ : List ν} (hl : lists h = some (l₁ ++ e :: l₂))
    {node : ν} (hnode : node ∈ h :: (l₁ ++ e :: l₂)) :
    Represents (k.unlink e) (Function.update lists h (some (l₁ ++ l₂))) ∧
      KeepsOthers k (k.unlink e) lists node := by
  have hring := hk.ring h _ hl
  refine hk.changes hl hnode hring.unlink (fun x hx => Or.inl ?_) fun x _ hx => ?_
  · simp only [List.mem_cons, List.mem_append] at hx ⊢
    tauto
  · exact unlink_links hring (by simp) hx

/-- A call does to the links what the operation does to the sequences. -/
theorem Represents.apply (hk : Represents k lists) (hop : Acts lists op r lists') :
    ∃ k', op.apply k = (r, k') ∧ Represents k' lists' ∧ KeepsOthers k k' lists op.validated := by
  cases hop with
  | @insertHead h e l hl he =>
    have hring := hk.ring h l hl
    exact ⟨_, rfl, hk.inserts hl he List.mem_cons_self (hring.insertHead (he h l hl)) fun x hx => List.mem_cons.mp hx⟩
  | @insertTail h e l hl he =>
    have hring := hk.ring h l hl
    have hlast := @IsRing.insertLast ν _ k h e l [] (by rwa [List.append_nil]) (by
      rw [List.append_nil]
      exact he h l hl)
    refine ⟨_, congrArg (Prod.mk _) (insertTailList_eq hring e), hk.inserts hl he (List.getLast_mem _) hlast ?_⟩
    intro x hx
    rw [List.mem_append, List.mem_singleton] at hx
    exact hx.symm
  | @removeHeadEmpty h hl =>
    have hrun := removeHeadList_empty (hk.ring h [] hl)
    refine ⟨k, ?_, hk, fun _ _ _ _ _ _ => ⟨rfl, rfl⟩⟩
    rw [ListOperation.apply, hrun]
  | @removeHead h e l hl =>
    have hrun := removeHeadList_eq (hk.ring h _ hl)
    refine ⟨k.unlink e, ?_, @Represents.removes ν _ k lists h e hk [] l hl h List.mem_cons_self⟩
    rw [ListOperation.apply, hrun]
  | @removeTailEmpty h hl =>
    have hrun := removeTailList_empty (hk.ring h [] hl)
    refine ⟨k, ?_, hk, fun _ _ _ _ _ _ => ⟨rfl, rfl⟩⟩
    rw [ListOperation.apply, hrun]
  | @removeTail h e l hl =>
    have hrun := removeTailList_eq (hk.ring h _ hl)
    have hremoves := @Represents.removes ν _ k lists h e hk l [] hl h List.mem_cons_self
    rw [List.append_nil] at hremoves
    refine ⟨k.unlink e, ?_, hremoves⟩
    rw [ListOperation.apply, hrun]
  | @removeEntry h e l₁ l₂ hl =>
    refine ⟨k.unlink e, ?_, hk.removes hl (by simp [ListOperation.validated])⟩
    rw [ListOperation.apply, decide_eq_decide.mpr (neighbours_eq_iff (hk.ring h _ hl))]
    rfl

/-- The check of the debug builds passes. -/
theorem Represents.run (hk : Represents k lists) (hop : Acts lists op r lists') (debug : Bool) :
    ∃ k', op.run debug k = .ok (r, k') ∧ Represents k' lists' ∧ KeepsOthers k k' lists op.validated := by
  obtain ⟨k', hrun, hk', hkeeps⟩ := hk.apply hop
  have hvalid : ValidateListEntry k op.validated := by
    have hlinked := hk.wellLinked.valid
    cases hop with
    | insertHead hl => exact hlinked _ _ hl _ List.mem_cons_self
    | insertTail hl => exact hlinked _ _ hl _ List.mem_cons_self
    | removeHeadEmpty hl => exact hlinked _ _ hl _ List.mem_cons_self
    | removeHead hl => exact hlinked _ _ hl _ List.mem_cons_self
    | removeTailEmpty hl => exact hlinked _ _ hl _ List.mem_cons_self
    | removeTail hl => exact hlinked _ _ hl _ List.mem_cons_self
    | removeEntry hl => exact hlinked _ _ hl _ (by simp [ListOperation.validated])
  refine ⟨k', ?_, hk', hkeeps⟩
  unfold ListOperation.run
  cases debug with
  | false => exact congrArg Except.ok hrun
  | true =>
    rw [if_pos rfl, assertThat_of hvalid]
    exact congrArg Except.ok hrun

/-- The call returns, with the result and the sequences that the operation has. -/
def Executes (debug : Bool) (s : Links ν × Lists ν) (op : ListOperation ν) (s' : Links ν × Lists ν) : Prop :=
  ∃ r, op.run debug s.1 = .ok (r, s'.1) ∧ Acts s.2 op r s'.2 ∧ KeepsOthers s.1 s'.1 s.2 op.validated

theorem Represents.executes (hs : Represents k lists) (hacts : Acts lists op r lists') (debug : Bool) :
    ∃ k', Executes debug (k, lists) op (k', lists') ∧ Represents k' lists' := by
  obtain ⟨k', hcall, hk', hkeeps⟩ := hs.run hacts debug
  exact ⟨k', ⟨r, hcall, hacts, hkeeps⟩, hk'⟩

theorem Unlinked.update (he : Unlinked lists e) (hne : e ∉ h :: l) :
    Unlinked (Function.update lists h (some l)) e := by
  intro h' l' hl'
  rw [Function.update_apply] at hl'
  split_ifs at hl' with heq
  · cases hl'
    exact heq ▸ hne
  · exact he h' l' hl'

/-- In every state of every run the lists are well formed, and every call that is allowed has the result, and
leaves the lists, that it has on the sequences. -/
theorem lists_refine (debug : Bool) (hk : Represents k lists) {tr : List ((Links ν × Lists ν) × ListOperation ν)}
    {s : Links ν × Lists ν} (hrun : Run.Exec (Executes debug) (k, lists) tr s) :
    Run.Always (fun s => Represents s.1 s.2 ∧ WellLinked s.1 s.2 ∧
      ∀ op : ListOperation ν, op.Allowed s.2 → ∃ s', Executes debug s op s') tr s := by
  have hrepresents : Run.Always (fun s => Represents s.1 s.2) tr s := by
    refine hrun.always hk ?_
    rintro s op s' hs ⟨r, hcall, hacts, -⟩
    obtain ⟨k', hcall', hk', -⟩ := hs.run hacts debug
    cases hcall.symm.trans hcall'
    exact hk'
  refine hrepresents.mono fun s hs => ⟨hs, hs.wellLinked, fun op hop => ?_⟩
  obtain ⟨r, lists', hacts⟩ := hop.acts
  obtain ⟨k', hexecutes, -⟩ := hs.executes hacts debug
  exact ⟨(k', lists'), hexecutes⟩

/-- Node 0 is the head of an empty list. -/
def emptyList : Lists ℕ := fun h => if h = 0 then some [] else none

theorem represents_emptyList : Represents ⟨id, id⟩ emptyList := by
  have hhead : ∀ h l, emptyList h = some l → h = 0 ∧ l = [] := by
    intro h l hl
    unfold emptyList at hl
    split_ifs at hl with heq
    exact ⟨heq, (Option.some.inj hl).symm⟩
  constructor
  · intro h l hl
    obtain ⟨rfl, rfl⟩ := hhead h l hl
    exact ⟨by simp, rfl, rfl⟩
  · intro h l h' l' hl hl' hne
    exact absurd ((hhead h l hl).1.trans (hhead h' l' hl').1.symm) hne

/-- Entries at both ends of a list, of which the first one is removed. -/
theorem lists_refine_insertions : ∃ tr s, Run.Exec (Executes true) (⟨id, id⟩, emptyList) tr s ∧
    tr.map Prod.snd = [ListOperation.insertHead 0 1, .insertTail 0 2, .removeHead 0] ∧ s.2 0 = some [2] ∧
    Run.Always (fun s => Represents s.1 s.2 ∧ WellLinked s.1 s.2 ∧
      ∀ op : ListOperation ℕ, op.Allowed s.2 → ∃ s', Executes true s op s') tr s := by
  have hunlinked : ∀ e ≠ 0, Unlinked emptyList e := by
    intro e he h l hl
    unfold emptyList at hl
    split_ifs at hl with heq
    cases hl
    rw [heq]
    simpa using he
  obtain ⟨k₁, h₁, hk₁⟩ := represents_emptyList.executes (.insertHead (h := 0) rfl (hunlinked 1 (by decide))) true
  obtain ⟨k₂, h₂, hk₂⟩ := hk₁.executes
    (.insertTail (h := 0) (e := 2) rfl ((hunlinked 2 (by decide)).update (by decide))) true
  obtain ⟨k₃, h₃, -⟩ := hk₂.executes (.removeHead (h := 0) rfl) true
  have hexec := ((Run.Exec.nil.snoc h₁).snoc h₂).snoc h₃
  exact ⟨_, _, hexec, rfl, rfl, lists_refine true represents_emptyList hexec⟩

end Sequences

end HAL9000
