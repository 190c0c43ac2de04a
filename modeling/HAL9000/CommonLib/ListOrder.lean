import HAL9000.CommonLib.ListSequences
import HAL9000.Lib.Comparison

/-! Ordered lists of `list.c`: what a sequence of ordered insertions leaves, and the search that stops at the first
greater entry. -/
namespace HAL9000

open Ring Comparison

variable {ν : Type} [DecidableEq ν]

/-- `ASSERT(_ValidateListEntry(entry))`, in debug builds. -/
def assertValid (debug : Bool) (k : Links ν) (entry : ν) : Except Fault Unit :=
  if debug then assertThat (ValidateListEntry k entry) else .ok ()

def insertOrderedList (debug : Bool) (compareFunction : ν → ν → ℤ) (fuel : ℕ) (listHead : ν) (k : Links ν)
    (entry : ν) : Except Fault (Links ν) := do
  assertValid debug k listHead
  let pCurrentEntry ← insertOrderedLoop k listHead entry compareFunction fuel (k.flink listHead)
  assertValid debug k pCurrentEntry
  return insertTailList k pCurrentEntry entry

/-- `ListSearchForElement` with a compare function that leaves its context alone. -/
def searchList (debug : Bool) (compareFunction : ν → ν → ℤ) (fuel : ℕ) (k : Links ν)
    (listHead elementToSearchFor : ν) (isListOrdered : Bool) : Except Fault (Option ν) := do
  assertValid debug k listHead
  let (found, _) ← listSearchForElement k listHead isListOrdered
    (fun pCurEntry (_ : Unit) => (compareFunction pCurEntry elementToSearchFor, ())) fuel (k.flink listHead) ()
  return found

section Order

variable {k : Links ν} {h e x wanted : ν} {l l₁ l₂ es : List ν} {cmp : ν → ν → ℤ} {S : Set ν} {debug : Bool}
  {fuel : ℕ}

theorem assertValid_of_mem (hring : IsRing k h l) (hx : x ∈ h :: l) : assertValid debug k x = .ok () := by
  cases debug with
  | false => rfl
  | true => exact assertThat_of ⟨hring.blink_flink hx, hring.flink_blink hx⟩

/-- The loop passes the entries that are not greater. -/
theorem insertOrderedLoop_eq {a : ν} (hseg : Seg k a (l₁ ++ l₂) h) (hh : h ∉ l₁ ++ l₂)
    (hbefore : ∀ x ∈ l₁, ¬ cmp e x < 0) (hafter : ∀ x ∈ l₂, cmp e x < 0) (hfuel : l₁.length < fuel) :
    insertOrderedLoop k h e cmp fuel (k.flink a) = .ok (l₂.headD h) := by
  induction l₁ generalizing a fuel with
  | nil =>
    obtain ⟨fuel, rfl⟩ := Nat.exists_eq_add_one.mpr hfuel
    cases l₂ with
    | nil =>
      rw [hseg.1, insertOrderedLoop, if_pos rfl]
      rfl
    | cons x l₂ =>
      have hne : x ≠ h := fun heq => hh (heq ▸ List.mem_cons_self)
      rw [hseg.1, insertOrderedLoop, if_neg hne, if_pos (hafter x List.mem_cons_self)]
      rfl
  | cons x l₁ ih =>
    obtain ⟨fuel, rfl⟩ := Nat.exists_eq_add_one.mpr (Nat.zero_lt_of_lt hfuel)
    have hne : x ≠ h := fun heq => hh (heq ▸ List.mem_cons_self)
    rw [hseg.1, insertOrderedLoop, if_neg hne, if_neg (hbefore x List.mem_cons_self)]
    refine ih hseg.2.2 ?_ ?_ ?_
    · exact fun hmem => hh (List.mem_cons_of_mem x hmem)
    · exact fun y hy => hbefore y (List.mem_cons_of_mem x hy)
    · exact Nat.lt_of_succ_lt_succ hfuel

/-- Insertion before a node of the ring, or before its head. -/
theorem isRing_insertTailList (hring : IsRing k h (l₁ ++ l₂)) (he : e ∉ h :: (l₁ ++ l₂)) :
    IsRing (insertTailList k (l₂.headD h) e) h (l₁ ++ e :: l₂) := by
  have hseg : Seg k h l₁ (l₂.headD h) := by
    cases l₂ with
    | nil => exact (List.append_nil l₁) ▸ hring.seg
    | cons x l₂ => exact (seg_append.mp hring.seg).1
  have hmem : l₂.headD h ∈ l₁ ++ [l₂.headD h] := List.mem_append_right l₁ (List.mem_singleton_self _)
  rw [insertTailList_eq_insertAfter (hseg.flink_blink hmem), hseg.blink]
  exact hring.insertLast he

/-- One insertion into a sorted list. -/
theorem insertOrderedList_eq (hcmp : IsPreorder S cmp) (hring : IsRing k h l) (hsorted : Sorted cmp l)
    (hl : ∀ x ∈ l, x ∈ S) (heS : e ∈ S) (he : e ∉ h :: l) (hfuel : l.length < fuel) :
    ∃ k', insertOrderedList debug cmp fuel h k e = .ok k' ∧ IsRing k' h (insert cmp e l) := by
  obtain ⟨l₁, l₂, rfl, hinsert, hbefore, hafter⟩ := insert_split hcmp hsorted hl heS
  have hnot : ∀ x ∈ l₁, ¬ cmp e x < 0 := by
    intro x hx hlt
    have hgt := (hcmp.antisymm e heS x (hl x (List.mem_append_left l₂ hx))).mp hlt
    have := hbefore x hx
    omega
  have hnodup := List.nodup_cons.mp hring.nodup
  have hloop := insertOrderedLoop_eq hring.seg hnodup.1 hnot hafter
    (lt_of_le_of_lt (by rw [List.length_append]; omega) hfuel)
  have hcur : l₂.headD h ∈ h :: (l₁ ++ l₂) := by
    cases l₂ with
    | nil => exact List.mem_cons_self
    | cons x l₂ => simp
  refine ⟨insertTailList k (l₂.headD h) e, ?_, hinsert ▸ isRing_insertTailList hring he⟩
  unfold insertOrderedList
  rw [assertValid_of_mem hring List.mem_cons_self, hloop]
  simp only [bind, Except.bind]
  rw [assertValid_of_mem hring hcur]
  rfl

/-- The calls one after the other. -/
def insertAllOrdered (debug : Bool) (compareFunction : ν → ν → ℤ) (fuel : ℕ) (listHead : ν) (k : Links ν)
    (entries : List ν) : Except Fault (Links ν) :=
  entries.foldlM (insertOrderedList debug compareFunction fuel listHead) k

theorem insertAllOrdered_eq (hcmp : IsPreorder S cmp) (hring : IsRing k h l) (hsorted : Sorted cmp l)
    (hl : ∀ x ∈ l, x ∈ S) (hes : ∀ x ∈ es, x ∈ S) (hnodup : (h :: l ++ es).Nodup)
    (hfuel : l.length + es.length < fuel) :
    ∃ k' l', insertAllOrdered debug cmp fuel h k es = .ok k' ∧ IsRing k' h l' ∧ l'.Perm (l ++ es) ∧ Sorted cmp l' ∧
      ∀ x ∈ S, equals cmp x l' = equals cmp x l ++ equals cmp x es := by
  induction es generalizing k l with
  | nil => exact ⟨k, l, rfl, hring, by simp, hsorted, by simp [equals]⟩
  | cons e es ih =>
    have heS := hes e List.mem_cons_self
    have he : e ∉ h :: l := by
      intro hmem
      exact (List.nodup_append.mp hnodup).2.2 e hmem e List.mem_cons_self rfl
    rw [List.length_cons] at hfuel
    obtain ⟨k', hone, hring'⟩ := insertOrderedList_eq hcmp hring hsorted hl heS he
      (show l.length < fuel by omega)
    have hperm := perm_insert cmp e l
    have hl' : ∀ x ∈ insert cmp e l, x ∈ S := by
      intro x hx
      rcases List.mem_cons.mp (hperm.mem_iff.mp hx) with rfl | hx
      · exact heS
      · exact hl x hx
    have hmove : (insert cmp e l ++ es).Perm (l ++ e :: es) :=
      (hperm.append_right es).trans List.perm_middle.symm
    have hnodup' : (h :: insert cmp e l ++ es).Nodup := (hmove.cons h).nodup_iff.mpr hnodup
    obtain ⟨k'', l', hrest, hring'', hperm', hsorted', hequals⟩ :=
      ih hring' (sorted_insert hcmp hsorted hl heS) hl' (fun x hx => hes x (List.mem_cons_of_mem e hx)) hnodup'
        (by rw [hperm.length_eq, List.length_cons]; omega)
    refine ⟨k'', l', ?_, hring'', hperm'.trans hmove, hsorted', fun x hx => ?_⟩
    · unfold insertAllOrdered at hrest ⊢
      rw [List.foldlM_cons, hone]
      exact hrest
    · rw [hequals x hx, equals_insert hcmp hsorted hl heS hx, List.append_assoc]
      unfold equals
      rw [← List.filter_append]
      rfl

/-- With or without the early exit the search finds the first entry that is equal. -/
theorem listSearchForElement_eq (hcmp : IsPreorder S cmp) (isListOrdered : Bool) {a : ν} (hseg : Seg k a l h)
    (hh : h ∉ l) (hsorted : Sorted cmp l) (hl : ∀ x ∈ l, x ∈ S) (hwanted : wanted ∈ S) (hfuel : l.length < fuel) :
    listSearchForElement k h isListOrdered (fun x (_ : Unit) => (cmp x wanted, ())) fuel (k.flink a) () =
      .ok (l.find? fun x => cmp x wanted = 0, ()) := by
  induction l generalizing a fuel with
  | nil =>
    obtain ⟨fuel, rfl⟩ := Nat.exists_eq_add_one.mpr hfuel
    rw [hseg.1, listSearchForElement, if_pos rfl]
    rfl
  | cons x l ih =>
    obtain ⟨fuel, rfl⟩ := Nat.exists_eq_add_one.mpr (Nat.zero_lt_of_lt hfuel)
    have hne : x ≠ h := fun heq => hh (heq ▸ List.mem_cons_self)
    rw [hseg.1, listSearchForElement, if_neg hne]
    dsimp only
    by_cases heq : cmp x wanted = 0
    · rw [if_pos heq, List.find?_cons_of_pos (by simpa using heq)]
    · rw [if_neg heq, List.find?_cons_of_neg (by simpa using heq)]
      by_cases hgt : isListOrdered ∧ 0 < cmp x wanted
      · have hnone : l.find? (fun x => cmp x wanted = 0) = none := by
          refine List.find?_eq_none.mpr fun y hy => ?_
          simpa using ne_of_gt hcmp hsorted hl hwanted hgt.2 y (List.mem_cons_of_mem x hy)
        rw [if_pos hgt, hnone]
      · rw [if_neg hgt]
        refine ih hseg.2.2 ?_ (List.pairwise_cons.mp hsorted).2 ?_ (Nat.lt_of_succ_lt_succ hfuel)
        · exact fun hmem => hh (List.mem_cons_of_mem x hmem)
        · exact fun y hy => hl y (List.mem_cons_of_mem x hy)

theorem searchList_eq (hcmp : IsPreorder S cmp) (isListOrdered : Bool) (hring : IsRing k h l)
    (hsorted : Sorted cmp l) (hl : ∀ x ∈ l, x ∈ S) (hwanted : wanted ∈ S) (hfuel : l.length < fuel) :
    searchList debug cmp fuel k h wanted isListOrdered = .ok (l.find? fun x => cmp x wanted = 0) := by
  have hsearch := listSearchForElement_eq hcmp isListOrdered hring.seg (List.nodup_cons.mp hring.nodup).1 hsorted hl
    hwanted hfuel
  unfold searchList
  rw [assertValid_of_mem hring List.mem_cons_self]
  simp only [bind, Except.bind]
  rw [hsearch]
  rfl

end Order

/-- Entries that are inserted into an empty list one after the other form a sorted list, the equal ones in the order
of the calls. Both searches find the first of the entries that are equal to the one wanted, if there is one. -/
theorem orderedList_sorted_searched (debug : Bool) (compareFunction : ν → ν → ℤ) (entries : Set ν)
    (hcmp : IsPreorder entries compareFunction) (k : Links ν) (listHead : ν) (hempty : IsRing k listHead [])
    (inserted : List ν) (hentries : ∀ e ∈ inserted, e ∈ entries) (hnodup : (listHead :: inserted).Nodup) :
    ∃ fuel k' l, insertAllOrdered debug compareFunction fuel listHead k inserted = .ok k' ∧
      IsRing k' listHead l ∧ l.Perm inserted ∧ Sorted compareFunction l ∧
      (∀ x ∈ entries, equals compareFunction x l = equals compareFunction x inserted) ∧
      ∀ wanted ∈ entries, ∀ isListOrdered, searchList debug compareFunction fuel k' listHead wanted isListOrdered =
        .ok (l.find? fun e => compareFunction e wanted = 0) := by
  obtain ⟨k', l, hcalls, hring, hperm, hsorted, hequals⟩ := insertAllOrdered_eq hcmp hempty
    List.Pairwise.nil (by simp) hentries hnodup (Nat.lt_succ_self _)
  have hl : ∀ x ∈ l, x ∈ entries := fun x hx => hentries x (hperm.mem_iff.mp hx)
  refine ⟨_, k', l, hcalls, hring, hperm, hsorted, fun x hx => hequals x hx, fun wanted hwanted isListOrdered => ?_⟩
  refine searchList_eq hcmp isListOrdered hring hsorted hl hwanted ?_
  rw [hperm.length_eq, List.nil_append, List.length_nil]
  omega

/-- Numbers that are compared by their tens. -/
private def byTens (a b : ℕ) : ℤ := (a / 10 : ℕ) - (b / 10 : ℕ)

private def positive : Set ℕ := {n | 0 < n}

private theorem byTens_isPreorder : IsPreorder positive byTens := by
  constructor
  · intro a _ b _
    unfold byTens
    omega
  · intro a _ b _ c _
    unfold byTens
    omega

private theorem entries_positive : ∀ e ∈ [21, 15, 12, 27], e ∈ positive := by
  intro e he
  simp only [List.mem_cons, List.not_mem_nil, or_false] at he
  change 0 < e
  omega

theorem orderedList_sorted_searched_numbers :
    ∃ fuel k' l, insertAllOrdered true byTens fuel 0 (Links.single ⟨id, id⟩ 0) [21, 15, 12, 27] = .ok k' ∧
      IsRing k' 0 l ∧ l.Perm [21, 15, 12, 27] ∧ Sorted byTens l ∧
      (∀ x ∈ positive, equals byTens x l = equals byTens x [21, 15, 12, 27]) ∧
      ∀ wanted ∈ positive, ∀ isListOrdered, searchList true byTens fuel k' 0 wanted isListOrdered =
        .ok (l.find? fun e => byTens e wanted = 0) :=
  orderedList_sorted_searched true byTens positive byTens_isPreorder _ 0 (isRing_single _ 0) [21, 15, 12, 27]
    entries_positive (by decide)

end HAL9000
