import HAL9000.CommonLib.ListOrder
import HAL9000.Io.Irp

/-! The status that `ForEachElementExecute` returns. The function that it is given may change its context, and leaves
the list alone. -/
namespace HAL9000

open Ring
open HAL9000.Io (STATUS succeeded statusSuccess statusHeapNoMoreMemory)

variable {ν γ : Type} [DecidableEq ν]

/-- The loop, with the status of the last invocation. -/
def forEachElementLoop (k : Links ν) (listHead : ν) (function : ν → γ → STATUS × γ) (allMustSucceed : Bool) :
    ℕ → ν → STATUS → γ → Except Fault (STATUS × γ)
  | 0, _, _, _ => .error .outOfFuel
  | fuel + 1, pCurListEntry, status, context =>
    if pCurListEntry = listHead then .ok (status, context)
    else
      let (status, context) := function pCurListEntry context
      if allMustSucceed ∧ !succeeded status then .ok (status, context)
      else forEachElementLoop k listHead function allMustSucceed fuel (k.flink pCurListEntry) status context

def forEachElementExecute (debug : Bool) (fuel : ℕ) (k : Links ν) (listHead : ν) (function : ν → γ → STATUS × γ)
    (context : γ) (allMustSucceed : Bool) : Except Fault (STATUS × γ) := do
  assertValid debug k listHead
  forEachElementLoop k listHead function allMustSucceed fuel (k.flink listHead) statusSuccess context

/-- The context after one invocation on each entry. -/
def contextAfter (function : ν → γ → STATUS × γ) : γ → List ν → γ
  | context, [] => context
  | context, e :: l => contextAfter function (function e context).2 l

/-- What the invocations return. -/
def statuses (function : ν → γ → STATUS × γ) : γ → List ν → List STATUS
  | _, [] => []
  | context, e :: l => (function e context).1 :: statuses function (function e context).2 l

/-- The entries up to the first one on which the function fails. -/
def throughFirstFailure (function : ν → γ → STATUS × γ) : γ → List ν → List ν
  | _, [] => []
  | context, e :: l =>
    if succeeded (function e context).1 then e :: throughFirstFailure function (function e context).2 l else [e]

/-- What the header says of a call: all invocations have to succeed, up to the first failure, or one of them on all
entries. -/
def ExecutesAsDocumented (debug : Bool) (k : Links ν) (listHead : ν) (function : ν → γ → STATUS × γ) (context : γ)
    (allMustSucceed : Bool) (l : List ν) : Prop :=
  ∀ fuel > l.length, ∃ status context',
    forEachElementExecute debug fuel k listHead function context allMustSucceed = .ok (status, context') ∧
    if allMustSucceed then
      (succeeded status ↔ ∀ s ∈ statuses function context l, succeeded s) ∧
        context' = contextAfter function context (throughFirstFailure function context l)
    else
      (succeeded status ↔ ∃ s ∈ statuses function context l, succeeded s) ∧ context' = contextAfter function context l

section Execution

variable {k : Links ν} {h a : ν} {l : List ν} {function : ν → γ → STATUS × γ} {context : γ} {status : STATUS}
  {debug : Bool} {fuel : ℕ}

/-- Without the test the loop ends with the last status. -/
theorem forEachElementLoop_all (hseg : Seg k a l h) (hh : h ∉ l) (hfuel : l.length < fuel) :
    forEachElementLoop k h function false fuel (k.flink a) status context =
      .ok ((statuses function context l).getLastD status, contextAfter function context l) := by
  induction l generalizing a fuel status context with
  | nil =>
    obtain ⟨fuel, rfl⟩ := Nat.exists_eq_add_one.mpr hfuel
    rw [hseg.1, forEachElementLoop, if_pos rfl]
    rfl
  | cons x l ih =>
    obtain ⟨fuel, rfl⟩ := Nat.exists_eq_add_one.mpr (Nat.zero_lt_of_lt hfuel)
    have hne : x ≠ h := fun heq => hh (heq ▸ List.mem_cons_self)
    rw [hseg.1, forEachElementLoop, if_neg hne]
    simp only [Bool.false_eq_true, false_and, if_false]
    rw [ih hseg.2.2 (fun hmem => hh (List.mem_cons_of_mem x hmem)) (Nat.lt_of_succ_lt_succ hfuel), statuses,
      List.getLastD_cons, contextAfter]

/-- With the test it ends at the first failure. -/
theorem forEachElementLoop_first (hseg : Seg k a l h) (hh : h ∉ l) (hstatus : succeeded status)
    (hfuel : l.length < fuel) (function : ν → γ → STATUS × γ) (context : γ) :
    ∃ status', forEachElementLoop k h function true fuel (k.flink a) status context =
        .ok (status', contextAfter function context (throughFirstFailure function context l)) ∧
      (succeeded status' ↔ ∀ s ∈ statuses function context l, succeeded s) := by
  induction l generalizing a fuel status context with
  | nil =>
    obtain ⟨fuel, rfl⟩ := Nat.exists_eq_add_one.mpr hfuel
    refine ⟨status, ?_, by simp [statuses, hstatus]⟩
    rw [hseg.1, forEachElementLoop, if_pos rfl]
    rfl
  | cons x l ih =>
    obtain ⟨fuel, rfl⟩ := Nat.exists_eq_add_one.mpr (Nat.zero_lt_of_lt hfuel)
    have hne : x ≠ h := fun heq => hh (heq ▸ List.mem_cons_self)
    rw [hseg.1, forEachElementLoop, if_neg hne, throughFirstFailure, statuses]
    cases hx : succeeded (function x context).1 with
    | true =>
      obtain ⟨status', hloop, hiff⟩ := ih hseg.2.2 (fun hmem => hh (List.mem_cons_of_mem x hmem)) hx
        (Nat.lt_of_succ_lt_succ hfuel) (function x context).2
      refine ⟨status', ?_, by simp [hiff, hx]⟩
      simp only [hx, Bool.not_true, Bool.false_eq_true, and_false, if_false, if_true]
      rw [hloop, contextAfter]
    | false =>
      refine ⟨(function x context).1, ?_, by simp [hx]⟩
      simp [hx, contextAfter]

theorem forEachElementExecute_eq (hring : IsRing k h l) (allMustSucceed : Bool) :
    forEachElementExecute debug fuel k h function context allMustSucceed =
      forEachElementLoop k h function allMustSucceed fuel (k.flink h) statusSuccess context := by
  unfold forEachElementExecute
  rw [assertValid_of_mem hring List.mem_cons_self]
  rfl

omit [DecidableEq ν] in
theorem statuses_ne_nil (hl : l ≠ []) (function : ν → γ → STATUS × γ) (context : γ) : statuses function context l ≠ [] := by
  cases l with
  | nil => exact absurd rfl hl
  | cons x l => exact List.cons_ne_nil _ _

end Execution

/-- With `AllMustSucceed` the header describes the call. Otherwise the status of the last invocation is returned, which
agrees with the header if it is a success or there is none. -/
theorem executesAsDocumented_iff (debug : Bool) (k : Links ν) (listHead : ν) (l : List ν) (hring : IsRing k listHead l)
    (hl : l ≠ []) (function : ν → γ → STATUS × γ) (context : γ) (allMustSucceed : Bool) :
    ExecutesAsDocumented debug k listHead function context allMustSucceed l ↔
      allMustSucceed ∨ (∃ s, (statuses function context l).getLast? = some s ∧ succeeded s) ∨
        ∀ s ∈ statuses function context l, ¬ succeeded s := by
  have hh := (List.nodup_cons.mp hring.nodup).1
  unfold ExecutesAsDocumented
  cases allMustSucceed with
  | true =>
    refine iff_of_true (fun fuel hfuel => ?_) (.inl rfl)
    have hsuccess : succeeded statusSuccess := by decide
    obtain ⟨status, hloop, hiff⟩ := forEachElementLoop_first hring.seg hh hsuccess hfuel function context
    exact ⟨status, _, (forEachElementExecute_eq hring true).trans hloop, hiff, rfl⟩
  | false =>
    have hne := statuses_ne_nil hl function context
    have hlast : (statuses function context l).getLastD statusSuccess = (statuses function context l).getLast hne := by
      rw [List.getLastD_eq_getLast?, List.getLast?_eq_some_getLast hne]
      rfl
    have hmem := List.getLast_mem hne
    have hcall : ∀ fuel > l.length, forEachElementExecute debug fuel k listHead function context false =
        .ok ((statuses function context l).getLast hne, contextAfter function context l) := by
      intro fuel hfuel
      rw [forEachElementExecute_eq hring, forEachElementLoop_all hring.seg hh hfuel, hlast]
    simp only [Bool.false_eq_true, false_or, if_false, List.getLast?_eq_some_getLast hne, Option.some.injEq]
    constructor
    · intro hdoc
      obtain ⟨status, context', hok, hiff, -⟩ := hdoc (l.length + 1) (Nat.lt_succ_self _)
      rw [hcall _ (Nat.lt_succ_self _), Except.ok.injEq, Prod.mk.injEq] at hok
      obtain ⟨rfl, -⟩ := hok
      by_cases hs : succeeded ((statuses function context l).getLast hne)
      · exact .inl ⟨_, rfl, hs⟩
      · exact .inr fun s hmem' hsucc => hs (hiff.mpr ⟨s, hmem', hsucc⟩)
    · intro hcond fuel hfuel
      refine ⟨_, _, hcall fuel hfuel, ⟨fun hs => ⟨_, hmem, hs⟩, ?_⟩, rfl⟩
      rintro ⟨s, hs, hsucc⟩
      rcases hcond with ⟨_, rfl, hlast'⟩ | hnone
      · exact hlast'
      · exact absurd hsucc (hnone s hs)

/-- The list of the nodes 1 and 2. -/
private def pairList : Links ℕ := insertTailList (insertTailList (Links.single ⟨id, id⟩ 0) 0 1) 0 2

private theorem pairList_isRing : IsRing pairList 0 [1, 2] := by
  have hone : IsRing (insertTailList (Links.single ⟨id, id⟩ 0) 0 1) 0 [1] :=
    @isRing_insertTailList _ _ _ 0 1 [] [] (isRing_single _ 0) (by decide)
  exact @isRing_insertTailList _ _ _ 0 2 [1] [] hone (by decide)

/-- The function succeeds on the first node only. -/
private def succeedsOnFirst (e : ℕ) (_ : Unit) : STATUS × Unit :=
  (if e = 1 then statusSuccess else statusHeapNoMoreMemory, ())

theorem executesAsDocumented_iff_first :
    ExecutesAsDocumented true pairList 0 succeedsOnFirst () true [1, 2] ↔
      true ∨ (∃ s, (statuses succeedsOnFirst () [1, 2]).getLast? = some s ∧ succeeded s) ∨
        ∀ s ∈ statuses succeedsOnFirst () [1, 2], ¬ succeeded s :=
  executesAsDocumented_iff true pairList 0 [1, 2] pairList_isRing (by decide) succeedsOnFirst () true

/-- One invocation succeeds, and the call fails. -/
theorem not_executesAsDocumented : ¬ ExecutesAsDocumented true pairList 0 succeedsOnFirst () false [1, 2] := by
  intro hdoc
  obtain ⟨status, context', hok, hiff, -⟩ := hdoc 3 (by decide)
  have hcall : forEachElementExecute true 3 pairList 0 succeedsOnFirst () false = .ok (statusHeapNoMoreMemory, ()) := by
    rfl
  rw [hcall, Except.ok.injEq, Prod.mk.injEq] at hok
  obtain ⟨rfl, -⟩ := hok
  exact absurd (hiff.mpr ⟨statusSuccess, by decide, by decide⟩) (by decide)

end HAL9000
