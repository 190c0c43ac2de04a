import Mathlib.Data.List.Nodup
import Mathlib.Logic.Function.Basic

/-! Chains that are linked by a partial successor function, over any type of nodes. A chain is the list
of the nodes from its first one to one that has no successor. -/
namespace Chain

variable {ν : Type*}

inductive IsChain (next : ν → Option ν) : ν → List ν → Prop
  | last {a : ν} (h : next a = none) : IsChain next a [a]
  | link {a b : ν} {l : List ν} (h : next a = some b) (hl : IsChain next b l) :
      IsChain next a (a :: l)

namespace IsChain

variable {next next' : ν → Option ν} {a b : ν} {l l' : List ν}

theorem mem (h : IsChain next a l) : a ∈ l := by
  cases h with
  | last _ => simp
  | link _ _ => simp

theorem ne_nil (h : IsChain next a l) : l ≠ [] := List.ne_nil_of_mem h.mem

theorem unique (h : IsChain next a l) (h' : IsChain next a l') : l = l' := by
  induction h generalizing l' with
  | last hn =>
    cases h' with
    | last _ => rfl
    | link hn' _ => simp [hn] at hn'
  | link hn _ ih =>
    cases h' with
    | last hn' => simp [hn] at hn'
    | link hn' hl' =>
      obtain rfl := Option.some.inj (hn.symm.trans hn')
      rw [ih hl']

/-- A chain can be entered at any of its nodes. -/
theorem of_mem (h : IsChain next a l) (hb : b ∈ l) :
    ∃ l₁ l₂, l = l₁ ++ l₂ ∧ IsChain next b l₂ := by
  induction h with
  | @last a hn =>
    obtain rfl := List.mem_singleton.mp hb
    exact ⟨[], _, rfl, .last hn⟩
  | @link a c l hn hl ih =>
    rcases List.mem_cons.mp hb with rfl | hb
    · exact ⟨[], _, rfl, .link hn hl⟩
    · obtain ⟨l₁, l₂, rfl, h₂⟩ := ih hb
      exact ⟨a :: l₁, l₂, rfl, h₂⟩

theorem nodup (h : IsChain next a l) : l.Nodup := by
  induction h with
  | last _ => simp
  | @link a b l hn hl ih =>
    refine List.nodup_cons.mpr ⟨fun ha => ?_, ih⟩
    obtain ⟨l₁, l₂, rfl, h₂⟩ := hl.of_mem ha
    have hlen := congrArg List.length (h₂.unique (.link hn hl))
    simp only [List.length_cons, List.length_append] at hlen
    omega

/-- The successor of a node that has one is in the chain. -/
theorem next_mem (h : IsChain next a l) (hb : b ∈ l) {c : ν} (hc : next b = some c) : c ∈ l := by
  obtain ⟨l₁, l₂, rfl, h₂⟩ := h.of_mem hb
  cases h₂ with
  | last hn => simp [hn] at hc
  | link hn hl =>
    obtain rfl := Option.some.inj (hn.symm.trans hc)
    simp [hl.mem]

/-- The successor of a node is at the next position. -/
theorem getElem?_succ (h : IsChain next a l) {i : ℕ} (hi : l[i]? = some b) : l[i + 1]? = next b := by
  induction h generalizing i with
  | last hn =>
    cases i with
    | zero =>
      obtain rfl := Option.some.inj hi
      exact hn.symm
    | succ i => simp at hi
  | @link a c l hn hl ih =>
    cases i with
    | zero =>
      obtain rfl := Option.some.inj hi
      rw [hn]
      cases hl <;> rfl
    | succ i => exact ih hi

/-- A list in which every node is followed by its successor. -/
theorem of_getElem? (h : ∀ i b, (a :: l)[i]? = some b → next b = (a :: l)[i + 1]?) :
    IsChain next a (a :: l) := by
  induction l generalizing a with
  | nil => exact .last (h 0 a rfl)
  | cons b l ih => exact .link (h 0 a rfl) (ih fun i c hc => h (i + 1) c hc)

/-- A node without successor is the last one. -/
theorem eq_append_of_last (h : IsChain next a l) (hb : b ∈ l) (hn : next b = none) :
    ∃ l₁, l = l₁ ++ [b] := by
  obtain ⟨l₁, l₂, rfl, h₂⟩ := h.of_mem hb
  cases h₂ with
  | last _ => exact ⟨l₁, rfl⟩
  | link hn' _ => simp [hn] at hn'

theorem congr (h : IsChain next a l) (hnext : ∀ x ∈ l, next' x = next x) : IsChain next' a l := by
  induction h with
  | last hn => exact .last ((hnext _ (by simp)).trans hn)
  | link hn _ ih =>
    exact .link ((hnext _ (by simp)).trans hn) (ih fun x hx => hnext x (List.mem_cons_of_mem _ hx))

/-- The last node gets a successor that ends the chain. -/
theorem extend (h : IsChain next a (l ++ [b])) {c : ν} (hb : next' b = some c)
    (hc : next' c = none) (hnext : ∀ x ∈ l, next' x = next x) :
    IsChain next' a (l ++ [b, c]) := by
  generalize hm : l ++ [b] = m at h
  induction h generalizing l with
  | @last a hn =>
    obtain ⟨rfl, rfl⟩ : l = [] ∧ b = a := by simpa [List.append_eq_cons_iff] using hm
    exact .link hb (.last hc)
  | @link a a' m hn hl ih =>
    cases l with
    | nil =>
      obtain ⟨rfl, rfl⟩ := List.cons.inj hm
      exact absurd rfl hl.ne_nil
    | cons x l =>
      obtain ⟨rfl, rfl⟩ := List.cons.inj hm
      refine .link ((hnext x (by simp)).trans hn) (ih (fun y hy => ?_) rfl)
      exact hnext y (List.mem_cons_of_mem x hy)

end IsChain

end Chain
