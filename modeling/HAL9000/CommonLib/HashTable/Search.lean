import HAL9000.CommonLib.HashTable.Model
import Mathlib.Tactic.Ring

/-! The order of keys and the search in a bucket. `cl_rmemcmp` compares keys as little-endian
numbers. -/
namespace HAL9000.HashTable

open Ring

/-- The first bytes as a little-endian number. -/
def leValue (p : ℕ → BYTE) : ℕ → ℕ
  | 0 => 0
  | i + 1 => (p i).toNat * 256 ^ i + leValue p i

section Order

variable {p q : ℕ → BYTE}

theorem leValue_lt (p : ℕ → BYTE) (n : ℕ) : leValue p n < 256 ^ n := by
  induction n with
  | zero => simp [leValue]
  | succ i ih =>
    have hbyte : (p i).toNat + 1 ≤ 256 := (p i).isLt
    calc leValue p (i + 1) = (p i).toNat * 256 ^ i + leValue p i := rfl
      _ < (p i).toNat * 256 ^ i + 256 ^ i := by omega
      _ = ((p i).toNat + 1) * 256 ^ i := by ring
      _ ≤ 256 * 256 ^ i := Nat.mul_le_mul_right _ hbyte
      _ = 256 ^ (i + 1) := by ring

/-- A greater last byte decides. -/
private theorem leValue_succ_lt {i : ℕ} (h : (p i).toNat < (q i).toNat) :
    leValue p (i + 1) < leValue q (i + 1) := by
  have hlow := leValue_lt p i
  calc leValue p (i + 1) = (p i).toNat * 256 ^ i + leValue p i := rfl
    _ < (p i).toNat * 256 ^ i + 256 ^ i := by omega
    _ = ((p i).toNat + 1) * 256 ^ i := by ring
    _ ≤ (q i).toNat * 256 ^ i := Nat.mul_le_mul_right _ h
    _ ≤ leValue q (i + 1) := Nat.le_add_right _ _

theorem clRmemcmp_neg (p q : ℕ → BYTE) (n : ℕ) :
    clRmemcmp p q n < 0 ↔ leValue p n < leValue q n := by
  induction n with
  | zero => simp [clRmemcmp, leValue]
  | succ i ih =>
    unfold clRmemcmp
    split_ifs with hne
    · have hnat : (p i).toNat ≠ (q i).toNat := fun h => hne (BitVec.eq_of_toNat_eq h)
      rcases Nat.lt_or_gt_of_ne hnat with h | h
      · exact iff_of_true (by omega) (leValue_succ_lt h)
      · exact iff_of_false (by omega) (Nat.not_lt.mpr (leValue_succ_lt h).le)
    · rw [ih, leValue, leValue, not_not.mp hne]
      omega

theorem clRmemcmp_eq_zero (p q : ℕ → BYTE) (n : ℕ) :
    clRmemcmp p q n = 0 ↔ ∀ i < n, p i = q i := by
  induction n with
  | zero => simp [clRmemcmp]
  | succ i ih =>
    unfold clRmemcmp
    split_ifs with hne
    · refine iff_of_false ?_ (fun h => hne (h i (by omega)))
      have hnat : (p i).toNat ≠ (q i).toNat := fun h => hne (BitVec.eq_of_toNat_eq h)
      omega
    · rw [ih]
      constructor
      · intro h j hj
        rcases Nat.lt_succ_iff_lt_or_eq.mp hj with hj | rfl
        · exact h j hj
        · exact not_not.mp hne
      · exact fun h j hj => h j (by omega)

theorem clRmemcmp_swap (p q : ℕ → BYTE) (n : ℕ) : clRmemcmp q p n = -clRmemcmp p q n := by
  induction n with
  | zero => rfl
  | succ i ih =>
    unfold clRmemcmp
    by_cases h : p i = q i
    · rw [if_neg (by simp [h]), if_neg (by simp [h]), ih]
    · rw [if_pos (Ne.symm h), if_pos h]
      omega

end Order

variable {cfg : HashConfig}

def keyValue (key : Key cfg.keySize.toNat) : ℕ := leValue key.byte cfg.keySize.toNat

section Keys

variable {key key' : Key cfg.keySize.toNat}

theorem compareKeys_neg : compareKeys key key' < 0 ↔ keyValue key < keyValue key' :=
  clRmemcmp_neg ..

theorem compareKeys_eq_zero : compareKeys key key' = 0 ↔ key = key' := by
  rw [compareKeys, clRmemcmp_eq_zero]
  constructor
  · intro h
    funext i
    simpa [Key.byte] using h i i.isLt
  · intro h i _
    rw [h]

theorem compareKeys_pos : 0 < compareKeys key key' ↔ keyValue key' < keyValue key := by
  rw [← compareKeys_neg]
  unfold compareKeys
  rw [clRmemcmp_swap key.byte key'.byte]
  omega

theorem keyValue_injective (h : keyValue key = keyValue key') : key = key' := by
  apply compareKeys_eq_zero.mp
  have hneg := @compareKeys_neg cfg key key'
  have hpos := @compareKeys_pos cfg key key'
  omega

end Keys

section Search

variable {s : HashState cfg} {key : Key cfg.keySize.toNat} {i : ℕ} {l₁ l₂ : List QWORD}

/-- The elements are in the strict order of their keys. -/
def Ordered (s : HashState cfg) (l : List QWORD) : Prop :=
  l.Pairwise fun a b => keyValue (s.key a) < keyValue (s.key b)

/-- A key splits an ordered bucket. -/
theorem Ordered.split {l : List QWORD} (h : Ordered s l) (key : Key cfg.keySize.toNat) :
    ∃ l₁ l₂, l = l₁ ++ l₂ ∧ (∀ a ∈ l₁, keyValue (s.key a) < keyValue key) ∧
      ∀ a ∈ l₂, keyValue key ≤ keyValue (s.key a) := by
  induction l with
  | nil => exact ⟨[], [], rfl, by simp, by simp⟩
  | cons x l ih =>
    obtain ⟨hx, hl⟩ := List.pairwise_cons.mp h
    by_cases hlt : keyValue (s.key x) < keyValue key
    · obtain ⟨l₁, l₂, rfl, h₁, h₂⟩ := ih hl
      refine ⟨x :: l₁, l₂, rfl, fun a ha => ?_, h₂⟩
      rcases List.mem_cons.mp ha with rfl | ha
      · exact hlt
      · exact h₁ a ha
    · refine ⟨[], x :: l, rfl, by simp, fun a ha => ?_⟩
      rcases List.mem_cons.mp ha with rfl | ha
      · omega
      · have := hx a ha
        omega

/-- The loop from the node after `x` on: it passes the elements with lower keys and stops at the
first one that has not. -/
private theorem search_loop {x : HashNode} {fuel : ℕ} {ctx : HashElemSearchCtx}
    (hseg : Seg s.links x ((l₁ ++ l₂).map .entry) (.bucket i))
    (h₁ : ∀ a ∈ l₁, keyValue (s.key a) < keyValue key)
    (h₂ : ∀ a ∈ l₂, keyValue key ≤ keyValue (s.key a)) (hfuel : (l₁ ++ l₂).length < fuel)
    (hctx : ctx.placeholderEntry = x ∧ ctx.result ≤ 0) :
    ∃ ret ctx', listSearchForElement s.links (.bucket i) true (hashTableSearchElem s key) fuel
        (s.links.flink x) ctx = .ok (ret, ctx') ∧
      match l₂ with
      | [] => ret = none ∧ ctx'.result ≤ 0 ∧
          ctx'.placeholderEntry = (x :: l₁.map .entry).getLast (by simp)
      | y :: _ => ctx'.placeholderEntry = .entry y ∧ ctx'.result = compareKeys (s.key y) key ∧
          ret = if s.key y = key then some (.entry y) else none := by
  induction l₁ generalizing x fuel ctx with
  | nil =>
    cases fuel with
    | zero => omega
    | succ fuel =>
      cases l₂ with
      | nil =>
        have hnext : s.links.flink x = .bucket i := hseg.1
        refine ⟨none, ctx, ?_, rfl, hctx.2, by simpa using hctx.1⟩
        simp [listSearchForElement, hnext]
      | cons y l₂ =>
        have hnext : s.links.flink x = .entry y := hseg.1
        have hle := h₂ y (by simp)
        have hneg := @compareKeys_neg cfg (s.key y) key
        refine ⟨if s.key y = key then some (.entry y) else none,
          ⟨.entry y, compareKeys (s.key y) key⟩, ?_, rfl, rfl, rfl⟩
        simp only [listSearchForElement, hnext, hashTableSearchElem, HashState.keyAt]
        rw [if_neg (by simp)]
        by_cases heq : s.key y = key
        · rw [if_pos heq, if_pos (compareKeys_eq_zero.mpr heq)]
        · have hne : compareKeys (s.key y) key ≠ 0 := fun h => heq (compareKeys_eq_zero.mp h)
          rw [if_neg heq, if_neg hne, if_pos ⟨trivial, by omega⟩]
  | cons a l₁ ih =>
    cases fuel with
    | zero => omega
    | succ fuel =>
      obtain ⟨hnext, hprev, hrest⟩ := hseg
      have hlt := h₁ a (by simp)
      have hneg := (@compareKeys_neg cfg (s.key a) key).mpr hlt
      obtain ⟨ret, ctx', hloop, hspec⟩ := @ih (.entry a) fuel
        ⟨.entry a, compareKeys (s.key a) key⟩ hrest
        (fun b hb => h₁ b (List.mem_cons_of_mem a hb))
        (by simp only [List.cons_append, List.length_cons] at hfuel; omega)
        ⟨rfl, by show compareKeys (s.key a) key ≤ 0; omega⟩
      refine ⟨ret, ctx', ?_, ?_⟩
      · simp only [listSearchForElement, hnext, hashTableSearchElem, HashState.keyAt]
        rw [if_neg (by simp), if_neg (by omega), if_neg (by simp; omega)]
        exact hloop
      · cases l₂ with
        | nil => simpa using hspec
        | cons y l₂ => exact hspec

/-- The search finds the element with the key, or the node after which it belongs. -/
theorem hashTableSearchKeyInBucket_spec {fuel : ℕ}
    (hring : IsRing s.links (.bucket i) ((l₁ ++ l₂).map .entry))
    (h₁ : ∀ a ∈ l₁, keyValue (s.key a) < keyValue key)
    (h₂ : ∀ a ∈ l₂, keyValue key ≤ keyValue (s.key a)) (hord : Ordered s (l₁ ++ l₂))
    (hfuel : (l₁ ++ l₂).length < fuel) :
    (∃ y l, l₂ = y :: l ∧ s.key y = key ∧
        hashTableSearchKeyInBucket fuel s (.bucket i) key = .ok (true, .entry y)) ∨
      (∀ a ∈ l₂, keyValue key < keyValue (s.key a)) ∧
        hashTableSearchKeyInBucket fuel s (.bucket i) key =
          .ok (false, (.bucket i :: l₁.map .entry).getLast (by simp)) := by
  have hstart : (HashElemSearchCtx.mk (.bucket i) 0).placeholderEntry = .bucket i ∧
      (HashElemSearchCtx.mk (.bucket i) 0).result ≤ 0 := ⟨rfl, le_refl 0⟩
  obtain ⟨ret, ctx, hloop, hspec⟩ := search_loop hring.seg h₁ h₂ hfuel hstart
  unfold hashTableSearchKeyInBucket
  simp only [hloop, bind, Except.bind]
  cases l₂ with
  | nil =>
    obtain ⟨rfl, hres, hplace⟩ := hspec
    have hlow : ¬ 0 < ctx.result := by omega
    refine Or.inr ⟨by simp, ?_⟩
    simp [hlow, hplace, pure, Except.pure]
  | cons y l =>
    obtain ⟨hplace, hres, hret⟩ := hspec
    have hle := h₂ y (by simp)
    by_cases heq : s.key y = key
    · refine Or.inl ⟨y, l, rfl, heq, ?_⟩
      have hzero : ctx.result = 0 := hres.trans (compareKeys_eq_zero.mpr heq)
      rw [if_pos heq] at hret
      subst hret
      simp [assertThat_of, hzero, hplace, pure, Except.pure]
    · have hpos : 0 < ctx.result := by
        have hneg := @compareKeys_neg cfg (s.key y) key
        have hne : compareKeys (s.key y) key ≠ 0 := fun h => heq (compareKeys_eq_zero.mp h)
        omega
      have hlt : keyValue key < keyValue (s.key y) := by
        rw [hres] at hpos
        exact compareKeys_pos.mp hpos
      rw [if_neg heq] at hret
      subst hret
      refine Or.inr ⟨fun a ha => ?_, ?_⟩
      · rcases List.mem_cons.mp ha with rfl | ha
        · exact hlt
        · have hl := (List.pairwise_append.mp hord).2.1
          have := (List.pairwise_cons.mp hl).1 a ha
          omega
      · have hseg := hring.seg
        rw [List.map_append, List.map_cons] at hseg
        have hback := (seg_append.mp hseg).1.blink
        simp [hpos, hplace, hback, pure, Except.pure]

end Search

end HAL9000.HashTable
