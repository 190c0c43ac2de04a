import HAL9000.CommonLib.HashTable.Buckets

/-! The hash table refines a finite map, over every sequence of calls. -/
namespace HAL9000.HashTable

open Ring Run

variable {cfg : HashConfig}

section Count

variable {m : KeyMap cfg} {key : Key cfg.keySize.toNat}

theorem count_insert (e : QWORD) (hkey : m key = none) :
    KeyMap.count (Function.update m key (some e)) = m.count + 1 := by
  have hset : {k | Function.update m key (some e) k ≠ none} = insert key {k | m k ≠ none} := by
    ext k
    by_cases hk : k = key
    · simp [hk]
    · simp [hk]
  rw [KeyMap.count, hset]
  exact Set.ncard_insert_of_notMem (by simpa using hkey)

theorem count_replace {e e' : QWORD} (hkey : m key = some e') :
    KeyMap.count (Function.update m key (some e)) = m.count := by
  have hset : {k | Function.update m key (some e) k ≠ none} = {k | m k ≠ none} := by
    ext k
    by_cases hk : k = key
    · simp [hk, hkey]
    · simp [Function.update_of_ne hk]
  rw [KeyMap.count, hset, KeyMap.count]

theorem count_remove {e : QWORD} (hkey : m key = some e) :
    KeyMap.count (Function.update m key none) + 1 = m.count := by
  have hset : {k | Function.update m key none k ≠ none} = {k | m k ≠ none} \ {key} := by
    ext k
    by_cases hk : k = key
    · simp [hk]
    · simp [hk]
  rw [KeyMap.count, hset]
  exact Set.ncard_sdiff_singleton_add_one (by simp [hkey])

end Count

section Refines

variable {s : HashState cfg} {m : KeyMap cfg} {bucket : ℕ → List QWORD} {e : QWORD}
  {key : Key cfg.keySize.toNat}

theorem hashIndex_lt (key : Key cfg.keySize.toNat) :
    (cfg.hashFunc key).toNat < cfg.maxKeys.toNat := by
  have hlt : (cfg.hashFunc key).toNat < (cfg.maxKeys.setWidth 64).toNat := cfg.hashFunc_lt key
  rw [BitVec.toNat_setWidth] at hlt
  lia

/-- What a search for a key finds: the element that the map has, or the node after which an
element with that key belongs. -/
inductive Found (s : HashState cfg) (m : KeyMap cfg) (bucket : ℕ → List QWORD)
    (key : Key cfg.keySize.toNat) : Bool × HashNode → Prop
  | hit {l₁ l₂ : List QWORD} {y : QWORD}
      (hl : bucket (cfg.hashFunc key).toNat = l₁ ++ y :: l₂) (hkey : s.key y = key)
      (hm : m key = some y) : Found s m bucket key (true, .entry y)
  | miss {l₁ l₂ : List QWORD} (hl : bucket (cfg.hashFunc key).toNat = l₁ ++ l₂)
      (h₁ : ∀ a ∈ l₁, keyValue (s.key a) < keyValue key)
      (h₂ : ∀ a ∈ l₂, keyValue key < keyValue (s.key a)) (hm : m key = none) :
      Found s m bucket key
        (false, (HashNode.bucket (cfg.hashFunc key).toNat :: l₁.map .entry).getLast (by simp))

theorem Refines.search (h : Refines s m) (hrep : Represents s bucket)
    (key : Key cfg.keySize.toNat) :
    ∃ r bound, Found s m bucket key r ∧ ∀ fuel ≥ bound,
      hashTableSearchKeyInBucket fuel s (.bucket (cfg.hashFunc key).toNat) key = .ok r := by
  have hi := hashIndex_lt key
  have hring := hrep.ring _ hi
  have hord := hrep.isOrdered hi
  obtain ⟨l₁, l₂, hl, h₁, h₂⟩ := hord.split key
  rw [hl] at hring hord
  have hspec := fun fuel (hfuel : (l₁ ++ l₂).length + 1 ≤ fuel) =>
    hashTableSearchKeyInBucket_spec hring h₁ h₂ hord hfuel
  by_cases hhit : ∃ y l, l₂ = y :: l ∧ s.key y = key
  · obtain ⟨y, l, rfl, hkey⟩ := hhit
    have hlinked : s.linked y = true := (hrep.linked y).mpr ⟨_, hi, by simp [hl]⟩
    refine ⟨(true, .entry y), (l₁ ++ y :: l).length + 1,
      .hit hl hkey ((h.stored key y).mpr ⟨hlinked, hkey⟩), fun fuel hfuel => ?_⟩
    rcases hspec fuel hfuel with ⟨y', l', heq, -, hres⟩ | ⟨hgt, -⟩
    · obtain ⟨rfl, -⟩ := List.cons.inj heq
      exact hres
    · have := hgt y (by simp)
      simp [hkey] at this
  · have hmiss := fun fuel hfuel => (hspec fuel hfuel).resolve_left
      fun ⟨y, l, hl₂, hkey, _⟩ => hhit ⟨y, l, hl₂, hkey⟩
    have hgt := (hmiss _ le_rfl).1
    refine ⟨_, (l₁ ++ l₂).length + 1, .miss hl h₁ hgt ?_, fun fuel hfuel => (hmiss fuel hfuel).2⟩
    rw [Option.eq_none_iff_forall_ne_some]
    intro y hy
    obtain ⟨hlinked, hkey⟩ := (h.stored key y).mp hy
    obtain ⟨i, hilt, hmem⟩ := (hrep.linked y).mp hlinked
    obtain rfl := hrep.hashed i hilt y hmem
    rw [hkey, hl] at hmem
    rcases List.mem_append.mp hmem with hmem | hmem
    · have := h₁ y hmem
      simp [hkey] at this
    · have := hgt y hmem
      simp [hkey] at this

theorem Refines.key_eq (h : Refines s m) (hkey : m key = some e) : s.key e = key :=
  ((h.stored key e).mp hkey).2

theorem Refines.of_linked (h : Refines s m) (he : s.linked e = true) : m (s.key e) = some e :=
  (h.stored (s.key e) e).mpr ⟨he, rfl⟩

/-- The map is determined by the elements that are linked. -/
private theorem stored_insert (h : Refines s m) {linked : QWORD → Bool}
    (hlinked : ∀ x, linked x = true ↔ x = e ∨ s.linked x = true ∧ s.key x ≠ s.key e) (k x) :
    Function.update m (s.key e) (some e) k = some x ↔ linked x = true ∧ s.key x = k := by
  rw [hlinked]
  by_cases hk : k = s.key e
  · subst hk
    rw [Function.update_self]
    grind
  · rw [Function.update_of_ne hk, h.stored]
    grind

private theorem stored_remove (h : Refines s m) {linked : QWORD → Bool}
    (hlinked : ∀ x, linked x = true ↔ s.linked x = true ∧ s.key x ≠ key) (k x) :
    Function.update m key none k = some x ↔ linked x = true ∧ s.key x = k := by
  rw [hlinked]
  by_cases hk : k = key
  · subst hk
    rw [Function.update_self]
    grind
  · rw [Function.update_of_ne hk, h.stored]
    grind

/-- The caller writes to an element of its own. -/
theorem Refines.setKey (h : Refines s m) (he : s.linked e = false) (key : Key cfg.keySize.toNat) :
    Refines { s with key := Function.update s.key e key } m where
  represents := by
    obtain ⟨bucket, hrep⟩ := h.represents
    exact ⟨bucket, hrep.setKey he key⟩
  stored k x := by
    rw [h.stored]
    by_cases hx : x = e
    · simp [hx, he]
    · simp [Function.update_of_ne hx]
  size := h.size

/-- `HashTableInsert`; the caller owns the element that it returns. -/
theorem Refines.insert (h : Refines s m) (he : s.linked e = false) :
    ∃ bound s', (∀ fuel ≥ bound,
        hashTableInsert fuel s e = .ok ((m (s.key e)).map .entry, s')) ∧
      Refines { s'.giveBack ((m (s.key e)).map .entry) with
        linked := Function.update (s'.giveBack ((m (s.key e)).map .entry)).linked e true }
        (Function.update m (s.key e) (some e)) := by
  obtain ⟨bucket, hrep⟩ := h.represents
  obtain ⟨r, bound, hfound, hsearch⟩ := h.search hrep (s.key e)
  have hidx := cfg.hashFunc_lt (s.key e)
  have hsize := h.size
  cases hfound with
  | @hit l₁ l₂ y hl hkey hm =>
    refine ⟨bound, { s with
        links := removeEntryList (insertHeadList s.links (.entry y) (.entry e)) (.entry y) },
      fun fuel hfuel => ?_, ?_⟩
    · simp [hashTableInsert, assertThat_of, hidx, hsearch fuel hfuel, hm, bind, Except.bind, pure,
        Except.pure]
    · rw [hm]
      refine ⟨⟨_, hrep.replace he (hashIndex_lt _) hl hkey⟩, stored_insert h fun x => ?_, ?_⟩
      · have hy := (h.stored _ y).mp hm
        have huniq := h.stored (s.key e) x
        by_cases hx : x = e
        · simp [hx]
        · by_cases hxy : x = y
          · simp [hxy, HashState.giveBack, hkey]
            grind
          · simp [hx, hxy, HashState.giveBack]
            grind
      · rw [count_replace hm]
        exact hsize
  | @miss l₁ l₂ hl h₁ h₂ hm =>
    refine ⟨bound, { s with
        links := insertHeadList s.links ((HashNode.bucket (cfg.hashFunc (s.key e)).toNat ::
          l₁.map .entry).getLast (by simp)) (.entry e)
        numberOfElements := s.numberOfElements + 1 }, fun fuel hfuel => ?_, ?_⟩
    · simp [hashTableInsert, assertThat_of, hidx, hsearch fuel hfuel, hm, bind, Except.bind, pure,
        Except.pure]
    · rw [hm]
      refine ⟨⟨_, hrep.insert he rfl (hashIndex_lt _) hl h₁ h₂ _⟩, stored_insert h fun x => ?_, ?_⟩
      · have huniq := h.stored (s.key e) x
        by_cases hx : x = e
        · simp [hx]
        · simp [hx, HashState.giveBack]
          grind
      · rw [count_insert e hm]
        simp only [hashTableSize, HashState.giveBack, Option.map_none, BitVec.toNat_add,
          BitVec.reduceToNat] at hsize ⊢
        lia

/-- `HashTableRemoveEntry`; the caller owns the element again. -/
theorem Refines.removeEntry (h : Refines s m) (he : s.linked e = true)
    (hrep : Represents ((hashTableRemoveEntry s (.entry e)).giveBack (some (.entry e))) bucket) :
    Refines ((hashTableRemoveEntry s (.entry e)).giveBack (some (.entry e)))
      (Function.update m (s.key e) none) := by
  have hm := h.of_linked he
  refine ⟨⟨bucket, hrep⟩, stored_remove h fun x => ?_, ?_⟩
  · have huniq := h.stored (s.key e) x
    by_cases hx : x = e
    · simp [hx, HashState.giveBack]
    · simp [hx, HashState.giveBack, hashTableRemoveEntry]
      grind
  · have hcount := count_remove hm
    have hsize := h.size
    simp only [hashTableSize, HashState.giveBack, hashTableRemoveEntry, BitVec.toNat_sub,
      BitVec.reduceToNat] at hsize ⊢
    lia

/-- Every linked element can be removed. -/
theorem Refines.remove (h : Refines s m) (he : s.linked e = true) :
    Refines ((hashTableRemoveEntry s (.entry e)).giveBack (some (.entry e)))
      (Function.update m (s.key e) none) := by
  obtain ⟨bucket, hrep⟩ := h.represents
  obtain ⟨i, hi, hmem⟩ := (hrep.linked e).mp he
  obtain ⟨l₁, l₂, hl⟩ := List.append_of_mem hmem
  exact h.removeEntry he (hrep.remove hi hl _)

theorem Refines.lookup (h : Refines s m) (key : Key cfg.keySize.toNat) :
    ∃ bound, ∀ fuel ≥ bound, hashTableLookup fuel s key = .ok ((m key).map .entry) := by
  obtain ⟨bucket, hrep⟩ := h.represents
  obtain ⟨r, bound, hfound, hsearch⟩ := h.search hrep key
  refine ⟨bound, fun fuel hfuel => ?_⟩
  cases hfound with
  | hit hl hkey hm =>
    simp [hashTableLookup, hsearch fuel hfuel, hm, bind, Except.bind, pure, Except.pure]
  | miss hl h₁ h₂ hm =>
    simp [hashTableLookup, hsearch fuel hfuel, hm, bind, Except.bind, pure, Except.pure]

end Refines

section Clear

variable {s : HashState cfg} {m : KeyMap cfg} {bucket : ℕ → List QWORD} {linked : QWORD → Bool}

/-- The iterator at the start of bucket `k` gets to bucket `j` when those between are empty. -/
private theorem iteratorNext_skip (hrep : Represents { s with linked := linked } bucket)
    {j k fuel : ℕ} (hkj : k ≤ j) (hj : j ≤ cfg.maxKeys.toNat)
    (hempty : ∀ i, k ≤ i → i < j → bucket i = []) :
    hashTableIteratorNext s (fuel + (j - k)) ⟨k, listIteratorInit s.links (.bucket k)⟩ =
      hashTableIteratorNext s fuel ⟨j, listIteratorInit s.links (.bucket j)⟩ := by
  induction hkj using Nat.decreasingInduction with
  | self => simp
  | of_succ k hkj ih =>
    have hk : k < cfg.maxKeys.toNat := by omega
    have hring := (hrep.ring k hk).seg
    rw [hempty k le_rfl hkj] at hring
    have hnext : s.links.flink (.bucket k) = .bucket k := hring.1
    rw [← ih fun i hi hij => hempty i (by omega) hij,
      show fuel + (j - k) = fuel + (j - (k + 1)) + 1 by lia, hashTableIteratorNext, if_pos hk]
    simp [listIteratorInit, listIteratorNext, hnext]

private theorem iteratorNext_none {k fuel : ℕ}
    (hrep : Represents { s with linked := linked } bucket) (hk : k ≤ cfg.maxKeys.toNat)
    (hempty : ∀ i, k ≤ i → i < cfg.maxKeys.toNat → bucket i = [])
    (hfuel : cfg.maxKeys.toNat < fuel) :
    ∃ it, hashTableIteratorNext s fuel ⟨k, listIteratorInit s.links (.bucket k)⟩ =
      .ok (none, it) := by
  obtain ⟨n, rfl⟩ : ∃ n, fuel = n + 1 + (cfg.maxKeys.toNat - k) :=
    ⟨fuel - (cfg.maxKeys.toNat - k) - 1, by lia⟩
  rw [iteratorNext_skip hrep hk le_rfl hempty, hashTableIteratorNext, if_neg (lt_irrefl _)]
  exact ⟨_, rfl⟩

private theorem iteratorNext_some {j k fuel : ℕ} {e : QWORD} {l : List QWORD}
    (hrep : Represents { s with linked := linked } bucket) (hkj : k ≤ j)
    (hj : j < cfg.maxKeys.toNat) (hempty : ∀ i, k ≤ i → i < j → bucket i = [])
    (hl : bucket j = e :: l) (hfuel : cfg.maxKeys.toNat < fuel) :
    hashTableIteratorNext s fuel ⟨k, listIteratorInit s.links (.bucket k)⟩ =
      .ok (some (.entry e), ⟨j, ⟨.bucket j, s.links.flink (.entry e)⟩⟩) := by
  obtain ⟨n, rfl⟩ : ∃ n, fuel = n + 1 + (j - k) := ⟨fuel - (j - k) - 1, by lia⟩
  have hring := (hrep.ring j hj).seg
  rw [hl] at hring
  have hnext : s.links.flink (.bucket j) = .entry e := hring.1
  rw [iteratorNext_skip hrep hkj hj.le hempty, hashTableIteratorNext, if_pos hj]
  simp [listIteratorInit, listIteratorNext, hnext]

/-- A table without elements stands for the empty map. -/
private theorem Refines.empty (h : Refines { s with linked := linked } m)
    (hrep : Represents { s with linked := linked } bucket)
    (hnil : ∀ i < cfg.maxKeys.toNat, bucket i = []) :
    Refines { s with linked := fun _ => false } fun _ => none := by
  have hlinked : linked = fun _ => false := by
    funext a
    have hnot : ¬ ∃ i < cfg.maxKeys.toNat, a ∈ bucket i := by
      intro ha
      obtain ⟨i, hi, ha⟩ := ha
      simp [hnil i hi] at ha
    exact Bool.eq_false_iff.mpr fun ha => hnot ((hrep.linked a).mp ha)
  subst hlinked
  have hm : m = fun _ => none := by
    funext key
    rw [Option.eq_none_iff_forall_ne_some]
    intro a ha
    exact Bool.false_ne_true ((h.stored key a).mp ha).1
  rwa [hm] at h

/-- The loop of `HashTableClear` with the buckets before `k` empty. -/
private theorem clearFrom_spec {c k : ℕ} (h : Refines { s with linked := linked } m)
    (hrep : Represents { s with linked := linked } bucket) (hk : ∀ j < k, bucket j = [])
    (hle : k ≤ cfg.maxKeys.toNat) (hc : m.count = c) :
    ∃ s', (∀ fuel n, cfg.maxKeys.toNat < fuel → c < n →
        clearFrom fuel n s ⟨k, listIteratorInit s.links (.bucket k)⟩ = .ok s') ∧
      Refines { s' with linked := fun _ => false } fun _ => none := by
  induction c using Nat.strong_induction_on generalizing s linked m bucket k with
  | _ c ih =>
    by_cases hempty : ∀ j, k ≤ j → j < cfg.maxKeys.toNat → bucket j = []
    · have hnil : ∀ i < cfg.maxKeys.toNat, bucket i = [] := by
        intro i hi
        by_cases hik : i < k
        · exact hk i hik
        · exact hempty i (by omega) hi
      refine ⟨s, fun fuel n hfuel hn => ?_, h.empty hrep hnil⟩
      obtain ⟨it, hnext⟩ := iteratorNext_none hrep hle hempty hfuel
      obtain ⟨n, rfl⟩ := Nat.exists_eq_succ_of_ne_zero (by omega : n ≠ 0)
      simp [clearFrom, hnext, bind, Except.bind, pure, Except.pure]
    · obtain ⟨j, hkj, hj, ⟨e, l, hl⟩, hfirst⟩ : ∃ j, k ≤ j ∧ j < cfg.maxKeys.toNat ∧
          (∃ e l, bucket j = e :: l) ∧ ∀ i, k ≤ i → i < j → bucket i = [] := by
        push Not at hempty
        obtain ⟨hkj, hj, hne⟩ := Nat.find_spec hempty
        refine ⟨Nat.find hempty, hkj, hj, List.exists_cons_of_ne_nil hne, fun i hi hij => ?_⟩
        by_contra hne'
        exact Nat.find_min hempty hij ⟨hi, by omega, hne'⟩
      have he : linked e = true := (hrep.linked e).mpr ⟨j, hj, by simp [hl]⟩
      have hrep' := hrep.remove hj (show bucket j = [] ++ e :: l from hl) (s.numberOfElements - 1)
      have h' := h.removeEntry he hrep'
      have hcount := count_remove (h.of_linked he)
      have hlink : s.links.flink (.entry e) =
          (hashTableRemoveEntry s (.entry e)).links.flink (.bucket j) := by
        have hold := (hrep.ring j hj).seg
        have hnew := (hrep'.ring j hj).seg
        rw [hl, List.map_cons] at hold
        rw [Function.update_self] at hnew
        exact hold.2.2.flink.trans hnew.flink.symm
      have hbefore : ∀ i < j, Function.update bucket j l i = [] := by
        intro i hi
        rw [Function.update_of_ne (by omega)]
        by_cases hik : i < k
        · exact hk i hik
        · exact hfirst i (by omega) hi
      obtain ⟨s', hloop, href⟩ := ih (c - 1) (by omega)
        (s := hashTableRemoveEntry s (.entry e)) h' hrep' hbefore hj.le (by omega)
      refine ⟨s', fun fuel n hfuel hn => ?_, href⟩
      obtain ⟨n, rfl⟩ := Nat.exists_eq_succ_of_ne_zero (by omega : n ≠ 0)
      simp only [clearFrom, iteratorNext_some hrep hkj hj hfirst hl hfuel, bind, Except.bind, hlink]
      exact hloop fuel n hfuel (by omega)

theorem Refines.clear (h : Refines s m) :
    ∃ bound s', (∀ fuel ≥ bound, hashTableClear fuel s = .ok s') ∧
      Refines { s' with linked := fun _ => false } fun _ => none := by
  obtain ⟨bucket, hrep⟩ := h.represents
  obtain ⟨s', hloop, href⟩ := clearFrom_spec h hrep (k := 0) (by omega) (Nat.zero_le _) rfl
  refine ⟨cfg.maxKeys.toNat + m.count + 1, s', fun fuel hfuel => ?_, href⟩
  exact hloop fuel fuel (by omega) (by omega)

end Clear

section Calls

variable {s : HashState cfg} {m : KeyMap cfg}

/-- Every permitted call returns what it returns for the map. -/
theorem Refines.call (h : Refines s m) {c : HashCall cfg} (hc : s.permits c = true) :
    ∃ bound s', (∀ fuel ≥ bound, call fuel s c = .ok ((mapCall m c).1, s')) ∧
      Refines s' (mapCall m c).2 := by
  cases c with
  | insert e key =>
    have he : s.linked e = false := by simpa [HashState.permits] using hc
    obtain ⟨bound, s', hcall, href⟩ := (h.setKey he key).insert he
    simp only [Function.update_self] at hcall href
    refine ⟨bound, _, fun fuel hfuel => ?_, href⟩
    simp [HashTable.call, mapCall, hcall fuel hfuel, bind, Except.bind, pure, Except.pure]
  | remove key =>
    obtain ⟨bound, hlookup⟩ := h.lookup key
    cases hm : m key with
    | none =>
      refine ⟨bound, s, fun fuel hfuel => ?_, ?_⟩
      · simp [HashTable.call, hashTableRemove, mapCall, hlookup fuel hfuel, hm, bind, Except.bind,
          pure, Except.pure, HashState.giveBack]
      · have hsame : Function.update m key none = m := by
          rw [← hm, Function.update_eq_self]
        rwa [mapCall, hsame]
    | some e =>
      obtain ⟨he, rfl⟩ := (h.stored key e).mp hm
      refine ⟨bound, _, fun fuel hfuel => ?_, h.remove he⟩
      simp [HashTable.call, hashTableRemove, mapCall, hlookup fuel hfuel, hm, bind, Except.bind,
        pure, Except.pure]
  | removeEntry e =>
    have he : s.linked e = true := hc
    refine ⟨0, _, fun _ _ => rfl, ?_⟩
    have hmap : (mapCall m (.removeEntry e)).2 = Function.update m (s.key e) none := by
      funext key
      by_cases hk : key = s.key e
      · simp [mapCall, hk, h.of_linked he]
      · have hne : m key ≠ some e := fun hm => hk (h.key_eq hm).symm
        simp [mapCall, hk, hne]
    rw [hmap]
    exact h.remove he
  | lookup key =>
    obtain ⟨bound, hlookup⟩ := h.lookup key
    refine ⟨bound, s, fun fuel hfuel => ?_, h⟩
    simp [HashTable.call, mapCall, hlookup fuel hfuel, bind, Except.bind, pure, Except.pure]
  | clear =>
    obtain ⟨bound, s', hclear, href⟩ := h.clear
    refine ⟨bound, _, fun fuel hfuel => ?_, href⟩
    simp [HashTable.call, mapCall, hclear fuel hfuel, bind, Except.bind, pure, Except.pure]

theorem Refines.returns (h : Refines s m) {c : HashCall cfg} (hc : s.permits c = true) :
    ∃ s', hashStep s (c, (mapCall m c).1) s' ∧ Refines s' (mapCall m c).2 := by
  obtain ⟨bound, s', hcall, href⟩ := h.call hc
  refine ⟨s', ⟨bound, fun fuel hfuel => ?_⟩, href⟩
  simp [nextHash, hc, hcall fuel hfuel]

/-- An element that is not in the table, with a key that is not. -/
theorem Refines.insertNew (h : Refines s m) (key : Key cfg.keySize.toNat) (e : QWORD)
    (hkey : m key = none) (he : ∀ key, m key ≠ some e) :
    ∃ s', hashStep s (.insert e key, none) s' ∧ Refines s' (Function.update m key (some e)) := by
  have hfree : s.linked e = false := by
    rw [← Bool.not_eq_true]
    exact fun hlinked => he _ (h.of_linked hlinked)
  have hreturns := h.returns (c := .insert e key) (by simp [HashState.permits, hfree])
  rwa [mapCall, hkey] at hreturns

theorem Refines.step (h : Refines s m) {a : HashCall cfg × Option HashNode} {s' : HashState cfg}
    (hs : hashStep s a s') : ∃ m', mapStep m a m' ∧ Refines s' m' := by
  obtain ⟨c, ret⟩ := a
  obtain ⟨bound, hnext⟩ := hs
  have hc : s.permits c = true := by
    by_contra hc
    simpa [nextHash, hc] using hnext bound le_rfl
  obtain ⟨bound', s'', hcall, href⟩ := h.call hc
  have hboth := hnext (max bound bound') (le_max_left _ _)
  simp only [nextHash, hc, if_true, hcall _ (le_max_right _ _)] at hboth
  split_ifs at hboth with hret
  obtain rfl := Option.some.inj hboth
  exact ⟨_, Prod.ext hret rfl, href⟩

end Calls

section Init

variable (cfg) (links : Links HashNode) (key : QWORD → Key cfg.keySize.toNat)

private theorem init_ring (n : ℕ) : ∀ i < n, IsRing ((List.range n).foldl
    (fun k i => initializeListHead k (HashNode.bucket i)) links) (.bucket i) [] := by
  induction n with
  | zero => omega
  | succ n ih =>
    intro i hi
    rw [List.range_succ, List.foldl_append]
    rcases Nat.lt_succ_iff_lt_or_eq.mp hi with hi | rfl
    · exact (ih i hi).single_other (by simp; omega)
    · exact isRing_single ..

theorem hashTableInit_refines : Refines (hashTableInit cfg links key) fun _ => none where
  represents := by
    refine ⟨fun _ => [], fun i hi => init_ring links _ i hi, fun _ _ => .nil, nofun, fun e => ?_⟩
    simp [hashTableInit]
  stored := by simp [hashTableInit]
  size := by simp [hashTableInit, hashTableSize, KeyMap.count]

end Init

/-- Every sequence of calls on a new table is one on the empty map with the same results, and leaves
a table that stands for the map; every call that is permitted after it returns. -/
theorem hashTable_refines_map {links : Links HashNode} {key : QWORD → Key cfg.keySize.toNat}
    {tr : List (HashState cfg × HashCall cfg × Option HashNode)} {s : HashState cfg}
    (h : Exec hashStep (hashTableInit cfg links key) tr s) :
    (∃ tr' m, Exec mapStep (fun _ => none) tr' m ∧ tr'.map Prod.snd = tr.map Prod.snd ∧
        Refines s m) ∧
      ∀ c, s.permits c = true → ∃ ret s', hashStep s (c, ret) s' := by
  have hsim := h.simulates (hashTableInit_refines cfg links key)
    fun s a s' m href hs => href.step hs
  refine ⟨hsim, fun c hc => ?_⟩
  obtain ⟨_, m, -, -, href⟩ := hsim
  obtain ⟨s', hs, -⟩ := href.returns hc
  exact ⟨_, s', hs⟩

section Fill

/-- A table with one bucket and keys of four bytes. -/
def fourByteKeys : HashConfig where
  maxKeys := 1
  keySize := 4
  hashFunc _ := 0
  maxKeys_lt := by decide
  keySize_pos := by decide
  keySize_le := by decide
  hashFunc_lt _ := by decide

/-- The bytes of `i`, the lowest first. -/
def nthKey (i : ℕ) : Key fourByteKeys.keySize.toNat := fun j => BitVec.ofNat 8 (i / 256 ^ j.val)

/-- Elements that are 32 bytes apart. -/
def nthElement (i : ℕ) : QWORD := BitVec.ofNat 64 (32 * (i + 1))

def nthInsert (i : ℕ) : HashCall fourByteKeys × Option HashNode :=
  (.insert (nthElement i) (nthKey i), none)

/-- The map after the first `n` insertions. -/
def filledMap (n : ℕ) : KeyMap fourByteKeys := fun key =>
  if keyValue key < n then some (nthElement (keyValue key)) else none

private theorem leValue_digits {p : ℕ → BYTE} {i n : ℕ}
    (hp : ∀ j < n, p j = BitVec.ofNat 8 (i / 256 ^ j)) : leValue p n = i % 256 ^ n := by
  induction n with
  | zero => simp [leValue, Nat.mod_one]
  | succ n ih =>
    have hsplit : i % 256 ^ (n + 1) = i % 256 ^ n + 256 ^ n * (i / 256 ^ n % 256) :=
      Nat.mod_pow_succ
    rw [leValue, ih fun j hj => hp j (by omega), hp n (by omega), BitVec.toNat_ofNat, hsplit,
      Nat.mul_comm, Nat.add_comm]

private theorem keyValue_nthKey {i : ℕ} (hi : i < 2 ^ 32) : keyValue (nthKey i) = i := by
  have hdigits : ∀ j < 4, (nthKey i).byte j = BitVec.ofNat 8 (i / 256 ^ j) := by
    intro j hj
    exact dif_pos hj
  exact (leValue_digits hdigits).trans (Nat.mod_eq_of_lt hi)

private theorem nthElement_injective {i j : ℕ} (hi : i < 2 ^ 32) (hj : j < 2 ^ 32)
    (h : nthElement i = nthElement j) : i = j := by
  have hnat := congrArg BitVec.toNat h
  simp only [nthElement, BitVec.toNat_ofNat] at hnat
  lia

private theorem filledMap_succ {n : ℕ} (hn : n < 2 ^ 32) :
    filledMap (n + 1) = Function.update (filledMap n) (nthKey n) (some (nthElement n)) := by
  have hvalue := keyValue_nthKey hn
  funext key
  by_cases hkey : key = nthKey n
  · rw [hkey, Function.update_self, filledMap, hvalue, if_pos (Nat.lt_succ_self n)]
  · have hne : keyValue key ≠ n := fun h => hkey (keyValue_injective (h.trans hvalue.symm))
    rw [Function.update_of_ne hkey, filledMap, filledMap]
    exact if_congr (by omega) rfl rfl

private theorem filledMap_nthKey {n : ℕ} (hn : n < 2 ^ 32) : filledMap n (nthKey n) = none := by
  rw [filledMap, keyValue_nthKey hn, if_neg (lt_irrefl n)]

variable (links : Links HashNode) (key : QWORD → Key fourByteKeys.keySize.toNat)

/-- Distinct elements with distinct keys are inserted one after the other. -/
theorem fill_runs {n : ℕ} (hn : n ≤ 2 ^ 32) :
    ∃ tr s, Exec hashStep (hashTableInit fourByteKeys links key) tr s ∧
      tr.map Prod.snd = (List.range n).map nthInsert ∧ Refines s (filledMap n) ∧
      (filledMap n).count = n := by
  induction n with
  | zero =>
    have hempty : filledMap 0 = fun _ => none := by
      funext k
      simp [filledMap]
    refine ⟨[], _, Exec.nil, rfl, ?_, by simp [hempty, KeyMap.count]⟩
    rw [hempty]
    exact hashTableInit_refines ..
  | succ n ih =>
    obtain ⟨tr, s, hexec, hlabels, href, hcount⟩ := ih (by omega)
    have hnone := filledMap_nthKey (show n < 2 ^ 32 by omega)
    have hfresh : ∀ key, filledMap n key ≠ some (nthElement n) := by
      intro key hm
      unfold filledMap at hm
      split_ifs at hm with hlt
      have := nthElement_injective (by omega) (by omega) (Option.some.inj hm)
      omega
    obtain ⟨s', hs, href'⟩ := href.insertNew _ _ hnone hfresh
    rw [filledMap_succ (by omega), count_insert _ hnone, hcount]
    refine ⟨_, s', hexec.snoc hs, ?_, href', rfl⟩
    rw [List.map_append, hlabels, List.range_succ, List.map_append]
    rfl

theorem twoInserts_refine :
    ∃ tr s, Exec hashStep (hashTableInit fourByteKeys ⟨id, id⟩ fun _ _ => 0) tr s ∧
      tr.map Prod.snd = [nthInsert 0, nthInsert 1] ∧
      (∃ tr' m, Exec mapStep (fun _ => none) tr' m ∧ tr'.map Prod.snd = tr.map Prod.snd ∧
        Refines s m) ∧
      ∀ c, s.permits c = true → ∃ ret s', hashStep s (c, ret) s' := by
  obtain ⟨tr, s, hexec, hlabels, -, -⟩ := fill_runs ⟨id, id⟩ (fun _ _ => 0)
    (show 2 ≤ 2 ^ 32 by decide)
  exact ⟨tr, s, hexec, hlabels, hashTable_refines_map hexec⟩

/-- After 2³² insertions of different keys the size is 0. -/
theorem size_wraps :
    ∃ tr s, Exec hashStep (hashTableInit fourByteKeys ⟨id, id⟩ fun _ _ => 0) tr s ∧
      tr.map Prod.snd = (List.range (2 ^ 32)).map nthInsert ∧
      ∃ m, Refines s m ∧ m.count = 2 ^ 32 ∧ hashTableSize s = 0 := by
  obtain ⟨tr, s, hexec, hlabels, href, hcount⟩ := fill_runs ⟨id, id⟩ (fun _ _ => 0) le_rfl
  have hsize := href.size
  rw [hcount, Nat.mod_self] at hsize
  exact ⟨tr, s, hexec, hlabels, _, href, hcount, BitVec.eq_of_toNat_eq hsize⟩

end Fill

end HAL9000.HashTable
