import HAL9000.CommonLib.HashTable.Runs

/-! Iteration over a hash table with the list entries that it reads, and `HashTableClear` with the
calls of the free function. -/
namespace HAL9000.HashTable

open Ring Run

variable {cfg : HashConfig}

/-- `HashTableIteratorNext` with the nodes whose links it reads. -/
def tracedIteratorNext (s : HashState cfg) :
    ℕ → HashIterator → Except Fault (Option HashNode × HashIterator × List HashNode)
  | 0, _ => .error .outOfFuel
  | fuel + 1, it =>
    if it.keyIndex < cfg.maxKeys.toNat then
      let (pResult, current) := listIteratorNext s.links it.currentKeyIterator
      if pResult ≠ none then
        .ok (pResult, { it with currentKeyIterator := current },
          [it.currentKeyIterator.currentEntry])
      else do
        let (pResult, it', reads) ← tracedIteratorNext s fuel
          ⟨it.keyIndex + 1, listIteratorInit s.links (.bucket (it.keyIndex + 1))⟩
        return (pResult, it', .bucket (it.keyIndex + 1) :: reads)
    else .ok (none, it, [])

/-- What a caller does with the elements that it is given: which ones it removes before the next
call, and what it then writes over their entries, if anything. -/
structure Caller where
  removes : HashNode → Bool
  writes : HashNode → Option (HashNode × HashNode)

def HashState.overwrite (s : HashState cfg) (element : HashNode) :
    Option (HashNode × HashNode) → HashState cfg
  | none => s
  | some (flink, blink) =>
    { s with links := (s.links.setFlink element flink).setBlink element blink }

def Caller.visit (caller : Caller) (s : HashState cfg) (element : HashNode) : HashState cfg :=
  if caller.removes element then
    ((hashTableRemoveEntry s element).giveBack (some element)).overwrite element
      (caller.writes element)
  else s

/-- The nodes that the caller reads: `RemoveEntryList` reads both links of the entry. -/
def Caller.reads (caller : Caller) (element : HashNode) : List HashNode :=
  if caller.removes element then [element] else []

structure Iteration (cfg : HashConfig) where
  yielded : List HashNode
  reads : List HashNode
  table : HashState cfg

/-- The loop of a caller around `HashTableIteratorNext`. -/
def iterateFrom (fuel : ℕ) (caller : Caller) :
    ℕ → HashState cfg → HashIterator → Except Fault (Iteration cfg)
  | 0, _, _ => .error .outOfFuel
  | n + 1, s, it => do
    let (pEntry, it', reads) ← tracedIteratorNext s fuel it
    match pEntry with
    | none => return ⟨[], reads, s⟩
    | some element =>
      let rest ← iterateFrom fuel caller n (caller.visit s element) it'
      return ⟨element :: rest.yielded, reads ++ caller.reads element ++ rest.reads, rest.table⟩

/-- `HashTableIteratorInit` reads the forward link of the first bucket. -/
def iterate (fuel : ℕ) (caller : Caller) (s : HashState cfg) : Except Fault (Iteration cfg) := do
  let run ← iterateFrom fuel caller fuel s (hashTableIteratorInit s)
  return { run with reads := .bucket 0 :: run.reads }

/-- The caller that `HashTableClear` is; a free function may write anything over the entry. -/
def clearing (freeFunction : Option (HashNode → HashNode × HashNode)) : Caller where
  removes _ := true
  writes e := freeFunction.map fun free => free e

/-- The calls of the free function. -/
def freedElements (freeFunction : Option (HashNode → HashNode × HashNode)) (run : Iteration cfg) :
    List HashNode :=
  match freeFunction with
  | none => []
  | some _ => run.yielded

section Trace

variable {s : HashState cfg} {linked : QWORD → Bool}

theorem tracedIteratorNext_result (fuel : ℕ) (it : HashIterator) :
    (tracedIteratorNext s fuel it).map (fun r => (r.1, r.2.1)) =
      hashTableIteratorNext s fuel it := by
  induction fuel generalizing it with
  | zero => rfl
  | succ fuel ih =>
    rw [tracedIteratorNext, hashTableIteratorNext]
    by_cases hk : it.keyIndex < cfg.maxKeys.toNat
    · rw [if_pos hk, if_pos hk]
      by_cases hres : (listIteratorNext s.links it.currentKeyIterator).1 ≠ none
      · simp only [if_pos hres]
        rfl
      · simp only [if_neg hres, ← ih]
        cases tracedIteratorNext s fuel
          ⟨it.keyIndex + 1, listIteratorInit s.links (.bucket (it.keyIndex + 1))⟩ <;> rfl
    · rw [if_neg hk, if_neg hk]
      rfl

theorem tracedIteratorNext_linked (fuel : ℕ) (it : HashIterator) :
    tracedIteratorNext { s with linked := linked } fuel it = tracedIteratorNext s fuel it := by
  induction fuel generalizing it with
  | zero => rfl
  | succ fuel ih => simp only [tracedIteratorNext, ih]

/-- The loop of `HashTableClear` without a free function. -/
theorem clearFrom_eq (fuel n : ℕ) (it : HashIterator) :
    (iterateFrom fuel (clearing none) n { s with linked := linked } it).map
      (fun run => { run.table with linked := s.linked }) = clearFrom fuel n s it := by
  induction n generalizing s linked it with
  | zero => rfl
  | succ n ih =>
    rw [iterateFrom, clearFrom, tracedIteratorNext_linked, ← tracedIteratorNext_result]
    cases tracedIteratorNext s fuel it with
    | error fault => rfl
    | ok r =>
      obtain ⟨pEntry, it', reads⟩ := r
      cases pEntry with
      | none => rfl
      | some element =>
        obtain ⟨linked', hvisit⟩ : ∃ linked', (clearing none).visit { s with linked := linked }
            element = { hashTableRemoveEntry s element with linked := linked' } := by
          cases element with
          | bucket i => exact ⟨linked, rfl⟩
          | entry e => exact ⟨Function.update linked e false, rfl⟩
        have hrest := @ih (hashTableRemoveEntry s element) linked' it'
        simp only [bind, Except.bind, Except.map, hvisit] at hrest ⊢
        rw [← hrest]
        cases iterateFrom fuel (clearing none) n
          { hashTableRemoveEntry s element with linked := linked' } it' <;> rfl

end Trace

section Visit

variable {s : HashState cfg} {m : KeyMap cfg} {bucket : ℕ → List QWORD} {e : QWORD}
  {caller : Caller}

private theorem overwrite_links (w : Option (HashNode × HashNode)) {x y : HashNode}
    (hx : x ≠ y) : (s.overwrite y w).links.flink x = s.links.flink x ∧
      (s.overwrite y w).links.blink x = s.links.blink x := by
  cases w with
  | none => exact ⟨rfl, rfl⟩
  | some w => exact ⟨Function.update_of_ne hx .., Function.update_of_ne hx ..⟩

@[simp] theorem overwrite_linked (x : HashNode) (w : Option (HashNode × HashNode)) :
    (s.overwrite x w).linked = s.linked := by
  cases w with
  | none => rfl
  | some w => rfl

@[simp] theorem overwrite_key (x : HashNode) (w : Option (HashNode × HashNode)) :
    (s.overwrite x w).key = s.key := by
  cases w with
  | none => rfl
  | some w => rfl

@[simp] theorem overwrite_size (x : HashNode) (w : Option (HashNode × HashNode)) :
    hashTableSize (s.overwrite x w) = hashTableSize s := by
  cases w with
  | none => rfl
  | some w => rfl

/-- The buckets do not depend on what an element holds that is in none of them. -/
theorem Represents.overwrite (h : Represents s bucket) (he : s.linked e = false)
    (w : Option (HashNode × HashNode)) : Represents (s.overwrite (.entry e) w) bucket := by
  refine ⟨fun i hi => ?_, fun i hi => ?_, fun i hi a ha => ?_, fun a => ?_⟩
  · have hne : ∀ x ∈ HashNode.bucket i :: (bucket i).map .entry, x ≠ .entry e := by
      intro x hx heq
      subst heq
      exact h.not_mem he hi (by simpa using hx)
    exact (h.ring i hi).frame (fun x hx => (overwrite_links w (hne x hx)).1)
      fun x hx => (overwrite_links w (hne x hx)).2
  · rw [overwrite_key]
    exact h.ordered i hi
  · rw [overwrite_key]
    exact h.hashed i hi a ha
  · rw [overwrite_linked]
    exact h.linked a

theorem Refines.overwrite (h : Refines s m) (he : s.linked e = false)
    (w : Option (HashNode × HashNode)) : Refines (s.overwrite (.entry e) w) m where
  represents := by
    obtain ⟨bucket, hrep⟩ := h.represents
    exact ⟨bucket, hrep.overwrite he w⟩
  stored key a := by
    rw [overwrite_linked, overwrite_key]
    exact h.stored key a
  size := by
    rw [overwrite_size]
    exact h.size

/-- What a visit leaves of the bucket behind the element, and of the elements that are linked. -/
theorem Refines.visit (h : Refines s m) (hrep : Represents s bucket) {k : ℕ}
    {before rest : List QWORD} (hk : k < cfg.maxKeys.toNat) (hl : bucket k = before ++ e :: rest) :
    ∃ m' bucket' before', Refines (caller.visit s (.entry e)) m' ∧
      Represents (caller.visit s (.entry e)) bucket' ∧ bucket' k = before' ++ rest ∧
      (∀ i > k, bucket' i = bucket i) ∧ ∀ a, (caller.visit s (.entry e)).linked a = true ↔
        s.linked a = true ∧ ¬ (a = e ∧ caller.removes (.entry a) = true) := by
  by_cases hremove : caller.removes (.entry e) = true
  · have hlinked : s.linked e = true := (hrep.linked e).mpr ⟨k, hk, by simp [hl]⟩
    have hrep' := hrep.remove hk hl (s.numberOfElements - 1)
    have hfree : ((hashTableRemoveEntry s (.entry e)).giveBack (some (.entry e))).linked e =
        false := Function.update_self ..
    have hvisit : caller.visit s (.entry e) = HashState.overwrite
        ((hashTableRemoveEntry s (.entry e)).giveBack (some (.entry e))) (.entry e)
        (caller.writes (.entry e)) :=
      if_pos hremove
    rw [hvisit]
    refine ⟨_, Function.update bucket k (before ++ rest), before,
      (h.removeEntry hlinked hrep').overwrite hfree _, hrep'.overwrite hfree _,
      Function.update_self .., fun i hi => Function.update_of_ne (by omega) .., fun a => ?_⟩
    rw [overwrite_linked]
    by_cases ha : a = e
    · subst ha
      simp [hfree, hremove]
    · have hsame : ((hashTableRemoveEntry s (.entry e)).giveBack (some (.entry e))).linked a =
          s.linked a := Function.update_of_ne ha ..
      simp [hsame, ha]
  · have hvisit : caller.visit s (.entry e) = s := if_neg hremove
    rw [hvisit]
    refine ⟨m, bucket, before ++ [e], h, hrep, by simp [hl], fun _ _ => rfl, fun a => ?_⟩
    refine ⟨fun ha => ⟨ha, fun hae => hremove (hae.1 ▸ hae.2)⟩, And.left⟩

end Visit

section Next

variable {s : HashState cfg} {bucket : ℕ → List QWORD}

/-- The elements of the buckets from `k` on. -/
def remaining (cfg : HashConfig) (bucket : ℕ → List QWORD) (k : ℕ) : List QWORD :=
  (List.range' k (cfg.maxKeys.toNat - k)).flatMap bucket

theorem remaining_of_lt {k : ℕ} (hk : k < cfg.maxKeys.toNat) :
    remaining cfg bucket k = bucket k ++ remaining cfg bucket (k + 1) := by
  rw [remaining, show cfg.maxKeys.toNat - k = cfg.maxKeys.toNat - (k + 1) + 1 by lia,
    List.range'_succ, List.flatMap_cons, remaining]

theorem remaining_end : remaining cfg bucket cfg.maxKeys.toNat = [] := by
  rw [remaining, Nat.sub_self]
  rfl

theorem remaining_congr {bucket' : ℕ → List QWORD} {k : ℕ}
    (h : ∀ i ≥ k, bucket' i = bucket i) : remaining cfg bucket' k = remaining cfg bucket k := by
  refine List.flatMap_congr fun i hi => h i ?_
  rw [List.mem_range'_1] at hi
  exact hi.1

/-- The iterator in bucket `k` before the elements `rest` of it. -/
def standing (k : ℕ) (rest : List QWORD) : HashIterator :=
  ⟨k, ⟨.bucket k, (rest.map HashNode.entry ++ [HashNode.bucket k]).headD (.bucket k)⟩⟩

theorem standing_start (hrep : Represents s bucket) {k : ℕ} (hk : k < cfg.maxKeys.toNat) :
    (⟨k, listIteratorInit s.links (.bucket k)⟩ : HashIterator) = standing k (bucket k) := by
  rw [standing, listIteratorInit, (hrep.ring k hk).seg.flink]

/-- A bucket without further elements: the iterator goes on to the next slot. -/
theorem tracedIteratorNext_nil {k fuel : ℕ} (hk : k < cfg.maxKeys.toNat) :
    tracedIteratorNext s (fuel + 1) (standing k []) = (tracedIteratorNext s fuel
      ⟨k + 1, listIteratorInit s.links (.bucket (k + 1))⟩).map
        fun r => (r.1, r.2.1, .bucket (k + 1) :: r.2.2) := by
  have hdone : listIteratorNext s.links (standing k []).currentKeyIterator =
      (none, (standing k []).currentKeyIterator) := by simp [standing, listIteratorNext]
  rw [tracedIteratorNext, if_pos (show (standing k []).keyIndex < _ from hk), hdone,
    show (standing k []).keyIndex = k from rfl]
  simp only [ne_eq, not_true_eq_false, if_false]
  cases tracedIteratorNext s fuel ⟨k + 1, listIteratorInit s.links (.bucket (k + 1))⟩ <;> rfl

theorem tracedIteratorNext_cons (hrep : Represents s bucket) {k fuel : ℕ} {e : QWORD}
    {before rest : List QWORD} (hk : k < cfg.maxKeys.toNat) (hl : bucket k = before ++ e :: rest) :
    tracedIteratorNext s (fuel + 1) (standing k (e :: rest)) =
      .ok (some (.entry e), standing k rest, [.entry e]) := by
  have hring := (hrep.ring k hk).seg
  rw [hl, List.map_append, List.map_cons, seg_append] at hring
  have hnext : s.links.flink (.entry e) =
      (rest.map HashNode.entry ++ [HashNode.bucket k]).headD (.bucket k) := hring.2.flink
  rw [tracedIteratorNext, if_pos (show (standing k (e :: rest)).keyIndex < _ from hk), standing,
    standing, ← hnext]
  simp [listIteratorNext]

/-- What a call returns: the first element that is left, or nothing after a read of the slot
behind the table. -/
theorem tracedIteratorNext_spec (hrep : Represents s bucket) {k : ℕ} {before rest : List QWORD}
    (hk : k < cfg.maxKeys.toNat) (hl : bucket k = before ++ rest) :
    match rest ++ remaining cfg bucket (k + 1) with
    | [] => ∃ it reads, (∀ fuel > cfg.maxKeys.toNat - k,
          tracedIteratorNext s fuel (standing k rest) =
            .ok (none, it, reads ++ [.bucket cfg.maxKeys.toNat])) ∧
        ∀ x ∈ reads, ∃ i < cfg.maxKeys.toNat, x = .bucket i
    | e :: l => ∃ j before' rest' reads, j < cfg.maxKeys.toNat ∧
        bucket j = before' ++ e :: rest' ∧ l = rest' ++ remaining cfg bucket (j + 1) ∧
        (∀ fuel > cfg.maxKeys.toNat - k, tracedIteratorNext s fuel (standing k rest) =
          .ok (some (.entry e), standing j rest', reads ++ [.entry e])) ∧
        ∀ x ∈ reads, ∃ i < cfg.maxKeys.toNat, x = .bucket i := by
  induction hn : cfg.maxKeys.toNat - k generalizing k before rest with
  | zero => omega
  | succ n ih =>
    cases rest with
    | cons e rest =>
      refine ⟨k, before, rest, [], hk, hl, rfl, fun fuel hfuel => ?_, nofun⟩
      obtain ⟨fuel, rfl⟩ := Nat.exists_eq_succ_of_ne_zero (show fuel ≠ 0 by omega)
      exact tracedIteratorNext_cons hrep hk hl
    | nil =>
      rw [List.nil_append]
      by_cases hend : k + 1 = cfg.maxKeys.toNat
      · rw [hend, remaining_end]
        refine ⟨⟨cfg.maxKeys.toNat, listIteratorInit s.links (.bucket cfg.maxKeys.toNat)⟩, [],
          fun fuel hfuel => ?_, nofun⟩
        obtain ⟨fuel, rfl⟩ := Nat.exists_eq_add_of_le' (show 2 ≤ fuel by omega)
        rw [tracedIteratorNext_nil hk, hend, tracedIteratorNext, if_neg (lt_irrefl _)]
        rfl
      · have hk' : k + 1 < cfg.maxKeys.toNat := by omega
        have hnext := ih hk' (List.nil_append _).symm (by omega)
        rw [← remaining_of_lt hk', ← standing_start hrep hk'] at hnext
        have hreads : ∀ {reads : List HashNode},
            (∀ x ∈ reads, ∃ i < cfg.maxKeys.toNat, x = .bucket i) →
            ∀ x ∈ HashNode.bucket (k + 1) :: reads, ∃ i < cfg.maxKeys.toNat, x = .bucket i := by
          intro reads hreads x hx
          rcases List.mem_cons.mp hx with rfl | hx
          · exact ⟨k + 1, hk', rfl⟩
          · exact hreads x hx
        cases hrest : remaining cfg bucket (k + 1) with
        | nil =>
          rw [hrest] at hnext
          obtain ⟨it, reads, hok, hall⟩ := hnext
          refine ⟨it, _, fun fuel hfuel => ?_, hreads hall⟩
          obtain ⟨fuel, rfl⟩ := Nat.exists_eq_succ_of_ne_zero (show fuel ≠ 0 by omega)
          rw [tracedIteratorNext_nil hk, hok fuel (by omega)]
          rfl
        | cons e l =>
          rw [hrest] at hnext
          obtain ⟨j, before', rest', reads, hj, hsplit, hrest', hok, hall⟩ := hnext
          refine ⟨j, before', rest', _, hj, hsplit, hrest', fun fuel hfuel => ?_, hreads hall⟩
          obtain ⟨fuel, rfl⟩ := Nat.exists_eq_succ_of_ne_zero (show fuel ≠ 0 by omega)
          rw [tracedIteratorNext_nil hk, hok fuel (by omega)]
          rfl

end Next

theorem HashConfig.maxKeys_pos (cfg : HashConfig) : 0 < cfg.maxKeys.toNat :=
  Nat.zero_lt_of_lt (hashIndex_lt fun _ => 0)

section Iterate

variable {s : HashState cfg} {m : KeyMap cfg} {bucket : ℕ → List QWORD}

theorem Caller.eq_of_mem_reads (caller : Caller) {x y : HashNode} (h : x ∈ caller.reads y) :
    x = y := by
  by_cases hremove : caller.removes y = true
  · rw [Caller.reads, if_pos hremove] at h
    exact List.mem_singleton.mp h
  · rw [Caller.reads, if_neg hremove] at h
    exact absurd h List.not_mem_nil

/-- What a caller has seen and done at the end of its loop over the elements `l`. -/
structure Complete (caller : Caller) (s : HashState cfg) (l : List QWORD) (run : Iteration cfg) :
    Prop where
  yielded : run.yielded = l.map .entry
  overread : .bucket cfg.maxKeys.toNat ∈ run.reads
  reads : ∀ x ∈ run.reads, (∃ i ≤ cfg.maxKeys.toNat, x = .bucket i) ∨ x ∈ l.map .entry
  refines : ∃ m, Refines run.table m
  linked : ∀ e, run.table.linked e = true ↔
    s.linked e = true ∧ ¬ (e ∈ l ∧ caller.removes (.entry e) = true)

theorem iterateFrom_spec (caller : Caller) (h : Refines s m) (hrep : Represents s bucket) {k : ℕ}
    {before rest l : List QWORD} (hk : k < cfg.maxKeys.toNat) (hsplit : bucket k = before ++ rest)
    (hl : rest ++ remaining cfg bucket (k + 1) = l) :
    ∃ run, (∀ fuel n, cfg.maxKeys.toNat < fuel → l.length < n →
        iterateFrom fuel caller n s (standing k rest) = .ok run) ∧ Complete caller s l run := by
  induction l generalizing s m bucket k before rest with
  | nil =>
    have hnext := tracedIteratorNext_spec hrep hk hsplit
    rw [hl] at hnext
    obtain ⟨it, reads, hok, hreads⟩ := hnext
    refine ⟨⟨[], reads ++ [.bucket cfg.maxKeys.toNat], s⟩, fun fuel n hfuel hn => ?_, rfl, by simp,
      fun x hx => ?_, ⟨m, h⟩, by simp⟩
    · obtain ⟨n, rfl⟩ := Nat.exists_eq_succ_of_ne_zero (Nat.ne_of_gt hn)
      rw [iterateFrom, hok fuel (by omega)]
      rfl
    · rcases List.mem_append.mp hx with hx | hx
      · obtain ⟨i, hi, rfl⟩ := hreads x hx
        exact Or.inl ⟨i, hi.le, rfl⟩
      · exact Or.inl ⟨_, le_rfl, List.mem_singleton.mp hx⟩
  | cons e l ih =>
    have hnext := tracedIteratorNext_spec hrep hk hsplit
    rw [hl] at hnext
    obtain ⟨j, before', rest', reads, hj, hsplit', hl', hok, hreads⟩ := hnext
    obtain ⟨m', bucket', before'', h', hrep', hbucket, hlater, hlinked⟩ :=
      @Refines.visit cfg s m bucket e caller h hrep j before' rest' hj hsplit'
    have hsame : remaining cfg bucket' (j + 1) = remaining cfg bucket (j + 1) :=
      remaining_congr fun i hi => hlater i (by omega)
    obtain ⟨run, hrun, hdone⟩ := ih h' hrep' hj hbucket (by rw [hsame, hl'])
    refine ⟨⟨.entry e :: run.yielded, reads ++ [.entry e] ++ caller.reads (.entry e) ++ run.reads,
      run.table⟩, fun fuel n hfuel hn => ?_, by rw [hdone.yielded, List.map_cons],
      List.mem_append_right _ hdone.overread, fun x hx => ?_, hdone.refines, fun a => ?_⟩
    · obtain ⟨n, rfl⟩ := Nat.exists_eq_succ_of_ne_zero (Nat.ne_of_gt (Nat.zero_lt_of_lt hn))
      rw [iterateFrom, hok fuel (by omega)]
      simp only [bind, Except.bind, hrun fuel n hfuel (Nat.lt_of_succ_lt_succ hn)]
      rfl
    · rw [List.mem_append, List.mem_append, List.mem_append] at hx
      rcases hx with ((hx | hx) | hx) | hx
      · obtain ⟨i, hi, rfl⟩ := hreads x hx
        exact Or.inl ⟨i, hi.le, rfl⟩
      · exact Or.inr (by simp [List.mem_singleton.mp hx])
      · exact Or.inr (by simp [caller.eq_of_mem_reads hx])
      · exact (hdone.reads x hx).imp_right (List.mem_cons_of_mem _)
    · rw [hdone.linked, hlinked]
      by_cases ha : a = e
      · simp [ha]
        tauto
      · simp [ha]

private theorem mem_slots {i n : ℕ} : i ∈ List.range' 0 (n - 0) ↔ i < n := by
  simp

/-- The elements of a table, in the order in which iteration comes to them. -/
theorem remaining_elements (hrep : Represents s bucket) :
    (remaining cfg bucket 0).Nodup ∧ ∀ e, e ∈ remaining cfg bucket 0 ↔ s.linked e = true := by
  refine ⟨List.nodup_flatMap.mpr ⟨fun i hi => ?_, ?_⟩, fun e => ?_⟩
  · have hnd := (List.nodup_cons.mp (hrep.ring i (mem_slots.mp hi)).nodup).2
    exact hnd.of_map _
  · refine (List.nodup_range').imp_of_mem fun {i j} hi hj hij a ha ha' => hij ?_
    exact (hrep.hashed i (mem_slots.mp hi) a ha).symm.trans (hrep.hashed j (mem_slots.mp hj) a ha')
  · rw [hrep.linked, remaining, List.mem_flatMap]
    exact exists_congr fun i => and_congr_left' mem_slots

/-- A walk with `HashTableIteratorNext` from `HashTableIteratorInit` on. -/
theorem iterate_spec (caller : Caller) (h : Refines s m) : ∃ l run,
    (∃ bound, ∀ fuel ≥ bound, iterate fuel caller s = .ok run) ∧ Complete caller s l run ∧
      l.Nodup ∧ ∀ e, e ∈ l ↔ s.linked e = true := by
  obtain ⟨bucket, hrep⟩ := h.represents
  have hpos := cfg.maxKeys_pos
  obtain ⟨hnodup, hmem⟩ := remaining_elements hrep
  rw [remaining_of_lt hpos] at hnodup hmem
  obtain ⟨run, hrun, hdone⟩ := iterateFrom_spec caller h hrep hpos (List.nil_append _).symm rfl
  rw [← standing_start hrep hpos] at hrun
  refine ⟨_, { run with reads := .bucket 0 :: run.reads },
    ⟨max (cfg.maxKeys.toNat + 1) ((bucket 0 ++ remaining cfg bucket (0 + 1)).length + 1),
      fun fuel hfuel => ?_⟩, ⟨hdone.yielded, List.mem_cons_of_mem _ hdone.overread, fun x hx => ?_,
      hdone.refines, hdone.linked⟩, hnodup, hmem⟩
  · have hok := hrun fuel fuel (by omega) (by omega)
    rw [iterate, hashTableIteratorInit, hok]
    rfl
  · rcases List.mem_cons.mp hx with rfl | hx
    · exact Or.inl ⟨0, Nat.zero_le _, rfl⟩
    · exact hdone.reads x hx

end Iterate

section Clear

variable {s : HashState cfg} {m : KeyMap cfg}

/-- Each element is in the list exactly once. -/
def EachOnce (s : HashState cfg) (yielded : List HashNode) : Prop :=
  yielded.Nodup ∧ ∀ x, x ∈ yielded ↔ ∃ e, s.linked e = true ∧ x = .entry e

/-- Iteration ends after it has yielded each element once, whichever of them the caller removes
on the way and whatever it does with them. -/
def YieldsOnce (s : HashState cfg) : Prop :=
  ∀ caller, ∃ run, (∃ bound, ∀ fuel ≥ bound, iterate fuel caller s = .ok run) ∧
    EachOnce s run.yielded

/-- `HashTableClear` leaves no element and hands each one to the free function once. -/
def ClearsOnce (s : HashState cfg) : Prop :=
  ∀ freeFunction, ∃ run,
    (∃ bound, ∀ fuel ≥ bound, iterate fuel (clearing freeFunction) s = .ok run) ∧
      Refines run.table (fun _ => none) ∧
      (freeFunction ≠ none → EachOnce s (freedElements freeFunction run))

/-- No slot outside the table is read. -/
def StaysInTable (s : HashState cfg) : Prop :=
  ∀ caller fuel run, iterate fuel caller s = .ok run →
    ∀ i, .bucket i ∈ run.reads → i < cfg.maxKeys.toNat

/-- Iteration and clearing do their work and stay in the table. -/
structure IterationCorrect (s : HashState cfg) : Prop where
  yields : YieldsOnce s
  clears : ClearsOnce s
  inTable : StaysInTable s

theorem Complete.eachOnce {caller : Caller} {l : List QWORD} {run : Iteration cfg}
    (h : Complete caller s l run) (hnodup : l.Nodup) (hmem : ∀ e, e ∈ l ↔ s.linked e = true) :
    EachOnce s run.yielded := by
  rw [EachOnce, h.yielded]
  refine ⟨hnodup.map fun _ _ => HashNode.entry.inj, fun x => ?_⟩
  rw [List.mem_map]
  exact exists_congr fun e => and_congr (hmem e) eq_comm

theorem Refines.yieldsOnce (h : Refines s m) : YieldsOnce s := by
  intro caller
  obtain ⟨l, run, hrun, hdone, hnodup, hmem⟩ := iterate_spec caller h
  exact ⟨run, hrun, hdone.eachOnce hnodup hmem⟩

theorem Refines.clearsOnce (h : Refines s m) : ClearsOnce s := by
  intro freeFunction
  obtain ⟨l, run, hrun, hdone, hnodup, hmem⟩ := iterate_spec (clearing freeFunction) h
  obtain ⟨m', href⟩ := hdone.refines
  have hempty : m' = fun _ => none := by
    funext key
    rw [Option.eq_none_iff_forall_ne_some]
    intro e he
    have hlinked := (hdone.linked e).mp ((href.stored key e).mp he).1
    exact hlinked.2 ⟨(hmem e).mpr hlinked.1, rfl⟩
  refine ⟨run, hrun, hempty ▸ href, fun hfree => ?_⟩
  cases freeFunction with
  | none => exact absurd rfl hfree
  | some free => exact hdone.eachOnce hnodup hmem

/-- The loop here is that of `hashTableClear`, so `ClearsOnce` is about that call. -/
theorem hashTableClear_eq (fuel : ℕ) (s : HashState cfg) :
    (iterate fuel (clearing none) s).map (fun run => { run.table with linked := s.linked }) =
      hashTableClear fuel s := by
  have hloop := @clearFrom_eq cfg s s.linked fuel fuel (hashTableIteratorInit s)
  rw [hashTableClear, ← hloop, iterate]
  cases iterateFrom fuel (clearing none) fuel s (hashTableIteratorInit s) <;> rfl

/-- `HashTableIteratorNext` starts on the next slot before it compares the index with the size of
the table. The walk over any table does what it should, and reads the slot behind the table. -/
theorem iteration_overreads (h : Refines s m) :
    YieldsOnce s ∧ ClearsOnce s ∧ ¬ IterationCorrect s := by
  refine ⟨h.yieldsOnce, h.clearsOnce, fun hcorrect => ?_⟩
  obtain ⟨l, run, ⟨bound, hrun⟩, hdone, -, -⟩ := iterate_spec (clearing none) h
  exact lt_irrefl _ (hcorrect.inTable _ bound run (hrun bound le_rfl) _ hdone.overread)

/-- Keys of one byte in three buckets; the second stays empty. -/
def threeBuckets : HashConfig where
  maxKeys := 3
  keySize := 1
  hashFunc key := (key ⟨0, by decide⟩ &&& 2).setWidth 64
  maxKeys_lt := by decide
  keySize_pos := by decide
  keySize_le := by decide
  hashFunc_lt key := by
    have hlt : ∀ b : BYTE, (b &&& 2).setWidth 64 < (3 : QWORD) := by decide
    exact hlt _

def oneByteInsert (b : BYTE) : HashCall threeBuckets × Option HashNode :=
  (.insert (32 * (b.setWidth 64 + 1)) fun _ => b, none)

/-- Three elements, two of them in one bucket. -/
theorem iteration_overreads_threeBuckets :
    ∃ tr s, Exec hashStep (hashTableInit threeBuckets ⟨id, id⟩ fun _ _ => 0) tr s ∧
      tr.map Prod.snd = [oneByteInsert 0, oneByteInsert 2, oneByteInsert 1] ∧
      YieldsOnce s ∧ ClearsOnce s ∧ ¬ IterationCorrect s := by
  have hnone {m : KeyMap threeBuckets} {key : Key threeBuckets.keySize.toNat} {e e' : QWORD}
      (hm : ∀ key, m key ≠ some e') (hne : e ≠ e') :
      ∀ key', Function.update m key (some e) key' ≠ some e' := by
    intro key'
    rw [Function.update_apply]
    split_ifs
    · exact fun he => hne (Option.some.inj he)
    · exact hm key'
  obtain ⟨_, h₁, href⟩ := (hashTableInit_refines threeBuckets ⟨id, id⟩ fun _ _ => 0).insertNew
    (fun _ => 0) 32 rfl nofun
  obtain ⟨_, h₂, href⟩ := href.insertNew (fun _ => 2) 96 (by decide) (hnone nofun (by decide))
  obtain ⟨s, h₃, href⟩ := href.insertNew (fun _ => 1) 64 (by decide)
    (hnone (hnone nofun (by decide)) (by decide))
  exact ⟨_, s, ((Exec.nil.snoc h₁).snoc h₂).snoc h₃, rfl, iteration_overreads href⟩

/-- A table with one slot: the walk over it reads the second. -/
theorem not_iterationCorrect : ¬ ∀ (cfg : HashConfig) (s : HashState cfg) (m : KeyMap cfg),
    Refines s m → IterationCorrect s := by
  intro h
  have hcorrect := h _ _ _ (hashTableInit_refines fourByteKeys ⟨id, id⟩ fun _ _ => 0)
  exact absurd (hcorrect.inTable (clearing none) 2 _ rfl 1 (by decide)) (by decide)

end Clear

end HAL9000.HashTable
