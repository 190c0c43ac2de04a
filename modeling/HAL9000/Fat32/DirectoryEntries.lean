import HAL9000.Fat32.Termination

/-! The entries that a walk over a directory comes to, as a list. A walk that fails no assertion on the
list returns. -/
namespace HAL9000.Fat32

open Program Walk

variable (d : FatData) {σ ρ : Type}

/-- The entries up to the end of the directory; the first one is not tested for it. -/
def visited : List DirEntry → List DirEntry
  | [] => []
  | e :: l => e :: l.takeWhile (·.name 0 ≠ freeAll)

namespace Volume

variable (v : Volume)

def clusterEntries (sector : ℕ) : List DirEntry :=
  (List.range' 0 d.entriesPerCluster).map (v.entryAt d sector)

/-- The cluster in which the directory goes on. -/
def continuation (sector : ℕ) : Option ℕ :=
  if (visited (v.clusterEntries d sector)).length = d.entriesPerCluster then v.following d sector
  else none

end Volume

/-- The entries of a directory, along a chain that ends. -/
inductive Listed (v : Volume) : ℕ → List DirEntry → Prop
  | last {sector : ℕ} (h : v.continuation d sector = none) :
    Listed v sector (visited (v.clusterEntries d sector))
  | more {sector next : ℕ} {l : List DirEntry} (h : v.continuation d sector = some next)
    (hl : Listed v next l) : Listed v sector (visited (v.clusterEntries d sector) ++ l)

namespace DirectoryWalk

variable (k : DirectoryWalk σ ρ)

def visitAll (sector : ℕ) : List DirEntry → σ → Except Fault (Visit σ ρ)
  | [], s => .ok (.next s)
  | e :: l, s => do
    match ← k.visit sector s e with
    | .stop r => return .stop r
    | .next s => visitAll sector l s

end DirectoryWalk

/-- How a cluster ends after its entries have been visited. -/
def Visit.toScan (full : Bool) : Visit σ ρ → Scan σ ρ
  | .stop r => .stop r
  | .next s => if full then .endOfCluster s else .endOfDirectory s

variable {d} {k : DirectoryWalk σ ρ} {v : Volume} {sector : ℕ} {l l' : List DirEntry} {s : σ}

section Scans

theorem visitAll_cons_next {e : DirEntry} {s' : σ} (h : k.visit sector s e = .ok (.next s')) :
    k.visitAll sector (e :: l) s = k.visitAll sector l s' := by
  rw [DirectoryWalk.visitAll, h]
  rfl

theorem visitAll_append {s' : σ} (h : k.visitAll sector l s = .ok (.next s')) :
    k.visitAll sector (l ++ l') s = k.visitAll sector l' s' := by
  induction l generalizing s with
  | nil =>
    obtain rfl : s = s' := by simpa [DirectoryWalk.visitAll] using h
    rfl
  | cons e l ih =>
    rw [List.cons_append]
    cases hvisit : k.visit sector s e with
    | error fault =>
      rw [DirectoryWalk.visitAll, hvisit] at h
      cases h
    | ok r =>
      cases r with
      | stop r =>
        rw [DirectoryWalk.visitAll, hvisit] at h
        cases h
      | next s₁ =>
        rw [visitAll_cons_next hvisit] at h ⊢
        exact ih h

theorem visited_cons_cons {e e' : DirEntry} (h : e'.name 0 ≠ freeAll) :
    visited (e :: e' :: l) = e :: visited (e' :: l) := by
  rw [visited, visited, List.takeWhile_cons_of_pos (by simpa using h)]

theorem visited_cons_end {e e' : DirEntry} (h : e'.name 0 = freeAll) :
    visited (e :: e' :: l) = [e] := by
  rw [visited, List.takeWhile_cons_of_neg (by simpa using h)]

/-- The loop over a cluster visits the entries of the list. -/
theorem scanCluster_eq (n index : ℕ) :
    scanCluster d k v sector n index s =
      (k.visitAll sector (visited ((List.range' index n).map (v.entryAt d sector))) s).map
        (Visit.toScan ((visited ((List.range' index n).map (v.entryAt d sector))).length = n)) := by
  induction n generalizing index s with
  | zero => rfl
  | succ n ih =>
    rw [List.range'_succ, List.map_cons]
    cases hvisit : k.visit sector s (v.entryAt d sector index) with
    | error fault =>
      rw [scanCluster, hvisit, visited, DirectoryWalk.visitAll, hvisit]
      rfl
    | ok r =>
      cases r with
      | stop r =>
        rw [scanCluster, hvisit, visited, DirectoryWalk.visitAll, hvisit]
        rfl
      | next s' =>
        rw [scanCluster_of_next hvisit]
        cases n with
        | zero =>
          rw [if_neg (fun h => h.1 rfl), visited, visitAll_cons_next hvisit]
          rfl
        | succ n =>
          rw [ih, List.range'_succ, List.map_cons]
          by_cases hend : (v.entryAt d sector (index + 1)).name 0 = freeAll
          · rw [if_pos ⟨by omega, hend⟩, visited_cons_end hend, visitAll_cons_next hvisit]
            have hpart : decide ([v.entryAt d sector index].length = n + 1 + 1) = false :=
              decide_eq_false (by simp)
            rw [hpart]
            rfl
          · rw [if_neg fun h => hend h.2, visited_cons_cons hend, visitAll_cons_next hvisit]
            simp only [List.length_cons, Nat.add_right_cancel_iff]

theorem DirectoryWalk.scan_eq : k.scan d v (sector, s) =
    (k.visitAll sector (visited (v.clusterEntries d sector)) s).map
      (Visit.toScan ((visited (v.clusterEntries d sector)).length = d.entriesPerCluster)) :=
  scanCluster_eq _ _

theorem DirectoryWalk.faults_iff : k.Faults d v (sector, s) ↔
    ∃ e, k.visitAll sector (visited (v.clusterEntries d sector)) s = .error e := by
  unfold DirectoryWalk.Faults
  rw [scan_eq]
  cases k.visitAll sector (visited (v.clusterEntries d sector)) s with
  | error e => exact iff_of_true ⟨e, rfl⟩ ⟨e, rfl⟩
  | ok r => exact iff_of_false (fun ⟨_, h⟩ => nomatch h) fun ⟨_, h⟩ => nomatch h

theorem DirectoryWalk.next_eq_some {a : ℕ × σ} : k.next d v (sector, s) = some a ↔
    v.continuation d sector = some a.1 ∧
      k.visitAll sector (visited (v.clusterEntries d sector)) s = .ok (.next a.2) := by
  unfold DirectoryWalk.next Volume.continuation
  rw [scan_eq]
  cases k.visitAll sector (visited (v.clusterEntries d sector)) s with
  | error e => simp [Except.map]
  | ok r =>
    cases r with
    | stop r => simp [Except.map, Visit.toScan]
    | next s' =>
      by_cases hfull : (visited (v.clusterEntries d sector)).length = d.entriesPerCluster
      · rw [if_pos hfull, decide_eq_true hfull]
        change (v.following d sector).map (fun next => (next, s')) = some a ↔ _
        rw [Option.map_eq_some_iff]
        constructor
        · intro h
          obtain ⟨next, hnext, rfl⟩ := h
          exact ⟨hnext, rfl⟩
        · intro h
          obtain ⟨hnext, hs⟩ := h
          obtain rfl : s' = a.2 := by simpa using hs
          exact ⟨a.1, hnext, rfl⟩
      · rw [if_neg hfull, decide_eq_false hfull]
        exact iff_of_false (fun h => nomatch h) fun h => nomatch h.1

end Scans

section Lists

variable {b : ℕ × σ} {r : Except FatStatus ρ}

theorem visitAll_append_of_ne (h : ∀ s', k.visitAll sector l s ≠ .ok (.next s')) :
    k.visitAll sector (l ++ l') s = k.visitAll sector l s := by
  induction l generalizing s with
  | nil => exact absurd rfl (h s)
  | cons e l ih =>
    rw [List.cons_append]
    cases hvisit : k.visit sector s e with
    | error fault => rw [DirectoryWalk.visitAll, DirectoryWalk.visitAll, hvisit]; rfl
    | ok x =>
      cases x with
      | stop r => rw [DirectoryWalk.visitAll, DirectoryWalk.visitAll, hvisit]; rfl
      | next s₁ =>
        rw [visitAll_cons_next hvisit] at h ⊢
        rw [visitAll_cons_next hvisit]
        exact ih h

theorem visitAll_ok (h : ∀ e ∈ l, ∀ s, ∃ x, k.visit sector s e = .ok x) :
    ∃ x, k.visitAll sector l s = .ok x := by
  induction l generalizing s with
  | nil => exact ⟨_, rfl⟩
  | cons e l ih =>
    obtain ⟨x, hx⟩ := h e List.mem_cons_self s
    cases x with
    | stop r => exact ⟨.stop r, by rw [DirectoryWalk.visitAll, hx]; rfl⟩
    | next s' =>
      rw [visitAll_cons_next hx]
      exact ih fun e he => h e (List.mem_cons_of_mem _ he)

/-- A walk may not look at the sector. -/
theorem visitAll_sector (hk : ∀ sector, k.visit sector = k.visit 0) :
    k.visitAll sector l s = k.visitAll 0 l s := by
  induction l generalizing s with
  | nil => rfl
  | cons e l ih =>
    rw [DirectoryWalk.visitAll, DirectoryWalk.visitAll, hk sector]
    simp only [ih]

/-- The walk stops at one of the entries. -/
theorem visitAll_stop (h : k.visitAll sector l s = .ok (.stop r)) :
    ∃ e ∈ l, ∃ s', k.visit sector s' e = .ok (.stop r) := by
  induction l generalizing s with
  | nil => cases h
  | cons e l ih =>
    cases hvisit : k.visit sector s e with
    | error fault =>
      rw [DirectoryWalk.visitAll, hvisit] at h
      cases h
    | ok x =>
      cases x with
      | stop r' =>
        rw [DirectoryWalk.visitAll, hvisit] at h
        change Except.ok (Visit.stop r') = Except.ok (Visit.stop r) at h
        obtain rfl : r' = r := by simpa using h
        exact ⟨e, List.mem_cons_self, s, hvisit⟩
      | next s₁ =>
        rw [visitAll_cons_next hvisit] at h
        obtain ⟨e', he', s', hstop⟩ := ih h
        exact ⟨e', List.mem_cons_of_mem _ he', s', hstop⟩

theorem Volume.following_of_continuation {next : ℕ} (h : v.continuation d sector = some next) :
    v.following d sector = some next := by
  unfold Volume.continuation at h
  split_ifs at h
  exact h

theorem exists_listed_of_after {n : ℕ} (h : after (v.following d) n sector = none) :
    ∃ l, Listed d v sector l := by
  induction n generalizing sector with
  | zero => cases h
  | succ n ih =>
    cases hnext : v.continuation d sector with
    | none => exact ⟨_, .last hnext⟩
    | some next =>
      obtain ⟨l, hl⟩ := ih (after_succ_eq_none.mp h next (Volume.following_of_continuation hnext))
      exact ⟨_, .more hnext hl⟩

/-- A directory whose chain is acyclic has a list of entries. -/
theorem exists_listed (h : NeverRepeats (v.following d) sector) : ∃ l, Listed d v sector l := by
  have hfin : {a | Reaches (v.following d) sector a}.Finite := by
    have hsectors : ({sector} ∪ d.sectorOf '' {c | c < 2 ^ 28}).Finite :=
      (Set.finite_singleton _).union ((Set.finite_lt_nat _).image _)
    refine hsectors.subset fun a ha => ?_
    rcases Reaches.eq_or_next ha with rfl | ⟨c, hc⟩
    · exact Or.inl rfl
    · obtain ⟨cluster, hlt, hsector⟩ := Volume.following_mem hc
      exact Or.inr ⟨cluster, hlt, hsector.symm⟩
  obtain ⟨n, hn⟩ := h.ends hfin
  exact exists_listed_of_after hn

namespace Listed

variable (hl : Listed d v sector l)

include hl

theorem ends (s : σ) : Ends (k.next d v) (sector, s) := by
  induction hl generalizing s with
  | last h =>
    refine ends_of_none (Option.eq_none_iff_forall_ne_some.mpr fun a ha => ?_)
    rw [DirectoryWalk.next_eq_some, h] at ha
    cases ha.1
  | more h hl ih =>
    cases hnext : k.next d v (_, s) with
    | none => exact ends_of_none hnext
    | some a =>
      obtain ⟨hcluster, -⟩ := DirectoryWalk.next_eq_some.mp hnext
      rw [h] at hcluster
      obtain rfl := Option.some.inj hcluster
      exact (ends_iff_of_some hnext).mpr (ih a.2)

/-- The walk visits entries of the list only. -/
theorem mem_of_reaches (h : Reaches (k.next d v) (sector, s) b) {e : DirEntry}
    (he : e ∈ visited (v.clusterEntries d b.1)) : e ∈ l := by
  induction hl generalizing s with
  | @last sector hend =>
    have hnone : k.next d v (sector, s) = none := by
      refine Option.eq_none_iff_forall_ne_some.mpr fun a ha => ?_
      rw [DirectoryWalk.next_eq_some, hend] at ha
      cases ha.1
    rw [reaches_iff_of_none hnone] at h
    rw [h] at he
    exact he
  | more hcont hl ih =>
    cases hnext : k.next d v (_, s) with
    | none =>
      rw [reaches_iff_of_none hnext] at h
      rw [h] at he
      exact List.mem_append_left _ he
    | some a =>
      obtain ⟨hcluster, -⟩ := DirectoryWalk.next_eq_some.mp hnext
      rw [hcont] at hcluster
      obtain rfl := Option.some.inj hcluster
      rcases (reaches_iff_of_some hnext).mp h with rfl | h
      · exact List.mem_append_left _ he
      · exact List.mem_append_right _ (ih h)

theorem not_faults (h : ∀ e ∈ l, ∀ sector s, ∃ x, k.visit sector s e = .ok x)
    (hb : Reaches (k.next d v) (sector, s) b) : ¬k.Faults d v b := by
  obtain ⟨c, t⟩ := b
  rw [DirectoryWalk.faults_iff]
  intro hfault
  obtain ⟨x, hx⟩ := @visitAll_ok _ _ k c (visited (v.clusterEntries d c)) t
    fun e he => h e (hl.mem_of_reaches hb he) c
  obtain ⟨e, he⟩ := hfault
  rw [hx] at he
  cases he

/-- What a walk returns is found at one of the entries, or is the end of the directory, or a failure. -/
theorem answer_of_leaves (hb : Reaches (k.next d v) (sector, s) b)
    (hr : k.LeavesAfterScan d v b r) :
    (∃ e ∈ l, ∃ sector s', k.visit sector s' e = .ok (.stop r)) ∨ (∃ s', r = k.finish s') ∨
      Failed r := by
  obtain ⟨c, t⟩ := b
  unfold DirectoryWalk.LeavesAfterScan at hr
  rw [DirectoryWalk.scan_eq] at hr
  cases hvisit : k.visitAll c (visited (v.clusterEntries d c)) t with
  | error fault =>
    rw [hvisit] at hr
    exact hr.elim
  | ok x =>
    rw [hvisit] at hr
    cases x with
    | stop r' =>
      obtain rfl : r = r' := hr
      obtain ⟨e, he, s', hstop⟩ := visitAll_stop hvisit
      exact Or.inl ⟨e, hl.mem_of_reaches hb he, c, s', hstop⟩
    | next s' =>
      by_cases hfull : (visited (v.clusterEntries d c)).length = d.entriesPerCluster
      · rw [decide_eq_true hfull] at hr
        exact Or.inr (hr.imp_left fun h => ⟨s', h⟩)
      · rw [decide_eq_false hfull] at hr
        exact Or.inr (Or.inl ⟨s', hr⟩)

/-- A walk that does not look at the sector fails an assertion exactly if it does on the list. -/
theorem not_faults_iff (hk : ∀ sector, k.visit sector = k.visit 0) :
    (∀ b, Reaches (k.next d v) (sector, s) b → ¬k.Faults d v b) ↔
      ∃ x, k.visitAll 0 l s = .ok x := by
  have hall := fun sector l s => @visitAll_sector _ _ k sector l s hk
  have hfault : ∀ sector s, ¬k.Faults d v (sector, s) ↔
      ∃ x, k.visitAll 0 (visited (v.clusterEntries d sector)) s = .ok x := by
    intro sector s
    rw [DirectoryWalk.faults_iff, hall]
    cases k.visitAll 0 (visited (v.clusterEntries d sector)) s <;> simp
  induction hl generalizing s with
  | last h =>
    rw [forall_reaches_iff, hfault]
    refine and_iff_left fun a ha => ?_
    rw [DirectoryWalk.next_eq_some, h] at ha
    cases ha.1
  | @more sector next l h hl ih =>
    rw [forall_reaches_iff, hfault]
    cases hvisit : k.visitAll 0 (visited (v.clusterEntries d sector)) s with
    | error fault =>
      rw [visitAll_append_of_ne (by rw [hvisit]; exact fun _ h => nomatch h), hvisit]
      exact iff_of_false (fun h => nomatch h.1) fun h => nomatch h
    | ok x =>
      cases x with
      | stop r =>
        rw [visitAll_append_of_ne (by rw [hvisit]; exact fun _ h => nomatch h), hvisit]
        refine and_iff_left fun a ha => ?_
        rw [DirectoryWalk.next_eq_some, hall, hvisit] at ha
        cases ha.2
      | next s' =>
        have hnext : k.next d v (sector, s) = some (next, s') :=
          DirectoryWalk.next_eq_some.mpr ⟨h, by rw [hall, hvisit]⟩
        rw [visitAll_append hvisit, hnext]
        constructor
        · intro hrest
          exact ih.mp (hrest.2 _ rfl)
        · intro hrest
          refine ⟨⟨_, rfl⟩, fun b hb => ?_⟩
          obtain rfl := Option.some.inj hb
          exact ih.mpr hrest

end Listed

end Lists

end HAL9000.Fat32
