import HAL9000.Fat32.DirectoryWalks
import HAL9000.Fat32.Runs
import Mathlib.Data.Set.Finite.Lattice
import Mathlib.Data.Finite.Prod
import Mathlib.Data.Fintype.Pi

/-! Which calls return on a volume of any content. A walk over a chain that comes back to a cluster with
nothing new collected goes on forever. -/
namespace HAL9000.Fat32

open Program Walk

variable (d : FatData) {σ ρ : Type}

namespace DirectoryWalk

variable (k : DirectoryWalk σ ρ)

/-- The walk never comes back to a cluster in the same state, and fails no assertion on its way. -/
def WalkReturns (v : Volume) (a : ℕ × σ) : Prop :=
  NeverRepeats (k.next d v) a ∧ ∀ b, Reaches (k.next d v) a b → ¬k.Faults d v b

def WalkAnswers (v : Volume) (a : ℕ × σ) (r : Except FatStatus ρ) : Prop :=
  ∃ b, Reaches (k.next d v) a b ∧ k.CanLeave d v b r

end DirectoryWalk

section Finite

variable {d} {k : DirectoryWalk σ ρ} {v : Volume} {a b : ℕ × σ}

theorem Volume.following_mem {sector next : ℕ} (h : v.following d sector = some next) :
    ∃ c < 2 ^ 28, next = d.sectorOf c := by
  obtain ⟨hnext, hne⟩ := Volume.following_eq_some.mp h
  unfold Volume.nextSector at hnext
  cases hcluster : d.clusterAt sector with
  | error e =>
    rw [hcluster] at hnext
    cases hnext
  | ok cluster =>
    rw [hcluster] at hnext
    change d.sectorAfter (v.link cluster) = .ok next at hnext
    unfold FatData.sectorAfter at hnext
    split_ifs at hnext with heoc hvalid
    · exact absurd (by simpa using hnext.symm) hne
    · have hlt := d.countOfClusters_lt
      exact ⟨v.link cluster, by omega, by simpa using hnext.symm⟩

theorem DirectoryWalk.next_mem (h : k.next d v a = some b) : ∃ c < 2 ^ 28, b.1 = d.sectorOf c := by
  unfold DirectoryWalk.next at h
  split at h
  · obtain ⟨next, hnext, rfl⟩ := Option.map_eq_some_iff.mp h
    exact Volume.following_mem hnext
  · cases h

theorem DirectoryWalk.finite_reaches [Finite σ] : {b | Reaches (k.next d v) a b}.Finite := by
  have hsectors : ({a.1} ∪ d.sectorOf '' {c | c < 2 ^ 28}).Finite :=
    (Set.finite_singleton _).union ((Set.finite_lt_nat _).image _)
  refine (hsectors.prod (Set.finite_univ (α := σ))).subset fun b hb => ⟨?_, trivial⟩
  rcases hb.eq_or_next with rfl | ⟨c, hc⟩
  · exact Or.inl rfl
  · obtain ⟨cluster, hlt, hsector⟩ := DirectoryWalk.next_mem hc
    exact Or.inr ⟨cluster, hlt, hsector.symm⟩

theorem DirectoryWalk.behaves [Finite σ] (k : DirectoryWalk σ ρ) (sector : ℕ) (s : σ) :
    Behaves (fun n => walkDirectory d k n sector s) v (k.WalkReturns d v (sector, s))
      (k.WalkAnswers d v (sector, s)) :=
  walkDirectory_behaves (sector, s) DirectoryWalk.finite_reaches

instance : Finite QueryState :=
  Finite.of_injective (fun s => (s.longName, s.requiredSize)) fun s t h => by
    cases s
    cases t
    simpa using h

end Finite

section Directories

variable {d} {v : Volume}

theorem fatSearchDirectoryEntry_behaves (sector : ℕ) (name : Name) (searchType : BYTE)
    (wantsInformation : Bool) :
    Behaves (fun n => fatSearchDirectoryEntry d n sector name searchType wantsInformation) v
      ((searchWalk d name searchType wantsInformation).WalkReturns d v (sector, .empty))
      ((searchWalk d name searchType wantsInformation).WalkAnswers d v (sector, .empty)) :=
  DirectoryWalk.behaves ..

theorem fatQueryDirectory_behaves (sector : ℕ) (size : DWORD) :
    Behaves (fun n => fatQueryDirectory d n sector size) v
      ((queryWalk size).WalkReturns d v (sector, ⟨.empty, 0⟩))
      ((queryWalk size).WalkAnswers d v (sector, ⟨.empty, 0⟩)) :=
  DirectoryWalk.behaves ..

end Directories

section Paths

/-- The search for a name of a path. -/
def pathWalk (searchType : BYTE) (wantsInformation : Bool) (name : Name) (names : List Name) :
    DirectoryWalk NameBuffer (Option SearchResult) :=
  searchWalk d name (if names = [] then searchType else attrDirectory) wantsInformation

/-- Every search along the path returns, also after one that has run out of memory. -/
def PathReturns (v : Volume) (searchType : BYTE) (wantsInformation : Bool) :
    List Name → ℕ → SearchResult → Prop
  | [], _, _ => True
  | name :: names, sector, result =>
    name.length ≥ longNameMaxChars ∨ name = [] ∨
      (pathWalk d searchType wantsInformation name names).WalkReturns d v (sector, .empty) ∧
        ∀ found, (pathWalk d searchType wantsInformation name names).WalkAnswers d v
          (sector, .empty) (.ok found) →
            PathReturns v searchType wantsInformation names (found.getD result).searchResult
              (found.getD result)

def PathAnswers (v : Volume) (searchType : BYTE) (wantsInformation : Bool) :
    List Name → ℕ → SearchResult → Except FatStatus SearchResult → Prop
  | [], _, result, r => r = .ok result
  | name :: names, sector, result, r =>
    if name.length ≥ longNameMaxChars ∨ name = [] then Failed r
    else
      (∃ e, r = .error e ∧ (pathWalk d searchType wantsInformation name names).WalkAnswers d v
        (sector, .empty) (.error e)) ∨
      ∃ found, (pathWalk d searchType wantsInformation name names).WalkAnswers d v
        (sector, .empty) (.ok found) ∧
          PathAnswers v searchType wantsInformation names (found.getD result).searchResult
            (found.getD result) r

def SearchReturns (v : Volume) (name : Name) (searchType : BYTE) (wantsInformation : Bool) : Prop :=
  name.head? ≠ some fatDelimiter ∨ name.length = 1 ∨
    PathReturns d v searchType wantsInformation (splitPath name.length name.tail)
      (d.sectorOf d.rootCluster) ⟨0, 0⟩

def SearchAnswers (v : Volume) (name : Name) (searchType : BYTE) (wantsInformation : Bool)
    (r : Except FatStatus SearchResult) : Prop :=
  if name.head? ≠ some fatDelimiter then Failed r
  else if name.length = 1 then
    if searchType &&& attrDirectory ≠ attrDirectory then r = .error .fileTypeInvalid
    else r = .ok ⟨d.sectorOf d.rootCluster, 0⟩
  else PathAnswers d v searchType wantsInformation (splitPath name.length name.tail)
    (d.sectorOf d.rootCluster) ⟨0, 0⟩ r

variable {d} {v : Volume}

theorem searchNames_bounded (searchType : BYTE) (wantsInformation : Bool) (names : List Name) :
    ∀ sector result, Bounded fun n => searchNames d n searchType wantsInformation names sector
      result := by
  induction names with
  | nil => exact fun _ _ => .const (.ret _)
  | cons name names ih =>
    exact fun sector result => .ite (.const (.fail _)) (.bind (walkDirectory_bounded (sector, _))
      fun found => ih _ _)

theorem searchNames_behaves (searchType : BYTE) (wantsInformation : Bool) (names : List Name)
    (sector : ℕ) (result : SearchResult) :
    Behaves (fun n => searchNames d n searchType wantsInformation names sector result) v
      (PathReturns d v searchType wantsInformation names sector result)
      (PathAnswers d v searchType wantsInformation names sector result) := by
  induction names generalizing sector result with
  | nil => exact .ret result
  | cons name names ih =>
    have hwalk := fatSearchDirectoryEntry_behaves (d := d) (v := v) sector name
      (if names = [] then searchType else attrDirectory) wantsInformation
    have hrest := hwalk.bind
      (fun found => searchNames_bounded (d := d) searchType wantsInformation names
        (found.getD result).searchResult (found.getD result))
      fun found _ => ih (found.getD result).searchResult (found.getD result)
    by_cases hbad : name.length ≥ longNameMaxChars ∨ name = []
    · have hfail : (fun n => searchNames d n searchType wantsInformation (name :: names) sector
          result) = fun _ => Prog.fail .pathNotValid := funext fun n => if_pos hbad
      have hr : ∀ r, PathAnswers d v searchType wantsInformation (name :: names) sector result r ↔
          Failed r := fun r => by rw [PathAnswers, if_pos hbad]
      rw [hfail]
      refine (Behaves.fail .pathNotValid).congr (iff_of_true trivial ?_)
        (fun r h => (hr r).mpr (h ▸ .error (by decide)))
        fun r h => ⟨_, Or.inr ⟨(hr r).mp h, .error (by decide)⟩, rfl⟩
      rw [PathReturns, ← or_assoc]
      exact Or.inl hbad
    · have hsearch : (fun n => searchNames d n searchType wantsInformation (name :: names) sector
          result) = _ := funext fun n => if_neg hbad
      have hr : ∀ r, PathAnswers d v searchType wantsInformation (name :: names) sector result r ↔
          _ := fun r => by rw [PathAnswers, if_neg hbad]
      rw [hsearch]
      refine hrest.congr ?_ (fun r => (hr r).mpr) fun r h => ⟨r, .refl r, (hr r).mp h⟩
      rw [PathReturns, ← or_assoc, or_iff_right hbad]
      exact Iff.rfl

theorem fatSearch_bounded (name : Name) (searchType : BYTE) (wantsInformation : Bool) :
    Bounded fun n => fatSearch d n name searchType wantsInformation :=
  .ite (.const (.fail _)) (.ite (.ite (.const (.fail _)) (.const (.ret _)))
    (searchNames_bounded ..))

theorem fatSearch_behaves (name : Name) (searchType : BYTE) (wantsInformation : Bool) :
    Behaves (fun n => fatSearch d n name searchType wantsInformation) v
      (SearchReturns d v name searchType wantsInformation)
      (SearchAnswers d v name searchType wantsInformation) := by
  have hpath := searchNames_behaves (d := d) (v := v) searchType wantsInformation
    (splitPath name.length name.tail) (d.sectorOf d.rootCluster) ⟨0, 0⟩
  unfold fatSearch SearchReturns SearchAnswers
  by_cases hhead : name.head? ≠ some fatDelimiter
  · simp only [if_pos hhead]
    exact (Behaves.fail .invalidFileName).congr (iff_of_true trivial (Or.inl hhead))
      (fun r hr => hr ▸ .error (by decide)) fun r hr => ⟨_, Or.inr ⟨hr, .error (by decide)⟩, rfl⟩
  · simp only [if_neg hhead]
    by_cases hroot : name.length = 1
    · simp only [if_pos hroot]
      by_cases htype : searchType &&& attrDirectory ≠ attrDirectory
      · simp only [if_pos htype]
        exact (Behaves.fail _).congr (iff_of_true trivial (Or.inr (Or.inl hroot))) (fun _ => id)
          fun r hr => ⟨r, .refl r, hr⟩
      · simp only [if_neg htype]
        exact (Behaves.ret _).congr (iff_of_true trivial (Or.inr (Or.inl hroot))) (fun _ => id)
          fun r hr => ⟨r, .refl r, hr⟩
    · simp only [if_neg hroot]
      refine hpath.congr ?_ (fun _ => id) fun r hr => ⟨r, .refl r, hr⟩
      rw [or_iff_right hhead, or_iff_right hroot]

end Paths

section Creating

/-- The loop of `FatCreateDirectoryEntry` over the clusters of the parent directory. -/
def Volume.nextLink (v : Volume) (cluster : ℕ) : Option ℕ :=
  if fat32Eoc cluster then none else some (v.link cluster)

/-- The calls along the paths return, and if the name may be new, the walk to the last cluster of its
parent directory does. -/
def CreateReturns (v : Volume) (name : Name) : Prop :=
  fatDelimiter ∉ name ∨
    ((parentPath name).length < maxPath ∧ (name.rtakeWhile (· ≠ fatDelimiter)).length ≤ 11) ∧
      SearchReturns d v (parentPath name) attrDirectory false ∧
        ∀ parent, SearchAnswers d v (parentPath name) attrDirectory false (.ok parent) →
          SearchReturns d v name attrNormal false ∧
            ((∃ r, Failed r ∧ SearchAnswers d v name attrNormal false r) →
              ∀ cluster, d.clusterAt parent.searchResult = .ok cluster →
                NeverRepeats v.nextLink cluster)

variable {d} {v : Volume}

theorem local_firstSectorOfCluster (c : ℕ) : Local (firstSectorOfCluster d c) :=
  .ite (.fail _) (.ret _)

theorem total_firstSectorOfCluster (c : ℕ) : Total (firstSectorOfCluster d c) :=
  .ite (.fail _) (.ret _)

theorem local_createContents (parentSector c : ℕ) (fileAttributes : BYTE) (now : DateTime) :
    Local (createContents d parentSector c fileAttributes now) := by
  unfold createContents
  rw [clusterOfSector_eq_answer]
  refine .bind (.exAllocatePool _) fun _ => ?_
  extract_lets isDirectory fatEntrySector indexInSector rest
  have hrest : ∀ parentCluster, Local (rest parentCluster) := fun _ =>
    .bind (local_firstSectorOfCluster c) fun _ => .bind (.ioDevice _ _) fun _ =>
      .bind (.setVolume _) fun _ => .bind (.exAllocatePool _) fun _ => .bind (.ioDevice _ _) fun _ =>
        .bind (.ioDevice _ _) fun _ => .setVolume _
  exact .ite (.ite (.bind (.ret _) hrest) (.bind (.answer _) hrest)) (.bind (.ret _) hrest)

theorem total_createContents (parentSector c : ℕ) (fileAttributes : BYTE) (now : DateTime) :
    Total (createContents d parentSector c fileAttributes now) := by
  unfold createContents
  rw [clusterOfSector_eq_answer]
  refine .bind total_exAllocatePool fun _ => ?_
  extract_lets isDirectory fatEntrySector indexInSector rest
  have hrest : ∀ parentCluster, Total (rest parentCluster) := fun _ =>
    .bind (total_firstSectorOfCluster c) fun _ => .bind total_ioDevice fun _ =>
      .bind (total_setVolume _) fun _ => .bind total_exAllocatePool fun _ =>
        .bind total_ioDevice fun _ => .bind total_ioDevice fun _ => total_setVolume _
  exact .ite (.ite (.bind (.ret _) hrest) (.bind (total_answer _) hrest)) (.bind (.ret _) hrest)

/-- After the search for the last cluster of the directory, a new entry takes a bounded number of
steps. -/
theorem fatCreateDirectoryEntry_split {args : CreateArgs} {sector : ℕ}
    (h : args.parentSector = .ok sector) :
    ∃ tail : ℕ → FatM Unit, (∀ fuel, fatCreateDirectoryEntry d fuel args =
      if args.nameExists then Prog.fail .fileAlreadyExists
      else answer (d.clusterAt sector) >>= fun cluster =>
        lastClusterOf d fuel cluster cluster >>= tail) ∧
      ∀ c, Total (tail c) ∧ Local (tail c) := by
  constructor
  constructor
  · intro fuel
    unfold fatCreateDirectoryEntry
    rw [h, ← clusterOfSector_eq_answer]
    dsimp only
    rw [Prog.pure_bind]
    by_cases hexists : args.nameExists = true
    · rw [if_pos hexists, if_pos hexists]
      rfl
    · rw [if_neg hexists, if_neg hexists]
  · intro c
    constructor
    · refine .bind (total_firstSectorOfCluster c) fun sector => .bind total_exAllocatePool fun _ =>
        .bind total_ioDevice fun _ => .bind total_volume fun v => ?_
      split
      · exact .fail _
      · exact .bind total_exAllocatePool fun _ => .bind total_ioDevice fun _ =>
          .bind total_volume fun _ => .ite (.fail _) (.bind total_ioDevice fun _ =>
            .bind (total_setVolume _) fun _ => .bind total_ioDevice fun _ =>
              .bind (total_setVolume _) fun _ => total_createContents _ _ _ _)
    · refine .bind (local_firstSectorOfCluster c) fun sector => .bind (.exAllocatePool _) fun _ =>
        .bind (.ioDevice _ _) fun _ => .bind .volume fun v => ?_
      split
      · exact .fail _
      · exact .bind (.exAllocatePool _) fun _ => .bind (.ioDevice _ _) fun _ =>
          .bind .volume fun _ => .ite (.fail _) (.bind (.ioDevice _ _) fun _ =>
            .bind (.setVolume _) fun _ => .bind (.ioDevice _ _) fun _ =>
              .bind (.setVolume _) fun _ => local_createContents _ _ _ _)

theorem Volume.link_lt (c : ℕ) : v.link c < 2 ^ 28 := by
  have hle : ∀ e : DWORD, clusterOf e ≤ fat32ClusterMask.toNat := fun e => by
    rw [clusterOf, BitVec.toNat_and]
    exact Nat.and_le_right
  unfold Volume.link
  split_ifs
  · exact (by decide : fat32EocMark.toNat < 2 ^ 28)
  · exact (hle _).trans_lt (by decide)

theorem Volume.finite_links (c : ℕ) : {b | Reaches v.nextLink c b}.Finite := by
  refine ((Set.finite_singleton c).union (Set.finite_lt_nat (2 ^ 28))).subset fun b hb => ?_
  rcases hb.eq_or_next with rfl | ⟨x, hx⟩
  · exact Or.inl rfl
  · unfold Volume.nextLink at hx
    split_ifs at hx
    exact Or.inr (Option.some.inj hx ▸ Volume.link_lt x)

theorem lastClusterOf_bounded (current cluster : ℕ) :
    Bounded fun n => lastClusterOf d n current cluster := by
  refine ⟨fun n => ?_, fun n => ?_⟩
  · induction n generalizing current cluster with
    | zero => exact .fault _
    | succ n ih => exact .ite (.ret _) (.bind (local_nextClusterInChain _) fun _ => ih _ _)
  · induction n generalizing current cluster with
    | zero =>
      intro w res hrun
      cases hrun
    | succ n ih =>
      intro w res hrun
      unfold lastClusterOf at hrun ⊢
      split_ifs at hrun ⊢ with heoc
      · exact hrun
      · obtain ⟨r, w'⟩ := res
        rcases Prog.bind_returns hrun with ⟨e, rfl, hfirst⟩ | ⟨next, w₁, hfirst, hrest⟩
        · exact Prog.bind_of_error hfirst
        · exact (Prog.bind_of_ok hfirst).trans (ih _ _ _ _ hrest)

theorem lastClusterOf_returns {n current cluster : ℕ} {u : Volume} {o : Outcome} {t : ℕ}
    (ho : ReadsMet o) (hu : SameWalks v u) (h : after v.nextLink n cluster = none) :
    ∃ r w, lastClusterOf d n current cluster ⟨u, t, o⟩ = .ok (r, w) := by
  induction n generalizing current cluster u t with
  | zero => cases h
  | succ n ih =>
    unfold lastClusterOf
    split_ifs with heoc
    · exact ⟨_, _, rfl⟩
    · have hnext : v.nextLink cluster = some (v.link cluster) := if_neg heoc
      obtain ⟨r, w, hrun⟩ := total_nextClusterInChain (d := d) cluster ⟨u, t, o⟩
      obtain ⟨k, hw, -⟩ := local_nextClusterInChain cluster _ _ _ _ _ hrun
      rw [hw] at hrun
      obtain ⟨hr, hu'⟩ := (nextClusterInChain_behaves cluster).sound 0 u r w.volume hu
        ⟨o, t, t + k, ho, hrun⟩
      cases r with
      | error e => exact ⟨_, _, Prog.bind_of_error hrun⟩
      | ok next =>
        obtain rfl : next = v.link cluster := by simpa using hr.resolve_right not_failed_ok
        have hrest : ∃ r w', lastClusterOf d n cluster (v.link cluster) ⟨w.volume, t + k, o⟩ =
            .ok (r, w') := ih hu' (after_succ_eq_none.mp h _ hnext)
        obtain ⟨r', w', hrest⟩ := hrest
        exact ⟨r', w', (Prog.bind_of_ok hrun).trans hrest⟩

theorem lastClusterOf_met {n current cluster : ℕ} {u : Volume} {t : ℕ}
    {res : Except FatStatus ℕ × World} (hu : SameWalks v u)
    (hrun : lastClusterOf d n current cluster ⟨u, t, fun _ _ _ => true⟩ = .ok res) :
    after v.nextLink n cluster = none := by
  induction n generalizing current cluster u t with
  | zero => cases hrun
  | succ n ih =>
    rw [after_succ_eq_none]
    intro b hb
    unfold Volume.nextLink at hb
    unfold lastClusterOf at hrun
    split_ifs at hrun hb with heoc
    obtain rfl : v.link cluster = b := Option.some.inj hb
    obtain ⟨u', t', hu', hnext⟩ := nextClusterInChain_met (d := d) t cluster hu
    rw [Prog.bind_of_ok hnext] at hrun
    exact ih hu' hrun

theorem returns_lastClusterOf {u : Volume} (hu : SameWalks v u) (current cluster : ℕ) :
    Returns (fun n => lastClusterOf d n current cluster) u ↔ NeverRepeats v.nextLink cluster := by
  rw [← ends_iff_neverRepeats (Volume.finite_links cluster)]
  constructor
  · intro h
    obtain ⟨n, res, w, hrun⟩ := h (fun _ _ _ => true) 0 fun _ _ => rfl
    exact ⟨n, lastClusterOf_met hu hrun⟩
  · intro h o t ho
    obtain ⟨n, hn⟩ := h
    obtain ⟨r, w, hrun⟩ := lastClusterOf_returns ho hu hn
    exact ⟨n, r, w, hrun⟩

theorem fatCreateDirectoryEntry_bounded {args : CreateArgs} {sector : ℕ}
    (h : args.parentSector = .ok sector) : Bounded fun n => fatCreateDirectoryEntry d n args := by
  obtain ⟨tail, hsplit, htail⟩ := fatCreateDirectoryEntry_split (d := d) h
  simp only [hsplit]
  exact .ite (.const (.fail _)) (.bind (.const (.answer _)) fun cluster =>
    .bind (lastClusterOf_bounded cluster cluster) fun last => .const (htail last).2)

theorem returns_fatCreateDirectoryEntry {args : CreateArgs} {sector : ℕ} {u : Volume}
    (h : args.parentSector = .ok sector) (hu : SameWalks v u) :
    Returns (fun n => fatCreateDirectoryEntry d n args) u ↔
      args.nameExists = true ∨
        ∀ cluster, d.clusterAt sector = .ok cluster → NeverRepeats v.nextLink cluster := by
  obtain ⟨tail, hsplit, htail⟩ := fatCreateDirectoryEntry_split (d := d) h
  simp only [hsplit]
  by_cases hexists : args.nameExists = true
  · simp only [if_pos hexists]
    exact iff_of_true (returns_of_total fun _ => .fail _) (Or.inl hexists)
  · simp only [if_neg hexists]
    rw [or_iff_right hexists]
    cases hcluster : d.clusterAt sector with
    | error e => exact iff_of_true (returns_of_total fun _ => .fail e) fun _ hc => nomatch hc
    | ok cluster =>
      have hbind : (fun n => answer (.ok cluster) >>= fun cluster =>
          lastClusterOf d n cluster cluster >>= tail) =
            fun n => lastClusterOf d n cluster cluster >>= tail := rfl
      rw [hbind, returns_bind_total fun _ last => (htail last).1, returns_lastClusterOf hu]
      constructor
      · intro hends c hc
        obtain rfl : cluster = c := by simpa using hc
        exact hends
      · intro hends
        exact hends cluster rfl

/-- Whether the search for a name has found it, of any type. -/
def nameExistsAfter : Except FatStatus SearchResult → Bool
  | .ok _ => true
  | .error status => status = .fileTypeInvalid

theorem nameExistsAfter_iff {r : Except FatStatus SearchResult} :
    nameExistsAfter r = true ↔ ¬Failed r := by
  cases r with
  | ok a => exact iff_of_true rfl not_failed_ok
  | error e =>
    by_cases he : e = .fileTypeInvalid
    · refine iff_of_true (by simp [nameExistsAfter, he]) fun h => ?_
      obtain ⟨e', he', h⟩ := h
      exact he' (by simpa [he] using h.symm)
    · exact iff_of_false (by simp [nameExistsAfter, he]) fun h => h (.error he)

theorem returns_fatCreateByName (name : Name) (fileAttributes : BYTE) (now : DateTime) :
    Returns (fun n => fatCreateByName d n name fileAttributes now) v ↔ CreateReturns d v name := by
  unfold fatCreateByName CreateReturns
  by_cases hdelimiter : fatDelimiter ∉ name
  · simp only [if_pos hdelimiter]
    exact iff_of_true (returns_of_total fun _ => .fail _) (Or.inl hdelimiter)
  · simp only [if_neg hdelimiter]
    rw [or_iff_right hdelimiter]
    by_cases hlong : (parentPath name).length ≥ maxPath ∨
        (name.rtakeWhile (· ≠ fatDelimiter)).length > 11
    · simp only [if_pos hlong]
      refine iff_of_false (fun h => ?_) fun h => by omega
      obtain ⟨n, r, w, hrun⟩ := h (fun _ _ _ => true) 0 fun _ _ => rfl
      cases hrun
    · simp only [if_neg hlong]
      rw [and_iff_right (by omega)]
      have hcreate : ∀ (parent : SearchResult) (r : Except FatStatus SearchResult) (u : Volume),
          SameWalks v u → (Returns (fun n => fatCreateDirectoryEntry d n
            ⟨.ok parent.searchResult, nameExistsAfter r, newEntryName name, fileAttributes, now⟩) u ↔
              (Failed r → ∀ cluster, d.clusterAt parent.searchResult = .ok cluster →
                NeverRepeats v.nextLink cluster)) := by
        intro parent r u hu
        rw [returns_fatCreateDirectoryEntry rfl hu, nameExistsAfter_iff]
        tauto
      have hbounded : ∀ parent : SearchResult, Bounded fun n =>
          (fatSearch d n name attrNormal false).attempt >>= fun r => fatCreateDirectoryEntry d n
            ⟨.ok parent.searchResult, nameExistsAfter r, newEntryName name, fileAttributes, now⟩ :=
        fun parent => .bind (fatSearch_bounded ..).attempt fun r =>
          fatCreateDirectoryEntry_bounded rfl
      have hrest := fun (parent : SearchResult) (u : Volume) (hu : SameWalks v u) =>
        (fatSearch_behaves (d := d) (v := v) name attrNormal false).returns_attempt_bind
          (fun r => fatCreateDirectoryEntry_bounded rfl) (hcreate parent)
          (fun r r' halike hq hr => hq (halike.failed hr)) hu
      have hparent := fatSearch_behaves (d := d) (v := v) (parentPath name) attrDirectory false
      change Returns (fun n => fatSearch d n (parentPath name) attrDirectory false >>= fun parent =>
        (fatSearch d n name attrNormal false).attempt >>= fun r => fatCreateDirectoryEntry d n
          ⟨.ok parent.searchResult, nameExistsAfter r, newEntryName name, fileAttributes, now⟩) v ↔ _
      rw [returns_bind_iff hparent.bounded hbounded, hparent.returns v (.refl v)]
      refine and_congr_right fun _ => ⟨fun h parent hanswer => ?_, fun h n parent u hcan => ?_⟩
      · obtain ⟨n, r, u, halike, hcan⟩ := hparent.complete v _ (.refl v) hanswer
        obtain rfl : Except.ok parent = r := halike.eq_of_ok
        obtain ⟨-, hu⟩ := hparent.sound n v _ u (.refl v) hcan
        obtain ⟨hsearch, hwalk⟩ := (hrest parent u hu).mp (h n parent u hcan)
        refine ⟨hsearch, fun hnew => ?_⟩
        obtain ⟨r, hfailed, hr⟩ := hnew
        exact hwalk r hr hfailed
      · obtain ⟨hanswer, hu⟩ := hparent.sound n v _ u (.refl v) hcan
        obtain ⟨hsearch, hwalk⟩ := h parent hanswer
        exact (hrest parent u hu).mpr ⟨hsearch, fun r hr hfailed => hwalk ⟨r, hfailed, hr⟩⟩

end Creating

section Reading

/-- What the loop of `FatReadFile` over the clusters before the offset returns. -/
def Volume.skip (v : Volume) : ℕ → ℕ → Except FatStatus ℕ
  | 0, sector => .ok sector
  | n + 1, sector => (v.nextSector d sector).bind (v.skip n)

variable {d} {v : Volume}

theorem local_skipToRead (n sector : ℕ) : Local (skipToRead d n sector) := by
  induction n generalizing sector with
  | zero => exact .ret _
  | succ n ih => exact .bind (local_nextSectorInClusterChain _) fun _ => ih _

theorem skipToRead_behaves (n sector : ℕ) :
    Behaves (fun _ => skipToRead d n sector) v True fun r =>
      r = v.skip d n sector ∨ 0 < n ∧ Failed r := by
  induction n generalizing sector with
  | zero =>
    exact (Behaves.ret sector).congr Iff.rfl (fun r => Or.inl) fun r hr =>
      ⟨r, .refl r, hr.resolve_right fun h => Nat.lt_irrefl 0 h.1⟩
  | succ n ih =>
    have h : Behaves (fun _ => skipToRead d (n + 1) sector) v _ _ :=
      .bind (nextSectorInClusterChain_behaves sector) (fun _ => .const (local_skipToRead _ _))
        fun next _ => ih next
    refine h.congr (by simp) (fun r hr => ?_) fun r hr => ⟨r, .refl r, ?_⟩
    · rcases hr with ⟨e, rfl, he | he⟩ | ⟨next, hnext, hr⟩
      · exact Or.inr ⟨Nat.succ_pos n, nextSector_error he.symm⟩
      · obtain ⟨e', he', h⟩ := he
        obtain rfl : e = e' := by simpa using h
        exact Or.inr ⟨Nat.succ_pos n, .error he'⟩
      · have hskip : v.skip d (n + 1) sector = v.skip d n next := by
          rw [Volume.skip, ← hnext.resolve_right not_failed_ok]
          rfl
        rw [hskip]
        exact hr.imp_right fun h => ⟨Nat.succ_pos n, h.2⟩
    · rcases hr with rfl | ⟨-, e, he, rfl⟩
      · rw [Volume.skip]
        cases hnext : v.nextSector d sector with
        | error e => exact Or.inl ⟨e, rfl, Or.inl rfl⟩
        | ok next => exact Or.inr ⟨next, Or.inl rfl, Or.inl rfl⟩
      · exact Or.inl ⟨e, rfl, Or.inr (.error he)⟩

theorem total_skipToRead (n sector : ℕ) : Total (skipToRead d n sector) := by
  induction n generalizing sector with
  | zero => exact .ret _
  | succ n ih => exact .bind (total_nextSectorInClusterChain _) fun _ => ih _

theorem readLoop_returns {n sector remaining toRead : ℕ} {data : List (ℕ → DirEntry)} {w : World}
    (hpos : 0 < toRead) (hle : toRead ≤ remaining) (hfuel : remaining ≤ n) :
    ∃ r w', readLoop d n sector remaining toRead data w = .ok (r, w') := by
  induction n generalizing sector remaining toRead data w with
  | zero => omega
  | succ n ih =>
    obtain ⟨r, w₁, hread⟩ := @total_ioDevice .read .readFile w
    unfold readLoop
    cases r with
    | error e => exact ⟨_, _, Prog.bind_of_error hread⟩
    | ok a =>
      have hvolume : volume w₁ = .ok (.ok w₁.volume, w₁) := rfl
      rw [Prog.bind_of_ok hread, Prog.bind_of_ok hvolume]
      split_ifs with hdone
      · exact ⟨_, _, rfl⟩
      · obtain ⟨r, w₂, hnext⟩ := total_nextSectorInClusterChain (d := d) sector w₁
        cases r with
        | error e => exact ⟨_, _, Prog.bind_of_error hnext⟩
        | ok next =>
          rw [Prog.bind_of_ok hnext]
          split_ifs
          · exact ⟨_, _, rfl⟩
          · have hspc := d.sectorsPerCluster_pos
            exact ih (by lia) (by omega) (by omega)

theorem total_getDirEntryFromSector (entrySector dirFirstSector : ℕ) :
    Total (getDirEntryFromSector d entrySector dirFirstSector) := by
  unfold getDirEntryFromSector
  rw [clusterOfSector_eq_answer]
  refine .bind total_exAllocatePool fun _ => .bind total_ioDevice fun _ => .bind total_volume fun _ =>
    .bind (total_answer _) fun _ => ?_
  split
  · exact .ret _
  · exact .fail _

theorem total_writeDirEntryToSector (entrySector entryIndex : ℕ) (e : DirEntry) :
    Total (writeDirEntryToSector d entrySector entryIndex e) :=
  .bind total_exAllocatePool fun _ => .bind total_ioDevice fun _ => .bind total_ioDevice fun _ =>
    total_setVolume _

theorem returns_fatReadFile (baseFileSector sectorOffset dirEntrySector sectorsToRead : ℕ)
    (now : DateTime) :
    Returns (fun _ => fatReadFile d baseFileSector sectorOffset dirEntrySector sectorsToRead now) v ↔
      isAddressAligned (BitVec.ofNat 64 baseFileSector) (BitVec.ofNat 64 d.sectorsPerCluster) = true ∧
        (sectorsToRead = 0 ∨
          v.skip d (sectorOffset / d.sectorsPerCluster) baseFileSector ≠ .ok 0) := by
  unfold fatReadFile
  by_cases haligned : isAddressAligned (BitVec.ofNat 64 baseFileSector)
      (BitVec.ofNat 64 d.sectorsPerCluster) = true
  · rw [assertThat_of haligned, and_iff_right haligned]
    simp only [Prog.lift_ok_bind]
    by_cases hzero : sectorsToRead = 0
    · simp only [if_pos hzero]
      exact iff_of_true (returns_of_total fun _ => .ret _) (Or.inl hzero)
    · simp only [if_neg hzero]
      rw [or_iff_right hzero]
      have hskip := skipToRead_behaves (d := d) (v := v) (sectorOffset / d.sectorsPerCluster)
        baseFileSector
      constructor
      · intro h hend
        obtain ⟨n, r, u, halike, o, t, t', ho, hrun⟩ := hskip.complete v _ (.refl v) (Or.inl hend.symm)
        obtain rfl : Except.ok 0 = r := halike.eq_of_ok
        obtain ⟨_, r, w, hread⟩ := h o t ho
        beta_reduce at hread
        rw [Prog.bind_of_ok hrun, assertThat_of_not (by simp), Prog.lift_error_bind] at hread
        cases hread
      · intro hne o t ho
        refine ⟨0, ?_⟩
        obtain ⟨r, w, hrun⟩ := total_skipToRead (d := d) (sectorOffset / d.sectorsPerCluster)
          baseFileSector ⟨v, t, o⟩
        cases r with
        | error e => exact ⟨_, _, Prog.bind_of_error hrun⟩
        | ok sector =>
          obtain ⟨k, hw, -⟩ := local_skipToRead _ _ _ _ _ _ _ hrun
          have hcan : Can (skipToRead d (sectorOffset / d.sectorsPerCluster) baseFileSector) v
              (.ok sector) w.volume := ⟨o, t, t + k, ho, hw ▸ hrun⟩
          have hsector := (hskip.sound 0 v _ _ (.refl v) hcan).1.resolve_right fun h =>
            not_failed_ok h.2
          have hpos : 0 ≠ sector := fun h => hne (by rw [← hsector, h])
          have hspc := d.sectorsPerCluster_pos
          have hlt := Nat.mod_lt sectorOffset hspc
          obtain ⟨r, w', hloop⟩ := @readLoop_returns d sectorsToRead
            (sector + sectorOffset % d.sectorsPerCluster) sectorsToRead
            (min sectorsToRead (d.sectorsPerCluster - sectorOffset % d.sectorsPerCluster))
            [] w (by lia) (by omega) le_rfl
          beta_reduce
          rw [Prog.bind_of_ok hrun, assertThat_of hpos, Prog.lift_ok_bind]
          cases r with
          | error e => exact ⟨_, _, Prog.bind_of_error hloop⟩
          | ok res =>
            rw [Prog.bind_of_ok hloop]
            exact Total.bind (total_getDirEntryFromSector _ _) (fun _ =>
              .bind (total_writeDirEntryToSector _ _ _) fun _ => .ret _) w'
  · rw [assertThat_of_not haligned]
    simp only [Prog.lift_error_bind]
    refine iff_of_false (fun h => ?_) fun h => haligned h.1
    obtain ⟨_, r, w, hrun⟩ := h (fun _ _ _ => true) 0 fun _ _ => rfl
    cases hrun

end Reading

section Calls

/-- Which of the calls that walk along a chain return on a volume. -/
theorem walks_return_iff (d : FatData) (v : Volume) :
    (∀ sector name searchType wantsInformation,
      Returns (fun n => fatSearchDirectoryEntry d n sector name searchType wantsInformation) v ↔
        (searchWalk d name searchType wantsInformation).WalkReturns d v (sector, .empty)) ∧
    (∀ sector size, Returns (fun n => fatQueryDirectory d n sector size) v ↔
      (queryWalk size).WalkReturns d v (sector, ⟨.empty, 0⟩)) ∧
    (∀ name fileAttributes now,
      Returns (fun n => fatCreateByName d n name fileAttributes now) v ↔ CreateReturns d v name) ∧
    ∀ baseFileSector sectorOffset dirEntrySector sectorsToRead now,
      Returns (fun _ => fatReadFile d baseFileSector sectorOffset dirEntrySector sectorsToRead now)
          v ↔
        isAddressAligned (BitVec.ofNat 64 baseFileSector) (BitVec.ofNat 64 d.sectorsPerCluster) =
            true ∧
          (sectorsToRead = 0 ∨
            v.skip d (sectorOffset / d.sectorsPerCluster) baseFileSector ≠ .ok 0) :=
  ⟨fun sector name searchType wantsInformation =>
      (fatSearchDirectoryEntry_behaves sector name searchType wantsInformation).returns v (.refl v),
    fun sector size => (fatQueryDirectory_behaves sector size).returns v (.refl v),
    returns_fatCreateByName, returns_fatReadFile⟩

def cyclicEntry : DirEntry := { DirEntry.zero with name := fun _ => 0x41 }

/-- A root directory without an end, in a chain without an end. -/
def cyclicRoot : Volume where
  fat _ := 2
  fsInfo := .zero
  data _ _ := cyclicEntry

private theorem cyclicRoot_scan (n index : ℕ) :
    scanCluster smallDisk (searchWalk smallDisk [0x42] 0 false) cyclicRoot 1056 n index .empty =
      .ok (.endOfCluster .empty) := by
  have hreset : NameBuffer.empty.reset = .empty := Function.update_eq_self 0 NameBuffer.empty
  have hvisit : ∀ i, (searchWalk smallDisk [0x42] 0 false).visit 1056 .empty
      (cyclicRoot.entryAt smallDisk 1056 i) = .ok (.next NameBuffer.empty.reset) := by
    intro i
    have hshort : searchShort smallDisk [0x42] 0 false 1056 .empty cyclicEntry =
        .ok (.next NameBuffer.empty.reset) := searchShort_other (by decide +kernel)
    have hentry : visitEntry (fun _ longName => longName) id
        (searchShort smallDisk [0x42] 0 false 1056) .empty cyclicEntry =
          .ok (.next NameBuffer.empty.reset) := by
      rw [visitEntry_short (by decide) (by decide)]
      exact hshort
    have hdata : cyclicRoot.entryAt smallDisk 1056 i = cyclicEntry := rfl
    rw [hdata]
    exact hentry
  induction n generalizing index with
  | zero => rfl
  | succ n ih =>
    have hlive : ¬(n ≠ 0 ∧ (cyclicRoot.entryAt smallDisk 1056 (index + 1)).name 0 = freeAll) :=
      fun h => absurd h.2 (by decide : (0x41 : BYTE) ≠ freeAll)
    rw [scanCluster_of_next (hvisit index), if_neg hlive, hreset]
    exact ih (index + 1)

/-- The search for a name that is not in a cyclic directory does not return. -/
theorem search_cyclicRoot : ¬Returns (fun n => fatSearchDirectoryEntry smallDisk n
    (smallDisk.sectorOf smallDisk.rootCluster) [0x42] 0 false) cyclicRoot := by
  have hfollowing : cyclicRoot.following smallDisk 1056 = some 1056 := by decide
  have hscan : (searchWalk smallDisk [0x42] 0 false).scan smallDisk cyclicRoot (1056, .empty) =
      .ok (.endOfCluster .empty) := cyclicRoot_scan _ _
  have hloop : (searchWalk smallDisk [0x42] 0 false).next smallDisk cyclicRoot (1056, .empty) =
      some (1056, .empty) := by
    unfold DirectoryWalk.next
    rw [hscan]
    exact congrArg (Option.map fun sector => (sector, NameBuffer.empty)) hfollowing
  intro h
  have hwalk := ((fatSearchDirectoryEntry_behaves 1056 [0x42] 0 false).returns cyclicRoot
    (.refl cyclicRoot)).mp h
  exact not_neverRepeats_of_loop hloop hwalk.1

end Calls

end HAL9000.Fat32
