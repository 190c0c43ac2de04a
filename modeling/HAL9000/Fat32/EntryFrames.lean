import HAL9000.Fat32.DirectoryRecords
import HAL9000.Fat32.Reading

/-! What `FatWriteFile` and `FatCreateDirectoryEntry` leave of the records in some clusters of a volume of
any content, if the chain that is written to does not come to them. -/
namespace HAL9000.Fat32

open Program Walk

variable {d : FatData} {v v₀ : Volume} {E : Set ℕ} {c s : ℕ}

/-- The chain from a cluster does not come to a cluster of `E`, and none of these is marked as free. -/
structure KeepsOff (d : FatData) (v : Volume) (E : Set ℕ) (c : ℕ) : Prop where
  apart : ∀ e ∈ E, ¬Reaches (v.following d) (d.sectorOf c) (d.sectorOf e)
  used : ∀ e ∈ E, clusterOf (v.fat e) ≠ 0

/-- The sectors of the clusters of `E` are as they were. -/
def SameRecords (d : FatData) (v₀ : Volume) (E : Set ℕ) (v : Volume) : Prop :=
  ∀ e ∈ E, ∀ s, d.InCluster e s → v.data s = v₀.data s

/-- A call writes to the cluster `c`, and not to those of `E`. -/
structure Beside (d : FatData) (v₀ : Volume) (E : Set ℕ) (c : ℕ) (v : Volume) : Prop where
  cluster : d.IsCluster c
  off : KeepsOff d v E c
  same : SameRecords d v₀ E v

theorem SameRecords.slotEntry {k e : ℕ} (h : SameRecords d v₀ E v) (he : e ∈ E)
    (hk : k < d.entriesPerCluster) : v.slotEntry d e k = v₀.slotEntry d e k :=
  slotEntry_of_untouched hk (h e he)

theorem KeepsOff.ne {e : ℕ} (h : KeepsOff d v E c) (he : e ∈ E) : e ≠ c :=
  fun heq => h.apart e he (heq ▸ .refl)

theorem clusterAt_of_inCluster (hc : d.IsCluster c) (hs : d.InCluster c s) : d.clusterAt s = .ok c := by
  have hrun : (answer (d.clusterAt s) : FatM ℕ) = pure c :=
    (clusterOfSector_eq_answer s).symm.trans (clusterOfSector_eq hc hs)
  have hat := congrFun hrun ⟨⟨fun _ => 0, .zero, fun _ _ => .zero⟩, 0, fun _ _ _ => true⟩
  cases hcluster : d.clusterAt s with
  | error e =>
    rw [hcluster] at hat
    cases hat
  | ok c' =>
    rw [hcluster] at hat
    cases hat
    rfl

section Following

variable (hc : d.IsCluster c)

include hc

theorem following_of_eoc (heoc : fat32Eoc (v.link c) = true) : v.following d (d.sectorOf c) = none := by
  unfold Volume.following Volume.nextSector
  rw [clusterAt_of_inCluster hc (d.inCluster_sectorOf c)]
  change (d.sectorAfter (v.link c)).toOption.bind _ = _
  unfold FatData.sectorAfter
  rw [if_pos heoc]
  rfl

theorem following_of_link (heoc : ¬fat32Eoc (v.link c) = true) (hlink : d.IsCluster (v.link c)) :
    v.following d (d.sectorOf c) = some (d.sectorOf (v.link c)) := by
  have hnot : ¬(v.link c > d.countOfClusters + 1 ∨ v.link c < 2) := by
    have hge := hlink.1
    have hle := hlink.2
    omega
  unfold Volume.following Volume.nextSector
  rw [clusterAt_of_inCluster hc (d.inCluster_sectorOf c)]
  change (d.sectorAfter (v.link c)).toOption.bind _ = _
  unfold FatData.sectorAfter
  rw [if_neg heoc, if_neg hnot]
  exact if_neg (sectorOf_pos d (v.link c)).ne'

end Following

theorem sectorOf_inj {x y : ℕ} (hx : d.IsCluster x) (hy : d.IsCluster y)
    (h : d.sectorOf x = d.sectorOf y) : x = y :=
  (d.inCluster_sectorOf x).unique (h ▸ d.inCluster_sectorOf y) hx.1 hy.1

theorem nextClusterInChain_link {E' : Volume → Prop} (he : E' v) (he' : E' (v.setFat c fat32EocMark)) :
    Triple (At (· = v)) (nextClusterInChain d c)
      (fun r => At fun u => r = v.link c ∧
        (clusterOf (v.fat c) ≠ 0 ∧ u = v ∨ clusterOf (v.fat c) = 0 ∧ u = v.setFat c fat32EocMark)) (At E') := by
  have hkeep : ∀ u, u = v → E' u := fun u hu => hu ▸ he
  unfold nextClusterInChain
  refine .bind (exAllocatePool_at hkeep) fun _ => .bind (ioDevice_at hkeep) fun _ =>
    volume_bind fun u hu => ?_
  subst hu
  dsimp only
  rw [fatEntry_eq]
  unfold Volume.link
  refine .ite (fun hzero => ?_) fun hzero => .ite (fun hbad => ?_) fun hbad => ?_
  · rw [if_pos (Or.inl hzero)]
    refine .bind (ioDevice_at hkeep) fun _ => .bind (setVolume_at (Q := (· = u.setFat c fat32EocMark))
      fun u' hu' => hu' ▸ rfl) fun _ => .ret fun w hw => ⟨rfl, Or.inr ⟨hzero, hw⟩⟩
  · rw [if_pos (Or.inr hbad)]
    exact .ret fun w hw => ⟨rfl, Or.inl ⟨hzero, hw⟩⟩
  · rw [if_neg (not_or.mpr ⟨hzero, hbad⟩)]
    exact .ret fun w hw => ⟨rfl, Or.inl ⟨hzero, hw⟩⟩

section Writing

variable (hE : ∀ e ∈ E, d.IsCluster e)

include hE

/-- The cluster that extends a chain was free. -/
theorem Extended.beside {u u' : Volume} {r : ℕ} (h : Extended d u c r u') (hr : r ≠ 0)
    (hcurrent : clusterOf (u.fat c) ≠ 0) (hne : ∀ e ∈ E, e ≠ c) (hused : ∀ e ∈ E, clusterOf (u.fat e) ≠ 0)
    (hsame : SameRecords d v₀ E u) : Beside d v₀ E r u' := by
  obtain ⟨hcluster, hfree, hdata, hmark, hfat⟩ : d.IsCluster r ∧ clusterOf (u.fat r) = 0 ∧
      u'.data = u.data ∧ clusterOf (u'.fat r) = fat32EocMark.toNat ∧
        ∀ e, e ≠ r → e ≠ c → u'.fat e = u.fat e := by
    cases h with
    | none => exact absurd rfl hr
    | lost hcluster hfree hdata hfat =>
      refine ⟨hcluster, hfree, hdata, ?_, fun e he _ => ?_⟩
      · rw [hfat, Volume.clusterOf_setFat_mark]
      · rw [hfat, setFat_fat_of_ne he]
    | linked hcluster hfree hdata hfat =>
      have hrc : r ≠ c := fun heq => hcurrent (heq ▸ hfree)
      refine ⟨hcluster, hfree, hdata, ?_, fun e he hec => ?_⟩
      · rw [hfat, setFat_fat_of_ne hrc, Volume.clusterOf_setFat_mark]
      · rw [hfat, setFat_fat_of_ne hec, setFat_fat_of_ne he]
  have hout : ∀ e ∈ E, e ≠ r := fun e he heq => hused e he (heq ▸ hfree)
  have hend : u'.following d (d.sectorOf r) = Option.none :=
    following_of_eoc hcluster (by rw [Volume.link_of_mark hmark]; decide)
  refine ⟨hcluster, ⟨fun e he hreach => ?_, fun e he => ?_⟩, fun e he s hs => ?_⟩
  · exact hout e he (sectorOf_inj (hE e he) hcluster ((reaches_iff_of_none hend).mp hreach))
  · rw [hfat e (hout e he) (hne e he)]
    exact hused e he
  · rw [hdata]
    exact hsame e he s hs

theorem nextSectorInClusterChain_beside (hs : d.InCluster c s) :
    Triple (At (Beside d v₀ E c)) (nextSectorInClusterChain d s true)
      (fun r => At fun v => ∃ c', r = d.sectorOf c' ∧ Beside d v₀ E c' v) (At fun _ => True) := by
  refine fix_volume fun v hv => ?_
  unfold nextSectorInClusterChain
  rw [clusterOfSector_eq hv.cluster hs, Prog.pure_bind]
  refine .bind (nextClusterInChain_link trivial trivial) fun next => fix_volume fun u hu => ?_
  obtain ⟨rfl, hu⟩ := hu
  refine .ite (fun heoc => ?_) fun heoc => ?_
  · rw [if_neg (by simp)]
    have hne : ∀ e ∈ E, e ≠ c := fun e he => hv.off.ne he
    obtain ⟨hcurrent, hused, hdata⟩ : clusterOf (u.fat c) ≠ 0 ∧ (∀ e ∈ E, clusterOf (u.fat e) ≠ 0) ∧
        u.data = v.data := by
      rcases hu with ⟨hcurrent, rfl⟩ | ⟨-, rfl⟩
      · exact ⟨hcurrent, hv.off.used, rfl⟩
      · refine ⟨?_, fun e he => ?_, rfl⟩
        · rw [Volume.clusterOf_setFat_mark]
          decide
        · rw [setFat_fat_of_ne (hne e he)]
          exact hv.off.used e he
    have hsame : SameRecords d v₀ E u := fun e he s hs => by
      rw [hdata]
      exact hv.same e he s hs
    refine .bind (addNewClusterToChain_spec.conseq (fun _ => id) (fun _ _ => id) fun _ _ => trivial)
      fun r => fix_volume fun u' hx => ?_
    by_cases hr : r = 0
    · subst hr
      rw [firstSectorOfCluster_fail fun hc => absurd hc.1 (by omega)]
      exact .fail fun _ _ => trivial
    · have hnext := hx.beside hE hr hcurrent hne hused hsame
      rw [firstSectorOfCluster_eq hnext.cluster]
      exact .ret fun w hw => ⟨r, rfl, hw ▸ hnext⟩
  · obtain ⟨-, rfl⟩ : clusterOf (v.fat c) ≠ 0 ∧ u = v := by
      rcases hu with hu | ⟨hzero, -⟩
      · exact hu
      · exact absurd (by rw [Volume.link_of_free hzero]; decide) heoc
    by_cases hlink : d.IsCluster (u.link c)
    · rw [firstSectorOfCluster_eq hlink]
      have hstep := following_of_link hv.cluster heoc hlink
      have hnext : Beside d v₀ E (u.link c) u :=
        ⟨hlink, ⟨fun e he hreach => hv.off.apart e he (hreach.step hstep), hv.off.used⟩, hv.same⟩
      exact .ret fun w hw => ⟨u.link c, rfl, hw ▸ hnext⟩
    · rw [firstSectorOfCluster_fail hlink]
      exact .fail fun _ _ => trivial

theorem skipClusters_beside {k : ℕ} :
    Triple (At fun v => ∃ c, s = d.sectorOf c ∧ Beside d v₀ E c v) (skipClusters d k s)
      (fun r => At fun v => ∃ c, r = d.sectorOf c ∧ Beside d v₀ E c v) (At fun _ => True) := by
  induction k generalizing s with
  | zero => exact .ret fun w hw => hw
  | succ k ih =>
    unfold skipClusters
    refine .bind ?_ fun r => ih
    exact .exists_pre fun c => .assume fun hs =>
      nextSectorInClusterChain_beside hE (hs ▸ d.inCluster_sectorOf c)

theorem writeLoop_beside {buffer : ℕ → ℕ → DirEntry} {fuel pData remaining toWrite : ℕ}
    (hs : d.InCluster c s) (hcount : s + toWrite ≤ d.sectorOf c + d.sectorsPerCluster) :
    Triple (At (Beside d v₀ E c)) (writeLoop d buffer fuel s pData remaining toWrite)
      (fun _ => At (SameRecords d v₀ E)) (At fun _ => True) := by
  induction fuel generalizing s c pData remaining toWrite with
  | zero => exact .fault
  | succ fuel ih =>
    unfold writeLoop
    refine .bind (ioDevice_at fun _ _ => trivial) fun _ =>
      .bind (setVolume_at (Q := Beside d v₀ E c) fun v hv => ?_) fun _ => ?_
    · refine ⟨hv.cluster, ⟨hv.off.apart, hv.off.used⟩, fun e he i hi => (if_neg fun hin => ?_).trans (hv.same e he i hi)⟩
      have hc : d.InCluster c i := by
        have hge := hs.1
        exact ⟨by omega, by omega⟩
      exact hv.off.ne he (hi.unique hc (hE e he).1 hv.cluster.1)
    · refine .ite (fun _ => .ret fun w hw => hw.same) fun _ => ?_
      refine .bind (nextSectorInClusterChain_beside hE hs) fun r => .exists_pre fun c' =>
        .assume fun hr => ?_
      subst hr
      exact ih (d.inCluster_sectorOf c') (Nat.add_le_add_left (min_le_left ..) _)

end Writing

section Entry

/-- The first entries of two clusters that have the same records are the same. -/
theorem findDirEntry_congr {u : Volume} {first : ℕ} (k index : ℕ)
    (h : ∀ i < index + k, u.entryAt d s i = v.entryAt d s i) :
    findDirEntry d u s first k index = findDirEntry d v s first k index := by
  induction k generalizing index with
  | zero => rfl
  | succ k ih =>
    unfold findDirEntry
    rw [h index (by omega), ih (index + 1) fun i hi => h i (by omega)]

theorem getDirEntryFromSector_found {base : ℕ} (hc : d.IsCluster c) (hs : d.InCluster c base) :
    Triple (At (· = v)) (getDirEntryFromSector d s base)
      (fun r => At fun u => u = v ∧ findDirEntry d v s c d.entriesPerCluster 0 = some r.1 ∧
        r.1 < d.entriesPerCluster ∧ r.2 = v.entryAt d s r.1)
      (At fun _ => True) := by
  have hcount : d.bytesPerSector * d.sectorsPerCluster / 32 = d.entriesPerCluster := by
    unfold FatData.entriesPerCluster FatData.entriesPerSector
    rw [Nat.div_mul_right_comm d.bytesPerSector_dvd]
  unfold getDirEntryFromSector
  rw [clusterOfSector_eq hc hs, hcount]
  refine .bind (exAllocatePool_at fun _ _ => trivial) fun _ => .bind (ioDevice_at fun _ _ => trivial) fun _ =>
    volume_bind fun u hu => ?_
  subst hu
  rw [Prog.pure_bind]
  cases hfound : findDirEntry d u s c d.entriesPerCluster 0 with
  | none => exact .fail fun _ _ => trivial
  | some index =>
    have hlt := findDirEntry_lt hfound
    exact .ret fun w hw => ⟨hw, rfl, by omega, rfl⟩

end Entry

/-- What a call to write to the file at `c` leaves of the records: the entry that it finds in the cluster
`p` has a new size and new dates. -/
def EntryWritten (d : FatData) (v₀ : Volume) (E : Set ℕ) (c p : ℕ) (next : DWORD) (now : DateTime)
    (v : Volume) : Prop :=
  ∃ j, findDirEntry d v₀ (d.sectorOf p) c d.entriesPerCluster 0 = some j ∧
    ∀ e ∈ E, ∀ k < d.entriesPerCluster, v.slotEntry d e k =
      if e = p ∧ k = j then (v₀.slotEntry d p j).afterWrite next now else v₀.slotEntry d e k

theorem fatWriteFile_entryWritten {p offset count : ℕ} {buffer : ℕ → ℕ → DirEntry} {now : DateTime}
    (hE : ∀ e ∈ E, d.IsCluster e) (hp : p ∈ E) (hc : d.IsCluster c) (hoff : KeepsOff d v₀ E c)
    (hcount : count ≠ 0) :
    Triple (At (· = v₀)) (fatWriteFile d (d.sectorOf c) offset (d.sectorOf p) buffer count now)
      (fun _ => At (EntryWritten d v₀ E c p
        (BitVec.ofNat 32 (offset + count) * BitVec.ofNat 32 d.bytesPerSector) now))
      (At fun _ => True) := by
  have hstart : Beside d v₀ E c v₀ := ⟨hc, hoff, fun _ _ _ _ => rfl⟩
  unfold fatWriteFile
  refine .bind assert_at fun _ => .ite (fun hzero => absurd hzero hcount) fun _ => ?_
  refine .bind ((skipClusters_beside hE).conseq
    (fun w hw => ⟨_, rfl, show Beside d v₀ E c w.volume from hw.2 ▸ hstart⟩) (fun _ _ => id)
    fun _ _ => trivial) fun r => .bind assert_at fun _ => ?_
  refine .assume fun _ => .exists_pre fun c' => .assume fun hr => ?_
  subst hr
  have hlt := Nat.mod_lt offset d.sectorsPerCluster_pos
  have hmin := min_le_right count (d.sectorsPerCluster - offset % d.sectorsPerCluster)
  have hin : d.InCluster c' (d.sectorOf c' + offset % d.sectorsPerCluster) := ⟨by omega, by omega⟩
  refine .bind (writeLoop_beside hE hin (by lia)) fun _ => fix_volume fun v hv => ?_
  refine .bind (getDirEntryFromSector_found hc (d.inCluster_sectorOf c)) fun r => ?_
  obtain ⟨index, entry⟩ := r
  refine fix_volume fun u hu => ?_
  obtain ⟨rfl, hfound, hindex, hentry⟩ := hu
  have hslot : ∀ k < d.entriesPerCluster, u.entryAt d (d.sectorOf p) k = v₀.entryAt d (d.sectorOf p) k :=
    fun k hk => hv.slotEntry hp hk
  unfold writeDirEntryToSector
  refine .bind (Q := fun _ => At (EntryWritten d v₀ E c p _ now)) ?_ fun _ => .ret fun _ => id
  refine .bind (exAllocatePool_at fun _ _ => trivial) fun _ => .bind (ioDevice_at fun _ _ => trivial) fun _ =>
    .bind (ioDevice_at fun _ _ => trivial) fun _ => setVolume_at fun u' hu' => ?_
  subst hu'
  refine ⟨index, ?_, fun e he k hk => ?_⟩
  · rw [← hfound]
    exact (findDirEntry_congr _ 0 fun i hi => hslot i (by omega)).symm
  · rw [slotEntry_setEntryAt hindex hk (hE e he).1 (hE p hp).1]
    split_ifs with heq
    · have hold : entry = v₀.slotEntry d p index := hentry.trans (hslot index hindex)
      rw [hold]
    · exact hv.slotEntry he hk

/-! ### Searches and new entries -/

/-- What searches and walks along chains leave as it is. -/
def World.kept (w : World) : Outcome × (ℕ → ℕ → DirEntry) × FsInfo :=
  (w.outcome, w.volume.data, w.volume.fsInfo)

section Kept

variable {σ ρ α : Type} {resource : Resource} {site : Site}

theorem kept_request : Preserves World.kept (request resource site) := by
  intro w r w' hrun
  obtain ⟨-, rfl⟩ : Except.ok (w.outcome resource site w.clock) = r ∧
      { w with clock := w.clock + 1 } = w' := by simpa [request] using hrun
  rfl

theorem kept_exAllocatePool : Preserves World.kept (exAllocatePool site) :=
  .bind kept_request fun _ => .ite (.fail _) (.ret _)

theorem kept_ioDevice : Preserves World.kept (ioDevice resource site) :=
  .bind kept_request fun _ => .ite (.fail _) (.ret _)

theorem kept_volume : Preserves World.kept volume := .bind .get fun _ => .ret _

theorem kept_answer (r : Except FatStatus α) : Preserves World.kept (answer r) := by
  cases r with
  | ok a => exact .ret a
  | error e => exact .fail e

theorem kept_nextClusterInChain : Preserves World.kept (nextClusterInChain d c) :=
  .bind kept_exAllocatePool fun _ => .bind kept_ioDevice fun _ => .bind kept_volume fun _ => .ite
    (.bind kept_ioDevice fun _ => .bind (.modify fun _ => rfl) fun _ => .ret _) (.ite (.ret _) (.ret _))

theorem kept_nextSectorInClusterChain (sector : ℕ) :
    Preserves World.kept (nextSectorInClusterChain d sector false) := by
  rw [nextSectorInClusterChain_eq]
  exact .bind (kept_answer _) fun _ => .bind kept_nextClusterInChain fun _ => kept_answer _

theorem kept_walkDirectory (k : DirectoryWalk σ ρ) (n sector : ℕ) (s : σ) :
    Preserves World.kept (walkDirectory d k n sector s) := by
  induction n generalizing sector s with
  | zero => exact .fault _
  | succ n ih =>
    unfold walkDirectory
    refine .bind kept_request fun _ => .ite (kept_answer _) <| .bind kept_ioDevice fun _ =>
      .bind kept_volume fun v => .bind (.lift _) fun x => ?_
    cases x with
    | stop r => exact kept_answer r
    | endOfDirectory s => exact kept_answer _
    | endOfCluster s =>
      exact .bind kept_request fun _ => .ite (kept_answer _) <|
        .bind (kept_nextSectorInClusterChain sector) fun _ => .ite (kept_answer _) (ih _ _)

theorem kept_searchNames {fuel : ℕ} {searchType : BYTE} {wantsInformation : Bool} (names : List Name)
    (sector : ℕ) (result : SearchResult) :
    Preserves World.kept (searchNames d fuel searchType wantsInformation names sector result) := by
  induction names generalizing sector result with
  | nil => exact .ret _
  | cons name names ih =>
    unfold searchNames
    exact .ite (.fail _) (.bind (kept_walkDirectory _ _ _ _) fun _ => ih _ _)

theorem kept_fatSearch {fuel : ℕ} {name : Name} {searchType : BYTE} {wantsInformation : Bool} :
    Preserves World.kept (fatSearch d fuel name searchType wantsInformation) :=
  .ite (.fail _) (.ite (.ite (.fail _) (.ret _)) (kept_searchNames _ _ _))

theorem kept_lastClusterOf {fuel current temp : ℕ} :
    Preserves World.kept (lastClusterOf d fuel current temp) := by
  induction fuel generalizing current temp with
  | zero => exact .fault _
  | succ fuel ih => exact .ite (.ret _) (.bind kept_nextClusterInChain fun _ => ih)

theorem kept_clusterOfSector (sector : ℕ) : Preserves World.kept (clusterOfSector d sector) :=
  .ite (.fail _) (.ret _)

theorem kept_firstSectorOfCluster : Preserves World.kept (firstSectorOfCluster d c) :=
  .ite (.fail _) (.ret _)

end Kept

/-- The records of the clusters of `E` that are in use are as they were. -/
def UsedRecordsKept (d : FatData) (v₀ : Volume) (E : Set ℕ) (v : Volume) : Prop :=
  ∀ e ∈ E, ∀ k < d.entriesPerCluster, (v₀.slotEntry d e k).isFree = false →
    v.slotEntry d e k = v₀.slotEntry d e k

theorem usedRecordsKept_of_data (h : v.data = v₀.data) : UsedRecordsKept d v₀ E v :=
  fun e _ k _ _ => slotEntry_of_data h e k

theorem usedRecordsKept_of_kept {o : Outcome} (w : World) (h : w.kept = (o, v₀.data, v₀.fsInfo)) :
    At (UsedRecordsKept d v₀ E) w := usedRecordsKept_of_data (congrArg (·.2.1) h)

/-- Before anything is written. -/
theorem triple_of_kept {α : Type} {x : FatM α} {o : Outcome} (hx : Preserves World.kept x) :
    Triple (fun w => w.kept = (o, v₀.data, v₀.fsInfo)) x
      (fun _ w => w.kept = (o, v₀.data, v₀.fsInfo)) (At (UsedRecordsKept d v₀ E)) :=
  hx.keeps.conseq (fun _ => id) (fun _ _ => id) usedRecordsKept_of_kept

section Creating

variable (hE : ∀ e ∈ E, d.IsCluster e)

include hE

/-- A new entry gets a cluster that is not in `E`. -/
theorem createContents_usedKept {parent : ℕ} {attr : BYTE} {now : DateTime} (hne : ∀ e ∈ E, e ≠ c) :
    Triple (At (UsedRecordsKept d v₀ E)) (createContents d parent c attr now)
      (fun _ => At (UsedRecordsKept d v₀ E)) (At (UsedRecordsKept d v₀ E)) := by
  unfold createContents
  refine .bind (exAllocatePool_at fun _ => id) fun _ => ?_
  extract_lets isDirectory fatEntrySector indexInSector rest
  have hrest : ∀ parentCluster, Triple (At (UsedRecordsKept d v₀ E)) (rest parentCluster)
      (fun _ => At (UsedRecordsKept d v₀ E)) (At (UsedRecordsKept d v₀ E)) := by
    intro parentCluster
    dsimp only [rest]
    by_cases hc : d.IsCluster c
    · rw [firstSectorOfCluster_eq hc, Prog.pure_bind]
      refine .bind (ioDevice_at fun _ => id) fun _ => .bind (setVolume_at (Q := UsedRecordsKept d v₀ E)
        fun v hv e he k hk hused => ?_) fun _ => .bind (exAllocatePool_at fun _ => id) fun _ =>
          .bind (ioDevice_at fun _ => id) fun _ => .bind (ioDevice_at fun _ => id) fun _ =>
            setVolume_at fun v hv => hv
      rw [← hv e he k hk hused]
      exact slotEntry_of_untouched hk fun s hs =>
        if_neg fun hin => hne e he (hs.unique hin (hE e he).1 hc.1)
    · rw [firstSectorOfCluster_fail hc]
      exact .bind (Q := fun _ _ => False) (.fail fun _ => id) fun _ _ _ _ hw => hw.elim
  refine .ite (fun _ => .ite (fun _ => hrest 0) fun _ => ?_) fun _ => hrest 0
  exact .bind (Q := fun _ => At (UsedRecordsKept d v₀ E))
    (.ite (fun _ => .fail fun _ => id) fun _ => .ret fun _ => id) hrest

/-- The new entry is written to a free record, and its contents to the cluster that FSInfo names. -/
theorem fatCreateDirectoryEntry_usedKept {fuel : ℕ} {args : CreateArgs} {o : Outcome}
    (hne : ∀ e ∈ E, e ≠ v₀.fsInfo.nxtFree.toNat) :
    Triple (fun w => w.kept = (o, v₀.data, v₀.fsInfo)) (fatCreateDirectoryEntry d fuel args)
      (fun _ => At (UsedRecordsKept d v₀ E)) (At (UsedRecordsKept d v₀ E)) := by
  unfold fatCreateDirectoryEntry
  cases args.parentSector with
  | error status => exact .bind (Q := fun _ _ => False) (.fail usedRecordsKept_of_kept) fun _ _ _ _ hw => hw.elim
  | ok parentSector =>
    dsimp only
    rw [Prog.pure_bind]
    refine .ite (fun _ => .bind (Q := fun _ _ => False) (.fail usedRecordsKept_of_kept) fun _ _ _ _ hw => hw.elim)
      fun _ => ?_
    refine .bind (triple_of_kept (kept_clusterOfSector _)) fun parentCluster =>
      .bind (triple_of_kept kept_lastClusterOf) fun last => ?_
    by_cases hlast : d.IsCluster last
    swap
    · rw [firstSectorOfCluster_fail hlast]
      exact .bind (Q := fun _ _ => False) (.fail usedRecordsKept_of_kept) fun _ _ _ _ hw => hw.elim
    rw [firstSectorOfCluster_eq hlast, Prog.pure_bind]
    have hsame : ∀ v : Volume, v.data = v₀.data ∧ v.fsInfo = v₀.fsInfo → UsedRecordsKept d v₀ E v :=
      fun v hv => usedRecordsKept_of_data hv.1
    refine Triple.pre (P := At fun v => v.data = v₀.data ∧ v.fsInfo = v₀.fsInfo) ?_
      fun w hw => ⟨congrArg (·.2.1) hw, congrArg (·.2.2) hw⟩
    refine .bind (exAllocatePool_at hsame) fun _ => .bind (ioDevice_at hsame) fun _ =>
      volume_bind fun v hv => ?_
    generalize hslot : findFreeSlot d v (d.sectorOf last) _ _ = slot
    cases slot with
    | none => exact .fail fun w hw => hsame _ (hw ▸ hv)
    | some index =>
      obtain ⟨-, hlt, hfree⟩ := findFreeSlot_eq hslot
      have hindex : index < d.entriesPerCluster := by
        have htwo := two_le_entriesPerCluster d
        change index < startOf d last + (d.entriesPerCluster - startOf d last) at hlt
        have hle : startOf d last ≤ 2 := by
          unfold startOf
          split_ifs <;> omega
        omega
      refine Triple.pre (P := At fun v => v.data = v₀.data ∧ v.fsInfo = v₀.fsInfo) ?_
        fun w hw => (show w.volume.data = v₀.data ∧ w.volume.fsInfo = v₀.fsInfo from hw ▸ hv)
      refine .bind (exAllocatePool_at hsame) fun _ => .bind (ioDevice_at hsame) fun _ =>
        volume_bind fun u hu => ?_
      rw [hu.2]
      refine Triple.pre (P := At fun v => v.data = v₀.data) ?_
        fun w hw => (show w.volume.data = v₀.data from hw ▸ hu.1)
      have hsame' : ∀ v : Volume, v.data = v₀.data → UsedRecordsKept d v₀ E v :=
        fun v hv => usedRecordsKept_of_data hv
      refine .ite (fun _ => .fail fun w hw => hsame' _ hw) fun _ => ?_
      refine .bind (ioDevice_at hsame') fun _ => .bind (setVolume_at (Q := fun v => v.data = v₀.data)
        fun v hv => hv) fun _ => .bind (ioDevice_at hsame') fun _ => .bind (setVolume_at
          (Q := UsedRecordsKept d v₀ E) fun u' hu' e he k hk hused => ?_) fun _ =>
            createContents_usedKept hE hne
      rw [slotEntry_setEntryAt hindex hk (hE e he).1 hlast.1, slotEntry_of_data hu' e k]
      refine if_neg fun heq => ?_
      have hfree' : (v₀.slotEntry d e k).isFree = true := by
        rw [heq.1, heq.2, ← slotEntry_of_data hv.1 last index]
        exact hfree
      exact Bool.false_ne_true (hused.symm.trans hfree')

theorem fatCreateByName_usedKept {fuel : ℕ} {name : Name} {attr : BYTE} {now : DateTime} {o : Outcome}
    (hne : ∀ e ∈ E, e ≠ v₀.fsInfo.nxtFree.toNat) :
    Triple (fun w => w.kept = (o, v₀.data, v₀.fsInfo)) (fatCreateByName d fuel name attr now)
      (fun _ => At (UsedRecordsKept d v₀ E)) (At (UsedRecordsKept d v₀ E)) := by
  unfold fatCreateByName
  refine .ite (fun _ => .fail usedRecordsKept_of_kept) fun _ => .ite (fun _ => .fault) fun _ => ?_
  exact .bind (triple_of_kept kept_fatSearch) fun _ => .bind (triple_of_kept (.attempt kept_fatSearch))
    fun _ => fatCreateDirectoryEntry_usedKept hE hne

end Creating

end HAL9000.Fat32
