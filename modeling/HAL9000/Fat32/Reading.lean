import HAL9000.Lib.Blocks
import HAL9000.Fat32.FreeClusters
import HAL9000.Fat32.Runs
import HAL9000.Fat32.Searching

/-! `FatReadFile` returns a slice of the clusters of a file. A program comes to one result, unless it gets
no memory or an access to the device fails. -/
namespace HAL9000.Fat32

open Chain Program

/-- All accesses to the device succeed. -/
def DeviceWorks (o : Outcome) : Prop := ∀ site n, o .read site n = true ∧ o .write site n = true

/-- Every request for memory and to the device is met. -/
def AllMet (o : Outcome) : Prop := DeviceWorks o ∧ ∀ site n, o .memory site n = true

theorem allMet_true : AllMet fun _ _ _ => true := ⟨fun _ _ => ⟨rfl, rfl⟩, fun _ _ => rfl⟩

/-- From the first volume, the program comes to a result and to the second volume, unless a request fails. -/
def Settles {α : Type} (o : Outcome) (v : Volume) (x : FatM α) (r : Except FatStatus α)
    (v' : Volume) : Prop :=
  ∀ t, ∃ s u t', x ⟨v, t, o⟩ = .ok (s, ⟨u, t', o⟩) ∧
    (s = r ∧ u = v' ∨ (∃ e, s = .error e) ∧ ¬AllMet o)

namespace Settles

variable {α β : Type} {o : Outcome} {v v₁ v₂ : Volume} {x : FatM α} {f : α → FatM β}
  {r : Except FatStatus β} {a : α} {e : FatStatus}

/-- If every request is met, the result is the one the program comes to. -/
theorem run {r : Except FatStatus α} (h : Settles o v x r v₁) (ho : AllMet o) (t : ℕ) :
    ∃ t', x ⟨v, t, o⟩ = .ok (r, ⟨v₁, t', o⟩) := by
  obtain ⟨s, u, t', hrun, ⟨rfl, rfl⟩ | ⟨-, hnot⟩⟩ := h t
  · exact ⟨t', hrun⟩
  · exact absurd ho hnot

/-- A value that is returned is the one the program comes to. -/
theorem eq_of_ok {r : Except FatStatus α} (h : Settles o v x r v₁) {t : ℕ} {w : World}
    (hrun : x ⟨v, t, o⟩ = .ok (.ok a, w)) : r = .ok a ∧ w.volume = v₁ := by
  obtain ⟨s, u, t', hrun', ⟨rfl, rfl⟩ | ⟨⟨e, rfl⟩, -⟩⟩ := h t
  · obtain ⟨hr, rfl⟩ := Prod.mk.inj (Except.ok.inj (hrun'.symm.trans hrun))
    exact ⟨hr, rfl⟩
  · cases hrun'.symm.trans hrun

theorem ret (a : α) : Settles o v (pure a) (.ok a) v := fun t => ⟨_, _, t, rfl, Or.inl ⟨rfl, rfl⟩⟩

theorem fail (e : FatStatus) : Settles o v (Prog.fail e : FatM α) (.error e) v :=
  fun t => ⟨_, _, t, rfl, Or.inl ⟨rfl, rfl⟩⟩

theorem bind (hx : Settles o v x (.ok a) v₁) (hf : Settles o v₁ (f a) r v₂) :
    Settles o v (x >>= f) r v₂ := by
  intro t
  obtain ⟨s, u, t', hrun, ⟨rfl, rfl⟩ | ⟨⟨e, rfl⟩, hnot⟩⟩ := hx t
  · obtain ⟨s', u', t'', hrun', hres⟩ := hf t'
    exact ⟨s', u', t'', (Prog.bind_of_ok hrun).trans hrun', hres⟩
  · exact ⟨_, _, _, Prog.bind_of_error hrun, Or.inr ⟨⟨e, rfl⟩, hnot⟩⟩

theorem bind_error (hx : Settles o v x (.error e) v₁) : Settles o v (x >>= f) (.error e) v₁ := by
  intro t
  obtain ⟨s, u, t', hrun, ⟨rfl, rfl⟩ | ⟨⟨e', rfl⟩, hnot⟩⟩ := hx t
  · exact ⟨_, _, _, Prog.bind_of_error hrun, Or.inl ⟨rfl, rfl⟩⟩
  · exact ⟨_, _, _, Prog.bind_of_error hrun, Or.inr ⟨⟨e', rfl⟩, hnot⟩⟩

theorem assert {p : Prop} [Decidable p] (h : p) :
    Settles o v (Prog.lift (assertThat p) : FatM Unit) (.ok ()) v := by
  rw [assertThat_of h]
  exact ret ()

theorem volume_bind {f : Volume → FatM β} (hf : Settles o v (f v) r v₁) :
    Settles o v (volume >>= f) r v₁ := fun t => hf t

theorem setVolume (g : Volume → Volume) : Settles o v (setVolume g) (.ok ()) (g v) :=
  fun t => ⟨_, _, t, rfl, Or.inl ⟨rfl, rfl⟩⟩

theorem exAllocatePool (site : Site) : Settles o v (exAllocatePool site) (.ok ()) v := by
  intro t
  have hrequest : request .memory site ⟨v, t, o⟩ = .ok (.ok (o .memory site t), ⟨v, t + 1, o⟩) := rfl
  unfold Fat32.exAllocatePool
  rw [Prog.bind_of_ok hrequest]
  cases hmet : o .memory site t with
  | true => exact ⟨_, _, _, rfl, Or.inl ⟨rfl, rfl⟩⟩
  | false =>
    refine ⟨_, _, _, rfl, Or.inr ⟨⟨_, rfl⟩, fun hall => ?_⟩⟩
    rw [hall.2 site t] at hmet
    cases hmet

theorem ioDevice {access : Resource} {site : Site} (h : AllMet o → ∀ n, o access site n = true) :
    Settles o v (ioDevice access site) (.ok ()) v := by
  intro t
  have hrequest : request access site ⟨v, t, o⟩ = .ok (.ok (o access site t), ⟨v, t + 1, o⟩) := rfl
  unfold Fat32.ioDevice
  rw [Prog.bind_of_ok hrequest]
  cases hmet : o access site t with
  | true => exact ⟨_, _, _, rfl, Or.inl ⟨rfl, rfl⟩⟩
  | false =>
    refine ⟨_, _, _, rfl, Or.inr ⟨⟨_, rfl⟩, fun hall => ?_⟩⟩
    rw [h hall t] at hmet
    cases hmet

theorem read (site : Site) : Settles o v (Fat32.ioDevice .read site) (.ok ()) v :=
  ioDevice fun hall n => (hall.1 site n).1

theorem write (site : Site) : Settles o v (Fat32.ioDevice .write site) (.ok ()) v :=
  ioDevice fun hall n => (hall.1 site n).2

end Settles

/-- The sectors of the clusters, one after the other. -/
def fileSectors (d : FatData) (v : Volume) (clusters : List ℕ) : List (ℕ → DirEntry) :=
  clusters.flatMap fun c => (List.range d.sectorsPerCluster).map fun i => v.data (d.sectorOf c + i)

section Sectors

variable {d : FatData} {v : Volume} {c : ℕ} {l : List ℕ}

theorem fileSectors_cons (d : FatData) (v : Volume) (c : ℕ) (l : List ℕ) : fileSectors d v (c :: l) =
    ((List.range d.sectorsPerCluster).map fun i => v.data (d.sectorOf c + i)) ++ fileSectors d v l :=
  List.flatMap_cons

theorem length_cluster (d : FatData) (v : Volume) (c : ℕ) :
    ((List.range d.sectorsPerCluster).map fun i => v.data (d.sectorOf c + i)).length =
      d.sectorsPerCluster := by
  rw [List.length_map, List.length_range]

theorem length_fileSectors (d : FatData) (v : Volume) (l : List ℕ) :
    (fileSectors d v l).length = l.length * d.sectorsPerCluster :=
  Blocks.length_flatMap (length_cluster d v) l

theorem fileSectors_drop (d : FatData) (v : Volume) (l : List ℕ) (n : ℕ) :
    (fileSectors d v l).drop (n * d.sectorsPerCluster) = fileSectors d v (l.drop n) :=
  Blocks.drop_flatMap (length_cluster d v) l n

/-- A part of a cluster. -/
theorem cluster_part (d : FatData) (v : Volume) (c : ℕ) {k n : ℕ} (h : k + n ≤ d.sectorsPerCluster) :
    (((List.range d.sectorsPerCluster).map fun i => v.data (d.sectorOf c + i)).drop k).take n =
      (List.range n).map fun i => v.data (d.sectorOf c + k + i) := by
  refine List.ext_getElem ?_ fun i _ _ => ?_
  · simp only [List.length_take, List.length_drop, List.length_map, List.length_range]
    omega
  · simp [Nat.add_assoc]

end Sectors

section Steps

variable {d : FatData} {o : Outcome} {v : Volume} {c s : ℕ} {l : List ℕ}

theorem nextClusterInChain_settles (hne : clusterOf (v.fat c) ≠ 0) :
    Settles o v (nextClusterInChain d c)
      (.ok (if clusterOf (v.fat c) = fat32BadCluster then fat32EocMark.toNat else clusterOf (v.fat c)))
      v := by
  unfold nextClusterInChain
  refine .bind (.exAllocatePool _) (.bind (.read _) (.volume_bind ?_))
  dsimp only
  rw [fatEntry_eq, if_neg hne]
  by_cases hbad : clusterOf (v.fat c) = fat32BadCluster
  · rw [if_pos hbad, if_pos hbad]
    exact .ret _
  · rw [if_neg hbad, if_neg hbad]
    exact .ret _

/-- From a sector of a cluster, the chain is followed to the next cluster. -/
theorem nextSectorInClusterChain_settles {extendChain : Bool} (hc : d.IsCluster c)
    (hs : d.InCluster c s) {next : ℕ} (hnext : v.nextCluster c = some next)
    (hcluster : d.IsCluster next) :
    Settles o v (nextSectorInClusterChain d s extendChain) (.ok (d.sectorOf next)) v := by
  unfold Volume.nextCluster at hnext
  split_ifs at hnext with hend
  obtain rfl := Option.some.inj hnext
  have hne : clusterOf (v.fat c) ≠ 0 := fun hzero => by
    rw [hzero] at hcluster
    exact absurd hcluster.1 (by decide)
  have hrun := nextClusterInChain_settles (d := d) (o := o) hne
  rw [if_neg (by omega)] at hrun
  unfold nextSectorInClusterChain
  rw [clusterOfSector_eq hc hs, Prog.pure_bind]
  refine .bind hrun ?_
  have heoc : ¬fat32Eoc (clusterOf (v.fat c)) = true := by
    unfold fat32Eoc
    rw [decide_eq_true_iff]
    omega
  rw [if_neg heoc, firstSectorOfCluster_eq hcluster]
  exact .ret _

/-- At the end of the chain the sector is 0. -/
theorem nextSectorInClusterChain_end (hc : d.IsCluster c) (hs : d.InCluster c s)
    (hnext : v.nextCluster c = none) : Settles o v (nextSectorInClusterChain d s false) (.ok 0) v := by
  have hrun := nextClusterInChain_settles (d := d) (o := o) (ne_zero_of_nextCluster hnext)
  have hend : fat32BadCluster ≤ clusterOf (v.fat c) := by
    unfold Volume.nextCluster at hnext
    split_ifs at hnext with hend
    exact hend
  unfold nextSectorInClusterChain
  rw [clusterOfSector_eq hc hs, Prog.pure_bind]
  refine .bind hrun ?_
  by_cases hbad : clusterOf (v.fat c) = fat32BadCluster
  · rw [if_pos hbad]
    exact .ret _
  · have heoc : fat32Eoc (clusterOf (v.fat c)) = true := by
      unfold fat32Eoc
      rw [decide_eq_true_iff]
      omega
    rw [if_neg hbad, if_pos heoc]
    exact .ret _

theorem firstDataSector_pos (d : FatData) : 0 < d.firstDataSector := by
  have htable := d.table_fits
  by_contra hzero
  rw [Nat.eq_zero_of_not_pos hzero, Nat.zero_mul] at htable
  omega

theorem sectorOf_pos (d : FatData) (c : ℕ) : 0 < d.sectorOf c :=
  Nat.lt_of_lt_of_le (firstDataSector_pos d) (Nat.le_add_left ..)

/-- Sector 0 is in no cluster. -/
theorem clusterOfSector_zero (d : FatData) : clusterOfSector d 0 = Prog.fail .deviceClusterInvalid := by
  have hsectors := d.sectors_lt
  have hge := d.countOfClusters_ge
  have hlt := d.countOfClusters_lt
  have hpos := firstDataSector_pos d
  have hspc : d.sectorsPerCluster ≤ 2 ^ 17 := by
    have := Nat.mul_le_mul_right d.sectorsPerCluster hge
    omega
  have hdiv : (2 ^ 64 - 2 ^ 32) / 2 ^ 17 ≤ (0 + 2 ^ 64 - d.firstDataSector) % 2 ^ 64 / d.sectorsPerCluster := by
    refine Nat.div_le_div ?_ hspc d.sectorsPerCluster_pos.ne'
    rw [Nat.mod_eq_of_lt (by omega)]
    omega
  unfold clusterOfSector
  exact if_pos (Or.inl (by omega))

/-- A chain is its last cluster, or is followed by a chain. -/
theorem FatChain.cases_on (h : FatChain d v c l) :
    l = [c] ∧ v.nextCluster c = none ∨
      ∃ next rest, l = c :: rest ∧ v.nextCluster c = some next ∧ FatChain d v next rest := by
  obtain ⟨hchain, hcluster⟩ := h
  cases hchain with
  | last hn => exact Or.inl ⟨rfl, hn⟩
  | link hn hl =>
    exact Or.inr ⟨_, _, rfl, hn, hl, fun x hx => hcluster x (List.mem_cons_of_mem _ hx)⟩

end Steps

section Loops

variable {d : FatData} {o : Outcome} {v : Volume}

/-- The clusters before the offset are skipped. -/
theorem skipToRead_settles {n c : ℕ} {l : List ℕ} (hl : FatChain d v c l)
    (hn : n < l.length) : ∃ c', FatChain d v c' (l.drop n) ∧
      Settles o v (skipToRead d n (d.sectorOf c)) (.ok (d.sectorOf c')) v := by
  induction n generalizing c l with
  | zero => exact ⟨c, hl, .ret _⟩
  | succ n ih =>
    rcases hl.cases_on with ⟨rfl, -⟩ | ⟨next, rest, rfl, hnext, hrest⟩
    · simp at hn
    · obtain ⟨c', hc', hrun⟩ := ih hrest (by simpa using hn)
      exact ⟨c', hc', .bind (nextSectorInClusterChain_settles hl.isCluster (d.inCluster_sectorOf c)
        hnext hrest.isCluster) hrun⟩

/-- Skipping all clusters leads to sector 0. -/
theorem skipToRead_end {c : ℕ} {l : List ℕ} (hl : FatChain d v c l) :
    Settles o v (skipToRead d l.length (d.sectorOf c)) (.ok 0) v := by
  induction l generalizing c with
  | nil => exact absurd rfl hl.chain.ne_nil
  | cons x l ih =>
    rcases hl.cases_on with ⟨heq, hnext⟩ | ⟨next, rest, heq, hnext, hrest⟩
    · obtain ⟨rfl, rfl⟩ := List.cons.inj heq
      exact .bind (nextSectorInClusterChain_end hl.isCluster (d.inCluster_sectorOf x) hnext) (.ret 0)
    · obtain ⟨rfl, rfl⟩ := List.cons.inj heq
      exact .bind (nextSectorInClusterChain_settles hl.isCluster (d.inCluster_sectorOf x)
        hnext hrest.isCluster) (ih hrest)

/-- Skipping more clusters than there are is an error. -/
theorem skipToRead_past {n c : ℕ} {l : List ℕ} (hl : FatChain d v c l)
    (hn : l.length < n) :
    Settles o v (skipToRead d n (d.sectorOf c)) (.error .deviceClusterInvalid) v := by
  induction n generalizing c l with
  | zero => omega
  | succ n ih =>
    rcases hl.cases_on with ⟨rfl, hnext⟩ | ⟨next, rest, rfl, hnext, hrest⟩
    · refine .bind (nextSectorInClusterChain_end hl.isCluster (d.inCluster_sectorOf c) hnext) ?_
      cases n with
      | zero => simp at hn
      | succ n =>
        refine @Settles.bind_error _ _ _ v v _ _ _ ?_
        unfold nextSectorInClusterChain
        rw [clusterOfSector_zero]
        exact .bind_error (.fail _)
    · exact .bind (nextSectorInClusterChain_settles hl.isCluster (d.inCluster_sectorOf c)
        hnext hrest.isCluster) (ih hrest (by simpa using hn))

/-- The loop reads from a sector of the first cluster to the end of the request or of the chain. -/
theorem readLoop_settles {fuel c k remaining : ℕ} {l : List ℕ}
    {data : List (ℕ → DirEntry)} (hl : FatChain d v c l) (hk : k < d.sectorsPerCluster)
    (hremaining : 0 < remaining) (hfuel : remaining ≤ fuel) :
    Settles o v (readLoop d fuel (d.sectorOf c + k) remaining
        (min remaining (d.sectorsPerCluster - k)) data)
      (.ok (remaining - min remaining (l.length * d.sectorsPerCluster - k),
        data ++ ((fileSectors d v l).drop k).take remaining)) v := by
  induction fuel generalizing c k remaining l data with
  | zero => omega
  | succ fuel ih =>
    have hin : d.InCluster c (d.sectorOf c + k) := ⟨by omega, by omega⟩
    unfold readLoop
    refine .bind (.read _) (.volume_bind ?_)
    dsimp only
    obtain ⟨rest, rfl⟩ : ∃ rest, l = c :: rest := by
      rcases hl.cases_on with ⟨rfl, -⟩ | ⟨_, rest, rfl, -, -⟩
      · exact ⟨[], rfl⟩
      · exact ⟨rest, rfl⟩
    have hpart := cluster_part d v c
      (show k + min remaining (d.sectorsPerCluster - k) ≤ d.sectorsPerCluster by lia)
    rw [← hpart, fileSectors_cons, List.drop_append_of_le_length (by simpa using hk.le)]
    generalize hblock : ((List.range d.sectorsPerCluster).map fun i => v.data (d.sectorOf c + i)).drop k
      = block
    have hlength : block.length = d.sectorsPerCluster - k := by
      rw [← hblock, List.length_drop, List.length_map, List.length_range]
    rw [List.length_cons, Nat.add_one_mul]
    by_cases hall : remaining ≤ d.sectorsPerCluster - k
    · rw [min_eq_left hall, Nat.sub_self, if_pos rfl, List.take_append_of_le_length (by omega),
        min_eq_left (by lia), Nat.sub_self]
      exact .ret _
    rw [min_eq_right (by omega), if_neg (by omega), List.take_of_length_le (by omega)]
    rcases hl.cases_on with ⟨heq, hnext⟩ | ⟨next, rest', heq, hnext, hrest⟩
    · obtain ⟨-, rfl⟩ := List.cons.inj heq
      refine .bind (nextSectorInClusterChain_end hl.isCluster hin hnext) ?_
      rw [if_pos rfl, List.length_nil, Nat.zero_mul, Nat.zero_add, min_eq_right (by omega)]
      have htake : (block ++ fileSectors d v []).take remaining = block := by
        rw [fileSectors, List.flatMap_nil, List.append_nil, List.take_of_length_le (by omega)]
      rw [htake]
      exact .ret _
    · obtain ⟨-, rfl⟩ := List.cons.inj heq
      refine .bind (nextSectorInClusterChain_settles hl.isCluster hin hnext hrest.isCluster) ?_
      have hsector : d.sectorOf next ≠ 0 := (sectorOf_pos d next).ne'
      have hloop := @ih next 0 (remaining - (d.sectorsPerCluster - k)) rest (data ++ block) hrest
        d.sectorsPerCluster_pos (by omega) (by lia)
      rw [Nat.add_zero, Nat.sub_zero, Nat.sub_zero, List.drop_zero, min_comm] at hloop
      rw [if_neg hsector, List.take_append, List.take_of_length_le (by omega), hlength,
        ← List.append_assoc]
      have hcount : remaining - min remaining (rest.length * d.sectorsPerCluster +
            d.sectorsPerCluster - k) =
          remaining - (d.sectorsPerCluster - k) - min (remaining - (d.sectorsPerCluster - k))
            (rest.length * d.sectorsPerCluster) := by lia
      rw [hcount]
      exact hloop

end Loops

section Entries

variable {d : FatData} {o : Outcome} {v : Volume} {sector : ℕ}

/-- The entry is taken for the one of a file with this first cluster. -/
def DirEntry.Matches (e : DirEntry) (cluster : ℕ) : Prop :=
  ¬(e.name 0 = freeEntry ∨ e.name 0 = freeJapEntry ∨ e.attr &&& attrLongNameMask = attrLongName) ∧
    cluster = e.fstClus.toNat

instance (e : DirEntry) (cluster : ℕ) : Decidable (e.Matches cluster) :=
  inferInstanceAs (Decidable (_ ∧ _))

/-- The first entry that is taken for the one of the file. -/
structure FirstMatch (d : FatData) (v : Volume) (sector cluster index : ℕ) : Prop where
  found : (v.entryAt d sector index).Matches cluster
  first : ∀ i < index, ¬(v.entryAt d sector i).Matches cluster

theorem findDirEntry_eq_some {cluster n index slot : ℕ} (hslot : slot < n + index)
    (hge : index ≤ slot) (hfirst : FirstMatch d v sector cluster slot) :
    findDirEntry d v sector cluster n index = some slot := by
  induction n generalizing index with
  | zero => omega
  | succ n ih =>
    have hrest : index ≠ slot → findDirEntry d v sector cluster n (index + 1) = some slot :=
      fun hne => ih (by omega) (by omega)
    unfold findDirEntry
    dsimp only
    by_cases heq : index = slot
    · obtain ⟨hskip, hcluster⟩ := heq ▸ hfirst.found
      rw [if_neg hskip, if_pos hcluster, heq]
    · have hnot := hfirst.first index (by omega)
      rw [hrest heq]
      split_ifs with hskip hcluster
      · rfl
      · exact absurd ⟨hskip, hcluster⟩ hnot
      · rfl

theorem exists_firstMatch {cluster slot : ℕ} (h : (v.entryAt d sector slot).Matches cluster) :
    ∃ index ≤ slot, FirstMatch d v sector cluster index := by
  classical
  have hex : ∃ i, (v.entryAt d sector i).Matches cluster := ⟨slot, h⟩
  exact ⟨Nat.find hex, Nat.find_le h, Nat.find_spec hex, fun i hi => Nat.find_min hex hi⟩

theorem getDirEntryFromSector_settles {c slot : ℕ} (hc : d.IsCluster c)
    (hslot : slot < d.entriesPerCluster) (hfirst : FirstMatch d v sector c slot) :
    Settles o v (getDirEntryFromSector d sector (d.sectorOf c))
      (.ok (slot, v.entryAt d sector slot)) v := by
  have hcount : d.bytesPerSector * d.sectorsPerCluster / 32 = d.entriesPerCluster := by
    unfold FatData.entriesPerCluster FatData.entriesPerSector
    rw [Nat.div_mul_right_comm d.bytesPerSector_dvd]
  unfold getDirEntryFromSector
  refine .bind (.exAllocatePool _) (.bind (.read _) (.volume_bind ?_))
  rw [clusterOfSector_eq hc (d.inCluster_sectorOf c), Prog.pure_bind, hcount,
    findDirEntry_eq_some (by simpa using hslot) (Nat.zero_le _) hfirst]
  exact .ret _

theorem writeDirEntryToSector_settles (index : ℕ) (e : DirEntry) :
    Settles o v (writeDirEntryToSector d sector index e) (.ok ()) (v.setEntryAt d sector index e) :=
  .bind (.exAllocatePool _) (.bind (.read _) (.bind (.write _) (.setVolume _)))

/-- One slot of the entries from a sector on gets a new entry. -/
theorem entryAt_setEntryAt (v : Volume) (sector index k : ℕ) (e : DirEntry) :
    (v.setEntryAt d sector index e).entryAt d sector k =
      if k = index then e else v.entryAt d sector k := by
  unfold Volume.entryAt Volume.setEntryAt
  dsimp only
  by_cases hdiv : k / d.entriesPerSector = index / d.entriesPerSector
  · rw [hdiv, Function.update_self]
    by_cases hmod : k % d.entriesPerSector = index % d.entriesPerSector
    · have heq : k = index := by
        rw [← Nat.div_add_mod' k d.entriesPerSector, hdiv, hmod, Nat.div_add_mod']
      rw [hmod, Function.update_self, if_pos heq]
    · have hne : k ≠ index := fun heq => hmod (by rw [heq])
      rw [Function.update_of_ne hmod, if_neg hne]
  · have hne : k ≠ index := fun heq => hdiv (by rw [heq])
    rw [Function.update_of_ne (fun h => hdiv (Nat.add_left_cancel h)), if_neg hne]

end Entries

/-- A file with its clusters, the sector that the search for it returned and the slot of its entry in
that cluster. -/
structure FileAt (d : FatData) (v : Volume) where
  first : ℕ
  clusters : List ℕ
  dirEntrySector : ℕ
  slot : ℕ
  chain : FatChain d v first clusters
  slot_lt : slot < d.entriesPerCluster
  live : (v.entryAt d dirEntrySector slot).isLive = true
  entry : (v.entryAt d dirEntrySector slot).fstClus.toNat = first

section Files

variable {d : FatData} {v v' : Volume}

namespace FileAt

variable (f : FileAt d v)

def sectors : ℕ := f.clusters.length * d.sectorsPerCluster

/-- The `ASSERT` on the first sector of the file. -/
def Aligned : Prop := isAddressAligned (BitVec.ofNat 64 (d.sectorOf f.first))
  (BitVec.ofNat 64 d.sectorsPerCluster) = true

instance : Decidable f.Aligned := inferInstanceAs (Decidable (_ = true))

def read (sectorOffset sectorsToRead : ℕ) (now : DateTime) : FatM (ℕ × List (ℕ → DirEntry)) :=
  fatReadFile d (d.sectorOf f.first) sectorOffset f.dirEntrySector sectorsToRead now

/-- The last access date of the entry is the only change. -/
def OnlyAccessed (v' : Volume) : Prop :=
  ∃ date, v' = v.setEntryAt d f.dirEntrySector f.slot
    { v.entryAt d f.dirEntrySector f.slot with lstAccDate := date }

/-- The calls to read from an offset; the device works. -/
structure ReadsSlice (sectorOffset sectorsToRead : ℕ) : Prop where
  within : sectorOffset < f.sectors → ∀ (w w' : World) now count data, w.volume = v →
    DeviceWorks w.outcome → f.read sectorOffset sectorsToRead now w = .ok (.ok (count, data), w') →
    count = min sectorsToRead (f.sectors - sectorOffset) ∧
      data = ((fileSectors d v f.clusters).drop sectorOffset).take sectorsToRead ∧
      f.OnlyAccessed w'.volume
  past : f.sectors ≤ sectorOffset → ∀ (w : World) now, w.volume = v → DeviceWorks w.outcome →
    ∃ r, f.read sectorOffset sectorsToRead now w = .ok r

theorem matches_slot : (v.entryAt d f.dirEntrySector f.slot).Matches f.first := by
  have hlive := f.live
  unfold DirEntry.isLive DirEntry.isFree at hlive
  refine ⟨fun hskip => ?_, f.entry.symm⟩
  rcases hskip with h | h | h
  · simp [h] at hlive
  · simp [h] at hlive
  · have hbit : (v.entryAt d f.dirEntrySector f.slot).attr &&& attrVolumeId = attrVolumeId := by
      have hmask : attrVolumeId = attrLongNameMask &&& attrVolumeId := rfl
      rw [hmask, ← BitVec.and_assoc, h]
      rfl
    rw [hbit] at hlive
    simp [attrVolumeId] at hlive

variable {o : Outcome} {sectorOffset sectorsToRead : ℕ} {now : DateTime}

/-- The call stops at the `ASSERT` on the first sector of the file. -/
theorem read_not_aligned (h : ¬f.Aligned) (w : World) :
    f.read sectorOffset sectorsToRead now w = .error .assertFailed := by
  unfold read fatReadFile
  rw [assertThat_of_not (show ¬isAddressAligned _ _ = true from h)]
  rfl

/-- Reading from an offset in the chain gives the slice. -/
theorem read_within (haligned : f.Aligned) (hn : 0 < sectorsToRead)
    (hoffset : sectorOffset < f.sectors) {index : ℕ} (hindex : index ≤ f.slot)
    (hmatch : FirstMatch d v f.dirEntrySector f.first index) :
    Settles o v (f.read sectorOffset sectorsToRead now)
      (.ok (min sectorsToRead (f.sectors - sectorOffset),
        ((fileSectors d v f.clusters).drop sectorOffset).take sectorsToRead))
      (v.setEntryAt d f.dirEntrySector index
        { v.entryAt d f.dirEntrySector index with lstAccDate := now.fatDate }) := by
  have hpos := d.sectorsPerCluster_pos
  have hdiv := Nat.div_add_mod' sectorOffset d.sectorsPerCluster
  have hskipped : sectorOffset / d.sectorsPerCluster < f.clusters.length :=
    (Nat.div_lt_iff_lt_mul hpos).mpr hoffset
  obtain ⟨c, hc, hskip⟩ := skipToRead_settles f.chain hskipped
  have hloop := @readLoop_settles d o v sectorsToRead c (sectorOffset % d.sectorsPerCluster)
    sectorsToRead _ [] hc (Nat.mod_lt _ hpos) hn le_rfl
  rw [List.length_drop, Nat.sub_mul, ← fileSectors_drop, List.drop_drop, hdiv, List.nil_append] at hloop
  have hcount : sectorsToRead - (sectorsToRead - min sectorsToRead (f.clusters.length *
        d.sectorsPerCluster - sectorOffset / d.sectorsPerCluster * d.sectorsPerCluster -
          sectorOffset % d.sectorsPerCluster)) = min sectorsToRead (f.sectors - sectorOffset) := by
    unfold sectors
    lia
  unfold read fatReadFile
  refine .bind (.assert haligned) ?_
  rw [if_neg hn.ne']
  refine .bind hskip (.bind (.assert (sectorOf_pos d c).ne) (.bind hloop ?_))
  refine .bind (getDirEntryFromSector_settles f.chain.isCluster (hindex.trans_lt f.slot_lt) hmatch) ?_
  refine .bind (writeDirEntryToSector_settles index _) ?_
  dsimp only
  rw [hcount]
  exact .ret _

/-- In the cluster after the last one, a call does not succeed, and if every request is met, the `ASSERT`
on the sector fails. -/
theorem read_at_end (haligned : f.Aligned) (hn : 0 < sectorsToRead) (hge : f.sectors ≤ sectorOffset)
    (hlt : sectorOffset < f.sectors + d.sectorsPerCluster) (t : ℕ) :
    f.read sectorOffset sectorsToRead now ⟨v, t, o⟩ = .error .assertFailed ∨
      (∃ e w', f.read sectorOffset sectorsToRead now ⟨v, t, o⟩ = .ok (.error e, w')) ∧ ¬AllMet o := by
  have hskipped : sectorOffset / d.sectorsPerCluster = f.clusters.length := by
    refine Nat.div_eq_of_lt_le hge ?_
    rw [Nat.succ_mul]
    exact hlt
  unfold read fatReadFile
  rw [assertThat_of (show isAddressAligned _ _ = true from haligned), hskipped, Prog.lift_ok_bind,
    if_neg hn.ne']
  obtain ⟨s, u, t', hrun, ⟨rfl, rfl⟩ | ⟨⟨e, rfl⟩, hnot⟩⟩ := skipToRead_end (o := o) f.chain t
  · rw [Prog.bind_of_ok hrun]
    exact Or.inl rfl
  · exact Or.inr ⟨⟨e, _, Prog.bind_of_error hrun⟩, hnot⟩

/-- The offset is behind that cluster: the call returns. -/
theorem read_past (haligned : f.Aligned)
    (hge : f.sectors + d.sectorsPerCluster ≤ sectorOffset) (hn : 0 < sectorsToRead) :
    Settles o v (f.read sectorOffset sectorsToRead now) (.error .deviceClusterInvalid) v := by
  have hskipped : f.clusters.length < sectorOffset / d.sectorsPerCluster := by
    refine (Nat.le_div_iff_mul_le d.sectorsPerCluster_pos).mpr ?_
    rw [Nat.succ_mul]
    exact hge
  unfold read fatReadFile
  refine .bind (.assert haligned) ?_
  rw [if_neg hn.ne']
  exact .bind_error (skipToRead_past f.chain hskipped)

/-- The entry of the file is found first, or the offset is behind the first cluster after the chain. -/
structure ReadsExactly (sectorOffset : ℕ) : Prop where
  within : sectorOffset < f.sectors → f.Aligned → FirstMatch d v f.dirEntrySector f.first f.slot
  past : f.sectors ≤ sectorOffset → f.Aligned ∧ f.sectors + d.sectorsPerCluster ≤ sectorOffset

theorem readsExactly_of_readsSlice (hn : 0 < sectorsToRead)
    (hreads : f.ReadsSlice sectorOffset sectorsToRead) : f.ReadsExactly sectorOffset := by
  constructor
  · intro hoffset haligned
    obtain ⟨index, hindex, hmatch⟩ := exists_firstMatch f.matches_slot
    by_cases heq : index = f.slot
    · exact heq ▸ hmatch
    -- A date that is not the one of the entry that is found shows that this entry is changed.
    obtain ⟨date, hdate⟩ : ∃ date, date ≠ (v.entryAt d f.dirEntrySector index).lstAccDate := by
      by_cases hzero : (v.entryAt d f.dirEntrySector index).lstAccDate = 0
      · exact ⟨1, by rw [hzero]; decide⟩
      · exact ⟨0, Ne.symm hzero⟩
    obtain ⟨t, hrun⟩ := Settles.run (@read_within d v f _ sectorOffset sectorsToRead ⟨date, 0⟩ haligned
      hn hoffset index hindex hmatch) allMet_true 0
    obtain ⟨-, -, date', hvolume⟩ := hreads.within hoffset _ _ _ _ _ rfl allMet_true.1 hrun
    have hentry := congrArg (fun u => (u.entryAt d f.dirEntrySector index).lstAccDate) hvolume
    dsimp only at hentry
    rw [entryAt_setEntryAt, entryAt_setEntryAt, if_pos rfl, if_neg heq] at hentry
    exact absurd hentry hdate
  · intro hge
    by_cases haligned : f.Aligned
    · refine ⟨haligned, ?_⟩
      by_contra hlt
      obtain ⟨r, hr⟩ := hreads.past hge ⟨v, 0, fun _ _ _ => true⟩ ⟨0, 0⟩ rfl allMet_true.1
      rcases @read_at_end d v f (fun _ _ _ => true) sectorOffset sectorsToRead ⟨0, 0⟩ haligned hn hge
        (by omega) 0 with hrun | ⟨-, hnot⟩
      · cases hrun.symm.trans hr
      · exact hnot allMet_true
    · obtain ⟨r, hr⟩ := hreads.past hge ⟨v, 0, fun _ _ _ => true⟩ ⟨0, 0⟩ rfl allMet_true.1
      rw [f.read_not_aligned haligned] at hr
      cases hr

end FileAt

end Files

/-- A call to read a file does what it should, exactly if the entry of the file is the first one in its
cluster that is taken for it, and no offset is in the cluster after the last one. -/
theorem readsSlice_iff {d : FatData} {v : Volume} (f : FileAt d v) (sectorOffset : ℕ)
    {sectorsToRead : ℕ} (hn : 0 < sectorsToRead) :
    f.ReadsSlice sectorOffset sectorsToRead ↔ f.ReadsExactly sectorOffset := by
  refine ⟨f.readsExactly_of_readsSlice hn, fun h => ⟨?_, ?_⟩⟩
  · intro hoffset w w' now count data hw _ hrun
    obtain ⟨v, t, o⟩ := w
    obtain rfl : v = _ := hw
    by_cases haligned : f.Aligned
    swap
    · rw [f.read_not_aligned haligned] at hrun
      cases hrun
    have hmatch := h.within hoffset haligned
    obtain ⟨hok, hvolume⟩ := Settles.eq_of_ok (@FileAt.read_within d v f o sectorOffset
      sectorsToRead now haligned hn hoffset f.slot le_rfl hmatch) hrun
    obtain ⟨rfl, rfl⟩ := Prod.mk.inj (Except.ok.inj hok)
    exact ⟨rfl, rfl, now.fatDate, hvolume⟩
  · intro hge w now hw _
    obtain ⟨v, t, o⟩ := w
    obtain rfl : v = _ := hw
    obtain ⟨haligned, hpast⟩ := h.past hge
    obtain ⟨s, u, t', hrun, -⟩ := @FileAt.read_past d v f o sectorOffset sectorsToRead now
      haligned hpast hn t
    exact ⟨_, hrun⟩

/-- The file has the clusters 3 and 4. -/
def twoClusters : Volume :=
  { oneFile with fat := fun c => if c = 3 then 4 else fat32EocMark }

def twoClustersAt : FileAt smallDisk twoClusters where
  first := 3
  clusters := [3, 4]
  dirEntrySector := 1056
  slot := 2
  chain := ⟨.link (by decide) (.last (by decide)),
    show ∀ x ∈ [3, 4], 2 ≤ x ∧ x ≤ smallDisk.countOfClusters + 1 by decide⟩
  slot_lt := by decide
  live := by decide
  entry := by decide

/-- From the second of the two sectors on. -/
theorem readsSlice_twoClusters : twoClustersAt.ReadsSlice 1 5 := by
  refine (readsSlice_iff twoClustersAt 1 (by decide)).mpr ⟨fun _ _ => ⟨?_, ?_⟩, fun h => ?_⟩
  · exact twoClustersAt.matches_slot
  · change ∀ i < 2, ¬(twoClusters.entryAt smallDisk 1056 i).Matches 3
    decide
  · exact absurd h (by decide)

/-- Reading at the end of the file stops at an `ASSERT`. -/
theorem not_readsSlice_at_end : ¬∀ (d : FatData) (v : Volume) (f : FileAt d v)
    (sectorOffset sectorsToRead : ℕ), d.sectorsPerCluster ∣ d.firstDataSector → 0 < sectorsToRead →
      f.ReadsSlice sectorOffset sectorsToRead := by
  intro hall
  have hreads := hall smallDisk twoClusters twoClustersAt 2 1 (by decide) (by decide)
  exact absurd ((FileAt.readsExactly_of_readsSlice twoClustersAt (by decide) hreads).past
    (by decide)).2 (by decide)

end HAL9000.Fat32
