import HAL9000.Fat32.Creating
import HAL9000.Fat32.Reading

/-! `FatWriteFile` puts its buffer at the offset of the file, if every cluster it reserves is linked. -/
namespace HAL9000.Fat32

open Chain Program

/-- An open file: the cluster of its entry is a cluster of a directory. -/
structure OpenFile (d : FatData) (v : Volume) extends FileAt d v where
  directory : ℕ
  directory_isCluster : d.IsCluster directory
  dirEntrySector_eq : dirEntrySector = d.sectorOf directory
  directory_not_mem : directory ∉ clusters
  directory_used : clusterOf (v.fat directory) ≠ 0

/-- The requests to link a cluster that has been reserved are met. -/
def LinksMet (o : Outcome) : Prop :=
  ∀ n, o .memory .linkCluster n = true ∧ o .read .linkCluster n = true ∧ o .write .linkCluster n = true

/-- Where the sectors of a file are. -/
def sectorAt (d : FatData) (l : List ℕ) (i : ℕ) : ℕ :=
  d.sectorOf (l.getD (i / d.sectorsPerCluster) 0) + i % d.sectorsPerCluster

section Positions

variable {d : FatData} {v : Volume} {l : List ℕ} {i j : ℕ}

theorem sectorAt_inCluster (d : FatData) (l : List ℕ) (i : ℕ) :
    d.InCluster (l.getD (i / d.sectorsPerCluster) 0) (sectorAt d l i) :=
  ⟨Nat.le_add_right .., Nat.add_lt_add_left (Nat.mod_lt _ d.sectorsPerCluster_pos) _⟩

theorem getD_mem (hi : i < l.length * d.sectorsPerCluster) :
    l.getD (i / d.sectorsPerCluster) 0 ∈ l := by
  have hlt : i / d.sectorsPerCluster < l.length :=
    (Nat.div_lt_iff_lt_mul d.sectorsPerCluster_pos).mpr hi
  rw [List.getD_eq_getElem _ _ hlt]
  exact List.getElem_mem hlt

/-- The sectors of a file are different. -/
theorem sectorAt_inj (hl : ∀ c ∈ l, d.IsCluster c) (hnodup : l.Nodup)
    (hi : i < l.length * d.sectorsPerCluster) (hj : j < l.length * d.sectorsPerCluster)
    (h : sectorAt d l i = sectorAt d l j) : i = j := by
  have hpos := d.sectorsPerCluster_pos
  have hci := hl _ (getD_mem hi)
  have hcj := hl _ (getD_mem hj)
  have hcluster := (sectorAt_inCluster d l i).unique (h ▸ sectorAt_inCluster d l j) hci.1 hcj.1
  have hlti : i / d.sectorsPerCluster < l.length := (Nat.div_lt_iff_lt_mul hpos).mpr hi
  have hltj : j / d.sectorsPerCluster < l.length := (Nat.div_lt_iff_lt_mul hpos).mpr hj
  rw [List.getD_eq_getElem _ _ hlti, List.getD_eq_getElem _ _ hltj] at hcluster
  have hdiv : i / d.sectorsPerCluster = j / d.sectorsPerCluster :=
    (hnodup.getElem_inj_iff).mp hcluster
  unfold sectorAt at h
  rw [hdiv] at h
  have hmod : i % d.sectorsPerCluster = j % d.sectorsPerCluster := Nat.add_left_cancel h
  rw [← Nat.div_add_mod' i d.sectorsPerCluster, hdiv, hmod, Nat.div_add_mod']

theorem sectorAt_append {l' : List ℕ} (hi : i < l.length * d.sectorsPerCluster) :
    sectorAt d (l ++ l') i = sectorAt d l i := by
  have hlt : i / d.sectorsPerCluster < l.length :=
    (Nat.div_lt_iff_lt_mul d.sectorsPerCluster_pos).mpr hi
  unfold sectorAt
  rw [List.getD_append _ _ _ _ hlt]

theorem fileSectors_getElem? (d : FatData) (v : Volume) (l : List ℕ) (i : ℕ) :
    (fileSectors d v l)[i]? =
      if i < l.length * d.sectorsPerCluster then some (v.data (sectorAt d l i)) else none := by
  have hpos := d.sectorsPerCluster_pos
  by_cases hi : i < l.length * d.sectorsPerCluster
  swap
  · rw [if_neg hi, List.getElem?_eq_none]
    rw [length_fileSectors]
    omega
  rw [if_pos hi]
  have hlt : i / d.sectorsPerCluster < l.length := (Nat.div_lt_iff_lt_mul hpos).mpr hi
  have hmod := Nat.mod_lt i hpos
  unfold fileSectors sectorAt
  rw [Blocks.getElem?_flatMap (length_cluster d v) hpos, List.getElem?_eq_getElem hlt,
    List.getD_eq_getElem _ _ hlt]
  simp [hmod]

end Positions

section Linking

variable {d : FatData} {v : Volume} {o : Outcome} {last : ℕ}

theorem preserves_assert {p : Prop} [Decidable p] :
    Preserves World.outcome (Prog.lift (assertThat p) : FatM Unit) := .lift _

theorem preserves_freeClusterFound {g : FatGeometry} {markReserved : Bool} {c : ℕ} :
    Preserves World.outcome (freeClusterFound g markReserved c) := by
  unfold freeClusterFound
  refine .ite (.bind preserves_ioDevice fun _ => .bind (preserves_setVolume _) fun _ => ?_) ?_
  · exact .bind preserves_assert fun _ => .bind preserves_assert fun _ => .ret _
  · exact .bind preserves_assert fun _ => .bind preserves_assert fun _ => .ret _

theorem preserves_firstFreeLoop {g : FatGeometry} {markReserved : Bool} {n sector i : ℕ} :
    Preserves World.outcome (firstFreeLoop g markReserved n sector i) := by
  induction n generalizing sector i with
  | zero => exact .ret _
  | succ n ih =>
    unfold firstFreeLoop
    refine .bind preserves_ioDevice fun _ => .bind preserves_volume fun v => ?_
    cases firstFreeInSector g v sector (g.bytesPerSector / 4 - i) i with
    | none => exact ih
    | some index => exact preserves_freeClusterFound

theorem preserves_firstFreeCluster {g : FatGeometry} {markReserved : Bool} {c : ℕ} :
    Preserves World.outcome (firstFreeCluster g c markReserved) := by
  unfold firstFreeCluster
  exact .bind preserves_exAllocatePool fun _ => .ite (.ret _) (.ite (.fail _) preserves_firstFreeLoop)

theorem preserves_countFreeClusters {n c : ℕ} {freeCount : DWORD} :
    Preserves World.outcome (countFreeClusters d n c freeCount) := by
  induction n generalizing c freeCount with
  | zero => exact .fault _
  | succ n ih =>
    unfold countFreeClusters
    refine .bind (.attempt preserves_firstFreeCluster) fun r => ?_
    cases r with
    | error _ => exact .ret _
    | ok c =>
      cases c with
      | zero => exact .ret _
      | succ c => exact ih

/-- A call to extend a chain at `last` has linked a cluster, or has found none. -/
inductive Linked (d : FatData) (v : Volume) (last : ℕ) : ℕ → Volume → Prop
  | none {u : Volume} (hdata : u.data = v.data) (hfat : u.fat = v.fat) : Linked d v last 0 u
  | linked {c : ℕ} {u : Volume} (hc : d.IsCluster c) (hfree : clusterOf (v.fat c) = 0)
      (hdata : u.data = v.data)
      (hfat : u.fat = ((v.setFat c fat32EocMark).setFat last (BitVec.ofNat 32 c)).fat) :
      Linked d v last c u

/-- A cluster that is reserved is linked, too. -/
theorem addNewClusterBlock_linked (ho : LinksMet o) :
    Triple (AtWith o (· = v)) (addNewClusterBlock d last) (fun r => AtWith o (Linked d v last r.1))
      fun _ => True := by
  have hnone : ∀ w : World, AtWith o (· = v) w → AtWith o (Linked d v last 0) w :=
    fun w hw => ⟨hw.1, .none (congrArg _ hw.2) (congrArg _ hw.2)⟩
  unfold addNewClusterBlock
  refine .bind (preserves_request.triple request_at) fun _ => .ite (fun _ => .ret hnone) fun _ => ?_
  refine .bind (preserves_assert.triple assert_at) fun _ => ?_
  refine Triple.pre (P := AtWith o (· = v)) (volume_bind_with fun u hu => ?_) fun w hw => ⟨hw.1, hw.2.2⟩
  subst hu
  refine .ite (fun _ => .ret hnone) fun _ => ?_
  refine .bind (Q := fun res => AtWith o (Searched d u res)) ((Preserves.attempt preserves_firstFreeCluster).triple
      (.attempt (firstFreeCluster_spec.conseq (fun _ => id) (fun _ _ => id) fun w hw _ => hw)))
    fun res => ?_
  cases res with
  | error _ => exact .ret hnone
  | ok r =>
    cases r with
    | zero =>
      refine .bind (preserves_assert.triple assert_at) fun _ => .ret fun w hw => hnone w ⟨hw.1, ?_⟩
      exact Reserved.eq_of_zero hw.2.2
    | succ r =>
      dsimp only
      rw [fatEntry_eq]
      by_cases hres : d.IsCluster (r + 1) ∧ clusterOf (u.fat (r + 1)) = 0
      swap
      · intro w _ _ hw
        exact absurd ⟨(Reserved.of_succ hw.2).1, (Reserved.of_succ hw.2).2.1⟩ hres
      refine Triple.pre (P := AtWith o (· = u.setFat (r + 1) fat32EocMark)) ?_
        fun w hw => ⟨hw.1, (Reserved.of_succ hw.2).2.2⟩
      refine .bind (request_met fun t => (ho t).1) fun met => .assume fun hmet => ?_
      rw [if_neg (by simp [hmet])]
      refine .bind (request_met fun t => (ho t).2.1) fun met => .assume fun hmet => ?_
      rw [if_neg (by simp [hmet])]
      refine .bind (request_met fun t => (ho t).2.2) fun met => .assume fun hmet => ?_
      rw [if_neg (by simp [hmet])]
      refine .bind (setVolume_with (Q := (· = (u.setFat (r + 1) fat32EocMark).setFat last
        (BitVec.ofNat 32 (r + 1)))) fun u' hu' => by rw [hu']) fun _ => ?_
      have hlinked : ∀ w : World, AtWith o (· = (u.setFat (r + 1) fat32EocMark).setFat last
          (BitVec.ofNat 32 (r + 1))) w → AtWith o (Linked d u last (r + 1)) w := fun w hw =>
        ⟨hw.1, .linked hres.1 hres.2 (congrArg Volume.data hw.2 :) (congrArg Volume.fat hw.2 :)⟩
      refine .ite (fun _ => ?_) fun _ => .ret hlinked
      exact .bind (preserves_countFreeClusters.triple countFreeClusters_spec) fun _ => .ret hlinked

theorem addNewClusterToChain_linked (ho : LinksMet o) :
    Triple (AtWith o (· = v)) (addNewClusterToChain d last) (fun r => AtWith o (Linked d v last r))
      fun _ => True := by
  unfold addNewClusterToChain
  refine .bind (preserves_assert.triple assert_at) fun _ => ?_
  refine Triple.pre (P := AtWith o (· = v)) ?_ fun w hw => ⟨hw.1, hw.2.2⟩
  refine .bind (preserves_request.triple request_at) fun _ => .ite (fun _ => .fault) fun _ => ?_
  refine .bind (addNewClusterBlock_linked ho) fun res => ?_
  obtain ⟨r, info⟩ := res
  refine .bind (preserves_request.triple request_at) fun _ => ?_
  refine .bind (preserves_assert.triple assert_at) fun _ => .ite (fun _ => ?_) fun _ => ?_
  · exact .fail fun _ _ => trivial
  · refine Triple.pre (P := AtWith o (Linked d v last r)) ?_ fun w hw => ⟨hw.1, hw.2.2⟩
    refine .bind (setVolume_with (Q := Linked d v last r) fun u hu => ?_) fun _ => .ret fun _ => id
    cases hu with
    | none hdata hfat => exact .none hdata hfat
    | linked hc hfree hdata hfat => exact .linked hc hfree hdata hfat

end Linking

/-- The file has been written to from sector `start` on, for `count` sectors. -/
structure Holding (d : FatData) (v₀ : Volume) (f : OpenFile d v₀) (buffer : ℕ → ℕ → DirEntry)
    (start count : ℕ) (v : Volume) (l : List ℕ) : Prop where
  chain : FatChain d v f.first l
  grown : f.clusters <+: l
  directory_not_mem : f.directory ∉ l
  directory_used : clusterOf (v.fat f.directory) ≠ 0
  written : ∀ i < count, start + i < l.length * d.sectorsPerCluster ∧
    v.data (sectorAt d l (start + i)) = buffer i
  kept : ∀ i < f.clusters.length * d.sectorsPerCluster, i < start ∨ start + count ≤ i →
    v.data (sectorAt d l i) = v₀.data (sectorAt d f.clusters i)

/-- The call has got to the cluster at this position. -/
def HoldingAt (d : FatData) (v₀ : Volume) (f : OpenFile d v₀) (buffer : ℕ → ℕ → DirEntry)
    (start count position c : ℕ) (v : Volume) : Prop :=
  ∃ l, Holding d v₀ f buffer start count v l ∧ l[position]? = some c

section Holding

variable {d : FatData} {v₀ v v' : Volume} {f : OpenFile d v₀} {buffer : ℕ → ℕ → DirEntry}
  {start count position c r : ℕ} {l : List ℕ}

theorem Holding.isCluster (h : Holding d v₀ f buffer start count v l) :
    ∀ c ∈ l, d.IsCluster c := h.chain.cluster

theorem Holding.nodup (h : Holding d v₀ f buffer start count v l) : l.Nodup := h.chain.chain.nodup

theorem Holding.old_le (h : Holding d v₀ f buffer start count v l) :
    f.clusters.length * d.sectorsPerCluster ≤ l.length * d.sectorsPerCluster :=
  Nat.mul_le_mul_right _ h.grown.length_le

/-- Nothing has been written yet. -/
theorem holding_start (f : OpenFile d v₀) (buffer : ℕ → ℕ → DirEntry) (start : ℕ) :
    Holding d v₀ f buffer start 0 v₀ f.clusters :=
  ⟨f.chain, List.prefix_rfl, f.directory_not_mem, f.directory_used, fun _ hi => absurd hi (by omega),
    fun _ _ _ => rfl⟩

/-- A linked cluster is the next one of the file. -/
theorem Holding.link (h : Holding d v₀ f buffer start count v (l ++ [c])) (hr : d.IsCluster r)
    (hfree : clusterOf (v.fat r) = 0) (hdata : v'.data = v.data)
    (hfat : v'.fat = ((v.setFat r fat32EocMark).setFat c (BitVec.ofNat 32 r)).fat) :
    Holding d v₀ f buffer start count v' (l ++ [c, r]) := by
  have hout : ∀ x ∈ l ++ [c], x ≠ r := by
    rintro x hx rfl
    exact h.chain.ne_zero hx hfree
  have hrc : r ≠ c := (hout c (by simp)).symm
  have hreserved : FatChain d (v.setFat r fat32EocMark) f.first (l ++ [c]) := by
    refine h.chain.congr fun x hx => ?_
    rw [setFat_fat_of_ne (hout x hx)]
  have hnat : (BitVec.ofNat 32 r).toNat = r := by
    have hcount := d.countOfClusters_lt
    have hle := hr.2
    rw [BitVec.toNat_ofNat, Nat.mod_eq_of_lt (by omega)]
  have hlink : clusterOf (v'.fat c) = r := by
    have hcount := d.countOfClusters_lt
    have hle := hr.2
    rw [hfat, setFat_fat_self, clusterOf_setCluster (by lia), hnat]
  have happend : l ++ [c, r] = l ++ [c] ++ [r] := by simp
  have hne : f.directory ≠ r := by
    rintro rfl
    exact h.directory_used hfree
  have hdirectory : f.directory ≠ c := by
    rintro rfl
    exact h.directory_not_mem (by simp)
  refine ⟨?_, ?_, ?_, ?_, fun i hi => ?_, fun i hi hrange => ?_⟩
  · refine hreserved.extend hr hrc (nextCluster_eocMark rfl) (fun x hx => ?_) hlink
    rw [hfat, setFat_fat_of_ne hx]
  · rw [happend]
    exact h.grown.trans (List.prefix_append _ _)
  · rw [happend]
    simp only [List.mem_append, List.mem_singleton, not_or]
    exact ⟨by simpa using h.directory_not_mem, hne⟩
  · rw [hfat, setFat_fat_of_ne hdirectory, setFat_fat_of_ne hne]
    exact h.directory_used
  · obtain ⟨hlt, hwritten⟩ := h.written i hi
    rw [happend, sectorAt_append hlt, hdata]
    refine ⟨hlt.trans_le (Nat.mul_le_mul_right _ ?_), hwritten⟩
    simp
  · rw [happend, sectorAt_append (hi.trans_le h.old_le), hdata]
    exact h.kept i hi hrange

/-- The next sectors of the cluster are written. -/
theorem Holding.write {n : ℕ} (h : Holding d v₀ f buffer start count v l)
    (hposition : l[position]? = some c) (hge : position * d.sectorsPerCluster ≤ start + count)
    (hle : start + count + n ≤ (position + 1) * d.sectorsPerCluster) :
    Holding d v₀ f buffer start (count + n)
      (v.setSectors (d.sectorOf c + (start + count - position * d.sectorsPerCluster)) n
        fun i => buffer (count + i)) l := by
  have hpos := d.sectorsPerCluster_pos
  obtain ⟨hlt, hc⟩ := List.getElem?_eq_some_iff.mp hposition
  have hlength : (position + 1) * d.sectorsPerCluster ≤ l.length * d.sectorsPerCluster :=
    Nat.mul_le_mul_right _ hlt
  rw [Nat.add_one_mul] at hle hlength
  have hsector : ∀ i, position * d.sectorsPerCluster ≤ i →
      i < position * d.sectorsPerCluster + d.sectorsPerCluster →
      sectorAt d l i = d.sectorOf c + (i - position * d.sectorsPerCluster) := by
    intro i hi hi'
    have hdiv : i / d.sectorsPerCluster = position :=
      Nat.div_eq_of_lt_le hi (by rw [Nat.succ_mul]; exact hi')
    have hmod := Nat.div_add_mod' i d.sectorsPerCluster
    rw [hdiv] at hmod
    unfold sectorAt
    rw [hdiv, List.getD_eq_getElem _ _ hlt, hc]
    lia
  -- The sectors of the request are those of the file from `start + count` on.
  have hrange : ∀ i < l.length * d.sectorsPerCluster,
      (d.sectorOf c + (start + count - position * d.sectorsPerCluster) ≤ sectorAt d l i ∧
        sectorAt d l i < d.sectorOf c + (start + count - position * d.sectorsPerCluster) + n) ↔
      start + count ≤ i ∧ i < start + count + n := by
    intro i hi
    constructor
    · rintro ⟨hlow, hhigh⟩
      have hj := hsector (position * d.sectorsPerCluster + (sectorAt d l i - d.sectorOf c)) (by omega)
        (by lia)
      have heq := sectorAt_inj h.isCluster h.nodup hi (by lia)
        (show sectorAt d l i = sectorAt d l (position * d.sectorsPerCluster +
          (sectorAt d l i - d.sectorOf c)) by rw [hj]; lia)
      lia
    · rintro ⟨hlow, hhigh⟩
      rw [hsector i (by omega) (by omega)]
      lia
  have hold := h.old_le
  refine ⟨h.chain.congr fun _ _ => rfl, h.grown, h.directory_not_mem, h.directory_used,
    fun i hi => ?_, fun i hi hout => ?_⟩
  · by_cases hi' : i < count
    · obtain ⟨hlt', hwritten⟩ := h.written i hi'
      refine ⟨hlt', (if_neg fun hin => ?_).trans hwritten⟩
      have := (hrange (start + i) hlt').mp hin
      omega
    · have hin := (hrange (start + i) (by omega)).mpr ⟨by omega, by omega⟩
      refine ⟨by omega, (if_pos hin).trans ?_⟩
      rw [hsector (start + i) (by omega) (by omega)]
      congr 1
      omega
  · refine (if_neg fun hin => ?_).trans (h.kept i hi (by omega))
    have := (hrange i (by omega)).mp hin
    lia

end Holding

section Writes

variable {d : FatData} {v₀ : Volume} {f : OpenFile d v₀} {buffer : ℕ → ℕ → DirEntry}
  {o : Outcome} {start count position c s : ℕ}

theorem HoldingAt.isCluster {v : Volume} (h : HoldingAt d v₀ f buffer start count position c v) :
    d.IsCluster c := by
  obtain ⟨l, hholding, hposition⟩ := h
  exact hholding.isCluster c (List.mem_of_getElem? hposition)

/-- The next cluster of the file, which is linked if there is none. -/
theorem nextSectorInClusterChain_holding (ho : LinksMet o) (hs : d.InCluster c s) :
    Triple (AtWith o (HoldingAt d v₀ f buffer start count position c))
      (nextSectorInClusterChain d s true)
      (fun r => AtWith o fun v => ∃ c', r = d.sectorOf c' ∧
        HoldingAt d v₀ f buffer start count (position + 1) c' v) fun _ => True := by
  intro w₀ r w₁ hw hrun
  obtain ⟨l, hholding, hposition⟩ := hw.2
  have hc := HoldingAt.isCluster hw.2
  have hmem : c ∈ l := List.mem_of_getElem? hposition
  have hne := hholding.chain.ne_zero hmem
  revert r w₁
  suffices htriple : Triple (AtWith o (· = w₀.volume)) (nextSectorInClusterChain d s true)
      (fun r => AtWith o fun v => ∃ c', r = d.sectorOf c' ∧
        HoldingAt d v₀ f buffer start count (position + 1) c' v) fun _ => True from
    fun r w₁ hrun => htriple w₀ r w₁ ⟨hw.1, rfl⟩ hrun
  generalize hv : w₀.volume = v at hholding hne ⊢
  unfold nextSectorInClusterChain
  rw [clusterOfSector_eq hc hs, Prog.pure_bind]
  refine .bind (preserves_nextClusterInChain.triple ((nextClusterInChain_spec hne).conseq (fun _ => id)
    (fun _ _ => id) fun _ _ => trivial)) fun next => ?_
  have hafter := hholding.chain.chain.getElem?_succ hposition
  cases hnext : v.nextCluster c with
  | some following =>
    rw [hnext] at hafter
    refine .ite (fun heoc => ?_) fun _ => ?_
    · intro w _ _ hw
      rcases hw.2.2 with ⟨-, hnone⟩ | ⟨hnot, -⟩
      · cases hnone
      · rw [heoc] at hnot
        cases hnot
    · have hfollowing := hholding.isCluster _ (List.mem_of_getElem? hafter)
      refine Triple.pre (P := fun w => next = following ∧ AtWith o (· = v) w) (.assume fun heq => ?_) ?_
      · rw [heq, firstSectorOfCluster_eq hfollowing]
        exact .ret fun w hw => ⟨hw.1, following, rfl, l, hw.2 ▸ hholding, hafter⟩
      · intro w hw
        rcases hw.2.2 with ⟨-, hnone⟩ | ⟨-, hsome⟩
        · cases hnone
        · exact ⟨(Option.some.inj hsome).symm, hw.1, hw.2.1⟩
  | none =>
    refine .ite (fun _ => ?_) fun hnot => ?_
    swap
    · intro w _ _ hw
      rcases hw.2.2 with ⟨heoc, -⟩ | ⟨-, hsome⟩
      · exact absurd heoc hnot
      · cases hsome
    rw [if_neg (by simp)]
    obtain ⟨l, rfl⟩ := hholding.chain.chain.eq_append_of_last hmem hnext
    refine .bind (Triple.pre (addNewClusterToChain_linked ho) fun w hw => ⟨hw.1, hw.2.1⟩) fun r => ?_
    intro w r' w' hw hrun
    obtain ⟨hoc, hlinked⟩ := hw
    change Linked d v c r w.volume at hlinked
    cases hlinked with
    | none hdata hfat =>
      rw [firstSectorOfCluster_fail fun hzero => absurd hzero.1 (by decide)] at hrun
      obtain ⟨rfl, -⟩ := Prod.mk.inj (Except.ok.inj hrun)
      trivial
    | linked hr hfree hdata hfat =>
      rw [firstSectorOfCluster_eq hr] at hrun
      obtain ⟨rfl, rfl⟩ := Prod.mk.inj (Except.ok.inj hrun)
      refine ⟨hoc, r, rfl, l ++ [c, r], hholding.link hr hfree hdata hfat, ?_⟩
      have hlast : position = l.length := by
        obtain ⟨hlt, -⟩ := List.getElem?_eq_some_iff.mp hposition
        rw [hnext, List.getElem?_eq_none_iff] at hafter
        simp only [List.length_append, List.length_singleton] at hlt hafter
        omega
      rw [hlast]
      simp

theorem skipClusters_holding (ho : LinksMet o) {n : ℕ} :
    Triple (AtWith o fun v => ∃ c, s = d.sectorOf c ∧ HoldingAt d v₀ f buffer start count position c v)
      (skipClusters d n s)
      (fun r => AtWith o fun v => ∃ c, r = d.sectorOf c ∧
        HoldingAt d v₀ f buffer start count (position + n) c v) fun _ => True := by
  induction n generalizing s position with
  | zero => exact .ret fun w hw => hw
  | succ n ih =>
    unfold skipClusters
    refine .bind (Q := fun r => AtWith o fun v => ∃ c, r = d.sectorOf c ∧
      HoldingAt d v₀ f buffer start count (position + 1) c v) ?_ fun r => ?_
    · intro w r w' hw hrun
      obtain ⟨hoc, c, rfl, hat⟩ := hw
      exact nextSectorInClusterChain_holding ho (d.inCluster_sectorOf c) w r w' ⟨hoc, hat⟩ hrun
    · have hrest := @ih (position + 1) r
      rw [Nat.add_assoc, Nat.add_comm 1 n] at hrest
      exact hrest

/-- The loop writes the rest of the request. -/
theorem writeLoop_holding (ho : LinksMet o) {fuel remaining n k : ℕ}
    (hk : k = start + count - position * d.sectorsPerCluster)
    (hge : position * d.sectorsPerCluster ≤ start + count)
    (hlt : start + count < (position + 1) * d.sectorsPerCluster)
    (hn : n = min remaining (d.sectorsPerCluster - k)) :
    Triple (AtWith o (HoldingAt d v₀ f buffer start count position c))
      (writeLoop d buffer fuel (d.sectorOf c + k) count remaining n)
      (fun _ => AtWith o fun v => ∃ l, Holding d v₀ f buffer start (count + remaining) v l)
      fun _ => True := by
  induction fuel generalizing position c count remaining n k with
  | zero => exact .fault
  | succ fuel ih =>
    rw [Nat.add_one_mul] at hlt
    have hin : d.InCluster c (d.sectorOf c + k) := ⟨by omega, by omega⟩
    have hcount : count + remaining = count + n + (remaining - n) := by omega
    unfold writeLoop
    refine .bind (preserves_ioDevice.triple ((ioDevice_at (E := fun _ => True) fun _ _ => trivial).conseq
      (fun _ => id) (fun _ _ => id) fun _ _ => trivial)) fun _ => ?_
    refine .bind (setVolume_with (Q := HoldingAt d v₀ f buffer start (count + n) position c)
      fun v hv => ?_) fun _ => ?_
    · obtain ⟨l, hholding, hposition⟩ := hv
      refine ⟨l, ?_, hposition⟩
      have hwrite := hholding.write (n := n) hposition hge (by rw [Nat.add_one_mul]; omega)
      rw [← hk] at hwrite
      exact hwrite
    refine .ite (fun hdone => .ret fun w hw => ?_) fun hmore => ?_
    · obtain ⟨hoc, l, hholding, -⟩ := hw
      refine ⟨hoc, l, ?_⟩
      rw [hcount, hdone]
      exact hholding
    have hend : start + (count + n) = (position + 1) * d.sectorsPerCluster := by
      rw [Nat.add_one_mul]
      omega
    refine .bind (nextSectorInClusterChain_holding ho hin) fun r => ?_
    intro w r' w' hw hrun
    obtain ⟨hoc, c', rfl, hat⟩ := hw
    have hpos := d.sectorsPerCluster_pos
    have hloop := @ih (count + n) (position + 1) c' (remaining - n)
      (min d.sectorsPerCluster (remaining - n)) 0 (by omega) hend.ge
      (by rw [Nat.add_one_mul (position + 1)]; omega) (by rw [Nat.sub_zero, min_comm])
    rw [hcount]
    exact hloop w r' w' ⟨hoc, hat⟩ hrun

/-- A change of an entry in the cluster of the directory does not touch the file. -/
theorem Holding.setEntryAt {v : Volume} {l : List ℕ} {index : ℕ} {e : DirEntry}
    (h : Holding d v₀ f buffer start count v l) (hindex : index < d.entriesPerCluster) :
    Holding d v₀ f buffer start count (v.setEntryAt d f.dirEntrySector index e) l := by
  have hdata : ∀ i < l.length * d.sectorsPerCluster,
      (v.setEntryAt d f.dirEntrySector index e).data (sectorAt d l i) = v.data (sectorAt d l i) := by
    intro i hi
    rw [f.dirEntrySector_eq]
    refine setEntryAt_data hindex fun hin => h.directory_not_mem ?_
    have hmem := getD_mem hi
    have heq := hin.unique (sectorAt_inCluster d l i) f.directory_isCluster.1 (h.isCluster _ hmem).1
    exact heq ▸ hmem
  refine ⟨h.chain.congr fun _ _ => rfl, h.grown, h.directory_not_mem, h.directory_used,
    fun i hi => ?_, fun i hi hrange => ?_⟩
  · obtain ⟨hlt, hwritten⟩ := h.written i hi
    exact ⟨hlt, (hdata _ hlt).trans hwritten⟩
  · exact (hdata i (hi.trans_le h.old_le)).trans (h.kept i hi hrange)

theorem preserves_getDirEntryFromSector {sector first : ℕ} :
    Preserves World.outcome (getDirEntryFromSector d sector first) := by
  unfold getDirEntryFromSector
  refine .bind preserves_exAllocatePool fun _ => .bind preserves_ioDevice fun _ =>
    .bind preserves_volume fun v => .bind ?_ fun cluster => ?_
  · unfold clusterOfSector
    exact .ite (.fail _) (.ret _)
  · cases findDirEntry d v sector cluster (d.bytesPerSector * d.sectorsPerCluster / 32) 0 with
    | none => exact .fail _
    | some index => exact .ret _

/-- The entry is changed after the data has been written. -/
theorem changeEntry_holding {sectorsToWrite : ℕ} {change : DirEntry → DirEntry} :
    Triple (AtWith o fun v => ∃ l, Holding d v₀ f buffer start sectorsToWrite v l)
      (do
        let (dirEntryIndex, dirEntry) ← getDirEntryFromSector d f.dirEntrySector (d.sectorOf f.first)
        writeDirEntryToSector d f.dirEntrySector dirEntryIndex (change dirEntry)
        return sectorsToWrite : FatM ℕ)
      (fun n => AtWith o fun v => n = sectorsToWrite ∧
        ∃ l, Holding d v₀ f buffer start sectorsToWrite v l) fun _ => True := by
  intro w₀ r w₁ hw hrun
  obtain ⟨hoc, l, hholding⟩ := hw
  revert r w₁
  suffices htriple : Triple (AtWith o (· = w₀.volume)) _ (fun n => AtWith o fun v => n = sectorsToWrite ∧
      ∃ l, Holding d v₀ f buffer start sectorsToWrite v l) fun _ => True from
    fun r w₁ hrun => htriple w₀ r w₁ ⟨hoc, rfl⟩ hrun
  refine .bind (preserves_getDirEntryFromSector.triple (getDirEntryFromSector_spec.conseq (fun _ => id)
    (fun _ _ => id) fun _ _ => trivial)) fun res => ?_
  obtain ⟨index, entry⟩ := res
  refine Triple.pre (P := fun w => index < d.entriesPerCluster ∧ AtWith o (· = w₀.volume) w)
    (.assume fun hindex => ?_) fun w hw => ⟨hw.2.2.1, hw.1, hw.2.1⟩
  refine .bind (Q := fun _ => AtWith o fun v => ∃ l, Holding d v₀ f buffer start sectorsToWrite v l)
    ?_ fun _ => .ret fun w hw => ⟨hw.1, rfl, hw.2⟩
  unfold writeDirEntryToSector
  refine .bind (preserves_exAllocatePool.triple ((exAllocatePool_at (E := fun _ => True)
    fun _ _ => trivial).conseq (fun _ => id) (fun _ _ => id) fun _ _ => trivial)) fun _ => ?_
  refine .bind (preserves_ioDevice.triple ((ioDevice_at (E := fun _ => True) fun _ _ => trivial).conseq
    (fun _ => id) (fun _ _ => id) fun _ _ => trivial)) fun _ => ?_
  refine .bind (preserves_ioDevice.triple ((ioDevice_at (E := fun _ => True) fun _ _ => trivial).conseq
    (fun _ => id) (fun _ _ => id) fun _ _ => trivial)) fun _ => ?_
  exact setVolume_with fun v hv => ⟨l, hv ▸ hholding.setEntryAt hindex⟩

/-- A call that succeeds has written the buffer to the offset of the file. -/
theorem fatWriteFile_holding (ho : LinksMet o) {sectorsToWrite : ℕ} {now : DateTime} :
    Triple (AtWith o (· = v₀))
      (fatWriteFile d (d.sectorOf f.first) start f.dirEntrySector buffer sectorsToWrite now)
      (fun n => AtWith o fun v => n = sectorsToWrite ∧
        ∃ l, Holding d v₀ f buffer start sectorsToWrite v l) fun _ => True := by
  have hpos := d.sectorsPerCluster_pos
  have hdiv := Nat.div_add_mod' start d.sectorsPerCluster
  have hmod := Nat.mod_lt start hpos
  unfold fatWriteFile
  refine .bind (preserves_assert.triple assert_at) fun _ => .ite (fun hzero => ?_) fun hne => ?_
  · refine .ret fun w hw => ⟨hw.1, hzero.symm, f.clusters, ?_⟩
    rw [hzero, hw.2.2]
    exact holding_start f buffer start
  have hstart : HoldingAt d v₀ f buffer start 0 0 f.first v₀ := by
    refine ⟨f.clusters, holding_start f buffer start, ?_⟩
    rcases f.chain.cases_on with ⟨heq, -⟩ | ⟨-, rest, heq, -, -⟩ <;> rw [heq] <;> rfl
  have hskip := @skipClusters_holding d v₀ f buffer o start 0 0 (d.sectorOf f.first) ho
    (start / d.sectorsPerCluster)
  rw [Nat.zero_add] at hskip
  refine .bind (hskip.pre fun w hw => ⟨hw.1, f.first, rfl, ?_⟩)
    fun s => .bind (preserves_assert.triple assert_at) fun _ => ?_
  · rw [hw.2.2]
    exact hstart
  refine Triple.pre (P := fun w => ∃ c, s = d.sectorOf c ∧
    AtWith o (HoldingAt d v₀ f buffer start 0 (start / d.sectorsPerCluster) c) w) ?_ fun w hw => ?_
  swap
  · obtain ⟨hoc, -, c, hs, hat⟩ := hw
    exact ⟨c, hs, hoc, hat⟩
  refine .exists_pre fun c => .assume fun hs => ?_
  subst hs
  have hloop := @writeLoop_holding d v₀ f buffer o start 0 (start / d.sectorsPerCluster) c ho
    sectorsToWrite sectorsToWrite (min sectorsToWrite (d.sectorsPerCluster - start % d.sectorsPerCluster))
    (start % d.sectorsPerCluster) (by lia) (by omega) (by rw [Nat.add_one_mul]; omega) rfl
  rw [Nat.zero_add] at hloop
  exact .bind hloop fun _ => @changeEntry_holding d v₀ f buffer o start sectorsToWrite fun e =>
    e.afterWrite (BitVec.ofNat 32 (start + sectorsToWrite) * BitVec.ofNat 32 d.bytesPerSector) now

end Writes

/-- Only sectors of these clusters are different. -/
structure OnlyIn (d : FatData) (l : List ℕ) (v v' : Volume) : Prop where
  fat : v'.fat = v.fat
  data : ∀ s, (∀ c ∈ l, ¬d.InCluster c s) → v'.data s = v.data s

section Within

variable {d : FatData} {v v' v'' : Volume} {o : Outcome} {buffer : ℕ → ℕ → DirEntry} {c : ℕ} {l : List ℕ}

theorem OnlyIn.trans {l' : List ℕ} (h : OnlyIn d l v v') (h' : OnlyIn d l' v' v'') (hsub : l' ⊆ l) :
    OnlyIn d l v v'' :=
  ⟨h'.fat.trans h.fat, fun s hs => (h'.data s fun c hc => hs c (hsub hc)).trans (h.data s hs)⟩

theorem OnlyIn.fatChain (h : OnlyIn d l v v') {x : ℕ} {l' : List ℕ} (hl : FatChain d v x l') :
    FatChain d v' x l' := hl.congr fun y _ => by rw [h.fat]

/-- The clusters before the offset are skipped. -/
theorem skipClusters_settles {n : ℕ} (hl : FatChain d v c l) (hn : n < l.length) :
    ∃ c', FatChain d v c' (l.drop n) ∧
      Settles o v (skipClusters d n (d.sectorOf c)) (.ok (d.sectorOf c')) v := by
  induction n generalizing c l with
  | zero => exact ⟨c, hl, .ret _⟩
  | succ n ih =>
    rcases hl.cases_on with ⟨rfl, -⟩ | ⟨next, rest, rfl, hnext, hrest⟩
    · simp at hn
    · obtain ⟨c', hc', hrun⟩ := ih hrest (by simpa using hn)
      exact ⟨c', hc', .bind (nextSectorInClusterChain_settles hl.isCluster (d.inCluster_sectorOf c)
        hnext hrest.isCluster) hrun⟩

/-- Within the clusters of the chain the loop writes all of the request. -/
theorem writeLoop_settles {fuel k pData remaining : ℕ} (hl : FatChain d v c l)
    (hk : k < d.sectorsPerCluster) (hremaining : 0 < remaining) (hfuel : remaining ≤ fuel)
    (hroom : remaining + k ≤ l.length * d.sectorsPerCluster) :
    ∃ v', OnlyIn d l v v' ∧ Settles o v (writeLoop d buffer fuel (d.sectorOf c + k) pData remaining
      (min remaining (d.sectorsPerCluster - k))) (.ok ()) v' := by
  induction fuel generalizing v c k pData remaining l with
  | zero => omega
  | succ fuel ih =>
    have hin : d.InCluster c (d.sectorOf c + k) := ⟨by omega, by omega⟩
    generalize hv' : v.setSectors (d.sectorOf c + k) (min remaining (d.sectorsPerCluster - k))
      (fun i => buffer (pData + i)) = v'
    have honly : OnlyIn d l v v' := by
      rw [← hv']
      refine ⟨rfl, fun s hs => if_neg fun hrange => hs c hl.chain.mem ⟨by omega, by omega⟩⟩
    by_cases hall : remaining ≤ d.sectorsPerCluster - k
    · refine ⟨v', honly, .bind (.write _) (.bind (.setVolume _) ?_)⟩
      dsimp only
      rw [hv', min_eq_left hall, if_pos (Nat.sub_self _)]
      exact .ret _
    rcases (honly.fatChain hl).cases_on with ⟨rfl, -⟩ | ⟨next, rest, rfl, hnext, hrest⟩
    · rw [List.length_singleton, Nat.one_mul] at hroom
      omega
    rw [List.length_cons, Nat.add_one_mul] at hroom
    obtain ⟨v'', honly', hloop⟩ := @ih v' next rest 0 (pData + (d.sectorsPerCluster - k))
      (remaining - (d.sectorsPerCluster - k)) hrest d.sectorsPerCluster_pos (by omega) (by lia)
      (by omega)
    rw [Nat.add_zero, Nat.sub_zero, min_comm] at hloop
    refine ⟨v'', honly.trans honly' (List.subset_cons_self _ _), .bind (.write _)
      (.bind (.setVolume _) ?_)⟩
    dsimp only
    rw [hv', min_eq_right (by omega), if_neg (by omega)]
    exact .bind (nextSectorInClusterChain_settles hl.isCluster hin hnext hrest.isCluster) hloop

/-- A write within the clusters of a file succeeds. -/
theorem fatWriteFile_settles {start sectorsToWrite : ℕ} {now : DateTime} (f : OpenFile d v)
    (haligned : f.toFileAt.Aligned) (hn : 0 < sectorsToWrite)
    (hroom : start + sectorsToWrite ≤ f.toFileAt.sectors) :
    ∃ v', Settles o v (fatWriteFile d (d.sectorOf f.first) start f.dirEntrySector buffer sectorsToWrite
      now) (.ok sectorsToWrite) v' := by
  have hpos := d.sectorsPerCluster_pos
  have hdiv := Nat.div_add_mod' start d.sectorsPerCluster
  have hmod := Nat.mod_lt start hpos
  unfold FileAt.sectors at hroom
  have hskipped : start / d.sectorsPerCluster < f.clusters.length :=
    (Nat.div_lt_iff_lt_mul hpos).mpr (by omega)
  obtain ⟨c, hc, hskip⟩ := skipClusters_settles (o := o) f.chain hskipped
  obtain ⟨v', honly, hloop⟩ := @writeLoop_settles d v o buffer c _ sectorsToWrite
    (start % d.sectorsPerCluster) 0 sectorsToWrite hc hmod hn le_rfl
    (by rw [List.length_drop, Nat.sub_mul]; lia)
  -- The cluster of the directory is not one of the file, so that the entry is found.
  have hentry : ∀ i < d.entriesPerCluster,
      v'.entryAt d f.dirEntrySector i = v.entryAt d f.dirEntrySector i := by
    intro i hi
    unfold Volume.entryAt
    rw [f.dirEntrySector_eq, honly.data _ fun x hx hin => ?_]
    have hmem := List.mem_of_mem_drop hx
    have heq := hin.unique (inCluster_slot hi) (f.chain.cluster x hmem).1 f.directory_isCluster.1
    exact f.directory_not_mem (heq ▸ hmem)
  obtain ⟨index, hindex, hmatch⟩ := exists_firstMatch f.toFileAt.matches_slot
  have hlt := hindex.trans_lt f.slot_lt
  have hmatch' : FirstMatch d v' f.dirEntrySector f.first index := by
    refine ⟨?_, fun i hi => ?_⟩
    · rw [hentry index hlt]
      exact hmatch.found
    · rw [hentry i (hi.trans hlt)]
      exact hmatch.first i hi
  refine ⟨v'.setEntryAt d f.dirEntrySector index ((v'.entryAt d f.dirEntrySector index).afterWrite
    (BitVec.ofNat 32 (start + sectorsToWrite) * BitVec.ofNat 32 d.bytesPerSector) now), ?_⟩
  unfold fatWriteFile
  refine .bind (.assert haligned) ?_
  rw [if_neg hn.ne']
  refine .bind hskip (.bind (.assert (sectorOf_pos d c).ne) (.bind hloop ?_))
  refine .bind (getDirEntryFromSector_settles f.chain.isCluster hlt hmatch') ?_
  exact .bind (writeDirEntryToSector_settles index _) (.ret _)

end Within

end HAL9000.Fat32
