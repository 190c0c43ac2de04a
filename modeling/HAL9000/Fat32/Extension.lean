import HAL9000.Fat32.Layout

/-! What the functions of `fat_utils.c` leave on a volume: they reserve and link only clusters that
were free. -/
namespace HAL9000.Fat32

open Program

/-- A condition on the volume alone. -/
def At (P : Volume → Prop) : World → Prop := fun w => P w.volume

section Rules

variable {α : Type} {P E : Volume → Prop} {E' : World → Prop} {resource : Resource}
  {site : Site}

theorem request_at : Triple (At P) (request resource site) (fun _ => At P) E' := by
  intro w r w' hw hrun
  obtain ⟨rfl, rfl⟩ : Except.ok (w.outcome resource site w.clock) = r ∧
      { w with clock := w.clock + 1 } = w' := by simpa [request] using hrun
  exact hw

theorem exAllocatePool_at (he : ∀ v, P v → E v) :
    Triple (At P) (exAllocatePool site) (fun _ => At P) (At E) := by
  unfold exAllocatePool
  refine .bind request_at fun met => .ite (fun _ => ?_) fun _ => ?_
  · exact .fail fun w hw => he w.volume hw
  · exact .ret fun _ => id

theorem ioDevice_at (he : ∀ v, P v → E v) :
    Triple (At P) (ioDevice resource site) (fun _ => At P) (At E) := by
  unfold ioDevice
  refine .bind request_at fun met => .ite (fun _ => ?_) fun _ => ?_
  · exact .fail fun w hw => he w.volume hw
  · exact .ret fun _ => id

/-- The rest of the program knows the volume that was read. -/
theorem volume_bind {Q : α → World → Prop} {f : Volume → FatM α}
    (h : ∀ v, P v → Triple (At (· = v)) (f v) Q E') : Triple (At P) (volume >>= f) Q E' := by
  refine .bind (Q := fun v w => w.volume = v ∧ P v) ?_ fun v => ?_
  · intro w r w' hw hrun
    obtain ⟨rfl, rfl⟩ : Except.ok w.volume = r ∧ w = w' := by
      simpa [volume, Prog.get, Pure.pure, Bind.bind, Prog.bind] using hrun
    exact ⟨rfl, hw⟩
  · exact (Triple.assume fun hv => h v hv).pre fun w hw => ⟨hw.2, hw.1⟩

/-- The volume before the program may be fixed. -/
theorem fix_volume {Q : α → World → Prop} {x : FatM α}
    (h : ∀ v, P v → Triple (At (· = v)) x Q E') : Triple (At P) x Q E' :=
  fun w r w' hw hrun => h w.volume hw w r w' rfl hrun

theorem setVolume_at {Q : Volume → Prop} {f : Volume → Volume} (h : ∀ v, P v → Q (f v)) :
    Triple (At P) (setVolume f) (fun _ => At Q) E' :=
  .modify fun w hw => h w.volume hw

theorem assert_at {p : Prop} [Decidable p] :
    Triple (At P) (Prog.lift (assertThat p) : FatM Unit) (fun _ => At fun v => p ∧ P v) E' :=
  .lift fun _ _ hp hw => ⟨assertThat_eq_ok.mp hp, hw⟩

end Rules

variable {d : FatData} {v : Volume} {c : ℕ} {E : World → Prop}

theorem nextClusterInChain_spec (hne : clusterOf (v.fat c) ≠ 0) :
    Triple (At (· = v)) (nextClusterInChain d c)
      (fun r => At fun u => u = v ∧ (fat32Eoc r = true ∧ v.nextCluster c = none ∨
        fat32Eoc r = false ∧ v.nextCluster c = some r))
      (At (· = v)) := by
  unfold nextClusterInChain
  refine .bind (exAllocatePool_at fun _ => id) fun _ => .bind (ioDevice_at fun _ => id) fun _ =>
    volume_bind fun u hu => ?_
  subst hu
  dsimp only
  rw [fatEntry_eq]
  refine .ite (fun h => absurd h hne) fun _ => .ite (fun hbad => ?_) fun hbad => ?_
  · refine .ret fun w hw => ⟨hw, Or.inl ⟨rfl, ?_⟩⟩
    simp [Volume.nextCluster, hbad]
  · refine .ret fun w hw => ⟨hw, ?_⟩
    unfold Volume.nextCluster fat32Eoc
    by_cases hlt : fat32BadCluster < clusterOf (u.fat c)
    · exact Or.inl ⟨by simpa using hlt, if_pos hlt.le⟩
    · exact Or.inr ⟨by simpa using hlt, if_neg (by omega)⟩

private theorem firstFreeInSector_free {sector n i j : ℕ}
    (h : firstFreeInSector d.toFatGeometry v sector n i = some j) :
    clusterOf (v.fat (d.fatEntry sector j)) = 0 := by
  induction n generalizing i with
  | zero => cases h
  | succ n ih =>
    unfold firstFreeInSector at h
    split_ifs at h with hfree
    · obtain rfl := Option.some.inj h
      exact hfree
    · exact ih h

/-- A free cluster of the volume has been marked as the end of a chain, or there is none. -/
inductive Reserved (d : FatData) (v : Volume) (markReserved : Bool) : ℕ → Volume → Prop
  | none : Reserved d v markReserved 0 v
  | found {c : ℕ} (hc : d.IsCluster c) (hfree : clusterOf (v.fat c) = 0) :
      Reserved d v markReserved c (if markReserved then v.setFat c fat32EocMark else v)

theorem Reserved.eq_of_zero {b : Bool} {u : Volume} (h : Reserved d v b 0 u) : u = v := by
  cases h with
  | none => rfl
  | found hc _ => exact absurd hc.1 (by omega)

theorem Reserved.of_succ {b : Bool} {u : Volume} (h : Reserved d v b (c + 1) u) :
    d.IsCluster (c + 1) ∧ clusterOf (v.fat (c + 1)) = 0 ∧
      u = if b then v.setFat (c + 1) fat32EocMark else v := by
  cases h with
  | found hc hfree => exact ⟨hc, hfree, rfl⟩

private theorem freeClusterFound_spec {markReserved : Bool} (hfree : clusterOf (v.fat c) = 0) :
    Triple (At (· = v)) (freeClusterFound d.toFatGeometry markReserved c)
      (fun r => At (Reserved d v markReserved r)) (At (· = v)) := by
  have hend : ∀ u, u = (if markReserved then v.setFat c fat32EocMark else v) →
      Triple (At (· = u))
        (do
          Prog.lift (assertThat (2 ≤ c ∧ c < d.entriesPerFat))
          Prog.lift (assertThat (c ≠ fat32Unknown.toNat))
          return c : FatM ℕ)
        (fun r => At (Reserved d v markReserved r)) (At (· = v)) := by
    intro u hu
    refine .bind assert_at fun _ => .bind assert_at fun _ => .ret fun w hw => ?_
    obtain ⟨-, hrange, hw⟩ := hw
    show Reserved d v markReserved c w.volume
    rw [hw, hu]
    have := d.entriesPerFat_eq
    exact .found ⟨hrange.1, by omega⟩ hfree
  unfold freeClusterFound
  refine .ite (fun hmark => ?_) fun hmark => hend v (by rw [if_neg hmark])
  refine .bind (ioDevice_at fun _ => id) fun _ =>
    .bind (setVolume_at (Q := (· = v.setFat c fat32EocMark)) fun u hu => hu ▸ rfl) fun _ => ?_
  exact hend _ (by rw [if_pos hmark])

private theorem firstFreeLoop_spec {markReserved : Bool} {n sector i : ℕ} :
    Triple (At (· = v)) (firstFreeLoop d.toFatGeometry markReserved n sector i)
      (fun r => At (Reserved d v markReserved r)) (At (· = v)) := by
  induction n generalizing sector i with
  | zero => exact .ret fun w hw => hw ▸ .none
  | succ n ih =>
    unfold firstFreeLoop
    refine .bind (ioDevice_at fun _ => id) fun _ => volume_bind fun u hu => ?_
    subst hu
    cases hfound : firstFreeInSector d.toFatGeometry u sector (d.bytesPerSector / 4 - i) i with
    | none => exact ih
    | some j => exact freeClusterFound_spec (firstFreeInSector_free hfound)

theorem firstFreeCluster_spec {firstCheckedCluster : ℕ} {markReserved : Bool} :
    Triple (At (· = v)) (firstFreeCluster d.toFatGeometry firstCheckedCluster markReserved)
      (fun r => At (Reserved d v markReserved r)) (At (· = v)) := by
  unfold firstFreeCluster
  refine .bind (exAllocatePool_at fun _ => id) fun _ => .ite (fun _ => ?_) fun _ => ?_
  · exact .ret fun w hw => hw ▸ .none
  · refine .ite (fun _ => .fail fun _ => id) fun _ => firstFreeLoop_spec

theorem countFreeClusters_spec {n freeCluster : ℕ} {freeCount : DWORD} :
    Triple (At (· = v)) (countFreeClusters d n freeCluster freeCount) (fun _ => At (· = v)) E := by
  induction n generalizing freeCluster freeCount with
  | zero => exact .fault
  | succ n ih =>
    unfold countFreeClusters
    refine .bind (Q := fun _ => At (· = v)) (.attempt ?_) fun r => ?_
    · refine firstFreeCluster_spec.conseq (fun _ => id) (fun r w hw => ?_) fun w hw _ => hw
      cases hw with
      | none => rfl
      | found hc hfree => rfl
    · cases r with
      | error _ => exact .ret fun _ => id
      | ok c =>
        cases c with
        | zero => exact .ret fun _ => id
        | succ c => exact ih

/-- A call to extend a chain at `last` has reserved a cluster and linked it, has reserved it only, or
has found none. -/
inductive Extended (d : FatData) (v : Volume) (last : ℕ) : ℕ → Volume → Prop
  | none {u : Volume} (hdata : u.data = v.data) (hfat : u.fat = v.fat) : Extended d v last 0 u
  | lost {c : ℕ} {u : Volume} (hc : d.IsCluster c) (hfree : clusterOf (v.fat c) = 0)
      (hdata : u.data = v.data) (hfat : u.fat = (v.setFat c fat32EocMark).fat) :
      Extended d v last c u
  | linked {c : ℕ} {u : Volume} (hc : d.IsCluster c) (hfree : clusterOf (v.fat c) = 0)
      (hdata : u.data = v.data)
      (hfat : u.fat = ((v.setFat c fat32EocMark).setFat last (BitVec.ofNat 32 c)).fat) :
      Extended d v last c u

/-- The reserved cluster is linked to the end of the chain. -/
private theorem linkCluster_spec {last r : ℕ} {info : FsInfo} (hc : d.IsCluster r)
    (hfree : clusterOf (v.fat r) = 0) :
    Triple (At (· = (v.setFat r fat32EocMark).setFat last (BitVec.ofNat 32 r)))
      (if info.freeCount = fat32Unknown then do
        let freeCount ← countFreeClusters d (d.countOfClusters + 2) r 0
        pure (r, { info with freeCount := freeCount, nxtFree := BitVec.ofNat 32 r })
      else pure (r, { info with freeCount := info.freeCount - 1, nxtFree := BitVec.ofNat 32 r }) :
        FatM (ℕ × FsInfo))
      (fun r => At (Extended d v last r.1)) E := by
  have hlinked : ∀ w : World, w.volume = (v.setFat r fat32EocMark).setFat last (BitVec.ofNat 32 r) →
      Extended d v last r w.volume := by
    intro w hw
    exact .linked hc hfree (congrArg Volume.data hw :) (congrArg Volume.fat hw :)
  refine .ite (fun _ => ?_) fun _ => .ret hlinked
  exact .bind countFreeClusters_spec fun _ => .ret hlinked

/-- What a search that may fail has done. -/
def Searched (d : FatData) (u : Volume) : Except FatStatus ℕ → Volume → Prop
  | .ok r, u' => Reserved d u true r u'
  | .error _, u' => u' = u

theorem addNewClusterBlock_spec {last : ℕ} :
    Triple (At (· = v)) (addNewClusterBlock d last) (fun r => At (Extended d v last r.1)) E := by
  have hnone : ∀ w : World, w.volume = v → Extended d v last 0 w.volume :=
    fun w hw => .none (congrArg _ hw) (congrArg _ hw)
  unfold addNewClusterBlock
  refine .bind request_at fun _ => .ite (fun _ => .ret hnone) fun _ => ?_
  refine .bind assert_at fun _ => volume_bind fun u hu => ?_
  obtain ⟨-, rfl⟩ := hu
  refine .ite (fun _ => .ret hnone) fun _ => ?_
  refine .bind (Q := fun res => At (Searched d u res)) (.attempt (firstFreeCluster_spec.conseq (fun _ => id) (fun _ _ => id)
      fun w hw _ => hw)) fun res => ?_
  cases res with
  | error _ => exact .ret hnone
  | ok r =>
    cases r with
    | zero =>
      refine .bind assert_at fun _ => .ret fun w hw => hnone w ?_
      obtain ⟨-, hres⟩ := hw
      exact Reserved.eq_of_zero hres
    | succ r =>
      dsimp only
      rw [fatEntry_eq]
      by_cases hres : d.IsCluster (r + 1) ∧ clusterOf (u.fat (r + 1)) = 0
      · obtain ⟨hc, hfree⟩ := hres
        have hlost : ∀ w : World, w.volume = u.setFat (r + 1) fat32EocMark →
            Extended d u last (r + 1) w.volume :=
          fun w hw => .lost hc hfree (congrArg Volume.data hw :) (congrArg Volume.fat hw :)
        refine Triple.pre (P := At (· = u.setFat (r + 1) fat32EocMark)) ?_
          fun w hw => (Reserved.of_succ hw).2.2
        refine .bind request_at fun _ => .ite (fun _ => .ret hlost) fun _ => ?_
        refine .bind request_at fun _ => .ite (fun _ => .ret hlost) fun _ => ?_
        refine .bind request_at fun _ => .ite (fun _ => .ret hlost) fun _ => ?_
        refine .bind (setVolume_at fun u' hu' => ?_) fun _ => linkCluster_spec hc hfree
        rw [hu']
      · intro w _ _ hw
        exact absurd ⟨(Reserved.of_succ hw).1, (Reserved.of_succ hw).2.1⟩ hres

theorem addNewClusterToChain_spec {last : ℕ} :
    Triple (At (· = v)) (addNewClusterToChain d last) (fun r => At (Extended d v last r))
      (At fun u => ∃ r, Extended d v last r u) := by
  unfold addNewClusterToChain
  refine .bind assert_at fun _ => ?_
  refine .bind request_at fun _ => .ite (fun _ => .fault) fun _ => ?_
  refine .bind (Triple.pre addNewClusterBlock_spec fun w hw => hw.2) fun res => ?_
  obtain ⟨r, info⟩ := res
  refine .bind request_at fun _ => .bind assert_at fun _ => .ite (fun _ => ?_) fun _ => ?_
  · exact .fail fun w hw => ⟨r, hw.2⟩
  · refine .bind (setVolume_at (Q := Extended d v last r) fun u hu => ?_) fun _ => .ret fun _ => id
    cases hu.2 with
    | none hdata hfat => exact .none hdata hfat
    | lost hc hfree hdata hfat => exact .lost hc hfree hdata hfat
    | linked hc hfree hdata hfat => exact .linked hc hfree hdata hfat

section Sectors

variable {s : ℕ}

theorem firstSectorOfCluster_eq (h : d.IsCluster c) :
    firstSectorOfCluster d c = pure (d.sectorOf c) :=
  if_neg fun hnot => hnot.elim (fun hgt => absurd h.2 (by omega)) fun hlt => absurd h.1 (by omega)

theorem firstSectorOfCluster_fail (h : ¬d.IsCluster c) :
    firstSectorOfCluster d c = Prog.fail .deviceClusterInvalid :=
  if_pos (by
    by_contra hnot
    exact h ⟨by omega, by omega⟩)

theorem clusterOfSector_eq (h : d.IsCluster c) (hs : d.InCluster c s) :
    clusterOfSector d s = pure c := by
  have hlt := hs.sector_lt h
  have hle : d.firstDataSector ≤ s := by
    have hge := hs.1
    unfold FatData.sectorOf at hge
    omega
  have hmod : (s + 2 ^ 64 - d.firstDataSector) % 2 ^ 64 = s - d.firstDataSector := by lia
  unfold clusterOfSector
  rw [hmod, hs.div_eq h.1]
  exact if_neg fun hnot => hnot.elim (fun hgt => absurd h.2 (by omega)) fun hlt =>
    absurd h.1 (by omega)

end Sectors

end HAL9000.Fat32
