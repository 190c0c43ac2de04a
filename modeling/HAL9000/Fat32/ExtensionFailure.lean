import HAL9000.Fat32.Runs
import HAL9000.Fat32.FreeClusters
import HAL9000.Fat32.Walks
import HAL9000.Fat32.Requests

/-! What `_AddNewClusterToChain` leaves when it fails. Its cleanup block writes FSInfo on every exit,
returns the status of that write and does not survive its failure. -/
namespace HAL9000.Fat32

open Program

/-- `t` requests have been made; the requests are met or not in the order in which they are made. -/
def World.asked (v : Volume) (met : ℕ → Bool) (t : ℕ) : World := ⟨v, t, fun _ _ n => met n⟩

/-- The cluster that is returned was free and is linked to the end of the chain. -/
def LinkedToChain (d : FatData) (v : Volume) (last : ℕ) (r : Except FatStatus ℕ) (v' : Volume) : Prop :=
  ∃ c, r = .ok c ∧ d.IsCluster c ∧ v.IsFree c ∧
    v'.fat = ((v.setFat c fat32EocMark).setFat last (BitVec.ofNat 32 c)).fat

/-- The signatures of an FSInfo sector. -/
def FsInfo.Valid (i : FsInfo) : Prop := ∃ freeCount nxtFree, i = .signed freeCount nxtFree

/-- An error is returned, and the table and FSInfo are as before, or FSInfo is a valid sector. -/
def Undone (v : Volume) (r : Except FatStatus ℕ) (v' : Volume) : Prop :=
  (∃ e, r = .error e) ∧ v'.fat = v.fat ∧ (v'.fsInfo = v.fsInfo ∨ v'.fsInfo.Valid)

/-- The run returns; if one of its requests was not met or no cluster is linked, it is undone. -/
def ReportsAndUndoes (d : FatData) (v : Volume) (last : ℕ) (met : ℕ → Bool) : Prop :=
  ∃ r v' t, addNewClusterToChain d last (.asked v met 0) = .ok (r, .asked v' met t) ∧
    (¬((∀ n < t, met n = true) ∧ LinkedToChain d v last r v') → Undone v r v')

/-- The volume is not full: the search for a free cluster from the hint on gets to one. -/
def HasRoom (d : FatData) (v : Volume) : Prop :=
  v.fsInfo.freeCount ≠ 0 ∧
    ∃ k, FirstFree v v.fsInfo.nxtFree.toNat d.scanEnd k ∧ 2 ≤ k

/-- The number of requests of a run in which all are met. -/
def requestsNeeded (d : FatData) (v : Volume) (last : ℕ) : ℕ :=
  match addNewClusterToChain d last (.asked v (fun _ => true) 0) with
  | .ok (_, w) => w.clock
  | .error _ => 0

/-! ### Requests -/

section Local

variable (g : FatGeometry) (d : FatData)

theorem local_freeClusterFound (markReserved : Bool) (c : ℕ) :
    Local (freeClusterFound g markReserved c) := by
  have hend : Local (do
      Prog.lift (assertThat (2 ≤ c ∧ c < g.entriesPerFat))
      Prog.lift (assertThat (c ≠ fat32Unknown.toNat))
      return c : FatM ℕ) := .bind (.lift _) fun _ => .bind (.lift _) fun _ => .ret _
  unfold freeClusterFound
  exact .ite (.bind (.ioDevice _ _) fun _ => .bind (.setVolume _) fun _ => hend) hend

theorem local_firstFreeLoop (markReserved : Bool) (n sector i : ℕ) :
    Local (firstFreeLoop g markReserved n sector i) := by
  induction n generalizing sector i with
  | zero => exact .ret _
  | succ n ih =>
    unfold firstFreeLoop
    refine .bind (.ioDevice _ _) fun _ => .bind .volume fun v => ?_
    cases firstFreeInSector g v sector (g.bytesPerSector / 4 - i) i with
    | none => exact ih _ _
    | some j => exact local_freeClusterFound g markReserved _

theorem local_firstFreeCluster (hint : ℕ) (markReserved : Bool) :
    Local (firstFreeCluster g hint markReserved) := by
  unfold firstFreeCluster
  exact .bind (.exAllocatePool _) fun _ => .ite (.ret _)
    (.ite (.fail _) (local_firstFreeLoop g markReserved _ _ _))

theorem local_countFreeClusters (n freeCluster : ℕ) (freeCount : DWORD) :
    Local (countFreeClusters d n freeCluster freeCount) := by
  induction n generalizing freeCluster freeCount with
  | zero => exact .fault _
  | succ n ih =>
    unfold countFreeClusters
    refine .bind (.attempt (local_firstFreeCluster _ _ _)) fun r => ?_
    cases r with
    | error _ => exact .ret _
    | ok c =>
      cases c with
      | zero => exact .ret _
      | succ c => exact ih _ _

theorem local_addNewClusterBlock (last : ℕ) : Local (addNewClusterBlock d last) := by
  unfold addNewClusterBlock
  refine .bind (.request _ _) fun _ => .ite (.ret _) (.bind (.lift _) fun _ => .bind .volume fun v =>
    .ite (.ret _) (.bind (.attempt (local_firstFreeCluster _ _ _)) fun r => ?_))
  cases r with
  | error _ => exact .ret _
  | ok c =>
    cases c with
    | zero => exact .bind (.lift _) fun _ => .ret _
    | succ c =>
      refine .bind (.request _ _) fun _ => .ite (.ret _) (.bind (.request _ _) fun _ => .ite (.ret _)
        (.bind (.request _ _) fun _ => .ite (.ret _) (.bind (.setVolume _) fun _ => ?_)))
      exact .ite (.bind (local_countFreeClusters d _ _ _) fun _ => .ret _) (.ret _)

theorem local_addNewClusterToChain (last : ℕ) : Local (addNewClusterToChain d last) := by
  unfold addNewClusterToChain
  refine .bind (.lift _) fun _ => .bind (.request _ _) fun _ => .ite (.bind (.fault _) fun _ => ?_) ?_
  all_goals
    refine .bind (local_addNewClusterBlock d last) fun res => ?_
    obtain ⟨c, info⟩ := res
    exact .bind (.request _ _) fun _ => .bind (.lift _) fun _ => .ite (.fail _)
      (.bind (.setVolume _) fun _ => .ret _)

end Local

section Asked

variable {α : Type} {x : FatM α} {v : Volume} {met : ℕ → Bool} {t : ℕ} {r : Except FatStatus α}
  {w : World}

/-- What a run of a program depends on. -/
theorem Local.asked (hx : Local x) (h : x (.asked v met t) = .ok (r, w)) :
    ∃ t', t ≤ t' ∧ w = .asked w.volume met t' ∧ ∀ met', (∀ n, t ≤ n → n < t' → met' n = met n) →
      x (.asked v met' t) = .ok (r, .asked w.volume met' t') := by
  obtain ⟨k, hw, hsame⟩ := hx v t _ r w h
  refine ⟨t + k, Nat.le_add_right _ _, hw, fun met' hmet => ?_⟩
  exact hsame t _ fun _ _ u hu => hmet (t + u) (Nat.le_add_right _ _) (by omega)

theorem request_bind_asked {resource : Resource} {site : Site} {f : Bool → FatM α} :
    (request resource site >>= f) (.asked v met t) = f (met t) (.asked v met (t + 1)) := rfl

theorem volume_bind_asked {f : Volume → FatM α} : (volume >>= f) (.asked v met t) = f v (.asked v met t) :=
  rfl

theorem setVolume_bind_asked {g : Volume → Volume} {f : Unit → FatM α} :
    (setVolume g >>= f) (.asked v met t) = f () (.asked (g v) met t) := rfl

theorem attempt_bind {β : Type} {f : Except FatStatus α → FatM β} {s : World} (h : x s = .ok (r, w)) :
    (x.attempt >>= f) s = f r w :=
  Prog.bind_of_ok (Prog.attempt_eq_ok.mpr ⟨r, rfl, h⟩)

end Asked

/-! ### The guarded block -/

section Block

variable {d : FatData} {v u : Volume} {met : ℕ → Bool} {t last c : ℕ} {info : FsInfo} {w : World}

/-- The search for a free cluster, from the hint of FSInfo on. -/
def searchHint (d : FatData) (v : Volume) (met : ℕ → Bool) : Except Fault (Except FatStatus ℕ × World) :=
  firstFreeCluster d.toFatGeometry v.fsInfo.nxtFree.toNat true (.asked v met 2)

theorem searchHint_cases {r : Except FatStatus ℕ} (h : searchHint d v met = .ok (r, w)) :
    ∃ t, w = .asked w.volume met t ∧ match r with
      | .ok 0 => w.volume = v
      | .ok c => d.IsCluster c ∧ v.IsFree c ∧ w.volume = v.setFat c fat32EocMark
      | .error _ => w.volume = v := by
  obtain ⟨t, -, hw, -⟩ := (local_firstFreeCluster d.toFatGeometry _ true).asked h
  have hspec := firstFreeCluster_spec (d := d) (v := v) (.asked v met 2) r w rfl h
  refine ⟨t, hw, ?_⟩
  cases r with
  | error e => exact hspec
  | ok c =>
    cases c with
    | zero => exact Reserved.eq_of_zero hspec
    | succ c => exact Reserved.of_succ hspec

variable (hsector : 512 = d.bytesPerSector)

include hsector

theorem addNewClusterBlock_cases
    (h : addNewClusterBlock d last (.asked v met 1) = .ok (.ok (c, info), w)) :
    c = 0 ∨ v.fsInfo.freeCount ≠ 0 ∧ d.IsCluster c ∧ ∃ w, searchHint d v met = .ok (.ok c, w) := by
  unfold addNewClusterBlock at h
  rw [request_bind_asked] at h
  by_cases hread : met 1 = true
  swap
  · rw [if_pos hread] at h
    cases h
    exact Or.inl rfl
  rw [if_neg (not_not.mpr hread), assertThat_of hsector, Prog.lift_ok_bind, volume_bind_asked] at h
  by_cases hcount : v.fsInfo.freeCount = 0
  · rw [if_pos hcount] at h
    cases h
    exact Or.inl rfl
  rw [if_neg hcount] at h
  rcases Prog.bind_returns h with ⟨e, hres, -⟩ | ⟨r, w₁, hattempt, hrest⟩
  · cases hres
  obtain ⟨r', heq, hsearch⟩ := Prog.attempt_eq_ok.mp hattempt
  obtain rfl := Except.ok.inj heq
  obtain ⟨t, hw₁, hr⟩ := searchHint_cases hsearch
  cases r with
  | error e =>
    cases hrest
    exact Or.inl rfl
  | ok reserved =>
    cases reserved with
    | zero =>
      dsimp only at hrest
      by_cases hunknown : fat32Unknown = v.fsInfo.freeCount
      · rw [hw₁, assertThat_of hunknown, Prog.lift_ok_bind] at hrest
        cases hrest
        exact Or.inl rfl
      · rw [hw₁, assertThat_of_not hunknown] at hrest
        cases hrest
    | succ reserved =>
      have hc : c = reserved + 1 := by
        have hany : ∀ {α : Type} (x : FatM α), Triple (fun _ => True) x (fun _ _ => True) fun _ => True := by
          intro α x s r s' _ _
          cases r <;> trivial
        refine (?_ : Triple (fun _ => True) _ (fun res _ => res.1 = reserved + 1) fun _ => True) w₁ _ w trivial
          hrest
        refine .bind (hany _) fun _ => .ite (fun _ => .ret fun _ _ => rfl) fun _ => .bind (hany _) fun _ =>
          .ite (fun _ => .ret fun _ _ => rfl) fun _ => .bind (hany _) fun _ =>
            .ite (fun _ => .ret fun _ _ => rfl) fun _ => .bind (hany _) fun _ => ?_
        exact .ite (fun _ => .bind (hany _) fun _ => .ret fun _ _ => rfl) fun _ => .ret fun _ _ => rfl
      rw [hc]
      exact Or.inr ⟨hcount, hr.1, w₁, hsearch⟩

/-- Behind the block only the write of FSInfo is left. If it fails, an assertion does. -/
theorem addNewClusterToChain_of_block (hlast : fat32Eoc last = false) (hmem : met 0 = true)
    (hblock : addNewClusterBlock d last (.asked v met 1) = .ok (.ok (c, info), .asked u met t)) :
    addNewClusterToChain d last (.asked v met 0) =
      if met t then .ok (.ok c, .asked { u with fsInfo := info } met (t + 1))
      else .error .assertFailed := by
  unfold addNewClusterToChain
  rw [assertThat_of (by simp [hlast]), Prog.lift_ok_bind, request_bind_asked, if_neg (by simp [hmem])]
  dsimp only
  rw [Prog.bind_of_ok (show addNewClusterBlock d last (.asked v met (0 + 1)) = _ from hblock)]
  dsimp only
  rw [request_bind_asked]
  by_cases hwritten : met t = true
  · rw [if_pos hwritten, if_pos hwritten, assertThat_of hsector, Prog.lift_ok_bind,
      if_neg (not_not.mpr hwritten)]
    rfl
  · have hzero : 0 ≠ d.bytesPerSector := fun h => absurd (h.trans hsector.symm) (by decide)
    rw [if_neg hwritten, if_neg hwritten, assertThat_of_not hzero]
    rfl

omit hsector in
/-- A run that returns has come out of the block and has written FSInfo. -/
theorem block_of_addNewClusterToChain {r : Except FatStatus ℕ}
    (h : addNewClusterToChain d last (.asked v met 0) = .ok (r, w)) :
    512 = d.bytesPerSector ∧ met 0 = true ∧ ∃ c info u t, met t = true ∧
      addNewClusterBlock d last (.asked v met 1) = .ok (.ok (c, info), .asked u met t) := by
  unfold addNewClusterToChain at h
  by_cases hlast : ¬fat32Eoc last = true
  swap
  · rw [assertThat_of_not hlast] at h
    cases h
  rw [assertThat_of hlast, Prog.lift_ok_bind, request_bind_asked] at h
  by_cases hmem : met 0 = true
  swap
  · rw [if_pos hmem] at h
    cases h
  rw [if_neg (not_not.mpr hmem)] at h
  rcases Prog.bind_returns h with ⟨e, -, hblock⟩ | ⟨res, w₁, hblock, hrest⟩
  · exact (addNewClusterBlock_spec (E := fun _ => False) (.asked v met 1) _ w rfl hblock).elim
  · obtain ⟨c, info⟩ := res
    obtain ⟨t, -, hw₁, -⟩ := (local_addNewClusterBlock d last).asked hblock
    rw [hw₁] at hblock hrest
    dsimp only at hrest
    rw [request_bind_asked] at hrest
    have hlarge := d.bytesPerSector_ge
    by_cases hwritten : met t = true
    · rw [if_pos hwritten] at hrest
      by_cases hsector : 512 = d.bytesPerSector
      · exact ⟨hsector, hmem, c, info, w₁.volume, t, hwritten, hblock⟩
      · rw [assertThat_of_not hsector] at hrest
        cases hrest
    · rw [if_neg hwritten, assertThat_of_not (show ¬0 = d.bytesPerSector by omega)] at hrest
      cases hrest

end Block

/-! ### Runs in which all requests are met -/

section AllMet

variable {d : FatData} {v : Volume} {last c t : ℕ} {w : World}

def allMet : ℕ → Bool := fun _ => true

theorem ioSucceeds_allMet : (World.asked v allMet t).IoSucceeds := fun _ _ => ⟨rfl, rfl⟩

theorem four_dvd_bytesPerSector (d : FatData) : 4 ∣ d.bytesPerSector :=
  Dvd.dvd.trans (by decide) d.bytesPerSector_dvd

theorem firstFreeCluster_allMet {hint : ℕ} {markReserved : Bool} :
    (∃ k, FirstFree v hint d.scanEnd k ∧
      ((k < 2 → firstFreeCluster d.toFatGeometry hint markReserved (.asked v allMet t) =
          .error .assertFailed) ∧
        (2 ≤ k → ∃ w, firstFreeCluster d.toFatGeometry hint markReserved (.asked v allMet t) =
          .ok (.ok k, w)))) ∨
    (NoneFree v hint d.scanEnd ∧ ∃ r w, r.toOption.getD 0 = 0 ∧
      firstFreeCluster d.toFatGeometry hint markReserved (.asked v allMet t) = .ok (r, w)) := by
  have hpos : 0 < d.bytesPerSector := Nat.lt_of_lt_of_le (by decide) d.bytesPerSector_ge
  have hdvd := four_dvd_bytesPerSector d
  rcases @firstFreeCluster_run d.toFatGeometry (.asked v allMet t) hint markReserved hpos hdvd
    ioSucceeds_allMet rfl with ⟨k, w', hk, hsame, hrun⟩ | ⟨hnone, r, w', hr, -, hrun⟩
  · have hlt := hk.lt.trans_le (scanEnd_le hdvd)
    obtain ⟨hlow, hhigh⟩ := @freeClusterFound_run d.toFatGeometry w' markReserved k
      (hsame.io ioSucceeds_allMet) hlt
    refine Or.inl ⟨k, hk, fun h => hrun.trans (hlow h), fun h => ?_⟩
    obtain ⟨w'', hfound, -⟩ := hhigh h
    exact ⟨w'', hrun.trans hfound⟩
  · exact Or.inr ⟨hnone, r, w', hr, hrun⟩

/-- The count gets to the end of the table. -/
theorem countFreeClusters_allMet (n : ℕ) (hc : 1 ≤ c) (hlt : c < d.entriesPerFat)
    (hn : d.entriesPerFat ≤ n + c) (freeCount : DWORD) : ∃ count t',
      countFreeClusters d n c freeCount (.asked v allMet t) = .ok (.ok count, .asked v allMet t') := by
  induction n generalizing c t freeCount with
  | zero => omega
  | succ n ih =>
    have hkeep : ∀ {r : Except FatStatus ℕ} {w : World},
        firstFreeCluster d.toFatGeometry (c + 1) false (.asked v allMet t) = .ok (r, w) →
          ∃ t', w = .asked v allMet t' := by
      intro r w hrun
      obtain ⟨t', -, hw, -⟩ := (local_firstFreeCluster d.toFatGeometry (c + 1) false).asked hrun
      have hspec := firstFreeCluster_spec (d := d) (v := v) (.asked v allMet t) r w rfl hrun
      have hv : w.volume = v := by
        cases r with
        | error e => exact hspec
        | ok k =>
          cases hspec with
          | none => rfl
          | found _ _ => rfl
      exact ⟨t', by rw [hw, hv]⟩
    unfold countFreeClusters
    rcases @firstFreeCluster_allMet d v t (c + 1) false with ⟨k, hk, -, hrun⟩ | ⟨-, r, w, hr, hrun⟩
    · obtain ⟨w, hrun⟩ := hrun (by have hge := hk.ge; omega)
      obtain ⟨t', rfl⟩ := hkeep hrun
      have hge := hk.ge
      have hend := hk.lt.trans_le (scanEnd_le (four_dvd_bytesPerSector d))
      rw [attempt_bind hrun]
      cases k with
      | zero => omega
      | succ k => exact ih (by omega) hend (by omega) _
    · obtain ⟨t', rfl⟩ := hkeep hrun
      rw [attempt_bind hrun]
      cases r with
      | error e => exact ⟨_, t', rfl⟩
      | ok k =>
        obtain rfl : k = 0 := hr
        exact ⟨_, t', rfl⟩

theorem FirstFree.unique {a b k k' : ℕ} (h : FirstFree v a b k) (h' : FirstFree v a b k') : k = k' := by
  rcases Nat.lt_trichotomy k k' with hlt | heq | hlt
  · exact absurd h.free (h'.first k h.ge hlt)
  · exact heq
  · exact absurd h'.free (h.first k' h'.ge hlt)

theorem searchHint_of_hasRoom (h : HasRoom d v) : ∃ c t, d.IsCluster c ∧ v.IsFree c ∧
    searchHint d v allMet = .ok (.ok c, .asked (v.setFat c fat32EocMark) allMet t) := by
  obtain ⟨-, k, hk, htwo⟩ := h
  rcases @firstFreeCluster_allMet d v 2 v.fsInfo.nxtFree.toNat true with
    ⟨k', hk', -, hrun⟩ | ⟨hnone, -⟩
  · obtain rfl := hk.unique hk'
    obtain ⟨w, hrun⟩ := hrun htwo
    obtain ⟨t, hw, hcases⟩ := searchHint_cases hrun
    cases k with
    | zero => omega
    | succ k =>
      obtain ⟨hcluster, hfree, hv⟩ := hcases
      exact ⟨k + 1, t, hcluster, hfree, hrun.trans (by rw [hw, hv])⟩
  · exact absurd hk.free (hnone k hk.ge hk.lt)

theorem hasRoom_of_search (hcount : v.fsInfo.freeCount ≠ 0) (hc : d.IsCluster c)
    (h : searchHint d v allMet = .ok (.ok c, w)) : HasRoom d v := by
  rcases @firstFreeCluster_allMet d v 2 v.fsInfo.nxtFree.toNat true with
    ⟨k, hk, hlow, -⟩ | ⟨-, r, w', hr, hrun⟩
  · refine ⟨hcount, k, hk, ?_⟩
    by_contra hlt
    have hfault := (hlow (by omega)).symm.trans h
    cases hfault
  · obtain ⟨hr', -⟩ := Prod.mk.inj (Except.ok.inj (hrun.symm.trans h))
    rw [hr'] at hr
    have hzero : c = 0 := hr
    exact absurd hc.1 (by omega)

theorem not_eoc_of_isCluster (hlast : d.IsCluster last) : fat32Eoc last = false := by
  have hcount := d.countOfClusters_lt
  have hle := hlast.2
  have hlt : ¬fat32BadCluster < last := by
    unfold fat32BadCluster
    omega
  simpa [fat32Eoc] using hlt

/-- If there is room and every request is met, a free cluster is linked. -/
theorem addNewClusterToChain_allMet (hsector : 512 = d.bytesPerSector) (hlast : d.IsCluster last)
    (h : HasRoom d v) : ∃ c v' t, addNewClusterToChain d last (.asked v allMet 0) =
      .ok (.ok c, .asked v' allMet t) ∧ LinkedToChain d v last (.ok c) v' := by
  obtain ⟨c, t, hc, hfree, hsearch⟩ := searchHint_of_hasRoom h
  have heoc := not_eoc_of_isCluster hlast
  have hentry : d.fatEntry (d.reservedSectors + last * 4 / d.bytesPerSector)
      (last % (d.bytesPerSector / 4)) = last := fatEntry_eq d last
  have hblock : ∃ info t', addNewClusterBlock d last (.asked v allMet 1) = .ok (.ok (c, info),
      .asked ((v.setFat c fat32EocMark).setFat last (BitVec.ofNat 32 c)) allMet t') := by
    unfold addNewClusterBlock
    rw [request_bind_asked, if_neg (by simp [allMet]), assertThat_of hsector, Prog.lift_ok_bind,
      volume_bind_asked, if_neg h.1, attempt_bind hsearch]
    cases c with
    | zero => exact absurd hc.1 (by omega)
    | succ c =>
      change ∃ info t', (request .memory .linkCluster >>= _) (World.asked _ allMet t) = _
      dsimp only
      rw [hentry, request_bind_asked, if_neg (by simp [allMet]), request_bind_asked,
        if_neg (by simp [allMet]), request_bind_asked, if_neg (by simp [allMet]), setVolume_bind_asked]
      by_cases hunknown : v.fsInfo.freeCount = fat32Unknown
      · rw [if_pos hunknown]
        have hend := d.entriesPerFat_eq
        have hle := hc.2
        obtain ⟨count, t', hcount⟩ := @countFreeClusters_allMet d
          ((v.setFat (c + 1) fat32EocMark).setFat last (BitVec.ofNat 32 (c + 1))) (c + 1)
          (t + 1 + 1 + 1) (d.countOfClusters + 2) (by omega) (by omega) (by omega) 0
        rw [Prog.bind_of_ok hcount]
        exact ⟨_, t', rfl⟩
      · rw [if_neg hunknown]
        exact ⟨_, _, rfl⟩
  obtain ⟨info, t', hblock⟩ := hblock
  exact ⟨c, _, _, (addNewClusterToChain_of_block hsector heoc rfl hblock).trans (if_pos rfl), c, rfl, hc, hfree,
    rfl⟩

end AllMet

section Main

variable {d : FatData} {v : Volume} {met : ℕ → Bool} {last c t : ℕ} {info : FsInfo}

theorem not_linked_zero {v' : Volume} : ¬LinkedToChain d v last (.ok 0) v' := by
  rintro ⟨c, hc, hcluster, -⟩
  obtain rfl := Except.ok.inj hc
  exact absurd hcluster.1 (by decide)

theorem requestsNeeded_of_run {r : Except FatStatus ℕ} {v' : Volume}
    (h : addNewClusterToChain d last (.asked v allMet 0) = .ok (r, .asked v' allMet t)) :
    requestsNeeded d v last = t := by
  have h' : addNewClusterToChain d last (.asked v (fun _ => true) 0) = _ := h
  unfold requestsNeeded
  rw [h']
  rfl

/-- A run in which every request is met and a cluster is linked has found room. -/
theorem hasRoom_of_run {r : Except FatStatus ℕ} {v' : Volume}
    (h : addNewClusterToChain d last (.asked v met 0) = .ok (r, .asked v' met t))
    (hlast : fat32Eoc last = false) (hmet : ∀ n < t, met n = true) (hlinked : LinkedToChain d v last r v') :
    HasRoom d v ∧ ∀ n < requestsNeeded d v last, met n = true := by
  obtain ⟨t', -, hw, hlocal⟩ := (local_addNewClusterToChain d last).asked h
  obtain rfl : t = t' := congrArg World.clock hw
  have hall := hlocal allMet fun n _ hn => (hmet n hn).symm
  refine ⟨?_, by rwa [requestsNeeded_of_run hall]⟩
  obtain ⟨hsector, -, c, info, u, t₁, -, hblock⟩ := block_of_addNewClusterToChain hall
  rw [addNewClusterToChain_of_block hsector hlast rfl hblock] at hall
  obtain ⟨rfl, -⟩ := Prod.mk.inj (Except.ok.inj hall)
  rcases addNewClusterBlock_cases hsector hblock with rfl | ⟨hcount, hc, w, hsearch⟩
  · exact absurd hlinked not_linked_zero
  · exact hasRoom_of_search hcount hc hsearch

/-- `_AddNewClusterToChain` reports its failures and undoes them exactly if it has none: sectors have 512
bytes, the volume has room and no request fails. -/
theorem reportsAndUndoes_iff (hlast : d.IsCluster last) : ReportsAndUndoes d v last met ↔
    512 = d.bytesPerSector ∧ HasRoom d v ∧ ∀ n < requestsNeeded d v last, met n = true := by
  have heoc := not_eoc_of_isCluster hlast
  constructor
  · rintro ⟨r, v', t', hrun, hundo⟩
    obtain ⟨hsector, hmem, c, info, u, t, hwritten, hblock⟩ := block_of_addNewClusterToChain hrun
    refine ⟨hsector, ?_⟩
    -- whatever happened in the block, the write of FSInfo makes the status a success
    obtain rfl : r = .ok c := by
      rw [addNewClusterToChain_of_block hsector heoc hmem hblock, if_pos hwritten] at hrun
      exact (Prod.mk.inj (Except.ok.inj hrun)).1.symm
    by_cases hgood : (∀ n < t', met n = true) ∧ LinkedToChain d v last (.ok c) v'
    · exact hasRoom_of_run hrun heoc hgood.1 hgood.2
    · obtain ⟨⟨e, he⟩, -⟩ := hundo hgood
      cases he
  · rintro ⟨hsector, hroom, hall⟩
    obtain ⟨c, v', t, hrun, hlinked⟩ := addNewClusterToChain_allMet hsector hlast hroom
    have hneeded := requestsNeeded_of_run hrun
    obtain ⟨t', -, hw, hlocal⟩ := (local_addNewClusterToChain d last).asked hrun
    obtain rfl : t = t' := congrArg World.clock hw
    have hrun' := hlocal met fun n _ hn => hall n (hneeded ▸ hn)
    exact ⟨_, v', t, hrun', fun hnot => absurd ⟨fun n hn => hall n (hneeded ▸ hn), hlinked⟩ hnot⟩

theorem reportsAndUndoes_oneFile : smallDisk.IsCluster 3 ∧ ReportsAndUndoes smallDisk oneFile 3 allMet := by
  have hlast : smallDisk.IsCluster 3 := ⟨by decide, by decide⟩
  have hroom : HasRoom smallDisk oneFile := by
    refine ⟨by decide, 4, ⟨le_refl 4, by decide +kernel, rfl, fun k hk hlt => ?_⟩, by decide⟩
    have hge : 4 ≤ k := hk
    omega
  exact ⟨hlast, (reportsAndUndoes_iff hlast).mpr ⟨rfl, hroom, fun _ _ => rfl⟩⟩

/-- The read of FSInfo fails: the zeroed buffer is written over FSInfo, and success is returned with cluster 0. -/
theorem not_reportsAndUndoes : ¬∀ (d : FatData) (v : Volume) (last : ℕ) (met : ℕ → Bool), d.IsCluster last →
    ReportsAndUndoes d v last met := by
  intro h
  obtain ⟨r, v', t, hrun, hundo⟩ :=
    h smallDisk oneFile 3 (fun n => n != 1) ⟨by decide, by decide⟩
  have hzero : addNewClusterToChain smallDisk 3 (.asked oneFile (fun n => n != 1) 0) =
    .ok (.ok 0, .asked { oneFile with fsInfo := .zero } (fun n => n != 1) 3) := rfl
  obtain ⟨rfl, -⟩ := Prod.mk.inj (Except.ok.inj (hzero.symm.trans hrun))
  obtain ⟨⟨e, he⟩, -⟩ := hundo fun hlinked => not_linked_zero hlinked.2
  cases he

end Main

end HAL9000.Fat32
