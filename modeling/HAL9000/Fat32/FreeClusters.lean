import HAL9000.Fat32.Utils

/-! What `_FirstFreeCluster` finds when the device works. Its loop compares the number of a sector of the
volume with the number of sectors of the table, so that it stops before the end of the table. -/
namespace HAL9000.Fat32

open Program

variable {g : FatGeometry} {v : Volume} {w w' : World}

/-- All accesses to the device succeed. -/
def World.IoSucceeds (w : World) : Prop :=
  ∀ site n, w.outcome .read site n = true ∧ w.outcome .write site n = true

/-- Only the clock is different. -/
def SameVolume (w w' : World) : Prop := w'.volume = w.volume ∧ w'.outcome = w.outcome

/-- The entry of the table is free. -/
def Volume.IsFree (v : Volume) (k : ℕ) : Prop := clusterOf (v.fat k) = 0

instance (v : Volume) (k : ℕ) : Decidable (v.IsFree k) := inferInstanceAs (Decidable (_ = _))

/-- The first free entry from `a` on and before `b`. -/
structure FirstFree (v : Volume) (a b k : ℕ) : Prop where
  ge : a ≤ k
  lt : k < b
  free : v.IsFree k
  first : ∀ j, a ≤ j → j < k → ¬ v.IsFree j

/-- There is no free entry from `a` on and before `b`. -/
def NoneFree (v : Volume) (a b : ℕ) : Prop := ∀ j, a ≤ j → j < b → ¬ v.IsFree j

/-- The entries before this one are in the sectors that the loop can get to. -/
def FatGeometry.scanEnd (g : FatGeometry) : ℕ :=
  (g.sectorsPerFat - g.reservedSectors) * (g.bytesPerSector / 4)

section Scan

theorem NoneFree.append {a b c : ℕ} (h : NoneFree v a b) (h' : NoneFree v b c) : NoneFree v a c := by
  intro j hj hjc
  by_cases hb : j < b
  · exact h j hj hb
  · exact h' j (Nat.le_of_not_lt hb) hjc

theorem FirstFree.append {a b c k : ℕ} (h : NoneFree v a b) (h' : FirstFree v b c k) (hab : a ≤ b) :
    FirstFree v a c k := by
  refine ⟨hab.trans h'.ge, h'.lt, h'.free, fun j hj hjk => ?_⟩
  by_cases hb : j < b
  · exact h j hj hb
  · exact h'.first j (Nat.le_of_not_lt hb) hjk

theorem FirstFree.mono {a b c k : ℕ} (h : FirstFree v a b k) (hbc : b ≤ c) : FirstFree v a c k :=
  ⟨h.ge, h.lt.trans_le hbc, h.free, h.first⟩

theorem fatEntry_add (g : FatGeometry) (sector i : ℕ) :
    g.fatEntry sector (i + 1) = g.fatEntry sector i + 1 := rfl

/-- The scan of the entries of one sector. -/
theorem firstFreeInSector_spec (n i sector : ℕ) :
    match firstFreeInSector g v sector n i with
    | none => NoneFree v (g.fatEntry sector i) (g.fatEntry sector i + n)
    | some j => FirstFree v (g.fatEntry sector i) (g.fatEntry sector i + n) (g.fatEntry sector j) := by
  induction n generalizing i with
  | zero => exact fun j hj hlt => absurd hlt (by omega)
  | succ n ih =>
    unfold firstFreeInSector
    by_cases hfree : clusterOf (v.fat (g.fatEntry sector i)) = 0
    · rw [if_pos hfree]
      exact ⟨le_rfl, by omega, hfree, fun j hj hlt => absurd hlt (by omega)⟩
    · rw [if_neg hfree]
      have hone : NoneFree v (g.fatEntry sector i) (g.fatEntry sector i + 1) := by
        intro j hj hlt
        obtain rfl : j = g.fatEntry sector i := by omega
        exact hfree
      have hrest := ih (i + 1)
      rw [fatEntry_add] at hrest
      cases hfound : firstFreeInSector g v sector n (i + 1) with
      | none =>
        rw [hfound] at hrest
        have := hone.append hrest
        rwa [Nat.add_assoc, Nat.add_comm 1 n] at this
      | some j =>
        rw [hfound] at hrest
        have := FirstFree.append hone hrest (by omega)
        rwa [Nat.add_assoc, Nat.add_comm 1 n] at this

end Scan

section Runs

variable {markReserved : Bool}

theorem SameVolume.io (h : SameVolume w w') (hio : w.IoSucceeds) : w'.IoSucceeds := by
  unfold World.IoSucceeds
  rw [h.2]
  exact hio

theorem SameVolume.trans {w'' : World} (h : SameVolume w w') (h' : SameVolume w' w'') :
    SameVolume w w'' := ⟨h'.1.trans h.1, h'.2.trans h.2⟩

theorem ioDevice_of {access : Resource} {site : Site} (h : w.outcome access site w.clock = true) :
    ioDevice access site w = .ok (.ok (), { w with clock := w.clock + 1 }) := by
  have hrequest : request access site w = .ok (.ok true, { w with clock := w.clock + 1 }) := by
    unfold request
    rw [h]
  unfold ioDevice
  rw [Prog.bind_of_ok hrequest]
  rfl

theorem volume_run {α : Type} (f : Volume → FatM α) : (volume >>= f) w = f w.volume w := rfl

/-- The sectors of the table follow each other. -/
theorem fatEntry_next {sector i : ℕ} (hi : i ≤ g.bytesPerSector / 4)
    (hsector : g.reservedSectors ≤ sector) :
    g.fatEntry sector i + (g.bytesPerSector / 4 - i) = g.fatEntry (sector + 1) 0 := by
  unfold FatGeometry.fatEntry
  rw [Nat.sub_add_comm hsector, Nat.add_mul, Nat.one_mul]
  omega

/-- The loop gets to the first free entry of the sectors that remain. -/
theorem firstFreeLoop_run (n sector i : ℕ) (hio : w.IoSucceeds) (hi : i ≤ g.bytesPerSector / 4)
    (hsector : g.reservedSectors ≤ sector) :
    (∃ k w', FirstFree w.volume (g.fatEntry sector i) (g.fatEntry (sector + n) 0) k ∧
      SameVolume w w' ∧ firstFreeLoop g markReserved n sector i w = freeClusterFound g markReserved k w') ∨
    (NoneFree w.volume (g.fatEntry sector i) (g.fatEntry (sector + n) 0) ∧
      ∃ w', SameVolume w w' ∧ firstFreeLoop g markReserved n sector i w = .ok (.ok 0, w')) := by
  induction n generalizing sector i w with
  | zero =>
    refine Or.inr ⟨fun j hj hlt => ?_, w, ⟨rfl, rfl⟩, rfl⟩
    have hle : g.fatEntry sector 0 ≤ g.fatEntry sector i := Nat.add_le_add_left (Nat.zero_le i) _
    rw [Nat.add_zero] at hlt
    omega
  | succ n ih =>
    have hread := ioDevice_of (hio .firstFreeCluster w.clock).1
    let w₁ : World := { w with clock := w.clock + 1 }
    have hw₁ : SameVolume w w₁ := ⟨rfl, rfl⟩
    have hscan := @firstFreeInSector_spec g w.volume (g.bytesPerSector / 4 - i) i sector
    rw [fatEntry_next hi hsector] at hscan
    have hrest := @ih w₁ (sector + 1) 0 (hw₁.io hio) (Nat.zero_le _) (Nat.le_succ_of_le hsector)
    rw [Nat.add_right_comm, Nat.add_assoc] at hrest
    have hmono : ∀ m, g.fatEntry (sector + 1) 0 ≤ g.fatEntry (sector + (m + 1)) 0 := by
      intro m
      unfold FatGeometry.fatEntry
      exact Nat.add_le_add_right (Nat.mul_le_mul_right _ (by omega)) 0
    unfold firstFreeLoop
    rw [Prog.bind_of_ok hread, volume_run]
    cases hfound : firstFreeInSector g w.volume sector (g.bytesPerSector / 4 - i) i with
    | some j =>
      rw [hfound] at hscan
      exact Or.inl ⟨_, w₁, hscan.mono (hmono n), hw₁, rfl⟩
    | none =>
      rw [hfound] at hscan
      have hle : g.fatEntry sector i ≤ g.fatEntry (sector + 1) 0 := by
        rw [← fatEntry_next hi hsector]
        exact Nat.le_add_right _ _
      rcases hrest with ⟨k, w', hfirst, hsame, hrun⟩ | ⟨hnone, w', hsame, hrun⟩
      · exact Or.inl ⟨k, w', FirstFree.append hscan hfirst hle, hw₁.trans hsame, hrun⟩
      · exact Or.inr ⟨hscan.append hnone, w', hw₁.trans hsame, hrun⟩

/-- What is done with a free entry: the entries 0 and 1 belong to no cluster. -/
theorem freeClusterFound_run {k : ℕ} (hio : w.IoSucceeds) (hk : k < g.entriesPerFat) :
    (k < 2 → freeClusterFound g markReserved k w = .error .assertFailed) ∧
      (2 ≤ k → ∃ w', freeClusterFound g markReserved k w = .ok (.ok k, w') ∧
        w'.volume = if markReserved then w.volume.setFat k fat32EocMark else w.volume) := by
  have hend : ∀ w₁ : World,
      (k < 2 → (do
        Prog.lift (assertThat (2 ≤ k ∧ k < g.entriesPerFat))
        Prog.lift (assertThat (k ≠ fat32Unknown.toNat))
        return k : FatM ℕ) w₁ = .error .assertFailed) ∧
      (2 ≤ k → (do
        Prog.lift (assertThat (2 ≤ k ∧ k < g.entriesPerFat))
        Prog.lift (assertThat (k ≠ fat32Unknown.toNat))
        return k : FatM ℕ) w₁ = .ok (.ok k, w₁)) := by
    intro w₁
    constructor
    · intro hlt
      rw [assertThat_of_not fun h => absurd h.1 (by omega), Prog.lift_error_bind]
      rfl
    · intro hge
      have hunknown : k ≠ fat32Unknown.toNat := by
        have hlt : g.entriesPerFat < 2 ^ 32 := Nat.mod_lt _ (by decide)
        have hvalue : fat32Unknown.toNat = 2 ^ 32 - 1 := by decide
        omega
      rw [assertThat_of ⟨hge, hk⟩, Prog.lift_ok_bind, assertThat_of hunknown, Prog.lift_ok_bind]
      rfl
  cases markReserved with
  | false => exact ⟨(hend w).1, fun hge => ⟨w, (hend w).2 hge, rfl⟩⟩
  | true =>
    have hwrite := ioDevice_of (hio .firstFreeCluster w.clock).2
    unfold freeClusterFound
    rw [if_pos rfl, Prog.bind_of_ok hwrite]
    exact ⟨(hend _).1, fun hge => ⟨_, (hend _).2 hge, rfl⟩⟩

end Runs

section Search

variable (g : FatGeometry) (w : World) (hint : ℕ) (markReserved : Bool)

/-- The first cluster that may be returned; a search without a hint starts with cluster 2. -/
def searchStart (hint : ℕ) : ℕ := if hint = fat32Unknown.toNat then 2 else hint

/-- There is a free cluster at the hint or after it. -/
def HasFreeCluster : Prop :=
  ∃ k, searchStart hint ≤ k ∧ 2 ≤ k ∧ k ≤ g.countOfClusters + 1 ∧ w.volume.IsFree k

/-- The search meets no failing `ASSERT`; a cluster that it returns is free and is the only one that
changes, and if there is a free cluster it returns one. The cluster is 0 if there is an error. -/
def FindsFree : Prop :=
  ∃ r w', firstFreeCluster g hint markReserved w = .ok (r, w') ∧
    (r.toOption.getD 0 = 0 → w'.volume = w.volume) ∧
    (r.toOption.getD 0 ≠ 0 → 2 ≤ r.toOption.getD 0 ∧ r.toOption.getD 0 ≤ g.countOfClusters + 1 ∧
      w.volume.IsFree (r.toOption.getD 0) ∧
      w'.volume = if markReserved then w.volume.setFat (r.toOption.getD 0) fat32EocMark
        else w.volume) ∧
    (HasFreeCluster g w hint → r.toOption.getD 0 ≠ 0)

/-- Neither of the first two entries is taken for a free cluster, and if there is a free cluster, there is
memory for a sector and one of the free clusters is in the sectors that the loop can get to. -/
def SearchReaches : Prop :=
  (w.outcome .memory .firstFreeCluster w.clock = true →
    ∀ k < 2, hint ≤ k → k < g.scanEnd → ¬ w.volume.IsFree k) ∧
  (HasFreeCluster g w hint → w.outcome .memory .firstFreeCluster w.clock = true ∧
    ∃ k, hint ≤ k ∧ k < g.scanEnd ∧ w.volume.IsFree k)

end Search

section Reaches

variable {hint : ℕ} {markReserved : Bool}

/-- A search that ends without a cluster. -/
private theorem findsFree_iff_of_none {r : Except FatStatus ℕ}
    (hrun : firstFreeCluster g hint markReserved w = .ok (r, w')) (hr : r.toOption.getD 0 = 0)
    (hv : w'.volume = w.volume) :
    FindsFree g w hint markReserved ↔ ¬ HasFreeCluster g w hint := by
  constructor
  · rintro ⟨r', w'', hrun', -, -, hfinds⟩ hhas
    rw [hrun] at hrun'
    cases hrun'
    exact hfinds hhas hr
  · exact fun hnot => ⟨r, w', hrun, fun _ => hv, fun hne => absurd hr hne, fun hhas => absurd hhas hnot⟩

theorem scanEnd_le (hdvd : 4 ∣ g.bytesPerSector) : g.scanEnd ≤ g.entriesPerFat := by
  obtain ⟨e, he⟩ := hdvd
  have hentries : g.bytesPerSector / 4 = e := by lia
  have hsectors : g.sectorsPerFat * e ≤ g.entriesPerFat := by
    unfold FatGeometry.sectorsPerFat
    rw [he, Nat.mul_comm g.entriesPerFat 4, Nat.mul_div_mul_left _ _ (by decide)]
    exact Nat.div_mul_le_self ..
  unfold FatGeometry.scanEnd
  rw [hentries]
  exact (Nat.mul_le_mul_right e (Nat.sub_le ..)).trans hsectors

theorem entriesPerFat_lt : g.entriesPerFat ≤ fat32Unknown.toNat := by
  have hlt : g.entriesPerFat < 2 ^ 32 := Nat.mod_lt _ (by decide)
  have hvalue : fat32Unknown.toNat = 2 ^ 32 - 1 := by decide
  omega

/-- The entries that the search goes through. -/
theorem firstFreeCluster_run (hpos : 0 < g.bytesPerSector) (hdvd : 4 ∣ g.bytesPerSector)
    (hio : w.IoSucceeds) (hmem : w.outcome .memory .firstFreeCluster w.clock = true) :
    (∃ k w', FirstFree w.volume hint g.scanEnd k ∧ SameVolume w w' ∧
      firstFreeCluster g hint markReserved w = freeClusterFound g markReserved k w') ∨
    (NoneFree w.volume hint g.scanEnd ∧ ∃ r w', r.toOption.getD 0 = 0 ∧ w'.volume = w.volume ∧
      firstFreeCluster g hint markReserved w = .ok (r, w')) := by
  let w₁ : World := { w with clock := w.clock + 1 }
  have hw₁ : SameVolume w w₁ := ⟨rfl, rfl⟩
  have halloc : exAllocatePool .firstFreeCluster w = .ok (.ok (), w₁) := by
    have hrequest : request .memory .firstFreeCluster w = .ok (.ok true, w₁) := by
      unfold request
      rw [hmem]
    unfold exAllocatePool
    rw [Prog.bind_of_ok hrequest]
    rfl
  unfold firstFreeCluster
  rw [Prog.bind_of_ok halloc]
  by_cases hend : g.entriesPerFat ≤ hint
  · rw [if_pos hend]
    refine Or.inr ⟨fun j hj hlt => ?_, _, w₁, rfl, rfl, rfl⟩
    have := scanEnd_le hdvd
    omega
  rw [if_neg hend]
  have hunknown : hint ≠ fat32Unknown.toNat := by
    have := @entriesPerFat_lt g
    omega
  rw [if_neg hunknown]
  have hdiv : hint * 4 / g.bytesPerSector = hint / (g.bytesPerSector / 4) := by
    obtain ⟨e, he⟩ := hdvd
    rw [he, Nat.mul_comm hint 4, Nat.mul_div_mul_left _ _ (by decide),
      Nat.mul_div_cancel_left e (by decide)]
  have hentries : 0 < g.bytesPerSector / 4 := by omega
  rw [hdiv]
  by_cases hlast : g.sectorsPerFat ≤ g.reservedSectors + hint / (g.bytesPerSector / 4)
  · rw [if_pos hlast]
    refine Or.inr ⟨fun j hj hlt => ?_, .error .unsuccessful, w₁, rfl, rfl, rfl⟩
    have hscan : g.scanEnd ≤ hint :=
      (Nat.mul_le_mul_right _ (Nat.sub_le_iff_le_add'.mpr hlast)).trans
        (Nat.div_mul_le_self hint (g.bytesPerSector / 4))
    omega
  · rw [if_neg hlast]
    have hfirst : g.fatEntry (g.reservedSectors + hint / (g.bytesPerSector / 4))
        (hint % (g.bytesPerSector / 4)) = hint := by
      rw [FatGeometry.fatEntry, Nat.add_sub_cancel_left]
      exact Nat.div_add_mod' ..
    have hscan : g.fatEntry (g.reservedSectors + hint / (g.bytesPerSector / 4) +
        (g.sectorsPerFat - (g.reservedSectors + hint / (g.bytesPerSector / 4)))) 0 = g.scanEnd := by
      rw [Nat.add_sub_cancel' (Nat.le_of_not_le hlast)]
      rfl
    have hrun := @firstFreeLoop_run g w₁ markReserved
      (g.sectorsPerFat - (g.reservedSectors + hint / (g.bytesPerSector / 4)))
      (g.reservedSectors + hint / (g.bytesPerSector / 4)) (hint % (g.bytesPerSector / 4))
      (hw₁.io hio) (Nat.mod_lt _ hentries).le (Nat.le_add_right ..)
    rw [hfirst, hscan] at hrun
    rcases hrun with ⟨k, w', hk, hsame, hrun⟩ | ⟨hnone, w', hsame, hrun⟩
    · exact Or.inl ⟨k, w', hk, hw₁.trans hsame, hrun⟩
    · exact Or.inr ⟨hnone, _, w', rfl, (hw₁.trans hsame).1, hrun⟩

/-- The search for a free cluster is sound and complete exactly when it reaches the entries that it
needs. -/
theorem findsFree_iff (hpos : 0 < g.bytesPerSector) (hdvd : 4 ∣ g.bytesPerSector)
    (hio : w.IoSucceeds) : FindsFree g w hint markReserved ↔ SearchReaches g w hint := by
  by_cases hmem : w.outcome .memory .firstFreeCluster w.clock = true
  · rcases @firstFreeCluster_run g w hint markReserved hpos hdvd hio hmem with
      ⟨k, w₁, hk, hsame, hrun⟩ | ⟨hnone, r, w', hr, hv, hrun⟩
    · have hlt : k < g.entriesPerFat := hk.lt.trans_le (scanEnd_le hdvd)
      obtain ⟨hlow, hhigh⟩ := @freeClusterFound_run g w₁ markReserved k (hsame.io hio) hlt
      by_cases h2 : k < 2
      · refine iff_of_false ?_ fun hreaches => hreaches.1 hmem k h2 hk.ge hk.lt hk.free
        rintro ⟨r, w', hok, -⟩
        rw [hrun, hlow h2] at hok
        cases hok
      · obtain ⟨w', hok, hv⟩ := hhigh (by omega)
        rw [hsame.1] at hv
        refine iff_of_true ?_ ⟨fun _ j hj hhint hjlt => ?_, fun _ => ⟨hmem, k, hk.ge, hk.lt, hk.free⟩⟩
        · refine ⟨.ok k, w', hrun.trans hok, fun h0 => absurd h0 (show k ≠ 0 by omega), fun _ => ?_,
            fun _ => show k ≠ 0 by omega⟩
          refine ⟨show 2 ≤ k by omega, show k ≤ g.countOfClusters + 1 from ?_, hk.free, hv⟩
          have hle : g.entriesPerFat ≤ g.countOfClusters + 2 := Nat.mod_le ..
          omega
        · exact hk.first j hhint (by omega)
    · rw [findsFree_iff_of_none hrun hr hv]
      constructor
      · exact fun hnot => ⟨fun _ j _ hj hlt => hnone j hj hlt, fun hhas => absurd hhas hnot⟩
      · rintro ⟨-, hreaches⟩ hhas
        obtain ⟨-, k, hge, hlt, hfree⟩ := hreaches hhas
        exact hnone k hge hlt hfree
  · have hrequest : request .memory .firstFreeCluster w =
        .ok (.ok false, { w with clock := w.clock + 1 }) := by
      unfold request
      rw [eq_false_of_ne_true hmem]
    have halloc : exAllocatePool .firstFreeCluster w =
        .ok (.error .heapNoMoreMemory, { w with clock := w.clock + 1 }) := by
      unfold exAllocatePool
      rw [Prog.bind_of_ok hrequest]
      rfl
    have hrun : firstFreeCluster g hint markReserved w =
        .ok (.error .heapNoMoreMemory, { w with clock := w.clock + 1 }) := Prog.bind_of_error halloc
    rw [findsFree_iff_of_none hrun rfl rfl]
    exact ⟨fun hnot => ⟨fun h => absurd h hmem, fun hhas => absurd hhas hnot⟩,
      fun hreaches hhas => hmem (hreaches.2 hhas).1⟩

end Reaches

/-- The smallest FAT32 volume with 32 reserved sectors: the loop stops 30 sectors before the end of the
table. -/
def smallTable : FatGeometry := ⟨65525, 32, 512⟩

/-- A volume without files, of which also the entries 0 and 1 are zero. -/
def emptyTable : World := ⟨⟨fun _ => 0, .zero, fun _ _ => .zero⟩, 0, fun _ _ _ => true⟩

/-- All clusters are free, but none is found without a hint or from cluster 62000 on, and from entry 0 on
an `ASSERT` fails. -/
theorem freeCluster_missed :
    ¬ FindsFree smallTable emptyTable fat32Unknown.toNat true ∧
      ¬ FindsFree smallTable emptyTable 62000 true ∧
      firstFreeCluster smallTable 0 true emptyTable = .error .assertFailed := by
  have hunknown : ∃ w', firstFreeCluster smallTable fat32Unknown.toNat true emptyTable =
      .ok (.ok 0, w') ∧ w'.volume = emptyTable.volume := ⟨_, rfl, rfl⟩
  have hlate : ∃ w', firstFreeCluster smallTable 62000 true emptyTable =
      .ok (.error .unsuccessful, w') ∧ w'.volume = emptyTable.volume := ⟨_, rfl, rfl⟩
  obtain ⟨w₁, hrun₁, hv₁⟩ := hunknown
  obtain ⟨w₂, hrun₂, hv₂⟩ := hlate
  refine ⟨fun h => ?_, fun h => ?_, rfl⟩
  · exact (findsFree_iff_of_none hrun₁ rfl hv₁).mp h ⟨2, by decide, le_rfl, by decide, by decide⟩
  · exact (findsFree_iff_of_none hrun₂ rfl hv₂).mp h
      ⟨62000, by decide, by decide, by decide, by decide⟩

/-- The first cluster is found. -/
theorem firstCluster_found : FindsFree smallTable emptyTable 2 true :=
  (findsFree_iff (by decide) (by decide) fun _ _ => ⟨rfl, rfl⟩).mpr
    ⟨fun _ k hk hge => absurd hge (by omega), fun _ => ⟨rfl, 2, le_rfl, by decide, by decide⟩⟩

end HAL9000.Fat32
