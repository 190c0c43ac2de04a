import HAL9000.Fat32.Extension

/-! `FatWriteFile` changes only the chain of its file, the data of the file and its entry. -/
namespace HAL9000.Fat32

open Program

variable {d : FatData} {v : Volume} {c : ℕ}

/-- The entry of the cluster in the table and its sectors are as they were. -/
structure Untouched (d : FatData) (v v' : Volume) (c : ℕ) : Prop where
  fat : v'.fat c = v.fat c
  data : ∀ s, d.InCluster c s → v'.data s = v.data s

theorem Untouched.refl (v : Volume) (c : ℕ) : Untouched d v v c := ⟨rfl, fun _ _ => rfl⟩

theorem Untouched.trans {v₁ v₂ v₃ : Volume} (h : Untouched d v₁ v₂ c) (h' : Untouched d v₂ v₃ c) :
    Untouched d v₁ v₃ c :=
  ⟨h'.fat.trans h.fat, fun s hs => (h'.data s hs).trans (h.data s hs)⟩

/-- One record of the cluster may have changed. -/
structure OneRecord (d : FatData) (v v' : Volume) (c index : ℕ) : Prop where
  fat : v'.fat c = v.fat c
  slot : ∀ k < d.entriesPerCluster, k ≠ index → v'.slotEntry d c k = v.slotEntry d c k

theorem OneRecord.trans {v₁ v₂ v₃ : Volume} {i : ℕ} (h : OneRecord d v₁ v₂ c i)
    (h' : Untouched d v₂ v₃ c) : OneRecord d v₁ v₃ c i := by
  refine ⟨h'.fat.trans h.fat, fun k hk hne => ?_⟩
  unfold Volume.slotEntry Volume.entryAt
  rw [h'.data _ (inCluster_slot hk)]
  exact h.slot k hk hne

/-- The file of `n` is being written to: only its own chain has changed. -/
structure Writing (d : FatData) (v₀ : Volume) (t₀ : Table) (n : Node) (v : Volume) (t : Table) :
    Prop where
  inv : Inv d v t
  has : t.has = t₀.has
  chain : ∀ m, m ≠ n → t.chain m = t₀.chain m
  untouched : ∀ m, m ≠ n → t.has m → ∀ c ∈ t.chain m, Untouched d v₀ v c
  mem : t.has n
  isFile : v.isDirectory d n = false

/-- A cluster that the file owns, or one that ends a chain and that nothing owns. -/
structure Cursor (d : FatData) (v : Volume) (t : Table) (n : Node) (c : ℕ) : Prop where
  cluster : d.IsCluster c
  owned : c ∈ t.chain n ∨ (∀ m, t.has m → c ∉ t.chain m) ∧ v.nextCluster c = none

section Writing

variable {v₀ v' : Volume} {t₀ t : Table} {n : Node} {r : ℕ}

theorem ne_zero_of_nextCluster (h : v.nextCluster c = none) : clusterOf (v.fat c) ≠ 0 := by
  intro hzero
  simp [Volume.nextCluster, hzero, fat32BadCluster] at h

theorem Cursor.ne_zero (h : Cursor d v t n c) (hw : Writing d v₀ t₀ n v t) :
    clusterOf (v.fat c) ≠ 0 := by
  rcases h.owned with hc | ⟨-, hend⟩
  · exact (hw.inv.fatChain hw.mem hc).ne_zero hc
  · exact ne_zero_of_nextCluster hend

/-- The cluster of the cursor belongs to no other file. -/
theorem Cursor.not_mem (h : Cursor d v t n c) (hw : Writing d v₀ t₀ n v t) {m : Node} (hm : m ≠ n)
    (hhas : t.has m) : c ∉ t.chain m := by
  intro hc
  rcases h.owned with hc' | ⟨hout, -⟩
  · exact hm (hw.inv.apart m n c hhas hw.mem hc hc')
  · exact hout m hhas hc

theorem slotEntry_of_untouched {k : ℕ} (hk : k < d.entriesPerCluster)
    (h : ∀ s, d.InCluster c s → v'.data s = v.data s) : v'.slotEntry d c k = v.slotEntry d c k := by
  unfold Volume.slotEntry Volume.entryAt
  rw [h _ (inCluster_slot hk)]

/-- Changes outside the chains and to the data of the file. -/
theorem Writing.frame (h : Writing d v₀ t₀ n v t)
    (hfat : ∀ m, t.has m → ∀ c ∈ t.chain m, v'.fat c = v.fat c)
    (hdata : ∀ m, m ≠ n → t.has m → ∀ c ∈ t.chain m, ∀ s, d.InCluster c s →
      v'.data s = v.data s) : Writing d v₀ t₀ n v' t := by
  have hagrees : Inv.Agrees d v v' t := by
    refine ⟨fun m hm c hc => by rw [hfat m hm c hc], fun m hm hdir c hc k hk => ?_⟩
    have hne : m ≠ n := by
      intro heq
      rw [heq, h.isFile] at hdir
      cases hdir
    rw [slotEntry_of_untouched hk (hdata m hne hm c hc)]
    exact .refl _
  refine ⟨h.inv.frame hagrees, h.has, h.chain, fun m hm hhas c hc => ?_, h.mem, ?_⟩
  · exact (h.untouched m hm hhas c hc).trans ⟨hfat m hhas c hc, hdata m hm hhas c hc⟩
  · rw [h.inv.isDirectory_eq hagrees h.mem]
    exact h.isFile

/-- A free cluster is in no chain. -/
theorem Inv.not_mem_of_free (h : Inv d v t) (hfree : clusterOf (v.fat r) = 0) {m : Node}
    (hm : t.has m) : r ∉ t.chain m := fun hr => (h.fatChain hm hr).ne_zero hr hfree

theorem setFat_fat_of_ne {x : ℕ} {y : DWORD} (h : c ≠ x) : (v.setFat x y).fat c = v.fat c :=
  Function.update_of_ne h ..

theorem setFat_fat_self (x : ℕ) (y : DWORD) :
    (v.setFat x y).fat x = setCluster (v.fat x) y := Function.update_self ..

theorem nextCluster_eocMark (hfat : v'.fat = (v.setFat r fat32EocMark).fat) :
    v'.nextCluster r = none := by
  unfold Volume.nextCluster
  rw [hfat, setFat_fat_self, clusterOf_setCluster (by decide)]
  exact if_pos (by decide)

theorem Writing.reserve (h : Writing d v₀ t₀ n v t) (hfree : clusterOf (v.fat r) = 0)
    (hdata : v'.data = v.data) (hfat : v'.fat = (v.setFat r fat32EocMark).fat) :
    Writing d v₀ t₀ n v' t := by
  refine h.frame (fun m hm x hx => ?_) fun _ _ _ _ _ s _ => by rw [hdata]
  have hne : x ≠ r := fun heq => h.inv.not_mem_of_free hfree hm (heq ▸ hx)
  rw [hfat, setFat_fat_of_ne hne]

/-- A cluster that ends a chain of its own is linked to the cluster of the cursor. -/
theorem Writing.link (h : Writing d v₀ t₀ n v t) (hcur : Cursor d v t n c)
    (hend : v.nextCluster c = none) (hr : d.IsCluster r) (hout : ∀ m, t.has m → r ∉ t.chain m)
    (hrend : v.nextCluster r = none) (hrc : r ≠ c) (hdata : v'.data = v.data)
    (hfat : v'.fat = (v.setFat c (BitVec.ofNat 32 r)).fat) :
    ∃ t', Writing d v₀ t₀ n v' t' ∧ Cursor d v' t' n r := by
  have hother : ∀ x, x ≠ c → v'.fat x = v.fat x := by
    intro x hx
    rw [hfat, setFat_fat_of_ne hx]
  have hr' : v'.nextCluster r = none := by
    unfold Volume.nextCluster
    rw [hother r hrc]
    exact hrend
  rcases hcur.owned with hc | ⟨hlost, -⟩
  · obtain ⟨l, hl⟩ := (h.inv.fatChain h.mem hc).chain.eq_append_of_last hc hend
    have hlt : r < 2 ^ 28 := by
      have hcount := d.countOfClusters_lt
      have hle := hr.2
      omega
    have hnat : (BitVec.ofNat 32 r).toNat = r := by
      rw [BitVec.toNat_ofNat]
      exact Nat.mod_eq_of_lt (by omega)
    have hlink : clusterOf (v'.fat c) = r := by
      rw [hfat, setFat_fat_self, clusterOf_setCluster (by rwa [hnat]), hnat]
    have hinv := h.inv.extend h.mem h.isFile hl hr hout hrend hdata hother hlink
    refine ⟨t.extend n (l ++ [c, r]), ⟨hinv, h.has, fun m hm => ?_, fun m hm hhas x hx => ?_,
      h.mem, ?_⟩, hr, Or.inl ?_⟩
    · rw [t.extend_of_ne _ hm]
      exact h.chain m hm
    · rw [t.extend_of_ne _ hm] at hx
      have hne : x ≠ c := fun heq => hcur.not_mem h hm hhas (heq ▸ hx)
      exact (h.untouched m hm hhas x hx).trans ⟨hother x hne, fun s _ => by rw [hdata]⟩
    · rw [isDirectory_of_data hdata]
      exact h.isFile
    · rw [t.extend_self]
      simp
  · refine ⟨t, h.frame (fun m hm x hx => hother x ?_) fun _ _ _ _ _ s _ => by rw [hdata], hr,
      Or.inr ⟨hout, hr'⟩⟩
    exact fun heq => hlost m hm (heq ▸ hx)

/-- Whatever becomes of a call to extend the chain, the file is still being written to. -/
theorem Writing.extended (h : Writing d v₀ t₀ n v t) (hcur : Cursor d v t n c)
    (hend : v.nextCluster c = none) (hx : Extended d v c r v') :
    ∃ t', Writing d v₀ t₀ n v' t' ∧ (r ≠ 0 → Cursor d v' t' n r) := by
  cases hx with
  | none hdata hfat =>
    exact ⟨t, h.frame (fun m _ x _ => by rw [hfat]) fun _ _ _ _ _ s _ => by rw [hdata],
      fun hne => absurd rfl hne⟩
  | lost hc hfree hdata hfat =>
    refine ⟨t, h.reserve hfree hdata hfat, fun _ => ⟨hc, Or.inr ⟨fun m hm => ?_, ?_⟩⟩⟩
    · exact h.inv.not_mem_of_free hfree hm
    · exact nextCluster_eocMark hfat
  | linked hc hfree hdata hfat =>
    have hrc : r ≠ c := fun heq => ne_zero_of_nextCluster hend (heq ▸ hfree)
    have hreserved : Writing d v₀ t₀ n (v.setFat r fat32EocMark) t := h.reserve hfree rfl rfl
    have hend' : (v.setFat r fat32EocMark).nextCluster c = none := by
      unfold Volume.nextCluster
      rw [setFat_fat_of_ne hrc.symm]
      exact hend
    have hcur' : Cursor d (v.setFat r fat32EocMark) t n c := by
      refine ⟨hcur.cluster, hcur.owned.imp id fun hlost => ⟨hlost.1, hend'⟩⟩
    obtain ⟨t', hw, hcur''⟩ := hreserved.link hcur' hend' hc
      (fun m hm => h.inv.not_mem_of_free hfree hm) (nextCluster_eocMark rfl) hrc hdata hfat
    exact ⟨t', hw, fun _ => hcur''⟩

end Writing

section Programs

variable {v₀ : Volume} {t₀ : Table} {n : Node} {s : ℕ}

def Ongoing (d : FatData) (v₀ : Volume) (t₀ : Table) (n : Node) (v : Volume) : Prop :=
  ∃ t, Writing d v₀ t₀ n v t

def OngoingAt (d : FatData) (v₀ : Volume) (t₀ : Table) (n : Node) (c : ℕ) (v : Volume) : Prop :=
  ∃ t, Writing d v₀ t₀ n v t ∧ Cursor d v t n c

theorem OngoingAt.ongoing (h : OngoingAt d v₀ t₀ n c v) : Ongoing d v₀ t₀ n v := by
  obtain ⟨t, hw, -⟩ := h
  exact ⟨t, hw⟩

theorem FatData.inCluster_sectorOf (d : FatData) (c : ℕ) : d.InCluster c (d.sectorOf c) :=
  ⟨le_rfl, Nat.lt_add_of_pos_right d.sectorsPerCluster_pos⟩

theorem nextSectorInClusterChain_spec (hs : d.InCluster c s) :
    Triple (At (OngoingAt d v₀ t₀ n c)) (nextSectorInClusterChain d s true)
      (fun r => At fun v => ∃ c', r = d.sectorOf c' ∧ OngoingAt d v₀ t₀ n c' v)
      (At (Ongoing d v₀ t₀ n)) := by
  refine fix_volume fun v hat => ?_
  obtain ⟨t, hw, hcur⟩ := hat
  unfold nextSectorInClusterChain
  rw [clusterOfSector_eq hcur.cluster hs, Prog.pure_bind]
  refine .bind ((nextClusterInChain_spec (hcur.ne_zero hw)).conseq (fun _ => id) (fun _ _ => id)
    fun w hv => ⟨t, show Writing d v₀ t₀ n w.volume t from hv ▸ hw⟩) fun next => ?_
  refine .ite (fun heoc => ?_) fun heoc => ?_
  · rw [if_neg (by simp)]
    by_cases hend : v.nextCluster c = none
    · refine .bind (Triple.conseq addNewClusterToChain_spec (fun w hv => hv.1) (fun _ _ => id)
        fun w hx => ?_) fun r => ?_
      · obtain ⟨r, hx⟩ := hx
        obtain ⟨t', hw', -⟩ := hw.extended hcur hend hx
        exact ⟨t', hw'⟩
      · refine fix_volume fun u hx => ?_
        obtain ⟨t', hw', hcur'⟩ := hw.extended hcur hend hx
        by_cases hr : r = 0
        · subst hr
          rw [firstSectorOfCluster_fail fun hc => absurd hc.1 (by omega)]
          exact .fail fun w hv => ⟨t', show Writing d v₀ t₀ n w.volume t' from hv ▸ hw'⟩
        · rw [firstSectorOfCluster_eq (hcur' hr).cluster]
          exact .ret fun w hv => ⟨r, rfl, t', hv ▸ ⟨hw', hcur' hr⟩⟩
    · intro w _ _ hv
      rcases hv.2 with ⟨-, hnone⟩ | ⟨hnot, -⟩
      · exact absurd hnone hend
      · rw [heoc] at hnot
        cases hnot
  · refine fix_volume fun u hu => ?_
    obtain ⟨rfl, hnext⟩ := hu
    rcases hnext with ⟨heoc', -⟩ | ⟨-, hnext⟩
    · exact absurd heoc' heoc
    · have hmem : c ∈ t.chain n := by
        rcases hcur.owned with hc | ⟨-, hend⟩
        · exact hc
        · rw [hend] at hnext
          cases hnext
      have hmem' := (hw.inv.fatChain hw.mem hmem).chain.next_mem hmem hnext
      have hcluster := hw.inv.isCluster hw.mem hmem'
      rw [firstSectorOfCluster_eq hcluster]
      exact .ret fun w hv => ⟨next, rfl, t, hv ▸ ⟨hw, hcluster, Or.inl hmem'⟩⟩

theorem skipClusters_spec {k : ℕ} :
    Triple (At fun v => ∃ c, s = d.sectorOf c ∧ OngoingAt d v₀ t₀ n c v) (skipClusters d k s)
      (fun r => At fun v => ∃ c', r = d.sectorOf c' ∧ OngoingAt d v₀ t₀ n c' v)
      (At (Ongoing d v₀ t₀ n)) := by
  induction k generalizing s with
  | zero => exact .ret fun w hw => hw
  | succ k ih =>
    unfold skipClusters
    refine .bind ?_ fun r => ih
    exact .exists_pre fun c => .assume fun hs =>
      nextSectorInClusterChain_spec (hs ▸ d.inCluster_sectorOf c)

/-- Data is written to the cluster of the cursor. -/
theorem OngoingAt.setSectors {count : ℕ} {buffer : ℕ → ℕ → DirEntry}
    (h : OngoingAt d v₀ t₀ n c v) (hs : d.sectorOf c ≤ s)
    (hcount : s + count ≤ d.sectorOf c + d.sectorsPerCluster) :
    OngoingAt d v₀ t₀ n c (v.setSectors s count buffer) := by
  obtain ⟨t, hw, hcur⟩ := h
  refine ⟨t, hw.frame (fun _ _ _ _ => rfl) fun m hm hhas x hx i hi => ?_, hcur.cluster, hcur.owned⟩
  have hne : x ≠ c := fun heq => hcur.not_mem hw hm hhas (heq ▸ hx)
  refine if_neg fun hin => hne ?_
  have hc : d.InCluster c i := ⟨by omega, by omega⟩
  exact hi.unique hc (hw.inv.isCluster hhas hx).1 hcur.cluster.1

theorem writeLoop_spec {buffer : ℕ → ℕ → DirEntry} {fuel pData remaining toWrite : ℕ}
    (hs : d.InCluster c s) (hcount : s + toWrite ≤ d.sectorOf c + d.sectorsPerCluster) :
    Triple (At (OngoingAt d v₀ t₀ n c)) (writeLoop d buffer fuel s pData remaining toWrite)
      (fun _ => At (Ongoing d v₀ t₀ n)) (At (Ongoing d v₀ t₀ n)) := by
  induction fuel generalizing s c pData remaining toWrite with
  | zero => exact .fault
  | succ fuel ih =>
    unfold writeLoop
    refine .bind (ioDevice_at fun _ => OngoingAt.ongoing) fun _ =>
      .bind (setVolume_at fun v hv => hv.setSectors hs.1 hcount) fun _ => ?_
    refine .ite (fun _ => .ret fun w hw => OngoingAt.ongoing hw) fun _ => ?_
    refine .bind (nextSectorInClusterChain_spec hs) fun r => .exists_pre fun c' =>
      .assume fun hr => ?_
    subst hr
    exact ih (d.inCluster_sectorOf c') (Nat.add_le_add_left (min_le_left ..) _)

/-- What a call to write to the file of `n` leaves: besides the file itself only one entry in the
cluster that has its entry may have changed, and that in its size and dates. -/
def Written (d : FatData) (v₀ : Volume) (t₀ : Table) (n : Node) (entryCluster : ℕ) (v : Volume) :
    Prop :=
  (∃ t, Inv d v t) ∧ ∀ m, m ≠ n → t₀.has m → ∀ c ∈ t₀.chain m, Untouched d v₀ v c ∨
    c = entryCluster ∧ ∃ i, OneRecord d v₀ v c i ∧ SameEntry (v₀.slotEntry d c i) (v.slotEntry d c i)

theorem Ongoing.untouched (h : Ongoing d v₀ t₀ n v) {m : Node} (hm : m ≠ n) (hhas : t₀.has m)
    (hc : c ∈ t₀.chain m) : Untouched d v₀ v c := by
  obtain ⟨t, hw⟩ := h
  rw [← hw.has] at hhas
  rw [← hw.chain m hm] at hc
  exact hw.untouched m hm hhas c hc

theorem Ongoing.written (h : Ongoing d v₀ t₀ n v) (e : ℕ) : Written d v₀ t₀ n e v := by
  have hold := h
  obtain ⟨t, hw⟩ := h
  exact ⟨⟨t, hw.inv⟩, fun m hm hhas c hc => Or.inl (hold.untouched hm hhas hc)⟩

theorem sameEntry_afterWrite (e : DirEntry) (next : DWORD) (now : DateTime) :
    SameEntry e (e.afterWrite next now) := ⟨rfl, rfl, rfl⟩

theorem findDirEntry_lt {k index j first : ℕ}
    (h : findDirEntry d v s first k index = some j) : j < index + k := by
  induction k generalizing index with
  | zero => cases h
  | succ k ih =>
    unfold findDirEntry at h
    dsimp only at h
    split_ifs at h with hskip hfound
    · have := ih h
      omega
    · obtain rfl := Option.some.inj h
      omega
    · have := ih h
      omega

theorem getDirEntryFromSector_spec {dirFirstSector : ℕ} :
    Triple (At (· = v)) (getDirEntryFromSector d s dirFirstSector)
      (fun r => At fun u => u = v ∧ r.1 < d.entriesPerCluster ∧ r.2 = v.entryAt d s r.1)
      (At (· = v)) := by
  have hcount : d.bytesPerSector * d.sectorsPerCluster / 32 = d.entriesPerCluster := by
    unfold FatData.entriesPerCluster FatData.entriesPerSector
    rw [Nat.div_mul_right_comm d.bytesPerSector_dvd]
  unfold getDirEntryFromSector
  refine .bind (exAllocatePool_at fun _ => id) fun _ => .bind (ioDevice_at fun _ => id) fun _ =>
    volume_bind fun u hu => .bind (Q := fun _ => At (· = u)) ?_ fun first => ?_
  · unfold clusterOfSector
    exact .ite (fun _ => .fail fun w hw => hw.trans hu) fun _ => .ret fun _ => id
  · rw [hcount, hu]
    cases hfound : findDirEntry d v s first d.entriesPerCluster 0 with
    | none => exact .fail fun _ => id
    | some index =>
      have hlt := findDirEntry_lt hfound
      exact .ret fun w hw => ⟨hw, by omega, rfl⟩

/-- The entry gets a new size and new dates. -/
theorem Ongoing.setEntryAt {e index : ℕ} {entry : DirEntry} (h : Ongoing d v₀ t₀ n v)
    (he : d.IsCluster e) (hi : index < d.entriesPerCluster)
    (hsame : SameEntry (v.slotEntry d e index) entry) :
    Written d v₀ t₀ n e (v.setEntryAt d (d.sectorOf e) index entry) := by
  have hold := h
  obtain ⟨t, hw⟩ := h
  refine ⟨⟨t, hw.inv.frame ⟨fun _ _ _ _ => rfl, fun m hm _ x hx k hk => ?_⟩⟩, ?_⟩
  · rw [slotEntry_setEntryAt hi hk (hw.inv.isCluster hm hx).1 he.1]
    split_ifs with heq
    · rw [heq.1, heq.2]
      exact hsame
    · exact .refl _
  · intro m hm hhas x hx
    have hux := hold.untouched hm hhas hx
    rw [← hw.has] at hhas
    rw [← hw.chain m hm] at hx
    have hx₂ := (hw.inv.isCluster hhas hx).1
    by_cases hxe : x = e
    · subst hxe
      have hslot : ∀ k < d.entriesPerCluster, v.slotEntry d x k = v₀.slotEntry d x k :=
        fun k hk => slotEntry_of_untouched hk hux.data
      refine Or.inr ⟨rfl, index, ⟨hux.fat, fun k hk hne => ?_⟩, ?_⟩
      · rw [slotEntry_setEntryAt hi hk hx₂ hx₂, if_neg fun heq => hne heq.2, hslot k hk]
      · rw [slotEntry_setEntryAt hi hi hx₂ hx₂, if_pos ⟨rfl, rfl⟩, ← hslot index hi]
        exact hsame
    · exact Or.inl (hux.trans ⟨rfl, fun i hin => setEntryAt_data hi fun hin' =>
        hxe (hin.unique hin' hx₂ he.1)⟩)

/-- `FatWriteFile` for a file that has a cluster. -/
theorem fatWriteFile_spec {e k offset count : ℕ} {buffer : ℕ → ℕ → DirEntry} {now : DateTime}
    (h : Inv d v₀ t₀) (hn : t₀.has (.slot e k)) (hfile : v₀.isDirectory d (.slot e k) = false)
    (hc : d.IsCluster (v₀.firstCluster d (.slot e k))) :
    Triple (At (· = v₀)) (fatWriteFile d (d.sectorOf (v₀.firstCluster d (.slot e k))) offset
        (d.sectorOf e) buffer count now)
      (fun _ => At (Written d v₀ t₀ (.slot e k) e)) (At (Written d v₀ t₀ (.slot e k) e)) := by
  have hstart : Writing d v₀ t₀ (.slot e k) v₀ t₀ :=
    ⟨h, rfl, fun _ _ => rfl, fun _ _ _ c _ => .refl _ c, hn, hfile⟩
  have hat : OngoingAt d v₀ t₀ (.slot e k) (v₀.firstCluster d (.slot e k)) v₀ :=
    ⟨t₀, hstart, hc, Or.inl (h.firstCluster_mem hn hc)⟩
  have he : d.IsCluster e := by
    obtain ⟨-, -, p, hp, -, hmem⟩ := h.inDirectory e k hn
    exact h.isCluster hp hmem
  have hong : ∀ v, Ongoing d v₀ t₀ (.slot e k) v → Written d v₀ t₀ (.slot e k) e v :=
    fun v hv => hv.written e
  unfold fatWriteFile
  refine .bind assert_at fun _ => .ite (fun _ => ?_) fun _ => ?_
  · exact .ret fun w hw => hong _ (hw.2 ▸ hat.ongoing)
  refine .bind ((skipClusters_spec (n := .slot e k)).conseq
    (fun w hw => ⟨_, rfl, show OngoingAt .. from hw.2 ▸ hat⟩) (fun _ _ => id) fun _ hw => hong _ hw)
    fun r => .bind assert_at fun _ => ?_
  refine .assume fun _ => .exists_pre fun c => .assume fun hr => ?_
  subst hr
  have hlt := Nat.mod_lt offset d.sectorsPerCluster_pos
  have hin : d.InCluster c (d.sectorOf c + offset % d.sectorsPerCluster) := ⟨by omega, by omega⟩
  have hmin := min_le_right count (d.sectorsPerCluster - offset % d.sectorsPerCluster)
  refine .bind ((writeLoop_spec hin (by lia)).conseq (fun _ => id) (fun _ _ => id)
    fun _ hw => hong _ hw) fun _ => fix_volume fun v hv => ?_
  refine .bind (getDirEntryFromSector_spec.conseq (fun _ => id) (fun _ _ => id)
    fun w hw => show Written .. from hw ▸ hong v hv) fun r => ?_
  obtain ⟨index, entry⟩ := r
  refine fix_volume fun u hu => ?_
  obtain ⟨rfl, hi, hentry⟩ := hu
  have hkeep : ∀ w : World, w.volume = u → Written d v₀ t₀ (.slot e k) e w.volume :=
    fun w hw => hw ▸ hong u hv
  unfold writeDirEntryToSector
  refine .bind (Q := fun _ => At (Written d v₀ t₀ (.slot e k) e)) ?_ fun _ => .ret fun _ => id
  refine .bind ((exAllocatePool_at fun _ => id).conseq (fun _ => id) (fun _ _ => id) hkeep) fun _ =>
    .bind ((ioDevice_at fun _ => id).conseq (fun _ => id) (fun _ _ => id) hkeep) fun _ =>
    .bind ((ioDevice_at fun _ => id).conseq (fun _ => id) (fun _ _ => id) hkeep) fun _ =>
    setVolume_at fun u' hu' => ?_
  subst hu'
  refine hv.setEntryAt he hi ?_
  rw [show entry = u'.slotEntry d e index from hentry]
  exact sameEntry_afterWrite ..

end Programs

end HAL9000.Fat32
