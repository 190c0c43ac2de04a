import HAL9000.Fat32.Writing

/-! `FatCreateDirectoryEntry` gives a new file or directory a cluster of its own when the hint is
free. -/
namespace HAL9000.Fat32

open Chain Program

variable {d : FatData} {v : Volume} {c : ℕ}

section Outcomes

variable {resource : Resource} {site : Site} {o : Outcome} {P Q : Volume → Prop} {E : World → Prop}

/-- A condition on the volume, with the outcomes of the requests. -/
def AtWith (o : Outcome) (P : Volume → Prop) : World → Prop := fun w => w.outcome = o ∧ At P w

/-- The requests of a site that are all met. -/
theorem request_met (hmet : ∀ t, o resource site t = true) :
    Triple (AtWith o P) (request resource site) (fun r w => r = true ∧ AtWith o P w) E := by
  intro w r w' hw hrun
  obtain ⟨rfl, rfl⟩ : Except.ok (w.outcome resource site w.clock) = r ∧
      { w with clock := w.clock + 1 } = w' := by simpa [request] using hrun
  refine ⟨?_, hw⟩
  rw [hw.1]
  exact hmet _

theorem exAllocatePool_met (hmet : ∀ t, o .memory site t = true) :
    Triple (AtWith o P) (exAllocatePool site) (fun _ => AtWith o P) E := by
  unfold exAllocatePool
  refine .bind (request_met hmet) fun r => .assume fun hr => ?_
  rw [if_neg (by simp [hr])]
  exact .ret fun _ => id

theorem ioDevice_met (hmet : ∀ t, o resource site t = true) :
    Triple (AtWith o P) (ioDevice resource site) (fun _ => AtWith o P) E := by
  unfold ioDevice
  refine .bind (request_met hmet) fun r => .assume fun hr => ?_
  rw [if_neg (by simp [hr])]
  exact .ret fun _ => id

theorem setVolume_with {f : Volume → Volume} (h : ∀ v, P v → Q (f v)) :
    Triple (AtWith o P) (setVolume f) (fun _ => AtWith o Q) E :=
  .modify fun w hw => ⟨hw.1, h w.volume hw.2⟩

theorem preserves_request : Preserves World.outcome (request resource site) := by
  intro w r w' hrun
  obtain ⟨-, rfl⟩ : Except.ok (w.outcome resource site w.clock) = r ∧
      { w with clock := w.clock + 1 } = w' := by simpa [request] using hrun
  rfl

theorem preserves_exAllocatePool : Preserves World.outcome (exAllocatePool site) :=
  .bind preserves_request fun _ => .ite (.fail _) (.ret _)

theorem preserves_ioDevice : Preserves World.outcome (ioDevice resource site) :=
  .bind preserves_request fun _ => .ite (.fail _) (.ret _)

theorem preserves_setVolume (f : Volume → Volume) : Preserves World.outcome (setVolume f) :=
  .modify fun _ => rfl

theorem preserves_volume : Preserves World.outcome volume :=
  .bind .get fun _ => .ret _

theorem preserves_nextClusterInChain : Preserves World.outcome (nextClusterInChain d c) :=
  .bind preserves_exAllocatePool fun _ => .bind preserves_ioDevice fun _ =>
    .bind preserves_volume fun _ => .ite
      (.bind preserves_ioDevice fun _ => .bind (preserves_setVolume _) fun _ => .ret _)
      (.ite (.ret _) (.ret _))

theorem preserves_lastClusterOf {fuel current temp : ℕ} :
    Preserves World.outcome (lastClusterOf d fuel current temp) := by
  induction fuel generalizing current temp with
  | zero => exact .fault _
  | succ fuel ih => exact .ite (.ret _) (.bind preserves_nextClusterInChain fun _ => ih)

theorem exAllocatePool_with {E : Volume → Prop} (he : ∀ v, P v → E v) :
    Triple (AtWith o P) (exAllocatePool site) (fun _ => AtWith o P) (At E) :=
  preserves_exAllocatePool.triple (exAllocatePool_at he)

theorem ioDevice_with {E : Volume → Prop} (he : ∀ v, P v → E v) :
    Triple (AtWith o P) (ioDevice resource site) (fun _ => AtWith o P) (At E) :=
  preserves_ioDevice.triple (ioDevice_at he)

theorem volume_bind_with {α : Type} {Q : α → World → Prop} {f : Volume → FatM α}
    (h : ∀ v, P v → Triple (AtWith o (· = v)) (f v) Q E) :
    Triple (AtWith o P) (volume >>= f) Q E := by
  refine .bind (Q := fun v => AtWith o fun u => u = v ∧ P v) (preserves_volume.triple ?_) fun v => ?_
  · intro w r w' hw hrun
    obtain ⟨rfl, rfl⟩ : Except.ok w.volume = r ∧ w = w' := by
      simpa [volume, Prog.get, Pure.pure, Bind.bind, Prog.bind] using hrun
    exact ⟨rfl, hw⟩
  · exact (Triple.assume fun hv => h v hv).pre fun w hw => ⟨hw.2.2, hw.1, hw.2.1⟩

end Outcomes

/-- The walk to the last cluster of a chain. -/
theorem lastClusterOf_spec {fuel current : ℕ} {l : List ℕ} (h : FatChain d v c l) :
    Triple (At (· = v)) (lastClusterOf d fuel current c)
      (fun r => At fun u => u = v ∧ ∃ l₁, l = l₁ ++ [r]) (At (· = v)) := by
  induction fuel generalizing c current l with
  | zero => exact .fault
  | succ fuel ih =>
    have hc := h.isCluster
    have heoc : fat32Eoc c = false := by
      have hcount := d.countOfClusters_lt
      have hle := hc.2
      have hlt : ¬fat32BadCluster < c := by
        unfold fat32BadCluster
        omega
      simpa [fat32Eoc] using hlt
    unfold lastClusterOf
    rw [if_neg (by simp [heoc])]
    refine .bind (nextClusterInChain_spec (h.ne_zero h.chain.mem)) fun next =>
      fix_volume fun u hu => ?_
    obtain ⟨rfl, hnext⟩ := hu
    rcases hnext with ⟨hend, hnone⟩ | ⟨-, hsome⟩
    · cases fuel with
      | zero => exact .fault
      | succ fuel =>
        unfold lastClusterOf
        rw [if_pos hend]
        obtain ⟨l₁, hl⟩ := h.chain.eq_append_of_last h.chain.mem hnone
        exact .ret fun w hw => ⟨hw, l₁, hl⟩
    · obtain ⟨hchain, hcluster⟩ := h
      cases hchain with
      | last hnone =>
        rw [hnone] at hsome
        cases hsome
      | @link _ _ l hn hl =>
        obtain rfl := Option.some.inj (hn.symm.trans hsome)
        refine (ih ⟨hl, fun x hx => hcluster x (List.mem_cons_of_mem c hx)⟩).conseq (fun _ => id)
          (fun r w hw => ?_) fun _ => id
        obtain ⟨hv, l₁, hl₁⟩ := hw
        exact ⟨hv, c :: l₁, by rw [hl₁]; rfl⟩

/-- A cluster with new contents, marked as the end of a chain. -/
def Volume.withContents (d : FatData) (v : Volume) (c : ℕ) (contents : ℕ → DirEntry) : Volume :=
  (v.setSectors (d.sectorOf c) d.sectorsPerCluster fun i index =>
    contents (i * d.entriesPerSector + index)).setFat c fat32EocMark

section Contents

variable {contents : ℕ → DirEntry} {s k : ℕ}

theorem withContents_data (hs : ¬d.InCluster c s) :
    (v.withContents d c contents).data s = v.data s := if_neg hs

theorem withContents_slotEntry (hk : k < d.entriesPerCluster) :
    (v.withContents d c contents).slotEntry d c k = contents k := by
  have hin := inCluster_slot (c := c) hk
  have hdata : (v.withContents d c contents).data (d.sectorOf c + k / d.entriesPerSector) =
      fun index => contents ((d.sectorOf c + k / d.entriesPerSector - d.sectorOf c) *
        d.entriesPerSector + index) := if_pos hin
  unfold Volume.slotEntry Volume.entryAt
  rw [hdata]
  dsimp only
  rw [Nat.add_sub_cancel_left, Nat.div_add_mod']

theorem withContents_fatChain (hc : d.IsCluster c) :
    FatChain d (v.withContents d c contents) c [c] := by
  refine ⟨.last (nextCluster_eocMark (v := v) rfl), fun x hx => ?_⟩
  rw [List.mem_singleton.mp hx]
  exact hc

end Contents

section Create

variable {o : Outcome} {parentSector p : ℕ} {fileAttributes : BYTE} {now : DateTime}

/-- The cluster of the new entry is filled and marked as the end of a chain. -/
theorem createContents_spec (hmet : ∀ r t, o r .createContents t = true) (hc : d.IsCluster c)
    (hp : d.IsCluster p) (hs : d.InCluster p parentSector) :
    Triple (AtWith o (· = v)) (createContents d parentSector c fileAttributes now)
      (fun _ => At fun u => ∃ parent, u = v.withContents d c (newContents
        (attrDirectory = fileAttributes &&& (attrDirectory ||| attrVolumeId)) (BitVec.ofNat 32 c)
        parent now))
      (fun _ => False) := by
  unfold createContents
  refine .bind (exAllocatePool_met (hmet _)) fun _ => ?_
  extract_lets isDirectory fatEntrySector indexInSector rest
  have hrest : ∀ parent, Triple (AtWith o (· = v)) (rest parent)
      (fun _ => At fun u => ∃ parent, u = v.withContents d c (newContents isDirectory
        (BitVec.ofNat 32 c) parent now)) (fun _ => False) := by
    intro parent
    have hentry : d.fatEntry fatEntrySector indexInSector = c := by
      rw [show indexInSector = c % (d.bytesPerSector / 4) from byteIndex_eq d c]
      exact fatEntry_eq d c
    dsimp only [rest]
    rw [firstSectorOfCluster_eq hc, Prog.pure_bind, hentry]
    refine .bind (ioDevice_met (hmet _)) fun _ => .bind (setVolume_with (Q := fun u =>
        u.setFat c fat32EocMark = v.withContents d c (newContents isDirectory (BitVec.ofNat 32 c)
          (BitVec.ofNat 32 parent) now)) fun u hu => ?_) fun _ =>
      .bind (exAllocatePool_met (hmet _)) fun _ => .bind (ioDevice_met (hmet _)) fun _ =>
      .bind (ioDevice_met (hmet _)) fun _ => .modify fun w hw => ⟨_, hw.2⟩
    rw [hu]
    rfl
  rw [clusterOfSector_eq hp hs]
  exact .ite (fun _ => .ite (fun _ => hrest 0) fun _ => hrest p) fun _ => hrest 0

/-- A new entry whose cluster is not on the volume gets no contents. -/
theorem createContents_invalid (hc : ¬d.IsCluster c) (hp : d.IsCluster p)
    (hs : d.InCluster p parentSector) :
    Triple (At (· = v)) (createContents d parentSector c fileAttributes now) (fun _ _ => False)
      (At (· = v)) := by
  unfold createContents
  refine .bind (exAllocatePool_at fun _ => id) fun _ => ?_
  extract_lets isDirectory fatEntrySector indexInSector rest
  have hrest : ∀ parent, Triple (At (· = v)) (rest parent) (fun _ _ => False) (At (· = v)) := by
    intro parent
    dsimp only [rest]
    rw [firstSectorOfCluster_fail hc]
    exact .bind (Q := fun _ _ => False) (.fail fun _ => id) fun _ _ _ _ hw => hw.elim
  rw [clusterOfSector_eq hp hs]
  exact .ite (fun _ => .ite (fun _ => hrest 0) fun _ => hrest p) fun _ => hrest 0

/-- The sector of the slot is where new entries are placed. -/
def startOf (d : FatData) (c : ℕ) : ℕ := if d.sectorOf c = d.firstDataSector then 2 else 0

/-- The call places a new entry: the name is not in the directory, the last cluster of the directory
has a free slot, and FSInfo counts free clusters. -/
def TakesHint (d : FatData) (v : Volume) (n : Node) (args : CreateArgs) : Prop :=
  args.nameExists = false ∧ v.fsInfo.freeCount ≠ 0 ∧
    ∃ l c k, FatChain d v (v.firstCluster d n) (l ++ [c]) ∧ startOf d c ≤ k ∧
      k < d.entriesPerCluster ∧ (v.slotEntry d c k).isFree = true

/-- What a call to create an entry in `dir` leaves: only one free slot of that directory may have
changed. -/
def Created (d : FatData) (v₀ : Volume) (t₀ : Table) (dir : Node) (v : Volume) : Prop :=
  (∃ t, Inv d v t) ∧ ∀ m, t₀.has m → ∀ c ∈ t₀.chain m, Untouched d v₀ v c ∨
    m = dir ∧ ∃ i, OneRecord d v₀ v c i ∧ (v₀.slotEntry d c i).isFree = true

theorem findFreeSlot_eq {s n i k : ℕ} (h : findFreeSlot d v s n i = some k) :
    i ≤ k ∧ k < i + n ∧ (v.entryAt d s k).isFree = true := by
  induction n generalizing i with
  | zero => cases h
  | succ n ih =>
    unfold findFreeSlot at h
    split_ifs at h with hfree
    · obtain rfl := Option.some.inj h
      exact ⟨le_rfl, by omega, hfree⟩
    · obtain ⟨h₁, h₂, h₃⟩ := ih h
      exact ⟨by omega, by omega, h₃⟩

theorem DirEntry.new_fstClus (name : Fin 11 → BYTE) (attr : BYTE) (cluster : DWORD)
    (now : DateTime) : (DirEntry.new name attr cluster now).fstClus = cluster := by
  unfold DirEntry.new DirEntry.fstClus
  ext i hi
  simp only [BitVec.getElem_append, BitVec.getElem_extractLsb']
  split_ifs with hlt
  · simp [BitVec.getLsbD_eq_getElem hi]
  · rw [show 16 + (i - 16) = i by omega]
    exact BitVec.getLsbD_eq_getElem hi

end Create

section Placed

variable {u : Volume} {t : Table} {n : Node} {k x : ℕ} {e : DirEntry} {contents : ℕ → DirEntry}

/-- The entry has been written, and FSInfo perhaps. -/
theorem NewEntry.placed (h : Inv d v t) (hn : t.has n) (hdir : v.isDirectory d n = true)
    (hc : c ∈ t.chain n) (hk : k < d.entriesPerCluster) (hfree : (v.slotEntry d c k).isFree = true)
    (hfat : u.fat = v.fat) (hdata : u.data = v.data) :
    NewEntry d v (u.setEntryAt d (d.sectorOf c) k e) t n c k := by
  refine ⟨hn, hdir, hc, hk, hfree, fun m _ y _ => ?_, fun m hm _ y hy j hj hne => ?_⟩
  · rw [show (u.setEntryAt d (d.sectorOf c) k e).fat = v.fat from hfat]
  · rw [slotEntry_setEntryAt hk hj (h.isCluster hm hy).1 (h.isCluster hn hc).1, if_neg hne]
    exact slotEntry_of_data hdata y j

theorem slotEntry_withContents_of_ne {y : ℕ} (hk : k < d.entriesPerCluster) (hyx : y ≠ x)
    (hy : 2 ≤ y) (hx : 2 ≤ x) : (v.withContents d x contents).slotEntry d y k = v.slotEntry d y k :=
  slotEntry_of_untouched hk fun _ hs => withContents_data fun hin => hyx (hs.unique hin hy hx)

/-- A free cluster has been filled for it. -/
theorem NewEntry.withContents (h : NewEntry d v u t n c k) (hi : Inv d v t) (hx : d.IsCluster x)
    (hfree : clusterOf (v.fat x) = 0) : NewEntry d v (u.withContents d x contents) t n c k := by
  have hne : ∀ m, t.has m → ∀ y ∈ t.chain m, y ≠ x := by
    intro m hm y hy heq
    exact hi.not_mem_of_free hfree hm (heq ▸ hy)
  refine ⟨h.parent, h.isDirectory, h.mem, h.index_lt, h.free, fun m hm y hy => ?_,
    fun m hm hdir y hy j hj hnot => ?_⟩
  · rw [show (u.withContents d x contents).fat y = u.fat y from setFat_fat_of_ne (hne m hm y hy)]
    exact h.fat m hm y hy
  · rw [slotEntry_withContents_of_ne hj (hne m hm y hy) (hi.isCluster hm hy).1 hx.1]
    exact h.entry m hm hdir y hy j hj hnot

/-- The entry without a cluster. -/
theorem NewEntry.inv_placed (h : NewEntry d v u t n c k) (hi : Inv d v t)
    (he : u.slotEntry d c k = e) (hx : ¬d.IsCluster e.fstClus.toNat) : ∃ t, Inv d u t := by
  have hfirst : ¬d.IsCluster (u.firstCluster d (.slot c k)) := by
    rw [show u.firstCluster d (.slot c k) = e.fstClus.toNat from congrArg (·.fstClus.toNat) he]
    exact hx
  exact ⟨_, h.inv hi (l := []) (Or.inr ⟨hfirst, rfl⟩) (by simp) (by simp)
    fun _ hc => absurd hc hfirst⟩

theorem newContents_isLive {b : Bool} {parent y : DWORD} {now : DateTime}
    (hk : b = false ∨ 2 ≤ k) : (newContents b y parent now k).isLive = false := by
  have hzero : newContents b y parent now k = .zero := by
    unfold newContents
    rcases hk with rfl | hk
    · simp
    · rw [if_neg (by omega), if_neg (by omega)]
  rw [hzero]
  decide

theorem newContents_isFree {parent y : DWORD} {now : DateTime} (hk : k < 2) :
    (newContents true y parent now k).isFree = false := by
  obtain rfl | rfl : k = 0 ∨ k = 1 := by omega
  · rfl
  · rfl

/-- The entry with a cluster of its own. -/
theorem NewEntry.inv_withContents {attr : BYTE} {name : Fin 11 → BYTE} {y parent : DWORD}
    {now : DateTime} (h : NewEntry d v u t n c k) (hi : Inv d v t)
    (he : u.slotEntry d c k = DirEntry.new name attr y now) (hx : d.IsCluster y.toNat)
    (hfree : clusterOf (v.fat y.toNat) = 0) :
    ∃ t, Inv d (u.withContents d y.toNat (newContents
      (attrDirectory = attr &&& (attrDirectory ||| attrVolumeId)) y parent now)) t := by
  generalize hb : decide (attrDirectory = attr &&& (attrDirectory ||| attrVolumeId)) = b
  generalize hu : u.withContents d y.toNat (newContents b y parent now) = u'
  have hnew : NewEntry d v u' t n c k := hu ▸ h.withContents hi hx hfree
  have hcy : c ≠ y.toNat := fun heq => hi.not_mem_of_free hfree h.parent (heq ▸ h.mem)
  have hslot : u'.slotEntry d c k = DirEntry.new name attr y now := by
    rw [← hu, slotEntry_withContents_of_ne h.index_lt hcy (hi.isCluster h.parent h.mem).1 hx.1, he]
  have hfirst : u'.firstCluster d (.slot c k) = y.toNat := by
    show (u'.slotEntry d c k).fstClus.toNat = _
    rw [hslot, DirEntry.new_fstClus]
  have hdir : u'.isDirectory d (.slot c k) = b := by
    show (u'.slotEntry d c k).isDirectory = _
    rw [hslot, ← hb]
    exact decide_eq_decide.mpr eq_comm
  have hcontents : ∀ j < d.entriesPerCluster,
      u'.slotEntry d y.toNat j = newContents b y parent now j := by
    intro j hj
    rw [← hu, withContents_slotEntry hj]
  refine ⟨_, hnew.inv hi (l := [y.toNat]) (Or.inl ?_) (fun m hm z hz => ?_) (fun z hz j hj hdot => ?_)
    fun hd _ j hj => ?_⟩
  · rw [hfirst, ← hu]
    exact withContents_fatChain hx
  · rw [List.mem_singleton.mp hz]
    exact hi.not_mem_of_free hfree hm
  · obtain rfl := List.mem_singleton.mp hz
    rw [hcontents j hj]
    refine newContents_isLive ?_
    by_contra hnot
    refine hdot ⟨nofun, hfirst.symm, by omega⟩
  · rw [hfirst, hcontents j (hj.trans_le (two_le_entriesPerCluster d)), ← hdir, hd]
    exact newContents_isFree hj

theorem untouched_placed {y : ℕ} (hk : k < d.entriesPerCluster) (hyc : y ≠ c) (hy : 2 ≤ y)
    (hc : 2 ≤ c) (hfat : u.fat = v.fat) (hdata : u.data = v.data) :
    Untouched d v (u.setEntryAt d (d.sectorOf c) k e) y := by
  refine ⟨congrFun hfat y, fun s hs => ?_⟩
  rw [setEntryAt_data hk fun hin => hyc (hs.unique hin hy hc), hdata]

theorem untouched_withContents {y : ℕ} (hyx : y ≠ x) (hy : 2 ≤ y) (hx : 2 ≤ x) :
    Untouched d v (v.withContents d x contents) y :=
  ⟨setFat_fat_of_ne hyx, fun _ hs => withContents_data fun hin => hyx (hs.unique hin hy hx)⟩

end Placed

section Call

variable {v₀ : Volume} {t₀ : Table} {dir : Node} {o : Outcome} {args : CreateArgs} {fuel : ℕ}

theorem Created.fsInfo (h : Inv d v₀ t₀) (info : FsInfo) :
    Created d v₀ t₀ dir { v₀ with fsInfo := info } :=
  ⟨⟨t₀, h.frame ⟨fun _ _ _ _ => rfl, fun _ _ _ _ _ _ _ => .refl _⟩⟩,
    fun _ _ _ _ => Or.inl ⟨rfl, fun _ _ => rfl⟩⟩

theorem Created.refl (h : Inv d v₀ t₀) : Created d v₀ t₀ dir v₀ := .fsInfo h v₀.fsInfo

/-- The end of a call: the new entry has been written to its directory. -/
theorem createContents_created {k s : ℕ} {u : Volume} {hint : DWORD} (h : Inv d v₀ t₀)
    (hdir : t₀.has dir) (hd : v₀.isDirectory d dir = true) (hc : c ∈ t₀.chain dir)
    (hk : k < d.entriesPerCluster) (hslot : (v₀.slotEntry d c k).isFree = true)
    (hfat : u.fat = v₀.fat) (hdata : u.data = v₀.data) {p : ℕ} (hp : d.IsCluster p)
    (hs : d.InCluster p s)
    (hfree : d.IsCluster hint.toNat →
      clusterOf (v₀.fat hint.toNat) = 0 ∧ ∀ r t, o r .createContents t = true) :
    Triple (AtWith o (· = u.setEntryAt d (d.sectorOf c) k
        (DirEntry.new args.name args.fileAttributes hint args.now)))
      (createContents d s hint.toNat args.fileAttributes args.now)
      (fun _ => At (Created d v₀ t₀ dir)) (At (Created d v₀ t₀ dir)) := by
  have hcc := h.isCluster hdir hc
  have hnew := NewEntry.placed (e := .new args.name args.fileAttributes hint args.now) h hdir hd hc
    hk hslot hfat hdata
  have he : (u.setEntryAt d (d.sectorOf c) k
      (.new args.name args.fileAttributes hint args.now)).slotEntry d c k =
      .new args.name args.fileAttributes hint args.now := by
    rw [slotEntry_setEntryAt hk hk hcc.1 hcc.1, if_pos ⟨rfl, rfl⟩]
  have hout : ∀ v', (∀ m, t₀.has m → ∀ y ∈ t₀.chain m, Untouched d (u.setEntryAt d (d.sectorOf c) k
        (.new args.name args.fileAttributes hint args.now)) v' y) →
      ∀ m, t₀.has m → ∀ y ∈ t₀.chain m, Untouched d v₀ v' y ∨
        m = dir ∧ ∃ i, OneRecord d v₀ v' y i ∧ (v₀.slotEntry d y i).isFree = true := by
    intro v' hv' m hhas y hy
    by_cases hyc : y = c
    · subst hyc
      have hrecord : OneRecord d v₀ (u.setEntryAt d (d.sectorOf y) k
          (.new args.name args.fileAttributes hint args.now)) y k := by
        refine ⟨congrFun hfat y, fun j hj hne => ?_⟩
        rw [slotEntry_setEntryAt hk hj hcc.1 hcc.1, if_neg fun heq => hne heq.2]
        exact slotEntry_of_data hdata y j
      exact Or.inr ⟨h.apart m dir y hhas hdir hy hc, k, hrecord.trans (hv' m hhas y hy), hslot⟩
    · exact Or.inl ((untouched_placed hk hyc (h.isCluster hhas hy).1 hcc.1 hfat hdata).trans
        (hv' m hhas y hy))
  by_cases hx : d.IsCluster hint.toNat
  · obtain ⟨hzero, hmet⟩ := hfree hx
    refine (createContents_spec hmet hx hp hs).conseq (fun _ => id) (fun _ w hw => ?_)
      fun _ hw => hw.elim
    obtain ⟨parent, hw⟩ := hw
    show Created d v₀ t₀ dir w.volume
    rw [hw]
    refine ⟨?_, hout _ fun m hhas y hy => ?_⟩
    · simpa using hnew.inv_withContents h he hx hzero
    · have hyx : y ≠ hint.toNat := fun heq => h.not_mem_of_free hzero hhas (heq ▸ hy)
      exact untouched_withContents hyx (h.isCluster hhas hy).1 hx.1
  · refine (createContents_invalid hx hp hs).conseq (fun w hw => hw.2) (fun _ _ hw => hw.elim)
      fun w hw => ?_
    show Created d v₀ t₀ dir w.volume
    rw [hw]
    refine ⟨hnew.inv_placed h he ?_, hout _ fun _ _ y _ => .refl _ y⟩
    rw [DirEntry.new_fstClus]
    exact hx

theorem fatCreateDirectoryEntry_spec (h : Inv d v₀ t₀) (hdir : t₀.has dir)
    (hd : v₀.isDirectory d dir = true) (hc : d.IsCluster (v₀.firstCluster d dir))
    (hparent : args.parentSector = .ok (d.sectorOf (v₀.firstCluster d dir)))
    (hfree : TakesHint d v₀ dir args → d.IsCluster v₀.fsInfo.nxtFree.toNat →
      clusterOf (v₀.fat v₀.fsInfo.nxtFree.toNat) = 0 ∧ ∀ r t, o r .createContents t = true) :
    Triple (AtWith o (· = v₀)) (fatCreateDirectoryEntry d fuel args)
      (fun _ => At (Created d v₀ t₀ dir)) (At (Created d v₀ t₀ dir)) := by
  have hs := d.inCluster_sectorOf (v₀.firstCluster d dir)
  have hkeep : ∀ v, v = v₀ → Created d v₀ t₀ dir v := by
    intro v hv
    rw [hv]
    exact .refl h
  have hchain := h.fatChain hdir (h.firstCluster_mem hdir hc)
  unfold fatCreateDirectoryEntry
  rw [hparent]
  dsimp only
  rw [Prog.pure_bind]
  refine .ite (fun _ => .bind (Q := fun _ _ => False) (.fail fun w hw => hkeep _ hw.2)
    fun _ _ _ _ hw => hw.elim) fun hname => ?_
  rw [clusterOfSector_eq hc hs, Prog.pure_bind]
  refine .bind ((preserves_lastClusterOf.triple (lastClusterOf_spec hchain)).conseq (fun _ => id)
    (fun _ _ => id) fun w hw => hkeep _ hw) fun last => ?_
  by_cases hl : ∃ l, t₀.chain dir = l ++ [last]
  swap
  · intro w _ _ hw
    exact absurd hw.2.2 hl
  obtain ⟨l, hl⟩ := hl
  have hlast : last ∈ t₀.chain dir := by simp [hl]
  rw [firstSectorOfCluster_eq (h.isCluster hdir hlast), Prog.pure_bind]
  refine .bind ((exAllocatePool_with hkeep).pre fun w hw => ⟨hw.1, hw.2.1⟩) fun _ =>
    .bind (ioDevice_with hkeep) fun _ => volume_bind_with fun v hv => ?_
  subst hv
  generalize hslot : findFreeSlot d v (d.sectorOf last) _ _ = slot
  cases slot with
  | none => exact .fail fun w hw => hkeep _ hw.2
  | some k =>
    obtain ⟨hstart, hlt, hisFree⟩ := findFreeSlot_eq hslot
    have hk : k < d.entriesPerCluster := by
      have hle : startOf d last ≤ d.entriesPerCluster := by
        refine (?_ : startOf d last ≤ 2).trans (two_le_entriesPerCluster d)
        unfold startOf
        split_ifs <;> omega
      change k < startOf d last + (d.entriesPerCluster - startOf d last) at hlt
      lia
    refine .bind (exAllocatePool_with hkeep) fun _ => .bind (ioDevice_with hkeep) fun _ =>
      volume_bind_with fun u hu => ?_
    subst hu
    refine .ite (fun _ => .fail fun w hw => hkeep _ hw.2) fun hcount => ?_
    generalize FsInfo.mk u.fsInfo.leadSig u.fsInfo.strucSig (u.fsInfo.freeCount - 1)
      (u.fsInfo.nxtFree + 1) u.fsInfo.trailSig = info
    refine .bind (ioDevice_with hkeep) fun _ => .bind (setVolume_with
      (Q := (· = { u with fsInfo := info })) fun v hv => hv ▸ rfl) fun _ => ?_
    refine .bind (ioDevice_with fun v hv => hv ▸ .fsInfo h info) fun _ => .bind (setVolume_with
      (Q := (· = Volume.setEntryAt d { u with fsInfo := info } (d.sectorOf last) k
        (.new args.name args.fileAttributes u.fsInfo.nxtFree args.now))) fun v hv => hv ▸ rfl)
      fun _ => ?_
    exact createContents_created h hdir hd hlast hk hisFree rfl rfl hc hs
      (hfree ⟨by simpa using hname, hcount, l, last, k, hl ▸ hchain, hstart, hk, hisFree⟩)

end Call

end HAL9000.Fat32
