import HAL9000.Fat32.Creating
import HAL9000.Lib.Run

/-! Runs of `FatWriteFile` and `FatCreateDirectoryEntry` calls. A call that extends a chain leaves the
cluster it has taken in FSInfo as the next free one, and a call to create an entry takes the next free
cluster as it is. -/
namespace HAL9000.Fat32

open Chain Program Run

variable (d : FatData)

/-- The arguments of `FatWriteFile`; the sectors of the file and of its entry are those the search for
the file returned. -/
structure WriteArgs where
  baseFileSector : ℕ
  sectorOffset : ℕ
  dirEntrySector : ℕ
  buffer : ℕ → ℕ → DirEntry
  sectorsToWrite : ℕ
  now : DateTime

inductive FatCall
  | write (args : WriteArgs)
  | create (args : CreateArgs)

/-- A call, the outcomes of its requests and the error it returns, if any. -/
structure FatLabel where
  call : FatCall
  outcome : Outcome
  status : Option FatStatus

/-- The volume a program leaves and the error it returns. -/
def runFat {α : Type} (x : FatM α) (v : Volume) (o : Outcome) : Option (Option FatStatus × Volume) :=
  match x ⟨v, 0, o⟩ with
  | .error _ => none
  | .ok (.error status, w) => some (some status, w.volume)
  | .ok (.ok _, w) => some (none, w.volume)

def callFat (fuel : ℕ) (v : Volume) (o : Outcome) : FatCall → Option (Option FatStatus × Volume)
  | .write args =>
    runFat (fatWriteFile d args.baseFileSector args.sectorOffset args.dirEntrySector args.buffer
      args.sectorsToWrite args.now) v o
  | .create args => runFat (fatCreateDirectoryEntry d fuel args) v o

def nextFat (fuel : ℕ) (v : Volume) (a : FatLabel) : Option Volume :=
  (callFat d fuel v a.outcome a.call).bind fun r => if r.1 = a.status then some r.2 else none

/-- What the search for a path gives a call: a file and the cluster of its entry, or a directory. -/
def Ready (v : Volume) : FatCall → Prop
  | .write args => ∃ c k, v.OnVolume d (.slot c k) ∧ v.isDirectory d (.slot c k) = false ∧
      d.IsCluster (v.firstCluster d (.slot c k)) ∧
      args.baseFileSector = d.sectorOf (v.firstCluster d (.slot c k)) ∧
      args.dirEntrySector = d.sectorOf c
  | .create args => ∀ s, args.parentSector = .ok s → ∃ n, v.OnVolume d n ∧
      v.isDirectory d n = true ∧ d.IsCluster (v.firstCluster d n) ∧
      s = d.sectorOf (v.firstCluster d n)

def FatStep (v : Volume) (a : FatLabel) (v' : Volume) : Prop :=
  Ready d v a.call ∧ ∃ fuel, nextFat d fuel v a = some v'

/-- A new entry takes a cluster that is free, and nothing fails after the entry has been written. -/
def HintFree (v : Volume) (a : FatLabel) : Prop :=
  match a.call with
  | .write _ => True
  | .create args => ∀ n, args.parentSector = .ok (d.sectorOf (v.firstCluster d n)) →
      TakesHint d v n args → d.IsCluster v.fsInfo.nxtFree.toNat →
      clusterOf (v.fat v.fsInfo.nxtFree.toNat) = 0 ∧ ∀ r t, a.outcome r .createContents t = true

/-- What a call may change in a cluster of `m`: in the file that is written to all of it, in a directory
the size and dates of the entry of that file, or a free slot for the new entry. -/
inductive Allowed (v v' : Volume) : FatCall → Node → ℕ → Prop
  | untouched {call : FatCall} {m : Node} {c : ℕ} (h : Untouched d v v' c) : Allowed v v' call m c
  | file {args : WriteArgs} {m : Node} {c : ℕ}
      (hs : args.baseFileSector = d.sectorOf (v.firstCluster d m)) : Allowed v v' (.write args) m c
  | entry {args : WriteArgs} {m : Node} {c i : ℕ} (hs : args.dirEntrySector = d.sectorOf c)
      (h : OneRecord d v v' c i) (hsame : SameEntry (v.slotEntry d c i) (v'.slotEntry d c i)) :
      Allowed v v' (.write args) m c
  | newEntry {args : CreateArgs} {m : Node} {c i : ℕ}
      (hs : args.parentSector = .ok (d.sectorOf (v.firstCluster d m)))
      (h : OneRecord d v v' c i) (hfree : (v.slotEntry d c i).isFree = true) :
      Allowed v v' (.create args) m c

/-- The clusters of the other files and directories are not written to. -/
def KeepsOthers (v : Volume) (call : FatCall) (v' : Volume) : Prop :=
  ∀ m c, v.AllocatedTo d m c → Allowed d v v' call m c

variable {d}

section Step

variable {v v' : Volume} {a : FatLabel} {fuel : ℕ}

theorem runFat_of_triple {α : Type} {x : FatM α} {o : Outcome} {P : Volume → Prop}
    {r : Option FatStatus × Volume}
    (h : Triple (AtWith o (· = v)) x (fun _ => At P) (At P)) (hr : runFat x v o = some r) : P r.2 := by
  unfold runFat at hr
  cases hx : x ⟨v, 0, o⟩ with
  | error e => simp [hx] at hr
  | ok res =>
    obtain ⟨res, w⟩ := res
    have hres := h ⟨v, 0, o⟩ res w ⟨rfl, rfl⟩ hx
    cases res with
    | error status =>
      obtain rfl : (some status, w.volume) = r := by simpa [hx] using hr
      exact hres
    | ok b =>
      obtain rfl : (none, w.volume) = r := by simpa [hx] using hr
      exact hres

theorem nextFat_eq (h : nextFat d fuel v a = some v') :
    callFat d fuel v a.outcome a.call = some (a.status, v') := by
  obtain ⟨r, hr, hv⟩ := Option.bind_eq_some_iff.mp h
  split_ifs at hv with hst
  obtain rfl := Option.some.inj hv
  rw [hr, ← hst]

/-- One call from a volume that a table describes. -/
theorem fatStep_spec {t : Table} (hi : Inv d v t) (ha : HintFree d v a) (hs : FatStep d v a v') :
    (∃ t', Inv d v' t') ∧ KeepsOthers d v a.call v' := by
  obtain ⟨hready, fuel, hnext⟩ := hs
  have hrun := nextFat_eq hnext
  unfold HintFree at ha
  cases hcall : a.call with
  | write args =>
    simp only [hcall, callFat] at hready hrun
    obtain ⟨e, k, hon, hfile, hc, hbase, hentry⟩ := hready
    rw [hbase, hentry] at hrun
    have hn := hi.has_of_onVolume hon
    obtain ⟨hinv, hout⟩ := runFat_of_triple
      ((fatWriteFile_spec hi hn hfile hc).pre fun w hw => hw.2) hrun
    refine ⟨hinv, fun m c hm => ?_⟩
    obtain ⟨hhas, hmem⟩ := hi.mem_of_allocatedTo hm
    by_cases hmn : m = .slot e k
    · exact .file (hmn ▸ hbase)
    · rcases hout m hmn hhas c hmem with hu | ⟨rfl, i, hrec, hsame⟩
      · exact .untouched hu
      · exact .entry hentry hrec hsame
  | create args =>
    simp only [hcall, callFat] at hready hrun ha
    cases hparent : args.parentSector with
    | error status =>
      have hfail : fatCreateDirectoryEntry d fuel args = Prog.fail status := by
        unfold fatCreateDirectoryEntry
        rw [hparent]
        rfl
      rw [hfail] at hrun
      have hv := runFat_of_triple (P := (· = v)) (.fail fun w hw => hw.2) hrun
      obtain rfl : v' = v := hv
      exact ⟨⟨t, hi⟩, fun _ c _ => .untouched (.refl v' c)⟩
    | ok s =>
      obtain ⟨dir, hon, hdir, hc, rfl⟩ := hready s hparent
      have hn := hi.has_of_onVolume hon
      obtain ⟨hinv, hout⟩ := runFat_of_triple
        (fatCreateDirectoryEntry_spec hi hn hdir hc hparent (ha dir hparent)) hrun
      refine ⟨hinv, fun m c hm => ?_⟩
      obtain ⟨hhas, hmem⟩ := hi.mem_of_allocatedTo hm
      rcases hout m hhas c hmem with hu | ⟨rfl, i, hrec, hfree⟩
      · exact .untouched hu
      · exact .newEntry hparent hrec hfree

end Step

/-- When every new entry takes a free cluster, no two files or directories ever share one, and no call
writes to the clusters of another. -/
theorem always_noSharedCluster {v₀ v : Volume} {tr : List (Volume × FatLabel)}
    (h₀ : v₀.Consistent d) (h : Exec (FatStep d) v₀ tr v) (hq : ∀ s ∈ tr, HintFree d s.1 s.2) :
    Always (·.NoSharedCluster d) tr v ∧
      ∀ s ∈ tr, ∀ v', FatStep d s.1 s.2 v' → KeepsOthers d s.1 s.2.call v' := by
  obtain ⟨t₀, hi₀, -⟩ := Inv.of_consistent h₀
  have hinv : Always (fun v => ∃ t, Inv d v t) tr v := by
    refine h.always_of_steps ⟨t₀, hi₀⟩ (fun v a v' hv ha hs => ?_) hq
    obtain ⟨t, hi⟩ := hv
    exact (fatStep_spec hi ha hs).1
  refine ⟨hinv.mono fun v hv => hv.elim fun t hi => hi.noSharedCluster, fun s hs v' hstep => ?_⟩
  obtain ⟨t, hi⟩ := hinv.1 s hs
  exact (fatStep_spec hi (hq s hs) hstep).2

section OneFile

def smallDisk : FatData where
  countOfClusters := 65525
  rootCluster := 2
  reservedSectors := 32
  firstDataSector := 1056
  sectorsPerCluster := 1
  bytesPerSector := 512
  countOfClusters_ge := by decide
  countOfClusters_lt := by decide
  rootCluster_ge := by decide
  rootCluster_le := by decide
  sectorsPerCluster_pos := by decide
  bytesPerSector_ge := by decide
  bytesPerSector_dvd := by decide
  reservedSectors_ge := by decide
  table_fits := by decide
  sectors_lt := by decide

def noon : DateTime := ⟨0x5A21, 0x6000⟩

/-- The root directory is cluster 2 and has a file of one cluster, cluster 3; cluster 4 is free. -/
def oneFile : Volume where
  fat := fun c => if c < 4 then fat32EocMark else 0
  fsInfo := .signed 100 4
  data := fun s i => if s = 1056 ∧ i = 2 then DirEntry.new (fun _ => 0x41) 0x20 3 noon else .zero

/-- Two sectors are written to the file, which extends it. -/
def writeTwo : FatLabel :=
  ⟨.write ⟨1057, 0, 1056, fun _ _ => .zero, 2, noon⟩, fun _ _ _ => true, none⟩

def createFile : FatLabel :=
  ⟨.create ⟨.ok 1056, false, fun _ => 0x42, 0x20, noon⟩, fun _ _ _ => true, none⟩

private theorem oneFile_live {k : ℕ} (hk : k < smallDisk.entriesPerCluster)
    (hlive : (oneFile.slotEntry smallDisk 2 k).isLive = true) : k = 2 := by
  by_contra hne
  have hk16 : k < 16 := hk
  have hzero : oneFile.slotEntry smallDisk 2 k = .zero :=
    if_neg fun heq => hne (by
      have hmod : k % 16 = 2 := heq.2
      lia)
  rw [hzero] at hlive
  exact absurd hlive (by decide)

private theorem oneFile_chain {c : ℕ} (hc : c = 2 ∨ c = 3) : FatChain smallDisk oneFile c [c] := by
  refine ⟨.last ?_, fun x hx => ?_⟩
  · rcases hc with rfl | rfl <;> decide
  · rw [List.mem_singleton.mp hx]
    rcases hc with rfl | rfl <;> exact ⟨by decide, by decide⟩

private theorem oneFile_onVolume {n : Node} (hn : oneFile.OnVolume smallDisk n) :
    n = .root ∨ n = .slot 2 2 := by
  induction hn with
  | root => exact Or.inl rfl
  | slot _ hdir hl hc hk _ hlive ih =>
    rcases ih with rfl | rfl
    · obtain rfl := hl.unique (oneFile_chain (Or.inl rfl))
      obtain rfl := List.mem_singleton.mp hc
      rw [oneFile_live hk hlive]
      exact Or.inr rfl
    · exact absurd hdir (by decide)

private theorem oneFile_firstCluster {n : Node} (hn : oneFile.OnVolume smallDisk n) :
    ∃ c, (c = 2 ∨ c = 3) ∧ oneFile.firstCluster smallDisk n = c ∧ (n = .root ↔ c = 2) := by
  rcases oneFile_onVolume hn with rfl | rfl
  · exact ⟨2, Or.inl rfl, rfl, by simp⟩
  · exact ⟨3, Or.inr rfl, by decide, by simp⟩

theorem oneFile_consistent : oneFile.Consistent smallDisk where
  chains n hn _ := by
    obtain ⟨c, hc, heq, -⟩ := oneFile_firstCluster hn
    rw [heq]
    exact ⟨[c], oneFile_chain hc⟩
  apart n m x hn hm := by
    obtain ⟨hn, l, hl, hx⟩ := hn
    obtain ⟨hm, l', hl', hx'⟩ := hm
    obtain ⟨c, hc, heq, hroot⟩ := oneFile_firstCluster hn
    obtain ⟨c', hc', heq', hroot'⟩ := oneFile_firstCluster hm
    rw [heq] at hl
    rw [heq'] at hl'
    obtain rfl := hl.unique (oneFile_chain hc)
    obtain rfl := hl'.unique (oneFile_chain hc')
    obtain rfl : c = c' := (List.mem_singleton.mp hx).symm.trans (List.mem_singleton.mp hx')
    rcases oneFile_onVolume hn with rfl | rfl
    · exact (hroot'.mpr (hroot.mp rfl)).symm
    · rcases oneFile_onVolume hm with rfl | rfl
      · exact hroot.mpr (hroot'.mp rfl)
      · rfl
  dots n hn hne hdir := by
    rcases oneFile_onVolume hn with rfl | rfl
    · exact absurd rfl hne
    · exact absurd hdir (by decide)

/-- The volume after the file was extended to cluster 4, which stays the next free one. -/
def extended : Volume := (nextFat smallDisk 3 oneFile writeTwo).get (by decide +kernel)

def crossLinked : Volume := (nextFat smallDisk 3 extended createFile).get (by decide +kernel)

private theorem oneFile_file : oneFile.OnVolume smallDisk (.slot 2 2) :=
  .slot .root rfl (oneFile_chain (Or.inl rfl)) (by decide) (by decide) (fun hdot => hdot.1 rfl)
    (by decide)

private theorem smallDisk_root (v : Volume) (s : ℕ)
    (hs : (Except.ok 1056 : Except FatStatus ℕ) = .ok s) :
    ∃ n, v.OnVolume smallDisk n ∧ v.isDirectory smallDisk n = true ∧
      smallDisk.IsCluster (v.firstCluster smallDisk n) ∧
      s = smallDisk.sectorOf (v.firstCluster smallDisk n) := by
  obtain rfl := Except.ok.inj hs
  exact ⟨.root, .root, rfl, ⟨smallDisk.rootCluster_ge, smallDisk.rootCluster_le⟩, rfl⟩

theorem writeTwo_step : FatStep smallDisk oneFile writeTwo extended :=
  ⟨⟨2, 2, oneFile_file, by decide, ⟨by decide, by decide⟩, by decide, by decide⟩, 3,
    (Option.some_get _).symm⟩

theorem createFile_step : FatStep smallDisk extended createFile crossLinked :=
  ⟨smallDisk_root extended, 3, (Option.some_get _).symm⟩

private theorem crossLinked_allocated {k c first : ℕ} {l : List ℕ} (hk : k < 16)
    (hlive : (crossLinked.slotEntry smallDisk 2 k).isLive = true)
    (hfirst : crossLinked.firstCluster smallDisk (.slot 2 k) = first)
    (hl : FatChain smallDisk crossLinked first l) (hc : c ∈ l) :
    crossLinked.AllocatedTo smallDisk (.slot 2 k) c := by
  subst hfirst
  refine ⟨.slot .root rfl (l := [2]) ⟨.last (by decide +kernel), fun x hx => ?_⟩ (by simp) hk
    (fun hdot => hdot.1 rfl) hlive, l, hl, hc⟩
  rw [List.mem_singleton.mp hx]
  exact ⟨le_rfl, by decide⟩

/-- The file is extended to cluster 4, and then the new file is given cluster 4. -/
theorem cluster_shared : oneFile.Consistent smallDisk ∧ Exec (FatStep smallDisk) oneFile
      [(oneFile, writeTwo), (extended, createFile)] crossLinked ∧
    writeTwo.status = none ∧ createFile.status = none ∧ ¬crossLinked.NoSharedCluster smallDisk := by
  refine ⟨oneFile_consistent, .cons writeTwo_step (.cons createFile_step .nil), rfl, rfl,
    fun hshare => ?_⟩
  · have h34 : FatChain smallDisk crossLinked 3 [3, 4] :=
      ⟨.link (b := 4) (by decide +kernel) (.last (by decide +kernel)), by
        unfold FatData.IsCluster
        decide⟩
    have h4 : FatChain smallDisk crossLinked 4 [4] :=
      ⟨.last (by decide +kernel), by
        unfold FatData.IsCluster
        decide⟩
    have heq := hshare (.slot 2 2) (.slot 2 3) 4
      (crossLinked_allocated (by decide) (by decide +kernel) (by decide +kernel) h34 (by decide))
      (crossLinked_allocated (by decide) (by decide +kernel) (by decide +kernel) h4 (by decide))
    cases heq

/-- Cluster 4 is still free when a file is created first. -/
theorem noSharedCluster_of_createFirst :
    ∃ v, FatStep smallDisk oneFile createFile v ∧ v.NoSharedCluster smallDisk := by
  have hstep : FatStep smallDisk oneFile createFile
      ((nextFat smallDisk 3 oneFile createFile).get (by decide +kernel)) :=
    ⟨smallDisk_root oneFile, 3, (Option.some_get _).symm⟩
  refine ⟨_, hstep, (always_noSharedCluster oneFile_consistent (.cons hstep .nil) fun s hs => ?_).1.2⟩
  obtain rfl := List.mem_singleton.mp hs
  exact fun _ _ _ _ => ⟨by decide, fun _ _ => rfl⟩

end OneFile

end HAL9000.Fat32
