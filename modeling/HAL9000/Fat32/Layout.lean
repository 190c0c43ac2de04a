import HAL9000.Fat32.Chains

/-! The invariant of a volume: a table of the files and directories with their chains, which no two
of them share. -/
namespace HAL9000.Fat32

open Chain

variable {d : FatData}

/-- The files and directories, each with the clusters of its chain. -/
structure Table where
  has : Node → Prop
  chain : Node → List ℕ

/-- The table describes the volume. -/
structure Inv (d : FatData) (v : Volume) (t : Table) : Prop where
  root : t.has .root
  slot : ∀ n, t.has n → v.isDirectory d n = true → ∀ c ∈ t.chain n, ∀ k < d.entriesPerCluster,
    ¬v.IsDot d n c k → (v.slotEntry d c k).isLive = true → t.has (.slot c k)
  inDirectory : ∀ c k, t.has (.slot c k) → k < d.entriesPerCluster ∧
    (v.slotEntry d c k).isLive = true ∧ ∃ n, t.has n ∧ v.isDirectory d n = true ∧ c ∈ t.chain n
  chain : ∀ n, t.has n → FatChain d v (v.firstCluster d n) (t.chain n) ∨
    ¬d.IsCluster (v.firstCluster d n) ∧ t.chain n = []
  apart : ∀ n m c, t.has n → t.has m → c ∈ t.chain n → c ∈ t.chain m → n = m
  dots : ∀ n, t.has n → n ≠ .root → v.isDirectory d n = true → d.IsCluster (v.firstCluster d n) →
    ∀ k < 2, (v.slotEntry d (v.firstCluster d n) k).isFree = false

/-- What a volume keeps of an entry when the file is written to. -/
structure SameEntry (e e' : DirEntry) : Prop where
  name : e'.name = e.name
  attr : e'.attr = e.attr
  fstClus : e'.fstClus = e.fstClus

theorem SameEntry.refl (e : DirEntry) : SameEntry e e := ⟨rfl, rfl, rfl⟩

theorem SameEntry.isFree {e e' : DirEntry} (h : SameEntry e e') : e'.isFree = e.isFree := by
  unfold DirEntry.isFree
  rw [h.name]

theorem SameEntry.isLive {e e' : DirEntry} (h : SameEntry e e') : e'.isLive = e.isLive := by
  unfold DirEntry.isLive
  rw [h.isFree, h.attr]

theorem SameEntry.isDirectory {e e' : DirEntry} (h : SameEntry e e') :
    e'.isDirectory = e.isDirectory := by
  unfold DirEntry.isDirectory
  rw [h.attr]

namespace FatChain

variable {v v' : Volume} {c x : ℕ} {l l' : List ℕ}

theorem unique (h : FatChain d v c l) (h' : FatChain d v c l') : l = l' := h.chain.unique h'.chain

theorem isCluster (h : FatChain d v c l) : d.IsCluster c := h.cluster c h.chain.mem

/-- A cluster of a chain is not free. -/
theorem ne_zero (h : FatChain d v c l) (hx : x ∈ l) : clusterOf (v.fat x) ≠ 0 := by
  intro hzero
  have hnext : v.nextCluster x = some 0 := by simp [Volume.nextCluster, hzero, fat32BadCluster]
  have hmem := h.cluster 0 (h.chain.next_mem hx hnext)
  exact absurd hmem.1 (by omega)

theorem congr (h : FatChain d v c l) (hfat : ∀ x ∈ l, clusterOf (v'.fat x) = clusterOf (v.fat x)) :
    FatChain d v' c l := by
  refine ⟨h.chain.congr fun x hx => ?_, h.cluster⟩
  unfold Volume.nextCluster
  rw [hfat x hx]

end FatChain

namespace Inv

variable {v v' : Volume} {t : Table} {n m : Node} {c k x : ℕ}

theorem fatChain (h : Inv d v t) (hn : t.has n) (hc : c ∈ t.chain n) :
    FatChain d v (v.firstCluster d n) (t.chain n) := by
  rcases h.chain n hn with hl | ⟨-, hnil⟩
  · exact hl
  · simp [hnil] at hc

theorem isCluster (h : Inv d v t) (hn : t.has n) (hc : c ∈ t.chain n) : d.IsCluster c :=
  (h.fatChain hn hc).cluster c hc

/-- The table has all that is on the volume. -/
theorem has_of_onVolume (h : Inv d v t) (hn : v.OnVolume d n) : t.has n := by
  induction hn with
  | root => exact h.root
  | slot _ hdir hl hc hk hdot hlive ih =>
    refine h.slot _ ih hdir _ ?_ _ hk hdot hlive
    rcases h.chain _ ih with hl' | ⟨hnot, -⟩
    · rwa [← hl.unique hl']
    · exact absurd hl.isCluster hnot

theorem mem_of_allocatedTo (h : Inv d v t) (hn : v.AllocatedTo d n c) :
    t.has n ∧ c ∈ t.chain n := by
  obtain ⟨hon, l, hl, hc⟩ := hn
  have hhas := h.has_of_onVolume hon
  refine ⟨hhas, ?_⟩
  rcases h.chain n hhas with hl' | ⟨hnot, -⟩
  · rwa [← hl.unique hl']
  · exact absurd hl.isCluster hnot

theorem noSharedCluster (h : Inv d v t) : v.NoSharedCluster d := by
  intro n m c hn hm
  obtain ⟨hn, hc⟩ := h.mem_of_allocatedTo hn
  obtain ⟨hm, hc'⟩ := h.mem_of_allocatedTo hm
  exact h.apart n m c hn hm hc hc'

/-- The table of a consistent image. -/
theorem of_consistent (h : v.Consistent d) :
    ∃ t, Inv d v t ∧ ∀ n c, v.AllocatedTo d n c → t.has n ∧ c ∈ t.chain n := by
  classical
  let t : Table := ⟨v.OnVolume d, fun n =>
    if hl : ∃ l, FatChain d v (v.firstCluster d n) l then hl.choose else []⟩
  have hchain : ∀ n c, c ∈ t.chain n → FatChain d v (v.firstCluster d n) (t.chain n) := by
    intro n c hc
    by_cases hl : ∃ l, FatChain d v (v.firstCluster d n) l
    · have heq : t.chain n = hl.choose := dif_pos hl
      rw [heq]
      exact hl.choose_spec
    · have heq : t.chain n = [] := dif_neg hl
      simp [heq] at hc
  have hinv : Inv d v t := by
    refine ⟨.root, ?_, ?_, ?_, ?_, h.dots⟩
    · intro n hn hdir c hc k hk hdot hlive
      exact .slot hn hdir (hchain n c hc) hc hk hdot hlive
    · intro c k hn
      cases hn with
      | slot hn hdir hl hc hk _ hlive =>
        have hex : ∃ l, FatChain d v (v.firstCluster d _) l := ⟨_, hl⟩
        have heq : t.chain _ = hex.choose := dif_pos hex
        refine ⟨hk, hlive, _, hn, hdir, ?_⟩
        rw [heq, hex.choose_spec.unique hl]
        exact hc
    · intro n hn
      by_cases hl : ∃ l, FatChain d v (v.firstCluster d n) l
      · have heq : t.chain n = hl.choose := dif_pos hl
        rw [heq]
        exact Or.inl hl.choose_spec
      · exact Or.inr ⟨fun hc => hl (h.chains n hn hc), dif_neg hl⟩
    · intro n m c hn hm hc hc'
      exact h.apart n m c ⟨hn, _, hchain n c hc, hc⟩ ⟨hm, _, hchain m c hc', hc'⟩
  exact ⟨t, hinv, fun n c hn => hinv.mem_of_allocatedTo hn⟩

/-- What two volumes must have in common for a table to describe both. -/
structure Agrees (d : FatData) (v v' : Volume) (t : Table) : Prop where
  fat : ∀ n, t.has n → ∀ c ∈ t.chain n, clusterOf (v'.fat c) = clusterOf (v.fat c)
  entry : ∀ n, t.has n → v.isDirectory d n = true → ∀ c ∈ t.chain n, ∀ k < d.entriesPerCluster,
    SameEntry (v.slotEntry d c k) (v'.slotEntry d c k)

theorem sameEntry (h : Inv d v t) (ha : Agrees d v v' t) (hn : t.has (.slot c k)) :
    SameEntry (v.slotEntry d c k) (v'.slotEntry d c k) := by
  obtain ⟨hk, -, m, hm, hdir, hc⟩ := h.inDirectory c k hn
  exact ha.entry m hm hdir c hc k hk

theorem firstCluster_eq (h : Inv d v t) (ha : Agrees d v v' t) (hn : t.has n) :
    v'.firstCluster d n = v.firstCluster d n := by
  cases n with
  | root => rfl
  | slot c k => exact congrArg BitVec.toNat (h.sameEntry ha hn).fstClus

theorem isDirectory_eq (h : Inv d v t) (ha : Agrees d v v' t) (hn : t.has n) :
    v'.isDirectory d n = v.isDirectory d n := by
  cases n with
  | root => rfl
  | slot c k => exact (h.sameEntry ha hn).isDirectory

theorem isDot_iff (h : Inv d v t) (ha : Agrees d v v' t) (hn : t.has n) :
    v'.IsDot d n c k ↔ v.IsDot d n c k := by
  unfold Volume.IsDot
  rw [h.firstCluster_eq ha hn]

theorem firstCluster_mem (h : Inv d v t) (hn : t.has n) (hc : d.IsCluster (v.firstCluster d n)) :
    v.firstCluster d n ∈ t.chain n := by
  rcases h.chain n hn with hl | ⟨hnot, -⟩
  · exact hl.chain.mem
  · exact absurd hc hnot

/-- Changes outside the chains and to the sizes and dates of entries. -/
theorem frame (h : Inv d v t) (ha : Agrees d v v' t) : Inv d v' t where
  root := h.root
  slot n hn hdir c hc k hk hdot hlive := by
    rw [h.isDirectory_eq ha hn] at hdir
    rw [h.isDot_iff ha hn] at hdot
    rw [(ha.entry n hn hdir c hc k hk).isLive] at hlive
    exact h.slot n hn hdir c hc k hk hdot hlive
  inDirectory c k hn := by
    obtain ⟨hk, hlive, m, hm, hdir, hc⟩ := h.inDirectory c k hn
    refine ⟨hk, ?_, m, hm, ?_, hc⟩
    · rw [(ha.entry m hm hdir c hc k hk).isLive]
      exact hlive
    · rw [h.isDirectory_eq ha hm]
      exact hdir
  chain n hn := by
    rw [h.firstCluster_eq ha hn]
    rcases h.chain n hn with hl | hnone
    · exact Or.inl (hl.congr (ha.fat n hn))
    · exact Or.inr hnone
  apart := h.apart
  dots n hn hne hdir hc k hk := by
    rw [h.isDirectory_eq ha hn] at hdir
    rw [h.firstCluster_eq ha hn] at hc ⊢
    have hkd : k < d.entriesPerCluster := hk.trans_le (two_le_entriesPerCluster d)
    rw [(ha.entry n hn hdir _ (h.firstCluster_mem hn hc) k hkd).isFree]
    exact h.dots n hn hne hdir hc k hk

end Inv

section Data

variable {v v' : Volume}

theorem slotEntry_of_data (h : v'.data = v.data) (c k : ℕ) :
    v'.slotEntry d c k = v.slotEntry d c k := by
  unfold Volume.slotEntry Volume.entryAt
  rw [h]

theorem firstCluster_of_data (h : v'.data = v.data) (n : Node) :
    v'.firstCluster d n = v.firstCluster d n := by
  cases n with
  | root => rfl
  | slot c k => exact congrArg (fun e => e.fstClus.toNat) (slotEntry_of_data h c k)

theorem isDirectory_of_data (h : v'.data = v.data) (n : Node) :
    v'.isDirectory d n = v.isDirectory d n := by
  cases n with
  | root => rfl
  | slot c k => exact congrArg DirEntry.isDirectory (slotEntry_of_data h c k)

end Data

/-- The chain of a file has grown. -/
def Table.extend (t : Table) (n : Node) (l : List ℕ) : Table :=
  ⟨t.has, Function.update t.chain n l⟩

theorem Table.extend_self (t : Table) (n : Node) (l : List ℕ) : (t.extend n l).chain n = l :=
  Function.update_self ..

theorem Table.extend_of_ne (t : Table) {n m : Node} (l : List ℕ) (h : m ≠ n) :
    (t.extend n l).chain m = t.chain m := Function.update_of_ne h ..

section Extend

variable {v v' : Volume} {t : Table} {n : Node} {l : List ℕ} {x y : ℕ}

/-- A cluster that ends a chain of its own is linked to the end of another chain. -/
theorem FatChain.extend {c : ℕ} (h : FatChain d v c (l ++ [x])) (hy : d.IsCluster y)
    (hxy : y ≠ x) (hend : v.nextCluster y = none) (hfat : ∀ c, c ≠ x → v'.fat c = v.fat c)
    (hlink : clusterOf (v'.fat x) = y) : FatChain d v' c (l ++ [x, y]) where
  chain := by
    have hlt : ¬fat32BadCluster ≤ y := by
      have hcount := d.countOfClusters_lt
      have hle := hy.2
      unfold fat32BadCluster
      omega
    refine h.chain.extend (by simp [Volume.nextCluster, hlink, hlt]) ?_ fun z hz => ?_
    · unfold Volume.nextCluster
      rw [hfat y hxy]
      exact hend
    · have hne : z ≠ x := fun heq =>
        (List.nodup_append.mp h.chain.nodup).2.2 z hz x (by simp) heq
      unfold Volume.nextCluster
      rw [hfat z hne]
  cluster z hz := by
    have hsplit : z ∈ l ++ [x] ∨ z = y := by
      simp only [List.mem_append, List.mem_cons, List.not_mem_nil, or_false] at hz ⊢
      tauto
    rcases hsplit with hz | rfl
    · exact h.cluster z hz
    · exact hy

/-- A cluster in no chain is linked to the end of the chain of a file. -/
theorem Inv.extend (h : Inv d v t) (hn : t.has n) (hfile : v.isDirectory d n = false)
    (hl : t.chain n = l ++ [x]) (hy : d.IsCluster y) (hout : ∀ m, t.has m → y ∉ t.chain m)
    (hend : v.nextCluster y = none) (hdata : v'.data = v.data)
    (hfat : ∀ c, c ≠ x → v'.fat c = v.fat c) (hlink : clusterOf (v'.fat x) = y) :
    Inv d v' (t.extend n (l ++ [x, y])) := by
  have hx : x ∈ t.chain n := by simp [hl]
  have hother : ∀ m, v.isDirectory d m = true → m ≠ n := by
    intro m hm heq
    rw [heq, hfile] at hm
    cases hm
  have hmem : ∀ m c, c ∈ (t.extend n (l ++ [x, y])).chain m → c ∈ t.chain m ∨ m = n ∧ c = y := by
    intro m c hc
    by_cases hmn : m = n
    · subst hmn
      rw [t.extend_self] at hc
      rw [hl]
      simp only [List.mem_append, List.mem_cons, List.not_mem_nil, or_false] at hc ⊢
      tauto
    · rw [t.extend_of_ne _ hmn] at hc
      exact Or.inl hc
  refine ⟨h.root, ?_, ?_, ?_, ?_, ?_⟩
  · intro m hm hd c hc k hk hdot hlive
    unfold Volume.IsDot at hdot
    rw [isDirectory_of_data hdata] at hd
    rw [slotEntry_of_data hdata] at hlive
    rw [firstCluster_of_data hdata] at hdot
    rw [t.extend_of_ne _ (hother m hd)] at hc
    exact h.slot m hm hd c hc k hk hdot hlive
  · intro c k hm
    obtain ⟨hk, hlive, p, hp, hd, hc⟩ := h.inDirectory c k hm
    rw [slotEntry_of_data hdata]
    refine ⟨hk, hlive, p, hp, ?_, ?_⟩
    · rw [isDirectory_of_data hdata]
      exact hd
    · rw [t.extend_of_ne _ (hother p hd)]
      exact hc
  · intro m hm
    rw [firstCluster_of_data hdata]
    by_cases hmn : m = n
    · subst hmn
      have hold := h.fatChain hm hx
      rw [hl] at hold
      rw [t.extend_self]
      have hyx : y ≠ x := fun heq => hout m hm (heq ▸ hx)
      exact Or.inl (hold.extend hy hyx hend hfat hlink)
    · rw [t.extend_of_ne _ hmn]
      rcases h.chain m hm with hl' | hnone
      · refine Or.inl (hl'.congr fun z hz => ?_)
        rw [hfat z fun heq => hmn (h.apart m n x hm hn (heq ▸ hz) hx)]
      · exact Or.inr hnone
  · intro m m' c hm hm' hc hc'
    rcases hmem m c hc with hold | ⟨rfl, rfl⟩
    · rcases hmem m' c hc' with hold' | ⟨rfl, rfl⟩
      · exact h.apart m m' c hm hm' hold hold'
      · exact absurd hold (hout m hm)
    · rcases hmem m' c hc' with hold' | ⟨rfl, -⟩
      · exact absurd hold' (hout m' hm')
      · rfl
  · intro m hm hne hd hc k hk
    rw [isDirectory_of_data hdata] at hd
    rw [firstCluster_of_data hdata] at hc ⊢
    rw [slotEntry_of_data hdata]
    exact h.dots m hm hne hd hc k hk

end Extend

/-- A new file or directory, if its entry is one. -/
def Table.insert (t : Table) (n : Node) (isLive : Bool) (l : List ℕ) : Table :=
  ⟨fun m => t.has m ∨ m = n ∧ isLive = true, Function.update t.chain n l⟩

section Insert

variable {v v' : Volume} {t : Table} {p : Node} {c k : ℕ} {l : List ℕ}

private theorem DirEntry.isLive_of_isFree {e : DirEntry} (h : e.isFree = true) :
    e.isLive = false := by
  simp [DirEntry.isLive, h]

/-- The entry of a new file or directory in a free slot of a directory. -/
structure NewEntry (d : FatData) (v v' : Volume) (t : Table) (p : Node) (c k : ℕ) : Prop where
  parent : t.has p
  isDirectory : v.isDirectory d p = true
  mem : c ∈ t.chain p
  index_lt : k < d.entriesPerCluster
  free : (v.slotEntry d c k).isFree = true
  fat : ∀ n, t.has n → ∀ x ∈ t.chain n, clusterOf (v'.fat x) = clusterOf (v.fat x)
  entry : ∀ n, t.has n → v.isDirectory d n = true → ∀ x ∈ t.chain n, ∀ j < d.entriesPerCluster,
    ¬(x = c ∧ j = k) → v'.slotEntry d x j = v.slotEntry d x j

namespace NewEntry

variable (h : NewEntry d v v' t p c k) (hi : Inv d v t)

include h hi

theorem not_has : ¬t.has (.slot c k) := by
  intro hn
  obtain ⟨-, hlive, -⟩ := hi.inDirectory c k hn
  rw [DirEntry.isLive_of_isFree h.free] at hlive
  cases hlive

theorem slotEntry_eq {x j : ℕ} (hn : t.has (.slot x j)) :
    v'.slotEntry d x j = v.slotEntry d x j := by
  obtain ⟨hj, -, n, hn', hdir, hx⟩ := hi.inDirectory x j hn
  refine h.entry n hn' hdir x hx j hj fun heq => h.not_has hi ?_
  rw [← heq.1, ← heq.2]
  exact hn

theorem firstCluster_eq {n : Node} (hn : t.has n) : v'.firstCluster d n = v.firstCluster d n := by
  cases n with
  | root => rfl
  | slot x j => exact congrArg (fun e => e.fstClus.toNat) (h.slotEntry_eq hi hn)

theorem isDirectory_eq {n : Node} (hn : t.has n) : v'.isDirectory d n = v.isDirectory d n := by
  cases n with
  | root => rfl
  | slot x j => exact congrArg DirEntry.isDirectory (h.slotEntry_eq hi hn)

theorem chain_eq (l : List ℕ) (b : Bool) {n : Node} (hn : t.has n) :
    (t.insert (.slot c k) b l).chain n = t.chain n :=
  Function.update_of_ne (fun heq : n = .slot c k => h.not_has hi (heq ▸ hn)) ..

/-- A free slot is not one of the first two of a directory. -/
theorem not_isDot : ¬v.IsDot d p c k := by
  intro hdot
  obtain ⟨hne, hc, hk⟩ := hdot
  have hcluster := hi.isCluster h.parent h.mem
  have hused := hi.dots p h.parent hne h.isDirectory (hc ▸ hcluster) k hk
  rw [← hc, h.free] at hused
  cases hused

theorem inv (hchain : FatChain d v' (v'.firstCluster d (.slot c k)) l ∨
      ¬d.IsCluster (v'.firstCluster d (.slot c k)) ∧ l = [])
    (hout : ∀ n, t.has n → ∀ x ∈ l, x ∉ t.chain n)
    (hsub : ∀ x ∈ l, ∀ j < d.entriesPerCluster, ¬v'.IsDot d (.slot c k) x j →
      (v'.slotEntry d x j).isLive = false)
    (hdots : v'.isDirectory d (.slot c k) = true → d.IsCluster (v'.firstCluster d (.slot c k)) →
      ∀ j < 2, (v'.slotEntry d (v'.firstCluster d (.slot c k)) j).isFree = false) :
    Inv d v' (t.insert (.slot c k) (v'.slotEntry d c k).isLive l) := by
  have hself : (t.insert (.slot c k) (v'.slotEntry d c k).isLive l).chain (.slot c k) = l :=
    Function.update_self ..
  refine ⟨Or.inl hi.root, ?_, ?_, ?_, ?_, ?_⟩
  · intro n hn hdir x hx j hj hdot hlive
    rcases hn with hn | ⟨rfl, -⟩
    · rw [h.chain_eq hi l _ hn] at hx
      rw [h.isDirectory_eq hi hn] at hdir
      by_cases heq : x = c ∧ j = k
      · obtain ⟨rfl, rfl⟩ := heq
        exact Or.inr ⟨rfl, hlive⟩
      · rw [h.entry n hn hdir x hx j hj heq] at hlive
        unfold Volume.IsDot at hdot
        rw [h.firstCluster_eq hi hn] at hdot
        exact Or.inl (hi.slot n hn hdir x hx j hj hdot hlive)
    · rw [hself] at hx
      rw [hsub x hx j hj hdot] at hlive
      cases hlive
  · intro x j hn
    rcases hn with hn | ⟨heq, hlive⟩
    · obtain ⟨hj, hlive, n, hn', hdir, hx⟩ := hi.inDirectory x j hn
      rw [h.slotEntry_eq hi hn]
      refine ⟨hj, hlive, n, Or.inl hn', ?_, ?_⟩
      · rw [h.isDirectory_eq hi hn']
        exact hdir
      · rw [h.chain_eq hi l _ hn']
        exact hx
    · obtain ⟨rfl, rfl⟩ := Node.slot.inj heq
      refine ⟨h.index_lt, hlive, p, Or.inl h.parent, ?_, ?_⟩
      · rw [h.isDirectory_eq hi h.parent]
        exact h.isDirectory
      · rw [h.chain_eq hi l _ h.parent]
        exact h.mem
  · intro n hn
    rcases hn with hn | ⟨rfl, -⟩
    · rw [h.chain_eq hi l _ hn, h.firstCluster_eq hi hn]
      rcases hi.chain n hn with hl | hnone
      · exact Or.inl (hl.congr (h.fat n hn))
      · exact Or.inr hnone
    · rw [hself]
      exact hchain
  · intro n m x hn hm hx hx'
    rcases hn with hn | ⟨rfl, -⟩
    · rw [h.chain_eq hi l _ hn] at hx
      rcases hm with hm | ⟨rfl, -⟩
      · rw [h.chain_eq hi l _ hm] at hx'
        exact hi.apart n m x hn hm hx hx'
      · rw [hself] at hx'
        exact absurd hx (hout n hn x hx')
    · rw [hself] at hx
      rcases hm with hm | ⟨rfl, -⟩
      · rw [h.chain_eq hi l _ hm] at hx'
        exact absurd hx' (hout m hm x hx)
      · rfl
  · intro n hn hne hdir hcluster j hj
    rcases hn with hn | ⟨rfl, -⟩
    · rw [h.isDirectory_eq hi hn] at hdir
      rw [h.firstCluster_eq hi hn] at hcluster ⊢
      have hmem := hi.firstCluster_mem hn hcluster
      have hjd : j < d.entriesPerCluster := hj.trans_le (two_le_entriesPerCluster d)
      have hne' : ¬(v.firstCluster d n = c ∧ j = k) := by
        intro heq
        have hnp := hi.apart n p c hn h.parent (heq.1 ▸ hmem) h.mem
        subst hnp
        exact h.not_isDot hi ⟨hne, heq.1.symm, heq.2 ▸ hj⟩
      rw [h.entry n hn hdir _ hmem j hjd hne']
      exact hi.dots n hn hne hdir hcluster j hj
    · exact hdots hdir hcluster j hj

end NewEntry

end Insert

end HAL9000.Fat32
