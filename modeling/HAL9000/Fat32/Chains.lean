import HAL9000.Fat32.Operations
import HAL9000.Lib.Chain

/-! The files and directories of a FAT32 volume and their cluster chains. -/
namespace HAL9000.Fat32

open Chain

variable (d : FatData)

namespace FatData

def IsCluster (c : ℕ) : Prop := 2 ≤ c ∧ c ≤ d.countOfClusters + 1

/-- The sector belongs to the cluster. -/
def InCluster (c s : ℕ) : Prop := d.sectorOf c ≤ s ∧ s < d.sectorOf c + d.sectorsPerCluster

def entriesPerCluster : ℕ := d.entriesPerSector * d.sectorsPerCluster

end FatData

/-- The cluster that follows in a chain; a bad cluster ends it like the end mark. -/
def Volume.nextCluster (v : Volume) (c : ℕ) : Option ℕ :=
  if fat32BadCluster ≤ clusterOf (v.fat c) then none else some (clusterOf (v.fat c))

/-- The clusters of a chain, from its first one. -/
structure FatChain (v : Volume) (c : ℕ) (l : List ℕ) : Prop where
  chain : IsChain v.nextCluster c l
  cluster : ∀ x ∈ l, d.IsCluster x

/-- A file or directory: the root, or the one of an entry in a cluster of a directory. -/
inductive Node
  | root
  | slot (cluster index : ℕ)
  deriving DecidableEq, Repr

namespace DirEntry

/-- An entry that is in use and stands for a file or a directory. -/
def isLive (e : DirEntry) : Bool := !e.isFree && e.attr &&& attrVolumeId == 0

def isDirectory (e : DirEntry) : Bool := e.attr &&& (attrDirectory ||| attrVolumeId) == attrDirectory

end DirEntry

namespace Volume

def slotEntry (v : Volume) (c k : ℕ) : DirEntry := v.entryAt d (d.sectorOf c) k

def firstCluster (v : Volume) : Node → ℕ
  | .root => d.rootCluster
  | .slot c k => (v.slotEntry d c k).fstClus.toNat

def isDirectory (v : Volume) : Node → Bool
  | .root => true
  | .slot c k => (v.slotEntry d c k).isDirectory

/-- The first two entries of a directory other than the root are for itself and for its parent. -/
def IsDot (v : Volume) (n : Node) (c k : ℕ) : Prop := n ≠ .root ∧ c = v.firstCluster d n ∧ k < 2

/-- The files and directories that are reached from the root. -/
inductive OnVolume (v : Volume) : Node → Prop
  | root : OnVolume v .root
  | slot {n : Node} {l : List ℕ} {c k : ℕ} (hn : OnVolume v n) (hdir : v.isDirectory d n = true)
      (hl : FatChain d v (v.firstCluster d n) l) (hc : c ∈ l) (hk : k < d.entriesPerCluster)
      (hdot : ¬v.IsDot d n c k) (hlive : (v.slotEntry d c k).isLive = true) :
      OnVolume v (.slot c k)

/-- The cluster belongs to the chain of the file or directory. -/
def AllocatedTo (v : Volume) (n : Node) (c : ℕ) : Prop :=
  v.OnVolume d n ∧ ∃ l, FatChain d v (v.firstCluster d n) l ∧ c ∈ l

/-- No two files or directories share a cluster. -/
def NoSharedCluster (v : Volume) : Prop :=
  ∀ n m c, v.AllocatedTo d n c → v.AllocatedTo d m c → n = m

/-- A consistent image. An entry may have no first cluster; one that has has a chain. -/
structure Consistent (v : Volume) : Prop where
  chains : ∀ n, v.OnVolume d n → d.IsCluster (v.firstCluster d n) →
    ∃ l, FatChain d v (v.firstCluster d n) l
  apart : v.NoSharedCluster d
  dots : ∀ n, v.OnVolume d n → n ≠ .root → v.isDirectory d n = true →
    d.IsCluster (v.firstCluster d n) → ∀ k < 2, (v.slotEntry d (v.firstCluster d n) k).isFree = false

end Volume

section Addressing

theorem clusterOf_setCluster {x y : DWORD} (hy : y.toNat < 2 ^ 28) :
    clusterOf (setCluster x y) = y.toNat := by
  have hmask : setCluster x y &&& fat32ClusterMask = y &&& fat32ClusterMask := by
    unfold setCluster
    ext i hi
    simp only [BitVec.getElem_and, BitVec.getElem_or, BitVec.getElem_not]
    cases x[i] <;> cases y[i] <;> cases fat32ClusterMask[i] <;> rfl
  rw [clusterOf, hmask, BitVec.toNat_and]
  exact (Nat.and_two_pow_sub_one_eq_mod y.toNat 28).trans (Nat.mod_eq_of_lt hy)

variable {d} {c x y s k : ℕ}

private theorem bytesPerSector_eq (d : FatData) : d.bytesPerSector = d.bytesPerSector / 4 * 4 := by
  have hdvd := d.bytesPerSector_dvd
  lia

theorem fatEntry_eq (d : FatData) (c : ℕ) :
    d.fatEntry (d.reservedSectors + c * 4 / d.bytesPerSector) (c % (d.bytesPerSector / 4)) = c := by
  have hdiv : c * 4 / d.bytesPerSector = c / (d.bytesPerSector / 4) := by
    rw [bytesPerSector_eq d, Nat.mul_div_mul_right _ _ (by omega)]
    simp
  rw [FatGeometry.fatEntry, hdiv, Nat.add_sub_cancel_left]
  exact Nat.div_add_mod' ..

theorem byteIndex_eq (d : FatData) (c : ℕ) :
    c * 4 % d.bytesPerSector / 4 = c % (d.bytesPerSector / 4) := by
  rw [bytesPerSector_eq d, Nat.mul_mod_mul_right]
  simp

theorem two_le_entriesPerCluster (d : FatData) : 2 ≤ d.entriesPerCluster := by
  have hge := d.bytesPerSector_ge
  have hsector : 2 ≤ d.entriesPerSector := by
    unfold FatData.entriesPerSector
    omega
  exact hsector.trans (Nat.le_mul_of_pos_right _ d.sectorsPerCluster_pos)

/-- The cluster of a sector. -/
theorem FatData.InCluster.div_eq (h : d.InCluster c s) (hc : 2 ≤ c) :
    (s - d.firstDataSector) / d.sectorsPerCluster + 2 = c := by
  obtain ⟨h₁, h₂⟩ := h
  unfold sectorOf at h₁ h₂
  have hdiv : (s - d.firstDataSector) / d.sectorsPerCluster = c - 2 := by
    refine Nat.div_eq_of_lt_le ?_ ?_
    · lia
    · have hsucc : (c - 2 + 1) * d.sectorsPerCluster =
        (c - 2) * d.sectorsPerCluster + d.sectorsPerCluster := Nat.succ_mul ..
      lia
  omega

theorem FatData.InCluster.unique (hx : d.InCluster x s) (hy : d.InCluster y s) (hx₂ : 2 ≤ x)
    (hy₂ : 2 ≤ y) : x = y :=
  (hx.div_eq hx₂).symm.trans (hy.div_eq hy₂)

theorem FatData.InCluster.sector_lt (h : d.InCluster c s) (hc : d.IsCluster c) : s < 2 ^ 32 := by
  obtain ⟨h₁, h₂⟩ := h
  obtain ⟨hc₁, hc₂⟩ := hc
  have hlt := d.sectors_lt
  have hle : (c - 2 + 1) * d.sectorsPerCluster ≤ d.countOfClusters * d.sectorsPerCluster :=
    Nat.mul_le_mul_right _ (by omega)
  have hsucc : (c - 2 + 1) * d.sectorsPerCluster =
    (c - 2) * d.sectorsPerCluster + d.sectorsPerCluster := Nat.succ_mul ..
  unfold sectorOf at h₂
  lia

/-- The record of a slot lies in the cluster. -/
theorem inCluster_slot (hk : k < d.entriesPerCluster) :
    d.InCluster c (d.sectorOf c + k / d.entriesPerSector) := by
  have hlt : k / d.entriesPerSector < d.sectorsPerCluster :=
    Nat.div_lt_of_lt_mul hk
  exact ⟨Nat.le_add_right .., Nat.add_lt_add_left hlt _⟩

theorem setEntryAt_data {v : Volume} {index : ℕ} {e : DirEntry} (hi : index < d.entriesPerCluster)
    (hs : ¬d.InCluster c s) : (v.setEntryAt d (d.sectorOf c) index e).data s = v.data s := by
  have hne : s ≠ d.sectorOf c + index / d.entriesPerSector := by
    intro heq
    rw [heq] at hs
    exact hs (inCluster_slot hi)
  exact Function.update_of_ne hne ..

/-- One slot of a cluster gets a new entry. -/
theorem slotEntry_setEntryAt {v : Volume} {index : ℕ} {e : DirEntry}
    (hi : index < d.entriesPerCluster) (hk : k < d.entriesPerCluster) (hx : 2 ≤ x) (hc : 2 ≤ c) :
    (v.setEntryAt d (d.sectorOf c) index e).slotEntry d x k =
      if x = c ∧ k = index then e else v.slotEntry d x k := by
  by_cases hxc : x = c
  · subst hxc
    unfold Volume.slotEntry Volume.entryAt Volume.setEntryAt
    dsimp only
    by_cases hdiv : k / d.entriesPerSector = index / d.entriesPerSector
    · rw [hdiv, Function.update_self]
      by_cases hmod : k % d.entriesPerSector = index % d.entriesPerSector
      · have heq : k = index := by
          rw [← Nat.div_add_mod' k d.entriesPerSector, hdiv, hmod, Nat.div_add_mod']
        rw [hmod, Function.update_self, if_pos ⟨rfl, heq⟩]
      · have hne : k ≠ index := fun heq => hmod (by rw [heq])
        rw [Function.update_of_ne hmod, if_neg fun h => hne h.2]
    · have hne : k ≠ index := fun heq => hdiv (by rw [heq])
      rw [Function.update_of_ne (fun h => hdiv (Nat.add_left_cancel h)), if_neg fun h => hne h.2]
  · rw [if_neg fun h => hxc h.1]
    unfold Volume.slotEntry Volume.entryAt
    rw [setEntryAt_data hi fun hin => hxc ((inCluster_slot hk).unique hin hx hc)]

end Addressing

end HAL9000.Fat32
