import HAL9000.Fat32.Utils
import HAL9000.Io.Partitions
import Mathlib.Data.Nat.Bitwise

/-! `FatInitVolume`: the geometry of a volume is computed from the fields of its boot sector, which are
not checked. -/
namespace HAL9000.Fat32

open HAL9000.Io (STATUS succeeded statusSuccess statusDiskMbrNotPresent mbrBootSignature)

def statusDeviceFilesystemUnsupported : STATUS := 0xE001000C
def statusDeviceClusterInvalid : STATUS := 0xE001000D

def fat12MaxClusters : DWORD := 4085
def fat16MaxClusters : DWORD := 65525

/-- `FAT_BPB`; the signature is in the last two bytes of the sector. -/
structure FatBpb where
  bytsPerSec : WORD
  secPerClus : BYTE
  rsvdSecCnt : WORD
  numFATs : BYTE
  totSec16 : WORD
  fatSz16 : WORD
  totSec32 : DWORD
  fatSz32 : DWORD
  rootClus : DWORD
  signature : WORD

namespace FatBpb

variable (bpb : FatBpb)

def fatSize : DWORD := if bpb.fatSz16 ≠ 0 then bpb.fatSz16.setWidth 32 else bpb.fatSz32

def totalSectors : DWORD := if bpb.totSec16 ≠ 0 then bpb.totSec16.setWidth 32 else bpb.totSec32

/-- The sectors before the data; the product and the sum are `DWORD`s. -/
def firstDataSector : DWORD := bpb.rsvdSecCnt.setWidth 32 + bpb.numFATs.setWidth 32 * bpb.fatSize

def dataSectors : DWORD := bpb.totalSectors - bpb.firstDataSector

end FatBpb

/-- `FAT_DATA`, with whatever values it has. -/
structure FatFields where
  countOfClusters : DWORD
  rootDirectoryStartSector : QWORD
  reservedSectors : DWORD
  firstDataSector : DWORD
  sectorsPerCluster : DWORD
  bytesPerSector : DWORD
  entriesPerSector : DWORD
  allocationSize : DWORD

inductive InitFault
  | divisionByZero
  | deviceAlignment
  deriving DecidableEq, Repr

/-- `FirstSectorOfCluster`. -/
def FatFields.firstSectorOfCluster (f : FatFields) (cluster : QWORD) : Option QWORD :=
  if (f.countOfClusters + 1).setWidth 64 < cluster ∨ cluster < 2 then none
  else some ((cluster - 2) * f.sectorsPerCluster.setWidth 64 + f.firstDataSector.setWidth 64)

def fatInitVolume (read : Except STATUS FatBpb) (deviceAlignment : DWORD) (f : FatFields) :
    Except InitFault (STATUS × FatFields) :=
  match read with
  | .error status => .ok (status, f)
  | .ok bpb =>
    if mbrBootSignature ≠ bpb.signature then .ok (statusDiskMbrNotPresent, f)
    else if bpb.secPerClus = 0 then .error .divisionByZero
    else
      let f := { f with countOfClusters := bpb.dataSectors / bpb.secPerClus.setWidth 32 }
      if f.countOfClusters < fat12MaxClusters then .ok (statusDeviceFilesystemUnsupported, f)
      else if f.countOfClusters < fat16MaxClusters then .ok (statusDeviceFilesystemUnsupported, f)
      else
        let f := { f with
          firstDataSector := bpb.firstDataSector
          sectorsPerCluster := bpb.secPerClus.setWidth 32 }
        match f.firstSectorOfCluster (bpb.rootClus.setWidth 64) with
        | none => .ok (statusDeviceClusterInvalid, f)
        | some sector =>
          let f := { f with
            rootDirectoryStartSector := sector
            entriesPerSector := bpb.bytsPerSec.setWidth 32 / 32
            reservedSectors := bpb.rsvdSecCnt.setWidth 32
            bytesPerSector := bpb.bytsPerSec.setWidth 32
            allocationSize := bpb.secPerClus.setWidth 32 * bpb.bytsPerSec.setWidth 32 }
          if f.allocationSize < deviceAlignment then .error .deviceAlignment
          else .ok (statusSuccess, f)

/-- The sectors and the table have room for the clusters, and files can be read. -/
structure UsableGeometry (bpb : FatBpb) (f : FatFields) : Prop where
  sectorsPerCluster : f.sectorsPerCluster ≠ 0
  bytesPerSector : f.bytesPerSector ≠ 0
  entriesPerSector : f.entriesPerSector ≠ 0
  reservedSectors : f.reservedSectors ≠ 0
  sectors : f.firstDataSector.toNat + f.countOfClusters.toNat * f.sectorsPerCluster.toNat ≤
    bpb.totalSectors.toNat
  table : (f.countOfClusters.toNat + 2) * 4 ≤ bpb.fatSize.toNat * f.bytesPerSector.toNat
  files : ∀ cluster sector, f.firstSectorOfCluster cluster = some sector →
    isAddressAligned sector (f.sectorsPerCluster.setWidth 64) = true

/-- No division by zero, no `ASSERT` but the one on the alignment of the device, and a usable geometry
after success. -/
def InitialisesUsable (bpb : FatBpb) (deviceAlignment : DWORD) (f : FatFields) : Prop :=
  (∀ fault, fatInitVolume (.ok bpb) deviceAlignment f = .error fault → fault = .deviceAlignment) ∧
    ∀ status f', fatInitVolume (.ok bpb) deviceAlignment f = .ok (status, f') →
      succeeded status = true → UsableGeometry bpb f'

namespace FatBpb

/-- The checks that are made: the type of the volume, its root directory and the alignment. -/
structure Accepted (bpb : FatBpb) (deviceAlignment : DWORD) : Prop where
  clusters : 65525 * bpb.secPerClus.toNat ≤ bpb.dataSectors.toNat
  root_ge : 2 ≤ bpb.rootClus.toNat
  root_le : bpb.rootClus.toNat ≤
    (bpb.dataSectors.toNat / bpb.secPerClus.toNat + 1) % 2 ^ 32
  alignment : deviceAlignment.toNat ≤ bpb.secPerClus.toNat * bpb.bytsPerSec.toNat

/-- The checks that are missing. -/
structure Sound (bpb : FatBpb) : Prop where
  bytsPerSec : 32 ≤ bpb.bytsPerSec.toNat
  rsvdSecCnt : bpb.rsvdSecCnt ≠ 0
  sectors : bpb.firstDataSector.toNat ≤ bpb.totalSectors.toNat
  table : (bpb.dataSectors.toNat / bpb.secPerClus.toNat + 2) * 4 ≤
    bpb.fatSize.toNat * bpb.bytsPerSec.toNat
  power : ∃ k, bpb.secPerClus.toNat = 2 ^ k
  aligned : bpb.secPerClus.toNat ∣ bpb.firstDataSector.toNat

end FatBpb

section Masks

/-- The remainder of a sum in steps of `s`, where `2 ^ i < s < 2 ^ (i + 1)`, gets smaller as long as
bit `i` is not set. -/
theorem mod_add_mul_le {x s i n : ℕ} (hlow : 2 ^ i < s) (hhigh : s < 2 ^ (i + 1))
    (hbit : ∀ k ≤ n, (x + k * s).testBit i = false) :
    (x + n * s) % 2 ^ (i + 1) + n ≤ x % 2 ^ (i + 1) := by
  induction n with
  | zero => simp
  | succ n ih =>
    have hrest := ih fun k hk => hbit k (by omega)
    have hsmall : ∀ k ≤ n + 1, (x + k * s) % 2 ^ (i + 1) < 2 ^ i := by
      intro k hk
      have := hbit k hk
      rw [Nat.testBit_eq_decide_div_mod_eq, decide_eq_false_iff_not] at this
      have hzero : (x + k * s) / 2 ^ i % 2 = 0 := by lia
      rw [pow_succ, Nat.mod_mul, hzero, Nat.mul_zero, Nat.add_zero]
      exact Nat.mod_lt _ (Nat.two_pow_pos i)
    have hn := hsmall n (by omega)
    have hnext := hsmall (n + 1) le_rfl
    have hstep : (x + (n + 1) * s) % 2 ^ (i + 1) =
        ((x + n * s) % 2 ^ (i + 1) + s) % 2 ^ (i + 1) := by
      rw [Nat.add_one_mul, ← Nat.add_assoc, Nat.mod_add_mod]
    have hdouble : 2 ^ (i + 1) = 2 ^ i * 2 := pow_succ 2 i
    rw [hstep] at hnext ⊢
    by_cases hwrap : (x + n * s) % 2 ^ (i + 1) + s < 2 ^ (i + 1)
    · rw [Nat.mod_eq_of_lt hwrap] at hnext
      omega
    · rw [Nat.mod_eq_sub_mod (by omega), Nat.mod_eq_of_lt (by omega)]
      omega

/-- With the mask `s - 1`, the multiples of `s` are aligned only if `s` is a power of 2. -/
theorem isPowerOfTwo_of_masked {x s : ℕ} (hs : 0 < s)
    (hmask : ∀ k < s, (x + k * s) &&& (s - 1) = 0) : ∃ k, s = 2 ^ k := by
  by_contra hpow
  have hlow : 2 ^ s.log2 < s := lt_of_le_of_ne (Nat.log2_self_le hs.ne') fun h => hpow ⟨_, h.symm⟩
  have hhigh : s < 2 ^ (s.log2 + 1) := Nat.lt_log2_self
  have hmaskBit : (s - 1).testBit s.log2 = true := by
    rw [Nat.testBit_eq_decide_div_mod_eq, decide_eq_true_iff]
    have hdiv : (s - 1) / 2 ^ s.log2 = 1 := by
      rw [pow_succ] at hhigh
      exact Nat.div_eq_of_lt_le (by lia) (by lia)
    rw [hdiv]
  have hbit : ∀ k ≤ 2 ^ s.log2, (x + k * s).testBit s.log2 = false := by
    intro k hk
    have hand := congrArg (Nat.testBit · s.log2) (hmask k (by omega))
    simpa [Nat.testBit_land, hmaskBit] using hand
  have hle := mod_add_mul_le hlow hhigh hbit
  have hfirst := hbit 0 (Nat.zero_le _)
  rw [Nat.zero_mul, Nat.add_zero, Nat.testBit_eq_decide_div_mod_eq, decide_eq_false_iff_not] at hfirst
  have hzero : x / 2 ^ s.log2 % 2 = 0 := by lia
  have hlt := Nat.mod_lt x (Nat.two_pow_pos s.log2)
  rw [show x % 2 ^ (s.log2 + 1) = x % 2 ^ s.log2 by
    rw [pow_succ, Nat.mod_mul, hzero, Nat.mul_zero, Nat.add_zero]] at hle
  omega

end Masks

section Mounting

variable {bpb : FatBpb} {deviceAlignment : DWORD} {f f' : FatFields}

/-- What a volume is mounted with. -/
def FatBpb.fields (bpb : FatBpb) : FatFields where
  countOfClusters := bpb.dataSectors / bpb.secPerClus.setWidth 32
  rootDirectoryStartSector := (bpb.rootClus.setWidth 64 - 2) *
    (bpb.secPerClus.setWidth 32 : DWORD).setWidth 64 + bpb.firstDataSector.setWidth 64
  reservedSectors := bpb.rsvdSecCnt.setWidth 32
  firstDataSector := bpb.firstDataSector
  sectorsPerCluster := bpb.secPerClus.setWidth 32
  bytesPerSector := bpb.bytsPerSec.setWidth 32
  entriesPerSector := bpb.bytsPerSec.setWidth 32 / 32
  allocationSize := bpb.secPerClus.setWidth 32 * bpb.bytsPerSec.setWidth 32

theorem countOfClusters_toNat (bpb : FatBpb) :
    bpb.fields.countOfClusters.toNat = bpb.dataSectors.toNat / bpb.secPerClus.toNat := by
  have := bpb.secPerClus.isLt
  rw [FatBpb.fields, BitVec.toNat_udiv, BitVec.toNat_setWidth, Nat.mod_eq_of_lt (by omega)]

theorem sectorsPerCluster_toNat (bpb : FatBpb) :
    bpb.fields.sectorsPerCluster.toNat = bpb.secPerClus.toNat := by
  have := bpb.secPerClus.isLt
  rw [FatBpb.fields, BitVec.toNat_setWidth, Nat.mod_eq_of_lt (by omega)]

theorem bytesPerSector_toNat (bpb : FatBpb) :
    bpb.fields.bytesPerSector.toNat = bpb.bytsPerSec.toNat := by
  have := bpb.bytsPerSec.isLt
  rw [FatBpb.fields, BitVec.toNat_setWidth, Nat.mod_eq_of_lt (by omega)]

theorem allocationSize_toNat (bpb : FatBpb) :
    bpb.fields.allocationSize.toNat = bpb.secPerClus.toNat * bpb.bytsPerSec.toNat := by
  have hs := bpb.secPerClus.isLt
  have hb := bpb.bytsPerSec.isLt
  have hprod : bpb.secPerClus.toNat * bpb.bytsPerSec.toNat ≤ 255 * 65535 :=
    Nat.mul_le_mul (by omega) (by omega)
  rw [FatBpb.fields, BitVec.toNat_mul, BitVec.toNat_setWidth, BitVec.toNat_setWidth,
    Nat.mod_eq_of_lt (a := bpb.secPerClus.toNat) (by omega),
    Nat.mod_eq_of_lt (a := bpb.bytsPerSec.toNat) (by omega), Nat.mod_eq_of_lt (by omega)]

theorem FatFields.firstSectorOfCluster_eq (f : FatFields) (cluster : QWORD) :
    f.firstSectorOfCluster cluster =
      if 2 ≤ cluster.toNat ∧ cluster.toNat ≤ (f.countOfClusters.toNat + 1) % 2 ^ 32 then
        some ((cluster - 2) * f.sectorsPerCluster.setWidth 64 + f.firstDataSector.setWidth 64)
      else none := by
  have hlast : ((f.countOfClusters + 1).setWidth 64 : QWORD).toNat =
      (f.countOfClusters.toNat + 1) % 2 ^ 32 := by
    rw [BitVec.toNat_setWidth, BitVec.toNat_add, show (1 : BitVec 32).toNat = 1 from rfl]
    lia
  have hinvalid : (f.countOfClusters + 1).setWidth 64 < cluster ∨ cluster < 2 ↔
      ¬(2 ≤ cluster.toNat ∧ cluster.toNat ≤ (f.countOfClusters.toNat + 1) % 2 ^ 32) := by
    rw [BitVec.lt_def, BitVec.lt_def, hlast, show (2 : QWORD).toNat = 2 from rfl]
    lia
  unfold FatFields.firstSectorOfCluster
  by_cases hvalid : 2 ≤ cluster.toNat ∧ cluster.toNat ≤ (f.countOfClusters.toNat + 1) % 2 ^ 32
  · rw [if_pos hvalid, if_neg fun h => hinvalid.mp h hvalid]
  · rw [if_neg hvalid, if_pos (hinvalid.mpr hvalid)]

/-- A boot sector with the signature is mounted if it passes the checks. -/
theorem fatInitVolume_cases (hsigned : bpb.signature = mbrBootSignature)
    (hnonzero : bpb.secPerClus ≠ 0) :
    fatInitVolume (.ok bpb) deviceAlignment f = .ok (statusSuccess, bpb.fields) ∧
        bpb.Accepted deviceAlignment ∨
      ((∃ status f', fatInitVolume (.ok bpb) deviceAlignment f = .ok (status, f') ∧
          succeeded status = false) ∨
        fatInitVolume (.ok bpb) deviceAlignment f = .error .deviceAlignment) ∧
      ¬bpb.Accepted deviceAlignment := by
  have hpos : 0 < bpb.secPerClus.toNat :=
    Nat.pos_of_ne_zero fun h => hnonzero (BitVec.eq_of_toNat_eq h)
  have hcount := countOfClusters_toNat bpb
  unfold fatInitVolume
  dsimp only
  rw [if_neg (not_not.mpr hsigned.symm), if_neg hnonzero]
  by_cases hclusters : 65525 * bpb.secPerClus.toNat ≤ bpb.dataSectors.toNat
  swap
  · refine Or.inr ⟨Or.inl ?_, fun h => hclusters h.clusters⟩
    have hfew : bpb.dataSectors / bpb.secPerClus.setWidth 32 < fat16MaxClusters := by
      rw [BitVec.lt_def]
      change bpb.fields.countOfClusters.toNat < 65525
      rw [hcount]
      exact (Nat.div_lt_iff_lt_mul hpos).mpr (by omega)
    by_cases hfat12 : bpb.dataSectors / bpb.secPerClus.setWidth 32 < fat12MaxClusters
    · rw [if_pos hfat12]
      exact ⟨_, _, rfl, by decide⟩
    · rw [if_neg hfat12, if_pos hfew]
      exact ⟨_, _, rfl, by decide⟩
  have hmany : ¬bpb.dataSectors / bpb.secPerClus.setWidth 32 < fat16MaxClusters := by
    rw [BitVec.lt_def]
    change ¬bpb.fields.countOfClusters.toNat < 65525
    rw [hcount, not_lt]
    exact (Nat.le_div_iff_mul_le hpos).mpr hclusters
  have hmany' : ¬bpb.dataSectors / bpb.secPerClus.setWidth 32 < fat12MaxClusters := by
    rw [BitVec.lt_def] at hmany ⊢
    exact fun h => hmany (lt_trans h (by decide))
  have hcluster : (bpb.rootClus.setWidth 64 : QWORD).toNat = bpb.rootClus.toNat := by
    have := bpb.rootClus.isLt
    rw [BitVec.toNat_setWidth, Nat.mod_eq_of_lt (by omega)]
  have hlast : (bpb.dataSectors / bpb.secPerClus.setWidth 32).toNat =
      bpb.dataSectors.toNat / bpb.secPerClus.toNat := hcount
  rw [if_neg hmany', if_neg hmany, FatFields.firstSectorOfCluster_eq, hcluster]
  dsimp only
  rw [hlast]
  by_cases hroot : 2 ≤ bpb.rootClus.toNat ∧ bpb.rootClus.toNat ≤
      (bpb.dataSectors.toNat / bpb.secPerClus.toNat + 1) % 2 ^ 32
  swap
  · rw [if_neg hroot]
    exact Or.inr ⟨Or.inl ⟨_, _, rfl, by decide⟩, fun h => hroot ⟨h.root_ge, h.root_le⟩⟩
  rw [if_pos hroot]
  dsimp only
  have hallocation := allocationSize_toNat bpb
  by_cases halign : bpb.fields.allocationSize < deviceAlignment
  · refine Or.inr ⟨Or.inr (if_pos halign), fun h => ?_⟩
    rw [BitVec.lt_def, hallocation] at halign
    have := h.alignment
    omega
  · refine Or.inl ⟨if_neg halign, hclusters, hroot.1, hroot.2, ?_⟩
    rw [BitVec.lt_def, hallocation] at halign
    omega

theorem fatInitVolume_not_signed (h : bpb.signature ≠ mbrBootSignature) :
    fatInitVolume (.ok bpb) deviceAlignment f = .ok (statusDiskMbrNotPresent, f) :=
  if_pos h.symm

theorem fatInitVolume_zero (hsigned : bpb.signature = mbrBootSignature) (hzero : bpb.secPerClus = 0) :
    fatInitVolume (.ok bpb) deviceAlignment f = .error .divisionByZero := by
  unfold fatInitVolume
  dsimp only
  rw [if_neg (not_not.mpr hsigned.symm), if_pos hzero]

theorem dataSectors_toNat (bpb : FatBpb) : bpb.dataSectors.toNat =
    if bpb.firstDataSector.toNat ≤ bpb.totalSectors.toNat then
      bpb.totalSectors.toNat - bpb.firstDataSector.toNat
    else 2 ^ 32 + bpb.totalSectors.toNat - bpb.firstDataSector.toNat := by
  have hfirst := bpb.firstDataSector.isLt
  have htotal := bpb.totalSectors.isLt
  rw [FatBpb.dataSectors, BitVec.toNat_sub]
  split_ifs with hle <;> lia

theorem isAddressAligned_iff_land {address alignment : QWORD} (h : 0 < alignment.toNat) :
    isAddressAligned address alignment = true ↔ address.toNat &&& (alignment.toNat - 1) = 0 := by
  rw [isAddressAligned, beq_iff_eq, ← BitVec.toNat_inj, BitVec.toNat_and,
    Nat.eq_sub_of_add_eq (toNat_sub_one h)]
  rfl

/-- The sector of a cluster, which is never past 64 bits. -/
theorem firstSectorOfCluster_toNat {cluster sector : QWORD}
    (h : bpb.fields.firstSectorOfCluster cluster = some sector) :
    2 ≤ cluster.toNat ∧ sector.toNat =
      (cluster.toNat - 2) * bpb.secPerClus.toNat + bpb.firstDataSector.toNat := by
  have hfirst := bpb.firstDataSector.isLt
  have hspc := bpb.secPerClus.isLt
  have hcount := bpb.fields.countOfClusters.isLt
  rw [FatFields.firstSectorOfCluster_eq] at h
  split_ifs at h with hvalid
  refine ⟨hvalid.1, ?_⟩
  rw [← Option.some.inj h]
  have hsub : (cluster - 2).toNat = cluster.toNat - 2 := by
    rw [BitVec.toNat_sub, show (2 : QWORD).toNat = 2 from rfl]
    lia
  have hprod : (cluster.toNat - 2) * bpb.secPerClus.toNat ≤ 2 ^ 32 * 255 :=
    Nat.mul_le_mul (by lia) (by omega)
  have hspc' : (bpb.fields.sectorsPerCluster.setWidth 64 : QWORD).toNat = bpb.secPerClus.toNat := by
    rw [BitVec.toNat_setWidth, sectorsPerCluster_toNat, Nat.mod_eq_of_lt (by omega)]
  have hfirst' : (bpb.fields.firstDataSector.setWidth 64 : QWORD).toNat =
      bpb.firstDataSector.toNat := by
    rw [BitVec.toNat_setWidth]
    exact Nat.mod_eq_of_lt (by omega)
  rw [BitVec.toNat_add, BitVec.toNat_mul, hsub, hspc', hfirst', Nat.mod_eq_of_lt (by lia),
    Nat.mod_eq_of_lt (by omega)]

/-- The geometry of a volume that has been mounted is usable exactly with the checks that are missing. -/
theorem usableGeometry_iff (hnonzero : bpb.secPerClus ≠ 0) (h : bpb.Accepted deviceAlignment) :
    UsableGeometry bpb bpb.fields ↔ bpb.Sound := by
  have hpos : 0 < bpb.secPerClus.toNat :=
    Nat.pos_of_ne_zero fun h => hnonzero (BitVec.eq_of_toNat_eq h)
  have hspc := bpb.secPerClus.isLt
  have hbytes := bpb.bytsPerSec.isLt
  have hcount := countOfClusters_toNat bpb
  have hsectors := sectorsPerCluster_toNat bpb
  have hbytesPerSector := bytesPerSector_toNat bpb
  have hspc64 : (bpb.fields.sectorsPerCluster.setWidth 64 : QWORD).toNat = bpb.secPerClus.toNat := by
    rw [BitVec.toNat_setWidth, hsectors, Nat.mod_eq_of_lt (by omega)]
  have hmask : 0 < (bpb.fields.sectorsPerCluster.setWidth 64 : QWORD).toNat := hspc64 ▸ hpos
  have hentries : bpb.fields.entriesPerSector.toNat = bpb.bytsPerSec.toNat / 32 := by
    change (bpb.fields.bytesPerSector / 32).toNat = _
    rw [BitVec.toNat_udiv, hbytesPerSector]
    rfl
  have hdata := dataSectors_toNat bpb
  have hdiv := Nat.div_add_mod bpb.dataSectors.toNat bpb.secPerClus.toNat
  have hmod := Nat.mod_lt bpb.dataSectors.toNat hpos
  rw [Nat.mul_comm] at hdiv
  constructor
  · intro husable
    have hlow : ∀ k < bpb.secPerClus.toNat,
        (bpb.firstDataSector.toNat + k * bpb.secPerClus.toNat) &&& (bpb.secPerClus.toNat - 1) = 0 := by
      intro k hk
      have hmany : 65525 ≤ bpb.dataSectors.toNat / bpb.secPerClus.toNat :=
        (Nat.le_div_iff_mul_le hpos).mpr h.clusters
      have hcluster : (BitVec.ofNat 64 (k + 2)).toNat = k + 2 := by
        rw [BitVec.toNat_ofNat, Nat.mod_eq_of_lt (by lia)]
      have hsector := FatFields.firstSectorOfCluster_eq bpb.fields (BitVec.ofNat 64 (k + 2))
      have hroot := h.root_le
      have hroot' := h.root_ge
      have hlt := bpb.fields.countOfClusters.isLt
      rw [hcluster, hcount, if_pos (by lia)] at hsector
      have haligned := husable.files _ _ hsector
      rw [isAddressAligned_iff_land hmask, hspc64, (firstSectorOfCluster_toNat hsector).2, hcluster,
        Nat.add_sub_cancel, Nat.add_comm] at haligned
      exact haligned
    have hpower := isPowerOfTwo_of_masked hpos hlow
    refine ⟨?_, ?_, ?_, ?_, hpower, ?_⟩
    · by_contra hsmall
      refine husable.entriesPerSector (BitVec.eq_of_toNat_eq ?_)
      rw [hentries, Nat.div_eq_of_lt (by omega)]
      rfl
    · intro hzero
      refine husable.reservedSectors ?_
      change bpb.rsvdSecCnt.setWidth 32 = 0
      rw [hzero]
      rfl
    · by_contra hwrap
      have hall := husable.sectors
      change bpb.firstDataSector.toNat + _ ≤ _ at hall
      rw [hcount, hsectors] at hall
      rw [if_neg hwrap] at hdata
      have := bpb.firstDataSector.isLt
      lia
    · have htable := husable.table
      rw [hcount, hbytesPerSector] at htable
      exact htable
    · obtain ⟨k, hk⟩ := hpower
      have hfirst := hlow 0 hpos
      rw [Nat.zero_mul, Nat.add_zero, hk, Nat.and_two_pow_sub_one_eq_mod, ← hk] at hfirst
      exact Nat.dvd_of_mod_eq_zero hfirst
  · intro hsound
    obtain ⟨k, hk⟩ := hsound.power
    refine ⟨?_, ?_, ?_, ?_, ?_, ?_, ?_⟩
    · intro hzero
      rw [hzero] at hsectors
      exact hpos.ne hsectors
    · intro hzero
      have := hsound.bytsPerSec
      rw [hzero, show (0 : DWORD).toNat = 0 from rfl] at hbytesPerSector
      omega
    · intro hzero
      have := hsound.bytsPerSec
      rw [hzero, show (0 : DWORD).toNat = 0 from rfl] at hentries
      lia
    · intro hzero
      refine hsound.rsvdSecCnt (BitVec.eq_of_toNat_eq ?_)
      have hreserved : (bpb.rsvdSecCnt.setWidth 32 : DWORD).toNat = 0 := congrArg BitVec.toNat hzero
      have hlt := bpb.rsvdSecCnt.isLt
      rw [BitVec.toNat_setWidth, Nat.mod_eq_of_lt (by lia)] at hreserved
      exact hreserved
    · change bpb.firstDataSector.toNat + _ ≤ _
      rw [hcount, hsectors]
      rw [if_pos hsound.sectors] at hdata
      have := hsound.sectors
      lia
    · rw [hcount, hbytesPerSector]
      exact hsound.table
    · intro cluster sector hsector
      rw [isAddressAligned_iff (hspc64.trans hk), hspc64, (firstSectorOfCluster_toNat hsector).2]
      exact Nat.dvd_add (Nat.dvd_mul_left _ _) hsound.aligned

end Mounting

/-- The volume is initialised as it should be exactly if the boot sector, once it has the signature, is
not without sectors for each cluster, and is sound if it passes the checks. -/
theorem fatInitVolume_usable_iff (bpb : FatBpb) (deviceAlignment : DWORD) (f : FatFields) :
    InitialisesUsable bpb deviceAlignment f ↔
      (bpb.signature = mbrBootSignature → bpb.secPerClus ≠ 0 ∧
        (bpb.Accepted deviceAlignment → bpb.Sound)) := by
  unfold InitialisesUsable
  by_cases hsigned : bpb.signature = mbrBootSignature
  swap
  · rw [fatInitVolume_not_signed hsigned]
    refine iff_of_true ⟨fun _ h => ?_, fun status f' h hsuccess => ?_⟩ fun h => absurd h hsigned
    · cases h
    · obtain ⟨rfl, -⟩ := Prod.mk.inj (Except.ok.inj h)
      cases hsuccess
  by_cases hnonzero : bpb.secPerClus = 0
  · rw [fatInitVolume_zero hsigned hnonzero]
    refine iff_of_false (fun h => ?_) fun h => (h hsigned).1 hnonzero
    cases h.1 _ rfl
  rcases @fatInitVolume_cases bpb deviceAlignment f hsigned hnonzero with
    ⟨hrun, haccepted⟩ | ⟨⟨status, f', hrun, hfailed⟩ | hrun, haccepted⟩
  · rw [hrun]
    constructor
    · intro h _
      exact ⟨hnonzero, fun _ => (usableGeometry_iff hnonzero haccepted).mp (h.2 _ _ rfl rfl)⟩
    · intro h
      refine ⟨fun _ hfault => ?_, fun status f' heq _ => ?_⟩
      · cases hfault
      obtain ⟨-, rfl⟩ := Prod.mk.inj (Except.ok.inj heq)
      exact (usableGeometry_iff hnonzero haccepted).mpr ((h hsigned).2 haccepted)
  · rw [hrun]
    refine iff_of_true ⟨fun _ h => ?_, fun status' f'' h hsuccess => ?_⟩
      fun _ => ⟨hnonzero, fun h => absurd h haccepted⟩
    · cases h
    · obtain ⟨rfl, -⟩ := Prod.mk.inj (Except.ok.inj h)
      rw [hfailed] at hsuccess
      cases hsuccess
  · rw [hrun]
    refine iff_of_true ⟨fun fault h => ?_, fun status' f'' h _ => ?_⟩
      fun _ => ⟨hnonzero, fun h => absurd h haccepted⟩
    · exact (Except.error.inj h).symm
    · cases h

/-- A volume of 512 MiB; its data starts in the middle of eight sectors. -/
def misaligned : FatBpb := ⟨512, 8, 32, 2, 0, 0, 1048576, 1022, 2, mbrBootSignature⟩

def withoutSectors : FatBpb := { misaligned with secPerClus := 0 }

def zeroFields : FatFields := ⟨0, 0, 0, 0, 0, 0, 0, 0⟩

/-- There is a division by zero, and a volume whose files cannot be read. -/
theorem initialisation_fails : ¬InitialisesUsable withoutSectors 512 zeroFields ∧
    ¬InitialisesUsable misaligned 512 zeroFields := by
  constructor
  · intro h
    cases h.1 .divisionByZero (fatInitVolume_zero rfl rfl)
  · intro h
    have haccepted : misaligned.Accepted 512 := ⟨by decide, by decide, by decide, by decide⟩
    have hmounted : fatInitVolume (.ok misaligned) 512 zeroFields =
        .ok (statusSuccess, misaligned.fields) := by
      rcases @fatInitVolume_cases misaligned 512 zeroFields rfl (by decide) with
        ⟨hrun, -⟩ | ⟨-, hnot⟩
      · exact hrun
      · exact absurd haccepted hnot
    have hsound := (usableGeometry_iff (by decide) haccepted).mp (h.2 _ _ hmounted rfl)
    exact absurd hsound.aligned (by decide)

section Geometry

/-- A boot sector for a volume on which the table lies between the reserved sectors and the data. -/
structure FatBpb.Regular (bpb : FatBpb) (deviceAlignment : DWORD) : Prop extends
    bpb.Accepted deviceAlignment, bpb.Sound where
  signed : bpb.signature = mbrBootSignature
  clusters_lt : bpb.dataSectors.toNat / bpb.secPerClus.toNat + 2 ≤ 0x0FFFFFF7
  bytes_ge : 512 ≤ bpb.bytsPerSec.toNat
  bytes_dvd : 32 ∣ bpb.bytsPerSec.toNat
  reserved_ge : 2 ≤ bpb.rsvdSecCnt.toNat
  region : bpb.rsvdSecCnt.toNat + bpb.fatSize.toNat ≤ bpb.firstDataSector.toNat

variable {bpb : FatBpb} {deviceAlignment : DWORD}

theorem FatBpb.Regular.secPerClus_pos (h : bpb.Regular deviceAlignment) : 0 < bpb.secPerClus.toNat := by
  obtain ⟨k, hk⟩ := h.power
  rw [hk]
  exact Nat.two_pow_pos k

/-- The geometry that the other modules work with. -/
def FatBpb.Regular.fatData (h : bpb.Regular deviceAlignment) : FatData where
  countOfClusters := bpb.dataSectors.toNat / bpb.secPerClus.toNat
  reservedSectors := bpb.rsvdSecCnt.toNat
  bytesPerSector := bpb.bytsPerSec.toNat
  rootCluster := bpb.rootClus.toNat
  firstDataSector := bpb.firstDataSector.toNat
  sectorsPerCluster := bpb.secPerClus.toNat
  countOfClusters_ge := (Nat.le_div_iff_mul_le h.secPerClus_pos).mpr h.clusters
  countOfClusters_lt := h.clusters_lt
  rootCluster_ge := h.root_ge
  rootCluster_le := h.root_le.trans (Nat.mod_le _ _)
  sectorsPerCluster_pos := h.secPerClus_pos
  bytesPerSector_ge := h.bytes_ge
  bytesPerSector_dvd := h.bytes_dvd
  reservedSectors_ge := h.reserved_ge
  table_fits := by
    have hregion := Nat.mul_le_mul_right bpb.bytsPerSec.toNat h.region
    have htable := h.table
    rw [Nat.add_mul] at hregion
    lia
  sectors_lt := by
    have hdata := dataSectors_toNat bpb
    have htotal := bpb.totalSectors.isLt
    have hle := h.sectors
    have := Nat.div_mul_le_self bpb.dataSectors.toNat bpb.secPerClus.toNat
    rw [if_pos hle] at hdata
    omega

/-- A regular volume is mounted with this geometry. -/
theorem fatInitVolume_regular (h : bpb.Regular deviceAlignment) (f : FatFields) :
    ∃ f', fatInitVolume (.ok bpb) deviceAlignment f = .ok (statusSuccess, f') ∧
      UsableGeometry bpb f' ∧
      f'.rootDirectoryStartSector.toNat = h.fatData.sectorOf h.fatData.rootCluster ∧
      f'.entriesPerSector.toNat = h.fatData.entriesPerSector := by
  have hnonzero : bpb.secPerClus ≠ 0 := by
    intro hzero
    have := h.secPerClus_pos
    rw [hzero] at this
    exact lt_irrefl _ this
  rcases @fatInitVolume_cases bpb deviceAlignment f h.signed hnonzero with ⟨hrun, haccepted⟩ | ⟨-, hnot⟩
  swap
  · exact absurd h.toAccepted hnot
  refine ⟨bpb.fields, hrun, (usableGeometry_iff hnonzero haccepted).mpr h.toSound, ?_, ?_⟩
  · have hroot : (bpb.rootClus.setWidth 64 : QWORD).toNat = bpb.rootClus.toNat := by
      have := bpb.rootClus.isLt
      rw [BitVec.toNat_setWidth, Nat.mod_eq_of_lt (by omega)]
    have hsector := FatFields.firstSectorOfCluster_eq bpb.fields (bpb.rootClus.setWidth 64)
    rw [hroot, countOfClusters_toNat, if_pos ⟨h.root_ge, h.root_le⟩] at hsector
    have htoNat := (firstSectorOfCluster_toNat hsector).2
    rw [hroot] at htoNat
    exact htoNat
  · change (bpb.fields.bytesPerSector / 32).toNat = _
    rw [BitVec.toNat_udiv, bytesPerSector_toNat]
    rfl

end Geometry

/-- The data starts on a multiple of eight sectors. -/
def wellAligned : FatBpb := { misaligned with fatSz32 := 1024 }

theorem wellAligned_regular : wellAligned.Regular 512 where
  clusters := by decide
  root_ge := by decide
  root_le := by decide
  alignment := by decide
  bytsPerSec := by decide
  rsvdSecCnt := by decide
  sectors := by decide
  table := by decide
  power := ⟨3, rfl⟩
  aligned := by decide
  signed := rfl
  clusters_lt := by decide
  bytes_ge := by decide
  bytes_dvd := by decide
  reserved_ge := by decide
  region := by decide

theorem fatInitVolume_regular_wellAligned :
    ∃ f', fatInitVolume (.ok wellAligned) 512 zeroFields = .ok (statusSuccess, f') ∧
      UsableGeometry wellAligned f' ∧
      f'.rootDirectoryStartSector.toNat =
        wellAligned_regular.fatData.sectorOf wellAligned_regular.fatData.rootCluster ∧
      f'.entriesPerSector.toNat = wellAligned_regular.fatData.entriesPerSector :=
  fatInitVolume_regular wellAligned_regular zeroFields

end HAL9000.Fat32
