import HAL9000.CommonLib.Base
import HAL9000.Lib.Program
import Mathlib.Logic.Function.Basic

/-! A FAT32 volume and the functions of `fat_utils.c`. The first sectors of the volume hold the
FSInfo sector and the file allocation table, the rest the clusters. A sector of a cluster is an array
of records of 32 bytes, each of which can be read as a directory entry. -/
namespace HAL9000.Fat32

open Program

/-- The length of a short name. -/
@[instance] theorem neZero_eleven : NeZero (11 : ℕ) := ⟨by decide⟩

structure DirEntry where
  name : Fin 11 → BYTE
  attr : BYTE
  ntRes : BYTE
  crtTimeTenth : BYTE
  crtTime : WORD
  crtDate : WORD
  lstAccDate : WORD
  fstClusHI : WORD
  wrtTime : WORD
  wrtDate : WORD
  fstClusLO : WORD
  fileSize : DWORD

def freeEntry : BYTE := 0xE5
def freeJapEntry : BYTE := 0x05
def freeAll : BYTE := 0x00

def attrVolumeId : BYTE := 0x08
def attrDirectory : BYTE := 0x10
def attrLongName : BYTE := 0x0F
def attrLongNameMask : BYTE := 0x3F

namespace DirEntry

def zero : DirEntry := ⟨fun _ => 0, 0, 0, 0, 0, 0, 0, 0, 0, 0, 0, 0⟩

/-- The first cluster of the entry. -/
def fstClus (e : DirEntry) : DWORD := e.fstClusHI ++ e.fstClusLO

end DirEntry

/-- Where the table lies, with any values that the boot sector holds. -/
structure FatGeometry where
  countOfClusters : ℕ
  reservedSectors : ℕ
  bytesPerSector : ℕ

/-- What `FatInitVolume` reads from the boot sector; the root directory is given by its first
cluster. FSInfo is in sector 1 and the table follows the reserved sectors. -/
structure FatData extends FatGeometry where
  rootCluster : ℕ
  firstDataSector : ℕ
  sectorsPerCluster : ℕ
  countOfClusters_ge : 65525 ≤ countOfClusters
  countOfClusters_lt : countOfClusters + 2 ≤ 0x0FFFFFF7
  rootCluster_ge : 2 ≤ rootCluster
  rootCluster_le : rootCluster ≤ countOfClusters + 1
  sectorsPerCluster_pos : 0 < sectorsPerCluster
  bytesPerSector_ge : 512 ≤ bytesPerSector
  bytesPerSector_dvd : 32 ∣ bytesPerSector
  reservedSectors_ge : 2 ≤ reservedSectors
  table_fits : reservedSectors * bytesPerSector + (countOfClusters + 2) * 4 ≤
    firstDataSector * bytesPerSector
  sectors_lt : firstDataSector + countOfClusters * sectorsPerCluster < 2 ^ 32

structure FsInfo where
  leadSig : DWORD
  strucSig : DWORD
  freeCount : DWORD
  nxtFree : DWORD
  trailSig : DWORD
  deriving DecidableEq, Repr

/-- A zeroed buffer. -/
def FsInfo.zero : FsInfo := ⟨0, 0, 0, 0, 0⟩

/-- An FSInfo sector with its signatures. -/
def FsInfo.signed (freeCount nxtFree : DWORD) : FsInfo :=
  ⟨0x41615252, 0x61417272, freeCount, nxtFree, 0xAA550000⟩

/-- The table, by entry, and the sectors, by record. -/
structure Volume where
  fat : ℕ → DWORD
  fsInfo : FsInfo
  data : ℕ → ℕ → DirEntry

inductive FatStatus
  | unsuccessful
  | heapNoMoreMemory
  | deviceError
  | diskFull
  | deviceClusterInvalid
  | elementNotFound
  | fileAlreadyExists
  | searchFailed
  | fileNotFound
  | fileTypeInvalid
  | invalidFileName
  | pathNotValid
  deriving DecidableEq, Repr

/-- Where a request for memory or to the device is made. `_AddNewClusterToChain` makes those of
`linkCluster` after it has reserved a cluster, and `FatCreateDirectoryEntry` makes requests before and
after it has written the new entry. -/
inductive Site
  | nextClusterInChain
  | firstFreeCluster
  | addNewClusterToChain
  | linkCluster
  | getDirEntry
  | writeDirEntry
  | writeFile
  | readFile
  | searchDirectory
  | queryDirectory
  | createEntry
  | createContents
  deriving DecidableEq, Repr

/-- Memory, the device, and the byte after a buffer, which is not 0 if the request is met. -/
inductive Resource
  | memory
  | read
  | write
  | pastBuffer
  deriving DecidableEq, Repr

/-- The outcome of every request; a request that fails changes nothing. -/
abbrev Outcome := Resource → Site → ℕ → Bool

structure World where
  volume : Volume
  clock : ℕ
  outcome : Outcome

abbrev FatM := Prog World FatStatus Fault

/-- Whether a request is met. -/
def request (resource : Resource) (site : Site) : FatM Bool := fun w =>
  .ok (.ok (w.outcome resource site w.clock), { w with clock := w.clock + 1 })

def exAllocatePool (site : Site) : FatM Unit := do
  if ¬(← request .memory site) then Prog.fail .heapNoMoreMemory

def ioDevice (access : Resource) (site : Site) : FatM Unit := do
  if ¬(← request access site) then Prog.fail .deviceError

def volume : FatM Volume := do
  let w ← Prog.get
  return w.volume

def setVolume (f : Volume → Volume) : FatM Unit :=
  Prog.modify fun w => { w with volume := f w.volume }

def fat32ClusterMask : DWORD := 0x0FFFFFFF
def fat32EocMark : DWORD := 0x0FFFFFFF
def fat32BadCluster : ℕ := 0x0FFFFFF7
def fat32Unknown : DWORD := 0xFFFFFFFF

def fat32Eoc (cluster : ℕ) : Bool := fat32BadCluster < cluster

/-- The cluster in an entry of the table. -/
def clusterOf (entry : DWORD) : ℕ := (entry &&& fat32ClusterMask).toNat

/-- The four reserved bits are preserved. -/
def setCluster (entry cluster : DWORD) : DWORD := (entry &&& ~~~fat32ClusterMask) ||| cluster

namespace Volume

def setFat (v : Volume) (entry : ℕ) (cluster : DWORD) : Volume :=
  { v with fat := Function.update v.fat entry (setCluster (v.fat entry) cluster) }

end Volume

namespace FatGeometry

/-- The entry of the table at a position of a sector. -/
def fatEntry (g : FatGeometry) (sector indexInSector : ℕ) : ℕ :=
  (sector - g.reservedSectors) * (g.bytesPerSector / 4) + indexInSector

/-- The sum is a `DWORD`. -/
def entriesPerFat (g : FatGeometry) : ℕ := (g.countOfClusters + 2) % 2 ^ 32

def sectorsPerFat (g : FatGeometry) : ℕ := g.entriesPerFat * 4 / g.bytesPerSector

end FatGeometry

variable (d : FatData)

namespace FatData

def entriesPerSector : ℕ := d.bytesPerSector / 32

theorem entriesPerFat_eq : d.entriesPerFat = d.countOfClusters + 2 :=
  Nat.mod_eq_of_lt (Nat.lt_of_le_of_lt d.countOfClusters_lt (by decide))

def sectorOf (cluster : ℕ) : ℕ := (cluster - 2) * d.sectorsPerCluster + d.firstDataSector

end FatData

namespace Volume

def entryAt (v : Volume) (sector index : ℕ) : DirEntry :=
  v.data (sector + index / d.entriesPerSector) (index % d.entriesPerSector)

def setEntryAt (v : Volume) (sector index : ℕ) (e : DirEntry) : Volume :=
  { v with
    data := Function.update v.data (sector + index / d.entriesPerSector)
      (Function.update (v.data (sector + index / d.entriesPerSector))
        (index % d.entriesPerSector) e) }

end Volume

def firstSectorOfCluster (cluster : ℕ) : FatM ℕ :=
  if cluster > d.countOfClusters + 1 ∨ cluster < 2 then Prog.fail .deviceClusterInvalid
  else return d.sectorOf cluster

/-- The difference of the sectors is a `QWORD`. -/
def clusterOfSector (sector : ℕ) : FatM ℕ :=
  let cluster := (sector + 2 ^ 64 - d.firstDataSector) % 2 ^ 64 / d.sectorsPerCluster + 2
  if cluster > d.countOfClusters + 1 ∨ cluster < 2 then Prog.fail .deviceClusterInvalid
  else return cluster

def nextClusterInChain (currentCluster : ℕ) : FatM ℕ := do
  let sectorNumber := d.reservedSectors + currentCluster * 4 / d.bytesPerSector
  let indexInSector := currentCluster % (d.bytesPerSector / 4)
  exAllocatePool .nextClusterInChain
  ioDevice .read .nextClusterInChain
  let v ← volume
  let nextCluster := clusterOf (v.fat (d.fatEntry sectorNumber indexInSector))
  if nextCluster = 0 then
    ioDevice .write .nextClusterInChain
    setVolume (·.setFat (d.fatEntry sectorNumber indexInSector) fat32EocMark)
    return fat32EocMark.toNat
  else if nextCluster = fat32BadCluster then return fat32EocMark.toNat
  else return nextCluster

section FirstFree

variable (g : FatGeometry)

/-- The first free entry among the next ones of a sector. -/
def firstFreeInSector (v : Volume) (currentSector : ℕ) : ℕ → ℕ → Option ℕ
  | 0, _ => none
  | n + 1, indexInSector =>
    if clusterOf (v.fat (g.fatEntry currentSector indexInSector)) = 0 then some indexInSector
    else firstFreeInSector v currentSector n (indexInSector + 1)

/-- The entry that was found is marked as the end of a chain if it is to be reserved. -/
def freeClusterFound (markReserved : Bool) (clusterIndex : ℕ) : FatM ℕ := do
  if markReserved then
    ioDevice .write .firstFreeCluster
    setVolume (·.setFat clusterIndex fat32EocMark)
  Prog.lift (assertThat (2 ≤ clusterIndex ∧ clusterIndex < g.entriesPerFat))
  Prog.lift (assertThat (clusterIndex ≠ fat32Unknown.toNat))
  return clusterIndex

/-- The loop over the sectors that remain. -/
def firstFreeLoop (markReserved : Bool) : ℕ → ℕ → ℕ → FatM ℕ
  | 0, _, _ => return 0
  | n + 1, currentSector, indexInSector => do
    ioDevice .read .firstFreeCluster
    let v ← volume
    match firstFreeInSector g v currentSector (g.bytesPerSector / 4 - indexInSector)
      indexInSector with
    | none => firstFreeLoop markReserved n (currentSector + 1) 0
    | some index => freeClusterFound g markReserved (g.fatEntry currentSector index)

/-- The status is set by the first read: a loop without iterations leaves it unsuccessful. -/
def firstFreeCluster (firstCheckedCluster : ℕ) (markReserved : Bool) : FatM ℕ := do
  exAllocatePool .firstFreeCluster
  if g.entriesPerFat ≤ firstCheckedCluster then return 0
  else
    let firstCheckedCluster :=
      if firstCheckedCluster = fat32Unknown.toNat then 2 else firstCheckedCluster
    let currentSector := g.reservedSectors + firstCheckedCluster * 4 / g.bytesPerSector
    let indexInSector := firstCheckedCluster % (g.bytesPerSector / 4)
    if g.sectorsPerFat ≤ currentSector then Prog.fail .unsuccessful
    else
      firstFreeLoop g markReserved (g.sectorsPerFat - currentSector) currentSector indexInSector

end FirstFree

/-- Counts the free clusters after `freeCluster`; the block is left at the first failure. -/
def countFreeClusters : ℕ → ℕ → DWORD → FatM DWORD
  | 0, _, _ => Prog.fault .outOfFuel
  | n + 1, freeCluster, freeCount => do
    match ← (firstFreeCluster d.toFatGeometry (freeCluster + 1) false).attempt with
    | .error _ => return freeCount
    | .ok 0 => return freeCount
    | .ok cluster => countFreeClusters n cluster (freeCount + 1)

/-- The guarded block of `_AddNewClusterToChain`: the reserved cluster and the FSInfo buffer when it
is left. Its status is lost, since the write of FSInfo sets it again. -/
def addNewClusterBlock (lastClusterFromChain : ℕ) : FatM (ℕ × FsInfo) := do
  if ¬(← request .read .addNewClusterToChain) then return (0, .zero)
  Prog.lift (assertThat (512 = d.bytesPerSector))
  let pFsInfo := (← volume).fsInfo
  if pFsInfo.freeCount = 0 then return (0, { pFsInfo with nxtFree := fat32Unknown })
  match ← (firstFreeCluster d.toFatGeometry pFsInfo.nxtFree.toNat true).attempt with
  | .error _ => return (0, pFsInfo)
  | .ok 0 =>
    Prog.lift (assertThat (fat32Unknown = pFsInfo.freeCount))
    return (0, { pFsInfo with freeCount := 0, nxtFree := fat32Unknown })
  | .ok reservedCluster =>
    let sectorFromFat := d.reservedSectors + lastClusterFromChain * 4 / d.bytesPerSector
    let indexInSector := lastClusterFromChain % (d.bytesPerSector / 4)
    if ¬(← request .memory .linkCluster) then return (reservedCluster, pFsInfo)
    if ¬(← request .read .linkCluster) then return (reservedCluster, pFsInfo)
    if ¬(← request .write .linkCluster) then return (reservedCluster, pFsInfo)
    setVolume (·.setFat (d.fatEntry sectorFromFat indexInSector) (BitVec.ofNat 32 reservedCluster))
    let nxtFree := BitVec.ofNat 32 reservedCluster
    if pFsInfo.freeCount = fat32Unknown then
      let freeCount ← countFreeClusters d (d.countOfClusters + 2) reservedCluster 0
      return (reservedCluster, { pFsInfo with freeCount := freeCount, nxtFree := nxtFree })
    else
      return (reservedCluster, { pFsInfo with
        freeCount := pFsInfo.freeCount - 1, nxtFree := nxtFree })

/-- Without memory for FSInfo a null buffer reaches an assertion of `IoWriteDevice`. A write that fails
transfers no bytes, and the assertion behind it stands before the test of the status. -/
def addNewClusterToChain (lastClusterFromChain : ℕ) : FatM ℕ := do
  Prog.lift (assertThat (¬fat32Eoc lastClusterFromChain))
  if ¬(← request .memory .addNewClusterToChain) then Prog.fault .assertFailed
  let (reservedCluster, pFsInfo) ← addNewClusterBlock d lastClusterFromChain
  let written ← request .write .addNewClusterToChain
  let bytesToReadWrite := if written then 512 else 0
  Prog.lift (assertThat (bytesToReadWrite = d.bytesPerSector))
  if ¬written then Prog.fail .deviceError
  setVolume fun v => { v with fsInfo := pFsInfo }
  return reservedCluster

/-- The sector is 0 at the end of a chain that is not extended. -/
def nextSectorInClusterChain (currentSector : ℕ) (extendChain : Bool) : FatM ℕ := do
  let currentCluster ← clusterOfSector d currentSector
  let nextCluster ← nextClusterInChain d currentCluster
  if fat32Eoc nextCluster then
    if ¬extendChain then return 0
    else
      let nextCluster ← addNewClusterToChain d currentCluster
      firstSectorOfCluster d nextCluster
  else firstSectorOfCluster d nextCluster

/-- The entry with a first cluster among the next ones; free entries and parts of long names are
skipped. -/
def findDirEntry (v : Volume) (entrySector dirFstClusterToSearch : ℕ) : ℕ → ℕ → Option ℕ
  | 0, _ => none
  | n + 1, index =>
    let e := v.entryAt d entrySector index
    if e.name 0 = freeEntry ∨ e.name 0 = freeJapEntry ∨
        e.attr &&& attrLongNameMask = attrLongName then
      findDirEntry v entrySector dirFstClusterToSearch n (index + 1)
    else if dirFstClusterToSearch = e.fstClus.toNat then some index
    else findDirEntry v entrySector dirFstClusterToSearch n (index + 1)

def getDirEntryFromSector (entrySector dirFirstSector : ℕ) : FatM (ℕ × DirEntry) := do
  exAllocatePool .getDirEntry
  ioDevice .read .getDirEntry
  let v ← volume
  let dirFstClusterToSearch ← clusterOfSector d dirFirstSector
  match findDirEntry d v entrySector dirFstClusterToSearch
    (d.bytesPerSector * d.sectorsPerCluster / 32) 0 with
  | some index => return (index, v.entryAt d entrySector index)
  | none => Prog.fail .elementNotFound

def writeDirEntryToSector (entrySector entryIndex : ℕ) (dirEntry : DirEntry) : FatM Unit := do
  exAllocatePool .writeDirEntry
  ioDevice .read .writeDirEntry
  ioDevice .write .writeDirEntry
  setVolume (·.setEntryAt d entrySector entryIndex dirEntry)

end HAL9000.Fat32
