import HAL9000.Fat32.Utils

/-! `FatWriteFile` and `FatCreateDirectoryEntry` of `fat_operations.c`. The searches for paths are
inputs, and so are the dates. -/
namespace HAL9000.Fat32

open Program

variable (d : FatData)

/-- The sectors that a request writes to. -/
def Volume.setSectors (v : Volume) (sector count : ℕ) (buffer : ℕ → ℕ → DirEntry) : Volume :=
  { v with
    data := fun s => if sector ≤ s ∧ s < sector + count then buffer (s - sector) else v.data s }

/-- The loop over the clusters before the offset. -/
def skipClusters : ℕ → ℕ → FatM ℕ
  | 0, currentSector => return currentSector
  | n + 1, currentSector => do
    let nextSector ← nextSectorInClusterChain d currentSector true
    skipClusters n nextSector

/-- The loop that writes and extends the chain; every round writes a sector at least. -/
def writeLoop (buffer : ℕ → ℕ → DirEntry) : ℕ → ℕ → ℕ → ℕ → ℕ → FatM Unit
  | 0, _, _, _, _ => Prog.fault .outOfFuel
  | n + 1, currentSector, pData, sectorsRemaining, sectorsToWrite => do
    ioDevice .write .writeFile
    setVolume (·.setSectors currentSector sectorsToWrite fun i => buffer (pData + i))
    let sectorsRemaining := sectorsRemaining - sectorsToWrite
    if sectorsRemaining = 0 then return ()
    else
      let nextSector ← nextSectorInClusterChain d currentSector true
      writeLoop buffer n nextSector (pData + sectorsToWrite) sectorsRemaining
        (min d.sectorsPerCluster sectorsRemaining)

structure DateTime where
  fatDate : WORD
  fatTime : WORD
  deriving DecidableEq, Repr

/-- The end of the data is computed as a `DWORD`. -/
def DirEntry.afterWrite (e : DirEntry) (nextByteToWrite : DWORD) (now : DateTime) : DirEntry :=
  { e with
    fileSize := if nextByteToWrite > e.fileSize then nextByteToWrite else e.fileSize
    lstAccDate := now.fatDate
    wrtDate := now.fatDate
    wrtTime := now.fatTime }

def fatWriteFile (baseFileSector sectorOffset dirEntrySector : ℕ) (buffer : ℕ → ℕ → DirEntry)
    (sectorsToWrite : ℕ) (now : DateTime) : FatM ℕ := do
  Prog.lift (assertThat (isAddressAligned (BitVec.ofNat 64 baseFileSector)
    (BitVec.ofNat 64 d.sectorsPerCluster)))
  if sectorsToWrite = 0 then return 0
  else
    let currentSector ← skipClusters d (sectorOffset / d.sectorsPerCluster) baseFileSector
    Prog.lift (assertThat (0 ≠ currentSector))
    let inCluster := sectorOffset % d.sectorsPerCluster
    writeLoop d buffer sectorsToWrite (currentSector + inCluster) 0 sectorsToWrite
      (min sectorsToWrite (d.sectorsPerCluster - inCluster))
    let (dirEntryIndex, dirEntry) ← getDirEntryFromSector d dirEntrySector baseFileSector
    let nextByteToWrite :=
      BitVec.ofNat 32 (sectorOffset + sectorsToWrite) * BitVec.ofNat 32 d.bytesPerSector
    writeDirEntryToSector d dirEntrySector dirEntryIndex (dirEntry.afterWrite nextByteToWrite now)
    return sectorsToWrite

namespace DirEntry

/-- A slot in which a new entry may be placed. -/
def isFree (e : DirEntry) : Bool :=
  e.name 0 = freeEntry ∨ e.name 0 = freeAll ∨ e.name 0 = freeJapEntry

end DirEntry

/-- The first free slot among the next ones. -/
def findFreeSlot (v : Volume) (sector : ℕ) : ℕ → ℕ → Option ℕ
  | 0, _ => none
  | n + 1, index =>
    if (v.entryAt d sector index).isFree then some index else findFreeSlot v sector n (index + 1)

/-- The last cluster of a chain. -/
def lastClusterOf : ℕ → ℕ → ℕ → FatM ℕ
  | 0, _, _ => Prog.fault .outOfFuel
  | n + 1, currentClusterInChain, tempCluster =>
    if fat32Eoc tempCluster then return currentClusterInChain
    else do
      let nextCluster ← nextClusterInChain d tempCluster
      lastClusterOf n tempCluster nextCluster

/-- A new entry of a name, with the first cluster `cluster`. -/
def DirEntry.new (name : Fin 11 → BYTE) (fileAttributes : BYTE) (cluster : DWORD)
    (now : DateTime) : DirEntry :=
  { DirEntry.zero with
    name := name
    fstClusHI := cluster.extractLsb' 16 16
    fstClusLO := cluster.extractLsb' 0 16
    attr := fileAttributes
    crtDate := now.fatDate
    wrtDate := now.fatDate
    lstAccDate := now.fatDate
    crtTime := now.fatTime
    wrtTime := now.fatTime }

def dotEntryName : Fin 11 → BYTE := fun i => if i = 0 then 0x2E else 0x20
def dotDotEntryName : Fin 11 → BYTE := fun i => if i = 0 ∨ i = 1 then 0x2E else 0x20

/-- What is written to the cluster of a new entry: the two entries of a directory, or nothing. -/
def newContents (isDirectory : Bool) (cluster parentCluster : DWORD) (now : DateTime) :
    ℕ → DirEntry := fun index =>
  if isDirectory ∧ index = 0 then DirEntry.new dotEntryName attrDirectory cluster now
  else if isDirectory ∧ index = 1 then
    DirEntry.new dotDotEntryName attrDirectory parentCluster now
  else DirEntry.zero

/-- What a call to create an entry is given, with the results of the two searches: the sector of the
parent directory, and whether the name is already there. -/
structure CreateArgs where
  parentSector : Except FatStatus ℕ
  nameExists : Bool
  name : Fin 11 → BYTE
  fileAttributes : BYTE
  now : DateTime

/-- The steps after the new entry is in its directory. -/
def createContents (parentSector currentClusterInChain : ℕ) (fileAttributes : BYTE)
    (now : DateTime) : FatM Unit := do
  exAllocatePool .createContents
  let isDirectory := attrDirectory = fileAttributes &&& (attrDirectory ||| attrVolumeId)
  let parentCluster ←
    if isDirectory then
      if d.firstDataSector = parentSector then pure 0 else clusterOfSector d parentSector
    else pure 0
  let sectorAllocated ← firstSectorOfCluster d currentClusterInChain
  ioDevice .write .createContents
  let contents := newContents isDirectory (BitVec.ofNat 32 currentClusterInChain)
    (BitVec.ofNat 32 parentCluster) now
  setVolume (·.setSectors sectorAllocated d.sectorsPerCluster fun i index =>
    contents (i * d.entriesPerSector + index))
  exAllocatePool .createContents
  let fatEntrySector := d.reservedSectors + currentClusterInChain * 4 / d.bytesPerSector
  let indexInSector := currentClusterInChain * 4 % d.bytesPerSector / 4
  ioDevice .read .createContents
  ioDevice .write .createContents
  setVolume (·.setFat (d.fatEntry fatEntrySector indexInSector) fat32EocMark)

def fatCreateDirectoryEntry (fuel : ℕ) (args : CreateArgs) : FatM Unit := do
  let parentSector ← match args.parentSector with
    | .ok sector => pure sector
    | .error status => Prog.fail status
  if args.nameExists then Prog.fail .fileAlreadyExists
  let parentCluster ← clusterOfSector d parentSector
  let currentClusterInChain ← lastClusterOf d fuel parentCluster parentCluster
  let finalSector ← firstSectorOfCluster d currentClusterInChain
  exAllocatePool .createEntry
  ioDevice .read .createEntry
  let v ← volume
  let start := if finalSector = d.firstDataSector then 2 else 0
  match findFreeSlot d v finalSector (d.entriesPerSector * d.sectorsPerCluster - start) start with
  | none => Prog.fail .diskFull
  | some index =>
    exAllocatePool .createEntry
    ioDevice .read .createEntry
    let pFsInfo := (← volume).fsInfo
    if pFsInfo.freeCount = 0 then Prog.fail .diskFull
    else
      ioDevice .write .createEntry
      setVolume fun v => { v with fsInfo := { pFsInfo with
        freeCount := pFsInfo.freeCount - 1, nxtFree := pFsInfo.nxtFree + 1 } }
      ioDevice .write .createEntry
      setVolume (·.setEntryAt d finalSector index
        (DirEntry.new args.name args.fileAttributes pFsInfo.nxtFree args.now))
      createContents d parentSector pFsInfo.nxtFree.toNat args.fileAttributes args.now

end HAL9000.Fat32
