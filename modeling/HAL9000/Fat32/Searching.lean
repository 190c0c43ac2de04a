import HAL9000.Fat32.Names
import HAL9000.Fat32.Chains

/-! `FatSearchDirectoryEntry`, `FatQueryDirectory`, `FatSearch` and `FatReadFile` of
`fat_operations.c`, and `FatCreateDirectoryEntry` with its searches. What `FatQueryDirectory` writes to
the buffer of its caller is left out. -/
namespace HAL9000.Fat32

open Program

variable (d : FatData) {σ ρ : Type}

/-- Whether an entry ends the walk. -/
inductive Visit (σ ρ : Type)
  | next (s : σ)
  | stop (r : Except FatStatus ρ)

/-- How the entries of a cluster end. -/
inductive Scan (σ ρ : Type)
  | endOfCluster (s : σ)
  | endOfDirectory (s : σ)
  | stop (r : Except FatStatus ρ)

/-- A walk over the entries of a directory. -/
structure DirectoryWalk (σ ρ : Type) where
  site : Site
  visit : ℕ → σ → DirEntry → Except Fault (Visit σ ρ)
  finish : σ → Except FatStatus ρ
  outOfMemory : Except FatStatus ρ

/-- The next entries of a cluster; the first entry may be any. -/
def scanCluster (k : DirectoryWalk σ ρ) (v : Volume) (sector : ℕ) :
    ℕ → ℕ → σ → Except Fault (Scan σ ρ)
  | 0, _, s => .ok (.endOfCluster s)
  | n + 1, index, s => do
    match ← k.visit sector s (v.entryAt d sector index) with
    | .stop r => return .stop r
    | .next s =>
      if n ≠ 0 ∧ (v.entryAt d sector (index + 1)).name 0 = freeAll then return .endOfDirectory s
      else scanCluster k v sector n (index + 1) s

def answer {α : Type} : Except FatStatus α → FatM α
  | .ok a => return a
  | .error status => Prog.fail status

/-- After the last entry of a cluster the byte past the buffer is read for the name of the next one. -/
def walkDirectory (k : DirectoryWalk σ ρ) : ℕ → ℕ → σ → FatM ρ
  | 0, _, _ => Prog.fault .outOfFuel
  | fuel + 1, sectorToParse, s => do
    if ¬(← request .memory k.site) then answer k.outOfMemory
    else
      ioDevice .read k.site
      let v ← volume
      match ← Prog.lift (scanCluster d k v sectorToParse d.entriesPerCluster 0 s) with
      | .stop r => answer r
      | .endOfDirectory s => answer (k.finish s)
      | .endOfCluster s =>
        if ¬(← request .pastBuffer k.site) then answer (k.finish s)
        else
          let nextSector ← nextSectorInClusterChain d sectorToParse false
          if nextSector = 0 then answer (k.finish s)
          else walkDirectory k fuel nextSector s

structure SearchResult where
  searchResult : ℕ
  parentSector : ℕ
  deriving DecidableEq, Repr

/-- Free entries and parts of long names are skipped; `short` is done for any other entry. -/
def visitEntry (setName : σ → NameBuffer → σ) (getName : σ → NameBuffer)
    (short : σ → DirEntry → Except Fault (Visit σ ρ)) (s : σ) (e : DirEntry) :
    Except Fault (Visit σ ρ) :=
  if e.name 0 = freeEntry ∨ e.name 0 = freeJapEntry then .ok (.next s)
  else if e.attr &&& attrLongNameMask = attrLongName then do
    let longName ← writePartialLongFatNameToName e (getName s)
    return .next (setName s longName)
  else short s e

def searchShort (name : Name) (searchType : BYTE) (wantsInformation : Bool) (sector : ℕ)
    (longName : NameBuffer) (e : DirEntry) : Except Fault (Visit NameBuffer (Option SearchResult)) :=
  if equalsIgnoreCase longName.name name ∨ equalsIgnoreCase (convertFatNameToName e).1 name then
    if e.attr &&& (attrDirectory ||| attrVolumeId) ≠ searchType then
      .ok (.stop (.error .fileTypeInvalid))
    else if e.fstClus.toNat > d.countOfClusters + 1 ∨ e.fstClus.toNat < 2 then
      .ok (.stop (.error .deviceClusterInvalid))
    else if wantsInformation ∧ ¬e.hasDates then .error .assertFailed
    else .ok (.stop (.ok (some ⟨d.sectorOf e.fstClus.toNat, sector⟩)))
  else .ok (.next longName.reset)

/-- Without memory the status is still success, and there is no result. -/
def searchWalk (name : Name) (searchType : BYTE) (wantsInformation : Bool) :
    DirectoryWalk NameBuffer (Option SearchResult) where
  site := .searchDirectory
  visit sector := visitEntry (fun _ longName => longName) id
    (searchShort d name searchType wantsInformation sector)
  finish _ := .error .fileNotFound
  outOfMemory := .ok none

def fatSearchDirectoryEntry (fuel sectorToSearch : ℕ) (name : Name) (searchType : BYTE)
    (wantsInformation : Bool) : FatM (Option SearchResult) :=
  walkDirectory d (searchWalk d name searchType wantsInformation) fuel sectorToSearch .empty

structure QueryState where
  longName : NameBuffer
  requiredSize : DWORD

def sizeofFileDirectoryInformation : ℕ := 64

/-- An entry without a long name is listed by its short one, which must not be empty. -/
def queryShort (directoryInformationSize : DWORD) (s : QueryState) (e : DirEntry) :
    Except Fault (Visit QueryState DWORD) :=
  let (shortName, shortNameLength) := convertFatNameToName e
  let longNameLength := (cString ((List.ofFn s.longName).take longNameMaxChars)).length
  if longNameLength = 0 ∧ shortNameLength = 0 then .error .assertFailed
  else
    let longName := if longNameLength = 0 then s.longName.copy shortName shortNameLength else s.longName
    let longNameLength := if longNameLength = 0 then shortNameLength else longNameLength
    let requiredSize :=
      s.requiredSize + BitVec.ofNat 32 (sizeofFileDirectoryInformation + longNameLength)
    if requiredSize ≤ directoryInformationSize ∧ ¬e.hasDates then .error .assertFailed
    else .ok (.next ⟨longName.reset, requiredSize⟩)

def queryWalk (directoryInformationSize : DWORD) : DirectoryWalk QueryState DWORD where
  site := .queryDirectory
  visit _ := visitEntry (fun s longName => { s with longName := longName }) QueryState.longName
    (queryShort directoryInformationSize)
  finish s := .ok s.requiredSize
  outOfMemory := .error .heapNoMoreMemory

def fatQueryDirectory (fuel directorySector : ℕ) (directoryInformationSize : DWORD) : FatM DWORD :=
  walkDirectory d (queryWalk directoryInformationSize) fuel directorySector ⟨.empty, 0⟩

def fatDelimiter : BYTE := 0x5C

/-- The names between the backslashes; one that starts with a backslash is the last one. -/
def splitPath : ℕ → Name → List Name
  | 0, rest => [rest]
  | n + 1, rest =>
    let partialName := rest.takeWhile (· ≠ fatDelimiter)
    if partialName.length = rest.length ∨ partialName = [] then [rest]
    else partialName :: splitPath n (rest.drop (partialName.length + 1))

/-- The loop over the names of a path. A search that has run out of memory leaves the result of the one
before. -/
def searchNames (fuel : ℕ) (searchType : BYTE) (wantsInformation : Bool) :
    List Name → ℕ → SearchResult → FatM SearchResult
  | [], _, result => return result
  | partialName :: names, currentSearchSector, result =>
    if partialName.length ≥ longNameMaxChars ∨ partialName = [] then Prog.fail .pathNotValid
    else do
      let currentSearchType := if names = [] then searchType else attrDirectory
      let found ← fatSearchDirectoryEntry d fuel currentSearchSector partialName currentSearchType
        wantsInformation
      let result := found.getD result
      searchNames fuel searchType wantsInformation names result.searchResult result

def fatSearch (fuel : ℕ) (name : Name) (searchType : BYTE) (wantsInformation : Bool) :
    FatM SearchResult :=
  if name.head? ≠ some fatDelimiter then Prog.fail .invalidFileName
  else if name.length = 1 then
    if searchType &&& attrDirectory ≠ attrDirectory then Prog.fail .fileTypeInvalid
    else return ⟨d.sectorOf d.rootCluster, 0⟩
  else searchNames d fuel searchType wantsInformation (splitPath name.length name.tail)
    (d.sectorOf d.rootCluster) ⟨0, 0⟩

def maxPath : ℕ := 260

def attrNormal : BYTE := 0x00

/-- The path before the last backslash. -/
def parentPath (name : Name) : Name :=
  let path := name.rdropWhile (· ≠ fatDelimiter)
  if path.length = 1 then [fatDelimiter] else path.dropLast

/-- The name after the last backslash, filled up with spaces. -/
def newEntryName (name : Name) : Fin 11 → BYTE :=
  fun i => (name.rtakeWhile (· ≠ fatDelimiter)).getD i space

/-- The calls with the searches for the parent and for the name itself; both parts of the name are
copied to buffers without a check. -/
def fatCreateByName (fuel : ℕ) (name : Name) (fileAttributes : BYTE) (now : DateTime) :
    FatM Unit :=
  if fatDelimiter ∉ name then Prog.fail .pathNotValid
  else if (parentPath name).length ≥ maxPath ∨ (name.rtakeWhile (· ≠ fatDelimiter)).length > 11 then
    Prog.fault .danglingAccess
  else do
    let parent ← fatSearch d fuel (parentPath name) attrDirectory false
    let existing ← (fatSearch d fuel name attrNormal false).attempt
    let nameExists := match existing with
      | .ok _ => true
      | .error status => status = .fileTypeInvalid
    fatCreateDirectoryEntry d fuel
      ⟨.ok parent.searchResult, nameExists, newEntryName name, fileAttributes, now⟩

/-- The loop over the clusters before the offset. -/
def skipToRead : ℕ → ℕ → FatM ℕ
  | 0, currentSector => return currentSector
  | n + 1, currentSector => do
    let nextSector ← nextSectorInClusterChain d currentSector false
    skipToRead n nextSector

/-- The loop that reads; it returns the sectors that remain and what has been read. -/
def readLoop : ℕ → ℕ → ℕ → ℕ → List (ℕ → DirEntry) → FatM (ℕ × List (ℕ → DirEntry))
  | 0, _, _, _, _ => Prog.fault .outOfFuel
  | n + 1, currentSector, sectorsRemaining, sectorsToRead, data => do
    ioDevice .read .readFile
    let v ← volume
    let data := data ++ (List.range sectorsToRead).map fun i => v.data (currentSector + i)
    let sectorsRemaining := sectorsRemaining - sectorsToRead
    if sectorsRemaining = 0 then return (0, data)
    else
      let nextSector ← nextSectorInClusterChain d currentSector false
      if nextSector = 0 then return (sectorsRemaining, data)
      else
        readLoop n nextSector sectorsRemaining (min d.sectorsPerCluster sectorsRemaining) data

/-- Returns the number of sectors that were read, and the sectors. -/
def fatReadFile (baseFileSector sectorOffset dirEntrySector sectorsToRead : ℕ) (now : DateTime) :
    FatM (ℕ × List (ℕ → DirEntry)) := do
  Prog.lift (assertThat (isAddressAligned (BitVec.ofNat 64 baseFileSector)
    (BitVec.ofNat 64 d.sectorsPerCluster)))
  if sectorsToRead = 0 then return (0, [])
  else
    let currentSector ← skipToRead d (sectorOffset / d.sectorsPerCluster) baseFileSector
    Prog.lift (assertThat (0 ≠ currentSector))
    let inCluster := sectorOffset % d.sectorsPerCluster
    let (sectorsRemaining, data) ← readLoop d sectorsToRead (currentSector + inCluster) sectorsToRead
      (min sectorsToRead (d.sectorsPerCluster - inCluster)) []
    let (dirEntryIndex, dirEntry) ← getDirEntryFromSector d dirEntrySector baseFileSector
    writeDirEntryToSector d dirEntrySector dirEntryIndex { dirEntry with lstAccDate := now.fatDate }
    return (sectorsToRead - sectorsRemaining, data)

end HAL9000.Fat32
