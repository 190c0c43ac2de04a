import HAL9000.Fat32.ByteAccess
import HAL9000.Fat32.EntryFrames
import HAL9000.Fat32.PathResolution
import HAL9000.Io.FileHandles

/-! The size of an open file, over runs of opens, writes and queries. A write sets it in the directory; the
file object and its control block have the one that the search for the file has found. -/
namespace HAL9000.Fat32

open Program Run Walk

/-- What `FatSearch` returns, with the information about the file. -/
structure FoundEntry extends SearchResult where
  fileInformation : FileInformation
  deriving DecidableEq

section Code

variable (d : FatData) (deviceAlignment : QWORD)

def informationShort (name : Name) (searchType : BYTE) (sector : ℕ) (longName : NameBuffer)
    (e : DirEntry) : Except Fault (Visit NameBuffer (Option FoundEntry)) :=
  if equalsIgnoreCase longName.name name ∨ equalsIgnoreCase (convertFatNameToName e).1 name then
    if e.attr &&& (attrDirectory ||| attrVolumeId) ≠ searchType then
      .ok (.stop (.error .fileTypeInvalid))
    else if e.fstClus.toNat > d.countOfClusters + 1 ∨ e.fstClus.toNat < 2 then
      .ok (.stop (.error .deviceClusterInvalid))
    else do
      let fileInformation ← fatPopulateFileInformationFromFatEntry deviceAlignment e
      return .stop (.ok (some ⟨⟨d.sectorOf e.fstClus.toNat, sector⟩, fileInformation⟩))
  else .ok (.next longName.reset)

def informationWalk (name : Name) (searchType : BYTE) :
    DirectoryWalk NameBuffer (Option FoundEntry) where
  site := .searchDirectory
  visit sector := visitEntry (fun _ longName => longName) id
    (informationShort d deviceAlignment name searchType sector)
  finish _ := .error .fileNotFound
  outOfMemory := .ok none

def searchInformationNames (fuel : ℕ) (searchType : BYTE) :
    List Name → ℕ → FoundEntry → FatM FoundEntry
  | [], _, result => return result
  | partialName :: names, currentSearchSector, result =>
    if partialName.length ≥ longNameMaxChars ∨ partialName = [] then Prog.fail .pathNotValid
    else do
      let currentSearchType := if names = [] then searchType else attrDirectory
      let found ← walkDirectory d (informationWalk d deviceAlignment partialName currentSearchType) fuel
        currentSearchSector .empty
      let result := found.getD result
      searchInformationNames fuel searchType names result.searchResult result

/-- `FatSearch` for a caller that wants the information about the file. -/
def fatSearchInformation (fuel : ℕ) (name : Name) (searchType : BYTE) : FatM FoundEntry :=
  if name.head? ≠ some fatDelimiter then Prog.fail .invalidFileName
  else if name.length = 1 then
    if searchType &&& attrDirectory ≠ attrDirectory then Prog.fail .fileTypeInvalid
    else return ⟨⟨d.sectorOf d.rootCluster, 0⟩, ⟨none, none, 0, fileAttributeVolume⟩⟩
  else searchInformationNames d deviceAlignment fuel searchType (splitPath name.length name.tail)
    (d.sectorOf d.rootCluster) ⟨⟨0, 0⟩, ⟨none, none, 0, 0⟩⟩

end Code

variable {d : FatData} {deviceAlignment : QWORD}

section Search

variable {name : Name} {searchType : BYTE} {fuel : ℕ}

theorem informationShort_forgets {sector : ℕ} {longName : NameBuffer} {e : DirEntry}
    {x : Visit NameBuffer (Option FoundEntry)}
    (h : informationShort d deviceAlignment name searchType sector longName e = .ok x) :
    searchShort d name searchType true sector longName e =
      .ok (x.map id (Option.map FoundEntry.toSearchResult)) := by
  unfold informationShort at h
  unfold searchShort
  split_ifs at h ⊢ with hname htype hvalid hdates
  · cases h
    rfl
  · cases h
    rfl
  · obtain ⟨information, hinformation, -⟩ := bind_eq_ok.mp h
    exact absurd ((fatPopulateFileInformation_ok_iff deviceAlignment e).mp ⟨_, hinformation⟩) hdates.2
  · obtain ⟨information, -, hx⟩ := bind_eq_ok.mp h
    cases hx
    rfl
  · cases h
    rfl

theorem informationWalk_forgets (d : FatData) (deviceAlignment : QWORD) (name : Name) (searchType : BYTE) :
    Forgets (informationWalk d deviceAlignment name searchType) (searchWalk d name searchType true) id
      (Option.map FoundEntry.toSearchResult) where
  site := rfl
  visit sector s e x h := by
    have hvisit : (informationWalk d deviceAlignment name searchType).visit sector = visitEntry
        (fun _ longName => longName) id (informationShort d deviceAlignment name searchType sector) := rfl
    have hvisit' : (searchWalk d name searchType true).visit sector = visitEntry
        (fun _ longName => longName) id (searchShort d name searchType true sector) := rfl
    rw [hvisit] at h
    rw [hvisit']
    rcases e.kinds with hunused | ⟨hused, hlong⟩ | hshort
    · rw [visitEntry_unused hunused] at h ⊢
      cases h
      rfl
    · rw [visitEntry_longPart hused hlong] at h ⊢
      obtain ⟨longName, hname, hx⟩ := bind_eq_ok.mp h
      cases hx
      exact bind_eq_ok.mpr ⟨longName, hname, rfl⟩
    · rw [visitEntry_isShort hshort] at h ⊢
      exact informationShort_forgets h
  finish _ := rfl
  outOfMemory := rfl

theorem searchInformationNames_maps (names : List Name) (sector : ℕ) (result : FoundEntry) :
    Maps FoundEntry.toSearchResult
      (searchInformationNames d deviceAlignment fuel searchType names sector result)
      (searchNames d fuel searchType true names sector result.toSearchResult) := by
  induction names generalizing sector result with
  | nil =>
    intro w r w' h
    cases h
    rfl
  | cons partialName names ih =>
    unfold searchInformationNames searchNames
    refine .ite (fun w r w' h => ?_) (.bind ((informationWalk_forgets d deviceAlignment partialName
      _).walkDirectory fuel sector .empty) fun found => ?_)
    · cases h
      rfl
    · cases found with
      | none => exact ih _ _
      | some found => exact ih _ _

/-- Without the information, the search is the one that returns the sectors. -/
theorem fatSearchInformation_maps (d : FatData) (deviceAlignment : QWORD) (fuel : ℕ) (name : Name)
    (searchType : BYTE) : Maps FoundEntry.toSearchResult
      (fatSearchInformation d deviceAlignment fuel name searchType)
      (fatSearch d fuel name searchType true) := by
  refine .ite (fun w r w' h => ?_) (.ite (.ite (fun w r w' h => ?_) fun w r w' h => ?_) ?_)
  · cases h
    rfl
  · cases h
    rfl
  · cases h
    rfl
  · exact searchInformationNames_maps _ _ _

end Search

/-- The search has found the entry in a slot of a cluster. -/
structure FoundAt (d : FatData) (deviceAlignment : QWORD) (v : Volume) (c k : ℕ) (found : FoundEntry) :
    Prop where
  cluster : d.IsCluster c
  index_lt : k < d.entriesPerCluster
  first : d.IsCluster (v.slotEntry d c k).fstClus.toNat
  searchResult : found.searchResult = d.sectorOf (v.slotEntry d c k).fstClus.toNat
  parentSector : found.parentSector = d.sectorOf c
  information : fatPopulateFileInformationFromFatEntry deviceAlignment (v.slotEntry d c k) =
    .ok found.fileInformation

section Found

variable {v : Volume} {name : Name} {searchType : BYTE} {fuel c : ℕ} {x : Option FoundEntry} {o : Outcome}

theorem foundAt_of_short {longName : NameBuffer} {k : ℕ} (hc : d.IsCluster c)
    (hk : k < d.entriesPerCluster)
    (h : informationShort d deviceAlignment name searchType (d.sectorOf c) longName (v.slotEntry d c k) =
      .ok (.stop (.ok x))) : ∃ found, x = some found ∧ FoundAt d deviceAlignment v c k found := by
  unfold informationShort at h
  split_ifs at h with hname htype hvalid
  · cases h
  · cases h
  · obtain ⟨information, hinformation, hx⟩ := bind_eq_ok.mp h
    cases hx
    exact ⟨_, rfl, hc, hk, ⟨by omega, by omega⟩, rfl, rfl, hinformation⟩
  · cases h

/-- A scan stops at one of the next entries. -/
theorem visit_of_scan_stop {σ ρ : Type} {k : DirectoryWalk σ ρ} {sector n index : ℕ} {s : σ}
    {r : Except FatStatus ρ} (h : scanCluster d k v sector n index s = .ok (.stop r)) :
    ∃ i < index + n, ∃ s', k.visit sector s' (v.entryAt d sector i) = .ok (.stop r) := by
  induction n generalizing index s with
  | zero => cases h
  | succ n ih =>
    cases hvisit : k.visit sector s (v.entryAt d sector index) with
    | error fault =>
      rw [scanCluster, hvisit] at h
      cases h
    | ok x =>
      cases x with
      | stop r' =>
        rw [scanCluster, hvisit] at h
        cases h
        exact ⟨index, by omega, s, hvisit⟩
      | next s' =>
        rw [scanCluster_of_next hvisit] at h
        split_ifs at h with hend
        · cases h
        · obtain ⟨i, hi, hstop⟩ := ih h
          exact ⟨i, by omega, hstop⟩

theorem foundAt_of_visit {s : NameBuffer} {k : ℕ} (hc : d.IsCluster c) (hk : k < d.entriesPerCluster)
    (h : (informationWalk d deviceAlignment name searchType).visit (d.sectorOf c) s (v.slotEntry d c k) =
      .ok (.stop (.ok x))) : ∃ found, x = some found ∧ FoundAt d deviceAlignment v c k found := by
  have hvisit : (informationWalk d deviceAlignment name searchType).visit (d.sectorOf c) = visitEntry
      (fun _ longName => longName) id (informationShort d deviceAlignment name searchType _) := rfl
  rw [hvisit] at h
  rcases (v.slotEntry d c k).kinds with hunused | ⟨hused, hlong⟩ | hshort
  · rw [visitEntry_unused hunused] at h
    cases h
  · rw [visitEntry_longPart hused hlong] at h
    obtain ⟨longName, -, hx⟩ := bind_eq_ok.mp h
    cases hx
  · rw [visitEntry_isShort hshort] at h
    exact foundAt_of_short hc hk h

theorem nextSector_cluster {P : World → Prop} (hkeep : ∀ {α : Type} {x : FatM α}, Preserves World.kept x →
    Triple P x (fun _ => P) fun _ => True) (sector : ℕ) :
    Triple P (nextSectorInClusterChain d sector false)
      (fun r w => (r = 0 ∨ ∃ c, d.IsCluster c ∧ r = d.sectorOf c) ∧ P w) (fun _ => True) := by
  rw [nextSectorInClusterChain_eq]
  refine .bind (hkeep (kept_answer _)) fun cluster => .bind (hkeep kept_nextClusterInChain) fun next => ?_
  unfold FatData.sectorAfter
  split_ifs with heoc hvalid
  · exact .ret fun w hw => ⟨Or.inl rfl, hw⟩
  · exact .fail fun _ _ => trivial
  · exact .ret fun w hw => ⟨Or.inr ⟨next, ⟨by omega, by omega⟩, rfl⟩, hw⟩

section Runs

variable (hmet : ∀ t, o .memory .searchDirectory t = true)

include hmet

/-- If there is memory for the search, it finds an entry or fails. -/
theorem informationWalk_finds (hc : d.IsCluster c) (n : ℕ) (s : NameBuffer) :
    Triple (fun w => w.kept = (o, v.data, v.fsInfo))
      (walkDirectory d (informationWalk d deviceAlignment name searchType) n (d.sectorOf c) s)
      (fun r w => (∃ found, r = some found ∧ ∃ c k, FoundAt d deviceAlignment v c k found) ∧
        w.kept = (o, v.data, v.fsInfo)) (fun _ => True) := by
  have hkeep : ∀ {α : Type} {x : FatM α}, Preserves World.kept x →
      Triple (fun w => w.kept = (o, v.data, v.fsInfo)) x (fun _ w => w.kept = (o, v.data, v.fsInfo))
        (fun _ => True) := fun hx => hx.keeps.conseq (fun _ => id) (fun _ _ => id) fun _ _ => trivial
  induction n generalizing c s with
  | zero => exact .fault
  | succ n ih =>
    unfold walkDirectory
    refine .bind (Q := fun r w => r = true ∧ w.kept = (o, v.data, v.fsInfo)) ?_ fun met => .assume fun hr => ?_
    · intro w r w' hw hrun
      have hw' := (kept_request w r w' hrun).trans hw
      obtain ⟨rfl, -⟩ : Except.ok (w.outcome .memory
          (informationWalk d deviceAlignment name searchType).site w.clock) = r ∧
          { w with clock := w.clock + 1 } = w' := by simpa [request] using hrun
      refine ⟨?_, hw'⟩
      rw [show w.outcome = o from congrArg Prod.fst hw]
      exact hmet _
    rw [if_neg (by simp [hr])]
    refine .bind (hkeep kept_ioDevice) fun _ => .bind (Q := fun u w => u.data = v.data ∧
      w.kept = (o, v.data, v.fsInfo)) ?_ fun u => .assume fun hu => ?_
    · intro w r w' hw hrun
      obtain ⟨rfl, rfl⟩ : Except.ok w.volume = r ∧ w = w' := by
        simpa [volume, Prog.get, Pure.pure, Bind.bind, Prog.bind] using hrun
      exact ⟨congrArg (·.2.1) hw, hw⟩
    refine .bind (Q := fun x w => scanCluster d (informationWalk d deviceAlignment name searchType) u
      (d.sectorOf c) d.entriesPerCluster 0 s = .ok x ∧ w.kept = (o, v.data, v.fsInfo))
      (.lift fun x w hx hw => ⟨hx, hw⟩) fun x => .assume fun hx => ?_
    cases x with
    | stop r =>
      obtain ⟨k, hk, s', hvisit⟩ := visit_of_scan_stop hx
      cases r with
      | error status => exact .fail fun _ _ => trivial
      | ok x =>
        have hentry : u.entryAt d (d.sectorOf c) k = v.slotEntry d c k := slotEntry_of_data hu c k
        rw [hentry] at hvisit
        obtain ⟨found, rfl, hfound⟩ := foundAt_of_visit hc (by omega) hvisit
        exact .ret fun w hw => ⟨⟨found, rfl, c, k, hfound⟩, hw⟩
    | endOfDirectory s => exact .fail fun _ _ => trivial
    | endOfCluster s =>
      refine .bind (hkeep kept_request) fun _ => .ite (fun _ => .fail fun _ _ => trivial) fun _ => ?_
      refine .bind (nextSector_cluster hkeep _) fun next => .assume fun hnext => ?_
      rcases hnext with rfl | ⟨c', hc', rfl⟩
      · rw [if_pos rfl]
        exact .fail fun _ _ => trivial
      · rw [if_neg (sectorOf_pos d c').ne']
        exact ih hc' s

theorem searchInformationNames_finds (names : List Name) (hc : d.IsCluster c) (result : FoundEntry)
    (hresult : names = [] → ∃ c k, FoundAt d deviceAlignment v c k result) :
    Triple (fun w => w.kept = (o, v.data, v.fsInfo))
      (searchInformationNames d deviceAlignment fuel searchType names (d.sectorOf c) result)
      (fun found w => (∃ c k, FoundAt d deviceAlignment v c k found) ∧ w.kept = (o, v.data, v.fsInfo))
      (fun _ => True) := by
  induction names generalizing c result with
  | nil => exact .ret fun w hw => ⟨hresult rfl, hw⟩
  | cons partialName names ih =>
    unfold searchInformationNames
    refine .ite (fun _ => .fail fun _ _ => trivial) fun _ => .bind (informationWalk_finds hmet hc _ _)
      fun found => .assume fun hfound => ?_
    obtain ⟨found, rfl, c', k, hat⟩ := hfound
    dsimp only [Option.getD_some]
    rw [hat.searchResult]
    exact ih hat.first found fun _ => ⟨c', k, hat⟩

/-- An open of any file but the root directory finds its entry, if there is memory for the search. -/
theorem fatSearchInformation_finds (hroot : name.length ≠ 1) :
    Triple (fun w => w.kept = (o, v.data, v.fsInfo))
      (fatSearchInformation d deviceAlignment fuel name searchType)
      (fun found w => (∃ c k, FoundAt d deviceAlignment v c k found) ∧ w.kept = (o, v.data, v.fsInfo))
      (fun _ => True) := by
  unfold fatSearchInformation
  refine .ite (fun _ => .fail fun _ _ => trivial) fun _ => .ite (fun hone => absurd hone hroot) fun _ => ?_
  exact searchInformationNames_finds hmet _ ⟨d.rootCluster_ge, d.rootCluster_le⟩ _
    fun hnil => absurd hnil (splitPath_ne_nil _ _)

end Runs

theorem kept_searchInformationNames (names : List Name) (sector : ℕ) (result : FoundEntry) :
    Preserves World.kept (searchInformationNames d deviceAlignment fuel searchType names sector result) := by
  induction names generalizing sector result with
  | nil => exact .ret _
  | cons partialName names ih =>
    unfold searchInformationNames
    exact .ite (.fail _) (.bind (kept_walkDirectory _ _ _ _) fun _ => ih _ _)

theorem kept_fatSearchInformation :
    Preserves World.kept (fatSearchInformation d deviceAlignment fuel name searchType) :=
  .ite (.fail _) (.ite (.ite (.fail _) (.ret _)) (kept_searchInformationNames _ _ _))

end Found

/-! ### Runs of opens, writes and queries -/

def FoundEntry.fcb (found : FoundEntry) : Io.Fcb where
  fileOffsetInVolume := BitVec.ofNat 64 found.searchResult
  parentOffsetInVolume := BitVec.ofNat 64 found.parentSector
  fileInformation := ⟨found.fileInformation.fileSize, found.fileInformation.fileAttributes⟩

def nameOf (fileName : String) : Name := fileName.toList.map fun c => BitVec.ofNat 8 c.toNat

/-- The calls of `_FatDispatchCreate` before the file control block is allocated. -/
def fatDispatchCreate (d : FatData) (deviceAlignment : QWORD) (fuel : ℕ) (file : Io.FsFileObject)
    (now : DateTime) : FatM FoundEntry := do
  let fileType := if file.directoryFile then attrDirectory else attrNormal
  if file.create then fatCreateByName d fuel (nameOf file.fileName) fileType now
  fatSearchInformation d deviceAlignment fuel (nameOf file.fileName) fileType

/-- The functions of `fat_operations.c` have returned a success and what the search has found. -/
def answering (e : Io.FileEnvironment) (found : FoundEntry) : Io.FileEnvironment :=
  { e with device := { e.device with
      fatCreateDirectoryEntry := fun _ _ => .done Io.statusSuccess
      fatSearch := fun _ _ => .done (Io.statusSuccess, found.fcb) } }

/-- An open handle, and the slot of the entry of its file. -/
structure OpenEntry where
  handle : Io.FileHandle
  cluster : ℕ
  index : ℕ

structure FileState where
  volume : Volume
  opened : List OpenEntry

def OpenEntry.entry (o : OpenEntry) (d : FatData) (v : Volume) : DirEntry := v.slotEntry d o.cluster o.index

def FileState.clusters (s : FileState) : Set ℕ := {c | ∃ o ∈ s.opened, o.cluster = c}

/-- The request of a write through a handle. -/
def writeRequest (handle : Io.FileHandle) (call : Io.ReadWriteCall) : FileRequest :=
  ⟨true, call.fileOffset.getD handle.position.currentByteOffset, call.length⟩

/-- The arguments of an open, with the slot and the entry that its search finds. -/
structure OpenArgs where
  call : Io.CreateCall
  now : DateTime
  cluster : ℕ
  index : ℕ
  entry : DirEntry

inductive FileCall
  | openFile (args : OpenArgs)
  | write (handle : ℕ) (call : Io.ReadWriteCall) (buffer : ℕ → ℕ → DirEntry) (now : DateTime)
  | queryInformation (handle : ℕ)

structure FileLabel where
  call : FileCall
  environment : Io.FileEnvironment
  outcome : Outcome

/-- An open finds an entry or fails, a write is a success, and a query returns. -/
inductive FileStep (d : FatData) (deviceAlignment : QWORD) (s : FileState) : FileLabel → FileState → Prop
  | opened {e : Io.FileEnvironment} {o : Outcome} {args : OpenArgs} {fuel : ℕ} {found : FoundEntry}
      {w : World} {status : Io.STATUS} {handle : Io.FileHandle}
      (hrun : fatDispatchCreate d deviceAlignment fuel args.call.fileObject args.now ⟨s.volume, 0, o⟩ =
        .ok (.ok found, w))
      (hfound : FoundAt d deviceAlignment w.volume args.cluster args.index found)
      (hentry : w.volume.slotEntry d args.cluster args.index = args.entry)
      (hcall : Io.returned (Io.ioCreateFile (answering e found) args.call) = some (status, some handle)) :
      FileStep d deviceAlignment s ⟨.openFile args, e, o⟩
        ⟨w.volume, s.opened ++ [⟨handle, args.cluster, args.index⟩]⟩
  | notOpened {e : Io.FileEnvironment} {o : Outcome} {args : OpenArgs} {fuel : ℕ} {status : FatStatus}
      {w : World}
      (hrun : fatDispatchCreate d deviceAlignment fuel args.call.fileObject args.now ⟨s.volume, 0, o⟩ =
        .ok (.error status, w)) :
      FileStep d deviceAlignment s ⟨.openFile args, e, o⟩ ⟨w.volume, s.opened⟩
  | written {e : Io.FileEnvironment} {o : Outcome} {i : ℕ} {call : Io.ReadWriteCall}
      {buffer : ℕ → ℕ → DirEntry} {now : DateTime} {h : OpenEntry} {fcb : Io.Fcb}
      {r : ℕ × List (ℕ → DirEntry)} {w : World} {status : Io.STATUS} {handle : Io.FileHandle}
      (hget : s.opened[i]? = some h) (hfcb : h.handle.file.fsContext2 = some fcb)
      (hwrite : call.write = true)
      (hrun : ioReadWriteFile d deviceAlignment e.irpAllocated fcb.fileOffsetInVolume.toNat
        fcb.parentOffsetInVolume.toNat (writeRequest h.handle call) buffer now ⟨s.volume, 0, o⟩ =
          .ok (.ok r, w))
      (hcall : Io.returned (Io.ioReadWriteHandle e h.handle call) = some (status, handle)) :
      FileStep d deviceAlignment s ⟨.write i call buffer now, e, o⟩
        ⟨w.volume, s.opened.set i { h with handle := handle }⟩
  | queried {e : Io.FileEnvironment} {o : Outcome} {i : ℕ} {h : OpenEntry} {status : Io.STATUS}
      {output : Io.OutputBuffer} {handle : Io.FileHandle} (hget : s.opened[i]? = some h)
      (hcall : Io.returned (Io.ioQueryInformationFile e h.handle) = some (status, output, handle)) :
      FileStep d deviceAlignment s ⟨.queryInformation i, e, o⟩
        ⟨s.volume, s.opened.set i { h with handle := handle }⟩

/-- The size that a query through the handle reports. -/
def reportedSize (e : Io.FileEnvironment) (handle : Io.FileHandle) : Option QWORD :=
  match Io.returned (Io.ioQueryInformationFile e handle) with
  | some (_, .fileInformation information, _) => some information.fileSize
  | _ => none

/-- Both sizes of an open file are the one in its directory. -/
structure OpenEntry.Current (d : FatData) (v : Volume) (h : OpenEntry) : Prop where
  getFileSize : Io.ioGetFileSize h.handle = (h.entry d v).fileSize.setWidth 64
  queryInformation : ∀ e : Io.FileEnvironment, e.irpAllocated = true →
    reportedSize e h.handle = some ((h.entry d v).fileSize.setWidth 64)

def CurrentSizes (d : FatData) (s : FileState) : Prop := ∀ h ∈ s.opened, h.Current d s.volume

/-- The size that `FatWriteFile` computes for the file, as a `DWORD`. -/
def nextByteToWrite (d : FatData) (r : FileRequest) : DWORD :=
  BitVec.ofNat 32 (r.offset.toNat / d.bytesPerSector + r.length.toNat / d.bytesPerSector) *
    BitVec.ofNat 32 d.bytesPerSector

/-- A write to the file of an open handle does not come to the entries of open files, and does not end
behind the size in an entry of them. -/
structure WriteFits (d : FatData) (s : FileState) (h : OpenEntry) (r : FileRequest) : Prop where
  off : KeepsOff d s.volume s.clusters (h.entry d s.volume).fstClus.toNat
  size : ∀ h' ∈ s.opened, h'.cluster = h.cluster →
    findDirEntry d s.volume (d.sectorOf h.cluster) (h.entry d s.volume).fstClus.toNat d.entriesPerCluster 0 =
      some h'.index → nextByteToWrite d r ≤ (h'.entry d s.volume).fileSize

/-- A file is created in a free slot, and FSInfo does not name a cluster of a directory as free. -/
def CreateFits (d : FatData) (s : FileState) : Prop :=
  ∀ h ∈ s.opened, (h.entry d s.volume).isFree = false ∧ h.cluster ≠ s.volume.fsInfo.nxtFree.toNat

def KeepsSizes (d : FatData) (deviceAlignment : QWORD) (s : FileState) (a : FileLabel) : Prop :=
  match a.call with
  | .openFile args => a.environment.device.fcbAllocated = true ∧
      alignAddressUpper (args.entry.fileSize.setWidth 64) deviceAlignment =
        args.entry.fileSize.setWidth 64 ∧
      (args.call.create = true → CreateFits d s)
  | .write i call _ _ => ∀ h, s.opened[i]? = some h →
      (writeRequest h.handle call).length.toNat / d.bytesPerSector ≠ 0 →
        WriteFits d s h (writeRequest h.handle call)
  | .queryInformation _ => True

/-- The control block of an open file: what the search has put into it. -/
structure OpenEntry.Held (d : FatData) (v : Volume) (h : OpenEntry) (fcb : Io.Fcb) : Prop where
  cluster : d.IsCluster h.cluster
  index_lt : h.index < d.entriesPerCluster
  first : d.IsCluster (h.entry d v).fstClus.toNat
  context : h.handle.file.fsContext2 = some fcb
  fileOffset : fcb.fileOffsetInVolume = BitVec.ofNat 64 (d.sectorOf (h.entry d v).fstClus.toNat)
  parentOffset : fcb.parentOffsetInVolume = BitVec.ofNat 64 (d.sectorOf h.cluster)
  information : fcb.fileInformation.fileSize = (h.entry d v).fileSize.setWidth 64
  fileSize : h.handle.file.fileSize = (h.entry d v).fileSize.setWidth 64

section Steps

variable {s s' : FileState} {a : FileLabel} {h : OpenEntry} {fcb : Io.Fcb} {v v' : Volume}

theorem OpenEntry.Held.current (hh : h.Held d v fcb) : h.Current d v := by
  refine ⟨hh.fileSize, fun e hirp => ?_⟩
  have hquery : Io.returned (Io.ioQueryInformationFile e h.handle) =
      some (Io.statusSuccess, .fileInformation fcb.fileInformation, h.handle) := by
    unfold Io.ioQueryInformationFile
    rw [Io.callFileSystem_query, if_neg (not_not.mpr hirp), hh.context]
    rfl
  unfold reportedSize
  rw [hquery, ← hh.information]

/-- The entry has the same first cluster and the same size. -/
theorem OpenEntry.Held.congr (hh : h.Held d v fcb) (hfirst : (h.entry d v').fstClus = (h.entry d v).fstClus)
    (hsize : (h.entry d v').fileSize = (h.entry d v).fileSize) : h.Held d v' fcb := by
  obtain ⟨hc, hk, hf, hcontext, hoffset, hparent, hinformation, hfile⟩ := hh
  rw [← hfirst] at hf hoffset
  rw [← hsize] at hinformation hfile
  exact ⟨hc, hk, hf, hcontext, hoffset, hparent, hinformation, hfile⟩

theorem OpenEntry.Held.of_file {handle : Io.FileHandle} (hh : h.Held d v fcb)
    (hfile : handle.file = h.handle.file) : ({ h with handle := handle } : OpenEntry).Held d v fcb :=
  ⟨hh.cluster, hh.index_lt, hh.first, hfile ▸ hh.context, hh.fileOffset, hh.parentOffset, hh.information,
    hfile ▸ hh.fileSize⟩

theorem fileSize_of_populate {e : DirEntry} {information : FileInformation}
    (h : fatPopulateFileInformationFromFatEntry deviceAlignment e = .ok information) :
    information.fileSize = alignAddressUpper (e.fileSize.setWidth 64) deviceAlignment := by
  unfold fatPopulateFileInformationFromFatEntry at h
  dsimp only at h
  by_cases hvolume : e.attr &&& attrVolumeId = attrVolumeId
  · rw [if_pos hvolume] at h
    cases h
    rfl
  · rw [if_neg hvolume] at h
    cases hc : convertFatDateTimeToDateTime e.crtDate e.crtTime with
    | none =>
      rw [hc] at h
      cases h
    | some created =>
      cases hw : convertFatDateTimeToDateTime e.wrtDate e.wrtTime with
      | none =>
        rw [hc, hw] at h
        cases h
      | some written =>
        rw [hc, hw] at h
        cases h
        rfl

/-- The handle that `IoCreateFile` returns for what the search has found. -/
theorem handle_of_open {e : Io.FileEnvironment} {found : FoundEntry} {call : Io.CreateCall}
    {status : Io.STATUS} {handle : Io.FileHandle}
    (hcall : Io.returned (Io.ioCreateFile (answering e found) call) = some (status, some handle)) :
    handle = ⟨Io.allocateFcb e.device call.fileObject found.fcb, ⟨call.asynchronous, 0⟩⟩ := by
  obtain ⟨hpath, hmounted, hirp, hobject, -⟩ := Io.reaches_of_ioCreateFile hcall
  have hentry : Io.fatCreateEntry (answering e found).volume (answering e found).device call.fileObject 0 =
      .ok (Io.statusSuccess, 0) := by
    unfold Io.fatCreateEntry
    split_ifs <;> rfl
  have hrun := Io.fatCreate_of_found hentry (by decide) (rfl : (((answering e found).device.fatSearch
    call.fileObject.fileName call.fileObject.directoryFile).run (answering e found).volume 0 =
      .ok ((Io.statusSuccess, found.fcb), 0))) (by decide)
  rw [Io.ioCreateFile_eq hpath hmounted hirp hobject, Io.returned_map] at hcall
  unfold Io.returned at hcall
  rw [hrun] at hcall
  dsimp only [Option.map] at hcall
  rw [if_pos (by decide)] at hcall
  cases hcall
  rfl

/-- Opening a file leaves the entries of the open files as they are. -/
theorem entry_of_dispatchCreate {file : Io.FsFileObject} {fuel : ℕ} {now : DateTime} {o : Outcome}
    {r : Except FatStatus FoundEntry} {w : World}
    (hheld : ∀ h ∈ s.opened, d.IsCluster h.cluster ∧ h.index < d.entriesPerCluster)
    (hcreate : file.create = true → CreateFits d s)
    (hrun : fatDispatchCreate d deviceAlignment fuel file now ⟨s.volume, 0, o⟩ = .ok (r, w))
    (hh : h ∈ s.opened) : h.entry d w.volume = h.entry d s.volume := by
  have hkeep : ∀ {name : Name} {searchType : BYTE} {P : Volume → Prop}, (∀ v v', v'.data = v.data → P v → P v') →
      Triple (At P) (fatSearchInformation d deviceAlignment fuel name searchType) (fun _ => At P) (At P) := by
    intro name searchType P hP u r u' hu hsearch
    have hdata : u'.volume.data = u.volume.data :=
      congrArg (·.2.1) (kept_fatSearchInformation u r u' hsearch)
    cases r with
    | ok found => exact hP _ _ hdata hu
    | error status => exact hP _ _ hdata hu
  unfold fatDispatchCreate at hrun
  by_cases hnew : file.create = true
  · rw [if_pos hnew] at hrun
    have hfits := hcreate hnew
    have hE : ∀ c ∈ s.clusters, d.IsCluster c := by
      rintro c ⟨h', hh', rfl⟩
      exact (hheld h' hh').1
    have hne : ∀ c ∈ s.clusters, c ≠ s.volume.fsInfo.nxtFree.toNat := by
      rintro c ⟨h', hh', rfl⟩
      exact (hfits h' hh').2
    have hused := Triple.bind (fatCreateByName_usedKept hE hne) (fun _ => hkeep fun v v' hdata hv e he k hk
      hfree => (slotEntry_of_data hdata e k).trans (hv e he k hk hfree)) ⟨s.volume, 0, o⟩ r w rfl hrun
    have hkept : UsedRecordsKept d s.volume s.clusters w.volume := by
      cases r with
      | ok found => exact hused
      | error status => exact hused
    exact hkept h.cluster ⟨h, hh, rfl⟩ h.index (hheld h hh).2 (hfits h hh).1
  · rw [if_neg hnew] at hrun
    have hsame := hkeep (P := fun v => v.data = s.volume.data) (fun v v' hdata hv => hdata.trans hv)
      ⟨s.volume, 0, o⟩ r w rfl hrun
    have hdata : w.volume.data = s.volume.data := by
      cases r with
      | ok found => exact hsame
      | error status => exact hsame
    exact slotEntry_of_data hdata h.cluster h.index

theorem toNat_sectorOf {c : ℕ} (hc : d.IsCluster c) :
    (BitVec.ofNat 64 (d.sectorOf c)).toNat = d.sectorOf c := by
  have hlt := (d.inCluster_sectorOf c).sector_lt hc
  rw [BitVec.toNat_ofNat]
  exact Nat.mod_eq_of_lt (by omega)

theorem fatWriteFile_zero {base offset parent : ℕ} {buffer : ℕ → ℕ → DirEntry} {now : DateTime} :
    Triple (At (· = v)) (fatWriteFile d base offset parent buffer 0 now) (fun _ => At (· = v))
      (At fun _ => True) := by
  unfold fatWriteFile
  exact .bind assert_at fun _ => .ite (fun _ => .ret fun w hw => hw.2) fun hne => absurd rfl hne

/-- A write that fits leaves the first clusters and the sizes of the open files. -/
theorem entry_of_write {r : FileRequest} {irpAllocated : Bool} {buffer : ℕ → ℕ → DirEntry}
    {now : DateTime} {o : Outcome} {res : ℕ × List (ℕ → DirEntry)} {w : World}
    (hheld : ∀ h ∈ s.opened, ∃ fcb, h.Held d s.volume fcb) (hh : h ∈ s.opened)
    (hcontext : h.handle.file.fsContext2 = some fcb) (hwrite : r.write = true)
    (hfits : r.length.toNat / d.bytesPerSector ≠ 0 → WriteFits d s h r)
    (hrun : ioReadWriteFile d deviceAlignment irpAllocated fcb.fileOffsetInVolume.toNat
      fcb.parentOffsetInVolume.toNat r buffer now ⟨s.volume, 0, o⟩ = .ok (.ok res, w))
    {h' : OpenEntry} (hh' : h' ∈ s.opened) :
    (h'.entry d w.volume).fstClus = (h'.entry d s.volume).fstClus ∧
      (h'.entry d w.volume).fileSize = (h'.entry d s.volume).fileSize := by
  obtain ⟨fcb', hf⟩ := hheld h hh
  obtain ⟨fcb'', hf'⟩ := hheld h' hh'
  obtain rfl : fcb' = fcb := Option.some.inj (hf.context.symm.trans hcontext)
  obtain ⟨n, data⟩ := res
  obtain ⟨count, -, -, hcall⟩ := (succeeded_of_run hrun).written hwrite
  rw [hf.fileOffset, hf.parentOffset, toNat_sectorOf hf.first, toNat_sectorOf hf.cluster] at hcall
  by_cases hzero : r.length.toNat / d.bytesPerSector = 0
  · rw [hzero] at hcall
    have hsame : w.volume = s.volume := fatWriteFile_zero ⟨s.volume, 0, o⟩ _ w rfl hcall
    rw [hsame]
    exact ⟨rfl, rfl⟩
  have hE : ∀ c ∈ s.clusters, d.IsCluster c := by
    rintro c ⟨h₁, hh₁, rfl⟩
    obtain ⟨fcb₁, hf₁⟩ := hheld h₁ hh₁
    exact hf₁.cluster
  obtain ⟨hoff, hsize⟩ := hfits hzero
  obtain ⟨j, hfound, hslots⟩ := fatWriteFile_entryWritten hE ⟨h, hh, rfl⟩ hf.first hoff hzero
    ⟨s.volume, 0, o⟩ _ w rfl hcall
  have hslot : h'.entry d w.volume = _ := hslots h'.cluster ⟨h', hh', rfl⟩ h'.index hf'.index_lt
  rw [hslot]
  split_ifs with heq
  · obtain ⟨hcluster, rfl⟩ := heq
    have hentry : h'.entry d s.volume = s.volume.slotEntry d h.cluster h'.index := by
      rw [← hcluster]
      rfl
    have hle := hsize h' hh' hcluster hfound
    rw [hentry] at hle ⊢
    exact ⟨rfl, if_neg (BitVec.not_lt.mpr hle)⟩
  · exact ⟨rfl, rfl⟩

/-- A step that meets the condition leaves the control blocks as the directory has the files. -/
theorem held_of_step (hheld : ∀ h ∈ s.opened, ∃ fcb, h.Held d s.volume fcb)
    (ha : KeepsSizes d deviceAlignment s a) (hs : FileStep d deviceAlignment s a s') :
    ∀ h ∈ s'.opened, ∃ fcb, h.Held d s'.volume fcb := by
  have hslots : ∀ h ∈ s.opened, d.IsCluster h.cluster ∧ h.index < d.entriesPerCluster := by
    intro h hh
    obtain ⟨fcb, hf⟩ := hheld h hh
    exact ⟨hf.cluster, hf.index_lt⟩
  have hset : ∀ {i : ℕ} {h₀ : OpenEntry} {handle : Io.FileHandle} {v : Volume}, s.opened[i]? = some h₀ →
      handle.file = h₀.handle.file → (∀ h ∈ s.opened, ∃ fcb, h.Held d v fcb) →
        ∀ h ∈ s.opened.set i { h₀ with handle := handle }, ∃ fcb, h.Held d v fcb := by
    intro i h₀ handle v hget hfile hall h hh
    rcases List.mem_or_eq_of_mem_set hh with hold | rfl
    · exact hall h hold
    · obtain ⟨fcb, hf⟩ := hall h₀ (List.mem_of_getElem? hget)
      exact ⟨fcb, hf.of_file hfile⟩
  cases hs with
  | @opened e o args fuel found w status handle hrun hfound hentry hcall =>
    obtain ⟨hallocated, haligned, hcreate⟩ := ha
    intro h hh
    rcases List.mem_append.mp hh with hold | hnew
    · obtain ⟨fcb, hf⟩ := hheld h hold
      have hsame := entry_of_dispatchCreate hslots hcreate hrun hold
      exact ⟨fcb, hf.congr (by rw [hsame]) (by rw [hsame])⟩
    · obtain rfl := List.mem_singleton.mp hnew
      have hhandle := handle_of_open hcall
      have hfile : handle.file = { args.call.fileObject with
          fileSize := found.fcb.fileInformation.fileSize
          fsContext2 := some found.fcb } := by
        rw [hhandle]
        exact if_pos hallocated
      have hsize : found.fileInformation.fileSize = (w.volume.slotEntry d args.cluster args.index).fileSize.setWidth 64 := by
        rw [fileSize_of_populate hfound.information, hentry]
        exact haligned
      refine ⟨found.fcb, hfound.cluster, hfound.index_lt, hfound.first, ?_, ?_, ?_, hsize, ?_⟩
      · rw [hfile]
      · exact congrArg (BitVec.ofNat 64) hfound.searchResult
      · exact congrArg (BitVec.ofNat 64) hfound.parentSector
      · rw [hfile]
        exact hsize
  | @notOpened e o args fuel status w hrun =>
    obtain ⟨-, -, hcreate⟩ := ha
    intro h hh
    obtain ⟨fcb, hf⟩ := hheld h hh
    have hsame := entry_of_dispatchCreate hslots hcreate hrun hh
    exact ⟨fcb, hf.congr (by rw [hsame]) (by rw [hsame])⟩
  | @written e o i call buffer now h₀ fcb₀ r w status handle hget hfcb hwrite hrun hcall =>
    refine hset hget (Io.file_of_readWrite hcall) fun h hh => ?_
    obtain ⟨fcb, hf⟩ := hheld h hh
    obtain ⟨hfirst, hsize⟩ := entry_of_write hheld (List.mem_of_getElem? hget) hfcb rfl (ha h₀ hget) hrun hh
    exact ⟨fcb, hf.congr hfirst hsize⟩
  | @queried e o i h₀ status output handle hget hcall =>
    exact hset hget (Io.file_of_query hcall) hheld

/-- The sizes of the open files are those in the directory as long as every file that is opened has a
size that the alignment leaves, and no write goes behind the size of its file. -/
theorem always_currentSizes {v₀ : Volume} {tr : List (FileState × FileLabel)}
    (h : Exec (FileStep d deviceAlignment) ⟨v₀, []⟩ tr s)
    (hq : ∀ x ∈ tr, KeepsSizes d deviceAlignment x.1 x.2) : Always (CurrentSizes d) tr s := by
  have hheld : Always (fun s => ∀ h ∈ s.opened, ∃ fcb, h.Held d s.volume fcb) tr s :=
    h.always_of_steps (fun _ hnone => absurd hnone List.not_mem_nil)
      (fun s a s' hi ha hs => held_of_step hi ha hs) hq
  exact hheld.mono fun s hs h hh => (hs h hh).elim fun fcb hf => hf.current

end Steps

section OneSector

/-- The first entry of the root directory is a file of one cluster, cluster 3. -/
def listedFile (fileSize : DWORD) : Volume where
  fat c := if c < 4 then fat32EocMark else 0
  fsInfo := .signed 100 4
  data s i := if s = 1056 ∧ i = 0 then
    { DirEntry.new (fun i => if i = 0 then 0x41 else 0x20) 0x20 3 noon with fileSize := fileSize }
  else .zero

def listedFound (fileSize : DWORD) : FoundEntry where
  searchResult := 1057
  parentSector := 1056
  fileInformation := ⟨some (⟨1, 1, 2025⟩, ⟨0, 0, 12⟩), some (⟨1, 1, 2025⟩, ⟨0, 0, 12⟩),
    alignAddressUpper (fileSize.setWidth 64) 512, fileAttributeNormal⟩

def openListed (fileSize : DWORD) : FileLabel :=
  ⟨.openFile ⟨Io.openCall, noon, 2, 0, (listedFile fileSize).slotEntry smallDisk 2 0⟩,
    (Io.openLabel true).environment, fun _ _ _ => true⟩

/-- One sector is written at the start of the file. -/
def writeListed : FileLabel :=
  ⟨.write 0 ⟨true, 512, some 0⟩ (fun _ _ => .zero) noon, (Io.openLabel true).environment,
    fun _ _ _ => true⟩

def listedHandle (fileSize : DWORD) : OpenEntry where
  handle := ⟨Io.allocateFcb (Io.volumeWithFile true) Io.openCall.fileObject (listedFound fileSize).fcb,
    ⟨false, 0⟩⟩
  cluster := 2
  index := 0

variable {fileSize : DWORD} (hsize : fileSize = 0 ∨ fileSize = 512)

include hsize

theorem listedFile_fstClus : ((listedFile fileSize).slotEntry smallDisk 2 0).fstClus.toNat = 3 := by
  rcases hsize with rfl | rfl <;> rfl

theorem openListed_step : FileStep smallDisk 512 ⟨listedFile fileSize, []⟩
    (openListed fileSize) ⟨listedFile fileSize, [listedHandle fileSize]⟩ := by
  have hrun : fatDispatchCreate smallDisk 512 2 Io.openCall.fileObject noon
      ⟨listedFile fileSize, 0, fun _ _ _ => true⟩ =
        .ok (.ok (listedFound fileSize), ⟨listedFile fileSize, 2, fun _ _ _ => true⟩) := by
    rcases hsize with rfl | rfl <;> rfl
  have hfound : FoundAt smallDisk 512 (listedFile fileSize) 2 0 (listedFound fileSize) := by
    refine ⟨⟨by decide, by decide⟩, by decide, ?_, ?_, rfl, ?_⟩
    · rw [listedFile_fstClus hsize]
      exact ⟨by decide, by decide⟩
    · rw [listedFile_fstClus hsize]
      rfl
    · rcases hsize with rfl | rfl <;> rfl
  have hcall : Io.returned (Io.ioCreateFile (answering (Io.openLabel true).environment
      (listedFound fileSize)) Io.openCall) = some (Io.statusSuccess, some (listedHandle fileSize).handle) := by
    rcases hsize with rfl | rfl <;> rfl
  have hentry : (listedFile fileSize).slotEntry smallDisk 2 0 = (listedFile fileSize).slotEntry smallDisk 2 0 :=
    Eq.refl _
  exact @FileStep.opened smallDisk 512 ⟨listedFile fileSize, []⟩ _ _ ⟨Io.openCall, noon, 2, 0, _⟩ 2 _ _ _ _
    hrun hfound hentry hcall

theorem writeListed_step : ∃ w handle, FileStep smallDisk 512
      ⟨listedFile fileSize, [listedHandle fileSize]⟩ writeListed ⟨w, [⟨handle, 2, 0⟩]⟩ ∧
    handle.file = (listedHandle fileSize).handle.file ∧
      (w.slotEntry smallDisk 2 0).fileSize = 512 := by
  have hrun : ∃ w, ioReadWriteFile smallDisk 512 true (listedFound fileSize).fcb.fileOffsetInVolume.toNat
      (listedFound fileSize).fcb.parentOffsetInVolume.toNat ⟨true, 0, 512⟩ (fun _ _ => .zero) noon
        ⟨listedFile fileSize, 0, fun _ _ _ => true⟩ = .ok (.ok (512, []), w) ∧
      (w.volume.slotEntry smallDisk 2 0).fileSize = 512 := by
    rcases hsize with rfl | rfl <;> exact ⟨_, rfl, by decide +kernel⟩
  obtain ⟨w, hrun, hentry⟩ := hrun
  have hcall : ∃ handle, Io.returned (Io.ioReadWriteHandle (Io.openLabel true).environment
      (listedHandle fileSize).handle ⟨true, 512, some 0⟩) = some (Io.statusSuccess, handle) := by
    rcases hsize with rfl | rfl <;> exact ⟨_, rfl⟩
  obtain ⟨handle, hcall⟩ := hcall
  exact ⟨w.volume, handle, @FileStep.written smallDisk 512 ⟨listedFile fileSize, [listedHandle fileSize]⟩ _ _ 0
    ⟨true, 512, some 0⟩ _ _ (listedHandle fileSize) (listedFound fileSize).fcb _ _ _ _ rfl rfl rfl hrun hcall,
    Io.file_of_readWrite hcall, hentry⟩

end OneSector

theorem fatSearchInformation_finds_listed :
    Triple (fun w => w.kept = (fun _ _ _ => true, (listedFile 512).data, (listedFile 512).fsInfo))
      (fatSearchInformation smallDisk 512 8 (nameOf "\\A") attrNormal)
      (fun found w => (∃ c k, FoundAt smallDisk 512 (listedFile 512) c k found) ∧
        w.kept = (fun _ _ _ => true, (listedFile 512).data, (listedFile 512).fsInfo))
      (fun _ => True) :=
  fatSearchInformation_finds (fun _ => rfl) (by decide)

theorem listedFile_writeFits : WriteFits smallDisk ⟨listedFile 512, [listedHandle 512]⟩ (listedHandle 512)
    ⟨true, 0, 512⟩ := by
  have hfirst : ((listedHandle 512).entry smallDisk (listedFile 512)).fstClus.toNat = 3 := rfl
  have hclusters : ∀ c ∈ (⟨listedFile 512, [listedHandle 512]⟩ : FileState).clusters, c = 2 := by
    rintro c ⟨h, hh, rfl⟩
    rw [List.mem_singleton.mp hh]
    rfl
  have hend : (listedFile 512).following smallDisk (smallDisk.sectorOf 3) = none :=
    following_of_eoc ⟨by decide, by decide⟩ (by decide)
  refine ⟨⟨fun c hc hreach => ?_, fun c hc => ?_⟩, fun h hh _ _ => ?_⟩
  · rw [hclusters c hc] at hreach
    dsimp only at hreach
    rw [hfirst] at hreach
    exact absurd ((reaches_iff_of_none hend).mp hreach) (by decide)
  · rw [hclusters c hc]
    decide
  · rw [List.mem_singleton.mp hh]
    decide

/-- A file of 512 bytes is opened, and its first sector is written. -/
theorem always_currentSizes_rewritten : ∃ tr s, Exec (FileStep smallDisk 512) ⟨listedFile 512, []⟩ tr s ∧
    tr.length = 2 ∧ Always (CurrentSizes smallDisk) tr s := by
  obtain ⟨w, handle, hwrite, hfile, hsize⟩ := writeListed_step (Or.inr rfl : (512 : DWORD) = 0 ∨ _)
  have hrun : Exec (FileStep smallDisk 512) ⟨listedFile 512, []⟩ _ ⟨w, [⟨handle, 2, 0⟩]⟩ :=
    .snoc (.snoc .nil (openListed_step (Or.inr rfl))) hwrite
  refine ⟨_, _, hrun, rfl, always_currentSizes hrun fun x hx => ?_⟩
  rcases List.mem_append.mp hx with hopen | hwrite
  · obtain rfl := List.mem_singleton.mp hopen
    exact ⟨rfl, by decide, fun hcreate => absurd hcreate Bool.false_ne_true⟩
  · obtain rfl := List.mem_singleton.mp hwrite
    intro h hget _
    obtain rfl : listedHandle 512 = h := Option.some.inj hget
    exact listedFile_writeFits

/-- A write that makes a file longer does not reach its open handle. -/
theorem not_always_currentSizes : ¬∀ d deviceAlignment v₀ tr s,
    Exec (FileStep d deviceAlignment) ⟨v₀, []⟩ tr s → Always (CurrentSizes d) tr s := by
  intro hall
  obtain ⟨w, handle, hwrite, hfile, hsize⟩ := writeListed_step (Or.inl rfl : (0 : DWORD) = 0 ∨ _)
  have hcurrent := hall smallDisk 512 _ _ _ (.snoc (.snoc .nil (openListed_step (Or.inl rfl))) hwrite)
  have hentry := (hcurrent.2 ⟨handle, 2, 0⟩ List.mem_cons_self).getFileSize
  have hreported : Io.ioGetFileSize handle = 0 := by
    unfold Io.ioGetFileSize
    rw [hfile]
    rfl
  rw [hreported, OpenEntry.entry, hsize] at hentry
  exact absurd hentry (by decide)

end HAL9000.Fat32
