import HAL9000.Fat32.EntryFrames
import HAL9000.Fat32.FreeClusters

/-! What `FatCreateDirectoryEntry` leaves when it fails. FSInfo and the entry are written before the number
of the new cluster is looked at, and nothing is undone. -/
namespace HAL9000.Fat32

open Program

variable (d : FatData)

/-- Where a new entry is placed, and FSInfo as it was read for it. -/
structure Placement where
  parentSector : ℕ
  finalSector : ℕ
  index : ℕ
  pFsInfo : FsInfo

/-- The steps of `FatCreateDirectoryEntry` between its searches and its first write. -/
def findPlace (fuel parentSector : ℕ) : FatM Placement := do
  let parentCluster ← clusterOfSector d parentSector
  let currentClusterInChain ← lastClusterOf d fuel parentCluster parentCluster
  let finalSector ← firstSectorOfCluster d currentClusterInChain
  exAllocatePool .createEntry
  ioDevice .read .createEntry
  let v ← volume
  let start := if finalSector = d.firstDataSector then 2 else 0
  match findFreeSlot d v finalSector (d.entriesPerSector * d.sectorsPerCluster - start) start with
  | none => Prog.fail .diskFull
  | some index =>
    exAllocatePool .createEntry
    ioDevice .read .createEntry
    let pFsInfo := (← volume).fsInfo
    if pFsInfo.freeCount = 0 then Prog.fail .diskFull
    else return ⟨parentSector, finalSector, index, pFsInfo⟩

/-- All steps before the first write. -/
def placeEntry (fuel : ℕ) (name : Name) : FatM Placement :=
  if fatDelimiter ∉ name then Prog.fail .pathNotValid
  else if (parentPath name).length ≥ maxPath ∨ (name.rtakeWhile (· ≠ fatDelimiter)).length > 11 then
    Prog.fault .danglingAccess
  else do
    let parent ← fatSearch d fuel (parentPath name) attrDirectory false
    let existing ← (fatSearch d fuel name attrNormal false).attempt
    let nameExists : Bool := match existing with
      | .ok _ => true
      | .error status => status = .fileTypeInvalid
    if nameExists then Prog.fail .fileAlreadyExists
    else findPlace d fuel parent.searchResult

/-- FSInfo after a cluster has been taken from it. -/
def FsInfo.taken (i : FsInfo) : FsInfo :=
  { i with freeCount := i.freeCount - 1, nxtFree := i.nxtFree + 1 }

/-- The steps from the first write on. -/
def writeEntry (p : Placement) (name : Fin 11 → BYTE) (fileAttributes : BYTE) (now : DateTime) :
    FatM Unit := do
  ioDevice .write .createEntry
  setVolume fun v => { v with fsInfo := p.pFsInfo.taken }
  ioDevice .write .createEntry
  setVolume (·.setEntryAt d p.finalSector p.index
    (DirEntry.new name fileAttributes p.pFsInfo.nxtFree now))
  createContents d p.parentSector p.pFsInfo.nxtFree.toNat fileAttributes now

variable {d} {c fuel parentSector : ℕ} {name : Name} {attr : BYTE} {now : DateTime} {w w' : World}

theorem FsInfo.taken_ne (i : FsInfo) : i.taken ≠ i := by
  intro h
  have hnext : i.nxtFree + 1 = i.nxtFree := congrArg FsInfo.nxtFree h
  exact absurd hnext (by bv_omega)

/-! ### The first write -/

theorem fatCreateDirectoryEntry_of_found {name : Fin 11 → BYTE} :
    fatCreateDirectoryEntry d fuel ⟨.ok parentSector, false, name, attr, now⟩ =
      findPlace d fuel parentSector >>= fun p => writeEntry d p name attr now := by
  unfold fatCreateDirectoryEntry findPlace
  dsimp only
  rw [Prog.pure_bind, if_neg Bool.false_ne_true]
  simp only [Prog.bind_assoc]
  refine congrArg _ (funext fun _ => congrArg _ (funext fun _ => congrArg _ (funext fun finalSector =>
    congrArg _ (funext fun _ => congrArg _ (funext fun _ => congrArg _ (funext fun v => ?_))))))
  generalize findFreeSlot d v finalSector _ _ = slot
  cases slot with
  | none => rfl
  | some index =>
    simp only [Prog.bind_assoc]
    refine congrArg _ (funext fun _ => congrArg _ (funext fun _ => congrArg _ (funext fun u => ?_)))
    split_ifs
    · rfl
    · rfl

theorem fatCreateByName_eq (name : Name) (attr : BYTE) (now : DateTime) :
    fatCreateByName d fuel name attr now =
      placeEntry d fuel name >>= fun p => writeEntry d p (newEntryName name) attr now := by
  unfold fatCreateByName placeEntry
  by_cases hpath : fatDelimiter ∉ name
  · rw [if_pos hpath, if_pos hpath]
    rfl
  rw [if_neg hpath, if_neg hpath]
  by_cases hlong : (parentPath name).length ≥ maxPath ∨ (name.rtakeWhile (· ≠ fatDelimiter)).length > 11
  · rw [if_pos hlong, if_pos hlong]
    rfl
  · rw [if_neg hlong, if_neg hlong]
    simp only [Prog.bind_assoc]
    refine congrArg _ (funext fun parent => congrArg _ (funext fun existing => ?_))
    cases existing with
    | ok found => rfl
    | error status =>
      by_cases htype : status = .fileTypeInvalid
      · rw [htype]
        rfl
      · simp only [decide_eq_false htype, Bool.false_eq_true, if_false]
        exact fatCreateDirectoryEntry_of_found

/-! ### Before the first write -/

theorem kept_findPlace : Preserves World.kept (findPlace d fuel parentSector) := by
  refine .bind (kept_clusterOfSector _) fun _ => .bind kept_lastClusterOf fun _ =>
    .bind kept_firstSectorOfCluster fun finalSector => .bind kept_exAllocatePool fun _ =>
      .bind kept_ioDevice fun _ => .bind kept_volume fun v => ?_
  dsimp only
  split
  · exact .fail _
  · exact .bind kept_exAllocatePool fun _ => .bind kept_ioDevice fun _ => .bind kept_volume fun _ =>
      .ite (.fail _) (.ret _)

theorem kept_placeEntry (name : Name) : Preserves World.kept (placeEntry d fuel name) :=
  .ite (.fail _) (.ite (.fault _) (.bind kept_fatSearch fun _ => .bind (.attempt kept_fatSearch) fun _ =>
    .ite (.fail _) kept_findPlace))

/-- FSInfo is as it was read, and counts a free cluster. -/
theorem findPlace_found : Triple (fun _ => True) (findPlace d fuel parentSector)
    (fun p w => p.pFsInfo = w.volume.fsInfo ∧ p.pFsInfo.freeCount ≠ 0) (fun _ => True) := by
  unfold findPlace
  refine .bind (.any _) fun _ => .bind (.any _) fun _ => .bind (.any _) fun finalSector =>
    .bind (.any _) fun _ => .bind (.any _) fun _ => .bind (.any _) fun v => ?_
  dsimp only
  split
  · exact .fail fun _ _ => trivial
  · refine .bind (.any _) fun _ => .bind (.any _) fun _ =>
      volume_bind (P := fun _ => True) fun u _ => ?_
    exact .ite (fun _ => .fail fun _ _ => trivial) fun hcount => .ret fun w hw =>
      ⟨congrArg Volume.fsInfo hw.symm, hcount⟩

theorem placeEntry_found : Triple (fun _ => True) (placeEntry d fuel name)
    (fun p w => p.pFsInfo = w.volume.fsInfo ∧ p.pFsInfo.freeCount ≠ 0) (fun _ => True) := by
  exact .ite (fun _ => .fail fun _ _ => trivial) fun _ => .ite (fun _ => .fault) fun _ =>
    .bind (.any _) fun _ => .bind (.any _) fun _ => .ite (fun _ => .fail fun _ _ => trivial)
      fun _ => findPlace_found

/-! ### From the first write on -/

theorem fsInfo_of_kept {α : Type} {x : FatM α} (h : Preserves World.kept x) :
    Preserves (fun w => w.volume.fsInfo) x := fun w r w' hrun => congrArg (·.2.2) (h w r w' hrun)

theorem createContents_fsInfo : Preserves (fun w => w.volume.fsInfo)
    (createContents d parentSector c attr now) := by
  unfold createContents
  refine .bind (fsInfo_of_kept kept_exAllocatePool) fun _ => ?_
  extract_lets isDirectory fatEntrySector indexInSector rest
  have hrest : ∀ parentCluster, Preserves (fun w => w.volume.fsInfo) (rest parentCluster) := fun _ =>
    .bind (fsInfo_of_kept kept_firstSectorOfCluster) fun _ => .bind (fsInfo_of_kept kept_ioDevice)
      fun _ => .bind (.modify fun _ => rfl) fun _ => .bind (fsInfo_of_kept kept_exAllocatePool) fun _ =>
        .bind (fsInfo_of_kept kept_ioDevice) fun _ => .bind (fsInfo_of_kept kept_ioDevice) fun _ =>
          .modify fun _ => rfl
  exact .ite (.ite (hrest _) (.bind (fsInfo_of_kept (kept_clusterOfSector _)) hrest)) (hrest _)

/-- Once FSInfo is written it stays so. -/
theorem writeEntry_taken {o : Outcome} {p : Placement} {entryName : Fin 11 → BYTE}
    (hmet : ∀ t, o .write .createEntry t = true) :
    Triple (AtWith o fun _ => True) (writeEntry d p entryName attr now)
      (fun _ => At (·.fsInfo = p.pFsInfo.taken)) (At (·.fsInfo = p.pFsInfo.taken)) := by
  refine .bind (ioDevice_met hmet) fun _ =>
    .bind (setVolume_with (Q := fun v => v.fsInfo = p.pFsInfo.taken) fun _ _ => rfl) fun _ =>
      .bind (ioDevice_met hmet) fun _ =>
        .bind (setVolume_with (Q := fun v => v.fsInfo = p.pFsInfo.taken) fun _ hv => hv) fun _ => ?_
  exact createContents_fsInfo.keeps.conseq (fun w hw => hw.2) (fun _ _ hw => hw) fun _ hw => hw

/-- A call that fails has written nothing exactly when it failed before its first write; otherwise the
volume has lost a free cluster. -/
theorem failed_creation (hio : w.IoSucceeds) {e : FatStatus}
    (h : fatCreateByName d fuel name attr now w = .ok (.error e, w')) :
    (w'.kept = w.kept ↔ placeEntry d fuel name w = .ok (.error e, w')) ∧
      (w'.kept ≠ w.kept → w'.volume.fsInfo = w.volume.fsInfo.taken ∧ w.volume.fsInfo.freeCount ≠ 0) := by
  rw [fatCreateByName_eq] at h
  rcases Prog.bind_returns h with ⟨e', he, hplace⟩ | ⟨p, w₁, hplace, hwrite⟩
  · obtain rfl := Except.error.inj he
    have hkept : w'.kept = w.kept := kept_placeEntry name w _ w' hplace
    exact ⟨iff_of_true hkept hplace, fun hne => absurd hkept hne⟩
  · have hkept : w₁.kept = w.kept := kept_placeEntry name w _ w₁ hplace
    have hinfo : w₁.volume.fsInfo = w.volume.fsInfo := congrArg (·.2.2) hkept
    obtain ⟨hread, hcount⟩ : p.pFsInfo = w₁.volume.fsInfo ∧ p.pFsInfo.freeCount ≠ 0 :=
      placeEntry_found w _ w₁ trivial hplace
    rw [hinfo] at hread
    have htaken : w'.volume.fsInfo = p.pFsInfo.taken :=
      writeEntry_taken (fun t => (hio _ t).2) w₁ _ w' ⟨congrArg Prod.fst hkept, trivial⟩ hwrite
    rw [hread] at htaken hcount
    refine ⟨iff_of_false (fun hsame => ?_) fun herror => ?_, fun _ => ⟨htaken, hcount⟩⟩
    · exact FsInfo.taken_ne _ (htaken.symm.trans (congrArg (·.2.2) hsame))
    · rw [hplace] at herror
      cases herror

/-- The hint of FSInfo that stands for no hint. -/
def unknownHint : World :=
  ⟨{ oneFile with fsInfo := { oneFile.fsInfo with nxtFree := 0xFFFFFFFF } }, 0, fun _ _ _ => true⟩

/-- A call that creates a file in the root directory. -/
def createB (w : World) : Except Fault (Except FatStatus Unit × World) :=
  fatCreateByName smallDisk 8 [fatDelimiter, 0x42] attrNormal noon w

private theorem createB_fails : ∃ e w', createB unknownHint = .ok (.error e, w') := by
  have hstatus : (createB unknownHint).toOption.map (·.1) = some (.error .deviceClusterInvalid) := by
    decide +kernel
  cases hrun : createB unknownHint with
  | error fault =>
    rw [hrun] at hstatus
    cases hstatus
  | ok r =>
    obtain ⟨r, w'⟩ := r
    rw [hrun] at hstatus
    exact ⟨_, w', by rw [show r = _ from Option.some.inj hstatus]⟩

theorem failed_creation_unknownHint : ∃ e w', createB unknownHint = .ok (.error e, w') ∧
    (w'.kept = unknownHint.kept ↔ placeEntry smallDisk 8 [fatDelimiter, 0x42] unknownHint =
        .ok (.error e, w')) ∧
      (w'.kept ≠ unknownHint.kept → w'.volume.fsInfo = unknownHint.volume.fsInfo.taken ∧
        unknownHint.volume.fsInfo.freeCount ≠ 0) := by
  obtain ⟨e, w', hrun⟩ := createB_fails
  exact ⟨e, w', hrun, failed_creation (fun _ _ => ⟨rfl, rfl⟩) hrun⟩

end HAL9000.Fat32
