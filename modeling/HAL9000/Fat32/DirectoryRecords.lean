import HAL9000.Fat32.DirectoryEntries

/-! `FatQueryDirectory` with the records it writes to the buffer of its caller. Without them it is the
call of `Searching`. -/
namespace HAL9000.Fat32

open Program

variable (d : FatData) {σ ρ σ' ρ' : Type}

structure Date where
  day : BYTE
  month : BYTE
  year : WORD
  deriving DecidableEq, Repr

structure Time where
  second : BYTE
  minute : BYTE
  hour : BYTE
  deriving DecidableEq, Repr

def fatStartYear : WORD := 1980

def convertFatDateToDate (date : WORD) : Option Date :=
  if isFatDate date then
    some ⟨(date &&& 0x1F).setWidth 8, ((date >>> 5) &&& 0xF).setWidth 8, (date >>> 9) + fatStartYear⟩
  else none

def convertFatTimeToTime (time : WORD) : Option Time :=
  if isFatTime time then
    some ⟨(time &&& 0x1F).setWidth 8 * 2, ((time >>> 5) &&& 0x3F).setWidth 8, (time >>> 11).setWidth 8⟩
  else none

def convertFatDateTimeToDateTime (date time : WORD) : Option (Date × Time) := do
  let date ← convertFatDateToDate date
  let time ← convertFatTimeToTime time
  return (date, time)

def fileAttributeNormal : DWORD := 0x01
def fileAttributeDirectory : DWORD := 0x02
def fileAttributeVolume : DWORD := 0x04

/-- The times are those that have been written. -/
structure FileInformation where
  creationTime : Option (Date × Time)
  lastWriteTime : Option (Date × Time)
  fileSize : QWORD
  fileAttributes : DWORD
  deriving DecidableEq, Repr

/-- The times of a volume label are not converted. -/
def fatPopulateFileInformationFromFatEntry (deviceAlignment : QWORD) (e : DirEntry) :
    Except Fault FileInformation :=
  let fileSize := alignAddressUpper (e.fileSize.setWidth 64) deviceAlignment
  if e.attr &&& attrVolumeId = attrVolumeId then .ok ⟨none, none, fileSize, fileAttributeVolume⟩
  else
    let fileAttributes :=
      if e.attr &&& attrDirectory = attrDirectory then fileAttributeDirectory else fileAttributeNormal
    match convertFatDateTimeToDateTime e.crtDate e.crtTime,
      convertFatDateTimeToDateTime e.wrtDate e.wrtTime with
    | some created, some written => .ok ⟨some created, some written, fileSize, fileAttributes⟩
    | _, _ => .error .assertFailed

/-- What has been written of a record. The field `FilenameLength` is the length of the name. -/
structure FileDirectoryInformation where
  nextEntryOffset : DWORD
  basicFileInformation : FileInformation
  shortFilename : Name
  filename : Name
  deriving DecidableEq, Repr

/-- Where the name begins in a record. -/
def offsetofFilename : ℕ := 60

/-- A buffer of `SHORT_NAME_MAX_LENGTH` characters. -/
abbrev ShortNameBuffer := Fin 16 → BYTE

/-- The name with a `'\0'` after it. -/
def ShortNameBuffer.copy (buffer : ShortNameBuffer) (name : Name) : ShortNameBuffer := fun i =>
  if i < name.length then name.getD i 0 else if i = name.length then 0 else buffer i

/-- An entry without a long name is listed by its short one. -/
def nameToList (longName : NameBuffer) (e : DirEntry) : NameBuffer × ℕ :=
  let longNameLength := (cString ((List.ofFn longName).take longNameMaxChars)).length
  if longNameLength = 0 then
    (longName.copy (convertFatNameToName e).1 (convertFatNameToName e).2, (convertFatNameToName e).2)
  else (longName, longNameLength)

/-- The records with their offsets in the buffer, the last one first. -/
structure RecordState extends QueryState where
  shortName : ShortNameBuffer
  curEntry : ℕ
  records : List (ℕ × FileDirectoryInformation)

/-- The offset of the record before is set. -/
def linkTo (curEntry : ℕ) :
    List (ℕ × FileDirectoryInformation) → List (ℕ × FileDirectoryInformation)
  | [] => []
  | (offset, r) :: records =>
    (offset, { r with nextEntryOffset := BitVec.ofNat 32 (curEntry - offset) }) :: records

/-- The entry is counted, and its name is the next one to be listed. -/
def RecordState.count (s : RecordState) (e : DirEntry) : RecordState :=
  { s with
    longName := (nameToList s.longName e).1.reset
    requiredSize := s.requiredSize +
      BitVec.ofNat 32 (sizeofFileDirectoryInformation + (nameToList s.longName e).2)
    shortName := s.shortName.copy (convertFatNameToName e).1 }

/-- A record is written where the last one ended. -/
def RecordState.record (s : RecordState) (e : DirEntry) (basicFileInformation : FileInformation) :
    RecordState :=
  { s.count e with
    curEntry := s.curEntry + (sizeofFileDirectoryInformation + (nameToList s.longName e).2)
    records :=
      (s.curEntry,
        { nextEntryOffset := 0
          basicFileInformation := basicFileInformation
          shortFilename := (List.ofFn (s.shortName.copy (convertFatNameToName e).1)).take
            (convertFatNameToName e).2
          filename := (List.ofFn (nameToList s.longName e).1).take (nameToList s.longName e).2 }) ::
        linkTo s.curEntry s.records }

/-- A name of no characters must not be copied. Whether a record is written depends on the size so far,
where it is written on the records before. -/
def recordShort (deviceAlignment : QWORD) (directoryInformationSize : DWORD) (s : RecordState)
    (e : DirEntry) :
    Except Fault (Visit RecordState (DWORD × List (ℕ × FileDirectoryInformation))) := do
  assertThat (0 ≠ (nameToList s.longName e).2)
  if (s.count e).requiredSize ≤ directoryInformationSize then
    let basicFileInformation ← fatPopulateFileInformationFromFatEntry deviceAlignment e
    if s.curEntry + offsetofFilename + (nameToList s.longName e).2 > directoryInformationSize.toNat then
      .error .danglingAccess
    else return .next (s.record e basicFileInformation)
  else return .next (s.count e)

/-- Returns the required size, and the records in the order of the buffer. -/
def recordWalk (deviceAlignment : QWORD) (directoryInformationSize : DWORD) :
    DirectoryWalk RecordState (DWORD × List (ℕ × FileDirectoryInformation)) where
  site := .queryDirectory
  visit _ := visitEntry (fun s longName => { s with longName := longName }) (·.longName)
    (recordShort deviceAlignment directoryInformationSize)
  finish s := .ok (s.requiredSize, s.records.reverse)
  outOfMemory := .error .heapNoMoreMemory

def RecordState.start : RecordState := ⟨⟨.empty, 0⟩, fun _ => 0, 0, []⟩

def fatQueryDirectoryInformation (fuel directorySector : ℕ) (deviceAlignment : QWORD)
    (directoryInformationSize : DWORD) : FatM (DWORD × List (ℕ × FileDirectoryInformation)) :=
  walkDirectory d (recordWalk deviceAlignment directoryInformationSize) fuel directorySector .start

namespace DirEntry

variable (e : DirEntry)

def unused : Bool := e.name 0 = freeEntry ∨ e.name 0 = freeJapEntry

def isLongPart : Bool := e.attr &&& attrLongNameMask = attrLongName

/-- An entry with a short name, of a file, a directory or the volume. -/
def isShort : Bool := !e.unused && !e.isLongPart

end DirEntry

/-- The records of a list of entries, none of which is left out, with no offsets yet. -/
def directoryRecords (deviceAlignment : QWORD) :
    NameBuffer → ShortNameBuffer → List DirEntry → Except Fault (List FileDirectoryInformation)
  | _, _, [] => .ok []
  | longName, shortName, e :: l =>
    if e.unused then directoryRecords deviceAlignment longName shortName l
    else if e.isLongPart then do
      let longName ← writePartialLongFatNameToName e longName
      directoryRecords deviceAlignment longName shortName l
    else do
      assertThat (0 ≠ (nameToList longName e).2)
      let basicFileInformation ← fatPopulateFileInformationFromFatEntry deviceAlignment e
      let shortName := shortName.copy (convertFatNameToName e).1
      let records ← directoryRecords deviceAlignment (nameToList longName e).1.reset shortName l
      return {
        nextEntryOffset := 0
        basicFileInformation := basicFileInformation
        shortFilename := (List.ofFn shortName).take (convertFatNameToName e).2
        filename := (List.ofFn (nameToList longName e).1).take (nameToList longName e).2 } :: records

namespace FileDirectoryInformation

def size (r : FileDirectoryInformation) : ℕ := sizeofFileDirectoryInformation + r.filename.length

/-- The sum of the sizes of records. -/
def totalSize (records : List FileDirectoryInformation) : ℕ := (records.map size).sum

/-- The records one after the other, each with the distance to the next one. -/
def place : ℕ → List FileDirectoryInformation → List (ℕ × FileDirectoryInformation)
  | _, [] => []
  | offset, [r] => [(offset, { r with nextEntryOffset := 0 })]
  | offset, r :: r' :: records =>
    (offset, { r with nextEntryOffset := BitVec.ofNat 32 r.size }) ::
      place (offset + r.size) (r' :: records)

/-- The records before the first one that does not fit. -/
def fitting (capacity : ℕ) : ℕ → List FileDirectoryInformation → List FileDirectoryInformation
  | _, [] => []
  | offset, r :: records =>
    if offset + r.size ≤ capacity then r :: fitting capacity (offset + r.size) records else []

end FileDirectoryInformation

variable {d} {e : DirEntry}

section Conversions

theorem convertFatDateTimeToDateTime_isSome (date time : WORD) :
    (convertFatDateTimeToDateTime date time).isSome = (isFatDate date && isFatTime time) := by
  unfold convertFatDateTimeToDateTime convertFatDateToDate convertFatTimeToTime
  cases isFatDate date <;> cases isFatTime time <;> rfl

/-- The conversions are asserted exactly for the entries with dates. -/
theorem fatPopulateFileInformation_ok_iff (deviceAlignment : QWORD) (e : DirEntry) :
    (∃ information, fatPopulateFileInformationFromFatEntry deviceAlignment e = .ok information) ↔
      e.hasDates = true := by
  have hcreated := convertFatDateTimeToDateTime_isSome e.crtDate e.crtTime
  have hwritten := convertFatDateTimeToDateTime_isSome e.wrtDate e.wrtTime
  unfold fatPopulateFileInformationFromFatEntry DirEntry.hasDates
  by_cases hvolume : e.attr &&& attrVolumeId = attrVolumeId
  · simp [hvolume]
  · cases hc : convertFatDateTimeToDateTime e.crtDate e.crtTime <;>
      cases hw : convertFatDateTimeToDateTime e.wrtDate e.wrtTime <;>
      simp_all

end Conversions

section Entries

variable {setName : σ → NameBuffer → σ} {getName : σ → NameBuffer}
  {short : σ → DirEntry → Except Fault (Visit σ ρ)} {s : σ}

theorem visitEntry_unused (h : e.unused = true) :
    visitEntry setName getName short s e = .ok (.next s) :=
  if_pos (by simpa [DirEntry.unused] using h)

theorem visitEntry_longPart (hused : e.unused = false) (h : e.isLongPart = true) :
    visitEntry setName getName short s e = (do
      let longName ← writePartialLongFatNameToName e (getName s)
      return .next (setName s longName)) := by
  unfold visitEntry
  rw [if_neg (by simpa [DirEntry.unused] using hused), if_pos (by simpa [DirEntry.isLongPart] using h)]

theorem visitEntry_isShort (h : e.isShort = true) :
    visitEntry setName getName short s e = short s e := by
  obtain ⟨hused, hlong⟩ : e.unused = false ∧ e.isLongPart = false := by
    simpa [DirEntry.isShort] using h
  exact visitEntry_short (by simpa [DirEntry.unused] using hused)
    (by simpa [DirEntry.isLongPart] using hlong)

theorem DirEntry.kinds (e : DirEntry) :
    e.unused = true ∨ (e.unused = false ∧ e.isLongPart = true) ∨ e.isShort = true := by
  unfold DirEntry.isShort
  cases e.unused <;> cases e.isLongPart <;> simp

end Entries

section Forgetting

variable {k : DirectoryWalk σ ρ} {k' : DirectoryWalk σ' ρ'} {f : σ → σ'} {g : ρ → ρ'} {v : Volume}

def Visit.map (f : σ → σ') (g : ρ → ρ') : Visit σ ρ → Visit σ' ρ'
  | .next s => .next (f s)
  | .stop r => .stop (r.map g)

/-- One walk does what another one does, on part of its state. -/
structure Forgets (k : DirectoryWalk σ ρ) (k' : DirectoryWalk σ' ρ') (f : σ → σ') (g : ρ → ρ') :
    Prop where
  site : k'.site = k.site
  visit : ∀ sector s e x, k.visit sector s e = .ok x → k'.visit sector (f s) e = .ok (x.map f g)
  finish : ∀ s, k'.finish (f s) = (k.finish s).map g
  outOfMemory : k'.outOfMemory = k.outOfMemory.map g

def Scan.map (f : σ → σ') (g : ρ → ρ') : Scan σ ρ → Scan σ' ρ'
  | .endOfCluster s => .endOfCluster (f s)
  | .endOfDirectory s => .endOfDirectory (f s)
  | .stop r => .stop (r.map g)

variable (h : Forgets k k' f g)

include h

theorem Forgets.scanCluster {sector : ℕ} {x : Scan σ ρ} (n index : ℕ) (s : σ)
    (hscan : scanCluster d k v sector n index s = .ok x) :
    scanCluster d k' v sector n index (f s) = .ok (x.map f g) := by
  induction n generalizing index s with
  | zero =>
    obtain rfl : Scan.endOfCluster s = x := by simpa [HAL9000.Fat32.scanCluster] using hscan
    rfl
  | succ n ih =>
    cases hvisit : k.visit sector s (v.entryAt d sector index) with
    | error fault =>
      rw [HAL9000.Fat32.scanCluster, hvisit] at hscan
      cases hscan
    | ok y =>
      have hvisit' := h.visit _ _ _ _ hvisit
      cases y with
      | stop r =>
        rw [HAL9000.Fat32.scanCluster, hvisit] at hscan
        change Except.ok (Scan.stop r) = .ok x at hscan
        obtain rfl : Scan.stop r = x := by simpa using hscan
        rw [HAL9000.Fat32.scanCluster, hvisit']
        rfl
      | next s' =>
        rw [scanCluster_of_next hvisit] at hscan
        rw [scanCluster_of_next hvisit']
        split_ifs at hscan ⊢ with hend
        · obtain rfl : Scan.endOfDirectory s' = x := by simpa using hscan
          rfl
        · exact ih _ _ hscan

omit h in
theorem answer_maps (r : Except FatStatus ρ) : Maps g (answer r) (answer (r.map g)) := by
  intro w r' w' hrun
  cases r with
  | error e =>
    obtain ⟨rfl, rfl⟩ : Except.error e = r' ∧ w = w' := by simpa [answer, Prog.fail] using hrun
    rfl
  | ok a =>
    obtain ⟨rfl, rfl⟩ : Except.ok a = r' ∧ w = w' := by simpa [answer, Pure.pure] using hrun
    rfl

theorem Forgets.walkDirectory (n sector : ℕ) (s : σ) :
    Maps g (walkDirectory d k n sector s) (walkDirectory d k' n sector (f s)) := by
  induction n generalizing sector s with
  | zero => exact .fault _
  | succ n ih =>
    have hfinish : ∀ s, Maps g (answer (k.finish s)) (answer (k'.finish (f s))) := fun s => by
      rw [h.finish]
      exact answer_maps _
    unfold HAL9000.Fat32.walkDirectory
    rw [h.site, h.outOfMemory]
    refine .bind_same fun met => .ite (answer_maps _) (.bind_same fun _ => .bind_same fun v =>
      .bind (.lift fun x hx => h.scanCluster _ _ _ hx) fun x => ?_)
    cases x with
    | stop r => exact answer_maps r
    | endOfDirectory s => exact hfinish s
    | endOfCluster s =>
      exact .bind_same fun met => .ite (hfinish s) (.bind_same fun next => .ite (hfinish s) (ih _ _))

end Forgetting

section Records

variable {deviceAlignment : QWORD} {size : DWORD} {s : RecordState}
  {x : Visit RecordState (DWORD × List (ℕ × FileDirectoryInformation))}

/-- What a listed entry does, when it fails no assertion and is written within the buffer. -/
theorem recordShort_eq_ok : recordShort deviceAlignment size s e = .ok x ↔
    (nameToList s.longName e).2 ≠ 0 ∧
      (if (s.count e).requiredSize ≤ size then
        ∃ information, fatPopulateFileInformationFromFatEntry deviceAlignment e = .ok information ∧
          s.curEntry + offsetofFilename + (nameToList s.longName e).2 ≤ size.toNat ∧
          x = .next (s.record e information)
      else x = .next (s.count e)) := by
  have hreturn : ∀ y : Visit RecordState (DWORD × List (ℕ × FileDirectoryInformation)),
      (pure y : Except Fault _) = .ok x ↔ x = y := fun y => ⟨fun h => by cases h; rfl, fun h => by rw [h]; rfl⟩
  unfold recordShort
  by_cases hname : 0 = (nameToList s.longName e).2
  · rw [assertThat_of_not (by simpa using hname)]
    exact iff_of_false (fun h => nomatch h) fun h => h.1 hname.symm
  · rw [assertThat_of (by simpa using hname), and_iff_right (Ne.symm hname)]
    change (if (s.count e).requiredSize ≤ size then _ else _) = _ ↔ _
    by_cases hfits : (s.count e).requiredSize ≤ size
    · rw [if_pos hfits, if_pos hfits]
      refine bind_eq_ok.trans (exists_congr fun information => and_congr_right fun _ => ?_)
      by_cases hbuffer : s.curEntry + offsetofFilename + (nameToList s.longName e).2 > size.toNat
      · rw [if_pos hbuffer]
        exact iff_of_false (fun h => nomatch h) fun h => absurd h.1 (Nat.not_le.mpr hbuffer)
      · rw [if_neg hbuffer, and_iff_right (Nat.not_lt.mp hbuffer)]
        exact hreturn _
    · rw [if_neg hfits, if_neg hfits]
      exact hreturn _

theorem queryShort_eq (s : QueryState) (size : DWORD) (e : DirEntry) : queryShort size s e =
    if (nameToList s.longName e).2 = 0 then .error .assertFailed
    else
      let requiredSize := s.requiredSize +
        BitVec.ofNat 32 (sizeofFileDirectoryInformation + (nameToList s.longName e).2)
      if requiredSize ≤ size ∧ ¬e.hasDates then .error .assertFailed
      else .ok (.next ⟨(nameToList s.longName e).1.reset, requiredSize⟩) := by
  unfold queryShort nameToList
  by_cases hlong : (cString ((List.ofFn s.longName).take longNameMaxChars)).length = 0
  · simp only [hlong, true_and, if_true]
  · simp only [hlong, false_and, if_false]

theorem recordWalk_visit (sector : ℕ) : (recordWalk deviceAlignment size).visit sector =
    visitEntry (fun s longName => { s with longName := longName }) (·.longName)
      (recordShort deviceAlignment size) := rfl

theorem queryWalk_visit (sector : ℕ) : (queryWalk size).visit sector =
    visitEntry (fun s longName => { s with longName := longName }) QueryState.longName
      (queryShort size) := rfl

/-- What a visit to an entry does when it fails no assertion: the walk goes on. -/
theorem recordWalk_cases {sector : ℕ} (h : (recordWalk deviceAlignment size).visit sector s e = .ok x) :
    (e.unused = true ∧ x = .next s) ∨
    (e.unused = false ∧ e.isLongPart = true ∧ ∃ longName,
      writePartialLongFatNameToName e s.longName = .ok longName ∧
        x = .next { s with longName := longName }) ∨
    (e.isShort = true ∧ recordShort deviceAlignment size s e = .ok x) := by
  rw [recordWalk_visit] at h
  rcases e.kinds with hunused | ⟨hused, hlong⟩ | hshort
  · rw [visitEntry_unused hunused] at h
    exact Or.inl ⟨hunused, by simpa using h.symm⟩
  · rw [visitEntry_longPart hused hlong] at h
    obtain ⟨longName, hname, hx⟩ := bind_eq_ok.mp h
    exact Or.inr (Or.inl ⟨hused, hlong, longName, hname, by simpa [Pure.pure, Except.pure] using hx.symm⟩)
  · rw [visitEntry_isShort hshort] at h
    exact Or.inr (Or.inr ⟨hshort, h⟩)

/-- Without its records, the call is the one that returns the required size. -/
theorem recordWalk_forgets (deviceAlignment : QWORD) (size : DWORD) :
    Forgets (recordWalk deviceAlignment size) (queryWalk size) RecordState.toQueryState Prod.fst where
  site := rfl
  visit sector s e x h := by
    rw [queryWalk_visit]
    rcases recordWalk_cases h with ⟨hunused, rfl⟩ | ⟨hused, hlong, longName, hname, rfl⟩ | ⟨hshort, h⟩
    · exact visitEntry_unused hunused
    · rw [visitEntry_longPart hused hlong]
      exact bind_eq_ok.mpr ⟨longName, hname, rfl⟩
    · rw [visitEntry_isShort hshort]
      obtain ⟨hname, hx⟩ := recordShort_eq_ok.mp h
      rw [queryShort_eq, if_neg hname]
      by_cases hfits : (s.count e).requiredSize ≤ size
      · rw [if_pos hfits] at hx
        obtain ⟨information, hinformation, -, rfl⟩ := hx
        have hdates := (fatPopulateFileInformation_ok_iff deviceAlignment e).mp ⟨_, hinformation⟩
        exact if_neg fun hbad => hbad.2 hdates
      · rw [if_neg hfits] at hx
        rw [hx]
        exact if_neg fun hbad => hfits hbad.1
  finish _ := rfl
  outOfMemory := rfl

/-- With its records, the call reports the size that the one without them does. -/
theorem fatQueryDirectoryInformation_maps (d : FatData) (fuel sector : ℕ) (deviceAlignment : QWORD)
    (size : DWORD) : Maps Prod.fst (fatQueryDirectoryInformation d fuel sector deviceAlignment size)
      (fatQueryDirectory d fuel sector size) :=
  (recordWalk_forgets deviceAlignment size).walkDirectory fuel sector .start

end Records

section Lists

open FileDirectoryInformation

variable {deviceAlignment : QWORD} {size : DWORD} {s : RecordState} {l : List DirEntry}
  {longName : NameBuffer} {shortName : ShortNameBuffer} {records written : List FileDirectoryInformation}
  {r : FileDirectoryInformation}

theorem totalSize_append (l l' : List FileDirectoryInformation) :
    totalSize (l ++ l') = totalSize l + totalSize l' := by
  rw [totalSize, List.map_append, List.sum_append]
  rfl

theorem totalSize_cons (r : FileDirectoryInformation) (l : List FileDirectoryInformation) :
    totalSize (r :: l) = r.size + totalSize l := by
  rw [totalSize, List.map_cons, List.sum_cons]
  rfl

theorem place_ne_nil (offset : ℕ) (h : records ≠ []) : place offset records ≠ [] := by
  match records, h with
  | [r], _ => exact List.cons_ne_nil _ _
  | r :: r' :: records, _ => exact List.cons_ne_nil _ _

/-- A record goes behind those that have been placed. -/
theorem place_append (offset : ℕ) (l : List FileDirectoryInformation) (r : FileDirectoryInformation)
    (hr : r.nextEntryOffset = 0) :
    place offset (l ++ [r]) =
      (linkTo (offset + totalSize l) (place offset l).reverse).reverse ++ [(offset + totalSize l, r)] := by
  induction l generalizing offset with
  | nil =>
    cases r
    cases hr
    rfl
  | cons a l ih =>
    cases l with
    | nil =>
      have hsize : offset + totalSize [a] - offset = a.size := by
        rw [totalSize_cons, Nat.add_sub_cancel_left]
        rfl
      change place offset [a, r] = [(offset, { a with nextEntryOffset := _ })] ++ [_]
      rw [hsize, place, totalSize_cons]
      cases r
      cases hr
      rfl
    | cons b l =>
      obtain ⟨last, rest, hlast⟩ := List.exists_cons_of_ne_nil
        (mt List.reverse_eq_nil_iff.mp (place_ne_nil (offset + a.size) (List.cons_ne_nil b l)))
      have hstep := ih (offset + a.size)
      rw [hlast] at hstep
      change _ :: place (offset + a.size) (b :: l ++ [r]) = _
      rw [hstep, place, List.reverse_cons, hlast, totalSize_cons a, Nat.add_assoc]
      simp [linkTo]

theorem length_convertFatNameToName (e : DirEntry) : (convertFatNameToName e).2 ≤ 12 := by
  have hname : (cString (((List.ofFn e.name).take 8).rdropWhile (· = space))).length ≤ 8 := by
    refine (List.takeWhile_prefix _).length_le.trans ((List.rdropWhile_prefix _ _).length_le.trans ?_)
    rw [List.length_take]
    exact Nat.min_le_left _ _
  have hext : (((List.ofFn e.name).drop 8).takeWhile (· ≠ space)).length ≤ 3 := by
    refine (List.takeWhile_prefix _).length_le.trans ?_
    rw [List.length_drop, List.length_ofFn]
  unfold convertFatNameToName
  dsimp only
  split_ifs
  · exact hname.trans (by decide)
  · dsimp only
    omega

theorem nameToList_le (longName : NameBuffer) (e : DirEntry) : (nameToList longName e).2 ≤ 255 := by
  unfold nameToList
  dsimp only
  split_ifs
  · exact (length_convertFatNameToName e).trans (by decide)
  · refine (List.takeWhile_prefix _).length_le.trans ?_
    rw [List.length_take]
    exact Nat.min_le_left _ _

/-- What a list of entries is read as, entry by entry. -/
theorem directoryRecords_unused (h : e.unused = true) :
    directoryRecords deviceAlignment longName shortName (e :: l) =
      directoryRecords deviceAlignment longName shortName l := if_pos h

theorem directoryRecords_longPart (hused : e.unused = false) (h : e.isLongPart = true) :
    directoryRecords deviceAlignment longName shortName (e :: l) = .ok records ↔
      ∃ longName', writePartialLongFatNameToName e longName = .ok longName' ∧
        directoryRecords deviceAlignment longName' shortName l = .ok records := by
  rw [directoryRecords, if_neg (by simp [hused]), if_pos h]
  exact bind_eq_ok

theorem directoryRecords_isShort (h : e.isShort = true) :
    directoryRecords deviceAlignment longName shortName (e :: l) = .ok records ↔
      (nameToList longName e).2 ≠ 0 ∧
        ∃ information, fatPopulateFileInformationFromFatEntry deviceAlignment e = .ok information ∧
          ∃ records', directoryRecords deviceAlignment (nameToList longName e).1.reset
              (shortName.copy (convertFatNameToName e).1) l = .ok records' ∧
            records = ⟨0, information,
              (List.ofFn (shortName.copy (convertFatNameToName e).1)).take (convertFatNameToName e).2,
              (List.ofFn (nameToList longName e).1).take (nameToList longName e).2⟩ :: records' := by
  obtain ⟨hused, hlong⟩ : e.unused = false ∧ e.isLongPart = false := by
    simpa [DirEntry.isShort] using h
  rw [directoryRecords, if_neg (by simp [hused]), if_neg (by simp [hlong])]
  by_cases hname : 0 = (nameToList longName e).2
  · rw [assertThat_of_not (by simpa using hname)]
    exact iff_of_false (fun h => nomatch h) fun h => h.1 hname.symm
  · rw [assertThat_of hname, and_iff_right (Ne.symm hname)]
    change (fatPopulateFileInformationFromFatEntry deviceAlignment e >>= _) = _ ↔ _
    refine bind_eq_ok.trans (exists_congr fun information => and_congr_right fun _ =>
      bind_eq_ok.trans (exists_congr fun records' => and_congr_right fun _ => ?_))
    exact ⟨fun h => by cases h; rfl, fun h => by rw [h]; rfl⟩

theorem length_filename (longName : NameBuffer) (e : DirEntry) :
    ((List.ofFn (nameToList longName e).1).take (nameToList longName e).2).length =
      (nameToList longName e).2 := by
  have hle := nameToList_le longName e
  rw [List.length_take, List.length_ofFn]
  omega

/-- The size so far is that of the records before, if they all fit. -/
structure RecordState.Holds (s : RecordState) (size : DWORD) (written : List FileDirectoryInformation) :
    Prop where
  records : s.records.reverse = place 0 written
  curEntry : s.curEntry = totalSize written
  total : s.requiredSize ≤ size → totalSize written = s.requiredSize.toNat

theorem count_requiredSize (h : s.requiredSize.toNat +
    (sizeofFileDirectoryInformation + (nameToList s.longName e).2) < 2 ^ 32) :
    (s.count e).requiredSize.toNat =
      s.requiredSize.toNat + (sizeofFileDirectoryInformation + (nameToList s.longName e).2) := by
  change (s.requiredSize + BitVec.ofNat 32 _).toNat = _
  rw [BitVec.toNat_add, BitVec.toNat_ofNat, Nat.add_mod_mod, Nat.mod_eq_of_lt h]

theorem visitAll_of_visit {sector : ℕ} {s' : RecordState}
    {y : Visit RecordState (DWORD × List (ℕ × FileDirectoryInformation))} (hshort : e.isShort = true)
    (h : recordShort deviceAlignment size s e = .ok (.next s'))
    (hl : (recordWalk deviceAlignment size).visitAll sector l s' = .ok y) :
    (recordWalk deviceAlignment size).visitAll sector (e :: l) s = .ok y := by
  rw [visitAll_cons_next, hl]
  rw [recordWalk_visit, visitEntry_isShort hshort, h]

/-- The walk over a list of entries writes the records that fit, one after the other. -/
theorem visitAll_records {sector : ℕ}
    (h : directoryRecords deviceAlignment s.longName s.shortName l = .ok records)
    (hlt : s.requiredSize.toNat + totalSize records < 2 ^ 32) (hs : s.Holds size written) :
    ∃ s', (recordWalk deviceAlignment size).visitAll sector l s = .ok (.next s') ∧
      s'.requiredSize.toNat = s.requiredSize.toNat + totalSize records ∧
      s'.Holds size (written ++ fitting size.toNat s.requiredSize.toNat records) := by
  induction l generalizing s written records with
  | nil =>
    obtain rfl : [] = records := by simpa [directoryRecords] using h
    refine ⟨s, rfl, rfl, ?_⟩
    rw [fitting, List.append_nil]
    exact hs
  | cons e l ih =>
    rcases e.kinds with hunused | ⟨hused, hlong⟩ | hshort
    · rw [directoryRecords_unused hunused] at h
      rw [visitAll_cons_next (by rw [recordWalk_visit, visitEntry_unused hunused])]
      exact ih h hlt hs
    · obtain ⟨longName', hname, h⟩ := (directoryRecords_longPart hused hlong).mp h
      have hvisit : (recordWalk deviceAlignment size).visit sector s e =
          .ok (.next { s with longName := longName' }) := by
        rw [recordWalk_visit, visitEntry_longPart hused hlong]
        exact bind_eq_ok.mpr ⟨longName', hname, rfl⟩
      rw [visitAll_cons_next hvisit]
      exact @ih { s with longName := longName' } _ _ h hlt ⟨hs.records, hs.curEntry, hs.total⟩
    · obtain ⟨hname, information, hinformation, records', hrest, rfl⟩ :=
        (directoryRecords_isShort hshort).mp h
      have hlength := length_filename s.longName e
      generalize hr : (⟨0, information, _, _⟩ : FileDirectoryInformation) = r at hlt ⊢
      have hsize : r.size = sizeofFileDirectoryInformation + (nameToList s.longName e).2 := by
        rw [← hr, FileDirectoryInformation.size, hlength]
      rw [totalSize_cons, hsize] at hlt
      have hcount := @count_requiredSize e s (by omega)
      rw [totalSize_cons, fitting, hsize]
      by_cases hfits : (s.count e).requiredSize ≤ size
      · have hle : s.requiredSize.toNat + (sizeofFileDirectoryInformation + (nameToList s.longName e).2) ≤
            size.toNat := hcount ▸ hfits
        have htotal := hs.total (by rw [BitVec.le_def]; omega)
        have hcur : s.curEntry = s.requiredSize.toNat := hs.curEntry.trans htotal
        have hvisit : recordShort deviceAlignment size s e = .ok (.next (s.record e information)) := by
          refine recordShort_eq_ok.mpr ⟨hname, ?_⟩
          rw [if_pos hfits]
          refine ⟨information, hinformation, ?_, rfl⟩
          rw [hcur]
          unfold sizeofFileDirectoryInformation at hle
          unfold offsetofFilename
          omega
        have hholds : (s.record e information).Holds size (written ++ [r]) := by
          refine ⟨?_, ?_, fun _ => ?_⟩
          · have hplace := place_append 0 written r (by rw [← hr])
            rw [Nat.zero_add, ← hs.records, List.reverse_reverse, ← hs.curEntry, ← hr] at hplace
            rw [← hr, hplace]
            exact List.reverse_cons
          · rw [totalSize_append, ← hs.curEntry]
            change s.curEntry + _ = s.curEntry + totalSize [r]
            rw [totalSize_cons, hsize]
            rfl
          · rw [totalSize_append, totalSize_cons, htotal, hsize]
            exact hcount.symm
        obtain ⟨s', hall, hrequired, hs'⟩ := @ih (s.record e information) _ _ hrest
          (by change (s.count e).requiredSize.toNat + _ < _; omega) hholds
        have hcount' : (s.record e information).requiredSize.toNat = _ := hcount
        rw [hcount'] at hrequired hs'
        refine ⟨s', visitAll_of_visit hshort hvisit hall, by lia, ?_⟩
        rw [if_pos hle, ← List.singleton_append, ← List.append_assoc]
        exact hs'
      · have hgt : ¬s.requiredSize.toNat + (sizeofFileDirectoryInformation + (nameToList s.longName e).2) ≤
            size.toNat := fun hle => hfits (by rw [BitVec.le_def, hcount]; exact hle)
        have hvisit : recordShort deviceAlignment size s e = .ok (.next (s.count e)) :=
          recordShort_eq_ok.mpr ⟨hname, by rw [if_neg hfits]⟩
        obtain ⟨s', hall, hrequired, hs'⟩ := @ih (s.count e) _ _ hrest (by omega)
          ⟨hs.records, hs.curEntry, fun hle => absurd hle hfits⟩
        have hnone : ∀ (o : ℕ) (records : List FileDirectoryInformation), size.toNat < o →
            fitting size.toNat o records = [] := by
          intro o records ho
          cases records with
          | nil => rfl
          | cons a records => exact if_neg (by omega)
        rw [hcount, hnone _ _ (by omega)] at hs'
        refine ⟨s', visitAll_of_visit hshort hvisit hall, by omega, ?_⟩
        rw [if_neg hgt]
        exact hs'

theorem visit_of_visitAll {sector : ℕ} {k : DirectoryWalk σ ρ} {t : σ} {y : Visit σ ρ}
    (h : k.visitAll sector (e :: l) t = .ok y) : ∃ x, k.visit sector t e = .ok x := by
  cases hvisit : k.visit sector t e with
  | error fault =>
    rw [DirectoryWalk.visitAll, hvisit] at h
    cases h
  | ok x => exact ⟨x, rfl⟩

/-- With a buffer of any size, every entry is converted. -/
theorem directoryRecords_of_visitAll {sector : ℕ}
    {y : Visit RecordState (DWORD × List (ℕ × FileDirectoryInformation))} (hsize : ∀ n, n ≤ size)
    (h : (recordWalk deviceAlignment size).visitAll sector l s = .ok y) :
    ∃ records, directoryRecords deviceAlignment s.longName s.shortName l = .ok records := by
  induction l generalizing s with
  | nil => exact ⟨[], rfl⟩
  | cons e l ih =>
    obtain ⟨x, hvisit⟩ := visit_of_visitAll h
    rcases recordWalk_cases hvisit with ⟨hunused, rfl⟩ | ⟨hused, hlong, longName', hname, rfl⟩ |
      ⟨hshort, hrecord⟩
    · rw [directoryRecords_unused hunused]
      rw [visitAll_cons_next hvisit] at h
      exact ih h
    · rw [visitAll_cons_next hvisit] at h
      obtain ⟨records, hrecords⟩ := ih h
      exact ⟨records, (directoryRecords_longPart hused hlong).mpr ⟨longName', hname, hrecords⟩⟩
    · rw [recordShort_eq_ok, if_pos (hsize _)] at hrecord
      obtain ⟨hname, information, hinformation, -, rfl⟩ := hrecord
      rw [visitAll_cons_next hvisit] at h
      obtain ⟨records, hrecords⟩ := ih h
      exact ⟨_, (directoryRecords_isShort hshort).mpr
        ⟨hname, information, hinformation, records, hrecords, rfl⟩⟩

/-- A size that wraps around lets a record be written past the end of a buffer that is full. -/
theorem visitAll_overflow {sector : ℕ}
    (h : directoryRecords deviceAlignment s.longName s.shortName l = .ok records)
    (hcur : s.curEntry = s.requiredSize.toNat)
    (hge : 2 ^ 32 ≤ s.requiredSize.toNat + totalSize records) :
    ∃ size, s.requiredSize ≤ size ∧
      ∀ y, (recordWalk deviceAlignment size).visitAll sector l s ≠ .ok y := by
  induction l generalizing s records with
  | nil =>
    obtain rfl : [] = records := by simpa [directoryRecords] using h
    exact absurd s.requiredSize.isLt (Nat.not_lt.mpr hge)
  | cons e l ih =>
    rcases e.kinds with hunused | ⟨hused, hlong⟩ | hshort
    · rw [directoryRecords_unused hunused] at h
      obtain ⟨size, hle, hfault⟩ := ih h hcur hge
      refine ⟨size, hle, fun y => ?_⟩
      rw [visitAll_cons_next (by rw [recordWalk_visit, visitEntry_unused hunused])]
      exact hfault y
    · obtain ⟨longName', hname, h⟩ := (directoryRecords_longPart hused hlong).mp h
      obtain ⟨size, hle, hfault⟩ := @ih { s with longName := longName' } _ h hcur hge
      refine ⟨size, hle, fun y => ?_⟩
      have hvisit : (recordWalk deviceAlignment size).visit sector s e =
          .ok (.next { s with longName := longName' }) := by
        rw [recordWalk_visit, visitEntry_longPart hused hlong]
        exact bind_eq_ok.mpr ⟨longName', hname, rfl⟩
      rw [visitAll_cons_next hvisit]
      exact hfault y
    · obtain ⟨hname, information, hinformation, records', hrest, rfl⟩ :=
        (directoryRecords_isShort hshort).mp h
      have hlength := length_filename s.longName e
      have hle := nameToList_le s.longName e
      have hlt := s.requiredSize.isLt
      rw [totalSize_cons, FileDirectoryInformation.size, hlength] at hge
      by_cases hwrap : s.requiredSize.toNat +
          (sizeofFileDirectoryInformation + (nameToList s.longName e).2) < 2 ^ 32
      · have hcount := count_requiredSize hwrap
        obtain ⟨size, hsize, hfault⟩ := @ih (s.record e information) records' hrest
          ((congrArg (· + _) hcur).trans hcount.symm)
          (by change _ ≤ (s.count e).requiredSize.toNat + _; omega)
        have hsize' : (s.count e).requiredSize.toNat ≤ size.toNat := hsize
        refine ⟨size, by rw [BitVec.le_def]; lia, fun y => ?_⟩
        have hvisit : (recordWalk deviceAlignment size).visit sector s e =
            .ok (.next (s.record e information)) := by
          have hfits : (s.count e).requiredSize ≤ size := hsize
          rw [recordWalk_visit, visitEntry_isShort hshort, recordShort_eq_ok, if_pos hfits]
          refine ⟨hname, information, hinformation, ?_, rfl⟩
          unfold sizeofFileDirectoryInformation at hcount
          unfold offsetofFilename
          omega
        rw [visitAll_cons_next hvisit]
        exact hfault y
      · refine ⟨s.requiredSize, BitVec.le_refl _, fun y hy => ?_⟩
        obtain ⟨x, hx⟩ := visit_of_visitAll hy
        have hfits : (s.count e).requiredSize ≤ s.requiredSize := by
          rw [BitVec.le_def]
          change (s.requiredSize + BitVec.ofNat 32 _).toNat ≤ _
          rw [BitVec.toNat_add, BitVec.toNat_ofNat, Nat.add_mod_mod]
          unfold sizeofFileDirectoryInformation at *
          lia
        rw [recordWalk_visit, visitEntry_isShort hshort, recordShort_eq_ok, if_pos hfits] at hx
        obtain ⟨-, -, -, hbuffer, -⟩ := hx
        unfold offsetofFilename at hbuffer
        omega

theorem directoryRecords_iff {sector : ℕ} :
    (∀ size, ∃ y, (recordWalk deviceAlignment size).visitAll sector l .start = .ok y) ↔
      ∃ records, directoryRecords deviceAlignment .empty (fun _ => 0) l = .ok records ∧
        totalSize records < 2 ^ 32 := by
  constructor
  · intro h
    obtain ⟨y, hy⟩ := h (BitVec.allOnes 32)
    obtain ⟨records, hrecords⟩ := directoryRecords_of_visitAll (fun n => by rw [BitVec.le_def, BitVec.toNat_allOnes]; omega) hy
    refine ⟨records, hrecords, ?_⟩
    by_contra hge
    obtain ⟨size, -, hfault⟩ := @visitAll_overflow deviceAlignment .start l records sector hrecords rfl
      (by change 2 ^ 32 ≤ 0 + _; omega)
    obtain ⟨y, hy⟩ := h size
    exact hfault y hy
  · intro h size
    obtain ⟨records, hrecords, hlt⟩ := h
    obtain ⟨s', hall, -⟩ := @visitAll_records deviceAlignment size .start l records [] sector hrecords
      (by change 0 + _ < 2 ^ 32; omega) ⟨rfl, rfl, fun _ => rfl⟩
    exact ⟨_, hall⟩

end Lists

end HAL9000.Fat32
