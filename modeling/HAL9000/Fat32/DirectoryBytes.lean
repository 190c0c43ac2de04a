import HAL9000.Fat32.DirectoryRecords
import HAL9000.Fat32.LongNames

/-! Which contents of directories let the calls that walk over them fail an assertion or write outside of
a buffer. The statuses of the conversions of names and dates are asserted. -/
namespace HAL9000.Fat32

open FileDirectoryInformation Program Walk

variable (d : FatData)

/-- The names under which the entries are listed. -/
def listedNames : NameBuffer → List DirEntry → List Name
  | _, [] => []
  | longName, e :: l =>
    if e.unused then listedNames longName l
    else if e.isLongPart then
      match writePartialLongFatNameToName e longName with
      | .ok longName => listedNames longName l
      | .error _ => listedNames longName l
    else
      (List.ofFn (nameToList longName e).1).take (nameToList longName e).2 ::
        listedNames (nameToList longName e).1.reset l

namespace DirEntry

variable (e : DirEntry)

/-- The ordinal of a part of a long name, without the mark of the last one. -/
def ordinal : ℕ := (e.name 0 &&& ~~~longNameOrdEndMask).toNat

/-- The part fits the buffer, with the end of the name if it is the last one. -/
def FitsName : Prop :=
  cString e.longNameChars = [] ∧ e.name 0 &&& longNameOrdEndMask ≠ longNameOrdEndMask ∨
    1 ≤ e.ordinal ∧ 13 * (e.ordinal - 1) + (cString e.longNameChars).length ≤ longNameMaxChars

end DirEntry

/-- The parts of long names fit, the dates are valid, no name is empty, and the records of the entries
take less than 4 GiB. -/
structure Acceptable (l : List DirEntry) : Prop where
  parts : ∀ e ∈ l, e.unused = false → e.isLongPart = true → e.FitsName
  dates : ∀ e ∈ l, e.isShort = true → e.hasDates = true
  names : [] ∉ listedNames .empty l
  size : ((listedNames .empty l).map fun name => sizeofFileDirectoryInformation + name.length).sum < 2 ^ 32

/-- The first sectors of the root directory and of the directories below it. -/
inductive IsDirectory (v : Volume) : ℕ → Prop
  | root : IsDirectory v (d.sectorOf d.rootCluster)
  | entry {sector : ℕ} {l : List DirEntry} {e : DirEntry} (h : IsDirectory v sector)
    (hl : Listed d v sector l) (he : e ∈ l) (hshort : e.isShort = true)
    (hattr : e.attr &&& (attrDirectory ||| attrVolumeId) = attrDirectory)
    (hcluster : d.IsCluster e.fstClus.toNat) : IsDirectory v (d.sectorOf e.fstClus.toNat)

def MemoryMet (o : Outcome) : Prop := ∀ site n, o .memory site n = true

/-- No call on a directory fails an assertion or writes outside of its buffers. A search along a path that
has run out of memory does not go on in a directory. -/
structure NeverPanics (v : Volume) : Prop where
  search : ∀ name searchType wantsInformation o t, ReadsMet o → MemoryMet o →
    ∃ fuel r w, fatSearch d fuel name searchType wantsInformation ⟨v, t, o⟩ = .ok (r, w)
  searchDirectory : ∀ sector, IsDirectory d v sector → ∀ name searchType wantsInformation,
    Returns (fun n => fatSearchDirectoryEntry d n sector name searchType wantsInformation) v
  query : ∀ sector, IsDirectory d v sector → ∀ deviceAlignment size,
    Returns (fun n => fatQueryDirectoryInformation d n sector deviceAlignment size) v

variable {d} {v : Volume} {e : DirEntry} {l : List DirEntry} {longName : NameBuffer} {sector : ℕ}

section Names

theorem writeChars_ok_iff {chars : Name} {index : ℕ} :
    (∃ r, writeChars chars index longName = .ok r) ↔
      chars = [] ∨ index + chars.length ≤ longNameMaxChars := by
  induction chars generalizing index longName with
  | nil => exact iff_of_true ⟨_, rfl⟩ (Or.inl rfl)
  | cons c chars ih =>
    rw [List.length_cons, or_iff_right (List.cons_ne_nil c chars)]
    unfold writeChars
    split_ifs with hlt
    · rw [ih]
      constructor
      · intro h
        rcases h with rfl | h
        · exact hlt
        · omega
      · intro h
        exact Or.inr (by omega)
    · exact iff_of_false (by simp) fun h => hlt (by omega)

/-- Where a part of a long name is written. -/
theorem longNameIndex_eq (e : DirEntry) : (longNameTotalChars *
    ((e.name 0 &&& ~~~longNameOrdEndMask).setWidth 32 - 1)).toNat =
      if e.ordinal = 0 then 2 ^ 32 - 13 else 13 * (e.ordinal - 1) := by
  have hlt := (e.name 0 &&& ~~~longNameOrdEndMask).isLt
  unfold DirEntry.ordinal longNameTotalChars
  generalize e.name 0 &&& ~~~longNameOrdEndMask = b at *
  rw [BitVec.toNat_mul, BitVec.toNat_sub, BitVec.toNat_setWidth, Nat.mod_eq_of_lt (by omega : b.toNat < 2 ^ 32)]
  change 13 * ((2 ^ 32 - 1 + b.toNat) % 2 ^ 32) % 2 ^ 32 = _
  split_ifs <;> lia

theorem writeChars_index {chars : Name} {index : ℕ} {r : ℕ × NameBuffer}
    (h : writeChars chars index longName = .ok r) : r.1 = index + chars.length := by
  induction chars generalizing index longName with
  | nil =>
    obtain rfl : (index, longName) = r := by simpa [writeChars] using h
    rfl
  | cons c chars ih =>
    unfold writeChars at h
    split_ifs at h
    rw [ih h, List.length_cons]
    omega

theorem writePartial_ok_iff : (∃ longName', writePartialLongFatNameToName e longName = .ok longName') ↔
    e.FitsName := by
  have hindex := longNameIndex_eq e
  have hordinal : e.ordinal < 256 := (e.name 0 &&& ~~~longNameOrdEndMask).isLt
  unfold DirEntry.FitsName
  constructor
  · intro h
    obtain ⟨longName', h⟩ := h
    unfold writePartialLongFatNameToName at h
    dsimp only at h
    rw [hindex] at h
    obtain ⟨r, hchars, hend⟩ := bind_eq_ok.mp h
    have hfits := writeChars_ok_iff.mp ⟨r, hchars⟩
    have hr := writeChars_index hchars
    obtain ⟨i, b⟩ := r
    dsimp only at hr hend
    unfold longNameMaxChars at *
    by_cases hmark : e.name 0 &&& longNameOrdEndMask = longNameOrdEndMask
    · rw [if_pos hmark] at hend
      have hlt : i < 256 := by
        by_contra hlt
        rw [dif_neg hlt] at hend
        cases hend
      by_cases hzero : e.ordinal = 0
      · rw [if_pos hzero] at hr
        omega
      · rw [if_neg hzero] at hr
        exact Or.inr (by omega)
    · by_cases hnone : cString e.longNameChars = []
      · exact Or.inl ⟨hnone, hmark⟩
      · split_ifs at hfits with hzero
        · exact absurd (hfits.resolve_left hnone) (by omega)
        · exact Or.inr ⟨by omega, hfits.resolve_left hnone⟩
  · intro h
    have hfits : cString e.longNameChars = [] ∨ (if e.ordinal = 0 then 2 ^ 32 - 13 else
        13 * (e.ordinal - 1)) + (cString e.longNameChars).length ≤ longNameMaxChars := by
      rcases h with h | h
      · exact Or.inl h.1
      · rw [if_neg (by omega)]
        exact Or.inr h.2
    obtain ⟨⟨i, b⟩, hchars⟩ := (@writeChars_ok_iff longName _ _).mpr hfits
    have hr := writeChars_index hchars
    unfold writePartialLongFatNameToName
    dsimp only
    rw [hindex, hchars]
    change ∃ longName', (if e.name 0 &&& longNameOrdEndMask = longNameOrdEndMask then _ else _) = _
    by_cases hmark : e.name 0 &&& longNameOrdEndMask = longNameOrdEndMask
    · obtain ⟨hone, hle⟩ := h.resolve_left fun h => h.2 hmark
      rw [if_neg (by omega)] at hr
      unfold longNameMaxChars at hle
      have hlt : i < 256 := by
        dsimp only at hr
        lia
      exact ⟨_, (if_pos hmark).trans (dif_pos hlt)⟩
    · exact ⟨_, if_neg hmark⟩

theorem listedNames_unused (h : e.unused = true) :
    listedNames longName (e :: l) = listedNames longName l := if_pos h

theorem listedNames_longPart {longName' : NameBuffer} (hused : e.unused = false)
    (h : e.isLongPart = true) (hwrite : writePartialLongFatNameToName e longName = .ok longName') :
    listedNames longName (e :: l) = listedNames longName' l := by
  rw [listedNames, if_neg (by simp [hused]), if_pos h, hwrite]

theorem listedNames_isShort (h : e.isShort = true) : listedNames longName (e :: l) =
    (List.ofFn (nameToList longName e).1).take (nameToList longName e).2 ::
      listedNames (nameToList longName e).1.reset l := by
  obtain ⟨hused, hlong⟩ : e.unused = false ∧ e.isLongPart = false := by
    simpa [DirEntry.isShort] using h
  rw [listedNames, if_neg (by simp [hused]), if_neg (by simp [hlong])]

/-- The entries have records exactly if the parts, the dates and the names are acceptable. -/
theorem directoryRecords_ok_iff {deviceAlignment : QWORD} {shortName : ShortNameBuffer} :
    (∃ records, directoryRecords deviceAlignment longName shortName l = .ok records) ↔
      (∀ e ∈ l, e.unused = false → e.isLongPart = true → e.FitsName) ∧
        (∀ e ∈ l, e.isShort = true → e.hasDates = true) ∧ [] ∉ listedNames longName l := by
  induction l generalizing longName shortName with
  | nil => exact iff_of_true ⟨[], rfl⟩ (by simp [listedNames])
  | cons e l ih =>
    rw [List.forall_mem_cons, List.forall_mem_cons]
    rcases e.kinds with hunused | ⟨hused, hlong⟩ | hshort
    · rw [directoryRecords_unused hunused, listedNames_unused hunused, ih]
      have hshort : ¬e.isShort = true := by simp [DirEntry.isShort, hunused]
      simp [hunused, hshort]
    · have hshort : ¬e.isShort = true := by simp [DirEntry.isShort, hlong]
      simp only [directoryRecords_longPart hused hlong, hused, hlong, hshort, forall_const,
        Bool.false_eq_true, false_imp_iff, true_and]
      constructor
      · intro h
        obtain ⟨records, longName', hwrite, hrecords⟩ := h
        rw [listedNames_longPart hused hlong hwrite]
        obtain ⟨hparts, hrest⟩ := ih.mp ⟨records, hrecords⟩
        exact ⟨⟨writePartial_ok_iff.mp ⟨longName', hwrite⟩, hparts⟩, hrest⟩
      · intro h
        obtain ⟨longName', hwrite⟩ := (@writePartial_ok_iff e longName).mpr h.1.1
        rw [listedNames_longPart hused hlong hwrite] at h
        obtain ⟨records, hrecords⟩ := ih.mpr ⟨h.1.2, h.2⟩
        exact ⟨records, longName', hwrite, hrecords⟩
    · obtain ⟨hused, hlong⟩ : e.unused = false ∧ e.isLongPart = false := by
        simpa [DirEntry.isShort] using hshort
      have hempty : (nameToList longName e).2 ≠ 0 ↔
          ¬[] = (List.ofFn (nameToList longName e).1).take (nameToList longName e).2 := by
        rw [eq_comm, ← List.length_eq_zero_iff, length_filename]
      simp only [directoryRecords_isShort hshort, listedNames_isShort hshort, hlong, hshort,
        forall_const, Bool.false_eq_true, false_imp_iff, implies_true, true_and, List.mem_cons, not_or,
        ← hempty]
      constructor
      · intro h
        obtain ⟨_, hname, information, hinformation, records', hrecords, -⟩ := h
        obtain ⟨hparts, hdates, hnames⟩ := ih.mp ⟨records', hrecords⟩
        exact ⟨hparts, ⟨(fatPopulateFileInformation_ok_iff deviceAlignment e).mp ⟨_, hinformation⟩,
          hdates⟩, hname, hnames⟩
      · intro h
        obtain ⟨hparts, ⟨hdate, hdates⟩, hname, hnames⟩ := h
        obtain ⟨records', hrecords⟩ := ih.mpr ⟨hparts, hdates, hnames⟩
        obtain ⟨information, hinformation⟩ :=
          (fatPopulateFileInformation_ok_iff deviceAlignment e).mpr hdate
        exact ⟨_, hname, information, hinformation, records', hrecords, rfl⟩

theorem filenames_eq {deviceAlignment : QWORD} {shortName : ShortNameBuffer}
    {records : List FileDirectoryInformation}
    (h : directoryRecords deviceAlignment longName shortName l = .ok records) :
    records.map filename = listedNames longName l := by
  induction l generalizing longName shortName records with
  | nil =>
    obtain rfl : [] = records := by simpa [directoryRecords] using h
    rfl
  | cons e l ih =>
    rcases e.kinds with hunused | ⟨hused, hlong⟩ | hshort
    · rw [directoryRecords_unused hunused] at h
      rw [listedNames_unused hunused, ih h]
    · obtain ⟨longName', hwrite, h⟩ := (directoryRecords_longPart hused hlong).mp h
      rw [listedNames_longPart hused hlong hwrite, ih h]
    · obtain ⟨-, information, -, records', hrecords, rfl⟩ := (directoryRecords_isShort hshort).mp h
      rw [listedNames_isShort hshort, List.map_cons, ih hrecords]

theorem acceptable_iff (deviceAlignment : QWORD) : Acceptable l ↔
    ∃ records, directoryRecords deviceAlignment .empty (fun _ => 0) l = .ok records ∧
      totalSize records < 2 ^ 32 := by
  have htotal : ∀ {records}, directoryRecords deviceAlignment .empty (fun _ => 0) l = .ok records →
      totalSize records = ((listedNames .empty l).map fun name =>
        sizeofFileDirectoryInformation + name.length).sum := by
    intro records hrecords
    rw [← filenames_eq hrecords, List.map_map]
    rfl
  constructor
  · intro h
    obtain ⟨records, hrecords⟩ := (@directoryRecords_ok_iff l .empty deviceAlignment
      fun _ => 0).mpr ⟨h.parts, h.dates, h.names⟩
    exact ⟨records, hrecords, htotal hrecords ▸ h.size⟩
  · intro h
    obtain ⟨records, hrecords, hlt⟩ := h
    obtain ⟨hparts, hdates, hnames⟩ := directoryRecords_ok_iff.mp ⟨records, hrecords⟩
    exact ⟨hparts, hdates, hnames, htotal hrecords ▸ hlt⟩

end Names

section Walks

variable {σ ρ : Type} {k : DirectoryWalk σ ρ} {name : Name} {searchType : BYTE}
  {wantsInformation : Bool} {o : Outcome}

theorem Listed.behaves (hl : Listed d v sector l) (s : σ) :
    Behaves (fun n => walkDirectory d k n sector s) v (k.WalkReturns d v (sector, s))
      (k.WalkAnswers d v (sector, s)) :=
  walkDirectory_behaves (sector, s) (hl.ends s).finite_reaches

theorem Listed.walkReturns_iff (hl : Listed d v sector l) (s : σ) :
    k.WalkReturns d v (sector, s) ↔ ∀ b, Reaches (k.next d v) (sector, s) b → ¬k.Faults d v b :=
  and_iff_right (hl.ends s).neverRepeats

/-- A directory can be listed into buffers of all sizes exactly if its entries are acceptable. -/
theorem returns_query_iff (hl : Listed d v sector l) (deviceAlignment : QWORD) :
    (∀ size, Returns (fun n => fatQueryDirectoryInformation d n sector deviceAlignment size) v) ↔
      Acceptable l := by
  rw [acceptable_iff deviceAlignment, ← @directoryRecords_iff deviceAlignment l 0]
  refine forall_congr' fun size => ?_
  have hbehaves := hl.behaves (k := recordWalk deviceAlignment size) .start
  exact (hbehaves.returns v (.refl v)).trans
    ((hl.walkReturns_iff _).trans (hl.not_faults_iff fun _ => rfl))

theorem searchWalk_visit : (searchWalk d name searchType wantsInformation).visit sector =
    visitEntry (fun _ longName => longName) id
      (searchShort d name searchType wantsInformation sector) := rfl

theorem searchWalk_visit_ok {s : NameBuffer}
    (hparts : e.unused = false → e.isLongPart = true → e.FitsName)
    (hdates : e.isShort = true → e.hasDates = true) :
    ∃ x, (searchWalk d name searchType wantsInformation).visit sector s e = .ok x := by
  rw [searchWalk_visit]
  rcases e.kinds with hunused | ⟨hused, hlong⟩ | hshort
  · exact ⟨_, visitEntry_unused hunused⟩
  · obtain ⟨longName, hwrite⟩ := (@writePartial_ok_iff e s).mpr (hparts hused hlong)
    exact ⟨.next longName, by
      rw [visitEntry_longPart hused hlong]
      exact bind_eq_ok.mpr ⟨longName, hwrite, rfl⟩⟩
  · rw [visitEntry_isShort hshort]
    unfold searchShort
    have hinformation : ¬(wantsInformation = true ∧ ¬e.hasDates = true) := fun h => h.2 (hdates hshort)
    split_ifs
    · exact ⟨_, rfl⟩
    · exact ⟨_, rfl⟩
    · exact ⟨_, rfl⟩
    · exact ⟨_, rfl⟩

/-- What a search finds is the cluster of an entry of the type. -/
theorem searchWalk_visit_stop {s : NameBuffer} {found : Option SearchResult}
    (h : (searchWalk d name searchType wantsInformation).visit sector s e = .ok (.stop (.ok found))) :
    ∃ result, found = some result ∧ result.searchResult = d.sectorOf e.fstClus.toNat ∧
      e.isShort = true ∧ e.attr &&& (attrDirectory ||| attrVolumeId) = searchType ∧
      d.IsCluster e.fstClus.toNat := by
  rw [searchWalk_visit] at h
  rcases e.kinds with hunused | ⟨hused, hlong⟩ | hshort
  · rw [visitEntry_unused hunused] at h
    cases h
  · rw [visitEntry_longPart hused hlong] at h
    obtain ⟨longName, -, h⟩ := bind_eq_ok.mp h
    cases h
  · rw [visitEntry_isShort hshort] at h
    unfold searchShort at h
    split_ifs at h with hname htype hcluster hdates
    · cases h
    · cases h
    · obtain rfl : some ⟨d.sectorOf e.fstClus.toNat, sector⟩ = found := by simpa using h
      unfold FatData.IsCluster
      exact ⟨_, rfl, rfl, hshort, not_ne_iff.mp htype, by lia⟩
    · cases h

theorem Local.preserves_outcome {α : Type} {x : FatM α} (hx : Local x) : Preserves World.outcome x := by
  intro w r w' hrun
  obtain ⟨n, hw, -⟩ := hx _ _ _ _ _ hrun
  rw [hw]

/-- With memory, the answers of a walk are those of its entries or of its end. -/
theorem walkDirectory_answers {A : ρ → Prop} (ho : MemoryMet o)
    (hstop : ∀ sector s e a, k.visit sector s e = .ok (.stop (.ok a)) → A a)
    (hfinish : ∀ s a, k.finish s = .ok a → A a) (n sector : ℕ) (s : σ) :
    Triple (fun w => w.outcome = o) (walkDirectory d k n sector s) (fun a _ => A a) fun _ => True := by
  have hanswer : ∀ r : Except FatStatus ρ, (∀ a, r = .ok a → A a) →
      Triple (fun w => w.outcome = o) (answer r) (fun a _ => A a) fun _ => True := by
    intro r hr
    cases r with
    | error e => exact .fail fun _ _ => trivial
    | ok a => exact .ret fun _ _ => hr a rfl
  have hkeep : ∀ {α : Type} {x : FatM α}, Preserves World.outcome x →
      Triple (fun w => w.outcome = o) x (fun _ w => w.outcome = o) fun _ => True := by
    intro α x hx w r w' hw hrun
    cases r with
    | error e => trivial
    | ok a => exact (hx _ _ _ hrun).trans hw
  induction n generalizing sector s with
  | zero => exact .fault
  | succ n ih =>
    have hmemory : Triple (fun w => w.outcome = o) (request .memory k.site)
        (fun met w => met = true ∧ w.outcome = o) fun _ => True := by
      intro w r w' hw hrun
      obtain ⟨rfl, rfl⟩ : Except.ok (w.outcome .memory k.site w.clock) = r ∧
          { w with clock := w.clock + 1 } = w' := by simpa [request] using hrun
      exact ⟨hw ▸ ho _ _, hw⟩
    unfold walkDirectory
    refine .bind hmemory fun met => .assume fun hmet => ?_
    rw [if_neg (by simp [hmet])]
    refine .bind (hkeep preserves_ioDevice) fun _ => .bind (hkeep preserves_volume) fun u =>
      .bind (Q := fun x w => (∀ a, x = .stop (.ok a) → A a) ∧ w.outcome = o)
        (.lift fun x w hx hw => ⟨?_, hw⟩) fun x => .assume fun hx => ?_
    · rintro a rfl
      change k.scan d u (sector, s) = _ at hx
      rw [DirectoryWalk.scan_eq] at hx
      cases hvisit : k.visitAll sector (visited (u.clusterEntries d sector)) s with
      | error fault =>
        rw [hvisit] at hx
        cases hx
      | ok y =>
        rw [hvisit] at hx
        cases y with
        | stop r =>
          obtain rfl : r = .ok a := by simpa [Except.map, Visit.toScan] using hx
          obtain ⟨e, -, s', hstop'⟩ := visitAll_stop hvisit
          exact hstop _ _ _ _ hstop'
        | next s' =>
          obtain hx : (if _ then Scan.endOfCluster s' else Scan.endOfDirectory s') = Scan.stop (.ok a) := by
            simpa [Except.map, Visit.toScan] using hx
          split_ifs at hx
    · cases x with
      | stop r => exact hanswer r fun a ha => hx a (by rw [ha])
      | endOfDirectory s => exact hanswer _ (hfinish s)
      | endOfCluster s =>
        refine .bind (hkeep preserves_request) fun met => .ite (fun _ => hanswer _ (hfinish s))
          fun _ => .bind (hkeep (local_nextSectorInClusterChain sector).preserves_outcome)
            fun next => .ite (fun _ => hanswer _ (hfinish s)) fun _ => ih _ _

theorem memory_found {n : ℕ} {s : NameBuffer} (ho : MemoryMet o) :
    Triple (fun w => w.outcome = o)
      (walkDirectory d (searchWalk d name searchType wantsInformation) n sector s)
      (fun found _ => found ≠ none) fun _ => True := by
  refine walkDirectory_answers ho (fun sector s e a hstop => ?_) (fun s a hfinish => ?_) n sector s
  · obtain ⟨result, rfl, -⟩ := searchWalk_visit_stop hstop
    exact Option.some_ne_none result
  · cases hfinish

/-- A search in a directory with acceptable entries returns, and with memory it finds the cluster of an
entry of the type. -/
theorem search_returns (hl : Listed d v sector l) (h : Acceptable l) :
    Returns (fun n => fatSearchDirectoryEntry d n sector name searchType wantsInformation) v := by
  have hbehaves := hl.behaves (k := searchWalk d name searchType wantsInformation) .empty
  refine (hbehaves.returns v (.refl v)).mpr ((hl.walkReturns_iff _).mpr fun b hb => ?_)
  exact hl.not_faults (fun e he sector s => searchWalk_visit_ok (h.parts e he) (h.dates e he)) hb

theorem search_finds {n t : ℕ} {found : Option SearchResult} {u : Volume} {w : World}
    (hl : Listed d v sector l) (hu : SameWalks v u) (hr : ReadsMet o) (hm : MemoryMet o)
    (hrun : fatSearchDirectoryEntry d n sector name searchType wantsInformation ⟨u, t, o⟩ =
      .ok (.ok found, w)) :
    ∃ t' u' result, SameWalks v u' ∧ w = ⟨u', t', o⟩ ∧ found = some result ∧
      ∃ e ∈ l, result.searchResult = d.sectorOf e.fstClus.toNat ∧ e.isShort = true ∧
        e.attr &&& (attrDirectory ||| attrVolumeId) = searchType ∧ d.IsCluster e.fstClus.toNat := by
  have hbehaves := hl.behaves (k := searchWalk d name searchType wantsInformation) .empty
  obtain ⟨i, hw, -⟩ := hbehaves.bounded.each n _ _ _ _ _ hrun
  have hcan : Can (fatSearchDirectoryEntry d n sector name searchType wantsInformation) u (.ok found)
      w.volume := ⟨o, t, t + i, hr, hw ▸ hrun⟩
  obtain ⟨hanswers, hw'⟩ := hbehaves.sound n u _ _ hu hcan
  obtain ⟨result, rfl⟩ := Option.ne_none_iff_exists'.mp (memory_found hm _ _ _ rfl hrun)
  refine ⟨t + i, w.volume, result, hw', hw, rfl, ?_⟩
  obtain ⟨b, hb, hmemory | hleaves⟩ := hanswers
  · cases hmemory
  · rcases hl.answer_of_leaves hb hleaves with ⟨e, he, sector, s, hstop⟩ | ⟨s, hfinish⟩ | hfailed
    · obtain ⟨result', hresult, hsector, hentry⟩ := searchWalk_visit_stop hstop
      obtain rfl : result = result' := by simpa using hresult
      exact ⟨e, he, hsector, hentry⟩
    · cases hfinish
    · exact absurd hfailed not_failed_ok

end Walks

section Calls

variable {o : Outcome} {searchType : BYTE} {wantsInformation : Bool}

/-- Along a path, a search goes on in directories. -/
theorem searchNames_returns (hlisted : ∀ sector, IsDirectory d v sector →
      ∃ l, Listed d v sector l ∧ Acceptable l) (hr : ReadsMet o) (hm : MemoryMet o) (names : List Name) :
    ∀ sector result t u, names = [] ∨ IsDirectory d v sector → SameWalks v u →
      ∃ fuel r w, searchNames d fuel searchType wantsInformation names sector result ⟨u, t, o⟩ =
        .ok (r, w) := by
  induction names with
  | nil => exact fun _ result t u _ _ => ⟨0, .ok result, _, rfl⟩
  | cons name names ih =>
    intro sector result t u hdir hu
    by_cases hbad : name.length ≥ longNameMaxChars ∨ name = []
    · exact ⟨0, _, _, by rw [searchNames, if_pos hbad]; rfl⟩
    · have hsearch : ∀ fuel, searchNames d fuel searchType wantsInformation (name :: names) sector result =
          fatSearchDirectoryEntry d fuel sector name (if names = [] then searchType else attrDirectory)
            wantsInformation >>= fun found => searchNames d fuel searchType wantsInformation names
              (found.getD result).searchResult (found.getD result) := fun fuel => by
        rw [searchNames, if_neg hbad]
      have hdirectory := hdir.resolve_left (List.cons_ne_nil name names)
      obtain ⟨l, hl, hacceptable⟩ := hlisted sector hdirectory
      have hbehaves := hl.behaves (k := searchWalk d name
        (if names = [] then searchType else attrDirectory) wantsInformation) .empty
      obtain ⟨n, r, w, hrun⟩ := (hbehaves.returns u hu).mpr
        ((hbehaves.returns v (.refl v)).mp (search_returns hl hacceptable)) o t hr
      cases r with
      | error e => exact ⟨n, _, w, by rw [hsearch]; exact Prog.bind_of_error hrun⟩
      | ok found =>
        obtain ⟨t', u', result', hu', rfl, rfl, e, he, hsector, hshort, hattr, hcluster⟩ :=
          search_finds hl hu hr hm hrun
        have hnext : names = [] ∨ IsDirectory d v result'.searchResult := by
          by_cases hnames : names = []
          · exact Or.inl hnames
          · rw [if_neg hnames] at hattr
            rw [hsector]
            exact Or.inr (.entry hdirectory hl he hshort hattr hcluster)
        obtain ⟨n', r, w, hrest⟩ := ih result'.searchResult result' t' u' hnext hu'
        refine ⟨max n n', r, w, ?_⟩
        rw [hsearch]
        refine (Prog.bind_of_ok (hbehaves.bounded.le (le_max_left n n') hrun)).trans ?_
        exact (searchNames_bounded (d := d) ..).le (le_max_right n n') hrest

/-- If the chains of the directories are acyclic, the calls never panic exactly if the entries of every
directory are acceptable. -/
theorem neverPanics_iff (d : FatData) (v : Volume)
    (hacyclic : ∀ sector, IsDirectory d v sector → NeverRepeats (v.following d) sector) :
    NeverPanics d v ↔ ∀ sector l, IsDirectory d v sector → Listed d v sector l → Acceptable l := by
  constructor
  · intro h sector l hdir hl
    exact (returns_query_iff hl 0).mp (h.query sector hdir 0)
  · intro h
    have hlisted : ∀ sector, IsDirectory d v sector → ∃ l, Listed d v sector l ∧ Acceptable l := by
      intro sector hdir
      obtain ⟨l, hl⟩ := exists_listed (hacyclic sector hdir)
      exact ⟨l, hl, h sector l hdir hl⟩
    refine ⟨fun name searchType wantsInformation o t hr hm => ?_,
      fun sector hdir name searchType wantsInformation => ?_, fun sector hdir deviceAlignment => ?_⟩
    · unfold fatSearch
      by_cases hhead : name.head? ≠ some fatDelimiter
      · exact ⟨0, _, _, by rw [if_pos hhead]; rfl⟩
      · simp only [if_neg hhead]
        by_cases hroot : name.length = 1
        · simp only [if_pos hroot]
          by_cases htype : searchType &&& attrDirectory ≠ attrDirectory
          · exact ⟨0, _, _, by rw [if_pos htype]; rfl⟩
          · exact ⟨0, _, _, by rw [if_neg htype]; rfl⟩
        · simp only [if_neg hroot]
          exact searchNames_returns hlisted hr hm _ _ _ t v (Or.inr .root) (.refl v)
    · obtain ⟨l, hl, hacceptable⟩ := hlisted sector hdir
      exact search_returns hl hacceptable
    · obtain ⟨l, hl, hacceptable⟩ := hlisted sector hdir
      exact (returns_query_iff hl deviceAlignment).mpr hacceptable

/-- The root directory is cluster 2, with these entries at its start. -/
def rootWith (l : List DirEntry) : Volume where
  fat c := if c < 4 then fat32EocMark else 0
  fsInfo := .signed 100 4
  data s i := if s = 1056 then l.getD i .zero else .zero

def volumeLabel : DirEntry := { DirEntry.zero with name := fun _ => 0x41, attr := attrVolumeId }

def readme : DirEntry := .new (fun _ => 0x42) 0x20 3 noon

/-- A volume label, and a file with a long name. -/
def labelAndReadme : List DirEntry :=
  volumeLabel :: longEntries readmeName 0x5A (longEntryCount readmeName) ++ [readme]

section Root

variable {l l' : List DirEntry} (hv : visited ((rootWith l).clusterEntries smallDisk 1056) = l)
  (hd : ∀ e ∈ l, e.attr &&& (attrDirectory ||| attrVolumeId) ≠ attrDirectory)

private theorem rootWith_following : (rootWith l).following smallDisk 1056 = none := by
  change (rootWith []).following smallDisk 1056 = none
  decide

private theorem rootWith_continuation : (rootWith l).continuation smallDisk 1056 = none := by
  unfold Volume.continuation
  rw [rootWith_following, ite_self]

include hv in
private theorem rootWith_listed (h : Listed smallDisk (rootWith l) 1056 l') : l' = l := by
  cases h with
  | last h => exact hv
  | more h hl =>
    rw [rootWith_continuation] at h
    cases h

include hv hd in
private theorem rootWith_isDirectory {sector : ℕ} (h : IsDirectory smallDisk (rootWith l) sector) :
    sector = 1056 := by
  induction h with
  | root => rfl
  | entry h hl hmem hshort hattr hcluster ih =>
    subst ih
    rw [rootWith_listed hv hl] at hmem
    exact absurd hattr (hd _ hmem)

include hv hd in
private theorem rootWith_acyclic {sector : ℕ} (h : IsDirectory smallDisk (rootWith l) sector) :
    NeverRepeats ((rootWith l).following smallDisk) sector := by
  rw [rootWith_isDirectory hv hd h]
  exact (ends_of_none rootWith_following).neverRepeats

end Root

theorem neverPanics_labelAndReadme : NeverPanics smallDisk (rootWith labelAndReadme) := by
  have hv : visited ((rootWith labelAndReadme).clusterEntries smallDisk 1056) = labelAndReadme := rfl
  have hd : ∀ e ∈ labelAndReadme, e.attr &&& (attrDirectory ||| attrVolumeId) ≠ attrDirectory := by
    decide
  refine (neverPanics_iff smallDisk _ fun sector => rootWith_acyclic hv hd).mpr fun sector l hdir hl => ?_
  obtain rfl := rootWith_isDirectory hv hd hdir
  rw [rootWith_listed hv hl]
  have hnames : listedNames .empty labelAndReadme =
      [List.replicate 8 0x41 ++ 0x2E :: List.replicate 3 0x41, readmeName] := by decide +kernel
  refine ⟨?_, by decide, by rw [hnames]; decide, by rw [hnames]; decide⟩
  unfold DirEntry.FitsName
  decide

/-- The root directory of an empty volume cannot be listed. -/
theorem not_neverPanics_emptyRoot : ¬∀ (d : FatData) (v : Volume),
    (∀ sector, IsDirectory d v sector → NeverRepeats (v.following d) sector) → NeverPanics d v := by
  intro h
  have hattr : DirEntry.zero.attr &&& (attrDirectory ||| attrVolumeId) ≠ attrDirectory := by decide
  have hnever := h smallDisk (rootWith [.zero]) fun sector => rootWith_acyclic rfl
    (List.forall_mem_singleton.mpr hattr)
  have hlisted : Listed smallDisk (rootWith [.zero]) 1056 [.zero] := .last rootWith_continuation
  have hacceptable := (returns_query_iff hlisted 0).mp (hnever.query 1056 .root 0)
  exact absurd (hacceptable.dates .zero (List.mem_singleton_self _) (by decide)) (by decide)

end Calls

end HAL9000.Fat32
