import HAL9000.Fat32.DirectoryBytes
import HAL9000.Fat32.NameSlots
import HAL9000.Fat32.Reading

/-! Two calls to `FatQueryDirectory`, of which the first one asks for the size of the second one's buffer.
Whether a cluster is followed by another one is decided by the byte behind the buffer that holds it. -/
namespace HAL9000.Fat32

open FileDirectoryInformation Program

variable (d : FatData) {σ ρ : Type}

namespace Volume

variable (v : Volume)

/-- The entries of a directory, up to the first one that marks the end. -/
def directoryEntries (l : List ℕ) : List DirEntry :=
  (l.flatMap fun c => v.clusterEntries d (d.sectorOf c)).takeWhile (·.name 0 ≠ freeAll)

/-- The entries that a walk may come to; a cluster is only left if it is full. -/
def reached : List ℕ → List DirEntry
  | [] => []
  | c :: l =>
    visited (v.clusterEntries d (d.sectorOf c)) ++
      if (visited (v.clusterEntries d (d.sectorOf c))).length = d.entriesPerCluster then reached l else []

end Volume

/-- What a walk returns after the entries that it has come to. -/
def Visit.result (k : DirectoryWalk σ ρ) : Visit σ ρ → Except FatStatus ρ
  | .stop r => r
  | .next s => k.finish s

/-- Which entries a walk along a chain comes to depends on the bytes behind its buffers. -/
structure ComesTo (v : Volume) (o : Outcome) (site : Site) (c : ℕ) (l : List ℕ)
    (entries : List DirEntry) : Prop where
  first : visited (v.clusterEntries d (d.sectorOf c)) <+: entries
  reached : entries <+: v.reached d l
  always : (∀ n, o .pastBuffer site n = true) → entries = v.reached d l
  never : (∀ n, o .pastBuffer site n = false) → entries = visited (v.clusterEntries d (d.sectorOf c))

variable {d} {k : DirectoryWalk σ ρ} {v : Volume} {c : ℕ} {l : List ℕ} {o : Outcome}

section Entries

theorem length_clusterEntries (d : FatData) (v : Volume) (sector : ℕ) :
    (v.clusterEntries d sector).length = d.entriesPerCluster := by
  unfold Volume.clusterEntries
  rw [List.length_map, List.length_range']

theorem takeWhile_prefix_visited (l : List DirEntry) : l.takeWhile (·.name 0 ≠ freeAll) <+: visited l := by
  cases l with
  | nil => exact List.prefix_rfl
  | cons e l =>
    by_cases he : e.name 0 = freeAll
    · rw [List.takeWhile_cons_of_neg (by simpa using he)]
      exact List.nil_prefix
    · rw [List.takeWhile_cons_of_pos (by simpa using he)]
      exact List.prefix_rfl

theorem visited_of_all {l : List DirEntry} (h : ∀ e ∈ l, e.name 0 ≠ freeAll) : visited l = l := by
  cases l with
  | nil => rfl
  | cons e l =>
    rw [visited, List.takeWhile_eq_self_iff.mpr]
    exact fun e he => by simpa using h e (List.mem_cons_of_mem _ he)

/-- All entries of the directory may be reached. -/
theorem directoryEntries_isPrefix (d : FatData) (v : Volume) (l : List ℕ) :
    v.directoryEntries d l <+: v.reached d l := by
  induction l with
  | nil => exact List.prefix_rfl
  | cons c l ih =>
    unfold Volume.directoryEntries at ih ⊢
    rw [List.flatMap_cons, Volume.reached]
    by_cases hall : ∀ e ∈ v.clusterEntries d (d.sectorOf c), e.name 0 ≠ freeAll
    · rw [List.takeWhile_append_of_pos (by simpa using hall), visited_of_all hall,
        if_pos (length_clusterEntries d v _), List.prefix_append_right_inj]
      exact ih
    · have hcluster : ((v.clusterEntries d (d.sectorOf c)).takeWhile (·.name 0 ≠ freeAll)).length ≠
          (v.clusterEntries d (d.sectorOf c)).length := by
        intro hlength
        refine hall fun e he => ?_
        have hself := (List.takeWhile_prefix _).eq_of_length hlength
        simpa using List.takeWhile_eq_self_iff.mp hself e he
      rw [List.takeWhile_append, if_neg hcluster]
      exact (takeWhile_prefix_visited _).trans (List.prefix_append _ _)

theorem visited_prefix_reached (h : FatChain d v c l) :
    visited (v.clusterEntries d (d.sectorOf c)) <+: v.reached d l := by
  rcases h.cases_on with ⟨rfl, -⟩ | ⟨next, rest, rfl, -, -⟩
  · exact List.prefix_append _ _
  · exact List.prefix_append _ _

end Entries

section Walks

variable {n t : ℕ} {s : σ}

theorem answer_eq (r : Except FatStatus ρ) (w : World) : answer r w = .ok (r, w) := by
  cases r <;> rfl

/-- A round of a walk with all requests met. -/
theorem walkDirectory_round (hk : ∀ sector, k.visit sector = k.visit 0) (ho : AllMet o) (sector n t : ℕ)
    (s : σ) : ∃ t₁, walkDirectory d k (n + 1) sector s ⟨v, t, o⟩ =
      (k.visitAll 0 (visited (v.clusterEntries d sector)) s).bind fun x =>
        afterScan d k (fun b => walkDirectory d k n b.1 b.2) sector
          (x.toScan ((visited (v.clusterEntries d sector)).length = d.entriesPerCluster)) ⟨v, t₁, o⟩ := by
  have hmemory : request .memory k.site ⟨v, t, o⟩ = .ok (.ok true, ⟨v, t + 1, o⟩) := by
    rw [← ho.2 k.site t]
    rfl
  obtain ⟨t₁, hread⟩ := (Settles.read k.site).run (v := v) ho (t + 1)
  have hvolume : volume ⟨v, t₁, o⟩ = .ok (.ok v, ⟨v, t₁, o⟩) := rfl
  refine ⟨t₁, ?_⟩
  change walkRound d k (fun b => walkDirectory d k n b.1 b.2) (sector, s) _ = _
  unfold walkRound
  rw [Prog.bind_of_ok hmemory, if_neg (by simp)]
  unfold scanRound
  rw [Prog.bind_of_ok hread, Prog.bind_of_ok hvolume]
  change (Prog.lift (k.scan d v (sector, s)) >>= _) _ = _
  rw [DirectoryWalk.scan_eq, visitAll_sector hk]
  cases k.visitAll 0 (visited (v.clusterEntries d sector)) s <;> rfl

/-- What a walk returns if it does not leave its first cluster. -/
theorem walkDirectory_stay {entries : List DirEntry} (hk : ∀ sector, k.visit sector = k.visit 0)
    (ho : AllMet o)
    (hvisit : ∀ s', k.visitAll 0 (visited (v.clusterEntries d (d.sectorOf c))) s ≠ .ok (.next s'))
    (hentries : visited (v.clusterEntries d (d.sectorOf c)) <+: entries) :
    ∃ t', walkDirectory d k (n + 1) (d.sectorOf c) s ⟨v, t, o⟩ =
      (k.visitAll 0 entries s).map fun x => (x.result k, ⟨v, t', o⟩) := by
  obtain ⟨t₁, hround⟩ := @walkDirectory_round _ _ _ k v o hk ho (d.sectorOf c) n t s
  obtain ⟨rest, rfl⟩ := hentries
  refine ⟨t₁, ?_⟩
  rw [hround, visitAll_append_of_ne hvisit]
  cases hall : k.visitAll 0 (visited (v.clusterEntries d (d.sectorOf c))) s with
  | error fault => rfl
  | ok x =>
    cases x with
    | stop r => exact answer_eq r _
    | next s' => exact absurd hall (hvisit s')

/-- What a walk with all requests met comes to and returns. -/
theorem walkDirectory_eq (hk : ∀ sector, k.visit sector = k.visit 0) (ho : AllMet o)
    (h : FatChain d v c l) (hn : l.length ≤ n) :
    ∃ entries, ComesTo d v o k.site c l entries ∧
      ∃ t', walkDirectory d k n (d.sectorOf c) s ⟨v, t, o⟩ =
        (k.visitAll 0 entries s).map fun x => (x.result k, ⟨v, t', o⟩) := by
  induction n generalizing c l s t with
  | zero => exact absurd (List.eq_nil_of_length_eq_zero (Nat.le_zero.mp hn)) h.chain.ne_nil
  | succ n ih =>
    have hbefore := visited_prefix_reached h
    by_cases hstay : ∀ s', k.visitAll 0 (visited (v.clusterEntries d (d.sectorOf c))) s ≠ .ok (.next s')
    · by_cases hall : ∀ m, o .pastBuffer k.site m = true
      · refine ⟨_, ⟨hbefore, List.prefix_rfl, fun _ => rfl, fun hnone => ?_⟩,
          walkDirectory_stay hk ho hstay hbefore⟩
        exact absurd ((hall 0).symm.trans (hnone 0)) (by decide)
      · exact ⟨_, ⟨List.prefix_rfl, hbefore, fun h => absurd h hall, fun _ => rfl⟩,
          walkDirectory_stay hk ho hstay List.prefix_rfl⟩
    push Not at hstay
    obtain ⟨s', hs'⟩ := hstay
    obtain ⟨t₁, hround⟩ := @walkDirectory_round _ _ _ k v o hk ho (d.sectorOf c) n t s
    rw [hs'] at hround
    dsimp only [Except.bind] at hround
    have hfinish : ∀ t', (k.visitAll 0 (visited (v.clusterEntries d (d.sectorOf c))) s).map
        (fun x => (x.result k, (⟨v, t', o⟩ : World))) = .ok (k.finish s', ⟨v, t', o⟩) := fun t' => by
      rw [hs']
      rfl
    by_cases hfull : (visited (v.clusterEntries d (d.sectorOf c))).length = d.entriesPerCluster
    · rw [decide_eq_true hfull] at hround
      change _ = (request .pastBuffer k.site >>= _) ⟨v, t₁, o⟩ at hround
      have hrequest : request .pastBuffer k.site ⟨v, t₁, o⟩ =
        .ok (.ok (o .pastBuffer k.site t₁), ⟨v, t₁ + 1, o⟩) := rfl
      cases hpast : o .pastBuffer k.site t₁ with
      | false =>
        rw [hpast] at hrequest
        rw [Prog.bind_of_ok hrequest, if_pos (by simp), answer_eq] at hround
        refine ⟨_, ⟨List.prefix_rfl, hbefore, fun hall => ?_, fun _ => rfl⟩, _,
          hround.trans (hfinish _).symm⟩
        exact absurd (hpast.symm.trans (hall t₁)) (by decide)
      | true =>
        rw [hpast] at hrequest
        rw [Prog.bind_of_ok hrequest, if_neg (by simp)] at hround
        have hnever : ¬∀ m, o .pastBuffer k.site m = false := fun hnone =>
          absurd (hpast.symm.trans (hnone t₁)) (by decide)
        have hmem : d.IsCluster c := h.cluster c h.chain.mem
        have hin : d.InCluster c (d.sectorOf c) := ⟨le_rfl, Nat.lt_add_of_pos_right d.sectorsPerCluster_pos⟩
        rcases h.cases_on with ⟨rfl, hlast⟩ | ⟨next, rest, rfl, hnext, hrest⟩
        · obtain ⟨t₂, hend⟩ := (nextSectorInClusterChain_end hmem hin hlast).run ho (t₁ + 1)
          rw [Prog.bind_of_ok hend, if_pos rfl, answer_eq] at hround
          have hreached : v.reached d [c] = visited (v.clusterEntries d (d.sectorOf c)) := by
            rw [Volume.reached, if_pos hfull]
            exact List.append_nil _
          exact ⟨_, ⟨List.prefix_rfl, hbefore, fun _ => hreached.symm, fun _ => rfl⟩, _,
            hround.trans (hfinish _).symm⟩
        · have hcluster := hrest.cluster next hrest.chain.mem
          obtain ⟨t₂, hlink⟩ := (@nextSectorInClusterChain_settles d o v c _ false hmem hin next hnext
            hcluster).run ho (t₁ + 1)
          rw [Prog.bind_of_ok hlink, if_neg (sectorOf_pos d next).ne'] at hround
          obtain ⟨entries, hcomes, t', hrun⟩ := @ih next rest t₂ s' hrest (by simpa using hn)
          have hreached : v.reached d (c :: rest) =
              visited (v.clusterEntries d (d.sectorOf c)) ++ v.reached d rest := by
            rw [Volume.reached, if_pos hfull]
          refine ⟨visited (v.clusterEntries d (d.sectorOf c)) ++ entries,
            ⟨List.prefix_append _ _, ?_, fun hall => ?_, fun hnone => absurd hnone hnever⟩, t', ?_⟩
          · rw [hreached, List.prefix_append_right_inj]
            exact hcomes.reached
          · rw [hreached, hcomes.always hall]
          · rw [hround, visitAll_append hs']
            exact hrun
    · rw [decide_eq_false hfull] at hround
      change _ = answer (k.finish s') _ at hround
      rw [answer_eq] at hround
      have hreached : visited (v.clusterEntries d (d.sectorOf c)) = v.reached d l := by
        rcases h.cases_on with ⟨rfl, -⟩ | ⟨next, rest, rfl, -, -⟩
        · rw [Volume.reached, if_neg hfull, List.append_nil]
        · rw [Volume.reached, if_neg hfull, List.append_nil]
      exact ⟨_, ⟨List.prefix_rfl, hbefore, fun _ => hreached, fun _ => rfl⟩, _,
        hround.trans (hfinish _).symm⟩

end Walks

section Protocol

variable (d) (deviceAlignment : QWORD)

/-- A record without its place in the buffer. -/
def FileDirectoryInformation.content (r : FileDirectoryInformation) : FileDirectoryInformation :=
  { r with nextEntryOffset := 0 }

/-- The records lie in a buffer one after the other, linked by their offsets. -/
structure Produced (size : ℕ) (records : List (ℕ × FileDirectoryInformation)) : Prop where
  first : ∀ p ∈ records.head?, p.1 = 0
  linked : records.IsChain fun p p' =>
    p'.1 = p.1 + p.2.nextEntryOffset.toNat ∧ p.1 + p.2.size ≤ p'.1
  last : ∀ p ∈ records.getLast?, p.2.nextEntryOffset = 0
  within : ∀ p ∈ records, p.1 + p.2.size ≤ size

/-- A call with no buffer returns the size of one that gets the records of all files. -/
def ListsFiles (v : Volume) (c : ℕ) (files : List (Name × Name)) : Prop :=
  ∀ o t, AllMet o → ∃ fuel required w records w',
    fatQueryDirectoryInformation d fuel (d.sectorOf c) deviceAlignment 0 ⟨v, t, o⟩ =
      .ok (.ok (required, []), w) ∧
    fatQueryDirectoryInformation d fuel (d.sectorOf c) deviceAlignment required w =
      .ok (.ok (required, records), w') ∧
    Produced required.toNat records ∧ records.map (names ·.2) = files ∧
    ∀ size < required, ∃ fewer w',
      fatQueryDirectoryInformation d fuel (d.sectorOf c) deviceAlignment size w =
        .ok (.ok (required, fewer), w') ∧
      Produced size.toNat fewer ∧ (fewer.map (content ·.2)).Sublist (records.map (content ·.2))

/-- The records take less than 4 GiB, the names are read in full, and no file stands behind the first
cluster or is read there. -/
structure Listable (v : Volume) (c : ℕ) (l : List ℕ) (slots : List Slot) : Prop where
  size : listedSize (slots.filterMap Slot.names) < 2 ^ 32
  padded : ∀ s ∈ slots, s.Padded
  fifths : FifthsKept none slots
  rest : ∀ e ∈ (v.reached d l).drop
      ((v.clusterEntries d (d.sectorOf c)).takeWhile (·.name 0 ≠ freeAll)).length,
    e.isShort = false ∧ (e.unused = false → e.isLongPart = true → e.FitsName)

end Protocol

section Places

variable {records : List FileDirectoryInformation}

theorem fitting_isPrefix (capacity offset : ℕ) (records : List FileDirectoryInformation) :
    fitting capacity offset records <+: records := by
  induction records generalizing offset with
  | nil => exact List.prefix_rfl
  | cons r records ih =>
    unfold fitting
    split_ifs
    · exact (List.prefix_cons_inj r).mpr (ih _)
    · exact List.nil_prefix

theorem fitting_total (capacity offset : ℕ) (records : List FileDirectoryInformation) :
    fitting capacity offset records = [] ∨ offset + totalSize (fitting capacity offset records) ≤ capacity := by
  induction records generalizing offset with
  | nil => exact Or.inl rfl
  | cons r records ih =>
    unfold fitting
    split_ifs with hle
    · rw [totalSize_cons]
      rcases ih (offset + r.size) with hnil | hfits
      · rw [hnil]
        exact Or.inr (by change offset + (r.size + 0) ≤ _; omega)
      · exact Or.inr (by omega)
    · exact Or.inl rfl

theorem fitting_of_total {capacity offset : ℕ} (h : offset + totalSize records ≤ capacity) :
    fitting capacity offset records = records := by
  induction records generalizing offset with
  | nil => rfl
  | cons r records ih =>
    rw [totalSize_cons] at h
    rw [fitting, if_pos (by lia), ih (by omega)]

theorem fitting_zero (records : List FileDirectoryInformation) : fitting 0 0 records = [] := by
  cases records with
  | nil => rfl
  | cons r records =>
    refine if_neg ?_
    unfold FileDirectoryInformation.size sizeofFileDirectoryInformation
    omega

theorem place_head (offset : ℕ) (records : List FileDirectoryInformation) :
    ∀ p ∈ (place offset records).head?, p.1 = offset := by
  match records with
  | [] => exact fun p hp => nomatch hp
  | [r] =>
    intro p hp
    obtain rfl := Option.some.inj hp
    rfl
  | r :: r' :: records =>
    intro p hp
    obtain rfl := Option.some.inj hp
    rfl

theorem place_contents (offset : ℕ) (records : List FileDirectoryInformation) :
    (place offset records).map (content ·.2) = records.map content := by
  induction records generalizing offset with
  | nil => rfl
  | cons r records ih =>
    cases records with
    | nil => rfl
    | cons r' records => exact congrArg (content r :: ·) (ih (offset + r.size))

theorem place_names (offset : ℕ) (records : List FileDirectoryInformation) :
    (place offset records).map (names ·.2) = records.map names := by
  have h := congrArg (List.map names) (place_contents offset records)
  rw [List.map_map, List.map_map] at h
  exact h

theorem place_last (offset : ℕ) (records : List FileDirectoryInformation) :
    ∀ p ∈ (place offset records).getLast?, p.2.nextEntryOffset = 0 := by
  induction records generalizing offset with
  | nil => exact fun p hp => nomatch hp
  | cons r records ih =>
    cases records with
    | nil =>
      intro p hp
      obtain rfl := Option.some.inj hp
      rfl
    | cons r' records =>
      obtain ⟨a, placed, hplaced⟩ := List.exists_cons_of_ne_nil
        (place_ne_nil (offset + r.size) (List.cons_ne_nil r' records))
      have hrest := ih (offset + r.size)
      rw [place, hplaced, List.getLast?_cons_cons]
      rw [hplaced] at hrest
      exact hrest

theorem place_within {size : ℕ} (offset : ℕ) (records : List FileDirectoryInformation)
    (h : offset + totalSize records ≤ size) : ∀ p ∈ place offset records, p.1 + p.2.size ≤ size := by
  induction records generalizing offset with
  | nil => exact fun p hp => nomatch hp
  | cons r records ih =>
    rw [totalSize_cons] at h
    cases records with
    | nil =>
      intro p hp
      obtain rfl := List.mem_singleton.mp hp
      change offset + r.size ≤ size
      omega
    | cons r' records =>
      rw [place, List.forall_mem_cons]
      refine ⟨?_, ih _ (by omega)⟩
      change offset + r.size ≤ size
      omega

theorem place_linked (offset : ℕ) (records : List FileDirectoryInformation)
    (h : totalSize records < 2 ^ 32) : (place offset records).IsChain fun p p' =>
      p'.1 = p.1 + p.2.nextEntryOffset.toNat ∧ p.1 + p.2.size ≤ p'.1 := by
  induction records generalizing offset with
  | nil => exact .nil
  | cons r records ih =>
    rw [totalSize_cons] at h
    cases records with
    | nil => exact List.isChain_singleton _
    | cons r' records =>
      obtain ⟨a, placed, hplaced⟩ := List.exists_cons_of_ne_nil
        (place_ne_nil (offset + r.size) (List.cons_ne_nil r' records))
      have hhead := place_head (offset + r.size) (r' :: records) a (by rw [hplaced]; rfl)
      have hrest := ih (offset + r.size) (by omega)
      rw [hplaced] at hrest
      rw [place, hplaced, List.isChain_cons_cons, hhead, BitVec.toNat_ofNat, Nat.mod_eq_of_lt (by omega)]
      exact ⟨⟨rfl, le_rfl⟩, hrest⟩

/-- Records that are placed in a buffer that is large enough. -/
theorem produced_place {size : ℕ} (hsize : size < 2 ^ 32) (h : totalSize records ≤ size) :
    Produced size (place 0 records) where
  first := place_head 0 records
  linked := place_linked 0 records (by omega)
  last := place_last 0 records
  within := place_within 0 records (by omega)

/-- The records in a buffer take no more than its size. -/
theorem Produced.listedSize_le {size : ℕ} {records : List (ℕ × FileDirectoryInformation)}
    (h : Produced size records) : listedSize (records.map (names ·.2)) ≤ size := by
  have hall : ∀ p ∈ records.head?, p.1 + listedSize (records.map (names ·.2)) ≤ size := by
    obtain ⟨-, hlinked, -, hwithin⟩ := h
    induction records with
    | nil => exact fun p hp => nomatch hp
    | cons p records ih =>
      intro p' hp
      obtain rfl := Option.some.inj hp
      obtain ⟨hfits, hrecords⟩ := List.forall_mem_cons.mp hwithin
      have hcons : listedSize ((p :: records).map (names ·.2)) =
        p.2.size + listedSize (records.map (names ·.2)) := List.sum_cons
      rw [hcons]
      cases records with
      | nil => exact hfits
      | cons q records =>
        obtain ⟨hstep, hchain⟩ := List.isChain_cons_cons.mp hlinked
        have hrest := ih hchain hrecords q rfl
        lia
  cases records with
  | nil => exact Nat.zero_le _
  | cons p records => exact le_trans (Nat.le_add_left _ _) (hall p rfl)

end Places

section Skipping

variable {deviceAlignment : QWORD} {size : DWORD} {entries rest : List DirEntry} {longName : NameBuffer}
  {shortName : ShortNameBuffer} {records : List FileDirectoryInformation} {s s' : RecordState}

/-- Entries that are not listed have no records. -/
theorem directoryRecords_skipped
    (hrest : ∀ e ∈ rest, e.isShort = false ∧ (e.unused = false → e.isLongPart = true → e.FitsName)) :
    directoryRecords deviceAlignment longName shortName rest = .ok [] := by
  induction rest generalizing longName with
  | nil => rfl
  | cons e rest ih =>
    obtain ⟨⟨hshort, hfits⟩, hrest⟩ := List.forall_mem_cons.mp hrest
    rcases e.kinds with hunused | ⟨hused, hlong⟩ | hlisted
    · rw [directoryRecords_unused hunused]
      exact ih hrest
    · obtain ⟨longName', hwrite⟩ := (@writePartial_ok_iff e longName).mpr (hfits hused hlong)
      exact (directoryRecords_longPart hused hlong).mpr ⟨longName', hwrite, ih hrest⟩
    · rw [hshort] at hlisted
      cases hlisted

theorem directoryRecords_append_skipped
    (hrest : ∀ e ∈ rest, e.isShort = false ∧ (e.unused = false → e.isLongPart = true → e.FitsName))
    (h : directoryRecords deviceAlignment longName shortName entries = .ok records) :
    directoryRecords deviceAlignment longName shortName (entries ++ rest) = .ok records := by
  induction entries generalizing longName shortName records with
  | nil =>
    obtain rfl : [] = records := by simpa [directoryRecords] using h
    exact directoryRecords_skipped hrest
  | cons e entries ih =>
    rw [List.cons_append]
    rcases e.kinds with hunused | ⟨hused, hlong⟩ | hshort
    · rw [directoryRecords_unused hunused] at h ⊢
      exact ih h
    · obtain ⟨longName', hwrite, h⟩ := (directoryRecords_longPart hused hlong).mp h
      exact (directoryRecords_longPart hused hlong).mpr ⟨longName', hwrite, ih h⟩
    · obtain ⟨hname, information, hinformation, records', hrecords, rfl⟩ :=
        (directoryRecords_isShort hshort).mp h
      exact (directoryRecords_isShort hshort).mpr
        ⟨hname, information, hinformation, records', ih hrecords, rfl⟩

theorem directoryRecords_of_append
    (h : directoryRecords deviceAlignment longName shortName (entries ++ rest) = .ok records) :
    ∃ front back, directoryRecords deviceAlignment longName shortName entries = .ok front ∧
      records = front ++ back := by
  induction entries generalizing longName shortName records with
  | nil => exact ⟨[], records, rfl, rfl⟩
  | cons e entries ih =>
    rw [List.cons_append] at h
    rcases e.kinds with hunused | ⟨hused, hlong⟩ | hshort
    · rw [directoryRecords_unused hunused] at h ⊢
      exact ih h
    · obtain ⟨longName', hwrite, h⟩ := (directoryRecords_longPart hused hlong).mp h
      obtain ⟨front, back, hfront, rfl⟩ := ih h
      exact ⟨front, back, (directoryRecords_longPart hused hlong).mpr ⟨longName', hwrite, hfront⟩, rfl⟩
    · obtain ⟨hname, information, hinformation, records', hrecords, rfl⟩ :=
        (directoryRecords_isShort hshort).mp h
      obtain ⟨front, back, hfront, rfl⟩ := ih hrecords
      exact ⟨_, back, (directoryRecords_isShort hshort).mpr
        ⟨hname, information, hinformation, front, hfront, rfl⟩, rfl⟩

/-- A walk over entries that are not listed leaves the size and the records. -/
theorem visitAll_skipped (hrest : ∀ e ∈ rest, e.isShort = false)
    (h : (recordWalk deviceAlignment size).visitAll 0 rest s = .ok (.next s')) :
    s'.requiredSize = s.requiredSize ∧ s'.records = s.records ∧
      ∀ e ∈ rest, e.unused = false → e.isLongPart = true → e.FitsName := by
  induction rest generalizing s with
  | nil =>
    obtain rfl : s = s' := by simpa [DirectoryWalk.visitAll] using h
    exact ⟨rfl, rfl, by simp⟩
  | cons e rest ih =>
    obtain ⟨hshort, hrest⟩ := List.forall_mem_cons.mp hrest
    obtain ⟨x, hvisit⟩ := visit_of_visitAll h
    rcases recordWalk_cases hvisit with ⟨hunused, rfl⟩ | ⟨hused, hlong, longName', hwrite, rfl⟩ |
      ⟨hlisted, -⟩
    · rw [visitAll_cons_next hvisit] at h
      obtain ⟨hsize, hrecords, hfits⟩ := ih hrest h
      exact ⟨hsize, hrecords, List.forall_mem_cons.mpr ⟨by simp [hunused], hfits⟩⟩
    · rw [visitAll_cons_next hvisit] at h
      obtain ⟨hsize, hrecords, hfits⟩ := ih hrest h
      exact ⟨hsize, hrecords, List.forall_mem_cons.mpr
        ⟨fun _ _ => writePartial_ok_iff.mp ⟨longName', hwrite⟩, hfits⟩⟩
    · rw [hshort] at hlisted
      cases hlisted

theorem length_linkTo (curEntry : ℕ) (records : List (ℕ × FileDirectoryInformation)) :
    (linkTo curEntry records).length = records.length := by
  cases records <;> rfl

/-- The entry that is listed last has a record if the size so far is not more than that of the buffer. -/
theorem visitAll_grows (h : (recordWalk deviceAlignment size).visitAll 0 rest s = .ok (.next s')) :
    s.records.length ≤ s'.records.length ∧
      ((∃ e ∈ rest, e.isShort = true) → s'.requiredSize ≤ size → s.records.length < s'.records.length) := by
  induction rest generalizing s with
  | nil =>
    obtain rfl : s = s' := by simpa [DirectoryWalk.visitAll] using h
    exact ⟨le_rfl, by simp⟩
  | cons e rest ih =>
    obtain ⟨x, hvisit⟩ := visit_of_visitAll h
    rcases recordWalk_cases hvisit with ⟨hunused, rfl⟩ | ⟨hused, hlong, longName', hwrite, rfl⟩ |
      ⟨hshort, hrecord⟩
    · rw [visitAll_cons_next hvisit] at h
      have hunlisted : ¬e.isShort = true := by simp [DirEntry.isShort, hunused]
      simpa [hunlisted] using ih h
    · rw [visitAll_cons_next hvisit] at h
      have hunlisted : ¬e.isShort = true := by simp [DirEntry.isShort, hlong]
      simpa [hunlisted] using ih h
    · obtain ⟨-, hrecord⟩ := recordShort_eq_ok.mp hrecord
      by_cases hfits : (s.count e).requiredSize ≤ size
      · rw [if_pos hfits] at hrecord
        obtain ⟨information, -, -, rfl⟩ := hrecord
        rw [visitAll_cons_next hvisit] at h
        have hlength : (s.record e information).records.length = s.records.length + 1 :=
          congrArg (· + 1) (length_linkTo _ _)
        have hle := (ih h).1
        exact ⟨by omega, fun _ _ => by omega⟩
      · rw [if_neg hfits] at hrecord
        rw [hrecord] at hvisit
        rw [visitAll_cons_next hvisit] at h
        obtain ⟨hle, hlt⟩ := ih h
        refine ⟨hle, fun _ hsize => ?_⟩
        by_cases hlater : ∃ e ∈ rest, e.isShort = true
        · exact hlt hlater hsize
        · push Not at hlater
          have hskipped := visitAll_skipped (fun e he => by simpa using hlater e he) h
          rw [hskipped.1] at hsize
          exact absurd hsize hfits

end Skipping

section Calls

variable {deviceAlignment : QWORD} {size required : DWORD} {entries : List DirEntry} {n t : ℕ}
  {records : List FileDirectoryInformation}

theorem fatQueryDirectoryInformation_eq (ho : AllMet o) (h : FatChain d v c l) (hn : l.length ≤ n) :
    ∃ entries, ComesTo d v o .queryDirectory c l entries ∧
      ∃ t', fatQueryDirectoryInformation d n (d.sectorOf c) deviceAlignment size ⟨v, t, o⟩ =
        ((recordWalk deviceAlignment size).visitAll 0 entries .start).map fun x =>
          (x.result (recordWalk deviceAlignment size), ⟨v, t', o⟩) :=
  walkDirectory_eq (k := recordWalk deviceAlignment size) (fun _ => rfl) ho h hn

/-- What a call returns that has records for the entries it comes to. -/
theorem fatQueryDirectoryInformation_of_records (ho : AllMet o) (h : FatChain d v c l)
    (hn : l.length ≤ n) (hrecords : ∀ entries, ComesTo d v o .queryDirectory c l entries →
      directoryRecords deviceAlignment .empty (fun _ => 0) entries = .ok records)
    (hlt : totalSize records < 2 ^ 32) :
    ∃ t', fatQueryDirectoryInformation d n (d.sectorOf c) deviceAlignment size ⟨v, t, o⟩ =
      .ok (.ok (BitVec.ofNat 32 (totalSize records), place 0 (fitting size.toNat 0 records)), ⟨v, t', o⟩) := by
  obtain ⟨entries, hcomes, t', hrun⟩ := @fatQueryDirectoryInformation_eq d v c l o deviceAlignment size
    n t ho h hn
  obtain ⟨s', hvisit, hrequired, hholds⟩ := @visitAll_records deviceAlignment size .start entries records
    [] 0 (hrecords entries hcomes) (by rw [RecordState.start]; simpa using hlt)
    ⟨rfl, rfl, fun _ => rfl⟩
  refine ⟨t', hrun.trans ?_⟩
  have htotal : s'.requiredSize = BitVec.ofNat 32 (totalSize records) := by
    refine BitVec.eq_of_toNat_eq ?_
    rw [hrequired, BitVec.toNat_ofNat, Nat.mod_eq_of_lt hlt]
    exact Nat.zero_add _
  rw [hvisit, ← htotal]
  exact congrArg (fun r => Except.ok (Except.ok (s'.requiredSize, r), (⟨v, t', o⟩ : World))) hholds.records

/-- The state that a call has come to when it returns records. -/
theorem visitAll_of_run {fuel : ℕ} {w : World} {placed : List (ℕ × FileDirectoryInformation)}
    (ho : AllMet o) (h : FatChain d v c l)
    (hrun : fatQueryDirectoryInformation d fuel (d.sectorOf c) deviceAlignment size ⟨v, t, o⟩ =
      .ok (.ok (required, placed), w)) :
    ∃ entries s', ComesTo d v o .queryDirectory c l entries ∧
      (recordWalk deviceAlignment size).visitAll 0 entries .start = .ok (.next s') ∧
      s'.requiredSize = required ∧ s'.records.reverse = placed ∧ ∃ t', w = ⟨v, t', o⟩ := by
  obtain ⟨entries, hcomes, t', heq⟩ := @fatQueryDirectoryInformation_eq d v c l o deviceAlignment size
    (max fuel l.length) t ho h (le_max_right ..)
  have hrun' := (walkDirectory_bounded (d := d) (k := recordWalk deviceAlignment size)
    (d.sectorOf c, .start)).le (le_max_left fuel l.length) hrun
  have hresult := heq.symm.trans hrun'
  cases hvisit : (recordWalk deviceAlignment size).visitAll 0 entries .start with
  | error fault =>
    rw [hvisit] at hresult
    cases hresult
  | ok x =>
    cases x with
    | stop r =>
      obtain ⟨e, -, s', hstop⟩ := visitAll_stop hvisit
      rcases recordWalk_cases hstop with ⟨-, hx⟩ | ⟨-, -, longName, -, hx⟩ | ⟨-, hrecord⟩
      · cases hx
      · cases hx
      · obtain ⟨-, hrecord⟩ := recordShort_eq_ok.mp hrecord
        split_ifs at hrecord
        · obtain ⟨information, -, -, hx⟩ := hrecord
          cases hx
    | next s' =>
      rw [hvisit] at hresult
      change Except.ok (Except.ok (s'.requiredSize, s'.records.reverse), (⟨v, t', o⟩ : World)) = _ at hresult
      obtain ⟨hr, rfl⟩ := Prod.mk.inj (Except.ok.inj hresult)
      obtain ⟨rfl, rfl⟩ := Prod.mk.inj (Except.ok.inj hr)
      exact ⟨entries, s', hcomes, hvisit, rfl, rfl, t', rfl⟩

/-- The entries of the first cluster are entries of the directory. -/
theorem firstEntries_isPrefix (h : FatChain d v c l) :
    (v.clusterEntries d (d.sectorOf c)).takeWhile (·.name 0 ≠ freeAll) <+: v.directoryEntries d l := by
  have hcons : ∃ rest, l = c :: rest := by
    rcases h.cases_on with ⟨rfl, -⟩ | ⟨next, rest, rfl, -, -⟩
    · exact ⟨[], rfl⟩
    · exact ⟨rest, rfl⟩
  obtain ⟨rest, rfl⟩ := hcons
  unfold Volume.directoryEntries
  rw [List.flatMap_cons, List.takeWhile_append]
  split_ifs with hfull
  · rw [(List.takeWhile_prefix _).eq_of_length hfull]
    exact List.prefix_append _ _
  · exact List.prefix_rfl

theorem visited_of_firstEntries {l : List DirEntry} (h : l.takeWhile (·.name 0 ≠ freeAll) ≠ []) :
    visited l = l.takeWhile (·.name 0 ≠ freeAll) := by
  cases l with
  | nil => rfl
  | cons e l =>
    by_cases he : e.name 0 = freeAll
    · exact absurd (List.takeWhile_cons_of_neg (by simpa using he)) h
    · rw [List.takeWhile_cons_of_pos (by simpa using he)]
      rfl

theorem directoryEntries_of_firstEntries (h : FatChain d v c l)
    (hnone : (v.clusterEntries d (d.sectorOf c)).takeWhile (·.name 0 ≠ freeAll) = []) :
    v.directoryEntries d l = [] := by
  have hlength := length_clusterEntries d v (d.sectorOf c)
  have htwo := two_le_entriesPerCluster d
  have hcons : ∃ rest, l = c :: rest := by
    rcases h.cases_on with ⟨rfl, -⟩ | ⟨next, rest, rfl, -, -⟩
    · exact ⟨[], rfl⟩
    · exact ⟨rest, rfl⟩
  obtain ⟨rest, rfl⟩ := hcons
  unfold Volume.directoryEntries
  rw [List.flatMap_cons, List.takeWhile_append, hnone, if_neg (by rw [hlength]; simp; omega)]

theorem remains_empty : Remains none NameBuffer.empty := ⟨52, le_rfl, by decide, rfl⟩

theorem Slot.entries_ne_nil (s : Slot) : s.entries ≠ [] := by
  cases s with
  | free e => exact List.cons_ne_nil _ _
  | file e => exact List.cons_ne_nil _ _
  | named name checksum e => exact List.append_ne_nil_of_right_ne_nil _ (List.cons_ne_nil _ _)

theorem listedSize_names (records : List FileDirectoryInformation) :
    listedSize (records.map names) = totalSize records := by
  unfold listedSize totalSize
  rw [List.map_map]
  rfl

variable {slots : List Slot}

/-- Whatever the walk comes to, the records are those of all files. -/
theorem records_of_listable (h : FatChain d v c l)
    (hentries : v.directoryEntries d l = slots.flatMap Slot.entries) (hw : ∀ s ∈ slots, s.WellFormed)
    (hlistable : Listable d v c l slots) :
    ∃ all, all.map names = slots.filterMap Slot.names ∧ totalSize all < 2 ^ 32 ∧
      ∀ entries, ComesTo d v o .queryDirectory c l entries →
        directoryRecords deviceAlignment .empty (fun _ => 0) entries = .ok all := by
  obtain ⟨all, hall, hsize, hnames⟩ := @directoryRecords_slots none .empty (fun _ => 0) deviceAlignment
    slots hw rfl remains_empty
  have hlt : totalSize all < 2 ^ 32 := hsize.trans_lt hlistable.size
  have hfirst := firstEntries_isPrefix h
  have hreached := directoryEntries_isPrefix d v l
  have hvisited := takeWhile_prefix_visited (v.clusterEntries d (d.sectorOf c))
  have hskip := hlistable.rest
  generalize (v.clusterEntries d (d.sectorOf c)).takeWhile (·.name 0 ≠ freeAll) = front at *
  rw [hentries] at hfirst hreached
  obtain ⟨rest, hrest⟩ := hfirst.trans hreached
  rw [← hrest, List.drop_left] at hskip
  have hrecords : ∀ entries, ComesTo d v o .queryDirectory c l entries →
      directoryRecords deviceAlignment .empty (fun _ => 0) entries = .ok all := by
    intro entries hcomes
    obtain ⟨read, hread⟩ := hvisited.trans hcomes.first
    obtain ⟨listed, hlisted⟩ := hfirst
    have hreadsub : read <+: rest := by
      rw [← List.prefix_append_right_inj front, hread, hrest]
      exact hcomes.reached
    have hlistedsub : listed <+: rest := by
      rw [← List.prefix_append_right_inj front, hlisted, hrest]
      exact hreached
    rw [← hlisted] at hall
    obtain ⟨front', back, hfront, -⟩ := directoryRecords_of_append hall
    have hsame := directoryRecords_append_skipped (fun e he => hskip e (hlistedsub.subset he)) hfront
    obtain rfl := Except.ok.inj (hsame.symm.trans hall)
    rw [← hread]
    exact directoryRecords_append_skipped (fun e he => hskip e (hreadsub.subset he)) hfront
  exact ⟨all, hnames.mpr ⟨hlistable.padded, hlistable.fifths⟩, hlt, hrecords⟩

/-- A directory can be listed if its files stand in the first cluster. -/
theorem listsFiles_of_listable (h : FatChain d v c l)
    (hentries : v.directoryEntries d l = slots.flatMap Slot.entries) (hw : ∀ s ∈ slots, s.WellFormed)
    (hlistable : Listable d v c l slots) :
    ListsFiles d deviceAlignment v c (slots.filterMap Slot.names) := by
  intro o t ho
  obtain ⟨all, hnames, hlt, hrecords⟩ := @records_of_listable d v c l o deviceAlignment slots h hentries
    hw hlistable
  have hrun := fun (size : DWORD) t => @fatQueryDirectoryInformation_of_records d v c l o deviceAlignment
    size l.length t all ho h le_rfl hrecords hlt
  have htotal : (BitVec.ofNat 32 (totalSize all)).toNat = totalSize all := by
    rw [BitVec.toNat_ofNat, Nat.mod_eq_of_lt hlt]
  obtain ⟨t₁, hfirst⟩ := hrun 0 t
  obtain ⟨t₂, hsecond⟩ := hrun (BitVec.ofNat 32 (totalSize all)) t₁
  rw [htotal, fitting_of_total (by omega)] at hsecond
  have hzero : fitting (0 : DWORD).toNat 0 all = [] := fitting_zero all
  rw [hzero] at hfirst
  refine ⟨l.length, _, _, _, _, hfirst, hsecond, ?_, ?_, fun size hsize => ?_⟩
  · rw [htotal]
    exact produced_place hlt le_rfl
  · rw [place_names, hnames]
  · obtain ⟨t₃, hthird⟩ := hrun size t₁
    refine ⟨_, _, hthird, ?_, ?_⟩
    · refine produced_place size.isLt ?_
      rcases fitting_total size.toNat 0 all with hnone | hfits
      · rw [hnone]
        exact Nat.zero_le _
      · omega
    · rw [place_contents, place_contents]
      exact ((fitting_isPrefix _ _ _).sublist).map content

theorem length_place (offset : ℕ) (records : List FileDirectoryInformation) :
    (place offset records).length = records.length := by
  have h := congrArg List.length (place_contents offset records)
  rwa [List.length_map, List.length_map] at h

/-- A second call that comes to the first cluster only has records for all files. -/
theorem front_of_listsFiles {front all back : List FileDirectoryInformation} (h : FatChain d v c l)
    (hlists : ListsFiles d deviceAlignment v c (slots.filterMap Slot.names))
    (hfront : directoryRecords deviceAlignment .empty (fun _ => 0)
      (visited (v.clusterEntries d (d.sectorOf c))) = .ok front)
    (hall : all = front ++ back) (hsize : totalSize all ≤ listedSize (slots.filterMap Slot.names)) :
    all = front ∧ front.map names = slots.filterMap Slot.names ∧
      listedSize (slots.filterMap Slot.names) < 2 ^ 32 := by
  let o : Outcome := fun access _ _ => access ≠ .pastBuffer
  have ho : AllMet o := ⟨fun _ _ => ⟨rfl, rfl⟩, fun _ _ => rfl⟩
  obtain ⟨fuel, required, w, records, w', hfirst, hsecond, hproduced, hnames, -⟩ := hlists o 0 ho
  have hle := hproduced.listedSize_le
  rw [hnames] at hle
  have hlt := required.isLt
  rw [hall, totalSize_append] at hsize
  obtain ⟨-, -, -, -, -, -, t, rfl⟩ := visitAll_of_run ho h hfirst
  obtain ⟨entries, s', hcomes, hvisit, -, hrecords, -⟩ := visitAll_of_run ho h hsecond
  rw [hcomes.never fun _ => rfl] at hvisit
  obtain ⟨s'', hvisit', -, hholds⟩ := @visitAll_records deviceAlignment required .start _ front [] 0 hfront
    (by change 0 + _ < _; omega) ⟨rfl, rfl, fun _ => rfl⟩
  obtain rfl : s'' = s' := by simpa using hvisit'.symm.trans hvisit
  have hfitting : fitting required.toNat 0 front = front := fitting_of_total (by omega)
  have hplace : records = place 0 front := by
    rw [← hrecords, hholds.records]
    exact congrArg (place 0) hfitting
  rw [hplace, place_names] at hnames
  have hback : totalSize back = 0 := by
    have htotal := listedSize_names front
    rw [hnames] at htotal
    omega
  have hnil : back = [] := by
    cases back with
    | nil => rfl
    | cons r back =>
      rw [totalSize_cons, FileDirectoryInformation.size, sizeofFileDirectoryInformation] at hback
      omega
  exact ⟨by rw [hall, hnil, List.append_nil], hnames, by omega⟩

/-- A second call that comes to all entries has no records but those of the first cluster. -/
theorem rest_of_listsFiles {front rest : List DirEntry} {records : List FileDirectoryInformation}
    (h : FatChain d v c l) (hlists : ListsFiles d deviceAlignment v c (slots.filterMap Slot.names))
    (hreached : v.reached d l = front ++ rest)
    (hfront : directoryRecords deviceAlignment .empty (fun _ => 0) front = .ok records)
    (hnames : records.map names = slots.filterMap Slot.names) :
    ∀ e ∈ rest, e.isShort = false ∧ (e.unused = false → e.isLongPart = true → e.FitsName) := by
  obtain ⟨fuel, required, w, placed, w', hfirst, hsecond, hproduced, hplaced, -⟩ :=
    hlists _ 0 allMet_true
  have hle := hproduced.listedSize_le
  rw [hplaced, ← hnames, listedSize_names] at hle
  have hlt := required.isLt
  obtain ⟨-, -, -, -, -, -, t, rfl⟩ := visitAll_of_run allMet_true h hfirst
  obtain ⟨entries, s', hcomes, hvisit, hrequired, hrecords, -⟩ := visitAll_of_run allMet_true h hsecond
  rw [hcomes.always fun _ => rfl, hreached] at hvisit
  obtain ⟨s₁, hvisit₁, -, hholds⟩ := @visitAll_records deviceAlignment required .start front records [] 0
    hfront (by change 0 + _ < _; omega) ⟨rfl, rfl, fun _ => rfl⟩
  rw [visitAll_append hvisit₁] at hvisit
  have hfitting : fitting required.toNat 0 records = records := fitting_of_total (by omega)
  have hlength₁ : s₁.records.length = records.length := by
    rw [← List.length_reverse, hholds.records]
    exact (length_place _ _).trans (congrArg List.length hfitting)
  have hlength : s'.records.length = records.length := by
    rw [← List.length_reverse, hrecords, ← @List.length_map _ _ placed (names ·.2), hplaced, ← hnames,
      List.length_map]
  have hnone : ∀ e ∈ rest, e.isShort = false := by
    intro e he
    by_contra hshort
    have hgrows := (visitAll_grows hvisit).2 ⟨e, he, by simpa using hshort⟩
      (hrequired ▸ BitVec.le_refl _)
    lia
  have hfits := (visitAll_skipped hnone hvisit).2.2
  exact fun e he => ⟨hnone e he, hfits e he⟩

/-- The two calls list the files of a directory exactly if these stand in the first cluster and their
names are read in full. -/
theorem listsFiles_iff (h : FatChain d v c l)
    (hentries : v.directoryEntries d l = slots.flatMap Slot.entries) (hw : ∀ s ∈ slots, s.WellFormed) :
    ListsFiles d deviceAlignment v c (slots.filterMap Slot.names) ↔ Listable d v c l slots := by
  refine ⟨fun hlists => ?_, listsFiles_of_listable h hentries hw⟩
  obtain ⟨all, hall, hsize, hnames⟩ := @directoryRecords_slots none .empty (fun _ => 0) deviceAlignment
    slots hw rfl remains_empty
  obtain ⟨listed, hlisted⟩ := firstEntries_isPrefix h
  rw [hentries] at hlisted
  rw [← hlisted] at hall
  obtain ⟨front, back, hfront, happend⟩ := directoryRecords_of_append hall
  obtain ⟨rest, hrest⟩ := (firstEntries_isPrefix h).trans (directoryEntries_isPrefix d v l)
  have hright : all = front ∧ front.map names = slots.filterMap Slot.names ∧
      listedSize (slots.filterMap Slot.names) < 2 ^ 32 := by
    by_cases hnone : (v.clusterEntries d (d.sectorOf c)).takeWhile (·.name 0 ≠ freeAll) = []
    · have hslots := directoryEntries_of_firstEntries h hnone
      rw [hentries, List.flatMap_eq_nil_iff] at hslots
      obtain rfl : slots = [] := List.eq_nil_iff_forall_not_mem.mpr fun s hs =>
        s.entries_ne_nil (hslots s hs)
      rw [hlisted] at hall
      obtain rfl : [] = all := Except.ok.inj hall
      obtain ⟨rfl, rfl⟩ := List.append_eq_nil_iff.mp happend.symm
      exact ⟨rfl, rfl, by decide⟩
    · rw [← visited_of_firstEntries hnone] at hfront
      exact front_of_listsFiles h hlists hfront happend hsize
  obtain ⟨rfl, hfiles, hlt⟩ := hright
  obtain ⟨hpadded, hfifths⟩ := hnames.mp hfiles
  refine ⟨hlt, hpadded, hfifths, ?_⟩
  rw [← hrest, List.drop_left]
  exact rest_of_listsFiles h hlists hrest.symm hfront hfiles

theorem rootWith_chain (l : List DirEntry) : FatChain smallDisk (rootWith l) 2 [2] := by
  have hend : (rootWith l).nextCluster 2 = none := by
    change (rootWith []).nextCluster 2 = none
    decide
  refine ⟨.last hend, fun x hx => ?_⟩
  rw [List.mem_singleton.mp hx]
  exact ⟨by decide, by decide⟩

theorem listsFiles_labelAndReadme : ListsFiles smallDisk 512 (rootWith labelAndReadme) 2
    ([.file volumeLabel, .named readmeName 0x5A readme].filterMap Slot.names) := by
  refine (listsFiles_iff (rootWith_chain labelAndReadme) rfl
    (List.forall_mem_cons.mpr ⟨?_, List.forall_mem_singleton.mpr ?_⟩)).mpr
      ⟨by decide +kernel, List.forall_mem_cons.mpr ⟨?_, List.forall_mem_singleton.mpr ?_⟩, ?_, ?_⟩
  · exact ⟨rfl, rfl, by decide, by decide⟩
  · exact ⟨⟨rfl, by decide, by decide, by decide⟩, by decide, by decide, by decide⟩
  · exact fun i j _ _ h => absurd h (by change ¬(0x41 : BYTE) = space; decide)
  · exact fun i j _ _ h => absurd h (by change ¬(0x42 : BYTE) = space; decide)
  · exact ⟨trivial, fun h => absurd h (by decide), trivial⟩
  · have hnone : ((rootWith labelAndReadme).reached smallDisk [2]).drop
        (((rootWith labelAndReadme).clusterEntries smallDisk (smallDisk.sectorOf 2)).takeWhile
          (·.name 0 ≠ freeAll)).length = [] := rfl
    rw [hnone]
    simp

/-- The root directory of an empty volume starts with the end mark. -/
theorem not_listsFiles_emptyRoot : ¬∀ (d : FatData) (deviceAlignment : QWORD) (v : Volume) (c : ℕ)
    (l : List ℕ) (slots : List Slot), FatChain d v c l →
      v.directoryEntries d l = slots.flatMap Slot.entries → (∀ s ∈ slots, s.WellFormed) →
        ListsFiles d deviceAlignment v c (slots.filterMap Slot.names) := by
  intro hall
  have hchain := rootWith_chain [.zero]
  have hlists := hall smallDisk 512 (rootWith [.zero]) 2 [2] [] hchain rfl (by simp)
  have hzero : DirEntry.zero ∈ (rootWith [.zero]).reached smallDisk [2] :=
    (visited_prefix_reached hchain).subset (List.mem_singleton_self _)
  have hrest := @rest_of_listsFiles smallDisk _ 2 [2] 512 [] [] _ [] hchain hlists (List.nil_append _).symm
    rfl rfl
  have hshort := (hrest _ hzero).1
  exact absurd hshort (by decide)

end Calls

end HAL9000.Fat32
