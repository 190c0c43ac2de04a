import HAL9000.Fat32.FileData
import Mathlib.Data.Finset.Card
import Mathlib.Order.Interval.Finset.Nat

/-! Reading and writing a file at byte offsets (`_FatDispatchReadWrite`). The driver divides the offset and
the length by the size of a sector, and `IoCallDriver` has checked them only against the alignment of the
device. -/
namespace HAL9000.Fat32

open Chain Program

/-- A byte of a record, in the layout of `DIR_ENTRY`. -/
def DirEntry.byteAt (e : DirEntry) (i : ℕ) : BYTE :=
  if h : i < 11 then e.name ⟨i, h⟩
  else
    match i with
    | 11 => e.attr
    | 12 => e.ntRes
    | 13 => e.crtTimeTenth
    | 14 => e.crtTime.extractLsb' 0 8
    | 15 => e.crtTime.extractLsb' 8 8
    | 16 => e.crtDate.extractLsb' 0 8
    | 17 => e.crtDate.extractLsb' 8 8
    | 18 => e.lstAccDate.extractLsb' 0 8
    | 19 => e.lstAccDate.extractLsb' 8 8
    | 20 => e.fstClusHI.extractLsb' 0 8
    | 21 => e.fstClusHI.extractLsb' 8 8
    | 22 => e.wrtTime.extractLsb' 0 8
    | 23 => e.wrtTime.extractLsb' 8 8
    | 24 => e.wrtDate.extractLsb' 0 8
    | 25 => e.wrtDate.extractLsb' 8 8
    | 26 => e.fstClusLO.extractLsb' 0 8
    | 27 => e.fstClusLO.extractLsb' 8 8
    | 28 => e.fileSize.extractLsb' 0 8
    | 29 => e.fileSize.extractLsb' 8 8
    | 30 => e.fileSize.extractLsb' 16 8
    | 31 => e.fileSize.extractLsb' 24 8
    | _ => 0

/-- A byte of a sector. -/
def byteOf (s : ℕ → DirEntry) (i : ℕ) : BYTE := (s (i / 32)).byteAt (i % 32)

structure FileRequest where
  write : Bool
  offset : QWORD
  length : QWORD

inductive AccessError
  | alignmentNotSatisfied
  | fat (status : FatStatus)

def maxDword : ℕ := 2 ^ 32 - 1

variable (d : FatData)

def sectorBytes (s : ℕ → DirEntry) : List BYTE := (List.range d.bytesPerSector).map (byteOf s)

def bytesOf (sectors : List (ℕ → DirEntry)) : List BYTE := sectors.flatMap (sectorBytes d)

/-- The contents of the clusters of a file. -/
def fileBytes (v : Volume) (l : List ℕ) : List BYTE := bytesOf d (fileSectors d v l)

def bufferByte (buffer : ℕ → ℕ → DirEntry) (i : ℕ) : BYTE :=
  byteOf (buffer (i / d.bytesPerSector)) (i % d.bytesPerSector)

/-- Returns the number of bytes, and the sectors that have been read. -/
def fatDispatchReadWrite (fileOffsetInVolume parentOffsetInVolume : ℕ) (r : FileRequest)
    (buffer : ℕ → ℕ → DirEntry) (now : DateTime) : FatM (ℕ × List (ℕ → DirEntry)) := do
  Prog.lift (assertThat (fileOffsetInVolume ≤ maxDword))
  Prog.lift (assertThat (r.offset.toNat ≤ maxDword))
  Prog.lift (assertThat (r.length.toNat ≤ maxDword))
  if r.write then
    let sectorsWritten ← fatWriteFile d fileOffsetInVolume (r.offset.toNat / d.bytesPerSector)
      parentOffsetInVolume buffer (r.length.toNat / d.bytesPerSector) now
    return (sectorsWritten * d.bytesPerSector, [])
  else
    let (sectorsRead, data) ← fatReadFile d fileOffsetInVolume (r.offset.toNat / d.bytesPerSector)
      parentOffsetInVolume (r.length.toNat / d.bytesPerSector) now
    return (sectorsRead * d.bytesPerSector, data)

/-- `_IoReadWriteFile` with the check of `IoCallDriver`. -/
def ioReadWriteFile (deviceAlignment : QWORD) (irpAllocated : Bool)
    (fileOffsetInVolume parentOffsetInVolume : ℕ) (r : FileRequest) (buffer : ℕ → ℕ → DirEntry)
    (now : DateTime) (w : World) :
    Except Fault (Except AccessError (ℕ × List (ℕ → DirEntry)) × World) :=
  if ¬irpAllocated then .ok (.error (.fat .heapNoMoreMemory), w)
  else if ¬isAddressAligned r.length deviceAlignment ∨ ¬isAddressAligned r.offset deviceAlignment then
    .ok (.error .alignmentNotSatisfied, w)
  else
    match fatDispatchReadWrite d fileOffsetInVolume parentOffsetInVolume r buffer now w with
    | .error fault => .error fault
    | .ok (.error status, w) => .ok (.error (.fat status), w)
    | .ok (.ok result, w) => .ok (.ok result, w)

/-- The first `n` bytes of the buffer are those of the file from the offset on. -/
def Fetched (v : Volume) (l : List ℕ) (offset n : ℕ) (data : List (ℕ → DirEntry)) : Prop :=
  bytesOf d data = ((fileBytes d v l).drop offset).take n ∧ (bytesOf d data).length = n

/-- The first `n` bytes of the buffer are those of the file from the offset on, and the other bytes that
the file had before are as they were. -/
structure Stored (v : Volume) (f : OpenFile d v) (buffer : ℕ → ℕ → DirEntry) (offset n : ℕ)
    (v' : Volume) (l : List ℕ) : Prop where
  chain : FatChain d v' f.first l
  grown : f.clusters <+: l
  bytes : ((fileBytes d v' l).drop offset).take n = (List.range n).map (bufferByte d buffer)
  kept : ∀ i < (fileBytes d v f.clusters).length, i < offset ∨ offset + n ≤ i →
    (fileBytes d v' l)[i]? = (fileBytes d v f.clusters)[i]?

/-- A request to any open file that reports success has transferred exactly the bytes it reports. -/
def TransfersExactly (deviceAlignment : QWORD) (r : FileRequest) : Prop :=
  ∀ (v : Volume) (f : OpenFile d v) (irpAllocated : Bool) (buffer : ℕ → ℕ → DirEntry) (now : DateTime)
    (w w' : World) (n : ℕ) (data : List (ℕ → DirEntry)), w.volume = v → LinksMet w.outcome →
    ioReadWriteFile d deviceAlignment irpAllocated (d.sectorOf f.first) f.dirEntrySector r buffer now w =
      .ok (.ok (n, data), w') →
    n ≤ r.length.toNat ∧
      if r.write then ∃ l, Stored d v f buffer r.offset.toNat n w'.volume l
      else Fetched d v f.clusters r.offset.toNat n data

/-- A request for a sector at least that passes the checks and is within some file of the volume. -/
structure Served (deviceAlignment : QWORD) (r : FileRequest) : Prop where
  length_aligned : isAddressAligned r.length deviceAlignment = true
  offset_aligned : isAddressAligned r.offset deviceAlignment = true
  length_le : r.length.toNat ≤ maxDword
  offset_le : r.offset.toNat ≤ maxDword
  sector : d.bytesPerSector ≤ r.length.toNat
  room : r.offset.toNat / d.bytesPerSector +
    (if r.write then r.length.toNat / d.bytesPerSector else 1) ≤
      (d.countOfClusters - 1) * d.sectorsPerCluster
  file : ∃ c, d.IsCluster c ∧ isAddressAligned (BitVec.ofNat 64 (d.sectorOf c))
    (BitVec.ofNat 64 d.sectorsPerCluster) = true

variable {d}

section Bytes

variable {v v' : Volume} {l : List ℕ}

theorem bytesPerSector_pos (d : FatData) : 0 < d.bytesPerSector :=
  Nat.lt_of_lt_of_le (by decide) d.bytesPerSector_ge

theorem length_sectorBytes (d : FatData) (s : ℕ → DirEntry) :
    (sectorBytes d s).length = d.bytesPerSector := by
  rw [sectorBytes, List.length_map, List.length_range]

theorem length_bytesOf (d : FatData) (sectors : List (ℕ → DirEntry)) :
    (bytesOf d sectors).length = sectors.length * d.bytesPerSector :=
  Blocks.length_flatMap (length_sectorBytes d) sectors

theorem length_fileBytes (d : FatData) (v : Volume) (l : List ℕ) :
    (fileBytes d v l).length = l.length * d.sectorsPerCluster * d.bytesPerSector := by
  rw [fileBytes, length_bytesOf, length_fileSectors]

/-- Whole sectors from a sector on. -/
theorem bytesOf_slice (d : FatData) (sectors : List (ℕ → DirEntry)) (q n : ℕ) :
    ((bytesOf d sectors).drop (q * d.bytesPerSector)).take (n * d.bytesPerSector) =
      bytesOf d ((sectors.drop q).take n) := by
  unfold bytesOf
  rw [Blocks.drop_flatMap (length_sectorBytes d), Blocks.take_flatMap (length_sectorBytes d)]

theorem bytesOf_getElem? (d : FatData) (sectors : List (ℕ → DirEntry)) (i : ℕ) :
    (bytesOf d sectors)[i]? =
      sectors[i / d.bytesPerSector]?.map fun s => byteOf s (i % d.bytesPerSector) := by
  have hmod := Nat.mod_lt i (bytesPerSector_pos d)
  unfold bytesOf
  rw [Blocks.getElem?_flatMap (length_sectorBytes d) (bytesPerSector_pos d)]
  cases sectors[i / d.bytesPerSector]? with
  | none => rfl
  | some s => simp [sectorBytes, hmod]

/-- The bytes of a file, by sector. -/
theorem fileBytes_getElem? (d : FatData) (v : Volume) (l : List ℕ) (i : ℕ) :
    (fileBytes d v l)[i]? = if i / d.bytesPerSector < l.length * d.sectorsPerCluster then
      some (byteOf (v.data (sectorAt d l (i / d.bytesPerSector))) (i % d.bytesPerSector)) else none := by
  rw [fileBytes, bytesOf_getElem?, fileSectors_getElem?]
  split_ifs <;> rfl

end Bytes

section Requests

variable {v : Volume} {w w' : World} {r : FileRequest} {buffer : ℕ → ℕ → DirEntry} {now : DateTime}
  {deviceAlignment : QWORD} {irpAllocated : Bool} {base parent n : ℕ} {data : List (ℕ → DirEntry)}

theorem assert_bind {α : Type} {p : Prop} [Decidable p] {f : Unit → FatM α}
    {res : Except FatStatus α × World} (h : (Prog.lift (assertThat p) >>= f) w = .ok res) :
    p ∧ f () w = .ok res := by
  by_cases hp : p
  · rw [assertThat_of hp] at h
    exact ⟨hp, h⟩
  · rw [assertThat_of_not hp] at h
    cases h

/-- What a request that reports success has passed, and which sectors it has transferred. -/
structure Succeeded (d : FatData) (deviceAlignment : QWORD) (base parent : ℕ) (r : FileRequest)
    (buffer : ℕ → ℕ → DirEntry) (now : DateTime) (w w' : World) (n : ℕ)
    (data : List (ℕ → DirEntry)) : Prop where
  length_aligned : isAddressAligned r.length deviceAlignment = true
  offset_aligned : isAddressAligned r.offset deviceAlignment = true
  length_le : r.length.toNat ≤ maxDword
  offset_le : r.offset.toNat ≤ maxDword
  written : r.write = true → ∃ count, n = count * d.bytesPerSector ∧ data = [] ∧
    fatWriteFile d base (r.offset.toNat / d.bytesPerSector) parent buffer
      (r.length.toNat / d.bytesPerSector) now w = .ok (.ok count, w')
  read : r.write = false → ∃ count, n = count * d.bytesPerSector ∧
    fatReadFile d base (r.offset.toNat / d.bytesPerSector) parent
      (r.length.toNat / d.bytesPerSector) now w = .ok (.ok (count, data), w')

theorem succeeded_of_run (h : ioReadWriteFile d deviceAlignment irpAllocated base parent r buffer now w =
    .ok (.ok (n, data), w')) : Succeeded d deviceAlignment base parent r buffer now w w' n data := by
  unfold ioReadWriteFile at h
  by_cases hirp : ¬irpAllocated
  · rw [if_pos hirp] at h
    cases h
  by_cases haligned : ¬isAddressAligned r.length deviceAlignment ∨
      ¬isAddressAligned r.offset deviceAlignment
  · rw [if_neg hirp, if_pos haligned] at h
    cases h
  rw [if_neg hirp, if_neg haligned] at h
  obtain ⟨hlength, hoffset⟩ : isAddressAligned r.length deviceAlignment = true ∧
      isAddressAligned r.offset deviceAlignment = true := by simpa using haligned
  have hrun : fatDispatchReadWrite d base parent r buffer now w = .ok (.ok (n, data), w') := by
    cases hdispatch : fatDispatchReadWrite d base parent r buffer now w with
    | error fault =>
      rw [hdispatch] at h
      cases h
    | ok res =>
      obtain ⟨res, w₁⟩ := res
      rw [hdispatch] at h
      cases res with
      | error status => cases h
      | ok result =>
        obtain ⟨hok, rfl⟩ := Prod.mk.inj (Except.ok.inj h)
        rw [Except.ok.inj hok]
  unfold fatDispatchReadWrite at hrun
  obtain ⟨-, hrun⟩ := assert_bind hrun
  obtain ⟨hoffsetLe, hrun⟩ := assert_bind hrun
  obtain ⟨hlengthLe, hrun⟩ := assert_bind hrun
  refine ⟨hlength, hoffset, hlengthLe, hoffsetLe, fun hwrite => ?_, fun hread => ?_⟩
  · rw [if_pos hwrite] at hrun
    rcases Prog.bind_returns hrun with ⟨e, hres, -⟩ | ⟨count, w₁, hcall, hrest⟩
    · cases hres
    · obtain ⟨hok, rfl⟩ := Prod.mk.inj (Except.ok.inj hrest)
      obtain ⟨rfl, rfl⟩ := Prod.mk.inj (Except.ok.inj hok)
      exact ⟨count, rfl, rfl, hcall⟩
  · rw [if_neg (by simp [hread])] at hrun
    rcases Prog.bind_returns hrun with ⟨e, hres, -⟩ | ⟨⟨count, sectors⟩, w₁, hcall, hrest⟩
    · cases hres
    · obtain ⟨hok, rfl⟩ := Prod.mk.inj (Except.ok.inj hrest)
      obtain ⟨rfl, rfl⟩ := Prod.mk.inj (Except.ok.inj hok)
      exact ⟨count, rfl, hcall⟩

end Requests

section Sufficient

variable {v v' : Volume} {f : OpenFile d v} {w w' : World} {r : FileRequest}
  {buffer : ℕ → ℕ → DirEntry} {now : DateTime} {deviceAlignment : QWORD} {n q count : ℕ} {l : List ℕ}
  {data : List (ℕ → DirEntry)}

/-- The cluster of the directory and those of the file are different clusters of the volume. -/
theorem length_le_of_directory (hl : ∀ c ∈ l, d.IsCluster c) (hnodup : l.Nodup) {e : ℕ}
    (he : d.IsCluster e) (hout : e ∉ l) : l.length ≤ d.countOfClusters - 1 := by
  have hsub : (e :: l).toFinset ⊆ Finset.Icc 2 (d.countOfClusters + 1) := by
    intro c hc
    rcases List.mem_cons.mp (List.mem_toFinset.mp hc) with rfl | hc
    · exact Finset.mem_Icc.mpr he
    · exact Finset.mem_Icc.mpr (hl c hc)
  have hcard := Finset.card_le_card hsub
  rw [List.toFinset_card_of_nodup (List.nodup_cons.mpr ⟨hout, hnodup⟩), Nat.card_Icc,
    List.length_cons] at hcard
  lia

theorem Holding.length_le (h : Holding d v f buffer q count v' l) :
    l.length * d.sectorsPerCluster ≤ (d.countOfClusters - 1) * d.sectorsPerCluster :=
  Nat.mul_le_mul_right _ (length_le_of_directory h.isCluster h.nodup f.directory_isCluster
    h.directory_not_mem)

/-- Sectors that have been written are bytes that have been stored. -/
theorem Holding.stored (h : Holding d v f buffer q count v' l) :
    Stored d v f buffer (q * d.bytesPerSector) (count * d.bytesPerSector) v' l := by
  have hpos := bytesPerSector_pos d
  refine ⟨h.chain, h.grown, List.ext_getElem? fun i => ?_, fun i hi hrange => ?_⟩
  · by_cases hi : i < count * d.bytesPerSector
    swap
    · rw [List.getElem?_eq_none (by rw [List.length_take]; omega), List.getElem?_eq_none (by simpa using hi)]
    have hsector : i / d.bytesPerSector < count := (Nat.div_lt_iff_lt_mul hpos).mpr hi
    obtain ⟨hlt, hwritten⟩ := h.written _ hsector
    have hdiv : (q * d.bytesPerSector + i) / d.bytesPerSector = q + i / d.bytesPerSector := by
      rw [Nat.mul_comm, Nat.mul_add_div hpos]
    have hmod : (q * d.bytesPerSector + i) % d.bytesPerSector = i % d.bytesPerSector := by
      rw [Nat.mul_comm, Nat.mul_add_mod]
    rw [List.getElem?_take_of_lt hi, List.getElem?_drop, fileBytes_getElem?, hdiv, hmod, if_pos hlt,
      hwritten, List.getElem?_map, List.getElem?_range hi]
    rfl
  · rw [length_fileBytes] at hi
    have hsector : i / d.bytesPerSector < f.clusters.length * d.sectorsPerCluster :=
      (Nat.div_lt_iff_lt_mul hpos).mpr hi
    have hout : i / d.bytesPerSector < q ∨ q + count ≤ i / d.bytesPerSector := by
      rcases hrange with hlt | hge
      · exact Or.inl ((Nat.div_lt_iff_lt_mul hpos).mpr hlt)
      · refine Or.inr ((Nat.le_div_iff_mul_le hpos).mpr ?_)
        rw [Nat.add_mul]
        exact hge
    rw [fileBytes_getElem?, fileBytes_getElem?, if_pos hsector,
      if_pos (hsector.trans_le h.old_le), h.kept _ hsector hout]

/-- Nothing has been stored. -/
theorem Holding.stored_nothing (h : Holding d v f buffer q 0 v' l) (offset : ℕ) :
    Stored d v f buffer offset 0 v' l := by
  have hstored := h.stored
  rw [Nat.zero_mul] at hstored
  refine ⟨h.chain, h.grown, rfl, fun i hi _ => hstored.kept i hi ?_⟩
  rw [Nat.add_zero]
  exact Nat.lt_or_ge i _

theorem write_stored (h : Succeeded d deviceAlignment (d.sectorOf f.first) f.dirEntrySector r buffer now
      w w' n data) (hw : w.volume = v) (ho : LinksMet w.outcome) (hwrite : r.write = true) :
    ∃ l, n = r.length.toNat / d.bytesPerSector * d.bytesPerSector ∧
      Holding d v f buffer (r.offset.toNat / d.bytesPerSector) (r.length.toNat / d.bytesPerSector)
        w'.volume l := by
  obtain ⟨count, rfl, -, hrun⟩ := h.written hwrite
  obtain ⟨-, rfl, l, hl⟩ := fatWriteFile_holding ho w _ w' ⟨rfl, hw⟩ hrun
  exact ⟨l, rfl, hl⟩

/-- The sectors of a read are those of the file. -/
theorem read_fetched (h : Succeeded d deviceAlignment (d.sectorOf f.first) f.dirEntrySector r buffer now
      w w' n data) (hw : w.volume = v) (hread : r.write = false)
    (hcount : 0 < r.length.toNat / d.bytesPerSector) :
    r.offset.toNat / d.bytesPerSector < f.clusters.length * d.sectorsPerCluster ∧
      n ≤ r.length.toNat / d.bytesPerSector * d.bytesPerSector ∧
      bytesOf d data = ((fileBytes d v f.clusters).drop
        (r.offset.toNat / d.bytesPerSector * d.bytesPerSector)).take n ∧
      (bytesOf d data).length = n := by
  obtain ⟨count, rfl, hrun⟩ := h.read hread
  obtain ⟨u, t, o⟩ := w
  obtain rfl : u = v := hw
  have haligned : f.toFileAt.Aligned := by
    by_contra hnot
    cases (f.toFileAt.read_not_aligned hnot _).symm.trans hrun
  by_cases hwithin : r.offset.toNat / d.bytesPerSector < f.toFileAt.sectors
  swap
  · exfalso
    by_cases hend : r.offset.toNat / d.bytesPerSector < f.toFileAt.sectors + d.sectorsPerCluster
    · rcases f.toFileAt.read_at_end haligned hcount (by omega) hend t with hfault | ⟨⟨e, w₁, herror⟩, -⟩
      · cases hfault.symm.trans hrun
      · cases herror.symm.trans hrun
    · cases (Settles.eq_of_ok (f.toFileAt.read_past haligned (by omega) hcount) hrun).1
  obtain ⟨index, hindex, hmatch⟩ := exists_firstMatch f.toFileAt.matches_slot
  obtain ⟨hok, -⟩ := Settles.eq_of_ok (f.toFileAt.read_within haligned hcount hwithin hindex hmatch) hrun
  obtain ⟨rfl, rfl⟩ := Prod.mk.inj (Except.ok.inj hok)
  have hlength := length_fileSectors d u f.clusters
  have htake : ((fileSectors d u f.clusters).drop (r.offset.toNat / d.bytesPerSector)).take
        (r.length.toNat / d.bytesPerSector) =
      ((fileSectors d u f.clusters).drop (r.offset.toNat / d.bytesPerSector)).take
        (min (r.length.toNat / d.bytesPerSector)
          (f.toFileAt.sectors - r.offset.toNat / d.bytesPerSector)) := by
    rw [← List.take_take, List.take_of_length_le (i := f.toFileAt.sectors - _)]
    rw [List.length_drop, hlength]
    rfl
  refine ⟨hwithin, Nat.mul_le_mul_right _ (min_le_left _ _), ?_, ?_⟩
  · rw [htake, fileBytes, bytesOf_slice]
  · rw [length_bytesOf, List.length_take, List.length_drop, hlength]
    rfl

/-- The `ASSERT` of a call that succeeds has held. -/
theorem aligned_of_write {k m : ℕ} {res : ℕ}
    (h : fatWriteFile d (d.sectorOf f.first) k f.dirEntrySector buffer m now w = .ok (.ok res, w')) :
    f.toFileAt.Aligned := (assert_bind h).1

theorem aligned_of_read {k m : ℕ} {res : ℕ × List (ℕ → DirEntry)}
    (h : fatReadFile d (d.sectorOf f.first) k f.dirEntrySector m now w = .ok (.ok res, w')) :
    f.toFileAt.Aligned := (assert_bind h).1

/-- A request for no whole sector reads nothing. -/
theorem read_nothing (h : Succeeded d deviceAlignment (d.sectorOf f.first) f.dirEntrySector r buffer now
      w w' n data) (hread : r.write = false) (hcount : r.length.toNat / d.bytesPerSector = 0) :
    n = 0 ∧ data = [] := by
  obtain ⟨count, rfl, hrun⟩ := h.read hread
  rw [hcount] at hrun
  have hrest := (assert_bind hrun).2
  rw [if_pos rfl] at hrest
  obtain ⟨hok, -⟩ := Prod.mk.inj (Except.ok.inj hrest)
  obtain ⟨rfl, rfl⟩ := Prod.mk.inj (Except.ok.inj hok)
  exact ⟨Nat.zero_mul _, rfl⟩

/-- A successful request for a sector at least is one that some file serves. -/
theorem Succeeded.served (h : Succeeded d deviceAlignment (d.sectorOf f.first) f.dirEntrySector r buffer
      now w w' n data) (hw : w.volume = v) (ho : LinksMet w.outcome)
    (hcount : 0 < r.length.toNat / d.bytesPerSector) : Served d deviceAlignment r := by
  have hpos := bytesPerSector_pos d
  have hsector : d.bytesPerSector ≤ r.length.toNat := (Nat.div_pos_iff.mp hcount).2
  have hfile := f.chain.isCluster
  refine ⟨h.length_aligned, h.offset_aligned, h.length_le, h.offset_le, hsector, ?_, ?_⟩
  · cases hwrite : r.write with
    | true =>
      obtain ⟨l, -, hl⟩ := write_stored h hw ho hwrite
      obtain ⟨hlt, -⟩ := hl.written (r.length.toNat / d.bytesPerSector - 1) (by omega)
      have hle := hl.length_le
      rw [if_pos rfl]
      lia
    | false =>
      obtain ⟨hlt, -⟩ := read_fetched h hw hwrite hcount
      have hle := (holding_start f buffer 0).length_le
      rw [if_neg (by simp)]
      omega
  · refine ⟨f.first, hfile, ?_⟩
    cases hwrite : r.write with
    | true =>
      obtain ⟨count, -, -, hrun⟩ := h.written hwrite
      exact aligned_of_write hrun
    | false =>
      obtain ⟨count, -, hrun⟩ := h.read hwrite
      exact aligned_of_read hrun

/-- A request that is aligned to sectors has transferred what it reports. -/
theorem transfersExactly_of_dvd (h : Served d deviceAlignment r → d.bytesPerSector ∣ r.offset.toNat) :
    TransfersExactly d deviceAlignment r := by
  intro v f irpAllocated buffer now w w' n data hw ho hrun
  have hs := succeeded_of_run hrun
  have hle := Nat.div_mul_le_self r.length.toNat d.bytesPerSector
  cases hwrite : r.write with
  | true =>
    obtain ⟨l, rfl, hl⟩ := write_stored hs hw ho hwrite
    refine ⟨hle, ?_⟩
    rw [if_pos rfl]
    by_cases hcount : 0 < r.length.toNat / d.bytesPerSector
    · have hstored := hl.stored
      rw [Nat.div_mul_cancel (h (hs.served hw ho hcount))] at hstored
      exact ⟨l, hstored⟩
    · rw [Nat.eq_zero_of_not_pos hcount] at hl ⊢
      rw [Nat.zero_mul]
      exact ⟨l, hl.stored_nothing _⟩
  | false =>
    rw [if_neg (by simp)]
    by_cases hcount : 0 < r.length.toNat / d.bytesPerSector
    · obtain ⟨-, hn, hbytes, hlength⟩ := read_fetched hs hw hwrite hcount
      rw [Nat.div_mul_cancel (h (hs.served hw ho hcount))] at hbytes
      exact ⟨hn.trans hle, hbytes, hlength⟩
    · obtain ⟨rfl, rfl⟩ := read_nothing hs hwrite (Nat.eq_zero_of_not_pos hcount)
      exact ⟨Nat.zero_le _, rfl, rfl⟩

end Sufficient

/-- A sector of which only the first byte is not 0. -/
def markedSector : ℕ → DirEntry := fun i =>
  if i = 0 then { DirEntry.zero with name := fun k => if k = 0 then 1 else 0 } else .zero

def spareCluster (c : ℕ) : ℕ := if c = 2 then 3 else 2

/-- All clusters but the spare one, from `c` on. -/
def largestChain (d : FatData) (c : ℕ) : List ℕ :=
  c :: ((List.range' 2 d.countOfClusters).erase c).erase (spareCluster c)

/-- A volume with one file; the spare cluster is that of the directory. -/
def largestFile (d : FatData) (c : ℕ) : Volume where
  fat x :=
    match (largestChain d c)[(largestChain d c).idxOf x + 1]? with
    | some next => BitVec.ofNat 32 next
    | none => fat32EocMark
  fsInfo := .zero
  data s :=
    if s = d.sectorOf (spareCluster c) then
      fun _ => DirEntry.new (fun _ => 1) 0 (BitVec.ofNat 32 c) ⟨0, 0⟩
    else markedSector

section Largest

variable {c x i : ℕ}

theorem byteOf_markedSector (i : ℕ) : byteOf markedSector i = if i = 0 then 1 else 0 := by
  have hzero : ∀ j < 32, DirEntry.zero.byteAt j = 0 := by decide
  have hfirst : ∀ j < 32, (markedSector 0).byteAt j = if j = 0 then 1 else 0 := by decide
  have hmod := Nat.mod_lt i (show 0 < 32 by decide)
  have hdiv := Nat.div_add_mod i 32
  unfold byteOf
  by_cases h : i / 32 = 0
  · rw [h, hfirst _ hmod]
    simp only [show i % 32 = 0 ↔ i = 0 by lia]
  · rw [markedSector, if_neg h, hzero _ hmod, if_neg (by omega)]

theorem spareCluster_isCluster (d : FatData) (c : ℕ) : d.IsCluster (spareCluster c) := by
  have hge := d.countOfClusters_ge
  unfold spareCluster FatData.IsCluster
  split_ifs <;> omega

theorem spareCluster_ne (c : ℕ) : spareCluster c ≠ c := by
  unfold spareCluster
  split_ifs <;> omega

theorem mem_clusters : x ∈ List.range' 2 d.countOfClusters ↔ d.IsCluster x := by
  rw [List.mem_range'_1]
  unfold FatData.IsCluster
  omega

theorem largestChain_nodup (d : FatData) (c : ℕ) : (largestChain d c).Nodup := by
  have hnodup : (List.range' 2 d.countOfClusters).Nodup := List.nodup_range'
  refine List.nodup_cons.mpr ⟨fun hc => ?_, (hnodup.erase c).erase _⟩
  exact hnodup.not_mem_erase (List.mem_of_mem_erase hc)

theorem largestChain_isCluster (hc : d.IsCluster c) (hx : x ∈ largestChain d c) : d.IsCluster x := by
  rcases List.mem_cons.mp hx with rfl | hx
  · exact hc
  · exact mem_clusters.mp (List.mem_of_mem_erase (List.mem_of_mem_erase hx))

theorem spareCluster_not_mem (d : FatData) (c : ℕ) : spareCluster c ∉ largestChain d c := by
  intro h
  rcases List.mem_cons.mp h with h | h
  · exact spareCluster_ne c h
  · have hnodup : (List.range' 2 d.countOfClusters).Nodup := List.nodup_range'
    exact (hnodup.erase c).not_mem_erase h

theorem length_largestChain (hc : d.IsCluster c) :
    (largestChain d c).length = d.countOfClusters - 1 := by
  have hge := d.countOfClusters_ge
  have hmem : c ∈ List.range' 2 d.countOfClusters := mem_clusters.mpr hc
  have hspare : spareCluster c ∈ (List.range' 2 d.countOfClusters).erase c :=
    (List.mem_erase_of_ne (spareCluster_ne c)).mpr (mem_clusters.mpr (spareCluster_isCluster d c))
  unfold largestChain
  rw [List.length_cons, List.length_erase_of_mem hspare, List.length_erase_of_mem hmem,
    List.length_range']
  lia

theorem fatChain_largestFile (hc : d.IsCluster c) :
    FatChain d (largestFile d c) c (largestChain d c) := by
  refine ⟨.of_getElem? fun i x hx => ?_, fun x => largestChain_isCluster hc⟩
  change (largestChain d c)[i]? = some x at hx
  have hcount := d.countOfClusters_lt
  obtain ⟨hlt, hget⟩ := List.getElem?_eq_some_iff.mp hx
  have hindex : (largestChain d c).idxOf x = i := by
    rw [← hget]
    exact (largestChain_nodup d c).idxOf_getElem i hlt
  have hfat : (largestFile d c).fat x = match (largestChain d c)[i + 1]? with
      | some next => BitVec.ofNat 32 next
      | none => fat32EocMark := by
    rw [← hindex]
    rfl
  change _ = (largestChain d c)[i + 1]?
  unfold Volume.nextCluster
  rw [hfat]
  cases hnext : (largestChain d c)[i + 1]? with
  | none => exact if_pos (by decide)
  | some next =>
    have hle := (largestChain_isCluster hc (List.mem_of_getElem? hnext)).2
    have hcluster : clusterOf (BitVec.ofNat 32 next) = next := by
      unfold clusterOf
      rw [BitVec.toNat_and, BitVec.toNat_ofNat, Nat.mod_eq_of_lt (by omega)]
      exact (Nat.and_two_pow_sub_one_eq_mod next 28).trans (Nat.mod_eq_of_lt (by omega))
    dsimp only
    rw [hcluster]
    exact if_neg (by unfold fat32BadCluster; omega)

theorem largestFile_entryAt (d : FatData) (c : ℕ) :
    (largestFile d c).entryAt d (d.sectorOf (spareCluster c)) 0 =
      DirEntry.new (fun _ => 1) 0 (BitVec.ofNat 32 c) ⟨0, 0⟩ := by
  unfold Volume.entryAt largestFile
  dsimp only
  rw [Nat.zero_div, Nat.add_zero, if_pos rfl]

/-- The file of the volume. -/
def largestOpenFile (hc : d.IsCluster c) : OpenFile d (largestFile d c) where
  first := c
  clusters := largestChain d c
  dirEntrySector := d.sectorOf (spareCluster c)
  slot := 0
  chain := fatChain_largestFile hc
  slot_lt := Nat.lt_of_lt_of_le (by decide) (two_le_entriesPerCluster d)
  live := by
    rw [largestFile_entryAt]
    simp [DirEntry.isLive, DirEntry.isFree, DirEntry.new, freeEntry, freeAll, freeJapEntry]
  entry := by
    have hcount := d.countOfClusters_lt
    have hle := hc.2
    rw [largestFile_entryAt, DirEntry.new_fstClus, BitVec.toNat_ofNat, Nat.mod_eq_of_lt (by lia)]
  directory := spareCluster c
  directory_isCluster := spareCluster_isCluster d c
  dirEntrySector_eq := rfl
  directory_not_mem := spareCluster_not_mem d c
  directory_used := by
    have hindex : (largestChain d c).idxOf (spareCluster c) = (largestChain d c).length :=
      List.idxOf_eq_length (spareCluster_not_mem d c)
    unfold largestFile
    dsimp only
    rw [hindex, List.getElem?_eq_none (Nat.le_succ _)]
    decide

/-- Only the first byte of each sector of the file is not 0. -/
theorem largestFile_data (hc : d.IsCluster c) (hi : i < (largestChain d c).length * d.sectorsPerCluster) :
    (largestFile d c).data (sectorAt d (largestChain d c) i) = markedSector := by
  refine if_neg fun heq => spareCluster_not_mem d c ?_
  have hmem := getD_mem hi
  have hin := sectorAt_inCluster d (largestChain d c) i
  rw [heq] at hin
  have hspare := (d.inCluster_sectorOf (spareCluster c)).unique hin (spareCluster_isCluster d c).1
    (largestChain_isCluster hc hmem).1
  rw [hspare]
  exact hmem

end Largest

section Necessary

variable {w w' : World} {r : FileRequest} {buffer : ℕ → ℕ → DirEntry} {now : DateTime}
  {deviceAlignment : QWORD} {base parent count : ℕ} {data : List (ℕ → DirEntry)}

/-- A request that passes the checks is passed on. -/
theorem Served.run (h : Served d deviceAlignment r) (hbase : base ≤ maxDword) :
    ioReadWriteFile d deviceAlignment true base parent r buffer now w =
      match (if r.write then do
          let sectorsWritten ← fatWriteFile d base (r.offset.toNat / d.bytesPerSector) parent buffer
            (r.length.toNat / d.bytesPerSector) now
          return (sectorsWritten * d.bytesPerSector, [])
        else do
          let (sectorsRead, data) ← fatReadFile d base (r.offset.toNat / d.bytesPerSector) parent
            (r.length.toNat / d.bytesPerSector) now
          return (sectorsRead * d.bytesPerSector, data) : FatM (ℕ × List (ℕ → DirEntry))) w with
      | .error fault => .error fault
      | .ok (.error status, w) => .ok (.error (.fat status), w)
      | .ok (.ok result, w) => .ok (.ok result, w) := by
  unfold ioReadWriteFile fatDispatchReadWrite
  rw [if_neg (by simp), if_neg (by simp [h.length_aligned, h.offset_aligned]), assertThat_of hbase,
    Prog.lift_ok_bind, assertThat_of h.offset_le, Prog.lift_ok_bind, assertThat_of h.length_le,
    Prog.lift_ok_bind]

theorem Served.run_write (h : Served d deviceAlignment r) (hbase : base ≤ maxDword)
    (hwrite : r.write = true) (hrun : fatWriteFile d base (r.offset.toNat / d.bytesPerSector) parent
      buffer (r.length.toNat / d.bytesPerSector) now w = .ok (.ok count, w')) :
    ioReadWriteFile d deviceAlignment true base parent r buffer now w =
      .ok (.ok (count * d.bytesPerSector, []), w') := by
  rw [h.run hbase, if_pos hwrite, Prog.bind_of_ok hrun]
  rfl

theorem Served.run_read (h : Served d deviceAlignment r) (buffer : ℕ → ℕ → DirEntry)
    (hbase : base ≤ maxDword)
    (hread : r.write = false) (hrun : fatReadFile d base (r.offset.toNat / d.bytesPerSector) parent
      (r.length.toNat / d.bytesPerSector) now w = .ok (.ok (count, data), w')) :
    ioReadWriteFile d deviceAlignment true base parent r buffer now w =
      .ok (.ok (count * d.bytesPerSector, data), w') := by
  rw [h.run hbase, if_neg (by simp [hread]), Prog.bind_of_ok hrun]
  rfl

/-- In the middle of a sector, a write does not put the buffer at its offset. -/
theorem Served.not_stored (h : Served d deviceAlignment r) (hnot : ¬d.bytesPerSector ∣ r.offset.toNat)
    (hwrite : r.write = true) : ¬TransfersExactly d deviceAlignment r := by
  intro htransfers
  obtain ⟨c, hc, haligned⟩ := h.file
  have hpos := bytesPerSector_pos d
  have hcount : 0 < r.length.toNat / d.bytesPerSector := Nat.div_pos h.sector hpos
  have hbase : d.sectorOf c ≤ maxDword := Nat.le_pred_of_lt ((d.inCluster_sectorOf c).sector_lt hc)
  have hoffset : r.offset.toNat % d.bytesPerSector ≠ 0 := fun hzero =>
    hnot (Nat.dvd_of_mod_eq_zero hzero)
  have hroom := h.room
  rw [hwrite, if_pos rfl, ← length_largestChain hc] at hroom
  have hlinks : LinksMet fun _ _ _ => true := fun _ => ⟨rfl, rfl, rfl⟩
  obtain ⟨v', hsettles⟩ := @fatWriteFile_settles d (largestFile d c) (fun _ _ _ => true)
    (fun _ => markedSector) _ _ ⟨0, 0⟩ (largestOpenFile hc) haligned hcount hroom
  obtain ⟨t, hrun⟩ := hsettles.run allMet_true 0
  obtain ⟨-, -, l, hholding⟩ := fatWriteFile_holding (f := largestOpenFile hc) hlinks
    ⟨largestFile d c, 0, fun _ _ _ => true⟩ _ _ ⟨rfl, rfl⟩ hrun
  obtain ⟨-, hbytes⟩ := htransfers _ (largestOpenFile hc) true _ _ _ _ _ _ rfl hlinks
    (h.run_write hbase hwrite hrun)
  rw [hwrite, if_pos rfl] at hbytes
  obtain ⟨l', hstored⟩ := hbytes
  obtain rfl := hstored.chain.unique hholding.chain
  obtain ⟨hlt, hwritten⟩ := hholding.written 0 hcount
  rw [Nat.add_zero] at hlt hwritten
  -- The first byte of the buffer is at the start of the sector.
  have hbyte := congrArg (·[0]?) hstored.bytes
  have hn := Nat.mul_pos hcount hpos
  have hfirst : bufferByte d (fun _ => markedSector) 0 = 1 := by
    unfold bufferByte
    rw [Nat.zero_mod]
    rfl
  dsimp only at hbyte
  rw [List.getElem?_take_of_lt hn, List.getElem?_drop, Nat.add_zero, fileBytes_getElem?, if_pos hlt,
    hwritten, byteOf_markedSector, if_neg hoffset, List.getElem?_map, List.getElem?_range hn,
    Option.map_some, hfirst] at hbyte
  exact absurd (Option.some.inj hbyte) (by decide)

/-- In the middle of a sector, a read does not return the bytes from its offset on. -/
theorem Served.not_fetched (h : Served d deviceAlignment r) (hnot : ¬d.bytesPerSector ∣ r.offset.toNat)
    (hread : r.write = false) : ¬TransfersExactly d deviceAlignment r := by
  intro htransfers
  obtain ⟨c, hc, haligned⟩ := h.file
  have hpos := bytesPerSector_pos d
  have hcount : 0 < r.length.toNat / d.bytesPerSector := Nat.div_pos h.sector hpos
  have hbase : d.sectorOf c ≤ maxDword := Nat.le_pred_of_lt ((d.inCluster_sectorOf c).sector_lt hc)
  have hoffset : r.offset.toNat % d.bytesPerSector ≠ 0 := fun hzero =>
    hnot (Nat.dvd_of_mod_eq_zero hzero)
  have hroom : r.offset.toNat / d.bytesPerSector <
      (largestOpenFile hc).clusters.length * d.sectorsPerCluster := by
    have hroom := h.room
    rw [hread, if_neg (by simp), ← length_largestChain hc] at hroom
    exact hroom
  obtain ⟨index, hindex, hmatch⟩ := exists_firstMatch (largestOpenFile hc).toFileAt.matches_slot
  obtain ⟨t, hrun⟩ := (@FileAt.read_within d _ (largestOpenFile hc).toFileAt (fun _ _ _ => true) _ _
    ⟨0, 0⟩ haligned hcount hroom index hindex hmatch).run allMet_true 0
  obtain ⟨-, hbytes⟩ := htransfers _ (largestOpenFile hc) true (fun _ => markedSector) _ _ _ _ _ rfl
    (fun _ => ⟨rfl, rfl, rfl⟩) (h.run_read _ hbase hread hrun)
  rw [hread, if_neg (by simp)] at hbytes
  have hn : 0 < min (r.length.toNat / d.bytesPerSector) ((largestOpenFile hc).toFileAt.sectors -
      r.offset.toNat / d.bytesPerSector) * d.bytesPerSector :=
    Nat.mul_pos (Nat.lt_min.mpr ⟨hcount, Nat.sub_pos_of_lt hroom⟩) hpos
  have hmarked : (largestFile d c).data (sectorAt d (largestOpenFile hc).clusters
      (r.offset.toNat / d.bytesPerSector)) = markedSector := largestFile_data hc hroom
  -- The first byte that is returned is the one at the start of the sector.
  have hbyte := congrArg (·[0]?) hbytes.1
  rw [bytesOf_getElem?, Nat.zero_div, Nat.zero_mod, List.getElem?_take_of_lt hcount,
    List.getElem?_drop, Nat.add_zero, fileSectors_getElem?, if_pos hroom, hmarked,
    List.getElem?_take_of_lt hn, List.getElem?_drop, Nat.add_zero, fileBytes_getElem?, if_pos hroom,
    hmarked, byteOf_markedSector, if_neg hoffset, Option.map_some, byteOf_markedSector,
    if_pos rfl] at hbyte
  exact absurd (Option.some.inj hbyte) (by decide)

end Necessary

/-- A request transfers exactly the bytes it reports, exactly if its offset is that of a sector whenever
it can be served. -/
theorem transfersExactly_iff (d : FatData) (deviceAlignment : QWORD) (r : FileRequest) :
    TransfersExactly d deviceAlignment r ↔
      (Served d deviceAlignment r → d.bytesPerSector ∣ r.offset.toNat) := by
  refine ⟨fun h hserved => ?_, transfersExactly_of_dvd⟩
  by_contra hnot
  cases hwrite : r.write with
  | true => exact hserved.not_stored hnot hwrite h
  | false => exact hserved.not_fetched hnot hwrite h

/-- A volume with sectors of 1024 bytes. -/
def largeSectors : FatData :=
  { smallDisk with
    bytesPerSector := 1024
    bytesPerSector_ge := by decide
    bytesPerSector_dvd := by decide
    table_fits := by decide }

/-- The device is aligned to 512 bytes, the sectors of the volume are larger. -/
theorem not_transfersExactly_in_sector : ¬∀ (d : FatData) (r : FileRequest), TransfersExactly d 512 r := by
  intro hall
  refine Served.not_fetched ?_ (by decide) rfl (hall largeSectors ⟨false, 512, 1024⟩)
  exact ⟨by decide, by decide, by decide, by decide, by decide, by decide, 3, ⟨by decide, by decide⟩,
    by decide⟩

end HAL9000.Fat32
