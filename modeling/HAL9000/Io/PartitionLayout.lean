import HAL9000.Io.Partitions
import Mathlib.Data.List.Perm.Basic

/-! The partitions that are reported for a disk whose MBR and EBRs are well formed. -/
namespace HAL9000.Io

/-- `_DiskRetrievePartitionsFromDisk`: a pass that counts the partitions, and one that fills an array. -/
def retrievePartitions (disk : Disk) (countHeap fillHeap : ℕ → Bool) (allocated : Bool) (fuel : ℕ) :
    Except Fault (STATUS × Option (List PartitionInformation)) := do
  let (status, t) ← retrievePartitionsAt disk countHeap fuel 0 0 false 0 ⟨0, none⟩
  if ¬succeeded status then return (status, none)
  else if ¬allocated then return (statusHeapNoMoreMemory, none)
  else
    let structureSize := 8 + t.partitionCount * 24
    let (status, t) ← retrievePartitionsAt disk fillHeap fuel 0 0 false 0
      ⟨0, some ⟨structureSize, fun _ => ⟨0, 0, 0, false⟩⟩⟩
    if ¬succeeded status then return (status, none)
    else return (statusSuccess, t.layout.map fun layout =>
      (List.range t.partitionCount.toNat).map layout.partitions)

def MbrPartitionEntry.isUsed (e : MbrPartitionEntry) : Bool := e.partitionType ≠ 0

/-- The partition of an entry whose address is relative to a sector. -/
def MbrPartitionEntry.partitionAt (lba : ℕ) (e : MbrPartitionEntry) : PartitionInformation where
  offsetInDisk := BitVec.ofNat 64 (lba + e.firstSectorLba.toNat)
  partitionSize := e.numberOfSectors.setWidth 64
  partitionType := e.partitionType
  bootable := e.status = mbrStatusActive

/-- A sector with its address. -/
structure Ebr where
  lba : ℕ
  mbr : Mbr

namespace Ebr

def logical (b : Ebr) : MbrPartitionEntry := b.mbr.partitions 0

def next (b : Ebr) : MbrPartitionEntry := b.mbr.partitions 1

end Ebr

/-- A sector with the signature, which holds a logical partition or an unused entry. -/
structure IsEbr (disk : Disk) (b : Ebr) : Prop where
  read : disk b.lba = .ok b.mbr
  signed : b.mbr.bootSignature = mbrBootSignature
  notExtended : b.logical.isExtended = false
  status : b.logical.isUsed = true → b.logical.hasStatus = true

/-- The EBRs of an extended partition; the links are relative to its first sector. -/
inductive EbrChain (disk : Disk) (base : ℕ) : ℕ → List Ebr → Prop
  | last {b : Ebr} (h : IsEbr disk b) (hnext : b.next.isUsed = false) : EbrChain disk base b.lba [b]
  | link {b : Ebr} {ebrs : List Ebr} (h : IsEbr disk b) (hextended : b.next.isExtended = true)
      (hstatus : b.next.hasStatus = true)
      (hrest : EbrChain disk base (b.next.firstSectorLba.toNat + base) ebrs) :
      EbrChain disk base b.lba (b :: ebrs)

/-- A disk with the primary entries before and after the one for the extended partition, and its EBRs.
Only the first EBR may be without a logical partition. -/
inductive WellFormed (disk : Disk) :
    List MbrPartitionEntry → List MbrPartitionEntry → List Ebr → Prop
  | primary {mbr : Mbr} (hread : disk 0 = .ok mbr) (hsigned : mbr.bootSignature = mbrBootSignature)
      (hextended : ∀ e ∈ mbr.entries false, e.isExtended = false)
      (hstatus : ∀ e ∈ mbr.entries false, e.isUsed = true → e.hasStatus = true) :
      WellFormed disk (mbr.entries false) [] []
  | extended {mbr : Mbr} {before after : List MbrPartitionEntry} {e : MbrPartitionEntry}
      {ebrs : List Ebr} (hread : disk 0 = .ok mbr) (hsigned : mbr.bootSignature = mbrBootSignature)
      (hentries : mbr.entries false = before ++ e :: after) (hextended : e.isExtended = true)
      (hactive : e.hasStatus = true) (hlba : e.firstSectorLba ≠ 0)
      (hothers : ∀ e ∈ before ++ after, e.isExtended = false)
      (hstatus : ∀ e ∈ before ++ after, e.isUsed = true → e.hasStatus = true)
      (hchain : EbrChain disk e.firstSectorLba.toNat e.firstSectorLba.toNat ebrs)
      (hused : ∀ b ∈ ebrs.tail, b.logical.isUsed = true) :
      WellFormed disk before after ebrs

/-- The logical partitions. -/
def logicalPartitions (ebrs : List Ebr) : List PartitionInformation :=
  (ebrs.filter (·.logical.isUsed)).map fun b => b.logical.partitionAt b.lba

/-- The partitions of a disk. -/
def partitionsOf (before after : List MbrPartitionEntry) (ebrs : List Ebr) :
    List PartitionInformation :=
  ((before ++ after).filter (·.isUsed)).map (·.partitionAt 0) ++ logicalPartitions ebrs

/-- With memory for the buffers, the partitions of the disk are reported, each once, and none is written
past the array. -/
def ReportsExactly (disk : Disk) (partitions : List PartitionInformation) : Prop :=
  ∃ fuel reported, retrievePartitions disk (fun _ => true) (fun _ => true) true fuel =
    .ok (statusSuccess, some reported) ∧ reported.Perm partitions

/-- No unused entry is taken for a partition, and every partition is looked at. -/
structure Listable (before after : List MbrPartitionEntry) (ebrs : List Ebr) : Prop where
  primary : ∀ e ∈ before, e.isUsed = true ∨ e.hasStatus = false
  behind : ∀ e ∈ after, e.isUsed = false
  head : ∀ b ∈ ebrs.head?, b.logical.isUsed = true ∨ b.logical.hasStatus = false ∨
    b.logical = .zero ∧ ebrs.length = 1
  last : ∀ b ∈ ebrs.getLast?, b.logical = .zero ∨ b.next = .zero ∨ b.next.hasStatus = false
  below : ∀ b ∈ ebrs, b.logical.isUsed = true → b.lba + b.logical.firstSectorLba.toNat < 2 ^ 32
  fits : 8 + 24 * (partitionsOf before after ebrs).length < 2 ^ 32

section Tables

namespace PartitionTable

theorem addAll_append (t : PartitionTable) (ps qs : List PartitionInformation) :
    t.addAll (ps ++ qs) = (t.addAll ps).bind (·.addAll qs) := by
  induction ps generalizing t with
  | nil => rfl
  | cons p ps ih =>
    rw [List.cons_append, addAll, addAll]
    cases t.add p with
    | error fault => rfl
    | ok t₁ => exact ih t₁

/-- The counting pass counts. -/
theorem addAll_count (count : DWORD) (ps : List PartitionInformation) :
    addAll ⟨count, none⟩ ps = .ok ⟨count + BitVec.ofNat 32 ps.length, none⟩ := by
  induction ps generalizing count with
  | nil => simp [addAll]
  | cons p ps ih =>
    have hcount : count + 1 + BitVec.ofNat 32 ps.length = count + BitVec.ofNat 32 (ps.length + 1) := by
      rw [BitVec.ofNat_add, BitVec.add_assoc, BitVec.add_comm 1]
      rfl
    rw [List.length_cons, ← hcount]
    exact ih (count + 1)

/-- The partitions of the array that are filled in. -/
def filled (count : DWORD) (layout : DiskLayout) : List PartitionInformation :=
  (List.range count.toNat).map layout.partitions

/-- The filling pass has room for all partitions. -/
def HasRoom (count structureSize : DWORD) (n : ℕ) : Prop :=
  8 + 24 * (count.toNat + n) ≤ structureSize.toNat

theorem filled_update {count : DWORD} {layout : DiskLayout} (p : PartitionInformation)
    (hcount : (count + 1).toNat = count.toNat + 1) :
    filled (count + 1) { layout with
        partitions := Function.update layout.partitions count.toNat p } =
      filled count layout ++ [p] := by
  unfold filled
  rw [hcount, List.range_succ, List.map_append, List.map_singleton]
  dsimp only
  rw [Function.update_self]
  congr 1
  refine List.map_congr_left fun i hi => Function.update_of_ne ?_ _ _
  have := List.mem_range.mp hi
  omega

/-- The filling pass appends the partitions to the array, or stops at its end. -/
theorem addAll_fill (count : DWORD) (layout : DiskLayout) (ps : List PartitionInformation) :
    (∃ count' layout', addAll ⟨count, some layout⟩ ps = .ok ⟨count', some layout'⟩ ∧
      filled count' layout' = filled count layout ++ ps ∧
      (ps = [] ∨ HasRoom count layout.structureSize ps.length)) ∨
    addAll ⟨count, some layout⟩ ps = .error .danglingAccess ∧
      ¬HasRoom count layout.structureSize ps.length := by
  induction ps generalizing count layout with
  | nil => exact Or.inl ⟨count, layout, rfl, (List.append_nil _).symm, Or.inl rfl⟩
  | cons p ps ih =>
    have hsize := layout.structureSize.isLt
    unfold HasRoom at ih ⊢
    rw [List.length_cons, addAll, add]
    dsimp only
    by_cases hroom : 8 + 24 * (count.toNat + 1) ≤ layout.structureSize.toNat
    swap
    · rw [if_neg hroom]
      exact Or.inr ⟨rfl, by lia⟩
    have hcount : (count + 1).toNat = count.toNat + 1 := by
      rw [BitVec.toNat_add, show (1 : BitVec 32).toNat = 1 from rfl]
      lia
    rw [if_pos hroom]
    rcases ih (count + 1) { layout with
        partitions := Function.update layout.partitions count.toNat p } with
      ⟨count', layout', hrun, hfilled, hall⟩ | ⟨hrun, hall⟩
    · refine Or.inl ⟨count', layout', hrun, ?_, Or.inr ?_⟩
      · rw [hfilled, filled_update p hcount, List.append_assoc, List.singleton_append]
      · rcases hall with rfl | hall
        · simpa using hroom
        · dsimp only at hall
          lia
    · refine Or.inr ⟨hrun, ?_⟩
      dsimp only at hall
      lia

end PartitionTable

end Tables

section Runs

variable {disk : Disk} {heap : ℕ → Bool} {fuel depth : ℕ} {offset first : DWORD} {extended : Bool}
  {t t' : PartitionTable} {status : STATUS}

/-- A call that returns adds the partitions of some entries, and then may leave the rest to another one. -/
theorem retrievePartitionsAt_step
    (h : retrievePartitionsAt disk heap (fuel + 1) depth offset extended first t = .ok (status, t')) :
    ∃ (entries : List MbrPartitionEntry) (t₁ : PartitionTable),
      t.addAll (entries.map (·.information offset)) = .ok t₁ ∧
        (t₁ = t' ∨ ∃ offset' first', retrievePartitionsAt disk heap fuel (depth + 1) offset' true
          first' t₁ = .ok (status, t')) := by
  have hassert : extended ≠ decide (0 = first) := by
    intro hnot
    rw [retrievePartitionsAt, assertThat_of_not (not_not.mpr hnot)] at h
    cases h
  by_cases hheap : heap depth
  swap
  · rw [retrievePartitionsAt, assertThat_of hassert, if_pos hheap] at h
    exact ⟨[], t, rfl, Or.inl (Prod.mk.inj (Except.ok.inj h)).2⟩
  cases hread : disk offset.toNat with
  | error status =>
    rw [retrievePartitionsAt, assertThat_of hassert, if_neg (not_not.mpr hheap), hread] at h
    exact ⟨[], t, rfl, Or.inl (Prod.mk.inj (Except.ok.inj h)).2⟩
  | ok mbr =>
    by_cases hsigned : mbr.bootSignature = mbrBootSignature
    swap
    · rw [retrievePartitionsAt, assertThat_of hassert, if_neg (not_not.mpr hheap), hread] at h
      dsimp only at h
      rw [if_pos hsigned] at h
      exact ⟨[], t, rfl, Or.inl (Prod.mk.inj (Except.ok.inj h)).2⟩
    rw [retrievePartitionsAt_of_read hassert hheap hread hsigned] at h
    obtain ⟨t₁, hadd, hrest⟩ := bind_eq_ok.mp h
    refine ⟨_, t₁, hadd, ?_⟩
    cases hlink : linkIn extended (mbr.entries extended) with
    | none =>
      rw [hlink] at hrest
      exact Or.inl (Prod.mk.inj (Except.ok.inj hrest)).2
    | some e =>
      rw [hlink] at hrest
      exact Or.inr ⟨_, _, hrest⟩

theorem information_below (e : MbrPartitionEntry) (offset : DWORD) :
    (e.information offset).offsetInDisk.toNat < 2 ^ 32 := by
  have := (e.firstSectorLba + offset).isLt
  rw [MbrPartitionEntry.information, BitVec.toNat_setWidth]
  omega

/-- Whatever the disk is like, the partitions that a call adds are at 32-bit addresses. -/
theorem retrievePartitionsAt_added
    (h : retrievePartitionsAt disk heap fuel depth offset extended first t = .ok (status, t')) :
    ∃ ps, (∀ p ∈ ps, p.offsetInDisk.toNat < 2 ^ 32) ∧ t.addAll ps = .ok t' := by
  induction fuel generalizing depth offset extended first t with
  | zero => cases h
  | succ fuel ih =>
    obtain ⟨entries, t₁, hadd, hrest⟩ := retrievePartitionsAt_step h
    have hbelow : ∀ p ∈ entries.map (·.information offset), p.offsetInDisk.toNat < 2 ^ 32 := by
      intro p hp
      obtain ⟨e, -, rfl⟩ := List.mem_map.mp hp
      exact information_below e offset
    rcases hrest with rfl | ⟨offset', first', hrun⟩
    · exact ⟨_, hbelow, hadd⟩
    · obtain ⟨ps, hps, hall⟩ := ih hrun
      refine ⟨_ ++ ps, List.forall_mem_append.mpr ⟨hbelow, hps⟩, ?_⟩
      rw [PartitionTable.addAll_append, hadd]
      exact hall

/-- What the chain of EBRs adds to the table. -/
def listedFrom : List Ebr → List PartitionInformation
  | [] => []
  | b :: ebrs =>
    (listedIn true (b.mbr.entries true)).map (·.information (BitVec.ofNat 32 b.lba)) ++
      match linkIn true (b.mbr.entries true) with
      | none => []
      | some _ => listedFrom ebrs

/-- The partitions of a well formed disk that are listed. -/
def listedOn (before : List MbrPartitionEntry) (ebrs : List Ebr) : List PartitionInformation :=
  (before.filter (·.hasStatus)).map (·.information 0) ++ listedFrom ebrs

/-- A call adds some partitions and succeeds, if it does not come to its end too early. -/
def Adds (x : Except Fault (STATUS × PartitionTable)) (t : PartitionTable)
    (ps : List PartitionInformation) (enough : Prop) : Prop :=
  x = (t.addAll ps).bind (fun t' => .ok (statusSuccess, t')) ∨ ¬enough ∧ ∃ fault, x = .error fault

theorem isExtended_of_not_isUsed {e : MbrPartitionEntry} (h : e.isUsed = false) :
    e.isExtended = false := by
  have htype : e.partitionType = 0 := by simpa [MbrPartitionEntry.isUsed] using h
  simp [MbrPartitionEntry.isExtended, htype, mbrPartitionExtendedLba, mbrPartitionExtendedChs]

/-- The link of a sector of the chain. -/
theorem linkIn_ebr {b : Ebr} (h : b.logical.isExtended = false) :
    linkIn true (b.mbr.entries true) =
      if b.logical = .zero then none
      else if b.next.isExtended = true ∧ b.next.hasStatus = true then some b.next else none := by
  have hentries : b.mbr.entries true = [b.logical, b.next] := rfl
  rw [hentries]
  by_cases hzero : b.logical = .zero
  · simp [linkIn, hzero]
  · by_cases hnextZero : b.next = .zero
    · simp [linkIn, hzero, h, hnextZero, show MbrPartitionEntry.zero.isExtended = false from rfl]
    · cases hstatus : b.next.hasStatus <;> cases hextended : b.next.isExtended <;>
        simp [linkIn, hzero, h, hnextZero, hstatus, hextended]

/-- A chain at 32-bit addresses is followed, to its end or to an EBR that is all zero. -/
theorem chain_adds {base : ℕ} {ebrs : List Ebr} {start : ℕ} (hchain : EbrChain disk base start ebrs)
    (hheap : ∀ n, heap n = true) (hfirst : first ≠ 0) (hbase : base = first.toNat)
    (hbelow : ∀ b ∈ ebrs, b.lba < 2 ^ 32) :
    Adds (retrievePartitionsAt disk heap fuel depth (BitVec.ofNat 32 start) true first t) t
      (listedFrom ebrs) (ebrs.length ≤ fuel) := by
  induction hchain generalizing fuel depth t with
  | @last b h hnext =>
    cases fuel with
    | zero => exact Or.inr ⟨by simp, _, rfl⟩
    | succ fuel =>
      have hassert : true ≠ decide (0 = first) := by simpa using hfirst.symm
      have hread : disk (BitVec.ofNat 32 b.lba).toNat = .ok b.mbr := by
        rw [BitVec.toNat_ofNat, Nat.mod_eq_of_lt (hbelow b (List.mem_singleton_self b))]
        exact h.read
      have hlink : linkIn true (b.mbr.entries true) = none := by
        rw [linkIn_ebr h.notExtended, isExtended_of_not_isUsed hnext]
        simp
      refine Or.inl ?_
      rw [retrievePartitionsAt_of_read hassert (hheap depth) hread h.signed, listedFrom, hlink,
        List.append_nil]
  | @link b ebrs h hextended hstatus hrest ih =>
    cases fuel with
    | zero => exact Or.inr ⟨by simp, _, rfl⟩
    | succ fuel =>
      have hassert : true ≠ decide (0 = first) := by simpa using hfirst.symm
      have hread : disk (BitVec.ofNat 32 b.lba).toNat = .ok b.mbr := by
        rw [BitVec.toNat_ofNat, Nat.mod_eq_of_lt (hbelow b (List.mem_cons_self ..))]
        exact h.read
      have hlink : linkIn true (b.mbr.entries true) =
          if b.logical = .zero then none else some b.next := by
        rw [linkIn_ebr h.notExtended, hextended, hstatus]
        simp
      have hnext : b.next.firstSectorLba + first =
          BitVec.ofNat 32 (b.next.firstSectorLba.toNat + base) := by
        rw [hbase, BitVec.ofNat_add, BitVec.ofNat_toNat, BitVec.ofNat_toNat, BitVec.setWidth_eq,
          BitVec.setWidth_eq]
      rw [retrievePartitionsAt_of_read hassert (hheap depth) hread h.signed, listedFrom, hlink]
      unfold Adds
      rw [PartitionTable.addAll_append]
      by_cases hzero : b.logical = .zero
      · rw [if_pos hzero]
        refine Or.inl ?_
        cases t.addAll ((listedIn true (b.mbr.entries true)).map
          (·.information (BitVec.ofNat 32 b.lba))) <;> rfl
      · rw [if_neg hzero]
        cases t.addAll ((listedIn true (b.mbr.entries true)).map
            (·.information (BitVec.ofNat 32 b.lba))) with
        | error fault => exact Or.inl rfl
        | ok t₁ =>
          have hadds := @ih fuel (depth + 1) t₁ fun b' hb' => hbelow b' (List.mem_cons_of_mem _ hb')
          rw [← hnext] at hadds
          refine hadds.imp_right fun hearly => ⟨?_, hearly.2⟩
          rw [List.length_cons]
          have := hearly.1
          omega

theorem listedIn_of_not_isExtended {entries : List MbrPartitionEntry}
    (h : ∀ e ∈ entries, e.isExtended = false) :
    listedIn false entries = entries.filter (·.hasStatus) ∧ linkIn false entries = none := by
  induction entries with
  | nil => exact ⟨rfl, rfl⟩
  | cons e entries ih =>
    obtain ⟨hlisted, hlink⟩ := ih fun e' he' => h e' (List.mem_cons_of_mem _ he')
    have he := h e (List.mem_cons_self ..)
    cases hstatus : e.hasStatus <;> simp [listedIn, linkIn, hstatus, he, hlisted, hlink]

theorem listedIn_append_extended {entries rest : List MbrPartitionEntry} {e : MbrPartitionEntry}
    (h : ∀ e ∈ entries, e.isExtended = false) (he : e.isExtended = true) (hstatus : e.hasStatus = true) :
    listedIn false (entries ++ e :: rest) = entries.filter (·.hasStatus) ∧
      linkIn false (entries ++ e :: rest) = some e := by
  induction entries with
  | nil => simp [listedIn, linkIn, he, hstatus]
  | cons e' entries ih =>
    obtain ⟨hlisted, hlink⟩ := ih fun e he => h e (List.mem_cons_of_mem _ he)
    have he' := h e' (List.mem_cons_self ..)
    cases hstatus' : e'.hasStatus <;> simp [listedIn, linkIn, hstatus', he', hlisted, hlink]

/-- What a pass over a well formed disk adds. -/
theorem wellFormed_adds {before after : List MbrPartitionEntry} {ebrs : List Ebr}
    (h : WellFormed disk before after ebrs) (hheap : ∀ n, heap n = true)
    (hbelow : ∀ b ∈ ebrs, b.lba < 2 ^ 32) :
    Adds (retrievePartitionsAt disk heap fuel 0 0 false 0 t) t (listedOn before ebrs)
      (ebrs.length < fuel) := by
  cases fuel with
  | zero => exact Or.inr ⟨by simp, _, rfl⟩
  | succ fuel =>
    cases h with
    | @primary mbr hread hsigned hextended hstatus =>
      obtain ⟨hlisted, hlink⟩ := listedIn_of_not_isExtended hextended
      refine Or.inl ?_
      rw [retrievePartitionsAt_of_read not_inExtended (hheap 0) hread hsigned, hlisted, hlink, listedOn,
        listedFrom, List.append_nil]
    | @extended mbr _ _ e _ hread hsigned hentries hextended hactive hlba hothers hstatus hchain hused =>
      obtain ⟨hlisted, hlink⟩ := @listedIn_append_extended before after e
        (fun e he => hothers e (List.mem_append_left _ he)) hextended hactive
      rw [retrievePartitionsAt_of_read not_inExtended (hheap 0) hread hsigned, hentries, hlisted, hlink,
        listedOn]
      unfold Adds
      rw [PartitionTable.addAll_append]
      cases t.addAll ((before.filter (·.hasStatus)).map (·.information 0)) with
      | error fault => exact Or.inl rfl
      | ok t₁ =>
        have hoffset : e.firstSectorLba + 0 = BitVec.ofNat 32 e.firstSectorLba.toNat := by
          simp
        have hadds := @chain_adds disk heap fuel 1 e.firstSectorLba t₁ _ _ _ hchain hheap hlba rfl hbelow
        rw [← hoffset] at hadds
        refine hadds.imp_right fun hearly => ⟨?_, hearly.2⟩
        have := hearly.1
        omega

/-- The array has room for the partitions that were counted, unless its size wraps. -/
theorem hasRoom_counted (n : ℕ) :
    PartitionTable.HasRoom 0 (8 + (0 + BitVec.ofNat 32 n) * 24) n ↔ 8 + 24 * n < 2 ^ 32 := by
  have hsize : (8 + (0 + BitVec.ofNat 32 n) * 24 : DWORD) = BitVec.ofNat 32 (8 + 24 * n) := by
    rw [BitVec.ofNat_add, BitVec.ofNat_mul]
    simp [BitVec.mul_comm]
  unfold PartitionTable.HasRoom
  rw [hsize, BitVec.toNat_ofNat, show (0 : BitVec 32).toNat = 0 from rfl]
  lia

/-- The two passes over a well formed disk visit the same partitions. -/
theorem retrievePartitions_wellFormed {before after : List MbrPartitionEntry} {ebrs : List Ebr}
    (h : WellFormed disk before after ebrs) (hbelow : ∀ b ∈ ebrs, b.lba < 2 ^ 32) :
    retrievePartitions disk (fun _ => true) (fun _ => true) true fuel =
        .ok (statusSuccess, some (listedOn before ebrs)) ∧
      8 + 24 * (listedOn before ebrs).length < 2 ^ 32 ∨
    (∃ fault, retrievePartitions disk (fun _ => true) (fun _ => true) true fuel = .error fault) ∧
      ¬(ebrs.length < fuel ∧ 8 + 24 * (listedOn before ebrs).length < 2 ^ 32) := by
  have hadds : ∀ t, Adds (retrievePartitionsAt disk (fun _ => true) fuel 0 0 false 0 t) t
      (listedOn before ebrs) (ebrs.length < fuel) := fun t => wellFormed_adds h (fun _ => rfl) hbelow
  unfold retrievePartitions
  rcases hadds ⟨0, none⟩ with hcount | ⟨hearly, fault, hcount⟩
  swap
  · rw [hcount]
    exact Or.inr ⟨⟨fault, rfl⟩, fun hnot => hearly hnot.1⟩
  rw [hcount, PartitionTable.addAll_count]
  dsimp only [Except.bind, bind]
  rw [if_neg (by decide), if_neg (by decide)]
  have hroom := hasRoom_counted (listedOn before ebrs).length
  generalize (8 + (0 + BitVec.ofNat 32 (listedOn before ebrs).length) * 24 : DWORD) = size at hroom ⊢
  rcases hadds ⟨0, some ⟨size, fun _ => ⟨0, 0, 0, false⟩⟩⟩ with hfill | ⟨hearly, fault, hfill⟩
  swap
  · rw [hfill]
    exact Or.inr ⟨⟨fault, rfl⟩, fun hnot => hearly hnot.1⟩
  rw [hfill]
  rcases PartitionTable.addAll_fill 0 ⟨size, fun _ => ⟨0, 0, 0, false⟩⟩ (listedOn before ebrs) with
    ⟨count, layout, hadd, hfilled, hall⟩ | ⟨hadd, hall⟩
  · rw [hadd]
    refine Or.inl ⟨?_, ?_⟩
    · dsimp only [Except.bind]
      rw [if_neg (by decide)]
      exact congrArg (fun ps => Except.ok (statusSuccess, some ps)) hfilled
    · rcases hall with hempty | hall
      · simp [hempty]
      · exact hroom.mp hall
  · rw [hadd]
    exact Or.inr ⟨⟨_, rfl⟩, fun hnot => hall (hroom.mpr hnot.2)⟩

theorem reportsExactly_iff_perm {before after : List MbrPartitionEntry} {ebrs : List Ebr}
    {ps : List PartitionInformation} (h : WellFormed disk before after ebrs)
    (hbelow : ∀ b ∈ ebrs, b.lba < 2 ^ 32) :
    ReportsExactly disk ps ↔
      8 + 24 * (listedOn before ebrs).length < 2 ^ 32 ∧ (listedOn before ebrs).Perm ps := by
  constructor
  · rintro ⟨fuel, reported, hrun, hperm⟩
    rcases @retrievePartitions_wellFormed disk fuel _ _ _ h hbelow with
      ⟨hall, hfits⟩ | ⟨⟨fault, hfault⟩, -⟩
    · obtain ⟨-, hsome⟩ := Prod.mk.inj (Except.ok.inj (hall.symm.trans hrun))
      obtain rfl := Option.some.inj hsome
      exact ⟨hfits, hperm⟩
    · cases hfault.symm.trans hrun
  · rintro ⟨hfits, hperm⟩
    rcases @retrievePartitions_wellFormed disk (ebrs.length + 1) _ _ _ h hbelow with
      ⟨hall, -⟩ | ⟨-, hnot⟩
    · exact ⟨_, _, hall, hperm⟩
    · exact absurd ⟨Nat.lt_succ_self _, hfits⟩ hnot

/-- What is reported starts at a 32-bit address. -/
theorem below_of_reportsExactly {ps : List PartitionInformation} (h : ReportsExactly disk ps) :
    ∀ p ∈ ps, p.offsetInDisk.toNat < 2 ^ 32 := by
  obtain ⟨fuel, reported, hrun, hperm⟩ := h
  suffices hreported : ∀ p ∈ reported, p.offsetInDisk.toNat < 2 ^ 32 from
    fun p hp => hreported p (hperm.mem_iff.mpr hp)
  unfold retrievePartitions at hrun
  obtain ⟨⟨status, t⟩, -, hrest⟩ := bind_eq_ok.mp hrun
  dsimp only at hrest
  by_cases hcounted : succeeded status
  swap
  · rw [if_pos hcounted] at hrest
    cases hrest
  rw [if_neg (not_not.mpr hcounted), if_neg (by decide)] at hrest
  obtain ⟨⟨status', t'⟩, hfill, hrest⟩ := bind_eq_ok.mp hrest
  dsimp only at hrest
  by_cases hdone : succeeded status'
  swap
  · rw [if_pos hdone] at hrest
    cases hrest
  rw [if_neg (not_not.mpr hdone)] at hrest
  obtain ⟨-, hsome⟩ := Prod.mk.inj (Except.ok.inj hrest)
  obtain ⟨ps, hps, hadd⟩ := retrievePartitionsAt_added hfill
  rcases PartitionTable.addAll_fill 0 _ ps with ⟨count, layout, hadd', hfilled, -⟩ | ⟨hadd', -⟩
  · obtain rfl := Except.ok.inj (hadd'.symm.trans hadd)
    obtain rfl : PartitionTable.filled count layout = reported := Option.some.inj hsome
    rw [hfilled]
    exact hps
  · cases hadd'.symm.trans hadd

end Runs

section Lists

variable {disk : Disk} {before after : List MbrPartitionEntry} {ebrs : List Ebr}

namespace Ebr

/-- What is listed for an EBR. -/
def listed (b : Ebr) : List PartitionInformation :=
  (listedIn true (b.mbr.entries true)).map (·.information (BitVec.ofNat 32 b.lba))

/-- What there is in an EBR. -/
def held (b : Ebr) : List PartitionInformation :=
  if b.logical.isUsed then [b.logical.partitionAt b.lba] else []

/-- Neither entry is listed without being used. -/
structure Clean (b : Ebr) : Prop where
  logical : b.logical.isUsed = true ∨ b.logical.hasStatus = false
  next : b.next = .zero ∨ b.next.hasStatus = false ∨ b.next.isExtended = true

theorem listedIn_ebr {b : Ebr} (h : b.logical.isExtended = false) (hzero : b.logical ≠ .zero) :
    listedIn true (b.mbr.entries true) = (if b.logical.hasStatus then [b.logical] else []) ++
      if b.next = .zero ∨ b.next.hasStatus = false ∨ b.next.isExtended = true then []
      else [b.next] := by
  have hentries : b.mbr.entries true = [b.logical, b.next] := rfl
  rw [hentries]
  by_cases hnext : b.next = .zero
  · cases hlogical : b.logical.hasStatus <;> simp [listedIn, hzero, hlogical, h, hnext]
  · cases hlogical : b.logical.hasStatus <;> cases hstatus : b.next.hasStatus <;>
      cases hextended : b.next.isExtended <;>
      simp [listedIn, hzero, hlogical, h, hnext, hstatus, hextended]

theorem information_eq (e : MbrPartitionEntry) {lba : ℕ} (h : lba + e.firstSectorLba.toNat < 2 ^ 32) :
    e.information (BitVec.ofNat 32 lba) = e.partitionAt lba := by
  have hsum : (e.firstSectorLba + BitVec.ofNat 32 lba).setWidth 64 =
      BitVec.ofNat 64 (lba + e.firstSectorLba.toNat) := by
    apply BitVec.eq_of_toNat_eq
    rw [BitVec.toNat_setWidth, BitVec.toNat_add, BitVec.toNat_ofNat, BitVec.toNat_ofNat]
    lia
  unfold MbrPartitionEntry.information MbrPartitionEntry.partitionAt
  rw [hsum]

/-- A clean EBR is listed as it is. -/
theorem listed_eq_held {b : Ebr} (h : IsEbr disk b) (hzero : b.logical ≠ .zero) (hclean : b.Clean)
    (hbelow : b.logical.isUsed = true → b.lba + b.logical.firstSectorLba.toNat < 2 ^ 32) :
    b.listed = b.held := by
  unfold listed held
  rw [listedIn_ebr h.notExtended hzero, if_pos hclean.next, List.append_nil]
  by_cases hused : b.logical.isUsed = true
  · rw [if_pos hused, if_pos (h.status hused), List.map_singleton, information_eq _ (hbelow hused)]
  · have hstatus : ¬b.logical.hasStatus = true := by
      rcases hclean.logical with hlogical | hlogical
      · exact absurd hlogical hused
      · simp [hlogical]
    rw [if_neg hused, if_neg hstatus, List.map_nil]

/-- An EBR for which only used entries are listed is clean. -/
theorem clean_of_listed {b : Ebr} (h : IsEbr disk b) (hzero : b.logical ≠ .zero)
    (hnext : b.next.isExtended = true ∨ b.next.isUsed = false)
    (hlisted : ∀ p ∈ b.listed, p.partitionType ≠ 0) : b.Clean := by
  unfold listed at hlisted
  rw [listedIn_ebr h.notExtended hzero] at hlisted
  constructor
  · by_contra hnot
    obtain ⟨hused, hstatus⟩ := not_or.mp hnot
    have htype : b.logical.partitionType = 0 := by simpa [MbrPartitionEntry.isUsed] using hused
    have hstatus' : b.logical.hasStatus = true := by simpa using hstatus
    rw [if_pos hstatus'] at hlisted
    exact hlisted (b.logical.information (BitVec.ofNat 32 b.lba)) (by simp) htype
  · by_contra hnot
    rw [if_neg hnot] at hlisted
    have hunused : b.next.isUsed = false := by
      rcases hnext with hextended | hunused
      · exact absurd (Or.inr (Or.inr hextended)) hnot
      · exact hunused
    have htype : b.next.partitionType = 0 := by simpa [MbrPartitionEntry.isUsed] using hunused
    exact hlisted (b.next.information (BitVec.ofNat 32 b.lba)) (by simp) htype

end Ebr

theorem logicalPartitions_eq (ebrs : List Ebr) : logicalPartitions ebrs = ebrs.flatMap Ebr.held := by
  induction ebrs with
  | nil => rfl
  | cons b ebrs ih =>
    unfold logicalPartitions at ih ⊢
    cases hused : b.logical.isUsed <;> simp [hused, Ebr.held, ih]

namespace EbrChain

variable {base start : ℕ}

theorem isEbr (h : EbrChain disk base start ebrs) : ∀ b ∈ ebrs, IsEbr disk b := by
  induction h with
  | last h _ => simpa using h
  | link h _ _ _ ih => exact List.forall_mem_cons.mpr ⟨h, ih⟩

theorem head (h : EbrChain disk base start ebrs) : ∃ b rest, ebrs = b :: rest ∧ b.lba = start := by
  cases h with
  | last _ _ => exact ⟨_, _, rfl, rfl⟩
  | link _ _ _ _ => exact ⟨_, _, rfl, rfl⟩

/-- Only the last EBR is without a link. -/
theorem next (h : EbrChain disk base start ebrs) :
    ∀ b ∈ ebrs, b.next.isExtended = true ∨ b.next.isUsed = false ∧ b ∈ ebrs.getLast? := by
  induction h with
  | @last b _ hnext =>
    intro b' hb'
    obtain rfl := List.mem_singleton.mp hb'
    exact Or.inr ⟨hnext, rfl⟩
  | @link b ebrs _ hextended _ hrest ih =>
    obtain ⟨b₁, rest, rfl, -⟩ := hrest.head
    refine List.forall_mem_cons.mpr ⟨Or.inl hextended, fun b' hb' => ?_⟩
    rw [List.getLast?_cons_cons]
    exact ih b' hb'

theorem last_unused (h : EbrChain disk base start ebrs) :
    ∀ b ∈ ebrs.getLast?, b.next.isExtended = false := by
  induction h with
  | @last b _ hnext =>
    intro b' hb'
    obtain rfl := Option.some.inj hb'
    exact isExtended_of_not_isUsed hnext
  | @link b ebrs _ _ _ hrest ih =>
    obtain ⟨b₁, rest, rfl, -⟩ := hrest.head
    rw [List.getLast?_cons_cons]
    exact ih

theorem lba_lt (h : EbrChain disk base start ebrs) (hbase : base < 2 ^ 32) (hstart : start < 2 ^ 33) :
    ∀ b ∈ ebrs, b.lba < 2 ^ 33 := by
  induction h with
  | last _ _ => simpa using hstart
  | @link b ebrs _ _ _ _ ih =>
    have := b.next.firstSectorLba.isLt
    exact List.forall_mem_cons.mpr ⟨hstart, ih (by omega)⟩

/-- Without an EBR that is all zero, the chain is followed to its end. -/
theorem listedFrom_eq (h : EbrChain disk base start ebrs) (hzero : ∀ b ∈ ebrs, b.logical ≠ .zero) :
    listedFrom ebrs = ebrs.flatMap Ebr.listed := by
  induction h with
  | @last b h hnext =>
    have hlink : linkIn true (b.mbr.entries true) = none := by
      rw [linkIn_ebr h.notExtended, isExtended_of_not_isUsed hnext]
      simp
    rw [listedFrom, hlink, List.flatMap_cons, List.flatMap_nil]
    rfl
  | @link b ebrs h hextended hstatus hrest ih =>
    have hlink : linkIn true (b.mbr.entries true) = some b.next := by
      rw [linkIn_ebr h.notExtended, if_neg (hzero b (List.mem_cons_self ..)), hextended, hstatus]
      simp
    rw [listedFrom, hlink, List.flatMap_cons, ← ih fun b' hb' => hzero b' (List.mem_cons_of_mem _ hb')]
    rfl

theorem listedFrom_zero (h : EbrChain disk base start ebrs) (hzero : ∀ b ∈ ebrs.head?, b.logical = .zero) :
    listedFrom ebrs = [] := by
  obtain ⟨b, rest, rfl, -⟩ := h.head
  have hb : b.logical = .zero := hzero b rfl
  have hlink : linkIn true (b.mbr.entries true) = none := by
    rw [linkIn_ebr (h.isEbr b (List.mem_cons_self ..)).notExtended, if_pos hb]
  have hlisted : listedIn true (b.mbr.entries true) = [] := by
    have hentries : b.mbr.entries true = [b.logical, b.next] := rfl
    simp [hentries, listedIn, hb]
  rw [listedFrom, hlink, hlisted]
  rfl

end EbrChain

namespace WellFormed

theorem hasStatus (h : WellFormed disk before after ebrs) :
    ∀ e ∈ before ++ after, e.isUsed = true → e.hasStatus = true := by
  cases h with
  | primary _ _ _ hstatus => simpa using hstatus
  | extended _ _ _ _ _ _ _ hstatus _ _ => exact hstatus

theorem chain (h : WellFormed disk before after ebrs) :
    ebrs = [] ∨ ∃ base : DWORD, EbrChain disk base.toNat base.toNat ebrs := by
  cases h with
  | primary _ _ _ _ => exact Or.inl rfl
  | extended _ _ _ _ _ _ _ _ hchain _ => exact Or.inr ⟨_, hchain⟩

theorem tail_used (h : WellFormed disk before after ebrs) :
    ∀ b ∈ ebrs.tail, b.logical.isUsed = true := by
  cases h with
  | primary _ _ _ _ => simp
  | extended _ _ _ _ _ _ _ _ _ hused => exact hused

/-- The EBRs are at 32-bit addresses if the logical partitions are. -/
theorem lba_below (h : WellFormed disk before after ebrs)
    (hbelow : ∀ b ∈ ebrs, b.logical.isUsed = true → b.lba + b.logical.firstSectorLba.toNat < 2 ^ 32) :
    ∀ b ∈ ebrs, b.lba < 2 ^ 32 := by
  rcases h.chain with rfl | ⟨base, hchain⟩
  · simp
  obtain ⟨b, rest, rfl, hlba⟩ := hchain.head
  refine List.forall_mem_cons.mpr ⟨hlba ▸ base.isLt, fun b' hb' => ?_⟩
  have := hbelow b' (List.mem_cons_of_mem _ hb') (h.tail_used b' hb')
  omega

end WellFormed

theorem partitionType_ne_zero {p : PartitionInformation}
    (h : p ∈ partitionsOf before after ebrs) : p.partitionType ≠ 0 := by
  unfold partitionsOf logicalPartitions at h
  rcases List.mem_append.mp h with h | h
  · obtain ⟨e, he, rfl⟩ := List.mem_map.mp h
    simpa [MbrPartitionEntry.isUsed, MbrPartitionEntry.partitionAt] using (List.mem_filter.mp he).2
  · obtain ⟨b, hb, rfl⟩ := List.mem_map.mp h
    simpa [MbrPartitionEntry.isUsed, MbrPartitionEntry.partitionAt] using (List.mem_filter.mp hb).2

theorem primary_listed (hused : ∀ e ∈ before, e.isUsed = true ∨ e.hasStatus = false)
    (hstatus : ∀ e ∈ before, e.isUsed = true → e.hasStatus = true) :
    (before.filter (·.hasStatus)).map (·.information 0) =
      (before.filter (·.isUsed)).map (·.partitionAt 0) := by
  have hfilter : before.filter (·.hasStatus) = before.filter (·.isUsed) := by
    refine List.filter_congr fun e he => ?_
    rcases hused e he with h | h
    · rw [h, hstatus e he h]
    · cases hu : e.isUsed with
      | false => exact h
      | true => exact hstatus e he hu
  rw [hfilter]
  refine List.map_congr_left fun e _ => @Ebr.information_eq e 0 ?_
  rw [Nat.zero_add]
  exact e.firstSectorLba.isLt

theorem partitionsOf_eq : partitionsOf before after ebrs =
    (before.filter (·.isUsed)).map (·.partitionAt 0) ++
      ((after.filter (·.isUsed)).map (·.partitionAt 0) ++ ebrs.flatMap Ebr.held) := by
  rw [partitionsOf, logicalPartitions_eq, List.filter_append, List.map_append, List.append_assoc]

/-- The conditions of `Listable` on the entries, for a chain without an EBR that is all zero. -/
theorem clean_iff {base start : ℕ} (hchain : EbrChain disk base start ebrs)
    (hused : ∀ b ∈ ebrs.tail, b.logical.isUsed = true) (hzero : ∀ b ∈ ebrs, b.logical ≠ .zero) :
    (∀ b ∈ ebrs, b.Clean) ↔
      (∀ b ∈ ebrs.head?, b.logical.isUsed = true ∨ b.logical.hasStatus = false ∨
        b.logical = .zero ∧ ebrs.length = 1) ∧
      ∀ b ∈ ebrs.getLast?, b.logical = .zero ∨ b.next = .zero ∨ b.next.hasStatus = false := by
  constructor
  · intro hclean
    refine ⟨fun b hb => ?_, fun b hb => ?_⟩
    · rcases (hclean b (List.mem_of_mem_head? hb)).logical with h | h
      · exact Or.inl h
      · exact Or.inr (Or.inl h)
    · rcases (hclean b (List.mem_of_mem_getLast? hb)).next with h | h | h
      · exact Or.inr (Or.inl h)
      · exact Or.inr (Or.inr h)
      · rw [hchain.last_unused b hb] at h
        cases h
  · rintro ⟨hhead, hlast⟩ b hb
    constructor
    · obtain ⟨b₁, rest, rfl, -⟩ := hchain.head
      rcases List.mem_cons.mp hb with rfl | hb
      · rcases hhead b rfl with h | h | ⟨h, -⟩
        · exact Or.inl h
        · exact Or.inr h
        · exact absurd h (hzero b (List.mem_cons_self ..))
      · exact Or.inl (hused b hb)
    · rcases hchain.next b hb with h | ⟨-, h⟩
      · exact Or.inr (Or.inr h)
      · rcases hlast b h with h | h | h
        · exact absurd h (hzero b hb)
        · exact Or.inl h
        · exact Or.inr (Or.inl h)

theorem listed_eq_held {base start : ℕ} (hchain : EbrChain disk base start ebrs)
    (hzero : ∀ b ∈ ebrs, b.logical ≠ .zero) (hclean : ∀ b ∈ ebrs, b.Clean)
    (hbelow : ∀ b ∈ ebrs, b.logical.isUsed = true →
      b.lba + b.logical.firstSectorLba.toNat < 2 ^ 32) :
    listedFrom ebrs = ebrs.flatMap Ebr.held := by
  rw [hchain.listedFrom_eq hzero]
  refine List.flatMap_congr fun b hb => ?_
  exact Ebr.listed_eq_held (hchain.isEbr b hb) (hzero b hb) (hclean b hb) (hbelow b hb)

theorem ne_zero_of_isUsed {e : MbrPartitionEntry} (h : e.isUsed = true) : e ≠ .zero := by
  rintro rfl
  cases h

/-- An EBR that is all zero is the first one. -/
theorem zero_head {base start : ℕ} (hchain : EbrChain disk base start ebrs)
    (hused : ∀ b ∈ ebrs.tail, b.logical.isUsed = true) :
    (∀ b ∈ ebrs, b.logical ≠ .zero) ∨ ∀ b ∈ ebrs.head?, b.logical = .zero := by
  obtain ⟨b, rest, rfl, -⟩ := hchain.head
  by_cases hzero : b.logical = .zero
  · refine Or.inr fun b' hb' => ?_
    obtain rfl := Option.some.inj hb'
    exact hzero
  · exact Or.inl (List.forall_mem_cons.mpr ⟨hzero, fun b' hb' => ne_zero_of_isUsed (hused b' hb')⟩)

theorem length_held_tail {b : Ebr} {rest : List Ebr} (hb : b.logical = .zero)
    (hused : ∀ b ∈ rest, b.logical.isUsed = true) :
    ((b :: rest).flatMap Ebr.held).length = rest.length := by
  have hheld : b.held = [] := by
    unfold Ebr.held
    rw [hb]
    rfl
  rw [List.flatMap_cons, hheld, List.nil_append]
  induction rest with
  | nil => rfl
  | cons b' rest ih =>
    obtain ⟨hb', hrest⟩ := List.forall_mem_cons.mp hused
    rw [List.flatMap_cons, List.length_append, ih hrest, Ebr.held, if_pos hb', List.length_singleton,
      List.length_cons, Nat.add_comm]

theorem listedOn_eq (h : WellFormed disk before after ebrs) (hlistable : Listable before after ebrs) :
    listedOn before ebrs = partitionsOf before after ebrs := by
  have hafter : after.filter (·.isUsed) = [] := by
    refine List.filter_eq_nil_iff.mpr fun e he => ?_
    simp [hlistable.behind e he]
  rw [listedOn, partitionsOf_eq, hafter, List.map_nil, List.nil_append, primary_listed hlistable.primary
    fun e he => h.hasStatus e (List.mem_append_left _ he)]
  congr 1
  rcases h.chain with rfl | ⟨base, hchain⟩
  · rfl
  rcases zero_head hchain h.tail_used with hzero | hzero
  · have hclean := (clean_iff hchain h.tail_used hzero).mpr ⟨hlistable.head, hlistable.last⟩
    exact listed_eq_held hchain hzero hclean hlistable.below
  · rw [hchain.listedFrom_zero hzero]
    obtain ⟨b, rest, rfl, -⟩ := hchain.head
    have hb : b.logical = .zero := hzero b rfl
    refine (List.length_eq_zero_iff.mp ?_).symm
    rw [@length_held_tail b rest hb h.tail_used]
    rcases hlistable.head b rfl with h | h | ⟨-, hlength⟩
    · rw [hb] at h
      cases h
    · rw [hb] at h
      cases h
    · simpa using hlength

theorem listable_of_perm (h : WellFormed disk before after ebrs)
    (hbelow : ∀ b ∈ ebrs, b.logical.isUsed = true → b.lba + b.logical.firstSectorLba.toNat < 2 ^ 32)
    (hfits : 8 + 24 * (listedOn before ebrs).length < 2 ^ 32)
    (hperm : (listedOn before ebrs).Perm (partitionsOf before after ebrs)) :
    Listable before after ebrs := by
  have htypes : ∀ p ∈ listedOn before ebrs, p.partitionType ≠ 0 := fun p hp =>
    partitionType_ne_zero (hperm.mem_iff.mp hp)
  obtain ⟨htypesBefore, htypesFrom⟩ := List.forall_mem_append.mp htypes
  have hprimary : ∀ e ∈ before, e.isUsed = true ∨ e.hasStatus = false := by
    intro e he
    cases hstatus : e.hasStatus with
    | false => exact Or.inr rfl
    | true =>
      have htype := htypesBefore _ (List.mem_map_of_mem (List.mem_filter.mpr ⟨he, hstatus⟩))
      exact Or.inl (by simpa [MbrPartitionEntry.isUsed, MbrPartitionEntry.information] using htype)
  have hlength := hperm.length_eq
  rw [hlength] at hfits
  rw [listedOn, partitionsOf_eq, primary_listed hprimary
    fun e he => h.hasStatus e (List.mem_append_left _ he), List.length_append, List.length_append,
    List.length_append] at hlength
  -- Once what is listed for the chain is known, the lengths decide.
  suffices hchain : (ebrs.flatMap Ebr.held).length ≤ (listedFrom ebrs).length →
      (∀ b ∈ ebrs.head?, b.logical.isUsed = true ∨ b.logical.hasStatus = false ∨
        b.logical = .zero ∧ ebrs.length = 1) ∧
      (∀ b ∈ ebrs.getLast?, b.logical = .zero ∨ b.next = .zero ∨ b.next.hasStatus = false) ∧
      (listedFrom ebrs).length ≤ (ebrs.flatMap Ebr.held).length by
    obtain ⟨hhead, hlast, hle⟩ := hchain (by omega)
    refine ⟨hprimary, fun e he => ?_, hhead, hlast, hbelow, hfits⟩
    have hnone : (after.filter (·.isUsed)).map (·.partitionAt 0) = [] :=
      List.length_eq_zero_iff.mp (by omega)
    simpa using List.filter_eq_nil_iff.mp (List.map_eq_nil_iff.mp hnone) e he
  intro hle
  rcases h.chain with rfl | ⟨base, hchain⟩
  · simp [listedFrom]
  rcases zero_head hchain h.tail_used with hzero | hzero
  · have hclean : ∀ b ∈ ebrs, b.Clean := by
      intro b hb
      refine Ebr.clean_of_listed (hchain.isEbr b hb) (hzero b hb) ?_ fun p hp => ?_
      · exact (hchain.next b hb).imp_right fun h => h.1
      · rw [hchain.listedFrom_eq hzero] at htypesFrom
        exact htypesFrom p (List.mem_flatMap.mpr ⟨b, hb, hp⟩)
    obtain ⟨hhead, hlast⟩ := (clean_iff hchain h.tail_used hzero).mp hclean
    exact ⟨hhead, hlast, (congrArg List.length (listed_eq_held hchain hzero hclean hbelow)).le⟩
  · obtain ⟨b, rest, rfl, -⟩ := hchain.head
    have hb : b.logical = .zero := hzero b rfl
    rw [hchain.listedFrom_zero hzero, @length_held_tail b rest hb h.tail_used] at hle
    obtain rfl : rest = [] := List.length_eq_zero_iff.mp (Nat.le_zero.mp hle)
    refine ⟨fun b' hb' => ?_, fun b' hb' => ?_, ?_⟩
    · obtain rfl := Option.some.inj hb'
      exact Or.inr (Or.inr ⟨hb, rfl⟩)
    · obtain rfl := Option.some.inj hb'
      exact Or.inl hb
    · rw [hchain.listedFrom_zero hzero]
      exact Nat.zero_le _

theorem below_of_exact (h : WellFormed disk before after ebrs)
    (hexact : ReportsExactly disk (partitionsOf before after ebrs)) :
    ∀ b ∈ ebrs, b.logical.isUsed = true → b.lba + b.logical.firstSectorLba.toNat < 2 ^ 32 := by
  intro b hb hused
  have hmem : b.logical.partitionAt b.lba ∈ partitionsOf before after ebrs :=
    List.mem_append_right _ (List.mem_map.mpr ⟨b, List.mem_filter.mpr ⟨hb, hused⟩, rfl⟩)
  have hbelow := below_of_reportsExactly hexact _ hmem
  have hlba : b.lba < 2 ^ 33 := by
    rcases h.chain with rfl | ⟨base, hchain⟩
    · cases hb
    · exact hchain.lba_lt base.isLt (by have := base.isLt; omega) b hb
  have hfirst := b.logical.firstSectorLba.isLt
  rw [MbrPartitionEntry.partitionAt, BitVec.toNat_ofNat] at hbelow
  lia

theorem listable_of_reportsExactly (h : WellFormed disk before after ebrs)
    (hexact : ReportsExactly disk (partitionsOf before after ebrs)) : Listable before after ebrs := by
  have hbelow := below_of_exact h hexact
  obtain ⟨hfits, hperm⟩ := (reportsExactly_iff_perm h (h.lba_below hbelow)).mp hexact
  exact listable_of_perm h hbelow hfits hperm

end Lists

/-- The partitions of a well formed disk are reported exactly, if and only if no unused entry is taken
for a partition and none is behind the place where the parser stops. -/
theorem reportsExactly_iff {disk : Disk} {before after : List MbrPartitionEntry} {ebrs : List Ebr}
    (h : WellFormed disk before after ebrs) :
    ReportsExactly disk (partitionsOf before after ebrs) ↔ Listable before after ebrs := by
  refine ⟨listable_of_reportsExactly h, fun hlistable => ?_⟩
  have heq := listedOn_eq h hlistable
  refine (reportsExactly_iff_perm h (h.lba_below hlistable.below)).mpr ⟨?_, ?_⟩
  · rw [heq]
    exact hlistable.fits
  · rw [heq]

/-- A sector with the entries of partitions, and no other ones. -/
def mbrOf (entries : Fin 4 → MbrPartitionEntry) : Mbr := ⟨entries, mbrBootSignature⟩

def fatPartition (firstSectorLba : DWORD) : MbrPartitionEntry :=
  ⟨mbrStatusInactive, 0, 0xC, 0, firstSectorLba, 1000⟩

/-- One partition; the other entries are unused. -/
def onePartition : Disk := fun _ => .ok (mbrOf fun i => if i = 0 then fatPartition 63 else .zero)

theorem onePartition_wellFormed : WellFormed onePartition
    [fatPartition 63, .zero, .zero, .zero] [] [] := by
  refine @WellFormed.primary onePartition (mbrOf fun i => if i = 0 then fatPartition 63 else .zero)
    rfl rfl ?_ ?_ <;> decide

/-- The unused entries are reported as partitions, too. -/
theorem onePartition_not_exact :
    ¬∀ disk before after ebrs, WellFormed disk before after ebrs →
      ReportsExactly disk (partitionsOf before after ebrs) := by
  intro hall
  have hlistable := listable_of_reportsExactly onePartition_wellFormed
    (hall _ _ _ _ onePartition_wellFormed)
  rcases hlistable.primary .zero (by decide) with h | h <;> cases h

/-- Three partitions and an extended one. -/
def fiveMbr : Mbr := mbrOf fun i => if i = 3 then ⟨0, 0, mbrPartitionExtendedLba, 0, 9000, 5000⟩
  else fatPartition (BitVec.ofNat 32 (i * 1000 + 63))

/-- A logical partition, and the link to the next EBR, if there is one. -/
def ebrSector (next : MbrPartitionEntry) : Mbr := mbrOf fun i =>
  if i = 0 then fatPartition 63 else if i = 1 then next else .zero

def fiveLink : MbrPartitionEntry := ⟨0, 0, mbrPartitionExtendedChs, 0, 2000, 2000⟩

def fiveEbrs : List Ebr := [⟨9000, ebrSector fiveLink⟩, ⟨11000, ebrSector .zero⟩]

/-- Three partitions, and two in the extended one. -/
def fivePartitions : Disk
  | 0 => .ok fiveMbr
  | 9000 => .ok (ebrSector fiveLink)
  | _ => .ok (ebrSector .zero)

theorem fivePartitions_wellFormed : WellFormed fivePartitions
    [fatPartition 63, fatPartition 1063, fatPartition 2063] [] fiveEbrs := by
  refine @WellFormed.extended fivePartitions fiveMbr _ _ (fiveMbr.partitions 3) _ rfl rfl (by decide)
    (by decide) (by decide) (by decide) (by decide) (by decide) ?_ (by decide)
  refine @EbrChain.link fivePartitions 9000 ⟨9000, ebrSector fiveLink⟩ _ ⟨rfl, rfl, ?_, ?_⟩ ?_ ?_
    (@EbrChain.last fivePartitions 9000 ⟨11000, ebrSector .zero⟩ ⟨rfl, rfl, ?_, ?_⟩ ?_) <;> decide

theorem fivePartitions_exact : ReportsExactly fivePartitions
    (partitionsOf [fatPartition 63, fatPartition 1063, fatPartition 2063] [] fiveEbrs) := by
  refine (reportsExactly_iff fivePartitions_wellFormed).mpr ⟨?_, ?_, ?_, ?_, ?_, ?_⟩ <;> decide

end HAL9000.Io
