import HAL9000.Io.Irp
import HAL9000.Lib.Walk
import Mathlib.Data.Finite.Prod

/-! The partitions of a disk (`disk.c`). The recursion follows the entries for extended partitions from
the MBR in sector 0. -/
namespace HAL9000.Io

open Walk

def statusDiskMbrNotPresent : STATUS := 0xE0040001

structure MbrPartitionEntry where
  status : BYTE
  firstSectorChs : BitVec 24
  partitionType : BYTE
  lastSectorChs : BitVec 24
  firstSectorLba : DWORD
  numberOfSectors : DWORD
  deriving DecidableEq, Repr

def mbrStatusActive : BYTE := 0x80
def mbrStatusInactive : BYTE := 0x00
def mbrPartitionExtendedChs : BYTE := 0x5
def mbrPartitionExtendedLba : BYTE := 0xF

namespace MbrPartitionEntry

/-- All bytes are 0. -/
def zero : MbrPartitionEntry := ⟨0, 0, 0, 0, 0, 0⟩

def hasStatus (e : MbrPartitionEntry) : Bool :=
  e.status = mbrStatusActive ∨ e.status = mbrStatusInactive

def isExtended (e : MbrPartitionEntry) : Bool :=
  e.partitionType = mbrPartitionExtendedLba ∨ e.partitionType = mbrPartitionExtendedChs

end MbrPartitionEntry

/-- The length of a partition table. -/
@[instance] theorem neZero_four : NeZero (4 : ℕ) := ⟨by decide⟩

/-- The fields of a sector that the parser reads. -/
structure Mbr where
  partitions : Fin 4 → MbrPartitionEntry
  bootSignature : WORD

def mbrBootSignature : WORD := 0xAA55

/-- What is read from a sector, or the status of the read. -/
abbrev Disk := ℕ → Except STATUS Mbr

/-- `DISK_LAYOUT_INFORMATION` with the size that was allocated for it. -/
structure DiskLayout where
  structureSize : DWORD
  partitions : ℕ → PartitionInformation

/-- The arguments `PartitionCount` and `DiskLayoutInformation`. -/
structure PartitionTable where
  partitionCount : DWORD
  layout : Option DiskLayout

namespace PartitionTable

/-- The partition is written without a check that there is room for it. -/
def add (t : PartitionTable) (p : PartitionInformation) : Except Fault PartitionTable :=
  match t.layout with
  | none => .ok { t with partitionCount := t.partitionCount + 1 }
  | some layout =>
    if 8 + 24 * (t.partitionCount.toNat + 1) ≤ layout.structureSize.toNat then
      .ok ⟨t.partitionCount + 1, some { layout with
        partitions := Function.update layout.partitions t.partitionCount.toNat p }⟩
    else .error .danglingAccess

end PartitionTable

/-- The partition of an entry; the sum is a `DWORD`. -/
def MbrPartitionEntry.information (e : MbrPartitionEntry) (diskOffset : DWORD) :
    PartitionInformation where
  offsetInDisk := (e.firstSectorLba + diskOffset).setWidth 64
  partitionSize := e.numberOfSectors.setWidth 64
  partitionType := e.partitionType
  bootable := e.status = mbrStatusActive

/-- The loop over the entries of a sector; nothing is looked at after an extended one. -/
def scanEntries (recurse : DWORD → DWORD → PartitionTable → Except Fault (STATUS × PartitionTable))
    (diskOffset : DWORD) (extendedPartition : Bool) (firstExtendedPartitionLba : DWORD) :
    List MbrPartitionEntry → PartitionTable → Except Fault (STATUS × PartitionTable)
  | [], t => .ok (statusSuccess, t)
  | e :: entries, t =>
    if extendedPartition ∧ e = .zero then .ok (statusSuccess, t)
    else if ¬e.hasStatus then
      scanEntries recurse diskOffset extendedPartition firstExtendedPartitionLba entries t
    else if e.isExtended then
      recurse (e.firstSectorLba + firstExtendedPartitionLba)
        (if extendedPartition then firstExtendedPartitionLba else e.firstSectorLba) t
    else do
      let t ← t.add (e.information diskOffset)
      scanEntries recurse diskOffset extendedPartition firstExtendedPartitionLba entries t

/-- An extended partition has two entries. -/
def Mbr.entries (mbr : Mbr) (extendedPartition : Bool) : List MbrPartitionEntry :=
  if extendedPartition then [mbr.partitions 0, mbr.partitions 1]
  else [mbr.partitions 0, mbr.partitions 1, mbr.partitions 2, mbr.partitions 3]

/-- `_DiskRetrievePartitionsFromDiskStartingAtOffset`; `heap` says which of the calls get memory for a
sector. -/
def retrievePartitionsAt (disk : Disk) (heap : ℕ → Bool) :
    ℕ → ℕ → DWORD → Bool → DWORD → PartitionTable → Except Fault (STATUS × PartitionTable)
  | 0, _, _, _, _, _ => .error .outOfFuel
  | fuel + 1, depth, diskOffset, extendedPartition, firstExtendedPartitionLba, t => do
    assertThat (extendedPartition ≠ decide (0 = firstExtendedPartitionLba))
    if ¬heap depth then return (statusHeapInsufficientResources, t)
    else
      match disk diskOffset.toNat with
      | .error status => return (status, t)
      | .ok mbr =>
        if mbr.bootSignature ≠ mbrBootSignature then return (statusDiskMbrNotPresent, t)
        else
          scanEntries (fun offset first t =>
              retrievePartitionsAt disk heap fuel (depth + 1) offset true first t)
            diskOffset extendedPartition firstExtendedPartitionLba (mbr.entries extendedPartition) t

section Entries

/-- The entries that the loop lists. -/
def listedIn (extendedPartition : Bool) : List MbrPartitionEntry → List MbrPartitionEntry
  | [] => []
  | e :: entries =>
    if extendedPartition ∧ e = .zero then []
    else if ¬e.hasStatus then listedIn extendedPartition entries
    else if e.isExtended then []
    else e :: listedIn extendedPartition entries

/-- The entry for an extended partition that the loop gets to. -/
def linkIn (extendedPartition : Bool) : List MbrPartitionEntry → Option MbrPartitionEntry
  | [] => none
  | e :: entries =>
    if extendedPartition ∧ e = .zero then none
    else if ¬e.hasStatus then linkIn extendedPartition entries
    else if e.isExtended then some e
    else linkIn extendedPartition entries

namespace PartitionTable

def addAll (t : PartitionTable) : List PartitionInformation → Except Fault PartitionTable
  | [] => .ok t
  | p :: partitions => do
    let t ← t.add p
    t.addAll partitions

theorem add_cases (t : PartitionTable) (p : PartitionInformation) :
    (∃ t', t.add p = .ok t' ∧ (t'.layout = none ↔ t.layout = none)) ∨
      t.add p = .error .danglingAccess ∧ t.layout ≠ none := by
  unfold add
  cases ht : t.layout with
  | none => exact Or.inl ⟨_, rfl, by simp⟩
  | some layout =>
    dsimp only
    split_ifs with hroom
    · exact Or.inl ⟨_, rfl, by simp⟩
    · exact Or.inr ⟨rfl, by simp⟩

/-- Partitions are added, or there is no room for one of them. -/
theorem addAll_cases (t : PartitionTable) (partitions : List PartitionInformation) :
    (∃ t', t.addAll partitions = .ok t' ∧ (t'.layout = none ↔ t.layout = none)) ∨
      t.addAll partitions = .error .danglingAccess ∧ t.layout ≠ none := by
  induction partitions generalizing t with
  | nil => exact Or.inl ⟨t, rfl, Iff.rfl⟩
  | cons p partitions ih =>
    unfold addAll
    rcases t.add_cases p with ⟨t₁, hadd, hlayout⟩ | ⟨hadd, hlayout⟩
    · rw [hadd]
      rcases ih t₁ with ⟨t', hrest, hlayout'⟩ | ⟨hrest, hlayout'⟩
      · exact Or.inl ⟨t', hrest, hlayout'.trans hlayout⟩
      · exact Or.inr ⟨hrest, fun h => hlayout' (hlayout.mpr h)⟩
    · rw [hadd]
      exact Or.inr ⟨rfl, hlayout⟩

end PartitionTable

/-- The loop lists partitions, and then follows the link to an extended partition. -/
theorem scanEntries_eq
    (recurse : DWORD → DWORD → PartitionTable → Except Fault (STATUS × PartitionTable))
    (diskOffset : DWORD) (extendedPartition : Bool) (first : DWORD)
    (entries : List MbrPartitionEntry) (t : PartitionTable) :
    scanEntries recurse diskOffset extendedPartition first entries t =
      (t.addAll ((listedIn extendedPartition entries).map (·.information diskOffset))).bind fun t' =>
        match linkIn extendedPartition entries with
        | none => .ok (statusSuccess, t')
        | some e => recurse (e.firstSectorLba + first)
            (if extendedPartition then first else e.firstSectorLba) t' := by
  induction entries generalizing t with
  | nil => rfl
  | cons e entries ih =>
    unfold scanEntries listedIn linkIn
    by_cases hzero : extendedPartition ∧ e = .zero
    · rw [if_pos hzero, if_pos hzero, if_pos hzero]
      rfl
    rw [if_neg hzero, if_neg hzero, if_neg hzero]
    by_cases hstatus : e.hasStatus
    swap
    · rw [if_pos hstatus, if_pos hstatus, if_pos hstatus]
      exact ih t
    rw [if_neg (not_not.mpr hstatus), if_neg (not_not.mpr hstatus), if_neg (not_not.mpr hstatus)]
    by_cases hextended : e.isExtended
    · rw [if_pos hextended, if_pos hextended, if_pos hextended]
      rfl
    rw [if_neg hextended, if_neg hextended, if_neg hextended, List.map_cons]
    unfold PartitionTable.addAll
    cases hadd : t.add (e.information diskOffset) with
    | error fault => rfl
    | ok t' => exact ih t'

end Entries

section Calls

variable {disk : Disk} {heap : ℕ → Bool} {fuel depth : ℕ} {offset first : DWORD} {extended : Bool}
  {t : PartitionTable}

/-- The link in a sector, unless it cannot be read. -/
def Disk.link (disk : Disk) (extendedPartition : Bool) (offset : DWORD) : Option MbrPartitionEntry :=
  match disk offset.toNat with
  | .error _ => none
  | .ok mbr =>
    if mbr.bootSignature ≠ mbrBootSignature then none
    else linkIn extendedPartition (mbr.entries extendedPartition)

/-- The next EBR; the sum is a `DWORD`. -/
def Disk.nextEbr (disk : Disk) (first offset : DWORD) : Option DWORD :=
  (disk.link true offset).map fun e => e.firstSectorLba + first

/-- The call returns, unless the array it has been given is too small. -/
def Returned (layout : Option DiskLayout) (x : Except Fault (STATUS × PartitionTable)) : Prop :=
  (∃ r, x = .ok r) ∨ x = .error .danglingAccess ∧ layout ≠ none

/-- A call that has read its sector. -/
theorem retrievePartitionsAt_of_read {mbr : Mbr} (hassert : extended ≠ decide (0 = first))
    (hheap : heap depth = true) (hread : disk offset.toNat = .ok mbr)
    (hsigned : mbr.bootSignature = mbrBootSignature) :
    retrievePartitionsAt disk heap (fuel + 1) depth offset extended first t =
      (t.addAll ((listedIn extended (mbr.entries extended)).map (·.information offset))).bind fun t' =>
        match linkIn extended (mbr.entries extended) with
        | none => .ok (statusSuccess, t')
        | some e => retrievePartitionsAt disk heap fuel (depth + 1) (e.firstSectorLba + first) true
            (if extended then first else e.firstSectorLba) t' := by
  rw [retrievePartitionsAt, assertThat_of hassert, if_neg (not_not.mpr hheap), hread]
  dsimp only
  rw [if_neg (not_not.mpr hsigned), scanEntries_eq]
  rfl

theorem link_eq_some {e : MbrPartitionEntry} (h : disk.link extended offset = some e) :
    ∃ mbr, disk offset.toNat = .ok mbr ∧ mbr.bootSignature = mbrBootSignature ∧
      linkIn extended (mbr.entries extended) = some e := by
  unfold Disk.link at h
  cases hread : disk offset.toNat with
  | error status => simp [hread] at h
  | ok mbr =>
    rw [hread] at h
    dsimp only at h
    split_ifs at h with hsigned
    exact ⟨mbr, rfl, not_not.mp hsigned, h⟩

/-- A call returns after it has listed partitions, or follows a link. -/
theorem retrievePartitionsAt_cases (hassert : extended ≠ decide (0 = first)) :
    Returned t.layout (retrievePartitionsAt disk heap (fuel + 1) depth offset extended first t) ∨
      ∃ e t', disk.link extended offset = some e ∧ (t'.layout = none ↔ t.layout = none) ∧
        retrievePartitionsAt disk heap (fuel + 1) depth offset extended first t =
          retrievePartitionsAt disk heap fuel (depth + 1) (e.firstSectorLba + first) true
            (if extended then first else e.firstSectorLba) t' := by
  by_cases hheap : heap depth
  swap
  · rw [retrievePartitionsAt, assertThat_of hassert, if_pos hheap]
    exact Or.inl (Or.inl ⟨_, rfl⟩)
  cases hread : disk offset.toNat with
  | error status =>
    rw [retrievePartitionsAt, assertThat_of hassert, if_neg (not_not.mpr hheap), hread]
    exact Or.inl (Or.inl ⟨_, rfl⟩)
  | ok mbr =>
    by_cases hsigned : mbr.bootSignature = mbrBootSignature
    swap
    · rw [retrievePartitionsAt, assertThat_of hassert, if_neg (not_not.mpr hheap), hread]
      exact Or.inl (Or.inl ⟨_, if_pos hsigned⟩)
    have hlinkIn : disk.link extended offset = linkIn extended (mbr.entries extended) := by
      unfold Disk.link
      rw [hread]
      exact if_neg (not_not.mpr hsigned)
    rw [retrievePartitionsAt_of_read hassert hheap hread hsigned, hlinkIn]
    rcases t.addAll_cases ((listedIn extended (mbr.entries extended)).map (·.information offset)) with
      ⟨t', hadd, hlayout⟩ | ⟨hadd, hlayout⟩
    · rw [hadd]
      cases hlink : linkIn extended (mbr.entries extended) with
      | none => exact Or.inl (Or.inl ⟨_, rfl⟩)
      | some e => exact Or.inr ⟨e, t', rfl, hlayout, rfl⟩
    · rw [hadd]
      exact Or.inl (Or.inr ⟨rfl, hlayout⟩)

/-- The counting pass follows every link. -/
theorem retrievePartitionsAt_link {e : MbrPartitionEntry} (hassert : extended ≠ decide (0 = first))
    (hheap : heap depth = true) (hlink : disk.link extended offset = some e)
    (hcount : t.layout = none) :
    ∃ t', t'.layout = none ∧
      retrievePartitionsAt disk heap (fuel + 1) depth offset extended first t =
        retrievePartitionsAt disk heap fuel (depth + 1) (e.firstSectorLba + first) true
          (if extended then first else e.firstSectorLba) t' := by
  obtain ⟨mbr, hread, hsigned, hlinkIn⟩ := link_eq_some hlink
  rw [retrievePartitionsAt_of_read hassert hheap hread hsigned, hlinkIn]
  rcases t.addAll_cases ((listedIn extended (mbr.entries extended)).map (·.information offset)) with
    ⟨t', hadd, hlayout⟩ | ⟨-, hlayout⟩
  · rw [hadd]
    exact ⟨t', hlayout.mpr hcount, rfl⟩
  · exact absurd hcount hlayout

theorem nextEbr_eq {e : MbrPartitionEntry} (h : disk.link true offset = some e) :
    disk.nextEbr first offset = some (e.firstSectorLba + first) := by
  unfold Disk.nextEbr
  rw [h]
  rfl

/-- A chain of extended partitions that ends is parsed to its end. -/
theorem returned_of_ends (hfirst : first ≠ 0)
    (hends : after (disk.nextEbr first) fuel offset = none) :
    Returned t.layout (retrievePartitionsAt disk heap fuel depth offset true first t) := by
  induction fuel generalizing offset depth t with
  | zero => cases hends
  | succ fuel ih =>
    have hassert : true ≠ decide (0 = first) := by simpa using hfirst.symm
    rcases @retrievePartitionsAt_cases disk heap fuel depth offset first true t hassert with
      hreturned | ⟨e, t', hlink, hlayout, hrun⟩
    · exact hreturned
    · have hrest := @ih (depth + 1) (e.firstSectorLba + first) t'
        (after_succ_eq_none.mp hends _ (nextEbr_eq hlink))
      rw [hrun]
      exact hrest.imp_right fun h => ⟨h.1, fun hnone => h.2 (hlayout.mpr hnone)⟩

/-- The counting pass never comes to the end of a chain that has none. -/
theorem outOfFuel_of_not_ends (hfirst : first ≠ 0) (hheap : ∀ n, heap n = true)
    (hends : ¬Ends (disk.nextEbr first) offset) (hcount : t.layout = none) :
    retrievePartitionsAt disk heap fuel depth offset true first t = .error .outOfFuel := by
  induction fuel generalizing offset depth t with
  | zero => rfl
  | succ fuel ih =>
    have hassert : true ≠ decide (0 = first) := by simpa using hfirst.symm
    cases hlink : disk.link true offset with
    | none =>
      refine absurd (ends_of_none ?_) hends
      unfold Disk.nextEbr
      rw [hlink]
      rfl
    | some e =>
      obtain ⟨t', hcount', hrun⟩ :=
        @retrievePartitionsAt_link disk heap fuel depth offset first true t e hassert (hheap depth)
          hlink hcount
      rw [hrun]
      exact ih (fun h => hends ((ends_iff_of_some (nextEbr_eq hlink)).mpr h)) hcount'

end Calls

/-- The call for the whole disk returns, whatever memory it gets; only an array that is too small can
stop it. -/
def ParsingReturns (disk : Disk) : Prop :=
  ∀ heap t, ∃ fuel, Returned t.layout (retrievePartitionsAt disk heap fuel 0 0 false 0 t)

/-- The first extended partition is not at sector 0, and following the links from its EBR never comes
back to an EBR. -/
def LinksEnd (disk : Disk) : Prop :=
  ∀ e, disk.link false 0 = some e →
    e.firstSectorLba ≠ 0 ∧ NeverRepeats (disk.nextEbr e.firstSectorLba) e.firstSectorLba

theorem not_inExtended : false ≠ decide ((0 : DWORD) = 0) := by decide

theorem linksEnd_of_parsingReturns {disk : Disk} (hreturns : ParsingReturns disk) : LinksEnd disk := by
  intro e hlink
  obtain ⟨fuel, hreturned⟩ := hreturns (fun _ => true) ⟨0, none⟩
  have hnot : ∀ fault, fault ≠ .danglingAccess →
      retrievePartitionsAt disk (fun _ => true) fuel 0 0 false 0 ⟨0, none⟩ ≠ .error fault := by
    rintro fault hne hrun
    rcases hreturned with ⟨r, hr⟩ | ⟨-, hlayout⟩
    · cases hrun.symm.trans hr
    · exact hlayout rfl
  cases fuel with
  | zero => exact absurd rfl (hnot .outOfFuel (by decide))
  | succ fuel =>
    obtain ⟨t', hcount, hrun⟩ := @retrievePartitionsAt_link disk (fun _ => true) fuel 0 0 0 false
      ⟨0, none⟩ e not_inExtended rfl hlink rfl
    have hne : e.firstSectorLba ≠ 0 := by
      intro h0
      cases fuel with
      | zero => exact hnot .outOfFuel (by decide) hrun
      | succ fuel =>
        refine hnot .assertFailed (by decide) (hrun.trans ?_)
        rw [retrievePartitionsAt, assertThat_of_not (by simp [h0])]
        rfl
    refine ⟨hne, Ends.neverRepeats ?_⟩
    by_contra hends
    refine hnot .outOfFuel (by decide) (hrun.trans (outOfFuel_of_not_ends hne (fun _ => rfl) ?_ hcount))
    simpa using hends

theorem parsingReturns_of_linksEnd {disk : Disk} (hlinks : LinksEnd disk) : ParsingReturns disk := by
  intro heap t
  cases hlink : disk.link false 0 with
  | none =>
    refine ⟨1, ?_⟩
    rcases @retrievePartitionsAt_cases disk heap 0 0 0 0 false t not_inExtended with
      hreturned | ⟨e, t', hsome, -, -⟩
    · exact hreturned
    · rw [hlink] at hsome
      cases hsome
  | some e =>
    obtain ⟨hne, hnever⟩ := hlinks e hlink
    obtain ⟨fuel, hends⟩ := hnever.ends (Set.toFinite _)
    refine ⟨fuel + 1, ?_⟩
    rcases @retrievePartitionsAt_cases disk heap fuel 0 0 0 false t not_inExtended with
      hreturned | ⟨e', t', hsome, hlayout, hrun⟩
    · exact hreturned
    · obtain rfl := Option.some.inj (hlink.symm.trans hsome)
      have hrest := @returned_of_ends disk heap fuel 1 (e.firstSectorLba + 0) e.firstSectorLba t' hne
        (by simpa using hends)
      rw [hrun]
      exact hrest.imp_right fun h => ⟨h.1, fun hnone => h.2 (hlayout.mpr hnone)⟩

/-- Parsing the partitions returns exactly for the disks whose links end. -/
theorem parsingReturns_iff (disk : Disk) : ParsingReturns disk ↔ LinksEnd disk :=
  ⟨linksEnd_of_parsingReturns, parsingReturns_of_linksEnd⟩

/-- A sector with one entry for an extended partition. -/
def linkSector (firstSectorLba : DWORD) : Mbr where
  partitions i := if i = 0 then ⟨0, 0, mbrPartitionExtendedLba, 0, firstSectorLba, 1000⟩ else .zero
  bootSignature := mbrBootSignature

/-- The extended partition starts at sector 0. -/
def extendedAtZero : Disk := fun _ => .ok (linkSector 0)

/-- The EBR of the extended partition at sector 63 is linked to itself. -/
def selfLinked : Disk := fun sector => .ok (linkSector (if sector = 0 then 63 else 0))

/-- An `ASSERT` fails for the first disk, and the calls for the second one never return. -/
theorem parsing_stops : ¬ParsingReturns extendedAtZero ∧ ¬ParsingReturns selfLinked := by
  constructor
  · intro hreturns
    exact (linksEnd_of_parsingReturns hreturns _ rfl).1 rfl
  · intro hreturns
    have hloop : selfLinked.nextEbr 63 63 = some 63 := rfl
    exact not_neverRepeats_of_loop hloop (linksEnd_of_parsingReturns hreturns _ rfl).2

end HAL9000.Io
