import HAL9000.Io.DmaTransfer
import HAL9000.Lib.Walk

/-! How `acpi_interface.c` reads the MADT and the MCFG. The tables come from the firmware: their lengths and
those of their entries are not checked. -/
namespace HAL9000.Io

/-- The bytes from the address of a table on. -/
structure AcpiTable where
  byteAt : ℕ → BYTE

namespace AcpiTable

def dwordAt (t : AcpiTable) (p : ℕ) : DWORD :=
  t.byteAt (p + 3) ++ t.byteAt (p + 2) ++ t.byteAt (p + 1) ++ t.byteAt p

def bytesAt (t : AcpiTable) (p size : ℕ) : List BYTE := (List.range size).map fun i => t.byteAt (p + i)

/-- `Length` of the `ACPI_TABLE_HEADER`. -/
def length (t : AcpiTable) : DWORD := t.dwordAt 4

/-- Only as many bytes as `Length` says may be read. -/
def Inside (t : AcpiTable) (p size : ℕ) : Prop := p + size ≤ t.length.toNat

instance (t : AcpiTable) (p size : ℕ) : Decidable (t.Inside p size) := inferInstanceAs (Decidable (_ ≤ _))

def read {α : Type} (t : AcpiTable) (p size : ℕ) (value : α) : Except Fault α :=
  if t.Inside p size then .ok value else .error .danglingAccess

end AcpiTable

def acpiMadtTypeLocalApic : BYTE := 0
def acpiMadtTypeIoApic : BYTE := 1
def acpiMadtTypeInterruptOverride : BYTE := 2
def acpiMadtTypeLocalApicNmi : BYTE := 4

def apicProcessorActive : DWORD := 1

/-- `sizeof(ACPI_TABLE_MADT)` and `sizeof(ACPI_TABLE_MCFG)`. -/
def tableHeaderSize : ℕ := 44

/-- `sizeof(ACPI_MCFG_ALLOCATION)`. -/
def mcfgAllocationSize : ℕ := 16

/-- The lists of `m_acpiData` into which entries of the MADT are copied. -/
inductive MadtList
  | cpu
  | ioApic
  | intOverride
  deriving DecidableEq, Repr

/-- The size of the structure that is copied. -/
def MadtList.size : MadtList → ℕ
  | .cpu => 8
  | .ioApic => 12
  | .intOverride => 10

/-- `m_acpiData` but for the routing tables. An element is the copied structure. -/
structure AcpiInterfaceData where
  cpuList : List (List BYTE) := []
  ioApicList : List (List BYTE) := []
  intOverrideList : List (List BYTE) := []
  mcfgList : List (List BYTE) := []
  deriving DecidableEq, Repr

namespace AcpiInterfaceData

def listOf (d : AcpiInterfaceData) : MadtList → List (List BYTE)
  | .cpu => d.cpuList
  | .ioApic => d.ioApicList
  | .intOverride => d.intOverrideList

def insertTail (d : AcpiInterfaceData) (entry : List BYTE) : MadtList → AcpiInterfaceData
  | .cpu => { d with cpuList := d.cpuList ++ [entry] }
  | .ioApic => { d with ioApicList := d.ioApicList ++ [entry] }
  | .intOverride => { d with intOverrideList := d.intOverrideList ++ [entry] }

end AcpiInterfaceData

/-- The lists, and how many entries have been allocated for them. -/
structure AcpiState where
  data : AcpiInterfaceData
  allocations : ℕ := 0
  deriving DecidableEq, Repr

section Parsing

variable (t : AcpiTable) (heap : ℕ → Bool)

/-- The body of a branch that keeps an entry. There is no result if there is no memory. -/
def copyEntry (p : ℕ) (l : MadtList) (s : AcpiState) : Except Fault (Option AcpiState) :=
  if heap s.allocations then do
    let entry ← t.read p l.size (t.bytesAt p l.size)
    .ok (some ⟨s.data.insertTail entry l, s.allocations + 1⟩)
  else .ok none

def madtEntry (p : ℕ) (s : AcpiState) : Except Fault (Option AcpiState) := do
  let type ← t.read p 1 (t.byteAt p)
  if type = acpiMadtTypeLocalApic then do
    let lapicFlags ← t.read (p + 4) 4 (t.dwordAt (p + 4))
    if lapicFlags &&& apicProcessorActive ≠ 0 then copyEntry t heap p .cpu s else .ok (some s)
  else if type = acpiMadtTypeIoApic then copyEntry t heap p .ioApic s
  else if type = acpiMadtTypeInterruptOverride then copyEntry t heap p .intOverride s
  else if type = acpiMadtTypeLocalApicNmi then do
    -- the fields are logged
    t.read (p + 2) 4 (some s)
  else .ok (some s)

/-- The loop from an offset on; the offset and the sum are 32 bits wide. -/
def madtLoop (actualTableLength : DWORD) : ℕ → DWORD → AcpiState → Except Fault (STATUS × AcpiState)
  | 0, _, _ => .error .outOfFuel
  | fuel + 1, offsetInTable, s =>
    if offsetInTable < actualTableLength then do
      let p := tableHeaderSize + offsetInTable.toNat
      match ← madtEntry t heap p s with
      | none => .ok (statusHeapNoMoreMemory, s)
      | some s => do
        let length ← t.read (p + 1) 1 (t.byteAt (p + 1))
        madtLoop actualTableLength fuel (offsetInTable + length.setWidth 32) s
    else .ok (statusSuccess, s)

def mcfgLoop (actualTableLength : DWORD) : ℕ → DWORD → AcpiState → Except Fault (STATUS × AcpiState)
  | 0, _, _ => .error .outOfFuel
  | fuel + 1, offsetInTable, s =>
    if offsetInTable < actualTableLength then
      if heap s.allocations then do
        let p := tableHeaderSize + offsetInTable.toNat
        let entry ← t.read p mcfgAllocationSize (t.bytesAt p mcfgAllocationSize)
        mcfgLoop actualTableLength fuel (offsetInTable + BitVec.ofNat 32 mcfgAllocationSize)
          ⟨{ s.data with mcfgList := s.data.mcfgList ++ [entry] }, s.allocations + 1⟩
      else .ok (statusHeapNoMoreMemory, s)
    else .ok (statusSuccess, s)

end Parsing

/-- What `AcpiGetTable` gives. -/
inductive AcpiGetTable
  | table (t : AcpiTable)
  | notFound
  | failed

def acpiInterfaceParseMadt (heap : ℕ → Bool) (fuel : ℕ) (s : AcpiState) :
    AcpiGetTable → Except Fault (STATUS × AcpiState)
  | .table t => do
    let length ← t.read 4 4 t.length
    madtLoop t heap (length - BitVec.ofNat 32 tableHeaderSize) fuel 0 s
  | _ => .ok (statusUnsuccessful, s)

def acpiInterfaceParseMcfg (heap : ℕ → Bool) (fuel : ℕ) (s : AcpiState) :
    AcpiGetTable → Except Fault (STATUS × AcpiState)
  | .table t => do
    let length ← t.read 4 4 t.length
    mcfgLoop t heap (length - BitVec.ofNat 32 tableHeaderSize) fuel 0 s
  | .notFound => .ok (statusDeviceDoesNotExist, s)
  | .failed => .ok (statusUnsuccessful, s)

/-- The bytes that a type of entry of the MADT has in any case. -/
def entrySize (type : BYTE) : ℕ :=
  if type = acpiMadtTypeLocalApic then 8
  else if type = acpiMadtTypeIoApic then 12
  else if type = acpiMadtTypeInterruptOverride then 10
  else if type = acpiMadtTypeLocalApicNmi then 6
  else 2

/-- The list in which an entry belongs, if it is one to be kept. -/
def entryList (e : List BYTE) : Option MadtList :=
  if e.getD 0 0 = acpiMadtTypeLocalApic then if (e.getD 4 0).getLsbD 0 then some .cpu else none
  else if e.getD 0 0 = acpiMadtTypeIoApic then some .ioApic
  else if e.getD 0 0 = acpiMadtTypeInterruptOverride then some .intOverride
  else none

/-- The second byte of an entry is its length, and the entry is as long as its type needs. -/
def WellFormedEntry (e : List BYTE) : Prop :=
  (e.getD 1 0).toNat = e.length ∧ entrySize (e.getD 0 0) ≤ e.length

/-- The structures that a list should hold after a table of these entries. -/
def copies (l : MadtList) (entries : List (List BYTE)) : List (List BYTE) :=
  (entries.filter fun e => entryList e = some l).map fun e => e.take l.size

/-- The table is a sequence of well-formed entries that fill it exactly. -/
def AcpiTable.IsMadt (t : AcpiTable) (entries : List (List BYTE)) : Prop :=
  tableHeaderSize ≤ t.length.toNat ∧ (∀ e ∈ entries, WellFormedEntry e) ∧
    t.bytesAt tableHeaderSize (t.length.toNat - tableHeaderSize) = entries.flatten

/-- The table is a sequence of allocations that fill it exactly. -/
def AcpiTable.IsMcfg (t : AcpiTable) (allocations : List (List BYTE)) : Prop :=
  tableHeaderSize ≤ t.length.toNat ∧ (∀ a ∈ allocations, a.length = mcfgAllocationSize) ∧
    t.bytesAt tableHeaderSize (t.length.toNat - tableHeaderSize) = allocations.flatten

/-- The MADT is read in finitely many steps and nothing beside it, and the lists, empty before, are then
those of its entries. -/
def ParsesMadt (t : AcpiTable) (heap : ℕ → Bool) : Prop := ∃ fuel status s,
  acpiInterfaceParseMadt heap fuel ⟨{}, 0⟩ (.table t) = .ok (status, s) ∧
    ∀ entries, t.IsMadt entries → ∀ l, s.data.listOf l = copies l entries

/-- The same of the MCFG. The other lists hold what the MADT has left. -/
def ParsesMcfg (t : AcpiTable) (heap : ℕ → Bool) (data : AcpiInterfaceData) : Prop := ∃ fuel status s,
  acpiInterfaceParseMcfg heap fuel ⟨{ data with mcfgList := [] }, 0⟩ (.table t) = .ok (status, s) ∧
    ∀ allocations, t.IsMcfg allocations → s.data = { data with mcfgList := allocations }

namespace AcpiTable

variable (t : AcpiTable) (heap : ℕ → Bool)

/-- Where the entries of the MADT end, counted from the first one. It is huge if the table is too short for
its header. -/
def actualTableLength : DWORD := t.length - BitVec.ofNat 32 tableHeaderSize

/-- The list into which the code copies the entry at a position. -/
def listAt (p : ℕ) : Option MadtList :=
  if t.byteAt p = acpiMadtTypeLocalApic then
    if t.dwordAt (p + 4) &&& apicProcessorActive ≠ 0 then some .cpu else none
  else if t.byteAt p = acpiMadtTypeIoApic then some .ioApic
  else if t.byteAt p = acpiMadtTypeInterruptOverride then some .intOverride
  else none

/-- There is no memory for the entry at a position. -/
def Fails (p n : ℕ) : Prop := (t.listAt p).isSome = true ∧ heap n = false

instance (p n : ℕ) : Decidable (t.Fails heap p n) := inferInstanceAs (Decidable (_ ∧ _))

/-- What is read of an entry lies in the table. If there is no memory for an entry, only its type and the
flags of a processor are read. -/
def EntryInside (p n : ℕ) : Prop :=
  if t.Fails heap p n then t.Inside p (if t.byteAt p = acpiMadtTypeLocalApic then 8 else 1)
  else t.Inside p (entrySize (t.byteAt p))

/-- The state after the entry at a position. -/
def entryState (p : ℕ) (s : AcpiState) : AcpiState :=
  match t.listAt p with
  | some l => ⟨s.data.insertTail (t.bytesAt p l.size) l, s.allocations + 1⟩
  | none => s

def offsetAfter (off : DWORD) : DWORD :=
  off + (t.byteAt (tableHeaderSize + off.toNat + 1)).setWidth 32

/-- From entry to entry. -/
def nextOffset (off : DWORD) : Option DWORD :=
  if off < t.actualTableLength then some (t.offsetAfter off) else none

/-- From entry to entry as long as there is memory. The second part counts the entries that are kept. -/
def nextEntry (e : DWORD × ℕ) : Option (DWORD × ℕ) :=
  if e.1 < t.actualTableLength ∧ ¬t.Fails heap (tableHeaderSize + e.1.toNat) e.2 then
    some (t.offsetAfter e.1,
      if (t.listAt (tableHeaderSize + e.1.toNat)).isSome then e.2 + 1 else e.2)
  else none

end AcpiTable

section Entry

variable {t : AcpiTable} {heap : ℕ → Bool} {p n size : ℕ} {s : AcpiState} {α : Type} {value : α}

theorem read_of_inside (h : t.Inside p size) : t.read p size value = .ok value := if_pos h

theorem read_of_not_inside (h : ¬t.Inside p size) : t.read p size value = .error .danglingAccess :=
  if_neg h

theorem copyEntry_of_fails {l : MadtList} (h : heap s.allocations = false) :
    copyEntry t heap p l s = .ok none := by
  simp [copyEntry, h]

theorem copyEntry_of_inside {l : MadtList} (hheap : heap s.allocations = true)
    (h : t.Inside p l.size) : copyEntry t heap p l s =
      .ok (some ⟨s.data.insertTail (t.bytesAt p l.size) l, s.allocations + 1⟩) := by
  simp [copyEntry, hheap, read_of_inside h, bind, Except.bind]

theorem copyEntry_of_not_inside {l : MadtList} (hheap : heap s.allocations = true)
    (h : ¬t.Inside p l.size) : copyEntry t heap p l s = .error .danglingAccess := by
  simp [copyEntry, hheap, read_of_not_inside h, bind, Except.bind]

/-- A branch that keeps the entry. -/
theorem copyEntry_eq {l : MadtList} (hlist : t.listAt p = some l)
    (h : ¬t.Fails heap p s.allocations) (hin : t.Inside p l.size) :
    copyEntry t heap p l s = .ok (some (t.entryState p s)) := by
  have hheap : heap s.allocations = true := by
    by_contra hnot
    exact h ⟨by rw [hlist]; rfl, Bool.eq_false_iff.mpr hnot⟩
  rw [copyEntry_of_inside hheap hin, AcpiTable.entryState, hlist]

theorem inside_mono {q size' : ℕ} (h : t.Inside p size) (hle : q + size' ≤ p + size) :
    t.Inside q size' := le_trans hle h

theorem madtEntry_of_fails (hfails : t.Fails heap p s.allocations)
    (hin : t.Inside p (if t.byteAt p = acpiMadtTypeLocalApic then 8 else 1)) :
    madtEntry t heap p s = .ok none := by
  obtain ⟨hlist, hheap⟩ := hfails
  have htype : t.Inside p 1 := inside_mono hin (by split_ifs <;> omega)
  unfold madtEntry
  rw [read_of_inside htype]
  unfold AcpiTable.listAt at hlist
  by_cases h0 : t.byteAt p = acpiMadtTypeLocalApic
  · rw [if_pos h0] at hin hlist
    have hflags : t.Inside (p + 4) 4 := inside_mono hin (by omega)
    have hactive : t.dwordAt (p + 4) &&& apicProcessorActive ≠ 0 := fun hzero => by
      rw [if_neg (not_not.mpr hzero)] at hlist
      cases hlist
    simp only [bind, Except.bind, if_pos h0, read_of_inside hflags, if_pos hactive]
    exact copyEntry_of_fails hheap
  by_cases h1 : t.byteAt p = acpiMadtTypeIoApic
  · simp only [bind, Except.bind, if_neg h0, if_pos h1]
    exact copyEntry_of_fails hheap
  by_cases h2 : t.byteAt p = acpiMadtTypeInterruptOverride
  · simp only [bind, Except.bind, if_neg h0, if_neg h1, if_pos h2]
    exact copyEntry_of_fails hheap
  · rw [if_neg h0, if_neg h1, if_neg h2] at hlist
    cases hlist

theorem madtEntry_of_inside (h : ¬t.Fails heap p s.allocations)
    (hin : t.Inside p (entrySize (t.byteAt p))) :
    madtEntry t heap p s = .ok (some (t.entryState p s)) := by
  have hsize : 2 ≤ entrySize (t.byteAt p) := by
    unfold entrySize
    split_ifs <;> omega
  have htype : t.Inside p 1 := inside_mono hin (by omega)
  have hskip : t.listAt p = none → t.entryState p s = s := fun hnone => by
    rw [AcpiTable.entryState, hnone]
  unfold madtEntry
  rw [read_of_inside htype]
  by_cases h0 : t.byteAt p = acpiMadtTypeLocalApic
  · rw [entrySize, if_pos h0] at hin
    have hflags : t.Inside (p + 4) 4 := inside_mono hin (by omega)
    simp only [bind, Except.bind, if_pos h0, read_of_inside hflags]
    by_cases hactive : t.dwordAt (p + 4) &&& apicProcessorActive ≠ 0
    · have hlist : t.listAt p = some .cpu := (if_pos h0).trans (if_pos hactive)
      exact (if_pos hactive).trans (copyEntry_eq hlist h hin)
    · have hlist : t.listAt p = none := (if_pos h0).trans (if_neg hactive)
      rw [if_neg hactive, hskip hlist]
  by_cases h1 : t.byteAt p = acpiMadtTypeIoApic
  · rw [entrySize, if_neg h0, if_pos h1] at hin
    have hlist : t.listAt p = some .ioApic := (if_neg h0).trans (if_pos h1)
    simp only [bind, Except.bind, if_neg h0, if_pos h1]
    exact copyEntry_eq hlist h hin
  by_cases h2 : t.byteAt p = acpiMadtTypeInterruptOverride
  · rw [entrySize, if_neg h0, if_neg h1, if_pos h2] at hin
    have hlist : t.listAt p = some .intOverride := (if_neg h0).trans ((if_neg h1).trans (if_pos h2))
    simp only [bind, Except.bind, if_neg h0, if_neg h1, if_pos h2]
    exact copyEntry_eq hlist h hin
  have hlist : t.listAt p = none := (if_neg h0).trans ((if_neg h1).trans (if_neg h2))
  simp only [bind, Except.bind, if_neg h0, if_neg h1, if_neg h2, hskip hlist]
  by_cases h4 : t.byteAt p = acpiMadtTypeLocalApicNmi
  · rw [entrySize, if_neg h0, if_neg h1, if_neg h2, if_pos h4] at hin
    rw [if_pos h4, read_of_inside (inside_mono hin (by omega))]
  · rw [if_neg h4]

/-- An entry that is not inside is met by a read outside, of its own or of its length. -/
theorem madtEntry_of_outside (h : ¬t.EntryInside heap p s.allocations) :
    madtEntry t heap p s = .error .danglingAccess ∨
      madtEntry t heap p s = .ok (some s) ∧ ¬t.Inside (p + 1) 1 := by
  unfold madtEntry
  by_cases htype : t.Inside p 1
  swap
  · exact .inl (by rw [read_of_not_inside htype]; rfl)
  rw [read_of_inside htype]
  unfold AcpiTable.EntryInside AcpiTable.Fails AcpiTable.listAt entrySize at h
  by_cases h0 : t.byteAt p = acpiMadtTypeLocalApic
  · have hflags : ¬t.Inside (p + 4) 4 := fun hflags => by
      have hin : t.Inside p 8 := inside_mono hflags (by omega)
      simp only [if_pos h0, hin, ite_self, not_true_eq_false] at h
    exact .inl (by simp only [bind, Except.bind, if_pos h0, read_of_not_inside hflags])
  simp only [if_neg h0] at h
  by_cases h1 : t.byteAt p = acpiMadtTypeIoApic
  · simp only [if_pos h1] at h
    by_cases hheap : heap s.allocations = true
    · have hout : ¬t.Inside p MadtList.ioApic.size := by simpa [hheap, MadtList.size] using h
      exact .inl (by simpa only [bind, Except.bind, if_neg h0, if_pos h1]
        using copyEntry_of_not_inside hheap hout)
    · simp [hheap, htype] at h
  by_cases h2 : t.byteAt p = acpiMadtTypeInterruptOverride
  · simp only [if_neg h1, if_pos h2] at h
    by_cases hheap : heap s.allocations = true
    · have hout : ¬t.Inside p MadtList.intOverride.size := by simpa [hheap, MadtList.size] using h
      exact .inl (by simpa only [bind, Except.bind, if_neg h0, if_neg h1, if_pos h2]
        using copyEntry_of_not_inside hheap hout)
    · simp [hheap, htype] at h
  simp only [if_neg h1, if_neg h2] at h
  by_cases h4 : t.byteAt p = acpiMadtTypeLocalApicNmi
  · have hfields : ¬t.Inside (p + 2) 4 := fun hfields => by
      have hin : t.Inside p 6 := inside_mono hfields (by omega)
      simp [h4, hin] at h
    exact .inl (by simp only [bind, Except.bind, if_neg h0, if_neg h1, if_neg h2, if_pos h4,
      read_of_not_inside hfields])
  · refine .inr ⟨by simp only [bind, Except.bind, if_neg h0, if_neg h1, if_neg h2, if_neg h4], ?_⟩
    intro hlength
    have hin : t.Inside p 2 := inside_mono hlength (by omega)
    simp [h4, hin] at h

end Entry

section Rounds

variable {t : AcpiTable} {heap : ℕ → Bool} {fuel : ℕ} {off : DWORD} {s : AcpiState}

theorem madtLoop_end (h : ¬off < t.actualTableLength) :
    madtLoop t heap t.actualTableLength (fuel + 1) off s = .ok (statusSuccess, s) := if_neg h

theorem madtLoop_stop (h : off < t.actualTableLength)
    (hin : t.EntryInside heap (tableHeaderSize + off.toNat) s.allocations)
    (hfails : t.Fails heap (tableHeaderSize + off.toNat) s.allocations) :
    madtLoop t heap t.actualTableLength (fuel + 1) off s = .ok (statusHeapNoMoreMemory, s) := by
  rw [AcpiTable.EntryInside, if_pos hfails] at hin
  unfold madtLoop
  rw [if_pos h]
  simp only [bind, Except.bind, madtEntry_of_fails hfails hin]

theorem madtLoop_next (h : off < t.actualTableLength)
    (hin : t.EntryInside heap (tableHeaderSize + off.toNat) s.allocations)
    (hnot : ¬t.Fails heap (tableHeaderSize + off.toNat) s.allocations) :
    madtLoop t heap t.actualTableLength (fuel + 1) off s =
      madtLoop t heap t.actualTableLength fuel (t.offsetAfter off)
        (t.entryState (tableHeaderSize + off.toNat) s) := by
  rw [AcpiTable.EntryInside, if_neg hnot] at hin
  have hlength : t.Inside (tableHeaderSize + off.toNat + 1) 1 :=
    inside_mono hin (by unfold entrySize; split_ifs <;> omega)
  conv_lhs => unfold madtLoop
  rw [if_pos h]
  simp only [bind, Except.bind, madtEntry_of_inside hnot hin, read_of_inside hlength]
  rfl

theorem madtLoop_outside (h : off < t.actualTableLength)
    (hout : ¬t.EntryInside heap (tableHeaderSize + off.toNat) s.allocations) :
    madtLoop t heap t.actualTableLength (fuel + 1) off s = .error .danglingAccess := by
  unfold madtLoop
  rw [if_pos h]
  rcases madtEntry_of_outside hout with herror | ⟨hentry, hlength⟩
  · simp only [bind, Except.bind, herror]
  · simp only [bind, Except.bind, hentry, read_of_not_inside hlength]

theorem nextEntry_of_end (h : ¬off < t.actualTableLength) (n : ℕ) : t.nextEntry heap (off, n) = none :=
  if_neg fun hboth => h hboth.1

theorem nextEntry_of_fails {n : ℕ} (h : t.Fails heap (tableHeaderSize + off.toNat) n) :
    t.nextEntry heap (off, n) = none := if_neg fun hboth => hboth.2 h

theorem nextEntry_of_next (h : off < t.actualTableLength)
    (hnot : ¬t.Fails heap (tableHeaderSize + off.toNat) s.allocations) :
    t.nextEntry heap (off, s.allocations) =
      some (t.offsetAfter off, (t.entryState (tableHeaderSize + off.toNat) s).allocations) := by
  refine (if_pos ⟨h, hnot⟩).trans ?_
  unfold AcpiTable.entryState
  cases t.listAt (tableHeaderSize + off.toNat) <;> rfl

/-- The loop returns exactly if the walk over the entries ends and all of them lie inside. -/
theorem madtLoop_returns_iff : (∃ r, madtLoop t heap t.actualTableLength fuel off s = .ok r) ↔
    Walk.after (t.nextEntry heap) fuel (off, s.allocations) = none ∧
      ∀ e, Walk.Reaches (t.nextEntry heap) (off, s.allocations) e → e.1 < t.actualTableLength →
        t.EntryInside heap (tableHeaderSize + e.1.toNat) e.2 := by
  induction fuel generalizing off s with
  | zero => exact ⟨fun ⟨_, h⟩ => (nomatch h), fun h => (nomatch h.1)⟩
  | succ fuel ih =>
    rw [Walk.forall_reaches_iff, Walk.after_succ_eq_none]
    by_cases hoff : off < t.actualTableLength
    swap
    · refine iff_of_true ⟨_, madtLoop_end hoff⟩ ?_
      rw [nextEntry_of_end hoff]
      exact ⟨fun b hb => (nomatch hb), fun h => absurd h hoff, fun b hb => (nomatch hb)⟩
    by_cases hin : t.EntryInside heap (tableHeaderSize + off.toNat) s.allocations
    swap
    · refine iff_of_false (fun ⟨r, hr⟩ => ?_) fun h => hin (h.2.1 hoff)
      rw [madtLoop_outside hoff hin] at hr
      cases hr
    by_cases hfails : t.Fails heap (tableHeaderSize + off.toNat) s.allocations
    · refine iff_of_true ⟨_, madtLoop_stop hoff hin hfails⟩ ?_
      rw [nextEntry_of_fails hfails]
      exact ⟨fun b hb => (nomatch hb), fun _ => hin, fun b hb => (nomatch hb)⟩
    · rw [madtLoop_next hoff hin hfails, ih, nextEntry_of_next hoff hfails]
      constructor
      · intro h
        refine ⟨fun b hb => ?_, fun _ => hin, fun b hb => ?_⟩
        · exact Option.some.inj hb ▸ h.1
        · exact Option.some.inj hb ▸ h.2
      · intro h
        exact ⟨h.1 _ rfl, h.2.2 _ rfl⟩

end Rounds

namespace AcpiTable

variable (t : AcpiTable) (heap : ℕ → Bool)

/-- There is no memory for an entry of the MADT that the code comes to. -/
def RunsOut : Prop := ∃ e, Walk.Reaches (t.nextEntry heap) (0, 0) e ∧
  e.1 < t.actualTableLength ∧ t.Fails heap (tableHeaderSize + e.1.toNat) e.2

/-- All entries that the code comes to lie inside the table. -/
def EntriesInside : Prop := ∀ e, Walk.Reaches (t.nextEntry heap) (0, 0) e →
  e.1 < t.actualTableLength → t.EntryInside heap (tableHeaderSize + e.1.toNat) e.2

end AcpiTable

/-- The number of entries that are to be kept. -/
def kept (entries : List (List BYTE)) : ℕ := entries.countP fun e => (entryList e).isSome

def AcpiInterfaceData.madtEntries (d : AcpiInterfaceData) : ℕ :=
  d.cpuList.length + d.ioApicList.length + d.intOverrideList.length

section Lists

variable {t : AcpiTable} {heap : ℕ → Bool} {fuel p : ℕ} {off : DWORD} {s s' : AcpiState}
  {status : STATUS}

theorem nextOffset_of_nextEntry {a b : DWORD × ℕ} (h : t.nextEntry heap a = some b) :
    t.nextOffset a.1 = some b.1 := by
  unfold AcpiTable.nextEntry at h
  split_ifs at h with hboth <;> exact (if_pos hboth.1).trans (congrArg _ (congrArg Prod.fst (Option.some.inj h)))

/-- The walk ends exactly if no offset comes twice or the memory runs out. -/
theorem ends_iff : Walk.Ends (t.nextEntry heap) (0, 0) ↔
    Walk.NeverRepeats t.nextOffset 0 ∨ t.RunsOut heap := by
  rw [Walk.ends_iff_of_project (f := Prod.fst) fun _ _ => nextOffset_of_nextEntry,
    Walk.ends_iff_neverRepeats (Set.toFinite _)]
  refine or_congr_right ?_
  constructor
  · intro h
    obtain ⟨e, hreach, hlast, hmore⟩ := h
    have hoff : e.1 < t.actualTableLength := by
      by_contra hnot
      exact hmore (if_neg hnot)
    refine ⟨e, hreach, hoff, ?_⟩
    by_contra hnot
    rw [AcpiTable.nextEntry, if_pos ⟨hoff, hnot⟩] at hlast
    cases hlast
  · intro h
    obtain ⟨e, hreach, hoff, hfails⟩ := h
    refine ⟨e, hreach, nextEntry_of_fails hfails, ?_⟩
    rw [AcpiTable.nextOffset, if_pos hoff]
    exact Option.some_ne_none _

theorem madtEntries_insertTail (d : AcpiInterfaceData) (entry : List BYTE) (l : MadtList) :
    (d.insertTail entry l).madtEntries = d.madtEntries + 1 := by
  cases l <;> simp only [AcpiInterfaceData.insertTail, AcpiInterfaceData.madtEntries, List.length_append,
    List.length_singleton] <;> omega

theorem madtEntries_eq_kept {d : AcpiInterfaceData} {entries : List (List BYTE)}
    (h : ∀ l, d.listOf l = copies l entries) : d.madtEntries = kept entries := by
  have hcount : ∀ l, (d.listOf l).length = entries.countP fun e => entryList e = some l := fun l => by
    rw [h l, copies, List.length_map, List.countP_eq_length_filter]
  have hcpu := hcount .cpu
  have hioApic := hcount .ioApic
  have hintOverride := hcount .intOverride
  unfold AcpiInterfaceData.listOf at hcpu hioApic hintOverride
  unfold AcpiInterfaceData.madtEntries kept
  rw [hcpu, hioApic, hintOverride]
  clear h hcount hcpu hioApic hintOverride
  induction entries with
  | nil => rfl
  | cons e entries ih =>
    simp only [List.countP_cons, ← ih]
    cases hlist : entryList e with
    | none => simp
    | some l => cases l <;> simp <;> omega

/-- Every entry in the lists has been allocated. -/
theorem madtLoop_allocates (h : madtLoop t heap t.actualTableLength fuel off s = .ok (status, s')) :
    s.allocations ≤ s'.allocations ∧
      s'.data.madtEntries + s.allocations = s.data.madtEntries + s'.allocations ∧
      ∀ n, s.allocations ≤ n → n < s'.allocations → heap n = true := by
  induction fuel generalizing off s with
  | zero => cases h
  | succ fuel ih =>
    by_cases hoff : off < t.actualTableLength
    swap
    · rw [madtLoop_end hoff] at h
      obtain ⟨-, rfl⟩ := Prod.mk.inj (Except.ok.inj h)
      exact ⟨le_rfl, rfl, fun n hle hlt => by omega⟩
    by_cases hin : t.EntryInside heap (tableHeaderSize + off.toNat) s.allocations
    swap
    · rw [madtLoop_outside hoff hin] at h
      cases h
    by_cases hfails : t.Fails heap (tableHeaderSize + off.toNat) s.allocations
    · rw [madtLoop_stop hoff hin hfails] at h
      obtain ⟨-, rfl⟩ := Prod.mk.inj (Except.ok.inj h)
      exact ⟨le_rfl, rfl, fun n hle hlt => by omega⟩
    rw [madtLoop_next hoff hin hfails] at h
    have hrest := ih h
    unfold AcpiTable.entryState at hrest
    cases hlist : t.listAt (tableHeaderSize + off.toNat) with
    | none =>
      rw [hlist] at hrest
      exact hrest
    | some l =>
      rw [hlist] at hrest
      obtain ⟨hle, htotal, hheap⟩ := hrest
      dsimp only at hle htotal hheap
      rw [madtEntries_insertTail] at htotal
      refine ⟨by omega, by omega, fun n hn hlt => ?_⟩
      rcases Nat.eq_or_lt_of_le hn with rfl | hn
      · by_contra hnot
        exact hfails ⟨by rw [hlist]; rfl, Bool.eq_false_iff.mpr hnot⟩
      · exact hheap n hn hlt

end Lists

/-- The entries are what the table holds from an offset on to its end. -/
def AcpiTable.Spans (t : AcpiTable) (off : ℕ) (entries : List (List BYTE)) : Prop :=
  tableHeaderSize + off + entries.flatten.length = t.length.toNat ∧
    ∀ i < entries.flatten.length, t.byteAt (tableHeaderSize + off + i) = entries.flatten.getD i 0

section Spans

variable {t : AcpiTable} {heap : ℕ → Bool} {fuel off p : ℕ} {e : List BYTE} {entries : List (List BYTE)}
  {l : MadtList}

theorem spans_of_bytesAt (hle : tableHeaderSize ≤ t.length.toNat)
    (h : t.bytesAt tableHeaderSize (t.length.toNat - tableHeaderSize) = entries.flatten) :
    t.Spans 0 entries := by
  have hlength := congrArg List.length h
  rw [AcpiTable.bytesAt, List.length_map, List.length_range] at hlength
  refine ⟨by omega, fun i hi => ?_⟩
  rw [← h, AcpiTable.bytesAt, List.getD_eq_getElem?_getD, List.getElem?_map,
    List.getElem?_range (by omega)]
  rfl

theorem AcpiTable.Spans.byteAt_head (h : t.Spans off (e :: entries)) {i : ℕ} (hi : i < e.length) :
    t.byteAt (tableHeaderSize + off + i) = e.getD i 0 := by
  rw [h.2 i (by rw [List.flatten_cons, List.length_append]; omega), List.flatten_cons,
    List.getD_append _ _ _ _ hi]

theorem AcpiTable.Spans.tail (h : t.Spans off (e :: entries)) : t.Spans (off + e.length) entries := by
  obtain ⟨hlength, hbytes⟩ := h
  rw [List.flatten_cons, List.length_append] at hlength
  refine ⟨by omega, fun i hi => ?_⟩
  have hi' : e.length + i < (e :: entries).flatten.length := by
    rw [List.flatten_cons, List.length_append]
    omega
  rw [show tableHeaderSize + (off + e.length) + i = tableHeaderSize + off + (e.length + i) by omega,
    hbytes _ hi', List.flatten_cons, List.getD_append_right _ _ _ _ (by omega),
    Nat.add_sub_cancel_left]

theorem two_le_entrySize (type : BYTE) : 2 ≤ entrySize type := by
  unfold entrySize
  split_ifs <;> omega

theorem lapicFlags_active (t : AcpiTable) (p : ℕ) :
    t.dwordAt p &&& apicProcessorActive ≠ 0 ↔ (t.byteAt p).getLsbD 0 = true := by
  have hbit : (t.dwordAt p).getLsbD 0 = (t.byteAt p).getLsbD 0 := by
    rw [AcpiTable.dwordAt, BitVec.getLsbD_append]
    rfl
  have hone : apicProcessorActive = 1#32 := rfl
  rw [← hbit, hone, BitVec.and_one_eq_setWidth_ofBool_getLsbD]
  cases (t.dwordAt p).getLsbD 0 <;> decide

/-- The code takes an entry for what it is. -/
theorem AcpiTable.Spans.listAt (h : t.Spans off (e :: entries)) (he : WellFormedEntry e) :
    t.listAt (tableHeaderSize + off) = entryList e := by
  have hsize := two_le_entrySize (e.getD 0 0)
  have htype : t.byteAt (tableHeaderSize + off) = e.getD 0 0 :=
    h.byteAt_head (i := 0) (lt_of_lt_of_le (by omega) he.2)
  unfold AcpiTable.listAt entryList
  rw [htype]
  refine ite_congr rfl (fun h0 => ?_) fun _ => rfl
  have hflags : 4 < e.length := by
    have hle := he.2
    rw [entrySize, if_pos h0] at hle
    omega
  rw [← h.byteAt_head hflags]
  exact ite_congr (propext (lapicFlags_active t _)) (fun _ => rfl) fun _ => rfl

theorem size_le_of_entryList (hl : entryList e = some l) : l.size ≤ entrySize (e.getD 0 0) := by
  unfold entryList at hl
  unfold entrySize
  split_ifs at hl ⊢ <;> obtain rfl := Option.some.inj hl <;> decide

theorem AcpiTable.Spans.bytesAt (h : t.Spans off (e :: entries)) (he : WellFormedEntry e)
    (hl : entryList e = some l) : t.bytesAt (tableHeaderSize + off) l.size = e.take l.size := by
  have hsize := (size_le_of_entryList hl).trans he.2
  refine List.ext_getElem (by simp [AcpiTable.bytesAt, hsize]) fun i hi _ => ?_
  rw [AcpiTable.bytesAt, List.length_map, List.length_range] at hi
  simp only [AcpiTable.bytesAt, List.getElem_map, List.getElem_range, List.getElem_take]
  rw [h.byteAt_head (by omega), List.getD_eq_getElem _ _ (by omega)]

theorem listOf_insertTail (d : AcpiInterfaceData) (entry : List BYTE) (l l' : MadtList) :
    (d.insertTail entry l).listOf l' = d.listOf l' ++ if l = l' then [entry] else [] := by
  cases l <;> cases l' <;> simp [AcpiInterfaceData.insertTail, AcpiInterfaceData.listOf]

theorem copies_cons (l : MadtList) (e : List BYTE) (entries : List (List BYTE)) :
    copies l (e :: entries) =
      (if entryList e = some l then [e.take l.size] else []) ++ copies l entries := by
  unfold copies
  by_cases h : entryList e = some l <;> simp [h]

/-- What one entry adds to the lists. -/
theorem AcpiTable.Spans.listOf_entryState (h : t.Spans off (e :: entries)) (he : WellFormedEntry e)
    (s : AcpiState) : (t.entryState (tableHeaderSize + off) s).data.listOf l ++ copies l entries =
      s.data.listOf l ++ copies l (e :: entries) := by
  rw [copies_cons, AcpiTable.entryState, h.listAt he]
  cases hl : entryList e with
  | none => rfl
  | some l' =>
    dsimp only
    rw [listOf_insertTail, h.bytesAt he hl, List.append_assoc]
    by_cases heq : l' = l
    · subst heq
      simp
    · simp [heq]

theorem toNat_actualTableLength (h : tableHeaderSize ≤ t.length.toNat) :
    t.actualTableLength.toNat = t.length.toNat - tableHeaderSize := by
  have hheader : (BitVec.ofNat 32 tableHeaderSize).toNat = tableHeaderSize := rfl
  rw [AcpiTable.actualTableLength, BitVec.toNat_sub_of_le (BitVec.le_def.mpr (hheader ▸ h)), hheader]

/-- A table of well-formed entries, as far as there is memory for them. -/
theorem madtLoop_entries {off : DWORD} {s s' : AcpiState} {status : STATUS}
    (hspans : t.Spans off.toNat entries) (hwf : ∀ e ∈ entries, WellFormedEntry e)
    (hheap : ∀ n, s.allocations ≤ n → n < s.allocations + kept entries → heap n = true)
    (h : madtLoop t heap t.actualTableLength fuel off s = .ok (status, s')) :
    s'.data.listOf l = s.data.listOf l ++ copies l entries := by
  have hheader : tableHeaderSize ≤ t.length.toNat := by
    have := hspans.1
    omega
  have hactual := toNat_actualTableLength hheader
  induction entries generalizing fuel off s with
  | nil =>
    have hend : ¬off < t.actualTableLength := by
      have hlength := hspans.1
      rw [List.flatten_nil, List.length_nil] at hlength
      rw [BitVec.lt_def, hactual]
      lia
    cases fuel with
    | zero => cases h
    | succ fuel =>
      rw [madtLoop_end hend] at h
      obtain ⟨-, rfl⟩ := Prod.mk.inj (Except.ok.inj h)
      simp [copies]
  | cons e entries ih =>
    have he := hwf e List.mem_cons_self
    have hsize := (two_le_entrySize (e.getD 0 0)).trans he.2
    have hlength := hspans.1
    rw [List.flatten_cons, List.length_append] at hlength
    have hoff : off < t.actualTableLength := by
      rw [BitVec.lt_def, hactual]
      omega
    have hlist := hspans.listAt he
    have hfails : ¬t.Fails heap (tableHeaderSize + off.toNat) s.allocations := fun hfails => by
      rw [AcpiTable.Fails, hlist] at hfails
      have hkept : 0 < kept (e :: entries) := by
        rw [kept, List.countP_cons, if_pos hfails.1]
        omega
      rw [hheap s.allocations le_rfl (by omega)] at hfails
      exact Bool.noConfusion hfails.2
    cases fuel with
    | zero => cases h
    | succ fuel =>
      by_cases hin : t.EntryInside heap (tableHeaderSize + off.toNat) s.allocations
      swap
      · rw [madtLoop_outside hoff hin] at h
        cases h
      rw [madtLoop_next hoff hin hfails] at h
      have hnext : (t.offsetAfter off).toNat = off.toNat + e.length := by
        have hlt := t.length.isLt
        rw [AcpiTable.offsetAfter, hspans.byteAt_head (by omega), BitVec.toNat_add,
          BitVec.toNat_setWidth, he.1]
        rw [Nat.mod_eq_of_lt (a := e.length) (by lia), Nat.mod_eq_of_lt (by omega)]
      have hspans' : t.Spans (t.offsetAfter off).toNat entries := hnext ▸ hspans.tail
      rw [← hspans.listOf_entryState he]
      refine ih hspans' (fun a ha => hwf a (List.mem_cons_of_mem _ ha)) (fun n hle hlt => ?_) h
      unfold AcpiTable.entryState at hle hlt
      rw [hlist] at hle hlt
      rw [kept, List.countP_cons] at hheap
      cases hl : entryList e with
      | none =>
        rw [hl] at hle hlt hheap
        exact hheap n hle (by simpa [kept] using hlt)
      | some l' =>
        rw [hl] at hle hlt hheap
        dsimp only at hle hlt
        rw [kept] at hlt
        exact hheap n (by omega) (by simp; omega)

theorem acpiInterfaceParseMadt_eq {s : AcpiState} (h : t.Inside 4 4) :
    acpiInterfaceParseMadt heap fuel s (.table t) = madtLoop t heap t.actualTableLength fuel 0 s := by
  simp only [acpiInterfaceParseMadt, read_of_inside h, bind, Except.bind]
  rfl

/-- The offsets of the MADT do not go round unless the memory runs out, what is read of its entries lies
inside, and there is memory for the entries of a well-formed table. -/
def AcpiTable.MadtReadable (t : AcpiTable) (heap : ℕ → Bool) : Prop := t.Inside 4 4 ∧
  (Walk.NeverRepeats t.nextOffset 0 ∨ t.RunsOut heap) ∧ t.EntriesInside heap ∧
    ∀ entries, t.IsMadt entries → ∀ n < kept entries, heap n = true

theorem parsesMadt_iff (t : AcpiTable) (heap : ℕ → Bool) : ParsesMadt t heap ↔ t.MadtReadable heap := by
  by_cases hlength : t.Inside 4 4
  swap
  · refine iff_of_false (fun h => ?_) fun h => hlength h.1
    obtain ⟨fuel, status, s, hrun, -⟩ := h
    simp only [acpiInterfaceParseMadt, read_of_not_inside hlength, bind, Except.bind] at hrun
    cases hrun
  unfold AcpiTable.MadtReadable
  rw [← ends_iff]
  constructor
  · intro h
    obtain ⟨fuel, status, s, hrun, hlists⟩ := h
    rw [acpiInterfaceParseMadt_eq hlength] at hrun
    obtain ⟨hafter, hinside⟩ := madtLoop_returns_iff.mp ⟨_, hrun⟩
    refine ⟨hlength, ⟨fuel, hafter⟩, hinside, fun entries hentries n hn => ?_⟩
    obtain ⟨-, htotal, hheap⟩ := madtLoop_allocates hrun
    rw [madtEntries_eq_kept (hlists entries hentries)] at htotal
    have hempty : AcpiInterfaceData.madtEntries {} = 0 := rfl
    dsimp only at htotal
    exact hheap n (Nat.zero_le n) (by omega)
  · intro h
    obtain ⟨-, ⟨fuel, hafter⟩, hinside, hheap⟩ := h
    obtain ⟨⟨status, s⟩, hrun⟩ := madtLoop_returns_iff.mpr
      (show Walk.after (t.nextEntry heap) fuel (0, (⟨{}, 0⟩ : AcpiState).allocations) = none ∧ _ from
        ⟨hafter, hinside⟩)
    refine ⟨fuel, status, s, (acpiInterfaceParseMadt_eq hlength).trans hrun, fun entries hentries l => ?_⟩
    obtain ⟨hheader, hwf, hbytes⟩ := hentries
    have hspans : t.Spans (0 : DWORD).toNat entries := spans_of_bytesAt hheader hbytes
    have hlists := madtLoop_entries (l := l) hspans hwf
      (fun n _ hn => hheap entries ⟨hheader, hwf, hbytes⟩ n (by simpa using hn)) hrun
    have hempty : AcpiInterfaceData.listOf {} l = [] := by cases l <;> rfl
    rw [hlists, hempty, List.nil_append]

end Spans

section Mcfg

variable {t : AcpiTable} {heap : ℕ → Bool} {fuel n : ℕ} {s : AcpiState}

/-- The first allocations of the table. -/
def AcpiTable.allocations (t : AcpiTable) (n : ℕ) : List (List BYTE) :=
  (List.range n).map fun i => t.bytesAt (tableHeaderSize + mcfgAllocationSize * i) mcfgAllocationSize

/-- The number of allocations that the table has room for. -/
def AcpiTable.mcfgCount (t : AcpiTable) : ℕ := (t.length.toNat - tableHeaderSize) / mcfgAllocationSize

/-- The table is as long as its header and a number of allocations. -/
def AcpiTable.Exact (t : AcpiTable) : Prop :=
  tableHeaderSize ≤ t.length.toNat ∧ mcfgAllocationSize ∣ t.length.toNat - tableHeaderSize

instance (t : AcpiTable) : Decidable t.Exact := inferInstanceAs (Decidable (_ ∧ _))

/-- The state of the loop before the round of an index. -/
def mcfgState (t : AcpiTable) (data : AcpiInterfaceData) (n : ℕ) : AcpiState :=
  ⟨{ data with mcfgList := data.mcfgList ++ t.allocations n }, n⟩

theorem bytesAt_add (t : AcpiTable) (p a b : ℕ) :
    t.bytesAt p (a + b) = t.bytesAt p a ++ t.bytesAt (p + a) b := by
  simp only [AcpiTable.bytesAt, List.range_add, List.map_append, List.map_map, Function.comp_def,
    Nat.add_assoc]

theorem flatten_allocations (t : AcpiTable) (n : ℕ) :
    (t.allocations n).flatten = t.bytesAt tableHeaderSize (mcfgAllocationSize * n) := by
  induction n with
  | zero => rfl
  | succ n ih =>
    rw [Nat.mul_succ, bytesAt_add, ← ih, AcpiTable.allocations, List.range_succ, List.map_append,
      List.flatten_append]
    simp [AcpiTable.allocations]

theorem length_of_exact (h : t.Exact) :
    t.length.toNat = tableHeaderSize + mcfgAllocationSize * t.mcfgCount := by
  obtain ⟨hheader, hdvd⟩ := h
  have hmul := Nat.mul_div_cancel' hdvd
  unfold AcpiTable.mcfgCount
  omega

/-- A table that allocations fill holds no other ones. -/
theorem isMcfg_iff {allocations : List (List BYTE)} :
    t.IsMcfg allocations ↔ t.Exact ∧ allocations = t.allocations t.mcfgCount := by
  have hsizes : ∀ a ∈ t.allocations t.mcfgCount, a.length = mcfgAllocationSize := fun a ha => by
    obtain ⟨i, -, rfl⟩ := List.mem_map.mp ha
    simp [AcpiTable.bytesAt]
  have hlength : (t.allocations t.mcfgCount).length = t.mcfgCount := by simp [AcpiTable.allocations]
  constructor
  · intro h
    obtain ⟨hheader, hall, hbytes⟩ := h
    have htotal : allocations.flatten.length = mcfgAllocationSize * allocations.length := by
      rw [List.length_flatten, List.map_congr_left (g := fun _ => mcfgAllocationSize) hall]
      simp [Nat.mul_comm]
    have hsize : t.length.toNat - tableHeaderSize = mcfgAllocationSize * allocations.length := by
      rw [← htotal, ← hbytes]
      simp [AcpiTable.bytesAt]
    have hcount : t.mcfgCount = allocations.length := by
      rw [AcpiTable.mcfgCount, hsize, Nat.mul_div_cancel_left _ (by decide)]
    refine ⟨⟨hheader, hsize ▸ Nat.dvd_mul_right ..⟩, List.eq_iff_flatten_eq.mpr ⟨?_, ?_⟩⟩
    · rw [← hbytes, hsize, flatten_allocations, hcount]
    · rw [List.map_congr_left (g := fun _ => mcfgAllocationSize) hall,
        List.map_congr_left (g := fun _ => mcfgAllocationSize) hsizes]
      simp [← hcount, hlength]
  · intro h
    obtain ⟨hexact, rfl⟩ := h
    refine ⟨hexact.1, hsizes, ?_⟩
    rw [flatten_allocations, length_of_exact hexact, Nat.add_sub_cancel_left]

theorem mcfgState_allocations (data : AcpiInterfaceData) :
    (mcfgState t data n).allocations = n := rfl

theorem allocations_succ (t : AcpiTable) (n : ℕ) : t.allocations (n + 1) =
    t.allocations n ++ [t.bytesAt (tableHeaderSize + mcfgAllocationSize * n) mcfgAllocationSize] := by
  simp [AcpiTable.allocations, List.range_succ]

/-- The offset of the allocation with an index, up to the first one that is not in the table. -/
theorem toNat_mcfgOffset (h : n ≤ t.mcfgCount) :
    (BitVec.ofNat 32 (mcfgAllocationSize * n)).toNat = mcfgAllocationSize * n := by
  have hlt := t.length.isLt
  have hle := Nat.mul_le_mul_left mcfgAllocationSize h
  have hdiv := Nat.mul_div_le (t.length.toNat - tableHeaderSize) mcfgAllocationSize
  rw [AcpiTable.mcfgCount] at hle
  rw [BitVec.toNat_ofNat, Nat.mod_eq_of_lt (by lia)]

/-- The loop goes on at the index of an allocation, and behind the last one if the table is not exact. -/
theorem mcfgOffset_lt_iff (h : n ≤ t.mcfgCount) :
    BitVec.ofNat 32 (mcfgAllocationSize * n) < t.actualTableLength ↔ n < t.mcfgCount ∨ ¬t.Exact := by
  have hdiv := Nat.div_add_mod (t.length.toNat - tableHeaderSize) mcfgAllocationSize
  have hmod := Nat.mod_lt (t.length.toNat - tableHeaderSize) (show 0 < mcfgAllocationSize by decide)
  have hle := Nat.mul_le_mul_left mcfgAllocationSize h
  have hexact : t.Exact ↔ tableHeaderSize ≤ t.length.toNat ∧
      (t.length.toNat - tableHeaderSize) % mcfgAllocationSize = 0 :=
    and_congr_right fun _ => Nat.dvd_iff_mod_eq_zero
  rw [BitVec.lt_def, toNat_mcfgOffset h, hexact]
  rw [AcpiTable.mcfgCount] at *
  by_cases hheader : tableHeaderSize ≤ t.length.toNat
  · rw [toNat_actualTableLength hheader]
    have hsucc : n < (t.length.toNat - tableHeaderSize) / mcfgAllocationSize ↔
        mcfgAllocationSize * n < mcfgAllocationSize *
          ((t.length.toNat - tableHeaderSize) / mcfgAllocationSize) :=
      (Nat.mul_lt_mul_left (by decide)).symm
    rw [hsucc]
    lia
  · have hzero : n = 0 := by
      rw [Nat.sub_eq_zero_of_le (by omega), Nat.zero_div] at h
      omega
    have hpos : 0 < t.actualTableLength.toNat := by
      have hvalue : (BitVec.ofNat 32 tableHeaderSize).toNat = 44 := rfl
      rw [AcpiTable.actualTableLength, BitVec.toNat_sub, hvalue]
      unfold tableHeaderSize at hheader
      lia
    rw [hzero, Nat.mul_zero]
    exact iff_of_true hpos (.inr fun hboth => hheader hboth.1)

theorem inside_allocation_iff (h : n ≤ t.mcfgCount) :
    t.Inside (tableHeaderSize + mcfgAllocationSize * n) mcfgAllocationSize ↔ n < t.mcfgCount := by
  have hdiv := Nat.div_add_mod (t.length.toNat - tableHeaderSize) mcfgAllocationSize
  have hmod := Nat.mod_lt (t.length.toNat - tableHeaderSize) (show 0 < mcfgAllocationSize by decide)
  have hle := Nat.mul_le_mul_left mcfgAllocationSize h
  rw [← Nat.succ_le_iff, ← Nat.mul_le_mul_left_iff (show 0 < mcfgAllocationSize by decide), Nat.mul_succ]
  unfold AcpiTable.Inside AcpiTable.mcfgCount at *
  unfold mcfgAllocationSize tableHeaderSize at *
  lia

section Rounds

variable {data : AcpiInterfaceData}

/-- The loop from the round of an index on. -/
def mcfgFrom (t : AcpiTable) (heap : ℕ → Bool) (data : AcpiInterfaceData) (fuel n : ℕ) :
    Except Fault (STATUS × AcpiState) :=
  mcfgLoop t heap t.actualTableLength fuel (BitVec.ofNat 32 (mcfgAllocationSize * n)) (mcfgState t data n)

theorem mcfgFrom_next (hn : n < t.mcfgCount) (hheap : heap n = true) :
    mcfgFrom t heap data (fuel + 1) n = mcfgFrom t heap data fuel (n + 1) := by
  have hin := (inside_allocation_iff hn.le).mpr hn
  unfold mcfgFrom
  conv_lhs => unfold mcfgLoop
  rw [if_pos ((mcfgOffset_lt_iff hn.le).mpr (.inl hn)), if_pos (show heap (mcfgState t data n).allocations = true from hheap)]
  simp only [toNat_mcfgOffset hn.le, read_of_inside hin, bind, Except.bind]
  rw [Nat.mul_succ, BitVec.ofNat_add]
  simp only [mcfgState, allocations_succ, List.append_assoc]

theorem mcfgFrom_of_heap (hle : n ≤ t.mcfgCount) (hheap : ∀ i < n, heap i = true) (hfuel : n ≤ fuel) :
    mcfgFrom t heap data fuel 0 = mcfgFrom t heap data (fuel - n) n := by
  induction n with
  | zero => rfl
  | succ n ih =>
    rw [ih (by omega) (fun i hi => hheap i (by omega)) (by omega),
      show fuel - n = fuel - (n + 1) + 1 by lia, mcfgFrom_next hle (hheap n (Nat.lt_succ_self n))]

theorem mcfgFrom_end (hexact : t.Exact) :
    mcfgFrom t heap data (fuel + 1) t.mcfgCount = .ok (statusSuccess, mcfgState t data t.mcfgCount) := by
  refine if_neg fun h => ?_
  rcases (mcfgOffset_lt_iff le_rfl).mp h with hlt | hnot
  · exact lt_irrefl _ hlt
  · exact hnot hexact

theorem mcfgFrom_fails (hle : n ≤ t.mcfgCount) (hmore : n < t.mcfgCount ∨ ¬t.Exact)
    (hheap : heap n = false) :
    mcfgFrom t heap data (fuel + 1) n = .ok (statusHeapNoMoreMemory, mcfgState t data n) := by
  unfold mcfgFrom mcfgLoop
  rw [if_pos ((mcfgOffset_lt_iff hle).mpr hmore)]
  exact if_neg (by rw [mcfgState_allocations, hheap]; decide)

theorem mcfgFrom_outside (hexact : ¬t.Exact) (hheap : heap t.mcfgCount = true) :
    mcfgFrom t heap data (fuel + 1) t.mcfgCount = .error .danglingAccess := by
  have hout := (not_congr (inside_allocation_iff (t := t) le_rfl)).mpr (lt_irrefl _)
  unfold mcfgFrom mcfgLoop
  rw [if_pos ((mcfgOffset_lt_iff le_rfl).mpr (.inr hexact)),
    if_pos (show heap (mcfgState t data t.mcfgCount).allocations = true from hheap)]
  simp only [toNat_mcfgOffset le_rfl, read_of_not_inside hout, bind, Except.bind]

/-- A loop that returns has had a round for every allocation that there was memory for. -/
theorem lt_of_mcfgFrom {r : STATUS × AcpiState} (h : mcfgFrom t heap data fuel 0 = .ok r)
    (hle : n ≤ t.mcfgCount) (hheap : ∀ i < n, heap i = true) : n < fuel := by
  by_contra hnot
  rw [mcfgFrom_of_heap (n := fuel) (by omega) (fun i hi => hheap i (by omega)) le_rfl, Nat.sub_self] at h
  cases h

end Rounds

theorem acpiInterfaceParseMcfg_eq {data : AcpiInterfaceData} (h : t.Inside 4 4) :
    acpiInterfaceParseMcfg heap fuel ⟨{ data with mcfgList := [] }, 0⟩ (.table t) =
      mcfgFrom t heap { data with mcfgList := [] } fuel 0 := by
  simp only [acpiInterfaceParseMcfg, read_of_inside h, bind, Except.bind]
  rfl

/-- There is memory for the allocations of an exact table, and too little to come to the end of another. -/
def AcpiTable.McfgReadable (t : AcpiTable) (heap : ℕ → Bool) : Prop := t.Inside 4 4 ∧
  (t.Exact ∧ (∀ n < t.mcfgCount, heap n = true) ∨ ¬t.Exact ∧ ∃ n ≤ t.mcfgCount, heap n = false)

section Outcomes

variable {data : AcpiInterfaceData}

/-- Without memory for an allocation the parser is right if the table has none of its own to show. -/
theorem parsesMcfg_of_fails (hlength : t.Inside 4 4) (hle : n ≤ t.mcfgCount)
    (hbefore : ∀ i < n, heap i = true) (hheap : heap n = false) (hmore : n < t.mcfgCount ∨ ¬t.Exact) :
    ParsesMcfg t heap data ↔ ¬t.Exact := by
  have hrun : ∀ fuel, n < fuel → mcfgFrom t heap { data with mcfgList := [] } fuel 0 =
      .ok (statusHeapNoMoreMemory, mcfgState t { data with mcfgList := [] } n) := fun fuel hfuel => by
    rw [mcfgFrom_of_heap hle hbefore hfuel.le, show fuel - n = fuel - (n + 1) + 1 by lia]
    exact mcfgFrom_fails hle hmore hheap
  constructor
  · intro h hexact
    obtain ⟨fuel, status, s, hok, hlist⟩ := h
    rw [acpiInterfaceParseMcfg_eq hlength] at hok
    rw [hrun fuel (lt_of_mcfgFrom hok hle hbefore)] at hok
    obtain ⟨-, rfl⟩ := Prod.mk.inj (Except.ok.inj hok)
    have hsame := congrArg (fun d => d.mcfgList.length) (hlist _ (isMcfg_iff.mpr ⟨hexact, rfl⟩))
    simp only [mcfgState, AcpiTable.allocations, List.nil_append, List.length_map,
      List.length_range] at hsame
    have hlt := hmore.resolve_right (not_not.mpr hexact)
    omega
  · intro hexact
    refine ⟨n + 1, _, _, (acpiInterfaceParseMcfg_eq hlength).trans (hrun _ (Nat.lt_succ_self n)),
      fun a ha => ?_⟩
    exact absurd (isMcfg_iff.mp ha).1 hexact

/-- With memory for as many allocations as the loop asks for. -/
theorem parsesMcfg_of_heap (hlength : t.Inside 4 4) (hall : ∀ i < t.mcfgCount, heap i = true)
    (hlast : ¬t.Exact → heap t.mcfgCount = true) : ParsesMcfg t heap data ↔ t.Exact := by
  have hend : ∀ fuel, t.mcfgCount < fuel → mcfgFrom t heap { data with mcfgList := [] } fuel 0 =
      mcfgFrom t heap { data with mcfgList := [] } (fuel - (t.mcfgCount + 1) + 1) t.mcfgCount :=
    fun fuel hfuel => by
      rw [mcfgFrom_of_heap le_rfl hall hfuel.le,
        show fuel - t.mcfgCount = fuel - (t.mcfgCount + 1) + 1 by lia]
  constructor
  · intro h
    by_contra hexact
    obtain ⟨fuel, status, s, hok, -⟩ := h
    rw [acpiInterfaceParseMcfg_eq hlength] at hok
    rw [hend fuel (lt_of_mcfgFrom hok le_rfl hall), mcfgFrom_outside hexact (hlast hexact)] at hok
    cases hok
  · intro hexact
    refine ⟨t.mcfgCount + 1, _, _, (acpiInterfaceParseMcfg_eq hlength).trans
      ((hend _ (Nat.lt_succ_self _)).trans (mcfgFrom_end hexact)), fun a ha => ?_⟩
    rw [(isMcfg_iff.mp ha).2]
    rfl

end Outcomes

theorem parsesMcfg_iff (t : AcpiTable) (heap : ℕ → Bool) (data : AcpiInterfaceData) :
    ParsesMcfg t heap data ↔ t.McfgReadable heap := by
  by_cases hlength : t.Inside 4 4
  swap
  · refine iff_of_false (fun h => ?_) fun h => hlength h.1
    obtain ⟨fuel, status, s, hrun, -⟩ := h
    simp only [acpiInterfaceParseMcfg, read_of_not_inside hlength, bind, Except.bind] at hrun
    cases hrun
  refine Iff.trans ?_ (and_iff_right hlength).symm
  by_cases hfails : ∃ n ≤ t.mcfgCount, heap n = false ∧ (n < t.mcfgCount ∨ ¬t.Exact)
  · obtain ⟨hle, hheap, hmore⟩ := Nat.find_spec hfails
    have hbefore : ∀ i < Nat.find hfails, heap i = true := fun i hi => by
      by_contra hnot
      exact Nat.find_min hfails hi ⟨by omega, Bool.eq_false_iff.mpr hnot, by omega⟩
    rw [parsesMcfg_of_fails hlength hle hbefore hheap hmore]
    constructor
    · intro hexact
      exact .inr ⟨hexact, _, hle, hheap⟩
    · intro h hexact
      obtain ⟨-, hall⟩ := h.resolve_right fun hboth => hboth.1 hexact
      rw [hall _ (hmore.resolve_right (not_not.mpr hexact))] at hheap
      cases hheap
  · have htrue : ∀ n ≤ t.mcfgCount, (n < t.mcfgCount ∨ ¬t.Exact) → heap n = true :=
      fun n hle hmore => by
        by_contra hnot
        exact hfails ⟨n, hle, Bool.eq_false_iff.mpr hnot, hmore⟩
    rw [parsesMcfg_of_heap hlength (fun n hn => htrue n hn.le (.inl hn))
      fun hexact => htrue _ le_rfl (.inr hexact)]
    constructor
    · intro hexact
      exact .inl ⟨hexact, fun n hn => htrue n hn.le (.inl hn)⟩
    · intro h
      by_contra hexact
      obtain ⟨n, hle, hheap⟩ := (h.resolve_left fun hboth => hexact hboth.1).2
      exact hfails ⟨n, hle, hheap, .inr hexact⟩

end Mcfg

/-- Both tables, whatever `data` the MADT has left. -/
def ParsesTables (madt mcfg : AcpiTable) (heap heap' : ℕ → Bool) (data : AcpiInterfaceData) : Prop :=
  ParsesMadt madt heap ∧ ParsesMcfg mcfg heap' data

theorem parsesTables_iff (madt mcfg : AcpiTable) (heap heap' : ℕ → Bool) (data : AcpiInterfaceData) :
    ParsesTables madt mcfg heap heap' data ↔ madt.MadtReadable heap ∧ mcfg.McfgReadable heap' :=
  and_congr (parsesMadt_iff madt heap) (parsesMcfg_iff mcfg heap' data)

/-- A MADT of 46 bytes whose only entry, of type 3, has the length 0. -/
def zeroLengthEntry : AcpiTable where
  byteAt p := if p = 4 then 46 else if p = 44 then 3 else 0

/-- An MCFG without allocations. -/
def emptyMcfg : AcpiTable where
  byteAt p := if p = 4 then 44 else 0

/-- The parser stays at the entry. -/
theorem not_parsesTables : ¬ParsesTables zeroLengthEntry emptyMcfg (fun _ => true) (fun _ => true) {} := by
  intro h
  obtain ⟨⟨fuel, status, s, hrun, -⟩, -⟩ := h
  rw [acpiInterfaceParseMadt_eq (by decide)] at hrun
  have hends : Walk.Ends (zeroLengthEntry.nextEntry fun _ => true) (0, 0) :=
    ⟨fuel, (madtLoop_returns_iff.mp ⟨_, hrun⟩).1⟩
  have hstay : zeroLengthEntry.nextEntry (fun _ => true) (0, 0) = some (0, 0) := by decide
  exact Walk.not_neverRepeats_of_loop hstay hends.neverRepeats

end HAL9000.Io
