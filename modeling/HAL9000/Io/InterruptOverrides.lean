import HAL9000.Io.Interrupts

/-! The arrays that `ioapic_system.c` makes of the interrupt overrides and of the PCI routing tables. Both
routines pass twice over their list, and both keep the count of the first pass in
`NoOfInterruptOverrides`. -/
namespace HAL9000.Interrupts

open Program

structure AcpiMadtInterruptOverride where
  bus : BYTE
  sourceIrq : BYTE
  globalIrq : DWORD
  intiFlags : WORD
  deriving DecidableEq, Repr

/-- `source` is its first four bytes. -/
structure AcpiPciRoutingTable where
  pin : DWORD
  address : QWORD
  sourceIndex : DWORD
  source : DWORD
  deriving DecidableEq, Repr

/-- An element of `PrtList`. -/
structure AcpiPrtEntry where
  data : AcpiPciRoutingTable
  segmentNumber : WORD
  busNumber : BYTE
  deriving DecidableEq, Repr

structure PciDeviceLocation where
  bus : BYTE
  device : BYTE
  function : BYTE
  deriving DecidableEq, Repr

structure IoApicPrtEntry where
  deviceLocation : PciDeviceLocation
  ioApicLine : DWORD
  interruptPin : BYTE
  deriving DecidableEq, Repr

/-- `m_ioApicData`, without the version and the mask. An array pointer may be `NULL`. -/
structure IoApicSystemData where
  apicList : List IoApicEntry := []
  noOfInterruptOverrides : DWORD := 0
  interruptOverrides : Option (List IoApicInterruptOverride) := none
  noOfPrtEntries : DWORD := 0
  prtEntries : Option (List IoApicPrtEntry) := none
  deriving DecidableEq, Repr

abbrev Setup := Prog IoApicSystemData Status Fault

/-- `sizeof(IO_APIC_INTERRUPT_OVERRIDE)`, which is also `sizeof(IO_APIC_PRT_ENTRY)`. -/
def elementSize : ℕ := 12

section TwoPasses

variable {α β : Type} (check : α → Except Fault Unit) (convert : α → Except Fault β)

/-- The first pass. The count is 32 bits wide. -/
def countPass : List α → DWORD → Except Fault DWORD
  | [], n => .ok n
  | e :: entries, n => do
    check e
    countPass entries (n + 1)

/-- The second pass fills the array. -/
def fillPass : List α → DWORD → List β → Except Fault (DWORD × List β)
  | [], n, array => .ok (n, array)
  | e :: entries, n, array => do
    check e
    if n.toNat < array.length then do
      let element ← convert e
      fillPass entries (n + 1) (array.set n.toNat element)
    else .error .danglingAccess

/-- The elements that fit into the allocation, whose size is 32 bits wide. -/
def capacity (count : DWORD) : ℕ := elementSize * count.toNat % 2 ^ 32 / elementSize

/-- Both routines: `check` is asserted in both passes, and `store` sets what the routine leaves. -/
def retrieveEntries (zero : β) (store : DWORD → Option (List β) → IoApicSystemData → IoApicSystemData)
    (entries : List α) (heap : Bool) : Setup Unit := do
  Prog.modify fun d => { d with noOfInterruptOverrides := 0 }
  let count ← Prog.lift (countPass check entries 0)
  Prog.modify fun d => { d with noOfInterruptOverrides := count }
  if count = 0 then Prog.modify (store 0 none)
  else if heap then do
    let (n, array) ← Prog.lift (fillPass check convert entries 0 (List.replicate (capacity count) zero))
    Prog.lift (assertThat (n = count))
    Prog.modify (store n (some array))
  else Prog.fail .heapInsufficientResources

end TwoPasses

/-- `IsBooleanFlagOn`. -/
def isBooleanFlagOn (x f : WORD) : Bool := f == x &&& f

def AcpiMadtInterruptOverride.toEntry (e : AcpiMadtInterruptOverride) : IoApicInterruptOverride where
  sourceIrq := e.sourceIrq
  destinationIrq := e.globalIrq.setWidth 8
  triggerMode := if isBooleanFlagOn e.intiFlags 0b1000 then .level else .edge
  pinPolarity := if isBooleanFlagOn e.intiFlags 0b10 then .activeLow else .activeHigh

def ioApicSystemRetrieveInterruptOverrides : List AcpiMadtInterruptOverride → Bool → Setup Unit :=
  retrieveEntries (fun _ => .ok ())
    (fun e => do
      assertThat (e.globalIrq ≤ 0xFF)
      assertThat (e.bus = 0)
      .ok e.toEntry)
    ⟨0, 0, .edge, .activeHigh⟩
    fun n array d => { d with noOfInterruptOverrides := n, interruptOverrides := array }

/-- The pins of a device count from 1. -/
def AcpiPrtEntry.toEntry (e : AcpiPrtEntry) : IoApicPrtEntry where
  deviceLocation := ⟨e.busNumber, (e.data.address >>> 16).setWidth 8, e.data.address.setWidth 8⟩
  ioApicLine := e.data.sourceIndex
  interruptPin := e.data.pin.setWidth 8 + 1

def ioApicSystemRetrievePrtEntries : List AcpiPrtEntry → Bool → Setup Unit :=
  retrieveEntries (fun e => assertThat (e.segmentNumber = 0))
    (fun e => do
      assertThat (e.data.source = 0)
      .ok e.toEntry)
    ⟨⟨0, 0, 0⟩, 0, 0⟩
    fun n array d => { d with noOfPrtEntries := n, prtEntries := array }

/-- What `_IoApicSystemRetrieveIoApics` finds is an input. -/
def ioApicSystemInit (retrieved : Except Status (List IoApicEntry))
    (overrides : List AcpiMadtInterruptOverride) (heap : Bool) : Setup Unit := do
  match retrieved with
  | .error e => Prog.fail e
  | .ok apicList => do
    Prog.modify fun d => { d with apicList := apicList }
    ioApicSystemRetrieveInterruptOverrides overrides heap

def ioApicLateSystemInit : List AcpiPrtEntry → Bool → Setup Unit := ioApicSystemRetrievePrtEntries

namespace IoApicSystemData

/-- The loop of `_IoApicReturnInterruptOverrideForIrq` after a number of rounds. -/
def overrideLoop (d : IoApicSystemData) (irq : BYTE) :
    ℕ → Except Fault (Option IoApicInterruptOverride)
  | 0 => .ok none
  | i + 1 => do
    let result ← overrideLoop d irq i
    match d.interruptOverrides with
    | none => .error .assertFailed
    | some array =>
      match array[i]? with
      | none => .error .danglingAccess
      | some entry => .ok (if entry.sourceIrq = irq then some entry else result)

def returnInterruptOverrideForIrq (d : IoApicSystemData) (irq : BYTE) :
    Except Fault (Option IoApicInterruptOverride) :=
  d.overrideLoop irq d.noOfInterruptOverrides.toNat

/-- The first IO APIC that handles a line, and the pin. -/
def pinOf (apicList : List IoApicEntry) (finalIrq : BYTE) : Option Pin :=
  let handles (apic : IoApicEntry) : Bool := checkBounds (finalIrq.setWidth 64) 1
    (apic.irqBase.setWidth 64) (apic.maximumRedirectionEntry.setWidth 64 + 1)
  (apicList.findIdx? handles).map fun i => ⟨i, finalIrq - (apicList.getD i ⟨0, 0⟩).irqBase⟩

/-- `_IoApicSystemGetIoApicForIrq` gives the pin for the line and the override that it has used. -/
def getIoApicForIrq (d : IoApicSystemData) (irq : BYTE) :
    Except Fault (Option Pin × Option IoApicInterruptOverride) := do
  let override ← d.returnInterruptOverrideForIrq irq
  let finalIrq := match override with
    | some entry => entry.destinationIrq
    | none => irq
  .ok (pinOf d.apicList finalIrq, override)

end IoApicSystemData

/-- The last override with a source. -/
def lastOverride (overrides : List AcpiMadtInterruptOverride) (irq : BYTE) :
    Option AcpiMadtInterruptOverride := (overrides.filter (·.sourceIrq = irq)).getLast?

/-- The line as the overrides translate it. -/
def translate (overrides : List AcpiMadtInterruptOverride) (irq : BYTE) : BYTE :=
  match lastOverride overrides irq with
  | some e => e.globalIrq.setWidth 8
  | none => irq

/-- The count is that of the overrides, the search for an override returns, and each line is translated
through its last override. -/
def OverridesSurvive (overrides : List AcpiMadtInterruptOverride) (d : IoApicSystemData) : Prop :=
  d.noOfInterruptOverrides.toNat = overrides.length ∧
    (∀ irq, ∃ result, d.returnInterruptOverrideForIrq irq = .ok result) ∧
    ∀ irq, d.getIoApicForIrq irq = .ok (IoApicSystemData.pinOf d.apicList (translate overrides irq),
      (lastOverride overrides irq).map (·.toEntry))

/-- Both stages of the start-up. -/
def startInterrupts (retrieved : Except Status (List IoApicEntry))
    (overrides : List AcpiMadtInterruptOverride) (prts : List AcpiPrtEntry) (heap heap' : Bool) :
    Setup Unit := do
  ioApicSystemInit retrieved overrides heap
  ioApicLateSystemInit prts heap'

section TwoPasses

variable {α β : Type} {check : α → Except Fault Unit} {convert : α → Except Fault β} {conv : α → β}
  {entries : List α}

theorem countPass_ok {n m : DWORD} (h : countPass check entries n = .ok m) :
    m = n + BitVec.ofNat 32 entries.length := by
  induction entries generalizing n with
  | nil => simpa [countPass] using (Except.ok.inj h).symm
  | cons e entries ih =>
    obtain ⟨-, -, hrest⟩ := bind_eq_ok.mp h
    rw [ih hrest, List.length_cons, Nat.add_comm entries.length, BitVec.ofNat_add]
    simp only [BitVec.add_assoc]
    rfl

/-- A second pass that does not leave the array has filled it from the index on. -/
theorem fillPass_ok (hconvert : ∀ e b, convert e = .ok b → b = conv e) {n m : DWORD}
    {array array' : List β} (hsize : array.length < 2 ^ 32)
    (h : fillPass check convert entries n array = .ok (m, array')) :
    n.toNat ≤ array.length → n.toNat + entries.length ≤ array.length ∧
      array' = array.take n.toNat ++ entries.map conv ++ array.drop (n.toNat + entries.length) := by
  intro hn
  induction entries generalizing n array with
  | nil =>
    obtain ⟨-, rfl⟩ := Prod.mk.inj (Except.ok.inj h)
    simpa using hn
  | cons e entries ih =>
    obtain ⟨-, -, hrest⟩ := bind_eq_ok.mp h
    split_ifs at hrest with hlt
    obtain ⟨b, hb, hrest⟩ := bind_eq_ok.mp hrest
    have hnext : (n + 1).toNat = n.toNat + 1 := by
      rw [BitVec.toNat_add, show (1 : DWORD).toNat = 1 from rfl, Nat.mod_eq_of_lt (by omega)]
    obtain ⟨hle, harray⟩ := ih (by rwa [List.length_set]) hrest (by rw [List.length_set]; omega)
    rw [List.length_set, hnext] at hle
    refine ⟨by rw [List.length_cons]; omega, ?_⟩
    have htake : (array.set n.toNat b).take (n.toNat + 1) = array.take n.toNat ++ [b] := by
      rw [← List.take_append_getElem (by simpa using hlt), List.take_set_of_le le_rfl]
      simp
    rw [harray, hnext, htake, List.drop_set_of_lt (by omega), hconvert e b hb, List.length_cons,
      List.map_cons, Nat.add_assoc, Nat.add_comm 1]
    simp

theorem capacity_le (count : DWORD) : capacity count ≤ count.toNat := by
  have hmod := Nat.mod_le (elementSize * count.toNat) (2 ^ 32)
  unfold capacity
  calc elementSize * count.toNat % 2 ^ 32 / elementSize
      ≤ elementSize * count.toNat / elementSize := Nat.div_le_div_right hmod
    _ = count.toNat := Nat.mul_div_cancel_left _ (by decide)

/-- The array has an element for each entry, or there is none because the count is 0. -/
def Retrieved (array : Option (List β)) (made : List β) : Prop :=
  array = none ∧ made.length % 2 ^ 32 = 0 ∨ array = some made ∧ made.length < 2 ^ 32

/-- What either routine has done when it succeeds. -/
theorem retrieveEntries_triple (conv : α → β) (hconvert : ∀ e b, convert e = .ok b → b = conv e) (zero : β)
    (store : DWORD → Option (List β) → IoApicSystemData → IoApicSystemData) (heap : Bool)
    (d : IoApicSystemData) :
    Triple (· = d) (retrieveEntries check convert zero store entries heap)
      (fun _ d' => ∃ array, Retrieved array (entries.map conv) ∧
        d' = store (BitVec.ofNat 32 entries.length) array
          { d with noOfInterruptOverrides := BitVec.ofNat 32 entries.length })
      fun _ => True := by
  unfold retrieveEntries
  refine Triple.bind (Q := fun _ d' => d' = { d with noOfInterruptOverrides := 0 })
    (Triple.modify fun _ h => h ▸ rfl) fun _ => ?_
  refine Triple.bind (Q := fun count d' => count = BitVec.ofNat 32 entries.length ∧
    d' = { d with noOfInterruptOverrides := 0 }) (Triple.lift fun count _ hcount h => ?_) fun count => ?_
  · refine ⟨?_, h⟩
    rw [countPass_ok hcount]
    exact BitVec.zero_add _
  refine Triple.assume fun hcount => ?_
  refine Triple.bind (Q := fun _ d' => d' = { d with noOfInterruptOverrides := count })
    (Triple.modify fun _ h => h ▸ rfl) fun _ => ?_
  subst hcount
  refine Triple.ite (fun hzero => Triple.modify fun _ h => ?_) fun hzero => ?_
  · subst h
    refine ⟨none, .inl ⟨rfl, ?_⟩, ?_⟩
    · have := congrArg BitVec.toNat hzero
      rwa [BitVec.toNat_ofNat, ← List.length_map conv] at this
    · rw [hzero]
  refine Triple.ite (fun _ => ?_) fun _ => Triple.fail fun _ _ => trivial
  refine Triple.bind (Q := fun r d' => fillPass check convert entries 0
      (List.replicate (capacity (BitVec.ofNat 32 entries.length)) zero) = .ok r ∧
    d' = { d with noOfInterruptOverrides := BitVec.ofNat 32 entries.length })
    (Triple.lift fun r _ hr h => ⟨hr, h⟩) fun r => ?_
  refine Triple.assume fun hfill => ?_
  obtain ⟨n, array⟩ := r
  refine Triple.bind (Q := fun _ d' => n = BitVec.ofNat 32 entries.length ∧
    d' = { d with noOfInterruptOverrides := BitVec.ofNat 32 entries.length })
    (Triple.lift fun _ _ hn h => ⟨assertThat_eq_ok.mp hn, h⟩) fun _ => Triple.modify fun _ h => ?_
  obtain ⟨rfl, rfl⟩ := h
  have hcapacity := capacity_le (BitVec.ofNat 32 entries.length)
  have hlt := (BitVec.ofNat 32 entries.length).isLt
  obtain ⟨hle, harray⟩ := fillPass_ok hconvert (by rw [List.length_replicate]; omega) hfill (by simp)
  rw [List.length_replicate] at hle
  have hentries : entries.length < 2 ^ 32 := by
    have hzero : (0 : DWORD).toNat = 0 := rfl
    lia
  have hcount : (BitVec.ofNat 32 entries.length).toNat = entries.length := by
    rw [BitVec.toNat_ofNat, Nat.mod_eq_of_lt hentries]
  refine ⟨some array, .inr ⟨congrArg some ?_, by rwa [List.length_map]⟩, rfl⟩
  rw [harray]
  have hzero : (0 : DWORD).toNat = 0 := rfl
  simp [show capacity (BitVec.ofNat 32 entries.length) ≤ entries.length by omega]

end TwoPasses

section Search

variable {d : IoApicSystemData} {irq : BYTE} {overrides : List AcpiMadtInterruptOverride} {n : ℕ}

/-- As long as the count does not pass the array, the loop finds the last entry before it. -/
theorem overrideLoop_ok (hn : n ≤ (d.interruptOverrides.getD []).length) :
    d.overrideLoop irq n =
      .ok (((d.interruptOverrides.getD []).take n).reverse.find? (·.sourceIrq = irq)) := by
  induction n with
  | zero => rfl
  | succ n ih =>
    cases harray : d.interruptOverrides with
    | none =>
      rw [harray] at hn
      exact absurd hn (by simp)
    | some array =>
      rw [harray, Option.getD_some] at hn ih
      rw [IoApicSystemData.overrideLoop, ih (by omega), harray, Option.getD_some]
      have hget : array[n]? = some array[n] := List.getElem?_eq_getElem (by omega)
      rw [← List.take_append_getElem (by omega), List.reverse_append, List.reverse_singleton,
        List.singleton_append, List.find?_cons]
      simp only [bind, Except.bind, hget]
      by_cases hsource : array[n].sourceIrq = irq <;> simp [hsource]

theorem lastOverride_eq_find? : lastOverride overrides irq =
    overrides.reverse.find? (·.sourceIrq = irq) := by
  rw [lastOverride, List.getLast?_eq_head?_reverse, ← List.filter_reverse, List.head?_filter]

/-- The search over the array of all overrides. -/
theorem find?_toEntry : (overrides.map (·.toEntry)).reverse.find? (·.sourceIrq = irq) =
    (lastOverride overrides irq).map (·.toEntry) := by
  rw [lastOverride_eq_find?, ← List.map_reverse, List.find?_map]
  rfl

theorem getIoApicForIrq_eq
    (h : d.returnInterruptOverrideForIrq irq = .ok ((lastOverride overrides irq).map (·.toEntry))) :
    d.getIoApicForIrq irq = .ok (IoApicSystemData.pinOf d.apicList (translate overrides irq),
      (lastOverride overrides irq).map (·.toEntry)) := by
  unfold IoApicSystemData.getIoApicForIrq translate
  rw [h]
  cases lastOverride overrides irq <;> rfl

end Search

theorem ioApicSystemRetrieveInterruptOverrides_triple (overrides : List AcpiMadtInterruptOverride)
    (heap : Bool) (d : IoApicSystemData) :
    Triple (· = d) (ioApicSystemRetrieveInterruptOverrides overrides heap)
      (fun _ d' => Retrieved d'.interruptOverrides (overrides.map (·.toEntry))) fun _ => True := by
  unfold ioApicSystemRetrieveInterruptOverrides
  refine (retrieveEntries_triple AcpiMadtInterruptOverride.toEntry ?_ _ _ heap d).conseq
    (fun _ => id) (fun _ d' hd => ?_) fun _ => id
  · intro e b hb
    obtain ⟨-, -, hb⟩ := bind_eq_ok.mp hb
    obtain ⟨-, -, hb⟩ := bind_eq_ok.mp hb
    exact (Except.ok.inj hb).symm
  · obtain ⟨array, harray, rfl⟩ := hd
    exact harray

/-- The second stage leaves the array of overrides and counts its own entries in the count of overrides. -/
theorem ioApicSystemRetrievePrtEntries_triple (prts : List AcpiPrtEntry) (heap : Bool)
    (d : IoApicSystemData) :
    Triple (· = d) (ioApicSystemRetrievePrtEntries prts heap)
      (fun _ d' => d'.interruptOverrides = d.interruptOverrides ∧
        d'.noOfInterruptOverrides = BitVec.ofNat 32 prts.length) fun _ => True := by
  unfold ioApicSystemRetrievePrtEntries
  refine (retrieveEntries_triple AcpiPrtEntry.toEntry ?_ _ _ heap d).conseq
    (fun _ => id) (fun _ d' hd => ?_) fun _ => id
  · intro e b hb
    obtain ⟨-, -, hb⟩ := bind_eq_ok.mp hb
    exact (Except.ok.inj hb).symm
  · obtain ⟨array, -, rfl⟩ := hd
    exact ⟨rfl, rfl⟩

/-- What the two stages leave of the overrides. -/
theorem startInterrupts_ok {retrieved : Except Status (List IoApicEntry)}
    {overrides : List AcpiMadtInterruptOverride} {prts : List AcpiPrtEntry} {heap heap' : Bool}
    {d : IoApicSystemData} (h : startInterrupts retrieved overrides prts heap heap' {} = .ok (.ok (), d)) :
    Retrieved d.interruptOverrides (overrides.map (·.toEntry)) ∧
      d.noOfInterruptOverrides = BitVec.ofNat 32 prts.length := by
  have htriple : Triple (· = {}) (startInterrupts retrieved overrides prts heap heap')
      (fun _ d' => Retrieved d'.interruptOverrides (overrides.map (·.toEntry)) ∧
        d'.noOfInterruptOverrides = BitVec.ofNat 32 prts.length) fun _ => True := by
    refine Triple.bind (Q := fun _ d' => Retrieved d'.interruptOverrides (overrides.map (·.toEntry)))
      ?_ fun _ => ?_
    · cases retrieved with
      | error e => exact Triple.fail fun _ _ => trivial
      | ok apicList =>
        refine Triple.bind (Q := fun _ d' => d' = { apicList := apicList })
          (Triple.modify fun _ h => h ▸ rfl) fun _ => ?_
        exact ioApicSystemRetrieveInterruptOverrides_triple overrides heap _
    · intro d₁ r d₂ hd₁ hrun
      have hlate := ioApicSystemRetrievePrtEntries_triple prts heap' d₁ d₁ r d₂ rfl hrun
      cases r with
      | error e => trivial
      | ok u => exact ⟨hlate.1 ▸ hd₁, hlate.2⟩
  exact htriple {} _ d rfl h

/-- The overrides survive the second stage exactly if there are as many of them as routing table entries. -/
theorem overridesSurvive_iff {retrieved : Except Status (List IoApicEntry)}
    {overrides : List AcpiMadtInterruptOverride} {prts : List AcpiPrtEntry} {heap heap' : Bool}
    {d : IoApicSystemData} (h : startInterrupts retrieved overrides prts heap heap' {} = .ok (.ok (), d)) :
    OverridesSurvive overrides d ↔ prts.length % 2 ^ 32 = overrides.length := by
  obtain ⟨harray, hcount⟩ := startInterrupts_ok h
  have hvalue : d.noOfInterruptOverrides.toNat = prts.length % 2 ^ 32 := by
    rw [hcount, BitVec.toNat_ofNat]
  constructor
  · intro hsurvive
    rw [← hvalue]
    exact hsurvive.1
  · intro hlength
    have hentries : d.interruptOverrides.getD [] = overrides.map (·.toEntry) := by
      rcases harray with ⟨hnone, hzero⟩ | ⟨hsome, -⟩
      · rw [List.length_map] at hzero
        have hempty : overrides = [] := List.eq_nil_of_length_eq_zero (by lia)
        rw [hnone, hempty]
        rfl
      · rw [hsome]
        rfl
    have hn : d.noOfInterruptOverrides.toNat = (d.interruptOverrides.getD []).length := by
      rw [hvalue, hentries, hlength, List.length_map]
    have hsearch : ∀ irq, d.returnInterruptOverrideForIrq irq =
        .ok ((lastOverride overrides irq).map (·.toEntry)) := fun irq => by
      rw [IoApicSystemData.returnInterruptOverrideForIrq, overrideLoop_ok hn.le, hn, List.take_length,
        hentries, find?_toEntry]
    exact ⟨hvalue.trans hlength, fun irq => ⟨_, hsearch irq⟩, fun irq => getIoApicForIrq_eq (hsearch irq)⟩

/-- The override that most machines have: the timer is at line 2. -/
def timerOverride : AcpiMadtInterruptOverride where
  bus := 0
  sourceIrq := 0
  globalIrq := 2
  intiFlags := 0

def networkPrt : AcpiPrtEntry where
  data := ⟨0, 0x3FFFF, 16, 0⟩
  segmentNumber := 0
  busNumber := 0

/-- The state after both stages with one override and a number of entries of the device. -/
def timerData (prts : ℕ) : IoApicSystemData where
  apicList := [⟨0, 23⟩]
  noOfInterruptOverrides := BitVec.ofNat 32 prts
  interruptOverrides := some [timerOverride.toEntry]
  noOfPrtEntries := BitVec.ofNat 32 prts
  prtEntries := if prts = 0 then none else some (List.replicate prts networkPrt.toEntry)

theorem startInterrupts_timer :
    startInterrupts (.ok [⟨0, 23⟩]) [timerOverride] [networkPrt] true true {} = .ok (.ok (), timerData 1) := rfl

/-- With one routing table entry, the timer is still at line 2. -/
theorem timer_overridesSurvive : OverridesSurvive [timerOverride] (timerData 1) :=
  (overridesSurvive_iff startInterrupts_timer).mpr rfl

/-- Without routing table entries both stages succeed, and the timer override is forgotten. -/
theorem not_overridesSurvive :
    startInterrupts (.ok [⟨0, 23⟩]) [timerOverride] [] true true {} = .ok (.ok (), timerData 0) ∧
      ¬OverridesSurvive [timerOverride] (timerData 0) :=
  ⟨rfl, fun h => absurd h.1 (by decide)⟩

end HAL9000.Interrupts
