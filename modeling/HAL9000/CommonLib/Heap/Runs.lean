import HAL9000.CommonLib.Heap.Calls
import HAL9000.CommonLib.Heap.Free
import HAL9000.Lib.Run
import Mathlib.Order.Interval.Set.Basic

/-! Sequences of allocation and free calls on one heap: the layout invariant and the restart
position of the gap search. -/
namespace HAL9000.Heap

open Run

instance (req : Request) : Decidable req.Valid :=
  decidable_of_iff (req.tag ≠ 0 ∧
    (req.allocationAlignment = 0 ∨ ∃ k < 32, req.allocationAlignment.toNat = 2 ^ k)) <| by
  refine and_congr_right fun _ => or_congr_right ⟨fun ⟨k, _, hk⟩ => ⟨k, hk⟩, fun ⟨k, hk⟩ => ?_⟩
  have hlt := req.allocationAlignment.isLt
  rw [hk] at hlt
  exact ⟨k, (Nat.pow_lt_pow_iff_right (by norm_num)).mp hlt, hk⟩

instance (h : HeapHeader) : Decidable (CursorLive h) :=
  match hc : h.entryToRestartSearch with
  | .head => .isTrue (by simp [CursorLive, hc])
  | .entry a =>
    decidable_of_iff (∃ e ∈ h.heapAllocations, e.address = a) (by simp [CursorLive, hc])

instance (req : Request) (l : List HeapEntry) : Decidable (HasFit req l) :=
  decidable_of_iff _ firstGap_isSome_iff

inductive Call
  | allocate (req : Request)
  | free (memoryAddress : QWORD) (tag : DWORD)
  deriving DecidableEq, Repr

/-- Allocations have a tag and an alignment of zero or a power of two; frees name the data of
a live entry and its tag. -/
def Call.Valid (h : HeapHeader) : Call → Prop
  | .allocate req => req.Valid
  | .free memoryAddress tag =>
    ∃ e ∈ h.heapAllocations, memoryAddress = e.address + sizeofHeapEntry ∧ tag = e.tag

instance (h : HeapHeader) (c : Call) : Decidable (c.Valid h) :=
  match c with
  | .allocate req => inferInstanceAs (Decidable req.Valid)
  | .free _ _ => List.decidableBEx _ _

def perform (h : HeapHeader) : Call → Except Fault HeapHeader
  | .allocate req => (clHeapAllocatePoolWithTag h req).map (·.1)
  | .free memoryAddress tag => clHeapFreePoolWithTag h memoryAddress tag

/-- The header after a valid call that returns. -/
def next (h : HeapHeader) (c : Call) : Option HeapHeader :=
  if c.Valid h then (perform h c).toOption else none

/-- `h` is reached from the heap of size `mem` at `base` by the calls of `tr`, none of which
hit an `ASSERT` or started a search at a dangling position. The memory handed to
`ClHeapInit` is a region below 4 GiB inside the address space. -/
structure Reaches (base mem : QWORD) (tr : List (HeapHeader × Call)) (h : HeapHeader) : Prop where
  small : mem.toNat < 2 ^ 32
  region : base.toNat + mem.toNat ≤ 2 ^ 64
  run : ∃ h₀, clHeapInit base mem = .ok h₀ ∧ Exec (fun h c h' => next h c = some h') h₀ tr h

/-- Evaluates a list of calls on a fresh heap. -/
def runCalls (base mem : QWORD) (calls : List Call) :
    Option (List (HeapHeader × Call) × HeapHeader) :=
  (clHeapInit base mem).toOption.bind fun h₀ => exec next h₀ calls

theorem reaches_of_runCalls {base mem : QWORD} {calls : List Call}
    (hm : mem.toNat < 2 ^ 32) (hn : base.toNat + mem.toNat ≤ 2 ^ 64)
    (hs : (runCalls base mem calls).isSome) :
    Reaches base mem ((runCalls base mem calls).get hs).1 ((runCalls base mem calls).get hs).2 := by
  refine ⟨hm, hn, ?_⟩
  have hr : runCalls base mem calls = some ((runCalls base mem calls).get hs) :=
    (Option.some_get hs).symm
  unfold runCalls at hr
  obtain ⟨h₀, hi, he⟩ := Option.bind_eq_some_iff.mp hr
  refine ⟨h₀, ?_, exec_sound he⟩
  cases hc : clHeapInit base mem with
  | error st => simp [hc, Except.toOption] at hi
  | ok h₁ =>
    obtain rfl : h₁ = h₀ := by simpa [hc, Except.toOption] using hi
    rfl

def request (size : DWORD) : Request := ⟨0, size, 1, 0⟩

/-- A nearly full heap of 64 KiB whose third entry of four has been freed. -/
def freedCalls : List Call :=
  [.allocate (request 100), .allocate (request 100), .allocate (request 20000),
    .allocate (request 40000), .free 0x10190 1]

/-- The run of `freedCalls` and one allocation more, served from the gap. -/
def refilledCalls : List Call := freedCalls ++ [.allocate (request 10000)]

def freed : List (HeapHeader × Call) × HeapHeader :=
  (runCalls 0x10000 0x10000 freedCalls).get (by decide)

def refilled : List (HeapHeader × Call) × HeapHeader :=
  (runCalls 0x10000 0x10000 refilledCalls).get (by decide)

theorem freed_reaches : Reaches 0x10000 0x10000 freed.1 freed.2 :=
  reaches_of_runCalls (by decide) (by decide) _

theorem refilled_reaches : Reaches 0x10000 0x10000 refilled.1 refilled.2 :=
  reaches_of_runCalls (by decide) (by decide) _

/-- The bytes of an entry: header, data and tail. -/
def HeapEntry.bytes (e : HeapEntry) : Set ℕ := Set.Ico e.address.toNat e.endNat

structure Layout (base mem : QWORD) (h : HeapHeader) : Prop where
  start : h.baseAddress = base
  maximum : h.heapSizeMaximum = mem
  increasing : h.heapAllocations.Pairwise fun a b => a.address < b.address
  disjoint : h.heapAllocations.Pairwise fun a b => Disjoint a.bytes b.bytes
  inside : ∀ e ∈ h.heapAllocations,
    e.bytes ⊆ Set.Ico (base.toNat + sizeofHeapHeader.toNat) (base.toNat + mem.toNat)
  free : h.freeAddress.toNat =
    lastEnd (base.toNat + sizeofHeapHeader.toNat) h.heapAllocations
  count : h.heapNumberOfAllocations.toNat = h.heapAllocations.length
  remaining : h.heapSizeRemaining.toNat + (h.heapAllocations.map fun e =>
    e.size.toNat + sizeofHeapEntry.toNat + sizeofHeapTail.toNat).sum =
      mem.toNat - sizeofHeapHeader.toNat

/-- What an unlinking call has done. -/
structure Freed (h h' : HeapHeader) (e : HeapEntry) (l₁ l₂ : List HeapEntry) : Prop where
  before : h.heapAllocations = l₁ ++ e :: l₂
  after : h'.heapAllocations = l₁ ++ l₂
  cursor : h'.entryToRestartSearch = h.entryToRestartSearch
  wellFormed : WellFormed h'
  base : h'.baseAddress = h.baseAddress
  maximum : h'.heapSizeMaximum = h.heapSizeMaximum

/-- Everything one call can do to a well-formed heap. -/
theorem next_cases {h h' : HeapHeader} {c : Call} (hw : WellFormed h) (hs : next h c = some h') :
    (∃ req, c = .allocate req ∧ req.Valid ∧
      (h' = h ∨ ∃ p e l₁ l₂, Allocated h h' req p e l₁ l₂)) ∨
    ∃ e l₁ l₂, c = .free (e.address + sizeofHeapEntry) e.tag ∧ Freed h h' e l₁ l₂ := by
  unfold next at hs
  split_ifs at hs with hv
  cases c with
  | allocate req =>
    refine Or.inl ⟨req, rfl, hv, ?_⟩
    cases hcall : clHeapAllocatePoolWithTag h req with
    | error f => simp [perform, hcall, Except.map, Except.toOption] at hs
    | ok r =>
      obtain ⟨h₁, p⟩ := r
      obtain rfl : h₁ = h' := by simpa [perform, hcall, Except.map, Except.toOption] using hs
      rcases clHeapAllocatePoolWithTag_spec hw hv hcall with ⟨_, rfl⟩ | ⟨e, l₁, l₂, ha⟩
      · exact Or.inl rfl
      · exact Or.inr ⟨p, e, l₁, l₂, ha⟩
  | free memoryAddress tag =>
    obtain ⟨e, he, rfl, rfl⟩ := hv
    obtain ⟨l₁, l₂, hl⟩ := List.append_of_mem he
    obtain ⟨h₁, hcall, hwf, hlist, hcur, hb, hm⟩ := clHeapFreePoolWithTag_spec hw hl
    obtain rfl : h₁ = h' := by simpa [perform, hcall, Except.toOption] using hs
    exact Or.inr ⟨e, l₁, l₂, rfl, hl, hlist, hcur, hwf, hb, hm⟩

theorem next_wellFormed {h h' : HeapHeader} {c : Call} (hw : WellFormed h)
    (hs : next h c = some h') :
    WellFormed h' ∧ h'.baseAddress = h.baseAddress ∧ h'.heapSizeMaximum = h.heapSizeMaximum := by
  obtain ⟨_, _, _, rfl | ⟨_, _, _, _, ha⟩⟩ | ⟨_, _, _, _, hf⟩ := next_cases hw hs
  · exact ⟨hw, rfl, rfl⟩
  · exact ⟨ha.wellFormed, ha.base, ha.maximum⟩
  · exact ⟨hf.wellFormed, hf.base, hf.maximum⟩

/-- The invariant along a run, with the two fields no call changes. -/
theorem Reaches.always_wellFormed {base mem : QWORD} {tr : List (HeapHeader × Call)}
    {h : HeapHeader} (hr : Reaches base mem tr h) :
    Always (fun h => WellFormed h ∧ h.baseAddress = base ∧ h.heapSizeMaximum = mem) tr h := by
  obtain ⟨h₀, hi, hrun⟩ := hr.run
  apply hrun.always
  · refine ⟨wellFormed_of_init hi hr.small hr.region, ?_⟩
    unfold clHeapInit at hi
    split_ifs at hi
    cases hi
    exact ⟨rfl, rfl⟩
  · intro s c s' hall hs
    obtain ⟨hw, hb, hm⟩ := hall
    obtain ⟨hw', hb', hm'⟩ := next_wellFormed hw hs
    exact ⟨hw', hb'.trans hb, hm'.trans hm⟩

theorem WellFormed.layout {h : HeapHeader} (hw : WellFormed h) :
    Layout h.baseAddress h.heapSizeMaximum h := by
  constructor
  · rfl
  · rfl
  · apply hw.ordered.imp
    intro a b hab
    unfold HeapEntry.endNat HeapEntry.footprint at hab
    rw [BitVec.lt_def]
    omega
  · apply hw.ordered.imp
    intro a b hab
    unfold HeapEntry.bytes
    rw [Set.disjoint_left]
    intro x hx hy
    exact absurd (hx.2.trans_le hab) (not_lt.mpr hy.1)
  · intro e he
    have ha := hw.above e he
    have hf := hw.endNat_le_free he
    have hb := hw.below
    unfold HeapEntry.bytes
    apply Set.Ico_subset_Ico
    · exact ha
    · omega
  · exact hw.free
  · exact hw.count
  · exact hw.remaining

/-- The heap keeps its layout over every sequence of calls, and every pointer it hands out is
aligned as requested. -/
theorem layout_of_reaches {base mem : QWORD} {tr : List (HeapHeader × Call)} {h : HeapHeader}
    (hr : Reaches base mem tr h) :
    Always (Layout base mem) tr h ∧
      ∀ v ∈ tr, ∀ req h' p, v.2 = .allocate req → clHeapAllocatePoolWithTag v.1 req = .ok (h', p) →
        req.alignment.toNat ∣ p.toNat := by
  have hinv := hr.always_wellFormed
  have hlayout : ∀ s : HeapHeader, WellFormed s ∧ s.baseAddress = base ∧ s.heapSizeMaximum = mem →
      Layout base mem s := by
    intro s hall
    obtain ⟨hw, rfl, rfl⟩ := hall
    exact hw.layout
  refine ⟨⟨fun v hv => hlayout v.1 (hinv.1 v hv), hlayout h hinv.2⟩, ?_⟩
  rintro v hv req h' p hc hcall
  have hw := (hinv.1 v hv).1
  obtain ⟨h₀, _, hrun⟩ := hr.run
  obtain ⟨s', hs⟩ : ∃ s', next v.1 v.2 = some s' := hrun.step_of_mem hv
  have hvalid : req.Valid := by
    rw [hc] at hs
    unfold next at hs
    split_ifs at hs with hv
    exact hv
  rcases clHeapAllocatePoolWithTag_spec hw hvalid hcall with ⟨rfl, _⟩ | ⟨e, l₁, l₂, ha⟩
  · exact Nat.dvd_zero _
  · exact ha.aligned

theorem layout_of_refilled :
    Reaches 0x10000 0x10000 refilled.1 refilled.2 ∧
      Always (Layout 0x10000 0x10000) refilled.1 refilled.2 :=
  ⟨refilled_reaches, (layout_of_reaches refilled_reaches).1⟩

/-- The call frees the entry at which the next search would restart. -/
def FreesCursor (h : HeapHeader) : Call → Prop
  | .allocate _ => False
  | .free memoryAddress _ => h.entryToRestartSearch = .entry (memoryAddress - sizeofHeapEntry)

instance (h : HeapHeader) (c : Call) : Decidable (FreesCursor h c) :=
  match c with
  | .allocate _ => inferInstanceAs (Decidable False)
  | .free _ _ => inferInstanceAs (Decidable (_ = _))

theorem Allocated.cursorLive {h h' : HeapHeader} {req : Request} {p : QWORD} {e : HeapEntry}
    {l₁ l₂ : List HeapEntry} (ha : Allocated h h' req p e l₁ l₂) (hlive : CursorLive h) :
    CursorLive h' := by
  unfold CursorLive at hlive ⊢
  rcases ha.cursor with hc | hc
  · rw [hc]
    cases hcur : h.entryToRestartSearch with
    | head => trivial
    | entry a =>
      obtain ⟨x, hx, hxa⟩ : ∃ x ∈ h.heapAllocations, x.address = a := by
        simpa [hcur] using hlive
      refine ⟨x, ?_, hxa⟩
      rw [ha.before] at hx
      rw [ha.after]
      simp only [List.mem_append, List.mem_cons] at hx ⊢
      tauto
  · rw [hc]
    exact ⟨e, by simp [ha.after], rfl⟩

theorem Freed.cursorLive_iff {h h' : HeapHeader} {e : HeapEntry} {l₁ l₂ : List HeapEntry}
    (hf : Freed h h' e l₁ l₂) (hn : DistinctAddresses h.heapAllocations) (hlive : CursorLive h) :
    CursorLive h' ↔ h.entryToRestartSearch ≠ .entry e.address := by
  rw [hf.before] at hn
  unfold CursorLive at hlive ⊢
  rw [hf.cursor, hf.after]
  cases hcur : h.entryToRestartSearch with
  | head => simp
  | entry a =>
    obtain ⟨x, hx, rfl⟩ : ∃ x ∈ h.heapAllocations, x.address = a := by
      simpa [hcur] using hlive
    rw [hf.before] at hx
    constructor
    · intro hall heq
      obtain ⟨y, hy, hyx⟩ := hall
      have hye : y.address = e.address := hyx.trans (Link.entry.inj heq)
      rcases List.mem_append.mp hy with hy | hy
      · exact hn.ne_left hy hye
      · exact hn.ne_right hy hye
    · intro hne
      have hxe : x ≠ e := by
        intro heq
        subst heq
        exact hne rfl
      refine ⟨x, ?_, rfl⟩
      simp only [List.mem_append, List.mem_cons] at hx ⊢
      tauto

/-- A gap allocation leaves the restart position on its own entry, and only a free of that
entry makes it dangling. -/
theorem cursorLive_next {h h' : HeapHeader} {c : Call} (hw : WellFormed h)
    (hlive : CursorLive h) (hs : next h c = some h') : CursorLive h' ↔ ¬ FreesCursor h c := by
  obtain ⟨req, rfl, _, rfl | ⟨p, e, l₁, l₂, ha⟩⟩ | ⟨e, l₁, l₂, rfl, hf⟩ := next_cases hw hs
  · simp [FreesCursor, hlive]
  · simp [FreesCursor, ha.cursorLive hlive]
  · have hsub : e.address + sizeofHeapEntry - sizeofHeapEntry = e.address := by bv_omega
    rw [hf.cursorLive_iff hw.distinct hlive, FreesCursor, hsub]

/-- The restart position is live in every state of a run exactly when no free of the run
names the entry it points to. -/
theorem always_cursorLive_iff {base mem : QWORD} {tr : List (HeapHeader × Call)} {h : HeapHeader}
    (hr : Reaches base mem tr h) :
    Always CursorLive tr h ↔ ∀ v ∈ tr, ¬ FreesCursor v.1 v.2 := by
  obtain ⟨h₀, hi, hrun⟩ := hr.run
  have hlive : CursorLive h₀ := by
    unfold clHeapInit at hi
    split_ifs at hi
    cases hi
    trivial
  refine hrun.always_iff (I := WellFormed) (Q := fun h c => ¬ FreesCursor h c)
    (wellFormed_of_init hi hr.small hr.region) hlive ?_ ?_
  · intro s c s' hw hs
    exact (next_wellFormed hw hs).1
  · intro s c s' hw hs hn
    exact cursorLive_next hw hs hn

theorem cursorLive_of_refilled :
    Reaches 0x10000 0x10000 refilled.1 refilled.2 ∧ Always CursorLive refilled.1 refilled.2 :=
  ⟨refilled_reaches, (always_cursorLive_iff refilled_reaches).mpr (by decide)⟩

/-- The entry the gap search has just placed, freed again. -/
def dangling : List (HeapHeader × Call) × HeapHeader :=
  (runCalls 0x10000 0x10000 (refilledCalls ++ [.free 0x10190 1])).get (by decide)

theorem cursor_dangles :
    Reaches 0x10000 0x10000 dangling.1 dangling.2 ∧ ¬ CursorLive dangling.2 :=
  ⟨reaches_of_runCalls (by decide) (by decide) _, by decide⟩

end HAL9000.Heap
