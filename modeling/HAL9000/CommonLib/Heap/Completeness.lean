import HAL9000.CommonLib.Heap.Runs

/-! Which requests the gap search serves. A request that does not fit behind `FreeAddress` is
answered from the gaps the walk tests, and the walk leaves out the gaps next to its restart
position and, after a wrap, the gap behind the first entry. -/
namespace HAL9000.Heap

/-- Some gap that the search tests takes the request: one behind the restart position, or one
before it that touches neither the first entry nor the restart position. -/
def Served (h : HeapHeader) (req : Request) : Prop :=
  HasFit req h.afterCursor ∨ HasFit req h.beforeCursor.tail

/-- The search restarts with at most one entry behind it and wraps over two or more. -/
def Stuck (h : HeapHeader) : Prop := 2 ≤ h.beforeCursor.length ∧ h.afterCursor.length ≤ 1

instance (h : HeapHeader) : Decidable (Stuck h) := inferInstanceAs (Decidable (_ ∧ _))

/-- The call returns, and with a pointer if two adjacent entries leave room. -/
def Completes (h : HeapHeader) (req : Request) : Prop :=
  ∃ h' p, clHeapAllocatePoolWithTag h req = .ok (h', p) ∧ (HasFit req h.heapAllocations → p ≠ 0)

section Completes

variable {h : HeapHeader} {req : Request}

private theorem completes_of_failure {h' : HeapHeader} {st : Status}
    (ha : allocateEntry h req = .ok (h', .error st)) :
    Completes h req ↔ ¬ (HasFit req h.heapAllocations ∨
      isFlagOn req.flags poolAllocatePanicIfFail = true) := by
  unfold Completes
  rw [clHeapAllocatePoolWithTag_of_ok ha]
  by_cases hflag : isFlagOn req.flags poolAllocatePanicIfFail = true
  · simp [hflag, mappedAddress]
  · simp [hflag, mappedAddress]

private theorem completes_of_success {h' : HeapHeader} {e : HeapEntry}
    (ha : allocateEntry h req = .ok (h', .ok e)) (hz : mappedAddress (.ok e) ≠ 0) :
    Completes h req := by
  unfold Completes
  rw [clHeapAllocatePoolWithTag_of_ok ha, if_neg (fun hc => hz hc.2)]
  exact ⟨h', _, rfl, fun _ => hz⟩

private theorem not_completes_of_fault {f : Fault} (ha : allocateEntry h req = .error f) :
    ¬ Completes h req := by
  intro hall
  obtain ⟨h', p, hcall, _⟩ := hall
  obtain ⟨r, hr, _⟩ := bind_eq_ok.mp hcall
  rw [ha] at hr
  cases hr

private theorem two_le_length_of_firstGap {l : List HeapEntry} {r : HeapEntry}
    (hf : firstGap req l = some r) : 2 ≤ l.length := by
  obtain ⟨l₁, p, q, l₂, rfl, _⟩ := firstGap_isSome_iff.mp (Option.isSome_of_eq_some hf)
  simp only [List.length_append, List.length_cons]
  omega

private theorem not_hasFit_of_firstGap {l : List HeapEntry} (hf : firstGap req l = none) :
    ¬ HasFit req l := by
  rw [← firstGap_isSome_iff, hf]
  simp

theorem completes_iff (hw : WellFormed h) (hlive : CursorLive h) (hv : req.Valid)
    (hend : ¬ FitsAtEnd h req) :
    Completes h req ↔
      (req.allocationSize ≠ 0 ∧ req.sizeRequired.toNat ≤ gapSpace h → ¬ Stuck h) ∧
      (HasFit req h.heapAllocations ∨ isFlagOn req.flags poolAllocatePanicIfFail = true →
        req.allocationSize ≠ 0 ∧ Served h req) := by
  have halloc := allocateEntry_eq hw hv
  have hle := gapSpace_le_remaining hw
  have hserved : Served h req → HasFit req h.heapAllocations := hasFit_of_tested hw.distinct hlive
  have hgap : HasFit req h.heapAllocations → req.sizeRequired.toNat ≤ gapSpace h :=
    sizeRequired_le_gapSpace hw
  rw [if_neg hend] at halloc
  by_cases h0 : req.allocationSize = 0
  · rw [if_pos h0] at halloc
    rw [completes_of_failure halloc]
    simp [h0]
  rw [if_neg h0] at halloc
  have h0' : ¬ req.allocationSize = 0#32 := h0
  by_cases hsmall : gapSpace h < req.sizeRequired.toNat
  · have hfail : ∃ h' st, allocateEntry h req = .ok (h', .error st) := by
      rw [halloc]
      split_ifs
      · exact ⟨_, _, rfl⟩
      · exact ⟨_, _, rfl⟩
    obtain ⟨h', st, hfail⟩ := hfail
    have hns : ¬ Served h req := fun hs => absurd (hgap (hserved hs)) (Nat.not_le.mpr hsmall)
    rw [completes_of_failure hfail]
    simp [Nat.not_le.mpr hsmall, hns]
  have hne : h.heapAllocations ≠ [] := by
    intro hl
    have := gapSpace_nil hw hl
    have := req.sizeRequired_toNat
    omega
  have hrem : req.sizeRequired.toNat ≤ h.heapSizeRemaining.toNat := by omega
  rw [if_neg (by omega), if_neg hsmall, searchGaps_eq hw hv hrem hne hlive] at halloc
  obtain ⟨hafter, hbefore⟩ := cursor_infix hw.distinct hlive
  cases hfa : firstGap req h.afterCursor with
  | some r =>
    simp only [hfa, bind, Except.bind] at halloc
    obtain ⟨_, _, ha⟩ := allocated_place hw hv hrem hafter hfa
    have hs : Served h req := Or.inl (firstGap_isSome_iff.mp (Option.isSome_of_eq_some hfa))
    have hlen := two_le_length_of_firstGap hfa
    have hns : ¬ Stuck h := by
      unfold Stuck
      omega
    simp [completes_of_success halloc ha.nonNull, hns, hs, h0']
  | none =>
    simp only [hfa] at halloc
    have hna := not_hasFit_of_firstGap hfa
    by_cases hstuck : Stuck h
    · have hcond : 2 ≤ h.beforeCursor.length ∧ h.afterCursor.length ≤ 1 := hstuck
      rw [if_pos hcond] at halloc
      simp [not_completes_of_fault halloc, hstuck, h0', Nat.le_of_not_lt hsmall]
    · have hcond : ¬ (2 ≤ h.beforeCursor.length ∧ h.afterCursor.length ≤ 1) := hstuck
      rw [if_neg hcond] at halloc
      cases hfb : firstGap req h.beforeCursor.tail with
      | some r =>
        simp only [hfb, Option.map_some, bind, Except.bind] at halloc
        obtain ⟨_, _, ha⟩ := allocated_place hw hv hrem hbefore hfb
        have hs : Served h req := Or.inr (firstGap_isSome_iff.mp (Option.isSome_of_eq_some hfb))
        simp [completes_of_success halloc ha.nonNull, hstuck, hs, h0']
      | none =>
        simp only [hfb, Option.map_none, bind, Except.bind] at halloc
        have hns : ¬ Served h req := by
          rintro (hs | hs)
          · exact hna hs
          · exact not_hasFit_of_firstGap hfb hs
        rw [completes_of_failure halloc]
        simp [hstuck, hns]

end Completes

/-- In every reachable state with a live restart position, a request that does not fit
behind `FreeAddress` is handled as promised exactly when the search, if it is entered, is
not stuck and a gap that it tests takes the request whenever one has to be found. -/
theorem completes_iff_of_reaches {base mem : QWORD} {tr : List (HeapHeader × Call)}
    {h : HeapHeader} {req : Request} (hr : Reaches base mem tr h) (hlive : CursorLive h)
    (hv : req.Valid) (hend : ¬ FitsAtEnd h req) :
    Completes h req ↔
      (req.allocationSize ≠ 0 ∧ req.sizeRequired.toNat ≤ gapSpace h → ¬ Stuck h) ∧
      (HasFit req h.heapAllocations ∨ isFlagOn req.flags poolAllocatePanicIfFail = true →
        req.allocationSize ≠ 0 ∧ Served h req) :=
  completes_iff hr.always_wellFormed.2.1 hlive hv hend

theorem completes_of_freed : Completes freed.2 (request 10000) :=
  (completes_iff_of_reaches freed_reaches (by decide) (by decide) (by decide)).mpr
    ⟨fun _ => by decide, fun _ => ⟨by decide, Or.inl (by decide)⟩⟩

/-- A heap with one entry before and one behind the entry of the last gap allocation. -/
def skipped : List (HeapHeader × Call) × HeapHeader :=
  (runCalls 0x10000 0x10000 [.allocate (request 100), .allocate (request 20000),
    .allocate (request 40000), .free 0x10100 1, .allocate (request 10000)]).get (by decide)

/-- One more request that the gap would take: with two entries in front of the restart
position the `ASSERT` of the search fires, with one the call returns `NULL`. -/
theorem search_incomplete :
    (Reaches 0x10000 0x10000 refilled.1 refilled.2 ∧ CursorLive refilled.2 ∧
      (request 6000).Valid ∧ ¬ FitsAtEnd refilled.2 (request 6000) ∧
      clHeapAllocatePoolWithTag refilled.2 (request 6000) = .error .assertFailed) ∧
    (Reaches 0x10000 0x10000 skipped.1 skipped.2 ∧ CursorLive skipped.2 ∧
      ¬ FitsAtEnd skipped.2 (request 6000) ∧
      HasFit (request 6000) skipped.2.heapAllocations ∧
      clHeapAllocatePoolWithTag skipped.2 (request 6000) = .ok (skipped.2, 0)) := by
  refine ⟨⟨refilled_reaches, ?_⟩, reaches_of_runCalls (by decide) (by decide) _, ?_⟩
  · decide
  · decide

end HAL9000.Heap
