import HAL9000.CommonLib.Heap.Search

/-! Specification of a whole allocation call: which of the two placements it takes, when the
search is entered, and that every outcome keeps the layout invariant. -/
namespace HAL9000.Heap

/-- Two address-adjacent entries of `l` leave a gap for the aligned header, data and tail. -/
def HasFit (req : Request) (l : List HeapEntry) : Prop :=
  ∃ l₁ p q l₂, l = l₁ ++ p :: q :: l₂ ∧ req.Fits p q

theorem firstGap_isSome_iff {req : Request} {l : List HeapEntry} :
    (firstGap req l).isSome ↔ HasFit req l := by
  cases l with
  | nil => simp [HasFit]
  | cons p es => exact firstFit_isSome_iff

theorem hasFit_of_infix {req : Request} {l : List HeapEntry} (l₁ l₂ : List HeapEntry)
    (hf : HasFit req l) : HasFit req (l₁ ++ l ++ l₂) := by
  obtain ⟨m₁, p, q, m₂, rfl, hfit⟩ := hf
  exact ⟨l₁ ++ m₁, p, q, m₂ ++ l₂, by simp, hfit⟩

/-- The request is placed behind `FreeAddress`: it ends one entry header before the end of
the heap or earlier. -/
def FitsAtEnd (h : HeapHeader) (req : Request) : Prop :=
  h.freeAddress.toNat + req.needed h.freeAddress.toNat + 32 ≤
    h.baseAddress.toNat + h.heapSizeMaximum.toNat

instance (h : HeapHeader) (req : Request) : Decidable (FitsAtEnd h req) :=
  inferInstanceAs (Decidable (_ ≤ _))

/-- Bytes below `FreeAddress` that belong to no entry. -/
def gapSpace (h : HeapHeader) : ℕ :=
  h.freeAddress.toNat - (h.baseAddress.toNat + 72) - (h.heapAllocations.map HeapEntry.footprint).sum

/-- Ordered entries between two addresses take at most the space between them. -/
theorem sum_footprint_le {l : List HeapEntry} {s f : ℕ}
    (ho : l.Pairwise fun a b => a.endNat ≤ b.address.toNat) (hs : ∀ e ∈ l, s ≤ e.address.toNat)
    (hf : ∀ e ∈ l, e.endNat ≤ f) (hsf : s ≤ f) :
    s + (l.map HeapEntry.footprint).sum ≤ f := by
  induction l generalizing s with
  | nil => simpa using hsf
  | cons e l ih =>
    obtain ⟨he, hl⟩ := List.pairwise_cons.mp ho
    have hrest := ih hl he (fun b hb => hf b (List.mem_cons_of_mem e hb)) (hf e (by simp))
    have hse := hs e (by simp)
    have hend : e.endNat = e.address.toNat + e.footprint := rfl
    simp only [List.map_cons, List.sum_cons]
    omega

section Space

variable {h : HeapHeader} (hw : WellFormed h)
include hw

theorem gapSpace_eq :
    h.baseAddress.toNat + 72 + (h.heapAllocations.map HeapEntry.footprint).sum + gapSpace h =
      h.freeAddress.toNat := by
  have hsum := sum_footprint_le hw.ordered hw.above (fun e he => hw.endNat_le_free he)
    hw.header_le_free
  unfold gapSpace
  omega

theorem remainingSizeBeforeCurrent_toNat :
    (h.heapSizeRemaining - h.remainingSizeUntilEnd - sizeofHeapEntry).toNat = gapSpace h := by
  have hg := gapSpace_eq hw
  have hu := hw.remainingSizeUntilEnd_toNat
  have hr := hw.remaining
  have hm := hw.small
  have hroom := hw.room
  have hlt := hw.remaining_lt
  simp only [BitVec.toNat_sub, sizeofHeapEntry_toNat]
  lia

theorem gapSpace_le_remaining : gapSpace h + 32 ≤ h.heapSizeRemaining.toNat := by
  have hg := gapSpace_eq hw
  have hr := hw.remaining
  have hb := hw.below
  lia

theorem gapSpace_nil (hl : h.heapAllocations = []) : gapSpace h = 0 := by
  have hf := hw.free
  rw [hl] at hf
  unfold gapSpace
  rw [hf]
  simp [lastEnd]

/-- A gap that takes the request is part of the gap space. -/
theorem sizeRequired_le_gapSpace {req : Request} (hf : HasFit req h.heapAllocations) :
    req.sizeRequired.toNat ≤ gapSpace h := by
  obtain ⟨l₁, p, q, l₂, hl, hfit⟩ := hf
  have ho := hw.ordered
  have ha := hw.above
  have hb : ∀ e ∈ h.heapAllocations, e.endNat ≤ h.freeAddress.toNat :=
    fun e he => hw.endNat_le_free he
  have hg := gapSpace_eq hw
  rw [hl] at ho ha hb hg
  obtain ⟨ho₁, ho₂, ho₁₂⟩ := List.pairwise_append.mp ho
  obtain ⟨hp, ho₂⟩ := List.pairwise_cons.mp ho₂
  have hpa := ha p (by simp)
  have hlow : h.baseAddress.toNat + 72 + (l₁.map HeapEntry.footprint).sum ≤ p.address.toNat := by
    apply sum_footprint_le ho₁
    · exact fun e he => ha e (List.mem_append.mpr (Or.inl he))
    · exact fun e he => ho₁₂ e he p (by simp)
    · exact hpa
  have hhigh : q.address.toNat + ((q :: l₂).map HeapEntry.footprint).sum ≤
      h.freeAddress.toNat := by
    have hqf := hb q (by simp)
    have hq : q.endNat = q.address.toNat + q.footprint := rfl
    apply sum_footprint_le ho₂
    · intro e he
      rcases List.mem_cons.mp he with rfl | he
      · exact le_rfl
      · have := (List.pairwise_cons.mp ho₂).1 e he
        omega
    · exact fun e he => hb e (List.mem_append.mpr (Or.inr (List.mem_cons_of_mem p he)))
    · omega
  have hreq := req.sizeRequired_toNat
  have hend : p.endNat = p.address.toNat + p.footprint := rfl
  unfold Request.Fits Request.needed at hfit
  simp only [List.map_append, List.map_cons, List.sum_append, List.sum_cons] at hg hhigh
  lia

end Space

/-- The two sides of the restart position are sublists of adjacent entries. -/
theorem hasFit_of_tested {h : HeapHeader} (hn : DistinctAddresses h.heapAllocations)
    (hlive : CursorLive h) {req : Request}
    (hf : HasFit req h.afterCursor ∨ HasFit req h.beforeCursor.tail) :
    HasFit req h.heapAllocations := by
  cases hc : h.entryToRestartSearch with
  | head =>
    rcases hf with hf | hf
    · simpa [HeapHeader.afterCursor, hc] using hf
    · rw [← firstGap_isSome_iff] at hf
      simp [HeapHeader.beforeCursor, hc] at hf
  | entry a =>
    obtain ⟨c, hcm, rfl⟩ : ∃ e ∈ h.heapAllocations, e.address = a := by
      simpa [CursorLive, hc] using hlive
    obtain ⟨l₁, l₂, hl⟩ := List.append_of_mem hcm
    obtain ⟨hb, ha⟩ := cursor_split hn hl hc
    rw [hb, ha] at hf
    rcases hf with hf | hf
    · have := hasFit_of_infix (l₁ ++ [c]) [] hf
      simpa [hl] using this
    · cases l₁ with
      | nil =>
        rw [← firstGap_isSome_iff] at hf
        simp at hf
      | cons b l =>
        have := hasFit_of_infix [b] (c :: l₂) hf
        simpa [hl] using this

/-- The search starts only from a restart position that is part of the list. -/
theorem cursorLive_of_searchGaps {h : HeapHeader} {req : Request}
    {r : Option (HeapHeader × HeapEntry)} (hs : searchGaps h req = .ok r) :
    CursorLive h ∧ h.heapAllocations ≠ [] := by
  unfold searchGaps at hs
  obtain ⟨_, hne, hs⟩ := bind_eq_ok.mp hs
  obtain ⟨next, hnext, _⟩ := bind_eq_ok.mp hs
  refine ⟨?_, assertThat_eq_ok.mp hne⟩
  unfold CursorLive
  cases hc : h.entryToRestartSearch with
  | head => trivial
  | entry a =>
    have hgo : ∀ l : List HeapEntry, (∀ e ∈ l, e.address ≠ a) → flink.go l a = none := by
      intro l hl
      induction l with
      | nil => rfl
      | cons e l ih =>
        have he : e.address ≠ a := hl e (by simp)
        simpa [flink.go, he] using ih (fun b hb => hl b (by simp [hb]))
    by_contra hno
    push Not at hno
    rw [hc] at hnext
    simp [follow, flink, hgo _ hno] at hnext

/-- What a call that returns a pointer has done: one more entry at its place in the order,
with aligned data. -/
structure Allocated (h h' : HeapHeader) (req : Request) (p : QWORD) (e : HeapEntry)
    (l₁ l₂ : List HeapEntry) : Prop where
  before : h.heapAllocations = l₁ ++ l₂
  after : h'.heapAllocations = l₁ ++ e :: l₂
  pointer : p = e.address + sizeofHeapEntry
  nonNull : p ≠ 0
  aligned : req.alignment.toNat ∣ p.toNat
  cursor : h'.entryToRestartSearch = h.entryToRestartSearch ∨
    h'.entryToRestartSearch = .entry e.address
  wellFormed : WellFormed h'
  base : h'.baseAddress = h.baseAddress
  maximum : h'.heapSizeMaximum = h.heapSizeMaximum

/-- The `__finally` block: with `PoolAllocatePanicIfFail` a `NULL` result is fatal. -/
theorem clHeapAllocatePoolWithTag_of_ok {h h' : HeapHeader} {req : Request}
    {r : Except Status HeapEntry} (ha : allocateEntry h req = .ok (h', r)) :
    clHeapAllocatePoolWithTag h req =
      if isFlagOn req.flags poolAllocatePanicIfFail = true ∧ mappedAddress r = 0 then
        .error .assertFailed
      else .ok (h', mappedAddress r) := by
  unfold clHeapAllocatePoolWithTag
  rw [ha]
  by_cases hflag : isFlagOn req.flags poolAllocatePanicIfFail = true
  · cases r with
    | error st => simp [hflag, bind, Except.bind, assertThat, Except.isOk, Except.toBool,
        mappedAddress]
    | ok e =>
      by_cases hz : mappedAddress (.ok e) = 0#64
      · simp [hflag, bind, Except.bind, assertThat, Except.isOk, Except.toBool, hz]
      · simp [hflag, bind, Except.bind, assertThat, Except.isOk, Except.toBool, hz, pure,
          Except.pure]
  · simp [hflag, bind, Except.bind, pure, Except.pure]

section Allocate

variable {h : HeapHeader} (hw : WellFormed h) {req : Request} (hv : req.Valid)
include hw hv

omit hv in
theorem placeAtEnd_fits :
    h.remainingSizeUntilEnd.toNat < req.needed h.freeAddress.toNat ↔ ¬ FitsAtEnd h req := by
  have hu := hw.remainingSizeUntilEnd_toNat
  unfold FitsAtEnd
  omega

omit hw in
/-- The data of a fresh entry starts on a multiple of the alignment. -/
theorem entryAt_aligned {start : QWORD} (hroom : start.toNat + req.needed start.toNat < 2 ^ 64) :
    req.alignment.toNat ∣ ((req.entryAt start).address + sizeofHeapEntry).toNat := by
  obtain ⟨k, hk⟩ := hv.alignment
  have hpos : 0 < req.alignment.toNat := by
    have hlt := req.alignment.isLt
    have h2 : 0 < 2 ^ k := by positivity
    rw [BitVec.toNat_setWidth] at hk
    lia
  have hd := dvd_add_alignPadding (start.toNat + 32) hpos
  have ha := Request.entryAt_address hroom
  have hsum : ((req.entryAt start).address + sizeofHeapEntry).toNat =
      start.toNat + 32 + alignPadding (start.toNat + 32) req.alignment.toNat := by
    unfold Request.needed at hroom
    rw [BitVec.toNat_add, ha, sizeofHeapEntry_toNat]
    unfold Request.padding at hroom ⊢
    lia
  rw [hsum]
  exact hd

/-- An entry placed in a gap keeps the invariant and lands between the two neighbours. -/
theorem place_spec (hrem : req.sizeRequired.toNat ≤ h.heapSizeRemaining.toNat) {p q : HeapEntry}
    {l₁ l₂ : List HeapEntry} (hl : h.heapAllocations = l₁ ++ p :: q :: l₂) (hfit : req.Fits p q) :
    WellFormed (place h req p).1 ∧
      (place h req p).1.heapAllocations = l₁ ++ p :: (place h req p).2 :: q :: l₂ ∧
      req.alignment.toNat ∣ ((place h req p).2.address + sizeofHeapEntry).toNat := by
  have hpm : p ∈ h.heapAllocations := by simp [hl]
  have hqm : q ∈ h.heapAllocations := by simp [hl]
  have hend := hw.endAddress_toNat hpm
  have hqf := hw.endNat_le_free hqm
  have hb := hw.below
  have hn := hw.noWrap
  have hpb := hw.above p hpm
  have hpe : p.address.toNat ≤ p.endNat := Nat.le_add_right _ _
  have hqe : q.address.toNat ≤ q.endNat := Nat.le_add_right _ _
  have ho := hw.ordered
  rw [hl] at ho
  have hd := hw.distinct
  rw [hl] at hd
  obtain ⟨ho₁, ho₂, ho₁₂⟩ := List.pairwise_append.mp ho
  obtain ⟨hp, ho₂⟩ := List.pairwise_cons.mp ho₂
  unfold Request.Fits at hfit
  have hroom : p.endAddress.toNat + req.needed p.endAddress.toNat < 2 ^ 64 := by
    rw [hend]
    omega
  have haddr := Request.entryAt_address hroom
  have hnew := Request.entryAt_endNat hroom
  rw [hend] at haddr hnew
  have hlist : insertHeadList (req.entryAt p.endAddress) (.entry p.address) h.heapAllocations =
      (l₁ ++ [p]) ++ req.entryAt p.endAddress :: (q :: l₂) := by
    rw [hl, insertHeadList_eq _ hd]
    simp
  refine ⟨?_, ?_, entryAt_aligned hv hroom⟩
  · unfold place
    rw [hlist]
    refine hw.insert (by simp [hl]) (req.entryAt_sealed hv _) rfl ?_ ?_ ?_ hrem _ ?_ hb
    · lia
    · intro a ha
      rcases List.mem_append.mp ha with ha | ha
      · have := ho₁₂ a ha p (by simp)
        lia
      · rw [List.mem_singleton.mp ha]
        lia
    · intro b hb
      rcases List.mem_cons.mp hb with rfl | hb
      · lia
      · have := (List.pairwise_cons.mp ho₂).1 b hb
        lia
    · rw [lastEnd_append_cons, lastEnd_cons_cons]
      have hfree := hw.free
      rw [hl, lastEnd_append_cons, lastEnd_cons_cons] at hfree
      exact hfree
  · change insertHeadList (req.entryAt p.endAddress) (.entry p.address) h.heapAllocations = _
    rw [hlist]
    simp [place]

/-- The header after the request has been placed behind `FreeAddress`. -/
def placedAtEnd (h : HeapHeader) (req : Request) : HeapHeader :=
  { account h req with
    heapAllocations := h.heapAllocations ++ [req.entryAt h.freeAddress]
    freeAddress := (req.entryAt h.freeAddress).endAddress }

/-- The decisions of an allocation in natural numbers. -/
theorem allocateEntry_eq :
    allocateEntry h req =
      if req.allocationSize = 0 then .ok (h, .error .invalidParameter2)
      else if h.heapSizeRemaining.toNat < req.sizeRequired.toNat then
        .ok (h, .error .heapNoMoreMemory)
      else if FitsAtEnd h req then
        .ok (placedAtEnd h req, .ok (req.entryAt h.freeAddress))
      else if gapSpace h < req.sizeRequired.toNat then .ok (h, .error .heapNoMoreMemory)
      else searchGaps h req >>= fun
        | some (h', e) => .ok (h', .ok e)
        | none => .ok (h, .error .heapNoMoreMemory) := by
  have hg := gapSpace_le_remaining hw
  have hlt := hw.remaining_lt
  have hbefore := remainingSizeBeforeCurrent_toNat hw
  unfold allocateEntry
  rw [if_neg hv.1]
  by_cases h0 : req.allocationSize = 0
  · rw [if_pos h0, if_pos h0]
  rw [if_neg h0, if_neg h0]
  by_cases hrem : h.heapSizeRemaining.toNat < req.sizeRequired.toNat
  · rw [if_pos (BitVec.lt_def.mpr hrem), if_pos hrem]
  rw [if_neg (fun hc => hrem (BitVec.lt_def.mp hc)), if_neg hrem,
    placeAtEnd_eq hw hv (Nat.le_of_not_lt hrem)]
  by_cases hfit : FitsAtEnd h req
  · rw [if_pos hfit, if_neg (fun hc => (placeAtEnd_fits hw).mp hc hfit)]
    rfl
  · rw [if_neg hfit, if_pos ((placeAtEnd_fits hw).mpr hfit)]
    have hslt := slt_iff_toNat_lt
      (x := h.heapSizeRemaining - h.remainingSizeUntilEnd - sizeofHeapEntry)
      (y := req.sizeRequired) (by lia) (by omega)
    rw [hbefore] at hslt
    by_cases hgap : gapSpace h < req.sizeRequired.toNat
    · simp only [hslt.mpr hgap, if_true, hgap]
    · have hns : ¬ (h.heapSizeRemaining - h.remainingSizeUntilEnd - sizeofHeapEntry).slt
          req.sizeRequired = true := fun hc => hgap (hslt.mp hc)
      simp only [if_neg hns, if_neg hgap]
      rfl

omit hw hv in
private theorem mappedAddress_ne_zero {start : QWORD}
    (hroom : start.toNat + req.needed start.toNat < 2 ^ 64) :
    (req.entryAt start).address + sizeofHeapEntry ≠ 0 := by
  intro hz
  have hn := congrArg BitVec.toNat hz
  have ha := Request.entryAt_address hroom
  unfold Request.needed at hroom
  rw [BitVec.toNat_add, ha, sizeofHeapEntry_toNat] at hn
  change _ = 0 at hn
  lia

/-- The entry behind `FreeAddress`. -/
theorem allocated_atEnd (hrem : req.sizeRequired.toNat ≤ h.heapSizeRemaining.toNat)
    (hfit : FitsAtEnd h req) :
    Allocated h (placedAtEnd h req) req
      ((req.entryAt h.freeAddress).address + sizeofHeapEntry) (req.entryAt h.freeAddress)
      h.heapAllocations [] := by
  have hn := hw.noWrap
  have hroom : h.freeAddress.toNat + req.needed h.freeAddress.toNat < 2 ^ 64 := by
    unfold FitsAtEnd at hfit
    omega
  have hp := placeAtEnd_eq hw hv hrem
  rw [if_neg (fun hc => (placeAtEnd_fits hw).mp hc hfit)] at hp
  constructor
  · exact (List.append_nil _).symm
  · rfl
  · rfl
  · exact mappedAddress_ne_zero hroom
  · exact entryAt_aligned hv hroom
  · exact Or.inl rfl
  · exact placeAtEnd_wellFormed hw hv hrem hp
  · rfl
  · rfl

/-- The entry in a gap. -/
theorem allocated_place (hrem : req.sizeRequired.toNat ≤ h.heapSizeRemaining.toNat)
    {l : List HeapEntry} (hsub : ∃ l₁ l₂, h.heapAllocations = l₁ ++ l ++ l₂) {p : HeapEntry}
    (hp : firstGap req l = some p) :
    ∃ l₁ l₂, Allocated h (place h req p).1 req
      ((place h req p).2.address + sizeofHeapEntry) (place h req p).2 l₁ l₂ := by
  obtain ⟨m₁, m₂, hm⟩ := hsub
  obtain ⟨l₁, q, l₂, hl, hfit⟩ : ∃ l₁ q l₂, l = l₁ ++ p :: q :: l₂ ∧ req.Fits p q := by
    cases l with
    | nil => simp at hp
    | cons a es => exact firstFit_eq_some hp
  have hlist : h.heapAllocations = (m₁ ++ l₁) ++ p :: q :: (l₂ ++ m₂) := by simp [hm, hl]
  obtain ⟨hwf, hafter, halign⟩ := place_spec hw hv hrem hlist hfit
  have hqm : q ∈ h.heapAllocations := by simp [hlist]
  have hpm : p ∈ h.heapAllocations := by simp [hlist]
  have hroom : p.endAddress.toNat + req.needed p.endAddress.toNat < 2 ^ 64 := by
    have hq := q.address.isLt
    unfold Request.Fits at hfit
    rw [hw.endAddress_toNat hpm]
    have hqf := hw.endNat_le_free hqm
    have hqe : q.address.toNat + 36 ≤ q.endNat := by
      unfold HeapEntry.endNat HeapEntry.footprint
      omega
    have hf := h.freeAddress.isLt
    omega
  refine ⟨m₁ ++ l₁ ++ [p], q :: (l₂ ++ m₂), ?_⟩
  constructor
  · simp [hlist]
  · simp [hafter]
  · rfl
  · exact mappedAddress_ne_zero hroom
  · exact halign
  · exact Or.inr rfl
  · exact hwf
  · rfl
  · rfl

omit hw hv in
theorem cursor_infix (hn : DistinctAddresses h.heapAllocations) (hlive : CursorLive h) :
    (∃ l₁ l₂, h.heapAllocations = l₁ ++ h.afterCursor ++ l₂) ∧
      ∃ l₁ l₂, h.heapAllocations = l₁ ++ h.beforeCursor.tail ++ l₂ := by
  cases hc : h.entryToRestartSearch with
  | head =>
    refine ⟨⟨[], [], ?_⟩, ⟨[], h.heapAllocations, ?_⟩⟩
    · simp [HeapHeader.afterCursor, hc]
    · simp [HeapHeader.beforeCursor, hc]
  | entry a =>
    obtain ⟨c, hcm, rfl⟩ : ∃ e ∈ h.heapAllocations, e.address = a := by
      simpa [CursorLive, hc] using hlive
    obtain ⟨l₁, l₂, hl⟩ := List.append_of_mem hcm
    obtain ⟨hb, ha⟩ := cursor_split hn hl hc
    rw [hb, ha]
    refine ⟨⟨l₁ ++ [c], [], by simp [hl]⟩, ?_⟩
    cases l₁ with
    | nil => exact ⟨[], c :: l₂, by simp [hl]⟩
    | cons b l => exact ⟨[b], c :: l₂, by simp [hl]⟩

/-- A call that returns either changed nothing and returned `NULL` or added one entry. -/
theorem clHeapAllocatePoolWithTag_spec {h' : HeapHeader} {p : QWORD}
    (hcall : clHeapAllocatePoolWithTag h req = .ok (h', p)) :
    (p = 0 ∧ h' = h) ∨ ∃ e l₁ l₂, Allocated h h' req p e l₁ l₂ := by
  obtain ⟨⟨h₁, r⟩, halloc, _⟩ := bind_eq_ok.mp hcall
  rw [clHeapAllocatePoolWithTag_of_ok halloc] at hcall
  split_ifs at hcall
  obtain ⟨rfl, rfl⟩ : h₁ = h' ∧ mappedAddress r = p := by simpa using hcall
  rw [allocateEntry_eq hw hv] at halloc
  split_ifs at halloc with h0 hrem hfit hgap
  · cases halloc
    exact Or.inl ⟨rfl, rfl⟩
  · cases halloc
    exact Or.inl ⟨rfl, rfl⟩
  · cases halloc
    exact Or.inr ⟨_, _, _, allocated_atEnd hw hv (Nat.le_of_not_lt hrem) hfit⟩
  · cases halloc
    exact Or.inl ⟨rfl, rfl⟩
  · obtain ⟨s, hs, hr⟩ := bind_eq_ok.mp halloc
    have hrem' := Nat.le_of_not_lt hrem
    obtain ⟨hlive, hne⟩ := cursorLive_of_searchGaps hs
    obtain ⟨hafter, hbefore⟩ := cursor_infix hw.distinct hlive
    rw [searchGaps_eq hw hv hrem' hne hlive] at hs
    cases hfa : firstGap req h.afterCursor with
    | some q =>
      simp only [hfa] at hs
      cases hs
      cases hr
      exact Or.inr ⟨_, allocated_place hw hv hrem' hafter hfa⟩
    | none =>
      simp only [hfa] at hs
      split_ifs at hs
      cases hfb : firstGap req h.beforeCursor.tail with
      | some q =>
        rw [hfb] at hs
        cases hs
        cases hr
        exact Or.inr ⟨_, allocated_place hw hv hrem' hbefore hfb⟩
      | none =>
        rw [hfb] at hs
        cases hs
        cases hr
        exact Or.inl ⟨rfl, rfl⟩

end Allocate

end HAL9000.Heap
