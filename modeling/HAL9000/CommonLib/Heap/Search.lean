import HAL9000.CommonLib.Heap.Layout

/-! The gap search described by the pairs of entries it tests. From the list head it tests
every adjacent pair; from an entry it tests the pairs behind that entry and, after the wrap,
the pairs that do not touch the first entry of the list. -/
namespace HAL9000.Heap

/-- The padded entry fits between the end of `p` and the start of `q`. -/
def Request.Fits (req : Request) (p q : HeapEntry) : Prop :=
  p.endNat + req.needed p.endNat ≤ q.address.toNat

instance (req : Request) (p q : HeapEntry) : Decidable (req.Fits p q) :=
  inferInstanceAs (Decidable (_ ≤ _))

/-- First entry of `p :: es` whose gap to its successor takes the request. -/
def firstFit (req : Request) : HeapEntry → List HeapEntry → Option HeapEntry
  | _, [] => none
  | p, q :: es => if req.Fits p q then some p else firstFit req q es

/-- `firstFit` over the adjacent pairs of a list. -/
def firstGap (req : Request) : List HeapEntry → Option HeapEntry
  | [] => none
  | p :: es => firstFit req p es

@[simp] theorem firstGap_nil (req : Request) : firstGap req [] = none := rfl

/-- The request placed in the gap behind `p`; the search restarts there next time. -/
def place (h : HeapHeader) (req : Request) (p : HeapEntry) : HeapHeader × HeapEntry :=
  ({ account h req with
      heapAllocations := insertHeadList (req.entryAt p.endAddress) (.entry p.address)
        h.heapAllocations
      entryToRestartSearch := .entry (req.entryAt p.endAddress).address },
    req.entryAt p.endAddress)

/-- The last entry of `p :: es`. -/
def lastFrom (p : HeapEntry) (es : List HeapEntry) : HeapEntry := es.getLastD p

theorem firstFit_eq_some {req : Request} {p r : HeapEntry} {es : List HeapEntry}
    (hf : firstFit req p es = some r) :
    ∃ l₁ q l₂, p :: es = l₁ ++ r :: q :: l₂ ∧ req.Fits r q := by
  induction es generalizing p with
  | nil => simp [firstFit] at hf
  | cons q es ih =>
    unfold firstFit at hf
    split_ifs at hf with hfit
    · cases hf
      exact ⟨[], q, es, rfl, hfit⟩
    · obtain ⟨l₁, q', l₂, hl, hr⟩ := ih hf
      exact ⟨p :: l₁, q', l₂, by rw [hl, List.cons_append], hr⟩

theorem firstFit_isSome_iff {req : Request} {p : HeapEntry} {es : List HeapEntry} :
    (firstFit req p es).isSome ↔ ∃ l₁ r q l₂, p :: es = l₁ ++ r :: q :: l₂ ∧ req.Fits r q := by
  constructor
  · intro hs
    obtain ⟨r, hr⟩ := Option.isSome_iff_exists.mp hs
    obtain ⟨l₁, q, l₂, hl, hf⟩ := firstFit_eq_some hr
    exact ⟨l₁, r, q, l₂, hl, hf⟩
  · intro hall
    obtain ⟨l₁, r, q, l₂, hl, hf⟩ := hall
    induction l₁ generalizing p es with
    | nil =>
      obtain ⟨rfl, rfl⟩ : p = r ∧ es = q :: l₂ := by simpa using hl
      simp [firstFit, hf]
    | cons a l₁ ih =>
      obtain ⟨rfl, rfl⟩ : p = a ∧ es = l₁ ++ r :: q :: l₂ := by simpa using hl
      obtain ⟨b, l, hb⟩ : ∃ b l, l₁ ++ r :: q :: l₂ = b :: l := by
        cases l₁ with
        | nil => exact ⟨r, q :: l₂, rfl⟩
        | cons b l => exact ⟨b, l ++ r :: q :: l₂, rfl⟩
      rw [hb]
      unfold firstFit
      split_ifs
      · rfl
      · exact ih hb.symm

theorem searchLoop_done {h : HeapHeader} {req : Request} {c : Link}
    (hc : h.entryToRestartSearch = c) (fuel : ℕ) (p : Link) (ph ch : Option Link) :
    searchLoop req (fuel + 1) h p ph c ch = .ok none := by
  unfold searchLoop
  rw [if_pos hc]

section Loop

variable {h : HeapHeader} (hw : WellFormed h) {req : Request} (hv : req.Valid)
  (hrem : req.sizeRequired.toNat ≤ h.heapSizeRemaining.toNat)
include hw hv hrem

omit hv in
private theorem size_lt : req.allocationSize.toNat + 36 < 2 ^ 32 := by
  have hlt := hw.remaining_lt
  have hq := req.sizeRequired_toNat
  omega

/-- One iteration on two neighbours, `previousHeapEntry` being the first of them. -/
theorem searchLoop_pair {p q : HeapEntry} (hp : p ∈ h.heapAllocations)
    (hq : q ∈ h.heapAllocations) (hpq : p.endNat ≤ q.address.toNat)
    (hc : h.entryToRestartSearch ≠ .entry q.address) (fuel : ℕ) (ch : Option Link) :
    searchLoop req (fuel + 1) h (.entry p.address) (some (.entry p.address)) (.entry q.address) ch =
      if req.Fits p q then .ok (some (place h req p))
      else follow h (.entry q.address) >>= fun next =>
        searchLoop req fuel h (.entry q.address) (some (.entry q.address)) next
          (some (.entry q.address)) := by
  have hend := hw.endAddress_toNat hp
  have hqf := hw.endNat_le_free hq
  have hb := hw.below
  have hn := hw.noWrap
  have hm := hw.small
  have hpb := hw.above p hp
  have hsize := size_lt hw hrem
  have hreq := req.sizeRequired_toNat
  have hpe : p.address.toNat ≤ p.endNat := Nat.le_add_right _ _
  have hqe : q.address.toNat + 36 ≤ q.endNat := by
    unfold HeapEntry.endNat HeapEntry.footprint
    omega
  have hgap : (q.address - p.endAddress).toNat = q.address.toNat - p.endNat := by
    rw [BitVec.toNat_sub_of_le (by rw [BitVec.le_def, hend]; exact hpq), hend]
  have hneed : req.sizeRequired.toNat ≤ req.needed p.endNat := by
    unfold Request.needed
    lia
  have hsle := sle_iff_toNat_le (x := req.sizeRequired) (y := q.address - p.endAddress)
    (by omega) (by lia)
  conv_lhs => unfold searchLoop
  rw [if_neg hc, if_neg (by simp)]
  simp only [containingRecord_of_mem hw.distinct hp, containingRecord_of_mem hw.distinct hq,
    bind, Except.bind]
  by_cases hs : req.sizeRequired.sle (q.address - p.endAddress) = true
  · rw [if_pos hs, initHeapEntry_eq h hv _ _ _ hsize (by lia), hend, hgap]
    by_cases hfit : req.Fits p q
    · have hroom : p.endAddress.toNat + req.needed p.endAddress.toNat < 2 ^ 64 := by
        unfold Request.Fits at hfit
        rw [hend]
        lia
      have hz : (req.entryAt p.endAddress).endAddress ≠ 0 := by
        intro hz
        have he := Request.entryAt_endAddress hroom
        rw [hz] at he
        change 0 = _ at he
        lia
      have hlt : ¬ q.address.toNat - p.endNat < req.needed p.endNat := by
        unfold Request.Fits at hfit
        lia
      rw [if_neg hlt, if_pos hfit]
      simp only [if_neg hz, validateHeapEntry_eq (hw.sealed p hp), Bool.false_eq_true, if_false,
        assertThat_of, pure, Except.pure]
      rfl
    · have hlt : q.address.toNat - p.endNat < req.needed p.endNat := by
        unfold Request.Fits at hfit
        lia
      rw [if_pos hlt, if_neg hfit]
  · have hfit : ¬ req.Fits p q := by
      unfold Request.Fits
      rw [hsle] at hs
      lia
    rw [if_neg hs, if_neg hfit]

omit hv in
/-- One iteration after the wrap, with `previousHeapEntry` still behind the current entry. -/
theorem searchLoop_stale {r q : HeapEntry} {p : Link} (hr : r ∈ h.heapAllocations)
    (hq : q ∈ h.heapAllocations) (hqr : q.endNat ≤ r.address.toNat) (hp : p ≠ .head)
    (hc : h.entryToRestartSearch ≠ .entry q.address) (fuel : ℕ) (ch : Option Link) :
    searchLoop req (fuel + 1) h p (some (.entry r.address)) (.entry q.address) ch =
      follow h (.entry q.address) >>= fun next =>
        searchLoop req fuel h (.entry q.address) (some (.entry q.address)) next
          (some (.entry q.address)) := by
  have hend := hw.endAddress_toNat hr
  have hrf := hw.endNat_le_free hr
  have hb := hw.below
  have hn := hw.noWrap
  have hm := hw.small
  have hqb := hw.above q hq
  have hre : r.address.toNat ≤ r.endNat := Nat.le_add_right _ _
  have hqe : q.address.toNat + 36 ≤ q.endNat := by
    unfold HeapEntry.endNat HeapEntry.footprint
    omega
  have hgap : 2 ^ 63 ≤ (q.address - r.endAddress).toNat := by
    rw [BitVec.toNat_sub, hend]
    lia
  have hsize := size_lt hw hrem
  have hreq := req.sizeRequired_toNat
  conv_lhs => unfold searchLoop
  rw [if_neg hc, if_neg (by simp [hp])]
  simp only [containingRecord_of_mem hw.distinct hr, containingRecord_of_mem hw.distinct hq,
    bind, Except.bind]
  rw [not_sle_of_negative (by omega) hgap]
  rfl

/-- A stretch of neighbours: the request goes into the first gap that takes it, else the
loop arrives behind the stretch with both entry pointers on its last entry. -/
theorem searchLoop_segment {p : HeapEntry} {es l₁ l₂ : List HeapEntry}
    (hl : h.heapAllocations = l₁ ++ p :: (es ++ l₂))
    (hc : ∀ e ∈ es, h.entryToRestartSearch ≠ .entry e.address) (fuel : ℕ) (ch : Option Link) :
    searchLoop req (fuel + es.length) h (.entry p.address) (some (.entry p.address))
        (firstLink (es ++ l₂)) ch =
      match firstFit req p es with
      | some r => .ok (some (place h req r))
      | none => searchLoop req fuel h (.entry (lastFrom p es).address)
          (some (.entry (lastFrom p es).address)) (firstLink l₂)
          (if es = [] then ch else some (.entry (lastFrom p es).address)) := by
  induction es generalizing p l₁ ch with
  | nil => simp [firstFit, lastFrom]
  | cons q es ih =>
    have hp : p ∈ h.heapAllocations := by simp [hl]
    have hq : q ∈ h.heapAllocations := by simp [hl]
    have hpq : p.endNat ≤ q.address.toNat := by
      have ho := hw.ordered
      rw [hl] at ho
      exact (List.pairwise_cons.mp (List.pairwise_append.mp ho).2.1).1 q (by simp)
    have hl' : h.heapAllocations = (l₁ ++ [p]) ++ q :: (es ++ l₂) := by simp [hl]
    have hstep := searchLoop_pair hw hv hrem hp hq hpq (hc q (by simp)) (fuel + es.length) ch
    change searchLoop req (fuel + es.length + 1) h _ _ (.entry q.address) ch = _
    rw [hstep]
    unfold firstFit
    by_cases hfit : req.Fits p q
    · simp [hfit]
    · rw [if_neg hfit, if_neg hfit, follow_entry hw.distinct hl']
      have hlast : lastFrom p (q :: es) = lastFrom q es := by
        cases es <;> rfl
      have hih := ih hl' (fun e he => hc e (List.mem_cons_of_mem q he)) (some (.entry q.address))
      change searchLoop req (fuel + es.length) h _ _ _ _ = _
      rw [hih, hlast]
      cases es with
      | nil => simp [lastFrom]
      | cons b es => simp

end Loop

/-- The entries behind the restart position; all of them when it is the list head. -/
def HeapHeader.afterCursor (h : HeapHeader) : List HeapEntry :=
  match h.entryToRestartSearch with
  | .head => h.heapAllocations
  | .entry a => (h.heapAllocations.dropWhile fun e => e.address ≠ a).tail

/-- The entries in front of the restart position. -/
def HeapHeader.beforeCursor (h : HeapHeader) : List HeapEntry :=
  match h.entryToRestartSearch with
  | .head => []
  | .entry a => h.heapAllocations.takeWhile fun e => e.address ≠ a

/-- The restart position is the list head or the link of a live entry. -/
def CursorLive (h : HeapHeader) : Prop :=
  match h.entryToRestartSearch with
  | .head => True
  | .entry a => ∃ e ∈ h.heapAllocations, e.address = a

theorem cursor_split {h : HeapHeader} (hn : DistinctAddresses h.heapAllocations) {c : HeapEntry}
    {l₁ l₂ : List HeapEntry} (hl : h.heapAllocations = l₁ ++ c :: l₂)
    (hc : h.entryToRestartSearch = .entry c.address) :
    h.beforeCursor = l₁ ∧ h.afterCursor = l₂ := by
  rw [hl] at hn
  have hne : ∀ a ∈ l₁, decide (a.address ≠ c.address) = true := by
    intro a ha
    simpa using hn.ne_left ha
  unfold HeapHeader.beforeCursor HeapHeader.afterCursor
  rw [hc, hl]
  constructor
  · simp only
    rw [List.takeWhile_append_of_pos hne]
    simp
  · simp only
    rw [List.dropWhile_append_of_pos hne]
    simp

section Wrap

variable {h : HeapHeader} (hw : WellFormed h) {req : Request} (hv : req.Valid)
  (hrem : req.sizeRequired.toNat ≤ h.heapSizeRemaining.toNat)
  {c : HeapEntry} {l₁ l₂ : List HeapEntry} (hl : h.heapAllocations = l₁ ++ c :: l₂)
  (hc : h.entryToRestartSearch = .entry c.address)
include hw hl hc

private theorem cursor_ne {b : HeapEntry} (hb : b ∈ l₁) :
    h.entryToRestartSearch ≠ .entry b.address := by
  have hn := hw.distinct
  rw [hl] at hn
  rw [hc]
  intro heq
  exact hn.ne_left hb (Link.entry.inj heq).symm

/-- The skipped iteration on the first entry, right after the wrap. -/
theorem searchLoop_first {b : HeapEntry} {l : List HeapEntry} (hb : l₁ = b :: l) (fuel : ℕ)
    (ph ch : Option Link) :
    searchLoop req (fuel + 1) h .head ph (.entry b.address) ch =
      searchLoop req fuel h (.entry b.address) ch (firstLink (l ++ c :: l₂)) ch := by
  have hne := cursor_ne hw hl hc (b := b) (by simp [hb])
  have hl' : h.heapAllocations = [] ++ b :: (l ++ c :: l₂) := by rw [hl, hb]; rfl
  conv_lhs => unfold searchLoop
  rw [if_neg hne, if_pos (Or.inr rfl), follow_entry hw.distinct hl']
  rfl

/-- At most one entry before the restart position: nothing is tested after the wrap. -/
theorem searchLoop_wrap_short (hlen : l₁.length ≤ 1) (fuel : ℕ) (ph ch : Option Link) :
    searchLoop req (fuel + l₁.length + 1) h .head ph (firstLink (l₁ ++ c :: l₂)) ch = .ok none := by
  cases hb : l₁ with
  | nil => exact searchLoop_done hc _ _ _ _
  | cons b l =>
    have hl0 : l = [] := by
      rw [hb] at hlen
      simpa using hlen
    subst hl0
    change searchLoop req (fuel + 1 + 1) h .head ph (.entry b.address) ch = _
    rw [searchLoop_first hw hl hc hb]
    exact searchLoop_done hc _ _ _ _

/-- The wrap with a null `curHeapEntry` reaches the second entry and its `ASSERT`. -/
theorem searchLoop_wrap_assert (hlen : 2 ≤ l₁.length) (fuel : ℕ) (ph : Option Link) :
    searchLoop req (fuel + l₁.length + 1) h .head ph (firstLink (l₁ ++ c :: l₂)) none =
      .error .assertFailed := by
  obtain ⟨b, d, l, hb⟩ : ∃ b d l, l₁ = b :: d :: l := by
    match l₁, hlen with
    | b :: d :: l, _ => exact ⟨b, d, l, rfl⟩
  have hne := cursor_ne hw hl hc (b := d) (by simp [hb])
  rw [hb]
  change searchLoop req (fuel + (d :: l).length + 1 + 1) h .head ph (.entry b.address) none = _
  rw [searchLoop_first hw hl hc hb]
  change searchLoop req (fuel + (d :: l).length + 1) h (.entry b.address) none
    (.entry d.address) none = _
  unfold searchLoop
  rw [if_neg hne, if_neg (by simp)]

include hv hrem

/-- The wrap with `curHeapEntry` on the last entry: the first gap is lost, the others up to
the restart position are tested. -/
theorem searchLoop_wrap_tail {r : HeapEntry} (hr : r ∈ l₂) (hlen : 2 ≤ l₁.length) (fuel : ℕ)
    (ph : Option Link) :
    searchLoop req (fuel + l₁.length + 1) h .head ph (firstLink (l₁ ++ c :: l₂))
        (some (.entry r.address)) =
      .ok ((firstGap req l₁.tail).map (place h req)) := by
  obtain ⟨b, d, l, hb⟩ : ∃ b d l, l₁ = b :: d :: l := by
    match l₁, hlen with
    | b :: d :: l, _ => exact ⟨b, d, l, rfl⟩
  have hne := cursor_ne hw hl hc (b := d) (by simp [hb])
  have hrm : r ∈ h.heapAllocations := by
    rw [hl]
    exact List.mem_append.mpr (Or.inr (List.mem_cons_of_mem c hr))
  have hdm : d ∈ h.heapAllocations := by
    rw [hl, hb]
    simp
  have hdr : d.endNat ≤ r.address.toNat := by
    have ho := hw.ordered
    rw [hl] at ho
    exact (List.pairwise_append.mp ho).2.2 d (by simp [hb]) r (List.mem_cons_of_mem c hr)
  have hl' : h.heapAllocations = [b] ++ d :: (l ++ c :: l₂) := by
    rw [hl, hb]
    rfl
  have hcl : ∀ e ∈ l, h.entryToRestartSearch ≠ .entry e.address := by
    intro e he
    exact cursor_ne hw hl hc (by simp [hb, he])
  rw [hb]
  change searchLoop req (fuel + (d :: l).length + 1 + 1) h .head ph (.entry b.address) _ = _
  rw [searchLoop_first hw hl hc hb]
  change searchLoop req (fuel + (l.length + 1) + 1) h (.entry b.address) (some (.entry r.address))
    (.entry d.address) (some (.entry r.address)) = _
  rw [searchLoop_stale hw hrem hrm hdm hdr (by simp) hne, follow_entry hw.distinct hl']
  simp only [bind, Except.bind]
  rw [show fuel + (l.length + 1) = fuel + 1 + l.length by omega,
    searchLoop_segment hw hv hrem hl' hcl]
  change _ = Except.ok ((firstFit req d l).map (place h req))
  cases firstFit req d l with
  | some r => rfl
  | none => exact searchLoop_done hc _ _ _ _

end Wrap

section Gaps

variable {h : HeapHeader} (hw : WellFormed h) {req : Request} (hv : req.Valid)
  (hrem : req.sizeRequired.toNat ≤ h.heapSizeRemaining.toNat)
include hw hv hrem

private theorem searchGaps_head {a : HeapEntry} {l : List HeapEntry}
    (hl : h.heapAllocations = a :: l) (hc : h.entryToRestartSearch = .head) :
    searchGaps h req = .ok ((firstFit req a l).map (place h req)) := by
  have hl' : h.heapAllocations = [] ++ a :: (l ++ []) := by simp [hl]
  have hcl : ∀ e ∈ l, h.entryToRestartSearch ≠ .entry e.address := by
    intro e _
    simp [hc]
  have hfollow : follow h (.entry a.address) = .ok (firstLink (l ++ [])) :=
    follow_entry hw.distinct hl'
  unfold searchGaps
  rw [assertThat_of (by simp [hl]), hc, follow_head]
  simp only [hl, firstLink_cons, bind, Except.bind, hfollow]
  rw [show (a :: l).length + 2 = 3 + l.length by simp only [List.length_cons]; omega,
    searchLoop_segment hw hv hrem hl' hcl]
  cases firstFit req a l with
  | some r => rfl
  | none => exact searchLoop_done hc _ _ _ _

private theorem searchGaps_entry {c : HeapEntry} {l₁ l₂ : List HeapEntry}
    (hl : h.heapAllocations = l₁ ++ c :: l₂) (hc : h.entryToRestartSearch = .entry c.address) :
    searchGaps h req =
      match firstGap req l₂ with
      | some r => .ok (some (place h req r))
      | none =>
        if 2 ≤ l₁.length ∧ l₂.length ≤ 1 then .error .assertFailed
        else .ok ((firstGap req l₁.tail).map (place h req)) := by
  have hshort : l₁.length ≤ 1 → firstGap req l₁.tail = none := by
    intro hlen
    match l₁, hlen with
    | [], _ => rfl
    | [_], _ => rfl
  have hlen : (l₁ ++ c :: l₂).length = l₁.length + l₂.length + 1 := by
    simp only [List.length_append, List.length_cons]
    omega
  unfold searchGaps
  rw [assertThat_of (by simp [hl]), hc, follow_entry hw.distinct hl]
  simp only [bind, Except.bind]
  cases hl₂ : l₂ with
  | nil =>
    subst hl₂
    simp only [firstLink_nil, follow_head, firstGap_nil, hl, hlen, List.length_nil]
    by_cases hb : 2 ≤ l₁.length
    · rw [if_pos ⟨hb, by omega⟩,
        show l₁.length + 0 + 1 + 2 = 2 + l₁.length + 1 by omega,
        searchLoop_wrap_assert hw hl hc hb]
    · rw [if_neg (by omega), hshort (by omega),
        show l₁.length + 0 + 1 + 2 = 2 + l₁.length + 1 by omega,
        searchLoop_wrap_short hw hl hc (by omega)]
      rfl
  | cons a es =>
    subst hl₂
    have hl' : h.heapAllocations = (l₁ ++ [c]) ++ a :: (es ++ []) := by simp [hl]
    have hcl : ∀ e ∈ es, h.entryToRestartSearch ≠ .entry e.address := by
      intro e he heq
      have hn := hw.distinct
      rw [hl] at hn
      rw [hc] at heq
      exact hn.ne_right (List.mem_cons_of_mem a he) (Link.entry.inj heq).symm
    have hfollow : follow h (.entry a.address) = .ok (firstLink (es ++ [])) :=
      follow_entry hw.distinct hl'
    have hskip : ∀ (fuel : ℕ) (p : Link) (ph ch : Option Link),
        searchLoop req (fuel + 1) h p ph .head ch =
          searchLoop req fuel h .head ch (firstLink (l₁ ++ c :: a :: es)) ch := by
      intro fuel p ph ch
      conv_lhs => unfold searchLoop
      rw [if_neg (by simp [hc]), if_pos (Or.inl rfl), follow_head, hl]
      rfl
    simp only [firstLink_cons, hfollow, hl, hlen, List.length_cons]
    rw [show l₁.length + (es.length + 1) + 1 + 2 = 2 + l₁.length + 1 + 1 + es.length by omega,
      searchLoop_segment hw hv hrem hl' hcl]
    change _ = match firstFit req a es with
      | some r => _
      | none => _
    cases firstFit req a es with
    | some r => rfl
    | none =>
      simp only [firstLink_nil, hskip]
      by_cases hb : 2 ≤ l₁.length
      · by_cases hes : es = []
        · rw [if_pos hes, if_pos ⟨hb, by simp [hes]⟩]
          exact searchLoop_wrap_assert hw hl hc hb _ _
        · have hpos : es.length ≠ 0 := by simpa using hes
          have hlast : lastFrom a es ∈ a :: es := by
            unfold lastFrom
            exact List.getLastD_mem_cons
          rw [if_neg hes, if_neg (by omega)]
          exact searchLoop_wrap_tail hw hv hrem hl hc hlast hb _ _
      · rw [if_neg (by omega : ¬ (2 ≤ l₁.length ∧ _)), hshort (by omega)]
        exact searchLoop_wrap_short hw hl hc (by omega) _ _ _

/-- What the search does from any live restart position. -/
theorem searchGaps_eq (hne : h.heapAllocations ≠ []) (hlive : CursorLive h) :
    searchGaps h req =
      match firstGap req h.afterCursor with
      | some r => .ok (some (place h req r))
      | none =>
        if 2 ≤ h.beforeCursor.length ∧ h.afterCursor.length ≤ 1 then .error .assertFailed
        else .ok ((firstGap req h.beforeCursor.tail).map (place h req)) := by
  cases hc : h.entryToRestartSearch with
  | head =>
    obtain ⟨a, l, hl⟩ := List.exists_cons_of_ne_nil hne
    rw [searchGaps_head hw hv hrem hl hc]
    simp only [HeapHeader.afterCursor, HeapHeader.beforeCursor, hc, hl, firstGap]
    cases firstFit req a l with
    | some r => rfl
    | none => simp
  | entry a =>
    obtain ⟨c, hcm, rfl⟩ : ∃ e ∈ h.heapAllocations, e.address = a := by
      simpa [CursorLive, hc] using hlive
    obtain ⟨l₁, l₂, hl⟩ := List.append_of_mem hcm
    obtain ⟨hb, ha⟩ := cursor_split hw.distinct hl hc
    rw [searchGaps_entry hw hv hrem hl hc, hb, ha]

end Gaps

end HAL9000.Heap
