import HAL9000.CommonLib.Heap.Links
import Mathlib

/-! The layout invariant of the heap and the specification of entry placement in natural
numbers: under the invariant no address or size computation of the allocator wraps. -/
namespace HAL9000.Heap

@[simp] theorem sizeofHeapHeader_toNat : sizeofHeapHeader.toNat = 72 := rfl
@[simp] theorem sizeofHeapEntry_toNat : sizeofHeapEntry.toNat = 32 := rfl
@[simp] theorem sizeofHeapTail_toNat : sizeofHeapTail.toNat = 4 := rfl

/-- Bytes an entry occupies: header, data and tail. -/
def HeapEntry.footprint (e : HeapEntry) : ℕ := e.size.toNat + 36

/-- First byte behind an entry, as a number. -/
def HeapEntry.endNat (e : HeapEntry) : ℕ := e.address.toNat + e.footprint

/-- What `_InitHeapEntry` writes into a fresh entry. -/
def newEntry (address : QWORD) (tag size : DWORD) : HeapEntry :=
  ⟨address, heapMagic, tag, size, 0x20, heapMagic⟩

/-- The end of the last entry, or of the header when there is none. -/
def lastEnd (start : ℕ) (l : List HeapEntry) : ℕ := (l.getLast?.map HeapEntry.endNat).getD start

/-- Entries carry their magics, a tag and the offset of their data. -/
structure HeapEntry.Sealed (e : HeapEntry) : Prop where
  magic : e.magic = heapMagic
  tailMagic : e.tailMagic = heapMagic
  tag : e.tag ≠ 0
  offset : e.offset = 0x20

/-- The invariant of every heap reached by valid calls. -/
structure WellFormed (h : HeapHeader) : Prop where
  small : h.heapSizeMaximum.toNat < 2 ^ 32
  room : 104 ≤ h.heapSizeMaximum.toNat
  noWrap : h.baseAddress.toNat + h.heapSizeMaximum.toNat ≤ 2 ^ 64
  ordered : h.heapAllocations.Pairwise fun a b => a.endNat ≤ b.address.toNat
  above : ∀ e ∈ h.heapAllocations, h.baseAddress.toNat + 72 ≤ e.address.toNat
  sealed : ∀ e ∈ h.heapAllocations, e.Sealed
  free : h.freeAddress.toNat = lastEnd (h.baseAddress.toNat + 72) h.heapAllocations
  below : h.freeAddress.toNat + 32 ≤ h.baseAddress.toNat + h.heapSizeMaximum.toNat
  count : h.heapNumberOfAllocations.toNat = h.heapAllocations.length
  remaining : h.heapSizeRemaining.toNat + (h.heapAllocations.map HeapEntry.footprint).sum =
    h.heapSizeMaximum.toNat - 72

theorem lastEnd_append (start : ℕ) (l : List HeapEntry) (e : HeapEntry) :
    lastEnd start (l ++ [e]) = e.endNat := by
  simp [lastEnd]

theorem lastEnd_cons_cons (start : ℕ) (a b : HeapEntry) (l : List HeapEntry) :
    lastEnd start (a :: b :: l) = lastEnd start (b :: l) := by
  simp [lastEnd, List.getLast?_cons_cons]

theorem lastEnd_append_cons (start : ℕ) (l₁ l₂ : List HeapEntry) (e : HeapEntry) :
    lastEnd start (l₁ ++ e :: l₂) = lastEnd start (e :: l₂) := by
  unfold lastEnd
  rw [List.getLast?_append, List.getLast?_cons, Option.some_or]

/-- In an ordered list no entry ends behind the last one. -/
theorem endNat_le_lastEnd {l : List HeapEntry} (start : ℕ)
    (ho : l.Pairwise fun a b => a.endNat ≤ b.address.toNat) {e : HeapEntry} (he : e ∈ l) :
    e.endNat ≤ lastEnd start l := by
  obtain ⟨l', b, rfl⟩ : ∃ l' b, l = l' ++ [b] := by
    exact ⟨l.dropLast, l.getLast (List.ne_nil_of_mem he), (List.dropLast_append_getLast _).symm⟩
  rw [lastEnd_append]
  rcases List.mem_append.mp he with hm | hm
  · have hb := (List.pairwise_append.mp ho).2.2 e hm b (List.mem_singleton.mpr rfl)
    unfold HeapEntry.endNat at hb ⊢
    omega
  · rw [List.mem_singleton.mp hm]

namespace WellFormed

variable {h : HeapHeader}

theorem endNat_le_free (hw : WellFormed h) {e : HeapEntry} (he : e ∈ h.heapAllocations) :
    e.endNat ≤ h.freeAddress.toNat := by
  rw [hw.free]
  exact endNat_le_lastEnd _ hw.ordered he

theorem header_le_free (hw : WellFormed h) : h.baseAddress.toNat + 72 ≤ h.freeAddress.toNat := by
  cases hl : h.heapAllocations with
  | nil =>
    rw [hw.free, hl]
    exact le_rfl
  | cons e l =>
    have he : e ∈ h.heapAllocations := by simp [hl]
    have ha := hw.above e he
    have hf := hw.endNat_le_free he
    unfold HeapEntry.endNat at hf
    omega

theorem distinct (hw : WellFormed h) : DistinctAddresses h.heapAllocations := by
  refine List.Pairwise.map _ ?_ hw.ordered
  intro a b hab hc
  unfold HeapEntry.endNat HeapEntry.footprint at hab
  rw [hc] at hab
  omega

theorem endAddress_toNat (hw : WellFormed h) {e : HeapEntry} (he : e ∈ h.heapAllocations) :
    e.endAddress.toNat = e.endNat := by
  have hf := hw.endNat_le_free he
  have hl := h.freeAddress.isLt
  have hs := e.size.isLt
  unfold HeapEntry.endNat HeapEntry.footprint at hf ⊢
  simp only [HeapEntry.endAddress, BitVec.toNat_add, BitVec.toNat_setWidth, sizeofHeapEntry_toNat,
    sizeofHeapTail_toNat]
  lia

/-- The space left plus the space of the entries is the heap, so the fields do not wrap. -/
theorem remaining_lt (hw : WellFormed h) : h.heapSizeRemaining.toNat + 72 < 2 ^ 32 := by
  have hr := hw.remaining
  have hs := hw.small
  have hm := hw.room
  lia

theorem length_lt (hw : WellFormed h) : h.heapAllocations.length < 2 ^ 32 := by
  have hsum : ∀ l : List HeapEntry, l.length ≤ (l.map HeapEntry.footprint).sum := by
    intro l
    induction l with
    | nil => exact le_rfl
    | cons e l ih =>
      simp only [List.length_cons, List.map_cons, List.sum_cons, HeapEntry.footprint]
      omega
  have hr := hw.remaining
  have hs := hw.small
  have hl := hsum h.heapAllocations
  lia

theorem remainingSizeUntilEnd_toNat (hw : WellFormed h) :
    h.remainingSizeUntilEnd.toNat + h.freeAddress.toNat + 32 =
      h.baseAddress.toNat + h.heapSizeMaximum.toNat := by
  have hb := hw.below
  have hn := hw.noWrap
  have hf := hw.header_le_free
  have hl := h.freeAddress.isLt
  simp only [HeapHeader.remainingSizeUntilEnd, BitVec.toNat_sub, BitVec.toNat_add,
    sizeofHeapEntry_toNat]
  omega

end WellFormed

theorem validateHeapEntry_eq {e : HeapEntry} (hs : e.Sealed) :
    validateHeapEntry e e.tag = .ok true := by
  have ht : e.tag ≠ 0#32 := hs.tag
  unfold validateHeapEntry
  rw [assertThat_of hs.tag]
  simp [bind, Except.bind, pure, Except.pure, hs.magic, hs.tailMagic, ht]

/-- A request whose alignment is the default or a power of two. -/
def Request.Valid (req : Request) : Prop :=
  req.tag ≠ 0 ∧ (req.allocationAlignment = 0 ∨ ∃ k, req.allocationAlignment.toNat = 2 ^ k)

theorem Request.Valid.alignment {req : Request} (hv : req.Valid) :
    ∃ k, (req.alignment.setWidth 64).toNat = 2 ^ k := by
  have hw : (req.alignment.setWidth 64).toNat = req.alignment.toNat := by
    rw [BitVec.toNat_setWidth]
    have := req.alignment.isLt
    omega
  rw [hw]
  unfold Request.alignment
  rcases hv.2 with h0 | ⟨k, hk⟩
  · rw [if_pos h0]
    exact ⟨4, rfl⟩
  · split_ifs
    · exact ⟨4, rfl⟩
    · exact ⟨k, hk⟩

/-- Padding in front of a fresh entry that may start at `start`. -/
def Request.padding (req : Request) (start : ℕ) : ℕ :=
  alignPadding (start + 32) req.alignment.toNat

/-- Bytes from `start` to the end of a fresh entry. -/
def Request.needed (req : Request) (start : ℕ) : ℕ :=
  req.padding start + req.allocationSize.toNat + 36

def Request.entryAt (req : Request) (start : QWORD) : HeapEntry :=
  newEntry (start + BitVec.ofNat 64 (req.padding start.toNat)) req.tag req.allocationSize

/-- The header after an entry of the requested size has been accounted for. -/
def account (h : HeapHeader) (req : Request) : HeapHeader :=
  { h with
    heapSizeRemaining := h.heapSizeRemaining - req.sizeRequired
    heapNumberOfAllocations := h.heapNumberOfAllocations + 1 }

theorem Request.sizeRequired_toNat (req : Request) :
    req.sizeRequired.toNat = req.allocationSize.toNat + 36 := by
  have hs := req.allocationSize.isLt
  simp only [Request.sizeRequired, BitVec.toNat_add, BitVec.toNat_setWidth, sizeofHeapEntry_toNat,
    sizeofHeapTail_toNat]
  lia

theorem Request.padding_lt {req : Request} (hv : req.Valid) (start : ℕ) :
    req.padding start < 2 ^ 32 := by
  obtain ⟨k, hk⟩ := hv.alignment
  have hw : req.alignment.toNat = 2 ^ k := by
    rw [← hk, BitVec.toNat_setWidth]
    have := req.alignment.isLt
    lia
  have hp : 0 < req.alignment.toNat := by rw [hw]; positivity
  have hl := alignPadding_lt (start + 32) hp
  have := req.alignment.isLt
  unfold Request.padding
  omega

/-- Placement in natural numbers: the entry goes to the first aligned place behind `start`
if it ends within `sizeAvailable`, and the returned address is the end of the entry. -/
theorem initHeapEntry_eq (h : HeapHeader) {req : Request} (hv : req.Valid) (start avail : QWORD)
    (add : Bool) (hsize : req.allocationSize.toNat + 36 < 2 ^ 32)
    (hstart : start.toNat + 32 < 2 ^ 64) :
    initHeapEntry h start req.tag req.allocationSize req.alignment add avail =
      if avail.toNat < req.needed start.toNat then (h, none, 0)
      else
        let e := req.entryAt start
        ({ account h req with
            heapAllocations := if add then h.heapAllocations ++ [e] else h.heapAllocations },
          some e, e.endAddress) := by
  obtain ⟨k, hk⟩ := hv.alignment
  have hw : (req.alignment.setWidth 64).toNat = req.alignment.toNat := by
    rw [BitVec.toNat_setWidth]
    have := req.alignment.isLt
    lia
  have hpad := Request.padding_lt hv start.toNat
  have hs := req.sizeRequired_toNat
  set n := req.padding start.toNat with hn
  have hu : (start + sizeofHeapEntry).toNat = start.toNat + 32 := by
    rw [BitVec.toNat_add, sizeofHeapEntry_toNat]
    lia
  have hdata : alignAddressUpper (start + sizeofHeapEntry) (req.alignment.setWidth 64) =
      start + BitVec.ofNat 64 n + sizeofHeapEntry := by
    apply BitVec.eq_of_toNat_eq
    rw [alignAddressUpper_toNat hk, hu, hw]
    change (start.toNat + 32 + n) % 2 ^ 64 = _
    simp only [BitVec.toNat_add, BitVec.toNat_ofNat, sizeofHeapEntry_toNat]
    lia
  have hgap : start + BitVec.ofNat 64 n + sizeofHeapEntry - (start + sizeofHeapEntry) =
      BitVec.ofNat 64 n := by bv_omega
  have haddr : start + BitVec.ofNat 64 n + sizeofHeapEntry - sizeofHeapEntry =
      start + BitVec.ofNat 64 n := by bv_omega
  have hoff : start + BitVec.ofNat 64 n + sizeofHeapEntry - (start + BitVec.ofNat 64 n) =
      sizeofHeapEntry := by bv_omega
  have hsize' : ((req.allocationSize.setWidth 64 + sizeofHeapEntry + sizeofHeapTail).setWidth 32
      : DWORD).setWidth 64 = req.sizeRequired := by
    apply BitVec.eq_of_toNat_eq
    change ((req.sizeRequired.setWidth 32 : DWORD).setWidth 64 : QWORD).toNat = _
    simp only [BitVec.toNat_setWidth]
    lia
  have hcond : avail < BitVec.ofNat 64 n + req.sizeRequired ↔
      avail.toNat < req.needed start.toNat := by
    rw [BitVec.lt_def, BitVec.toNat_add, BitVec.toNat_ofNat, hs]
    unfold Request.needed
    rw [← hn]
    lia
  unfold initHeapEntry
  simp only [hdata, hgap, hsize', hcond, haddr, hoff]
  split_ifs
  · rfl
  · rfl
  · rfl

theorem Request.entryAt_address {req : Request} {start : QWORD}
    (hs : start.toNat + req.needed start.toNat < 2 ^ 64) :
    (req.entryAt start).address.toNat = start.toNat + req.padding start.toNat := by
  unfold Request.needed at hs
  simp only [Request.entryAt, newEntry, BitVec.toNat_add, BitVec.toNat_ofNat]
  lia

theorem Request.entryAt_endNat {req : Request} {start : QWORD}
    (hs : start.toNat + req.needed start.toNat < 2 ^ 64) :
    (req.entryAt start).endNat = start.toNat + req.needed start.toNat := by
  rw [HeapEntry.endNat, Request.entryAt_address hs]
  simp only [HeapEntry.footprint, Request.entryAt, newEntry, Request.needed]
  omega

/-- The address returned for a fresh entry is not the failure value. -/
theorem Request.entryAt_endAddress {req : Request} {start : QWORD}
    (hs : start.toNat + req.needed start.toNat < 2 ^ 64) :
    (req.entryAt start).endAddress.toNat = start.toNat + req.needed start.toNat := by
  have ha := Request.entryAt_address hs
  have hz := req.allocationSize.isLt
  unfold Request.needed at hs ⊢
  simp only [HeapEntry.endAddress, BitVec.toNat_add, ha, sizeofHeapEntry_toNat,
    sizeofHeapTail_toNat, BitVec.toNat_setWidth]
  simp only [Request.entryAt, newEntry]
  lia

theorem Request.entryAt_sealed {req : Request} (hv : req.Valid) (start : QWORD) :
    (req.entryAt start).Sealed :=
  ⟨rfl, rfl, hv.1, rfl⟩

/-- Linking a fresh entry at its place in the address order keeps the invariant, whichever
of the two placement paths computed the place. -/
theorem WellFormed.insert {h : HeapHeader} (hw : WellFormed h) {req : Request} {e : HeapEntry}
    {l₁ l₂ : List HeapEntry} (hl : h.heapAllocations = l₁ ++ l₂) (he : e.Sealed)
    (hsize : e.size = req.allocationSize)
    (hbase : h.baseAddress.toNat + 72 ≤ e.address.toNat)
    (hlo : ∀ a ∈ l₁, a.endNat ≤ e.address.toNat) (hhi : ∀ b ∈ l₂, e.endNat ≤ b.address.toNat)
    (hrem : req.sizeRequired.toNat ≤ h.heapSizeRemaining.toNat) {f : QWORD} (c : Link)
    (hfree : f.toNat = lastEnd (h.baseAddress.toNat + 72) (l₁ ++ e :: l₂))
    (hbelow : f.toNat + 32 ≤ h.baseAddress.toNat + h.heapSizeMaximum.toNat) :
    WellFormed { account h req with
      heapAllocations := l₁ ++ e :: l₂, freeAddress := f, entryToRestartSearch := c } := by
  have hreq : req.sizeRequired.toNat = e.footprint := by
    rw [req.sizeRequired_toNat, HeapEntry.footprint, hsize]
  have hsum : ((l₁ ++ e :: l₂).map HeapEntry.footprint).sum =
      (h.heapAllocations.map HeapEntry.footprint).sum + e.footprint := by
    rw [hl]
    simp only [List.map_append, List.map_cons, List.sum_append, List.sum_cons]
    omega
  have hsub : (h.heapSizeRemaining - req.sizeRequired).toNat =
      h.heapSizeRemaining.toNat - e.footprint := by
    rw [BitVec.toNat_sub_of_le (BitVec.le_def.mpr hrem), hreq]
  have ho := hw.ordered
  rw [hl] at ho
  obtain ⟨ho₁, ho₂, ho₁₂⟩ := List.pairwise_append.mp ho
  have hmem : ∀ a, a ∈ l₁ ++ e :: l₂ ↔ a = e ∨ a ∈ h.heapAllocations := by
    intro a
    rw [hl]
    simp only [List.mem_append, List.mem_cons]
    tauto
  constructor
  · exact hw.small
  · exact hw.room
  · exact hw.noWrap
  · refine List.pairwise_append.mpr ⟨ho₁, List.pairwise_cons.mpr ⟨hhi, ho₂⟩, ?_⟩
    intro a ha b hb
    rcases List.mem_cons.mp hb with rfl | hb
    · exact hlo a ha
    · exact ho₁₂ a ha b hb
  · intro a ha
    rcases (hmem a).mp ha with rfl | ha
    · exact hbase
    · exact hw.above a ha
  · intro a ha
    rcases (hmem a).mp ha with rfl | ha
    · exact he
    · exact hw.sealed a ha
  · exact hfree
  · exact hbelow
  · have hc := hw.count
    have hlen : (l₁ ++ e :: l₂).length = h.heapAllocations.length + 1 := by
      rw [hl]
      simp only [List.length_append, List.length_cons]
      omega
    have hle := hw.length_lt
    change (h.heapNumberOfAllocations + 1).toNat = _
    rw [hlen, BitVec.toNat_add]
    change (h.heapNumberOfAllocations.toNat + 1) % 2 ^ 64 = _
    lia
  · have hr := hw.remaining
    change (h.heapSizeRemaining - req.sizeRequired).toNat + _ = _
    rw [hsub, hsum]
    change h.heapSizeRemaining.toNat - e.footprint + _ = h.heapSizeMaximum.toNat - 72
    lia

theorem wellFormed_of_init {base mem : QWORD} {h : HeapHeader} (hi : clHeapInit base mem = .ok h)
    (hm : mem.toNat < 2 ^ 32) (hn : base.toNat + mem.toNat ≤ 2 ^ 64) : WellFormed h := by
  unfold clHeapInit at hi
  split_ifs at hi with h0 hmin
  have hmin' : 65536 ≤ mem.toNat := by
    have := BitVec.not_lt.mp hmin
    exact BitVec.le_def.mp this
  have hbase : (base + sizeofHeapHeader).toNat = base.toNat + 72 := by
    rw [BitVec.toNat_add, sizeofHeapHeader_toNat]
    lia
  cases hi
  constructor
  · exact hm
  · change 104 ≤ mem.toNat
    omega
  · exact hn
  · exact List.Pairwise.nil
  · intro e he
    cases he
  · intro e he
    cases he
  · exact hbase
  · change (base + sizeofHeapHeader).toNat + 32 ≤ base.toNat + mem.toNat
    omega
  · rfl
  · change (mem - sizeofHeapHeader).toNat + 0 = mem.toNat - 72
    rw [BitVec.toNat_sub, sizeofHeapHeader_toNat]
    lia

section Place

variable {h : HeapHeader} (hw : WellFormed h) {req : Request} (hv : req.Valid)
  (hrem : req.sizeRequired.toNat ≤ h.heapSizeRemaining.toNat)
include hw hv hrem

/-- The attempt behind `FreeAddress` succeeds exactly when the padded entry and one more
header fit before the end of the heap. -/
theorem placeAtEnd_eq :
    placeAtEnd h req =
      if h.remainingSizeUntilEnd.toNat < req.needed h.freeAddress.toNat then (h, none)
      else ({ account h req with
          heapAllocations := h.heapAllocations ++ [req.entryAt h.freeAddress]
          freeAddress := (req.entryAt h.freeAddress).endAddress },
        some (req.entryAt h.freeAddress)) := by
  have hu := hw.remainingSizeUntilEnd_toNat
  have hlt := hw.remaining_lt
  have hn := hw.noWrap
  have hs := hw.small
  have hf := hw.header_le_free
  have hq := req.sizeRequired_toNat
  have hneed : req.sizeRequired.toNat ≤ req.needed h.freeAddress.toNat := by
    unfold Request.needed
    omega
  unfold placeAtEnd
  by_cases hsle : req.sizeRequired.sle h.remainingSizeUntilEnd = true
  · have hle := (sle_iff_toNat_le (by omega) (by lia)).mp hsle
    rw [if_pos hsle, initHeapEntry_eq h hv _ _ _ (by omega) (by lia)]
    by_cases hfit : h.remainingSizeUntilEnd.toNat < req.needed h.freeAddress.toNat
    · simp [hfit]
    · have hroom : h.freeAddress.toNat + req.needed h.freeAddress.toNat < 2 ^ 64 := by lia
      have hend := Request.entryAt_endAddress hroom
      have hz : (req.entryAt h.freeAddress).endAddress ≠ 0 := by
        intro hz
        rw [hz] at hend
        change 0 = _ at hend
        lia
      simp only [hfit, if_false, if_true, if_neg hz]
  · rw [if_neg hsle]
    rw [sle_iff_toNat_le (by omega) (by omega)] at hsle
    rw [if_pos (by lia)]

theorem placeAtEnd_wellFormed {h' : HeapHeader} {r : Option HeapEntry}
    (hp : placeAtEnd h req = (h', r)) : WellFormed h' := by
  rw [placeAtEnd_eq hw hv hrem] at hp
  have hu := hw.remainingSizeUntilEnd_toNat
  have hn := hw.noWrap
  split_ifs at hp with hfit
  · cases hp
    exact hw
  · have hroom : h.freeAddress.toNat + req.needed h.freeAddress.toNat < 2 ^ 64 := by omega
    have ha := Request.entryAt_address hroom
    have he := Request.entryAt_endNat hroom
    have hend := Request.entryAt_endAddress hroom
    have hf := hw.header_le_free
    cases hp
    refine hw.insert (List.append_nil _).symm (req.entryAt_sealed hv _) rfl (by lia) ?_ ?_ hrem
      h.entryToRestartSearch ?_ ?_
    · intro a hmem
      have := hw.endNat_le_free hmem
      lia
    · intro b hmem
      cases hmem
    · rw [lastEnd_append, hend, he]
    · lia

end Place

end HAL9000.Heap
