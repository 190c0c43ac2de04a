import HAL9000.Vmm.PageMapping

/-! Memory descriptor lists, `MdlAllocateEx` in `mdl.c`. One loop counts the translation pairs of a
buffer and a second one fills them in. -/
namespace HAL9000.Paging

structure MdlTranslationPair where
  address : QWORD
  numberOfBytes : DWORD
  deriving DecidableEq, Repr

/-- The array of pairs is as long as its allocation. -/
structure Mdl where
  startVa : QWORD
  byteCount : DWORD
  byteOffset : DWORD
  numberOfTranslationPairs : DWORD
  translations : List MdlTranslationPair
  deriving DecidableEq, Repr

def sizeofMdl : DWORD := 24
def sizeofMdlTranslationPair : DWORD := 16

/-- `AddressOffset(addr, PAGE_SIZE)`. -/
def pageOffset (addr : QWORD) : DWORD := (addr &&& (pageSize - 1)).setWidth 32

/-- The root is that of the paging data, or the `Cr3Base` that was passed instead. -/
def mmuGetPhysicalAddressEx (mem : PhysMemory) (virtualAddress cr3 : QWORD) : Except Fault QWORD :=
  if virtualAddress = 0 then .ok 0
  else do
    let pa ← vmmGetPhysicalAddress mem cr3 (alignAddressLower virtualAddress pageSize)
    return pa + (pageOffset virtualAddress).setWidth 64

/-- The comparison `(PBYTE)mdlCurPair.Address + mdlCurPair.NumberOfBytes == pa`. -/
def MdlTranslationPair.endsAt (p : MdlTranslationPair) (pa : QWORD) : Prop :=
  p.address + p.numberOfBytes.setWidth 64 = pa

instance (p : MdlTranslationPair) (pa : QWORD) : Decidable (p.endsAt pa) :=
  inferInstanceAs (Decidable (_ = _))

def MdlTranslationPair.addPage (p : MdlTranslationPair) : MdlTranslationPair :=
  { p with numberOfBytes := p.numberOfBytes + 0x1000 }

def MdlTranslationPair.ofPage (pa : QWORD) : MdlTranslationPair := ⟨pa, 0x1000⟩

@[simp] theorem addPage_address (p : MdlTranslationPair) : p.addPage.address = p.address := by
  simp only [MdlTranslationPair.addPage]

@[simp] theorem ofPage_address (pa : QWORD) : (MdlTranslationPair.ofPage pa).address = pa := rfl

@[simp] theorem ofPage_numberOfBytes (pa : QWORD) :
    (MdlTranslationPair.ofPage pa).numberOfBytes.toNat = 4096 := rfl

/-- The first loop, from `offset` on; returns the number of pairs. -/
def countPairsLoop (mem : PhysMemory) (cr3 alignedAddress : QWORD) (alignedSize : DWORD) :
    ℕ → DWORD → MdlTranslationPair → DWORD → Except Fault DWORD
  | 0, _, _, _ => .error .outOfFuel
  | fuel + 1, offset, mdlCurPair, noOfPairs =>
    if offset < alignedSize then do
      let pa ← mmuGetPhysicalAddressEx mem (alignedAddress + offset.setWidth 64) cr3
      assertThat (pa ≠ 0)
      if mdlCurPair.endsAt pa then
        countPairsLoop mem cr3 alignedAddress alignedSize fuel (offset + 0x1000) mdlCurPair.addPage
          noOfPairs
      else
        countPairsLoop mem cr3 alignedAddress alignedSize fuel (offset + 0x1000) (.ofPage pa)
          (noOfPairs + 1)
    else .ok noOfPairs

/-- A store to `Translations[index]`. -/
def setTranslation (translations : List MdlTranslationPair) (index : DWORD)
    (p : MdlTranslationPair) : Except Fault (List MdlTranslationPair) :=
  if index.toNat < translations.length then .ok (translations.set index.toNat p)
  else .error .danglingAccess

/-- The second loop, from `offset` on; returns the pair at hand, its index and the array. -/
def fillPairsLoop (mem : PhysMemory) (cr3 alignedAddress : QWORD) (alignedSize : DWORD) :
    ℕ → DWORD → MdlTranslationPair → DWORD → List MdlTranslationPair →
      Except Fault (MdlTranslationPair × DWORD × List MdlTranslationPair)
  | 0, _, _, _, _ => .error .outOfFuel
  | fuel + 1, offset, mdlCurPair, indexInMdlArray, translations =>
    if offset < alignedSize then do
      let pa ← mmuGetPhysicalAddressEx mem (alignedAddress + offset.setWidth 64) cr3
      assertThat (pa ≠ 0)
      if mdlCurPair.endsAt pa then
        fillPairsLoop mem cr3 alignedAddress alignedSize fuel (offset + 0x1000) mdlCurPair.addPage
          indexInMdlArray translations
      else
        let translations ← setTranslation translations indexInMdlArray mdlCurPair
        fillPairsLoop mem cr3 alignedAddress alignedSize fuel (offset + 0x1000) (.ofPage pa)
          (indexInMdlArray + 1) translations
    else .ok (mdlCurPair, indexInMdlArray, translations)

/-- `none` is `NULL`. The memory is the one after `MmuProbeMemory`, which is called for a kernel
buffer, and `allocated` says whether the pool grants the allocation. -/
def mdlAllocateEx (mem : PhysMemory) (cr3 : QWORD) (bKernelMemory allocated : Bool)
    (virtualAddress : QWORD) (length : DWORD) : Except Fault (Option Mdl) := do
  assertThat (virtualAddress ≠ 0)
  assertThat (length ≠ 0)
  let alignedAddress := alignAddressLower virtualAddress pageSize
  let alignmentDifferences := pageOffset virtualAddress
  let alignedSize : DWORD :=
    (alignAddressUpper ((length + alignmentDifferences).setWidth 64) pageSize).setWidth 32
  let fuel := alignedSize.toNat / 4096 + 1
  let address ← mmuGetPhysicalAddressEx mem virtualAddress cr3
  if address = 0 then
    assertThat (bKernelMemory = false)
    return none
  let mdlCurPair : MdlTranslationPair := ⟨address, 0x1000 - alignmentDifferences⟩
  let noOfPairs ← countPairsLoop mem cr3 alignedAddress alignedSize fuel 0x1000 mdlCurPair 1
  let mdlSize := sizeofMdl + sizeofMdlTranslationPair * noOfPairs
  if !allocated then return none
  let capacity := (mdlSize - sizeofMdl).toNat / sizeofMdlTranslationPair.toNat
  let (mdlCurPair, indexInMdlArray, translations) ← fillPairsLoop mem cr3 alignedAddress alignedSize
    fuel 0x1000 mdlCurPair 0 (List.replicate capacity ⟨0, 0⟩)
  let translations ← setTranslation translations indexInMdlArray mdlCurPair
  let indexInMdlArray := indexInMdlArray + 1
  assertThat (indexInMdlArray = noOfPairs)
  return some {
    startVa := alignedAddress
    byteCount := length
    byteOffset := alignmentDifferences
    numberOfTranslationPairs := indexInMdlArray
    translations := translations }

/-- Page after page is put into pairs, and one that starts where the pair at hand ends is added to
it. -/
def coalesce : MdlTranslationPair → List QWORD → List MdlTranslationPair
  | cur, [] => [cur]
  | cur, pa :: pas =>
    if cur.endsAt pa then coalesce cur.addPage pas else cur :: coalesce (.ofPage pa) pas

/-- The address of the `k`th byte that the pairs describe. -/
def byteAt : List MdlTranslationPair → ℕ → Option QWORD
  | [], _ => none
  | p :: ps, k =>
    if k < p.numberOfBytes.toNat then some (p.address + BitVec.ofNat 64 k)
    else byteAt ps (k - p.numberOfBytes.toNat)

/-- The number of pages of a buffer. -/
def pagesOfBuffer (virtualAddress : QWORD) (length : DWORD) : ℕ :=
  (virtualAddress.toNat % 4096 + length.toNat + 4095) / 4096

/-- The `alignedSize` that both loops run up to. -/
def mdlAlignedSize (virtualAddress : QWORD) (length : DWORD) : DWORD :=
  (alignAddressUpper ((length + pageOffset virtualAddress).setWidth 64) pageSize).setWidth 32

/-- The physical address of a byte, by the tables of the processor. -/
def physicalByte (mem : PhysMemory) (root : BitVec 40) (va : QWORD) : Option QWORD :=
  (frameAt mem (alignAddressLower va pageSize) 4 root).map fun pa => pa + (va &&& (pageSize - 1))

/-- All pages of the buffer are mapped, and to frames other than frame 0. -/
def BufferMapped (mem : PhysMemory) (root : BitVec 40) (virtualAddress : QWORD) (length : DWORD) :
    Prop :=
  ∀ k < pagesOfBuffer virtualAddress length, ∃ pa, pa ≠ 0 ∧
    frameAt mem (pageAt (alignAddressLower virtualAddress pageSize) k) 4 root = some pa

/-- The pairs describe the bytes from the start of the buffer to the end of its last page, and no
two of them could be one. -/
structure Mdl.Describes (mdl : Mdl) (mem : PhysMemory) (root : BitVec 40) (virtualAddress : QWORD)
    (length : DWORD) : Prop where
  startVa : mdl.startVa = alignAddressLower virtualAddress pageSize
  byteOffset : mdl.byteOffset.toNat = virtualAddress.toNat % 4096
  byteCount : mdl.byteCount = length
  pairs : mdl.translations.length = mdl.numberOfTranslationPairs.toNat
  total : (mdl.translations.map fun p => p.numberOfBytes.toNat).sum + virtualAddress.toNat % 4096 =
    4096 * pagesOfBuffer virtualAddress length
  bytes : ∀ k, k + virtualAddress.toNat % 4096 < 4096 * pagesOfBuffer virtualAddress length →
    byteAt mdl.translations k = physicalByte mem root (virtualAddress + BitVec.ofNat 64 k)
  merged : mdl.translations.IsChain fun p q => ¬ p.endsAt q.address

section Coalesce

variable {cur : MdlTranslationPair} {pas : List QWORD}

theorem addPage_toNat {cur : MdlTranslationPair} (h : cur.numberOfBytes.toNat + 4096 < 2 ^ 32) :
    cur.addPage.numberOfBytes.toNat = cur.numberOfBytes.toNat + 4096 := by
  have hpage : (0x1000 : DWORD).toNat = 4096 := rfl
  rw [MdlTranslationPair.addPage, BitVec.toNat_add, hpage]
  lia

/-- The first pair starts where the pair at hand starts. -/
private theorem coalesce_eq_cons (cur : MdlTranslationPair) (pas : List QWORD) :
    ∃ n ps, coalesce cur pas = ⟨cur.address, n⟩ :: ps := by
  induction pas generalizing cur with
  | nil => exact ⟨cur.numberOfBytes, [], rfl⟩
  | cons pa pas ih =>
    unfold coalesce
    split_ifs with h
    · obtain ⟨n, ps, heq⟩ := ih cur.addPage
      rw [addPage_address] at heq
      exact ⟨n, ps, heq⟩
    · exact ⟨cur.numberOfBytes, _, rfl⟩

private theorem coalesce_chain (cur : MdlTranslationPair) (pas : List QWORD) :
    (coalesce cur pas).IsChain fun p q => ¬ p.endsAt q.address := by
  induction pas generalizing cur with
  | nil => exact .singleton cur
  | cons pa pas ih =>
    unfold coalesce
    split_ifs with h
    · exact ih cur.addPage
    · obtain ⟨n, ps, heq⟩ := coalesce_eq_cons (.ofPage pa) pas
      have hrest := ih (.ofPage pa)
      rw [heq] at hrest ⊢
      rw [ofPage_address] at hrest ⊢
      exact .cons_cons h hrest

private theorem coalesce_total (h : cur.numberOfBytes.toNat + 4096 * pas.length < 2 ^ 32) :
    ((coalesce cur pas).map fun p => p.numberOfBytes.toNat).sum =
      cur.numberOfBytes.toNat + 4096 * pas.length := by
  induction pas generalizing cur with
  | nil => simp [coalesce]
  | cons pa pas ih =>
    rw [List.length_cons, Nat.mul_succ, ← Nat.add_assoc] at h ⊢
    unfold coalesce
    split_ifs with hc
    · have hadd := @addPage_toNat cur (by omega)
      rw [ih (by omega), hadd]
      omega
    · have hpage := ofPage_numberOfBytes pa
      rw [List.map_cons, List.sum_cons, ih (by omega), hpage]
      omega

private theorem coalesce_length_le (cur : MdlTranslationPair) (pas : List QWORD) :
    (coalesce cur pas).length ≤ pas.length + 1 := by
  induction pas generalizing cur with
  | nil => exact Nat.le_refl 1
  | cons pa pas ih =>
    unfold coalesce
    have hcur := ih cur.addPage
    have hnew := ih (.ofPage pa)
    split_ifs
    · exact Nat.le_succ_of_le hcur
    · exact Nat.succ_le_succ hnew

/-- The bytes of the pair at hand come first, then those of the pages. -/
private theorem byteAt_coalesce (h : cur.numberOfBytes.toNat + 4096 * pas.length < 2 ^ 32) {k : ℕ}
    (hk : k < cur.numberOfBytes.toNat + 4096 * pas.length) :
    byteAt (coalesce cur pas) k =
      if k < cur.numberOfBytes.toNat then some (cur.address + BitVec.ofNat 64 k)
      else (pas[(k - cur.numberOfBytes.toNat) / 4096]?).map fun pa =>
        pa + BitVec.ofNat 64 ((k - cur.numberOfBytes.toNat) % 4096) := by
  induction pas generalizing cur k with
  | nil =>
    rw [List.length_nil] at hk
    rw [coalesce, byteAt, if_pos (by omega), if_pos (by omega)]
  | cons pa pas ih =>
    rw [List.length_cons, Nat.mul_succ, ← Nat.add_assoc] at h hk
    unfold coalesce
    split_ifs with hc hlt hlt
    · have hadd := @addPage_toNat cur (by omega)
      rw [ih (by omega) (by omega), hadd, if_pos (by omega), addPage_address]
    · have hadd := @addPage_toNat cur (by omega)
      rw [ih (by omega) (by omega), hadd]
      split_ifs with hnext
      · have hidx : (k - cur.numberOfBytes.toNat) / 4096 = 0 := by lia
        have hmod : (k - cur.numberOfBytes.toNat) % 4096 = k - cur.numberOfBytes.toNat := by omega
        rw [hidx, hmod, List.getElem?_cons_zero, Option.map_some]
        unfold MdlTranslationPair.endsAt at hc
        rw [← hc, addPage_address]
        refine congrArg some (BitVec.eq_of_toNat_eq ?_)
        rw [BitVec.toNat_add, BitVec.toNat_add, BitVec.toNat_add, BitVec.toNat_setWidth,
          BitVec.toNat_ofNat, BitVec.toNat_ofNat]
        omega
      · have hidx : (k - cur.numberOfBytes.toNat) / 4096 =
            (k - (cur.numberOfBytes.toNat + 4096)) / 4096 + 1 := by lia
        have hmod : (k - cur.numberOfBytes.toNat) % 4096 =
            (k - (cur.numberOfBytes.toNat + 4096)) % 4096 := by lia
        rw [hidx, hmod, List.getElem?_cons_succ]
    · rw [byteAt, if_pos hlt]
    · have hpage := ofPage_numberOfBytes pa
      rw [byteAt, if_neg hlt, ih (by lia) (by omega), hpage, ofPage_address]
      split_ifs with hnext
      · have hidx : (k - cur.numberOfBytes.toNat) / 4096 = 0 := by lia
        have hmod : (k - cur.numberOfBytes.toNat) % 4096 = k - cur.numberOfBytes.toNat := by omega
        rw [hidx, hmod, List.getElem?_cons_zero, Option.map_some]
      · have hidx : (k - cur.numberOfBytes.toNat) / 4096 =
            (k - cur.numberOfBytes.toNat - 4096) / 4096 + 1 := by lia
        have hmod : (k - cur.numberOfBytes.toNat) % 4096 =
            (k - cur.numberOfBytes.toNat - 4096) % 4096 := by lia
        rw [hidx, hmod, List.getElem?_cons_succ]

theorem coalesce_ne_nil (cur : MdlTranslationPair) (pas : List QWORD) :
    coalesce cur pas ≠ [] := by
  obtain ⟨n, ps, heq⟩ := coalesce_eq_cons cur pas
  rw [heq]
  exact List.cons_ne_nil _ _

/-- The pages that do not follow the one before them. -/
def breaks : QWORD → List QWORD → ℕ
  | _, [] => 0
  | previous, pa :: pas => (if previous + pageSize = pa then 0 else 1) + breaks pa pas

theorem addPage_endsAt {pa : QWORD} (hlt : cur.numberOfBytes.toNat + 4096 < 2 ^ 32)
    (h : cur.endsAt pa) : cur.addPage.endsAt (pa + pageSize) := by
  have hadd := addPage_toNat hlt
  have hwidth : cur.addPage.numberOfBytes.setWidth 64 = cur.numberOfBytes.setWidth 64 + pageSize := by
    apply BitVec.eq_of_toNat_eq
    have hpage : pageSize.toNat = 4096 := rfl
    rw [BitVec.toNat_setWidth, BitVec.toNat_add, BitVec.toNat_setWidth, hadd, hpage]
    lia
  unfold MdlTranslationPair.endsAt at h ⊢
  rw [addPage_address, hwidth, ← BitVec.add_assoc, h]

theorem ofPage_endsAt (pa : QWORD) : (MdlTranslationPair.ofPage pa).endsAt (pa + pageSize) :=
  congrArg (pa + ·) (show (0x1000 : DWORD).setWidth 64 = pageSize by decide)

/-- There is a pair for every run of pages that follow each other. -/
theorem coalesce_length {previous : QWORD} (hlt : cur.numberOfBytes.toNat + 4096 * pas.length < 2 ^ 32)
    (h : cur.endsAt (previous + pageSize)) : (coalesce cur pas).length = breaks previous pas + 1 := by
  induction pas generalizing cur previous with
  | nil => rfl
  | cons pa pas ih =>
    rw [List.length_cons, Nat.mul_succ, ← Nat.add_assoc] at hlt
    have hpage := ofPage_numberOfBytes pa
    unfold coalesce breaks
    by_cases hnext : previous + pageSize = pa
    · rw [hnext] at h
      have hadd := @addPage_toNat cur (by omega)
      rw [if_pos h, if_pos hnext, ih (by omega) (addPage_endsAt (by omega) h), Nat.zero_add]
    · have hnot : ¬cur.endsAt pa := fun hends => hnext (h.symm.trans hends)
      have hrest := @ih (.ofPage pa) pa (by omega) (ofPage_endsAt pa)
      rw [if_neg hnot, if_neg hnext, List.length_cons, hrest]
      omega

/-- No pair is empty, and if all pages are below a limit, so are the pairs. -/
theorem coalesce_below {limit : ℕ} (hlimit : limit < 2 ^ 64)
    (h : cur.numberOfBytes.toNat + 4096 * pas.length < 2 ^ 32) (hpos : 0 < cur.numberOfBytes.toNat)
    (hcur : cur.address.toNat + cur.numberOfBytes.toNat ≤ limit)
    (hpas : ∀ pa ∈ pas, pa.toNat + 4096 ≤ limit) {p : MdlTranslationPair} (hp : p ∈ coalesce cur pas) :
    0 < p.numberOfBytes.toNat ∧ p.address.toNat + p.numberOfBytes.toNat ≤ limit := by
  induction pas generalizing cur with
  | nil =>
    obtain rfl := List.mem_singleton.mp hp
    exact ⟨hpos, hcur⟩
  | cons pa pas ih =>
    rw [List.length_cons, Nat.mul_succ, ← Nat.add_assoc] at h
    have hpa := hpas pa (by simp)
    have hrest : ∀ x ∈ pas, x.toNat + 4096 ≤ limit := fun x hx => hpas x (List.mem_cons_of_mem _ hx)
    unfold coalesce at hp
    split_ifs at hp with hnext
    · have hadd := @addPage_toNat cur (by omega)
      refine ih (by omega) (by omega) ?_ hrest hp
      have hsum : cur.address.toNat + cur.numberOfBytes.toNat = pa.toNat := by
        unfold MdlTranslationPair.endsAt at hnext
        rw [← hnext, BitVec.toNat_add, BitVec.toNat_setWidth]
        lia
      rw [addPage_address, hadd, ← Nat.add_assoc, hsum]
      exact hpa
    · have hpage := ofPage_numberOfBytes pa
      rcases List.mem_cons.mp hp with rfl | hp
      · exact ⟨hpos, hcur⟩
      · exact ih (by lia) (by omega) (by rw [hpage, ofPage_address]; exact hpa) hrest hp

/-- Only the last pair reaches the last page. -/
theorem coalesce_dropLast (h : cur.numberOfBytes.toNat + 4096 * pas.length < 2 ^ 32) (hpas : pas ≠ []) :
    ((coalesce cur pas).dropLast.map fun p => p.numberOfBytes.toNat).sum + 4096 ≤
      cur.numberOfBytes.toNat + 4096 * pas.length := by
  induction pas generalizing cur with
  | nil => exact absurd rfl hpas
  | cons pa pas ih =>
    rw [List.length_cons, Nat.mul_succ, ← Nat.add_assoc] at h ⊢
    have hadd := @addPage_toNat cur (by omega)
    have hpage := ofPage_numberOfBytes pa
    unfold coalesce
    split_ifs with hnext
    · by_cases hnil : pas = []
      · subst hnil
        simp [coalesce]
      · have hrest := @ih cur.addPage (by omega) hnil
        omega
    · rw [List.dropLast_cons_of_ne_nil (coalesce_ne_nil _ _), List.map_cons, List.sum_cons]
      by_cases hnil : pas = []
      · subst hnil
        simp [coalesce]
      · have hrest := @ih (.ofPage pa) (by lia) hnil
        omega

end Coalesce

section Loops

variable {mem : PhysMemory} {cr3 alignedAddress : QWORD} {alignedSize : DWORD} {pas : List QWORD}

/-- The pages from an offset on have the physical addresses `pas`, none of which is 0. -/
def PagesFrom (mem : PhysMemory) (cr3 alignedAddress : QWORD) (offset : DWORD) (pas : List QWORD) :
    Prop :=
  ∀ j pa, pas[j]? = some pa → pa ≠ 0 ∧ mmuGetPhysicalAddressEx mem
    (alignedAddress + (offset + BitVec.ofNat 32 (4096 * j)).setWidth 64) cr3 = .ok pa

private theorem PagesFrom.head {offset : DWORD} {pa : QWORD}
    (h : PagesFrom mem cr3 alignedAddress offset (pa :: pas)) :
    pa ≠ 0 ∧ mmuGetPhysicalAddressEx mem (alignedAddress + offset.setWidth 64) cr3 = .ok pa := by
  have h0 := h 0 pa rfl
  rwa [Nat.mul_zero, BitVec.add_zero] at h0

private theorem PagesFrom.tail {offset : DWORD} {pa : QWORD}
    (h : PagesFrom mem cr3 alignedAddress offset (pa :: pas)) :
    PagesFrom mem cr3 alignedAddress (offset + 0x1000) pas := by
  intro j pa' hj
  have hnext := h (j + 1) pa' hj
  rw [Nat.mul_succ, Nat.add_comm, BitVec.ofNat_add, ← BitVec.add_assoc] at hnext
  exact hnext

private theorem PagesFrom.cons {offset : DWORD} {pa : QWORD} (hne : pa ≠ 0)
    (hpa : mmuGetPhysicalAddressEx mem (alignedAddress + offset.setWidth 64) cr3 = .ok pa)
    (h : PagesFrom mem cr3 alignedAddress (offset + 0x1000) pas) :
    PagesFrom mem cr3 alignedAddress offset (pa :: pas) := by
  intro j pa' hj
  cases j with
  | zero =>
    cases hj
    rw [Nat.mul_zero, BitVec.add_zero]
    exact ⟨hne, hpa⟩
  | succ j =>
    have hnext := h j pa' hj
    rwa [BitVec.add_assoc, show (0x1000 : DWORD) = BitVec.ofNat 32 4096 from rfl,
      ← BitVec.ofNat_add, Nat.add_comm, ← Nat.mul_succ] at hnext

/-- The offsets of a buffer do not wrap. -/
private theorem offset_succ_toNat {offset : DWORD} {n : ℕ}
    (hsize : max alignedSize.toNat offset.toNat = offset.toNat + 4096 * n + 4096) :
    offset < alignedSize ∧ (offset + 0x1000).toNat = offset.toNat + 4096 := by
  have hlt := alignedSize.isLt
  have hpage : (0x1000 : DWORD).toNat = 4096 := rfl
  refine ⟨?_, ?_⟩
  · rw [BitVec.lt_def]
    omega
  · rw [BitVec.toNat_add, hpage]
    lia

private theorem countPairsLoop_spec {offset noOfPairs : DWORD} {cur : MdlTranslationPair} {fuel : ℕ}
    (hsize : max alignedSize.toNat offset.toNat = offset.toNat + 4096 * pas.length)
    (hpages : PagesFrom mem cr3 alignedAddress offset pas) (hfuel : pas.length < fuel) :
    countPairsLoop mem cr3 alignedAddress alignedSize fuel offset cur noOfPairs =
      .ok (noOfPairs + BitVec.ofNat 32 ((coalesce cur pas).length - 1)) := by
  induction pas generalizing offset cur noOfPairs fuel with
  | nil =>
    cases fuel with
    | zero => exact absurd hfuel (Nat.not_lt_zero _)
    | succ fuel =>
      have hend : ¬ offset < alignedSize := by
        rw [List.length_nil] at hsize
        rw [BitVec.lt_def]
        omega
      unfold countPairsLoop
      rw [if_neg hend, coalesce, List.length_singleton, Nat.sub_self, BitVec.add_zero]
  | cons pa pas ih =>
    cases fuel with
    | zero => exact absurd hfuel (Nat.not_lt_zero _)
    | succ fuel =>
      rw [List.length_cons, Nat.mul_succ, ← Nat.add_assoc] at hsize
      rw [List.length_cons, Nat.succ_lt_succ_iff] at hfuel
      obtain ⟨hlt, hnext⟩ := offset_succ_toNat hsize
      obtain ⟨hne, hpa⟩ := hpages.head
      have hrest : max alignedSize.toNat (offset + 0x1000).toNat =
          (offset + 0x1000).toNat + 4096 * pas.length := by
        rw [hnext]
        lia
      unfold countPairsLoop coalesce
      simp only [if_pos hlt, hpa, assertThat_of hne, bind, Except.bind]
      split_ifs with hc
      · exact ih hrest hpages.tail hfuel
      · have hpos := List.length_pos_of_ne_nil (coalesce_ne_nil (.ofPage pa) pas)
        rw [ih hrest hpages.tail hfuel, List.length_cons, Nat.add_sub_cancel, BitVec.add_assoc,
          show (1 : DWORD) = BitVec.ofNat 32 1 from rfl, ← BitVec.ofNat_add,
          Nat.add_sub_cancel' hpos]

private theorem setTranslation_append (before : List MdlTranslationPair) {index : DWORD} {r : ℕ}
    (hindex : index.toNat = before.length) (p z : MdlTranslationPair) :
    setTranslation (before ++ List.replicate (r + 1) z) index p =
      .ok (before ++ [p] ++ List.replicate r z) := by
  unfold setTranslation
  rw [if_pos (by simp [hindex]), hindex]
  simp [List.replicate_succ]

/-- The second loop stores all pairs but the one at hand, which is the last. -/
private theorem fillPairsLoop_spec {offset indexInMdlArray : DWORD} {cur z : MdlTranslationPair}
    {before : List MdlTranslationPair} {fuel r : ℕ}
    (hsize : max alignedSize.toNat offset.toNat = offset.toNat + 4096 * pas.length)
    (hpages : PagesFrom mem cr3 alignedAddress offset pas) (hfuel : pas.length < fuel)
    (hindex : indexInMdlArray.toNat = before.length)
    (hroom : before.length + (coalesce cur pas).length < 2 ^ 32) :
    ∃ stored last index, coalesce cur pas = stored ++ [last] ∧
      index.toNat = before.length + stored.length ∧
      fillPairsLoop mem cr3 alignedAddress alignedSize fuel offset cur indexInMdlArray
        (before ++ List.replicate (r + (coalesce cur pas).length) z) =
        .ok (last, index, before ++ stored ++ List.replicate (r + 1) z) := by
  induction pas generalizing offset cur indexInMdlArray before fuel with
  | nil =>
    cases fuel with
    | zero => exact absurd hfuel (Nat.not_lt_zero _)
    | succ fuel =>
      have hend : ¬ offset < alignedSize := by
        rw [List.length_nil] at hsize
        rw [BitVec.lt_def]
        omega
      refine ⟨[], cur, indexInMdlArray, rfl, hindex, ?_⟩
      unfold fillPairsLoop
      rw [if_neg hend, List.append_nil]
      rfl
  | cons pa pas ih =>
    cases fuel with
    | zero => exact absurd hfuel (Nat.not_lt_zero _)
    | succ fuel =>
      rw [List.length_cons, Nat.mul_succ, ← Nat.add_assoc] at hsize
      rw [List.length_cons, Nat.succ_lt_succ_iff] at hfuel
      obtain ⟨hlt, hnext⟩ := offset_succ_toNat hsize
      obtain ⟨hne, hpa⟩ := hpages.head
      have hrest : max alignedSize.toNat (offset + 0x1000).toNat =
          (offset + 0x1000).toNat + 4096 * pas.length := by
        rw [hnext]
        lia
      unfold fillPairsLoop
      unfold coalesce at hroom ⊢
      simp only [if_pos hlt, hpa, assertThat_of hne, bind, Except.bind]
      split_ifs at hroom ⊢ with hc
      · exact ih hrest hpages.tail hfuel hindex hroom
      · rw [List.length_cons] at hroom
        have hnew : (indexInMdlArray + 1).toNat = (before ++ [cur]).length := by
          rw [toNat_add_one (by omega), List.length_append, hindex, List.length_singleton]
        have hlen : (before ++ [cur]).length = before.length + 1 := by
          rw [List.length_append, List.length_singleton]
        obtain ⟨stored, last, index, heq, hidx, hrun⟩ := @ih _ _ (.ofPage pa) _ _ hrest hpages.tail
          hfuel hnew (by omega)
        refine ⟨cur :: stored, last, index, by rw [heq]; rfl, ?_, ?_⟩
        · rw [hidx, hlen, List.length_cons]
          omega
        · rw [List.length_cons, ← Nat.add_assoc, setTranslation_append before hindex]
          dsimp only
          rw [hrun]
          simp

end Loops

section Pages

variable {mem : PhysMemory} {va : QWORD}

private theorem and_pageMask (addr : QWORD) :
    (addr &&& (pageSize - 1)).toNat = addr.toNat % 4096 := by
  rw [BitVec.toNat_and, show (pageSize - 1 : QWORD).toNat = 2 ^ 12 - 1 from rfl,
    Nat.and_two_pow_sub_one_eq_mod]

private theorem and_largePageMask (addr : QWORD) :
    (addr &&& 0x1FFFFF).toNat = addr.toNat % 2 ^ 21 := by
  rw [BitVec.toNat_and, show (0x1FFFFF : QWORD).toNat = 2 ^ 21 - 1 from rfl,
    Nat.and_two_pow_sub_one_eq_mod]

theorem pageOffset_toNat (addr : QWORD) : (pageOffset addr).toNat = addr.toNat % 4096 := by
  rw [pageOffset, BitVec.toNat_setWidth, and_pageMask]
  lia

/-- The address of a page is a multiple of the page size. -/
theorem frameAt_aligned {left : ℕ} {table : BitVec 40} {pa : QWORD}
    (hva : va.toNat % 4096 = 0) (h : frameAt mem va left table = some pa) :
    pa.toNat % 4096 = 0 := by
  induction left generalizing table with
  | zero => cases h
  | succ left ih =>
    unfold frameAt at h
    dsimp only at h
    split_ifs at h with hp h0 hs h1
    · obtain rfl := Option.some.inj h
      rw [pteGetPhysicalAddress, BitVec.toNat_shiftLeft, Nat.shiftLeft_eq, shiftForPhysicalAddr]
      lia
    · obtain rfl := Option.some.inj h
      rw [pteLargePageGetPhysicalAddress, BitVec.toNat_add, BitVec.toNat_shiftLeft,
        Nat.shiftLeft_eq, shiftForLargePage, and_largePageMask]
      lia
    · exact ih h

theorem frameAt_lt {left : ℕ} {table : BitVec 40} {pa : QWORD}
    (h : frameAt mem va left table = some pa) : pa.toNat < 2 ^ 52 := by
  induction left generalizing table with
  | zero => cases h
  | succ left ih =>
    have hlt := (mem table (offsets va (3 - left))).physicalAddress.isLt
    unfold frameAt at h
    dsimp only at h
    split_ifs at h with hp h0 hs h1
    · obtain rfl := Option.some.inj h
      rw [pteGetPhysicalAddress, BitVec.toNat_shiftLeft, Nat.shiftLeft_eq, shiftForPhysicalAddr,
        BitVec.toNat_setWidth]
      lia
    · obtain rfl := Option.some.inj h
      rw [pteLargePageGetPhysicalAddress, BitVec.toNat_add, BitVec.toNat_shiftLeft,
        Nat.shiftLeft_eq, shiftForLargePage, and_largePageMask, BitVec.toNat_setWidth, BitVec.toNat_ushiftRight,
        Nat.shiftRight_eq_div_pow]
      lia
    · exact ih h

/-- Byte `k` of a buffer lies in its page number `(offset + k) / 4096`. -/
theorem alignLower_add (va : QWORD) (k : ℕ) :
    alignAddressLower (va + BitVec.ofNat 64 k) pageSize =
        pageAt (alignAddressLower va pageSize) ((va.toNat % 4096 + k) / 4096) ∧
      (va + BitVec.ofNat 64 k) &&& (pageSize - 1) = BitVec.ofNat 64 ((va.toNat % 4096 + k) % 4096) := by
  have hlt := va.isLt
  constructor
  · apply BitVec.eq_of_toNat_eq
    rw [alignLower_toNat, pageAt, BitVec.toNat_add, BitVec.toNat_add, alignLower_toNat,
      BitVec.toNat_ofNat, BitVec.toNat_ofNat]
    omega
  · apply BitVec.eq_of_toNat_eq
    rw [and_pageMask, BitVec.toNat_add, BitVec.toNat_ofNat, BitVec.toNat_ofNat]
    lia

theorem pageAt_aligned (va : QWORD) (k : ℕ) :
    (pageAt (alignAddressLower va pageSize) k).toNat % 4096 = 0 := by
  have hlt := va.isLt
  rw [pageAt, BitVec.toNat_add, alignLower_toNat, BitVec.toNat_ofNat]
  omega

/-- The physical address of an address whose page is not page 0. -/
theorem mmuGetPhysicalAddressEx_of_frameAt {cr3 pa : QWORD}
    (hnull : alignAddressLower va pageSize ≠ 0)
    (h : frameAt mem (alignAddressLower va pageSize) 4 (frameOf cr3) = some pa) :
    mmuGetPhysicalAddressEx mem va cr3 = .ok (pa + (pageOffset va).setWidth 64) := by
  have hva : va ≠ 0 := by
    intro h0
    rw [h0] at hnull
    exact hnull (by decide)
  have hal : isAddressAligned (alignAddressLower va pageSize) pageSize = true := by
    have := pageAt_aligned va 0
    rwa [pageAt, Nat.mul_zero, BitVec.add_zero, ← aligned_iff] at this
  unfold mmuGetPhysicalAddressEx
  rw [if_neg hva, vmmGetPhysicalAddress_of_frameAt hnull hal h]
  rfl

end Pages

section Buffer

variable {mem : PhysMemory} {cr3 va : QWORD} {length : DWORD}

theorem pagesOfBuffer_pos (va : QWORD) (hlen : length ≠ 0) : 0 < pagesOfBuffer va length := by
  have hpos : 0 < length.toNat := by
    apply Nat.pos_of_ne_zero
    intro h0
    exact hlen (BitVec.eq_of_toNat_eq h0)
  unfold pagesOfBuffer
  lia

/-- The physical addresses of the pages of a buffer. -/
def pagesFound (mem : PhysMemory) (root : BitVec 40) (va : QWORD) (k : ℕ) : QWORD :=
  (frameAt mem (pageAt (alignAddressLower va pageSize) k) 4 root).getD 0

theorem BufferMapped.found {root : BitVec 40} (h : BufferMapped mem root va length) {k : ℕ}
    (hk : k < pagesOfBuffer va length) :
    pagesFound mem root va k ≠ 0 ∧ frameAt mem (pageAt (alignAddressLower va pageSize) k) 4 root =
      some (pagesFound mem root va k) := by
  obtain ⟨pa, hne, heq⟩ := h k hk
  rw [pagesFound, heq, Option.getD_some]
  exact ⟨hne, rfl⟩

/-- The address of every byte, by the page it lies in. -/
private theorem BufferMapped.physicalByte {root : BitVec 40} (h : BufferMapped mem root va length)
    {k : ℕ} (hk : k + va.toNat % 4096 < 4096 * pagesOfBuffer va length) :
    physicalByte mem root (va + BitVec.ofNat 64 k) =
      some (pagesFound mem root va ((va.toNat % 4096 + k) / 4096) +
        BitVec.ofNat 64 ((va.toNat % 4096 + k) % 4096)) := by
  obtain ⟨hpage, hlow⟩ := alignLower_add va k
  have hin : (va.toNat % 4096 + k) / 4096 < pagesOfBuffer va length := by lia
  rw [Paging.physicalByte, hpage, hlow, (h.found hin).2, Option.map_some]

private theorem BufferMapped.pagesFrom (h : BufferMapped mem (frameOf cr3) va length)
    (hnull : ∀ k < pagesOfBuffer va length, pageAt (alignAddressLower va pageSize) k ≠ 0)
    (hsize : 4096 * pagesOfBuffer va length < 2 ^ 32) :
    PagesFrom mem cr3 (alignAddressLower va pageSize) 0x1000
      ((List.range' 1 (pagesOfBuffer va length - 1)).map (pagesFound mem (frameOf cr3) va)) := by
  intro j pa hj
  rw [List.getElem?_map] at hj
  by_cases hlt : j < pagesOfBuffer va length - 1
  · rw [List.getElem?_range' hlt, Option.map_some, Option.some.injEq] at hj
    have hk : 1 + 1 * j < pagesOfBuffer va length := by omega
    have haddr : alignAddressLower va pageSize +
        (0x1000 + BitVec.ofNat 32 (4096 * j) : DWORD).setWidth 64 =
        pageAt (alignAddressLower va pageSize) (1 + 1 * j) := by
      have hpage : (0x1000 : DWORD).toNat = 4096 := rfl
      apply BitVec.eq_of_toNat_eq
      rw [pageAt, BitVec.toNat_add, BitVec.toNat_add, BitVec.toNat_setWidth, BitVec.toNat_add,
        BitVec.toNat_ofNat, BitVec.toNat_ofNat, hpage]
      lia
    have hal := pageAt_aligned va (1 + 1 * j)
    have hself : alignAddressLower (pageAt (alignAddressLower va pageSize) (1 + 1 * j)) pageSize =
        pageAt (alignAddressLower va pageSize) (1 + 1 * j) := by
      apply BitVec.eq_of_toNat_eq
      rw [alignLower_toNat]
      omega
    have hoff : (pageOffset (pageAt (alignAddressLower va pageSize) (1 + 1 * j))).setWidth 64 =
        0#64 := by
      apply BitVec.eq_of_toNat_eq
      rw [BitVec.toNat_setWidth, pageOffset_toNat, hal]
      rfl
    obtain ⟨hne, hframe⟩ := h.found hk
    subst hj
    refine ⟨hne, ?_⟩
    rw [haddr, mmuGetPhysicalAddressEx_of_frameAt (by rw [hself]; exact hnull _ hk)
      (by rw [hself]; exact hframe), hoff, BitVec.add_zero]
  · rw [List.getElem?_eq_none (by rw [List.length_range']; omega)] at hj
    cases hj

/-- The `alignedSize` of a buffer is a number of 32 bits. -/
theorem mdlAlignedSize_toNat (va : QWORD) (length : DWORD) :
    (mdlAlignedSize va length).toNat = 4096 * pagesOfBuffer va length % 2 ^ 32 := by
  have hlt := length.isLt
  have hmod := Nat.mod_lt va.toNat (show 0 < 4096 by norm_num)
  have hsum : ((length + pageOffset va).setWidth 64 : QWORD).toNat =
      (va.toNat % 4096 + length.toNat) % 2 ^ 32 := by
    rw [BitVec.toNat_setWidth, BitVec.toNat_add, pageOffset_toNat]
    lia
  have hpad := alignPadding_lt ((va.toNat % 4096 + length.toNat) % 2 ^ 32)
    (show 0 < 4096 by norm_num)
  have hdvd := dvd_add_alignPadding ((va.toNat % 4096 + length.toNat) % 2 ^ 32)
    (show 0 < 4096 by norm_num)
  rw [mdlAlignedSize, BitVec.toNat_setWidth, alignAddressUpper_toNat (k := 12) rfl, hsum,
    show pageSize.toNat = 4096 from rfl, pagesOfBuffer]
  omega

/-- Both loops see the same pages, so the pairs that the first one counts are those that the second
one stores. -/
theorem mdlAllocateEx_of_pages (bKernelMemory : Bool) {pa : QWORD} {pas : List QWORD} (hva : va ≠ 0)
    (hlen : length ≠ 0) (haddress : mmuGetPhysicalAddressEx mem va cr3 = .ok pa) (hpa : pa ≠ 0)
    (hpages : PagesFrom mem cr3 (alignAddressLower va pageSize) 0x1000 pas)
    (hsize : max (mdlAlignedSize va length).toNat 4096 = 4096 + 4096 * pas.length) :
    ∃ mdl, mdlAllocateEx mem cr3 bKernelMemory true va length = .ok (some mdl) ∧
      mdl.startVa = alignAddressLower va pageSize ∧ mdl.byteCount = length ∧
      mdl.byteOffset = pageOffset va ∧
      mdl.numberOfTranslationPairs.toNat = mdl.translations.length ∧
      mdl.translations = coalesce ⟨pa, 0x1000 - pageOffset va⟩ pas := by
  have hlt := (mdlAlignedSize va length).isLt
  have hpage : (0x1000 : DWORD).toNat = 4096 := rfl
  obtain ⟨first, hdef⟩ : ∃ first : MdlTranslationPair, first = ⟨pa, 0x1000 - pageOffset va⟩ :=
    ⟨_, rfl⟩
  have hle := coalesce_length_le first pas
  have hone := List.length_pos_of_ne_nil (coalesce_ne_nil first pas)
  have hrange : max (mdlAlignedSize va length).toNat (0x1000 : DWORD).toNat =
      (0x1000 : DWORD).toNat + 4096 * pas.length := by
    rw [hpage]
    exact hsize
  have hcount := @countPairsLoop_spec _ _ _ _ _ _ 1 first
    ((mdlAlignedSize va length).toNat / 4096 + 1) hrange hpages (by omega)
  have hpairs : (1 + BitVec.ofNat 32 ((coalesce first pas).length - 1) : DWORD).toNat =
      (coalesce first pas).length := by
    have h1 : (1 : DWORD).toNat = 1 := rfl
    rw [BitVec.toNat_add, BitVec.toNat_ofNat, h1]
    omega
  have hcapacity : (sizeofMdl + sizeofMdlTranslationPair *
      (1 + BitVec.ofNat 32 ((coalesce first pas).length - 1)) - sizeofMdl : DWORD).toNat /
        sizeofMdlTranslationPair.toNat = 0 + (coalesce first pas).length := by
    have h24 : sizeofMdl.toNat = 24 := rfl
    have h16 : sizeofMdlTranslationPair.toNat = 16 := rfl
    rw [BitVec.toNat_sub, BitVec.toNat_add, BitVec.toNat_mul, hpairs, h24, h16]
    omega
  obtain ⟨stored, last, index, heq, hindex, hfill⟩ := @fillPairsLoop_spec _ _ _ _ _ _ 0 first
    ⟨0, 0⟩ [] ((mdlAlignedSize va length).toNat / 4096 + 1) 0 hrange hpages (by omega) rfl
    (by rw [List.length_nil, Nat.zero_add]; omega)
  rw [List.nil_append, List.nil_append, ← hcapacity] at hfill
  rw [List.length_nil, Nat.zero_add] at hindex
  have hstored : (coalesce first pas).length = stored.length + 1 := by
    rw [heq, List.length_append, List.length_singleton]
  have hset := setTranslation_append stored (r := 0) hindex last ⟨0, 0⟩
  rw [List.replicate_zero, List.append_nil] at hset
  have hagree : index + 1 = 1 + BitVec.ofNat 32 ((coalesce first pas).length - 1) := by
    apply BitVec.eq_of_toNat_eq
    rw [toNat_add_one (by omega), hpairs, hindex, hstored]
  refine ⟨⟨alignAddressLower va pageSize, length, pageOffset va, index + 1, stored ++ [last]⟩, ?_,
    rfl, rfl, rfl, ?_, ?_⟩
  · unfold mdlAlignedSize at hcount hfill
    unfold mdlAllocateEx
    simp only [assertThat_of hva, assertThat_of hlen, bind, Except.bind, haddress, if_neg hpa,
      ← hdef, hcount, hfill, hset, assertThat_of hagree, Bool.not_true, Bool.false_eq_true, if_false]
    rfl
  · rw [hagree, hpairs, heq]
  · rw [← hdef, heq]

/-- The pairs that both loops agree on. -/
theorem mdlAllocateEx_spec (bKernelMemory : Bool) (hlen : length ≠ 0)
    (hsize : 4096 * pagesOfBuffer va length < 2 ^ 32)
    (hnull : ∀ k < pagesOfBuffer va length, pageAt (alignAddressLower va pageSize) k ≠ 0)
    (h : BufferMapped mem (frameOf cr3) va length) :
    ∃ first mdl, first.address =
        pagesFound mem (frameOf cr3) va 0 + (pageOffset va).setWidth 64 ∧
      first.numberOfBytes.toNat = 4096 - va.toNat % 4096 ∧
      mdlAllocateEx mem cr3 bKernelMemory true va length = .ok (some mdl) ∧
      mdl.startVa = alignAddressLower va pageSize ∧ mdl.byteCount = length ∧
      mdl.byteOffset = pageOffset va ∧
      mdl.numberOfTranslationPairs.toNat = mdl.translations.length ∧
      mdl.translations = coalesce first
        ((List.range' 1 (pagesOfBuffer va length - 1)).map (pagesFound mem (frameOf cr3) va)) := by
  have hpos := pagesOfBuffer_pos va hlen
  have hbase : alignAddressLower va pageSize ≠ 0 := by
    have := hnull 0 hpos
    rwa [pageAt, Nat.mul_zero, BitVec.add_zero] at this
  have hva : va ≠ 0 := by
    intro h0
    rw [h0] at hbase
    exact hbase (by decide)
  obtain ⟨hne, hframe⟩ := h.found hpos
  have hframe' : frameAt mem (alignAddressLower va pageSize) 4 (frameOf cr3) =
      some (pagesFound mem (frameOf cr3) va 0) := by
    rwa [pageAt, Nat.mul_zero, BitVec.add_zero] at hframe
  have haddr := mmuGetPhysicalAddressEx_of_frameAt hbase hframe'
  have hoff := pageOffset_toNat va
  have hal := frameAt_aligned (pageAt_aligned va 0) hframe
  have hfirst : pagesFound mem (frameOf cr3) va 0 + (pageOffset va).setWidth 64 ≠ 0 := by
    intro h0
    apply hne
    apply BitVec.eq_of_toNat_eq
    have h0 := congrArg BitVec.toNat h0
    have hz : (0 : QWORD).toNat = 0 := rfl
    have hplt := (pagesFound mem (frameOf cr3) va 0).isLt
    rw [BitVec.toNat_add, BitVec.toNat_setWidth, hoff, hz] at h0
    rw [hz]
    lia
  have hbytes : (0x1000 - pageOffset va : DWORD).toNat = 4096 - va.toNat % 4096 := by
    rw [BitVec.toNat_sub, hoff, show (0x1000 : DWORD).toNat = 4096 from rfl]
    lia
  have hlength : max (mdlAlignedSize va length).toNat 4096 = 4096 + 4096 *
      ((List.range' 1 (pagesOfBuffer va length - 1)).map
        (pagesFound mem (frameOf cr3) va)).length := by
    rw [mdlAlignedSize_toNat, List.length_map, List.length_range']
    omega
  obtain ⟨mdl, hok, hmdl⟩ := mdlAllocateEx_of_pages bKernelMemory hva hlen haddr hfirst
    (h.pagesFrom hnull hsize) hlength
  exact ⟨⟨pagesFound mem (frameOf cr3) va 0 + (pageOffset va).setWidth 64, 0x1000 - pageOffset va⟩,
    mdl, rfl, hbytes, hok, hmdl⟩

/-- The list of a buffer outside page 0 describes it, whatever its pages are mapped to. -/
theorem mdlAllocateEx_describes (bKernelMemory : Bool) (hlen : length ≠ 0)
    (hsize : 4096 * pagesOfBuffer va length < 2 ^ 32)
    (hnull : ∀ k < pagesOfBuffer va length, pageAt (alignAddressLower va pageSize) k ≠ 0)
    (h : BufferMapped mem (frameOf cr3) va length) :
    ∃ mdl, mdlAllocateEx mem cr3 bKernelMemory true va length = .ok (some mdl) ∧
      mdl.Describes mem (frameOf cr3) va length := by
  obtain ⟨first, mdl, haddr, hbytes, hok, hstart, hcount, hoffset, hpairs, htranslations⟩ :=
    mdlAllocateEx_spec bKernelMemory hlen hsize hnull h
  have hpos := pagesOfBuffer_pos va hlen
  obtain ⟨pas, hpas⟩ : ∃ pas, pas = (List.range' 1 (pagesOfBuffer va length - 1)).map
      (pagesFound mem (frameOf cr3) va) := ⟨_, rfl⟩
  have hlength : pas.length = pagesOfBuffer va length - 1 := by
    rw [hpas, List.length_map, List.length_range']
  have hfits : first.numberOfBytes.toNat + 4096 * pas.length < 2 ^ 32 := by
    rw [hbytes, hlength]
    omega
  rw [← hpas] at htranslations
  refine ⟨mdl, hok, ⟨hstart, ?_, hcount, hpairs.symm, ?_, fun k hk => ?_, ?_⟩⟩
  · rw [hoffset, pageOffset_toNat]
  · rw [htranslations, coalesce_total hfits, hbytes, hlength]
    omega
  · rw [h.physicalByte hk, htranslations, byteAt_coalesce hfits (by rw [hbytes, hlength]; omega),
      hbytes]
    split_ifs with hin
    · have hdiv : (va.toNat % 4096 + k) / 4096 = 0 := by lia
      have hmod : (va.toNat % 4096 + k) % 4096 = va.toNat % 4096 + k := by lia
      have hoff : (pageOffset va).setWidth 64 = BitVec.ofNat 64 (va.toNat % 4096) := by
        apply BitVec.eq_of_toNat_eq
        rw [BitVec.toNat_setWidth, pageOffset_toNat, BitVec.toNat_ofNat]
      rw [hdiv, hmod, haddr, hoff, BitVec.add_assoc, ← BitVec.ofNat_add]
    · have hj : (k - (4096 - va.toNat % 4096)) / 4096 < pagesOfBuffer va length - 1 := by omega
      have hdiv : (va.toNat % 4096 + k) / 4096 =
          1 + 1 * ((k - (4096 - va.toNat % 4096)) / 4096) := by lia
      have hmod : (va.toNat % 4096 + k) % 4096 = (k - (4096 - va.toNat % 4096)) % 4096 := by lia
      rw [hpas, List.getElem?_map, List.getElem?_range' hj, Option.map_some, Option.map_some, hdiv,
        hmod]
  · rw [htranslations]
    exact coalesce_chain first pas

/-- Every page that the first loop gets past has an address. -/
private theorem countPairsLoop_pages {alignedAddress : QWORD} {alignedSize : DWORD} {fuel : ℕ}
    {offset noOfPairs n : DWORD} {cur : MdlTranslationPair}
    (hsize : alignedSize.toNat % 4096 = 0) (hoffset : offset.toNat % 4096 = 0)
    (hok : countPairsLoop mem cr3 alignedAddress alignedSize fuel offset cur noOfPairs = .ok n) :
    ∃ pas, PagesFrom mem cr3 alignedAddress offset pas ∧
      max alignedSize.toNat offset.toNat = offset.toNat + 4096 * pas.length := by
  induction fuel generalizing offset cur noOfPairs with
  | zero => cases hok
  | succ fuel ih =>
    unfold countPairsLoop at hok
    by_cases hlt : offset < alignedSize
    · rw [if_pos hlt] at hok
      obtain ⟨pa, hpa, hok⟩ := bind_eq_ok.mp hok
      obtain ⟨_, hne, hok⟩ := bind_eq_ok.mp hok
      have hlast := alignedSize.isLt
      have hpage : (0x1000 : DWORD).toNat = 4096 := rfl
      rw [BitVec.lt_def] at hlt
      have hnext : (offset + 0x1000).toNat = offset.toNat + 4096 := by
        rw [BitVec.toNat_add, hpage]
        lia
      have hrest : ∃ pas, PagesFrom mem cr3 alignedAddress (offset + 0x1000) pas ∧
          max alignedSize.toNat (offset + 0x1000).toNat =
            (offset + 0x1000).toNat + 4096 * pas.length := by
        split_ifs at hok
        · exact ih (by lia) hok
        · exact ih (by omega) hok
      obtain ⟨pas, hpages, hlen⟩ := hrest
      refine ⟨pa :: pas, hpages.cons (assertThat_eq_ok.mp hne) hpa, ?_⟩
      rw [hnext] at hlen
      rw [List.length_cons]
      lia
    · refine ⟨[], fun j pa hj => (by cases hj), ?_⟩
      rw [BitVec.lt_def] at hlt
      rw [List.length_nil]
      lia

/-- A call that returns a list has found an address for each page that it looked at. -/
theorem mdlAllocateEx_ok {bKernelMemory allocated : Bool} {mdl : Mdl}
    (h : mdlAllocateEx mem cr3 bKernelMemory allocated va length = .ok (some mdl)) :
    ∃ pa pas, mmuGetPhysicalAddressEx mem va cr3 = .ok pa ∧
      PagesFrom mem cr3 (alignAddressLower va pageSize) 0x1000 pas ∧
      max (mdlAlignedSize va length).toNat 4096 = 4096 + 4096 * pas.length ∧
      mdl.byteCount = length ∧ mdl.numberOfTranslationPairs.toNat = mdl.translations.length ∧
      mdl.translations = coalesce ⟨pa, 0x1000 - pageOffset va⟩ pas := by
  have hok := h
  obtain ⟨_, hva, h⟩ := bind_eq_ok.mp h
  obtain ⟨_, hlen, h⟩ := bind_eq_ok.mp h
  obtain ⟨pa, haddress, h⟩ := bind_eq_ok.mp h
  by_cases hnull : pa = 0
  · rw [if_pos hnull] at h
    obtain ⟨_, -, h⟩ := bind_eq_ok.mp h
    cases h
  · rw [if_neg hnull] at h
    obtain ⟨n, hcount, h⟩ := bind_eq_ok.mp h
    have hsize : (mdlAlignedSize va length).toNat % 4096 = 0 := by
      rw [mdlAlignedSize_toNat]
      omega
    obtain ⟨pas, hpages, hrange⟩ := countPairsLoop_pages hsize rfl hcount
    have hgranted : allocated = true := by
      cases allocated with
      | true => rfl
      | false => cases h
    obtain ⟨mdl', hmdl', -, hbytes, -, hpairs, htranslations⟩ := mdlAllocateEx_of_pages bKernelMemory
      (assertThat_eq_ok.mp hva) (assertThat_eq_ok.mp hlen) haddress hnull hpages hrange
    rw [hgranted, hmdl'] at hok
    cases hok
    exact ⟨pa, pas, haddress, hpages, hrange, hbytes, hpairs, htranslations⟩

/-- A list for which the pool has no memory is `NULL`. -/
theorem mdlAllocateEx_not_granted {bKernelMemory : Bool} {mdl : Mdl}
    (h : mdlAllocateEx mem cr3 bKernelMemory true va length = .ok (some mdl)) :
    mdlAllocateEx mem cr3 bKernelMemory false va length = .ok none := by
  unfold mdlAllocateEx at h ⊢
  obtain ⟨_, hva, h⟩ := bind_eq_ok.mp h
  obtain ⟨_, hlen, h⟩ := bind_eq_ok.mp h
  obtain ⟨pa, haddress, h⟩ := bind_eq_ok.mp h
  rw [hva, hlen, haddress]
  by_cases hnull : pa = 0
  · rw [if_pos hnull] at h
    obtain ⟨_, -, h⟩ := bind_eq_ok.mp h
    cases h
  · rw [if_neg hnull] at h
    obtain ⟨n, hcount, -⟩ := bind_eq_ok.mp h
    refine bind_eq_ok.mpr ⟨_, rfl, bind_eq_ok.mpr ⟨_, rfl, bind_eq_ok.mpr ⟨_, rfl, ?_⟩⟩⟩
    rw [if_neg hnull]
    exact bind_eq_ok.mpr ⟨n, hcount, rfl⟩

end Buffer

/-- Every table is frame 5, and so is every page. -/
def selfMapped : PhysMemory := fun _ _ => { PtEntry.zero with present := true, physicalAddress := 5 }

private theorem frameAt_selfMapped (va : QWORD) (root : BitVec 40) :
    frameAt selfMapped va 4 root = some 0x5000 := by
  simp [frameAt, selfMapped, PtEntry.zero, pteGetPhysicalAddress, shiftForPhysicalAddr]

theorem bufferMapped_selfMapped (va : QWORD) (length : DWORD) (root : BitVec 40) :
    BufferMapped selfMapped root va length :=
  fun _ _ => ⟨0x5000, by decide, frameAt_selfMapped _ _⟩

/-- A buffer at address 0 and one that runs over the end of the address space into page 0 are
refused by an assertion. -/
theorem mdlAllocateEx_null :
    BufferMapped selfMapped (frameOf 0x100000) 0 1 ∧
      BufferMapped selfMapped (frameOf 0x100000) 0xFFFFFFFFFFFFF000 0x1001 ∧
      mdlAllocateEx selfMapped 0x100000 true true 0 1 = .error .assertFailed ∧
      mdlAllocateEx selfMapped 0x100000 true true 0xFFFFFFFFFFFFF000 0x1001 =
        .error .assertFailed := by
  refine ⟨bufferMapped_selfMapped _ _ _, bufferMapped_selfMapped _ _ _, rfl, ?_⟩
  decide

/-- A buffer of two pages, one byte of which is left out at the start. -/
theorem mdlAllocateEx_selfMapped :
    ∃ mdl, mdlAllocateEx selfMapped 0x100000 true true 0x140000001 0x1FFF = .ok (some mdl) ∧
      mdl.Describes selfMapped (frameOf 0x100000) 0x140000001 0x1FFF := by
  apply mdlAllocateEx_describes true (by decide) (by decide)
  · decide
  · exact bufferMapped_selfMapped _ _ _

end HAL9000.Paging
