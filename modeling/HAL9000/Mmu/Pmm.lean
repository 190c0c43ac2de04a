import HAL9000.CommonLib.BitmapBits
import HAL9000.Lib.Run

/-! The physical frame allocator of `pmm.c`. The allocation bitmap has a bit for every frame, set
when the frame is reserved. `AllocationLock` makes each call one step. -/
namespace HAL9000.Pmm

open Run

/-- Returns the address of the first frame, 0 on failure, and the memory that holds the bitmap. -/
def pmmReserveMemoryEx (mem : Memory) (allocationBitmap : Bitmap) (noOfFrames : DWORD)
    (minPhysAddr : QWORD) : Except Fault (QWORD × Memory) := do
  if noOfFrames = 0 then return (0, mem)
  if !isAddressAligned minPhysAddr pageSize then return (0, mem)
  let startIdx := minPhysAddr / pageSize
  if maxDword.setWidth 64 < startIdx then return (0, mem)
  let (idx, mem') ← bitmapScanFromAndFlip mem allocationBitmap (startIdx.setWidth 32) noOfFrames
    false
  if idx = maxDword then return (0, mem')
  return (idx.setWidth 64 * pageSize, mem')

def pmmReleaseMemory (mem : Memory) (allocationBitmap : Bitmap) (physicalAddr : QWORD)
    (noOfFrames : DWORD) : Except Fault Memory := do
  assertThat (isAddressAligned physicalAddr pageSize)
  let index := physicalAddr / pageSize
  assertThat (index ≤ maxDword.setWidth 64)
  bitmapSetBitsValue mem allocationBitmap (index.setWidth 32) noOfFrames false

/-- The `n` frames from frame `i` on exist and are free. -/
def FreeRun (mem : Memory) (b : Bitmap) (n i : ℕ) : Prop :=
  BitRun mem b.bitmapBuffer false b.bitCount.toNat n i

/-- The address of a frame. -/
def frameAddress (i : ℕ) : ℕ := i * pageSize.toNat

/-- A request that was granted, with the address it was granted at. -/
structure Reservation where
  physicalAddr : QWORD
  noOfFrames : DWORD
  minPhysAddr : QWORD
  deriving DecidableEq, Repr

def Reservation.first (r : Reservation) : ℕ := r.physicalAddr.toNat / pageSize.toNat

def Reservation.Holds (r : Reservation) (i : ℕ) : Prop :=
  r.first ≤ i ∧ i < r.first + r.noOfFrames.toNat

structure PmmState where
  mem : Memory
  outstanding : List Reservation

inductive PmmAction
  | reserve (noOfFrames : DWORD) (minPhysAddr : QWORD)
  | release (r : Reservation)
  deriving DecidableEq, Repr

/-- One call; a reservation is given back as it was granted. -/
def nextPmm (b : Bitmap) (s : PmmState) : PmmAction → Option PmmState
  | .reserve n minPhysAddr =>
    match pmmReserveMemoryEx s.mem b n minPhysAddr with
    | .error _ => none
    | .ok (pa, mem') =>
      some (if pa = 0 then { s with mem := mem' }
        else { mem := mem', outstanding := s.outstanding ++ [⟨pa, n, minPhysAddr⟩] })
  | .release r =>
    if r ∈ s.outstanding then
      match pmmReleaseMemory s.mem b r.physicalAddr r.noOfFrames with
      | .error _ => none
      | .ok mem' => some { mem := mem', outstanding := s.outstanding.erase r }
    else none

/-- A request fails exactly if it asks for nothing or there is no run of free frames for it, and
else gets the lowest such run. -/
def ReservesLowest (mem : Memory) (b : Bitmap) (n : DWORD) (minPhysAddr : QWORD) : Prop :=
  ∃ pa mem', pmmReserveMemoryEx mem b n minPhysAddr = .ok (pa, mem') ∧
    (pa = 0 ↔ n = 0 ∨ ¬ ∃ i, minPhysAddr.toNat ≤ frameAddress i ∧ FreeRun mem b n.toNat i) ∧
    (pa ≠ 0 → ∃ i, pa.toNat = frameAddress i ∧
      IsLeast {i | minPhysAddr.toNat ≤ frameAddress i ∧ FreeRun mem b n.toNat i} i)

/-- What holds of the allocator after every call; `start` is the memory at the beginning. -/
structure PmmSafe (b : Bitmap) (start : Memory) (s : PmmState) : Prop where
  disjoint : s.outstanding.Pairwise fun r r' => ∀ i, ¬ (r.Holds i ∧ r'.Holds i)
  free : ∀ r ∈ s.outstanding, FreeRun start b r.noOfFrames.toNat r.first
  above : ∀ r ∈ s.outstanding, r.minPhysAddr ≤ r.physicalAddr
  reserves : ∀ n minPhysAddr, isAddressAligned minPhysAddr pageSize = true →
    ReservesLowest s.mem b n minPhysAddr
  releases : ∀ r ∈ s.outstanding,
    ∃ mem', pmmReleaseMemory s.mem b r.physicalAddr r.noOfFrames = .ok mem'
  restored : s.outstanding = [] → s.mem = start

section Reserve

variable {mem mem' : Memory} {b : Bitmap} {n : DWORD} {minPhysAddr : QWORD}

private theorem pageSize_toNat : pageSize.toNat = 2 ^ 12 := rfl

/-- A frame is at or above an aligned address exactly if its index is. -/
private theorem le_frameAddress_iff (hal : isAddressAligned minPhysAddr pageSize = true) {i : ℕ} :
    minPhysAddr.toNat ≤ frameAddress i ↔ (minPhysAddr / pageSize).toNat ≤ i := by
  have hmod := (isAddressAligned_iff pageSize_toNat).mp hal
  rw [BitVec.toNat_udiv, frameAddress, pageSize_toNat]
  rw [pageSize_toNat] at hmod
  omega

/-- `PmmReserveMemoryEx` for an aligned address. -/
theorem pmmReserveMemoryEx_spec (hbuf : b.bitmapBuffer ≠ 0)
    (hzero : bitAt mem b.bitmapBuffer 0 = true)
    (hal : isAddressAligned minPhysAddr pageSize = true) :
    ∃ pa mem', pmmReserveMemoryEx mem b n minPhysAddr = .ok (pa, mem') ∧
      ((pa = 0 ∧ mem' = mem ∧
        (n = 0 ∨ ¬ ∃ i, minPhysAddr.toNat ≤ frameAddress i ∧ FreeRun mem b n.toNat i)) ∨
        pa ≠ 0 ∧ n ≠ 0 ∧ ∃ i, pa.toNat = frameAddress i ∧
          IsLeast {i | minPhysAddr.toNat ≤ frameAddress i ∧ FreeRun mem b n.toNat i} i ∧
          ChangedBits mem mem' b.bitmapBuffer true i n.toNat) := by
  have hcount := b.bitCount.isLt
  have hle : ∀ i, minPhysAddr.toNat ≤ frameAddress i ↔ (minPhysAddr / pageSize).toNat ≤ i :=
    fun _ => le_frameAddress_iff hal
  simp only [hle]
  unfold pmmReserveMemoryEx
  by_cases hn : n = 0
  · rw [if_pos hn]
    exact ⟨0, mem, rfl, Or.inl ⟨rfl, rfl, Or.inl hn⟩⟩
  simp only [if_neg hn, hal, Bool.not_true, Bool.false_eq_true, if_false]
  by_cases hhigh : maxDword.setWidth 64 < minPhysAddr / pageSize
  · rw [if_pos hhigh]
    refine ⟨0, mem, rfl, Or.inl ⟨rfl, rfl, Or.inr fun hex => ?_⟩⟩
    obtain ⟨i, hi, hrun⟩ := hex
    have hhigh : 2 ^ 32 - 1 < (minPhysAddr / pageSize).toNat := hhigh
    have := hrun.1
    omega
  rw [if_neg hhigh]
  have hlow : (minPhysAddr / pageSize).toNat ≤ 2 ^ 32 - 1 := Nat.le_of_not_lt hhigh
  have hidx : ((minPhysAddr / pageSize).setWidth 32 : DWORD).toNat =
      (minPhysAddr / pageSize).toNat := by
    rw [BitVec.toNat_setWidth]
    lia
  obtain ⟨r, mem', hscan, hspec⟩ := bitmapScanFromAndFlip_spec mem false hbuf
    ((minPhysAddr / pageSize).setWidth 32) hn
  rw [hidx] at hspec
  simp only [hscan, bind, Except.bind]
  rcases hspec with ⟨rfl, rfl, hnone⟩ | ⟨hne, hleast, hbits⟩
  · refine ⟨0, mem', by simp [pure, Except.pure], Or.inl ⟨rfl, rfl, Or.inr fun hex => ?_⟩⟩
    obtain ⟨i, hi, hrun⟩ := hex
    exact hnone i hi hrun
  · rw [if_neg hne]
    have hpa : (r.setWidth 64 * pageSize : QWORD).toNat = frameAddress r.toNat := by
      have hlt := r.isLt
      rw [BitVec.toNat_mul, BitVec.toNat_setWidth, frameAddress, pageSize_toNat]
      lia
    refine ⟨r.setWidth 64 * pageSize, mem', rfl,
      Or.inr ⟨fun h0 => ?_, hn, r.toNat, hpa, hleast, hbits⟩⟩
    have hr0 : r.toNat = 0 := by
      rw [h0, frameAddress, pageSize_toNat] at hpa
      have h0 : (0 : QWORD).toNat = 0 := rfl
      omega
    have hpos : 0 < n.toNat := by
      apply Nat.pos_of_ne_zero
      intro h0
      exact hn (BitVec.eq_of_toNat_eq h0)
    have hbit := hleast.1.2.2 0 hpos
    rw [hr0] at hbit
    simp [hzero] at hbit

/-- A request gets the frames at its least address if these are free. -/
theorem pmmReserveMemoryEx_at (hbuf : b.bitmapBuffer ≠ 0)
    (hzero : bitAt mem b.bitmapBuffer 0 = true) (hn : n ≠ 0) {i : ℕ}
    (hpa : minPhysAddr.toNat = frameAddress i) (hrun : FreeRun mem b n.toNat i) :
    minPhysAddr ≠ 0 ∧
      ∃ mem', pmmReserveMemoryEx mem b n minPhysAddr = .ok (minPhysAddr, mem') := by
  have hal : isAddressAligned minPhysAddr pageSize = true := by
    rw [isAddressAligned_iff pageSize_toNat, hpa]
    exact Dvd.intro_left i rfl
  obtain ⟨pa, mem', hreserve, ⟨-, -, hnone⟩ | ⟨hne, -, j, hj, hleast, -⟩⟩ :=
    pmmReserveMemoryEx_spec (n := n) hbuf hzero hal
  · exact absurd ⟨i, Nat.le_of_eq hpa, hrun⟩ (hnone.resolve_left hn)
  · have hle : j ≤ i := hleast.2 ⟨Nat.le_of_eq hpa, hrun⟩
    have hge := hleast.1.1
    have heq : pa = minPhysAddr := by
      apply BitVec.eq_of_toNat_eq
      rw [frameAddress, pageSize_toNat] at hpa hj hge
      lia
    exact ⟨heq ▸ hne, mem', heq ▸ hreserve⟩

/-- A request that is granted marks frames that were free, in whatever state the bitmap is. -/
theorem pmmReserveMemoryEx_granted {pa : QWORD}
    (h : pmmReserveMemoryEx mem b n minPhysAddr = .ok (pa, mem')) (hpa : pa ≠ 0) :
    n ≠ 0 ∧ ∃ i, pa.toNat = frameAddress i ∧ FreeRun mem b n.toNat i ∧
      ChangedBits mem mem' b.bitmapBuffer true i n.toNat := by
  have hcount := b.bitCount.isLt
  unfold pmmReserveMemoryEx at h
  have hnone : (Except.ok (0, mem) : Except Fault (QWORD × Memory)) ≠ .ok (pa, mem') := by
    intro heq
    exact hpa (Prod.mk.inj (Except.ok.inj heq)).1.symm
  by_cases hn : n = 0
  · rw [if_pos hn] at h
    exact absurd h hnone
  by_cases hal : isAddressAligned minPhysAddr pageSize = true
  swap
  · simp only [if_neg hn, hal, Bool.not_false, if_true] at h
    exact absurd h hnone
  simp only [if_neg hn, hal, Bool.not_true, Bool.false_eq_true, if_false] at h
  by_cases hhigh : maxDword.setWidth 64 < minPhysAddr / pageSize
  · rw [if_pos hhigh] at h
    exact absurd h hnone
  rw [if_neg hhigh] at h
  obtain ⟨⟨r, mem₁⟩, hscan, h⟩ := bind_eq_ok.mp h
  dsimp only at h
  split_ifs at h with hr
  · cases h
    exact absurd rfl hpa
  · cases h
    have hbuf : b.bitmapBuffer ≠ 0 := by
      intro h0
      obtain ⟨k, hk⟩ : ∃ k, n.toNat = k + 1 := Nat.exists_eq_succ_of_ne_zero fun h0 =>
        hn (BitVec.eq_of_toNat_eq h0)
      simp only [bitmapScanFromAndFlip, bitmapScanFromToAndFlip, if_neg hn] at hscan
      split_ifs at hscan
      · exact hr (Prod.mk.inj (Except.ok.inj hscan)).1.symm
      · obtain ⟨i, -, hscan⟩ := bind_eq_ok.mp hscan
        split_ifs at hscan
        · exact hr (Prod.mk.inj (Except.ok.inj hscan)).1.symm
        · obtain ⟨mem₂, hbits, -⟩ := bind_eq_ok.mp hscan
          rw [hk] at hbits
          obtain ⟨mem₃, -, hbit⟩ := bind_eq_ok.mp hbits
          obtain ⟨_, hassert, -⟩ := bind_eq_ok.mp hbit
          exact assertThat_eq_ok.mp hassert h0
    obtain ⟨r', mem₂, hscan', hspec⟩ := bitmapScanFromAndFlip_spec mem false hbuf
      ((minPhysAddr / pageSize).setWidth 32) hn
    rw [hscan] at hscan'
    obtain ⟨rfl, rfl⟩ := Prod.mk.inj (Except.ok.inj hscan')
    rcases hspec with ⟨hmax, -, -⟩ | ⟨-, hleast, hbits⟩
    · exact absurd hmax hr
    · refine ⟨hn, r.toNat, ?_, hleast.1.2, hbits⟩
      have hlt := r.isLt
      rw [BitVec.toNat_mul, BitVec.toNat_setWidth, frameAddress, pageSize_toNat]
      lia

theorem pmmReserveMemoryEx_unaligned (hal : isAddressAligned minPhysAddr pageSize = false) :
    pmmReserveMemoryEx mem b n minPhysAddr = .ok (0, mem) := by
  unfold pmmReserveMemoryEx
  by_cases hn : n = 0
  · rw [if_pos hn]
    rfl
  · rw [if_neg hn, hal]
    rfl

/-- `PmmReleaseMemory` for frames inside the bitmap. -/
theorem pmmReleaseMemory_spec (mem : Memory) (hbuf : b.bitmapBuffer ≠ 0) {pa : QWORD} {i : ℕ}
    (hpa : pa.toNat = frameAddress i) (hn : n ≠ 0) (hfits : i + n.toNat ≤ b.bitCount.toNat) :
    ∃ mem', pmmReleaseMemory mem b pa n = .ok mem' ∧
      ChangedBits mem mem' b.bitmapBuffer false i n.toNat := by
  have hcount := b.bitCount.isLt
  have hpos : 0 < n.toNat := by
    apply Nat.pos_of_ne_zero
    intro h0
    exact hn (BitVec.eq_of_toNat_eq h0)
  rw [frameAddress, pageSize_toNat] at hpa
  have hal : isAddressAligned pa pageSize = true := by
    rw [isAddressAligned_iff pageSize_toNat, hpa, pageSize_toNat]
    omega
  have hdiv : (pa / pageSize).toNat = i := by
    rw [BitVec.toNat_udiv, hpa, pageSize_toNat]
    omega
  have hidx : ((pa / pageSize).setWidth 32 : DWORD).toNat = i := by
    rw [BitVec.toNat_setWidth, hdiv]
    lia
  have hmax : pa / pageSize ≤ maxDword.setWidth 64 := by
    show (pa / pageSize).toNat ≤ 2 ^ 32 - 1
    lia
  have hlow : ((pa / pageSize).setWidth 32 : DWORD) < b.bitCount := by
    show ((pa / pageSize).setWidth 32 : DWORD).toNat < _
    omega
  have hsub : (b.bitCount - n).toNat = b.bitCount.toNat - n.toNat :=
    BitVec.toNat_sub_of_le (show n.toNat ≤ b.bitCount.toNat by lia)
  have hhigh : ((pa / pageSize).setWidth 32 : DWORD) ≤ b.bitCount - n := by
    show ((pa / pageSize).setWidth 32 : DWORD).toNat ≤ _
    lia
  obtain ⟨mem', hmem, hbits⟩ := bitmapChangeBits_spec mem false hbuf
    ((pa / pageSize).setWidth 32) n.toNat (by omega)
  rw [hidx] at hbits
  refine ⟨mem', ?_, hbits⟩
  simp only [pmmReleaseMemory, bitmapSetBitsValue, assertThat_of hal, assertThat_of hmax,
    assertThat_of hlow, assertThat_of hhigh, bind, Except.bind, hmem]

end Reserve

/-- The bitmap is the one at the beginning with the outstanding reservations marked. -/
structure PmmInv (b : Bitmap) (start : Memory) (s : PmmState) : Prop where
  bits : ∀ a k, k < 8 → ((s.mem a).getLsbD k = true ↔ (start a).getLsbD k = true ∨
    ∃ r ∈ s.outstanding, Covers b.bitmapBuffer r.first r.noOfFrames.toNat a k)
  disjoint : s.outstanding.Pairwise fun r r' => ∀ i, ¬ (r.Holds i ∧ r'.Holds i)
  free : ∀ r ∈ s.outstanding, FreeRun start b r.noOfFrames.toNat r.first
  above : ∀ r ∈ s.outstanding, r.minPhysAddr ≤ r.physicalAddr
  granted : ∀ r ∈ s.outstanding, r.noOfFrames ≠ 0 ∧ r.physicalAddr.toNat = frameAddress r.first

section Runs

variable {b : Bitmap} {start : Memory} {s s' : PmmState}

/-- A frame is free if it was at the beginning and no reservation holds it. -/
private theorem PmmInv.bitAt_eq_false (hi : PmmInv b start s) {i : ℕ}
    (hfree : bitAt s.mem b.bitmapBuffer i = false) :
    bitAt start b.bitmapBuffer i = false ∧ ∀ r ∈ s.outstanding, ¬ r.Holds i := by
  have hbit := hi.bits (byteAddress b.bitmapBuffer (BitVec.ofNat 32 i)) (i % 8)
    (Nat.mod_lt i (by norm_num))
  have hnot : ¬ (s.mem (byteAddress b.bitmapBuffer (BitVec.ofNat 32 i))).getLsbD (i % 8) = true := by
    rw [bitAt] at hfree
    rw [hfree]
    rintro ⟨⟩
  rw [hbit, not_or] at hnot
  refine ⟨by simpa [bitAt] using hnot.1, fun r hr hholds => ?_⟩
  exact hnot.2 ⟨r, hr, i, hholds.1, hholds.2, rfl, rfl⟩

private theorem PmmInv.reserve (hi : PmmInv b start s) {mem' : Memory} {pa minPhysAddr : QWORD}
    {n : DWORD} {i : ℕ} (hn : n ≠ 0) (hpa : pa.toNat = frameAddress i)
    (hmin : minPhysAddr.toNat ≤ frameAddress i) (hrun : FreeRun s.mem b n.toNat i)
    (hbits : ChangedBits s.mem mem' b.bitmapBuffer true i n.toNat) :
    PmmInv b start ⟨mem', s.outstanding ++ [⟨pa, n, minPhysAddr⟩]⟩ := by
  have hfirst : (Reservation.mk pa n minPhysAddr).first = i := by
    rw [Reservation.first, hpa, frameAddress, pageSize_toNat]
    lia
  have hfree : ∀ j, i ≤ j → j < i + n.toNat → bitAt s.mem b.bitmapBuffer j = false := by
    intro j hlo hhi
    have := hrun.2 (j - i) (by omega)
    rwa [show i + (j - i) = j by omega] at this
  constructor
  · intro a k hk
    obtain ⟨hin, hout⟩ := hbits a k hk
    simp only [List.mem_append, List.mem_singleton]
    by_cases hc : Covers b.bitmapBuffer i n.toNat a k
    · refine iff_of_true (hin hc) (Or.inr ⟨⟨pa, n, minPhysAddr⟩, Or.inr rfl, ?_⟩)
      rw [hfirst]
      exact hc
    · rw [hout hc, hi.bits a k hk]
      refine or_congr_right ⟨?_, ?_⟩
      · intro h
        obtain ⟨r, hr, hcr⟩ := h
        exact ⟨r, Or.inl hr, hcr⟩
      · intro h
        obtain ⟨r, hr | rfl, hcr⟩ := h
        · exact ⟨r, hr, hcr⟩
        · rw [hfirst] at hcr
          exact absurd hcr hc
  · refine List.pairwise_append.mpr ⟨hi.disjoint, List.pairwise_singleton _ _, ?_⟩
    intro r hr r' hr' j hboth
    obtain rfl := List.mem_singleton.mp hr'
    obtain ⟨hold, hnew⟩ := hboth
    rw [Reservation.Holds, hfirst] at hnew
    exact (hi.bitAt_eq_false (hfree j hnew.1 hnew.2)).2 r hr hold
  · intro r hr
    rcases List.mem_append.mp hr with hr | hr
    · exact hi.free r hr
    · obtain rfl := List.mem_singleton.mp hr
      rw [hfirst]
      exact ⟨hrun.1, fun k hk => (hi.bitAt_eq_false (hrun.2 k hk)).1⟩
  · intro r hr
    rcases List.mem_append.mp hr with hr | hr
    · exact hi.above r hr
    · obtain rfl := List.mem_singleton.mp hr
      show minPhysAddr.toNat ≤ pa.toNat
      omega
  · intro r hr
    rcases List.mem_append.mp hr with hr | hr
    · exact hi.granted r hr
    · obtain rfl := List.mem_singleton.mp hr
      exact ⟨hn, by rw [hfirst]; exact hpa⟩

private theorem PmmInv.release (hi : PmmInv b start s) {mem' : Memory} {r : Reservation}
    (hr : r ∈ s.outstanding)
    (hbits : ChangedBits s.mem mem' b.bitmapBuffer false r.first r.noOfFrames.toNat) :
    PmmInv b start ⟨mem', s.outstanding.erase r⟩ := by
  have hcount := b.bitCount.isLt
  have hsub : ∀ r' ∈ s.outstanding.erase r, r' ∈ s.outstanding := fun _ => List.mem_of_mem_erase
  have hothers : ∀ r' ∈ s.outstanding.erase r, ∀ i, ¬ (r.Holds i ∧ r'.Holds i) := by
    have hperm := (List.perm_cons_erase hr).pairwise_iff (R := fun r r' : Reservation =>
      ∀ i, ¬ (r.Holds i ∧ r'.Holds i)) (fun h i hc => h i ⟨hc.2, hc.1⟩)
    exact (List.pairwise_cons.mp (hperm.mp hi.disjoint)).1
  constructor
  · intro a k hk
    obtain ⟨hin, hout⟩ := hbits a k hk
    by_cases hc : Covers b.bitmapBuffer r.first r.noOfFrames.toNat a k
    · refine iff_of_false (by simp [hin hc]) ?_
      obtain ⟨i, hlo, hhi, rfl, rfl⟩ := hc
      have hfits := (hi.free r hr).1
      intro hor
      rcases hor with hor | ⟨r', hr', hc'⟩
      · have hfree := (hi.free r hr).2 (i - r.first) (by omega)
        rw [show r.first + (i - r.first) = i by lia, bitAt, hor] at hfree
        cases hfree
      · have hfits' := (hi.free r' (hsub r' hr')).1
        exact hothers r' hr' i ⟨⟨hlo, hhi⟩, (covers_iff (by omega) (by omega)).mp hc'⟩
    · rw [hout hc, hi.bits a k hk]
      refine or_congr_right ⟨?_, ?_⟩
      · intro h
        obtain ⟨r', hr', hc'⟩ := h
        have hne : r' ≠ r := by
          intro heq
          exact hc (heq ▸ hc')
        exact ⟨r', (List.mem_erase_of_ne hne).mpr hr', hc'⟩
      · intro h
        obtain ⟨r', hr', hc'⟩ := h
        exact ⟨r', hsub r' hr', hc'⟩
  · exact hi.disjoint.sublist List.erase_sublist
  · exact fun r' hr' => hi.free r' (hsub r' hr')
  · exact fun r' hr' => hi.above r' (hsub r' hr')
  · exact fun r' hr' => hi.granted r' (hsub r' hr')

private theorem PmmInv.frameZero (hi : PmmInv b start s)
    (hzero : bitAt start b.bitmapBuffer 0 = true) : bitAt s.mem b.bitmapBuffer 0 = true := by
  by_contra hfree
  have := (hi.bitAt_eq_false (i := 0) (by simpa using hfree)).1
  simp [hzero] at this

theorem nextPmm_inv (hbuf : b.bitmapBuffer ≠ 0) (hzero : bitAt start b.bitmapBuffer 0 = true)
    {a : PmmAction} (hi : PmmInv b start s) (h : nextPmm b s a = some s') :
    PmmInv b start s' := by
  cases a with
  | reserve n minPhysAddr =>
    simp only [nextPmm] at h
    cases hal : isAddressAligned minPhysAddr pageSize with
    | false =>
      rw [pmmReserveMemoryEx_unaligned hal] at h
      cases h
      exact hi
    | true =>
      obtain ⟨pa, mem', heq, hspec⟩ := pmmReserveMemoryEx_spec (n := n) hbuf (hi.frameZero hzero) hal
      rw [heq] at h
      rcases hspec with ⟨rfl, rfl, -⟩ | ⟨hpa, hn, i, haddr, hleast, hbits⟩
      · cases h
        exact hi
      · simp only [if_neg hpa] at h
        cases h
        exact hi.reserve hn haddr hleast.1.1 hleast.1.2 hbits
  | release r =>
    simp only [nextPmm] at h
    split_ifs at h with hr
    obtain ⟨hn, hpa⟩ := hi.granted r hr
    obtain ⟨mem', heq, hbits⟩ := pmmReleaseMemory_spec s.mem hbuf hpa hn (hi.free r hr).1
    rw [heq] at h
    cases h
    exact hi.release hr hbits

theorem PmmInv.safe (hbuf : b.bitmapBuffer ≠ 0) (hzero : bitAt start b.bitmapBuffer 0 = true)
    (hi : PmmInv b start s) : PmmSafe b start s where
  disjoint := hi.disjoint
  free := hi.free
  above := hi.above
  reserves n minPhysAddr hal := by
    obtain ⟨pa, mem', heq, hspec⟩ := pmmReserveMemoryEx_spec (n := n) hbuf (hi.frameZero hzero) hal
    refine ⟨pa, mem', heq, ?_⟩
    rcases hspec with ⟨rfl, -, hnone⟩ | ⟨hpa, hn, i, haddr, hleast, -⟩
    · exact ⟨iff_of_true rfl hnone, fun h => absurd rfl h⟩
    · refine ⟨iff_of_false hpa ?_, fun _ => ⟨i, haddr, hleast⟩⟩
      exact not_or_intro hn (not_not_intro ⟨i, hleast.1⟩)
  releases r hr := by
    obtain ⟨hn, hpa⟩ := hi.granted r hr
    obtain ⟨mem', heq, -⟩ := pmmReleaseMemory_spec s.mem hbuf hpa hn (hi.free r hr).1
    exact ⟨mem', heq⟩
  restored hnil := by
    funext a
    apply BitVec.eq_of_getLsbD_eq
    intro k hk
    rw [Bool.eq_iff_iff, hi.bits a k hk, hnil]
    simp

end Runs

/-- In every sequence of calls, from any bitmap in which frame 0 is reserved. -/
theorem always_pmmSafe {b : Bitmap} {start : Memory} (hbuf : b.bitmapBuffer ≠ 0)
    (hzero : bitAt start b.bitmapBuffer 0 = true) {tr : List (PmmState × PmmAction)} {s : PmmState}
    (h : Exec (fun s a s' => nextPmm b s a = some s') ⟨start, []⟩ tr s) :
    Always (PmmSafe b start) tr s := by
  have hstart : PmmInv b start ⟨start, []⟩ := by
    constructor <;> simp
  have hinv := h.always hstart (fun _ _ _ hi hs => nextPmm_inv hbuf hzero hi hs)
  exact hinv.mono fun _ hi => hi.safe hbuf hzero

/-- A bitmap of eight frames at address `0x1000`. -/
def eightFrames : Bitmap := ⟨0x1000, 1, 8⟩

/-- Frames 0 and 5 are reserved. -/
def twoReserved : Memory := fun _ => 0x21

/-- A reservation of frames 1 and 2, then one from frame 4 on, which gets the last two. -/
def reserveAndRelease : List PmmAction :=
  [.reserve 2 0, .reserve 2 0x4000, .reserve 3 0, .release ⟨0x1000, 2, 0⟩,
    .release ⟨0x6000, 2, 0x4000⟩]

theorem reserveAndRelease_safe :
    ∃ h : (exec (nextPmm eightFrames) ⟨twoReserved, []⟩ reserveAndRelease).isSome,
      ((exec (nextPmm eightFrames) ⟨twoReserved, []⟩ reserveAndRelease).get h).2.outstanding = [] ∧
      Always (PmmSafe eightFrames twoReserved)
        ((exec (nextPmm eightFrames) ⟨twoReserved, []⟩ reserveAndRelease).get h).1
        ((exec (nextPmm eightFrames) ⟨twoReserved, []⟩ reserveAndRelease).get h).2 :=
  ⟨by decide, by decide, always_pmmSafe (by decide) (by decide) (exec_get (by decide))⟩

/-- A request for no frames fails, although a run of no frames is free everywhere. -/
theorem zeroFrames_refused :
    eightFrames.bitmapBuffer ≠ 0 ∧ bitAt twoReserved eightFrames.bitmapBuffer 0 = true ∧
      isAddressAligned 0 pageSize = true ∧
      pmmReserveMemoryEx twoReserved eightFrames 0 0 = .ok (0, twoReserved) ∧
      ∃ i, (0 : QWORD).toNat ≤ frameAddress i ∧
        FreeRun twoReserved eightFrames (0 : DWORD).toNat i := by
  refine ⟨by decide, by decide, by decide, rfl, 1, by decide, by decide, fun k hk => ?_⟩
  exact absurd hk (by simp)

end HAL9000.Pmm
