import HAL9000.Vmm.Metadata

/-! Validation of user buffers, `MmuIsBufferValid` in `mmu.c` and `VmmIsBufferValid` in `vmm.c`,
for a process whose page tables are not those of the kernel. -/
namespace HAL9000.Vmm

open Run

def vaHighestValidBit : ℕ := 47

/-- The data of a `PROCESS` that buffer validation reads. -/
structure Process where
  imageBase : QWORD
  imageSize : DWORD
  vaSpace : VmmReservationSpace

def vmIsKernelAddress (address : QWORD) : Bool :=
  address &&& (1#64 <<< vaHighestValidBit) == 1#64 <<< vaHighestValidBit

def vmIsKernelRange (address rangeSize : QWORD) : Bool :=
  vmIsKernelAddress address || vmIsKernelAddress (address + (rangeSize - 1))

def vmmIsBufferValid (buffer bufferSize : QWORD) (rightsRequested : DWORD)
    (s : VmmReservationSpace) (kernelAccess : Bool) : Except Fault Status := do
  assertThat (buffer ≠ 0)
  assertThat (bufferSize ≠ 0)
  if !kernelAccess && vmIsKernelRange buffer bufferSize then .ok .memoryPreventsUsermodeAccess
  else
    match ← vmReservationReturnRightsForAddress s buffer bufferSize with
    | none => .ok .memoryIsNotCommited
    | some rightsGranted =>
      if isBooleanFlagOn rightsGranted rightsRequested then .ok .success
      else .ok .memoryInsufficientAccessRights

/-- The start of the buffer lies in the image of the process; its size is not looked at. -/
def Process.startsInImage (p : Process) (buffer : QWORD) : Bool :=
  decide (p.imageBase ≤ buffer) && decide (buffer < p.imageBase + p.imageSize.setWidth 64)

def mmuIsBufferValid (p : Process) (buffer bufferSize : QWORD) (rightsRequested : DWORD) :
    Except Fault Status :=
  if buffer = 0 then .ok .invalidParameter1
  else if bufferSize = 0 then .ok .invalidParameter2
  else if p.startsInImage buffer then .ok .success
  else vmmIsBufferValid buffer bufferSize rightsRequested p.vaSpace false

/-- The commit bit of a page of a reservation. -/
def VmmReservationSpace.committed (s : VmmReservationSpace) (r : VmmReservation) (page : ℕ) :
    Bool :=
  s.memory (byteAddress r.commitBitmap.bitmapBuffer (BitVec.ofNat 32 page)) &&&
    bitMask (BitVec.ofNat 32 page) == bitMask (BitVec.ofNat 32 page)

/-- What every reservation in use satisfies. -/
structure SlotOk (r : VmmReservation) : Prop where
  nonNull : r.startVa ≠ 0
  aligned : 4096 ∣ r.startVa.toNat
  sizeAligned : 4096 ∣ r.size.toNat
  pages : r.size.toNat / 4096 < 2 ^ 32
  bitCount : r.commitBitmap.bitCount.toNat = r.size.toNat / 4096
  buffer : r.commitBitmap.bitmapBuffer ≠ 0

private theorem pageSize_eq : pageSize.toNat = 2 ^ 12 := rfl

theorem Reserved.slotOk {s s' : VmmReservationSpace} {i : ℕ} {a n : QWORD}
    (h : Reserved s s' i a n) : SlotOk (s'.slots i) := by
  have hdiv : (n / pageSize).toNat = n.toNat / 4096 := BitVec.toNat_udiv
  have hpages : n.toNat / 4096 < 2 ^ 32 := by
    have := BitVec.le_def.mp h.pages
    rw [hdiv] at this
    change _ ≤ 4294967295 at this
    omega
  constructor
  · rw [h.startVa]
    exact h.nonNull
  · rw [h.startVa]
    exact (isAddressAligned_iff pageSize_eq).mp h.aligned
  · rw [h.size]
    exact (isAddressAligned_iff pageSize_eq).mp h.sizeAligned
  · rw [h.size]
    exact hpages
  · rw [h.bitCount, h.size, BitVec.toNat_setWidth, hdiv]
    lia
  · rw [h.buffer]
    exact h.bufferNonNull

theorem slotOk_next {s s' : VmmReservationSpace} {m : ℕ} {c : Call} (hm : Marker s m)
    (hok : ∀ i, s.Used i → SlotOk (s.slots i)) (h : next s c = some s') :
    ∀ i, s'.Used i → SlotOk (s'.slots i) := by
  intro i hi
  obtain ⟨hk, _⟩ | ⟨_, _, _, _, j, _, hr, _, _⟩ | ⟨j, hr, _⟩ := next_cases hm h
  · rw [hk.slots]
    exact hok i ((hk.used_iff i).mp hi)
  · rcases (hr.used i).mp hi with rfl | hu
    · exact hr.slotOk
    · rw [hr.same i hu]
      exact hok i hu
  · obtain ⟨heq, hu⟩ := hr.of_used hi
    rw [heq]
    exact hok i hu

/-- The invariants buffer validation rests on, in every reachable state. -/
theorem Reaches.slotsOk {metadata base area : QWORD} {pages : ℕ}
    {tr : List (VmmReservationSpace × Call)} {s : VmmReservationSpace}
    (hr : Reaches metadata base area tr s) (ha : MetadataArea metadata area pages) :
    ∃ m, MetadataInv metadata area pages m s ∧ ∀ i, s.Used i → SlotOk (s.slots i) := by
  obtain ⟨s₀, hi, hrun⟩ := hr
  refine (hrun.always (P := fun s => ∃ m, MetadataInv metadata area pages m s ∧
    ∀ i, s.Used i → SlotOk (s.slots i)) ?_ ?_).2
  · refine ⟨0, metadataInv_of_initialised hi ha, fun i hu => ?_⟩
    exact absurd (hi.marker.lt_of_used hu) (Nat.not_lt_zero i)
  · intro s c s' hall hs
    obtain ⟨m, hm, hok⟩ := hall
    obtain ⟨m', hm'⟩ := metadataInv_next ha hm hs
    exact ⟨m', hm', slotOk_next hm.marker hok hs⟩

/-- The division of `_VmIsVaCommited` for an address at or behind the start. -/
theorem pageIndex_toNat {address startVa : QWORD} (hs : startVa.toNat ≤ address.toNat)
    (hp : 4096 ≤ startVa.toNat) :
    (pageIndex address startVa).toNat = (address.toNat - startVa.toNat) / 4096 ∨
      (2 ^ 32 ≤ (pageIndex address startVa).toNat ∧
        2 ^ 32 ≤ (address.toNat - startVa.toNat) / 4096) := by
  have hlt := address.isLt
  have hsub : (address - startVa).toNat = address.toNat - startVa.toNat := by
    rw [BitVec.toNat_sub_of_le (BitVec.le_def.mpr hs)]
  set x := address - startVa with hx
  have hps : pageSize.msb = false := by decide
  unfold pageIndex
  rw [← hx, BitVec.sdiv_eq]
  by_cases hmsb : x.msb = true
  · have hbig : 2 ^ 63 ≤ x.toNat := by
      have := BitVec.msb_eq_decide x
      rw [hmsb] at this
      simpa using this
    right
    simp only [hmsb, hps]
    have hneg : (-x).toNat = 2 ^ 64 - x.toNat := by
      rw [BitVec.toNat_neg]
      lia
    have hq : ((-x) / pageSize).toNat = (2 ^ 64 - x.toNat) / 4096 := by
      rw [BitVec.toNat_udiv, hneg]
      rfl
    constructor
    · rw [BitVec.toNat_neg]
      change 2 ^ 32 ≤ (2 ^ 64 - ((-x) / pageSize).toNat) % 2 ^ 64
      rw [hq]
      lia
    · lia
  · left
    have hmsb' : x.msb = false := by simpa using hmsb
    simp only [hmsb', hps]
    change (x / pageSize).toNat = _
    rw [BitVec.toNat_udiv, hsub]
    rfl

section Scan

variable {s : VmmReservationSpace} {r : VmmReservation} (hok : SlotOk r)
include hok

theorem SlotOk.start_ge : 4096 ≤ r.startVa.toNat := by
  have hne : r.startVa.toNat ≠ 0 := fun h => hok.nonNull (BitVec.eq_of_toNat_eq h)
  have hd := hok.aligned
  omega

/-- One test of the scan: a page behind the end of the reservation fires an `ASSERT`. -/
theorem vmIsVaCommited_eq {address : QWORD} (hs : r.startVa.toNat ≤ address.toNat) :
    vmIsVaCommited s r address =
      if (address.toNat - r.startVa.toNat) / 4096 < r.size.toNat / 4096 then
        .ok (s.committed r ((address.toNat - r.startVa.toNat) / 4096))
      else .error .assertFailed := by
  have hstart := hok.start_ge
  have hpages := hok.pages
  have hcount := hok.bitCount
  have hnz : address ≠ 0 := by
    intro heq
    subst heq
    change _ ≤ 0 at hs
    omega
  unfold vmIsVaCommited
  rw [assertThat_of hnz]
  rcases pageIndex_toNat hs hstart with heq | ⟨hbig, hbig'⟩
  · by_cases hlt : (address.toNat - r.startVa.toNat) / 4096 < r.size.toNat / 4096
    · have hle : pageIndex address r.startVa ≤ maxDword := by
        rw [BitVec.le_def, heq]
        change _ ≤ 4294967295
        omega
      have hidx : (pageIndex address r.startVa).setWidth 32 =
          BitVec.ofNat 32 ((address.toNat - r.startVa.toNat) / 4096) := by
        apply BitVec.eq_of_toNat_eq
        rw [BitVec.toNat_setWidth, BitVec.toNat_ofNat, heq]
      have hin : (pageIndex address r.startVa).setWidth 32 < r.commitBitmap.bitCount := by
        rw [BitVec.lt_def, hcount, BitVec.toNat_setWidth, heq]
        lia
      simp only [bind, Except.bind, assertThat_of hle, if_pos hlt]
      rw [bitmapGetBitValue_eq_ok hok.buffer hin, hidx]
      rfl
    · rw [if_neg hlt]
      by_cases hle : pageIndex address r.startVa ≤ maxDword
      · have hle' := BitVec.le_def.mp hle
        change _ ≤ 4294967295 at hle'
        have hin : ¬ (pageIndex address r.startVa).setWidth 32 < r.commitBitmap.bitCount := by
          rw [BitVec.lt_def, hcount, BitVec.toNat_setWidth]
          lia
        simp [bind, Except.bind, assertThat, hle, bitmapGetBitValue, hin]
      · simp [bind, Except.bind, assertThat, hle]
  · have hle : ¬ pageIndex address r.startVa ≤ maxDword := by
      rw [BitVec.le_def]
      change ¬ _ ≤ 4294967295
      omega
    rw [if_neg (by omega)]
    simp [bind, Except.bind, assertThat, hle]

/-- The page of an address in the reservation, also when its range goes over the top of the address
space. -/
theorem SlotOk.pageIndex_toNat {address : QWORD} {d : ℕ} (hsub : (address - r.startVa).toNat = d)
    (hd : d < r.size.toNat) : (pageIndex address r.startVa).toNat = d / 4096 := by
  have hpages := hok.pages
  have hmsb : (address - r.startVa).msb = false := by
    rw [BitVec.msb_eq_decide, hsub]
    simp only [decide_eq_false_iff_not]
    lia
  unfold pageIndex
  rw [BitVec.sdiv_eq]
  simp only [hmsb, show pageSize.msb = false by decide]
  change ((address - r.startVa) / pageSize).toNat = _
  rw [BitVec.toNat_udiv, hsub]
  rfl

/-- A test inside the reservation. -/
theorem vmIsVaCommited_inside {address : QWORD} {d : ℕ} (hsub : (address - r.startVa).toNat = d)
    (hd : d < r.size.toNat) (hne : address ≠ 0) :
    vmIsVaCommited s r address = .ok (s.committed r (d / 4096)) := by
  have hpages := hok.pages
  have hsize := hok.sizeAligned
  have hidx := hok.pageIndex_toNat hsub hd
  have hle : pageIndex address r.startVa ≤ maxDword := by
    rw [BitVec.le_def, hidx]
    change _ ≤ 4294967295
    lia
  have hbit : (pageIndex address r.startVa).setWidth 32 = BitVec.ofNat 32 (d / 4096) := by
    apply BitVec.eq_of_toNat_eq
    rw [BitVec.toNat_setWidth, BitVec.toNat_ofNat, hidx]
  have hin : (pageIndex address r.startVa).setWidth 32 < r.commitBitmap.bitCount := by
    rw [BitVec.lt_def, hok.bitCount, BitVec.toNat_setWidth, hidx]
    omega
  unfold vmIsVaCommited
  simp only [assertThat_of hne, bind, Except.bind, assertThat_of hle]
  rw [bitmapGetBitValue_eq_ok hok.buffer hin, hbit]
  rfl

/-- Page `k` of a range that starts in the reservation is tested: it lies in the reservation, and its
address is not the null pointer. -/
structure Tested (r : VmmReservation) (address size : QWORD) (k : ℕ) : Prop where
  inRange : 4096 * k < size.toNat
  inside : address.toNat + 4096 * k < r.startVa.toNat + r.size.toNat
  nonNull : address.toNat + 4096 * k ≠ 2 ^ 64

/-- The scan goes over a number of pages, or stops at the first that is not committed. -/
theorem commitedLoop_run {address size : QWORD} (hs : r.startVa.toNat ≤ address.toNat)
    {fuel j n : ℕ} (htest : ∀ k < n, Tested r address size (j + k)) :
    commitedLoop s r address size (fuel + n) (BitVec.ofNat 64 (4096 * j)) =
      if ∀ k < n, s.committed r ((address.toNat - r.startVa.toNat) / 4096 + (j + k)) = true then
        commitedLoop s r address size fuel (BitVec.ofNat 64 (4096 * (j + n)))
      else .ok false := by
  have hstart := hok.start_ge
  have hpages := hok.pages
  have hd := hok.sizeAligned
  induction n generalizing j with
  | zero => rw [if_pos (fun k hk => absurd hk (Nat.not_lt_zero k)), Nat.add_zero, Nat.add_zero]
  | succ n ih =>
    have hfirst := htest 0 (Nat.succ_pos n)
    have hrest : ∀ k < n, Tested r address size (j + 1 + k) := by
      intro k hk
      have := htest (k + 1) (by omega)
      rwa [show j + (k + 1) = j + 1 + k by omega] at this
    have hin := hfirst.inRange
    have hinside := hfirst.inside
    have hnonNull := hfirst.nonNull
    rw [Nat.add_zero] at hin hinside hnonNull
    have hlt := address.isLt
    have hslt := size.isLt
    have hoffset : (BitVec.ofNat 64 (4096 * j)).toNat = 4096 * j := by
      rw [BitVec.toNat_ofNat]
      lia
    have hsub : (address + BitVec.ofNat 64 (4096 * j) - r.startVa).toNat =
        address.toNat - r.startVa.toNat + 4096 * j := by
      rw [BitVec.toNat_sub, BitVec.toNat_add, hoffset]
      omega
    have hne : address + BitVec.ofNat 64 (4096 * j) ≠ 0 := by
      intro h0
      have h0 := congrArg BitVec.toNat h0
      rw [BitVec.toNat_add, hoffset, show (0 : QWORD).toNat = 0 from rfl] at h0
      lia
    have hpage : (address.toNat - r.startVa.toNat + 4096 * j) / 4096 =
        (address.toNat - r.startVa.toNat) / 4096 + j := by lia
    have hnext : BitVec.ofNat 64 (4096 * j) + pageSize = BitVec.ofNat 64 (4096 * (j + 1)) := by
      rw [Nat.mul_succ, BitVec.ofNat_add]
      rfl
    have hlt : BitVec.ofNat 64 (4096 * j) < size := by
      rw [BitVec.lt_def, hoffset]
      exact hin
    rw [← Nat.add_assoc]
    conv_lhs => unfold commitedLoop
    rw [if_pos hlt, vmIsVaCommited_inside hok hsub (by omega) hne, hpage, hnext]
    simp only [bind, Except.bind]
    cases hbit : s.committed r ((address.toNat - r.startVa.toNat) / 4096 + j) with
    | false =>
      rw [if_neg Bool.false_ne_true, if_neg]
      intro hall
      have := hall 0 (Nat.succ_pos n)
      rw [Nat.add_zero, hbit] at this
      cases this
    | true =>
      rw [if_pos rfl, ih hrest, show j + 1 + n = j + (n + 1) by omega]
      by_cases hall : ∀ k < n, s.committed r
          ((address.toNat - r.startVa.toNat) / 4096 + (j + 1 + k)) = true
      · rw [if_pos hall, if_pos]
        intro k hk
        cases k with
        | zero => exact hbit
        | succ k =>
          have := hall k (by omega)
          rwa [show j + (k + 1) = j + 1 + k by omega]
      · rw [if_neg hall, if_neg]
        intro hall'
        apply hall
        intro k hk
        have := hall' (k + 1) (by omega)
        rwa [show j + (k + 1) = j + 1 + k by omega] at this

/-- A range whose pages are all tested. -/
theorem commitedLoop_inside {address size : QWORD} (hs : r.startVa.toNat ≤ address.toNat)
    (htest : ∀ k, 4096 * k < size.toNat → Tested r address size k) :
    ∃ b, commitedLoop s r address size (size.toNat / pageSize.toNat + 2) 0 = .ok b ∧
      (b = true ↔ ∀ k, 4096 * k < size.toNat →
        s.committed r ((address.toNat - r.startVa.toNat) / 4096 + k) = true) := by
  have hslt := size.isLt
  obtain ⟨n, hn⟩ : ∃ n, n = (size.toNat + 4095) / 4096 := ⟨_, rfl⟩
  obtain ⟨fuel, hfuel⟩ : ∃ f, size.toNat / pageSize.toNat + 2 = f + 1 + n := by
    refine ⟨size.toNat / 4096 + 1 - n, ?_⟩
    change size.toNat / 4096 + 2 = _
    lia
  have hrun := @commitedLoop_run s _ hok _ _ hs (fuel + 1) 0 n
    (fun k hk => by rw [Nat.zero_add]; exact htest k (by lia))
  have hsmall : 4096 * n < 2 ^ 64 := by
    have hpages := hok.pages
    have hd := hok.sizeAligned
    by_cases h0 : size.toNat = 0
    · lia
    · have hlast := (htest ((size.toNat - 1) / 4096) (by lia)).inside
      lia
  have hdone : commitedLoop s r address size (fuel + 1) (BitVec.ofNat 64 (4096 * n)) = .ok true := by
    unfold commitedLoop
    rw [if_neg]
    rw [BitVec.lt_def, BitVec.toNat_ofNat]
    lia
  simp only [Nat.zero_add] at hrun
  rw [hdone] at hrun
  have hiff : (∀ k < n, s.committed r ((address.toNat - r.startVa.toNat) / 4096 + k) = true) ↔
      ∀ k, 4096 * k < size.toNat →
        s.committed r ((address.toNat - r.startVa.toNat) / 4096 + k) = true :=
    forall_congr' fun k => by rw [show k < n ↔ 4096 * k < size.toNat by lia]
  rw [hfuel]
  by_cases hall : ∀ k < n, s.committed r ((address.toNat - r.startVa.toNat) / 4096 + k) = true
  · rw [if_pos hall] at hrun
    exact ⟨true, hrun, iff_of_true rfl (hiff.mp hall)⟩
  · rw [if_neg hall] at hrun
    exact ⟨false, hrun, iff_of_false Bool.false_ne_true fun h => hall (hiff.mpr h)⟩

/-- A scan whose first pages are tested and that faults at the next one. -/
theorem commitedLoop_stops {address size : QWORD} (hs : r.startVa.toNat ≤ address.toNat) {n : ℕ}
    (hn : 4096 * n < size.toNat) (htest : ∀ k < n, Tested r address size k)
    (hstop : vmIsVaCommited s r (address + BitVec.ofNat 64 (4096 * n)) = .error .assertFailed) :
    commitedLoop s r address size (size.toNat / pageSize.toNat + 2) 0 =
      if ∀ k < n, s.committed r ((address.toNat - r.startVa.toNat) / 4096 + k) = true then
        .error .assertFailed
      else .ok false := by
  have hslt := size.isLt
  obtain ⟨fuel, hfuel⟩ : ∃ f, size.toNat / pageSize.toNat + 2 = f + 1 + n := by
    refine ⟨size.toNat / 4096 + 1 - n, ?_⟩
    change size.toNat / 4096 + 2 = _
    lia
  have hrun := @commitedLoop_run s _ hok _ _ hs (fuel + 1) 0 n
    (fun k hk => by rw [Nat.zero_add]; exact htest k hk)
  have hfault : commitedLoop s r address size (fuel + 1) (BitVec.ofNat 64 (4096 * n)) =
      .error .assertFailed := by
    have hlt : BitVec.ofNat 64 (4096 * n) < size := by
      rw [BitVec.lt_def, BitVec.toNat_ofNat]
      lia
    unfold commitedLoop
    rw [if_pos hlt, hstop]
    rfl
  simp only [Nat.zero_add] at hrun
  rw [hfault] at hrun
  rw [hfuel]
  exact hrun

/-- A range that reaches over the end of the reservation: the scan stops at a page that is not
committed, and fires an `ASSERT` if there is none. -/
theorem commitedLoop_outruns {address size : QWORD} (hs : r.startVa.toNat ≤ address.toNat)
    (hend : r.startVa.toNat + r.size.toNat + 4096 ≤ 2 ^ 64)
    (hreach : r.startVa.toNat + r.size.toNat + 4096 ≤ address.toNat + size.toNat) (hne : size ≠ 0) :
    commitedLoop s r address size (size.toNat / pageSize.toNat + 2) 0 =
      if ∀ k, (address.toNat - r.startVa.toNat) / 4096 ≤ k → k < r.size.toNat / 4096 →
          s.committed r k = true then .error .assertFailed
      else .ok false := by
  have hd := hok.sizeAligned
  have ha := hok.aligned
  have hlt := address.isLt
  have hpos : size.toNat ≠ 0 := fun h => hne (BitVec.eq_of_toNat_eq h)
  obtain ⟨n, hn⟩ : ∃ n, n = r.size.toNat / 4096 - (address.toNat - r.startVa.toNat) / 4096 :=
    ⟨_, rfl⟩
  have hw : address.toNat + 4096 * n < 2 ^ 64 := by lia
  have hoffset : (address + BitVec.ofNat 64 (4096 * n)).toNat = address.toNat + 4096 * n := by
    rw [BitVec.toNat_add, BitVec.toNat_ofNat]
    lia
  have hstop : vmIsVaCommited s r (address + BitVec.ofNat 64 (4096 * n)) = .error .assertFailed := by
    rw [vmIsVaCommited_eq hok (by lia), if_neg (by lia)]
  have hscan := @commitedLoop_stops s _ hok _ size hs n (by lia)
    (fun k hk => ⟨by lia, by lia, by lia⟩) hstop
  rw [hscan]
  have hiff : (∀ k < n, s.committed r ((address.toNat - r.startVa.toNat) / 4096 + k) = true) ↔
      ∀ k, (address.toNat - r.startVa.toNat) / 4096 ≤ k → k < r.size.toNat / 4096 →
        s.committed r k = true := by
    constructor
    · intro h k hk hkB
      have := h (k - (address.toNat - r.startVa.toNat) / 4096) (by lia)
      rwa [Nat.add_sub_cancel' hk] at this
    · exact fun h k hk => h _ (Nat.le_add_right _ _) (by lia)
  simp only [hiff]

end Scan

end HAL9000.Vmm
