import HAL9000.Vmm.BufferValid

/-! When a successful validation of a user buffer means that every byte of it may be used. -/
namespace HAL9000.Vmm

open Run

/-- The page of the address is committed in a reservation that grants the rights. -/
def VmmReservationSpace.CommittedWith (s : VmmReservationSpace) (rights : DWORD) (a : QWORD) :
    Prop :=
  ∃ i, s.Used i ∧ (s.slots i).startVa.toNat ≤ a.toNat ∧
    a.toNat < (s.slots i).startVa.toNat + (s.slots i).size.toNat ∧
    isBooleanFlagOn (s.slots i).pageRights rights = true ∧
    s.committed (s.slots i) ((a.toNat - (s.slots i).startVa.toNat) / 4096) = true

def Process.InImage (p : Process) (a : QWORD) : Prop :=
  p.imageBase.toNat ≤ a.toNat ∧ a.toNat < p.imageBase.toNat + p.imageSize.toNat

instance (p : Process) (a : QWORD) : Decidable (p.InImage a) :=
  inferInstanceAs (Decidable (_ ∧ _))

/-- The bytes of a buffer. -/
def InBuffer (buffer size a : QWORD) : Prop :=
  buffer.toNat ≤ a.toNat ∧ a.toNat < buffer.toNat + size.toNat

instance (buffer size a : QWORD) : Decidable (InBuffer buffer size a) :=
  inferInstanceAs (Decidable (_ ∧ _))

def Process.ByteValid (p : Process) (rights : DWORD) (a : QWORD) : Prop :=
  vmIsKernelAddress a = false ∧ (p.InImage a ∨ p.vaSpace.CommittedWith rights a)

/-- The call returns, and on success the buffer does not wrap and all its bytes are valid. -/
def BufferSound (p : Process) (buffer size : QWORD) (rights : DWORD) : Prop :=
  ∃ st, mmuIsBufferValid p buffer size rights = .ok st ∧
    (st = .success → buffer.toNat + size.toNat < 2 ^ 64 ∧
      ∀ a, InBuffer buffer size a → p.ByteValid rights a)

/-- A buffer that starts in the image: it stays in user space, and what lies behind the image
is committed with the rights. -/
def SafeFromImage (p : Process) (buffer size : QWORD) (rights : DWORD) : Prop :=
  buffer.toNat + size.toNat < 2 ^ 64 ∧
    (∀ a, InBuffer buffer size a → vmIsKernelAddress a = false) ∧
    ∀ a, InBuffer buffer size a → p.imageBase.toNat + p.imageSize.toNat ≤ a.toNat →
      p.vaSpace.CommittedWith rights a

/-- A buffer matched to the reservation `r`. If it wraps, a page of `r` at or behind its start
is not committed. If not, and the scan finds its pages committed with the rights, then so are
the bytes on a page behind those that the scan steps on. -/
def SafeInReservation (p : Process) (buffer size : QWORD) (rights : DWORD) (r : VmmReservation) :
    Prop :=
  (2 ^ 64 ≤ buffer.toNat + size.toNat →
    ∃ k, (buffer.toNat - r.startVa.toNat) / 4096 ≤ k ∧ k < r.size.toNat / 4096 ∧
      p.vaSpace.committed r k = false) ∧
  (buffer.toNat + size.toNat < 2 ^ 64 → isBooleanFlagOn r.pageRights rights = true →
    (∀ k, 4096 * k < size.toNat →
      p.vaSpace.committed r ((buffer.toNat - r.startVa.toNat) / 4096 + k) = true) →
    ∀ a, InBuffer buffer size a → buffer.toNat / 4096 + (size.toNat - 1) / 4096 < a.toNat / 4096 →
      p.InImage a ∨ p.vaSpace.CommittedWith rights a)

/-- The condition under which the validation is sound. -/
def BufferSafe (p : Process) (buffer size : QWORD) (rights : DWORD) : Prop :=
  buffer ≠ 0 → size ≠ 0 →
    if p.startsInImage buffer then SafeFromImage p buffer size rights
    else vmIsKernelRange buffer size = false →
      ∀ i, vmFindReservation p.vaSpace buffer size = .ok (some i) →
        SafeInReservation p buffer size rights (p.vaSpace.slots i)

theorem vmIsKernelAddress_eq_false {a : QWORD} :
    vmIsKernelAddress a = false ↔ a.toNat / 2 ^ 47 % 2 = 0 := by
  have hbit : (a &&& (1#64 <<< 47)).toNat = (a.toNat.testBit 47).toNat * 2 ^ 47 := by
    rw [BitVec.toNat_and, show (1#64 <<< 47).toNat = 2 ^ 47 by decide, Nat.and_two_pow]
  unfold vmIsKernelAddress vaHighestValidBit
  rw [beq_eq_false_iff_ne, ne_eq, ← BitVec.toNat_inj, hbit, Nat.testBit_eq_decide_div_mod_eq,
    show (1#64 <<< 47).toNat = 2 ^ 47 by decide]
  simp

theorem findReservationLoop_total {s : VmmReservationSpace} {m : ℕ} (hm : Marker s m)
    {address size : QWORD} {fuel i : ℕ} (hi : i ≤ m) (hf : m < i + fuel) :
    ∃ r, findReservationLoop s address size fuel i = .ok r := by
  induction fuel generalizing i with
  | zero => omega
  | succ fuel ih =>
    unfold findReservationLoop
    by_cases hin : i < m
    · rw [if_pos ⟨hm.before i hin, hm.below i hin⟩]
      split_ifs
      · exact ih hin (by omega)
      · exact ⟨_, rfl⟩
      · exact ih hin (by omega)
    · obtain rfl : i = m := by omega
      rw [if_neg (fun hc => hc.1 hm.last)]
      exact ⟨_, rfl⟩

/-- The search returns on every list that stays below the bitmaps. -/
theorem MetadataInv.vmFindReservation_total {metadata size : QWORD} {pages m : ℕ}
    {s : VmmReservationSpace} (hi : MetadataInv metadata size pages m s)
    (ha : MetadataArea metadata size pages) {address n : QWORD} (h₁ : address ≠ 0) (h₂ : n ≠ 0) :
    ∃ r, vmFindReservation s address n = .ok r := by
  unfold vmFindReservation
  rw [assertThat_of h₁, assertThat_of h₂]
  apply findReservationLoop_total hi.marker (Nat.zero_le m)
  have hb := hi.bitmaps
  have hpaid := hi.paid
  have hbound := hi.bound
  have hshare := ha.share
  have hpos := ha.positive
  have hsub : (s.bitmapAddressStart - s.reservationList).toNat = 4096 * pages := by
    rw [BitVec.toNat_sub_of_le, hi.list, hb]
    · lia
    · rw [BitVec.le_def, hi.list, hb]
      omega
  unfold VmmReservationSpace.loopBound
  rw [hsub]
  change m < 0 + (4096 * pages / 56 + 2)
  lia

theorem inImage_of_startsInImage {p : Process} {buffer : QWORD}
    (h : p.startsInImage buffer = true) : p.InImage buffer := by
  unfold Process.startsInImage at h
  rw [Bool.and_eq_true, decide_eq_true_eq, decide_eq_true_eq, BitVec.le_def, BitVec.lt_def,
    BitVec.toNat_add, BitVec.toNat_setWidth] at h
  have hlt := p.imageSize.isLt
  unfold Process.InImage
  lia

section Sound

variable {p : Process} {buffer size : QWORD} {rights : DWORD}

private theorem sound_of_refused {st : Status} (h : mmuIsBufferValid p buffer size rights = .ok st)
    (hst : st ≠ .success) : BufferSound p buffer size rights :=
  ⟨st, h, fun hc => absurd hc hst⟩

private theorem sound_iff_of_success
    (h : mmuIsBufferValid p buffer size rights = .ok .success) :
    BufferSound p buffer size rights ↔ buffer.toNat + size.toNat < 2 ^ 64 ∧
      ∀ a, InBuffer buffer size a → p.ByteValid rights a := by
  constructor
  · intro hall
    obtain ⟨st, hst, hs⟩ := hall
    rw [h] at hst
    cases hst
    exact hs rfl
  · exact fun hs => ⟨.success, h, fun _ => hs⟩

private theorem not_sound_of_fault {f : Fault}
    (h : mmuIsBufferValid p buffer size rights = .error f) :
    ¬ BufferSound p buffer size rights := by
  intro hall
  obtain ⟨st, hst, _⟩ := hall
  rw [h] at hst
  cases hst

theorem bufferSound_iff_of_image (h₁ : buffer ≠ 0) (h₂ : size ≠ 0)
    (him : p.startsInImage buffer = true) :
    BufferSound p buffer size rights ↔ SafeFromImage p buffer size rights := by
  have hres : mmuIsBufferValid p buffer size rights = .ok .success := by
    unfold mmuIsBufferValid
    rw [if_neg h₁, if_neg h₂, if_pos him]
  obtain ⟨hlow, hhigh⟩ := inImage_of_startsInImage him
  rw [sound_iff_of_success hres]
  constructor
  · intro hall
    obtain ⟨hw, hall⟩ := hall
    refine ⟨hw, fun a ha => (hall a ha).1, ?_⟩
    intro a ha hend
    rcases (hall a ha).2 with hin | hc
    · exact absurd hin.2 (by omega)
    · exact hc
  · intro hall
    obtain ⟨hw, huser, hrest⟩ := hall
    refine ⟨hw, fun a ha => ⟨huser a ha, ?_⟩⟩
    by_cases hend : p.imageBase.toNat + p.imageSize.toNat ≤ a.toNat
    · exact Or.inr (hrest a ha hend)
    · exact Or.inl ⟨hlow.trans ha.1, by omega⟩

/-- The reservation a user-space buffer is matched to lies below the top of the address space
and starts at or before the buffer. -/
private theorem match_bounds {r : VmmReservation} (hok : SlotOk r)
    (hc : checkBounds buffer size r.startVa r.size = true)
    (hk : vmIsKernelRange buffer size = false) (h₂ : size ≠ 0) :
    r.startVa.toNat ≤ buffer.toNat ∧ r.size.toNat < 2 ^ 44 ∧ buffer.toNat + 2 ^ 44 < 2 ^ 64 ∧
      buffer.toNat / 2 ^ 47 % 2 = 0 ∧
      (buffer.toNat + size.toNat < 2 ^ 64 →
        buffer.toNat + size.toNat ≤ r.startVa.toNat + r.size.toNat ∧
        (buffer.toNat + size.toNat - 1) / 2 ^ 47 % 2 = 0) := by
  rw [checkBounds_eq_true, BitVec.toNat_add, BitVec.toNat_add] at hc
  unfold vmIsKernelRange at hk
  rw [Bool.or_eq_false_iff, vmIsKernelAddress_eq_false, vmIsKernelAddress_eq_false] at hk
  obtain ⟨hlow, hhigh⟩ := hc
  obtain ⟨hfirst, hlast⟩ := hk
  have hd := hok.sizeAligned
  have hp := hok.pages
  have hb := buffer.isLt
  have hn : size.toNat ≠ 0 := fun h => h₂ (BitVec.eq_of_toNat_eq h)
  have hN : r.size.toNat < 2 ^ 44 := by lia
  have htop : buffer.toNat + 2 ^ 44 < 2 ^ 64 := by lia
  refine ⟨hlow, hN, htop, hfirst, fun hw => ⟨by lia, ?_⟩⟩
  have hsub : (buffer + (size - 1)).toNat = buffer.toNat + size.toNat - 1 := by
    have h1 : (size - 1).toNat = size.toNat - 1 := by
      rw [BitVec.toNat_sub]
      change (2 ^ 64 - 1 + size.toNat) % 2 ^ 64 = _
      lia
    rw [BitVec.toNat_add, h1]
    lia
  rwa [hsub] at hlast

section Match

variable {i : ℕ} (h₁ : buffer ≠ 0) (h₂ : size ≠ 0) (him : p.startsInImage buffer = false)
  (hk : vmIsKernelRange buffer size = false)
  (hfind : vmFindReservation p.vaSpace buffer size = .ok (some i))
include h₁ h₂ him hk hfind

/-- The outcome once the scan has returned. -/
private theorem mmuIsBufferValid_of_scan {b : Bool}
    (hscan : commitedLoop p.vaSpace (p.vaSpace.slots i) buffer size
      (size.toNat / pageSize.toNat + 2) 0 = .ok b) :
    mmuIsBufferValid p buffer size rights = .ok (if b then
      if isBooleanFlagOn (p.vaSpace.slots i).pageRights rights then .success
      else .memoryInsufficientAccessRights
    else .memoryIsNotCommited) := by
  unfold mmuIsBufferValid vmmIsBufferValid vmReservationReturnRightsForAddress
  rw [if_neg h₁, if_neg h₂, if_neg (by simp [him]), assertThat_of h₁, assertThat_of h₂, hk, hfind]
  simp only [bind, Except.bind, hscan]
  cases b with
  | false => rfl
  | true =>
    by_cases hr : isBooleanFlagOn (p.vaSpace.slots i).pageRights rights = true
    · simp [hr]
    · simp [hr]

private theorem mmuIsBufferValid_of_fault {f : Fault}
    (hscan : commitedLoop p.vaSpace (p.vaSpace.slots i) buffer size
      (size.toNat / pageSize.toNat + 2) 0 = .error f) :
    mmuIsBufferValid p buffer size rights = .error f := by
  unfold mmuIsBufferValid vmmIsBufferValid vmReservationReturnRightsForAddress
  rw [if_neg h₁, if_neg h₂, if_neg (by simp [him]), assertThat_of h₁, assertThat_of h₂, hk, hfind]
  simp only [bind, Except.bind, hscan]
  rfl

/-- A wrapping buffer runs the scan behind the end of the reservation. -/
theorem bufferSound_iff_of_wrap (hok : SlotOk (p.vaSpace.slots i))
    (hc : checkBounds buffer size (p.vaSpace.slots i).startVa (p.vaSpace.slots i).size = true)
    (hw : 2 ^ 64 ≤ buffer.toNat + size.toNat) :
    BufferSound p buffer size rights ↔
      ∃ k, (buffer.toNat - (p.vaSpace.slots i).startVa.toNat) / 4096 ≤ k ∧
        k < (p.vaSpace.slots i).size.toNat / 4096 ∧
        p.vaSpace.committed (p.vaSpace.slots i) k = false := by
  obtain ⟨hlow, hN, htop, hfirst, _⟩ := match_bounds hok hc hk h₂
  have hscan := commitedLoop_outruns (s := p.vaSpace) hok hlow (by lia) (by lia) h₂
  by_cases hall : ∀ k, (buffer.toNat - (p.vaSpace.slots i).startVa.toNat) / 4096 ≤ k →
      k < (p.vaSpace.slots i).size.toNat / 4096 →
      p.vaSpace.committed (p.vaSpace.slots i) k = true
  · rw [if_pos hall] at hscan
    refine iff_of_false (not_sound_of_fault (mmuIsBufferValid_of_fault h₁ h₂ him hk hfind hscan)) ?_
    intro hhole
    obtain ⟨k, hk, hkB, hbit⟩ := hhole
    rw [hall k hk hkB] at hbit
    cases hbit
  · rw [if_neg hall] at hscan
    refine iff_of_true
      (sound_of_refused (mmuIsBufferValid_of_scan h₁ h₂ him hk hfind hscan) (by simp)) ?_
    push Not at hall
    simpa using hall

/-- A buffer inside the reservation: the scan steps from its start and may leave out the page
of its last bytes. -/
theorem bufferSound_iff_of_inside (hused : p.vaSpace.Used i) (hok : SlotOk (p.vaSpace.slots i))
    (hc : checkBounds buffer size (p.vaSpace.slots i).startVa (p.vaSpace.slots i).size = true)
    (hw : buffer.toNat + size.toNat < 2 ^ 64) :
    BufferSound p buffer size rights ↔
      (isBooleanFlagOn (p.vaSpace.slots i).pageRights rights = true →
        (∀ k, 4096 * k < size.toNat → p.vaSpace.committed (p.vaSpace.slots i)
          ((buffer.toNat - (p.vaSpace.slots i).startVa.toNat) / 4096 + k) = true) →
        ∀ a, InBuffer buffer size a →
          buffer.toNat / 4096 + (size.toNat - 1) / 4096 < a.toNat / 4096 →
          p.InImage a ∨ p.vaSpace.CommittedWith rights a) := by
  obtain ⟨hlow, hN, htop, hfirst, hrest⟩ := match_bounds hok hc hk h₂
  obtain ⟨hend, hlast⟩ := hrest hw
  have haligned := hok.aligned
  obtain ⟨b, hscan, hb'⟩ := @commitedLoop_inside p.vaSpace _ hok _ size hlow
    fun k hk => ⟨hk, by lia, by omega⟩
  have hres : mmuIsBufferValid p buffer size rights = _ :=
    mmuIsBufferValid_of_scan h₁ h₂ him hk hfind hscan
  cases b with
  | false =>
    have hno := hb'.not.mp (by simp)
    simp [sound_of_refused hres (by simp), hno]
  | true =>
    have hall := hb'.mp rfl
    by_cases hr : isBooleanFlagOn (p.vaSpace.slots i).pageRights rights = true
    · simp only [if_true, hr] at hres
      rw [sound_iff_of_success hres]
      constructor
      · intro hs _ _ a ha _
        exact (hs.2 a ha).2
      · intro hs
        refine ⟨hw, fun a ha => ?_⟩
        obtain ⟨halow, hahigh⟩ := ha
        refine ⟨vmIsKernelAddress_eq_false.mpr (by lia), ?_⟩
        by_cases hpage : buffer.toNat / 4096 + (size.toNat - 1) / 4096 < a.toNat / 4096
        · exact hs hr hall a ⟨halow, hahigh⟩ hpage
        · refine Or.inr ⟨i, hused, by lia, by omega, hr, ?_⟩
          have hk := hall (a.toNat / 4096 - buffer.toNat / 4096) (by omega)
          have hidx : (a.toNat - (p.vaSpace.slots i).startVa.toNat) / 4096 =
              (buffer.toNat - (p.vaSpace.slots i).startVa.toNat) / 4096 +
                (a.toNat / 4096 - buffer.toNat / 4096) := by omega
          rw [hidx]
          exact hk
    · have hsound : BufferSound p buffer size rights := by
        simp only [if_true, if_neg hr] at hres
        exact sound_of_refused hres (by simp)
      simp [hsound, hr]

end Match

end Sound

theorem bufferSound_iff_bufferSafe {p : Process} {metadata area : QWORD} {pages m : ℕ}
    (ha : MetadataArea metadata area pages) (hi : MetadataInv metadata area pages m p.vaSpace)
    (hok : ∀ i, p.vaSpace.Used i → SlotOk (p.vaSpace.slots i)) (buffer size : QWORD)
    (rights : DWORD) : BufferSound p buffer size rights ↔ BufferSafe p buffer size rights := by
  unfold BufferSafe
  by_cases h₁ : buffer = 0
  · have hres : mmuIsBufferValid p buffer size rights = .ok .invalidParameter1 := by
      unfold mmuIsBufferValid
      rw [if_pos h₁]
    exact ⟨fun _ h => absurd h₁ h, fun _ => sound_of_refused hres (by simp)⟩
  by_cases h₂ : size = 0
  · have hres : mmuIsBufferValid p buffer size rights = .ok .invalidParameter2 := by
      unfold mmuIsBufferValid
      rw [if_neg h₁, if_pos h₂]
    exact ⟨fun _ _ h => absurd h₂ h, fun _ => sound_of_refused hres (by simp)⟩
  simp only [ne_eq, h₁, h₂, not_false_iff, true_implies]
  cases him : p.startsInImage buffer with
  | true =>
    rw [if_pos rfl]
    exact bufferSound_iff_of_image h₁ h₂ him
  | false =>
    rw [if_neg (by simp)]
    cases hk : vmIsKernelRange buffer size with
    | true =>
      have hres : mmuIsBufferValid p buffer size rights = .ok .memoryPreventsUsermodeAccess := by
        unfold mmuIsBufferValid vmmIsBufferValid
        rw [if_neg h₁, if_neg h₂, if_neg (by simp [him]), assertThat_of h₁, assertThat_of h₂, hk]
        rfl
      simp [sound_of_refused hres (by simp)]
    | false =>
      obtain ⟨r, hfind⟩ := hi.vmFindReservation_total ha h₁ h₂
      have hfound := vmFindReservation_spec hi.marker hfind
      simp only [true_implies, hfind]
      cases r with
      | none =>
        have hres : mmuIsBufferValid p buffer size rights = .ok .memoryIsNotCommited := by
          unfold mmuIsBufferValid vmmIsBufferValid vmReservationReturnRightsForAddress
          rw [if_neg h₁, if_neg h₂, if_neg (by simp [him]), assertThat_of h₁, assertThat_of h₂, hk,
            hfind]
          rfl
        simp [sound_of_refused hres (by simp)]
      | some i =>
        obtain ⟨_, hused, hc⟩ := hfound
        have hslot := hok i hused
        have hone : (∀ j, (Except.ok (some i) : Except Fault (Option ℕ)) = .ok (some j) →
            SafeInReservation p buffer size rights (p.vaSpace.slots j)) ↔
            SafeInReservation p buffer size rights (p.vaSpace.slots i) := by
          constructor
          · exact fun h => h i rfl
          · intro h j hj
            obtain rfl : i = j := by simpa using hj
            exact h
        rw [hone]
        unfold SafeInReservation
        by_cases hw : 2 ^ 64 ≤ buffer.toNat + size.toNat
        · rw [bufferSound_iff_of_wrap h₁ h₂ him hk hfind hslot hc hw]
          simp only [hw, true_implies, Nat.not_lt.mpr hw, false_implies, and_true]
        · have hw' := Nat.lt_of_not_le hw
          rw [bufferSound_iff_of_inside h₁ h₂ him hk hfind hused hslot hc hw']
          simp only [hw, false_implies, true_and, hw', true_implies]

/-- In every reachable state of a user process, validation is sound for a buffer exactly when
the buffer is safe. -/
theorem bufferSound_iff_of_reaches {p : Process} {metadata base area : QWORD} {pages : ℕ}
    {tr : List (VmmReservationSpace × Call)} (ha : MetadataArea metadata area pages)
    (hr : Reaches metadata base area tr p.vaSpace) (buffer size : QWORD) (rights : DWORD) :
    BufferSound p buffer size rights ↔ BufferSafe p buffer size rights := by
  obtain ⟨m, hm, hok⟩ := hr.slotsOk ha
  exact bufferSound_iff_bufferSafe ha hm hok buffer size rights

/-- A process whose image is one page at 4 MiB. -/
def processWith (s : VmmReservationSpace) : Process := ⟨0x400000, 0x1000, s⟩

/-- Commits the given number of bytes at the start of the address space. -/
def commitStart (size : QWORD) : Call :=
  .alloc ⟨0x140000000, size, vmmAllocTypeCommit, ⟨1, false, 0⟩⟩

/-- Two pages reserved, the first of them committed. -/
def halfCommitted : List (VmmReservationSpace × Call) × VmmReservationSpace :=
  (runProcess [reserveTwo 0x140000000, commitStart 0x1000]).get (by decide)

/-- Two pages reserved and committed. -/
def fullyCommitted : List (VmmReservationSpace × Call) × VmmReservationSpace :=
  (runProcess [reserveTwo 0x140000000, commitStart 0x2000]).get (by decide)

theorem processArea : MetadataArea 0xFFFF850000000000 0x140000000 262144 :=
  ⟨by decide, by decide, by decide⟩

theorem bufferSound_of_fullyCommitted :
    BufferSound (processWith fullyCommitted.2) 0x140000000 0x1000 1 := by
  refine (bufferSound_iff_of_reaches processArea (p := processWith fullyCommitted.2)
    (reaches_of_runProcess _) _ _ _).mpr ?_
  intro _ _
  rw [if_neg (by decide)]
  intro _ i hi
  have hfind : vmFindReservation (processWith fullyCommitted.2).vaSpace 0x140000000 0x1000 =
      .ok (some 0) := by decide
  obtain rfl : 0 = i := by
    rw [hfind] at hi
    simpa using hi
  refine ⟨fun h => absurd h (by decide), fun _ _ _ a ha hpage => ?_⟩
  have hhigh := ha.2
  change a.toNat < 5368709120 + 4096 at hhigh
  change 5368709120 / 4096 + (4096 - 1) / 4096 < a.toNat / 4096 at hpage
  omega

/-- The only slot in use of `halfCommitted` is the first one. -/
theorem halfCommitted_used {i : ℕ} (hi : halfCommitted.2.Used i) : i = 0 := by
  have hr : Reaches 0xFFFF850000000000 0x140000000 0x140000000 halfCommitted.1 halfCommitted.2 :=
    reaches_of_runProcess _
  obtain ⟨m, hm, _⟩ := hr.slotsOk processArea
  have hlast : (halfCommitted.2.slots 1).state = .last := by decide
  exact Nat.lt_one_iff.mp (hm.marker.used_lt hlast hi)

/-- A buffer in the image may have any size; the last page of an unaligned buffer is not
looked at; and a buffer that wraps runs the scan into an `ASSERT`. -/
theorem buffer_validation_unsound :
    ¬ BufferSound (processWith processSpace) 0x400000 0xFFFFFFFFFFFFFFFF 1 ∧
    (Reaches 0xFFFF850000000000 0x140000000 0x140000000 halfCommitted.1 halfCommitted.2 ∧
      ¬ BufferSound (processWith halfCommitted.2) 0x140000FFF 2 1) ∧
    (Reaches 0xFFFF850000000000 0x140000000 0x140000000 fullyCommitted.1 fullyCommitted.2 ∧
      mmuIsBufferValid (processWith fullyCommitted.2) 0x140000000 0xFFFFFFFEC0000001 1 =
        .error .assertFailed) := by
  refine ⟨?_, ⟨reaches_of_runProcess _, ?_⟩, reaches_of_runProcess _, by decide⟩
  · intro hall
    obtain ⟨st, hst, hsound⟩ := hall
    have hres : mmuIsBufferValid (processWith processSpace) 0x400000 0xFFFFFFFFFFFFFFFF 1 =
        .ok .success := by decide
    rw [hres] at hst
    cases hst
    exact absurd (hsound rfl).1 (by decide)
  · intro hall
    obtain ⟨st, hst, hsound⟩ := hall
    have hres : mmuIsBufferValid (processWith halfCommitted.2) 0x140000FFF 2 1 = .ok .success := by
      decide
    rw [hres] at hst
    cases hst
    obtain ⟨_, himage | ⟨i, hused, _, _, _, hbit⟩⟩ := (hsound rfl).2 0x140001000 (by decide)
    · exact absurd himage (by decide)
    · obtain rfl := halfCommitted_used hused
      exact absurd hbit (by decide)

end HAL9000.Vmm
