import HAL9000.Vmm.BufferSound

/-! What a successful `VmReservationReturnRightsForAddress` says about the bytes of its range. The scan
starts at the address itself, so the page of the last byte may be left out. -/
namespace HAL9000.Vmm

open Run

/-- The byte lies in the reservation, and its page is committed there. -/
def VmmReservationSpace.CommittedIn (s : VmmReservationSpace) (i : ℕ) (a : QWORD) : Prop :=
  (s.slots i).startVa.toNat ≤ a.toNat ∧
    a.toNat < (s.slots i).startVa.toNat + (s.slots i).size.toNat ∧
    s.committed (s.slots i) ((a.toNat - (s.slots i).startVa.toNat) / 4096) = true

/-- All bytes of the range are committed in one reservation. -/
def VmmReservationSpace.RangeCommitted (s : VmmReservationSpace) (address size : QWORD) (i : ℕ) :
    Prop :=
  s.Used i ∧ ∀ a, InBuffer address size a → s.CommittedIn i a

/-- The query returns, and a range that does not wrap and whose rights it returns is committed. -/
def RangeSound (s : VmmReservationSpace) (address size : QWORD) : Prop :=
  ∃ rights, vmReservationReturnRightsForAddress s address size = .ok rights ∧
    (rights ≠ none → address.toNat + size.toNat < 2 ^ 64 → ∃ i, s.RangeCommitted address size i)

/-- A range matched to slot `i`. If it does not wrap and the scan finds its pages committed, the page of
its last byte is committed too, or another reservation has the whole range. If it wraps and the scan
gets to the end of the reservation or to the null pointer, it stops at a page before that. -/
def RangeSafeIn (s : VmmReservationSpace) (address size : QWORD) (i : ℕ) : Prop :=
  (address.toNat + size.toNat < 2 ^ 64 →
    (∀ k, 4096 * k < size.toNat → s.committed (s.slots i)
      ((address.toNat - (s.slots i).startVa.toNat) / 4096 + k) = true) →
    s.committed (s.slots i)
        ((address.toNat + size.toNat - 1 - (s.slots i).startVa.toNat) / 4096) = true ∨
      ∃ j, j ≠ i ∧ s.RangeCommitted address size j) ∧
  (2 ^ 64 ≤ address.toNat + size.toNat →
    (s.slots i).startVa.toNat + (s.slots i).size.toNat < 2 ^ 64 ∨
      address.toNat % 4096 = 0 ∧ 2 ^ 64 < address.toNat + size.toNat →
    ∃ k, (address.toNat - (s.slots i).startVa.toNat) / 4096 ≤ k ∧
      k < (s.slots i).size.toNat / 4096 ∧ (s.slots i).startVa.toNat + 4096 * k < 2 ^ 64 ∧
      s.committed (s.slots i) k = false)

/-- The condition under which the query is sound. -/
def RangeSafe (s : VmmReservationSpace) (address size : QWORD) : Prop :=
  address ≠ 0 ∧ size ≠ 0 ∧
    ∀ i, vmFindReservation s address size = .ok (some i) → RangeSafeIn s address size i

section Sound

variable {s : VmmReservationSpace} {address size : QWORD} {i : ℕ}

private theorem rangeSound_of_ok {rights : Option DWORD}
    (h : vmReservationReturnRightsForAddress s address size = .ok rights) :
    RangeSound s address size ↔ (rights ≠ none → address.toNat + size.toNat < 2 ^ 64 →
      ∃ i, s.RangeCommitted address size i) := by
  constructor
  · intro hsound
    obtain ⟨rights', h', hsound⟩ := hsound
    rw [h] at h'
    rwa [Except.ok.inj h']
  · exact fun hsound => ⟨rights, h, hsound⟩

private theorem not_rangeSound_of_error {f : Fault}
    (h : vmReservationReturnRightsForAddress s address size = .error f) :
    ¬ RangeSound s address size := by
  intro hsound
  obtain ⟨rights, h', -⟩ := hsound
  rw [h] at h'
  cases h'

section Match

variable (h₁ : address ≠ 0) (h₂ : size ≠ 0)
  (hfind : vmFindReservation s address size = .ok (some i))
include h₁ h₂ hfind

private theorem rights_of_scan {b : Bool}
    (hscan : commitedLoop s (s.slots i) address size (size.toNat / pageSize.toNat + 2) 0 = .ok b) :
    vmReservationReturnRightsForAddress s address size =
      .ok (if b then some (s.slots i).pageRights else none) := by
  unfold vmReservationReturnRightsForAddress
  rw [assertThat_of h₁, assertThat_of h₂, hfind]
  simp only [bind, Except.bind, hscan]
  cases b with
  | false => rfl
  | true => rfl

private theorem rights_of_fault {f : Fault}
    (hscan : commitedLoop s (s.slots i) address size (size.toNat / pageSize.toNat + 2) 0 = .error f) :
    vmReservationReturnRightsForAddress s address size = .error f := by
  unfold vmReservationReturnRightsForAddress
  rw [assertThat_of h₁, assertThat_of h₂, hfind]
  simp only [bind, Except.bind, hscan]

/-- When the scan ends at a hole or fires an `ASSERT`, the hole decides. -/
private theorem rangeSound_iff_of_stops {committed : Prop} [Decidable committed]
    (hscan : commitedLoop s (s.slots i) address size (size.toNat / pageSize.toNat + 2) 0 =
      if committed then .error .assertFailed else .ok false) :
    RangeSound s address size ↔ ¬ committed := by
  by_cases hc : committed
  · rw [if_pos hc] at hscan
    exact iff_of_false (not_rangeSound_of_error (rights_of_fault h₁ h₂ hfind hscan)) fun h => h hc
  · rw [if_neg hc] at hscan
    exact iff_of_true ((rangeSound_of_ok (rights_of_scan h₁ h₂ hfind hscan)).mpr
      fun h => absurd rfl h) hc

private theorem rangeSound_iff_of_noWrap (hused : s.Used i) (hok : SlotOk (s.slots i))
    (hlow : (s.slots i).startVa.toNat ≤ address.toNat)
    (hhigh : address.toNat + size.toNat ≤ (s.slots i).startVa.toNat + (s.slots i).size.toNat)
    (hw : address.toNat + size.toNat < 2 ^ 64) :
    RangeSound s address size ↔ RangeSafeIn s address size i := by
  have hpos : size.toNat ≠ 0 := fun h => h₂ (BitVec.eq_of_toNat_eq h)
  obtain ⟨b, hscan, hb⟩ := @commitedLoop_inside s _ hok _ size hlow
    fun k hk => ⟨hk, by omega, by omega⟩
  rw [rangeSound_of_ok (rights_of_scan h₁ h₂ hfind hscan), RangeSafeIn]
  cases b with
  | false =>
    refine iff_of_true (fun h => absurd rfl h) ⟨fun _ hall => ?_, fun hwrap => absurd hw (by omega)⟩
    exact absurd (hb.mpr hall) Bool.false_ne_true
  | true =>
    have hall := hb.mp rfl
    constructor
    · intro hsound
      obtain ⟨j, hj⟩ := hsound (by simp) hw
      refine ⟨fun _ _ => ?_, fun hwrap => absurd hw (by omega)⟩
      by_cases hji : j = i
      · obtain ⟨-, -, hlast⟩ := hj.2 (BitVec.ofNat 64 (address.toNat + size.toNat - 1)) (by
          rw [InBuffer, BitVec.toNat_ofNat]
          lia)
        rw [hji, BitVec.toNat_ofNat, Nat.mod_eq_of_lt (by omega)] at hlast
        exact Or.inl hlast
      · exact Or.inr ⟨j, hji, hj⟩
    · intro hsafe _ _
      rcases hsafe.1 hw hall with hlast | ⟨j, -, hj⟩
      · refine ⟨i, hused, fun a ha => ?_⟩
        obtain ⟨halow, hahigh⟩ := ha
        refine ⟨by omega, by omega, ?_⟩
        have haligned := hok.aligned
        by_cases hk : 4096 * ((a.toNat - (s.slots i).startVa.toNat) / 4096 -
            (address.toNat - (s.slots i).startVa.toNat) / 4096) < size.toNat
        · have htested := hall _ hk
          rwa [Nat.add_sub_cancel' (by lia)] at htested
        · rwa [show (a.toNat - (s.slots i).startVa.toNat) / 4096 =
            (address.toNat + size.toNat - 1 - (s.slots i).startVa.toNat) / 4096 by lia]
      · exact ⟨j, hj⟩

/-- A range that wraps, in a reservation that does not. -/
private theorem rangeSound_iff_of_outruns (hok : SlotOk (s.slots i))
    (hlow : (s.slots i).startVa.toNat ≤ address.toNat)
    (hend : (s.slots i).startVa.toNat + (s.slots i).size.toNat < 2 ^ 64)
    (hw : 2 ^ 64 ≤ address.toNat + size.toNat) :
    RangeSound s address size ↔ RangeSafeIn s address size i := by
  have ha := hok.aligned
  have hd := hok.sizeAligned
  have hscan := @commitedLoop_outruns s _ hok _ size hlow (by omega) (by omega) h₂
  rw [rangeSound_iff_of_stops h₁ h₂ hfind hscan, RangeSafeIn]
  constructor
  · intro hhole
    push Not at hhole
    obtain ⟨k, hk, hkB, hbit⟩ := hhole
    exact ⟨fun h => absurd h (by omega), fun _ _ => ⟨k, hk, hkB, by lia, by simpa using hbit⟩⟩
  · intro hsafe hall
    obtain ⟨k, hk, hkB, -, hbit⟩ := hsafe.2 hw (Or.inl hend)
    rw [hall k hk hkB] at hbit
    cases hbit

/-- A range and its reservation that both wrap. -/
private theorem rangeSound_iff_of_wraps (hok : SlotOk (s.slots i))
    (hlow : (s.slots i).startVa.toNat ≤ address.toNat)
    (hhigh : address.toNat + size.toNat ≤ (s.slots i).startVa.toNat + (s.slots i).size.toNat)
    (hw : 2 ^ 64 ≤ address.toNat + size.toNat) :
    RangeSound s address size ↔ RangeSafeIn s address size i := by
  have ha := hok.aligned
  have hlt := address.isLt
  have hpages := hok.pages
  by_cases hnull : address.toNat % 4096 = 0 ∧ 2 ^ 64 < address.toNat + size.toNat
  · obtain ⟨n, hn⟩ : ∃ n, n = (2 ^ 64 - address.toNat) / 4096 := ⟨_, rfl⟩
    have hstop : vmIsVaCommited s (s.slots i) (address + BitVec.ofNat 64 (4096 * n)) =
        .error .assertFailed := by
      have hzero : address + BitVec.ofNat 64 (4096 * n) = 0 := by
        apply BitVec.eq_of_toNat_eq
        rw [BitVec.toNat_add, BitVec.toNat_ofNat, show (0 : QWORD).toNat = 0 from rfl]
        lia
      unfold vmIsVaCommited
      rw [hzero, assertThat_of_not (fun h => h rfl)]
      rfl
    have hscan := @commitedLoop_stops s _ hok _ size hlow n (by lia)
      (fun k hk => ⟨by lia, by lia, by lia⟩) hstop
    rw [rangeSound_iff_of_stops h₁ h₂ hfind hscan, RangeSafeIn]
    constructor
    · intro hhole
      push Not at hhole
      obtain ⟨k, hk, hbit⟩ := hhole
      exact ⟨fun h => absurd h (by omega),
        fun _ _ => ⟨_, Nat.le_add_right _ k, by lia, by lia, by simpa using hbit⟩⟩
    · intro hsafe hall
      obtain ⟨k, hk, hkB, htop, hbit⟩ := hsafe.2 hw (Or.inr hnull)
      have := hall (k - (address.toNat - (s.slots i).startVa.toNat) / 4096) (by omega)
      rw [Nat.add_sub_cancel' hk, hbit] at this
      cases this
  · obtain ⟨b, hscan, -⟩ := @commitedLoop_inside s _ hok _ size hlow
      fun k hk => ⟨hk, by lia, by lia⟩
    rw [rangeSound_of_ok (rights_of_scan h₁ h₂ hfind hscan), RangeSafeIn]
    refine iff_of_true (fun _ h => absurd h (by omega)) ⟨fun h => absurd h (by omega), fun _ h => ?_⟩
    rcases h with h | h
    · omega
    · exact absurd h hnull

end Match

private theorem rangeSound_iff_of_found (h₁ : address ≠ 0) (h₂ : size ≠ 0)
    (hfind : vmFindReservation s address size = .ok (some i)) (hused : s.Used i)
    (hok : SlotOk (s.slots i))
    (hc : checkBounds address size (s.slots i).startVa (s.slots i).size = true) :
    RangeSound s address size ↔ RangeSafeIn s address size i := by
  rw [checkBounds_eq_true, BitVec.toNat_add, BitVec.toNat_add] at hc
  obtain ⟨hlow, hhigh⟩ := hc
  have hpages := hok.pages
  have hd := hok.sizeAligned
  have hlt := address.isLt
  have hslt := size.isLt
  have hrlt := (s.slots i).startVa.isLt
  by_cases hw : address.toNat + size.toNat < 2 ^ 64
  · exact rangeSound_iff_of_noWrap h₁ h₂ hfind hused hok hlow (by lia) hw
  · by_cases hend : (s.slots i).startVa.toNat + (s.slots i).size.toNat < 2 ^ 64
    · exact rangeSound_iff_of_outruns h₁ h₂ hfind hok hlow hend (by omega)
    · exact rangeSound_iff_of_wraps h₁ h₂ hfind hok hlow (by lia) (by omega)

end Sound

theorem rangeSound_iff_rangeSafe {s : VmmReservationSpace} {metadata area : QWORD} {pages m : ℕ}
    (ha : MetadataArea metadata area pages) (hi : MetadataInv metadata area pages m s)
    (hok : ∀ i, s.Used i → SlotOk (s.slots i)) (address size : QWORD) :
    RangeSound s address size ↔ RangeSafe s address size := by
  by_cases h₁ : address = 0
  · refine iff_of_false (not_rangeSound_of_error (f := .assertFailed) ?_) fun h => h.1 h₁
    rw [vmReservationReturnRightsForAddress, assertThat_of_not (fun h => h h₁)]
    rfl
  by_cases h₂ : size = 0
  · refine iff_of_false (not_rangeSound_of_error (f := .assertFailed) ?_) fun h => h.2.1 h₂
    rw [vmReservationReturnRightsForAddress, assertThat_of h₁, assertThat_of_not (fun h => h h₂)]
    rfl
  obtain ⟨r, hfind⟩ := hi.vmFindReservation_total ha h₁ h₂
  have hfound := vmFindReservation_spec hi.marker hfind
  cases r with
  | none =>
    have hres : vmReservationReturnRightsForAddress s address size = .ok none := by
      rw [vmReservationReturnRightsForAddress, assertThat_of h₁, assertThat_of h₂, hfind]
      rfl
    refine iff_of_true ((rangeSound_of_ok hres).mpr fun h => absurd rfl h) ⟨h₁, h₂, fun i hi => ?_⟩
    rw [hfind] at hi
    cases hi
  | some i =>
    obtain ⟨_, hused, hc⟩ := hfound
    rw [rangeSound_iff_of_found h₁ h₂ hfind hused (hok i hused) hc]
    constructor
    · intro hsafe
      refine ⟨h₁, h₂, fun j hj => ?_⟩
      rw [hfind] at hj
      obtain rfl := Option.some.inj (Except.ok.inj hj)
      exact hsafe
    · exact fun hsafe => hsafe.2.2 i hfind

/-- In every reachable state the query is sound for a range exactly when the range is safe. -/
theorem rangeSound_iff_of_reaches {s : VmmReservationSpace} {metadata base area : QWORD} {pages : ℕ}
    {tr : List (VmmReservationSpace × Call)} (ha : MetadataArea metadata area pages)
    (hr : Reaches metadata base area tr s) (address size : QWORD) :
    RangeSound s address size ↔ RangeSafe s address size := by
  obtain ⟨m, hm, hok⟩ := hr.slotsOk ha
  exact rangeSound_iff_rangeSafe ha hm hok address size

theorem rangeSound_of_fullyCommitted : RangeSound fullyCommitted.2 0x140000000 0x2000 := by
  have hreaches : Reaches 0xFFFF850000000000 0x140000000 0x140000000 fullyCommitted.1
      fullyCommitted.2 := reaches_of_runProcess _
  refine (rangeSound_iff_of_reaches processArea hreaches _ _).mpr
    ⟨by decide, by decide, fun i hi => ?_⟩
  have hfind : vmFindReservation fullyCommitted.2 0x140000000 0x2000 = .ok (some 0) := by decide
  rw [hfind] at hi
  obtain rfl := Option.some.inj (Except.ok.inj hi)
  exact ⟨fun _ _ => Or.inl (by decide), fun h => absurd h (by decide)⟩

/-- The last page of an unaligned range is not looked at, and a range that wraps runs the scan into an
`ASSERT`. -/
theorem range_rights_unsound :
    (Reaches 0xFFFF850000000000 0x140000000 0x140000000 halfCommitted.1 halfCommitted.2 ∧
      vmReservationReturnRightsForAddress halfCommitted.2 0x140000FFF 2 = .ok (some 1) ∧
      ¬ RangeSound halfCommitted.2 0x140000FFF 2) ∧
    (Reaches 0xFFFF850000000000 0x140000000 0x140000000 fullyCommitted.1 fullyCommitted.2 ∧
      vmReservationReturnRightsForAddress fullyCommitted.2 0x140000000 0xFFFFFFFEC0000001 =
        .error .assertFailed) := by
  have hrights : vmReservationReturnRightsForAddress halfCommitted.2 0x140000FFF 2 =
      .ok (some 1) := by decide
  refine ⟨⟨reaches_of_runProcess _, hrights, fun hsound => ?_⟩, reaches_of_runProcess _, by decide⟩
  obtain ⟨rights, hres, hsound⟩ := hsound
  rw [hrights] at hres
  obtain rfl := Except.ok.inj hres
  obtain ⟨i, hused, hall⟩ := hsound (by simp) (by decide)
  obtain ⟨-, -, hbit⟩ := hall 0x140001000 (by decide)
  obtain rfl := halfCommitted_used hused
  exact absurd hbit (by decide)

end HAL9000.Vmm
