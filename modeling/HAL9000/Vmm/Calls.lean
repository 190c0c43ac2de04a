import HAL9000.Vmm.Slots
import HAL9000.Lib.Run

/-! What one call does to a reservation space, and runs of calls from an initialised one. -/
namespace HAL9000.Vmm

open Run

/-- A range has been reserved: a fresh slot describes it and the marker moved by at most one. -/
def Reserves (s s' : VmmReservationSpace) (m : ℕ) (a n : QWORD) : Prop :=
  ∃ i m', Reserved s s' i a n ∧ Marker s' m' ∧ (m' = m ∨ m' = m + 1)

theorem vmSetReservation_keeps {s s' : VmmReservationSpace} {a n : QWORD} {r : VmmReservation}
    {set : Bool} (h : vmSetReservation s a n r set = .ok s') : Keeps s s' := by
  obtain ⟨_, _, h⟩ := bind_eq_ok.mp h
  obtain ⟨_, _, h⟩ := bind_eq_ok.mp h
  obtain ⟨_, _, h⟩ := bind_eq_ok.mp h
  obtain ⟨_, _, h⟩ := bind_eq_ok.mp h
  obtain ⟨_, _, h⟩ := bind_eq_ok.mp h
  obtain ⟨_, _, h⟩ := bind_eq_ok.mp h
  obtain ⟨mem, _, h⟩ := bind_eq_ok.mp h
  cases h
  exact ⟨⟨rfl, rfl, rfl, rfl⟩, rfl, rfl⟩

section Change

variable {s s' : VmmReservationSpace} {m : ℕ} (hm : Marker s m) {a n : QWORD} {attr : Attributes}
  {st : Status}
include hm

/-- A reservation that goes through makes one slot for the range, with the attributes asked for and a
commit bitmap of zeros. -/
theorem reserve_cases
    (h : vmChangeVaReservationState s a n vmmAllocTypeReserve attr = .ok (s', st)) :
    (st = .memoryAlreadyReserved ∧ s' = s ∧ ∃ i, s.Contains a n i) ∨
      (st = .success ∧ (∀ i, ¬ s.Contains a n i) ∧ ∃ i,
        (∃ m', Reserved s s' i a n ∧ Marker s' m' ∧ (m' = m ∨ m' = m + 1)) ∧
        (s'.slots i).attributes = attr ∧ s'.memory = memset s.memory s.freeBitmapAddress 0
          ((s'.slots i).commitBitmap.bufferSize.setWidth 64)) := by
  obtain ⟨_, _, h⟩ := bind_eq_ok.mp h
  obtain ⟨_, _, h⟩ := bind_eq_ok.mp h
  obtain ⟨_, _, h⟩ := bind_eq_ok.mp h
  obtain ⟨_, _, h⟩ := bind_eq_ok.mp h
  obtain ⟨_, _, h⟩ := bind_eq_ok.mp h
  obtain ⟨r, hfind, h⟩ := bind_eq_ok.mp h
  have hfound := vmFindReservation_spec hm hfind
  cases r with
  | some i =>
    cases h
    exact Or.inl ⟨rfl, rfl, i, hfound.2⟩
  | none =>
    obtain ⟨⟨s₁, r⟩, hfree, h⟩ := bind_eq_ok.mp h
    cases r with
    | none => cases h
    | some i =>
      obtain ⟨s₂, hinit, h⟩ := bind_eq_ok.mp h
      cases h
      refine Or.inr ⟨rfl, fun j => hfound j (Nat.zero_le j), i, ?_⟩
      obtain ⟨hi, hst, rfl⟩ | ⟨rfl, haddr, rfl⟩ :=
        findFirstFreeLoop_spec hm (Nat.zero_le m) hfree
      · have hnot : ¬ s₁.Used i := by
          unfold VmmReservationSpace.Used
          rw [hst]
          simp
        obtain ⟨hr, hother, hfilled⟩ := vmInitializeReservation_spec hinit hnot
        have hused : s'.Used i := (hr.used i).mpr (Or.inl rfl)
        exact ⟨⟨m, hr, hm.fill hi hr.area hused hother, Or.inl rfl⟩, hfilled⟩
      · have hsame := hm.sameUsed_move
        have hmove := hm.move haddr
        have hnot : ¬ (s.moveMarker i).Used i := by
          rw [hsame.used]
          unfold VmmReservationSpace.Used
          rw [hm.last]
          simp
        obtain ⟨hr, hother, hfilled⟩ := vmInitializeReservation_spec hinit hnot
        have hused : s'.Used i := (hr.used i).mpr (Or.inl rfl)
        exact ⟨⟨i + 1, hsame.reserved hr,
          hmove.fill (Nat.lt_succ_self i) hr.area hused hother, Or.inr rfl⟩, hfilled⟩

theorem reserve_spec
    (h : vmChangeVaReservationState s a n vmmAllocTypeReserve attr = .ok (s', st)) :
    (st = .memoryAlreadyReserved ∧ s' = s ∧ ∃ i, s.Contains a n i) ∨
      (st = .success ∧ (∀ i, ¬ s.Contains a n i) ∧ Reserves s s' m a n) := by
  obtain hsame | ⟨hst, hnone, i, hi, -⟩ := reserve_cases hm h
  · exact Or.inl hsame
  · exact Or.inr ⟨hst, hnone, i, hi⟩

/-- The range that was reserved is found again, so that committing it does not fail. -/
theorem commit_of_reserve {s₁ s₂ : VmmReservationSpace}
    (h : vmChangeVaReservationState s a n vmmAllocTypeReserve attr = .ok (s₁, .success))
    (hc : vmChangeVaReservationState s₁ a n vmmAllocTypeCommit attr = .ok (s₂, st)) :
    st = .success := by
  obtain ⟨hst, -, -⟩ | ⟨-, hnone, i, ⟨m', hr, hm', -⟩, hattr, -⟩ := reserve_cases hm h
  · cases hst
  have hrights : (s₁.slots i).pageRights = attr.rights := by rw [← hattr]; rfl
  have huncacheable : (s₁.slots i).uncacheable = attr.uncacheable := by rw [← hattr]; rfl
  have hcontains : s₁.Contains a n i := by
    refine ⟨(hr.used i).mpr (Or.inl rfl), ?_⟩
    rw [hr.startVa, hr.size]
    simp [checkBounds]
  obtain ⟨_, _, hc⟩ := bind_eq_ok.mp hc
  obtain ⟨_, _, hc⟩ := bind_eq_ok.mp hc
  obtain ⟨_, _, hc⟩ := bind_eq_ok.mp hc
  obtain ⟨_, _, hc⟩ := bind_eq_ok.mp hc
  obtain ⟨_, _, hc⟩ := bind_eq_ok.mp hc
  obtain ⟨r, hfind, hc⟩ := bind_eq_ok.mp hc
  have hfound := vmFindReservation_spec hm' hfind
  cases r with
  | none => exact absurd hcontains (hfound i (Nat.zero_le i))
  | some j =>
    obtain rfl : j = i := by
      rcases (hr.used j).mp hfound.2.1 with heq | hold
      · exact heq
      · refine absurd ⟨hold, ?_⟩ (hnone j)
        rw [← hr.same j hold]
        exact hfound.2.2
    have hne : ¬ vmmAllocTypeCommit = vmmAllocTypeReserve := by decide
    simp only [if_neg hne, hrights, huncacheable, ne_eq, not_true_eq_false, if_false] at hc
    obtain ⟨_, _, hc⟩ := bind_eq_ok.mp hc
    cases hc
    rfl

omit hm in
/-- A commit that is refused changes nothing. -/
theorem commit_refused (hst : st ≠ .success)
    (h : vmChangeVaReservationState s a n vmmAllocTypeCommit attr = .ok (s', st)) : s' = s := by
  obtain ⟨_, _, h⟩ := bind_eq_ok.mp h
  obtain ⟨_, _, h⟩ := bind_eq_ok.mp h
  obtain ⟨_, _, h⟩ := bind_eq_ok.mp h
  obtain ⟨_, _, h⟩ := bind_eq_ok.mp h
  obtain ⟨_, _, h⟩ := bind_eq_ok.mp h
  obtain ⟨r, _, h⟩ := bind_eq_ok.mp h
  cases r with
  | none =>
    cases h
    rfl
  | some i =>
    have hne : ¬ vmmAllocTypeCommit = vmmAllocTypeReserve := by decide
    simp only [if_neg hne] at h
    split_ifs at h
    · cases h
      rfl
    · cases h
      rfl
    · obtain ⟨s₁, _, h⟩ := bind_eq_ok.mp h
      cases h
      exact absurd rfl hst

omit hm in
theorem commit_keeps
    (h : vmChangeVaReservationState s a n vmmAllocTypeCommit attr = .ok (s', st)) : Keeps s s' := by
  obtain ⟨_, _, h⟩ := bind_eq_ok.mp h
  obtain ⟨_, _, h⟩ := bind_eq_ok.mp h
  obtain ⟨_, _, h⟩ := bind_eq_ok.mp h
  obtain ⟨_, _, h⟩ := bind_eq_ok.mp h
  obtain ⟨_, _, h⟩ := bind_eq_ok.mp h
  obtain ⟨r, _, h⟩ := bind_eq_ok.mp h
  cases r with
  | none =>
    cases h
    exact Keeps.refl s
  | some i =>
    have hne : ¬ vmmAllocTypeCommit = vmmAllocTypeReserve := by decide
    simp only [if_neg hne] at h
    split_ifs at h
    · cases h
      exact Keeps.refl s
    · cases h
      exact Keeps.refl s
    · obtain ⟨s₁, hset, h⟩ := bind_eq_ok.mp h
      cases h
      exact vmSetReservation_keeps hset

end Change

/-- The page range for which a request asks a reservation; `none` when it does not ask for one
or names an address below the start of the address space. -/
def VmmReservationSpace.requestedRange (s : VmmReservationSpace) (req : AllocRequest) :
    Option (QWORD × QWORD) :=
  let (_, base, alignedSize) := s.place req
  if isBooleanFlagOn req.allocType vmmAllocTypeReserve = true ∧
      ¬ (req.baseAddress ≠ 0 ∧ base < s.startOfVirtualAddressSpace) then
    some (base, alignedSize)
  else none

theorem place_keeps (s : VmmReservationSpace) (req : AllocRequest) : Keeps s (s.place req).1 := by
  unfold VmmReservationSpace.place
  split_ifs
  · exact Keeps.refl s
  · exact ⟨⟨rfl, rfl, rfl, rfl⟩, rfl, rfl⟩

theorem Keeps.contains_iff {s s' : VmmReservationSpace} (h : Keeps s s') {a n : QWORD} {i : ℕ} :
    s'.Contains a n i ↔ s.Contains a n i := by
  unfold VmmReservationSpace.Contains VmmReservationSpace.Used
  rw [h.slots]

/-- An allocation either changes no slot, and then a range it asked for is part of an existing
reservation, or fills one with the range it asked for. -/
theorem vmReservationSpaceAllocRegion_spec {s s' : VmmReservationSpace} {m : ℕ} (hm : Marker s m)
    {req : AllocRequest} {r : Except Status (QWORD × QWORD)}
    (h : vmReservationSpaceAllocRegion s req = .ok (s', r)) :
    (Keeps s s' ∧ ∀ a n, s.requestedRange req = some (a, n) → ∃ i, s.Contains a n i) ∨
      ∃ a n, s.requestedRange req = some (a, n) ∧ (∀ i, ¬ s.Contains a n i) ∧
        Reserves s s' m a n := by
  obtain ⟨_, _, h⟩ := bind_eq_ok.mp h
  obtain ⟨_, _, h⟩ := bind_eq_ok.mp h
  have hkeep := place_keeps s req
  rcases hplace : s.place req with ⟨s₁, base, size⟩
  rw [hplace] at h hkeep
  have hrange : s.requestedRange req =
      if isBooleanFlagOn req.allocType vmmAllocTypeReserve = true ∧
        ¬ (req.baseAddress ≠ 0 ∧ base < s.startOfVirtualAddressSpace) then some (base, size)
      else none := by
    unfold VmmReservationSpace.requestedRange
    rw [hplace]
  rw [hrange]
  dsimp only at h
  split_ifs at h with hlow
  · cases h
    rw [if_neg (fun hc => hc.2 hlow)]
    exact Or.inl ⟨Keeps.refl s, by simp⟩
  · obtain ⟨⟨s₂, reserved⟩, hres, h⟩ := bind_eq_ok.mp h
    have hrest : Keeps s₂ s' := by
      dsimp only at h
      split_ifs at h
      · cases h
        exact Keeps.refl _
      · obtain ⟨⟨s₃, committed⟩, hcom, h⟩ := bind_eq_ok.mp h
        have hs₃ : Keeps s₂ s₃ := by
          unfold vmChangeIfRequested at hcom
          split_ifs at hcom
          · exact commit_keeps hcom
          · cases hcom
            exact Keeps.refl _
        dsimp only at h
        split_ifs at h
        · cases h
          exact hs₃
        · cases h
          exact hs₃
    unfold vmChangeIfRequested at hres
    by_cases hflag : isBooleanFlagOn req.allocType vmmAllocTypeReserve = true
    · rw [if_pos hflag] at hres
      rw [if_pos ⟨hflag, hlow⟩]
      obtain ⟨_, rfl, i, hi⟩ | ⟨_, hnone, i, m', hr, hm', hle⟩ :=
        reserve_spec (hkeep.marker hm) hres
      · refine Or.inl ⟨hkeep.trans hrest, ?_⟩
        intro a n han
        obtain ⟨rfl, rfl⟩ : base = a ∧ size = n := by simpa using han
        exact ⟨i, hkeep.contains_iff.mp hi⟩
      · refine Or.inr ⟨base, size, rfl, fun j hj => hnone j (hkeep.contains_iff.mpr hj), ?_⟩
        exact ⟨i, m', (hkeep.sameUsed.reserved hr).keeps hrest, hrest.marker hm', hle⟩
    · rw [if_neg hflag] at hres
      rw [if_neg (fun hc => hflag hc.1)]
      cases hres
      exact Or.inl ⟨hkeep.trans hrest, by simp⟩

/-- An allocation that is refused leaves reservations and commit bits alone. -/
theorem vmReservationSpaceAllocRegion_refused {s s' : VmmReservationSpace} {m : ℕ} (hm : Marker s m)
    {req : AllocRequest} {st : Status}
    (h : vmReservationSpaceAllocRegion s req = .ok (s', .error st)) :
    s'.slots = s.slots ∧ s'.memory = s.memory := by
  obtain ⟨_, _, h⟩ := bind_eq_ok.mp h
  obtain ⟨_, _, h⟩ := bind_eq_ok.mp h
  have hmarker := (place_keeps s req).marker hm
  have hplaced : (s.place req).1.slots = s.slots ∧ (s.place req).1.memory = s.memory := by
    unfold VmmReservationSpace.place
    split_ifs
    · exact ⟨rfl, rfl⟩
    · exact ⟨rfl, rfl⟩
  rcases hplace : s.place req with ⟨s₁, base, size⟩
  rw [hplace] at h hmarker hplaced
  dsimp only at h
  split_ifs at h with hlow
  · cases h
    exact ⟨rfl, rfl⟩
  · obtain ⟨⟨s₂, reserved⟩, hres, h⟩ := bind_eq_ok.mp h
    dsimp only at h
    unfold vmChangeIfRequested at hres
    split_ifs at h with hfail
    · cases h
      split_ifs at hres
      · obtain ⟨-, rfl, -⟩ | ⟨rfl, -⟩ := reserve_spec hmarker hres
        · exact hplaced
        · exact absurd rfl hfail
      · cases hres
        exact hplaced
    · obtain ⟨⟨s₃, committed⟩, hcom, h⟩ := bind_eq_ok.mp h
      dsimp only at h
      split_ifs at h with hrefused
      · cases h
        unfold vmChangeIfRequested at hcom
        split_ifs at hcom
        · have hreserved : reserved = .success := by simpa using hfail
          subst hreserved
          split_ifs at hres
          · exact absurd (commit_of_reserve hmarker hres hcom) hrefused
          · cases hres
            rw [commit_refused hrefused hcom]
            exact hplaced
        · cases hcom
          exact absurd rfl hrefused
      · cases h

/-- An allocation that is granted returns the range that was chosen for it. -/
theorem vmReservationSpaceAllocRegion_granted {s s' : VmmReservationSpace} {req : AllocRequest}
    {base size : QWORD} (h : vmReservationSpaceAllocRegion s req = .ok (s', .ok (base, size))) :
    (s.place req).2 = (base, size) := by
  obtain ⟨_, _, h⟩ := bind_eq_ok.mp h
  obtain ⟨_, _, h⟩ := bind_eq_ok.mp h
  rcases hplace : s.place req with ⟨s₁, a, n⟩
  rw [hplace] at h
  dsimp only at h
  split_ifs at h
  · cases h
  · obtain ⟨⟨s₂, reserved⟩, _, h⟩ := bind_eq_ok.mp h
    dsimp only at h
    split_ifs at h
    · cases h
    · obtain ⟨⟨s₃, committed⟩, _, h⟩ := bind_eq_ok.mp h
      dsimp only at h
      split_ifs at h
      · cases h
      · cases h
        rfl

/-- A granted request to reserve has filled a slot with the range that was chosen. -/
theorem vmReservationSpaceAllocRegion_reserved {s s' : VmmReservationSpace} {m : ℕ}
    (hm : Marker s m) {req : AllocRequest} {base size : QWORD}
    (hflag : isBooleanFlagOn req.allocType vmmAllocTypeReserve = true)
    (h : vmReservationSpaceAllocRegion s req = .ok (s', .ok (base, size))) :
    Reserves s s' m base size := by
  have hplace := vmReservationSpaceAllocRegion_granted h
  have hkeep := place_keeps s req
  obtain ⟨_, _, h⟩ := bind_eq_ok.mp h
  obtain ⟨_, _, h⟩ := bind_eq_ok.mp h
  rcases hplaced : s.place req with ⟨s₁, a, n⟩
  rw [hplaced] at h hkeep hplace
  obtain ⟨rfl, rfl⟩ : a = base ∧ n = size := by simpa using hplace
  dsimp only at h
  split_ifs at h
  · cases h
  · obtain ⟨⟨s₂, reserved⟩, hres, h⟩ := bind_eq_ok.mp h
    dsimp only at h
    split_ifs at h with hfail
    · cases h
    · obtain ⟨⟨s₃, committed⟩, hcom, h⟩ := bind_eq_ok.mp h
      have hs₃ : Keeps s₂ s₃ := by
        unfold vmChangeIfRequested at hcom
        split_ifs at hcom
        · exact commit_keeps hcom
        · cases hcom
          exact Keeps.refl _
      dsimp only at h
      split_ifs at h
      · cases h
      · cases h
        unfold vmChangeIfRequested at hres
        rw [if_pos hflag] at hres
        obtain ⟨rfl, -⟩ | ⟨-, -, i, m', hr, hm', hle⟩ := reserve_spec (hkeep.marker hm) hres
        · exact absurd (by decide) hfail
        · exact ⟨i, m', (hkeep.sameUsed.reserved hr).keeps hs₃, hs₃.marker hm', hle⟩

/-- A release clears the slot of a reservation in use, a decommit only clears bits. -/
theorem vmReservationSpaceFreeRegion_spec {s s' : VmmReservationSpace} {m : ℕ} (hm : Marker s m)
    {address size : QWORD} {freeType : DWORD} {r : QWORD × QWORD}
    (h : vmReservationSpaceFreeRegion s address size freeType = .ok (s', r)) :
    Keeps s s' ∨ ∃ i, Released s s' i := by
  obtain ⟨_, _, h⟩ := bind_eq_ok.mp h
  obtain ⟨_, _, h⟩ := bind_eq_ok.mp h
  obtain ⟨_, _, h⟩ := bind_eq_ok.mp h
  obtain ⟨found, hfind, h⟩ := bind_eq_ok.mp h
  have hfound := vmFindReservation_spec hm hfind
  cases found with
  | none => cases h
  | some i =>
    dsimp only at h
    split_ifs at h
    · obtain ⟨_, _, h⟩ := bind_eq_ok.mp h
      cases h
      exact Or.inr ⟨i, hfound.2.1, rfl⟩
    · obtain ⟨s₁, hset, h⟩ := bind_eq_ok.mp h
      cases h
      exact Or.inl (vmSetReservation_keeps hset)

theorem Released.marker {s s' : VmmReservationSpace} {m i : ℕ} (hm : Marker s m)
    (hr : Released s s' i) : Marker s' m := by
  have hi := hm.lt_of_used hr.used
  rw [hr.eq]
  constructor
  · rw [setSlot_ne _ _ (by omega)]
    exact hm.last
  · intro j hj
    by_cases hji : j = i
    · simp [hji, VmmReservation.zero]
    · rw [setSlot_ne _ _ hji]
      exact hm.before j hj
  · intro j hj
    rw [setSlot_ne _ _ (by omega)]
    exact hm.after j hj
  · exact hm.below

inductive Call
  | alloc (req : AllocRequest)
  | free (address size : QWORD) (freeType : DWORD)
  deriving DecidableEq, Repr

def perform (s : VmmReservationSpace) : Call → Except Fault VmmReservationSpace
  | .alloc req => (vmReservationSpaceAllocRegion s req).map (·.1)
  | .free address size freeType => (vmReservationSpaceFreeRegion s address size freeType).map (·.1)

/-- The space after a call that returns. -/
def next (s : VmmReservationSpace) (c : Call) : Option VmmReservationSpace := (perform s c).toOption

/-- The range a call asks to reserve. -/
def VmmReservationSpace.reservation (s : VmmReservationSpace) : Call → Option (QWORD × QWORD)
  | .alloc req => s.requestedRange req
  | .free _ _ _ => none

theorem ok_of_map {α β : Type} {x : Except Fault α} {f : α → β} {b : β}
    (h : (x.map f).toOption = some b) : ∃ a, x = .ok a ∧ f a = b := by
  cases x with
  | error e => simp [Except.map, Except.toOption] at h
  | ok a => exact ⟨a, rfl, by simpa [Except.map, Except.toOption] using h⟩

/-- Everything a call can do to the list of slots. -/
theorem next_cases {s s' : VmmReservationSpace} {m : ℕ} {c : Call} (hm : Marker s m)
    (h : next s c = some s') :
    (Keeps s s' ∧ ∀ a n, s.reservation c = some (a, n) → ∃ i, s.Contains a n i) ∨
      (∃ a n, s.reservation c = some (a, n) ∧ (∀ i, ¬ s.Contains a n i) ∧ Reserves s s' m a n) ∨
      ∃ i, Released s s' i ∧ s.reservation c = none := by
  cases c with
  | alloc req =>
    obtain ⟨⟨s₁, r⟩, hcall, rfl⟩ := ok_of_map h
    rcases vmReservationSpaceAllocRegion_spec hm hcall with hk | hr
    · exact Or.inl hk
    · exact Or.inr (Or.inl hr)
  | free address size freeType =>
    obtain ⟨⟨s₁, r⟩, hcall, rfl⟩ := ok_of_map h
    rcases vmReservationSpaceFreeRegion_spec hm hcall with hk | ⟨i, hr⟩
    · exact Or.inl ⟨hk, by simp [VmmReservationSpace.reservation]⟩
    · exact Or.inr (Or.inr ⟨i, hr, rfl⟩)

theorem next_marker {s s' : VmmReservationSpace} {m : ℕ} {c : Call} (hm : Marker s m)
    (h : next s c = some s') : ∃ m', Marker s' m' ∧ (m' = m ∨ m' = m + 1) := by
  obtain ⟨hk, _⟩ | ⟨_, _, _, _, _, m', _, hm', hle⟩ | ⟨i, hr, _⟩ := next_cases hm h
  · exact ⟨m, hk.marker hm, Or.inl rfl⟩
  · exact ⟨m', hm', hle⟩
  · exact ⟨m, hr.marker hm, Or.inl rfl⟩

/-- A space as `VmReservationSpaceInit` and `VmReservationSpaceFinishInit` leave it. -/
structure Initialised (metadata base size : QWORD) (s : VmmReservationSpace) : Prop where
  init : ∃ mem s₀, vmReservationSpaceInit metadata base size mem = .ok s₀ ∧
    s = vmReservationSpaceFinishInit s₀

theorem Initialised.marker {metadata base size : QWORD} {s : VmmReservationSpace}
    (hi : Initialised metadata base size s) : Marker s 0 := by
  obtain ⟨mem, s₀, hinit, rfl⟩ := hi.init
  obtain ⟨_, _, hinit⟩ := bind_eq_ok.mp hinit
  obtain ⟨_, _, hinit⟩ := bind_eq_ok.mp hinit
  obtain ⟨_, _, hinit⟩ := bind_eq_ok.mp hinit
  obtain ⟨share, _, hinit⟩ := bind_eq_ok.mp hinit
  cases hinit
  unfold vmReservationSpaceFinishInit
  constructor
  · simp
  · intro i hi
    cases hi
  · intro i hi
    rw [setSlot_ne _ _ (by omega)]
    rfl
  · intro i hi
    cases hi

/-- `s` is reached from an initialised space by calls that all return. -/
def Reaches (metadata base size : QWORD) (tr : List (VmmReservationSpace × Call))
    (s : VmmReservationSpace) : Prop :=
  ∃ s₀, Initialised metadata base size s₀ ∧ Exec (fun s c s' => next s c = some s') s₀ tr s

/-- The address space of a process: 5 GiB of metadata in the kernel half, reservations from the
end of the first 5 GiB on. -/
def processSpace : VmmReservationSpace :=
  vmReservationSpaceFinishInit ((vmReservationSpaceInit 0xFFFF850000000000 0x140000000 0x140000000
    fun _ => 0).toOption.get (by decide))

theorem processSpace_initialised :
    Initialised 0xFFFF850000000000 0x140000000 0x140000000 processSpace :=
  ⟨fun _ => 0, _, rfl, rfl⟩

/-- Evaluates a list of calls on `processSpace`. -/
def runProcess (calls : List Call) :
    Option (List (VmmReservationSpace × Call) × VmmReservationSpace) :=
  exec next processSpace calls

theorem reaches_of_runProcess {calls : List Call} (h : (runProcess calls).isSome) :
    Reaches 0xFFFF850000000000 0x140000000 0x140000000 ((runProcess calls).get h).1
      ((runProcess calls).get h).2 :=
  ⟨processSpace, processSpace_initialised, exec_get h⟩

/-- Reserves two pages. -/
def reserveTwo (address : QWORD) : Call :=
  .alloc ⟨address, 0x2000, vmmAllocTypeReserve, ⟨1, false, 0⟩⟩

end HAL9000.Vmm
