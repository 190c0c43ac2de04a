import HAL9000.Vmm.Calls

/-! Overlap of reservations. A reserve request is refused only when an existing reservation
contains the whole range, so whether ranges stay disjoint depends on the requests. -/
namespace HAL9000.Vmm

open Run

/-- No address lies in both ranges; addresses are taken modulo `2 ^ 64`. -/
def Apart (a n b k : QWORD) : Prop := ∀ x : QWORD, ¬ (x - a < n ∧ x - b < k)

theorem Apart.symm {a n b k : QWORD} (h : Apart a n b k) : Apart b k a n :=
  fun x hx => h x ⟨hx.2, hx.1⟩

theorem Apart.of_gaps {a n b k : QWORD} (h : n ≤ b - a) (h' : k ≤ a - b) : Apart a n b k := by
  intro x hx
  bv_omega

/-- The ranges of the reservations in use are pairwise disjoint. -/
def NoOverlap (s : VmmReservationSpace) : Prop :=
  ∀ i j, i ≠ j → s.Used i → s.Used j →
    Apart (s.slots i).startVa (s.slots i).size (s.slots j).startVa (s.slots j).size

/-- The page range the call asks to reserve lies inside one existing reservation, by
`CHECK_BOUNDS`, or apart from all of them. -/
def InsideOrApart (s : VmmReservationSpace) (c : Call) : Prop :=
  ∀ a n, s.reservation c = some (a, n) →
    (∃ i, s.Contains a n i) ∨ ∀ i, s.Used i → Apart a n (s.slots i).startVa (s.slots i).size

theorem Keeps.noOverlap {s s' : VmmReservationSpace} (h : Keeps s s') (hp : NoOverlap s) :
    NoOverlap s' := by
  intro i j hij hi hj
  rw [h.slots]
  exact hp i j hij ((h.used_iff i).mp hi) ((h.used_iff j).mp hj)

theorem Released.noOverlap {s s' : VmmReservationSpace} {k : ℕ} (h : Released s s' k)
    (hp : NoOverlap s) : NoOverlap s' := by
  intro i j hij hi hj
  obtain ⟨hi', hui⟩ := h.of_used hi
  obtain ⟨hj', huj⟩ := h.of_used hj
  rw [hi', hj']
  exact hp i j hij hui huj

/-- Filling a slot keeps the ranges disjoint exactly when the new one is apart from all. -/
theorem Reserved.noOverlap_iff {s s' : VmmReservationSpace} {k : ℕ} {a n : QWORD}
    (h : Reserved s s' k a n) (hp : NoOverlap s) :
    NoOverlap s' ↔ ∀ i, s.Used i → Apart a n (s.slots i).startVa (s.slots i).size := by
  have hk : s'.Used k := (h.used k).mpr (Or.inl rfl)
  constructor
  · intro hp' i hi
    have hne : k ≠ i := by
      intro heq
      subst heq
      exact h.fresh hi
    have hap := hp' k i hne hk ((h.used i).mpr (Or.inr hi))
    rwa [h.startVa, h.size, h.same i hi] at hap
  · intro hap i j hij hi hj
    rcases (h.used i).mp hi with rfl | hi'
    · rcases (h.used j).mp hj with rfl | hj'
      · exact absurd rfl hij
      · rw [h.startVa, h.size, h.same j hj']
        exact hap j hj'
    · rw [h.same i hi']
      rcases (h.used j).mp hj with rfl | hj'
      · rw [h.startVa, h.size]
        exact (hap i hi').symm
      · rw [h.same j hj']
        exact hp i j hij hi' hj'

theorem noOverlap_next {s s' : VmmReservationSpace} {m : ℕ} {c : Call} (hm : Marker s m)
    (hp : NoOverlap s) (h : next s c = some s') : NoOverlap s' ↔ InsideOrApart s c := by
  obtain ⟨hk, hin⟩ | ⟨a, n, hres, hnone, i, m', hr, _, _⟩ | ⟨i, hr, hres⟩ := next_cases hm h
  · have hq : InsideOrApart s c := fun a n han => Or.inl (hin a n han)
    simp [hk.noOverlap hp, hq]
  · rw [hr.noOverlap_iff hp]
    constructor
    · intro hap b k hbk
      obtain ⟨rfl, rfl⟩ : a = b ∧ n = k := by simpa [hres] using hbk
      exact Or.inr hap
    · intro hq
      rcases hq a n hres with ⟨j, hj⟩ | hap
      · exact absurd hj (hnone j)
      · exact hap
  · have hq : InsideOrApart s c := by
      intro a n han
      rw [hres] at han
      cases han
    simp [hr.noOverlap hp, hq]

/-- The reservations in use stay disjoint along a run exactly when every range that a call of
the run asks to reserve lies inside an existing reservation or apart from all of them. -/
theorem always_noOverlap_iff {metadata base size : QWORD} {s : VmmReservationSpace}
    {tr : List (VmmReservationSpace × Call)} (hr : Reaches metadata base size tr s) :
    Always NoOverlap tr s ↔ ∀ v ∈ tr, InsideOrApart v.1 v.2 := by
  obtain ⟨s₀, hi, hrun⟩ := hr
  refine hrun.always_iff (I := fun s => ∃ m, Marker s m) ⟨0, hi.marker⟩ ?_ ?_ ?_
  · intro i j _ hu
    exact absurd (hi.marker.lt_of_used hu) (Nat.not_lt_zero i)
  · intro s c s' hall hs
    obtain ⟨m, hm⟩ := hall
    obtain ⟨m', hm', _⟩ := next_marker hm hs
    exact ⟨m', hm'⟩
  · intro s c s' hall hp hs
    obtain ⟨m, hm⟩ := hall
    exact noOverlap_next hm hp hs

/-- Two ranges that the space chooses and one at a given address. -/
def threeReservations : List (VmmReservationSpace × Call) × VmmReservationSpace :=
  (runProcess [reserveTwo 0, reserveTwo 0, reserveTwo 0x140008000]).get (by decide)

theorem threeReservations_gaps : ∀ v ∈ threeReservations.1, ∃ m < 3, (v.1.slots m).state = .last ∧
    ∀ i < m, (v.1.reservation v.2).all fun r =>
      r.2 ≤ (v.1.slots i).startVa - r.1 ∧ (v.1.slots i).size ≤ r.1 - (v.1.slots i).startVa := by
  decide

theorem noOverlap_of_threeReservations :
    Reaches 0xFFFF850000000000 0x140000000 0x140000000 threeReservations.1 threeReservations.2 ∧
      Always NoOverlap threeReservations.1 threeReservations.2 := by
  have hr : Reaches 0xFFFF850000000000 0x140000000 0x140000000 threeReservations.1
      threeReservations.2 := reaches_of_runProcess _
  refine ⟨hr, (always_noOverlap_iff hr).mpr fun v hv a n hres => Or.inr fun i hi => ?_⟩
  obtain ⟨s₀, h₀, hrun⟩ := hr
  obtain ⟨_, hm⟩ := (hrun.always (P := fun s => ∃ m, Marker s m) ⟨0, h₀.marker⟩
    fun _ _ _ ⟨_, hm⟩ hs => (next_marker hm hs).imp fun _ h => h.1).1 v hv
  obtain ⟨m, -, hlast, hgaps⟩ := threeReservations_gaps v hv
  have hgap := (Option.all_eq_true _ _).mp (hgaps i (hm.used_lt hlast hi)) (a, n) hres
  obtain ⟨hlow, hhigh⟩ := of_decide_eq_true hgap
  exact Apart.of_gaps hlow hhigh

/-- Two pages reserved at the start of the space, then two pages one page further on. -/
def overlapping : List (VmmReservationSpace × Call) × VmmReservationSpace :=
  (runProcess [reserveTwo 0x140000000, reserveTwo 0x140001000]).get (by decide)

/-- The second page of the first reservation is the first page of the second. -/
theorem reservations_overlap :
    Reaches 0xFFFF850000000000 0x140000000 0x140000000 overlapping.1 overlapping.2 ∧
      ¬ NoOverlap overlapping.2 := by
  refine ⟨reaches_of_runProcess _, fun h => ?_⟩
  have hapart := h 0 1 (by decide) (by decide) (by decide)
  exact hapart 0x140001000 ⟨by decide, by decide⟩

end HAL9000.Vmm
