import HAL9000.Fat32.Requests

/-! What the functions that follow cluster chains can return. A read of a free entry of the table marks
it as the end of a chain, which no later walk can tell. -/
namespace HAL9000.Fat32

open Program

variable {α β : Type} (d : FatData)

/-- What `ClusterOfSector` returns. -/
def FatData.clusterAt (sector : ℕ) : Except FatStatus ℕ :=
  let cluster := (sector + 2 ^ 64 - d.firstDataSector) % 2 ^ 64 / d.sectorsPerCluster + 2
  if cluster > d.countOfClusters + 1 ∨ cluster < 2 then .error .deviceClusterInvalid
  else .ok cluster

/-- The sector that goes with the next cluster of a chain. -/
def FatData.sectorAfter (next : ℕ) : Except FatStatus ℕ :=
  if fat32Eoc next then .ok 0
  else if next > d.countOfClusters + 1 ∨ next < 2 then .error .deviceClusterInvalid
  else .ok (d.sectorOf next)

namespace Volume

/-- What `NextClusterInChain` returns for a cluster. -/
def link (v : Volume) (c : ℕ) : ℕ :=
  if clusterOf (v.fat c) = 0 ∨ clusterOf (v.fat c) = fat32BadCluster then fat32EocMark.toNat
  else clusterOf (v.fat c)

theorem link_congr {v v' : Volume} {c : ℕ} (h : v'.fat c = v.fat c) : v'.link c = v.link c := by
  unfold link
  rw [h]

theorem link_of_free {v : Volume} {c : ℕ} (h : clusterOf (v.fat c) = 0) :
    v.link c = fat32EocMark.toNat := by
  unfold link
  rw [if_pos (Or.inl h)]

theorem link_of_mark {v : Volume} {c : ℕ} (h : clusterOf (v.fat c) = fat32EocMark.toNat) :
    v.link c = fat32EocMark.toNat := by
  unfold link
  split_ifs
  · rfl
  · exact h

theorem clusterOf_setFat_mark {v : Volume} (c : ℕ) :
    clusterOf ((v.setFat c fat32EocMark).fat c) = fat32EocMark.toNat := by
  have hself : (v.setFat c fat32EocMark).fat c = setCluster (v.fat c) fat32EocMark :=
    Function.update_self ..
  rw [hself]
  exact clusterOf_setCluster (by decide)

/-- What `NextSectorInClusterChain` returns if it does not extend the chain. -/
def nextSector (v : Volume) (sector : ℕ) : Except FatStatus ℕ :=
  (d.clusterAt sector).bind fun cluster => d.sectorAfter (v.link cluster)

/-- The sector of the next cluster of a chain, unless the chain ends. -/
def following (v : Volume) (sector : ℕ) : Option ℕ :=
  (v.nextSector d sector).toOption.bind fun next => if next = 0 then none else some next

theorem following_eq_some {d : FatData} {v : Volume} {sector next : ℕ} :
    v.following d sector = some next ↔ v.nextSector d sector = .ok next ∧ next ≠ 0 := by
  unfold following
  generalize v.nextSector d sector = r
  cases r with
  | error e => simp [Except.toOption]
  | ok n =>
    simp only [Except.toOption, Option.bind_some, Option.ite_none_left_eq_some, Option.some.injEq,
      Except.ok.injEq]
    constructor
    · intro h
      exact ⟨h.2, h.2 ▸ h.1⟩
    · intro h
      exact ⟨h.1 ▸ h.2, h.1⟩

end Volume

/-- The volumes differ at most in the FSInfo sector and in free entries of the table that have become
end marks. -/
structure SameWalks (v v' : Volume) : Prop where
  data : v'.data = v.data
  link : v'.link = v.link

namespace SameWalks

variable {v v' v'' : Volume}

theorem refl (v : Volume) : SameWalks v v := ⟨rfl, rfl⟩

theorem trans (h : SameWalks v v') (h' : SameWalks v' v'') : SameWalks v v'' :=
  ⟨h'.data.trans h.data, h'.link.trans h.link⟩

theorem setFat {c : ℕ} (h : clusterOf (v.fat c) = 0) : SameWalks v (v.setFat c fat32EocMark) := by
  refine ⟨rfl, funext fun x => ?_⟩
  by_cases hx : x = c
  · rw [hx, Volume.link_of_mark (Volume.clusterOf_setFat_mark c), Volume.link_of_free h]
  · exact Volume.link_congr (Function.update_of_ne hx ..)

theorem nextSector (h : SameWalks v v') : v'.nextSector d = v.nextSector d := by
  funext sector
  unfold Volume.nextSector
  rw [h.link]

end SameWalks

/-- The call has failed, and not because it has found an entry of another type. -/
def Failed (r : Except FatStatus α) : Prop := ∃ e, e ≠ .fileTypeInvalid ∧ r = .error e

/-- The results are the same, but for the reason of a failure. -/
def Alike (r r' : Except FatStatus α) : Prop := r = r' ∨ Failed r ∧ Failed r'

/-- A program returns if and only if `P` holds, `A` holds of what it can return, and what it leaves
walks alike. -/
structure Behaves (x : ℕ → FatM α) (v : Volume) (P : Prop) (A : Except FatStatus α → Prop) : Prop
    where
  bounded : Bounded x
  returns : ∀ u, SameWalks v u → (Returns x u ↔ P)
  sound : ∀ n u r u', SameWalks v u → Can (x n) u r u' → A r ∧ SameWalks v u'
  complete : ∀ u r, SameWalks v u → A r → ∃ n r' u', Alike r r' ∧ Can (x n) u r' u'

theorem Failed.error {e : FatStatus} (h : e ≠ .fileTypeInvalid) :
    Failed (.error e : Except FatStatus α) := ⟨e, h, rfl⟩

theorem not_failed_ok {a : α} : ¬Failed (.ok a : Except FatStatus α) := by
  intro h
  obtain ⟨e, -, he⟩ := h
  cases he

namespace Alike

theorem refl (r : Except FatStatus α) : Alike r r := Or.inl rfl

theorem trans {r r₁ r' : Except FatStatus α} (h : Alike r r₁) (h' : Alike r₁ r') : Alike r r' := by
  rcases h with rfl | ⟨hr, hr₁⟩
  · exact h'
  · rcases h' with rfl | ⟨-, hr'⟩
    · exact Or.inr ⟨hr, hr₁⟩
    · exact Or.inr ⟨hr, hr'⟩

theorem eq_of_ok {a : α} {r : Except FatStatus α} (h : Alike (.ok a) r) : .ok a = r := by
  rcases h with h | ⟨⟨e, -, he⟩, -⟩
  · exact h
  · cases he

theorem of_error {e : FatStatus} {r : Except FatStatus α} (h : Alike (.error e) r) :
    ∃ e', r = .error e' ∧ Alike (.error e : Except FatStatus β) (.error e') := by
  rcases h with rfl | ⟨⟨e₁, he₁, h₁⟩, ⟨e', he', rfl⟩⟩
  · exact ⟨e, rfl, Or.inl rfl⟩
  · obtain rfl : e = e₁ := by simpa using h₁
    exact ⟨e', rfl, Or.inr ⟨⟨e, he₁, rfl⟩, ⟨e', he', rfl⟩⟩⟩

theorem failed {r r' : Except FatStatus α} (h : Alike r r') (hr : Failed r) : Failed r' := by
  rcases h with rfl | ⟨-, hr'⟩
  · exact hr
  · exact hr'

end Alike

namespace Behaves

variable {x y : ℕ → FatM α} {f : ℕ → α → FatM β} {v : Volume} {P P' : Prop} {p : α → Prop}
  {A A' : Except FatStatus α → Prop} {B : α → Except FatStatus β → Prop}

theorem congr (h : Behaves x v P A) (hp : P ↔ P') (hs : ∀ r, A r → A' r)
    (hc : ∀ r, A' r → ∃ r', Alike r r' ∧ A r') : Behaves x v P' A' where
  bounded := h.bounded
  returns u hu := (h.returns u hu).trans hp
  sound n u r u' hu hcan := (h.sound n u r u' hu hcan).imp_left (hs r)
  complete u r hu hr := by
    obtain ⟨r₁, halike, hr₁⟩ := hc r hr
    obtain ⟨n, r', u', halike', hcan⟩ := h.complete u r₁ hu hr₁
    exact ⟨n, r', u', halike.trans halike', hcan⟩

/-- A program that does one thing on every volume. -/
theorem of_eq {x : FatM α} {r : Except FatStatus α} (hx : Local x)
    (h : ∀ w, x w = .ok (r, w)) : Behaves (fun _ => x) v True (· = r) where
  bounded := .const hx
  returns _ _ := iff_true_intro (returns_of_total fun _ w => ⟨r, w, h w⟩)
  sound _ u r' u' hu hcan := by
    obtain ⟨o, t, t', -, hrun⟩ := hcan
    rw [h] at hrun
    obtain ⟨rfl, rfl, -⟩ : r = r' ∧ u = u' ∧ t = t' := by simpa using hrun
    exact ⟨rfl, hu⟩
  complete u r' _ hr :=
    ⟨0, r', u, Or.inl rfl, fun _ _ _ => true, 0, 0, fun _ _ => rfl, by rw [hr]; exact h _⟩

theorem ret (a : α) : Behaves (fun _ => (pure a : FatM α)) v True (· = .ok a) :=
  of_eq (.ret a) fun _ => rfl

theorem fail (e : FatStatus) : Behaves (fun _ => (Prog.fail e : FatM α)) v True (· = .error e) :=
  of_eq (.fail e) fun _ => rfl

theorem answer (r : Except FatStatus α) : Behaves (fun _ => answer r) v True (· = r) := by
  cases r with
  | ok a => exact ret a
  | error e => exact fail e

theorem fault (e : Fault) : Behaves (fun _ => (Prog.fault e : FatM α)) v False fun _ => False where
  bounded := .const (.fault e)
  returns u _ := iff_false_intro fun h => by
    obtain ⟨n, r, w, hrun⟩ := h (fun _ _ _ => true) 0 fun _ _ => rfl
    cases hrun
  sound _ _ _ _ _ hcan := by
    obtain ⟨o, t, t', -, hrun⟩ := hcan
    cases hrun
  complete _ _ _ hr := hr.elim

theorem request (site : Site) {resource : Resource} (h : resource ≠ .read) :
    Behaves (fun _ => request resource site) v True fun r => ∃ met, r = .ok met where
  bounded := .const (.request _ _)
  returns _ _ := iff_true_intro (returns_of_total fun _ w => ⟨_, _, rfl⟩)
  sound _ u r u' hu hcan := by
    obtain ⟨o, t, t', -, hrun⟩ := hcan
    obtain ⟨rfl, rfl, -⟩ : Except.ok (o resource site t) = r ∧ u = u' ∧ t + 1 = t' := by
      simpa [Fat32.request] using hrun
    exact ⟨⟨_, rfl⟩, hu⟩
  complete u r _ hr := by
    obtain ⟨met, rfl⟩ := hr
    refine ⟨0, _, u, Or.inl rfl, fun res _ _ => if res = .read then true else met, 0, 1,
      fun _ _ => rfl, ?_⟩
    simp [Fat32.request, h]

theorem ioDevice_read (site : Site) :
    Behaves (fun _ => ioDevice .read site) v True (· = .ok ()) where
  bounded := .const (.ioDevice _ _)
  returns _ _ := iff_true_intro (returns_of_total fun _ => total_ioDevice)
  sound _ u r u' hu hcan := by
    obtain ⟨o, t, t', ho, hrun⟩ := hcan
    rw [ioDevice_eq_of_met (ho site t)] at hrun
    obtain ⟨rfl, rfl, -⟩ : Except.ok () = r ∧ u = u' ∧ t + 1 = t' := by simpa using hrun
    exact ⟨rfl, hu⟩
  complete u r _ hr := by
    rw [hr]
    exact ⟨0, _, u, Or.inl rfl, fun _ _ _ => true, 0, 1, fun _ _ => rfl, ioDevice_eq_of_met rfl⟩

theorem bind (hx : Behaves x v P A) (hb : ∀ a, Bounded fun n => f n a)
    (hf : ∀ a, A (.ok a) → Behaves (fun n => f n a) v (p a) (B a)) :
    Behaves (fun n => x n >>= f n) v (P ∧ ∀ a, A (.ok a) → p a) fun r =>
      (∃ e, r = .error e ∧ A (.error e)) ∨ ∃ a, A (.ok a) ∧ B a r where
  bounded := hx.bounded.bind hb
  returns u hu := by
    rw [returns_bind_iff hx.bounded hb, hx.returns u hu]
    refine and_congr_right fun _ => ⟨fun h a ha => ?_, fun h n a u' hcan => ?_⟩
    · obtain ⟨n, r, u', hr, hcan⟩ := hx.complete u _ hu ha
      obtain rfl : Except.ok a = r := hr.eq_of_ok
      obtain ⟨-, hu'⟩ := hx.sound n u _ u' hu hcan
      exact ((hf a ha).returns u' hu').mp (h n a u' hcan)
    · obtain ⟨ha, hu'⟩ := hx.sound n u _ u' hu hcan
      exact ((hf a ha).returns u' hu').mpr (h a ha)
  sound n u r u' hu hcan := by
    rcases hcan.of_bind (hx.bounded.each n) with ⟨e, rfl, hfirst⟩ | ⟨a, u₁, hfirst, hrest⟩
    · obtain ⟨he, hu'⟩ := hx.sound n u _ u' hu hfirst
      exact ⟨Or.inl ⟨e, rfl, he⟩, hu'⟩
    · obtain ⟨ha, hu₁⟩ := hx.sound n u _ u₁ hu hfirst
      obtain ⟨hr, hu'⟩ := (hf a ha).sound n u₁ r u' hu₁ hrest
      exact ⟨Or.inr ⟨a, ha, hr⟩, hu'⟩
  complete u r hu hr := by
    rcases hr with ⟨e, rfl, he⟩ | ⟨a, ha, hr⟩
    · obtain ⟨n, r, u', hr, hcan⟩ := hx.complete u _ hu he
      obtain ⟨e', rfl, halike⟩ := hr.of_error (β := β)
      exact ⟨n, _, u', halike, hcan.bind_error⟩
    · obtain ⟨n, r', u₁, hr', hcan⟩ := hx.complete u _ hu ha
      obtain rfl : Except.ok a = r' := hr'.eq_of_ok
      obtain ⟨-, hu₁⟩ := hx.sound n u _ u₁ hu hcan
      obtain ⟨m, r', u', hr', hrest⟩ := (hf a ha).complete u₁ r hu₁ hr
      exact ⟨max n m, r', u', hr', .bind (hx.bounded.each _) ((hb a).each _)
        (hx.bounded.can_le (le_max_left ..) hcan) ((hb a).can_le (le_max_right ..) hrest)⟩

theorem bind_ok {a : α} {B : Except FatStatus β → Prop} (hx : Behaves x v True (· = .ok a))
    (hb : ∀ a, Bounded fun n => f n a) (hf : Behaves (fun n => f n a) v P B) :
    Behaves (fun n => x n >>= f n) v P B := by
  refine (hx.bind (p := fun _ => P) (B := fun _ => B) hb fun a' ha => ?_).congr
    ⟨fun h => h.2 a rfl, fun h => ⟨trivial, fun _ _ => h⟩⟩ (fun r hr => ?_)
    fun r hr => ⟨r, .refl r, Or.inr ⟨a, rfl, hr⟩⟩
  · obtain rfl : a' = a := by simpa using ha
    exact hf
  · rcases hr with ⟨e, -, he⟩ | ⟨-, -, hr⟩
    · cases he
    · exact hr

/-- A program that reads the volume may use all that its walks depend on. -/
theorem volume_bind {f : ℕ → Volume → FatM β} {B : Except FatStatus β → Prop}
    (hb : ∀ u, Bounded fun n => f n u) (hf : ∀ u, SameWalks v u → Behaves (fun n => f n u) v P B) :
    Behaves (fun n => volume >>= f n) v P B where
  bounded := .bind (.const .volume) hb
  returns u hu := (hf u hu).returns u hu
  sound n u r u' hu hcan := (hf u hu).sound n u r u' hu hcan
  complete u r hu hr := (hf u hu).complete u r hu hr

/-- What follows a call may look at how the call has failed. -/
theorem returns_attempt_bind {f : ℕ → Except FatStatus α → FatM β} {q : Except FatStatus α → Prop}
    {u : Volume} (hx : Behaves x v P A) (hb : ∀ r, Bounded fun n => f n r)
    (hf : ∀ r u', SameWalks v u' → (Returns (fun n => f n r) u' ↔ q r))
    (hq : ∀ r r', Alike r r' → q r' → q r) (hu : SameWalks v u) :
    Returns (fun n => (x n).attempt >>= f n) u ↔ P ∧ ∀ r, A r → q r := by
  have hfirst : Returns (fun n => (x n).attempt) u ↔ Returns x u := by
    refine forall_congr' fun o => forall_congr' fun t => forall_congr' fun _ =>
      exists_congr fun n => ?_
    constructor
    · intro h
      obtain ⟨r, w, hrun⟩ := h
      obtain ⟨a, -, ha⟩ := Prog.attempt_eq_ok.mp hrun
      exact ⟨a, w, ha⟩
    · intro h
      obtain ⟨a, w, hrun⟩ := h
      exact ⟨_, w, Prog.attempt_eq_ok.mpr ⟨a, rfl, hrun⟩⟩
  rw [returns_bind_iff hx.bounded.attempt hb, hfirst, hx.returns u hu]
  refine and_congr_right fun _ => ⟨fun h r hr => ?_, fun h n r u' hcan => ?_⟩
  · obtain ⟨n, r', u', halike, hcan⟩ := hx.complete u r hu hr
    obtain ⟨-, hu'⟩ := hx.sound n u r' u' hu hcan
    obtain ⟨o, t, t', ho, hrun⟩ := hcan
    have hattempt := h n r' u' ⟨o, t, t', ho, Prog.attempt_eq_ok.mpr ⟨r', rfl, hrun⟩⟩
    exact hq r r' halike ((hf r' u' hu').mp hattempt)
  · obtain ⟨o, t, t', ho, hrun⟩ := hcan
    obtain ⟨a, hra, hfirst⟩ := Prog.attempt_eq_ok.mp hrun
    obtain rfl : r = a := by simpa using hra
    obtain ⟨hr, hu'⟩ := hx.sound n u r u' hu ⟨o, t, t', ho, hfirst⟩
    exact (hf r u' hu').mpr (h r hr)

theorem ite {c : Prop} [Decidable c] {Q : Prop} (hx : c → Behaves x v P A)
    (hy : ¬c → Behaves y v Q A') :
    Behaves (fun n => if c then x n else y n) v (if c then P else Q)
      fun r => if c then A r else A' r := by
  split_ifs with h
  · exact hx h
  · exact hy h

end Behaves

section Links

variable {d} {v : Volume}

theorem clusterAt_error {sector : ℕ} {e : FatStatus} (h : d.clusterAt sector = .error e) :
    e ≠ .fileTypeInvalid := by
  unfold FatData.clusterAt at h
  dsimp only at h
  split_ifs at h
  cases h
  decide

theorem nextSector_error {sector : ℕ} {e : FatStatus} (h : v.nextSector d sector = .error e) :
    Failed (.error e : Except FatStatus α) := by
  unfold Volume.nextSector at h
  cases hcluster : d.clusterAt sector with
  | error e' =>
    rw [hcluster] at h
    obtain rfl : e' = e := by simpa [Except.bind] using h
    exact .error (clusterAt_error hcluster)
  | ok cluster =>
    rw [hcluster] at h
    change d.sectorAfter (v.link cluster) = .error e at h
    unfold FatData.sectorAfter at h
    split_ifs at h
    cases h
    exact .error (by decide)

theorem clusterOfSector_eq_answer (sector : ℕ) : clusterOfSector d sector = answer (d.clusterAt sector) := by
  unfold clusterOfSector FatData.clusterAt
  dsimp only
  split_ifs <;> rfl

theorem local_nextClusterInChain (c : ℕ) : Local (nextClusterInChain d c) :=
  .bind (.exAllocatePool _) fun _ => .bind (.ioDevice _ _) fun _ => .bind .volume fun _ =>
    .ite (.bind (.ioDevice _ _) fun _ => .bind (.setVolume _) fun _ => .ret _)
      (.ite (.ret _) (.ret _))

theorem total_nextClusterInChain (c : ℕ) : Total (nextClusterInChain d c) :=
  .bind total_exAllocatePool fun _ => .bind total_ioDevice fun _ =>
    .bind total_volume fun _ =>
      .ite (.bind total_ioDevice fun _ => .bind (.modify _) fun _ => .ret _) (.ite (.ret _) (.ret _))

/-- What is left of `NextClusterInChain` after its read. -/
theorem nextClusterInChain_eq {u : Volume} {o : Outcome} {t : ℕ} (c : ℕ) (ho : ReadsMet o) :
    nextClusterInChain d c ⟨u, t, o⟩ =
      if o .memory .nextClusterInChain t = false then
        .ok (.error .heapNoMoreMemory, ⟨u, t + 1, o⟩)
      else if clusterOf (u.fat c) ≠ 0 then .ok (.ok (u.link c), ⟨u, t + 2, o⟩)
      else if o .write .nextClusterInChain (t + 2) = false then
        .ok (.error .deviceError, ⟨u, t + 3, o⟩)
      else .ok (.ok (u.link c), ⟨u.setFat c fat32EocMark, t + 3, o⟩) := by
  have hread : o .read .nextClusterInChain (t + 1) = true := ho _ _
  unfold nextClusterInChain
  rw [fatEntry_eq]
  cases hmem : o .memory .nextClusterInChain t with
  | false => simp [exAllocatePool, request, Bind.bind, Prog.bind, Prog.fail, hmem]
  | true =>
    by_cases hzero : clusterOf (u.fat c) = 0
    · have hlink := Volume.link_of_free hzero
      cases hwrite : o .write .nextClusterInChain (t + 2) with
      | false => simp [exAllocatePool, ioDevice, request, volume, Prog.get, Bind.bind, Prog.bind,
          Pure.pure, Prog.fail, hmem, hread, hwrite, hzero]
      | true => simp [exAllocatePool, ioDevice, request, volume, setVolume, Prog.get, Prog.modify,
          Bind.bind, Prog.bind, Pure.pure, hmem, hread, hwrite, hzero, hlink]
    · by_cases hbad : clusterOf (u.fat c) = fat32BadCluster
      · have hlink : u.link c = fat32EocMark.toNat := by
          unfold Volume.link
          rw [if_pos (Or.inr hbad)]
        have hne : fat32BadCluster ≠ 0 := by decide
        simp [exAllocatePool, ioDevice, request, volume, Prog.get, Bind.bind, Prog.bind, Pure.pure,
          hmem, hread, hbad, hlink, hne]
      · have hlink : u.link c = clusterOf (u.fat c) := by
          unfold Volume.link
          rw [if_neg (by tauto)]
        simp [exAllocatePool, ioDevice, request, volume, Prog.get, Bind.bind, Prog.bind, Pure.pure,
          hmem, hread, hzero, hbad, hlink]

theorem nextClusterInChain_behaves (c : ℕ) :
    Behaves (fun _ => nextClusterInChain d c) v True fun r => r = .ok (v.link c) ∨ Failed r where
  bounded := .const (local_nextClusterInChain c)
  returns _ _ := iff_true_intro (returns_of_total fun _ => total_nextClusterInChain c)
  sound _ u r u' hu hcan := by
    obtain ⟨o, t, t', ho, hrun⟩ := hcan
    rw [nextClusterInChain_eq c ho] at hrun
    split_ifs at hrun with hmem hused hwrite
    · obtain ⟨rfl, rfl, -⟩ : Except.error .heapNoMoreMemory = r ∧ u = u' ∧ t + 1 = t' := by
        simpa using hrun
      exact ⟨Or.inr ⟨_, by decide, rfl⟩, hu⟩
    · obtain ⟨rfl, rfl, -⟩ : Except.ok (u.link c) = r ∧ u = u' ∧ t + 2 = t' := by simpa using hrun
      exact ⟨Or.inl (by rw [hu.link]), hu⟩
    · obtain ⟨rfl, rfl, -⟩ : Except.error .deviceError = r ∧ u = u' ∧ t + 3 = t' := by
        simpa using hrun
      exact ⟨Or.inr ⟨_, by decide, rfl⟩, hu⟩
    · obtain ⟨rfl, rfl, -⟩ : Except.ok (u.link c) = r ∧ u.setFat c fat32EocMark = u' ∧
          t + 3 = t' := by simpa using hrun
      exact ⟨Or.inl (by rw [hu.link]), hu.trans (.setFat (not_not.mp hused))⟩
  complete u r hu hr := by
    rcases hr with rfl | hr
    · rw [← hu.link]
      by_cases hzero : clusterOf (u.fat c) = 0
      · refine ⟨0, _, u.setFat c fat32EocMark, Or.inl rfl, fun _ _ _ => true, 0, 3, fun _ _ => rfl, ?_⟩
        rw [nextClusterInChain_eq c fun _ _ => rfl]
        simp [hzero]
      · refine ⟨0, _, u, Or.inl rfl, fun _ _ _ => true, 0, 2, fun _ _ => rfl, ?_⟩
        rw [nextClusterInChain_eq c fun _ _ => rfl]
        simp [hzero]
    · refine ⟨0, .error .heapNoMoreMemory, u, Or.inr ⟨hr, _, by decide, rfl⟩,
        fun resource _ _ => resource = .read, 0, 1, fun _ _ => rfl, ?_⟩
      rw [nextClusterInChain_eq c fun _ _ => rfl]
      simp

theorem nextSectorInClusterChain_eq (sector : ℕ) :
    nextSectorInClusterChain d sector false = (answer (d.clusterAt sector) >>= fun cluster =>
      nextClusterInChain d cluster >>= fun next => answer (d.sectorAfter next)) := by
  unfold nextSectorInClusterChain
  rw [clusterOfSector_eq_answer]
  refine congrArg _ (funext fun cluster => congrArg _ (funext fun next => ?_))
  unfold firstSectorOfCluster FatData.sectorAfter
  by_cases heoc : fat32Eoc next = true
  · rw [if_pos heoc, if_pos heoc]
    rfl
  · rw [if_neg heoc, if_neg heoc]
    split_ifs <;> rfl

theorem local_nextSectorInClusterChain (sector : ℕ) :
    Local (nextSectorInClusterChain d sector false) := by
  rw [nextSectorInClusterChain_eq]
  exact .bind (.answer _) fun _ => .bind (local_nextClusterInChain _) fun _ => .answer _

theorem total_nextSectorInClusterChain (sector : ℕ) :
    Total (nextSectorInClusterChain d sector false) := by
  rw [nextSectorInClusterChain_eq]
  exact .bind (total_answer _) fun _ => .bind (total_nextClusterInChain _) fun _ => total_answer _

theorem nextSectorInClusterChain_behaves (sector : ℕ) :
    Behaves (fun _ => nextSectorInClusterChain d sector false) v True fun r =>
      r = v.nextSector d sector ∨ Failed r := by
  rw [nextSectorInClusterChain_eq]
  unfold Volume.nextSector
  cases hcluster : d.clusterAt sector with
  | error e =>
    have he : Failed (.error e : Except FatStatus ℕ) := .error (clusterAt_error hcluster)
    refine (Behaves.fail e).congr Iff.rfl (fun r => Or.inl) fun r hr => ⟨_, ?_, rfl⟩
    exact hr.imp_right fun hr => ⟨hr, he⟩
  | ok cluster =>
    have h : Behaves (fun _ => nextClusterInChain d cluster >>= fun next =>
        answer (d.sectorAfter next)) v _ _ :=
      .bind (nextClusterInChain_behaves cluster) (fun _ => .const (.answer _)) fun next _ => .answer _
    refine h.congr (by simp) (fun r hr => ?_) fun r hr => ⟨r, .refl r, ?_⟩
    · rcases hr with ⟨e, rfl, he | he⟩ | ⟨next, hnext | hnext, rfl⟩
      · cases he
      · exact Or.inr he
      · obtain rfl : next = v.link cluster := by simpa using hnext
        exact Or.inl rfl
      · exact absurd hnext not_failed_ok
    · rcases hr with rfl | hr
      · exact Or.inr ⟨v.link cluster, Or.inl rfl, rfl⟩
      · obtain ⟨e, he, rfl⟩ := hr
        exact Or.inl ⟨e, rfl, Or.inr (.error he)⟩

/-- If every request is met, the next cluster is found. -/
theorem nextClusterInChain_met {u : Volume} (t c : ℕ) (hu : SameWalks v u) :
    ∃ u' t', SameWalks v u' ∧ nextClusterInChain d c ⟨u, t, fun _ _ _ => true⟩ =
      .ok (.ok (v.link c), ⟨u', t', fun _ _ _ => true⟩) := by
  have hrun := nextClusterInChain_eq (d := d) (u := u) (t := t) (o := fun _ _ _ => true) c
    fun _ _ => rfl
  by_cases hzero : clusterOf (u.fat c) = 0
  · refine ⟨_, t + 3, hu.trans (.setFat hzero), ?_⟩
    rw [hrun, ← hu.link]
    simp [hzero]
  · refine ⟨u, t + 2, hu, ?_⟩
    rw [hrun, ← hu.link]
    simp [hzero]

/-- If every request is met, the next sector is found. -/
theorem nextSectorInClusterChain_met {u : Volume} {t sector next : ℕ} (hu : SameWalks v u)
    (hnext : v.nextSector d sector = .ok next) :
    ∃ u' t', SameWalks v u' ∧ nextSectorInClusterChain d sector false ⟨u, t, fun _ _ _ => true⟩ =
      .ok (.ok next, ⟨u', t', fun _ _ _ => true⟩) := by
  rw [nextSectorInClusterChain_eq]
  unfold Volume.nextSector at hnext
  cases hcluster : d.clusterAt sector with
  | error e =>
    rw [hcluster] at hnext
    cases hnext
  | ok cluster =>
    rw [hcluster] at hnext
    change d.sectorAfter (v.link cluster) = .ok next at hnext
    obtain ⟨u', t', hu', hrun⟩ := nextClusterInChain_met (d := d) t cluster hu
    refine ⟨u', t', hu', ?_⟩
    rw [Prog.bind_of_ok rfl, Prog.bind_of_ok hrun, hnext]
    rfl

end Links

end HAL9000.Fat32
