import HAL9000.Fat32.Walks
import HAL9000.Lib.Walk

/-! The walk over the entries of a directory as a walk over pairs of a sector and what has been collected
so far. It returns exactly if it ends and no entry on its way fails an assertion. -/
namespace HAL9000.Fat32

open Program Walk

variable (d : FatData) {σ ρ : Type} (k : DirectoryWalk σ ρ)

/-- What is done after a cluster, with what follows on the next one. -/
def afterScan (rest : ℕ × σ → FatM ρ) (sector : ℕ) : Scan σ ρ → FatM ρ
  | .stop r => answer r
  | .endOfDirectory s => answer (k.finish s)
  | .endOfCluster s => do
    if ¬(← request .pastBuffer k.site) then answer (k.finish s)
    else
      let nextSector ← nextSectorInClusterChain d sector false
      if nextSector = 0 then answer (k.finish s)
      else rest (nextSector, s)

def scanRound (rest : ℕ × σ → FatM ρ) (a : ℕ × σ) : FatM ρ := do
  ioDevice .read k.site
  let v ← volume
  let scanned ← Prog.lift (scanCluster d k v a.1 d.entriesPerCluster 0 a.2)
  afterScan d k rest a.1 scanned

/-- A round of `walkDirectory`. -/
def walkRound (rest : ℕ × σ → FatM ρ) (a : ℕ × σ) : FatM ρ := do
  if ¬(← request .memory k.site) then answer k.outOfMemory
  else scanRound d k rest a

theorem walkDirectory_succ (n : ℕ) (a : ℕ × σ) :
    walkDirectory d k (n + 1) a.1 a.2 =
      walkRound d k (fun b => walkDirectory d k n b.1 b.2) a := rfl

namespace DirectoryWalk

def scan (v : Volume) (a : ℕ × σ) : Except Fault (Scan σ ρ) :=
  scanCluster d k v a.1 d.entriesPerCluster 0 a.2

/-- An entry of the cluster fails an assertion. -/
def Faults (v : Volume) (a : ℕ × σ) : Prop := ∃ e, k.scan d v a = .error e

/-- Where the walk goes on after a cluster of which no entry ends it. -/
def next (v : Volume) (a : ℕ × σ) : Option (ℕ × σ) :=
  match k.scan d v a with
  | .ok (.endOfCluster s) => (v.following d a.1).map fun sector => (sector, s)
  | _ => none

def LeavesAfterScan (v : Volume) (a : ℕ × σ) (r : Except FatStatus ρ) : Prop :=
  match k.scan d v a with
  | .error _ => False
  | .ok (.stop r') => r = r'
  | .ok (.endOfDirectory s) => r = k.finish s
  | .ok (.endOfCluster s) => r = k.finish s ∨ Failed r

/-- What the walk can return from a cluster. -/
def CanLeave (v : Volume) (a : ℕ × σ) (r : Except FatStatus ρ) : Prop :=
  r = k.outOfMemory ∨ k.LeavesAfterScan d v a r

end DirectoryWalk

variable {d k} {v : Volume} {a : ℕ × σ} {P : ℕ × σ → Prop} {A : ℕ × σ → Except FatStatus ρ → Prop}
  {g : ℕ → ℕ × σ → FatM ρ}

theorem visitEntry_short {setName : σ → NameBuffer → σ} {getName : σ → NameBuffer}
    {short : σ → DirEntry → Except Fault (Visit σ ρ)} {s : σ} {e : DirEntry}
    (hused : ¬(e.name 0 = freeEntry ∨ e.name 0 = freeJapEntry))
    (hshort : ¬e.attr &&& attrLongNameMask = attrLongName) :
    visitEntry setName getName short s e = short s e := by
  unfold visitEntry
  rw [if_neg hused, if_neg hshort]

theorem searchShort_other {name : Name} {searchType : BYTE} {wantsInformation : Bool} {sector : ℕ}
    {longName : NameBuffer} {e : DirEntry} (h : ¬(equalsIgnoreCase longName.name name = true ∨
      equalsIgnoreCase (convertFatNameToName e).1 name = true)) :
    searchShort d name searchType wantsInformation sector longName e = .ok (.next longName.reset) :=
  if_neg h

theorem scanCluster_of_next {sector n index : ℕ} {s s' : σ}
    (h : k.visit sector s (v.entryAt d sector index) = .ok (.next s')) :
    scanCluster d k v sector (n + 1) index s =
      if n ≠ 0 ∧ (v.entryAt d sector (index + 1)).name 0 = freeAll then .ok (.endOfDirectory s')
      else scanCluster d k v sector n (index + 1) s' := by
  rw [scanCluster, h]
  rfl

theorem scanCluster_congr {u : Volume} (h : u.data = v.data) (sector : ℕ) :
    ∀ n index s, scanCluster d k u sector n index s = scanCluster d k v sector n index s := by
  have hentry : ∀ index, u.entryAt d sector index = v.entryAt d sector index := by
    intro index
    unfold Volume.entryAt
    rw [h]
  intro n
  induction n with
  | zero => exact fun _ _ => rfl
  | succ n ih =>
    intro index s
    unfold scanCluster
    simp only [hentry, ih]

theorem afterScan_bounded (hg : ∀ b, Bounded fun n => g n b) (sector : ℕ) (scanned : Scan σ ρ) :
    Bounded fun n => afterScan d k (g n) sector scanned := by
  cases scanned with
  | stop r => exact .const (.answer r)
  | endOfDirectory s => exact .const (.answer _)
  | endOfCluster s =>
    exact .bind (.const (.request _ _)) fun _ => .ite (.const (.answer _))
      (.bind (.const (local_nextSectorInClusterChain _)) fun _ => .ite (.const (.answer _)) (hg _))

theorem scanRound_bounded (hg : ∀ b, Bounded fun n => g n b) (a : ℕ × σ) :
    Bounded fun n => scanRound d k (g n) a :=
  .bind (.const (.ioDevice _ _)) fun _ => .bind (.const .volume) fun _ =>
    .bind (.const (.lift _)) fun _ => afterScan_bounded hg _ _

theorem walkRound_bounded (hg : ∀ b, Bounded fun n => g n b) (a : ℕ × σ) :
    Bounded fun n => walkRound d k (g n) a :=
  .bind (.const (.request _ _)) fun _ => .ite (.const (.answer _)) (scanRound_bounded hg a)

/-- After a cluster the walk may end, fail, or go on. -/
theorem endOfCluster_behaves {f : ℕ → ℕ → FatM ρ} {p : ℕ → Prop}
    {B : ℕ → Except FatStatus ρ → Prop}
    (hf : ∀ next, Behaves (fun n => f n next) v (p next) (B next)) (site : Site) (sector : ℕ)
    (r : Except FatStatus ρ) :
    Behaves (fun n => request .pastBuffer site >>= fun met => if ¬met then answer r
        else nextSectorInClusterChain d sector false >>= fun next =>
          if next = 0 then answer r else f n next) v
      (∀ next, v.following d sector = some next → p next) fun r' =>
        (r' = r ∨ Failed r') ∨ ∃ next, v.following d sector = some next ∧ B next r' := by
  have hchain := Behaves.bind (f := fun n next => if next = 0 then answer r else f n next)
    (nextSectorInClusterChain_behaves (d := d) (v := v) sector)
    (fun next => .ite (.const (.answer r)) (hf next).bounded)
    fun next _ => .ite (fun _ => .answer r) fun _ => hf next
  have h := Behaves.bind (f := fun n met => if ¬met = true then answer r
      else nextSectorInClusterChain d sector false >>= fun next =>
        if next = 0 then answer r else f n next)
    (.request (v := v) site (by decide : Resource.pastBuffer ≠ .read))
    (fun met => .ite (.const (.answer r)) hchain.bounded)
    fun met _ => .ite (fun _ => .answer r) fun _ => hchain
  refine h.congr ⟨fun hp next hnext => ?_, fun hp => ⟨trivial, fun met _ => ?_⟩⟩ (fun r' hr => ?_)
    fun r' hr => ?_
  · obtain ⟨hsector, hne⟩ := Volume.following_eq_some.mp hnext
    have hrest := hp.2 true ⟨true, rfl⟩
    simp only [not_true_eq_false, if_false] at hrest
    simpa [hne] using hrest.2 next (Or.inl hsector.symm)
  · cases met with
    | false => simp
    | true =>
      simp only [not_true_eq_false, if_false]
      refine ⟨trivial, fun next hnext => ?_⟩
      split_ifs with hzero
      exact hp next (Volume.following_eq_some.mpr
        ⟨(hnext.resolve_right not_failed_ok).symm, hzero⟩)
  · rcases hr with ⟨e, -, met, he⟩ | ⟨met, -, hr⟩
    · cases he
    · cases met with
      | false => exact Or.inl (Or.inl (by simpa using hr))
      | true =>
        simp only [not_true_eq_false, if_false] at hr
        rcases hr with ⟨e, rfl, he | he⟩ | ⟨next, hnext, hr⟩
        · exact Or.inl (Or.inr (nextSector_error he.symm))
        · obtain ⟨e', he', h⟩ := he
          obtain rfl : e = e' := by simpa using h
          exact Or.inl (Or.inr (.error he'))
        · split_ifs at hr with hzero
          · exact Or.inl (Or.inl hr)
          · exact Or.inr ⟨next, Volume.following_eq_some.mpr
              ⟨(hnext.resolve_right not_failed_ok).symm, hzero⟩, hr⟩
  · refine ⟨r', .refl r', ?_⟩
    rcases hr with (rfl | hr) | ⟨next, hnext, hr⟩
    · exact Or.inr ⟨false, ⟨false, rfl⟩, by simp⟩
    · obtain ⟨e, he, rfl⟩ := hr
      exact Or.inr ⟨true, ⟨true, rfl⟩, by simpa using Or.inl (Or.inr (.error he))⟩
    · obtain ⟨hsector, hne⟩ := Volume.following_eq_some.mp hnext
      refine Or.inr ⟨true, ⟨true, rfl⟩, ?_⟩
      simp only [not_true_eq_false, if_false]
      exact Or.inr ⟨next, Or.inl hsector.symm, by simpa [hne] using hr⟩

theorem lift_behaves (hg : ∀ b, Behaves (fun n => g n b) v (P b) (A b)) (a : ℕ × σ) :
    Behaves (fun n => Prog.lift (k.scan d v a) >>= afterScan d k (g n) a.1) v
      (¬k.Faults d v a ∧ ∀ b, k.next d v a = some b → P b) fun r =>
        k.LeavesAfterScan d v a r ∨ ∃ b, k.next d v a = some b ∧ A b r := by
  unfold DirectoryWalk.Faults DirectoryWalk.next DirectoryWalk.LeavesAfterScan
  cases hscan : k.scan d v a with
  | error e =>
    have h : Behaves (fun n => Prog.lift (.error e) >>= afterScan d k (g n) a.1) v _ _ := .fault e
    exact h.congr (by simp) (fun r => False.elim) fun r hr => by simp at hr
  | ok scanned =>
    cases scanned with
    | stop r =>
      have h : Behaves (fun n => Prog.lift (.ok (.stop r)) >>= afterScan d k (g n) a.1) v _ _ :=
        .answer r
      exact h.congr (by simp) (fun r' => Or.inl) fun r' hr => ⟨r', .refl r', by simpa using hr⟩
    | endOfDirectory s =>
      have h : Behaves (fun n => Prog.lift (.ok (.endOfDirectory s)) >>= afterScan d k (g n) a.1) v
        _ _ := .answer (k.finish s)
      exact h.congr (by simp) (fun r' => Or.inl) fun r' hr => ⟨r', .refl r', by simpa using hr⟩
    | endOfCluster s =>
      have h : Behaves (fun n => Prog.lift (.ok (.endOfCluster s)) >>= afterScan d k (g n) a.1) v
        _ _ := endOfCluster_behaves (fun next => hg (next, s)) k.site a.1 (k.finish s)
      refine h.congr (by simp) (fun r' hr => ?_) fun r' hr => ⟨r', .refl r', ?_⟩
      · simpa using hr
      · simpa using hr

theorem scanRound_behaves (hg : ∀ b, Behaves (fun n => g n b) v (P b) (A b)) (a : ℕ × σ) :
    Behaves (fun n => scanRound d k (g n) a) v
      (¬k.Faults d v a ∧ ∀ b, k.next d v a = some b → P b) fun r =>
        k.LeavesAfterScan d v a r ∨ ∃ b, k.next d v a = some b ∧ A b r := by
  have hb : ∀ u : Volume, Bounded fun n =>
      Prog.lift (scanCluster d k u a.1 d.entriesPerCluster 0 a.2) >>= afterScan d k (g n) a.1 :=
    fun u => .bind (.const (.lift _)) fun _ => afterScan_bounded (fun b => (hg b).bounded) _ _
  refine .bind_ok (.ioDevice_read k.site) (fun _ => .bind (.const .volume) hb) (.volume_bind hb ?_)
  intro u hu
  rw [scanCluster_congr hu.data]
  exact lift_behaves hg a

theorem walkRound_behaves (hg : ∀ b, Behaves (fun n => g n b) v (P b) (A b)) (a : ℕ × σ) :
    Behaves (fun n => walkRound d k (g n) a) v
      (¬k.Faults d v a ∧ ∀ b, k.next d v a = some b → P b) fun r =>
        k.CanLeave d v a r ∨ ∃ b, k.next d v a = some b ∧ A b r := by
  have hscan := scanRound_behaves (d := d) (k := k) hg a
  have h := Behaves.bind (f := fun n met => if ¬met = true then answer k.outOfMemory
      else scanRound d k (g n) a) (.request (v := v) k.site (by decide : Resource.memory ≠ .read))
    (fun met => .ite (.const (.answer _)) hscan.bounded)
    fun met _ => .ite (fun _ => .answer k.outOfMemory) fun _ => hscan
  refine h.congr ⟨fun hp => by simpa using hp.2 true ⟨true, rfl⟩, fun hp => ⟨trivial, fun met _ => ?_⟩⟩
    (fun r hr => ?_) fun r hr => ⟨r, .refl r, ?_⟩
  · cases met with
    | false => simp
    | true => simpa using hp
  · rcases hr with ⟨e, -, met, he⟩ | ⟨met, -, hr⟩
    · cases he
    · cases met with
      | false => exact Or.inl (Or.inl (by simpa using hr))
      | true =>
        simp only [not_true_eq_false, if_false] at hr
        exact hr.imp_left Or.inr
  · rcases hr with (hr | hr) | hr
    · exact Or.inr ⟨false, ⟨false, rfl⟩, by simpa using hr⟩
    · exact Or.inr ⟨true, ⟨true, rfl⟩, by simpa using Or.inl hr⟩
    · exact Or.inr ⟨true, ⟨true, rfl⟩, by simpa using Or.inr hr⟩

theorem walkDirectory_bounded (a : ℕ × σ) : Bounded fun n => walkDirectory d k n a.1 a.2 := by
  have heach : ∀ n (b : ℕ × σ), Local (walkDirectory d k n b.1 b.2) := by
    intro n
    induction n with
    | zero => exact fun _ => .fault _
    | succ n ih =>
      intro b
      rw [walkDirectory_succ]
      exact (walkRound_bounded (g := fun _ c => walkDirectory d k n c.1 c.2)
        (fun c => .const (ih c)) b).each 0
  refine ⟨fun n => heach n a, fun n => ?_⟩
  induction n generalizing a with
  | zero =>
    intro w res hrun
    cases hrun
  | succ n ih =>
    have hg : ∀ b : ℕ × σ, Bounded fun i => walkDirectory d k (n + min i 1) b.1 b.2 := by
      refine fun b => ⟨fun i => heach _ b, fun i w res hrun => ?_⟩
      cases i with
      | zero => exact ih b w res hrun
      | succ i => simpa using hrun
    exact (walkRound_bounded (g := fun i c => walkDirectory d k (n + min i 1) c.1 c.2) hg a).succ 0

/-- Within a number of rounds. -/
theorem walkDirectory_behaves_within (n : ℕ) (a : ℕ × σ) :
    Behaves (fun _ => walkDirectory d k n a.1 a.2) v
      (after (k.next d v) n a = none ∧ ∀ b, Reaches (k.next d v) a b → ¬k.Faults d v b)
      fun r => ∃ i < n, ∃ b, after (k.next d v) i a = some b ∧ k.CanLeave d v b r := by
  induction n generalizing a with
  | zero =>
    have h : Behaves (fun _ => walkDirectory d k 0 a.1 a.2) v _ _ := .fault .outOfFuel
    exact h.congr (by simp [after]) (fun r => False.elim) fun r hr => by simp at hr
  | succ n ih =>
    rw [walkDirectory_succ]
    refine (walkRound_behaves (g := fun _ b => walkDirectory d k n b.1 b.2) ih a).congr ?_
      (fun r => (exists_after_succ (p := fun b => k.CanLeave d v b r)).mpr)
      fun r hr => ⟨r, .refl r, (exists_after_succ (p := fun b => k.CanLeave d v b r)).mp hr⟩
    rw [after_succ_eq_none, forall_reaches_iff]
    constructor
    · intro h
      exact ⟨fun b hb => (h.2 b hb).1, h.1, fun b hb => (h.2 b hb).2⟩
    · intro h
      exact ⟨h.2.1, fun b hb => ⟨h.1 b hb, h.2.2 b hb⟩⟩

/-- If every request is met, a round that returns has gone on where it could. -/
theorem walkRound_met {rest : ℕ × σ → FatM ρ} {u : Volume} {t : ℕ} {res : Except FatStatus ρ × World}
    (hu : SameWalks v u)
    (hrun : walkRound d k rest a ⟨u, t, fun _ _ _ => true⟩ = .ok res) :
    ¬k.Faults d v a ∧ ∀ b, k.next d v a = some b →
      ∃ u' t', SameWalks v u' ∧ rest b ⟨u', t', fun _ _ _ => true⟩ = .ok res := by
  have hround : walkRound d k rest a ⟨u, t, fun _ _ _ => true⟩ =
      (Prog.lift (k.scan d u a) >>= afterScan d k rest a.1) ⟨u, t + 2, fun _ _ _ => true⟩ := rfl
  have hscan : k.scan d u a = k.scan d v a := scanCluster_congr hu.data ..
  rw [hround, hscan] at hrun
  unfold DirectoryWalk.Faults DirectoryWalk.next
  cases hscanned : k.scan d v a with
  | error e =>
    rw [hscanned] at hrun
    cases hrun
  | ok scanned =>
    rw [hscanned] at hrun
    change afterScan d k rest a.1 scanned ⟨u, t + 2, fun _ _ _ => true⟩ = .ok res at hrun
    refine ⟨by simp, fun b hb => ?_⟩
    cases scanned with
    | stop r => cases hb
    | endOfDirectory s => cases hb
    | endOfCluster s =>
      obtain ⟨next, hnext, rfl⟩ := Option.map_eq_some_iff.mp hb
      obtain ⟨hsector, hne⟩ := Volume.following_eq_some.mp hnext
      obtain ⟨u', t', hu', hmet⟩ := nextSectorInClusterChain_met (t := t + 3) hu hsector
      refine ⟨u', t', hu', ?_⟩
      have hbuffer : request .pastBuffer k.site ⟨u, t + 2, fun _ _ _ => true⟩ =
          .ok (.ok true, ⟨u, t + 3, fun _ _ _ => true⟩) := rfl
      rw [afterScan, Prog.bind_of_ok hbuffer, if_neg (by simp), Prog.bind_of_ok hmet, if_neg hne] at hrun
      exact hrun

theorem walkDirectory_met {n : ℕ} {a : ℕ × σ} {u : Volume} {t : ℕ}
    {res : Except FatStatus ρ × World} (hu : SameWalks v u)
    (hrun : walkDirectory d k n a.1 a.2 ⟨u, t, fun _ _ _ => true⟩ = .ok res) :
    after (k.next d v) n a = none ∧ ∀ b, Reaches (k.next d v) a b → ¬k.Faults d v b := by
  induction n generalizing a u t with
  | zero => cases hrun
  | succ n ih =>
    rw [walkDirectory_succ] at hrun
    obtain ⟨hfault, hnext⟩ := walkRound_met hu hrun
    rw [after_succ_eq_none, forall_reaches_iff]
    refine ⟨fun b hb => ?_, hfault, fun b hb => ?_⟩
    · obtain ⟨u', t', hu', hrest⟩ := hnext b hb
      exact (ih hu' hrest).1
    · obtain ⟨u', t', hu', hrest⟩ := hnext b hb
      exact (ih hu' hrest).2

theorem walkDirectory_behaves (a : ℕ × σ) (hfin : {b | Reaches (k.next d v) a b}.Finite) :
    Behaves (fun n => walkDirectory d k n a.1 a.2) v
      (NeverRepeats (k.next d v) a ∧ ∀ b, Reaches (k.next d v) a b → ¬k.Faults d v b)
      fun r => ∃ b, Reaches (k.next d v) a b ∧ k.CanLeave d v b r where
  bounded := walkDirectory_bounded a
  returns u hu := by
    rw [← ends_iff_neverRepeats hfin]
    constructor
    · intro h
      obtain ⟨n, r, w, hrun⟩ := h (fun _ _ _ => true) 0 fun _ _ => rfl
      obtain ⟨hends, hfault⟩ := walkDirectory_met hu hrun
      exact ⟨⟨n, hends⟩, hfault⟩
    · intro h o t ho
      obtain ⟨n, hn⟩ := h.1
      obtain ⟨_, r, w, hrun⟩ := ((walkDirectory_behaves_within n a).returns u hu).mpr ⟨hn, h.2⟩ o t ho
      exact ⟨n, r, w, hrun⟩
  sound n u r u' hu hcan := by
    obtain ⟨⟨i, -, b, hb, hr⟩, hu'⟩ := (walkDirectory_behaves_within n a).sound 0 u r u' hu hcan
    exact ⟨⟨b, ⟨i, hb⟩, hr⟩, hu'⟩
  complete u r hu hr := by
    obtain ⟨b, ⟨i, hb⟩, hr⟩ := hr
    obtain ⟨_, r', u', halike, hcan⟩ := (walkDirectory_behaves_within (i + 1) a).complete u r hu
      ⟨i, Nat.lt_succ_self i, b, hb, hr⟩
    exact ⟨i + 1, r', u', halike, hcan⟩

end HAL9000.Fat32
