import HAL9000.Io.Irp
import Mathlib.Tactic.Common
import Mathlib.Data.List.Infix

/-! The discipline of completing an IRP, layer by layer. -/
namespace HAL9000.Io

/-! ### What a computation ensures -/

/-- The computation fails no `ASSERT` of an `Io…` function, and `Q` holds of what it returns. -/
def Ensures {α : Type} (x : IoM α) (Q : α → Prop) : Prop :=
  ∀ n, match x n with
    | .ok (a, _) => Q a
    | .error e => e = .dispatchAssert

namespace Ensures

variable {α β : Type} {x : IoM α} {f : α → IoM β} {Q : α → Prop} {R : β → Prop}

theorem ret {a : α} (h : Q a) : Ensures (pure a : IoM α) Q := fun _ => h

theorem bind (hx : Ensures x Q) (hf : ∀ a, Q a → Ensures (f a) R) : Ensures (x >>= f) R := by
  intro n
  have hn := hx n
  change match Except.bind (x n) (fun r => f r.1 r.2) with
    | .ok (a, _) => R a
    | .error e => e = .dispatchAssert
  cases hr : x n with
  | error e => simpa [hr, Except.bind] using hn
  | ok r =>
    rw [hr] at hn
    exact hf r.1 hn r.2

theorem mono {Q' : α → Prop} (h : Ensures x Q) (hq : ∀ a, Q a → Q' a) : Ensures x Q' := by
  intro n
  have hn := h n
  cases hr : x n with
  | error e => simpa [hr] using hn
  | ok r =>
    rw [hr] at hn
    exact hq r.1 hn

theorem ite {c : Prop} [Decidable c] {y : IoM α} (hx : c → Ensures x Q) (hy : ¬c → Ensures y Q) :
    Ensures (if c then x else y) Q := by
  split_ifs with h
  · exact hx h
  · exact hy h

theorem dispatchFault : Ensures (fault .dispatchAssert : IoM α) Q := fun _ => rfl

theorem dispatchAssert {p : Prop} [Decidable p] : Ensures (dispatchAssert p) fun _ => p := by
  unfold Io.dispatchAssert
  exact ite (fun h => ret h) fun _ => dispatchFault

theorem ioAssert {p : Prop} [Decidable p] (h : p) : Ensures (ioAssert p) fun _ => p := by
  unfold Io.ioAssert
  rw [if_pos h]
  exact ret h

theorem requireSome {o : Option α} : Ensures (requireSome o) fun a => o = some a := by
  cases o with
  | none => exact dispatchFault
  | some a => exact ret rfl

theorem trivial (h : Ensures x Q) : Ensures x fun _ => True := h.mono fun _ _ => True.intro

end Ensures

/-! ### Completion -/

theorem succeeded_success : succeeded statusSuccess = true := by decide

/-- The IRP has been completed once more, by the driver that has set its status. -/
structure CompletedOnce (completions : ℕ) (irp : Irp) : Prop where
  completed : irp.completed = true
  completions_eq : irp.completions = completions + 1
  statusSet : ∃ driver, irp.completedBy = some driver ∧ irp.statusBy = some driver

/-- The IRP is as incomplete as it was. -/
structure NotCompleted (completions : ℕ) (irp : Irp) : Prop where
  completed : irp.completed = false
  completions_eq : irp.completions = completions

/-- A routine completes the IRP exactly if it returns success. -/
def Answered (completions : ℕ) (r : STATUS × Irp) : Prop :=
  (succeeded r.1 = true ∧ CompletedOnce completions r.2) ∨
    (succeeded r.1 = false ∧ NotCompleted completions r.2)

/-- The drivers that were called saw the first locations of a route, and at most `levels` locations
were used. -/
structure Reached (route : List (Driver × IoStackLocation)) (levels : ℕ) (irp irp' : Irp) : Prop where
  seen : ∃ l, l <+: route ∧ irp'.seen = irp.seen ++ l
  lower : irp.currentStackLocation.toNat ≤ irp'.currentStackLocation.toNat + levels
  upper : irp'.currentStackLocation.toNat ≤ irp.currentStackLocation.toNat

theorem Reached.refl (route : List (Driver × IoStackLocation)) (levels : ℕ) {irp irp' : Irp}
    (hs : irp'.seen = irp.seen) (hc : irp'.currentStackLocation = irp.currentStackLocation) :
    Reached route levels irp irp' :=
  ⟨⟨[], List.nil_prefix, by simpa using hs⟩, by rw [hc]; omega, by rw [hc]⟩

/-- A driver is given an IRP with at least `levels` further locations. -/
structure Ready (levels : ℕ) (irp : Irp) : Prop where
  completed : irp.completed = false
  levels_le : levels ≤ irp.currentStackLocation.toNat
  current_lt : irp.currentStackLocation.toNat < 255

theorem Ready.getCurrent {levels : ℕ} {irp : Irp} (h : Ready levels irp) :
    Ensures (ioGetCurrentIrpStackLocation irp) fun l => l = irp.location := by
  have hne : maxByte ≠ irp.currentStackLocation := by
    intro he
    have hlt := h.current_lt
    rw [← he] at hlt
    exact absurd hlt (by decide)
  exact (Ensures.ioAssert hne).bind fun _ _ => Ensures.ret rfl

theorem zero_ne_of_pos {x : BYTE} (h : 0 < x.toNat) : 0 ≠ x := by
  intro he
  rw [← he] at h
  exact absurd h (by decide)

theorem ioCompleteIrp_ensures {driver : Driver} {irp : Irp} (h : irp.completed = false) :
    Ensures (ioCompleteIrp driver irp) fun irp' => irp' = { irp with
      completed := true
      completions := irp.completions + 1
      completedBy := some driver } :=
  (Ensures.ioAssert h).bind fun _ _ => Ensures.ret rfl

/-- A driver completes an IRP whose status it has set, and succeeds. -/
theorem complete_answered {driver : Driver} {irp irp₀ : Irp}
    (route : List (Driver × IoStackLocation)) (levels : ℕ) (h : irp.completed = false)
    (hset : irp.statusBy = some driver) (hc : irp.completions = irp₀.completions)
    (hr : Reached route levels irp₀ irp) :
    Ensures (ioCompleteIrp driver irp >>= fun irp => pure (statusSuccess, irp))
      fun r => Answered irp₀.completions r ∧ Reached route levels irp₀ r.2 := by
  refine (ioCompleteIrp_ensures h).bind fun irp' he => Ensures.ret ?_
  subst irp'
  refine ⟨Or.inl ⟨succeeded_success, rfl, ?_, driver, rfl, hset⟩, hr.seen, hr.lower, hr.upper⟩
  simp only [hc]

/-! ### Devices -/

/-- What the drivers below one see of a request for it. -/
abbrev Routes := IoStackLocation → List (Driver × IoStackLocation)

/-- The routine answers a request of its major function; at most `levels` further locations are used,
and the drivers of the route are called. -/
def Handles (m : MajorFunction) (f : Dispatch) (levels : ℕ) (below : Routes) : Prop :=
  ∀ irp, Ready levels irp → irp.location.majorFunction = m → Ensures (f irp) fun r =>
    Answered irp.completions r ∧ Reached (below irp.location) levels irp r.2

/-- The device answers the requests of a kind. -/
structure Serves (device : DeviceObject) (below : Routes) (served : MajorFunction → Bool) :
    Prop where
  stackSize_pos : 0 < device.stackSize.toNat
  dispatch : ∀ m f, served m = true → device.dispatchFunctions m = some f →
    Handles m f (device.stackSize.toNat - 1) below

def DeviceObject.route (device : DeviceObject) (below : Routes) : Routes :=
  fun location => (device.driver, location) :: below location

theorem answered_of_return {completions : ℕ} {r : STATUS × Irp} (h : Answered completions r) :
    Answered completions (if succeeded r.1 then statusSuccess else r.1, r.2) := by
  obtain ⟨hs, hc⟩ | ⟨hs, hc⟩ := h
  · exact Or.inl ⟨by simp only [hs, if_true, succeeded_success], hc⟩
  · exact Or.inr ⟨by rw [if_neg (by simp [hs])]; exact hs, hc⟩

/-- The IRP as `IoCallDriver` gives it to the driver. -/
def Irp.lowered (irp : Irp) : Irp :=
  { irp with currentStackLocation := irp.currentStackLocation - 1 }

section CallDriver

variable {irp : Irp} (hpos : 0 < irp.currentStackLocation.toNat)
include hpos

theorem lowered_toNat :
    irp.lowered.currentStackLocation.toNat + 1 = irp.currentStackLocation.toNat :=
  toNat_sub_one hpos

theorem lowered_location : irp.lowered.location = irp.nextLocation := by
  have hidx := lowered_toNat hpos
  have hpred : irp.lowered.currentStackLocation.toNat = irp.currentStackLocation.toNat - 1 := by omega
  unfold Irp.location Irp.nextLocation
  rw [hpred]
  rfl

end CallDriver

/-- A driver that is called sees the next location of the IRP. -/
theorem ioCallDriver_ensures {device : DeviceObject} {below : Routes} {served : MajorFunction → Bool}
    (h : Serves device below served) (irp : Irp) (hc : irp.completed = false)
    (hl : device.stackSize.toNat ≤ irp.currentStackLocation.toNat)
    (hm : served irp.nextLocation.majorFunction = true) :
    Ensures (ioCallDriver device irp) fun r => Answered irp.completions r ∧
      Reached (device.route below irp.nextLocation) device.stackSize.toNat irp r.2 ∧
      r.2.currentStackLocation.toNat < irp.currentStackLocation.toNat := by
  have hpos := h.stackSize_pos
  have hpos' : 0 < irp.currentStackLocation.toNat := by omega
  have hlow := lowered_toNat hpos'
  have hloc := lowered_location hpos'
  have hlt := irp.currentStackLocation.isLt
  have hready : Ready (device.stackSize.toNat - 1) irp.lowered := ⟨hc, by lia, by omega⟩
  have hkept : ∀ status, succeeded status = false → Answered irp.completions (status, irp.lowered) ∧
      Reached (device.route below irp.nextLocation) device.stackSize.toNat irp irp.lowered ∧
      irp.lowered.currentStackLocation.toNat < irp.currentStackLocation.toNat := by
    intro status hs
    have hseen : ∃ l, l <+: device.route below irp.nextLocation ∧ irp.lowered.seen = irp.seen ++ l :=
      ⟨[], List.nil_prefix, (List.append_nil _).symm⟩
    exact ⟨Or.inr ⟨hs, hc, rfl⟩, ⟨hseen, by omega, by omega⟩, by omega⟩
  unfold ioCallDriver
  refine (Ensures.ioAssert (zero_ne_of_pos hpos')).bind fun _ _ => ?_
  refine hready.getCurrent.bind fun location he => ?_
  obtain rfl : location = irp.nextLocation := he.trans hloc
  refine Ensures.ite (fun _ => Ensures.ret (hkept _ (by decide))) fun _ => ?_
  cases hd : device.dispatchFunctions irp.nextLocation.majorFunction with
  | none => exact Ensures.ret (hkept _ (by decide))
  | some f =>
    refine (h.dispatch _ f hm hd { irp.lowered with
      seen := irp.seen ++ [(device.driver, irp.nextLocation)] }
      ⟨hc, hready.levels_le, hready.current_lt⟩ (congrArg _ hloc)).bind fun r hr => ?_
    obtain ⟨ha, hreach⟩ := hr
    obtain ⟨l, hpre, hseen⟩ := hreach.seen
    have hlower : irp.lowered.currentStackLocation.toNat ≤ _ := hreach.lower
    have hupper : _ ≤ irp.lowered.currentStackLocation.toNat := hreach.upper
    have hroute : (device.driver, irp.nextLocation) :: l <+: device.route below irp.nextLocation :=
      (List.prefix_cons_inj _).mpr (hloc ▸ hpre)
    refine Ensures.ret ⟨answered_of_return ha, ⟨⟨_, hroute, by simpa using hseen⟩, ?_, ?_⟩, ?_⟩
    · simp only
      lia
    · simp only
      omega
    · simp only
      omega

/-! ### ATA -/

theorem ataTransfer_ensures (c : Controller) (a : AtaDevice) (sizeInBytes offset : QWORD) :
    Ensures (ataTransfer c a sizeInBytes offset) fun _ => True := by
  unfold ataTransfer
  refine Ensures.ite (fun _ => Ensures.ret True.intro) fun _ => ?_
  refine Ensures.ite (fun _ => Ensures.ret True.intro) fun _ => ?_
  refine Ensures.ite (fun _ => Ensures.ret True.intro) fun _ n => ?_
  unfold ataReadWriteSectors
  cases c n with
  | none => rfl
  | some transfer => exact True.intro

theorem ataDispatchReadWrite_handles (c : Controller) (a : AtaDevice) (m : MajorFunction) :
    Handles m (ataDispatchReadWrite c a) 0 fun _ => [] := by
  intro irp hr _
  unfold ataDispatchReadWrite
  refine hr.getCurrent.bind fun location _ => ?_
  refine Ensures.dispatchAssert.bind fun _ _ => ?_
  refine (ataTransfer_ensures c a _ _).bind fun transfer _ => ?_
  exact complete_answered _ _ hr.completed rfl rfl (Reached.refl _ _ rfl rfl)

/-- The requests that disks and their controllers answer. -/
def notDeviceControl (m : MajorFunction) : Bool := m ≠ .deviceControl

theorem ata_serves (c : Controller) (a : AtaDevice) :
    Serves (ataDeviceObject c a) (fun _ => []) notDeviceControl := by
  refine ⟨Nat.zero_lt_one, fun m f hm hf => ?_⟩
  cases m with
  | read => exact Option.some.inj hf ▸ ataDispatchReadWrite_handles c a _
  | write => exact Option.some.inj hf ▸ ataDispatchReadWrite_handles c a _
  | deviceControl => exact absurd hm (by decide)
  | _ => nomatch hf

theorem Serves.readWrite {device : DeviceObject} {below : Routes} {served : MajorFunction → Bool}
    (h : Serves device below served)
    (hs : ∀ m, m.isReadWrite = true → served m = true) :
    Serves device below MajorFunction.isReadWrite :=
  ⟨h.stackSize_pos, fun m f hm hf => h.dispatch m f (hs m hm) hf⟩

theorem notDeviceControl_of_readWrite (m : MajorFunction) (hm : m.isReadWrite = true) :
    notDeviceControl m = true := by
  cases m with
  | deviceControl => exact absurd hm (by decide)
  | _ => rfl

/-! ### Drivers that pass a request on -/

/-- The IRP that is passed on differs in its locations only. -/
theorem forward_ensures {device : DeviceObject} {below : Routes} {levels : ℕ}
    (h : Serves device below MajorFunction.isReadWrite) {irp irp' : Irp} (hr : Ready levels irp)
    (hl : device.stackSize.toNat ≤ levels)
    (hm : irp'.nextLocation.majorFunction.isReadWrite = true) (hc : irp'.completed = irp.completed)
    (hn : irp'.completions = irp.completions) (hs : irp'.seen = irp.seen)
    (hk : irp'.currentStackLocation = irp.currentStackLocation) :
    Ensures (ioCallDriver device irp') fun r => Answered irp.completions r ∧
      Reached (device.route below irp'.nextLocation) levels irp r.2 := by
  have hle := hr.levels_le
  refine (ioCallDriver_ensures h irp' (hc.trans hr.completed) (by rw [hk]; omega) hm).mono ?_
  intro r hres
  obtain ⟨ha, hreach, -⟩ := hres
  have hlower := hreach.lower
  rw [hk] at hlower
  exact ⟨hn ▸ ha, hs ▸ hreach.seen, by omega, hk ▸ hreach.upper⟩

theorem setLocation_nextLocation (irp : Irp) (location : IoStackLocation) :
    (irp.setLocation (irp.currentStackLocation.toNat - 1) location).nextLocation = location :=
  Function.update_self _ _ _

theorem ioCopyCurrentStackLocationToNext_ensures {irp : Irp}
    (hpos : 0 < irp.currentStackLocation.toNat) :
    Ensures (ioCopyCurrentStackLocationToNext irp) fun irp' =>
      irp' = irp.setLocation (irp.currentStackLocation.toNat - 1) irp.location :=
  (Ensures.ioAssert (zero_ne_of_pos hpos)).bind fun _ _ => Ensures.ret rfl

theorem ioSetNextIrpStackLocation_ensures {irp : Irp} (f : IoStackLocation → IoStackLocation)
    (hpos : 0 < irp.currentStackLocation.toNat) :
    Ensures (ioSetNextIrpStackLocation irp f) fun irp' =>
      irp' = irp.setLocation (irp.currentStackLocation.toNat - 1) (f irp.nextLocation) :=
  (Ensures.ioAssert (zero_ne_of_pos hpos)).bind fun _ _ => Ensures.ret rfl

theorem diskDispatchReadWrite_handles {device : DeviceObject} {below : Routes} {m : MajorFunction}
    (h : Serves device below MajorFunction.isReadWrite) (hm : m.isReadWrite = true) :
    Handles m (diskDispatchReadWrite device) device.stackSize.toNat (device.route below) := by
  intro irp hr hloc
  have hpos := h.stackSize_pos
  have hle := hr.levels_le
  unfold diskDispatchReadWrite
  refine (ioCopyCurrentStackLocationToNext_ensures (by omega)).bind fun irp' he => ?_
  have hn : irp'.nextLocation = irp.location := he ▸ setLocation_nextLocation irp irp.location
  have hfwd := @forward_ensures _ _ _ h _ irp' hr le_rfl (by rw [hn, hloc, hm])
    (he ▸ rfl) (he ▸ rfl) (he ▸ rfl) (he ▸ rfl)
  rwa [hn] at hfwd

/-- What the drivers below a volume see: the offset is relative to the disk. -/
def belowVolume (v : VolumeObject) (diskDevice : DeviceObject) (below : Routes) : Routes :=
  fun location => diskDevice.route below (v.diskLocation location)

/-- The disk is called unless the parameters are refused. -/
theorem volReadWrite_ensures {device : DeviceObject} {below : Routes} {levels : ℕ}
    (h : Serves device below MajorFunction.isReadWrite) (v : VolumeObject) {irp : Irp}
    (hr : Ready levels irp) (hl : device.stackSize.toNat ≤ levels)
    (hm : irp.location.majorFunction.isReadWrite = true) :
    Ensures (volReadWrite device v irp.location irp) fun r => Answered irp.completions r ∧
      Reached (belowVolume v device below irp.location) levels irp r.2 := by
  have hpos := h.stackSize_pos
  have hle := hr.levels_le
  unfold volReadWrite
  refine Ensures.ite (fun hs => Ensures.ret ⟨Or.inr ⟨by simpa using hs, hr.completed, rfl⟩,
    Reached.refl _ _ rfl rfl⟩) fun _ => ?_
  refine (ioCopyCurrentStackLocationToNext_ensures (by omega)).bind fun irp₁ he => ?_
  have hk : irp₁.currentStackLocation = irp.currentStackLocation := he ▸ rfl
  have hn₁ : irp₁.nextLocation = irp.location := he ▸ setLocation_nextLocation irp irp.location
  refine (ioSetNextIrpStackLocation_ensures _ (by rw [hk]; omega)).bind fun irp₂ he₂ => ?_
  have hn : irp₂.nextLocation = v.diskLocation irp.location := by
    rw [he₂, setLocation_nextLocation, hn₁]
    rfl
  have hfwd := @forward_ensures _ _ _ h _ irp₂ hr hl (by rw [hn]; exact hm)
    (by rw [he₂, he]; rfl) (by rw [he₂, he]; rfl) (by rw [he₂, he]; rfl) (by rw [he₂, he]; rfl)
  rwa [hn] at hfwd

/-- What the disk refuses the volume completes. -/
theorem volDispatchReadWrite_handles {device : DeviceObject} {below : Routes} {m : MajorFunction}
    (h : Serves device below MajorFunction.isReadWrite) (v : VolumeObject) :
    Handles m (volDispatchReadWrite device v) device.stackSize.toNat
      (belowVolume v device below) := by
  intro irp hr _
  unfold volDispatchReadWrite
  refine hr.getCurrent.bind fun location he => ?_
  subst location
  refine Ensures.dispatchAssert.bind fun _ hrw => ?_
  refine (volReadWrite_ensures h v hr le_rfl hrw).bind fun r hres => ?_
  obtain ⟨ha, hreach⟩ := hres
  obtain ⟨hs, hdone⟩ | ⟨hs, hdone⟩ := ha
  · exact Ensures.ite (fun _ => Ensures.ret ⟨Or.inl ⟨succeeded_success, hdone⟩, hreach⟩)
      fun hn => absurd hs hn
  · refine Ensures.ite (fun hn => absurd hn (by simp [hs])) fun _ => ?_
    exact complete_answered _ _ hdone.completed rfl hdone.completions_eq
      ⟨hreach.seen, hreach.lower, hreach.upper⟩

/-- A driver completes an IRP and sets its status then. -/
theorem complete_set_answered {driver : Driver} {irp irp₀ : Irp} {status : STATUS}
    {information : QWORD} (route : List (Driver × IoStackLocation)) (levels : ℕ)
    (h : irp.completed = false) (hc : irp.completions = irp₀.completions)
    (hr : Reached route levels irp₀ irp) :
    Ensures (ioCompleteIrp driver irp >>= fun irp =>
        pure (statusSuccess, irp.setIoStatus driver status information))
      fun r => Answered irp₀.completions r ∧ Reached route levels irp₀ r.2 := by
  refine (ioCompleteIrp_ensures h).bind fun irp' he => Ensures.ret ?_
  subst irp'
  exact ⟨Or.inl ⟨succeeded_success, rfl, congrArg (· + 1) hc, driver, rfl, rfl⟩, hr.seen, hr.lower,
    hr.upper⟩

theorem volDispatchDeviceControl_handles (v : VolumeObject) (m : MajorFunction) (levels : ℕ)
    (below : Routes) : Handles m (volDispatchDeviceControl v) levels below := by
  intro irp hr _
  unfold volDispatchDeviceControl
  refine hr.getCurrent.bind fun location _ => ?_
  refine Ensures.dispatchAssert.bind fun _ _ => ?_
  have hrefl := Reached.refl (below irp.location) levels (rfl : irp.seen = irp.seen) rfl
  refine Ensures.ite (fun _ => Ensures.ite (fun _ => ?_) fun _ => ?_) fun _ => ?_
  · exact complete_set_answered _ _ hr.completed rfl hrefl
  · exact complete_set_answered _ _ hr.completed rfl ⟨hrefl.seen, hrefl.lower, hrefl.upper⟩
  · exact complete_set_answered _ _ hr.completed rfl hrefl

section Attached

variable (c : Controller)

theorem disk_serves (d : DiskObject) :
    Serves (diskDeviceObject c d)
      ((ataDeviceObject c d.diskDeviceController).route fun _ => []) notDeviceControl := by
  have ha := (ata_serves c d.diskDeviceController).readWrite notDeviceControl_of_readWrite
  refine ⟨Nat.zero_lt_two, fun m f hm hf => ?_⟩
  cases m with
  | read => exact Option.some.inj hf ▸ diskDispatchReadWrite_handles ha rfl
  | write => exact Option.some.inj hf ▸ diskDispatchReadWrite_handles ha rfl
  | deviceControl => exact absurd hm (by decide)
  | _ => nomatch hf

/-- A volume answers every request. -/
theorem volume_serves (v : VolumeObject) :
    Serves (volumeDeviceObject c v) (belowVolume v (diskDeviceObject c v.diskDevice)
      ((ataDeviceObject c v.diskDevice.diskDeviceController).route fun _ => [])) fun _ => true := by
  refine ⟨Nat.succ_pos 2, fun m f _ hf => ?_⟩
  have hd := (disk_serves c v.diskDevice).readWrite notDeviceControl_of_readWrite
  cases m with
  | read => exact Option.some.inj hf ▸ volDispatchReadWrite_handles hd v
  | write => exact Option.some.inj hf ▸ volDispatchReadWrite_handles hd v
  | deviceControl => exact Option.some.inj hf ▸ volDispatchDeviceControl_handles v _ _ _
  | _ => nomatch hf

end Attached

/-! ### File systems -/

/-- A request that a file system makes fails no `ASSERT` of an `Io…` function. -/
theorem ioReadWriteDevice_ensures {device : DeviceObject} {below : Routes}
    (h : Serves device below MajorFunction.isReadWrite) (length offset : QWORD)
    (write asynchronous : Bool) :
    Ensures (ioReadWriteDevice device length offset write asynchronous) fun _ => True := by
  have hpos := h.stackSize_pos
  unfold ioReadWriteDevice ioAllocateIrp
  refine ((Ensures.ioAssert hpos).bind fun _ _ => Ensures.ret (Q := fun irp : Irp =>
    irp.completed = false ∧ irp.currentStackLocation = device.stackSize) ⟨rfl, rfl⟩).bind ?_
  intro irp hirp
  obtain ⟨hc, hk⟩ := hirp
  refine (ioSetNextIrpStackLocation_ensures _ (by rw [hk]; omega)).bind fun irp' he => ?_
  have hn : { irp' with asynchronous := asynchronous }.nextLocation = irp'.nextLocation := rfl
  refine (ioCallDriver_ensures h { irp' with asynchronous := asynchronous } ?_ ?_ ?_).bind ?_
  · rw [he]
    exact hc
  · rw [he]
    exact (congrArg BitVec.toNat hk).ge
  · rw [hn, he, setLocation_nextLocation]
    cases write with
    | false => rfl
    | true => rfl
  · exact fun r _ => Ensures.ite (fun _ => Ensures.ret True.intro) fun _ => Ensures.ret True.intro

section FileSystems

variable {device : DeviceObject} {below : Routes} (h : Serves device below MajorFunction.isReadWrite)
  (levels : ℕ)
include h

theorem fatOperation_ensures {α : Type} (operation : FatOperation α) :
    Ensures (operation.run device) fun _ => True := by
  induction operation with
  | done result => exact Ensures.ret True.intro
  | assertFails => exact Ensures.dispatchFault
  | readWriteDevice write asynchronous length offset next ih =>
    exact (ioReadWriteDevice_ensures h length offset write asynchronous).bind fun r _ => ih r.1 r.2

theorem fatCreateEntry_ensures (f : FatDevice) (file : FsFileObject) :
    Ensures (fatCreateEntry device f file) fun _ => True :=
  Ensures.ite (fun _ => fatOperation_ensures h _) fun _ => Ensures.ret True.intro

theorem fatCreate_ensures (f : FatDevice) (file : FsFileObject) :
    Ensures (fatCreate device f file) fun _ => True := by
  unfold fatCreate
  refine (fatCreateEntry_ensures h f file).bind fun created _ => ?_
  refine Ensures.ite (fun _ => Ensures.ret True.intro) fun _ => ?_
  refine (fatOperation_ensures h _).bind fun r _ => ?_
  refine Ensures.ite (fun _ => Ensures.ret True.intro) fun _ => ?_
  exact Ensures.ite (fun _ => Ensures.ret True.intro) fun _ => Ensures.ret True.intro

theorem fatDispatchCreate_handles (f : FatDevice) (m : MajorFunction) :
    Handles m (fatDispatchCreate device f) levels fun _ => [] := by
  intro irp hr _
  unfold fatDispatchCreate
  refine hr.getCurrent.bind fun location _ => ?_
  refine Ensures.dispatchAssert.bind fun _ _ => ?_
  refine Ensures.requireSome.bind fun file _ => ?_
  refine Ensures.dispatchAssert.bind fun _ _ => ?_
  refine (fatCreate_ensures h f file).bind fun r _ => ?_
  exact complete_answered _ _ hr.completed rfl rfl (Reached.refl _ _ rfl rfl)

theorem fatDispatchReadWrite_handles (f : FatDevice) (m : MajorFunction) :
    Handles m (fatDispatchReadWrite device f) levels fun _ => [] := by
  intro irp hr _
  unfold fatDispatchReadWrite
  refine hr.getCurrent.bind fun location _ => ?_
  refine Ensures.dispatchAssert.bind fun _ _ => ?_
  refine Ensures.requireSome.bind fun file _ => ?_
  refine Ensures.requireSome.bind fun fcb _ => ?_
  refine Ensures.dispatchAssert.bind fun _ _ => ?_
  refine Ensures.dispatchAssert.bind fun _ _ => ?_
  refine Ensures.dispatchAssert.bind fun _ _ => ?_
  refine (fatOperation_ensures h _).bind fun r _ => ?_
  exact complete_answered _ _ hr.completed rfl rfl (Reached.refl _ _ rfl rfl)

theorem fatDirectoryControl_ensures (f : FatDevice) (location : IoStackLocation)
    (file : FsFileObject) : Ensures (fatDirectoryControl device f location file) fun _ => True := by
  unfold fatDirectoryControl
  refine Ensures.ite (fun _ => Ensures.ret True.intro) fun _ => ?_
  refine Ensures.requireSome.bind fun fcb _ => ?_
  refine (fatOperation_ensures h _).bind fun r _ => ?_
  refine Ensures.ite (fun _ => Ensures.ret True.intro) fun _ => ?_
  exact Ensures.ite (fun _ => Ensures.ret True.intro) fun _ => Ensures.ret True.intro

theorem fatDispatchDirectoryControl_handles (f : FatDevice) (m : MajorFunction) :
    Handles m (fatDispatchDirectoryControl device f) levels fun _ => [] := by
  intro irp hr _
  unfold fatDispatchDirectoryControl
  refine hr.getCurrent.bind fun location _ => ?_
  refine Ensures.dispatchAssert.bind fun _ _ => ?_
  refine Ensures.dispatchAssert.bind fun _ _ => ?_
  refine Ensures.requireSome.bind fun file _ => ?_
  refine (fatDirectoryControl_ensures h f location file).bind fun r _ => ?_
  exact complete_answered _ _ hr.completed rfl rfl (Reached.refl _ _ rfl rfl)

theorem swapFsTransfer_ensures (write : Bool) (location : IoStackLocation) :
    Ensures (swapFsTransfer device write location) fun _ => True :=
  Ensures.ite (fun _ => Ensures.ret True.intro) fun _ => ioReadWriteDevice_ensures h _ _ _ _

theorem swapFsReadWrite_handles (write : Bool) (m : MajorFunction) :
    Handles m (swapFsReadWrite device write) levels fun _ => [] := by
  intro irp hr _
  unfold swapFsReadWrite
  refine hr.getCurrent.bind fun location _ => ?_
  refine Ensures.dispatchAssert.bind fun _ _ => ?_
  refine (swapFsTransfer_ensures h write location).bind fun r _ => ?_
  exact complete_answered _ _ hr.completed rfl rfl (Reached.refl _ _ rfl rfl)

end FileSystems

section FileSystemsAlone

variable (m : MajorFunction) (levels : ℕ)

theorem fatDispatchClose_handles : Handles m fatDispatchClose levels fun _ => [] := by
  intro irp hr _
  unfold fatDispatchClose
  refine hr.getCurrent.bind fun location _ => ?_
  refine Ensures.dispatchAssert.bind fun _ _ => ?_
  refine Ensures.requireSome.bind fun file _ => ?_
  refine Ensures.requireSome.bind fun fcb _ => ?_
  exact complete_answered _ _ hr.completed rfl rfl (Reached.refl _ _ rfl rfl)

/-- The block changes the buffer only. -/
theorem fatQueryInformation_ensures (location : IoStackLocation) (information : DWORD) (irp : Irp) :
    Ensures (fatQueryInformation location information irp) fun r =>
      ∃ output, r.2 = { irp with output := output } := by
  unfold fatQueryInformation
  refine Ensures.ite (fun _ => Ensures.ret ⟨irp.output, rfl⟩) fun _ => ?_
  refine Ensures.requireSome.bind fun file _ => ?_
  refine Ensures.requireSome.bind fun fcb _ => ?_
  exact Ensures.ret ⟨_, rfl⟩

theorem fatDispatchQueryInformation_handles :
    Handles m fatDispatchQueryInformation levels fun _ => [] := by
  intro irp hr _
  unfold fatDispatchQueryInformation
  refine hr.getCurrent.bind fun location _ => ?_
  refine Ensures.dispatchAssert.bind fun _ _ => ?_
  refine Ensures.dispatchAssert.bind fun _ _ => ?_
  refine (fatQueryInformation_ensures location _ irp).bind fun r hres => ?_
  obtain ⟨status, irp'⟩ := r
  obtain ⟨output, rfl⟩ := hres
  exact complete_answered _ _ hr.completed rfl rfl (Reached.refl _ _ rfl rfl)

theorem swapFsCreate_handles (w : SwapFsDevice) : Handles m (swapFsCreate w) levels fun _ => [] := by
  intro irp hr _
  unfold swapFsCreate
  refine hr.getCurrent.bind fun location _ => ?_
  refine Ensures.dispatchAssert.bind fun _ _ => ?_
  refine Ensures.requireSome.bind fun file _ => ?_
  refine Ensures.dispatchAssert.bind fun _ _ => ?_
  refine Ensures.ite (fun _ => ?_) fun _ => ?_
  · exact complete_answered _ _ hr.completed rfl rfl (Reached.refl _ _ rfl rfl)
  · exact complete_answered _ _ hr.completed rfl rfl (Reached.refl _ _ rfl rfl)

theorem swapFsClose_handles : Handles m swapFsClose levels fun _ => [] :=
  fun _ hr _ => complete_answered _ _ hr.completed rfl rfl (Reached.refl _ _ rfl rfl)

end FileSystemsAlone

section Mounted

variable (c : Controller)

theorem fat_serves (f : FatDevice) :
    Serves (fatDeviceObject c f) (fun _ => []) fun _ => true := by
  have hv := (volume_serves c f.volumeDevice).readWrite fun _ _ => rfl
  refine ⟨Nat.succ_pos 3, fun m g _ hg => ?_⟩
  cases m with
  | create => exact Option.some.inj hg ▸ fatDispatchCreate_handles hv _ f _
  | close => exact Option.some.inj hg ▸ fatDispatchClose_handles _ _
  | read => exact Option.some.inj hg ▸ fatDispatchReadWrite_handles hv _ f _
  | write => exact Option.some.inj hg ▸ fatDispatchReadWrite_handles hv _ f _
  | queryInformation => exact Option.some.inj hg ▸ fatDispatchQueryInformation_handles _ _
  | directoryControl => exact Option.some.inj hg ▸ fatDispatchDirectoryControl_handles hv _ f _
  | deviceControl => nomatch hg

theorem swapFs_serves (w : SwapFsDevice) :
    Serves (swapFsDeviceObject c w) (fun _ => []) fun _ => true := by
  have hv := (volume_serves c w.volumeDevice).readWrite fun _ _ => rfl
  refine ⟨Nat.succ_pos 3, fun m g _ hg => ?_⟩
  cases m with
  | create => exact Option.some.inj hg ▸ swapFsCreate_handles _ _ w
  | close => exact Option.some.inj hg ▸ swapFsClose_handles _ _
  | read => exact Option.some.inj hg ▸ swapFsReadWrite_handles hv _ _ _
  | write => exact Option.some.inj hg ▸ swapFsReadWrite_handles hv _ _ _
  | _ => nomatch hg

end Mounted

/-! ### Requests -/

/-- What each driver of a stack is given to see of a request. -/
def DeviceStack.route : DeviceStack → Routes
  | .ata _ => fun l => [(.ata, l)]
  | .disk _ => fun l => [(.disk, l), (.ata, l)]
  | .volume v => fun l => [(.volume, l), (.disk, v.diskLocation l), (.ata, v.diskLocation l)]
  | .fat32 _ => fun l => [(.fat32, l)]
  | .swapFs _ => fun l => [(.swapFs, l)]

/-- What an IRP shows when the outermost call of a driver has returned: the drivers saw what was filled
in for them, the current location is one of the IRP's, and it has been completed at most once, exactly
once if the call succeeded. -/
structure IrpProtocol (stack : DeviceStack) (c : Controller) (location : IoStackLocation)
    (r : STATUS × Irp) : Prop where
  seen : r.2.seen <+: stack.route location
  current : r.2.currentStackLocation.toNat < (stack.top c).stackSize.toNat
  completions_le : r.2.completions ≤ 1
  success : succeeded r.1 = true → CompletedOnce 0 r.2

/-- A request that fails no `ASSERT` of a dispatch routine follows the protocol and fails no other. -/
def FollowsProtocol (stack : DeviceStack) (c : Controller) (location : IoStackLocation)
    (asynchronous : Bool) : Prop :=
  Ensures (sendRequest (stack.top c) location asynchronous) (IrpProtocol stack c location)

theorem sendRequest_follows {stack : DeviceStack} {c : Controller} {below : Routes}
    {served : MajorFunction → Bool} (h : Serves (stack.top c) below served)
    (location : IoStackLocation) (asynchronous : Bool)
    (hroute : (stack.top c).route below location = stack.route location)
    (hm : served location.majorFunction = true) : FollowsProtocol stack c location asynchronous := by
  have hpos := h.stackSize_pos
  unfold FollowsProtocol sendRequest ioAllocateIrp
  refine ((Ensures.ioAssert hpos).bind fun _ _ => Ensures.ret (Q := fun irp : Irp =>
    irp.completed = false ∧ irp.completions = 0 ∧ irp.seen = [] ∧
      irp.currentStackLocation = (stack.top c).stackSize) ⟨rfl, rfl, rfl, rfl⟩).bind ?_
  intro irp hirp
  obtain ⟨hc, hn, hs, hk⟩ := hirp
  refine (ioSetNextIrpStackLocation_ensures _ (by rw [hk]; omega)).bind fun irp' he => ?_
  have hnext : ({ irp' with asynchronous := asynchronous } : Irp).nextLocation = location := by
    rw [he]
    exact setLocation_nextLocation irp location
  have hk' : irp'.currentStackLocation = (stack.top c).stackSize := he ▸ hk
  refine (ioCallDriver_ensures h { irp' with asynchronous := asynchronous } (he ▸ hc)
    (congrArg BitVec.toNat hk').ge (hnext ▸ hm)).mono fun r hr => ?_
  obtain ⟨ha, hreach, hcur⟩ := hr
  have hn' : ({ irp' with asynchronous := asynchronous } : Irp).completions = 0 := he ▸ hn
  have hs' : ({ irp' with asynchronous := asynchronous } : Irp).seen = [] := he ▸ hs
  rw [hn'] at ha
  refine ⟨?_, hk' ▸ hcur, ?_, ?_⟩
  · obtain ⟨l, hl, hseen⟩ := hreach.seen
    rw [hs', List.nil_append] at hseen
    rw [hseen, ← hroute, ← hnext]
    exact hl
  · obtain ⟨-, hdone⟩ | ⟨-, hdone⟩ := ha
    · exact hdone.completions_eq.le
    · exact hdone.completions_eq.trans_le (Nat.zero_le 1)
  · intro hsucc
    obtain ⟨-, hdone⟩ | ⟨hfail, -⟩ := ha
    · exact hdone
    · exact absurd hsucc (by simp [hfail])

/-! ### Requests that are not completed -/

/-- The computation returns, and `Q` holds of what it returns. -/
def Returns {α : Type} (x : IoM α) (Q : α → Prop) : Prop := ∀ n, ∃ a m, x n = .ok (a, m) ∧ Q a

namespace Returns

variable {α β : Type} {x : IoM α} {f : α → IoM β} {Q : α → Prop} {R : β → Prop}

theorem ret {a : α} (h : Q a) : Returns (pure a : IoM α) Q := fun n => ⟨a, n, rfl, h⟩

theorem bind (hx : Returns x Q) (hf : ∀ a, Q a → Returns (f a) R) : Returns (x >>= f) R := by
  intro n
  obtain ⟨a, m, hr, ha⟩ := hx n
  obtain ⟨b, k, hb, hR⟩ := hf a ha m
  refine ⟨b, k, ?_, hR⟩
  change Except.bind (x n) (fun r => f r.1 r.2) = _
  rw [hr]
  exact hb

theorem ite {c : Prop} [Decidable c] {y : IoM α} (hx : c → Returns x Q) (hy : ¬c → Returns y Q) :
    Returns (if c then x else y) Q := by
  split_ifs with h
  · exact hx h
  · exact hy h

theorem ioAssert {p : Prop} [Decidable p] (h : p) : Returns (Io.ioAssert p) fun _ => p := by
  unfold Io.ioAssert
  rw [if_pos h]
  exact ret h

theorem dispatchAssert {p : Prop} [Decidable p] (h : p) : Returns (Io.dispatchAssert p) fun _ => p := by
  unfold Io.dispatchAssert
  rw [if_pos h]
  exact ret h

end Returns

/-- The routine succeeds and leaves the IRP as incomplete as it was. -/
def LeavesIncomplete (irp : Irp) (r : STATUS × Irp) : Prop :=
  succeeded r.1 = true ∧ r.2.completions = irp.completions

section Incomplete

variable {irp : Irp} (hk : irp.currentStackLocation.toNat < 255)
include hk

theorem getCurrent_returns : Returns (ioGetCurrentIrpStackLocation irp) fun l => l = irp.location := by
  have hne : maxByte ≠ irp.currentStackLocation := by
    intro he
    rw [← he] at hk
    exact absurd hk (by decide)
  exact (Returns.ioAssert hne).bind fun _ _ => Returns.ret rfl

variable (hm : irp.location.majorFunction = .deviceControl)
include hm

theorem ataDispatchDeviceControl_incomplete (a : AtaDevice) :
    Returns (ataDispatchDeviceControl a irp) (LeavesIncomplete irp) := by
  unfold ataDispatchDeviceControl
  refine (getCurrent_returns hk).bind fun location he => ?_
  subst location
  refine (Returns.dispatchAssert hm).bind fun _ _ => ?_
  refine Returns.ite (fun _ => Returns.ite (fun _ => ?_) fun _ => ?_) fun _ => ?_
  · exact Returns.ret ⟨succeeded_success, rfl⟩
  · exact Returns.ret ⟨succeeded_success, rfl⟩
  · exact Returns.ret ⟨succeeded_success, rfl⟩

theorem diskDispatchDeviceControl_incomplete (d : DiskObject) :
    Returns (diskDispatchDeviceControl d irp) (LeavesIncomplete irp) := by
  unfold diskDispatchDeviceControl
  refine (getCurrent_returns hk).bind fun location he => ?_
  subst location
  refine (Returns.dispatchAssert hm).bind fun _ _ => ?_
  refine Returns.ite (fun _ => Returns.ite (fun _ => ?_) fun _ => ?_) fun _ => ?_
  · exact Returns.ret ⟨succeeded_success, rfl⟩
  · exact Returns.ret ⟨succeeded_success, rfl⟩
  · exact Returns.ret ⟨succeeded_success, rfl⟩

end Incomplete

/-- The routine for device controls succeeds without completing the IRP. -/
def SkipsCompletion (device : DeviceObject) : Prop :=
  ∃ f, device.dispatchFunctions .deviceControl = some f ∧ ∀ irp : Irp,
    irp.currentStackLocation.toNat < 255 → irp.location.majorFunction = .deviceControl →
    Returns (f irp) (LeavesIncomplete irp)

theorem ioCallDriver_incomplete {device : DeviceObject} (h : SkipsCompletion device) {irp : Irp}
    (hpos : 0 < irp.currentStackLocation.toNat)
    (hm : irp.nextLocation.majorFunction = .deviceControl) :
    Returns (ioCallDriver device irp) (LeavesIncomplete irp) := by
  obtain ⟨f, hd, hf⟩ := h
  have hlow := lowered_toNat hpos
  have hloc := lowered_location hpos
  have hlt := irp.currentStackLocation.isLt
  have hk : irp.lowered.currentStackLocation.toNat < 255 := by omega
  unfold ioCallDriver
  refine (Returns.ioAssert (zero_ne_of_pos hpos)).bind fun _ _ => ?_
  refine (getCurrent_returns hk).bind fun l hl => ?_
  obtain rfl : l = irp.nextLocation := hl.trans hloc
  refine Returns.ite (fun hrw => absurd hrw.1 (by rw [hm]; decide)) fun _ => ?_
  rw [hm, hd]
  refine (hf { irp.lowered with seen := irp.seen ++ [(device.driver, irp.nextLocation)] } hk
    ((congrArg _ hloc).trans hm)).bind fun r hr => Returns.ret ?_
  obtain ⟨hs, hc⟩ := hr
  exact ⟨by simp only [hs, if_true, succeeded_success], hc⟩

/-- A device control to such a device. -/
theorem sendRequest_incomplete {device : DeviceObject} {location : IoStackLocation}
    (asynchronous : Bool) (hpos : 0 < device.stackSize.toNat) (h : SkipsCompletion device)
    (hm : location.majorFunction = .deviceControl) :
    Returns (sendRequest device location asynchronous) fun r =>
      succeeded r.1 = true ∧ r.2.completions = 0 := by
  unfold sendRequest ioAllocateIrp
  refine ((Returns.ioAssert hpos).bind fun _ _ => Returns.ret (Q := fun irp : Irp =>
    irp.completions = 0 ∧ 0 < irp.currentStackLocation.toNat) ⟨rfl, hpos⟩).bind ?_
  intro irp hirp
  obtain ⟨hn, hk⟩ := hirp
  unfold ioSetNextIrpStackLocation
  refine ((Returns.ioAssert (zero_ne_of_pos hk)).bind fun _ _ => Returns.ret (Q := fun irp' =>
    irp' = irp.setLocation (irp.currentStackLocation.toNat - 1) location) rfl).bind fun irp' he => ?_
  have hnext : ({ irp' with asynchronous := asynchronous } : Irp).nextLocation = location := by
    rw [he]
    exact setLocation_nextLocation irp location
  have hret := @ioCallDriver_incomplete _ h { irp' with asynchronous := asynchronous }
    (by rw [he]; exact hk) (hnext ▸ hm)
  intro n
  obtain ⟨r, m, hr, hs, hc⟩ := hret n
  exact ⟨r, m, hr, hs, hc.trans (he ▸ hn)⟩

/-! ### The protocol -/

theorem top_stackSize_pos (stack : DeviceStack) (c : Controller) :
    0 < (stack.top c).stackSize.toNat := by
  cases stack with
  | ata a => exact Nat.zero_lt_one
  | disk d => exact Nat.zero_lt_two
  | volume v => exact Nat.succ_pos 2
  | fat32 f => exact Nat.succ_pos 3
  | swapFs w => exact Nat.succ_pos 3

theorem not_follows_of_skips {stack : DeviceStack} {c : Controller} {location : IoStackLocation}
    {asynchronous : Bool} (h : SkipsCompletion (stack.top c))
    (hm : location.majorFunction = .deviceControl) :
    ¬FollowsProtocol stack c location asynchronous := by
  intro hf
  obtain ⟨r, m, hr, hs, hn⟩ :=
    sendRequest_incomplete asynchronous (top_stackSize_pos stack c) h hm 0
  have hp := hf 0
  rw [hr] at hp
  have hone := (hp.success hs).completions_eq
  omega

/-- A stack follows the protocol for every request except device controls to disks and their
controllers. -/
theorem followsProtocol_iff (stack : DeviceStack) (c : Controller) (location : IoStackLocation)
    (asynchronous : Bool) : FollowsProtocol stack c location asynchronous ↔
      ¬(stack.isDisk = true ∧ location.majorFunction = .deviceControl) := by
  constructor
  · intro hf hbad
    obtain ⟨hdisk, hm⟩ := hbad
    cases stack with
    | ata a =>
      have hskip : SkipsCompletion ((DeviceStack.ata a).top c) :=
        ⟨_, rfl, fun _ hk hl => ataDispatchDeviceControl_incomplete hk hl a⟩
      exact not_follows_of_skips hskip hm hf
    | disk d =>
      have hskip : SkipsCompletion ((DeviceStack.disk d).top c) :=
        ⟨_, rfl, fun _ hk hl => diskDispatchDeviceControl_incomplete hk hl d⟩
      exact not_follows_of_skips hskip hm hf
    | _ => exact Bool.false_ne_true hdisk
  · intro h
    cases stack with
    | ata a =>
      have hm : notDeviceControl location.majorFunction = true := by
        simpa [DeviceStack.isDisk, notDeviceControl] using h
      have hserves : Serves ((DeviceStack.ata a).top c) _ _ := ata_serves c a
      exact sendRequest_follows hserves location asynchronous rfl hm
    | disk d =>
      have hm : notDeviceControl location.majorFunction = true := by
        simpa [DeviceStack.isDisk, notDeviceControl] using h
      have hserves : Serves ((DeviceStack.disk d).top c) _ _ := disk_serves c d
      exact sendRequest_follows hserves location asynchronous rfl hm
    | volume v =>
      have hserves : Serves ((DeviceStack.volume v).top c) _ _ := volume_serves c v
      exact sendRequest_follows hserves location asynchronous rfl rfl
    | fat32 f =>
      have hserves : Serves ((DeviceStack.fat32 f).top c) _ _ := fat_serves c f
      exact sendRequest_follows hserves location asynchronous rfl rfl
    | swapFs w =>
      have hserves : Serves ((DeviceStack.swapFs w).top c) _ _ := swapFs_serves c w
      exact sendRequest_follows hserves location asynchronous rfl rfl

/-- The request for the length of an ATA device, as the disk driver makes it. -/
def getLengthRequest : IoStackLocation :=
  { IoStackLocation.zero with
    majorFunction := .deviceControl
    ioControlCode := ioctlDiskGetLengthInfo
    outputBufferLength := 8 }

/-- The call of an ATA device succeeds and the IRP is not completed. -/
theorem getLength_incomplete :
    ¬FollowsProtocol (.ata ⟨true, 2048⟩) (fun _ => none) getLengthRequest false := by
  intro hf
  have h : IrpProtocol (.ata ⟨true, 2048⟩) (fun _ => none) getLengthRequest _ := hf 0
  exact absurd (h.success (by decide)).completions_eq (by decide)

end HAL9000.Io
