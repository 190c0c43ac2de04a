import HAL9000.Io.AtaChannel
import HAL9000.Io.IrpProtocol

/-! Which sectors of a disk a read or write request for one of its volumes gets to. The volume checks
the request in sectors of the partition, the disk passes it on, and the ATA driver checks it again. -/
namespace HAL9000.Io

def statusInvalidParameter4 : STATUS := 0xE8000014

/-- A command with its parameters: the registers hold an LBA of 48 bits. -/
structure AtaTransferCommand where
  lba : BitVec 48
  sectorCount : WORD
  deriving DecidableEq, Repr

/-- What `AtaReadWriteSectors` meets: the buffer of the IRP, and what `_AtaPrepareDmaTransfer` returns. -/
structure TransferSetup where
  hasBuffer : Bool
  prepareDma : STATUS
  deriving DecidableEq, Repr

/-- How a request ends, and the command that the disk was given for it. -/
structure RequestAnswer where
  status : STATUS
  sectorsRead : WORD
  command : Option AtaTransferCommand
  deriving DecidableEq, Repr

/-- A request that is refused. -/
def RequestAnswer.refused (status : STATUS) : RequestAnswer := ⟨status, 0, none⟩

/-- Nothing fails after the command has been written. -/
def ataReadWriteSectorsAt (t : TransferSetup) (r : AtaRequest) : RequestAnswer :=
  if r.sectorCount = 0 then .refused statusInvalidParameter3
  else if ¬t.hasBuffer then .refused statusInvalidParameter4
  else if r.asynchronous ∧ ¬succeeded t.prepareDma then .refused t.prepareDma
  else ⟨statusSuccess, r.sectorCount, some ⟨r.sectorIndex.setWidth 48, r.sectorCount⟩⟩

def ataRequest (a : AtaDevice) (t : TransferSetup) (irp : AtaIrp) : RequestAnswer :=
  match ataCheckRequest a irp with
  | .error status => .refused status
  | .ok r => ataReadWriteSectorsAt t r

/-- `IoCallDriver` for a device with the alignment of a sector. -/
def callAligned (dispatch : AtaIrp → RequestAnswer) (irp : AtaIrp) : RequestAnswer :=
  if ¬isAddressAligned irp.length sectorSize ∨ ¬isAddressAligned irp.offset sectorSize then
    .refused statusDeviceAlignmentNoSatisfied
  else dispatch irp

def diskRequest (d : DiskObject) (t : TransferSetup) : AtaIrp → RequestAnswer :=
  callAligned (ataRequest d.diskDeviceController t)

/-- The offset of a request is made relative to the disk. -/
def VolumeObject.diskIrp (v : VolumeObject) (irp : AtaIrp) : AtaIrp :=
  { irp with offset := (irp.offset / sectorSize + v.partition.offsetInDisk) * sectorSize }

def volRequest (v : VolumeObject) (t : TransferSetup) (irp : AtaIrp) : RequestAnswer :=
  let status := volCheckIoParameters v (irp.offset / sectorSize) (irp.length / sectorSize)
  if ¬succeeded status then .refused status
  else callAligned (diskRequest v.diskDevice t) (v.diskIrp irp)

/-- The request is sent to the device of the volume. -/
def volumeRequest (v : VolumeObject) (t : TransferSetup) : AtaIrp → RequestAnswer :=
  callAligned (volRequest v t)

namespace RequestAnswer

/-- The sectors that the disk reads or writes. -/
def sectors (answer : RequestAnswer) : Set ℕ :=
  {s | ∃ command ∈ answer.command,
    command.lba.toNat ≤ s ∧ s < command.lba.toNat + command.sectorCount.toNat}

theorem sectors_refused (status : STATUS) : (refused status).sectors = ∅ := by
  ext s
  simp [sectors, refused]

end RequestAnswer

/-- The number of sectors that `_DiskInitialize` computes from the length in bytes. -/
def AtaDevice.numberOfSectors (a : AtaDevice) : QWORD := a.totalSectors * sectorSize / sectorSize

/-- The partition ends before the disk does. -/
def VolumeObject.Fits (v : VolumeObject) : Prop :=
  v.partition.offsetInDisk.toNat + v.partition.partitionSize.toNat ≤
    v.diskDevice.diskDeviceController.numberOfSectors.toNat

/-- The sectors of the disk that hold bytes of the partition. -/
def PartitionInformation.sectorsOf (p : PartitionInformation) (offset length : ℕ) : Set ℕ :=
  {s | ∃ b, offset ≤ b ∧ b < offset + length ∧ s = p.offsetInDisk.toNat + b / 512}

/-- The request is refused and gets to no sector, or it gets to the sectors of its bytes, which are in
the partition. -/
def Confined (v : VolumeObject) (irp : AtaIrp) (answer : RequestAnswer) : Prop :=
  (succeeded answer.status = false ∧ answer.sectors = ∅) ∨
    (answer.sectors = v.partition.sectorsOf irp.offset.toNat irp.length.toNat ∧
      ∀ s ∈ answer.sectors, v.partition.offsetInDisk.toNat ≤ s ∧
        s < v.partition.offsetInDisk.toNat + v.partition.partitionSize.toNat)

section Checks

variable {a : AtaDevice} {d : DiskObject} {v : VolumeObject} {t : TransferSetup} {irp : AtaIrp}

theorem sectorSize_dvd {x : QWORD} (h : isAddressAligned x sectorSize = true) : 512 ∣ x.toNat :=
  (isAddressAligned_iff (k := 9) rfl).mp h

theorem div_sectorSize (x : QWORD) : (x / sectorSize).toNat = x.toNat / 512 := BitVec.toNat_udiv

theorem numberOfSectors_lt : a.numberOfSectors.toNat < 2 ^ 55 := by
  unfold AtaDevice.numberOfSectors
  rw [div_sectorSize]
  have := (a.totalSectors * sectorSize).isLt
  lia

theorem ataCheckRequest_error {status : STATUS} (h : ataCheckRequest a irp = .error status) :
    succeeded status = false := by
  unfold ataCheckRequest at h
  dsimp only at h
  split_ifs at h with haligned hcount hvalid
  · exact Except.error.inj h ▸ rfl
  · exact Except.error.inj h ▸ by simpa using hvalid
  · exact Except.error.inj h ▸ by simpa using haligned

theorem ataCheckRequest_ok {r : AtaRequest} (h : ataCheckRequest a irp = .ok r) :
    r.sectorIndex.toNat = irp.offset.toNat / 512 ∧ r.sectorCount.toNat = irp.length.toNat / 512 ∧
      irp.offset.toNat / 512 < 2 ^ 48 := by
  unfold ataCheckRequest at h
  dsimp only at h
  split_ifs at h with haligned hcount hvalid
  have hlt : (irp.length / sectorSize).toNat < 2 ^ 16 := by
    have : ¬(maxWord < irp.length / sectorSize) := hcount
    rw [BitVec.lt_def] at this
    exact Nat.lt_succ_of_le (Nat.le_of_not_lt this)
  have hindex : irp.offset.toNat / 512 < 2 ^ 48 := by
    unfold ataCheckIoParameters at hvalid
    split_ifs at hvalid with hinit hend hlba
    · exact absurd hvalid (by decide)
    · exact absurd hvalid (by decide)
    · exact absurd hvalid (by decide)
    · rw [ge_iff_le, BitVec.le_def, div_sectorSize] at hlba
      exact lt_trans (Nat.lt_of_not_le hlba) (by decide)
    · exact absurd hvalid (by decide)
  obtain rfl := Except.ok.inj h
  refine ⟨div_sectorSize _, ?_, hindex⟩
  rw [BitVec.toNat_setWidth, Nat.mod_eq_of_lt hlt, div_sectorSize]

theorem volCheck_ok {sectorIndex sectorCount : QWORD}
    (h : succeeded (volCheckIoParameters v sectorIndex sectorCount) = true) :
    sectorIndex.toNat + sectorCount.toNat ≤ v.partition.partitionSize.toNat ∧
      sectorIndex.toNat < v.partition.partitionSize.toNat := by
  unfold volCheckIoParameters at h
  split_ifs at h with hindex hcount
  · exact absurd h (by decide)
  · exact absurd h (by decide)
  · have hlt : sectorIndex.toNat < v.partition.partitionSize.toNat := by
      rw [ge_iff_le, BitVec.le_def] at hindex
      exact Nat.lt_of_not_le hindex
    rw [BitVec.lt_def, BitVec.toNat_sub_of_le (BitVec.le_def.mpr hlt.le)] at hcount
    omega

/-- A transfer is refused, or its command names the sectors of the request. -/
theorem ataReadWriteSectorsAt_cases (t : TransferSetup) (r : AtaRequest) :
    (∃ status, succeeded status = false ∧ ataReadWriteSectorsAt t r = .refused status) ∨
      ataReadWriteSectorsAt t r =
        ⟨statusSuccess, r.sectorCount, some ⟨r.sectorIndex.setWidth 48, r.sectorCount⟩⟩ := by
  unfold ataReadWriteSectorsAt
  split_ifs with hzero hbuffer hdma
  · exact Or.inl ⟨_, rfl, rfl⟩
  · exact Or.inl ⟨_, by simpa using hdma.2, rfl⟩
  · exact Or.inr rfl
  · exact Or.inl ⟨_, rfl, rfl⟩

end Checks

section Confinement

variable {v : VolumeObject} {t : TransferSetup} {irp : AtaIrp}

theorem confined_of_refused {status : STATUS} (h : succeeded status = false) :
    Confined v irp (.refused status) := Or.inl ⟨h, RequestAnswer.sectors_refused status⟩

theorem confined_of_unaligned : Confined v irp (.refused statusDeviceAlignmentNoSatisfied) :=
  confined_of_refused rfl

/-- The offset that the disk sees does not wrap. -/
theorem diskIrp_offset (hfit : v.Fits)
    (hin : irp.offset.toNat / 512 < v.partition.partitionSize.toNat) :
    (v.diskIrp irp).offset.toNat = (irp.offset.toNat / 512 + v.partition.offsetInDisk.toNat) * 512 := by
  have hlt : irp.offset.toNat / 512 + v.partition.offsetInDisk.toNat < 2 ^ 55 := by
    have hdisk := @numberOfSectors_lt v.diskDevice.diskDeviceController
    unfold VolumeObject.Fits at hfit
    omega
  change ((irp.offset / sectorSize + v.partition.offsetInDisk) * sectorSize).toNat = _
  have hsize : sectorSize.toNat = 512 := rfl
  rw [BitVec.toNat_mul, BitVec.toNat_add, div_sectorSize, hsize]
  lia

/-- The bytes of whole sectors. -/
theorem sectorsOf_aligned (p : PartitionInformation) {offset length : ℕ} (hoffset : 512 ∣ offset)
    (hlength : 512 ∣ length) : p.sectorsOf offset length =
      {s | p.offsetInDisk.toNat + offset / 512 ≤ s ∧
        s < p.offsetInDisk.toNat + offset / 512 + length / 512} := by
  ext s
  constructor
  · rintro ⟨b, hge, hlt, rfl⟩
    constructor <;> omega
  · rintro ⟨hge, hlt⟩
    exact ⟨(s - p.offsetInDisk.toNat) * 512, by omega, by lia, by lia⟩

/-- Every request for a volume that fits its disk is confined to the partition. -/
theorem volumeRequest_confined (v : VolumeObject) (t : TransferSetup) (irp : AtaIrp)
    (hfit : v.Fits) : Confined v irp (volumeRequest v t irp) := by
  unfold volumeRequest callAligned
  split_ifs with hunaligned
  · exact confined_of_unaligned
  obtain ⟨hlength, hoffset⟩ : isAddressAligned irp.length sectorSize = true ∧
      isAddressAligned irp.offset sectorSize = true := by simpa using hunaligned
  unfold volRequest
  dsimp only
  split_ifs with hvol
  swap
  · exact confined_of_refused (by simpa using hvol)
  obtain ⟨hend, hstart⟩ := volCheck_ok hvol
  rw [div_sectorSize] at hend hstart
  rw [div_sectorSize] at hend
  have hdisk := diskIrp_offset hfit hstart
  unfold callAligned
  split_ifs with hunaligned
  · exact confined_of_unaligned
  -- the disk has the alignment of the volume
  unfold diskRequest callAligned
  rw [if_neg hunaligned]
  unfold ataRequest
  cases hcheck : ataCheckRequest v.diskDevice.diskDeviceController (v.diskIrp irp) with
  | error status => exact confined_of_refused (ataCheckRequest_error hcheck)
  | ok r =>
    obtain ⟨hindex, hcount, hlba⟩ := ataCheckRequest_ok hcheck
    rw [hdisk, Nat.mul_div_cancel _ (by decide)] at hindex hlba
    rcases ataReadWriteSectorsAt_cases t r with ⟨status, hs, hrefused⟩ | hdone
    · change Confined v irp (ataReadWriteSectorsAt t r)
      exact hrefused ▸ confined_of_refused hs
    · have hbase : (r.sectorIndex.setWidth 48).toNat =
          v.partition.offsetInDisk.toNat + irp.offset.toNat / 512 := by
        rw [BitVec.toNat_setWidth, hindex, Nat.mod_eq_of_lt hlba, Nat.add_comm]
      have hsectors : (ataReadWriteSectorsAt t r).sectors =
          {s | v.partition.offsetInDisk.toNat + irp.offset.toNat / 512 ≤ s ∧
            s < v.partition.offsetInDisk.toNat + irp.offset.toNat / 512 + irp.length.toNat / 512} := by
        rw [hdone]
        ext s
        simp only [RequestAnswer.sectors, Option.mem_some_iff, exists_eq_left', Set.mem_ofPred_eq,
          hbase, hcount]
        rfl
      refine Or.inr ⟨?_, fun s hs => ?_⟩
      · rw [hsectors, sectorsOf_aligned _ (sectorSize_dvd hoffset) (sectorSize_dvd hlength)]
      · change s ∈ (ataReadWriteSectorsAt t r).sectors at hs
        rw [hsectors] at hs
        obtain ⟨hge, hlt⟩ := hs
        exact ⟨by lia, by lia⟩

/-- The second partition of a disk of 1000 sectors. -/
def secondVolume : VolumeObject where
  diskDevice := ⟨⟨true, 1000⟩, [⟨63, 100, 0x0C, true⟩, ⟨163, 200, 0x0C, false⟩]⟩
  partition := ⟨163, 200, 0x0C, false⟩

/-- The last two sectors of the partition are read. -/
def readLast : AtaIrp := ⟨0x400, 198 * 512, true, false⟩

example : (volumeRequest secondVolume ⟨true, 0⟩ readLast).command = some ⟨361, 2⟩ := by decide

theorem secondVolume_confined :
    Confined secondVolume readLast (volumeRequest secondVolume ⟨true, 0⟩ readLast) :=
  volumeRequest_confined secondVolume ⟨true, 0⟩ readLast
    (show 163 + 200 ≤ secondVolume.diskDevice.diskDeviceController.numberOfSectors.toNat by decide)

end Confinement

section Irps

/-- The read or write request of a stack location. -/
def Irp.request (irp : Irp) (location : IoStackLocation) : AtaIrp :=
  ⟨location.length, location.offset, irp.asynchronous, location.majorFunction = .write⟩

/-- The status that the caller of `IoCallDriver` gets. -/
def finalStatus (r : STATUS × Irp) : STATUS := if succeeded r.1 then r.2.ioStatus.status else r.1

/-- Every transfer for a request ends as `AtaReadWriteSectors` does. -/
def Controller.Transfers (c : Controller) (a : AtaDevice) (t : TransferSetup) (irp : AtaIrp) : Prop :=
  ∀ r, ataCheckRequest a irp = .ok r → ∀ n,
    c n = some ⟨(ataReadWriteSectorsAt t r).status, (ataReadWriteSectorsAt t r).sectorsRead⟩

/-- A device answers the read and write requests that it is sent. -/
def Answers (device : DeviceObject) (answer : AtaIrp → RequestAnswer) (irp : Irp) : Prop :=
  Ensures (ioCallDriver device irp) fun r =>
    finalStatus r = (answer (irp.request irp.nextLocation)).status

theorem Ensures.and {α : Type} {x : IoM α} {Q R : α → Prop} (hq : Ensures x Q) (hr : Ensures x R) :
    Ensures x fun a => Q a ∧ R a := by
  intro n
  have hqn := hq n
  have hrn := hr n
  cases hx : x n with
  | error e => simpa [hx] using hqn
  | ok res =>
    rw [hx] at hqn hrn
    exact ⟨hqn, hrn⟩

theorem finalStatus_success (irp : Irp) : finalStatus (statusSuccess, irp) = irp.ioStatus.status :=
  if_pos succeeded_success

theorem finalStatus_error {status : STATUS} (h : succeeded status = false) (irp : Irp) :
    finalStatus (status, irp) = status := if_neg (by simp [h])

theorem finalStatus_return (r : STATUS × Irp) :
    finalStatus (if succeeded r.1 then statusSuccess else r.1, r.2) = finalStatus r := by
  unfold finalStatus
  by_cases hs : succeeded r.1 = true
  · simp [hs, succeeded_success]
  · simp [hs]

variable {c : Controller} {irp : Irp} {a : AtaDevice} {t : TransferSetup}

/-- The driver is called with the IRP unless the request is not aligned. -/
theorem answers_of_dispatch {device : DeviceObject} {f : Dispatch} {answer : AtaIrp → RequestAnswer}
    (hpos : 0 < irp.currentStackLocation.toNat) (halign : device.deviceAlignment = sectorSize)
    (hf : device.dispatchFunctions irp.nextLocation.majorFunction = some f)
    (hrw : irp.nextLocation.majorFunction.isReadWrite = true)
    (h : Ensures (f { irp.lowered with seen := irp.seen ++ [(device.driver, irp.nextLocation)] })
      fun r => finalStatus r = (answer (irp.request irp.nextLocation)).status) :
    Answers device (callAligned answer) irp := by
  have hlow := lowered_toNat hpos
  have hlt := irp.currentStackLocation.isLt
  have hcurrent : maxByte ≠ irp.lowered.currentStackLocation := by
    intro he
    have : irp.lowered.currentStackLocation.toNat = 255 := congrArg BitVec.toNat he.symm
    omega
  unfold Answers ioCallDriver
  refine (Ensures.ioAssert (zero_ne_of_pos hpos)).bind fun _ _ => ?_
  refine Ensures.bind (Q := fun l => l = irp.nextLocation)
    ((Ensures.ioAssert hcurrent).bind fun _ _ => Ensures.ret (lowered_location hpos)) fun l hl => ?_
  subst hl
  rw [halign]
  unfold callAligned
  refine Ensures.ite (fun hbad => Ensures.ret ?_) fun hgood => ?_
  · have hunaligned : ¬isAddressAligned (irp.request irp.nextLocation).length sectorSize ∨
        ¬isAddressAligned (irp.request irp.nextLocation).offset sectorSize := hbad.2
    rw [if_pos hunaligned]
    exact finalStatus_error rfl _
  · have haligned : ¬(¬isAddressAligned (irp.request irp.nextLocation).length sectorSize ∨
        ¬isAddressAligned (irp.request irp.nextLocation).offset sectorSize) :=
      fun hbad => hgood ⟨hrw, hbad⟩
    rw [if_neg haligned, hf]
    refine h.bind fun r hr => Ensures.ret ?_
    rw [← hr]
    exact finalStatus_return r

theorem ataTransfer_status {location : IoStackLocation}
    (hc : c.Transfers a t (irp.request location)) :
    Ensures (ataTransfer c a location.length location.offset) fun transfer =>
      transfer.status = (ataRequest a t (irp.request location)).status := by
  have heq := ataTransfer_eq c a (irp.request location)
  change ataTransfer c a location.length location.offset = _ at heq
  rw [heq]
  unfold ataRequest
  cases hcheck : ataCheckRequest a (irp.request location) with
  | error status => exact Ensures.ret rfl
  | ok r =>
    have hdone : Ensures (ataReadWriteSectors c) fun transfer =>
        transfer.status = (ataReadWriteSectorsAt t r).status := by
      intro n
      unfold ataReadWriteSectors
      rw [hc r hcheck n]
    exact hdone

theorem ata_answers (hpos : 0 < irp.currentStackLocation.toNat) (hopen : irp.completed = false)
    (hrw : irp.nextLocation.majorFunction.isReadWrite = true)
    (hc : c.Transfers a t (irp.request irp.nextLocation)) :
    Answers (ataDeviceObject c a) (callAligned (ataRequest a t)) irp := by
  have hlow := lowered_toNat hpos
  have hlt := irp.currentStackLocation.isLt
  have hf : (ataDeviceObject c a).dispatchFunctions irp.nextLocation.majorFunction =
      some (ataDispatchReadWrite c a) := by
    cases hm : irp.nextLocation.majorFunction with
    | read => rfl
    | write => rfl
    | _ => simp [hm, MajorFunction.isReadWrite] at hrw
  refine answers_of_dispatch hpos rfl hf hrw ?_
  have hready : Ready 0 { irp.lowered with seen := irp.seen ++ [(.ata, irp.nextLocation)] } :=
    ⟨hopen, Nat.zero_le _, show irp.lowered.currentStackLocation.toNat < 255 by omega⟩
  unfold ataDispatchReadWrite
  refine hready.getCurrent.bind fun l hl => ?_
  obtain rfl : l = irp.nextLocation := hl.trans (lowered_location hpos)
  refine (Ensures.dispatchAssert).bind fun _ _ => ?_
  refine (ataTransfer_status hc).bind fun transfer htransfer => ?_
  refine (ioCompleteIrp_ensures (by exact hopen)).bind fun irp' hirp' => Ensures.ret ?_
  rw [finalStatus_success, hirp']
  exact htransfer

theorem disk_answers {d : DiskObject} (hpos : 2 ≤ irp.currentStackLocation.toNat)
    (hopen : irp.completed = false) (hrw : irp.nextLocation.majorFunction.isReadWrite = true)
    (hc : c.Transfers d.diskDeviceController t (irp.request irp.nextLocation)) :
    Answers (diskDeviceObject c d) (callAligned (diskRequest d t)) irp := by
  have hpos' : 0 < irp.currentStackLocation.toNat := by omega
  have hlow := lowered_toNat hpos'
  have hf : (diskDeviceObject c d).dispatchFunctions irp.nextLocation.majorFunction =
      some (diskDispatchReadWrite (ataDeviceObject c d.diskDeviceController)) := by
    cases hm : irp.nextLocation.majorFunction with
    | read => rfl
    | write => rfl
    | _ => simp [hm, MajorFunction.isReadWrite] at hrw
  refine answers_of_dispatch hpos' rfl hf hrw ?_
  unfold diskDispatchReadWrite
  refine (@ioCopyCurrentStackLocationToNext_ensures { irp.lowered with
    seen := irp.seen ++ [(.disk, irp.nextLocation)] }
    (show 0 < irp.lowered.currentStackLocation.toNat by omega)).bind fun irp' hirp' => ?_
  have hnext : irp'.nextLocation = irp.nextLocation := by
    rw [hirp']
    exact (setLocation_nextLocation _ _).trans (lowered_location hpos')
  have hrequest : irp'.request irp.nextLocation = irp.request irp.nextLocation := by
    rw [hirp']
    rfl
  have hanswer := @ata_answers c irp' d.diskDeviceController t
    (by rw [hirp']; exact (show 0 < irp.lowered.currentStackLocation.toNat by omega))
    (by rw [hirp']; exact hopen) (by rw [hnext]; exact hrw) (by rw [hnext, hrequest]; exact hc)
  unfold Answers at hanswer
  rw [hnext, hrequest] at hanswer
  exact hanswer

/-- The model of the requests is what the drivers do with the IRPs. -/
theorem volume_answers {v : VolumeObject} (hpos : 3 ≤ irp.currentStackLocation.toNat)
    (hopen : irp.completed = false) (hrw : irp.nextLocation.majorFunction.isReadWrite = true)
    (hc : c.Transfers v.diskDevice.diskDeviceController t (v.diskIrp (irp.request irp.nextLocation))) :
    Answers (volumeDeviceObject c v) (volumeRequest v t) irp := by
  have hpos' : 0 < irp.currentStackLocation.toNat := by omega
  have hlow := lowered_toNat hpos'
  have hlt := irp.currentStackLocation.isLt
  let irp₀ : Irp := { irp.lowered with seen := irp.seen ++ [(.volume, irp.nextLocation)] }
  have hlocation : irp₀.location = irp.nextLocation := lowered_location hpos'
  have hcurrent : irp₀.currentStackLocation.toNat = irp.lowered.currentStackLocation.toNat := rfl
  have hready : Ready 2 irp₀ := ⟨hopen, by omega, by omega⟩
  have hf : (volumeDeviceObject c v).dispatchFunctions irp.nextLocation.majorFunction =
      some (volDispatchReadWrite (diskDeviceObject c v.diskDevice) v) := by
    cases hm : irp.nextLocation.majorFunction with
    | read => rfl
    | write => rfl
    | _ => simp [hm, MajorFunction.isReadWrite] at hrw
  refine answers_of_dispatch hpos' rfl hf hrw ?_
  change Ensures (volDispatchReadWrite (diskDeviceObject c v.diskDevice) v irp₀) _
  have hblock : Ensures (volReadWrite (diskDeviceObject c v.diskDevice) v irp.nextLocation irp₀)
      fun r => finalStatus r = (volRequest v t (irp.request irp.nextLocation)).status := by
    unfold volReadWrite volRequest
    dsimp only
    refine Ensures.ite (fun hbad => Ensures.ret ?_) fun hgood => ?_
    · have hbad' : ¬succeeded (volCheckIoParameters v ((irp.request irp.nextLocation).offset / sectorSize)
          ((irp.request irp.nextLocation).length / sectorSize)) := hbad
      rw [if_pos hbad']
      exact finalStatus_error (by simpa using hbad) _
    · have hgood' : ¬¬succeeded (volCheckIoParameters v
          ((irp.request irp.nextLocation).offset / sectorSize)
          ((irp.request irp.nextLocation).length / sectorSize)) := hgood
      rw [if_neg hgood']
      refine (ioCopyCurrentStackLocationToNext_ensures (by omega)).bind fun irp₁ h₁ => ?_
      have hk : irp₁.currentStackLocation = irp₀.currentStackLocation := h₁ ▸ rfl
      have hn₁ : irp₁.nextLocation = irp.nextLocation := by
        rw [h₁, setLocation_nextLocation, hlocation]
      refine (ioSetNextIrpStackLocation_ensures _ (by rw [hk]; omega)).bind fun irp₂ h₂ => ?_
      have hn : irp₂.nextLocation = v.diskLocation irp.nextLocation := by
        rw [h₂, setLocation_nextLocation, hn₁]
        rfl
      have hrequest : irp₂.request (v.diskLocation irp.nextLocation) =
          v.diskIrp (irp.request irp.nextLocation) := by
        rw [h₂, h₁]
        rfl
      have hanswer := @disk_answers c irp₂ t v.diskDevice
        (by rw [h₂]; change 2 ≤ irp₁.currentStackLocation.toNat; rw [hk]; omega)
        (by rw [h₂, h₁]; exact hopen) (by rw [hn]; exact hrw) (by rw [hn, hrequest]; exact hc)
      unfold Answers at hanswer
      rw [hn, hrequest] at hanswer
      exact hanswer
  have hkeeps := volReadWrite_ensures
    ((disk_serves c v.diskDevice).readWrite notDeviceControl_of_readWrite) v hready le_rfl
    (by rw [hlocation]; exact hrw)
  rw [hlocation] at hkeeps
  unfold volDispatchReadWrite
  refine hready.getCurrent.bind fun l hl => ?_
  obtain rfl : l = irp.nextLocation := hl.trans hlocation
  refine Ensures.dispatchAssert.bind fun _ _ => ?_
  refine (hblock.and hkeeps).bind fun r hr => ?_
  obtain ⟨hstatus, hanswered, -⟩ := hr
  rcases hanswered with ⟨hs, -⟩ | ⟨hs, hdone⟩
  · refine Ensures.ite (fun _ => Ensures.ret ?_) fun hn => absurd hs hn
    rw [← hstatus, finalStatus_success]
    exact (if_pos hs).symm
  · refine Ensures.ite (fun hn => absurd hn (by simp [hs])) fun _ => ?_
    refine (ioCompleteIrp_ensures (by exact hdone.completed)).bind fun irp' hirp' => Ensures.ret ?_
    rw [← hstatus, finalStatus_success, hirp']
    exact (finalStatus_error hs r.2).symm

end Irps

/-- A file system reads the last two sectors of a partition. -/
def readLastIrp : Irp where
  ioStatus := ⟨0, 0⟩
  completed := false
  asynchronous := true
  currentStackLocation := 4
  stackLocations _ :=
    { IoStackLocation.zero with majorFunction := .read, length := 0x400, offset := 198 * 512 }
  output := .unwritten
  completions := 0
  completedBy := none
  statusBy := none
  seen := []

theorem volume_answers_readLast :
    Answers (volumeDeviceObject (fun _ => some ⟨statusSuccess, 2⟩) secondVolume)
      (volumeRequest secondVolume ⟨true, 0⟩) readLastIrp := by
  refine volume_answers (by decide) rfl rfl fun r hr _ => ?_
  obtain rfl := Except.ok.inj ((show ataCheckRequest secondVolume.diskDevice.diskDeviceController
    (secondVolume.diskIrp (readLastIrp.request readLastIrp.nextLocation)) = .ok ⟨361, 2, true, false⟩ by
    decide).symm.trans hr)
  rfl

end HAL9000.Io
