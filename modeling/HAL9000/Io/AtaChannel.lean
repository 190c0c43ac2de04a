import HAL9000.Io.Irp
import HAL9000.Lib.Run

/-! One ATA channel (`ata_dispatch.c`, `ata_operations.c`). Its master and its slave are two device
objects with a `DeviceLock` each, and share the registers, the bus master and the interrupt line. Any
number of threads sends read and write IRPs; any number of processors runs the interrupt handlers. -/
namespace HAL9000.Io

open Run

def statusInvalidParameter3 : STATUS := 0xE8000013

inductive AtaUnit
  | master
  | slave
  deriving DecidableEq, Repr

def AtaUnit.other : AtaUnit → AtaUnit
  | .master => .slave
  | .slave => .master

inductive AtaTransferState
  | free
  | inProgress
  | finished
  deriving DecidableEq, Repr

/-- A read or write IRP at its current stack location. -/
structure AtaIrp where
  length : QWORD
  offset : QWORD
  asynchronous : Bool
  writeOperation : Bool
  deriving DecidableEq, Repr

structure AtaRequest where
  sectorIndex : QWORD
  sectorCount : WORD
  asynchronous : Bool
  writeOperation : Bool
  deriving DecidableEq, Repr

/-- The checks of `AtaDispatchReadWrite`. -/
def ataCheckRequest (a : AtaDevice) (irp : AtaIrp) : Except STATUS AtaRequest :=
  let aligned := ataCheckAlignment irp.length irp.offset
  let sectorIndex := irp.offset / sectorSize
  let sectorCount := irp.length / sectorSize
  let valid := ataCheckIoParameters a sectorIndex (sectorCount.setWidth 16)
  if ¬succeeded aligned then .error aligned
  else if sectorCount > maxWord then .error statusDeviceSectorCountExceeded
  else if ¬succeeded valid then .error valid
  else .ok ⟨sectorIndex, sectorCount.setWidth 16, irp.asynchronous, irp.writeOperation⟩

/-- The dispatch routine transfers sectors for the requests that pass the checks, and no others. -/
theorem ataTransfer_eq (c : Controller) (a : AtaDevice) (irp : AtaIrp) :
    ataTransfer c a irp.length irp.offset =
      match ataCheckRequest a irp with
      | .error status => pure ⟨status, 0⟩
      | .ok _ => ataReadWriteSectors c := by
  unfold ataTransfer ataCheckRequest
  dsimp only
  split_ifs
  · rfl
  · rfl
  · rfl
  · rfl

/-- The steps of `AtaDispatchReadWrite` once the request is valid, those of `AtaReadWriteSectors` in
between. -/
inductive AtaStage
  | startTransfer
  | waitIdle
  | selectDevice
  | waitReady
  | writeDeviceControl
  | writeIoParameters
  | prepareDma
  | writeCommand
  | startBusMaster
  | waitTransfer
  | checkFinished
  | transferBuffer
  | freeTransfer (transfer : Transfer)
  deriving DecidableEq, Repr

/-- Where a thread stands; from `dispatching` to `completing` it is in a dispatch routine that
`IoCallDriver` runs under the `DeviceLock` of the unit. -/
inductive AtaPc
  | outside
  | dispatching (u : AtaUnit) (irp : AtaIrp)
  | running (u : AtaUnit) (r : AtaRequest) (stage : AtaStage)
  | completing (u : AtaUnit) (ioStatus : IoStatusBlock)
  | assertFailed
  deriving DecidableEq, Repr

/-- Where a processor stands in `_IomuGenericInterrupt`, with the unit whose `_AtaDmaInterrupt` runs. -/
inductive IsrPc
  | idle
  | selectDevice (u : AtaUnit)
  | readBusStatus (u : AtaUnit)
  | readStatus (u : AtaUnit)
  | stopBusMaster (u : AtaUnit)
  | finishTransfer (u : AtaUnit)
  | signal (u : AtaUnit)
  | clearIrq (u : AtaUnit)
  | assertFailed
  deriving DecidableEq, Repr

/-- `AtaDriverEntry` registers the handler of the master first. -/
def AtaUnit.nextHandler : AtaUnit → IsrPc
  | .master => .selectDevice .slave
  | .slave => .idle

/-- The part of `ATA_DEVICE` that changes, and the holder of the `DeviceLock`. -/
structure AtaUnitState (Thread : Type) where
  deviceLock : Option Thread
  state : AtaTransferState
  transferReady : Bool
  prdt : Bool
  noInterrupt : Bool

/-- A command that the channel has received, for the unit that was selected then. -/
structure AtaCommand (Thread : Type) where
  unit : AtaUnit
  requester : Thread
  dma : Bool
  writeOperation : Bool
  parameters : QWORD × WORD
  busy : Bool
  deriving DecidableEq, Repr

/-- `commands` are the outstanding ones; `interrupts` counts the interrupts not delivered yet. -/
structure AtaChannel (Thread Handler : Type) where
  units : AtaUnit → AtaUnitState Thread
  pc : Thread → AtaPc
  isr : Handler → IsrPc
  selected : AtaUnit
  parameters : QWORD × WORD
  interruptsDisabled : Bool
  busStarted : Bool
  busIrq : Bool
  failed : AtaUnit → Bool
  commands : List (AtaCommand Thread)
  interrupts : ℕ

variable {Thread Handler : Type} [DecidableEq Thread] [DecidableEq Handler]

namespace AtaChannel

def goto (s : AtaChannel Thread Handler) (t : Thread) (p : AtaPc) : AtaChannel Thread Handler :=
  { s with pc := Function.update s.pc t p }

def isrGoto (s : AtaChannel Thread Handler) (i : Handler) (p : IsrPc) : AtaChannel Thread Handler :=
  { s with isr := Function.update s.isr i p }

def setUnit (s : AtaChannel Thread Handler) (u : AtaUnit) (d : AtaUnitState Thread) :
    AtaChannel Thread Handler :=
  { s with units := Function.update s.units u d }

/-- `ATA_SREG_BUSY` of the selected unit. -/
def busy (s : AtaChannel Thread Handler) : Bool :=
  s.commands.any fun c => c.unit = s.selected ∧ c.busy

/-- What the channel receives when the command register is written. -/
def command (s : AtaChannel Thread Handler) (t : Thread) (r : AtaRequest) : AtaCommand Thread where
  unit := s.selected
  requester := t
  dma := r.asynchronous
  writeOperation := r.writeOperation
  parameters := s.parameters
  busy := true

/-- The selected unit has transferred the words of its command through the data register. -/
def bufferDone (s : AtaChannel Thread Handler) (c : AtaCommand Thread) : Bool :=
  c.unit = s.selected ∧ c.dma = false ∧ c.busy = false

end AtaChannel

section Steps

variable (devices : AtaUnit → AtaDevice)

/-- The steps of `AtaReadWriteSectors`, between the two exchanges of `AtaDispatchReadWrite`. What
`_AtaPrepareDmaTransfer` returns is an input. -/
def ataReadWriteStep (s : AtaChannel Thread Handler) (t : Thread) (dmaStatus : STATUS) (u : AtaUnit)
    (r : AtaRequest) : AtaStage → Option (AtaChannel Thread Handler)
  | .startTransfer =>
    if (s.units u).state = .free then
      some ((s.setUnit u { s.units u with state := .inProgress }).goto t (.running u r
        (if r.sectorCount = 0 then .freeTransfer ⟨statusInvalidParameter3, 0⟩ else .waitIdle)))
    else some (s.goto t .assertFailed)
  | .waitIdle => if s.busy then none else some (s.goto t (.running u r .selectDevice))
  | .selectDevice => some ({ s with selected := u }.goto t (.running u r .waitReady))
  | .waitReady => if s.busy then none else some (s.goto t (.running u r .writeDeviceControl))
  | .writeDeviceControl =>
    some (({ s with interruptsDisabled := !r.asynchronous }.setUnit u
      { s.units u with noInterrupt := !r.asynchronous }).goto t (.running u r .writeIoParameters))
  | .writeIoParameters =>
    some ({ s with
      parameters := (r.sectorIndex, r.sectorCount)
      interruptsDisabled := (s.units u).noInterrupt }.goto t
        (.running u r (if r.asynchronous then .prepareDma else .writeCommand)))
  | .prepareDma =>
    if succeeded dmaStatus then
      some ((s.setUnit u { s.units u with prdt := true }).goto t (.running u r .writeCommand))
    else some (s.goto t (.running u r (.freeTransfer ⟨dmaStatus, 0⟩)))
  | .writeCommand =>
    some ({ s with
      failed := Function.update s.failed s.selected false
      commands := s.commands ++ [s.command t r] }.goto t
        (.running u r (if r.asynchronous then .startBusMaster else .transferBuffer)))
  | .startBusMaster => some ({ s with busStarted := true }.goto t (.running u r .waitTransfer))
  | .waitTransfer =>
    if (s.units u).transferReady then
      some ((s.setUnit u { s.units u with transferReady := false }).goto t
        (.running u r .checkFinished))
    else none
  | .checkFinished =>
    if (s.units u).state = .finished ∧ (s.units u).prdt then
      some ((s.setUnit u { s.units u with prdt := false }).goto t
        (.running u r (.freeTransfer ⟨statusSuccess, r.sectorCount⟩)))
    else some (s.goto t .assertFailed)
  | .transferBuffer =>
    if s.commands.any s.bufferDone then
      some ({ s with commands := s.commands.eraseP s.bufferDone }.goto t
        (.running u r (.freeTransfer ⟨statusSuccess, r.sectorCount⟩)))
    else none
  | .freeTransfer transfer =>
    some ((s.setUnit u { s.units u with state := .free }).goto t
      (.completing u ⟨transfer.status, transfer.sectorsRead.setWidth 64 * sectorSize⟩))

/-- One step of a thread that holds a `DeviceLock`. -/
def ataDispatchStep (s : AtaChannel Thread Handler) (t : Thread) (dmaStatus : STATUS) :
    Option (AtaChannel Thread Handler) :=
  match s.pc t with
  | .outside | .assertFailed => none
  | .dispatching u irp =>
    match ataCheckRequest (devices u) irp with
    | .error status => some (s.goto t (.completing u ⟨status, 0⟩))
    | .ok r => some (s.goto t (.running u r .startTransfer))
  | .running u r stage => ataReadWriteStep s t dmaStatus u r stage
  | .completing u _ =>
    some ((s.setUnit u { s.units u with deviceLock := none }).goto t .outside)

/-- One step of `_AtaDmaInterrupt`; when it returns `FALSE` the next handler is called. -/
def ataDmaInterruptStep (s : AtaChannel Thread Handler) (i : Handler) :
    Option (AtaChannel Thread Handler) :=
  match s.isr i with
  | .idle | .assertFailed => none
  | .selectDevice u => some ({ s with selected := u }.isrGoto i (.readBusStatus u))
  | .readBusStatus u => some (s.isrGoto i (if s.busIrq then .readStatus u else u.nextHandler))
  | .readStatus u => some (s.isrGoto i (if s.failed s.selected then .assertFailed else .stopBusMaster u))
  | .stopBusMaster u => some ({ s with busStarted := false }.isrGoto i (.finishTransfer u))
  | .finishTransfer u =>
    if (s.units u).state = .inProgress then
      some ((s.setUnit u { s.units u with state := .finished }).isrGoto i (.signal u))
    else some (s.isrGoto i .assertFailed)
  | .signal u =>
    some ((s.setUnit u { s.units u with transferReady := true }).isrGoto i (.clearIrq u))
  | .clearIrq _ => some ({ s with busIrq := false }.isrGoto i .idle)

inductive AtaAction (Thread Handler : Type)
  | ioCallDriver (t : Thread) (u : AtaUnit) (irp : AtaIrp)
  | step (t : Thread) (dmaStatus : STATUS)
  | dataReady (u : AtaUnit)
  | dmaComplete (u : AtaUnit) (failed : Bool)
  | interrupt (i : Handler)
  | isrStep (i : Handler)
  deriving DecidableEq, Repr

/-- Threads, devices and interrupt handlers act in any order. The end of a DMA command raises an
interrupt unless the channel has them disabled. -/
def nextAta (s : AtaChannel Thread Handler) :
    AtaAction Thread Handler → Option (AtaChannel Thread Handler)
  | .ioCallDriver t u irp =>
    if s.pc t = .outside ∧ (s.units u).deviceLock = none then
      some ((s.setUnit u { s.units u with deviceLock := some t }).goto t (.dispatching u irp))
    else none
  | .step t dmaStatus => ataDispatchStep devices s t dmaStatus
  | .dataReady u =>
    some { s with commands := s.commands.map fun c => if c.unit = u then { c with busy := false } else c }
  | .dmaComplete u failed =>
    if s.busStarted ∧ s.commands.any (fun c => c.unit = u ∧ c.dma) then
      some { s with
        commands := s.commands.eraseP fun c => c.unit = u ∧ c.dma
        failed := Function.update s.failed u failed
        busIrq := s.busIrq || !s.interruptsDisabled
        interrupts := if s.interruptsDisabled then s.interrupts else s.interrupts + 1 }
    else none
  | .interrupt i =>
    if s.isr i = .idle ∧ 0 < s.interrupts then
      some ({ s with interrupts := s.interrupts - 1 }.isrGoto i (.selectDevice .master))
    else none
  | .isrStep i => ataDmaInterruptStep s i

end Steps

/-- A channel whose units `AtaInitialize` has set up. -/
def ataStart (selected : AtaUnit) (parameters : QWORD × WORD) (busIrq : Bool) :
    AtaChannel Thread Handler where
  units := fun _ => ⟨none, .free, false, false, true⟩
  pc := fun _ => .outside
  isr := fun _ => .idle
  selected := selected
  parameters := parameters
  interruptsDisabled := true
  busStarted := false
  busIrq := busIrq
  failed := fun _ => false
  commands := []
  interrupts := 0

namespace AtaPc

/-- The unit whose `DeviceLock` the thread holds. -/
def unit : AtaPc → Option AtaUnit
  | .outside | .assertFailed => none
  | .dispatching u _ | .running u _ _ | .completing u _ => some u

/-- The thread has selected its unit and does not know yet that its command has ended. -/
def transferring : AtaPc → Bool
  | .running _ _ stage =>
    match stage with
    | .waitReady | .writeDeviceControl | .writeIoParameters | .prepareDma | .writeCommand
    | .startBusMaster | .waitTransfer | .transferBuffer => true
    | _ => false
  | _ => false

/-- The unit the thread is about to select. -/
def selecting : AtaPc → Option AtaUnit
  | .running u _ .selectDevice => some u
  | _ => none

/-- The unit to which the thread is about to issue a DMA command. -/
def issuingDma : AtaPc → Option AtaUnit
  | .running u r .writeCommand => if r.asynchronous then some u else none
  | _ => none

/-- The thread has been woken by `TransferReady`. -/
def resumed : AtaPc → Bool
  | .running _ _ .checkFinished => true
  | _ => false

end AtaPc

/-- No `ASSERT` has failed, one command at most is outstanding, and a thread that `TransferReady` has
woken has no outstanding command. -/
structure AtaSafe (s : AtaChannel Thread Handler) : Prop where
  threads : ∀ t, s.pc t ≠ .assertFailed
  handlers : ∀ i, s.isr i ≠ .assertFailed
  single : s.commands.length ≤ 1
  own : ∀ t, (s.pc t).resumed = true → ∀ c ∈ s.commands, c.requester ≠ t

/-- No unit is selected while a request to the other one is transferring, no request to the slave
issues a DMA command, and no DMA command fails. -/
def KeepsApart (s : AtaChannel Thread Handler) : AtaAction Thread Handler → Prop
  | .step t _ =>
    (∀ u ∈ (s.pc t).selecting, ∀ t' ∈ (s.units u.other).deviceLock, (s.pc t').transferring = false) ∧
      .slave ∉ (s.pc t).issuingDma
  | .dmaComplete _ failed => failed = false
  | _ => True

instance (s : AtaChannel Thread Handler) (a : AtaAction Thread Handler) : Decidable (KeepsApart s a) :=
  match a with
  | .step _ _ => inferInstanceAs (Decidable (_ ∧ _))
  | .dmaComplete _ _ => inferInstanceAs (Decidable (_ = _))
  | .ioCallDriver _ _ _ | .dataReady _ | .interrupt _ | .isrStep _ => inferInstanceAs (Decidable True)

end HAL9000.Io
