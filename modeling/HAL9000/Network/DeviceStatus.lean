import HAL9000.CommonLib.Base
import HAL9000.Lib.Run
import Mathlib.Data.BitVec
import Mathlib.Tactic.SplitIfs

/-! The status of the network devices: what is requested of the network stack (`network_stack.c`,
`network_interface.c`), what the port records (`network_dispatch.c`), and the control registers of the 82574L
(`eth_82574L_operations.c`). A `BOOLEAN` is a byte. -/
namespace HAL9000.Network

open Run

/-- `NETWORK_DEVICE_STATUS`. -/
structure NetworkDeviceStatus where
  rxEnabled : BYTE
  txEnabled : BYTE
  deriving DecidableEq, Repr

/-- The status that the miniport device records, and the two control registers of the controller. -/
structure EthDevice where
  deviceStatus : NetworkDeviceStatus
  rxControlRegister : DWORD
  txControlRegister : DWORD
  deriving DecidableEq, Repr

/-- A device of the stack's list. The status last requested and the registers after the initialisation are kept
for the statements only. -/
structure NetworkDevice where
  deviceId : DWORD
  physicalDevice : EthDevice
  requested : NetworkDeviceStatus
  initialRx : DWORD
  initialTx : DWORD
  deriving DecidableEq, Repr

structure NetworkStackData where
  networkingEnabled : BYTE
  networkDeviceList : List NetworkDevice
  deriving DecidableEq, Repr

inductive StackStatus
  | success
  | alreadyInitializedHint
  | invalidParameter2
  | deviceDoesNotExist
  deriving DecidableEq, Repr

section Code

/-- The bit-field `Enable` of both registers is bit 1. -/
def setEnable (register : DWORD) (NewStatus : BYTE) : DWORD :=
  (register &&& ~~~(2 : DWORD)) ||| ((NewStatus.setWidth 32 &&& 1) <<< 1)

def ethChangeRxStatus (Device : EthDevice) (NewStatus : BYTE) : EthDevice :=
  { Device with rxControlRegister := setEnable Device.rxControlRegister NewStatus }

def ethChangeTxStatus (Device : EthDevice) (NewStatus : BYTE) : EthDevice :=
  { Device with txControlRegister := setEnable Device.txControlRegister NewStatus }

def ethChangeDeviceStatus (Device : EthDevice) (DeviceStatus : NetworkDeviceStatus) : EthDevice :=
  let newRxStatus := DeviceStatus.rxEnabled
  let newTxStatus := DeviceStatus.txEnabled
  let Device :=
    if newRxStatus ^^^ Device.deviceStatus.rxEnabled ≠ 0 then ethChangeRxStatus Device newRxStatus else Device
  -- the transmit register gets the receive status
  if newTxStatus ^^^ Device.deviceStatus.txEnabled ≠ 0 then ethChangeTxStatus Device newRxStatus else Device

def netDispatchChangeDeviceStatus (Device : EthDevice) (DeviceStatus : NetworkDeviceStatus) : EthDevice :=
  { ethChangeDeviceStatus Device DeviceStatus with deviceStatus := DeviceStatus }

def netOpSetDeviceStatus (d : NetworkDevice) (DeviceStatus : NetworkDeviceStatus) : NetworkDevice :=
  { d with
    physicalDevice := netDispatchChangeDeviceStatus d.physicalDevice DeviceStatus
    requested := DeviceStatus }

def netOpGetDeviceStatus (d : NetworkDevice) : NetworkDeviceStatus := d.physicalDevice.deviceStatus

/-- `NetOpSetDeviceStatus` of the first device with an id, if there is one. -/
def changeDevice (DeviceId : DWORD) (DeviceStatus : NetworkDeviceStatus) :
    List NetworkDevice → Option (List NetworkDevice)
  | [] => none
  | d :: ds =>
    if d.deviceId = DeviceId then some (netOpSetDeviceStatus d DeviceStatus :: ds)
    else (changeDevice DeviceId DeviceStatus ds).map (d :: ·)

def netChangeDeviceStatus (s : NetworkStackData) (DeviceId : DWORD) (DeviceStatus : Option NetworkDeviceStatus) :
    StackStatus × NetworkStackData :=
  match DeviceStatus with
  | none => (.invalidParameter2, s)
  | some DeviceStatus =>
    match changeDevice DeviceId DeviceStatus s.networkDeviceList with
    | none => (.deviceDoesNotExist, s)
    | some ds => (.success, { s with networkDeviceList := ds })

def networkStackSetState (s : NetworkStackData) (EnableNetworking : BYTE) : StackStatus × NetworkStackData :=
  if EnableNetworking ^^^ s.networkingEnabled = 0 then (.alreadyInitializedHint, s)
  else (.success,
    { networkingEnabled := EnableNetworking
      networkDeviceList :=
        s.networkDeviceList.map (netOpSetDeviceStatus · ⟨EnableNetworking, EnableNetworking⟩) })

end Code

inductive StackCall
  | changeDeviceStatus (DeviceId : DWORD) (DeviceStatus : Option NetworkDeviceStatus)
  | setState (EnableNetworking : BYTE)
  deriving DecidableEq, Repr

def stackCall (s : NetworkStackData) : StackCall → NetworkStackData
  | .changeDeviceStatus DeviceId DeviceStatus => (netChangeDeviceStatus s DeviceId DeviceStatus).2
  | .setState EnableNetworking => (networkStackSetState s EnableNetworking).2

def StackStep (s : NetworkStackData) (call : StackCall) (s' : NetworkStackData) : Prop := s' = stackCall s call

/-! ### What is claimed of a device -/

/-- The enable bit is set exactly if the status is not `FALSE`. -/
def EnableBit (register : DWORD) (status : BYTE) : Prop := register.getLsbD 1 = true ↔ status ≠ 0

/-- Only the enable bit may differ. -/
def SameBut (register initial : DWORD) : Prop := ∀ i, i ≠ 1 → register.getLsbD i = initial.getLsbD i

/-- The request, the record and the registers tell the same. -/
structure RealStatus (d : NetworkDevice) : Prop where
  reported : netOpGetDeviceStatus d = d.requested
  rx : EnableBit d.physicalDevice.rxControlRegister d.requested.rxEnabled
  tx : EnableBit d.physicalDevice.txControlRegister d.requested.txEnabled
  otherRx : SameBut d.physicalDevice.rxControlRegister d.initialRx
  otherTx : SameBut d.physicalDevice.txControlRegister d.initialTx

def AllReal (s : NetworkStackData) : Prop := ∀ d ∈ s.networkDeviceList, RealStatus d

/-- A device after `EthInitializeDevice`: both directions are enabled. -/
structure Initialized (d : NetworkDevice) : Prop where
  recorded : d.physicalDevice.deviceStatus = ⟨1, 1⟩
  requested : d.requested = ⟨1, 1⟩
  rx : d.physicalDevice.rxControlRegister = d.initialRx ∧ d.initialRx.getLsbD 1 = true
  tx : d.physicalDevice.txControlRegister = d.initialTx ∧ d.initialTx.getLsbD 1 = true

/-- A request that the registers follow: a direction that changes gets bit 0 of the receive status. -/
def Followed (d : NetworkDevice) (status : NetworkDeviceStatus) : Prop :=
  (status.rxEnabled = d.physicalDevice.deviceStatus.rxEnabled ∨
    (status.rxEnabled.getLsbD 0 = true ↔ status.rxEnabled ≠ 0)) ∧
  (status.txEnabled = d.physicalDevice.deviceStatus.txEnabled ∨
    (status.rxEnabled.getLsbD 0 = true ↔ status.txEnabled ≠ 0))

/-- All the requests that a call makes of devices are followed. -/
def FollowedCall (s : NetworkStackData) : StackCall → Prop
  | .changeDeviceStatus _ none => True
  | .changeDeviceStatus DeviceId (some status) =>
    ∀ d, s.networkDeviceList.find? (fun d => decide (d.deviceId = DeviceId)) = some d → Followed d status
  | .setState EnableNetworking => EnableNetworking ≠ s.networkingEnabled →
    ∀ d ∈ s.networkDeviceList, Followed d ⟨EnableNetworking, EnableNetworking⟩

/-- What holds of a device whatever is requested. -/
structure Recorded (d : NetworkDevice) : Prop where
  reported : netOpGetDeviceStatus d = d.requested
  otherRx : SameBut d.physicalDevice.rxControlRegister d.initialRx
  otherTx : SameBut d.physicalDevice.txControlRegister d.initialTx

/-! ### One request -/

section Registers

variable {register initial : DWORD} {status : BYTE} {i : ℕ}

theorem getLsbD_setEnable (hi : i < 32) : (setEnable register status).getLsbD i =
    if i = 1 then status.getLsbD 0 else register.getLsbD i := by
  have htwo : (2 : DWORD) = BitVec.twoPow 32 1 := rfl
  have hone : (1 : DWORD) = BitVec.twoPow 32 0 := rfl
  unfold setEnable
  rw [htwo, hone]
  simp only [BitVec.getLsbD_or, BitVec.getLsbD_and, BitVec.getLsbD_not, BitVec.getLsbD_twoPow,
    BitVec.getLsbD_shiftLeft, BitVec.getLsbD_setWidth]
  by_cases h : i = 1
  · subst h
    simp
  · rw [if_neg h]
    by_cases hzero : i = 0
    · subst hzero
      simp
    · simp [hi, Ne.symm h, show ¬i < 1 by omega, show ¬0 = i - 1 by omega]

theorem enableBit_setEnable {status' : BYTE} : EnableBit (setEnable register status) status' ↔
    (status.getLsbD 0 = true ↔ status' ≠ 0) := by
  unfold EnableBit
  rw [getLsbD_setEnable (by omega), if_pos rfl]

theorem SameBut.setEnable (h : SameBut register initial) : SameBut (setEnable register status) initial := by
  intro i hi
  by_cases hlt : i < 32
  · rw [getLsbD_setEnable hlt, if_neg hi, h i hi]
  · rw [BitVec.getLsbD_of_ge _ _ (by omega), BitVec.getLsbD_of_ge _ _ (by omega)]

end Registers

section Requests

variable {d : NetworkDevice} {status : NetworkDeviceStatus}

theorem xor_ne_zero_iff {a b : BYTE} : a ^^^ b ≠ 0 ↔ a ≠ b := by
  refine not_congr ⟨fun h => ?_, fun h => ?_⟩
  · have hself : a ^^^ b ^^^ b = b := by
      rw [h]
      exact BitVec.zero_xor
    rwa [BitVec.xor_assoc, BitVec.xor_self, BitVec.xor_zero] at hself
  · rw [h]
    exact BitVec.xor_self

/-- The registers after a request. -/
theorem set_rxControlRegister : (netOpSetDeviceStatus d status).physicalDevice.rxControlRegister =
    if status.rxEnabled ≠ d.physicalDevice.deviceStatus.rxEnabled
    then setEnable d.physicalDevice.rxControlRegister status.rxEnabled
    else d.physicalDevice.rxControlRegister := by
  unfold netOpSetDeviceStatus netDispatchChangeDeviceStatus ethChangeDeviceStatus
  simp only [xor_ne_zero_iff]
  split_ifs <;> rfl

theorem set_txControlRegister : (netOpSetDeviceStatus d status).physicalDevice.txControlRegister =
    if status.txEnabled ≠ d.physicalDevice.deviceStatus.txEnabled
    then setEnable d.physicalDevice.txControlRegister status.rxEnabled
    else d.physicalDevice.txControlRegister := by
  unfold netOpSetDeviceStatus netDispatchChangeDeviceStatus ethChangeDeviceStatus
  simp only [xor_ne_zero_iff]
  split_ifs <;> first | rfl | contradiction

theorem Recorded.set (h : Recorded d) : Recorded (netOpSetDeviceStatus d status) := by
  refine ⟨rfl, ?_, ?_⟩
  · rw [set_rxControlRegister]
    split_ifs
    · exact h.otherRx.setEnable
    · exact h.otherRx
  · rw [set_txControlRegister]
    split_ifs
    · exact h.otherTx.setEnable
    · exact h.otherTx

/-- A request to a device whose status is real. -/
theorem realStatus_set_iff (h : RealStatus d) : RealStatus (netOpSetDeviceStatus d status) ↔ Followed d status := by
  have hreported : d.physicalDevice.deviceStatus = d.requested := h.reported
  have hrecorded : Recorded (netOpSetDeviceStatus d status) := Recorded.set ⟨h.reported, h.otherRx, h.otherTx⟩
  have hiff : RealStatus (netOpSetDeviceStatus d status) ↔
      EnableBit (netOpSetDeviceStatus d status).physicalDevice.rxControlRegister status.rxEnabled ∧
      EnableBit (netOpSetDeviceStatus d status).physicalDevice.txControlRegister status.txEnabled :=
    ⟨fun h => ⟨h.rx, h.tx⟩, fun ⟨hrx, htx⟩ => ⟨rfl, hrx, htx, hrecorded.otherRx, hrecorded.otherTx⟩⟩
  rw [hiff, set_rxControlRegister, set_txControlRegister]
  unfold Followed
  refine and_congr ?_ ?_
  · by_cases hsame : status.rxEnabled = d.physicalDevice.deviceStatus.rxEnabled
    · rw [if_neg (not_not.mpr hsame), hsame, hreported]
      exact iff_of_true h.rx (.inl rfl)
    · rw [if_pos hsame, enableBit_setEnable, or_iff_right hsame]
  · by_cases hsame : status.txEnabled = d.physicalDevice.deviceStatus.txEnabled
    · rw [if_neg (not_not.mpr hsame), hsame, hreported]
      exact iff_of_true h.tx (.inl rfl)
    · rw [if_pos hsame, enableBit_setEnable, or_iff_right hsame]

end Requests

/-! ### Calls and runs -/

section Calls

variable {s s' : NetworkStackData} {call : StackCall} {ds : List NetworkDevice} {DeviceId : DWORD}
  {status : NetworkDeviceStatus}

theorem changeDevice_eq_some {ds' : List NetworkDevice} (h : changeDevice DeviceId status ds = some ds') :
    ∃ before d after, ds = before ++ d :: after ∧ (∀ e ∈ before, e.deviceId ≠ DeviceId) ∧
      d.deviceId = DeviceId ∧ ds' = before ++ netOpSetDeviceStatus d status :: after := by
  induction ds generalizing ds' with
  | nil => exact absurd h nofun
  | cons e es ih =>
    unfold changeDevice at h
    by_cases hid : e.deviceId = DeviceId
    · rw [if_pos hid] at h
      exact ⟨[], e, es, rfl, fun _ h => absurd h List.not_mem_nil, hid, (Option.some.inj h).symm⟩
    · rw [if_neg hid, Option.map_eq_some_iff] at h
      obtain ⟨es', hes, rfl⟩ := h
      obtain ⟨before, d, after, rfl, hbefore, hd, rfl⟩ := ih hes
      refine ⟨e :: before, d, after, rfl, fun x hx => ?_, hd, rfl⟩
      rcases List.mem_cons.mp hx with rfl | hx
      · exact hid
      · exact hbefore x hx

theorem changeDevice_eq_none (h : changeDevice DeviceId status ds = none) :
    ∀ d ∈ ds, d.deviceId ≠ DeviceId := by
  induction ds with
  | nil => exact fun _ h => absurd h List.not_mem_nil
  | cons e es ih =>
    unfold changeDevice at h
    by_cases hid : e.deviceId = DeviceId
    · rw [if_pos hid] at h
      exact absurd h nofun
    · rw [if_neg hid, Option.map_eq_none_iff] at h
      intro d hd
      rcases List.mem_cons.mp hd with rfl | hd
      · exact hid
      · exact ih h d hd

/-- What one call keeps of every device, whatever it requests. -/
theorem recorded_call (h : ∀ d ∈ s.networkDeviceList, Recorded d) (call : StackCall) :
    ∀ d ∈ (stackCall s call).networkDeviceList, Recorded d := by
  cases call with
  | changeDeviceStatus DeviceId DeviceStatus =>
    cases DeviceStatus with
    | none => exact h
    | some status =>
      cases hchange : changeDevice DeviceId status s.networkDeviceList with
      | none =>
        have hsame : stackCall s (.changeDeviceStatus DeviceId (some status)) = s := by
          simp only [stackCall, netChangeDeviceStatus, hchange]
        rwa [hsame]
      | some ds =>
        obtain ⟨before, d, after, hlist, -, -, rfl⟩ := changeDevice_eq_some hchange
        have hnext : (stackCall s (.changeDeviceStatus DeviceId (some status))).networkDeviceList =
            before ++ netOpSetDeviceStatus d status :: after := by
          simp only [stackCall, netChangeDeviceStatus, hchange]
        rw [hnext]
        rw [hlist] at h
        intro e he
        rcases List.mem_append.mp he with he | he
        · exact h e (List.mem_append_left _ he)
        · rcases List.mem_cons.mp he with rfl | he
          · exact (h d (List.mem_append_right _ List.mem_cons_self)).set
          · exact h e (List.mem_append_right _ (List.mem_cons_of_mem _ he))
  | setState EnableNetworking =>
    unfold stackCall networkStackSetState
    dsimp only
    split_ifs
    · exact h
    · intro e he
      obtain ⟨d, hd, rfl⟩ := List.mem_map.mp he
      exact (h d hd).set

/-- One call on a stack whose statuses are real. -/
theorem allReal_call_iff (h : AllReal s) (call : StackCall) :
    AllReal (stackCall s call) ↔ FollowedCall s call := by
  cases call with
  | changeDeviceStatus DeviceId DeviceStatus =>
    cases DeviceStatus with
    | none => exact iff_of_true h trivial
    | some status =>
      change _ ↔ ∀ d, s.networkDeviceList.find? (fun d => decide (d.deviceId = DeviceId)) = some d → Followed d status
      cases hchange : changeDevice DeviceId status s.networkDeviceList with
      | none =>
        have hsame : stackCall s (.changeDeviceStatus DeviceId (some status)) = s := by
          simp only [stackCall, netChangeDeviceStatus, hchange]
        rw [hsame]
        refine iff_of_true h fun d hd => ?_
        exact absurd (by simpa using List.find?_some hd) (changeDevice_eq_none hchange d (List.mem_of_find?_eq_some hd))
      | some ds =>
        obtain ⟨before, d, after, hlist, hbefore, hd, rfl⟩ := changeDevice_eq_some hchange
        have hnext : (stackCall s (.changeDeviceStatus DeviceId (some status))).networkDeviceList =
            before ++ netOpSetDeviceStatus d status :: after := by
          simp only [stackCall, netChangeDeviceStatus, hchange]
        have hfind : s.networkDeviceList.find? (fun d => decide (d.deviceId = DeviceId)) = some d := by
          rw [hlist, List.find?_append, List.find?_eq_none.mpr fun e he => by simpa using hbefore e he,
            List.find?_cons_of_pos (by simpa using hd)]
          rfl
        unfold AllReal at h ⊢
        rw [hnext, hfind]
        rw [hlist] at h
        have hreal := h d (List.mem_append_right _ List.mem_cons_self)
        constructor
        · intro hall e he
          cases he
          exact (realStatus_set_iff hreal).mp (hall _ (List.mem_append_right _ List.mem_cons_self))
        · intro hfollowed e he
          rcases List.mem_append.mp he with he | he
          · exact h e (List.mem_append_left _ he)
          · rcases List.mem_cons.mp he with rfl | he
            · exact (realStatus_set_iff hreal).mpr (hfollowed d rfl)
            · exact h e (List.mem_append_right _ (List.mem_cons_of_mem _ he))
  | setState EnableNetworking =>
    unfold stackCall networkStackSetState FollowedCall
    dsimp only
    by_cases hsame : EnableNetworking ^^^ s.networkingEnabled = 0
    · rw [if_pos hsame]
      exact iff_of_true h fun hne => absurd hsame (xor_ne_zero_iff.mpr hne)
    · rw [if_neg hsame]
      constructor
      · intro hall _ d hd
        exact (realStatus_set_iff (h d hd)).mp (hall _ (List.mem_map_of_mem hd))
      · intro hfollowed e he
        obtain ⟨d, hd, rfl⟩ := List.mem_map.mp he
        exact (realStatus_set_iff (h d hd)).mpr (hfollowed (xor_ne_zero_iff.mp hsame) d hd)

end Calls

theorem Initialized.realStatus {d : NetworkDevice} (h : Initialized d) : RealStatus d := by
  have hone : (1 : BYTE) ≠ 0 := by decide
  refine ⟨h.recorded.trans h.requested.symm, ?_, ?_, ?_, ?_⟩
  · rw [EnableBit, h.rx.1, h.requested]
    exact iff_of_true h.rx.2 hone
  · rw [EnableBit, h.tx.1, h.requested]
    exact iff_of_true h.tx.2 hone
  · rw [h.rx.1]
    exact fun _ _ => rfl
  · rw [h.tx.1]
    exact fun _ _ => rfl

/-- From initialised devices on, the statuses are real all along a run exactly if every request of the run is
followed. -/
theorem always_allReal_iff {s₀ s : NetworkStackData} {tr : List (NetworkStackData × StackCall)}
    (hinit : ∀ d ∈ s₀.networkDeviceList, Initialized d) (hrun : Exec StackStep s₀ tr s) :
    Always AllReal tr s ↔ ∀ v ∈ tr, FollowedCall v.1 v.2 := by
  have hreal : AllReal s₀ := fun d hd => (hinit d hd).realStatus
  refine hrun.always_iff (I := fun s => ∀ d ∈ s.networkDeviceList, Recorded d)
    (fun d hd => ⟨(hreal d hd).reported, (hreal d hd).otherRx, (hreal d hd).otherTx⟩) hreal ?_ ?_
  · rintro s a _ hrecorded rfl
    exact recorded_call hrecorded a
  · rintro s a _ - h rfl
    exact allReal_call_iff h a

/-- One controller with the two enable bits set. -/
def plainNetwork : NetworkStackData :=
  ⟨1, [⟨0, ⟨⟨1, 1⟩, 2, 2⟩, ⟨1, 1⟩, 2, 2⟩]⟩

theorem plainNetwork_initialized : ∀ d ∈ plainNetwork.networkDeviceList, Initialized d := by
  intro d hd
  obtain rfl := List.mem_singleton.mp hd
  exact ⟨rfl, rfl, ⟨rfl, rfl⟩, ⟨rfl, rfl⟩⟩

/-- Networking is switched off. -/
theorem always_allReal_switchedOff : FollowedCall plainNetwork (.setState 0) ∧
    Always AllReal [(plainNetwork, StackCall.setState 0)] (stackCall plainNetwork (.setState 0)) := by
  have hfollowed : FollowedCall plainNetwork (.setState 0) := by
    intro _ d hd
    obtain rfl := List.mem_singleton.mp hd
    exact ⟨.inr (by decide), .inr (by decide)⟩
  have hrun : Exec StackStep plainNetwork [(plainNetwork, .setState 0)] (stackCall plainNetwork (.setState 0)) :=
    .snoc .nil rfl
  refine ⟨hfollowed, (always_allReal_iff plainNetwork_initialized hrun).mpr fun v hv => ?_⟩
  obtain rfl := List.mem_singleton.mp hv
  exact hfollowed

/-- Only the transmitter is switched off: its enable bit stays set. -/
theorem not_always_allReal : ¬∀ (s₀ s : NetworkStackData) (tr : List (NetworkStackData × StackCall)),
    (∀ d ∈ s₀.networkDeviceList, Initialized d) → Exec StackStep s₀ tr s → Always AllReal tr s := by
  intro hall
  have hrun : Exec StackStep plainNetwork [(plainNetwork, .changeDeviceStatus 0 (some ⟨1, 0⟩))]
      (stackCall plainNetwork (.changeDeviceStatus 0 (some ⟨1, 0⟩))) := .snoc .nil rfl
  obtain ⟨-, hreal⟩ := hall _ _ _ plainNetwork_initialized hrun
  have htx := (hreal ⟨0, ⟨⟨1, 0⟩, 2, 2⟩, ⟨1, 0⟩, 2, 2⟩ (by decide)).tx
  exact absurd (htx.mp rfl) (by decide)

end HAL9000.Network
