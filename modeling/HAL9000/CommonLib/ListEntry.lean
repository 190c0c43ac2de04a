import HAL9000.CommonLib.Base
import HAL9000.Lib.Ring

/-! The circular lists of `list.c`. The nodes are list entries and list heads; the checks made in
debug builds only are left out. -/
namespace HAL9000

open Ring

variable {ν γ : Type} [DecidableEq ν]

def initializeListHead (k : Links ν) (listHead : ν) : Links ν := k.single listHead

def insertHeadList (k : Links ν) (listHead entry : ν) : Links ν := k.insertAfter listHead entry

def removeEntryList (k : Links ν) (entry : ν) : Links ν := k.unlink entry

/-- The check that is made in debug builds. -/
def ValidateListEntry (k : Links ν) (entry : ν) : Prop :=
  k.blink (k.flink entry) = entry ∧ k.flink (k.blink entry) = entry

instance (k : Links ν) (entry : ν) : Decidable (ValidateListEntry k entry) :=
  inferInstanceAs (Decidable (_ ∧ _))

def removeHeadList (k : Links ν) (listHead : ν) : ν × Links ν :=
  let entry := k.flink listHead
  let flink := k.flink entry
  (entry, (k.setFlink listHead flink).setBlink flink listHead)

def removeTailList (k : Links ν) (listHead : ν) : ν × Links ν :=
  let entry := k.blink listHead
  let blink := k.blink entry
  (entry, (k.setBlink listHead blink).setFlink blink listHead)

def insertTailList (k : Links ν) (listHead entry : ν) : Links ν :=
  let blink := k.blink listHead
  (((k.setFlink entry listHead).setBlink entry blink).setFlink blink entry).setBlink listHead entry

/-- The loop of `InsertOrderedList`. -/
def insertOrderedLoop (k : Links ν) (listHead entry : ν) (compareFunction : ν → ν → ℤ) : ℕ → ν → Except Fault ν
  | 0, _ => .error .outOfFuel
  | fuel + 1, pCurrentEntry =>
    if pCurrentEntry = listHead then .ok pCurrentEntry
    else if compareFunction entry pCurrentEntry < 0 then .ok pCurrentEntry
    else insertOrderedLoop k listHead entry compareFunction fuel (k.flink pCurrentEntry)

/-- The loop of `ListSearchForElement`; the compare function may change its context. -/
def listSearchForElement (k : Links ν) (listHead : ν) (isListOrdered : Bool)
    (compareFunction : ν → γ → ℤ × γ) : ℕ → ν → γ → Except Fault (Option ν × γ)
  | 0, _, _ => .error .outOfFuel
  | fuel + 1, pCurEntry, context =>
    if pCurEntry = listHead then .ok (none, context)
    else
      let (cmpResult, context') := compareFunction pCurEntry context
      if cmpResult = 0 then .ok (some pCurEntry, context')
      else if isListOrdered ∧ 0 < cmpResult then .ok (none, context')
      else listSearchForElement k listHead isListOrdered compareFunction fuel (k.flink pCurEntry)
        context'

structure ListIterator (ν : Type) where
  listHead : ν
  currentEntry : ν
  deriving DecidableEq, Repr

def listIteratorInit (k : Links ν) (list : ν) : ListIterator ν := ⟨list, k.flink list⟩

def listIteratorNext (k : Links ν) (it : ListIterator ν) : Option ν × ListIterator ν :=
  if it.currentEntry ≠ it.listHead then
    (some it.currentEntry, { it with currentEntry := k.flink it.currentEntry })
  else (none, it)

end HAL9000
