import HAL9000.CommonLib.ListEntry
import HAL9000.Lib.Run
import Mathlib.Data.Set.Card

/-! The hash table of `hash_table.c`. Buckets are circular lists ordered by the keys of their
elements; the caller allocates the elements and owns those that are not linked. -/
namespace HAL9000.HashTable

open Ring Run

/-- The bytes of a key. -/
abbrev Key (n : ℕ) := Fin n → BYTE

def Key.byte {n : ℕ} (key : Key n) (i : ℕ) : BYTE := if h : i < n then key ⟨i, h⟩ else 0

/-- `cl_rmemcmp` compares from the last byte down; the difference is an `int`. -/
def clRmemcmp (ptr1 ptr2 : ℕ → BYTE) : ℕ → ℤ
  | 0 => 0
  | i + 1 =>
    if ptr1 i ≠ ptr2 i then ((ptr1 i).toNat : ℤ) - (ptr2 i).toNat else clRmemcmp ptr1 ptr2 i

/-- The fields of a table that do not change after `HashTablePreinit` and `HashTableInit`. The
hash function is always called with the key size and the number of keys of the table. -/
structure HashConfig where
  maxKeys : DWORD
  keySize : DWORD
  hashFunc : Key keySize.toNat → QWORD
  maxKeys_lt : maxKeys.toNat < maxDword.toNat / 16
  keySize_pos : 1 ≤ keySize.toNat
  keySize_le : keySize.toNat ≤ 8
  hashFunc_lt : ∀ key, hashFunc key < maxKeys.setWidth 64

/-- The head of a bucket, or the entry of an element. -/
inductive HashNode
  | bucket (index : ℕ)
  | entry (address : QWORD)
  deriving DecidableEq, Repr

variable {cfg : HashConfig}

/-- The links and the count of a table, with the keys in the elements. `linked` records which
elements the caller has in the table. -/
structure HashState (cfg : HashConfig) where
  links : Links HashNode
  numberOfElements : DWORD
  key : QWORD → Key cfg.keySize.toNat
  linked : QWORD → Bool

namespace HashState

/-- The key of an element; the head of a bucket has none and is never compared. -/
def keyAt (s : HashState cfg) : HashNode → Key cfg.keySize.toNat
  | .entry e => s.key e
  | .bucket _ => fun _ => 0

end HashState

structure HashElemSearchCtx where
  placeholderEntry : HashNode
  result : ℤ
  deriving DecidableEq, Repr

def compareKeys (key₁ key₂ : Key cfg.keySize.toNat) : ℤ :=
  clRmemcmp key₁.byte key₂.byte cfg.keySize.toNat

def hashTableSearchElem (s : HashState cfg) (key : Key cfg.keySize.toNat) (firstElem : HashNode)
    (_ : HashElemSearchCtx) : ℤ × HashElemSearchCtx :=
  let result := compareKeys (s.keyAt firstElem) key
  (result, ⟨firstElem, result⟩)

/-- Whether the key is in the bucket, and the entry after which an element with it belongs. -/
def hashTableSearchKeyInBucket (fuel : ℕ) (s : HashState cfg) (bucket : HashNode)
    (key : Key cfg.keySize.toNat) : Except Fault (Bool × HashNode) := do
  let (pResult, searchCtx) ← listSearchForElement s.links bucket true (hashTableSearchElem s key)
    fuel (s.links.flink bucket) ⟨bucket, 0⟩
  if pResult ≠ none then
    assertThat (pResult = some searchCtx.placeholderEntry)
    assertThat (searchCtx.result = 0)
  let placeholder := if 0 < searchCtx.result then s.links.blink searchCtx.placeholderEntry
    else searchCtx.placeholderEntry
  return (pResult.isSome, placeholder)

def hashTableInsert (fuel : ℕ) (s : HashState cfg) (element : QWORD) :
    Except Fault (Option HashNode × HashState cfg) := do
  let key := s.key element
  let hIndex := cfg.hashFunc key
  assertThat (hIndex < cfg.maxKeys.setWidth 64)
  let (bElementAlreadyInHash, pPlaceToInsertInBucket) ←
    hashTableSearchKeyInBucket fuel s (.bucket hIndex.toNat) key
  let links := insertHeadList s.links pPlaceToInsertInBucket (.entry element)
  if bElementAlreadyInHash then
    return (some pPlaceToInsertInBucket,
      { s with links := removeEntryList links pPlaceToInsertInBucket })
  else return (none, { s with links := links, numberOfElements := s.numberOfElements + 1 })

def hashTableLookup (fuel : ℕ) (s : HashState cfg) (key : Key cfg.keySize.toNat) :
    Except Fault (Option HashNode) := do
  let hIndex := cfg.hashFunc key
  let (bElementInHash, pResult) ← hashTableSearchKeyInBucket fuel s (.bucket hIndex.toNat) key
  return if bElementInHash then some pResult else none

def hashTableRemoveEntry (s : HashState cfg) (element : HashNode) : HashState cfg :=
  { s with links := removeEntryList s.links element, numberOfElements := s.numberOfElements - 1 }

def hashTableRemove (fuel : ℕ) (s : HashState cfg) (key : Key cfg.keySize.toNat) :
    Except Fault (Option HashNode × HashState cfg) := do
  let pHashEntry ← hashTableLookup fuel s key
  return (pHashEntry, match pHashEntry with
    | some element => hashTableRemoveEntry s element
    | none => s)

def hashTableSize (s : HashState cfg) : DWORD := s.numberOfElements

structure HashIterator where
  keyIndex : ℕ
  currentKeyIterator : ListIterator HashNode
  deriving DecidableEq, Repr

def hashTableIteratorInit (s : HashState cfg) : HashIterator :=
  ⟨0, listIteratorInit s.links (.bucket 0)⟩

/-- The loop of `HashTableIteratorNext`. After the last bucket it reads the forward link of the
entry behind the table once more. -/
def hashTableIteratorNext (s : HashState cfg) :
    ℕ → HashIterator → Except Fault (Option HashNode × HashIterator)
  | 0, _ => .error .outOfFuel
  | fuel + 1, it =>
    if it.keyIndex < cfg.maxKeys.toNat then
      let (pResult, current) := listIteratorNext s.links it.currentKeyIterator
      if pResult ≠ none then .ok (pResult, { it with currentKeyIterator := current })
      else
        hashTableIteratorNext s fuel
          ⟨it.keyIndex + 1, listIteratorInit s.links (.bucket (it.keyIndex + 1))⟩
    else .ok (none, it)

/-- The loop of `HashTableClear`; what the free function does to a removed element is not seen. -/
def clearFrom (fuel : ℕ) : ℕ → HashState cfg → HashIterator → Except Fault (HashState cfg)
  | 0, _, _ => .error .outOfFuel
  | n + 1, s, it => do
    let (pEntry, it') ← hashTableIteratorNext s fuel it
    match pEntry with
    | none => return s
    | some element => clearFrom fuel n (hashTableRemoveEntry s element) it'

def hashTableClear (fuel : ℕ) (s : HashState cfg) : Except Fault (HashState cfg) :=
  clearFrom fuel fuel s (hashTableIteratorInit s)

/-- A call; the caller fills in the key of an element before it inserts it. -/
inductive HashCall (cfg : HashConfig)
  | insert (element : QWORD) (key : Key cfg.keySize.toNat)
  | remove (key : Key cfg.keySize.toNat)
  | removeEntry (element : QWORD)
  | lookup (key : Key cfg.keySize.toNat)
  | clear
  deriving DecidableEq

/-- The caller owns the element that was returned. -/
def HashState.giveBack (s : HashState cfg) : Option HashNode → HashState cfg
  | some (.entry e) => { s with linked := Function.update s.linked e false }
  | _ => s

/-- Only elements that are not linked are inserted, and only linked ones removed. -/
def HashState.permits (s : HashState cfg) : HashCall cfg → Bool
  | .insert e _ => !s.linked e
  | .removeEntry e => s.linked e
  | _ => true

def call (fuel : ℕ) (s : HashState cfg) :
    HashCall cfg → Except Fault (Option HashNode × HashState cfg)
  | .insert e key => do
    let (ret, s') ← hashTableInsert fuel { s with key := Function.update s.key e key } e
    let s' := s'.giveBack ret
    return (ret, { s' with linked := Function.update s'.linked e true })
  | .remove key => do
    let (ret, s') ← hashTableRemove fuel s key
    return (ret, s'.giveBack ret)
  | .removeEntry e => return (none, (hashTableRemoveEntry s (.entry e)).giveBack (some (.entry e)))
  | .lookup key => do
    let ret ← hashTableLookup fuel s key
    return (ret, s)
  | .clear => do
    let s' ← hashTableClear fuel s
    return (none, { s' with linked := fun _ => false })

/-- A permitted call with what it returns. -/
def nextHash (fuel : ℕ) (s : HashState cfg) (a : HashCall cfg × Option HashNode) :
    Option (HashState cfg) :=
  if s.permits a.1 then
    match call fuel s a.1 with
    | .error _ => none
    | .ok (ret, s') => if ret = a.2 then some s' else none
  else none

/-- The call returns, whatever fuel beyond some bound it is given. -/
def hashStep (s : HashState cfg) (a : HashCall cfg × Option HashNode) (s' : HashState cfg) : Prop :=
  ∃ bound, ∀ fuel ≥ bound, nextHash fuel s a = some s'

/-- The table after `HashTableInit`, with arbitrary links in entries that are not in use. -/
def hashTableInit (cfg : HashConfig) (links : Links HashNode)
    (key : QWORD → Key cfg.keySize.toNat) : HashState cfg where
  links := (List.range cfg.maxKeys.toNat).foldl (fun k i => initializeListHead k (.bucket i)) links
  numberOfElements := 0
  key := key
  linked _ := false

/-- The finite map that a table stands for. -/
abbrev KeyMap (cfg : HashConfig) := Key cfg.keySize.toNat → Option QWORD

/-- The number of keys that the map has. -/
noncomputable def KeyMap.count (m : KeyMap cfg) : ℕ := {key | m key ≠ none}.ncard

/-- What the calls mean for the map, and what they return. -/
def mapCall (m : KeyMap cfg) : HashCall cfg → Option HashNode × KeyMap cfg
  | .insert e key => ((m key).map .entry, Function.update m key (some e))
  | .remove key => ((m key).map .entry, Function.update m key none)
  | .removeEntry e => (none, fun key => if m key = some e then none else m key)
  | .lookup key => ((m key).map .entry, m)
  | .clear => (none, fun _ => none)

def mapStep (m : KeyMap cfg) (a : HashCall cfg × Option HashNode) (m' : KeyMap cfg) : Prop :=
  mapCall m a.1 = (a.2, m')

/-- Bucket `i` holds the elements `bucket i`, in the strict order of their keys, each in the
bucket that its hash selects. -/
structure Represents (s : HashState cfg) (bucket : ℕ → List QWORD) : Prop where
  ring : ∀ i < cfg.maxKeys.toNat, IsRing s.links (.bucket i) ((bucket i).map .entry)
  ordered : ∀ i < cfg.maxKeys.toNat,
    (bucket i).Pairwise fun a b => compareKeys (s.key a) (s.key b) < 0
  hashed : ∀ i < cfg.maxKeys.toNat, ∀ e ∈ bucket i, (cfg.hashFunc (s.key e)).toNat = i
  linked : ∀ e, s.linked e = true ↔ ∃ i < cfg.maxKeys.toNat, e ∈ bucket i

/-- The table stands for the map; its size is a 32-bit number. -/
structure Refines (s : HashState cfg) (m : KeyMap cfg) : Prop where
  represents : ∃ bucket, Represents s bucket
  stored : ∀ key e, m key = some e ↔ s.linked e = true ∧ s.key e = key
  size : (hashTableSize s).toNat = m.count % 2 ^ 32

end HAL9000.HashTable
