import HAL9000.CommonLib.Base

/-! The bitmap of `bitmap.c`. The buffer is a range of byte-addressed memory and the structure
only points to it. -/
namespace HAL9000

/-- Memory contents by address. -/
abbrev Memory := QWORD → BYTE

structure Bitmap where
  bitmapBuffer : QWORD
  bufferSize : DWORD
  bitCount : DWORD
  deriving DecidableEq, Repr

def bitmapEntryBits : QWORD := 8

def bitmapPreinit (numberOfElements : DWORD) : Except Fault Bitmap := do
  assertThat (numberOfElements ≠ 0)
  return {
    bitmapBuffer := 0
    bufferSize := (alignAddressUpper (numberOfElements.setWidth 64) bitmapEntryBits /
      bitmapEntryBits).setWidth 32
    bitCount := numberOfElements }

def memset (mem : Memory) (buffer : QWORD) (value : BYTE) (size : QWORD) : Memory :=
  fun a => if a - buffer < size then value else mem a

def bitmapInitEx (mem : Memory) (bitmap : Bitmap) (bitmapBuffer : QWORD) (set : Bool) :
    Except Fault (Memory × Bitmap) := do
  assertThat (bitmapBuffer ≠ 0)
  let value : BYTE := if set then 0xFF else 0
  return (memset mem bitmapBuffer value (bitmap.bufferSize.setWidth 64),
    { bitmap with bitmapBuffer := bitmapBuffer })

/-- The address of the byte that holds a bit. -/
def byteAddress (bitmapBuffer : QWORD) (index : DWORD) : QWORD :=
  bitmapBuffer + (index / 8).setWidth 64

/-- The mask of a bit inside its byte. -/
def bitMask (index : DWORD) : BYTE := 1#8 <<< (index % 8).toNat

def bitmapChangeBit (mem : Memory) (bitmapBuffer : QWORD) (index : DWORD) (set : Bool) :
    Except Fault Memory := do
  assertThat (bitmapBuffer ≠ 0)
  let address := byteAddress bitmapBuffer index
  let byte := if set then mem address ||| bitMask index else mem address &&& ~~~(bitMask index)
  return fun a => if a = address then byte else mem a

/-- Changes the bits `index`, `index + 1`, … one after the other. -/
def bitmapChangeBits (mem : Memory) (bitmapBuffer : QWORD) (index : DWORD) (set : Bool) :
    ℕ → Except Fault Memory
  | 0 => .ok mem
  | count + 1 => do
    let mem' ← bitmapChangeBits mem bitmapBuffer index set count
    bitmapChangeBit mem' bitmapBuffer (index + BitVec.ofNat 32 count) set

def bitmapGetBit (mem : Memory) (bitmapBuffer : QWORD) (index : DWORD) : Except Fault Bool := do
  assertThat (bitmapBuffer ≠ 0)
  return mem (byteAddress bitmapBuffer index) &&& bitMask index == bitMask index

/-- The difference `bitCount - count` is taken modulo `2 ^ 32`. -/
def bitmapSetBitsValue (mem : Memory) (bitmap : Bitmap) (index count : DWORD) (set : Bool) :
    Except Fault Memory := do
  assertThat (index < bitmap.bitCount)
  assertThat (index ≤ bitmap.bitCount - count)
  bitmapChangeBits mem bitmap.bitmapBuffer index set count.toNat

def bitmapGetBitValue (mem : Memory) (bitmap : Bitmap) (index : DWORD) : Except Fault Bool := do
  assertThat (index < bitmap.bitCount)
  bitmapGetBit mem bitmap.bitmapBuffer index

/-- The inner loop of the scan: the bits from `index` on have the value `set`. -/
def bitsMatch (mem : Memory) (bitmapBuffer : QWORD) (set : Bool) (index : DWORD) :
    ℕ → Except Fault Bool
  | 0 => .ok true
  | remaining + 1 => do
    if set ≠ (← bitmapGetBit mem bitmapBuffer index) then return false
    bitsMatch mem bitmapBuffer set (index + 1) remaining

/-- The outer loop of the scan, from index `i` on. -/
def scanFrom (mem : Memory) (bitmapBuffer : QWORD) (consecutiveBits : DWORD) (set : Bool)
    (i : DWORD) : ℕ → Except Fault DWORD
  | 0 => .ok maxDword
  | remaining + 1 => do
    if ← bitsMatch mem bitmapBuffer set i consecutiveBits.toNat then return i
    scanFrom mem bitmapBuffer consecutiveBits set (i + 1) remaining

/-- The loop runs while `i ≤ lastIndex`, and `lastIndex` is not the greatest index. -/
def bitmapScanInternal (mem : Memory) (bitmap : Bitmap) (startIndex firstInvalidBitIndex : DWORD)
    (consecutiveBits : DWORD) (set : Bool) : Except Fault DWORD := do
  assertThat (consecutiveBits ≠ 0)
  assertThat (startIndex ≤ firstInvalidBitIndex)
  assertThat (firstInvalidBitIndex ≤ bitmap.bitCount)
  if firstInvalidBitIndex - startIndex < consecutiveBits then return maxDword
  let lastIndex := firstInvalidBitIndex - consecutiveBits
  scanFrom mem bitmap.bitmapBuffer consecutiveBits set startIndex
    (lastIndex.toNat + 1 - startIndex.toNat)

def bitmapScanFromTo (mem : Memory) (bitmap : Bitmap) (index firstInvalidBitIndex : DWORD)
    (consecutiveBits : DWORD) (set : Bool) : Except Fault DWORD := do
  if consecutiveBits = 0 then return maxDword
  if firstInvalidBitIndex < index ∨ bitmap.bitCount < firstInvalidBitIndex then return maxDword
  bitmapScanInternal mem bitmap index firstInvalidBitIndex consecutiveBits set

def bitmapScanFromToAndFlip (mem : Memory) (bitmap : Bitmap) (index firstInvalidBitIndex : DWORD)
    (consecutiveBits : DWORD) (set : Bool) : Except Fault (DWORD × Memory) := do
  if consecutiveBits = 0 then return (maxDword, mem)
  if firstInvalidBitIndex < index ∨ bitmap.bitCount < firstInvalidBitIndex then
    return (maxDword, mem)
  let bitmapIndex ← bitmapScanInternal mem bitmap index firstInvalidBitIndex consecutiveBits set
  if bitmapIndex = maxDword then return (maxDword, mem)
  let mem' ← bitmapChangeBits mem bitmap.bitmapBuffer bitmapIndex (!set) consecutiveBits.toNat
  return (bitmapIndex, mem')

def bitmapScanFromAndFlip (mem : Memory) (bitmap : Bitmap) (index consecutiveBits : DWORD)
    (set : Bool) : Except Fault (DWORD × Memory) :=
  bitmapScanFromToAndFlip mem bitmap index bitmap.bitCount consecutiveBits set

theorem bitmapEntryBits_toNat : bitmapEntryBits.toNat = 2 ^ 3 := rfl

/-- A fresh bitmap has the requested number of bits and a byte for every eight of them. -/
theorem bitmapPreinit_spec {n : DWORD} {b : Bitmap} (hb : bitmapPreinit n = .ok b) :
    n ≠ 0 ∧ b.bitCount = n ∧ b.bufferSize.toNat = (n.toNat + 7) / 8 := by
  obtain ⟨_, hn, hb⟩ := bind_eq_ok.mp hb
  cases hb
  refine ⟨assertThat_eq_ok.mp hn, rfl, ?_⟩
  have hlt := n.isLt
  have hw : (n.setWidth 64 : QWORD).toNat = n.toNat := by
    rw [BitVec.toNat_setWidth]
    lia
  have hpad := alignPadding_lt n.toNat (show 0 < 8 by norm_num)
  have hdvd := dvd_add_alignPadding n.toNat (show 0 < 8 by norm_num)
  rw [BitVec.toNat_setWidth, BitVec.toNat_udiv, alignAddressUpper_toNat bitmapEntryBits_toNat, hw]
  change (n.toNat + alignPadding n.toNat 8) % 2 ^ 64 / 8 % 2 ^ 32 = _
  lia

theorem bitmapGetBitValue_eq_ok {mem : Memory} {b : Bitmap} {i : DWORD} (hbuf : b.bitmapBuffer ≠ 0)
    (hi : i < b.bitCount) :
    bitmapGetBitValue mem b i =
      .ok (mem (byteAddress b.bitmapBuffer i) &&& bitMask i == bitMask i) := by
  unfold bitmapGetBitValue bitmapGetBit
  rw [assertThat_of hi, assertThat_of hbuf]
  rfl

end HAL9000
