import HAL9000.Fat32.Utils
import Mathlib.Data.List.DropRight

/-! The names and dates of directory entries (`fat_utils.c`). A long name is collected in a buffer from
the entries before the one it belongs to. -/
namespace HAL9000.Fat32

abbrev Name := List BYTE

/-- The characters before the first `'\0'`. -/
def cString (chars : List BYTE) : Name := chars.takeWhile (· ≠ 0)

def longNameMaxChars : ℕ := 255

/-- A buffer of `LONG_NAME_MAX_CHARS + 1` characters. -/
abbrev NameBuffer := Fin 256 → BYTE

def NameBuffer.empty : NameBuffer := fun _ => 0

def NameBuffer.name (buffer : NameBuffer) : Name := cString (List.ofFn buffer)

/-- The name is reset, the characters after the first are left. -/
def NameBuffer.reset (buffer : NameBuffer) : NameBuffer := Function.update buffer 0 0

/-- The low bytes of the 13 characters of a long entry, which overlay the fields of a short one. -/
def DirEntry.longNameChars (e : DirEntry) : List BYTE :=
  [e.name 1, e.name 3, e.name 5, e.name 7, e.name 9, e.crtTime.setWidth 8, e.crtDate.setWidth 8,
    e.lstAccDate.setWidth 8, e.fstClusHI.setWidth 8, e.wrtTime.setWidth 8, e.wrtDate.setWidth 8,
    e.fileSize.setWidth 8, (e.fileSize >>> 16).setWidth 8]

/-- The characters are written one by one; the callers assert that they fit. -/
def writeChars : Name → ℕ → NameBuffer → Except Fault (ℕ × NameBuffer)
  | [], index, buffer => .ok (index, buffer)
  | c :: chars, index, buffer =>
    if h : index < longNameMaxChars then
      writeChars chars (index + 1) (Function.update buffer ⟨index, Nat.lt_succ_of_lt h⟩ c)
    else .error .assertFailed

def longNameOrdEndMask : BYTE := 0x40

def longNameTotalChars : DWORD := 13

/-- The end of the name is written without a check of its index. -/
def writePartialLongFatNameToName (e : DirEntry) (buffer : NameBuffer) : Except Fault NameBuffer := do
  let entryOrdinal := (e.name 0 &&& ~~~longNameOrdEndMask).setWidth 32 - 1
  let (index, buffer) ←
    writeChars (cString e.longNameChars) (longNameTotalChars * entryOrdinal).toNat buffer
  if e.name 0 &&& longNameOrdEndMask = longNameOrdEndMask then
    if h : index < 256 then return Function.update buffer ⟨index, h⟩ 0
    else .error .danglingAccess
  else return buffer

def space : BYTE := 0x20
def dot : BYTE := 0x2E

/-- The short name and its length; the extension counts with what follows a `'\0'` in it. -/
def convertFatNameToName (e : DirEntry) : Name × ℕ :=
  let chars := List.ofFn e.name
  let normalName := cString ((chars.take 8).rdropWhile (· = space))
  let extName := (chars.drop 8).takeWhile (· ≠ space)
  if extName = [] then (normalName, normalName.length)
  else (normalName ++ dot :: cString extName, normalName.length + extName.length + 1)

/-- `stricmp` finds no difference; `tolower` sets a bit of every character. -/
def equalsIgnoreCase (str₁ str₂ : Name) : Bool := str₁.map (· ||| 0x20) = str₂.map (· ||| 0x20)

/-- `strncpy` of a name to the start of the buffer. -/
def NameBuffer.copy (buffer : NameBuffer) (src : Name) (length : ℕ) : NameBuffer := fun i =>
  if i < min length src.length then src.getD i 0
  else if i = min length src.length then 0
  else buffer i

def isFatDate (date : WORD) : Bool :=
  let day := date &&& 0x1F
  let month := (date >>> 5) &&& 0xF
  1 ≤ day ∧ 1 ≤ month ∧ month ≤ 12

def isFatTime (time : WORD) : Bool :=
  time &&& 0x1F ≤ 29 ∧ (time >>> 5) &&& 0x3F ≤ 59 ∧ time >>> 11 ≤ 23

/-- The dates of the entry can be converted, or are not looked at. -/
def DirEntry.hasDates (e : DirEntry) : Bool :=
  e.attr &&& attrVolumeId = attrVolumeId ∨
    (isFatDate e.crtDate ∧ isFatTime e.crtTime) ∧ isFatDate e.wrtDate ∧ isFatTime e.wrtTime

end HAL9000.Fat32
