import HAL9000.Mmu.PeImage
import HAL9000.Lib.Tracing

/-! The functions of `pe_parser.c` on an image whose contents are not trusted, with the memory that
they read. -/
namespace HAL9000.PeParser

open Tracing Paging

inductive Status
  | invalidParameter1
  | invalidParameter2
  | invalidMzImage
  | invalidPeImage
  | invalidImageSize
  | unsupported
  deriving DecidableEq, Repr

/-- The bytes from an address on. -/
structure Range where
  address : QWORD
  size : ℕ
  deriving DecidableEq, Repr

abbrev Parsing := Traced Range Status

abbrev Memory := QWORD → BYTE

def wordAt (mem : Memory) (address : QWORD) : WORD := mem (address + 1) ++ mem address

def dwordAt (mem : Memory) (address : QWORD) : DWORD :=
  wordAt mem (address + 2) ++ wordAt mem address

def qwordAt (mem : Memory) (address : QWORD) : QWORD :=
  dwordAt mem (address + 4) ++ dwordAt mem address

def readWord (mem : Memory) (address : QWORD) : Parsing WORD :=
  .access ⟨address, 2⟩ (wordAt mem address)

def readDword (mem : Memory) (address : QWORD) : Parsing DWORD :=
  .access ⟨address, 4⟩ (dwordAt mem address)

def readQword (mem : Memory) (address : QWORD) : Parsing QWORD :=
  .access ⟨address, 8⟩ (qwordAt mem address)

def mzSignature : WORD := 0x5A4D

def ntSignature : DWORD := 0x00004550

def sizeofImageNtHeaders64 : QWORD := 264

def sizeofImageDataDirectory : QWORD := 8

def imageDirectoryEntryComDescriptor : BYTE := 14

structure PeNtHeaderInfo where
  imageBase : QWORD
  ntBase : QWORD
  addressOfEntryPoint : QWORD
  imageAlignment : DWORD
  fileAlignment : DWORD
  preferredImageBase : QWORD
  preferredAddressOfEntryPoint : QWORD
  size : DWORD
  machine : WORD
  subsystem : WORD
  sizeOfHeaders : DWORD
  numberOfSections : DWORD
  deriving DecidableEq, Repr

/-- `e_lfanew` is a signed number at offset 60. The offsets from `nt` are those of the fields of
`IMAGE_NT_HEADERS64`. -/
def peRetrieveNtHeader (mem : Memory) (imageBase : QWORD) (imageSize : DWORD) :
    Parsing PeNtHeaderInfo :=
  if imageBase = 0 then .fail .invalidParameter1
  else if imageSize = 0 then .fail .invalidParameter2
  else do
    let eMagic ← readWord mem imageBase
    if eMagic ≠ mzSignature then .fail .invalidMzImage
    else
      let eLfanew ← readDword mem (imageBase + 60)
      let nt := imageBase + eLfanew.signExtend 64
      if !checkBounds nt sizeofImageNtHeaders64 imageBase (imageSize.setWidth 64) then
        .fail .invalidImageSize
      else
        let signature ← readDword mem nt
        if signature ≠ ntSignature then .fail .invalidPeImage
        else
          let sizeOfImage ← readDword mem (nt + 80)
          let machine ← readWord mem (nt + 4)
          let subsystem ← readWord mem (nt + 92)
          let addressOfEntryPoint ← readDword mem (nt + 40)
          let sizeOfHeaders ← readDword mem (nt + 84)
          let numberOfSections ← readWord mem (nt + 6)
          let sectionAlignment ← readDword mem (nt + 56)
          let fileAlignment ← readDword mem (nt + 60)
          let preferredImageBase ← readQword mem (nt + 48)
          return {
            imageBase := imageBase
            ntBase := nt
            addressOfEntryPoint := imageBase + addressOfEntryPoint.setWidth 64
            imageAlignment := sectionAlignment
            fileAlignment := fileAlignment
            preferredImageBase := preferredImageBase
            preferredAddressOfEntryPoint := preferredImageBase + addressOfEntryPoint.setWidth 64
            size := sizeOfImage
            machine := machine
            subsystem := subsystem
            sizeOfHeaders := sizeOfHeaders
            numberOfSections := numberOfSections.setWidth 32 }

def peRetrieveSection (mem : Memory) (ntInfo : PeNtHeaderInfo) (sectionIndex : DWORD) :
    Parsing PeSectionInfo :=
  if ntInfo.numberOfSections ≤ sectionIndex then .fail .invalidParameter2
  else if imageFileMachineAmd64 ≠ ntInfo.machine then .fail .unsupported
  else do
    let sizeOfOptionalHeader ← readWord mem (ntInfo.ntBase + 20)
    let pSections := ntInfo.ntBase + sizeofDword + sizeofImageFileHeader +
      sizeOfOptionalHeader.setWidth 64
    if !checkBounds pSections (sizeofImageSectionHeader * ntInfo.numberOfSections.setWidth 64)
        ntInfo.imageBase (ntInfo.size.setWidth 64) then .fail .invalidImageSize
    else
      let header := pSections + sizeofImageSectionHeader * sectionIndex.setWidth 64
      let virtualAddress ← readDword mem (header + 12)
      let virtualSize ← readDword mem (header + 8)
      let characteristics ← readDword mem (header + 36)
      let baseAddress := ntInfo.imageBase + virtualAddress.setWidth 64
      if !checkBounds baseAddress (virtualSize.setWidth 64) ntInfo.imageBase
          (ntInfo.size.setWidth 64) then .fail .invalidImageSize
      else return ⟨baseAddress, virtualSize, characteristics⟩

structure PeDataDirectory where
  baseAddress : QWORD
  size : DWORD
  deriving DecidableEq, Repr

def peRetrieveDataDirectory (mem : Memory) (ntInfo : PeNtHeaderInfo) (dataDirectory : BYTE) :
    Parsing PeDataDirectory :=
  if imageDirectoryEntryComDescriptor < dataDirectory then .fail .invalidParameter2
  else if imageFileMachineAmd64 ≠ ntInfo.machine then .fail .unsupported
  else do
    let numberOfRvaAndSizes ← readDword mem (ntInfo.ntBase + 132)
    if numberOfRvaAndSizes ≤ dataDirectory.setWidth 32 then .fail .invalidParameter2
    else
      let pDataDirectory := ntInfo.ntBase + 136 +
        sizeofImageDataDirectory * dataDirectory.setWidth 64
      if !checkBounds pDataDirectory sizeofImageDataDirectory ntInfo.imageBase
          (ntInfo.size.setWidth 64) then .fail .invalidImageSize
      else
        let virtualAddress ← readDword mem pDataDirectory
        let size ← readDword mem (pDataDirectory + 4)
        let baseAddress := ntInfo.imageBase + virtualAddress.setWidth 64
        if !checkBounds baseAddress (size.setWidth 64) ntInfo.imageBase
            (ntInfo.size.setWidth 64) then .fail .invalidImageSize
        else return ⟨baseAddress, size⟩

/-- A buffer: it does not start at `NULL`, and the address space does not end before it. -/
structure Image where
  contents : Memory
  base : QWORD
  size : DWORD
  base_ne : base ≠ 0
  size_ne : size ≠ 0
  end_le : base.toNat + size.toNat ≤ 2 ^ 64

namespace Image

variable (image : Image)

def Inside (r : Range) : Prop :=
  image.base.toNat ≤ r.address.toNat ∧
    r.address.toNat + r.size ≤ image.base.toNat + image.size.toNat

def nt : QWORD := image.base + (dwordAt image.contents (image.base + 60)).signExtend 64

def HasMz : Prop := wordAt image.contents image.base = mzSignature

def HasPe : Prop := dwordAt image.contents image.nt = ntSignature

/-- The check that the NT headers are in the buffer. -/
def headersChecked : Bool :=
  checkBounds image.nt sizeofImageNtHeaders64 image.base (image.size.setWidth 64)

def Accepted : Prop := image.HasMz ∧ image.headersChecked = true ∧ image.HasPe

def ntInfo : PeNtHeaderInfo where
  imageBase := image.base
  ntBase := image.nt
  addressOfEntryPoint := image.base + (dwordAt image.contents (image.nt + 40)).setWidth 64
  imageAlignment := dwordAt image.contents (image.nt + 56)
  fileAlignment := dwordAt image.contents (image.nt + 60)
  preferredImageBase := qwordAt image.contents (image.nt + 48)
  preferredAddressOfEntryPoint := qwordAt image.contents (image.nt + 48) +
    (dwordAt image.contents (image.nt + 40)).setWidth 64
  size := dwordAt image.contents (image.nt + 80)
  machine := wordAt image.contents (image.nt + 4)
  subsystem := wordAt image.contents (image.nt + 92)
  sizeOfHeaders := dwordAt image.contents (image.nt + 84)
  numberOfSections := (wordAt image.contents (image.nt + 6)).setWidth 32

def IsAmd64 : Prop := wordAt image.contents (image.nt + 4) = imageFileMachineAmd64

def numberOfSections : ℕ := (wordAt image.contents (image.nt + 6)).toNat

def sizeOfOptionalHeader : WORD := wordAt image.contents (image.nt + 20)

def sizeOfImage : DWORD := dwordAt image.contents (image.nt + 80)

/-- The check that a range is in the image. -/
def rangeChecked (address : QWORD) (size : QWORD) : Bool :=
  checkBounds address size image.base (image.sizeOfImage.setWidth 64)

def sectionTable : QWORD :=
  image.nt + sizeofDword + sizeofImageFileHeader + image.sizeOfOptionalHeader.setWidth 64

def tableChecked : Bool :=
  image.rangeChecked image.sectionTable
    (sizeofImageSectionHeader * image.ntInfo.numberOfSections.setWidth 64)

def sectionHeader (i : DWORD) : QWORD :=
  image.sectionTable + sizeofImageSectionHeader * i.setWidth 64

def sectionAddress (i : DWORD) : DWORD := dwordAt image.contents (image.sectionHeader i + 12)

def sectionSize (i : DWORD) : DWORD := dwordAt image.contents (image.sectionHeader i + 8)

def sectionChecked (i : DWORD) : Bool :=
  image.rangeChecked (image.base + (image.sectionAddress i).setWidth 64)
    ((image.sectionSize i).setWidth 64)

def numberOfRvaAndSizes : DWORD := dwordAt image.contents (image.nt + 132)

def directoryEntry (i : BYTE) : QWORD :=
  image.nt + 136 + sizeofImageDataDirectory * i.setWidth 64

def HasDirectory (i : BYTE) : Prop :=
  i ≤ imageDirectoryEntryComDescriptor ∧ i.setWidth 32 < image.numberOfRvaAndSizes ∧
    image.rangeChecked (image.directoryEntry i) sizeofImageDataDirectory = true

def directoryAddress (i : BYTE) : DWORD := dwordAt image.contents (image.directoryEntry i)

def directorySize (i : BYTE) : DWORD := dwordAt image.contents (image.directoryEntry i + 4)

def directoryChecked (i : BYTE) : Bool :=
  image.rangeChecked (image.base + (image.directoryAddress i).setWidth 64)
    ((image.directorySize i).setWidth 64)

/-- The functions read nothing outside the buffer, and the ranges that they report are in it. -/
structure StaysInBuffer : Prop where
  header : (peRetrieveNtHeader image.contents image.base image.size).Within image.Inside
  sections : ∀ info,
    (peRetrieveNtHeader image.contents image.base image.size).result = .ok info →
    ∀ i, (peRetrieveSection image.contents info i).Within image.Inside ∧
      ∀ sec, (peRetrieveSection image.contents info i).result = .ok sec →
        image.Inside ⟨sec.baseAddress, sec.size.toNat⟩
  directories : ∀ info,
    (peRetrieveNtHeader image.contents image.base image.size).result = .ok info →
    ∀ i, (peRetrieveDataDirectory image.contents info i).Within image.Inside ∧
      ∀ dir, (peRetrieveDataDirectory image.contents info i).result = .ok dir →
        image.Inside ⟨dir.baseAddress, dir.size.toNat⟩

/-- The buffer goes on for `n` bytes from the NT headers on. -/
def Reaches (n : ℕ) : Prop := image.nt.toNat + n ≤ image.base.toNat + image.size.toNat

/-- The buffer is large enough for the headers, and for the tables and ranges that pass a check
against the size that the image gives itself. -/
structure Fits : Prop where
  magic : 2 ≤ image.size.toNat
  dosHeader : image.HasMz → 64 ≤ image.size.toNat
  signature : image.HasMz → image.headersChecked = true → image.Reaches 4
  headers : image.Accepted → image.Reaches 94
  optionalHeader : image.Accepted → image.IsAmd64 → image.Reaches 136
  sectionTable : image.Accepted → image.IsAmd64 → 0 < image.numberOfSections →
    image.tableChecked = true →
    image.Reaches (24 + image.sizeOfOptionalHeader.toNat + 40 * image.numberOfSections)
  sections : image.Accepted → image.IsAmd64 → image.tableChecked = true →
    ∀ i : DWORD, i.toNat < image.numberOfSections → image.sectionChecked i = true →
    (image.sectionAddress i).toNat + (image.sectionSize i).toNat ≤ image.size.toNat
  directoryTable : image.Accepted → image.IsAmd64 → ∀ i, image.HasDirectory i →
    image.Reaches (136 + 8 * i.toNat + 8)
  directories : image.Accepted → image.IsAmd64 → ∀ i, image.HasDirectory i →
    image.directoryChecked i = true →
    (image.directoryAddress i).toNat + (image.directorySize i).toNat ≤ image.size.toNat

end Image

section Header

variable {image : Image}

theorem peRetrieveNtHeader_ok {info : PeNtHeaderInfo} :
    (peRetrieveNtHeader image.contents image.base image.size).result = .ok info ↔
      image.Accepted ∧ info = image.ntInfo := by
  rw [peRetrieveNtHeader, if_neg image.base_ne, if_neg image.size_ne]
  simp only [readWord, readDword, readQword, Traced.result_access_bind, Traced.result_ite_fail,
    Traced.result_pure, Except.ok.injEq, ne_eq, not_not, Bool.not_eq_true', Bool.not_eq_false]
  rw [Image.Accepted, and_assoc, and_assoc, eq_comm (a := info)]
  rfl

theorem peRetrieveNtHeader_within :
    Traced.Within image.Inside (peRetrieveNtHeader image.contents image.base image.size) ↔
      image.Inside ⟨image.base, 2⟩ ∧ (image.HasMz → image.Inside ⟨image.base + 60, 4⟩ ∧
        (image.headersChecked = true → image.Inside ⟨image.nt, 4⟩ ∧ (image.HasPe →
          image.Inside ⟨image.nt + 80, 4⟩ ∧ image.Inside ⟨image.nt + 4, 2⟩ ∧
          image.Inside ⟨image.nt + 92, 2⟩ ∧ image.Inside ⟨image.nt + 40, 4⟩ ∧
          image.Inside ⟨image.nt + 84, 4⟩ ∧ image.Inside ⟨image.nt + 6, 2⟩ ∧
          image.Inside ⟨image.nt + 56, 4⟩ ∧ image.Inside ⟨image.nt + 60, 4⟩ ∧
          image.Inside ⟨image.nt + 48, 8⟩))) := by
  rw [peRetrieveNtHeader, if_neg image.base_ne, if_neg image.size_ne]
  simp only [readWord, readDword, readQword, Traced.within_access_bind, Traced.within_ite,
    Traced.within_fail, Traced.within_pure, and_true, imp_true_iff, true_and, ne_eq, not_not, Bool.not_eq_true', Bool.not_eq_false]
  rfl

end Header

section Tables

variable {image : Image}

private theorem section_index (i : DWORD) :
    ¬ image.ntInfo.numberOfSections ≤ i ↔ i.toNat < image.numberOfSections := by
  rw [BitVec.le_def, not_le]
  simp only [Image.ntInfo, Image.numberOfSections, BitVec.toNat_setWidth]
  rw [Nat.mod_eq_of_lt (by omega)]

theorem peRetrieveSection_within (i : DWORD) :
    (peRetrieveSection image.contents image.ntInfo i).Within image.Inside ↔
      (i.toNat < image.numberOfSections → image.IsAmd64 → image.Inside ⟨image.nt + 20, 2⟩ ∧
        (image.tableChecked = true → image.Inside ⟨image.sectionHeader i + 12, 4⟩ ∧
          image.Inside ⟨image.sectionHeader i + 8, 4⟩ ∧
          image.Inside ⟨image.sectionHeader i + 36, 4⟩)) := by
  rw [peRetrieveSection]
  simp only [readWord, readDword, Traced.within_access_bind, Traced.within_ite,
    Traced.within_fail, Traced.within_pure, and_true, imp_true_iff, true_and, ne_eq, not_not,
    Bool.not_eq_true', Bool.not_eq_false, section_index]
  refine imp_congr_right fun _ => ?_
  rw [eq_comm]
  rfl

theorem peRetrieveSection_ok {i : DWORD} {sec : PeSectionInfo} :
    (peRetrieveSection image.contents image.ntInfo i).result = .ok sec ↔
      i.toNat < image.numberOfSections ∧ image.IsAmd64 ∧ image.tableChecked = true ∧
        image.sectionChecked i = true ∧
        sec = ⟨image.base + (image.sectionAddress i).setWidth 64, image.sectionSize i,
          dwordAt image.contents (image.sectionHeader i + 36)⟩ := by
  rw [peRetrieveSection]
  simp only [readWord, readDword, Traced.result_access_bind, Traced.result_ite_fail,
    Traced.result_pure, Except.ok.injEq, ne_eq, not_not, Bool.not_eq_true', Bool.not_eq_false,
    section_index]
  rw [eq_comm (a := imageFileMachineAmd64), eq_comm (b := sec)]
  rfl

theorem peRetrieveDataDirectory_within (i : BYTE) :
    (peRetrieveDataDirectory image.contents image.ntInfo i).Within image.Inside ↔
      (i ≤ imageDirectoryEntryComDescriptor → image.IsAmd64 → image.Inside ⟨image.nt + 132, 4⟩ ∧
        (i.setWidth 32 < image.numberOfRvaAndSizes →
          image.rangeChecked (image.directoryEntry i) sizeofImageDataDirectory = true →
          image.Inside ⟨image.directoryEntry i, 4⟩ ∧
            image.Inside ⟨image.directoryEntry i + 4, 4⟩)) := by
  rw [peRetrieveDataDirectory]
  simp only [readDword, Traced.within_access_bind, Traced.within_ite,
    Traced.within_fail, Traced.within_pure, and_true, imp_true_iff, true_and, ne_eq, not_not,
    Bool.not_eq_true', Bool.not_eq_false, BitVec.not_lt, BitVec.not_le]
  refine imp_congr_right fun _ => ?_
  rw [eq_comm]
  rfl

theorem peRetrieveDataDirectory_ok {i : BYTE} {dir : PeDataDirectory} :
    (peRetrieveDataDirectory image.contents image.ntInfo i).result = .ok dir ↔
      i ≤ imageDirectoryEntryComDescriptor ∧ image.IsAmd64 ∧
        i.setWidth 32 < image.numberOfRvaAndSizes ∧
        image.rangeChecked (image.directoryEntry i) sizeofImageDataDirectory = true ∧
        image.directoryChecked i = true ∧
        dir = ⟨image.base + (image.directoryAddress i).setWidth 64, image.directorySize i⟩ := by
  rw [peRetrieveDataDirectory]
  simp only [readDword, Traced.result_access_bind, Traced.result_ite_fail,
    Traced.result_pure, Except.ok.injEq, ne_eq, not_not, Bool.not_eq_true', Bool.not_eq_false,
    BitVec.not_lt, BitVec.not_le]
  rw [eq_comm (a := imageFileMachineAmd64), eq_comm (b := dir)]
  rfl

end Tables

/-- What `_MmuMapPeInMemory` takes from a parsed image. -/
def PeNtHeaderInfo.mapped (mem : Memory) (info : PeNtHeaderInfo) : Paging.PeNtHeaderInfo where
  imageBase := info.imageBase
  ntBase := info.ntBase
  imageAlignment := info.imageAlignment
  fileAlignment := info.fileAlignment
  size := info.size
  machine := info.machine
  sizeOfHeaders := info.sizeOfHeaders
  numberOfSections := info.numberOfSections
  sizeOfOptionalHeader := wordAt mem (info.ntBase + 20)
  sections i :=
    let header := info.ntBase + sizeofDword + sizeofImageFileHeader +
      (wordAt mem (info.ntBase + 20)).setWidth 64 + sizeofImageSectionHeader * BitVec.ofNat 64 i
    ⟨dwordAt mem (header + 12), dwordAt mem (header + 8), dwordAt mem (header + 36)⟩

/-- `PeRetrieveSection` as `_MmuMapPeInMemory` uses it. -/
theorem peRetrieveSection_mapped (mem : Memory) (info : PeNtHeaderInfo) (i : DWORD) :
    (peRetrieveSection mem info i).result.toOption =
      (Paging.peRetrieveSection (info.mapped mem) i.toNat).toOption := by
  have hindex : (BitVec.ofNat 64 i.toNat : QWORD) = i.setWidth 64 := BitVec.ofNat_toNat ..
  rw [peRetrieveSection, Paging.peRetrieveSection]
  by_cases hi : info.numberOfSections ≤ i
  · rw [if_pos hi, if_pos (show (info.mapped mem).numberOfSections.toNat ≤ _ from hi)]
    rfl
  rw [if_neg hi, if_neg (show ¬ (info.mapped mem).numberOfSections.toNat ≤ _ from hi)]
  by_cases hamd : imageFileMachineAmd64 ≠ info.machine
  · rw [if_pos hamd, if_pos (show (info.mapped mem).machine ≠ _ from hamd.symm)]
    rfl
  rw [if_neg hamd, if_neg (show ¬ (info.mapped mem).machine ≠ _ from fun h => hamd h.symm)]
  simp only [PeNtHeaderInfo.mapped, hindex, readWord, readDword, Traced.result_access_bind]
  by_cases htable : checkBounds (info.ntBase + sizeofDword + sizeofImageFileHeader +
      (wordAt mem (info.ntBase + 20)).setWidth 64) (sizeofImageSectionHeader *
        info.numberOfSections.setWidth 64) info.imageBase (info.size.setWidth 64) = true
  · simp only [htable, Bool.not_true, Bool.false_eq_true, if_false, Traced.result_access_bind]
    split <;> rfl
  · simp only [htable, Bool.not_false, if_true]
    rfl

section Bounds

variable {image : Image}

theorem base_le_of_checked {address size base : QWORD} {limit : QWORD}
    (h : checkBounds address size base limit = true) : base.toNat ≤ address.toNat :=
  (checkBounds_eq_true.mp h).1

/-- The start of the buffer. -/
theorem inside_base (off : QWORD) {k : ℕ} (hk : 0 < k) (hoff : off.toNat < 2 ^ 31) :
    image.Inside ⟨image.base + off, k⟩ ↔ off.toNat + k ≤ image.size.toNat := by
  have hend := image.end_le
  have hbase := image.base.isLt
  simp only [Image.Inside, BitVec.toNat_add]
  lia

/-- A field behind the start of the headers, once four bytes of those are in the buffer. -/
theorem inside_field (off : QWORD) {k : ℕ} (hnt : image.base.toNat ≤ image.nt.toNat)
    (hreach : image.Reaches 4) (hk : 0 < k) (hoff : off.toNat < 2 ^ 31) :
    image.Inside ⟨image.nt + off, k⟩ ↔ image.Reaches (off.toNat + k) := by
  have hend := image.end_le
  have hbase := image.base.isLt
  have hlt := image.nt.isLt
  simp only [Image.Inside, Image.Reaches, BitVec.toNat_add] at hreach ⊢
  omega

/-- A range that passed a check. -/
theorem inside_range {address size : DWORD} (h : image.rangeChecked
    (image.base + address.setWidth 64) (size.setWidth 64) = true) :
    image.Inside ⟨image.base + address.setWidth 64, size.toNat⟩ ↔
      address.toNat + size.toNat ≤ image.size.toNat := by
  have hle := base_le_of_checked h
  have hbase := image.base.isLt
  have haddress := address.isLt
  simp only [Image.Inside, BitVec.toNat_add, BitVec.toNat_setWidth] at hle ⊢
  lia

theorem Image.Reaches.mono {m n : ℕ} (h : image.Reaches n) (hmn : m ≤ n) : image.Reaches m := by
  rw [Image.Reaches] at h ⊢
  omega

theorem nt_ge (h : image.headersChecked = true) : image.base.toNat ≤ image.nt.toNat :=
  base_le_of_checked h

theorem inside_nt (h : image.headersChecked = true) {k : ℕ} :
    image.Inside ⟨image.nt, k⟩ ↔ image.Reaches k :=
  and_iff_right (nt_ge h)

/-- The fields that `PeRetrieveNtHeader` reads. -/
theorem header_inside_iff : (peRetrieveNtHeader image.contents image.base image.size).Within
    image.Inside ↔ 2 ≤ image.size.toNat ∧ (image.HasMz → 64 ≤ image.size.toNat) ∧
      (image.HasMz → image.headersChecked = true → image.Reaches 4) ∧
      (image.Accepted → image.Reaches 94) := by
  have hmagic : image.Inside ⟨image.base, 2⟩ ↔ 2 ≤ image.size.toNat := by
    simp only [Image.Inside]
    omega
  have hlfanew : image.Inside ⟨image.base + 60, 4⟩ ↔ 64 ≤ image.size.toNat :=
    inside_base 60 (by omega) (by decide)
  rw [peRetrieveNtHeader_within, hmagic, hlfanew]
  refine and_congr_right fun _ => ⟨fun h => ?_, fun h hmz => ?_⟩
  · refine ⟨fun hmz => (h hmz).1, fun hmz hc => (inside_nt hc).mp ((h hmz).2 hc).1, fun hacc => ?_⟩
    obtain ⟨hmz, hc, hpe⟩ := hacc
    have hsignature := (inside_nt hc).mp ((h hmz).2 hc).1
    have hsubsystem := (((h hmz).2 hc).2 hpe).2.2.1
    exact (inside_field 92 (nt_ge hc) hsignature (by omega) (by decide)).mp hsubsystem
  · obtain ⟨hdos, hsignature, hheaders⟩ := h
    refine ⟨hdos hmz, fun hc => ⟨(inside_nt hc).mpr (hsignature hmz hc), fun hpe => ?_⟩⟩
    have hreach := hheaders ⟨hmz, hc, hpe⟩
    have hfield : ∀ (off : QWORD) (k : ℕ), 0 < k → off.toNat + k ≤ 94 →
        image.Inside ⟨image.nt + off, k⟩ := fun off k hk hle =>
      (inside_field off (nt_ge hc) (hsignature hmz hc) hk (by omega)).mpr (hreach.mono hle)
    exact ⟨hfield 80 4 (by omega) (by decide), hfield 4 2 (by omega) (by decide),
      hfield 92 2 (by omega) (by decide), hfield 40 4 (by omega) (by decide),
      hfield 84 4 (by omega) (by decide), hfield 6 2 (by omega) (by decide),
      hfield 56 4 (by omega) (by decide), hfield 60 4 (by omega) (by decide),
      hfield 48 8 (by omega) (by decide)⟩

theorem numberOfSections_lt : image.numberOfSections < 2 ^ 16 := BitVec.isLt _

private theorem inside_sectionField {i : DWORD} (off : QWORD) {k : ℕ}
    (hnt : image.base.toNat ≤ image.nt.toNat) (hreach : image.Reaches 4)
    (hi : i.toNat < image.numberOfSections) (hoff : off.toNat < 40) (hk : 0 < k) :
    image.Inside ⟨image.sectionHeader i + off, k⟩ ↔ image.Reaches
      (24 + image.sizeOfOptionalHeader.toNat + 40 * i.toNat + off.toNat + k) := by
  have hn := @numberOfSections_lt image
  have hsize := image.sizeOfOptionalHeader.isLt
  have hoffset : (sizeofDword + sizeofImageFileHeader +
      image.sizeOfOptionalHeader.setWidth 64 + sizeofImageSectionHeader * i.setWidth 64 +
      off).toNat = 24 + image.sizeOfOptionalHeader.toNat + 40 * i.toNat + off.toNat := by
    simp only [BitVec.toNat_add, BitVec.toNat_mul, BitVec.toNat_setWidth, sizeofDword,
      sizeofImageFileHeader, sizeofImageSectionHeader, BitVec.reduceToNat]
    lia
  have hsplit : image.sectionHeader i + off = image.nt + (sizeofDword + sizeofImageFileHeader +
      image.sizeOfOptionalHeader.setWidth 64 + sizeofImageSectionHeader * i.setWidth 64 + off) := by
    simp only [Image.sectionHeader, Image.sectionTable, BitVec.add_assoc]
  rw [hsplit, inside_field _ hnt hreach hk (by lia), hoffset]

/-- The section headers that `PeRetrieveSection` reads, for all indices. -/
theorem sections_inside_iff (hacc : image.Accepted) (hamd : image.IsAmd64)
    (hreach : image.Reaches 94) :
    (∀ i, (peRetrieveSection image.contents image.ntInfo i).Within image.Inside) ↔
      (0 < image.numberOfSections → image.tableChecked = true →
        image.Reaches (24 + image.sizeOfOptionalHeader.toNat + 40 * image.numberOfSections)) := by
  have hnt := nt_ge hacc.2.1
  have hreach' := hreach.mono (show 4 ≤ 94 by omega)
  have hn := @numberOfSections_lt image
  simp only [peRetrieveSection_within]
  refine ⟨fun h hpos htable => ?_, fun h i hi _ => ⟨?_, fun htable => ?_⟩⟩
  · have hlast : (BitVec.ofNat 32 (image.numberOfSections - 1)).toNat =
        image.numberOfSections - 1 := by
      rw [BitVec.toNat_ofNat]
      omega
    have hi : (BitVec.ofNat 32 (image.numberOfSections - 1)).toNat < image.numberOfSections := by
      omega
    have hread := ((h _ hi hamd).2 htable).2.2
    rw [inside_sectionField 36 hnt hreach' hi (by decide) (by omega), hlast] at hread
    refine hread.mono ?_
    have h36 : (36 : QWORD).toNat = 36 := rfl
    omega
  · exact (inside_field 20 hnt hreach' (by omega) (by decide)).mpr (hreach.mono (by decide))
  · have htable := h (Nat.zero_lt_of_lt hi) htable
    have hfield : ∀ off : QWORD, off.toNat ≤ 36 →
        image.Inside ⟨image.sectionHeader i + off, 4⟩ := fun off hoff =>
      (inside_sectionField off hnt hreach' hi (by omega) (by omega)).mpr (htable.mono (by lia))
    exact ⟨hfield 12 (by decide), hfield 8 (by decide), hfield 36 (by decide)⟩

/-- The entries that `PeRetrieveDataDirectory` reads, for all directories. -/
theorem directories_inside_iff (hacc : image.Accepted) (hamd : image.IsAmd64)
    (hreach : image.Reaches 94) :
    (∀ i, (peRetrieveDataDirectory image.contents image.ntInfo i).Within image.Inside) ↔
      image.Reaches 136 ∧ ∀ i, image.HasDirectory i → image.Reaches (136 + 8 * i.toNat + 8) := by
  have hnt := nt_ge hacc.2.1
  have hreach' := hreach.mono (show 4 ≤ 94 by omega)
  have hcount : image.Inside ⟨image.nt + 132, 4⟩ ↔ image.Reaches 136 :=
    inside_field 132 hnt hreach' (by omega) (by decide)
  have hentry : ∀ (i : BYTE) (off : QWORD), off.toNat ≤ 4 →
      (image.Inside ⟨image.directoryEntry i + off, 4⟩ ↔
        image.Reaches (136 + 8 * i.toNat + off.toNat + 4)) := by
    intro i off hoff
    have hi := i.isLt
    have hoffset : (136 + sizeofImageDataDirectory * i.setWidth 64 + off : QWORD).toNat =
        136 + 8 * i.toNat + off.toNat := by
      simp only [BitVec.toNat_add, BitVec.toNat_mul, BitVec.toNat_setWidth,
        sizeofImageDataDirectory, BitVec.reduceToNat]
      lia
    have hsplit : image.directoryEntry i + off =
        image.nt + (136 + sizeofImageDataDirectory * i.setWidth 64 + off) := by
      simp only [Image.directoryEntry, BitVec.add_assoc]
    rw [hsplit, inside_field _ hnt hreach' (by omega) (by lia), hoffset]
  simp only [peRetrieveDataDirectory_within, hcount]
  refine ⟨fun h => ⟨?_, fun i hi => ?_⟩, fun h i hi _ => ⟨h.1, fun hlt hchecked => ?_⟩⟩
  · exact (h 0 (by decide) hamd).1
  · obtain ⟨hle, hlt, hchecked⟩ := hi
    exact ((hentry i 4 (by decide)).mp (((h i hle hamd).2 hlt hchecked).2)).mono (by
      have h4 : (4 : QWORD).toNat = 4 := rfl
      omega)
  · have hreach'' := h.2 i ⟨hi, hlt, hchecked⟩
    have hfirst := (hentry i 0 (by decide)).mpr (hreach''.mono (by
      have h0 : (0 : QWORD).toNat = 0 := rfl
      omega))
    rw [show image.directoryEntry i + 0 = image.directoryEntry i from BitVec.add_zero _] at hfirst
    exact ⟨hfirst, (hentry i 4 (by decide)).mpr (hreach''.mono (by
      have h4 : (4 : QWORD).toNat = 4 := rfl
      omega))⟩

/-- The parser stays in the buffer exactly when the buffer has room for all that the image makes
it read and report. -/
theorem staysInBuffer_iff (image : Image) : image.StaysInBuffer ↔ image.Fits := by
  constructor
  · intro h
    obtain ⟨hmagic, hdos, hsignature, hheaders⟩ := header_inside_iff.mp h.header
    have hok : image.Accepted →
        (peRetrieveNtHeader image.contents image.base image.size).result = .ok image.ntInfo :=
      fun hacc => peRetrieveNtHeader_ok.mpr ⟨hacc, rfl⟩
    have hdirectories := fun hacc (hamd : image.IsAmd64) =>
      (directories_inside_iff hacc hamd (hheaders hacc)).mp
        fun i => (h.directories _ (hok hacc) i).1
    have hsections := fun hacc (hamd : image.IsAmd64) =>
      (sections_inside_iff hacc hamd (hheaders hacc)).mp fun i => (h.sections _ (hok hacc) i).1
    refine ⟨hmagic, hdos, hsignature, hheaders, fun hacc hamd => (hdirectories hacc hamd).1,
      hsections, fun hacc hamd htable i hi hchecked => ?_,
      fun hacc hamd => (hdirectories hacc hamd).2, fun hacc hamd i hi hchecked => ?_⟩
    · exact (inside_range hchecked).mp ((h.sections _ (hok hacc) i).2 _
        (peRetrieveSection_ok.mpr ⟨hi, hamd, htable, hchecked, rfl⟩))
    · obtain ⟨hle, hlt, hentry⟩ := hi
      exact (inside_range hchecked).mp ((h.directories _ (hok hacc) i).2 _
        (peRetrieveDataDirectory_ok.mpr ⟨hle, hamd, hlt, hentry, hchecked, rfl⟩))
  · intro h
    refine ⟨header_inside_iff.mpr ⟨h.magic, h.dosHeader, h.signature, h.headers⟩,
      fun info hinfo => ?_, fun info hinfo => ?_⟩
    · obtain ⟨hacc, rfl⟩ := peRetrieveNtHeader_ok.mp hinfo
      refine fun i => ⟨?_, fun sec hsec => ?_⟩
      · by_cases hamd : image.IsAmd64
        · exact (sections_inside_iff hacc hamd (h.headers hacc)).mpr (h.sectionTable hacc hamd) i
        · exact (peRetrieveSection_within i).mpr fun _ hamd' => absurd hamd' hamd
      · obtain ⟨hi, hamd, htable, hchecked, rfl⟩ := peRetrieveSection_ok.mp hsec
        exact (inside_range hchecked).mpr (h.sections hacc hamd htable i hi hchecked)
    · obtain ⟨hacc, rfl⟩ := peRetrieveNtHeader_ok.mp hinfo
      refine fun i => ⟨?_, fun dir hdir => ?_⟩
      · by_cases hamd : image.IsAmd64
        · exact (directories_inside_iff hacc hamd (h.headers hacc)).mpr
            ⟨h.optionalHeader hacc hamd, h.directoryTable hacc hamd⟩ i
        · exact (peRetrieveDataDirectory_within i).mpr fun _ hamd' => absurd hamd' hamd
      · obtain ⟨hle, hamd, hlt, hentry, hchecked, rfl⟩ := peRetrieveDataDirectory_ok.mp hdir
        exact (inside_range hchecked).mpr (h.directories hacc hamd i ⟨hle, hlt, hentry⟩ hchecked)

private theorem le_of_checked {address size base limit : QWORD}
    (h : checkBounds address size base limit = true)
    (haddress : address.toNat + size.toNat < 2 ^ 64) (hbase : base.toNat + limit.toNat < 2 ^ 64) :
    address.toNat + size.toNat ≤ base.toNat + limit.toNat := by
  rw [checkBounds_eq_true, BitVec.toNat_add, BitVec.toNat_add, Nat.mod_eq_of_lt haddress,
    Nat.mod_eq_of_lt hbase] at h
  exact h.2

/-- Away from both ends of the address space the check of the headers does not wrap. -/
theorem reaches_of_checked (hlow : 2 ^ 31 ≤ image.base.toNat)
    (hhigh : image.base.toNat + 2 ^ 34 ≤ 2 ^ 64) (h : image.headersChecked = true) :
    image.nt.toNat < image.base.toNat + 2 ^ 31 ∧ image.Reaches 264 := by
  have hge := nt_ge h
  have hsize := image.size.isLt
  have hnt : image.nt.toNat < image.base.toNat + 2 ^ 31 := by
    have hmsb := BitVec.msb_eq_decide (dwordAt image.contents (image.base + 60))
    have hlt := (dwordAt image.contents (image.base + 60)).isLt
    rw [Image.nt, BitVec.toNat_add, BitVec.toNat_signExtend, BitVec.toNat_setWidth, hmsb] at hge ⊢
    split_ifs at hge ⊢ with hsign
    · rw [decide_eq_true_eq] at hsign
      lia
    · rw [decide_eq_true_eq] at hsign
      lia
  refine ⟨hnt, ?_⟩
  have h264 : sizeofImageNtHeaders64.toNat = 264 := rfl
  have hle := le_of_checked h (by omega) (by rw [BitVec.toNat_setWidth]; lia)
  rw [BitVec.toNat_setWidth, Nat.mod_eq_of_lt (by omega)] at hle
  rw [Image.Reaches]
  omega

/-- The image is safe when at least as much of it was loaded as it says it needs, which callers
have to check. -/
theorem fits_of_loaded (hlow : 2 ^ 31 ≤ image.base.toNat)
    (hhigh : image.base.toNat + 2 ^ 34 ≤ 2 ^ 64) (hsize : 64 ≤ image.size.toNat)
    (hloaded : image.Accepted → image.sizeOfImage.toNat ≤ image.size.toNat) : image.Fits := by
  have hlimit := image.size.isLt
  have hreach := fun hc => (reaches_of_checked hlow hhigh hc).2
  have hrange : image.Accepted → ∀ va vs : DWORD,
      image.rangeChecked (image.base + va.setWidth 64) (vs.setWidth 64) = true →
      va.toNat + vs.toNat ≤ image.size.toNat := by
    intro hacc va vs hchecked
    have hva := va.isLt
    have hvs := vs.isLt
    have hle := hloaded hacc
    have hsum : (image.base + va.setWidth 64).toNat = image.base.toNat + va.toNat := by
      rw [BitVec.toNat_add, BitVec.toNat_setWidth]
      lia
    have hend := le_of_checked hchecked (by rw [hsum, BitVec.toNat_setWidth]; lia)
      (by rw [BitVec.toNat_setWidth]; lia)
    rw [hsum, BitVec.toNat_setWidth, BitVec.toNat_setWidth] at hend
    lia
  refine ⟨by omega, fun _ => hsize, fun _ hc => (hreach hc).mono (by omega),
    fun hacc => (hreach hacc.2.1).mono (by omega), fun hacc _ => (hreach hacc.2.1).mono (by omega),
    fun hacc _ _ htable => ?_, fun hacc _ _ i _ hchecked => hrange hacc _ _ hchecked,
    fun hacc _ i hi => ?_, fun hacc _ i _ hchecked => hrange hacc _ _ hchecked⟩
  · have hnt := (reaches_of_checked hlow hhigh hacc.2.1).1
    have hn := @numberOfSections_lt image
    have hoptional := image.sizeOfOptionalHeader.isLt
    have hle := hloaded hacc
    have htotal : (sizeofImageSectionHeader * image.ntInfo.numberOfSections.setWidth 64).toNat =
        40 * image.numberOfSections := by
      have hword := (wordAt image.contents (image.nt + 6)).isLt
      simp only [Image.ntInfo, Image.numberOfSections, BitVec.toNat_mul, BitVec.toNat_setWidth,
        sizeofImageSectionHeader, BitVec.reduceToNat]
      simp (disch := omega) only [Nat.mod_eq_of_lt]
    have hstart : image.sectionTable.toNat =
        image.nt.toNat + 24 + image.sizeOfOptionalHeader.toNat := by
      simp only [Image.sectionTable, BitVec.toNat_add, BitVec.toNat_setWidth, sizeofDword,
        sizeofImageFileHeader, BitVec.reduceToNat]
      lia
    have hend := le_of_checked htable (by lia) (by rw [BitVec.toNat_setWidth]; lia)
    rw [htotal, hstart, BitVec.toNat_setWidth] at hend
    rw [Image.Reaches]
    lia
  · refine (hreach hacc.2.1).mono ?_
    have hle : i.toNat ≤ 14 := hi.1
    omega

/-- A file of two bytes: `e_lfanew` is read behind its end. -/
def twoByteFile : Image where
  contents address := if address = 0x10000 then 0x4D else if address = 0x10001 then 0x5A else 0
  base := 0x10000
  size := 2
  base_ne := by decide
  size_ne := by decide
  end_le := by decide

theorem not_staysInBuffer_twoByteFile : ¬ ∀ image : Image, image.StaysInBuffer := by
  intro h
  have hmz : wordAt twoByteFile.contents twoByteFile.base = mzSignature := by decide
  have hlfanew := (peRetrieveNtHeader_within.mp (h twoByteFile).header).2 hmz
  exact absurd hlfanew.1.2 (by decide)

end Bounds

end HAL9000.PeParser
