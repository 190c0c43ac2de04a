import HAL9000.CommonLib.PrintingText
import HAL9000.CommonLib.Tokens
import HAL9000.Io.Irp

/-! The command line of a process, `_ProcessParseCommandLine` of `process.c`. -/
namespace HAL9000.Process

open Strings
open HAL9000.Io (STATUS succeeded statusHeapInsufficientResources)

/-- What `_ProcessParseCommandLine` reads and sets. -/
structure ProcessArguments where
  processName : ZString
  fullCommandLine : Option Chars
  numberOfArguments : DWORD

/-- The two formats of the call of `snprintf`. -/
def commandLineFormat (commandLine : Option ZString) : ZString :=
  if commandLine.isSome then ⟨[0x25, 0x73, 0x20, 0x25, 0x73], by decide⟩ else ⟨[0x25, 0x73], by decide⟩

/-- The size of the allocation. -/
def fullCmdLineSize (processName : ZString) : Option ZString → Except PrintFault DWORD
  | none => do return (← clStrlen (some processName.chars)) + 0 + 1
  | some commandLine => do
    let nameLength ← clStrlen (some processName.chars)
    return nameLength + ((← clStrlen (some commandLine.chars)) + 1) + 1

/-- The arguments without the process name. -/
def countArguments : Option ZString → Except PrintFault DWORD
  | some commandLine => liftFault (clStrcelem (some commandLine.chars) 0x20)
  | none => .ok 0

/-- `_ProcessParseCommandLine` with the outcome of the allocation. Both strings are passed to `snprintf`
for either format. -/
def processParseCommandLine (fuel : ℕ) (allocated : Bool) (process : ProcessArguments)
    (commandLine : Option ZString) : Except PrintFault (STATUS × ProcessArguments) := do
  let size ← fullCmdLineSize process.processName commandLine
  if ¬allocated then return (statusHeapInsufficientResources, process)
  let (exit, v) ← clVsnprintf fuel (some fun _ => 0) size (some (commandLineFormat commandLine))
    [.string (some process.processName), .string commandLine]
  if ¬succeeded exit.status then return (exit.status, process)
  let noOfArgs ← countArguments commandLine
  liftFault (assertThat (noOfArgs ≠ maxDword))
  return (exit.status, { process with
    fullCommandLine := v.map Vars.output
    numberOfArguments := noOfArgs + 1 })

/-! ### The full command line -/

def formatPieces : Option ZString → List Piece
  | some _ => [.conversion [] .text, .literal 0x20 ⟨by decide, by decide⟩, .conversion [] .text]
  | none => [.conversion [] .text]

/-- What is printed: the name, and the command line behind a space. -/
def fullChars (processName : ZString) : Option ZString → List BYTE
  | some commandLine => processName.chars ++ 0x20 :: commandLine.chars
  | none => processName.chars

section Printed

variable {processName : ZString} {commandLine : Option ZString}

theorem length_fullChars_none : (fullChars processName none).length = processName.chars.length := rfl

theorem length_fullChars_some {str : ZString} : (fullChars processName (some str)).length =
    processName.chars.length + (str.chars.length + 1) := by
  unfold fullChars
  rw [List.length_append, List.length_cons]

theorem commandLineFormat_eq : commandLineFormat commandLine = formatString (formatPieces commandLine) := by
  cases commandLine <;> rfl

theorem padded_nil (text : List BYTE) : padded [] text = text := by
  have hwidth : widthValue [] - text.length = 0 := Nat.zero_sub _
  unfold padded
  rw [hwidth]
  rfl

theorem renderWith_formatPieces :
    renderWith Conversion.printed (formatPieces commandLine)
      [.string (some processName), .string commandLine] = some (fullChars processName commandLine) := by
  have htext : ∀ str : ZString, Conversion.printed .text (.string (some str)) = some str.chars := fun _ => rfl
  cases commandLine with
  | none =>
    unfold formatPieces fullChars
    simp only [renderWith, htext, padded_nil, bind, Option.bind, pure, List.append_nil]
  | some commandLine =>
    unfold formatPieces fullChars
    simp only [renderWith, htext, padded_nil, bind, Option.bind, pure, List.append_nil, Option.map]

theorem clStrlen_chars {str : List BYTE} {len : DWORD} (h : clStrlen (some str) = .ok len) :
    len.toNat = str.length := by
  unfold clStrlen at h
  dsimp only at h
  by_cases hlt : str.length < 2 ^ 32
  · rw [if_pos hlt] at h
    cases h
    exact ofNat_toNat_of_lt hlt
  · rw [if_neg hlt] at h
    cases h

theorem zero_notMem_fullChars : 0 ∉ fullChars processName commandLine := by
  cases commandLine with
  | none => exact processName.zero_notMem
  | some commandLine =>
    intro hmem
    rcases List.mem_append.mp hmem with hname | hmem
    · exact processName.zero_notMem hname
    · rcases List.mem_cons.mp hmem with hspace | hline
      · exact absurd hspace (by decide)
      · exact commandLine.zero_notMem hline

/-- The size wraps. -/
theorem fullCmdLineSize_toNat {size : DWORD} (h : fullCmdLineSize processName commandLine = .ok size) :
    processName.chars.length < 2 ^ 32 ∧ (∀ str, commandLine = some str → str.chars.length < 2 ^ 32) ∧
      size.toNat = ((fullChars processName commandLine).length + 1) % 2 ^ 32 := by
  cases commandLine with
  | none =>
    obtain ⟨nameLength, hname, h⟩ := printBind_eq_ok.mp h
    cases h
    have hlen := clStrlen_chars hname
    have hlt := nameLength.isLt
    refine ⟨by omega, fun _ h => (nomatch h), ?_⟩
    rw [length_fullChars_none, BitVec.toNat_add, BitVec.toNat_add, hlen]
    simp
  | some commandLine =>
    obtain ⟨nameLength, hname, h⟩ := printBind_eq_ok.mp h
    obtain ⟨length, hline, h⟩ := printBind_eq_ok.mp h
    cases h
    have hlen := clStrlen_chars hname
    have hlen' := clStrlen_chars hline
    have hlt := nameLength.isLt
    have hlt' := length.isLt
    refine ⟨by omega, fun str hstr => ?_, ?_⟩
    · cases hstr
      omega
    · have hone : (1 : DWORD).toNat = 1 := rfl
      rw [length_fullChars_some, BitVec.toNat_add, BitVec.toNat_add, BitVec.toNat_add, hlen,
        hlen', hone]
      lia

theorem clStrlen_of_lt {str : List BYTE} (h : str.length < 2 ^ 32) :
    clStrlen (some str) = .ok (BitVec.ofNat 32 str.length) := if_pos h

theorem fullCmdLineSize_of_lt (h : (fullChars processName commandLine).length + 1 < 2 ^ 32) :
    ∃ size, fullCmdLineSize processName commandLine = .ok size := by
  cases commandLine with
  | none =>
    rw [length_fullChars_none] at h
    exact ⟨_, printBind_eq_ok.mpr ⟨_, clStrlen_of_lt (by omega), rfl⟩⟩
  | some commandLine =>
    rw [length_fullChars_some] at h
    exact ⟨_, printBind_eq_ok.mpr ⟨_, clStrlen_of_lt (by omega),
      printBind_eq_ok.mpr ⟨_, clStrlen_of_lt (by omega), rfl⟩⟩⟩

theorem done_of_succeeded {e : Exit} (h : succeeded e.status = true) : ∃ n, e = .done n := by
  cases e with
  | done n => exact ⟨n, rfl⟩
  | bufferTooSmall => exact absurd h (by decide)
  | parseFailed => exact absurd h (by decide)
  | invalidParameter1 => exact absurd h (by decide)
  | invalidParameter2 => exact absurd h (by decide)
  | invalidParameter3 => exact absurd h (by decide)

/-- The call of `snprintf` with a size that is not zero. -/
theorem clVsnprintf_format {size : DWORD} (hsize : size ≠ 0) (fuel : ℕ) (output : Chars)
    (args : List Argument) :
    clVsnprintf fuel (some output) size (some (commandLineFormat commandLine)) args =
      printLoop size (spell (formatPieces commandLine)) fuel (.start output args) >>= fun r =>
        .ok (r.1, some r.2) := by
  rw [commandLineFormat_eq]
  exact if_neg hsize

/-- The loop ends well exactly if there is room for the full command line, which it then leaves in the
buffer. -/
theorem format_loop {size : DWORD} (hsize : size ≠ 0) (output : Chars) :
    ((fullChars processName commandLine).length < size.toNat → ∃ w,
      printLoop size (spell (formatPieces commandLine)) ((formatPieces commandLine).length + 1)
        (.start output [.string (some processName), .string commandLine]) =
          .ok (.done (1 + BitVec.ofNat 32 (conversions (formatPieces commandLine)) - 1), w)) ∧
    ∀ fuel n w, printLoop size (spell (formatPieces commandLine)) fuel
        (.start output [.string (some processName), .string commandLine]) = .ok (.done n, w) →
      (fullChars processName commandLine).length < size.toNat ∧
        ∀ i ≤ (fullChars processName commandLine).length,
          w.output i = charAt (fullChars processName commandLine) i := by
  have hpos : 0 < size.toNat := Nat.pos_of_ne_zero fun h => hsize (BitVec.eq_of_toNat_eq h)
  have hlen : (spell (formatPieces commandLine)).length < 2 ^ 32 := by
    cases commandLine <;> simp [formatPieces, spell, Piece.chars]
  have hwidths : Widths (formatPieces commandLine) := by
    cases commandLine <;> simp [formatPieces, Widths, widthValue, widthFrom]
  obtain ⟨hdone, hmust⟩ := @printLoop_pieces size _ hlen (formatPieces commandLine)
    (.start output [.string (some processName), .string commandLine]) _ rfl hwidths
    renderWith_formatPieces hpos
  rw [show (Vars.start output [.string (some processName), .string commandLine]).outBufferOffset.toNat = 0
    from rfl] at hdone hmust
  rw [Nat.zero_add] at hdone hmust
  refine ⟨hdone, fun fuel n w hrun => ?_⟩
  obtain ⟨hfits, hput⟩ := hmust fuel n w hrun
  refine ⟨hfits, fun i hi => ?_⟩
  rw [hput]
  exact put_start hi

end Printed

section Parsing

variable {process process' : ProcessArguments} {commandLine : Option ZString} {fuel : ℕ}
  {allocated : Bool} {status : STATUS}

/-- A call that succeeds. -/
theorem parse_succeeded
    (hrun : processParseCommandLine fuel allocated process commandLine = .ok (status, process'))
    (hok : succeeded status = true) :
    (fullChars process.processName commandLine).length + 1 < 2 ^ 32 ∧ ∃ buffer noOfArgs,
      process'.fullCommandLine = some buffer ∧
      (∀ i ≤ (fullChars process.processName commandLine).length,
        buffer i = charAt (fullChars process.processName commandLine) i) ∧
      countArguments commandLine = .ok noOfArgs ∧ process'.numberOfArguments = noOfArgs + 1 := by
  obtain ⟨size, hsize, hrun⟩ := printBind_eq_ok.mp hrun
  obtain ⟨-, -, hnat⟩ := fullCmdLineSize_toNat hsize
  cases allocated with
  | false =>
    cases hrun
    exact absurd hok (by decide)
  | true =>
    obtain ⟨⟨e, v⟩, hprint, hrun⟩ := printBind_eq_ok.mp hrun
    dsimp only at hrun
    by_cases he : succeeded e.status = true
    · rw [if_neg (not_not.mpr he)] at hrun
      obtain ⟨n, rfl⟩ := done_of_succeeded he
      obtain ⟨noOfArgs, hcount, hrun⟩ := printBind_eq_ok.mp hrun
      obtain ⟨-, -, hrun⟩ := printBind_eq_ok.mp hrun
      cases hrun
      by_cases hzero : size = 0
      · rw [hzero] at hprint
        cases hprint
      · rw [clVsnprintf_format hzero] at hprint
        obtain ⟨⟨e, w⟩, hloop, hprint⟩ := printBind_eq_ok.mp hprint
        cases hprint
        obtain ⟨hfits, hbuffer⟩ := (format_loop hzero _).2 fuel n w hloop
        exact ⟨by lia, w.output, noOfArgs, rfl, hbuffer, hcount, rfl⟩
    · rw [if_pos he] at hrun
      cases hrun
      exact absurd hok he

/-- The number that is counted. -/
def argumentCount : Option ZString → ℕ
  | some commandLine => (leading (commandLine.chars.splitOn 0x20)).length + 1
  | none => 0

theorem argumentCount_some {str : ZString} :
    argumentCount (some str) = (leading (str.chars.splitOn 0x20)).length + 1 := rfl

theorem argumentCount_le :
    argumentCount commandLine ≤ (fullChars process.processName commandLine).length := by
  cases commandLine with
  | none => exact Nat.zero_le _
  | some commandLine =>
    have hle := length_leading_le commandLine.chars 0x20
    rw [argumentCount_some, length_fullChars_some]
    omega

theorem countArguments_eq (h : (fullChars process.processName commandLine).length + 1 < 2 ^ 32) :
    ∃ noOfArgs, countArguments commandLine = .ok noOfArgs ∧ noOfArgs.toNat = argumentCount commandLine := by
  have hle := @argumentCount_le process commandLine
  cases commandLine with
  | none => exact ⟨0, rfl, rfl⟩
  | some commandLine =>
    rw [length_fullChars_some] at h hle
    rw [argumentCount_some] at hle
    refine ⟨_, congrArg liftFault (clStrcelem_eq (by decide) commandLine.zero_notMem (by omega)), ?_⟩
    exact ofNat_toNat_of_lt (by omega)

/-- The call succeeds if the allocation does and the size of the buffer is a `DWORD`. -/
theorem processParseCommandLine_succeeds
    (h : (fullChars process.processName commandLine).length + 1 < 2 ^ 32) : ∃ status process',
      processParseCommandLine ((formatPieces commandLine).length + 1) true process commandLine =
        .ok (status, process') ∧ succeeded status = true := by
  obtain ⟨size, hsize⟩ := fullCmdLineSize_of_lt h
  obtain ⟨-, -, hnat⟩ := fullCmdLineSize_toNat hsize
  have hzero : size ≠ 0 := by
    rintro rfl
    change 0 = _ at hnat
    omega
  obtain ⟨w, hloop⟩ := (@format_loop process.processName commandLine size hzero fun _ => 0).1 (by lia)
  obtain ⟨noOfArgs, hcount, hnumber⟩ := countArguments_eq h
  have hle := @argumentCount_le process commandLine
  have hmax : noOfArgs ≠ maxDword := by
    rintro rfl
    change 2 ^ 32 - 1 = _ at hnumber
    omega
  have hok : succeeded (Exit.done (1 + BitVec.ofNat 32 (conversions (formatPieces commandLine)) - 1)).status =
      true := by
    cases commandLine with
    | none => decide
    | some commandLine => exact (by decide : succeeded (Exit.done (1 + BitVec.ofNat 32 2 - 1)).status = true)
  refine ⟨_, _, printBind_eq_ok.mpr ⟨size, hsize,
    printBind_eq_ok.mpr ⟨(_, some w), ?_, (if_neg (not_not.mpr hok)).trans
      (printBind_eq_ok.mpr ⟨noOfArgs, hcount, printBind_eq_ok.mpr ⟨(), ?_, rfl⟩⟩)⟩⟩, hok⟩
  · rw [clVsnprintf_format hzero]
    exact printBind_eq_ok.mpr ⟨_, hloop, rfl⟩
  · rw [assertThat_of hmax]
    rfl

/-- `NumberOfArguments` is the number of tokens of `FullCommandLine`. -/
def CountsTokens (process : ProcessArguments) : Prop :=
  ∃ buffer full found, process.fullCommandLine = some buffer ∧ 0 ∉ full ∧
    (∀ i ≤ full.length, buffer i = charAt full i) ∧ tokens [0x20] full = .ok found ∧
    process.numberOfArguments.toNat = found.length

/-- Words with one space between them, the same with two spaces behind them, or one space alone; without a
command line the name is not empty. -/
def SpacedOnce (processName : ZString) : Option ZString → Prop
  | some commandLine => SinglySpaced (commandLine.chars.splitOn 0x20)
  | none => processName.chars ≠ []

/-- The buffer holds one string. -/
theorem eq_of_buffer {buffer : Chars} {a b : List BYTE} (ha : 0 ∉ a) (hb : 0 ∉ b)
    (hbuffer : ∀ i ≤ a.length, buffer i = charAt a i) (hbuffer' : ∀ i ≤ b.length, buffer i = charAt b i) :
    a = b := by
  have hle : ∀ {a b : List BYTE}, 0 ∉ b → (∀ i ≤ a.length, buffer i = charAt a i) →
      (∀ i ≤ b.length, buffer i = charAt b i) → b.length ≤ a.length := by
    intro a b hb hbuffer hbuffer'
    by_contra hlt
    have hend := hbuffer a.length le_rfl
    rw [charAt_of_ge le_rfl, hbuffer' a.length (by omega)] at hend
    exact (charAt_ne_zero_iff hb).mpr (by omega) hend
  have hlen : a.length = b.length := le_antisymm (hle ha hbuffer' hbuffer) (hle hb hbuffer hbuffer')
  refine ext_charAt hlen fun i hi => ?_
  rw [← hbuffer i hi.le, hbuffer' i (by omega)]

/-- The name and the pieces of the command line. -/
def fullTokens (processName : ZString) : Option ZString → List (List BYTE)
  | some commandLine => processName.chars :: withoutLastEmpty (commandLine.chars.splitOn 0x20)
  | none => withoutLastEmpty [processName.chars]

theorem tokens_fullChars (hname : 0x20 ∉ process.processName.chars)
    (h : (fullChars process.processName commandLine).length + 1 < 2 ^ 32) :
    tokens [0x20] (fullChars process.processName commandLine) =
      .ok (fullTokens process.processName commandLine) := by
  rw [tokens_eq zero_notMem_fullChars (by omega)]
  cases commandLine with
  | none =>
    unfold fullChars fullTokens
    rw [List.splitOn_eq_singleton hname]
  | some commandLine =>
    unfold fullChars fullTokens
    rw [List.splitOn_append_cons_self_of_not_mem hname, withoutLastEmpty_cons (List.splitOn_ne_nil _ _)]

/-- The two counts agree exactly if the words are spaced once. -/
theorem argumentCount_eq_iff (processName : ZString) :
    argumentCount commandLine + 1 = (fullTokens processName commandLine).length ↔
      SpacedOnce processName commandLine := by
  cases commandLine with
  | none =>
    unfold SpacedOnce argumentCount fullTokens withoutLastEmpty
    by_cases hempty : processName.chars = []
    · simp [hempty]
    · simp [hempty]
  | some commandLine =>
    change _ + 1 + 1 = (withoutLastEmpty (commandLine.chars.splitOn 0x20)).length + 1 ↔
      SinglySpaced (commandLine.chars.splitOn 0x20)
    rw [← length_withoutLastEmpty_iff (List.splitOn_ne_nil _ _), Nat.add_right_cancel_iff]
    exact eq_comm

/-- What a call that succeeds leaves is compared with the tokens. -/
theorem countsTokens_iff_count (hname : 0x20 ∉ process.processName.chars)
    (hrun : processParseCommandLine fuel allocated process commandLine = .ok (status, process'))
    (hok : succeeded status = true) :
    CountsTokens process' ↔
      argumentCount commandLine + 1 = (fullTokens process.processName commandLine).length := by
  obtain ⟨hlen, buffer, noOfArgs, hfull, hbuffer, hcount, hnumber⟩ := parse_succeeded hrun hok
  obtain ⟨noOfArgs', hcount', hnat⟩ := countArguments_eq hlen
  rw [hcount] at hcount'
  cases hcount'
  have hle := @argumentCount_le process commandLine
  have htokens := tokens_fullChars hname hlen
  have hnat' : process'.numberOfArguments.toNat = argumentCount commandLine + 1 := by
    have hone : (1 : DWORD).toNat = 1 := rfl
    rw [hnumber, BitVec.toNat_add, hnat, hone]
    exact Nat.mod_eq_of_lt (by omega)
  rw [← hnat']
  constructor
  · rintro ⟨buffer', full, found, hfull', hzero, hbuffer', hfound, heq⟩
    rw [hfull] at hfull'
    cases hfull'
    rw [← eq_of_buffer zero_notMem_fullChars hzero hbuffer hbuffer', htokens] at hfound
    cases hfound
    exact heq
  · intro heq
    exact ⟨buffer, _, _, hfull, zero_notMem_fullChars, hbuffer, htokens, heq⟩

/-- The number of arguments is the number of tokens exactly if the words are spaced once. -/
theorem countsTokens_iff (hname : 0x20 ∉ process.processName.chars)
    (hrun : processParseCommandLine fuel allocated process commandLine = .ok (status, process'))
    (hok : succeeded status = true) :
    CountsTokens process' ↔ SpacedOnce process.processName commandLine := by
  rw [countsTokens_iff_count hname hrun hok]
  exact argumentCount_eq_iff process.processName

def justNamed : ProcessArguments := ⟨⟨[0x70], by decide⟩, none, 0⟩

theorem countsTokens_iff_twoWords : ∃ status process',
    processParseCommandLine 4 true justNamed (some ⟨[0x61, 0x20, 0x62], by decide⟩) =
      .ok (status, process') ∧ CountsTokens process' := by
  have hshort : (fullChars justNamed.processName (some ⟨[0x61, 0x20, 0x62], by decide⟩)).length + 1 <
      2 ^ 32 := by decide
  obtain ⟨status, process', hrun, hok⟩ := processParseCommandLine_succeeds hshort
  exact ⟨status, process', hrun, (countsTokens_iff (by decide) hrun hok).mpr (Or.inl (by decide))⟩

theorem not_countsTokens : ¬ ∀ (fuel : ℕ) (allocated : Bool) (process process' : ProcessArguments)
    (commandLine : ZString) (status : STATUS), 0x20 ∉ process.processName.chars →
    processParseCommandLine fuel allocated process (some commandLine) = .ok (status, process') →
    succeeded status = true → CountsTokens process' := by
  intro hall
  have hshort : (fullChars justNamed.processName (some ⟨[0x61, 0x20], by decide⟩)).length + 1 < 2 ^ 32 := by
    decide
  obtain ⟨status, process', hrun, hok⟩ := processParseCommandLine_succeeds hshort
  have hname : 0x20 ∉ justNamed.processName.chars := by decide
  have hcount := (countsTokens_iff_count hname hrun hok).mp (hall _ _ _ _ _ _ hname hrun hok)
  exact absurd hcount (by decide)

end Parsing

end HAL9000.Process
