import HAL9000.CommonLib.CaseFolding
import HAL9000.CommonLib.Tokens
import HAL9000.Console.Display
import Mathlib.Data.List.Nodup

/-! The command lines of `cmd_interpreter.c`. Every blank ends a word, so that a blank behind `/` or behind
another blank counts as an empty word. -/
namespace HAL9000.Console

open Strings

def cmdMaxArgs : ℕ := 10

inductive CommandFunction
  | cmdResetSystem
  | cmdShutdownSystem
  | cmdLogSetState
  | cmdSetLogLevel
  | cmdSetLogComponents
  | cmdClearScreen
  | cmdPrintVolumeInformation
  | cmdReadFile
  | cmdWriteFile
  | cmdStatFile
  | cmdMakeDirectory
  | cmdMakeFile
  | cmdListDirectory
  | cmdSwap
  | cmdListCpus
  | cmdListCpuInterrupts
  | cmdYield
  | cmdTestTimer
  | cmdListThreads
  | cmdRunTest
  | cmdListProcesses
  | cmdProcessDump
  | cmdStartProcess
  | cmdTestProcess
  | cmdDisplaySysInfo
  | cmdGetIdle
  | cmdSetIdle
  | cmdRdmsr
  | cmdWrmsr
  | cmdCheckAd
  | cmdSpawnThreads
  | cmdCpuid
  | cmdSendIpi
  | cmdListNetworks
  | cmdNetRecv
  | cmdNetSend
  | cmdChangeDevStatus
  | cmdRunAllFunctionalTests
  | cmdRunAllPerformanceTests
  | cmdInfiniteRecursion
  | cmdRtcFail
  | cmdRangeFail
  | cmdBiteCookie
  | cmdPrintHelp
  deriving DecidableEq, Repr

structure CommandDefinition where
  commandName : String
  commandFunction : CommandFunction
  minParameters : QWORD
  maxParameters : QWORD

/-- `COMMANDS`. -/
def commands : List CommandDefinition :=
  [⟨"reset", .cmdResetSystem, 0, 0⟩,
   ⟨"shutdown", .cmdShutdownSystem, 0, 0⟩,
   ⟨"log", .cmdLogSetState, 1, 1⟩,
   ⟨"loglevel", .cmdSetLogLevel, 1, 1⟩,
   ⟨"logcomp", .cmdSetLogComponents, 1, 1⟩,
   ⟨"cls", .cmdClearScreen, 0, 0⟩,
   ⟨"vol", .cmdPrintVolumeInformation, 0, 0⟩,
   ⟨"less", .cmdReadFile, 1, 2⟩,
   ⟨"fwrite", .cmdWriteFile, 1, 4⟩,
   ⟨"stat", .cmdStatFile, 1, 1⟩,
   ⟨"mkdir", .cmdMakeDirectory, 1, 1⟩,
   ⟨"touch", .cmdMakeFile, 1, 1⟩,
   ⟨"ls", .cmdListDirectory, 1, 2⟩,
   ⟨"swap", .cmdSwap, 1, 2⟩,
   ⟨"cpu", .cmdListCpus, 0, 0⟩,
   ⟨"int", .cmdListCpuInterrupts, 0, 0⟩,
   ⟨"yield", .cmdYield, 0, 0⟩,
   ⟨"timer", .cmdTestTimer, 1, 3⟩,
   ⟨"threads", .cmdListThreads, 0, 0⟩,
   ⟨"run", .cmdRunTest, 1, 2⟩,
   ⟨"processes", .cmdListProcesses, 0, 0⟩,
   ⟨"procstat", .cmdProcessDump, 1, 1⟩,
   ⟨"procstart", .cmdStartProcess, 1, 1⟩,
   ⟨"proctest", .cmdTestProcess, 1, 1⟩,
   ⟨"sysinfo", .cmdDisplaySysInfo, 0, 0⟩,
   ⟨"getidle", .cmdGetIdle, 0, 0⟩,
   ⟨"setidle", .cmdSetIdle, 1, 1⟩,
   ⟨"rdmsr", .cmdRdmsr, 1, 1⟩,
   ⟨"wrmsr", .cmdWrmsr, 2, 2⟩,
   ⟨"chkad", .cmdCheckAd, 0, 0⟩,
   ⟨"spawn", .cmdSpawnThreads, 2, 2⟩,
   ⟨"cpuid", .cmdCpuid, 0, 2⟩,
   ⟨"ipi", .cmdSendIpi, 1, 3⟩,
   ⟨"networks", .cmdListNetworks, 0, 0⟩,
   ⟨"netrecv", .cmdNetRecv, 0, 1⟩,
   ⟨"netsend", .cmdNetSend, 0, 0⟩,
   ⟨"netstatus", .cmdChangeDevStatus, 3, 3⟩,
   ⟨"tests", .cmdRunAllFunctionalTests, 0, 0⟩,
   ⟨"perf", .cmdRunAllPerformanceTests, 0, 0⟩,
   ⟨"recursion", .cmdInfiniteRecursion, 0, 0⟩,
   ⟨"rtcfail", .cmdRtcFail, 0, 0⟩,
   ⟨"rangefail", .cmdRangeFail, 0, 0⟩,
   ⟨"bitecookie", .cmdBiteCookie, 0, 0⟩,
   ⟨"help", .cmdPrintHelp, 0, 0⟩]

def chars (s : String) : List BYTE := s.toList.map fun c => BitVec.ofNat 8 c.toNat

/-- A call of a handler; the arguments behind the parameters are `NULL`. -/
structure HandlerCall where
  function : CommandFunction
  numberOfParameters : QWORD
  parameters : List (List BYTE)
  deriving DecidableEq, Repr

/-- `_CmdPrintHelp(0)`. -/
def helpCall : HandlerCall := ⟨.cmdPrintHelp, 0, []⟩

section Code

/-- `stricmp` of two strings that are there. -/
def stricmp (a b : List BYTE) : Except Fault ℤ := strcmpLoop tolower a b (2 ^ 32) 0

def InRange (c : CommandDefinition) (noOfParameters : QWORD) : Prop :=
  c.minParameters ≤ noOfParameters ∧ noOfParameters ≤ c.maxParameters

instance (c : CommandDefinition) (noOfParameters : QWORD) : Decidable (InRange c noOfParameters) :=
  inferInstanceAs (Decidable (_ ∧ _))

/-- The loop over the commands: whether a command was found, and the handlers called. -/
def commandLoop (pCommand : List BYTE) (noOfParameters : QWORD) (parameters : List (List BYTE)) :
    List CommandDefinition → Bool → Except Fault (Bool × List HandlerCall)
  | [], bFoundCommand => .ok (bFoundCommand, [])
  | c :: rest, bFoundCommand => do
    if (← stricmp pCommand (chars c.commandName)) = 0 then
      if InRange c noOfParameters then
        return (true, [⟨c.commandFunction, noOfParameters, parameters⟩])
      else commandLoop pCommand noOfParameters parameters rest true
    else commandLoop pCommand noOfParameters parameters rest bFoundCommand

/-- What is returned, and the handlers called. -/
def execCmd (argc : DWORD) (argv : List (List BYTE)) : Except Fault (Bool × List HandlerCall) := do
  assertThat (1 ≤ argc ∧ argc ≤ BitVec.ofNat 32 cmdMaxArgs)
  match argv with
  | [] => .error .assertFailed
  | pCommand :: parameters =>
    let noOfParameters := argc - 1
    if (← stricmp pCommand (chars "exit")) = 0 then return (true, [])
    let (bFoundCommand, calls) ← commandLoop pCommand (noOfParameters.setWidth 64) parameters commands false
    return (false, if bFoundCommand then calls else calls ++ [helpCall])

/-- The loop that fills `pCmdArgs`. -/
def collectArgs (strToken : List BYTE) : ℕ → DWORD → Option (List BYTE) → Except Fault (List (List BYTE))
  | 0, _, _ => .error .outOfFuel
  | fuel + 1, argIndex, context => do
    match ← clStrtokS (some strToken) (some [0x20]) context with
    | none => return []
    | some (pCurArg, context) =>
      assertThat (argIndex < BitVec.ofNat 32 cmdMaxArgs)
      return pCurArg :: (← collectArgs strToken fuel (argIndex + 1) (some context))

def cmdExecLine (CommandLine : List BYTE) (Length : DWORD) : Except Fault (Bool × List HandlerCall) := do
  if charAt CommandLine 0 = 0x2F then
    if Length ≤ 1 then return (false, [])
    let pCmdArgs ← collectArgs (CommandLine.drop 1) (CommandLine.length + 1) 0 none
    execCmd (BitVec.ofNat 32 pCmdArgs.length) pCmdArgs
  else return (false, [])

end Code

/-! ### Lines and their words -/

/-- What the line is cut into at its blanks; an empty piece at the end does not count. -/
def pieces (line : List BYTE) : List (List BYTE) := withoutLastEmpty ((line.drop 1).splitOn 0x20)

def words (line : List BYTE) : List (List BYTE) := ((line.drop 1).splitOn 0x20).filter (· ≠ [])

/-- A number of words behind the first one that a command is declared for. -/
def Accepts (c : CommandDefinition) (n : ℕ) : Prop :=
  c.minParameters.toNat ≤ n ∧ n ≤ c.maxParameters.toNat

instance (c : CommandDefinition) (n : ℕ) : Decidable (Accepts c n) := inferInstanceAs (Decidable (_ ∧ _))

def Names (word : List BYTE) (c : CommandDefinition) : Prop := EqualIgnoringCase word (chars c.commandName)

/-- The calls that a command line asks for. -/
def asked (c : CommandDefinition) (parameters : List (List BYTE)) : List HandlerCall :=
  if Accepts c parameters.length
  then [⟨c.commandFunction, BitVec.ofNat 64 parameters.length, parameters⟩] else []

/-- No assertion fails. If the first word names a command, its handler is called exactly if the number of
the other words is in its range, and with these words; else no handler but that of the help is called. -/
def ExecutesLine (line : Text) : Prop :=
  ∃ exit calls, cmdExecLine line.chars (BitVec.ofNat 32 line.chars.length) = .ok (exit, calls) ∧
    (charAt line.chars 0 = 0x2F → ∀ word parameters, words line.chars = word :: parameters →
      (∀ c ∈ commands, Names word c → calls = asked c parameters) ∧
      ((∀ c ∈ commands, ¬Names word c) → ∀ call ∈ calls, call = helpCall))

/-- Exactly the lines that are executed right. A line has at most ten pieces, and none of them is empty
unless that makes no difference: the first word names no command, or neither the number of words nor that of
pieces is accepted, or it is only `help` behind blanks. -/
def ExecutedLine (line : List BYTE) : Prop :=
  charAt line 0 = 0x2F → line.length ≤ 1 ∨ (pieces line).length ≤ cmdMaxArgs ∧
    ∀ word parameters, words line = word :: parameters → ∀ c ∈ commands, Names word c →
      pieces line = words line ∨
      (∃ others, pieces line = word :: others ∧ ¬Accepts c parameters.length ∧ ¬Accepts c others.length) ∨
      (pieces line).head? = some [] ∧ c.commandFunction = .cmdPrintHelp ∧ parameters = []

/-! ### Names of commands -/

def isLower (c : BYTE) : Prop := 0x61 ≤ c.toNat ∧ c.toNat ≤ 0x7A

instance (c : BYTE) : Decidable (isLower c) := inferInstanceAs (Decidable (_ ∧ _))

theorem commands_lower : ∀ c ∈ commands, ∀ x ∈ chars c.commandName, isLower x := by
  have hall : commands.all (fun c => (chars c.commandName).all fun x =>
      Nat.ble 0x61 x.toNat && Nat.ble x.toNat 0x7A) = true := by
    decide +kernel
  intro c hc x hx
  have hx' := List.all_eq_true.mp (List.all_eq_true.mp hall c hc) x hx
  rw [Bool.and_eq_true, Nat.ble_eq, Nat.ble_eq] at hx'
  exact hx'

/-- The characters of a name as the digits of one number. -/
def nameCode (name : List BYTE) : ℕ := name.foldl (fun n x => 256 * n + x.toNat) 0

def distinct : List ℕ → Bool
  | [] => true
  | x :: xs => !(xs.any (Nat.beq x)) && distinct xs

theorem nodup_of_distinct {l : List ℕ} (h : distinct l = true) : l.Nodup := by
  induction l with
  | nil => exact List.nodup_nil
  | cons x xs ih =>
    simp only [distinct, Bool.and_eq_true, Bool.not_eq_true', List.any_eq_false] at h
    exact List.nodup_cons.mpr ⟨fun hmem => h.1 x hmem (Nat.beq_refl x), ih h.2⟩

theorem commands_nodup : (commands.map fun c => chars c.commandName).Nodup := by
  have hdistinct : distinct ((commands.map fun c => chars c.commandName).map nameCode) = true := by
    decide +kernel
  exact List.Nodup.of_map nameCode (nodup_of_distinct hdistinct)

theorem commands_ne_nil : ∀ c ∈ commands, chars c.commandName ≠ [] := by
  decide +kernel

theorem help_accepts : ∀ c ∈ commands, c.commandFunction = .cmdPrintHelp → Accepts c 0 := by
  decide +kernel

theorem exit_lower : ∀ x ∈ chars "exit", isLower x := by
  decide +kernel

section Comparison

variable {a b : List BYTE}

theorem tolower_of_lower : ∀ x : BYTE, isLower x → tolower x = x := by
  decide

theorem sameLetter_tolower : ∀ x : BYTE, isLower (tolower x) → SameLetter x (tolower x) := by
  decide

theorem charAt_mem {i : ℕ} (h : charAt b i ≠ 0) : charAt b i ∈ b := by
  have hlt : i < b.length := by
    by_contra hge
    exact h (charAt_of_ge (Nat.le_of_not_lt hge))
  rw [charAt, List.getD_eq_getElem _ _ hlt]
  exact List.getElem_mem hlt

/-- With a name of lower case letters the comparison is exact. -/
theorem stricmp_lower (ha : 0 ∉ a) (hlen : a.length < 2 ^ 32) (hb : ∀ x ∈ b, isLower x) :
    ∃ r, stricmp a b = .ok r ∧ (r = 0 ↔ EqualIgnoringCase a b) := by
  have hb0 : 0 ∉ b := fun hmem => absurd (hb 0 hmem) (by decide)
  refine (comparesExactly_iff ⟨a, ha⟩ ⟨b, hb0⟩).mpr ?_
  by_cases hdiffer : ∃ i < 2 ^ 32, DifferAt tolower a b i
  · exact .inl hdiffer
  refine .inr ⟨hlen, fun i hi hclash => ?_⟩
  have hai : charAt a i ≠ 0 := (charAt_ne_zero_iff ha).mpr hi
  have hagree : AgreeAt tolower a b i := by
    by_contra hnot
    have hlt : a.length < 2 ^ 32 := hlen
    exact hdiffer ⟨i, hi.trans hlt, fun hend => hai hend.1, hnot⟩
  have hlower := hb _ (charAt_mem hagree.2.1)
  have hsame : tolower (charAt a i) = charAt b i := by
    rw [hagree.2.2, tolower_of_lower _ hlower]
  refine hclash.2 ?_
  change SameLetter (charAt a i) (charAt b i)
  rw [← hsame]
  exact sameLetter_tolower _ (hsame ▸ hlower)

theorem equalIgnoringCase_iff (hb : ∀ x ∈ b, isLower x) : EqualIgnoringCase a b ↔ a.map tolower = b := by
  constructor
  · rintro ⟨hlength, hsame⟩
    refine List.ext_getElem (by rw [List.length_map, hlength]) fun i hi hi' => ?_
    rw [List.length_map] at hi
    have hletter := (hsame i hi).tolower_eq
    rw [charAt, charAt, List.getD_eq_getElem _ _ hi, List.getD_eq_getElem _ _ hi',
      tolower_of_lower _ (hb _ (List.getElem_mem hi'))] at hletter
    rw [List.getElem_map, hletter]
  · rintro rfl
    refine ⟨by rw [List.length_map], fun i hi => ?_⟩
    have hi' : i < (a.map tolower).length := by rwa [List.length_map]
    rw [charAt, charAt, List.getD_eq_getElem _ _ hi, List.getD_eq_getElem _ _ hi', List.getElem_map]
    refine sameLetter_tolower _ (hb _ ?_)
    exact List.mem_map_of_mem (List.getElem_mem hi)

end Comparison

/-! ### Dispatch -/

/-- The command that a word names. -/
def commandNamed (word : List BYTE) (cs : List CommandDefinition) : Option CommandDefinition :=
  cs.find? fun c => word.map tolower = chars c.commandName

/-- The handlers called for the pieces of a line. -/
def dispatched : List (List BYTE) → List HandlerCall
  | [] => []
  | word :: parameters =>
    if word.map tolower = chars "exit" then []
    else match commandNamed word commands with
      | none => [helpCall]
      | some c => asked c parameters

section Dispatch

variable {word : List BYTE} {parameters : List (List BYTE)} {cs : List CommandDefinition}

theorem commandNamed_eq_some (hlower : ∀ c ∈ cs, ∀ x ∈ chars c.commandName, isLower x)
    (hnodup : (cs.map fun c => chars c.commandName).Nodup) {c : CommandDefinition} (hc : c ∈ cs)
    (hname : Names word c) : commandNamed word cs = some c := by
  have hc' : word.map tolower = chars c.commandName := (equalIgnoringCase_iff (hlower c hc)).mp hname
  induction cs with
  | nil => exact absurd hc List.not_mem_nil
  | cons d cs ih =>
    rw [List.map_cons, List.nodup_cons] at hnodup
    unfold commandNamed
    rcases List.mem_cons.mp hc with rfl | hmem
    · exact List.find?_cons_of_pos (by simpa using hc')
    · have hne : ¬word.map tolower = chars d.commandName := by
        intro heq
        refine hnodup.1 ?_
        rw [← heq, hc']
        exact List.mem_map_of_mem (f := fun c => chars c.commandName) hmem
      rw [List.find?_cons_of_neg (by simpa using hne)]
      exact ih (fun e he => hlower e (List.mem_cons_of_mem _ he)) hnodup.2 hmem

theorem commandNamed_eq_none (h : ∀ c ∈ cs, ¬word.map tolower = chars c.commandName) :
    commandNamed word cs = none :=
  List.find?_eq_none.mpr fun c hc => by simpa using h c hc

theorem commandLoop_eq (hzero : 0 ∉ word) (hlen : word.length < 2 ^ 32) {n : QWORD} {found : Bool}
    (hlower : ∀ c ∈ cs, ∀ x ∈ chars c.commandName, isLower x)
    (hnodup : (cs.map fun c => chars c.commandName).Nodup) :
    commandLoop word n parameters cs found = .ok (match commandNamed word cs with
      | none => (found, [])
      | some c => (true, if InRange c n then [⟨c.commandFunction, n, parameters⟩] else [])) := by
  induction cs generalizing found with
  | nil => rfl
  | cons c cs ih =>
    have hrest := fun found => @ih found (fun d hd => hlower d (List.mem_cons_of_mem _ hd))
      (List.nodup_cons.mp hnodup).2
    obtain ⟨r, hrun, hr⟩ := stricmp_lower hzero hlen (hlower c List.mem_cons_self)
    rw [equalIgnoringCase_iff (hlower c List.mem_cons_self)] at hr
    unfold commandLoop
    rw [hrun]
    change (if r = 0 then _ else _) = _
    by_cases hname : word.map tolower = chars c.commandName
    · have hsome : commandNamed word (c :: cs) = some c := List.find?_cons_of_pos (by simpa using hname)
      have hnone : commandNamed word cs = none := commandNamed_eq_none fun d hd heq => by
        refine (List.nodup_cons.mp hnodup).1 ?_
        beta_reduce
        rw [← hname, heq]
        exact List.mem_map_of_mem (f := fun c => chars c.commandName) hd
      rw [if_pos (hr.mpr hname), hsome]
      dsimp only
      by_cases hrange : InRange c n
      · rw [if_pos hrange, if_pos hrange]
        rfl
      · rw [if_neg hrange, if_neg hrange, hrest, hnone]
    · have hskip : commandNamed word (c :: cs) = commandNamed word cs :=
        List.find?_cons_of_neg (by simpa using hname)
      rw [if_neg fun h => hname (hr.mp h), hskip]
      exact hrest found

theorem inRange_iff {c : CommandDefinition} {n : ℕ} (hn : n < 2 ^ 64) :
    InRange c (BitVec.ofNat 64 n) ↔ Accepts c n := by
  unfold InRange Accepts
  rw [BitVec.le_def, BitVec.le_def, BitVec.toNat_ofNat, Nat.mod_eq_of_lt hn]

theorem dispatched_cons : dispatched (word :: parameters) =
    if word.map tolower = chars "exit" then []
    else match commandNamed word commands with
      | none => [helpCall]
      | some c => asked c parameters := rfl

theorem execCmd_eq (hzero : 0 ∉ word) (hlen : word.length < 2 ^ 32)
    (hcount : (word :: parameters).length ≤ cmdMaxArgs) :
    ∃ exit, execCmd (BitVec.ofNat 32 (word :: parameters).length) (word :: parameters) =
      .ok (exit, dispatched (word :: parameters)) := by
  change parameters.length + 1 ≤ 10 at hcount
  have hargc : (BitVec.ofNat 32 (word :: parameters).length).toNat = parameters.length + 1 := by
    rw [BitVec.toNat_ofNat, List.length_cons]
    lia
  have hassert : 1 ≤ BitVec.ofNat 32 (word :: parameters).length ∧
      BitVec.ofNat 32 (word :: parameters).length ≤ BitVec.ofNat 32 cmdMaxArgs := by
    rw [BitVec.le_def, BitVec.le_def, hargc]
    change 1 ≤ _ ∧ _ ≤ 10
    omega
  have hnumber : (BitVec.ofNat 32 (word :: parameters).length - 1).setWidth 64 =
      BitVec.ofNat 64 parameters.length := by
    rw [← BitVec.toNat_inj, BitVec.toNat_setWidth, BitVec.toNat_sub_of_le hassert.1, hargc, BitVec.toNat_ofNat]
    change (_ - 1) % _ = _
    lia
  obtain ⟨r, hrun, hr⟩ := stricmp_lower hzero hlen exit_lower
  rw [equalIgnoringCase_iff exit_lower] at hr
  unfold execCmd
  rw [assertThat_of hassert]
  change ∃ exit, (stricmp word (chars "exit") >>= _) = _
  rw [hrun]
  change ∃ exit, (if r = 0 then _ else _) = _
  rw [dispatched_cons]
  by_cases hexit : word.map tolower = chars "exit"
  · rw [if_pos (hr.mpr hexit), if_pos hexit]
    exact ⟨true, rfl⟩
  · rw [if_neg fun h => hexit (hr.mp h), if_neg hexit, hnumber,
      commandLoop_eq hzero hlen commands_lower commands_nodup]
    cases commandNamed word commands with
    | none => exact ⟨false, rfl⟩
    | some c =>
      refine ⟨false, ?_⟩
      dsimp only
      unfold asked
      rw [if_congr (inRange_iff (by omega)).symm rfl rfl]
      rfl

end Dispatch

/-! ### Lines -/

section Lines

variable {strToken string : List BYTE} {line : List BYTE}

theorem clStrtokS_or {context : Option (List BYTE)} (h : context.or (some strToken) = some string)
    (delimiters : Option (List BYTE)) :
    clStrtokS (some strToken) delimiters context = clStrtokS (some string) delimiters none := by
  unfold clStrtokS
  rw [h]
  rfl

theorem collectArgs_of_some {fuel : ℕ} {argIndex : DWORD} {context : Option (List BYTE)} {token rest : List BYTE}
    (hrun : clStrtokS (some strToken) (some [0x20]) context = .ok (some (token, rest))) :
    collectArgs strToken (fuel + 1) argIndex context =
      (assertThat (argIndex < BitVec.ofNat 32 cmdMaxArgs) >>= fun _ =>
        collectArgs strToken fuel (argIndex + 1) (some rest) >>= fun found => .ok (token :: found)) := by
  change (clStrtokS (some strToken) (some [0x20]) context >>= _) = _
  rw [hrun]
  rfl

/-- The eleventh piece does not fit. -/
theorem collectArgs_eq (fuel : ℕ) : ∀ (string : List BYTE) (context : Option (List BYTE)) (k : ℕ),
    context.or (some strToken) = some string → 0 ∉ string → string.length < 2 ^ 32 → string.length < fuel →
    k ≤ cmdMaxArgs → collectArgs strToken fuel (BitVec.ofNat 32 k) context =
      if k + (withoutLastEmpty (string.splitOn 0x20)).length ≤ cmdMaxArgs
      then .ok (withoutLastEmpty (string.splitOn 0x20)) else .error .assertFailed := by
  have hmax : cmdMaxArgs = 10 := rfl
  induction fuel with
  | zero => exact fun _ _ _ _ _ _ hfuel => absurd hfuel (Nat.not_lt_zero _)
  | succ fuel ih =>
    intro string context k hcontext hzero hlen hfuel hk
    by_cases hempty : string = []
    · subst hempty
      have hrun : clStrtokS (some strToken) (some [0x20]) context = .ok none :=
        (clStrtokS_or hcontext _).trans clStrtokS_nil
      have hnone : withoutLastEmpty (([] : List BYTE).splitOn 0x20) = [] := by decide
      rw [hnone, if_pos (by simpa using hk)]
      change (clStrtokS (some strToken) (some [0x20]) context >>= _) = _
      rw [hrun]
      rfl
    obtain ⟨token, rest, hrun, hpieces, hrestZero, hrestLen⟩ : ∃ token rest,
        clStrtokS (some strToken) (some [0x20]) context = .ok (some (token, rest)) ∧
        withoutLastEmpty (string.splitOn 0x20) = token :: withoutLastEmpty (rest.splitOn 0x20) ∧
        0 ∉ rest ∧ rest.length < string.length := by
      rw [clStrtokS_or hcontext]
      rcases splitOn_cases string 0x20 with ⟨hnone, hsplit⟩ | ⟨w, rest, rfl, hw, hsplit⟩
      · refine ⟨string, [], clStrtokS_last hzero hnone hempty hlen, ?_, List.not_mem_nil,
          List.length_pos_iff.mpr hempty⟩
        rw [hsplit]
        simp [withoutLastEmpty, hempty]
      · have hshort : w.length + (rest.length + 1) < 2 ^ 32 := by
          rwa [List.length_append, List.length_cons] at hlen
        refine ⟨w, rest, clStrtokS_append hzero hw (by omega), ?_,
          fun h => hzero (List.mem_append_right _ (List.mem_cons_of_mem _ h)), ?_⟩
        · rw [hsplit, withoutLastEmpty_cons (List.splitOn_ne_nil _ rest)]
        · rw [List.length_append, List.length_cons]
          omega
    rw [collectArgs_of_some hrun, hpieces, List.length_cons]
    have hindex : (BitVec.ofNat 32 k).toNat = k := by
      rw [BitVec.toNat_ofNat]
      lia
    by_cases hfull : k = 10
    · have hassert : ¬BitVec.ofNat 32 k < BitVec.ofNat 32 cmdMaxArgs := by
        rw [BitVec.lt_def, hindex]
        change ¬k < 10
        omega
      rw [assertThat_of_not hassert, if_neg (by lia)]
      rfl
    · have hassert : BitVec.ofNat 32 k < BitVec.ofNat 32 cmdMaxArgs := by
        rw [BitVec.lt_def, hindex]
        change k < 10
        lia
      have hnext := ih rest (some rest) (k + 1) rfl hrestZero (by omega) (by omega) (by lia)
      rw [BitVec.ofNat_add] at hnext
      rw [assertThat_of hassert]
      change (collectArgs strToken fuel (BitVec.ofNat 32 k + 1) (some rest) >>= _) = _
      rw [show (1 : DWORD) = BitVec.ofNat 32 1 from rfl, hnext]
      by_cases hfit : k + 1 + (withoutLastEmpty (rest.splitOn 0x20)).length ≤ cmdMaxArgs
      · rw [if_pos hfit, if_pos (by lia)]
        rfl
      · rw [if_neg hfit, if_neg (by omega)]
        rfl

theorem pieces_ne_nil (h : 1 < line.length) : pieces line ≠ [] := by
  intro hnil
  rw [pieces, withoutLastEmpty_eq_nil_iff (List.splitOn_ne_nil _ _)] at hnil
  rcases splitOn_cases (line.drop 1) 0x20 with ⟨-, hsplit⟩ | ⟨w, rest, -, -, hsplit⟩
  · rw [hsplit, List.cons.injEq] at hnil
    have hlength := congrArg List.length hnil.1
    rw [List.length_drop, List.length_nil] at hlength
    omega
  · rw [hsplit, List.cons.injEq] at hnil
    exact List.splitOn_ne_nil _ _ hnil.2

theorem filter_withoutLastEmpty (ps : List (List BYTE)) :
    (withoutLastEmpty ps).filter (· ≠ []) = ps.filter (· ≠ []) := by
  unfold withoutLastEmpty
  by_cases hlast : ps.getLast? = some []
  · rw [if_pos hlast]
    obtain ⟨before, rfl⟩ := List.getLast?_eq_some_iff.mp hlast
    rw [List.dropLast_concat, List.filter_append]
    simp
  · rw [if_neg hlast]

theorem words_eq (line : List BYTE) : words line = (pieces line).filter (· ≠ []) :=
  (filter_withoutLastEmpty _).symm

theorem mem_splitOn (n : ℕ) : ∀ (string : List BYTE), string.length ≤ n → ∀ piece ∈ string.splitOn 0x20,
    piece.length ≤ string.length ∧ ∀ x ∈ piece, x ∈ string := by
  induction n with
  | zero =>
    intro string hlength piece hpiece
    obtain rfl := List.length_eq_zero_iff.mp (Nat.le_zero.mp hlength)
    rw [List.splitOn_eq_singleton List.not_mem_nil, List.mem_singleton] at hpiece
    subst hpiece
    exact ⟨le_rfl, fun _ hx => hx⟩
  | succ n ih =>
    intro string hlength piece hpiece
    rcases splitOn_cases string 0x20 with ⟨-, hsplit⟩ | ⟨w, rest, rfl, -, hsplit⟩
    · rw [hsplit, List.mem_singleton] at hpiece
      subst hpiece
      exact ⟨le_rfl, fun _ hx => hx⟩
    · rw [List.length_append, List.length_cons] at hlength ⊢
      rw [hsplit] at hpiece
      rcases List.mem_cons.mp hpiece with rfl | hpiece
      · exact ⟨by omega, fun x hx => List.mem_append_left _ hx⟩
      · obtain ⟨hle, hsub⟩ := ih rest (by omega) piece hpiece
        exact ⟨by omega, fun x hx => List.mem_append_right _ (List.mem_cons_of_mem _ (hsub x hx))⟩

/-- A piece is not longer than the line, and has no character that the line does not have. -/
theorem mem_pieces {piece : List BYTE} (hpiece : piece ∈ pieces line) :
    piece.length ≤ line.length ∧ ∀ x ∈ piece, x ∈ line := by
  have hmem : piece ∈ (line.drop 1).splitOn 0x20 := by
    unfold pieces withoutLastEmpty at hpiece
    split_ifs at hpiece
    · exact List.dropLast_subset _ hpiece
    · exact hpiece
  obtain ⟨hle, hsub⟩ := mem_splitOn _ (line.drop 1) le_rfl piece hmem
  rw [List.length_drop] at hle
  exact ⟨by omega, fun x hx => List.mem_of_mem_drop (hsub x hx)⟩

/-- A command line with something behind `/`. -/
theorem cmdExecLine_eq (hzero : 0 ∉ line) (hlen : line.length < 2 ^ 32) (hslash : charAt line 0 = 0x2F)
    (hlong : 1 < line.length) :
    if (pieces line).length ≤ cmdMaxArgs
    then ∃ exit, cmdExecLine line (BitVec.ofNat 32 line.length) = .ok (exit, dispatched (pieces line))
    else cmdExecLine line (BitVec.ofNat 32 line.length) = .error .assertFailed := by
  have hlength : ¬BitVec.ofNat 32 line.length ≤ 1 := by
    rw [BitVec.le_def, BitVec.toNat_ofNat, Nat.mod_eq_of_lt hlen]
    exact Nat.not_le.mpr hlong
  have hargs := @collectArgs_eq (line.drop 1) (line.length + 1) (line.drop 1) none 0 rfl
    (fun h => hzero (List.mem_of_mem_drop h)) (by rw [List.length_drop]; omega) (by rw [List.length_drop]; omega)
    (Nat.zero_le _)
  rw [Nat.zero_add] at hargs
  have hrun : cmdExecLine line (BitVec.ofNat 32 line.length) =
      (collectArgs (line.drop 1) (line.length + 1) 0 none >>= fun pCmdArgs =>
        execCmd (BitVec.ofNat 32 pCmdArgs.length) pCmdArgs) := by
    unfold cmdExecLine
    rw [if_pos hslash, if_neg hlength]
  rw [hrun]
  change if _ then ∃ exit, (collectArgs (line.drop 1) (line.length + 1) (BitVec.ofNat 32 0) none >>= _) = _
    else (collectArgs (line.drop 1) (line.length + 1) (BitVec.ofNat 32 0) none >>= _) = _
  rw [hargs]
  change if (pieces line).length ≤ cmdMaxArgs
    then ∃ exit, ((if (pieces line).length ≤ cmdMaxArgs then _ else _) >>= _) = _
    else ((if (pieces line).length ≤ cmdMaxArgs then _ else _) >>= _) = _
  by_cases hfit : (pieces line).length ≤ cmdMaxArgs
  · rw [if_pos hfit, if_pos hfit]
    obtain ⟨word, parameters, hpieces⟩ := List.exists_cons_of_ne_nil (pieces_ne_nil hlong)
    have hword : word ∈ pieces line := hpieces ▸ List.mem_cons_self
    obtain ⟨hle, hsub⟩ := mem_pieces hword
    change ∃ exit, execCmd (BitVec.ofNat 32 (pieces line).length) (pieces line) = _
    rw [hpieces] at hfit ⊢
    exact execCmd_eq (fun h => hzero (hsub 0 h)) (by omega) hfit
  · rw [if_neg hfit, if_neg hfit]
    rfl

end Lines

/-! ### Which lines are executed right -/

section Executed

variable {c : CommandDefinition} {word : List BYTE} {parameters others : List (List BYTE)}

theorem asked_eq_iff : asked c others = asked c parameters ↔
    others = parameters ∨ ¬Accepts c parameters.length ∧ ¬Accepts c others.length := by
  unfold asked
  by_cases ho : Accepts c others.length
  · rw [if_pos ho]
    by_cases hp : Accepts c parameters.length
    · rw [if_pos hp]
      constructor
      · intro h
        simp only [List.cons.injEq, HandlerCall.mk.injEq] at h
        exact .inl h.1.2.2
      · rintro (rfl | h)
        · rfl
        · exact absurd hp h.1
    · rw [if_neg hp]
      exact iff_of_false (List.cons_ne_nil _ _) fun h => h.elim (fun heq => hp (heq ▸ ho)) fun h => h.2 ho
  · rw [if_neg ho]
    by_cases hp : Accepts c parameters.length
    · rw [if_pos hp]
      exact iff_of_false (List.cons_ne_nil _ _).symm fun h => h.elim (fun heq => ho (heq ▸ hp)) fun h => h.1 hp
    · rw [if_neg hp]
      exact iff_of_true rfl (.inr ⟨hp, ho⟩)

theorem exit_ne_command : ∀ c ∈ commands, chars "exit" ≠ chars c.commandName := by
  decide +kernel

theorem dispatched_named (hc : c ∈ commands) (hname : Names word c) :
    dispatched (word :: parameters) = asked c parameters := by
  have heq := (equalIgnoringCase_iff (commands_lower c hc)).mp hname
  have hexit : ¬word.map tolower = chars "exit" := fun h => exit_ne_command c hc (h.symm.trans heq)
  rw [dispatched_cons, if_neg hexit, commandNamed_eq_some commands_lower commands_nodup hc hname]

theorem dispatched_unnamed (hnone : ∀ c ∈ commands, ¬Names word c) :
    ∀ call ∈ dispatched (word :: parameters), call = helpCall := by
  rw [dispatched_cons]
  by_cases hexit : word.map tolower = chars "exit"
  · rw [if_pos hexit]
    exact fun call hcall => absurd hcall List.not_mem_nil
  · rw [if_neg hexit, commandNamed_eq_none fun c hc heq =>
      hnone c hc ((equalIgnoringCase_iff (commands_lower c hc)).mpr heq)]
    exact fun call hcall => List.mem_singleton.mp hcall

theorem dispatched_blank : dispatched ([] :: parameters) = [helpCall] := by
  have hnone : commandNamed [] commands = none :=
    commandNamed_eq_none fun c hc heq => commands_ne_nil c hc heq.symm
  rw [dispatched_cons, if_neg (by decide), hnone]

theorem asked_help_iff (hc : c ∈ commands) :
    [helpCall] = asked c parameters ↔ c.commandFunction = .cmdPrintHelp ∧ parameters = [] := by
  unfold asked
  constructor
  · intro h
    split_ifs at h
    simp only [List.cons.injEq, helpCall, HandlerCall.mk.injEq] at h
    exact ⟨h.1.1.symm, h.1.2.2.symm⟩
  · rintro ⟨hhelp, rfl⟩
    have haccepts : Accepts c ([] : List (List BYTE)).length := help_accepts c hc hhelp
    rw [if_pos haccepts, hhelp]
    rfl

end Executed

/-- The calls for the pieces are those that the words ask for. -/
theorem dispatched_iff (ps : List (List BYTE)) (word : List BYTE) (parameters : List (List BYTE))
    (hwords : ps.filter (· ≠ []) = word :: parameters) :
    ((∀ c ∈ commands, Names word c → dispatched ps = asked c parameters) ∧
      ((∀ c ∈ commands, ¬Names word c) → ∀ call ∈ dispatched ps, call = helpCall)) ↔
    ∀ c ∈ commands, Names word c → ps = word :: parameters ∨
      (∃ others, ps = word :: others ∧ ¬Accepts c parameters.length ∧ ¬Accepts c others.length) ∨
      ps.head? = some [] ∧ c.commandFunction = .cmdPrintHelp ∧ parameters = [] := by
  obtain ⟨first, others, rfl⟩ : ∃ first others, ps = first :: others := by
    cases ps with
    | nil => exact absurd hwords nofun
    | cons first others => exact ⟨first, others, rfl⟩
  have hword : word ≠ [] := by
    have hmem : word ∈ (first :: others).filter (· ≠ []) := hwords ▸ List.mem_cons_self
    simpa using List.of_mem_filter hmem
  by_cases hblank : first = []
  · subst hblank
    have hhelp : (∀ c ∈ commands, ¬Names word c) → ∀ call ∈ dispatched ([] :: others), call = helpCall := by
      intro _ call hcall
      rw [dispatched_blank] at hcall
      exact List.mem_singleton.mp hcall
    rw [and_iff_left hhelp, dispatched_blank]
    refine forall₃_congr fun c hc _ => ?_
    rw [asked_help_iff hc]
    constructor
    · exact fun h => .inr (.inr ⟨rfl, h⟩)
    · rintro (h | ⟨others', h, -⟩ | ⟨-, h⟩)
      · exact absurd (List.cons.inj h).1.symm hword
      · exact absurd (List.cons.inj h).1.symm hword
      · exact h
  · rw [List.filter_cons_of_pos (by simpa using hblank)] at hwords
    obtain ⟨rfl, -⟩ := List.cons.inj hwords
    rw [and_iff_left dispatched_unnamed]
    refine forall₃_congr fun c hc hname => ?_
    rw [dispatched_named hc hname, asked_eq_iff]
    constructor
    · rintro (rfl | h)
      · exact .inl rfl
      · exact .inr (.inl ⟨others, rfl, h⟩)
    · rintro (h | ⟨others', h, h'⟩ | ⟨h, -⟩)
      · exact .inl (List.cons.inj h).2
      · rw [(List.cons.inj h).2]
        exact .inr h'
      · exact absurd (Option.some.inj h) hblank

theorem executesLine_iff (line : Text) : ExecutesLine line ↔ ExecutedLine line.chars := by
  unfold ExecutesLine ExecutedLine
  by_cases hslash : charAt line.chars 0 = 0x2F
  swap
  · have hrun : cmdExecLine line.chars (BitVec.ofNat 32 line.chars.length) = .ok (false, []) := if_neg hslash
    exact iff_of_true ⟨_, _, hrun, fun h => absurd h hslash⟩ fun h => absurd h hslash
  by_cases hlong : 1 < line.chars.length
  swap
  · have hlength : BitVec.ofNat 32 line.chars.length ≤ 1 := by
      rw [BitVec.le_def, BitVec.toNat_ofNat, Nat.mod_eq_of_lt line.length_lt]
      exact Nat.le_of_not_lt hlong
    have hrun : cmdExecLine line.chars (BitVec.ofNat 32 line.chars.length) = .ok (false, []) := by
      unfold cmdExecLine
      rw [if_pos hslash, if_pos hlength]
      rfl
    have hwords : words line.chars = [] := by
      have hdrop : line.chars.drop 1 = [] := List.drop_eq_nil_of_le (Nat.le_of_not_lt hlong)
      rw [words, hdrop]
      decide
    refine iff_of_true ⟨_, _, hrun, fun _ word parameters h => ?_⟩ fun _ => .inl (Nat.le_of_not_lt hlong)
    rw [hwords] at h
    exact absurd h nofun
  have hrun := cmdExecLine_eq line.zero_notMem line.length_lt hslash hlong
  by_cases hfit : (pieces line.chars).length ≤ cmdMaxArgs
  · rw [if_pos hfit] at hrun
    obtain ⟨exit, hrun⟩ := hrun
    have hiff := fun word parameters hwords => dispatched_iff (pieces line.chars) word parameters
      ((words_eq line.chars).symm.trans hwords)
    constructor
    · rintro ⟨exit', calls, hcalls, h⟩ -
      rw [hrun] at hcalls
      cases hcalls
      refine .inr ⟨hfit, fun word parameters hwords c hc hname => ?_⟩
      rw [hwords]
      exact (hiff word parameters hwords).mp (h hslash word parameters hwords) c hc hname
    · intro h
      rcases h hslash with hshort | ⟨-, h⟩
      · omega
      · refine ⟨exit, _, hrun, fun _ word parameters hwords => (hiff word parameters hwords).mpr ?_⟩
        intro c hc hname
        rw [← hwords]
        exact h word parameters hwords c hc hname
  · rw [if_neg hfit] at hrun
    refine iff_of_false ?_ ?_
    · rintro ⟨exit, calls, hcalls, -⟩
      rw [hrun] at hcalls
      exact absurd hcalls nofun
    · intro h
      rcases h hslash with hshort | ⟨hfit', -⟩
      · omega
      · exact hfit hfit'

/-- Eleven words do not fit into the array of the arguments. -/
theorem not_executesLine : ¬∀ line, ExecutesLine line := by
  intro hall
  obtain ⟨exit, calls, hcalls, -⟩ := hall ⟨⟨chars "/a b c d e f g h i j k", by decide⟩, by decide⟩
  have hrun := @cmdExecLine_eq (chars "/a b c d e f g h i j k") (by decide) (by decide) (by decide)
    (by decide)
  have hcount : ¬(pieces (chars "/a b c d e f g h i j k")).length ≤ cmdMaxArgs := by decide +kernel
  rw [if_neg hcount] at hrun
  exact absurd (hcalls.symm.trans hrun) nofun

end HAL9000.Console
