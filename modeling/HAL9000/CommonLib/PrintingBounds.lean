import HAL9000.CommonLib.Printing

/-! Where formatted printing stays inside its buffer and terminates the string. The positions that the
loop reaches do not depend on what the buffer holds. -/
namespace HAL9000.Strings

/-- A position of the loop; `ended` says that the last text was copied with its terminator. -/
structure Position where
  index : DWORD
  offset : DWORD
  argptr : List Argument
  ended : Bool

/-- The position after a conversion is printed. Padding alone is not terminated. -/
def Position.afterDirective (p : Position) (d : Directive) : Position where
  index := d.index + 2
  offset := p.offset + d.fillSpaces + d.charsToCopy
  argptr := d.argptr
  ended := d.charsToCopy ≠ 0 ∨ d.fillSpaces = 0 ∧ p.ended

section Positions

variable (buffSize : DWORD) (inputBuffer : List BYTE) (argptr : List Argument)

/-- There is room for the text of the conversion and a terminator. -/
def Fits (p : Position) (d : Directive) : Prop :=
  p.offset.toNat + d.text.length < buffSize.toNat

inductive Reached : Position → Prop
  | start : Reached ⟨0, 0, argptr, false⟩
  | literal {p : Position} : Reached p → charAt inputBuffer p.index.toNat ≠ 0 →
      charAt inputBuffer p.index.toNat ≠ 0x25 → p.offset.toNat + 1 < buffSize.toNat →
      Reached ⟨p.index + 1, p.offset + 1, p.argptr, false⟩
  | directive {p : Position} {d : Directive} : Reached p →
      charAt inputBuffer p.index.toNat = 0x25 →
      readDirective inputBuffer p.index p.argptr = .ok (some d) → d.Accepted buffSize p.offset →
      Fits buffSize p d → Reached (p.afterDirective d)

/-- No conversion that is reached passes the tests without fitting, and where the scan stops at a
conversion, the last text was copied with its terminator. -/
structure PrintsSafely : Prop where
  fits : ∀ p d, Reached buffSize inputBuffer argptr p → charAt inputBuffer p.index.toNat = 0x25 →
    readDirective inputBuffer p.index p.argptr = .ok (some d) → d.Accepted buffSize p.offset →
    Fits buffSize p d
  full : ∀ p d, Reached buffSize inputBuffer argptr p → charAt inputBuffer p.index.toNat = 0x25 →
    readDirective inputBuffer p.index p.argptr = .ok (some d) → ¬ d.Accepted buffSize p.offset →
    p.ended = true
  unknown : ∀ p, Reached buffSize inputBuffer argptr p → charAt inputBuffer p.index.toNat = 0x25 →
    readDirective inputBuffer p.index p.argptr = .ok none → p.ended = true

end Positions

/-- Nothing is written outside the buffer, and there is a terminator after the text. -/
def SafeResult (buffSize : DWORD) (r : Except PrintFault (Exit × Option Vars)) : Prop :=
  r ≠ .error .overrun ∧ ∀ e v, r = .ok (e, some v) →
    ∃ i, v.outBufferOffset.toNat ≤ i ∧ i < buffSize.toNat ∧ v.output i = 0

section Reaching

variable {buffSize : DWORD} {inputBuffer : List BYTE} {argptr : List Argument} {p : Position} {v : Vars}

theorem afterDirective_offset {d : Directive} (hd : d.Sound) (hfits : Fits buffSize p d) :
    (p.offset + d.fillSpaces + d.charsToCopy).toNat = p.offset.toNat + d.text.length := by
  have hlt := buffSize.isLt
  unfold Fits at hfits
  rw [Directive.length_text hd] at hfits ⊢
  rw [BitVec.toNat_add, BitVec.toNat_add]
  lia

theorem Reached.offset_lt (h : Reached buffSize inputBuffer argptr p) (hsize : buffSize ≠ 0) :
    p.offset.toNat < buffSize.toNat := by
  induction h with
  | start => exact Nat.pos_of_ne_zero fun hzero => hsize (BitVec.eq_of_toNat_eq hzero)
  | literal _ _ _ hroom ih =>
    rw [toNat_add_one_of_lt ih]
    exact hroom
  | directive _ _ hread _ hfits _ =>
    change (_ + _ + _ : DWORD).toNat < _
    rw [afterDirective_offset (readDirective_sound hread) hfits]
    exact hfits

/-- The variables of the loop at a position; a text that is copied has its terminator. -/
structure At (p : Position) (v : Vars) : Prop where
  index : v.index = p.index
  offset : v.outBufferOffset = p.offset
  argptr : v.argptr = p.argptr
  ended : p.ended = true → v.output p.offset.toNat = 0

/-- What a conversion leaves at the end of its text. -/
theorem put_directive_end (d : Directive) (output : Chars) (offset : ℕ) :
    put output offset (d.text ++ if d.charsToCopy ≠ 0 then [0] else []) (offset + d.text.length) =
      if d.charsToCopy ≠ 0 then 0 else output (offset + d.text.length) := by
  by_cases hcopy : d.charsToCopy ≠ 0
  · rw [if_pos hcopy, if_pos hcopy, put_add (by simp)]
    unfold charAt
    rw [List.getD_append_right _ _ _ _ le_rfl, Nat.sub_self]
    rfl
  · rw [if_neg hcopy, if_neg hcopy, List.append_nil, put_of_ge le_rfl]

theorem At.literal (h : At p v) (c : BYTE) :
    At ⟨p.index + 1, p.offset + 1, p.argptr, false⟩ { v with
      index := v.index + 1
      outBufferOffset := v.outBufferOffset + 1
      output := put v.output v.outBufferOffset.toNat [c] } :=
  ⟨by rw [h.index], by rw [h.offset], h.argptr, fun hend => nomatch hend⟩

theorem At.directive {d : Directive} (h : At p v) (hd : d.Sound) (hfits : Fits buffSize p d) :
    At (p.afterDirective d) (HAL9000.Strings.afterDirective v d) := by
  have hoffset := afterDirective_offset hd hfits
  refine ⟨rfl, ?_, rfl, fun hend => ?_⟩
  · unfold Position.afterDirective HAL9000.Strings.afterDirective
    rw [h.offset]
  · unfold Position.afterDirective at hend ⊢
    unfold HAL9000.Strings.afterDirective
    dsimp only at hend ⊢
    rw [hoffset, h.offset, put_directive_end]
    by_cases hcopy : d.charsToCopy ≠ 0
    · rw [if_pos hcopy]
    · simp only [hcopy, false_or, Bool.decide_and, Bool.decide_eq_true, Bool.and_eq_true,
        decide_eq_true_eq] at hend
      have hlength : d.text.length = 0 := by
        rw [Directive.length_text hd, hend.1, not_not.mp hcopy]
        rfl
      rw [if_neg hcopy, hlength, Nat.add_zero]
      exact h.ended hend.2

/-- From a position that is reached, the loop is safe. -/
theorem printLoop_safe (hsize : buffSize ≠ 0) (hsafe : PrintsSafely buffSize inputBuffer argptr)
    (hp : Reached buffSize inputBuffer argptr p) (hv : At p v) (fuel : ℕ) :
    printLoop buffSize inputBuffer fuel v ≠ .error .overrun ∧
      ∀ e v', printLoop buffSize inputBuffer fuel v = .ok (e, v') →
        ∃ i, v'.outBufferOffset.toNat ≤ i ∧ i < buffSize.toNat ∧ v'.output i = 0 := by
  induction fuel generalizing p v with
  | zero => exact ⟨fun h => (nomatch h), fun _ _ h => (nomatch h)⟩
  | succ fuel ih =>
    have hoff := hp.offset_lt hsize
    have hvoff : v.outBufferOffset.toNat < buffSize.toNat := by
      rw [hv.offset]
      exact hoff
    have hstop : ∀ e, p.ended = true → printLoop buffSize inputBuffer (fuel + 1) v = .ok (e, v) →
        printLoop buffSize inputBuffer (fuel + 1) v ≠ .error .overrun ∧
          ∀ e v', printLoop buffSize inputBuffer (fuel + 1) v = .ok (e, v') →
            ∃ i, v'.outBufferOffset.toNat ≤ i ∧ i < buffSize.toNat ∧ v'.output i = 0 := by
      intro e hend hrun
      rw [hrun]
      refine ⟨fun h => (nomatch h), fun e' v' h => ?_⟩
      cases h
      rw [hv.offset]
      exact ⟨_, le_rfl, hoff, hv.ended hend⟩
    have hterminated : ∀ e, printRound buffSize inputBuffer v = .ok (.exit e
        { v with output := put v.output v.outBufferOffset.toNat [0] }) →
        printLoop buffSize inputBuffer (fuel + 1) v ≠ .error .overrun ∧
          ∀ e v', printLoop buffSize inputBuffer (fuel + 1) v = .ok (e, v') →
            ∃ i, v'.outBufferOffset.toNat ≤ i ∧ i < buffSize.toNat ∧ v'.output i = 0 := by
      intro e hround
      rw [printLoop_exit hround]
      refine ⟨fun h => (nomatch h), fun e' v' h => ?_⟩
      cases h
      exact ⟨_, le_rfl, hvoff, put_add (i := 0) (by simp)⟩
    by_cases hc : charAt inputBuffer v.index.toNat = 0
    · exact hterminated _ (printRound_end hvoff hc)
    · by_cases hp' : charAt inputBuffer v.index.toNat = 0x25
      · rw [hv.index] at hp'
        have hread : readDirective inputBuffer v.index v.argptr =
            readDirective inputBuffer p.index p.argptr := by rw [hv.index, hv.argptr]
        cases hr : readDirective inputBuffer p.index p.argptr with
        | error e =>
          have hne : e ≠ .overrun := fun h => readDirective_ne_overrun (h ▸ hr)
          rw [printLoop_error (printRound_error (by rw [hv.index]; exact hp') (hread.trans hr))]
          exact ⟨fun h => hne (Except.error.inj h), fun _ _ h => (nomatch h)⟩
        | ok r =>
          cases r with
          | none =>
            exact hstop _ (hsafe.unknown p hp hp' hr) (printLoop_exit
              (printRound_unknown (by rw [hv.index]; exact hp') (hread.trans hr)))
          | some d =>
            have hround := @printRound_directive buffSize inputBuffer v (by rw [hv.index]; exact hp') d
              (hread.trans hr)
            by_cases hacc : d.Accepted buffSize p.offset
            · have hfits := hsafe.fits p d hp hp' hr hacc
              have hd := readDirective_sound hr
              have hnext := printDirective_accepted (v := v) hd (by rw [hv.offset]; exact hacc)
                (by rw [hv.offset]; exact hfits)
              rw [printLoop_next (hround.trans hnext)]
              exact ih (hp.directive hp' hr hacc hfits) (hv.directive hd hfits)
            · exact hstop _ (hsafe.full p d hp hp' hr hacc) (printLoop_exit
                (hround.trans (printDirective_rejected (by rw [hv.offset]; exact hacc))))
      · have hround := printRound_literal hvoff hc hp'
        by_cases hroom : v.outBufferOffset.toNat + 1 < buffSize.toNat
        · rw [if_pos hroom] at hround
          rw [printLoop_next hround]
          rw [hv.index] at hc hp'
          rw [hv.offset] at hroom
          exact ih (hp.literal hc hp' hroom) (hv.literal _)
        · rw [if_neg hroom] at hround
          exact hterminated _ hround

/-- There are no terminators but those that were copied. -/
structure Dirty (p : Position) (v : Vars) : Prop where
  ended : v.output p.offset.toNat = 0 → p.ended = true
  beyond : ∀ i, p.offset.toNat < i → v.output i ≠ 0

theorem Dirty.literal (h : Dirty p v) (hv : At p v) (hoff : p.offset.toNat < buffSize.toNat) (c : BYTE) :
    Dirty ⟨p.index + 1, p.offset + 1, p.argptr, false⟩ { v with
      index := v.index + 1
      outBufferOffset := v.outBufferOffset + 1
      output := put v.output v.outBufferOffset.toNat [c] } := by
  have hput : ∀ i, p.offset.toNat < i → put v.output v.outBufferOffset.toNat [c] i = v.output i := by
    intro i hi
    rw [hv.offset]
    exact put_of_ge hi
  refine ⟨fun hend => ?_, fun i hi => ?_⟩
  · dsimp only at hend
    rw [toNat_add_one_of_lt hoff, hput _ (Nat.lt_succ_self _)] at hend
    exact absurd hend (h.beyond _ (Nat.lt_succ_self _))
  · dsimp only at hi ⊢
    rw [toNat_add_one_of_lt hoff] at hi
    rw [hput _ (Nat.lt_of_succ_lt hi)]
    exact h.beyond i (Nat.lt_of_succ_lt hi)

theorem Dirty.directive {d : Directive} (h : Dirty p v) (hv : At p v) (hd : d.Sound)
    (hfits : Fits buffSize p d) : Dirty (p.afterDirective d) (HAL9000.Strings.afterDirective v d) := by
  have hoffset := afterDirective_offset hd hfits
  refine ⟨fun hend => ?_, fun i hi => ?_⟩
  · unfold Position.afterDirective at hend ⊢
    unfold HAL9000.Strings.afterDirective at hend
    dsimp only at hend ⊢
    rw [hoffset, hv.offset, put_directive_end] at hend
    by_cases hcopy : d.charsToCopy ≠ 0
    · exact decide_eq_true (Or.inl hcopy)
    · rw [if_neg hcopy] at hend
      have hlength := Directive.length_text hd
      rw [not_not.mp hcopy, show (0 : DWORD).toNat = 0 from rfl, Nat.add_zero] at hlength
      have hfill : d.fillSpaces = 0 := by
        by_contra hne
        refine h.beyond _ ?_ hend
        have hpos : d.fillSpaces.toNat ≠ 0 := fun hz => hne (BitVec.eq_of_toNat_eq hz)
        lia
      rw [hlength, hfill, show (0 : DWORD).toNat = 0 from rfl, Nat.add_zero] at hend
      simp [hfill, h.ended hend]
  · unfold Position.afterDirective at hi
    unfold HAL9000.Strings.afterDirective
    dsimp only at hi ⊢
    rw [hoffset] at hi
    rw [hv.offset, put_of_ge]
    · exact h.beyond i (by omega)
    · rw [List.length_append]
      split_ifs
      · rw [List.length_singleton]
        omega
      · rw [List.length_nil]
        omega

/-- In a buffer without terminators, the loop comes to every position that is reached. -/
theorem Reached.run (hsize : buffSize ≠ 0) (hp : Reached buffSize inputBuffer argptr p) :
    ∃ n v, At p v ∧ Dirty p v ∧ ∀ k, printLoop buffSize inputBuffer (n + k)
      (.start (fun _ => 0xFF) argptr) = printLoop buffSize inputBuffer k v := by
  induction hp with
  | start =>
    refine ⟨0, .start (fun _ => 0xFF) argptr, ⟨rfl, rfl, rfl, fun h => (nomatch h)⟩, ⟨fun h => ?_, fun i _ h => ?_⟩, fun k => ?_⟩
    · exact absurd (show (0xFF : BYTE) = 0 from h) (by decide)
    · exact absurd (show (0xFF : BYTE) = 0 from h) (by decide)
    · rw [Nat.zero_add]
  | @literal p hp hc hp' hroom ih =>
    obtain ⟨n, v, hv, hdirty, hrun⟩ := ih
    have hoff := hp.offset_lt hsize
    have hround := @printRound_literal buffSize inputBuffer v (by rw [hv.offset]; exact hoff)
      (by rw [hv.index]; exact hc) (by rw [hv.index]; exact hp')
    rw [if_pos (by rw [hv.offset]; exact hroom)] at hround
    refine ⟨n + 1, _, hv.literal (charAt inputBuffer v.index.toNat), hdirty.literal hv hoff _, fun k => ?_⟩
    rw [Nat.add_assoc, hrun, Nat.add_comm 1 k]
    exact printLoop_next hround
  | @directive p d hp hp' hr hacc hfits ih =>
    obtain ⟨n, v, hv, hdirty, hrun⟩ := ih
    have hd := readDirective_sound hr
    have hround := (@printRound_directive buffSize inputBuffer v (by rw [hv.index]; exact hp') d
      (by rw [hv.index, hv.argptr]; exact hr)).trans (printDirective_accepted hd
        (by rw [hv.offset]; exact hacc) (by rw [hv.offset]; exact hfits))
    refine ⟨n + 1, _, hv.directive hd hfits, hdirty.directive hv hd hfits, fun k => ?_⟩
    rw [Nat.add_assoc, hrun, Nat.add_comm 1 k]
    exact printLoop_next hround

end Reaching

/-- Formatted printing never overruns its buffer and always terminates the string exactly if it prints
safely at all positions it reaches. -/
theorem clVsnprintf_safe_iff {buffSize : DWORD} (hsize : buffSize ≠ 0) (inputBuffer : ZString)
    (argptr : List Argument) :
    (∀ fuel output, SafeResult buffSize
      (clVsnprintf fuel (some output) buffSize (some inputBuffer) argptr)) ↔
      PrintsSafely buffSize inputBuffer.chars argptr := by
  have hcall : ∀ fuel output, clVsnprintf fuel (some output) buffSize (some inputBuffer) argptr =
      printLoop buffSize inputBuffer.chars fuel (.start output argptr) >>= fun r =>
        .ok (r.1, some r.2) := fun fuel output => if_neg hsize
  constructor
  · intro hall
    have hends : ∀ p n v k e, At p v → Dirty p v → printLoop buffSize inputBuffer.chars (n + k)
        (.start (fun _ => 0xFF) argptr) = .ok (e, v) → p.ended = true := by
      intro p n v k e hv hdirty hrun
      have hsafe := (hall (n + k) fun _ => 0xFF).2 e v (by rw [hcall, hrun]; rfl)
      obtain ⟨i, hle, -, hzero⟩ := hsafe
      rw [hv.offset] at hle
      rcases Nat.eq_or_lt_of_le hle with heq | hlt
      · exact hdirty.ended (heq ▸ hzero)
      · exact absurd hzero (hdirty.beyond i hlt)
    refine ⟨fun p d hp hp' hr hacc => ?_, fun p d hp hp' hr hacc => ?_, fun p hp hp' hr => ?_⟩
    · by_contra hlong
      obtain ⟨n, v, hv, -, hrun⟩ := hp.run hsize
      have hround := (@printRound_directive buffSize inputBuffer.chars v (by rw [hv.index]; exact hp') d
        (by rw [hv.index, hv.argptr]; exact hr)).trans (printDirective_overruns (readDirective_sound hr)
          (by rw [hv.offset]; exact hacc) (by rw [hv.offset]; exact hp.offset_lt hsize)
          (by rw [hv.offset]; exact Nat.not_lt.mp hlong))
      refine (hall (n + 1) fun _ => 0xFF).1 ?_
      rw [hcall, hrun, printLoop_error hround]
      rfl
    · obtain ⟨n, v, hv, hdirty, hrun⟩ := hp.run hsize
      refine hends p n v 1 .bufferTooSmall hv hdirty ?_
      rw [hrun]
      exact printLoop_exit ((printRound_directive (by rw [hv.index]; exact hp')
        (by rw [hv.index, hv.argptr]; exact hr)).trans
          (printDirective_rejected (by rw [hv.offset]; exact hacc)))
    · obtain ⟨n, v, hv, hdirty, hrun⟩ := hp.run hsize
      refine hends p n v 1 .parseFailed hv hdirty ?_
      rw [hrun]
      exact printLoop_exit (printRound_unknown (by rw [hv.index]; exact hp')
        (by rw [hv.index, hv.argptr]; exact hr))
  · intro hsafe fuel output
    obtain ⟨hnever, hends⟩ := printLoop_safe (v := .start output argptr) hsize hsafe .start
      ⟨rfl, rfl, rfl, fun h => nomatch h⟩ fuel
    refine ⟨fun h => ?_, fun e v h => ?_⟩
    · rw [hcall] at h
      rcases printBind_eq_error.mp h with herror | ⟨r, -, h⟩
      · exact hnever herror
      · cases h
    · rw [hcall] at h
      obtain ⟨r, hrun, h⟩ := printBind_eq_ok.mp h
      cases h
      exact hends _ _ hrun

/-- The format `"%u"`. -/
def unsignedFormat : ZString := ⟨[0x25, 0x75], by decide⟩

private theorem readDirective_unsigned :
    readDirective unsignedFormat.chars 0 [.dword 7] = .ok (some ⟨0x20, 0, 0, [0x37], false, []⟩) := by
  rfl

/-- The scan starts at the conversion and ends behind it. -/
private theorem Reached.unsigned {p : Position} (hp : Reached 16 unsignedFormat.chars [.dword 7] p) :
    p = ⟨0, 0, [.dword 7], false⟩ ∨ p = ⟨2, 1, [], true⟩ := by
  induction hp with
  | start => exact Or.inl rfl
  | literal hp hc hpercent hroom ih =>
    rcases ih with rfl | rfl
    · exact absurd rfl hpercent
    · exact absurd rfl hc
  | directive hp hpercent hr _ _ ih =>
    rcases ih with rfl | rfl
    · obtain rfl := Option.some.inj (Except.ok.inj (readDirective_unsigned.symm.trans hr))
      exact Or.inr rfl
    · exact absurd hpercent (by decide)

/-- One digit fits in sixteen characters. -/
theorem unsigned_safeResult : (16 : DWORD) ≠ 0 ∧ ∀ fuel output,
    SafeResult 16 (clVsnprintf fuel (some output) 16 (some unsignedFormat) [.dword 7]) := by
  have hread : ∀ {p d}, Reached 16 unsignedFormat.chars [.dword 7] p →
      charAt unsignedFormat.chars p.index.toNat = 0x25 →
      readDirective unsignedFormat.chars p.index p.argptr = .ok d →
      p.offset = 0 ∧ d = some ⟨0x20, 0, 0, [0x37], false, []⟩ := by
    intro p d hp hpercent hr
    rcases hp.unsigned with rfl | rfl
    · exact ⟨rfl, (Except.ok.inj (readDirective_unsigned.symm.trans hr)).symm⟩
    · exact absurd hpercent (by decide)
  refine ⟨by decide, (clVsnprintf_safe_iff (by decide) unsignedFormat [.dword 7]).mpr ⟨?_, ?_, ?_⟩⟩
  · intro p d hp hpercent hr _
    obtain ⟨hoffset, hd⟩ := hread hp hpercent hr
    rw [Fits, hoffset, Option.some.inj hd]
    decide
  · intro p d hp hpercent hr hrefused
    obtain ⟨hoffset, hd⟩ := hread hp hpercent hr
    rw [hoffset, Option.some.inj hd] at hrefused
    exact absurd (by decide) hrefused
  · intro p hp hpercent hr
    cases (hread hp hpercent hr).2

/-- A number that finds no room in a buffer of one character leaves the buffer as it was. -/
theorem not_clVsnprintf_safe : ¬ ∀ (buffSize : DWORD), buffSize ≠ 0 → ∀ (inputBuffer : ZString)
    (argptr : List Argument) (fuel : ℕ) (output : Chars),
    SafeResult buffSize (clVsnprintf fuel (some output) buffSize (some inputBuffer) argptr) := by
  intro hall
  have hsafe := (hall 1 (by decide) unsignedFormat [.dword 7] 1 fun _ => 0xFF).2 .bufferTooSmall
    (.start (fun _ => 0xFF) [.dword 7]) rfl
  obtain ⟨i, -, -, hzero⟩ := hsafe
  exact absurd (show (0xFF : BYTE) = 0 from hzero) (by decide)

end HAL9000.Strings
