import HAL9000.CommonLib.Bitmap
import Mathlib.Order.Bounds.Basic

/-! What the functions of `bitmap.c` do to the single bits of memory. -/
namespace HAL9000

/-- Bit `i` of the bitmap at `buf`. -/
def bitAt (mem : Memory) (buf : QWORD) (i : ℕ) : Bool :=
  (mem (byteAddress buf (BitVec.ofNat 32 i))).getLsbD (i % 8)

/-- Bit `k` of the byte at `a` is one of the bits `lo`, …, `lo + n - 1` of the bitmap at `buf`. -/
def Covers (buf : QWORD) (lo n : ℕ) (a : QWORD) (k : ℕ) : Prop :=
  ∃ i, lo ≤ i ∧ i < lo + n ∧ a = byteAddress buf (BitVec.ofNat 32 i) ∧ k = i % 8

/-- The memory `mem'` is `mem` with `n` bits from bit `lo` on set to `set`. -/
def ChangedBits (mem mem' : Memory) (buf : QWORD) (set : Bool) (lo n : ℕ) : Prop :=
  ∀ a k, k < 8 → (Covers buf lo n a k → (mem' a).getLsbD k = set) ∧
    (¬ Covers buf lo n a k → (mem' a).getLsbD k = (mem a).getLsbD k)

section Bits

variable {mem mem' : Memory} {buf : QWORD} {set : Bool}

private theorem ofNat_toNat (index : DWORD) : BitVec.ofNat 32 index.toNat = index :=
  BitVec.eq_of_toNat_eq (by simp)

private theorem bitMask_getLsbD (index : DWORD) {k : ℕ} (hk : k < 8) :
    (bitMask index).getLsbD k = decide (k = index.toNat % 8) := by
  have hmod : (index % 8).toNat = index.toNat % 8 := BitVec.toNat_umod
  have hone : ∀ d, (1#8).getLsbD d = decide (d = 0) := by
    intro d
    rw [BitVec.getLsbD_one]
    simp
  rw [bitMask, BitVec.getLsbD_shiftLeft, hmod, hone]
  simp only [hk, decide_true, Bool.true_and]
  by_cases h : k < index.toNat % 8
  · simp [h]
    omega
  · simp [h]
    lia

private theorem and_bitMask (x : BYTE) (index : DWORD) :
    (x &&& bitMask index == bitMask index) = x.getLsbD (index.toNat % 8) := by
  have hlt : index.toNat % 8 < 8 := Nat.mod_lt _ (by norm_num)
  rw [Bool.eq_iff_iff, beq_iff_eq]
  constructor
  · intro heq
    have hbit := congrArg (fun y : BYTE => y.getLsbD (index.toNat % 8)) heq
    simpa [BitVec.getLsbD_and, bitMask_getLsbD index hlt] using hbit
  · intro hbit
    apply BitVec.eq_of_getLsbD_eq
    intro k hk
    rw [BitVec.getLsbD_and, bitMask_getLsbD index hk]
    by_cases hki : k = index.toNat % 8
    · simp [hki, hbit]
    · simp [hki]

theorem bitmapGetBit_eq (hbuf : buf ≠ 0) (index : DWORD) :
    bitmapGetBit mem buf index = .ok (bitAt mem buf index.toNat) := by
  unfold bitmapGetBit
  rw [assertThat_of hbuf, bitAt, ofNat_toNat, ← and_bitMask]
  rfl

/-- Distinct bits of a bitmap are distinct bits of memory. -/
theorem byteAddress_inj {i j : ℕ} (hi : i < 2 ^ 32) (hj : j < 2 ^ 32)
    (ha : byteAddress buf (BitVec.ofNat 32 i) = byteAddress buf (BitVec.ofNat 32 j))
    (hk : i % 8 = j % 8) : i = j := by
  have hdiv : ∀ n < 2 ^ 32, ((BitVec.ofNat 32 n / 8 : DWORD).setWidth 64).toNat = n / 8 := by
    intro n hn
    have h8 : (8 : DWORD).toNat = 8 := rfl
    rw [BitVec.toNat_setWidth, BitVec.toNat_udiv, BitVec.toNat_ofNat, h8]
    lia
  have hw : ((BitVec.ofNat 32 i / 8 : DWORD).setWidth 64 : QWORD) =
      (BitVec.ofNat 32 j / 8 : DWORD).setWidth 64 := by
    simpa [byteAddress] using ha
  have hn := congrArg BitVec.toNat hw
  rw [hdiv i hi, hdiv j hj] at hn
  lia

theorem covers_iff {lo n i : ℕ} (hn : lo + n ≤ 2 ^ 32) (hi : i < 2 ^ 32) :
    Covers buf lo n (byteAddress buf (BitVec.ofNat 32 i)) (i % 8) ↔ lo ≤ i ∧ i < lo + n := by
  constructor
  · intro h
    obtain ⟨j, hlo, hhi, ha, hk⟩ := h
    obtain rfl := byteAddress_inj hi (by omega) ha hk
    exact ⟨hlo, hhi⟩
  · intro h
    exact ⟨i, h.1, h.2, rfl, rfl⟩

variable (mem set) in
private theorem bitmapChangeBit_spec (hbuf : buf ≠ 0) (index : DWORD) :
    ∃ mem', bitmapChangeBit mem buf index set = .ok mem' ∧ ∀ a k, k < 8 →
      (mem' a).getLsbD k = if a = byteAddress buf index ∧ k = index.toNat % 8 then set
        else (mem a).getLsbD k := by
  have heq : bitmapChangeBit mem buf index set = .ok fun a => if a = byteAddress buf index then
      (if set then mem (byteAddress buf index) ||| bitMask index
        else mem (byteAddress buf index) &&& ~~~(bitMask index)) else mem a := by
    unfold bitmapChangeBit
    rw [assertThat_of hbuf]
    rfl
  refine ⟨_, heq, fun a k hk => ?_⟩
  by_cases ha : a = byteAddress buf index
  · subst ha
    by_cases hki : k = index.toNat % 8
    · subst hki
      cases set <;> simp [bitMask_getLsbD index hk]
    · have hbit : (bitMask index)[k] = false := by
        rw [← BitVec.getLsbD_eq_getElem, bitMask_getLsbD index hk]
        simp [hki]
      cases set <;> simp [hki, hk, hbit]
  · simp [ha]

variable (mem set) in
/-- The loop that changes bits, one step at a time. -/
theorem bitmapChangeBits_spec (hbuf : buf ≠ 0) (index : DWORD) (count : ℕ)
    (hcount : index.toNat + count ≤ 2 ^ 32) :
    ∃ mem', bitmapChangeBits mem buf index set count = .ok mem' ∧
      ChangedBits mem mem' buf set index.toNat count := by
  induction count with
  | zero =>
    refine ⟨mem, rfl, fun a k _ => ⟨fun hc => ?_, fun _ => rfl⟩⟩
    obtain ⟨i, hlo, hhi, -⟩ := hc
    omega
  | succ count ih =>
    obtain ⟨mem₁, h₁, hspec₁⟩ := ih (by omega)
    obtain ⟨mem₂, h₂, hspec₂⟩ := bitmapChangeBit_spec mem₁ set hbuf
      (index + BitVec.ofNat 32 count)
    have hlast : (index + BitVec.ofNat 32 count).toNat = index.toNat + count := by
      rw [BitVec.toNat_add, BitVec.toNat_ofNat]
      lia
    have hlast' : index + BitVec.ofNat 32 count = BitVec.ofNat 32 (index.toNat + count) := by
      rw [← hlast, ofNat_toNat]
    refine ⟨mem₂, ?_, fun a k hk => ?_⟩
    · simp only [bitmapChangeBits, h₁]
      exact h₂
    · have hnew := hspec₂ a k hk
      rw [hlast] at hnew
      obtain ⟨hin, hout⟩ := hspec₁ a k hk
      constructor
      · intro hc
        obtain ⟨i, hlo, hhi, ha, hki⟩ := hc
        by_cases hi : i < index.toNat + count
        · rw [hnew]
          split_ifs
          · rfl
          · exact hin ⟨i, hlo, hi, ha, hki⟩
        · obtain rfl : i = index.toNat + count := by lia
          rw [hnew, if_pos ⟨hlast' ▸ ha, hki⟩]
      · intro hc
        rw [hnew, if_neg, hout]
        · intro hc'
          obtain ⟨i, hlo, hhi, ha, hki⟩ := hc'
          exact hc ⟨i, hlo, by omega, ha, hki⟩
        · intro hc'
          exact hc ⟨index.toNat + count, by omega, by omega, hlast' ▸ hc'.1, hc'.2⟩

/-- The single bits after a change. -/
theorem ChangedBits.bitAt {lo n i : ℕ} (h : ChangedBits mem mem' buf set lo n)
    (hn : lo + n ≤ 2 ^ 32) (hi : i < 2 ^ 32) :
    bitAt mem' buf i = if lo ≤ i ∧ i < lo + n then set else bitAt mem buf i := by
  obtain ⟨hon, hoff⟩ := h (byteAddress buf (BitVec.ofNat 32 i)) (i % 8) (Nat.mod_lt _ (by norm_num))
  rw [covers_iff hn hi] at hon hoff
  by_cases hin : lo ≤ i ∧ i < lo + n
  · rw [if_pos hin]
    exact hon hin
  · rw [if_neg hin]
    exact hoff hin

/-- A bitmap that was just initialised has every bit clear. -/
theorem bitAt_memset {n : DWORD} {pre : Bitmap} (buf : QWORD)
    (hpre : bitmapPreinit n = .ok pre) {i : ℕ} (hi : i < n.toNat) :
    bitAt (memset mem buf 0 (pre.bufferSize.setWidth 64)) buf i = false := by
  obtain ⟨-, -, hsize⟩ := bitmapPreinit_spec hpre
  have hlt := n.isLt
  have hidx : ((BitVec.ofNat 32 i / 8 : DWORD).setWidth 64 : QWORD).toNat = i / 8 := by
    have h8 : (8 : DWORD).toNat = 8 := rfl
    rw [BitVec.toNat_setWidth, BitVec.toNat_udiv, BitVec.toNat_ofNat, h8]
    lia
  have hin : byteAddress buf (BitVec.ofNat 32 i) - buf < (pre.bufferSize.setWidth 64 : QWORD) := by
    have hsub : byteAddress buf (BitVec.ofNat 32 i) - buf =
        (BitVec.ofNat 32 i / 8 : DWORD).setWidth 64 := by
      rw [byteAddress, BitVec.add_comm, BitVec.add_sub_cancel]
    rw [hsub, BitVec.lt_def, hidx, BitVec.toNat_setWidth, hsize]
    lia
  rw [bitAt, memset, if_pos hin]
  simp

/-- The bits `i`, …, `i + n - 1` lie below `limit` and have the value `set`. -/
def BitRun (mem : Memory) (buf : QWORD) (set : Bool) (limit n i : ℕ) : Prop :=
  i + n ≤ limit ∧ ∀ k < n, bitAt mem buf (i + k) = set

theorem bitsMatch_eq (hbuf : buf ≠ 0) (index : DWORD) (n : ℕ) (hn : index.toNat + n ≤ 2 ^ 32) :
    bitsMatch mem buf set index n =
      .ok (decide (∀ k < n, bitAt mem buf (index.toNat + k) = set)) := by
  induction n generalizing index with
  | zero => simp [bitsMatch]
  | succ n ih =>
    rw [bitsMatch, bitmapGetBit_eq hbuf]
    by_cases hbit : set = bitAt mem buf index.toNat
    · have hrest : bitsMatch mem buf set (index + 1) n =
          .ok (decide (∀ k < n, bitAt mem buf (index.toNat + 1 + k) = set)) := by
        rcases Nat.eq_zero_or_pos n with rfl | hpos
        · simp [bitsMatch]
        · have hnext : (index + 1).toNat = index.toNat + 1 := toNat_add_one (by omega)
          rw [ih (index + 1) (by omega), hnext]
      have hall : (∀ k < n + 1, bitAt mem buf (index.toNat + k) = set) ↔
          ∀ k < n, bitAt mem buf (index.toNat + 1 + k) = set := by
        constructor
        · intro h k hk
          have := h (k + 1) (by omega)
          rwa [show index.toNat + (k + 1) = index.toNat + 1 + k by omega] at this
        · intro h k hk
          cases k with
          | zero => exact hbit.symm
          | succ k =>
            have := h k (by omega)
            rwa [show index.toNat + (k + 1) = index.toNat + 1 + k by omega]
      simp only [bind, Except.bind, hrest, hall]
      rw [if_neg (by simpa using hbit)]
    · have hfail : ¬ ∀ k < n + 1, bitAt mem buf (index.toNat + k) = set := fun h =>
        hbit (h 0 (by omega)).symm
      simp only [bind, Except.bind, hfail, decide_false]
      rw [if_pos hbit]
      rfl

variable (mem set) in
/-- The outer loop returns the first index where a run starts. -/
private theorem scanFrom_spec (hbuf : buf ≠ 0) (n : DWORD) (i : DWORD) (m : ℕ)
    (hm : i.toNat + m + n.toNat ≤ 2 ^ 32) (hpos : 0 < n.toNat) :
    ∃ r, scanFrom mem buf n set i m = .ok r ∧
      ((r = maxDword ∧ ∀ d < m, ¬ ∀ k < n.toNat, bitAt mem buf (i.toNat + d + k) = set) ∨
        ∃ d < m, r.toNat = i.toNat + d ∧ (∀ k < n.toNat, bitAt mem buf (i.toNat + d + k) = set) ∧
          ∀ d' < d, ¬ ∀ k < n.toNat, bitAt mem buf (i.toNat + d' + k) = set) := by
  induction m generalizing i with
  | zero => exact ⟨maxDword, rfl, Or.inl ⟨rfl, fun d hd => absurd hd (by omega)⟩⟩
  | succ m ih =>
    simp only [scanFrom, bitsMatch_eq hbuf i n.toNat (by omega), bind, Except.bind]
    by_cases hrun : ∀ k < n.toNat, bitAt mem buf (i.toNat + k) = set
    · refine ⟨i, ?_, Or.inr ⟨0, by omega, rfl, hrun, fun d hd => absurd hd (by omega)⟩⟩
      rw [if_pos (by simpa using hrun)]
      rfl
    · rw [if_neg (by simpa using hrun)]
      have hnext : (i + 1).toNat = i.toNat + 1 := toNat_add_one (by omega)
      obtain ⟨r, hr, hspec⟩ := ih (i + 1) (by omega)
      refine ⟨r, hr, ?_⟩
      rw [hnext] at hspec
      have hshift : ∀ d k, i.toNat + 1 + d + k = i.toNat + (d + 1) + k := by omega
      rcases hspec with ⟨hmax, hnone⟩ | ⟨d, hd, hrd, hhere, hbefore⟩
      · refine Or.inl ⟨hmax, fun d hd => ?_⟩
        cases d with
        | zero => exact hrun
        | succ d =>
          have := hnone d (by omega)
          simpa only [hshift] using this
      · refine Or.inr ⟨d + 1, by omega, by omega, ?_, fun d' hd' => ?_⟩
        · simpa only [hshift] using hhere
        · cases d' with
          | zero => exact hrun
          | succ d' =>
            have := hbefore d' (by omega)
            simpa only [hshift] using this

variable (mem set) in
/-- The scan returns the least start of a run, or the greatest index if there is none. -/
theorem bitmapScanInternal_spec {b : Bitmap} (hbuf : b.bitmapBuffer ≠ 0) {start limit n : DWORD}
    (hn : n ≠ 0) (hstart : start ≤ limit) (hlimit : limit ≤ b.bitCount) :
    ∃ r, bitmapScanInternal mem b start limit n set = .ok r ∧
      ((r = maxDword ∧ ∀ i, start.toNat ≤ i →
          ¬ BitRun mem b.bitmapBuffer set limit.toNat n.toNat i) ∨
        r ≠ maxDword ∧ IsLeast {i | start.toNat ≤ i ∧
          BitRun mem b.bitmapBuffer set limit.toNat n.toNat i} r.toNat) := by
  have hlt := limit.isLt
  have hpos : 0 < n.toNat := by
    apply Nat.pos_of_ne_zero
    intro h0
    exact hn (BitVec.eq_of_toNat_eq h0)
  have hle : start.toNat ≤ limit.toNat := hstart
  have hmax : maxDword.toNat = 2 ^ 32 - 1 := rfl
  simp only [bitmapScanInternal, assertThat_of hn, assertThat_of hstart, assertThat_of hlimit, bind,
    Except.bind]
  have hdiff : (limit - start).toNat = limit.toNat - start.toNat := BitVec.toNat_sub_of_le hstart
  by_cases hshort : limit - start < n
  · rw [if_pos hshort]
    refine ⟨maxDword, rfl, Or.inl ⟨rfl, fun i hi hrun => ?_⟩⟩
    have hshort : (limit - start).toNat < n.toNat := hshort
    have := hrun.1
    lia
  · rw [if_neg hshort]
    have hlong : n.toNat ≤ limit.toNat - start.toNat := by
      rw [← hdiff]
      exact Nat.le_of_not_lt hshort
    have hlast : (limit - n).toNat = limit.toNat - n.toNat :=
      BitVec.toNat_sub_of_le (show n.toNat ≤ limit.toNat by lia)
    rw [hlast]
    obtain ⟨r, hr, hspec⟩ := scanFrom_spec mem set hbuf n start
      (limit.toNat - n.toNat + 1 - start.toNat) (by lia) hpos
    refine ⟨r, hr, ?_⟩
    rcases hspec with ⟨heq, hnone⟩ | ⟨d, hd, hrd, hhere, hbefore⟩
    · refine Or.inl ⟨heq, fun i hi hrun => ?_⟩
      apply hnone (i - start.toNat) (by have := hrun.1; lia)
      rw [show start.toNat + (i - start.toNat) = i by omega]
      exact hrun.2
    · refine Or.inr ⟨?_, ⟨by omega, ?_, ?_⟩, ?_⟩
      · intro heq
        rw [heq, hmax] at hrd
        lia
      · lia
      · rw [hrd]
        exact hhere
      · intro i hi
        obtain ⟨hi, hrun⟩ := hi
        by_contra hlt
        apply hbefore (i - start.toNat) (by omega)
        rw [show start.toNat + (i - start.toNat) = i by lia]
        exact hrun.2

variable (mem set) in
/-- The first run between two bits is flipped. -/
theorem bitmapScanFromToAndFlip_spec {b : Bitmap} (hbuf : b.bitmapBuffer ≠ 0) (index : DWORD)
    {limit n : DWORD} (hn : n ≠ 0) (hlimit : limit ≤ b.bitCount) :
    ∃ r mem', bitmapScanFromToAndFlip mem b index limit n set = .ok (r, mem') ∧
      ((r = maxDword ∧ mem' = mem ∧ ∀ i, index.toNat ≤ i →
          ¬ BitRun mem b.bitmapBuffer set limit.toNat n.toNat i) ∨
        r ≠ maxDword ∧ IsLeast {i | index.toNat ≤ i ∧
          BitRun mem b.bitmapBuffer set limit.toNat n.toNat i} r.toNat ∧
          ChangedBits mem mem' b.bitmapBuffer (!set) r.toNat n.toNat) := by
  simp only [bitmapScanFromToAndFlip, if_neg hn]
  by_cases hout : limit < index
  · rw [if_pos (Or.inl hout)]
    refine ⟨maxDword, mem, rfl, Or.inl ⟨rfl, rfl, fun i hi hrun => ?_⟩⟩
    have hout : limit.toNat < index.toNat := hout
    have := hrun.1
    omega
  · have hin : index ≤ limit := BitVec.not_lt.mp hout
    rw [if_neg (not_or_intro hout (BitVec.not_lt.mpr hlimit))]
    obtain ⟨r, hr, hspec⟩ := bitmapScanInternal_spec mem set hbuf hn hin hlimit
    simp only [hr, bind, Except.bind]
    rcases hspec with ⟨rfl, hnone⟩ | ⟨hne, hleast⟩
    · exact ⟨maxDword, mem, by simp [pure, Except.pure], Or.inl ⟨rfl, rfl, hnone⟩⟩
    · rw [if_neg hne]
      have hfits := hleast.1.2.1
      have hlt := limit.isLt
      obtain ⟨mem', hmem, hbits⟩ := bitmapChangeBits_spec mem (!set) hbuf r n.toNat
        (by omega)
      rw [hmem]
      exact ⟨r, mem', rfl, Or.inr ⟨hne, hleast, hbits⟩⟩

variable (mem set) in
theorem bitmapScanFromAndFlip_spec {b : Bitmap} (hbuf : b.bitmapBuffer ≠ 0) (index : DWORD)
    {n : DWORD} (hn : n ≠ 0) :
    ∃ r mem', bitmapScanFromAndFlip mem b index n set = .ok (r, mem') ∧
      ((r = maxDword ∧ mem' = mem ∧ ∀ i, index.toNat ≤ i →
          ¬ BitRun mem b.bitmapBuffer set b.bitCount.toNat n.toNat i) ∨
        r ≠ maxDword ∧ IsLeast {i | index.toNat ≤ i ∧
          BitRun mem b.bitmapBuffer set b.bitCount.toNat n.toNat i} r.toNat ∧
          ChangedBits mem mem' b.bitmapBuffer (!set) r.toNat n.toNat) :=
  bitmapScanFromToAndFlip_spec mem set hbuf index hn (BitVec.le_refl b.bitCount)

end Bits

end HAL9000
