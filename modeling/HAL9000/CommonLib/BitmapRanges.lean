import HAL9000.CommonLib.BitmapBits

/-! Scans of a bitmap and writes to ranges of its bits, seen from the buffer. -/
namespace HAL9000

/-- A bitmap with a buffer that has a byte for every eight bits. -/
structure Bitmap.Ready (b : Bitmap) : Prop where
  buffer : b.bitmapBuffer ≠ 0
  size : b.bufferSize.toNat = (b.bitCount.toNat + 7) / 8

/-- The address of one of the first `bufferSize` bytes. -/
def Bitmap.Inside (b : Bitmap) (a : QWORD) : Prop := (a - b.bitmapBuffer).toNat < b.bufferSize.toNat

section Ranges

variable {mem mem' : Memory} {b : Bitmap} {set : Bool} {index limit n r : DWORD}

theorem Bitmap.Ready.inside (hb : b.Ready) {i : ℕ} (hi : i < b.bitCount.toNat) :
    b.Inside (byteAddress b.bitmapBuffer (BitVec.ofNat 32 i)) := by
  have hlt := b.bitCount.isLt
  have h8 : (8 : DWORD).toNat = 8 := rfl
  have hindex : ((BitVec.ofNat 32 i / 8 : DWORD).setWidth 64 : QWORD).toNat = i / 8 := by
    rw [BitVec.toNat_setWidth, BitVec.toNat_udiv, BitVec.toNat_ofNat, h8]
    lia
  unfold Bitmap.Inside byteAddress
  rw [BitVec.add_comm, BitVec.add_sub_cancel, hindex, hb.size]
  lia

/-- Bits of the bitmap lie in the buffer. -/
theorem ChangedBits.outside {lo count : ℕ} (h : ChangedBits mem mem' b.bitmapBuffer set lo count) (hb : b.Ready)
    (hin : lo + count ≤ b.bitCount.toNat) {a : QWORD} (ha : ¬ b.Inside a) : mem' a = mem a := by
  refine BitVec.eq_of_getLsbD_eq fun k hk => (h a k hk).2 ?_
  rintro ⟨i, -, hi, rfl, -⟩
  exact ha (hb.inside (by omega))

theorem bitAt_congr (hb : b.Ready) (hsame : ∀ a, b.Inside a → mem' a = mem a) {i : ℕ}
    (hi : i < b.bitCount.toNat) : bitAt mem' b.bitmapBuffer i = bitAt mem b.bitmapBuffer i := by
  unfold bitAt
  rw [hsame _ (hb.inside hi)]

theorem bitRun_congr (hb : b.Ready) (hsame : ∀ a, b.Inside a → mem' a = mem a) {top count i : ℕ}
    (htop : top ≤ b.bitCount.toNat) :
    BitRun mem' b.bitmapBuffer set top count i ↔ BitRun mem b.bitmapBuffer set top count i := by
  unfold BitRun
  refine and_congr_right fun hfits => forall₂_congr fun k hk => ?_
  rw [bitAt_congr hb hsame (by omega)]

/-- The value of a scan for `n` consecutive bits. -/
def IsFirstRun (mem : Memory) (b : Bitmap) (set : Bool) (index limit n r : DWORD) : Prop :=
  (r = maxDword ∧ ∀ i, index.toNat ≤ i → ¬ BitRun mem b.bitmapBuffer set limit.toNat n.toNat i) ∨
    r ≠ maxDword ∧ IsLeast {i | index.toNat ≤ i ∧ BitRun mem b.bitmapBuffer set limit.toNat n.toNat i} r.toNat

theorem IsFirstRun.unique {r' : DWORD} (h : IsFirstRun mem b set index limit n r)
    (h' : IsFirstRun mem b set index limit n r') : r = r' := by
  rcases h with ⟨rfl, hnone⟩ | ⟨-, hleast⟩
  · rcases h' with ⟨rfl, -⟩ | ⟨-, hleast⟩
    · rfl
    · exact absurd hleast.1.2 (hnone _ hleast.1.1)
  · rcases h' with ⟨-, hnone⟩ | ⟨-, hleast'⟩
    · exact absurd hleast.1.2 (hnone _ hleast.1.1)
    · exact BitVec.eq_of_toNat_eq (hleast.unique hleast')

theorem isFirstRun_congr (hb : b.Ready) (hlimit : limit ≤ b.bitCount)
    (hsame : ∀ a, b.Inside a → mem' a = mem a) :
    IsFirstRun mem' b set index limit n r ↔ IsFirstRun mem b set index limit n r := by
  unfold IsFirstRun
  simp only [bitRun_congr hb hsame hlimit]

theorem bitmapScanFromTo_eq (hn : n ≠ 0) (hindex : index ≤ limit) (hlimit : limit ≤ b.bitCount) :
    bitmapScanFromTo mem b index limit n set = bitmapScanInternal mem b index limit n set := by
  unfold bitmapScanFromTo
  rw [if_neg hn, if_neg (not_or_intro (BitVec.not_lt.mpr hindex) (BitVec.not_lt.mpr hlimit))]

/-- Both scans return the first run. The second one flips it and changes no byte behind the buffer, and neither
depends on such a byte. -/
theorem bitmapScan_exact (hb : b.Ready) (hindex : index ≤ limit) (hlimit : limit ≤ b.bitCount) (hn : n ≠ 0)
    (mem : Memory) (set : Bool) :
    ∃ r, IsFirstRun mem b set index limit n r ∧ ∀ mem₁ : Memory, (∀ a, b.Inside a → mem₁ a = mem a) →
      bitmapScanFromTo mem₁ b index limit n set = .ok r ∧ ∃ mem₂,
        bitmapScanFromToAndFlip mem₁ b index limit n set = .ok (r, mem₂) ∧ (r = maxDword → mem₂ = mem₁) ∧
        (r ≠ maxDword → ChangedBits mem₁ mem₂ b.bitmapBuffer (!set) r.toNat n.toNat) ∧
        ∀ a, ¬ b.Inside a → mem₂ a = mem₁ a := by
  obtain ⟨r, -, hfirst⟩ := bitmapScanInternal_spec mem set hb.buffer hn hindex hlimit
  refine ⟨r, hfirst, fun mem₁ hsame => ?_⟩
  have hfirst₁ : IsFirstRun mem₁ b set index limit n r := (isFirstRun_congr hb hlimit hsame).mpr hfirst
  obtain ⟨r₁, hscan, hspec₁⟩ := bitmapScanInternal_spec mem₁ set hb.buffer hn hindex hlimit
  obtain rfl : r₁ = r := IsFirstRun.unique hspec₁ hfirst₁
  refine ⟨(bitmapScanFromTo_eq hn hindex hlimit).trans hscan, ?_⟩
  obtain ⟨r₂, mem₂, hflip, hspec₂⟩ := bitmapScanFromToAndFlip_spec mem₁ set hb.buffer index hn hlimit
  rcases hspec₂ with ⟨hmax, rfl, hnone⟩ | ⟨hne, hleast, hchanged⟩
  · obtain rfl : r₂ = r₁ := IsFirstRun.unique (Or.inl ⟨hmax, hnone⟩) hfirst₁
    exact ⟨mem₂, hflip, fun _ => rfl, fun hne => absurd hmax hne, fun _ _ => rfl⟩
  · obtain rfl : r₂ = r₁ := IsFirstRun.unique (Or.inr ⟨hne, hleast⟩) hfirst₁
    have hfits : r₂.toNat + n.toNat ≤ limit.toNat := hleast.1.2.1
    have hin : r₂.toNat + n.toNat ≤ b.bitCount.toNat := hfits.trans hlimit
    exact ⟨mem₂, hflip, fun hmax => absurd hmax hne, fun _ => hchanged, fun a => hchanged.outside hb hin⟩

theorem bitmapScan_exact_byte : ∃ r, IsFirstRun (fun _ => 0xF0) ⟨0x1000, 1, 8⟩ true 1 8 3 r ∧ ∀ mem₁ : Memory,
    (∀ a, (⟨0x1000, 1, 8⟩ : Bitmap).Inside a → mem₁ a = 0xF0) →
      bitmapScanFromTo mem₁ ⟨0x1000, 1, 8⟩ 1 8 3 true = .ok r ∧ ∃ mem₂,
        bitmapScanFromToAndFlip mem₁ ⟨0x1000, 1, 8⟩ 1 8 3 true = .ok (r, mem₂) ∧ (r = maxDword → mem₂ = mem₁) ∧
        (r ≠ maxDword → ChangedBits mem₁ mem₂ 0x1000 (!true) r.toNat (3 : DWORD).toNat) ∧
        ∀ a, ¬ (⟨0x1000, 1, 8⟩ : Bitmap).Inside a → mem₂ a = mem₁ a :=
  bitmapScan_exact ⟨by decide, by decide⟩ (by decide) (by decide) (by decide) (fun _ => 0xF0) true

/-- The call asserts, or changes bits of the bitmap only. -/
def GuardsRange (mem : Memory) (b : Bitmap) (index count : DWORD) (set : Bool) : Prop :=
  bitmapSetBitsValue mem b index count set = .error .assertFailed ∨ ∃ mem',
    bitmapSetBitsValue mem b index count set = .ok mem' ∧ index.toNat + count.toNat ≤ b.bitCount.toNat ∧
      ChangedBits mem mem' b.bitmapBuffer set index.toNat count.toNat

/-- Without a buffer the first bit that is changed asserts. -/
theorem bitmapChangeBits_null (mem : Memory) (index : DWORD) (set : Bool) (count : ℕ) :
    bitmapChangeBits mem 0 index set (count + 1) = .error .assertFailed := by
  induction count with
  | zero => rfl
  | succ count ih =>
    rw [bitmapChangeBits, ih]
    rfl

/-- The difference of a count that is too large wraps to one that lets every index pass. -/
theorem le_sub_of_gt {bitCount count : DWORD} (hindex : index < bitCount) (hcount : bitCount < count) :
    index ≤ bitCount - count := by
  rw [BitVec.lt_def] at hindex hcount
  rw [BitVec.le_def, BitVec.toNat_sub]
  have := count.isLt
  lia

theorem bitmapChangeBits_returns {buf : QWORD} (hbuf : buf ≠ 0) (mem : Memory) (index : DWORD) (set : Bool)
    (count : ℕ) : ∃ mem', bitmapChangeBits mem buf index set count = .ok mem' := by
  induction count with
  | zero => exact ⟨mem, rfl⟩
  | succ count ih =>
    obtain ⟨mem₁, hrun⟩ := ih
    rw [bitmapChangeBits, hrun]
    change ∃ mem', bitmapChangeBit mem₁ buf (index + BitVec.ofNat 32 count) set = .ok mem'
    unfold bitmapChangeBit
    rw [assertThat_of hbuf]
    exact ⟨_, rfl⟩

theorem changedBits_zero (mem : Memory) (buf : QWORD) (set : Bool) (lo : ℕ) : ChangedBits mem mem buf set lo 0 := by
  refine fun a k _ => ⟨fun hcovers => ?_, fun _ => rfl⟩
  obtain ⟨i, hlo, hhi, -⟩ := hcovers
  omega

theorem bitmapSetBitsValue_of_lt (hindex : index < b.bitCount) (count : DWORD) :
    bitmapSetBitsValue mem b index count set = assertThat (index ≤ b.bitCount - count) >>= fun _ =>
      bitmapChangeBits mem b.bitmapBuffer index set count.toNat := by
  unfold bitmapSetBitsValue
  rw [assertThat_of hindex]
  rfl

/-- A count that is not larger than the bitmap is checked as it should be. -/
theorem guardsRange_of_le (mem : Memory) (set : Bool) {count : DWORD} (hindex : index < b.bitCount)
    (hcount : count ≤ b.bitCount) : GuardsRange mem b index count set := by
  have hdiff : (b.bitCount - count).toNat = b.bitCount.toNat - count.toNat := BitVec.toNat_sub_of_le hcount
  have hlt := b.bitCount.isLt
  rw [BitVec.le_def] at hcount
  unfold GuardsRange
  rw [bitmapSetBitsValue_of_lt hindex]
  by_cases hguard : index ≤ b.bitCount - count
  · have hfits : index.toNat + count.toNat ≤ b.bitCount.toNat := by
      rw [BitVec.le_def, hdiff] at hguard
      omega
    rw [assertThat_of hguard]
    by_cases hbuf : b.bitmapBuffer = 0
    · rw [hbuf]
      cases count.toNat with
      | zero => exact Or.inr ⟨mem, rfl, hindex.le, changedBits_zero mem 0 set _⟩
      | succ n => exact Or.inl (bitmapChangeBits_null mem index set n)
    · obtain ⟨mem', hrun, hchanged⟩ := bitmapChangeBits_spec mem set hbuf index count.toNat (by omega)
      exact Or.inr ⟨mem', hrun, hfits, hchanged⟩
  · rw [assertThat_of_not hguard]
    exact Or.inl rfl

/-- The range is guarded exactly if the index is refused, or the count is not larger than the bitmap; without a
buffer the first write asserts. -/
theorem guardsRange_iff (mem : Memory) (b : Bitmap) (index count : DWORD) (set : Bool) :
    GuardsRange mem b index count set ↔ b.bitmapBuffer = 0 ∨ b.bitCount ≤ index ∨ count ≤ b.bitCount := by
  by_cases hindex : index < b.bitCount
  · by_cases hcount : count ≤ b.bitCount
    · exact iff_of_true (guardsRange_of_le mem set hindex hcount) (Or.inr (Or.inr hcount))
    · have hlarge := BitVec.not_le.mp hcount
      have hpos : ∃ n, count.toNat = n + 1 := Nat.exists_eq_succ_of_ne_zero (Nat.ne_zero_of_lt hlarge)
      unfold GuardsRange
      rw [bitmapSetBitsValue_of_lt hindex, assertThat_of (le_sub_of_gt hindex hlarge)]
      by_cases hbuf : b.bitmapBuffer = 0
      · obtain ⟨n, hn⟩ := hpos
        rw [hbuf, hn]
        exact iff_of_true (Or.inl (bitmapChangeBits_null mem index set n)) (Or.inl rfl)
      · obtain ⟨mem', hrun⟩ := bitmapChangeBits_returns hbuf mem index set count.toNat
        refine iff_of_false ?_ (not_or.mpr ⟨hbuf, not_or.mpr ⟨BitVec.not_le.mpr hindex, hcount⟩⟩)
        rintro (hasserts | ⟨-, -, hfits, -⟩)
        · cases hrun.symm.trans hasserts
        · rw [BitVec.lt_def] at hlarge
          omega
  · have hasserts : bitmapSetBitsValue mem b index count set = .error .assertFailed := by
      unfold bitmapSetBitsValue
      rw [assertThat_of_not hindex]
      rfl
    exact iff_of_true (Or.inl hasserts) (Or.inr (Or.inl (BitVec.not_lt.mp hindex)))

/-- Nine bits of a bitmap that has eight. -/
theorem not_guardsRange : ¬ ∀ (mem : Memory) (b : Bitmap), b.Ready → ∀ (index count : DWORD) (set : Bool),
    GuardsRange mem b index count set := by
  intro hall
  rcases hall (fun _ => 0xFF) ⟨0x1000, 1, 8⟩ ⟨by decide, by decide⟩ 0 9 false with hasserts | ⟨-, -, hfits, -⟩
  · obtain ⟨mem', hrun⟩ := @bitmapChangeBits_returns 0x1000 (by decide) (fun _ => 0xFF) 0 false (9 : DWORD).toNat
    rw [bitmapSetBitsValue_of_lt (by decide), assertThat_of (by decide)] at hasserts
    cases hrun.symm.trans hasserts
  · exact absurd hfits (by decide)

end Ranges

end HAL9000
