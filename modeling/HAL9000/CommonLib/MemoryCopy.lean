import HAL9000.CommonLib.Memory
import Mathlib.Tactic.IntervalCases

/-! `cl_memcpy` of `cl_memory.c`: the low bits of the count are copied in pieces of 4, 2 and 1 bytes, the rest in
quadwords. An access of several bytes reads all of them before any is written. -/
namespace HAL9000

namespace MappedMemory

/-- The bytes of a word in memory. -/
def readWord (m : MappedMemory) (a : QWORD) : ℕ → Except Fault (List BYTE)
  | 0 => .ok []
  | n + 1 => do
    let b ← m.read a
    return b :: (← m.readWord (a + 1) n)

def writeWord (m : MappedMemory) (a : QWORD) : List BYTE → Except Fault MappedMemory
  | [] => .ok m
  | b :: bs => do writeWord (← m.write a b) (a + 1) bs

end MappedMemory

/-- `*dst = *src` for words of `size` bytes. -/
def copyWord (m : MappedMemory) (dst src : QWORD) (size : ℕ) : Except Fault MappedMemory := do
  m.writeWord dst (← m.readWord src size)

/-- A piece of `size` bytes, if its bit is set, with the pointers behind it. -/
def copyPiece (bit : QWORD) (size : ℕ) (unalignedCount : QWORD) (m : MappedMemory) (dst src : QWORD) :
    Except Fault (MappedMemory × QWORD × QWORD) :=
  if unalignedCount &&& bit ≠ 0 then do
    return (← copyWord m dst src size, dst + BitVec.ofNat 64 size, src + BitVec.ofNat 64 size)
  else .ok (m, dst, src)

/-- `__movsq` with the direction flag clear. -/
def movsq : ℕ → QWORD → QWORD → MappedMemory → Except Fault MappedMemory
  | 0, _, _, m => .ok m
  | n + 1, dst, src, m => do movsq n (dst + 8) (src + 8) (← copyWord m dst src 8)

def clMemcpy (m : MappedMemory) (Destination Source Count : QWORD) : Except Fault MappedMemory :=
  if Destination = 0 ∨ Source = 0 then .ok m
  else do
    let unalignedCount := Count &&& 0x7
    let alignedCount := Count - unalignedCount
    let (m, dst, src) ← copyPiece 0x4 4 unalignedCount m Destination Source
    let (m, dst, src) ← copyPiece 0x2 2 unalignedCount m dst src
    let (m, _, _) ← copyPiece 0x1 1 unalignedCount m dst src
    if alignedCount ≠ 0 then do
      assertThat (isAddressAligned alignedCount 8 = true)
      movsq (alignedCount / 8).toNat (Destination + unalignedCount) (Source + unalignedCount) m
    else .ok m

/-- The destination holds what the source held, and nothing else has changed. -/
structure Copies (m m' : MappedMemory) (dst src : QWORD) (n : ℕ) : Prop where
  copied : ∀ i < n, m' (dst + BitVec.ofNat 64 i) = m (src + BitVec.ofNat 64 i)
  kept : ∀ a, (∀ i < n, a ≠ dst + BitVec.ofNat 64 i) → m' a = m a

/-- Two disjoint buffers of `n` bytes that may be accessed. -/
structure Buffers (m : MappedMemory) (dst src : QWORD) (n : ℕ) : Prop where
  writable : ∀ i < n, (m (dst + BitVec.ofNat 64 i)).isSome
  readable : ∀ i < n, (m (src + BitVec.ofNat 64 i)).isSome
  disjoint : ∀ i < n, ∀ j < n, dst + BitVec.ofNat 64 i ≠ src + BitVec.ofNat 64 j

section Words

variable {m m' m₁ m₂ : MappedMemory} {a dst src : QWORD} {n k : ℕ}

theorem address_add (a : QWORD) (i j : ℕ) :
    a + BitVec.ofNat 64 i + BitVec.ofNat 64 j = a + BitVec.ofNat 64 (i + j) := by
  rw [BitVec.ofNat_add, BitVec.add_assoc]

theorem address_zero (a : QWORD) : a + BitVec.ofNat 64 0 = a := BitVec.add_zero a

theorem address_one (a : QWORD) (i : ℕ) : a + 1 + BitVec.ofNat 64 i = a + BitVec.ofNat 64 (i + 1) := by
  rw [Nat.add_comm i 1]
  exact address_add a 1 i

theorem address_inj {i j : ℕ} (hi : i < 2 ^ 64) (hj : j < 2 ^ 64)
    (h : a + BitVec.ofNat 64 i = a + BitVec.ofNat 64 j) : i = j := by
  rw [← @MappedMemory.toNat_add_sub a i hi, h, MappedMemory.toNat_add_sub hj]

theorem MappedMemory.readWord_eq (h : ∀ i < n, (m (a + BitVec.ofNat 64 i)).isSome) :
    ∃ bs, m.readWord a n = .ok bs ∧ bs.length = n ∧ ∀ i < n, bs[i]? = m (a + BitVec.ofNat 64 i) := by
  induction n generalizing a with
  | zero => exact ⟨[], rfl, rfl, by simp⟩
  | succ n ih =>
    obtain ⟨b, hb⟩ := Option.isSome_iff_exists.mp (h 0 (Nat.succ_pos n))
    rw [address_zero] at hb
    obtain ⟨bs, hread, hlen, hbytes⟩ := ih fun i hi => by
      rw [address_one]
      exact h (i + 1) (Nat.succ_lt_succ hi)
    refine ⟨b :: bs, ?_, congrArg Nat.succ hlen, fun i hi => ?_⟩
    · unfold readWord read
      rw [hb, hread]
      rfl
    · cases i with
      | zero => simp [hb]
      | succ i =>
        rw [List.getElem?_cons_succ, hbytes i (Nat.lt_of_succ_lt_succ hi), address_one]

theorem MappedMemory.writeWord_eq {bs : List BYTE} (hlen : bs.length < 2 ^ 64)
    (h : ∀ i < bs.length, (m (a + BitVec.ofNat 64 i)).isSome) :
    ∃ m', m.writeWord a bs = .ok m' ∧ (∀ i < bs.length, m' (a + BitVec.ofNat 64 i) = bs[i]?) ∧
      ∀ x, (∀ i < bs.length, x ≠ a + BitVec.ofNat 64 i) → m' x = m x := by
  induction bs generalizing a m with
  | nil => exact ⟨m, rfl, by simp, fun _ _ => rfl⟩
  | cons b bs ih =>
    rw [List.length_cons] at h hlen
    obtain ⟨b₀, hb₀⟩ := Option.isSome_iff_exists.mp (h 0 (Nat.succ_pos _))
    rw [address_zero] at hb₀
    have hne : ∀ i < bs.length, a ≠ a + BitVec.ofNat 64 (i + 1) := by
      intro i hi heq
      have := @address_inj a 0 (i + 1) (by omega) (by omega) ((address_zero a).trans heq)
      omega
    obtain ⟨m', hwrite, hbytes, hkept⟩ := @ih (Function.update m a (some b)) (a + 1) (by omega) fun i hi => by
      rw [address_one, Function.update_of_ne (hne i hi).symm]
      exact h (i + 1) (Nat.succ_lt_succ hi)
    refine ⟨m', ?_, fun i hi => ?_, fun x hx => ?_⟩
    · unfold writeWord write
      rw [hb₀]
      exact hwrite
    · cases i with
      | zero =>
        rw [address_zero, hkept a fun i hi => address_one a i ▸ hne i hi, Function.update_self]
        rfl
      | succ i => rw [← address_one, hbytes i (Nat.lt_of_succ_lt_succ hi), List.getElem?_cons_succ]
    · rw [hkept x fun i hi => address_one a i ▸ hx (i + 1) (Nat.succ_lt_succ hi), Function.update_of_ne]
      have := hx 0 (Nat.succ_pos _)
      rwa [address_zero] at this

theorem copyWord_eq (hn : n < 2 ^ 64) (hdst : ∀ i < n, (m (dst + BitVec.ofNat 64 i)).isSome)
    (hsrc : ∀ i < n, (m (src + BitVec.ofNat 64 i)).isSome) :
    ∃ m', copyWord m dst src n = .ok m' ∧ Copies m m' dst src n := by
  obtain ⟨bs, hread, rfl, hbytes⟩ := MappedMemory.readWord_eq hsrc
  obtain ⟨m', hwrite, hwritten, hkept⟩ := MappedMemory.writeWord_eq hn hdst
  refine ⟨m', ?_, fun i hi => (hwritten i hi).trans (hbytes i hi), hkept⟩
  unfold copyWord
  rw [hread]
  exact hwrite

/-! ### Pieces one after the other -/

theorem Copies.nil (m : MappedMemory) (dst src : QWORD) : Copies m m dst src 0 :=
  ⟨fun i hi => absurd hi (Nat.not_lt_zero i), fun _ _ => rfl⟩

/-- The first bytes of the source are still there. -/
theorem Copies.source (h : Copies m m' dst src n) (hb : Buffers m dst src (n + k)) {j : ℕ} (hj : j < n + k) :
    m' (src + BitVec.ofNat 64 j) = m (src + BitVec.ofNat 64 j) :=
  h.kept _ fun i hi => (hb.disjoint i (by omega) j hj).symm

theorem Copies.isSome (h : Copies m m' dst src n) (hb : Buffers m dst src (n + k)) (ha : (m a).isSome) :
    (m' a).isSome := by
  by_cases hin : ∃ i < n, a = dst + BitVec.ofNat 64 i
  · obtain ⟨i, hi, rfl⟩ := hin
    rw [h.copied i hi]
    exact hb.readable i (by omega)
  · rw [h.kept a fun i hi heq => hin ⟨i, hi, heq⟩]
    exact ha

/-- What is left of the buffers behind a piece. -/
theorem Copies.rest (h : Copies m m' dst src n) (hb : Buffers m dst src (n + k)) :
    Buffers m' (dst + BitVec.ofNat 64 n) (src + BitVec.ofNat 64 n) k := by
  refine ⟨fun i hi => ?_, fun i hi => ?_, fun i hi j hj => ?_⟩
  · rw [address_add]
    exact h.isSome hb (hb.writable _ (by omega))
  · rw [address_add]
    exact h.isSome hb (hb.readable _ (by omega))
  · rw [address_add, address_add]
    exact hb.disjoint _ (by omega) _ (by omega)

theorem Copies.append (h₁ : Copies m m₁ dst src n) (hb : Buffers m dst src (n + k)) (hlt : n + k ≤ 2 ^ 64)
    (h₂ : Copies m₁ m₂ (dst + BitVec.ofNat 64 n) (src + BitVec.ofNat 64 n) k) : Copies m m₂ dst src (n + k) := by
  refine ⟨fun i hi => ?_, fun a ha => ?_⟩
  · by_cases hin : i < n
    · rw [h₂.kept _ fun j hj heq => ?_, h₁.copied i hin]
      rw [address_add] at heq
      have := address_inj (by omega) (by omega) heq
      omega
    · have hback := h₂.copied (i - n) (by omega)
      rw [address_add, address_add, show n + (i - n) = i by omega] at hback
      rw [hback, h₁.source hb hi]
  · rw [h₂.kept a fun i hi => ?_, h₁.kept a fun i hi => ha i (by omega)]
    rw [address_add]
    exact ha (n + i) (by omega)

theorem Buffers.front (hb : Buffers m dst src (n + k)) : Buffers m dst src n :=
  ⟨fun i hi => hb.writable i (by omega), fun i hi => hb.readable i (by omega),
    fun i hi j hj => hb.disjoint i (by omega) j (by omega)⟩

theorem copyPiece_eq {bit unalignedCount : QWORD} {size : ℕ} (hsize : size < 2 ^ 64)
    (hb : Buffers m dst src (if unalignedCount &&& bit ≠ 0 then size else 0)) :
    ∃ m', copyPiece bit size unalignedCount m dst src =
        .ok (m', dst + BitVec.ofNat 64 (if unalignedCount &&& bit ≠ 0 then size else 0),
          src + BitVec.ofNat 64 (if unalignedCount &&& bit ≠ 0 then size else 0)) ∧
      Copies m m' dst src (if unalignedCount &&& bit ≠ 0 then size else 0) := by
  unfold copyPiece
  by_cases hbit : unalignedCount &&& bit ≠ 0
  · simp only [if_pos hbit] at hb ⊢
    obtain ⟨m', hcopy, hcopies⟩ := copyWord_eq hsize hb.writable hb.readable
    refine ⟨m', ?_, hcopies⟩
    rw [hcopy]
    rfl
  · simp only [if_neg hbit]
    refine ⟨m, ?_, .nil m dst src⟩
    rw [address_zero, address_zero]

theorem movsq_eq (n : ℕ) (hlt : 8 * n ≤ 2 ^ 64) (hb : Buffers m dst src (8 * n)) :
    ∃ m', movsq n dst src m = .ok m' ∧ Copies m m' dst src (8 * n) := by
  induction n generalizing m dst src with
  | zero => exact ⟨m, rfl, .nil m dst src⟩
  | succ n ih =>
    rw [show 8 * (n + 1) = 8 + 8 * n by omega] at hb hlt ⊢
    obtain ⟨m₁, hword, hfirst⟩ := copyWord_eq (by omega) hb.front.writable hb.front.readable
    obtain ⟨m₂, hmove, hrest⟩ := ih (by omega) (hfirst.rest hb)
    refine ⟨m₂, ?_, hfirst.append hb hlt hrest⟩
    unfold movsq
    rw [hword]
    exact hmove

end Words

/-- The bytes of the pieces that the low bits of a count select. -/
theorem pieces_eq (count : QWORD) :
    (if count &&& 0x7 &&& 0x4 ≠ 0 then 4 else 0) + ((if count &&& 0x7 &&& 0x2 ≠ 0 then 2 else 0) +
      (if count &&& 0x7 &&& 0x1 ≠ 0 then 1 else 0)) = (count &&& 0x7).toNat := by
  have hlow : count &&& 0x7 = BitVec.ofNat 64 (count &&& 0x7).toNat := by
    rw [BitVec.ofNat_toNat, BitVec.setWidth_eq]
  have hlt : (count &&& 0x7).toNat < 8 := by
    rw [BitVec.toNat_and]
    exact Nat.lt_succ_of_le Nat.and_le_right
  have hall : ∀ k < 8, (if BitVec.ofNat 64 k &&& 0x4 ≠ 0 then 4 else 0) +
      ((if BitVec.ofNat 64 k &&& 0x2 ≠ 0 then 2 else 0) + (if BitVec.ofNat 64 k &&& 0x1 ≠ 0 then 1 else 0)) = k := by
    decide
  rw [hlow]
  simpa using hall _ hlt

section Count

variable {m : MappedMemory} {dst src : QWORD}

theorem and_seven_toNat (count : QWORD) : (count &&& 0x7).toNat = count.toNat % 8 := by
  rw [BitVec.toNat_and]
  exact Nat.and_two_pow_sub_one_eq_mod count.toNat 3

theorem aligned_toNat (count : QWORD) : (count - (count &&& 0x7)).toNat = count.toNat - count.toNat % 8 := by
  have hlow := and_seven_toNat count
  rw [BitVec.toNat_sub_of_le, hlow]
  rw [BitVec.le_def, hlow]
  exact Nat.mod_le _ _

/-- The three pieces copy the low part. -/
theorem copyPieces_eq (count : QWORD) (hb : Buffers m dst src (count &&& 0x7).toNat) :
    ∃ m₁ m₂ m₃ d₁ s₁ d₂ s₂ d₃ s₃, copyPiece 0x4 4 (count &&& 0x7) m dst src = .ok (m₁, d₁, s₁) ∧
      copyPiece 0x2 2 (count &&& 0x7) m₁ d₁ s₁ = .ok (m₂, d₂, s₂) ∧
      copyPiece 0x1 1 (count &&& 0x7) m₂ d₂ s₂ = .ok (m₃, d₃, s₃) ∧
      Copies m m₃ dst src (count &&& 0x7).toNat := by
  have hlt := (count &&& 0x7).isLt
  rw [← pieces_eq count] at hb hlt ⊢
  obtain ⟨m₁, hfour, hcopies₁⟩ := copyPiece_eq (by decide) hb.front
  have hb₁ := hcopies₁.rest hb
  obtain ⟨m₂, htwo, hcopies₂⟩ := copyPiece_eq (by decide) hb₁.front
  obtain ⟨m₃, hone, hcopies₃⟩ := copyPiece_eq (by decide) (hcopies₂.rest hb₁)
  refine ⟨m₁, m₂, m₃, _, _, _, _, _, _, hfour, htwo, hone, hcopies₁.append hb hlt.le ?_⟩
  exact hcopies₂.append hb₁ (by omega) hcopies₃

end Count

/-- Every count and all disjoint buffers that may be accessed, whatever else may: all bytes are copied, and nothing
else is read or changes. -/
theorem clMemcpy_copies (m : MappedMemory) (Destination Source Count : QWORD)
    (hnull : Count = 0 ∨ Destination ≠ 0 ∧ Source ≠ 0) (hbuffers : Buffers m Destination Source Count.toNat) :
    ∃ m', clMemcpy m Destination Source Count = .ok m' ∧ Copies m m' Destination Source Count.toNat := by
  unfold clMemcpy
  by_cases hn : Destination = 0 ∨ Source = 0
  · have hzero : Count = 0 := hnull.resolve_right fun h => hn.elim h.1 h.2
    rw [if_pos hn, hzero]
    exact ⟨m, rfl, .nil m _ _⟩
  · have hlow := and_seven_toNat Count
    have haligned := aligned_toNat Count
    have hcount := Count.isLt
    rw [if_neg hn]
    by_cases hbulk : Count - (Count &&& 0x7) = 0
    · have hall : Count.toNat = (Count &&& 0x7).toNat := by
        rw [hbulk] at haligned
        change 0 = _ at haligned
        lia
      rw [hall] at hbuffers ⊢
      obtain ⟨m₁, m₂, m₃, d₁, s₁, d₂, s₂, d₃, s₃, hfour, htwo, hone, hcopies⟩ := copyPieces_eq Count hbuffers
      refine ⟨m₃, ?_, hcopies⟩
      simp only [bind, Except.bind, hfour, htwo, hone]
      exact if_neg (not_not_intro hbulk)
    · have hwords : ((Count - (Count &&& 0x7)) / 8).toNat = (Count.toNat - Count.toNat % 8) / 8 := by
        rw [BitVec.toNat_udiv, haligned]
        rfl
      have hsplit : Count.toNat = (Count &&& 0x7).toNat + 8 * ((Count - (Count &&& 0x7)) / 8).toNat := by lia
      have hoffset : BitVec.ofNat 64 (Count &&& 0x7).toNat = Count &&& 0x7 := by
        rw [BitVec.ofNat_toNat, BitVec.setWidth_eq]
      have hassert : isAddressAligned (Count - (Count &&& 0x7)) 8 = true := by
        rw [isAddressAligned_iff (k := 3) rfl, haligned]
        change 8 ∣ _
        lia
      rw [hsplit] at hbuffers ⊢
      obtain ⟨m₁, m₂, m₃, d₁, s₁, d₂, s₂, d₃, s₃, hfour, htwo, hone, hcopies⟩ :=
        copyPieces_eq Count hbuffers.front
      have hrest := hcopies.rest hbuffers
      obtain ⟨m₄, hmove, hcopies'⟩ := movsq_eq _ (by lia) hrest
      refine ⟨m₄, ?_, hcopies.append hbuffers (by lia) hcopies'⟩
      rw [hoffset] at hmove
      simp only [bind, Except.bind, hfour, htwo, hone]
      rw [if_pos hbulk, assertThat_of hassert]
      exact hmove

/-- Eleven bytes: two pieces and a quadword. -/
private def elevenBytes : MappedMemory := fun a =>
  if a.toNat < 0x1000 ∨ 0x1020 ≤ a.toNat then none else some (BitVec.ofNat 8 a.toNat)

private theorem elevenBytes_buffers : Buffers elevenBytes 0x1000 0x1010 11 := by
  constructor <;> decide

theorem clMemcpy_copies_eleven :
    ∃ m', clMemcpy elevenBytes 0x1000 0x1010 11 = .ok m' ∧ Copies elevenBytes m' 0x1000 0x1010 11 :=
  clMemcpy_copies elevenBytes 0x1000 0x1010 11 (by decide) elevenBytes_buffers

end HAL9000
