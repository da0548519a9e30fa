import Mathlib.Data.Nat.Bitwise
import Prism.Types.Hash

/-!
What CRC-32 detects. The register is extended to all natural numbers: a message is the number whose
bits are its own, least significant first, and the loop over its bytes is one shift for each bit of
that number. Shifts are linear in exclusive or, so two messages are told apart by the shifts of
their difference.
-/

namespace Prism

/-! ### Shifts of the register -/

def shifts (count crc : Nat) : Nat := Nat.repeat crc32Bit count crc

theorem shifts_succ (n x : Nat) : shifts (n + 1) x = crc32Bit (shifts n x) := rfl

theorem shifts_add (m n x : Nat) : shifts (m + n) x = shifts n (shifts m x) := by
  induction n with
  | zero => rfl
  | succ n ih => rw [← Nat.add_assoc, shifts_succ, ih, shifts_succ]

theorem crc32Bit_xor (x y : Nat) : crc32Bit (x ^^^ y) = crc32Bit x ^^^ crc32Bit y := by
  have low : (x ^^^ y) % 2 = x % 2 ^^^ y % 2 := Nat.xor_mod_two_pow (n := 1)
  have masks : 0xEDB88320 * ((x ^^^ y) % 2) = 0xEDB88320 * (x % 2) ^^^ 0xEDB88320 * (y % 2) := by
    rw [low]
    rcases Nat.mod_two_eq_zero_or_one x with hx | hx <;>
      rcases Nat.mod_two_eq_zero_or_one y with hy | hy <;> simp [hx, hy]
  simp only [crc32Bit, Nat.xor_div_two, masks]
  ac_rfl

theorem shifts_xor (n x y : Nat) : shifts n (x ^^^ y) = shifts n x ^^^ shifts n y := by
  induction n with
  | zero => rfl
  | succ n ih => simp only [shifts_succ, ih, crc32Bit_xor]

/-- As long as the low bits are zero, shifting is dividing. -/
theorem shifts_two_pow_mul (n x : Nat) : shifts n (2 ^ n * x) = x := by
  induction n generalizing x with
  | zero => simp [shifts, Nat.repeat]
  | succ n ih =>
    rw [shifts_succ, Nat.pow_succ, Nat.mul_assoc, ih]
    simp [crc32Bit]

/-- The polynomial has bit 31, so no shift clears a register of 32 bits. -/
theorem shifts_pos {n x : Nat} (some : 0 < x) (small : x < 2 ^ 32) :
    0 < shifts n x ∧ shifts n x < 2 ^ 32 := by
  induction n with
  | zero => exact ⟨some, small⟩
  | succ n ih =>
    obtain ⟨some, small⟩ := ih
    rw [shifts_succ, crc32Bit]
    rcases Nat.mod_two_eq_zero_or_one (shifts n x) with even | odd
    · simp only [even, Nat.mul_zero, Nat.xor_zero]
      omega
    · simp only [odd, Nat.mul_one]
      refine ⟨Nat.pos_of_ne_zero fun zero => ?_, Nat.xor_lt_two_pow (by omega) (by decide)⟩
      have same := Nat.eq_of_xor_eq_zero zero
      omega

/-! ### The message as a number -/

variable (bytes : Bytes)

/-- Bit `i` of a message; the bits of a byte are taken least significant first. -/
def bitAt (i : Nat) : Bool := (bytes.getD (i / 8) 0).toNat.testBit (i % 8)

theorem bitAt_past {bytes : Bytes} {i : Nat} (past : bytes.length ≤ i / 8) :
    bitAt bytes i = false := by
  rw [bitAt, List.getD_eq_default _ _ past]
  exact Nat.zero_testBit _

theorem ofLe_cons (b : UInt8) (rest : Bytes) :
    Bytes.ofLe (b :: rest) = 2 ^ 8 * Bytes.ofLe rest + b.toNat :=
  Nat.add_comm _ _

theorem testBit_ofLe (i : Nat) : (Bytes.ofLe bytes).testBit i = bitAt bytes i := by
  induction bytes generalizing i with
  | nil => simp [Bytes.ofLe, bitAt]
  | cons b rest ih =>
    rw [ofLe_cons, Nat.testBit_two_pow_mul_add _ b.toNat_lt]
    split
    next first =>
      simp [bitAt, Nat.div_eq_of_lt first, Nat.mod_eq_of_lt first]
    next later =>
      obtain ⟨j, rfl⟩ := Nat.exists_eq_add_of_le (Nat.not_lt.mp later)
      simp [ih, bitAt, Nat.add_comm 8 j]

theorem ofLe_injective {a b : Bytes} (length : a.length = b.length)
    (same : Bytes.ofLe a = Bytes.ofLe b) : a = b := by
  induction a generalizing b with
  | nil => simpa using length.symm
  | cons x a ih =>
    obtain _ | ⟨y, b⟩ := b
    · cases length
    · have hx := x.toNat_lt
      have hy := y.toNat_lt
      simp only [Bytes.ofLe] at same
      rw [ih (Nat.succ.inj length) (by omega), UInt8.toNat_inj.mp (by omega : x.toNat = y.toNat)]

/-- The loop over the bytes shifts once for each bit of the message. -/
theorem foldl_crc32Byte (crc : Nat) :
    bytes.foldl crc32Byte crc = shifts (8 * bytes.length) (crc ^^^ Bytes.ofLe bytes) := by
  induction bytes generalizing crc with
  | nil => simp [Bytes.ofLe, shifts, Nat.repeat]
  | cons b rest ih =>
    have parts : Bytes.ofLe (b :: rest) = b.toNat ^^^ 2 ^ 8 * Bytes.ofLe rest := by
      refine Nat.eq_of_testBit_eq fun i => ?_
      rw [ofLe_cons, Nat.testBit_two_pow_mul_add _ b.toNat_lt, Nat.testBit_xor,
        Nat.testBit_two_pow_mul]
      split
      next first => simp [Nat.not_le.mpr first]
      next later =>
        have past : b.toNat < 2 ^ i := b.toNat_lt.trans_le (Nat.pow_le_pow_right (by decide) (by omega))
        simp [Nat.testBit_lt_two_pow past, Nat.not_lt.mp later]
    have count : 8 * (b :: rest).length = 8 + 8 * rest.length := by
      rw [List.length_cons]
      omega
    rw [List.foldl_cons, ih, count, shifts_add, parts, ← Nat.xor_assoc, shifts_xor 8,
      shifts_two_pow_mul]
    rfl

/-- The registers of two messages of one length differ by the shifts of their difference. -/
theorem foldl_crc32Byte_xor {a b : Bytes} (length : a.length = b.length) (crc : Nat) :
    a.foldl crc32Byte crc ^^^ b.foldl crc32Byte crc =
      shifts (8 * a.length) (Bytes.ofLe a ^^^ Bytes.ofLe b) := by
  rw [foldl_crc32Byte, foldl_crc32Byte, ← length, ← shifts_xor]
  congr 1
  rw [Nat.xor_assoc, ← Nat.xor_assoc _ crc, Nat.xor_comm _ crc, Nat.xor_assoc crc,
    ← Nat.xor_assoc crc crc, Nat.xor_self, Nat.zero_xor]

/-- A difference of bits within 32 positions is not shifted away. -/
theorem shifts_burst {d : Nat} (p length : Nat) (differ : d ≠ 0)
    (burst : ∀ i, d.testBit i = true → p ≤ i ∧ i < p + 32 ∧ i < length) :
    0 < shifts length d ∧ shifts length d < 2 ^ 32 := by
  have low : d % 2 ^ p = 0 := by
    refine Nat.eq_of_testBit_eq fun i => ?_
    rw [Nat.testBit_mod_two_pow, Nat.zero_testBit, Bool.and_eq_false_iff, decide_eq_false_iff_not]
    by_contra inside
    obtain ⟨below, set⟩ : i < p ∧ d.testBit i = true := by simpa using inside
    exact absurd (burst i set).1 (Nat.not_le.mpr below)
  have whole : d = 2 ^ p * (d / 2 ^ p) := by
    rw [Nat.mul_div_cancel' (Nat.dvd_of_mod_eq_zero low)]
  have small : d / 2 ^ p < 2 ^ 32 := by
    refine Nat.lt_pow_two_of_testBit _ fun i past => ?_
    by_contra set
    rw [Nat.testBit_div_two_pow, Bool.not_eq_false] at set
    have := (burst (i + p) set).2.1
    omega
  obtain ⟨i, set⟩ := Nat.exists_testBit_ne_of_ne differ
  have reach := burst i (by simpa using set)
  rw [← Nat.add_sub_cancel' (show p ≤ length by omega), shifts_add, whole, shifts_two_pow_mul]
  refine shifts_pos (Nat.pos_of_ne_zero fun zero => ?_) small
  rw [zero, Nat.mul_zero] at whole
  exact differ whole

/-- Messages of one length that differ, and only within 32 consecutive bits, have different
checksums; and a message may be fed to the streaming form in any chunks. -/
theorem crc32_detects_bursts :
    (∀ a b : Bytes, a.length = b.length → a ≠ b →
      (∃ p, ∀ i, bitAt a i ≠ bitAt b i → p ≤ i ∧ i < p + 32) → crc32 a ≠ crc32 b) ∧
    ∀ chunks : List Bytes, (chunks.foldl Crc32.update Crc32.new).finish = crc32 chunks.flatten := by
  constructor
  · rintro a b length differ ⟨p, burst⟩ same
    have bits (i : Nat) : (Bytes.ofLe a ^^^ Bytes.ofLe b).testBit i = (bitAt a i ^^ bitAt b i) := by
      rw [Nat.testBit_xor, testBit_ofLe, testBit_ofLe]
    have apart : Bytes.ofLe a ^^^ Bytes.ofLe b ≠ 0 := fun none =>
      differ (ofLe_injective length (Nat.eq_of_xor_eq_zero none))
    have found := shifts_burst p (8 * a.length) apart fun i set => by
      rw [bits] at set
      have unequal : bitAt a i ≠ bitAt b i := by
        intro equal
        simp [equal] at set
      refine ⟨(burst i unequal).1, (burst i unequal).2, Nat.not_le.mp fun past => ?_⟩
      have outside : a.length ≤ i / 8 := by omega
      exact unequal ((bitAt_past outside).trans (bitAt_past (length ▸ outside)).symm)
    rw [← foldl_crc32Byte_xor length 0xFFFFFFFF] at found
    -- Equal checksums are equal registers, whose difference is zero.
    have words := congrArg UInt32.toNat same
    simp only [crc32, UInt32.toNat_ofNat'] at words
    have zero := Nat.xor_self (((a.foldl crc32Byte 0xFFFFFFFF) ^^^ 0xFFFFFFFF) % 2 ^ 32)
    nth_rewrite 2 [words] at zero
    rw [← Nat.xor_mod_two_pow, Nat.xor_assoc, Nat.xor_comm _ 0xFFFFFFFF, ← Nat.xor_assoc 0xFFFFFFFF,
      Nat.xor_self, Nat.zero_xor, Nat.mod_eq_of_lt found.2] at zero
    omega
  · intro chunks
    have state (c : Crc32) :
        (chunks.foldl Crc32.update c).state = chunks.flatten.foldl crc32Byte c.state := by
      induction chunks generalizing c with
      | nil => rfl
      | cons chunk chunks ih =>
        rw [List.foldl_cons, ih, List.flatten_cons, List.foldl_append]
        rfl
    rw [Crc32.finish, state]
    rfl

end Prism
