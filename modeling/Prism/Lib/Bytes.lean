import Mathlib.Algebra.Order.Ring.Int
import Mathlib.Data.List.Basic

/-!
Little- and big-endian byte strings.
-/

abbrev Bytes := List UInt8

namespace Bytes

/-- The low `n` bytes of a natural number, least significant first. -/
def le : Nat → Nat → Bytes
  | 0, _ => []
  | n + 1, value => UInt8.ofNat value :: le n (value / 256)

def ofLe : Bytes → Nat
  | [] => 0
  | byte :: rest => byte.toNat + 256 * ofLe rest

def be (n value : Nat) : Bytes := (le n value).reverse

@[simp] theorem length_le (n value : Nat) : (le n value).length = n := by
  induction n generalizing value with
  | zero => rfl
  | succ n ih => simp [le, ih]

theorem ofLe_le (n value : Nat) : ofLe (le n value) = value % 256 ^ n := by
  induction n generalizing value with
  | zero => simp [le, ofLe, Nat.mod_one]
  | succ n ih =>
    have low : (UInt8.ofNat value).toNat = value % 256 := UInt8.toNat_ofNat'
    rw [show (256 : Nat) ^ (n + 1) = 256 * 256 ^ n from Nat.pow_succ', Nat.mod_mul]
    simp only [le, ofLe, ih, low]

theorem ofLe_le_of_lt {n value : Nat} (small : value < 256 ^ n) : ofLe (le n value) = value := by
  rw [ofLe_le, Nat.mod_eq_of_lt small]

/-- What follows a length prefix is found again. -/
theorem prefixed_inj {n : Nat} {a b rest rest' : Bytes} (small : a.length < 256 ^ n)
    (small' : b.length < 256 ^ n)
    (same : le n a.length ++ (a ++ rest) = le n b.length ++ (b ++ rest')) : a = b ∧ rest = rest' := by
  obtain ⟨lengths, bodies⟩ := List.append_inj same (by simp)
  have equal : a.length = b.length := by
    rw [← ofLe_le_of_lt small, lengths, ofLe_le_of_lt small']
  exact List.append_inj bodies equal

end Bytes
