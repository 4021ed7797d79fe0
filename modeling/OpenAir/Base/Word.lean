import Mathlib.Data.Nat.Bitwise
import Mathlib.Tactic.Ring

/-! Packing of two bit fields into one machine word, on naturals. -/

set_option autoImplicit false

namespace OpenAir.Base

theorem shiftLeft_mod_two_pow {width bits : Nat} (fits : bits ≤ width) (value : Nat) :
    (value <<< bits) % 2 ^ width = (value % 2 ^ (width - bits)) <<< bits := by
  have split : 2 ^ width = 2 ^ (width - bits) * 2 ^ bits := by
    rw [← Nat.pow_add, Nat.sub_add_cancel fits]
  rw [Nat.shiftLeft_eq, Nat.shiftLeft_eq, split, Nat.mul_mod_mul_right]

/-- Shifting one field up and masking the other in is positional notation,
reduced to the width of the word. -/
theorem shiftLeft_or_mask (width bits : Nat) (fits : bits ≤ width) (high low : Nat) :
    (high <<< bits) % 2 ^ width ||| (low &&& (2 ^ bits - 1)) =
      (high * 2 ^ bits + low % 2 ^ bits) % 2 ^ width := by
  have bounded : low % 2 ^ bits < 2 ^ bits := Nat.mod_lt _ (Nat.two_pow_pos bits)
  have split : 2 ^ width = 2 ^ (width - bits) * 2 ^ bits := by
    rw [← Nat.pow_add, Nat.sub_add_cancel fits]
  rw [Nat.and_two_pow_sub_one_eq_mod, shiftLeft_mod_two_pow fits,
    ← Nat.shiftLeft_add_eq_or_of_lt bounded, Nat.shiftLeft_eq, split,
    Nat.mul_comm high, Nat.mul_comm (2 ^ (width - bits)), Nat.mod_mul,
    Nat.mul_add_mod, Nat.mod_eq_of_lt bounded, Nat.mul_add_div (Nat.two_pow_pos bits),
    Nat.div_eq_of_lt bounded, Nat.add_zero]
  ring

end OpenAir.Base
