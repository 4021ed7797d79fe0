import Mathlib.Tactic.Ring

/-! Bit fields in a memory of octets, most significant bit first, at any bit
offset. A field is the number its bits spell; a write is described by the bits it
leaves alone, the field it sets and the bits it leaves clear. -/

set_option autoImplicit false

namespace OpenAir.Base

open Function Nat

abbrev Memory := Nat → UInt8

def bitAt (memory : Memory) (pos : Nat) : Bool :=
  (memory (pos / 8)).toNat.testBit (7 - pos % 8)

def field (memory : Memory) (pos : Nat) : Nat → Nat
  | 0 => 0
  | width + 1 => 2 * field memory pos width + (bitAt memory (pos + width)).toNat

section Fields

variable {memory other : Memory} {pos : Nat}

theorem field_lt (memory : Memory) (pos width : Nat) :
    field memory pos width < 2 ^ width := by
  induction width with
  | zero => exact one_pos
  | succ width ih =>
    have bit := Bool.toNat_lt (bitAt memory (pos + width))
    rw [field]
    omega

variable {width bit value octet : Nat}

theorem field_congr
    (agree : ∀ index < width, bitAt other (pos + index) = bitAt memory (pos + index)) :
    field other pos width = field memory pos width := by
  induction width with
  | zero => rfl
  | succ width ih =>
    rw [field, field, ih fun index below => agree index (lt_succ_of_lt below),
      agree width (lt_succ_self _)]

theorem field_append (memory : Memory) (pos first second : Nat) :
    field memory pos (first + second) =
      field memory pos first * 2 ^ second + field memory (pos + first) second := by
  induction second with
  | zero => rw [add_zero, pow_zero, mul_one, field, add_zero]
  | succ second ih =>
    rw [← add_assoc, field, ih, field]
    ring_nf

theorem field_octet (memory : Memory) (octet : Nat) (inside : bit + width ≤ 8) :
    field memory (8 * octet + bit) width =
      (memory octet).toNat % 2 ^ (8 - bit) / 2 ^ (8 - bit - width) := by
  induction width with
  | zero =>
    rw [field, Nat.sub_zero, Nat.div_eq_of_lt (Nat.mod_lt _ (Nat.two_pow_pos _))]
  | succ width ih =>
    have place : (8 * octet + bit + width) / 8 = octet := by omega
    have bitPlace : 7 - (8 * octet + bit + width) % 8 = 8 - bit - (width + 1) := by omega
    have low : 8 - bit - (width + 1) < 8 - bit := by omega
    have masked : (memory octet).toNat.testBit (8 - bit - (width + 1)) =
        ((memory octet).toNat % 2 ^ (8 - bit)).testBit (8 - bit - (width + 1)) := by
      rw [Nat.testBit_mod_two_pow, decide_eq_true low, Bool.true_and]
    have rest : 8 - bit - width = 8 - bit - (width + 1) + 1 := by omega
    rw [field, ih (by omega), bitAt, place, bitPlace, masked, rest, Nat.pow_succ,
      ← Nat.div_div_eq_div_mul, Nat.toNat_testBit]
    omega

def ClearFrom (memory : Memory) (pos : Nat) : Prop :=
  ∀ later ≥ pos, bitAt memory later = false

structure Writes (memory after : Memory) (pos width value : Nat) : Prop where
  below : ∀ earlier < pos, bitAt after earlier = bitAt memory earlier
  field : field after pos width = value
  clear : ClearFrom after (pos + width)

theorem Writes.keeps {start span : Nat}
    (writes : Writes memory other pos width value) (before : start + span ≤ pos) :
    Base.field other start span = Base.field memory start span :=
  field_congr fun index below => writes.below _ (by omega)

theorem Writes.trans {last : Memory} {first second left right : Nat}
    (front : Writes memory other pos first left)
    (back : Writes other last (pos + first) second right) :
    Writes memory last pos (first + second) (left * 2 ^ second + right) where
  below earlier before := by
    rw [back.below earlier (by omega), front.below earlier before]
  field := by
    rw [field_append, back.keeps le_rfl, front.field, back.field]
  clear := by
    have clear := back.clear
    rwa [add_assoc] at clear

theorem ClearFrom.octet_testBit {index : Nat} (clear : ClearFrom memory (8 * octet + bit))
    (low : index < 8 - bit) : (memory octet).toNat.testBit index = false := by
  have cleared := clear (8 * octet + (7 - index)) (by omega)
  rwa [bitAt, show (8 * octet + (7 - index)) / 8 = octet by omega,
    show 7 - (8 * octet + (7 - index)) % 8 = index by omega] at cleared

theorem writes_octet (inside : bit + width ≤ 8) (bounded : value < 2 ^ width)
    (clear : ClearFrom memory (8 * octet + bit)) :
    Writes memory (update memory octet
        (UInt8.ofNat ((memory octet).toNat ||| value <<< (8 - bit - width))))
      (8 * octet + bit) width value := by
  have shifted : value <<< (8 - bit - width) < 2 ^ (8 - bit) := by
    have span : 2 ^ (8 - bit) = 2 ^ width * 2 ^ (8 - bit - width) := by
      rw [← Nat.pow_add]
      congr 1
      omega
    rw [Nat.shiftLeft_eq, span]
    exact Nat.mul_lt_mul_of_pos_right bounded (Nat.two_pow_pos _)
  have small : (memory octet).toNat ||| value <<< (8 - bit - width) < 2 ^ 8 :=
    Nat.or_lt_two_pow (UInt8.toNat_lt _)
      (Nat.lt_of_lt_of_le shifted (Nat.pow_le_pow_right Nat.two_pos (Nat.sub_le _ _)))
  have stored : (update memory octet (UInt8.ofNat ((memory octet).toNat |||
      value <<< (8 - bit - width))) octet).toNat =
        (memory octet).toNat ||| value <<< (8 - bit - width) := by
    rw [update_self, UInt8.toNat_ofNat_of_lt' small]
  have bits : ∀ spot, bitAt (update memory octet (UInt8.ofNat ((memory octet).toNat |||
      value <<< (8 - bit - width)))) spot =
        (bitAt memory spot || (decide (spot / 8 = octet) &&
          (value <<< (8 - bit - width)).testBit (7 - spot % 8))) := by
    intro spot
    by_cases here : spot / 8 = octet
    · rw [bitAt, here, stored, Nat.testBit_or, bitAt, here, decide_eq_true rfl, Bool.true_and]
    · rw [bitAt, update_of_ne here, ← bitAt, decide_eq_false here, Bool.false_and, Bool.or_false]
  refine ⟨fun earlier before => ?_, ?_, fun later after => ?_⟩
  · rw [bits]
    by_cases here : earlier / 8 = octet
    · have high : (value <<< (8 - bit - width)).testBit (7 - earlier % 8) = false :=
        Nat.testBit_lt_two_pow
          (Nat.lt_of_lt_of_le shifted (Nat.pow_le_pow_right Nat.two_pos (by omega)))
      rw [high, Bool.and_false, Bool.or_false]
    · rw [decide_eq_false here, Bool.false_and, Bool.or_false]
  · have octetBits : (update memory octet (UInt8.ofNat ((memory octet).toNat |||
        value <<< (8 - bit - width))) octet).toNat % 2 ^ (8 - bit) =
          value <<< (8 - bit - width) := by
      refine Nat.eq_of_testBit_eq fun index => ?_
      rw [stored, Nat.testBit_mod_two_pow, Nat.testBit_or]
      by_cases low : index < 8 - bit
      · rw [clear.octet_testBit low, decide_eq_true low, Bool.true_and, Bool.false_or]
      · rw [decide_eq_false low, Bool.false_and, Nat.testBit_lt_two_pow
          (Nat.lt_of_lt_of_le shifted (Nat.pow_le_pow_right Nat.two_pos (Nat.le_of_not_lt low)))]
    rw [field_octet _ _ inside, octetBits, Nat.shiftLeft_eq,
      Nat.mul_div_cancel _ (Nat.two_pow_pos _)]
  · rw [bits, clear later (by omega), Bool.false_or]
    by_cases here : later / 8 = octet
    · have low : ¬ 7 - later % 8 ≥ 8 - bit - width := by omega
      rw [Nat.testBit_shiftLeft, decide_eq_false low, Bool.false_and, Bool.and_false]
    · rw [decide_eq_false here, Bool.false_and]

end Fields

end OpenAir.Base
