import Mathlib.Data.Nat.Basic

/-! Cyclic counters: a position modulo a width together with the number of
completed cycles, both read off one unbounded index. -/

set_option autoImplicit false

namespace OpenAir.Base

open Nat

theorem succ_at_cycle_end {width index : Nat} (last : index % width + 1 = width) :
    (index + 1) % width = 0 ∧ (index + 1) / width = index / width + 1 := by
  have cycle : (index + 1) % width = 0 := by
    have split := Nat.div_add_mod index width
    have whole : index + 1 = width * (index / width + 1) := by
      rw [Nat.mul_add]
      omega
    rw [whole, Nat.mul_mod_right]
  exact ⟨cycle, Nat.succ_div_of_mod_eq_zero cycle⟩

theorem succ_inside_cycle {width index : Nat} (inside : index % width + 1 < width) :
    (index + 1) % width = index % width + 1 ∧ (index + 1) / width = index / width := by
  have cycle : (index + 1) % width = index % width + 1 := by
    rw [add_mod, mod_eq_of_lt (by omega : 1 < width), mod_eq_of_lt inside]
  exact ⟨cycle, succ_div_of_mod_ne_zero (by omega)⟩

/-- Moving forward by less than one cycle, the position decreases exactly when a
cycle boundary is crossed. -/
theorem forward_within_cycle {width start finish : Nat} (forward : start ≤ finish)
    (near : finish < start + width) :
    (finish % width < start % width ∧ finish / width = start / width + 1) ∨
      (start % width ≤ finish % width ∧ finish / width = start / width) := by
  have positive : 0 < width := by omega
  have startSplit := Nat.div_add_mod start width
  have finishSplit := Nat.div_add_mod finish width
  have lower : start / width ≤ finish / width := Nat.div_le_div_right forward
  have upper : finish / width ≤ start / width + 1 := by
    have step : finish / width ≤ (start + width) / width := Nat.div_le_div_right (by omega)
    rwa [Nat.add_div_right _ positive] at step
  rcases Nat.lt_or_ge (start / width) (finish / width) with crossed | same
  · have next : finish / width = start / width + 1 := by omega
    rw [next, Nat.mul_add] at finishSplit
    exact .inl ⟨by omega, next⟩
  · have equal : finish / width = start / width := by omega
    rw [equal] at finishSplit
    exact .inr ⟨by omega, equal⟩

def ahead (width start finish : Nat) : Nat := (finish + width - start) % width

section Ahead

variable {width start middle finish : Nat}

theorem ahead_eq (startBelow : start < width) (finishBelow : finish < width) :
    ahead width start finish =
      if start ≤ finish then finish - start else finish + width - start := by
  unfold ahead
  split
  next notBehind =>
    rw [show finish + width - start = finish - start + width from by omega, add_mod_right,
      mod_eq_of_lt (by omega)]
  next behind => exact mod_eq_of_lt (by omega)

theorem ahead_lt (start finish : Nat) (positive : 0 < width) :
    ahead width start finish < width :=
  mod_lt _ positive

variable (startBelow : start < width)

include startBelow

theorem ahead_eq_zero (finishBelow : finish < width) :
    ahead width start finish = 0 ↔ start = finish := by
  rw [ahead_eq startBelow finishBelow]
  split <;> omega

theorem ahead_le_iff (middleBelow : middle < width) (finishBelow : finish < width) :
    ahead width start middle ≤ ahead width start finish ↔
      ahead width middle finish ≤ ahead width start finish := by
  rw [ahead_eq startBelow middleBelow, ahead_eq startBelow finishBelow,
    ahead_eq middleBelow finishBelow]
  split <;> split <;> split <;> omega

theorem ahead_between (middleBelow : middle < width) (finishBelow : finish < width)
    (higher : ahead width middle finish ≤ ahead width start finish) :
    ahead width start middle = ahead width start finish - ahead width middle finish := by
  rw [ahead_eq startBelow finishBelow, ahead_eq middleBelow finishBelow] at *
  rw [ahead_eq startBelow middleBelow]
  split at higher <;> split at higher <;> split <;> omega

theorem ahead_add (middleBelow : middle < width) (finishBelow : finish < width) :
    ahead width start middle + ahead width middle finish = ahead width start finish ∨
      ahead width start middle + ahead width middle finish =
        ahead width start finish + width := by
  rw [ahead_eq startBelow middleBelow, ahead_eq middleBelow finishBelow,
    ahead_eq startBelow finishBelow]
  split <;> split <;> split <;> omega

theorem ahead_swap (finishBelow : finish < width) (apart : start ≠ finish) :
    ahead width start finish + ahead width finish start = width := by
  rw [ahead_eq startBelow finishBelow, ahead_eq finishBelow startBelow]
  split <;> split <;> omega

theorem ahead_left_injective (middleBelow : middle < width) (finishBelow : finish < width)
    (same : ahead width start finish = ahead width middle finish) : start = middle := by
  have steps := ahead_between startBelow middleBelow finishBelow (le_of_eq same.symm)
  exact (ahead_eq_zero startBelow middleBelow).mp (by omega)

theorem ahead_add_mod {steps : Nat} (few : steps < width) :
    ahead width start ((start + steps) % width) = steps := by
  rcases lt_or_ge (start + steps) width with inside | wraps
  · rw [mod_eq_of_lt inside, ahead_eq startBelow inside]
    split <;> omega
  · have wrapped : (start + steps) % width = start + steps - width := by
      rw [mod_eq_sub_mod wraps, mod_eq_of_lt (by omega)]
    rw [ahead_eq startBelow (by omega)]
    split <;> omega

theorem add_ahead_mod (finishBelow : finish < width) :
    (start + ahead width start finish) % width = finish := by
  rw [ahead_eq startBelow finishBelow]
  split
  · rw [show start + (finish - start) = finish from by omega, mod_eq_of_lt finishBelow]
  · rw [show start + (finish + width - start) = finish + width from by omega, add_mod_right,
      mod_eq_of_lt finishBelow]

end Ahead

end OpenAir.Base
