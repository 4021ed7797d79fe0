import Mathlib.Algebra.Order.BigOperators.Group.Finset
import Mathlib.Tactic.Abel

/-! The total of a value over the entries of a finite table. -/

set_option autoImplicit false

namespace OpenAir.Base

open Finset

universe u v

variable {α : Type u} {M : Type v} [AddCommGroup M] {size : Nat}
  {value other : Nat → α → M} {table changed : Nat → α}

def tally (size : Nat) (value : Nat → α → M) (table : Nat → α) : M :=
  ∑ index ∈ range size, value index (table index)

theorem tally_congr
    (same : ∀ index < size, other index (changed index) = value index (table index)) :
    tally size other changed = tally size value table :=
  sum_congr rfl fun index mem => same index (mem_range.mp mem)

theorem tally_change {at_ : Nat} (below : at_ < size)
    (same : ∀ index < size, index ≠ at_ → other index (changed index) = value index (table index)) :
    tally size other changed =
      tally size value table + (other at_ (changed at_) - value at_ (table at_)) := by
  have mem : at_ ∈ range size := mem_range.mpr below
  have rest : ∑ index ∈ (range size).erase at_, other index (changed index) =
      ∑ index ∈ (range size).erase at_, value index (table index) := by
    refine sum_congr rfl fun index erased => ?_
    obtain ⟨apart, inside⟩ := mem_erase.mp erased
    exact same index (mem_range.mp inside) apart
  rw [tally, tally, ← add_sum_erase _ _ mem, rest,
    ← add_sum_erase (range size) (fun index => value index (table index)) mem]
  abel

theorem tally_eq_zero (nothing : ∀ index < size, value index (table index) = 0) :
    tally size value table = 0 :=
  sum_eq_zero fun index mem => nothing index (mem_range.mp mem)

section Ordered

variable [PartialOrder M] [IsOrderedAddMonoid M]

theorem tally_nonneg (nonneg : ∀ index < size, 0 ≤ value index (table index)) :
    0 ≤ tally size value table :=
  sum_nonneg fun index mem => nonneg index (mem_range.mp mem)

theorem le_tally {at_ : Nat} (nonneg : ∀ index < size, 0 ≤ value index (table index))
    (below : at_ < size) : value at_ (table at_) ≤ tally size value table :=
  single_le_sum (fun index mem => nonneg index (mem_range.mp mem))
    (mem_range.mpr below)

end Ordered

end OpenAir.Base
