import Mathlib.Algebra.Order.Ring.Int
import Mathlib.Data.List.Induction
import Mathlib.Logic.Function.Basic

/-! Wires between two memories and the walk around a ring of places. Symbols are
carried along one-to-one wires, and a walk takes places of the ring one after the
other. -/

set_option autoImplicit false

namespace OpenAir.Base

open List Function

variable {α β γ : Type} [DecidableEq α]

/-- Each wire in turn copies the cell of the right memory to the left one. -/
def carry (wires : List (α × β)) (right : β → γ) (left : α → γ) : α → γ :=
  wires.foldl (fun left wire => update left wire.1 (right wire.2)) left

def OneToOne (wires : List (α × β)) : Prop :=
  ∀ wire ∈ wires, ∀ other ∈ wires, wire.1 = other.1 ↔ wire.2 = other.2

variable {wires : List (α × β)} {place : α} {skipped : Nat → Bool} {size count : Nat}
  {places : List Nat}

omit [DecidableEq α] in
theorem OneToOne.swap (one : OneToOne wires) : OneToOne (wires.map Prod.swap) := by
  simp only [OneToOne, forall_mem_map]
  exact fun wire mem other also => (one wire mem other also).symm

theorem carry_of_not_mem (apart : ∀ wire ∈ wires, wire.1 ≠ place) (right : β → γ)
    (left : α → γ) : carry wires right left place = left place := by
  induction wires generalizing left with
  | nil => rfl
  | cons wire wires hypothesis =>
    obtain ⟨here, others⟩ := forall_mem_cons.mp apart
    exact (hypothesis others _).trans (update_of_ne here.symm ..)

theorem carry_of_mem (one : OneToOne wires) {cell : β} (wired : (place, cell) ∈ wires)
    (right : β → γ) (left : α → γ) : carry wires right left place = right cell := by
  induction wires using reverseRecOn with
  | nil => cases wired
  | append_singleton front wire hypothesis =>
    rw [carry, foldl_append, foldl_cons, foldl_nil]
    by_cases here : wire.1 = place
    · rw [← here, update_self, (one wire (by simp) _ wired).mp here]
    · rw [update_of_ne (Ne.symm here)]
      refine hypothesis (fun first mem second also =>
        one first (mem_append_left _ mem) second (mem_append_left _ also)) ?_
      cases mem_append.mp wired with
      | inl inFront => exact inFront
      | inr last => exact absurd (mem_singleton.mp last ▸ rfl) here

/-- Adds value after value at its place, in words of `size` values. -/
def accumulate (size : Nat) (left : α → Int) (places : List α) (values : List Int) : α → Int :=
  (places.zip values).foldl
    (fun left hit => update left hit.1 ((left hit.1 + hit.2).bmod size)) left

/-- The first `count` places that a walk from `start` takes when it leaves the
`skipped` ones out and starts over at 0 behind the last one. Without a place to
take it never ends. -/
def ringWalk (skipped : Nat → Bool) (size start count : Nat) : Option (List Nat) :=
  let first := (range' start (size - start)).filter (!skipped ·)
  let round := (range size).filter (!skipped ·)
  if first.length < count ∧ round = [] then none
  else some ((first ++ (replicate count round).flatten).take count)

theorem ringWalk_congr {other : Nat → Bool} (same : ∀ place < size, other place = skipped place)
    (start count : Nat) : ringWalk other size start count = ringWalk skipped size start count := by
  have first : (range' start (size - start)).filter (!other ·) =
      (range' start (size - start)).filter (!skipped ·) := by
    refine filter_congr fun place mem => ?_
    have inside := mem_range'_1.mp mem
    rw [same place (by omega)]
  have round : (range size).filter (!other ·) = (range size).filter (!skipped ·) :=
    filter_congr fun place mem => by rw [same place (mem_range.mp mem)]
  simp only [ringWalk, first, round]

theorem ringWalk_length {start : Nat} (walked : ringWalk skipped size start count = some places) :
    places.length = count := by
  simp only [ringWalk] at walked
  split at walked
  · cases walked
  next goes =>
    cases walked
    rw [length_take, length_append, length_flatten, map_replicate, sum_replicate_nat]
    rcases Nat.lt_or_ge _ count with short | long
    · have some_ := length_pos_iff.mpr fun none_ => goes ⟨short, none_⟩
      have := Nat.le_mul_of_pos_right count some_
      omega
    · omega

end OpenAir.Base
