import Mathlib.Algebra.Order.Ring.Int
import Mathlib.Data.List.GetD

/-! A block of memory as a function of the position, with runs of values stored
to it and loaded from it. -/

set_option autoImplicit false

namespace OpenAir.Base

open List

/-! The fields of these widths have a zero. -/

instance neZero4 : NeZero 4 := ⟨by decide⟩
instance neZero8 : NeZero 8 := ⟨by decide⟩
instance neZero16 : NeZero 16 := ⟨by decide⟩
instance neZero32 : NeZero 32 := ⟨by decide⟩
instance neZero64 : NeZero 64 := ⟨by decide⟩
instance neZero1024 : NeZero 1024 := ⟨by decide⟩
instance neZero32768 : NeZero 32768 := ⟨by decide⟩

variable {α : Type}

def store (memory : Nat → α) (pos : Nat) (values : List α) : Nat → α := fun place =>
  if pos ≤ place then values.getD (place - pos) (memory place) else memory place

def load (memory : Nat → α) (pos length : Nat) : List α :=
  (List.range length).map fun index => memory (pos + index)

variable (memory : Nat → α)

@[simp] theorem length_load (pos length : Nat) :
    (load memory pos length).length = length := by
  simp [load]

@[simp] theorem load_zero (pos : Nat) : load memory pos 0 = [] := rfl

theorem load_add (pos first second : Nat) :
    load memory pos (first + second) =
      load memory pos first ++ load memory (pos + first) second := by
  simp [load, range_add, Nat.add_assoc, Function.comp_def]

theorem load_succ (pos length : Nat) :
    load memory pos (length + 1) = memory pos :: load memory (pos + 1) length := by
  rw [Nat.add_comm length 1, load_add]
  rfl

variable {index length place pos : Nat}

variable (memory : Nat → α)

theorem getD_load (pos : Nat) (default : α) (within : index < length) :
    (load memory pos length).getD index default = memory (pos + index) := by
  simp [load, getD_eq_getElem?_getD, within]

theorem drop_load (pos : Nat) {count : Nat} (within : count ≤ length) :
    (load memory pos length).drop count = load memory (pos + count) (length - count) := by
  obtain ⟨left, rfl⟩ := Nat.exists_eq_add_of_le within
  rw [load_add]
  simp

theorem store_before (values : List α) (before : place < pos) :
    store memory pos values place = memory place := by
  simp [store, Nat.not_le.mpr before]

theorem store_after (values : List α) (after : pos + values.length ≤ place) :
    store memory pos values place = memory place := by
  have past : values.length ≤ place - pos := by omega
  simp [store, getElem?_eq_none past]

theorem store_within (pos : Nat) (values : List α) (within : index < values.length) :
    store memory pos values (pos + index) = values[index] := by
  simp [store, within]

@[simp] theorem store_first (pos : Nat) (value : α) (values : List α) :
    store memory pos (value :: values) pos = value := by
  simp [store]

@[simp] theorem store_second (pos : Nat) (value next : α) (values : List α) :
    store memory pos (value :: next :: values) (pos + 1) = next := by
  simp [store]

theorem load_getD (values : List α) (default : α) :
    load (values.getD · default) 0 values.length = values := by
  apply ext_getElem
  · simp
  · intro index _ within
    simp [load, getD_eq_getElem?_getD, getElem?_eq_getElem within]

theorem load_congr {memory other : Nat → α}
    (same : ∀ place, pos ≤ place → place < pos + length → memory place = other place) :
    load memory pos length = load other pos length := by
  refine map_congr_left fun index mem => ?_
  exact same _ (Nat.le_add_right _ _) (by simpa using mem)

variable (memory : Nat → α)

theorem load_store (pos : Nat) (values : List α) :
    load (store memory pos values) pos values.length = values := by
  refine ext_getElem (by simp) fun index _ within => ?_
  simp [load, store_within _ _ _ within]

theorem load_store_before (values : List α) (before : place + length ≤ pos) :
    load (store memory pos values) place length = load memory place length :=
  load_congr fun _ _ _ => store_before memory values (by omega)

theorem load_store_after (length : Nat) (values : List α)
    (after : pos + values.length ≤ place) :
    load (store memory pos values) place length = load memory place length :=
  load_congr fun _ _ _ => store_after memory values (by omega)

theorem set_load (pos : Nat) (value : α) :
    (load memory pos length).set 0 value =
      load (store memory pos [value]) pos length := by
  cases length with
  | zero => rfl
  | succ length =>
    have rest : load (store memory pos [value]) (pos + 1) length =
        load memory (pos + 1) length :=
      load_store_after memory length [value] (by simp)
    rw [load_succ, load_succ, store_first, rest, set_cons_zero]

end OpenAir.Base
