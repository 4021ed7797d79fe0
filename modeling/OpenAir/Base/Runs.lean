import Mathlib.Data.List.DropRight

/-! Runs of a list: a predicate whose elements all stand at one end of the list
is selected alike by walking from that end and by filtering the whole list. -/

set_option autoImplicit false

namespace OpenAir.Base

open List

universe u

variable {α : Type u} {p : α → Bool}

variable {list : List α}

theorem takeWhile_eq_filter (front : list.Pairwise fun left right => p right → p left) :
    list.takeWhile p = list.filter p := by
  induction list with
  | nil => rfl
  | cons head rest ih =>
    obtain ⟨headFirst, restFront⟩ := pairwise_cons.mp front
    cases holds : p head with
    | true => simp [holds, ih restFront]
    | false =>
      have none : ∀ element ∈ rest, ¬ p element := by
        intro element mem selected
        have := headFirst element mem selected
        simp [holds] at this
      rw [takeWhile_cons_of_neg (by simp [holds]), filter_cons_of_neg (by simp [holds])]
      exact (filter_eq_nil_iff.mpr none).symm

theorem map_takeWhile_append_dropWhile (f : α → α)
    (front : list.Pairwise fun left right => p right → p left) :
    (list.takeWhile p).map f ++ list.dropWhile p =
      list.map fun element => if p element then f element else element := by
  induction list with
  | nil => rfl
  | cons head rest ih =>
    obtain ⟨headFirst, restFront⟩ := pairwise_cons.mp front
    cases holds : p head with
    | true => simp [holds, ih restFront]
    | false =>
      have unchanged : ∀ element ∈ rest,
          (if p element then f element else element) = element := by
        intro element mem
        cases selected : p element with
        | false => simp
        | true =>
          have := headFirst element mem selected
          simp [holds] at this
      simp [holds, map_congr_left unchanged]

private theorem reverse_front (back : list.Pairwise fun left right => p left → p right) :
    list.reverse.Pairwise fun left right => p right → p left :=
  pairwise_reverse.mpr back

theorem rtakeWhile_eq_filter (back : list.Pairwise fun left right => p left → p right) :
    list.rtakeWhile p = list.filter p := by
  rw [List.rtakeWhile, takeWhile_eq_filter (reverse_front back), filter_reverse, reverse_reverse]

theorem rdropWhile_append_map_rtakeWhile (f : α → α)
    (back : list.Pairwise fun left right => p left → p right) :
    list.rdropWhile p ++ (list.rtakeWhile p).map f =
      list.map fun element => if p element then f element else element := by
  have walked := congrArg List.reverse (map_takeWhile_append_dropWhile f (reverse_front back))
  simpa [List.rdropWhile, List.rtakeWhile] using walked

end OpenAir.Base
