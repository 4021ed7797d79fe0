import Mathlib.Data.Option.Basic
import OpenAir.Base.Execution

/-! Two machines whose steps may fail, side by side: a relation between their
states that corresponding steps keep makes them show the same. -/

set_option autoImplicit false

namespace OpenAir.Base

open Option

universe u

section Results

variable {α β γ δ ι κ : Type u} {related : α → β → Prop} {following : γ → δ → Prop}

variable {left : Option α} {right : Option β}

theorem rel_weaken {weaker : α → β → Prop} (results : Rel related left right)
    (implies : ∀ one other, related one other → weaker one other) :
    Rel weaker left right := by
  cases results with
  | none => exact .none
  | some same => exact .some (implies _ _ same)

theorem rel_eq (result : Option α) : Rel Eq result result := by
  cases result with
  | none => exact .none
  | some value => exact .some rfl

theorem rel_of_some {one : α} (results : Rel related (some one) right) :
    ∃ other, right = some other ∧ related one other := by
  cases results with
  | some same => exact ⟨_, rfl, same⟩

theorem rel_of_none (results : Rel related none right) : right = none := by
  cases results
  rfl

theorem rel_bind {first : α → Option γ} {second : β → Option δ} (results : Rel related left right)
    (next : ∀ one other, related one other → Rel following (first one) (second other)) :
    Rel following (left.bind first) (right.bind second) := by
  cases results with
  | none => exact .none
  | some same => exact next _ _ same

theorem rel_map {first : α → γ} {second : β → δ} (results : Rel related left right)
    (next : ∀ one other, related one other → following (first one) (second other)) :
    Rel following (left.map first) (right.map second) := by
  cases results with
  | none => exact .none
  | some same => exact .some (next _ _ same)

theorem rel_foldlM {step : α → ι → Option α} {other : β → κ → Option β} {rename : ι → κ}
    {inputs : List ι}
    (kept : ∀ one another, ∀ input ∈ inputs, related one another →
      Rel related (step one input) (other another (rename input)))
    {start : α} {origin : β} (initial : related start origin) :
    Rel related (inputs.foldlM step start) ((inputs.map rename).foldlM other origin) := by
  induction inputs generalizing start origin with
  | nil => exact .some initial
  | cons input rest ih =>
    refine rel_bind (kept _ _ input (List.mem_cons_self ..) initial) fun one another same => ?_
    exact ih (fun one another later mem => kept one another later
      (List.mem_cons_of_mem _ mem)) same

end Results

section Runs

variable {σ τ ι ω : Type u}

variable {related : σ → τ → Prop} {inputs : List ι} {state : σ} {origin : τ}

theorem rel_execute {step : σ → ι → Option σ} {other : τ → ι → Option τ}
    (kept : ∀ state origin input, related state origin →
      Rel related (step state input) (other origin input)) (initial : related state origin) :
    Rel related (execute step state inputs) (execute other origin inputs) := by
  induction inputs generalizing state origin with
  | nil => exact .some initial
  | cons input rest ih =>
    exact rel_bind (kept state origin input initial) fun _ _ same => ih same

/-- What a machine shows input after input, up to the first step that fails. -/
def observe (step : σ → ι → Option (σ × ω)) : σ → List ι → List (Option ω)
  | _, [] => []
  | state, input :: rest =>
    match step state input with
    | none => [none]
    | some (next, shown) => some shown :: observe step next rest

theorem observe_eq {step : σ → ι → Option (σ × ω)} {other : τ → ι → Option (τ × ω)}
    (kept : ∀ state origin input, related state origin →
      Rel (fun one another => related one.1 another.1 ∧ one.2 = another.2)
        (step state input) (other origin input)) (initial : related state origin) :
    observe step state inputs = observe other origin inputs := by
  induction inputs generalizing state origin with
  | nil => rfl
  | cons input rest ih =>
    have stepped := kept state origin input initial
    rw [observe, observe]
    generalize step state input = one at stepped
    generalize other origin input = another at stepped
    cases stepped with
    | none => rfl
    | some same =>
      obtain ⟨next, shown⟩ := same
      simp only [shown, ih next]

end Runs

end OpenAir.Base
