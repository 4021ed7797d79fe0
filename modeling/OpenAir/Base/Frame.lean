/-! Steps that change a state only in some of its parts. -/

set_option autoImplicit false

namespace OpenAir.Base

universe u v

variable {σ : Type u} {merge : σ → σ → σ} {first second third : σ}

/-- The second state is the first one, with the parts that `merge` takes from the second. -/
def Only (merge : σ → σ → σ) (first second : σ) : Prop := second = merge first second

theorem Only.trans (left : Only merge first second) (right : Only merge second third)
    (absorbs : ∀ first second third, merge (merge first second) third = merge first third := by
      exact fun _ _ _ => rfl) : Only merge first third :=
  calc third = merge second third := right
    _ = merge (merge first second) third := congrArg (merge · third) left
    _ = merge first third := absorbs ..

theorem Only.kept {α : Type v} (only : Only merge first second) (field : σ → α)
    (apart : ∀ other, field (merge first other) = field first := by exact fun _ => rfl) :
    field second = field first := by
  have same : field second = field (merge first second) := congrArg field only
  rw [same, apart]

end OpenAir.Base
