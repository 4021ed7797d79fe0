/-! Runs of a machine whose steps may fail, and properties kept along them. -/

set_option autoImplicit false

namespace OpenAir.Base

open List Option

universe u v

variable {σ : Type u} {ι : Type v}

def execute (step : σ → ι → Option σ) : σ → List ι → Option σ
  | state, [] => some state
  | state, input :: rest => (step state input).bind fun next => execute step next rest

/-- Every input satisfies `holds` in the state it is given to. -/
def HoldsAlong (step : σ → ι → Option σ) (holds : σ → ι → Prop) : σ → List ι → Prop
  | _, [] => True
  | state, input :: rest =>
    holds state input ∧ ∀ next, step state input = some next → HoldsAlong step holds next rest

instance decidableHoldsAlong {step : σ → ι → Option σ} {holds : σ → ι → Prop}
    [∀ state input, Decidable (holds state input)] :
    ∀ (state : σ) (inputs : List ι), Decidable (HoldsAlong step holds state inputs)
  | _, [] => isTrue trivial
  | state, input :: rest =>
    match stepped : step state input with
    | none =>
      decidable_of_iff (holds state input)
        ⟨fun now => ⟨now, fun _ found => by rw [stepped] at found; cases found⟩, fun both => both.1⟩
    | some next =>
      have : Decidable (HoldsAlong step holds next rest) := decidableHoldsAlong next rest
      decidable_of_iff (holds state input ∧ HoldsAlong step holds next rest)
        ⟨fun both => ⟨both.1, fun other found => by
            rw [stepped] at found
            cases found
            exact both.2⟩,
          fun both => ⟨both.1, both.2 next stepped⟩⟩

/-- What a run on fixed inputs leads to can be evaluated. -/
instance decidableReaches (result : Option σ) (holds : σ → Prop) [DecidablePred holds] :
    Decidable (∃ state, result = some state ∧ holds state) :=
  decidable_of_iff (∃ state ∈ result, holds state) Iff.rfl

theorem execute_append (step : σ → ι → Option σ) (start : σ) (inputs others : List ι) :
    execute step start (inputs ++ others) =
      (execute step start inputs).bind fun state => execute step state others := by
  induction inputs generalizing start with
  | nil => rfl
  | cons input rest ih => simp [execute, ih, bind_assoc]

variable {step : σ → ι → Option σ} {holds : σ → ι → Prop} {invariant : σ → Prop}

/-- If no step fails from a state of the invariant and each leads back to it,
then no run of allowed inputs fails and each ends in it. -/
theorem execute_invariant {allowed : ι → Prop}
    (kept : ∀ state input, invariant state → allowed input → holds state input →
      ∃ next, step state input = some next ∧ invariant next)
    {inputs : List ι} {start : σ} (initial : invariant start)
    (permitted : ∀ input ∈ inputs, allowed input)
    (along : HoldsAlong step holds start inputs) :
    ∃ final, execute step start inputs = some final ∧ invariant final := by
  induction inputs generalizing start with
  | nil => exact ⟨start, rfl, initial⟩
  | cons input rest ih =>
    obtain ⟨next, stepped, following⟩ :=
      kept start input initial (permitted input (mem_cons_self ..)) along.1
    obtain ⟨final, ended, holdsFinal⟩ :=
      ih following (fun other mem => permitted other (mem_cons_of_mem _ mem))
        (along.2 next stepped)
    exact ⟨final, by simp [execute, stepped, ended], holdsFinal⟩

theorem execute_preserves_along
    (kept : ∀ state input next, invariant state → holds state input →
      step state input = some next → invariant next)
    {inputs : List ι} {start final : σ} (initial : invariant start)
    (along : HoldsAlong step holds start inputs)
    (reached : execute step start inputs = some final) : invariant final := by
  induction inputs generalizing start with
  | nil =>
    cases reached
    exact initial
  | cons input rest ih =>
    obtain ⟨next, stepped, following⟩ := bind_eq_some_iff.mp reached
    exact ih (kept start input next initial along.1 stepped) (along.2 next stepped) following

theorem holdsAlong_true {inputs : List ι} {start : σ} :
    HoldsAlong step (fun _ _ => True) start inputs := by
  induction inputs generalizing start with
  | nil => trivial
  | cons input rest ih => exact ⟨trivial, fun _ _ => ih⟩

theorem execute_preserves
    (kept : ∀ state input next, invariant state → step state input = some next → invariant next)
    {inputs : List ι} {start final : σ} (initial : invariant start)
    (reached : execute step start inputs = some final) : invariant final :=
  execute_preserves_along (fun state input next now _ => kept state input next now) initial
    holdsAlong_true reached

theorem foldlM_respects {related : σ → σ → Prop}
    (refl : ∀ state, related state state)
    (trans : ∀ {first second third}, related first second → related second third →
      related first third)
    (stepped : ∀ state input next, step state input = some next → related state next)
    {inputs : List ι} {start final : σ} (folded : inputs.foldlM step start = some final) :
    related start final := by
  induction inputs generalizing start with
  | nil =>
    cases folded
    exact refl _
  | cons input rest ih =>
    rw [foldlM_cons] at folded
    cases taken : step start input with
    | none => simp [taken] at folded
    | some next =>
      simp only [taken, bind_eq_bind, bind_some] at folded
      exact trans (stepped start input next taken) (ih folded)

/-- What a step does for its own input, and every other step leaves, is done for
each input in the end. -/
theorem foldl_establishes {step : σ → ι → σ} {done : ι → σ → Prop}
    (makes : ∀ state input, done input (step state input))
    (keeps : ∀ state input other, done input state → done input (step state other))
    {inputs : List ι} (start : σ) : ∀ input ∈ inputs, done input (inputs.foldl step start) := by
  intro input mem
  obtain ⟨before, after, rfl⟩ := append_of_mem mem
  rw [foldl_append, foldl_cons]
  exact List.foldlRecOn _ _ (makes _ input) fun state kept other _ => keeps state input other kept

theorem foldlM_succeeds {inputs : List ι} (start : σ)
    (succeeds : ∀ state, ∀ input ∈ inputs, ∃ next, step state input = some next) :
    ∃ final, inputs.foldlM step start = some final := by
  induction inputs generalizing start with
  | nil => exact ⟨start, rfl⟩
  | cons input rest ih =>
    obtain ⟨next, taken⟩ := succeeds start input (mem_cons_self ..)
    obtain ⟨final, folded⟩ :=
      ih next fun state other mem => succeeds state other (mem_cons_of_mem _ mem)
    exact ⟨final, by simp [foldlM_cons, taken, folded]⟩

end OpenAir.Base
