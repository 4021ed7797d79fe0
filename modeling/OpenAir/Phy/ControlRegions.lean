import Mathlib.Data.Fin.VecNotation
import Mathlib.Data.Nat.ModEq
import Mathlib.Order.Fin.Basic
import OpenAir.Base.Memory
import OpenAir.Phy.Pdcch

/-! Which resource element groups of the first symbol PCFICH and PHICH take, after
`generate_pcfich_reg_mapping` and `generate_phich_reg_mapping` with a normal cyclic
prefix and a normal duration of PHICH. -/

set_option autoImplicit false

namespace OpenAir.Phy

/-- `pcfich_reg` and `pcfich_first_reg_idx`. -/
structure PcfichMapping where
  pcfichReg : Fin 4 → Nat
  pcfichFirstRegIdx : Fin 4

def generatePcfichRegMapping (nidCell nRbDl : Nat) : PcfichMapping :=
  let kbar := 6 * (nidCell % (2 * nRbDl))
  let reg0 := kbar / 6
  let reg1 := (kbar + nRbDl / 2 * 6) % (nRbDl * 12) / 6
  let reg2 := (kbar + nRbDl * 6) % (nRbDl * 12) / 6
  let reg3 := (kbar + 3 * nRbDl / 2 * 6) % (nRbDl * 12) / 6
  let first := if reg1 < reg0 then (1, reg1) else (0, reg0)
  let first := if reg2 < first.2 then (2, reg2) else first
  ⟨![reg0, reg1, reg2, reg3], if reg3 < first.2 then 3 else first.1⟩

def PcfichMapping.ordered (mapping : PcfichMapping) (step : Fin 4) : Nat :=
  mapping.pcfichReg (mapping.pcfichFirstRegIdx + step)

/-- The group after the ones of PCFICH, which are passed from the first one on. -/
def PcfichMapping.pass (mapping : PcfichMapping) (reg : Nat) : Nat :=
  [0, 1, 2, 3].foldl (fun reg step => if mapping.ordered step ≤ reg then reg + 1 else reg) reg

/-- `Ngroup_PHICH`, without the factor of the subframe. -/
def phichGroups (resource : PhichResource) (nRbDl : Nat) : Nat :=
  let groups := resource.value * nRbDl / 48
  if 0 < resource.value * nRbDl % 48 then groups + 1 else groups

/-- `phich_reg`, for a group below `Ngroup_PHICH`. -/
def phichReg (mapping : PcfichMapping) (nidCell nRbDl group : Nat) (part : Fin 3) : Nat :=
  let n0 := nRbDl * 2 - 4
  mapping.pass ((nidCell + group + ![0, n0 / 3, 2 * n0 / 3] part) % n0)

theorem pcfichReg_shift (nRbDl shift : Nat) {start : Nat} (inside : start < 2 * nRbDl)
    (less : shift < 2 * nRbDl) :
    ∃ reg, (6 * start + shift * 6) % (nRbDl * 12) / 6 = reg ∧ reg < 2 * nRbDl ∧
      (reg = start + shift ∨ reg + 2 * nRbDl = start + shift) := by
  refine ⟨_, rfl, ?_⟩
  rw [show 6 * start + shift * 6 = 6 * (start + shift) by omega,
    show nRbDl * 12 = 6 * (2 * nRbDl) by omega, Nat.mul_mod_mul_left,
    Nat.mul_div_cancel_left _ (by decide), Nat.add_mod_eq_ite, Nat.mod_eq_of_lt inside,
    Nat.mod_eq_of_lt less]
  split <;> omega

theorem pcfich_ordered (nidCell : Nat) {nRbDl : Nat} (wide : 2 ≤ nRbDl) :
    StrictMono (generatePcfichRegMapping nidCell nRbDl).ordered ∧
      ∀ step, (generatePcfichRegMapping nidCell nRbDl).ordered step < 2 * nRbDl := by
  have inside := Nat.mod_lt nidCell (show 0 < 2 * nRbDl by omega)
  simp only [Fin.strictMono_iff_lt_succ, PcfichMapping.ordered, generatePcfichRegMapping]
  generalize nidCell % (2 * nRbDl) = start at inside
  obtain ⟨reg1, first, _⟩ := pcfichReg_shift nRbDl (nRbDl / 2) inside (by omega)
  obtain ⟨reg2, second, _⟩ := pcfichReg_shift nRbDl nRbDl inside (by omega)
  obtain ⟨reg3, third, _⟩ := pcfichReg_shift nRbDl (3 * nRbDl / 2) inside (by omega)
  rw [first, second, third, Nat.mul_div_cancel_left _ (by decide)]
  split_ifs <;> simp [Fin.forall_fin_succ] <;> omega

theorem PcfichMapping.ordered_sub (mapping : PcfichMapping) (index : Fin 4) :
    mapping.ordered (index - mapping.pcfichFirstRegIdx) = mapping.pcfichReg index :=
  congrArg mapping.pcfichReg (by omega)

theorem PcfichMapping.pass_strictMono (mapping : PcfichMapping) : StrictMono mapping.pass := by
  have skip (taken : Nat) : StrictMono fun reg => if taken ≤ reg then reg + 1 else reg := by
    intro lower upper less
    dsimp only
    split_ifs <;> omega
  exact (skip _).comp ((skip _).comp ((skip _).comp (skip _)))

theorem PcfichMapping.pass_le (mapping : PcfichMapping) (reg : Nat) :
    mapping.pass reg ≤ reg + 4 := by
  simp only [pass, List.foldl_cons, List.foldl_nil]
  split_ifs <;> omega

section Passing

variable {mapping : PcfichMapping} (ascending : StrictMono mapping.ordered)

include ascending

theorem PcfichMapping.pass_ne (reg : Nat) (step : Fin 4) :
    mapping.pass reg ≠ mapping.ordered step := by
  have := @ascending 0 1 (by decide)
  have := @ascending 1 2 (by decide)
  have := @ascending 2 3 (by decide)
  simp only [pass, List.foldl_cons, List.foldl_nil]
  obtain rfl | rfl | rfl | rfl : step = 0 ∨ step = 1 ∨ step = 2 ∨ step = 3 := by omega
  all_goals split_ifs <;> omega

theorem PcfichMapping.injective_pcfichReg : Function.Injective mapping.pcfichReg := by
  intro one other same
  have equal : one - mapping.pcfichFirstRegIdx = other - mapping.pcfichFirstRegIdx :=
    ascending.injective (by simpa only [ordered_sub] using same)
  omega

end Passing

theorem phichGroups_le (resource : PhichResource) {nRbDl : Nat} (wide : 6 ≤ nRbDl) :
    phichGroups resource nRbDl ≤ (nRbDl * 2 - 4) / 3 := by
  unfold phichGroups
  split <;> cases resource <;> simp only [PhichResource.value] at * <;> omega

theorem phich_offsets (n0 : Nat) :
    let offset := ![0, n0 / 3, 2 * n0 / 3]
    (∀ part, offset part + n0 / 3 ≤ n0) ∧
      ∀ part rest, part ≠ rest →
        offset part + n0 / 3 ≤ offset rest ∨ offset rest + n0 / 3 ≤ offset part := by
  simp [Fin.forall_fin_succ]
  omega

theorem control_regs_disjoint (nidCell nRbDl : Nat) (resource : PhichResource)
    (narrowest : 6 ≤ nRbDl) :
    let mapping := generatePcfichRegMapping nidCell nRbDl
    let phichReg := phichReg mapping nidCell nRbDl
    (∀ index, mapping.pcfichReg index < 2 * nRbDl) ∧ Function.Injective mapping.pcfichReg ∧
      StrictMono (fun step => mapping.pcfichReg (mapping.pcfichFirstRegIdx + step)) ∧
      (∀ group < phichGroups resource nRbDl, ∀ part,
        phichReg group part < 2 * nRbDl ∧ ∀ index, phichReg group part ≠ mapping.pcfichReg index) ∧
      ∀ group < phichGroups resource nRbDl, ∀ other < phichGroups resource nRbDl, ∀ part rest,
        phichReg group part = phichReg other rest → group = other ∧ part = rest := by
  intro mapping phichReg
  obtain ⟨ascending, inside⟩ := pcfich_ordered nidCell (show 2 ≤ nRbDl by omega)
  have few := phichGroups_le resource narrowest
  refine ⟨fun index => mapping.ordered_sub index ▸ inside _,
    PcfichMapping.injective_pcfichReg ascending, ascending, ?_, ?_⟩
  · intro group _ part
    refine ⟨?_, fun index => mapping.ordered_sub index ▸ PcfichMapping.pass_ne ascending _ _⟩
    calc phichReg group part ≤ _ + 4 := mapping.pass_le _
      _ < nRbDl * 2 - 4 + 4 := Nat.add_lt_add_right (Nat.mod_lt _ (by omega)) 4
      _ = 2 * nRbDl := by omega
  · intro group low other lower part rest same
    have same := mapping.pass_strictMono.injective same
    rw [Nat.add_assoc, Nat.add_assoc] at same
    have same := Nat.ModEq.add_left_cancel' nidCell same
    obtain ⟨inside, apart⟩ := phich_offsets (nRbDl * 2 - 4)
    have := inside part
    have := inside rest
    have equal := same.eq_of_lt_of_lt (by omega) (by omega)
    by_cases parts : part = rest
    · subst parts
      exact ⟨by omega, rfl⟩
    · have := apart part rest parts
      omega

theorem control_regs_of_25_blocks :
    let mapping := generatePcfichRegMapping 7 25
    phichGroups .one 25 = 4 ∧ Function.Injective mapping.pcfichReg ∧
      ∀ group < 4, ∀ part, phichReg mapping 7 25 group part < 50 ∧
        ∀ index, phichReg mapping 7 25 group part ≠ mapping.pcfichReg index :=
  have ⟨_, injective, _, apart, _⟩ := control_regs_disjoint 7 25 .one (by decide)
  ⟨by decide, injective, apart⟩

end OpenAir.Phy
