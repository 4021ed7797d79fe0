import OpenAir.Base.Execution
import OpenAir.Phy.ResourceIndication

/-! The resource blocks of new transmissions on the uplink, after
`schedule_ulsch_rnti`: each UE gets the blocks behind those of the UE before. -/

set_option autoImplicit false

namespace OpenAir.Mac

open OpenAir.Base OpenAir.Phy List

def rbTable : List Nat :=
  [1, 2, 3, 4, 5, 6, 8, 9, 10, 12, 15, 16, 18, 20, 24, 25, 27, 30, 32, 36, 40, 45, 48, 50, 54, 60,
    72, 75, 80, 81, 90, 96, 100]

/-- The loop that lowers `rb_table_index`. The numbers it compares are signed. -/
def lowerRbTableIndex (nRbUl firstRb : Nat) : Nat → Nat
  | 0 => 0
  | index + 1 =>
    if (nRbUl : Int) - 1 - firstRb < rbTable.getD (index + 1) 0 ∨
        45 < rbTable.getD (index + 1) 0 then
      lowerRbTableIndex nRbUl firstRb index
    else index + 1

structure UlGrant where
  firstRb : Nat
  nbRb : Nat
  rballoc : Nat
  deriving DecidableEq, Repr

/-- `first_rb` of the carrier, and the grants that have been given on it. -/
structure UlSchedule where
  firstRb : Nat
  grants : List UlGrant
  deriving DecidableEq, Repr

/-- A new transmission, of a UE with `pre_allocated_rb_table_index_ul` or none. -/
def UlSchedule.newTransmission (nRbUl : Nat) (schedule : UlSchedule)
    (preAllocated : Option (Fin 33)) : UlSchedule :=
  let index := lowerRbTableIndex nRbUl schedule.firstRb ((preAllocated.map Fin.val).getD 5)
  let nbRb := rbTable.getD index 0
  { firstRb := (schedule.firstRb + nbRb) % 65536
    grants := schedule.grants ++
      [⟨schedule.firstRb, nbRb, computeRiv nRbUl schedule.firstRb nbRb⟩] }

def UlSchedule.step (nRbUl : Nat) (schedule : UlSchedule) (preAllocated : Option (Fin 33)) :
    Option UlSchedule :=
  some (schedule.newTransmission nRbUl preAllocated)

/-- The new transmissions of one call, of any number of UEs. -/
def scheduleUlschRnti (nRbUl firstRb : Nat) (preAllocated : List (Option (Fin 33))) :
    Option UlSchedule :=
  execute (UlSchedule.step nRbUl) ⟨firstRb, []⟩ preAllocated

def IsBandwidth (nRb : Nat) : Prop := nRb = 6 ∨ nRb = 25 ∨ nRb = 50 ∨ nRb = 100

/-- The grants do not overlap, leave the first and the last block of the band to
PUCCH, and are what the UEs look up. -/
structure UlSchedule.Sound (nRbUl : Nat) (schedule : UlSchedule) : Prop where
  disjoint : schedule.grants.Pairwise fun grant other =>
    grant.firstRb + grant.nbRb ≤ other.firstRb ∨ other.firstRb + other.nbRb ≤ grant.firstRb
  inBand : ∀ grant ∈ schedule.grants,
    1 ≤ grant.firstRb ∧ 0 < grant.nbRb ∧ grant.firstRb + grant.nbRb ≤ nRbUl - 1
  decoded : ∀ grant ∈ schedule.grants,
    generateRivTables nRbUl grant.rballoc = (grant.firstRb, grant.nbRb)

theorem rbTable_pos : ∀ index < 33, 0 < rbTable.getD index 0 := by decide

theorem lowerRbTableIndex_spec {nRbUl firstRb : Nat} (room : firstRb + 1 < nRbUl) (index : Nat) :
    lowerRbTableIndex nRbUl firstRb index ≤ index ∧
      firstRb + rbTable.getD (lowerRbTableIndex nRbUl firstRb index) 0 ≤ nRbUl - 1 := by
  induction index with
  | zero =>
    simp only [lowerRbTableIndex, rbTable, getD_cons_zero]
    omega
  | succ index ih =>
    unfold lowerRbTableIndex
    split
    · exact ⟨Nat.le_succ_of_le ih.1, ih.2⟩
    · exact ⟨Nat.le_refl _, by omega⟩

structure UlSchedule.Orderly (nRbUl : Nat) (schedule : UlSchedule) : Prop extends
    schedule.Sound nRbUl where
  start : 1 ≤ schedule.firstRb
  before : ∀ grant ∈ schedule.grants, grant.firstRb + grant.nbRb ≤ schedule.firstRb

theorem UlSchedule.Orderly.newTransmission {nRbUl : Nat} (bandwidth : IsBandwidth nRbUl)
    {schedule : UlSchedule} (orderly : schedule.Orderly nRbUl)
    (room : schedule.firstRb + 1 < nRbUl) (preAllocated : Option (Fin 33)) :
    (schedule.newTransmission nRbUl preAllocated).Orderly nRbUl := by
  have narrow : nRbUl ≤ 100 := by
    rcases bandwidth with rfl | rfl | rfl | rfl <;> decide
  have range : (preAllocated.map Fin.val).getD 5 < 33 := by
    cases preAllocated with
    | none => decide
    | some index => exact index.isLt
  obtain ⟨lower, fits⟩ := lowerRbTableIndex_spec room ((preAllocated.map Fin.val).getD 5)
  have some := rbTable_pos _ (Nat.lt_of_le_of_lt lower range)
  unfold UlSchedule.newTransmission
  simp only
  generalize rbTable.getD _ 0 = nbRb at fits some ⊢
  have next : (schedule.firstRb + nbRb) % 65536 = schedule.firstRb + nbRb :=
    Nat.mod_eq_of_lt (by omega)
  have start := orderly.start
  refine ⟨⟨?_, ?_, ?_⟩, by simp only; omega, ?_⟩
  · refine pairwise_append.mpr ⟨orderly.disjoint, pairwise_singleton .., ?_⟩
    intro grant mem other last
    rw [mem_singleton.mp last]
    exact .inl (orderly.before grant mem)
  · refine forall_mem_append.mpr ⟨orderly.inBand, ?_⟩
    simpa using ⟨start, some, fits⟩
  · refine forall_mem_append.mpr ⟨orderly.decoded, ?_⟩
    simpa using generateRivTables_computeRiv (Nat.le_trans narrow (by decide)) some (by omega)
  · rw [next]
    refine forall_mem_append.mpr ⟨fun grant mem => ?_, by simp⟩
    exact Nat.le_trans (orderly.before grant mem) (Nat.le_add_right _ _)

/-- As long as `first_rb` has not come to the last block of the band. -/
theorem ulGrants_sound {nRbUl firstRb : Nat} (bandwidth : IsBandwidth nRbUl)
    (start : firstRb = 1 ∨ firstRb = 2) {preAllocated : List (Option (Fin 33))}
    {schedule : UlSchedule}
    (room : HoldsAlong (UlSchedule.step nRbUl) (fun schedule _ => schedule.firstRb + 1 < nRbUl)
      ⟨firstRb, []⟩ preAllocated)
    (scheduled : scheduleUlschRnti nRbUl firstRb preAllocated = some schedule) :
    schedule.Sound nRbUl := by
  have kept : ∀ (state : UlSchedule) (index : Option (Fin 33)) (next : UlSchedule),
      state.Orderly nRbUl → state.firstRb + 1 < nRbUl → state.step nRbUl index = some next →
      next.Orderly nRbUl := by
    intro state index next orderly room stepped
    cases stepped
    exact orderly.newTransmission bandwidth room index
  have empty : (⟨firstRb, []⟩ : UlSchedule).Orderly nRbUl :=
    ⟨⟨.nil, by simp, by simp⟩, by simp only; omega, by simp⟩
  exact (execute_preserves_along kept empty room scheduled).toSound

theorem ulGrants_sound_three :
    ∃ schedule, scheduleUlschRnti 25 1 [some 9, none, some 3] = some schedule ∧
      schedule.Sound 25 :=
  ⟨_, rfl, @ulGrants_sound 25 1 (.inr (.inl rfl)) (.inl rfl) [some 9, none, some 3] _
    (by decide +kernel) rfl⟩

/-- The second of two UEs gets the last block of the band. -/
theorem not_ulGrants_sound :
    ∃ schedule, scheduleUlschRnti 6 1 [some 4, some 0] = some schedule ∧
      ⟨5, 1, 5⟩ ∈ schedule.grants ∧ ¬ schedule.Sound 6 :=
  ⟨_, rfl, by decide, fun sound => absurd (sound.inBand ⟨5, 1, 5⟩ (by decide)) (by decide)⟩

end OpenAir.Mac
