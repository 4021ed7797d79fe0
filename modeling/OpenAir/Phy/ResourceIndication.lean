import Mathlib.Algebra.Group.Nat.Even
import Mathlib.Algebra.Order.Ring.Nat
import Mathlib.Data.List.Nodup
import Mathlib.Data.Set.Function
import OpenAir.Base.Wiring

/-! Resource indication values, after `computeRIV` and `generate_RIV_tables`: a
grant of contiguous resource blocks is sent as one number, and looked up in tables
that are filled with the number of every such grant. -/

set_option autoImplicit false

namespace OpenAir.Phy

open Base List Nat

def computeRiv (nRb rbStart lcrbs : Nat) : Nat :=
  (if lcrbs ≤ 1 + nRb / 2 then nRb * (lcrbs - 1) + rbStart
    else nRb * (nRb + 1 - lcrbs) + (nRb - 1 - rbStart)) % 65536

/-- The pairs of RBstart and Lcrbs for which the tables are filled, in that order. -/
def rivPairs (nRb : Nat) : List (Nat × Nat) :=
  (range nRb).flatMap fun rbStart =>
    (range (nRb - rbStart)).map fun fewer => (rbStart, fewer + 1)

/-- RIV2first_rb_LUT and RIV2nb_rb_LUT for one bandwidth. -/
def generateRivTables (nRb : Nat) : Nat → Nat × Nat :=
  (rivPairs nRb).foldl
    (fun tables pair => Function.update tables (computeRiv nRb pair.1 pair.2) pair) fun _ => (0, 0)

theorem mem_rivPairs {nRb : Nat} {pair : Nat × Nat} :
    pair ∈ rivPairs nRb ↔ 0 < pair.2 ∧ pair.1 + pair.2 ≤ nRb := by
  obtain ⟨rbStart, lcrbs⟩ := pair
  simp only [rivPairs, mem_flatMap, mem_range, mem_map, Prod.mk.injEq]
  constructor
  · rintro ⟨start, below, fewer, less, rfl, rfl⟩
    exact ⟨by omega, by omega⟩
  · rintro ⟨some, fits⟩
    exact ⟨rbStart, by omega, lcrbs - 1, by omega, rfl, by omega⟩

/-- The quotient and the rest of a resource indication value tell the two cases
apart: their sum is below the bandwidth in the first one only. -/
def readRiv (nRb riv : Nat) : Nat × Nat :=
  if riv % nRb + riv / nRb < nRb then (riv % nRb, riv / nRb + 1)
  else (nRb - 1 - riv % nRb, nRb + 1 - riv / nRb)

section Values

variable {nRb quotient rest rbStart lcrbs riv : Nat}

theorem readRiv_parts (less : rest < nRb) :
    readRiv nRb (nRb * quotient + rest) =
      if rest + quotient < nRb then (rest, quotient + 1)
      else (nRb - 1 - rest, nRb + 1 - quotient) := by
  rw [readRiv, mul_add_div (by omega), div_eq_of_lt less, mul_add_mod, mod_eq_of_lt less, add_zero]

theorem lt_half_square_iff (less : rest < nRb) :
    nRb * quotient + rest < nRb * (nRb + 1) / 2 ↔
      2 * quotient < nRb ∨ 2 * quotient = nRb ∧ 2 * rest < nRb := by
  obtain ⟨half, twice⟩ := even_mul_succ_self nRb
  have square : nRb * (nRb + 1) = nRb * nRb + nRb := mul_succ nRb nRb
  have double : nRb * (2 * quotient) = 2 * (nRb * quotient) := mul_left_comm nRb 2 quotient
  rcases lt_trichotomy (2 * quotient) nRb with few | even | many
  · have := mul_le_mul_left nRb (succ_le_of_lt few)
    rw [succ_eq_add_one, mul_succ] at this
    omega
  · rw [even] at double
    omega
  · have := mul_le_mul_left nRb (succ_le_of_lt many)
    rw [succ_eq_add_one, mul_succ] at this
    omega

theorem computeRiv_parts (narrow : nRb ≤ 361) (some : 0 < lcrbs) (fits : rbStart + lcrbs ≤ nRb) :
    ∃ quotient rest, rest < nRb ∧ (2 * quotient < nRb ∨ 2 * quotient = nRb ∧ 2 * rest < nRb) ∧
      computeRiv nRb rbStart lcrbs = nRb * quotient + rest ∧
      (if rest + quotient < nRb then (rest, quotient + 1)
        else (nRb - 1 - rest, nRb + 1 - quotient)) = (rbStart, lcrbs) := by
  have small : ∀ quotient rest, quotient ≤ nRb / 2 → rest < nRb →
      (nRb * quotient + rest) % 65536 = nRb * quotient + rest := by
    intro quotient rest few less
    have most : nRb * (quotient + 1) ≤ 361 * 181 := Nat.mul_le_mul narrow (by omega)
    rw [Nat.mul_add] at most
    exact Nat.mod_eq_of_lt (by omega)
  unfold computeRiv
  split
  · refine ⟨lcrbs - 1, rbStart, by omega, by omega, small _ _ (by omega) (by omega), ?_⟩
    rw [if_pos (by omega), Nat.sub_add_cancel some]
  · refine ⟨nRb + 1 - lcrbs, nRb - 1 - rbStart, by omega, by omega,
      small _ _ (by omega) (by omega), ?_⟩
    rw [if_neg (by omega)]
    exact Prod.ext (by simp only; omega) (by simp only; omega)

theorem readRiv_computeRiv (narrow : nRb ≤ 361) (some : 0 < lcrbs) (fits : rbStart + lcrbs ≤ nRb) :
    readRiv nRb (computeRiv nRb rbStart lcrbs) = (rbStart, lcrbs) := by
  obtain ⟨quotient, rest, less, -, value, read⟩ := computeRiv_parts narrow some fits
  rw [value, readRiv_parts less, read]

theorem computeRiv_injOn (narrow : nRb ≤ 361) :
    Set.InjOn (fun pair : Nat × Nat => computeRiv nRb pair.1 pair.2)
      {pair | 0 < pair.2 ∧ pair.1 + pair.2 ≤ nRb} := by
  intro pair valid other also same
  have read := congrArg (readRiv nRb) same
  simp only at read
  rwa [readRiv_computeRiv narrow valid.1 valid.2, readRiv_computeRiv narrow also.1 also.2] at read

theorem computeRiv_lt (narrow : nRb ≤ 361) (some : 0 < lcrbs) (fits : rbStart + lcrbs ≤ nRb) :
    computeRiv nRb rbStart lcrbs < nRb * (nRb + 1) / 2 := by
  obtain ⟨quotient, rest, less, row, value, -⟩ := computeRiv_parts narrow some fits
  rw [value]
  exact (lt_half_square_iff less).mpr row

theorem computeRiv_readRiv (narrow : nRb ≤ 361) (below : riv < nRb * (nRb + 1) / 2) :
    0 < (readRiv nRb riv).2 ∧ (readRiv nRb riv).1 + (readRiv nRb riv).2 ≤ nRb ∧
      computeRiv nRb (readRiv nRb riv).1 (readRiv nRb riv).2 = riv := by
  have less : riv % nRb < nRb := Nat.mod_lt riv (Nat.pos_of_ne_zero fun none => by
    simp [none] at below)
  have row := (lt_half_square_iff less).mp ((Nat.div_add_mod riv nRb).symm ▸ below)
  have most : riv < 65536 := by
    have : nRb * (nRb + 1) ≤ 361 * 362 := Nat.mul_le_mul narrow (by omega)
    omega
  simp only [readRiv, computeRiv]
  split
  · refine ⟨by simp only; omega, by simp only; omega, ?_⟩
    simp only
    rw [if_pos (by omega), Nat.add_sub_cancel, Nat.div_add_mod, Nat.mod_eq_of_lt most]
  · refine ⟨by simp only; omega, by simp only; omega, ?_⟩
    simp only
    rw [if_neg (by omega), show nRb + 1 - (nRb + 1 - riv / nRb) = riv / nRb by omega,
      show nRb - 1 - (nRb - 1 - riv % nRb) = riv % nRb by omega, Nat.div_add_mod,
      Nat.mod_eq_of_lt most]

end Values

theorem generateRivTables_computeRiv {nRb rbStart lcrbs : Nat} (narrow : nRb ≤ 361)
    (some : 0 < lcrbs) (fits : rbStart + lcrbs ≤ nRb) :
    generateRivTables nRb (computeRiv nRb rbStart lcrbs) = (rbStart, lcrbs) := by
  have apart : OneToOne ((rivPairs nRb).map fun pair => (computeRiv nRb pair.1 pair.2, pair)) := by
    simp only [OneToOne, forall_mem_map, mem_rivPairs]
    exact fun pair valid other also => (computeRiv_injOn narrow).eq_iff valid also
  have filled := carry_of_mem apart
    (mem_map_of_mem (@mem_rivPairs nRb (rbStart, lcrbs) |>.mpr ⟨some, fits⟩)) id
    fun _ => (0, 0)
  rwa [carry, foldl_map] at filled

theorem rivPairs_nodup (nRb : Nat) : (rivPairs nRb).Nodup := by
  refine nodup_flatMap.mpr ⟨fun rbStart _ => ?_, ?_⟩
  · exact nodup_range.map fun fewer less same => by simpa using same
  · refine nodup_range.imp fun {first second} differ => ?_
    simp only [Function.onFun, disjoint_left, mem_map]
    rintro _ ⟨fewer, -, rfl⟩ ⟨less, -, same⟩
    exact differ (congrArg Prod.fst same).symm

/-- The values of the grants are the numbers below half of N (N + 1), each of one grant, and
so each of their entries in the tables is written once and gives the grant back. -/
theorem computeRiv_unambiguous (nRb : Nat) (narrow : nRb ≤ 361) :
    Set.BijOn (fun pair : Nat × Nat => computeRiv nRb pair.1 pair.2)
        {pair | 1 ≤ pair.2 ∧ pair.1 + pair.2 ≤ nRb} (Set.Iio (nRb * (nRb + 1) / 2)) ∧
      (nRb ∈ [6, 25, 50, 100] →
        ((rivPairs nRb).map fun pair => computeRiv nRb pair.1 pair.2).Perm
            (range (nRb * (nRb + 1) / 2)) ∧
          ∀ rbStart lcrbs, 1 ≤ lcrbs → rbStart + lcrbs ≤ nRb →
            generateRivTables nRb (computeRiv nRb rbStart lcrbs) = (rbStart, lcrbs)) := by
  have bijective : Set.BijOn (fun pair : Nat × Nat => computeRiv nRb pair.1 pair.2)
      {pair | 1 ≤ pair.2 ∧ pair.1 + pair.2 ≤ nRb} (Set.Iio (nRb * (nRb + 1) / 2)) := by
    refine ⟨fun pair valid => computeRiv_lt narrow valid.1 valid.2,
      computeRiv_injOn narrow, fun riv below => ?_⟩
    obtain ⟨long, fits, value⟩ := computeRiv_readRiv narrow below
    exact ⟨readRiv nRb riv, ⟨long, fits⟩, value⟩
  refine ⟨bijective, fun _ => ⟨?_, fun rbStart lcrbs long fits =>
    generateRivTables_computeRiv narrow long fits⟩⟩
  refine (perm_ext_iff_of_nodup ((rivPairs_nodup nRb).map_on ?_) nodup_range).mpr ?_
  · exact fun pair mem other also same =>
      bijective.injOn (mem_rivPairs.mp mem) (mem_rivPairs.mp also) same
  · intro riv
    rw [mem_range, ← Set.mem_Iio, ← bijective.image_eq]
    simp only [mem_map, mem_rivPairs, Set.mem_image, Set.mem_ofPred_eq, succ_le_iff]

theorem computeRiv_unambiguous_six :
    computeRiv 6 1 5 = 16 ∧ generateRivTables 6 (computeRiv 6 1 5) = (1, 5) :=
  ⟨by decide, ((computeRiv_unambiguous 6 (by decide)).2 (by decide)).2 1 5 (by decide) (by decide)⟩

end OpenAir.Phy
