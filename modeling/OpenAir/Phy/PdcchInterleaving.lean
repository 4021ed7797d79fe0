import Mathlib.Data.Fintype.EquivFin
import Mathlib.Data.Nat.ModEq
import OpenAir.Base.Wiring

/-! The interleaver of PDCCH and its inverse (`pdcch_interleaving`, `pdcch_deinterleaving`),
for the `mquad` quadruplets that `get_nquad` counts and the arrays of one antenna. -/

set_option autoImplicit false

namespace OpenAir.Phy

open OpenAir.Base List

def bitrevCcDci : List Nat :=
  [1, 17, 9, 25, 5, 21, 13, 29, 3, 19, 11, 27, 7, 23, 15, 31,
    0, 16, 8, 24, 4, 20, 12, 28, 2, 18, 10, 26, 6, 22, 14, 30]

/-- The quadruplets of `z` in the order in which the loop over columns and rows finds
them, behind the first `ND` dummies. -/
def quadOrder (mquad : Nat) : List Nat :=
  let rcc := if 0 < mquad % 32 then mquad / 32 + 1 else mquad / 32
  let nd := rcc * 32 - mquad
  bitrevCcDci.flatMap fun col =>
    ((range rcc).filter fun row => nd ≤ col + 32 * row).map fun row => col + 32 * row - nd

def quadWires (quads : List (Nat × Nat)) : List (Nat × Nat) :=
  quads.flatMap fun quad => (range 4).map fun part => (4 * quad.1 + part, 4 * quad.2 + part)

def orderQuads (mquad : Nat) : List (Nat × Nat) :=
  (quadOrder mquad).zipIdx.map Prod.swap

def cellQuads (mquad nidCell : Nat) : List (Nat × Nat) :=
  (range mquad).map fun i => (i, (i + nidCell) % mquad)

variable {σ : Type}

def pdcchInterleaving (mquad nidCell : Nat) (wtemp z wbar : Nat → σ) : Nat → σ :=
  let wtemp := carry (quadWires (orderQuads mquad)) z wtemp
  carry (quadWires (cellQuads mquad nidCell)) wtemp wbar

def pdcchDeinterleaving (mquad nidCell : Nat) (wtempRx wbar z : Nat → σ) : Nat → σ :=
  let wtempRx := carry (quadWires ((cellQuads mquad nidCell).map Prod.swap)) wbar wtempRx
  carry (quadWires ((orderQuads mquad).map Prod.swap)) wtempRx z

section Quads

variable {quads : List (Nat × Nat)}

theorem mem_quadWires {wire : Nat × Nat} : wire ∈ quadWires quads ↔
    ∃ quad ∈ quads, ∃ part < 4, (4 * quad.1 + part, 4 * quad.2 + part) = wire := by
  simp [quadWires]

theorem carry_quads (one : OneToOne quads) {left right : Nat} (wired : (left, right) ∈ quads)
    {part : Nat} (low : part < 4) (source target : Nat → σ) :
    carry (quadWires quads) source target (4 * left + part) = source (4 * right + part) := by
  refine carry_of_mem ?_ (mem_quadWires.mpr ⟨_, wired, part, low, rfl⟩) source target
  intro wire mem other also
  obtain ⟨quad, inside, part, _, rfl⟩ := mem_quadWires.mp mem
  obtain ⟨next, within, rest, _, rfl⟩ := mem_quadWires.mp also
  have := one quad inside next within
  constructor <;> intro same <;> simp only at same ⊢ <;> omega

theorem carry_beyond {mquad : Nat} (inside : ∀ quad ∈ quads, quad.1 < mquad) {index : Nat}
    (beyond : 4 * mquad ≤ index) (source target : Nat → σ) :
    carry (quadWires quads) source target index = target index := by
  refine carry_of_not_mem (fun wire mem => ?_) source target
  obtain ⟨quad, within, part, _, rfl⟩ := mem_quadWires.mp mem
  have := inside quad within
  simp only
  omega

end Quads

section Order

variable {mquad : Nat}

theorem mem_quadOrder {quad : Nat} : quad ∈ quadOrder mquad ↔ quad < mquad := by
  simp only [quadOrder, mem_flatMap, mem_map, mem_filter, mem_range, decide_eq_true_eq]
  generalize rows : (if 0 < mquad % 32 then mquad / 32 + 1 else mquad / 32) = rcc
  have enough : mquad ≤ rcc * 32 := by split at rows <;> omega
  constructor
  · rintro ⟨col, known, row, ⟨below, behind⟩, rfl⟩
    have : ∀ col ∈ bitrevCcDci, col < 32 := by decide
    have := this col known
    omega
  · intro below
    have all : ∀ col < 32, col ∈ bitrevCcDci := by decide
    exact ⟨(quad + (rcc * 32 - mquad)) % 32, all _ (Nat.mod_lt _ (by decide)),
      (quad + (rcc * 32 - mquad)) / 32, by omega, by omega⟩

theorem nodup_quadOrder : (quadOrder mquad).Nodup := by
  unfold quadOrder
  rw [nodup_flatMap]
  constructor
  · intro col _
    refine (nodup_range.filter _).map_on fun row mem other also same => ?_
    simp only [mem_filter, decide_eq_true_eq] at mem also
    omega
  · have apart : bitrevCcDci.Pairwise fun col other => col % 32 ≠ other % 32 := by decide
    refine apart.imp fun differ quad mem also => differ ?_
    simp only [mem_map, mem_filter, decide_eq_true_eq] at mem also
    obtain ⟨row, ⟨_, _⟩, rfl⟩ := mem
    obtain ⟨_, ⟨_, _⟩, _⟩ := also
    omega

theorem length_quadOrder : (quadOrder mquad).length = mquad := by
  have same : (quadOrder mquad).Perm (range mquad) :=
    (perm_ext_iff_of_nodup nodup_quadOrder nodup_range).mpr fun quad => by
      rw [mem_quadOrder, mem_range]
  simpa using same.length_eq

theorem mem_orderQuads {quads : Nat × Nat} : quads ∈ orderQuads mquad ↔
    (quadOrder mquad)[quads.1]? = some quads.2 := by
  simp [orderQuads, mk_mem_zipIdx_iff_getElem?, Prod.ext_iff]

theorem oneToOne_orderQuads : OneToOne (orderQuads mquad) := by
  intro quads mem other also
  rw [mem_orderQuads] at mem also
  constructor
  · intro same
    rw [same, also] at mem
    exact (Option.some_inj.mp mem).symm
  · intro same
    have below := (List.getElem?_eq_some_iff.mp mem).1
    exact (List.getElem?_inj below nodup_quadOrder).mp (mem.trans (same ▸ also.symm))

theorem mod_shift_inj {i j nidCell : Nat} (low : i < mquad) (lower : j < mquad)
    (same : (i + nidCell) % mquad = (j + nidCell) % mquad) : i = j :=
  (Nat.ModEq.add_right_cancel' nidCell same).eq_of_lt_of_lt low lower

theorem oneToOne_cellQuads (nidCell : Nat) : OneToOne (cellQuads mquad nidCell) := by
  intro quads mem other also
  simp only [cellQuads, mem_map, mem_range] at mem also
  obtain ⟨i, low, rfl⟩ := mem
  obtain ⟨j, lower, rfl⟩ := also
  exact ⟨congrArg fun i => (i + nidCell) % mquad, mod_shift_inj low lower⟩

end Order

/-- The interleaver moves the quadruplets of `z` one-to-one to `wbar`, the receiver puts
the soft values of each one back, and neither goes beyond the last quadruplet. -/
theorem pdcchDeinterleaving_restores {τ : Type} {mquad : Nat} (some_ : 1 ≤ mquad) (nidCell : Nat) :
    ∃ place : Fin mquad → Fin mquad, Function.Bijective place ∧
      (∀ wtemp z wbar : Nat → σ,
        (∀ quad : Fin mquad, ∀ part < 4, pdcchInterleaving mquad nidCell wtemp z wbar
          (4 * quad + part) = z (4 * place quad + part)) ∧
        ∀ index, 4 * mquad ≤ index →
          pdcchInterleaving mquad nidCell wtemp z wbar index = wbar index) ∧
      (∀ wtempRx wbar z : Nat → τ,
        (∀ quad, ∀ part < 4, pdcchDeinterleaving mquad nidCell wtempRx wbar z
          (4 * place quad + part) = wbar (4 * quad + part)) ∧
        ∀ index, 4 * mquad ≤ index →
          pdcchDeinterleaving mquad nidCell wtempRx wbar z index = z index) ∧
      ∀ (soft : σ → τ) wtemp z wbar wtempRx received, ∀ index < 4 * mquad,
        pdcchDeinterleaving mquad nidCell wtempRx
          (fun index => soft (pdcchInterleaving mquad nidCell wtemp z wbar index)) received index =
            soft (z index) := by
  have shifted (i : Nat) : (i + nidCell) % mquad < (quadOrder mquad).length :=
    length_quadOrder.symm ▸ Nat.mod_lt _ some_
  let place (quad : Fin mquad) : Fin mquad :=
    ⟨(quadOrder mquad).get ⟨_, shifted quad⟩, mem_quadOrder.mp (get_mem ..)⟩
  have injective : Function.Injective place := fun quad other same =>
    Fin.ext (mod_shift_inj quad.2 other.2
      (congrArg Fin.val (nodup_quadOrder.injective_get (congrArg Fin.val same))))
  have bijective := injective.bijective_of_finite
  have ordered (quad : Fin mquad) :
      ((quad + nidCell) % mquad, (place quad : Nat)) ∈ orderQuads mquad :=
    mem_orderQuads.mpr (getElem?_eq_getElem (shifted quad))
  have celled (quad : Fin mquad) :
      ((quad : Nat), (quad + nidCell) % mquad) ∈ cellQuads mquad nidCell :=
    mem_map.mpr ⟨quad, mem_range.mpr quad.2, rfl⟩
  have sent (wtemp z wbar : Nat → σ) (quad : Fin mquad) (part : Nat) (low : part < 4) :
      pdcchInterleaving mquad nidCell wtemp z wbar (4 * quad + part) =
        z (4 * place quad + part) := by
    rw [pdcchInterleaving, carry_quads (oneToOne_cellQuads nidCell) (celled quad) low,
      carry_quads oneToOne_orderQuads (ordered quad) low]
  have heard (wtempRx wbar z : Nat → τ) (quad : Fin mquad) (part : Nat) (low : part < 4) :
      pdcchDeinterleaving mquad nidCell wtempRx wbar z (4 * place quad + part) =
        wbar (4 * quad + part) := by
    rw [pdcchDeinterleaving, carry_quads oneToOne_orderQuads.swap
      (mem_map_of_mem (ordered quad)) low, carry_quads (oneToOne_cellQuads nidCell).swap
      (mem_map_of_mem (celled quad)) low]
  refine ⟨place, bijective, fun wtemp z wbar => ⟨sent wtemp z wbar, fun index beyond => ?_⟩,
    fun wtempRx wbar z => ⟨heard wtempRx wbar z, fun index beyond => ?_⟩, ?_⟩
  · refine carry_beyond (fun quad mem => ?_) beyond ..
    obtain ⟨i, low, rfl⟩ := mem_map.mp mem
    exact mem_range.mp low
  · refine carry_beyond (fun quad mem => ?_) beyond ..
    obtain ⟨other, inside, rfl⟩ := mem_map.mp mem
    exact mem_quadOrder.mp (mem_of_getElem? (mem_orderQuads.mp inside))
  · intro soft wtemp z wbar wtempRx received index below
    obtain ⟨quad, found⟩ := bijective.2 ⟨index / 4, by omega⟩
    have here : index = 4 * place quad + index % 4 := by
      have := congrArg Fin.val found
      simp only at this
      omega
    rw [here, heard _ _ _ quad _ (by omega), sent _ _ _ quad _ (by omega)]

theorem pdcchDeinterleaving_restores_33 :
    (range 132).map (pdcchDeinterleaving 33 7 (fun _ => 0)
      (pdcchInterleaving 33 7 (fun _ => 0) (fun index => index) fun _ => 0) fun _ => 0) =
      range 132 := by
  obtain ⟨-, -, -, -, restores⟩ := @pdcchDeinterleaving_restores Nat Nat 33 (by decide) 7
  refine (map_congr_left fun index mem => ?_).trans (map_id _)
  exact restores id _ _ _ _ _ index (mem_range.mp mem)

end OpenAir.Phy
