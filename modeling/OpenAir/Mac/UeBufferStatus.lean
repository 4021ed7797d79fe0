import OpenAir.Mac.UeMultiplexing

/-! The buffer status that a UE keeps for each group of logical channels, after
the loop of `ue_scheduler` over DCCH, DCCH1 and DTCH. -/

set_option autoImplicit false

namespace OpenAir.Mac

open Nat

def bsrSize (index : Nat) : Nat := (bsrTable.getD index 0).toNat

/-- The first index of `BSR_TABLE` that is enough for the octets, or 63. -/
structure IsBsrLevel (bytes index : Nat) : Prop where
  bounded : index ≤ 63
  enough : index = 63 ∨ bytes ≤ bsrSize index
  first : ∀ lower < index, bsrSize lower < bytes

theorem IsBsrLevel.unique {bytes index other : Nat} (level : IsBsrLevel bytes index)
    (again : IsBsrLevel bytes other) : index = other := by
  have ⟨bounded, enough, first⟩ := level
  have ⟨bounded', enough', first'⟩ := again
  rcases lt_trichotomy index other with less | same | more
  · have := first' index less
    omega
  · exact same
  · have := first other more
    omega

theorem bsrSize_lt : ∀ upper < 64, ∀ lower < upper, bsrSize lower < bsrSize upper := by
  decide +kernel

theorem locateLoop_spec {value fuel lower upper : Nat} (apart : lower < upper)
    (enough : upper - lower ≤ fuel + 1) (low : bsrSize lower ≤ value)
    (high : value < bsrSize upper) :
    locateLoop value fuel lower upper < upper ∧
      bsrSize (locateLoop value fuel lower upper) ≤ value ∧
      value < bsrSize (locateLoop value fuel lower upper + 1) := by
  induction fuel generalizing lower upper with
  | zero =>
    obtain rfl : upper = lower + 1 := by omega
    exact ⟨apart, low, high⟩
  | succ fuel ih =>
    rw [locateLoop]
    split
    · dsimp only
      split
      next reached => exact ih (by omega) (by omega) reached high
      next short =>
        have found := ih (by omega) (by omega) low (Nat.lt_of_not_le short)
        exact ⟨by omega, found.2⟩
    · obtain rfl : upper = lower + 1 := by omega
      exact ⟨apart, low, high⟩

theorem locate_isBsrLevel {bytes : Nat} (fits : bytes < 65536) :
    IsBsrLevel bytes (locate bytes) := by
  rw [locate]
  split
  next none => exact ⟨zero_le _, .inr (by omega), fun lower below => by omega⟩
  · obtain ⟨below, low, high⟩ := @locateLoop_spec bytes bsrTable.length 0 (bsrTable.length - 1)
      (by decide) (by decide) (zero_le _) (lt_trans fits (by decide +kernel))
    have bounded : bsrTable.length - 1 = 63 := rfl
    dsimp only
    generalize locateLoop bytes _ _ _ = lower at *
    have before : ∀ other < lower, bsrSize other < bsrSize lower := bsrSize_lt _ (by omega)
    split
    next equal =>
      exact ⟨by omega, .inr (le_of_eq equal),
        fun other less => lt_of_lt_of_le (before other less) low⟩
    next more =>
      refine ⟨by omega, .inr (le_of_lt high), fun other less => ?_⟩
      rcases lt_or_eq_of_le (le_of_lt_succ less) with less | rfl
      · exact lt_of_lt_of_le (before other less) low
      · exact lt_of_le_of_ne low fun same => more same.symm

namespace SchedulingInfo

variable (configured : Lcid → Bool) (left : Lcid → Nat) (info : SchedulingInfo)

/-- The loop of `ue_scheduler` over the configured channels, where RLC has `left`
octets for each. -/
def updateAll : SchedulingInfo :=
  [Lcid.dcch, .dcch1, .dtch].foldl (fun info lcid =>
    if configured lcid then info.updateBsr lcid (info.lcgid lcid) (left lcid) else info) info

def InGroup (group : Fin 4) (lcid : Lcid) : Prop :=
  configured lcid ∧ (info.lcgid lcid).toNat = group

instance (group : Fin 4) (lcid : Lcid) : Decidable (info.InGroup configured group lcid) :=
  inferInstanceAs (Decidable (_ ∧ _))

def groupBytes (group : Fin 4) : Nat :=
  (([Lcid.dcch, .dcch1, .dtch].filter (info.InGroup configured group ·)).map left).sum

structure Reported (after : SchedulingInfo) (group : Fin 4) : Prop where
  bytes : (after.bsrBytes group).toNat = info.groupBytes configured left group
  level : IsBsrLevel (info.groupBytes configured left group) (after.bsr group).toNat
  empty : after.bsr group = 0 ↔ info.groupBytes configured left group = 0

/-- DTCH resets the values, so that nothing may have been counted before it. DCCH resets
them too, and the level of DCCH1 is added to its level. Where neither is in the group,
nothing may be left from earlier. -/
def Plain (group : Fin 4) : Prop :=
  if info.InGroup configured group .dtch then
    (info.InGroup configured group .dcch → left .dcch = 0) ∧
      (info.InGroup configured group .dcch1 → left .dcch1 = 0)
  else if info.InGroup configured group .dcch then
    info.InGroup configured group .dcch1 →
      locate (left .dcch + left .dcch1) = locate (left .dcch) + locate (left .dcch1)
  else info.bsr group = 0 ∧ info.bsrBytes group = 0

theorem step_group (lcid : Lcid) (group : Fin 4) :
    let next := if configured lcid then info.updateBsr lcid (info.lcgid lcid) (left lcid) else info
    let clears := lcid = .dcch ∨ lcid = .dtch
    next.lcgid = info.lcgid ∧
      next.bsrBytes group = (if info.InGroup configured group lcid then
        (if clears then 0 else info.bsrBytes group) + UInt16.ofNat (left lcid)
        else info.bsrBytes group) ∧
      next.bsr group = if info.InGroup configured group lcid then
        (if clears then 0 else info.bsr group) + UInt8.ofNat (locate (left lcid))
        else info.bsr group := by
  intro next clears
  cases asked : configured lcid with
  | false => simp [next, InGroup, asked]
  | true =>
    have none : locate 0 = 0 := rfl
    have mem : info.InGroup configured group lcid ↔ (info.lcgid lcid).toNat = group :=
      and_iff_right asked
    simp only [next, asked, if_true, updateBsr, mem]
    split
    next known =>
      by_cases here : group = ⟨(info.lcgid lcid).toNat, known⟩
      · subst here
        by_cases clear : clears <;> by_cases some_ : 0 < left lcid <;>
          simp_all [clears, Nat.pos_iff_ne_zero]
      · have other : (info.lcgid lcid).toNat ≠ group := fun same => here (Fin.ext same.symm)
        by_cases clear : clears <;> by_cases some_ : 0 < left lcid <;>
          simp_all [clears, Function.update_of_ne]
    next unknown =>
      have other : (info.lcgid lcid).toNat ≠ group := fun same => unknown (same ▸ group.isLt)
      simp [other]

theorem reported_iff {after : SchedulingInfo} {group : Fin 4}
    (fits : info.groupBytes configured left group < 65536) :
    info.Reported configured left after group ↔
      (after.bsrBytes group).toNat = info.groupBytes configured left group ∧
        (after.bsr group).toNat = locate (info.groupBytes configured left group) := by
  have found := locate_isBsrLevel fits
  constructor
  · intro reported
    exact ⟨reported.bytes, reported.level.unique found⟩
  · rintro ⟨bytes, level⟩
    refine ⟨bytes, level ▸ found, ?_⟩
    rw [← UInt8.toNat_inj, level]
    constructor
    · intro zero
      have enough := found.enough
      rw [show locate (info.groupBytes configured left group) = 0 from zero] at enough
      exact le_zero.mp (enough.resolve_left (by decide))
    · intro none
      rw [none]
      rfl

theorem updateAll_reported (fits : left .dcch + left .dcch1 + left .dtch < 65536)
    (group : Fin 4) :
    info.Reported configured left (info.updateAll configured left) group ↔
      info.Plain configured left group := by
  simp only [updateAll, List.foldl_cons, List.foldl_nil]
  have first := step_group configured left info .dcch group
  generalize (if configured .dcch then _ else info) = one at *
  have second := step_group configured left one .dcch1 group
  generalize (if configured .dcch1 then _ else one) = two at *
  have third := step_group configured left two .dtch group
  have unreset : ¬ ((Lcid.dcch1 : Lcid) = .dcch ∨ (Lcid.dcch1 : Lcid) = .dtch) := by decide
  have same : ∀ lcid, two.InGroup configured group lcid ↔ info.InGroup configured group lcid :=
    fun lcid => by simp only [InGroup, second.1, first.1]
  have also : ∀ lcid, one.InGroup configured group lcid ↔ info.InGroup configured group lcid :=
    fun lcid => by simp only [InGroup, first.1]
  simp only [same, also, unreset, true_or, or_true, if_true, if_false] at first second third
  have total : info.groupBytes configured left group =
      (if info.InGroup configured group .dcch then left .dcch else 0) +
        (if info.InGroup configured group .dcch1 then left .dcch1 else 0) +
        if info.InGroup configured group .dtch then left .dtch else 0 := by
    simp only [groupBytes, List.filter_cons, List.filter_nil, decide_eq_true_eq]
    split_ifs <;> simp [add_assoc]
  have small : ∀ lcid, left lcid < 65536 → locate (left lcid) ≤ 63 :=
    fun lcid fits => (locate_isBsrLevel fits).bounded
  have dcch := small .dcch (by omega)
  have dcch1 := small .dcch1 (by omega)
  have dtch := small .dtch (by omega)
  have bytes := (info.bsrBytes group).toNat_lt
  have level := (info.bsr group).toNat_lt
  have none : locate 0 = 0 := rfl
  rw [reported_iff _ _ _ (by rw [total]; split_ifs <;> omega), third.2.1, second.2.1, first.2.1,
    third.2.2, second.2.2, first.2.2, total, Plain, ← UInt8.toNat_inj, ← UInt16.toNat_inj]
  -- the octets and the levels are added with 16 and 8 bits, and none of the sums is larger
  split_ifs <;>
    simp only [UInt16.toNat_add, UInt8.toNat_add, UInt16.toNat_ofNat', UInt8.toNat_ofNat',
      UInt16.toNat_zero, UInt8.toNat_zero, zero_add, add_zero, true_implies, false_implies,
      and_true, true_and, iff_true, *]
  any_goals omega
  all_goals
    simp (disch := omega) only [Nat.mod_eq_of_lt]
    refine (and_iff_left_of_imp (congrArg locate)).trans ?_
    omega

def oneGroup : SchedulingInfo := ⟨fun _ => 0, fun _ => 0, fun _ => false, fun _ => 1⟩

theorem updateAll_reported_signalling :
    oneGroup.Reported (· ≠ .dtch) (fun lcid => if lcid = .dcch then 40 else 0)
      (oneGroup.updateAll (· ≠ .dtch) fun lcid => if lcid = .dcch then 40 else 0) 1 :=
  (updateAll_reported _ _ oneGroup (by decide) 1).mpr (by unfold Plain; decide +kernel)

/-- DTCH wipes out what DCCH and DCCH1 have counted. -/
theorem not_updateAll_reported :
    ¬ oneGroup.Reported (fun _ => true) (fun _ => 40)
      (oneGroup.updateAll (fun _ => true) fun _ => 40) 1 :=
  fun reported => absurd reported.bytes (by decide +kernel)

end SchedulingInfo

end OpenAir.Mac
