import OpenAir.RlcAm.TransmissionProperties

/-! What a segment of a retransmitted PDU takes of it: it starts with the first
hole and does not go past its end or past the grant. -/

set_option autoImplicit false

namespace OpenAir.RlcAm

open Option Resegmenting

structure Resegmenting.Within (state : Resegmenting) (limit : Int) : Prop where
  positive : 0 ≤ state.maxCopyPayloadSize
  copied : state.pduCopySize + state.maxCopyPayloadSize ≤ limit

section Within

variable {state next : Resegmenting} {limit : Int}

theorem Resegmenting.Within.takeSdu (within : state.Within limit)
    (taken : state.takeSdu = some next) : next.Within limit := by
  obtain ⟨positive, copied⟩ := within
  simp only [Resegmenting.takeSdu] at taken
  split at taken
  · obtain ⟨-, stored⟩ := ite_none_right_eq_some.mp taken
    cases stored
    exact ⟨Int.le_refl _, by simp only; omega⟩
  · split at taken
    · cases taken
      exact ⟨by simp only; omega, by simp only; omega⟩
    · cases taken
      exact ⟨by simp only; omega, by simp only; omega⟩

theorem Resegmenting.Within.overLis {lis : List Nat} (within : state.Within limit)
    (looped : state.overLis lis = some next) : next.Within limit := by
  induction lis generalizing state with
  | nil =>
    cases looped
    exact within
  | cons li lis ih =>
    rw [overLis] at looped
    split at looped
    · cases looped
      exact within
    · simp only [ite_none_right_eq_some] at looped
      obtain ⟨⟨positive, -⟩, looped⟩ := looped
      have limited := within.copied
      have narrowed : Within
          { state with
            maxCopyPayloadSize := min state.maxCopyPayloadSize state.pduRemainingSize
            liSum := state.liSum + li } limit :=
        ⟨positive, by simp only; omega⟩
      split at looped
      · obtain ⟨after, taken, rest⟩ := bind_eq_some_iff.mp looped
        exact ih (narrowed.takeSdu taken) rest
      · split at looped
        · refine ih ?_ looped
          exact ⟨narrowed.positive, narrowed.copied⟩
        · exact ih narrowed looped

theorem Resegmenting.Within.takeHidden (within : state.Within limit) (hiddenSize : Int)
    (notFiOriginal : Nat) : (state.takeHidden hiddenSize notFiOriginal).pduCopySize ≤ limit := by
  obtain ⟨positive, copied⟩ := within
  rw [Resegmenting.takeHidden]
  split
  · simp only
    split
    · simp only
      omega
    · simp only
      omega
  · omega

end Within

theorem TxPdu.planSegment_bounds {pdu : TxPdu} {info : PduInfo} {size : Int} {plan : SegmentPlan}
    (planned : pdu.planSegment info size = some plan) :
    plan.startOffset = pdu.getNextHole.1 ∧
      plan.pduCopySize ≤ pdu.getNextHole.2 - pdu.getNextHole.1 + 1 := by
  simp only [TxPdu.planSegment, ite_none_right_eq_some] at planned
  obtain ⟨⟨area, room⟩, planned⟩ := planned
  split at planned
  · cases planned
    exact ⟨rfl, by simp only; omega⟩
  · obtain ⟨state, looped, rfl⟩ := map_eq_some_iff.mp planned
    have started : Within
        ⟨min (pdu.getNextHole.2 - pdu.getNextHole.1 + 1) size, size, 0, pdu.getNextHole.1, 0,
          if pdu.getNextHole.1 = 0 then (info.fi ^^^ 3) &&& 2 else 0, 1, [], true⟩
        (min (pdu.getNextHole.2 - pdu.getNextHole.1 + 1) size) :=
      ⟨by simp only; omega, by simp only; omega⟩
    have limited := (started.overLis looped).takeHidden info.hiddenSize (info.fi ^^^ 3)
    exact ⟨rfl, by simp only; omega⟩

end OpenAir.RlcAm
