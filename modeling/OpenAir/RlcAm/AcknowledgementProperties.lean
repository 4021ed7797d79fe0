import Mathlib.Tactic.MkIffOfInductiveProp
import OpenAir.RlcAm.StatusSafety

/-! What a received STATUS PDU acknowledges, in every state the transmitting
side reaches. The PDU must not have its ACK_SN at the upper edge of a full
window or between VT(S) and VT(MS), and its NACK list must be in order. -/

set_option autoImplicit false

namespace OpenAir.RlcAm

open OpenAir.Base Transmitter

def Transmitter.Unacknowledged (tx : Transmitter) (sn : Nat) : Prop :=
  sn < rlcAmSnModulo ∧ shiftedSn tx.vtA sn < shiftedSn tx.vtA tx.vtS ∧
    (tx.pduRetransBuffer sn).ack = false

def ControlPduInfo.Reports (info : ControlPduInfo) (vtA sn : Nat) : Prop :=
  shiftedSn vtA sn < shiftedSn vtA info.ackSn ∧ ∀ item ∈ info.nackList, item.nackSn ≠ sn

/-- `next` is `tx` with what the STATUS PDU reports acknowledged. ACK_SN outside
of VT(A) to VT(S) reports nothing. -/
structure Acknowledges (tx : Transmitter) (info : ControlPduInfo) (next : Transmitter) :
    Prop where
  outside : shiftedSn tx.vtA tx.vtS < shiftedSn tx.vtA info.ackSn →
    next.vtA = tx.vtA ∧ ∀ sn, tx.Unacknowledged sn → next.Unacknowledged sn
  inside : shiftedSn tx.vtA info.ackSn ≤ shiftedSn tx.vtA tx.vtS →
    ∀ sn, tx.Unacknowledged sn → (¬next.Unacknowledged sn ↔ info.Reports tx.vtA sn)
  lowest : shiftedSn tx.vtA info.ackSn ≤ shiftedSn tx.vtA tx.vtS →
    (next.vtA = next.vtS ∨ next.Unacknowledged next.vtA) ∧
      ∀ sn, tx.Unacknowledged sn → ¬info.Reports tx.vtA sn →
        shiftedSn tx.vtA next.vtA ≤ shiftedSn tx.vtA sn
  vtS : next.vtS = tx.vtS
  vtMs : next.vtMs = (next.vtA + rlcAmWindowSize) % rlcAmSnModulo

@[mk_iff]
structure Processable (tx : Transmitter) (frame : Nat) (info : ControlPduInfo) : Prop where
  few : info.nackList.length < rlcAmMaxNackInStatusPdu
  placed : shiftedSn tx.vtA info.ackSn ≤ shiftedSn tx.vtA tx.vtS ∧
      shiftedSn tx.vtA info.ackSn < rlcAmWindowSize ∨
    shiftedSn tx.vtA tx.vtS < shiftedSn tx.vtA info.ackSn ∧
      rlcAmWindowSize ≤ shiftedSn tx.vtA info.ackSn ∨
    tx.vtS = tx.vtA
  ordered : shiftedSn tx.vtA info.ackSn < rlcAmWindowSize →
    info.nackList.Pairwise fun earlier later =>
      shiftedSn tx.vtA earlier.nackSn ≤ shiftedSn tx.vtA later.nackSn
  recordable : shiftedSn tx.vtA info.ackSn < rlcAmWindowSize → RecordsAll frame tx info.nackList

section Acknowledges

variable {tx next : Transmitter} {count base : Nat} {acked : Nat → Bool} {info : ControlPduInfo}

theorem Transmitter.Window.shifted_vtS (window : tx.Window tx.vtA count 0 acked) :
    shiftedSn tx.vtA tx.vtS = count := by
  conv_lhs => rw [window.vtS]
  exact shiftedSn_snAt window.bounded window.count_lt

theorem Transmitter.Window.unacknowledged_iff {origin : Nat}
    (window : tx.Window origin count base acked) {index : Nat} (below : index < count) :
    tx.Unacknowledged (snAt origin index) ↔ acked index = false := by
  have narrow := window.narrow
  have rebased := window.rebase
  have wide : rlcAmSnModulo = 2 * rlcAmWindowSize := by decide
  rw [Unacknowledged, rebased.shifted_vtS]
  by_cases notBelow : base ≤ index
  · have place : snAt origin index = snAt tx.vtA (index - base) := by
      rw [window.vtA, snAt_snAt, Nat.add_sub_cancel' notBelow]
    have offset : shiftedSn tx.vtA (snAt origin index) = index - base := by
      rw [place, shiftedSn_snAt rebased.bounded (by omega)]
    rw [(window.held index notBelow below).1]
    exact ⟨fun waits => waits.2.2, fun waits => ⟨snAt_lt _ _, by omega, waits⟩⟩
  · have offset : shiftedSn tx.vtA (snAt origin index) = rlcAmSnModulo - base + index := by
      have place : snAt origin index = snAt tx.vtA (rlcAmSnModulo - base + index) := by
        have := window.base_le
        rw [window.vtA]
        simp only [snAt, rlcAmSnModulo, rlcAmWindowSize] at *
        omega
      rw [place, shiftedSn_snAt rebased.bounded (by omega)]
    rw [window.passed index (by omega)]
    constructor
    · omega
    · intro impossible
      cases impossible

theorem Transmitter.Window.index_of_unacknowledged (window : tx.Window tx.vtA count 0 acked)
    {sn : Nat} (waits : tx.Unacknowledged sn) :
    ∃ index, index < count ∧ sn = snAt tx.vtA index ∧ shiftedSn tx.vtA sn = index ∧
      acked index = false := by
  have below : shiftedSn tx.vtA sn < count := window.shifted_vtS ▸ waits.2.1
  have place := snAt_shiftedSn window.bounded waits.1
  refine ⟨_, below, place.symm, rfl, (window.unacknowledged_iff below).mp ?_⟩
  rw [place]
  exact waits

theorem reported_iff_reports {ackIndex index : Nat} (bounded : tx.vtA < rlcAmSnModulo)
    (ack : shiftedSn tx.vtA info.ackSn = ackIndex) (indexLt : index < rlcAmSnModulo) :
    Reported tx.vtA 0 ackIndex info.nackList index ↔ info.Reports tx.vtA (snAt tx.vtA index) := by
  simp [Reported, ControlPduInfo.Reports, shiftedSn_snAt bounded indexLt, ack]

theorem Transmitter.Window.acknowledges {top : Nat} {acked' : Nat → Bool}
    (window : tx.Window tx.vtA count 0 acked) (final : next.Window tx.vtA count top acked')
    (placed : shiftedSn tx.vtA info.ackSn ≤ count ∨ count = 0)
    (iff : ∀ index < rlcAmSnModulo, (acked' index = true ↔ acked index ∨
      Reported tx.vtA 0 (shiftedSn tx.vtA info.ackSn) info.nackList index)) :
    Acknowledges tx info next := by
  have countLt := window.count_lt
  have still : ∀ index < count, acked index = false →
      (acked' index = false ↔ ¬info.Reports tx.vtA (snAt tx.vtA index)) := by
    intro index below waits
    rw [← Bool.not_eq_true, iff index (by omega), waits, reported_iff_reports window.bounded rfl
      (by omega)]
    simp
  refine ⟨fun outside => ?_, fun _ sn waits => ?_, fun _ => ⟨?_, fun sn waits unreported => ?_⟩,
    final.vtS.trans window.vtS.symm, final.vtMs⟩
  · rw [window.shifted_vtS] at outside
    have topLe := final.base_le
    obtain rfl : top = 0 := by omega
    refine ⟨final.vtA.trans window.vtA.symm, fun sn waits => ?_⟩
    obtain ⟨index, below, -⟩ := window.index_of_unacknowledged waits
    omega
  · obtain ⟨index, below, rfl, -, unacked⟩ := window.index_of_unacknowledged waits
    rw [final.unacknowledged_iff below, still index below unacked, not_not]
  · by_cases ended : top = count
    · exact Or.inl (by rw [final.vtA, final.vtS, ended])
    · have below : top < count := Nat.lt_of_le_of_ne final.base_le ended
      right
      rw [final.vtA]
      exact (final.unacknowledged_iff below).mpr (final.lowest below)
  · obtain ⟨index, below, rfl, offset, unacked⟩ := window.index_of_unacknowledged waits
    have waiting := (still index below unacked).mpr unreported
    have topLe := final.base_le
    rw [offset, final.vtA, shiftedSn_snAt window.bounded (by omega)]
    refine Nat.le_of_not_lt fun passed => ?_
    rw [final.passed index passed] at waiting
    cases waiting

theorem Transmitter.Window.acknowledges_nothing (window : tx.Window tx.vtA count 0 acked)
    (outside : count < shiftedSn tx.vtA info.ackSn) : Acknowledges tx info tx := by
  have notInside : ¬shiftedSn tx.vtA info.ackSn ≤ shiftedSn tx.vtA tx.vtS := by
    rw [window.shifted_vtS]
    omega
  exact ⟨fun _ => ⟨rfl, fun _ waits => waits⟩, fun inside => absurd inside notInside,
    fun inside => absurd inside notInside, rfl, window.vtMs⟩

end Acknowledges

/-- In every state reached, a STATUS PDU that meets the conditions is processed
and acknowledges what it reports. -/
theorem status_pdu_acknowledges {config : TxConfiguration} {inputs : List EntityInput}
    {tx : Transmitter} {frame : Nat} {info : ControlPduInfo}
    (reached : execute step (init config) inputs = some tx)
    (decoded : info.Decoded) (processable : Processable tx frame info) :
    ∃ next, tx.receiveProcessControlPdu frame info = some next ∧ Acknowledges tx info next := by
  obtain ⟨count, acked, window⟩ := reachable_hasWindow reached
  have placed := processable.placed
  have empty : tx.vtS = tx.vtA → count = 0 := by
    intro same
    rw [← window.shifted_vtS, same, shiftedSn_of_ge window.bounded (Nat.le_refl _), Nat.sub_self]
  rw [window.shifted_vtS] at placed
  have indexed : tx.Indexed := ⟨window.slots, window.current, window.bounded, window.vtMs⟩
  obtain ⟨next, processed⟩ :=
    indexed.receiveProcessControlPdu decoded processable.few processable.recordable
  have executed := receiveProcessControlPdu_reports processed
  have inside : inWindow tx.vtA tx.vtMs info.ackSn ↔
      shiftedSn tx.vtA info.ackSn < rlcAmWindowSize := by
    rw [window.vtMs, inWindow_iff]
    exact ⟨And.right, fun within => ⟨decoded.ackSn, within⟩⟩
  refine ⟨next, processed, ?_⟩
  by_cases within : shiftedSn tx.vtA info.ackSn < rlcAmWindowSize
  · obtain ⟨top, acked', final, iff⟩ :=
      execute_window window (reports_proper window.bounded info).1 executed
    refine window.acknowledges final ?_ fun index indexLt => ?_
    · rcases placed with ⟨inside, -⟩ | ⟨-, wide⟩ | same
      · exact Or.inl inside
      · omega
      · exact Or.inr (empty same)
    · rw [iff index indexLt, reports, if_pos (inside.mpr within)]
      obtain ⟨reports, planned, -⟩ := walkStatus_reports (by
        rwa [receiveProcessControlPdu, if_pos ⟨decoded.ackSn, processable.few⟩,
          if_pos (inside.mpr within)] at processed)
      rw [planned, Option.getD_some]
      have placed : statusReports (snAt tx.vtA (shiftedSn tx.vtA info.ackSn))
          (rlcAmSnModulo + info.nackList.length) (snAt tx.vtA 0) none info.nackList =
            some reports := by
        rw [snAt_shiftedSn window.bounded decoded.ackSn, snAt_zero window.bounded, planned]
      exact or_congr_right (statusReports_acks window.bounded (shiftedSn_lt ..) (Nat.zero_le _)
        ⟨processable.ordered within, decoded.nackSn, fun _ _ => Nat.zero_le _⟩
        (fun _ isLast => by cases isLast) placed indexLt)
  · rw [reports, if_neg (by rwa [inside])] at executed
    cases executed
    refine window.acknowledges_nothing ?_
    rcases placed with ⟨-, narrow⟩ | ⟨outside, -⟩ | same
    · omega
    · exact outside
    · have := empty same
      have : 0 < rlcAmWindowSize := by decide
      omega

/-- ACK_SN at the upper edge of a full window is taken for one outside of it:
the PDUs stay unacknowledged, and no new ones can be sent. -/
theorem full_window_status_ignored {config : TxConfiguration} {inputs : List EntityInput}
    {tx : Transmitter} {frame : Nat} {items : List NackItem}
    (reached : execute step (init config) inputs = some tx)
    (full : tx.vtS = tx.vtMs) (few : items.length < rlcAmMaxNackInStatusPdu) :
    tx.receiveProcessControlPdu frame ⟨tx.vtS, items⟩ = some tx ∧ tx.Unacknowledged tx.vtA := by
  obtain ⟨count, acked, window⟩ := reachable_hasWindow reached
  have whole : count = rlcAmWindowSize := by
    rw [← window.shifted_vtS, full, window.vtMs, shiftedSn_upperEdge]
  have outside : inWindow tx.vtA tx.vtMs tx.vtS = false := by
    simp [inWindow, full]
  have vtSLt : tx.vtS < rlcAmSnModulo := window.vtS ▸ snAt_lt _ _
  constructor
  · simp [receiveProcessControlPdu, vtSLt, few, outside]
  · have some_ : 0 < count := whole ▸ (by decide)
    rw [window.vtA]
    exact (window.unacknowledged_iff some_).mpr (window.lowest some_)

instance (frame : Nat) (pdu : TxPdu) (ranges : List (Int × Int)) :
    Decidable (Recordable frame pdu ranges) :=
  decidable_of_iff' _ (recordable_iff frame pdu ranges)

instance (frame : Nat) (tx : Transmitter) (items : List NackItem) :
    Decidable (RecordsAll frame tx items) :=
  inferInstanceAs (Decidable (∀ item ∈ items, _ → _))

instance (tx : Transmitter) (frame : Nat) (info : ControlPduInfo) :
    Decidable (Processable tx frame info) :=
  decidable_of_iff' _ (processable_iff tx frame info)

instance (tx : Transmitter) (sn : Nat) : Decidable (tx.Unacknowledged sn) :=
  inferInstanceAs (Decidable (_ ∧ _ ∧ _))

def sendingConfiguration : TxConfiguration :=
  { maxRetxThreshold := 8, pollPdu := 4, pollByte := 100, tPollRetransmit := 50 }

def windowFilling : List EntityInput :=
  (List.replicate 64 (.dataReq 0 (.replicate 8 0) ::
    .replicate 8 (.getPdus 0 0 3 fun _ => 0))).flatten

theorem full_window_status_ignored_filled :
    ∃ tx, execute step (init sendingConfiguration) windowFilling = some tx ∧
      tx.receiveProcessControlPdu 1 ⟨tx.vtS, []⟩ = some tx ∧ tx.Unacknowledged tx.vtA := by
  have filled : (execute step (init sendingConfiguration) windowFilling).map
      (fun tx => decide (tx.vtS = tx.vtMs)) = some true := by
    decide +kernel
  obtain ⟨tx, reached, full⟩ := Option.map_eq_some_iff.mp filled
  exact ⟨tx, reached, full_window_status_ignored reached (of_decide_eq_true full) (by decide)⟩

def threePdus : List EntityInput :=
  [.dataReq 0 [1, 2, 3], .getPdus 0 0 5 fun _ => 0, .dataReq 1 [4, 5, 6],
    .getPdus 0 0 5 fun _ => 0, .dataReq 2 [7, 8, 9], .getPdus 0 0 5 fun _ => 0]

def threePdusSent : Transmitter :=
  (execute step (init sendingConfiguration) threePdus).getD
    (init sendingConfiguration)

theorem threePdus_reach :
    execute step (init sendingConfiguration) threePdus =
      some threePdusSent := by
  have returns : (execute step (init sendingConfiguration) threePdus).isSome := by
    decide +kernel
  obtain ⟨tx, reached⟩ := Option.isSome_iff_exists.mp returns
  rw [threePdusSent, reached, Option.getD_some]

/-- The second of three PDUs is missing. -/
theorem status_pdu_acknowledges_one_missing :
    execute step (init sendingConfiguration) threePdus =
      some threePdusSent ∧
    ∃ next, threePdusSent.receiveProcessControlPdu 1 ⟨3, [⟨1, 0, 0x7FFF⟩]⟩ = some next ∧
      Acknowledges threePdusSent ⟨3, [⟨1, 0, 0x7FFF⟩]⟩ next :=
  ⟨threePdus_reach,
    status_pdu_acknowledges threePdus_reach ⟨by decide, by decide, by decide⟩ (by decide +kernel)⟩

/-- With the missing PDUs listed the other way round, the lower one is
acknowledged. -/
theorem not_acknowledges_unordered_nacks :
    execute step (init sendingConfiguration) threePdus =
      some threePdusSent ∧
    ∃ next, threePdusSent.receiveProcessControlPdu 1 ⟨3, [⟨2, 0, 0x7FFF⟩, ⟨1, 0, 0x7FFF⟩]⟩ =
        some next ∧
      ¬Acknowledges threePdusSent ⟨3, [⟨2, 0, 0x7FFF⟩, ⟨1, 0, 0x7FFF⟩]⟩ next := by
  have outcome : (threePdusSent.receiveProcessControlPdu 1
      ⟨3, [⟨2, 0, 0x7FFF⟩, ⟨1, 0, 0x7FFF⟩]⟩).map (fun next => next.vtA) = some 2 := by
    decide +kernel
  obtain ⟨next, processed, moved⟩ := Option.map_eq_some_iff.mp outcome
  refine ⟨threePdus_reach, next, processed, fun acknowledges => ?_⟩
  have vtA : threePdusSent.vtA = 0 := by decide +kernel
  have placed : shiftedSn threePdusSent.vtA 3 ≤ shiftedSn threePdusSent.vtA threePdusSent.vtS := by
    decide +kernel
  have waits : threePdusSent.Unacknowledged 1 := by decide +kernel
  have lowest := (acknowledges.lowest placed).2 1 waits fun reports =>
    reports.2 ⟨1, 0, 0x7FFF⟩ (by decide) rfl
  rw [moved, vtA] at lowest
  exact absurd lowest (by decide)

end OpenAir.RlcAm
