import OpenAir.Base.Tally
import OpenAir.RlcAm.AcknowledgementProperties

/-! The accounts of the PDUs that may have to be sent again: which entries hold
a PDU, how many there are, how large they are, and how much of that has been
negatively acknowledged. The last account is kept by `retx_count`, a signed
octet, and holds as long as that does not overflow. -/

set_option autoImplicit false

namespace OpenAir.RlcAm

open OpenAir.Base Option Function Transmitter TxPdu

def heldValue (value : Nat → TxPdu → Int) (sn : Nat) (pdu : TxPdu) : Int :=
  if pdu.memBlock.isSome then value sn pdu else 0

def Transmitter.heldTotal (tx : Transmitter) (value : Nat → TxPdu → Int) : Int :=
  tally rlcAmSnModulo (heldValue value) tx.pduRetransBuffer

def onePdu : Nat → TxPdu → Int := fun _ _ => 1

def pduSize : Nat → TxPdu → Int := fun _ pdu => pdu.headerAndPayloadSize

def nackedSize (nacked : Nat → Bool) : Nat → TxPdu → Int :=
  fun sn pdu => if nacked sn then pdu.headerAndPayloadSize else 0

/-- The accounts agree with the buffer; `nacked` tells which PDUs have been
negatively acknowledged since they were made. -/
structure Transmitter.Accounted (tx : Transmitter) (nacked : Nat → Bool) : Prop where
  ordered : shiftedSn tx.vtA tx.vtS ≤ rlcAmWindowSize
  vtMs : tx.vtMs = (tx.vtA + rlcAmWindowSize) % rlcAmSnModulo
  held : ∀ sn < rlcAmSnModulo,
    (tx.pduRetransBuffer sn).memBlock.isSome = true ↔ tx.Unacknowledged sn
  numPdus : tx.retransNumPdus = tx.heldTotal onePdu
  numBytes : tx.retransNumBytes = tx.heldTotal pduSize
  toRetransmit : tx.retransNumBytesToRetransmit = tx.heldTotal (nackedSize nacked)

def Transmitter.nacks (tx : Transmitter) (sn : Nat) : EntityInput → Bool
  | .statusPdu _ info => (tx.reports info).any (PduReport.nacks sn)
  | .getPdus _ _ requested _ => tx.forced requested == some sn
  | .dataReq _ _ => false
  | .pollTimer _ => false

structure NackHistory where
  tx : Transmitter
  nacked : Nat → Bool

/-- The history starts anew for a number that is given to a new PDU. -/
def NackHistory.step (history : NackHistory) (input : EntityInput) : Option NackHistory :=
  (history.tx.step input).map fun next =>
    { tx := next
      nacked := fun sn =>
        if next.vtS ≠ history.tx.vtS ∧ sn = history.tx.vtS then false
        else history.nacked sn || history.tx.nacks sn input }

/-- `retx_count` does not overflow: each PDU held can be counted once more, and
once for each range that a STATUS PDU reports of it. -/
def Transmitter.CountersFit (tx : Transmitter) : EntityInput → Prop
  | .getPdus _ _ _ _ => ∀ sn < rlcAmSnModulo,
    (tx.pduRetransBuffer sn).memBlock.isSome → (tx.pduRetransBuffer sn).retxCount < 127
  | .statusPdu _ info => ∀ sn < rlcAmSnModulo,
    (tx.pduRetransBuffer sn).memBlock.isSome →
      (tx.pduRetransBuffer sn).retxCount + (nackRanges info.nackList sn).length ≤ 127
  | .dataReq _ _ => True
  | .pollTimer _ => True

instance (tx : Transmitter) (input : EntityInput) : Decidable (tx.CountersFit input) :=
  match input with
  | .getPdus _ _ _ _ => inferInstanceAs (Decidable (∀ sn < _, _ → _))
  | .statusPdu _ _ => inferInstanceAs (Decidable (∀ sn < _, _ → _))
  | .dataReq _ _ => .isTrue trivial
  | .pollTimer _ => .isTrue trivial

theorem asInt8_succ {count : Int} (low : -1 ≤ count) (high : count < 127) :
    asInt8 (count + 1) = count + 1 := by
  rw [asInt8, Int.bmod_def]
  omega

structure Transmitter.Counted (tx : Transmitter) (nacked : Nat → Bool) : Prop where
  numPdus : tx.retransNumPdus = tx.heldTotal onePdu
  numBytes : tx.retransNumBytes = tx.heldTotal pduSize
  toRetransmit : tx.retransNumBytesToRetransmit = tx.heldTotal (nackedSize nacked)
  marks : ∀ sn < rlcAmSnModulo, (tx.pduRetransBuffer sn).memBlock.isSome →
    -1 ≤ (tx.pduRetransBuffer sn).retxCount ∧
      (0 ≤ (tx.pduRetransBuffer sn).retxCount ↔ nacked sn)

variable {soStart soStop : Int} {value : Nat → TxPdu → Int} {pdu : TxPdu} {pdus : List (List UInt8)}

section Counted

variable {tx other : Transmitter} {nacked : Nat → Bool}

theorem Transmitter.Counted.onlyPolls (counted : tx.Counted nacked) (only : tx.OnlyPolls other) :
    other.Counted nacked := by
  have same : (tx.withPollingOf other).Counted nacked :=
    { counted with }
  rw [only]
  exact same

theorem Transmitter.Counted.onlySdus (counted : tx.Counted nacked) (only : tx.OnlySdus other) :
    other.Counted nacked := by
  have same : (tx.withSdusOf other).Counted nacked :=
    { counted with }
  rw [only]
  exact same

theorem Transmitter.Counted.congr {others : Nat → Bool} (counted : tx.Counted nacked)
    (same : ∀ sn < rlcAmSnModulo, (tx.pduRetransBuffer sn).memBlock.isSome →
      others sn = nacked sn) : tx.Counted others where
  numPdus := counted.numPdus
  numBytes := counted.numBytes
  toRetransmit := by
    rw [counted.toRetransmit]
    refine tally_congr fun sn below => ?_
    rw [heldValue, heldValue]
    split
    next held => rw [nackedSize, nackedSize, same sn below held]
    · rfl
  marks sn below held := by
    rw [same sn below held]
    exact counted.marks sn below held

theorem heldTotal_congr (same : ∀ sn < rlcAmSnModulo,
      (other.pduRetransBuffer sn).memBlock = (tx.pduRetransBuffer sn).memBlock ∧
      value sn (other.pduRetransBuffer sn) = value sn (tx.pduRetransBuffer sn)) :
    other.heldTotal value = tx.heldTotal value := by
  refine tally_congr fun sn below => ?_
  obtain ⟨block, equal⟩ := same sn below
  rw [heldValue, heldValue, block, equal]

theorem heldTotal_update {others : Nat → TxPdu → Int} {sn : Nat} (below : sn < rlcAmSnModulo)
    (pdus : other.pduRetransBuffer = update tx.pduRetransBuffer sn pdu)
    (same : ∀ at_, at_ ≠ sn → others at_ = value at_) :
    other.heldTotal others = tx.heldTotal value +
      (heldValue others sn pdu - heldValue value sn (tx.pduRetransBuffer sn)) := by
  have rest : ∀ at_ < rlcAmSnModulo, at_ ≠ sn →
      heldValue others at_ (other.pduRetransBuffer at_) =
        heldValue value at_ (tx.pduRetransBuffer at_) := by
    intro at_ _ apart
    rw [pdus, update_of_ne apart, heldValue, heldValue, same at_ apart]
  rw [heldTotal, tally_change below rest, pdus, update_self]
  rfl

theorem Transmitter.Counted.setPdu (counted : tx.Counted nacked) {sn : Nat}
    (block : pdu.memBlock = (tx.pduRetransBuffer sn).memBlock)
    (size : pdu.headerAndPayloadSize = (tx.pduRetransBuffer sn).headerAndPayloadSize)
    (count : sn < rlcAmSnModulo → (tx.pduRetransBuffer sn).memBlock.isSome →
      -1 ≤ (tx.pduRetransBuffer sn).retxCount →
      -1 ≤ pdu.retxCount ∧ (0 ≤ pdu.retxCount ↔ 0 ≤ (tx.pduRetransBuffer sn).retxCount)) :
    (tx.setPdu sn pdu).Counted nacked := by
  have totals : ∀ value : Nat → TxPdu → Int,
      (∀ at_, value at_ pdu = value at_ (tx.pduRetransBuffer sn)) →
      (tx.setPdu sn pdu).heldTotal value = tx.heldTotal value := by
    intro value same
    refine heldTotal_congr fun at_ _ => ?_
    simp only [Transmitter.setPdu, update_apply]
    split
    next here => exact ⟨here ▸ block, here ▸ same at_⟩
    · exact ⟨rfl, rfl⟩
  refine ⟨counted.numPdus.trans (totals onePdu fun _ => rfl).symm,
    counted.numBytes.trans (totals pduSize fun _ => size).symm,
    counted.toRetransmit.trans (totals _ fun at_ => ?_).symm, ?_⟩
  · rw [nackedSize, nackedSize, size]
  · intro at_ below held
    simp only [Transmitter.setPdu, update_apply] at held ⊢
    split
    next here =>
      rw [if_pos here, block] at held
      subst here
      obtain ⟨low, mark⟩ := counted.marks at_ below held
      obtain ⟨low', same⟩ := count below held low
      exact ⟨low', same.trans mark⟩
    next apart =>
      rw [if_neg apart] at held
      exact counted.marks at_ below held

theorem Transmitter.Counted.markNacked (counted : tx.Counted nacked) {frame sn : Nat}
    (below : sn < rlcAmSnModulo) (held : (tx.pduRetransBuffer sn).memBlock.isSome)
    (fits : (tx.pduRetransBuffer sn).retxCount < 127)
    (recorded : (tx.pduRetransBuffer sn).nacked frame soStart soStop = some pdu) :
    (tx.markNacked sn pdu).Counted (update nacked sn true) ∧
      pdu.retxCount = (tx.pduRetransBuffer sn).retxCount + 1 := by
  obtain ⟨holed, -, only, rfl⟩ := nacked_spec recorded
  have block : holed.countNack.memBlock = (tx.pduRetransBuffer sn).memBlock :=
    only.kept memBlock
  have size : holed.countNack.headerAndPayloadSize =
      (tx.pduRetransBuffer sn).headerAndPayloadSize :=
    only.kept headerAndPayloadSize
  have count : holed.retxCount = (tx.pduRetransBuffer sn).retxCount :=
    only.kept retxCount
  obtain ⟨low, mark⟩ := counted.marks sn below held
  have next : holed.countNack.retxCount = (tx.pduRetransBuffer sn).retxCount + 1 := by
    simp only [countNack, count]
    split
    next first => rw [first]; rfl
    · exact asInt8_succ low fits
  have pdus : (tx.markNacked sn holed.countNack).pduRetransBuffer =
      update tx.pduRetransBuffer sn holed.countNack := rfl
  have heldNext : holed.countNack.memBlock.isSome := by rw [block, held]
  refine ⟨⟨?_, ?_, ?_, ?_⟩, next⟩
  · rw [heldTotal_update below pdus fun _ _ => rfl, ← counted.numPdus, heldValue, heldValue,
      heldNext, held]
    exact (Int.add_zero _).symm
  · rw [heldTotal_update below pdus fun _ _ => rfl, ← counted.numBytes, heldValue, heldValue,
      heldNext, held, pduSize, pduSize, size, Int.sub_self, Int.add_zero]
    rfl
  · -- The total changes at `sn`, unless the PDU has been counted before.
    have others : ∀ at_, at_ ≠ sn →
        nackedSize (update nacked sn true) at_ = nackedSize nacked at_ := by
      intro at_ apart
      funext pdu
      rw [nackedSize, nackedSize, update_of_ne apart]
    rw [heldTotal_update below pdus others, ← counted.toRetransmit, heldValue, heldValue,
      heldNext, held, nackedSize, nackedSize, size, update_self]
    simp only [markNacked, if_true]
    by_cases first : (tx.pduRetransBuffer sn).retxCount = -1
    · have unmarked : nacked sn = false := by
        rw [← Bool.not_eq_true, ← mark]
        omega
      simp [first, unmarked]
    · have marked : nacked sn := mark.mp (by omega)
      simp [first, marked]
  · intro at_ atLt heldAt
    rw [pdus, update_apply] at heldAt ⊢
    rw [update_apply]
    split at heldAt
    next here =>
      rw [if_pos here, if_pos here]
      exact ⟨by omega, iff_of_true (by omega) rfl⟩
    next apart =>
      rw [if_neg apart, if_neg apart]
      exact counted.marks at_ atLt heldAt

theorem Transmitter.Counted.withFresh (counted : tx.Counted nacked) (below : tx.vtS < rlcAmSnModulo)
    (free : (tx.pduRetransBuffer tx.vtS).memBlock = none) (octets : List UInt8) (payload : Nat)
    (sdusIndex : List Nat) (size payloadSize : Nat) :
    (tx.withFresh (freshPdu octets payload sdusIndex size payloadSize)).Counted
      (update nacked tx.vtS false) := by
  generalize made : freshPdu octets payload sdusIndex size payloadSize = pdu
  have held : pdu.memBlock.isSome := by rw [← made]; rfl
  have count : pdu.retxCount = -1 := by rw [← made]; rfl
  have pdus : (tx.withFresh pdu).pduRetransBuffer =
      update tx.pduRetransBuffer tx.vtS pdu := rfl
  refine ⟨?_, ?_, ?_, ?_⟩
  · rw [heldTotal_update below pdus fun _ _ => rfl, ← counted.numPdus, heldValue, heldValue,
      held, free]
    rfl
  · rw [heldTotal_update below pdus fun _ _ => rfl, ← counted.numBytes, heldValue, heldValue,
      held, free]
    simp [Transmitter.withFresh, pduSize]
  · have others : ∀ at_, at_ ≠ tx.vtS →
        nackedSize (update nacked tx.vtS false) at_ = nackedSize nacked at_ := by
      intro at_ apart
      funext pdu
      rw [nackedSize, nackedSize, update_of_ne apart]
    rw [heldTotal_update below pdus others, ← counted.toRetransmit, heldValue, heldValue, held,
      free, nackedSize, update_self]
    simp [Transmitter.withFresh, Transmitter.setPdu]
  · intro at_ atLt heldAt
    rw [pdus, update_apply] at heldAt ⊢
    rw [update_apply]
    split at heldAt
    next here =>
      rw [if_pos here, if_pos here, count]
      exact ⟨Int.le_refl _, iff_of_false (by decide) Bool.false_ne_true⟩
    next apart =>
      rw [if_neg apart, if_neg apart]
      exact counted.marks at_ atLt heldAt

end Counted

def Transmitter.counters (tx : Transmitter) : Int × Int × Int :=
  (tx.retransNumPdus, tx.retransNumBytes, tx.retransNumBytesToRetransmit)

theorem ackPdu_counters {tx other : Transmitter} {sn : Nat} (done : tx.ackPdu sn = some other) :
    other.counters =
      if (tx.pduRetransBuffer sn).ack = false ∧ (tx.pduRetransBuffer sn).memBlock.isSome = true then
        (tx.uncountPdu (tx.pduRetransBuffer sn)).counters
      else tx.counters := by
  rcases ackPdu_spec done with ⟨open_, held, settled, folded, window⟩ | ⟨idle, window⟩
  · rw [if_pos ⟨open_, held⟩, window.kept counters]
    exact (settleSdus_movesSdus folded).kept counters
  · rw [if_neg idle]
    exact window.kept counters

section Reports

variable {tx other : Transmitter} {nacked : Nat → Bool} {origin count base : Nat}
  {acked : Nat → Bool}

theorem ackPdu_heldTotal (window : tx.Window origin count base acked) {sn : Nat}
    (below : sn < rlcAmSnModulo) (done : tx.ackPdu sn = some other) (value : Nat → TxPdu → Int) :
    other.heldTotal value = tx.heldTotal value - heldValue value sn (tx.pduRetransBuffer sn) := by
  obtain ⟨freed, rest⟩ := ackPdu_frees window below done
  have same : ∀ at_ < rlcAmSnModulo, at_ ≠ sn →
      heldValue value at_ (other.pduRetransBuffer at_) =
        heldValue value at_ (tx.pduRetransBuffer at_) := by
    intro at_ atLt apart
    obtain ⟨kept, none⟩ := rest at_ atLt apart
    cases held : (tx.pduRetransBuffer at_).memBlock with
    | none =>
      rw [heldValue, heldValue, held, none held]
      rfl
    | some octets => rw [kept (by rw [held]; rfl)]
  rw [heldTotal, tally_change below same]
  simp only [heldValue, freed, heldTotal]
  simp [Int.sub_eq_add_neg]

theorem Transmitter.Counted.ackPdu (counted : tx.Counted nacked)
    (window : tx.Window origin count base acked) {sn : Nat} (below : sn < rlcAmSnModulo)
    (done : tx.ackPdu sn = some other) : other.Counted nacked := by
  have counters := ackPdu_counters done
  have totals := ackPdu_heldTotal window below done
  have marks : ∀ at_ < rlcAmSnModulo, (other.pduRetransBuffer at_).memBlock.isSome →
      -1 ≤ (other.pduRetransBuffer at_).retxCount ∧
        (0 ≤ (other.pduRetransBuffer at_).retxCount ↔ nacked at_) := by
    intro at_ atLt held
    have same := ackPdu_held window below done atLt held
    rw [same] at held ⊢
    exact counted.marks at_ atLt held
  by_cases held : (tx.pduRetransBuffer sn).memBlock.isSome
  · have open_ := window.ack_of_held below held
    rw [if_pos ⟨open_, held⟩] at counters
    simp only [Transmitter.counters, Transmitter.uncountPdu, Prod.mk.injEq] at counters
    obtain ⟨numPdus, numBytes, toRetransmit⟩ := counters
    obtain ⟨-, mark⟩ := counted.marks sn below held
    refine ⟨?_, ?_, ?_, marks⟩
    · rw [numPdus, totals, counted.numPdus, heldValue, held]
      rfl
    · rw [numBytes, totals, counted.numBytes, heldValue, held]
      rfl
    · rw [toRetransmit, totals, counted.toRetransmit, heldValue, held, nackedSize]
      by_cases marked : nacked sn
      · simp [marked, mark.mpr marked]
      · have below : ¬(tx.pduRetransBuffer sn).retxCount ≥ 0 := fun high => marked (mark.mp high)
        simp [marked, below]
  · rw [if_neg fun waits => held waits.2] at counters
    simp only [Transmitter.counters, Prod.mk.injEq] at counters
    obtain ⟨numPdus, numBytes, toRetransmit⟩ := counters
    have nothing : ∀ value : Nat → TxPdu → Int, other.heldTotal value = tx.heldTotal value := by
      intro value
      rw [totals, heldValue, if_neg held, Int.sub_zero]
    exact ⟨by rw [numPdus, nothing, counted.numPdus], by rw [numBytes, nothing, counted.numBytes],
      by rw [toRetransmit, nothing, counted.toRetransmit], marks⟩

theorem Transmitter.Counted.nackPdu (counted : tx.Counted nacked) {frame sn : Nat}
    (below : sn < rlcAmSnModulo)
    (fits : (tx.pduRetransBuffer sn).memBlock.isSome → (tx.pduRetransBuffer sn).retxCount < 127)
    (done : tx.nackPdu frame sn soStart soStop = some other) :
    other.Counted (update nacked sn true) ∧
      (∀ at_, (other.pduRetransBuffer at_).memBlock = (tx.pduRetransBuffer at_).memBlock) ∧
      (∀ at_, at_ ≠ sn → other.pduRetransBuffer at_ = tx.pduRetransBuffer at_) ∧
      ((tx.pduRetransBuffer sn).memBlock.isSome →
        (other.pduRetransBuffer sn).retxCount = (tx.pduRetransBuffer sn).retxCount + 1) := by
  have same := (nackPdu_some done).1
  by_cases held : (tx.pduRetransBuffer sn).memBlock.isSome
  · obtain ⟨pdu, recorded, only, -⟩ := nackPdu_spec held done
    obtain ⟨marked, next⟩ := counted.markNacked below held (fits held) recorded
    have pdus : other.pduRetransBuffer = update tx.pduRetransBuffer sn pdu :=
      only.kept pduRetransBuffer
    refine ⟨marked.onlySdus only, fun at_ => (same.pdus at_).2.1, fun at_ apart => ?_, fun _ => ?_⟩
    · rw [pdus, update_of_ne apart]
    · rw [pdus, update_self, next]
  · rw [nackPdu_free held done]
    refine ⟨counted.congr fun at_ _ heldAt => ?_, fun _ => rfl, fun _ _ => rfl,
      fun isHeld => absurd isHeld held⟩
    rw [update_of_ne]
    rintro rfl
    exact held heldAt

def Transmitter.FitsReports (tx : Transmitter) (reports : List PduReport) : Prop :=
  ∀ sn < rlcAmSnModulo, (tx.pduRetransBuffer sn).memBlock.isSome →
    (tx.pduRetransBuffer sn).retxCount + reports.countP (PduReport.nacks sn) ≤ 127

theorem reports_counted {frame : Nat} {reports : List PduReport} (counted : tx.Counted nacked)
    (window : tx.Window origin count base acked)
    (proper : ∀ report ∈ reports, report.sn < rlcAmSnModulo) (fits : tx.FitsReports reports)
    (executed : execute (report frame) tx reports = some other) :
    other.Counted fun sn => nacked sn || reports.any (PduReport.nacks sn) := by
  induction reports generalizing tx nacked base acked with
  | nil =>
    cases executed
    simpa using counted
  | cons report reports ih =>
    obtain ⟨below, properRest⟩ := List.forall_mem_cons.mp proper
    obtain ⟨next, done, rest⟩ := bind_eq_some_iff.mp executed
    have polled : ∀ sn, (tx.stopPoll sn).pduRetransBuffer = tx.pduRetransBuffer := fun sn =>
      (stopPoll_onlyPolls tx sn).kept pduRetransBuffer
    cases report with
    | ack sn =>
      have pdus := polled sn
      have stopped := counted.onlyPolls (stopPoll_onlyPolls tx sn)
      have windowStopped := window.congr (stopPoll_onlyPolls tx sn).sameWindow
      obtain ⟨top, acked', kept⟩ := ackPdu_keeps windowStopped below done
      have fitsNext : next.FitsReports reports := by
        intro at_ atLt held
        have same := ackPdu_held windowStopped below done atLt held
        rw [same, pdus] at held ⊢
        exact fits at_ atLt held
      exact ih (stopped.ackPdu windowStopped below done) kept properRest fitsNext rest
    | nack sn soStart soStop =>
      have below : sn < rlcAmSnModulo := below
      have pdus := polled sn
      have stopped := counted.onlyPolls (stopPoll_onlyPolls tx sn)
      have windowStopped := window.congr (stopPoll_onlyPolls tx sn).sameWindow
      have room : ((tx.stopPoll sn).pduRetransBuffer sn).memBlock.isSome →
          ((tx.stopPoll sn).pduRetransBuffer sn).retxCount < 127 := by
        intro held
        rw [pdus] at held ⊢
        have fitsHere := fits sn below held
        rw [List.countP_cons_of_pos (by simp [PduReport.nacks])] at fitsHere
        omega
      obtain ⟨marked, blocks, same, counts⟩ := stopped.nackPdu below room done
      have fitsNext : next.FitsReports reports := by
        intro at_ atLt held
        rw [blocks at_, pdus] at held
        have fitsAt := fits at_ atLt held
        by_cases here : at_ = sn
        · subst here
          rw [List.countP_cons_of_pos (by simp [PduReport.nacks])] at fitsAt
          rw [counts (pdus ▸ held), pdus]
          omega
        · rw [List.countP_cons_of_neg (by simpa [PduReport.nacks] using Ne.symm here)] at fitsAt
          rw [same at_ here, pdus]
          exact fitsAt
      have after := ih marked (windowStopped.congr (nackPdu_some done).1) properRest fitsNext rest
      refine after.congr fun at_ _ _ => ?_
      rw [List.any_cons, update_apply]
      by_cases here : at_ = sn
      · simp [here, PduReport.nacks]
      · have other : PduReport.nacks at_ (.nack sn soStart soStop) = false := by
          simpa [PduReport.nacks] using Ne.symm here
        rw [if_neg here, other, Bool.false_or]

end Reports

section Grants

variable {tx other : Transmitter} {nacked : Nat → Bool} {now frame sn : Nat}

variable (counted : tx.Counted nacked)

include counted

theorem Transmitter.Counted.retransmitGetCopy (now sn : Nat) :
    (tx.retransmitGetCopy now sn).1.Counted nacked := by
  cases held : (tx.pduRetransBuffer sn).memBlock with
  | none =>
    simp only [Transmitter.retransmitGetCopy, held]
    exact counted
  | some octets =>
    refine Transmitter.Counted.onlyPolls ?_ (retransmitGetCopy_spec held)
    exact counted.setPdu rfl rfl fun _ _ low => ⟨low, Iff.rfl⟩

theorem Transmitter.Counted.retransmitGetSubsegment {size : Int} {segment : List UInt8}
    (sent : tx.retransmitGetSubsegment now sn size = some (other, segment)) :
    other.Counted nacked := by
  obtain ⟨octets, info, plan, pdu, -, -, -, removed, polled⟩ := retransmitGetSubsegment_spec sent
  have count : pdu.retxCount = (tx.pduRetransBuffer sn).retxCount :=
    segmented_kept removed retxCount fun _ _ => rfl
  refine Counted.onlyPolls ?_ polled
  refine counted.setPdu ?_ ?_ fun _ _ low => ?_
  · exact segmented_kept removed memBlock fun _ _ => rfl
  · exact segmented_kept removed headerAndPayloadSize fun _ _ => rfl
  · rw [count]
    exact ⟨low, Iff.rfl⟩

theorem Transmitter.Counted.retransmitPdu {requested : Int}
    (fits : sn < rlcAmSnModulo → (tx.pduRetransBuffer sn).memBlock.isSome →
      (tx.pduRetransBuffer sn).retxCount < 127)
    (sent : tx.retransmitPdu now sn requested = some (some (other, pdus))) :
    other.Counted nacked := by
  simp only [Transmitter.retransmitPdu] at sent
  split at sent
  next whole =>
    obtain rfl : _ = other := congrArg Prod.fst (Option.some.inj (Option.some.inj sent))
    have copied := counted.retransmitGetCopy now sn
    have count : ((tx.retransmitGetCopy now sn).1.pduRetransBuffer sn).retxCount =
        (tx.pduRetransBuffer sn).retxCount := by
      cases held : (tx.pduRetransBuffer sn).memBlock with
      | none => simp only [Transmitter.retransmitGetCopy, held]
      | some octets =>
        have pdus := (@retransmitGetCopy_spec tx now sn octets held).kept
          Transmitter.pduRetransBuffer fun _ => rfl
        rw [pdus, setPdu_pduRetransBuffer, update_self]
    have block := ((retransmitGetCopy_keeps tx now sn).1.pdus sn).2.1
    refine copied.setPdu rfl rfl fun below held low => ?_
    rw [block] at held
    rw [count] at low ⊢
    simp only [asInt8_succ low (fits below held)]
    omega
  · split at sent
    · obtain ⟨⟨sending, segment⟩, taken, moved⟩ := map_eq_some_iff.mp sent
      obtain rfl : _ = other := congrArg Prod.fst (Option.some.inj moved)
      have cut := counted.retransmitGetSubsegment taken
      exact { cut with }
    · cases sent

/-- After a grant the history has the PDU forced by the poll timer, and none of
the number of a new PDU. -/
theorem Transmitter.Counted.getPdus {count requested : Nat} {acked : Nat → Bool}
    {block : Nat → UInt8} (window : tx.Window tx.vtA count 0 acked)
    (fits : ∀ sn < rlcAmSnModulo, (tx.pduRetransBuffer sn).memBlock.isSome →
      (tx.pduRetransBuffer sn).retxCount < 127)
    (sent : tx.getPdus now frame requested block = some (other, pdus)) :
    other.Counted fun sn => if other.vtS ≠ tx.vtS ∧ sn = tx.vtS then false
      else nacked sn || (tx.forced requested == some sn) := by
  have vtSLt : tx.vtS < rlcAmSnModulo := window.vtS ▸ snAt_lt _ _
  rcases getPdus_cases sent with ⟨-, calm, resent⟩ | ⟨-, calm, -, grant, copy, made, -⟩ |
    ⟨-, -, forced, -, -, again⟩ | ⟨-, calm, rfl, -⟩
  · have vtS := (retransmitPdu_keeps resent).1.vtS
    refine (counted.retransmitPdu (fits _) resent).congr fun sn _ _ => ?_
    simp [vtS, calm]
  · rcases segment10_spec grant made with ⟨-, rfl, -⟩ |
      ⟨-, -, -, sending, octets, payload, sdusIndex, size, payloadSize, ⟨only, -⟩, -, fresh⟩
    · refine counted.congr fun sn _ _ => ?_
      simp [calm]
    · have vtS : sending.vtS = tx.vtS := only.kept Transmitter.vtS
      have pdus : sending.pduRetransBuffer = tx.pduRetransBuffer :=
        only.kept Transmitter.pduRetransBuffer
      have free : (sending.pduRetransBuffer sending.vtS).memBlock = none := by
        rw [pdus, vtS, window.vtS]
        exact (window.clear count window.count_lt (Or.inr (Nat.le_refl _))).2
      have after := (counted.onlySdus only).withFresh (vtS ▸ vtSLt) free octets payload sdusIndex
        size payloadSize
      have next : other.vtS = nextSn tx.vtS := by
        rw [fresh.kept Transmitter.vtS, ← vtS]
        rfl
      refine (after.onlyPolls fresh).congr fun sn _ _ => ?_
      rw [update_apply, vtS]
      simp [next, nextSn_ne, calm]
  · rw [forced]
    rcases retransmitAnyPdu_spec again with ⟨calm, rfl, -⟩ | ⟨sn, marked, chosen, nack, sent⟩
    · refine counted.congr fun sn _ _ => ?_
      simp [calm]
    · have below := anyPdu_lt chosen
      obtain ⟨after, -⟩ := counted.nackPdu below (fits sn below) nack
      have vtS := (retransmitAnyPdu_keeps again).1.vtS
      have resent : other.Counted (update nacked sn true) := by
        rcases sent with polled | ⟨sending, segment, taken, polled⟩
        · exact (after.retransmitGetCopy now sn).onlyPolls polled
        · exact (after.retransmitGetSubsegment taken).onlyPolls polled
      refine resent.congr fun at_ _ _ => ?_
      rw [chosen]
      by_cases here : at_ = sn
      · simp [vtS, here]
      · simp [vtS, here, Ne.symm here]
  · refine counted.congr fun sn _ _ => ?_
    simp [calm]

end Grants

theorem NackHistory.step_counted {history next : NackHistory} {input : EntityInput}
    (window : history.tx.HasWindow) (counted : history.tx.Counted history.nacked)
    (fits : history.tx.CountersFit input) (stepped : history.step input = some next) :
    next.tx.HasWindow ∧ next.tx.Counted next.nacked := by
  obtain ⟨tx, taken, rfl⟩ := map_eq_some_iff.mp stepped
  refine ⟨step_hasWindow window taken, ?_⟩
  obtain ⟨count, acked, window⟩ := window
  cases input with
  | dataReq mui octets =>
    cases taken
    have only := (dataReq_movesSdus history.tx mui octets).only
    have vtS : (history.tx.dataReq mui octets).vtS = history.tx.vtS :=
      only.kept vtS
    refine (counted.onlySdus only).congr fun sn _ _ => ?_
    simp [vtS, nacks]
  | getPdus now frame requested block =>
    obtain ⟨⟨other, pdus⟩, sent, rfl⟩ := map_eq_some_iff.mp taken
    exact counted.getPdus window fits sent
  | statusPdu frame info =>
    have executed := receiveProcessControlPdu_reports taken
    obtain ⟨proper, counts⟩ := history.tx.reports_proper window.bounded info
    have room : history.tx.FitsReports (history.tx.reports info) := by
      intro sn below held
      have fitsHere := fits sn below held
      have fewer := counts sn
      omega
    have after := reports_counted counted window proper room executed
    have vtS : tx.vtS = history.tx.vtS := by
      obtain ⟨top, acked', kept, -⟩ := execute_window window proper executed
      rw [kept.vtS, window.vtS]
    refine after.congr fun sn _ _ => ?_
    simp [vtS, nacks]
  | pollTimer now =>
    cases taken
    have only := checkTimerPollRetransmit_onlyPolls history.tx now
    have vtS : (history.tx.checkTimerPollRetransmit now).vtS = history.tx.vtS :=
      only.kept vtS
    refine (counted.onlyPolls only).congr fun sn _ _ => ?_
    simp [vtS, nacks]

theorem Transmitter.Counted.accounted {tx : Transmitter} {nacked : Nat → Bool}
    (window : tx.HasWindow) (counted : tx.Counted nacked) : tx.Accounted nacked := by
  obtain ⟨count, acked, window⟩ := window
  refine ⟨window.shifted_vtS ▸ window.narrow, window.vtMs, fun sn below => ⟨fun held => ?_, ?_⟩,
    counted.numPdus, counted.numBytes, counted.toRetransmit⟩
  · have place := snAt_shiftedSn window.bounded below
    rw [← place] at held ⊢
    obtain ⟨-, inside, waits⟩ := window.waiting (shiftedSn_lt _ _) held
    exact (window.unacknowledged_iff inside).mpr waits
  · intro waits
    obtain ⟨index, inside, place, -, unacked⟩ := window.index_of_unacknowledged waits
    rw [place, (window.held index (Nat.zero_le _) inside).2, unacked]
    rfl

def NackHistory.init (config : TxConfiguration) : NackHistory :=
  ⟨Transmitter.init config, fun _ => false⟩

theorem init_counted (config : TxConfiguration) :
    (init config).Counted fun _ => false where
  numPdus := (tally_eq_zero fun _ _ => rfl).symm
  numBytes := (tally_eq_zero fun _ _ => rfl).symm
  toRetransmit := (tally_eq_zero fun _ _ => rfl).symm
  marks := nofun

/-- As long as no `retx_count` overflows, the accounts agree with the buffer in
every state reached. -/
theorem retransmission_accounts {config : TxConfiguration} {inputs : List EntityInput}
    {history : NackHistory}
    (reached : execute NackHistory.step (NackHistory.init config) inputs = some history)
    (fits : HoldsAlong NackHistory.step (fun history input => history.tx.CountersFit input)
      (NackHistory.init config) inputs) :
    history.tx.Accounted history.nacked := by
  have kept : ∀ (state : NackHistory) (input : EntityInput) (next : NackHistory),
      state.tx.HasWindow ∧ state.tx.Counted state.nacked → state.tx.CountersFit input →
      state.step input = some next → next.tx.HasWindow ∧ next.tx.Counted next.nacked :=
    fun state input next both fits stepped => state.step_counted both.1 both.2 fits stepped
  obtain ⟨window, counted⟩ := execute_preserves_along kept
    ⟨(init_window config).hasWindow, init_counted config⟩ fits reached
  exact counted.accounted window

def oneResent : List EntityInput :=
  [.dataReq 0 [1, 2, 3], .getPdus 0 0 5 fun _ => 0, .statusPdu 1 ⟨1, [⟨0, 0, 0x7FFF⟩]⟩,
    .getPdus 10 1 5 fun _ => 0]

theorem retransmission_accounts_one_resent :
    ∃ history,
      execute NackHistory.step (NackHistory.init sendingConfiguration) oneResent = some history ∧
        history.tx.Accounted history.nacked := by
  have returns : (execute NackHistory.step (NackHistory.init sendingConfiguration)
      oneResent).isSome := by
    decide +kernel
  obtain ⟨history, reached⟩ := isSome_iff_exists.mp returns
  exact ⟨history, reached, retransmission_accounts reached (by decide +kernel)⟩

def overflowing : List EntityInput :=
  [.dataReq 0 [1, 2, 3], .getPdus 0 0 5 fun _ => 0, .statusPdu 1 ⟨1, [⟨0, 0, 0x7FFF⟩]⟩] ++
    List.replicate 128 (.getPdus 0 1 5 fun _ => 0) ++ [.statusPdu 2 ⟨1, []⟩]

theorem not_accounted_overflow :
    ∃ history,
      execute NackHistory.step (NackHistory.init sendingConfiguration) overflowing =
        some history ∧ ¬history.tx.Accounted history.nacked := by
  have outcome : (execute NackHistory.step (NackHistory.init sendingConfiguration) overflowing).map
      (fun history => (history.tx.retransNumBytesToRetransmit, history.tx.vtA, history.tx.vtS)) =
        some (5, 1, 1) := by
    decide +kernel
  obtain ⟨history, reached, left⟩ := map_eq_some_iff.mp outcome
  simp only [Prod.mk.injEq] at left
  refine ⟨history, reached, fun accounted => ?_⟩
  have free : ∀ sn < rlcAmSnModulo,
      heldValue (nackedSize history.nacked) sn (history.tx.pduRetransBuffer sn) = 0 := by
    intro sn below
    refine if_neg fun held => ?_
    have inside := ((accounted.held sn below).mp held).2.1
    rw [left.2.1, left.2.2] at inside
    exact absurd inside (Nat.not_lt_zero _)
  have balance := accounted.toRetransmit
  rw [left.1, Transmitter.heldTotal, tally_eq_zero free] at balance
  cases balance

end OpenAir.RlcAm
