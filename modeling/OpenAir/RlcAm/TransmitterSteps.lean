import OpenAir.Base.Execution
import OpenAir.Base.Frame
import OpenAir.RlcAm.PduSizes
import OpenAir.RlcAm.Retransmission

/-! What each call of the transmitting side changes. Polling and the SDUs are
kept apart from the PDUs that may be sent again, and a STATUS PDU comes down to
a list of calls that acknowledge one PDU each. -/

set_option autoImplicit false

namespace OpenAir.RlcAm

open OpenAir.Base List Option Transmitter TxPdu Nat

@[simp] theorem setPdu_pduRetransBuffer (tx : Transmitter) (sn : Nat) (pdu : TxPdu) :
    (tx.setPdu sn pdu).pduRetransBuffer = Function.update tx.pduRetransBuffer sn pdu :=
  rfl

namespace Transmitter

def withPollingOf (tx other : Transmitter) : Transmitter :=
  { tx with
    pollSn := other.pollSn
    cPduWithoutPoll := other.cPduWithoutPoll
    cByteWithoutPoll := other.cByteWithoutPoll
    forcePoll := other.forcePoll
    tPollRetransmit := other.tPollRetransmit }

def withSdusOf (tx other : Transmitter) : Transmitter :=
  { tx with
    inputSdus := other.inputSdus
    nbSdu := other.nbSdu
    nbSduNoSegmented := other.nbSduNoSegmented
    nextSduIndex := other.nextSduIndex
    currentSduIndex := other.currentSduIndex
    sduBufferOccupancy := other.sduBufferOccupancy
    confirmed := other.confirmed }

def withWindowOf (tx other : Transmitter) : Transmitter :=
  { tx with
    vtA := other.vtA
    vtMs := other.vtMs
    pduRetransBuffer := other.pduRetransBuffer
    firstRetransPduSn := other.firstRetransPduSn }

def OnlyPolls (tx other : Transmitter) : Prop := Only withPollingOf tx other

def OnlySdus (tx other : Transmitter) : Prop := Only withSdusOf tx other

def OnlyWindow (tx other : Transmitter) : Prop := Only withWindowOf tx other

end Transmitter

section Polling

theorem pduPolling_onlyPolls (tx : Transmitter) (now : Nat) (octets : List UInt8)
    (payloadSize : Int) : tx.OnlyPolls (tx.pduPolling now octets payloadSize).1 := by
  simp only [pduPolling]
  split
  · rfl
  · rfl

theorem forcePollBit_onlyPolls (tx : Transmitter) (now sn : Nat) (octets : List UInt8) :
    tx.OnlyPolls (tx.forcePollBit now sn octets).1 :=
  (pduPolling_onlyPolls tx now octets (tx.pduRetransBuffer sn).headerAndPayloadSize).trans rfl

theorem stopPoll_onlyPolls (tx : Transmitter) (cursor : Nat) :
    tx.OnlyPolls (tx.stopPoll cursor) := by
  rw [stopPoll]
  split
  · rfl
  · rfl

theorem checkTimerPollRetransmit_onlyPolls (tx : Transmitter) (now : Nat) :
    tx.OnlyPolls (tx.checkTimerPollRetransmit now) := by
  rw [checkTimerPollRetransmit]
  split
  · rfl
  · rfl

end Polling

section Sdus

theorem nextSlot_lt (slot : Nat) : nextSlot slot < rlcAmSduControlBufferSize :=
  mod_lt _ (by decide)

variable {fuel slot : Nat} {settles : TxSdu → Bool} {status : Bool} {tx other : Transmitter}

theorem skipTransmitted_lt (sdus : Nat → TxSdu) (next : Nat) {current : Nat}
    (bounded : current < rlcAmSduControlBufferSize) :
    skipTransmitted sdus next fuel current < rlcAmSduControlBufferSize := by
  induction fuel generalizing current with
  | zero => exact bounded
  | succ fuel ih =>
    rw [skipTransmitted]
    split
    · exact ih (nextSlot_lt _)
    · exact bounded

structure Transmitter.MovesSdus (tx other : Transmitter) : Prop where
  only : tx.OnlySdus other
  current : tx.currentSduIndex < rlcAmSduControlBufferSize →
    other.currentSduIndex < rlcAmSduControlBufferSize

namespace Transmitter.MovesSdus

theorem refl (tx : Transmitter) : tx.MovesSdus tx := ⟨rfl, id⟩

theorem trans {first second third : Transmitter} (left : first.MovesSdus second)
    (right : second.MovesSdus third) : first.MovesSdus third :=
  ⟨left.only.trans right.only, fun bounded => right.current (left.current bounded)⟩

theorem kept {α : Type} {tx other : Transmitter} (moves : tx.MovesSdus other)
    (field : Transmitter → α)
    (apart : ∀ sdus, field (tx.withSdusOf sdus) = field tx := by exact fun _ => rfl) :
    field other = field tx :=
  moves.only.kept field apart

end Transmitter.MovesSdus

theorem dataReq_movesSdus (tx : Transmitter) (mui : Nat) (octets : List UInt8) :
    tx.MovesSdus (tx.dataReq mui octets) := by
  rw [dataReq]
  split
  · exact ⟨rfl, id⟩
  · exact .refl tx

theorem freeInSdu_movesSdus (tx : Transmitter) (slot : Nat) : tx.MovesSdus (tx.freeInSdu slot) := by
  refine ⟨rfl, fun bounded => ?_⟩
  have moved : (if tx.currentSduIndex = slot then nextSlot tx.currentSduIndex
      else tx.currentSduIndex) < rlcAmSduControlBufferSize := by
    split
    · exact nextSlot_lt _
    · exact bounded
  exact skipTransmitted_lt _ _ moved

theorem settleSdu_movesSdus (settled : tx.settleSdu settles status slot = some other) :
    tx.MovesSdus other := by
  simp only [settleSdu] at settled
  split at settled
  · split at settled
    · cases settled
      refine .trans ?_ (freeInSdu_movesSdus _ slot)
      exact ⟨rfl, id⟩
    · cases settled
      exact ⟨rfl, id⟩
  · cases settled

theorem settleSdus_movesSdus {slots : List Nat}
    (settled : slots.foldlM (settleSdu settles status) tx = some other) :
    tx.MovesSdus other :=
  foldlM_respects MovesSdus.refl MovesSdus.trans
    (fun _ _ _ => settleSdu_movesSdus) settled

theorem recordPdu_movesSdus (recorded : tx.recordPdu slot = some other) : tx.MovesSdus other := by
  simp only [recordPdu, ite_none_right_eq_some] at recorded
  obtain ⟨-, stored⟩ := recorded
  cases stored
  exact ⟨rfl, id⟩

theorem testFill_movesSdus {room liLength : Nat} {packing filled : Packing}
    (planned : testFill fuel packing slot room liLength = some filled) :
    packing.tx.MovesSdus filled.tx ∧ filled.pduRemainingSize ≤ packing.pduRemainingSize ∧
      (slot < rlcAmSduControlBufferSize →
        (∀ index ∈ packing.sdusIndex, index < rlcAmSduControlBufferSize) →
        ∀ index ∈ filled.sdusIndex, index < rlcAmSduControlBufferSize) := by
  induction fuel generalizing packing slot room liLength with
  | zero =>
    cases planned
    exact ⟨.refl _, le_refl _, fun _ slots => slots⟩
  | succ fuel ih =>
    rw [testFill] at planned
    split at planned
    · cases planned
      exact ⟨.refl _, le_refl _, fun _ slots => slots⟩
    · obtain ⟨tx, recorded, planned⟩ := bind_eq_some_iff.mp planned
      have moves := recordPdu_movesSdus recorded
      have visited : slot < rlcAmSduControlBufferSize →
          (∀ index ∈ packing.sdusIndex, index < rlcAmSduControlBufferSize) →
          ∀ index ∈ packing.sdusIndex ++ [slot], index < rlcAmSduControlBufferSize :=
        fun bounded slots => forall_mem_append.mpr ⟨slots, forall_mem_singleton.mpr bounded⟩
      simp only at planned
      split at planned
      · cases planned
        exact ⟨moves, le_refl _, visited⟩
      · split at planned
        · cases planned
          exact ⟨moves, sub_le .., visited⟩
        · split at planned
          · split at planned
            · cases planned
              exact ⟨moves, sub_le .., visited⟩
            · obtain ⟨later, room, slots⟩ := ih planned
              exact ⟨moves.trans later, room, fun bounded earlier =>
                slots (nextSlot_lt slot) (visited bounded earlier)⟩
          · cases planned
            exact ⟨moves, sub_le .., visited⟩

theorem passSdu_movesSdus (tx : Transmitter) (rest : Nat) : tx.MovesSdus (tx.passSdu rest) := by
  refine ⟨?_, fun _ => nextSlot_lt _⟩
  simp only [passSdu, freeInSduData]
  split
  · rfl
  · rfl

theorem fill_movesSdus {testNumLi : Nat} {filling : Filling} (same : tx.MovesSdus filling.tx) :
    tx.MovesSdus (fill testNumLi fuel filling).tx := by
  induction fuel generalizing filling with
  | zero => exact same
  | succ fuel ih =>
    have passed := fun rest => same.trans (passSdu_movesSdus filling.tx rest)
    cases block : (filling.tx.inputSdus filling.tx.currentSduIndex).memBlock with
    | none => rwa [fill_free block]
    | some octets =>
      rw [fill_succ rfl (isSome_of_eq_some block)]
      split
      · exact same.trans ⟨rfl, id⟩
      · split
        · refine ih ?_
          rw [(liRound_fields ..).1]
          exact passed _
        · exact passed _

end Sdus

def TxPdu.withHolesOf (pdu other : TxPdu) : TxPdu :=
  { pdu with
    lastNackTime := other.lastNackTime
    holes := other.holes
    nackSoStart := other.nackSoStart
    nackSoStop := other.nackSoStop }

def TxPdu.OnlyHoles (pdu other : TxPdu) : Prop := Only withHolesOf pdu other

section Holes

variable {pdu other : TxPdu} {soStart soStop : Int}

namespace TxPdu

theorem addHole_onlyHoles (added : pdu.addHole soStart soStop = some other) :
    pdu.OnlyHoles other := by
  simp only [addHole, ite_none_right_eq_some] at added
  obtain ⟨-, added⟩ := added
  split at added
  · obtain ⟨-, stored⟩ := ite_none_right_eq_some.mp added
    cases stored
    rfl
  · split at added
    · obtain ⟨-, stored⟩ := ite_none_right_eq_some.mp added
      cases stored
      rfl
    · simp only [insertHole, ite_none_right_eq_some] at added
      obtain ⟨-, stored⟩ := added
      cases stored
      rfl

theorem removeHole_onlyHoles (removed : pdu.removeHole soStart soStop = some other) :
    pdu.OnlyHoles other := by
  simp only [removeHole, ite_none_right_eq_some] at removed
  obtain ⟨-, removed⟩ := removed
  split at removed
  · simp only [ite_none_right_eq_some] at removed
    obtain ⟨-, -, stored⟩ := removed
    cases stored
    rfl
  · obtain ⟨left, -, stored⟩ := bind_eq_some_iff.mp removed
    obtain ⟨-, stored⟩ := ite_none_right_eq_some.mp stored
    cases stored
    rfl

theorem nacked_spec {frame : Nat} (nacked : pdu.nacked frame soStart soStop = some other) :
    ∃ holed, (pdu.clearedAt frame).addHole soStart soStop = some holed ∧ pdu.OnlyHoles holed ∧
      other = holed.countNack := by
  simp only [TxPdu.nacked, ite_none_right_eq_some, map_eq_some_iff] at nacked
  obtain ⟨-, holed, added, rfl⟩ := nacked
  refine ⟨holed, added, .trans ?_ (addHole_onlyHoles added), rfl⟩
  rw [clearedAt]
  split
  · rfl
  · rfl

end TxPdu

end Holes

def TxPdu.stopped (pdu : TxPdu) : TxPdu :=
  if pdu.nackSoStop = soEndOfPdu then { pdu with nackSoStop := pdu.payloadSize - 1 } else pdu

def TxPdu.passed (pdu : TxPdu) (plan : SegmentPlan) : TxPdu :=
  let lastSegment := decide (plan.pduCopySize + plan.startOffset = pdu.payloadSize)
  if lastSegment then { pdu with retransmit := false } else pdu

theorem TxPdu.segmented_kept {α : Type} {pdu other : TxPdu} {plan : SegmentPlan}
    {soStart soStop : Int}
    (removed : (pdu.stopped.passed plan).removeHole soStart soStop = some other)
    (field : TxPdu → α)
    (apart : ∀ holes mark, field { pdu.withHolesOf holes with retransmit := mark } = field pdu) :
    field other = field pdu := by
  have only := removeHole_onlyHoles removed
  have same : (pdu.stopped.passed plan).withHolesOf other =
      { pdu.withHolesOf other with retransmit := (pdu.stopped.passed plan).retransmit } := by
    simp only [stopped, passed]
    split
    · split
      · rfl
      · rfl
    · split
      · rfl
      · rfl
  rw [OnlyHoles, Only, same] at only
  rw [only, apart]

section Pdus

variable {tx other : Transmitter} {now frame sn : Nat}

theorem retransmitGetCopy_spec {octets : List UInt8}
    (held : (tx.pduRetransBuffer sn).memBlock = some octets) :
    (tx.setPdu sn { tx.pduRetransBuffer sn with retransmit := false }).OnlyPolls
      (tx.retransmitGetCopy now sn).1 := by
  simp only [retransmitGetCopy, held]
  exact pduPolling_onlyPolls _ now _ _

theorem retransmitGetSubsegment_spec {size : Int} {segment : List UInt8}
    (sent : tx.retransmitGetSubsegment now sn size = some (other, segment)) :
    ∃ octets info plan pdu, (tx.pduRetransBuffer sn).memBlock = some octets ∧
      getDataPduInfos octets = some info ∧
      (tx.pduRetransBuffer sn).stopped.planSegment info (size - 4) = some plan ∧
      ((tx.pduRetransBuffer sn).stopped.passed plan).removeHole plan.startOffset
        (plan.pduCopySize + plan.startOffset - 1) = some pdu ∧
      (tx.setPdu sn pdu).OnlyPolls other := by
  obtain ⟨octets, held, sent⟩ := bind_eq_some_iff.mp sent
  obtain ⟨info, decoded, sent⟩ := bind_eq_some_iff.mp sent
  obtain ⟨plan, planned, sent⟩ := bind_eq_some_iff.mp sent
  obtain ⟨pdu, removed, polled⟩ := map_eq_some_iff.mp sent
  obtain rfl : _ = other := congrArg Prod.fst polled
  exact ⟨octets, info, plan, pdu, held, decoded, planned, removed, pduPolling_onlyPolls _ now _ _⟩

theorem nackPdu_spec {soStart soStop : Int} (held : (tx.pduRetransBuffer sn).memBlock.isSome)
    (nacked : tx.nackPdu frame sn soStart soStop = some other) :
    ∃ pdu, (tx.pduRetransBuffer sn).nacked frame soStart soStop = some pdu ∧
      (tx.markNacked sn pdu).OnlySdus other ∧
      (pdu.retxCount < tx.maxRetxThreshold → other = tx.markNacked sn pdu) := by
  simp only [nackPdu, held, if_true] at nacked
  obtain ⟨pdu, recorded, given⟩ := bind_eq_some_iff.mp nacked
  refine ⟨pdu, recorded, ?_⟩
  split at given
  next reached =>
    exact ⟨(settleSdus_movesSdus given).only, fun below => absurd reached (Int.not_le.mpr below)⟩
  · cases given
    exact ⟨rfl, fun _ => rfl⟩

theorem nackPdu_free {soStart soStop : Int}
    (free : ¬(tx.pduRetransBuffer sn).memBlock.isSome)
    (nacked : tx.nackPdu frame sn soStart soStop = some other) : other = tx := by
  simp only [nackPdu, if_neg free] at nacked
  exact (Option.some.inj nacked).symm

theorem nextSn_ne (sn : Nat) : nextSn sn ≠ sn := by
  simp only [nextSn, rlcAmSnModulo]
  omega

def Transmitter.passVtA (tx : Transmitter) : Transmitter :=
  { tx.setPdu tx.vtA .zeroed with
    firstRetransPduSn :=
      if tx.firstRetransPduSn = tx.vtA then nextSn tx.vtA else tx.firstRetransPduSn
    vtA := nextSn tx.vtA }

theorem advanceLoop_succ (fuel : Nat) (tx : Transmitter) :
    advanceLoop (fuel + 1) tx =
      if (tx.passVtA.pduRetransBuffer tx.passVtA.vtA).ack ∧ tx.passVtA.vtA ≠ tx.passVtA.vtS
      then advanceLoop fuel tx.passVtA else tx.passVtA :=
  rfl

theorem advanceVtA_establishes {invariant final : Transmitter → Prop}
    (passes : ∀ state : Transmitter, invariant state → invariant state.passVtA)
    (limits : ∀ state : Transmitter, invariant state →
      final { state with vtMs := (state.vtA + rlcAmWindowSize) % rlcAmSnModulo })
    (start : invariant tx) : final tx.advanceVtA := by
  have looped : ∀ fuel, invariant (advanceLoop fuel tx) := by
    intro fuel
    induction fuel generalizing tx with
    | zero => exact start
    | succ fuel ih =>
      rw [advanceLoop_succ]
      split
      · exact ih (passes tx start)
      · exact passes tx start
  exact limits _ (looped rlcAmSnModulo)

theorem advanceVtA_onlyWindow (tx : Transmitter) : tx.OnlyWindow tx.advanceVtA :=
  @advanceVtA_establishes tx tx.OnlyWindow _ (fun _ only => only.trans rfl)
    (fun _ only => only.trans rfl) rfl

theorem markAcked_onlyWindow (tx : Transmitter) (sn : Nat) : tx.OnlyWindow (tx.markAcked sn) := by
  have acked : tx.OnlyWindow (tx.setPdu sn { tx.pduRetransBuffer sn with ack := true }) := rfl
  simp only [markAcked]
  split
  · exact acked.trans (advanceVtA_onlyWindow _)
  · exact acked

theorem skipRetrans_onlyWindow (tx : Transmitter) (sn : Nat) :
    tx.OnlyWindow (tx.skipRetrans sn) := by
  rw [skipRetrans]
  split
  · rfl
  · rfl

theorem ackPdu_spec {tx other : Transmitter} {sn : Nat} (done : tx.ackPdu sn = some other) :
    ((tx.pduRetransBuffer sn).ack = false ∧ (tx.pduRetransBuffer sn).memBlock.isSome ∧
        ∃ settled, (tx.pduRetransBuffer sn).sdusIndex.foldlM ackSdu
          ((tx.freePdu sn).uncountPdu (tx.pduRetransBuffer sn)) = some settled ∧
          settled.OnlyWindow other) ∨
      ¬((tx.pduRetransBuffer sn).ack = false ∧
          (tx.pduRetransBuffer sn).memBlock.isSome) ∧ tx.OnlyWindow other := by
  have freed : tx.OnlyWindow (tx.freePdu sn) := rfl
  simp only [ackPdu] at done
  split at done
  next waits =>
    obtain ⟨settled, folded, rfl⟩ := map_eq_some_iff.mp done
    exact Or.inl ⟨waits.1, waits.2, settled, folded,
      (markAcked_onlyWindow settled sn).trans (skipRetrans_onlyWindow _ sn)⟩
  next idle =>
    refine Or.inr ⟨idle, ?_⟩
    split at done
    · cases done
      exact freed.trans (advanceVtA_onlyWindow _)
    · cases done
      exact freed

def freshPdu (octets : List UInt8) (payload : Nat) (sdusIndex : List Nat)
    (size payloadSize : Nat) : TxPdu :=
  { zeroed with
    memBlock := some octets
    payload := payload
    sdusIndex := sdusIndex
    headerAndPayloadSize := size
    payloadSize := payloadSize
    retxCount := -1 }

def Transmitter.withFresh (tx : Transmitter) (pdu : TxPdu) : Transmitter :=
  { tx.setPdu tx.vtS pdu with
    vtS := nextSn tx.vtS
    retransNumPdus := tx.retransNumPdus + 1
    retransNumBytes := tx.retransNumBytes + pdu.headerAndPayloadSize }

theorem finishPdu_spec {size payload : Nat} {firstIsFirst : Bool} {sdusIndex : List Nat}
    {filling : Filling} {copy : Option (List UInt8)} (same : tx.OnlySdus filling.tx)
    (sent : tx.finishPdu now size payload firstIsFirst sdusIndex filling = some (other, copy)) :
    copy.isSome ∧ ∃ octets,
      (filling.tx.withFresh (freshPdu octets payload sdusIndex
        (size - filling.pduRemainingSize) filling.payloadSize)).OnlyPolls other := by
  simp only [finishPdu, ite_none_right_eq_some] at sent
  obtain ⟨-, copied⟩ := sent
  generalize polling : pduPolling { filling.tx with vtS := nextSn tx.vtS } now _ _ =
    polled at copied
  have kept : OnlyPolls { filling.tx with vtS := nextSn tx.vtS } polled.1 :=
    polling ▸ pduPolling_onlyPolls _ now _ _
  have vtS : filling.tx.vtS = tx.vtS := same.kept vtS
  simp only [retransmitGetCopy, setPdu, Function.update_self,
    Option.some.injEq, Prod.mk.injEq] at copied
  obtain ⟨rfl, rfl⟩ := copied
  refine ⟨rfl, polled.2, .trans ?_ (pduPolling_onlyPolls _ now _ _)⟩
  simp only [OnlyPolls, Only] at kept ⊢
  rw [kept]
  simp [withFresh, withPollingOf, setPdu, freshPdu, vtS, zeroed]

end Pdus

def Transmitter.HasNew (tx : Transmitter) : Prop :=
  tx.vtS ≠ tx.vtMs ∧ 0 < tx.sduBufferOccupancy ∧
    (tx.inputSdus tx.currentSduIndex).memBlock.isSome

/-- A grant is used for the PDU at `first_retrans_pdu_sn`: as a whole if that
is what is missing and it fits, else for a segment of it. -/
def Transmitter.Resends (tx : Transmitter) (requested : Nat) : Prop :=
  let pdu := tx.pduRetransBuffer tx.firstRetransPduSn.toNat
  0 ≤ tx.firstRetransPduSn ∧ 2 < requested ∧ tx.firstRetransPduSn ≠ tx.vtS ∧ 0 ≤ pdu.retxCount ∧
    (pdu.headerAndPayloadSize ≤ requested ∧ pdu.nackSoStart = 0 ∧ pdu.nackSoStop = soEndOfPdu ∨
      rlcAmMinSegmentSizeRequest ≤ requested)

instance (tx : Transmitter) : Decidable tx.HasNew := inferInstanceAs (Decidable (_ ∧ _ ∧ _))

instance (tx : Transmitter) (requested : Nat) : Decidable (tx.Resends requested) :=
  inferInstanceAs (Decidable (_ ∧ _ ∧ _ ∧ _ ∧ (_ ∨ _)))

def Transmitter.heldDown (tx : Transmitter) : List Nat :=
  tx.outstandingDown rlcAmSnModulo ((tx.vtS + (rlcAmSnModulo - 1)) % rlcAmSnModulo)

/-- The PDU that `rlc_am_retransmit_any_pdu` chooses. -/
def Transmitter.anyPdu (tx : Transmitter) (requested : Nat) : Option Nat :=
  (tx.heldDown.find? fun sn =>
    decide ((tx.pduRetransBuffer sn).headerAndPayloadSize ≤ requested)).or
      (if requested > 4 then tx.heldDown.head? else none)

def Transmitter.forced (tx : Transmitter) (requested : Nat) : Option Nat :=
  if ¬tx.Resends requested ∧ ¬tx.HasNew ∧ tx.tPollRetransmit.timedOut ∧ 2 < requested then
    tx.anyPdu requested
  else none

section Grants

variable {tx other : Transmitter} {now frame requested : Nat} {block : Nat → UInt8}

theorem segment10_spec {copy : Option (List UInt8)} (grant : 2 < requested)
    (sent : tx.segment10 now requested block = some (other, copy)) :
    (¬(0 < tx.sduBufferOccupancy ∧
        (tx.inputSdus tx.currentSduIndex).memBlock.isSome) ∧ other = tx ∧ copy = none) ∨
      (0 < tx.sduBufferOccupancy ∧
        (tx.inputSdus tx.currentSduIndex).memBlock.isSome ∧ copy.isSome ∧
        ∃ sending octets payload sdusIndex size payloadSize, tx.MovesSdus sending ∧
          (tx.currentSduIndex < rlcAmSduControlBufferSize →
            ∀ slot ∈ sdusIndex, slot < rlcAmSduControlBufferSize) ∧
          (sending.withFresh (freshPdu octets payload sdusIndex size payloadSize)).OnlyPolls
            other) := by
  simp only [segment10] at sent
  split at sent
  next idle =>
    cases sent
    refine Or.inl ⟨fun waits => ?_, rfl, rfl⟩
    rcases idle with empty | free | none
    · omega
    · rw [isNone_iff_eq_none.mp free] at waits
      cases waits.2
    · omega
  next waits =>
    rw [not_or, not_or, Int.not_le] at waits
    have held : (tx.inputSdus tx.currentSduIndex).memBlock.isSome := by
      simpa [← isSome_iff_ne_none] using waits.2.1
    split at sent
    · cases sent
    · obtain ⟨packing, planned, finished⟩ := bind_eq_some_iff.mp sent
      obtain ⟨moves, -, slots⟩ := testFill_movesSdus planned
      obtain ⟨copied, octets, fresh⟩ :=
        finishPdu_spec (by exact (fill_movesSdus moves).only) finished
      exact Or.inr ⟨waits.1, held, copied, _, octets, _, _, _, _, by exact fill_movesSdus moves,
        fun bounded => slots bounded nofun, fresh⟩

theorem retransmitAnyPdu_spec {pdus : List (List UInt8)}
    (sent : tx.retransmitAnyPdu now frame requested = some (other, pdus)) :
    (tx.anyPdu requested = none ∧ other = tx ∧ pdus = []) ∨
      ∃ sn marked, tx.anyPdu requested = some sn ∧
        tx.nackPdu frame sn 0 soEndOfPdu = some marked ∧
        ((marked.retransmitGetCopy now sn).1.OnlyPolls other ∨
          ∃ sending segment, marked.retransmitGetSubsegment now sn requested =
            some (sending, segment) ∧ sending.OnlyPolls other) := by
  simp only [retransmitAnyPdu] at sent
  rw [anyPdu, heldDown]
  cases fits : (tx.outstandingDown rlcAmSnModulo
      ((tx.vtS + (rlcAmSnModulo - 1)) % rlcAmSnModulo)).find?
        (fun sn => decide ((tx.pduRetransBuffer sn).headerAndPayloadSize ≤ requested)) with
  | some sn =>
    rw [fits] at sent
    obtain ⟨marked, nacked, copied⟩ := map_eq_some_iff.mp sent
    obtain rfl : _ = other := congrArg Prod.fst copied
    exact Or.inr ⟨sn, marked, rfl, nacked, Or.inl (forcePollBit_onlyPolls _ now sn _)⟩
  | none =>
    rw [fits] at sent
    cases first : (tx.outstandingDown rlcAmSnModulo
        ((tx.vtS + (rlcAmSnModulo - 1)) % rlcAmSnModulo)).head? with
    | none =>
      rw [first] at sent
      cases sent
      exact Or.inl ⟨ite_self _, rfl, rfl⟩
    | some sn =>
      rw [first, retransmitFound] at sent
      split at sent
      next wide =>
        obtain ⟨marked, nacked, cut⟩ := bind_eq_some_iff.mp sent
        obtain ⟨⟨sending, segment⟩, taken, polled⟩ := map_eq_some_iff.mp cut
        obtain rfl : _ = other := congrArg Prod.fst polled
        have wide' : requested > 4 := by omega
        exact Or.inr ⟨sn, marked, if_pos wide', nacked,
          Or.inr ⟨sending, segment, taken, forcePollBit_onlyPolls _ now sn _⟩⟩
      next narrow =>
        cases sent
        have narrow' : ¬requested > 4 := by omega
        exact Or.inl ⟨if_neg narrow', rfl, rfl⟩

theorem outstandingDown_lt {fuel start : Nat} (bounded : start < rlcAmSnModulo) :
    ∀ sn ∈ tx.outstandingDown fuel start, sn < rlcAmSnModulo := by
  induction fuel generalizing start with
  | zero => exact nofun
  | succ fuel ih =>
    intro sn mem
    rw [outstandingDown] at mem
    have rest := @ih ((start + (rlcAmSnModulo - 1)) % rlcAmSnModulo) (mod_lt _ (by decide))
    split at mem
    · cases mem
    · split at mem
      · rcases mem_cons.mp mem with rfl | later
        · exact bounded
        · exact rest sn later
      · exact rest sn mem

theorem anyPdu_lt {sn : Nat} (chosen : tx.anyPdu requested = some sn) : sn < rlcAmSnModulo := by
  have listed := @outstandingDown_lt tx rlcAmSnModulo
    ((tx.vtS + (rlcAmSnModulo - 1)) % rlcAmSnModulo) (mod_lt _ (by decide)) sn
  refine listed ?_
  rcases or_eq_some_iff.mp chosen with fits | ⟨-, first⟩
  · exact mem_of_find?_eq_some fits
  · split at first
    · exact mem_of_head? first
    · cases first

theorem retransmitPdu_none_iff :
    tx.retransmitPdu now tx.firstRetransPduSn.toNat requested = some none ↔
      ¬(0 ≤ (tx.pduRetransBuffer tx.firstRetransPduSn.toNat).retxCount ∧
        ((tx.pduRetransBuffer tx.firstRetransPduSn.toNat).headerAndPayloadSize ≤ requested ∧
            (tx.pduRetransBuffer tx.firstRetransPduSn.toNat).nackSoStart = 0 ∧
            (tx.pduRetransBuffer tx.firstRetransPduSn.toNat).nackSoStop = soEndOfPdu ∨
          rlcAmMinSegmentSizeRequest ≤ requested)) := by
  simp only [retransmitPdu]
  split
  next whole =>
    simp only [Option.some.injEq, reduceCtorEq, false_iff, not_not]
    exact ⟨whole.2.1, Or.inl ⟨whole.1, whole.2.2⟩⟩
  next part =>
    split
    next room =>
      refine iff_of_false ?_ (not_not.mpr ⟨room.1, Or.inr (by omega)⟩)
      intro sent
      obtain ⟨taken, -, none⟩ := map_eq_some_iff.mp sent
      cases none
    next small =>
      refine iff_of_true rfl ?_
      rintro ⟨counted, fits | room⟩
      · exact part ⟨fits.1, counted, fits.2⟩
      · exact small ⟨counted, by omega⟩

theorem getPdus_cases {pdus : List (List UInt8)}
    (sent : tx.getPdus now frame requested block = some (other, pdus)) :
    (tx.Resends requested ∧ tx.forced requested = none ∧
        tx.retransmitPdu now tx.firstRetransPduSn.toNat requested = some (some (other, pdus))) ∨
      (¬tx.Resends requested ∧ tx.forced requested = none ∧ tx.HasNew ∧ 2 < requested ∧
        ∃ copy, tx.segment10 now requested block = some (other, copy) ∧ pdus = copy.toList) ∨
      (¬tx.Resends requested ∧ ¬tx.HasNew ∧ tx.forced requested = tx.anyPdu requested ∧
        tx.tPollRetransmit.timedOut ∧ 2 < requested ∧
        tx.retransmitAnyPdu now frame requested = some (other, pdus)) ∨
      (¬tx.Resends requested ∧ tx.forced requested = none ∧ other = tx ∧ pdus = []) := by
  by_cases resends : tx.Resends requested
  · refine Or.inl ⟨resends, if_neg fun forced => forced.1 resends, ?_⟩
    rw [getPdus, if_pos ⟨resends.1, resends.2.1, resends.2.2.1⟩] at sent
    obtain ⟨again, resent, rest⟩ := bind_eq_some_iff.mp sent
    cases again with
    | none => exact absurd resends.2.2.2 (retransmitPdu_none_iff.mp resent)
    | some result =>
      cases rest
      exact resent
  · have fresh : tx.newPdus now frame requested block = some (other, pdus) := by
      rw [getPdus] at sent
      split at sent
      next pointed =>
        have none : tx.retransmitPdu now tx.firstRetransPduSn.toNat requested = some none :=
          retransmitPdu_none_iff.mpr fun counted =>
            resends ⟨pointed.1, pointed.2.1, pointed.2.2, counted⟩
        rw [none] at sent
        exact sent
      · exact sent
    refine Or.inr ?_
    simp only [newPdus] at fresh
    obtain ⟨⟨segmented, copy⟩, made, rest⟩ := bind_eq_some_iff.mp fresh
    by_cases new : tx.HasNew ∧ 2 < requested
    · rw [if_pos ⟨new.2, new.1.1⟩] at made
      rcases segment10_spec new.2 made with ⟨idle, -⟩ | ⟨-, -, copied, -⟩
      · exact absurd new.1.2 idle
      · have some_ : copy ≠ none := isSome_iff_ne_none.mp copied
        rw [if_neg fun forced => some_ forced.1] at rest
        cases rest
        exact Or.inl ⟨resends, if_neg fun forced => forced.2.1 new.1, new.1, new.2, copy, made, rfl⟩
    · -- Without a new PDU the entity is as before.
      obtain ⟨rfl, rfl⟩ : segmented = tx ∧ copy = none := by
        split at made
        next room =>
          rcases segment10_spec room.1 made with ⟨-, same, nothing⟩ | ⟨waits, held, -⟩
          · exact ⟨same, nothing⟩
          · exact absurd ⟨⟨room.2, waits, held⟩, room.1⟩ new
        · cases made
          exact ⟨rfl, rfl⟩
      refine Or.inr ?_
      split at rest
      next expired =>
        have idle : ¬segmented.HasNew := fun has => new ⟨has, expired.2.2⟩
        exact Or.inl ⟨resends, idle, if_pos ⟨resends, idle, expired.2.1, expired.2.2⟩,
          expired.2.1, expired.2.2, rest⟩
      next quiet =>
        cases rest
        exact Or.inr ⟨resends, if_neg fun forced => quiet ⟨rfl, forced.2.2⟩, rfl, rfl⟩

end Grants

inductive PduReport where
  | ack (sn : Nat)
  | nack (sn : Nat) (soStart soEnd : Int)
  deriving DecidableEq, Repr

def PduReport.sn : PduReport → Nat
  | .ack sn => sn
  | .nack sn _ _ => sn

def PduReport.nacks (sn : Nat) : PduReport → Bool
  | .ack _ => false
  | .nack other _ _ => other == sn

def Transmitter.report (frame : Nat) (tx : Transmitter) : PduReport → Option Transmitter
  | .ack sn => (tx.stopPoll sn).ackPdu sn
  | .nack sn soStart soEnd => (tx.stopPoll sn).nackPdu frame sn soStart soEnd

def statusReports (ackSn : Nat) :
    Nat → Nat → Option NackItem → List NackItem → Option (List PduReport)
  | 0, _, _, _ => none
  | fuel + 1, cursor, last, items =>
    if cursor = ackSn then some []
    else
      match items with
      | item :: rest =>
        if cursor = item.nackSn then
          (statusReports ackSn fuel (cursorAfter cursor (some item) rest) (some item) rest).map
            (PduReport.nack cursor item.soStart item.soEnd :: ·)
        else
          (statusReports ackSn fuel (cursorAfter cursor last items) last items).map
            (PduReport.ack cursor :: ·)
      | [] => (statusReports ackSn fuel (nextSn cursor) last []).map (PduReport.ack cursor :: ·)

def Transmitter.reports (tx : Transmitter) (info : ControlPduInfo) : List PduReport :=
  if inWindow tx.vtA tx.vtMs info.ackSn then
    (statusReports info.ackSn (rlcAmSnModulo + info.nackList.length) tx.vtA none
      info.nackList).getD []
  else []

section Reports

variable {frame ackSn : Nat}

theorem walkStatus_reports {fuel cursor : Nat} {tx other : Transmitter} {last : Option NackItem}
    {items : List NackItem}
    (walked : walkStatus frame ackSn fuel tx cursor last items = some other) :
    ∃ reports, statusReports ackSn fuel cursor last items = some reports ∧
      execute (report frame) tx reports = some other := by
  induction fuel generalizing tx cursor last items with
  | zero => cases walked
  | succ fuel ih =>
    rw [walkStatus] at walked
    split at walked
    next ended =>
      cases walked
      exact ⟨[], by cases items <;> exact if_pos ended, rfl⟩
    next goes =>
      cases items with
      | nil =>
        obtain ⟨next, done, rest⟩ := bind_eq_some_iff.mp walked
        obtain ⟨reports, planned, executed⟩ := ih rest
        exact ⟨.ack cursor :: reports,
          by rw [statusReports, if_neg goes, planned, map_some],
          bind_eq_some_iff.mpr ⟨next, done, executed⟩⟩
      | cons item items =>
        simp only at walked
        split at walked
        next here =>
          obtain ⟨next, nacked, rest⟩ := bind_eq_some_iff.mp walked
          obtain ⟨reports, planned, executed⟩ := ih rest
          exact ⟨.nack cursor item.soStart item.soEnd :: reports,
            by rw [statusReports, if_neg goes, if_pos here, planned, map_some],
            bind_eq_some_iff.mpr ⟨next, nacked, executed⟩⟩
        next apart =>
          obtain ⟨next, done, rest⟩ := bind_eq_some_iff.mp walked
          obtain ⟨reports, planned, executed⟩ := ih rest
          exact ⟨.ack cursor :: reports,
            by rw [statusReports, if_neg goes, if_neg apart, planned, map_some],
            bind_eq_some_iff.mpr ⟨next, done, executed⟩⟩

theorem receiveProcessControlPdu_reports {tx other : Transmitter} {info : ControlPduInfo}
    (processed : tx.receiveProcessControlPdu frame info = some other) :
    execute (report frame) tx (tx.reports info) = some other := by
  simp only [receiveProcessControlPdu, ite_none_right_eq_some] at processed
  obtain ⟨-, processed⟩ := processed
  rw [reports]
  split at processed
  next inside =>
    obtain ⟨reports, planned, executed⟩ := walkStatus_reports processed
    rw [if_pos inside, planned]
    exact executed
  next outside =>
    rw [if_neg outside]
    exact processed

end Reports

end OpenAir.RlcAm
