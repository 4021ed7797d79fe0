import OpenAir.RlcAm.PackedSdus
import OpenAir.RlcAm.RingRotation

/-! A grant is used in the same way wherever in the ring of SDUs the transmitting
side has started: segmentation, retransmission and polling commute with a rotation. -/

set_option autoImplicit false

namespace OpenAir.RlcAm

open OpenAir.Base Option Transmitter Rotation

def Rotation.Sent {α : Type} (rotation : Rotation) (fresh used : Transmitter × α) : Prop :=
  rotation.Alike fresh.1 used.1 ∧ fresh.2 = used.2

@[simps]
def Rotation.packing (rotation : Rotation) (packing : Packing) : Packing :=
  { packing with
    tx := rotation.tx packing.tx
    sdusIndex := packing.sdusIndex.map rotation.turn }

@[simps]
def Rotation.filling (rotation : Rotation) (filling : Filling) : Filling :=
  { filling with tx := rotation.tx filling.tx }

variable {fuel payload vtS : Nat} {octets : List UInt8} {filling : Filling} {sdusIndex : List Nat}
  {block : Nat → UInt8}

section Polling

variable {rotation : Rotation} {tx other : Transmitter} {now frame sn slot : Nat}

namespace Rotation

theorem tx_pduPolling (rotation : Rotation) (tx : Transmitter) (now : Nat)
    (octets : List UInt8) (payloadSize : Int) :
    (rotation.tx tx).pduPolling now octets payloadSize =
      (rotation.tx (tx.pduPolling now octets payloadSize).1,
        (tx.pduPolling now octets payloadSize).2) := by
  simp only [pduPolling, tx_cPduWithoutPoll, tx_cByteWithoutPoll,
    tx_pollPdu, tx_pollByte, tx_sduBufferOccupancy,
    tx_retransNumBytesToRetransmit, tx_vtS, tx_vtMs,
    tx_forcePoll]
  split
  · rfl
  · rfl

theorem tx_checkTimerPollRetransmit (rotation : Rotation) (tx : Transmitter) (now : Nat) :
    (rotation.tx tx).checkTimerPollRetransmit now =
      rotation.tx (tx.checkTimerPollRetransmit now) := by
  simp only [checkTimerPollRetransmit, tx_tPollRetransmit]
  split
  · rfl
  · rfl

theorem Fits.pduPolling {octets : List UInt8} {payloadSize : Int} (fits : rotation.Fits tx) :
    rotation.Sent (tx.pduPolling now octets payloadSize)
      ((rotation.tx tx).pduPolling now octets payloadSize) := by
  rw [tx_pduPolling]
  exact ⟨⟨fits.onlyPolls (pduPolling_onlyPolls tx now octets payloadSize), rfl⟩, rfl⟩

end Rotation

namespace Rotation

theorem Fits.retransmitGetCopy (fits : rotation.Fits tx) :
    rotation.Sent (tx.retransmitGetCopy now sn) ((rotation.tx tx).retransmitGetCopy now sn) := by
  cases held : (tx.pduRetransBuffer sn).memBlock with
  | none =>
    simp only [Transmitter.retransmitGetCopy, tx_pduRetransBuffer, pdu_memBlock, held]
    exact ⟨⟨fits, rfl⟩, rfl⟩
  | some octets =>
    have marked : rotation.Fits
        (tx.setPdu sn { tx.pduRetransBuffer sn with retransmit := false }) :=
      fits.setPdu (fits.slots sn)
    have stored := rotation.tx_setPdu tx sn { tx.pduRetransBuffer sn with retransmit := false }
    obtain ⟨polls, copies⟩ := @Fits.pduPolling rotation _ now octets
      (tx.pduRetransBuffer sn).payloadSize marked
    rw [← stored] at polls copies
    simp only [Transmitter.retransmitGetCopy, tx_pduRetransBuffer, pdu_memBlock, held]
    rw [← held]
    exact ⟨polls, congrArg some copies⟩

theorem tx_forcePollBit (rotation : Rotation) (tx : Transmitter) (now sn : Nat)
    (octets : List UInt8) :
    (rotation.tx tx).forcePollBit now sn octets =
      (rotation.tx (tx.forcePollBit now sn octets).1, (tx.forcePollBit now sn octets).2) := by
  simp only [forcePollBit, tx_pduRetransBuffer, pdu_headerAndPayloadSize, tx_pduPolling]
  rfl

theorem Fits.resent {octets : List UInt8} (fits : rotation.Fits tx) :
    rotation.Sent
      ((tx.forcePollBit now sn octets).1, [(tx.forcePollBit now sn octets).2])
      (((rotation.tx tx).forcePollBit now sn octets).1,
        [((rotation.tx tx).forcePollBit now sn octets).2]) := by
  rw [tx_forcePollBit]
  exact ⟨⟨fits.onlyPolls (forcePollBit_onlyPolls tx now sn octets), rfl⟩, rfl⟩

end Rotation

end Polling

/-! New PDUs. -/

section Segmenting

variable {rotation : Rotation} {tx other : Transmitter} {now slot : Nat}

namespace Rotation

theorem Fits.recordPdu (fits : rotation.Fits tx) :
    Rel (fun fresh used => rotation.Alike fresh used ∧ fresh.nextSduIndex = tx.nextSduIndex)
      (tx.recordPdu slot) ((rotation.tx tx).recordPdu (rotation.turn slot)) := by
  have stored : (rotation.tx tx).setSdu (rotation.turn slot)
      { rotation.sdu slot (tx.inputSdus slot) with
        pdusIndex := (tx.inputSdus slot).pdusIndex ++ [tx.vtS] } =
      rotation.tx (tx.setSdu slot
        { tx.inputSdus slot with pdusIndex := (tx.inputSdus slot).pdusIndex ++ [tx.vtS] }) :=
    rotation.tx_setSdu tx slot
      { tx.inputSdus slot with pdusIndex := (tx.inputSdus slot).pdusIndex ++ [tx.vtS] }
  simp only [Transmitter.recordPdu, tx_inputSdus, sdu_pdusIndex, tx_vtS, stored]
  split
  · exact .some ⟨⟨fits.setSdu fun filled => fits.held slot filled, rfl⟩, rfl⟩
  · exact .none

def Packed (rotation : Rotation) (fresh used : Packing) : Prop :=
  rotation.Fits fresh.tx ∧ used = rotation.packing fresh ∧
    ∀ slot ∈ fresh.sdusIndex, rotation.Reached fresh.tx.nextSduIndex slot

theorem Fits.testFill {fuel room liLength : Nat} {packing : Packing}
    (fits : rotation.Fits packing.tx) (bounded : slot < rlcAmSduControlBufferSize)
    (reached : ∀ slot ∈ packing.sdusIndex, rotation.Reached packing.tx.nextSduIndex slot) :
    Rel rotation.Packed (RlcAm.testFill fuel packing slot room liLength)
      (RlcAm.testFill fuel (rotation.packing packing) (rotation.turn slot) room liLength) := by
  induction fuel generalizing packing slot room liLength with
  | zero => exact .some ⟨fits, rfl, reached⟩
  | succ fuel ih =>
    rw [RlcAm.testFill, RlcAm.testFill]
    simp only [packing_tx, tx_inputSdus, sdu_memBlock]
    split
    · exact .some ⟨fits, rfl, reached⟩
    next filled =>
      have here : rotation.Reached packing.tx.nextSduIndex slot := by
        refine fits.held slot ?_
        simpa [isSome_iff_ne_none] using filled
      refine rel_bind fits.recordPdu ?_
      rintro fresh _ ⟨⟨freshFits, rfl⟩, next⟩
      have visited : ∀ index ∈ packing.sdusIndex ++ [slot],
          rotation.Reached fresh.nextSduIndex index := by
        rw [next]
        intro index mem
        rcases List.mem_append.mp mem with earlier | last
        · exact reached index earlier
        · rw [List.mem_singleton.mp last]
          exact here
      have appended : (packing.sdusIndex.map rotation.turn) ++ [rotation.turn slot] =
          (packing.sdusIndex ++ [slot]).map rotation.turn := by
        simp
      simp only [packing_sdusIndex, sdu_sduRemainingSize, List.length_map,
        packing_pduRemainingSize, packing_numLi, appended]
      split
      · exact .some ⟨freshFits, rfl, visited⟩
      · split
        · exact .some ⟨freshFits, rfl, visited⟩
        · split
          · split
            · exact .some ⟨freshFits, rfl, visited⟩
            · rw [← rotation.turn_next bounded]
              refine ih ?_ (nextSlot_lt slot) ?_
              · exact freshFits
              · exact visited
          · exact .some ⟨freshFits, rfl, visited⟩

end Rotation

theorem passSdu_of_filled {rest : Nat}
    (filled : (tx.inputSdus tx.currentSduIndex).memBlock.isSome) :
    tx.passSdu rest =
      { tx.setSdu tx.currentSduIndex
          { tx.inputSdus tx.currentSduIndex with memBlock := none, sduRemainingSize := 0 } with
        sduBufferOccupancy := tx.sduBufferOccupancy - rest
        nbSduNoSegmented := tx.nbSduNoSegmented - 1
        currentSduIndex := nextSlot tx.currentSduIndex } := by
  simp only [passSdu, freeInSduData, filled, if_true]
  rfl

theorem Rotation.Fits.passSdu {rest : Nat} (fits : rotation.Fits tx)
    (filled : (tx.inputSdus tx.currentSduIndex).memBlock.isSome) :
    rotation.Alike (tx.passSdu rest) ((rotation.tx tx).passSdu rest) := by
  have reached := fits.held _ filled
  let passed : TxSdu :=
    { tx.inputSdus tx.currentSduIndex with memBlock := none, sduRemainingSize := 0 }
  have emptied : rotation.Fits (tx.setSdu tx.currentSduIndex passed) := fits.setSdu nofun
  have slot := rotation.tx_current tx
  have stored : (rotation.tx tx).setSdu (rotation.tx tx).currentSduIndex
      (rotation.sdu tx.currentSduIndex passed) =
        rotation.tx (tx.setSdu tx.currentSduIndex passed) :=
    rotation.tx_setSdu tx tx.currentSduIndex passed
  have moves : nextSlot (rotation.tx tx).currentSduIndex =
      rotation.turn (nextSlot tx.currentSduIndex) := (rotation.turn_next fits.current).symm
  rw [passSdu_of_filled filled, passSdu_of_filled (slot ▸ filled), slot, moves]
  refine ⟨⟨emptied.next, nextSlot_lt _, fun other stale => ?_, emptied.held, emptied.slots⟩, ?_⟩
  · have below := reached.2 other stale
    have nextLt := fits.next
    have order := fits.order other stale
    exact show nextSlot tx.currentSduIndex ≤ tx.nextSduIndex ∧ tx.nextSduIndex ≤ other by
      rw [nextSlot_of_lt (by omega)]
      omega
  · exact congrArg (fun placed : Transmitter =>
      { placed with
        sduBufferOccupancy := tx.sduBufferOccupancy - rest
        nbSduNoSegmented := tx.nbSduNoSegmented - 1
        currentSduIndex := rotation.turn (nextSlot tx.currentSduIndex) }) stored

theorem Rotation.Fits.cutSdu {room : Nat} (fits : rotation.Fits tx) :
    rotation.Alike (tx.cutSdu room) ((rotation.tx tx).cutSdu room) := by
  have slot := rotation.tx_current tx
  let cut : TxSdu :=
    { tx.inputSdus tx.currentSduIndex with
      sduRemainingSize := (tx.inputSdus tx.currentSduIndex).sduRemainingSize - room
      sduSegmentedSize := (tx.inputSdus tx.currentSduIndex).sduSegmentedSize + room }
  have stored : (rotation.tx tx).setSdu (rotation.turn tx.currentSduIndex)
      (rotation.sdu tx.currentSduIndex cut) = rotation.tx (tx.setSdu tx.currentSduIndex cut) :=
    rotation.tx_setSdu tx tx.currentSduIndex cut
  have cutFits : rotation.Fits (tx.setSdu tx.currentSduIndex cut) :=
    fits.setSdu fun filled => fits.held tx.currentSduIndex filled
  refine ⟨{ cutFits with }, ?_⟩
  rw [Transmitter.cutSdu, slot]
  exact congrArg (fun placed : Transmitter =>
    { placed with sduBufferOccupancy := tx.sduBufferOccupancy - room }) stored

namespace Rotation

theorem filling_writeLi (rotation : Rotation) (filling : Filling) (testNumLi rest : Nat) :
    (rotation.filling filling).writeLi testNumLi rest =
      rotation.filling (filling.writeLi testNumLi rest) := by
  simp only [Filling.writeLi, apply_ite rotation.filling]
  rfl

theorem Fits.fill {testNumLi fuel : Nat} {filling : Filling} (fits : rotation.Fits filling.tx) :
    rotation.Fits (RlcAm.fill testNumLi fuel filling).tx ∧
      RlcAm.fill testNumLi fuel (rotation.filling filling) =
        rotation.filling (RlcAm.fill testNumLi fuel filling) := by
  induction fuel generalizing filling with
  | zero => exact ⟨fits, rfl⟩
  | succ fuel ih =>
    have slot := rotation.tx_current filling.tx
    cases held : (filling.tx.inputSdus filling.tx.currentSduIndex).memBlock with
    | none =>
      rw [fill_free held, fill_free (slot ▸ held)]
      exact ⟨fits, rfl⟩
    | some octets =>
      have filled : (filling.tx.inputSdus filling.tx.currentSduIndex).memBlock.isSome :=
        isSome_of_eq_some held
      have freed : ∀ (taken : Filling) (rest : Nat), taken.tx = filling.tx →
          rotation.Fits (taken.freeSdu rest).tx ∧
            (rotation.filling taken).freeSdu rest = rotation.filling (taken.freeSdu rest) := by
        intro taken rest same
        rw [← same] at filled fits
        obtain ⟨passedFits, passed⟩ := @Fits.passSdu rotation taken.tx rest fits filled
        refine ⟨passedFits, ?_⟩
        simp only [Filling.freeSdu, filling_tx, passed]
        rfl
      rw [fill_succ rfl filled, @fill_succ _ _ (rotation.filling filling) _ slot filled]
      simp only [Filling.liRound, sdu_memBlock, sdu_sduRemainingSize, sdu_sduSegmentedSize,
        filling_pduRemainingSize, filling_liLength, filling_fillNumLi]
      generalize (filling.tx.inputSdus filling.tx.currentSduIndex).sduRemainingSize = rest
      generalize (filling.tx.inputSdus filling.tx.currentSduIndex).sduSegmentedSize = offset
      generalize (filling.tx.inputSdus filling.tx.currentSduIndex).memBlock.getD [] = octets
      split
      · obtain ⟨cutFits, cut⟩ :=
          @Fits.cutSdu rotation filling.tx filling.pduRemainingSize fits
        refine ⟨cutFits, ?_⟩
        simp only [filling_tx, cut]
        rfl
      · split
        · have between := freed ((filling.copy octets offset rest).writeLi testNumLi rest)
            rest (writeLi_tx _ _ _)
          rw [← filling_writeLi] at between
          have moved := congrArg (fun taken : Filling =>
            { taken with
              data := filling.data + rest
              pduRemainingSize := filling.pduRemainingSize -
                (rest + (filling.liLength ^^^ 3)) }) between.2
          refine (congrArg (fun taken => _ ∧ RlcAm.fill testNumLi fuel taken = _) moved).mpr ?_
          exact ih between.1
        · have last := freed (filling.copy octets offset rest) rest rfl
          exact ⟨last.1, congrArg (fun taken : Filling =>
            { taken with
              pduRemainingSize := if rest + (filling.liLength ^^^ 3) < filling.pduRemainingSize
                then 0 else filling.pduRemainingSize - rest
              lastByteIsLastOfSdu := true }) last.2⟩

end Rotation

namespace Rotation

theorem Fits.enterPdu {tbSize : Nat} {pdu : TxPdu} (fits : rotation.Fits tx)
    (reached : ∀ slot ∈ pdu.sdusIndex, rotation.Reached tx.nextSduIndex slot) :
    rotation.Sent
      (Transmitter.retransmitGetCopy
        { tx.setPdu vtS pdu with
          retransNumPdus := tx.retransNumPdus + 1
          retransNumBytes := tx.retransNumBytes + tbSize } now vtS)
      (Transmitter.retransmitGetCopy
        { (rotation.tx tx).setPdu vtS (rotation.pdu pdu) with
          retransNumPdus := tx.retransNumPdus + 1
          retransNumBytes := tx.retransNumBytes + tbSize } now vtS) := by
  have stored : rotation.Fits (tx.setPdu vtS pdu) := fits.setPdu reached
  rw [tx_setPdu]
  exact @Fits.retransmitGetCopy rotation { tx.setPdu vtS pdu with
    retransNumPdus := tx.retransNumPdus + 1
    retransNumBytes := tx.retransNumBytes + tbSize } now vtS { stored with }

theorem Fits.finishPdu {size : Nat} {firstIsFirst : Bool} (fits : rotation.Fits filling.tx)
    (reached : ∀ slot ∈ sdusIndex, rotation.Reached filling.tx.nextSduIndex slot) :
    Rel rotation.Sent (tx.finishPdu now size payload firstIsFirst sdusIndex filling)
      ((rotation.tx tx).finishPdu now size payload firstIsFirst (sdusIndex.map rotation.turn)
        (rotation.filling filling)) := by
  let numbered : Transmitter := { filling.tx with vtS := nextSn tx.vtS }
  have only := pduPolling_onlyPolls numbered now
  have polled := rotation.tx_pduPolling numbered now
  have next := fun octets size => (only octets size).kept Transmitter.nextSduIndex
  have numberedFits : rotation.Fits numbered := { fits with }
  simp only [Transmitter.finishPdu, filling_memory, filling_lastByteIsLastOfSdu, filling_fillNumLi,
    filling_pduRemainingSize, filling_payloadSize, tx_vtS]
  split
  · have moved :
        { (rotation.filling filling).tx with vtS := nextSn tx.vtS } = rotation.tx numbered :=
      rfl
    rw [moved, polled]
    exact .some (Fits.enterPdu (numberedFits.onlyPolls (only _ _)) fun slot mem =>
      (congrArg (fun index => rotation.Reached index slot) (next _ _)).mpr (reached slot mem))
  · exact .none

theorem Fits.segment10 {requested : Nat} (fits : rotation.Fits tx) :
    Rel rotation.Sent (tx.segment10 now requested block)
      ((rotation.tx tx).segment10 now requested block) := by
  have size : (rotation.tx tx).dataPduSize requested = tx.dataPduSize requested := rfl
  simp only [Transmitter.segment10, tx_sduBufferOccupancy, tx_currentSduIndex,
    tx_inputSdus, sdu_memBlock, size, sdu_sduRemainingSize, sdu_sduSize]
  split
  · exact .some ⟨⟨fits, rfl⟩, rfl⟩
  · split
    · exact .none
    · have packed := @Fits.testFill rotation tx.currentSduIndex rlcAmMaxSduInPdu
        (tx.dataPduSize requested - rlcAmHeaderMinSize) 1
        ⟨tx, [], tx.dataPduSize requested - rlcAmHeaderMinSize, 0, 0, 0⟩ fits fits.current
        fun _ mem => absurd mem List.not_mem_nil
      refine rel_bind packed ?_
      rintro fresh _ ⟨freshFits, rfl, reached⟩
      let start : Filling :=
        { tx := fresh.tx
          memory := store block 0 [0, 0, 0, 0]
          data := rlcAmHeaderMinSize + ((fresh.numLi - fresh.numLiToSubstract) * 3 + 1) / 2
          eLi := rlcAmHeaderMinSize
          liLength := 1
          fillNumLi := 0
          pduRemainingSize := fresh.pduRemainingSize - fresh.sizeToSubstract
          payloadSize := 0
          lastByteIsLastOfSdu := false }
      obtain ⟨filledFits, filled⟩ := @Fits.fill rotation
        (fresh.numLi - fresh.numLiToSubstract) rlcAmMaxSduInPdu start freshFits
      refine (congrArg (fun filling => Rel rotation.Sent _
        (Transmitter.finishPdu (rotation.tx tx) now _ _ _ _ filling)) filled).mpr ?_
      have next := fill_nextSduIndex (fresh.numLi - fresh.numLiToSubstract) rlcAmMaxSduInPdu start
      exact filledFits.finishPdu fun slot mem => next ▸ reached slot mem

end Rotation

end Segmenting

/-! PDUs sent again. -/

theorem Rotation.pdu_removeHole (rotation : Rotation) (pdu : TxPdu) (soStart soStop : Int) :
    (rotation.pdu pdu).removeHole soStart soStop =
      (pdu.removeHole soStart soStop).map rotation.pdu := by
  simp only [TxPdu.removeHole, apply_ite (Option.map rotation.pdu), map_some,
    map_none, Option.map_bind, Function.comp_def]
  rfl

theorem Rotation.pdu_stopped (rotation : Rotation) (pdu : TxPdu) :
    (rotation.pdu pdu).stopped = rotation.pdu pdu.stopped := by
  simp only [TxPdu.stopped, apply_ite rotation.pdu]
  rfl

theorem Rotation.pdu_passed (rotation : Rotation) (pdu : TxPdu) (plan : SegmentPlan) :
    (rotation.pdu pdu).passed plan = rotation.pdu (pdu.passed plan) := by
  simp only [TxPdu.passed, apply_ite rotation.pdu]
  rfl

def TxPdu.segmentOctets (pdu : TxPdu) (octets : List UInt8) (plan : SegmentPlan) : List UInt8 :=
  let lastSegment := decide (plan.pduCopySize + plan.startOffset = pdu.stopped.payloadSize)
  [UInt8.ofNat ((octetAt octets 0 &&& 0x83) ||| 0x40 |||
      (((plan.notFi <<< 3) ^^^ 0x18) &&& 0x18) ||| (if plan.liList = [] then 0 else 0x04)),
    UInt8.ofNat (octetAt octets 1),
    UInt8.ofNat (pdu.nackSoStart.toNat >>> 8 ||| (if lastSegment then 0x80 else 0)),
    UInt8.ofNat pdu.nackSoStart.toNat] ++ liOctets plan.liList ++
    payloadOctets octets (pdu.stopped.payload + plan.startOffset.toNat) plan.pduCopySize.toNat

section Resending

variable {rotation : Rotation} {tx other : Transmitter} {now frame sn requested : Nat}

theorem retransmitGetSubsegment_steps (tx : Transmitter) (now sn : Nat) (size : Int) :
    tx.retransmitGetSubsegment now sn size =
      (tx.pduRetransBuffer sn).memBlock.bind fun octets =>
        (getDataPduInfos octets).bind fun info =>
          ((tx.pduRetransBuffer sn).stopped.planSegment info (size - 4)).bind fun plan =>
            (((tx.pduRetransBuffer sn).stopped.passed plan).removeHole plan.startOffset
                (plan.pduCopySize + plan.startOffset - 1)).map fun pdu =>
              (tx.setPdu sn pdu).pduPolling now
                ((tx.pduRetransBuffer sn).segmentOctets octets plan) plan.pduCopySize :=
  rfl

namespace Rotation

theorem Fits.retransmitGetSubsegment {size : Int} (fits : rotation.Fits tx) :
    Rel rotation.Sent (tx.retransmitGetSubsegment now sn size)
      ((rotation.tx tx).retransmitGetSubsegment now sn size) := by
  have stopped : (rotation.pdu (tx.pduRetransBuffer sn)).stopped =
      rotation.pdu (tx.pduRetransBuffer sn).stopped := rotation.pdu_stopped _
  have planned :
      ∀ info, (rotation.pdu (tx.pduRetransBuffer sn).stopped).planSegment info (size - 4) =
      (tx.pduRetransBuffer sn).stopped.planSegment info (size - 4) := fun _ => rfl
  have written : ∀ octets plan, (rotation.pdu (tx.pduRetransBuffer sn)).segmentOctets octets plan =
      (tx.pduRetransBuffer sn).segmentOctets octets plan := by
    intro octets plan
    simp only [TxPdu.segmentOctets, stopped]
    rfl
  rw [retransmitGetSubsegment_steps, retransmitGetSubsegment_steps]
  simp only [tx_pduRetransBuffer, pdu_memBlock, stopped, planned, written,
    pdu_passed, pdu_removeHole, map_map]
  refine rel_bind (rel_eq _) ?_
  rintro octets _ rfl
  refine rel_bind (rel_eq _) ?_
  rintro info _ rfl
  refine rel_bind (rel_eq _) ?_
  rintro plan _ rfl
  cases removed : ((tx.pduRetransBuffer sn).stopped.passed plan).removeHole plan.startOffset
      (plan.pduCopySize + plan.startOffset - 1) with
  | none => exact .none
  | some pdu =>
    have slots : pdu.sdusIndex = (tx.pduRetransBuffer sn).sdusIndex :=
      TxPdu.segmented_kept removed TxPdu.sdusIndex fun _ _ => rfl
    have stored : rotation.Fits (tx.setPdu sn pdu) := fits.setPdu (slots ▸ fits.slots sn)
    simp only [map_some, Function.comp_apply, tx_setPdu]
    exact .some stored.pduPolling

end Rotation

theorem outstandingDown_congr {start : Nat} (vtA : other.vtA = tx.vtA)
    (held : ∀ sn, (other.pduRetransBuffer sn).memBlock = (tx.pduRetransBuffer sn).memBlock) :
    other.outstandingDown fuel start = tx.outstandingDown fuel start := by
  induction fuel generalizing start with
  | zero => rfl
  | succ fuel ih => simp only [outstandingDown, vtA, held, ih]

namespace Rotation

theorem Fits.retransmitFound {requested : Int} {whole part : Option Nat} (fits : rotation.Fits tx) :
    Rel rotation.Sent (tx.retransmitFound now frame requested whole part)
      ((rotation.tx tx).retransmitFound now frame requested whole part) := by
  cases whole with
  | some sn =>
    refine rel_map fits.nackPdu ?_
    rintro fresh _ ⟨freshFits, rfl⟩
    obtain ⟨⟨copied, moved⟩, same⟩ := @Fits.retransmitGetCopy rotation fresh now sn
      freshFits
    simp only [moved, ← same]
    exact copied.resent
  | none =>
    cases part with
    | none => exact .some ⟨⟨fits, rfl⟩, rfl⟩
    | some sn =>
      simp only [Transmitter.retransmitFound]
      split
      · refine rel_bind fits.nackPdu ?_
        rintro fresh _ ⟨freshFits, rfl⟩
        refine rel_map freshFits.retransmitGetSubsegment ?_
        rintro ⟨cut, segment⟩ ⟨used, _⟩ ⟨⟨cutFits, moved⟩, same⟩
        obtain rfl : used = rotation.tx cut := moved
        cases same
        exact cutFits.resent
      · exact .some ⟨⟨fits, rfl⟩, rfl⟩

theorem Fits.retransmitAnyPdu {requested : Int} (fits : rotation.Fits tx) :
    Rel rotation.Sent (tx.retransmitAnyPdu now frame requested)
      ((rotation.tx tx).retransmitAnyPdu now frame requested) := by
  have held : ∀ fuel start, (rotation.tx tx).outstandingDown fuel start =
      tx.outstandingDown fuel start := fun _ _ => outstandingDown_congr rfl fun _ => rfl
  simp only [Transmitter.retransmitAnyPdu, held, tx_vtS, tx_pduRetransBuffer,
    pdu_headerAndPayloadSize]
  exact fits.retransmitFound

end Rotation

theorem seekMarked_congr {pdus others : Nat → TxPdu}
    (same : ∀ sn, (others sn).retransmit = (pdus sn).retransmit) :
    seekMarked others vtS fuel sn = seekMarked pdus vtS fuel sn := by
  induction fuel generalizing sn with
  | zero => rfl
  | succ fuel ih => simp only [seekMarked, same, ih]

namespace Rotation

theorem Fits.retransmitPdu {requested : Int} (fits : rotation.Fits tx) :
    Rel (Rel rotation.Sent) (tx.retransmitPdu now sn requested)
      ((rotation.tx tx).retransmitPdu now sn requested) := by
  simp only [Transmitter.retransmitPdu, tx_pduRetransBuffer,
    pdu_headerAndPayloadSize, pdu_retxCount, pdu_nackSoStart,
    pdu_nackSoStop]
  split
  · obtain ⟨⟨copied, moved⟩, same⟩ := @Fits.retransmitGetCopy rotation tx now sn fits
    simp only [moved, ← same, tx_pduRetransBuffer]
    generalize (tx.retransmitGetCopy now sn).1 = copy at copied
    let counted := { copy.pduRetransBuffer sn with
      retxCount := asInt8 ((copy.pduRetransBuffer sn).retxCount + 1) }
    have stored : rotation.Fits (copy.setPdu sn counted) := copied.setPdu (copied.slots sn)
    exact .some (.some ⟨⟨stored, rotation.tx_setPdu copy sn counted⟩, rfl⟩)
  · split
    · refine rel_map fits.retransmitGetSubsegment ?_
      rintro ⟨cut, segment⟩ ⟨used, _⟩ ⟨⟨cutFits, moved⟩, same⟩
      obtain rfl : used = rotation.tx cut := moved
      cases same
      have found : seekMarked (rotation.tx cut).pduRetransBuffer cut.vtS rlcAmSnModulo sn =
          seekMarked cut.pduRetransBuffer cut.vtS rlcAmSnModulo sn := seekMarked_congr fun _ => rfl
      simp only [tx_vtS, found]
      exact .some ⟨⟨{ cutFits with },
        rfl⟩, rfl⟩
    · exact .some .none

theorem Fits.newPdus (fits : rotation.Fits tx) :
    Rel rotation.Sent (tx.newPdus now frame requested block)
      ((rotation.tx tx).newPdus now frame requested block) := by
  have segmented : Rel rotation.Sent
      (if requested > 2 ∧ tx.vtS ≠ tx.vtMs then tx.segment10 now requested block
        else some (tx, none))
      (if requested > 2 ∧ tx.vtS ≠ tx.vtMs then (rotation.tx tx).segment10 now requested block
        else some (rotation.tx tx, none)) := by
    split
    · exact fits.segment10
    · exact .some ⟨⟨fits, rfl⟩, rfl⟩
  refine rel_bind segmented ?_
  rintro ⟨made, pdu⟩ ⟨used, _⟩ ⟨⟨madeFits, moved⟩, same⟩
  obtain rfl : used = rotation.tx made := moved
  cases same
  simp only [tx_tPollRetransmit]
  split
  · exact madeFits.retransmitAnyPdu
  · exact .some ⟨⟨madeFits, rfl⟩, rfl⟩

theorem Fits.getPdus (fits : rotation.Fits tx) :
    Rel rotation.Sent (tx.getPdus now frame requested block)
      ((rotation.tx tx).getPdus now frame requested block) := by
  simp only [Transmitter.getPdus, tx_firstRetransPduSn, tx_vtS]
  split
  · refine rel_bind fits.retransmitPdu ?_
    intro sent sentToo results
    cases results with
    | none => exact fits.newPdus
    | some same => exact .some same
  · exact fits.newPdus

end Rotation

end Resending

end OpenAir.RlcAm
