import OpenAir.RlcAm.Entity
import OpenAir.RlcAm.PduSizes
import OpenAir.RlcAm.Resegmentation
import OpenAir.RlcAm.StatusRoundTrip

/-! The PDUs that an entity makes for a grant are no longer than the grant. Every
way to make one has its own account: the STATUS PDU counts bits, a segment the
octets left behind its header and length indicators, and a PDU sent again the
size recorded with it. -/

set_option autoImplicit false

namespace OpenAir.RlcAm

open OpenAir.Base List Option TxPdu Entity Resegmenting StatusDraft

/-! STATUS PDUs. -/

variable {draft : StatusDraft} {rx : Receiver} {state : Resegmenting} {pdu : TxPdu}
  {segment : List UInt8} {copy : Option (List UInt8)} {block : Nat → UInt8}
  {pdus : List (List UInt8)}

section Status

variable {requested : Nat}

def Pushing.All {α : Type} (ended : StatusDraft → Prop) (goesOn : α → Prop) : Pushing α → Prop
  | .ok value => goesOn value
  | .error (_, draft) => ended draft

theorem Pushing.All.bind {α β : Type} {ended : StatusDraft → Prop} {middle : α → Prop}
    {goesOn : β → Prop} {first : Pushing α} {second : α → Pushing β}
    (all : Pushing.All ended middle first)
    (rest : ∀ value, middle value → Pushing.All ended goesOn (second value)) :
    Pushing.All ended goesOn (first.bind second) := by
  cases first with
  | ok value => exact rest value all
  | error left => exact all

structure StatusDraft.Fits (requested : Nat) (draft : StatusDraft) : Prop where
  left : 0 ≤ draft.nbBitsToTransmit
  account : 15 + itemsWidth draft.nackList + draft.nbBitsToTransmit = 8 * requested

theorem itemsWidth_append (items others : List StatusItem) :
    itemsWidth (items ++ others) = itemsWidth items + itemsWidth others := by
  simp [itemsWidth]

namespace StatusDraft

variable (fits : draft.Fits requested)

include fits

theorem Fits.pushSn (sn : Nat) (room : draft.nbBitsToTransmit ≥ 12) :
    (draft.pushSn sn).Fits requested := by
  obtain ⟨left, account⟩ := fits
  have width : itemsWidth [⟨Fin.ofNat _ sn, true, false, 0, 0x7FF⟩] = 12 := rfl
  constructor
  · simp only [StatusDraft.pushSn]
    omega
  · simp only [StatusDraft.pushSn, itemsWidth_append, width]
    omega

theorem Fits.pushSo (sn : Nat) (soStart soEnd : Int) (room : draft.nbBitsToTransmit ≥ 42) :
    (draft.pushSo sn soStart soEnd).Fits requested := by
  obtain ⟨left, account⟩ := fits
  have width : itemsWidth [⟨Fin.ofNat _ sn, true, true, soField soStart, soField soEnd⟩] = 42 := rfl
  constructor
  · simp only [StatusDraft.pushSo]
    omega
  · simp only [StatusDraft.pushSo, itemsWidth_append, width]
    omega

theorem Fits.passSegments (cursor : RxPdu) (rest : List RxPdu) :
    Pushing.All (StatusDraft.Fits requested) (fun _ => True) (draft.passSegments cursor rest) := by
  induction rest generalizing cursor with
  | nil =>
    rw [StatusDraft.passSegments]
    split
    · exact fits
    · trivial
  | cons next rest ih =>
    rw [StatusDraft.passSegments]
    split
    · exact ih next
    · trivial

theorem Fits.nackMissing (sn fuel : Nat) :
    Pushing.All (Fits requested) (Fits requested)
      (nackMissing sn fuel draft) := by
  induction fuel generalizing draft with
  | zero => exact fits
  | succ fuel ih =>
    rw [nackMissing]
    split
    · exact fits
    · split
      next room =>
        have pushed := fits.pushSn (nextSn draft.previousSn) (by omega)
        exact ih ⟨pushed.left, pushed.account⟩
      · exact fits

theorem Fits.nackBefore (waitedSo : Int) (info : PduInfo) :
    Pushing.All (StatusDraft.Fits requested) (StatusDraft.Fits requested)
      (draft.nackBefore waitedSo info) := by
  rw [StatusDraft.nackBefore]
  split
  · split
    next room => exact fits.pushSo _ _ _ room
    · exact fits
  · exact fits

theorem Fits.nackBehind (waitedSo : Int) :
    Pushing.All (StatusDraft.Fits requested) (StatusDraft.Fits requested)
      (draft.nackBehind waitedSo) := by
  rw [StatusDraft.nackBehind]
  split
  · split
    next room => exact fits.pushSo _ _ _ room
    · exact fits
  · exact fits

theorem Fits.nackSegments (waitedSo : Int) (cursor : RxPdu) (rest : List RxPdu) :
    Pushing.All (Fits requested) (fun result => result.1.Fits requested)
      (nackSegments waitedSo cursor rest draft) := by
  induction rest generalizing draft waitedSo cursor with
  | nil =>
    exact (fits.nackBefore waitedSo cursor.info).bind fun draft fits => fits
  | cons next rest ih =>
    refine (fits.nackBefore waitedSo cursor.info).bind fun draft fits => ?_
    have moved : Fits requested { draft with previousSn := cursor.info.sn } :=
      ⟨fits.left, fits.account⟩
    split
    · exact ih moved _ next
    · exact (moved.nackBehind cursor.info.waitedSo).bind fun draft fits => fits

theorem Fits.pushNacks (cursor : RxPdu) (rest : List RxPdu) :
    Pushing.All (Fits requested) (fun result => result.1.Fits requested)
      (draft.pushNacks cursor rest) := by
  refine (fits.passSegments cursor rest).bind fun found _ => ?_
  refine (fits.nackMissing found.1.info.sn rlcAmSnModulo).bind fun draft fits => ?_
  split
  · exact ⟨fits.left, fits.account⟩
  · exact fits.nackSegments 0 _ _

theorem Fits.walk (fuel : Nat) (buffer : List RxPdu) :
    (walk fuel draft buffer).2.Fits requested := by
  induction fuel generalizing draft buffer with
  | zero => exact fits
  | succ fuel ih =>
    cases buffer with
    | nil => exact fits
    | cons cursor rest =>
      have pushed := fits.pushNacks cursor rest
      rw [walk]
      split
      · cases result : draft.pushNacks cursor rest with
        | ok next =>
          rw [result] at pushed
          exact ih pushed next.2
        | error ended =>
          rw [result] at pushed
          exact pushed
      · exact fits

end StatusDraft

theorem Receiver.draftStatus_fits {ackSn : Nat} (grant : 2 < requested)
    (drafted : rx.draftStatus requested = some (ackSn, draft)) :
    draft.Fits requested := by
  have empty : ∀ previousSn, Fits requested ⟨8 * requested - 15, previousSn, []⟩ := by
    intro previousSn
    have width : itemsWidth [] = 0 := rfl
    exact ⟨by simp only; omega, by simp only [width]; omega⟩
  simp only [Receiver.draftStatus] at drafted
  split at drafted
  · cases drafted
    exact empty _
  · obtain ⟨⟨previousSn, buffer⟩, -, walked⟩ := map_eq_some_iff.mp drafted
    have fits := (empty previousSn).walk buffer.length buffer
    rw [walked] at fits
    exact fits

theorem itemsWidth_closeNackList (items : List StatusItem) :
    itemsWidth (closeNackList items) = itemsWidth items := by
  induction items with
  | nil => rfl
  | cons item rest ih =>
    cases rest with
    | nil => rfl
    | cons next rest =>
      rw [closeNackList]
      simp only [itemsWidth, map_cons, sum_cons] at ih ⊢
      omega

theorem StatusDraft.Fits.pduSize (fits : draft.Fits requested) (ackSn : Nat) :
    ((writeStatusPdu (fun _ => 0) (draft.statusPdu ackSn)).2 : Int) =
      requested - draft.nbBitsToTransmit / 8 := by
  have size := (writeStatusPdu_stands (draft.statusPdu ackSn)).size
  have width : itemsWidth (draft.statusPdu ackSn).nackList = itemsWidth draft.nackList :=
    itemsWidth_closeNackList draft.nackList
  have account := fits.account
  omega

theorem Receiver.sendStatusPdu_length_le {pdu : List UInt8} (grant : 2 < requested)
    (sent : rx.sendStatusPdu requested = some pdu) :
    pdu.length ≤ requested := by
  obtain ⟨⟨ackSn, draft⟩, drafted, written⟩ := bind_eq_some_iff.mp sent
  obtain ⟨-, made⟩ := ite_none_right_eq_some.mp written
  obtain rfl := some.inj made
  have fits := Receiver.draftStatus_fits grant drafted
  have size := fits.pduSize ackSn
  have left := fits.left
  rw [length_load]
  omega

end Status

/-! Segments of PDUs. -/

section Segments

variable {size : Int}

structure Resegmenting.Granted (size : Int) (state : Resegmenting) : Prop where
  copied : 0 ≤ state.pduCopySize
  liLength : state.liLength = if state.liList.length % 2 = 0 then 1 else 2
  within : liSpace false state.liList.length + state.pduCopySize ≤ size
  account : state.continues →
    liSpace false state.liList.length + state.pduCopySize + state.pduRemainingSize = size

theorem Resegmenting.Granted.takeSdu {next : Resegmenting} (within : state.Granted size)
    (goesOn : state.continues) (starts : state.startOffset < state.liSum)
    (room : state.maxCopyPayloadSize ≤ state.pduRemainingSize) (taken : state.takeSdu = some next) :
    next.Granted size := by
  obtain ⟨copied, liLength, -, account⟩ := within
  have account := account goesOn
  simp only [Resegmenting.takeSdu] at taken
  split at taken
  · obtain ⟨some_, stored⟩ := ite_none_right_eq_some.mp taken
    cases stored
    exact ⟨by simp only; omega, liLength, by simp only; omega, fun ended => by cases ended⟩
  · split at taken
    · cases taken
      have space : liSpace false (state.liList.length + 1) =
          liSpace false state.liList.length + (state.liLength ^^^ 3) := by
        rw [liLength]
        simp only [liSpace, Bool.false_eq_true, if_false]
        split
        · simp only [Nat.reduceXor]
          omega
        · simp only [Nat.reduceXor]
          omega
      refine ⟨by simp only; omega, ?_, ?_, fun _ => ?_⟩
      · rw [length_append, length_singleton, liLength]
        split
        · rw [if_neg (by omega)]
          rfl
        · rw [if_pos (by omega)]
          rfl
      · rw [length_append, length_singleton, space]
        push_cast
        omega
      · rw [length_append, length_singleton, space]
        push_cast
        omega
    · cases taken
      exact ⟨by simp only; omega, liLength, by simp only; omega, fun ended => by cases ended⟩

theorem Resegmenting.Granted.overLis {final : Resegmenting} {lis : List Nat}
    (within : state.Granted size) (taken : state.overLis lis = some final) :
    final.Granted size := by
  induction lis generalizing state with
  | nil =>
    cases taken
    exact within
  | cons li lis ih =>
    simp only [overLis] at taken
    split at taken
    · cases taken
      exact within
    next goesOn =>
      rw [Bool.not_eq_false] at goesOn
      obtain ⟨-, taken⟩ := ite_none_right_eq_some.mp taken
      obtain ⟨copied, liLength, inside, account⟩ := within
      split at taken
      next starts =>
        obtain ⟨next, took, rest⟩ := bind_eq_some_iff.mp taken
        refine ih (Granted.takeSdu ?_ ?_ ?_ ?_ took) rest
        · exact ⟨copied, liLength, inside, account⟩
        · exact goesOn
        · exact starts
        · exact Int.min_le_right ..
      · split at taken
        · refine ih ?_ taken
          exact ⟨copied, liLength, inside, account⟩
        · refine ih ?_ taken
          exact ⟨copied, liLength, inside, account⟩

theorem Resegmenting.Granted.takeHidden (within : state.Granted size) (hiddenSize : Int)
    (notFiOriginal : Nat) :
    liSpace false (state.takeHidden hiddenSize notFiOriginal).liList.length +
      ((state.takeHidden hiddenSize notFiOriginal).pduCopySize.toNat : Int) ≤ size := by
  obtain ⟨copied, -, inside, account⟩ := within
  simp only [Resegmenting.takeHidden]
  split
  next goesOn =>
    have account := account goesOn.1
    split
    · simp only
      omega
    · simp only
      omega
  · omega

theorem TxPdu.planSegment_within {info : PduInfo} {plan : SegmentPlan}
    (planned : pdu.planSegment info size = some plan) :
    liSpace false plan.liList.length + (plan.pduCopySize.toNat : Int) ≤ size := by
  obtain ⟨⟨-, grant⟩, planned⟩ := ite_none_right_eq_some.mp planned
  split at planned
  · cases planned
    simp only [liSpace, length_nil, Bool.false_eq_true, if_false]
    omega
  · obtain ⟨state, taken, rfl⟩ := map_eq_some_iff.mp planned
    refine (Granted.overLis ?_ taken).takeHidden _ _
    refine ⟨Int.le_refl 0, rfl, ?_, fun _ => ?_⟩
    · simp only [liSpace, length_nil, Bool.false_eq_true, if_false]
      omega
    · simp only [liSpace, length_nil, Bool.false_eq_true, if_false]
      omega

theorem pduPolling_length (tx : Transmitter) (now : Nat) (octets : List UInt8)
    (payloadSize : Int) : (tx.pduPolling now octets payloadSize).2.length = octets.length := by
  obtain ⟨polls, polled⟩ := pduPolling_octets tx now octets payloadSize
  rw [polled, length_set]

theorem retransmitGetSubsegment_length_le {tx other : Transmitter} {now sn : Nat}
    (sent : tx.retransmitGetSubsegment now sn size = some (other, segment)) :
    (segment.length : Int) ≤ size := by
  obtain ⟨octets, -, sent⟩ := bind_eq_some_iff.mp sent
  obtain ⟨info, -, sent⟩ := bind_eq_some_iff.mp sent
  obtain ⟨plan, planned, sent⟩ := bind_eq_some_iff.mp sent
  obtain ⟨pdu, -, polled⟩ := map_eq_some_iff.mp sent
  have within := planSegment_within planned
  have length := congrArg (fun result => result.2.length) polled
  simp only [pduPolling_length, length_append, length_cons, length_nil,
    length_liOctets, payloadOctets, length_map, length_range] at length
  omega

end Segments

/-! PDUs sent again, and new ones. -/

def TxPdu.Measured (pdu : TxPdu) : Prop :=
  ∀ octets ∈ pdu.memBlock, (octets.length : Int) = pdu.headerAndPayloadSize

def Transmitter.Measured (tx : Transmitter) : Prop := ∀ sn, (tx.pduRetransBuffer sn).Measured

section Measured

variable {tx other : Transmitter} {now frame sn requested : Nat}

theorem TxPdu.Measured.of_memBlock_none (free : pdu.memBlock = none) :
    pdu.Measured := by
  intro octets held
  rw [free] at held
  cases held

theorem TxPdu.Measured.congr {changed : TxPdu} (measured : pdu.Measured)
    (memBlock : changed.memBlock = pdu.memBlock)
    (size : changed.headerAndPayloadSize = pdu.headerAndPayloadSize) : changed.Measured := by
  intro octets held
  rw [memBlock] at held
  rw [size]
  exact measured octets held

namespace Transmitter

section

variable (measured : tx.Measured)

include measured

theorem Measured.update (stored : pdu.Measured)
    (pdus : other.pduRetransBuffer = Function.update tx.pduRetransBuffer sn pdu) :
    other.Measured := by
  intro at_
  rw [pdus, Function.update_apply]
  split
  · exact stored
  · exact measured at_

theorem Measured.congr (pdus : other.pduRetransBuffer = tx.pduRetransBuffer) : other.Measured := by
  intro at_
  rw [pdus]
  exact measured at_

theorem Measured.onlyPolls (only : tx.OnlyPolls other) : other.Measured :=
  measured.congr (only.kept pduRetransBuffer)

theorem Measured.onlySdus (only : tx.OnlySdus other) : other.Measured :=
  measured.congr (only.kept pduRetransBuffer)

theorem Measured.onlyFrees (frees : tx.OnlyFrees other) : other.Measured := by
  intro at_
  rcases frees at_ with same | freed
  · rw [same]
    exact measured at_
  · exact .of_memBlock_none freed.1

theorem Measured.retransmitGetCopy {copy : Option (List UInt8)}
    (fits : (tx.pduRetransBuffer sn).headerAndPayloadSize ≤ requested)
    (copied : tx.retransmitGetCopy now sn = (other, copy)) :
    other.Measured ∧ ∀ octets ∈ copy, octets.length ≤ requested := by
  cases held : (tx.pduRetransBuffer sn).memBlock with
  | none =>
    simp only [Transmitter.retransmitGetCopy, held, Prod.mk.injEq] at copied
    obtain ⟨rfl, rfl⟩ := copied
    exact ⟨measured, fun octets impossible => by cases impossible⟩
  | some block =>
    have only := @retransmitGetCopy_spec tx now sn block held
    rw [copied] at only
    have stored : TxPdu.Measured { tx.pduRetransBuffer sn with retransmit := false } :=
      (measured sn).congr rfl rfl
    refine ⟨(measured.update stored rfl).onlyPolls only, fun octets isCopy => ?_⟩
    simp only [Transmitter.retransmitGetCopy, held, Prod.mk.injEq] at copied
    obtain ⟨-, rfl⟩ := copied
    obtain rfl := some.inj isCopy
    have size := measured sn block held
    rw [pduPolling_length]
    omega

theorem Measured.retransmitGetSubsegment {size : Int}
    (sent : tx.retransmitGetSubsegment now sn size = some (other, segment)) : other.Measured := by
  obtain ⟨octets, info, plan, pdu, -, -, -, removed, only⟩ := retransmitGetSubsegment_spec sent
  have stored : pdu.Measured :=
    (measured sn).congr (segmented_kept removed memBlock fun _ _ => rfl)
      (segmented_kept removed headerAndPayloadSize fun _ _ => rfl)
  exact (measured.update stored rfl).onlyPolls only

theorem Measured.nackPdu {soStart soStop : Int}
    (nacked : tx.nackPdu frame sn soStart soStop = some other) :
    other.Measured ∧ (other.pduRetransBuffer sn).headerAndPayloadSize =
      (tx.pduRetransBuffer sn).headerAndPayloadSize := by
  rcases (nackPdu_some nacked).2 with ⟨-, rfl⟩ | ⟨pdu, recorded, pdus⟩
  · exact ⟨measured, rfl⟩
  · obtain ⟨holed, -, only, rfl⟩ := nacked_spec recorded
    have size : holed.countNack.headerAndPayloadSize =
        (tx.pduRetransBuffer sn).headerAndPayloadSize :=
      only.kept headerAndPayloadSize
    refine ⟨measured.update ((measured sn).congr ?_ size) pdus, ?_⟩
    · exact only.kept memBlock
    · rw [pdus, Function.update_self, size]

end

theorem Measured.finishPdu {size payload : Nat} {firstIsFirst : Bool} {sdusIndex : List Nat}
    {filling : Filling} (measured : filling.tx.Measured) (fits : size ≤ requested)
    (sent : tx.finishPdu now size payload firstIsFirst sdusIndex filling = some (other, copy)) :
    other.Measured ∧ ∀ octets ∈ copy, octets.length ≤ requested := by
  simp only [Transmitter.finishPdu, ite_none_right_eq_some] at sent
  obtain ⟨-, copied⟩ := sent
  generalize polling : pduPolling { filling.tx with vtS := nextSn tx.vtS } now _ _ =
    polled at copied
  have length : polled.2.length = size - filling.pduRemainingSize := by
    rw [← polling, pduPolling_length, length_load]
  have before : polled.1.Measured := by
    rw [← polling]
    refine Transmitter.Measured.onlyPolls ?_ (pduPolling_onlyPolls _ now _ _)
    exact measured.congr rfl
  refine Transmitter.Measured.retransmitGetCopy ?_ ?_ (some.inj copied)
  · refine Transmitter.Measured.update before ?_ rfl
    intro octets stored
    obtain rfl := some.inj stored
    rw [length]
  · rw [setPdu_pduRetransBuffer, Function.update_self]
    simp only
    omega

theorem Measured.segment10 (measured : tx.Measured)
    (sent : tx.segment10 now requested block = some (other, copy)) :
    other.Measured ∧ ∀ octets ∈ copy, octets.length ≤ requested := by
  simp only [Transmitter.segment10] at sent
  split at sent
  · cases sent
    exact ⟨measured, fun octets impossible => by cases impossible⟩
  · split at sent
    · cases sent
    · obtain ⟨packing, planned, finished⟩ := bind_eq_some_iff.mp sent
      have packed := (testFill_movesSdus planned).1
      refine Transmitter.Measured.finishPdu ?_ (dataPduSize_le tx requested) finished
      exact measured.onlySdus (fill_movesSdus packed).only

end Transmitter

structure StaysWithin (requested : Nat) (sent : Transmitter × List (List UInt8)) : Prop where
  measured : sent.1.Measured
  total : (sent.2.map List.length).sum ≤ requested

theorem StaysWithin.nothing (measured : tx.Measured) : StaysWithin requested (tx, []) :=
  ⟨measured, Nat.zero_le _⟩

theorem StaysWithin.of_copy (measured : other.Measured)
    (short : ∀ octets ∈ copy, octets.length ≤ requested) :
    StaysWithin requested (other, copy.toList) := by
  refine ⟨measured, ?_⟩
  cases copy with
  | none => exact Nat.zero_le _
  | some octets => simpa using short octets rfl

theorem StaysWithin.of_segment (measured : other.Measured)
    (short : (segment.length : Int) ≤ requested) : StaysWithin requested (other, [segment]) :=
  ⟨measured, by simpa using short⟩

theorem Transmitter.Measured.retransmitPdu (measured : tx.Measured)
    (sent : tx.retransmitPdu now sn requested = some (some (other, pdus))) :
    StaysWithin requested (other, pdus) := by
  simp only [Transmitter.retransmitPdu] at sent
  split at sent
  next whole =>
    rcases copied : tx.retransmitGetCopy now sn with ⟨sending, copy⟩
    obtain ⟨after, short⟩ := measured.retransmitGetCopy whole.1 copied
    rw [copied] at sent
    obtain ⟨rfl, rfl⟩ := Prod.mk.inj (some.inj (some.inj sent))
    refine .of_copy (after.update ?_ rfl) short
    exact (after sn).congr rfl rfl
  · split at sent
    · obtain ⟨⟨sending, segment⟩, taken, moved⟩ := map_eq_some_iff.mp sent
      obtain ⟨rfl, rfl⟩ := Prod.mk.inj (some.inj moved)
      refine .of_segment ?_ (retransmitGetSubsegment_length_le taken)
      exact (measured.retransmitGetSubsegment taken).congr rfl
    · cases sent

theorem StaysWithin.forcePollBit {octets : List UInt8} (measured : tx.Measured)
    (short : (octets.length : Int) ≤ requested) :
    StaysWithin requested
      ((tx.forcePollBit now sn octets).1, [(tx.forcePollBit now sn octets).2]) := by
  refine .of_segment (measured.onlyPolls (forcePollBit_onlyPolls tx now sn octets)) ?_
  simp only [Transmitter.forcePollBit, length_set, pduPolling_length]
  exact short

theorem Transmitter.Measured.retransmitAnyPdu (measured : tx.Measured)
    (sent : tx.retransmitAnyPdu now frame requested = some (other, pdus)) :
    StaysWithin requested (other, pdus) := by
  simp only [Transmitter.retransmitAnyPdu] at sent
  generalize (tx.outstandingDown _ _).head? = first at sent
  cases found : (tx.outstandingDown rlcAmSnModulo
      ((tx.vtS + (rlcAmSnModulo - 1)) % rlcAmSnModulo)).find? fun sn =>
    decide ((tx.pduRetransBuffer sn).headerAndPayloadSize ≤ (requested : Int)) with
  | some sn =>
    have fits : (tx.pduRetransBuffer sn).headerAndPayloadSize ≤ requested := by
      simpa using find?_some found
    rw [found] at sent
    obtain ⟨marked, nacked, copied⟩ := map_eq_some_iff.mp sent
    obtain ⟨before, size⟩ := measured.nackPdu nacked
    rw [← size] at fits
    rcases copying : marked.retransmitGetCopy now sn with ⟨sending, copy⟩
    obtain ⟨after, short⟩ := before.retransmitGetCopy fits copying
    rw [copying] at copied
    obtain ⟨rfl, rfl⟩ := Prod.mk.inj copied
    refine .forcePollBit after ?_
    cases copy with
    | none => exact Int.natCast_nonneg _
    | some octets => exact Int.ofNat_le.mpr (short octets rfl)
  | none =>
    rw [found] at sent
    cases first with
    | none =>
      cases sent
      exact .nothing measured
    | some sn =>
      rw [Transmitter.retransmitFound] at sent
      split at sent
      · obtain ⟨marked, nacked, sent⟩ := bind_eq_some_iff.mp sent
        obtain ⟨⟨sending, segment⟩, taken, forced⟩ := map_eq_some_iff.mp sent
        obtain ⟨rfl, rfl⟩ := Prod.mk.inj forced
        exact .forcePollBit ((measured.nackPdu nacked).1.retransmitGetSubsegment taken)
          (retransmitGetSubsegment_length_le taken)
      · cases sent
        exact .nothing measured

theorem Transmitter.Measured.getPdus (measured : tx.Measured)
    (sent : tx.getPdus now frame requested block = some (other, pdus)) :
    StaysWithin requested (other, pdus) := by
  rcases getPdus_cases sent with ⟨-, -, resent⟩ | ⟨-, -, -, -, copy, made, rfl⟩ |
    ⟨-, -, -, -, -, again⟩ | ⟨-, -, rfl, rfl⟩
  · exact measured.retransmitPdu resent
  · obtain ⟨after, short⟩ := measured.segment10 made
    exact .of_copy after short
  · exact measured.retransmitAnyPdu again
  · exact .nothing measured

theorem Transmitter.Measured.report (measured : tx.Measured) {report : PduReport}
    (done : tx.report frame report = some other) : other.Measured := by
  cases report with
  | ack sn =>
    exact (measured.onlyPolls (stopPoll_onlyPolls tx sn)).onlyFrees (ackPdu_onlyFrees done)
  | nack sn soStart soEnd =>
    exact ((measured.onlyPolls (stopPoll_onlyPolls tx sn)).nackPdu done).1

theorem Transmitter.Measured.step (measured : tx.Measured) {input : EntityInput}
    (stepped : tx.step input = some other) : other.Measured := by
  cases input with
  | dataReq mui octets =>
    cases stepped
    exact measured.onlySdus (dataReq_movesSdus tx mui octets).only
  | getPdus now frame requested block =>
    obtain ⟨⟨next, pdus⟩, sent, rfl⟩ := map_eq_some_iff.mp stepped
    exact (measured.getPdus sent).measured
  | statusPdu frame info =>
    exact execute_preserves (fun _ _ _ before done => before.report done) measured
      (receiveProcessControlPdu_reports stepped)
  | pollTimer now =>
    cases stepped
    exact measured.onlyPolls (checkTimerPollRetransmit_onlyPolls tx now)

end Measured

theorem Entity.step_measured {entity next : Entity} {operation : Operation}
    (measured : entity.tx.Measured) (stepped : entity.step operation = some next) :
    next.tx.Measured := by
  rcases step_tx stepped with ⟨inputs, reached⟩ | ⟨config, -, rfl⟩ | ⟨-, rfl⟩
  · exact execute_preserves (fun _ _ _ before stepped => before.step stepped) measured reached
  · exact measured.congr rfl
  · exact measured.congr rfl

/-- In every state an entity reaches, the PDUs of one call of `rlc_am_get_pdus`
take no more octets together than the grant. -/
theorem pdus_within_grant {config : Configuration} {operations : List Operation}
    {entity next : Entity} {now frame requested : Nat} {block : Nat → UInt8}
    {pdus : List (List UInt8)}
    (reached : execute step (.init config) operations = some entity)
    (sent : entity.getPdus now frame requested block = some (next, pdus)) :
    (pdus.map List.length).sum ≤ requested := by
  rw [getPdus] at sent
  split at sent
  next status =>
    obtain ⟨pdu, written, stored⟩ := map_eq_some_iff.mp sent
    cases stored
    simpa using Receiver.sendStatusPdu_length_le status.1 written
  · obtain ⟨⟨tx, made⟩, granted, stored⟩ := map_eq_some_iff.mp sent
    cases stored
    have measured : entity.tx.Measured :=
      execute_preserves (fun _ _ _ => step_measured)
        (fun sn => .of_memBlock_none rfl) reached
    exact (measured.getPdus granted).total

def grantConfiguration : Configuration :=
  { maxRetxThreshold := 8, pollPdu := 4, pollByte := 100, tPollRetransmit := 50
    tReordering := 35, tStatusProhibit := 0 }

/-- PDU 1 arrives with the poll bit, and a grant of five octets is used for a
STATUS PDU of four, which reports PDU 0 missing. -/
theorem pdus_within_grant_status :
    ∃ entity next, execute step (.init grantConfiguration) [.receive 0 0 [[0xA0, 1, 7]]] =
        some entity ∧
      entity.getPdus 0 0 5 (fun _ => 0) = some (next, [[0, 10, 0, 0]]) ∧
      (([[0, 10, 0, 0]] : List (List UInt8)).map List.length).sum ≤ 5 := by
  have outcome : ((execute step (.init grantConfiguration)
      [.receive 0 0 [[0xA0, 1, 7]]]).bind fun entity =>
        (entity.getPdus 0 0 5 fun _ => 0).map Prod.snd) = some [[0, 10, 0, 0]] := by
    decide +kernel
  obtain ⟨entity, reached, sent⟩ := bind_eq_some_iff.mp outcome
  obtain ⟨⟨next, pdus⟩, granted, rfl⟩ := map_eq_some_iff.mp sent
  exact ⟨entity, next, reached, granted, pdus_within_grant reached granted⟩

theorem Entity.step_indexed {entity next : Entity} {operation : Operation}
    (indexed : entity.tx.Indexed) (stepped : entity.step operation = some next) :
    next.tx.Indexed := by
  rcases step_tx stepped with ⟨inputs, reached⟩ | ⟨config, -, rfl⟩ | ⟨-, rfl⟩
  · exact execute_preserves (fun _ _ _ before stepped => before.step stepped) indexed reached
  · exact { indexed with }
  · exact ⟨indexed.slots, indexed.current, show 0 < rlcAmSnModulo by decide,
      show rlcAmWindowSize = (0 + rlcAmWindowSize) % rlcAmSnModulo by decide⟩

end OpenAir.RlcAm
