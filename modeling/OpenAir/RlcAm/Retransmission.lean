import OpenAir.RlcAm.Acknowledgement
import OpenAir.RlcAm.Segmentation

/-! Retransmission of PDUs and of segments of them, after
`rlc_am_retransmit.c`, and the transmission opportunity of `rlc_am_get_pdus` in
`rlc_am.c`, for the calls that send no STATUS PDU (one that does leaves the
transmitting side as it is). A failing assertion is `none`. -/

set_option autoImplicit false

namespace OpenAir.RlcAm

def rlcAmMinSegmentSizeRequest : Nat := 8

/-- The state of the loop of `rlc_am_retransmit_get_subsegment` over the length
indicators of the original PDU. `notFi` has a bit set when the segment starts
or ends with the first or last octet of an SDU. -/
structure Resegmenting where
  maxCopyPayloadSize : Int
  pduRemainingSize : Int
  liSum : Int
  startOffset : Int
  pduCopySize : Int
  notFi : Nat
  liLength : Nat
  liList : List Int
  continues : Bool

def Resegmenting.takeSdu (state : Resegmenting) : Option Resegmenting :=
  let ending := state.maxCopyPayloadSize + state.startOffset
  let left := state.liSum - state.startOffset
  if ending ≤ state.liSum then
    if state.maxCopyPayloadSize > 0 then
      some
        { state with
          continues := false
          pduCopySize := state.pduCopySize + state.maxCopyPayloadSize
          startOffset := ending
          notFi := if ending < state.liSum then state.notFi &&& 2 else state.notFi ||| 1
          maxCopyPayloadSize := 0 }
    else none
  else
    let liLength := state.liLength ^^^ 3
    if ending - liLength > state.liSum then
      some
        { state with
          liList := state.liList ++ [left]
          pduCopySize := state.pduCopySize + left
          liLength := liLength
          pduRemainingSize := state.pduRemainingSize - left - liLength
          maxCopyPayloadSize := state.maxCopyPayloadSize - left - liLength
          startOffset := state.liSum }
    else
      some
        { state with
          continues := false
          pduCopySize := state.pduCopySize + left
          pduRemainingSize := state.pduRemainingSize - left
          maxCopyPayloadSize := state.maxCopyPayloadSize - left
          startOffset := state.liSum
          notFi := state.notFi ||| 1 }

def Resegmenting.overLis : Resegmenting → List Nat → Option Resegmenting
  | state, [] => some state
  | state, li :: lis =>
    if state.continues = false then some state
    else
      let maxCopyPayloadSize := min state.maxCopyPayloadSize state.pduRemainingSize
      if maxCopyPayloadSize ≥ 0 ∧ state.pduRemainingSize ≥ 0 then
        let state :=
          { state with maxCopyPayloadSize := maxCopyPayloadSize, liSum := state.liSum + li }
        if state.startOffset < state.liSum then
          state.takeSdu.bind fun state => state.overLis lis
        else if state.startOffset = state.liSum ∧ state.liList = [] ∧
            state.pduCopySize = (0 : Int) then
          Resegmenting.overLis { state with notFi := state.notFi ||| 2 } lis
        else state.overLis lis
      else none

def Resegmenting.takeHidden (state : Resegmenting) (hiddenSize : Int) (notFiOriginal : Nat) :
    Resegmenting :=
  if state.continues ∧ hiddenSize > 0 ∧ state.pduRemainingSize > 0 ∧
      state.maxCopyPayloadSize > 0 then
    let maxCopyPayloadSize := min state.maxCopyPayloadSize state.pduRemainingSize
    if maxCopyPayloadSize + state.startOffset ≥ hiddenSize + state.liSum then
      { state with
        pduCopySize := state.pduCopySize + (hiddenSize + state.liSum - state.startOffset)
        notFi := (state.notFi &&& 2) ||| (notFiOriginal &&& 1) }
    else
      { state with
        pduCopySize := state.pduCopySize + maxCopyPayloadSize
        notFi := state.notFi &&& 2 }
  else state

def liOctets : List Int → List UInt8
  | [] => []
  | [li] => [UInt8.ofNat (li.toNat >>> 4), UInt8.ofNat (li.toNat <<< 4)]
  | first :: second :: rest =>
    UInt8.ofNat (0x80 ||| first.toNat >>> 4) ::
      UInt8.ofNat ((UInt8.ofNat (first.toNat <<< 4)).toNat |||
        (if rest = [] then 0 else 0x08) ||| second.toNat >>> 8) ::
      UInt8.ofNat second.toNat :: liOctets rest

/-- The plan of the segment: what it starts with, how many octets it copies,
its length indicators and its framing information. -/
structure SegmentPlan where
  startOffset : Int
  pduCopySize : Int
  liList : List Int
  notFi : Nat

/-- The part of `rlc_am_retransmit_get_subsegment` that decides on the segment
for a grant of `size` octets, its fixed header of four taken off. -/
def TxPdu.planSegment (pdu : TxPdu) (info : PduInfo) (size : Int) : Option SegmentPlan :=
  let notFiOriginal := info.fi ^^^ 3
  let (startOffset, stopOffset) := pdu.getNextHole
  let area := stopOffset - startOffset + 1
  if area > 0 ∧ size > 0 then
    let maxCopyPayloadSize := min area size
    let notFi := if startOffset = 0 then notFiOriginal &&& 2 else 0
    if info.liList = [] then
      let notFi :=
        if stopOffset = startOffset + maxCopyPayloadSize - 1 ∧ stopOffset = pdu.payloadSize - 1
        then (notFi &&& 2) ||| (notFiOriginal &&& 1) else notFi &&& 2
      some ⟨startOffset, maxCopyPayloadSize, [], notFi⟩
    else
      (Resegmenting.overLis
          ⟨maxCopyPayloadSize, size, 0, startOffset, 0, notFi, 1, [], true⟩ info.liList).map
        fun state =>
          let state := state.takeHidden info.hiddenSize notFiOriginal
          ⟨startOffset, state.pduCopySize, state.liList, state.notFi⟩
  else none

namespace Transmitter

/-- `rlc_am_retransmit_get_subsegment`. The grant must have room for the fixed
header of a segment. -/
def retransmitGetSubsegment (tx : Transmitter) (now sn : Nat) (size : Int) :
    Option (Transmitter × List UInt8) :=
  let pdu := tx.pduRetransBuffer sn
  pdu.memBlock.bind fun octets =>
    (getDataPduInfos octets).bind fun info =>
      let headerSo := pdu.nackSoStart.toNat
      let pdu :=
        if pdu.nackSoStop = soEndOfPdu then { pdu with nackSoStop := pdu.payloadSize - 1 } else pdu
      (pdu.planSegment info (size - 4)).bind fun plan =>
        let lastSegment := decide (plan.pduCopySize + plan.startOffset = pdu.payloadSize)
        let b1 := (octetAt octets 0 &&& 0x83) ||| 0x40 |||
          (((plan.notFi <<< 3) ^^^ 0x18) &&& 0x18) ||| (if plan.liList = [] then 0 else 0x04)
        let header :=
          [UInt8.ofNat b1, UInt8.ofNat (octetAt octets 1),
            UInt8.ofNat (headerSo >>> 8 ||| (if lastSegment then 0x80 else 0)),
            UInt8.ofNat headerSo]
        let segment := header ++ liOctets plan.liList ++
          payloadOctets octets (pdu.payload + plan.startOffset.toNat) plan.pduCopySize.toNat
        let pdu := if lastSegment then { pdu with retransmit := false } else pdu
        (pdu.removeHole plan.startOffset (plan.pduCopySize + plan.startOffset - 1)).map fun pdu =>
          (tx.setPdu sn pdu).pduPolling now segment plan.pduCopySize

/-- The poll forced on a PDU that `rlc_am_retransmit_any_pdu` sends. -/
def forcePollBit (tx : Transmitter) (now sn : Nat) (octets : List UInt8) :
    Transmitter × List UInt8 :=
  let (tx, octets) :=
    tx.pduPolling now octets (tx.pduRetransBuffer sn).headerAndPayloadSize
  ({ tx with
      cPduWithoutPoll := 0
      cByteWithoutPoll := 0
      tPollRetransmit := startTimerPollRetransmit now tx.tPollRetransmit },
    octets.set 0 (octets.headD 0 ||| 0x20))

def outstandingDown (tx : Transmitter) : Nat → Nat → List Nat
  | 0, _ => []
  | fuel + 1, sn =>
    if sn = (tx.vtA + (rlcAmSnModulo - 1)) % rlcAmSnModulo then []
    else
      let rest := tx.outstandingDown fuel ((sn + (rlcAmSnModulo - 1)) % rlcAmSnModulo)
      if (tx.pduRetransBuffer sn).memBlock.isSome then sn :: rest else rest

/-- The part of `rlc_am_retransmit_any_pdu` after its search: the PDU that fits
the grant is sent again, or else a segment of the first one held. -/
def retransmitFound (tx : Transmitter) (now frame : Nat) (requested : Int) :
    Option Nat → Option Nat → Option (Transmitter × List (List UInt8))
  | some sn, _ =>
    (tx.nackPdu frame sn 0 soEndOfPdu).map fun tx =>
      let (tx, copy) := tx.retransmitGetCopy now sn
      let (tx, octets) := tx.forcePollBit now sn (copy.getD [])
      (tx, [octets])
  | none, some sn =>
    if requested > 4 then
      (tx.nackPdu frame sn 0 soEndOfPdu).bind fun tx =>
        (tx.retransmitGetSubsegment now sn requested).map fun (tx, segment) =>
          let (tx, octets) := tx.forcePollBit now sn segment
          (tx, [octets])
    else some (tx, [])
  | none, none => some (tx, [])

def retransmitAnyPdu (tx : Transmitter) (now frame : Nat) (requested : Int) :
    Option (Transmitter × List (List UInt8)) :=
  let held := tx.outstandingDown rlcAmSnModulo ((tx.vtS + (rlcAmSnModulo - 1)) % rlcAmSnModulo)
  let fits := held.find? fun sn =>
    decide ((tx.pduRetransBuffer sn).headerAndPayloadSize ≤ requested)
  tx.retransmitFound now frame requested fits held.head?

end Transmitter

/-- The loop that moves `first_retrans_pdu_sn` to the next PDU marked for
retransmission. -/
def seekMarked (pdus : Nat → TxPdu) (vtS : Nat) : Nat → Nat → Nat
  | 0, sn => sn
  | fuel + 1, sn =>
    if sn ≠ vtS ∧ (pdus sn).retransmit = false then seekMarked pdus vtS fuel (nextSn sn) else sn

/-- The retransmission part of `rlc_am_get_pdus` for the PDU `sn`; no result if
the grant is left for other PDUs. -/
def Transmitter.retransmitPdu (tx : Transmitter) (now sn : Nat) (requested : Int) :
    Option (Option (Transmitter × List (List UInt8))) :=
  let pdu := tx.pduRetransBuffer sn
  if pdu.headerAndPayloadSize ≤ requested ∧ pdu.retxCount ≥ 0 ∧ pdu.nackSoStart = 0 ∧
      pdu.nackSoStop = soEndOfPdu then
    let (tx, copy) := tx.retransmitGetCopy now sn
    let sent := tx.pduRetransBuffer sn
    some (some (tx.setPdu sn { sent with retxCount := asInt8 (sent.retxCount + 1) }, copy.toList))
  else if pdu.retxCount ≥ 0 ∧ requested ≥ rlcAmMinSegmentSizeRequest then
    (tx.retransmitGetSubsegment now sn requested).map fun (tx, segment) =>
      let found := seekMarked tx.pduRetransBuffer tx.vtS rlcAmSnModulo sn
      some ({ tx with firstRetransPduSn := if found = tx.vtS then -1 else found }, [segment])
  else some none

/-- `rlc_am_get_pdus` behind its retransmission part. -/
def Transmitter.newPdus (tx : Transmitter) (now frame requested : Nat) (block : Nat → UInt8) :
    Option (Transmitter × List (List UInt8)) :=
  let segmented :=
    if requested > 2 ∧ tx.vtS ≠ tx.vtMs then tx.segment10 now requested block
    else some (tx, none)
  segmented.bind fun (tx, pdu) =>
    if pdu = none ∧ tx.tPollRetransmit.timedOut ∧ requested > 2 then
      tx.retransmitAnyPdu now frame requested
    else some (tx, pdu.toList)

/-- `rlc_am_get_pdus` for a grant of `requested` octets. -/
def Transmitter.getPdus (tx : Transmitter) (now frame requested : Nat) (block : Nat → UInt8) :
    Option (Transmitter × List (List UInt8)) :=
  if tx.firstRetransPduSn ≥ 0 ∧ requested > 2 ∧ tx.firstRetransPduSn ≠ tx.vtS then
    (tx.retransmitPdu now tx.firstRetransPduSn.toNat requested).bind fun sent =>
      sent.elim (tx.newPdus now frame requested block) some
  else tx.newPdus now frame requested block

def Transmitter.checkTimerPollRetransmit (tx : Transmitter) (now : Nat) : Transmitter :=
  if tx.tPollRetransmit.expired now then
    { tx with
      forcePoll := true
      tPollRetransmit :=
        { tx.tPollRetransmit with
          running := false
          timedOut := true
          msTimeOut := (now + tx.tPollRetransmit.msDuration) % 2 ^ 32 } }
  else tx

inductive EntityInput where
  | dataReq (mui : Nat) (octets : List UInt8)
  | getPdus (now frame requested : Nat) (block : Nat → UInt8)
  | statusPdu (frame : Nat) (info : ControlPduInfo)
  | pollTimer (now : Nat)

def Transmitter.step (tx : Transmitter) : EntityInput → Option Transmitter
  | .dataReq mui octets => some (tx.dataReq mui octets)
  | .getPdus now frame requested block => (tx.getPdus now frame requested block).map Prod.fst
  | .statusPdu frame info => tx.receiveProcessControlPdu frame info
  | .pollTimer now => some (tx.checkTimerPollRetransmit now)

end OpenAir.RlcAm
