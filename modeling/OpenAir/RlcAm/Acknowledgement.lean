import OpenAir.RlcAm.Holes

/-! Positive and negative acknowledgement of transmitted PDUs, after
`rlc_am_retransmit.c`, and the processing of a STATUS PDU, after
`rlc_am_status_report.c`. A failing assertion is `none`. -/

set_option autoImplicit false

namespace OpenAir.RlcAm

open Transmitter

def rlcAmMaxNackInStatusPdu : Nat := 1023

/-- Storing an integer in an `int8_t`. -/
def asInt8 (value : Int) : Int := value.bmod (2 ^ 8)

namespace Transmitter

/-- One more PDU of the SDU is done with. If that settles the SDU, it is
confirmed with the given status and freed. -/
def settleSdu (settles : TxSdu → Bool) (status : Bool) (tx : Transmitter)
    (slot : Nat) : Option Transmitter :=
  if slot < rlcAmSduControlBufferSize then
    let sdu := tx.inputSdus slot
    let sdu := { sdu with nbPdusAck := (sdu.nbPdusAck + 1) % 2 ^ 8 }
    let tx := tx.setSdu slot sdu
    if settles sdu then
      some (freeInSdu { tx with confirmed := tx.confirmed ++ [(slot, sdu.mui, status)] } slot)
    else some tx
  else none

/-- The loop body of `rlc_am_nack_pdu`: `RLC_SDU_CONFIRM_NO`. -/
def giveUpSdu : Transmitter → Nat → Option Transmitter :=
  settleSdu (fun sdu => decide (sdu.nbPdusAck = sdu.pdusIndex.length)) false

/-- The loop body of `rlc_am_ack_pdu`: `RLC_SDU_CONFIRM_YES`. -/
def ackSdu : Transmitter → Nat → Option Transmitter :=
  settleSdu
    (fun sdu => decide (sdu.nbPdusAck = sdu.pdusIndex.length ∧ sdu.sduRemainingSize = 0)) true

end Transmitter

def TxPdu.clearedAt (pdu : TxPdu) (frame : Nat) : TxPdu :=
  if pdu.lastNackTime ≠ frame then { pdu with lastNackTime := frame, holes := [] } else pdu

def TxPdu.countNack (pdu : TxPdu) : TxPdu :=
  { pdu with
    retransmit := true
    retxCount := if pdu.retxCount = -1 then 0 else asInt8 (pdu.retxCount + 1) }

/-- The first part of `rlc_am_nack_pdu`: the hole and the counters of the PDU. -/
def TxPdu.nacked (pdu : TxPdu) (frame : Nat) (soStart soEnd : Int) : Option TxPdu :=
  if soStart ≤ soEnd then ((pdu.clearedAt frame).addHole soStart soEnd).map TxPdu.countNack
  else none

namespace Transmitter

def markNacked (tx : Transmitter) (sn : Nat) (nacked : TxPdu) : Transmitter :=
  let pdu := tx.pduRetransBuffer sn
  { tx.setPdu sn nacked with
    firstRetransPduSn :=
      if tx.firstRetransPduSn < 0 then sn
      else if snGt tx.vtA sn tx.firstRetransPduSn.toNat then sn
      else tx.firstRetransPduSn
    retransNumBytesToRetransmit :=
      if pdu.retxCount = -1 then tx.retransNumBytesToRetransmit + pdu.headerAndPayloadSize
      else tx.retransNumBytesToRetransmit }

def nackPdu (tx : Transmitter) (frame sn : Nat) (soStart soEnd : Int) :
    Option Transmitter :=
  let pdu := tx.pduRetransBuffer sn
  if pdu.memBlock.isSome then
    (pdu.nacked frame soStart soEnd).bind fun nacked =>
      if nacked.retxCount ≥ tx.maxRetxThreshold then
        pdu.sdusIndex.foldlM giveUpSdu (tx.markNacked sn nacked)
      else some (tx.markNacked sn nacked)
  else some tx

/-- The loop that moves VT(A) over acknowledged PDUs. It clears each entry it
passes, so it ends before it has passed every sequence number twice. -/
def advanceLoop : Nat → Transmitter → Transmitter
  | 0, tx => tx
  | fuel + 1, tx =>
    let tx :=
      { tx.setPdu tx.vtA .zeroed with
        firstRetransPduSn :=
          if tx.firstRetransPduSn = tx.vtA then nextSn tx.vtA else tx.firstRetransPduSn
        vtA := nextSn tx.vtA }
    if (tx.pduRetransBuffer tx.vtA).ack ∧ tx.vtA ≠ tx.vtS then
      advanceLoop fuel tx
    else tx

def advanceVtA (tx : Transmitter) : Transmitter :=
  let tx := advanceLoop rlcAmSnModulo tx
  { tx with vtMs := (tx.vtA + rlcAmWindowSize) % rlcAmSnModulo }

end Transmitter

def seekRetrans (pdus : Nat → TxPdu) (vtS : Nat) : Nat → Nat → Nat
  | 0, sn => sn
  | fuel + 1, sn =>
    let sn := nextSn sn
    if (pdus sn).retxCount ≥ 0 then sn
    else if sn ≠ vtS then seekRetrans pdus vtS fuel sn
    else sn

namespace Transmitter

/-- The last part of `rlc_am_ack_pdu` for a PDU that was not acknowledged. -/
def skipRetrans (tx : Transmitter) (sn : Nat) : Transmitter :=
  if tx.firstRetransPduSn = sn then
    let found := seekRetrans tx.pduRetransBuffer tx.vtS rlcAmSnModulo sn
    { tx with firstRetransPduSn := if found = tx.vtS then -1 else found }
  else tx

def freePdu (tx : Transmitter) (sn : Nat) : Transmitter :=
  tx.setPdu sn { tx.pduRetransBuffer sn with retransmit := false, memBlock := none }

def uncountPdu (tx : Transmitter) (pdu : TxPdu) : Transmitter :=
  { tx with
    retransNumPdus := tx.retransNumPdus - 1
    retransNumBytes := tx.retransNumBytes - pdu.headerAndPayloadSize
    retransNumBytesToRetransmit :=
      if pdu.retxCount ≥ 0 then tx.retransNumBytesToRetransmit - pdu.headerAndPayloadSize
      else tx.retransNumBytesToRetransmit }

def markAcked (tx : Transmitter) (sn : Nat) : Transmitter :=
  let tx := tx.setPdu sn { tx.pduRetransBuffer sn with ack := true }
  if sn = tx.vtA then tx.advanceVtA else tx

def ackPdu (tx : Transmitter) (sn : Nat) : Option Transmitter :=
  let pdu := tx.pduRetransBuffer sn
  let freed := tx.freePdu sn
  if pdu.ack = false ∧ pdu.memBlock.isSome = true then
    (pdu.sdusIndex.foldlM ackSdu (freed.uncountPdu pdu)).map fun settled =>
      (settled.markAcked sn).skipRetrans sn
  else if pdu.ack ∧ sn = freed.vtA then some freed.advanceVtA
  else some freed

end Transmitter

/-- `nack_sn_t`, with the segment offsets that stand for a whole PDU when the
STATUS PDU gives none. -/
structure NackItem where
  nackSn : Nat
  soStart : Nat
  soEnd : Nat
  deriving DecidableEq, Repr

/-- `rlc_am_control_pdu_info_t` of a STATUS PDU. -/
structure ControlPduInfo where
  ackSn : Nat
  nackList : List NackItem
  deriving DecidableEq, Repr

/-- `rlc_am_stop_and_reset_timer_poll_retransmit` at the polled number. -/
def Transmitter.stopPoll (tx : Transmitter) (cursor : Nat) : Transmitter :=
  if cursor = tx.pollSn then
    { tx with tPollRetransmit := stopAndResetTimerPollRetransmit tx.tPollRetransmit }
  else tx

/-- The cursor stays where it is while the next item of the NACK list has the
number of the item before it. -/
def cursorAfter (cursor : Nat) : Option NackItem → List NackItem → Nat
  | some last, next :: _ => if next.nackSn ≠ last.nackSn then nextSn cursor else cursor
  | _, _ => nextSn cursor

/-- The walk of `rlc_am_receive_process_control_pdu` from VT(A) to ACK_SN.
`items` is what is left of the NACK list and `last` the item before it. Each
round uses up an item or moves the cursor. -/
def Transmitter.walkStatus (frame ackSn : Nat) :
    Nat → Transmitter → Nat → Option NackItem → List NackItem → Option Transmitter
  | 0, _, _, _, _ => none
  | fuel + 1, tx, cursor, last, items =>
    if cursor = ackSn then some tx
    else
      let tx := tx.stopPoll cursor
      match items with
      | item :: rest =>
        if cursor = item.nackSn then
          (tx.nackPdu frame cursor item.soStart item.soEnd).bind fun tx =>
            walkStatus frame ackSn fuel tx (cursorAfter cursor (some item) rest)
              (some item) rest
        else
          (tx.ackPdu cursor).bind fun tx =>
            walkStatus frame ackSn fuel tx (cursorAfter cursor last items) last items
      | [] =>
        (tx.ackPdu cursor).bind fun tx =>
          walkStatus frame ackSn fuel tx (nextSn cursor) last []

/-- `rlc_am_receive_process_control_pdu` for a decoded STATUS PDU. -/
def Transmitter.receiveProcessControlPdu (tx : Transmitter) (frame : Nat)
    (info : ControlPduInfo) : Option Transmitter :=
  if info.ackSn < rlcAmSnModulo ∧ info.nackList.length < rlcAmMaxNackInStatusPdu then
    if inWindow tx.vtA tx.vtMs info.ackSn then
      walkStatus frame info.ackSn (rlcAmSnModulo + info.nackList.length) tx tx.vtA
        none info.nackList
    else some tx
  else none

end OpenAir.RlcAm
