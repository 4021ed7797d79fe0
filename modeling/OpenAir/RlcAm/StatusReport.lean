import OpenAir.RlcAm.StatusCodec

/-! Construction of a STATUS PDU, after `rlc_am_send_status_pdu`. One walk over
the receiver buffer collects the NACKs, and it may stop anywhere when the bits of
the grant run out. Each part of the walk goes on with what it returns or leaves,
with ACK_SN, for the label `end_push_nack`. -/

set_option autoImplicit false

namespace OpenAir.RlcAm

open OpenAir.Base

/-- `nb_bits_to_transmit`, `previous_sn_cursor` and the NACK list. -/
structure StatusDraft where
  nbBitsToTransmit : Int
  previousSn : Nat
  nackList : List StatusItem
  deriving DecidableEq, Repr

abbrev Pushing (α : Type) : Type := Except (Nat × StatusDraft) α

def soField (value : Int) : Fin 0x8000 := Fin.ofNat _ (value % 0x8000).toNat

namespace StatusDraft

def pushSn (draft : StatusDraft) (sn : Nat) : StatusDraft :=
  { draft with
    nackList := draft.nackList ++ [⟨Fin.ofNat _ sn, true, false, 0, 0x7FF⟩]
    nbBitsToTransmit := draft.nbBitsToTransmit - 12 }

def pushSo (draft : StatusDraft) (sn : Nat) (soStart soEnd : Int) : StatusDraft :=
  { draft with
    nackList := draft.nackList ++ [⟨Fin.ofNat _ sn, true, true, soField soStart, soField soEnd⟩]
    nbBitsToTransmit := draft.nbBitsToTransmit - 42 }

def passSegments (draft : StatusDraft) (cursor : RxPdu) : List RxPdu → Pushing (RxPdu × List RxPdu)
  | [] =>
    if cursor.info.sn = draft.previousSn then
      .error
        (if cursor.allSegmentsReceived then nextSn cursor.info.sn else nextSn draft.previousSn,
          draft)
    else .ok (cursor, [])
  | next :: rest =>
    if cursor.info.sn = draft.previousSn then draft.passSegments next rest
    else .ok (cursor, next :: rest)

/-- The loop over the numbers missing before `sn`, less than one round of them. -/
def nackMissing (sn : Nat) : Nat → StatusDraft → Pushing StatusDraft
  | 0, draft => .ok draft
  | fuel + 1, draft =>
    if nextSn draft.previousSn = sn then .ok draft
    else if draft.nbBitsToTransmit > 12 then
      nackMissing sn fuel
        { draft.pushSn (nextSn draft.previousSn) with previousSn := nextSn draft.previousSn }
    else .error (nextSn draft.previousSn, draft)

/-- The part missing before a segment, from `waitedSo` on. -/
def nackBefore (draft : StatusDraft) (waitedSo : Int) (info : PduInfo) : Pushing StatusDraft :=
  if (info.so : Int) > waitedSo then
    if draft.nbBitsToTransmit ≥ 42 then .ok (draft.pushSo info.sn waitedSo (info.so - 1))
    else .error (info.sn, draft)
  else .ok draft

def nackBehind (draft : StatusDraft) (waitedSo : Int) : Pushing StatusDraft :=
  if waitedSo ≠ soEndOfPdu then
    if draft.nbBitsToTransmit ≥ 42 then .ok (draft.pushSo draft.previousSn waitedSo soEndOfPdu)
    else .error (draft.previousSn, draft)
  else .ok draft

end StatusDraft

/-- `waited_so` behind a segment. -/
def PduInfo.waitedSo (info : PduInfo) : Int :=
  if info.lsf then soEndOfPdu else info.so + info.payloadSize

namespace StatusDraft

/-- The loop over the segments of a PDU that is not complete. The walk ends with
the buffer, whatever may be missing behind its last segment. -/
def nackSegments (waitedSo : Int) (cursor : RxPdu) :
    List RxPdu → StatusDraft → Pushing (StatusDraft × List RxPdu)
  | [], draft =>
    (draft.nackBefore waitedSo cursor.info).bind fun draft => .error (draft.previousSn, draft)
  | next :: rest, draft =>
    (draft.nackBefore waitedSo cursor.info).bind fun draft =>
      let draft := { draft with previousSn := cursor.info.sn }
      if next.info.sn = cursor.info.sn then
        nackSegments cursor.info.waitedSo next rest draft
      else (draft.nackBehind cursor.info.waitedSo).map fun draft => (draft, next :: rest)

def pushNacks (draft : StatusDraft) (cursor : RxPdu) (rest : List RxPdu) :
    Pushing (StatusDraft × List RxPdu) :=
  (draft.passSegments cursor rest).bind fun (cursor, rest) =>
    (nackMissing cursor.info.sn rlcAmSnModulo draft).bind fun draft =>
      if cursor.allSegmentsReceived then .ok ({ draft with previousSn := cursor.info.sn }, rest)
      else nackSegments 0 cursor rest draft

def walk : Nat → StatusDraft → List RxPdu → Nat × StatusDraft
  | fuel + 1, draft, cursor :: rest =>
    if draft.nbBitsToTransmit ≥ 12 then
      match draft.pushNacks cursor rest with
      | .ok (draft, rest) => walk fuel draft rest
      | .error ended => ended
    else (nextSn draft.previousSn, draft)
  | _, draft, _ => (nextSn draft.previousSn, draft)

end StatusDraft

/-- The elements in front of the receiving window are passed. There has to be
one in the window. -/
def passOutside (vrR vrMr : Nat) : Nat → List RxPdu → Option (Nat × List RxPdu)
  | _, [] => none
  | previousSn, cursor :: rest =>
    if inWindow vrR vrMr cursor.info.sn then some (previousSn, cursor :: rest)
    else passOutside vrR vrMr cursor.info.sn rest

/-- The walk for a grant of `requested` octets. -/
def Receiver.draftStatus (rx : Receiver) (requested : Nat) : Option (Nat × StatusDraft) :=
  let nbBits : Int := 8 * requested - 15
  let previousSn := (rx.vrR + (rlcAmSnModulo - 1)) % rlcAmSnModulo
  if rx.receiverBuffer = [] then some (rx.vrR, ⟨nbBits, previousSn, []⟩)
  else
    (passOutside rx.vrR rx.vrMr previousSn rx.receiverBuffer).map fun (previousSn, buffer) =>
      StatusDraft.walk buffer.length ⟨nbBits, previousSn, []⟩ buffer

def closeNackList : List StatusItem → List StatusItem
  | [] => []
  | [item] => [{ item with e1 := false }]
  | item :: next :: rest => item :: closeNackList (next :: rest)

def StatusDraft.statusPdu (draft : StatusDraft) (ackSn : Nat) : StatusPdu :=
  { dC := false
    cpt := 0
    ackSn := Fin.ofNat _ ackSn
    e1 := false
    nackList := closeNackList draft.nackList }

/-- `rlc_am_send_status_pdu`, with its assertion on the size written. The NACK
list has to have room for the items. -/
def Receiver.sendStatusPdu (rx : Receiver) (requested : Nat) : Option (List UInt8) :=
  (rx.draftStatus requested).bind fun (ackSn, draft) =>
    let written := writeStatusPdu (fun _ => 0) (draft.statusPdu ackSn)
    if draft.nackList.length ≤ rlcAmMaxNackInStatusPdu ∧
        (written.2 : Int) = requested - draft.nbBitsToTransmit / 8 then
      some (load written.1 0 written.2)
    else none

end OpenAir.RlcAm
