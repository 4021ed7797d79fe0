import Mathlib.Data.List.DropRight
import OpenAir.RlcAm.Window

/-! The receiver buffer of an acknowledged mode entity, after
`rlc_am_rx_list.c`: insertion of a PDU or PDU segment, detection of completed
PDUs, and removal of what is handed to reassembly. The doubly linked list is a
list in head-to-tail order. A walk keeps the elements it has passed, so that an
insertion point is a split of the buffer. -/

set_option autoImplicit false

namespace OpenAir.RlcAm

structure RxPdu where
  info : PduInfo
  allSegmentsReceived : Bool
  deriving DecidableEq, Repr

inductive CursorStep where
  | drop
  | insert
  | advance
  deriving DecidableEq, Repr

def forwardStep (pdu : PduInfo) (previous : Option PduInfo) (cursor : PduInfo) : CursorStep :=
  if pdu.sn < cursor.sn then
    match previous with
    | none => .insert
    | some previous =>
      if previous.sn = pdu.sn then
        if pdu.rf ≠ previous.rf then .drop
        else if pdu.rf ∧ previous.lastSo ≥ pdu.so then .drop
        else .insert
      else .insert
  else if pdu.sn = cursor.sn then
    if cursor.rf = false then .drop
    else if pdu.rf = true then
      if pdu.lastSo < cursor.so then
        match previous with
        | none => .insert
        | some previous =>
          if previous.sn = cursor.sn then
            if previous.lastSo < pdu.so then .insert else .drop
          else .insert
      else if pdu.so ≤ cursor.so then .drop
      else .advance
    else .drop
  else .advance

/-- One iteration of the loop that walks from the tail; `previous` is the
element after the cursor. -/
def backwardStep (pdu : PduInfo) (previous : Option PduInfo) (cursor : PduInfo) : CursorStep :=
  if pdu.sn > cursor.sn then
    match previous with
    | none => .insert
    | some previous =>
      if previous.sn = cursor.sn then
        if pdu.rf ≠ previous.rf then .drop
        else if pdu.rf ∧ pdu.lastSo ≥ previous.so then .drop
        else .insert
      else .insert
  else if pdu.sn = cursor.sn then
    if cursor.rf = false then .drop
    else if pdu.rf = true then
      if cursor.lastSo < pdu.so then
        match previous with
        | none => .insert
        | some previous =>
          if previous.sn = cursor.sn then
            if pdu.lastSo < previous.so then .insert else .drop
          else .insert
      else if cursor.so ≤ pdu.so then .drop
      else .advance
    else .drop
  else .advance

/-- How an insertion loop ends: in its body, at the first element outside the
walked range, or past the end of the list. -/
inductive SearchEnd where
  | dropped
  | inserted (before after : List RxPdu)
  | stopped (before after : List RxPdu)
  | exhausted

/-- The loops from the head, over the elements that satisfy `inRange`. -/
def forwardSearch (inRange : Nat → Bool) (pdu : PduInfo) :
    List RxPdu → List RxPdu → SearchEnd
  | _, [] => .exhausted
  | passed, cursor :: rest =>
    if inRange cursor.info.sn then
      match forwardStep pdu (passed.getLast?.map RxPdu.info) cursor.info with
      | .drop => .dropped
      | .insert => .inserted passed (cursor :: rest)
      | .advance => forwardSearch inRange pdu (passed ++ [cursor]) rest
    else .stopped passed (cursor :: rest)

def backwardSearch (inRange : Nat → Bool) (pdu : PduInfo) :
    List RxPdu → List RxPdu → SearchEnd
  | [], _ => .exhausted
  | cursor :: rest, passed =>
    if inRange cursor.info.sn then
      match backwardStep pdu (passed.head?.map RxPdu.info) cursor.info with
      | .drop => .dropped
      | .insert => .inserted (cursor :: rest).reverse passed
      | .advance => backwardSearch inRange pdu rest (cursor :: passed)
    else .stopped (cursor :: rest).reverse passed

/-- The decision after a wrapped-window loop ran off the list, `last` being the
element it visited last: the new PDU is then added at the tail. -/
def addsTailWrapped (pdu last : PduInfo) : Bool :=
  if last.rf = false then true
  else if pdu.rf ∧ last.rf ∧ pdu.sn = last.sn then decide (last.lastSo < pdu.so)
  else decide (pdu.sn ≠ last.sn)

def addsTailUnwrapped (pdu last : PduInfo) : Bool :=
  if pdu.sn = last.sn then decide (last.lastSo < pdu.so) else true

def SearchEnd.place (ending : SearchEnd) (buffer : List RxPdu) (addsTail : Bool) :
    Option (List RxPdu × List RxPdu) :=
  match ending with
  | .dropped => none
  | .inserted before after => some (before, after)
  | .stopped before after => some (before, after)
  | .exhausted => if addsTail then some (buffer, []) else none

/-- `rlc_am_rx_list_insert_pdu`: the two parts of the buffer the PDU goes
between, or `none` when it is dropped. -/
def rxListInsertPdu (vrR vrMr : Nat) (buffer : List RxPdu) (pdu : PduInfo) :
    Option (List RxPdu × List RxPdu) :=
  match buffer with
  | [] => some ([], [])
  | head :: rest =>
    let last := (head :: rest).getLast (List.cons_ne_nil head rest)
    if vrMr < vrR then
      if pdu.sn ≥ vrR then
        (forwardSearch (fun sn => decide (sn ≥ vrR)) pdu [] buffer).place buffer
          (addsTailWrapped pdu last.info)
      else
        (backwardSearch (fun sn => decide (sn < vrR)) pdu buffer.reverse []).place buffer
          (addsTailWrapped pdu head.info)
    else
      (forwardSearch (fun _ => true) pdu [] buffer).place buffer
        (addsTailUnwrapped pdu last.info)

/-- The walk of `rlc_am_rx_check_all_byte_segments` over the segments after the
first: whether a last segment is reached without a gap. -/
def reachesLastSegment : Int → List RxPdu → Bool
  | _, [] => false
  | lastEndSo, cursor :: rest =>
    if cursor.info.rf = false ∨ lastEndSo < cursor.info.so then false
    else if cursor.info.lsf then true
    else reachesLastSegment (cursor.info.so + cursor.info.payloadSize) rest

def allByteSegmentsReceived : List RxPdu → Bool
  | [] => false
  | first :: rest =>
    if first.info.so ≠ 0 then false else reachesLastSegment first.info.payloadSize rest

def RxPdu.marked (pdu : RxPdu) : RxPdu := { pdu with allSegmentsReceived := true }

/-- `rlc_am_rx_check_all_byte_segments` for the element between `before` and
`after`, with `rlc_am_rx_mark_all_segments_received`. -/
def rxCheckAllByteSegments (before : List RxPdu) (tb : RxPdu) (after : List RxPdu) :
    List RxPdu × RxPdu × List RxPdu :=
  if tb.info.rf = false then (before, tb.marked, after)
  else
    let sameSn := fun pdu : RxPdu => decide (pdu.info.sn = tb.info.sn)
    let earlier := before.rtakeWhile sameSn
    let later := after.takeWhile sameSn
    if allByteSegmentsReceived (earlier ++ tb :: later) then
      (before.rdropWhile sameSn ++ earlier.map RxPdu.marked, tb.marked,
        later.map RxPdu.marked ++ after.dropWhile sameSn)
    else (before, tb, after)

/-- `rlc_am_rx_update_vr_ms` over the elements from the received PDU on. -/
def rxUpdateVrMs (tb : RxPdu) : List RxPdu → Nat
  | [] => if tb.allSegmentsReceived then nextSn tb.info.sn else tb.info.sn
  | next :: rest =>
    if tb.allSegmentsReceived then rxUpdateVrMs next rest else tb.info.sn

/-- `rlc_am_rx_update_vr_r` over the elements from the received PDU on. -/
def rxUpdateVrR : Nat → List RxPdu → Nat
  | vrR, [] => vrR
  | vrR, cursor :: rest =>
    if cursor.allSegmentsReceived = false ∨ vrR ≠ cursor.info.sn then vrR
    else if cursor.info.rf = true then
      if cursor.info.lsf = true then rxUpdateVrR (nextSn vrR) rest else rxUpdateVrR vrR rest
    else rxUpdateVrR (nextSn vrR) rest

/-- `rlc_am_rx_list_reassemble_rlc_sdus`: the elements handed to
`rlc_am_reassemble_pdu`, and the rest of the buffer. -/
def rxListReassembleRlcSdus : List RxPdu → List RxPdu × List RxPdu
  | [] => ([], [])
  | head :: rest =>
    if head.allSegmentsReceived then
      match rest with
      | [] => ([head], [])
      | next :: _ =>
        if next.info.sn = nextSn head.info.sn ∨
            (next.info.sn = head.info.sn ∧ next.allSegmentsReceived) then
          let (handed, kept) := rxListReassembleRlcSdus rest
          (head :: handed, kept)
        else ([head], rest)
    else ([], head :: rest)

end OpenAir.RlcAm
