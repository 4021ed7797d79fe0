import OpenAir.Base.Memory
import OpenAir.RlcAm.Reassembly
import OpenAir.RlcAm.Transmitter

/-! Segmentation and concatenation of SDUs into one AMD PDU per grant, after
`rlc_am_segment.c` and `rlc_am_retransmit_get_copy`. The memory block of the PDU
is taken from the pool with whatever it held before. A failing assertion is
`none`. -/

set_option autoImplicit false

namespace OpenAir.RlcAm

open OpenAir.Base

/-- `sdu_mngt_p->pdus_index[sdu_mngt_p->nb_pdus++] = ...` and its assertion. -/
def Transmitter.recordPdu (tx : Transmitter) (slot : Nat) : Option Transmitter :=
  let sdu := tx.inputSdus slot
  if sdu.pdusIndex.length + 1 < rlcAmMaxSduFragments then
    some (tx.setSdu slot { sdu with pdusIndex := sdu.pdusIndex ++ [tx.vtS] })
  else none

/-- What the first loop of `rlc_am_segment_10` computes: the SDUs that get into
the PDU, the number of length indicators, and the size left for them. -/
structure Packing where
  tx : Transmitter
  sdusIndex : List Nat
  pduRemainingSize : Nat
  numLi : Nat
  sizeToSubstract : Nat
  numLiToSubstract : Nat

/-- The loop that computes how many SDUs can fill the PDU. It stops at the
latest when the PDU has its last SDU index, so that many rounds are enough. -/
def testFill : Nat → Packing → Nat → Nat → Nat → Option Packing
  | 0, packing, _, _, _ => some packing
  | fuel + 1, packing, slot, room, liLength =>
    let sdu := packing.tx.inputSdus slot
    if sdu.memBlock.isNone then some packing
    else
      (packing.tx.recordPdu slot).bind fun tx =>
        let visited := { packing with tx := tx, sdusIndex := packing.sdusIndex ++ [slot] }
        let stopped := { visited with sizeToSubstract := 0, numLiToSubstract := 0 }
        let rest := sdu.sduRemainingSize
        let liSize := liLength ^^^ 3
        if rest ≥ room then some stopped
        else if rest + liSize = room then
          some { stopped with pduRemainingSize := packing.pduRemainingSize - liSize }
        else if rest + liSize < room then
          if packing.sdusIndex.length ≥ rlcAmMaxSduInPdu - 1 then
            some { stopped with pduRemainingSize := packing.pduRemainingSize - 1 }
          else
            testFill fuel
              { visited with
                numLi := packing.numLi + 1
                sizeToSubstract := liSize
                numLiToSubstract := 1 }
              (nextSlot slot) (room - (rest + liSize)) liSize
        else some { stopped with pduRemainingSize := packing.pduRemainingSize - 1 }

/-- The state of the second loop of `rlc_am_segment_10`. Positions count from
the first octet of the PDU. -/
structure Filling where
  tx : Transmitter
  memory : Nat → UInt8
  data : Nat
  eLi : Nat
  liLength : Nat
  fillNumLi : Nat
  pduRemainingSize : Nat
  payloadSize : Nat
  lastByteIsLastOfSdu : Bool

def Filling.copy (filling : Filling) (octets : List UInt8) (offset length : Nat) : Filling :=
  { filling with
    memory := store filling.memory filling.data (payloadOctets octets offset length)
    payloadSize := filling.payloadSize + length }

/-- The SDU at `current_sdu_index` is wholly in PDUs, `rest` octets of it in
the one being filled. -/
def Transmitter.passSdu (tx : Transmitter) (rest : Nat) : Transmitter :=
  let tx := { tx with sduBufferOccupancy := tx.sduBufferOccupancy - rest }
  let tx := tx.freeInSduData tx.currentSduIndex
  { tx with currentSduIndex := nextSlot tx.currentSduIndex }

def Filling.freeSdu (filling : Filling) (rest : Nat) : Filling :=
  { filling with tx := filling.tx.passSdu rest }

/-- A length indicator: even ones start a group of three octets, odd ones share
its second octet and end it. -/
def Filling.writeLi (filling : Filling) (testNumLi rest : Nat) : Filling :=
  let liSize := filling.liLength ^^^ 3
  let more := decide (filling.fillNumLi + 1 ≠ testNumLi)
  if liSize = 2 then
    { filling with
      memory := store filling.memory filling.eLi
        [UInt8.ofNat ((if more then 0x80 else 0) ||| rest >>> 4), UInt8.ofNat (rest <<< 4)]
      liLength := liSize
      fillNumLi := filling.fillNumLi + 1 }
  else
    let b2 := (filling.memory (filling.eLi + 1)).toNat
    { filling with
      memory := store filling.memory (filling.eLi + 1)
        [UInt8.ofNat (b2 ||| (if more then 0x08 else 0) ||| rest >>> 8), UInt8.ofNat rest]
      eLi := filling.eLi + 3
      liLength := liSize
      fillNumLi := filling.fillNumLi + 1 }

/-- The loop that fills the PDU. Like the first loop it takes at most as many
rounds as a PDU has SDU indexes. -/
def fill (testNumLi : Nat) : Nat → Filling → Filling
  | 0, filling => filling
  | fuel + 1, filling =>
    let slot := filling.tx.currentSduIndex
    let sdu := filling.tx.inputSdus slot
    match sdu.memBlock with
    | none => filling
    | some octets =>
      let rest := sdu.sduRemainingSize
      let room := filling.pduRemainingSize
      let liSize := filling.liLength ^^^ 3
      if rest > room then
        let tx := filling.tx.setSdu slot
          { sdu with
            sduRemainingSize := rest - room
            sduSegmentedSize := sdu.sduSegmentedSize + room }
        { filling.copy octets sdu.sduSegmentedSize room with
          tx := { tx with sduBufferOccupancy := tx.sduBufferOccupancy - room }
          pduRemainingSize := 0
          lastByteIsLastOfSdu := false }
      else
        let copied := filling.copy octets sdu.sduSegmentedSize rest
        if rest = room then
          { copied.freeSdu rest with pduRemainingSize := 0, lastByteIsLastOfSdu := true }
        else if rest + liSize < room then
          if filling.fillNumLi = rlcAmMaxSduInPdu - 1 then
            { copied.freeSdu rest with pduRemainingSize := 0, lastByteIsLastOfSdu := true }
          else
            fill testNumLi fuel
              { (copied.writeLi testNumLi rest).freeSdu rest with
                data := filling.data + rest
                pduRemainingSize := room - (rest + liSize) }
        else
          { copied.freeSdu rest with
            pduRemainingSize := room - rest
            lastByteIsLastOfSdu := true }

namespace Transmitter

def retransmitGetCopy (tx : Transmitter) (now sn : Nat) :
    Transmitter × Option (List UInt8) :=
  let pdu := tx.pduRetransBuffer sn
  match pdu.memBlock with
  | none => (tx, none)
  | some octets =>
    let tx := tx.setPdu sn { pdu with retransmit := false }
    let (tx, copy) := tx.pduPolling now octets pdu.payloadSize
    (tx, some copy)

def maxLiOverhead (tx : Transmitter) : Int :=
  if tx.nbSduNoSegmented ≤ 1 then 0
  else (tx.nbSduNoSegmented - 1) * 3 / 2 + (tx.nbSduNoSegmented - 1) % 2

def dataPduSize (tx : Transmitter) (requested : Nat) : Nat :=
  min requested (tx.sduBufferOccupancy + rlcAmHeaderMinSize + tx.maxLiOverhead).toNat

/-- The part of `rlc_am_segment_10` after the loop that fills the PDU. -/
def finishPdu (tx : Transmitter) (now dataPduSize payload : Nat)
    (firstIsFirst : Bool) (sdusIndex : List Nat) (filling : Filling) :
    Option (Transmitter × Option (List UInt8)) :=
  let fi := (if firstIsFirst then 0 else 2) + (if filling.lastByteIsLastOfSdu then 0 else 1)
  let b1 := (filling.memory 0).toNat ||| fi <<< 3 |||
    (if filling.fillNumLi > 0 then 0x04 else 0) ||| 0x80 ||| tx.vtS >>> 8
  let memory := store filling.memory 0 [UInt8.ofNat b1, UInt8.ofNat tx.vtS]
  let tbSize := dataPduSize - filling.pduRemainingSize
  if tbSize < rlcSduMaxSize then
    let sending := { filling.tx with vtS := nextSn tx.vtS }
    let (sending, octets) := sending.pduPolling now (load memory 0 tbSize) filling.payloadSize
    let sending := sending.setPdu tx.vtS
      { TxPdu.zeroed with
        memBlock := some octets
        payload := payload
        sdusIndex := sdusIndex
        headerAndPayloadSize := tbSize
        payloadSize := filling.payloadSize
        retxCount := -1 }
    let sending :=
      { sending with
        retransNumPdus := sending.retransNumPdus + 1
        retransNumBytes := sending.retransNumBytes + tbSize }
    some (sending.retransmitGetCopy now tx.vtS)
  else none

/-- `rlc_am_segment_10` for a grant of `requested` octets, with the memory
`block` for the PDU. A PDU without room for its fixed header would be filled
with a negative number of octets. -/
def segment10 (tx : Transmitter) (now requested : Nat) (block : Nat → UInt8) :
    Option (Transmitter × Option (List UInt8)) :=
  let current := tx.inputSdus tx.currentSduIndex
  if tx.sduBufferOccupancy ≤ 0 ∨ current.memBlock.isNone ∨ requested = 0 then
    some (tx, none)
  else
    let dataPduSize := tx.dataPduSize requested
    if dataPduSize < rlcAmHeaderMinSize then none
    else
      let room := dataPduSize - rlcAmHeaderMinSize
      (testFill rlcAmMaxSduInPdu ⟨tx, [], room, 0, 0, 0⟩ tx.currentSduIndex room 1).bind
        fun packing =>
          let numLi := packing.numLi - packing.numLiToSubstract
          let payload := rlcAmHeaderMinSize + (numLi * 3 + 1) / 2
          let filling := fill numLi rlcAmMaxSduInPdu
            { tx := packing.tx
              memory := store block 0 [0, 0, 0, 0]
              data := payload
              eLi := rlcAmHeaderMinSize
              liLength := 1
              fillNumLi := 0
              pduRemainingSize := packing.pduRemainingSize - packing.sizeToSubstract
              payloadSize := 0
              lastByteIsLastOfSdu := false }
          tx.finishPdu now dataPduSize payload
            (decide (current.sduRemainingSize = current.sduSize)) packing.sdusIndex filling

end Transmitter

end OpenAir.RlcAm
