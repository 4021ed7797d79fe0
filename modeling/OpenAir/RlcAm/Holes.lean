import OpenAir.RlcAm.Transmitter

/-! The negatively acknowledged areas of a transmitted PDU, after
`rlc_am_segments_holes.c`. A failing assertion is `none`. -/

set_option autoImplicit false

namespace OpenAir.RlcAm

def rlcAmMaxHolesReportPerPdu : Nat := 32

/-- An end of segment offset of all ones stands for the last octet of the PDU. -/
def soEndOfPdu : Int := 0x7FFF

/-- `rlc_am_add_hole` for a PDU that has holes. The new one goes in front of the
first hole that starts after it. -/
def TxPdu.insertHole (pdu : TxPdu) (soStart soStop : Int) : Option TxPdu :=
  let before := pdu.holes.takeWhile fun hole => !decide (soStop < hole.1)
  let after := pdu.holes.dropWhile fun hole => !decide (soStop < hole.1)
  let clear := before.getLast?.all fun hole => decide (hole.2 < soStart)
  let nackSoStart := if before = [] then soStart else pdu.nackSoStart
  if clear ∧ pdu.holes.length + 1 < rlcAmMaxHolesReportPerPdu ∧
      nackSoStart < pdu.payloadSize then
    some
      { pdu with
        holes := before ++ (soStart, soStop) :: after
        nackSoStart := nackSoStart
        nackSoStop := if after = [] then soStop else pdu.nackSoStop }
  else none

def TxPdu.addHole (pdu : TxPdu) (soStart soStop : Int) : Option TxPdu :=
  if soStart ≤ soStop ∧ soStart < soEndOfPdu ∧ soStop ≤ soEndOfPdu then
    if soStart = 0 ∧ (soStop = soEndOfPdu ∨ soStop = pdu.payloadSize - 1) then
      if soStart < pdu.payloadSize then
        some { pdu with holes := [], nackSoStart := soStart, nackSoStop := soStop }
      else none
    else
      let soStop := if soStop = soEndOfPdu then pdu.payloadSize - 1 else soStop
      if pdu.holes = [] then
        if soStart < pdu.payloadSize then
          some
            { pdu with
              holes := [(soStart, soStop)]
              nackSoStart := soStart
              nackSoStop := soStop }
        else none
      else pdu.insertHole soStart soStop
  else none

/-- The loop of `rlc_am_remove_hole`: the holes left, and whether it returned
from within the loop. A hole split in two is cut again in the next round. -/
def removeFromHoles (soStart soStop : Int) (count : Nat) :
    List (Int × Int) → Option (List (Int × Int) × Bool)
  | [] => some ([], false)
  | (start, stop) :: rest =>
    if soStart ≤ start then
      if soStop ≥ stop then removeFromHoles soStart soStop (count - 1) rest
      else some ((soStop, stop) :: rest, true)
    else if soStart ≤ stop ∧ soStop < stop then
      if count + 1 < rlcAmMaxHolesReportPerPdu then
        some ((start, soStart - 1) :: (soStop, stop) :: rest, true)
      else none
    else
      let stop := if soStart ≤ stop then soStart else stop
      (removeFromHoles soStart soStop count rest).map fun (holes, returned) =>
        ((start, stop) :: holes, returned)

def holeSpan (holes : List (Int × Int)) : Int × Int :=
  match holes.head?, holes.getLast? with
  | some first, some last => (first.1, last.2)
  | _, _ => (0, soEndOfPdu)

def TxPdu.removeHole (pdu : TxPdu) (soStart soStop : Int) : Option TxPdu :=
  if soStart ≤ soStop then
    if pdu.holes = [] then
      if soStart = pdu.nackSoStart ∧ soStop ≤ pdu.nackSoStop then
        let left := if soStop + 1 ≥ pdu.nackSoStop then (0, soEndOfPdu)
          else (soStop + 1, pdu.nackSoStop)
        if left.1 < pdu.payloadSize then
          some { pdu with nackSoStart := left.1, nackSoStop := left.2 }
        else none
      else none
    else
      (removeFromHoles soStart soStop pdu.holes.length pdu.holes).bind fun (holes, returned) =>
        let left := holeSpan holes
        if returned ∨ left.1 < pdu.payloadSize then
          some { pdu with holes := holes, nackSoStart := left.1, nackSoStop := left.2 }
        else none
  else none

def TxPdu.getNextHole (pdu : TxPdu) : Int × Int :=
  pdu.holes.headD (pdu.nackSoStart, pdu.nackSoStop)

end OpenAir.RlcAm
