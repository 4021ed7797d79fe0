import OpenAir.RlcAm.Reassembly

/-! Reassembly of SDUs from unacknowledged mode PDUs, after
`rlc_um_reassembly.c` and the loop body of `rlc_um_try_reassembly` in
`rlc_um_dar.c`. A failing assertion is `none`. Statistics are left out. -/

set_option autoImplicit false

namespace OpenAir.RlcUm

open OpenAir.RlcAm (octetAt payloadOctets)

def rlcSduMaxSizeDataPlane : Nat := 9000
def rlcSduMaxSizeControlPlane : Nat := 2000
def rlcUmSegmentNbMaxLiPerPdu : Nat := 24

inductive SnLength where
  | five
  | ten
  deriving DecidableEq, Repr

def SnLength.modulo : SnLength → Nat
  | .five => 32
  | .ten => 1024

/-- `rx_um_window_size` of a bearer that carries no MBMS. -/
def SnLength.windowSize : SnLength → Nat
  | .five => 16
  | .ten => 512

def SnLength.headerMinLength : SnLength → Nat
  | .five => 1
  | .ten => 2

/-- The fields of the entity that reassembly works on. `outputSdu` is
`output_sdu_in_construction` with the octets written to it, and `dataInd` records
the SDUs passed to `rlc_data_ind`. -/
structure Reassembly where
  isDataPlane : Bool
  outputSdu : Option (List UInt8)
  lastReassembliedSn : Nat
  missingSnDetected : Bool
  dataInd : List (List UInt8)
  deriving DecidableEq, Repr

namespace Reassembly

def sduMaxSize (state : Reassembly) : Nat :=
  if state.isDataPlane then rlcSduMaxSizeDataPlane else rlcSduMaxSizeControlPlane

/-- `rlc_um_clear_rx_sdu`: the octets written are dropped, the block is kept. -/
def clearRxSdu (state : Reassembly) : Reassembly :=
  { state with outputSdu := state.outputSdu.map fun _ => [] }

def reassembly (state : Reassembly) (source : List UInt8) : Reassembly :=
  if source.length = 0 then state
  else
    let written := state.outputSdu.getD []
    { state with
      outputSdu :=
        some (if written.length + source.length ≤ state.sduMaxSize then written ++ source else []) }

def sendSdu (state : Reassembly) : Reassembly :=
  match state.outputSdu with
  | none | some [] => state
  | some (octet :: octets) =>
    { state with outputSdu := none, dataInd := state.dataInd ++ [octet :: octets] }

def sendSduIf (condition : Bool) (state : Reassembly) : Reassembly :=
  if condition then state.sendSdu else state

/-- The loop over length indicators: each ends an SDU. The second result is the
offset reached in the PDU. -/
def reassembleLis (octets : List UInt8) : Reassembly → Nat → List Nat → Reassembly × Nat
  | state, offset, [] => (state, offset)
  | state, offset, li :: lis =>
    reassembleLis octets (state.reassembly (payloadOctets octets offset li)).sendSdu
      (offset + li) lis

end Reassembly

/-- `rlc_um_read_length_indicators`: the indicators from `position` on behind those
read so far, and the size they leave. A group of three octets holds two. -/
def readLengthIndicators (octets : List UInt8) :
    Nat → Nat → List Nat → Int → Option (List Nat × Int)
  | 0, _, _, _ => none
  | groups + 1, pos, lis, size =>
    let b1 := octetAt octets pos
    let b2 := octetAt octets (pos + 1)
    let b3 := octetAt octets (pos + 2)
    let li1 := ((b1 &&& 0x7F) <<< 4) + ((b2 &&& 0xF0) >>> 4)
    if (b1 &&& 0x80) >>> 7 = 0 then some (lis ++ [li1], size - li1 - 2)
    else
      let li2 := ((b2 &&& 0x07) <<< 8) + b3
      if lis.length + 2 ≥ rlcUmSegmentNbMaxLiPerPdu then none
      else if (b2 &&& 0x08) >>> 3 = 0 then
        some (lis ++ [li1, li2], size - li1 - 2 - li2 - 1)
      else
        readLengthIndicators octets groups (pos + 3) (lis ++ [li1, li2])
          (size - li1 - 2 - li2 - 1)

structure Header where
  fi : Nat
  e : Bool
  sn : Nat
  deriving DecidableEq, Repr

def SnLength.header (length : SnLength) (octets : List UInt8) : Header :=
  let b1 := octetAt octets 0
  match length with
  | .ten =>
    ⟨(b1 &&& 0x18) >>> 3, decide ((b1 &&& 0x04) >>> 2 = 1),
      ((b1 &&& 0x03) <<< 8) + octetAt octets 1⟩
  | .five => ⟨(b1 &&& 0xC0) >>> 6, decide ((b1 &&& 0x20) >>> 5 = 1), b1 &&& 0x1F⟩

namespace Reassembly

/-- A PDU without length indicators. The two bits of FI tell whether the payload
starts with the first and ends with the last octet of an SDU. -/
def reassembleWhole (state : Reassembly) (fi : Nat) (data : List UInt8) : Reassembly :=
  let startsSdu := decide (fi &&& 2 = 0)
  let endsSdu := decide (fi &&& 1 = 0)
  let state := if startsSdu then state.clearRxSdu else state
  if startsSdu ∨ state.missingSnDetected = false then
    { (state.reassembly data).sendSduIf endsSdu with missingSnDetected := false }
  else { state with missingSnDetected := !endsSdu }

/-- A PDU with the length indicators `lis`, and `size` octets behind the SDUs they
end. The first SDU is skipped when its beginning is missing. -/
def reassembleParts (state : Reassembly) (fi : Nat) (octets : List UInt8) (offset : Nat)
    (lis : List Nat) (size : Int) : Option Reassembly :=
  let startsSdu := decide (fi &&& 2 = 0)
  let endsSdu := decide (fi &&& 1 = 0)
  let skipped := !startsSdu && state.missingSnDetected
  let state := if startsSdu then state.clearRxSdu else state
  let (state, offset) :=
    if skipped then state.reassembleLis octets (offset + lis.headD 0) lis.tail
    else state.reassembleLis octets offset lis
  if size > 0 then
    let state := (state.reassembly (payloadOctets octets offset size.toNat)).sendSduIf endsSdu
    some { state with missingSnDetected := false }
  else if startsSdu || endsSdu then some { state with missingSnDetected := false }
  else none

/-- The part of `rlc_um_try_reassembly` for a PDU found in the buffer. A PDU with
too many length indicators leaves only its number. -/
def reassemblePdu (state : Reassembly) (length : SnLength) (sn : Nat) (octets : List UInt8) :
    Option Reassembly :=
  let contiguous := decide ((state.lastReassembliedSn + 1) % length.modulo = sn)
  let state := if contiguous then state else state.clearRxSdu
  let state := { state with lastReassembliedSn := sn }
  let header := length.header octets
  let offset := length.headerMinLength
  let size : Int := octets.length - offset
  if header.e then
    match readLengthIndicators octets 12 offset [] size with
    | none => some state
    | some (lis, size) =>
      state.reassembleParts header.fi octets (offset + (lis.length * 3 + 1) / 2) lis size
  else some (state.reassembleWhole header.fi (octets.drop offset))

def skipPdu (state : Reassembly) : Reassembly :=
  { state.clearRxSdu with missingSnDetected := true }

end Reassembly

end OpenAir.RlcUm
