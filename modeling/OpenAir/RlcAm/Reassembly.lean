import OpenAir.RlcAm.Pdu

/-! Reassembly of SDUs from the PDUs handed over in sequence, after
`rlc_am_reassembly.c`. A failing assertion is `none`. -/

set_option autoImplicit false

namespace OpenAir.RlcAm

def rlcSduMaxSize : Nat := 9000

/-- `output_sdu_in_construction` with the octets written to it, and the SDUs
passed to `rlc_data_ind` so far. -/
structure Reassembly where
  outputSduInConstruction : Option (List UInt8)
  dataInd : List (List UInt8)
  deriving DecidableEq, Repr

def Reassembly.fresh : Reassembly := ⟨none, []⟩

def Reassembly.reassembly (state : Reassembly) (source : List UInt8) : Reassembly :=
  let written := state.outputSduInConstruction.getD []
  { state with
    outputSduInConstruction :=
      some (if written.length + source.length ≤ rlcSduMaxSize then written ++ source else []) }

def Reassembly.sendSdu (state : Reassembly) : Option Reassembly :=
  match state.outputSduInConstruction with
  | none => some state
  | some [] => none
  | some (octet :: octets) => some ⟨none, state.dataInd ++ [octet :: octets]⟩

def Reassembly.sendSduIf (condition : Bool) (state : Reassembly) : Option Reassembly :=
  if condition then state.sendSdu else some state

/-- `length` octets of the payload from `offset` on. -/
def payloadOctets (payload : List UInt8) (offset length : Nat) : List UInt8 :=
  (List.range length).map fun index => payload.getD (offset + index) 0

/-- The loop over the length indicators: each ends an SDU. The second result
is the offset reached in the payload. -/
def Reassembly.reassembleLis (payload : List UInt8) :
    Reassembly → Nat → List Nat → Option (Reassembly × Nat)
  | state, offset, [] => some (state, offset)
  | state, offset, li :: lis =>
    ((state.reassembly (payloadOctets payload offset li)).sendSdu).bind fun state =>
      state.reassembleLis payload (offset + li) lis

/-- `rlc_am_reassemble_pdu`. The two bits of FI tell whether the payload starts
with the first and ends with the last octet of an SDU. -/
def Reassembly.reassemblePdu (state : Reassembly) (info : PduInfo) : Option Reassembly :=
  let startsSdu := decide (info.fi &&& 2 = 0)
  let endsSdu := decide (info.fi &&& 1 = 0)
  (state.sendSduIf startsSdu).bind fun state =>
    if info.e = false then
      (state.reassembly (payloadOctets info.payload 0 info.payloadSize.toNat)).sendSduIf endsSdu
    else
      (state.reassembleLis info.payload 0 info.liList).bind fun (state, offset) =>
        if info.hiddenSize > 0 then
          (state.reassembly
            (payloadOctets info.payload offset info.hiddenSize.toNat)).sendSduIf endsSdu
        else some state

def Reassembly.reassembleAll (state : Reassembly) (infos : List PduInfo) : Option Reassembly :=
  infos.foldlM Reassembly.reassemblePdu state

end OpenAir.RlcAm
