import OpenAir.Mac.CceAllocation

/-! The control region of a subframe: how many control channel elements it has
(`get_mi`, `get_nquad`, `get_nCCE`), the length that the eNB sends
(`get_num_pdcch_symbols`), and the search of a UE for its DCIs
(`dci_decoding_procedure0`). -/

set_option autoImplicit false

namespace OpenAir.Phy

open OpenAir.Mac

inductive FrameType where
  | fdd
  | tdd
  deriving DecidableEq, Repr

/-- `lte_prefix_type_t`. -/
inductive CyclicPrefix where
  | normal
  | extended
  deriving DecidableEq, Repr

inductive PhichResource where
  | oneSixth
  | half
  | one
  | two
  deriving DecidableEq, Repr

def PhichResource.value : PhichResource → Nat
  | oneSixth => 1
  | half => 3
  | one => 6
  | two => 12

/-- The part of `LTE_DL_FRAME_PARMS` that the control region depends on. -/
structure FrameParms where
  nRbDl : Nat
  ncp : CyclicPrefix
  frameType : FrameType
  tddConfig : Nat
  phichResource : PhichResource
  nbAntennasTxEnb : Nat
  deriving DecidableEq, Repr

def getMi (frameParms : FrameParms) (subframe : Nat) : Nat :=
  match frameParms.frameType with
  | .fdd => 1
  | .tdd =>
    match frameParms.tddConfig with
    | 0 => if subframe = 0 ∨ subframe = 5 then 2 else 1
    | 1 => if subframe = 0 ∨ subframe = 5 then 0 else 1
    | 2 => if subframe = 3 ∨ subframe = 8 then 1 else 0
    | 3 => if subframe = 0 ∨ subframe = 8 ∨ subframe = 9 then 1 else 0
    | 4 => if subframe = 8 ∨ subframe = 9 then 1 else 0
    | 5 => if subframe = 8 then 1 else 0
    | 6 => 1
    | _ => 0

def ngroupPhich (frameParms : FrameParms) (mi : Nat) : Nat :=
  let resources := frameParms.phichResource.value * frameParms.nRbDl
  let groups := if 0 < resources % 48 then (resources / 48 + 1) % 2 ^ 8 else resources / 48 % 2 ^ 8
  let groups := if frameParms.ncp = .extended then groups * 2 % 2 ^ 8 else groups
  groups * mi % 2 ^ 8

/-- `Nreg`; other bandwidths have none. -/
def nreg (numPdcchSymbols nRbDl : Nat) : Option Nat :=
  if 0 < numPdcchSymbols ∧ numPdcchSymbols < 4 then
    match nRbDl with
    | 6 => some (12 + (numPdcchSymbols - 1) * 18)
    | 25 => some (50 + (numPdcchSymbols - 1) * 75)
    | 50 => some (100 + (numPdcchSymbols - 1) * 150)
    | 100 => some (200 + (numPdcchSymbols - 1) * 300)
    | _ => none
  else some 0

/-- `get_nquad`, which returns 16 bits. -/
def getNquad (numPdcchSymbols : Nat) (frameParms : FrameParms) (mi : Nat) : Nat :=
  match nreg numPdcchSymbols frameParms.nRbDl with
  | none => 0
  | some nreg => (((nreg : Int) - 4 - 3 * ngroupPhich frameParms mi) % 2 ^ 16).toNat

def getNcce (numPdcchSymbols : Nat) (frameParms : FrameParms) (mi : Nat) : Nat :=
  getNquad numPdcchSymbols frameParms mi / 9

/-- `get_nCCE_mac`, which MAC calls as `get_nCCE_max`. -/
def getNcceMac (frameParms : FrameParms) (subframe numPdcchSymbols : Nat) : Nat :=
  getNcce numPdcchSymbols frameParms (getMi frameParms subframe)

def numCce (dcis : List DciAlloc) : Nat :=
  dcis.foldl (fun sum alloc => (sum + 2 ^ alloc.l.toNat) % 2 ^ 16) 0

/-- `nCCEmin`, the number of symbols that the duration of PHICH asks for. -/
def ncceMin (frameParms : FrameParms) (subframe : Nat) : Nat :=
  match frameParms.ncp with
  | .normal => 0
  | .extended =>
    if frameParms.frameType = .tdd ∧ (frameParms.tddConfig < 3 ∨ frameParms.tddConfig = 6) ∧
      (subframe = 1 ∨ subframe = 6) then 2
    else 3

/-- `get_num_pdcch_symbols`, which `generate_dci_top` calls with the DCIs of the
subframe. -/
def getNumPdcchSymbols (dcis : List DciAlloc) (frameParms : FrameParms) (subframe : Nat) : Nat :=
  let numCce := numCce dcis
  let least := ncceMin frameParms subframe
  if numCce ≤ getNcceMac frameParms subframe 1 then max 1 least
  else if numCce ≤ getNcceMac frameParms subframe 2 then max 2 least
  else if numCce ≤ getNcceMac frameParms subframe 3 then max 3 least
  else if frameParms.nRbDl ≤ 10 then
    let fourAntennas := frameParms.nbAntennasTxEnb = 4
    match frameParms.ncp with
    | .normal => if 9 * numCce ≤ frameParms.nRbDl * (if fourAntennas then 10 else 11) then 4 else 0
    | .extended => if 9 * numCce ≤ frameParms.nRbDl * (if fourAntennas then 9 else 10) then 4 else 0
  else 0

/-! The search of a UE. -/

/-- What `dci_decoding` and the CRC give for a candidate. -/
structure Decoded where
  crc : UInt16
  octets : List UInt8

structure DciFilter where
  siRnti : UInt16
  raRnti : UInt16
  crnti : UInt16
  formatSi : DciFormat
  formatRa : DciFormat
  formatC : DciFormat
  sizeofBits : UInt8

/-- An entry of `dci_alloc` as the search fills it. -/
structure FoundDci where
  dciLength : UInt8
  rnti : UInt16
  l : Nat
  firstCce : Nat
  dciPdu : List UInt8
  format : DciFormat

/-- What a search has found: the entries counted by `dci_cnt`, the words of the
map of CCEs, and the first CCE of the DCI that is acknowledged. -/
structure DciSearch where
  dciAlloc : List FoundDci
  format0Found : Bool
  formatCFound : Bool
  cceMap : Vector UInt32 3
  nCce : Option Nat

/-- The first CCEs of the candidates, in the order in which the search visits
them. It visits none if there are more CCEs than it expects, or too few. -/
def visitedCces (numPdcchSymbols : Nat) (frameParms : FrameParms) (mi : Nat) (doCommon : Bool)
    (crnti : UInt16) (subframe l : Nat) : Option (List Nat) :=
  let nCce := getNcce numPdcchSymbols frameParms mi
  let l2 := 2 ^ l
  if getNcce 3 frameParms 1 < nCce then some []
  else if nCce < l2 then some []
  else
    let yk := if doCommon then 0 else (hashedRnti crnti subframe).toNat % (nCce / l2)
    let nbCandidates : Option Nat :=
      if doCommon then some (if l2 = 4 then 4 else 2)
      else if l2 = 1 ∨ l2 = 2 then some 6
      else if l2 = 4 ∨ l2 = 8 then some 2
      else none
    nbCandidates.map fun nbCandidates =>
      let nbCandidates := if nCce < nbCandidates * l2 then nCce / l2 else nbCandidates
      (List.range nbCandidates).map fun m => (yk + m) % (nCce / l2) * l2

/-- `CCEmap_mask`: the CCEs of a candidate in its word of the map. -/
def cceMapMask (l cceInd : Nat) : UInt32 :=
  UInt32.ofNat (2 ^ 2 ^ l - 1) <<< UInt32.ofNat (cceInd % 32)

/-- A candidate is decoded if the map has none of its CCEs; one of the RNTIs in
the CRC makes it a DCI of the UE. -/
def DciSearch.visit (decode : Nat → Decoded) (filter : DciFilter) (l : Nat) (search : DciSearch)
    (cceInd : Nat) : Option DciSearch :=
  search.cceMap[cceInd / 32]?.bind fun word =>
  if 3 < l then none
  else if word &&& cceMapMask l cceInd ≠ 0 then some search
  else
    let decoded := decode cceInd
    if (1 < l ∧ (decoded.crc = filter.siRnti ∨ decoded.crc = filter.raRnti)) ∨
        decoded.crc = filter.crnti then
      let found := fun format =>
        { search with
          dciAlloc := search.dciAlloc ++
            [⟨filter.sizeofBits, decoded.crc, l, cceInd, decoded.octets, format⟩] }
      let next : DciSearch :=
        if decoded.crc = filter.siRnti then found filter.formatSi
        else if decoded.crc = filter.raRnti then
          { found filter.formatRa with nCce := some cceInd }
        else if filter.formatC = .format0 ∧ decoded.octets.headD 0 &&& 0x80 = 0 then
          if search.format0Found then search
          else { found .format0 with format0Found := true, nCce := some cceInd }
        else if filter.formatC = .format0 then { found .format1A with nCce := some cceInd }
        else if search.formatCFound then search
        else { found filter.formatC with formatCFound := true, nCce := some cceInd }
      some { next with
        cceMap := search.cceMap.setIfInBounds (cceInd / 32) (word ||| cceMapMask l cceInd) }
    else some search

def dciDecodingProcedure0 (numPdcchSymbols : Nat) (frameParms : FrameParms) (mi : Nat)
    (doCommon : Bool) (subframe l : Nat) (decode : Nat → Decoded) (filter : DciFilter)
    (search : DciSearch) : Option DciSearch :=
  (visitedCces numPdcchSymbols frameParms mi doCommon filter.crnti subframe l).bind fun visited =>
    visited.foldlM (DciSearch.visit decode filter l) search

end OpenAir.Phy
