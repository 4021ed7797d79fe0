import Mathlib.Logic.Function.Iterate
import OpenAir.Mac.DciList

/-! Control channel elements for the DCIs of a subframe, after `get_nCCE_offset`
and `allocate_CCEs`. A result is missing where the source would divide by zero,
abort, or access an array outside of its bounds. -/

set_option autoImplicit false

namespace OpenAir.Mac

/-- `CCE_table` of a component carrier; the CCEs in use are marked. -/
abbrev CceTable := Vector Bool 800

def initCceTable : CceTable := Vector.replicate 800 false

def searchSpaceFree (table : CceTable) (first : Nat) : Nat → Option Bool
  | 0 => some true
  | count + 1 => table[first]?.bind fun used =>
    if used then some false else searchSpaceFree table (first + 1) count

def markCces (table : CceTable) (first : Nat) : Nat → Option CceTable
  | 0 => some table
  | count + 1 =>
    if inside : first < 800 then markCces (table.set first true inside) (first + 1) count
    else none

def takeCandidate (table : CceTable) (l : Nat) : List Nat → Option (Option Nat × CceTable)
  | [] => some (none, table)
  | first :: rest => (searchSpaceFree table first l).bind fun free =>
    if free then (markCces table first l).map fun marked => (some first, marked)
    else takeCandidate table l rest

def commonCandidates (l nCce : Nat) : List Nat :=
  let nbCandidates := min (if l = 4 then 4 else 2) (nCce / l)
  (List.range nbCandidates).reverse.map (· * l)

def hashedRnti (rnti : UInt16) (subframe : Nat) : UInt32 :=
  Nat.iterate (fun yk => yk * 39827 % 65537) (subframe % 2 ^ 8 + 1) rnti.toUInt32

/-- The candidates of the UE-specific search space. Other aggregations than
those of the `switch` are answered by `DevParam`. -/
def ueSpecCandidates (l nCce : Nat) (rnti : UInt16) (subframe : Nat) : Option (List Nat) :=
  if nCce / l = 0 then none
  else
    let yk := (hashedRnti rnti subframe).toNat % (nCce / l)
    let candidates := fun nbCandidates =>
      (List.range nbCandidates).map fun m => (yk + m) % (nCce / l) * l
    if l = 1 ∨ l = 2 then some (candidates 6)
    else if l = 4 ∨ l = 8 then some (candidates 2)
    else none

/-- `get_nCCE_offset`: the first CCE, if a candidate is free, and the table. -/
def getNcceOffset (table : CceTable) (l nCce : Nat) (commonDci : Bool) (rnti : UInt16)
    (subframe : Nat) : Option (Option Nat × CceTable) :=
  if l = 0 then none
  else if commonDci then takeCandidate table l (commonCandidates l nCce)
  else (ueSpecCandidates l nCce rnti subframe).bind (takeCandidate table l)

/-- How `allocate_CCEs` leaves the loop over the DCIs: at its end, or where a
DCI finds no place. -/
structure CcePass where
  placed : Bool
  pdu : DciPdu
  table : CceTable

/-- The loop over the DCIs from number `i` on, when `left` of them are left. -/
def allocateDcis (nCceMax subframe : Nat) (testOnly : Bool) :
    Nat → Nat → Nat → DciPdu → CceTable → Option CcePass
  | 0, _, _, pdu, table => some ⟨true, pdu, table⟩
  | left + 1, i, nCce, pdu, table => pdu.dciAlloc[i]?.bind fun dciAlloc =>
    if nCceMax < nCce + 2 ^ dciAlloc.l.toNat then some ⟨false, pdu, table⟩
    else
      (getNcceOffset table (2 ^ dciAlloc.l.toNat % 2 ^ 8) nCceMax (i < pdu.numCommonDci)
        dciAlloc.rnti subframe).bind fun
      | (none, table) => some ⟨false, pdu, table⟩
      | (some fCce, table) =>
        let nCce := nCce + 2 ^ dciAlloc.l.toNat
        if testOnly then allocateDcis nCceMax subframe testOnly left (i + 1) nCce pdu table
        else (pdu.modifyAlloc i ({ · with firstCce := fCce })).bind fun pdu =>
          allocateDcis nCceMax subframe testOnly left (i + 1) nCce pdu table

structure CceAllocation where
  returned : Int
  pdu : DciPdu
  table : CceTable

/-- The part of `allocate_CCEs` from `try_again` on. -/
def tryAgain (getNcceMax : Nat → Nat) (subframe : Nat) (testOnly : Bool) :
    Nat → DciPdu → Option CceAllocation
  | 0, _ => none
  | fuel + 1, pdu =>
    (allocateDcis (getNcceMax pdu.numPdcchSymbols) subframe testOnly
      (pdu.numCommonDci + pdu.numUeSpecDci) 0 0 pdu initCceTable).bind fun pass =>
    if pass.placed then some ⟨0, pass.pdu, pass.table⟩
    else if pass.pdu.numPdcchSymbols = 3 then some ⟨-1, pass.pdu, pass.table⟩
    else tryAgain getNcceMax subframe testOnly fuel
      { pass.pdu with numPdcchSymbols := pass.pdu.numPdcchSymbols + 1 }

/-- `allocate_CCEs`, where `getNcceMax` gives the CCEs of the subframe for a number
of PDCCH symbols. -/
def allocateCces (getNcceMax : Nat → Nat) (subframe : Nat) (testOnly : Bool) (pdu : DciPdu) :
    Option CceAllocation :=
  tryAgain getNcceMax subframe testOnly 3 { pdu with numPdcchSymbols := 1 }

/-- `CCE_allocation_infeasible`: a DCI is added behind the list, allocated for a
test, and taken off again. -/
def cceAllocationInfeasible (getNcceMax : Nat → Nat) (commonFlag : Bool) (subframe : Nat)
    (aggregation : UInt8) (rnti : UInt16) (pdu : DciPdu) : Option (Bool × DciPdu) :=
  (pdu.modifyAlloc (pdu.numCommonDci + pdu.numUeSpecDci)
    ({ · with rnti := rnti, l := aggregation })).bind fun tried =>
  let counted :=
    if commonFlag then { tried with numCommonDci := (tried.numCommonDci + 1) % 2 ^ 8 }
    else { tried with numUeSpecDci := (tried.numUeSpecDci + 1) % 2 ^ 8 }
  (allocateCces getNcceMax subframe true counted).map fun answer =>
    (answer.returned = -1, if commonFlag then
        { answer.pdu with numCommonDci := (answer.pdu.numCommonDci + 255) % 2 ^ 8 }
      else { answer.pdu with numUeSpecDci := (answer.pdu.numUeSpecDci + 255) % 2 ^ 8 })

end OpenAir.Mac
