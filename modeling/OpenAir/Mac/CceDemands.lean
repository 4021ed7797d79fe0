import OpenAir.Mac.CceProperties

/-! What `allocate_CCEs` reads of a list: which DCIs are common, and the
aggregation and RNTI of each. Whether the DCIs find places, and in how many
symbols, is a function of these demands. -/

set_option autoImplicit false

namespace OpenAir.Mac

open Option

structure DciDemand where
  common : Bool
  l : UInt8
  rnti : UInt16
  deriving DecidableEq, Repr

namespace DciDemand

/-- `1 << L`, the CCEs that the DCI takes. -/
def cces (demand : DciDemand) : Nat := 2 ^ demand.l.toNat

/-- The aggregation as `get_nCCE_offset` gets it, in an octet. -/
def aggregation (demand : DciDemand) : Nat := demand.cces % 2 ^ 8

theorem cces_pos (demand : DciDemand) : 0 < demand.cces := Nat.two_pow_pos _

def offset (demand : DciDemand) (table : CceTable) (nCce subframe : Nat) :
    Option (Option Nat × CceTable) :=
  getNcceOffset table demand.aggregation nCce demand.common demand.rnti subframe

end DciDemand

/-- A pass over the DCIs: do all of them find a place? A DCI behind the array has
no demand. -/
def placeDemands (nCceMax subframe : Nat) : List (Option DciDemand) → Nat → CceTable → Option Bool
  | [], _, _ => some true
  | none :: _, _, _ => none
  | some demand :: rest, nCce, table =>
    if nCceMax < nCce + demand.cces then some false
    else (demand.offset table nCceMax subframe).bind fun
      | (none, _) => some false
      | (some _, table) => placeDemands nCceMax subframe rest (nCce + demand.cces) table

/-- Passes with more and more symbols: is there one in which all DCIs find a
place, and with how many symbols did it end? -/
def settle (getNcceMax : Nat → Nat) (subframe : Nat) (demands : List (Option DciDemand)) :
    Nat → Nat → Option (Bool × Nat)
  | 0, _ => none
  | fuel + 1, symbols =>
    (placeDemands (getNcceMax symbols) subframe demands 0 initCceTable).bind fun placed =>
    if placed then some (true, symbols)
    else if symbols = 3 then some (false, symbols)
    else settle getNcceMax subframe demands fuel (symbols + 1)

namespace DciPdu

def demand (pdu : DciPdu) (index : Nat) : Option DciDemand :=
  pdu.dciAlloc[index]?.map fun alloc => ⟨index < pdu.numCommonDci, alloc.l, alloc.rnti⟩

def demands (pdu : DciPdu) : List (Option DciDemand) :=
  (List.range' 0 (pdu.numCommonDci + pdu.numUeSpecDci)).map pdu.demand

theorem SameDcis.demand {pdu other : DciPdu} (same : pdu.SameDcis other) :
    other.demand = pdu.demand := by
  funext index
  have entry := congrArg (fun allocs : Vector DciAlloc numDciMax => allocs[index]?.map
    fun alloc => (⟨index < pdu.numCommonDci, alloc.l, alloc.rnti⟩ : DciDemand)) same.entries
  simp only [Vector.getElem?_map, Option.map_map] at entry
  rw [DciPdu.demand, DciPdu.demand, same.numCommon]
  exact entry

theorem SameDcis.demands {pdu other : DciPdu} (same : pdu.SameDcis other) :
    other.demands = pdu.demands := by
  rw [DciPdu.demands, DciPdu.demands, same.numCommon, same.numUeSpec, same.demand]

end DciPdu

/-! `allocate_CCEs` places the DCIs as `settle` does. -/

theorem allocateDcis_demands (nCceMax subframe : Nat) (testOnly : Bool) (left index nCce : Nat)
    (pdu : DciPdu) (table : CceTable) :
    (allocateDcis nCceMax subframe testOnly left index nCce pdu table).map CcePass.placed =
      placeDemands nCceMax subframe ((List.range' index left).map pdu.demand) nCce table := by
  induction left generalizing index nCce pdu table with
  | zero => rfl
  | succ left ih =>
    rw [allocateDcis, List.range'_succ, List.map_cons]
    cases found : pdu.dciAlloc[index]? with
    | none =>
      rw [DciPdu.demand, found]
      rfl
    | some alloc =>
      let demand : DciDemand := ⟨index < pdu.numCommonDci, alloc.l, alloc.rnti⟩
      have asked : pdu.demand index = some demand := by
        rw [DciPdu.demand, found]
        rfl
      rw [asked, bind_some, placeDemands]
      by_cases full : nCceMax < nCce + demand.cces
      · rw [if_pos full, if_pos (show nCceMax < nCce + 2 ^ alloc.l.toNat from full)]
        rfl
      · rw [if_neg full, if_neg (show ¬ nCceMax < nCce + 2 ^ alloc.l.toNat from full)]
        change Option.map _ (Option.bind (demand.offset table nCceMax subframe) _) = _
        rcases demand.offset table nCceMax subframe with _ | ⟨_ | first, marked⟩
        · rfl
        · rfl
        · cases testOnly with
          | true => exact ih ..
          | false =>
            obtain ⟨next, placed, same, -⟩ := DciPdu.place_eq found (first : Int)
            simp only [bind_some, Bool.false_eq_true, if_false, placed]
            rw [← same.demand]
            exact ih ..

theorem tryAgain_settles (getNcceMax : Nat → Nat) (subframe : Nat) (testOnly : Bool) (fuel : Nat)
    (pdu : DciPdu) :
    (tryAgain getNcceMax subframe testOnly fuel pdu).map (fun answer =>
        (answer.returned, answer.pdu.numPdcchSymbols)) =
      (settle getNcceMax subframe pdu.demands fuel pdu.numPdcchSymbols).map fun settled =>
        (if settled.1 then 0 else -1, settled.2) := by
  induction fuel generalizing pdu with
  | zero => rfl
  | succ fuel ih =>
    rw [tryAgain, settle, DciPdu.demands, ← allocateDcis_demands]
    cases ended : allocateDcis (getNcceMax pdu.numPdcchSymbols) subframe testOnly
      (pdu.numCommonDci + pdu.numUeSpecDci) 0 0 pdu initCceTable with
    | none => rfl
    | some pass =>
      obtain ⟨same, symbols⟩ := allocateDcis_same ended
      simp only [bind_some, map_some, symbols]
      split
      · simp [symbols]
      · split
        next third => simp [symbols, third]
        next =>
          have again : pdu.SameDcis { pass.pdu with numPdcchSymbols := pdu.numPdcchSymbols + 1 } :=
            { same with }
          rw [ih, again.demands]
          rfl

theorem allocateCces_settles (getNcceMax : Nat → Nat) (subframe : Nat) (testOnly : Bool)
    (pdu : DciPdu) :
    (allocateCces getNcceMax subframe testOnly pdu).map (fun answer =>
        (answer.returned, answer.pdu.numPdcchSymbols)) =
      (settle getNcceMax subframe pdu.demands 3 1).map fun settled =>
        (if settled.1 then 0 else -1, settled.2) :=
  tryAgain_settles getNcceMax subframe testOnly 3 { pdu with numPdcchSymbols := 1 }

end OpenAir.Mac
