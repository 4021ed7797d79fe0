import Mathlib.Algebra.Order.Ring.Int
import Mathlib.Data.List.Basic
import OpenAir.Base.Execution

/-! The DCIs of a subframe, after `add_common_dci` and `add_ue_spec_dci`. The
common DCIs and the UE-specific ones share one array: the common ones stand in
front, and the boundary is the number of common DCIs. -/

set_option autoImplicit false

namespace OpenAir.Mac

open OpenAir.Base

def numDciMax : Nat := 32

inductive DciFormat where
  | format0
  | format1
  | format1A
  | format1B
  | format1C
  | format1D
  | format1E2AM10Prb
  | format2
  | format2A
  | format2B
  | format2C
  | format2D
  | format3
  deriving DecidableEq, Repr

/-- `DCI_ALLOC_t`, where `l` is the aggregation level. -/
structure DciAlloc where
  dciLength : UInt8
  l : UInt8
  firstCce : Int
  raFlag : Bool
  rnti : UInt16
  format : DciFormat
  dciPdu : List UInt8
  deriving DecidableEq, Repr

def DciAlloc.zeroed : DciAlloc := ⟨0, 0, 0, false, 0, .format0, List.replicate 8 0⟩

structure DciPdu where
  numUeSpecDci : Nat
  numCommonDci : Nat
  numPdcchSymbols : Nat
  dciAlloc : Vector DciAlloc numDciMax
  deriving DecidableEq

def DciPdu.zeroed : DciPdu := ⟨0, 0, 0, Vector.replicate numDciMax DciAlloc.zeroed⟩

/-- The arguments of both functions. The `dci_size_bytes` octets of a DCI have
room in `dci_pdu`. -/
structure DciRequest where
  pdu : List UInt8
  rnti : UInt16
  aggregation : UInt8
  dciSizeBits : UInt8
  dciFmt : DciFormat
  raFlag : Bool
  fits : pdu.length ≤ 8

/-- The octets behind the copied ones and `firstCCE` stay as they were. -/
def DciAlloc.fill (alloc : DciAlloc) (request : DciRequest) : DciAlloc :=
  { alloc with
    dciPdu := request.pdu ++ alloc.dciPdu.drop request.pdu.length
    dciLength := request.dciSizeBits
    l := request.aggregation
    rnti := request.rnti
    format := request.dciFmt
    raFlag := request.raFlag }

namespace DciPdu

def modifyAlloc (pdu : DciPdu) (index : Nat) (change : DciAlloc → DciAlloc) : Option DciPdu :=
  if inside : index < numDciMax then
    some { pdu with dciAlloc := pdu.dciAlloc.set index (change pdu.dciAlloc[index]) inside }
  else none

def addCommonDci (pdu : DciPdu) (request : DciRequest) : Option DciPdu :=
  (pdu.modifyAlloc pdu.numCommonDci (·.fill request)).map fun written =>
    { written with numCommonDci := (written.numCommonDci + 1) % 2 ^ 8 }

def addUeSpecDci (pdu : DciPdu) (request : DciRequest) : Option DciPdu :=
  (pdu.modifyAlloc (pdu.numCommonDci + pdu.numUeSpecDci) (·.fill request)).map fun written =>
    { written with numUeSpecDci := (written.numUeSpecDci + 1) % 2 ^ 8 }

end DciPdu

inductive DciCall where
  | common (request : DciRequest)
  | ueSpec (request : DciRequest)

def addDci (pdu : DciPdu) : DciCall → Option DciPdu
  | .common request => pdu.addCommonDci request
  | .ueSpec request => pdu.addUeSpecDci request

def commonDcis : List DciCall → List DciRequest
  | [] => []
  | .common request :: rest => request :: commonDcis rest
  | .ueSpec _ :: rest => commonDcis rest

def ueSpecDcis : List DciCall → List DciRequest
  | [] => []
  | .common _ :: rest => ueSpecDcis rest
  | .ueSpec request :: rest => request :: ueSpecDcis rest

structure DciAlloc.Holds (alloc : DciAlloc) (request : DciRequest) : Prop where
  pdu : alloc.dciPdu.take request.pdu.length = request.pdu
  dciLength : alloc.dciLength = request.dciSizeBits
  l : alloc.l = request.aggregation
  rnti : alloc.rnti = request.rnti
  format : alloc.format = request.dciFmt
  raFlag : alloc.raFlag = request.raFlag

theorem DciAlloc.fill_holds (alloc : DciAlloc) (request : DciRequest) :
    (alloc.fill request).Holds request :=
  ⟨by simp [DciAlloc.fill], rfl, rfl, rfl, rfl, rfl⟩

variable {common ueSpec : List DciRequest} {pdu : DciPdu}

namespace DciPdu

def StartsWith (pdu : DciPdu) (requests : List DciRequest) : Prop :=
  ∀ (index : Nat) (request : DciRequest), requests[index]? = some request →
    ∃ alloc : DciAlloc, pdu.dciAlloc[index]? = some alloc ∧ alloc.Holds request

/-- The array lists the common DCIs, then the UE-specific ones. -/
structure Lists (pdu : DciPdu) (common ueSpec : List DciRequest) : Prop where
  numCommon : pdu.numCommonDci = common.length
  numUeSpec : pdu.numUeSpecDci = ueSpec.length
  entries : pdu.StartsWith (common ++ ueSpec)

theorem zeroed_lists : zeroed.Lists [] [] := ⟨rfl, rfl, by simp [StartsWith]⟩

theorem modifyAlloc_eq (pdu : DciPdu) {index : Nat} (change : DciAlloc → DciAlloc)
    (inside : index < numDciMax) :
    ∃ written, pdu.modifyAlloc index change = some written ∧
      written.numCommonDci = pdu.numCommonDci ∧ written.numUeSpecDci = pdu.numUeSpecDci ∧
      written.dciAlloc[index]? = pdu.dciAlloc[index]?.map change ∧
      ∀ other, other ≠ index → written.dciAlloc[other]? = pdu.dciAlloc[other]? := by
  refine ⟨_, dif_pos inside, rfl, rfl, ?_, ?_⟩
  · simp [inside]
  · intro other apart
    exact Vector.getElem?_set_ne inside (Ne.symm apart)

theorem StartsWith.append {written : DciPdu} {requests : List DciRequest} {request : DciRequest}
    (entries : pdu.StartsWith requests) (inside : requests.length < numDciMax)
    (here : written.dciAlloc[requests.length]? =
      pdu.dciAlloc[requests.length]?.map (·.fill request))
    (elsewhere : ∀ other, other ≠ requests.length →
      written.dciAlloc[other]? = pdu.dciAlloc[other]?) :
    written.StartsWith (requests ++ [request]) := by
  intro index found at_
  rcases Nat.lt_trichotomy index requests.length with before | rfl | behind
  · rw [List.getElem?_append_left before] at at_
    rw [elsewhere index (Nat.ne_of_lt before)]
    exact entries index found at_
  · rw [List.getElem?_concat_length] at at_
    cases at_
    have old : pdu.dciAlloc[requests.length]? = some pdu.dciAlloc[requests.length] :=
      Vector.getElem?_eq_getElem inside
    rw [here, old]
    exact ⟨_, rfl, DciAlloc.fill_holds _ _⟩
  · rw [List.getElem?_eq_none (by simp; omega)] at at_
    cases at_

theorem Lists.addUeSpecDci (lists : pdu.Lists common ueSpec)
    (room : common.length + ueSpec.length < numDciMax) (request : DciRequest) :
    ∃ next, pdu.addUeSpecDci request = some next ∧ next.Lists common (ueSpec ++ [request]) := by
  have place : pdu.numCommonDci + pdu.numUeSpecDci = (common ++ ueSpec).length := by
    rw [lists.numCommon, lists.numUeSpec, List.length_append]
  have inside : (common ++ ueSpec).length < numDciMax := by
    rw [List.length_append]
    exact room
  obtain ⟨written, modified, numCommon, numUeSpec, here, elsewhere⟩ :=
    pdu.modifyAlloc_eq (·.fill request) inside
  have added : pdu.addUeSpecDci request =
      some { written with numUeSpecDci := (written.numUeSpecDci + 1) % 2 ^ 8 } := by
    rw [DciPdu.addUeSpecDci, place, modified]
    rfl
  refine ⟨_, added, numCommon.trans lists.numCommon, ?_, ?_⟩
  · have small : ueSpec.length + 1 < 2 ^ 8 := by
      unfold numDciMax at room
      omega
    simp only [numUeSpec, lists.numUeSpec, List.length_append, List.length_singleton]
    exact Nat.mod_eq_of_lt small
  · rw [← List.append_assoc]
    exact lists.entries.append inside here elsewhere

theorem addCommonDci_eq (inside : pdu.numCommonDci < numDciMax) (request : DciRequest) :
    ∃ next, pdu.addCommonDci request = some next ∧
      next.numCommonDci = pdu.numCommonDci + 1 ∧ next.numUeSpecDci = pdu.numUeSpecDci ∧
      next.dciAlloc[pdu.numCommonDci]? =
        pdu.dciAlloc[pdu.numCommonDci]?.map (·.fill request) ∧
      ∀ other, other ≠ pdu.numCommonDci → next.dciAlloc[other]? = pdu.dciAlloc[other]? := by
  obtain ⟨written, modified, numCommon, numUeSpec, here, elsewhere⟩ :=
    pdu.modifyAlloc_eq (·.fill request) inside
  have small : pdu.numCommonDci + 1 < 2 ^ 8 := by
    unfold numDciMax at inside
    omega
  have added : pdu.addCommonDci request =
      some { written with numCommonDci := (written.numCommonDci + 1) % 2 ^ 8 } := by
    rw [DciPdu.addCommonDci, modified]
    rfl
  refine ⟨_, added, ?_, numUeSpec, here, elsewhere⟩
  simp only [numCommon]
  exact Nat.mod_eq_of_lt small

theorem Lists.addCommonDci (lists : pdu.Lists common []) (room : common.length < numDciMax)
    (request : DciRequest) :
    ∃ next, pdu.addCommonDci request = some next ∧ next.Lists (common ++ [request]) [] := by
  rw [← lists.numCommon] at room
  obtain ⟨next, added, numCommon, numUeSpec, here, elsewhere⟩ := addCommonDci_eq room request
  have entries := lists.entries
  rw [List.append_nil] at entries
  rw [lists.numCommon] at room here elsewhere
  refine ⟨next, added, ?_, numUeSpec.trans lists.numUeSpec, ?_⟩
  · rw [numCommon, lists.numCommon, List.length_append, List.length_singleton]
  · rw [List.append_nil]
    exact entries.append room here elsewhere

end DciPdu

def CommonFirst (pdu : DciPdu) : DciCall → Prop
  | .common _ => pdu.numUeSpecDci = 0
  | .ueSpec _ => True

instance (pdu : DciPdu) : ∀ call, Decidable (CommonFirst pdu call)
  | .common _ => inferInstanceAs (Decidable (pdu.numUeSpecDci = 0))
  | .ueSpec _ => inferInstanceAs (Decidable True)

theorem execute_addDci_lists {calls : List DciCall} (lists : pdu.Lists common ueSpec)
    (room : common.length + ueSpec.length + calls.length ≤ numDciMax)
    (ordered : HoldsAlong addDci CommonFirst pdu calls) :
    ∃ final, execute addDci pdu calls = some final ∧
      final.Lists (common ++ commonDcis calls) (ueSpec ++ ueSpecDcis calls) := by
  induction calls generalizing pdu common ueSpec with
  | nil => exact ⟨pdu, rfl, by simpa [commonDcis, ueSpecDcis] using lists⟩
  | cons call rest ih =>
    rw [List.length_cons] at room
    obtain ⟨allowed, following⟩ := ordered
    cases call with
    | common request =>
      have none : ueSpec = [] := List.length_eq_zero_iff.mp (lists.numUeSpec ▸ allowed)
      subst none
      obtain ⟨next, added, listed⟩ := lists.addCommonDci (by omega) request
      obtain ⟨final, ended, grown⟩ :=
        ih listed (by simp only [List.length_append, List.length_singleton]; omega)
          (following next added)
      refine ⟨final, by simp [execute, addDci, added, ended], ?_⟩
      simpa [commonDcis, ueSpecDcis] using grown
    | ueSpec request =>
      obtain ⟨next, added, listed⟩ := lists.addUeSpecDci (by omega) request
      obtain ⟨final, ended, grown⟩ :=
        ih listed (by simp only [List.length_append, List.length_singleton]; omega)
          (following next added)
      refine ⟨final, by simp [execute, addDci, added, ended], ?_⟩
      simpa [commonDcis, ueSpecDcis] using grown

/-- If the common DCIs come first, the list is the common DCIs in order, then the
UE-specific ones in order. -/
theorem dci_list_integrity {start : DciPdu} (empty : start.Lists [] []) (calls : List DciCall)
    (room : calls.length ≤ numDciMax) (ordered : HoldsAlong addDci CommonFirst start calls) :
    ∃ final, execute addDci start calls = some final ∧
      final.Lists (commonDcis calls) (ueSpecDcis calls) := by
  simpa using execute_addDci_lists empty (by simpa using room) ordered

def rarDci : DciRequest := ⟨[1, 2, 3, 4], 2, 2, 25, .format1A, true, by decide⟩

private def msg4Dci : DciRequest := ⟨[5, 6, 7, 8], 0x1234, 2, 25, .format1A, false, by decide⟩

theorem dci_list_integrity_rar_msg4 :
    ∃ final, execute addDci DciPdu.zeroed [.common rarDci, .ueSpec msg4Dci] = some final ∧
      final.Lists [rarDci] [msg4Dci] :=
  dci_list_integrity DciPdu.zeroed_lists [.common rarDci, .ueSpec msg4Dci] (by decide)
    (by decide)

/-- Msg4 of one RA process, then a RAR of a later one: the DCI of Msg4 is lost. -/
theorem not_dci_list_integrity :
    ∃ final, execute addDci DciPdu.zeroed [.ueSpec msg4Dci, .common rarDci] = some final ∧
      ¬ final.Lists [rarDci] [msg4Dci] ∧
      ∀ alloc ∈ final.dciAlloc, ¬ alloc.Holds msg4Dci := by
  refine ⟨_, rfl, ?_, ?_⟩
  · intro lists
    obtain ⟨alloc, found, held⟩ := lists.entries 1 msg4Dci rfl
    cases found
    exact absurd held.rnti (by decide)
  · suffices others : ∀ alloc ∈ _, DciAlloc.rnti alloc ≠ msg4Dci.rnti from
      fun alloc mem held => others alloc mem held.rnti
    decide

end OpenAir.Mac
