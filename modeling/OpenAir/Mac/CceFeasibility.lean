import OpenAir.Base.Simulation
import OpenAir.Mac.CceDemands
import OpenAir.Phy.Pdcch

/-! The test for a further DCI against the allocation with that DCI. -/

set_option autoImplicit false

namespace OpenAir.Mac

open OpenAir.Base Option DciPdu

variable {pdu : DciPdu} {change : DciAlloc → DciAlloc} {commonFlag : Bool} {getNcceMax : Nat → Nat}
  {subframe : Nat}

namespace DciPdu

def addByFlag (commonFlag : Bool) (pdu : DciPdu) (request : DciRequest) : Option DciPdu :=
  if commonFlag then pdu.addCommonDci request else pdu.addUeSpecDci request

def tried (commonFlag : Bool) (aggregation : UInt8) (rnti : UInt16) (pdu : DciPdu) :
    Option DciPdu :=
  (pdu.modifyAlloc (pdu.numCommonDci + pdu.numUeSpecDci)
    ({ · with rnti := rnti, l := aggregation })).map fun tried =>
  if commonFlag then { tried with numCommonDci := (tried.numCommonDci + 1) % 2 ^ 8 }
  else { tried with numUeSpecDci := (tried.numUeSpecDci + 1) % 2 ^ 8 }

structure AskAlike (pdu other : DciPdu) : Prop where
  numCommon : pdu.numCommonDci = other.numCommonDci
  numUeSpec : pdu.numUeSpecDci = other.numUeSpecDci
  entries : ∀ index : Nat, pdu.dciAlloc[index]?.map (fun alloc => (alloc.l, alloc.rnti)) =
    other.dciAlloc[index]?.map fun alloc => (alloc.l, alloc.rnti)

theorem AskAlike.demands {other : DciPdu} (alike : pdu.AskAlike other) :
    pdu.demands = other.demands := by
  have same : pdu.demand = other.demand := by
    funext index
    have mapped := congrArg (Option.map fun entry : UInt8 × UInt16 =>
      (⟨index < pdu.numCommonDci, entry.1, entry.2⟩ : DciDemand)) (alike.entries index)
    rw [Option.map_map, Option.map_map] at mapped
    rw [demand, demand, ← alike.numCommon]
    exact mapped
  rw [DciPdu.demands, DciPdu.demands, alike.numCommon, alike.numUeSpec, same]

theorem modifyAlloc_askAlike (pdu : DciPdu) (index : Nat) {other : DciAlloc → DciAlloc}
    (levels : ∀ alloc, (change alloc).l = (other alloc).l)
    (rntis : ∀ alloc, (change alloc).rnti = (other alloc).rnti) :
    Rel AskAlike (pdu.modifyAlloc index change) (pdu.modifyAlloc index other) := by
  unfold modifyAlloc
  split
  next inside =>
    refine .some ⟨rfl, rfl, fun entry => ?_⟩
    by_cases same : index = entry
    · subst same
      simp [Vector.getElem?_set_self, levels, rntis]
    · rw [Vector.getElem?_set_ne inside same, Vector.getElem?_set_ne inside same]
  next => exact .none

theorem modifyAlloc_before {written : DciPdu} {index : Nat}
    (modified : pdu.modifyAlloc index change = some written) :
    index < numDciMax ∧ written.numCommonDci = pdu.numCommonDci ∧
      written.numUeSpecDci = pdu.numUeSpecDci ∧ written.firstDcis index = pdu.firstDcis index := by
  unfold modifyAlloc at modified
  split at modified
  next inside =>
    cases modified
    refine ⟨inside, rfl, rfl, ?_⟩
    rw [firstDcis, firstDcis, Vector.toList_set, List.take_set_of_le (Nat.le_refl _)]
  next => cases modified

theorem tried_askAlike (request : DciRequest) (ordered : commonFlag → pdu.numUeSpecDci = 0) :
    Rel AskAlike (pdu.tried commonFlag request.aggregation request.rnti)
      (pdu.addByFlag commonFlag request) := by
  cases commonFlag with
  | true =>
    have place : pdu.numCommonDci + pdu.numUeSpecDci = pdu.numCommonDci := by
      rw [ordered rfl, Nat.add_zero]
    simp only [tried, addByFlag, if_true, addCommonDci, place]
    refine rel_map (pdu.modifyAlloc_askAlike _ (fun _ => rfl) fun _ => rfl) ?_
    rintro left right ⟨numCommon, numUeSpec, entries⟩
    exact ⟨by rw [numCommon], numUeSpec, entries⟩
  | false =>
    simp only [tried, addByFlag, Bool.false_eq_true, if_false, addUeSpecDci]
    refine rel_map (pdu.modifyAlloc_askAlike _ (fun _ => rfl) fun _ => rfl) ?_
    rintro left right ⟨numCommon, numUeSpec, entries⟩
    exact ⟨numCommon, by rw [numUeSpec], entries⟩

end DciPdu

theorem allocateCces_returned (getNcceMax : Nat → Nat) (subframe : Nat) (testOnly : Bool)
    (pdu : DciPdu) :
    (allocateCces getNcceMax subframe testOnly pdu).map CceAllocation.returned =
      (settle getNcceMax subframe pdu.demands 3 1).map fun settled =>
        if settled.1 then 0 else -1 := by
  have settles := congrArg (Option.map Prod.fst)
    (allocateCces_settles getNcceMax subframe testOnly pdu)
  rwa [map_map, map_map] at settles

theorem allocateCces_returned_cases {testOnly : Bool} {answer : CceAllocation}
    (allocated : allocateCces getNcceMax subframe testOnly pdu = some answer) :
    answer.returned = 0 ∨ answer.returned = -1 := by
  have returned := allocateCces_returned getNcceMax subframe testOnly pdu
  rw [allocated, eq_comm] at returned
  obtain ⟨settled, -, same⟩ := map_eq_some_iff.mp returned
  rw [← same]
  split
  · exact .inl rfl
  · exact .inr rfl

theorem cceAllocationInfeasible_answer {getNcceMax : Nat → Nat} {commonFlag : Bool} {subframe : Nat}
    {pdu : DciPdu} (request : DciRequest) (ordered : commonFlag → pdu.numUeSpecDci = 0) :
    (cceAllocationInfeasible getNcceMax commonFlag subframe request.aggregation request.rnti
        pdu).map Prod.fst =
      (((pdu.addByFlag commonFlag request).bind (allocateCces getNcceMax subframe false)).map
        CceAllocation.returned).map fun returned => decide (returned = -1) := by
  have trial : (cceAllocationInfeasible getNcceMax commonFlag subframe request.aggregation
        request.rnti pdu).map Prod.fst =
      (((pdu.tried commonFlag request.aggregation request.rnti).bind
        (allocateCces getNcceMax subframe true)).map CceAllocation.returned).map
          fun returned => decide (returned = -1) := by
    rw [cceAllocationInfeasible, tried]
    cases pdu.modifyAlloc (pdu.numCommonDci + pdu.numUeSpecDci)
      ({ · with rnti := request.rnti, l := request.aggregation }) with
    | none => rfl
    | some tried =>
      simp only [bind_some, map_some, map_map]
      rfl
  have alike := tried_askAlike request ordered
  rw [trial]
  generalize pdu.tried commonFlag request.aggregation request.rnti = tried at alike ⊢
  generalize pdu.addByFlag commonFlag request = added at alike ⊢
  cases alike with
  | none => rfl
  | some same =>
    rw [bind_some, bind_some, allocateCces_returned, allocateCces_returned, same.demands]

theorem cceAllocationInfeasible_keeps {infeasible : Bool} {aggregation : UInt8} {rnti : UInt16}
    {left : DciPdu}
    (tested : cceAllocationInfeasible getNcceMax commonFlag subframe aggregation rnti pdu =
      some (infeasible, left)) :
    left.numCommonDci = pdu.numCommonDci ∧ left.numUeSpecDci = pdu.numUeSpecDci ∧
      left.dcis = pdu.dcis := by
  obtain ⟨tried, modified, answered⟩ := bind_eq_some_iff.mp tested
  obtain ⟨answer, allocated, result⟩ := map_eq_some_iff.mp answered
  obtain ⟨symbols, remaining⟩ := tryAgain_test allocated
  obtain ⟨inside, numCommon, numUeSpec, before⟩ := modifyAlloc_before modified
  unfold numDciMax at inside
  cases commonFlag with
  | true =>
    simp only [if_true, Prod.mk.injEq, remaining] at result
    obtain ⟨-, rfl⟩ := result
    have count : ((tried.numCommonDci + 1) % 2 ^ 8 + 255) % 2 ^ 8 = pdu.numCommonDci := by omega
    refine ⟨count, numUeSpec, ?_⟩
    rw [dcis, dcis, ← before]
    simp only [count, numUeSpec]
    rfl
  | false =>
    simp only [Bool.false_eq_true, if_false, Prod.mk.injEq, remaining] at result
    obtain ⟨-, rfl⟩ := result
    have count : ((tried.numUeSpecDci + 1) % 2 ^ 8 + 255) % 2 ^ 8 = pdu.numUeSpecDci := by omega
    refine ⟨numCommon, count, ?_⟩
    rw [dcis, dcis, ← before]
    simp only [count, numCommon]
    rfl

/-- The test finds a further DCI feasible just if the list with this DCI can be
allocated, and it leaves the DCIs of the list. -/
def TestAgrees (getNcceMax : Nat → Nat) (commonFlag : Bool) (subframe : Nat) (request : DciRequest)
    (pdu : DciPdu) : Prop :=
  ((∃ left, cceAllocationInfeasible getNcceMax commonFlag subframe request.aggregation
      request.rnti pdu = some (false, left)) ↔
    ∃ added answer, pdu.addByFlag commonFlag request = some added ∧
      allocateCces getNcceMax subframe false added = some answer ∧ answer.returned = 0) ∧
  ∀ infeasible left, cceAllocationInfeasible getNcceMax commonFlag subframe request.aggregation
      request.rnti pdu = some (infeasible, left) →
    left.numCommonDci = pdu.numCommonDci ∧ left.numUeSpecDci = pdu.numUeSpecDci ∧
      left.dcis = pdu.dcis

theorem testAgrees_of_ordered {request : DciRequest} (ordered : commonFlag → pdu.numUeSpecDci = 0) :
    TestAgrees getNcceMax commonFlag subframe request pdu := by
  have same := @cceAllocationInfeasible_answer getNcceMax commonFlag subframe pdu request ordered
  refine ⟨⟨?_, ?_⟩, fun _ _ => cceAllocationInfeasible_keeps⟩
  · rintro ⟨left, tested⟩
    rw [tested, map_some, map_map, eq_comm] at same
    obtain ⟨answer, allocated, feasible⟩ := map_eq_some_iff.mp same
    obtain ⟨added, grown, answered⟩ := bind_eq_some_iff.mp allocated
    refine ⟨added, answer, grown, answered, ?_⟩
    exact (allocateCces_returned_cases answered).resolve_right (of_decide_eq_false feasible)
  · rintro ⟨added, answer, grown, answered, success⟩
    rw [grown, bind_some, answered, map_some, map_some, success] at same
    obtain ⟨⟨_, left⟩, tested, rfl⟩ := map_eq_some_iff.mp same
    exact ⟨left, tested⟩

/-- UE-specific DCIs in front of an entry that was never added: a common DCI takes
the candidates of this entry. -/
private def crowdedList (numUeSpecDci : Nat) : DciPdu :=
  { zeroed with
    numUeSpecDci
    dciAlloc := Vector.ofFn fun index =>
      if index.val = 1 ∨ index.val = numUeSpecDci then { DciAlloc.zeroed with l := 3, rnti := 6 }
      else if index.val = 0 then { DciAlloc.zeroed with l := 2 }
      else { DciAlloc.zeroed with rnti := UInt16.ofNat (62 * index) } }

private def crowdedCces (numUeSpecDci : Nat) : Nat := if numUeSpecDci = 1 then 12 else 84

private theorem crowdedList_refused : ∀ numUeSpecDci < numDciMax, numUeSpecDci ≠ 0 →
    (cceAllocationInfeasible (fun _ => crowdedCces numUeSpecDci) true 0 3 2
        (crowdedList numUeSpecDci)).map Prod.fst = some false ∧
      (((crowdedList numUeSpecDci).addByFlag true { rarDci with aggregation := 3 }).bind
        (allocateCces (fun _ => crowdedCces numUeSpecDci) 0 false)).map CceAllocation.returned =
          some (-1) := by
  decide +kernel

/-- The test agrees with the allocation for all lists with so many UE-specific DCIs
if and only if a common DCI comes before them. -/
theorem feasible_iff_allocated (commonFlag : Bool) {numUeSpecDci : Nat}
    (few : numUeSpecDci < numDciMax) :
    (∀ getNcceMax subframe request, ∀ pdu : DciPdu, pdu.numUeSpecDci = numUeSpecDci →
      TestAgrees getNcceMax commonFlag subframe request pdu) ↔
    (commonFlag → numUeSpecDci = 0) := by
  constructor
  · rintro agrees rfl
    by_contra some_
    obtain ⟨feasible, refused⟩ := crowdedList_refused numUeSpecDci few some_
    obtain ⟨⟨_, left⟩, tested, rfl⟩ := map_eq_some_iff.mp feasible
    obtain ⟨added, answer, grown, answered, success⟩ :=
      (agrees _ 0 { rarDci with aggregation := 3 } _ rfl).1.mp ⟨left, tested⟩
    rw [grown, bind_some, answered, map_some, success] at refused
    cases refused
  · rintro ordered getNcceMax subframe request pdu rfl
    exact testAgrees_of_ordered ordered

private def narrowCell : Phy.FrameParms := ⟨25, .normal, .fdd, 0, .oneSixth, 1⟩

private def oneUeSpecDci : DciPdu :=
  { zeroed with
    numUeSpecDci := 1
    dciAlloc := zeroed.dciAlloc.set 0 { DciAlloc.zeroed with l := 3, rnti := 0x1234 }
      (Nat.zero_lt_succ 31) }

theorem feasible_iff_allocated_ue_spec :
    TestAgrees (Phy.getNcceMac narrowCell 8) false 8 rarDci oneUeSpecDci :=
  (feasible_iff_allocated false (by decide)).mpr nofun _ _ _ oneUeSpecDci rfl

/-- A common DCI after a UE-specific one is tried as a UE-specific DCI, and the
UE-specific one as a common DCI. The test rejects what the allocation accepts. -/
theorem not_feasible_iff_allocated :
    (cceAllocationInfeasible (Phy.getNcceMac narrowCell 8) true 8 2 2 oneUeSpecDci).map
        Prod.fst = some true ∧
      ((oneUeSpecDci.addByFlag true rarDci).bind
        (allocateCces (Phy.getNcceMac narrowCell 8) 8 false)).map CceAllocation.returned =
          some 0 := by
  refine ⟨by decide +kernel, by decide +kernel⟩

end OpenAir.Mac
