import OpenAir.Mac.BlockProperties

/-! A block for DL-SCH is read back by the UE as the eNB wrote it. -/

set_option autoImplicit false

namespace OpenAir.Mac

open OpenAir.Base

def dlschElements (drxCmd : UInt8) (timingAdvanceCmd : Int)
    (ueContResId : Option ContentionResolutionId) : List Element :=
  (if drxCmd ≠ 255 then [(.drxCmd, [])] else []) ++
    (if timingAdvanceCmd ≠ 0 then [(.timingAdvCmd, [timingAdvanceOctet timingAdvanceCmd])]
      else []) ++
    match ueContResId with
    | some id => [(.ueContRes, id.val)]
    | none => []

theorem generateDlschHeader_eq (memory : Nat → UInt8) (sdus : List (Lcid × Nat)) (drxCmd : UInt8)
    (timingAdvanceCmd : Int) (ueContResId : Option ContentionResolutionId)
    (shortPadding postPadding : Nat) :
    generateDlschHeader memory sdus drxCmd timingAdvanceCmd ueContResId shortPadding postPadding =
      generate memory (dlschElements drxCmd timingAdvanceCmd ueContResId) sdus shortPadding
        postPadding := by
  unfold generateDlschHeader generate dlschElements
  cases ueContResId <;> by_cases drx : drxCmd ≠ 255 <;>
    by_cases advance : timingAdvanceCmd ≠ 0 <;> simp [drx, advance, writeElement]

theorem dlschElements_fits (drxCmd : UInt8) (timingAdvanceCmd : Int)
    (ueContResId : Option ContentionResolutionId) :
    ∀ element ∈ dlschElements drxCmd timingAdvanceCmd ueContResId,
      Element.Fits dlschRules element := by
  simp only [dlschElements, List.forall_mem_append]
  refine ⟨⟨?_, ?_⟩, ?_⟩
  · split <;> simp [Element.Fits, dlschRules, Lcid.ueContRes, Lcid.drxCmd, Lcid.shortPadding,
      Lcid.timingAdvCmd]
  · split <;> simp [Element.Fits, dlschRules, Lcid.ueContRes, Lcid.shortPadding, Lcid.timingAdvCmd]
  · split
    next id =>
      simp [Element.Fits, dlschRules, Lcid.ueContRes, Lcid.shortPadding, Lcid.timingAdvCmd,
        id.property]
    next => simp

theorem length_dlschElements (drxCmd : UInt8) (timingAdvanceCmd : Int)
    (ueContResId : Option ContentionResolutionId) :
    (dlschElements drxCmd timingAdvanceCmd ueContResId).length ≤ 3 ∧
      (elementsData (dlschElements drxCmd timingAdvanceCmd ueContResId)).length ≤ 7 := by
  unfold dlschElements
  cases ueContResId <;> by_cases drx : drxCmd ≠ 255 <;>
    by_cases advance : timingAdvanceCmd ≠ 0 <;> simp [drx, advance, elementsData]
  all_goals
    next id => simp [id.property]

theorem elementsData_dlschElements (drxCmd : UInt8) (timingAdvanceCmd : Int)
    (ueContResId : Option ContentionResolutionId) :
    elementsData (dlschElements drxCmd timingAdvanceCmd ueContResId) =
      (if timingAdvanceCmd ≠ 0 then [UInt8.ofNat ((timingAdvanceCmd + 31) % 64).toNat] else []) ++
        (ueContResId.elim [] (·.val)) := by
  unfold dlschElements
  cases ueContResId <;> by_cases drx : drxCmd ≠ 255 <;>
    by_cases advance : timingAdvanceCmd ≠ 0 <;>
    simp [drx, advance, elementsData, timingAdvanceOctet]

theorem lcids_dlschElements (drxCmd : UInt8) (timingAdvanceCmd : Int)
    (ueContResId : Option ContentionResolutionId) :
    (dlschElements drxCmd timingAdvanceCmd ueContResId).map (·.1) =
      (if drxCmd ≠ 255 then [.drxCmd] else []) ++
        (if timingAdvanceCmd ≠ 0 then [.timingAdvCmd] else []) ++
        (if ueContResId ≠ none then [.ueContRes] else []) := by
  unfold dlschElements
  cases ueContResId <;> by_cases drx : drxCmd ≠ 255 <;>
    by_cases advance : timingAdvanceCmd ≠ 0 <;> simp [drx, advance]

theorem dlsch_round_trip (memory : Nat → UInt8) {sdus : List (Lcid × List UInt8)}
    (count : sdus.length ≤ 11)
    (sized : ∀ sdu ∈ sdus, sdu.1.val < 28 ∧ 1 ≤ sdu.2.length ∧ sdu.2.length ≤ 32767)
    (drxCmd : UInt8) (timingAdvanceCmd : Int) (ueContResId : Option ContentionResolutionId)
    (something : sdus ≠ [] ∨ drxCmd ≠ 255 ∨ timingAdvanceCmd ≠ 0 ∨ ueContResId ≠ none)
    {shortPadding postPadding : Nat} {tail : List UInt8}
    (padding : shortPadding ≤ 2 ∧ postPadding = 0 ∧ tail = [] ∨
      shortPadding = 0 ∧ 0 < postPadding) :
    let header := generateDlschHeader memory (sdus.map fun sdu => (sdu.1, sdu.2.length)) drxCmd
      timingAdvanceCmd ueContResId shortPadding postPadding
    let payload := sdus.flatMap (·.2) ++ tail
    let block := header.octets ++ payload
    ∃ parsed, parseHeader block (UInt16.ofNat block.length) = .ok parsed ∧
      parsed.sdus = sdus.map (fun sdu => (sdu.1, UInt16.ofNat sdu.2.length)) ∧
      parsed.ces = (if drxCmd ≠ 255 then [.drxCmd] else []) ++
        (if timingAdvanceCmd ≠ 0 then [.timingAdvCmd] else []) ++
        (if ueContResId ≠ none then [.ueContRes] else []) ∧
      block.drop parsed.offset =
        (if timingAdvanceCmd ≠ 0 then [UInt8.ofNat ((timingAdvanceCmd + 31) % 64).toNat]
          else []) ++ ueContResId.elim [] (·.val) ++ payload := by
  intro header payload block
  have padded : dlschRules.firstElement ≤ Lcid.shortPadding := by decide
  have fits := dlschElements_fits drxCmd timingAdvanceCmd ueContResId
  have few := length_dlschElements drxCmd timingAdvanceCmd ueContResId
  have carried : Carried dlschRules (lengthsOf sdus) := by
    intro entry mem
    obtain ⟨sdu, present, rfl⟩ := List.mem_map.mp mem
    exact ⟨(sized sdu present).1, Nat.lt_succ_of_le (sized sdu present).2.2⟩
  have present : dlschElements drxCmd timingAdvanceCmd ueContResId ≠ [] ∨ sdus ≠ [] := by
    have lcids := lcids_dlschElements drxCmd timingAdvanceCmd ueContResId
    rcases something with some | drx | advance | resolution
    · exact .inr some
    · exact .inl fun none => by simp [none, drx] at lcids
    · exact .inl fun none => by simp [none, advance] at lcids
    · exact .inl fun none => by simp [none, resolution] at lcids
  have short : shortPadding ≤ 2 ∧ (postPadding = 0 → tail = []) := by
    cases padding with
    | inl before => exact ⟨before.1, fun _ => before.2.2⟩
    | inr behind => exact ⟨by simp [behind.1], fun none => absurd none (Nat.ne_of_gt behind.2)⟩
  obtain ⟨parsed, accepted, found, ces, dropped⟩ :=
    generated_round_trip memory padded fits (Nat.le_trans few.1 (by decide)) carried
      (Nat.le_trans count (by decide)) present short.1 (Nat.lt_of_le_of_lt few.2 (by decide))
      short.2
  rw [← generateDlschHeader_eq] at accepted dropped
  refine ⟨parsed, accepted, ?_, ces.trans (lcids_dlschElements ..), ?_⟩
  · simpa [lengthsOf, recorded, Function.comp_def] using found
  · rw [← elementsData_dlschElements drxCmd]
    exact dropped

theorem dlsch_round_trip_two :
    let sdus : List (Lcid × List UInt8) := [(.dcch, [3, 4, 5]), (.dtch, [1, 2])]
    let header := generateDlschHeader (fun _ => 0) (sdus.map fun sdu => (sdu.1, sdu.2.length)) 255
      5 none 0 0
    let block := header.octets ++ (sdus.flatMap (·.2) ++ [])
    ∃ parsed, parseHeader block (UInt16.ofNat block.length) = .ok parsed ∧
      parsed.sdus = [(.dcch, 3), (.dtch, 2)] ∧ parsed.ces = [.timingAdvCmd] ∧
      block.drop parsed.offset = [36, 3, 4, 5, 1, 2] :=
  dlsch_round_trip (fun _ => 0) (by decide) (by decide) 255 5 none (.inl (by decide))
    (.inl ⟨by decide, rfl, rfl⟩)

end OpenAir.Mac
