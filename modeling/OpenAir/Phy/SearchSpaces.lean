import OpenAir.Mac.CceDemands
import OpenAir.Phy.Pdcch

/-! The search spaces of the eNB and of a UE. The eNB tries all candidates and
meets some of them twice where they wrap around; the UE stops before the first of
these. -/

set_option autoImplicit false

namespace OpenAir.Phy

open OpenAir.Base List Nat
open OpenAir.Mac

variable {count first l nCce : Nat}

theorem wrapped_mem_iff {positions start : Nat} (positive : 0 < positions) :
    first ∈ (range count).map (fun m => (start + m) % positions * l) ↔
      first ∈ (range (min count positions)).map
        (fun m => (start + m) % positions * l) := by
  simp only [mem_map, mem_range]
  constructor
  · rintro ⟨m, below, rfl⟩
    refine ⟨m % positions, ?_, by rw [Nat.add_mod_mod]⟩
    exact Nat.lt_min.mpr ⟨Nat.lt_of_le_of_lt (Nat.mod_le ..) below, Nat.mod_lt _ positive⟩
  · rintro ⟨m, below, rfl⟩
    exact ⟨m, Nat.lt_of_lt_of_le below (Nat.min_le_left ..), rfl⟩

theorem limited_eq_min (nCce count : Nat) (positive : 0 < l) :
    (if nCce < count * l then nCce / l else count) = min count (nCce / l) := by
  split
  next few =>
    rw [min_eq_right]
    exact Nat.le_of_lt (Nat.div_lt_of_lt_mul (Nat.mul_comm .. ▸ few))
  next enough =>
    rw [min_eq_left]
    exact (Nat.le_div_iff_mul_le positive).mpr (Nat.le_of_not_lt enough)

def nbCandidates (commonDci : Bool) (l : Nat) : Nat :=
  if commonDci then if l = 4 then 4 else 2 else if l = 1 ∨ l = 2 then 6 else 2

def ueCandidates (doCommon : Bool) (l nCce : Nat) (crnti : UInt16) (subframe : Nat) : List Nat :=
  let yk := if doCommon then 0 else (hashedRnti crnti subframe).toNat % (nCce / l)
  (range (min (nbCandidates doCommon l) (nCce / l))).map fun m => (yk + m) % (nCce / l) * l

theorem visitedCces_eq {numPdcchSymbols mi : Nat} {frameParms : FrameParms} (doCommon : Bool)
    (crnti : UInt16) (subframe : Nat) (level : l ≤ 3)
    (enough : 2 ^ l ≤ getNcce numPdcchSymbols frameParms mi)
    (expected : getNcce numPdcchSymbols frameParms mi ≤ getNcce 3 frameParms 1) :
    visitedCces numPdcchSymbols frameParms mi doCommon crnti subframe l =
      some (ueCandidates doCommon (2 ^ l) (getNcce numPdcchSymbols frameParms mi) crnti
        subframe) := by
  have aggregation := isAggregation_two_pow level
  rw [visitedCces, ueCandidates]
  generalize getNcce numPdcchSymbols frameParms mi = nCce at enough expected ⊢
  generalize 2 ^ l = l2 at aggregation enough ⊢
  simp only [if_neg (not_lt.mpr expected), if_neg (not_lt.mpr enough)]
  have limited := fun count => limited_eq_min nCce count aggregation.pos
  cases doCommon with
  | true => simp only [if_true, Option.map_some, limited, nbCandidates]
  | false =>
    simp only [Bool.false_eq_true, if_false, nbCandidates]
    by_cases small : l2 = 1 ∨ l2 = 2
    · simp [if_pos small, limited]
    · have large : l2 = 4 ∨ l2 = 8 := by
        unfold IsAggregation at aggregation
        omega
      simp [if_neg small, if_pos large, limited]

theorem dciCandidates_mem_iff (aggregation : IsAggregation l) (enough : l ≤ nCce) (commonDci : Bool)
    (rnti : UInt16) (subframe : Nat) :
    ∃ candidates, dciCandidates commonDci l nCce rnti subframe = some candidates ∧
      ∀ first, first ∈ candidates ↔ first ∈ ueCandidates commonDci l nCce rnti subframe := by
  have positive : 0 < nCce / l := Nat.div_pos enough aggregation.pos
  cases commonDci with
  | true =>
    refine ⟨commonCandidates l nCce, rfl, fun first => ?_⟩
    simp only [commonCandidates, ueCandidates, nbCandidates, if_true, mem_map,
      mem_reverse, mem_range, Nat.zero_add]
    constructor
    · rintro ⟨m, below, rfl⟩
      exact ⟨m, below, by rw [Nat.mod_eq_of_lt (Nat.lt_min.mp below).2]⟩
    · rintro ⟨m, below, rfl⟩
      exact ⟨m, below, by rw [Nat.mod_eq_of_lt (Nat.lt_min.mp below).2]⟩
  | false =>
    have listed : ueSpecCandidates l nCce rnti subframe =
        some ((range (nbCandidates false l)).map fun m =>
          ((hashedRnti rnti subframe).toNat % (nCce / l) + m) % (nCce / l) * l) := by
      rw [ueSpecCandidates, if_neg (Nat.ne_of_gt positive)]
      by_cases small : l = 1 ∨ l = 2
      · simp [if_pos small, nbCandidates]
      · have large : l = 4 ∨ l = 8 := by
          unfold IsAggregation at aggregation
          omega
        simp [if_neg small, if_pos large, nbCandidates]
    exact ⟨_, listed, fun first => wrapped_mem_iff positive⟩

theorem ueCandidates_place (aggregation : IsAggregation l) (enough : l ≤ nCce) {doCommon : Bool}
    {crnti : UInt16} {subframe : Nat}
    (mem : first ∈ ueCandidates doCommon l nCce crnti subframe) : Place l nCce first := by
  obtain ⟨m, -, rfl⟩ := mem_map.mp mem
  exact place_of_lt (mod_lt _ (div_pos enough aggregation.pos))

/-! A table in which only one candidate is free makes the eNB take that one. -/

def occupiedExcept (first l : Nat) : CceTable :=
  Vector.ofFn fun cce => decide (¬ (first ≤ cce.val ∧ cce.val < first + l))

theorem occupiedExcept_getElem? {cce : Nat} (inside : cce < 800) :
    (occupiedExcept first l)[cce]? = some (decide (¬ (first ≤ cce ∧ cce < first + l))) := by
  rw [Vector.getElem?_eq_getElem inside, occupiedExcept, Vector.getElem_ofFn]

theorem takeCandidate_only_free {candidates : List Nat} (positive : 0 < l)
    (aligned : ∀ other ∈ candidates, l ∣ other) (inside : ∀ other ∈ candidates, other + l ≤ 800)
    (mem : first ∈ candidates) :
    ∃ marked, takeCandidate (occupiedExcept first l) l candidates = some (some first, marked) := by
  obtain ⟨⟨chosen, marked⟩, found⟩ :=
    @takeCandidate_isSome l (occupiedExcept first l) candidates inside
  have only : ∀ other ∈ candidates, decide (other = first) = true ↔
      Disjoint (Set.Ico other (other + l)) (usedCces (occupiedExcept first l)) := by
    intro other listed
    have within := inside other listed
    rw [decide_eq_true_eq, Set.disjoint_left]
    constructor
    · rintro rfl cce ⟨above, below⟩ used
      rw [mem_usedCces, occupiedExcept_getElem? (by omega)] at used
      simp [above, below] at used
    · intro apart
      have here := apart (show other ∈ Set.Ico other (other + l) from ⟨le_refl _, by omega⟩)
      rw [mem_usedCces, occupiedExcept_getElem? (by omega)] at here
      -- two candidates of one aggregation are the same or apart
      obtain ⟨index, rfl⟩ := aligned first mem
      obtain ⟨otherIndex, rfl⟩ := aligned other listed
      simp only [Option.some.injEq, decide_eq_true_eq, not_not, ← Nat.mul_succ] at here
      have lower := Nat.le_of_mul_le_mul_left here.1 positive
      have upper := Nat.lt_of_mul_lt_mul_left here.2
      rw [show otherIndex = index by omega]
  have some_ : (candidates.find? fun other => decide (other = first)).isSome :=
    find?_isSome.mpr ⟨first, mem, decide_eq_true rfl⟩
  obtain ⟨other, isFirst⟩ := Option.isSome_iff_exists.mp some_
  have same := find?_some isFirst
  rw [decide_eq_true_eq] at same
  subst same
  exact ⟨marked, by rw [found, takeCandidate_find only found, isFirst]⟩

theorem getNcceOffset_offers {commonDci : Bool} {rnti : UInt16} {subframe : Nat}
    (aggregation : IsAggregation l) (enough : l ≤ nCce) (bounded : nCce ≤ 800)
    (mem : first ∈ ueCandidates commonDci l nCce rnti subframe) :
    ∃ table marked,
      getNcceOffset table l nCce commonDci rnti subframe = some (some first, marked) := by
  obtain ⟨candidates, listed, same⟩ :=
    dciCandidates_mem_iff aggregation enough commonDci rnti subframe
  have places := fun other listed =>
    ueCandidates_place aggregation enough ((same other).mp listed)
  obtain ⟨marked, found⟩ := takeCandidate_only_free aggregation.pos
    (fun other listed => (places other listed).aligned)
    (fun other listed => le_trans (places other listed).within bounded) ((same first).mpr mem)
  exact ⟨_, marked, by
    rw [getNcceOffset_candidates _ aggregation.pos, listed, Option.bind_some, found]⟩

/-! The search of the UE. -/

theorem DciSearch.visit_succeeds (decode : Nat → Decoded) (filter : DciFilter) {cceInd : Nat}
    (level : l ≤ 3) (few : cceInd < 96) (search : DciSearch) :
    ∃ next, search.visit decode filter l cceInd = some next := by
  have word : search.cceMap[cceInd / 32]? = some search.cceMap[cceInd / 32] :=
    Vector.getElem?_eq_getElem (by omega)
  rw [DciSearch.visit, word, Option.bind_some, if_neg (not_lt.mpr level)]
  split
  · exact ⟨_, rfl⟩
  · simp only
    split
    · exact ⟨_, rfl⟩
    · exact ⟨_, rfl⟩

theorem place_one_word (aggregation : IsAggregation l) (aligned : l ∣ first) :
    (first + l - 1) / 32 = first / 32 := by
  rcases aggregation with rfl | rfl | rfl | rfl <;> omega

/-- The UE visits the places at which the eNB can put a DCI for it and no others, each
within the CCEs and within a word of the map, if and only if it expects as many CCEs as
there are. -/
theorem search_spaces_agree (numPdcchSymbols mi : Nat) (frameParms : FrameParms) {l : Nat}
    (level : l ≤ 3) (commonDci : Bool) (rnti : UInt16) (subframe : Nat)
    (enough : 2 ^ l ≤ getNcce numPdcchSymbols frameParms mi)
    (few : getNcce numPdcchSymbols frameParms mi < 96) :
    (∃ visited, visitedCces numPdcchSymbols frameParms mi commonDci rnti subframe l =
        some visited ∧
      (∀ table first marked, getNcceOffset table (2 ^ l) (getNcce numPdcchSymbols frameParms mi)
          commonDci rnti subframe = some (some first, marked) → first ∈ visited) ∧
      (∀ first ∈ visited, first + 2 ^ l ≤ getNcce numPdcchSymbols frameParms mi ∧
        (first + 2 ^ l - 1) / 32 = first / 32) ∧
      (∀ first ∈ visited, ∃ table marked,
        getNcceOffset table (2 ^ l) (getNcce numPdcchSymbols frameParms mi) commonDci rnti
          subframe = some (some first, marked)) ∧
      ∀ decode filter search, filter.crnti = rnti → ∃ found,
        visited.foldlM (DciSearch.visit decode filter l) search = some found ∧
        dciDecodingProcedure0 numPdcchSymbols frameParms mi commonDci subframe l decode filter
          search = some found) ↔
    getNcce numPdcchSymbols frameParms mi ≤ getNcce 3 frameParms 1 := by
  have aggregation := isAggregation_two_pow level
  have offers := fun {first} => @getNcceOffset_offers first _ _ commonDci rnti subframe aggregation
    enough (by omega)
  constructor
  · rintro ⟨visited, visits, visitsAll, -⟩
    by_contra more
    rw [visitedCces, if_pos (not_le.mp more)] at visits
    cases visits
    have some_ : 0 < min (nbCandidates commonDci (2 ^ l))
        (getNcce numPdcchSymbols frameParms mi / 2 ^ l) := by
      refine Nat.lt_min.mpr ⟨?_, div_pos enough aggregation.pos⟩
      unfold nbCandidates
      split_ifs <;> decide
    obtain ⟨table, marked, found⟩ := offers (mem_map_of_mem (mem_range.mpr some_))
    exact absurd (visitsAll table _ marked found) not_mem_nil
  · intro expected
    have visits := fun crnti => visitedCces_eq commonDci crnti subframe level enough expected
    refine ⟨_, visits rnti, ?_, ?_, fun first mem => offers mem, ?_⟩
    · intro table first marked found
      obtain ⟨candidates, listed, same⟩ :=
        dciCandidates_mem_iff aggregation enough commonDci rnti subframe
      rw [getNcceOffset_candidates _ aggregation.pos, listed, Option.bind_some] at found
      exact (same first).mp (takeCandidate_some found).1
    · intro first mem
      have place := ueCandidates_place aggregation enough mem
      exact ⟨place.within, place_one_word aggregation place.aligned⟩
    · rintro decode filter search rfl
      have inMap : ∀ cceInd ∈ ueCandidates commonDci (2 ^ l)
          (getNcce numPdcchSymbols frameParms mi) filter.crnti subframe, cceInd < 96 := by
        intro cceInd mem
        have within := (ueCandidates_place aggregation enough mem).within
        have positive := aggregation.pos
        omega
      obtain ⟨found, folded⟩ := foldlM_succeeds search fun state cceInd mem =>
        DciSearch.visit_succeeds decode filter level (inMap cceInd mem) state
      refine ⟨found, folded, ?_⟩
      rw [dciDecodingProcedure0, visits, Option.bind_some, folded]

private def fddCell : FrameParms := ⟨25, .normal, .fdd, 0, .one, 1⟩

theorem search_spaces_agree_fdd :
    getNcce 3 fddCell (getMi fddCell 0) = 20 ∧
      ∃ visited, visitedCces 3 fddCell 1 false 0x1234 0 2 = some visited ∧
        (∀ table first marked, getNcceOffset table (2 ^ 2) (getNcce 3 fddCell 1)
            false 0x1234 0 = some (some first, marked) → first ∈ visited) ∧
        (∀ first ∈ visited, first + 2 ^ 2 ≤ getNcce 3 fddCell 1 ∧
          (first + 2 ^ 2 - 1) / 32 = first / 32) ∧
        (∀ first ∈ visited, ∃ table marked,
          getNcceOffset table (2 ^ 2) (getNcce 3 fddCell 1) false 0x1234 0 =
            some (some first, marked)) ∧
        ∀ decode filter search, filter.crnti = 0x1234 → ∃ found,
          visited.foldlM (DciSearch.visit decode filter 2) search = some found ∧
          dciDecodingProcedure0 3 fddCell 1 false 0 2 decode filter search = some found :=
  ⟨by decide, (search_spaces_agree 3 1 fddCell (by decide) false 0x1234 0 (by decide)
    (by decide)).mpr (by decide)⟩

private def tddCell : FrameParms := ⟨25, .normal, .tdd, 1, .one, 1⟩

/-- In a TDD cell without PHICH in the subframe there are 21 CCEs, and the UE
expects 20 at most. The eNB places a DCI, and the UE does not visit any place. -/
theorem not_search_spaces_agree :
    getNcce 3 tddCell (getMi tddCell 0) = 21 ∧
      (getNcceOffset initCceTable (2 ^ 2) 21 false 0x1234 0).map Prod.fst = some (some 12) ∧
      visitedCces 3 tddCell (getMi tddCell 0) false 0x1234 0 2 = some [] := by
  refine ⟨by decide, by decide +kernel, by decide⟩

end OpenAir.Phy
