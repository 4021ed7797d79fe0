import Mathlib.Data.Set.BooleanAlgebra
import Mathlib.Order.CompletePartialOrder
import Mathlib.Order.Interval.Set.Basic
import OpenAir.Mac.CceAllocation

/-! The CCEs of the DCIs do not overlap. The table contains the CCEs of the DCIs
placed so far; a DCI is placed on CCEs that the table does not contain. -/

set_option autoImplicit false

namespace OpenAir.Mac

open Option

def usedCces (table : CceTable) : Set Nat := { cce | table[cce]? = some true }

variable {count first index l nCce nCceMax subframe : Nat} {next pdu : DciPdu}
  {table marked : CceTable} {alloc : DciAlloc} {candidates : List Nat} {getNcceMax : Nat → Nat}

theorem mem_usedCces {cce : Nat} :
    cce ∈ usedCces table ↔ table[cce]? = some true := Iff.rfl

theorem searchSpaceFree_iff {free : Bool}
    (searched : searchSpaceFree table first count = some free) :
    free = true ↔ Disjoint (Set.Ico first (first + count)) (usedCces table) := by
  induction count generalizing first with
  | zero =>
    cases searched
    simp
  | succ count ih =>
    obtain ⟨used, here, rest⟩ := bind_eq_some_iff.mp searched
    split at rest
    next taken =>
      cases rest
      subst taken
      refine ⟨nofun, fun apart => ?_⟩
      exact absurd here (Set.disjoint_left.mp apart ⟨Nat.le_refl _, by omega⟩)
    next unused =>
      rw [ih rest]
      have splits : Set.Ico first (first + (count + 1)) =
          insert first (Set.Ico (first + 1) (first + 1 + count)) := by
        ext cce
        simp only [Set.mem_Ico, Set.mem_insert_iff]
        omega
      rw [splits, Set.disjoint_insert_left, mem_usedCces, here]
      simp [unused]

theorem markCces_used (found : markCces table first count = some marked) :
    usedCces marked = usedCces table ∪ Set.Ico first (first + count) := by
  induction count generalizing first table with
  | zero =>
    cases found
    simp
  | succ count ih =>
    rw [markCces] at found
    split at found
    next below =>
      rw [ih found]
      ext cce
      by_cases same : first = cce
      · subst same
        simp [usedCces]
      · simp only [Set.mem_union, mem_usedCces, Vector.getElem?_set_ne below same, Set.mem_Ico]
        have : first + 1 ≤ cce ∧ cce < first + 1 + count ↔
            first ≤ cce ∧ cce < first + (count + 1) := by omega
        rw [this]
    next => cases found

theorem takeCandidate_some (found : takeCandidate table l candidates = some (some first, marked)) :
    first ∈ candidates ∧ Disjoint (Set.Ico first (first + l)) (usedCces table) ∧
      usedCces marked = usedCces table ∪ Set.Ico first (first + l) := by
  induction candidates with
  | nil => cases found
  | cons other rest ih =>
    obtain ⟨free, searched, step⟩ := bind_eq_some_iff.mp found
    split at step
    next isFree =>
      obtain ⟨_, grown, pair⟩ := map_eq_some_iff.mp step
      cases pair
      exact ⟨List.mem_cons_self .., (searchSpaceFree_iff searched).mp isFree, markCces_used grown⟩
    next => exact ⟨List.mem_cons_of_mem _ (ih step).1, (ih step).2⟩

theorem takeCandidate_find {isFree : Nat → Bool} {chosen : Option Nat}
    (means : ∀ first ∈ candidates,
      isFree first ↔ Disjoint (Set.Ico first (first + l)) (usedCces table))
    (found : takeCandidate table l candidates = some (chosen, marked)) :
    chosen = candidates.find? isFree := by
  induction candidates with
  | nil =>
    cases found
    rfl
  | cons first rest ih =>
    obtain ⟨free, searched, step⟩ := bind_eq_some_iff.mp found
    obtain ⟨here, others⟩ := List.forall_mem_cons.mp means
    obtain rfl : free = isFree first :=
      Bool.eq_iff_iff.mpr ((searchSpaceFree_iff searched).trans here.symm)
    split at step
    next isFirst =>
      obtain ⟨_, -, pair⟩ := map_eq_some_iff.mp step
      cases pair
      rw [List.find?_cons_of_pos isFirst]
    next notFirst => rw [List.find?_cons_of_neg notFirst, ih others step]

theorem searchSpaceFree_isSome (inside : first + count ≤ 800) :
    ∃ free, searchSpaceFree table first count = some free := by
  induction count generalizing first with
  | zero => exact ⟨true, rfl⟩
  | succ count ih =>
    have here : table[first]? = some table[first] := Vector.getElem?_eq_getElem (by omega)
    rw [searchSpaceFree, here, bind_some]
    split
    · exact ⟨false, rfl⟩
    · exact ih (by omega)

theorem markCces_isSome (inside : first + count ≤ 800) :
    ∃ marked, markCces table first count = some marked := by
  induction count generalizing first table with
  | zero => exact ⟨table, rfl⟩
  | succ count ih =>
    rw [markCces, dif_pos (by omega)]
    exact ih (by omega)

theorem takeCandidate_isSome (inside : ∀ first ∈ candidates, first + l ≤ 800) :
    ∃ result, takeCandidate table l candidates = some result := by
  induction candidates with
  | nil => exact ⟨_, rfl⟩
  | cons first rest ih =>
    obtain ⟨within, others⟩ := List.forall_mem_cons.mp inside
    obtain ⟨free, searched⟩ := @searchSpaceFree_isSome l first table within
    obtain ⟨marked, found⟩ := @markCces_isSome l first table within
    rw [takeCandidate, searched, bind_some]
    split
    · exact ⟨_, by rw [found, map_some]⟩
    · exact ih others

structure Place (l nCce first : Nat) : Prop where
  aligned : l ∣ first
  within : first + l ≤ nCce

theorem place_of_lt (below : index < nCce / l) :
    Place l nCce (index * l) := by
  refine ⟨Nat.dvd_mul_left .., ?_⟩
  calc index * l + l = (index + 1) * l := by rw [Nat.add_mul, Nat.one_mul]
    _ ≤ nCce / l * l := Nat.mul_le_mul_right l below
    _ ≤ nCce := Nat.div_mul_le_self ..

theorem commonCandidates_place (mem : first ∈ commonCandidates l nCce) :
    Place l nCce first := by
  obtain ⟨index, listed, rfl⟩ := List.mem_map.mp mem
  have below := List.mem_range.mp (List.mem_reverse.mp listed)
  exact place_of_lt (Nat.lt_of_lt_of_le below (Nat.min_le_right ..))

def IsAggregation (l : Nat) : Prop := l = 1 ∨ l = 2 ∨ l = 4 ∨ l = 8

theorem IsAggregation.pos (aggregation : IsAggregation l) : 0 < l := by
  unfold IsAggregation at aggregation
  omega

theorem isAggregation_two_pow (level : l ≤ 3) : IsAggregation (2 ^ l) := by
  unfold IsAggregation
  rcases (by omega : l = 0 ∨ l = 1 ∨ l = 2 ∨ l = 3) with rfl | rfl | rfl | rfl <;> decide

theorem ueSpecCandidates_place {rnti : UInt16}
    (listed : ueSpecCandidates l nCce rnti subframe = some candidates)
    (mem : first ∈ candidates) : Place l nCce first := by
  rw [ueSpecCandidates] at listed
  split at listed
  · cases listed
  next positive =>
    have places : ∀ count : Nat, first ∈ (List.range count).map (fun m =>
        ((hashedRnti rnti subframe).toNat % (nCce / l) + m) % (nCce / l) * l) →
        Place l nCce first := by
      intro count listedFirst
      obtain ⟨index, -, rfl⟩ := List.mem_map.mp listedFirst
      exact place_of_lt (Nat.mod_lt _ (Nat.pos_of_ne_zero positive))
    split at listed
    · cases listed
      exact places 6 mem
    · split at listed
      · cases listed
        exact places 2 mem
      · cases listed

def dciCandidates (commonDci : Bool) (l nCce : Nat) (rnti : UInt16) (subframe : Nat) :
    Option (List Nat) :=
  if commonDci then some (commonCandidates l nCce) else ueSpecCandidates l nCce rnti subframe

theorem dciCandidates_place {commonDci : Bool} {rnti : UInt16}
    (listed : dciCandidates commonDci l nCce rnti subframe = some candidates)
    (mem : first ∈ candidates) : Place l nCce first := by
  cases commonDci with
  | true =>
    cases listed
    exact commonCandidates_place mem
  | false => exact ueSpecCandidates_place listed mem

theorem dciCandidates_isSome (aggregation : IsAggregation l) (enough : l ≤ nCce) (commonDci : Bool)
    (rnti : UInt16) (subframe : Nat) :
    ∃ candidates, dciCandidates commonDci l nCce rnti subframe = some candidates := by
  have positive : nCce / l ≠ 0 := Nat.ne_of_gt (Nat.div_pos enough aggregation.pos)
  cases commonDci with
  | true => exact ⟨_, rfl⟩
  | false =>
    rw [dciCandidates, if_neg Bool.false_ne_true, ueSpecCandidates, if_neg positive]
    unfold IsAggregation at aggregation
    by_cases small : l = 1 ∨ l = 2
    · exact ⟨_, if_pos small⟩
    · exact ⟨_, by simp only [if_neg small, if_pos (show l = 4 ∨ l = 8 by omega)]; rfl⟩

theorem getNcceOffset_candidates (table : CceTable) (positive : 0 < l) (nCce : Nat)
    (commonDci : Bool) (rnti : UInt16) (subframe : Nat) :
    getNcceOffset table l nCce commonDci rnti subframe =
      (dciCandidates commonDci l nCce rnti subframe).bind (takeCandidate table l) := by
  rw [getNcceOffset, if_neg (Nat.ne_of_gt positive)]
  cases commonDci with
  | true => rfl
  | false => rfl

theorem getNcceOffset_isSome (aggregation : IsAggregation l) (enough : l ≤ nCce)
    (bounded : nCce ≤ 800) (commonDci : Bool) (rnti : UInt16) (subframe : Nat) :
    ∃ result, getNcceOffset table l nCce commonDci rnti subframe = some result := by
  obtain ⟨candidates, listed⟩ := dciCandidates_isSome aggregation enough commonDci rnti subframe
  rw [getNcceOffset_candidates table aggregation.pos, listed]
  exact takeCandidate_isSome fun first mem =>
    Nat.le_trans (dciCandidates_place listed mem).within bounded

/-- The aggregation is handed over in an octet. -/
theorem getNcceOffset_octet {level : Nat} {commonDci : Bool} {rnti : UInt16}
    {result : Option Nat × CceTable}
    (found : getNcceOffset table (2 ^ level % 2 ^ 8) nCce commonDci rnti subframe = some result) :
    ∃ candidates, dciCandidates commonDci (2 ^ level) nCce rnti subframe = some candidates ∧
      takeCandidate table (2 ^ level) candidates = some result := by
  have fits : 2 ^ level % 2 ^ 8 ≠ 0 := by
    intro zero
    rw [getNcceOffset, if_pos zero] at found
    cases found
  have whole : 2 ^ level % 2 ^ 8 = 2 ^ level := by
    refine Nat.mod_eq_of_lt (Nat.pow_lt_pow_right (by decide) ?_)
    by_contra large
    exact fits (Nat.mod_eq_zero_of_dvd (Nat.pow_dvd_pow 2 (by omega)))
  rw [whole, getNcceOffset_candidates table (Nat.two_pow_pos level)] at found
  exact bind_eq_some_iff.mp found

def DciAlloc.unplaced (alloc : DciAlloc) : DciAlloc := { alloc with firstCce := 0 }

def DciAlloc.cces (alloc : DciAlloc) : Set Nat :=
  Set.Ico alloc.firstCce.toNat (alloc.firstCce.toNat + 2 ^ alloc.l.toNat)

def DciAlloc.Placed (alloc : DciAlloc) (nCce : Nat) : Prop :=
  0 ≤ alloc.firstCce ∧ Place (2 ^ alloc.l.toNat) nCce alloc.firstCce.toNat

namespace DciPdu

def firstDcis (pdu : DciPdu) (count : Nat) : List DciAlloc := pdu.dciAlloc.toList.take count

def dcis (pdu : DciPdu) : List DciAlloc := pdu.firstDcis (pdu.numCommonDci + pdu.numUeSpecDci)

structure SameDcis (pdu other : DciPdu) : Prop where
  numCommon : other.numCommonDci = pdu.numCommonDci
  numUeSpec : other.numUeSpecDci = pdu.numUeSpecDci
  entries : other.dciAlloc.map DciAlloc.unplaced = pdu.dciAlloc.map DciAlloc.unplaced

theorem SameDcis.refl (pdu : DciPdu) : pdu.SameDcis pdu := ⟨rfl, rfl, rfl⟩

theorem SameDcis.trans {first second third : DciPdu} (left : first.SameDcis second)
    (right : second.SameDcis third) : first.SameDcis third :=
  ⟨right.numCommon.trans left.numCommon, right.numUeSpec.trans left.numUeSpec,
    right.entries.trans left.entries⟩

structure PlacedUpTo (pdu : DciPdu) (nCce count : Nat) (table : CceTable) : Prop where
  places : ∀ alloc ∈ pdu.firstDcis count, alloc.Placed nCce
  marked : ∀ alloc ∈ pdu.firstDcis count, alloc.cces ⊆ usedCces table
  apart : (pdu.firstDcis count).Pairwise fun left right => Disjoint left.cces right.cces

theorem firstDcis_succ (found : pdu.dciAlloc[index]? = some alloc) :
    pdu.firstDcis (index + 1) = pdu.firstDcis index ++ [alloc] := by
  have listed : pdu.dciAlloc.toList[index]? = some alloc := by
    rw [Vector.getElem?_toList, found]
  rw [firstDcis, List.take_add_one, listed]
  rfl

theorem place_eq (found : pdu.dciAlloc[index]? = some alloc) (first : Int) :
    ∃ next, pdu.modifyAlloc index ({ · with firstCce := first }) = some next ∧
      pdu.SameDcis next ∧ next.numPdcchSymbols = pdu.numPdcchSymbols ∧
      next.firstDcis index = pdu.firstDcis index ∧
      next.dciAlloc[index]? = some { alloc with firstCce := first } := by
  obtain ⟨inside, rfl⟩ := Vector.getElem?_eq_some_iff.mp found
  refine ⟨_, dif_pos inside, ⟨rfl, rfl, ?_⟩, rfl, ?_, ?_⟩
  · have same : DciAlloc.unplaced { pdu.dciAlloc[index] with firstCce := first } =
        (pdu.dciAlloc.map DciAlloc.unplaced)[index] := by
      rw [Vector.getElem_map]
      rfl
    rw [Vector.map_set]
    simp only [same]
    exact Vector.set_getElem_self _
  · rw [firstDcis, Vector.toList_set, List.take_set_of_le (Nat.le_refl _)]
    rfl
  · simp

theorem SameDcis.levels {other : DciPdu} (same : pdu.SameDcis other)
    (levels : ∀ alloc ∈ pdu.firstDcis count, alloc.l ≤ 3) :
    ∀ alloc ∈ other.firstDcis count, alloc.l ≤ 3 := by
  intro alloc mem
  have listed : (other.firstDcis count).map DciAlloc.unplaced =
      (pdu.firstDcis count).map DciAlloc.unplaced := by
    have entries := congrArg Vector.toList same.entries
    rw [Vector.toList_map, Vector.toList_map] at entries
    rw [firstDcis, firstDcis, List.map_take, List.map_take, entries]
  have mapped : alloc.unplaced ∈ (pdu.firstDcis count).map DciAlloc.unplaced :=
    listed ▸ List.mem_map_of_mem mem
  obtain ⟨old, oldMember, equal⟩ := List.mem_map.mp mapped
  have level : old.unplaced.l = alloc.unplaced.l := congrArg DciAlloc.l equal
  exact level ▸ levels old oldMember

theorem firstDcis_getElem? (found : pdu.dciAlloc[index]? = some alloc) (below : index < count) :
    alloc ∈ pdu.firstDcis count := by
  rw [← Vector.getElem?_toList] at found
  exact List.mem_of_getElem? ((List.getElem?_take_of_lt below).trans found)

theorem PlacedUpTo.succ {marked : CceTable} (placed : pdu.PlacedUpTo nCce index table)
    (earlier : next.firstDcis index = pdu.firstDcis index)
    (found : next.dciAlloc[index]? = some { alloc with firstCce := first })
    (place : Place (2 ^ alloc.l.toNat) nCce first)
    (free : Disjoint (Set.Ico first (first + 2 ^ alloc.l.toNat)) (usedCces table))
    (marks : usedCces marked = usedCces table ∪ Set.Ico first (first + 2 ^ alloc.l.toNat)) :
    next.PlacedUpTo nCce (index + 1) marked := by
  have listed := firstDcis_succ found
  rw [earlier] at listed
  refine ⟨?_, ?_, ?_⟩
  · intro other mem
    rw [listed] at mem
    rcases List.mem_append.mp mem with old | new
    · exact placed.places other old
    · cases List.mem_singleton.mp new
      exact ⟨Int.natCast_nonneg first, place⟩
  · intro other mem
    rw [listed] at mem
    rw [marks]
    rcases List.mem_append.mp mem with old | new
    · exact fun cce within => .inl (placed.marked other old within)
    · cases List.mem_singleton.mp new
      exact fun cce within => .inr within
  · rw [listed]
    refine List.pairwise_append.mpr ⟨placed.apart, List.pairwise_singleton .., ?_⟩
    intro other old new mem
    cases List.mem_singleton.mp mem
    exact (Set.disjoint_of_subset_right (placed.marked other old) free).symm

end DciPdu

/-! A pass over the DCIs changes nothing of them but their places. -/

variable {left : Nat} {testOnly : Bool} {pass : CcePass}

theorem allocateDcis_same
    (ended : allocateDcis nCceMax subframe testOnly left index nCce pdu table = some pass) :
    pdu.SameDcis pass.pdu ∧ pass.pdu.numPdcchSymbols = pdu.numPdcchSymbols := by
  induction left generalizing index nCce pdu table with
  | zero =>
    cases ended
    exact ⟨.refl pdu, rfl⟩
  | succ left ih =>
    obtain ⟨alloc, found, step⟩ := bind_eq_some_iff.mp ended
    split at step
    · cases step
      exact ⟨.refl pdu, rfl⟩
    · obtain ⟨⟨chosen, marked⟩, -, rest⟩ := bind_eq_some_iff.mp step
      cases chosen with
      | none =>
        cases rest
        exact ⟨.refl pdu, rfl⟩
      | some first =>
        obtain ⟨next, modified, same, symbols, -⟩ := DciPdu.place_eq found (first : Int)
        cases testOnly with
        | true => exact ih rest
        | false =>
          simp only [Bool.false_eq_true, if_false, modified, bind_some] at rest
          obtain ⟨kept, passSymbols⟩ := ih rest
          exact ⟨same.trans kept, passSymbols.trans symbols⟩

theorem allocateDcis_placed
    (ended : allocateDcis nCceMax subframe false left index nCce pdu table = some pass)
    (success : pass.placed) (placed : pdu.PlacedUpTo nCceMax index table) :
    pass.pdu.PlacedUpTo nCceMax (index + left) pass.table := by
  induction left generalizing index nCce pdu table with
  | zero =>
    cases ended
    exact placed
  | succ left ih =>
    obtain ⟨alloc, found, step⟩ := bind_eq_some_iff.mp ended
    split at step
    · cases step
      cases success
    · obtain ⟨⟨chosen, marked⟩, offset, rest⟩ := bind_eq_some_iff.mp step
      cases chosen with
      | none =>
        cases rest
        cases success
      | some first =>
        obtain ⟨candidates, listed, chose⟩ := getNcceOffset_octet offset
        obtain ⟨mem, free, marks⟩ := takeCandidate_some chose
        obtain ⟨next, modified, -, -, earlier, set⟩ := DciPdu.place_eq found (first : Int)
        simp only [Bool.false_eq_true, if_false, modified, bind_some] at rest
        have shifted : index + 1 + left = index + (left + 1) := by omega
        exact shifted ▸ ih rest
          (placed.succ earlier set (dciCandidates_place listed mem) free marks)

theorem isAggregation_of_level {l : UInt8} (level : l ≤ 3) : IsAggregation (2 ^ l.toNat) :=
  isAggregation_two_pow level

theorem allocateDcis_isSome (bounded : nCceMax ≤ 800) (subframe : Nat)
    (room : index + left ≤ numDciMax)
    (levels : ∀ alloc ∈ pdu.firstDcis (index + left), alloc.l ≤ 3) :
    ∃ pass, allocateDcis nCceMax subframe false left index nCce pdu table = some pass := by
  induction left generalizing index nCce pdu table with
  | zero => exact ⟨_, rfl⟩
  | succ left ih =>
    obtain ⟨alloc, found⟩ : ∃ alloc, pdu.dciAlloc[index]? = some alloc :=
      ⟨_, Vector.getElem?_eq_getElem (by omega)⟩
    have aggregation := isAggregation_of_level
      (levels alloc (DciPdu.firstDcis_getElem? found (by omega)))
    have octet : 2 ^ alloc.l.toNat % 2 ^ 8 = 2 ^ alloc.l.toNat := by
      unfold IsAggregation at aggregation
      omega
    rw [allocateDcis, found, bind_some]
    split
    · exact ⟨_, rfl⟩
    · obtain ⟨⟨chosen, marked⟩, offset⟩ := @getNcceOffset_isSome _ nCceMax table aggregation
        (by omega) bounded (index < pdu.numCommonDci) alloc.rnti subframe
      rw [octet, offset, bind_some]
      cases chosen with
      | none => exact ⟨_, rfl⟩
      | some first =>
        obtain ⟨next, modified, same, -⟩ := DciPdu.place_eq found (first : Int)
        have shifted : index + 1 + left = index + (left + 1) := by omega
        simp only [Bool.false_eq_true, if_false, modified, bind_some]
        exact ih (by omega) (shifted ▸ same.levels levels)

/-- The DCIs of the subframe have places among the CCEs, and no two overlap. -/
structure DciPdu.Placed (pdu : DciPdu) (nCce : Nat) : Prop where
  places : ∀ alloc ∈ pdu.dcis, alloc.Placed nCce
  apart : pdu.dcis.Pairwise fun left right => Disjoint left.cces right.cces

theorem DciPdu.placedUpTo_zero (pdu : DciPdu) (nCce : Nat) :
    pdu.PlacedUpTo nCce 0 initCceTable := by
  have nothing : pdu.firstDcis 0 = [] := List.take_zero
  exact ⟨by simp [nothing], by simp [nothing], by simp [nothing]⟩

variable {fuel : Nat} {answer : CceAllocation}

theorem tryAgain_placed (answered : tryAgain getNcceMax subframe false fuel pdu = some answer)
    (success : answer.returned = 0) :
    answer.pdu.Placed (getNcceMax answer.pdu.numPdcchSymbols) := by
  induction fuel generalizing pdu with
  | zero => cases answered
  | succ fuel ih =>
    obtain ⟨pass, ended, rest⟩ := bind_eq_some_iff.mp answered
    obtain ⟨same, symbols⟩ := allocateDcis_same ended
    split at rest
    next placed =>
      cases rest
      have result := allocateDcis_placed ended placed (pdu.placedUpTo_zero _)
      rw [Nat.zero_add, ← same.numCommon, ← same.numUeSpec, ← symbols] at result
      exact ⟨result.places, result.apart⟩
    · split at rest
      · cases rest
        cases success
      · exact ih rest

theorem tryAgain_same (answered : tryAgain getNcceMax subframe testOnly fuel pdu = some answer) :
    pdu.SameDcis answer.pdu := by
  induction fuel generalizing pdu with
  | zero => cases answered
  | succ fuel ih =>
    obtain ⟨pass, ended, rest⟩ := bind_eq_some_iff.mp answered
    have same := (allocateDcis_same ended).1
    split at rest
    · cases rest
      exact same
    · split at rest
      · cases rest
        exact same
      · have kept := ih rest
        exact same.trans { kept with }

theorem tryAgain_isSome (bounded : ∀ symbols, 1 ≤ symbols → symbols ≤ 3 → getNcceMax symbols ≤ 800)
    (subframe : Nat) (first : 1 ≤ pdu.numPdcchSymbols) (last : pdu.numPdcchSymbols + fuel = 3)
    (room : pdu.numCommonDci + pdu.numUeSpecDci ≤ numDciMax)
    (levels : ∀ alloc ∈ pdu.dcis, alloc.l ≤ 3) :
    ∃ answer, tryAgain getNcceMax subframe false (fuel + 1) pdu = some answer := by
  have whole : ∀ pdu : DciPdu, 1 ≤ pdu.numPdcchSymbols → pdu.numPdcchSymbols ≤ 3 →
      pdu.numCommonDci + pdu.numUeSpecDci ≤ numDciMax → (∀ alloc ∈ pdu.dcis, alloc.l ≤ 3) →
      ∃ pass, allocateDcis (getNcceMax pdu.numPdcchSymbols) subframe false
        (pdu.numCommonDci + pdu.numUeSpecDci) 0 0 pdu initCceTable = some pass :=
    fun pdu first last room levels => allocateDcis_isSome (bounded _ first last) subframe
      (by rwa [Nat.zero_add]) (by rw [Nat.zero_add]; exact levels)
  induction fuel generalizing pdu with
  | zero =>
    obtain ⟨pass, ended⟩ := whole pdu first (by omega) room levels
    rw [tryAgain, ended, bind_some]
    split
    · exact ⟨_, rfl⟩
    · exact ⟨_, if_pos ((allocateDcis_same ended).2.trans last)⟩
  | succ fuel ih =>
    obtain ⟨pass, ended⟩ := whole pdu first (by omega) room levels
    obtain ⟨same, symbols⟩ := allocateDcis_same ended
    have again : pdu.SameDcis { pass.pdu with numPdcchSymbols := pass.pdu.numPdcchSymbols + 1 } :=
      { same with }
    rw [tryAgain, ended, bind_some]
    split
    · exact ⟨_, rfl⟩
    · rw [if_neg (by omega)]
      have count : pass.pdu.numCommonDci + pass.pdu.numUeSpecDci =
          pdu.numCommonDci + pdu.numUeSpecDci := by
        rw [same.numCommon, same.numUeSpec]
      refine ih (Nat.le_add_left ..) (by simp only; omega) (count ▸ room) ?_
      rw [DciPdu.dcis, count]
      exact again.levels levels

/-- `allocate_CCEs` ends; if it returns 0, every DCI is at a multiple of its
aggregation within the CCEs of the symbols it has settled on, and no two DCIs
share a CCE. -/
theorem allocateCces_sound {getNcceMax : Nat → Nat}
    (bounded : ∀ symbols, 1 ≤ symbols → symbols ≤ 3 → getNcceMax symbols ≤ 800) (subframe : Nat)
    {pdu : DciPdu} (room : pdu.numCommonDci + pdu.numUeSpecDci ≤ numDciMax)
    (levels : ∀ alloc ∈ pdu.dcis, alloc.l ≤ 3) :
    ∃ answer, allocateCces getNcceMax subframe false pdu = some answer ∧
      pdu.SameDcis answer.pdu ∧
      (answer.returned = 0 → answer.pdu.Placed (getNcceMax answer.pdu.numPdcchSymbols)) := by
  obtain ⟨answer, answered⟩ := @tryAgain_isSome { pdu with numPdcchSymbols := 1 } _ 2 bounded
    subframe (Nat.le_refl _) rfl room levels
  have same := tryAgain_same answered
  exact ⟨answer, answered, { same with }, tryAgain_placed answered⟩

private def threeDcis : DciPdu :=
  let level := fun (l : UInt8) (rnti : UInt16) => { DciAlloc.zeroed with l := l, rnti := rnti }
  { DciPdu.zeroed with
    numCommonDci := 1
    numUeSpecDci := 2
    dciAlloc := ((DciPdu.zeroed.dciAlloc.set 0 (level 2 0xFFFF)).set 1 (level 1 0x1234)).set 2
      (level 3 0x5678) }

private def ncceOfSymbols : Nat → Nat
  | 1 => 4
  | 2 => 12
  | _ => 25

theorem allocateCces_sound_three_dcis :
    (allocateCces ncceOfSymbols 4 false threeDcis).map
        (fun answer => (answer.returned, answer.pdu.numPdcchSymbols)) = some (0, 3) ∧
      ∃ answer, allocateCces ncceOfSymbols 4 false threeDcis = some answer ∧
        threeDcis.SameDcis answer.pdu ∧
        (answer.returned = 0 → answer.pdu.Placed (ncceOfSymbols answer.pdu.numPdcchSymbols)) :=
  ⟨by decide +kernel, allocateCces_sound
      (fun symbols _ _ => by unfold ncceOfSymbols; split <;> decide)
      4 (by decide) (by decide +kernel)⟩

/-! A test of the allocation leaves the list as it is. -/

theorem allocateDcis_test {left : Nat} {pass : CcePass}
    (ended : allocateDcis nCceMax subframe true left index nCce pdu table = some pass) :
    pass.pdu = pdu := by
  induction left generalizing index nCce table with
  | zero =>
    cases ended
    rfl
  | succ left ih =>
    obtain ⟨alloc, -, step⟩ := bind_eq_some_iff.mp ended
    split at step
    · cases step
      rfl
    · obtain ⟨⟨chosen, marked⟩, -, next⟩ := bind_eq_some_iff.mp step
      cases chosen with
      | none =>
        cases next
        rfl
      | some first => exact ih next

theorem tryAgain_test {fuel : Nat} {answer : CceAllocation}
    (answered : tryAgain getNcceMax subframe true fuel pdu = some answer) :
    ∃ symbols, answer.pdu = { pdu with numPdcchSymbols := symbols } := by
  induction fuel generalizing pdu with
  | zero => cases answered
  | succ fuel ih =>
    obtain ⟨pass, ended, rest⟩ := bind_eq_some_iff.mp answered
    have same := allocateDcis_test ended
    split at rest
    · cases rest
      exact ⟨pdu.numPdcchSymbols, same⟩
    · split at rest
      · cases rest
        exact ⟨pdu.numPdcchSymbols, same⟩
      · obtain ⟨symbols, left⟩ := ih rest
        exact ⟨symbols, by rw [left, same]⟩

end OpenAir.Mac
