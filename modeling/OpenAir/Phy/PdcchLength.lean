import OpenAir.Mac.CceDemands
import OpenAir.Phy.Pdcch

/-! The length of PDCCH that MAC settles on against the length that PHY sends.
PHY takes the shortest one that has as many CCEs as the DCIs take together; MAC
needs a longer one if a DCI finds its candidates taken. -/

set_option autoImplicit false

namespace OpenAir.Phy

open OpenAir.Base Option List
open OpenAir.Mac

def demandedCces (demands : List (Option DciDemand)) : Nat :=
  (demands.map fun demand => demand.elim 0 DciDemand.cces).sum

def Clear (taken : List (Nat × Nat)) (first l : Nat) : Prop :=
  ∀ place ∈ taken, first + l ≤ place.1 ∨ place.1 + place.2 ≤ first

instance (taken : List (Nat × Nat)) (first l : Nat) : Decidable (Clear taken first l) :=
  inferInstanceAs (Decidable (∀ place ∈ taken, _))

/-- The DCIs one after the other, each on the first of its candidates that is clear
of the places taken. -/
def firstFit (nCce subframe : Nat) : List (Option DciDemand) → List (Nat × Nat) → Bool
  | [], _ => true
  | none :: _, _ => false
  | some demand :: rest, taken =>
    match (dciCandidates demand.common demand.cces nCce demand.rnti subframe).bind
      (·.find? (Clear taken · demand.cces)) with
    | none => false
    | some first => firstFit nCce subframe rest ((first, demand.cces) :: taken)

structure IsShortest (getNcceMax : Nat → Nat) (demanded symbols : Nat) : Prop where
  lower : 1 ≤ symbols
  upper : symbols ≤ 3
  enough : demanded ≤ getNcceMax symbols
  least : ∀ fewer, 1 ≤ fewer → fewer < symbols → getNcceMax fewer < demanded

/-! The passes of MAC. -/

variable {fuel nCce nCceMax settled subframe symbols : Nat} {demands : List (Option DciDemand)}
  {table : CceTable} {getNcceMax : Nat → Nat} {pdu : DciPdu}

theorem placeDemands_enough (placed : placeDemands nCceMax subframe demands nCce table = some true)
    (start : nCce ≤ nCceMax) : nCce + demandedCces demands ≤ nCceMax := by
  induction demands generalizing nCce table with
  | nil => exact start
  | cons head rest ih =>
    cases head with
    | none => cases placed
    | some demand =>
      rw [placeDemands] at placed
      split at placed
      next => cases placed
      next room =>
        obtain ⟨⟨chosen, marked⟩, -, next⟩ := bind_eq_some_iff.mp placed
        cases chosen with
        | none => cases next
        | some first =>
          have later := ih next (by omega)
          have summed : demandedCces (some demand :: rest) =
              demand.cces + demandedCces rest := sum_cons
          omega

def covered (taken : List (Nat × Nat)) : Set Nat :=
  { cce | ∃ place ∈ taken, place.1 ≤ cce ∧ cce < place.1 + place.2 }

variable {taken : List (Nat × Nat)} {first l : Nat}

theorem clear_iff_disjoint (positive : 0 < l) (nonempty : ∀ place ∈ taken, 0 < place.2) :
    Clear taken first l ↔ Disjoint (Set.Ico first (first + l)) (covered taken) := by
  constructor
  · intro clear
    refine Set.disjoint_left.mpr ?_
    rintro cce ⟨above, below⟩ ⟨place, mem, lower, upper⟩
    have := clear place mem
    omega
  · intro apart place mem
    by_contra overlap
    have width := nonempty place mem
    -- the larger of the two first CCEs is in both
    have inside : max first place.1 ∈ Set.Ico first (first + l) := ⟨by omega, by omega⟩
    exact Set.disjoint_left.mp apart inside ⟨place, mem, by omega, by omega⟩

theorem covered_cons (place : Nat × Nat) (taken : List (Nat × Nat)) :
    covered (place :: taken) = covered taken ∪ Set.Ico place.1 (place.1 + place.2) := by
  ext cce
  simp only [covered, Set.mem_ofPred_eq, mem_cons, exists_eq_or_imp, Set.mem_union, Set.mem_Ico]
  exact or_comm

theorem placeDemands_eq_firstFit {placed : Bool}
    (passed : placeDemands nCceMax subframe demands nCce table = some placed)
    (enough : nCce + demandedCces demands ≤ nCceMax) (used : usedCces table = covered taken)
    (nonempty : ∀ place ∈ taken, 0 < place.2) :
    placed = firstFit nCceMax subframe demands taken := by
  induction demands generalizing nCce table taken with
  | nil =>
    cases passed
    rfl
  | cons head rest ih =>
    cases head with
    | none => cases passed
    | some demand =>
      have summed : demandedCces (some demand :: rest) =
          demand.cces + demandedCces rest := sum_cons
      rw [placeDemands, if_neg (by omega)] at passed
      obtain ⟨⟨chosen, marked⟩, found, next⟩ := bind_eq_some_iff.mp passed
      obtain ⟨candidates, listed, chose⟩ := getNcceOffset_octet found
      have isFirst : chosen = candidates.find? (Clear taken · demand.cces) := by
        refine takeCandidate_find (fun first _ => ?_) chose
        rw [decide_eq_true_eq, used]
        exact clear_iff_disjoint demand.cces_pos nonempty
      have fits : (dciCandidates demand.common demand.cces nCceMax demand.rnti subframe).bind
          (·.find? (Clear taken · demand.cces)) = chosen := by
        rw [isFirst, show dciCandidates demand.common demand.cces nCceMax demand.rnti subframe = _
          from listed, bind_some]
      rw [firstFit, fits]
      cases chosen with
      | none =>
        cases next
        rfl
      | some first =>
        have grown := (takeCandidate_some chose).2.2
        rw [used] at grown
        exact ih next (by omega) (grown.trans (covered_cons (first, demand.cces) taken).symm)
          (forall_mem_cons.mpr ⟨demand.cces_pos, nonempty⟩)

theorem usedCces_initCceTable : usedCces initCceTable = covered [] := by
  simp [usedCces, covered, initCceTable, Vector.getElem?_replicate]

theorem placeDemands_init {placed : Bool}
    (passed : placeDemands nCceMax subframe demands 0 initCceTable = some placed)
    (enough : demandedCces demands ≤ nCceMax) : placed = firstFit nCceMax subframe demands [] :=
  placeDemands_eq_firstFit passed (by rwa [Nat.zero_add]) usedCces_initCceTable
    fun _ mem => absurd mem not_mem_nil

theorem settle_first
    (result : settle getNcceMax subframe demands fuel symbols = some (true, settled)) :
    symbols ≤ settled ∧ settled < symbols + fuel ∧
      placeDemands (getNcceMax settled) subframe demands 0 initCceTable = some true ∧
      ∀ fewer, symbols ≤ fewer → fewer < settled →
        placeDemands (getNcceMax fewer) subframe demands 0 initCceTable = some false := by
  induction fuel generalizing symbols with
  | zero => cases result
  | succ fuel ih =>
    obtain ⟨placed, passed, next⟩ := bind_eq_some_iff.mp result
    cases placed with
    | true =>
      cases next
      exact ⟨Nat.le_refl _, by omega, passed, fun fewer above below => by omega⟩
    | false =>
      rw [if_neg Bool.false_ne_true] at next
      split at next
      next => cases next
      next =>
        obtain ⟨above, below, success, failures⟩ := ih next
        refine ⟨by omega, by omega, success, fun fewer lower upper => ?_⟩
        by_cases same : fewer = symbols
        · rw [same, passed]
        · exact failures fewer (by omega) upper

theorem exists_isShortest {demanded : Nat} (lower : 1 ≤ symbols) (upper : symbols ≤ 3)
    (enough : demanded ≤ getNcceMax symbols) :
    ∃ shortest ≤ symbols, IsShortest getNcceMax demanded shortest := by
  induction symbols using Nat.strong_induction_on with
  | _ symbols ih =>
    by_cases fewer : ∃ less, 1 ≤ less ∧ less < symbols ∧ demanded ≤ getNcceMax less
    · obtain ⟨less, positive, below, adequate⟩ := fewer
      obtain ⟨shortest, bound, isShortest⟩ := ih less below positive (by omega) adequate
      exact ⟨shortest, by omega, isShortest⟩
    · refine ⟨symbols, Nat.le_refl _, lower, upper, enough, fun less positive below => ?_⟩
      by_contra adequate
      exact fewer ⟨less, positive, below, by omega⟩

theorem settled_isShortest (result : settle getNcceMax subframe demands 3 1 = some (true, settled))
    (fits : ∀ symbols, IsShortest getNcceMax (demandedCces demands) symbols →
      firstFit (getNcceMax symbols) subframe demands []) :
    IsShortest getNcceMax (demandedCces demands) settled := by
  obtain ⟨lower, upper, success, failures⟩ := settle_first result
  have enough := placeDemands_enough success (Nat.zero_le _)
  rw [Nat.zero_add] at enough
  obtain ⟨shortest, bound, isShortest⟩ := exists_isShortest lower (by omega) enough
  rcases Nat.eq_or_lt_of_le bound with rfl | shorter
  · exact isShortest
  · -- MAC has tried this length before, and the pass cannot have failed
    have failed := failures shortest isShortest.lower shorter
    have placed := placeDemands_init failed isShortest.enough
    rw [fits shortest isShortest] at placed
    cases placed

/-! The length that PHY sends. -/

theorem foldl_cces (dcis : List DciAlloc) (start : Nat) :
    dcis.foldl (fun sum alloc => (sum + 2 ^ alloc.l.toNat) % 2 ^ 16) (start % 2 ^ 16) =
      (start + (dcis.map fun alloc => 2 ^ alloc.l.toNat).sum) % 2 ^ 16 := by
  induction dcis generalizing start with
  | nil => rfl
  | cons alloc rest ih =>
    rw [foldl_cons, Nat.mod_add_mod, ih, map_cons, sum_cons, Nat.add_assoc]

theorem demandedCces_firstDcis (pdu : DciPdu) (count : Nat) :
    ((pdu.firstDcis count).map fun alloc => 2 ^ alloc.l.toNat).sum =
      demandedCces ((range' 0 count).map pdu.demand) := by
  induction count with
  | zero => rfl
  | succ count ih =>
    have summed : demandedCces ((range' 0 (count + 1)).map pdu.demand) =
        demandedCces ((range' 0 count).map pdu.demand) +
          (pdu.demand count).elim 0 DciDemand.cces := by
      simp [demandedCces, range'_concat]
    rw [summed, ← ih, DciPdu.demand]
    cases found : pdu.dciAlloc[count]? with
    | none =>
      have full : numDciMax ≤ count := by
        by_contra inside
        rw [Vector.getElem?_eq_getElem (by omega)] at found
        cases found
      have short : pdu.dciAlloc.toList.length ≤ count := by
        rw [Vector.length_toList]
        exact full
      rw [DciPdu.firstDcis, DciPdu.firstDcis, take_of_length_le short, take_of_length_le (by omega)]
      rfl
    | some alloc =>
      rw [DciPdu.firstDcis_succ found, map_append, sum_append]
      rfl

theorem numCce_dcis (small : demandedCces pdu.demands < 2 ^ 16) :
    numCce pdu.dcis = demandedCces pdu.demands := by
  have folded := foldl_cces pdu.dcis 0
  rw [DciPdu.dcis, demandedCces_firstDcis, Nat.zero_add] at folded
  exact folded.trans (Nat.mod_eq_of_lt small)

theorem getNcceMac_lt (frameParms : FrameParms) (subframe symbols : Nat) :
    getNcceMac frameParms subframe symbols < 2 ^ 16 := by
  have bound : getNquad symbols frameParms (getMi frameParms subframe) < 2 ^ 16 := by
    unfold getNquad
    split <;> omega
  unfold getNcceMac getNcce
  omega

theorem getNumPdcchSymbols_of_isShortest {dcis : List DciAlloc} {frameParms : FrameParms}
    (normal : frameParms.ncp = .normal)
    (shortest : IsShortest (getNcceMac frameParms subframe) (numCce dcis) symbols) :
    getNumPdcchSymbols dcis frameParms subframe = symbols := by
  have enough := shortest.enough
  have least := shortest.least
  have none : ncceMin frameParms subframe = 0 := by rw [ncceMin, normal]
  rw [getNumPdcchSymbols, none]
  rcases (by have := shortest.lower; have := shortest.upper; omega :
    symbols = 1 ∨ symbols = 2 ∨ symbols = 3) with rfl | rfl | rfl
  · simp only [if_pos enough]
    rfl
  · simp only [if_neg (Nat.not_le.mpr (least 1 (by decide) (by decide))), if_pos enough]
    rfl
  · simp only [if_neg (Nat.not_le.mpr (least 1 (by decide) (by decide))),
      if_neg (Nat.not_le.mpr (least 2 (by decide) (by decide))), if_pos enough]
    rfl

/-- With a normal prefix, PHY sends the length that MAC has settled on, with the DCIs
on CCEs that are sent and as many CCEs as MAC counts, if and only if the DCIs fit at the
shortest length with enough CCEs. -/
theorem pdcch_lengths_agree {frameParms : FrameParms} (normal : frameParms.ncp = .normal)
    {subframe : Nat} {pdu : DciPdu} {answer : CceAllocation}
    (allocated : allocateCces (getNcceMac frameParms subframe) subframe false pdu = some answer)
    (success : answer.returned = 0) :
    getNumPdcchSymbols answer.pdu.dcis frameParms subframe = answer.pdu.numPdcchSymbols ∧
      (∀ alloc ∈ answer.pdu.dcis, 0 ≤ alloc.firstCce ∧
        alloc.firstCce.toNat + 2 ^ alloc.l.toNat ≤
          getNcce (getNumPdcchSymbols answer.pdu.dcis frameParms subframe) frameParms
            (getMi frameParms subframe)) ∧
      getNcce (getNumPdcchSymbols answer.pdu.dcis frameParms subframe) frameParms
          (getMi frameParms subframe) =
        getNcceMac frameParms subframe answer.pdu.numPdcchSymbols ↔
    ∀ symbols, IsShortest (getNcceMac frameParms subframe) (demandedCces pdu.demands) symbols →
      firstFit (getNcceMac frameParms subframe symbols) subframe pdu.demands [] := by
  have settles := allocateCces_settles (getNcceMac frameParms subframe) subframe false pdu
  rw [allocated, map_some, eq_comm] at settles
  obtain ⟨⟨placed, settled⟩, result, same⟩ := map_eq_some_iff.mp settles
  obtain ⟨returned, rfl⟩ := Prod.mk.inj same
  obtain rfl : placed = true := by
    cases placed with
    | true => rfl
    | false => cases returned.trans success
  have demands : answer.pdu.demands = pdu.demands := (tryAgain_same allocated).demands
  have sent : ∀ symbols,
      IsShortest (getNcceMac frameParms subframe) (demandedCces pdu.demands) symbols →
      getNumPdcchSymbols answer.pdu.dcis frameParms subframe = symbols := by
    intro symbols shortest
    have small := Nat.lt_of_le_of_lt shortest.enough (getNcceMac_lt frameParms subframe symbols)
    rw [← demands] at small shortest
    exact getNumPdcchSymbols_of_isShortest normal (by rwa [numCce_dcis small])
  constructor
  · rintro ⟨agreed, -⟩ symbols shortest
    obtain rfl := (sent symbols shortest).symm.trans agreed
    obtain ⟨-, -, passed, -⟩ := settle_first result
    exact (placeDemands_init passed shortest.enough).symm
  · intro fits
    have agreed := sent _ (settled_isShortest result fits)
    rw [agreed]
    refine ⟨rfl, fun alloc mem => ?_, rfl⟩
    obtain ⟨nonneg, place⟩ := (tryAgain_placed allocated success).places alloc mem
    exact ⟨nonneg, place.within⟩

private def controlCell : FrameParms := ⟨25, .normal, .fdd, 0, .oneSixth, 1⟩

private def siAndUeDcis (numUeSpecDci : Nat) : DciPdu :=
  { DciPdu.zeroed with
    numCommonDci := 1
    numUeSpecDci := numUeSpecDci
    dciAlloc := Vector.ofFn fun index =>
      { DciAlloc.zeroed with l := 2, rnti := if index.val = 0 then 0xFFFF else 0x1236 } }

private theorem siAndUeDcis_firstFit (symbols : Nat)
    (shortest : IsShortest (getNcceMac controlCell 5) (demandedCces (siAndUeDcis 1).demands)
      symbols) :
    firstFit (getNcceMac controlCell 5 symbols) 5 (siAndUeDcis 1).demands [] := by
  have second : symbols = 2 := by
    have := shortest.lower
    have := shortest.upper
    by_contra other
    rcases (by omega : symbols = 1 ∨ symbols = 3) with rfl | rfl
    · exact absurd shortest.enough (by decide +kernel)
    · exact absurd (shortest.least 2 (by decide) (by decide)) (by decide +kernel)
  rw [second]
  decide +kernel

theorem pdcch_lengths_agree_si :
    ∃ answer, allocateCces (getNcceMac controlCell 5) 5 false (siAndUeDcis 1) = some answer ∧
      answer.returned = 0 ∧
      getNumPdcchSymbols answer.pdu.dcis controlCell 5 = answer.pdu.numPdcchSymbols ∧
      (∀ alloc ∈ answer.pdu.dcis, 0 ≤ alloc.firstCce ∧
        alloc.firstCce.toNat + 2 ^ alloc.l.toNat ≤
          getNcce (getNumPdcchSymbols answer.pdu.dcis controlCell 5) controlCell
            (getMi controlCell 5)) ∧
      getNcce (getNumPdcchSymbols answer.pdu.dcis controlCell 5) controlCell
          (getMi controlCell 5) =
        getNcceMac controlCell 5 answer.pdu.numPdcchSymbols := by
  have returned : (allocateCces (getNcceMac controlCell 5) 5 false (siAndUeDcis 1)).map
      CceAllocation.returned = some 0 := by decide +kernel
  obtain ⟨answer, allocated, success⟩ := map_eq_some_iff.mp returned
  exact ⟨answer, allocated, success,
    (pdcch_lengths_agree rfl allocated success).mpr siAndUeDcis_firstFit⟩

/-- The DCIs have room in two symbols, but the second DCI of the UE finds both of
its candidates taken. MAC settles on three symbols, and PHY sends two, without the
CCEs of the first DCI of the UE. -/
theorem not_pdcch_lengths_agree :
    (allocateCces (getNcceMac controlCell 5) 5 false (siAndUeDcis 2)).map (fun answer =>
        (answer.returned, answer.pdu.numPdcchSymbols,
          getNumPdcchSymbols answer.pdu.dcis controlCell 5,
          answer.pdu.dcis.map DciAlloc.firstCce)) = some (0, 3, 2, [12, 16, 0]) ∧
      getNcceMac controlCell 5 2 = 13 := by
  refine ⟨by decide +kernel, by decide⟩

end OpenAir.Phy
