import OpenAir.Mac.DlschScheduleProperties
import OpenAir.Mac.PreProcessor
import Mathlib.Algebra.BigOperators.Intervals

/-! The resource blocks of a new transmission: the groups that the DCI names, and
what the physical layer reads from it. -/

set_option autoImplicit false

namespace OpenAir.Mac

open OpenAir.Base OpenAir.Phy Finset DlschUe Nat

/-- The loop of `schedule_ue_spec` and `allocate_prbs_sub` over the last `left` groups,
and the ones it chooses for `nb_rb` blocks; `spend` is how the count goes down. -/
def walkRbgs (nRbDl : Nat) (spend : Nat → Nat → Nat) (granted : Nat → Bool) :
    Nat → Nat → List Nat
  | 0, _ => []
  | left + 1, nbRb =>
    let check := nRbg nRbDl - (left + 1)
    if nbRb = 0 then []
    else if granted check then
      check :: walkRbgs nRbDl spend granted left (spend nbRb
        (if check = nRbg nRbDl - 1 ∧ (nRbDl = 25 ∨ nRbDl = 50) then getMinRbUnit nRbDl - 1
        else getMinRbUnit nRbDl))
    else walkRbgs nRbDl spend granted left nbRb

def allocatePrbsSub (nRbDl nbRb : Nat) (rballoc : Nat → Bool) : Nat :=
  (walkRbgs nRbDl Nat.sub rballoc (nRbg nRbDl) nbRb).foldl
    (fun dci check => dci ||| 1 <<< (nRbg nRbDl - 1 - check)) 0

/-- `nb_rb_temp` has 16 bits, and wraps where fewer blocks are left than the group has. -/
def spendWrapped (nbRbTemp size : Nat) : Nat := (nbRbTemp + 65536 - size) % 65536

/-- `rballoc_subband`, as the branch for a new transmission leaves it. -/
def DlschUe.rballocSubband (ue : DlschUe) (granted : Nat → Bool) (nbRb j : Nat) : Bool :=
  if nbRb = ue.nbAvailableRb then granted j
  else decide (j ∈ walkRbgs ue.nRbDl spendWrapped granted (nRbg ue.nRbDl) nbRb)

/-- The physical layer uses blocks of granted groups only, and as many as the MAC
counted on. -/
def DlschUe.GrantAgrees (ue : DlschUe) (granted : Nat → Bool) (nbRb : Nat) : Prop :=
  let dci := allocatePrbsSub ue.nRbDl nbRb (ue.rballocSubband granted nbRb)
  (∀ rb, RbMarked (convRballoc ue.nRbDl dci) rb →
    rb < ue.nRbDl ∧ granted (rb / getMinRbUnit ue.nRbDl)) ∧
  convNprb ue.nRbDl dci = nbRb

section Walk

variable {nRbDl : Nat} {spend : Nat → Nat → Nat} {granted sub : Nat → Bool} {left nbRb i : Nat}

theorem walkRbgs_succ (bandwidth : IsBandwidth nRbDl) {check : Nat}
    (here : check + (left + 1) = nRbg nRbDl) :
    walkRbgs nRbDl spend granted (left + 1) nbRb =
      if nbRb = 0 then []
      else if granted check then
        check :: walkRbgs nRbDl spend granted left (spend nbRb (rbgSize nRbDl check))
      else walkRbgs nRbDl spend granted left nbRb := by
  obtain rfl : check = nRbg nRbDl - (left + 1) := by omega
  rw [rbgSize_of_isBandwidth bandwidth (by omega), walkRbgs]

theorem mem_walkRbgs (upTo : left ≤ nRbg nRbDl)
    (chosen : i ∈ walkRbgs nRbDl spend granted left nbRb) :
    granted i ∧ nRbg nRbDl - left ≤ i ∧ i < nRbg nRbDl := by
  induction left generalizing nbRb with
  | zero => cases chosen
  | succ left ih =>
    unfold walkRbgs at chosen
    grind

theorem walkRbgs_congr (only : ∀ i, sub i → granted i)
    (all : ∀ i ∈ walkRbgs nRbDl spend granted left nbRb, sub i) :
    walkRbgs nRbDl spend sub left nbRb = walkRbgs nRbDl spend granted left nbRb := by
  induction left generalizing nbRb with
  | zero => rfl
  | succ left ih =>
    unfold walkRbgs at all ⊢
    grind

/-- The count that wraps takes all groups that the other one does. -/
theorem mem_walkRbgs_wrapped (small : nbRb < 65536)
    (chosen : i ∈ walkRbgs nRbDl Nat.sub granted left nbRb) :
    i ∈ walkRbgs nRbDl spendWrapped granted left nbRb := by
  induction left generalizing nbRb with
  | zero => cases chosen
  | succ left ih =>
    have later : ∀ size, i ∈ walkRbgs nRbDl Nat.sub granted left (nbRb.sub size) →
        i ∈ walkRbgs nRbDl spendWrapped granted left (spendWrapped nbRb size) := by
      intro size chosen
      rw [Nat.sub_eq] at chosen
      by_cases ends : nbRb - size = 0
      · rw [ends] at chosen
        cases left <;> simp [walkRbgs] at chosen
      · rw [show spendWrapped nbRb size = nbRb - size by unfold spendWrapped; omega]
        exact ih (by omega) chosen
    unfold walkRbgs at chosen ⊢
    grind

theorem mem_walkRbgs_six (upTo : left ≤ 6) :
    i ∈ walkRbgs 6 Nat.sub granted left nbRb ↔
      granted i ∧ 6 - left ≤ i ∧ i < 6 ∧
        (List.range' (6 - left) (i - (6 - left))).countP granted < nbRb := by
  induction left generalizing nbRb with
  | zero => simp [walkRbgs]; omega
  | succ left ih =>
    obtain ⟨check, here⟩ := Nat.exists_eq_add_of_le' upTo
    rw [walkRbgs_succ (.inl rfl) here.symm, show 6 - (left + 1) = check by omega,
      show rbgSize 6 check = 1 by simp [rbgSize, getMinRbUnit]; omega]
    have behind : 6 - left = check + 1 := by omega
    have first : check < i → List.range' check (i - check) =
        check :: List.range' (check + 1) (i - (check + 1)) := by
      intro later
      rw [← List.range'_succ]
      congr 1
      omega
    have given := @ih (nbRb - 1) (by omega)
    have free := @ih nbRb (by omega)
    grind

theorem testBit_allocatePrbsSub (inside : i < nRbg nRbDl) :
    (allocatePrbsSub nRbDl nbRb granted).testBit (nRbg nRbDl - 1 - i) =
      decide (i ∈ walkRbgs nRbDl Nat.sub granted (nRbg nRbDl) nbRb) := by
  have or_bits : ∀ (chosen : List Nat) dci bit,
      (chosen.foldl (fun dci check => dci ||| 1 <<< (nRbg nRbDl - 1 - check)) dci).testBit bit =
        true ↔ dci.testBit bit ∨ ∃ check ∈ chosen, nRbg nRbDl - 1 - check = bit := by
    intro chosen
    induction chosen with
    | nil => simp
    | cons check chosen ih =>
      intro dci bit
      rw [List.foldl_cons, ih]
      simp [one_shiftLeft, testBit_two_pow, or_assoc]
  rw [Bool.eq_iff_iff, allocatePrbsSub, or_bits, decide_eq_true_eq, Nat.zero_testBit]
  constructor
  · rintro (none | ⟨check, chosen, bit⟩)
    · cases none
    · have below := (mem_walkRbgs (le_refl _) chosen).2.2
      obtain rfl : check = i := by omega
      exact chosen
  · exact fun chosen => .inr ⟨i, chosen, rfl⟩

def remainingRbs (nRbDl : Nat) (granted : Nat → Bool) (left : Nat) : Int :=
  tally (nRbg nRbDl) (rbgRbs nRbDl) fun i => granted i && decide (nRbg nRbDl - left ≤ i)

theorem remainingRbs_zero : remainingRbs nRbDl granted 0 = 0 :=
  tally_eq_zero fun i inside => by simp [rbgRbs, not_le.mpr inside]

theorem remainingRbs_succ {check : Nat} (here : check + (left + 1) = nRbg nRbDl) :
    remainingRbs nRbDl granted (left + 1) =
      remainingRbs nRbDl granted left + rbgRbs nRbDl check (granted check) := by
  have inside : check < nRbg nRbDl := by omega
  refine (tally_rbgRbs (fun i => granted i && decide (nRbg nRbDl - left ≤ i)) inside ?_
    fun i apart => ?_).trans ?_
  · simp [show ¬ nRbg nRbDl - left ≤ check by omega]
  · exact congrArg _ (decide_eq_decide.mpr (by omega))
  · simp [remainingRbs, show nRbg nRbDl - (left + 1) ≤ check by omega]

/-- The walk chooses groups of `nb_rb` blocks exactly if these are groups of `min_rb_unit`
blocks or all that is granted. -/
theorem walkRbgs_total (bandwidth : IsBandwidth nRbDl) (upTo : left ≤ nRbg nRbDl) :
    tally (nRbg nRbDl) (rbgRbs nRbDl)
        (fun i => decide (i ∈ walkRbgs nRbDl Nat.sub granted left nbRb)) = nbRb ↔
      getMinRbUnit nRbDl ∣ nbRb ∧ (nbRb : Int) ≤ remainingRbs nRbDl granted left ∨
        (nbRb : Int) = remainingRbs nRbDl granted left := by
  have rbs : ∀ table, 0 ≤ tally (nRbg nRbDl) (rbgRbs nRbDl) table :=
    fun table => tally_nonneg fun i _ => by unfold rbgRbs; split <;> omega
  have nothing : tally (nRbg nRbDl) (rbgRbs nRbDl) (fun _ => false) = 0 :=
    tally_eq_zero fun i _ => rfl
  induction left generalizing nbRb with
  | zero =>
    simp only [walkRbgs, List.not_mem_nil, decide_false, nothing, remainingRbs_zero]
    grind
  | succ left ih =>
    obtain ⟨check, here⟩ := Nat.exists_eq_add_of_le' upTo
    have inside : check < nRbg nRbDl := by omega
    have size := rbgSize_of_isBandwidth bandwidth inside
    have others : 0 ≤ remainingRbs nRbDl granted left := rbs _
    rw [remainingRbs_succ here.symm, walkRbgs_succ bandwidth here.symm]
    split
    next none =>
      have : 0 ≤ rbgRbs nRbDl check (granted check) := by unfold rbgRbs; split <;> omega
      subst none
      exact iff_of_true (by simpa using nothing) (.inl ⟨Nat.dvd_zero _, by omega⟩)
    next some_ =>
      split
      next given =>
        have least : getMinRbUnit nRbDl ∣ nbRb → getMinRbUnit nRbDl ≤ nbRb :=
          Nat.le_of_dvd (Nat.pos_of_ne_zero some_)
        have upToUnit : rbgSize nRbDl check ≤ getMinRbUnit nRbDl := Nat.min_le_left _ _
        have apart : check ∉ walkRbgs nRbDl Nat.sub granted left (nbRb - rbgSize nRbDl check) := by
          intro again
          have := mem_walkRbgs (Nat.le_of_succ_le upTo) again
          omega
        have some_more := rbs fun i => decide
          (i ∈ walkRbgs nRbDl Nat.sub granted left (nbRb - rbgSize nRbDl check))
        rw [Nat.sub_eq, tally_rbgRbs _ inside (decide_eq_false apart) fun i other =>
          decide_eq_decide.mpr (List.mem_cons.trans (or_iff_right other))]
        simp only [rbgRbs, given, List.mem_cons_self, decide_true, if_true]
        by_cases enough : rbgSize nRbDl check ≤ nbRb
        · rw [← eq_sub_iff_add_eq, ← Nat.cast_sub enough]
          refine (ih (Nat.le_of_succ_le upTo)).trans ?_
          split at size
          next =>
            -- a shorter last group cannot be a multiple of the unit
            have last : left = 0 := by omega
            rw [last, remainingRbs_zero]
            grind
          next =>
            rw [size] at enough ⊢
            refine or_congr (and_congr ?_ (by omega)) (by omega)
            exact (Nat.dvd_sub_iff_left enough (Nat.dvd_refl _))
        · constructor
          · intro; omega
          · rintro (⟨units, -⟩ | all)
            · exact absurd (upToUnit.trans (least units)) enough
            · omega
      next free =>
        simp only [free, rbgRbs, Bool.false_eq_true, if_false, add_zero]
        exact ih (Nat.le_of_succ_le upTo)

end Walk

section Dci

variable {nRbDl rbAlloc rb : Nat}

/-- The group for which a block is marked. A band of 6 blocks is in reverse order. -/
def rbgOfRb (nRbDl rb : Nat) : Nat := if nRbDl = 6 then 5 - rb else rb / getMinRbUnit nRbDl

theorem rbMarked_six :
    RbMarked (convRballoc 6 rbAlloc) rb ↔ rb < 6 ∧ rbAlloc.testBit rb := by
  constructor
  · intro marked
    rcases rbMarked_orBits marked with none | ⟨-, bit⟩
    · simp [RbMarked] at none
    · rw [testBit_and, Bool.and_eq_true, show 0x3f = 2 ^ 6 - 1 from rfl,
        testBit_two_pow_sub_one, decide_eq_true_eq] at bit
      exact ⟨bit.2, bit.1⟩
  · rintro ⟨below, bit⟩
    have mask : (0x3f).testBit rb := by
      rw [show 0x3f = 2 ^ 6 - 1 from rfl, testBit_two_pow_sub_one]
      exact decide_eq_true below
    have inWord : rb < 32 := by omega
    simp [RbMarked, convRballoc, orBits, Nat.div_eq_of_lt inWord, Nat.mod_eq_of_lt inWord, inWord,
      bit, mask, -Nat.reducePow]

theorem rbMarked_convRballoc (bandwidth : IsBandwidth nRbDl)
    (marked : RbMarked (convRballoc nRbDl rbAlloc) rb) :
    rb < nRbDl ∧ rbgOfRb nRbDl rb < nRbg nRbDl ∧
      rbAlloc.testBit (nRbg nRbDl - 1 - rbgOfRb nRbDl rb) := by
  rcases bandwidth with rfl | rfl | rfl | rfl
  · obtain ⟨below, bit⟩ := rbMarked_six.mp marked
    refine ⟨below, lt_succ_of_le (sub_le _ _), ?_⟩
    rwa [show nRbg 6 - 1 - rbgOfRb 6 rb = rb from Nat.sub_sub_self (le_of_lt_succ below)]
  · rcases @rbMarked_convRbg _ 24 1 _ _ 0 marked with old | ⟨bit, starts, ends⟩
    · obtain ⟨below, bit⟩ := @rbMarked_convRbgs 2 rb _ 12 _ old
      exact ⟨by omega, lt_succ_of_lt below, bit⟩
    · obtain rfl : rb = 24 := by omega
      exact ⟨by decide, by decide, bit⟩
  · have group := fun rb => @rbMarked_convRbgs 3 rb rbAlloc 16 16
    rcases @rbMarked_convRbg _ 48 2 _ _ 0 marked with old | ⟨bit, starts, ends⟩
    · have below : rb / 3 < 16 ∧ rbAlloc.testBit (16 - rb / 3) := by
        split at old
        next carry =>
          rcases rbMarked_orBits old with old | ⟨starts, inMask⟩
          · exact group rb old
          · rw [testBit_one_eq_true_iff_self_eq_zero] at inMask
            obtain rfl : rb = 32 := by omega
            -- block 31 is marked, and in the same group
            exact group 31 (congrArg (1 &&& · != 0) carry)
        next => exact group rb old
      exact ⟨by omega, lt_succ_of_lt below.1, below.2⟩
    · rw [show rbgOfRb 50 rb = 16 from show rb / 3 = 16 by omega]
      exact ⟨by omega, by decide, bit⟩
  · obtain ⟨below, bit⟩ := @rbMarked_convRbgs 4 rb _ 24 _ marked
    exact ⟨by omega, below, bit⟩

theorem addPrbs_cast (prbs nprb bit : Nat) : (addPrbs rbAlloc prbs nprb bit : Int) =
    nprb + if rbAlloc.testBit bit then (prbs : Int) else 0 := by
  unfold addPrbs
  split <;> simp

theorem foldl_addPrbs (prbs count : Nat) (bit : Nat → Nat) :
    ((List.range count).foldl (fun nprb i => addPrbs rbAlloc prbs nprb (bit i)) 0 : Nat) =
      ∑ i ∈ range count, if rbAlloc.testBit (bit i) then (prbs : Int) else 0 := by
  induction count with
  | zero => rfl
  | succ count ih =>
    rw [List.range_succ, List.foldl_append, sum_range_succ, ← ih]
    exact addPrbs_cast ..

theorem convNprb_eq (bandwidth : IsBandwidth nRbDl) : (convNprb nRbDl rbAlloc : Int) =
    tally (nRbg nRbDl) (rbgRbs nRbDl) fun i => rbAlloc.testBit (nRbg nRbDl - 1 - i) := by
  have sizes : ∀ i < nRbg nRbDl, _ := fun i => @rbgSize_of_isBandwidth _ bandwidth i
  unfold tally rbgRbs
  rcases bandwidth with rfl | rfl | rfl | rfl <;> simp only [nRbg] at sizes ⊢
  · refine (foldl_addPrbs 1 6 fun i => i).trans ((sum_range_reflect _ _).symm.trans ?_)
    refine sum_congr rfl fun i mem => ?_
    simp [sizes i (mem_range.mp mem), getMinRbUnit]
  · rw [sum_range_succ _ 12]
    refine (addPrbs_cast ..).trans (congrArg (· + _) ((foldl_addPrbs 2 12 _).trans ?_))
    refine sum_congr rfl fun i mem => ?_
    have below := mem_range.mp mem
    simp [sizes i (by omega), getMinRbUnit, below.ne]
  · rw [sum_range_succ _ 16]
    refine (addPrbs_cast ..).trans (congrArg (· + _) ((foldl_addPrbs 3 16 _).trans ?_))
    refine sum_congr rfl fun i mem => ?_
    have below := mem_range.mp mem
    simp [sizes i (by omega), getMinRbUnit, below.ne]
  · refine (foldl_addPrbs 4 25 _).trans (sum_congr rfl fun i mem => ?_)
    simp [sizes i (mem_range.mp mem), getMinRbUnit]

end Dci

section Agreement

variable {ue : DlschUe} {granted : Nat → Bool} {nbRb i rb : Nat}

theorem DlschUe.granted_of_rballocSubband (copied : ue.rballocSubband granted nbRb i) :
    granted i := by
  unfold rballocSubband at copied
  split at copied
  · exact copied
  · exact (mem_walkRbgs (le_refl _) (of_decide_eq_true copied)).1

theorem DlschUe.granted_of_marked (bandwidth : IsBandwidth ue.nRbDl)
    (marked : RbMarked (convRballoc ue.nRbDl
      (allocatePrbsSub ue.nRbDl nbRb (ue.rballocSubband granted nbRb))) rb) :
    rbgOfRb ue.nRbDl rb < nRbg ue.nRbDl ∧ granted (rbgOfRb ue.nRbDl rb) := by
  obtain ⟨-, inside, bit⟩ := rbMarked_convRballoc bandwidth marked
  rw [testBit_allocatePrbsSub inside, decide_eq_true_eq] at bit
  exact ⟨inside, granted_of_rballocSubband (mem_walkRbgs (le_refl _) bit).1⟩

theorem DlschUe.testBit_dci (small : nbRb < 65536) (inside : i < nRbg ue.nRbDl) :
    (allocatePrbsSub ue.nRbDl nbRb (ue.rballocSubband granted nbRb)).testBit
        (nRbg ue.nRbDl - 1 - i) =
      decide (i ∈ walkRbgs ue.nRbDl Nat.sub granted (nRbg ue.nRbDl) nbRb) := by
  rw [testBit_allocatePrbsSub inside, walkRbgs_congr fun i => granted_of_rballocSubband]
  intro i chosen
  unfold rballocSubband
  split
  · exact (mem_walkRbgs (le_refl _) chosen).1
  · exact decide_eq_true (mem_walkRbgs_wrapped small chosen)

/-- The physical layer and the MAC use the same blocks exactly if the number of blocks
that is selected is one of whole groups or takes all that is available, and, in a band of 6
blocks, the groups that this takes are granted in reverse order too. -/
theorem dlschGrant_agrees (ue : DlschUe) (bandwidth : IsBandwidth ue.nRbDl) (granted : Nat → Bool)
    (available : (ue.nbAvailableRb : Int) = tally (nRbg ue.nRbDl) (rbgRbs ue.nRbDl) granted)
    (sizes : TransportBlockSizes) (required : Nat) :
    ue.GrantAgrees granted (ue.selectRb sizes required) ↔
      ∀ nbRb, RbSelected (sizes.getTbsDl ue.dlschMcs1) ue.nbAvailableRb (getMinRbUnit ue.nRbDl)
        ue.firstRb required nbRb →
      (getMinRbUnit ue.nRbDl ∣ nbRb ∧ nbRb ≤ ue.nbAvailableRb ∨ nbRb = ue.nbAvailableRb) ∧
      (ue.nRbDl = 6 → ∀ i < 6, granted i → (List.range i).countP granted < nbRb →
        granted (5 - i)) := by
  have selected := (ue.selected_select sizes required).1
  have most := tally_rbgRbs_le bandwidth granted
  have small : ue.selectRb sizes required < 65536 := by
    have first : ue.firstRb ≤ 4 := by
      unfold firstRb getMinRbUnit
      grind
    rcases selected with ⟨steps, chosen, rfl | within, -⟩ | ⟨all, -⟩ <;> omega
  have unique : ∀ nbRb, RbSelected _ _ _ _ _ nbRb ↔ nbRb = _ :=
    fun nbRb => ⟨fun again => again.unique selected, fun same => same ▸ selected⟩
  have whole : remainingRbs ue.nRbDl granted (nRbg ue.nRbDl) = ue.nbAvailableRb := by
    rw [available]
    exact tally_congr fun i _ => by simp
  simp only [unique, forall_eq]
  generalize ue.selectRb sizes required = nbRb at small
  rw [GrantAgrees, and_comm]
  refine and_congr ?_ ⟨fun marks six => ?_, fun mirrored rb marked => ?_⟩
  · rw [← Int.ofNat_inj, convNprb_eq bandwidth, tally_congr fun i inside =>
      congrArg _ (testBit_dci small inside), walkRbgs_total bandwidth (le_refl _), whole]
    simp only [Int.ofNat_le, Int.ofNat_inj]
  · intro i below given before
    have chosen : i ∈ walkRbgs 6 Nat.sub granted 6 nbRb := by
      rw [mem_walkRbgs_six (le_refl _)]
      simpa [given, below, List.range_eq_range'] using before
    have bit := @testBit_dci ue granted nbRb i small (by rwa [six])
    rw [six] at marks bit
    have marked := (@rbMarked_six _ (5 - i)).mpr ⟨by omega, bit.trans (decide_eq_true chosen)⟩
    exact (Nat.div_one (5 - i)) ▸ (marks (5 - i) marked).2
  · obtain ⟨below, inside, bit⟩ := rbMarked_convRballoc bandwidth marked
    refine ⟨below, ?_⟩
    rw [testBit_dci small inside, decide_eq_true_eq] at bit
    by_cases six : ue.nRbDl = 6
    · rw [six] at bit below ⊢
      have chosen := (mem_walkRbgs_six (le_refl _)).mp bit
      have image := mirrored six _ chosen.2.2.1 chosen.1
        (by simpa [List.range_eq_range'] using chosen.2.2.2)
      simpa [rbgOfRb, getMinRbUnit, show 5 - (5 - rb) = rb by omega] using image
    · have given := (mem_walkRbgs (le_refl _) bit).1
      rwa [rbgOfRb, if_neg six] at given

def DlschUe.fifty (mcs : Nat) : DlschUe := ⟨mcs, 50, 0, 2, 50⟩

theorem dlschGrant_agrees_fifty :
    (fifty 1).GrantAgrees (fun _ => true) ((fifty 1).selectRb .linear 40) :=
  (dlschGrant_agrees (.fifty 1) (by simp [fifty, IsBandwidth]) _ (by decide +kernel) .linear
    40).mpr fun nbRb selected => by
      rw [selected.unique (selected_select (fifty 1) .linear 40).1]
      exact ⟨by decide +kernel, fun six => absurd six (by decide)⟩

/-- With MCS 0 the search begins with 4 blocks, which are no groups of 3. In a band of 6
blocks the first group is sent on the last block. -/
theorem not_dlschGrant_agrees :
    ¬ (fifty 0).GrantAgrees (fun _ => true) ((fifty 0).selectRb .linear 8) ∧
      ¬ GrantAgrees ⟨1, 1, 0, 2, 6⟩ (fun i => i = 0)
        (selectRb ⟨1, 1, 0, 2, 6⟩ .linear 4) := by
  constructor
  · rintro ⟨-, counted⟩
    revert counted
    decide +kernel
  · rintro ⟨granted, -⟩
    have := (granted 5 (by decide +kernel)).2
    revert this
    decide

/-- The blocks that the physical layer uses for the grants of two UEs are apart,
whatever number of blocks is chosen for each of them. -/
theorem dlschGrants_disjoint (input : PreProcessing) (start : PreProcessor) {cc : Nat}
    (carrier : cc < input.nCcs) (bandwidth : IsBandwidth (input.nRbDl cc)) {u v : Nat}
    (listed : u ∈ input.ues ∧ v ∈ input.ues) (apart : u ≠ v) (first second : DlschUe)
    (band : first.nRbDl = input.nRbDl cc ∧ second.nRbDl = input.nRbDl cc) (nbRb others rb : Nat) :
    let final := dlschSchedulerPreProcessor input start
    ¬ (RbMarked (convRballoc first.nRbDl (allocatePrbsSub first.nRbDl nbRb
        (first.rballocSubband (final.rballocSubUe cc u) nbRb))) rb ∧
      RbMarked (convRballoc second.nRbDl (allocatePrbsSub second.nRbDl others
        (second.rballocSubband (final.rballocSubUe cc v) others))) rb) := by
  rintro final ⟨one, two⟩
  obtain ⟨inside, here⟩ := granted_of_marked (band.1 ▸ bandwidth) one
  obtain ⟨-, there⟩ := granted_of_marked (band.2 ▸ bandwidth) two
  rw [band.1] at inside here
  rw [band.2] at there
  exact apart ((dlschSchedulerPreProcessor_parted input start carrier bandwidth).alone _ inside
    u listed.1 v listed.2 here there)

theorem dlschGrants_disjoint_two_ues :
    let final := dlschSchedulerPreProcessor twoUes noGrants
    let dci := fun ue => allocatePrbsSub 25 12 (rballocSubband ⟨9, 12, 0, 2, 25⟩
      (final.rballocSubUe 0 ue) 12)
    ¬ (RbMarked (convRballoc 25 (dci 0)) 3 ∧ RbMarked (convRballoc 25 (dci 1)) 3) :=
  dlschGrants_disjoint twoUes noGrants Nat.zero_lt_one (.inr (.inl rfl)) (by decide) Nat.zero_ne_one
    ⟨9, 12, 0, 2, 25⟩ ⟨9, 12, 0, 2, 25⟩ ⟨rfl, rfl⟩ 12 12 3

end Agreement

end OpenAir.Mac
