import OpenAir.Base.Tally
import OpenAir.Mac.DlschScheduling
import OpenAir.Mac.UlschGrants
import OpenAir.Phy.ResourceBlocks

/-! The downlink pre-processor, after `pre_processor.c` without `TM5`: which
resource block groups each UE may use, on each carrier. -/

set_option autoImplicit false

namespace OpenAir.Mac

open OpenAir.Base OpenAir.Phy List Function

def put {α : Type} (table : Nat → Nat → α) (row column : Nat) (value : α) : Nat → Nat → α :=
  fun r c => if r = row ∧ c = column then value else table r c

/-- The carriers, and the blocks of them that a subframe uses for common channels. -/
structure DlCarriers where
  nCcs : Nat
  nRbDl : Nat → Nat
  vrbMap : Nat → Nat → Nat
  subframe : Nat

/-- What the pre-processor reads. The UE list is `ues` before `sort_UEs` and `sorted`
behind it; `valid` are the UEs in sync that have an RNTI. -/
structure PreProcessing extends DlCarriers where
  ues : List Nat
  sorted : List Nat
  perm : sorted.Perm ues
  valid : Nat → Bool
  orderedCcIds : Nat → List Nat
  assignRbsRequired : (Nat → Nat → Nat) → Nat → Nat → Nat
  round : Nat → Nat → Nat
  nbRb : Nat → Nat → Nat
  reconfigured : Nat → Bool
  transmissionMode : Nat → Nat → Nat

/-- The tables by carrier, and by UE or resource block group. No UE gets more than
the blocks of the band, so `pre_nb_available_rbs` does not wrap. -/
structure PreProcessor where
  required : Nat → Nat → Nat
  remaining : Nat → Nat → Nat
  rballocSub : Nat → Nat → Bool
  rballocSubUe : Nat → Nat → Nat → Bool
  preNbAvailableRbs : Nat → Nat → Nat
  dlPowOff : Nat → Nat → Nat

/-- The RBGs around DC that subframes 0 and 5 leave out. -/
def sf05Limits (nRbg : Nat) : Int × Int :=
  if nRbg = 6 then (0, 5)
  else if nRbg = 8 then (2, 5)
  else if nRbg = 13 then (4, 7)
  else if nRbg = 17 then (7, 9)
  else if nRbg = 25 then (11, 13)
  else (-1, -1)

/-- Whether `dlsch_scheduler_pre_processor_reset` takes a group out of use. -/
def DlCarriers.blocked (carriers : DlCarriers) (cc i : Nat) : Bool :=
  let count := nRbg (carriers.nRbDl cc)
  let rbgSize := carriers.nRbDl cc / count
  (carriers.subframe = 0 || carriers.subframe = 5) &&
      ((sf05Limits count).1 ≤ i && i ≤ (sf05Limits count).2) ||
    (range rbgSize).any fun j => carriers.vrbMap cc (j + i * rbgSize) != 0

namespace PreProcessing

def reset (input : PreProcessing) (state : PreProcessor) (place : Nat × Nat) :
    PreProcessor :=
  let (cc, ue) := place
  let count := nRbg (input.nRbDl cc)
  { required := put state.required cc ue 0
    remaining := put state.remaining cc ue 0
    rballocSub := fun c i => if c = cc ∧ i < count then input.blocked cc i else state.rballocSub c i
    rballocSubUe := put state.rballocSubUe cc ue fun i =>
      if i < count then false else state.rballocSubUe cc ue i
    preNbAvailableRbs := put state.preNbAvailableRbs cc ue 0
    dlPowOff := put state.dlPowOff cc ue 2 }

def take (input : PreProcessing) (cc ue : Nat) (state : PreProcessor)
    (i size : Nat) : PreProcessor :=
  { state with
    remaining := put state.remaining cc ue ((state.remaining cc ue + 65536 - size) % 65536)
    rballocSub := put state.rballocSub cc i true
    rballocSubUe := put state.rballocSubUe cc ue
      (Function.update (state.rballocSubUe cc ue) i true)
    preNbAvailableRbs := put state.preNbAvailableRbs cc ue (state.preNbAvailableRbs cc ue + size)
    dlPowOff :=
      if input.transmissionMode cc ue = 5 then put state.dlPowOff cc ue 1 else state.dlPowOff }

/-- The body of the loop of `dlsch_scheduler_pre_processor_allocate`. -/
def allocateRbg (input : PreProcessing) (cc ue : Nat) (state : PreProcessor)
    (i : Nat) : PreProcessor :=
  let unit := getMinRbUnit (input.nRbDl cc)
  if state.rballocSub cc i = false ∧ state.rballocSubUe cc ue i = false ∧
      0 < state.remaining cc ue ∧ state.preNbAvailableRbs cc ue < state.required cc ue ∧
      state.dlPowOff cc ue ≠ 0 then
    if i = nRbg (input.nRbDl cc) - 1 ∧ (input.nRbDl cc = 25 ∨ input.nRbDl cc = 50) then
      input.take cc ue state i (unit - 1)
    else if unit ≤ state.remaining cc ue then input.take cc ue state i unit
    else state
  else state

def allocate (input : PreProcessing) (state : PreProcessor) (place : Nat × Nat) :
    PreProcessor :=
  (range (nRbg (input.nRbDl place.1))).foldl (input.allocateRbg place.1 place.2) state

def places (input : PreProcessing) : List (Nat × Nat) :=
  input.sorted.flatMap fun ue => (input.orderedCcIds ue).map fun cc => (cc, ue)

def validPlaces (input : PreProcessing) : List (Nat × Nat) :=
  input.places.filter fun place => input.valid place.2

end PreProcessing

structure Averaging where
  totalUeCount : Nat
  averageRbsPerUser : Nat → Nat
  required : Nat → Nat → Nat

/-- The body of the loop over the active UEs. Its test of `harq_pid` for a negative
number never skips a UE, as the field is unsigned. -/
def PreProcessing.average (input : PreProcessing) (loop : Averaging) (place : Nat × Nat) :
    Averaging :=
  let (cc, ue) := place
  let required :=
    if 0 < input.round cc ue then put loop.required cc ue (input.nbRb cc ue) else loop.required
  let total := if 0 < required cc ue then (loop.totalUeCount + 1) % 256 else loop.totalUeCount
  let unit := getMinRbUnit (input.nRbDl cc)
  { totalUeCount := total
    averageRbsPerUser := Function.update loop.averageRbsPerUser cc
      (if total = 0 then 0
      else if unit * total ≤ input.nRbDl cc then input.nRbDl cc / total
      else unit)
    required }

def PreProcessing.remaining1 (input : PreProcessing) (loop : Averaging) (cc ue : Nat) : Nat :=
  if input.reconfigured ue then min (loop.averageRbsPerUser cc) (loop.required cc ue)
  else loop.required cc ue

def PreProcessing.startRound (input : PreProcessing) (loop : Averaging) (second : Bool)
    (state : PreProcessor) (place : Nat × Nat) : PreProcessor :=
  let (cc, ue) := place
  let first := input.remaining1 loop cc ue
  { state with
    remaining := put state.remaining cc ue
      (if second then (loop.required cc ue - first + state.remaining cc ue) % 65536 else first) }

def PreProcessing.runRound (input : PreProcessing) (loop : Averaging) (state : PreProcessor)
    (second : Bool) : PreProcessor :=
  let started := input.places.foldl (input.startRound loop second) state
  if 0 < loop.totalUeCount then input.validPlaces.foldl input.allocate started else started

def dlschSchedulerPreProcessor (input : PreProcessing) (state : PreProcessor) : PreProcessor :=
  let everywhere := (range input.nCcs).flatMap fun cc => input.ues.map fun ue => (cc, ue)
  let cleared := everywhere.foldl input.reset state
  let loop := input.validPlaces.foldl input.average
    ⟨0, fun _ => 0, input.assignRbsRequired cleared.required⟩
  [false, true].foldl (input.runRound loop) { cleared with required := loop.required }

def rbgSize (nRbDl i : Nat) : Nat := min (getMinRbUnit nRbDl) (nRbDl - i * getMinRbUnit nRbDl)

def rbgRbs (nRbDl i : Nat) (granted : Bool) : Int := if granted then rbgSize nRbDl i else 0

/-- Each group of a carrier has at most one UE, and the groups of a UE are accounted
for and were not blocked; the groups out of use are those that were blocked or have a UE. -/
structure PreProcessor.Parted (input : PreProcessing) (cc : Nat) (state : PreProcessor) : Prop where
  blocked : ∀ i < nRbg (input.nRbDl cc), input.ues ≠ [] → input.blocked cc i →
    state.rballocSub cc i
  taken : ∀ i < nRbg (input.nRbDl cc), ∀ ue ∈ input.ues, state.rballocSubUe cc ue i →
    state.rballocSub cc i ∧ input.blocked cc i = false
  owned : ∀ i < nRbg (input.nRbDl cc), input.ues ≠ [] → state.rballocSub cc i →
    input.blocked cc i ∨ ∃ ue ∈ input.ues, state.rballocSubUe cc ue i
  alone : ∀ i < nRbg (input.nRbDl cc), ∀ ue ∈ input.ues, ∀ other ∈ input.ues,
    state.rballocSubUe cc ue i → state.rballocSubUe cc other i → ue = other
  total : ∀ ue ∈ input.ues, (state.preNbAvailableRbs cc ue : Int) =
    tally (nRbg (input.nRbDl cc)) (rbgRbs (input.nRbDl cc)) (state.rballocSubUe cc ue)
  few : ∀ ue ∈ input.ues, 0 < state.preNbAvailableRbs cc ue →
    state.preNbAvailableRbs cc ue < state.required cc ue + getMinRbUnit (input.nRbDl cc)

theorem rbgSize_of_isBandwidth {nRbDl : Nat} (bandwidth : IsBandwidth nRbDl) {i : Nat}
    (inside : i < nRbg nRbDl) :
    rbgSize nRbDl i =
      if i = nRbg nRbDl - 1 ∧ (nRbDl = 25 ∨ nRbDl = 50) then getMinRbUnit nRbDl - 1
      else getMinRbUnit nRbDl := by
  rcases bandwidth with rfl | rfl | rfl | rfl <;>
    simp only [nRbg, rbgSize, getMinRbUnit] at inside ⊢ <;> grind

theorem tally_rbgRbs {nRbDl at_ : Nat} (table : Nat → Bool) {changed : Nat → Bool}
    (inside : at_ < nRbg nRbDl) (fresh : table at_ = false)
    (same : ∀ i, i ≠ at_ → changed i = table i) :
    tally (nRbg nRbDl) (rbgRbs nRbDl) changed =
      tally (nRbg nRbDl) (rbgRbs nRbDl) table + rbgRbs nRbDl at_ (changed at_) := by
  rw [tally_change inside fun i _ apart => congrArg _ (same i apart), fresh]
  exact congrArg _ (sub_zero _)

theorem tally_rbgRbs_le {nRbDl : Nat} (bandwidth : IsBandwidth nRbDl) (table : Nat → Bool) :
    tally (nRbg nRbDl) (rbgRbs nRbDl) table ≤ 100 := by
  refine (Finset.sum_le_card_nsmul _ _ (getMinRbUnit nRbDl : Int) fun i _ => ?_).trans ?_
  · unfold rbgRbs rbgSize
    split <;> omega
  · rw [Finset.card_range]
    rcases bandwidth with rfl | rfl | rfl | rfl <;> decide

namespace PreProcessor.Parted

variable {input : PreProcessing} {cc : Nat} {state : PreProcessor}

theorem take (parted : state.Parted input cc) {at_ ue i size : Nat} (listed : ue ∈ input.ues)
    (inside : i < nRbg (input.nRbDl at_)) (free : state.rballocSub at_ i = false)
    (hungry : state.preNbAvailableRbs at_ ue < state.required at_ ue)
    (whole : at_ = cc → size = rbgSize (input.nRbDl cc) i) :
    (input.take at_ ue state i size).Parted input cc := by
  obtain ⟨blocked, taken, owned, alone, total, few⟩ := parted
  by_cases here : at_ = cc
  · subst here
    have unit : size ≤ getMinRbUnit (input.nRbDl at_) := by
      rw [whole rfl]
      exact min_le_left _ _
    refine ⟨?_, ?_, ?_, ?_, ?_, ?_⟩ <;> simp only [PreProcessing.take, put]
    · grind
    · grind [update_apply]
    · grind [update_apply]
    · grind [update_apply]
    · intro other mem
      by_cases same : other = ue
      · subst same
        have fresh : state.rballocSubUe at_ other i = false := by
          cases given : state.rballocSubUe at_ other i with
          | false => rfl
          | true => rw [(taken i inside other mem given).1] at free; cases free
        have grown := tally_rbgRbs _ inside fresh fun index apart =>
          update_of_ne apart true (state.rballocSubUe at_ other)
        grind [total other mem, rbgRbs]
      · simp only [same, and_false, if_false]
        exact total other mem
    · grind
  · refine ⟨?_, ?_, ?_, ?_, ?_, ?_⟩ <;>
      simp only [PreProcessing.take, put, Ne.symm here, false_and, if_false] <;> assumption

theorem allocateRbg (parted : state.Parted input cc) (bandwidth : IsBandwidth (input.nRbDl cc))
    {at_ ue i : Nat} (listed : ue ∈ input.ues) (inside : i < nRbg (input.nRbDl at_)) :
    (input.allocateRbg at_ ue state i).Parted input cc := by
  simp only [PreProcessing.allocateRbg]
  split
  next able =>
    obtain ⟨free, -, -, hungry, -⟩ := able
    split
    next last =>
      refine parted.take listed inside free hungry fun here => ?_
      subst here
      rw [rbgSize_of_isBandwidth bandwidth inside, if_pos last]
    next notLast =>
      split
      · refine parted.take listed inside free hungry fun here => ?_
        subst here
        rw [rbgSize_of_isBandwidth bandwidth inside, if_neg notLast]
      · exact parted
  next => exact parted

theorem runRound (parted : state.Parted input cc) (bandwidth : IsBandwidth (input.nRbDl cc))
    (loop : Averaging) (second : Bool) : (input.runRound loop state second).Parted input cc := by
  have started : (input.places.foldl (input.startRound loop second) state).Parted input cc :=
    foldlRecOn _ _ parted fun _ kept _ _ =>
      { kept with }
  unfold PreProcessing.runRound
  split
  · refine foldlRecOn _ _ started fun before kept place mem => ?_
    have listed : place.2 ∈ input.ues := by
      simp only [PreProcessing.validPlaces, PreProcessing.places, mem_filter, mem_flatMap,
        mem_map] at mem
      obtain ⟨⟨ue, among, cc, _, rfl⟩, _⟩ := mem
      exact input.perm.mem_iff.mp among
    exact foldlRecOn _ _ kept fun _ still i below =>
      still.allocateRbg bandwidth listed (mem_range.mp below)
  · exact started

theorem cleared (carrier : cc < input.nCcs) (start : PreProcessor) {ue : Nat}
    (listed : ue ∈ input.ues) :
    let state := ((range input.nCcs).flatMap fun cc =>
      input.ues.map fun ue => (cc, ue)).foldl input.reset start
    state.preNbAvailableRbs cc ue = 0 ∧ state.dlPowOff cc ue = 2 ∧
      ∀ i < nRbg (input.nRbDl cc), state.rballocSub cc i = input.blocked cc i ∧
        state.rballocSubUe cc ue i = false :=
  @foldl_establishes _ _ input.reset
    (fun place state => state.preNbAvailableRbs place.1 place.2 = 0 ∧
      state.dlPowOff place.1 place.2 = 2 ∧
      ∀ i < nRbg (input.nRbDl place.1), state.rballocSub place.1 i = input.blocked place.1 i ∧
        state.rballocSubUe place.1 place.2 i = false)
    (by simp +contextual [PreProcessing.reset, put])
    (by simp only [PreProcessing.reset, put, ite_apply]; grind) _ start (cc, ue)
    (mem_flatMap.mpr ⟨cc, mem_range.mpr carrier, mem_map.mpr ⟨ue, listed, rfl⟩⟩)

theorem resets (carrier : cc < input.nCcs) (start : PreProcessor) (required : Nat → Nat → Nat) :
    Parted input cc { ((range input.nCcs).flatMap fun cc =>
      input.ues.map fun ue => (cc, ue)).foldl input.reset start with required } := by
  have cleared := fun ue => @cleared input cc carrier start ue
  refine ⟨fun i inside some_ taken => ?_, by grind, fun i inside some_ taken => ?_, by grind,
    fun ue listed => ?_, by grind⟩
  · obtain ⟨ue, listed⟩ := exists_mem_of_ne_nil _ some_
    rw [((cleared ue listed).2.2 i inside).1, taken]
  · obtain ⟨ue, listed⟩ := exists_mem_of_ne_nil _ some_
    exact .inl (((cleared ue listed).2.2 i inside).1 ▸ taken)
  · rw [(cleared ue listed).1, tally_eq_zero fun i inside => ?_, Nat.cast_zero]
    rw [((cleared ue listed).2.2 i inside).2]
    rfl

end PreProcessor.Parted

theorem dlschSchedulerPreProcessor_parted (input : PreProcessing) (start : PreProcessor) {cc : Nat}
    (carrier : cc < input.nCcs) (bandwidth : IsBandwidth (input.nRbDl cc)) :
    (dlschSchedulerPreProcessor input start).Parted input cc :=
  foldlRecOn _ _ (PreProcessor.Parted.resets carrier start _) fun _ kept second _ =>
    kept.runRound bandwidth _ second

/-- On every carrier a group has at most one UE, a UE has the blocks of its groups, and
less than a unit more than it requires. -/
theorem preProcessor_partitions (input : PreProcessing) (start : PreProcessor) {cc : Nat}
    (carrier : cc < input.nCcs) (bandwidth : IsBandwidth (input.nRbDl cc)) :
    let final := dlschSchedulerPreProcessor input start
    (∀ i < nRbg (input.nRbDl cc), ∀ ue ∈ input.ues, ∀ other ∈ input.ues,
      final.rballocSubUe cc ue i → final.rballocSubUe cc other i → ue = other) ∧
    ∀ ue ∈ input.ues,
      (final.preNbAvailableRbs cc ue : Int) =
        tally (nRbg (input.nRbDl cc)) (rbgRbs (input.nRbDl cc)) (final.rballocSubUe cc ue) ∧
      (0 < final.preNbAvailableRbs cc ue →
        final.preNbAvailableRbs cc ue < final.required cc ue + getMinRbUnit (input.nRbDl cc)) :=
  have parted := dlschSchedulerPreProcessor_parted input start carrier bandwidth
  ⟨parted.alone, fun ue listed => ⟨parted.total ue listed, parted.few ue listed⟩⟩

def oneMarkedRb (nRbDl rb : Nat) : PreProcessing where
  nCcs := 1
  nRbDl _ := nRbDl
  vrbMap _ r := if r = rb then 1 else 0
  subframe := 1
  ues := [0]
  sorted := [0]
  perm := Perm.refl _
  valid _ := true
  orderedCcIds _ := [0]
  assignRbsRequired _ _ _ := nRbDl
  round _ _ := 0
  nbRb _ _ := 0
  reconfigured _ := true
  transmissionMode _ _ := 1

def noGrants : PreProcessor :=
  ⟨fun _ _ => 0, fun _ _ => 0, fun _ _ => false, fun _ _ _ => false, fun _ _ => 0, fun _ _ => 0⟩

def twoUes : PreProcessing :=
  { oneMarkedRb 25 20 with ues := [0, 1], sorted := [0, 1], perm := .refl _ }

theorem preProcessor_partitions_twentyFive :
    let final := dlschSchedulerPreProcessor twoUes noGrants
    (final.preNbAvailableRbs 0 0 = 13 ∧
      tally 13 (rbgRbs 25) (final.rballocSubUe 0 0) = 13) ∧ ¬ final.rballocSubUe 0 1 0 := by
  obtain ⟨alone, total⟩ := preProcessor_partitions twoUes noGrants Nat.zero_lt_one (.inr (.inl rfl))
  have granted : (dlschSchedulerPreProcessor twoUes noGrants).rballocSubUe 0 0 0 ∧
    (dlschSchedulerPreProcessor twoUes noGrants).preNbAvailableRbs 0 0 = 13 := by decide +kernel
  exact ⟨⟨granted.2, (total 0 (by decide)).1.symm.trans (by rw [granted.2]; rfl)⟩,
    fun again => Nat.zero_ne_one (alone 0 (by decide) 0 (by decide) 1 (by decide) granted.1 again)⟩

/-- The blocks that the physical layer uses for group `i` of a grant. -/
def RbOfRbg (nRbDl i rb : Nat) : Prop :=
  RbMarked (convRballoc nRbDl (1 <<< (nRbg nRbDl - 1 - i))) rb

instance {nRbDl i rb : Nat} : Decidable (RbOfRbg nRbDl i rb) :=
  inferInstanceAs (Decidable (RbMarked ..))

/-- No group of a UE contains a marked block. -/
def PreProcessing.Avoids (input : PreProcessing) (cc : Nat) (final : PreProcessor) : Prop :=
  ∀ ue ∈ input.ues, ∀ i < nRbg (input.nRbDl cc), final.rballocSubUe cc ue i →
    ∀ rb < input.nRbDl cc, RbOfRbg (input.nRbDl cc) i rb → input.vrbMap cc rb = 0

/-- A single UE that requires more blocks than the band has. -/
def PreProcessing.greedy (carriers : DlCarriers) (cc : Nat) : PreProcessing where
  toDlCarriers := carriers
  ues := [0]
  sorted := [0]
  perm := Perm.refl _
  valid _ := true
  orderedCcIds _ := [cc]
  assignRbsRequired _ _ _ := 1000
  round _ _ := 0
  nbRb _ _ := 0
  reconfigured _ := false
  transmissionMode _ _ := 1

namespace PreProcessor

variable {input : PreProcessing} {cc i : Nat} {state : PreProcessor}

structure Greedy (input : PreProcessing) (cc : Nat) (state : PreProcessor) : Prop where
  parted : state.Parted input cc
  listed : 0 ∈ input.ues
  required : state.required cc 0 = 1000
  remaining : state.remaining cc 0 + state.preNbAvailableRbs cc 0 = 1000
  powered : state.dlPowOff cc 0 ≠ 0

theorem Greedy.allocateRbg (greedy : state.Greedy input cc)
    (bandwidth : IsBandwidth (input.nRbDl cc)) (inside : i < nRbg (input.nRbDl cc)) :
    (input.allocateRbg cc 0 state i).Greedy input cc ∧
      (input.allocateRbg cc 0 state i).rballocSub cc i := by
  obtain ⟨parted, listed, required, remaining, powered⟩ := greedy
  have few : state.preNbAvailableRbs cc 0 ≤ 100 := by
    have := tally_rbgRbs_le bandwidth (state.rballocSubUe cc 0)
    have := parted.total 0 listed
    omega
  have unit : getMinRbUnit (input.nRbDl cc) ≤ 4 := by
    unfold getMinRbUnit
    grind
  have fresh := parted.taken i inside 0 listed
  have after := parted.allocateRbg bandwidth listed inside
  have cases : state.rballocSub cc i ∧ input.allocateRbg cc 0 state i = state ∨
      ∃ size ≤ 4, input.allocateRbg cc 0 state i = input.take cc 0 state i size := by
    unfold PreProcessing.allocateRbg
    grind
  rcases cases with ⟨taken, same⟩ | ⟨size, few, takes⟩
  · rw [same]
    exact ⟨⟨parted, listed, required, remaining, powered⟩, taken⟩
  · rw [takes] at after ⊢
    refine ⟨⟨after, listed, required, ?_, ?_⟩, ?_⟩ <;> simp only [PreProcessing.take] <;>
      grind [put]

theorem rballocSub_allocateRbg {at_ ue j : Nat} (taken : state.rballocSub cc j) :
    (input.allocateRbg at_ ue state i).rballocSub cc j := by
  unfold PreProcessing.allocateRbg PreProcessing.take put
  grind

theorem rballocSub_foldl {α : Type} {step : PreProcessor → α → PreProcessor} {inputs : List α}
    (keeps : ∀ state input, state.rballocSub cc i → (step state input).rballocSub cc i)
    (taken : state.rballocSub cc i) : (inputs.foldl step state).rballocSub cc i :=
  foldlRecOn (motive := (rballocSub · cc i)) _ _ taken fun _ kept _ _ => keeps _ _ kept

theorem Greedy.allocate (greedy : state.Greedy input cc) (bandwidth : IsBandwidth (input.nRbDl cc))
    (inside : i < nRbg (input.nRbDl cc)) : (input.allocate state (cc, 0)).rballocSub cc i := by
  obtain ⟨before, after, split⟩ := append_of_mem (mem_range.mpr inside)
  have reached : (before.foldl (input.allocateRbg cc 0) state).Greedy input cc :=
    foldlRecOn _ _ greedy fun _ kept j mem =>
      (kept.allocateRbg bandwidth (mem_range.mp (split ▸ mem_append_left _ mem))).1
  rw [PreProcessing.allocate, split, foldl_append, foldl_cons]
  exact rballocSub_foldl (fun _ _ => rballocSub_allocateRbg)
    (reached.allocateRbg bandwidth inside).2

theorem rballocSub_runRound {loop : Averaging} {second : Bool} (taken : state.rballocSub cc i) :
    (input.runRound loop state second).rballocSub cc i := by
  have started : (input.places.foldl (input.startRound loop second) state).rballocSub cc i :=
    rballocSub_foldl (fun _ _ => id) taken
  unfold PreProcessing.runRound
  split
  · exact rballocSub_foldl (fun _ _ => rballocSub_foldl fun _ _ => rballocSub_allocateRbg) started
  · exact started

/-- The first round gives a UE that requires too much all groups in use. -/
theorem rballocSub_greedy {carriers : DlCarriers} (carrier : cc < carriers.nCcs)
    (bandwidth : IsBandwidth (carriers.nRbDl cc)) (start : PreProcessor)
    (inside : i < nRbg (carriers.nRbDl cc)) :
    (dlschSchedulerPreProcessor (.greedy carriers cc) start).rballocSub cc i := by
  have cleared := @Parted.cleared (.greedy carriers cc) cc carrier start 0 (mem_singleton.mpr rfl)
  simp only [dlschSchedulerPreProcessor, foldl_cons, foldl_nil]
  apply rballocSub_runRound
  refine @Greedy.allocate (.greedy carriers cc) _ _ _ ⟨?_, mem_singleton.mpr rfl, ?_, ?_, ?_⟩
    bandwidth inside
  · exact { Parted.resets carrier start (fun _ _ => 1000) with }
  · rfl
  · change (if _ then 1000 else _) + _ = 1000
    rw [if_pos ⟨rfl, rfl⟩]
    exact congrArg (1000 + ·) cleared.1
  · exact cleared.2.1.trans_ne two_ne_zero

end PreProcessor

/-- The UEs of a carrier stay off the marked blocks, whatever UEs there are, exactly if the
reset takes each group of the physical layer with a marked block out of use. -/
theorem preProcessor_avoids (carriers : DlCarriers) {cc : Nat} (carrier : cc < carriers.nCcs)
    (bandwidth : IsBandwidth (carriers.nRbDl cc)) :
    (∀ input : PreProcessing, input.toDlCarriers = carriers → ∀ start,
      input.Avoids cc (dlschSchedulerPreProcessor input start)) ↔
    ∀ i < nRbg (carriers.nRbDl cc), ∀ rb < carriers.nRbDl cc, carriers.vrbMap cc rb ≠ 0 →
      RbOfRbg (carriers.nRbDl cc) i rb → carriers.blocked cc i := by
  constructor
  · intro avoids i inside rb below marked within
    have parted :=
      dlschSchedulerPreProcessor_parted (.greedy carriers cc) noGrants carrier bandwidth
    have taken := PreProcessor.rballocSub_greedy carrier bandwidth noGrants inside
    refine (parted.owned i inside (cons_ne_nil _ _) taken).resolve_right ?_
    rintro ⟨ue, listed, given⟩
    exact marked (avoids _ rfl noGrants ue listed i inside given rb below within)
  · rintro seen input rfl start ue listed i inside given rb below within
    have parted := dlschSchedulerPreProcessor_parted input start carrier bandwidth
    have free := (parted.taken i inside ue listed given).2
    by_contra marked
    rw [seen i inside rb below marked within] at free
    cases free

theorem preProcessor_avoids_hundred :
    (oneMarkedRb 100 7).Avoids 0 (dlschSchedulerPreProcessor (oneMarkedRb 100 7) noGrants) :=
  (preProcessor_avoids (oneMarkedRb 100 7).toDlCarriers Nat.zero_lt_one
    (by simp [oneMarkedRb, IsBandwidth])).mpr (by decide +kernel) _ rfl noGrants

/-- With 25 blocks the reset looks at the first 13 only. -/
theorem not_preProcessor_avoids :
    ¬ (oneMarkedRb 25 20).Avoids 0 (dlschSchedulerPreProcessor (oneMarkedRb 25 20) noGrants) := by
  unfold PreProcessing.Avoids
  decide +kernel

end OpenAir.Mac
