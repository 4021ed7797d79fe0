import OpenAir.Mac.DlschProperties
import OpenAir.Mac.DlschScheduling
import OpenAir.Mac.UeMultiplexProperties

/-! When the block that the eNB builds for a UE carries what RLC gave. -/

set_option autoImplicit false

namespace OpenAir.Mac

open OpenAir.Base List DlschUe HeaderWriter Nat DlschGathered

section Search

variable (tbs : Nat → Nat)

/-- The first of `first`, `first + unit`, … that is enough. All that are available
if none of those is, where `first` is tried even if it is not available. -/
def RbSelected (available unit first required nbRb : Nat) : Prop :=
  (∃ steps, nbRb = first + steps * unit ∧ (steps = 0 ∨ nbRb ≤ available) ∧
    required ≤ tbs nbRb ∧ ∀ fewer < steps, tbs (first + fewer * unit) < required) ∨
  nbRb = available ∧ ∀ steps, (steps = 0 ∨ first + steps * unit ≤ available) →
    tbs (first + steps * unit) < required

/-- From the highest MCS up to `mcs1` that is not too much, or from 0, the first
one that is enough or not below the limit. -/
def McsSelected (mcs1 limit required mcs : Nat) : Prop :=
  ∃ lowered ≤ mcs1, (lowered = 0 ∨ tbs lowered ≤ required) ∧
    (∀ other, lowered < other → other ≤ mcs1 → required < tbs other) ∧
    lowered ≤ mcs ∧
      (∀ other, lowered ≤ other → other < mcs → tbs other < required ∧ other < limit) ∧
    (required ≤ tbs mcs ∨ limit ≤ mcs)

variable {tbs} {available unit first required mcs1 limit : Nat}

theorem rbSelected_growRb (positive : 0 < unit) {fuel steps : Nat}
    (enough : available < first + steps * unit + fuel) (some : 0 < fuel)
    (within : steps = 0 ∨ first + steps * unit ≤ available)
    (before : ∀ fewer < steps, tbs (first + fewer * unit) < required) :
    RbSelected tbs available unit first required
      (growRb tbs available unit required fuel (first + steps * unit)) := by
  induction fuel generalizing steps with
  | zero => exact absurd some (Nat.lt_irrefl 0)
  | succ fuel ih =>
    unfold growRb
    have next : first + steps * unit + unit = first + (steps + 1) * unit := by
      rw [Nat.add_mul, Nat.one_mul, Nat.add_assoc]
    have upTo : tbs (first + steps * unit) < required →
        ∀ fewer < steps + 1, tbs (first + fewer * unit) < required := by
      intro little fewer less
      rcases Nat.lt_succ_iff_lt_or_eq.mp less with less | rfl
      · exact before fewer less
      · exact little
    split
    next little =>
      split
      next beyond =>
        refine .inr ⟨rfl, fun other allowed => upTo little other (Nat.lt_of_not_le fun more => ?_)⟩
        have larger := Nat.mul_le_mul_right unit more
        rcases allowed with rfl | allowed
        · exact absurd more (Nat.not_succ_le_zero steps)
        · omega
      next inside =>
        rw [next] at inside ⊢
        exact ih (by omega) (by omega) (.inr (Nat.le_of_not_lt inside)) (upTo little)
    next much => exact .inl ⟨steps, rfl, within, Nat.le_of_not_lt much, before⟩

theorem RbSelected.unique {nbRb other : Nat}
    (selected : RbSelected tbs available unit first required nbRb)
    (again : RbSelected tbs available unit first required other) : nbRb = other := by
  rcases selected with ⟨steps, rfl, within, enough, before⟩ | ⟨rfl, never⟩
  · rcases again with ⟨steps', rfl, within', enough', before'⟩ | ⟨rfl, never⟩
    · rcases lt_trichotomy steps steps' with less | rfl | more
      · exact absurd (before' steps less) (not_lt.mpr enough)
      · rfl
      · exact absurd (before steps' more) (not_lt.mpr enough')
    · exact absurd (never steps within) (not_lt.mpr enough)
  · rcases again with ⟨steps, rfl, within, enough, -⟩ | ⟨rfl, -⟩
    · exact absurd (never steps within) (not_lt.mpr enough)
    · rfl

variable (tbs required) in
theorem lowerMcs_spec (mcs1 : Nat) :
    lowerMcs tbs required mcs1 ≤ mcs1 ∧
      (lowerMcs tbs required mcs1 = 0 ∨ tbs (lowerMcs tbs required mcs1) ≤ required) ∧
      ∀ other, lowerMcs tbs required mcs1 < other → other ≤ mcs1 → required < tbs other := by
  induction mcs1 with
  | zero => exact ⟨Nat.le_refl 0, .inl rfl, fun other more less => by
      simp only [lowerMcs] at more; omega⟩
  | succ mcs1 ih =>
    unfold lowerMcs
    split
    next much =>
      refine ⟨Nat.le_succ_of_le ih.1, ih.2.1, fun other more less => ?_⟩
      rcases Nat.le_succ_iff.mp less with less | rfl
      · exact ih.2.2 other more less
      · exact much
    next little =>
      exact ⟨Nat.le_refl _, .inr (Nat.le_of_not_lt little), fun other more less => by omega⟩

variable (tbs required) in
theorem raiseMcs_spec (steps mcs : Nat) :
    mcs ≤ raiseMcs tbs required steps mcs ∧
      (∀ other, mcs ≤ other → other < raiseMcs tbs required steps mcs →
        tbs other < required ∧ other < mcs + steps) ∧
      (required ≤ tbs (raiseMcs tbs required steps mcs) ∨
        mcs + steps ≤ raiseMcs tbs required steps mcs) := by
  induction steps generalizing mcs with
  | zero => exact ⟨Nat.le_refl _, fun other more less => absurd less (Nat.not_lt.mpr more),
      .inr (Nat.le_refl _)⟩
  | succ steps ih =>
    unfold raiseMcs
    split
    next little =>
      obtain ⟨higher, between, done⟩ := ih (mcs + 1)
      refine ⟨by omega, fun other more less => ?_, by omega⟩
      rcases Nat.eq_or_lt_of_le more with rfl | more
      · exact ⟨little, by omega⟩
      · obtain ⟨below, bounded⟩ := between other more less
        exact ⟨below, by omega⟩
    next enough =>
      exact ⟨Nat.le_refl _, fun other more less => absurd less (Nat.not_lt.mpr more),
        .inl (Nat.le_of_not_lt enough)⟩

variable (tbs mcs1 limit required) in
theorem mcsSelected_raiseMcs :
    McsSelected tbs mcs1 limit required
      (raiseMcs tbs required (limit - lowerMcs tbs required mcs1)
        (lowerMcs tbs required mcs1)) := by
  obtain ⟨lower, little, much⟩ := lowerMcs_spec tbs required mcs1
  obtain ⟨higher, between, done⟩ := raiseMcs_spec tbs required
    (limit - lowerMcs tbs required mcs1) (lowerMcs tbs required mcs1)
  refine ⟨_, lower, little, much, higher, fun other more less => ?_, ?_⟩
  · obtain ⟨below, bounded⟩ := between other more less
    exact ⟨below, by omega⟩
  · exact done.imp_right fun all => by omega

theorem McsSelected.unique {mcs other : Nat} (selected : McsSelected tbs mcs1 limit required mcs)
    (again : McsSelected tbs mcs1 limit required other) : mcs = other := by
  obtain ⟨lowered, lower, little, much, above, between, done⟩ := selected
  obtain ⟨lowered', lower', little', much', above', between', done'⟩ := again
  have same : lowered = lowered' := by
    rcases lt_trichotomy lowered lowered' with less | same | more
    · have large := much lowered' less lower'
      omega
    · exact same
    · have large := much' lowered more lower
      omega
  subst same
  rcases lt_trichotomy mcs other with less | same | more
  · have small := between' mcs above less
    omega
  · exact same
  · have small := between other above' more
    omega

end Search

theorem getMinRbUnit_pos (nRbDl : Nat) : 0 < getMinRbUnit nRbDl := by
  unfold getMinRbUnit
  split_ifs <;> decide

namespace DlschUe

variable (ue : DlschUe) (sizes : TransportBlockSizes) (required : Nat)

def Selected (mcs nbRb : Nat) : Prop :=
  RbSelected (sizes.getTbsDl ue.dlschMcs1) ue.nbAvailableRb (getMinRbUnit ue.nRbDl) ue.firstRb
      required nbRb ∧
    McsSelected (fun mcs => sizes.getTbsDl mcs nbRb) ue.dlschMcs1 ue.mcsLimit required mcs

theorem selected_select :
    ue.Selected sizes required (ue.selectMcs sizes required (ue.selectRb sizes required))
      (ue.selectRb sizes required) := by
  constructor
  · have enough : ue.nbAvailableRb <
        ue.firstRb + 0 * getMinRbUnit ue.nRbDl + (ue.nbAvailableRb + 1) := by omega
    have before : ∀ fewer < 0, sizes.getTbsDl ue.dlschMcs1
        (ue.firstRb + fewer * getMinRbUnit ue.nRbDl) < required :=
      fun fewer none => absurd none (not_lt_zero fewer)
    have found := rbSelected_growRb (getMinRbUnit_pos ue.nRbDl) enough (succ_pos _) (.inl rfl)
      before
    rw [zero_mul] at found
    exact found
  · exact mcsSelected_raiseMcs _ _ _ _

end DlschUe

namespace DlschGathered

structure Reached (gathered : DlschGathered) (served : List (Lcid × List UInt8))
    (requests : List (Lcid × Int)) (headerLenDcch headerLenDtch : Nat) : Prop where
  sdus : gathered.sdus = lengthsOf served
  total : gathered.total = (sdusData served).length
  placed : load gathered.buff 0 gathered.total = sdusData served
  announced : gathered.announced = requests
  dcch : gathered.headerLenDcch = headerLenDcch
  dtch : gathered.headerLenDtch = headerLenDtch

variable {gathered : DlschGathered} {served : List (Lcid × List UInt8)}
  {requests : List (Lcid × Int)} {d t : Nat}

theorem Reached.take (reached : gathered.Reached served requests d t) (lcid : Lcid) (size : Int)
    {pos : Nat} (behind : pos = gathered.total) {octets : List UInt8}
    (small : (sdusData served).length + octets.length < 65536) :
    (gathered.take lcid size pos octets octets.length).Reached (served ++ [(lcid, octets)])
      (requests ++ [(lcid, size)]) d t := by
  obtain ⟨sdus, total, placed, rfl, rfl, rfl⟩ := reached
  have sum : (gathered.total + octets.length) % 65536 = gathered.total + octets.length :=
    mod_eq_of_lt (by omega)
  refine ⟨?_, ?_, ?_, rfl, rfl, rfl⟩
  · simp [take, sdus, lengthsOf]
  · show (gathered.total + octets.length) % 65536 = _
    rw [sum, total]
    simp [sdusData]
  · show load (store gathered.buff pos octets) 0 ((gathered.total + octets.length) % 65536) = _
    rw [sum, behind, load_store_behind, placed]
    simp [sdusData]

end DlschGathered

namespace DlschUe

variable (ue : DlschUe) (tbs : Nat) (rlc : RlcChannels)

def GivesDcch : Prop := 2 < ue.room tbs ∧ rlc.hasData .dcch

instance : Decidable (ue.GivesDcch tbs rlc) := inferInstanceAs (Decidable (_ ∧ _))

def dcchSdu : List (Lcid × List UInt8) :=
  if ue.GivesDcch tbs rlc then [(.dcch, rlc.octets .dcch)] else []

def dcchHeader : Nat := if 2 < ue.room tbs ∧ rlc.hasData .dcch = false then 0 else 2

def dcch1Room : Int :=
  ue.room tbs - ue.dcchHeader tbs rlc - (sdusData (ue.dcchSdu tbs rlc)).length

def GivesDcch1 : Prop := 0 < ue.dcch1Room tbs rlc ∧ rlc.hasData .dcch1

instance : Decidable (ue.GivesDcch1 tbs rlc) := inferInstanceAs (Decidable (_ ∧ _))

def dcch1Sdu : List (Lcid × List UInt8) :=
  if ue.GivesDcch1 tbs rlc then [(.dcch1, rlc.octets .dcch1)] else []

def dcchHeaders : Nat := ue.dcchHeader tbs rlc + if ue.GivesDcch1 tbs rlc then 2 else 0

def dtchRoom : Int :=
  ue.room tbs - ue.dcchHeaders tbs rlc -
    (sdusData (ue.dcchSdu tbs rlc ++ ue.dcch1Sdu tbs rlc)).length - 3

def GivesDtch : Prop := 0 < ue.dtchRoom tbs rlc ∧ rlc.hasData .dtch

instance : Decidable (ue.GivesDtch tbs rlc) := inferInstanceAs (Decidable (_ ∧ _))

def dtchSdu : List (Lcid × List UInt8) :=
  if ue.GivesDtch tbs rlc then [(.dtch, rlc.octets .dtch)] else []

def dtchHeader : Nat :=
  if 0 < ue.dtchRoom tbs rlc then
    if rlc.hasData .dtch then if (rlc.octets .dtch).length < 128 then 2 else 3 else 0
  else 3

def served : List (Lcid × List UInt8) :=
  ue.dcchSdu tbs rlc ++ ue.dcch1Sdu tbs rlc ++ ue.dtchSdu tbs rlc

def requests : List (Lcid × Int) :=
  (if ue.GivesDcch tbs rlc then [(.dcch, ue.room tbs - 2)] else []) ++
    (if ue.GivesDcch1 tbs rlc then [(.dcch1, ue.dcch1Room tbs rlc)] else []) ++
    if ue.GivesDtch tbs rlc then [(.dtch, ue.dtchRoom tbs rlc)] else []

theorem requests_served :
    (ue.requests tbs rlc).map (fun request => (request.1, rlc.octets request.1)) =
      ue.served tbs rlc := by
  unfold requests served dcchSdu dcch1Sdu dtchSdu
  split_ifs <;> rfl

variable {ue tbs rlc} {gathered : DlschGathered} {requests : List (Lcid × Int)}

theorem reached_askDcch1 (small : tbs < 65536)
    (bound : ue.GivesDcch1 tbs rlc → ((rlc.octets .dcch1).length : Int) ≤ ue.dcch1Room tbs rlc)
    {stale : UInt16} (clean : ue.GivesDcch tbs rlc → ue.GivesDcch1 tbs rlc → stale = 0)
    (reached : gathered.Reached (ue.dcchSdu tbs rlc) requests (ue.dcchHeader tbs rlc) 3) :
    (gathered.askDcch1 (ue.room tbs) rlc stale).Reached
      (ue.dcchSdu tbs rlc ++ ue.dcch1Sdu tbs rlc)
      (requests ++ if ue.GivesDcch1 tbs rlc then [(.dcch1, ue.dcch1Room tbs rlc)] else [])
      (ue.dcchHeaders tbs rlc) 3 := by
  have size : ue.room tbs - gathered.headerLenDcch - gathered.total = ue.dcch1Room tbs rlc := by
    rw [reached.dcch, reached.total]
    rfl
  unfold askDcch1 dcch1Sdu dcchHeaders
  simp only [size]
  by_cases given : ue.GivesDcch1 tbs rlc
  · have bound := bound given
    have asked : 0 < ue.dcch1Room tbs rlc ∧ rlc.hasData .dcch1 := given
    have below : (sdusData (ue.dcchSdu tbs rlc)).length + (rlc.octets .dcch1).length < 65536 := by
      unfold dcch1Room room at bound
      omega
    have kept := reached.take .dcch1 (ue.dcch1Room tbs rlc) rfl below
    -- the length of the first SDU, if there is one, is all that has been fetched
    have pos : (gathered.sdus.head?.map (·.2)).getD 0 = gathered.total := by
      rw [reached.sdus, reached.total]
      unfold dcchSdu
      split <;> simp [lengthsOf, sdusData]
    have length : ((if gathered.sdus.isEmpty then 0 else stale.toNat) +
        (rlc.octets .dcch1).length) % 65536 = (rlc.octets .dcch1).length := by
      have old : (if gathered.sdus.isEmpty then 0 else stale.toNat) = 0 := by
        by_cases first : ue.GivesDcch tbs rlc
        · simp [clean first given]
        · simp [reached.sdus, dcchSdu, first, lengthsOf]
      omega
    simp only [if_pos asked, if_pos given, length, pos]
    exact ⟨kept.sdus, kept.total, kept.placed, kept.announced, by rw [reached.dcch], kept.dtch⟩
  · have unasked : ¬ (0 < ue.dcch1Room tbs rlc ∧ rlc.hasData .dcch1) := given
    simpa only [if_neg unasked, if_neg given, append_nil, add_zero] using reached

theorem reached_askDtch (small : tbs < 65536)
    (bound : ue.GivesDtch tbs rlc → ((rlc.octets .dtch).length : Int) ≤ ue.dtchRoom tbs rlc)
    (reached : gathered.Reached (ue.dcchSdu tbs rlc ++ ue.dcch1Sdu tbs rlc) requests
      (ue.dcchHeaders tbs rlc) 3) :
    (gathered.askDtch (ue.room tbs) rlc).Reached (ue.served tbs rlc)
      (requests ++ if ue.GivesDtch tbs rlc then [(.dtch, ue.dtchRoom tbs rlc)] else [])
      (ue.dcchHeaders tbs rlc) (ue.dtchHeader tbs rlc) := by
  have size : ue.room tbs - gathered.headerLenDcch - gathered.total - 3 = ue.dtchRoom tbs rlc := by
    rw [reached.dcch, reached.total]
    rfl
  unfold askDtch served dtchSdu dtchHeader
  simp only [size]
  by_cases asked : 0 < ue.dtchRoom tbs rlc
  · by_cases data : rlc.hasData .dtch
    · have given : ue.GivesDtch tbs rlc := ⟨asked, data⟩
      have bound := bound given
      have below : (sdusData (ue.dcchSdu tbs rlc ++ ue.dcch1Sdu tbs rlc)).length +
          (rlc.octets .dtch).length < 65536 := by
        unfold dtchRoom room at bound
        omega
      have kept := reached.take .dtch (ue.dtchRoom tbs rlc) rfl below
      simp only [if_pos asked, if_pos data, if_pos given]
      exact ⟨kept.sdus, kept.total, kept.placed, kept.announced, kept.dcch, rfl⟩
    · have missing : ¬ ue.GivesDtch tbs rlc := fun given => data given.2
      simp only [if_pos asked, if_neg data, if_neg missing, append_nil]
      exact ⟨reached.sdus, reached.total, reached.placed, reached.announced, reached.dcch, rfl⟩
  · have missing : ¬ ue.GivesDtch tbs rlc := fun given => asked given.1
    simp only [if_neg asked, if_neg missing, append_nil]
    exact ⟨reached.sdus, reached.total, reached.placed, reached.announced, reached.dcch, rfl⟩

end DlschUe

namespace DlschGathered

variable (gathered : DlschGathered) (room : Int) (rlc : RlcChannels)

theorem announced_askDcch :
    (gathered.askDcch room rlc).announced = gathered.announced ++
      if 0 < room - gathered.headerLenDcch ∧ rlc.hasData .dcch then
        [(.dcch, room - gathered.headerLenDcch)] else [] := by
  unfold askDcch
  by_cases asked : 0 < room - gathered.headerLenDcch
  · by_cases data : rlc.hasData .dcch = true <;> simp only [asked, data, take] <;> simp
  · simp only [asked, false_and, if_false, append_nil]

theorem announced_askDcch1 (stale : UInt16) :
    (gathered.askDcch1 room rlc stale).announced = gathered.announced ++
      if 0 < room - gathered.headerLenDcch - gathered.total ∧ rlc.hasData .dcch1 then
        [(.dcch1, room - gathered.headerLenDcch - gathered.total)] else [] := by
  unfold askDcch1
  dsimp only
  split <;> simp [take]

theorem askDtch_spec :
    (gathered.askDtch room rlc).announced = gathered.announced ++
        (if 0 < room - gathered.headerLenDcch - gathered.total - 3 ∧ rlc.hasData .dtch then
          [(.dtch, room - gathered.headerLenDcch - gathered.total - 3)] else []) ∧
      (gathered.askDtch room rlc).total =
        if 0 < room - gathered.headerLenDcch - gathered.total - 3 ∧ rlc.hasData .dtch then
          (gathered.total + (rlc.octets .dtch).length) % 65536 else gathered.total := by
  unfold askDtch
  by_cases asked : 0 < room - gathered.headerLenDcch - gathered.total - 3
  · by_cases data : rlc.hasData .dtch = true <;> simp only [asked, data, take] <;> simp
  · simp only [asked, false_and, if_false, append_nil, and_self]

def Answered : Prop :=
  ∀ request ∈ gathered.announced,
    1 ≤ (rlc.octets request.1).length ∧ ((rlc.octets request.1).length : Int) ≤ request.2

end DlschGathered

namespace DlschUe

variable {ue : DlschUe} {tbs : Nat} {rlc : RlcChannels}

variable {stale : UInt16} {buff : Nat → UInt8}

theorem reached_dcch (small : tbs < 65536)
    (answered : (ue.gather tbs rlc stale buff).Answered rlc) :
    ((⟨buff, 0, [], [], 2, 3⟩ : DlschGathered).askDcch (ue.room tbs) rlc).Reached
      (ue.dcchSdu tbs rlc) (if ue.GivesDcch tbs rlc then [(.dcch, ue.room tbs - 2)] else [])
      (ue.dcchHeader tbs rlc) 3 := by
  have start : (⟨buff, 0, [], [], 2, 3⟩ : DlschGathered).Reached [] [] 2 3 :=
    ⟨rfl, rfl, rfl, rfl, rfl, rfl⟩
  by_cases room : 2 < ue.room tbs
  · have asked : 0 < ue.room tbs - (2 : Nat) := by omega
    by_cases data : rlc.hasData .dcch
    · have given : ue.GivesDcch tbs rlc := ⟨room, data⟩
      have bound : ((rlc.octets .dcch).length : Int) ≤ ue.room tbs - 2 := by
        refine (answered (.dcch, ue.room tbs - 2) ?_).2
        unfold gather
        rw [(askDtch_spec ..).1, announced_askDcch1, announced_askDcch, if_pos ⟨asked, data⟩]
        exact mem_append_left _ (mem_append_left _ (mem_append_right _ (mem_singleton_self _)))
      unfold DlschUe.room at bound
      have headed : ¬ (2 < ue.room tbs ∧ rlc.hasData .dcch = false) := by simp [data]
      simp only [askDcch, dcchSdu, dcchHeader, if_pos asked, if_pos data,
        if_pos given, if_neg headed]
      exact start.take .dcch _ rfl (by simp only [sdusData, flatMap_nil, length_nil]; omega)
    · have missing : ¬ ue.GivesDcch tbs rlc := fun given => data given.2
      have unheaded : 2 < ue.room tbs ∧ rlc.hasData .dcch = false := ⟨room, by simpa using data⟩
      simp only [askDcch, dcchSdu, dcchHeader, if_pos asked, if_neg data,
        if_neg missing, if_pos unheaded]
      exact ⟨rfl, rfl, rfl, rfl, rfl, rfl⟩
  · have unasked : ¬ 0 < ue.room tbs - (2 : Nat) := by omega
    have missing : ¬ ue.GivesDcch tbs rlc := fun given => room given.1
    have headed : ¬ (2 < ue.room tbs ∧ rlc.hasData .dcch = false) := fun both => room both.1
    simp only [askDcch, dcchSdu, dcchHeader, if_neg unasked, if_neg missing, if_neg headed]
    exact start

theorem gather_spec (small : tbs < 65536) (answered : (ue.gather tbs rlc stale buff).Answered rlc)
    (clean : ue.GivesDcch tbs rlc → ue.GivesDcch1 tbs rlc → stale = 0) :
    (ue.gather tbs rlc stale buff).Reached (ue.served tbs rlc) (ue.requests tbs rlc)
      (ue.dcchHeaders tbs rlc) (ue.dtchHeader tbs rlc) := by
  have first := reached_dcch small answered
  have second := reached_askDcch1 small (fun given => ?_) clean first
  · refine reached_askDtch small (fun given => ?_) second
    refine (answered (.dtch, ue.dtchRoom tbs rlc) ?_).2
    unfold gather
    rw [(askDtch_spec ..).1]
    refine mem_append_right _ ?_
    rw [second.dcch, second.total]
    exact (if_pos given).symm ▸ mem_singleton_self _
  · refine (answered (.dcch1, ue.dcch1Room tbs rlc) ?_).2
    unfold gather
    rw [(askDtch_spec ..).1, announced_askDcch1]
    refine mem_append_left _ (mem_append_right _ ?_)
    rw [first.dcch, first.total]
    exact (if_pos given).symm ▸ mem_singleton_self _

/-- What was in `sdu_lengths[1]` is counted with the SDU of DCCH1. -/
theorem total_gather_of_stale (small : tbs < 65536)
    (answered : (ue.gather tbs rlc stale buff).Answered rlc) (dcch : ue.GivesDcch tbs rlc)
    (dcch1 : ue.GivesDcch1 tbs rlc) (dirty : stale ≠ 0) :
    (ue.gather tbs rlc stale buff).total ≠ (sdusData ((ue.gather tbs rlc stale buff).announced.map
      fun request => (request.1, rlc.octets request.1))).length := by
  obtain ⟨sdus, total, -, announced, header, -⟩ := reached_dcch small answered
  have range := stale.toNat_lt
  have nonzero : stale.toNat ≠ 0 := fun zero => dirty (UInt16.toNat_inj.mp zero)
  have one : (sdusData (ue.dcchSdu tbs rlc)).length = (rlc.octets .dcch).length := by
    simp [dcchSdu, dcch, sdusData]
  have staged : ue.gather tbs rlc stale buff =
      (((⟨buff, 0, [], [], 2, 3⟩ : DlschGathered).askDcch (ue.room tbs) rlc).askDcch1 (ue.room tbs)
        rlc stale).askDtch (ue.room tbs) rlc := rfl
  rw [DlschGathered.Answered, staged] at answered
  rw [staged]
  generalize DlschGathered.askDcch (ue.room tbs) rlc ⟨buff, 0, [], [], 2, 3⟩ = first at *
  obtain ⟨second, after⟩ : ∃ second, first.askDcch1 (ue.room tbs) rlc stale = second := ⟨_, rfl⟩
  have present : first.sdus.isEmpty = false := by simp [sdus, dcchSdu, dcch, lengthsOf]
  have asked : 0 < ue.room tbs - first.headerLenDcch - first.total ∧ rlc.hasData .dcch1 := by
    rw [header, total]
    exact dcch1
  have total2 : second.total =
      (first.total + (stale.toNat + (rlc.octets .dcch1).length) % 65536) % 65536 := by
    rw [← after]
    unfold DlschGathered.askDcch1
    simp only [if_pos asked, present, DlschGathered.take, Bool.false_eq_true, if_false]
  have announced2 := first.announced_askDcch1 (ue.room tbs) rlc stale
  rw [announced, after] at announced2
  rw [after] at answered ⊢
  rw [(second.askDtch_spec ..).1, announced2] at answered ⊢
  rw [(second.askDtch_spec ..).2]
  split
  next given =>
    simp [sdusData]
    omega
  next =>
    simp [sdusData]
    omega

end DlschUe

theorem generate_of_two_lt {shortPadding : Nat} (many : 2 < shortPadding) (memory : Nat → UInt8)
    (elements : List Element) (sdus : List (Lcid × Nat)) (postPadding : Nat) :
    generate memory elements sdus shortPadding postPadding =
      generate memory elements sdus 0 postPadding := by
  have one : shortPadding ≠ 1 := by omega
  have two : shortPadding ≠ 2 := by omega
  unfold generate paddingSubheaders
  simp [one, two]

/-- The padding that is chosen for a block of `size` octets, if `required` octets are
counted with the last subheader cut. `front` of it comes before the SDUs. -/
structure PaddingChosen (size required cut full front post : Nat) : Prop where
  front_le : front ≤ 2
  chosen :
    size ≤ required + 2 ∧ post = 0 ∧ (required ≤ size → front + required = size) ∧
        (size < required → required ≤ size + 253 → front = 0) ∨
      required + 2 < size ∧ front = 0 ∧ post + full + required = size + cut

variable {gathered : DlschGathered} {d t size full front post : Nat} {buff : Nat → UInt8}
  {rlc : RlcChannels} {block : DlschBlock}

section Padding

variable {served : List (Lcid × List UInt8)} {requests : List (Lcid × Int)} {cut : Nat}

theorem DlschGathered.Reached.required (reached : gathered.Reached served requests d t)
    (taLen : Nat) (trimmed : cut = if t = 0 then (if 0 < d then 1 else 0) else d + 1) :
    gathered.required taLen = (sdusData served).length + cut + taLen := by
  obtain ⟨-, total, -, -, rfl, rfl⟩ := reached
  have sum : gathered.trimmed.1 + gathered.trimmed.2 = cut := by
    rw [trimmed, DlschGathered.trimmed]
    split_ifs <;> omega
  rw [DlschGathered.required]
  omega

theorem DlschGathered.Reached.padded (reached : gathered.Reached served requests d t) (taLen : Nat)
    (small : size < 65536)
    (trimmed : cut = if t = 0 then (if 0 < d then 1 else 0) else d + 1) (near : d + t ≤ cut + 3) :
    ∃ front, PaddingChosen size ((sdusData served).length + cut + taLen) cut (d + t) front
        (gathered.postPadding taLen size) ∧
      ∀ memory elements sdus,
        generate memory elements sdus (gathered.padding taLen size)
            (gathered.postPadding taLen size) =
          generate memory elements sdus front (gathered.postPadding taLen size) := by
  have needed := reached.required taLen trimmed
  obtain ⟨-, total, -, -, rfl, rfl⟩ := reached
  have post : gathered.postPadding taLen size =
      if (size : Int) - gathered.required taLen ≤ 2 then 0 else (((size : Int) - gathered.total -
        gathered.headerLenDcch - gathered.headerLenDtch - taLen) % 65536).toNat := rfl
  have short : gathered.padding taLen size =
      if (size : Int) - gathered.required taLen ≤ 2 then
        (((size : Int) - gathered.required taLen) % 256).toNat else 0 := rfl
  rw [needed] at post short
  by_cases little : (size : Int) - ((sdusData served).length + cut + taLen : Nat) ≤ 2
  · rw [if_pos little] at post short
    by_cases many : 2 < gathered.padding taLen size
    · exact ⟨0, ⟨by omega, .inl ⟨by omega, post, by omega, by omega⟩⟩,
        fun memory elements sdus => generate_of_two_lt many memory elements sdus _⟩
    · exact ⟨gathered.padding taLen size, ⟨by omega, .inl ⟨by omega, post, by omega, by omega⟩⟩,
        fun memory elements sdus => rfl⟩
  · rw [if_neg little] at post short
    exact ⟨0, ⟨by omega, .inr ⟨by omega, rfl, by omega⟩⟩, fun memory elements sdus => by rw [short]⟩

/-- What is counted, `cut` octets with the last subheader cut and `full` octets in
full, against the real octets: `before` the last subheader, and `last`. -/
def CountFits (size required cut full before last : Nat) : Prop :=
  if size ≤ required + 2 then
    if required ≤ size then before + 1 = cut else before + 1 + required = cut + size
  else if size + cut = required + full then before + 1 + required = cut + size
  else before + 1 + last + required ≤ cut + size

theorem PaddingChosen.countFits_iff {required cut before last : Nat}
    (padding : PaddingChosen size required cut full front post) (few : cut ≤ 5) :
    (front + before + 1 + (if 0 < post then last else 0) + required ≤ size + cut ∧
      (post = 0 → size + cut = front + before + 1 + (if 0 < post then last else 0) + required)) ↔
      CountFits size required cut full before last := by
  unfold CountFits
  obtain ⟨little, chosen⟩ := padding
  rcases chosen with ⟨short, rfl, enough, less⟩ | ⟨long, rfl, behind⟩
  · split_ifs <;> omega
  · split_ifs <;> omega

namespace DlschUe

variable (ue : DlschUe)

def elements : List Element := dlschElements 255 ue.taUpdate none

theorem elements_spec :
    2 * ue.elements.length = ue.taLen ∧
      (elementsData ue.elements).length = ue.elements.length ∧
      elementLengths dlschRules (ue.elements.map (·.1)) = ue.elements.length := by
  have size : elementLengths dlschRules [.timingAdvCmd] = 1 := by decide
  unfold elements dlschElements taLen
  by_cases advance : ue.taUpdate ≠ 0
  · simp [advance, elementsData, size]
  · simp [advance, elementsData, elementLengths]

theorem length_elements : ue.elements.length ≤ 1 := by
  have length := ue.elements_spec.1
  unfold taLen at length
  split at length <;> omega

theorem admissible_elements : Admissible dlschRules ue.elements :=
  Element.Fits.admissible (dlschElements_fits 255 ue.taUpdate none)

end DlschUe

theorem dlsch_carries_iff (ue : DlschUe) (carried : Carried dlschRules (lengthsOf served))
    (few : served.length ≤ nbRbMax) {before : List (Lcid × Nat)} {last : Lcid × Nat}
    (shape : lengthsOf served = before ++ [last]) (small : size < 65536) (cuts : cut ≤ 5)
    (padding : PaddingChosen size ((sdusData served).length + cut + ue.taLen) cut full front post)
    (memory filling : Nat → UInt8)
    (placed : load buff 0 (sdusData served).length = sdusData served) :
    let header := generate memory ue.elements (lengthsOf served) front post
    Carries dlschRules (fillBlock header buff (sdusData served).length size filling) size
        header.returned.toNat served ↔
      CountFits size ((sdusData served).length + cut + ue.taLen) cut full
        (before.map fun sdu => sduSize sdu.2).sum (sduSize last.2) := by
  obtain ⟨length, data, counted⟩ := ue.elements_spec
  have one := ue.length_elements
  have something : served ≠ [] := by
    rintro rfl
    simp [lengthsOf] at shape
  obtain ⟨-, carries⟩ := carries_iff (by decide) ue.admissible_elements
    (le_trans one (by decide)) (by omega) (by omega) carried few something padding.front_le
    post memory filling placed small
  rw [shape, subheaderOctets_eq] at carries
  rw [← padding.countFits_iff cuts]
  refine (shape ▸ carries).trans ?_
  omega

end Padding

theorem subheaderOctets_nil {elements : List Element} (some : elements ≠ []) (front post : Nat) :
    subheaderOctets elements [] front post =
      front + elements.length + if 0 < post then 1 else 0 := by
  obtain ⟨before, last, rfl⟩ := (eq_nil_or_concat elements).resolve_left some
  rw [concat_eq_append]
  unfold subheaderOctets allSubheaders postSubheaders
  have sizes := fun lcids => sum_sizes lcids []
  simp only [map_nil, append_nil, sum_nil, add_zero] at sizes
  by_cases behind : 0 < post
  · rw [if_pos behind, if_pos behind, dropLast_concat, length_chain, map_nil, append_nil, sizes]
    simp [fixedLcids]
  · have fixed : fixedLcids (before ++ [last]) front = fixedLcids before front ++ [last.1] := by
      simp [fixedLcids]
    rw [if_neg behind, if_neg behind, append_nil, map_nil, append_nil, fixed,
      map_append, map_cons, map_nil, dropLast_concat, length_chain, sizes]
    simp [fixedLcids, add_assoc]

/-- A block without SDUs. If there is no control element and no padding, an octet that
was there before counts as the header. -/
def EmptyFits (size required : Nat) (advanced : Bool) (memory filling : Nat → UInt8) : Prop :=
  if advanced then 2 ≤ size
  else required < size ∨ 0 < size ∧ ∃ parsed, parseHeader (memory 0 :: load filling 0 (size - 1))
    (UInt16.ofNat size) = .ok parsed ∧ parsed.sdus = []

theorem generate_nothing (memory : Nat → UInt8) :
    generate memory [] [] 0 0 = ⟨memory, 1⟩ := by
  have same : store memory 1 [] = memory := by
    funext place
    exact ite_self _
  show (⟨store memory 1 [], 1⟩ : Header) = _
  rw [same]

theorem octets_generate_padding (memory : Nat → UInt8)
    (padded : front = 0 ∧ 0 < post ∨ (front = 1 ∨ front = 2) ∧ post = 0) :
    (generate memory [] [] front post).octets = if front = 2 then [63, 31] else [31] := by
  rcases padded with ⟨rfl, behind⟩ | ⟨rfl | rfl, rfl⟩
  · simp only [generate, foldl_nil, close, if_pos behind]
    rfl
  · have whole : (List.replicate 1 Lcid.shortPadding).map Subheader.fixed ++
        postSubheaders 0 = [] ++ [.fixed .shortPadding] := rfl
    have octets := (wrote_paddingSubheaders memory (by decide)).octets (by decide)
      whole (by decide)
    exact octets.trans (by decide)
  · have whole : (List.replicate 2 Lcid.shortPadding).map Subheader.fixed ++
        postSubheaders 0 = [.fixed .shortPadding] ++ [.fixed .shortPadding] := rfl
    have octets := (wrote_paddingSubheaders memory (le_refl 2)).octets (by decide)
      whole (by decide)
    exact octets.trans (by decide)

theorem parseSubheaders_padding {octet : UInt8} (padding : lcidOf octet = .shortPadding)
    (tbLength : UInt16) (rest : List UInt8) (parsed : Parsed) :
    parseSubheaders dlschRules tbLength (octet :: rest) parsed =
      if hasExtension octet then
        parseSubheaders dlschRules tbLength rest { parsed with offset := parsed.offset + 1 }
      else .ok { parsed with offset := parsed.offset + 1 } := by
  rw [parseSubheaders_element (padding ▸ by decide), padding]
  rfl

section Empty

variable {size cut front post : Nat} (memory buff filling : Nat → UInt8)

theorem carries_padding_iff (padded : front = 0 ∧ 0 < post ∨ (front = 1 ∨ front = 2) ∧ post = 0) :
    let header := generate memory [] [] front post
    Carries dlschRules (fillBlock header buff 0 size filling) size header.returned.toNat [] ↔
      header.returned.toNat ≤ size := by
  refine carries_nil_iff (fun payload => ?_) buff filling
  rw [octets_generate_padding memory padded]
  have last : parseSubheaders dlschRules (UInt16.ofNat size) (31 :: payload) =
      fun parsed => .ok { parsed with offset := parsed.offset + 1 } := by
    funext parsed
    rw [parseSubheaders_padding (by decide), if_neg (by decide)]
  by_cases two : front = 2
  · rw [if_pos two, cons_append, parseSubheaders_padding (by decide), if_pos (by decide)]
    exact ⟨⟨[], [], 0, 2⟩, congrFun last _, rfl⟩
  · rw [if_neg two]
    exact ⟨⟨[], [], 0, 1⟩, congrFun last _, rfl⟩

theorem carries_nothing_iff :
    let header := generate memory [] [] 0 0
    Carries dlschRules (fillBlock header buff 0 size filling) size header.returned.toNat [] ↔
      0 < size ∧ ∃ parsed, parseHeader (memory 0 :: load filling 0 (size - 1)) (UInt16.ofNat size) =
        .ok parsed ∧ parsed.sdus = [] := by
  intro header
  have blank : header = ⟨memory, 1⟩ := generate_nothing memory
  rw [blank]
  refine and_congr_right fun fits => ?_
  have nothing : load buff 0 ([] : List UInt8).length = [] := rfl
  have whole : load (fillBlock ⟨memory, 1⟩ buff 0 size filling) 0 size =
      memory 0 :: load filling 0 (size - 1) := (load_fillBlock nothing filling fits).1
  rw [whole]
  exact and_iff_right rfl

theorem carries_advance_iff {ue : DlschUe} (advanced : ue.taUpdate ≠ 0) (short : front ≤ 2) :
    let header := generate memory ue.elements [] front post
    Carries dlschRules (fillBlock header buff 0 size filling) size header.returned.toNat [] ↔
      front + 2 + (if 0 < post then 1 else 0) ≤ size := by
  intro header
  obtain ⟨length, data, -⟩ := ue.elements_spec
  have one : ue.elements.length = 1 := by
    rw [taLen, if_pos advanced] at length
    omega
  have some : ue.elements ≠ [] := by
    rintro none
    simp [none] at one
  have none : Carried dlschRules [] := nofun
  have found := fun payload => parse_generated memory (by decide) ue.admissible_elements
    (le_trans ue.length_elements (by decide)) none (zero_le _) (.inl some) short post
    (by omega) (UInt16.ofNat size) payload
  have offset : header.returned.toNat = front + 2 + if 0 < post then 1 else 0 := by
    have octets := (found []).1
    rw [Header.octets, length_load, subheaderOctets_nil some] at octets
    show (generate memory ue.elements [] front post).returned.toNat = _
    omega
  have carries : Carries dlschRules (fillBlock header buff 0 size filling) size
      header.returned.toNat [] ↔ header.returned.toNat ≤ size := by
    refine carries_nil_iff (fun payload => ?_) buff filling
    obtain ⟨-, parsed, accepted, -, -, -, filled⟩ := found payload
    exact ⟨parsed, accepted, filled.mpr fun both => absurd rfl both.2⟩
  rw [carries, offset]

end Empty

theorem dlsch_carries_nil_iff (ue : DlschUe) {cut : Nat}
    (padding : PaddingChosen size (cut + ue.taLen) cut full front post) (counted : full = cut + 2)
    (some : 1 ≤ cut) (few : cut ≤ 5) (memory buff filling : Nat → UInt8) :
    let header := generate memory ue.elements [] front post
    Carries dlschRules (fillBlock header buff 0 size filling) size header.returned.toNat [] ↔
      EmptyFits size (cut + ue.taLen) (decide (ue.taUpdate ≠ 0)) memory filling := by
  intro header
  obtain ⟨little, chosen⟩ := padding
  unfold EmptyFits
  by_cases advanced : ue.taUpdate ≠ 0
  · have length : ue.taLen = 2 := if_pos advanced
    rw [if_pos (decide_eq_true advanced)]
    refine (carries_advance_iff memory buff filling advanced little).trans ?_
    split_ifs <;> omega
  · have length : ue.taLen = 0 := if_neg advanced
    have none : ue.elements = [] := eq_nil_of_length_eq_zero (by
      have spec := ue.elements_spec.1
      omega)
    have made : header = generate memory [] [] front post := by rw [← none]
    rw [if_neg (by simpa using advanced), made]
    by_cases padded : front = 0 ∧ 0 < post ∨ (front = 1 ∨ front = 2) ∧ post = 0
    · have octets := congrArg List.length (octets_generate_padding memory padded)
      rw [Header.octets, length_load] at octets
      refine (carries_padding_iff memory buff filling padded).trans ?_
      rw [octets]
      split <;> simp only [length_cons, length_nil] <;> omega
    · obtain ⟨rfl, rfl⟩ : front = 0 ∧ post = 0 := by omega
      refine (carries_nothing_iff memory buff filling).trans ?_
      rw [or_iff_right]
      omega

section Conditions

variable (size required : Nat)

/-- DTCH at the end, behind SDUs whose subheaders are `longer` octets longer than
counted. -/
def LastDtchFits (longer third : Nat) : Prop :=
  required ≤ size ∧
    if size ≤ required + 2 then longer = 0 else required + longer + 2 + thirdOctet third ≤ size

/-- DCCH and DCCH1, where DTCH has no data. One octet is counted for the subheaders
of both. -/
def SignallingFits : Option Nat → Option Nat → Prop
  | some first, some second =>
    if size = required + 3 then 128 ≤ first else required + sduSize first + sduSize second ≤ size
  | _, _ => required ≤ size

/-- DCCH and DCCH1, where there is no room for DTCH. A subheader of DTCH is counted, and
that of the last SDU in full. -/
def UnaskedFits : Option Nat → Option Nat → Prop
  | some first, some _ => required + 3 ≤ size ∨ size + 2 = required + thirdOctet first
  | _, _ => required + 3 ≤ size ∨ size + 2 = required

variable {size required}

theorem sduSize_cases (length : Nat) :
    length < 128 ∧ sduSize length = 2 ∨ 128 ≤ length ∧ sduSize length = 3 := by
  unfold sduSize
  split_ifs <;> omega

theorem countFits_dtch {headers longer third : Nat} (few : longer ≤ 2) :
    CountFits size required (headers + 1) (headers + if third < 128 then 2 else 3)
        (headers + longer) (sduSize third) ↔ LastDtchFits size required longer third := by
  unfold CountFits LastDtchFits sduSize thirdOctet
  split_ifs <;> omega

theorem countFits_alone (length : Nat) :
    CountFits size required 1 2 0 (sduSize length) ↔ required ≤ size := by
  unfold CountFits sduSize
  split_ifs <;> omega

theorem countFits_both (first second : Nat) :
    CountFits size required 1 4 (sduSize first) (sduSize second) ↔
      SignallingFits size required (some first) (some second) := by
  have sizes := sduSize_cases first
  have more := sduSize_cases second
  unfold CountFits SignallingFits
  split_ifs <;> omega

theorem countFits_unasked_alone (length : Nat) :
    CountFits size required 3 5 0 (sduSize length) ↔
      required + 3 ≤ size ∨ size + 2 = required := by
  unfold CountFits sduSize
  split_ifs <;> omega

theorem countFits_unasked_both (first second : Nat) :
    CountFits size required 5 7 (sduSize first) (sduSize second) ↔
      UnaskedFits size required (some first) (some second) := by
  have sizes := sduSize_eq first
  have less := thirdOctet_le first
  have more := sduSize_cases second
  unfold CountFits UnaskedFits
  split_ifs <;> omega

end Conditions

namespace DlschUe

variable (ue : DlschUe) (tbs : Nat) (rlc : RlcChannels)

def dcchLength : Option Nat :=
  if ue.GivesDcch tbs rlc then some (rlc.octets .dcch).length else none

def dcch1Length : Option Nat :=
  if ue.GivesDcch1 tbs rlc then some (rlc.octets .dcch1).length else none

/-- The octets of the subheaders of the SDUs as they are counted, with the last one cut. -/
def cut : Nat :=
  if 0 < ue.dtchRoom tbs rlc ∧ rlc.hasData .dtch = false then 1 else ue.dcchHeaders tbs rlc + 1

def counted : Nat := (sdusData (ue.served tbs rlc)).length + ue.cut tbs rlc + ue.taLen

def Fits (memory filling : Nat → UInt8) (size : Nat) : Prop :=
  if ue.served tbs rlc = [] then
    EmptyFits size (ue.counted tbs rlc) (decide (ue.taUpdate ≠ 0)) memory filling
  else if ue.GivesDtch tbs rlc then
    LastDtchFits size (ue.counted tbs rlc)
      ((ue.dcchLength tbs rlc).elim 0 thirdOctet + (ue.dcch1Length tbs rlc).elim 0 thirdOctet)
      (rlc.octets .dtch).length
  else if 0 < ue.dtchRoom tbs rlc then
    SignallingFits size (ue.counted tbs rlc) (ue.dcchLength tbs rlc) (ue.dcch1Length tbs rlc)
  else UnaskedFits size (ue.counted tbs rlc) (ue.dcchLength tbs rlc) (ue.dcch1Length tbs rlc)

theorem dcchHeaders_le : ue.dcchHeaders tbs rlc ≤ 4 := by
  unfold dcchHeaders dcchHeader
  split_ifs <;> omega

theorem longer_le :
    (ue.dcchLength tbs rlc).elim 0 thirdOctet + (ue.dcch1Length tbs rlc).elim 0 thirdOctet ≤ 2 := by
  have first := thirdOctet_le (rlc.octets .dcch).length
  have second := thirdOctet_le (rlc.octets .dcch1).length
  unfold dcchLength dcch1Length
  split_ifs <;> simp only [Option.elim] <;> omega

theorem lcid_served : ∀ sdu ∈ ue.served tbs rlc, sdu.1.val ≤ 3 := by
  unfold served dcchSdu dcch1Sdu dtchSdu
  split_ifs <;> simp [Lcid.dcch, Lcid.dcch1, Lcid.dtch]

theorem length_served : (ue.served tbs rlc).length ≤ nbRbMax := by
  unfold served dcchSdu dcch1Sdu dtchSdu
  split_ifs <;> exact of_decide_eq_true rfl

theorem dtchHeader_le : ue.dtchHeader tbs rlc ≤ 3 := by
  unfold dtchHeader
  split_ifs <;> omega

variable {ue tbs rlc}

variable (rlc) in
theorem served_of_room (little : ¬ 2 < ue.room tbs) :
    ¬ ue.GivesDcch tbs rlc ∧ ¬ ue.GivesDcch1 tbs rlc ∧ ¬ 0 < ue.dtchRoom tbs rlc := by
  have header : ue.dcchHeader tbs rlc = 2 := if_neg fun both => little both.1
  have dcch : ¬ ue.GivesDcch tbs rlc := fun given => little given.1
  have dcch1 : ¬ ue.GivesDcch1 tbs rlc := by
    rintro ⟨positive, -⟩
    unfold dcch1Room at positive
    omega
  refine ⟨dcch, dcch1, fun positive => ?_⟩
  unfold dtchRoom dcchHeaders at positive
  omega

variable (rlc) in
theorem dcchHeaders_eq (much : 2 < ue.room tbs) :
    ue.dcchHeaders tbs rlc = (if ue.GivesDcch tbs rlc then 2 else 0) +
      if ue.GivesDcch1 tbs rlc then 2 else 0 := by
  have given : ue.GivesDcch tbs rlc ↔ rlc.hasData .dcch := and_iff_right much
  unfold dcchHeaders dcchHeader
  cases data : rlc.hasData .dcch <;> simp [given, data, much]

theorem sum_sizes_before :
    ((lengthsOf (ue.dcchSdu tbs rlc ++ ue.dcch1Sdu tbs rlc)).map fun sdu => sduSize sdu.2).sum =
      ((if ue.GivesDcch tbs rlc then 2 else 0) + if ue.GivesDcch1 tbs rlc then 2 else 0) +
        ((ue.dcchLength tbs rlc).elim 0 thirdOctet +
          (ue.dcch1Length tbs rlc).elim 0 thirdOctet) := by
  unfold dcchSdu dcch1Sdu dcchLength dcch1Length
  split_ifs <;> simp [lengthsOf, sduSize_eq]
  omega

theorem served_eq_nil_iff : ue.served tbs rlc = [] ↔
    ¬ ue.GivesDcch tbs rlc ∧ ¬ ue.GivesDcch1 tbs rlc ∧ ¬ ue.GivesDtch tbs rlc := by
  unfold served dcchSdu dcch1Sdu dtchSdu
  split_ifs <;> simp_all

/-- If there is a block without SDUs, a subheader of DTCH is counted in it. -/
theorem unasked_of_served (none : ue.served tbs rlc = [])
    (payload : 0 < (sdusData (ue.served tbs rlc)).length + ue.dcchHeaders tbs rlc +
      ue.dtchHeader tbs rlc) : ¬ 0 < ue.dtchRoom tbs rlc := by
  intro asked
  obtain ⟨dcch, dcch1, dtch⟩ := served_eq_nil_iff.mp none
  have much : 2 < ue.room tbs := Classical.by_contradiction fun little =>
    (served_of_room rlc little).2.2 asked
  have silent : ¬ rlc.hasData .dtch := fun data => dtch ⟨asked, data⟩
  have header : ue.dtchHeader tbs rlc = 0 := by
    rw [dtchHeader, if_pos asked, if_neg silent]
  rw [none, dcchHeaders_eq rlc much, if_neg dcch, if_neg dcch1, header] at payload
  exact lt_irrefl 0 payload

theorem dtchHeader_eq_zero_iff :
    ue.dtchHeader tbs rlc = 0 ↔ 0 < ue.dtchRoom tbs rlc ∧ rlc.hasData .dtch = false := by
  unfold dtchHeader
  split_ifs <;> simp_all

theorem cut_eq (payload : 0 < (sdusData (ue.served tbs rlc)).length + ue.dcchHeaders tbs rlc +
      ue.dtchHeader tbs rlc) :
    ue.cut tbs rlc =
      if ue.dtchHeader tbs rlc = 0 then (if 0 < ue.dcchHeaders tbs rlc then 1 else 0)
      else ue.dcchHeaders tbs rlc + 1 := by
  unfold cut
  by_cases silent : 0 < ue.dtchRoom tbs rlc ∧ rlc.hasData .dtch = false
  · rw [if_pos silent, if_pos (dtchHeader_eq_zero_iff.mpr silent)]
    have some : ¬ ue.served tbs rlc = [] := fun none => unasked_of_served none payload silent.1
    have much : 2 < ue.room tbs := Classical.by_contradiction fun little =>
      (served_of_room rlc little).2.2 silent.1
    have dtch : ¬ ue.GivesDtch tbs rlc := fun given => by simpa [silent.2] using given.2
    rw [served_eq_nil_iff] at some
    rw [dcchHeaders_eq rlc much]
    split_ifs <;> simp_all
  · rw [if_neg silent, if_neg (mt dtchHeader_eq_zero_iff.mp silent)]

theorem exists_last_served (some : ue.served tbs rlc ≠ []) (memory filling : Nat → UInt8) :
    ∃ before last, lengthsOf (ue.served tbs rlc) = before ++ [last] ∧ ∀ size,
      (CountFits size (ue.counted tbs rlc) (ue.cut tbs rlc)
          (ue.dcchHeaders tbs rlc + ue.dtchHeader tbs rlc)
          (before.map fun sdu => sduSize sdu.2).sum (sduSize last.2) ↔
        ue.Fits tbs rlc memory filling size) := by
  have much : 2 < ue.room tbs := Classical.by_contradiction fun little => some (by
    obtain ⟨dcch, dcch1, dtch⟩ := served_of_room rlc little
    exact served_eq_nil_iff.mpr ⟨dcch, dcch1, fun given => dtch given.1⟩)
  have headers := dcchHeaders_eq rlc much
  unfold Fits cut
  by_cases dtch : ue.GivesDtch tbs rlc
  · have header : ue.dtchHeader tbs rlc = if (rlc.octets .dtch).length < 128 then 2 else 3 := by
      rw [dtchHeader, if_pos dtch.1, if_pos dtch.2]
    have loud : ¬ (0 < ue.dtchRoom tbs rlc ∧ rlc.hasData .dtch = false) := by simp [dtch.2]
    refine ⟨lengthsOf (ue.dcchSdu tbs rlc ++ ue.dcch1Sdu tbs rlc),
      (.dtch, (rlc.octets .dtch).length), by simp [served, dtchSdu, dtch, lengthsOf],
      fun size => ?_⟩
    rw [if_neg some, if_pos dtch, if_neg loud, header, sum_sizes_before, ← headers]
    exact countFits_dtch (ue.longer_le tbs rlc)
  · -- either DTCH has no data and one octet is counted for all subheaders, or it is not asked
    have kinds : (0 < ue.dtchRoom tbs rlc ∧ rlc.hasData .dtch = false) ∧
        ue.dtchHeader tbs rlc = 0 ∧ 0 < ue.dtchRoom tbs rlc ∨
        ¬ (0 < ue.dtchRoom tbs rlc ∧ rlc.hasData .dtch = false) ∧ ue.dtchHeader tbs rlc = 3 ∧
          ¬ 0 < ue.dtchRoom tbs rlc := by
      by_cases asked : 0 < ue.dtchRoom tbs rlc
      · have silent : 0 < ue.dtchRoom tbs rlc ∧ rlc.hasData .dtch = false :=
          ⟨asked, by simpa using fun data => dtch ⟨asked, data⟩⟩
        exact .inl ⟨silent, dtchHeader_eq_zero_iff.mpr silent, asked⟩
      · exact .inr ⟨fun both => asked both.1, if_neg asked, asked⟩
    have shape : ue.served tbs rlc = ue.dcchSdu tbs rlc ++ ue.dcch1Sdu tbs rlc := by
      simp [served, dtchSdu, dtch]
    simp only [if_neg some, if_neg dtch]
    rw [shape, headers]
    unfold dcchSdu dcch1Sdu dcchLength dcch1Length
    by_cases dcch : ue.GivesDcch tbs rlc
    · by_cases dcch1 : ue.GivesDcch1 tbs rlc
      · refine ⟨[(.dcch, (rlc.octets .dcch).length)], (.dcch1, (rlc.octets .dcch1).length),
          by simp [dcch, dcch1, lengthsOf], fun size => ?_⟩
        simp only [if_pos dcch, if_pos dcch1, map_cons, map_nil, sum_singleton]
        rcases kinds with ⟨silent, header, asked⟩ | ⟨loud, header, unasked⟩
        · rw [if_pos silent, if_pos asked, header]
          exact countFits_both _ _
        · rw [if_neg loud, if_neg unasked, header]
          exact countFits_unasked_both _ _
      · refine ⟨[], (.dcch, (rlc.octets .dcch).length), by simp [dcch, dcch1, lengthsOf],
          fun size => ?_⟩
        simp only [if_pos dcch, if_neg dcch1, map_nil, sum_nil]
        rcases kinds with ⟨silent, header, asked⟩ | ⟨loud, header, unasked⟩
        · rw [if_pos silent, if_pos asked, header]
          exact countFits_alone _
        · rw [if_neg loud, if_neg unasked, header]
          exact countFits_unasked_alone _
    · by_cases dcch1 : ue.GivesDcch1 tbs rlc
      · refine ⟨[], (.dcch1, (rlc.octets .dcch1).length), by simp [dcch, dcch1, lengthsOf],
          fun size => ?_⟩
        simp only [if_neg dcch, if_pos dcch1, map_nil, sum_nil]
        rcases kinds with ⟨silent, header, asked⟩ | ⟨loud, header, unasked⟩
        · rw [if_pos silent, if_pos asked, header]
          exact countFits_alone _
        · rw [if_neg loud, if_neg unasked, header]
          exact countFits_unasked_alone _
      · exact absurd (served_eq_nil_iff.mpr ⟨dcch, dcch1, dtch⟩) some

variable {stale : UInt16} {buff : Nat → UInt8} {size : Nat}

theorem carries_iff_fits {gathered : DlschGathered}
    (reached : gathered.Reached (ue.served tbs rlc) (ue.requests tbs rlc)
      (ue.dcchHeaders tbs rlc) (ue.dtchHeader tbs rlc))
    (payload : 0 < (sdusData (ue.served tbs rlc)).length + ue.dcchHeaders tbs rlc +
      ue.dtchHeader tbs rlc)
    (few : (sdusData (ue.served tbs rlc)).length ≤ maxDlschPayloadBytes) (small : size < 65536)
    (memory filling : Nat → UInt8) :
    let header := generate memory ue.elements (lengthsOf (ue.served tbs rlc))
      (gathered.padding ue.taLen size) (gathered.postPadding ue.taLen size)
    Carries dlschRules
        (fillBlock header gathered.buff (sdusData (ue.served tbs rlc)).length size filling) size
        header.returned.toNat (ue.served tbs rlc) ↔
      ue.Fits tbs rlc memory filling size := by
  intro header
  have headers := ue.dcchHeaders_le tbs rlc
  have last := ue.dtchHeader_le tbs rlc
  have whole := cut_eq payload
  obtain ⟨front, padding, made⟩ :=
    reached.padded ue.taLen small whole (by rw [whole]; split_ifs <;> omega)
  have same : header = generate memory ue.elements (lengthsOf (ue.served tbs rlc)) front
      (gathered.postPadding ue.taLen size) := made memory ue.elements _
  have placed : load gathered.buff 0 (sdusData (ue.served tbs rlc)).length =
      sdusData (ue.served tbs rlc) := by
    rw [← reached.total]
    exact reached.placed
  have cuts : ue.cut tbs rlc ≤ 5 := by
    unfold cut
    split_ifs <;> omega
  rw [same]
  unfold Fits
  by_cases none : ue.served tbs rlc = []
  · have unasked := unasked_of_served none payload
    have zero : (sdusData (ue.served tbs rlc)).length = 0 := by
      rw [none]
      rfl
    have header : ue.dtchHeader tbs rlc = 3 := if_neg unasked
    have counts : ue.cut tbs rlc = ue.dcchHeaders tbs rlc + 1 := if_neg fun both => unasked both.1
    rw [zero, zero_add] at padding
    rw [counted, zero, zero_add, none]
    exact dlsch_carries_nil_iff ue padding (by omega) (by omega) cuts memory _ filling
  · have carried : Carried dlschRules (lengthsOf (ue.served tbs rlc)) :=
      carried_of_channels (by decide) (ue.lcid_served tbs rlc) (lt_of_le_of_lt few (by decide))
    obtain ⟨before, last, shape, fits⟩ := exists_last_served none memory filling
    have carries := dlsch_carries_iff ue carried (ue.length_served tbs rlc) shape small cuts padding
      memory filling placed
    refine carries.trans ((fits size).trans ?_)
    rw [Fits, if_neg none]

end DlschUe

/-- The SDUs fit into `dlsch_buffer` and into the block, lie in it in the order in
which RLC was asked, and are found by the parser of the UE. -/
def DlschBlock.Carries (block : DlschBlock) (rlc : RlcChannels) : Prop :=
  let sdus := block.announced.map fun request => (request.1, rlc.octets request.1)
  block.sduLengthTotal ≤ maxDlschPayloadBytes ∧
    block.offset + block.sduLengthTotal ≤ block.tbs ∧
    load block.memory block.offset block.sduLengthTotal = sdus.flatMap (·.2) ∧
    ∃ parsed, parseHeader (load block.memory 0 block.tbs) (UInt16.ofNat block.tbs) = .ok parsed ∧
      parsed.sdus = sdus.map fun sdu => (sdu.1, UInt16.ofNat sdu.2.length)

theorem scheduleUeSpec_eq_some {sizes : TransportBlockSizes} {ue : DlschUe} {stale : UInt16}
    {memory filling : Nat → UInt8}
    (scheduled : scheduleUeSpec sizes ue rlc stale memory buff filling = some block) :
    let gathered := ue.gather (sizes.getTbsDl ue.dlschMcs1 ue.nbAvailableRb) rlc stale buff
    let header := generate memory ue.elements gathered.sdus (gathered.padding ue.taLen block.tbs)
      (gathered.postPadding ue.taLen block.tbs)
    0 < gathered.total + gathered.headerLenDcch + gathered.headerLenDtch ∧
      ue.Selected sizes (gathered.required ue.taLen) block.mcs block.nbRb ∧
      block.tbs = sizes.getTbsDl block.mcs block.nbRb ∧
      block.memory = fillBlock header gathered.buff gathered.total block.tbs filling ∧
      block.offset = header.returned.toNat ∧ block.sduLengthTotal = gathered.total ∧
      block.announced = gathered.announced := by
  unfold scheduleUeSpec at scheduled
  simp only [generateDlschHeader_eq] at scheduled
  split at scheduled
  next payload =>
    cases scheduled
    exact ⟨payload, ue.selected_select sizes _, rfl, rfl, rfl, rfl, rfl⟩
  next => cases scheduled

theorem scheduleUeSpec_carries_iff (sizes : TransportBlockSizes) (ue : DlschUe)
    (rlc : RlcChannels) (stale : UInt16) (memory buff filling : Nat → UInt8) {block : DlschBlock}
    (scheduled : scheduleUeSpec sizes ue rlc stale memory buff filling = some block)
    (answered : ∀ request ∈ block.announced,
      1 ≤ (rlc.octets request.1).length ∧ ((rlc.octets request.1).length : Int) ≤ request.2) :
    let largest := sizes.getTbsDl ue.dlschMcs1 ue.nbAvailableRb
    block.Carries rlc ↔
      (ue.GivesDcch largest rlc → ue.GivesDcch1 largest rlc → stale = 0) ∧
        (sdusData (ue.served largest rlc)).length ≤ maxDlschPayloadBytes ∧
        ∀ mcs nbRb, ue.Selected sizes (ue.counted largest rlc) mcs nbRb →
          ue.Fits largest rlc memory filling (sizes.getTbsDl mcs nbRb) := by
  intro largest
  obtain ⟨payload, selected, size, stored, offset, total, announced⟩ :=
    scheduleUeSpec_eq_some scheduled
  have small : largest < 65536 := sizes.small _ _
  have answers : (ue.gather largest rlc stale buff).Answered rlc := by
    rw [announced] at answered
    exact answered
  by_cases clean : ue.GivesDcch largest rlc → ue.GivesDcch1 largest rlc → stale = 0
  · have reached := gather_spec small answers clean
    rw [reached.total, reached.dcch, reached.dtch] at payload
    have whole := cut_eq payload
    rw [reached.required ue.taLen whole] at selected
    have chosen : (∀ mcs nbRb, ue.Selected sizes (ue.counted largest rlc) mcs nbRb →
        ue.Fits largest rlc memory filling (sizes.getTbsDl mcs nbRb)) ↔
        ue.Fits largest rlc memory filling block.tbs := by
      constructor
      · intro all
        rw [size]
        exact all _ _ selected
      · intro fits mcs nbRb again
        obtain rfl := selected.1.unique again.1
        obtain rfl := selected.2.unique again.2
        rwa [← size]
    rw [and_iff_right clean, chosen]
    unfold DlschBlock.Carries
    have served : block.announced.map (fun request => (request.1, rlc.octets request.1)) =
        ue.served largest rlc := by
      rw [announced, reached.announced, ue.requests_served]
    have length : block.sduLengthTotal = (sdusData (ue.served largest rlc)).length :=
      total.trans reached.total
    rw [served, length]
    refine and_congr_right fun few => ?_
    have carries := carries_iff_fits reached payload few (size ▸ sizes.small _ _) memory
      filling
    rw [reached.sdus, reached.total] at stored
    rw [reached.sdus] at offset
    rw [stored, offset]
    exact carries
  · refine iff_of_false (fun carries => ?_) fun all => clean all.1
    rw [Classical.not_imp, Classical.not_imp] at clean
    obtain ⟨dcch, dcch1, dirty⟩ := clean
    have same := congrArg List.length carries.2.2.1
    rw [length_load, total, announced] at same
    exact total_gather_of_stale small answers dcch dcch1 dirty same

def TransportBlockSizes.linear : TransportBlockSizes where
  getTbsDl := fun mcs nbRb => min 9000 (2 * ((mcs + 1) * nbRb))
  small := fun mcs nbRb => Nat.lt_of_le_of_lt (Nat.min_le_left _ _) (by decide)
  mono := fun higher _ more =>
    Nat.le_min.mpr ⟨Nat.min_le_left _ _, Nat.le_trans (Nat.min_le_right _ _)
    (Nat.mul_le_mul_left 2 (Nat.mul_le_mul (Nat.succ_le_succ higher) more))⟩

def DlschUe.five : DlschUe where
  dlschMcs1 := 1
  nbAvailableRb := 5
  taUpdate := 0
  dlPowOff := 2
  nRbDl := 25

def RlcChannels.ofLengths (channels : List Lcid) (lengths : Lcid → Nat) : RlcChannels where
  hasData := fun lcid => channels.contains lcid
  octets := fun lcid => List.replicate (lengths lcid) 0

/-- Four octets of DCCH. -/
theorem scheduleUeSpec_carries_dcch :
    ∃ block, scheduleUeSpec .linear .five (.ofLengths [.dcch] fun _ => 4) 7 (fun _ => 0)
        (fun _ => 0) (fun _ => 0) = some block ∧
      block.Carries (.ofLengths [.dcch] fun _ => 4) := by
  refine ⟨_, rfl, (scheduleUeSpec_carries_iff .linear .five (.ofLengths [.dcch] fun _ => 4) 7
    (fun _ => 0) (fun _ => 0) (fun _ => 0) rfl (by decide)).mpr
      ⟨fun _ none => absurd none.2 (by decide), by decide, fun mcs nbRb selected => ?_⟩⟩
  have chosen := five.selected_select .linear
    (five.counted 20 (.ofLengths [.dcch] fun _ => 4))
  obtain rfl := chosen.1.unique selected.1
  obtain rfl := chosen.2.unique selected.2
  have first : five.dcchLength 20 (.ofLengths [.dcch] fun _ => 4) = some 4 := by decide
  have second : five.dcch1Length 20 (.ofLengths [.dcch] fun _ => 4) = none := by decide
  show five.Fits 20 _ _ _ _
  unfold Fits
  rw [if_neg (by decide), if_neg (by decide), if_pos (by decide), first, second]
  show five.counted 20 _ ≤ _
  decide

theorem DlschBlock.not_carries (parsed : Parsed)
    (accepted : parseHeader (load block.memory 0 block.tbs) (UInt16.ofNat block.tbs) = .ok parsed)
    (different : parsed.sdus ≠ block.announced.map fun request =>
      (request.1, UInt16.ofNat (rlc.octets request.1).length)) : ¬ block.Carries rlc := by
  rintro ⟨-, -, -, other, found, same⟩
  cases accepted.symm.trans found
  exact different (by simpa [Function.comp_def] using same)

/-- Of 16 octets of DCCH alone the parser finds 18. Four octets of DCCH and three of
DCCH1 end behind the block. -/
theorem scheduleUeSpec_not_carries :
    (∃ block, scheduleUeSpec .linear .five (.ofLengths [.dcch] fun _ => 16) 0 (fun _ => 0)
        (fun _ => 0) (fun _ => 0) = some block ∧ block.announced = [(.dcch, 18)] ∧
      ¬ block.Carries (.ofLengths [.dcch] fun _ => 16)) ∧
    ∃ block, scheduleUeSpec .linear .five
        (.ofLengths [.dcch, .dcch1] fun lcid => if lcid = .dcch then 4 else 3) 0 (fun _ => 0)
        (fun _ => 0) (fun _ => 0) = some block ∧
      block.announced = [(.dcch, 18), (.dcch1, 14)] ∧
      ¬ block.Carries (.ofLengths [.dcch, .dcch1] fun lcid => if lcid = .dcch then 4 else 3) := by
  refine ⟨⟨_, rfl, by decide, ?_⟩, ⟨_, rfl, by decide, fun carries => ?_⟩⟩
  · exact DlschBlock.not_carries ⟨[], [(.dcch, 18)], 0, 2⟩ (by decide) (by decide)
  · exact absurd carries.2.1 (by decide)

end OpenAir.Mac
