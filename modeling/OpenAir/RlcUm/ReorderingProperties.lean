import OpenAir.Base.Execution
import OpenAir.RlcUm.WindowProperties

/-! The reordering state machine over whole runs: what the reception of a PDU and
the expiry of t-Reordering do to the window, to the buffer and to the timer. -/

set_option autoImplicit false

namespace OpenAir.RlcUm

open OpenAir.Base Option Receiver Nat

theorem SnLength.header_sn_lt (length : SnLength) (octets : List UInt8) :
    (length.header octets).sn < length.modulo := by
  cases length with
  | five =>
    have low := and_lt_two_pow (RlcAm.octetAt octets 0) (by decide : 0x1F < 2 ^ 5)
    exact low
  | ten =>
    have high := and_lt_two_pow (RlcAm.octetAt octets 0) (by decide : 0x03 < 2 ^ 2)
    have low : RlcAm.octetAt octets 1 < 2 ^ 8 := UInt8.toNat_lt _
    simp only [SnLength.header, SnLength.modulo, shiftLeft_eq]
    omega

namespace Receiver

variable {rx next : Receiver} {sn : Nat}

structure SameTimer (rx next : Receiver) : Prop where
  vrUx : next.vrUx = rx.vrUx
  snLength : next.snLength = rx.snLength
  tReordering : next.tReordering = rx.tReordering

def raised (rx : Receiver) (sn : Nat) : Receiver := { rx with vrUh := rx.nextSn sn }

theorem raised_below (rx : Receiver) (sn other : Nat) :
    (rx.raised sn).below other = ahead rx.snLength.modulo other (rx.nextSn sn) := rfl

theorem Windowed.below_raised (windowed : rx.Windowed) (bounded : sn < rx.snLength.modulo)
    (outside : rx.below sn = 0 ∨ rx.snLength.windowSize < rx.below sn) :
    ∃ lift, 0 < lift ∧ lift ≤ rx.snLength.windowSize ∧
      ∀ other < rx.snLength.modulo, rx.below other ≤ rx.snLength.windowSize →
        (rx.raised sn).below other = rx.below other + lift ∨
          (rx.below other = rx.snLength.windowSize ∧ lift = rx.snLength.windowSize ∧
            (rx.raised sn).below other = 0) := by
  obtain ⟨modulo, window⟩ := rx.snLength.modulo_eq
  have vrUh := windowed.vrUh
  have nextBelow : rx.nextSn sn < rx.snLength.modulo := mod_lt _ (by omega)
  have lifted : 0 < ahead rx.snLength.modulo rx.vrUh (rx.nextSn sn) ∧
      ahead rx.snLength.modulo rx.vrUh (rx.nextSn sn) ≤ rx.snLength.windowSize := by
    unfold below at outside
    rw [ahead_eq bounded vrUh] at outside
    rw [ahead_eq vrUh nextBelow]
    rcases lt_or_ge (sn + 1) rx.snLength.modulo with inside | last
    · rw [nextSn, mod_eq_of_lt inside]
      split at outside <;> split <;> omega
    · have wrapped : rx.nextSn sn = 0 := by
        rw [nextSn, show sn + 1 = rx.snLength.modulo by omega, mod_self]
      split at outside <;> split <;> omega
  refine ⟨_, lifted.1, lifted.2, fun other otherBelow near => ?_⟩
  have ways := ahead_add otherBelow vrUh nextBelow
  unfold below at near ⊢
  simp only [raised]
  omega

theorem below_raised_self (bounded : sn < rx.snLength.modulo) :
    (rx.raised sn).below sn = 1 := by
  have window := rx.snLength.modulo_eq
  exact ahead_add_mod bounded (show 1 < rx.snLength.modulo by omega)

theorem below_lowerEdge (vrUh : rx.vrUh < rx.snLength.modulo) :
    rx.lowerEdge < rx.snLength.modulo ∧ rx.below rx.lowerEdge = rx.snLength.windowSize := by
  have window := rx.snLength.modulo_eq
  have bounded : rx.lowerEdge < rx.snLength.modulo := by
    unfold lowerEdge
    split <;> omega
  unfold below
  rw [ahead_eq bounded vrUh]
  unfold lowerEdge
  split <;> split <;> omega

theorem storePdu_of_ne (rx : Receiver) {other : Nat} (octets : List UInt8) (apart : other ≠ sn) :
    (rx.storePdu sn octets).darBuffer other = rx.darBuffer other :=
  Function.update_of_ne apart ..

theorem Windowed.storePdu (windowed : rx.Windowed) (bounded : sn < rx.snLength.modulo)
    (lower : 0 < rx.below sn) (within : rx.below sn ≤ rx.below rx.vrUr) (octets : List UInt8) :
    (rx.storePdu sn octets).Windowed := by
  refine ⟨windowed.vrUr, windowed.vrUx, windowed.vrUh, windowed.width, fun other found => ?_⟩
  by_cases same : other = sn
  · subst same
    exact ⟨bounded, lower, within⟩
  · rw [rx.storePdu_of_ne octets same] at found
    exact windowed.stored other found

structure Moved (rx : Receiver) (sn : Nat) (next : Receiver) : Prop where
  windowed : next.Windowed
  timer : rx.SameTimer next
  -- VR(UX) was below VR(UH) before, so that it is not the new one.
  vrUx : rx.below rx.vrUx < rx.below rx.vrUr → next.vrUh ≠ next.vrUx
  gap : rx.darBuffer rx.vrUr = none → rx.darBuffer (rx.raised sn).lowerEdge = none →
    next.vrUr = sn ∨ next.darBuffer next.vrUr = none

section Move

variable (windowed : rx.Windowed) (bounded : sn < rx.snLength.modulo)
  (outside : rx.below sn = 0 ∨ rx.snLength.windowSize < rx.below sn) (octets : List UInt8)

include windowed bounded outside

theorem raised_vrUx_ne (lower : rx.below rx.vrUx < rx.below rx.vrUr) :
    rx.nextSn sn ≠ rx.vrUx := by
  intro same
  obtain ⟨lift, positive, small, positions⟩ := windowed.below_raised bounded outside
  have width := windowed.width
  have pos := positions rx.vrUx windowed.vrUx (by omega)
  have zero : (rx.raised sn).below rx.vrUx = 0 := by
    have self := (ahead_eq_zero windowed.vrUx windowed.vrUx).mpr rfl
    simpa [below, raised, same] using self
  omega

theorem moved_of_stays (stays : ¬ (rx.raised sn).inReorderingWindow rx.vrUr < 0) :
    rx.Moved sn ((rx.raised sn).storePdu sn octets) := by
  obtain ⟨lift, positive, small, positions⟩ := windowed.below_raised bounded outside
  have vrUh : (rx.raised sn).vrUh < rx.snLength.modulo := Nat.mod_lt _ (by omega)
  rw [inReorderingWindow_neg vrUh windowed.vrUr] at stays
  change ¬ (_ ∨ rx.snLength.windowSize < _) at stays
  have width := windowed.width
  have edge := positions rx.vrUr windowed.vrUr width
  have raisedWindowed : (rx.raised sn).Windowed := by
    refine ⟨windowed.vrUr, windowed.vrUx, vrUh, ?_, fun other found => ?_⟩
    · exact Nat.le_of_not_lt fun wide => stays (.inr wide)
    · obtain ⟨otherBelow, otherLower, within⟩ := windowed.stored other found
      have pos := positions other otherBelow (by omega)
      refine ⟨otherBelow, ?_⟩
      change _ ∧ _ ≤ (rx.raised sn).below rx.vrUr
      omega
  refine ⟨raisedWindowed.storePdu bounded ?_ ?_ octets, ⟨rfl, rfl, rfl⟩,
    raised_vrUx_ne windowed bounded outside, fun empty _ => ?_⟩
  · rw [below_raised_self bounded]
    decide
  · rw [below_raised_self bounded]
    change _ ≤ (rx.raised sn).below rx.vrUr
    omega
  · by_cases same : rx.vrUr = sn
    · exact .inl same
    · exact .inr ((storePdu_of_ne _ octets same).trans empty)

theorem below_of_pushed
    (pushed : (rx.raised sn).below rx.vrUr = 0 ∨
      rx.snLength.windowSize < (rx.raised sn).below rx.vrUr)
    {other : Nat} (otherBelow : other < rx.snLength.modulo)
    (was : rx.below other ≤ rx.below rx.vrUr)
    (kept : ahead rx.snLength.modulo rx.vrUr (rx.raised sn).lowerEdge ≤
      ahead rx.snLength.modulo rx.vrUr other) :
    0 < (rx.raised sn).below other ∧
      (rx.raised sn).below other ≤ rx.snLength.windowSize := by
  obtain ⟨modulo, window⟩ := rx.snLength.modulo_eq
  obtain ⟨lift, positive, small, positions⟩ := windowed.below_raised bounded outside
  have nextBelow : rx.nextSn sn < rx.snLength.modulo := mod_lt _ (by omega)
  have vrUr := windowed.vrUr
  have width := windowed.width
  obtain ⟨edgeBelow, edge⟩ := @below_lowerEdge (rx.raised sn) nextBelow
  change _ = rx.snLength.windowSize at edge
  rw [raised_below] at *
  rcases pushed with same | wide
  · -- VR(UH) has come around to VR(UR): nothing of the old window is left.
    have reached : rx.vrUr = rx.nextSn sn := (ahead_eq_zero vrUr nextBelow).mp same
    rw [← reached] at edge ⊢
    have around : ∀ place < rx.snLength.modulo, place ≠ rx.vrUr →
        ahead rx.snLength.modulo rx.vrUr place =
          rx.snLength.modulo - ahead rx.snLength.modulo place rx.vrUr := by
      intro place placeBelow apart
      have sum := ahead_swap vrUr placeBelow (Ne.symm apart)
      omega
    have self := (ahead_eq_zero vrUr vrUr).mpr rfl
    have edgeApart : (rx.raised sn).lowerEdge ≠ rx.vrUr := by
      intro equal
      rw [equal] at edge
      omega
    have otherApart : other ≠ rx.vrUr := by
      rintro rfl
      rw [around _ edgeBelow edgeApart] at kept
      omega
    rw [around _ edgeBelow edgeApart, around _ otherBelow otherApart] at kept
    have apart := mt (ahead_eq_zero otherBelow vrUr).mp otherApart
    omega
  · have bound := ahead_lt rx.vrUr (rx.nextSn sn) (zero_lt_of_lt vrUr)
    have positionOther := positions other otherBelow (by omega)
    have positionVrUr := positions rx.vrUr vrUr width
    rw [raised_below] at positionOther positionVrUr
    rw [ahead_between vrUr edgeBelow nextBelow (by omega),
      ahead_between vrUr otherBelow nextBelow (by omega)] at kept
    omega

theorem moved_of_pushed (pushed : (rx.raised sn).inReorderingWindow rx.vrUr < 0)
    (tried : ((rx.raised sn).storePdu sn octets).tryReassembly rx.vrUr (rx.raised sn).lowerEdge =
      some next) :
    rx.Moved sn { next with vrUr := (rx.raised sn).lowerEdge } := by
  have vrUh : (rx.raised sn).vrUh < rx.snLength.modulo := Nat.mod_lt _ (by omega)
  rw [inReorderingWindow_neg vrUh windowed.vrUr] at pushed
  change _ ∨ rx.snLength.windowSize < _ at pushed
  obtain ⟨edgeBelow, edge⟩ := @below_lowerEdge (rx.raised sn) vrUh
  change _ = rx.snLength.windowSize at edge
  have before : (rx.raised sn).below rx.vrUr = 0 ∨
      ahead rx.snLength.modulo rx.vrUr (rx.raised sn).lowerEdge ≤
        (rx.raised sn).below rx.vrUr := by
    refine pushed.imp_right fun wide => ?_
    rw [raised_below] at edge wide ⊢
    have nextBelow : rx.nextSn sn < rx.snLength.modulo := vrUh
    rw [ahead_between windowed.vrUr edgeBelow nextBelow (by omega)]
    exact Nat.sub_le ..
  obtain ⟨_, buffer, rfl, cleared⟩ := @tryReassembly_cleared ((rx.raised sn).storePdu sn octets)
    _ _ _ windowed.vrUr edgeBelow before tried
  have apart : (rx.raised sn).lowerEdge ≠ sn := by
    intro same
    have window := rx.snLength.modulo_eq
    rw [same, below_raised_self bounded] at edge
    omega
  refine ⟨⟨edgeBelow, windowed.vrUx, vrUh, edge.le, fun other found => ?_⟩, ⟨rfl, rfl, rfl⟩,
    raised_vrUx_ne windowed bounded outside, fun _ empty => .inr ((cleared _).trans ?_)⟩
  · change _ ∧ 0 < (rx.raised sn).below other ∧
      (rx.raised sn).below other ≤ (rx.raised sn).below (rx.raised sn).lowerEdge
    rw [edge]
    simp only [cleared] at found
    split at found
    · cases found
    next notCleared =>
      by_cases same : other = sn
      · subst same
        rw [below_raised_self bounded]
        have window := rx.snLength.modulo_eq
        exact ⟨bounded, Nat.one_pos, by omega⟩
      · rw [storePdu_of_ne _ octets same] at found
        obtain ⟨otherBelow, _, within⟩ := windowed.stored other found
        refine ⟨otherBelow, below_of_pushed windowed bounded outside pushed otherBelow within ?_⟩
        have few := ahead_lt rx.vrUr (rx.raised sn).lowerEdge (Nat.zero_lt_of_lt edgeBelow)
        refine Nat.le_of_not_lt fun early => notCleared ?_
        exact (@mem_numbers ((rx.raised sn).storePdu sn octets) _ _ _ windowed.vrUr
          (Nat.le_of_lt few)).mpr ⟨otherBelow, early⟩
  · split
    · rfl
    · exact (storePdu_of_ne _ octets apart).trans empty

theorem moved_of_moveWindow (move : (rx.storePdu sn octets).moveWindow sn = some next) :
    rx.Moved sn next := by
  have leaves : (rx.storePdu sn octets).inReorderingWindow sn < 0 :=
    (inReorderingWindow_neg windowed.vrUh bounded).mpr outside
  rw [moveWindow, if_pos leaves] at move
  by_cases pushed : (rx.raised sn).inReorderingWindow rx.vrUr < 0
  · obtain ⟨cleared, tried, rfl⟩ := map_eq_some_iff.mp ((if_pos pushed).symm.trans move)
    exact moved_of_pushed windowed bounded outside octets pushed tried
  · cases (if_neg pushed).symm.trans move
    exact moved_of_stays windowed bounded outside octets pushed

end Move

/-! Delivery from VR(UR) on. -/

theorem Windowed.raiseVrUr (windowed : rx.Windowed) {vrUr : Nat}
    (bounded : vrUr < rx.snLength.modulo) (higher : rx.below vrUr ≤ rx.below rx.vrUr)
    (tried : tryReassembly { rx with vrUr := vrUr } rx.vrUr vrUr = some next) :
    next.Windowed ∧ rx.SameTimer next ∧ next.vrUh = rx.vrUh ∧ next.vrUr = vrUr ∧
      (rx.darBuffer vrUr = none → next.darBuffer vrUr = none) := by
  obtain ⟨steps, members⟩ :=
    @mem_numbers_up { rx with vrUr := vrUr } rx.vrUr vrUr windowed.vrUh windowed.vrUr bounded higher
  obtain ⟨_, buffer, rfl, cleared⟩ := @tryReassembly_cleared { rx with vrUr := vrUr } _ _ _
    windowed.vrUr bounded (.inr (steps ▸ Nat.sub_le ..)) tried
  refine ⟨⟨bounded, windowed.vrUx, windowed.vrUh, Nat.le_trans higher windowed.width,
    fun other found => ?_⟩, ⟨rfl, rfl, rfl⟩, rfl, rfl, fun empty => (cleared _).trans ?_⟩
  · simp only [cleared] at found
    split at found
    · cases found
    next notCleared =>
      obtain ⟨otherBelow, lower, within⟩ := windowed.stored other found
      refine ⟨otherBelow, lower, Nat.le_of_not_lt fun before => notCleared ?_⟩
      exact (members other).mpr ⟨otherBelow, before, within⟩
  · split
    · rfl
    · exact empty

theorem Windowed.vrUh_empty (windowed : rx.Windowed) : rx.darBuffer rx.vrUh = none := by
  refine not_isSome_iff_eq_none.mp fun found => ?_
  have lower := (windowed.stored _ found).2.1
  have self : rx.below rx.vrUh = 0 := (ahead_eq_zero windowed.vrUh windowed.vrUh).mpr rfl
  omega

structure Delivered (rx : Receiver) (sn : Nat) (next : Receiver) : Prop where
  windowed : next.Windowed
  timer : rx.SameTimer next
  vrUh : next.vrUh = rx.vrUh
  gap : sn = rx.vrUr ∨ rx.darBuffer rx.vrUr = none → next.darBuffer next.vrUr = none
  received : next.vrUr = next.vrUh → rx.vrUr ≠ rx.vrUh → sn = rx.vrUr ∧
    ∀ other < rx.snLength.modulo, 0 < rx.below other → rx.below other < rx.below rx.vrUr →
      (rx.darBuffer other).isSome

theorem Windowed.delivered (windowed : rx.Windowed) (deliver : rx.deliver sn = some next) :
    rx.Delivered sn next := by
  by_cases here : sn = rx.vrUr ∧ (rx.darBuffer rx.vrUr).isSome
  · obtain ⟨rfl, found⟩ := here
    have lower := (windowed.stored _ found).2.1
    have modulo := ahead_lt rx.vrUr rx.vrUh (zero_lt_of_lt windowed.vrUr)
    obtain ⟨bounded, closer, stopped, received⟩ :=
      advanceVrUr_spec windowed.vrUh windowed.vrUr lower (le_of_lt modulo)
    rw [Receiver.deliver, if_pos ⟨rfl, found⟩] at deliver
    obtain ⟨nextWindowed, timer, vrUh, vrUr, gap⟩ :=
      windowed.raiseVrUr bounded (le_of_lt closer) deliver
    refine ⟨nextWindowed, timer, vrUh, fun _ => ?_, fun top _ => ⟨rfl, ?_⟩⟩
    · rcases stopped with top | empty
      · rw [vrUr, top, ← vrUh]
        exact nextWindowed.vrUh_empty
      · rw [vrUr]
        exact gap empty
    · intro other otherBelow above before
      refine received other otherBelow ?_ before
      rw [vrUr, vrUh] at top
      have zero := (ahead_eq_zero bounded windowed.vrUh).mpr top
      unfold below at above ⊢
      omega
  · cases (if_neg here).symm.trans deliver
    refine ⟨windowed, ⟨rfl, rfl, rfl⟩, rfl, ?_, fun top apart => absurd top apart⟩
    rintro (same | empty)
    · exact not_isSome_iff_eq_none.mp fun found => here ⟨same, found⟩
    · exact empty

/-! The timer. -/

theorem stopIfPassed_cases (windowed : rx.Windowed) :
    (rx.stopIfPassed = rx.stopTimer ∨ rx.stopIfPassed = rx) ∧
      (rx.stopIfPassed.tReordering.running → rx.stopIfPassed = rx ∧
        rx.below rx.vrUx ≤ rx.below rx.vrUr ∧
        (rx.below rx.vrUx = rx.below rx.vrUr → rx.below rx.vrUr = 0)) := by
  unfold stopIfPassed
  by_cases left : rx.tReordering.running ∧ rx.vrUh ≠ rx.vrUx ∧
      rx.inReorderingWindow rx.vrUx < 0
  · simp only [if_pos left]
    have stopped : rx.stopTimer.tReordering.running = false := rfl
    simp [stopped]
  · simp only [if_neg left]
    by_cases passed : rx.tReordering.running ∧
        (rx.inWindow rx.vrUr rx.vrUx rx.vrUh = -2 ∨ rx.inWindow rx.vrUr rx.vrUx rx.vrUh = 1)
    · rw [if_pos passed]
      exact ⟨.inl rfl, nofun⟩
    · rw [if_neg passed]
      refine ⟨.inr rfl, fun running => ⟨rfl, ?_⟩⟩
      have near : rx.below rx.vrUx ≤ rx.snLength.windowSize := by
        refine Nat.le_of_not_lt fun far => left ⟨running, ?_, ?_⟩
        · intro same
          have zero : rx.below rx.vrUx = 0 :=
            (ahead_eq_zero windowed.vrUx windowed.vrUh).mpr same.symm
          omega
        · exact (inReorderingWindow_neg windowed.vrUh windowed.vrUx).mpr (.inr far)
      have notPassed := mt (windowed.passed near).mpr fun holds => passed ⟨running, holds⟩
      omega

structure Timed (rx next : Receiver) : Prop where
  windowed : next.Windowed
  vrUr : next.vrUr = rx.vrUr
  vrUh : next.vrUh = rx.vrUh
  darBuffer : next.darBuffer = rx.darBuffer
  msDuration : next.tReordering.msDuration = rx.tReordering.msDuration
  running : 0 < next.below next.vrUr →
    next.tReordering.running ∧ next.below next.vrUx < next.below next.vrUr
  -- Only a timer started for this VR(UH) is left running when nothing is missing.
  idle : next.below next.vrUr = 0 → next.tReordering.running →
    rx.tReordering.running ∧ rx.vrUx = rx.vrUh

theorem Windowed.startTimer (windowed : rx.Windowed) (now : Nat) : (rx.startTimer now).Windowed :=
  ⟨windowed.vrUr, windowed.vrUh, windowed.vrUh, windowed.width, windowed.stored⟩

theorem Windowed.stopTimer (windowed : rx.Windowed) : rx.stopTimer.Windowed :=
  { windowed with }

theorem startTimerReordering_running {timer : RlcAm.Timer} (lasts : 0 < timer.msDuration)
    (now : Nat) :
    (startTimerReordering now timer).running ∧
      (startTimerReordering now timer).msDuration = timer.msDuration := by
  rw [startTimerReordering, if_pos lasts]
  exact ⟨rfl, rfl⟩

theorem startTimer_timed (windowed : rx.Windowed) (lasts : 0 < rx.tReordering.msDuration)
    (missing : 0 < rx.below rx.vrUr) (now : Nat) : rx.Timed (rx.startTimer now) := by
  obtain ⟨running, msDuration⟩ := startTimerReordering_running lasts now
  refine ⟨windowed.startTimer now, rfl, rfl, rfl, msDuration, fun ahead => ⟨running, ?_⟩, ?_⟩
  · have top : (rx.startTimer now).below (rx.startTimer now).vrUx = 0 :=
      (ahead_eq_zero windowed.vrUh windowed.vrUh).mpr rfl
    rw [top]
    exact ahead
  · intro zero
    exact absurd zero (ne_of_gt missing)

theorem stopTimer_timed (windowed : rx.Windowed) (nothing : rx.below rx.vrUr = 0) :
    rx.Timed rx.stopTimer := by
  refine ⟨windowed.stopTimer, rfl, rfl, rfl, rfl, fun ahead => ?_, fun _ => nofun⟩
  exact absurd nothing (ne_of_gt ahead)

theorem updateReordering_timed (windowed : rx.Windowed) (lasts : 0 < rx.tReordering.msDuration)
    (now : Nat) : rx.Timed (rx.updateReordering now) := by
  obtain ⟨cases, kept⟩ := stopIfPassed_cases windowed
  unfold updateReordering
  by_cases running : rx.stopIfPassed.tReordering.running
  · obtain ⟨same, within, equal⟩ := kept running
    rw [same] at running ⊢
    rw [if_neg (by simp [running])]
    refine ⟨windowed, rfl, rfl, rfl, rfl, fun ahead => ⟨running, by omega⟩, fun zero _ => ?_⟩
    exact ⟨running, (ahead_eq_zero windowed.vrUx windowed.vrUh).mp (by unfold below at *; omega)⟩
  · have stopped : rx.stopIfPassed.tReordering.running = false := Bool.eq_false_iff.mpr running
    rcases cases with stop | same
    · rw [stop]
      by_cases missing : 0 < rx.below rx.vrUr
      · rw [if_pos ⟨rfl, windowed.stopTimer.isAhead.mpr missing⟩]
        obtain ⟨started, vrUr, vrUh, darBuffer, msDuration, ahead, idle⟩ :=
          @startTimer_timed rx.stopTimer windowed.stopTimer lasts missing now
        exact ⟨started, vrUr, vrUh, darBuffer, msDuration, ahead,
          fun zero => absurd zero (ne_of_gt missing)⟩
      · rw [if_neg fun both => missing (windowed.stopTimer.isAhead.mp both.2)]
        exact stopTimer_timed windowed (by omega)
    · rw [same] at stopped ⊢
      by_cases missing : 0 < rx.below rx.vrUr
      · rw [if_pos ⟨stopped, windowed.isAhead.mpr missing⟩]
        exact startTimer_timed windowed lasts missing now
      · rw [if_neg fun both => missing (windowed.isAhead.mp both.2)]
        refine ⟨windowed, rfl, rfl, rfl, rfl, fun ahead => absurd ahead missing, fun _ on => ?_⟩
        rw [stopped] at on
        cases on

/-! Runs. -/

structure Reorders (rx : Receiver) : Prop where
  windowed : rx.Windowed
  lasts : 0 < rx.tReordering.msDuration
  gap : rx.darBuffer rx.vrUr = none
  running : rx.tReordering.running = true ↔ rx.vrUr ≠ rx.vrUh
  vrUx : rx.tReordering.running → rx.below rx.vrUx < rx.below rx.vrUr

theorem below_vrUr_pos (windowed : rx.Windowed) : 0 < rx.below rx.vrUr ↔ rx.vrUr ≠ rx.vrUh := by
  have zero := ahead_eq_zero windowed.vrUr windowed.vrUh
  rw [Nat.pos_iff_ne_zero]
  exact not_congr zero

theorem Timed.reorders (timed : rx.Timed next) (lasts : 0 < rx.tReordering.msDuration)
    (gap : rx.darBuffer rx.vrUr = none)
    (passed : rx.tReordering.running → rx.vrUx = rx.vrUh → rx.vrUr ≠ rx.vrUh) :
    next.Reorders := by
  have missing := below_vrUr_pos timed.windowed
  have ahead : next.tReordering.running → 0 < next.below next.vrUr := by
    intro running
    refine Nat.pos_of_ne_zero fun zero => ?_
    obtain ⟨before, top⟩ := timed.idle zero running
    have apart := passed before top
    rw [← timed.vrUr, ← timed.vrUh] at apart
    omega
  refine ⟨timed.windowed, timed.msDuration ▸ lasts, ?_, ⟨fun running => ?_, fun apart => ?_⟩, ?_⟩
  · rw [timed.darBuffer, timed.vrUr]
    exact gap
  · exact missing.mp (ahead running)
  · exact (timed.running (missing.mpr apart)).1
  · exact fun running => (timed.running (ahead running)).2

/-- What a PDU has to meet: the number the window is pushed to has not been
received, and a number VR(UR) with t-Reordering started for VR(UH) does not
complete all numbers below VR(UH). -/
def Keeps (rx : Receiver) : RxInput → Prop
  | .pdu _ octets =>
    let sn := (rx.snLength.header octets).sn
    (rx.inReorderingWindow sn < 0 → rx.darBuffer (rx.raised sn).lowerEdge = none) ∧
      (rx.tReordering.running → rx.vrUx = rx.vrUh → sn = rx.vrUr →
        ∃ other < rx.snLength.modulo, 0 < rx.below other ∧ rx.below other < rx.below rx.vrUr ∧
          rx.darBuffer other = none)
  | .timerCheck _ _ => True

instance (rx : Receiver) (input : RxInput) : Decidable (rx.Keeps input) := by
  cases input <;> unfold Keeps <;> infer_instance

section

variable (reorders : rx.Reorders)

include reorders

theorem Reorders.receive_inside {now : Nat} {octets : List UInt8} {delivered : Receiver}
    (bounded : sn < rx.snLength.modulo) (lower : 0 < rx.below sn)
    (within : rx.below sn ≤ rx.below rx.vrUr)
    (missing : rx.tReordering.running → rx.vrUx = rx.vrUh → sn = rx.vrUr →
      ∃ other < rx.snLength.modulo, 0 < rx.below other ∧ rx.below other < rx.below rx.vrUr ∧
        rx.darBuffer other = none) (deliver : (rx.storePdu sn octets).deliver sn = some delivered) :
    (delivered.updateReordering now).Reorders := by
  have stored := reorders.windowed.storePdu bounded lower within octets
  have taken := stored.delivered deliver
  have lasts : 0 < delivered.tReordering.msDuration := taken.timer.tReordering ▸ reorders.lasts
  refine (updateReordering_timed taken.windowed lasts now).reorders lasts (taken.gap ?_) ?_
  · by_cases same : sn = rx.vrUr
    · exact .inl same
    · exact .inr ((rx.storePdu_of_ne octets (Ne.symm same)).trans reorders.gap)
  · intro running top passed
    have before : rx.tReordering.running := taken.timer.tReordering ▸ running
    have started : rx.vrUx = rx.vrUh := taken.timer.vrUx.symm.trans (top.trans taken.vrUh)
    obtain ⟨same, received⟩ := taken.received passed (reorders.running.mp before)
    obtain ⟨other, otherBelow, above, below, empty⟩ := missing before started same
    have found := received other otherBelow above below
    have apart : other ≠ sn := by
      rintro rfl
      have : rx.below other < rx.below other := by
        nth_rewrite 2 [show other = rx.vrUr from same]
        exact below
      omega
    rw [rx.storePdu_of_ne octets apart, empty] at found
    cases found

theorem Reorders.receive_outside {now : Nat} {moved delivered : Receiver}
    (edge : rx.darBuffer (rx.raised sn).lowerEdge = none) (move : rx.Moved sn moved)
    (deliver : moved.deliver sn = some delivered) : (delivered.updateReordering now).Reorders := by
  have taken := move.windowed.delivered deliver
  have lasts : 0 < delivered.tReordering.msDuration := by
    rw [taken.timer.tReordering, move.timer.tReordering]
    exact reorders.lasts
  refine (updateReordering_timed taken.windowed lasts now).reorders lasts (taken.gap ?_) ?_
  · exact (move.gap reorders.gap edge).imp_left Eq.symm
  · intro running top
    have before : rx.tReordering.running := by
      rw [← move.timer.tReordering, ← taken.timer.tReordering]
      exact running
    rw [taken.timer.vrUx, taken.vrUh] at top
    exact absurd top.symm (move.vrUx (reorders.vrUx before))

theorem Reorders.receive {now : Nat} {octets : List UInt8} (keeps : rx.Keeps (.pdu now octets))
    (received : rx.receiveProcessDar now octets = some next) : next.Reorders := by
  have bounded := rx.snLength.header_sn_lt octets
  have windowed := reorders.windowed
  obtain ⟨edge, missing⟩ := keeps
  simp only [receiveProcessDar] at received
  split at received
  · cases received
    exact reorders
  next notDiscarded =>
    rw [windowed.discards bounded] at notDiscarded
    split at received
    · cases received
      exact reorders
    · obtain ⟨moved, move, rest⟩ := bind_eq_some_iff.mp received
      obtain ⟨delivered, deliver, rfl⟩ := map_eq_some_iff.mp rest
      have leaves := inReorderingWindow_neg windowed.vrUh bounded
      by_cases outside : rx.inReorderingWindow (rx.snLength.header octets).sn < 0
      · exact reorders.receive_outside (edge outside)
          (moved_of_moveWindow windowed bounded (leaves.mp outside) octets move) deliver
      · cases (if_neg outside).symm.trans move
        exact reorders.receive_inside bounded (by omega) (by omega) missing deliver

theorem Reorders.expire {now : Nat} (running : rx.tReordering.running)
    (expired : rx.expire now = some next) : next.Reorders := by
  have windowed := reorders.windowed
  have ux := reorders.vrUx running
  have few := ahead_lt rx.vrUx rx.vrUh (Nat.zero_lt_of_lt windowed.vrUx)
  obtain ⟨found, first, bounded, higher, empty⟩ :=
    firstMissing_spec windowed.vrUh windowed.vrUh_empty windowed.vrUx (Nat.lt_succ_of_lt few)
  rw [Receiver.expire, first] at expired
  obtain ⟨raised, tried, rfl⟩ := map_eq_some_iff.mp expired
  obtain ⟨raisedWindowed, timer, vrUh, vrUr, gap⟩ :=
    windowed.raiseVrUr bounded (Nat.le_of_lt (Nat.lt_of_le_of_lt higher ux)) tried
  have lasts : 0 < raised.tReordering.msDuration := timer.tReordering ▸ reorders.lasts
  have raisedGap : raised.darBuffer raised.vrUr = none := vrUr ▸ gap empty
  by_cases missing : 0 < raised.below raised.vrUr
  · rw [if_pos (raisedWindowed.isAhead.mpr missing)]
    exact (startTimer_timed raisedWindowed lasts missing now).reorders lasts raisedGap
      fun _ _ => (below_vrUr_pos raisedWindowed).mp missing
  · rw [if_neg (mt raisedWindowed.isAhead.mp missing)]
    have stopped := raisedWindowed.stopTimer
    have top : raised.vrUr = raised.vrUh :=
      (ahead_eq_zero raisedWindowed.vrUr raisedWindowed.vrUh).mp (Nat.eq_zero_of_not_pos missing)
    exact ⟨stopped, lasts, raisedGap, ⟨nofun, fun apart => absurd top apart⟩, nofun⟩

theorem Reorders.step {input : RxInput} (keeps : rx.Keeps input)
    (stepped : rx.step input = some next) : next.Reorders := by
  cases input with
  | pdu now octets => exact reorders.receive keeps stepped
  | timerCheck now lockFree =>
    rw [Receiver.step, checkTimerDarTimeOut] at stepped
    split at stepped
    next expired =>
      refine reorders.expire ?_ stepped
      have on := expired.1
      exact (Bool.and_eq_true_iff.mp on).1
    · cases stepped
      exact reorders

end

theorem init_reorders (snLength : SnLength) (isDataPlane : Bool) {msDuration : Nat}
    (lasts : 0 < msDuration) : (init snLength isDataPlane msDuration).Reorders := by
  have modulo := snLength.modulo_eq
  have zero : 0 < snLength.modulo := by omega
  have start : ahead snLength.modulo 0 0 = 0 := (ahead_eq_zero zero zero).mpr rfl
  refine ⟨⟨zero, zero, zero, ?_, nofun⟩, lasts, rfl, ⟨nofun, fun apart => absurd rfl apart⟩, nofun⟩
  exact start.trans_le (zero_le _)

/-- Between two calls: the width of the window, what is buffered and where, a gap
at VR(UR), and t-Reordering running exactly while a PDU is awaited, for a VR(UX)
above VR(UR). -/
structure InOrder (rx : Receiver) : Prop where
  width : ahead rx.snLength.modulo rx.vrUr rx.vrUh ≤ rx.snLength.windowSize
  stored : ∀ sn, (rx.darBuffer sn).isSome → sn < rx.snLength.modulo ∧
    ahead rx.snLength.modulo rx.vrUr sn < ahead rx.snLength.modulo rx.vrUr rx.vrUh
  gap : rx.darBuffer rx.vrUr = none
  running : rx.tReordering.running = true ↔ rx.vrUr ≠ rx.vrUh
  vrUx : rx.tReordering.running →
    0 < ahead rx.snLength.modulo rx.vrUr rx.vrUx ∧
      ahead rx.snLength.modulo rx.vrUr rx.vrUx ≤ ahead rx.snLength.modulo rx.vrUr rx.vrUh

theorem Reorders.inOrder (reorders : rx.Reorders) : rx.InOrder := by
  have windowed := reorders.windowed
  refine ⟨windowed.width, fun sn found => ?_, reorders.gap, reorders.running, fun running => ?_⟩
  · obtain ⟨bounded, lower, within⟩ := windowed.stored sn found
    rw [ahead_between windowed.vrUr bounded windowed.vrUh within]
    unfold below at lower within
    omega
  · have ux := reorders.vrUx running
    rw [ahead_between windowed.vrUr windowed.vrUx windowed.vrUh (le_of_lt ux)]
    unfold below at ux
    omega

end Receiver

/-- Every state reached with a t-Reordering that lasts is in order. -/
theorem reordering_inOrder (snLength : SnLength) (isDataPlane : Bool) {msDuration : Nat}
    (lasts : 0 < msDuration) {inputs : List RxInput} {final : Receiver}
    (along : HoldsAlong step Keeps (init snLength isDataPlane msDuration) inputs)
    (reached : execute step (init snLength isDataPlane msDuration) inputs =
      some final) : final.InOrder :=
  (execute_preserves_along (fun _ _ _ reorders keeps stepped => reorders.step keeps stepped)
    (init_reorders snLength isDataPlane lasts) along reached).inOrder

/-- PDUs 2 and 0 arrive, and t-Reordering expires before PDU 1 does. -/
theorem reordering_inOrder_expiry :
    ∃ final, execute step (init .five true 35)
      [.pdu 0 [2, 7], .pdu 1 [0, 7], .timerCheck 40 true] = some final ∧ final.InOrder := by
  obtain ⟨final, reached⟩ := isSome_iff_exists.mp (by decide +kernel :
    (execute step (init .five true 35) [.pdu 0 [2, 7], .pdu 1 [0, 7], .timerCheck 40 true]).isSome)
  exact ⟨final, reached, reordering_inOrder .five true (by decide) (by decide +kernel) reached⟩

/-- PDU 16 pushes the window to PDU 1, which stays in the buffer at VR(UR). PDU 0
after PDU 1 completes all numbers and leaves t-Reordering running. A t-Reordering
of 0 ms never runs. -/
theorem not_reordering_inOrder :
    (∃ rx, execute step (init .five true 35)
      [.pdu 0 [1, 7], .pdu 1 [16, 7]] = some rx ∧ (rx.darBuffer rx.vrUr).isSome) ∧
    (∃ rx, execute step (init .five true 35)
      [.pdu 0 [1, 7], .pdu 1 [0, 7]] = some rx ∧
        rx.tReordering.running ∧ rx.vrUr = rx.vrUh) ∧
    (∃ rx, execute step (init .five true 0) [.pdu 0 [1, 7]] = some rx ∧
      rx.tReordering.running = false ∧ rx.vrUr ≠ rx.vrUh) := by
  refine ⟨?_, ?_, ?_⟩
  · decide +kernel
  · decide +kernel
  · decide +kernel

end OpenAir.RlcUm
