import OpenAir.RlcAm.ReceiveVariables

/-! t-Reordering and VR(X), after `rlc_am_timer_reordering.c` and the end of
`rlc_am_receive_process_data_pdu`: when the timer runs, and what an expiry leaves
VR(MS) at. The timer is never set running again by an expiry. -/

set_option autoImplicit false

namespace OpenAir.RlcAm

open Receiver

structure Receiver.TimerSound (rx : Receiver) : Prop where
  configured : rx.tReordering.msDuration > 0
  vrXBound : rx.vrX < rlcAmSnModulo
  above : rx.tReordering.running → 0 < shiftedSn rx.vrR rx.vrX
  notAbove : rx.tReordering.running →
    shiftedSn rx.vrR rx.vrX ≤ shiftedSn rx.vrR rx.vrH

theorem timerSound_init {msDuration : Nat} (positive : msDuration > 0) :
    (init msDuration).TimerSound where
  configured := positive
  vrXBound := show 0 < rlcAmSnModulo by decide
  above := nofun
  notAbove := nofun

structure TimerUpdated (before after : Receiver) : Prop where
  running : after.tReordering.running = true ↔ after.vrH ≠ after.vrR
  started : after.tReordering.running →
    (before.tReordering.running ∧ after.tReordering = before.tReordering ∧
      after.vrX = before.vrX) ∨ after.vrX = after.vrH
  notAtVrR : after.tReordering.running → after.vrX ≠ after.vrR

structure Rearmed (rx after : Receiver) : Prop where
  running : after.tReordering.running = decide (rx.vrH ≠ rx.vrR)
  duration : after.tReordering.msDuration = rx.tReordering.msDuration
  started : rx.vrH ≠ rx.vrR → after.vrX = rx.vrH
  idle : rx.vrH = rx.vrR → after.vrX = rx.vrX

variable {rx : Receiver} {sn : Nat}

theorem updateReordering_start (now sn : Nat) (idle : rx.tReordering.running = false)
    (configured : rx.tReordering.msDuration > 0) :
    Rearmed rx (rx.updateReordering now sn) := by
  by_cases same : rx.vrH = rx.vrR
  · refine ⟨?_, ?_, fun other => absurd same other, fun _ => ?_⟩
    all_goals simp [updateReordering, idle, same]
  · refine ⟨?_, ?_, fun _ => ?_, fun equal => absurd equal same⟩
    all_goals simp [updateReordering, idle, same, startTimerReordering, configured]

theorem updateReordering_stop (now : Nat) (running : rx.tReordering.running)
    (configured : rx.tReordering.msDuration > 0) (stops : rx.vrX = rx.vrR ∨
      (inWindow rx.vrR rx.vrMr sn = false ∧ rx.vrX ≠ rx.vrMr)) :
    Rearmed rx (rx.updateReordering now sn) := by
  let stopped : Receiver :=
    { rx with tReordering := stopAndResetTimerReordering rx.tReordering }
  have same : rx.updateReordering now sn = stopped.updateReordering now sn := by
    simp [updateReordering, running, stops, stopAndResetTimerReordering, stopped]
  have rearmed : Rearmed stopped (stopped.updateReordering now sn) :=
    updateReordering_start now sn rfl configured
  rw [same]
  exact { rearmed with }

theorem updateReordering_keep (now : Nat) (running : rx.tReordering.running)
    (other : rx.vrX ≠ rx.vrR) (inside : inWindow rx.vrR rx.vrMr sn) :
    rx.updateReordering now sn = rx := by
  simp [updateReordering, running, other, inside]

theorem Receiver.placed_timer (rx : Receiver) (info : PduInfo) (before after : List RxPdu) :
    (rx.placed info before after).tReordering = rx.tReordering ∧
      (rx.placed info before after).vrX = rx.vrX := by
  unfold placed
  dsimp only
  split
  · exact ⟨rfl, rfl⟩
  · exact ⟨rfl, rfl⟩

theorem shiftedSn_eq_zero {base : Nat} (edge : base < rlcAmSnModulo)
    (bounded : sn < rlcAmSnModulo) : shiftedSn base sn = 0 ↔ sn = base := by
  constructor
  · intro zero
    exact shiftedSn_injective edge bounded edge (zero.trans (shiftedSn_self edge).symm)
  · rintro rfl
    exact shiftedSn_self edge

theorem Rearmed.updated {before after : Receiver} (rearmed : Rearmed rx after)
    (same : rx.SameDelivery after) (edge : rx.vrR < rlcAmSnModulo)
    (vrHBound : rx.vrH < rlcAmSnModulo) (vrXBound : rx.vrX < rlcAmSnModulo)
    (configured : rx.tReordering.msDuration > 0) :
    TimerUpdated before after ∧ after.TimerSound := by
  have runs : after.tReordering.running = true ↔ rx.vrH ≠ rx.vrR := by
    rw [rearmed.running, decide_eq_true_eq]
  have vrX : after.tReordering.running → after.vrX = rx.vrH := fun running =>
    rearmed.started (runs.mp running)
  refine ⟨⟨?_, ?_, ?_⟩, ⟨?_, ?_, ?_, ?_⟩⟩
  · rw [runs, same.vrH, same.vrR]
  · intro running
    exact .inr ((vrX running).trans same.vrH.symm)
  · intro running
    rw [vrX running, same.vrR]
    exact runs.mp running
  · rw [rearmed.duration]
    exact configured
  · by_cases idle : rx.vrH = rx.vrR
    · rw [rearmed.idle idle]
      exact vrXBound
    · rw [rearmed.started idle]
      exact vrHBound
  · intro running
    rw [vrX running, same.vrR]
    exact Nat.pos_of_ne_zero fun zero => runs.mp running ((shiftedSn_eq_zero edge vrHBound).mp zero)
  · intro running
    rw [vrX running, same.vrH]

namespace Receiver.Arrival

variable {rx : Receiver} {info : PduInfo} {before after : List RxPdu}

theorem MovesBy.awaited {count : Nat} (moves : MovesBy rx info before after count)
    (arrival : rx.Arrival info before after) (positive : 0 < count) :
    info.sn = rx.vrR := by
  by_contra other
  have flagged := moves.passed 0 positive
  rw [snAt_zero arrival.regular.inOrder.edge, arrival.received_iff,
    arrival.received_other other] at flagged
  exact arrival.regular.awaited flagged

/-- A timer that runs is stopped if VR(R) has moved: the arrived PDU has left the
window, and VR(X) is not its upper edge. -/
theorem MovesBy.stops {count : Nat} (moves : MovesBy rx info before after count)
    (arrival : rx.Arrival info before after) (positive : 0 < count)
    (sound : rx.TimerSound) (running : rx.tReordering.running) :
    let next := rx.placed info before after
    inWindow next.vrR next.vrMr info.sn = false ∧ rx.vrX ≠ next.vrMr := by
  intro next
  have edge := arrival.regular.inOrder.edge
  have awaited := moves.awaited arrival positive
  have within := moves.count_le arrival (fun pdu mem => (arrival.orderly.reach pdu mem).near)
  have vrMr : next.vrMr = (next.vrR + rlcAmWindowSize) % rlcAmSnModulo :=
    (arrival.regular.inOrder.placed arrival.stored).vrMr
  have vrR : next.vrR = snAt rx.vrR count := moves.vrR
  constructor
  · have outside : ¬ shiftedSn next.vrR info.sn < rlcAmWindowSize := by
      rw [vrR, shiftedSn_eq _ _ (snAt_lt _ _)]
      simp only [snAt, rlcAmSnModulo, rlcAmWindowSize] at edge within ⊢
      omega
    rw [vrMr, Bool.eq_false_iff, ne_eq, inWindow_iff]
    exact fun inside => outside inside.2
  · intro same
    have above := sound.above running
    have notAbove := (sound.notAbove running).trans arrival.regular.high
    rw [same, vrMr, vrR, shiftedSn_eq _ _ edge] at above notAbove
    simp only [snAt, rlcAmSnModulo, rlcAmWindowSize] at edge within above notAbove
    omega

theorem updated (arrival : rx.Arrival info before after) (sound : rx.TimerSound)
    (now : Nat) :
    let next := (rx.placed info before after).updateReordering now info.sn
    TimerUpdated rx next ∧ next.TimerSound := by
  intro next
  have edge := arrival.regular.inOrder.edge
  have regular := arrival.placed_regular
  have tops := arrival.tops
  obtain ⟨timer, vrX⟩ := rx.placed_timer info before after
  obtain ⟨same, _⟩ :=
    (rx.placed info before after).updateReordering_sameDelivery now info.sn
  have configured : (rx.placed info before after).tReordering.msDuration > 0 := by
    rw [timer]
    exact sound.configured
  have vrXBound : (rx.placed info before after).vrX < rlcAmSnModulo := by
    rw [vrX]
    exact sound.vrXBound
  cases running : rx.tReordering.running with
  | false =>
    have rearmed := updateReordering_start now info.sn (by rw [timer]; exact running) configured
    exact rearmed.updated same regular.inOrder.edge tops.bounded vrXBound configured
  | true =>
    obtain ⟨count, moves⟩ := arrival.moves
    have placedRuns : (rx.placed info before after).tReordering.running := by
      rw [timer]
      exact running
    rcases Nat.eq_zero_or_pos count with rfl | positive
    · have vrR : (rx.placed info before after).vrR = rx.vrR := by
        rw [moves.vrR, snAt_zero edge]
      have above := sound.above running
      have notAbove := (sound.notAbove running).trans tops.grows
      have other : rx.vrX ≠ rx.vrR := fun equal => by
        rw [equal, shiftedSn_self edge] at above
        exact lt_irrefl _ above
      have inside : inWindow (rx.placed info before after).vrR
          (rx.placed info before after).vrMr info.sn := by
        rw [regular.inOrder.vrMr, inWindow_iff, vrR]
        exact ⟨arrival.stored.reach.snBound, arrival.stored.reach.near⟩
      have kept : next = rx.placed info before after :=
        updateReordering_keep now placedRuns (by rw [vrX, vrR]; exact other) inside
      have higher : (rx.placed info before after).vrH ≠ rx.vrR := fun equal => by
        rw [equal, shiftedSn_self edge] at notAbove
        omega
      rw [kept]
      refine ⟨⟨?_, ?_, ?_⟩, ⟨configured, vrXBound, ?_, ?_⟩⟩
      · rw [vrR]
        exact iff_of_true placedRuns higher
      · exact fun _ => .inl ⟨running, timer, vrX⟩
      · rw [vrX, vrR]
        exact fun _ => other
      · rw [vrX, vrR]
        exact fun _ => above
      · rw [vrX, vrR]
        exact fun _ => notAbove
    · have stops := moves.stops arrival positive sound running
      have rearmed := updateReordering_stop now placedRuns configured
        (.inr ⟨stops.1, by rw [vrX]; exact stops.2⟩)
      exact rearmed.updated same regular.inOrder.edge tops.bounded vrXBound configured

end Receiver.Arrival

def Receiver.ReceivedFromVrX (rx : Receiver) : Prop :=
  ∀ index, shiftedSn rx.vrR rx.vrX ≤ index →
    index < shiftedSn rx.vrR rx.vrH →
    ReceivedCompletely rx.receiverBuffer (snAt rx.vrR index)

/-- A check at which the timer expires finds nothing missing behind VR(X). -/
def NothingMissingAtExpiry (rx : Receiver) : RxInput → Prop
  | .dataPdu _ _ => True
  | .timerCheck now => rx.tReordering.expired now → rx.ReceivedFromVrX

/-- What an expiry should leave: VR(MS) at the first number from VR(X) on that is
not completely received, and the timer running for VR(H) if VR(H) is behind it. -/
structure ExpiryHandled (before after : Receiver) : Prop where
  vrMs : LowestMissing before.receiverBuffer before.vrX after.vrMs
  running : after.tReordering.running = true ↔
    shiftedSn after.vrR after.vrMs < shiftedSn after.vrR after.vrH
  started : after.tReordering.running → after.vrX = after.vrH

theorem Timer.running_of_expired {timer : Timer} {now : Nat} (expired : timer.expired now) :
    timer.running := by
  rw [Timer.expired, Bool.and_eq_true] at expired
  exact expired.1

section Expiry

variable {rx : Receiver}

theorem Receiver.Regular.expiredVrMs_eq (regular : rx.Regular) (sound : rx.TimerSound)
    (running : rx.tReordering.running) (received : rx.ReceivedFromVrX) :
    expiredVrMs rx.vrR rx.vrX rx.vrMs rx.receiverBuffer = rx.vrH := by
  have edge := regular.inOrder.edge
  have orderly := regular.inOrder.buffer
  have above := sound.above running
  have notAbove := sound.notAbove running
  obtain ⟨top, topMember, next⟩ : ∃ pdu ∈ rx.receiverBuffer,
      rx.vrH = nextSn pdu.info.sn := by
    rcases regular.highest with none | stored
    · rw [none, shiftedSn_self edge] at notAbove
      omega
    · exact stored
  rcases expiredVrMs_cases rx.vrR rx.vrX rx.vrMs rx.receiverBuffer with
    ⟨empty, _⟩ | ⟨stop, mem, unset, behind, _⟩ | ⟨last, isLast, same⟩
  · rw [empty] at topMember
    exact absurd topMember List.not_mem_nil
  · simp only [snGte, Bool.and_eq_true, decide_eq_true_eq] at behind
    have complete := received _ behind.2 (regular.below stop mem)
    rw [snAt_shiftedSn edge behind.1, ← orderly.flagged_iff regular.cut mem] at complete
    cases unset.symm.trans complete
  · have mem := List.mem_of_getLast? isLast
    have step := fun pdu found => shiftedSn_nextSn edge (orderly.reach pdu found).near
    have highest := orderly.ordered.last_highest isLast top topMember
    have below := regular.below last mem
    rw [next, step top topMember] at below
    rw [same, next]
    refine shiftedSn_injective edge (Nat.mod_lt _ (by decide)) (Nat.mod_lt _ (by decide)) ?_
    rw [step top topMember, step last mem]
    omega

theorem Receiver.Regular.expiry_handled (regular : rx.Regular) (sound : rx.TimerSound)
    {now : Nat} (expired : rx.tReordering.expired now) (received : rx.ReceivedFromVrX) :
    ExpiryHandled rx (rx.checkTimerReordering now) ∧
      (rx.checkTimerReordering now).TimerSound := by
  have edge := regular.inOrder.edge
  have running := Timer.running_of_expired expired
  have reached := regular.expiredVrMs_eq sound running received
  have checked : rx.checkTimerReordering now =
      { rx with
        vrMs := rx.vrH
        tReordering := { rx.tReordering with running := false, timedOut := true }
        statusRequested := true } := by
    simp [checkTimerReordering, expired, reached, snGt]
  have idle : (rx.checkTimerReordering now).tReordering.running = false := by rw [checked]
  refine ⟨⟨?_, ?_, ?_⟩, ⟨?_, ?_, ?_, ?_⟩⟩
  · rw [checked]
    have notAbove := sound.notAbove running
    have vrX : snAt rx.vrR (shiftedSn rx.vrR rx.vrX) = rx.vrX :=
      snAt_shiftedSn edge sound.vrXBound
    refine ⟨shiftedSn rx.vrR rx.vrH - shiftedSn rx.vrR rx.vrX, ?_, ?_, ?_⟩
    · rw [← vrX, snAt_snAt, vrX, Nat.add_sub_cancel' notAbove, snAt_shiftedSn edge regular.vrHBound]
    · intro index below
      rw [← vrX, snAt_snAt]
      exact received _ (Nat.le_add_right _ _) (by omega)
    · exact not_receivedCompletely_above regular.below
  · rw [checked]
    exact iff_of_false Bool.false_ne_true (lt_irrefl _)
  · exact fun runs => absurd (idle.symm.trans runs) Bool.false_ne_true
  · rw [checked]
    exact sound.configured
  · rw [checked]
    exact sound.vrXBound
  · exact fun runs => absurd (idle.symm.trans runs) Bool.false_ne_true
  · exact fun runs => absurd (idle.symm.trans runs) Bool.false_ne_true

end Expiry

/-- The timer after a call: an arrival that is placed in the buffer updates it, an
expiry handles it, and nothing else touches it or VR(X). -/
def ReorderingExact (before : Receiver) (input : RxInput) (after : Receiver) : Prop :=
  match input with
  | .dataPdu _ octets =>
    (∀ info front back, before.Places octets info front back → TimerUpdated before after) ∧
      ((¬ ∃ info front back, before.Places octets info front back) →
        after.tReordering = before.tReordering ∧ after.vrX = before.vrX)
  | .timerCheck now =>
    if before.tReordering.expired now then ExpiryHandled before after else after = before

theorem Receiver.Regular.reordering_exact (regular : rx.Regular) (sound : rx.TimerSound)
    {input : RxInput} (wellFormed : input.WellFormed) (segments : SegmentsRegular rx input)
    (nothing : NothingMissingAtExpiry rx input) :
    ReorderingExact rx input (rx.step input) ∧ (rx.step input).TimerSound := by
  cases input with
  | timerCheck now =>
    cases expired : rx.tReordering.expired now with
    | false =>
      have same : rx.checkTimerReordering now = rx := by
        simp [Receiver.checkTimerReordering, expired]
      rw [Receiver.step, same]
      exact ⟨by simp [ReorderingExact, expired], sound⟩
    | true =>
      obtain ⟨handled, next⟩ := regular.expiry_handled sound expired (nothing expired)
      exact ⟨by simpa [ReorderingExact, expired, Receiver.step] using handled, next⟩
  | dataPdu now octets =>
    rcases rx.receiveProcessDataPdu_cases now octets with
      ⟨requested, unchanged, _, dropped⟩ | ⟨info, before, after, places, stepped⟩
    · rw [Receiver.step, unchanged]
      refine ⟨⟨fun info front back places => absurd ⟨info, front, back, places⟩ dropped,
        fun _ => ⟨rfl, rfl⟩⟩, ?_⟩
      exact { sound with }
    · have polled : Receiver.TimerSound
          { rx with statusRequested := rx.statusRequested || info.p } :=
        { sound with }
      obtain ⟨updated, next⟩ := (regular.arrival places wellFormed segments
        (rx.statusRequested || info.p)).updated polled now
      rw [Receiver.step, stepped]
      refine ⟨⟨fun _ _ _ _ => ?_, fun dropped => absurd ⟨info, before, after, places⟩ dropped⟩,
        next⟩
      exact { updated with }

theorem Receiver.Regular.timerSound_run (regular : rx.Regular) (sound : rx.TimerSound)
    {inputs : List RxInput} (wellFormed : ∀ input ∈ inputs, input.WellFormed)
    (segments : Along SegmentsRegular rx inputs)
    (nothing : Along NothingMissingAtExpiry rx inputs) :
    (rx.run inputs).Regular ∧ (rx.run inputs).TimerSound := by
  induction inputs generalizing rx with
  | nil => exact ⟨regular, sound⟩
  | cons input rest ih =>
    have first := wellFormed input List.mem_cons_self
    refine ih (regular.step first segments.1)
      (regular.reordering_exact sound first segments.1 nothing.1).2 ?_ segments.2 nothing.2
    exact fun other mem => wellFormed other (List.mem_cons_of_mem _ mem)

theorem reordering_timer_exact (msDuration : Nat) (positive : msDuration > 0)
    (inputs : List RxInput) (input : RxInput)
    (wellFormed : ∀ other ∈ inputs ++ [input], other.WellFormed)
    (segments : Along SegmentsRegular (init msDuration) (inputs ++ [input]))
    (nothing : Along NothingMissingAtExpiry (init msDuration) (inputs ++ [input])) :
    let before := (init msDuration).run inputs
    ReorderingExact before input (before.step input) := by
  obtain ⟨earlier, last, _⟩ := along_append.mp segments
  obtain ⟨nothingEarlier, nothingLast, _⟩ := along_append.mp nothing
  obtain ⟨regular, sound⟩ := (regular_init msDuration).timerSound_run (timerSound_init positive)
    (fun other mem => wellFormed other (List.mem_append_left _ mem)) earlier nothingEarlier
  exact (regular.reordering_exact sound (wellFormed _ (by simp)) last nothingLast).1

/-- PDU 1 arrives and starts the timer, which expires with PDU 0 still missing. -/
theorem reordering_timer_expires :
    let before := (init 10).run [.dataPdu 0 (wholePdu 1)]
    let after := before.step (.timerCheck 20)
    before.tReordering.expired 20 ∧ after.vrMs = 2 ∧
      ReorderingExact before (.timerCheck 20) after := by
  refine ⟨by decide +kernel, by decide +kernel, reordering_timer_exact 10 (by decide)
    [.dataPdu 0 (wholePdu 1)] (.timerCheck 20) (by decide +kernel) ?_ ?_⟩
  · exact ⟨segmentsRegular_of_check (by decide +kernel) (by decide +kernel),
      ⟨trivial, fun _ brings => brings.elim⟩, trivial⟩
  · refine ⟨trivial, fun _ index above below => ?_, trivial⟩
    have vrX : shiftedSn ((init 10).step (.dataPdu 0 (wholePdu 1))).vrR
        ((init 10).step (.dataPdu 0 (wholePdu 1))).vrX = 2 := by decide +kernel
    have vrH : shiftedSn ((init 10).step (.dataPdu 0 (wholePdu 1))).vrR
        ((init 10).step (.dataPdu 0 (wholePdu 1))).vrH = 2 := by decide +kernel
    omega

/-- The first segment of PDU 2 arrives after the timer was started for it: the
expiry leaves VR(H) behind VR(MS) and the timer stopped. -/
def unrestartedInputs : List RxInput :=
  [.dataPdu 0 (wholePdu 1), .dataPdu 1 (firstSegment 2)]

theorem expiry_does_not_restart :
    let before := (init 10).run unrestartedInputs
    (∀ input ∈ unrestartedInputs, input.WellFormed) ∧
      ¬ ReorderingExact before (.timerCheck 20) (before.step (.timerCheck 20)) := by
  refine ⟨by decide +kernel, fun exactly => ?_⟩
  have expired : ((init 10).run unrestartedInputs).tReordering.expired 20 := by
    decide +kernel
  simp only [ReorderingExact, expired, if_true] at exactly
  exact absurd (exactly.running.mpr (by decide +kernel)) (by decide +kernel)

end OpenAir.RlcAm
