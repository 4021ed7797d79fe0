import OpenAir.RlcAm.Entity
import OpenAir.RlcUm.Receiver

/-! The millisecond timers of both RLC modes against a clock that wraps with the
frame number. All of them compare the clock with the start and with a time-out
that is not reduced. -/

set_option autoImplicit false

namespace OpenAir.Rlc

open OpenAir.Base Bool RlcAm
open OpenAir.RlcAm (Timer)

universe u

variable {σ : Type u} {start duration elapsed : Nat}

/-- Milliseconds before `PROTOCOL_CTXT_TIME_MILLI_SECONDS` wraps. -/
def clockPeriod : Nat := 10240

def clock (start elapsed : Nat) : Nat := (start + elapsed) % clockPeriod

def checks (check : σ → Nat → Option σ) (start : Nat) (state : σ) (count : Nat) : Option σ :=
  execute check state ((List.range count).map fun index => clock start (index + 1))

theorem checks_succ (check : σ → Nat → Option σ) (start : Nat) (state : σ) (count : Nat) :
    checks check start state (count + 1) =
      (checks check start state count).bind fun last => check last (clock start (count + 1)) := by
  simp [checks, List.range_succ, execute_append, execute]

/-- The checks before `duration` has passed do nothing, the next one ends in `timedOut`. -/
structure TimesOutAfter (check : σ → Nat → Option σ) (timedOut : Option σ → Prop)
    (start duration : Nat) (started : σ) : Prop where
  notEarlier : ∀ elapsed < duration, checks check start started elapsed = some started
  onTime : timedOut (checks check start started duration)

structure StartedAt (start duration : Nat) (timer : Timer) : Prop where
  running : timer.running
  msStart : timer.msStart = start
  msTimeOut : timer.msTimeOut = start + duration

structure ShorterThanPeriod (start duration : Nat) : Prop where
  start_lt : start < clockPeriod
  duration_pos : 0 < duration
  duration_lt : duration < clockPeriod

variable {timer : Timer}

theorem StartedAt.expired_iff (started : StartedAt start duration timer)
    (short : ShorterThanPeriod start duration) (fits : start + duration ≤ clockPeriod)
    (within : elapsed ≤ duration) :
    timer.expired (clock start elapsed) = true ↔ elapsed = duration := by
  obtain ⟨startBelow, positive, durationBelow⟩ := short
  simp only [Timer.expired, started.running, started.msStart, started.msTimeOut, Bool.true_and,
    or_eq_true, decide_eq_true_eq]
  unfold clock clockPeriod at *
  rcases Nat.lt_or_ge (start + elapsed) 10240 with before | wrapped
  · -- The clock reads 0 when the period ends with the duration.
    omega
  · omega

/-- A clock that reads 0 is before the start, which counts as expired. -/
theorem StartedAt.expired_wrap (started : StartedAt start duration timer) (positive : 0 < start)
    (lasts : 0 < duration) : timer.expired 0 = true := by
  simp only [Timer.expired, started.running, started.msStart, started.msTimeOut, Bool.true_and,
    or_eq_true, decide_eq_true_eq]
  omega

theorem timesOutAfter_iff {check : σ → Nat → Option σ} {timedOut : Option σ → Prop}
    (timer : σ → Timer) {state : σ} (short : ShorterThanPeriod start duration)
    (started : StartedAt start duration (timer state))
    (waits : ∀ now, (timer state).expired now = false → check state now = some state)
    (acts : (timer state).expired (clock start duration) →
      timedOut (check state (clock start duration)))
    (ends : ∀ next, (timer state).expired 0 → check state 0 = some next →
      (timer next).running = false ∨ (timer next).msStart = 0) :
    TimesOutAfter check timedOut start duration state ↔ start + duration ≤ clockPeriod := by
  have ⟨startBelow, positive, durationBelow⟩ := short
  constructor
  · intro after
    by_contra late
    -- The check at the wrap is one of those that should do nothing.
    obtain ⟨count, wrap⟩ : ∃ count, clockPeriod = start + (count + 1) :=
      ⟨clockPeriod - start - 1, by omega⟩
    have reads : clock start (count + 1) = 0 := by rw [clock, ← wrap, Nat.mod_self]
    have kept := after.notEarlier (count + 1) (by omega)
    rw [checks_succ, after.notEarlier count (by omega), reads] at kept
    rcases ends state (started.expired_wrap (by omega) positive) kept with stopped | restarted
    · exact absurd started.running (stopped ▸ false_ne_true)
    · rw [started.msStart] at restarted
      omega
  · intro fits
    have quiet : ∀ elapsed < duration, checks check start state elapsed = some state := by
      intro elapsed early
      induction elapsed with
      | zero => rfl
      | succ elapsed ih =>
        rw [checks_succ, ih (by omega)]
        refine waits _ (eq_false_iff.mpr fun expired => ?_)
        exact absurd ((started.expired_iff short fits (Nat.le_of_lt early)).mp expired)
          (Nat.ne_of_lt early)
    refine ⟨quiet, ?_⟩
    obtain ⟨last, rfl⟩ := Nat.exists_eq_succ_of_ne_zero (Nat.ne_of_gt positive)
    rw [checks_succ, quiet last (Nat.lt_succ_self _)]
    exact acts ((started.expired_iff short fits (Nat.le_refl _)).mpr rfl)

theorem ShorterThanPeriod.timeOut_lt (short : ShorterThanPeriod start duration) :
    start + duration < 2 ^ 32 := by
  have ⟨startBelow, _, durationBelow⟩ := short
  unfold clockPeriod at startBelow durationBelow
  omega

theorem startedAt_am (short : ShorterThanPeriod start duration) (idle : timer.running = false)
    (lasts : timer.msDuration = duration) :
    StartedAt start duration (startTimerReordering start timer) := by
  subst lasts
  rw [startTimerReordering, if_pos ⟨idle, short.duration_pos⟩]
  exact ⟨rfl, rfl, Nat.mod_eq_of_lt short.timeOut_lt⟩

theorem startedAt_um (short : ShorterThanPeriod start duration)
    (lasts : timer.msDuration = duration) :
    StartedAt start duration (RlcUm.startTimerReordering start timer) := by
  subst lasts
  rw [RlcUm.startTimerReordering, if_pos short.duration_pos]
  exact ⟨rfl, rfl, Nat.mod_eq_of_lt short.timeOut_lt⟩

/-! What the check of the unacknowledged mode leaves of its timer. -/

theorem reassembleSn_tReordering {rx next : RlcUm.Receiver} {sn : Nat}
    (done : rx.reassembleSn sn = some next) : next.tReordering = rx.tReordering := by
  unfold RlcUm.Receiver.reassembleSn at done
  split at done
  · obtain ⟨reassembly, -, rfl⟩ := Option.map_eq_some_iff.mp done
    rfl
  · cases done
    rfl

theorem reassembleLoop_tReordering {endSn fuel sn : Nat} {rx next : RlcUm.Receiver}
    (done : RlcUm.Receiver.reassembleLoop endSn fuel rx sn = some next) :
    next.tReordering = rx.tReordering := by
  induction fuel generalizing rx sn with
  | zero => cases done
  | succ fuel ih =>
    obtain ⟨passed, reassembled, rest⟩ := Option.bind_eq_some_iff.mp done
    rw [← reassembleSn_tReordering reassembled]
    dsimp only at rest
    split at rest
    · cases rest
      rfl
    · exact ih rest

theorem expire_tReordering {rx next : RlcUm.Receiver} {now : Nat}
    (lasts : 0 < rx.tReordering.msDuration) (done : rx.expire now = some next) :
    next.tReordering.running = false ∨ next.tReordering.msStart = now := by
  obtain ⟨vrUr, -, tried⟩ := Option.bind_eq_some_iff.mp done
  obtain ⟨passed, reassembled, rfl⟩ := Option.map_eq_some_iff.mp tried
  have kept : passed.tReordering = rx.tReordering := by
    unfold RlcUm.Receiver.tryReassembly at reassembled
    split at reassembled
    · cases reassembled
      rfl
    · have kept := reassembleLoop_tReordering reassembled
      exact kept
  split
  · right
    rw [RlcUm.Receiver.startTimer, RlcUm.startTimerReordering, kept, if_pos lasts]
  · left
    rfl

/-! The four timers. -/

/-- `rlc_am_check_timer_poll_retransmit` has found the timer expired. -/
def PollRetransmitTimedOut (result : Option Transmitter) : Prop :=
  ∃ tx, result = some tx ∧ tx.tPollRetransmit.running = false ∧
    tx.tPollRetransmit.timedOut ∧ tx.forcePoll

def StatusProhibitTimedOut (result : Option Timer) : Prop :=
  ∃ timer, result = some timer ∧ timer.running = false

def ReorderingTimedOut (result : Option Receiver) : Prop :=
  ∃ rx, result = some rx ∧ rx.tReordering.running = false ∧
    rx.tReordering.timedOut ∧ rx.statusRequested

section

variable (short : ShorterThanPeriod start duration)

include short

theorem pollRetransmit_timesOut {tx : Transmitter}
    (started : StartedAt start duration tx.tPollRetransmit) :
    TimesOutAfter (fun tx now => some (tx.checkTimerPollRetransmit now))
      PollRetransmitTimedOut start duration tx ↔ start + duration ≤ clockPeriod := by
  refine timesOutAfter_iff Transmitter.tPollRetransmit short started
    (fun now waiting => ?_) (fun expired => ?_) fun next expired done => ?_
  · rw [Transmitter.checkTimerPollRetransmit, if_neg (eq_false_iff.mp waiting)]
  · rw [Transmitter.checkTimerPollRetransmit, if_pos expired]
    exact ⟨_, rfl, rfl, rfl, rfl⟩
  · rw [Transmitter.checkTimerPollRetransmit, if_pos expired] at done
    cases done
    exact .inl rfl

theorem statusProhibit_timesOut (lasts : timer.msDuration = duration)
    (started : StartedAt start duration timer) :
    TimesOutAfter (fun timer now => some (checkTimerStatusProhibit timer now))
      StatusProhibitTimedOut start duration timer ↔ start + duration ≤ clockPeriod := by
  have positive : timer.msDuration > 0 := lasts ▸ short.duration_pos
  have stops : ∀ now, timer.expired now →
      (checkTimerStatusProhibit timer now).running = false := by
    intro now expired
    rw [checkTimerStatusProhibit, if_pos ⟨positive, expired⟩, stopAndResetTimerStatusProhibit,
      if_pos positive]
    rfl
  refine timesOutAfter_iff id short started
    (fun now waiting => ?_) (fun expired => ⟨_, rfl, stops _ expired⟩) fun next expired done => ?_
  · rw [checkTimerStatusProhibit, if_neg fun both => eq_false_iff.mp waiting both.2]
  · cases done
    exact .inl (stops _ expired)

theorem amReordering_timesOut {rx : Receiver} (started : StartedAt start duration rx.tReordering) :
    TimesOutAfter (fun rx now => some (rx.checkTimerReordering now))
      ReorderingTimedOut start duration rx ↔ start + duration ≤ clockPeriod := by
  have timesOut : ∀ now, rx.tReordering.expired now →
      ReorderingTimedOut (some (rx.checkTimerReordering now)) := by
    intro now expired
    simp only [Receiver.checkTimerReordering, if_pos expired]
    refine ⟨_, rfl, ?_, ?_, rfl⟩
    · split <;> rfl
    · split <;> rfl
  refine timesOutAfter_iff Receiver.tReordering short started
    (fun now waiting => ?_) (timesOut _) fun next expired done => ?_
  · rw [Receiver.checkTimerReordering, if_neg (eq_false_iff.mp waiting)]
  · obtain ⟨last, same, stopped, -⟩ := timesOut 0 expired
    cases done
    cases same
    exact .inl stopped

theorem umReordering_timesOut {rx : RlcUm.Receiver} (lasts : rx.tReordering.msDuration = duration)
    (started : StartedAt start duration rx.tReordering) :
    TimesOutAfter (fun rx now => rx.checkTimerDarTimeOut now true)
      (fun result => result = rx.expire (clock start duration)) start duration rx ↔
        start + duration ≤ clockPeriod := by
  have expires : ∀ now, rx.tReordering.expired now →
      rx.checkTimerDarTimeOut now true = rx.expire now := fun now expired => by
    rw [RlcUm.Receiver.checkTimerDarTimeOut, if_pos ⟨expired, rfl⟩]
  refine timesOutAfter_iff RlcUm.Receiver.tReordering short started
    (fun now waiting => ?_) (expires _) fun next expired done => ?_
  · rw [RlcUm.Receiver.checkTimerDarTimeOut, if_neg fun both => eq_false_iff.mp waiting both.1]
  · exact expire_tReordering (lasts ▸ short.duration_pos) (expires 0 expired ▸ done)

end

/-- Each timer started at `start` times out after its duration and not before, if and
only if the duration ends in the period in which it starts. The timer of the
unacknowledged mode is checked with `lock_dar_buffer` free. -/
theorem timers_time_out_after (short : ShorterThanPeriod start duration) :
    (∀ tx : Transmitter, tx.tPollRetransmit.running = false →
      tx.tPollRetransmit.msDuration = duration →
      (TimesOutAfter (fun tx now => some (tx.checkTimerPollRetransmit now))
        PollRetransmitTimedOut start duration
        { tx with tPollRetransmit := startTimerPollRetransmit start tx.tPollRetransmit } ↔
          start + duration ≤ clockPeriod)) ∧
    (∀ timer : Timer, timer.running = false → timer.msDuration = duration →
      (TimesOutAfter (fun timer now => some (checkTimerStatusProhibit timer now))
        StatusProhibitTimedOut start duration (startTimerStatusProhibit start timer) ↔
          start + duration ≤ clockPeriod)) ∧
    (∀ rx : Receiver, rx.tReordering.running = false → rx.tReordering.msDuration = duration →
      (TimesOutAfter (fun rx now => some (rx.checkTimerReordering now))
        ReorderingTimedOut start duration
        { rx with tReordering := startTimerReordering start rx.tReordering } ↔
          start + duration ≤ clockPeriod)) ∧
    (∀ rx : RlcUm.Receiver, rx.tReordering.msDuration = duration →
      (TimesOutAfter (fun rx now => rx.checkTimerDarTimeOut now true)
        (fun result => result = (rx.startTimer start).expire (clock start duration))
        start duration (rx.startTimer start) ↔ start + duration ≤ clockPeriod)) := by
  refine ⟨fun tx idle lasts => ?_, fun timer idle lasts => ?_, fun rx idle lasts => ?_,
    fun rx lasts => ?_⟩
  · exact pollRetransmit_timesOut short (startedAt_am short idle lasts)
  · refine statusProhibit_timesOut short ?_ (startedAt_am short idle lasts)
    rw [startTimerStatusProhibit, startTimerReordering]
    split
    · exact lasts
    · exact lasts
  · exact amReordering_timesOut short (startedAt_am short idle lasts)
  · refine umReordering_timesOut short ?_ (startedAt_um short lasts)
    rw [RlcUm.Receiver.startTimer, RlcUm.startTimerReordering]
    split
    · exact lasts
    · exact lasts

/-- t-PollRetransmit of an AM entity and t-Reordering of a UM entity, both 35 ms,
started 35 ms before the wrap. -/
theorem timers_time_out_after_wrap :
    ShorterThanPeriod 10205 35 ∧
    TimesOutAfter (fun tx now => some (tx.checkTimerPollRetransmit now)) PollRetransmitTimedOut
      10205 35
      { Transmitter.init ⟨4, 8, 1024, 35⟩ with
        tPollRetransmit :=
          startTimerPollRetransmit 10205 (initTimerPollRetransmit 35) } ∧
    TimesOutAfter (fun timer now => some (checkTimerStatusProhibit timer now))
      StatusProhibitTimedOut 10205 35
      (startTimerStatusProhibit 10205 (initTimerReordering 35)) ∧
    TimesOutAfter (fun rx now => some (rx.checkTimerReordering now)) ReorderingTimedOut 10205 35
      { Receiver.init 35 with
        tReordering := startTimerReordering 10205 (initTimerReordering 35) } ∧
    TimesOutAfter (fun rx now => rx.checkTimerDarTimeOut now true)
      (fun result =>
        result = ((RlcUm.Receiver.init .five true 35).startTimer 10205).expire (clock 10205 35))
      10205 35 ((RlcUm.Receiver.init .five true 35).startTimer 10205) := by
  have short : ShorterThanPeriod 10205 35 := ⟨by decide, by decide, by decide⟩
  have fits : 10205 + 35 ≤ clockPeriod := by decide
  obtain ⟨poll, prohibit, reordering, um⟩ := timers_time_out_after short
  exact ⟨short, (poll (.init ⟨4, 8, 1024, 35⟩) rfl rfl).mpr fits, (prohibit _ rfl rfl).mpr fits,
    (reordering (.init 35) rfl rfl).mpr fits, (um (.init .five true 35) rfl).mpr fits⟩

/-- Started one millisecond before the wrap, each timer of 35 ms has ended at the
next check. -/
theorem not_timers_time_out_after :
    ((checks (fun tx now => some (tx.checkTimerPollRetransmit now)) 10239
      { Transmitter.init ⟨4, 8, 1024, 35⟩ with
        tPollRetransmit := startTimerPollRetransmit 10239 (initTimerPollRetransmit 35) }
      1).map fun tx => tx.tPollRetransmit.timedOut) = some true ∧
    ((checks (fun timer now => some (checkTimerStatusProhibit timer now)) 10239
      (startTimerStatusProhibit 10239 (initTimerReordering 35)) 1).map
        fun timer => timer.running) = some false ∧
    ((checks (fun rx now => some (rx.checkTimerReordering now)) 10239
      { Receiver.init 35 with
        tReordering := startTimerReordering 10239 (initTimerReordering 35) }
      1).map fun rx => rx.tReordering.timedOut) = some true ∧
    -- PDU 1 arrives at 10239 and starts the timer; a millisecond later PDU 0 is given up.
    ((execute RlcUm.Receiver.step (.init .five true 35)
      [.pdu 10239 [1, 7], .timerCheck (clock 10239 1) true]).map
        fun rx => (rx.vrUr, rx.tReordering.running)) = some (2, false) := by
  decide +kernel

end OpenAir.Rlc
