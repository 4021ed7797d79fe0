import OpenAir.RlcAm.PduSizes
import OpenAir.RlcAm.SegmentedPdu
import OpenAir.RlcAm.TransmissionProperties

/-! The poll bit of new PDUs against the thresholds poll_pdu and poll_byte. A new
PDU is counted twice: `rlc_am_pdu_polling` runs on the PDU that is kept and then on
the copy that is sent, and it is the second run that decides on the copy. -/

set_option autoImplicit false

namespace OpenAir.RlcAm

open OpenAir.Base Option List Transmitter Nat

structure PollCounters where
  pdus : Nat
  bytes : Nat

def PollCounters.count (pollPdu pollByte : Nat) (anyway : Prop) [Decidable anyway] (size : Nat)
    (counters : PollCounters) : Bool × PollCounters :=
  if counters.pdus + 1 ≥ pollPdu ∨ counters.bytes + size ≥ pollByte ∨ anyway then (true, ⟨0, 0⟩)
  else (false, ⟨counters.pdus + 1, counters.bytes + size⟩)

def PollCounters.countTwice (pollPdu pollByte : Nat) (anyway : Prop) [Decidable anyway]
    (size : Nat) (counters : PollCounters) : Bool × PollCounters :=
  (counters.count pollPdu pollByte anyway size).2.count pollPdu pollByte anyway size

def Transmitter.pollCounters (tx : Transmitter) : PollCounters :=
  ⟨tx.cPduWithoutPoll, tx.cByteWithoutPoll⟩

def Transmitter.EmptyOrStalled (tx : Transmitter) : Prop :=
  (tx.sduBufferOccupancy = 0 ∧ tx.retransNumBytesToRetransmit = 0) ∨ tx.vtS = tx.vtMs

instance (tx : Transmitter) : Decidable tx.EmptyOrStalled :=
  inferInstanceAs (Decidable (_ ∨ _))

def pollBit (octets : List UInt8) : Bool := decide ((octetAt octets 0 >>> 5) &&& 0x01 = 1)

private theorem pollBit_setPoll_octet : ∀ octet < 256, ∀ polls : Bool,
    decide (((setPoll polls (UInt8.ofNat octet)).toNat >>> 5) &&& 0x01 = 1) = polls := by
  decide +kernel

theorem pollBit_set {octets : List UInt8} (nonempty : octets ≠ []) (polls : Bool) (octet : UInt8) :
    pollBit (octets.set 0 (setPoll polls octet)) = polls := by
  obtain ⟨first, rest, rfl⟩ := exists_cons_of_ne_nil nonempty
  have bit := pollBit_setPoll_octet octet.toNat octet.toNat_lt polls
  rw [UInt8.ofNat_toNat] at bit
  exact bit

variable {frame sn : Nat} {copy : Option (List UInt8)} {anyway : Prop}

section Counting

variable {tx next : Transmitter} {now size : Nat} {octets : List UInt8}

structure Counts (tx : Transmitter) (octets : List UInt8) (size : Nat)
    (polled : Transmitter × List UInt8) : Prop where
  octets : polled.2 = octets.set 0 (setPoll
    (tx.pollCounters.count tx.pollPdu tx.pollByte tx.EmptyOrStalled size).1 (octets.headD 0))
  counters : polled.1.pollCounters =
    (tx.pollCounters.count tx.pollPdu tx.pollByte tx.EmptyOrStalled size).2
  quiet : polled.1.forcePoll = false

theorem pduPolling_counts (quiet : tx.forcePoll = false) (small : size < 2 ^ 15)
    (pdus : tx.cPduWithoutPoll + 1 < 2 ^ 32) (bytes : tx.cByteWithoutPoll + size < 2 ^ 32) :
    Counts tx octets size (tx.pduPolling now octets size) := by
  have cByte : (((tx.cByteWithoutPoll : Int) + asInt16 size) % 2 ^ 32).toNat =
      tx.cByteWithoutPoll + size := by
    rw [asInt16_natCast small]
    omega
  have polls : (tx.cPduWithoutPoll + 1 ≥ tx.pollPdu ∨ tx.cByteWithoutPoll + size ≥ tx.pollByte ∨
      (tx.sduBufferOccupancy = 0 ∧ tx.retransNumBytesToRetransmit = 0) ∨
      tx.vtS = tx.vtMs ∨ tx.forcePoll) ↔
      (tx.cPduWithoutPoll + 1 ≥ tx.pollPdu ∨ tx.cByteWithoutPoll + size ≥ tx.pollByte ∨
        tx.EmptyOrStalled) := by
    simp [quiet, EmptyOrStalled]
  simp only [pduPolling, mod_eq_of_lt pdus, cByte]
  by_cases fires : tx.cPduWithoutPoll + 1 ≥ tx.pollPdu ∨
      tx.cByteWithoutPoll + size ≥ tx.pollByte ∨ tx.EmptyOrStalled
  · rw [if_pos (polls.mpr fires)]
    have counted : tx.pollCounters.count tx.pollPdu tx.pollByte tx.EmptyOrStalled size =
        (true, ⟨0, 0⟩) := if_pos fires
    refine ⟨?_, ?_, rfl⟩
    · rw [counted]
      rfl
    · rw [counted]
      rfl
  · rw [if_neg (mt polls.mp fires)]
    have counted : tx.pollCounters.count tx.pollPdu tx.pollByte tx.EmptyOrStalled size =
        (false, ⟨tx.cPduWithoutPoll + 1, tx.cByteWithoutPoll + size⟩) := if_neg fires
    refine ⟨?_, ?_, quiet⟩
    · rw [counted]
      rfl
    · rw [counted]
      rfl

theorem count_le (pollPdu pollByte : Nat) (anyway : Prop) [Decidable anyway] (size : Nat)
    (counters : PollCounters) :
    (counters.count pollPdu pollByte anyway size).2.pdus ≤ counters.pdus + 1 ∧
      (counters.count pollPdu pollByte anyway size).2.bytes ≤ counters.bytes + size := by
  unfold PollCounters.count
  split
  · exact ⟨zero_le _, zero_le _⟩
  · exact ⟨le_refl _, le_refl _⟩

structure SendsCounted (tx next : Transmitter) (octets : List UInt8) : Prop where
  vtS : next.vtS = nextSn tx.vtS
  configuration : next.pollPdu = tx.pollPdu ∧ next.pollByte = tx.pollByte
  size : ∃ size : Nat, (next.pduRetransBuffer tx.vtS).payloadSize = size ∧ size < 2 ^ 15 ∧
    pollBit octets =
      (tx.pollCounters.countTwice tx.pollPdu tx.pollByte next.EmptyOrStalled size).1 ∧
    next.pollCounters =
      (tx.pollCounters.countTwice tx.pollPdu tx.pollByte next.EmptyOrStalled size).2

theorem sendsCounted_of_stored {stored : Transmitter} (nonempty : octets ≠ [])
    (vtS : stored.vtS = nextSn tx.vtS)
    (config : stored.pollPdu = tx.pollPdu ∧ stored.pollByte = tx.pollByte)
    (counters : stored.pollCounters =
      (tx.pollCounters.count tx.pollPdu tx.pollByte stored.EmptyOrStalled size).2)
    (quiet : stored.forcePoll = false) (small : size < 2 ^ 15)
    (pdus : tx.cPduWithoutPoll + 2 < 2 ^ 32) (bytes : tx.cByteWithoutPoll < 2 ^ 16)
    (payloadSize : (stored.pduRetransBuffer tx.vtS).payloadSize = size) :
    SendsCounted tx (stored.pduPolling now octets size).1
      (stored.pduPolling now octets size).2 := by
  have most := count_le tx.pollPdu tx.pollByte stored.EmptyOrStalled size tx.pollCounters
  rw [← counters] at most
  simp only [Transmitter.pollCounters] at most
  have second := @pduPolling_counts stored now size octets quiet small (by omega) (by omega)
  have only := pduPolling_onlyPolls stored now octets size
  have state : (stored.pduPolling now octets size).1.EmptyOrStalled = stored.EmptyOrStalled :=
    only.kept Transmitter.EmptyOrStalled
  refine ⟨?_, ⟨?_, ?_⟩, size, ?_, small, ?_, ?_⟩
  · exact (only.kept Transmitter.vtS).trans vtS
  · exact (only.kept Transmitter.pollPdu).trans config.1
  · exact (only.kept Transmitter.pollByte).trans config.2
  · rw [only.kept Transmitter.pduRetransBuffer]
    exact payloadSize
  · rw [second.octets, pollBit_set nonempty, counters, config.1, config.2]
    simp only [PollCounters.countTwice, state]
  · rw [second.counters, counters, config.1, config.2]
    simp only [PollCounters.countTwice, state]

theorem finishPdu_counts {pduSize payload : Nat} {firstIsFirst : Bool} {sdusIndex : List Nat}
    {filling : Filling} (same : tx.OnlySdus filling.tx) (quiet : tx.forcePoll = false)
    (room : filling.payloadSize + filling.pduRemainingSize + 2 ≤ pduSize)
    (pdus : tx.cPduWithoutPoll + 2 < 2 ^ 32) (bytes : tx.cByteWithoutPoll < 2 ^ 16)
    (sent : tx.finishPdu now pduSize payload firstIsFirst sdusIndex filling = some (next, copy)) :
    ∃ octets, copy = some octets ∧ SendsCounted tx next octets := by
  simp only [Transmitter.finishPdu, ite_none_right_eq_some] at sent
  obtain ⟨short, copied⟩ := sent
  have small : filling.payloadSize < 2 ^ 15 := by
    unfold rlcSduMaxSize at short
    omega
  have counters : filling.tx.pollCounters = tx.pollCounters :=
    same.kept Transmitter.pollCounters
  have cPdu : filling.tx.cPduWithoutPoll = tx.cPduWithoutPoll := congrArg PollCounters.pdus counters
  have cByte : filling.tx.cByteWithoutPoll = tx.cByteWithoutPoll :=
    congrArg PollCounters.bytes counters
  have pollPdu : filling.tx.pollPdu = tx.pollPdu := same.kept Transmitter.pollPdu
  have pollByte : filling.tx.pollByte = tx.pollByte := same.kept Transmitter.pollByte
  have force : filling.tx.forcePoll = false :=
    (same.kept Transmitter.forcePoll).trans quiet
  generalize block : load _ 0 _ = kept at copied
  have filled : kept ≠ [] := by
    rw [← block, ← length_pos_iff, length_load]
    omega
  have first := @pduPolling_counts { filling.tx with vtS := nextSn tx.vtS } now
    filling.payloadSize kept force small (by dsimp only; omega) (by dsimp only; omega)
  have only := pduPolling_onlyPolls { filling.tx with vtS := nextSn tx.vtS } now kept
    filling.payloadSize
  generalize Transmitter.pduPolling { filling.tx with vtS := nextSn tx.vtS } now kept
    filling.payloadSize = polled at copied first only
  simp only [Transmitter.retransmitGetCopy, Transmitter.setPdu, Function.update_self,
    Option.some.injEq, Prod.mk.injEq] at copied
  obtain ⟨rfl, rfl⟩ := copied
  have written : polled.2 ≠ [] := by
    rw [first.octets, ← length_pos_iff, length_set]
    exact length_pos_iff.mpr filled
  refine ⟨_, rfl, sendsCounted_of_stored written ?_ ⟨?_, ?_⟩ ?_ first.quiet small pdus bytes
    ?_⟩
  · exact only.kept Transmitter.vtS
  · exact (only.kept Transmitter.pollPdu).trans pollPdu
  · exact (only.kept Transmitter.pollByte).trans pollByte
  · have state : polled.1.EmptyOrStalled =
        Transmitter.EmptyOrStalled { filling.tx with vtS := nextSn tx.vtS } :=
      only.kept Transmitter.EmptyOrStalled
    have counted : polled.1.pollCounters = (PollCounters.count tx.pollPdu tx.pollByte
        polled.1.EmptyOrStalled filling.payloadSize tx.pollCounters).2 := by
      simp only [state, ← counters, ← pollPdu, ← pollByte]
      exact first.counters
    exact counted
  · dsimp only
    rw [Function.update_self]

theorem segment10_counts {block : Nat → UInt8} {requested : Nat} (quiet : tx.forcePoll = false)
    (pdus : tx.cPduWithoutPoll + 2 < 2 ^ 32) (bytes : tx.cByteWithoutPoll < 2 ^ 16)
    (sent : tx.segment10 now requested block = some (next, copy)) :
    (next = tx ∧ copy = none) ∨
      ∃ octets, copy = some octets ∧ SendsCounted tx next octets := by
  simp only [segment10] at sent
  split at sent
  · cases sent
    exact .inl ⟨rfl, rfl⟩
  · split at sent
    · cases sent
    · obtain ⟨packing, planned, finished⟩ := bind_eq_some_iff.mp sent
      obtain ⟨same, left, -⟩ := testFill_movesSdus planned
      refine .inr (finishPdu_counts (fill_movesSdus same).only quiet ?_ pdus bytes finished)
      have filled := @fill_payloadSize_le (packing.numLi - packing.numLiToSubstract)
        rlcAmMaxSduInPdu
        { tx := packing.tx
          memory := store block 0 [0, 0, 0, 0]
          data := rlcAmHeaderMinSize + ((packing.numLi - packing.numLiToSubstract) * 3 + 1) / 2
          eLi := rlcAmHeaderMinSize
          liLength := 1
          fillNumLi := 0
          pduRemainingSize := packing.pduRemainingSize - packing.sizeToSubstract
          payloadSize := 0
          lastByteIsLastOfSdu := false }
      unfold rlcAmHeaderMinSize at *
      dsimp only at left filled ⊢
      omega

end Counting

/-! Histories of new PDUs. -/

/-- A new PDU as it is handed to MAC: its poll bit, its payload and whether it is to
have a poll for another reason than the thresholds. -/
structure SentPdu where
  poll : Bool
  payloadSize : Nat
  pollsAnyway : Bool
  deriving DecidableEq, Repr

def SentPdu.of (tx next : Transmitter) (octets : List UInt8) : SentPdu :=
  { poll := pollBit octets
    payloadSize := (next.pduRetransBuffer tx.vtS).payloadSize.toNat
    pollsAnyway := tx.forcePoll || decide next.EmptyOrStalled }

/-- New PDUs handed over since the last one with a poll, of a list with the latest
PDU first. -/
def pdusSincePoll : List SentPdu → Nat
  | [] => 0
  | pdu :: earlier => if pdu.poll then 0 else pdusSincePoll earlier + 1

def bytesSincePoll : List SentPdu → Nat
  | [] => 0
  | pdu :: earlier => if pdu.poll then 0 else bytesSincePoll earlier + pdu.payloadSize

def SentPdu.Reaches (pollPdu pollByte : Nat) (pdu : SentPdu) (earlier : List SentPdu) : Prop :=
  pollPdu ≤ pdusSincePoll earlier + 1 ∨ pollByte ≤ bytesSincePoll earlier + pdu.payloadSize

/-- Each PDU has a poll if it reaches a threshold, and has none before a threshold
is reached unless there is another reason. -/
def PollsAtThresholds (pollPdu pollByte : Nat) : List SentPdu → Prop
  | [] => True
  | pdu :: earlier =>
    (pdu.Reaches pollPdu pollByte earlier → pdu.poll) ∧
    (pdu.poll → pdu.Reaches pollPdu pollByte earlier ∨ pdu.pollsAnyway) ∧
    PollsAtThresholds pollPdu pollByte earlier

structure PollHistory where
  tx : Transmitter
  sent : List SentPdu

def PollHistory.step (history : PollHistory) : EntityInput → Option PollHistory
  | .getPdus now frame requested block =>
    (history.tx.getPdus now frame requested block).map fun (next, pdus) =>
      { tx := next
        sent :=
          if next.vtS ≠ history.tx.vtS then pdus.map (SentPdu.of history.tx next) ++ history.sent
          else history.sent }
  | input => (history.tx.step input).map fun next => { history with tx := next }

/-! With a threshold of 2k+1 PDUs the first count of PDU k+1 finds it reached and
starts anew; the second count of PDU 2k+1 is the next to do so. -/

def countedPdus (half since : Nat) : Nat :=
  if since ≤ half then 2 * since else 2 * (since - half) - 1

theorem countTwice_fires {pollPdu pollByte size : Nat} [Decidable anyway]
    (fires : pollByte ≤ size ∨ anyway) (counters : PollCounters) :
    counters.countTwice pollPdu pollByte anyway size = (true, ⟨0, 0⟩) :=
  if_pos (.inr (fires.imp_left (·.trans (Nat.le_add_left _ _))))

/-- Below the threshold for octets, the PDU that reaches the other one is the only one to
get a poll, if that is odd or out of reach of the double count. -/
theorem countTwice_below {half since pollPdu pollByte size : Nat} [Decidable anyway]
    (not_anyway : ¬ anyway) {counters : PollCounters}
    (parity : pollPdu = 2 * half + 1 ∨ pollPdu = 2 * half ∧ 2 * (since + 1) < pollPdu)
    (pdus : counters.pdus = countedPdus half since) (within : since < pollPdu)
    (few : counters.bytes + 2 * size < pollByte) :
    let counted := counters.countTwice pollPdu pollByte anyway size
    (counted.1 = true ↔ since + 1 = pollPdu) ∧
      (since + 1 = pollPdu → counted.2 = ⟨0, 0⟩) ∧
      (since + 1 < pollPdu → counted.2.pdus = countedPdus half (since + 1) ∧
        counted.2.bytes ≤ counters.bytes + 2 * size) := by
  have count : ∀ {counters : PollCounters}, counters.bytes + size < pollByte →
      counters.count pollPdu pollByte anyway size = if counters.pdus + 1 ≥ pollPdu then
        (true, ⟨0, 0⟩) else (false, ⟨counters.pdus + 1, counters.bytes + size⟩) := by
    intro counters below
    simp only [PollCounters.count, not_anyway, or_false, not_le.mpr below]
  unfold countedPdus at *
  simp only [PollCounters.countTwice]
  rw [@count counters (by omega)]
  split
  next first =>
    split <;> grind
  next going =>
    split <;> grind

/-! Calls that count nothing. -/

def Transmitter.pollState (tx : Transmitter) : Nat × Nat × PollCounters :=
  (tx.pollPdu, tx.pollByte, tx.pollCounters)

theorem stopPoll_pollState (tx : Transmitter) (cursor : Nat) :
    (tx.stopPoll cursor).pollState = tx.pollState := by
  rw [stopPoll]
  split
  · rfl
  · rfl

variable {tx next : Transmitter}

theorem ackPdu_pollState (done : tx.ackPdu sn = some next) : next.pollState = tx.pollState := by
  rcases ackPdu_spec done with ⟨-, -, settled, folded, window⟩ | ⟨-, window⟩
  · rw [window.kept pollState,
      (settleSdus_movesSdus folded).kept pollState]
    rfl
  · exact window.kept pollState

theorem nackPdu_pollState {soStart soStop : Int}
    (done : tx.nackPdu frame sn soStart soStop = some next) : next.pollState = tx.pollState := by
  by_cases held : (tx.pduRetransBuffer sn).memBlock.isSome
  · obtain ⟨pdu, -, sdus, -⟩ := nackPdu_spec held done
    rw [sdus.kept pollState]
    rfl
  · rw [nackPdu_free held done]

theorem receiveProcessControlPdu_pollState {info : ControlPduInfo}
    (done : tx.receiveProcessControlPdu frame info = some next) :
    next.pollState = tx.pollState := by
  refine @execute_preserves _ _ _ (fun state => state.pollState = tx.pollState) ?_ _ _ _ rfl
    (receiveProcessControlPdu_reports done)
  intro state report other same reported
  rw [← same]
  cases report with
  | ack sn => exact (ackPdu_pollState reported).trans (stopPoll_pollState state sn)
  | nack sn soStart soEnd => exact (nackPdu_pollState reported).trans (stopPoll_pollState state sn)

theorem checkTimerPollRetransmit_pollState (tx : Transmitter) (now : Nat) :
    (tx.checkTimerPollRetransmit now).pollState = tx.pollState := by
  rw [checkTimerPollRetransmit]
  split
  · rfl
  · rfl

/-! Runs. -/

/-- A new PDU that is to have a poll for another reason, or whose payload alone reaches
poll_byte, or that leaves twice the octets since the last poll below poll_byte; then
poll_pdu is odd, or twice the PDUs since the last poll are below it. -/
def SentPdu.Countable (pollPdu pollByte : Nat) (pdu : SentPdu) (earlier : List SentPdu) : Prop :=
  pdu.pollsAnyway ∨ pollByte ≤ pdu.payloadSize ∨
    2 * (bytesSincePoll earlier + pdu.payloadSize) < pollByte ∧
      (pollPdu % 2 = 1 ∨ 2 * (pdusSincePoll earlier + 1) < pollPdu)

/-- A grant for new PDUs only, which can be counted twice: no PDU waits to be sent again,
and t-PollRetransmit has not expired and forces no poll. -/
def PollHistory.Keeps (history : PollHistory) : EntityInput → Prop
  | .getPdus now frame requested block =>
    history.tx.firstRetransPduSn < 0 ∧ history.tx.forcePoll = false ∧
      history.tx.tPollRetransmit.timedOut = false ∧
      ∀ result ∈ history.tx.getPdus now frame requested block, ∀ octets ∈ result.2,
        (SentPdu.of history.tx result.1 octets).Countable history.tx.pollPdu history.tx.pollByte
          history.sent
  | _ => True

instance {pollPdu pollByte : Nat} {pdu : SentPdu} {earlier : List SentPdu} :
    Decidable (pdu.Countable pollPdu pollByte earlier) :=
  inferInstanceAs (Decidable (_ ∨ _))

instance (history : PollHistory) (input : EntityInput) : Decidable (history.Keeps input) := by
  cases input <;> unfold PollHistory.Keeps <;> infer_instance

structure PollHistory.Counted (config : TxConfiguration) (history : PollHistory) :
    Prop where
  pollPdu : history.tx.pollPdu = config.pollPdu
  pollByte : history.tx.pollByte = config.pollByte
  pdus : history.tx.cPduWithoutPoll =
    countedPdus (config.pollPdu / 2) (pdusSincePoll history.sent)
  since : pdusSincePoll history.sent < config.pollPdu
  bytes : history.tx.cByteWithoutPoll ≤ 2 * bytesSincePoll history.sent
  small : history.tx.cByteWithoutPoll < 2 ^ 16
  polls : PollsAtThresholds config.pollPdu config.pollByte history.sent

theorem PollHistory.Counted.same {config : TxConfiguration} {history : PollHistory}
    (counted : history.Counted config) (state : next.pollState = history.tx.pollState) :
    PollHistory.Counted config { history with tx := next } := by
  simp only [pollState, pollCounters, Prod.mk.injEq, PollCounters.mk.injEq] at state
  obtain ⟨pollPdu, pollByte, pdus, bytes⟩ := state
  exact ⟨pollPdu.trans counted.pollPdu, pollByte.trans counted.pollByte, pdus.trans counted.pdus,
    counted.since, bytes.trans_le counted.bytes, bytes.trans_lt counted.small, counted.polls⟩

section Steps

variable {config : TxConfiguration} {history : PollHistory}
  (counted : history.Counted config) (pollByte : config.pollByte < 2 ^ 16)

include counted pollByte

theorem PollHistory.Counted.send {next : Transmitter} {octets : List UInt8}
    (quiet : history.tx.forcePoll = false)
    (countable : (SentPdu.of history.tx next octets).Countable history.tx.pollPdu
      history.tx.pollByte history.sent)
    (sends : SendsCounted history.tx next octets) :
    PollHistory.Counted config
      ⟨next, SentPdu.of history.tx next octets :: history.sent⟩ := by
  obtain ⟨size, payload, -, bit, counters⟩ := sends.size
  rw [counted.pollPdu, counted.pollByte] at bit counters countable
  have samePdu := sends.configuration.1.trans counted.pollPdu
  have sameByte := sends.configuration.2.trans counted.pollByte
  have since := counted.since
  have bytes := counted.bytes
  have sizeOf : (SentPdu.of history.tx next octets).payloadSize = size := by
    simp [SentPdu.of, payload]
  have anyway : (SentPdu.of history.tx next octets).pollsAnyway = decide next.EmptyOrStalled := by
    simp [SentPdu.of, quiet]
  have poll : (SentPdu.of history.tx next octets).poll = pollBit octets := rfl
  generalize SentPdu.of history.tx next octets = pdu at sizeOf anyway poll countable ⊢
  have cPdu : next.cPduWithoutPoll = next.pollCounters.pdus := rfl
  have cByte : next.cByteWithoutPoll = next.pollCounters.bytes := rfl
  -- a poll starts the counts anew
  have restarts : pdu.poll → next.pollCounters = ⟨0, 0⟩ →
      PollsAtThresholds config.pollPdu config.pollByte (pdu :: history.sent) →
      PollHistory.Counted config ⟨next, pdu :: history.sent⟩ := by
    intro polled zero polls
    have none : pdusSincePoll (pdu :: history.sent) = 0 := if_pos polled
    rw [zero] at cPdu cByte
    exact ⟨samePdu, sameByte, by rw [cPdu, none]; rfl, none.trans_lt (by omega),
      cByte.trans_le (zero_le _), cByte.trans_lt (by decide), polls⟩
  by_cases fires : config.pollByte ≤ size ∨ next.EmptyOrStalled
  · rw [countTwice_fires fires] at bit counters
    have polled : pdu.poll := poll.trans bit
    refine restarts polled counters ⟨fun _ => polled, fun _ => ?_, counted.polls⟩
    rcases fires with large | state
    · exact .inl (.inr (by omega))
    · exact .inr (anyway.trans (decide_eq_true state))
  · obtain ⟨small, state⟩ := not_or.mp fires
    obtain ⟨few, parity⟩ := (countable.resolve_left (by simpa [anyway] using state)).resolve_left
      (by rwa [sizeOf])
    have before : history.tx.pollCounters.bytes = history.tx.cByteWithoutPoll := rfl
    obtain ⟨decided, restart, goes⟩ := countTwice_below state
      (by omega : config.pollPdu = 2 * (config.pollPdu / 2) + 1 ∨ _) counted.pdus
      since (by omega : history.tx.pollCounters.bytes + 2 * size < config.pollByte)
    rw [← bit, ← poll] at decided
    rw [← counters] at restart goes
    have reaches : pdu.Reaches config.pollPdu config.pollByte history.sent ↔
        pdusSincePoll history.sent + 1 = config.pollPdu := by
      unfold SentPdu.Reaches
      omega
    have polls : PollsAtThresholds config.pollPdu config.pollByte
        (pdu :: history.sent) :=
      ⟨fun reached => decided.mpr (reaches.mp reached),
        fun polled => .inl (reaches.mpr (decided.mp polled)), counted.polls⟩
    by_cases last : pdusSincePoll history.sent + 1 = config.pollPdu
    · exact restarts (decided.mpr last) (restart last) polls
    · have notPolled : ¬ pdu.poll := mt decided.mp last
      have more : pdusSincePoll (pdu :: history.sent) = pdusSincePoll history.sent + 1 :=
        if_neg notPolled
      have octetsMore : bytesSincePoll (pdu :: history.sent) =
          bytesSincePoll history.sent + pdu.payloadSize := if_neg notPolled
      obtain ⟨nextPdus, nextBytes⟩ := goes (by omega)
      refine ⟨samePdu, sameByte, ?_, more.trans_lt (by omega), ?_, ?_, polls⟩
      · rw [cPdu, nextPdus, more]
      · dsimp only
        omega
      · dsimp only
        omega

theorem PollHistory.Counted.step {next : PollHistory} {input : EntityInput}
    (pollPdu : config.pollPdu < 2 ^ 16)
    (keeps : history.Keeps input) (stepped : history.step input = some next) :
    next.Counted config := by
  cases input with
  | dataReq mui octets =>
    cases stepped
    exact counted.same ((dataReq_movesSdus history.tx mui octets).kept pollState)
  | statusPdu frame info =>
    obtain ⟨tx, processed, rfl⟩ := map_eq_some_iff.mp stepped
    exact counted.same (receiveProcessControlPdu_pollState processed)
  | pollTimer now =>
    cases stepped
    exact counted.same (checkTimerPollRetransmit_pollState history.tx now)
  | getPdus now frame requested block =>
    obtain ⟨fresh, quiet, waits, countable⟩ := keeps
    obtain ⟨⟨tx, pdus⟩, sent, rfl⟩ := map_eq_some_iff.mp stepped
    have pdusBound : history.tx.cPduWithoutPoll + 2 < 2 ^ 32 := by
      have since := counted.since
      rw [counted.pdus, countedPdus]
      split <;> omega
    rcases getPdus_cases sent with ⟨resends, -⟩ | ⟨-, -, -, -, copy, made, rfl⟩ |
      ⟨-, -, -, expired, -⟩ | ⟨-, -, rfl, rfl⟩
    · exact absurd resends.1 (Int.not_le.mpr fresh)
    · rcases segment10_counts quiet pdusBound counted.small made with ⟨rfl, rfl⟩ |
        ⟨octets, rfl, sends⟩
      · simpa using counted
      · have moved : tx.vtS ≠ history.tx.vtS := sends.vtS ▸ nextSn_ne _
        have result := counted.send pollByte quiet
          (countable _ sent octets (mem_toList.mpr rfl)) sends
        simpa [moved] using result
    · rw [waits] at expired
      cases expired
    · simpa using counted

end Steps

/-- The poll bits of all new PDUs are set as the thresholds ask for, if the PDUs can be
counted twice. -/
theorem new_pdus_poll_at_thresholds {config : TxConfiguration}
    (least : 1 ≤ config.pollPdu) (pollPdu : config.pollPdu < 2 ^ 16)
    (pollByte : config.pollByte < 2 ^ 16) {inputs : List EntityInput} {final : PollHistory}
    (along : HoldsAlong PollHistory.step PollHistory.Keeps ⟨.init config, []⟩ inputs)
    (reached : execute PollHistory.step ⟨.init config, []⟩ inputs = some final) :
    PollsAtThresholds config.pollPdu config.pollByte final.sent := by
  have initial : PollHistory.Counted config ⟨.init config, []⟩ :=
    ⟨rfl, rfl, (if_pos (zero_le _)).symm, least, zero_le _, Nat.two_pow_pos 16, trivial⟩
  exact (execute_preserves_along
    (fun _ _ _ counted keeps stepped => counted.step pollByte pollPdu keeps stepped)
    initial along reached).polls

def emptyingInputs : List EntityInput :=
  .dataReq 1 (replicate 24 7) :: replicate 3 (.getPdus 0 0 10 fun _ => 0) ++
    [.dataReq 2 (replicate 70 7), .getPdus 1 0 62 fun _ => 0]

/-- With poll_pdu 8 and poll_byte 60, the third PDU of eight octets empties the buffer and
polls, and so does a PDU of sixty octets that is part of an SDU. -/
theorem new_pdus_poll_at_thresholds_eight :
    ∃ final, execute PollHistory.step ⟨.init ⟨4, 8, 60, 50⟩, []⟩ emptyingInputs = some final ∧
      final.sent.map SentPdu.poll = [true, true, false, false] ∧
      PollsAtThresholds 8 60 final.sent := by
  have runs : (execute PollHistory.step ⟨.init ⟨4, 8, 60, 50⟩, []⟩ emptyingInputs).isSome := by
    decide +kernel
  have along : HoldsAlong PollHistory.step PollHistory.Keeps ⟨.init ⟨4, 8, 60, 50⟩, []⟩
      emptyingInputs := by decide +kernel
  obtain ⟨final, reached⟩ := Option.isSome_iff_exists.mp runs
  have polls := new_pdus_poll_at_thresholds (by decide) (by decide) (by decide) along reached
  have bits : (execute PollHistory.step ⟨.init ⟨4, 8, 60, 50⟩, []⟩ emptyingInputs).map
      (·.sent.map SentPdu.poll) = some [true, true, false, false] := by decide +kernel
  rw [reached] at bits
  exact ⟨final, reached, Option.some.inj bits, polls⟩

/-- With poll_pdu 2 the first PDU polls. With poll_byte 10 a PDU of four and one of
nine octets leave without a poll. -/
theorem not_new_pdus_poll_at_thresholds :
    (∃ final, execute PollHistory.step ⟨.init ⟨4, 2, 1000, 50⟩, []⟩
        [.dataReq 1 (replicate 40 7), .getPdus 0 0 10 fun _ => 0] = some final ∧
      final.sent = [⟨true, 8, false⟩]) ∧
    (∃ final, execute PollHistory.step ⟨.init ⟨4, 100, 10, 50⟩, []⟩
        [.dataReq 1 (replicate 40 7), .getPdus 0 0 6 fun _ => 0,
          .getPdus 1 0 11 fun _ => 0] = some final ∧
      final.sent = [⟨false, 9, false⟩, ⟨false, 4, false⟩]) := by
  constructor
  · decide +kernel
  · decide +kernel

end OpenAir.RlcAm
