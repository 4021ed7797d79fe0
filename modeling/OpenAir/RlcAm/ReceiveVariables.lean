import OpenAir.RlcAm.ReceiveWindow

/-! VR(MS) against the content of the receiver buffer. The walk that updates it does
not compare consecutive numbers, so it is exact only if no number is skipped. -/

set_option autoImplicit false

namespace OpenAir.RlcAm

open List Receiver Nat

structure Receiver.TracksVrMs (rx : Receiver) : Prop where
  bounded : rx.vrMs < rlcAmSnModulo
  missing : ¬ ReceivedCompletely rx.receiverBuffer rx.vrMs
  low : shiftedSn rx.vrR rx.vrMs ≤ shiftedSn rx.vrR rx.vrH

/-- The first number behind VR(MS) that is not completely received is partly
stored, or nothing behind it is stored. -/
def Receiver.NoSkippedGap (rx : Receiver) : Prop :=
  ∀ sn, LowestMissing rx.receiverBuffer (nextSn rx.vrMs) sn →
    (∃ pdu ∈ rx.receiverBuffer, pdu.info.sn = sn) ∨
      ∀ pdu ∈ rx.receiverBuffer,
        shiftedSn rx.vrR pdu.info.sn ≤ shiftedSn rx.vrR sn

structure WalkEnd (base : Nat) (tb : RxPdu) (rest : List RxPdu) (vrMs : Nat) : Prop where
  bounded : vrMs < rlcAmSnModulo
  forward : shiftedSn base tb.info.sn ≤ shiftedSn base vrMs
  passed : ∀ pdu ∈ tb :: rest, shiftedSn base pdu.info.sn < shiftedSn base vrMs →
    pdu.allSegmentsReceived
  stopped : ¬ Flagged (tb :: rest) vrMs
  stands : (∃ stop ∈ tb :: rest, stop.allSegmentsReceived = false ∧ vrMs = stop.info.sn) ∨
    ∃ last ∈ tb :: rest, last.allSegmentsReceived ∧ vrMs = nextSn last.info.sn ∧
      shiftedSn base vrMs = shiftedSn base last.info.sn + 1

theorem WalkOrder.rxUpdateVrMs_end {base : Nat} (edge : base < rlcAmSnModulo) {tb : RxPdu}
    {rest : List RxPdu} (walkOrder : WalkOrder base (tb :: rest)) :
    WalkEnd base tb rest (rxUpdateVrMs tb rest) := by
  have forward : ∀ pdu ∈ tb :: rest, shiftedSn base tb.info.sn ≤ shiftedSn base pdu.info.sn := by
    intro pdu mem
    rcases mem_cons.mp mem with rfl | later
    · exact le_rfl
    · exact (pairwise_cons.mp walkOrder.sorted).1 pdu later
  rcases rxUpdateVrMs_stops tb rest with
    ⟨front, stop, back, split, passed, unset, reached⟩ | ⟨all, last, isLast, reached⟩
  · have mem : stop ∈ tb :: rest := by simp [split]
    rw [reached]
    refine ⟨walkOrder.bounded stop mem, forward stop mem, ?_, ?_,
      .inl ⟨stop, mem, unset, rfl⟩⟩
    · intro pdu found nearer
      have sorted := walkOrder.sorted
      rw [split] at found sorted
      rcases mem_append.mp found with earlier | here
      · exact passed pdu earlier
      · have notNearer : shiftedSn base stop.info.sn ≤ shiftedSn base pdu.info.sn := by
          rcases mem_cons.mp here with rfl | later
          · exact le_rfl
          · exact (pairwise_cons.mp (pairwise_append.mp sorted).2.1).1 pdu later
        omega
    · rintro ⟨pdu, found, same, set⟩
      exact Bool.false_ne_true (unset.symm.trans
        ((walkOrder.alike stop mem pdu found same.symm).trans set))
  · have mem := mem_of_getLast? isLast
    have step := shiftedSn_nextSn edge (walkOrder.near last mem)
    rw [reached]
    refine ⟨mod_lt _ (by decide), step ▸ le_succ_of_le (forward last mem),
      fun pdu found _ => all pdu found, ?_, .inr ⟨last, mem, all last mem, rfl, step⟩⟩
    rintro ⟨pdu, found, same, _⟩
    obtain ⟨front, split⟩ := getLast?_eq_some_iff.mp isLast
    have sorted := walkOrder.sorted
    rw [split] at found sorted
    have notBehind : shiftedSn base pdu.info.sn ≤ shiftedSn base last.info.sn := by
      rcases mem_append.mp found with earlier | only
      · exact (pairwise_append.mp sorted).2.2 pdu earlier last (mem_singleton_self _)
      · rw [mem_singleton.mp only]
    rw [same] at notBehind
    omega

namespace Receiver.Arrival

variable {rx : Receiver} {info : PduInfo} {before after : List RxPdu}

variable (arrival : rx.Arrival info before after)

include arrival

/-- VR(MS) when the PDU it names is complete: the end of the walk from it. -/
theorem walkEnd :
    let complete := groupReceived (before ++ ⟨info, false⟩ :: after) info
    let tb := markIf complete info.sn ⟨info, false⟩
    let later := after.map (markIf complete info.sn)
    WalkEnd rx.vrR tb later (rxUpdateVrMs tb later) ∧
      (∀ pdu ∈ tb :: later, pdu ∈ checkedContent before after info) ∧
      ∀ pdu ∈ checkedContent before after info,
        shiftedSn rx.vrR info.sn < shiftedSn rx.vrR pdu.info.sn → pdu ∈ tb :: later := by
  intro complete tb later
  have split : checkedContent before after info =
      before.map (markIf complete info.sn) ++ (tb :: later) := by
    rw [checkedContent, map_append, map_cons]
  have orderly := arrival.orderly
  rw [split] at orderly
  refine ⟨orderly.walkOrder.rxUpdateVrMs_end arrival.regular.inOrder.edge, ?_, ?_⟩
  · rw [split]
    exact fun pdu mem => mem_append_right _ mem
  · intro pdu mem ahead
    rw [split] at mem
    rcases mem_append.mp mem with earlier | rest
    · have precedes := (pairwise_append.mp orderly.ordered).2.2 pdu earlier tb
        mem_cons_self
      have notAhead := precedes.le
      rw [markIf_info] at notAhead
      exact absurd ahead (not_lt.mpr notAhead)
    · exact rest

theorem passed_received (atVrMs : info.sn = rx.vrMs) (gapFree : rx.NoSkippedGap)
    (complete : groupReceived (before ++ ⟨info, false⟩ :: after) info) {vrMs : Nat}
    (walked : WalkEnd rx.vrR (markIf true info.sn ⟨info, false⟩)
      (after.map (markIf true info.sn)) vrMs) {index : Nat}
    (passed : shiftedSn rx.vrR rx.vrMs + index < shiftedSn rx.vrR vrMs) :
    ReceivedCompletely (before ++ ⟨info, false⟩ :: after) (snAt rx.vrMs index) := by
  have edge := arrival.regular.inOrder.edge
  have bounded : rx.vrMs < rlcAmSnModulo := atVrMs ▸ arrival.stored.reach.snBound
  have facts := arrival.walkEnd
  simp only [complete] at facts
  obtain ⟨_, within, behind⟩ := facts
  have ends := shiftedSn_lt rx.vrR vrMs
  have distance : ∀ index, shiftedSn rx.vrR rx.vrMs + index < rlcAmSnModulo →
      shiftedSn rx.vrR (snAt rx.vrMs index) =
        shiftedSn rx.vrR rx.vrMs + index := by
    intro index small
    have same : snAt rx.vrMs index =
        snAt rx.vrR (shiftedSn rx.vrR rx.vrMs + index) := by
      rw [← snAt_snAt, snAt_shiftedSn edge bounded]
    rw [same, shiftedSn_snAt edge small]
  induction index using Nat.strong_induction_on with
  | _ index ih =>
    have reached := distance index (by omega)
    by_contra missing
    cases index with
    | zero =>
      rw [snAt_zero bounded, ← atVrMs, ← arrival.received_iff, arrival.flagged_info_iff] at missing
      exact missing complete
    | succ index =>
      have other : ∀ earlier, earlier ≤ index →
          info.sn ≠ snAt rx.vrMs (earlier + 1) := by
        intro earlier notLater same
        have := distance (earlier + 1) (by omega)
        rw [← same, atVrMs] at this
        omega
      have lowest : LowestMissing rx.receiverBuffer (nextSn rx.vrMs)
          (snAt rx.vrMs (index + 1)) := by
        have next : nextSn rx.vrMs = snAt rx.vrMs 1 := rfl
        refine ⟨index, ?_, ?_, ?_⟩
        · rw [next, snAt_snAt, Nat.add_comm]
        · intro earlier lower
          rw [next, snAt_snAt, Nat.add_comm, ← arrival.received_other (other earlier (by omega))]
          exact ih (earlier + 1) (by omega) (by omega)
        · rw [← arrival.received_other (other index le_rfl)]
          exact missing
      -- An element behind the arrived PDU stands at or behind the missing number.
      have stored : ∀ pdu ∈ checkedContent before after info,
          shiftedSn rx.vrR rx.vrMs < shiftedSn rx.vrR pdu.info.sn →
          ∃ old ∈ rx.receiverBuffer, old.info = pdu.info := by
        intro pdu mem ahead
        rcases info_cases mem with new | old
        · rw [new, atVrMs] at ahead
          exact absurd ahead (lt_irrefl _)
        · rw [arrival.split]
          exact old
      have notStored : ∀ pdu ∈ checkedContent before after info,
          pdu.info.sn ≠ snAt rx.vrMs (index + 1) := by
        intro pdu mem same
        have ahead : shiftedSn rx.vrR info.sn < shiftedSn rx.vrR pdu.info.sn := by
          rw [same, atVrMs]
          omega
        have set := walked.passed pdu (behind pdu mem ahead) (by rw [same]; omega)
        exact missing (arrival.received_iff.mp ⟨pdu, mem, same, set⟩)
      rcases gapFree _ lowest with ⟨pdu, mem, same⟩ | nothing
      · rw [arrival.split] at mem
        refine notStored (markIf _ _ pdu) (List.mem_map_of_mem ?_) (by rw [markIf_info]; exact same)
        simp only [mem_append, mem_cons] at mem ⊢
        tauto
      · rcases walked.stands with ⟨stop, mem, _, at_⟩ | ⟨last, mem, _, _, step⟩
        · obtain ⟨old, oldMember, same⟩ := stored stop (within stop mem) (by rw [← at_]; omega)
          have := nothing old oldMember
          rw [same, ← at_] at this
          omega
        · obtain ⟨old, oldMember, same⟩ := stored last (within last mem) (by omega)
          have far := nothing old oldMember
          rw [same] at far
          refine notStored last (within last mem) ?_
          refine shiftedSn_injective edge (arrival.orderly.reach last (within last mem)).snBound
            (snAt_lt _ _) ?_
          omega

theorem vrMs_exact (tracks : rx.TracksVrMs)
    (gapFree : info.sn = rx.vrMs → rx.NoSkippedGap) :
    LowestMissing (before ++ ⟨info, false⟩ :: after) rx.vrMs
        (rx.placed info before after).vrMs ∧
      (rx.placed info before after).vrMs < rlcAmSnModulo ∧
      shiftedSn rx.vrR (rx.placed info before after).vrMs ≤
        shiftedSn rx.vrR (rx.placed info before after).vrH := by
  have edge := arrival.regular.inOrder.edge
  have tops := arrival.tops
  have vrMs : (rx.placed info before after).vrMs =
      if info.sn = rx.vrMs ∧ groupReceived (before ++ ⟨info, false⟩ :: after) info = true then
        rxUpdateVrMs
          (markIf (groupReceived (before ++ ⟨info, false⟩ :: after) info) info.sn ⟨info, false⟩)
          (after.map (markIf (groupReceived (before ++ ⟨info, false⟩ :: after) info) info.sn))
      else rx.vrMs := by
    rw [placed_eq arrival.stored.ordered]
  rw [vrMs]
  by_cases completes : info.sn = rx.vrMs ∧
      groupReceived (before ++ ⟨info, false⟩ :: after) info
  · rw [if_pos completes]
    obtain ⟨atVrMs, complete⟩ := completes
    have facts := arrival.walkEnd
    simp only [complete] at facts ⊢
    obtain ⟨walked, within, behind⟩ := facts
    generalize rxUpdateVrMs (markIf true info.sn ⟨info, false⟩)
      (after.map (markIf true info.sn)) = reached at walked ⊢
    have forward := walked.forward
    rw [markIf_info] at forward
    dsimp only at forward
    have beyond : shiftedSn rx.vrR info.sn ≠ shiftedSn rx.vrR reached := by
      intro same
      refine walked.stopped ⟨_, mem_cons_self, ?_, by simp [markIf_flagged]⟩
      rw [markIf_info]
      exact shiftedSn_injective edge arrival.stored.reach.snBound walked.bounded same
    refine ⟨⟨shiftedSn rx.vrR reached - shiftedSn rx.vrR rx.vrMs, ?_, ?_, ?_⟩,
      walked.bounded, ?_⟩
    · rw [atVrMs] at forward
      have same : snAt rx.vrR (shiftedSn rx.vrR rx.vrMs) = rx.vrMs :=
        snAt_shiftedSn edge tracks.bounded
      rw [← same, snAt_snAt, same, Nat.add_sub_cancel' forward, snAt_shiftedSn edge walked.bounded]
    · intro index below
      exact arrival.passed_received atVrMs (gapFree atVrMs) complete walked (by omega)
    · rw [← arrival.received_iff]
      rintro ⟨pdu, mem, same, set⟩
      exact walked.stopped ⟨pdu, behind pdu mem (by rw [same]; omega), same, set⟩
    · rcases walked.stands with ⟨stop, mem, _, same⟩ | ⟨last, mem, _, _, step⟩
      · rw [same]
        exact Nat.le_of_lt (tops.below stop (within stop mem))
      · rw [step]
        exact tops.below last (within last mem)
  · rw [if_neg completes]
    refine ⟨.start tracks.bounded ?_, tracks.bounded, tracks.low.trans tops.grows⟩
    by_cases atVrMs : info.sn = rx.vrMs
    · rw [← arrival.received_iff, ← atVrMs, arrival.flagged_info_iff]
      exact fun complete => completes ⟨atVrMs, complete⟩
    · rw [arrival.received_other atVrMs]
      exact tracks.missing

theorem vrR_exact :
    LowestMissing (before ++ ⟨info, false⟩ :: after) rx.vrR
      (rx.placed info before after).vrR := by
  obtain ⟨count, moves⟩ := arrival.moves
  refine ⟨count, moves.vrR, fun index below => arrival.received_iff.mp (moves.passed index below),
    ?_⟩
  rw [moves.vrR, ← arrival.received_iff]
  exact moves.stopped

theorem placed_tracks (tracks : rx.TracksVrMs)
    (gapFree : info.sn = rx.vrMs → rx.NoSkippedGap) :
    (rx.placed info before after).TracksVrMs := by
  have edge := arrival.regular.inOrder.edge
  have regular := arrival.placed_regular
  obtain ⟨count, moves⟩ := arrival.moves
  obtain ⟨⟨_, _, _, missing⟩, bounded, low⟩ := arrival.vrMs_exact tracks gapFree
  rw [← arrival.received_iff] at missing
  -- What VR(R) has moved over is complete, so VR(MS) is not among it.
  have notPassed : count ≤ shiftedSn rx.vrR (rx.placed info before after).vrMs := by
    by_contra passed
    have flagged := moves.passed _ (Nat.lt_of_not_le passed)
    rw [snAt_shiftedSn edge bounded] at flagged
    exact missing flagged
  refine ⟨bounded, ?_, ?_⟩
  · rw [← regular.inOrder.buffer.flagged_number_iff regular.cut]
    exact fun flagged => missing (flagged.mono fun pdu mem => moves.sublist.subset mem)
  · rw [moves.vrR, shiftedSn_snAt_sub edge notPassed, shiftedSn_snAt_sub edge (notPassed.trans low)]
    exact Nat.sub_le_sub_right low _

end Receiver.Arrival

section Steps

variable {rx other : Receiver}

theorem Receiver.TracksVrMs.of_sameDelivery (tracks : rx.TracksVrMs)
    (same : rx.SameDelivery other) (vrMs : other.vrMs = rx.vrMs) : other.TracksVrMs where
  bounded := vrMs ▸ tracks.bounded
  missing := by rw [same.receiverBuffer, vrMs]; exact tracks.missing
  low := by rw [same.vrR, same.vrH, vrMs]; exact tracks.low

theorem tracksVrMs_init (msDuration : Nat) : (init msDuration).TracksVrMs where
  bounded := show 0 < rlcAmSnModulo by decide
  missing := not_receivedCompletely_of_absent rfl
  low := show shiftedSn 0 0 ≤ shiftedSn 0 0 by decide

/-- An arrival for VR(MS) finds no number skipped behind it. -/
def GapFree (rx : Receiver) (input : RxInput) : Prop :=
  ∀ info, input.Brings info → info.sn = rx.vrMs → rx.NoSkippedGap

theorem expiredVrMs_cases (vrR vrX vrMs : Nat) (buffer : List RxPdu) :
    (buffer = [] ∧ expiredVrMs vrR vrX vrMs buffer = vrMs) ∨
      (∃ stop ∈ buffer, stop.allSegmentsReceived = false ∧
        snGte vrR vrX stop.info.sn ∧ expiredVrMs vrR vrX vrMs buffer = stop.info.sn) ∨
      ∃ last ∈ buffer.getLast?, expiredVrMs vrR vrX vrMs buffer = nextSn last.info.sn := by
  induction buffer generalizing vrMs with
  | nil => exact .inl ⟨rfl, rfl⟩
  | cons cursor rest ih =>
    refine .inr ?_
    rw [expiredVrMs]
    split
    next stops => exact .inl ⟨cursor, mem_cons_self, stops.2, stops.1, rfl⟩
    · rcases ih (nextSn cursor.info.sn) with ⟨rfl, same⟩ | ⟨stop, mem, found⟩ |
        ⟨last, isLast, found⟩
      · exact .inr ⟨cursor, rfl, same⟩
      · exact .inl ⟨stop, mem_cons_of_mem _ mem, found⟩
      · refine .inr ⟨last, ?_, found⟩
        rw [getLast?_cons, isLast]
        rfl

variable (regular : rx.Regular)

include regular

theorem Receiver.Regular.expired_tracks (tracks : rx.TracksVrMs) (vrX : Nat) :
    let vrMs := expiredVrMs rx.vrR vrX rx.vrMs rx.receiverBuffer
    vrMs < rlcAmSnModulo ∧ ¬ ReceivedCompletely rx.receiverBuffer vrMs ∧
      shiftedSn rx.vrR vrMs ≤ shiftedSn rx.vrR rx.vrH := by
  have edge := regular.inOrder.edge
  have orderly := regular.inOrder.buffer
  rcases expiredVrMs_cases rx.vrR vrX rx.vrMs rx.receiverBuffer with
    ⟨_, same⟩ | ⟨stop, mem, unset, _, same⟩ | ⟨last, isLast, same⟩
  · simp only [same]
    exact ⟨tracks.bounded, tracks.missing, tracks.low⟩
  · simp only [same]
    refine ⟨(orderly.reach stop mem).snBound, ?_, le_of_lt (regular.below stop mem)⟩
    rw [← orderly.flagged_iff regular.cut mem, unset]
    exact Bool.false_ne_true
  · have mem := mem_of_getLast? isLast
    have step := shiftedSn_nextSn edge (orderly.reach last mem).near
    have above : ∀ pdu ∈ rx.receiverBuffer, shiftedSn rx.vrR pdu.info.sn <
        shiftedSn rx.vrR (nextSn last.info.sn) := by
      intro pdu found
      rw [step]
      exact lt_succ_of_le (orderly.ordered.last_highest isLast pdu found)
    simp only [same]
    refine ⟨mod_lt _ (by decide), not_receivedCompletely_above above, ?_⟩
    rw [step]
    exact regular.below last mem

theorem Receiver.Regular.receive_exact (tracks : rx.TracksVrMs) {now : Nat}
    {octets : List UInt8} (wellFormed : WellFormed octets)
    (segments : SegmentsRegular rx (.dataPdu now octets))
    (gapFree : GapFree rx (.dataPdu now octets)) :
    let next := rx.receiveProcessDataPdu now octets
    next.TracksVrMs ∧ LowestMissing (rx.stored octets) rx.vrR next.vrR ∧
      LowestMissing (rx.stored octets) rx.vrMs next.vrMs := by
  intro next
  rcases rx.receiveProcessDataPdu_cases now octets with
    ⟨requested, unchanged, content, _⟩ | ⟨info, before, after, places, stepped⟩
  · rw [show next = _ from unchanged, content]
    exact ⟨tracks.of_sameDelivery ⟨rfl, rfl, rfl, rfl, rfl⟩ rfl,
      .start regular.inOrder.edge regular.awaited, .start tracks.bounded tracks.missing⟩
  · have arrival := regular.arrival places wellFormed segments
      (rx.statusRequested || info.p)
    have polled : TracksVrMs
        { rx with statusRequested := rx.statusRequested || info.p } :=
      tracks.of_sameDelivery ⟨rfl, rfl, rfl, rfl, rfl⟩ rfl
    obtain ⟨same, vrMs⟩ := updateReordering_sameDelivery (placed
      { rx with statusRequested := rx.statusRequested || info.p } info before after)
      now info.sn
    have noGap := gapFree info places.decoded
    rw [show next = _ from stepped, places.stored_eq]
    refine ⟨(arrival.placed_tracks polled noGap).of_sameDelivery same vrMs, ?_⟩
    rw [same.vrR, vrMs]
    exact ⟨arrival.vrR_exact, (arrival.vrMs_exact polled noGap).1⟩

theorem Receiver.Regular.tracks_step (tracks : rx.TracksVrMs) {input : RxInput}
    (wellFormed : input.WellFormed) (segments : SegmentsRegular rx input)
    (gapFree : GapFree rx input) : (rx.step input).TracksVrMs := by
  cases input with
  | timerCheck now =>
    have same := rx.checkTimerReordering_sameDelivery now
    rw [Receiver.step]
    cases expired : rx.tReordering.expired now with
    | false =>
      refine tracks.of_sameDelivery same ?_
      simp [Receiver.checkTimerReordering, expired]
    | true =>
      obtain ⟨bounded, missing, low⟩ := regular.expired_tracks tracks rx.vrX
      have vrMs : (rx.checkTimerReordering now).vrMs =
          expiredVrMs rx.vrR rx.vrX rx.vrMs rx.receiverBuffer := by
        simp [Receiver.checkTimerReordering, expired]
      refine ⟨vrMs ▸ bounded, ?_, ?_⟩
      · rw [vrMs, same.receiverBuffer]
        exact missing
      · rw [vrMs, same.vrR, same.vrH]
        exact low
  | dataPdu now octets => exact (regular.receive_exact tracks wellFormed segments gapFree).1

theorem Receiver.Regular.run (tracks : rx.TracksVrMs) {inputs : List RxInput}
    (wellFormed : ∀ input ∈ inputs, input.WellFormed)
    (segments : Along SegmentsRegular rx inputs) (gapFree : Along GapFree rx inputs) :
    (rx.run inputs).Regular ∧ (rx.run inputs).TracksVrMs := by
  induction inputs generalizing rx with
  | nil => exact ⟨regular, tracks⟩
  | cons input rest ih =>
    have first := wellFormed input mem_cons_self
    refine ih (regular.step first segments.1)
      (regular.tracks_step tracks first segments.1 gapFree.1) ?_ segments.2 gapFree.2
    exact fun other mem => wellFormed other (mem_cons_of_mem _ mem)

end Steps

structure VariablesExact (before : Receiver) (octets : List UInt8) (after : Receiver) : Prop where
  vrR : LowestMissing (before.stored octets) before.vrR after.vrR
  vrMs : LowestMissing (before.stored octets) before.vrMs after.vrMs
  vrMr : after.vrMr = (after.vrR + rlcAmWindowSize) % rlcAmSnModulo
  vrMsLow : shiftedSn after.vrR after.vrMs ≤ shiftedSn after.vrR after.vrH
  vrHLow : shiftedSn after.vrR after.vrH ≤ shiftedSn after.vrR after.vrMr

variable {now : Nat} {octets : List UInt8}

variable {rx : Receiver}

theorem Receiver.Regular.variables_exact (regular : rx.Regular) (tracks : rx.TracksVrMs)
    (wellFormed : WellFormed octets) (segments : SegmentsRegular rx (.dataPdu now octets))
    (gapFree : GapFree rx (.dataPdu now octets)) :
    VariablesExact rx octets (rx.receiveProcessDataPdu now octets) := by
  have next : (rx.receiveProcessDataPdu now octets).Regular :=
    Regular.step regular (show (RxInput.dataPdu now octets).WellFormed from wellFormed) segments
  obtain ⟨nextTracks, vrR, vrMs⟩ := regular.receive_exact tracks wellFormed segments gapFree
  have high : shiftedSn (rx.receiveProcessDataPdu now octets).vrR
      (rx.receiveProcessDataPdu now octets).vrMr = rlcAmWindowSize := by
    rw [next.inOrder.vrMr, shiftedSn_upperEdge]
  exact ⟨vrR, vrMs, next.inOrder.vrMr, nextTracks.low, high ▸ next.high⟩

theorem receive_variables_exact (msDuration : Nat) (inputs : List RxInput) (now : Nat)
    (octets : List UInt8) (wellFormed : ∀ input ∈ inputs ++ [.dataPdu now octets], input.WellFormed)
    (segments : Along SegmentsRegular (init msDuration) (inputs ++ [.dataPdu now octets]))
    (gapFree : Along GapFree (init msDuration) (inputs ++ [.dataPdu now octets])) :
    let before := (init msDuration).run inputs
    VariablesExact before octets (before.receiveProcessDataPdu now octets) := by
  obtain ⟨earlier, arriving, _⟩ := along_append.mp segments
  obtain ⟨noGaps, noGap, _⟩ := along_append.mp gapFree
  obtain ⟨regular, tracks⟩ := (regular_init msDuration).run (tracksVrMs_init msDuration)
    (fun input mem => wellFormed input (mem_append_left _ mem)) earlier noGaps
  have last : (RxInput.dataPdu now octets).WellFormed := wellFormed _ (by simp)
  exact regular.variables_exact tracks last arriving noGap

def outOfOrderInputs : List RxInput :=
  [.dataPdu 0 (lastSegment 1), .dataPdu 1 (firstSegment 1)]

theorem segmentsRegular_of_check (unwrapped : rx.vrR ≤ rx.vrMr)
    (check : ∀ info ∈ getDataPduInfos octets,
      ¬ info.WholeSegment ∧ LastSegmentBehind rx.receiverBuffer info) :
    SegmentsRegular rx (.dataPdu now octets) :=
  ⟨insertionChecked_of_unwrapped unwrapped, check⟩

theorem gapFree_of_other (other : ∀ info ∈ getDataPduInfos octets, info.sn ≠ rx.vrMs) :
    GapFree rx (.dataPdu now octets) :=
  fun info brings same => absurd same (other info brings)

theorem receive_variables_out_of_order :
    let before := (init 10).run outOfOrderInputs
    let after := before.receiveProcessDataPdu 2 (wholePdu 0)
    (after.vrR, after.vrMs, after.vrH) = (2, 2, 2) ∧ VariablesExact before (wholePdu 0) after := by
  refine ⟨by decide +kernel,
    receive_variables_exact 10 outOfOrderInputs 2 (wholePdu 0) (by decide +kernel) ?_ ?_⟩
  · exact ⟨segmentsRegular_of_check (by decide +kernel) (by decide +kernel),
      segmentsRegular_of_check (by decide +kernel) (by decide +kernel),
      segmentsRegular_of_check (by decide +kernel) (by decide +kernel), trivial⟩
  · refine ⟨gapFree_of_other (by decide +kernel), gapFree_of_other (by decide +kernel), ?_, trivial⟩
    rintro info _ _ sn ⟨count, at_, passed, _⟩
    -- PDU 1 is stored, and nothing behind it is.
    cases count with
    | zero => exact .inl ⟨_, mem_cons_self, at_.symm⟩
    | succ count =>
      cases count with
      | zero =>
        refine .inr ?_
        rw [at_]
        decide +kernel
      | succ count =>
        refine absurd (passed 1 (by omega)) (not_receivedCompletely_of_absent ?_)
        decide +kernel

/-- PDU 1 is missing between PDU 2 and PDU 0. -/
theorem vrMs_skips_missing :
    let before := (init 10).run [.dataPdu 0 (wholePdu 2)]
    let after := before.receiveProcessDataPdu 1 (wholePdu 0)
    WellFormed (wholePdu 2) ∧ WellFormed (wholePdu 0) ∧
      ¬ VariablesExact before (wholePdu 0) after := by
  refine ⟨by decide +kernel, by decide +kernel, fun exactly => ?_⟩
  obtain ⟨count, at_, passed, _⟩ := exactly.vrMs
  have reached : (((init 10).run [.dataPdu 0 (wholePdu 2)]).receiveProcessDataPdu 1
      (wholePdu 0)).vrMs = 3 := by decide +kernel
  have start : ((init 10).run [.dataPdu 0 (wholePdu 2)]).vrMs = 0 := by decide +kernel
  rw [reached, start, snAt] at at_
  have beyond : 1 < count := by
    by_contra short
    rw [mod_eq_of_lt (by simp only [rlcAmSnModulo]; omega)] at at_
    omega
  refine absurd (passed 1 beyond) (not_receivedCompletely_of_absent ?_)
  decide +kernel

end OpenAir.RlcAm
