import OpenAir.RlcAm.BufferWalks

/-! VR(R) and VR(H) against the content of the receiver buffer: VR(R) is the lowest
number that is not completely received, just the numbers it has moved over leave
the buffer, and VR(H) stays behind every stored number. -/

set_option autoImplicit false

namespace OpenAir.RlcAm

open List Receiver

/-- The last segment stored for the number of an arriving PDU, or the arriving
one itself if it is the last, begins behind the others. -/
def LastSegmentBehind (buffer : List RxPdu) (info : PduInfo) : Prop :=
  ∀ pdu ∈ buffer, pdu.info.sn = info.sn →
    (pdu.info.lsf → info.so ≤ pdu.info.so) ∧ (info.lsf → pdu.info.so ≤ info.so)

instance lastSegmentBehindDecidable (buffer : List RxPdu) (info : PduInfo) :
    Decidable (LastSegmentBehind buffer info) :=
  inferInstanceAs (Decidable (∀ pdu ∈ buffer, _))

structure Receiver.Regular (rx : Receiver) : Prop where
  inOrder : rx.InOrder
  cut : ∀ pdu ∈ rx.receiverBuffer, ¬ pdu.info.WholeSegment
  last : LastBehind rx.receiverBuffer
  awaited : ¬ ReceivedCompletely rx.receiverBuffer rx.vrR
  vrHBound : rx.vrH < rlcAmSnModulo
  high : shiftedSn rx.vrR rx.vrH ≤ rlcAmWindowSize
  below : ∀ pdu ∈ rx.receiverBuffer,
    shiftedSn rx.vrR pdu.info.sn < shiftedSn rx.vrR rx.vrH
  highest : rx.vrH = rx.vrR ∨
    ∃ pdu ∈ rx.receiverBuffer, rx.vrH = nextSn pdu.info.sn

structure Receiver.Arrival (rx : Receiver) (info : PduInfo) (before after : List RxPdu) :
    Prop where
  regular : rx.Regular
  split : rx.receiverBuffer = before ++ after
  stored : Stored rx.vrR before after info
  cut : ¬ info.WholeSegment
  behind : LastSegmentBehind rx.receiverBuffer info

def checkedContent (before after : List RxPdu) (info : PduInfo) : List RxPdu :=
  (before ++ ⟨info, false⟩ :: after).map
    (markIf (groupReceived (before ++ ⟨info, false⟩ :: after) info) info.sn)

namespace Receiver.Arrival

variable {rx : Receiver} {info : PduInfo} {before after : List RxPdu}

theorem orderly (arrival : rx.Arrival info before after) :
    Orderly rx.vrR (checkedContent before after info) :=
  arrival.stored.orderly_checked

theorem info_cases {pdu : RxPdu} (mem : pdu ∈ checkedContent before after info) :
    pdu.info = info ∨ ∃ old ∈ before ++ after, old.info = pdu.info := by
  obtain ⟨old, oldMember, rfl⟩ := List.mem_map.mp mem
  rcases Stored.mem oldMember with rfl | stored
  · exact .inl (markIf_info _ _ _)
  · exact .inr ⟨old, stored, (markIf_info _ _ _).symm⟩

section

variable (arrival : rx.Arrival info before after)

include arrival

theorem checked_cut : ∀ pdu ∈ checkedContent before after info, ¬ pdu.info.WholeSegment := by
  intro pdu mem
  rcases info_cases mem with new | ⟨old, stored, same⟩
  · exact new ▸ arrival.cut
  · exact same ▸ arrival.regular.cut old (arrival.split ▸ stored)

theorem checked_last : LastBehind (checkedContent before after info) := by
  refine pairwise_map.mpr ?_
  simp only [markIf_info]
  have regular := arrival.regular.last
  have ordered := arrival.stored.ordered
  have behind := arrival.behind
  rw [arrival.split] at regular behind
  obtain ⟨frontLast, backLast, crossLast⟩ := pairwise_append.mp regular
  obtain ⟨_, newOrdered, crossOrdered⟩ := pairwise_append.mp ordered
  have filled := length_pos_of_ne_nil arrival.stored.nonempty
  refine pairwise_append.mpr ⟨frontLast, pairwise_cons.mpr ⟨?_, backLast⟩, ?_⟩
  · intro right mem same
    have apart := (((pairwise_cons.mp newOrdered).1 right mem).gap same).2.2
    by_contra isLast
    have := (behind right (mem_append_right _ mem) same.symm).2 (by simpa using isLast)
    simp only at apart
    omega
  · intro left leftMember right rightMember same
    rcases mem_cons.mp rightMember with rfl | later
    · have apart := ((crossOrdered left leftMember _ mem_cons_self).gap same).2.2
      by_contra isLast
      have := (behind left (mem_append_left _ leftMember) same).1 (by simpa using isLast)
      have := length_pos_of_ne_nil
        (arrival.stored.orderly.nonempty left (mem_append_left _ leftMember))
      simp only at apart
      omega
    · exact crossLast left leftMember right later same

theorem received_iff {sn : Nat} :
    Flagged (checkedContent before after info) sn ↔
      ReceivedCompletely (before ++ ⟨info, false⟩ :: after) sn := by
  rw [arrival.orderly.flagged_number_iff arrival.checked_cut]
  exact receivedCompletely_map_markIf

theorem received_other {sn : Nat} (other : info.sn ≠ sn) :
    ReceivedCompletely (before ++ ⟨info, false⟩ :: after) sn ↔
      ReceivedCompletely rx.receiverBuffer sn := by
  rw [ReceivedCompletely, ReceivedCompletely, sameNumber_other other, arrival.split]

end

theorem tb_mem : markIf (groupReceived (before ++ ⟨info, false⟩ :: after) info) info.sn
    ⟨info, false⟩ ∈ checkedContent before after info :=
  List.mem_map_of_mem (mem_append_right _ mem_cons_self)

theorem flagged_info_iff (arrival : rx.Arrival info before after) :
    Flagged (checkedContent before after info) info.sn ↔
      groupReceived (before ++ ⟨info, false⟩ :: after) info := by
  have mark : (markIf (groupReceived (before ++ ⟨info, false⟩ :: after) info) info.sn
      ⟨info, false⟩).allSegmentsReceived =
        groupReceived (before ++ ⟨info, false⟩ :: after) info := by
    simp [markIf_flagged]
  constructor
  · rintro ⟨pdu, mem, same, set⟩
    have alike := arrival.orderly.alike mem tb_mem (by rw [markIf_info, same])
    rw [← mark, ← alike, set]
  · intro complete
    exact ⟨_, tb_mem, by rw [markIf_info], mark.trans complete⟩

structure MovesBy (rx : Receiver) (info : PduInfo) (before after : List RxPdu) (count : Nat) :
    Prop where
  vrR : (rx.placed info before after).vrR = snAt rx.vrR count
  passed : ∀ index < count,
    Flagged (checkedContent before after info) (snAt rx.vrR index)
  stopped : ¬ Flagged (checkedContent before after info) (snAt rx.vrR count)
  sublist : (rx.placed info before after).receiverBuffer.Sublist
    (checkedContent before after info)
  kept : ∀ pdu ∈ (rx.placed info before after).receiverBuffer,
    count ≤ shiftedSn rx.vrR pdu.info.sn
  left : ∀ pdu ∈ checkedContent before after info,
    pdu ∈ (rx.placed info before after).receiverBuffer ∨
      shiftedSn rx.vrR pdu.info.sn < count

theorem awaited_moves (arrival : rx.Arrival info before after)
    (awaited : info.sn = rx.vrR) :
    ∃ count, (rx.placed info before after).vrR = snAt rx.vrR count ∧
      (∀ index < count, Flagged (checkedContent before after info) (snAt rx.vrR index)) ∧
      ¬ Flagged (checkedContent before after info) (snAt rx.vrR count) := by
  have edge := arrival.regular.inOrder.edge
  have orderly := arrival.orderly
  have flagged := arrival.flagged_info_iff
  rw [placed_eq arrival.stored.ordered]
  dsimp only
  cases complete : groupReceived (before ++ ⟨info, false⟩ :: after) info with
  | false =>
    rw [complete, awaited] at flagged
    refine ⟨0, ?_, nofun, ?_⟩
    · simp [snAt_zero edge]
    · rw [snAt_zero edge, flagged]
      exact Bool.false_ne_true
  | true =>
    obtain ⟨count, moved, passed⟩ := rxUpdateVrR_passed before after info edge true
    have split : checkedContent before after info = before.map (markIf true info.sn) ++
        (markIf true info.sn ⟨info, false⟩ :: after.map (markIf true info.sn)) := by
      rw [checkedContent, complete, map_append, map_cons]
    have cut := arrival.checked_cut
    have last := arrival.checked_last
    rw [split] at orderly cut last
    have lowest := shiftedSn_self edge
    obtain ⟨_, stopped⟩ := rxUpdateVrR_stops edge orderly.walkOrder (orderly.closes cut last)
      (lowest ▸ Nat.zero_le _) edge fun pdu _ => lowest ▸ Nat.zero_le _
    refine ⟨count, ?_, ?_, ?_⟩
    · rw [if_pos ⟨awaited, rfl⟩, moved]
    · rw [checkedContent, complete]
      exact passed
    · rw [← moved]
      rintro ⟨pdu, mem, same, set⟩
      rw [split] at mem
      rcases mem_append.mp mem with earlier | rest
      · -- What stands in front of the arrived PDU has its number.
        have precedes := (pairwise_append.mp orderly.ordered).2.2 pdu earlier _
          mem_cons_self
        have near := precedes.le
        rw [markIf_info, awaited] at near
        have bounded := (orderly.reach pdu (mem_append_left _ earlier)).snBound
        have first : pdu.info.sn = rx.vrR :=
          shiftedSn_injective edge bounded edge (by omega)
        refine stopped ⟨markIf true info.sn ⟨info, false⟩, mem_cons_self, ?_, ?_⟩
        · rw [markIf_info, ← same, first, awaited]
        · simp [markIf_flagged]
      · exact stopped ⟨pdu, rest, same, set⟩

theorem moves (arrival : rx.Arrival info before after) :
    ∃ count, MovesBy rx info before after count := by
  have edge := arrival.regular.inOrder.edge
  have orderly := arrival.orderly
  have buffer : (rx.placed info before after).receiverBuffer =
      if info.sn = rx.vrR then (rxListReassembleRlcSdus (checkedContent before after info)).2
      else checkedContent before after info := by
    rw [placed_eq arrival.stored.ordered]
    rfl
  by_cases awaited : info.sn = rx.vrR
  · obtain ⟨count, vrR, passed, stopped⟩ := arrival.awaited_moves awaited
    rw [if_pos awaited] at buffer
    obtain ⟨joined, set, _⟩ := reassemble_spec (checkedContent before after info)
    refine ⟨count, vrR, passed, stopped, ?_, ?_, ?_⟩
    · rw [buffer]
      conv_rhs => rw [← joined]
      exact sublist_append_right _ _
    · rw [buffer]
      exact fun pdu mem => orderly.kept_above edge passed mem
    · intro pdu mem
      rw [buffer]
      rw [← joined] at mem
      rcases mem_append.mp mem with handed | kept
      · by_contra far
        -- The first element has the awaited number, so the numbers up to that of
        -- an element handed over are complete.
        have start : ∀ first ∈ (checkedContent before after info).head?,
            shiftedSn rx.vrR first.info.sn ≤ count := by
          intro first isFirst
          have lowest := orderly.ordered.head_lowest isFirst _ tb_mem
          rw [markIf_info, awaited, shiftedSn_self edge] at lowest
          exact lowest.trans (Nat.zero_le _)
        have near : ∀ pdu ∈ checkedContent before after info,
            shiftedSn rx.vrR pdu.info.sn < rlcAmWindowSize :=
          fun pdu mem => (orderly.reach pdu mem).near
        obtain ⟨other, found, reached⟩ := reassemble_contiguous edge near start handed (by omega)
        have otherStored : other ∈ checkedContent before after info :=
          joined ▸ mem_append_left _ found
        refine stopped ⟨other, otherStored, ?_, set other found⟩
        rw [← reached, snAt_shiftedSn edge (orderly.reach other otherStored).snBound]
      · exact .inl kept
  · rw [if_neg awaited] at buffer
    refine ⟨0, ?_, nofun, ?_, ?_, fun _ _ => Nat.zero_le _, ?_⟩
    · rw [placed_eq arrival.stored.ordered, snAt_zero edge]
      simp [awaited]
    · rw [snAt_zero edge, arrival.received_iff, arrival.received_other awaited]
      exact arrival.regular.awaited
    · rw [buffer]
    · rw [buffer]
      exact fun pdu mem => .inl mem

structure Tops (rx : Receiver) (info : PduInfo) (before after : List RxPdu) (vrH : Nat) :
    Prop where
  bounded : vrH < rlcAmSnModulo
  high : shiftedSn rx.vrR vrH ≤ rlcAmWindowSize
  grows : shiftedSn rx.vrR rx.vrH ≤ shiftedSn rx.vrR vrH
  below : ∀ pdu ∈ checkedContent before after info,
    shiftedSn rx.vrR pdu.info.sn < shiftedSn rx.vrR vrH
  highest : ∃ pdu ∈ checkedContent before after info, vrH = nextSn pdu.info.sn

theorem tops (arrival : rx.Arrival info before after) :
    Tops rx info before after (rx.placed info before after).vrH := by
  have edge := arrival.regular.inOrder.edge
  have reach := arrival.stored.reach
  have near := reach.near
  have step := shiftedSn_nextSn edge near
  have vrH : (rx.placed info before after).vrH =
      if snGte rx.vrR rx.vrH info.sn then nextSn info.sn else rx.vrH := by
    rw [placed_eq arrival.stored.ordered]
  have old : ∀ pdu ∈ checkedContent before after info, pdu.info = info ∨
      shiftedSn rx.vrR pdu.info.sn < shiftedSn rx.vrR rx.vrH := by
    intro pdu mem
    rcases info_cases mem with new | ⟨earlier, stored, same⟩
    · exact .inl new
    · exact .inr (same ▸ arrival.regular.below earlier (arrival.split ▸ stored))
  rw [vrH]
  by_cases above : snGte rx.vrR rx.vrH info.sn
  · rw [if_pos above]
    simp only [snGte, Bool.and_eq_true, decide_eq_true_eq] at above
    refine ⟨Nat.mod_lt _ (by decide), by omega, by omega, ?_, ?_⟩
    · intro pdu mem
      rcases old pdu mem with new | lower
      · rw [new]
        omega
      · omega
    · exact ⟨_, tb_mem, by rw [markIf_info]⟩
  · rw [if_neg above]
    have lower : shiftedSn rx.vrR info.sn < shiftedSn rx.vrR rx.vrH := by
      simpa [snGte, reach.snBound] using above
    refine ⟨arrival.regular.vrHBound, arrival.regular.high, le_rfl, ?_, ?_⟩
    · intro pdu mem
      rcases old pdu mem with new | lowerOld
      · rw [new]
        exact lower
      · exact lowerOld
    · rcases arrival.regular.highest with none | ⟨pdu, stored, next⟩
      · rw [none, shiftedSn_self edge] at lower
        exact absurd lower (Nat.not_lt_zero _)
      · rw [arrival.split] at stored
        refine ⟨markIf _ _ pdu, List.mem_map_of_mem ?_, by rw [markIf_info]; exact next⟩
        simp only [mem_append, mem_cons] at stored ⊢
        tauto

theorem MovesBy.count_le {count : Nat} (moves : MovesBy rx info before after count)
    (arrival : rx.Arrival info before after) {limit : Nat}
    (limited : ∀ pdu ∈ checkedContent before after info, shiftedSn rx.vrR pdu.info.sn < limit)
    (small : limit ≤ rlcAmWindowSize) :
    count ≤ limit := by
  by_contra far
  obtain ⟨pdu, mem, same, _⟩ := moves.passed limit (by omega)
  have reached := limited pdu mem
  rw [same, shiftedSn_snAt arrival.regular.inOrder.edge] at reached
  · exact lt_irrefl _ reached
  · simp only [rlcAmSnModulo, rlcAmWindowSize] at small ⊢
    omega

theorem placed_regular (arrival : rx.Arrival info before after) :
    (rx.placed info before after).Regular := by
  have edge := arrival.regular.inOrder.edge
  obtain ⟨count, moves⟩ := arrival.moves
  have tops := arrival.tops
  have inOrder := arrival.regular.inOrder.placed arrival.stored
  have within := moves.count_le arrival tops.below tops.high
  have storedBefore : ∀ pdu ∈ (rx.placed info before after).receiverBuffer,
      pdu ∈ checkedContent before after info := fun pdu mem => moves.sublist.subset mem
  have cut : ∀ pdu ∈ (rx.placed info before after).receiverBuffer,
      ¬ pdu.info.WholeSegment := fun pdu mem => arrival.checked_cut pdu (storedBefore pdu mem)
  have vrH : shiftedSn (snAt rx.vrR count) (rx.placed info before after).vrH =
      shiftedSn rx.vrR (rx.placed info before after).vrH - count :=
    shiftedSn_snAt_sub edge within
  have moved : ∀ pdu ∈ (rx.placed info before after).receiverBuffer,
      shiftedSn (snAt rx.vrR count) pdu.info.sn =
        shiftedSn rx.vrR pdu.info.sn - count := fun pdu mem =>
    shiftedSn_snAt_sub edge (moves.kept pdu mem)
  refine ⟨inOrder, cut, arrival.checked_last.sublist moves.sublist, ?_, tops.bounded, ?_, ?_, ?_⟩
  · rw [← inOrder.buffer.flagged_number_iff cut, moves.vrR]
    exact fun flagged => moves.stopped (flagged.mono storedBefore)
  · rw [moves.vrR, vrH]
    exact (Nat.sub_le _ _).trans tops.high
  · intro pdu mem
    rw [moves.vrR, moved pdu mem]
    have := tops.below pdu (storedBefore pdu mem)
    have := moves.kept pdu mem
    omega
  · obtain ⟨pdu, mem, next⟩ := tops.highest
    rcases moves.left pdu mem with kept | left
    · exact .inr ⟨pdu, kept, next⟩
    · refine .inl ?_
      have step := shiftedSn_nextSn edge (arrival.orderly.reach pdu mem).near
      have reached : shiftedSn rx.vrR (rx.placed info before after).vrH = count := by
        rw [next] at within ⊢
        omega
      rw [moves.vrR, ← reached, snAt_shiftedSn edge tops.bounded]

end Receiver.Arrival

section Steps

variable {rx other : Receiver}

theorem Receiver.Regular.of_sameDelivery (regular : rx.Regular)
    (same : rx.SameDelivery other) : other.Regular where
  inOrder := regular.inOrder.of_sameDelivery same
  cut := same.receiverBuffer ▸ regular.cut
  last := same.receiverBuffer ▸ regular.last
  awaited := by rw [same.receiverBuffer, same.vrR]; exact regular.awaited
  vrHBound := same.vrH ▸ regular.vrHBound
  high := by rw [same.vrR, same.vrH]; exact regular.high
  below := by rw [same.receiverBuffer, same.vrR, same.vrH]; exact regular.below
  highest := by rw [same.receiverBuffer, same.vrR, same.vrH]; exact regular.highest

theorem regular_init (msDuration : Nat) : (init msDuration).Regular where
  inOrder := inOrder_init msDuration
  cut := nofun
  last := .nil
  awaited := not_receivedCompletely_of_absent rfl
  vrHBound := show 0 < rlcAmSnModulo by decide
  high := show shiftedSn 0 0 ≤ rlcAmWindowSize by decide
  below := nofun
  highest := .inl rfl

/-- An arrival that insertion checks, of a segment that is not all of its PDU,
with the last segment of its number last. -/
def SegmentsRegular (rx : Receiver) (input : RxInput) : Prop :=
  InsertionChecked rx input ∧ ∀ info, input.Brings info →
    ¬ info.WholeSegment ∧ LastSegmentBehind rx.receiverBuffer info

theorem Receiver.Regular.arrival (regular : rx.Regular) {now : Nat} {octets : List UInt8}
    {info : PduInfo} {before after : List RxPdu}
    (places : rx.Places octets info before after) (wellFormed : WellFormed octets)
    (segments : SegmentsRegular rx (.dataPdu now octets)) (requested : Bool) :
    Arrival { rx with statusRequested := requested } info before after := by
  obtain ⟨split, stored⟩ := regular.inOrder.store places wellFormed
    (segments.1 info places.decoded).1 (segments.1 info places.decoded).2
  obtain ⟨cut, behind⟩ := segments.2 info places.decoded
  exact ⟨regular.of_sameDelivery ⟨rfl, rfl, rfl, rfl, rfl⟩, split, stored, cut, behind⟩

theorem Receiver.Regular.step (regular : rx.Regular) {input : RxInput}
    (wellFormed : input.WellFormed) (segments : SegmentsRegular rx input) :
    (rx.step input).Regular := by
  cases input with
  | timerCheck now => exact regular.of_sameDelivery (rx.checkTimerReordering_sameDelivery now)
  | dataPdu now octets =>
    rcases rx.receiveProcessDataPdu_cases now octets with
      ⟨requested, unchanged, _⟩ | ⟨info, before, after, places, stepped⟩
    · rw [Receiver.step, unchanged]
      exact regular.of_sameDelivery ⟨rfl, rfl, rfl, rfl, rfl⟩
    · rw [Receiver.step, stepped]
      exact (regular.arrival places wellFormed segments _).placed_regular.of_sameDelivery
        (Receiver.updateReordering_sameDelivery _ _ _).1

end Steps

end OpenAir.RlcAm
