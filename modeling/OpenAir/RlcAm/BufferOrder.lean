import OpenAir.RlcAm.Completion
import OpenAir.RlcAm.TxWindow

/-! The receiver buffer under arrivals of any content, also of segments no
sender would have cut from one PDU. It stays sorted by distance from VR(R), and
an element is flagged exactly if the check of byte segments succeeds on the
elements of its number. -/

set_option autoImplicit false

namespace OpenAir.RlcAm

open List Option Receiver Nat

/-- A block whose size fits an `int16_t` and which has a data field, if it has
the header of a data PDU. -/
def WellFormed (octets : List UInt8) : Prop :=
  octets.length < 2 ^ 15 ∧ ∀ info, getDataPduInfos octets = some info → info.payload ≠ []

def RxInput.WellFormed : RxInput → Prop
  | .dataPdu _ octets => RlcAm.WellFormed octets
  | .timerCheck _ => True

instance wellFormedDecidable (octets : List UInt8) : Decidable (WellFormed octets) :=
  decidable_of_iff (octets.length < 2 ^ 15 ∧
    ∀ info ∈ getDataPduInfos octets, info.payload ≠ []) Iff.rfl

instance rxInputWellFormedDecidable (input : RxInput) : Decidable input.WellFormed :=
  match input with
  | .dataPdu _ octets => wellFormedDecidable octets
  | .timerCheck _ => .isTrue trivial

def RxInput.Brings (input : RxInput) (info : PduInfo) : Prop :=
  match input with
  | .dataPdu _ octets => getDataPduInfos octets = some info
  | .timerCheck _ => False

/-- The arrival does not meet a situation that insertion leaves unchecked. -/
def InsertionChecked (rx : Receiver) : RxInput → Prop
  | .dataPdu _ octets => ∀ info, getDataPduInfos octets = some info →
    ¬ UncheckedOverlap rx.vrR rx.vrMr rx.receiverBuffer info ∧
      ¬ BelowWrappedHead rx.vrR rx.vrMr rx.receiverBuffer info
  | .timerCheck _ => True

def Along (holds : Receiver → RxInput → Prop) : Receiver → List RxInput → Prop
  | _, [] => True
  | rx, input :: rest => holds rx input ∧ Along holds (rx.step input) rest

/-- What `rlc_am_rx_check_all_byte_segments` finds for an element of a buffer. -/
def groupReceived (buffer : List RxPdu) (info : PduInfo) : Bool :=
  !info.rf || allByteSegmentsReceived (sameNumber info.sn buffer)

structure Orderly (vrR : Nat) (buffer : List RxPdu) : Prop where
  ordered : Ordered vrR buffer
  reach : ∀ pdu ∈ buffer, InReach vrR pdu.info
  nonempty : ∀ pdu ∈ buffer, pdu.info.payload ≠ []
  flags : ∀ pdu ∈ buffer, pdu.allSegmentsReceived = groupReceived buffer pdu.info

theorem reachesLastSegment_map_markIf (complete : Bool) (sn : Nat) (lastEndSo : Int)
    (group : List RxPdu) :
    reachesLastSegment lastEndSo (group.map (markIf complete sn)) =
      reachesLastSegment lastEndSo group := by
  induction group generalizing lastEndSo with
  | nil => rfl
  | cons head rest ih => simp only [map_cons, reachesLastSegment, markIf_info, ih]

theorem allByteSegmentsReceived_map_markIf (complete : Bool) (sn : Nat) (group : List RxPdu) :
    allByteSegmentsReceived (group.map (markIf complete sn)) = allByteSegmentsReceived group := by
  cases group with
  | nil => rfl
  | cons head rest =>
    simp [allByteSegmentsReceived, markIf_info, reachesLastSegment_map_markIf]

theorem groupReceived_map_markIf (complete : Bool) (sn : Nat) (buffer : List RxPdu)
    (info : PduInfo) :
    groupReceived (buffer.map (markIf complete sn)) info = groupReceived buffer info := by
  rw [groupReceived, sameNumber, filter_map_markIf, allByteSegmentsReceived_map_markIf]
  rfl

variable {last left next pdu right : RxPdu} {buffer kept : List RxPdu} {count sn : Nat}
  {input : RxInput} {octets : List UInt8}

variable {vrR : Nat} {rx : Receiver} {info : PduInfo} {before after : List RxPdu}

theorem getDataPduInfos_sized (bounded : octets.length < 2 ^ 15)
    (decoded : getDataPduInfos octets = some info) (nonempty : info.payload ≠ []) :
    info.payloadSize = info.payload.length := by
  unfold getDataPduInfos at decoded
  dsimp only at decoded
  split at decoded
  · cases decoded
  · obtain ⟨⟨liList, used⟩, _, rfl⟩ := Option.map_eq_some_iff.mp decoded
    have room := length_pos_of_ne_nil nonempty
    simp only [length_drop, asInt16_sub] at room ⊢
    rw [asInt16_eq_self]
    · omega
    · omega
    · omega

theorem insertionChecked_of_unwrapped (unwrapped : rx.vrR ≤ rx.vrMr) :
    InsertionChecked rx input := by
  cases input with
  | timerCheck now => exact trivial
  | dataPdu now octets =>
    intro info _
    refine ⟨?_, fun below => absurd below.wrapped (by omega)⟩
    intro overlap
    cases overlap with
    | ahead before after last next wrapped => omega
    | behind before after last next wrapped => omega

theorem along_append {holds : Receiver → RxInput → Prop} {front back : List RxInput} :
    Along holds rx (front ++ back) ↔
      Along holds rx front ∧ Along holds (rx.run front) back := by
  induction front generalizing rx with
  | nil => exact ⟨fun run => ⟨trivial, run⟩, fun run => run.2⟩
  | cons input rest ih =>
    rw [cons_append, Along, Along, ih, and_assoc]
    rfl

theorem Ordered.segment_of_same (ordered : Ordered vrR buffer) (leftMember : left ∈ buffer)
    (rightMember : right ∈ buffer) (apart : left ≠ right)
    (same : left.info.sn = right.info.sn) : left.info.rf := by
  have both : buffer.Pairwise fun first second => first.info.sn = second.info.sn →
      first.info.rf ∧ second.info.rf :=
    Pairwise.imp (fun precedes same => ⟨(precedes.gap same).1, (precedes.gap same).2.1⟩) ordered
  have : Std.Symm fun first second : RxPdu => first.info.sn = second.info.sn →
      first.info.rf ∧ second.info.rf :=
    ⟨fun _ _ related same => (related same.symm).symm⟩
  exact (both.forall leftMember rightMember apart same).1

theorem mem_sameNumber :
    pdu ∈ sameNumber sn buffer ↔ pdu ∈ buffer ∧ pdu.info.sn = sn := by
  rw [sameNumber, mem_filter, decide_eq_true_eq]

theorem Ordered.sameNumber_of_whole (ordered : Ordered vrR buffer) (mem : pdu ∈ buffer)
    (whole : pdu.info.rf = false) :
    sameNumber pdu.info.sn buffer = [pdu] := by
  have run : Ordered vrR (sameNumber pdu.info.sn buffer) := Pairwise.filter _ ordered
  have inGroup : pdu ∈ sameNumber pdu.info.sn buffer := mem_sameNumber.mpr ⟨mem, rfl⟩
  have only : ∀ other ∈ sameNumber pdu.info.sn buffer, other = pdu := by
    intro other found
    obtain ⟨stored, same⟩ := mem_sameNumber.mp found
    by_contra apart
    have segment := ordered.segment_of_same mem stored (Ne.symm apart) same.symm
    cases whole.symm.trans segment
  cases group : sameNumber pdu.info.sn buffer with
  | nil => rw [group] at inGroup; exact absurd inGroup not_mem_nil
  | cons first rest =>
    rw [group] at run only
    cases rest with
    | nil => rw [only first mem_cons_self]
    | cons second others =>
      have precedes := (pairwise_cons.mp run).1 second mem_cons_self
      rw [only first mem_cons_self, only second (mem_cons_of_mem _ mem_cons_self)] at precedes
      cases whole.symm.trans (precedes.gap rfl).1

theorem Ordered.segments_of_segment (ordered : Ordered vrR buffer) (mem : pdu ∈ buffer)
    (segment : pdu.info.rf) : ∀ other ∈ sameNumber pdu.info.sn buffer, other.info.rf := by
  intro other found
  obtain ⟨stored, same⟩ := mem_sameNumber.mp found
  by_cases one : other = pdu
  · rw [one, segment]
  · exact ordered.segment_of_same stored mem one same

theorem Ordered.segmentGroup (ordered : Ordered vrR buffer)
    (filled : ∀ pdu ∈ buffer, InReach vrR pdu.info ∧ pdu.info.payload ≠ [])
    (segments : ∀ pdu ∈ sameNumber sn buffer, pdu.info.rf) :
    SegmentGroup (sameNumber sn buffer) where
  segments := segments
  sized pdu mem := (filled pdu (mem_sameNumber.mp mem).1).1.sized (segments pdu mem)
  nonempty pdu mem := (filled pdu (mem_sameNumber.mp mem).1).2
  apart := by
    have run : Ordered vrR (sameNumber sn buffer) := Pairwise.filter _ ordered
    refine Pairwise.imp_of_mem ?_ run
    intro left right leftMember rightMember precedes
    exact (precedes.gap
      ((mem_sameNumber.mp leftMember).2.trans (mem_sameNumber.mp rightMember).2.symm)).2.2

section Stored

variable {vrR : Nat} {before after : List RxPdu} {info : PduInfo}

structure Stored (vrR : Nat) (before after : List RxPdu) (info : PduInfo) : Prop where
  orderly : Orderly vrR (before ++ after)
  ordered : Ordered vrR (before ++ ⟨info, false⟩ :: after)
  reach : InReach vrR info
  nonempty : info.payload ≠ []

theorem Stored.mem (mem : pdu ∈ before ++ ⟨info, false⟩ :: after) :
    pdu = ⟨info, false⟩ ∨ pdu ∈ before ++ after := by
  simp only [mem_append, mem_cons] at mem ⊢
  tauto

theorem sameNumber_other (other : info.sn ≠ sn) :
    sameNumber sn (before ++ ⟨info, false⟩ :: after) = sameNumber sn (before ++ after) := by
  simp [sameNumber, other]

theorem Stored.segments (stored : Stored vrR before after info) (mem : pdu ∈ before ++ after)
    (same : pdu.info.sn = info.sn) :
    pdu.info.rf ∧ info.rf := by
  obtain ⟨_, tail, cross⟩ := pairwise_append.mp stored.ordered
  rcases mem_append.mp mem with earlier | later
  · have gap := (cross pdu earlier _ mem_cons_self).gap same
    exact ⟨gap.1, gap.2.1⟩
  · have gap := ((pairwise_cons.mp tail).1 pdu later).gap same.symm
    exact ⟨gap.2.1, gap.1⟩

theorem Stored.filled (stored : Stored vrR before after info)
    (mem : pdu ∈ before ++ ⟨info, false⟩ :: after) :
    InReach vrR pdu.info ∧ pdu.info.payload ≠ [] := by
  rcases Stored.mem mem with rfl | kept
  · exact ⟨stored.reach, stored.nonempty⟩
  · exact ⟨stored.orderly.reach pdu kept, stored.orderly.nonempty pdu kept⟩

theorem Stored.received (stored : Stored vrR before after info) (segment : info.rf)
    (received : allByteSegmentsReceived (sameNumber info.sn (before ++ after))) :
    allByteSegmentsReceived (sameNumber info.sn (before ++ ⟨info, false⟩ :: after)) := by
  have new : ⟨info, false⟩ ∈ before ++ ⟨info, false⟩ :: after := mem_append_right _ mem_cons_self
  have group := stored.ordered.segmentGroup (fun _ => stored.filled)
    (stored.ordered.segments_of_segment new segment)
  simp only [sameNumber, filter_append, filter_cons, decide_true, if_true] at group received ⊢
  exact group.insert received

theorem Stored.orderly_checked (stored : Stored vrR before after info) :
    Orderly vrR ((before ++ ⟨info, false⟩ :: after).map
      (markIf (groupReceived (before ++ ⟨info, false⟩ :: after) info) info.sn)) where
  ordered := by
    refine pairwise_map.mpr ?_
    simp only [markIf_info]
    exact stored.ordered
  reach pdu mem := by
    obtain ⟨old, inList, rfl⟩ := mem_map.mp mem
    rw [markIf_info]
    exact (stored.filled inList).1
  nonempty pdu mem := by
    obtain ⟨old, inList, rfl⟩ := mem_map.mp mem
    rw [markIf_info]
    exact (stored.filled inList).2
  flags pdu mem := by
    obtain ⟨old, inList, rfl⟩ := mem_map.mp mem
    rw [markIf_info, groupReceived_map_markIf, markIf_flagged]
    by_cases same : old.info.sn = info.sn
    · rcases Stored.mem inList with rfl | kept
      · simp
      · obtain ⟨segment, newSegment⟩ := stored.segments kept same
        have oldFlag := stored.orderly.flags old kept
        simp only [groupReceived, segment, newSegment, same, Bool.not_true, Bool.false_or,
          decide_true, Bool.and_true, oldFlag]
        cases flagged : allByteSegmentsReceived (sameNumber info.sn (before ++ after)) with
        | false => rw [Bool.false_or]
        | true => rw [stored.received newSegment flagged, Bool.or_true]
    · have kept : old ∈ before ++ after := by
        rcases Stored.mem inList with rfl | kept
        · exact absurd rfl same
        · exact kept
      rw [decide_eq_false same, Bool.and_false, Bool.or_false, stored.orderly.flags old kept,
        groupReceived, groupReceived, sameNumber_other (Ne.symm same)]

end Stored

theorem reassemble_spec (buffer : List RxPdu) :
    (rxListReassembleRlcSdus buffer).1 ++ (rxListReassembleRlcSdus buffer).2 = buffer ∧
      (∀ pdu ∈ (rxListReassembleRlcSdus buffer).1, pdu.allSegmentsReceived) ∧
      ∀ next ∈ (rxListReassembleRlcSdus buffer).2.head?,
        next.allSegmentsReceived →
          ∃ last ∈ (rxListReassembleRlcSdus buffer).1.getLast?,
            next.info.sn ≠ last.info.sn ∧ next.info.sn ≠ nextSn last.info.sn := by
  induction buffer with
  | nil => simp [rxListReassembleRlcSdus]
  | cons head rest ih =>
    cases flagged : head.allSegmentsReceived with
    | false => simp [rxListReassembleRlcSdus, flagged]
    | true =>
      cases rest with
      | nil => simp [rxListReassembleRlcSdus, flagged]
      | cons next others =>
        rw [rxListReassembleRlcSdus, if_pos flagged]
        split
        · obtain ⟨joined, handed, stops⟩ := ih
          refine ⟨congrArg (cons head) joined, ?_, ?_⟩
          · intro pdu mem
            rcases mem_cons.mp mem with rfl | later
            · exact flagged
            · exact handed pdu later
          · intro first mem set
            obtain ⟨last, lastMember, apart⟩ := stops first mem set
            exact ⟨last, mem_getLast?_cons lastMember, apart⟩
        next stops =>
          push Not at stops
          refine ⟨rfl, by simpa using flagged, ?_⟩
          intro first mem set
          cases mem
          refine ⟨head, rfl, fun same => ?_, stops.1⟩
          exact absurd set (by simpa using stops.2 same)

theorem rxUpdateVrR_spec (bounded : vrR < rlcAmSnModulo) (list : List RxPdu) :
    ∃ count, rxUpdateVrR vrR list = snAt vrR count ∧
      ∀ index < count, ∃ pdu ∈ list, pdu.info.sn = snAt vrR index ∧
        pdu.allSegmentsReceived := by
  induction list generalizing vrR with
  | nil => exact ⟨0, (snAt_zero bounded).symm, nofun⟩
  | cons cursor rest ih =>
    have stays : ∃ count, vrR = snAt vrR count ∧ ∀ index < count, ∃ pdu ∈ cursor :: rest,
        pdu.info.sn = snAt vrR index ∧ pdu.allSegmentsReceived :=
      ⟨0, (snAt_zero bounded).symm, nofun⟩
    have moves (flagged : cursor.allSegmentsReceived) (atCursor : vrR = cursor.info.sn) :
        ∃ count, rxUpdateVrR (nextSn vrR) rest = snAt vrR count ∧
          ∀ index < count, ∃ pdu ∈ cursor :: rest, pdu.info.sn = snAt vrR index ∧
            pdu.allSegmentsReceived := by
      have next : nextSn vrR = snAt vrR 1 := by
        rw [← snAt_zero bounded, nextSn_snAt, snAt_zero bounded]
      obtain ⟨count, reached, passed⟩ := ih (next ▸ snAt_lt vrR 1)
      refine ⟨count + 1, ?_, ?_⟩
      · rw [reached, next, snAt_snAt, add_comm]
      · intro index below
        cases index with
        | zero => exact ⟨cursor, mem_cons_self, by rw [snAt_zero bounded, atCursor], flagged⟩
        | succ index =>
          obtain ⟨pdu, mem, sn, set⟩ := passed index (by omega)
          refine ⟨pdu, mem_cons_of_mem _ mem, ?_, set⟩
          rw [sn, next, snAt_snAt, add_comm]
    simp only [rxUpdateVrR]
    split
    · exact stays
    next passes =>
      push Not at passes
      have flagged : cursor.allSegmentsReceived := by simpa using passes.1
      split
      · split
        · exact moves flagged passes.2
        · obtain ⟨count, reached, passed⟩ := ih bounded
          refine ⟨count, reached, fun index below => ?_⟩
          obtain ⟨pdu, mem, found⟩ := passed index below
          exact ⟨pdu, mem_cons_of_mem _ mem, found⟩
      · exact moves flagged passes.2

theorem Precedes.le {left right : PduInfo} (precedes : Precedes vrR left right) :
    shiftedSn vrR left.sn ≤ shiftedSn vrR right.sn := by
  cases precedes with
  | inl nearer => exact le_of_lt nearer
  | inr gap => rw [gap.1]

theorem shiftedSn_snAt_sub (edge : vrR < rlcAmSnModulo) (notAbove : count ≤ shiftedSn vrR sn) :
    shiftedSn (snAt vrR count) sn = shiftedSn vrR sn - count := by
  rw [shiftedSn_eq _ _ edge] at *
  rw [shiftedSn_eq _ _ (snAt_lt vrR count)]
  simp only [snAt, rlcAmSnModulo] at *
  omega

section Delivering

variable {vrR : Nat} {buffer : List RxPdu}

theorem Orderly.alike (orderly : Orderly vrR buffer) (leftMember : left ∈ buffer)
    (rightMember : right ∈ buffer) (same : left.info.sn = right.info.sn) :
    left.allSegmentsReceived = right.allSegmentsReceived := by
  by_cases one : left = right
  · rw [one]
  · rw [orderly.flags left leftMember, orderly.flags right rightMember, groupReceived,
      groupReceived, orderly.ordered.segment_of_same leftMember rightMember one same,
      orderly.ordered.segment_of_same rightMember leftMember (Ne.symm one) same.symm, same]

theorem Orderly.segmentGroup (orderly : Orderly vrR buffer)
    (segments : ∀ pdu ∈ sameNumber sn buffer, pdu.info.rf) :
    SegmentGroup (sameNumber sn buffer) :=
  orderly.ordered.segmentGroup
    (fun pdu stored => ⟨orderly.reach pdu stored, orderly.nonempty pdu stored⟩)
    segments

private theorem Orderly.stops (orderly : Orderly vrR buffer)
    (nextMember : next ∈ (rxListReassembleRlcSdus buffer).2.head?)
    (lastMember : last ∈ (rxListReassembleRlcSdus buffer).1.getLast?) :
    last.info.sn ≠ next.info.sn := by
  obtain ⟨joined, handed, stops⟩ := reassemble_spec buffer
  have lastHanded := mem_of_getLast? lastMember
  have lastStored : last ∈ buffer := joined ▸ mem_append_left _ lastHanded
  have nextStored : next ∈ buffer :=
    joined ▸ mem_append_right _ (mem_of_mem_head? nextMember)
  intro same
  have flagged := (orderly.alike lastStored nextStored same).symm.trans (handed last lastHanded)
  obtain ⟨other, otherMember, apart, _⟩ := stops next nextMember flagged
  cases mem_unique otherMember lastMember
  exact apart same.symm

theorem Ordered.head_lowest (ordered : Ordered vrR kept) (nextMember : next ∈ kept.head?) :
    ∀ pdu ∈ kept, shiftedSn vrR next.info.sn ≤ shiftedSn vrR pdu.info.sn := by
  obtain ⟨back, rfl⟩ := head?_eq_some_iff.mp nextMember
  intro pdu mem
  rcases mem_cons.mp mem with rfl | later
  · exact le_refl _
  · exact ((pairwise_cons.mp ordered).1 pdu later).le

theorem Ordered.last_highest (ordered : Ordered vrR kept) (isLast : last ∈ kept.getLast?) :
    ∀ pdu ∈ kept, shiftedSn vrR pdu.info.sn ≤ shiftedSn vrR last.info.sn := by
  obtain ⟨front, rfl⟩ := getLast?_eq_some_iff.mp isLast
  intro pdu mem
  rcases mem_append.mp mem with earlier | only
  · exact ((pairwise_append.mp ordered).2.2 pdu earlier last (mem_singleton_self _)).le
  · rw [mem_singleton.mp only]

private theorem handed_le {handed : List RxPdu} (ordered : Ordered vrR (handed ++ kept))
    (nextMember : next ∈ kept.head?) (lastMember : last ∈ handed.getLast?) :
    (∀ pdu ∈ handed, shiftedSn vrR pdu.info.sn ≤ shiftedSn vrR last.info.sn) ∧
      shiftedSn vrR last.info.sn ≤ shiftedSn vrR next.info.sn ∧
      ∀ pdu ∈ kept, shiftedSn vrR next.info.sn ≤ shiftedSn vrR pdu.info.sn := by
  obtain ⟨front, back, cross⟩ := pairwise_append.mp ordered
  exact ⟨Ordered.last_highest front lastMember,
    (cross last (mem_of_getLast? lastMember) next (mem_of_mem_head? nextMember)).le,
    Ordered.head_lowest back nextMember⟩

theorem Orderly.handed_ne_kept (orderly : Orderly vrR buffer) (edge : vrR < rlcAmSnModulo)
    {handed kept : RxPdu} (handedMember : handed ∈ (rxListReassembleRlcSdus buffer).1)
    (keptMember : kept ∈ (rxListReassembleRlcSdus buffer).2) :
    shiftedSn vrR handed.info.sn < shiftedSn vrR kept.info.sn := by
  obtain ⟨joined, _, _⟩ := reassemble_spec buffer
  have ordered : Ordered vrR ((rxListReassembleRlcSdus buffer).1 ++
      (rxListReassembleRlcSdus buffer).2) := joined.symm ▸ orderly.ordered
  obtain ⟨last, lastMember⟩ := isSome_iff_exists.mp
    (getLast?_isSome.mpr (ne_nil_of_mem handedMember))
  obtain ⟨next, nextMember⟩ := isSome_iff_exists.mp
    (isSome_head?.mpr (ne_nil_of_mem keptMember))
  obtain ⟨toLast, lastNext, fromNext⟩ := handed_le ordered nextMember lastMember
  have apart := orderly.stops nextMember lastMember
  have lastReach := orderly.reach last
    (joined ▸ mem_append_left _ (mem_of_getLast? lastMember))
  have nextReach := orderly.reach next
    (joined ▸ mem_append_right _ (mem_of_mem_head? nextMember))
  have strict : shiftedSn vrR last.info.sn ≠ shiftedSn vrR next.info.sn := fun same =>
    apart (shiftedSn_injective edge lastReach.snBound nextReach.snBound same)
  have := toLast handed handedMember
  have := fromNext kept keptMember
  omega

theorem Orderly.kept_above (orderly : Orderly vrR buffer) (edge : vrR < rlcAmSnModulo)
    (passed : ∀ index < count, ∃ pdu ∈ buffer, pdu.info.sn = snAt vrR index ∧
      pdu.allSegmentsReceived) {kept : RxPdu}
    (mem : kept ∈ (rxListReassembleRlcSdus buffer).2) :
    count ≤ shiftedSn vrR kept.info.sn := by
  obtain ⟨joined, _, stops⟩ := reassemble_spec buffer
  have ordered : Ordered vrR ((rxListReassembleRlcSdus buffer).1 ++
      (rxListReassembleRlcSdus buffer).2) := joined.symm ▸ orderly.ordered
  obtain ⟨next, nextMember⟩ := isSome_iff_exists.mp
    (isSome_head?.mpr (ne_nil_of_mem mem))
  have nextKept := mem_of_mem_head? nextMember
  have nextStored : next ∈ buffer := joined ▸ mem_append_right _ nextKept
  have nextReach := orderly.reach next nextStored
  have lowest := Ordered.head_lowest (pairwise_append.mp ordered).2.1 nextMember
  suffices count ≤ shiftedSn vrR next.info.sn by
    exact this.trans (lowest kept mem)
  by_contra short
  obtain ⟨twin, twinStored, twinSn, set⟩ := passed _ (Nat.lt_of_not_le short)
  rw [snAt_shiftedSn edge nextReach.snBound] at twinSn
  have flagged := (orderly.alike nextStored twinStored twinSn.symm).trans set
  obtain ⟨last, lastMember, apart, notNext⟩ := stops next nextMember flagged
  obtain ⟨toLast, _, _⟩ := handed_le ordered nextMember lastMember
  have before := orderly.handed_ne_kept edge (mem_of_getLast? lastMember) nextKept
  have lastReach := orderly.reach last
    (joined ▸ mem_append_left _ (mem_of_getLast? lastMember))
  -- The number after the last one handed over is stored, so it is the next one.
  obtain ⟨between, betweenStored, betweenSn, _⟩ :=
    passed (shiftedSn vrR last.info.sn + 1) (by omega)
  have follows : nextSn last.info.sn = between.info.sn := by
    rw [betweenSn, ← nextSn_snAt, snAt_shiftedSn edge lastReach.snBound]
  have place : shiftedSn vrR between.info.sn = shiftedSn vrR last.info.sn + 1 := by
    rw [betweenSn, shiftedSn_snAt edge]
    have := shiftedSn_lt vrR next.info.sn
    omega
  rcases mem_append.mp (joined.symm ▸ betweenStored) with inHanded | inKept
  · have := toLast between inHanded
    omega
  · have := lowest between inKept
    have same : shiftedSn vrR between.info.sn = shiftedSn vrR next.info.sn := by omega
    exact notNext ((shiftedSn_injective edge nextReach.snBound
      (orderly.reach between betweenStored).snBound same.symm).trans follows.symm)

theorem Orderly.handOver (orderly : Orderly vrR buffer) (edge : vrR < rlcAmSnModulo)
    (passed : ∀ index < count, ∃ pdu ∈ buffer, pdu.info.sn = snAt vrR index ∧
      pdu.allSegmentsReceived) :
    Orderly (snAt vrR count) (rxListReassembleRlcSdus buffer).2 := by
  obtain ⟨joined, _, _⟩ := reassemble_spec buffer
  have stored : ∀ pdu ∈ (rxListReassembleRlcSdus buffer).2, pdu ∈ buffer := fun pdu mem =>
    joined ▸ mem_append_right _ mem
  have moved : ∀ pdu ∈ (rxListReassembleRlcSdus buffer).2,
      shiftedSn (snAt vrR count) pdu.info.sn = shiftedSn vrR pdu.info.sn - count :=
    fun pdu mem => shiftedSn_snAt_sub edge (orderly.kept_above edge passed mem)
  refine ⟨?_, ?_, fun pdu mem => orderly.nonempty pdu (stored pdu mem), ?_⟩
  · have ordered : Ordered vrR (rxListReassembleRlcSdus buffer).2 := by
      have whole := orderly.ordered
      rw [← joined] at whole
      exact (pairwise_append.mp whole).2.1
    refine Pairwise.imp_of_mem ?_ ordered
    intro left right leftMember rightMember precedes
    rcases precedes with nearer | gap
    · refine .inl ?_
      rw [moved left leftMember, moved right rightMember]
      have := orderly.kept_above edge passed leftMember
      omega
    · exact .inr gap
  · intro pdu mem
    have reach := orderly.reach pdu (stored pdu mem)
    refine ⟨reach.snBound, ?_, reach.sized⟩
    rw [moved pdu mem]
    exact lt_of_le_of_lt (sub_le _ _) reach.near
  · intro pdu mem
    have group : sameNumber pdu.info.sn buffer =
        sameNumber pdu.info.sn (rxListReassembleRlcSdus buffer).2 := by
      have none : sameNumber pdu.info.sn (rxListReassembleRlcSdus buffer).1 = [] := by
        refine filter_eq_nil_iff.mpr ?_
        intro handed handedMember same
        have strict := orderly.handed_ne_kept edge handedMember mem
        rw [of_decide_eq_true same] at strict
        exact absurd strict (lt_irrefl _)
      conv_lhs => rw [← joined, sameNumber, filter_append]
      exact congrArg (· ++ _) none
    rw [orderly.flags pdu (stored pdu mem), groupReceived, groupReceived, group]

end Delivering

def Receiver.stored (rx : Receiver) (octets : List UInt8) : List RxPdu :=
  match getDataPduInfos octets with
  | none => rx.receiverBuffer
  | some info =>
    if inWindow rx.vrR rx.vrMr info.sn then
      match rxListInsertPdu rx.vrR rx.vrMr rx.receiverBuffer info with
      | none => rx.receiverBuffer
      | some (before, after) => before ++ ⟨info, false⟩ :: after
    else rx.receiverBuffer

structure Receiver.Places (rx : Receiver) (octets : List UInt8) (info : PduInfo)
    (before after : List RxPdu) : Prop where
  decoded : getDataPduInfos octets = some info
  inside : inWindow rx.vrR rx.vrMr info.sn
  placed : rxListInsertPdu rx.vrR rx.vrMr rx.receiverBuffer info =
    some (before, after)

theorem Receiver.Places.stored_eq {octets : List UInt8}
    (places : rx.Places octets info before after) :
    rx.stored octets = before ++ ⟨info, false⟩ :: after := by
  simp [stored, places.decoded, places.inside, places.placed]

theorem Receiver.receiveProcessDataPdu_cases (rx : Receiver) (now : Nat)
    (octets : List UInt8) :
    (∃ requested, rx.receiveProcessDataPdu now octets =
        { rx with statusRequested := requested } ∧
      rx.stored octets = rx.receiverBuffer ∧
      ¬ ∃ info before after, rx.Places octets info before after) ∨
      ∃ info before after, rx.Places octets info before after ∧
        rx.receiveProcessDataPdu now octets =
          (placed { rx with statusRequested := rx.statusRequested || info.p }
            info before after).updateReordering now info.sn := by
  by_cases taken : ∃ info before after, rx.Places octets info before after
  · obtain ⟨info, before, after, places⟩ := taken
    refine .inr ⟨info, before, after, places, ?_⟩
    simp [receiveProcessDataPdu, places.decoded, places.inside, places.placed]
  · refine .inl ?_
    simp only [receiveProcessDataPdu, stored]
    cases decoded : getDataPduInfos octets with
    | none => exact ⟨rx.statusRequested, rfl, rfl, taken⟩
    | some info =>
      cases inside : inWindow rx.vrR rx.vrMr info.sn with
      | false => exact ⟨true, by simp [inside], by simp [inside], taken⟩
      | true =>
        cases placed : rxListInsertPdu rx.vrR rx.vrMr rx.receiverBuffer info with
        | none => exact ⟨true, by simp [inside, placed], by simp [inside, placed], taken⟩
        | some parts => exact absurd ⟨info, parts.1, parts.2, decoded, inside, placed⟩ taken

theorem Receiver.placed_eq (ordered : Ordered vrR (before ++ ⟨info, false⟩ :: after))
    (rx : Receiver) :
    rx.placed info before after =
      let complete := groupReceived (before ++ ⟨info, false⟩ :: after) info
      let tb := markIf complete info.sn ⟨info, false⟩
      let later := after.map (markIf complete info.sn)
      let content := (before ++ ⟨info, false⟩ :: after).map (markIf complete info.sn)
      let advances := info.sn = rx.vrR ∧ complete
      { rx with
        vrH := if snGte rx.vrR rx.vrH info.sn then nextSn info.sn else rx.vrH
        vrMs :=
          if info.sn = rx.vrMs ∧ complete = true then rxUpdateVrMs tb later
          else rx.vrMs
        vrR := if advances then rxUpdateVrR rx.vrR (tb :: later) else rx.vrR
        vrMr :=
          if advances then
            (rxUpdateVrR rx.vrR (tb :: later) + rlcAmWindowSize) % rlcAmSnModulo
          else rx.vrMr
        receiverBuffer :=
          if info.sn = rx.vrR then (rxListReassembleRlcSdus content).2 else content
        handed :=
          if info.sn = rx.vrR then
            rx.handed ++ (rxListReassembleRlcSdus content).1.map RxPdu.info
          else rx.handed } := by
  have check : rxCheckAllByteSegments before ⟨info, false⟩ after =
      (before.map (markIf (groupReceived (before ++ ⟨info, false⟩ :: after) info) info.sn),
        markIf (groupReceived (before ++ ⟨info, false⟩ :: after) info) info.sn ⟨info, false⟩,
        after.map (markIf (groupReceived (before ++ ⟨info, false⟩ :: after) info) info.sn)) :=
    rxCheckAllByteSegments_marks ordered
  have mark : (markIf (groupReceived (before ++ ⟨info, false⟩ :: after) info) info.sn
      ⟨info, false⟩).allSegmentsReceived =
        groupReceived (before ++ ⟨info, false⟩ :: after) info := by
    simp [markIf_flagged]
  simp only [placed, check, mark]
  by_cases awaited : info.sn = rx.vrR
  · cases complete : groupReceived (before ++ ⟨info, false⟩ :: after) info with
    | false => simp [awaited]
    | true => simp [awaited]
  · simp [awaited]

theorem rxCheckAllByteSegments_infos (before after : List RxPdu) (tb : RxPdu) :
    let (front, checked, back) := rxCheckAllByteSegments before tb after
    (front ++ checked :: back).map RxPdu.info = (before ++ tb :: after).map RxPdu.info := by
  have marked (group : List RxPdu) :
      (group.map RxPdu.marked).map RxPdu.info = group.map RxPdu.info := by
    rw [List.map_map]
    exact map_congr_left fun pdu _ => rfl
  have front (keep : RxPdu → Bool) : (before.rdropWhile keep).map RxPdu.info ++
      (before.rtakeWhile keep).map RxPdu.info = before.map RxPdu.info := by
    rw [← map_append, rdropWhile_append_rtakeWhile]
  have back (keep : RxPdu → Bool) : (after.takeWhile keep).map RxPdu.info ++
      (after.dropWhile keep).map RxPdu.info = after.map RxPdu.info := by
    rw [← map_append, takeWhile_append_dropWhile]
  simp only [rxCheckAllByteSegments]
  split
  · simp [RxPdu.marked]
  · split
    · simp only [map_append, map_cons, marked, front, back]
      rfl
    · rfl

theorem Receiver.placed_infos (rx : Receiver) (info : PduInfo) (before after : List RxPdu) :
    let next := rx.placed info before after
    let arrived := before.map RxPdu.info ++ info :: after.map RxPdu.info
    ∃ count ≤ arrived.length, next.handed = rx.handed ++ arrived.take count ∧
      next.receiverBuffer.map RxPdu.info = arrived.drop count := by
  have infos := rxCheckAllByteSegments_infos before after ⟨info, false⟩
  rcases result : rxCheckAllByteSegments before ⟨info, false⟩ after with ⟨front, checked, back⟩
  simp only [result, map_append, map_cons] at infos
  simp only [placed, result]
  split
  · have parts := congrArg (map RxPdu.info) (reassemble_spec (front ++ checked :: back)).1
    rw [map_append, map_append, map_cons, infos] at parts
    refine ⟨((rxListReassembleRlcSdus (front ++ checked :: back)).1.map RxPdu.info).length,
      ?_, ?_, ?_⟩
    · rw [← parts, length_append]
      exact le_add_right _ _
    · rw [← parts, take_left]
    · rw [← parts, drop_left]
  · refine ⟨0, zero_le _, ?_, ?_⟩
    · simp
    · simpa using infos

/-- The receiving window is sound and the buffer in order within it. -/
structure Receiver.InOrder (rx : Receiver) : Prop where
  edge : rx.vrR < rlcAmSnModulo
  vrMr : rx.vrMr = (rx.vrR + rlcAmWindowSize) % rlcAmSnModulo
  buffer : Orderly rx.vrR rx.receiverBuffer

theorem Receiver.InOrder.of_sameDelivery {other : Receiver} (inOrder : rx.InOrder)
    (same : rx.SameDelivery other) : other.InOrder where
  edge := same.vrR ▸ inOrder.edge
  vrMr := by rw [same.vrMr, same.vrR]; exact inOrder.vrMr
  buffer := by rw [same.receiverBuffer, same.vrR]; exact inOrder.buffer

theorem inOrder_init (msDuration : Nat) : (init msDuration).InOrder where
  edge := show 0 < rlcAmSnModulo by decide
  vrMr := by simp [init, rlcAmWindowSize, rlcAmSnModulo]
  buffer := by
    refine ⟨.nil, ?_, ?_, ?_⟩
    all_goals simp [init]

section Arrival

variable {rx : Receiver} {octets : List UInt8} {info : PduInfo} {before after : List RxPdu}

theorem Receiver.InOrder.store (inOrder : rx.InOrder)
    (places : rx.Places octets info before after) (wellFormed : WellFormed octets)
    (checked : ¬ UncheckedOverlap rx.vrR rx.vrMr rx.receiverBuffer info)
    (notBelow : ¬ BelowWrappedHead rx.vrR rx.vrMr rx.receiverBuffer info) :
    rx.receiverBuffer = before ++ after ∧ Stored rx.vrR before after info := by
  have nonempty := wellFormed.2 info places.decoded
  have inside := places.inside
  rw [inOrder.vrMr, inWindow_iff] at inside
  have reach : InReach rx.vrR info :=
    ⟨inside.1, inside.2, fun _ => getDataPduInfos_sized wellFormed.1 places.decoded nonempty⟩
  have place := rxListInsertPdu_sorted inOrder.edge inOrder.vrMr reach inOrder.buffer.reach
    inOrder.buffer.ordered checked notBelow places.placed
  have orderly := inOrder.buffer
  rw [place.split] at orderly
  exact ⟨place.split, orderly, orderly.ordered.insert place.left place.right, reach, nonempty⟩

theorem rxUpdateVrR_passed (before after : List RxPdu) (info : PduInfo)
    (edge : rx.vrR < rlcAmSnModulo) (complete : Bool) :
    ∃ count, rxUpdateVrR rx.vrR (markIf complete info.sn ⟨info, false⟩ ::
        after.map (markIf complete info.sn)) = snAt rx.vrR count ∧
      ∀ index < count, ∃ pdu ∈ (before ++ ⟨info, false⟩ :: after).map (markIf complete info.sn),
        pdu.info.sn = snAt rx.vrR index ∧ pdu.allSegmentsReceived := by
  obtain ⟨count, moved, passed⟩ := rxUpdateVrR_spec edge
    (markIf complete info.sn ⟨info, false⟩ :: after.map (markIf complete info.sn))
  refine ⟨count, moved, fun index below => ?_⟩
  obtain ⟨pdu, mem, found⟩ := passed index below
  refine ⟨pdu, ?_, found⟩
  rw [map_append]
  exact mem_append_right _ mem

theorem Receiver.InOrder.placed (inOrder : rx.InOrder)
    (stored : Stored rx.vrR before after info) :
    (rx.placed info before after).InOrder := by
  have checked := stored.orderly_checked
  rw [placed_eq stored.ordered]
  generalize groupReceived (before ++ ⟨info, false⟩ :: after) info = complete at checked ⊢
  by_cases awaited : info.sn = rx.vrR
  · cases complete with
    | false =>
      have handed := checked.handOver inOrder.edge fun _ below => absurd below (not_lt_zero _)
      rw [snAt_zero inOrder.edge] at handed
      refine ⟨?_, ?_, ?_⟩
      · simpa using inOrder.edge
      · simpa using inOrder.vrMr
      · simpa [awaited] using handed
    | true =>
      obtain ⟨count, moved, passed⟩ := rxUpdateVrR_passed before after info inOrder.edge true
      have handed := checked.handOver inOrder.edge passed
      simp only [awaited, and_self, if_true] at moved handed ⊢
      rw [moved]
      exact ⟨snAt_lt _ _, rfl, handed⟩
  · refine ⟨?_, ?_, ?_⟩
    · simpa [awaited] using inOrder.edge
    · simpa [awaited] using inOrder.vrMr
    · simpa [awaited] using checked

end Arrival

theorem Receiver.InOrder.step (inOrder : rx.InOrder) (wellFormed : input.WellFormed)
    (checked : InsertionChecked rx input) : (rx.step input).InOrder := by
  cases input with
  | timerCheck now => exact inOrder.of_sameDelivery (rx.checkTimerReordering_sameDelivery now)
  | dataPdu now octets =>
    rcases rx.receiveProcessDataPdu_cases now octets with
      ⟨requested, unchanged, _⟩ | ⟨info, before, after, places, stepped⟩
    · rw [step, unchanged]
      exact inOrder.of_sameDelivery ⟨rfl, rfl, rfl, rfl, rfl⟩
    · have polled : InOrder
          { rx with statusRequested := rx.statusRequested || info.p } :=
        inOrder.of_sameDelivery ⟨rfl, rfl, rfl, rfl, rfl⟩
      have stored := (inOrder.store places wellFormed (checked info places.decoded).1
        (checked info places.decoded).2).2
      rw [step, stepped]
      exact (polled.placed stored).of_sameDelivery (updateReordering_sameDelivery _ _ _).1

theorem Receiver.InOrder.infos_step (inOrder : rx.InOrder) (wellFormed : input.WellFormed)
    (checked : InsertionChecked rx input) {holds : PduInfo → Prop}
    (held : ∀ pdu ∈ rx.receiverBuffer, holds pdu.info)
    (arrives : ∀ info, input.Brings info → holds info) :
    ∀ pdu ∈ (rx.step input).receiverBuffer, holds pdu.info := by
  cases input with
  | timerCheck now =>
    rw [Receiver.step, (rx.checkTimerReordering_sameDelivery now).receiverBuffer]
    exact held
  | dataPdu now octets =>
    rcases rx.receiveProcessDataPdu_cases now octets with
      ⟨requested, unchanged, _⟩ | ⟨info, before, after, places, stepped⟩
    · rw [Receiver.step, unchanged]
      exact held
    · have split := (inOrder.store places wellFormed (checked info places.decoded).1
        (checked info places.decoded).2).1
      obtain ⟨count, _, _, kept⟩ := Receiver.placed_infos
        { rx with statusRequested := rx.statusRequested || info.p } info before after
      rw [Receiver.step, stepped, (Receiver.updateReordering_sameDelivery _ _ _).1.receiverBuffer]
      intro pdu mem
      have stored := mem_map_of_mem (f := RxPdu.info) mem
      rw [kept] at stored
      have found := mem_of_mem_drop stored
      rw [split] at held
      rcases mem_append.mp found with earlier | rest
      · obtain ⟨old, oldMember, same⟩ := mem_map.mp earlier
        exact same ▸ held old (mem_append_left _ oldMember)
      · rcases mem_cons.mp rest with new | later
        · exact new ▸ arrives info places.decoded
        · obtain ⟨old, oldMember, same⟩ := mem_map.mp later
          exact same ▸ held old (mem_append_right _ oldMember)

theorem Receiver.InOrder.run (inOrder : rx.InOrder) {inputs : List RxInput}
    (wellFormed : ∀ input ∈ inputs, input.WellFormed)
    (checked : Along InsertionChecked rx inputs) : (rx.run inputs).InOrder := by
  induction inputs generalizing rx with
  | nil => exact inOrder
  | cons input rest ih =>
    refine ih (inOrder.step (wellFormed input mem_cons_self) checked.1) ?_ checked.2
    exact fun other mem => wellFormed other (mem_cons_of_mem _ mem)

end OpenAir.RlcAm
