import OpenAir.RlcAm.Delivery

/-! A PDU placed in the buffer is flagged, together with the other segments of
its number, only if they cover the whole AMD PDU; the buffer keeps its meaning. -/

set_option autoImplicit false

namespace OpenAir.RlcAm

open List

def markIf (complete : Bool) (sn : Nat) (pdu : RxPdu) : RxPdu :=
  if complete && decide (pdu.info.sn = sn) then pdu.marked else pdu

@[simp] theorem markIf_info (complete : Bool) (sn : Nat) (pdu : RxPdu) :
    (markIf complete sn pdu).info = pdu.info := by
  unfold markIf
  split
  · rfl
  · rfl

variable {offset size sn : Nat} {head pdu : RxPdu} {group rest : List RxPdu} {complete : Bool}

theorem markIf_other (other : pdu.info.sn ≠ sn) :
    markIf complete sn pdu = pdu := by
  simp [markIf, other]

private theorem map_markIf_unchanged {list : List RxPdu}
    (unchanged : ∀ pdu ∈ list, markIf complete sn pdu = pdu) :
    list.map (markIf complete sn) = list :=
  (map_congr_left unchanged).trans (List.map_id' list)

@[simp] theorem map_markIf_false (sn : Nat) (list : List RxPdu) :
    list.map (markIf false sn) = list :=
  map_markIf_unchanged fun pdu _ => by simp [markIf]

theorem markIf_flagged :
    (markIf complete sn pdu).allSegmentsReceived =
      (pdu.allSegmentsReceived || (complete && decide (pdu.info.sn = sn))) := by
  unfold markIf
  split
  next selected => simp [RxPdu.marked, selected]
  next skipped => simp only [Bool.not_eq_true] at skipped; simp [skipped]

theorem filter_map_markIf {number : Nat} (buffer : List RxPdu) :
    (buffer.map (markIf complete sn)).filter (fun pdu => decide (pdu.info.sn = number)) =
      (buffer.filter fun pdu => decide (pdu.info.sn = number)).map (markIf complete sn) := by
  rw [List.filter_map]
  simp [Function.comp_def]

def sameNumber (sn : Nat) (buffer : List RxPdu) : List RxPdu :=
  buffer.filter fun pdu => decide (pdu.info.sn = sn)

private theorem Precedes.sn_between {vrR : Nat} {first second third : PduInfo}
    (left : Precedes vrR first second) (right : Precedes vrR second third)
    (same : first.sn = third.sn) : second.sn = third.sn := by
  cases right with
  | inr alike => exact alike.1
  | inl nearer =>
    cases left with
    | inr alike => exact alike.1.symm.trans same
    | inl nearest =>
      rw [same] at nearest
      omega

section Check

variable {vrR : Nat} {before after : List RxPdu} {tb : RxPdu}

variable (ordered : Ordered vrR (before ++ tb :: after))

include ordered

private theorem before_run :
    before.Pairwise fun left right =>
      decide (left.info.sn = tb.info.sn) → decide (right.info.sn = tb.info.sn) := by
  obtain ⟨pairs, _, cross⟩ := pairwise_append.mp ordered
  refine pairs.imp_of_mem ?_
  intro left right _ rightMember precedes same
  have next := cross right rightMember tb mem_cons_self
  exact decide_eq_true (precedes.sn_between next (of_decide_eq_true same))

private theorem after_run :
    after.Pairwise fun left right =>
      decide (right.info.sn = tb.info.sn) → decide (left.info.sn = tb.info.sn) := by
  obtain ⟨_, tail, _⟩ := pairwise_append.mp ordered
  obtain ⟨headFirst, pairs⟩ := pairwise_cons.mp tail
  refine pairs.imp_of_mem ?_
  intro left right leftMember _ precedes same
  have first := headFirst left leftMember
  have sameSn : right.info.sn = tb.info.sn := of_decide_eq_true same
  exact decide_eq_true ((first.sn_between precedes sameSn.symm).trans sameSn)

/-- In a sorted buffer, walking to both sides of the new element reaches every
element of its number. -/
theorem rxCheckAllByteSegments_marks :
    rxCheckAllByteSegments before tb after =
      (before.map (markIf (!tb.info.rf ||
          allByteSegmentsReceived (sameNumber tb.info.sn (before ++ tb :: after))) tb.info.sn),
        markIf (!tb.info.rf ||
          allByteSegmentsReceived (sameNumber tb.info.sn (before ++ tb :: after))) tb.info.sn tb,
        after.map (markIf (!tb.info.rf ||
          allByteSegmentsReceived (sameNumber tb.info.sn (before ++ tb :: after)))
            tb.info.sn)) := by
  cases segment : tb.info.rf with
  | false =>
    obtain ⟨_, tail, cross⟩ := pairwise_append.mp ordered
    -- A whole PDU shares its number with no other element.
    have alone (pdu : RxPdu) (related : Precedes vrR pdu.info tb.info ∨
        Precedes vrR tb.info pdu.info) : markIf true tb.info.sn pdu = pdu := by
      refine markIf_other ?_
      intro same
      cases related with
      | inl precedes => simp [(precedes.gap same).2.1] at segment
      | inr precedes => simp [(precedes.gap same.symm).1] at segment
    have beforeKept : before.map (markIf true tb.info.sn) = before := by
      refine map_markIf_unchanged ?_
      intro pdu mem
      exact alone pdu (.inl (cross pdu mem tb mem_cons_self))
    have afterKept : after.map (markIf true tb.info.sn) = after := by
      refine map_markIf_unchanged ?_
      intro pdu mem
      exact alone pdu (.inr ((pairwise_cons.mp tail).1 pdu mem))
    rw [Bool.not_false, Bool.true_or, beforeKept, afterKept]
    simp [rxCheckAllByteSegments, segment, markIf]
  | true =>
    have collected : before.rtakeWhile (fun pdu => decide (pdu.info.sn = tb.info.sn)) ++
        tb :: after.takeWhile (fun pdu => decide (pdu.info.sn = tb.info.sn)) =
          sameNumber tb.info.sn (before ++ tb :: after) := by
      rw [Base.rtakeWhile_eq_filter (before_run ordered),
        Base.takeWhile_eq_filter (after_run ordered), sameNumber, filter_append,
        filter_cons_of_pos (by simp)]
    simp only [rxCheckAllByteSegments, segment, Bool.true_eq_false, if_false, collected,
      Bool.not_true, Bool.false_or]
    cases complete : allByteSegmentsReceived (sameNumber tb.info.sn (before ++ tb :: after)) with
    | false => simp [markIf]
    | true =>
      rw [if_pos rfl, Base.rdropWhile_append_map_rtakeWhile _ (before_run ordered),
        Base.map_takeWhile_append_dropWhile _ (after_run ordered)]
      simp [markIf]

end Check

structure SegmentRun (pdus : Nat → AmdPdu) (index : Nat) (group : List RxPdu) : Prop where
  parts : ∀ pdu ∈ group, IsPart pdus index pdu.info
  sized : ∀ pdu ∈ group, pdu.info.rf → pdu.info.payloadSize = pdu.info.payload.length
  disjoint : group.Pairwise fun left right =>
    left.info.rf ∧ left.info.so + left.info.payload.length ≤ right.info.so

section Runs

variable {pdus : Nat → AmdPdu} {index : Nat}

private theorem SegmentRun.tail (run : SegmentRun pdus index (head :: rest)) :
    SegmentRun pdus index rest where
  parts pdu mem := run.parts pdu (mem_cons_of_mem _ mem)
  sized pdu mem := run.sized pdu (mem_cons_of_mem _ mem)
  disjoint := (pairwise_cons.mp run.disjoint).2

private theorem SegmentRun.tail_nil (run : SegmentRun pdus index (head :: rest))
    (ends : head.info.endsPdu) :
    rest = [] := by
  cases rest with
  | nil => rfl
  | cons next others =>
    have size := (run.parts head mem_cons_self).endsPdu_iff.mp ends
    have gap := (pairwise_cons.mp run.disjoint).1 next mem_cons_self
    have nextPart := run.parts next (by simp)
    have := nextPart.within
    have := nextPart.length_pos
    omega

private theorem SegmentRun.tiles_of_reaches (run : SegmentRun pdus index group)
    (later : ∀ pdu ∈ group, offset ≤ pdu.info.so) (reaches : reachesLastSegment offset group) :
    Tiles (pdus index).payload.length offset group := by
  induction group generalizing offset with
  | nil => cases reaches
  | cons head rest ih =>
    have part := run.parts head mem_cons_self
    have notBefore := later head mem_cons_self
    simp only [reachesLastSegment] at reaches
    split at reaches
    · cases reaches
    next inside =>
      push Not at inside
      have segment : head.info.rf := by simpa using inside.1
      have starts : head.info.so = offset := by omega
      refine ⟨starts, ?_⟩
      split at reaches
      next last =>
        have ends : head.info.endsPdu := by simp [PduInfo.endsPdu, last]
        rw [run.tail_nil ends, ← starts]
        exact part.endsPdu_iff.mp ends
      · refine ih run.tail ?_ ?_
        · intro pdu mem
          have := ((pairwise_cons.mp run.disjoint).1 pdu mem).2
          omega
        · rw [run.sized head mem_cons_self segment, starts] at reaches
          exact_mod_cast reaches

theorem SegmentRun.tiles (run : SegmentRun pdus index group)
    (segments : ∀ pdu ∈ group, pdu.info.rf) (received : allByteSegmentsReceived group) :
    Tiles (pdus index).payload.length 0 group := by
  cases group with
  | nil => cases received
  | cons first rest =>
    simp only [allByteSegmentsReceived] at received
    split at received
    · cases received
    next atStart =>
      have starts : first.info.so = 0 := by simpa using atStart
      refine ⟨starts, ?_⟩
      rw [run.sized first mem_cons_self (segments first mem_cons_self)] at received
      refine run.tail.tiles_of_reaches ?_ (by simpa using received)
      intro pdu mem
      have := ((pairwise_cons.mp run.disjoint).1 pdu mem).2
      omega

end Runs

def PduInfo.Covers (info : PduInfo) (octet : Nat) : Prop :=
  info.so ≤ octet ∧ octet < info.so + info.payload.length

instance coversDecidable (info : PduInfo) (octet : Nat) : Decidable (info.Covers octet) :=
  inferInstanceAs (Decidable (_ ∧ _))

structure SegmentGroup (group : List RxPdu) : Prop where
  segments : ∀ pdu ∈ group, pdu.info.rf
  sized : ∀ pdu ∈ group, pdu.info.payloadSize = pdu.info.payload.length
  nonempty : ∀ pdu ∈ group, pdu.info.payload ≠ []
  apart : group.Pairwise fun left right => left.info.so + left.info.payload.length ≤ right.info.so

theorem SegmentGroup.sublist {other : List RxPdu} (run : SegmentGroup group)
    (sub : other.Sublist group) : SegmentGroup other where
  segments pdu mem := run.segments pdu (sub.subset mem)
  sized pdu mem := run.sized pdu (sub.subset mem)
  nonempty pdu mem := run.nonempty pdu (sub.subset mem)
  apart := run.apart.sublist sub

theorem SegmentGroup.reachesLastSegment_iff {group : List RxPdu} (run : SegmentGroup group)
    {offset : Nat} (behind : ∀ pdu ∈ group, offset ≤ pdu.info.so) :
    reachesLastSegment offset group = true ↔
      ∃ last ∈ group, last.info.lsf ∧
        ∀ octet, offset ≤ octet → octet < last.info.so + last.info.payload.length →
          ∃ pdu ∈ group, pdu.info.Covers octet := by
  induction group generalizing offset with
  | nil => simp [reachesLastSegment]
  | cons cursor rest ih =>
    have segment := run.segments cursor mem_cons_self
    have size := run.sized cursor mem_cons_self
    have notBefore := behind cursor mem_cons_self
    have later := (pairwise_cons.mp run.apart).1
    have following := ih (run.sublist (sublist_cons_self ..)) later
    rw [Int.natCast_add, ← size] at following
    simp only [reachesLastSegment, segment, Bool.true_eq_false, false_or, Int.ofNat_lt]
    by_cases gap : offset < cursor.info.so
    · rw [if_pos gap]
      refine ⟨fun reached => absurd reached Bool.false_ne_true, ?_⟩
      rintro ⟨last, mem, _, covered⟩
      have filledLast := length_pos_of_ne_nil (run.nonempty last mem)
      have notBeforeLast := behind last mem
      obtain ⟨pdu, stored, starts, _⟩ := covered offset le_rfl (by omega)
      rcases mem_cons.mp stored with rfl | other
      · omega
      · have := later pdu other
        omega
    · rw [if_neg gap]
      cases isLast : cursor.info.lsf with
      | true =>
        refine ⟨fun _ => ⟨cursor, mem_cons_self, isLast, fun octet above below => ?_⟩, fun _ => rfl⟩
        exact ⟨cursor, mem_cons_self, by omega, below⟩
      | false =>
        rw [if_neg Bool.false_ne_true, following]
        constructor
        · rintro ⟨last, mem, set, covered⟩
          refine ⟨last, mem_cons_of_mem _ mem, set, fun octet above below => ?_⟩
          by_cases inCursor : octet < cursor.info.so + cursor.info.payload.length
          · exact ⟨cursor, mem_cons_self, by omega, inCursor⟩
          · obtain ⟨pdu, stored, covers⟩ := covered octet (by omega) below
            exact ⟨pdu, mem_cons_of_mem _ stored, covers⟩
        · rintro ⟨last, mem, set, covered⟩
          rcases mem_cons.mp mem with rfl | inRest
          · cases isLast.symm.trans set
          · refine ⟨last, inRest, set, fun octet above below => ?_⟩
            obtain ⟨pdu, stored, covers⟩ := covered octet (by omega) below
            rcases mem_cons.mp stored with rfl | other
            · exact absurd covers.2 (by omega)
            · exact ⟨pdu, other, covers⟩

theorem SegmentGroup.insert {front back : List RxPdu} {tb : RxPdu}
    (run : SegmentGroup (front ++ tb :: back))
    (received : allByteSegmentsReceived (front ++ back)) :
    allByteSegmentsReceived (front ++ tb :: back) := by
  cases front with
  | nil =>
    cases back with
    | nil => cases received
    | cons first rest =>
      have room := length_pos_of_ne_nil (run.nonempty tb mem_cons_self)
      have gap := (pairwise_cons.mp run.apart).1 first mem_cons_self
      simp only [nil_append, allByteSegmentsReceived] at received
      split at received
      · cases received
      · omega
  | cons first rest =>
    have later : ∀ pdu ∈ rest ++ tb :: back, first.info.payload.length ≤ pdu.info.so :=
      fun pdu mem => (Nat.le_add_left ..).trans ((pairwise_cons.mp run.apart).1 pdu mem)
    simp only [cons_append, allByteSegmentsReceived] at received ⊢
    split at received
    · cases received
    next atStart =>
      rw [if_neg atStart]
      rw [run.sized first mem_cons_self] at received ⊢
      have walked := run.sublist (sublist_cons_self first (rest ++ tb :: back))
      have fewer := (sublist_cons_self tb back).append_left rest
      rw [(walked.sublist fewer).reachesLastSegment_iff fun pdu mem =>
        later pdu (fewer.subset mem)] at received
      rw [walked.reachesLastSegment_iff later]
      obtain ⟨last, mem, set, covered⟩ := received
      refine ⟨last, fewer.subset mem, set, fun octet above below => ?_⟩
      obtain ⟨pdu, stored, covers⟩ := covered octet above below
      exact ⟨pdu, fewer.subset stored, covers⟩

end OpenAir.RlcAm
