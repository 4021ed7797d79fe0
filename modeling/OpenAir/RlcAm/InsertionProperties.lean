import Mathlib.Data.List.Chain
import OpenAir.RlcAm.ReceiverBuffer

/-! Insertion keeps the receiver buffer sorted by distance from VR(R) and, for
segments of one PDU, by disjoint byte ranges, except in the two situations the
insertion loops of the wrapped window do not check. -/

set_option autoImplicit false

namespace OpenAir.RlcAm

open List Option

structure InReach (vrR : Nat) (info : PduInfo) : Prop where
  snBound : info.sn < rlcAmSnModulo
  near : shiftedSn vrR info.sn < rlcAmWindowSize
  sized : info.rf → info.payloadSize = info.payload.length

def Precedes (vrR : Nat) (left right : PduInfo) : Prop :=
  shiftedSn vrR left.sn < shiftedSn vrR right.sn ∨
    (left.sn = right.sn ∧ left.rf ∧ right.rf ∧ left.so + left.payload.length ≤ right.so)

def Ordered (vrR : Nat) (buffer : List RxPdu) : Prop :=
  buffer.Pairwise fun left right => Precedes vrR left.info right.info

def StartsBefore (vrR : Nat) (left right : PduInfo) : Prop :=
  shiftedSn vrR left.sn < shiftedSn vrR right.sn ∨
    (left.sn = right.sn ∧ left.rf ∧ right.rf ∧ left.so < right.so)

variable {left right vrMr vrR : Nat} {after before buffer : List RxPdu} {cursor pdu : PduInfo}
  {previous : Option PduInfo} {last : RxPdu} {ending : SearchEnd}

theorem Precedes.trans {first second third : PduInfo} (left : Precedes vrR first second)
    (right : Precedes vrR second third) :
    Precedes vrR first third := by
  cases left with
  | inl nearer =>
    cases right with
    | inl nearest => exact .inl (nearer.trans nearest)
    | inr same => exact .inl (same.1 ▸ nearer)
  | inr same =>
    cases right with
    | inl nearer => exact .inl (same.1.symm ▸ nearer)
    | inr alike =>
      obtain ⟨sameSn, firstSegment, _, gap⟩ := same
      obtain ⟨alikeSn, _, thirdSegment, widerGap⟩ := alike
      exact .inr ⟨sameSn.trans alikeSn, firstSegment, thirdSegment, by omega⟩

theorem Precedes.gap {left right : PduInfo} (precedes : Precedes vrR left right)
    (same : left.sn = right.sn) :
    left.rf ∧ right.rf ∧ left.so + left.payload.length ≤ right.so := by
  rcases precedes with nearer | gap
  · rw [same] at nearer
    exact absurd nearer (lt_irrefl _)
  · exact gap.2

instance precedesTrans (vrR : Nat) :
    Trans (fun left right : RxPdu => Precedes vrR left.info right.info)
      (fun left right : RxPdu => Precedes vrR left.info right.info)
      (fun left right : RxPdu => Precedes vrR left.info right.info) where
  trans := Precedes.trans

theorem Ordered.insert {tb : RxPdu} (ordered : Ordered vrR (before ++ after))
    (left : ∀ pdu ∈ before.getLast?, Precedes vrR pdu.info tb.info)
    (right : ∀ pdu ∈ after.head?, Precedes vrR tb.info pdu.info) :
    Ordered vrR (before ++ tb :: after) := by
  unfold Ordered at *
  rw [← isChain_iff_pairwise, isChain_append] at ordered
  rw [← isChain_iff_pairwise, isChain_append, isChain_cons]
  obtain ⟨beforeChain, afterChain, _⟩ := ordered
  refine ⟨beforeChain, ⟨right, afterChain⟩, ?_⟩
  intro pdu last next head
  cases head
  exact left pdu last

private theorem shiftedSn_lt_iff_above (leftBound : left < rlcAmSnModulo)
    (rightBound : right < rlcAmSnModulo) (leftAbove : vrR ≤ left) (rightAbove : vrR ≤ right) :
    shiftedSn vrR left < shiftedSn vrR right ↔ left < right := by
  rw [shiftedSn_of_ge leftBound leftAbove, shiftedSn_of_ge rightBound rightAbove]
  omega

private theorem shiftedSn_lt_iff_below (edge : vrR < rlcAmSnModulo) (leftBelow : left < vrR)
    (rightBelow : right < vrR) :
    shiftedSn vrR left < shiftedSn vrR right ↔ left < right := by
  rw [shiftedSn_of_lt edge leftBelow, shiftedSn_of_lt edge rightBelow]
  omega

private theorem precedes_of_lastSo {left right : PduInfo} (reach : InReach vrR left)
    (ahead : shiftedSn vrR left.sn < shiftedSn vrR right.sn ∨
      (left.sn = right.sn ∧ left.rf ∧ right.rf ∧ left.lastSo < right.so)) :
    Precedes vrR left right := by
  refine ahead.imp_right ?_
  rintro ⟨sameSn, segment, also, gap⟩
  rw [PduInfo.lastSo, reach.sized segment] at gap
  exact ⟨sameSn, segment, also, by omega⟩

private theorem precedes_of_checked {left right : PduInfo} (starts : StartsBefore vrR left right)
    (reach : InReach vrR left) (checked : left.sn = right.sn → left.rf → right.rf →
      left.so < right.so → left.lastSo < right.so) :
    Precedes vrR left right := by
  refine precedes_of_lastSo reach (starts.imp_right ?_)
  rintro ⟨sameSn, segment, also, before⟩
  exact ⟨sameSn, segment, also, checked sameSn segment also before⟩

theorem forwardStep_insert (step : forwardStep pdu previous cursor = .insert) :
    (pdu.sn < cursor.sn ∨
        (pdu.sn = cursor.sn ∧ pdu.rf ∧ cursor.rf ∧ pdu.lastSo < cursor.so)) ∧
      ∀ last ∈ previous, last.sn = pdu.sn → last.rf → pdu.rf →
        last.lastSo < pdu.so := by
  unfold forwardStep at step
  cases previous with
  | none => grind
  | some last => grind

theorem forwardStep_advance (step : forwardStep pdu previous cursor = .advance) :
    cursor.sn < pdu.sn ∨
      (cursor.sn = pdu.sn ∧ cursor.rf ∧ pdu.rf ∧ cursor.so < pdu.so) := by
  unfold forwardStep at step
  cases previous with
  | none => grind
  | some last => grind

theorem backwardStep_insert (step : backwardStep pdu previous cursor = .insert) :
    (cursor.sn < pdu.sn ∨
        (cursor.sn = pdu.sn ∧ cursor.rf ∧ pdu.rf ∧ cursor.lastSo < pdu.so)) ∧
      ∀ next ∈ previous, cursor.sn = pdu.sn → next.sn = pdu.sn → pdu.lastSo < next.so := by
  unfold backwardStep at step
  cases previous with
  | none => grind
  | some next => grind

theorem backwardStep_advance (step : backwardStep pdu previous cursor = .advance) :
    pdu.sn < cursor.sn ∨
      (pdu.sn = cursor.sn ∧ pdu.rf ∧ cursor.rf ∧ pdu.so < cursor.so) := by
  unfold backwardStep at step
  cases previous with
  | none => grind
  | some next => grind

def ForwardOutcome (vrR : Nat) (inRange : Nat → Bool) (pdu : PduInfo) (buffer : List RxPdu) :
    SearchEnd → Prop
  | .dropped => True
  | .inserted before after =>
    buffer = before ++ after ∧ (∀ last ∈ before.getLast?, Precedes vrR last.info pdu) ∧
      ∀ next ∈ after.head?, Precedes vrR pdu next.info
  | .stopped before after =>
    buffer = before ++ after ∧ (∀ last ∈ before.getLast?, StartsBefore vrR last.info pdu) ∧
      ∃ next ∈ after.head?, inRange next.info.sn = false
  | .exhausted => ∀ last ∈ buffer.getLast?, StartsBefore vrR last.info pdu

theorem forwardSearch_outcome (inRange : Nat → Bool) (above : vrR ≤ pdu.sn)
    (pduReach : InReach vrR pdu) (passed rest : List RxPdu)
    (reach : ∀ element ∈ passed ++ rest, InReach vrR element.info)
    (rangeAbove : ∀ element ∈ rest, inRange element.info.sn → vrR ≤ element.info.sn)
    (starts : ∀ last ∈ passed.getLast?, StartsBefore vrR last.info pdu) :
    ForwardOutcome vrR inRange pdu (passed ++ rest) (forwardSearch inRange pdu passed rest) := by
  induction rest generalizing passed with
  | nil =>
    simp only [append_nil]
    exact starts
  | cons cursor rest ih =>
    have cursorReach := reach cursor (by simp)
    cases ranged : inRange cursor.info.sn with
    | false =>
      simp only [forwardSearch, ranged, Bool.false_eq_true, if_false]
      exact ⟨rfl, starts, cursor, rfl, ranged⟩
    | true =>
      have cursorAbove := rangeAbove cursor (by simp) ranged
      simp only [forwardSearch, ranged, if_true]
      cases step : forwardStep pdu (passed.getLast?.map RxPdu.info) cursor.info with
      | drop => exact trivial
      | insert =>
        obtain ⟨ahead, checked⟩ := forwardStep_insert step
        refine ⟨rfl, ?_, ?_⟩
        · intro last mem
          have lastReach := reach last
            (mem_append_left _ (mem_of_getLast? mem))
          refine precedes_of_checked (starts last mem) lastReach ?_
          intro sameSn segment pduSegment _
          exact checked last.info (Option.mem_map_of_mem _ mem) sameSn segment pduSegment
        · intro next mem
          cases mem
          exact precedes_of_lastSo pduReach (ahead.imp_left (shiftedSn_lt_iff_above
            pduReach.snBound cursorReach.snBound above cursorAbove).mpr)
      | advance =>
        have passes : StartsBefore vrR cursor.info pdu :=
          (forwardStep_advance step).imp_left (shiftedSn_lt_iff_above cursorReach.snBound
            pduReach.snBound cursorAbove above).mpr
        have reachNext : ∀ element ∈ (passed ++ [cursor]) ++ rest, InReach vrR element.info := by
          simpa using reach
        have next := ih (passed ++ [cursor]) reachNext
          (fun element mem => rangeAbove element (mem_cons_of_mem _ mem))
          (by simpa using passes)
        simpa using next

def BackwardOutcome (vrR : Nat) (inRange : Nat → Bool) (pdu : PduInfo) (buffer : List RxPdu) :
    SearchEnd → Prop
  | .dropped => True
  | .inserted before after =>
    buffer = before ++ after ∧
      (∃ last ∈ before.getLast?, Precedes vrR last.info pdu ∧
        ∀ next ∈ after.head?, last.info.sn = pdu.sn → Precedes vrR pdu next.info) ∧
      ∀ next ∈ after.head?, StartsBefore vrR pdu next.info
  | .stopped before after =>
    buffer = before ++ after ∧ (∃ last ∈ before.getLast?, inRange last.info.sn = false) ∧
      ∀ next ∈ after.head?, StartsBefore vrR pdu next.info
  | .exhausted =>
    (∀ element ∈ buffer, inRange element.info.sn) ∧
      ∀ first ∈ buffer.head?, StartsBefore vrR pdu first.info

theorem backwardSearch_outcome (inRange : Nat → Bool) (edge : vrR < rlcAmSnModulo)
    (below : pdu.sn < vrR) (pduReach : InReach vrR pdu) (rest passed : List RxPdu)
    (reach : ∀ element ∈ rest.reverse ++ passed, InReach vrR element.info)
    (rangeBelow : ∀ element ∈ rest, inRange element.info.sn → element.info.sn < vrR)
    (passedRange : ∀ element ∈ passed, inRange element.info.sn)
    (starts : ∀ next ∈ passed.head?, StartsBefore vrR pdu next.info) :
    BackwardOutcome vrR inRange pdu (rest.reverse ++ passed)
      (backwardSearch inRange pdu rest passed) := by
  induction rest generalizing passed with
  | nil =>
    exact ⟨passedRange, starts⟩
  | cons cursor rest ih =>
    have cursorReach := reach cursor (by simp)
    cases ranged : inRange cursor.info.sn with
    | false =>
      simp only [backwardSearch, ranged, Bool.false_eq_true, if_false]
      exact ⟨rfl, ⟨cursor, by simp, ranged⟩, starts⟩
    | true =>
      have cursorBelow := rangeBelow cursor (by simp) ranged
      simp only [backwardSearch, ranged, if_true]
      cases step : backwardStep pdu (passed.head?.map RxPdu.info) cursor.info with
      | drop => exact trivial
      | insert =>
        obtain ⟨behind, checked⟩ := backwardStep_insert step
        refine ⟨rfl, ⟨cursor, by simp, ?_, ?_⟩, starts⟩
        · exact precedes_of_lastSo cursorReach
            (behind.imp_left (shiftedSn_lt_iff_below edge cursorBelow below).mpr)
        · intro next mem sameSn
          refine precedes_of_checked (starts next mem) pduReach ?_
          intro nextSn _ _ _
          exact checked next.info (Option.mem_map_of_mem _ mem) sameSn nextSn.symm
      | advance =>
        have passes : StartsBefore vrR pdu cursor.info :=
          (backwardStep_advance step).imp_left (shiftedSn_lt_iff_below edge below cursorBelow).mpr
        have reachNext : ∀ element ∈ rest.reverse ++ cursor :: passed,
            InReach vrR element.info := by simpa using reach
        have next := ih (cursor :: passed) reachNext
          (fun element mem => rangeBelow element (mem_cons_of_mem _ mem))
          (by simpa [ranged] using passedRange) (by simpa using passes)
        simpa using next

/-- The new PDU's range overlaps that of a neighbour the wrapped-window loops
do not compare it with: the last element before the numbers restart, or the
first element of its own number when the walk from the tail stops before it. -/
inductive UncheckedOverlap (vrR vrMr : Nat) (buffer : List RxPdu) (pdu : PduInfo) : Prop where
  | ahead (before after : List RxPdu) (last next : RxPdu) (wrapped : vrMr < vrR)
      (split : buffer = before ++ last :: next :: after) (above : vrR ≤ pdu.sn)
      (restarts : next.info.sn < vrR) (sameSn : last.info.sn = pdu.sn)
      (segments : last.info.rf ∧ pdu.rf)
      (overlap : last.info.so < pdu.so ∧ pdu.so ≤ last.info.lastSo)
  | behind (before after : List RxPdu) (last next : RxPdu) (wrapped : vrMr < vrR)
      (split : buffer = before ++ last :: next :: after) (below : pdu.sn < vrR)
      (otherSn : last.info.sn ≠ pdu.sn) (sameSn : next.info.sn = pdu.sn)
      (segments : next.info.rf ∧ pdu.rf)
      (overlap : pdu.so < next.info.so ∧ next.info.so ≤ pdu.lastSo)

/-- The new PDU belongs in front of a buffer that holds only numbers after the
restart; the walk from the tail then runs off the list and adds it at the tail. -/
structure BelowWrappedHead (vrR vrMr : Nat) (buffer : List RxPdu) (pdu : PduInfo) : Prop where
  wrapped : vrMr < vrR
  below : pdu.sn < vrR
  filled : buffer ≠ []
  lower : ∀ element ∈ buffer, element.info.sn < vrR ∧ pdu.sn < element.info.sn

structure SortedPlace (vrR : Nat) (buffer : List RxPdu) (pdu : PduInfo)
    (before after : List RxPdu) : Prop where
  split : buffer = before ++ after
  left : ∀ last ∈ before.getLast?, Precedes vrR last.info pdu
  right : ∀ next ∈ after.head?, Precedes vrR pdu next.info

private theorem exists_neighbours {next : RxPdu} (lastMember : last ∈ before.getLast?)
    (nextMember : next ∈ after.head?) :
    ∃ front back, before ++ after = front ++ last :: next :: back := by
  obtain ⟨front, rfl⟩ := getLast?_eq_some_iff.mp lastMember
  obtain ⟨back, rfl⟩ := head?_eq_some_iff.mp nextMember
  exact ⟨front, back, by simp⟩

private theorem sortedPlace_tail (lastMember : last ∈ buffer.getLast?)
    (starts : StartsBefore vrR last.info pdu) (reach : InReach vrR last.info) {adds : Bool}
    (placed : SearchEnd.exhausted.place buffer adds = some (before, after))
    (checked : adds → last.info.sn = pdu.sn → last.info.rf → pdu.rf →
      last.info.so < pdu.so → last.info.lastSo < pdu.so) :
    SortedPlace vrR buffer pdu before after := by
  cases adds with
  | false => cases placed
  | true =>
    cases placed
    refine ⟨(append_nil _).symm, fun element mem => ?_, by simp⟩
    cases mem_unique mem lastMember
    exact precedes_of_checked starts reach (checked rfl)

theorem place_forward_unwrapped (outcome : ForwardOutcome vrR (fun _ => true) pdu buffer ending)
    (lastMember : last ∈ buffer.getLast?) (lastReach : InReach vrR last.info)
    (placed : ending.place buffer (addsTailUnwrapped pdu last.info) = some (before, after)) :
    SortedPlace vrR buffer pdu before after := by
  cases ending with
  | dropped => cases placed
  | inserted front back =>
    cases placed
    exact ⟨outcome.1, outcome.2.1, outcome.2.2⟩
  | stopped front back =>
    obtain ⟨_, _, next, _, outside⟩ := outcome
    cases outside
  | exhausted =>
    refine sortedPlace_tail lastMember (outcome last lastMember) lastReach placed ?_
    intro adds sameSn _ _ _
    simpa [addsTailUnwrapped, sameSn] using adds

variable (edge : vrR < rlcAmSnModulo)

include edge

theorem place_forward_wrapped (wrapped : vrMr < vrR) (above : vrR ≤ pdu.sn)
    (pduReach : InReach vrR pdu) (reach : ∀ element ∈ buffer, InReach vrR element.info)
    (outcome : ForwardOutcome vrR (fun sn => decide (sn ≥ vrR)) pdu buffer ending)
    (lastMember : last ∈ buffer.getLast?) (checked : ¬ UncheckedOverlap vrR vrMr buffer pdu)
    (placed : ending.place buffer (addsTailWrapped pdu last.info) = some (before, after)) :
    SortedPlace vrR buffer pdu before after := by
  cases ending with
  | dropped => cases placed
  | inserted front back =>
    cases placed
    exact ⟨outcome.1, outcome.2.1, outcome.2.2⟩
  | stopped front back =>
    cases placed
    obtain ⟨split, starts, next, nextMember, outside⟩ := outcome
    have restarts : next.info.sn < vrR := by simpa using outside
    refine ⟨split, ?_, ?_⟩
    · intro element mem
      have elementReach := reach element
        (split ▸ mem_append_left _ (mem_of_getLast? mem))
      refine precedes_of_checked (starts element mem) elementReach ?_
      intro sameSn segment pduSegment before
      -- The loop left its range here, so only the hypothesis rules the overlap out.
      by_contra overlap
      obtain ⟨front, back, neighbours⟩ := exists_neighbours mem nextMember
      exact checked (.ahead front back element next wrapped (split.trans neighbours) above
        restarts sameSn ⟨segment, pduSegment⟩ ⟨before, by omega⟩)
    · intro element mem
      cases mem_unique mem nextMember
      refine .inl ?_
      rw [shiftedSn_of_ge pduReach.snBound above, shiftedSn_of_lt edge restarts]
      have := pduReach.snBound
      omega
  | exhausted =>
    have lastReach := reach last (mem_of_getLast? lastMember)
    refine sortedPlace_tail lastMember (outcome last lastMember) lastReach placed ?_
    intro adds sameSn segment pduSegment _
    simpa [addsTailWrapped, sameSn, segment, pduSegment] using adds

theorem place_backward {first : RxPdu} (wrapped : vrMr < vrR) (below : pdu.sn < vrR)
    (pduReach : InReach vrR pdu) (reach : ∀ element ∈ buffer, InReach vrR element.info)
    (ordered : Ordered vrR buffer)
    (outcome : BackwardOutcome vrR (fun sn => decide (sn < vrR)) pdu buffer ending)
    (firstMember : first ∈ buffer.head?) (checked : ¬ UncheckedOverlap vrR vrMr buffer pdu)
    (notBelow : ¬ BelowWrappedHead vrR vrMr buffer pdu)
    (placed : ending.place buffer (addsTailWrapped pdu first.info) = some (before, after)) :
    SortedPlace vrR buffer pdu before after := by
  -- Away from its own number, the new PDU meets only what the hypothesis rules out.
  have unchecked {front back : List RxPdu} {last next : RxPdu} (split : buffer = front ++ back)
      (lastMember : last ∈ front.getLast?) (nextMember : next ∈ back.head?)
      (otherSn : last.info.sn ≠ pdu.sn) (starts : StartsBefore vrR pdu next.info) :
      Precedes vrR pdu next.info := by
    refine precedes_of_checked starts pduReach ?_
    intro sameSn segment nextSegment before
    by_contra overlap
    obtain ⟨front, back, neighbours⟩ := exists_neighbours lastMember nextMember
    exact checked (.behind front back last next wrapped (split.trans neighbours) below otherSn
      sameSn.symm ⟨nextSegment, segment⟩ ⟨before, by omega⟩)
  cases ending with
  | dropped => cases placed
  | inserted front back =>
    cases placed
    obtain ⟨split, ⟨last, lastMember, precedes, sameNumber⟩, starts⟩ := outcome
    refine ⟨split, ?_, ?_⟩
    · intro element mem
      cases mem_unique mem lastMember
      exact precedes
    · intro next nextMember
      by_cases same : last.info.sn = pdu.sn
      · exact sameNumber next nextMember same
      · exact unchecked split lastMember nextMember same (starts next nextMember)
  | stopped front back =>
    cases placed
    obtain ⟨split, ⟨last, lastMember, outside⟩, starts⟩ := outcome
    have lastAbove : vrR ≤ last.info.sn := by simpa using outside
    have lastBound := (reach last (split ▸ mem_append_left _ (mem_of_getLast? lastMember))).snBound
    refine ⟨split, ?_, ?_⟩
    · intro element mem
      cases mem_unique mem lastMember
      refine .inl ?_
      rw [shiftedSn_of_ge lastBound lastAbove, shiftedSn_of_lt edge below]
      omega
    · intro next nextMember
      exact unchecked split lastMember nextMember (by omega) (starts next nextMember)
  | exhausted =>
    obtain ⟨ranged, starts⟩ := outcome
    cases adds : addsTailWrapped pdu first.info with
    | false => simp [SearchEnd.place, adds] at placed
    | true =>
      cases starts first firstMember with
      | inr same =>
        obtain ⟨sameSn, pduSegment, firstSegment, later⟩ := same
        have firstReach := reach first (mem_of_mem_head? firstMember)
        have ends : first.info.lastSo < pdu.so := by
          simpa [addsTailWrapped, sameSn, pduSegment, firstSegment] using adds
        rw [PduInfo.lastSo, firstReach.sized firstSegment] at ends
        omega
      | inl nearer =>
        refine absurd ⟨wrapped, below, ne_nil_of_mem (mem_of_mem_head? firstMember), ?_⟩
          notBelow
        intro element mem
        have elementBelow : element.info.sn < vrR := by simpa using ranged element mem
        refine ⟨elementBelow, (shiftedSn_lt_iff_below edge below elementBelow).mp ?_⟩
        obtain ⟨rest, rfl⟩ := head?_eq_some_iff.mp firstMember
        cases mem_cons.mp mem with
        | inl same => exact same ▸ nearer
        | inr later =>
          have precedes := (pairwise_cons.mp ordered).1 element later
          cases precedes with
          | inl farther => exact nearer.trans farther
          | inr same => exact same.1 ▸ nearer

private theorem above_of_unwrapped {sn : Nat}
    (unwrapped : ¬ (vrR + rlcAmWindowSize) % rlcAmSnModulo < vrR)
    (near : shiftedSn vrR sn < rlcAmWindowSize) : vrR ≤ sn := by
  by_contra below
  rw [shiftedSn_of_lt edge (by omega)] at near
  simp only [rlcAmSnModulo, rlcAmWindowSize] at *
  omega

theorem rxListInsertPdu_sorted (upper : vrMr = (vrR + rlcAmWindowSize) % rlcAmSnModulo)
    (pduReach : InReach vrR pdu) (reach : ∀ element ∈ buffer, InReach vrR element.info)
    (ordered : Ordered vrR buffer) (checked : ¬ UncheckedOverlap vrR vrMr buffer pdu)
    (notBelow : ¬ BelowWrappedHead vrR vrMr buffer pdu)
    (placed : rxListInsertPdu vrR vrMr buffer pdu = some (before, after)) :
    SortedPlace vrR buffer pdu before after := by
  cases buffer with
  | nil =>
    cases placed
    exact ⟨rfl, by simp, by simp⟩
  | cons head rest =>
    have lastMember := getLast?_eq_some_getLast (cons_ne_nil head rest)
    have lastReach := reach _ (mem_of_getLast? lastMember)
    simp only [rxListInsertPdu] at placed
    by_cases wrapped : vrMr < vrR
    · rw [if_pos wrapped] at placed
      by_cases above : pdu.sn ≥ vrR
      · rw [if_pos above] at placed
        have outcome := forwardSearch_outcome (fun sn => decide (sn ≥ vrR)) above pduReach []
          (head :: rest) reach (by simp) (by simp)
        exact place_forward_wrapped edge wrapped above pduReach reach outcome lastMember checked
          placed
      · rw [if_neg above] at placed
        have outcome := backwardSearch_outcome (fun sn => decide (sn < vrR)) edge (by omega)
          pduReach (head :: rest).reverse [] (by simpa using reach) (by simp) (by simp) (by simp)
        rw [reverse_reverse, append_nil] at outcome
        exact place_backward edge wrapped (by omega) pduReach reach ordered outcome rfl checked
          notBelow placed
    · rw [if_neg wrapped] at placed
      have unwrapped := upper ▸ wrapped
      have outcome := forwardSearch_outcome (fun _ => true)
        (above_of_unwrapped edge unwrapped pduReach.near) pduReach [] (head :: rest) reach
        (fun element mem _ => above_of_unwrapped edge unwrapped (reach element mem).near)
        (by simp)
      exact place_forward_unwrapped outcome lastMember lastReach placed

end OpenAir.RlcAm
