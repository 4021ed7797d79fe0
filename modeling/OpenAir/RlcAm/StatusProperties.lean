import OpenAir.RlcAm.NackProperties

/-! The walk over the window that processes a STATUS PDU: when the NACK list is
in the order of the window, it acknowledges every number before ACK_SN that the
list does not name. -/

set_option autoImplicit false

namespace OpenAir.RlcAm

open List Option

theorem cursorAfter_lt {cursor : Nat} (bounded : cursor < rlcAmSnModulo) (last : Option NackItem)
    (items : List NackItem) : cursorAfter cursor last items < rlcAmSnModulo := by
  have next : nextSn cursor < rlcAmSnModulo := Nat.mod_lt _ (by decide)
  cases last with
  | none => exact next
  | some last =>
    cases items with
    | nil => exact next
    | cons item rest =>
      simp only [cursorAfter]
      split
      · exact next
      · exact bounded

section Walk

variable {origin count frame ackSn : Nat}

variable {tx other : Transmitter} {base sn index ackIndex fuel : Nat} {acked : Nat → Bool}
  {item : NackItem} {items rest : List NackItem} {last : Option NackItem}

theorem ackPdu_keeps (window : tx.Window origin count base acked) (bounded : sn < rlcAmSnModulo)
    (done : tx.ackPdu sn = some other) : ∃ top acked', other.Window origin count top acked' := by
  obtain ⟨found, top, same, kept⟩ := ackPdu_window window (shiftedSn_lt origin sn)
  rw [snAt_shiftedSn window.bounded bounded, done] at same
  cases same
  exact ⟨top, _, kept⟩

def nackRanges (items : List NackItem) (sn : Nat) : List (Int × Int) :=
  (items.filter fun item => item.nackSn = sn).map fun item => (item.soStart, item.soEnd)

def RecordsAll (frame : Nat) (tx : Transmitter) (items : List NackItem) : Prop :=
  ∀ item ∈ items, (tx.pduRetransBuffer item.nackSn).memBlock.isSome →
    Recordable frame (tx.pduRetransBuffer item.nackSn) (nackRanges items item.nackSn)

theorem nackRanges_cons_self (item : NackItem) (rest : List NackItem) :
    nackRanges (item :: rest) item.nackSn =
      ((item.soStart : Int), (item.soEnd : Int)) :: nackRanges rest item.nackSn := by
  simp [nackRanges]

theorem nackRanges_cons_ne (rest : List NackItem) (apart : item.nackSn ≠ sn) :
    nackRanges (item :: rest) sn = nackRanges rest sn := by
  simp [nackRanges, apart]

theorem RecordsAll.onlyFrees (records : RecordsAll frame tx items) (frees : tx.OnlyFrees other) :
    RecordsAll frame other items := by
  intro item mem held
  rcases frees item.nackSn with same | freed
  · rw [same] at held ⊢
    exact records item mem held
  · rw [freed.1] at held
    cases held

theorem RecordsAll.nackPdu_returns (records : RecordsAll frame tx (item :: rest))
    (slots : ∀ slot ∈ (tx.pduRetransBuffer item.nackSn).sdusIndex,
      slot < rlcAmSduControlBufferSize) :
    ∃ other, tx.nackPdu frame item.nackSn item.soStart item.soEnd = some other := by
  refine OpenAir.RlcAm.nackPdu_returns slots fun held => ?_
  have recordable := records item (mem_cons_self ..) held
  rw [nackRanges_cons_self] at recordable
  obtain ⟨pdu, nacked, -⟩ := recordable.nacked
  exact ⟨pdu, nacked⟩

theorem RecordsAll.nackPdu (records : RecordsAll frame tx (item :: rest))
    (nacked : tx.nackPdu frame item.nackSn item.soStart item.soEnd = some other) :
    RecordsAll frame other rest := by
  intro later mem held
  obtain ⟨same, pdus⟩ := nackPdu_some nacked
  have heldBefore : (tx.pduRetransBuffer later.nackSn).memBlock.isSome := by
    rw [← (same.pdus later.nackSn).2.1]
    exact held
  have recordable := records later (mem_cons_of_mem _ mem) heldBefore
  by_cases again : item.nackSn = later.nackSn
  · rw [← again, nackRanges_cons_self] at recordable
    obtain ⟨pdu, recorded, left⟩ := recordable.nacked
    rcases pdus with ⟨free, -⟩ | ⟨stored, recorded', pdus⟩
    · rw [← again, free] at heldBefore
      cases heldBefore
    · cases recorded.symm.trans recorded'
      rw [pdus, ← again, Function.update_self]
      exact left
  · rw [nackRanges_cons_ne rest again] at recordable
    have kept : other.pduRetransBuffer later.nackSn = tx.pduRetransBuffer later.nackSn := by
      rcases pdus with ⟨-, all⟩ | ⟨pdu, -, stored⟩
      · rw [all]
      · rw [stored, Function.update_of_ne (Ne.symm again)]
    rw [kept]
    exact recordable

theorem cursorAfter_snAt
    (different : ∀ before ∈ last, ∀ next ∈ items.head?, next.nackSn ≠ before.nackSn) :
    cursorAfter (snAt origin index) last items = snAt origin (index + 1) := by
  rw [← nextSn_snAt]
  cases last with
  | none => rfl
  | some before =>
    cases items with
    | nil => rfl
    | cons next rest => exact if_pos (different before rfl next rfl)

structure Ascending (origin index : Nat) (items : List NackItem) : Prop where
  sorted : items.Pairwise fun earlier later =>
    shiftedSn origin earlier.nackSn ≤ shiftedSn origin later.nackSn
  numbers : ∀ item ∈ items, item.nackSn < rlcAmSnModulo
  ahead : ∀ item ∈ items, index ≤ shiftedSn origin item.nackSn

theorem Ascending.tail (ascending : Ascending origin index (item :: rest)) :
    Ascending origin index rest :=
  ⟨(pairwise_cons.mp ascending.sorted).2,
    fun later mem => ascending.numbers later (mem_cons_of_mem _ mem),
    fun later mem => ascending.ahead later (mem_cons_of_mem _ mem)⟩

theorem Ascending.next (bounded : origin < rlcAmSnModulo) (ascending : Ascending origin index items)
    (later : ∀ first ∈ items.head?, first.nackSn ≠ snAt origin index) :
    Ascending origin (index + 1) items := by
  refine ⟨ascending.sorted, ascending.numbers, fun item mem => ?_⟩
  cases items with
  | nil => cases mem
  | cons first rest =>
    have here := ascending.ahead first (mem_cons_self ..)
    have apart : shiftedSn origin first.nackSn ≠ index := by
      intro same
      refine later first rfl ?_
      rw [← same, snAt_shiftedSn bounded (ascending.numbers first (mem_cons_self ..))]
    rcases mem_cons.mp mem with rfl | behind
    · omega
    · have := (pairwise_cons.mp ascending.sorted).1 item behind
      omega

theorem Ascending.ne_below {other : Nat} (bounded : origin < rlcAmSnModulo)
    (ascending : Ascending origin index items) (below : other < index)
    (otherLt : other < rlcAmSnModulo) : ∀ item ∈ items, item.nackSn ≠ snAt origin other := by
  intro item mem same
  have ahead := ascending.ahead item mem
  rw [same, shiftedSn_snAt bounded otherLt] at ahead
  omega

/-- A STATUS PDU reports the number `at_` places above `origin` as received:
it lies before ACK_SN and the NACK list does not name it. -/
def Reported (origin index ackIndex : Nat) (items : List NackItem) (at_ : Nat) : Prop :=
  index ≤ at_ ∧ at_ < ackIndex ∧ ∀ item ∈ items, item.nackSn ≠ snAt origin at_

theorem Reported.ack_iff (bounded : origin < rlcAmSnModulo)
    (ascending : Ascending origin (index + 1) items) (below : index < ackIndex)
    (ackLt : ackIndex < rlcAmSnModulo) (at_ : Nat) :
    at_ = index ∨ Reported origin (index + 1) ackIndex items at_ ↔
      Reported origin index ackIndex items at_ := by
  by_cases here : at_ = index
  · subst here
    have reported : Reported origin at_ ackIndex items at_ :=
      ⟨Nat.le_refl _, below, ascending.ne_below bounded (Nat.lt_succ_self _) (by omega)⟩
    simp [reported]
  · have shift : index + 1 ≤ at_ ↔ index ≤ at_ := by omega
    simp [here, Reported, shift]

theorem Reported.nack_iff {next : Nat} (named : item.nackSn = snAt origin index)
    (below : index < ackIndex) (ackLt : ackIndex < rlcAmSnModulo)
    (moved : next = index + 1 ∨ next = index ∧ ∃ again ∈ rest, again.nackSn = snAt origin index)
    (at_ : Nat) :
    Reported origin next ackIndex rest at_ ↔ Reported origin index ackIndex (item :: rest) at_ := by
  by_cases here : at_ = index
  · subst here
    have notAfter : ¬Reported origin next ackIndex rest at_ := by
      rintro ⟨above, -, unnamed⟩
      rcases moved with up | ⟨-, again, mem, same⟩
      · omega
      · exact unnamed again mem same
    have notBefore : ¬Reported origin at_ ackIndex (item :: rest) at_ :=
      fun ⟨_, _, unnamed⟩ => unnamed item (mem_cons_self ..) named
    exact iff_of_false notAfter notBefore
  · have above : next ≤ at_ ↔ index ≤ at_ := by omega
    have otherNumber : at_ < ackIndex → item.nackSn ≠ snAt origin at_ := by
      intro atLt same
      exact here (snAt_injective (by omega) (by omega) (same.symm.trans named))
    simp only [Reported, above, forall_mem_cons]
    constructor
    · rintro ⟨notBelow, atLt, unnamed⟩
      exact ⟨notBelow, atLt, otherNumber atLt, unnamed⟩
    · rintro ⟨notBelow, atLt, -, unnamed⟩
      exact ⟨notBelow, atLt, unnamed⟩

theorem cursorAfter_nack (bounded : origin < rlcAmSnModulo)
    (named : item.nackSn = snAt origin index) (ascending : Ascending origin index (item :: rest)) :
    ∃ next, cursorAfter (snAt origin index) (some item) rest = snAt origin next ∧
      Ascending origin next rest ∧
      (next = index + 1 ∨ next = index ∧ ∃ again ∈ rest, again.nackSn = snAt origin index) := by
  by_cases repeats : ∃ again ∈ rest.head?, again.nackSn = snAt origin index
  · obtain ⟨again, isHead, same⟩ := repeats
    refine ⟨index, ?_, ascending.tail, Or.inr ⟨rfl, again, mem_of_mem_head? isHead, same⟩⟩
    cases rest with
    | nil => cases isHead
    | cons first rest =>
      cases isHead
      exact if_neg (not_not.mpr (same.trans named.symm))
  · have later : ∀ first ∈ rest.head?, first.nackSn ≠ snAt origin index :=
      fun first isHead same => repeats ⟨first, isHead, same⟩
    refine ⟨index + 1, ?_, ascending.tail.next bounded later, Or.inl rfl⟩
    refine cursorAfter_snAt fun before isLast next isHead => ?_
    cases isLast
    rw [named]
    exact later next isHead

theorem statusReports_acks {reports : List PduReport} (bounded : origin < rlcAmSnModulo)
    (ackLt : ackIndex < rlcAmSnModulo) (notPast : index ≤ ackIndex)
    (ascending : Ascending origin index items)
    (before : ∀ item ∈ last, shiftedSn origin item.nackSn ≤ index)
    (planned : statusReports (snAt origin ackIndex) fuel (snAt origin index) last items =
      some reports) {at_ : Nat} (atLt : at_ < rlcAmSnModulo) :
    PduReport.ack (snAt origin at_) ∈ reports ↔ Reported origin index ackIndex items at_ := by
  induction fuel generalizing index last items reports with
  | zero => cases planned
  | succ fuel ih =>
    rw [statusReports.eq_def] at planned
    simp only at planned
    split at planned
    next arrived =>
      cases planned
      have arrived := snAt_injective (by omega) ackLt arrived
      simp only [not_mem_nil, Reported, false_iff]
      omega
    next apart =>
      have below : index < ackIndex := by
        refine Nat.lt_of_le_of_ne notPast fun same => apart ?_
        rw [same]
      -- An acknowledgement moves the cursor up and leaves the NACK list as it is.
      have acked : (∀ first ∈ items.head?, first.nackSn ≠ snAt origin index) →
          (statusReports (snAt origin ackIndex) fuel (cursorAfter (snAt origin index) last items)
            last items).map (PduReport.ack (snAt origin index) :: ·) = some reports →
          (PduReport.ack (snAt origin at_) ∈ reports ↔
            Reported origin index ackIndex items at_) := by
        intro later planned
        have following := ascending.next bounded later
        obtain ⟨rest, plannedRest, rfl⟩ := map_eq_some_iff.mp planned
        rw [cursorAfter_snAt] at plannedRest
        · rw [mem_cons, ih (by omega) following
            (fun item isLast => Nat.le_succ_of_le (before item isLast)) plannedRest,
            ← Reported.ack_iff bounded following below ackLt, PduReport.ack.injEq]
          exact or_congr_left ⟨snAt_injective atLt (by omega), congrArg _⟩
        · intro previous isLast first isHead same
          have ahead := following.ahead first (mem_of_mem_head? isHead)
          have behind := before previous isLast
          rw [same] at ahead
          omega
      cases items with
      | nil =>
        refine acked (fun _ none => by cases none) ?_
        cases last <;> exact planned
      | cons item rest =>
        simp only at planned
        split at planned
        next named =>
          obtain ⟨others, plannedRest, rfl⟩ := map_eq_some_iff.mp planned
          obtain ⟨cursor, moves, following, moved⟩ := cursorAfter_nack bounded named.symm ascending
          rw [moves] at plannedRest
          have behind : ∀ last ∈ some item, shiftedSn origin last.nackSn ≤ cursor := by
            intro last isLast
            cases isLast
            rw [← named, shiftedSn_snAt bounded (by omega)]
            omega
          rw [mem_cons, ih (by omega) following behind plannedRest,
            Reported.nack_iff named.symm below ackLt moved]
          simp
        next elsewhere =>
          refine acked (fun first isHead same => ?_) planned
          cases isHead
          exact elsewhere same.symm

end Walk

end OpenAir.RlcAm
