import OpenAir.RlcAm.AcknowledgementProperties

/-! The head of the retransmission queue: `first_retrans_pdu_sn` against the
PDUs marked for retransmission. -/

set_option autoImplicit false

namespace OpenAir.RlcAm

open OpenAir.Base Function Transmitter

def Transmitter.Marked (tx : Transmitter) (sn : Nat) : Prop :=
  sn < rlcAmSnModulo ∧ shiftedSn tx.vtA sn < shiftedSn tx.vtA tx.vtS ∧
    (tx.pduRetransBuffer sn).retransmit

/-- `first_retrans_pdu_sn` is the lowest number of a marked PDU, or -1 if there
is none. -/
def Transmitter.HeadIsLowest (tx : Transmitter) : Prop :=
  (∀ sn, ¬tx.Marked sn) ∧ tx.firstRetransPduSn = -1 ∨
    ∃ sn : Nat, tx.firstRetransPduSn = sn ∧ tx.Marked sn ∧
      ∀ other, tx.Marked other → shiftedSn tx.vtA sn ≤ shiftedSn tx.vtA other

/-- Acknowledging the PDU at the pointer moves the pointer to the next marked
one. From VT(A) it moves along with VT(A); from elsewhere it moves to the next
PDU that has ever been counted as sent again. -/
def Transmitter.HandsOver (tx : Transmitter) (sn : Nat) : Prop :=
  if sn = tx.vtA then
    ∃ next < rlcAmSnModulo, tx.Marked next ∧ next ≠ sn ∧ ∀ at_ < rlcAmSnModulo, at_ ≠ sn →
      shiftedSn tx.vtA at_ < shiftedSn tx.vtA next → (tx.pduRetransBuffer at_).ack
  else
    ∀ at_ < rlcAmSnModulo, shiftedSn tx.vtA sn < shiftedSn tx.vtA at_ →
      shiftedSn tx.vtA at_ < shiftedSn tx.vtA tx.vtS →
      (0 ≤ (tx.pduRetransBuffer at_).retxCount ↔ (tx.pduRetransBuffer at_).retransmit)

instance (tx : Transmitter) (sn : Nat) : Decidable (tx.Marked sn) :=
  inferInstanceAs (Decidable (_ ∧ _ ∧ _))

instance (tx : Transmitter) (sn : Nat) : Decidable (tx.HandsOver sn) :=
  inferInstanceAs (Decidable (@ite Prop (sn = tx.vtA) (instDecidableEqNat _ _) _ _))

def LowestFrom (origin : Nat) (marked : Nat → Bool) (first : Int) : Prop :=
  (∀ index < rlcAmSnModulo, marked (snAt origin index) = false) ∧ first = -1 ∨
    ∃ index < rlcAmSnModulo, first = (snAt origin index : Nat) ∧
      marked (snAt origin index) ∧ ∀ lower < index, marked (snAt origin lower) = false

variable {frame index : Nat} {soStart soStop : Int} {pdu : TxPdu}

section LowestFrom

variable {origin : Nat} {marked others : Nat → Bool} {first : Int}

variable (lowest : LowestFrom origin marked first)

include lowest

theorem LowestFrom.congr
    (same : ∀ index < rlcAmSnModulo, others (snAt origin index) = marked (snAt origin index)) :
    LowestFrom origin others first := by
  rcases lowest with ⟨free, none⟩ | ⟨index, below, found, here, lower⟩
  · exact Or.inl ⟨fun index below => (same index below).trans (free index below), none⟩
  · exact Or.inr ⟨index, below, found, (same index below).trans here, fun at_ atLt =>
      (same at_ (Nat.lt_trans atLt below)).trans (lower at_ atLt)⟩

theorem LowestFrom.mark (bounded : origin < rlcAmSnModulo) (below : index < rlcAmSnModulo)
    (here : others (snAt origin index)) (same : ∀ at_ < rlcAmSnModulo, at_ ≠ index →
      others (snAt origin at_) = marked (snAt origin at_)) :
    LowestFrom origin others
      (if first < 0 then (snAt origin index : Nat)
        else if index < shiftedSn origin first.toNat then (snAt origin index : Nat)
        else first) := by
  rcases lowest with ⟨free, rfl⟩ | ⟨head, headLt, rfl, marks, lower⟩
  · refine Or.inr ⟨index, below, if_pos (by decide), here, fun at_ atLt => ?_⟩
    rw [same at_ (by omega) (by omega)]
    exact free at_ (by omega)
  · rw [if_neg (by omega), Int.toNat_natCast, shiftedSn_snAt bounded headLt]
    split
    next moves =>
      refine Or.inr ⟨index, below, rfl, here, fun at_ atLt => ?_⟩
      rw [same at_ (by omega) (by omega)]
      exact lower at_ (by omega)
    next stays =>
      refine Or.inr ⟨head, headLt, rfl, ?_, fun at_ atLt => ?_⟩
      · by_cases equal : head = index
        · rw [equal, here]
        · rw [same head headLt equal, marks]
      · rw [same at_ (by omega) (by omega)]
        exact lower at_ atLt

theorem LowestFrom.unmark_other {sn : Nat} (apart : first ≠ sn) (same : ∀ at_ < rlcAmSnModulo,
      others (snAt origin at_) = if snAt origin at_ = sn then false else marked (snAt origin at_)) :
    LowestFrom origin others first := by
  rcases lowest with ⟨free, none⟩ | ⟨head, headLt, found, marks, lower⟩
  · refine Or.inl ⟨fun at_ atLt => ?_, none⟩
    rw [same at_ atLt, free at_ atLt, ite_self]
  · refine Or.inr ⟨head, headLt, found, ?_, fun at_ atLt => ?_⟩
    · rw [same head headLt, if_neg, marks]
      intro equal
      exact apart (by rw [found, equal])
    · rw [same at_ (by omega), lower at_ atLt, ite_self]

theorem LowestFrom.move {head stop count : Nat} (found : first = (snAt origin head : Nat))
    (headLt : head < rlcAmSnModulo) (countLt : count < rlcAmSnModulo) (upTo : stop ≤ count)
    (same : ∀ at_ < head, others (snAt origin at_) = marked (snAt origin at_))
    (between : ∀ at_, head ≤ at_ → at_ < stop → others (snAt origin at_) = false)
    (here : stop < count → others (snAt origin stop))
    (outside : ∀ at_, count ≤ at_ → at_ < rlcAmSnModulo → others (snAt origin at_) = false) :
    LowestFrom origin others
      (if snAt origin stop = snAt origin count then -1 else (snAt origin stop : Nat)) := by
  have clear : ∀ at_ < head, marked (snAt origin at_) = false := by
    rcases lowest with ⟨-, none⟩ | ⟨index, indexLt, place, -, lower⟩
    · omega
    · have both : snAt origin index = snAt origin head := by omega
      exact snAt_injective indexLt headLt both ▸ lower
  have below : ∀ at_ < stop, others (snAt origin at_) = false := by
    intro at_ atLt
    by_cases before : at_ < head
    · rw [same at_ before, clear at_ before]
    · exact between at_ (by omega) atLt
  by_cases ended : stop = count
  · rw [if_pos (by rw [ended])]
    refine Or.inl ⟨fun at_ atLt => ?_, rfl⟩
    by_cases before : at_ < stop
    · exact below at_ before
    · exact outside at_ (by omega) atLt
  · rw [if_neg fun equal => ended (snAt_injective (by omega) countLt equal)]
    exact Or.inr ⟨stop, by omega, rfl, here (by omega), below⟩

end LowestFrom

section Seeking

variable {pdus : Nat → TxPdu} {origin count : Nat}

theorem seekMarked_finds {fuel start : Nat} (countLt : count < rlcAmSnModulo)
    (upTo : start ≤ count) (enough : count - start < fuel) :
    ∃ stop, start ≤ stop ∧ stop ≤ count ∧
      seekMarked pdus (snAt origin count) fuel (snAt origin start) = snAt origin stop ∧
      (∀ at_, start ≤ at_ → at_ < stop → (pdus (snAt origin at_)).retransmit = false) ∧
      (stop < count → (pdus (snAt origin stop)).retransmit) := by
  induction fuel generalizing start with
  | zero => omega
  | succ fuel ih =>
    rw [seekMarked]
    by_cases goes : snAt origin start ≠ snAt origin count ∧
        (pdus (snAt origin start)).retransmit = false
    · rw [if_pos goes, nextSn_snAt]
      have short : start ≠ count := fun equal => goes.1 (by rw [equal])
      obtain ⟨stop, above, below, found, free, here⟩ := @ih (start + 1) (by omega) (by omega)
      refine ⟨stop, by omega, below, found, fun at_ notBelow atLt => ?_, here⟩
      by_cases first : at_ = start
      · rw [first, goes.2]
      · exact free at_ (by omega) atLt
    · rw [if_neg goes]
      refine ⟨start, Nat.le_refl _, upTo, rfl, fun at_ _ _ => by omega, fun short => ?_⟩
      have apart : snAt origin start ≠ snAt origin count := fun equal => by
        have := snAt_injective (by omega) countLt equal
        omega
      simpa [apart] using goes

theorem seekRetrans_finds {fuel start : Nat} (countLt : count < rlcAmSnModulo)
    (short : start < count) (enough : count - start ≤ fuel) :
    ∃ stop, start < stop ∧ stop ≤ count ∧
      seekRetrans pdus (snAt origin count) fuel (snAt origin start) = snAt origin stop ∧
      (∀ at_, start < at_ → at_ < stop → (pdus (snAt origin at_)).retxCount < 0) ∧
      (stop < count → 0 ≤ (pdus (snAt origin stop)).retxCount) := by
  induction fuel generalizing start with
  | zero => omega
  | succ fuel ih =>
    simp only [seekRetrans, nextSn_snAt]
    by_cases counted : (pdus (snAt origin (start + 1))).retxCount ≥ 0
    · rw [if_pos counted]
      exact ⟨start + 1, by omega, by omega, rfl, fun at_ _ _ => by omega, fun _ => counted⟩
    · rw [if_neg counted]
      by_cases ended : snAt origin (start + 1) ≠ snAt origin count
      · rw [if_pos ended]
        have more : start + 1 ≠ count := fun equal => ended (by rw [equal])
        obtain ⟨stop, above, below, found, free, here⟩ := @ih (start + 1) (by omega) (by omega)
        refine ⟨stop, by omega, below, found, fun at_ notBelow atLt => ?_, here⟩
        by_cases first : at_ = start + 1
        · rw [first]
          omega
        · exact free at_ (by omega) atLt
      · rw [if_neg ended]
        have last : start + 1 = count := snAt_injective (by omega) countLt (not_not.mp ended)
        exact ⟨start + 1, by omega, by omega, rfl, fun at_ _ _ => by omega, fun less => by omega⟩

end Seeking

def Transmitter.marks (tx : Transmitter) (sn : Nat) : Bool := (tx.pduRetransBuffer sn).retransmit

structure Transmitter.Pointed (tx : Transmitter) (origin : Nat) : Prop where
  held : ∀ sn < rlcAmSnModulo, tx.marks sn →
    (tx.pduRetransBuffer sn).memBlock.isSome
  head : LowestFrom origin tx.marks tx.firstRetransPduSn

section Pointed

variable {tx other : Transmitter} {origin count base : Nat} {acked : Nat → Bool}

namespace Transmitter

theorem Pointed.onlyPolls (pointed : tx.Pointed origin) (only : tx.OnlyPolls other) :
    other.Pointed origin := by
  have same : (tx.withPollingOf other).Pointed origin := ⟨pointed.held, pointed.head⟩
  rw [only]
  exact same

theorem Pointed.onlySdus (pointed : tx.Pointed origin) (only : tx.OnlySdus other) :
    other.Pointed origin := by
  have same : (tx.withSdusOf other).Pointed origin := ⟨pointed.held, pointed.head⟩
  rw [only]
  exact same

theorem HandsOver.onlyPolls {sn : Nat} (hands : tx.HandsOver sn)
    (only : tx.OnlyPolls other) : other.HandsOver sn := by
  have same : (tx.withPollingOf other).HandsOver sn := hands
  rw [only]
  exact same

theorem Window.offset (window : tx.Window origin count base acked)
    (notBelow : base ≤ index) (inside : index < count) :
    shiftedSn tx.vtA (snAt origin index) = index - base := by
  have countLt := window.count_lt
  have here : snAt origin index = snAt tx.vtA (index - base) := by
    rw [window.vtA, snAt_snAt, Nat.add_sub_cancel' notBelow]
  rw [here, shiftedSn_snAt window.rebase.bounded (by omega)]

theorem Pointed.headIsLowest (pointed : tx.Pointed origin)
    (window : tx.Window origin count base acked) : tx.HeadIsLowest := by
  have rebased := window.rebase
  -- A marked place lies in the window.
  have place : ∀ index < rlcAmSnModulo, tx.marks (snAt origin index) →
      base ≤ index ∧ index < count ∧ shiftedSn tx.vtA (snAt origin index) = index - base := by
    intro index below marks
    obtain ⟨notBelow, inside, -⟩ := window.waiting below (pointed.held _ (snAt_lt _ _) marks)
    exact ⟨notBelow, inside, window.offset notBelow inside⟩
  have marked_iff : ∀ sn, tx.Marked sn → ∃ index < rlcAmSnModulo, sn = snAt origin index ∧
      tx.marks (snAt origin index) := by
    rintro sn ⟨below, -, marks⟩
    refine ⟨shiftedSn origin sn, shiftedSn_lt _ _, ?_⟩
    rw [snAt_shiftedSn window.bounded below]
    exact ⟨rfl, marks⟩
  rcases pointed.head with ⟨free, none⟩ | ⟨index, below, found, marks, lower⟩
  · refine Or.inl ⟨fun sn marked => ?_, none⟩
    obtain ⟨index, below, -, marks⟩ := marked_iff sn marked
    rw [free index below] at marks
    cases marks
  · obtain ⟨notBelow, inside, offset⟩ := place index below marks
    refine Or.inr ⟨snAt origin index, found, ⟨snAt_lt _ _, ?_, marks⟩, fun sn marked => ?_⟩
    · rw [offset, rebased.shifted_vtS]
      omega
    · obtain ⟨at_, atLt, rfl, marksAt⟩ := marked_iff sn marked
      obtain ⟨-, -, offsetAt⟩ := place at_ atLt marksAt
      have notLower : ¬at_ < index := by
        intro before
        rw [lower at_ before] at marksAt
        cases marksAt
      omega

theorem Pointed.rebase (pointed : tx.Pointed origin)
    (window : tx.Window origin count base acked) : tx.Pointed tx.vtA := by
  have from_ : ∀ offset, snAt tx.vtA offset = snAt origin (base + offset) := fun offset => by
    rw [window.vtA, snAt_snAt]
  refine ⟨pointed.held, ?_⟩
  rcases pointed.head with ⟨free, none⟩ | ⟨index, below, found, marks, lower⟩
  · refine Or.inl ⟨fun offset _ => ?_, none⟩
    have clear := free (shiftedSn origin (snAt tx.vtA offset)) (shiftedSn_lt _ _)
    rwa [snAt_shiftedSn window.bounded (snAt_lt _ _)] at clear
  · have notBelow := (window.waiting below (pointed.held _ (snAt_lt _ _) marks)).1
    have here : snAt tx.vtA (index - base) = snAt origin index := by
      rw [from_, Nat.add_sub_cancel' notBelow]
    refine Or.inr ⟨index - base, by omega, by rw [here, found], by rw [here, marks],
      fun offset less => ?_⟩
    rw [from_]
    exact lower _ (by omega)

theorem Pointed.markNacked (pointed : tx.Pointed origin)
    (window : tx.Window origin count base acked) {sn : Nat} (below : sn < rlcAmSnModulo)
    (held : (tx.pduRetransBuffer sn).memBlock.isSome)
    (recorded : (tx.pduRetransBuffer sn).nacked frame soStart soStop = some pdu) :
    (tx.markNacked sn pdu).Pointed origin := by
  obtain ⟨holed, -, only, rfl⟩ := TxPdu.nacked_spec recorded
  have block : holed.countNack.memBlock = (tx.pduRetransBuffer sn).memBlock :=
    only.kept TxPdu.memBlock
  have marks : (tx.markNacked sn holed.countNack).marks =
      update tx.marks sn true := by
    funext at_
    simp only [marks, markNacked, setPdu_pduRetransBuffer, update_apply]
    split
    · rfl
    · rfl
  have place := snAt_shiftedSn window.bounded below
  constructor
  · intro at_ atLt marksAt
    rw [marks, update_apply] at marksAt
    simp only [markNacked, setPdu_pduRetransBuffer, update_apply]
    split
    · rw [block, held]
    next apart =>
      rw [if_neg apart] at marksAt
      exact pointed.held at_ atLt marksAt
  · have moved := pointed.head.mark window.bounded (shiftedSn_lt origin sn)
      (show update tx.marks sn true (snAt origin (shiftedSn origin sn)) = true by
        rw [place, update_self])
      fun at_ atLt apart => by
        rw [update_of_ne]
        intro equal
        exact apart (by rw [← equal, shiftedSn_snAt window.bounded atLt])
    rw [marks]
    rw [place] at moved
    refine (congrArg (LowestFrom origin _) ?_).mp moved
    -- Both comparisons are between places of the window.
    simp only [markNacked]
    by_cases none : tx.firstRetransPduSn < 0
    · rw [if_pos none, if_pos none]
    · rw [if_neg none, if_neg none]
      rcases pointed.head with ⟨-, absent⟩ | ⟨index, indexLt, found, marksHead, -⟩
      · omega
      · obtain ⟨notBelow, inside, -⟩ :=
          window.waiting indexLt (pointed.held _ (snAt_lt _ _) marksHead)
        rw [← place] at held
        obtain ⟨notBelow', inside', -⟩ := window.waiting (shiftedSn_lt origin sn) held
        have offsetSn := window.offset notBelow' inside'
        rw [place] at offsetSn
        rw [found, Int.toNat_natCast, shiftedSn_snAt window.bounded indexLt]
        simp only [snGt, offsetSn, window.offset notBelow inside, snAt_lt, decide_true,
          Bool.true_and, decide_eq_true_eq]
        congr 1
        simp only [eq_iff_iff]
        omega

theorem Pointed.unmarked_of_free (pointed : tx.Pointed origin) {sn : Nat}
    (below : sn < rlcAmSnModulo) (free : (tx.pduRetransBuffer sn).memBlock = none) :
    tx.marks sn = false := by
  rw [← Bool.not_eq_true]
  intro marks
  have held := pointed.held sn below marks
  rw [free] at held
  cases held

end Transmitter

variable {fuel sn : Nat}

theorem Transmitter.Pointed.ackPdu_marks (pointed : tx.Pointed origin)
    (window : tx.Window origin count base acked) (below : sn < rlcAmSnModulo)
    (done : tx.ackPdu sn = some other) :
    (∀ at_ < rlcAmSnModulo, other.marks at_ = if at_ = sn then false else tx.marks at_) ∧
      ∀ at_ < rlcAmSnModulo, other.marks at_ →
        (other.pduRetransBuffer at_).memBlock.isSome := by
  obtain ⟨freed, rest⟩ := ackPdu_frees window below done
  have unmarks := ackPdu_onlyFrees done
  have after : ∀ at_ < rlcAmSnModulo,
      other.marks at_ = if at_ = sn then false else tx.marks at_ := by
    intro at_ atLt
    by_cases marks : tx.marks at_
    · have held := pointed.held at_ atLt marks
      split
      next here =>
        rcases unmarks at_ with same | free
        · rw [← same, here, freed] at held
          cases held
        · exact free.2
      next apart => rw [Transmitter.marks, ((rest at_ atLt apart).1 held)]; rfl
    · rw [Bool.not_eq_true] at marks
      rw [marks, ite_self]
      rcases unmarks at_ with same | free
      · rw [Transmitter.marks, same]
        exact marks
      · exact free.2
  refine ⟨after, fun at_ atLt marks => ?_⟩
  rw [after at_ atLt] at marks
  split at marks
  · cases marks
  next apart =>
    have held := pointed.held at_ atLt marks
    rw [(rest at_ atLt apart).1 held]
    exact held

theorem advanceVtA_first_kept (behind : ∀ sn : Nat, tx.firstRetransPduSn = sn →
      sn ≠ tx.vtA ∧ (tx.pduRetransBuffer sn).ack = false) :
    tx.advanceVtA.firstRetransPduSn = tx.firstRetransPduSn := by
  have kept : ∀ fuel, (advanceLoop fuel tx).firstRetransPduSn =
      tx.firstRetransPduSn := by
    intro fuel
    induction fuel generalizing tx with
    | zero => rfl
    | succ fuel ih =>
      have stays : tx.passVtA.firstRetransPduSn = tx.firstRetransPduSn :=
        if_neg fun here => (behind tx.vtA here).1 rfl
      rw [advanceLoop_succ]
      split
      next goes =>
        rw [ih, stays]
        intro sn found
        obtain ⟨apart, open_⟩ := behind sn (stays ▸ found)
        have entry : tx.passVtA.pduRetransBuffer sn = tx.pduRetransBuffer sn :=
          update_of_ne apart _ _
        rw [entry]
        refine ⟨fun top => ?_, open_⟩
        rw [← top, entry, open_] at goes
        cases goes.1
      · exact stays
  simp only [advanceVtA, kept]

theorem advanceVtA_first_moves (top : tx.firstRetransPduSn = tx.vtA) :
    tx.advanceVtA.firstRetransPduSn = tx.advanceVtA.vtA :=
  @advanceVtA_establishes tx (fun state => state.firstRetransPduSn = state.vtA)
    (fun state => state.firstRetransPduSn = state.vtA) (fun _ top => if_pos top)
    (fun _ top => top) top

theorem markAcked_first_kept (behind : ∀ at_ : Nat, tx.firstRetransPduSn = at_ →
      at_ ≠ sn ∧ (tx.pduRetransBuffer at_).ack = false) :
    (tx.markAcked sn).firstRetransPduSn = tx.firstRetransPduSn := by
  simp only [markAcked]
  split
  next top =>
    refine advanceVtA_first_kept fun at_ found => ?_
    obtain ⟨apart, open_⟩ := behind at_ found
    rw [setPdu_pduRetransBuffer, update_of_ne apart]
    exact ⟨top ▸ apart, open_⟩
  · rfl

theorem ackPdu_waits
    (waits : (tx.pduRetransBuffer sn).ack = false ∧ (tx.pduRetransBuffer sn).memBlock.isSome)
    (done : tx.ackPdu sn = some other) :
    ∃ settled : Transmitter,
      settled.firstRetransPduSn = tx.firstRetransPduSn ∧ settled.vtA = tx.vtA ∧
      settled.vtS = tx.vtS ∧ settled.pduRetransBuffer = (tx.freePdu sn).pduRetransBuffer ∧
      other = (settled.markAcked sn).skipRetrans sn := by
  simp only [ackPdu, waits, and_self, if_true] at done
  obtain ⟨settled, folded, rfl⟩ := Option.map_eq_some_iff.mp done
  have only := settleSdus_movesSdus folded
  exact ⟨settled, only.kept firstRetransPduSn,
    only.kept vtA, only.kept vtS,
    only.kept pduRetransBuffer, rfl⟩

section Acknowledged

variable {sn : Nat} {settled : Transmitter}

namespace Transmitter

theorem Pointed.first_kept (pointed : tx.Pointed origin)
    (window : tx.Window origin count base acked) (elsewhere : tx.firstRetransPduSn ≠ sn)
    (first : settled.firstRetransPduSn = tx.firstRetransPduSn)
    (pdus : settled.pduRetransBuffer = (tx.freePdu sn).pduRetransBuffer) :
    ((settled.markAcked sn).skipRetrans sn).firstRetransPduSn = tx.firstRetransPduSn := by
  have behind : ∀ at_ : Nat, settled.firstRetransPduSn = at_ →
      at_ ≠ sn ∧ (settled.pduRetransBuffer at_).ack = false := by
    intro at_ found
    rw [first] at found
    have apart : at_ ≠ sn := fun equal => elsewhere (by rw [found, equal])
    refine ⟨apart, ?_⟩
    rw [pdus, freePdu, setPdu_pduRetransBuffer, update_of_ne apart]
    rcases pointed.head with ⟨-, none⟩ | ⟨head, headLt, place, marks, -⟩
    · omega
    · obtain rfl : at_ = snAt origin head := by omega
      obtain ⟨notBelow, inside, open_⟩ :=
        window.waiting headLt (pointed.held _ (snAt_lt _ _) marks)
      rw [(window.held head notBelow inside).1, open_]
  have marked : (settled.markAcked sn).firstRetransPduSn = tx.firstRetransPduSn :=
    (markAcked_first_kept behind).trans first
  rw [skipRetrans, if_neg (marked ▸ elsewhere), marked]

theorem Pointed.first_skips (pointed : tx.Pointed origin)
    (window : tx.Window origin count base acked) (notBelow : base ≤ index) (inside : index < count)
    (here : tx.firstRetransPduSn = (snAt origin index : Nat)) (apart : snAt origin index ≠ tx.vtA)
    (handsOver : tx.HandsOver (snAt origin index))
    (first : settled.firstRetransPduSn = tx.firstRetransPduSn) (vtA : settled.vtA = tx.vtA)
    (vtS : settled.vtS = tx.vtS)
    (pdus : settled.pduRetransBuffer = (tx.freePdu (snAt origin index)).pduRetransBuffer)
    (marks : ∀ at_ < rlcAmSnModulo,
      other.marks at_ = if at_ = snAt origin index then false else tx.marks at_) :
    LowestFrom origin other.marks
      ((settled.markAcked (snAt origin index)).skipRetrans
        (snAt origin index)).firstRetransPduSn := by
  have countLt := window.count_lt
  have rebased := window.rebase
  rw [HandsOver, if_neg apart] at handsOver
  have acked : settled.markAcked (snAt origin index) =
      settled.setPdu (snAt origin index)
        { settled.pduRetransBuffer (snAt origin index) with ack := true } := by
    have behind : ¬snAt origin index = (settled.setPdu (snAt origin index)
        { settled.pduRetransBuffer (snAt origin index) with ack := true }).vtA := fun top =>
      apart (top.trans vtA)
    simp only [markAcked, if_neg behind]
  have entry : ∀ at_, at_ ≠ index → at_ < rlcAmSnModulo →
      (settled.markAcked (snAt origin index)).pduRetransBuffer (snAt origin at_) =
        tx.pduRetransBuffer (snAt origin at_) := by
    intro at_ other atLt
    have distinct : snAt origin at_ ≠ snAt origin index := fun equal =>
      other (snAt_injective atLt (by omega) equal)
    rw [acked, setPdu_pduRetransBuffer, update_of_ne distinct, pdus, freePdu,
      setPdu_pduRetransBuffer, update_of_ne distinct]
  have counts : ∀ at_, index < at_ → at_ < count →
      (0 ≤ (tx.pduRetransBuffer (snAt origin at_)).retxCount ↔ tx.marks (snAt origin at_)) := by
    intro at_ above atLt
    refine handsOver _ (snAt_lt _ _) ?_ ?_
    · rw [window.offset notBelow inside, window.offset (by omega) atLt]
      omega
    · rw [window.offset (by omega) atLt, rebased.shifted_vtS]
      omega
  have same : ∀ at_, at_ < rlcAmSnModulo → at_ ≠ index →
      other.marks (snAt origin at_) = tx.marks (snAt origin at_) := by
    intro at_ atLt apart
    rw [marks _ (snAt_lt _ _), if_neg fun equal => apart (snAt_injective atLt (by omega) equal)]
  obtain ⟨stop, above, upTo, found, free, counted⟩ :=
    @seekRetrans_finds (settled.markAcked (snAt origin index)).pduRetransBuffer origin count
      rlcAmSnModulo index countLt inside (by omega)
  have pointer : ((settled.markAcked (snAt origin index)).skipRetrans
      (snAt origin index)).firstRetransPduSn =
      if snAt origin stop = snAt origin count then (-1 : Int) else (snAt origin stop : Nat) := by
    have atPdu : (settled.markAcked (snAt origin index)).firstRetransPduSn =
        (snAt origin index : Nat) := by
      rw [acked]
      exact first.trans here
    have top : (settled.markAcked (snAt origin index)).vtS = snAt origin count := by
      rw [acked]
      exact vtS.trans window.vtS
    simp only [skipRetrans, if_pos atPdu, top, found]
  rw [pointer]
  refine pointed.head.move here (by omega) countLt upTo (fun at_ before => ?_)
    (fun at_ notBefore before => ?_) (fun short => ?_) fun at_ past atLt => ?_
  · exact same at_ (by omega) (by omega)
  · by_cases equal : at_ = index
    · rw [equal, marks _ (snAt_lt _ _), if_pos rfl]
    · have none := free at_ (by omega) before
      rw [entry at_ equal (by omega)] at none
      rw [same at_ (by omega) equal, ← Bool.not_eq_true, ← counts at_ (by omega) (by omega)]
      omega
  · have some_ := counted short
    rw [entry stop (by omega) (by omega)] at some_
    rw [same stop (by omega) (by omega)]
    exact (counts stop above short).mp some_
  · rw [same at_ atLt (by omega)]
    exact pointed.unmarked_of_free (snAt_lt _ _) (window.clear at_ atLt (Or.inr past)).2

theorem Pointed.first_moves (pointed : tx.Pointed origin)
    (window : tx.Window origin count base acked) {top : Nat} (inside : base < count)
    (here : tx.firstRetransPduSn = tx.vtA) (handsOver : tx.HandsOver tx.vtA)
    (first : settled.firstRetransPduSn = tx.firstRetransPduSn) (vtA : settled.vtA = tx.vtA)
    (final : other = (settled.markAcked tx.vtA).skipRetrans tx.vtA)
    (kept : other.Window origin count top (update acked base true))
    (marks : ∀ at_ < rlcAmSnModulo, other.marks at_ = if at_ = tx.vtA then false else tx.marks at_)
    (held : ∀ at_ < rlcAmSnModulo, other.marks at_ → (other.pduRetransBuffer at_).memBlock.isSome) :
    LowestFrom origin other.marks other.firstRetransPduSn := by
  rw [HandsOver, if_pos rfl] at handsOver
  obtain ⟨next, nextLt, ⟨-, -, nextMarks⟩, nextApart, between⟩ := handsOver
  obtain ⟨index, indexLt, rfl⟩ : ∃ index < rlcAmSnModulo, next = snAt origin index :=
    ⟨_, shiftedSn_lt origin next, (snAt_shiftedSn window.bounded nextLt).symm⟩
  obtain ⟨notBelow, below, open_⟩ :=
    window.waiting indexLt (pointed.held _ (snAt_lt _ _) nextMarks)
  have indexApart : index ≠ base := fun equal => nextApart (by rw [window.vtA, equal])
  -- The next marked PDU is the one VT(A) stops at.
  have notPast : top ≤ index := by
    refine Nat.le_of_not_lt fun past => ?_
    have done := kept.passed index past
    rw [update_of_ne indexApart, open_] at done
    cases done
  have topOpen : update acked base true top = false := kept.lowest (by omega)
  have topApart : top ≠ base := by
    rintro rfl
    rw [update_self] at topOpen
    cases topOpen
  rw [update_of_ne topApart] at topOpen
  have topAbove : base ≤ top := by
    refine Nat.le_of_not_lt fun less => ?_
    rw [window.passed top less] at topOpen
    cases topOpen
  have reached : top = index := by
    refine Nat.le_antisymm notPast (Nat.le_of_not_lt fun short => ?_)
    have distinct : snAt origin top ≠ tx.vtA := fun equal =>
      topApart ((window.at_vtA_iff (by omega)).mp equal)
    have done := between (snAt origin top) (snAt_lt _ _) distinct (by
      rw [window.offset topAbove (by omega), window.offset notBelow below]
      omega)
    rw [(window.held top topAbove (by omega)).1, topOpen] at done
    cases done
  subst reached
  have moved : (settled.markAcked tx.vtA).firstRetransPduSn = (settled.markAcked tx.vtA).vtA := by
    have top : tx.vtA = (settled.setPdu tx.vtA
        { settled.pduRetransBuffer tx.vtA with ack := true }).vtA := vtA.symm
    simp only [markAcked, if_pos top]
    refine advanceVtA_first_moves ?_
    rw [← top]
    exact first.trans here
  have pos : (settled.markAcked tx.vtA).vtA = snAt origin top := by
    rw [← kept.vtA, final, (skipRetrans_sameWindow _ _).2.vtA]
  have pointer : other.firstRetransPduSn = (snAt origin top : Nat) := by
    have away : (settled.markAcked tx.vtA).firstRetransPduSn ≠ tx.vtA := by
      intro equal
      exact topApart ((window.at_vtA_iff (by omega)).mp (by omega))
    rw [final, skipRetrans, if_neg away, moved, pos]
  refine Or.inr ⟨top, by omega, pointer, ?_, fun at_ atLt => ?_⟩
  · rw [marks _ (snAt_lt _ _), if_neg nextApart]
    exact nextMarks
  · rw [← Bool.not_eq_true]
    intro marksAt
    have passed := (kept.waiting (by omega) (held _ (snAt_lt _ _) marksAt)).1
    omega

end Transmitter

end Acknowledged

namespace Transmitter

variable (pointed : tx.Pointed origin)

include pointed

theorem Pointed.ackPdu (window : tx.Window origin count base acked) {sn : Nat}
    (below : sn < rlcAmSnModulo) (handsOver : tx.firstRetransPduSn = sn → tx.HandsOver sn)
    (done : tx.ackPdu sn = some other) : other.Pointed origin := by
  obtain ⟨marks, held⟩ := pointed.ackPdu_marks window below done
  refine ⟨held, ?_⟩
  have marksAt : ∀ at_ < rlcAmSnModulo, other.marks (snAt origin at_) =
      if snAt origin at_ = sn then false else tx.marks (snAt origin at_) :=
    fun at_ _ => marks _ (snAt_lt _ _)
  obtain ⟨index, indexLt, rfl⟩ : ∃ index < rlcAmSnModulo, sn = snAt origin index :=
    ⟨_, shiftedSn_lt origin sn, (snAt_shiftedSn window.bounded below).symm⟩
  by_cases waits : (tx.pduRetransBuffer (snAt origin index)).ack = false ∧
      (tx.pduRetransBuffer (snAt origin index)).memBlock.isSome
  · obtain ⟨settled, first, vtA, vtS, pdus, final⟩ := ackPdu_waits waits done
    obtain ⟨notBelow, inside, -⟩ := window.waiting indexLt waits.2
    by_cases here : tx.firstRetransPduSn = (snAt origin index : Nat)
    · by_cases top : snAt origin index = tx.vtA
      · obtain ⟨found, top', same, kept⟩ := ackPdu_window window indexLt
        rw [done] at same
        cases same
        obtain rfl := (window.at_vtA_iff indexLt).mp top
        have handed := handsOver here
        rw [top] at final marks handed here
        exact pointed.first_moves window inside here handed first vtA final kept marks held
      · rw [final]
        rw [final] at marks
        exact pointed.first_skips window notBelow inside here top (handsOver here) first vtA vtS
          pdus marks
    · refine pointed.head.unmark_other here marksAt |> (congrArg (LowestFrom origin _) ?_).mp
      rw [final]
      exact (pointed.first_kept window here first pdus).symm
  · -- The entry was free, so it was not marked.
    obtain ⟨free, idle⟩ := ackPdu_idle window indexLt waits
    rw [done] at idle
    cases idle
    refine pointed.head.congr fun at_ atLt => ?_
    rw [marksAt at_ atLt]
    split
    next here => exact (here ▸ pointed.unmarked_of_free (snAt_lt _ _) free).symm
    · rfl

theorem Pointed.nackPdu (window : tx.Window origin count base acked) {sn : Nat}
    (below : sn < rlcAmSnModulo) (done : tx.nackPdu frame sn soStart soStop = some other) :
    other.Pointed origin := by
  by_cases held : (tx.pduRetransBuffer sn).memBlock.isSome
  · obtain ⟨pdu, recorded, only, -⟩ := nackPdu_spec held done
    exact (pointed.markNacked window below held recorded).onlySdus only
  · rw [nackPdu_free held done]
    exact pointed

theorem Pointed.withFresh (below : tx.vtS < rlcAmSnModulo)
    (free : (tx.pduRetransBuffer tx.vtS).memBlock = none) (octets : List UInt8) (payload : Nat)
    (sdusIndex : List Nat) (size payloadSize : Nat) :
    (tx.withFresh (freshPdu octets payload sdusIndex size payloadSize)).Pointed origin := by
  have unmarked : tx.marks tx.vtS = false := pointed.unmarked_of_free below free
  have marks : (tx.withFresh (freshPdu octets payload sdusIndex size payloadSize)).marks =
      tx.marks := by
    funext at_
    simp only [Transmitter.marks, Transmitter.withFresh, setPdu_pduRetransBuffer, update_apply]
    split
    next here =>
      rw [here]
      exact unmarked.symm
    · rfl
  constructor
  · intro at_ atLt marksAt
    rw [marks] at marksAt
    have apart : at_ ≠ tx.vtS := by
      rintro rfl
      rw [unmarked] at marksAt
      cases marksAt
    simp only [Transmitter.withFresh, setPdu_pduRetransBuffer, update_of_ne apart]
    exact pointed.held at_ atLt marksAt
  · rw [marks]
    exact pointed.head

theorem Pointed.segment (window : tx.Window origin count base acked) {now : Nat} {size : Int}
    {segment : List UInt8} (some_ : 0 ≤ tx.firstRetransPduSn)
    (sent : tx.retransmitGetSubsegment now tx.firstRetransPduSn.toNat size =
      some (other, segment)) :
    Transmitter.Pointed
      { other with
        firstRetransPduSn :=
          let found := seekMarked other.pduRetransBuffer other.vtS rlcAmSnModulo
            tx.firstRetransPduSn.toNat
          if found = other.vtS then -1 else found } origin := by
  obtain ⟨octets, info, plan, pdu, -, -, -, removed, polled⟩ := retransmitGetSubsegment_spec sent
  have countLt := window.count_lt
  rcases pointed.head with ⟨-, none⟩ | ⟨head, headLt, found, marksHead, -⟩
  · omega
  · have here : tx.firstRetransPduSn.toNat = snAt origin head := by omega
    have heldHead := pointed.held _ (snAt_lt _ _) marksHead
    obtain ⟨notBelow, inside, -⟩ := window.waiting headLt heldHead
    rw [here] at removed polled ⊢
    have pdus : other.pduRetransBuffer =
        update tx.pduRetransBuffer (snAt origin head) pdu :=
      polled.kept pduRetransBuffer
    have vtS : other.vtS = snAt origin count :=
      (polled.kept Transmitter.vtS).trans window.vtS
    have block : pdu.memBlock = (tx.pduRetransBuffer (snAt origin head)).memBlock :=
      TxPdu.segmented_kept removed TxPdu.memBlock fun _ _ => rfl
    have same : ∀ at_ < rlcAmSnModulo, at_ ≠ head →
        other.marks (snAt origin at_) = tx.marks (snAt origin at_) := by
      intro at_ atLt apart
      rw [Transmitter.marks, pdus, update_snAt _ _ headLt atLt, if_neg apart]
      rfl
    constructor
    · intro at_ atLt marks
      rw [Transmitter.marks, pdus, update_apply] at marks
      simp only [pdus, update_apply]
      split
      · rw [block]
        exact heldHead
      next apart =>
        rw [if_neg apart] at marks
        exact pointed.held at_ atLt marks
    · obtain ⟨stop, above, upTo, sought, free, marked⟩ :=
        @seekMarked_finds other.pduRetransBuffer origin count rlcAmSnModulo head countLt
          (Nat.le_of_lt inside) (by omega)
      simp only [vtS, sought]
      refine pointed.head.move found headLt countLt upTo (fun at_ before => ?_)
        (fun at_ notBefore before => ?_) (fun short => ?_) fun at_ past atLt => ?_
      · exact same at_ (by omega) (by omega)
      · exact free at_ notBefore before
      · exact marked short
      · rw [← pointed.unmarked_of_free (snAt_lt _ _) (window.clear at_ atLt (Or.inr past)).2]
        exact same at_ atLt (by omega)

end Transmitter

end Pointed

end OpenAir.RlcAm
