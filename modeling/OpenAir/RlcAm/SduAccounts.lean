import OpenAir.RlcAm.PackedSdus
import Mathlib.Algebra.Order.Group.Int

/-! The accounts of the SDUs over whole runs. They hold as long as no PDU
reaches the limit of retransmissions, no SDU is put into a slot that is in use,
and an SDU is cut into parts that are not too small. -/

set_option autoImplicit false

namespace OpenAir.RlcAm

open OpenAir.Base List Option Transmitter TxSdu Nat

def Transmitter.refs (tx : Transmitter) (slot : Nat) : Int :=
  tx.heldTotal fun _ pdu => pdu.sdusIndex.count slot

structure Transmitter.Buffered (tx : Transmitter) : Prop extends tx.Slots tx.refs where
  leads : tx.Leads

variable {base count origin requested room window : Nat} {pdus : List (List UInt8)}
  {acked : Nat → Bool} {out : Packing} {block : Nat → UInt8} {copy : Option (List UInt8)}

section Buffered

variable {tx other : Transmitter} {named : Nat → Int} {now frame sn : Nat}

theorem refs_nonneg (tx : Transmitter) (slot : Nat) : 0 ≤ tx.refs slot := by
  refine tally_nonneg fun sn _ => ?_
  rw [heldValue]
  split
  · exact Int.natCast_nonneg _
  · exact Int.le_refl _

namespace Transmitter

theorem SameWindow.refs (same : tx.SameWindow other) : other.refs = tx.refs := by
  funext slot
  refine heldTotal_congr fun sn _ => ?_
  obtain ⟨-, block, sdus⟩ := same.pdus sn
  exact ⟨block, by rw [sdus]⟩

theorem Slots.congr (slots : tx.Slots named) (same : other.sduState = tx.sduState) :
    other.Slots named := by
  simp only [sduState, Prod.mk.injEq] at same
  obtain ⟨sdus, occupancy, noSegmented, nbSdu, current, next⟩ := same
  have totals : ∀ value, other.slotTotal value = tx.slotTotal value := fun value => by
    rw [slotTotal, slotTotal, sdus]
  refine ⟨⟨?_, ?_, ?_⟩, ?_, ?_, ?_⟩
  · rw [occupancy, totals, slots.occupancy]
  · rw [noSegmented, totals, slots.noSegmented]
  · rw [nbSdu, totals, slots.nbSdu]
  · rw [current]
    exact slots.current
  · rw [next]
    exact slots.next
  · rw [sdus]
    exact slots.each

theorem Leads.congr (leads : tx.Leads) (same : other.sduState = tx.sduState) :
    other.Leads := by
  simp only [sduState, Prod.mk.injEq] at same
  obtain ⟨sdus, -, -, -, current, -⟩ := same
  rw [Leads, sdus, current]
  exact leads

theorem Buffered.same (buffered : tx.Buffered) (sdus : other.sduState = tx.sduState)
    (window : tx.SameWindow other) : other.Buffered := by
  have slots := buffered.toSlots.congr sdus
  rw [← window.refs] at slots
  exact ⟨slots, buffered.leads.congr sdus⟩

end Transmitter

namespace Transmitter

theorem Buffered.ackPdu (buffered : tx.Buffered)
    (window : tx.Window origin count base acked) (below : sn < rlcAmSnModulo)
    (done : tx.ackPdu sn = some other) : other.Buffered := by
  have totals : ∀ slot, tx.refs slot = other.refs slot +
      heldValue (fun _ pdu => pdu.sdusIndex.count slot) sn (tx.pduRetransBuffer sn) := by
    intro slot
    rw [refs, refs, ackPdu_heldTotal window below done]
    omega
  rcases ackPdu_spec done with ⟨-, held, settled, folded, only⟩ | ⟨idle, only⟩
  · have named : tx.refs = fun slot =>
        other.refs slot + ((tx.pduRetransBuffer sn).sdusIndex.count slot : Int) := by
      funext slot
      rw [totals, heldValue, if_pos held]
    have slots := buffered.toSlots
    rw [named] at slots
    have start : ((tx.freePdu sn).uncountPdu (tx.pduRetransBuffer sn)).sduState = tx.sduState := rfl
    obtain ⟨acked, leads⟩ := (slots.congr start).ackSdus (refs_nonneg other) folded
    have same : other.sduState = settled.sduState := only.kept sduState
    exact ⟨acked.congr same, (leads (buffered.leads.congr start)).congr same⟩
  · have same : other.sduState = tx.sduState := only.kept sduState
    have free : ¬(tx.pduRetransBuffer sn).memBlock.isSome := fun held =>
      idle ⟨window.ack_of_held below held, held⟩
    have named : other.refs = tx.refs := by
      funext slot
      rw [totals, heldValue, if_neg free, Int.add_zero]
    have slots := buffered.toSlots.congr same
    rw [← named] at slots
    exact ⟨slots, buffered.leads.congr same⟩

def planned (tx : Transmitter) (requested : Nat) : Option Packing :=
  let room := tx.dataPduSize requested - rlcAmHeaderMinSize
  testFill rlcAmMaxSduInPdu ⟨tx, [], room, 0, 0, 0⟩ tx.currentSduIndex room 1

theorem Buffered.mayGrow (buffered : tx.Buffered) {slot : Nat}
    (below : slot < rlcAmSduControlBufferSize)
    (held : (tx.inputSdus slot).memBlock.isSome) : (tx.inputSdus slot).MayGrow := by
  rw [MayGrow]
  obtain ⟨left, sizes⟩ := (buffered.each slot below).waiting held
  by_cases named : (tx.inputSdus slot).pdusIndex = []
  · rw [named]
    decide
  · have large := (buffered.leads slot below held named).2
    have short : 30 * (tx.inputSdus slot).sduSegmentedSize < 30 * (tx.inputSdus slot).sduSize := by
      omega
    have fewer := lt_of_mul_lt_mul_right (lt_of_le_of_lt large short)
    rw [rlcAmMaxSduFragments]
    omega

end Transmitter

theorem dataPduSize_bounds (grant : 2 < requested) (some_ : 0 < tx.sduBufferOccupancy) :
    2 < tx.dataPduSize requested ∧
      (((tx.dataPduSize requested : Int) - 2 < tx.sduBufferOccupancy) →
        tx.dataPduSize requested = requested) := by
  have overhead : 0 ≤ tx.maxLiOverhead := by
    rw [maxLiOverhead]
    split
    · exact Int.le_refl _
    · omega
  simp only [dataPduSize, rlcAmHeaderMinSize]
  omega

namespace Transmitter

theorem Buffered.planned_isSome (buffered : tx.Buffered) (requested : Nat) :
    (tx.planned requested).isSome := by
  have first := @testFill_returns tx tx.currentSduIndex 0
    (tx.dataPduSize requested - rlcAmHeaderMinSize) 1
    ⟨tx, [], tx.dataPduSize requested - rlcAmHeaderMinSize, 0, 0, 0⟩
    (fun index _ held => buffered.mayGrow (slotFrom_lt _ _) held) rlcAmMaxSduInPdu rfl
    (recorded_nil tx).symm
  rw [slotFrom_zero buffered.current] at first
  exact first

theorem Slots.packed (slots : tx.Slots named) (grant : 2 < requested)
    (some_ : 0 < tx.sduBufferOccupancy) (planned : tx.planned requested = some out) :
    ∃ count, Packed tx tx.currentSduIndex 0 (tx.dataPduSize requested - rlcAmHeaderMinSize) 1
        ⟨tx, [], tx.dataPduSize requested - rlcAmHeaderMinSize, 0, 0, 0⟩ out count ∧
      ∀ index < count, (tx.inputSdus (slotFrom tx.currentSduIndex index)).MayGrow := by
  have wide := (dataPduSize_bounds grant some_).1
  rw [Transmitter.planned] at planned
  have first := @testFill_packed tx tx.currentSduIndex 0
    (tx.dataPduSize requested - rlcAmHeaderMinSize) 1
    ⟨tx, [], tx.dataPduSize requested - rlcAmHeaderMinSize, 0, 0, 0⟩ out
    (fun index _ held => ((slots.each _ (slotFrom_lt _ _)).waiting held).1)
    rlcAmMaxSduInPdu rfl (by decide) (recorded_nil tx).symm rfl
    (by simp only [rlcAmHeaderMinSize]; omega) (le_refl _)
    (by rw [slotFrom_zero slots.current]; exact planned)
  simpa only [zero_add] using first

def Wide (tx : Transmitter) (requested : Nat) : Prop :=
  (tx.inputSdus tx.currentSduIndex).pdusIndex ≠ [] →
    (tx.inputSdus tx.currentSduIndex).sduSize ≤ 30 * (requested - 2)

theorem Slots.rest_le_occupancy (slots : tx.Slots named)
    (held : (tx.inputSdus tx.currentSduIndex).memBlock.isSome) :
    ((tx.inputSdus tx.currentSduIndex).sduRemainingSize : Int) ≤ tx.sduBufferOccupancy := by
  have nonneg : ∀ slot < rlcAmSduControlBufferSize, 0 ≤ (tx.inputSdus slot).octetsLeft := by
    intro slot _
    rw [octetsLeft]
    split
    · exact Int.natCast_nonneg _
    · exact Int.le_refl _
  have part := @le_tally _ _ _ _ (fun _ => octetsLeft) tx.inputSdus _ _ _ nonneg slots.current
  rw [slots.occupancy]
  rwa [octetsLeft, if_pos held] at part

theorem Buffered.leads_placed (buffered : tx.Buffered) (grant : 2 < requested)
    (some_ : 0 < tx.sduBufferOccupancy)
    (held : (tx.inputSdus tx.currentSduIndex).memBlock.isSome) (wide : tx.Wide requested)
    (more : 0 < count) (few : count ≤ rlcAmMaxSduInPdu)
    (cuts : room < (tx.inputSdus tx.currentSduIndex).sduRemainingSize →
      room = tx.dataPduSize requested - 2)
    (placed : Placed (tx.recorded (slotsFrom tx.currentSduIndex count)) other count room) :
    other.Leads := by
  have short : count ≤ rlcAmSduControlBufferSize := by
    simp only [rlcAmMaxSduInPdu, rlcAmSduControlBufferSize] at *
    omega
  intro slot below heldAfter parts
  obtain ⟨heldBefore, pdus, size⟩ := placed.kept slot heldAfter
  rw [pdus] at parts ⊢
  rw [size]
  by_cases entered : slot ∈ slotsFrom tx.currentSduIndex count
  · have times := count_slotsFrom_le_one tx.currentSduIndex short slot
    obtain ⟨index, less, rfl⟩ := mem_slotsFrom.mp entered
    obtain ⟨-, current, cut⟩ := placed.last index less heldAfter
    refine ⟨current.symm, ?_⟩
    simp only [recorded, length_append, length_replicate]
    cases index with
    | zero =>
      rw [slotFrom_zero buffered.current] at *
      obtain ⟨part, segmented⟩ := cut rfl
      have part : room < (tx.inputSdus tx.currentSduIndex).sduRemainingSize := part
      have segmented : (other.inputSdus tx.currentSduIndex).sduSegmentedSize =
          (tx.inputSdus tx.currentSduIndex).sduSegmentedSize + room := segmented
      rw [segmented]
      by_cases named : (tx.inputSdus tx.currentSduIndex).pdusIndex = []
      · rw [named, length_nil, Nat.zero_add, Nat.sub_eq_zero_of_le times, Nat.zero_mul]
        exact Nat.zero_le _
      · have large := (buffered.leads _ below held named).2
        have thirtieth := wide named
        have whole : tx.dataPduSize requested = requested := by
          have rest := buffered.toSlots.rest_le_occupancy held
          refine (dataPduSize_bounds grant some_).2 ?_
          omega
        generalize (tx.inputSdus tx.currentSduIndex).pdusIndex.length = length at *
        generalize (tx.inputSdus tx.currentSduIndex).sduSize = size at *
        calc (length + (slotsFrom tx.currentSduIndex count).count tx.currentSduIndex - 1) * size
            ≤ (length - 1 + 1) * size := Nat.mul_le_mul_right _ (by omega)
          _ = (length - 1) * size + size := by rw [Nat.add_mul, Nat.one_mul]
          _ ≤ 30 * (tx.inputSdus tx.currentSduIndex).sduSegmentedSize + 30 * room := by
            omega
          _ = 30 * ((tx.inputSdus tx.currentSduIndex).sduSegmentedSize + room) :=
            (Nat.mul_add _ _ _).symm
    | succ index =>
      -- A later SDU was in no PDU.
      have fresh : (tx.inputSdus (slotFrom tx.currentSduIndex (index + 1))).pdusIndex = [] := by
        by_contra named
        have first := (buffered.leads _ below heldBefore named).1
        exact slotFrom_ne (Nat.zero_lt_succ _) (by omega) first
      rw [fresh, length_nil, Nat.zero_add, Nat.sub_eq_zero_of_le times, Nat.zero_mul]
      exact Nat.zero_le _
  · rw [recorded_of_notMem entered] at parts heldBefore
    have first := (buffered.leads slot below heldBefore parts).1
    refine absurd (mem_slotsFrom.mpr ⟨0, more, ?_⟩) entered
    rw [slotFrom_zero buffered.current, first]

theorem Slots.filled {testNumLi : Nat} {filling : Filling} (slots : tx.Slots named)
    (held : (tx.inputSdus tx.currentSduIndex).memBlock.isSome)
    (packed : Packed tx tx.currentSduIndex 0 room 1 ⟨tx, [], room, 0, 0, 0⟩ out count)
    (grow : ∀ index < count, (tx.inputSdus (slotFrom tx.currentSduIndex index)).MayGrow)
    (start : filling.tx = out.tx) (left : filling.pduRemainingSize = out.room)
    (liLength : filling.liLength = 1) (numLi : filling.fillNumLi = 0) :
    0 < count ∧
      ((fill testNumLi rlcAmMaxSduInPdu filling).tx.Slots fun slot =>
        named slot + out.sdusIndex.count slot) ∧
      Placed (tx.recorded (slotsFrom tx.currentSduIndex count))
        (fill testNumLi rlcAmMaxSduInPdu filling).tx count out.room := by
  obtain ⟨few, entered, listed, ends, leaves, fills, -⟩ := packed
  rw [slotFrom_zero slots.current] at ends fills
  rw [Nat.zero_add] at few entered listed
  have more : 0 < count := by
    refine Nat.pos_of_ne_zero fun none => ?_
    rw [(ends none).2] at held
    cases held
  have once := @count_slotsFrom_le_one count tx.currentSduIndex
    (by simp only [rlcAmMaxSduInPdu, rlcAmSduControlBufferSize] at *; omega)
  have exactly := fills more
  have heldAll : ∀ slot ∈ slotsFrom tx.currentSduIndex count,
      (tx.inputSdus slot).memBlock.isSome := by
    intro slot mem
    obtain ⟨index, less, rfl⟩ := mem_slotsFrom.mp mem
    exact exactly.held slots.current index less
  have recorded : (tx.recorded (slotsFrom tx.currentSduIndex count)).Slots fun slot =>
      named slot + (slotsFrom tx.currentSduIndex count).count slot := by
    refine slots.recorded heldAll fun slot mem => ?_
    obtain ⟨index, less, rfl⟩ := mem_slotsFrom.mp mem
    have := once (slotFrom tx.currentSduIndex index)
    have grows := grow index less
    rw [MayGrow] at grows
    omega
  have begin_ : filling.tx = tx.recorded (slotsFrom tx.currentSduIndex count) :=
    start.trans entered
  have named' : ∀ index < count,
      (filling.tx.inputSdus (slotFrom filling.tx.currentSduIndex index)).pdusIndex ≠ [] := by
    intro index less
    have mem : slotFrom tx.currentSduIndex index ∈ slotsFrom tx.currentSduIndex count :=
      mem_slotsFrom.mpr ⟨index, less, rfl⟩
    have times := count_pos_iff.mpr mem
    rw [begin_]
    refine append_ne_nil_of_right_ne_nil _ ?_
    rw [ne_eq, replicate_eq_nil_iff]
    exact Nat.ne_of_gt times
  have exactly' : FillsExactly filling.tx.inputSdus count filling.tx.currentSduIndex
      filling.pduRemainingSize filling.liLength filling.fillNumLi := by
    rw [left, liLength, numLi, begin_]
    rw [Nat.sub_self] at exactly
    exact exactly.congr slots.current fun index _ => ⟨rfl, rfl⟩
  obtain ⟨kept, placed⟩ := @fill_placed (fun slot => named slot +
    (slotsFrom tx.currentSduIndex count).count slot) count testNumLi rlcAmMaxSduInPdu filling few
    more few (begin_ ▸ recorded) named' exactly'
  rw [listed]
  exact ⟨more, kept, left ▸ begin_ ▸ placed⟩

theorem Slots.segment10 (slots : tx.Slots tx.refs) (windowed : tx.Window tx.vtA window 0 acked)
    (grant : 2 < requested) (some_ : 0 < tx.sduBufferOccupancy)
    (held : (tx.inputSdus tx.currentSduIndex).memBlock.isSome)
    (sent : tx.segment10 now requested block = some (other, copy)) :
    ∃ out count sending, other.Slots other.refs ∧ other.sduState = sending.sduState ∧
      Packed tx tx.currentSduIndex 0 (tx.dataPduSize requested - rlcAmHeaderMinSize) 1
        ⟨tx, [], tx.dataPduSize requested - rlcAmHeaderMinSize, 0, 0, 0⟩ out count ∧
      0 < count ∧
      Placed (tx.recorded (slotsFrom tx.currentSduIndex count)) sending count out.room := by
  simp only [Transmitter.segment10] at sent
  rw [if_neg, if_neg] at sent
  · obtain ⟨out, planned, finished⟩ := bind_eq_some_iff.mp sent
    obtain ⟨count, packed, grow⟩ := slots.packed grant some_ planned
    generalize filling : fill _ rlcAmMaxSduInPdu _ = filled at finished
    have fills : 0 < count ∧
        (filled.tx.Slots fun slot => tx.refs slot + out.sdusIndex.count slot) ∧
        Placed (tx.recorded (slotsFrom tx.currentSduIndex count)) filled.tx count out.room := by
      rw [← filling]
      exact slots.filled held packed grow rfl rfl rfl rfl
    obtain ⟨more, placedSlots, placed⟩ := fills
    have only : tx.OnlySdus filled.tx := by
      rw [← filling]
      exact (fill_movesSdus (testFill_movesSdus planned).1).only
    obtain ⟨-, octets, fresh⟩ := finishPdu_spec only finished
    have state : other.sduState = filled.tx.sduState :=
      fresh.kept sduState
    have pdus := fresh.kept pduRetransBuffer
    have vtS : filled.tx.vtS = tx.vtS := only.kept Transmitter.vtS
    have before : filled.tx.pduRetransBuffer = tx.pduRetransBuffer :=
      only.kept pduRetransBuffer
    have vtSLt : tx.vtS < rlcAmSnModulo := by
      rw [windowed.vtS]
      exact snAt_lt _ _
    have free : (tx.pduRetransBuffer tx.vtS).memBlock = none := by
      rw [windowed.vtS]
      exact (windowed.clear window windowed.count_lt (Or.inr (le_refl _))).2
    have refs : other.refs = fun slot => tx.refs slot + (out.sdusIndex.count slot : Int) := by
      funext slot
      have same : filled.tx.refs slot = tx.refs slot := by
        rw [Transmitter.refs, heldTotal, before]
        rfl
      rw [← same, Transmitter.refs, heldTotal_update (vtS ▸ vtSLt) pdus fun _ _ => rfl, heldValue,
        heldValue, before, vtS, free]
      rfl
    rw [← refs] at placedSlots
    exact ⟨out, count, filled.tx, placedSlots.congr state, state, packed, more, placed⟩
  · have := (dataPduSize_bounds grant some_).1
    rw [rlcAmHeaderMinSize]
    omega
  · rintro (empty | free | none)
    · omega
    · rw [isNone_iff_eq_none.mp free] at held
      cases held
    · omega

theorem Buffered.segment10 (buffered : tx.Buffered)
    (windowed : tx.Window tx.vtA window 0 acked) (grant : 2 < requested)
    (some_ : 0 < tx.sduBufferOccupancy)
    (held : (tx.inputSdus tx.currentSduIndex).memBlock.isSome) (wide : tx.Wide requested)
    (sent : tx.segment10 now requested block = some (other, copy)) : other.Buffered := by
  obtain ⟨out, count, sending, slots, state, packed, more, placed⟩ :=
    buffered.toSlots.segment10 windowed grant some_ held sent
  refine ⟨slots, Leads.congr ?_ state⟩
  refine buffered.leads_placed grant some_ held wide more (by have := packed.few; omega) ?_ placed
  intro less
  have whole := packed.cuts more
  rw [Nat.sub_self, Nat.zero_add, slotFrom_zero buffered.current] at whole
  exact whole less

def MakesNew (tx : Transmitter) (requested : Nat) : Prop :=
  ¬tx.Resends requested ∧ tx.HasNew ∧ 2 < requested

def AffordsReport (tx : Transmitter) : PduReport → Prop
  | .ack _ => True
  | .nack sn _ _ => (tx.pduRetransBuffer sn).memBlock.isSome → tx.MayNack sn

/-- An SDU is not empty and is put into a slot that no PDU names; a grant for
the rest of an SDU is not too small; and no PDU is negatively acknowledged up to
the limit. -/
def Affords (tx : Transmitter) : EntityInput → Prop
  | .dataReq _ octets => 0 < octets.length ∧ octets.length < 2 ^ 16 ∧
    (tx.acceptsSdu → (tx.inputSdus tx.nextSduIndex).pdusIndex = [])
  | .getPdus _ _ requested _ => (tx.MakesNew requested → tx.Wide requested) ∧
    ∀ sn ∈ tx.forced requested, tx.MayNack sn
  | .statusPdu frame info =>
    HoldsAlong (report frame) AffordsReport tx (tx.reports info)
  | .pollTimer _ => True

end Transmitter

instance (tx : Transmitter) (requested : Nat) : Decidable (tx.MakesNew requested) :=
  inferInstanceAs (Decidable (_ ∧ _ ∧ _))

instance (tx : Transmitter) (requested : Nat) : Decidable (tx.Wide requested) :=
  inferInstanceAs (Decidable (_ → _))

instance (tx : Transmitter) (sn : Nat) : Decidable (tx.MayNack sn) :=
  inferInstanceAs (Decidable (_ < _))

instance (tx : Transmitter) (report : PduReport) : Decidable (tx.AffordsReport report) :=
  match report with
  | .ack _ => .isTrue trivial
  | .nack _ _ _ => inferInstanceAs (Decidable (_ → _))

instance (tx : Transmitter) (input : EntityInput) : Decidable (tx.Affords input) :=
  match input with
  | .dataReq _ _ => inferInstanceAs (Decidable (_ ∧ _ ∧ (_ → _)))
  | .getPdus _ _ requested _ =>
    inferInstanceAs (Decidable ((tx.MakesNew requested → tx.Wide requested) ∧
      ∀ sn ∈ tx.forced requested, tx.MayNack sn))
  | .statusPdu _ _ => inferInstanceAs (Decidable (HoldsAlong _ _ _ _))
  | .pollTimer _ => .isTrue trivial

theorem Transmitter.Buffered.onlyPolls (buffered : tx.Buffered) (only : tx.OnlyPolls other) :
    other.Buffered := by
  have same : (tx.withPollingOf other).Buffered := buffered.same rfl
    ⟨fun _ => ⟨rfl, rfl, rfl⟩, rfl, rfl, rfl, id⟩
  rw [only]
  exact same

namespace Transmitter

theorem Buffered.getPdus (buffered : tx.Buffered)
    (window : tx.Window tx.vtA count 0 acked)
    (affords : tx.Affords (.getPdus now frame requested block))
    (sent : tx.getPdus now frame requested block = some (other, pdus)) : other.Buffered := by
  obtain ⟨wide, may⟩ := affords
  rcases getPdus_cases sent with ⟨-, -, resent⟩ | ⟨idle, -, new, grant, copy, made, -⟩ |
    ⟨-, -, forced, -, -, again⟩ | ⟨-, -, rfl, -⟩
  · obtain ⟨same, sdus⟩ := retransmitPdu_keeps resent
    exact buffered.same (congrArg Prod.fst sdus) same
  · exact buffered.segment10 window grant new.2.1 new.2.2 (wide ⟨idle, new, grant⟩) made
  · obtain ⟨same, sdus⟩ := retransmitAnyPdu_keeps again
    exact buffered.same
      (congrArg Prod.fst (sdus fun sn chosen => may sn (forced.trans chosen))) same
  · exact buffered

theorem Buffered.report {report : PduReport} (buffered : tx.Buffered)
    (window : tx.Window origin count base acked) (below : report.sn < rlcAmSnModulo)
    (affords : tx.AffordsReport report) (done : tx.report frame report = some other) :
    other.Buffered := by
  have stopped := fun sn => buffered.onlyPolls (stopPoll_onlyPolls tx sn)
  cases report with
  | ack sn =>
    exact (stopped sn).ackPdu (window.congr (stopPoll_onlyPolls tx sn).sameWindow) below done
  | nack sn soStart soStop =>
    have pdus : (tx.stopPoll sn).pduRetransBuffer = tx.pduRetransBuffer :=
      (stopPoll_onlyPolls tx sn).kept pduRetransBuffer
    have limit : (tx.stopPoll sn).maxRetxThreshold = tx.maxRetxThreshold :=
      (stopPoll_onlyPolls tx sn).kept maxRetxThreshold
    refine (stopped sn).same (congrArg Prod.fst (nackPdu_sduSide ?_ done)) (nackPdu_some done).1
    rw [MayNack, pdus, limit]
    exact affords

end Transmitter

theorem reports_buffered {reports : List PduReport} (buffered : tx.Buffered)
    (window : tx.Window origin count base acked)
    (proper : ∀ report ∈ reports, report.sn < rlcAmSnModulo)
    (affords : HoldsAlong (report frame) AffordsReport tx reports)
    (executed : execute (report frame) tx reports = some other) : other.Buffered := by
  induction reports generalizing tx base acked with
  | nil =>
    cases executed
    exact buffered
  | cons report reports ih =>
    obtain ⟨below, properRest⟩ := forall_mem_cons.mp proper
    obtain ⟨next, done, rest⟩ := bind_eq_some_iff.mp executed
    obtain ⟨top, acked', kept, -⟩ := report_window window below done
    exact ih (buffered.report window below affords.1 done) kept properRest (affords.2 next done)
      rest

theorem step_buffered {input : EntityInput} (window : tx.HasWindow) (buffered : tx.Buffered)
    (affords : tx.Affords input) (stepped : tx.step input = some other) : other.Buffered := by
  obtain ⟨count, acked, window⟩ := window
  cases input with
  | dataReq mui octets =>
    cases stepped
    obtain ⟨some_, fits, free⟩ := affords
    have slots := buffered.toSlots.dataReq (refs_nonneg tx _) mui some_ fits free
    rw [← (dataReq_movesSdus tx mui octets).sameWindow.refs] at slots
    exact ⟨slots, buffered.leads.dataReq mui octets⟩
  | getPdus now frame requested block =>
    obtain ⟨⟨sending, pdus⟩, sent, rfl⟩ := map_eq_some_iff.mp stepped
    exact buffered.getPdus window affords sent
  | statusPdu frame info =>
    have executed := receiveProcessControlPdu_reports stepped
    obtain ⟨proper, -⟩ := tx.reports_proper window.bounded info
    exact reports_buffered buffered window proper affords executed
  | pollTimer now =>
    cases stepped
    exact buffered.onlyPolls (checkTimerPollRetransmit_onlyPolls tx now)

end Buffered

theorem init_buffered (config : TxConfiguration) :
    (init config).Buffered where
  occupancy := (tally_eq_zero fun _ _ => rfl).symm
  noSegmented := (tally_eq_zero fun _ _ => rfl).symm
  nbSdu := (tally_eq_zero fun _ _ => rfl).symm
  current := zero_lt_succ _
  next := zero_lt_succ _
  each slot _ := by
    have none : (init config).refs slot = 0 := tally_eq_zero fun _ _ => rfl
    refine ⟨fun held => ?_, fun _ => rfl, fun _ => rfl, zero_lt_succ _, ?_⟩
    · cases held
    · rw [none]
      rfl
  leads := nofun

/-- In every state reached the accounts agree with the slots, and a grant for a
new PDU finds each SDU with room for one more PDU. -/
theorem sdu_accounts {config : TxConfiguration} {inputs : List EntityInput}
    {tx : Transmitter} (reached : execute step (init config) inputs = some tx)
    (affords : HoldsAlong step Affords (init config) inputs) :
    tx.SdusAccounted ∧ ∀ requested, tx.MakesNew requested →
      (tx.planned requested).isSome := by
  have kept : ∀ (state : Transmitter) (input : EntityInput) (next : Transmitter),
      state.HasWindow ∧ state.Buffered → state.Affords input → state.step input = some next →
      next.HasWindow ∧ next.Buffered :=
    fun state input next both affords stepped =>
      ⟨step_hasWindow both.1 stepped, step_buffered both.1 both.2 affords stepped⟩
  obtain ⟨-, buffered⟩ := execute_preserves_along kept
    ⟨(init_window config).hasWindow, init_buffered config⟩ affords reached
  exact ⟨buffered.toSdusAccounted, fun requested _ => buffered.planned_isSome requested⟩

def sduInTwo : List EntityInput :=
  [.dataReq 0 [1, 2, 3, 4], .getPdus 0 0 4 fun _ => 0, .dataReq 1 [5, 6, 7],
    .getPdus 0 0 4 fun _ => 0, .statusPdu 1 ⟨2, [⟨0, 0, 0x7FFF⟩]⟩]

theorem sdu_accounts_in_two :
    ∃ tx, execute step (init sendingConfiguration) sduInTwo = some tx ∧
      tx.SdusAccounted := by
  have returns : (execute step (init sendingConfiguration) sduInTwo).isSome := by
    decide +kernel
  obtain ⟨tx, reached⟩ := isSome_iff_exists.mp returns
  exact ⟨tx, reached, (sdu_accounts reached (by decide +kernel)).1⟩

def givenUp : List EntityInput :=
  [.dataReq 0 (List.replicate 10 7), .getPdus 0 0 5 fun _ => 0] ++
    (List.range 9).map fun frame => .statusPdu (frame + 1) ⟨1, [⟨0, 0, 0x7FFF⟩]⟩

def smallParts : List EntityInput :=
  .dataReq 0 (List.replicate 40 7) :: List.replicate 31 (.getPdus 0 0 3 fun _ => 0)

/-- As many SDUs as there are slots, none of them acknowledged, and one more. -/
def overwritten : List EntityInput :=
  (List.replicate rlcAmSduControlBufferSize
      [EntityInput.dataReq 0 [1], .getPdus 0 0 3 fun _ => 0]).flatten ++ [.dataReq 0 [2]]

/-- The octets of an SDU that is given up stay in the account, an SDU is put into
a slot that is in use, and an SDU can come to have too many PDUs. -/
theorem not_sdu_accounts :
    (∃ tx, execute step (init sendingConfiguration) givenUp = some tx ∧
      tx.sduBufferOccupancy ≠ tx.slotTotal octetsLeft) ∧
    (∃ tx, execute step (init sendingConfiguration) overwritten = some tx ∧
      tx.nbSdu ≠ tx.slotTotal used) ∧
    ∃ tx, execute step (init sendingConfiguration) smallParts = some tx ∧
      tx.MakesNew 3 ∧ tx.planned 3 = none := by
  refine ⟨?_, ?_, ?_⟩
  · decide +kernel
  · decide +kernel
  · decide +kernel

end OpenAir.RlcAm
