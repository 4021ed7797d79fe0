import OpenAir.RlcAm.RetransmissionAccounts
import OpenAir.RlcAm.WaitingQueue

/-! The slots of `input_sdus` and the three accounts kept of them: the octets
not yet put in PDUs, the SDUs with such octets, and the SDUs not yet confirmed.
The operations of the entity on single slots keep the accounts. -/

set_option autoImplicit false

namespace OpenAir.RlcAm

open OpenAir.Base List Option Function Transmitter

def TxSdu.InUse (sdu : TxSdu) : Prop := sdu.memBlock.isSome ∨ sdu.pdusIndex ≠ []

instance (sdu : TxSdu) : Decidable sdu.InUse := inferInstanceAs (Decidable (_ ∨ _))

def TxSdu.octetsLeft (sdu : TxSdu) : Int :=
  if sdu.memBlock.isSome then sdu.sduRemainingSize else 0

def TxSdu.unsegmented (sdu : TxSdu) : Int := if sdu.memBlock.isSome then 1 else 0

def TxSdu.used (sdu : TxSdu) : Int := if sdu.InUse then 1 else 0

def Transmitter.slotTotal (tx : Transmitter) (value : TxSdu → Int) : Int :=
  tally rlcAmSduControlBufferSize (fun _ => value) tx.inputSdus

structure Transmitter.SdusAccounted (tx : Transmitter) : Prop where
  occupancy : tx.sduBufferOccupancy = tx.slotTotal TxSdu.octetsLeft
  noSegmented : tx.nbSduNoSegmented = tx.slotTotal TxSdu.unsegmented
  nbSdu : tx.nbSdu = tx.slotTotal TxSdu.used

/-- The state of one slot. `refs` is the number of times that PDUs not yet
acknowledged name it. -/
structure TxSdu.Sound (sdu : TxSdu) (refs : Int) : Prop where
  waiting : sdu.memBlock.isSome →
    0 < sdu.sduRemainingSize ∧ sdu.sduSegmentedSize + sdu.sduRemainingSize = sdu.sduSize
  segmented : sdu.memBlock = none → sdu.sduRemainingSize = 0
  transmitted : sdu.transmittedSuccessfully → sdu.memBlock = none
  few : sdu.pdusIndex.length < rlcAmMaxSduFragments
  acks : (sdu.pdusIndex.length : Int) = sdu.nbPdusAck + refs

structure Transmitter.Slots (tx : Transmitter) (refs : Nat → Int) : Prop
    extends tx.SdusAccounted where
  current : tx.currentSduIndex < rlcAmSduControlBufferSize
  next : tx.nextSduIndex < rlcAmSduControlBufferSize
  each : ∀ slot < rlcAmSduControlBufferSize, (tx.inputSdus slot).Sound (refs slot)

/-- An SDU that is partly in PDUs is the one that the next PDU starts with, and
its PDUs but the first have at least a thirtieth of it each. -/
def Transmitter.Leads (tx : Transmitter) : Prop :=
  ∀ slot < rlcAmSduControlBufferSize, (tx.inputSdus slot).memBlock.isSome →
    (tx.inputSdus slot).pdusIndex ≠ [] → slot = tx.currentSduIndex ∧
      ((tx.inputSdus slot).pdusIndex.length - 1) * (tx.inputSdus slot).sduSize ≤
        30 * (tx.inputSdus slot).sduSegmentedSize

variable {last : Transmitter} {list : List Nat}

section Slots

variable {tx other : Transmitter} {refs others : Nat → Int} {slot : Nat} {sdu : TxSdu}

theorem slotTotal_update (below : slot < rlcAmSduControlBufferSize)
    (sdus : other.inputSdus = Function.update tx.inputSdus slot sdu) (value : TxSdu → Int) :
    other.slotTotal value = tx.slotTotal value + (value sdu - value (tx.inputSdus slot)) := by
  have rest : ∀ at_ < rlcAmSduControlBufferSize, at_ ≠ slot →
      value (other.inputSdus at_) = value (tx.inputSdus at_) := by
    intro at_ _ apart
    rw [sdus, update_of_ne apart]
  rw [slotTotal, @tally_change _ _ _ _ (fun _ => value) (fun _ => value) _ _ _ below rest,
    sdus, update_self]
  rfl

theorem Transmitter.Slots.update (slots : tx.Slots refs) (below : slot < rlcAmSduControlBufferSize)
    (sdus : other.inputSdus = Function.update tx.inputSdus slot sdu)
    (sound : sdu.Sound (others slot)) (same : ∀ at_, at_ ≠ slot → others at_ = refs at_)
    (current : other.currentSduIndex < rlcAmSduControlBufferSize)
    (next : other.nextSduIndex < rlcAmSduControlBufferSize)
    (occupancy : other.sduBufferOccupancy =
      tx.sduBufferOccupancy + (sdu.octetsLeft - (tx.inputSdus slot).octetsLeft))
    (noSegmented : other.nbSduNoSegmented =
      tx.nbSduNoSegmented + (sdu.unsegmented - (tx.inputSdus slot).unsegmented))
    (nbSdu : other.nbSdu = tx.nbSdu + (sdu.used - (tx.inputSdus slot).used)) :
    other.Slots others where
  occupancy := by rw [slotTotal_update below sdus, occupancy, slots.occupancy]
  noSegmented := by rw [slotTotal_update below sdus, noSegmented, slots.noSegmented]
  nbSdu := by rw [slotTotal_update below sdus, nbSdu, slots.nbSdu]
  current := current
  next := next
  each at_ atLt := by
    rw [sdus, update_apply]
    split
    next here =>
      rw [here]
      exact sound
    next apart =>
      rw [same at_ apart]
      exact slots.each at_ atLt

theorem Transmitter.Slots.dataReq (slots : tx.Slots refs) (nonneg : 0 ≤ refs tx.nextSduIndex)
    (mui : Nat) {octets : List UInt8} (some_ : 0 < octets.length) (fits : octets.length < 2 ^ 16)
    (free : tx.acceptsSdu → (tx.inputSdus tx.nextSduIndex).pdusIndex = []) :
    (tx.dataReq mui octets).Slots refs := by
  rw [Transmitter.dataReq]
  split
  next accepts =>
    have noPdu := free accepts
    have empty : (tx.inputSdus tx.nextSduIndex).memBlock = none := by
      simp only [Transmitter.acceptsSdu, Bool.and_eq_true, isNone_iff_eq_none] at accepts
      exact accepts.1.1
    have unreferenced : refs tx.nextSduIndex = 0 := by
      have acks := (slots.each _ slots.next).acks
      rw [noPdu, length_nil] at acks
      omega
    have size : octets.length % 2 ^ 16 = octets.length := Nat.mod_eq_of_lt fits
    refine slots.update slots.next rfl ⟨fun _ => ?_, fun none => ?_, fun gone => ?_, ?_, ?_⟩
      (fun _ _ => rfl) slots.current (nextSlot_lt _) ?_ ?_ ?_
    · simp only [size]
      exact ⟨some_, Nat.zero_add _⟩
    · cases none
    · cases gone
    · exact Nat.zero_lt_succ _
    · simp [TxSdu.zeroed, unreferenced]
    · simp [Transmitter.setSdu, TxSdu.octetsLeft, empty]
    · simp [Transmitter.setSdu, TxSdu.unsegmented, empty]
    · simp [Transmitter.setSdu, TxSdu.used, TxSdu.InUse, empty, noPdu]
  · exact slots

theorem Transmitter.Leads.dataReq (leads : tx.Leads) (mui : Nat) (octets : List UInt8) :
    (tx.dataReq mui octets).Leads := by
  rw [Transmitter.dataReq]
  split
  · intro at_ atLt held parts
    simp only [Transmitter.setSdu, update_apply] at held parts ⊢
    split at parts
    · exact absurd rfl parts
    next apart =>
      rw [if_neg apart] at held ⊢
      exact leads at_ atLt held parts
  · exact leads

section Settling

def TxSdu.countAck (sdu : TxSdu) : TxSdu := { sdu with nbPdusAck := (sdu.nbPdusAck + 1) % 2 ^ 8 }

def Transmitter.countAck (tx : Transmitter) (slot : Nat) : Transmitter :=
  tx.setSdu slot (tx.inputSdus slot).countAck

theorem countAck_kept {α : Type} (field : TxSdu → α) (same : ∀ sdu, field sdu.countAck = field sdu)
    (at_ : Nat) : field ((tx.countAck slot).inputSdus at_) = field (tx.inputSdus at_) := by
  simp only [countAck, setSdu, update_apply]
  split
  next here => rw [same, here]
  · rfl

def TxSdu.Settled (sdu : TxSdu) : Prop :=
  sdu.nbPdusAck = sdu.pdusIndex.length ∧ sdu.sduRemainingSize = 0

instance (sdu : TxSdu) : Decidable sdu.Settled := inferInstanceAs (Decidable (_ ∧ _))

theorem ackSdu_cases (done : tx.ackSdu slot = some other) :
    slot < rlcAmSduControlBufferSize ∧
      ((tx.inputSdus slot).countAck.Settled ∧
          other = freeInSdu
            { tx.countAck slot with
              confirmed := tx.confirmed ++ [(slot, (tx.inputSdus slot).mui, true)] } slot ∨
        ¬(tx.inputSdus slot).countAck.Settled ∧ other = tx.countAck slot) := by
  simp only [ackSdu, settleSdu, ite_none_right_eq_some] at done
  obtain ⟨below, done⟩ := done
  refine ⟨below, ?_⟩
  split at done
  next settled => exact Or.inl ⟨of_decide_eq_true settled, (Option.some.inj done).symm⟩
  next waits =>
    exact Or.inr ⟨fun settled => waits (decide_eq_true settled), (Option.some.inj done).symm⟩

theorem skipTransmitted_stays {inputSdus : Nat → TxSdu} {current : Nat}
    (open_ : (inputSdus current).transmittedSuccessfully = false) (next fuel : Nat) :
    skipTransmitted inputSdus next fuel current = current := by
  cases fuel with
  | zero => rfl
  | succ fuel =>
    rw [skipTransmitted, if_neg]
    rw [open_]
    exact fun goes => Bool.false_ne_true goes.2

structure Transmitter.SettlesSlot (tx other : Transmitter) : Prop where
  held : ∀ at_, (other.inputSdus at_).memBlock.isSome →
    (tx.inputSdus at_).memBlock.isSome ∧
      (other.inputSdus at_).pdusIndex = (tx.inputSdus at_).pdusIndex ∧
      (other.inputSdus at_).sduSize = (tx.inputSdus at_).sduSize ∧
      (other.inputSdus at_).sduSegmentedSize = (tx.inputSdus at_).sduSegmentedSize
  current : (tx.inputSdus tx.currentSduIndex).memBlock.isSome →
    other.currentSduIndex = tx.currentSduIndex

theorem Transmitter.Leads.settled (leads : tx.Leads) (settles : tx.SettlesSlot other) :
    other.Leads := by
  intro at_ atLt held parts
  obtain ⟨heldBefore, pdus, size, segmented⟩ := settles.held at_ held
  rw [pdus] at parts ⊢
  rw [size, segmented]
  obtain ⟨here, large⟩ := leads at_ atLt heldBefore parts
  refine ⟨?_, large⟩
  rw [here] at heldBefore
  rw [here, settles.current heldBefore]

theorem Transmitter.SettlesSlot.trans (left : tx.SettlesSlot other) (right : other.SettlesSlot last)
    (kept : ∀ at_, (tx.inputSdus at_).memBlock.isSome →
      (other.inputSdus at_).memBlock.isSome) : tx.SettlesSlot last where
  held at_ held := by
    obtain ⟨heldOther, pdus, size, segmented⟩ := right.held at_ held
    obtain ⟨heldFirst, pdus', size', segmented'⟩ := left.held at_ heldOther
    exact ⟨heldFirst, pdus.trans pdus', size.trans size', segmented.trans segmented'⟩
  current held := by
    have stays := left.current held
    have heldOther := kept _ held
    rw [← stays] at heldOther
    rw [right.current heldOther, stays]

theorem freeInSdu_currentSduIndex (tx : Transmitter) (slot : Nat) :
    (tx.freeInSdu slot).currentSduIndex =
      skipTransmitted
        (Function.update tx.inputSdus slot { TxSdu.zeroed with transmittedSuccessfully := true })
        tx.nextSduIndex rlcAmSduControlBufferSize
        (if tx.currentSduIndex = slot then nextSlot tx.currentSduIndex
          else tx.currentSduIndex) := by
  congr 1

theorem Transmitter.Slots.freeInSdu (slots : tx.Slots refs)
    (below : slot < rlcAmSduControlBufferSize) (empty : (tx.inputSdus slot).memBlock = none)
    (named : (tx.inputSdus slot).pdusIndex ≠ []) (settled : refs slot = 0) :
    (tx.freeInSdu slot).Slots refs ∧ tx.SettlesSlot (tx.freeInSdu slot) := by
  constructor
  · refine slots.update below rfl ⟨fun held => ?_, fun _ => rfl, fun _ => rfl, ?_, ?_⟩
      (fun _ _ => rfl) ((freeInSdu_movesSdus tx slot).current slots.current) slots.next ?_ ?_ ?_
    · cases held
    · exact Nat.zero_lt_succ _
    · simp [TxSdu.zeroed, settled]
    · simp [Transmitter.freeInSdu, Transmitter.setSdu, TxSdu.octetsLeft, TxSdu.zeroed, empty]
    · simp [Transmitter.freeInSdu, TxSdu.unsegmented, TxSdu.zeroed, empty]
    · simp [Transmitter.freeInSdu, TxSdu.used, TxSdu.InUse, TxSdu.zeroed, named, Int.sub_eq_add_neg]
  · refine ⟨fun at_ held => ?_, fun held => ?_⟩
    · simp only [Transmitter.freeInSdu, Transmitter.setSdu, update_apply] at held ⊢
      split at held
      · cases held
      next apart =>
        rw [if_neg apart]
        exact ⟨held, rfl, rfl, rfl⟩
    · -- The current slot has octets left, so it is neither freed nor passed.
      have apart : tx.currentSduIndex ≠ slot := by
        rintro rfl
        rw [empty] at held
        cases held
      have open_ : (tx.inputSdus tx.currentSduIndex).transmittedSuccessfully = false := by
        rw [← Bool.not_eq_true]
        intro gone
        rw [(slots.each _ slots.current).transmitted gone] at held
        cases held
      rw [freeInSdu_currentSduIndex, if_neg apart, skipTransmitted_stays]
      rw [update_of_ne apart, open_]

theorem Transmitter.Slots.countAck (slots : tx.Slots refs)
    (below : slot < rlcAmSduControlBufferSize) (one : refs slot = others slot + 1)
    (nonneg : 0 ≤ others slot) (same : ∀ at_, at_ ≠ slot → others at_ = refs at_) :
    (tx.countAck slot).Slots others := by
  obtain ⟨waiting, segmented, transmitted, few, acks⟩ := slots.each slot below
  have counted : (tx.inputSdus slot).countAck.nbPdusAck = (tx.inputSdus slot).nbPdusAck + 1 := by
    rw [rlcAmMaxSduFragments] at few
    exact Nat.mod_eq_of_lt (by omega)
  have level : ∀ account value : Int, account = account + (value - value) := fun _ _ => by omega
  refine slots.update below rfl ⟨waiting, segmented, transmitted, few, ?_⟩ same slots.current
    slots.next (level _ _) (level _ _) (level _ _)
  rw [counted]
  simp only [TxSdu.countAck]
  omega

theorem countAck_settlesSlot (tx : Transmitter) (slot : Nat) :
    tx.SettlesSlot (tx.countAck slot) := by
  refine ⟨fun at_ held => ?_, fun _ => rfl⟩
  rw [countAck_kept TxSdu.memBlock fun _ => rfl] at held
  exact ⟨held, countAck_kept TxSdu.pdusIndex (fun _ => rfl) at_,
    countAck_kept TxSdu.sduSize (fun _ => rfl) at_,
    countAck_kept TxSdu.sduSegmentedSize (fun _ => rfl) at_⟩

theorem Transmitter.Slots.ackSdu (slots : tx.Slots refs) (one : refs slot = others slot + 1)
    (nonneg : 0 ≤ others slot) (same : ∀ at_, at_ ≠ slot → others at_ = refs at_)
    (done : tx.ackSdu slot = some other) : other.Slots others ∧ tx.SettlesSlot other := by
  obtain ⟨below, cases_⟩ := ackSdu_cases done
  have counted := slots.countAck below one nonneg same
  have counts := countAck_settlesSlot tx slot
  rcases cases_ with ⟨settled, rfl⟩ | ⟨-, rfl⟩
  · have entry : (tx.countAck slot).inputSdus slot = (tx.inputSdus slot).countAck :=
      update_self ..
    obtain ⟨waiting, -, -, -, acks⟩ := counted.each slot below
    have before := (slots.each slot below).acks
    rw [entry] at waiting acks
    rw [settled.1] at acks
    have empty : (tx.inputSdus slot).countAck.memBlock = none := by
      rw [← not_isSome_iff_eq_none]
      intro held
      have left := (waiting held).1
      rw [settled.2] at left
      omega
    have named : (tx.inputSdus slot).countAck.pdusIndex ≠ [] := by
      intro none
      simp only [TxSdu.countAck] at none
      rw [none, length_nil] at before
      omega
    have confirming : Slots
        { tx.countAck slot with
          confirmed := tx.confirmed ++ [(slot, (tx.inputSdus slot).mui, true)] } others :=
      ⟨{ counted with }, counted.current, counted.next,
        counted.each⟩
    obtain ⟨freed, settles⟩ := confirming.freeInSdu below (by rw [← empty, ← entry])
      (by rw [← entry] at named; exact named) (by omega)
    refine ⟨freed, counts.trans ⟨settles.held, settles.current⟩ fun at_ held => ?_⟩
    exact (congrArg isSome (countAck_kept TxSdu.memBlock (fun _ => rfl) at_)).trans held
  · exact ⟨counted, counts⟩

theorem Transmitter.Slots.ackSdus (nonneg : ∀ at_, 0 ≤ refs at_)
    (slots : tx.Slots fun at_ => refs at_ + list.count at_)
    (folded : list.foldlM Transmitter.ackSdu tx = some other) :
    other.Slots refs ∧ (tx.Leads → other.Leads) := by
  induction list generalizing tx with
  | nil =>
    cases folded
    exact ⟨by simpa using slots, id⟩
  | cons slot rest ih =>
    obtain ⟨next, done, rest'⟩ := bind_eq_some_iff.mp folded
    have one : refs slot + ((slot :: rest).count slot : Int) =
        refs slot + (rest.count slot : Int) + 1 := by
      rw [count_cons_self]
      omega
    have others : ∀ at_, at_ ≠ slot →
        refs at_ + (rest.count at_ : Int) = refs at_ + ((slot :: rest).count at_ : Int) := by
      intro at_ apart
      rw [count_cons_of_ne (Ne.symm apart)]
    have none := nonneg slot
    have positive : 0 ≤ refs slot + (rest.count slot : Int) := by omega
    obtain ⟨acked, settlesSlot⟩ := slots.ackSdu one positive others done
    obtain ⟨kept, leads⟩ := ih acked rest'
    exact ⟨kept, fun before => leads (before.settled settlesSlot)⟩

end Settling

def Transmitter.recorded (tx : Transmitter) (list : List Nat) : Transmitter :=
  { tx with
    inputSdus := fun slot =>
      { tx.inputSdus slot with
        pdusIndex := (tx.inputSdus slot).pdusIndex ++ List.replicate (list.count slot) tx.vtS } }

theorem recorded_nil (tx : Transmitter) : tx.recorded [] = tx := by
  simp [recorded]

theorem recorded_of_notMem (apart : slot ∉ list) :
    (tx.recorded list).inputSdus slot = tx.inputSdus slot := by
  simp [recorded, count_eq_zero_of_not_mem apart]

theorem recordPdu_recorded
    (room : ((tx.recorded list).inputSdus slot).pdusIndex.length + 1 < rlcAmMaxSduFragments) :
    (tx.recorded list).recordPdu slot = some (tx.recorded (list ++ [slot])) := by
  simp only [recordPdu, if_pos room, setSdu, Option.some.injEq]
  simp only [recorded, Transmitter.mk.injEq, true_and, and_true]
  funext at_
  rw [update_apply]
  split
  next here => simp [here, replicate_add]
  next apart => simp [Ne.symm apart]

theorem Transmitter.Slots.recorded (slots : tx.Slots refs)
    (held : ∀ slot ∈ list, (tx.inputSdus slot).memBlock.isSome) (few : ∀ slot ∈ list,
      (tx.inputSdus slot).pdusIndex.length + list.count slot < rlcAmMaxSduFragments) :
    (tx.recorded list).Slots fun at_ => refs at_ + list.count at_ := by
  have totals : ∀ value : TxSdu → Int, (∀ slot, value ((tx.recorded list).inputSdus slot) =
      value (tx.inputSdus slot)) → (tx.recorded list).slotTotal value = tx.slotTotal value :=
    fun value same => tally_congr fun slot _ => same slot
  have used : ∀ slot, ((tx.recorded list).inputSdus slot).used = (tx.inputSdus slot).used := by
    intro slot
    by_cases mem : slot ∈ list
    · simp [TxSdu.used, TxSdu.InUse, Transmitter.recorded, held slot mem]
    · rw [recorded_of_notMem mem]
  refine ⟨⟨?_, ?_, ?_⟩, slots.current, slots.next, fun slot below => ?_⟩
  · exact slots.occupancy
  · exact slots.noSegmented
  · rw [totals TxSdu.used used]
    exact slots.nbSdu
  · obtain ⟨waiting, segmented, transmitted, few', acks⟩ := slots.each slot below
    refine ⟨waiting, segmented, transmitted, ?_, ?_⟩
    · simp only [Transmitter.recorded, length_append, length_replicate]
      by_cases mem : slot ∈ list
      · exact few slot mem
      · rw [count_eq_zero_of_not_mem mem]
        exact few'
    · simp only [Transmitter.recorded, length_append, length_replicate]
      omega

section Filling

theorem Transmitter.Slots.passSdu (slots : tx.Slots refs)
    (held : (tx.inputSdus tx.currentSduIndex).memBlock.isSome)
    (named : (tx.inputSdus tx.currentSduIndex).pdusIndex ≠ []) :
    (tx.passSdu (tx.inputSdus tx.currentSduIndex).sduRemainingSize).Slots refs := by
  obtain ⟨waiting, segmented, transmitted, few, acks⟩ := slots.each _ slots.current
  simp only [Transmitter.passSdu, Transmitter.freeInSduData, held, if_true]
  refine slots.update slots.current rfl ⟨fun none => ?_, fun _ => rfl, fun _ => rfl, few, acks⟩
    (fun _ _ => rfl) (nextSlot_lt _) slots.next ?_ ?_ ?_
  · cases none
  · simp [Transmitter.setSdu, TxSdu.octetsLeft, held, Int.sub_eq_add_neg]
  · simp [Transmitter.setSdu, TxSdu.unsegmented, held, Int.sub_eq_add_neg]
  · simp [Transmitter.setSdu, TxSdu.used, TxSdu.InUse, held, named]

theorem Transmitter.Slots.cutSdu {room : Nat} (slots : tx.Slots refs)
    (held : (tx.inputSdus tx.currentSduIndex).memBlock.isSome)
    (part : room < (tx.inputSdus tx.currentSduIndex).sduRemainingSize) :
    (tx.cutSdu room).Slots refs := by
  obtain ⟨waiting, segmented, transmitted, few, acks⟩ := slots.each _ slots.current
  have sizes := (waiting held).2
  refine slots.update slots.current rfl ⟨fun _ => ?_, fun none => ?_, transmitted, few, acks⟩
    (fun _ _ => rfl) slots.current slots.next ?_ ?_ ?_
  · simp only
    omega
  · rw [none] at held
    cases held
  · simp only [Transmitter.cutSdu, TxSdu.octetsLeft, held, if_true]
    omega
  · simp [Transmitter.cutSdu, Transmitter.setSdu, TxSdu.unsegmented, held]
  · simp [Transmitter.cutSdu, Transmitter.setSdu, TxSdu.used, TxSdu.InUse, held]

end Filling

end Slots

end OpenAir.RlcAm
