import Mathlib.Logic.Equiv.Basic
import OpenAir.Base.Simulation
import OpenAir.RlcAm.TransmissionProperties

/-! The place in the ring of SDUs at which a transmitting side starts makes no
difference, and neither do the marks of SDUs confirmed earlier in slots that it
has not come to. A rotation renumbers the slots; every operation commutes with it. -/

set_option autoImplicit false

namespace OpenAir.RlcAm

open OpenAir.Base Option Function Transmitter

/-- The slots are renumbered and their cyclic order is kept. `stale` are the slots
in which `transmitted_successfully` is still set from earlier, `earlier` the
confirmations before. -/
structure Rotation where
  turn : Equiv.Perm Nat
  turn_lt : ∀ {slot}, slot < rlcAmSduControlBufferSize → turn slot < rlcAmSduControlBufferSize
  turn_next : ∀ {slot}, slot < rlcAmSduControlBufferSize →
    turn (nextSlot slot) = nextSlot (turn slot)
  stale : Nat → Bool
  stale_lt : ∀ slot, stale slot → slot < rlcAmSduControlBufferSize
  earlier : List (Nat × Nat × Bool)

namespace Rotation

@[simps]
def sdu (rotation : Rotation) (slot : Nat) (sdu : TxSdu) : TxSdu :=
  { sdu with
    transmittedSuccessfully := rotation.stale slot || sdu.transmittedSuccessfully }

@[simps]
def pdu (rotation : Rotation) (pdu : TxPdu) : TxPdu :=
  { pdu with sdusIndex := pdu.sdusIndex.map rotation.turn }

@[simps vtA vtMs vtS cPduWithoutPoll cByteWithoutPoll pollPdu pollByte forcePoll maxRetxThreshold
  tPollRetransmit nbSduNoSegmented nextSduIndex currentSduIndex sduBufferOccupancy
  retransNumBytesToRetransmit firstRetransPduSn]
def tx (rotation : Rotation) (tx : Transmitter) : Transmitter :=
  { tx with
    inputSdus := fun slot =>
      rotation.sdu (rotation.turn.symm slot) (tx.inputSdus (rotation.turn.symm slot))
    nextSduIndex := rotation.turn tx.nextSduIndex
    currentSduIndex := rotation.turn tx.currentSduIndex
    pduRetransBuffer := fun sn => rotation.pdu (tx.pduRetransBuffer sn)
    confirmed := rotation.earlier ++
      tx.confirmed.map fun (slot, confirmation) => (rotation.turn slot, confirmation) }

/-- The slot has been filled. Stale slots have not been, so that the ring has not
been gone round while there are any. -/
def Reached (rotation : Rotation) (next slot : Nat) : Prop :=
  slot < rlcAmSduControlBufferSize ∧ ∀ other, rotation.stale other → slot < next

structure Fits (rotation : Rotation) (tx : Transmitter) : Prop where
  next : tx.nextSduIndex < rlcAmSduControlBufferSize
  current : tx.currentSduIndex < rlcAmSduControlBufferSize
  order : ∀ slot, rotation.stale slot →
    tx.currentSduIndex ≤ tx.nextSduIndex ∧ tx.nextSduIndex ≤ slot
  held : ∀ slot, (tx.inputSdus slot).memBlock.isSome →
    rotation.Reached tx.nextSduIndex slot
  slots : ∀ sn, ∀ slot ∈ (tx.pduRetransBuffer sn).sdusIndex,
    rotation.Reached tx.nextSduIndex slot

def Alike (rotation : Rotation) (fresh used : Transmitter) : Prop :=
  rotation.Fits fresh ∧ used = rotation.tx fresh

end Rotation

section Commutes

variable {rotation : Rotation} {tx other : Transmitter} {slot sn now frame : Nat}

@[simp] theorem setSdu_inputSdus (tx : Transmitter) (slot : Nat) (sdu : TxSdu) :
    (tx.setSdu slot sdu).inputSdus = update tx.inputSdus slot sdu :=
  rfl

namespace Rotation

@[simp] theorem tx_inputSdus (rotation : Rotation) (tx : Transmitter) (slot : Nat) :
    (rotation.tx tx).inputSdus (rotation.turn slot) = rotation.sdu slot (tx.inputSdus slot) := by
  simp [Rotation.tx]

theorem tx_current (rotation : Rotation) (tx : Transmitter) :
    (rotation.tx tx).inputSdus (rotation.tx tx).currentSduIndex =
      rotation.sdu tx.currentSduIndex (tx.inputSdus tx.currentSduIndex) :=
  rotation.tx_inputSdus tx _

@[simp] theorem tx_pduRetransBuffer (rotation : Rotation) (tx : Transmitter) (sn : Nat) :
    (rotation.tx tx).pduRetransBuffer sn = rotation.pdu (tx.pduRetransBuffer sn) := rfl

theorem tx_setSdu (rotation : Rotation) (tx : Transmitter) (slot : Nat) (sdu : TxSdu) :
    (rotation.tx tx).setSdu (rotation.turn slot) (rotation.sdu slot sdu) =
      rotation.tx (tx.setSdu slot sdu) := by
  have sdus : update (rotation.tx tx).inputSdus (rotation.turn slot)
      (rotation.sdu slot sdu) = (rotation.tx (tx.setSdu slot sdu)).inputSdus := by
    funext at_
    obtain ⟨origin, rfl⟩ := rotation.turn.surjective at_
    rw [tx_inputSdus, setSdu_inputSdus, update_apply, update_apply]
    by_cases same : origin = slot
    · rw [if_pos (congrArg _ same), if_pos same, same]
    · rw [if_neg fun equal => same (rotation.turn.injective equal), if_neg same, tx_inputSdus]
  rw [setSdu, sdus]
  rfl

theorem tx_setPdu (rotation : Rotation) (tx : Transmitter) (sn : Nat) (pdu : TxPdu) :
    (rotation.tx tx).setPdu sn (rotation.pdu pdu) = rotation.tx (tx.setPdu sn pdu) := by
  have pdus : update (rotation.tx tx).pduRetransBuffer sn (rotation.pdu pdu) =
      (rotation.tx (tx.setPdu sn pdu)).pduRetransBuffer := by
    funext at_
    rw [tx_pduRetransBuffer, setPdu_pduRetransBuffer, update_apply, update_apply]
    split
    · rfl
    · rfl
  rw [setPdu, pdus]
  rfl

theorem Fits.congr (fits : rotation.Fits tx) (next : other.nextSduIndex = tx.nextSduIndex)
    (current : other.currentSduIndex = tx.currentSduIndex)
    (held : ∀ slot, (other.inputSdus slot).memBlock.isSome → (tx.inputSdus slot).memBlock.isSome)
    (slots : ∀ sn, (other.pduRetransBuffer sn).sdusIndex ⊆ (tx.pduRetransBuffer sn).sdusIndex) :
    rotation.Fits other where
  next := next ▸ fits.next
  current := current ▸ fits.current
  order slot stale := by
    rw [next, current]
    exact fits.order slot stale
  held slot filled := next ▸ fits.held slot (held slot filled)
  slots sn slot mem := next ▸ fits.slots sn slot (slots sn mem)

theorem Fits.onlyPolls (fits : rotation.Fits tx) (only : tx.OnlyPolls other) :
    rotation.Fits other := by
  have sdus : other.inputSdus = tx.inputSdus := only.kept inputSdus
  have pdus : other.pduRetransBuffer = tx.pduRetransBuffer :=
    only.kept pduRetransBuffer
  refine fits.congr (only.kept nextSduIndex)
    (only.kept currentSduIndex) (fun slot filled => sdus ▸ filled) ?_
  rw [pdus]
  exact fun _ _ mem => mem

theorem Fits.setPdu (fits : rotation.Fits tx) {pdu : TxPdu}
    (slots : ∀ slot ∈ pdu.sdusIndex, rotation.Reached tx.nextSduIndex slot) :
    rotation.Fits (tx.setPdu sn pdu) where
  __ := fits
  slots at_ slot mem := by
    simp only [Transmitter.setPdu, update_apply] at mem
    split at mem
    · exact slots slot mem
    · exact fits.slots at_ slot mem

theorem Fits.setSdu (fits : rotation.Fits tx) {sdu : TxSdu}
    (held : sdu.memBlock.isSome → rotation.Reached tx.nextSduIndex slot) :
    rotation.Fits (tx.setSdu slot sdu) where
  __ := fits
  held at_ filled := by
    simp only [Transmitter.setSdu, update_apply] at filled
    split at filled
    next same => exact same ▸ held filled
    · exact fits.held at_ filled

end Rotation

/-! SDUs are taken, confirmed and freed. -/

theorem nextSlot_of_lt (below : slot + 1 < rlcAmSduControlBufferSize) : nextSlot slot = slot + 1 :=
  Nat.mod_eq_of_lt below

namespace Rotation

def fill (rotation : Rotation) (slot : Nat) : Rotation :=
  { rotation with
    stale := update rotation.stale slot false
    stale_lt := fun other stale => by
      rw [update_apply] at stale
      split at stale
      · cases stale
      · exact rotation.stale_lt other stale }

theorem fill_stale {rotation : Rotation} {slot other : Nat}
    (stale : (rotation.fill slot).stale other) :
    other ≠ slot ∧ rotation.stale other := by
  simp only [fill, update_apply] at stale
  split at stale
  · cases stale
  next apart => exact ⟨apart, stale⟩

theorem fill_setSdu (rotation : Rotation) (tx : Transmitter) (slot : Nat) (sdu : TxSdu) :
    (rotation.tx tx).setSdu (rotation.turn slot) sdu =
      (rotation.fill slot).tx (tx.setSdu slot sdu) := by
  have sdus : update (rotation.tx tx).inputSdus (rotation.turn slot) sdu =
      ((rotation.fill slot).tx (tx.setSdu slot sdu)).inputSdus := by
    funext at_
    obtain ⟨origin, rfl⟩ := rotation.turn.surjective at_
    have moved := (rotation.fill slot).tx_inputSdus (tx.setSdu slot sdu) origin
    refine Eq.trans ?_ moved.symm
    rw [setSdu_inputSdus, update_apply, update_apply]
    by_cases same : origin = slot
    · rw [if_pos (congrArg _ same), if_pos same, same]
      simp [Rotation.sdu, fill]
    · rw [if_neg fun equal => same (rotation.turn.injective equal), if_neg same, tx_inputSdus]
      simp [Rotation.sdu, fill, same]
  rw [setSdu, sdus]
  rfl

theorem tx_acceptsSdu (next : tx.nextSduIndex < rlcAmSduControlBufferSize) :
    (rotation.tx tx).acceptsSdu = tx.acceptsSdu := by
  have wraps : nextSlot (rotation.turn tx.nextSduIndex) = rotation.turn tx.currentSduIndex ↔
      nextSlot tx.nextSduIndex = tx.currentSduIndex := by
    rw [← rotation.turn_next next]
    exact rotation.turn.injective.eq_iff
  have slot : (rotation.tx tx).inputSdus (rotation.tx tx).nextSduIndex =
      rotation.sdu tx.nextSduIndex (tx.inputSdus tx.nextSduIndex) := rotation.tx_inputSdus tx _
  have ends : (nextSlot (rotation.tx tx).nextSduIndex ≠ (rotation.tx tx).currentSduIndex) ↔
      nextSlot tx.nextSduIndex ≠ tx.currentSduIndex := not_congr wraps
  simp only [acceptsSdu, slot, ends]
  rfl

theorem Alike.dataReq {used : Transmitter} (alike : rotation.Alike tx used) (mui : Nat)
    (octets : List UInt8) : ∃ next : Rotation, next.earlier = rotation.earlier ∧
      next.Alike (tx.dataReq mui octets) (used.dataReq mui octets) := by
  obtain ⟨fits, rfl⟩ := alike
  simp only [Transmitter.dataReq, tx_acceptsSdu fits.next]
  split
  · have steps : ∀ other, (rotation.fill tx.nextSduIndex).stale other →
        tx.currentSduIndex ≤ tx.nextSduIndex ∧ nextSlot tx.nextSduIndex = tx.nextSduIndex + 1 ∧
          tx.nextSduIndex + 1 ≤ other ∧ rotation.stale other := by
      intro other stale
      obtain ⟨apart, before⟩ := fill_stale stale
      have order := fits.order other before
      have bounded := rotation.stale_lt other before
      exact ⟨order.1, nextSlot_of_lt (by omega), by omega, before⟩
    have reached : ∀ {slot}, rotation.Reached tx.nextSduIndex slot →
        (rotation.fill tx.nextSduIndex).Reached (nextSlot tx.nextSduIndex) slot := by
      intro slot before
      refine ⟨before.1, fun other stale => ?_⟩
      obtain ⟨-, wraps, -, old⟩ := steps other stale
      have := before.2 other old
      omega
    refine ⟨rotation.fill tx.nextSduIndex, rfl, ⟨?_, fits.current, ?_, ?_, ?_⟩, ?_⟩
    · exact nextSlot_lt _
    · intro other stale
      obtain ⟨order, wraps, above, -⟩ := steps other stale
      exact show tx.currentSduIndex ≤ nextSlot tx.nextSduIndex ∧
        nextSlot tx.nextSduIndex ≤ other by omega
    · intro slot filled
      simp only [setSdu_inputSdus, update_apply] at filled
      split at filled
      next here =>
        refine ⟨here ▸ fits.next, fun other stale => ?_⟩
        obtain ⟨-, wraps, -⟩ := steps other stale
        exact show slot < nextSlot tx.nextSduIndex by omega
      · exact reached (fits.held slot filled)
    · intro sn slot mem
      exact reached (fits.slots sn slot mem)
    · have stored := rotation.fill_setSdu tx tx.nextSduIndex
        { TxSdu.zeroed with
          memBlock := some octets
          mui := mui
          sduSize := octets.length % 2 ^ 16
          sduRemainingSize := octets.length % 2 ^ 16 }
      have moves : nextSlot (rotation.tx tx).nextSduIndex =
          rotation.turn (nextSlot tx.nextSduIndex) := (rotation.turn_next fits.next).symm
      refine Eq.trans ?_ (congrArg (fun placed : Transmitter =>
        { placed with
          sduBufferOccupancy := tx.sduBufferOccupancy + (octets.length % 2 ^ 16 : Nat)
          nbSdu := tx.nbSdu + 1
          nbSduNoSegmented := tx.nbSduNoSegmented + 1
          nextSduIndex := rotation.turn (nextSlot tx.nextSduIndex) }) stored)
      rw [← moves]
      rfl
  · exact ⟨rotation, rfl, fits, rfl⟩

end Rotation

theorem skipTransmitted_le (sdus : Nat → TxSdu) {next fuel current : Nat} (notPast : current ≤ next)
    (nextLt : next < rlcAmSduControlBufferSize) :
    skipTransmitted sdus next fuel current ≤ next := by
  induction fuel generalizing current with
  | zero => exact notPast
  | succ fuel ih =>
    rw [skipTransmitted]
    split
    next goes =>
      refine ih ?_
      rw [nextSlot_of_lt (by omega)]
      omega
    · exact notPast

namespace Rotation

theorem tx_skipTransmitted {next fuel current : Nat}
    (nextLt : next < rlcAmSduControlBufferSize) (bounded : current < rlcAmSduControlBufferSize)
    (order : ∀ slot, rotation.stale slot → current ≤ next ∧ next ≤ slot) :
    skipTransmitted (rotation.tx tx).inputSdus (rotation.turn next) fuel (rotation.turn current) =
      rotation.turn (skipTransmitted tx.inputSdus next fuel current) := by
  induction fuel generalizing current with
  | zero => rfl
  | succ fuel ih =>
    by_cases ended : current = next
    · rw [skipTransmitted, skipTransmitted, if_neg fun goes => goes.1 (congrArg _ ended),
        if_neg fun goes => goes.1 ended]
    · have clear : rotation.stale current = false := by
        rw [← Bool.not_eq_true]
        intro stale
        have := order current stale
        omega
      have mark : ((rotation.tx tx).inputSdus (rotation.turn current)).transmittedSuccessfully =
          (tx.inputSdus current).transmittedSuccessfully := by
        simp [sdu, clear]
      have apart : rotation.turn current ≠ rotation.turn next :=
        fun equal => ended (rotation.turn.injective equal)
      simp only [skipTransmitted, mark, apart, ended, ne_eq, not_false_eq_true, true_and]
      split
      · rw [← rotation.turn_next bounded]
        refine ih (nextSlot_lt _) fun slot stale => ?_
        have := order slot stale
        rw [nextSlot_of_lt (by omega)]
        omega
      · rfl

theorem Fits.freeInSdu (fits : rotation.Fits tx) (reached : rotation.Reached tx.nextSduIndex slot) :
    rotation.Fits (tx.freeInSdu slot) ∧
      (rotation.tx tx).freeInSdu (rotation.turn slot) = rotation.tx (tx.freeInSdu slot) := by
  let current := if tx.currentSduIndex = slot then nextSlot tx.currentSduIndex
    else tx.currentSduIndex
  let freed := tx.setSdu slot { TxSdu.zeroed with transmittedSuccessfully := true }
  have bounded : current < rlcAmSduControlBufferSize := by
    simp only [current]
    split
    · exact nextSlot_lt _
    · exact fits.current
  have order : ∀ other, rotation.stale other →
      current ≤ tx.nextSduIndex ∧ tx.nextSduIndex ≤ other := by
    intro other stale
    have before := fits.order other stale
    refine ⟨?_, before.2⟩
    simp only [current]
    split
    next here =>
      have below := reached.2 other stale
      have nextLt := fits.next
      rw [nextSlot_of_lt (by omega)]
      omega
    · exact before.1
  have freedFits : rotation.Fits freed := fits.setSdu fun filled => by cases filled
  refine ⟨⟨fits.next, skipTransmitted_lt _ _ bounded, fun other stale => ?_, freedFits.held,
    freedFits.slots⟩, ?_⟩
  · exact ⟨skipTransmitted_le _ (order other stale).1 fits.next, (order other stale).2⟩
  · have stored : (rotation.tx tx).setSdu (rotation.turn slot)
        { TxSdu.zeroed with transmittedSuccessfully := true } = rotation.tx freed := by
      rw [← tx_setSdu]
      simp [sdu]
    have moved : (if rotation.turn tx.currentSduIndex = rotation.turn slot then
        nextSlot (rotation.turn tx.currentSduIndex) else rotation.turn tx.currentSduIndex) =
          rotation.turn current := by
      simp only [current, rotation.turn.injective.eq_iff]
      split
      · exact (rotation.turn_next fits.current).symm
      · rfl
    have skipped := @tx_skipTransmitted rotation freed tx.nextSduIndex
      rlcAmSduControlBufferSize current fits.next bounded order
    have held : ((rotation.tx tx).inputSdus (rotation.turn slot)).memBlock.isSome =
        (tx.inputSdus slot).memBlock.isSome := by
      rw [tx_inputSdus]
      rfl
    simp only [Transmitter.freeInSdu, stored, held]
    refine Eq.trans ?_ (congrArg (fun index : Nat =>
      { rotation.tx freed with
        nbSduNoSegmented :=
          if (tx.inputSdus slot).memBlock.isSome then tx.nbSduNoSegmented - 1
          else tx.nbSduNoSegmented
        nbSdu := tx.nbSdu - 1
        currentSduIndex := index }) skipped)
    rw [← moved]
    rfl

variable {settles : TxSdu → Bool} {status : Bool}

theorem Fits.settleSdu (fits : rotation.Fits tx)
    (unmarked : ∀ slot sdu, settles (rotation.sdu slot sdu) = settles sdu)
    (reached : rotation.Reached tx.nextSduIndex slot) :
    Rel (fun fresh used => rotation.Alike fresh used ∧ fresh.nextSduIndex = tx.nextSduIndex)
      (tx.settleSdu settles status slot)
      ((rotation.tx tx).settleSdu settles status (rotation.turn slot)) := by
  let counted := { tx.inputSdus slot with
    nbPdusAck := ((tx.inputSdus slot).nbPdusAck + 1) % 2 ^ 8 }
  have stored : (rotation.tx tx).setSdu (rotation.turn slot) (rotation.sdu slot counted) =
      rotation.tx (tx.setSdu slot counted) := rotation.tx_setSdu tx slot counted
  have countedFits : rotation.Fits (tx.setSdu slot counted) := fits.setSdu fun _ => reached
  have renamed : { (rotation.tx tx).inputSdus (rotation.turn slot) with
      nbPdusAck := (((rotation.tx tx).inputSdus (rotation.turn slot)).nbPdusAck + 1) % 2 ^ 8 } =
        rotation.sdu slot counted := by
    rw [tx_inputSdus]
    rfl
  simp only [Transmitter.settleSdu, if_pos reached.1, if_pos (rotation.turn_lt reached.1), renamed,
    unmarked, stored]
  by_cases settled : settles counted
  · rw [if_pos settled, if_pos settled]
    let confirming : Transmitter := { tx.setSdu slot counted with
      confirmed := tx.confirmed ++ [(slot, counted.mui, status)] }
    have confirmingFits : rotation.Fits confirming :=
      { countedFits with }
    obtain ⟨freedFits, freed⟩ := confirmingFits.freeInSdu reached
    refine .some ⟨⟨freedFits, ?_⟩, rfl⟩
    have appended : { rotation.tx (tx.setSdu slot counted) with
        confirmed := (rotation.tx tx).confirmed ++ [(rotation.turn slot, counted.mui, status)] } =
        rotation.tx confirming := by
      simp [Rotation.tx, confirming, Transmitter.setSdu]
    have mui : ((rotation.tx tx).inputSdus (rotation.turn slot)).mui = counted.mui := by
      rw [tx_inputSdus]
      rfl
    rw [mui]
    exact (congrArg (Transmitter.freeInSdu · (rotation.turn slot)) appended).trans freed
  · rw [if_neg settled, if_neg settled]
    exact .some ⟨⟨countedFits, rfl⟩, rfl⟩

theorem Fits.settleSdus {slots : List Nat} (fits : rotation.Fits tx)
    (unmarked : ∀ slot sdu, settles (rotation.sdu slot sdu) = settles sdu)
    (reached : ∀ slot ∈ slots, rotation.Reached tx.nextSduIndex slot) :
    Rel rotation.Alike (slots.foldlM (Transmitter.settleSdu settles status) tx)
      ((slots.map rotation.turn).foldlM (Transmitter.settleSdu settles status)
        (rotation.tx tx)) := by
  have kept : ∀ fresh used, ∀ slot ∈ slots,
      rotation.Alike fresh used ∧ fresh.nextSduIndex = tx.nextSduIndex →
      Rel
        (fun fresh used => rotation.Alike fresh used ∧ fresh.nextSduIndex = tx.nextSduIndex)
        (fresh.settleSdu settles status slot)
        (used.settleSdu settles status (rotation.turn slot)) := by
    rintro fresh _ slot mem ⟨⟨freshFits, rfl⟩, next⟩
    rw [← next] at reached ⊢
    exact freshFits.settleSdu unmarked (reached slot mem)
  exact rel_weaken (rel_foldlM kept ⟨⟨fits, rfl⟩, rfl⟩) fun _ _ same => same.1

end Rotation

/-! Reports of a STATUS PDU. -/

namespace Rotation

theorem pdu_addHole (rotation : Rotation) (pdu : TxPdu) (soStart soStop : Int) :
    (rotation.pdu pdu).addHole soStart soStop = (pdu.addHole soStart soStop).map rotation.pdu := by
  simp only [TxPdu.addHole, TxPdu.insertHole, apply_ite (Option.map rotation.pdu), map_some,
    map_none]
  rfl

theorem pdu_nacked (rotation : Rotation) (pdu : TxPdu) (frame : Nat) (soStart soStop : Int) :
    (rotation.pdu pdu).nacked frame soStart soStop =
      (pdu.nacked frame soStart soStop).map rotation.pdu := by
  have cleared : (rotation.pdu pdu).clearedAt frame = rotation.pdu (pdu.clearedAt frame) := by
    simp only [TxPdu.clearedAt, apply_ite rotation.pdu]
    rfl
  simp only [TxPdu.nacked, cleared, pdu_addHole]
  split
  · cases (pdu.clearedAt frame).addHole soStart soStop with
    | none => rfl
    | some holed => rfl
  · rfl

theorem tx_markNacked (rotation : Rotation) (tx : Transmitter) (sn : Nat) (pdu : TxPdu) :
    (rotation.tx tx).markNacked sn (rotation.pdu pdu) = rotation.tx (tx.markNacked sn pdu) := by
  simp only [markNacked, tx_setPdu]
  rfl

theorem Fits.nackPdu {soStart soStop : Int} (fits : rotation.Fits tx) :
    Rel rotation.Alike (tx.nackPdu frame sn soStart soStop)
      ((rotation.tx tx).nackPdu frame sn soStart soStop) := by
  have held : ((rotation.tx tx).pduRetransBuffer sn).memBlock =
      (tx.pduRetransBuffer sn).memBlock := rfl
  simp only [Transmitter.nackPdu, held]
  split
  · rw [tx_pduRetransBuffer, pdu_nacked]
    cases nacked : (tx.pduRetransBuffer sn).nacked frame soStart soStop with
    | none => exact .none
    | some pdu =>
      have slots : pdu.sdusIndex = (tx.pduRetransBuffer sn).sdusIndex := by
        obtain ⟨holed, -, only, rfl⟩ := TxPdu.nacked_spec nacked
        exact only.kept TxPdu.sdusIndex
      have marked : rotation.Fits (tx.markNacked sn pdu) := by
        have stored : rotation.Fits (tx.setPdu sn pdu) :=
          fits.setPdu (slots ▸ fits.slots sn)
        exact { stored with }
      simp only [map_some, bind_some, tx_markNacked]
      by_cases reaches : pdu.retxCount ≥ tx.maxRetxThreshold
      · have reachesToo :
            (rotation.pdu pdu).retxCount ≥ (rotation.tx tx).maxRetxThreshold := reaches
        rw [if_pos reaches, if_pos reachesToo]
        exact marked.settleSdus (fun _ _ => rfl) (fits.slots sn)
      · have underToo : ¬(rotation.pdu pdu).retxCount ≥ (rotation.tx tx).maxRetxThreshold := reaches
        rw [if_neg reaches, if_neg underToo]
        exact .some ⟨marked, rfl⟩
  · exact .some ⟨fits, rfl⟩

theorem tx_stopPoll (rotation : Rotation) (tx : Transmitter) (cursor : Nat) :
    (rotation.tx tx).stopPoll cursor = rotation.tx (tx.stopPoll cursor) := by
  simp only [stopPoll, apply_ite rotation.tx]
  rfl

theorem tx_passVtA (rotation : Rotation) (tx : Transmitter) :
    (rotation.tx tx).passVtA = rotation.tx tx.passVtA := by
  have cleared : (rotation.tx tx).setPdu tx.vtA .zeroed = rotation.tx (tx.setPdu tx.vtA .zeroed) :=
    rotation.tx_setPdu tx tx.vtA .zeroed
  have vtA : (rotation.tx tx).vtA = tx.vtA := rfl
  simp only [passVtA, vtA, cleared]
  rfl

theorem Fits.advanceLoop {fuel : Nat} (fits : rotation.Fits tx) :
    rotation.Alike (advanceLoop fuel tx)
      (advanceLoop fuel (rotation.tx tx)) := by
  induction fuel generalizing tx with
  | zero => exact ⟨fits, rfl⟩
  | succ fuel ih =>
    have cleared : rotation.Fits (tx.setPdu tx.vtA .zeroed) :=
      fits.setPdu fun _ mem => absurd mem List.not_mem_nil
    have passed : rotation.Fits tx.passVtA :=
      { cleared with }
    rw [advanceLoop_succ, advanceLoop_succ, tx_passVtA]
    simp only [tx_pduRetransBuffer, pdu_ack, tx_vtA, tx_vtS]
    by_cases goes : (tx.passVtA.pduRetransBuffer tx.passVtA.vtA).ack ∧
        tx.passVtA.vtA ≠ tx.passVtA.vtS
    · rw [if_pos goes, if_pos goes]
      exact ih passed
    · rw [if_neg goes, if_neg goes]
      exact ⟨passed, rfl⟩

theorem Fits.advanceVtA (fits : rotation.Fits tx) :
    rotation.Alike tx.advanceVtA (rotation.tx tx).advanceVtA := by
  obtain ⟨loopFits, looped⟩ := @Rotation.Fits.advanceLoop rotation tx rlcAmSnModulo fits
  generalize moved : Transmitter.advanceLoop rlcAmSnModulo tx = fresh at loopFits looped
  simp only [Transmitter.advanceVtA, moved, looped]
  exact ⟨⟨loopFits.next, loopFits.current, loopFits.order, loopFits.held, loopFits.slots⟩, rfl⟩

theorem Fits.markAcked (fits : rotation.Fits tx) :
    rotation.Alike (tx.markAcked sn) ((rotation.tx tx).markAcked sn) := by
  have marked : rotation.Fits (tx.setPdu sn { tx.pduRetransBuffer sn with ack := true }) :=
    fits.setPdu (fits.slots sn)
  have stored :
      (rotation.tx tx).setPdu sn { (rotation.tx tx).pduRetransBuffer sn with ack := true } =
      rotation.tx (tx.setPdu sn { tx.pduRetransBuffer sn with ack := true }) :=
    rotation.tx_setPdu tx sn { tx.pduRetransBuffer sn with ack := true }
  simp only [Transmitter.markAcked, stored, tx_vtA]
  split
  · exact marked.advanceVtA
  · exact ⟨marked, rfl⟩

end Rotation

theorem seekRetrans_congr {pdus others : Nat → TxPdu} {vtS : Nat}
    (same : ∀ sn, (others sn).retxCount = (pdus sn).retxCount) (fuel sn : Nat) :
    seekRetrans others vtS fuel sn = seekRetrans pdus vtS fuel sn := by
  induction fuel generalizing sn with
  | zero => rfl
  | succ fuel ih => simp only [seekRetrans, same, ih]

namespace Rotation

theorem Fits.skipRetrans (fits : rotation.Fits tx) :
    rotation.Alike (tx.skipRetrans sn) ((rotation.tx tx).skipRetrans sn) := by
  have found := @seekRetrans_congr tx.pduRetransBuffer (rotation.tx tx).pduRetransBuffer tx.vtS
    (fun _ => rfl) rlcAmSnModulo sn
  simp only [Transmitter.skipRetrans, tx_vtS, tx_firstRetransPduSn, found]
  split
  · exact ⟨{ fits with }, rfl⟩
  · exact ⟨fits, rfl⟩

theorem Fits.ackPdu (fits : rotation.Fits tx) :
    Rel rotation.Alike (tx.ackPdu sn) ((rotation.tx tx).ackPdu sn) := by
  have freed : rotation.Fits (tx.freePdu sn) := fits.setPdu (fits.slots sn)
  have stored : (rotation.tx tx).freePdu sn = rotation.tx (tx.freePdu sn) :=
    rotation.tx_setPdu tx sn { tx.pduRetransBuffer sn with retransmit := false, memBlock := none }
  simp only [Transmitter.ackPdu, stored, tx_pduRetransBuffer, pdu_ack,
    pdu_memBlock, pdu_sdusIndex, tx_vtA]
  split
  · have uncounted : rotation.Fits ((tx.freePdu sn).uncountPdu (tx.pduRetransBuffer sn)) :=
      { freed with }
    refine rel_map (uncounted.settleSdus (fun _ _ => rfl) (fits.slots sn)) ?_
    rintro fresh _ ⟨freshFits, rfl⟩
    obtain ⟨markedFits, marked⟩ := @Rotation.Fits.markAcked rotation fresh sn freshFits
    rw [marked]
    exact markedFits.skipRetrans
  · split
    · exact .some freed.advanceVtA
    · exact .some ⟨freed, rfl⟩

theorem Fits.walkStatus {ackSn fuel cursor : Nat} {last : Option NackItem}
    {items : List NackItem} (fits : rotation.Fits tx) :
    Rel rotation.Alike (walkStatus frame ackSn fuel tx cursor last items)
      (walkStatus frame ackSn fuel (rotation.tx tx) cursor last items) := by
  induction fuel generalizing tx cursor last items with
  | zero => exact .none
  | succ fuel ih =>
    have stopped := fits.onlyPolls (stopPoll_onlyPolls tx cursor)
    rw [walkStatus, walkStatus]
    split
    · exact .some ⟨fits, rfl⟩
    · simp only [tx_stopPoll]
      cases items with
      | nil =>
        refine rel_bind stopped.ackPdu ?_
        rintro fresh _ ⟨freshFits, rfl⟩
        exact ih freshFits
      | cons item rest =>
        simp only
        split
        · refine rel_bind stopped.nackPdu ?_
          rintro fresh _ ⟨freshFits, rfl⟩
          exact ih freshFits
        · refine rel_bind stopped.ackPdu ?_
          rintro fresh _ ⟨freshFits, rfl⟩
          exact ih freshFits

theorem Fits.receiveProcessControlPdu {info : ControlPduInfo} (fits : rotation.Fits tx) :
    Rel rotation.Alike (tx.receiveProcessControlPdu frame info)
      ((rotation.tx tx).receiveProcessControlPdu frame info) := by
  simp only [Transmitter.receiveProcessControlPdu, tx_vtA, tx_vtMs]
  split
  · split
    · exact fits.walkStatus
    · exact .some ⟨fits, rfl⟩
  · exact .none

end Rotation

end Commutes

end OpenAir.RlcAm
