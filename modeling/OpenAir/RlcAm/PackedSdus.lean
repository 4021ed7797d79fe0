import OpenAir.RlcAm.SduSlots

/-! The two loops of `rlc_am_segment_10` agree: the one that fills the PDU puts
exactly those SDUs into it that the first one has entered, whatever room the
first one has taken off for length indicators. -/

set_option autoImplicit false

namespace OpenAir.RlcAm

open List Option Function Transmitter

def FillsExactly (sdus : Nat → TxSdu) : Nat → Nat → Nat → Nat → Nat → Prop
  | 0, slot, _, _, _ => (sdus slot).memBlock = none
  | count + 1, slot, room, liLength, numLi =>
    let need := (sdus slot).sduRemainingSize + (liLength ^^^ 3)
    (sdus slot).memBlock.isSome ∧
      if need < room ∧ numLi ≠ rlcAmMaxSduInPdu - 1 then
        FillsExactly sdus count (nextSlot slot) (room - need) (liLength ^^^ 3) (numLi + 1)
      else count = 0

variable {sdus : Nat → TxSdu} {count slot liLength numLi current index : Nat}

theorem FillsExactly.congr {others : Nat → TxSdu} {room : Nat}
    (fills : FillsExactly sdus count slot room liLength numLi)
    (bounded : slot < rlcAmSduControlBufferSize)
    (same : ∀ index ≤ count,
      (others (slotFrom slot index)).memBlock = (sdus (slotFrom slot index)).memBlock ∧
      (others (slotFrom slot index)).sduRemainingSize =
        (sdus (slotFrom slot index)).sduRemainingSize) :
    FillsExactly others count slot room liLength numLi := by
  induction count generalizing slot room liLength numLi with
  | zero =>
    have here := (same 0 (Nat.le_refl _)).1
    rw [slotFrom_zero bounded] at here
    exact here.trans fills
  | succ count ih =>
    obtain ⟨block, rest⟩ := same 0 (Nat.zero_le _)
    rw [slotFrom_zero bounded] at block rest
    obtain ⟨held, goes⟩ := fills
    refine ⟨by rw [block, held], ?_⟩
    rw [rest]
    split
    next more =>
      rw [if_pos more] at goes
      refine ih goes (nextSlot_lt _) fun index inside => ?_
      rw [slotFrom_nextSlot]
      exact same (index + 1) (by omega)
    next ended =>
      rw [if_neg ended] at goes
      exact goes

theorem FillsExactly.held {room : Nat} (fills : FillsExactly sdus count slot room liLength numLi)
    (bounded : slot < rlcAmSduControlBufferSize) :
    ∀ index < count, (sdus (slotFrom slot index)).memBlock.isSome := by
  induction count generalizing slot room liLength numLi with
  | zero => exact nofun
  | succ count ih =>
    obtain ⟨held, goes⟩ := fills
    intro index less
    cases index with
    | zero =>
      rw [slotFrom_zero bounded]
      exact held
    | succ index =>
      rw [← slotFrom_nextSlot]
      split at goes
      · exact ih goes (nextSlot_lt _) index (by omega)
      · omega

theorem slotFrom_ne (some_ : 0 < index) (below : index < rlcAmSduControlBufferSize) :
    slotFrom current index ≠ current := by
  simp only [slotFrom, rlcAmSduControlBufferSize] at *
  omega

def slotsFrom (current count : Nat) : List Nat := (List.range count).map (slotFrom current)

theorem slotsFrom_succ (current count : Nat) :
    slotsFrom current (count + 1) = slotsFrom current count ++ [slotFrom current count] := by
  simp [slotsFrom, range_succ]

theorem mem_slotsFrom :
    slot ∈ slotsFrom current count ↔ ∃ index < count, slot = slotFrom current index := by
  simp [slotsFrom, eq_comm]

theorem slotFrom_notMem_slotsFrom (behind : count ≤ index)
    (below : index < rlcAmSduControlBufferSize) :
    slotFrom current index ∉ slotsFrom current count := by
  rw [mem_slotsFrom]
  rintro ⟨earlier, less, same⟩
  have := slotFrom_injective below (by omega) same
  omega

theorem count_slotsFrom_le_one (current : Nat) (below : count ≤ rlcAmSduControlBufferSize)
    (slot : Nat) : (slotsFrom current count).count slot ≤ 1 := by
  refine nodup_iff_count_le_one.mp ?_ slot
  refine List.Nodup.map_on ?_ nodup_range
  intro left leftIn right rightIn same
  rw [mem_range] at leftIn rightIn
  exact slotFrom_injective (by omega) (by omega) same

def Packing.room (packing : Packing) : Nat := packing.pduRemainingSize - packing.sizeToSubstract

structure Packed (tx : Transmitter) (current visited room liLength : Nat) (before out : Packing)
    (count : Nat) : Prop where
  few : visited + count ≤ rlcAmMaxSduInPdu
  entered : out.tx = tx.recorded (slotsFrom current (visited + count))
  listed : out.sdusIndex = slotsFrom current (visited + count)
  ends : count = 0 → out = before ∧ (tx.inputSdus (slotFrom current visited)).memBlock = none
  leaves : 0 < count → before.pduRemainingSize < out.room + room
  fills : 0 < count → FillsExactly tx.inputSdus count (slotFrom current visited)
    (out.room - (before.pduRemainingSize - room)) liLength visited
  cuts : 0 < count → out.room < before.pduRemainingSize - room +
      (tx.inputSdus (slotFrom current visited)).sduRemainingSize →
    out.room = before.pduRemainingSize

section Packed

variable {tx : Transmitter} {current visited room liLength : Nat} {before out : Packing}

theorem Packed.last (inside : visited < rlcAmMaxSduInPdu)
    (held : (tx.inputSdus (slotFrom current visited)).memBlock.isSome)
    (entered : out.tx = tx.recorded (slotsFrom current (visited + 1)))
    (listed : out.sdusIndex = slotsFrom current (visited + 1))
    (leaves : before.pduRemainingSize < out.room + room)
    (stops : (tx.inputSdus (slotFrom current visited)).sduRemainingSize + (liLength ^^^ 3) <
        out.room - (before.pduRemainingSize - room) → visited ≠ rlcAmMaxSduInPdu - 1 →
      (tx.inputSdus (slotFrom current (visited + 1))).memBlock = none)
    (cuts : out.room < before.pduRemainingSize - room +
        (tx.inputSdus (slotFrom current visited)).sduRemainingSize →
      out.room = before.pduRemainingSize) :
    Packed tx current visited room liLength before out 1 where
  few := by omega
  entered := entered
  listed := listed
  ends := by omega
  leaves _ := leaves
  fills _ := by
    refine ⟨held, ?_⟩
    split
    next goes =>
      rw [nextSlot_slotFrom]
      exact stops goes.1 goes.2
    · rfl
  cuts _ := cuts

theorem Packed.cons {next : Packing} {count : Nat}
    (packed : Packed tx current (visited + 1)
      (room - ((tx.inputSdus (slotFrom current visited)).sduRemainingSize + (liLength ^^^ 3)))
      (liLength ^^^ 3) next out count) (inside : visited + 1 < rlcAmMaxSduInPdu)
    (held : (tx.inputSdus (slotFrom current visited)).memBlock.isSome)
    (fits : (tx.inputSdus (slotFrom current visited)).sduRemainingSize + (liLength ^^^ 3) < room)
    (upTo : room ≤ before.pduRemainingSize)
    (size : next.pduRemainingSize = before.pduRemainingSize)
    (substract : next.sizeToSubstract = liLength ^^^ 3) :
    Packed tx current visited room liLength before out (count + 1) := by
  obtain ⟨few, entered, listed, ends, leaves, fills, cuts⟩ := packed
  rw [size] at leaves fills
  rw [Nat.add_right_comm] at entered listed
  cases count with
  | zero =>
    obtain ⟨rfl, none⟩ := ends rfl
    have left : out.room = before.pduRemainingSize - (liLength ^^^ 3) := by
      rw [Packing.room, size, substract]
    exact .last (by omega) held entered listed (by omega) (fun _ _ => none) (by omega)
  | succ count =>
    refine ⟨by omega, entered, listed, by omega, fun _ => by omega, fun _ => ⟨held, ?_⟩,
      fun _ => by omega⟩
    rw [if_pos ⟨by omega, by omega⟩, nextSlot_slotFrom]
    have rest : out.room - (before.pduRemainingSize - room) -
        ((tx.inputSdus (slotFrom current visited)).sduRemainingSize + (liLength ^^^ 3)) =
        out.room - (before.pduRemainingSize - (room -
          ((tx.inputSdus (slotFrom current visited)).sduRemainingSize + (liLength ^^^ 3)))) := by
      omega
    rw [rest]
    exact fills (Nat.zero_lt_succ _)

def TxSdu.MayGrow (sdu : TxSdu) : Prop := sdu.pdusIndex.length + 1 < rlcAmMaxSduFragments

theorem recordPdu_entered (inside : visited < rlcAmMaxSduInPdu)
    (entered : before.tx = tx.recorded (slotsFrom current visited)) :
    before.tx.inputSdus (slotFrom current visited) = tx.inputSdus (slotFrom current visited) ∧
      before.tx.recordPdu (slotFrom current visited) =
        if (tx.inputSdus (slotFrom current visited)).pdusIndex.length + 1 < rlcAmMaxSduFragments
        then some (tx.recorded (slotsFrom current (visited + 1))) else none := by
  have apart : slotFrom current visited ∉ slotsFrom current visited :=
    slotFrom_notMem_slotsFrom (Nat.le_refl _) (Nat.lt_of_lt_of_le inside (by decide))
  have entry : before.tx.inputSdus (slotFrom current visited) =
      tx.inputSdus (slotFrom current visited) := by
    rw [entered, recorded_of_notMem apart]
  refine ⟨entry, ?_⟩
  split
  next grows =>
    rw [entered, slotsFrom_succ]
    exact recordPdu_recorded (by rw [recorded_of_notMem apart]; exact grows)
  next full => simp only [recordPdu, entry, if_neg full]

theorem testFill_packed
    (waits : ∀ index < rlcAmMaxSduInPdu,
      (tx.inputSdus (slotFrom current index)).memBlock.isSome →
        0 < (tx.inputSdus (slotFrom current index)).sduRemainingSize)
    {fuel : Nat} (rounds : fuel + visited = rlcAmMaxSduInPdu) (inside : visited < rlcAmMaxSduInPdu)
    (entered : before.tx = tx.recorded (slotsFrom current visited))
    (listed : before.sdusIndex = slotsFrom current visited)
    (some_ : 0 < room) (upTo : room ≤ before.pduRemainingSize)
    (planned : testFill fuel before (slotFrom current visited) room liLength = some out) :
    ∃ count, Packed tx current visited room liLength before out count ∧
      ∀ index < count, (tx.inputSdus (slotFrom current (visited + index))).MayGrow := by
  induction fuel generalizing visited room liLength before with
  | zero => omega
  | succ fuel ih =>
    obtain ⟨entry, record⟩ := recordPdu_entered (by omega) entered
    simp only [testFill, entry] at planned
    cases block : (tx.inputSdus (slotFrom current visited)).memBlock with
    | none =>
      rw [block] at planned
      cases planned
      refine ⟨0, ⟨by omega, entered, listed, fun _ => ⟨rfl, block⟩, ?_, ?_, ?_⟩, ?_⟩ <;> omega
    | some octets =>
      have held : (tx.inputSdus (slotFrom current visited)).memBlock.isSome := by
        rw [block]
        rfl
      have left := waits visited inside held
      rw [block] at planned
      obtain ⟨recorded, done, planned⟩ := bind_eq_some_iff.mp planned
      obtain ⟨grows, stored⟩ := ite_none_right_eq_some.mp (record.symm.trans done)
      cases stored
      have listedNext : before.sdusIndex ++ [slotFrom current visited] =
          slotsFrom current (visited + 1) := by
        rw [listed, slotsFrom_succ]
      have length : before.sdusIndex.length = visited := by
        rw [listed, slotsFrom, length_map, length_range]
      have only : ∀ index < 1, (tx.inputSdus (slotFrom current (visited + index))).MayGrow := by
        intro index less
        obtain rfl : index = 0 := by omega
        exact grows
      simp only [listedNext, length] at planned
      -- In all branches but one the SDU is the last one that the loop visits.
      have last : ∀ size,
          out = { before with
            tx := tx.recorded (slotsFrom current (visited + 1))
            sdusIndex := slotsFrom current (visited + 1)
            pduRemainingSize := size
            sizeToSubstract := 0
            numLiToSubstract := 0 } →
          before.pduRemainingSize < size + room →
          ((tx.inputSdus (slotFrom current visited)).sduRemainingSize + (liLength ^^^ 3) <
              size - (before.pduRemainingSize - room) → visited = rlcAmMaxSduInPdu - 1) →
          (size < before.pduRemainingSize - room +
              (tx.inputSdus (slotFrom current visited)).sduRemainingSize →
            size = before.pduRemainingSize) →
          ∃ count, Packed tx current visited room liLength before out count ∧
            ∀ index < count, (tx.inputSdus (slotFrom current (visited + index))).MayGrow := by
        rintro size rfl leaves stops cuts
        exact ⟨1, .last inside held rfl rfl leaves (fun goes more => absurd (stops goes) more) cuts,
          only⟩
      split at planned
      next large => exact last _ (Option.some.inj planned).symm (by omega) (by omega) (by omega)
      next small =>
        split at planned
        · exact last _ (Option.some.inj planned).symm (by omega) (by omega) (by omega)
        · split at planned
          next fits =>
            split at planned
            · exact last _ (Option.some.inj planned).symm (by omega) (by omega) (by omega)
            next more =>
              rw [nextSlot_slotFrom] at planned
              obtain ⟨count, packed, grow⟩ := @ih (visited + 1)
                (room - ((tx.inputSdus (slotFrom current visited)).sduRemainingSize +
                  (liLength ^^^ 3))) (liLength ^^^ 3)
                { before with
                  tx := tx.recorded (slotsFrom current (visited + 1))
                  sdusIndex := slotsFrom current (visited + 1)
                  numLi := before.numLi + 1
                  sizeToSubstract := liLength ^^^ 3
                  numLiToSubstract := 1 }
                (by omega) (by omega) rfl rfl (by omega) (by simp only; omega) planned
              refine ⟨count + 1, packed.cons (by omega) held fits upTo rfl rfl, ?_⟩
              intro index less
              cases index with
              | zero => exact grows
              | succ index =>
                rw [Nat.add_comm index 1, ← Nat.add_assoc]
                exact grow index (by omega)
          · exact last _ (Option.some.inj planned).symm (by omega) (by omega) (by omega)

theorem testFill_returns
    (grow : ∀ index < rlcAmMaxSduInPdu,
      (tx.inputSdus (slotFrom current index)).memBlock.isSome →
        (tx.inputSdus (slotFrom current index)).MayGrow)
    {fuel : Nat} (rounds : fuel + visited = rlcAmMaxSduInPdu)
    (entered : before.tx = tx.recorded (slotsFrom current visited)) :
    (testFill fuel before (slotFrom current visited) room liLength).isSome := by
  induction fuel generalizing visited room liLength before with
  | zero => rfl
  | succ fuel ih =>
    obtain ⟨entry, record⟩ := recordPdu_entered (by omega) entered
    simp only [testFill, entry]
    split
    · rfl
    next present =>
      have held : (tx.inputSdus (slotFrom current visited)).memBlock.isSome := by
        simpa [isSome_iff_ne_none] using present
      replace record := record.trans (if_pos (grow visited (by omega) held))
      simp only [record, bind_some]
      split
      · rfl
      · split
        · rfl
        · split
          · split
            · rfl
            · rw [nextSlot_slotFrom]
              exact ih (by omega) rfl
          · rfl

end Packed

structure Placed (tx other : Transmitter) (count room : Nat) : Prop where
  kept : ∀ slot, (other.inputSdus slot).memBlock.isSome →
    (tx.inputSdus slot).memBlock.isSome ∧
      (other.inputSdus slot).pdusIndex = (tx.inputSdus slot).pdusIndex ∧
      (other.inputSdus slot).sduSize = (tx.inputSdus slot).sduSize
  last : ∀ index < count,
    (other.inputSdus (slotFrom tx.currentSduIndex index)).memBlock.isSome →
      index + 1 = count ∧ other.currentSduIndex = slotFrom tx.currentSduIndex index ∧
      (index = 0 → room < (tx.inputSdus tx.currentSduIndex).sduRemainingSize ∧
        (other.inputSdus tx.currentSduIndex).sduSegmentedSize =
          (tx.inputSdus tx.currentSduIndex).sduSegmentedSize + room)

section Placed

variable {tx : Transmitter} {refs : Nat → Int}

variable {rest count testNumLi fuel : Nat} {filling : Filling}

theorem passSdu_entry (held : (tx.inputSdus tx.currentSduIndex).memBlock.isSome) (slot : Nat) :
    (tx.passSdu rest).inputSdus slot =
      if slot = tx.currentSduIndex then
        { tx.inputSdus slot with memBlock := none, sduRemainingSize := 0 }
      else tx.inputSdus slot := by
  simp only [passSdu, freeInSduData, held, if_true, setSdu, update_apply]
  split
  next here => rw [here]
  · rfl

theorem passSdu_currentSduIndex (tx : Transmitter) (rest : Nat) :
    (tx.passSdu rest).currentSduIndex = nextSlot tx.currentSduIndex := by
  simp only [passSdu, freeInSduData]
  split
  · rfl
  · rfl

theorem Placed.pass {room : Nat} (held : (tx.inputSdus tx.currentSduIndex).memBlock.isSome)
    (rest : Nat) (bounded : tx.currentSduIndex < rlcAmSduControlBufferSize) :
    Placed tx (tx.passSdu rest) 1 room where
  kept slot heldAfter := by
    rw [passSdu_entry held] at heldAfter ⊢
    split at heldAfter
    · cases heldAfter
    next apart =>
      rw [if_neg apart]
      exact ⟨heldAfter, rfl, rfl⟩
  last index less heldAfter := by
    obtain rfl : index = 0 := by omega
    rw [slotFrom_zero bounded, passSdu_entry held, if_pos rfl] at heldAfter
    cases heldAfter

theorem Placed.cons {other : Transmitter} {room left : Nat}
    (placed : Placed (tx.passSdu rest) other count left)
    (held : (tx.inputSdus tx.currentSduIndex).memBlock.isSome)
    (bounded : tx.currentSduIndex < rlcAmSduControlBufferSize) :
    Placed tx other (count + 1) room where
  kept slot heldAfter := by
    obtain ⟨heldPassed, pdus, size⟩ := placed.kept slot heldAfter
    rw [passSdu_entry held] at heldPassed pdus size
    split at heldPassed
    · cases heldPassed
    next apart =>
      rw [if_neg apart] at pdus size
      exact ⟨heldPassed, pdus, size⟩
  last index less heldAfter := by
    cases index with
    | zero =>
      rw [slotFrom_zero bounded] at heldAfter
      have heldPassed := (placed.kept _ heldAfter).1
      rw [passSdu_entry held, if_pos rfl] at heldPassed
      cases heldPassed
    | succ index =>
      have same : slotFrom (tx.passSdu rest).currentSduIndex index =
          slotFrom tx.currentSduIndex (index + 1) := by
        rw [passSdu_currentSduIndex, slotFrom_nextSlot]
      rw [← same] at heldAfter ⊢
      obtain ⟨ends, current, -⟩ := placed.last index (by omega) heldAfter
      exact ⟨by omega, current, by omega⟩

theorem Placed.cut {room : Nat} (bounded : tx.currentSduIndex < rlcAmSduControlBufferSize)
    (large : room < (tx.inputSdus tx.currentSduIndex).sduRemainingSize) :
    Placed tx (tx.cutSdu room) 1 room where
  kept slot heldAfter := by
    simp only [cutSdu, setSdu, update_apply] at heldAfter ⊢
    split at heldAfter
    next here =>
      rw [if_pos here, here]
      exact ⟨heldAfter, rfl, rfl⟩
    next apart =>
      rw [if_neg apart]
      exact ⟨heldAfter, rfl, rfl⟩
  last index less _ := by
    obtain rfl : index = 0 := by omega
    rw [slotFrom_zero bounded]
    refine ⟨rfl, rfl, fun _ => ⟨large, ?_⟩⟩
    simp [cutSdu, setSdu]

theorem fill_placed (enough : count ≤ fuel) (some_ : 0 < count) (few : count ≤ rlcAmMaxSduInPdu)
    (slots : filling.tx.Slots refs) (named : ∀ index < count,
      (filling.tx.inputSdus (slotFrom filling.tx.currentSduIndex index)).pdusIndex ≠ [])
    (fills : FillsExactly filling.tx.inputSdus count filling.tx.currentSduIndex
      filling.pduRemainingSize filling.liLength filling.fillNumLi) :
    (fill testNumLi fuel filling).tx.Slots refs ∧
      Placed filling.tx (fill testNumLi fuel filling).tx count filling.pduRemainingSize := by
  induction count generalizing fuel filling with
  | zero => omega
  | succ count ih =>
    obtain ⟨fuel, rfl⟩ : ∃ rounds, fuel = rounds + 1 := ⟨fuel - 1, by omega⟩
    obtain ⟨held, goes⟩ := fills
    have namedHere := named 0 (by omega)
    rw [slotFrom_zero slots.current] at namedHere
    have passed := slots.passSdu held namedHere
    obtain ⟨nextTx, -, liLength, numLi, room⟩ := liRound_fields filling testNumLi
      (filling.tx.inputSdus filling.tx.currentSduIndex)
    rw [fill_succ rfl held]
    split
    next large =>
      rw [if_neg fun more => by have := more.1; omega] at goes
      subst goes
      exact ⟨slots.cutSdu held large, .cut slots.current large⟩
    · split
      next more =>
        rw [if_pos more] at goes
        generalize filling.liRound testNumLi _ = next at nextTx liLength numLi room
        cases count with
        | zero =>
          have free : (next.tx.inputSdus next.tx.currentSduIndex).memBlock = none := by
            have apart : nextSlot filling.tx.currentSduIndex ≠ filling.tx.currentSduIndex :=
              slotFrom_ne Nat.one_pos (by decide)
            rw [nextTx, passSdu_currentSduIndex, passSdu_entry held, if_neg apart]
            exact goes
          rw [fill_free free, nextTx]
          exact ⟨passed, .pass held _ slots.current⟩
        | succ count =>
          have entry : ∀ index ≤ count + 1,
              next.tx.inputSdus (slotFrom (nextSlot filling.tx.currentSduIndex) index) =
                filling.tx.inputSdus (slotFrom filling.tx.currentSduIndex (index + 1)) := by
            intro index inside
            have apart : slotFrom filling.tx.currentSduIndex (index + 1) ≠
                filling.tx.currentSduIndex :=
              slotFrom_ne (Nat.zero_lt_succ _) (by
                simp only [rlcAmMaxSduInPdu, rlcAmSduControlBufferSize] at *
                omega)
            rw [nextTx, slotFrom_nextSlot, passSdu_entry held, if_neg apart]
          have current : next.tx.currentSduIndex = nextSlot filling.tx.currentSduIndex := by
            rw [nextTx, passSdu_currentSduIndex]
          obtain ⟨kept, placed⟩ := @ih fuel next (by omega) (Nat.zero_lt_succ _) (by omega)
            (nextTx ▸ passed)
            (fun index inside => by
              rw [current, entry index (by omega)]
              exact named (index + 1) (by omega))
            (by
              rw [current, room, liLength, numLi]
              refine goes.congr (nextSlot_lt _) fun index inside => ?_
              rw [entry index inside, slotFrom_nextSlot]
              exact ⟨rfl, rfl⟩)
          rw [nextTx] at placed
          exact ⟨kept, placed.cons held slots.current⟩
      next ended =>
        rw [if_neg ended] at goes
        subst goes
        exact ⟨passed, .pass held _ slots.current⟩

theorem passSdu_nextSduIndex (tx : Transmitter) (rest : Nat) :
    (tx.passSdu rest).nextSduIndex = tx.nextSduIndex := by
  simp only [passSdu, freeInSduData]
  split
  · rfl
  · rfl

theorem fill_nextSduIndex (testNumLi fuel : Nat) (filling : Filling) :
    (fill testNumLi fuel filling).tx.nextSduIndex = filling.tx.nextSduIndex := by
  induction fuel generalizing filling with
  | zero => rfl
  | succ fuel ih =>
    cases block : (filling.tx.inputSdus filling.tx.currentSduIndex).memBlock with
    | none => rw [fill_free block]
    | some octets =>
      rw [fill_succ rfl (by rw [block]; rfl)]
      split
      · rfl
      · split
        · rw [ih, (liRound_fields ..).1, passSdu_nextSduIndex]
        · exact passSdu_nextSduIndex ..

end Placed

end OpenAir.RlcAm
