import OpenAir.RlcAm.Segmentation

/-! The SDUs that wait for segmentation stand in the ring of `input_sdus` from
`current_sdu_index` up to `next_sdu_index`, and the two counters of the entity
agree with them. -/

set_option autoImplicit false

namespace OpenAir.RlcAm

open List Function Transmitter

def slotFrom (current index : Nat) : Nat := (current + index) % rlcAmSduControlBufferSize

theorem slotFrom_lt (current index : Nat) : slotFrom current index < rlcAmSduControlBufferSize :=
  Nat.mod_lt _ (by decide)

theorem slotFrom_zero {current : Nat} (bounded : current < rlcAmSduControlBufferSize) :
    slotFrom current 0 = current :=
  Nat.mod_eq_of_lt bounded

theorem nextSlot_slotFrom (current index : Nat) :
    nextSlot (slotFrom current index) = slotFrom current (index + 1) := by
  simp [nextSlot, slotFrom, Nat.add_assoc]

theorem slotFrom_nextSlot (current index : Nat) :
    slotFrom (nextSlot current) index = slotFrom current (index + 1) := by
  simp only [nextSlot, slotFrom, Nat.mod_add_mod]
  congr 1
  omega

theorem slotFrom_injective {current left right : Nat} (leftLt : left < rlcAmSduControlBufferSize)
    (rightLt : right < rlcAmSduControlBufferSize)
    (same : slotFrom current left = slotFrom current right) : left = right := by
  simp only [slotFrom, rlcAmSduControlBufferSize] at *
  omega

structure TxSdu.Holds (sdu : TxSdu) (octets : List UInt8) : Prop where
  block : sdu.memBlock = some octets
  size : sdu.sduSize = octets.length
  parts : sdu.sduSegmentedSize + sdu.sduRemainingSize = octets.length
  left : 0 < sdu.sduRemainingSize

structure Transmitter.Queue (tx : Transmitter) (held : List TxSdu) : Prop where
  current : tx.currentSduIndex < rlcAmSduControlBufferSize
  next : tx.nextSduIndex = slotFrom tx.currentSduIndex held.length
  few : held.length < rlcAmSduControlBufferSize
  slots : ∀ index sdu, held[index]? = some sdu →
    tx.inputSdus (slotFrom tx.currentSduIndex index) = sdu
  free : ∀ index, held.length ≤ index → index < rlcAmSduControlBufferSize →
    (tx.inputSdus (slotFrom tx.currentSduIndex index)).memBlock = none
  each : ∀ sdu ∈ held, ∃ octets, sdu.Holds octets
  occupancy : tx.sduBufferOccupancy = (held.map TxSdu.sduRemainingSize).sum
  count : tx.nbSduNoSegmented = held.length

namespace Transmitter.Queue

variable {tx : Transmitter} {held : List TxSdu}

theorem init (config : TxConfiguration) : (init config).Queue [] where
  current := Nat.zero_lt_succ _
  next := rfl
  few := by decide
  slots := by simp
  free _ _ _ := rfl
  each := by simp
  occupancy := rfl
  count := rfl

variable {sdu : TxSdu} {rest : List TxSdu} {octets : List UInt8}

theorem head (queue : tx.Queue (sdu :: rest)) : tx.inputSdus tx.currentSduIndex = sdu := by
  have found := queue.slots 0 sdu rfl
  rwa [slotFrom_zero queue.current] at found

theorem current_free (queue : tx.Queue []) :
    (tx.inputSdus tx.currentSduIndex).memBlock = none := by
  have found := queue.free 0 (Nat.le_refl _) (by decide)
  rwa [slotFrom_zero queue.current] at found

theorem congr {other : Transmitter} (queue : tx.Queue held)
    (sdus : other.inputSdus = tx.inputSdus)
    (current : other.currentSduIndex = tx.currentSduIndex)
    (next : other.nextSduIndex = tx.nextSduIndex)
    (occupancy : other.sduBufferOccupancy = tx.sduBufferOccupancy)
    (count : other.nbSduNoSegmented = tx.nbSduNoSegmented) : other.Queue held where
  current := by rw [current]; exact queue.current
  next := by rw [next, current]; exact queue.next
  few := queue.few
  slots := by rw [sdus, current]; exact queue.slots
  free := by rw [sdus, current]; exact queue.free
  each := queue.each
  occupancy := by rw [occupancy]; exact queue.occupancy
  count := by rw [count]; exact queue.count

theorem replace {before after : List TxSdu} {changed : TxSdu} {occupancy : Int}
    (queue : tx.Queue (before ++ sdu :: after)) (holds : changed.Holds octets)
    (balance : occupancy + sdu.sduRemainingSize =
      tx.sduBufferOccupancy + changed.sduRemainingSize) :
    ({ tx.setSdu (slotFrom tx.currentSduIndex before.length) changed with
        sduBufferOccupancy := occupancy }).Queue (before ++ changed :: after) where
  current := queue.current
  next := by
    have next := queue.next
    simpa [setSdu] using next
  few := by
    have few := queue.few
    simpa using few
  slots := by
    intro index found isFound
    have few := queue.few
    have indexLt := (List.getElem?_eq_some_iff.mp isFound).1
    simp only [length_append, length_cons] at few indexLt
    by_cases same : index = before.length
    · subst same
      simp only [getElem?_append_right (Nat.le_refl _), Nat.sub_self,
        getElem?_cons_zero, Option.some.injEq] at isFound
      simp [setSdu, isFound]
    · have apart : slotFrom tx.currentSduIndex index ≠
          slotFrom tx.currentSduIndex before.length := fun equal =>
        same (slotFrom_injective (by omega) (by omega) equal)
      simp only [setSdu, update_of_ne apart]
      refine queue.slots index found ?_
      grind
  free := by
    intro index past below
    simp only [length_append, length_cons] at past
    have apart : slotFrom tx.currentSduIndex index ≠
        slotFrom tx.currentSduIndex before.length := fun equal => by
      have same := slotFrom_injective below (by omega) equal
      omega
    simp only [setSdu, update_of_ne apart]
    exact queue.free index (by simpa using past) below
  each := by
    intro found mem
    rcases mem_append.mp mem with mem | mem
    · exact queue.each found (mem_append_left _ mem)
    · rcases mem_cons.mp mem with rfl | mem
      · exact ⟨octets, holds⟩
      · exact queue.each found (mem_append_right _ (mem_cons_of_mem _ mem))
  occupancy := by
    have total := queue.occupancy
    simp only [map_append, map_cons, sum_append, sum_cons] at total ⊢
    omega
  count := by
    have count := queue.count
    simpa [setSdu] using count

theorem passSdu (queue : tx.Queue (sdu :: rest)) :
    (tx.passSdu sdu.sduRemainingSize).Queue rest := by
  obtain ⟨octets, holds⟩ := queue.each sdu (mem_cons_self ..)
  have held : (tx.inputSdus tx.currentSduIndex).memBlock.isSome := by
    rw [queue.head, holds.block]
    rfl
  have few := queue.few
  simp only [length_cons] at few
  simp only [Transmitter.passSdu, Transmitter.freeInSduData, held, if_true]
  -- Slot `index + 1` behind the old current slot is slot `index` behind the new one.
  have apart : ∀ index, index + 1 < rlcAmSduControlBufferSize →
      slotFrom tx.currentSduIndex (index + 1) ≠ tx.currentSduIndex := by
    intro index below equal
    have same := slotFrom_injective below (by decide)
      (equal.trans (slotFrom_zero queue.current).symm)
    omega
  constructor
  · exact Nat.mod_lt _ (by decide)
  · exact queue.next.trans (slotFrom_nextSlot _ _).symm
  · omega
  · intro index found isFound
    have indexLt : index < rest.length := (List.getElem?_eq_some_iff.mp isFound).1
    simp only [Transmitter.setSdu, slotFrom_nextSlot]
    rw [update_of_ne (apart index (by omega))]
    exact queue.slots (index + 1) found isFound
  · intro index past below
    simp only [Transmitter.setSdu, slotFrom_nextSlot]
    by_cases last : index + 1 < rlcAmSduControlBufferSize
    · rw [update_of_ne (apart index last)]
      exact queue.free (index + 1) (Nat.succ_le_succ past) last
    · -- All slots passed: this is the slot just freed.
      have whole : slotFrom tx.currentSduIndex (index + 1) = tx.currentSduIndex := by
        have bounded := queue.current
        simp only [slotFrom, rlcAmSduControlBufferSize] at *
        omega
      rw [whole, update_self]
  · exact fun found mem => queue.each found (mem_cons_of_mem _ mem)
  · have total := queue.occupancy
    simp only [map_cons, sum_cons, Transmitter.setSdu] at total ⊢
    omega
  · have count := queue.count
    simp only [length_cons, Transmitter.setSdu] at count ⊢
    omega

theorem room_of_accepts (queue : tx.Queue held) (accepts : tx.acceptsSdu) :
    held.length + 1 < rlcAmSduControlBufferSize := by
  have few := queue.few
  have bounded := queue.current
  have next := queue.next
  simp only [acceptsSdu, Bool.and_eq_true, decide_eq_true_eq] at accepts
  have apart := accepts.2
  rw [next, nextSlot_slotFrom] at apart
  simp only [slotFrom, rlcAmSduControlBufferSize] at *
  omega

def accepted (mui : Nat) (octets : List UInt8) : TxSdu :=
  { TxSdu.zeroed with
    memBlock := some octets
    mui := mui
    sduSize := octets.length % 2 ^ 16
    sduRemainingSize := octets.length % 2 ^ 16 }

theorem accepted_holds (mui : Nat) (some_octet : octets ≠ []) (short : octets.length < 2 ^ 16) :
    (accepted mui octets).Holds octets where
  block := rfl
  size := Nat.mod_eq_of_lt short
  parts := by simp only [accepted, TxSdu.zeroed, Nat.mod_eq_of_lt short, Nat.zero_add]
  left := by
    have positive := length_pos_of_ne_nil some_octet
    simpa only [accepted, Nat.mod_eq_of_lt short] using positive

theorem dataReq (queue : tx.Queue held) (mui : Nat) (some_octet : octets ≠ [])
    (short : octets.length < 2 ^ 16) (accepts : tx.acceptsSdu) :
    (tx.dataReq mui octets).Queue (held ++ [accepted mui octets]) := by
  have room := queue.room_of_accepts accepts
  have next := queue.next
  simp only [Transmitter.dataReq, accepts, if_true]
  constructor
  · exact queue.current
  · simp only [Transmitter.setSdu, length_append, length_singleton]
    rw [next, nextSlot_slotFrom]
  · simpa using room
  · intro index found isFound
    simp only [Transmitter.setSdu, next]
    by_cases old : index < held.length
    · rw [getElem?_append_left old] at isFound
      have apart : slotFrom tx.currentSduIndex index ≠
          slotFrom tx.currentSduIndex held.length := fun equal => by
        have same := slotFrom_injective (by omega) (by omega) equal
        omega
      rw [update_of_ne apart]
      exact queue.slots index found isFound
    · have indexLt := (List.getElem?_eq_some_iff.mp isFound).1
      simp only [length_append, length_singleton] at indexLt
      obtain rfl : index = held.length := by omega
      have new : accepted mui octets = found := by simpa using isFound
      rw [update_self]
      exact new
  · intro index past below
    simp only [length_append, length_singleton] at past
    have apart : slotFrom tx.currentSduIndex index ≠
        slotFrom tx.currentSduIndex held.length := fun equal => by
      have same := slotFrom_injective below (by omega) equal
      omega
    simp only [Transmitter.setSdu, next, update_of_ne apart]
    exact queue.free index (by omega) below
  · intro found mem
    rcases mem_append.mp mem with mem | mem
    · exact queue.each found mem
    · obtain rfl := mem_singleton.mp mem
      exact ⟨octets, accepted_holds mui some_octet short⟩
  · have total := queue.occupancy
    simp [Transmitter.setSdu, total, accepted]
  · have count := queue.count
    simp [Transmitter.setSdu, count]

end Transmitter.Queue

def Transmitter.waiting (tx : Transmitter) : List TxSdu :=
  ((List.range rlcAmSduControlBufferSize).map fun index =>
    tx.inputSdus (slotFrom tx.currentSduIndex index)).takeWhile fun sdu => sdu.memBlock.isSome

theorem Transmitter.Queue.waiting_eq {tx : Transmitter} {held : List TxSdu}
    (queue : tx.Queue held) : tx.waiting = held := by
  have few := queue.few
  obtain ⟨free, split⟩ := Nat.exists_eq_add_of_lt few
  have front : (List.range held.length).map
      (fun index => tx.inputSdus (slotFrom tx.currentSduIndex index)) = held := by
    refine ext_getElem (by simp) fun index _ below => ?_
    simpa using queue.slots index held[index] (getElem?_eq_getElem below)
  have stops := queue.free held.length (Nat.le_refl _) few
  rw [waiting, show rlcAmSduControlBufferSize = held.length + (free + 1) by omega,
    range_add, map_append, front, range_succ_eq_map]
  rw [takeWhile_append_of_pos]
  · simp [stops]
  · intro sdu mem
    obtain ⟨octets, holds⟩ := queue.each sdu mem
    simp [holds.block]

end OpenAir.RlcAm
