import OpenAir.RlcAm.LengthIndicators
import OpenAir.RlcAm.PduSizes
import OpenAir.RlcAm.WaitingQueue

/-! What `rlc_am_segment_10` does when the PDU ends within an SDU or at the end
of one: with `lis` the SDUs before that one, the loop that counts the SDUs and
the loop that fills the PDU make the same choices, and the PDU holds the octets
of those SDUs and nothing else. -/

set_option autoImplicit false

namespace OpenAir.RlcAm

open OpenAir.Base List Option Transmitter TxSdu Filling

def TxSdu.restOctets (sdu : TxSdu) : List UInt8 :=
  (sdu.memBlock.getD []).drop sdu.sduSegmentedSize

variable {sdu last : TxSdu} {octets : List UInt8} {length testNumLi fuel : Nat} {second : Bool}
  {after : List TxSdu} {start : Filling}

theorem TxSdu.Holds.restOctets_eq (holds : sdu.Holds octets) :
    sdu.restOctets = octets.drop sdu.sduSegmentedSize := by
  simp [restOctets, holds.block]

theorem TxSdu.Holds.length_restOctets (holds : sdu.Holds octets) :
    sdu.restOctets.length = sdu.sduRemainingSize := by
  rw [holds.restOctets_eq, length_drop, ← holds.parts]
  omega

theorem payloadOctets_eq {offset : Nat} (within : offset + length ≤ octets.length) :
    payloadOctets octets offset length = (octets.drop offset).take length := by
  refine ext_getElem (by simp [payloadOctets]; omega) fun index below _ => ?_
  simp only [payloadOctets, length_map, length_range] at below
  simp [payloadOctets, getD_eq_getElem?_getD,
    getElem?_eq_getElem (by omega : offset + index < octets.length)]

theorem TxSdu.Holds.payloadOctets_rest (holds : sdu.Holds octets)
    (within : length ≤ sdu.sduRemainingSize) :
    payloadOctets octets sdu.sduSegmentedSize length = sdu.restOctets.take length := by
  have parts := holds.parts
  rw [payloadOctets_eq (by omega), holds.restOctets_eq]

def TxSdu.marked (sn : Nat) (sdu : TxSdu) : TxSdu :=
  { sdu with pdusIndex := sdu.pdusIndex ++ [sn] }

theorem TxSdu.Holds.marked (holds : sdu.Holds octets) (sn : Nat) : (sdu.marked sn).Holds octets :=
  { holds with }

def restSizes (sdus : List TxSdu) : Nat := (sdus.map sduRemainingSize).sum

@[simp] theorem restSizes_nil : restSizes [] = 0 := rfl

@[simp] theorem restSizes_cons (sdu : TxSdu) (sdus : List TxSdu) :
    restSizes (sdu :: sdus) = sdu.sduRemainingSize + restSizes sdus := by
  simp [restSizes]

@[simp] theorem restSizes_marked (sn : Nat) (sdus : List TxSdu) :
    restSizes (sdus.map (marked sn)) = restSizes sdus := by
  simp [restSizes, Function.comp_def, marked]

def liLengthBefore (second : Bool) : Nat := if second then 2 else 1

theorem liLengthBefore_flip (second : Bool) :
    liLengthBefore second ^^^ 3 = liLengthBefore (!second) := by
  cases second <;> rfl

theorem liSpace_succ (second : Bool) (count : Nat) :
    liSpace second (count + 1) = liLengthBefore (!second) + liSpace (!second) count := by
  cases second with
  | false => exact liSpace_first count
  | true => exact liSpace_second count

structure EndsIn (second : Bool) (lis : List TxSdu) (last : TxSdu) (room : Nat) : Prop where
  begins : liSpace second lis.length + restSizes lis < room
  ends : room ≤ liSpace second lis.length + restSizes lis + last.sduRemainingSize

theorem EndsIn.step {lis : List TxSdu} {room : Nat}
    (ending : EndsIn second (sdu :: lis) last room) :
    ∃ liSize, liLengthBefore second ^^^ 3 = liSize ∧ liSize = liLengthBefore (!second) ∧
      sdu.sduRemainingSize + liSize < room ∧
      EndsIn (!second) lis last (room - (sdu.sduRemainingSize + liSize)) := by
  obtain ⟨begins, ends⟩ := ending
  simp only [length_cons, restSizes_cons] at begins ends
  cases second with
  | false =>
    rw [liSpace_first] at begins ends
    refine ⟨2, rfl, rfl, by omega, ?_⟩
    simp only [Bool.not_false]
    exact ⟨by omega, by omega⟩
  | true =>
    rw [liSpace_second] at begins ends
    refine ⟨1, rfl, rfl, by omega, ?_⟩
    simp only [Bool.not_true]
    exact ⟨by omega, by omega⟩

theorem Transmitter.passSdu_vtS (tx : Transmitter) (rest : Nat) :
    (tx.passSdu rest).vtS = tx.vtS := by
  simp only [passSdu, freeInSduData]
  split <;> rfl

theorem Transmitter.Queue.recordPdu {tx : Transmitter} {before : List TxSdu}
    (queue : tx.Queue (before ++ sdu :: after))
    (few : sdu.pdusIndex.length + 1 < rlcAmMaxSduFragments) :
    ∃ recorded, tx.recordPdu (slotFrom tx.currentSduIndex before.length) = some recorded ∧
      recorded.vtS = tx.vtS ∧ recorded.currentSduIndex = tx.currentSduIndex ∧
      recorded.Queue (before ++ sdu.marked tx.vtS :: after) := by
  have found := queue.slots before.length sdu (by simp)
  obtain ⟨octets, holds⟩ := queue.each sdu (by simp)
  refine ⟨tx.setSdu (slotFrom tx.currentSduIndex before.length) (sdu.marked tx.vtS), ?_, rfl, rfl,
    queue.replace (holds.marked tx.vtS) rfl⟩
  simp only [Transmitter.recordPdu, found, few, if_true]
  rfl

theorem testFill_endsIn (last : TxSdu) (after lis : List TxSdu) :
    ∀ (fuel : Nat) (packing : Packing) (before : List TxSdu) (second : Bool) (room : Nat),
      lis.length < fuel →
      packing.tx.Queue (before ++ (lis ++ last :: after)) →
      packing.sdusIndex.length = before.length →
      before.length + lis.length < rlcAmMaxSduInPdu →
      (∀ sdu ∈ lis ++ [last], sdu.pdusIndex.length + 1 < rlcAmMaxSduFragments) →
      EndsIn second lis last room →
      ∃ tx sdusIndex,
        testFill fuel packing (slotFrom packing.tx.currentSduIndex before.length) room
            (liLengthBefore second) =
          some ⟨tx, sdusIndex, packing.pduRemainingSize, packing.numLi + lis.length, 0, 0⟩ ∧
        tx.vtS = packing.tx.vtS ∧
        tx.Queue (before ++ (lis.map (marked packing.tx.vtS) ++
          last.marked packing.tx.vtS :: after)) := by
  induction lis with
  | nil =>
    intro fuel packing before second room enough queue _ _ fragments ending
    obtain ⟨fuel, rfl⟩ := Nat.exists_eq_add_of_lt enough
    obtain ⟨octets, holds⟩ := queue.each last (by simp)
    obtain ⟨tx, recorded, vtS, -, marked⟩ := queue.recordPdu (fragments last (by simp))
    have found := queue.slots before.length last (by simp)
    have stops : room ≤ last.sduRemainingSize := by
      have ends := ending.ends
      cases second <;> simpa [liSpace] using ends
    exact ⟨tx, packing.sdusIndex ++ [slotFrom packing.tx.currentSduIndex before.length],
      by simp [testFill, recorded, found, holds.block, stops], vtS, marked⟩
  | cons sdu lis ih =>
    intro fuel packing before second room enough queue indexes bounded fragments ending
    obtain ⟨fuel, rfl⟩ : ∃ fewer, fuel = fewer + 1 := ⟨fuel - 1, by omega⟩
    simp only [length_cons, Nat.add_lt_add_iff_right] at enough bounded
    obtain ⟨octets, holds⟩ := queue.each sdu (by simp)
    obtain ⟨tx, recorded, vtS, current, marked⟩ := queue.recordPdu (fragments sdu (by simp))
    have found := queue.slots before.length sdu (by simp)
    obtain ⟨liSize, flipped, next, fits, ending⟩ := ending.step
    have goes : ¬ packing.sdusIndex.length ≥ rlcAmMaxSduInPdu - 1 := by
      omega
    obtain ⟨last_tx, sdusIndex, filled, last_vtS, last_queue⟩ := ih fuel
      { packing with
        tx := tx
        sdusIndex := packing.sdusIndex ++ [slotFrom packing.tx.currentSduIndex before.length]
        numLi := packing.numLi + 1
        sizeToSubstract := liSize
        numLiToSubstract := 1 }
      (before ++ [sdu.marked packing.tx.vtS]) (!second) _ enough (by simpa using marked)
      (by simp [indexes]) (by simp only [length_append, length_singleton]; omega)
      (fun other mem => fragments other (mem_cons_of_mem _ mem)) ending
    refine ⟨last_tx, sdusIndex, ?_, last_vtS.trans vtS, ?_⟩
    · simp only [length_append, length_singleton, current] at filled
      have notStop : ¬ sdu.sduRemainingSize ≥ room := by omega
      have notExact : ¬ sdu.sduRemainingSize + liSize = room := by omega
      simp only [testFill, found, holds.block, isNone_some, Bool.false_eq_true, if_false,
        recorded, bind_some, notStop, flipped, notExact, fits, if_true, goes,
        nextSlot_slotFrom]
      rw [next] at filled ⊢
      rw [filled, length_cons, Nat.add_right_comm, Nat.add_assoc]
    · simpa [vtS] using last_queue

def cutFirst (taken : Nat) (last : TxSdu) (after : List TxSdu) : List TxSdu :=
  if taken = last.sduRemainingSize then after
  else
    { last with
      sduRemainingSize := last.sduRemainingSize - taken
      sduSegmentedSize := last.sduSegmentedSize + taken } :: after

def frontier (pos : Nat) (second : Bool) : Nat := if second then pos + 1 else pos

theorem frontier_lt_lisEnd (pos : Nat) (second : Bool) (count : Nat) :
    frontier pos second + 2 ≤ lisEnd pos second (count + 1) := by
  cases second with
  | false => exact (lisEnd_first pos count).symm ▸ le_lisEnd pos true count
  | true => exact (lisEnd_second pos count).symm ▸ le_lisEnd (pos + 3) false count

theorem le_frontier (pos : Nat) (second : Bool) : pos ≤ frontier pos second := by
  cases second <;> simp [frontier]

/-- What the loop that fills the PDU has done from `start` on, where `taken` is
the number of octets of `last` that get into the PDU. -/
structure Filled (second : Bool) (lis : List TxSdu) (last : TxSdu) (after : List TxSdu)
    (taken : Nat) (start final : Filling) : Prop where
  queue : final.tx.Queue (cutFirst taken last after)
  vtS : final.tx.vtS = start.tx.vtS
  full : final.pduRemainingSize = 0
  count : final.fillNumLi = start.fillNumLi + lis.length
  ending : final.lastByteIsLastOfSdu = decide (taken = last.sduRemainingSize)
  fields : LisAt final.memory start.eLi second (lis.map sduRemainingSize)
  content : load final.memory start.data (restSizes lis + taken) =
    (lis.map restOctets).flatten ++ last.restOctets.take taken
  settled : ∀ place, place < frontier start.eLi second → final.memory place = start.memory place
  nibble : second → (final.memory (start.eLi + 1)).toNat >>> 4 =
    (start.memory (start.eLi + 1)).toNat >>> 4
  kept : ∀ place, lisEnd start.eLi second lis.length ≤ place → place < start.data →
    final.memory place = start.memory place

theorem fill_last (queue : start.tx.Queue (last :: after))
    (ends : start.pduRemainingSize ≤ last.sduRemainingSize)
    (apart : lisEnd start.eLi second 0 ≤ start.data) :
    Filled second [] last after start.pduRemainingSize start (fill testNumLi (fuel + 1) start) ∧
      (fill testNumLi (fuel + 1) start).payloadSize =
        start.payloadSize + start.pduRemainingSize := by
  obtain ⟨octets, holds⟩ := queue.each last (mem_cons_self ..)
  have copied := holds.payloadOctets_rest ends
  have length : (last.restOctets.take start.pduRemainingSize).length = start.pduRemainingSize := by
    rw [length_take, holds.length_restOctets]
    omega
  have low := le_lisEnd start.eLi second 0
  -- Either way the octets are stored at the data position and nothing else is.
  have filled : ∀ final : Filling,
      final.memory = store start.memory start.data (last.restOctets.take start.pduRemainingSize) →
      final.tx.Queue (cutFirst start.pduRemainingSize last after) → final.tx.vtS = start.tx.vtS →
      final.pduRemainingSize = 0 → final.fillNumLi = start.fillNumLi →
      final.lastByteIsLastOfSdu = decide (start.pduRemainingSize = last.sduRemainingSize) →
      Filled second [] last after start.pduRemainingSize start final := by
    intro final memory queue vtS full count ending
    refine ⟨queue, vtS, full, count, ending, trivial, ?_, ?_, ?_, ?_⟩
    · have loaded :=
        load_store start.memory start.data (last.restOctets.take start.pduRemainingSize)
      rw [length] at loaded
      simpa [memory] using loaded
    · intro place below
      rw [memory, store_before]
      cases second <;> simp only [frontier, if_true, Bool.false_eq_true, if_false] at * <;> omega
    · intro isSecond
      subst isSecond
      simp only [if_true] at low
      rw [memory, store_before _ _ (by omega)]
    · intro place _ below
      rw [memory, store_before _ _ below]
  rw [fill_succ queue.head (isSome_of_eq_some holds.block), holds.block, getD_some]
  rcases Nat.lt_or_eq_of_le ends with part | whole
  · rw [if_pos part]
    refine ⟨filled _ ?_ ?_ rfl rfl rfl ?_, rfl⟩
    · simp only [copy, copied]
    · have parts := holds.parts
      rw [cutFirst, if_neg (Nat.ne_of_lt part)]
      have holdsRest : ({ last with
          sduRemainingSize := last.sduRemainingSize - start.pduRemainingSize
          sduSegmentedSize := last.sduSegmentedSize + start.pduRemainingSize } : TxSdu).Holds
          octets :=
        ⟨holds.block, holds.size, by simp only; omega, by simp only; omega⟩
      have replaced := @Queue.replace start.tx last octets [] after _
        (start.tx.sduBufferOccupancy - start.pduRemainingSize) queue holdsRest
        (by simp only; omega)
      rw [length_nil, slotFrom_zero queue.current] at replaced
      show (start.tx.cutSdu start.pduRemainingSize).Queue _
      rw [cutSdu, queue.head]
      exact replaced
    · exact (decide_eq_false (Nat.ne_of_lt part)).symm
  · rw [if_neg (by omega), if_neg (by omega)]
    refine ⟨filled _ ?_ ?_ ?_ (by simp only; split <;> omega) rfl ?_, by rw [whole]; rfl⟩
    · simp only [copy, freeSdu, ← whole, copied]
    · rw [cutFirst, if_pos whole]
      exact queue.passSdu
    · exact start.tx.passSdu_vtS _
    · exact (decide_eq_true whole).symm

theorem fill_liRound {rest : List TxSdu} (queue : start.tx.Queue (sdu :: rest))
    (fits : sdu.sduRemainingSize + (start.liLength ^^^ 3) < start.pduRemainingSize)
    (few : start.fillNumLi + 1 < rlcAmMaxSduInPdu) :
    fill testNumLi (fuel + 1) start = fill testNumLi fuel (start.liRound testNumLi sdu) := by
  obtain ⟨octets, holds⟩ := queue.each sdu (mem_cons_self ..)
  rw [fill_succ queue.head (isSome_of_eq_some holds.block), if_neg (by omega),
    if_pos ⟨fits, by omega⟩]

section LiRound

variable {start final : Filling} {testNumLi taken : Nat} {sdu last : TxSdu}
  {lis after : List TxSdu} {octets : List UInt8}

theorem load_copied (holds : sdu.Holds octets) (memory : Nat → UInt8) (pos : Nat) :
    load (store memory pos (payloadOctets octets sdu.sduSegmentedSize sdu.sduRemainingSize))
      pos sdu.sduRemainingSize = sdu.restOctets := by
  have length := holds.length_restOctets
  have loaded := load_store memory pos sdu.restOctets
  rw [length] at loaded
  rwa [holds.payloadOctets_rest (Nat.le_refl _), take_of_length_le (Nat.le_of_eq length)]

theorem more_iff (count : start.fillNumLi + (lis.length + 1) = testNumLi) :
    decide (start.fillNumLi + 1 ≠ testNumLi) = true ↔ lis.map sduRemainingSize ≠ [] := by
  rw [← count]
  cases lis <;> simp

theorem content_cons
    (copied : load final.memory start.data sdu.sduRemainingSize = sdu.restOctets)
    (content : load final.memory (start.data + sdu.sduRemainingSize) (restSizes lis + taken) =
      (lis.map restOctets).flatten ++ last.restOctets.take taken) :
    load final.memory start.data (restSizes (sdu :: lis) + taken) =
      ((sdu :: lis).map restOctets).flatten ++ last.restOctets.take taken := by
  rw [restSizes_cons, Nat.add_assoc, load_add, copied, content]
  simp

def fieldOctets (second more : Bool) (li : Nat) (begun : UInt8) : List UInt8 :=
  if second then
    [UInt8.ofNat (begun.toNat ||| (if more then 0x08 else 0) ||| li >>> 8), UInt8.ofNat li]
  else
    [UInt8.ofNat ((if more then 0x80 else 0) ||| li >>> 4), UInt8.ofNat (li <<< 4)]

theorem length_fieldOctets (second more : Bool) (li : Nat) (begun : UInt8) :
    (fieldOctets second more li begun).length = 2 := by
  cases second <;> rfl

theorem liRound_eq {second : Bool} (holds : sdu.Holds octets)
    (flips : start.liLength = liLengthBefore second) (apart : start.eLi + 1 < start.data) :
    start.liRound testNumLi sdu =
      { start with
        tx := start.tx.passSdu sdu.sduRemainingSize
        memory := store
          (store start.memory start.data
            (payloadOctets octets sdu.sduSegmentedSize sdu.sduRemainingSize))
          (frontier start.eLi second)
          (fieldOctets second (decide (start.fillNumLi + 1 ≠ testNumLi)) sdu.sduRemainingSize
            (start.memory (start.eLi + 1)))
        data := start.data + sdu.sduRemainingSize
        eLi := if second then start.eLi + 3 else start.eLi
        liLength := liLengthBefore (!second)
        fillNumLi := start.fillNumLi + 1
        pduRemainingSize :=
          start.pduRemainingSize - (sdu.sduRemainingSize + liLengthBefore (!second))
        payloadSize := start.payloadSize + sdu.sduRemainingSize } := by
  cases second with
  | false =>
    have liSize : start.liLength ^^^ 3 = 2 := by rw [flips]; rfl
    simp only [liRound, writeLi, copy, freeSdu, liSize, if_true, holds.block, getD_some]
    rfl
  | true =>
    have liSize : start.liLength ^^^ 3 = 1 := by rw [flips]; rfl
    simp only [liRound, writeLi, copy, freeSdu, liSize,
      holds.block, getD_some, store_before _ _ apart]
    rfl

theorem Filled.cons {second : Bool} (holds : sdu.Holds octets)
    (small : sdu.sduRemainingSize < 2048) (flips : start.liLength = liLengthBefore second)
    (count : start.fillNumLi + (lis.length + 1) = testNumLi)
    (apart : lisEnd start.eLi second (lis.length + 1) ≤ start.data)
    (clear : second → (start.memory (start.eLi + 1)).toNat &&& 0x0F = 0)
    (rest : Filled (!second) lis last after taken (start.liRound testNumLi sdu) final) :
    Filled second (sdu :: lis) last after taken start final := by
  have more := @more_iff start testNumLi lis count
  have ends := frontier_lt_lisEnd start.eLi second lis.length
  have above := le_frontier start.eLi second
  have low : start.eLi + 1 < start.data := by omega
  obtain ⟨queue, vtS, full, number, ending, fields, content, settled, nibble, kept⟩ := rest
  rw [liRound_eq holds flips low] at vtS number fields content settled nibble kept
  simp only at vtS number fields content settled nibble kept
  -- The round keeps what lies before its field and between the fields and the data.
  have before : ∀ place, place < frontier start.eLi second →
      final.memory place = start.memory place := by
    intro place below
    rw [settled place (by cases second <;> simp [frontier] at * <;> omega),
      store_before _ _ below, store_before _ _ (by omega)]
  have between : ∀ place, lisEnd start.eLi second (lis.length + 1) ≤ place →
      place < start.data + sdu.sduRemainingSize → final.memory place =
        store start.memory start.data
          (payloadOctets octets sdu.sduSegmentedSize sdu.sduRemainingSize) place := by
    intro place above below
    rw [kept place _ below, store_after]
    · rw [length_fieldOctets]
      omega
    · cases second with
      | false => simpa [lisEnd_first] using above
      | true => simpa [lisEnd_second] using above
  have copied : load final.memory start.data sdu.sduRemainingSize = sdu.restOctets := by
    rw [← load_copied holds start.memory start.data]
    exact load_congr fun place above below => between place (by omega) below
  have field : LisAt final.memory start.eLi second
        (sdu.sduRemainingSize :: lis.map sduRemainingSize) ∧
      (second → (final.memory (start.eLi + 1)).toNat >>> 4 =
        (start.memory (start.eLi + 1)).toNat >>> 4) := by
    cases second with
    | false =>
      simp only [frontier, Bool.not_false, if_true, Bool.false_eq_true, if_false, fieldOctets]
        at settled nibble fields
      have b1 := settled start.eLi (Nat.lt_succ_self _)
      have b2 := nibble trivial
      rw [store_first] at b1
      rw [store_second] at b2
      exact ⟨⟨liAt_first small more b1 b2, fields⟩, fun absurd => by cases absurd⟩
    | true =>
      simp only [frontier, Bool.not_true, if_true, Bool.false_eq_true, if_false, fieldOctets]
        at settled fields
      have b2 := settled (start.eLi + 1) (by omega)
      have b3 := settled (start.eLi + 2) (by omega)
      rw [store_first] at b2
      rw [store_second] at b3
      obtain ⟨value, high⟩ := liAt_second small more (clear rfl) b2 b3
      exact ⟨⟨value, fields⟩, fun _ => high⟩
  refine ⟨queue, vtS.trans (start.tx.passSdu_vtS _), full, ?_, ending, field.1,
    content_cons copied content, before, field.2, ?_⟩
  · rw [number, length_cons]
    omega
  · intro place above below
    rw [between place above (by omega), store_before _ _ below]

end LiRound

theorem fill_endsIn (last : TxSdu) (after lis : List TxSdu) :
    ∀ (fuel : Nat) (start : Filling) (second : Bool) (testNumLi : Nat),
      lis.length < fuel →
      start.tx.Queue (lis ++ last :: after) →
      (∀ sdu ∈ lis, sdu.sduRemainingSize < 2048) →
      start.liLength = liLengthBefore second →
      start.fillNumLi + lis.length = testNumLi → testNumLi < rlcAmMaxSduInPdu →
      EndsIn second lis last start.pduRemainingSize →
      lisEnd start.eLi second lis.length ≤ start.data →
      (second → (start.memory (start.eLi + 1)).toNat &&& 0x0F = 0) →
      Filled second lis last after
          (start.pduRemainingSize - (liSpace second lis.length + restSizes lis)) start
          (fill testNumLi fuel start) ∧
        (fill testNumLi fuel start).payloadSize + liSpace second lis.length =
          start.payloadSize + start.pduRemainingSize := by
  induction lis with
  | nil =>
    intro fuel start second testNumLi enough queue _ _ _ _ ending apart _
    obtain ⟨fuel, rfl⟩ := Nat.exists_eq_add_of_lt enough
    have nothing : liSpace second 0 = 0 := by cases second <;> rfl
    have ends := ending.ends
    simp only [length_nil, nothing, restSizes_nil, Nat.zero_add] at ends
    simp only [length_nil, nothing, restSizes_nil, Nat.add_zero, Nat.sub_zero, Nat.zero_add]
    exact fill_last queue ends apart
  | cons sdu lis ih =>
    intro fuel start second testNumLi enough queue small flips count few ending apart clear
    obtain ⟨fuel, rfl⟩ : ∃ fewer, fuel = fewer + 1 := ⟨fuel - 1, by omega⟩
    simp only [length_cons, Nat.add_lt_add_iff_right] at enough count apart
    obtain ⟨octets, holds⟩ := queue.each sdu (by simp)
    obtain ⟨liSize, flipped, next, fits, ending⟩ := ending.step
    rw [← flips] at flipped
    rw [fill_liRound queue (by rw [flipped]; exact fits) (by omega)]
    have ends := frontier_lt_lisEnd start.eLi second lis.length
    have above := le_frontier start.eLi second
    have low : start.eLi + 1 < start.data := by omega
    have round := @liRound_eq start testNumLi sdu octets second holds flips low
    have fieldsEnd : lisEnd (start.liRound testNumLi sdu).eLi (!second) lis.length =
        lisEnd start.eLi second (lis.length + 1) := by
      rw [round]
      cases second with
      | false => exact (lisEnd_first _ _).symm
      | true => exact (lisEnd_second _ _).symm
    have fieldsSpace : liSpace second (lis.length + 1) = liSize + liSpace (!second) lis.length := by
      rw [next, liSpace_succ]
    have cleared : (!second) →
        ((start.liRound testNumLi sdu).memory
          ((start.liRound testNumLi sdu).eLi + 1)).toNat &&& 0x0F = 0 := by
      intro first
      rw [Bool.not_eq_true'] at first
      subst first
      rw [round]
      simp only [frontier, fieldOctets, Bool.false_eq_true, if_false, store_second]
      exact first_low_nibble _
    obtain ⟨rest, size⟩ := ih fuel (start.liRound testNumLi sdu) (!second) testNumLi enough
      (by rw [round]; exact queue.passSdu)
      (fun other mem => small other (mem_cons_of_mem _ mem))
      (by rw [round]) (by rw [round]; simp only; omega) few
      (by rw [round, ← next]; exact ending)
      (by rw [fieldsEnd, round]; simp only; omega) cleared
    have taken : (start.liRound testNumLi sdu).pduRemainingSize -
        (liSpace (!second) lis.length + restSizes lis) =
        start.pduRemainingSize - (liSpace second (lis.length + 1) + restSizes (sdu :: lis)) := by
      rw [round, restSizes_cons]
      simp only
      omega
    rw [taken] at rest
    have payload : (start.liRound testNumLi sdu).payloadSize =
        start.payloadSize + sdu.sduRemainingSize := by rw [round]
    have room : (start.liRound testNumLi sdu).pduRemainingSize =
        start.pduRemainingSize - (sdu.sduRemainingSize + liSize) := by rw [round, next]
    refine ⟨Filled.cons holds (small sdu (by simp)) flips count apart clear rest, ?_⟩
    rw [length_cons, fieldsSpace]
    omega

end OpenAir.RlcAm
