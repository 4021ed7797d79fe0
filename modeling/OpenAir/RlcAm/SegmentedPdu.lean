import Mathlib.Tactic.MkIffOfInductiveProp
import OpenAir.RlcAm.SegmentationProperties

/-! The PDU that `rlc_am_segment_10` sends for such a grant, as
`rlc_am_get_data_pdu_infos` decodes it: its header tells the pieces of SDUs
apart, and its payload is those pieces. -/

set_option autoImplicit false

namespace OpenAir.RlcAm

open OpenAir.Base List Function Transmitter TxSdu

/-- A decoded PDU that carries whole pieces, each ended by a length indicator,
and a last piece. -/
structure Carries (info : PduInfo) (starts ends : Bool) (pieces : List (List UInt8))
    (last : List UInt8) : Prop where
  starts : decide (info.fi &&& 2 = 0) = starts
  ends : decide (info.fi &&& 1 = 0) = ends
  extended : info.e = !pieces.isEmpty
  liList : info.liList = pieces.map length
  payload : info.payload = pieces.flatten ++ last
  payloadSize : info.payloadSize = (pieces.flatten ++ last).length
  hiddenSize : info.hiddenSize = last.length

def setPoll (polls : Bool) (octet : UInt8) : UInt8 :=
  if polls then octet ||| 0x20 else octet &&& 0xDF

private theorem header_fields : ∀ fi < 4, ∀ extended : Bool, ∀ top < 4, ∀ first again : Bool,
    let b1 := (setPoll again (setPoll first
      (UInt8.ofNat (0 ||| fi <<< 3 ||| (if extended then 0x04 else 0) ||| 0x80 ||| top)))).toNat
    b1 >>> 7 ≠ 0 ∧ (b1 >>> 6) &&& 0x01 ≠ 1 ∧ decide ((b1 >>> 2) &&& 0x01 = 1) = extended ∧
      (b1 >>> 3) &&& 0x03 = fi ∧ b1 &&& 0x03 = top := by
  decide +kernel

theorem pduPolling_octets (tx : Transmitter) (now : Nat) (octets : List UInt8) (payloadSize : Int) :
    ∃ polls, (tx.pduPolling now octets payloadSize).2 =
      octets.set 0 (setPoll polls (octets.headD 0)) := by
  simp only [pduPolling]
  split
  · exact ⟨true, rfl⟩
  · exact ⟨false, rfl⟩

theorem pduPolling_frame (tx : Transmitter) (now : Nat) (octets : List UInt8) (payloadSize : Int) :
    let polled := (tx.pduPolling now octets payloadSize).1
    polled.inputSdus = tx.inputSdus ∧ polled.currentSduIndex = tx.currentSduIndex ∧
      polled.nextSduIndex = tx.nextSduIndex ∧ polled.sduBufferOccupancy = tx.sduBufferOccupancy ∧
      polled.nbSduNoSegmented = tx.nbSduNoSegmented ∧ polled.vtS = tx.vtS ∧
      polled.pduRetransBuffer = tx.pduRetransBuffer := by
  simp only [pduPolling]
  split <;> exact ⟨rfl, rfl, rfl, rfl, rfl, rfl, rfl⟩

variable {tx : Transmitter} {now sn size requested : Nat} {firstIsFirst : Bool}
  {sdusIndex : List Nat} {filling : Filling} {held lis rest after : List TxSdu}
  {pieces : List (List UInt8)} {last : List UInt8} {block : Nat → UInt8}

theorem polled_load (memory : Nat → UInt8) (nonempty : 0 < size) (polls : Bool) :
    (load memory 0 size).set 0 (setPoll polls ((load memory 0 size).headD 0)) =
      load (store memory 0 [setPoll polls (memory 0)]) 0 size := by
  obtain ⟨size, rfl⟩ : ∃ fewer, size = fewer + 1 := ⟨size - 1, by omega⟩
  rw [← set_load]
  simp [load_succ]

def firstOctet (fi : Nat) (extended : Bool) (sn : Nat) : UInt8 :=
  UInt8.ofNat (0 ||| fi <<< 3 ||| (if extended then 0x04 else 0) ||| 0x80 ||| sn >>> 8)

theorem getDataPduInfos_load {memory : Nat → UInt8} {fi : Nat} {first again : Bool} (fi_lt : fi < 4)
    (sn_lt : sn < rlcAmSnModulo)
    (b1 : memory 0 = setPoll again (setPoll first (firstOctet fi (!pieces.isEmpty) sn)))
    (b2 : memory 1 = UInt8.ofNat sn) (fields : LisAt memory 2 false (pieces.map length))
    (few : pieces.length < rlcAmMaxSduInPdu)
    (content : load memory (2 + liSpace false pieces.length)
      (pieces.flatten ++ last).length = pieces.flatten ++ last)
    (sized : size = 2 + liSpace false pieces.length + (pieces.flatten ++ last).length)
    (short : size < rlcSduMaxSize) :
    ∃ info, getDataPduInfos (load memory 0 size) = some info ∧ info.sn = sn ∧
      info.headerSize = 2 + liSpace false pieces.length ∧
      Carries info (decide (fi &&& 2 = 0)) (decide (fi &&& 1 = 0)) pieces last := by
  simp only [rlcAmSnModulo, rlcSduMaxSize] at sn_lt short
  have top : sn >>> 8 < 4 := by
    omega
  have total : (pieces.map length).sum = pieces.flatten.length := by
    rw [length_flatten]
  simp only [length_append] at content sized
  have left : (size : Int) - (2 + liSpace false pieces.length : Nat) =
      (pieces.flatten.length + last.length : Nat) := by omega
  have payload : (load memory 0 size).drop (2 + liSpace false pieces.length) =
      pieces.flatten ++ last := by
    rw [drop_load memory 0 (by omega), Nat.zero_add, sized, Nat.add_sub_cancel_left, content]
  have hidden : (if ((pieces.flatten.length + last.length : Nat) : Int) >
      (pieces.flatten.length : Int) then
        asInt16 ((pieces.flatten.length + last.length : Nat) - pieces.flatten.length) else 0) =
      last.length := by
    rw [show ((pieces.flatten.length + last.length : Nat) : Int) - pieces.flatten.length =
      last.length by omega, asInt16_natCast (by omega)]
    omega
  obtain ⟨isData, notSegment, extended, framing, high⟩ :=
    header_fields fi fi_lt (!pieces.isEmpty) (sn >>> 8) top first again
  rw [← firstOctet, ← b1] at isData notSegment extended framing high
  have o1 := octetAt_load memory (by omega : 0 < size)
  have o2 := octetAt_load memory (by omega : 1 < size)
  have lis : (if (!pieces.isEmpty) = true then
        readLis (load memory 0 size) rlcAmMaxSduInPdu 2 false else some ([], 0)) =
      some (pieces.map length, liSpace false pieces.length) := by
    cases pieces with
    | nil => rfl
    | cons piece pieces =>
      rw [readLis_load _ _ _ _ (by simp) (by simpa using Nat.le_of_lt few) fields]
      · simp
      · simp only [length_map, lisEnd, Bool.false_eq_true, if_false]
        omega
  have small : size < 32768 ∧ pieces.flatten.length < 32768 ∧
      pieces.flatten.length + last.length < 32768 := by omega
  have size16 := asInt16_natCast small.1
  have sum16 := asInt16_natCast small.2.1
  have payload16 := asInt16_natCast small.2.2
  have number : (memory 1).toNat + ((sn >>> 8) <<< 8) = sn := by
    rw [b2, UInt8.toNat_ofNat']
    omega
  simp only [getDataPduInfos, o1, o2, isData, if_false, decide_eq_false notSegment,
    Bool.false_eq_true, extended, lis, Option.map_some, length_load, size16, total, sum16, left,
    payload16, hidden, payload, framing, high, number]
  exact ⟨_, rfl, rfl, rfl, rfl, rfl, rfl, rfl, rfl, by simp only [length_append], rfl⟩

theorem setPoll_setPoll (polls : Bool) (octet : UInt8) :
    setPoll polls (setPoll polls octet) = setPoll polls octet := by
  cases polls <;> simp [setPoll, UInt8.or_assoc, UInt8.and_assoc]

theorem retransmitGetCopy_held {octets : List UInt8}
    (block : (tx.pduRetransBuffer sn).memBlock = some octets) (queue : tx.Queue held) :
    ∃ next polls, tx.retransmitGetCopy now sn =
        (next, some (octets.set 0 (setPoll polls (octets.headD 0)))) ∧
      next.Queue held ∧ next.vtS = tx.vtS ∧
      next.pduRetransBuffer sn = { tx.pduRetransBuffer sn with retransmit := false } := by
  let cleared := tx.setPdu sn { tx.pduRetransBuffer sn with retransmit := false }
  obtain ⟨polls, polled⟩ :=
    pduPolling_octets cleared now octets (tx.pduRetransBuffer sn).payloadSize
  obtain ⟨sdus, current, next, occupancy, count, vtS, entries⟩ :=
    pduPolling_frame cleared now octets (tx.pduRetransBuffer sn).payloadSize
  have entry : cleared.pduRetransBuffer sn = { tx.pduRetransBuffer sn with retransmit := false } :=
    update_self ..
  refine ⟨_, polls, ?_, queue.congr sdus current next occupancy count, vtS,
    (congrFun entries sn).trans entry⟩
  rw [← polled]
  simp only [retransmitGetCopy]
  split
  next absent => rw [block] at absent; cases absent
  next found present =>
    obtain rfl : octets = found := Option.some.inj (block.symm.trans present)
    rfl

theorem finishPdu_sends {payload : Nat} (queue : filling.tx.Queue held) (some_octet : 0 < size)
    (full : filling.pduRemainingSize = 0) (zero : filling.memory 0 = 0)
    (short : size < rlcSduMaxSize) :
    let fi := (if firstIsFirst then 0 else 2) + (if filling.lastByteIsLastOfSdu then 0 else 1)
    ∃ next first again, tx.finishPdu now size payload firstIsFirst sdusIndex filling =
        some (next, some (load (store filling.memory 0
          [setPoll again (setPoll first (firstOctet fi (decide (filling.fillNumLi > 0)) tx.vtS)),
            UInt8.ofNat tx.vtS]) 0 size)) ∧
      next.Queue held ∧ next.vtS = nextSn tx.vtS ∧
      next.pduRetransBuffer tx.vtS =
        { TxPdu.zeroed with
          memBlock := some (load (store filling.memory 0
            [setPoll first (firstOctet fi (decide (filling.fillNumLi > 0)) tx.vtS),
              UInt8.ofNat tx.vtS]) 0 size)
          payload := payload
          sdusIndex := sdusIndex
          headerAndPayloadSize := size
          payloadSize := filling.payloadSize
          retxCount := -1 } := by
  intro fi
  let memory := store filling.memory 0
    [firstOctet fi (decide (filling.fillNumLi > 0)) tx.vtS, UInt8.ofNat tx.vtS]
  let sending := { filling.tx with vtS := nextSn tx.vtS }
  obtain ⟨first, polled⟩ :=
    pduPolling_octets sending now (load memory 0 size) filling.payloadSize
  obtain ⟨sdus, current, next, occupancy, count, vtS, -⟩ :=
    pduPolling_frame sending now (load memory 0 size) filling.payloadSize
  rw [polled_load memory some_octet] at polled
  let entry : TxPdu :=
    { TxPdu.zeroed with
      memBlock := some (sending.pduPolling now (load memory 0 size) filling.payloadSize).2
      payload := payload
      sdusIndex := sdusIndex
      headerAndPayloadSize := size
      payloadSize := filling.payloadSize
      retxCount := -1 }
  let stored :=
    (sending.pduPolling now (load memory 0 size) filling.payloadSize).1.setPdu tx.vtS entry
  obtain ⟨sent, again, copied, queue, sent_vtS, kept⟩ := @retransmitGetCopy_held
    { stored with
      retransNumPdus := stored.retransNumPdus + 1
      retransNumBytes := stored.retransNumBytes + size } now tx.vtS held
    (load (store memory 0 [setPoll first (memory 0)]) 0 size)
    (by simp [stored, entry, setPdu, polled])
    (queue.congr sdus current next occupancy count)
  -- The poll bit is written to the first octet that is in the memory by then.
  have rewritten : ∀ octet, store memory 0 [octet] =
      store filling.memory 0 [octet, UInt8.ofNat tx.vtS] := by
    intro octet
    funext place
    cases place with
    | zero => simp [memory]
    | succ place => simp [memory, store]
  have twice :
      ∀ octet other, store (store memory 0 [octet]) 0 [other] = store memory 0 [other] := by
    intro octet other
    funext place
    cases place with
    | zero => simp
    | succ place => simp [store]
  have begun : memory 0 = firstOctet fi (decide (filling.fillNumLi > 0)) tx.vtS := by simp [memory]
  rw [polled_load _ some_octet, twice, rewritten, store_first, begun] at copied
  refine ⟨sent, first, again, ?_, queue, sent_vtS.trans vtS, ?_⟩
  case refine_2 =>
    rw [kept]
    simp only [stored, setPdu, update_self, entry, polled, rewritten, begun]
    rfl
  simp only [finishPdu, full, Nat.sub_zero, short, if_true, zero]
  rw [← copied]
  simp [stored, entry, sending, memory, firstOctet, fi]

private theorem framing_bits : ∀ starts ends : Bool,
    let fi := (if starts then 0 else 2) + (if ends then 0 else 1)
    fi < 4 ∧ decide (fi &&& 2 = 0) = starts ∧ decide (fi &&& 1 = 0) = ends := by
  decide

/-- A PDU that is kept decodes to what its entry says of it, with an SDU behind
the last length indicator and perhaps octets left over behind that. -/
structure TxPdu.Decodes (pdu : TxPdu) (octets : List UInt8) (info : PduInfo) : Prop where
  block : pdu.memBlock = some octets
  decoded : getDataPduInfos octets = some info
  short : octets.length < rlcSduMaxSize
  payload : pdu.payload = info.headerSize
  payloadSize : pdu.payloadSize ≤ info.payloadSize
  positive : ∀ li ∈ info.liList, 0 < li
  hidden : info.liList.sum < pdu.payloadSize

structure Filling.Ready (filling : Filling) (held : List TxSdu) (pieces : List (List UInt8))
    (last : List UInt8) : Prop where
  queue : filling.tx.Queue held
  full : filling.pduRemainingSize = 0
  zero : filling.memory 0 = 0
  count : filling.fillNumLi = pieces.length
  few : pieces.length < rlcAmMaxSduInPdu
  fields : LisAt filling.memory rlcAmHeaderMinSize false (pieces.map length)
  nonempty : last ≠ []
  content : load filling.memory (rlcAmHeaderMinSize + liSpace false pieces.length)
    (pieces.flatten ++ last).length = pieces.flatten ++ last
  payloadSize : filling.payloadSize = (pieces.flatten ++ last).length

theorem finishPdu_carries (ready : filling.Ready held pieces last) (sn_lt : tx.vtS < rlcAmSnModulo)
    (each : ∀ piece ∈ pieces, piece ≠ [])
    (sized : size = rlcAmHeaderMinSize + liSpace false pieces.length +
      (pieces.flatten ++ last).length) (short : size < rlcSduMaxSize) :
    ∃ next octets info, tx.finishPdu now size (rlcAmHeaderMinSize + liSpace false pieces.length)
        firstIsFirst sdusIndex filling = some (next, some octets) ∧
      next.Queue held ∧ next.vtS = nextSn tx.vtS ∧
      (getDataPduInfos octets = some info ∧ info.sn = tx.vtS ∧
        Carries info firstIsFirst filling.lastByteIsLastOfSdu pieces last) ∧
      ∃ kept whole, (next.pduRetransBuffer tx.vtS).Decodes kept whole ∧ whole.sn = tx.vtS ∧
        Carries whole firstIsFirst filling.lastByteIsLastOfSdu pieces last := by
  obtain ⟨queue, full, zero, count, few, fields, some_octet, content, payloadSize⟩ := ready
  simp only [rlcAmHeaderMinSize] at fields content sized ⊢
  obtain ⟨next, first, again, sent, next_queue, next_vtS, entry⟩ := @finishPdu_sends tx now size
    firstIsFirst sdusIndex filling held (2 + liSpace false pieces.length) queue (by omega) full zero
    short
  have extended : decide (filling.fillNumLi > 0) = !pieces.isEmpty := by
    rw [count]
    cases pieces <;> simp
  rw [extended] at sent entry
  obtain ⟨fi_lt, starts, ends⟩ := framing_bits firstIsFirst filling.lastByteIsLastOfSdu
  generalize (if firstIsFirst = true then 0 else 2) +
    (if filling.lastByteIsLastOfSdu = true then 0 else 1) = fi at sent entry fi_lt starts ends
  have decodes : ∀ first again : Bool, ∃ info,
      getDataPduInfos (load (store filling.memory 0
        [setPoll again (setPoll first (firstOctet fi (!pieces.isEmpty) tx.vtS)),
          UInt8.ofNat tx.vtS]) 0 size) = some info ∧
      info.sn = tx.vtS ∧ info.headerSize = 2 + liSpace false pieces.length ∧
      Carries info firstIsFirst filling.lastByteIsLastOfSdu pieces last := by
    intro first again
    rw [← starts, ← ends]
    exact getDataPduInfos_load fi_lt sn_lt (store_first filling.memory 0 _ _)
      (store_second filling.memory 0 _ _ [])
      (fields.congr fun place above => store_after filling.memory _ above) few
      (by
        rw [load_store_after]
        · exact content
        · exact Nat.le_add_right _ _)
      sized short
  obtain ⟨info, decoded, number, -, carries⟩ := decodes first again
  obtain ⟨whole, keptDecoded, keptNumber, header, keptCarries⟩ := decodes first first
  rw [setPoll_setPoll] at keptDecoded
  have some_last := length_pos_of_ne_nil some_octet
  have total : (whole.liList.sum : Int) = pieces.flatten.length := by
    rw [keptCarries.liList, length_flatten]
  have keeps : ∃ kept, (next.pduRetransBuffer tx.vtS).Decodes kept whole := by
    rw [entry]
    refine ⟨_, rfl, keptDecoded, by rw [length_load]; exact short, header.symm, ?_, ?_, ?_⟩
    · exact Int.le_of_eq (by rw [keptCarries.payloadSize, payloadSize])
    · intro li mem
      rw [keptCarries.liList] at mem
      obtain ⟨piece, isPiece, rfl⟩ := mem_map.mp mem
      exact length_pos_of_ne_nil (each piece isPiece)
    · simp only [total, payloadSize, length_append]
      omega
  obtain ⟨kept, keeps⟩ := keeps
  exact ⟨next, _, info, sent, next_queue, next_vtS, ⟨decoded, number, carries⟩, kept, whole, keeps,
    keptNumber, keptCarries⟩

/-- The conditions under which a PDU of `size` octets ends within `last` or with
its last octet, and none of the limits of the header is met. -/
@[mk_iff]
structure CleanPdu (size : Nat) (lis : List TxSdu) (last : TxSdu) : Prop where
  short : size < rlcSduMaxSize
  few : lis.length < rlcAmMaxSduInPdu
  small : ∀ sdu ∈ lis, sdu.sduRemainingSize < 2048
  fragments : ∀ sdu ∈ lis ++ [last], sdu.pdusIndex.length + 1 < rlcAmMaxSduFragments
  begins : rlcAmHeaderMinSize + liSpace false lis.length + restSizes lis < size
  ends : size ≤ rlcAmHeaderMinSize + liSpace false lis.length + restSizes lis +
    last.sduRemainingSize

def CleanPdu.taken (size : Nat) (lis : List TxSdu) : Nat :=
  size - (rlcAmHeaderMinSize + liSpace false lis.length + restSizes lis)

theorem flatten_restOctets_length (queue : tx.Queue (lis ++ rest)) :
    (lis.map restOctets).flatten.length = restSizes lis := by
  rw [length_flatten, map_map]
  congr 1
  refine map_congr_left fun sdu mem => ?_
  obtain ⟨octets, holds⟩ := queue.each sdu (mem_append_left _ mem)
  exact holds.length_restOctets

theorem marked_restOctets (sn : Nat) (lis : List TxSdu) :
    (lis.map (marked sn)).map restOctets = lis.map restOctets := by
  simp [comp_def, restOctets, marked]

theorem marked_sizes (sn : Nat) (lis : List TxSdu) :
    (lis.map (marked sn)).map sduRemainingSize = lis.map sduRemainingSize := by
  simp [comp_def, marked]

theorem restOctets_lengths (queue : tx.Queue (lis ++ rest)) :
    (lis.map restOctets).map length = lis.map sduRemainingSize := by
  rw [map_map]
  refine map_congr_left fun sdu mem => ?_
  obtain ⟨octets, holds⟩ := queue.each sdu (mem_append_left _ mem)
  exact holds.length_restOctets

theorem segment10_fills {last : TxSdu} (queue : tx.Queue (lis ++ last :: after))
    (clean : CleanPdu (tx.dataPduSize requested) lis last) :
    let taken := CleanPdu.taken (tx.dataPduSize requested) lis
    let current := tx.inputSdus tx.currentSduIndex
    ∃ sdusIndex filling, tx.segment10 now requested block =
        tx.finishPdu now (tx.dataPduSize requested) (rlcAmHeaderMinSize + liSpace false lis.length)
          (decide (current.sduRemainingSize = current.sduSize)) sdusIndex filling ∧
      filling.Ready (cutFirst taken (last.marked tx.vtS) after) (lis.map restOctets)
        (last.restOctets.take taken) ∧
      filling.lastByteIsLastOfSdu = decide (taken = last.sduRemainingSize) ∧
      ((lis.map restOctets).flatten ++ last.restOctets.take taken).length =
        restSizes lis + taken := by
  intro taken current
  obtain ⟨short, few, small, fragments, begins, ends⟩ := clean
  obtain ⟨lastBlock, holds⟩ := queue.each last (by simp)
  have occupied : 0 < tx.sduBufferOccupancy := by
    rw [queue.occupancy]
    simp only [map_append, map_cons, sum_append, sum_cons]
    omega
  have present : (tx.inputSdus tx.currentSduIndex).memBlock.isNone = false := by
    cases lis with
    | nil => rw [queue.head, holds.block]; rfl
    | cons sdu lis =>
      obtain ⟨octets, first⟩ := queue.each sdu (by simp)
      rw [queue.head, first.block]
      rfl
  have granted : tx.dataPduSize requested ≤ requested := Nat.min_le_left _ _
  have ending : EndsIn false lis last (tx.dataPduSize requested - rlcAmHeaderMinSize) :=
    ⟨by omega, by omega⟩
  obtain ⟨packed, sdusIndex, packing, packed_vtS, packed_queue⟩ := testFill_endsIn last after lis
    rlcAmMaxSduInPdu ⟨tx, [], tx.dataPduSize requested - rlcAmHeaderMinSize, 0, 0, 0⟩ [] false
    (tx.dataPduSize requested - rlcAmHeaderMinSize) few queue rfl (by simpa using few) fragments
    ending
  simp only [length_nil, slotFrom_zero queue.current, Nat.zero_add, nil_append]
    at packing packed_vtS packed_queue
  let start : Filling :=
    { tx := packed
      memory := store block 0 [0, 0, 0, 0]
      data := rlcAmHeaderMinSize + liSpace false lis.length
      eLi := rlcAmHeaderMinSize
      liLength := 1
      fillNumLi := 0
      pduRemainingSize := tx.dataPduSize requested - rlcAmHeaderMinSize
      payloadSize := 0
      lastByteIsLastOfSdu := false }
  have fillsTo : EndsIn false (lis.map (marked tx.vtS)) (last.marked tx.vtS)
      start.pduRemainingSize := by
    refine ⟨?_, ?_⟩ <;> rw [length_map, restSizes_marked]
    · exact ending.begins
    · exact ending.ends
  obtain ⟨filled, payloadSize⟩ := fill_endsIn (last.marked tx.vtS) after (lis.map (marked tx.vtS))
    rlcAmMaxSduInPdu start false lis.length (by simpa using few) packed_queue
    (by
      intro sdu mem
      obtain ⟨original, isOriginal, rfl⟩ := mem_map.mp mem
      exact small original isOriginal)
    rfl (by simp [start]) few fillsTo (by simp [start, lisEnd]) (fun absurd => by cases absurd)
  have takes : start.pduRemainingSize - (liSpace false (lis.map (marked tx.vtS)).length +
      restSizes (lis.map (marked tx.vtS))) = taken := by
    simp only [start, taken, CleanPdu.taken, length_map, restSizes_marked]
    omega
  rw [takes] at filled
  obtain ⟨filled_queue, -, full, count, ends_sdu, fields, content, settled, -, -⟩ := filled
  have lastLength : (last.restOctets.take taken).length = taken := by
    rw [length_take, holds.length_restOctets]
    simp only [taken, CleanPdu.taken]
    omega
  have length : ((lis.map restOctets).flatten ++ last.restOctets.take taken).length =
      restSizes lis + taken := by
    rw [length_append, flatten_restOctets_length queue, lastLength]
  rw [restSizes_marked, marked_restOctets] at content
  rw [marked_sizes, ← restOctets_lengths queue] at fields
  refine ⟨sdusIndex, fill lis.length rlcAmMaxSduInPdu start, ?_, ?_, ends_sdu, length⟩
  · rw [segment10]
    simp only [present, Bool.false_eq_true, false_or]
    rw [if_neg (by omega), if_neg (by omega), show 1 = liLengthBefore false from rfl, packing]
    rfl
  · refine ⟨filled_queue, full, ?_, ?_, by simpa using few, fields, ?_, ?_, ?_⟩
    · rw [settled 0 (by simp [frontier, start, rlcAmHeaderMinSize])]
      simp [start]
    · rw [count]
      simp [start]
    · refine ne_nil_of_length_pos ?_
      rw [lastLength]
      simp only [taken, CleanPdu.taken]
      omega
    · rw [length, length_map]
      exact content
    · rw [length]
      simp only [length_map, start] at payloadSize
      simp only [taken, CleanPdu.taken, start]
      omega

theorem segment10_clean {last : TxSdu} (queue : tx.Queue (lis ++ last :: after))
    (sn_lt : tx.vtS < rlcAmSnModulo) (clean : CleanPdu (tx.dataPduSize requested) lis last) :
    let taken := CleanPdu.taken (tx.dataPduSize requested) lis
    let current := tx.inputSdus tx.currentSduIndex
    let Carried := fun info : PduInfo =>
      info.sn = tx.vtS ∧ Carries info (decide (current.sduRemainingSize = current.sduSize))
        (decide (taken = last.sduRemainingSize)) (lis.map restOctets)
        (last.restOctets.take taken)
    ∃ next octets info, tx.segment10 now requested block = some (next, some octets) ∧
      next.Queue (cutFirst taken (last.marked tx.vtS) after) ∧ next.vtS = nextSn tx.vtS ∧
      (getDataPduInfos octets = some info ∧ Carried info) ∧
      ∃ kept whole, (next.pduRetransBuffer tx.vtS).Decodes kept whole ∧ Carried whole := by
  intro taken current Carried
  obtain ⟨sdusIndex, filling, segmented, ready, ends_sdu, length⟩ :=
    @segment10_fills tx now requested lis after block last queue clean
  have begins := clean.begins
  have finished := @finishPdu_carries tx now (tx.dataPduSize requested)
    (decide (current.sduRemainingSize = current.sduSize)) sdusIndex filling _ _ _ ready sn_lt
    (by
      intro piece mem
      obtain ⟨sdu, isSdu, rfl⟩ := mem_map.mp mem
      obtain ⟨octets, holds⟩ := queue.each sdu (mem_append_left _ isSdu)
      refine ne_nil_of_length_pos ?_
      rw [holds.length_restOctets]
      exact holds.left)
    (by
      rw [length, length_map]
      simp only [CleanPdu.taken]
      omega)
    clean.short
  rw [ends_sdu, length_map, ← segmented] at finished
  exact finished

end OpenAir.RlcAm
