import OpenAir.RlcAm.BufferOrder

/-! Delivery by the receiving side over whole runs: if no arrival meets one of
the two situations insertion does not check, the PDUs handed to reassembly are
those of the sender, each octet once and in order. -/

set_option autoImplicit false

namespace OpenAir.RlcAm

open List Receiver

/-- The buffer and the record of handed PDUs agree with the sender's sequence,
`base` PDUs having been delivered. -/
structure Consistent (pdus : Nat → AmdPdu) (base : Nat) (rx : Receiver) : Prop where
  vrR : rx.vrR = base % rlcAmSnModulo
  vrMr : rx.vrMr = (rx.vrR + rlcAmWindowSize) % rlcAmSnModulo
  pending : Pending pdus base base 0 rx.receiverBuffer
  reading : HandedUpTo pdus rx.handed base 0

variable {pdus : Nat → AmdPdu} {base : Nat} {rx : Receiver} {info : PduInfo}

theorem Consistent.of_sameDelivery {other : Receiver} (consistent : Consistent pdus base rx)
    (same : rx.SameDelivery other) :
    Consistent pdus base other where
  vrR := same.vrR.trans consistent.vrR
  vrMr := by rw [same.vrMr, same.vrR]; exact consistent.vrMr
  pending := by rw [same.receiverBuffer]; exact consistent.pending
  reading := by rw [same.handed]; exact consistent.reading

theorem consistent_init (pdus : Nat → AmdPdu) (msDuration : Nat) :
    Consistent pdus 0 (init msDuration) where
  vrR := rfl
  vrMr := by simp [init, rlcAmWindowSize, rlcAmSnModulo]
  pending := by
    refine ⟨?_, ?_, .nil, ?_, ?_, fun positive => absurd positive (lt_irrefl 0)⟩
    all_goals simp [init]
  reading := .start

variable {count index : Nat} {buffer : List RxPdu} {octets : List UInt8} {pdu : RxPdu}
  {input : RxInput}

theorem Pending.rebase {next : Nat} (notBehind : base ≤ next)
    (pending : Pending pdus base next 0 buffer) : Pending pdus next next 0 buffer := by
  have same : ∀ pdu ∈ buffer, indexFrom next pdu = indexFrom base pdu := by
    intro pdu mem
    have reach := pending.reach pdu mem
    rw [indexFrom, (pending.parts pdu mem).sn, shiftedSn_of_index reach.1]
    · omega
    · simp only [rlcAmSnModulo, rlcAmWindowSize] at *
      omega
  refine ⟨?_, ?_, ?_, pending.alike, ?_, fun positive => absurd positive (lt_irrefl 0)⟩
  · intro pdu mem
    rw [same pdu mem]
    exact pending.parts pdu mem
  · intro pdu mem
    rw [same pdu mem]
    have reach := pending.reach pdu mem
    exact ⟨reach.1, by omega⟩
  · refine pending.ordered.imp_of_mem ?_
    intro left right leftMember rightMember precedes
    cases precedes with
    | inl nearer =>
      have leftIndex := same left leftMember
      have rightIndex := same right rightMember
      unfold indexFrom at leftIndex rightIndex
      exact .inl (by omega)
    | inr gap => exact .inr gap
  · intro pdu mem set
    have tiled := pending.tiled pdu mem set
    rw [ite_self] at tiled
    rw [ite_self, same pdu mem]
    exact tiled

private theorem rxUpdateVrR_skip {vrR : Nat} {before after : List RxPdu}
    (flagged : ∀ pdu ∈ before, pdu.allSegmentsReceived) (sameSn : ∀ pdu ∈ before, pdu.info.sn = vrR)
    (notLast : ∀ pdu ∈ before, pdu.info.rf ∧ pdu.info.lsf = false) :
    rxUpdateVrR vrR (before ++ after) = rxUpdateVrR vrR after := by
  induction before with
  | nil => rfl
  | cons head rest ih =>
    have headFlagged := flagged head mem_cons_self
    have headSn := sameSn head mem_cons_self
    have headLast := notLast head mem_cons_self
    rw [cons_append, rxUpdateVrR, if_neg (by simp [headFlagged, headSn]),
      if_pos headLast.1, if_neg (by simp [headLast.2])]
    exact ih (fun pdu mem => flagged pdu (mem_cons_of_mem _ mem))
      (fun pdu mem => sameSn pdu (mem_cons_of_mem _ mem))
      (fun pdu mem => notLast pdu (mem_cons_of_mem _ mem))

theorem Orderly.pending (orderly : Orderly (base % rlcAmSnModulo) buffer)
    (parts : ∀ pdu ∈ buffer, IsPart pdus (indexFrom base pdu) pdu.info) :
    Pending pdus base base 0 buffer where
  parts := parts
  reach pdu mem :=
    ⟨Nat.le_add_right .., Nat.add_lt_add_left (orderly.reach pdu mem).near base⟩
  ordered := orderly.ordered
  alike pdu mem flagged other otherMember same :=
    (orderly.alike otherMember mem same).trans flagged
  tiled pdu mem flagged := by
    rw [ite_self]
    rw [orderly.flags pdu mem] at flagged
    change Tiles _ _ (sameNumber pdu.info.sn buffer)
    cases segment : pdu.info.rf with
    | false =>
      obtain ⟨starts, payload, _, _⟩ := (parts pdu mem).whole segment
      rw [orderly.ordered.sameNumber_of_whole mem segment]
      exact ⟨starts, by simp [Tiles, payload]⟩
    | true =>
      have segments := orderly.ordered.segments_of_segment mem segment
      have group := orderly.segmentGroup segments
      refine SegmentRun.tiles ⟨?_, fun other found _ => group.sized other found, ?_⟩ segments
        (by simpa [groupReceived, segment] using flagged)
      · intro other found
        obtain ⟨stored, same⟩ := mem_sameNumber.mp found
        exact indexFrom_eq_of_sn same ▸ parts other stored
      · exact group.apart.imp_of_mem fun found _ gap => ⟨segments _ found, gap⟩
  started positive := absurd positive (lt_irrefl 0)

section Placing

variable {pdus : Nat → AmdPdu} {base : Nat} {rx : Receiver} {info : PduInfo}
  {before after : List RxPdu}

theorem Consistent.parts (consistent : Consistent pdus base rx)
    (part : IsPart pdus (indexFrom base ⟨info, false⟩) info)
    (split : rx.receiverBuffer = before ++ after)
    (mem : pdu ∈ before ++ ⟨info, false⟩ :: after) :
    IsPart pdus (indexFrom base pdu) pdu.info := by
  rcases Stored.mem mem with rfl | old
  · exact part
  · exact consistent.pending.parts pdu (split ▸ old)

private theorem Pending.head_first (pending : Pending pdus base base 0 buffer)
    (mem : pdu ∈ buffer) (first : indexFrom base pdu = base) :
    ∀ head ∈ buffer.head?, indexFrom base head = base := by
  intro head headMember
  obtain ⟨rest, rfl⟩ := head?_eq_some_iff.mp headMember
  have lowest := pending.head_lowest mem
  have reach := (pending.reach head mem_cons_self).1
  omega

variable (ordered : Ordered (base % rlcAmSnModulo) (before ++ ⟨info, false⟩ :: after))
  (parts : ∀ pdu ∈ before ++ ⟨info, false⟩ :: after, IsPart pdus (indexFrom base pdu) pdu.info)

include ordered parts

private theorem before_awaited (first : indexFrom base ⟨info, false⟩ = base)
    (mem : pdu ∈ before) :
    pdu.info.sn = info.sn ∧ pdu.info.rf ∧ pdu.info.lsf = false := by
  obtain ⟨_, _, cross⟩ := pairwise_append.mp ordered
  cases cross pdu mem _ mem_cons_self with
  | inl nearer =>
    unfold indexFrom at first
    omega
  | inr gap =>
    obtain ⟨sameSn, segment, _, apart⟩ := gap
    have disjoint : pdu.info.so + pdu.info.payload.length ≤ info.so := apart
    have sameIndex : indexFrom base pdu = indexFrom base ⟨info, false⟩ :=
      indexFrom_eq_of_sn sameSn
    have part := parts pdu (mem_append_left _ mem)
    have new := parts ⟨info, false⟩ (mem_append_right _ mem_cons_self)
    rw [sameIndex] at part
    refine ⟨sameSn, segment, ?_⟩
    by_contra last
    have size := (part.last segment).mp (by simpa using last)
    have within := new.within
    have positive := new.length_pos
    simp only at within positive
    omega

private theorem awaited_walked {vrR : Nat} {complete : Bool}
    (awaited : info.sn = base % rlcAmSnModulo)
    (orderly : Orderly vrR ((before ++ ⟨info, false⟩ :: after).map (markIf complete info.sn))) :
    (if complete = true then rxUpdateVrR info.sn (markIf complete info.sn ⟨info, false⟩ ::
        after.map (markIf complete info.sn)) else info.sn) =
      rxUpdateVrR info.sn ((before ++ ⟨info, false⟩ :: after).map (markIf complete info.sn)) := by
  have first : indexFrom base ⟨info, false⟩ = base := by simp [indexFrom, awaited, shiftedSn]
  have front {pdu : RxPdu} (mem : pdu ∈ before) := before_awaited ordered parts first mem
  cases complete with
  | true =>
    rw [if_pos rfl, map_append]
    refine (rxUpdateVrR_skip ?_ ?_ ?_).symm
    all_goals
      intro pdu mem
      obtain ⟨old, inBefore, rfl⟩ := mem_map.mp mem
    · simp [markIf_flagged, (front inBefore).1]
    · rw [markIf_info, (front inBefore).1]
    · rw [markIf_info]
      exact (front inBefore).2
  | false =>
    simp only [map_markIf_false, Bool.false_eq_true, if_false] at orderly ⊢
    cases before with
    | nil => simp [rxUpdateVrR]
    | cons head rest =>
      have unset := orderly.alike mem_cons_self (mem_append_right _ mem_cons_self)
        (front mem_cons_self).1
      simp [rxUpdateVrR, unset]

omit ordered parts in
theorem Consistent.placed (consistent : Consistent pdus base rx)
    (inOrder : rx.InOrder) (stored : Stored rx.vrR before after info)
    (split : rx.receiverBuffer = before ++ after)
    (part : IsPart pdus (indexFrom base ⟨info, false⟩) info) :
    ∃ next, Consistent pdus next (rx.placed info before after) := by
  have following := inOrder.placed stored
  have orderly := stored.orderly_checked
  have equation := placed_eq stored.ordered rx
  generalize groupReceived (before ++ ⟨info, false⟩ :: after) info = complete at orderly equation
  dsimp only at equation
  have parts :
      ∀ pdu ∈ before ++ ⟨info, false⟩ :: after, IsPart pdus (indexFrom base pdu) pdu.info :=
    fun _ => consistent.parts part split
  have pending : Pending pdus base base 0 _ :=
    Orderly.pending (consistent.vrR ▸ orderly) fun pdu mem => by
      obtain ⟨old, inList, rfl⟩ := mem_map.mp mem
      simpa [indexFrom] using parts old inList
  have vrMr := following.vrMr
  rw [equation] at vrMr ⊢
  by_cases awaited : info.sn = rx.vrR
  · have walked :=
      awaited_walked (consistent.vrR ▸ stored.ordered) parts (awaited.trans consistent.vrR)
      orderly
    simp only [awaited, true_and, if_true] at vrMr walked pending ⊢
    have atHead := pending.head_first
      (mem_map_of_mem (mem_append_right before mem_cons_self))
      (by simp [indexFrom, awaited, consistent.vrR, shiftedSn])
    obtain ⟨next, passed⟩ := pending.handOver le_rfl consistent.reading atHead
    have reached := passed.vrR
    rw [← consistent.vrR] at reached
    exact ⟨next, walked.trans reached, vrMr, passed.pending.rebase passed.advanced, passed.reading⟩
  · simp only [awaited, false_and, if_false] at vrMr ⊢
    exact ⟨base, consistent.vrR, vrMr, pending, consistent.reading⟩

end Placing

def Receiver.deliveredPdus (rx : Receiver) : Nat :=
  rx.handed.countP PduInfo.endsPdu

/-- The block is PDU `index` of the sequence or a segment of it, and its number
is not ambiguous: `index` is within a window of the PDUs already delivered. -/
structure Arrives (pdus : Nat → AmdPdu) (rx : Receiver) (index : Nat)
    (octets : List UInt8) : Prop where
  bounded : octets.length < 2 ^ 15
  part : ∀ info, getDataPduInfos octets = some info → IsPart pdus index info
  notAhead : index ≤ rx.deliveredPdus + rlcAmWindowSize
  notBehind : rx.deliveredPdus ≤ index + rlcAmWindowSize

def Offered (pdus : Nat → AmdPdu) (rx : Receiver) : RxInput → Prop
  | .dataPdu _ octets => ∃ index, Arrives pdus rx index octets
  | .timerCheck _ => True

/-- The handed PDUs are parts of the sequence, and their octets are those of
its first `count` PDUs, each once and in order. -/
def ExactlyOnceInOrder (pdus : Nat → AmdPdu) (handed : List PduInfo) : Prop :=
  ∃ (count : Nat) (indices : List Nat), Forall₂ (IsPart pdus) indices handed ∧
    (indices.zip handed).flatMap (fun (index, info) => located index info.so info.payload) =
      stream pdus count

private theorem Arrives.indexFrom_eq (arrives : Arrives pdus rx index octets)
    (consistent : Consistent pdus base rx) (decoded : getDataPduInfos octets = some info)
    (inside : inWindow rx.vrR rx.vrMr info.sn) :
    indexFrom base ⟨info, false⟩ = index := by
  rw [consistent.vrMr, inWindow_iff, consistent.vrR] at inside
  have count : rx.deliveredPdus = base := consistent.reading.count
  have sn := (arrives.part info decoded).sn
  have notAhead := count ▸ arrives.notAhead
  have notBehind := count ▸ arrives.notBehind
  have near := inside.2
  unfold indexFrom
  unfold shiftedSn at near ⊢
  simp only [rlcAmSnModulo, rlcAmWindowSize] at *
  omega

theorem Arrives.wellFormed (arrives : Arrives pdus rx index octets) : WellFormed octets :=
  ⟨arrives.bounded, fun info decoded => (arrives.part info decoded).nonempty⟩

theorem Consistent.step (consistent : Consistent pdus base rx) (inOrder : rx.InOrder)
    (offered : Offered pdus rx input) (checked : InsertionChecked rx input) :
    ∃ next, Consistent pdus next (rx.step input) := by
  cases input with
  | timerCheck now =>
    exact ⟨base, consistent.of_sameDelivery (rx.checkTimerReordering_sameDelivery now)⟩
  | dataPdu now octets =>
    obtain ⟨index, arrives⟩ := offered
    rcases rx.receiveProcessDataPdu_cases now octets with
      ⟨requested, unchanged, _⟩ | ⟨info, before, after, places, stepped⟩
    · rw [step, unchanged]
      exact ⟨base, consistent.of_sameDelivery ⟨rfl, rfl, rfl, rfl, rfl⟩⟩
    · have polled : rx.SameDelivery
          { rx with statusRequested := rx.statusRequested || info.p } :=
        ⟨rfl, rfl, rfl, rfl, rfl⟩
      obtain ⟨split, stored⟩ := inOrder.store places arrives.wellFormed
        (checked info places.decoded).1 (checked info places.decoded).2
      have sameIndex := arrives.indexFrom_eq consistent places.decoded places.inside
      obtain ⟨next, following⟩ := (consistent.of_sameDelivery polled).placed
        (inOrder.of_sameDelivery polled) stored split
        (sameIndex.symm ▸ arrives.part info places.decoded)
      rw [step, stepped]
      exact ⟨next, following.of_sameDelivery (updateReordering_sameDelivery _ _ _).1⟩

theorem Consistent.run (consistent : Consistent pdus base rx) (inOrder : rx.InOrder)
    {inputs : List RxInput} (offered : Along (Offered pdus) rx inputs)
    (checked : Along InsertionChecked rx inputs) :
    ∃ next, Consistent pdus next (rx.run inputs) := by
  induction inputs generalizing base rx with
  | nil => exact ⟨base, consistent⟩
  | cons input rest ih =>
    have wellFormed : input.WellFormed := by
      cases input with
      | timerCheck now => exact trivial
      | dataPdu now octets => exact offered.1.elim fun _ arrives => arrives.wellFormed
    obtain ⟨next, following⟩ := consistent.step inOrder offered.1 checked.1
    exact ih following (inOrder.step wellFormed checked.1) offered.2 checked.2

theorem delivery_exactly_once_in_order (pdus : Nat → AmdPdu) (msDuration : Nat)
    (inputs : List RxInput) (offered : Along (Offered pdus) (init msDuration) inputs)
    (checked : Along InsertionChecked (init msDuration) inputs) :
    ExactlyOnceInOrder pdus ((init msDuration).run inputs).handed := by
  obtain ⟨count, consistent⟩ :=
    (consistent_init pdus msDuration).run (inOrder_init msDuration) offered checked
  obtain ⟨indices, parts, octets⟩ := consistent.reading.octets
  refine ⟨count, indices, parts, ?_⟩
  simpa [located] using octets

instance isPartDecidable (pdus : Nat → AmdPdu) (index : Nat) (info : PduInfo) :
    Decidable (IsPart pdus index info) :=
  decidable_of_iff' _ (isPart_iff pdus index info)

private theorem arrives_of_check (bounded : octets.length < 2 ^ 15)
    (part : (getDataPduInfos octets).all (fun info => decide (IsPart pdus index info)))
    (near : index ≤ rx.deliveredPdus + rlcAmWindowSize ∧
      rx.deliveredPdus ≤ index + rlcAmWindowSize) : Arrives pdus rx index octets where
  bounded := bounded
  part info decoded := by simpa [decoded] using part
  notAhead := near.1
  notBehind := near.2

def threeOctetPdus : Nat → AmdPdu := fun _ => ⟨[1, 2, 3], 0, []⟩

def wholePdu (sn : Nat) : List UInt8 :=
  [UInt8.ofNat (0x80 + sn / 256), UInt8.ofNat (sn % 256), 1, 2, 3]

def firstSegment (sn : Nat) : List UInt8 :=
  [UInt8.ofNat (0xC0 + sn / 256), UInt8.ofNat (sn % 256), 0, 0, 1, 2]

/-- The last two octets: it repeats the second octet of `firstSegment`. -/
def overlappingSegment (sn : Nat) : List UInt8 :=
  [UInt8.ofNat (0xC0 + sn / 256), UInt8.ofNat (sn % 256), 0x80, 1, 2, 3]

def lastSegment (sn : Nat) : List UInt8 :=
  [UInt8.ofNat (0xC0 + sn / 256), UInt8.ofNat (sn % 256), 0x80, 2, 3]

def reorderedInputs : List RxInput :=
  [.dataPdu 0 (lastSegment 1), .dataPdu 1 (wholePdu 0), .dataPdu 2 (wholePdu 0), .timerCheck 3,
    .dataPdu 4 (firstSegment 1)]

theorem reorderedInputs_checked : Along InsertionChecked (init 10) reorderedInputs :=
  ⟨insertionChecked_of_unwrapped (by decide +kernel),
    insertionChecked_of_unwrapped (by decide +kernel),
    insertionChecked_of_unwrapped (by decide +kernel),
    insertionChecked_of_unwrapped (by decide +kernel),
    insertionChecked_of_unwrapped (by decide +kernel), trivial⟩

theorem delivery_reordered_segments :
    (((init 10).run reorderedInputs).handed.map fun info => (info.sn, info.so)) =
        [(0, 0), (1, 0), (1, 2)] ∧
      ExactlyOnceInOrder threeOctetPdus ((init 10).run reorderedInputs).handed := by
  refine ⟨by decide +kernel, delivery_exactly_once_in_order threeOctetPdus 10 reorderedInputs ?_
    reorderedInputs_checked⟩
  exact ⟨⟨1, arrives_of_check (by decide) (by decide +kernel) (by decide +kernel)⟩,
    ⟨0, arrives_of_check (by decide) (by decide +kernel) (by decide +kernel)⟩,
    ⟨0, arrives_of_check (by decide) (by decide +kernel) (by decide +kernel)⟩, trivial,
    ⟨1, arrives_of_check (by decide) (by decide +kernel) (by decide +kernel)⟩, trivial⟩

def wholeInfo (sn : Nat) : PduInfo :=
  { dC := true, rf := false, p := false, fi := 0, e := false, sn := sn, lsf := false, so := 0
    liList := [], hiddenSize := 3, payload := [1, 2, 3], payloadSize := 3, headerSize := 2 }

def afterWholePdus (count : Nat) : Receiver :=
  { init 0 with
    vrR := count
    vrMr := (count + rlcAmWindowSize) % rlcAmSnModulo
    vrMs := count
    vrH := count
    handed := (range count).map wholeInfo }

theorem wholePdu_decoded :
    ∀ sn < 513, getDataPduInfos (wholePdu sn) = some (wholeInfo sn) := by
  decide +kernel

private theorem deliveredPdus_afterWholePdus (count : Nat) :
    (afterWholePdus count).deliveredPdus = count := by
  simp [deliveredPdus, afterWholePdus, countP_map, Function.comp_def, wholeInfo, PduInfo.endsPdu]

private theorem afterWholePdus_step {sn : Nat} (small : sn < 513) :
    (afterWholePdus sn).step (.dataPdu 0 (wholePdu sn)) = afterWholePdus (sn + 1) := by
  have inside : inWindow sn ((sn + rlcAmWindowSize) % rlcAmSnModulo) sn := by
    rw [inWindow_iff]
    simp [shiftedSn, rlcAmSnModulo, rlcAmWindowSize]
    omega
  have next : nextSn sn = sn + 1 := by
    simp only [nextSn, rlcAmSnModulo]
    omega
  have highest : snGte sn sn sn := by
    have bound : sn < rlcAmSnModulo := by
      simp only [rlcAmSnModulo]
      omega
    simp [snGte, bound]
  simp [step, receiveProcessDataPdu, wholePdu_decoded sn (by omega),
    afterWholePdus, init, initTimerReordering, inside, rxListInsertPdu, placed,
    rxCheckAllByteSegments, RxPdu.marked, rxUpdateVrMs, rxUpdateVrR, rxListReassembleRlcSdus,
    updateReordering, next, highest, wholeInfo, range_succ]

def wholeInputs (count : Nat) : List RxInput :=
  (range' 0 count).map fun sn => .dataPdu 0 (wholePdu sn)

private theorem wholeInputs_succ (count : Nat) :
    wholeInputs (count + 1) = wholeInputs count ++ [.dataPdu 0 (wholePdu count)] := by
  simp [wholeInputs, range'_concat]

theorem run_wholeInputs (small : count ≤ 513) :
    (init 0).run (wholeInputs count) = afterWholePdus count := by
  induction count with
  | zero =>
    simp [wholeInputs, run, afterWholePdus, init, rlcAmWindowSize, rlcAmSnModulo]
  | succ sn ih =>
    rw [wholeInputs_succ, run_append, ih (by omega)]
    exact afterWholePdus_step (by omega)

/-- Whole PDUs up to number 512; then a segment of 513, PDU 1024 (number 0),
and a second segment of 513 that overlaps the first. -/
def overlapInputs : List RxInput :=
  wholeInputs 513 ++
    [.dataPdu 0 (firstSegment 513), .dataPdu 0 (wholePdu 0), .dataPdu 0 (overlappingSegment 513)]

private theorem wholeInputs_offered (small : count ≤ 513) :
    Along (Offered threeOctetPdus) (init 0) (wholeInputs count) := by
  induction count with
  | zero => exact trivial
  | succ sn ih =>
    rw [wholeInputs_succ, along_append, run_wholeInputs (by omega)]
    have part : IsPart threeOctetPdus sn (wholeInfo sn) := by
      refine ⟨?_, by simp [wholeInfo], rfl, fun _ => ⟨rfl, rfl, rfl, rfl⟩, fun segment => ?_⟩
      · simp only [wholeInfo, rlcAmSnModulo]
        omega
      · cases segment
    refine ⟨ih (by omega), ⟨sn, arrives_of_check (by simp [wholePdu]) ?_ ?_⟩, trivial⟩
    · simp [wholePdu_decoded sn (by omega), part]
    · rw [deliveredPdus_afterWholePdus]
      omega

private theorem length_read {indices : List Nat} {handed : List PduInfo}
    (parts : Forall₂ (IsPart pdus) indices handed) :
    ((indices.zip handed).flatMap fun (index, info) =>
      located index info.so info.payload).length =
      (handed.map fun info => info.payload.length).sum := by
  induction parts with
  | nil => rfl
  | cons part _ ih =>
    rw [zip_cons_cons, flatMap_cons, length_append, ih]
    simp [located]

theorem not_exactly_once_overlap :
    Along (Offered threeOctetPdus) (init 0) overlapInputs ∧
      ¬ ExactlyOnceInOrder threeOctetPdus ((init 0).run overlapInputs).handed := by
  constructor
  · rw [overlapInputs, along_append, run_wholeInputs le_rfl]
    exact ⟨wholeInputs_offered le_rfl,
      ⟨513, arrives_of_check (by decide) (by decide +kernel) (by decide +kernel)⟩,
      ⟨1024, arrives_of_check (by decide) (by decide +kernel) (by decide +kernel)⟩,
      ⟨513, arrives_of_check (by decide) (by decide +kernel) (by decide +kernel)⟩, trivial⟩
  · intro ordered
    obtain ⟨count, indices, parts, octets⟩ := ordered
    have read := length_read parts
    rw [octets] at read
    have handed : (((init 0).run overlapInputs).handed.map
        fun info => info.payload.length).sum = 1543 := by
      rw [overlapInputs, run_append, run_wholeInputs le_rfl]
      decide +kernel
    have streamed : (stream threeOctetPdus count).length = 3 * count := by
      simp [stream, located, threeOctetPdus, length_flatMap, Nat.mul_comm]
    omega

end OpenAir.RlcAm
