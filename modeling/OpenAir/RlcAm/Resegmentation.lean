import OpenAir.RlcAm.ResentOctets
import OpenAir.RlcAm.SegmentCuts
import OpenAir.RlcAm.SegmentedPdu

/-! The segments of `rlc_am_retransmit_get_subsegment` as
`rlc_am_get_data_pdu_infos` decodes them: each is the start of the first missing
range of its PDU, with the header that belongs to it. -/

set_option autoImplicit false

namespace OpenAir.RlcAm

open OpenAir.Base List Option Transmitter Nat

variable {lis : List Nat} {pos : Nat} {octets : List UInt8} {info : PduInfo} {pdu : TxPdu}

section Octets

theorem length_liOctets (lis : List Int) : (liOctets lis).length = liSpace false lis.length := by
  induction lis using List.twoStepInduction with
  | nil => rfl
  | singleton li => simp [liOctets, liSpace]
  | cons_cons first second rest ih _ =>
    simp only [liOctets, length_cons, ih, liSpace, Bool.false_eq_true, if_false]
    omega

theorem lisAt_liOctets {memory : Nat → UInt8} (small : ∀ li ∈ lis, li < 2048)
    (written : ∀ index < (liOctets (lis.map Nat.cast)).length,
      memory (pos + index) = (liOctets (lis.map Nat.cast)).getD index 0) :
    LisAt memory pos false lis := by
  induction lis using List.twoStepInduction generalizing pos with
  | nil => trivial
  | singleton li =>
    have b1 := written 0 (by simp [liOctets])
    have b2 := written 1 (by simp [liOctets])
    refine ⟨@liAt_first memory pos li false _ (small li (by simp)) (by simp) ?_ ?_, trivial⟩
    · simpa [liOctets] using b1
    · rw [b2]
      simp [liOctets]
  | cons_cons first second rest ih _ =>
    have b1 := written 0 (by simp [liOctets])
    have b2 := written 1 (by simp [liOctets])
    have b3 := written 2 (by simp [liOctets])
    have more : decide (rest ≠ []) = true ↔ rest ≠ [] := decide_eq_true_iff
    obtain ⟨secondField, high⟩ := @liAt_second memory pos second
      (UInt8.ofNat (first <<< 4)) (decide (rest ≠ [])) _ (small second (by simp)) more
      (first_low_nibble first)
      (by
        rw [b2]
        cases rest <;> simp [liOctets])
      (by simpa [liOctets] using b3)
    refine ⟨@liAt_first memory pos first true _ (small first (by simp)) (by simp) ?_ high,
      secondField, ?_⟩
    · simpa [liOctets] using b1
    · refine ih (fun li mem => small li (by simp [mem])) fun index below => ?_
      have later := written (index + 3) (by simpa [liOctets] using below)
      rw [Nat.add_assoc, Nat.add_comm 3 index, later]
      simp [liOctets]

theorem octetAt_lt (octets : List UInt8) (pos : Nat) : octetAt octets pos < 256 :=
  UInt8.toNat_lt _

private theorem first_field_lt (b1 b2 : Nat) :
    ((b1 <<< 4) &&& 0x07F0) ||| ((b2 >>> 4) &&& 0x000F) < 2 ^ 11 :=
  or_lt_two_pow (and_lt_two_pow _ (by decide)) (and_lt_two_pow _ (by decide))

private theorem second_field_lt (b2 : Nat) {b3 : Nat} (octet : b3 < 256) :
    ((b2 <<< 8) &&& 0x0700) ||| b3 < 2 ^ 11 :=
  or_lt_two_pow (and_lt_two_pow _ (by decide)) (by omega)

def LisBounded (allowed : Nat) (lis : List Nat) (used : Nat) : Prop :=
  lis.length ≤ allowed ∧ (∀ li ∈ lis, li < 2048) ∧ used ≤ 2 * allowed

theorem LisBounded.cons {allowed used li size : Nat} {lis : List Nat}
    (bounded : LisBounded allowed lis used) (small : li < 2048) (size_le : size ≤ 2) :
    LisBounded (allowed + 1) (li :: lis) (used + size) := by
  obtain ⟨few, each, short⟩ := bounded
  refine ⟨by simpa using few, ?_, by omega⟩
  intro other mem
  rcases mem_cons.mp mem with rfl | mem
  · exact small
  · exact each other mem

theorem LisBounded.nil (allowed : Nat) : LisBounded allowed [] 0 :=
  ⟨zero_le _, by simp, zero_le _⟩

theorem readLis_bounded {allowed used : Nat} {second : Bool}
    (read : readLis octets allowed pos second = some (lis, used)) :
    LisBounded allowed lis used := by
  induction allowed generalizing pos used second lis with
  | zero => cases second <;> cases read
  | succ allowed ih =>
    cases second with
    | false =>
      have small := first_field_lt (octetAt octets pos) (octetAt octets (pos + 1))
      simp only [readLis] at read
      split at read
      · obtain ⟨⟨later, count⟩, found, joined⟩ := map_eq_some_iff.mp read
        cases joined
        exact (ih found).cons small (le_refl _)
      · cases read
        exact (LisBounded.nil allowed).cons small (le_refl _)
    | true =>
      have small := second_field_lt (octetAt octets (pos + 1))
        (octetAt_lt octets (pos + 2))
      simp only [readLis] at read
      split at read
      · obtain ⟨⟨later, count⟩, found, joined⟩ := map_eq_some_iff.mp read
        cases joined
        exact (ih found).cons small (by decide)
      · cases read
        exact (LisBounded.nil allowed).cons small (le_succ 1)

end Octets

private theorem segment_fields : ∀ top < 4, ∀ notFi < 4, ∀ extended polls : Bool,
    let b1 := (setPoll polls (UInt8.ofNat (0x80 ||| top ||| 0x40 |||
      (((notFi <<< 3) ^^^ 0x18) &&& 0x18) ||| (if extended then 0x04 else 0)))).toNat
    b1 >>> 7 ≠ 0 ∧ (b1 >>> 6) &&& 0x01 = 1 ∧ decide ((b1 >>> 2) &&& 0x01 = 1) = extended ∧
      (b1 >>> 3) &&& 0x03 = notFi ^^^ 3 ∧ b1 &&& 0x03 = top := by
  decide +kernel

private theorem offset_fields : ∀ high < 128, ∀ last : Bool,
    let b3 := (UInt8.ofNat (high ||| (if last then 0x80 else 0))).toNat
    decide ((b3 >>> 7) &&& 0x01 = 1) = last ∧ b3 &&& 0x7F = high := by
  decide +kernel

private theorem kept_fields : ∀ octet < 256, octet >>> 7 ≠ 0 →
    octet &&& 0x83 = 0x80 ||| (octet &&& 0x03) := by
  decide +kernel

def segmentOctets (first : UInt8) (low so : Nat) (lastSegment : Bool) (parts : List Nat)
    (payload : List UInt8) : List UInt8 :=
  first :: UInt8.ofNat low :: UInt8.ofNat (so >>> 8 ||| (if lastSegment then 0x80 else 0)) ::
    UInt8.ofNat so :: (liOctets (parts.map Nat.cast) ++ payload)

theorem readLis_segmentOctets {first : UInt8} {low so : Nat} {lastSegment : Bool}
    {parts : List Nat} {payload : List UInt8} (some_part : parts ≠ [])
    (few : parts.length ≤ rlcAmMaxSduInPdu) (small : ∀ part ∈ parts, part < 2048) :
    readLis (segmentOctets first low so lastSegment parts payload) rlcAmMaxSduInPdu 4 false =
      some (parts, liSpace false parts.length) := by
  let octets := segmentOctets first low so lastSegment parts payload
  have fields : LisAt (octets.getD · 0) 4 false parts := by
    refine lisAt_liOctets small fun index below => ?_
    rw [Nat.add_comm]
    exact getD_append _ _ _ _ below
  have read := @readLis_load (octets.getD · 0) octets.length parts rlcAmMaxSduInPdu 4 false
    some_part few fields
    (by
      simp only [octets, segmentOctets, lisEnd, length_cons, length_append,
        length_liOctets, length_map, Bool.false_eq_true, if_false]
      omega)
  rwa [load_getD] at read

theorem getDataPduInfos_segment {top notFi low so : Nat} {lastSegment polls : Bool}
    {parts : List Nat} {payload : List UInt8} (top_lt : top < 4) (notFi_lt : notFi < 4)
    (low_lt : low < 256) (so_lt : so < 32768) (few : parts.length ≤ rlcAmMaxSduInPdu)
    (small : ∀ part ∈ parts, part < 2048)
    (short : 4 + liSpace false parts.length + payload.length < 32768) :
    ∃ info, getDataPduInfos (segmentOctets (setPoll polls (UInt8.ofNat (0x80 ||| top ||| 0x40 |||
          (((notFi <<< 3) ^^^ 0x18) &&& 0x18) ||| (if parts ≠ [] then 0x04 else 0))))
        low so lastSegment parts payload) = some info ∧
      info.rf ∧ info.fi = notFi ^^^ 3 ∧ info.sn = low + (top <<< 8) ∧
      info.lsf = lastSegment ∧ info.so = so ∧ info.liList = parts ∧ info.payload = payload ∧
      info.payloadSize = payload.length := by
  obtain ⟨isData, isSegment, extended, framing, high⟩ :=
    segment_fields top top_lt notFi notFi_lt (decide (parts ≠ [])) polls
  simp only [decide_eq_true_eq] at isData isSegment extended framing high
  have so_high : so >>> 8 < 128 := by
    omega
  obtain ⟨lsf, soHigh⟩ := offset_fields (so >>> 8) so_high lastSegment
  generalize setPoll polls _ = first at *
  have lis : (if decide (parts ≠ []) = true then
        readLis (segmentOctets first low so lastSegment parts payload) rlcAmMaxSduInPdu 4 false
      else some ([], 0)) = some (parts, liSpace false parts.length) := by
    by_cases none : parts = []
    · rw [none]
      rfl
    · rw [if_pos (decide_eq_true none), readLis_segmentOctets none few small]
  have o1 : octetAt (segmentOctets first low so lastSegment parts payload) 1 = low := by
    simp only [octetAt, segmentOctets, getD_cons_succ, getD_cons_zero, UInt8.toNat_ofNat']
    omega
  have o3 : octetAt (segmentOctets first low so lastSegment parts payload) 3 = so % 256 := by
    simp [octetAt, segmentOctets]
  have length : (segmentOctets first low so lastSegment parts payload).length =
      4 + liSpace false parts.length + payload.length := by
    simp only [segmentOctets, length_cons, length_append, length_liOctets, length_map]
    omega
  have rest : (segmentOctets first low so lastSegment parts payload).drop
      (4 + liSpace false parts.length) = payload := by
    have lis := length_liOctets (parts.map Nat.cast)
    rw [length_map] at lis
    rw [Nat.add_comm, ← lis]
    simp [segmentOctets]
  have soWhole : so % 256 + (so >>> 8) <<< 8 = so := by
    omega
  have size : asInt16 (asInt16 ((4 + liSpace false parts.length + payload.length : Nat) : Int) -
      ((4 + liSpace false parts.length : Nat) : Int)) = payload.length := by
    rw [asInt16_sub, ← asInt16_natCast (by omega : payload.length < 32768)]
    congr 1
    omega
  have o0 : octetAt (segmentOctets first low so lastSegment parts payload) 0 = first.toNat := rfl
  have o2 : octetAt (segmentOctets first low so lastSegment parts payload) 2 =
    (UInt8.ofNat (so >>> 8 ||| (if lastSegment then 0x80 else 0))).toNat := rfl
  simp only [getDataPduInfos, o0, o1, o2, o3, isData, if_false, decide_eq_true isSegment, if_true,
    extended, lis, map_some, length, size, rest, framing, high, lsf, soHigh, soWhole,
    Bool.true_and]
  exact ⟨_, rfl, rfl, rfl, rfl, rfl, rfl, rfl, rfl, rfl⟩

theorem getDataPduInfos_fields (decoded : getDataPduInfos octets = some info)
    (short : octets.length < rlcSduMaxSize) :
    octetAt octets 0 >>> 7 ≠ 0 ∧ info.fi < 4 ∧
      info.sn = octetAt octets 1 + ((octetAt octets 0 &&& 0x03) <<< 8) ∧
      info.liList.length ≤ rlcAmMaxSduInPdu ∧ (∀ li ∈ info.liList, li < 2048) ∧
      info.payload = octets.drop info.headerSize ∧
      info.payloadSize = octets.length - info.headerSize ∧
      (info.liList.sum < info.payloadSize →
        info.hiddenSize = info.payloadSize - info.liList.sum) := by
  simp only [rlcSduMaxSize] at short
  simp only [getDataPduInfos] at decoded
  split at decoded
  · cases decoded
  next isData =>
    generalize fixed : (if decide (octetAt octets 0 >>> 6 &&& 0x01 = 1) = true then 4 else 2) =
      fixedSize at decoded
    have fixed_le : fixedSize ≤ 4 := by
      rw [← fixed]
      split
      · exact le_refl _
      · decide
    obtain ⟨⟨lis, used⟩, read, rfl⟩ := map_eq_some_iff.mp decoded
    have bounded : LisBounded rlcAmMaxSduInPdu lis used := by
      split at read
      · exact readLis_bounded read
      · cases read
        exact LisBounded.nil _
    obtain ⟨few, small, space⟩ := bounded
    simp only [rlcAmMaxSduInPdu] at space
    have size : asInt16 (asInt16 octets.length - ((fixedSize + used : Nat) : Int)) =
        octets.length - ((fixedSize + used : Nat) : Int) := by
      rw [asInt16_sub, asInt16_eq_self (by omega) (by omega)]
    refine ⟨isData, and_lt_two_pow _ (by decide : 3 < 2 ^ 2), rfl, few, small, rfl, ?_, ?_⟩
    · simp only
      exact size
    · intro hidden
      simp only at hidden
      rw [size] at hidden
      have sum16 : asInt16 (lis.sum : Int) = lis.sum := asInt16_natCast (by omega)
      simp only [size, sum16]
      rw [if_pos hidden, asInt16_eq_self (by omega) (by omega)]

theorem TxPdu.Decodes.framed (decodes : pdu.Decodes octets info) : info.Framed := by
  obtain ⟨-, fi, -, -, small, -, -, hiddenSize⟩ :=
    getDataPduInfos_fields decodes.decoded decodes.short
  have some_octet := Int.lt_of_lt_of_le decodes.hidden decodes.payloadSize
  exact ⟨fi, decodes.positive, small, by omega, by omega⟩

/-- The octets from `start` to `last` are the first range of the PDU to send
again. -/
structure TxPdu.Misses (pdu : TxPdu) (start last : Nat) : Prop extends pdu.HolesOrdered where
  begins : pdu.nackSoStart = start
  hole : pdu.stopped.getNextHole = (↑start, ↑last)
  nonempty : start ≤ last
  within : last < pdu.payloadSize

/-- A decoded segment is the range from `start` up to `stop` of a whole PDU with
`size` octets of payload, and its header says so. -/
structure PduInfo.SegmentOf (segment whole : PduInfo) (size : Int) (start stop : Nat) : Prop where
  rf : segment.rf
  so : segment.so = start
  sn : segment.sn = whole.sn
  payload : segment.payload = (whole.payload.drop start).take (stop - start)
  payloadSize : segment.payloadSize = stop - start
  lsf : segment.lsf = true ↔ stop = size
  ends : endsFrom start segment.liList = between (endsFrom 0 whole.liList) start stop
  first : segment.fi &&& 2 = 0 ↔
    start ∈ endsFrom 0 whole.liList ∨ start = 0 ∧ whole.fi &&& 2 = 0
  last : segment.fi &&& 1 = 0 ↔
    stop ∈ endsFrom 0 whole.liList ∨ stop = size ∧ whole.fi &&& 1 = 0

def neededSize (ends : List Nat) (start last : Nat) : Nat :=
  4 + liSpace false (between ends start (last + 1)).length + (last + 1 - start)

namespace TxPdu

theorem stopped_payload (pdu : TxPdu) : pdu.stopped.payload = pdu.payload := by
  rw [stopped]
  split
  · rfl
  · rfl

theorem segmented_nackSoStart (pdu : TxPdu) (plan : SegmentPlan) :
    (pdu.stopped.passed plan).nackSoStart = pdu.nackSoStart := by
  simp only [passed, stopped]
  split <;> split <;> rfl

/-- The start of the first missing range can be taken off. The rest of it is then
missing exactly if the PDU has no holes and more than one octet is left of the range. -/
theorem Misses.removed {start last stop : Nat} (misses : pdu.Misses start last)
    (forward : start < stop) (upTo : stop ≤ last + 1) (plan : SegmentPlan) :
    ∃ other, (pdu.stopped.passed plan).removeHole start (stop - 1) = some other ∧
      (other.nackSoStart = stop ↔ pdu.holes = [] ∧ stop < last) := by
  obtain ⟨⟨apart, proper, -⟩, begins, hole, nonempty, within⟩ := misses
  obtain ⟨holes, nackSoStop, payloadSize, -⟩ := pdu.stopped.passed_kept plan
  rw [stopped_holes] at holes
  rw [stopped_payloadSize] at payloadSize
  rw [getNextHole, stopped_holes] at hole
  rw [removeHole, if_pos (by omega), holes, nackSoStop, payloadSize,
    pdu.segmented_nackSoStart plan, begins]
  cases list : pdu.holes with
  | nil =>
    rw [list] at hole
    have ends : pdu.stopped.nackSoStop = last := congrArg Prod.snd hole
    rw [if_pos rfl, if_pos ⟨rfl, by omega⟩, ends]
    by_cases more : stop < last
    · simp only [if_neg (by omega : ¬((stop : Int) - 1 + 1 ≥ last))]
      rw [if_pos (by omega)]
      exact ⟨_, rfl, iff_of_true (by simp only; omega) ⟨trivial, more⟩⟩
    · simp only [if_pos (by omega : (stop : Int) - 1 + 1 ≥ last)]
      rw [if_pos (by omega)]
      exact ⟨_, rfl, iff_of_false (by simp only; omega) fun further => more further.2⟩
  | cons first rest =>
    rw [list] at hole apart proper
    obtain rfl : first = (↑start, ↑last) := hole
    rcases @removeFromHoles_first start last (stop - 1) rest
        ((↑start, ↑last) :: rest).length apart proper (by omega) with
      ⟨-, -, emptied⟩ | ⟨next, tail, moved, -⟩
    · have begins : (holeSpan []).1 = 0 := rfl
      rw [emptied, bind_some]
      simp only
      rw [if_pos (Or.inr (by omega))]
      exact ⟨_, rfl, iff_of_false (by simp only; omega) fun none => cons_ne_nil _ _ none.1⟩
    · have begins : (holeSpan (((stop : Int) - 1, next) :: tail)).1 = stop - 1 := rfl
      rw [moved, bind_some]
      exact ⟨_, rfl, iff_of_false (by simp only; omega) fun none => cons_ne_nil _ _ none.1⟩

end TxPdu

theorem pduPolling_segment (tx : Transmitter) (now : Nat) (first : UInt8) (low so : Nat)
    (lastSegment : Bool) (parts : List Nat) (payload : List UInt8) (payloadSize : Int) :
    ∃ next polls, tx.pduPolling now (segmentOctets first low so lastSegment parts payload)
        payloadSize = (next, segmentOctets (setPoll polls first) low so lastSegment parts payload) ∧
      next.pduRetransBuffer = tx.pduRetransBuffer := by
  obtain ⟨polls, polled⟩ := pduPolling_octets tx now
    (segmentOctets first low so lastSegment parts payload) payloadSize
  obtain ⟨-, -, -, -, -, -, kept⟩ := pduPolling_frame tx now
    (segmentOctets first low so lastSegment parts payload) payloadSize
  exact ⟨_, polls, Prod.ext rfl polled, kept⟩

theorem retransmitGetSubsegment_eq {tx : Transmitter} {now sn : Nat} {size : Int}
    {octets : List UInt8} {info : PduInfo} {plan : SegmentPlan} {pdu : TxPdu} {parts : List Nat}
    (block : (tx.pduRetransBuffer sn).memBlock = some octets)
    (decoded : getDataPduInfos octets = some info)
    (planned : (tx.pduRetransBuffer sn).stopped.planSegment info (size - 4) = some plan)
    (listed : plan.liList = parts.map Nat.cast)
    (removed : ((tx.pduRetransBuffer sn).stopped.passed plan).removeHole plan.startOffset
      (plan.pduCopySize + plan.startOffset - 1) = some pdu) :
    tx.retransmitGetSubsegment now sn size = some ((tx.setPdu sn pdu).pduPolling now
      (segmentOctets
        (UInt8.ofNat ((octetAt octets 0 &&& 0x83) ||| 0x40 |||
          (((plan.notFi <<< 3) ^^^ 0x18) &&& 0x18) ||| (if plan.liList = [] then 0 else 0x04)))
        (octetAt octets 1) (tx.pduRetransBuffer sn).nackSoStart.toNat
        (decide (plan.pduCopySize + plan.startOffset =
          (tx.pduRetransBuffer sn).stopped.payloadSize))
        parts
        (payloadOctets octets ((tx.pduRetransBuffer sn).stopped.payload + plan.startOffset.toNat)
          plan.pduCopySize.toNat))
      plan.pduCopySize) := by
  rw [segmentOctets, ← listed]
  refine bind_eq_some_iff.mpr ⟨octets, block, ?_⟩
  refine bind_eq_some_iff.mpr ⟨info, decoded, ?_⟩
  refine bind_eq_some_iff.mpr ⟨plan, planned, ?_⟩
  exact map_eq_some_iff.mpr ⟨pdu, removed, rfl⟩

private theorem framing_inverted : ∀ notFi < 4,
    ((notFi ^^^ 3) &&& 2 = 0 ↔ notFi.testBit 1) ∧
      ((notFi ^^^ 3) &&& 1 = 0 ↔ notFi.testBit 0) := by
  decide

/-- Two octets of the range are left out exactly if the grant has no room for them or
for the indicator of an SDU that ends inside. -/
theorem stop_lt_iff {ends parts : List Nat} {start stop last size : Nat} (forward : start < stop)
    (room : 4 ≤ size) (cuts : endsFrom start parts = between ends start stop)
    (fits : stop + liSpace false parts.length ≤ start + min ((last : Int) - start + 1) (size - 4))
    (full : stop + liSpace false parts.length = start + min ((last : Int) - start + 1) (size - 4) ∨
      stop ∈ ends) :
    stop < last ↔ size < last - start + 4 ∨ between ends start last ≠ [] := by
  rw [← length_endsFrom start, cuts] at fits full
  have mem : ∀ {place stop}, place ∈ between ends start stop ↔
      place ∈ ends ∧ start < place ∧ place < stop := by simp [between]
  constructor
  · intro before
    by_contra neither
    obtain ⟨wide, none⟩ := not_or.mp neither
    have nothing := eq_nil_iff_forall_not_mem.mp (not_not.mp none)
    have uncut : between ends start stop = [] := by
      refine eq_nil_iff_forall_not_mem.mpr fun place inside => nothing place (mem.mpr ?_)
      obtain ⟨here, behind, inFront⟩ := mem.mp inside
      exact ⟨here, behind, inFront.trans before⟩
    rcases full with full | ends
    · simp only [uncut, length_nil, liSpace, Bool.false_eq_true, if_false] at full
      omega
    · exact nothing stop (mem.mpr ⟨ends, forward, before⟩)
  · rintro (short | some_)
    · omega
    · obtain ⟨place, inside⟩ := exists_mem_of_ne_nil _ some_
      obtain ⟨here, behind, before⟩ := mem.mp inside
      by_contra reached
      have := length_pos_of_mem (mem.mpr ⟨here, behind, (by omega : place < stop)⟩)
      simp only [liSpace, Bool.false_eq_true, if_false] at fits
      omega

/-- A grant of at least eight octets sends the start of the first missing range,
with a header that is right for it. The range then starts behind it exactly if the PDU
has no holes, and two octets or more of the range are left out. -/
theorem resegmentation {tx : Transmitter} {now sn size start last : Nat} {octets : List UInt8}
    {whole : PduInfo} (decodes : (tx.pduRetransBuffer sn).Decodes octets whole)
    (misses : (tx.pduRetransBuffer sn).Misses start last)
    (room : rlcAmMinSegmentSizeRequest ≤ size)
    (part : size < neededSize (endsFrom 0 whole.liList) start last ∨
      (tx.pduRetransBuffer sn).payloadSize = whole.payloadSize) :
    ∃ next segment info stop, tx.retransmitGetSubsegment now sn size = some (next, segment) ∧
      segment.length ≤ size ∧ getDataPduInfos segment = some info ∧
      info.SegmentOf whole (tx.pduRetransBuffer sn).payloadSize start stop ∧
      start < stop ∧ stop ≤ last + 1 ∧
      ((next.pduRetransBuffer sn).nackSoStart = stop ↔ (tx.pduRetransBuffer sn).holes = [] ∧
        (size < last - start + 4 ∨ between (endsFrom 0 whole.liList) start last ≠ [])) := by
  simp only [rlcAmMinSegmentSizeRequest] at room
  obtain ⟨isData, -, number, few, -, payload, payloadSize, -⟩ :=
    getDataPduInfos_fields decodes.decoded decodes.short
  have short := decodes.short
  have within := misses.within
  have sized := decodes.payloadSize
  simp only [rlcSduMaxSize] at short
  obtain ⟨plan, stop, parts, planned, cuts, fits, full⟩ := @TxPdu.planSegment_cuts
    (tx.pduRetransBuffer sn).stopped whole (size - 4) start last decodes.framed
    (by rw [TxPdu.stopped_payloadSize]; exact sized) misses.hole misses.nonempty
    (by rw [TxPdu.stopped_payloadSize]; exact within) (by omega)
  obtain ⟨startOffset, pduCopySize, forward, liList, ends, small, bits, first, final⟩ := cuts
  have left := stop_lt_iff forward (by omega) ends fits full
  have upTo : stop ≤ last + 1 := by omega
  replace fits : stop + liSpace false parts.length + 4 ≤ start + size := by omega
  clear full
  obtain ⟨other, removed, moves⟩ := misses.removed forward upTo plan
  have copied : plan.pduCopySize + plan.startOffset - 1 = stop - 1 := by omega
  rw [← copied, ← startOffset] at removed
  have sent :=
    @retransmitGetSubsegment_eq tx now sn size octets whole plan other parts decodes.block
    decodes.decoded planned liList removed
  have carried : payloadOctets octets
      ((tx.pduRetransBuffer sn).stopped.payload + plan.startOffset.toNat) plan.pduCopySize.toNat =
        (whole.payload.drop start).take (stop - start) := by
    have place : plan.startOffset.toNat = start := by omega
    have length : plan.pduCopySize.toNat = stop - start := by omega
    rw [place, length, TxPdu.stopped_payload, decodes.payload, payloadOctets_eq (by omega), payload,
      drop_drop]
  have ended : plan.pduCopySize + plan.startOffset = stop := by omega
  have extended : (if plan.liList = [] then 0 else 0x04) = if parts ≠ [] then 0x04 else 0 := by
    rw [liList]
    cases parts <;> rfl
  rw [carried, ended, extended, misses.begins, Int.toNat_natCast, TxPdu.stopped_payloadSize,
    kept_fields _ (octetAt_lt octets 0) isData] at sent
  rw [TxPdu.stopped_payloadSize] at final
  obtain ⟨next, polls, polled, kept⟩ := pduPolling_segment (tx.setPdu sn other) now
    (UInt8.ofNat (0x80 ||| (octetAt octets 0 &&& 0x03) ||| 0x40 |||
      (((plan.notFi <<< 3) ^^^ 0x18) &&& 0x18) ||| (if parts ≠ [] then 0x04 else 0)))
    (octetAt octets 1) start (decide ((stop : Int) = (tx.pduRetransBuffer sn).payloadSize)) parts
    ((whole.payload.drop start).take (stop - start)) plan.pduCopySize
  have length : ((whole.payload.drop start).take (stop - start)).length = stop - start := by
    rw [payload, length_take, length_drop, length_drop]
    omega
  have fewer : parts.length ≤ rlcAmMaxSduInPdu := by
    rw [← length_endsFrom start, ends]
    refine Nat.le_trans (length_filter_le _ _) ?_
    rwa [length_endsFrom]
  have space : liSpace false parts.length ≤ 48 := by
    simp only [rlcAmMaxSduInPdu] at fewer
    simp only [liSpace, Bool.false_eq_true, if_false]
    omega
  obtain ⟨info, decoded, rf, fi, sn_eq, lsf, so, lis, carries, carriedSize⟩ :=
    @getDataPduInfos_segment (octetAt octets 0 &&& 0x03) plan.notFi (octetAt octets 1) start
      (decide ((stop : Int) = (tx.pduRetransBuffer sn).payloadSize)) polls parts
      ((whole.payload.drop start).take (stop - start))
      (Nat.and_lt_two_pow _ (by decide : 3 < 2 ^ 2)) bits (octetAt_lt octets 1) (by omega) fewer
      small (by rw [length]; omega)
  have reached : stop < (tx.pduRetransBuffer sn).payloadSize ∨
      (tx.pduRetransBuffer sn).payloadSize = whole.payloadSize := by
    refine part.imp_left fun short => ?_
    by_contra whole_range
    obtain rfl : stop = last + 1 := by omega
    rw [neededSize, ← ends, length_endsFrom] at short
    omega
  obtain ⟨invertedFirst, invertedLast⟩ := framing_inverted plan.notFi bits
  refine ⟨next, _, info, stop, sent.trans (congrArg some polled), ?_, decoded, ?_, forward, upTo,
    ?_⟩
  · simp only [segmentOctets, length_cons, length_append, length_liOctets, length_map, length]
    omega
  · refine ⟨rf, so, sn_eq.trans number.symm, carries, by rw [carriedSize, length]; omega, ?_, ?_,
      ?_, ?_⟩
    · rw [lsf, decide_eq_true_iff]
    · rw [lis, ends]
    · rw [fi, invertedFirst, first]
    · rw [fi, invertedLast, final reached]
  · rw [kept, ← left]
    simp only [setPdu, Function.update_self]
    exact moves

def twoSdusMissing : List EntityInput :=
  [.dataReq 0 [1, 2, 3, 4, 5, 6, 7, 8, 9, 10], .dataReq 1 [11, 12, 13, 14, 15, 16, 17, 18],
    .getPdus 0 0 22 fun _ => 0, .statusPdu 1 ⟨1, [⟨0, 0, 0x7FFF⟩]⟩]

def twoSdusPdu : List UInt8 :=
  [164, 0, 0, 160, 1, 2, 3, 4, 5, 6, 7, 8, 9, 10, 11, 12, 13, 14, 15, 16, 17, 18]

/-- A grant of seventeen octets sends the first SDU and an octet of the second. -/
theorem resegmentation_two_sdus :
    ∃ tx whole next segment info stop,
      execute step (init sendingConfiguration) twoSdusMissing = some tx ∧
      getDataPduInfos twoSdusPdu = some whole ∧
      tx.retransmitGetSubsegment 1 0 17 = some (next, segment) ∧ segment.length ≤ 17 ∧
      getDataPduInfos segment = some info ∧ info.SegmentOf whole 18 0 stop ∧
      (next.pduRetransBuffer 0).nackSoStart = stop := by
  have runs : (execute step (init sendingConfiguration) twoSdusMissing).isSome := by decide +kernel
  have decodes : (getDataPduInfos twoSdusPdu).isSome := by decide +kernel
  obtain ⟨next, segment, info, stop, sent, fits, parsed, part, -, -, moved⟩ :=
    @resegmentation _ 1 0 17 0 17 twoSdusPdu _
      ⟨(rfl : (((execute step (init sendingConfiguration)
        twoSdusMissing).get runs).pduRetransBuffer 0).memBlock = some twoSdusPdu),
        (Option.some_get decodes).symm, by decide, rfl, Int.le_refl _,
        of_decide_eq_true rfl, of_decide_eq_true rfl⟩
      ⟨.of_nil rfl, rfl, rfl, by decide, of_decide_eq_true rfl⟩ (by decide)
      (Or.inl (of_decide_eq_true rfl))
  exact ⟨_, _, next, segment, info, stop, (Option.some_get runs).symm,
    (Option.some_get decodes).symm, sent, fits, parsed, part, moved.mpr ⟨rfl, .inl (by decide)⟩⟩

def Sends (inputs : List EntityInput) (size : Nat) (tx next : Transmitter) (info : PduInfo) :
    Prop :=
  ∃ segment, execute step (init sendingConfiguration) inputs = some tx ∧
    tx.retransmitGetSubsegment 1 0 size = some (next, segment) ∧
    getDataPduInfos segment = some info

theorem sends_of_check {inputs : List EntityInput} {size : Nat}
    {holds : Transmitter → Transmitter → PduInfo → Prop}
    (checked : ∃ tx, execute step (init sendingConfiguration) inputs =
        some tx ∧
      ∃ sent, tx.retransmitGetSubsegment 1 0 size = some sent ∧
      ∃ info, getDataPduInfos sent.2 = some info ∧ holds tx sent.1 info) :
    ∃ tx next info, Sends inputs size tx next info ∧ holds tx next info := by
  obtain ⟨tx, reached, ⟨next, segment⟩, sent, info, decoded, holds⟩ := checked
  exact ⟨tx, next, info, ⟨segment, reached, sent, decoded⟩, holds⟩

def rangeMissing : List EntityInput :=
  [.dataReq 0 [1, 2, 3, 4, 5, 6, 7, 8, 9, 10], .getPdus 0 0 12 fun _ => 0,
    .statusPdu 1 ⟨1, [⟨0, 2, 9⟩]⟩]

def pduMissing : List EntityInput :=
  [.dataReq 0 [1, 2, 3, 4, 5, 6, 7, 8, 9, 10], .getPdus 0 0 12 fun _ => 0,
    .statusPdu 1 ⟨1, [⟨0, 0, 0x7FFF⟩]⟩]

/-- Eight octets carry the octets 2 to 5 of the range from 2 to 9, but the range
left starts with octet 5. Thirteen octets carry all but the last octet of a
missing PDU, and the whole PDU is missing again. -/
theorem not_moved_past_segment :
    (∃ tx next info, Sends rangeMissing 8 tx next info ∧
      (tx.pduRetransBuffer 0).holes = [(2, 9)] ∧ (tx.pduRetransBuffer 0).nackSoStart = 2 ∧
      info.so = 2 ∧ info.payload = [3, 4, 5, 6] ∧
      (next.pduRetransBuffer 0).holes = [(5, 9)] ∧ (next.pduRetransBuffer 0).nackSoStart = 5) ∧
    ∃ tx next info, Sends pduMissing 13 tx next info ∧
      (tx.pduRetransBuffer 0).holes = [] ∧ (tx.pduRetransBuffer 0).nackSoStart = 0 ∧
      (tx.pduRetransBuffer 0).payloadSize = 10 ∧
      info.so = 0 ∧ info.payload = [1, 2, 3, 4, 5, 6, 7, 8, 9] ∧
      (next.pduRetransBuffer 0).nackSoStart = 0 := by
  constructor
  · exact sends_of_check (by decide +kernel)
  · exact sends_of_check (by decide +kernel)

end OpenAir.RlcAm
