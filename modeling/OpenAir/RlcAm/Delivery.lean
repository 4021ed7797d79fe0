import Mathlib.Tactic.MkIffOfInductiveProp
import OpenAir.Base.Runs
import OpenAir.RlcAm.InsertionProperties
import OpenAir.RlcAm.Receiver

/-! The abstract reading of the receiver buffer: a sequence of AMD PDUs, of
which the buffer holds whole PDUs and byte segments, and a position in the
concatenation of their payloads up to which everything has been handed over. -/

set_option autoImplicit false

namespace OpenAir.RlcAm

open List PduInfo

/-- An AMD PDU as its sender built it: payload and framing. -/
structure AmdPdu where
  payload : List UInt8
  fi : Nat
  liList : List Nat

/-- `info` is PDU `index` of the sequence, or a non-empty byte segment of it. -/
@[mk_iff]
structure IsPart (pdus : Nat → AmdPdu) (index : Nat) (info : PduInfo) : Prop where
  sn : info.sn = index % rlcAmSnModulo
  nonempty : info.payload ≠ []
  slice : info.payload = ((pdus index).payload.drop info.so).take info.payload.length
  whole : info.rf = false → info.so = 0 ∧ info.payload = (pdus index).payload ∧
    info.fi = (pdus index).fi ∧ info.liList = (pdus index).liList
  last : info.rf →
    (info.lsf = true ↔ info.so + info.payload.length = (pdus index).payload.length)

def PduInfo.endsPdu (info : PduInfo) : Bool := !info.rf || info.lsf

/-- The PDUs handed over read the sequence from its start, without a gap or a
repetition, up to octet `offset` of PDU `index`. -/
inductive HandedUpTo (pdus : Nat → AmdPdu) : List PduInfo → Nat → Nat → Prop where
  | start : HandedUpTo pdus [] 0 0
  | segment {handed : List PduInfo} {index offset : Nat} {info : PduInfo}
      (earlier : HandedUpTo pdus handed index offset) (part : IsPart pdus index info)
      (starts : info.so = offset) (open_ : info.endsPdu = false) :
      HandedUpTo pdus (handed ++ [info]) index (offset + info.payload.length)
  | ending {handed : List PduInfo} {index offset : Nat} {info : PduInfo}
      (earlier : HandedUpTo pdus handed index offset) (part : IsPart pdus index info)
      (starts : info.so = offset) (ends : info.endsPdu) :
      HandedUpTo pdus (handed ++ [info]) (index + 1) 0

def located (index offset : Nat) (octets : List UInt8) : List (Nat × Nat × UInt8) :=
  (octets.zipIdx offset).map fun (octet, pos) => (index, pos, octet)

/-- Every octet of the first `count` PDUs, once and in order. -/
def stream (pdus : Nat → AmdPdu) (count : Nat) : List (Nat × Nat × UInt8) :=
  (List.range count).flatMap fun index => located index 0 (pdus index).payload

variable {left pdu right : RxPdu} {info : PduInfo} {handed : List PduInfo}

variable {pdus : Nat → AmdPdu} {index offset base : Nat} {head : RxPdu} {rest : List RxPdu}

section

variable (part : IsPart pdus index info)

include part

theorem IsPart.length_pos : 0 < info.payload.length :=
  length_pos_of_ne_nil part.nonempty

theorem IsPart.within : info.so + info.payload.length ≤ (pdus index).payload.length := by
  have measured := congrArg List.length part.slice
  have positive := part.length_pos
  rw [length_take, length_drop] at measured
  omega

theorem IsPart.endsPdu_iff :
    info.endsPdu = true ↔ info.so + info.payload.length = (pdus index).payload.length := by
  cases segment : info.rf with
  | false =>
    obtain ⟨offset, payload, _, _⟩ := part.whole segment
    simp [endsPdu, segment, offset, payload]
  | true => simpa [endsPdu, segment] using part.last segment

end

private theorem located_append (index offset : Nat) (front back : List UInt8) :
    located index offset (front ++ back) =
      located index offset front ++ located index (offset + front.length) back := by
  simp only [located, zipIdx_append, map_append]

private theorem IsPart.take_append (part : IsPart pdus index info) :
    (pdus index).payload.take (info.so + info.payload.length) =
      (pdus index).payload.take info.so ++ info.payload := by
  rw [take_add, ← part.slice]

private theorem stream_succ (pdus : Nat → AmdPdu) (count : Nat) :
    stream pdus (count + 1) = stream pdus count ++ located count 0 (pdus count).payload := by
  simp [stream, range_succ]

/-- A reading of the sequence assigns each handed PDU its index, and the octets
it hands over are those of the sequence up to its position. -/
theorem HandedUpTo.octets (reading : HandedUpTo pdus handed index offset) :
    ∃ indices : List Nat, List.Forall₂ (IsPart pdus) indices handed ∧
      (indices.zip handed).flatMap (fun (index, info) => located index info.so info.payload) =
        stream pdus index ++ located index 0 ((pdus index).payload.take offset) := by
  induction reading with
  | start => exact ⟨[], .nil, by simp [stream, located]⟩
  | @segment handed index offset info earlier part starts notLast ih =>
    obtain ⟨indices, parts, read⟩ := ih
    refine ⟨indices ++ [index], rel_append parts (.cons part .nil), ?_⟩
    have taken : min info.so (pdus index).payload.length = info.so :=
      Nat.min_eq_left (by have := part.within; omega)
    rw [zip_append parts.length_eq, flatMap_append, read, ← starts, part.take_append,
      located_append]
    simp [taken]
  | @ending handed index offset info earlier part starts ends ih =>
    obtain ⟨indices, parts, read⟩ := ih
    refine ⟨indices ++ [index], rel_append parts (.cons part .nil), ?_⟩
    have taken : min info.so (pdus index).payload.length = info.so :=
      Nat.min_eq_left (by have := part.within; omega)
    have complete := part.take_append
    rw [part.endsPdu_iff.mp ends, take_length] at complete
    have rest : located index 0 (pdus index).payload =
        located index 0 ((pdus index).payload.take info.so) ++
          located index info.so info.payload := by
      conv_lhs => rw [complete, located_append]
      simp [taken]
    rw [zip_append parts.length_eq, flatMap_append, read, stream_succ, ← starts, rest]
    simp [located]

theorem HandedUpTo.count (reading : HandedUpTo pdus handed index offset) :
    handed.countP endsPdu = index := by
  induction reading with
  | start => rfl
  | segment earlier part starts notLast ih => simp [ih, notLast]
  | ending earlier part starts ends ih => simp [ih, ends]

def indexFrom (base : Nat) (pdu : RxPdu) : Nat :=
  base + shiftedSn (base % rlcAmSnModulo) pdu.info.sn

def Tiles (size : Nat) : Nat → List RxPdu → Prop
  | offset, [] => offset = size
  | offset, pdu :: rest =>
    pdu.info.so = offset ∧ Tiles size (offset + pdu.info.payload.length) rest

/-- The buffer holds parts of the PDUs from octet `offset` of PDU `index` on,
in order; a PDU is flagged as a whole, and only if nothing of it is missing. -/
structure Pending (pdus : Nat → AmdPdu) (base index offset : Nat) (buffer : List RxPdu) :
    Prop where
  parts : ∀ pdu ∈ buffer, IsPart pdus (indexFrom base pdu) pdu.info
  reach : ∀ pdu ∈ buffer, index ≤ indexFrom base pdu ∧ indexFrom base pdu < base + rlcAmWindowSize
  ordered : Ordered (base % rlcAmSnModulo) buffer
  alike : ∀ pdu ∈ buffer, pdu.allSegmentsReceived →
    ∀ other ∈ buffer, other.info.sn = pdu.info.sn → other.allSegmentsReceived
  tiled : ∀ pdu ∈ buffer, pdu.allSegmentsReceived →
    Tiles (pdus (indexFrom base pdu)).payload.length
      (if indexFrom base pdu = index then offset else 0)
      (buffer.filter fun other => decide (other.info.sn = pdu.info.sn))
  started : 0 < offset → ∃ pdu ∈ buffer, indexFrom base pdu = index ∧
    pdu.allSegmentsReceived

theorem indexFrom_eq_of_sn (same : left.info.sn = right.info.sn) :
    indexFrom base left = indexFrom base right := by
  simp only [indexFrom, same]

theorem IsPart.sn_eq_of_index (leftPart : IsPart pdus (indexFrom base left) left.info)
    (rightPart : IsPart pdus (indexFrom base right) right.info)
    (same : indexFrom base left = indexFrom base right) : left.info.sn = right.info.sn := by
  rw [leftPart.sn, rightPart.sn, same]

theorem Pending.head_lowest (pending : Pending pdus base index offset (head :: rest))
    (mem : pdu ∈ head :: rest) : indexFrom base head ≤ indexFrom base pdu := by
  cases mem_cons.mp mem with
  | inl same => rw [same]
  | inr later =>
    cases (pairwise_cons.mp pending.ordered).1 pdu later with
    | inl nearer =>
      unfold indexFrom
      omega
    | inr same => exact (indexFrom_eq_of_sn same.1).le

private theorem Tiles.nil_of_end (pdus : Nat → AmdPdu) (base : Nat) {size : Nat}
    {group : List RxPdu} (tiled : Tiles size size group)
    (within : ∀ pdu ∈ group, IsPart pdus (indexFrom base pdu) pdu.info ∧
      (pdus (indexFrom base pdu)).payload.length = size) : group = [] := by
  cases group with
  | nil => rfl
  | cons pdu rest =>
    obtain ⟨part, sameSize⟩ := within pdu mem_cons_self
    have := part.within
    have := part.length_pos
    have := tiled.1
    omega

section HeadRemoval

variable {pdus : Nat → AmdPdu} {base index offset : Nat} {head : RxPdu} {rest : List RxPdu}

variable (pending : Pending pdus base index offset (head :: rest))

include pending

private theorem Pending.head_tiles (first : indexFrom base head = index)
    (flagged : head.allSegmentsReceived) :
    head.info.so = offset ∧
      Tiles (pdus index).payload.length (offset + head.info.payload.length)
        (rest.filter fun other => decide (other.info.sn = head.info.sn)) := by
  have tiled := pending.tiled head mem_cons_self flagged
  rw [first, if_pos rfl, filter_cons_of_pos (by simp)] at tiled
  exact tiled

private theorem Pending.tail {next pos : Nat} (reach : ∀ pdu ∈ rest, next ≤ indexFrom base pdu)
    (tiled : ∀ pdu ∈ rest, pdu.allSegmentsReceived →
      Tiles (pdus (indexFrom base pdu)).payload.length
        (if indexFrom base pdu = next then pos else 0)
        (rest.filter fun other => decide (other.info.sn = pdu.info.sn)))
    (started : 0 < pos → ∃ pdu ∈ rest, indexFrom base pdu = next ∧
      pdu.allSegmentsReceived) : Pending pdus base next pos rest where
  parts pdu mem := pending.parts pdu (mem_cons_of_mem _ mem)
  reach pdu mem := ⟨reach pdu mem, (pending.reach pdu (mem_cons_of_mem _ mem)).2⟩
  ordered := (pairwise_cons.mp pending.ordered).2
  alike pdu mem flagged other otherMember :=
    pending.alike pdu (mem_cons_of_mem _ mem) flagged other
      (mem_cons_of_mem _ otherMember)
  tiled := tiled
  started := started

private theorem Pending.tiles_other (first : indexFrom base head = index) (mem : pdu ∈ rest)
    (flagged : pdu.allSegmentsReceived) (other : indexFrom base pdu ≠ index) :
    Tiles (pdus (indexFrom base pdu)).payload.length 0
      (rest.filter fun other => decide (other.info.sn = pdu.info.sn)) := by
  have tiled := pending.tiled pdu (mem_cons_of_mem _ mem) flagged
  have differs : head.info.sn ≠ pdu.info.sn := by
    intro same
    exact other ((indexFrom_eq_of_sn same).symm.trans first)
  rw [if_neg other, filter_cons_of_neg (by simpa using differs)] at tiled
  exact tiled

private theorem Pending.after_segment (first : indexFrom base head = index)
    (flagged : head.allSegmentsReceived) (notLast : head.info.endsPdu = false) :
    Pending pdus base index (offset + head.info.payload.length) rest := by
  obtain ⟨starts, tiles⟩ := pending.head_tiles first flagged
  have part := first ▸ pending.parts head mem_cons_self
  refine pending.tail (fun pdu mem => (pending.reach pdu (mem_cons_of_mem _ mem)).1)
    ?_ ?_
  · intro pdu mem pduFlagged
    by_cases same : indexFrom base pdu = index
    · have sameSn := IsPart.sn_eq_of_index (pending.parts pdu (mem_cons_of_mem _ mem))
        (pending.parts head mem_cons_self) (same.trans first.symm)
      rw [if_pos same, sameSn, same]
      exact tiles
    · rw [if_neg same]
      exact pending.tiles_other first mem pduFlagged same
  · intro _
    cases group : rest.filter fun other => decide (other.info.sn = head.info.sn) with
    | nil =>
      rw [group] at tiles
      exact absurd (part.endsPdu_iff.mpr (by rw [starts]; exact tiles)) (by simp [notLast])
    | cons pdu others =>
      have mem : pdu ∈ rest.filter fun other => decide (other.info.sn = head.info.sn) := by
        simp [group]
      obtain ⟨inRest, same⟩ := mem_filter.mp mem
      have sameSn : pdu.info.sn = head.info.sn := by simpa using same
      exact ⟨pdu, inRest, (indexFrom_eq_of_sn sameSn).trans first,
        pending.alike head mem_cons_self flagged pdu (mem_cons_of_mem _ inRest) sameSn⟩

private theorem Pending.after_end (first : indexFrom base head = index)
    (flagged : head.allSegmentsReceived) (ends : head.info.endsPdu) :
    Pending pdus base (index + 1) 0 rest := by
  obtain ⟨starts, tiles⟩ := pending.head_tiles first flagged
  have part := first ▸ pending.parts head mem_cons_self
  rw [← starts, part.endsPdu_iff.mp ends] at tiles
  have noneLeft := Tiles.nil_of_end pdus base tiles (by
    intro pdu mem
    obtain ⟨inRest, same⟩ := mem_filter.mp mem
    have sameSn : pdu.info.sn = head.info.sn := by simpa using same
    refine ⟨pending.parts pdu (mem_cons_of_mem _ inRest), ?_⟩
    rw [indexFrom_eq_of_sn sameSn, first])
  have later : ∀ pdu ∈ rest, indexFrom base pdu ≠ index := by
    intro pdu mem same
    have sameSn := IsPart.sn_eq_of_index (pending.parts pdu (mem_cons_of_mem _ mem))
      (pending.parts head mem_cons_self) (same.trans first.symm)
    have := filter_eq_nil_iff.mp noneLeft pdu mem
    simp [sameSn] at this
  refine pending.tail ?_ ?_ (by omega)
  · intro pdu mem
    have := (pending.reach pdu (mem_cons_of_mem _ mem)).1
    have := later pdu mem
    omega
  · intro pdu mem pduFlagged
    rw [ite_self]
    exact pending.tiles_other first mem pduFlagged (later pdu mem)

end HeadRemoval

private theorem rxUpdateVrR_flagged {vrR : Nat} (rest : List RxPdu)
    (flagged : head.allSegmentsReceived) (atHead : head.info.sn = vrR) :
    rxUpdateVrR vrR (head :: rest) =
      rxUpdateVrR (if head.info.endsPdu then nextSn vrR else vrR) rest := by
  cases segment : head.info.rf with
  | false => simp [rxUpdateVrR, flagged, atHead, segment, endsPdu]
  | true =>
    cases last : head.info.lsf with
    | false => simp [rxUpdateVrR, flagged, atHead, segment, last, endsPdu]
    | true => simp [rxUpdateVrR, flagged, atHead, segment, last, endsPdu]

private theorem nextSn_index (index : Nat) :
    nextSn (index % rlcAmSnModulo) = (index + 1) % rlcAmSnModulo := by
  simp only [nextSn, rlcAmSnModulo]
  omega

/-- What a pass of `rlc_am_rx_list_reassemble_rlc_sdus` achieves, `next` being
the PDU that VR(R) stands for afterwards. -/
structure HandedOver (pdus : Nat → AmdPdu) (base index : Nat) (handed : List PduInfo)
    (buffer : List RxPdu) (next : Nat) : Prop where
  advanced : index ≤ next
  reading : HandedUpTo pdus
    (handed ++ (rxListReassembleRlcSdus buffer).1.map RxPdu.info) next 0
  pending : Pending pdus base next 0 (rxListReassembleRlcSdus buffer).2
  vrR : rxUpdateVrR (index % rlcAmSnModulo) buffer = next % rlcAmSnModulo

private theorem reassemble_continues (flagged : head.allSegmentsReceived)
    (continues : ∀ next ∈ rest.head?, next.info.sn = nextSn head.info.sn ∨
      (next.info.sn = head.info.sn ∧ next.allSegmentsReceived)) :
    rxListReassembleRlcSdus (head :: rest) =
      (head :: (rxListReassembleRlcSdus rest).1, (rxListReassembleRlcSdus rest).2) := by
  cases rest with
  | nil => simp [rxListReassembleRlcSdus, flagged]
  | cons next others =>
    rw [rxListReassembleRlcSdus, if_pos flagged]
    exact if_pos (continues next rfl)

private theorem HandedOver.cons {following next : Nat} {handed : List PduInfo}
    (flagged : head.allSegmentsReceived)
    (continues : ∀ next ∈ rest.head?, next.info.sn = nextSn head.info.sn ∨
      (next.info.sn = head.info.sn ∧ next.allSegmentsReceived))
    (notBehind : index ≤ following) (walk : rxUpdateVrR (index % rlcAmSnModulo) (head :: rest) =
      rxUpdateVrR (following % rlcAmSnModulo) rest)
    (passed : HandedOver pdus base following (handed ++ [head.info]) rest next) :
    HandedOver pdus base index handed (head :: rest) next := by
  have step := reassemble_continues flagged continues
  refine ⟨notBehind.trans passed.advanced, ?_, ?_, walk.trans passed.vrR⟩
  · simpa [step] using passed.reading
  · simpa [step] using passed.pending

theorem Pending.handOver {buffer : List RxPdu} (notBehind : base ≤ index)
    (pending : Pending pdus base index offset buffer)
    (reading : HandedUpTo pdus handed index offset)
    (atHead : ∀ pdu ∈ buffer.head?, indexFrom base pdu = index) :
    ∃ next, HandedOver pdus base index handed buffer next := by
  induction buffer generalizing index offset handed with
  | nil =>
    have atStart : offset = 0 := by
      by_contra inside
      obtain ⟨pdu, mem, _⟩ := pending.started (Nat.pos_of_ne_zero inside)
      cases mem
    subst atStart
    exact ⟨index, le_rfl, by simpa [rxListReassembleRlcSdus] using reading, pending, rfl⟩
  | cons head rest ih =>
    have first := atHead head rfl
    have part := first ▸ pending.parts head mem_cons_self
    cases flagged : head.allSegmentsReceived with
    | false =>
      have atStart : offset = 0 := by
        by_contra inside
        obtain ⟨pdu, mem, same, set⟩ := pending.started (Nat.pos_of_ne_zero inside)
        have sameSn := IsPart.sn_eq_of_index (pending.parts head mem_cons_self)
          (pending.parts pdu mem) (first.trans same.symm)
        have := pending.alike pdu mem set head mem_cons_self sameSn
        simp [flagged] at this
      subst atStart
      have keeps : rxListReassembleRlcSdus (head :: rest) = ([], head :: rest) := by
        simp [rxListReassembleRlcSdus, flagged]
      refine ⟨index, le_rfl, ?_, ?_, ?_⟩
      · simpa [keeps] using reading
      · simpa [keeps] using pending
      · simp [rxUpdateVrR, flagged]
    | true =>
      obtain ⟨starts, _⟩ := pending.head_tiles first flagged
      have walk := rxUpdateVrR_flagged rest flagged part.sn
      cases ends : head.info.endsPdu with
      | false =>
        have following := pending.after_segment first flagged ends
        have reached := HandedUpTo.segment reading part starts ends
        have nextHead : ∀ next ∈ rest.head?, indexFrom base next = index := by
          intro next mem
          obtain ⟨others, rfl⟩ := head?_eq_some_iff.mp mem
          obtain ⟨pdu, inRest, same, _⟩ := following.started
            (by have := part.length_pos; omega)
          have := following.head_lowest inRest
          have := (following.reach next mem_cons_self).1
          omega
        obtain ⟨next, passed⟩ := ih notBehind following reached nextHead
        refine ⟨next, passed.cons flagged ?_ le_rfl (by simpa [ends] using walk)⟩
        intro pdu mem
        have inRest := mem_cons_of_mem head (mem_of_mem_head? mem)
        have sameSn := IsPart.sn_eq_of_index (pending.parts pdu inRest)
          (pending.parts head mem_cons_self) ((nextHead pdu mem).trans first.symm)
        exact .inr ⟨sameSn, pending.alike head mem_cons_self flagged pdu inRest sameSn⟩
      | true =>
        have following := pending.after_end first flagged ends
        have reached := HandedUpTo.ending reading part starts ends
        rw [ends, if_pos rfl, nextSn_index] at walk
        by_cases nextHead : ∀ next ∈ rest.head?, indexFrom base next = index + 1
        · obtain ⟨next, passed⟩ := ih (by omega) following reached nextHead
          refine ⟨next, passed.cons flagged ?_ (by omega) walk⟩
          intro pdu mem
          have pduPart := pending.parts pdu (mem_cons_of_mem _ (mem_of_mem_head? mem))
          rw [nextHead pdu mem] at pduPart
          exact .inl (by rw [pduPart.sn, part.sn, nextSn_index])
        · push Not at nextHead
          obtain ⟨next, mem, ahead⟩ := nextHead
          obtain ⟨others, rfl⟩ := head?_eq_some_iff.mp mem
          have nextPart := following.parts next mem_cons_self
          have nextReach := following.reach next mem_cons_self
          have notNext : next.info.sn ≠ (index + 1) % rlcAmSnModulo := by
            rw [nextPart.sn]
            simp only [rlcAmSnModulo, rlcAmWindowSize] at *
            omega
          have notSame : next.info.sn ≠ head.info.sn := by
            rw [nextPart.sn, part.sn]
            simp only [rlcAmSnModulo, rlcAmWindowSize] at *
            omega
          have stops : rxListReassembleRlcSdus (head :: next :: others) =
              ([head], next :: others) := by
            rw [rxListReassembleRlcSdus, if_pos flagged]
            refine if_neg ?_
            rw [part.sn, nextSn_index, ← part.sn]
            exact fun continues => continues.elim notNext fun same => notSame same.1
          refine ⟨index + 1, by omega, ?_, ?_, ?_⟩
          · simpa [stops] using reached
          · simpa [stops] using following
          · rw [walk, rxUpdateVrR, if_pos (.inr notNext.symm)]

end OpenAir.RlcAm
