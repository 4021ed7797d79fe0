import OpenAir.RlcAm.DeliveryProperties

/-! When the PDU of a sequence number is completely received, said of the octets
its stored segments cover, and that `all_segments_received` tells it. -/

set_option autoImplicit false

namespace OpenAir.RlcAm

open List Receiver

def SegmentsReceived (group : List RxPdu) : Prop :=
  ∃ last ∈ group, last.info.lsf ∧
    ∀ octet < last.info.so + last.info.payload.length, ∃ pdu ∈ group, pdu.info.Covers octet

/-- What is stored for the number is one whole PDU, or segments of which none is missing. -/
def ReceivedCompletely (buffer : List RxPdu) (sn : Nat) : Prop :=
  (∃ pdu, sameNumber sn buffer = [pdu] ∧ pdu.info.rf = false) ∨
    (∀ pdu ∈ sameNumber sn buffer, pdu.info.rf) ∧ SegmentsReceived (sameNumber sn buffer)

def PduInfo.WholeSegment (info : PduInfo) : Prop :=
  info.rf ∧ info.so = 0 ∧ info.lsf

instance wholeSegmentDecidable (info : PduInfo) : Decidable info.WholeSegment :=
  inferInstanceAs (Decidable (_ ∧ _))

/-- The check of byte segments finds out whether all are there, unless the first
one is the last one. -/
theorem SegmentGroup.allByteSegmentsReceived_iff {group : List RxPdu} (run : SegmentGroup group)
    (cut : ∀ pdu ∈ group, ¬ pdu.info.WholeSegment) :
    allByteSegmentsReceived group = true ↔ SegmentsReceived group := by
  have reaches := run.reachesLastSegment_iff fun pdu _ => Nat.zero_le pdu.info.so
  simp only [Nat.zero_le, true_implies] at reaches
  refine Iff.trans (Eq.congr ?_ rfl) reaches
  cases group with
  | nil => rfl
  | cons first rest =>
    have segment := run.segments first mem_cons_self
    by_cases atStart : first.info.so = 0
    · have notLast : first.info.lsf = false := by
        simpa [PduInfo.WholeSegment, segment, atStart] using cut first mem_cons_self
      simp [allByteSegmentsReceived, reachesLastSegment, segment, atStart, notLast]
    · simp [allByteSegmentsReceived, reachesLastSegment, segment, atStart,
        Nat.pos_of_ne_zero atStart]

section Buffer

variable {vrR sn : Nat} {buffer : List RxPdu}

theorem Orderly.flagged_iff (orderly : Orderly vrR buffer)
    (cut : ∀ pdu ∈ buffer, ¬ pdu.info.WholeSegment) {pdu : RxPdu} (mem : pdu ∈ buffer) :
    pdu.allSegmentsReceived = true ↔ ReceivedCompletely buffer pdu.info.sn := by
  rw [orderly.flags pdu mem, groupReceived]
  cases segment : pdu.info.rf with
  | false =>
    refine ⟨fun _ => .inl ⟨pdu, orderly.ordered.sameNumber_of_whole mem segment, segment⟩,
      fun _ => rfl⟩
  | true =>
    have segments := orderly.ordered.segments_of_segment mem segment
    have received := (orderly.segmentGroup segments).allByteSegmentsReceived_iff
      fun other found => cut other (mem_sameNumber.mp found).1
    rw [Bool.not_true, Bool.false_or, received]
    constructor
    · exact fun complete => .inr ⟨segments, complete⟩
    · rintro (⟨only, group, whole⟩ | ⟨_, complete⟩)
      · have : only ∈ sameNumber pdu.info.sn buffer := group ▸ mem_singleton_self only
        cases whole.symm.trans (segments only this)
      · exact complete

end Buffer

/-- The flag of every stored element tells whether its PDU is completely received. -/
def Receiver.FlagsExact (rx : Receiver) : Prop :=
  ∀ pdu ∈ rx.receiverBuffer,
    pdu.allSegmentsReceived = true ↔ ReceivedCompletely rx.receiverBuffer pdu.info.sn

/-- The input does not bring all of a PDU as one segment. -/
def RxInput.Cut (input : RxInput) : Prop :=
  ∀ info, input.Brings info → ¬ info.WholeSegment

instance cutDecidable (input : RxInput) : Decidable input.Cut :=
  match input with
  | .dataPdu _ octets =>
    decidable_of_iff (∀ info ∈ getDataPduInfos octets, ¬ info.WholeSegment) Iff.rfl
  | .timerCheck _ => .isTrue fun _ brings => brings.elim

theorem Receiver.InOrder.cut_run {rx : Receiver} (inOrder : rx.InOrder)
    {inputs : List RxInput} (wellFormed : ∀ input ∈ inputs, input.WellFormed)
    (checked : Along InsertionChecked rx inputs) (cut : ∀ input ∈ inputs, input.Cut)
    (held : ∀ pdu ∈ rx.receiverBuffer, ¬ pdu.info.WholeSegment) :
    ∀ pdu ∈ (rx.run inputs).receiverBuffer, ¬ pdu.info.WholeSegment := by
  induction inputs generalizing rx with
  | nil => exact held
  | cons input rest ih =>
    have first := wellFormed input mem_cons_self
    refine ih (inOrder.step first checked.1) ?_ checked.2 ?_ ?_
    · exact fun other mem => wellFormed other (mem_cons_of_mem _ mem)
    · exact fun other mem => cut other (mem_cons_of_mem _ mem)
    · exact inOrder.infos_step first checked.1 held (cut input mem_cons_self)

theorem completeness_flag_exact (msDuration : Nat) (inputs : List RxInput)
    (wellFormed : ∀ input ∈ inputs, input.WellFormed)
    (checked : Along InsertionChecked (init msDuration) inputs)
    (cut : ∀ input ∈ inputs, input.Cut) :
    ((init msDuration).run inputs).FlagsExact := by
  have inOrder := (inOrder_init msDuration).run wellFormed checked
  have held := (inOrder_init msDuration).cut_run wellFormed checked cut
    nofun
  exact fun pdu mem => inOrder.buffer.flagged_iff held mem

/-- Both segments of PDU 1 arrive while PDU 0 is awaited, and the first of PDU 2. -/
def bufferedSegments : List RxInput :=
  [.dataPdu 0 (lastSegment 1), .dataPdu 1 (firstSegment 1), .dataPdu 2 (firstSegment 2)]

theorem completeness_flag_buffered_segments :
    (((init 10).run bufferedSegments).receiverBuffer.map fun pdu =>
        (pdu.info.sn, pdu.allSegmentsReceived)) = [(1, true), (1, true), (2, false)] ∧
      ((init 10).run bufferedSegments).FlagsExact := by
  refine ⟨by decide +kernel,
    completeness_flag_exact 10 bufferedSegments (by decide +kernel) ?_ (by decide +kernel)⟩
  exact ⟨insertionChecked_of_unwrapped (by decide +kernel),
    insertionChecked_of_unwrapped (by decide +kernel),
    insertionChecked_of_unwrapped (by decide +kernel), trivial⟩

def onlySegment (sn : Nat) : List UInt8 :=
  [UInt8.ofNat (0xC0 + sn / 256), UInt8.ofNat (sn % 256), 0x80, 0, 1, 2, 3]

/-- The check looks for the last segment only behind the first one. -/
theorem only_segment_not_flagged :
    (RxInput.dataPdu 0 (onlySegment 0)).WellFormed ∧
      ¬ ((init 10).run [.dataPdu 0 (onlySegment 0)]).FlagsExact := by
  let stored : RxPdu := ⟨(getDataPduInfos (onlySegment 0)).getD (wholeInfo 0), false⟩
  have buffer : ((init 10).run [.dataPdu 0 (onlySegment 0)]).receiverBuffer = [stored] := by
    decide +kernel
  refine ⟨by decide +kernel, fun exactly => ?_⟩
  rw [FlagsExact, buffer] at exactly
  have received : ReceivedCompletely [stored] stored.info.sn := by
    refine .inr ⟨by decide +kernel, stored, by decide +kernel, by decide +kernel, ?_⟩
    decide +kernel
  exact absurd ((exactly stored (mem_singleton_self _)).mpr received) (by decide +kernel)

end OpenAir.RlcAm
