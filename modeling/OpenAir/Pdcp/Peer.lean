import OpenAir.Pdcp.DataPath
import OpenAir.Pdcp.TransmitCountProperties

/-! The transmitting peer of a bearer: the PDU and the COUNT of each SDU it is
given, obtained by running `pdcp_data_req` from a fresh entity. -/

set_option autoImplicit false

namespace OpenAir.Pdcp

open List Nat

/-- A bearer's transmitter and everything it will be asked to send. -/
structure Sender where
  env : Environment
  srbFlag : Bool
  rbId : Nat
  mode : TransmissionMode
  entity : Entity
  sdu : Nat → List UInt8
  mui : Nat → Nat
  confirm : Nat → Nat

def Sender.request (sender : Sender) (index : Nat) (found : Option Entity) :
    Except Fault Outcome :=
  dataReq sender.env sender.srbFlag sender.rbId (sender.mui index) (sender.confirm index)
    (sender.sdu index) sender.mode found

def Sender.entityAfter (sender : Sender) : Nat → Except Fault (Option Entity)
  | 0 => .ok (some sender.entity)
  | index + 1 =>
    match sender.entityAfter index with
    | .error fault => .error fault
    | .ok found =>
      match sender.request index found with
      | .error fault => .error fault
      | .ok outcome => .ok outcome.entity

def Sender.transmission (sender : Sender) (index : Nat) : Except Fault Outcome :=
  match sender.entityAfter index with
  | .error fault => .error fault
  | .ok found => sender.request index found

def Event.rlcPdu? : Event → Option (List UInt8)
  | .rlcDataReq _ _ _ _ pdu => some pdu
  | _ => none

def Outcome.sentPdu? (outcome : Outcome) : Option (List UInt8) :=
  outcome.events.findSome? Event.rlcPdu?

/-- A fresh, protected bearer with the widths that COUNT construction assumes,
whose SDUs are all acceptable to `pdcp_data_req`. -/
structure Sender.Protecting (sender : Sender) : Prop where
  numbered : sender.mode ≠ .transparent
  accepted : rbIdAccepted sender.env sender.mode sender.srbFlag sender.rbId
  sized : sender.entity.seqNumSize = countSnBits sender.srbFlag
  sn : sender.entity.nextPdcpTxSn = 0
  hfn : sender.entity.txHfn = 0
  secured : securityRequested sender.entity
  nonempty : ∀ index, sender.sdu index ≠ []
  bounded : ∀ index, (sender.sdu index).length ≤ sender.env.maxIpPacketSize
  memory : ∀ index, sender.env.memBlockFree
    (pduSize sender.srbFlag (sender.sdu index).length)

variable {left pdu right : List UInt8} {index sn : Nat} {sender : Sender} {srbFlag : Bool}
  {pdcp : Entity}

theorem Sender.Protecting.fresh (protecting : sender.Protecting) :
    TransmitFresh sender.entity :=
  ⟨sizeValid_of_countSnBits protecting.sized, protecting.sn, protecting.hfn⟩

/-! Overwriting part of a buffer keeps what stands before it. -/

theorem overwriteAt_take {buffer octets : List UInt8} {offset kept : Nat}
    (before : kept ≤ offset) (inside : offset ≤ buffer.length) :
    (overwriteAt buffer offset octets).take kept = buffer.take kept := by
  have short : kept ≤ (buffer.take offset).length := by
    rw [length_take]
    omega
  rw [overwriteAt, append_assoc, take_append_of_le_length short, take_take, min_eq_left before]

theorem le_length_overwriteAt (buffer octets : List UInt8) (offset : Nat) :
    buffer.length ≤ (overwriteAt buffer offset octets).length := by
  simp only [overwriteAt, length_append, length_take, length_drop]
  omega

theorem applySecurity_returns (ops : StreamOps) (pdcp : Entity) (srbFlag : Bool)
    {rbId headerLen : Nat} (known : rbId < nbRbMax) (sn : Nat) {size : Nat}
    (fits : headerLen + size ≤ pdu.length) :
    ∃ protectedPdu events,
      applySecurity ops pdcp srbFlag rbId headerLen sn pdu size = .ok (protectedPdu, events) ∧
      protectedPdu.take headerLen = pdu.take headerLen ∧
      pdu.length ≤ protectedPdu.length ∧
      usedCounts events =
        List.replicate (if srbFlag then 2 else 1) (getNextCountTx pdcp srbFlag sn) ∧
      events.findSome? Event.rlcPdu? = none := by
  cases srbFlag with
  | true =>
    refine ⟨_, _, by rw [applySecurity, if_neg (not_not.mpr known)], ?_, ?_, rfl, rfl⟩
    · simp only [↓reduceIte]
      rw [overwriteAt_take le_rfl ((by omega : headerLen ≤ pdu.length).trans
        (le_length_overwriteAt _ _ _)), overwriteAt_take (by omega) fits]
    · exact (le_length_overwriteAt _ _ _).trans (le_length_overwriteAt _ _ _)
  | false =>
    refine ⟨_, _, by rw [applySecurity, if_neg (not_not.mpr known)], ?_, ?_, rfl, rfl⟩
    · exact overwriteAt_take le_rfl (by
        simp only [Bool.false_eq_true, ↓reduceIte]
        omega)
    · exact le_length_overwriteAt _ _ _

def headerSn (srbFlag : Bool) (pdu : List UInt8) : Nat :=
  if srbFlag then getSequenceNumberOfPduWithSrbSn pdu else getSequenceNumberOfPduWithLongSn pdu

theorem getD_of_take_eq {length : Nat} (same : left.take length = right.take length)
    (inside : index < length) :
    left.getD index 0 = right.getD index 0 := by
  rw [getD_eq_getElem?_getD, getD_eq_getElem?_getD,
    ← getElem?_take_of_lt inside, same, getElem?_take_of_lt inside]

theorem headerSn_of_take_eq
    (same : left.take (requestHeaderLen srbFlag) = right.take (requestHeaderLen srbFlag)) :
    headerSn srbFlag left = headerSn srbFlag right := by
  cases srbFlag with
  | true =>
    have first := getD_of_take_eq same (by decide : 0 < _)
    simp only [headerSn, ↓reduceIte, getSequenceNumberOfPduWithSrbSn, first]
  | false =>
    have first := getD_of_take_eq same (by decide : 0 < _)
    have second := getD_of_take_eq same (by decide : 1 < _)
    simp only [headerSn, Bool.false_eq_true, ↓reduceIte, getSequenceNumberOfPduWithLongSn,
      first, second]

theorem srb_header_round_trip (bounded : sn < 2 ^ 5) (rest : List UInt8) :
    getSequenceNumberOfPduWithSrbSn (serializeControlPlaneDataPduWithSrbSn sn ++ rest) = sn := by
  have table : ∀ sn < 2 ^ 5, (UInt8.ofNat (sn &&& 0x1F)).toNat &&& 0x1F = sn := by decide
  exact table sn bounded

theorem long_header_round_trip (bounded : sn < 2 ^ 12) (dc : Bool) (rest : List UInt8) :
    getSequenceNumberOfPduWithLongSn
      (serializeUserPlaneDataPduWithLongSn dc sn ++ rest) = sn := by
  have high : ∀ high < 2 ^ 4, ∀ dc : Bool,
      (if dc then UInt8.ofNat (high &&& 0xFF) ||| 0x80 else UInt8.ofNat (high &&& 0xFF)).toNat
        &&& 0x0F = high := by decide
  have upper : sn >>> 8 < 2 ^ 4 := by
    omega
  have masked : sn &&& 0xFF = sn % 2 ^ 8 := and_two_pow_sub_one_eq_mod sn 8
  have lower : sn % 2 ^ 8 < 2 ^ 8 := mod_lt _ (by decide)
  have low : (UInt8.ofNat (sn % 2 ^ 8)).toNat &&& 0xFF = sn % 2 ^ 8 := by
    have stored : (UInt8.ofNat (sn % 2 ^ 8)).toNat = sn % 2 ^ 8 := UInt8.toNat_ofNat_of_lt lower
    have mask := and_two_pow_sub_one_eq_mod (sn % 2 ^ 8) 8
    rw [stored, mask, mod_mod]
  simp only [getSequenceNumberOfPduWithLongSn, serializeUserPlaneDataPduWithLongSn,
    cons_append, nil_append, getD_cons_zero, getD_cons_succ, masked,
    high _ upper dc, low]
  rw [← shiftLeft_add_eq_or_of_lt lower]
  omega

theorem buildDataPdu_index (fresh : TransmitFresh pdcp)
    (sized : pdcp.seqNumSize = countSnBits srbFlag) (mode : TransmissionMode) (sdu : List UInt8)
    (index : Nat) :
    ∃ pdu, buildDataPdu (afterNumbering pdcp index) srbFlag mode sdu =
        (index % 2 ^ countSnBits srbFlag, afterNumbering pdcp (index + 1), pdu) ∧
      headerSn srbFlag pdu = index % 2 ^ countSnBits srbFlag ∧
      pdu.length = requestHeaderLen srbFlag + sdu.length + requestTailerLen srbFlag := by
  have sn : (getNextTxSeqNumber (afterNumbering pdcp index)).1 =
      index % 2 ^ countSnBits srbFlag := sized ▸ transmitSn_eq fresh index
  cases srbFlag with
  | true =>
    have narrow : index % 2 ^ 5 < 2 ^ 5 := mod_lt _ (by decide)
    have octet : index % 2 ^ 5 % 2 ^ 8 = index % 2 ^ 5 := mod_eq_of_lt (by omega)
    refine ⟨serializeControlPlaneDataPduWithSrbSn (index % 2 ^ 5) ++ sdu ++
      List.replicate controlPlaneDataPduMacISize 0, ?_, ?_, ?_⟩
    · simp only [buildDataPdu, ↓reduceIte, sn, countSnBits, octet]
      rfl
    · exact srb_header_round_trip narrow _
    · simp only [serializeControlPlaneDataPduWithSrbSn, requestHeaderLen, requestTailerLen,
        length_append, length_singleton, length_replicate, ↓reduceIte,
        controlPlaneDataPduSnSize]
  | false =>
    have narrow : index % 2 ^ 12 < 2 ^ 12 := mod_lt _ (by decide)
    refine ⟨serializeUserPlaneDataPduWithLongSn (mode = .data) (index % 2 ^ 12) ++ sdu, ?_, ?_, ?_⟩
    · simp only [buildDataPdu, Bool.false_eq_true, ↓reduceIte, sn, countSnBits]
      rfl
    · exact long_header_round_trip narrow _ _
    · rw [length_append]
      rfl

structure Sender.Emits (sender : Sender) (index : Nat) (outcome : Outcome) : Prop where
  counts : usedCounts outcome.events =
    List.replicate (if sender.srbFlag then 2 else 1)
      (transmitCount sender.entity sender.srbFlag index)
  sent : ∃ pdu, outcome.sentPdu? = some pdu ∧
    headerSn sender.srbFlag pdu = index % 2 ^ countSnBits sender.srbFlag ∧
    requestHeaderLen sender.srbFlag + requestTailerLen sender.srbFlag ≤ pdu.length

theorem securityRequested_afterNumbering (fresh : TransmitFresh pdcp) (index : Nat) :
    securityRequested (afterNumbering pdcp index) = securityRequested pdcp := by
  rw [afterNumbering_eq fresh]
  rfl

theorem seqNumSize_afterNumbering (fresh : TransmitFresh pdcp) (index : Nat) :
    (afterNumbering pdcp index).seqNumSize = pdcp.seqNumSize := by
  rw [afterNumbering_eq fresh]

namespace Sender

section

variable (protecting : sender.Protecting)

include protecting

theorem Protecting.request_numbered (index : Nat) (pdcp : Entity) :
    sender.request index (some pdcp) =
      dataReqNumbered sender.env sender.srbFlag sender.rbId (sender.mui index)
        (sender.confirm index) sender.mode (sender.sdu index) pdcp := by
  have fits : ¬ (sender.sdu index).length > sender.env.maxIpPacketSize :=
    not_lt.mpr (protecting.bounded index)
  simp [request, dataReq, protecting.accepted, protecting.nonempty index, fits, protecting.numbered]

theorem Protecting.request_index (index : Nat) :
    ∃ outcome, sender.request index (some (afterNumbering sender.entity index)) = .ok outcome ∧
      outcome.entity = some (afterNumbering sender.entity (index + 1)) ∧
      sender.Emits index outcome := by
  have fresh := protecting.fresh
  obtain ⟨pdu, built, header, length⟩ :=
    buildDataPdu_index fresh protecting.sized sender.mode (sender.sdu index) index
  have bounded : ¬ index % 2 ^ countSnBits sender.srbFlag >
      calculateMaxSeqNumForGivenSize (afterNumbering sender.entity index).seqNumSize := by
    rw [seqNumSize_afterNumbering fresh, protecting.sized]
    have last := (maxSeqNum_of_sizeValid fresh.sizeValid).1
    rw [protecting.sized] at last
    omega
  have known : sender.rbId % maxDRB < nbRbMax :=
    (mod_lt _ (by decide)).trans (by decide)
  have fits : requestHeaderLen sender.srbFlag + (sender.sdu index).length % 2 ^ 16 ≤
      pdu.length := by
    omega
  obtain ⟨protectedPdu, events, applied, kept, longer, counts, silent⟩ :=
    applySecurity_returns sender.env.ops (afterNumbering sender.entity (index + 1))
      sender.srbFlag known (index % 2 ^ countSnBits sender.srbFlag) fits
  refine ⟨_, by
    rw [protecting.request_numbered, dataReqNumbered, protecting.memory]
    simp only [Bool.true_eq_false, ↓reduceIte, built, bounded,
      securityRequested_afterNumbering fresh, protecting.secured, applied]
    rfl, rfl, ?_, ?_⟩
  · rw [usedCounts_append, counts, transmitCount, transmitSn_eq fresh, protecting.sized]
    exact append_nil _
  · refine ⟨protectedPdu, ?_, ?_, by omega⟩
    · simp only [Outcome.sentPdu?, findSome?_append, silent]
      rfl
    · rw [headerSn_of_take_eq kept, header]

theorem Protecting.entityAfter_eq (index : Nat) :
    sender.entityAfter index = .ok (some (afterNumbering sender.entity index)) := by
  induction index with
  | zero => rfl
  | succ index ih =>
    obtain ⟨outcome, returned, entity, _⟩ := protecting.request_index index
    simp only [entityAfter, ih, returned, entity]

theorem Protecting.transmission_emits (index : Nat) :
    ∃ outcome, sender.transmission index = .ok outcome ∧ sender.Emits index outcome := by
  obtain ⟨outcome, returned, _, emits⟩ := protecting.request_index index
  refine ⟨outcome, ?_, emits⟩
  simp only [transmission, protecting.entityAfter_eq, returned]

end

def pdu? (sender : Sender) (index : Nat) : Option (List UInt8) :=
  match sender.transmission index with
  | .error _ => none
  | .ok outcome => outcome.sentPdu?

theorem Protecting.pdu?_eq (protecting : sender.Protecting) (index : Nat) :
    sender.pdu? index =
      match sender.request index (some { sender.entity with
        nextPdcpTxSn := index % 2 ^ sender.entity.seqNumSize
        txHfn := index / 2 ^ sender.entity.seqNumSize % 2 ^ 32 }) with
      | .error _ => none
      | .ok outcome => outcome.sentPdu? := by
  simp only [pdu?, transmission, protecting.entityAfter_eq, afterNumbering_eq protecting.fresh]

def counts (sender : Sender) (index : Nat) : List Nat :=
  match sender.transmission index with
  | .error _ => []
  | .ok outcome => usedCounts outcome.events

/-- The PDU arriving at the receiver is the one sent with the given index. -/
def Carries (sender : Sender) (index : Nat) (pdu : List UInt8) : Prop :=
  sender.pdu? index = some pdu

end Sender

instance (sender : Sender) (index : Nat) (pdu : List UInt8) :
    Decidable (sender.Carries index pdu) :=
  inferInstanceAs (Decidable (_ = _))

/-- Reception of the PDU with the given index used the COUNT it was protected
with. -/
def Sender.AgreesOnCount (sender : Sender) (index : Nat) (reception : Outcome) : Prop :=
  usedCounts reception.events = sender.counts index ∧ sender.counts index ≠ []

theorem Sender.Protecting.carried (protecting : sender.Protecting)
    (carries : sender.Carries index pdu) :
    headerSn sender.srbFlag pdu = index % 2 ^ countSnBits sender.srbFlag ∧
      requestHeaderLen sender.srbFlag + requestTailerLen sender.srbFlag ≤ pdu.length := by
  obtain ⟨outcome, transmitted, emits⟩ := protecting.transmission_emits index
  obtain ⟨sent, emitted, header, long⟩ := emits.sent
  simp only [Sender.Carries, Sender.pdu?, transmitted, emitted, Option.some.injEq] at carries
  subst carries
  exact ⟨header, long⟩

theorem Sender.Protecting.counts_eq (protecting : sender.Protecting) (index : Nat) :
    sender.counts index =
      List.replicate (if sender.srbFlag then 2 else 1)
        (transmitCount sender.entity sender.srbFlag index) := by
  obtain ⟨outcome, transmitted, emits⟩ := protecting.transmission_emits index
  simp only [Sender.counts, transmitted, emits.counts]

theorem Sender.Protecting.agreesOnCount (protecting : sender.Protecting) {reception : Outcome}
    (counts : usedCounts reception.events =
      List.replicate (if sender.srbFlag then 2 else 1)
        (transmitCount sender.entity sender.srbFlag index)) :
    sender.AgreesOnCount index reception := by
  refine ⟨counts.trans (protecting.counts_eq index).symm, ?_⟩
  rw [protecting.counts_eq]
  cases sender.srbFlag with
  | true => exact cons_ne_nil _ _
  | false => exact cons_ne_nil _ _

/-! A concrete DRB under the null cipher, the identity on its message. -/

def nullCipherEnvironment : Environment :=
  { maxIpPacketSize := 1500
    nbRbMbmsMax := 1
    otgEnabled := false
    memBlockFree := fun _ => true
    rlcAccepts := fun _ => true
    ops :=
      { encrypt := fun _ params => params.message.take (params.blength / 8)
        computeIntegrity := fun _ _ => [0, 0, 0, 0]
        checkIntegrity := fun _ _ _ => -1 } }

def nullCipherDrb : Entity :=
  { Entity.zeroed with
    integrityProtAlgorithm := 2
    securityActivated := 1
    rlcMode := .am
    seqNumSize := 12
    lastSubmittedPdcpRxSn := 4095 }

def ueCtxt : Ctxt := { moduleId := 0, enbFlag := false, rnti := 0x1234 }

def nullCipherSender : Sender :=
  { env := nullCipherEnvironment
    srbFlag := false
    rbId := 1
    mode := .data
    entity := nullCipherDrb
    sdu := fun index => [UInt8.ofNat index]
    mui := id
    confirm := fun _ => 0 }

theorem nullCipherSender_protecting : nullCipherSender.Protecting where
  numbered := by decide
  accepted := rfl
  sized := rfl
  sn := rfl
  hfn := rfl
  secured := rfl
  nonempty := fun _ => cons_ne_nil _ _
  bounded := fun _ => (by decide : 1 ≤ 1500)
  memory := fun _ => rfl

end OpenAir.Pdcp
