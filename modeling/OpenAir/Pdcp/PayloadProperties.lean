import OpenAir.Pdcp.Peer

/-! The payload of a PDU between two entities without security. The receiving
side takes the header length from the bearer's sequence number size, the
transmitting side of a DRB does not. -/

set_option autoImplicit false

namespace OpenAir.Pdcp

open List Nat

def Event.delivered? : Event → Option (List UInt8)
  | .rrcDataInd _ sdu => some sdu
  | .gtpv1uTunnelDataReq _ _ sdu => some sdu
  | .sduListAdd _ sdu => some sdu
  | .rlcDataReq .. => none
  | .streamEncrypt .. => none
  | .streamComputeIntegrity .. => none
  | .streamCheckIntegrity .. => none

def deliveredSdus (events : List Event) : List (List UInt8) := events.filterMap Event.delivered?

/-- The bearers of the configuration: an SRB, or a DRB of either SN size. -/
def BearerSize (srbFlag : Bool) (seqNumSize : Nat) : Prop :=
  if srbFlag then seqNumSize = pdcpSn5Bit
  else seqNumSize = pdcpSn7Bit ∨ seqNumSize = pdcpSn12Bit

def HandsOn (env : Environment) (ctxt : Ctxt) (length : Nat) : Prop :=
  env.otgEnabled = false ∧
    (ctxt.enbFlag ∨ env.memBlockFree (length + dataIndHeaderSize))

/-- The peer delivers exactly the SDU, and reads the sequence number. -/
def Delivers (env : Environment) (ctxt : Ctxt) (srbFlag : Bool) (rbId : Nat) (peer : Entity)
    (pdu sdu : List UInt8) (sn : Nat) : Prop :=
  ∃ outcome, dataInd env ctxt srbFlag false rbId pdu (some peer) = .ok outcome ∧
    deliveredSdus outcome.events = [sdu] ∧ (parseHeader peer srbFlag pdu).2.2 = sn

section Request

variable {env : Environment} {srbFlag : Bool} {rbId mui confirm : Nat} {sdu : List UInt8}
  {mode : TransmissionMode} {sender : Entity} {outcome : Outcome}

theorem dataReqNumbered_accepted (unsecured : sender.securityActivated = 0)
    (requested : dataReqNumbered env srbFlag rbId mui confirm mode sdu sender = .ok outcome)
    (accepted : outcome.ret) :
    outcome.events = [.rlcDataReq false rbId mui confirm
      (buildDataPdu sender srbFlag mode sdu).2.2] ∧
    (buildDataPdu sender srbFlag mode sdu).1 ≤
      calculateMaxSeqNumForGivenSize sender.seqNumSize := by
  have plain : securityRequested sender = false := by simp [securityRequested, unsecured]
  simp only [dataReqNumbered, plain, Bool.false_eq_true, if_false] at requested
  split at requested
  · cases requested
    cases accepted
  · split at requested
    · cases requested
      cases accepted
    next fits =>
      cases requested
      exact ⟨rfl, not_lt.mp fits⟩

theorem dataReq_accepted (numbered : mode ≠ .transparent) (unsecured : sender.securityActivated = 0)
    (requested : dataReq env srbFlag rbId mui confirm sdu mode (some sender) = .ok outcome)
    (accepted : outcome.ret) :
    rbId < maxDRB ∧
    outcome.events = [.rlcDataReq false rbId mui confirm
      (buildDataPdu sender srbFlag mode sdu).2.2] ∧
    (buildDataPdu sender srbFlag mode sdu).1 ≤
      calculateMaxSeqNumForGivenSize sender.seqNumSize := by
  simp only [dataReq, numbered, Option.isNone_some, Bool.false_eq_true, false_and, if_false]
    at requested
  split at requested
  · cases requested
    cases accepted
  next known =>
    split at requested
    · cases requested
      cases accepted
    · split at requested
      · cases requested
      · refine ⟨?_, dataReqNumbered_accepted unsecured requested accepted⟩
        cases srbFlag with
        | true =>
          have low : rbId < 2 := by simpa [rbIdAccepted, numbered] using known
          exact lt_trans low (by decide)
        | false => simpa [rbIdAccepted, numbered] using known

end Request

section Indication

variable {env : Environment} {ctxt : Ctxt} {srbFlag : Bool} {rbId : Nat} {peer : Entity}
  {pdu sdu : List UInt8}

theorem validateIfActivated_unsecured (unsecured : peer.securityActivated = 0) (headerLen sn : Nat)
    (size : Nat) :
    validateIfActivated env srbFlag rbId headerLen sn pdu size
        (isRxSeqNumberValid sn peer srbFlag).2 =
      .ok ((isRxSeqNumberValid sn peer srbFlag).2, pdu, []) := by
  have inactive : (isRxSeqNumberValid sn peer srbFlag).2.securityActivated = 0 :=
    (isRxSeqNumberValid_configuration sn peer srbFlag).securityActivated.trans unsecured
  rw [validateIfActivated, if_neg (by rw [inactive]; decide)]

theorem dataInd_numbered (high : rbId % maxDRB ≠ 0) (filled : pdu ≠ []) :
    dataInd env ctxt srbFlag false rbId pdu (some peer) =
      dataIndNumbered env ctxt srbFlag rbId pdu peer := by
  simp [dataInd, high, filled]

theorem dataInd_srb_unsecured (unsecured : peer.securityActivated = 0) (high : rbId % maxDRB ≠ 0)
    (long : controlPlaneDataPduSnSize + controlPlaneDataPduMacISize ≤ pdu.length) :
    ∃ outcome, dataInd env ctxt true false rbId pdu (some peer) = .ok outcome ∧
      deliveredSdus outcome.events = [(pdu.drop controlPlaneDataPduSnSize).take
        (pdu.length - controlPlaneDataPduSnSize - controlPlaneDataPduMacISize)] := by
  have filled : pdu ≠ [] := by
    rintro rfl
    exact absurd long (by decide)
  rw [dataInd_numbered high filled, dataIndNumbered]
  simp only [parseHeader, if_true, if_neg (not_lt.mpr long),
    validateIfActivated_unsecured unsecured]
  exact ⟨_, rfl, rfl⟩

variable (env ctxt rbId pdu) in
theorem submitPayload_delivers (sn : Nat) (offset : Nat) (entity : Entity) :
    ∃ outcome, submitPayload env ctxt false rbId sn pdu pdu.length offset [] (some entity) =
        .ok outcome ∧
      (HandsOn env ctxt (pdu.length - offset) →
        deliveredSdus outcome.events = [(pdu.drop offset).take (pdu.length - offset)]) ∧
      (¬ HandsOn env ctxt (pdu.length - offset) → deliveredSdus outcome.events = []) := by
  unfold submitPayload
  by_cases otg : env.otgEnabled
  · refine ⟨_, if_pos otg, fun hands => ?_, fun _ => rfl⟩
    rw [hands.1] at otg
    cases otg
  · rw [if_neg otg]
    by_cases enb : ctxt.enbFlag
    · refine ⟨_, if_pos ⟨enb, rfl⟩, fun _ => rfl, fun refused => ?_⟩
      exact absurd ⟨by simpa using otg, .inl enb⟩ refused
    · rw [if_neg fun both => enb both.1]
      by_cases full : env.memBlockFree (pdu.length - offset + dataIndHeaderSize) = false
      · refine ⟨_, if_pos full, fun hands => ?_, fun _ => rfl⟩
        have free := hands.2.resolve_left enb
        rw [full] at free
        cases free
      · refine ⟨_, if_neg full, fun _ => rfl, fun refused => ?_⟩
        exact absurd ⟨by simpa using otg, .inr (by simpa using full)⟩ refused

theorem dataInd_drb_unsecured (unsecured : peer.securityActivated = 0)
    (high : rbId % maxDRB ≠ 0) (filled : pdu ≠ []) {headerLen sn : Nat}
    (header : parseHeader peer false pdu = (headerLen, 0, sn)) (long : headerLen ≤ pdu.length) :
    ∃ outcome, dataInd env ctxt false false rbId pdu (some peer) = .ok outcome ∧
      (HandsOn env ctxt (pdu.length - headerLen) →
        deliveredSdus outcome.events = [pdu.drop headerLen]) ∧
      (¬ HandsOn env ctxt (pdu.length - headerLen) → deliveredSdus outcome.events = []) := by
  obtain ⟨outcome, submitted, hands, refuses⟩ :=
    submitPayload_delivers env ctxt (rbId % maxDRB) pdu sn headerLen
      (isRxSeqNumberValid sn peer false).2
  refine ⟨outcome, ?_, fun able => ?_, refuses⟩
  · rw [dataInd_numbered high filled, dataIndNumbered, header]
    simp [if_neg (not_lt.mpr long), validateIfActivated_unsecured unsecured, submitted]
  · rw [hands able, take_of_length_le (by rw [length_drop])]

theorem not_delivers_zero (low : rbId % maxDRB = 0) {sn : Nat} :
    ¬ Delivers env ctxt srbFlag rbId peer pdu sdu sn := by
  rintro ⟨outcome, indicated, delivered, -⟩
  simp only [dataInd, low, Bool.false_eq_true, if_false, if_true, Except.ok.injEq] at indicated
  rw [← indicated] at delivered
  cases delivered

theorem delivers_srb (unsecured : peer.securityActivated = 0) (high : rbId % maxDRB ≠ 0)
    {sn : Nat} (bounded : sn < 2 ^ 5) :
    Delivers env ctxt true rbId peer (serializeControlPlaneDataPduWithSrbSn sn ++ sdu ++
      replicate controlPlaneDataPduMacISize 0) sdu sn := by
  have length : (serializeControlPlaneDataPduWithSrbSn sn ++ sdu ++
      replicate controlPlaneDataPduMacISize 0).length =
      controlPlaneDataPduSnSize + sdu.length + controlPlaneDataPduMacISize := by
    rw [length_append, length_append]
    rfl
  have long : controlPlaneDataPduSnSize + controlPlaneDataPduMacISize ≤
      (serializeControlPlaneDataPduWithSrbSn sn ++ sdu ++
        replicate controlPlaneDataPduMacISize 0).length := by
    omega
  obtain ⟨outcome, indicated, delivered⟩ := dataInd_srb_unsecured unsecured high long
  refine ⟨outcome, indicated, ?_, ?_⟩
  · have body : (serializeControlPlaneDataPduWithSrbSn sn ++ sdu ++
        replicate controlPlaneDataPduMacISize 0).drop controlPlaneDataPduSnSize =
        sdu ++ replicate controlPlaneDataPduMacISize 0 := rfl
    rw [delivered, length, body, Nat.add_assoc, Nat.add_sub_cancel_left, Nat.add_sub_cancel,
      take_left]
  · exact srb_header_round_trip bounded _

theorem longPdu_ne_nil (dc : Bool) (sn : Nat) :
    serializeUserPlaneDataPduWithLongSn dc sn ++ sdu ≠ [] := by
  simp [serializeUserPlaneDataPduWithLongSn]

theorem delivers_long_iff (unsecured : peer.securityActivated = 0) (high : rbId % maxDRB ≠ 0)
    (size : peer.seqNumSize = pdcpSn12Bit) {sn : Nat} (bounded : sn < 2 ^ 12) (dc : Bool) :
    Delivers env ctxt false rbId peer (serializeUserPlaneDataPduWithLongSn dc sn ++ sdu) sdu sn ↔
      HandsOn env ctxt sdu.length := by
  have header : parseHeader peer false (serializeUserPlaneDataPduWithLongSn dc sn ++ sdu) =
      (userPlaneDataPduLongSnHeaderSize, 0, sn) := by
    simp [parseHeader, size, pdcpSn7Bit, pdcpSn12Bit, long_header_round_trip bounded]
  have long : userPlaneDataPduLongSnHeaderSize ≤
      (serializeUserPlaneDataPduWithLongSn dc sn ++ sdu).length := Nat.le_add_left ..
  obtain ⟨outcome, indicated, hands, refuses⟩ :=
    dataInd_drb_unsecured unsecured high (longPdu_ne_nil dc sn) header long
  constructor
  · rintro ⟨other, indicatedAlso, delivered, -⟩
    obtain rfl : outcome = other := Except.ok.inj (indicated.symm.trans indicatedAlso)
    by_contra refused
    rw [refuses refused] at delivered
    cases delivered
  · intro able
    exact ⟨outcome, indicated, hands able, by rw [header]⟩

/-- On a DRB of seven bits the second octet of the header is taken for the
first one of the SDU. -/
theorem not_delivers_short (unsecured : peer.securityActivated = 0) (high : rbId % maxDRB ≠ 0)
    (size : peer.seqNumSize = pdcpSn7Bit) (sn : Nat) (dc : Bool) :
    ¬ Delivers env ctxt false rbId peer (serializeUserPlaneDataPduWithLongSn dc sn ++ sdu)
      sdu sn := by
  rintro ⟨other, indicatedAlso, delivered, -⟩
  have header : parseHeader peer false (serializeUserPlaneDataPduWithLongSn dc sn ++ sdu) =
      (userPlaneDataPduShortSnHeaderSize, 0, getSequenceNumberOfPduWithShortSn
        (serializeUserPlaneDataPduWithLongSn dc sn ++ sdu)) := by
    simp [parseHeader, size]
  have long : userPlaneDataPduShortSnHeaderSize ≤
      (serializeUserPlaneDataPduWithLongSn dc sn ++ sdu).length :=
    Nat.le_trans (by decide) (Nat.le_add_left userPlaneDataPduLongSnHeaderSize _)
  obtain ⟨outcome, indicated, hands, refuses⟩ :=
    dataInd_drb_unsecured unsecured high (longPdu_ne_nil dc sn) header long
  obtain rfl : outcome = other := Except.ok.inj (indicated.symm.trans indicatedAlso)
  by_cases able : HandsOn env ctxt ((serializeUserPlaneDataPduWithLongSn dc sn ++ sdu).length -
      userPlaneDataPduShortSnHeaderSize)
  · rw [hands able, singleton_inj] at delivered
    have longer := congrArg length delivered
    exact absurd longer (Nat.ne_of_gt (Nat.lt_add_of_pos_right (by decide)))
  · rw [refuses able] at delivered
    cases delivered

end Indication

theorem payload_round_trip_iff {sendEnv env : Environment} {ctxt : Ctxt} {srbFlag : Bool}
    {rbId mui confirm : Nat} {sdu : List UInt8} {mode : TransmissionMode} {sender peer : Entity}
    {outcome : Outcome} (sized : BearerSize srbFlag sender.seqNumSize)
    (same : peer.seqNumSize = sender.seqNumSize) (senderPlain : sender.securityActivated = 0)
    (peerPlain : peer.securityActivated = 0) (numbered : mode ≠ .transparent)
    (requested : dataReq sendEnv srbFlag rbId mui confirm sdu mode (some sender) = .ok outcome)
    (accepted : outcome.ret) :
    ∃ pdu, outcome.events = [.rlcDataReq false rbId mui confirm pdu] ∧
      (Delivers env ctxt srbFlag rbId peer pdu sdu (buildDataPdu sender srbFlag mode sdu).1 ↔
        rbId ≠ 0 ∧
          (srbFlag ∨ sender.seqNumSize = pdcpSn12Bit ∧ HandsOn env ctxt sdu.length)) := by
  obtain ⟨known, events, bounded⟩ :=
    dataReq_accepted numbered senderPlain requested accepted
  refine ⟨_, events, ?_⟩
  have bearer : rbId % maxDRB = rbId := mod_eq_of_lt known
  by_cases zero : rbId = 0
  · exact iff_of_false (not_delivers_zero (bearer.trans zero)) fun both => both.1 zero
  have high : rbId % maxDRB ≠ 0 := by rwa [bearer]
  cases srbFlag with
  | true =>
    have size : sender.seqNumSize = 5 := sized
    rw [size, calculateMaxSeqNumForGivenSize_five] at bounded
    exact iff_of_true (delivers_srb peerPlain high (lt_succ_of_le bounded))
      ⟨zero, .inl rfl⟩
  | false =>
    rcases sized with short | long
    · have narrow : peer.seqNumSize = pdcpSn7Bit := same.trans short
      refine iff_of_false (not_delivers_short peerPlain high narrow _ _) ?_
      rintro ⟨-, srb | ⟨wide, -⟩⟩
      · cases srb
      · rw [short] at wide
        cases wide
    · rw [long] at bounded
      have wide := same.trans long
      refine (delivers_long_iff peerPlain high wide (lt_succ_of_le bounded) _).trans ?_
      exact ⟨fun able => ⟨zero, .inr ⟨long, able⟩⟩,
        fun both => (both.2.resolve_left Bool.false_ne_true).2⟩

def plainDrb (seqNumSize : Nat) : Entity :=
  { Entity.zeroed with rlcMode := .um, seqNumSize := seqNumSize }

def firstRequest (seqNumSize : Nat) : Outcome :=
  { entity := some { plainDrb seqNumSize with nextPdcpTxSn := 1 }
    events := [.rlcDataReq false 1 0 0 [0x80, 0x00, 0x45, 0x00]]
    ret := true }

theorem dataReq_plainDrb {seqNumSize : Nat}
    (sized : seqNumSize = pdcpSn7Bit ∨ seqNumSize = pdcpSn12Bit) :
    dataReq nullCipherEnvironment false 1 0 0 [0x45, 0x00] .data (some (plainDrb seqNumSize)) =
      .ok (firstRequest seqNumSize) := by
  have built : buildDataPdu (plainDrb seqNumSize) false .data [0x45, 0x00] =
      (0, { plainDrb seqNumSize with nextPdcpTxSn := 1 }, [0x80, 0x00, 0x45, 0x00]) := by
    rcases sized with rfl | rfl
    · rfl
    · rfl
  have fits : ¬ 0 > calculateMaxSeqNumForGivenSize (plainDrb seqNumSize).seqNumSize :=
    not_lt_zero _
  have plain : securityRequested (plainDrb seqNumSize) = false := rfl
  have numbered : dataReqNumbered nullCipherEnvironment false 1 0 0 .data [0x45, 0x00]
      (plainDrb seqNumSize) = .ok (firstRequest seqNumSize) := by
    simp only [dataReqNumbered, built, if_neg fits, plain, Bool.false_eq_true, if_false]
    rfl
  have known : rbIdAccepted nullCipherEnvironment .data false 1 := rfl
  have small : ¬ [(0x45 : UInt8), 0x00].length > nullCipherEnvironment.maxIpPacketSize := by
    decide
  simp only [dataReq, known, Bool.true_eq_false, if_false, Option.isNone_some,
    Bool.false_eq_true, false_and, length_cons, succ_ne_zero, reduceCtorEq, numbered]
  exact if_neg small

theorem payload_round_trip_long :
    dataReq nullCipherEnvironment false 1 0 0 [0x45, 0x00] .data
        (some (plainDrb pdcpSn12Bit)) = .ok (firstRequest pdcpSn12Bit) ∧
      ∃ pdu, (firstRequest pdcpSn12Bit).events = [.rlcDataReq false 1 0 0 pdu] ∧
        (Delivers nullCipherEnvironment ueCtxt false 1 (plainDrb pdcpSn12Bit) pdu [0x45, 0x00]
            (buildDataPdu (plainDrb pdcpSn12Bit) false .data [0x45, 0x00]).1 ↔
          (1 : Nat) ≠ 0 ∧
            (false ∨ (plainDrb pdcpSn12Bit).seqNumSize = pdcpSn12Bit ∧
              HandsOn nullCipherEnvironment ueCtxt [(0x45 : UInt8), 0x00].length)) := by
  have requested := dataReq_plainDrb (.inr rfl)
  exact ⟨requested, payload_round_trip_iff (.inr rfl) rfl rfl rfl (by decide) requested rfl⟩

/-- On a DRB of seven bits the first SDU arrives one octet longer. -/
theorem short_payload_not_delivered :
    dataReq nullCipherEnvironment false 1 0 0 [0x45, 0x00] .data
        (some (plainDrb pdcpSn7Bit)) = .ok (firstRequest pdcpSn7Bit) ∧
      (dataInd nullCipherEnvironment ueCtxt false false 1 [0x80, 0x00, 0x45, 0x00]
        (some (plainDrb pdcpSn7Bit))).toOption.map (fun outcome => deliveredSdus outcome.events) =
        some [[0x00, 0x45, 0x00]] ∧
      ¬ Delivers nullCipherEnvironment ueCtxt false 1 (plainDrb pdcpSn7Bit)
        [0x80, 0x00, 0x45, 0x00] [0x45, 0x00] 0 := by
  refine ⟨dataReq_plainDrb (.inl rfl), by decide +kernel, ?_⟩
  have pdu : serializeUserPlaneDataPduWithLongSn true 0 ++ [0x45, 0x00] =
      [0x80, 0x00, 0x45, 0x00] := by decide
  rw [← pdu]
  exact not_delivers_short rfl (by decide) rfl 0 true

end OpenAir.Pdcp
