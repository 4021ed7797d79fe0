import OpenAir.Pdcp.DataPath

/-! What one call of `pdcp_data_ind` does to an entity with security active: on
an SRB, and on a DRB with twelve-bit sequence numbers. -/

set_option autoImplicit false

namespace OpenAir.Pdcp

open List

/-- A PDU that `pdcp_data_ind` drops before it looks at the receive state. -/
def DroppedEarly (rbIdP : Nat) (pdu : List UInt8) : Prop :=
  rbIdP % maxDRB = 0 ∨
    pdu.length < controlPlaneDataPduSnSize + controlPlaneDataPduMacISize

def DeliveredToRrc (outcome : Outcome) : Prop :=
  ∃ rbId sdu, .rrcDataInd rbId sdu ∈ outcome.events

variable {rbIdP : Nat} {pdu : List UInt8} {pdcp : Entity}

theorem dataInd_srb_droppedEarly (env : Environment) (ctxt : Ctxt) (pdcp : Entity)
    (dropped : DroppedEarly rbIdP pdu) :
    dataInd env ctxt true false rbIdP pdu (some pdcp) =
      .ok { entity := some pdcp, events := [], ret := false } := by
  rcases dropped with low | short
  · simp [dataInd, low]
  · by_cases low : rbIdP % maxDRB = 0
    · simp [dataInd, low]
    · by_cases empty : pdu.length = 0
      · simp [dataInd, low, length_eq_zero_iff.mp empty]
      · simp [dataInd, low, length_eq_zero_iff.not.mp empty, dataIndNumbered, parseHeader, short]

theorem dataInd_srb_reached (env : Environment) (ctxt : Ctxt)
    (activated : pdcp.securityActivated = 1) (reached : ¬ DroppedEarly rbIdP pdu)
    (known : rbIdP < nbRbMax) :
    let sn := getSequenceNumberOfPduWithSrbSn pdu
    let received := (isRxSeqNumberValid sn pdcp true).2
    ∃ outcome,
      dataInd env ctxt true false rbIdP pdu (some pdcp) = .ok outcome ∧
      outcome.entity = some { received with rxHfnOffset := 0 } ∧
      usedCounts outcome.events =
        List.replicate 2 (getNextCountRx received true sn).1 ∧
      DeliveredToRrc outcome := by
  intro sn received
  obtain ⟨high, long⟩ := not_or.mp reached
  have active : received.securityActivated = 1 :=
    (isRxSeqNumberValid_configuration sn pdcp true).securityActivated.trans activated
  have nonempty : pdu ≠ [] := by
    rintro rfl
    exact long (by decide)
  obtain ⟨validation, validated, entity, counts⟩ :=
    validateSecurity_returns env.ops received true known controlPlaneDataPduSnSize sn pdu
      ((pdu.length - controlPlaneDataPduMacISize) % 2 ^ 16)
  have numbered : dataInd env ctxt true false rbIdP pdu (some pdcp) =
      dataIndNumbered env ctxt true rbIdP pdu pdcp := by
    simp [dataInd, high, nonempty]
  have validates : validateIfActivated env true rbIdP controlPlaneDataPduSnSize sn pdu
      (pdu.length - controlPlaneDataPduMacISize) received =
        .ok (validation.entity, validation.pdu, validation.events) := by
    rw [validateIfActivated, if_pos active, validated]
  refine ⟨_, by
    rw [numbered, dataIndNumbered]
    simp only [parseHeader, ↓reduceIte]
    rw [if_neg long, validates], ?_, ?_, ?_⟩
  · exact congrArg some entity
  · rw [usedCounts_append, counts]
    rfl
  · exact ⟨_, _, mem_append_right _ mem_cons_self⟩

theorem dataInd_srb_unknown (env : Environment) (ctxt : Ctxt)
    (activated : pdcp.securityActivated = 1) (reached : ¬ DroppedEarly rbIdP pdu)
    (unknown : ¬ rbIdP < nbRbMax) :
    dataInd env ctxt true false rbIdP pdu (some pdcp) = .error .devCheck := by
  obtain ⟨high, long⟩ := not_or.mp reached
  have active := (isRxSeqNumberValid_configuration
    (getSequenceNumberOfPduWithSrbSn pdu) pdcp true).securityActivated.trans activated
  have nonempty : pdu ≠ [] := by
    rintro rfl
    exact long (by decide)
  simp [dataInd, high, nonempty, dataIndNumbered, parseHeader, long, validateIfActivated,
    active, validateSecurity, unknown]

def SubmitsLocally (env : Environment) (ctxt : Ctxt) (pduLength : Nat) : Prop :=
  env.otgEnabled = false ∧ ctxt.enbFlag = false ∧
    env.memBlockFree
      (pduLength - userPlaneDataPduLongSnHeaderSize + dataIndHeaderSize)

instance (env : Environment) (ctxt : Ctxt) (pduLength : Nat) :
    Decidable (SubmitsLocally env ctxt pduLength) :=
  inferInstanceAs (Decidable (_ ∧ _))

theorem submitPayload_drb (env : Environment) (ctxt : Ctxt) (rbId sn : Nat)
    (buffer : List UInt8) (size : Nat) (events : List Event) (pdcp : Entity) :
    ∃ outcome,
      submitPayload env ctxt false rbId sn buffer size userPlaneDataPduLongSnHeaderSize
        events (some pdcp) = .ok outcome ∧
      outcome.entity = some
        (if SubmitsLocally env ctxt size ∧ pdcp.rlcMode = .am then
          { pdcp with lastSubmittedPdcpRxSn := sn }
        else pdcp) ∧
      usedCounts outcome.events = usedCounts events := by
  unfold submitPayload
  by_cases otg : env.otgEnabled
  · simp [SubmitsLocally, otg]
  · by_cases enb : ctxt.enbFlag
    · refine ⟨_, (if_neg otg).trans (if_pos ⟨enb, rfl⟩), ?_, ?_⟩
      · simp [SubmitsLocally, enb]
      · rw [usedCounts_append]
        exact append_nil _
    · have notForwarded : ¬ (ctxt.enbFlag ∧ false = false) := fun both => enb both.1
      by_cases full : env.memBlockFree
          (size - userPlaneDataPduLongSnHeaderSize + dataIndHeaderSize) = false
      · refine ⟨_, (if_neg otg).trans ((if_neg notForwarded).trans (if_pos full)), ?_, rfl⟩
        simp [SubmitsLocally, full]
      · refine ⟨_, (if_neg otg).trans ((if_neg notForwarded).trans (if_neg full)), ?_, ?_⟩
        · simp [SubmitsLocally, otg, enb, full]
        · rw [usedCounts_append]
          exact append_nil _

theorem dataInd_drb_reached (env : Environment) (ctxt : Ctxt)
    (activated : pdcp.securityActivated = 1) (size : pdcp.seqNumSize = 12)
    (high : rbIdP % maxDRB ≠ 0) (known : rbIdP < nbRbMax)
    (long : userPlaneDataPduLongSnHeaderSize ≤ pdu.length) :
    let sn := getSequenceNumberOfPduWithLongSn pdu
    let received := (isRxSeqNumberValid sn pdcp false).2
    ∃ outcome,
      dataInd env ctxt false false rbIdP pdu (some pdcp) = .ok outcome ∧
      outcome.entity = some
        (if SubmitsLocally env ctxt pdu.length ∧ pdcp.rlcMode = .am then
          { received with rxHfnOffset := 0, lastSubmittedPdcpRxSn := sn }
        else { received with rxHfnOffset := 0 }) ∧
      usedCounts outcome.events = [(getNextCountRx received false sn).1] := by
  intro sn received
  have config := isRxSeqNumberValid_configuration sn pdcp false
  have active : received.securityActivated = 1 :=
    config.securityActivated.trans activated
  have nonempty : pdu ≠ [] := by
    rintro rfl
    exact absurd long (by decide)
  obtain ⟨validation, validated, entity, counts⟩ :=
    validateSecurity_returns env.ops received false known userPlaneDataPduLongSnHeaderSize sn
      pdu (pdu.length % 2 ^ 16)
  obtain ⟨outcome, submitted, after, same⟩ :=
    submitPayload_drb env ctxt (rbIdP % maxDRB) sn validation.pdu pdu.length
      validation.events validation.entity
  have numbered : dataInd env ctxt false false rbIdP pdu (some pdcp) =
      dataIndNumbered env ctxt false rbIdP pdu pdcp := by
    simp [dataInd, high, nonempty]
  have header : parseHeader pdcp false pdu = (userPlaneDataPduLongSnHeaderSize, 0, sn) := by
    simp [parseHeader, size, pdcpSn7Bit, pdcpSn12Bit, sn]
  have validates : validateIfActivated env false rbIdP userPlaneDataPduLongSnHeaderSize sn pdu
      (pdu.length - 0) received =
        .ok (validation.entity, validation.pdu, validation.events) := by
    rw [validateIfActivated, if_pos active, Nat.sub_zero, validated]
  refine ⟨outcome, ?_, ?_, ?_⟩
  · rw [numbered, dataIndNumbered, header]
    simp only
    rw [if_neg (by omega), validates]
    exact submitted
  · have mode : validation.entity.rlcMode = pdcp.rlcMode := by
      rw [entity]
      exact config.rlcMode
    have branch : (SubmitsLocally env ctxt pdu.length ∧ validation.entity.rlcMode = .am) ↔
        SubmitsLocally env ctxt pdu.length ∧ pdcp.rlcMode = .am := by rw [mode]
    rw [after, if_congr branch rfl rfl, entity]
  · rw [same, counts]
    rfl

end OpenAir.Pdcp
