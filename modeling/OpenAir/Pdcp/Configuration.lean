import OpenAir.Base.Execution
import OpenAir.Pdcp.DataPath

/-! Configuration of a PDCP entity, after `pdcp_config_req_asn1`, and the range of
the numbers it gives out between and after reconfigurations. -/

set_option autoImplicit false

namespace OpenAir.Pdcp

open OpenAir.Base Option Nat

inductive ConfigAction where
  | null
  | add
  | remove
  | modify
  | setSecurityMode
  | mbmsAdd
  | mbmsModify
  deriving DecidableEq, Repr

/-- The parameters of `pdcp_config_req_asn1` that end in a modelled field. -/
structure ConfigRequest where
  rlcMode : RlcMode
  rbSn : Nat
  securityMode : Nat
  kRRCenc : List UInt8
  kRRCint : List UInt8
  kUPenc : List UInt8
  deriving DecidableEq, Repr

/-- `PDCP_Config__rlc_UM__pdcp_SN_Size_len12bits` of the generated RRC headers. -/
def pdcpSnSizeLen12bits : Nat := 1

/-- `pdcp_config_set_security`. A bad mode is only logged. -/
def configSetSecurity (pdcp : Entity) (request : ConfigRequest) : Entity :=
  if request.securityMode ≤ 0x77 then
    { pdcp with
      cipheringAlgorithm := request.securityMode &&& 0x0f
      integrityProtAlgorithm := (request.securityMode >>> 4) &&& 0xf
      kRRCenc := request.kRRCenc
      kRRCint := request.kRRCint
      kUPenc := request.kUPenc
      securityActivated := 1 }
  else pdcp

def setSecurityIfGiven (pdcp : Entity) (request : ConfigRequest) : Entity :=
  if request.securityMode ≠ 0xff then configSetSecurity pdcp request else pdcp

/-- The size that ADD and MODIFY read from `rb_snP`. -/
def requestedSeqNumSize (request : ConfigRequest) : Nat :=
  if request.rbSn = pdcpSnSizeLen12bits then pdcpSn12Bit
  else if request.rbSn = pdcpSnSizeLen7bits then pdcpSn7Bit
  else pdcpSn5Bit

def configAdd (ctxt : Ctxt) (pdcp : Entity) (request : ConfigRequest) : Entity :=
  setSecurityIfGiven
    { pdcp with
      isUe := !ctxt.enbFlag
      seqNumSize := requestedSeqNumSize request
      rlcMode := request.rlcMode
      nextPdcpTxSn := 0
      nextPdcpRxSn := 0
      nextPdcpRxSnBeforeIntegrity := 0
      txHfn := 0
      rxHfn := 0
      lastSubmittedPdcpRxSn := 4095
      rxHfnOffset := 0 }
    request

def configModify (pdcp : Entity) (request : ConfigRequest) : Entity :=
  { setSecurityIfGiven { pdcp with rlcMode := request.rlcMode } request with
    seqNumSize := requestedSeqNumSize request }

/-- `pdcp_config_req_asn1`. The actions for MBMS set only the MBMS tables. -/
def configReqAsn1 (ctxt : Ctxt) (action : ConfigAction) (request : ConfigRequest)
    (pdcp : Entity) : Except Fault Entity :=
  match action with
  | .add => .ok (configAdd ctxt pdcp request)
  | .modify => .ok (configModify pdcp request)
  | .remove => .ok .zeroed
  | .mbmsAdd | .mbmsModify => .ok pdcp
  | .setSecurityMode => .ok (configSetSecurity pdcp request)
  | .null => .error .devCheck

inductive BearerInput where
  | configure (action : ConfigAction) (request : ConfigRequest)
  | dataReq (srbFlag : Bool) (rbId mui confirm : Nat) (sdu : List UInt8) (mode : TransmissionMode)
  deriving DecidableEq, Repr

/-- One call. A call that takes the process down leaves no entity. -/
def bearerStep (env : Environment) (ctxt : Ctxt) (pdcp : Entity) : BearerInput → Option Entity
  | .configure action request => (configReqAsn1 ctxt action request pdcp).toOption
  | .dataReq srbFlag rbId mui confirm sdu mode =>
    (dataReq env srbFlag rbId mui confirm sdu mode (some pdcp)).toOption.bind Outcome.entity

/-! What a call does to the numbering state. -/

theorem setSecurityIfGiven_number (pdcp : Entity) (request : ConfigRequest) :
    (setSecurityIfGiven pdcp request).nextPdcpTxSn = pdcp.nextPdcpTxSn := by
  unfold setSecurityIfGiven configSetSecurity
  split
  · split
    · rfl
    · rfl
  · rfl

theorem configSetSecurity_numbers (pdcp : Entity) (request : ConfigRequest) :
    (configSetSecurity pdcp request).nextPdcpTxSn = pdcp.nextPdcpTxSn ∧
      (configSetSecurity pdcp request).seqNumSize = pdcp.seqNumSize := by
  unfold configSetSecurity
  split
  · exact ⟨rfl, rfl⟩
  · exact ⟨rfl, rfl⟩

variable {confirm mui rbId : Nat} {env : Environment} {srbFlag : Bool} {mode : TransmissionMode}
  {sdu : List UInt8} {pdcp : Entity} {outcome : Outcome}

theorem dataReqNumbered_entity
    (done : dataReqNumbered env srbFlag rbId mui confirm mode sdu pdcp = .ok outcome) :
    outcome.entity = some pdcp ∨ outcome.entity = some (getNextTxSeqNumber pdcp).2 := by
  have built : (buildDataPdu pdcp srbFlag mode sdu).2.1 = (getNextTxSeqNumber pdcp).2 := by
    cases srbFlag <;> rfl
  unfold dataReqNumbered at done
  split at done
  · cases done
    exact .inl rfl
  · dsimp only at done
    split at done
    · cases done
      exact .inr (congrArg some built)
    · split at done
      · split at done
        · cases done
        · cases done
          exact .inr (congrArg some built)
      · cases done
        exact .inr (congrArg some built)

theorem dataReq_entity
    (done : dataReq env srbFlag rbId mui confirm sdu mode (some pdcp) = .ok outcome) :
    outcome.entity = some pdcp ∨ outcome.entity = some (getNextTxSeqNumber pdcp).2 := by
  simp only [dataReq, isNone_some, Bool.false_eq_true, false_and, ↓reduceIte] at done
  split at done
  · cases done
    exact .inl rfl
  · split at done
    · cases done
      exact .inl rfl
    · split at done
      · cases done
      · split at done
        · split at done
          · cases done
            exact .inl rfl
          · cases done
            exact .inl rfl
        · exact dataReqNumbered_entity done

/-! The range of the numbers. -/

def InRange (pdcp : Entity) : Prop :=
  pdcp.nextPdcpTxSn ≤ calculateMaxSeqNumForGivenSize pdcp.seqNumSize

theorem InRange.getNext (inRange : InRange pdcp) :
    InRange (getNextTxSeqNumber pdcp).2 := by
  unfold InRange at *
  unfold getNextTxSeqNumber
  split
  · exact inRange
  · split
    · exact zero_le _
    · refine le_trans (mod_le _ _) ?_
      dsimp only
      omega

theorem InRange.buildDataPdu (inRange : InRange pdcp) (valid : isSeqNumSizeValid pdcp)
    (srbFlag : Bool) (mode : TransmissionMode) (sdu : List UInt8) :
    (buildDataPdu pdcp srbFlag mode sdu).1 ≤ calculateMaxSeqNumForGivenSize pdcp.seqNumSize := by
  have number : (getNextTxSeqNumber pdcp).1 = pdcp.nextPdcpTxSn := by
    unfold getNextTxSeqNumber
    rw [if_neg (by simp [valid])]
    split
    · rfl
    · rfl
  cases srbFlag with
  | true =>
    refine le_trans (mod_le _ _) ?_
    rw [number]
    exact inRange
  | false =>
    refine le_trans (le_of_eq number) ?_
    exact inRange

def KeepsRange (pdcp : Entity) : BearerInput → Prop
  | .configure .modify request =>
    pdcp.nextPdcpTxSn ≤ calculateMaxSeqNumForGivenSize (requestedSeqNumSize request)
  | _ => True

instance (pdcp : Entity) (input : BearerInput) : Decidable (KeepsRange pdcp input) := by
  unfold KeepsRange
  split <;> infer_instance

theorem InRange.step {ctxt : Ctxt} {next : Entity} {input : BearerInput} (inRange : InRange pdcp)
    (keeps : KeepsRange pdcp input) (stepped : bearerStep env ctxt pdcp input = some next) :
    InRange next := by
  cases input with
  | configure action request =>
    cases action with
    | null => cases stepped
    | add =>
      cases stepped
      unfold InRange configAdd
      rw [setSecurityIfGiven_number]
      exact zero_le _
    | remove =>
      cases stepped
      exact zero_le _
    | modify =>
      cases stepped
      unfold InRange configModify
      rw [setSecurityIfGiven_number]
      exact keeps
    | setSecurityMode =>
      cases stepped
      obtain ⟨number, size⟩ := configSetSecurity_numbers pdcp request
      unfold InRange
      rw [number, size]
      exact inRange
    | mbmsAdd | mbmsModify =>
      cases stepped
      exact inRange
  | dataReq srbFlag rbId mui confirm sdu mode =>
    cases done : dataReq env srbFlag rbId mui confirm sdu mode (some pdcp) with
    | error fault =>
      simp only [bearerStep, done] at stepped
      cases stepped
    | ok outcome =>
      simp only [bearerStep, done] at stepped
      have left : outcome.entity = some next := stepped
      rcases dataReq_entity done with same | numbered
      · cases same.symm.trans left
        exact inRange
      · cases numbered.symm.trans left
        exact inRange.getNext

/-- Along every sequence of configurations and requests the next number fits the
size in use, and a configured entity numbers no PDU out of range. -/
theorem sequence_numbers_inRange (env : Environment) (ctxt : Ctxt) {inputs : List BearerInput}
    {final : Entity} (along : HoldsAlong (bearerStep env ctxt) KeepsRange .zeroed inputs)
    (reached : execute (bearerStep env ctxt) .zeroed inputs = some final) :
    final.nextPdcpTxSn ≤ calculateMaxSeqNumForGivenSize final.seqNumSize ∧
      (isSeqNumSizeValid final → ∀ srbFlag mode sdu,
        (buildDataPdu final srbFlag mode sdu).1 ≤
          calculateMaxSeqNumForGivenSize final.seqNumSize) := by
  have inRange : InRange final :=
    execute_preserves_along (fun _ _ _ before keeps stepped => before.step keeps stepped)
      (zero_le _) along reached
  exact ⟨inRange, fun valid srbFlag mode sdu => inRange.buildDataPdu valid srbFlag mode sdu⟩

def acceptingEnvironment : Environment :=
  { maxIpPacketSize := 4096
    nbRbMbmsMax := 29
    otgEnabled := false
    memBlockFree := fun _ => true
    rlcAccepts := fun _ => true
    ops := ⟨fun _ _ => [], fun _ _ => [], fun _ _ _ => 0⟩ }

def drbRequest (rbSn : Nat) : ConfigRequest := ⟨.um, rbSn, 0xff, [], [], []⟩

def drbSdus (count : Nat) : List BearerInput :=
  List.replicate count (.dataReq false 1 0 0 [7] .data)

/-- Seven bits are enough after five SDUs. -/
theorem sequence_numbers_inRange_modify :
    ∃ final, execute (bearerStep acceptingEnvironment ⟨0, true, 1⟩) .zeroed
        (.configure .add (drbRequest pdcpSnSizeLen12bits) :: drbSdus 5 ++
          [.configure .modify (drbRequest pdcpSnSizeLen7bits)]) = some final ∧
      isSeqNumSizeValid final ∧
      (buildDataPdu final false .data [7]).1 ≤ calculateMaxSeqNumForGivenSize final.seqNumSize := by
  refine ⟨_, (some_get (by decide +kernel)).symm, by decide +kernel, ?_⟩
  exact (sequence_numbers_inRange acceptingEnvironment ⟨0, true, 1⟩ (by decide +kernel)
    (some_get (by decide +kernel)).symm).2 (by decide +kernel) false .data [7]

/-- After 200 SDUs a MODIFY to seven bits leaves the next number at 200, and the
next SDU is dropped. The one after a REMOVE is numbered 65535 and dropped, too. -/
theorem not_sequence_numbers_inRange :
    (∃ final, execute (bearerStep acceptingEnvironment ⟨0, true, 1⟩) .zeroed
        (.configure .add (drbRequest pdcpSnSizeLen12bits) :: drbSdus 200 ++
          [.configure .modify (drbRequest pdcpSnSizeLen7bits)]) = some final ∧
      final.nextPdcpTxSn = 200 ∧ calculateMaxSeqNumForGivenSize final.seqNumSize = 127 ∧
      (dataReq acceptingEnvironment false 1 0 0 [7] .data (some final)).toOption.map
        (fun outcome => (outcome.events, outcome.ret)) = some ([], false)) ∧
    (∃ final, execute (bearerStep acceptingEnvironment ⟨0, true, 1⟩) .zeroed
        [.configure .add (drbRequest pdcpSnSizeLen12bits),
          .configure .remove (drbRequest pdcpSnSizeLen12bits)] = some final ∧
      (buildDataPdu final false .data [7]).1 = 65535 ∧
      calculateMaxSeqNumForGivenSize final.seqNumSize = 0) := by
  constructor
  · decide +kernel
  · decide +kernel

end OpenAir.Pdcp
