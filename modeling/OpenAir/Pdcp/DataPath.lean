import OpenAir.Pdcp.Security

/-! The PDCP data path: `pdcp_data_req` towards RLC and `pdcp_data_ind` from
RLC, after `pdcp.c` and `pdcp_primitives.c`. A call takes the entity its
collection lookup found and returns the entity it leaves behind, the events it
caused and its boolean result. -/

set_option autoImplicit false

namespace OpenAir.Pdcp

inductive TransmissionMode where
  | unknown
  | control
  | data
  | transparent
  deriving DecidableEq, Repr

/-- The fields of `protocol_ctxt_t` that the data path reads. -/
structure Ctxt where
  moduleId : Nat
  enbFlag : Bool
  rnti : Nat
  deriving DecidableEq, Repr

/-- Everything outside PDCP that a call depends on: build constants, the memory
pool, the traffic generator flag, RLC's answer and the stream functions. -/
structure Environment where
  maxIpPacketSize : Nat
  nbRbMbmsMax : Nat
  otgEnabled : Bool
  memBlockFree : Nat → Bool
  rlcAccepts : List UInt8 → Bool
  ops : StreamOps

structure Outcome where
  entity : Option Entity
  events : List Event
  ret : Bool

def controlPlaneDataPduSnSize : Nat := 1
def controlPlaneDataPduMacISize : Nat := 4
def userPlaneDataPduLongSnHeaderSize : Nat := 2
def userPlaneDataPduShortSnHeaderSize : Nat := 1

/-- `sizeof (pdcp_data_ind_header_t)`. -/
def dataIndHeaderSize : Nat := 16

def serializeControlPlaneDataPduWithSrbSn (sn : Nat) : List UInt8 :=
  [UInt8.ofNat (sn &&& 0x1F)]

def serializeUserPlaneDataPduWithLongSn (dc : Bool) (sn : Nat) : List UInt8 :=
  let first := UInt8.ofNat ((sn >>> 8) &&& 0xFF)
  [if dc then first ||| 0x80 else first, UInt8.ofNat (sn &&& 0xFF)]

def getSequenceNumberOfPduWithLongSn (pdu : List UInt8) : Nat :=
  (((pdu.getD 0 0).toNat &&& 0x0F) <<< 8) ||| ((pdu.getD 1 0).toNat &&& 0xFF)

def getSequenceNumberOfPduWithShortSn (pdu : List UInt8) : Nat :=
  (pdu.getD 0 0).toNat &&& 0x7F

def getSequenceNumberOfPduWithSrbSn (pdu : List UInt8) : Nat :=
  (pdu.getD 0 0).toNat &&& 0x1F

/-- The checks on the radio bearer id that `pdcp_data_req` starts with. -/
def rbIdAccepted (env : Environment) (mode : TransmissionMode) (srbFlag : Bool)
    (rbId : Nat) : Bool :=
  if mode = .transparent then decide (rbId < env.nbRbMbmsMax)
  else if srbFlag then decide (rbId < 2)
  else decide (rbId < maxDRB)

/-- Number an SDU and lay out its PDU: header, SDU, zeroed trailer. -/
def buildDataPdu (pdcp : Entity) (srbFlag : Bool) (mode : TransmissionMode)
    (sdu : List UInt8) : Nat × Entity × List UInt8 :=
  let numbered := getNextTxSeqNumber pdcp
  if srbFlag then
    -- `pdu_header.sn` is an octet here.
    let currentSn := numbered.1 % 2 ^ 8
    (currentSn, numbered.2, serializeControlPlaneDataPduWithSrbSn currentSn ++ sdu ++
        List.replicate controlPlaneDataPduMacISize 0)
  else
    (numbered.1, numbered.2, serializeUserPlaneDataPduWithLongSn (mode = .data) numbered.1 ++ sdu)

/-- The condition under which `pdcp_data_req` protects a PDU. -/
def securityRequested (pdcp : Entity) : Bool :=
  pdcp.securityActivated ≠ 0 &&
    (pdcp.cipheringAlgorithm ≠ 0 || pdcp.integrityProtAlgorithm ≠ 0)

def requestHeaderLen (srbFlag : Bool) : Nat :=
  if srbFlag then controlPlaneDataPduSnSize else userPlaneDataPduLongSnHeaderSize

def requestTailerLen (srbFlag : Bool) : Nat :=
  if srbFlag then controlPlaneDataPduMacISize else 0

/-- `pdcp_pdu_size`, a 16-bit variable. -/
def pduSize (srbFlag : Bool) (sduLength : Nat) : Nat :=
  (sduLength + requestHeaderLen srbFlag + requestTailerLen srbFlag) % 2 ^ 16

/-- The non-transparent part of `pdcp_data_req`. -/
def dataReqNumbered (env : Environment) (srbFlag : Bool) (rbId mui confirm : Nat)
    (mode : TransmissionMode) (sdu : List UInt8) (pdcp : Entity) : Except Fault Outcome :=
  if env.memBlockFree (pduSize srbFlag sdu.length) = false then
    .ok { entity := some pdcp, events := [], ret := false }
  else
    let built := buildDataPdu pdcp srbFlag mode sdu
    if built.1 > calculateMaxSeqNumForGivenSize pdcp.seqNumSize then
      .ok { entity := some built.2.1, events := [], ret := false }
    else if securityRequested pdcp then
      match applySecurity env.ops built.2.1 srbFlag (rbId % maxDRB)
          (requestHeaderLen srbFlag) built.1 built.2.2 (sdu.length % 2 ^ 16) with
      | .error fault => .error fault
      | .ok (pdu, events) =>
        .ok
          { entity := some built.2.1
            events := events ++ [.rlcDataReq false rbId mui confirm pdu]
            ret := env.rlcAccepts pdu }
    else
      .ok
        { entity := some built.2.1
          events := [.rlcDataReq false rbId mui confirm built.2.2]
          ret := env.rlcAccepts built.2.2 }

/-- `pdcp_data_req`; `found` is the entity in the PDCP collection, if any. -/
def dataReq (env : Environment) (srbFlag : Bool) (rbId mui confirm : Nat)
    (sdu : List UInt8) (mode : TransmissionMode) (found : Option Entity) :
    Except Fault Outcome :=
  let ignored : Outcome := { entity := found, events := [], ret := false }
  if rbIdAccepted env mode srbFlag rbId = false then .ok ignored
  else if found.isNone ∧ mode ≠ .transparent then .ok ignored
  else if sdu.length = 0 then .ok ignored
  else if sdu.length > env.maxIpPacketSize then .error .macphyExit
  else if mode = .transparent then
    if env.memBlockFree sdu.length then
      .ok
        { entity := found
          events := [.rlcDataReq true rbId mui confirm sdu]
          ret := env.rlcAccepts sdu }
    else .ok ignored
  else
    match found with
    | none => .ok ignored
    | some pdcp => dataReqNumbered env srbFlag rbId mui confirm mode sdu pdcp

/-- The header `pdcp_data_ind` expects: header length, trailer length and
sequence number. A DRB of any other SN size keeps the zero initialisers. -/
def parseHeader (pdcp : Entity) (srbFlag : Bool) (pdu : List UInt8) : Nat × Nat × Nat :=
  if srbFlag then
    (controlPlaneDataPduSnSize, controlPlaneDataPduMacISize, getSequenceNumberOfPduWithSrbSn pdu)
  else if pdcp.seqNumSize = pdcpSn7Bit then
    (userPlaneDataPduShortSnHeaderSize, 0, getSequenceNumberOfPduWithShortSn pdu)
  else if pdcp.seqNumSize = pdcpSn12Bit then
    (userPlaneDataPduLongSnHeaderSize, 0, getSequenceNumberOfPduWithLongSn pdu)
  else (0, 0, 0)

/-- Validate when security is active. The returned status has no reader: the
call in `pdcp_data_ind` drops it. -/
def validateIfActivated (env : Environment) (srbFlag : Bool) (rbIdP headerLen sn : Nat)
    (pdu : List UInt8) (size : Nat) (pdcp : Entity) :
    Except Fault (Entity × List UInt8 × List Event) :=
  if pdcp.securityActivated = 1 then
    match validateSecurity env.ops pdcp srbFlag rbIdP headerLen sn pdu (size % 2 ^ 16) with
    | .error fault => .error fault
    | .ok validation => .ok (validation.entity, validation.pdu, validation.events)
  else .ok (pdcp, pdu, [])

/-- The end of `pdcp_data_ind`, common to DRBs and MBMS: forward the payload to
GTPV1-U on an eNB, else queue it for the local upper layer. -/
def submitPayload (env : Environment) (ctxt : Ctxt) (srbFlag : Bool) (rbId sn : Nat)
    (buffer : List UInt8) (size offset : Nat) (events : List Event) (pdcp : Option Entity) :
    Except Fault Outcome :=
  let payload := (buffer.drop offset).take (size - offset)
  if env.otgEnabled then .ok { entity := pdcp, events := events, ret := true }
  else if ctxt.enbFlag ∧ srbFlag = false then
    .ok
      { entity := pdcp
        events := events ++ [.gtpv1uTunnelDataReq ctxt.rnti (rbId + 4) payload]
        ret := true }
  else if env.memBlockFree (size - offset + dataIndHeaderSize) = false then
    .ok { entity := pdcp, events := events, ret := true }
  else
    match pdcp with
    | none => .error .nullDereference
    | some entity =>
      let submitted :=
        if entity.rlcMode = .am then { entity with lastSubmittedPdcpRxSn := sn } else entity
      let indRbId := if ctxt.enbFlag then rbId + ctxt.moduleId * maxDRB else rbId
      .ok
        { entity := some submitted
          events := events ++ [.sduListAdd indRbId payload]
          ret := true }

/-- `pdcp_data_ind` for an entity that was found: parse, number, validate, and
hand the payload on. -/
def dataIndNumbered (env : Environment) (ctxt : Ctxt) (srbFlag : Bool) (rbIdP : Nat)
    (pdu : List UInt8) (pdcp : Entity) : Except Fault Outcome :=
  let rbId := rbIdP % maxDRB
  let (headerLen, tailerLen, sn) := parseHeader pdcp srbFlag pdu
  if pdu.length < headerLen + tailerLen then
    .ok { entity := some pdcp, events := [], ret := false }
  else
    -- A number outside the window is only logged; the PDU is processed anyway.
    let received := (isRxSeqNumberValid sn pdcp srbFlag).2
    match validateIfActivated env srbFlag rbIdP headerLen sn pdu
        (pdu.length - tailerLen) received with
    | .error fault => .error fault
    | .ok (validated, plain, events) =>
      if srbFlag then
        .ok
          { entity := some validated
            events := events ++
              [.rrcDataInd rbId ((plain.drop headerLen).take (pdu.length - headerLen - tailerLen))]
            ret := true }
      else
        submitPayload env ctxt srbFlag rbId sn plain pdu.length headerLen events
          (some validated)

/-- `pdcp_data_ind`; `found` is the entity in the PDCP collection, if any. -/
def dataInd (env : Environment) (ctxt : Ctxt) (srbFlag mbmsFlag : Bool) (rbIdP : Nat)
    (pdu : List UInt8) (found : Option Entity) : Except Fault Outcome :=
  let ignored : Outcome := { entity := found, events := [], ret := false }
  if mbmsFlag then
    if ¬ rbIdP < env.nbRbMbmsMax then .ok ignored
    else if pdu.length = 0 then .ok ignored
    -- MBMS traffic looks up no entity: `pdcp_p` stays a null pointer.
    else submitPayload env ctxt srbFlag rbIdP 0 pdu pdu.length 0 [] none
  else if rbIdP % maxDRB = 0 then .ok ignored
  else
    match found with
    | none => .ok ignored
    | some pdcp =>
      if pdu.length = 0 then .ok ignored
      else dataIndNumbered env ctxt srbFlag rbIdP pdu pdcp

def dataIndAll (env : Environment) (ctxt : Ctxt) (srbFlag : Bool) (rbIdP : Nat) :
    Option Entity → List (List UInt8) → Except Fault (List Outcome × Option Entity)
  | found, [] => .ok ([], found)
  | found, pdu :: rest =>
    match dataInd env ctxt srbFlag false rbIdP pdu found with
    | .error fault => .error fault
    | .ok outcome =>
      match dataIndAll env ctxt srbFlag rbIdP outcome.entity rest with
      | .error fault => .error fault
      | .ok (outcomes, final) => .ok (outcome :: outcomes, final)

end OpenAir.Pdcp
