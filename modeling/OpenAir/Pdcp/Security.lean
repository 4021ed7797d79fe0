import OpenAir.Pdcp.SequenceManager

/-! COUNT construction and the two security entry points of
`pdcp_security.c`. The stream ciphers themselves are parameters; what each call
hands to them is recorded as an event. -/

set_option autoImplicit false

namespace OpenAir.Pdcp

/-- `PDCP_Config__rlc_UM__pdcp_SN_Size_len7bits` of the generated RRC headers. -/
def pdcpSnSizeLen7bits : Nat := 0

def maxDRB : Nat := 11
def nbRbMax : Nat := maxDRB + 3

inductive Direction where
  | uplink
  | downlink
  deriving DecidableEq, Repr

/-- `stream_cipher_t`; `message` is the memory at the message pointer, of
which `blength` bits are covered. -/
structure StreamCipher where
  key : List UInt8
  keyLength : Nat
  count : Nat
  bearer : Nat
  direction : Direction
  message : List UInt8
  blength : Nat
  deriving DecidableEq, Repr

structure StreamOps where
  encrypt : Nat → StreamCipher → List UInt8
  computeIntegrity : Nat → StreamCipher → List UInt8
  checkIntegrity : Nat → StreamCipher → List UInt8 → Int

inductive Fault where
  | devCheck
  | macphyExit
  | nullDereference
  deriving DecidableEq, Repr

inductive Event where
  | streamEncrypt (algorithm : Nat) (params : StreamCipher)
  | streamComputeIntegrity (algorithm : Nat) (params : StreamCipher)
  | streamCheckIntegrity (algorithm : Nat) (params : StreamCipher) (result : Int)
  | rlcDataReq (mbmsFlag : Bool) (rbId mui confirm : Nat) (pdu : List UInt8)
  | rrcDataInd (rbId : Nat) (sdu : List UInt8)
  | gtpv1uTunnelDataReq (rnti rabId : Nat) (sdu : List UInt8)
  | sduListAdd (rbId : Nat) (sdu : List UInt8)
  deriving DecidableEq, Repr

def Event.count? : Event → Option Nat
  | .streamEncrypt _ params => some params.count
  | .streamComputeIntegrity _ params => some params.count
  | .streamCheckIntegrity _ params _ => some params.count
  | .rlcDataReq .. => none
  | .rrcDataInd .. => none
  | .gtpv1uTunnelDataReq .. => none
  | .sduListAdd .. => none

def usedCounts (events : List Event) : List Nat := events.filterMap Event.count?

/-- `pdcp_get_next_count_tx`, in 32-bit arithmetic. -/
def getNextCountTx (pdcp : Entity) (srbFlag : Bool) (pdcpSn : Nat) : Nat :=
  if srbFlag then
    (pdcp.txHfn <<< 5) % 2 ^ 32 ||| (pdcpSn &&& 0x001F)
  else if pdcp.seqNumSize = pdcpSnSizeLen7bits then
    (pdcp.txHfn <<< 7) % 2 ^ 32 ||| (pdcpSn &&& 0x07F)
  else
    (pdcp.txHfn <<< 12) % 2 ^ 32 ||| (pdcpSn &&& 0x0FFF)

/-- `rx_hfn + rx_hfn_offset`, the offset converted to 32 unsigned bits. -/
def offsetRxHfn (pdcp : Entity) : Nat :=
  (((pdcp.rxHfn : Int) + pdcp.rxHfnOffset) % 2 ^ 32).toNat

/-- `pdcp_get_next_count_rx`: the COUNT, and the entity with its offset reset. -/
def getNextCountRx (pdcp : Entity) (srbFlag : Bool) (pdcpSn : Nat) : Nat × Entity :=
  let count :=
    if srbFlag then
      (offsetRxHfn pdcp <<< 5) % 2 ^ 32 ||| (pdcpSn &&& 0x001F)
    else if pdcp.seqNumSize = pdcpSnSizeLen7bits then
      (offsetRxHfn pdcp <<< 7) % 2 ^ 32 ||| (pdcpSn &&& 0x007F)
    else
      (offsetRxHfn pdcp <<< 12) % 2 ^ 32 ||| (pdcpSn &&& 0x0FFF)
  (count, { pdcp with rxHfnOffset := 0 })

def bearerOf (rbId : Nat) : Nat := (((rbId : Int) - 1) % 2 ^ 8).toNat

def overwriteAt (buffer : List UInt8) (offset : Nat) (octets : List UInt8) : List UInt8 :=
  buffer.take offset ++ octets ++ buffer.drop (offset + octets.length)

/-- `pdcp_apply_security`: the protected PDU buffer and the stream calls made. -/
def applySecurity (ops : StreamOps) (pdcp : Entity) (srbFlag : Bool) (rbId : Nat)
    (pdcpHeaderLen currentSn : Nat) (pdu : List UInt8) (sduBufferSize : Nat) :
    Except Fault (List UInt8 × List Event) :=
  if ¬ rbId < nbRbMax then .error .devCheck
  else
    let base : StreamCipher :=
      { key := []
        keyLength := 16
        count := getNextCountTx pdcp srbFlag currentSn
        bearer := bearerOf rbId
        direction := if pdcp.isUe then .uplink else .downlink
        message := pdu
        blength := ((pdcpHeaderLen + sduBufferSize) <<< 3) % 2 ^ 32 }
    let integrity : List UInt8 × List Event :=
      if srbFlag then
        let params := { base with key := pdcp.kRRCint.drop 16 }
        (overwriteAt pdu (pdcpHeaderLen + sduBufferSize)
            (ops.computeIntegrity pdcp.integrityProtAlgorithm params),
          [.streamComputeIntegrity pdcp.integrityProtAlgorithm params])
      else (pdu, [])
    let params := { base with
      key := if srbFlag then pdcp.kRRCenc else pdcp.kUPenc
      message := integrity.1.drop pdcpHeaderLen
      blength := (sduBufferSize <<< 3) % 2 ^ 32 }
    .ok (overwriteAt integrity.1 pdcpHeaderLen (ops.encrypt pdcp.cipheringAlgorithm params),
      integrity.2 ++ [.streamEncrypt pdcp.cipheringAlgorithm params])

/-- What `pdcp_validate_security` returns and leaves behind. -/
structure Validation where
  status : Int
  entity : Entity
  pdu : List UInt8
  events : List Event

/-- `pdcp_validate_security`. `sduBufferSize` excludes the MAC-I trailer. -/
def validateSecurity (ops : StreamOps) (pdcp : Entity) (srbFlag : Bool) (rbId : Nat)
    (pdcpHeaderLen currentSn : Nat) (pdu : List UInt8) (sduBufferSize : Nat) :
    Except Fault Validation :=
  if ¬ rbId < nbRbMax then .error .devCheck
  else
    let counted := getNextCountRx pdcp srbFlag currentSn
    let params : StreamCipher :=
      { key := if srbFlag then pdcp.kRRCenc else pdcp.kUPenc
        keyLength := 16
        count := counted.1
        bearer := bearerOf rbId
        direction := if pdcp.isUe then .downlink else .uplink
        message := pdu.drop pdcpHeaderLen
        blength := ((sduBufferSize - pdcpHeaderLen) <<< 3) % 2 ^ 32 }
    -- `stream_decrypt` is defined as `stream_encrypt`.
    let deciphered :=
      overwriteAt pdu pdcpHeaderLen (ops.encrypt pdcp.cipheringAlgorithm params)
    let decrypted : Event := .streamEncrypt pdcp.cipheringAlgorithm params
    if srbFlag then
      let check := { params with
        message := deciphered
        blength := (sduBufferSize <<< 3) % 2 ^ 32
        key := pdcp.kRRCint.drop 16 }
      let result :=
        ops.checkIntegrity pdcp.integrityProtAlgorithm check (deciphered.drop sduBufferSize)
      .ok
        { status := if result ≠ 0 then -1 else 0
          entity := counted.2
          pdu := deciphered
          events := [decrypted, .streamCheckIntegrity pdcp.integrityProtAlgorithm check result] }
    else
      .ok { status := 0, entity := counted.2, pdu := deciphered, events := [decrypted] }

@[simp] theorem usedCounts_append (left right : List Event) :
    usedCounts (left ++ right) = usedCounts left ++ usedCounts right :=
  List.filterMap_append

theorem validateSecurity_returns (ops : StreamOps) (pdcp : Entity) (srbFlag : Bool) {rbId : Nat}
    (known : rbId < nbRbMax) (headerLen sn : Nat) (pdu : List UInt8) (size : Nat) :
    ∃ validation,
      validateSecurity ops pdcp srbFlag rbId headerLen sn pdu size = .ok validation ∧
      validation.entity = { pdcp with rxHfnOffset := 0 } ∧
      usedCounts validation.events =
        List.replicate (if srbFlag then 2 else 1) (getNextCountRx pdcp srbFlag sn).1 := by
  cases srbFlag with
  | true =>
    refine ⟨_, by rw [validateSecurity, if_neg (not_not.mpr known)]; rfl, rfl, ?_⟩
    rfl
  | false =>
    refine ⟨_, by rw [validateSecurity, if_neg (not_not.mpr known)]; rfl, rfl, ?_⟩
    rfl

end OpenAir.Pdcp
