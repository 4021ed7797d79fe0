import OpenAir.Base.Memory
import OpenAir.Nas.SecurityContext

/-! Protection of NAS messages, after `nas_message.c`. What an output buffer
held before is the memory `block`. A null pointer that is followed is `none`. -/

set_option autoImplicit false

namespace OpenAir.Nas

open OpenAir.Base

def epsMobilityManagementMessage : Fin 16 := 7

def securityHeaderTypeNotProtected : Fin 16 := 0
def securityHeaderTypeIntegrityProtected : Fin 16 := 1
def securityHeaderTypeIntegrityProtectedCyphered : Fin 16 := 2
def securityHeaderTypeIntegrityProtectedNew : Fin 16 := 3
def securityHeaderTypeIntegrityProtectedCypheredNew : Fin 16 := 4
def securityHeaderTypeServiceRequest : Fin 16 := 12

def nasMessageSecurityHeaderSize : Nat := 6

def tlvEncodeBufferTooShort : Int := -13
def tlvDecodeBufferTooShort : Int := -12
def tlvDecodeMacMismatch : Int := -14

structure SecurityHeader where
  protocolDiscriminator : Fin 16
  securityHeaderType : Fin 16
  messageAuthenticationCode : UInt32
  sequenceNumber : UInt8
  deriving DecidableEq, Repr

def SecurityHeader.isProtected (header : SecurityHeader) : Bool :=
  decide (header.protocolDiscriminator = epsMobilityManagementMessage ∧
    header.securityHeaderType ≠ securityHeaderTypeNotProtected)

def isUnciphered (type : Fin 16) : Bool :=
  decide (type = securityHeaderTypeNotProtected ∨ type = securityHeaderTypeServiceRequest ∨
    type = securityHeaderTypeIntegrityProtected ∨ type = securityHeaderTypeIntegrityProtectedNew)

def isCiphered (type : Fin 16) : Bool :=
  decide (type = securityHeaderTypeIntegrityProtectedCyphered ∨
    type = securityHeaderTypeIntegrityProtectedCypheredNew)

def u32Octets (value : UInt32) : List UInt8 :=
  [(value >>> 24).toUInt8, (value >>> 16).toUInt8, (value >>> 8).toUInt8, value.toUInt8]

def u32At (octets : List UInt8) (offset : Nat) : UInt32 :=
  (octets.getD offset 0).toUInt32 <<< 24 ||| (octets.getD (offset + 1) 0).toUInt32 <<< 16 |||
    (octets.getD (offset + 2) 0).toUInt32 <<< 8 ||| (octets.getD (offset + 3) 0).toUInt32

def SecurityHeader.firstOctet (header : SecurityHeader) : UInt8 :=
  UInt8.ofNat (header.securityHeaderType.val * 16 + header.protocolDiscriminator.val)

def discriminatorOf (octet : UInt8) : Fin 16 :=
  ⟨octet.toNat % 16, Nat.mod_lt _ (by decide)⟩

def headerTypeOf (octet : UInt8) : Fin 16 :=
  ⟨octet.toNat / 16, by have := octet.toNat_lt; omega⟩

def SecurityHeader.octets (header : SecurityHeader) (mac : UInt32) : List UInt8 :=
  header.firstOctet :: u32Octets mac ++ [header.sequenceNumber]

/-- `_nas_message_header_encode` into a buffer of `length` octets. -/
def headerEncode (header : SecurityHeader) (length : Nat) : Option (List UInt8) :=
  if header.isProtected then
    if length < nasMessageSecurityHeaderSize then none
    else some (header.octets header.messageAuthenticationCode)
  else some [header.firstOctet]

/-- `_nas_message_header_decode`: the header and its size. The fields that a
plain message does not have stay zero. -/
def headerDecode (octets : List UInt8) : Option (SecurityHeader × Nat) :=
  let first := octets.headD 0
  let plain : SecurityHeader := ⟨discriminatorOf first, headerTypeOf first, 0, 0⟩
  if plain.isProtected then
    if octets.length < nasMessageSecurityHeaderSize then none
    else
      some ({ plain with
        messageAuthenticationCode := u32At octets 1
        sequenceNumber := octets.getD 5 0 }, nasMessageSecurityHeaderSize)
  else some (plain, 1)

/-- `_nas_message_encrypt`: the octets written and the streams passed on. It
returns the number of octets. An unknown algorithm writes none of them. -/
def messageEncrypt (algorithms : Algorithms) (ctx : Option SecurityContext) (type : Fin 16)
    (direction : Direction) (stale message : List UInt8) : List UInt8 × List StreamCipher :=
  match ctx with
  | none => ([], [])
  | some ctx =>
    if isUnciphered type then (message, [])
    else if isCiphered type then
      let stream := ctx.cipherStream direction message
      match ctx.encryption with
      | .eea1 => (algorithms.eea1 stream, [stream])
      | .eea2 => (algorithms.eea2 stream, [stream])
      | .eea0 => (message, [])
      | .unknown => (stale, [])
    else ([], [])

/-- `_nas_message_decrypt`: the octets in the output buffer and the protocol
discriminator. The branch of EEA2 calls `nas_stream_encrypt_eea1`. -/
def messageDecrypt (algorithms : Algorithms) (ctx : Option SecurityContext) (type : Fin 16)
    (direction : Direction) (block : Nat → UInt8) (message : List UInt8) :
    Option (List UInt8 × Fin 16) :=
  let result (octets : List UInt8) := (octets, discriminatorOf (octets.headD (block 0)))
  if isUnciphered type then some (result message)
  else if isCiphered type then
    ctx.map fun ctx =>
      let stream := ctx.cipherStream direction message
      match ctx.encryption with
      | .eea1 => result (algorithms.eea1 stream)
      | .eea2 => result (algorithms.eea1 stream)
      | .eea0 => result message
      | .unknown => result message
  else some (load block 0 message.length, 0)

/-- What a call that sends a message leaves behind: the context, the value
returned, the octets in the output buffer, and the streams it passed to the
algorithms. -/
structure Sent where
  context : Option SecurityContext
  returned : Int
  octets : List UInt8
  streams : List StreamCipher

def SecurityContext.increment (ctx : SecurityContext) (direction : Direction) :
    SecurityContext :=
  ctx.setCount (ctx.count direction).increment direction

/-- `nas_message_encrypt`, where `length` counts the octets of the message with
its security header. It increases the count of every message, also of a plain
one, and follows a null context to do so. -/
def nasMessageEncrypt (algorithms : Algorithms) (side : Side) (block : Nat → UInt8)
    (header : SecurityHeader) (inbuf : List UInt8) (length : Nat)
    (ctx : Option SecurityContext) : Option Sent :=
  match headerEncode header length with
  | none => some ⟨ctx, tlvEncodeBufferTooShort, [], []⟩
  | some head =>
    ctx.map fun ctx =>
      let next := some (ctx.increment side.sending)
      if header.isProtected then
        let size := length - nasMessageSecurityHeaderSize
        let (bytes, streams) := messageEncrypt algorithms (some ctx) header.securityHeaderType
          side.sending (load block nasMessageSecurityHeaderSize size)
          (load (inbuf.getD · 0) 0 size)
        if bytes.length > 0 then
          let (mac, macStreams) :=
            getMac algorithms (some ctx) side.sending (header.sequenceNumber :: bytes)
          ⟨next, nasMessageSecurityHeaderSize + bytes.length, header.octets mac ++ bytes,
            streams ++ macStreams⟩
        else ⟨next, nasMessageSecurityHeaderSize, head, streams⟩
      else ⟨next, length, load (inbuf.getD · 0) 0 length, []⟩

/-- `nas_message_t`: its header, and what `emm_msg_encode` or `esm_msg_encode`
write of it into a buffer of a given capacity, or their error code. -/
structure NasMessage where
  header : SecurityHeader
  encode : Nat → Except Int (List UInt8)

/-- `nas_message_encode` into a buffer of `length` octets. -/
def nasMessageEncode (algorithms : Algorithms) (side : Side) (block : Nat → UInt8)
    (message : NasMessage) (length : Nat) (ctx : Option SecurityContext) : Sent :=
  match headerEncode message.header length with
  | none => ⟨ctx, tlvEncodeBufferTooShort, [], []⟩
  | some head =>
    if message.header.isProtected then
      let size := length - nasMessageSecurityHeaderSize
      match message.encode size with
      | .ok (octet :: rest) =>
        let plain := octet :: rest
        let (bytes, streams) := messageEncrypt algorithms ctx
          message.header.securityHeaderType side.sending
          (load block nasMessageSecurityHeaderSize plain.length) plain
        if bytes.length > 0 then
          let (mac, macStreams) :=
            getMac algorithms ctx side.sending (message.header.sequenceNumber :: bytes)
          ⟨ctx.map (·.increment side.sending), nasMessageSecurityHeaderSize + bytes.length,
            message.header.octets mac ++ bytes, streams ++ macStreams⟩
        else ⟨ctx, nasMessageSecurityHeaderSize, head, streams⟩
      | _ => ⟨ctx, tlvEncodeBufferTooShort, head, []⟩
    else
      match message.encode length with
      | .ok octets => ⟨ctx, octets.length, octets, []⟩
      | .error code => ⟨ctx, code, head, []⟩

structure Received where
  context : Option SecurityContext
  returned : Int
  octets : List UInt8
  protocolDiscriminator : Fin 16
  deriving DecidableEq

/-- The count that the header of a received message sets, before its code is
checked. -/
def SecurityContext.receive (ctx : SecurityContext) (side : Side) (header : SecurityHeader) :
    SecurityContext :=
  ctx.setCount ((ctx.count side.receiving).receive header.sequenceNumber) side.receiving

def receivedMac (algorithms : Algorithms) (side : Side) (ctx : Option SecurityContext)
    (octets : List UInt8) : UInt32 :=
  (getMac algorithms ctx side.receiving (octets.drop (nasMessageSecurityHeaderSize - 1))).1

/-- `nas_message_decrypt`. The entity of the UE lets a wrong code pass if EIA0
is selected. -/
def nasMessageDecrypt (algorithms : Algorithms) (side : Side) (block : Nat → UInt8)
    (octets : List UInt8) (ctx : Option SecurityContext) : Option Received :=
  match headerDecode octets with
  | none => some ⟨ctx, tlvDecodeBufferTooShort, [], discriminatorOf (octets.headD 0)⟩
  | some (header, _) =>
    if header.isProtected then
      let ctx := ctx.map (·.receive side header)
      let accepted :=
        if receivedMac algorithms side ctx octets ≠ header.messageAuthenticationCode then
          match side with
          | .mme => some false
          | .ue => ctx.map fun ctx => decide (ctx.integrity = .eia0)
        else some true
      accepted.bind fun accepted =>
        if accepted then
          (messageDecrypt algorithms ctx header.securityHeaderType side.receiving block
            (octets.drop nasMessageSecurityHeaderSize)).map fun (plain, discriminator) =>
              ⟨ctx, octets.length - nasMessageSecurityHeaderSize, plain, discriminator⟩
        else
          some ⟨ctx, tlvDecodeMacMismatch, [], header.protocolDiscriminator⟩
    else some ⟨ctx, octets.length, octets, header.protocolDiscriminator⟩

/-- `nas_message_decode`, where `decode` is what `emm_msg_decode`,
`esm_msg_decode` or the branch for other protocols returns. -/
def nasMessageDecode (algorithms : Algorithms) (side : Side)
    (decode : Fin 16 → List UInt8 → Int) (octets : List UInt8)
    (ctx : Option SecurityContext) : Option Received :=
  match headerDecode octets with
  | none => some ⟨ctx, tlvDecodeBufferTooShort, [], discriminatorOf (octets.headD 0)⟩
  | some (header, _) =>
    if header.isProtected then
      let ctx := ctx.map (·.receive side header)
      let mac := receivedMac algorithms side ctx octets
      let code := header.messageAuthenticationCode
      let mac := if ctx = none ∧ mac = 0 ∧ code ≠ 0 then code else mac
      if mac ≠ code then
        some ⟨ctx, tlvDecodeMacMismatch, [], header.protocolDiscriminator⟩
      else
        (messageDecrypt algorithms ctx header.securityHeaderType side.receiving (fun _ => 0)
          (octets.drop nasMessageSecurityHeaderSize)).map fun (plain, discriminator) =>
            let bytes := decode discriminator plain
            ⟨ctx, if bytes < 0 then bytes else nasMessageSecurityHeaderSize + bytes, plain,
              discriminator⟩
    else
      some ⟨ctx, decode header.protocolDiscriminator octets, octets,
        header.protocolDiscriminator⟩

end OpenAir.Nas
