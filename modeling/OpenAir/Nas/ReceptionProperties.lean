import OpenAir.Nas.SendingProperties

/-! Reading a protected message: its header is the one that was written, and
its code decides what is done with it. -/

set_option autoImplicit false

namespace OpenAir.Nas

open SecurityContext

section Octets

variable (header : SecurityHeader)

theorem u32At_octets (mac : UInt32) (bytes : List UInt8) :
    u32At (header.octets mac ++ bytes) 1 = mac := by
  simp only [SecurityHeader.octets, u32Octets, List.cons_append, List.nil_append, u32At,
    List.getD_cons_succ, List.getD_cons_zero]
  apply UInt32.toBitVec_inj.mp
  apply BitVec.eq_of_getLsbD_eq
  simp only [UInt32.toBitVec_or, UInt32.toBitVec_shiftLeft, UInt32.toBitVec_shiftRight,
    UInt8.toBitVec_toUInt32, UInt32.toBitVec_toUInt8, UInt32.toBitVec_ofNat, BitVec.reduceMod,
    BitVec.shiftLeft_eq', BitVec.ushiftRight_eq', BitVec.getLsbD_or, BitVec.getLsbD_shiftLeft]
  grind

theorem SecurityHeader.toNat_firstOctet :
    header.firstOctet.toNat =
      header.securityHeaderType.val * 16 + header.protocolDiscriminator.val := by
  rw [SecurityHeader.firstOctet, UInt8.toNat_ofNat']
  omega

theorem discriminatorOf_firstOctet :
    discriminatorOf header.firstOctet = header.protocolDiscriminator := by
  apply Fin.ext
  simp only [discriminatorOf, header.toNat_firstOctet]
  omega

theorem headerTypeOf_firstOctet : headerTypeOf header.firstOctet = header.securityHeaderType := by
  apply Fin.ext
  simp only [headerTypeOf, header.toNat_firstOctet]
  omega

@[simp] theorem SecurityHeader.length_octets (mac : UInt32) :
    (header.octets mac).length = nasMessageSecurityHeaderSize := rfl

def SecurityHeader.coded (header : SecurityHeader) (mac : UInt32) : SecurityHeader :=
  { header with messageAuthenticationCode := mac }

theorem headerDecode_octets {header : SecurityHeader} (secured : header.isProtected)
    (mac : UInt32) (bytes : List UInt8) :
    headerDecode (header.octets mac ++ bytes) =
      some (header.coded mac, nasMessageSecurityHeaderSize) := by
  have first : (header.octets mac ++ bytes).headD 0 = header.firstOctet := rfl
  have sequence : (header.octets mac ++ bytes).getD 5 0 = header.sequenceNumber := rfl
  have sized : ¬ (header.octets mac ++ bytes).length < nasMessageSecurityHeaderSize := by
    simp
  have plain : ∀ mac sequence, (⟨header.protocolDiscriminator, header.securityHeaderType, mac,
      sequence⟩ : SecurityHeader).isProtected := fun _ _ => secured
  simp only [headerDecode, first, discriminatorOf_firstOctet, headerTypeOf_firstOctet, plain,
    if_true, if_neg sized, u32At_octets, sequence, SecurityHeader.coded]

end Octets

section Counts

structure SameKeys (sender receiver : SecurityContext) : Prop where
  knasEnc : receiver.knasEnc = sender.knasEnc
  knasInt : receiver.knasInt = sender.knasInt
  encryption : receiver.encryption = sender.encryption
  integrity : receiver.integrity = sender.integrity

/-- What the next sequence number of the sender makes of the count of the
receiver is the count of the sender. -/
def InStep (direction : Direction) (sender receiver : SecurityContext) : Prop :=
  (receiver.count direction).receive (sender.count direction).seqNum = sender.count direction

def SecurityContext.follow (receiver sender : SecurityContext) (direction : Direction) :
    SecurityContext :=
  receiver.setCount (sender.count direction) direction

theorem Count.receive_increment (count : Count) :
    count.receive count.increment.seqNum = count.increment := by
  have carries : count.seqNum > count.seqNum + 1 ↔ count.seqNum + 1 = 0 := by
    rw [gt_iff_lt, UInt8.lt_iff_toNat_lt, ← UInt8.toNat_inj, UInt8.toNat_add]
    have bounded := count.seqNum.toNat_lt
    simp only [UInt8.toNat_one, UInt8.toNat_zero]
    omega
  simp only [Count.receive, Count.increment, carries]

variable {direction : Direction} {sender receiver : SecurityContext}

theorem inStep_increment (direction : Direction) (sender receiver : SecurityContext) :
    InStep direction (sender.increment direction) (receiver.follow sender direction) := by
  simp only [InStep, increment, follow, count_setCount]
  exact Count.receive_increment (sender.count direction)

theorem SameKeys.increment (same : SameKeys sender receiver) (direction : Direction) :
    SameKeys (sender.increment direction) (receiver.follow sender direction) := by
  cases direction with
  | uplink => exact { same with }
  | downlink => exact { same with }

theorem SameKeys.follow (same : SameKeys sender receiver) (direction : Direction) :
    SameKeys sender (receiver.follow sender direction) := by
  cases direction with
  | uplink => exact { same with }
  | downlink => exact { same with }

theorem InStep.receive {side : Side} (step : InStep side.receiving sender receiver)
    {header : SecurityHeader}
    (numbered : header.sequenceNumber = (sender.count side.receiving).seqNum) :
    receiver.receive side header = receiver.follow sender side.receiving := by
  rw [SecurityContext.receive, SecurityContext.follow, numbered, step]

theorem SameKeys.cipherStream (same : SameKeys sender receiver) (direction : Direction)
    (octets : List UInt8) :
    (receiver.follow sender direction).cipherStream direction octets =
      sender.cipherStream direction octets := by
  rw [SecurityContext.cipherStream, (same.follow direction).knasEnc, SecurityContext.follow,
    SecurityContext.count_setCount, ← SecurityContext.cipherStream]

theorem SameKeys.getMac (same : SameKeys sender receiver) (algorithms : Algorithms)
    (direction : Direction) (octets : List UInt8) :
    getMac algorithms (some (receiver.follow sender direction)) direction octets =
      getMac algorithms (some sender) direction octets := by
  have stream : (receiver.follow sender direction).macStream direction octets =
      sender.macStream direction octets := by
    rw [SecurityContext.macStream, (same.follow direction).knasInt, SecurityContext.follow,
      SecurityContext.count_setCount, ← SecurityContext.macStream]
  simp only [Nas.getMac, stream, (same.follow direction).integrity]

end Counts

section Reception

variable {algorithms : Algorithms} {side : Side} {block : Nat → UInt8} {octets : List UInt8}
  {decode : Fin 16 → List UInt8 → Int} {sender ctx : SecurityContext}
  {header : SecurityHeader} {size : Nat}

theorem headerDecode_protect (secured : header.isProtected) (algorithms : Algorithms)
    (direction : Direction) (bytes : List UInt8) :
    headerDecode (sender.protect algorithms direction header bytes) =
      some (header.coded (sender.codeOf algorithms direction header bytes),
        nasMessageSecurityHeaderSize) :=
  headerDecode_octets secured _ bytes

@[simp] theorem drop_protect (sender : SecurityContext) (algorithms : Algorithms)
    (direction : Direction) (header : SecurityHeader) (bytes : List UInt8) :
    (sender.protect algorithms direction header bytes).drop nasMessageSecurityHeaderSize =
      bytes := rfl

@[simp] theorem length_protect (sender : SecurityContext) (algorithms : Algorithms)
    (direction : Direction) (header : SecurityHeader) (bytes : List UInt8) :
    (sender.protect algorithms direction header bytes).length =
      bytes.length + nasMessageSecurityHeaderSize := rfl

section

variable (decoded : headerDecode octets = some (header, size))

include decoded

variable (secured : header.isProtected)

include secured

theorem nasMessageDecrypt_accepted
    (authentic : receivedMac algorithms side (some (ctx.receive side header)) octets =
      header.messageAuthenticationCode) :
    nasMessageDecrypt algorithms side block octets (some ctx) =
      (messageDecrypt algorithms (some (ctx.receive side header)) header.securityHeaderType
        side.receiving block (octets.drop nasMessageSecurityHeaderSize)).map fun plain =>
          ⟨some (ctx.receive side header), octets.length - nasMessageSecurityHeaderSize,
            plain.1, plain.2⟩ := by
  simp [nasMessageDecrypt, decoded, secured, authentic]

theorem nasMessageDecrypt_rejected (checked : ctx.integrity ≠ .eia0)
    (forged : receivedMac algorithms side (some (ctx.receive side header)) octets ≠
      header.messageAuthenticationCode) :
    nasMessageDecrypt algorithms side block octets (some ctx) =
      some ⟨some (ctx.receive side header), tlvDecodeMacMismatch, [],
        header.protocolDiscriminator⟩ := by
  have stillChecked : (ctx.receive side header).integrity ≠ .eia0 := by
    cases side with
    | ue => exact checked
    | mme => exact checked
  simp only [nasMessageDecrypt, decoded, secured, if_true, Option.map_some, forged, ne_eq,
    not_false_eq_true]
  cases side with
  | ue => simp [stillChecked]
  | mme => rfl

theorem nasMessageDecode_accepted
    (authentic : receivedMac algorithms side (some (ctx.receive side header)) octets =
      header.messageAuthenticationCode) :
    nasMessageDecode algorithms side decode octets (some ctx) =
      (messageDecrypt algorithms (some (ctx.receive side header)) header.securityHeaderType
        side.receiving (fun _ => 0) (octets.drop nasMessageSecurityHeaderSize)).map fun plain =>
          ⟨some (ctx.receive side header),
            if decode plain.2 plain.1 < 0 then decode plain.2 plain.1
            else nasMessageSecurityHeaderSize + decode plain.2 plain.1,
            plain.1, plain.2⟩ := by
  simp [nasMessageDecode, decoded, secured, authentic]

theorem nasMessageDecode_rejected
    (forged : receivedMac algorithms side (some (ctx.receive side header)) octets ≠
      header.messageAuthenticationCode) :
    nasMessageDecode algorithms side decode octets (some ctx) =
      some ⟨some (ctx.receive side header), tlvDecodeMacMismatch, [],
        header.protocolDiscriminator⟩ := by
  simp [nasMessageDecode, decoded, secured, forged]

end

variable (algorithms) in
theorem receivedMac_protect (same : SameKeys sender ctx)
    (step : InStep side.receiving sender ctx)
    (numbered : header.sequenceNumber = (sender.count side.receiving).seqNum)
    (bytes : List UInt8) (mac : UInt32) :
    receivedMac algorithms side (some (ctx.receive side (header.coded mac)))
        (sender.protect algorithms side.receiving header bytes) =
      sender.codeOf algorithms side.receiving header bytes := by
  have coded : (header.coded mac).sequenceNumber = (sender.count side.receiving).seqNum := numbered
  rw [receivedMac, step.receive coded, same.getMac]
  rfl

theorem nasMessageDecrypt_protect (same : SameKeys sender ctx)
    (step : InStep side.receiving sender ctx)
    (numbered : header.sequenceNumber = (sender.count side.receiving).seqNum)
    (secured : header.isProtected) (bytes : List UInt8) :
    nasMessageDecrypt algorithms side block
        (sender.protect algorithms side.receiving header bytes) (some ctx) =
      (messageDecrypt algorithms (some (ctx.follow sender side.receiving))
        header.securityHeaderType side.receiving block bytes).map fun plain =>
          ⟨some (ctx.follow sender side.receiving), bytes.length, plain.1, plain.2⟩ := by
  have decoded : headerDecode (sender.protect algorithms side.receiving header bytes) = _ :=
    headerDecode_protect secured algorithms side.receiving bytes
  have authentic := receivedMac_protect algorithms same step numbered bytes
    (sender.codeOf algorithms side.receiving header bytes)
  have type (mac : UInt32) : (header.coded mac).securityHeaderType = header.securityHeaderType :=
    rfl
  have next (mac : UInt32) : ctx.receive side (header.coded mac) =
      ctx.follow sender side.receiving := step.receive numbered
  rw [nasMessageDecrypt_accepted decoded secured authentic, type, next, drop_protect,
    length_protect, Int.natCast_add, Int.add_sub_cancel]

end Reception

end OpenAir.Nas
