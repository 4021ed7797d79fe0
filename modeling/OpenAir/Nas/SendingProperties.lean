import OpenAir.Nas.Message

/-! Sending a protected message: what goes out is the header with its code in
front of the ciphered octets. -/

set_option autoImplicit false

namespace OpenAir.Nas

open OpenAir.Base

def SecurityContext.codeOf (ctx : SecurityContext) (algorithms : Algorithms)
    (direction : Direction) (header : SecurityHeader) (bytes : List UInt8) : UInt32 :=
  (getMac algorithms (some ctx) direction (header.sequenceNumber :: bytes)).1

def SecurityContext.protect (ctx : SecurityContext) (algorithms : Algorithms)
    (direction : Direction) (header : SecurityHeader) (bytes : List UInt8) : List UInt8 :=
  header.octets (ctx.codeOf algorithms direction header bytes) ++ bytes

inductive SendInput where
  | encode (block : Nat → UInt8) (message : NasMessage) (length : Nat)
  | encrypt (block : Nat → UInt8) (header : SecurityHeader) (inbuf : List UInt8) (length : Nat)

def SendInput.header : SendInput → SecurityHeader
  | .encode _ message _ => message.header
  | .encrypt _ header _ _ => header

def SendInput.send (algorithms : Algorithms) (side : Side) (ctx : SecurityContext) :
    SendInput → Option Sent
  | .encode block message length =>
    some (nasMessageEncode algorithms side block message length (some ctx))
  | .encrypt block header inbuf length =>
    nasMessageEncrypt algorithms side block header inbuf length (some ctx)

def SendInput.HasContent : SendInput → Prop
  | .encode _ message length =>
    nasMessageSecurityHeaderSize ≤ length ∧
      ∃ octet rest, message.encode (length - nasMessageSecurityHeaderSize) = .ok (octet :: rest)
  | .encrypt _ _ _ length => nasMessageSecurityHeaderSize < length

def SendInput.Protects (input : SendInput) : Prop :=
  input.header.isProtected ∧
    (isUnciphered input.header.securityHeaderType ∨ isCiphered input.header.securityHeaderType) ∧
    input.HasContent

section Sending

variable {algorithms : Algorithms}

theorem messageEncrypt_length (ctx : SecurityContext) {type : Fin 16}
    (known : isUnciphered type ∨ isCiphered type) (direction : Direction)
    {stale message : List UInt8} (sized : stale.length = message.length) :
    (messageEncrypt algorithms (some ctx) type direction stale message).1.length =
      message.length := by
  simp only [messageEncrypt]
  split
  · rfl
  next ciphered =>
    rw [if_pos (known.resolve_left ciphered)]
    cases ctx.encryption with
    | eea0 => rfl
    | eea1 => exact algorithms.eea1_length _
    | eea2 => exact algorithms.eea2_length _
    | unknown => exact sized

variable (algorithms) in
theorem send_protects {input : SendInput} (secured : input.Protects) (side : Side)
    (ctx : SecurityContext) :
    ∃ sent stale message bytes, input.send algorithms side ctx = some sent ∧
      0 < bytes.length ∧
      sent.context = some (ctx.increment side.sending) ∧
      sent.octets = ctx.protect algorithms side.sending input.header bytes ∧
      sent.streams = (messageEncrypt algorithms (some ctx) input.header.securityHeaderType
          side.sending stale message).2 ++
        (getMac algorithms (some ctx) side.sending
          (input.header.sequenceNumber :: bytes)).2 := by
  obtain ⟨headed, known, content⟩ := secured
  cases input with
  | encode block message length =>
    obtain ⟨room, octet, rest, encoded⟩ := content
    simp only [SendInput.header] at headed known
    have fits : ¬ length < nasMessageSecurityHeaderSize := Nat.not_lt.mpr room
    have sized : (messageEncrypt algorithms (some ctx) message.header.securityHeaderType
        side.sending (load block nasMessageSecurityHeaderSize (rest.length + 1))
        (octet :: rest)).1.length = rest.length + 1 :=
      messageEncrypt_length ctx known side.sending (length_load ..)
    have filled : 0 < (messageEncrypt algorithms (some ctx)
        message.header.securityHeaderType side.sending
        (load block nasMessageSecurityHeaderSize (rest.length + 1))
        (octet :: rest)).1.length := by
      rw [sized]
      exact Nat.succ_pos _
    refine ⟨_, load block nasMessageSecurityHeaderSize (rest.length + 1), octet :: rest, _, rfl,
      filled, ?_⟩
    simp only [nasMessageEncode, headerEncode, headed, if_true, if_neg fits, encoded,
      List.length_cons, gt_iff_lt, if_pos filled]
    exact ⟨rfl, rfl, rfl⟩
  | encrypt block header inbuf length =>
    simp only [SendInput.header] at headed known
    have fits : ¬ length < nasMessageSecurityHeaderSize :=
      Nat.not_lt.mpr (Nat.le_of_lt content)
    have sized : (messageEncrypt algorithms (some ctx) header.securityHeaderType
        side.sending
        (load block nasMessageSecurityHeaderSize (length - nasMessageSecurityHeaderSize))
        (load (inbuf.getD · 0) 0 (length - nasMessageSecurityHeaderSize))).1.length =
        length - nasMessageSecurityHeaderSize := by
      rw [messageEncrypt_length ctx known side.sending (by simp), length_load]
    have filled : 0 < (messageEncrypt algorithms (some ctx) header.securityHeaderType
        side.sending
        (load block nasMessageSecurityHeaderSize (length - nasMessageSecurityHeaderSize))
        (load (inbuf.getD · 0) 0 (length - nasMessageSecurityHeaderSize))).1.length := by
      rw [sized]
      exact Nat.sub_pos_of_lt content
    simp only [SendInput.send, nasMessageEncrypt, headerEncode, headed, if_true, if_neg fits,
      Option.map_some, gt_iff_lt, if_pos filled]
    exact ⟨_, _, _, _, rfl, filled, rfl, rfl, rfl⟩

end Sending

end OpenAir.Nas
