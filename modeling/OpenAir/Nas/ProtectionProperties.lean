import Mathlib.Data.List.Forall2
import OpenAir.Nas.CountProperties
import OpenAir.Nas.ReceptionProperties

/-! Messages protected by the entity of the UE and read by that of the MME. The
counts of the two ends agree through every wrap of the sequence number. -/

set_option autoImplicit false

namespace OpenAir.Nas

open OpenAir.Base List Option SecurityContext

/-- A plain message and the type of header that protects it. The code in the
header and the two blocks are what was there before. -/
structure Outgoing where
  type : Fin 16
  octets : List UInt8
  code : UInt32
  sent : Nat → UInt8
  read : Nat → UInt8

def Outgoing.header (message : Outgoing) (ctx : SecurityContext) : SecurityHeader :=
  ⟨epsMobilityManagementMessage, message.type, message.code, ctx.ulCount.seqNum⟩

/-- Every message is sent by `nas_message_encrypt` of the UE and read by
`nas_message_decrypt` of the MME before the next. -/
def exchange (algorithms : Algorithms) :
    SecurityContext → SecurityContext → List Outgoing → Option (List Received)
  | _, _, [] => some []
  | ue, mme, message :: rest => do
    let sent ← nasMessageEncrypt algorithms .ue message.sent (message.header ue) message.octets
      (nasMessageSecurityHeaderSize + message.octets.length) (some ue)
    let received ← nasMessageDecrypt algorithms .mme message.read sent.octets (some mme)
    let nextUe ← sent.context
    let nextMme ← received.context
    let later ← exchange algorithms nextUe nextMme rest
    pure (received :: later)

structure Algorithms.Involutive (algorithms : Algorithms) : Prop where
  eea1 : ∀ stream : StreamCipher,
    algorithms.eea1 { stream with message := algorithms.eea1 stream } = stream.message
  eea2 : ∀ stream : StreamCipher,
    algorithms.eea2 { stream with message := algorithms.eea2 stream } = stream.message

section Message

variable {algorithms : Algorithms}

namespace Outgoing

variable {message : Outgoing}

theorem header_isProtected {ctx : SecurityContext}
    (secured : message.type ≠ securityHeaderTypeNotProtected) :
    (message.header ctx).isProtected := by
  simp [SecurityHeader.isProtected, header, secured]

def bytes (message : Outgoing) (algorithms : Algorithms) (ctx : SecurityContext) :
    List UInt8 :=
  (messageEncrypt algorithms (some ctx) message.type .uplink
    (load message.sent nasMessageSecurityHeaderSize message.octets.length) message.octets).1

def Sendable (message : Outgoing) : Prop :=
  (message.type = securityHeaderTypeIntegrityProtected ∨
    message.type = securityHeaderTypeIntegrityProtectedCyphered) ∧ message.octets ≠ []

theorem Sendable.known (sendable : message.Sendable) :
    isUnciphered message.type ∨ isCiphered message.type := by
  rcases sendable.1 with type | type
  · exact .inl (by rw [type]; rfl)
  · exact .inr (by rw [type]; rfl)

theorem Sendable.notPlain (sendable : message.Sendable) :
    message.type ≠ securityHeaderTypeNotProtected := by
  rcases sendable.1 with type | type
  · rw [type]; decide
  · rw [type]; decide

end Outgoing

variable (algorithms) in
theorem nasMessageEncrypt_sendable {message : Outgoing} (sendable : message.Sendable)
    (ctx : SecurityContext) :
    ∃ sent, nasMessageEncrypt algorithms .ue message.sent (message.header ctx)
        message.octets (nasMessageSecurityHeaderSize + message.octets.length) (some ctx) =
        some sent ∧
      sent.context = some (ctx.increment .uplink) ∧
      sent.octets = ctx.protect algorithms .uplink (message.header ctx)
        (message.bytes algorithms ctx) := by
  have secured : (message.header ctx).isProtected :=
    Outgoing.header_isProtected sendable.notPlain
  have filled : 0 < message.octets.length := length_pos_iff.mpr sendable.2
  have room : ¬ nasMessageSecurityHeaderSize + message.octets.length <
      nasMessageSecurityHeaderSize := Nat.not_lt.mpr (Nat.le_add_right ..)
  have sized : (messageEncrypt algorithms (some ctx)
      (message.header ctx).securityHeaderType .uplink
      (load message.sent nasMessageSecurityHeaderSize message.octets.length)
      message.octets).1.length = message.octets.length :=
    messageEncrypt_length ctx sendable.known .uplink (length_load ..)
  simp only [nasMessageEncrypt, headerEncode, secured, if_true, if_neg room, map_some,
    Side.sending, Nat.add_sub_cancel_left, load_getD, sized, gt_iff_lt, if_pos filled]
  exact ⟨_, rfl, rfl, rfl⟩

end Message

section Reception

variable {algorithms : Algorithms} {ue mme : SecurityContext} {message : Outgoing}

/-- What the MME reads of a message: of one ciphered with EEA2, the octets
deciphered with EEA1. -/
def Reads (algorithms : Algorithms) (encryption : EncryptionAlgorithm) (message : Outgoing)
    (received : Received) : Prop :=
  received.returned = message.octets.length ∧
    if encryption = .eea2 ∧ message.type = securityHeaderTypeIntegrityProtectedCyphered then
      ∃ stream : StreamCipher, stream.message = message.octets ∧
        received.octets = algorithms.eea1 { stream with message := algorithms.eea2 stream }
    else received.octets = message.octets

theorem messageDecrypt_sent (involutive : algorithms.Involutive) (same : SameKeys ue mme)
    (known : ue.encryption ≠ .unknown) (sendable : message.Sendable) :
    ∃ octets discriminator, messageDecrypt algorithms (some (mme.follow ue .uplink))
        message.type .uplink message.read (message.bytes algorithms ue) =
        some (octets, discriminator) ∧
      if ue.encryption = .eea2 ∧ message.type = securityHeaderTypeIntegrityProtectedCyphered then
        ∃ stream : StreamCipher, stream.message = message.octets ∧
          octets = algorithms.eea1 { stream with message := algorithms.eea2 stream }
      else octets = message.octets := by
  have encryption : (mme.follow ue .uplink).encryption = ue.encryption := same.encryption
  rcases sendable.1 with type | type
  · have unciphered : isUnciphered securityHeaderTypeIntegrityProtected := rfl
    have plain : ¬ securityHeaderTypeIntegrityProtected =
        securityHeaderTypeIntegrityProtectedCyphered := by decide
    simp only [messageDecrypt, Outgoing.bytes, messageEncrypt, type, unciphered, if_true, plain,
      and_false, if_false]
    exact ⟨_, _, rfl, rfl⟩
  · have ciphered : ¬ isUnciphered securityHeaderTypeIntegrityProtectedCyphered := by
      decide
    have ciphers : isCiphered securityHeaderTypeIntegrityProtectedCyphered := rfl
    simp only [messageDecrypt, Outgoing.bytes, messageEncrypt, type, if_neg ciphered, ciphers,
      if_true, map_some, same.cipherStream .uplink, encryption, and_true]
    cases algorithm : ue.encryption with
    | eea0 => exact ⟨_, _, rfl, rfl⟩
    | eea1 =>
      have twice := involutive.eea1 (ue.cipherStream .uplink message.octets)
      rw [cipherStream_message] at twice
      exact ⟨_, _, rfl, by simpa using twice⟩
    | eea2 =>
      refine ⟨_, _, rfl, ?_⟩
      refine ⟨ue.cipherStream .uplink message.octets, cipherStream_octets .., ?_⟩
      rw [cipherStream_message]
    | unknown => exact absurd algorithm known

theorem nasMessageDecrypt_sent (involutive : algorithms.Involutive) (same : SameKeys ue mme)
    (step : InStep .uplink ue mme) (known : ue.encryption ≠ .unknown)
    (sendable : message.Sendable) :
    ∃ received, nasMessageDecrypt algorithms .mme message.read
        (ue.protect algorithms .uplink (message.header ue) (message.bytes algorithms ue))
        (some mme) = some received ∧
      received.context = some (mme.follow ue .uplink) ∧
      Reads algorithms ue.encryption message received := by
  have secured : (message.header ue).isProtected :=
    Outgoing.header_isProtected sendable.notPlain
  have sized : (message.bytes algorithms ue).length = message.octets.length :=
    messageEncrypt_length ue sendable.known .uplink (length_load ..)
  obtain ⟨octets, discriminator, read, reads⟩ :=
    messageDecrypt_sent involutive same known sendable
  refine ⟨⟨some (mme.follow ue .uplink), message.octets.length, octets, discriminator⟩, ?_, rfl,
    rfl, reads⟩
  have stepped : InStep Side.mme.receiving ue mme := step
  have numbered : (message.header ue).sequenceNumber =
      (ue.count Side.mme.receiving).seqNum := rfl
  have type : (message.header ue).securityHeaderType = message.type := rfl
  calc nasMessageDecrypt algorithms .mme message.read
        (ue.protect algorithms .uplink (message.header ue) (message.bytes algorithms ue))
        (some mme)
    _ = _ := nasMessageDecrypt_protect same stepped numbered secured
          (message.bytes algorithms ue)
    _ = _ := by rw [Side.receiving, type, read, map_some, sized]

end Reception

section Exchange

variable {algorithms : Algorithms} {ue mme : SecurityContext}

theorem exchange_reads (involutive : algorithms.Involutive) (same : SameKeys ue mme)
    (step : InStep .uplink ue mme) (known : ue.encryption ≠ .unknown) {messages : List Outgoing}
    (sendable : ∀ message ∈ messages, message.Sendable) :
    ∃ receiveds, exchange algorithms ue mme messages = some receiveds ∧
      Forall₂ (Reads algorithms ue.encryption) messages receiveds := by
  induction messages generalizing ue mme with
  | nil => exact ⟨[], rfl, .nil⟩
  | cons message rest ih =>
    have sendableNow := sendable message (mem_cons_self ..)
    obtain ⟨sent, sending, nextUe, octets⟩ :=
      nasMessageEncrypt_sendable algorithms sendableNow ue
    obtain ⟨received, receiving, nextMme, reads⟩ :=
      nasMessageDecrypt_sent involutive same step known sendableNow
    obtain ⟨later, following, readsLater⟩ :=
      ih (same.increment .uplink) (inStep_increment .uplink ue mme) known
        fun other mem => sendable other (mem_cons_of_mem _ mem)
    rw [← octets] at receiving
    refine ⟨received :: later, ?_, .cons reads readsLater⟩
    simp only [exchange, sending, receiving, nextUe, nextMme, following, bind_eq_bind, bind_some]
    rfl

end Exchange

def Reproduces (message : Outgoing) (received : Received) : Prop :=
  received.returned = message.octets.length ∧ received.octets = message.octets

def invertingAlgorithms : Algorithms :=
  { Algorithms.plain fun _ => 0 with
    eea2 := fun stream => stream.message.map (~~~ ·)
    eea2_length := fun _ => by simp }

theorem invertingAlgorithms_involutive : invertingAlgorithms.Involutive :=
  ⟨fun _ => rfl, fun stream => by simp [invertingAlgorithms, Function.comp_def]⟩

theorem map_complement_ne {octets : List UInt8} (filled : octets ≠ []) :
    octets.map (~~~ ·) ≠ octets := by
  obtain ⟨octet, rest, rfl⟩ := exists_cons_of_ne_nil filled
  intro same
  have head : ~~~ octet = octet := (cons.inj same).1
  have bits := congrArg UInt8.toNat head
  rw [UInt8.toNat_not, UInt8.size] at bits
  omega

theorem uplink_round_trip_iff {ue mme : SecurityContext} (same : SameKeys ue mme)
    (freshUe : ue.ulCount = .zero) (freshMme : mme.ulCount = .zero)
    (known : ue.encryption ≠ .unknown) {messages : List Outgoing}
    (sendable : ∀ message ∈ messages, message.Sendable) :
    (∀ algorithms : Algorithms, algorithms.Involutive →
      ∃ receiveds, exchange algorithms ue mme messages = some receiveds ∧
        Forall₂ Reproduces messages receiveds) ↔
    (ue.encryption = .eea2 →
      ∀ message ∈ messages, message.type ≠ securityHeaderTypeIntegrityProtectedCyphered) := by
  have step : InStep .uplink ue mme := by
    rw [InStep, count_uplink, count_uplink, freshUe, freshMme]
    rfl
  constructor
  · intro reproduced second message mem ciphered
    obtain ⟨receiveds, received, reproduces⟩ :=
      reproduced invertingAlgorithms invertingAlgorithms_involutive
    obtain ⟨others, receivedAlso, reads⟩ :=
      exchange_reads invertingAlgorithms_involutive same step known sendable
    obtain rfl : receiveds = others := Option.some.inj (received.symm.trans receivedAlso)
    obtain ⟨index, within, rfl⟩ := getElem_of_mem mem
    have paired := reads.length_eq
    obtain ⟨-, read⟩ := Forall₂.get reads within (paired ▸ within)
    obtain ⟨-, kept⟩ := Forall₂.get reproduces within (paired ▸ within)
    rw [if_pos ⟨second, ciphered⟩] at read
    obtain ⟨stream, plain, inverted⟩ := read
    rw [kept] at inverted
    have same : stream.message.map (~~~ ·) = stream.message := inverted.symm.trans plain.symm
    have filled := (sendable _ mem).2
    exact map_complement_ne (plain ▸ filled) same
  · intro plain algorithms involutive
    obtain ⟨receiveds, received, reads⟩ := exchange_reads involutive same step known sendable
    have apart : ∀ message ∈ messages, ¬ (ue.encryption = .eea2 ∧
        message.type = securityHeaderTypeIntegrityProtectedCyphered) :=
      fun message mem both => plain both.1 message mem both.2
    refine ⟨receiveds, received, Forall₂.imp ?_ ((forall₂_and_left ..).mpr ⟨apart, reads⟩)⟩
    rintro message received ⟨other, returned, read⟩
    rw [if_neg other] at read
    exact ⟨returned, read⟩

def oneOctet (type : Fin 16) : Outgoing := ⟨type, [0x07], 0, fun _ => 0, fun _ => 0⟩

def secondContext : SecurityContext := ⟨[], [], .zero, .zero, .eea2, .eia2⟩

theorem uplink_round_trip_unciphered :
    ∃ receiveds, exchange invertingAlgorithms secondContext secondContext
        [oneOctet 1, oneOctet 1] = some receiveds ∧
      Forall₂ Reproduces [oneOctet 1, oneOctet 1] receiveds := by
  refine (uplink_round_trip_iff ⟨rfl, rfl, rfl, rfl⟩ rfl rfl (by decide) ?_).mpr
    (fun _ => by decide) invertingAlgorithms invertingAlgorithms_involutive
  intro message mem
  obtain rfl : message = oneOctet 1 := by simpa using mem
  exact ⟨.inl rfl, by decide⟩

/-- The MME reads the octet of a message ciphered with EEA2 inverted. -/
theorem not_reproduces_second_algorithm :
    ∃ received, exchange invertingAlgorithms secondContext secondContext [oneOctet 2] =
        some [received] ∧
      received.octets = [0xF8] ∧ ¬ Forall₂ Reproduces [oneOctet 2] [received] := by
  refine ⟨_, rfl, rfl, ?_⟩
  rw [forall₂_cons]
  exact fun both => absurd both.1.2 (by decide)

end OpenAir.Nas
