import OpenAir.Base.Execution
import OpenAir.Nas.ReceptionProperties

/-! Messages with a wrong code presented to the entity of the UE. The sequence
number of their header is taken over before the code is checked. -/

set_option autoImplicit false

namespace OpenAir.Nas

open OpenAir.Base Option

/-- A byte string given to one of the two functions that read a message. -/
inductive Presented where
  | decrypt (block : Nat → UInt8) (octets : List UInt8)
  | decode (decoder : Fin 16 → List UInt8 → Int) (octets : List UInt8)

def Presented.octets : Presented → List UInt8
  | .decrypt _ octets => octets
  | .decode _ octets => octets

def Presented.call (algorithms : Algorithms) (ctx : SecurityContext) :
    Presented → Option Received
  | .decrypt block octets => nasMessageDecrypt algorithms .ue block octets (some ctx)
  | .decode decoder octets => nasMessageDecode algorithms .ue decoder octets (some ctx)

/-- The message gets past the check of its code: what is returned is its length
or what its decoder makes of the plain message. -/
def Presented.Accepted (presented : Presented) (received : Received) : Prop :=
  (presented.octets.drop nasMessageSecurityHeaderSize).length = received.octets.length ∧
  match presented with
  | .decrypt _ _ => received.returned = received.octets.length
  | .decode decoder _ =>
    let bytes := decoder received.protocolDiscriminator received.octets
    received.returned = if bytes < 0 then bytes else nasMessageSecurityHeaderSize + bytes

def Forged (algorithms : Algorithms) (ctx : SecurityContext) (octets : List UInt8) : Prop :=
  ∃ header size, headerDecode octets = some (header, size) ∧ header.isProtected ∧
    receivedMac algorithms .ue (some (ctx.receive .ue header)) octets ≠
      header.messageAuthenticationCode

def sequenceOf (octets : List UInt8) : UInt8 := octets.getD 5 0

def Presented.step (algorithms : Algorithms) (ctx : SecurityContext)
    (presented : Presented) : Option SecurityContext :=
  (presented.call algorithms ctx).bind (·.context)

def Harmless (algorithms : Algorithms) (ctx : SecurityContext) (presented : Presented) :
    Prop :=
  ∃ received next, presented.call algorithms ctx = some received ∧ received.returned < 0 ∧
    received.context = some next ∧ next.dlCount = ctx.dlCount

/-- The next message of the network: a protected one that carries the sequence
number of the network's count. -/
def Genuine (algorithms : Algorithms) (network : SecurityContext) (octets : List UInt8) : Prop :=
  ∃ input : SendInput, input.Protects ∧
    input.header.sequenceNumber = network.dlCount.seqNum ∧
    ∃ sent, input.send algorithms .mme network = some sent ∧ sent.octets = octets

section Reading

variable {algorithms : Algorithms} {ctx network : SecurityContext} {presented : Presented}
  {header : SecurityHeader} {size : Nat} {octets : List UInt8}

theorem sequenceOf_headerDecode (decoded : headerDecode octets = some (header, size))
    (secured : header.isProtected) : header.sequenceNumber = sequenceOf octets := by
  simp only [headerDecode] at decoded
  split at decoded
  · split at decoded
    · cases decoded
    · cases decoded
      rfl
  next plain =>
    cases decoded
    exact absurd secured plain

theorem headerDecode_length (decoded : headerDecode octets = some (header, size))
    (secured : header.isProtected) : nasMessageSecurityHeaderSize ≤ octets.length := by
  simp only [headerDecode] at decoded
  split at decoded
  · split at decoded
    · cases decoded
    next fits => exact Nat.not_lt.mp fits
  next plain =>
    cases decoded
    exact absurd secured plain

theorem Count.receive_eq_self_iff (count : Count) (sequenceNumber : UInt8) :
    count.receive sequenceNumber = count ↔ sequenceNumber = count.seqNum := by
  constructor
  · intro same
    exact congrArg Count.seqNum same
  · rintro rfl
    simp [Count.receive]

section

variable (checked : ctx.integrity ≠ .eia0)

include checked

theorem Presented.call_rejected (decoded : headerDecode presented.octets = some (header, size))
    (secured : header.isProtected)
    (wrong : receivedMac algorithms .ue (some (ctx.receive .ue header)) presented.octets ≠
      header.messageAuthenticationCode) :
    presented.call algorithms ctx =
      some ⟨some (ctx.receive .ue header), tlvDecodeMacMismatch, [],
        header.protocolDiscriminator⟩ := by
  cases presented with
  | decrypt block octets => exact nasMessageDecrypt_rejected decoded secured checked wrong
  | decode decoder octets => exact nasMessageDecode_rejected decoded secured wrong

theorem Presented.call_forged (forged : Forged algorithms ctx presented.octets) :
    ∃ received, presented.call algorithms ctx = some received ∧ received.returned < 0 ∧
      received.context = some { ctx with
        dlCount := ctx.dlCount.receive (sequenceOf presented.octets) } := by
  obtain ⟨header, size, decoded, secured, wrong⟩ := forged
  have negative : tlvDecodeMacMismatch < 0 := by decide
  refine ⟨_, Presented.call_rejected checked decoded secured wrong, negative, ?_⟩
  rw [← sequenceOf_headerDecode decoded secured]
  rfl

theorem harmless_iff (forged : Forged algorithms ctx presented.octets) :
    Harmless algorithms ctx presented ↔
      sequenceOf presented.octets = ctx.dlCount.seqNum := by
  obtain ⟨received, called, negative, next⟩ := Presented.call_forged checked forged
  rw [← Count.receive_eq_self_iff]
  constructor
  · rintro ⟨other, after, calledAlso, -, context', kept⟩
    obtain rfl : received = other := Option.some.inj (called.symm.trans calledAlso)
    rw [next, Option.some.injEq] at context'
    subst context'
    exact kept
  · intro same
    exact ⟨received, _, called, negative, next, same⟩

theorem Presented.step_forged (forged : Forged algorithms ctx presented.octets)
    (repeats : sequenceOf presented.octets = ctx.dlCount.seqNum) :
    presented.step algorithms ctx = some ctx := by
  obtain ⟨received, called, -, next⟩ := Presented.call_forged checked forged
  rw [(Count.receive_eq_self_iff ..).mpr repeats] at next
  rw [Presented.step, called, bind_some, next]

end

theorem messageDecrypt_length (algorithms : Algorithms) (ctx : SecurityContext)
    (type : Fin 16) (direction : Direction) (block : Nat → UInt8) (message : List UInt8) :
    ∃ plain, messageDecrypt algorithms (some ctx) type direction block message = some plain ∧
      plain.1.length = message.length := by
  simp only [messageDecrypt]
  split
  · exact ⟨_, rfl, rfl⟩
  · split
    · have first := algorithms.eea1_length (ctx.cipherStream direction message)
      rw [map_some]
      cases ctx.encryption with
      | eea0 => exact ⟨_, rfl, rfl⟩
      | eea1 => exact ⟨_, rfl, first⟩
      | eea2 => exact ⟨_, rfl, first⟩
      | unknown => exact ⟨_, rfl, rfl⟩
    · exact ⟨_, rfl, length_load ..⟩

theorem Presented.call_authentic
    (decoded : headerDecode presented.octets = some (header, size))
    (secured : header.isProtected)
    (authentic : receivedMac algorithms .ue (some (ctx.receive .ue header))
      presented.octets = header.messageAuthenticationCode) :
    ∃ received, presented.call algorithms ctx = some received ∧
      received.context = some (ctx.receive .ue header) ∧ presented.Accepted received := by
  cases presented with
  | decrypt block octets =>
    rw [Presented.octets] at decoded authentic
    obtain ⟨plain, read, sized⟩ := messageDecrypt_length algorithms
      (ctx.receive .ue header) header.securityHeaderType .downlink block
      (octets.drop nasMessageSecurityHeaderSize)
    have room := headerDecode_length decoded secured
    have returned : (octets.length : Int) - nasMessageSecurityHeaderSize = plain.1.length := by
      rw [sized, List.length_drop]
      exact (Int.ofNat_sub room).symm
    refine ⟨⟨some (ctx.receive .ue header), octets.length - nasMessageSecurityHeaderSize,
      plain.1, plain.2⟩, ?_, rfl, sized.symm, returned⟩
    rw [Presented.call, nasMessageDecrypt_accepted decoded secured authentic, Side.receiving,
      read, map_some]
  | decode decoder octets =>
    rw [Presented.octets] at decoded authentic
    obtain ⟨plain, read, sized⟩ := messageDecrypt_length algorithms
      (ctx.receive .ue header) header.securityHeaderType .downlink (fun _ => 0)
      (octets.drop nasMessageSecurityHeaderSize)
    refine ⟨⟨some (ctx.receive .ue header),
      if decoder plain.2 plain.1 < 0 then decoder plain.2 plain.1
        else nasMessageSecurityHeaderSize + decoder plain.2 plain.1,
      plain.1, plain.2⟩, ?_, rfl, sized.symm, rfl⟩
    rw [Presented.call, nasMessageDecode_accepted decoded secured authentic, Side.receiving,
      read, map_some]

theorem Genuine.accepted (same : SameKeys network ctx) (step : InStep .downlink network ctx)
    (genuine : Genuine algorithms network presented.octets) :
    ∃ received, presented.call algorithms ctx = some received ∧
      presented.Accepted received := by
  obtain ⟨input, secured, numbered, sent, sending, octets⟩ := genuine
  obtain ⟨other, stale, message, bytes, sendingAlso, -, -, protects, -⟩ :=
    send_protects algorithms secured .mme network
  obtain rfl : sent = other := Option.some.inj (sending.symm.trans sendingAlso)
  have stepped : InStep Side.ue.receiving network ctx := step
  have presentedOctets : presented.octets =
      network.protect algorithms Side.ue.receiving input.header bytes :=
    octets.symm.trans protects
  have decoded : headerDecode presented.octets =
      some (input.header.coded (network.codeOf algorithms .downlink input.header bytes),
        nasMessageSecurityHeaderSize) := by
    rw [presentedOctets]
    exact headerDecode_protect secured.1 algorithms .downlink bytes
  have authentic := receivedMac_protect algorithms same stepped numbered bytes
    (network.codeOf algorithms .downlink input.header bytes)
  rw [← presentedOctets] at authentic
  obtain ⟨received, called, -, accepted⟩ :=
    Presented.call_authentic decoded secured.1 authentic
  exact ⟨received, called, accepted⟩

end Reading

section Runs

variable {algorithms : Algorithms} {ctx : SecurityContext} {presented : List Presented}

theorem sequence_of_harmless (checked : ctx.integrity ≠ .eia0)
    (forged : HoldsAlong (Presented.step algorithms)
      (fun current message => Forged algorithms current message.octets) ctx presented)
    (harmless : HoldsAlong (Presented.step algorithms) (Harmless algorithms) ctx presented) :
    ∀ message ∈ presented, sequenceOf message.octets = ctx.dlCount.seqNum := by
  induction presented with
  | nil => exact fun message mem => by cases mem
  | cons first rest ih =>
    have repeats := (harmless_iff checked forged.1).mp harmless.1
    have stays := Presented.step_forged checked forged.1 repeats
    rw [List.forall_mem_cons]
    exact ⟨repeats, ih (forged.2 ctx stays) (harmless.2 ctx stays)⟩

theorem harmless_of_sequence (checked : ctx.integrity ≠ .eia0)
    (forged : HoldsAlong (Presented.step algorithms)
      (fun current message => Forged algorithms current message.octets) ctx presented)
    (sequence : ∀ message ∈ presented, sequenceOf message.octets = ctx.dlCount.seqNum) :
    HoldsAlong (Presented.step algorithms) (Harmless algorithms) ctx presented ∧
      execute (Presented.step algorithms) ctx presented = some ctx := by
  induction presented with
  | nil => exact ⟨trivial, rfl⟩
  | cons first rest ih =>
    rw [List.forall_mem_cons] at sequence
    have stays := Presented.step_forged checked forged.1 sequence.1
    obtain ⟨later, unchanged⟩ := ih (forged.2 ctx stays) sequence.2
    refine ⟨⟨(harmless_iff checked forged.1).mpr sequence.1, fun next stepped => ?_⟩, ?_⟩
    · obtain rfl : ctx = next := Option.some.inj (stays.symm.trans stepped)
      exact later
    · rw [execute, stays, bind_some, unchanged]

end Runs

/-- None of the presented messages has an effect, and then the next message of
the network is accepted. -/
def WithoutEffect (algorithms : Algorithms) (network ctx : SecurityContext)
    (presented : List Presented) : Prop :=
  HoldsAlong (Presented.step algorithms) (Harmless algorithms) ctx presented ∧
    ∃ final, execute (Presented.step algorithms) ctx presented = some final ∧
      ∀ next : Presented, Genuine algorithms network next.octets →
        ∃ received, next.call algorithms final = some received ∧ next.Accepted received

theorem forged_without_effect_iff {algorithms : Algorithms} {network ctx : SecurityContext}
    (integrity : ctx.integrity = .eia1 ∨ ctx.integrity = .eia2)
    (same : SameKeys network ctx) (step : InStep .downlink network ctx)
    {presented : List Presented}
    (forged : HoldsAlong (Presented.step algorithms)
      (fun current message => Forged algorithms current message.octets) ctx presented) :
    WithoutEffect algorithms network ctx presented ↔
      ∀ message ∈ presented, sequenceOf message.octets = ctx.dlCount.seqNum := by
  have checked : ctx.integrity ≠ .eia0 := by
    rcases integrity with first | second
    · rw [first]; decide
    · rw [second]; decide
  constructor
  · rintro ⟨harmless, -⟩
    exact sequence_of_harmless checked forged harmless
  · intro sequence
    obtain ⟨harmless, unchanged⟩ := harmless_of_sequence checked forged sequence
    exact ⟨harmless, ctx, unchanged, fun next genuine => genuine.accepted same step⟩

def countingAlgorithms : Algorithms := .plain fun stream => UInt32.ofNat stream.count

def initialContext : SecurityContext := ⟨[], [], .zero, .zero, .eea0, .eia2⟩

def forgery (sequenceNumber : UInt8) : Presented :=
  .decrypt (fun _ => 0) [0x17, 0, 0, 0, 9, sequenceNumber, 0x07]

theorem forgery_repeated_without_effect :
    WithoutEffect countingAlgorithms initialContext initialContext [forgery 0] ↔
      ∀ message ∈ [forgery 0],
        sequenceOf message.octets = initialContext.dlCount.seqNum := by
  have step : InStep .downlink initialContext initialContext := rfl
  refine forged_without_effect_iff (.inr rfl) ⟨rfl, rfl, rfl, rfl⟩ step ?_
  exact ⟨⟨⟨7, 1, 9, 0⟩, 6, rfl, rfl, by decide⟩, fun _ _ => trivial⟩

/-- After a forged message with another sequence number the first message of
the network is rejected. -/
theorem forgery_rejects_genuine :
    Forged countingAlgorithms initialContext (forgery 5).octets ∧
      ¬ WithoutEffect countingAlgorithms initialContext initialContext [forgery 5] ∧
      ∃ next genuine received, (forgery 5).step countingAlgorithms initialContext = some next ∧
        Genuine countingAlgorithms initialContext genuine ∧
        (Presented.decrypt (fun _ => 0) genuine).call countingAlgorithms next = some received ∧
        received.returned = tlvDecodeMacMismatch := by
  refine ⟨⟨⟨7, 1, 9, 5⟩, 6, rfl, rfl, by decide⟩, ?_, ?_⟩
  · rintro ⟨⟨⟨received, next, called, -, after, kept⟩, -⟩, -⟩
    cases called
    cases after
    exact absurd kept (by decide)
  · refine ⟨{ initialContext with dlCount := ⟨0, 5⟩ }, _, _, rfl,
      ⟨.encrypt (fun _ => 0) ⟨7, 1, 0, 0⟩ [0x07] 7, ⟨rfl, .inl rfl, show 6 < 7 by decide⟩,
        rfl, _, rfl, rfl⟩,
      rfl, rfl⟩

end OpenAir.Nas
