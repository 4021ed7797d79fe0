import OpenAir.Nas.CountProperties
import OpenAir.Nas.ForgeryProperties

/-! Copies of the messages of the network delivered to the entity of the UE, in
any order and any number. Since the codes depend only on whether the count is
zero, a copy is accepted again and again. -/

set_option autoImplicit false

namespace OpenAir.Nas

open OpenAir.Base List Option

inductive Reader where
  | decrypt (block : Nat → UInt8)
  | decode (decoder : Fin 16 → List UInt8 → Int)

def Reader.present (octets : List UInt8) : Reader → Presented
  | .decrypt block => .decrypt block octets
  | .decode decoder => .decode decoder octets

/-- The network, the UE, the messages sent with the context each was protected
in, and the numbers of the messages the UE accepted, the last one first. -/
structure Session where
  network : SecurityContext
  ue : SecurityContext
  sent : List (SecurityContext × List UInt8)
  accepted : List Nat

inductive SessionEvent where
  | send (input : SendInput)
  | deliver (number : Nat) (reader : Reader)

instance (presented : Presented) (received : Received) :
    Decidable (presented.Accepted received) :=
  match presented with
  | .decrypt _ _ => inferInstanceAs (Decidable (_ ∧ _ = _))
  | .decode _ _ => inferInstanceAs (Decidable (_ ∧ _ = _))

def Session.step (algorithms : Algorithms) (session : Session) : SessionEvent → Option Session
  | .send input => do
    let sent ← input.send algorithms .mme session.network
    let network ← sent.context
    pure { session with network, sent := session.sent ++ [(session.network, sent.octets)] }
  | .deliver number reader => do
    let message ← session.sent[number]?
    let presented := reader.present message.2
    let received ← presented.call algorithms session.ue
    let ue ← received.context
    pure { session with
      ue
      accepted :=
        if presented.Accepted received then number :: session.accepted else session.accepted }

def Count.Restarts (count : Count) : Prop :=
  count.overflow = 0 ∧ count.seqNum = 0 ∨ count.overflow = 0xFFFF ∧ count.seqNum ≠ 0

instance (count : Count) : Decidable count.Restarts :=
  inferInstanceAs (Decidable (_ ∧ _ ∨ _ ∧ _))

/-- A copy of the message with the number passes when the count of the UE is
the given one. -/
def Admits (count : Count) (number : Nat) : Prop :=
  if number = 0 then count.Restarts else number % 256 ≠ 0 ∨ ¬ count.Restarts

instance (count : Count) (number : Nat) : Decidable (Admits count number) :=
  inferInstanceAs (Decidable
    (if number = 0 then count.Restarts else number % 256 ≠ 0 ∨ ¬ count.Restarts))

/-- The numbers delivered while the count of the UE admits them, the last one
first. -/
def admittedAlong (algorithms : Algorithms) : Session → List SessionEvent → List Nat
  | _, [] => []
  | session, event :: rest =>
    let later := match session.step algorithms event with
      | some next => admittedAlong algorithms next rest
      | none => []
    match event with
    | .send _ => later
    | .deliver number _ => if Admits session.ue.dlCount number then later ++ [number] else later

def Algorithms.eia (algorithms : Algorithms) : IntegrityAlgorithm → StreamCipher → UInt32
  | .eia1 => algorithms.eia1
  | .eia2 => algorithms.eia2
  | .eia0 => fun _ => 0
  | .unknown => fun _ => 0

def IdealCode (algorithms : Algorithms) (message : SecurityContext × List UInt8) : Prop :=
  ∀ count < 2 ^ 32,
    algorithms.eia message.1.integrity
        { message.1.macStream .downlink (message.2.drop (nasMessageSecurityHeaderSize - 1)) with
          count := count } =
      algorithms.eia message.1.integrity
        (message.1.macStream .downlink (message.2.drop (nasMessageSecurityHeaderSize - 1))) →
    count = message.1.dlCount.streamCount

section Counts

theorem Count.receive_eq_zero_iff (count : Count) (number : Nat) :
    count.receive (UInt8.ofNat number) = .zero ↔ number % 256 = 0 ∧ count.Restarts := by
  have low : UInt8.ofNat number = 0 ↔ number % 256 = 0 := by
    rw [← UInt8.toNat_inj]
    simp
  have carry : count.overflow + 1 = 0 ↔ count.overflow = 0xFFFF := by
    rw [← UInt16.toNat_inj, ← UInt16.toNat_inj]
    have bounded := count.overflow.toNat_lt
    simp
    omega
  have above : count.seqNum > 0 ↔ count.seqNum ≠ 0 := by
    rw [gt_iff_lt, UInt8.lt_iff_toNat_lt, ne_eq, ← UInt8.toNat_inj]
    simp
    omega
  simp only [Count.receive, Count.zero, Count.mk.injEq, low, Count.Restarts]
  rw [and_comm]
  apply and_congr_right
  intro multiple
  rw [low.mpr multiple]
  by_cases zero : count.seqNum = 0
  · simp [zero]
  · simp [above.mpr zero, zero, carry]

theorem streamCount_receive_iff (count : Count) {number : Nat} (small : number < 2 ^ 24) :
    (count.receive (UInt8.ofNat number)).streamCount = (Count.ofNat number).streamCount ↔
      Admits count number := by
  rw [Count.streamCount_eq, Count.streamCount_ofNat small]
  simp only [Count.receive_eq_zero_iff, Admits]
  by_cases first : number = 0
  · subst first
    by_cases restarts : count.Restarts
    · simp [restarts]
    · simp [restarts]
  · by_cases restarts : count.Restarts
    · by_cases multiple : number % 256 = 0
      · simp [first, restarts, multiple]
      · simp [first, multiple]
    · simp [first, restarts]

end Counts

variable {input : SendInput} {events : List SessionEvent} {final : Session}

section Delivery

variable {algorithms : Algorithms} {session : Session}

theorem getMac_eq_eia (algorithms : Algorithms) (ctx : SecurityContext)
    (direction : Direction) (buffer : List UInt8) :
    (getMac algorithms (some ctx) direction buffer).1 =
      algorithms.eia ctx.integrity (ctx.macStream direction buffer) := by
  simp only [getMac]
  cases ctx.integrity with
  | eia0 => rfl
  | eia1 => rfl
  | eia2 => rfl
  | unknown => rfl

/-- A message as the network sent it: number `number` of those counted from
zero. -/
structure SentAs (algorithms : Algorithms) (keys : SecurityContext) (number : Nat)
    (message : SecurityContext × List UInt8) (header : SecurityHeader) (bytes : List UInt8) :
    Prop where
  count : message.1.dlCount = .ofNat number
  same : SameKeys message.1 keys
  secured : header.isProtected
  sequence : header.sequenceNumber = UInt8.ofNat number
  filled : 0 < bytes.length
  octets : message.2 = message.1.protect algorithms .downlink header bytes

structure Session.Valid (algorithms : Algorithms) (session : Session) : Prop where
  integrity : session.ue.integrity = .eia1 ∨ session.ue.integrity = .eia2
  same : SameKeys session.network session.ue
  counted : session.network.dlCount = .ofNat session.sent.length
  sent : ∀ (number : Nat) (message : SecurityContext × List UInt8),
    session.sent[number]? = some message →
    ∃ header bytes, SentAs algorithms session.ue number message header bytes

theorem Count.streamCount_lt (count : Count) : count.streamCount < 2 ^ 32 := by
  rw [Count.streamCount_eq]
  split
  · decide
  · decide

section Copy

variable {keys : SecurityContext} {number : Nat} {message : SecurityContext × List UInt8}
  {header : SecurityHeader} {bytes : List UInt8}

theorem macStream_copy (same : SameKeys message.1 keys) (octets : List UInt8) :
    keys.macStream .downlink octets =
      { message.1.macStream .downlink octets with count := keys.dlCount.streamCount } := by
  simp only [SecurityContext.macStream, same.knasInt, SecurityContext.count_downlink]

theorem receivedMac_copy (sent : SentAs algorithms keys number message header bytes)
    (ideal : IdealCode algorithms message) (small : number < 2 ^ 24) (mac : UInt32) :
    receivedMac algorithms .ue (some (keys.receive .ue (header.coded mac))) message.2 =
        message.1.codeOf algorithms .downlink header bytes ↔
      Admits keys.dlCount number := by
  have same : SameKeys message.1 (keys.receive .ue (header.coded mac)) :=
    ⟨sent.same.knasEnc, sent.same.knasInt, sent.same.encryption, sent.same.integrity⟩
  have received : (keys.receive .ue (header.coded mac)).dlCount =
      keys.dlCount.receive (UInt8.ofNat number) := by
    rw [← sent.sequence]
    rfl
  have body : message.2.drop (nasMessageSecurityHeaderSize - 1) =
      header.sequenceNumber :: bytes := by
    rw [sent.octets]
    rfl
  rw [IdealCode, body] at ideal
  rw [receivedMac, Side.receiving, getMac_eq_eia, SecurityContext.codeOf, getMac_eq_eia, body,
    macStream_copy same, same.integrity, received, ← streamCount_receive_iff _ small,
    ← sent.count]
  constructor
  · exact ideal _ (Count.streamCount_lt _)
  · intro equal
    rw [equal]
    exact congrArg _ (macStream_copy ⟨rfl, rfl, rfl, rfl⟩ _).symm

theorem call_copy (checked : keys.integrity ≠ .eia0)
    (sent : SentAs algorithms keys number message header bytes)
    (ideal : IdealCode algorithms message) (small : number < 2 ^ 24) (reader : Reader) :
    ∃ received, (reader.present message.2).call algorithms keys = some received ∧
      received.context = some { keys with
        dlCount := keys.dlCount.receive (UInt8.ofNat number) } ∧
      ((reader.present message.2).Accepted received ↔ Admits keys.dlCount number) := by
  have octets : (reader.present message.2).octets = message.2 := by
    cases reader with
    | decrypt block => rfl
    | decode decoder => rfl
  have decoded : headerDecode (reader.present message.2).octets =
      some (header.coded (message.1.codeOf algorithms .downlink header bytes),
        nasMessageSecurityHeaderSize) := by
    rw [octets, sent.octets]
    exact headerDecode_protect sent.secured algorithms .downlink bytes
  have next (mac : UInt32) : keys.receive .ue (header.coded mac) = { keys with
      dlCount := keys.dlCount.receive (UInt8.ofNat number) } := by
    rw [← sent.sequence]
    rfl
  have right := receivedMac_copy sent ideal small
    (message.1.codeOf algorithms .downlink header bytes)
  rw [← octets] at right
  by_cases admits : Admits keys.dlCount number
  · obtain ⟨received, called, ctx, accepted⟩ :=
      Presented.call_authentic decoded sent.secured (right.mpr admits)
    rw [next] at ctx
    exact ⟨received, called, ctx, iff_of_true accepted admits⟩
  · have called := Presented.call_rejected checked decoded sent.secured
      fun authentic => admits (right.mp authentic)
    refine ⟨_, called, congrArg some (next _), iff_of_false ?_ admits⟩
    rintro ⟨sized, -⟩
    rw [octets, sent.octets] at sized
    exact absurd sized (Nat.ne_of_gt sent.filled)

end Copy

theorem checked_of_integrity {ctx : SecurityContext}
    (integrity : ctx.integrity = .eia1 ∨ ctx.integrity = .eia2) :
    ctx.integrity ≠ .eia0 := by
  rcases integrity with first | second
  · rw [first]; decide
  · rw [second]; decide

theorem step_deliver (valid : session.Valid algorithms) {number : Nat}
    {message : SecurityContext × List UInt8} (found : session.sent[number]? = some message)
    (ideal : IdealCode algorithms message) (small : number < 2 ^ 24) (reader : Reader) :
    session.step algorithms (.deliver number reader) =
      some { session with
        ue := { session.ue with
          dlCount := session.ue.dlCount.receive (UInt8.ofNat number) }
        accepted :=
          if Admits session.ue.dlCount number then number :: session.accepted
          else session.accepted } := by
  obtain ⟨header, bytes, sent⟩ := valid.sent number message found
  obtain ⟨received, called, ctx, accepted⟩ :=
    call_copy (checked_of_integrity valid.integrity) sent ideal small reader
  simp only [Session.step, found, called, ctx, accepted, bind_eq_bind, bind_some]
  rfl

/-- A message the network may send: a protected one with the number of the
count. -/
def Session.Allowed (session : Session) : SessionEvent → Prop
  | .send input =>
    input.Protects ∧ input.header.sequenceNumber = session.network.dlCount.seqNum
  | .deliver _ _ => True

variable (algorithms session) in
theorem step_send (secured : input.Protects) :
    ∃ bytes, 0 < bytes.length ∧ session.step algorithms (.send input) =
      some { session with
        network := session.network.increment .downlink
        sent := session.sent ++ [(session.network,
          session.network.protect algorithms .downlink input.header bytes)] } := by
  obtain ⟨sent, stale, message, bytes, sending, filled, ctx, octets, -⟩ :=
    send_protects algorithms secured .mme session.network
  refine ⟨bytes, filled, ?_⟩
  simp only [Session.step, sending, ctx, octets, Side.sending, bind_eq_bind, bind_some]
  rfl

theorem send_valid (valid : session.Valid algorithms) {bytes : List UInt8}
    (secured : input.Protects)
    (numbered : input.header.sequenceNumber = session.network.dlCount.seqNum)
    (filled : 0 < bytes.length) :
    Session.Valid algorithms { session with
      network := session.network.increment .downlink
      sent := session.sent ++ [(session.network,
        session.network.protect algorithms .downlink input.header bytes)] } where
  integrity := valid.integrity
  same := ⟨valid.same.knasEnc, valid.same.knasInt, valid.same.encryption, valid.same.integrity⟩
  counted := by
    rw [length_append, length_singleton, ← Count.increment_ofNat, ← valid.counted]
    rfl
  sent := by
    intro number message found
    rw [getElem?_append] at found
    split at found
    · exact valid.sent number message found
    next later =>
      rw [getElem?_singleton] at found
      split at found
      next last =>
        obtain rfl := Option.some.inj found
        obtain rfl : number = session.sent.length := by omega
        exact ⟨input.header, bytes, valid.counted, valid.same, secured.1,
          numbered.trans (congrArg Count.seqNum valid.counted), filled, rfl⟩
      · cases found

theorem deliver_valid (valid : session.Valid algorithms) (count : Count) (accepted : List Nat) :
    Session.Valid algorithms
      { session with ue := { session.ue with dlCount := count }, accepted := accepted } where
  integrity := valid.integrity
  same := ⟨valid.same.knasEnc, valid.same.knasInt, valid.same.encryption, valid.same.integrity⟩
  counted := valid.counted
  sent := by
    intro number message found
    obtain ⟨header, bytes, sent⟩ := valid.sent number message found
    exact ⟨header, bytes, sent.count,
      ⟨sent.same.knasEnc, sent.same.knasInt, sent.same.encryption, sent.same.integrity⟩,
      sent.secured, sent.sequence, sent.filled, sent.octets⟩

theorem sent_step {event : SessionEvent} {next : Session}
    (stepped : session.step algorithms event = some next) :
    session.sent <+: next.sent := by
  cases event with
  | send input =>
    simp only [Session.step, bind_eq_bind, bind_eq_some_iff] at stepped
    obtain ⟨sent, -, network, -, result⟩ := stepped
    cases result
    exact prefix_append ..
  | deliver number reader =>
    simp only [Session.step, bind_eq_bind, bind_eq_some_iff] at stepped
    obtain ⟨message, -, received, -, ue, -, result⟩ := stepped
    cases result
    exact prefix_refl _

theorem sent_execute (reached : execute (Session.step algorithms) session events = some final) :
    session.sent <+: final.sent := by
  have kept : ∀ (state : Session) (event : SessionEvent) (next : Session),
      session.sent <+: state.sent → state.step algorithms event = some next →
      session.sent <+: next.sent :=
    fun state event next before stepped => before.trans (sent_step stepped)
  exact execute_preserves kept (prefix_refl _) reached

theorem accepted_execute (valid : session.Valid algorithms)
    (allowed : HoldsAlong (Session.step algorithms) Session.Allowed session events)
    (reached : execute (Session.step algorithms) session events = some final)
    (few : final.sent.length < 2 ^ 24)
    (ideal : ∀ message ∈ final.sent, IdealCode algorithms message) :
    final.accepted = admittedAlong algorithms session events ++ session.accepted := by
  induction events generalizing session with
  | nil =>
    cases reached
    rfl
  | cons event rest ih =>
    obtain ⟨next, stepped, following⟩ := bind_eq_some_iff.mp reached
    have sent := sent_execute reached
    cases event with
    | send input =>
      obtain ⟨secured, numbered⟩ := allowed.1
      obtain ⟨bytes, filled, sending⟩ := step_send algorithms session secured
      obtain rfl := Option.some.inj (stepped.symm.trans sending)
      have accepted := ih (send_valid valid secured numbered filled)
        (allowed.2 _ stepped) following
      rw [accepted]
      simp only [admittedAlong, stepped]
    | deliver number reader =>
      obtain ⟨message, found, -⟩ := bind_eq_some_iff.mp stepped
      have small : number < 2 ^ 24 :=
        Nat.lt_of_lt_of_le (List.getElem?_eq_some_iff.mp found).1
          (Nat.le_trans sent.length_le (Nat.le_of_lt few))
      have coded := ideal message (sent.subset (mem_of_getElem? found))
      have delivering := step_deliver valid found coded small reader
      obtain rfl := Option.some.inj (stepped.symm.trans delivering)
      have accepted := ih (deliver_valid valid _ _) (allowed.2 _ stepped) following
      rw [accepted]
      simp only [admittedAlong, stepped]
      split
      · rw [append_assoc, singleton_append]
      · rfl

end Delivery

def Session.start (network ue : SecurityContext) : Session := ⟨network, ue, [], []⟩

theorem start_valid {network ue : SecurityContext} (algorithms : Algorithms)
    (integrity : ue.integrity = .eia1 ∨ ue.integrity = .eia2) (same : SameKeys network ue)
    (fresh : network.dlCount = .zero) : (Session.start network ue).Valid algorithms :=
  ⟨integrity, same, show network.dlCount = .ofNat 0 from fresh,
    fun number message found => by simp [Session.start] at found⟩

theorem accepted_once_iff {algorithms : Algorithms} {network ue : SecurityContext}
    (integrity : ue.integrity = .eia1 ∨ ue.integrity = .eia2) (same : SameKeys network ue)
    (freshNetwork : network.dlCount = .zero)
    {events : List SessionEvent} {final : Session}
    (allowed : HoldsAlong (Session.step algorithms) Session.Allowed
      (Session.start network ue) events)
    (reached : execute (Session.step algorithms) (Session.start network ue) events = some final)
    (few : final.sent.length < 2 ^ 24)
    (ideal : ∀ message ∈ final.sent, IdealCode algorithms message) :
    final.accepted.Nodup ↔
      (admittedAlong algorithms (Session.start network ue) events).Nodup := by
  have accepted := accepted_execute (start_valid algorithms integrity same freshNetwork) allowed
    reached few ideal
  rw [accepted]
  simp [Session.start]

theorem idealCode_counting (message : SecurityContext × List UInt8)
    (integrity : message.1.integrity = .eia2) : IdealCode countingAlgorithms message := by
  intro count small equal
  rw [integrity] at equal
  have same : UInt32.ofNat count = UInt32.ofNat message.1.dlCount.streamCount := by
    simpa [Algorithms.eia, countingAlgorithms, Algorithms.plain] using equal
  have numbers := congrArg UInt32.toNat same
  have bounded := message.1.dlCount.streamCount_lt
  rw [UInt32.toNat_ofNat_of_lt' small, UInt32.toNat_ofNat_of_lt' bounded] at numbers
  exact numbers

def networkMessage (sequenceNumber : UInt8) : SendInput :=
  .encrypt (fun _ => 0) ⟨7, 1, 0, sequenceNumber⟩ [0x07] 7

def inOrder : List SessionEvent :=
  [.send (networkMessage 0), .send (networkMessage 1),
    .deliver 0 (.decrypt fun _ => 0), .deliver 1 (.decrypt fun _ => 0)]

def replayed : List SessionEvent := inOrder ++ [.deliver 1 (.decrypt fun _ => 0)]

theorem networkMessage_protects (sequenceNumber : UInt8) :
    (networkMessage sequenceNumber).Protects :=
  ⟨rfl, .inl rfl, show 6 < 7 by decide⟩

theorem in_order_accepted_once :
    ∃ final, execute (Session.step countingAlgorithms)
        (Session.start initialContext initialContext) inOrder = some final ∧
      final.accepted = [1, 0] ∧
      (final.accepted.Nodup ↔ (admittedAlong countingAlgorithms
        (Session.start initialContext initialContext) inOrder).Nodup) := by
  refine ⟨_, rfl, rfl, accepted_once_iff (.inr rfl) ⟨rfl, rfl, rfl, rfl⟩ rfl ?_ rfl (by decide) ?_⟩
  · refine ⟨⟨networkMessage_protects 0, rfl⟩, fun first stepped => ?_⟩
    cases stepped
    refine ⟨⟨networkMessage_protects 1, rfl⟩, fun second stepped => ?_⟩
    exact ⟨trivial, fun third stepped => ⟨trivial, fun last stepped => trivial⟩⟩
  · intro message mem
    apply idealCode_counting
    rcases mem_cons.mp mem with rfl | mem
    · rfl
    · obtain rfl := mem_singleton.mp mem
      rfl

/-- The second message is accepted twice. -/
theorem replay_accepted :
    ∃ final, execute (Session.step countingAlgorithms)
        (Session.start initialContext initialContext) replayed = some final ∧
      (∀ message ∈ final.sent, IdealCode countingAlgorithms message) ∧
      final.accepted = [1, 1, 0] ∧ ¬ final.accepted.Nodup := by
  refine ⟨_, rfl, ?_, rfl, ?_⟩
  · intro message mem
    apply idealCode_counting
    rcases mem_cons.mp mem with rfl | mem
    · rfl
    · obtain rfl := mem_singleton.mp mem
      rfl
  · decide

end OpenAir.Nas
