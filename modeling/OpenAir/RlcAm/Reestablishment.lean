import OpenAir.RlcAm.Reordering
import OpenAir.RlcAm.RotatedGrants
import OpenAir.RlcAm.GrantProperties

/-! Re-establishment of an acknowledged mode entity. `rlc_am_reestablish` resets
the state variables and the reception buffer only; if everything else is idle, the
entity cannot be told from a new one. -/

set_option autoImplicit false

namespace OpenAir.RlcAm

open OpenAir.Base Option List Receiver Entity Nat

/-! What has been received earlier makes no difference to the receiving side. -/

/-- The timers cannot be told apart by the checks of t-Reordering, which only look
at it while it runs. -/
def Timer.Alike (fresh used : Timer) : Prop :=
  used = fresh ∨
    fresh.running = false ∧ used.running = false ∧ used.msDuration = fresh.msDuration

section Timers

variable {fresh used : Timer}

variable (alike : fresh.Alike used)

include alike

theorem Timer.Alike.running : used.running = fresh.running := by
  rcases alike with rfl | ⟨idle, idleToo, -⟩
  · rfl
  · rw [idle, idleToo]

theorem Timer.Alike.expired (now : Nat) : used.expired now = fresh.expired now := by
  rcases alike with rfl | ⟨idle, idleToo, -⟩
  · rfl
  · simp [Timer.expired, idle, idleToo]

theorem Timer.Alike.eq_of_running (runs : fresh.running) : used = fresh := by
  rcases alike with same | ⟨idle, -, -⟩
  · exact same
  · rw [idle] at runs
    cases runs

theorem Timer.Alike.start (now : Nat) :
    (startTimerReordering now fresh).Alike (startTimerReordering now used) := by
  rcases alike with rfl | ⟨idle, idleToo, same⟩
  · exact Or.inl rfl
  · simp only [startTimerReordering, idle, idleToo, same, true_and]
    split
    · exact Or.inl rfl
    · exact Or.inr ⟨rfl, rfl, rfl⟩

end Timers

@[simps vrR vrMr vrH receiverBuffer tReordering]
def Receiver.behind (rx : Receiver) (timer : Timer) (earlier : List PduInfo) : Receiver :=
  { rx with tReordering := timer, handed := earlier ++ rx.handed }

def Receiver.Alike (earlier : List PduInfo) (fresh used : Receiver) : Prop :=
  ∃ timer, fresh.tReordering.Alike timer ∧ used = fresh.behind timer earlier

section Receiving

variable {rx used : Receiver} {timer : Timer} {earlier : List PduInfo} {now : Nat}

theorem Receiver.placed_behind (rx : Receiver) (timer : Timer) (earlier : List PduInfo)
    (info : PduInfo) (before after : List RxPdu) :
    (rx.behind timer earlier).placed info before after =
      (rx.placed info before after).behind timer earlier := by
  simp only [placed, behind_vrR]
  split
  · simp only [behind, append_assoc]
    rfl
  · rfl

def Receiver.settledTimer (rx : Receiver) (sn : Nat) : Timer :=
  if rx.tReordering.running ∧
      (rx.vrX = rx.vrR ∨ (inWindow rx.vrR rx.vrMr sn = false ∧ rx.vrX ≠ rx.vrMr)) then
    stopAndResetTimerReordering rx.tReordering
  else rx.tReordering

theorem Timer.Alike.settledTimer (alike : rx.tReordering.Alike timer) (sn : Nat) :
    (rx.settledTimer sn).Alike ((rx.behind timer earlier).settledTimer sn) := by
  simp only [Receiver.settledTimer, Receiver.behind, alike.running]
  split
  next both =>
    rw [alike.eq_of_running both.1]
    exact Or.inl rfl
  · exact alike

theorem Timer.Alike.updateReordering (alike : rx.tReordering.Alike timer) (sn : Nat) :
    Receiver.Alike earlier (rx.updateReordering now sn)
      ((rx.behind timer earlier).updateReordering now sn) := by
  have settles : ∀ one : Receiver, one.updateReordering now sn =
      if (one.settledTimer sn).running = false ∧ one.vrH ≠ one.vrR then
        { one with tReordering := startTimerReordering now (one.settledTimer sn), vrX := one.vrH }
      else { one with tReordering := one.settledTimer sn } := fun _ => rfl
  have settled := @Timer.Alike.settledTimer rx timer earlier alike sn
  rw [settles, settles, settled.running, Receiver.behind_vrH, Receiver.behind_vrR]
  split
  · exact ⟨_, settled.start now, rfl⟩
  · exact ⟨_, settled, rfl⟩

theorem Receiver.Alike.receiveProcessDataPdu (alike : Receiver.Alike earlier rx used)
    (octets : List UInt8) :
    Receiver.Alike earlier (rx.receiveProcessDataPdu now octets)
      (used.receiveProcessDataPdu now octets) := by
  obtain ⟨timer, timers, rfl⟩ := alike
  simp only [Receiver.receiveProcessDataPdu, Receiver.behind_vrR, Receiver.behind_vrMr,
    Receiver.behind_receiverBuffer]
  cases getDataPduInfos octets with
  | none => exact ⟨timer, timers, rfl⟩
  | some info =>
    simp only
    split
    · cases rxListInsertPdu rx.vrR rx.vrMr rx.receiverBuffer info with
      | none => exact ⟨timer, timers, rfl⟩
      | some place =>
        let polled : Receiver := { rx with statusRequested := rx.statusRequested || info.p }
        have idle : (polled.placed info place.1 place.2).tReordering.Alike timer := by
          rw [(Receiver.placed_timer _ _ _ _).1]
          exact timers
        have updated := @Timer.Alike.updateReordering _ _ earlier now idle info.sn
        rw [← Receiver.placed_behind] at updated
        exact updated
    · exact ⟨timer, timers, rfl⟩

theorem Receiver.Alike.checkTimerReordering (alike : Alike earlier rx used) :
    Alike earlier (rx.checkTimerReordering now) (used.checkTimerReordering now) := by
  obtain ⟨timer, timers, rfl⟩ := alike
  have expired : (rx.behind timer earlier).tReordering.expired now =
      rx.tReordering.expired now := timers.expired now
  simp only [checkTimerReordering, expired]
  split
  next ends =>
    obtain rfl := timers.eq_of_running (Timer.running_of_expired ends)
    exact ⟨_, Or.inl rfl, rfl⟩
  · exact ⟨timer, timers, rfl⟩

end Receiving

def Reassembly.behind (state : Reassembly) (earlier : List (List UInt8)) : Reassembly :=
  { state with dataInd := earlier ++ state.dataInd }

section Reassembling

variable {state : Reassembly} {earlier : List (List UInt8)}

namespace Reassembly

theorem sendSdu_behind :
    (state.behind earlier).sendSdu = state.sendSdu.map (behind · earlier) := by
  obtain ⟨written, passed⟩ := state
  match written with
  | none => rfl
  | some [] => rfl
  | some (octet :: octets) =>
    simp [sendSdu, behind]

theorem sendSduIf_behind (condition : Bool) :
    (state.behind earlier).sendSduIf condition =
      (state.sendSduIf condition).map (behind · earlier) := by
  cases condition with
  | false => rfl
  | true => exact sendSdu_behind

theorem reassembly_behind (source : List UInt8) :
    (state.behind earlier).reassembly source = (state.reassembly source).behind earlier :=
  rfl

theorem reassembleLis_behind {payload : List UInt8} {offset : Nat} {lis : List Nat} :
    (state.behind earlier).reassembleLis payload offset lis =
      (state.reassembleLis payload offset lis).map fun reached =>
        (reached.1.behind earlier, reached.2) := by
  induction lis generalizing state offset with
  | nil => rfl
  | cons li lis ih =>
    simp only [reassembleLis, reassembly_behind, sendSdu_behind,
      bind_map, map_bind, Function.comp_def, ih]

theorem reassemblePdu_behind (info : PduInfo) :
    (state.behind earlier).reassemblePdu info =
      (state.reassemblePdu info).map (behind · earlier) := by
  simp only [reassemblePdu, sendSduIf_behind, bind_map,
    Option.map_bind, Function.comp_def, reassembly_behind,
    reassembleLis_behind, apply_ite (Option.map (behind · earlier)),
    map_some]

theorem reassembleAll_behind (infos : List PduInfo) :
    (state.behind earlier).reassembleAll infos =
      (state.reassembleAll infos).map (behind · earlier) := by
  induction infos generalizing state with
  | nil => rfl
  | cons info rest ih =>
    simp only [reassembleAll, foldlM_cons] at ih ⊢
    rw [reassemblePdu_behind]
    cases state.reassemblePdu info with
    | none => rfl
    | some next => exact ih

end Reassembly

end Reassembling

/-! What an entity shows to the layers above and below. -/

/-- The PDUs for the MAC layer, the SDUs passed on and the confirmations of an
operation, each with its `mui` and whether the SDU has been delivered. -/
structure Shown where
  pdus : List (List UInt8)
  dataInd : List (List UInt8)
  confirmed : List (Nat × Bool)
  deriving DecidableEq, Repr

def Entity.shown (before after : Entity) (pdus : List (List UInt8)) : Shown :=
  { pdus := pdus
    dataInd := after.reassembly.dataInd.drop before.reassembly.dataInd.length
    confirmed := (after.tx.confirmed.drop before.tx.confirmed.length).map Prod.snd }

def Entity.respond (entity : Entity) (operation : Operation) : Option (Entity × Shown) :=
  (entity.operate operation).map fun (next, pdus) => (next, entity.shown next pdus)

structure Earlier where
  confirmed : List (Nat × Nat × Bool)
  handed : List PduInfo
  dataInd : List (List UInt8)

structure Entity.Alike (earlier : Earlier) (fresh used : Entity) : Prop where
  tx : ∃ rotation : Rotation, rotation.earlier = earlier.confirmed ∧
    rotation.Alike fresh.tx used.tx
  rx : Receiver.Alike earlier.handed fresh.rx used.rx
  reassembly : used.reassembly = fresh.reassembly.behind earlier.dataInd
  tStatusProhibit : used.tStatusProhibit = fresh.tStatusProhibit
  lastFrame : used.lastFrameStatusIndication = fresh.lastFrameStatusIndication

section Operations

variable {earlier : Earlier} {fresh used : Entity} {now frame requested : Nat}

theorem Entity.Alike.dataReq (alike : Alike earlier fresh used) (mui : Nat) (octets : List UInt8) :
    Alike earlier { fresh with tx := fresh.tx.dataReq mui octets }
      { used with tx := used.tx.dataReq mui octets } := by
  obtain ⟨rotation, before, same⟩ := alike.tx
  obtain ⟨next, nextBefore, nextSame⟩ := same.dataReq mui octets
  exact ⟨⟨next, nextBefore.trans before, nextSame⟩, alike.rx, alike.reassembly,
    alike.tStatusProhibit, alike.lastFrame⟩

theorem Receiver.Alike.sendStatusPdu {before : List PduInfo} {one other : Receiver}
    (alike : Alike before one other) :
    other.sendStatusPdu requested = one.sendStatusPdu requested := by
  obtain ⟨timer, -, rfl⟩ := alike
  rfl

namespace Entity

section

variable (alike : Alike earlier fresh used)

include alike

theorem Alike.getPdus (block : Nat → UInt8) :
    Rel (fun one other => Entity.Alike earlier one.1 other.1 ∧ one.2 = other.2)
      (fresh.getPdus now frame requested block) (used.getPdus now frame requested block) := by
  have status := @Receiver.Alike.sendStatusPdu requested _ _ _ alike.rx
  obtain ⟨timer, timers, received⟩ := alike.rx
  have asked : used.rx.statusRequested = fresh.rx.statusRequested := by
    rw [received]
    rfl
  have prohibited := alike.tStatusProhibit
  simp only [Entity.getPdus, asked, prohibited, status]
  split
  · refine rel_map (rel_eq _) ?_
    rintro pdu _ rfl
    refine ⟨⟨alike.tx, ⟨timer, timers, ?_⟩, alike.reassembly, rfl, alike.lastFrame⟩, rfl⟩
    rw [received]
    rfl
  · obtain ⟨rotation, before, fits, moved⟩ := alike.tx
    rw [moved]
    refine rel_map fits.getPdus ?_
    rintro ⟨tx, pdus⟩ ⟨usedTx, _⟩ ⟨same, sent⟩
    exact ⟨⟨⟨rotation, before, same⟩, alike.rx, alike.reassembly, rfl, alike.lastFrame⟩, sent⟩

theorem Alike.receiveProcessDataPdu (octets : List UInt8) :
    Option.Rel (Entity.Alike earlier) (fresh.receiveProcessDataPdu now octets)
      (used.receiveProcessDataPdu now octets) := by
  have arrived := @Receiver.Alike.receiveProcessDataPdu _ _ _ now alike.rx octets
  have handed : (used.rx.receiveProcessDataPdu now octets).handed.drop used.rx.handed.length =
      (fresh.rx.receiveProcessDataPdu now octets).handed.drop fresh.rx.handed.length := by
    obtain ⟨timer, -, before⟩ := alike.rx
    obtain ⟨later, -, after⟩ := arrived
    rw [after, before]
    simp [Receiver.behind]
  simp only [Entity.receiveProcessDataPdu, handed, alike.reassembly,
    Reassembly.reassembleAll_behind, Option.map_map]
  refine rel_map (rel_eq _) ?_
  rintro reassembly _ rfl
  exact ⟨alike.tx, arrived, rfl, alike.tStatusProhibit, alike.lastFrame⟩

theorem Alike.receiveBlock (octets : List UInt8) :
    Rel (Entity.Alike earlier) (Entity.receiveBlock now frame fresh octets)
      (Entity.receiveBlock now frame used octets) := by
  simp only [Entity.receiveBlock]
  split
  · exact .some alike
  · split
    · exact alike.receiveProcessDataPdu octets
    · have controlled : Rel
          (fun one other => one.1 = other.1 ∧ Entity.Alike earlier one.2 other.2)
          (fresh.receiveProcessControlPdu frame octets)
          (used.receiveProcessControlPdu frame octets) := by
        simp only [receiveProcessControlPdu]
        split
        · obtain ⟨rotation, before, fits, moved⟩ := alike.tx
          rw [moved]
          refine rel_map fits.receiveProcessControlPdu ?_
          intro tx usedTx same
          exact ⟨rfl, ⟨rotation, before, same⟩, alike.rx, alike.reassembly, alike.tStatusProhibit,
            alike.lastFrame⟩
        · exact .some ⟨rfl, alike⟩
      refine rel_bind controlled ?_
      rintro ⟨left, one⟩ ⟨_, other⟩ ⟨same, oneAlike⟩
      cases same
      split
      · exact .some oneAlike
      · exact .none

theorem Alike.macStatusIndication :
    Entity.Alike earlier (fresh.macStatusIndication now frame)
      (used.macStatusIndication now frame) := by
  simp only [Entity.macStatusIndication, alike.lastFrame]
  split
  · obtain ⟨rotation, before, fits, moved⟩ := alike.tx
    rw [moved, Rotation.tx_checkTimerPollRetransmit, alike.tStatusProhibit]
    have polled := fits.onlyPolls (checkTimerPollRetransmit_onlyPolls fresh.tx now)
    exact ⟨⟨rotation, before, polled, rfl⟩, alike.rx.checkTimerReordering, alike.reassembly, rfl,
      rfl⟩
  · exact alike

theorem Alike.configure (config : Configuration) :
    Entity.Alike earlier (fresh.configure config) (used.configure config) := by
  obtain ⟨⟨rotation, before, fits, moved⟩, ⟨timer, timers, received⟩, assembled, prohibited,
    framed⟩ := alike
  refine ⟨⟨rotation, before, { fits with }, ?_⟩,
    ⟨{ timer with msDuration := config.tReordering }, ?_, ?_⟩, assembled, ?_, framed⟩
  · rw [Entity.configure, moved]
    rfl
  · rcases timers with rfl | ⟨idle, idleToo, -⟩
    · exact Or.inl rfl
    · exact Or.inr ⟨idle, idleToo, rfl⟩
  · rw [Entity.configure, received]
    rfl
  · rw [Entity.configure, prohibited]
    rfl

theorem Alike.reestablish : Entity.Alike earlier fresh.reestablish used.reestablish := by
  obtain ⟨⟨rotation, before, fits, moved⟩, ⟨timer, timers, received⟩, assembled, prohibited,
    framed⟩ := alike
  refine ⟨⟨rotation, before, { fits with }, ?_⟩,
    ⟨timer, timers, ?_⟩, assembled, prohibited, rfl⟩
  · rw [Entity.reestablish, moved]
    rfl
  · rw [Entity.reestablish, received]
    rfl

theorem Alike.operate (operation : Operation) :
    Rel (fun one other => Alike earlier one.1 other.1 ∧ one.2 = other.2)
      (fresh.operate operation) (used.operate operation) := by
  cases operation with
  | dataReq mui octets => exact .some ⟨alike.dataReq mui octets, rfl⟩
  | getPdus now frame requested block => exact alike.getPdus block
  | receive now frame blocks =>
    have routed : Rel (Alike earlier) (fresh.receiveRouting now frame blocks)
        (used.receiveRouting now frame blocks) :=
      rel_execute (fun _ _ octets same => same.receiveBlock octets) alike
    exact rel_map routed fun _ _ same => ⟨same, rfl⟩
  | statusIndication now frame => exact .some ⟨alike.macStatusIndication, rfl⟩
  | configure config => exact .some ⟨alike.configure config, rfl⟩
  | reestablish => exact .some ⟨alike.reestablish, rfl⟩

end

theorem Alike.shown {next usedNext : Entity} (before : Entity.Alike earlier fresh used)
    (after : Entity.Alike earlier next usedNext) (pdus : List (List UInt8)) :
    used.shown usedNext pdus = fresh.shown next pdus := by
  obtain ⟨rotation, earlierConfirmed, -, moved⟩ := before.tx
  obtain ⟨nextRotation, nextConfirmed, -, nextMoved⟩ := after.tx
  rw [Entity.shown, before.reassembly, after.reassembly, moved, nextMoved]
  simp only [Reassembly.behind, Rotation.tx, earlierConfirmed, nextConfirmed, List.length_append,
    List.length_map, List.drop_length_add_append, ← List.map_drop, List.map_map]
  rfl

theorem Alike.respond (alike : Alike earlier fresh used) (operation : Operation) :
    Rel (fun one other => Alike earlier one.1 other.1 ∧ one.2 = other.2)
      (fresh.respond operation) (used.respond operation) := by
  refine rel_map (alike.operate operation) ?_
  rintro ⟨next, pdus⟩ ⟨usedNext, _⟩ ⟨same, sent⟩
  cases sent
  exact ⟨same, (alike.shown same pdus).symm⟩

end Entity

end Operations

/-! Re-establishment. -/

def Entity.configuration (entity : Entity) : Configuration :=
  { maxRetxThreshold := entity.tx.maxRetxThreshold
    pollPdu := entity.tx.pollPdu
    pollByte := entity.tx.pollByte
    tPollRetransmit := entity.tx.tPollRetransmit.msDuration
    tReordering := entity.rx.tReordering.msDuration
    tStatusProhibit := entity.tStatusProhibit.msDuration }

/-- Nothing is left to send, to confirm, to reassemble or to report, and no timer
runs. The sequence numbers, the windows and the reception buffer may be any. -/
structure Entity.Idle (entity : Entity) : Prop where
  slots : ∀ slot, entity.tx.inputSdus slot = .zeroed ∨ slot < rlcAmSduControlBufferSize ∧
    entity.tx.inputSdus slot = { TxSdu.zeroed with transmittedSuccessfully := true }
  next : entity.tx.nextSduIndex = entity.tx.currentSduIndex
  pdus : ∀ sn, entity.tx.pduRetransBuffer sn = .zeroed
  nbSdu : entity.tx.nbSdu = 0
  nbSduNoSegmented : entity.tx.nbSduNoSegmented = 0
  sduBufferOccupancy : entity.tx.sduBufferOccupancy = 0
  retransNumPdus : entity.tx.retransNumPdus = 0
  retransNumBytes : entity.tx.retransNumBytes = 0
  retransNumBytesToRetransmit : entity.tx.retransNumBytesToRetransmit = 0
  forcePoll : entity.tx.forcePoll = false
  tPollRetransmit :
    entity.tx.tPollRetransmit = initTimerPollRetransmit entity.tx.tPollRetransmit.msDuration
  tReordering : entity.rx.tReordering.running = false
  statusRequested : entity.rx.statusRequested = false
  outputSduInConstruction : entity.reassembly.outputSduInConstruction = none
  tStatusProhibit : entity.tStatusProhibit = initTimerReordering entity.tStatusProhibit.msDuration

theorem turn_turn {start back slot : Nat} (whole : start + back = rlcAmSduControlBufferSize)
    (inside : slot < rlcAmSduControlBufferSize) :
    ((slot + start) % rlcAmSduControlBufferSize + back) % rlcAmSduControlBufferSize = slot := by
  rw [mod_add_mod, add_assoc, whole, add_mod_right, mod_eq_of_lt inside]

def ringTurn (start : Nat) (bounded : start < rlcAmSduControlBufferSize) : Equiv.Perm Nat where
  toFun slot :=
    if slot < rlcAmSduControlBufferSize then (slot + start) % rlcAmSduControlBufferSize else slot
  invFun slot :=
    if slot < rlcAmSduControlBufferSize then
      (slot + (rlcAmSduControlBufferSize - start)) % rlcAmSduControlBufferSize
    else slot
  left_inv slot := by
    beta_reduce
    by_cases inside : slot < rlcAmSduControlBufferSize
    · rw [if_pos inside, if_pos (Nat.mod_lt _ (by decide))]
      exact turn_turn (Nat.add_sub_of_le (Nat.le_of_lt bounded)) inside
    · rw [if_neg inside, if_neg inside]
  right_inv slot := by
    beta_reduce
    by_cases inside : slot < rlcAmSduControlBufferSize
    · rw [if_pos inside, if_pos (Nat.mod_lt _ (by decide))]
      exact turn_turn (Nat.sub_add_cancel (Nat.le_of_lt bounded)) inside
    · rw [if_neg inside, if_neg inside]

theorem ringTurn_of_lt {start slot : Nat} (bounded : start < rlcAmSduControlBufferSize)
    (inside : slot < rlcAmSduControlBufferSize) :
    ringTurn start bounded slot = (slot + start) % rlcAmSduControlBufferSize :=
  if_pos inside

theorem ringTurn_nextSlot {start slot : Nat} (bounded : start < rlcAmSduControlBufferSize)
    (inside : slot < rlcAmSduControlBufferSize) :
    ringTurn start bounded (nextSlot slot) = nextSlot (ringTurn start bounded slot) := by
  have next : nextSlot slot < rlcAmSduControlBufferSize := mod_lt _ (by decide)
  rw [ringTurn_of_lt bounded inside, ringTurn_of_lt bounded next]
  simp only [nextSlot, rlcAmSduControlBufferSize]
  omega

def Rotation.startingAt (start : Nat) (bounded : start < rlcAmSduControlBufferSize)
    (tx : Transmitter) : Rotation where
  turn := ringTurn start bounded
  turn_lt inside := by
    rw [ringTurn_of_lt bounded inside]
    exact mod_lt _ (by decide)
  turn_next := ringTurn_nextSlot bounded
  stale slot := decide (slot < rlcAmSduControlBufferSize) &&
    (tx.inputSdus (ringTurn start bounded slot)).transmittedSuccessfully
  stale_lt slot stale := by
    rw [Bool.and_eq_true, decide_eq_true_iff] at stale
    exact stale.1
  earlier := tx.confirmed

section Idle

variable {entity : Entity}

namespace Entity

theorem Idle.tx (idle : entity.Idle)
    (bounded : entity.tx.currentSduIndex < rlcAmSduControlBufferSize) :
    (Rotation.startingAt entity.tx.currentSduIndex bounded entity.tx).Alike
      (init entity.configuration).tx entity.reestablish.tx := by
  let rotation := Rotation.startingAt entity.tx.currentSduIndex bounded entity.tx
  have starts : ringTurn entity.tx.currentSduIndex bounded 0 = entity.tx.currentSduIndex := by
    rw [ringTurn_of_lt bounded (by decide), zero_add, mod_eq_of_lt bounded]
  have sdus : entity.tx.inputSdus = fun slot =>
      rotation.sdu (rotation.turn.symm slot) TxSdu.zeroed := by
    funext at_
    obtain ⟨slot, rfl⟩ := rotation.turn.surjective at_
    rw [Equiv.symm_apply_apply]
    have stale : rotation.stale slot = (decide (slot < rlcAmSduControlBufferSize) &&
      (entity.tx.inputSdus (rotation.turn slot)).transmittedSuccessfully) := rfl
    rcases idle.slots (rotation.turn slot) with blank | ⟨inside, flagged⟩
    · rw [blank] at stale ⊢
      rw [Rotation.sdu, stale, TxSdu.zeroed, Bool.and_false]
      rfl
    · have origin : slot < rlcAmSduControlBufferSize := by
        by_contra outside
        exact outside ((if_neg outside : rotation.turn slot = slot) ▸ inside)
      rw [flagged, decide_eq_true origin] at stale
      rw [flagged, Rotation.sdu, stale]
      rfl
  have pdus : entity.tx.pduRetransBuffer = fun _ => rotation.pdu .zeroed := funext idle.pdus
  have first : 0 < rlcAmSduControlBufferSize := by decide
  refine ⟨⟨first, first, fun slot _ => ⟨le_refl 0, zero_le slot⟩, ?_, ?_⟩, ?_⟩
  · intro slot held
    cases held
  · intro sn slot mem
    cases mem
  · simp only [reestablish, init, Transmitter.init, Rotation.tx, Transmitter.mk.injEq]
    exact ⟨trivial, trivial, trivial, trivial, trivial, trivial, rfl, rfl, idle.forcePoll, rfl,
      idle.tPollRetransmit, sdus, idle.nbSdu, idle.nbSduNoSegmented, idle.next.trans starts.symm,
      starts.symm, idle.sduBufferOccupancy, pdus, idle.retransNumPdus, idle.retransNumBytes,
      idle.retransNumBytesToRetransmit, trivial, (append_nil _).symm⟩

theorem Idle.alike (idle : entity.Idle)
    (bounded : entity.tx.currentSduIndex < rlcAmSduControlBufferSize) :
    Alike ⟨entity.tx.confirmed, entity.rx.handed, entity.reassembly.dataInd⟩
      (.init entity.configuration) entity.reestablish := by
  refine ⟨⟨_, rfl, idle.tx bounded⟩,
    ⟨entity.rx.tReordering, Or.inr ⟨rfl, idle.tReordering, rfl⟩, ?_⟩,
    ?_, idle.tStatusProhibit, rfl⟩
  · simp [reestablish, init, Receiver.init, Receiver.behind, idle.statusRequested]
  · simp [reestablish, init, Reassembly.fresh, Reassembly.behind, ← idle.outputSduInConstruction]

end Entity

/-- An entity that is idle is re-established as a new one. -/
theorem reestablished_like_new {config : Configuration} {operations : List Operation}
    (reached : execute step (.init config) operations = some entity)
    (idle : entity.Idle) (further : List Operation) :
    observe respond entity.reestablish further =
      observe respond (.init entity.configuration) further := by
  have indexed : entity.tx.Indexed :=
    execute_preserves (fun _ _ _ before stepped => step_indexed before stepped)
      (Transmitter.indexed_init config.toTxConfiguration) reached
  exact (observe_eq (fun _ _ operation same => same.respond operation)
    (idle.alike indexed.current)).symm

end Idle

def servedRun : List Operation :=
  [.dataReq 7 [1, 2, 3], .getPdus 0 0 20 fun _ => 0, .receive 1 1 [[0x00, 0x04], [0x80, 0, 9]]]

/-- The next SDU is put into the second slot, and into the first one of a new
entity. -/
theorem reestablished_like_new_served :
    ∃ entity, execute step (.init grantConfiguration) servedRun = some entity ∧
      entity.tx.nextSduIndex = 1 ∧ entity.rx.vrR = 1 ∧
      observe respond entity.reestablish
          [.dataReq 8 [4, 5], .getPdus 2 2 20 fun _ => 0, .receive 3 3 [[0x00, 0x04]]] =
        observe respond (.init entity.configuration)
          [.dataReq 8 [4, 5], .getPdus 2 2 20 fun _ => 0, .receive 3 3 [[0x00, 0x04]]] := by
  have runs : (execute step (.init grantConfiguration) servedRun).isSome := by
    decide +kernel
  refine ⟨_, (some_get runs).symm, rfl, rfl,
    reestablished_like_new (some_get runs).symm
      ⟨fun slot => ?_, rfl, fun sn => ?_, rfl, rfl, rfl, rfl, rfl, rfl, rfl, rfl, rfl, rfl, rfl,
        rfl⟩ _⟩
  · cases slot with
    | zero => exact Or.inr ⟨by decide, rfl⟩
    | succ slot => exact Or.inl rfl
  · cases sn with
    | zero => rfl
    | succ sn => rfl

def reestablishedAndNew (operations further : List Operation) :
    Option (List (Option Shown) × List (Option Shown)) :=
  (execute step (.init grantConfiguration) operations).map fun entity =>
    (observe respond entity.reestablish further,
      observe respond (.init entity.configuration) further)

/-- An SDU from before is sent after re-establishment, an SDU of which only a part
was received is passed on, and the poll from before is answered. -/
theorem not_reestablished_like_new :
    reestablishedAndNew [.dataReq 0 [1, 2, 3]] [.getPdus 0 0 20 fun _ => 0] =
        some ([some ⟨[[0xA0, 0, 1, 2, 3]], [], []⟩], [some ⟨[], [], []⟩]) ∧
      reestablishedAndNew [.receive 0 0 [[0x88, 0, 7]]] [.receive 1 1 [[0x80, 0, 9]]] =
        some ([some ⟨[], [[7], [9]], []⟩], [some ⟨[], [[9]], []⟩]) ∧
      reestablishedAndNew [.receive 0 0 [[0xA0, 0, 7]]] [.getPdus 1 1 20 fun _ => 0] =
        some ([some ⟨[[0, 0]], [], []⟩], [some ⟨[], [], []⟩]) := by
  decide +kernel

end OpenAir.RlcAm
