import OpenAir.Base.Execution
import OpenAir.RlcAm.Retransmission
import OpenAir.RlcAm.StatusReport

/-! A whole acknowledged mode entity: both sides of it, the reassembly of SDUs
and t-StatusProhibit, with what the upper and the lower layer call, after
`rlc_am.c`, `rlc_am_receiver.c`, `rlc_am_status_report.c`, `rlc_am_init.c` and
`rlc_am_timer_status_prohibit.c`. The entity is configured, so it is in
`RLC_DATA_TRANSFER_READY_STATE`. A failing assertion is `none`. -/

set_option autoImplicit false

namespace OpenAir.RlcAm

open OpenAir.Base Option

/-- `rlc_am_start_timer_status_prohibit`, with the body of `rlc_am_start_timer_reordering`. -/
def startTimerStatusProhibit (now : Nat) (timer : Timer) : Timer := startTimerReordering now timer

def stopAndResetTimerStatusProhibit (timer : Timer) : Timer :=
  if timer.msDuration > 0 then stopAndResetTimerReordering timer else timer

/-- `rlc_am_check_timer_status_prohibit`, which changes nothing but the timer. -/
def checkTimerStatusProhibit (timer : Timer) (now : Nat) : Timer :=
  if timer.msDuration > 0 ∧ timer.expired now = true then
    stopAndResetTimerStatusProhibit { timer with running := false, timedOut := true }
  else timer

structure Entity where
  tx : Transmitter
  rx : Receiver
  reassembly : Reassembly
  tStatusProhibit : Timer
  lastFrameStatusIndication : Nat

/-- The arguments of `rlc_am_configure`. -/
structure Configuration extends TxConfiguration where
  tReordering : Nat
  tStatusProhibit : Nat

/-- "Any value > 1", says `rlc_am_init`. -/
def noFrame : Nat := 123456

namespace Entity

/-- The entity after `rlc_am_init` and `rlc_am_configure`. -/
def init (config : Configuration) : Entity :=
  { tx := .init config.toTxConfiguration
    rx := .init config.tReordering
    reassembly := .fresh
    tStatusProhibit := initTimerReordering config.tStatusProhibit
    lastFrameStatusIndication := noFrame }

/-- `rlc_am_get_pdus` for a grant of `requested` octets. A STATUS PDU takes the
whole grant. -/
def getPdus (entity : Entity) (now frame requested : Nat) (block : Nat → UInt8) :
    Option (Entity × List (List UInt8)) :=
  if requested > 2 ∧ entity.rx.statusRequested ∧ entity.tStatusProhibit.running = false then
    (entity.rx.sendStatusPdu requested).map fun pdu =>
      ({ entity with
          rx := { entity.rx with statusRequested := false }
          tStatusProhibit := startTimerStatusProhibit now entity.tStatusProhibit }, [pdu])
  else
    (entity.tx.getPdus now frame requested block).map fun (tx, pdus) =>
      ({ entity with tx := tx }, pdus)

/-- `rlc_am_receive_process_data_pdu`, with the reassembly of what it hands over. -/
def receiveProcessDataPdu (entity : Entity) (now : Nat) (octets : List UInt8) : Option Entity :=
  let rx := entity.rx.receiveProcessDataPdu now octets
  let handed := rx.handed.drop entity.rx.handed.length
  (entity.reassembly.reassembleAll handed).map fun reassembly =>
    { entity with rx := rx, reassembly := reassembly }

/-- `rlc_am_receive_process_control_pdu`: the octets left behind the control PDU
and the entity. -/
def receiveProcessControlPdu (entity : Entity) (frame : Nat) (octets : List UInt8) :
    Option (Int × Entity) :=
  let read := getControlPduInfos (fun pos => octets.getD pos 0) octets.length
  if read.returned ≥ 0 then
    (entity.tx.receiveProcessControlPdu frame read.info.controlPduInfo).map fun tx =>
      (read.totalSize, { entity with tx := tx })
  else some (read.totalSize, entity)

/-- What `rlc_am_receive_routing` does with one transport block. It asserts that
nothing is left behind a control PDU. -/
def receiveBlock (now frame : Nat) (entity : Entity) (octets : List UInt8) : Option Entity :=
  if octets = [] then some entity
  else if octetAt octets 0 &&& 0x80 = 0x80 then entity.receiveProcessDataPdu now octets
  else
    (entity.receiveProcessControlPdu frame octets).bind fun (left, entity) =>
      if left = 0 then some entity else none

def receiveRouting (entity : Entity) (now frame : Nat) (blocks : List (List UInt8)) :
    Option Entity :=
  execute (receiveBlock now frame) entity blocks

/-- `rlc_am_mac_status_indication`, which checks the timers once a frame. -/
def macStatusIndication (entity : Entity) (now frame : Nat) : Entity :=
  if entity.lastFrameStatusIndication ≠ frame then
    { entity with
      tx := entity.tx.checkTimerPollRetransmit now
      rx := entity.rx.checkTimerReordering now
      tStatusProhibit := checkTimerStatusProhibit entity.tStatusProhibit now
      lastFrameStatusIndication := frame }
  else entity

/-- `rlc_am_configure` for an entity that is configured already. -/
def configure (entity : Entity) (config : Configuration) : Entity :=
  { entity with
    tx :=
      { entity.tx with
        maxRetxThreshold := config.maxRetxThreshold
        pollPdu := config.pollPdu
        pollByte := config.pollByte
        tPollRetransmit :=
          { entity.tx.tPollRetransmit with msDuration := config.tPollRetransmit } }
    rx :=
      { entity.rx with
        tReordering := { entity.rx.tReordering with msDuration := config.tReordering } }
    tStatusProhibit :=
      { entity.tStatusProhibit with msDuration := config.tStatusProhibit } }

/-- `rlc_am_reestablish`. It leaves the SDUs, the PDUs kept for retransmission,
the SDU in construction and the timers as they are. -/
def reestablish (entity : Entity) : Entity :=
  { entity with
    tx :=
      { entity.tx with
        vtA := 0
        vtMs := rlcAmWindowSize
        vtS := 0
        pollSn := 0
        cPduWithoutPoll := 0
        cByteWithoutPoll := 0
        firstRetransPduSn := -1 }
    rx :=
      { entity.rx with
        vrR := 0
        vrMr := rlcAmWindowSize
        vrX := 0
        vrMs := 0
        vrH := 0
        receiverBuffer := [] }
    lastFrameStatusIndication := noFrame }

end Entity

inductive Operation where
  | dataReq (mui : Nat) (octets : List UInt8)
  | getPdus (now frame requested : Nat) (block : Nat → UInt8)
  | receive (now frame : Nat) (blocks : List (List UInt8))
  | statusIndication (now frame : Nat)
  | configure (config : Configuration)
  | reestablish

namespace Entity

def operate (entity : Entity) : Operation → Option (Entity × List (List UInt8))
  | .dataReq mui octets => some ({ entity with tx := entity.tx.dataReq mui octets }, [])
  | .getPdus now frame requested block => entity.getPdus now frame requested block
  | .receive now frame blocks =>
    (entity.receiveRouting now frame blocks).map fun entity => (entity, [])
  | .statusIndication now frame => some (entity.macStatusIndication now frame, [])
  | .configure config => some (entity.configure config, [])
  | .reestablish => some (entity.reestablish, [])

def step (entity : Entity) (operation : Operation) : Option Entity :=
  (entity.operate operation).map Prod.fst

section Transmitting

variable {entity next : Entity} {now frame : Nat}

theorem receiveBlock_tx {octets : List UInt8}
    (received : receiveBlock now frame entity octets = some next) :
    next.tx = entity.tx ∨
      ∃ info, entity.tx.receiveProcessControlPdu frame info = some next.tx := by
  rw [receiveBlock] at received
  split at received
  · cases received
    exact Or.inl rfl
  · split at received
    · obtain ⟨reassembly, -, rfl⟩ := map_eq_some_iff.mp received
      exact Or.inl rfl
    · obtain ⟨⟨left, processed⟩, control, ended⟩ := bind_eq_some_iff.mp received
      obtain ⟨-, stored⟩ := ite_none_right_eq_some.mp ended
      cases stored
      simp only [receiveProcessControlPdu] at control
      split at control
      · obtain ⟨tx, reported, stored⟩ := map_eq_some_iff.mp control
        cases stored
        exact Or.inr ⟨_, reported⟩
      · cases control
        exact Or.inl rfl

theorem receiveRouting_tx {blocks : List (List UInt8)}
    (received : entity.receiveRouting now frame blocks = some next) :
    ∃ inputs, execute Transmitter.step entity.tx inputs = some next.tx := by
  induction blocks generalizing entity with
  | nil =>
    cases received
    exact ⟨[], rfl⟩
  | cons octets blocks ih =>
    obtain ⟨middle, first, rest⟩ := bind_eq_some_iff.mp received
    obtain ⟨inputs, reached⟩ := ih rest
    rcases receiveBlock_tx first with same | ⟨info, reported⟩
    · exact ⟨inputs, same ▸ reached⟩
    · exact ⟨.statusPdu frame info :: inputs, by simp [execute, Transmitter.step, reported,
        reached]⟩

/-- Unless it is configured or re-established, the transmitting side does in a
step what it does on its own. -/
theorem step_tx {operation : Operation} (stepped : entity.step operation = some next) :
    (∃ inputs, execute Transmitter.step entity.tx inputs = some next.tx) ∨
      (∃ config, operation = .configure config ∧
        next = entity.configure config) ∨
      operation = .reestablish ∧ next = entity.reestablish := by
  obtain ⟨⟨after, pdus⟩, operated, rfl⟩ := map_eq_some_iff.mp stepped
  cases operation with
  | dataReq mui octets =>
    cases operated
    exact Or.inl ⟨[.dataReq mui octets], rfl⟩
  | getPdus now frame requested block =>
    left
    simp only [operate, getPdus] at operated
    split at operated
    · obtain ⟨pdu, -, stored⟩ := map_eq_some_iff.mp operated
      cases stored
      exact ⟨[], rfl⟩
    · obtain ⟨⟨tx, sent⟩, granted, stored⟩ := map_eq_some_iff.mp operated
      cases stored
      exact ⟨[.getPdus now frame requested block], by simp [execute, Transmitter.step, granted]⟩
  | receive now frame blocks =>
    obtain ⟨received, routed, stored⟩ := map_eq_some_iff.mp operated
    cases stored
    exact Or.inl (receiveRouting_tx routed)
  | statusIndication now frame =>
    left
    cases operated
    rw [macStatusIndication]
    split
    · exact ⟨[.pollTimer now], rfl⟩
    · exact ⟨[], rfl⟩
  | configure config =>
    cases operated
    exact Or.inr (Or.inl ⟨config, rfl, rfl⟩)
  | reestablish =>
    cases operated
    exact Or.inr (Or.inr ⟨rfl, rfl⟩)

end Transmitting

end Entity

end OpenAir.RlcAm
