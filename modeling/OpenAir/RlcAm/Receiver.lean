import OpenAir.RlcAm.ReceiverBuffer

/-! The receiving side of an acknowledged mode entity, after
`rlc_am_receiver.c`, `rlc_am_timer_reordering.c` and `rlc_am_init.c`: what the
arrival of a data PDU and the periodic check of t-Reordering do to its state
variables and its buffer. Statistics are left out. -/

set_option autoImplicit false

namespace OpenAir.RlcAm

structure Timer where
  msTimeOut : Nat
  msStart : Nat
  msDuration : Nat
  running : Bool
  timedOut : Bool
  deriving DecidableEq, Repr

/-- `handed` records, oldest first, every PDU passed to `rlc_am_reassemble_pdu`. -/
structure Receiver where
  vrR : Nat
  vrMr : Nat
  vrX : Nat
  vrMs : Nat
  vrH : Nat
  receiverBuffer : List RxPdu
  tReordering : Timer
  statusRequested : Bool
  handed : List PduInfo
  deriving DecidableEq, Repr

def initTimerReordering (msDuration : Nat) : Timer :=
  { msTimeOut := 0, msStart := 0, msDuration := msDuration, running := false, timedOut := false }

/-- The receiving side after `rlc_am_init` and the configuration of t-Reordering. -/
def Receiver.init (msDuration : Nat) : Receiver :=
  { vrR := 0
    vrMr := rlcAmWindowSize
    vrX := 0
    vrMs := 0
    vrH := 0
    receiverBuffer := []
    tReordering := initTimerReordering msDuration
    statusRequested := false
    handed := [] }

def startTimerReordering (now : Nat) (timer : Timer) : Timer :=
  if timer.running = false ∧ timer.msDuration > 0 then
    { timer with
      timedOut := false
      running := true
      msTimeOut := (now + timer.msDuration) % 2 ^ 32
      msStart := now }
  else { timer with timedOut := false }

def stopAndResetTimerReordering (timer : Timer) : Timer :=
  { timer with running := false, msTimeOut := 0, msStart := 0, timedOut := false }

/-- The timer part of `rlc_am_receive_process_data_pdu`. -/
def Receiver.updateReordering (rx : Receiver) (now sn : Nat) : Receiver :=
  let timer := rx.tReordering
  let timer :=
    if timer.running ∧
        (rx.vrX = rx.vrR ∨
          (inWindow rx.vrR rx.vrMr sn = false ∧ rx.vrX ≠ rx.vrMr)) then
      stopAndResetTimerReordering timer
    else timer
  if timer.running = false ∧ rx.vrH ≠ rx.vrR then
    { rx with tReordering := startTimerReordering now timer, vrX := rx.vrH }
  else { rx with tReordering := timer }

/-- What follows an insertion between `before` and `after`: the actions when a
data PDU is placed in the reception buffer, up to t-Reordering. -/
def Receiver.placed (rx : Receiver) (info : PduInfo) (before after : List RxPdu) :
    Receiver :=
  let (before, tb, after) := rxCheckAllByteSegments before ⟨info, false⟩ after
  let buffer := before ++ tb :: after
  let rx :=
    { rx with
      vrH := if snGte rx.vrR rx.vrH info.sn then nextSn info.sn else rx.vrH
      vrMs :=
        if info.sn = rx.vrMs ∧ tb.allSegmentsReceived = true then rxUpdateVrMs tb after
        else rx.vrMs }
  if info.sn = rx.vrR then
    let vrR :=
      if tb.allSegmentsReceived then rxUpdateVrR rx.vrR (tb :: after) else rx.vrR
    let (handed, kept) := rxListReassembleRlcSdus buffer
    { rx with
      vrR := vrR
      vrMr :=
        if tb.allSegmentsReceived then (vrR + rlcAmWindowSize) % rlcAmSnModulo
        else rx.vrMr
      receiverBuffer := kept
      handed := rx.handed ++ handed.map RxPdu.info }
  else { rx with receiverBuffer := buffer }

def Receiver.receiveProcessDataPdu (rx : Receiver) (now : Nat) (octets : List UInt8) :
    Receiver :=
  match getDataPduInfos octets with
  | none => rx
  | some info =>
    if inWindow rx.vrR rx.vrMr info.sn then
      let rx :=
        { rx with statusRequested := rx.statusRequested || info.p }
      match rxListInsertPdu rx.vrR rx.vrMr rx.receiverBuffer info with
      | none => { rx with statusRequested := true }
      | some (before, after) => (rx.placed info before after).updateReordering now info.sn
    else { rx with statusRequested := true }

def expiredVrMs (vrR vrX : Nat) : Nat → List RxPdu → Nat
  | vrMs, [] => vrMs
  | _, cursor :: rest =>
    if snGte vrR vrX cursor.info.sn ∧ cursor.allSegmentsReceived = false then
      cursor.info.sn
    else expiredVrMs vrR vrX (nextSn cursor.info.sn) rest

/-- The expiry condition of `rlc_am_check_timer_reordering`. -/
def Timer.expired (timer : Timer) (now : Nat) : Bool :=
  timer.running &&
    (decide (timer.msStart < timer.msTimeOut ∧ (timer.msTimeOut ≤ now ∨ now < timer.msStart)) ||
      decide (timer.msTimeOut < timer.msStart ∧ now < timer.msStart ∧ timer.msTimeOut ≤ now))

/-- `rlc_am_check_timer_reordering`. The restarted timer gets a new time-out
but is not set running again. -/
def Receiver.checkTimerReordering (rx : Receiver) (now : Nat) : Receiver :=
  if rx.tReordering.expired now then
    let vrMs := expiredVrMs rx.vrR rx.vrX rx.vrMs rx.receiverBuffer
    let timer := { rx.tReordering with running := false, timedOut := true }
    let restarted := snGt rx.vrR vrMs rx.vrH
    { rx with
      vrMs := vrMs
      vrX := if restarted then rx.vrH else rx.vrX
      tReordering :=
        if restarted then { timer with msTimeOut := (now + timer.msDuration) % 2 ^ 32 } else timer
      statusRequested := true }
  else rx

inductive RxInput where
  | dataPdu (now : Nat) (octets : List UInt8)
  | timerCheck (now : Nat)
  deriving DecidableEq, Repr

namespace Receiver

def step (rx : Receiver) : RxInput → Receiver
  | .dataPdu now octets => rx.receiveProcessDataPdu now octets
  | .timerCheck now => rx.checkTimerReordering now

def run (rx : Receiver) (inputs : List RxInput) : Receiver :=
  inputs.foldl step rx

theorem run_append (rx : Receiver) (front back : List RxInput) :
    rx.run (front ++ back) = (rx.run front).run back :=
  List.foldl_append

structure SameDelivery (before after : Receiver) : Prop where
  vrR : after.vrR = before.vrR
  vrMr : after.vrMr = before.vrMr
  vrH : after.vrH = before.vrH
  receiverBuffer : after.receiverBuffer = before.receiverBuffer
  handed : after.handed = before.handed

theorem updateReordering_sameDelivery (rx : Receiver) (now sn : Nat) :
    rx.SameDelivery (rx.updateReordering now sn) ∧
      (rx.updateReordering now sn).vrMs = rx.vrMs := by
  unfold updateReordering
  dsimp only
  split
  all_goals
    split
    · exact ⟨⟨rfl, rfl, rfl, rfl, rfl⟩, rfl⟩
    · exact ⟨⟨rfl, rfl, rfl, rfl, rfl⟩, rfl⟩

theorem checkTimerReordering_sameDelivery (rx : Receiver) (now : Nat) :
    rx.SameDelivery (rx.checkTimerReordering now) := by
  unfold checkTimerReordering
  split
  · exact ⟨rfl, rfl, rfl, rfl, rfl⟩
  · exact ⟨rfl, rfl, rfl, rfl, rfl⟩

end Receiver

end OpenAir.RlcAm
