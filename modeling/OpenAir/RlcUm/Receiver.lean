import OpenAir.RlcAm.Receiver
import OpenAir.RlcUm.Reassembly

/-! Duplicate avoidance and reordering of an unacknowledged mode entity, after
`rlc_um_dar.c`. The buffer is a function from the sequence number. A failing
assertion is `none`. -/

set_option autoImplicit false

namespace OpenAir.RlcUm

open OpenAir.RlcAm (Timer initTimerReordering stopAndResetTimerReordering)

/-- The receiving side of `rlc_um_entity_t`. -/
structure Receiver where
  vrUr : Nat
  vrUx : Nat
  vrUh : Nat
  snLength : SnLength
  tReordering : Timer
  darBuffer : Nat → Option (List UInt8)
  reassembly : Reassembly

/-- The receiving side after `rlc_um_init` and `rlc_um_configure`. -/
def Receiver.init (snLength : SnLength) (isDataPlane : Bool) (msDuration : Nat) : Receiver :=
  { vrUr := 0
    vrUx := 0
    vrUh := 0
    snLength := snLength
    tReordering := initTimerReordering msDuration
    darBuffer := fun _ => none
    reassembly := ⟨isDataPlane, none, snLength.modulo - 1, false, []⟩ }

/-- `rlc_um_start_timer_reordering`. A running timer is started anew. -/
def startTimerReordering (now : Nat) (timer : Timer) : Timer :=
  if timer.msDuration > 0 then
    { timer with
      timedOut := false
      running := true
      msTimeOut := (now + timer.msDuration) % 2 ^ 32
      msStart := now }
  else { timer with timedOut := false }

namespace Receiver

def nextSn (rx : Receiver) (sn : Nat) : Nat := (sn + 1) % rx.snLength.modulo

/-- A number relative to the lower edge of the reordering window. The remainder
of C has the sign of the difference. -/
def relative (rx : Receiver) (sn : Int) : Int :=
  (sn - ((rx.vrUh : Int) - rx.snLength.windowSize)).tmod rx.snLength.modulo

def inWindow (rx : Receiver) (lowerBound sn higherBound : Int) : Int :=
  if rx.relative lowerBound > rx.relative sn then -2
  else if rx.relative higherBound < rx.relative sn then -1
  else if rx.relative lowerBound = rx.relative sn then
    if rx.relative higherBound = rx.relative sn then 3 else 1
  else if rx.relative higherBound = rx.relative sn then 2
  else 0

def inReorderingWindow (rx : Receiver) (sn : Nat) : Int :=
  if 0 ≤ rx.relative sn ∧ rx.relative sn < rx.snLength.windowSize then 0 else -1

def storePdu (rx : Receiver) (sn : Nat) (octets : List UInt8) : Receiver :=
  { rx with darBuffer := Function.update rx.darBuffer sn (some octets) }

def removePdu (rx : Receiver) (sn : Nat) : Receiver :=
  { rx with darBuffer := Function.update rx.darBuffer sn none }

/-- One round of `rlc_um_try_reassembly`. -/
def reassembleSn (rx : Receiver) (sn : Nat) : Option Receiver :=
  match rx.darBuffer sn with
  | some octets =>
    (rx.reassembly.reassemblePdu rx.snLength sn octets).map fun reassembly =>
      { rx with reassembly := reassembly }.removePdu sn
  | none => some { rx with reassembly := rx.reassembly.skipPdu }

/-- The loop of `rlc_um_try_reassembly`, which stops before VR(UH) too. -/
def reassembleLoop (endSn : Nat) : Nat → Receiver → Nat → Option Receiver
  | 0, _, _ => none
  | fuel + 1, rx, sn => (rx.reassembleSn sn).bind fun rx =>
    let sn := rx.nextSn sn
    if sn = rx.vrUh ∨ sn = endSn then some rx else reassembleLoop endSn fuel rx sn

/-- `rlc_um_try_reassembly`. Its callers give it no negative number. -/
def tryReassembly (rx : Receiver) (startSn endSn : Nat) : Option Receiver :=
  if startSn = endSn then some rx
  else reassembleLoop endSn rx.snLength.modulo rx startSn

def advanceVrUr (rx : Receiver) : Nat → Nat → Nat
  | 0, sn => sn
  | fuel + 1, sn =>
    let sn := rx.nextSn sn
    if (rx.darBuffer sn).isSome ∧ sn ≠ rx.vrUh then advanceVrUr rx fuel sn else sn

def lowerEdge (rx : Receiver) : Nat :=
  if rx.vrUh < rx.snLength.windowSize then rx.vrUh + rx.snLength.modulo - rx.snLength.windowSize
  else rx.vrUh - rx.snLength.windowSize

def moveWindow (rx : Receiver) (sn : Nat) : Option Receiver :=
  if rx.inReorderingWindow sn < 0 then
    let rx := { rx with vrUh := rx.nextSn sn }
    if rx.inReorderingWindow rx.vrUr < 0 then
      (rx.tryReassembly rx.vrUr rx.lowerEdge).map fun next => { next with vrUr := rx.lowerEdge }
    else some rx
  else some rx

def deliver (rx : Receiver) (sn : Nat) : Option Receiver :=
  if sn = rx.vrUr ∧ (rx.darBuffer rx.vrUr).isSome then
    let rx := { rx with vrUr := rx.advanceVrUr rx.snLength.modulo rx.vrUr }
    rx.tryReassembly sn rx.vrUr
  else some rx

def stopTimer (rx : Receiver) : Receiver :=
  { rx with tReordering := stopAndResetTimerReordering rx.tReordering }

def startTimer (rx : Receiver) (now : Nat) : Receiver :=
  { rx with tReordering := startTimerReordering now rx.tReordering, vrUx := rx.vrUh }

/-- A running t-Reordering is stopped when VR(UX) has left the window or VR(UR)
has passed it. -/
def stopIfPassed (rx : Receiver) : Receiver :=
  let rx :=
    if rx.tReordering.running ∧ rx.vrUh ≠ rx.vrUx ∧ rx.inReorderingWindow rx.vrUx < 0 then
      rx.stopTimer
    else rx
  if rx.tReordering.running ∧
      (rx.inWindow rx.vrUr rx.vrUx rx.vrUh = -2 ∨ rx.inWindow rx.vrUr rx.vrUx rx.vrUh = 1) then
    rx.stopTimer
  else rx

/-- The timer part of `rlc_um_receive_process_dar`. -/
def updateReordering (rx : Receiver) (now : Nat) : Receiver :=
  let rx := rx.stopIfPassed
  if rx.tReordering.running = false ∧ rx.inWindow rx.vrUr rx.vrUh rx.vrUh = 2 then
    rx.startTimer now
  else rx

def receiveProcessDar (rx : Receiver) (now : Nat) (octets : List UInt8) : Option Receiver :=
  let sn := (rx.snLength.header octets).sn
  let placed := rx.inWindow ((rx.vrUh : Int) - rx.snLength.windowSize) sn rx.vrUr
  if placed = 1 ∨ placed = 0 then some rx
  else if (rx.darBuffer sn).isSome ∧ rx.inWindow rx.vrUr sn rx.vrUh = 0 then some rx
  else
    ((rx.storePdu sn octets).moveWindow sn).bind fun rx =>
      (rx.deliver sn).map fun rx => rx.updateReordering now

/-- The loop that looks for the first number not received when t-Reordering
expires. -/
def firstMissing (rx : Receiver) : Nat → Nat → Option Nat
  | 0, _ => none
  | fuel + 1, sn =>
    if (rx.darBuffer sn).isSome then firstMissing rx fuel (rx.nextSn sn) else some sn

def expire (rx : Receiver) (now : Nat) : Option Receiver :=
  (rx.firstMissing (rx.snLength.modulo + 1) rx.vrUx).bind fun vrUr =>
    (Receiver.tryReassembly { rx with vrUr := vrUr } rx.vrUr vrUr).map fun rx =>
      if rx.inWindow rx.vrUr rx.vrUh rx.vrUh = 2 then rx.startTimer now else rx.stopTimer

/-- `rlc_um_check_timer_dar_time_out`. Nothing is done while another thread has
`lock_dar_buffer`. -/
def checkTimerDarTimeOut (rx : Receiver) (now : Nat) (lockFree : Bool) : Option Receiver :=
  if rx.tReordering.expired now ∧ lockFree = true then rx.expire now else some rx

end Receiver

inductive RxInput where
  | pdu (now : Nat) (octets : List UInt8)
  | timerCheck (now : Nat) (lockFree : Bool)
  deriving DecidableEq, Repr

def Receiver.step (rx : Receiver) : RxInput → Option Receiver
  | .pdu now octets => rx.receiveProcessDar now octets
  | .timerCheck now lockFree => rx.checkTimerDarTimeOut now lockFree

end OpenAir.RlcUm
