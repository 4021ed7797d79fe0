import OpenAir.RlcAm.Receiver

/-! The transmitting side of an acknowledged mode entity, after
`rlc_am_structs.h`, `rlc_am_entity.h`, `rlc_am_init.c`, `rlc_am_in_sdu.c` and
`rlc_am_data_req` of `rlc_am.c`. The arrays of the entity are functions from
their index. Statistics are left out. -/

set_option autoImplicit false

namespace OpenAir.RlcAm

def rlcAmSduControlBufferSize : Nat := 128
def rlcAmMaxSduFragments : Nat := 32
def rlcAmHeaderMinSize : Nat := 2

/-- `rlc_am_tx_sdu_management_t`. `memBlock` holds the octets of the SDU, and
`nb_pdus` is the length of `pdusIndex`. -/
structure TxSdu where
  memBlock : Option (List UInt8)
  mui : Nat
  sduRemainingSize : Nat
  sduSegmentedSize : Nat
  sduSize : Nat
  pdusIndex : List Nat
  nbPdusAck : Nat
  segmented : Bool
  transmittedSuccessfully : Bool
  deriving DecidableEq, Repr

def TxSdu.zeroed : TxSdu :=
  { memBlock := none, mui := 0, sduRemainingSize := 0, sduSegmentedSize := 0, sduSize := 0
    pdusIndex := [], nbPdusAck := 0, segmented := false, transmittedSuccessfully := false }

/-- `rlc_am_tx_data_pdu_management_t`. `memBlock` holds the octets of the PDU,
`payload` is the position of its payload there, `nb_sdus` is the length of
`sdusIndex`, and `holes` the filled part of the two hole arrays. -/
structure TxPdu where
  memBlock : Option (List UInt8)
  payload : Nat
  sdusIndex : List Nat
  lastNackTime : Nat
  holes : List (Int × Int)
  headerAndPayloadSize : Int
  payloadSize : Int
  nackSoStart : Int
  nackSoStop : Int
  retxCount : Int
  ack : Bool
  retransmit : Bool
  deriving DecidableEq, Repr

def TxPdu.zeroed : TxPdu :=
  { memBlock := none, payload := 0, sdusIndex := [], lastNackTime := 0, holes := []
    headerAndPayloadSize := 0, payloadSize := 0, nackSoStart := 0, nackSoStop := 0
    retxCount := 0, ack := false, retransmit := false }

/-- `confirmed` records, oldest first, the calls of `rlc_data_conf`: the slot
and `mui` of the SDU, and whether the status is `RLC_SDU_CONFIRM_YES`. -/
structure Transmitter where
  vtA : Nat
  vtMs : Nat
  vtS : Nat
  pollSn : Nat
  cPduWithoutPoll : Nat
  cByteWithoutPoll : Nat
  pollPdu : Nat
  pollByte : Nat
  forcePoll : Bool
  maxRetxThreshold : Nat
  tPollRetransmit : Timer
  inputSdus : Nat → TxSdu
  nbSdu : Int
  nbSduNoSegmented : Int
  nextSduIndex : Nat
  currentSduIndex : Nat
  sduBufferOccupancy : Int
  pduRetransBuffer : Nat → TxPdu
  retransNumPdus : Int
  retransNumBytes : Int
  retransNumBytesToRetransmit : Int
  firstRetransPduSn : Int
  confirmed : List (Nat × Nat × Bool)

/-! The functions of t-PollRetransmit, with the bodies of those of t-Reordering. -/

def initTimerPollRetransmit (msDuration : Nat) : Timer := initTimerReordering msDuration

def startTimerPollRetransmit (now : Nat) (timer : Timer) : Timer := startTimerReordering now timer

def stopAndResetTimerPollRetransmit (timer : Timer) : Timer := stopAndResetTimerReordering timer

/-- What `rlc_am_configure` sets on the transmitting side. -/
structure TxConfiguration where
  maxRetxThreshold : Nat
  pollPdu : Nat
  pollByte : Nat
  tPollRetransmit : Nat

/-- The transmitting side after `rlc_am_init` and `rlc_am_configure`. -/
def Transmitter.init (config : TxConfiguration) : Transmitter :=
  { vtA := 0
    vtMs := rlcAmWindowSize
    vtS := 0
    pollSn := 0
    cPduWithoutPoll := 0
    cByteWithoutPoll := 0
    pollPdu := config.pollPdu
    pollByte := config.pollByte
    forcePoll := false
    maxRetxThreshold := config.maxRetxThreshold
    tPollRetransmit := initTimerPollRetransmit config.tPollRetransmit
    inputSdus := fun _ => .zeroed
    nbSdu := 0
    nbSduNoSegmented := 0
    nextSduIndex := 0
    currentSduIndex := 0
    sduBufferOccupancy := 0
    pduRetransBuffer := fun _ => .zeroed
    retransNumPdus := 0
    retransNumBytes := 0
    retransNumBytesToRetransmit := 0
    firstRetransPduSn := -1
    confirmed := [] }

def nextSlot (slot : Nat) : Nat := (slot + 1) % rlcAmSduControlBufferSize

namespace Transmitter

def setSdu (tx : Transmitter) (slot : Nat) (sdu : TxSdu) : Transmitter :=
  { tx with inputSdus := Function.update tx.inputSdus slot sdu }

def setPdu (tx : Transmitter) (sn : Nat) (pdu : TxPdu) : Transmitter :=
  { tx with pduRetransBuffer := Function.update tx.pduRetransBuffer sn pdu }

/-- The test of `rlc_am_data_req` for a free slot. -/
def acceptsSdu (tx : Transmitter) : Bool :=
  (tx.inputSdus tx.nextSduIndex).memBlock.isNone &&
    !(tx.inputSdus tx.nextSduIndex).segmented &&
    decide (nextSlot tx.nextSduIndex ≠ tx.currentSduIndex)

/-- `rlc_am_data_req`. The size is a `uint16_t`. -/
def dataReq (tx : Transmitter) (mui : Nat) (octets : List UInt8) : Transmitter :=
  if tx.acceptsSdu then
    let size := octets.length % 2 ^ 16
    let tx := tx.setSdu tx.nextSduIndex
      { TxSdu.zeroed with
        memBlock := some octets
        mui := mui
        sduSize := size
        sduRemainingSize := size }
    { tx with
      sduBufferOccupancy := tx.sduBufferOccupancy + size
      nbSdu := tx.nbSdu + 1
      nbSduNoSegmented := tx.nbSduNoSegmented + 1
      nextSduIndex := nextSlot tx.nextSduIndex }
  else tx

def freeInSduData (tx : Transmitter) (slot : Nat) : Transmitter :=
  if (tx.inputSdus slot).memBlock.isSome then
    let tx := tx.setSdu slot { tx.inputSdus slot with memBlock := none, sduRemainingSize := 0 }
    { tx with nbSduNoSegmented := tx.nbSduNoSegmented - 1 }
  else tx

end Transmitter

/-- The loop at the end of `rlc_am_free_in_sdu`. It passes at most every slot
once, because it stops at `next_sdu_index`. -/
def skipTransmitted (inputSdus : Nat → TxSdu) (next : Nat) : Nat → Nat → Nat
  | 0, current => current
  | fuel + 1, current =>
    if current ≠ next ∧ (inputSdus current).transmittedSuccessfully = true then
      skipTransmitted inputSdus next fuel (nextSlot current)
    else current

def Transmitter.freeInSdu (tx : Transmitter) (slot : Nat) : Transmitter :=
  let held := (tx.inputSdus slot).memBlock.isSome
  let tx :=
    { tx.setSdu slot { TxSdu.zeroed with transmittedSuccessfully := true } with
      nbSduNoSegmented := if held then tx.nbSduNoSegmented - 1 else tx.nbSduNoSegmented
      nbSdu := tx.nbSdu - 1 }
  let current :=
    if tx.currentSduIndex = slot then nextSlot tx.currentSduIndex else tx.currentSduIndex
  { tx with
    currentSduIndex :=
      skipTransmitted tx.inputSdus tx.nextSduIndex rlcAmSduControlBufferSize current }

/-- `rlc_am_pdu_polling`: the PDU with its poll bit set or cleared. -/
def Transmitter.pduPolling (tx : Transmitter) (now : Nat) (octets : List UInt8)
    (payloadSize : Int) : Transmitter × List UInt8 :=
  let cPdu := (tx.cPduWithoutPoll + 1) % 2 ^ 32
  let cByte := (((tx.cByteWithoutPoll : Int) + asInt16 payloadSize) % 2 ^ 32).toNat
  let b1 := octets.headD 0
  if cPdu ≥ tx.pollPdu ∨ cByte ≥ tx.pollByte ∨
      (tx.sduBufferOccupancy = 0 ∧ tx.retransNumBytesToRetransmit = 0) ∨
      tx.vtS = tx.vtMs ∨ tx.forcePoll = true then
    ({ tx with
        forcePoll := false
        cPduWithoutPoll := 0
        cByteWithoutPoll := 0
        pollSn := (tx.vtS + (rlcAmSnModulo - 1)) % rlcAmSnModulo
        tPollRetransmit := startTimerPollRetransmit now tx.tPollRetransmit },
      octets.set 0 (b1 ||| 0x20))
  else
    ({ tx with cPduWithoutPoll := cPdu, cByteWithoutPoll := cByte }, octets.set 0 (b1 &&& 0xDF))

end OpenAir.RlcAm
