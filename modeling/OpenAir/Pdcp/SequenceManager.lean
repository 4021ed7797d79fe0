import Mathlib.Algebra.Order.Ring.Int
import Mathlib.Data.List.Basic

/-! Sequence numbering state of a PDCP entity and its update rules, after
`pdcp_sequence_manager.c`. Unsigned C fields are naturals and every increment
is reduced to the width of its field. -/

set_option autoImplicit false

namespace OpenAir.Pdcp

inductive RlcMode where
  | none
  | am
  | um
  | tm
  deriving DecidableEq, Repr

/-- The fields of `pdcp_t` that numbering, security and the data path use. -/
structure Entity where
  isUe : Bool
  cipheringAlgorithm : Nat
  integrityProtAlgorithm : Nat
  kUPenc : List UInt8
  kRRCint : List UInt8
  kRRCenc : List UInt8
  securityActivated : Nat
  rlcMode : RlcMode
  seqNumSize : Nat
  nextPdcpTxSn : Nat
  nextPdcpRxSn : Nat
  nextPdcpRxSnBeforeIntegrity : Nat
  txHfn : Nat
  rxHfn : Nat
  rxHfnOffset : Int
  lastSubmittedPdcpRxSn : Nat
  missingPduBitmap : List UInt8
  deriving DecidableEq, Repr

/-- A `pdcp_t` as it is allocated, with every field zero. -/
def Entity.zeroed : Entity :=
  { isUe := false
    cipheringAlgorithm := 0
    integrityProtAlgorithm := 0
    kUPenc := []
    kRRCint := []
    kRRCenc := []
    securityActivated := 0
    rlcMode := .none
    seqNumSize := 0
    nextPdcpTxSn := 0
    nextPdcpRxSn := 0
    nextPdcpRxSnBeforeIntegrity := 0
    txHfn := 0
    rxHfn := 0
    rxHfnOffset := 0
    lastSubmittedPdcpRxSn := 0
    missingPduBitmap := List.replicate 512 0 }

def pdcpSn5Bit : Nat := 5
def pdcpSn7Bit : Nat := 7
def pdcpSn12Bit : Nat := 12

def reorderingWindowSn7Bit : Nat := 64
def reorderingWindowSn12Bit : Nat := 2048

/-- Incrementing a `pdcp_sn_t` (16 bits). -/
def incrementSn (sn : Nat) : Nat := (sn + 1) % 2 ^ 16

/-- Incrementing a `pdcp_hfn_t` (32 bits). -/
def incrementHfn (hfn : Nat) : Nat := (hfn + 1) % 2 ^ 32

def isSeqNumSizeValid (pdcp : Entity) : Bool :=
  pdcp.seqNumSize == 5 || pdcp.seqNumSize == 7 || pdcp.seqNumSize == 12

/-- `pdcp_calculate_max_seq_num_for_given_size`: a 16-bit shift, then minus one. -/
def calculateMaxSeqNumForGivenSize (seqNumSize : Nat) : Nat :=
  ((1 <<< seqNumSize) % 2 ^ 16 + (2 ^ 16 - 1)) % 2 ^ 16

def isSeqNumValid (seqNum seqNumSize : Nat) : Bool :=
  decide (seqNum ≤ calculateMaxSeqNumForGivenSize seqNumSize)

/-- `pdcp_get_next_tx_seq_number`: the number is taken first, then the
transmit state (and at the last number the HFN) moves on. -/
def getNextTxSeqNumber (pdcp : Entity) : Nat × Entity :=
  if isSeqNumSizeValid pdcp = false then (2 ^ 16 - 1, pdcp)
  else if pdcp.nextPdcpTxSn = calculateMaxSeqNumForGivenSize pdcp.seqNumSize then
    (pdcp.nextPdcpTxSn, { pdcp with nextPdcpTxSn := 0, txHfn := incrementHfn pdcp.txHfn })
  else
    (pdcp.nextPdcpTxSn, { pdcp with nextPdcpTxSn := incrementSn pdcp.nextPdcpTxSn })

def advanceRxWindow (pdcp : Entity) : Entity :=
  if isSeqNumSizeValid pdcp = false then pdcp
  else if pdcp.nextPdcpRxSn = calculateMaxSeqNumForGivenSize pdcp.seqNumSize then
    { pdcp with nextPdcpRxSn := 0, rxHfn := incrementHfn pdcp.rxHfn }
  else
    { pdcp with nextPdcpRxSn := incrementSn pdcp.nextPdcpRxSn }

def markNthBitOfOctet (octet : UInt8) (index : Nat) : UInt8 :=
  octet ||| UInt8.ofNat (0x80 >>> index)

def markCurrentPduAsReceived (seqNum : Nat) (pdcp : Entity) : Entity :=
  { pdcp with
    missingPduBitmap :=
      pdcp.missingPduBitmap.modify (seqNum / 8) fun octet =>
        markNthBitOfOctet octet (seqNum % 8) }

def receiveSrbSeqNumber (seqNum : Nat) (pdcp : Entity) : Entity :=
  let rxHfn := if seqNum < pdcp.nextPdcpRxSn then incrementHfn pdcp.rxHfn else pdcp.rxHfn
  advanceRxWindow { pdcp with
    rxHfn := rxHfn
    rxHfnOffset := 0
    nextPdcpRxSnBeforeIntegrity := pdcp.nextPdcpRxSn
    nextPdcpRxSn := seqNum }

def receiveUmSeqNumber (seqNum : Nat) (pdcp : Entity) : Entity :=
  let rxHfn := if seqNum < pdcp.nextPdcpRxSn then incrementHfn pdcp.rxHfn else pdcp.rxHfn
  advanceRxWindow { pdcp with rxHfn := rxHfn, nextPdcpRxSn := seqNum }

def reorderingWindow (pdcp : Entity) : Nat :=
  if pdcp.seqNumSize = pdcpSn7Bit then reorderingWindowSn7Bit else reorderingWindowSn12Bit

/-- The first test of the RLC AM rules, on C `int` differences: the number
lies outside the window that follows the last submitted one. -/
def OutOfReorderingWindow (seqNum : Nat) (pdcp : Entity) : Prop :=
  (seqNum : Int) - pdcp.lastSubmittedPdcpRxSn > reorderingWindow pdcp ∨
    (0 ≤ (pdcp.lastSubmittedPdcpRxSn : Int) - seqNum ∧
      (pdcp.lastSubmittedPdcpRxSn : Int) - seqNum < reorderingWindow pdcp)

instance (seqNum : Nat) (pdcp : Entity) : Decidable (OutOfReorderingWindow seqNum pdcp) :=
  inferInstanceAs (Decidable (_ ∨ _))

def receiveAmSeqNumber (seqNum : Nat) (pdcp : Entity) : Bool × Entity :=
  if OutOfReorderingWindow seqNum pdcp then
    (false, { pdcp with rxHfnOffset := if seqNum > pdcp.nextPdcpRxSn then -1 else 0 })
  else if (pdcp.nextPdcpRxSn : Int) - seqNum > reorderingWindow pdcp then
    -- The next expected number is only incremented here, not set from `seqNum`.
    (true, { pdcp with
      rxHfn := incrementHfn pdcp.rxHfn
      rxHfnOffset := 0
      nextPdcpRxSn := incrementSn pdcp.nextPdcpRxSn })
  else if (seqNum : Int) - pdcp.nextPdcpRxSn ≥ reorderingWindow pdcp then
    (true, { pdcp with rxHfnOffset := -1 })
  else if seqNum ≥ pdcp.nextPdcpRxSn then
    (true, advanceRxWindow { pdcp with rxHfnOffset := 0, nextPdcpRxSn := seqNum })
  else
    (true, { pdcp with rxHfnOffset := 0 })

/-- `pdcp_is_rx_seq_number_valid`: the answer and the updated entity. -/
def isRxSeqNumberValid (seqNum : Nat) (pdcp : Entity) (srbFlag : Bool) : Bool × Entity :=
  if isSeqNumSizeValid pdcp = false ∨ isSeqNumValid seqNum pdcp.seqNumSize = false then
    (false, pdcp)
  else
    let marked := markCurrentPduAsReceived seqNum pdcp
    if srbFlag then
      (true, receiveSrbSeqNumber seqNum marked)
    else
      match marked.rlcMode with
      | .am => receiveAmSeqNumber seqNum marked
      | .um => (true, receiveUmSeqNumber seqNum marked)
      | .tm | .none => (false, marked)

/-! The last number of each supported width. -/

@[simp] theorem calculateMaxSeqNumForGivenSize_five :
    calculateMaxSeqNumForGivenSize 5 = 31 := rfl

theorem isSeqNumSizeValid_iff {pdcp : Entity} :
    isSeqNumSizeValid pdcp = true ↔
      pdcp.seqNumSize = 5 ∨ pdcp.seqNumSize = 7 ∨ pdcp.seqNumSize = 12 := by
  simp [isSeqNumSizeValid, or_assoc]

theorem maxSeqNum_of_sizeValid {pdcp : Entity} (valid : isSeqNumSizeValid pdcp) :
    calculateMaxSeqNumForGivenSize pdcp.seqNumSize + 1 = 2 ^ pdcp.seqNumSize ∧
      2 ^ pdcp.seqNumSize < 2 ^ 16 := by
  rcases isSeqNumSizeValid_iff.mp valid with size | size | size <;> rw [size] <;> decide

structure SameConfiguration (before after : Entity) : Prop where
  securityActivated : after.securityActivated = before.securityActivated
  rlcMode : after.rlcMode = before.rlcMode
  seqNumSize : after.seqNumSize = before.seqNumSize
  lastSubmittedPdcpRxSn : after.lastSubmittedPdcpRxSn = before.lastSubmittedPdcpRxSn

theorem SameConfiguration.trans {first second third : Entity}
    (left : SameConfiguration first second) (right : SameConfiguration second third) :
    SameConfiguration first third :=
  ⟨right.securityActivated.trans left.securityActivated, right.rlcMode.trans left.rlcMode,
    right.seqNumSize.trans left.seqNumSize,
    right.lastSubmittedPdcpRxSn.trans left.lastSubmittedPdcpRxSn⟩

theorem advanceRxWindow_configuration (pdcp : Entity) :
    SameConfiguration pdcp (advanceRxWindow pdcp) := by
  unfold advanceRxWindow
  split
  · exact ⟨rfl, rfl, rfl, rfl⟩
  · split <;> exact ⟨rfl, rfl, rfl, rfl⟩

theorem receiveSrbSeqNumber_configuration (seqNum : Nat) (pdcp : Entity) :
    SameConfiguration pdcp (receiveSrbSeqNumber seqNum pdcp) := by
  refine SameConfiguration.trans ?_ (advanceRxWindow_configuration _)
  exact ⟨rfl, rfl, rfl, rfl⟩

theorem receiveUmSeqNumber_configuration (seqNum : Nat) (pdcp : Entity) :
    SameConfiguration pdcp (receiveUmSeqNumber seqNum pdcp) := by
  refine SameConfiguration.trans ?_ (advanceRxWindow_configuration _)
  exact ⟨rfl, rfl, rfl, rfl⟩

theorem receiveAmSeqNumber_configuration (seqNum : Nat) (pdcp : Entity) :
    SameConfiguration pdcp (receiveAmSeqNumber seqNum pdcp).2 := by
  unfold receiveAmSeqNumber
  split
  · exact ⟨rfl, rfl, rfl, rfl⟩
  · split
    · exact ⟨rfl, rfl, rfl, rfl⟩
    · split
      · exact ⟨rfl, rfl, rfl, rfl⟩
      · split
        · refine SameConfiguration.trans ?_ (advanceRxWindow_configuration _)
          exact ⟨rfl, rfl, rfl, rfl⟩
        · exact ⟨rfl, rfl, rfl, rfl⟩

theorem isRxSeqNumberValid_configuration (seqNum : Nat) (pdcp : Entity) (srbFlag : Bool) :
    SameConfiguration pdcp (isRxSeqNumberValid seqNum pdcp srbFlag).2 := by
  have marked : SameConfiguration pdcp (markCurrentPduAsReceived seqNum pdcp) :=
    ⟨rfl, rfl, rfl, rfl⟩
  unfold isRxSeqNumberValid
  split
  · exact ⟨rfl, rfl, rfl, rfl⟩
  · cases srbFlag with
    | true => exact marked.trans (receiveSrbSeqNumber_configuration _ _)
    | false =>
      simp only [Bool.false_eq_true, ↓reduceIte]
      split
      · exact marked.trans (receiveAmSeqNumber_configuration _ _)
      · exact marked.trans (receiveUmSeqNumber_configuration _ _)
      · exact marked
      · exact marked

end OpenAir.Pdcp
