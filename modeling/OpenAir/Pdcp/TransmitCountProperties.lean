import Mathlib.Tactic.IntervalCases
import OpenAir.Base.Cycle
import OpenAir.Base.Word
import OpenAir.Pdcp.Security

/-! Closed form of the sequence numbers and COUNT values that a transmitting
entity assigns, PDU after PDU, and its comparison with the numbering law. -/

set_option autoImplicit false

namespace OpenAir.Pdcp

open Entity

def afterNumbering (pdcp : Entity) : Nat → Entity
  | 0 => pdcp
  | index + 1 => (getNextTxSeqNumber (afterNumbering pdcp index)).2

def transmitSn (pdcp : Entity) (index : Nat) : Nat :=
  (getNextTxSeqNumber (afterNumbering pdcp index)).1

/-- The COUNT of the PDU with the given transmit index: formed from the state
that numbering has already moved on. -/
def transmitCount (pdcp : Entity) (srbFlag : Bool) (index : Nat) : Nat :=
  getNextCountTx (getNextTxSeqNumber (afterNumbering pdcp index)).2 srbFlag
    (transmitSn pdcp index)

structure TransmitFresh (pdcp : Entity) : Prop where
  sizeValid : isSeqNumSizeValid pdcp
  sn : pdcp.nextPdcpTxSn = 0
  hfn : pdcp.txHfn = 0

variable {pdcp : Entity} {srbFlag : Bool} {index : Nat}

theorem getNextTxSeqNumber_index (valid : isSeqNumSizeValid pdcp) (index : Nat) :
    getNextTxSeqNumber { pdcp with
        nextPdcpTxSn := index % 2 ^ pdcp.seqNumSize
        txHfn := index / 2 ^ pdcp.seqNumSize % 2 ^ 32 } =
      (index % 2 ^ pdcp.seqNumSize, { pdcp with
        nextPdcpTxSn := (index + 1) % 2 ^ pdcp.seqNumSize
        txHfn := (index + 1) / 2 ^ pdcp.seqNumSize % 2 ^ 32 }) := by
  obtain ⟨last, narrow⟩ := maxSeqNum_of_sizeValid valid
  have validNext : isSeqNumSizeValid { pdcp with
      nextPdcpTxSn := index % 2 ^ pdcp.seqNumSize
      txHfn := index / 2 ^ pdcp.seqNumSize % 2 ^ 32 } := valid
  simp only [getNextTxSeqNumber, validNext, Bool.true_eq_false, ↓reduceIte]
  generalize modulus : 2 ^ pdcp.seqNumSize = width at last narrow ⊢
  have bounded : index % width < width := Nat.mod_lt _ (by omega)
  by_cases wraps : index % width = calculateMaxSeqNumForGivenSize pdcp.seqNumSize
  · obtain ⟨cycle, next⟩ := Base.succ_at_cycle_end (wraps ▸ last)
    simp [wraps, ↓reduceIte, cycle, next, incrementHfn]
  · have inside : index % width + 1 < width := by omega
    obtain ⟨cycle, next⟩ := Base.succ_inside_cycle inside
    have fits : (index % width + 1) % 2 ^ 16 = index % width + 1 :=
      Nat.mod_eq_of_lt (by omega)
    simp only [wraps, ↓reduceIte, cycle, next, incrementSn, fits]

theorem afterNumbering_eq (fresh : TransmitFresh pdcp) (index : Nat) :
    afterNumbering pdcp index =
      { pdcp with
        nextPdcpTxSn := index % 2 ^ pdcp.seqNumSize
        txHfn := index / 2 ^ pdcp.seqNumSize % 2 ^ 32 } := by
  induction index with
  | zero =>
    obtain ⟨_, sn, hfn⟩ := fresh
    cases pdcp
    subst sn hfn
    simp [afterNumbering]
  | succ index ih =>
    simp only [afterNumbering, ih, getNextTxSeqNumber_index fresh.sizeValid]

theorem transmitSn_eq (fresh : TransmitFresh pdcp) (index : Nat) :
    transmitSn pdcp index = index % 2 ^ pdcp.seqNumSize := by
  rw [transmitSn, afterNumbering_eq fresh, getNextTxSeqNumber_index fresh.sizeValid]

/-- The width of the SN field that COUNT construction assumes: five bits on an
SRB, and twelve on every DRB, since a DRB's size never equals the enumeration
value it is compared with. -/
def countSnBits (srbFlag : Bool) : Nat := if srbFlag then 5 else 12

theorem sizeValid_of_countSnBits (sized : pdcp.seqNumSize = countSnBits srbFlag) :
    isSeqNumSizeValid pdcp := by
  rw [isSeqNumSizeValid_iff, sized]
  cases srbFlag with
  | true => exact .inl rfl
  | false => exact .inr (.inr rfl)

theorem getNextCountTx_eq (valid : isSeqNumSizeValid pdcp) (srbFlag : Bool) (sn : Nat) :
    getNextCountTx pdcp srbFlag sn =
      (pdcp.txHfn * 2 ^ countSnBits srbFlag + sn % 2 ^ countSnBits srbFlag) % 2 ^ 32 := by
  have notEnum : pdcp.seqNumSize ≠ pdcpSnSizeLen7bits := by
    rcases isSeqNumSizeValid_iff.mp valid with size | size | size <;> rw [size] <;> decide
  cases srbFlag with
  | true =>
    exact Base.shiftLeft_or_mask 32 5 (by decide) pdcp.txHfn sn
  | false =>
    simp only [getNextCountTx, Bool.false_eq_true, ↓reduceIte, notEnum, countSnBits]
    exact Base.shiftLeft_or_mask 32 12 (by decide) pdcp.txHfn sn

theorem transmitCount_eq (fresh : TransmitFresh pdcp) (srbFlag : Bool) (index : Nat) :
    transmitCount pdcp srbFlag index =
      ((index + 1) / 2 ^ pdcp.seqNumSize * 2 ^ countSnBits srbFlag +
        index % 2 ^ pdcp.seqNumSize % 2 ^ countSnBits srbFlag) % 2 ^ 32 := by
  have valid := fresh.sizeValid
  rw [transmitCount, transmitSn_eq fresh, afterNumbering_eq fresh,
    getNextTxSeqNumber_index valid, getNextCountTx_eq (by exact valid), Nat.add_mod,
    Nat.mod_mul_mod, ← Nat.add_mod]

def BearerSized (pdcp : Entity) (srbFlag : Bool) : Prop :=
  if srbFlag then pdcp.seqNumSize = 5 else pdcp.seqNumSize = 7 ∨ pdcp.seqNumSize = 12

theorem BearerSized.sizeValid (sized : BearerSized pdcp srbFlag) : isSeqNumSizeValid pdcp := by
  rw [isSeqNumSizeValid_iff]
  cases srbFlag with
  | true => exact .inl sized
  | false => exact .inr sized

/-- The numbering law of a transmitter: the SN counts PDUs modulo its width and
COUNT counts them outright. -/
def NumberedByIndex (pdcp : Entity) (srbFlag : Bool) (index : Nat) : Prop :=
  transmitSn pdcp index = index % 2 ^ pdcp.seqNumSize ∧
    transmitCount pdcp srbFlag index = index

/-- The indices whose COUNT comes out right: away from the last SN of a cycle
and, with a seven-bit SN, in the first cycle only. The one later index is a
coincidence of the 32-bit wrap. -/
def CountUndisturbed (seqNumSize index : Nat) : Prop :=
  (index % 2 ^ seqNumSize ≠ 2 ^ seqNumSize - 1 ∧ (seqNumSize = 7 → index < 128)) ∨
    (seqNumSize = 7 ∧ index = 138547327)

private theorem five_bit_count (bounded : index < 2 ^ 32) :
    ((index + 1) / 2 ^ 5 * 2 ^ 5 + index % 2 ^ 5 % 2 ^ 5) % 2 ^ 32 = index ↔
      index % 2 ^ 5 ≠ 2 ^ 5 - 1 := by
  omega

private theorem twelve_bit_count (bounded : index < 2 ^ 32) :
    ((index + 1) / 2 ^ 12 * 2 ^ 12 + index % 2 ^ 12 % 2 ^ 12) % 2 ^ 32 = index ↔
      index % 2 ^ 12 ≠ 2 ^ 12 - 1 := by
  omega

/-- A seven-bit SN under a twelve-bit HFN position. The carry out of 32 bits is
at most 32, and each of its values leaves one linear equation. -/
private theorem seven_bit_count (bounded : index < 2 ^ 32) :
    ((index + 1) / 2 ^ 7 * 2 ^ 12 + index % 2 ^ 7 % 2 ^ 12) % 2 ^ 32 = index ↔
      (index % 2 ^ 7 ≠ 2 ^ 7 - 1 ∧ index < 128) ∨ index = 138547327 := by
  constructor
  · intro agrees
    obtain ⟨carry, carried⟩ : ∃ carry,
        (index + 1) / 2 ^ 7 * 2 ^ 12 + index % 2 ^ 7 = index + 2 ^ 32 * carry :=
      ⟨((index + 1) / 2 ^ 7 * 2 ^ 12 + index % 2 ^ 7 % 2 ^ 12) / 2 ^ 32, by omega⟩
    have small : carry ≤ 32 := by omega
    interval_cases carry <;> omega
  · rintro (⟨inside, early⟩ | rfl)
    · omega
    · rfl

/-- A fresh transmitter follows the numbering law at exactly the undisturbed
indices; the SN part holds at every index. -/
theorem numberedByIndex_iff_countUndisturbed {pdcp : Entity} {srbFlag : Bool}
    (sized : BearerSized pdcp srbFlag) (sn : pdcp.nextPdcpTxSn = 0) (hfn : pdcp.txHfn = 0)
    {index : Nat} (bounded : index < 2 ^ 32) :
    NumberedByIndex pdcp srbFlag index ↔ CountUndisturbed pdcp.seqNumSize index := by
  have fresh : TransmitFresh pdcp := ⟨sized.sizeValid, sn, hfn⟩
  simp only [NumberedByIndex, transmitSn_eq fresh, true_and, transmitCount_eq fresh,
    CountUndisturbed]
  cases srbFlag with
  | true =>
    have size : pdcp.seqNumSize = 5 := sized
    simp only [size, countSnBits, ↓reduceIte, five_bit_count bounded]
    omega
  | false =>
    rcases sized with size | size
    · simp only [size, countSnBits, Bool.false_eq_true, ↓reduceIte,
        seven_bit_count bounded, true_imp_iff, true_and]
    · simp only [size, countSnBits, Bool.false_eq_true, ↓reduceIte, twelve_bit_count bounded]
      omega

/-- A twelve-bit DRB one PDU before its first wrap. -/
theorem numberedByIndex_drb_4094 :
    BearerSized { zeroed with seqNumSize := 12 } false ∧
      (NumberedByIndex { zeroed with seqNumSize := 12 } false 4094 ↔
        CountUndisturbed 12 4094) :=
  have sized : BearerSized { zeroed with seqNumSize := 12 } false := .inr rfl
  ⟨sized, numberedByIndex_iff_countUndisturbed sized rfl rfl (by decide)⟩

/-- The last PDU of the first cycle already carries the next HFN: COUNT 8191
instead of 4095. -/
theorem not_numberedByIndex_last_sn :
    BearerSized { zeroed with seqNumSize := 12 } false ∧
      transmitCount { zeroed with seqNumSize := 12 } false 4095 = 8191 ∧
      ¬ NumberedByIndex { zeroed with seqNumSize := 12 } false 4095 := by
  have fresh : TransmitFresh { zeroed with seqNumSize := 12 } := ⟨rfl, rfl, rfl⟩
  have count : transmitCount { zeroed with seqNumSize := 12 } false 4095 = 8191 := by
    rw [transmitCount_eq fresh]
    rfl
  refine ⟨.inr rfl, count, ?_⟩
  rintro ⟨_, law⟩
  rw [count] at law
  exact absurd law (by decide)

end OpenAir.Pdcp
