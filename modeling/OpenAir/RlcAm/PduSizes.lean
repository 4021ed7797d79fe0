import OpenAir.RlcAm.Segmentation

/-! The rounds of the loop that fills a new PDU, and the size of the PDU against
the grant it is made for. -/

set_option autoImplicit false

namespace OpenAir.RlcAm

open Option Filling

theorem dataPduSize_le (tx : Transmitter) (requested : Nat) :
    tx.dataPduSize requested ≤ requested :=
  Nat.min_le_left ..

/-- The PDU ends in the SDU at `current_sdu_index` and has `room` octets of it. -/
def Transmitter.cutSdu (tx : Transmitter) (room : Nat) : Transmitter :=
  { tx.setSdu tx.currentSduIndex
      { tx.inputSdus tx.currentSduIndex with
        sduRemainingSize := (tx.inputSdus tx.currentSduIndex).sduRemainingSize - room
        sduSegmentedSize := (tx.inputSdus tx.currentSduIndex).sduSegmentedSize + room } with
    sduBufferOccupancy := tx.sduBufferOccupancy - room }

def Filling.liRound (start : Filling) (testNumLi : Nat) (sdu : TxSdu) : Filling :=
  { ((start.copy (sdu.memBlock.getD []) sdu.sduSegmentedSize sdu.sduRemainingSize).writeLi
        testNumLi sdu.sduRemainingSize).freeSdu sdu.sduRemainingSize with
    data := start.data + sdu.sduRemainingSize
    pduRemainingSize :=
      start.pduRemainingSize - (sdu.sduRemainingSize + (start.liLength ^^^ 3)) }

section Rounds

variable {testNumLi fuel : Nat} {filling : Filling}

theorem fill_free (free : (filling.tx.inputSdus filling.tx.currentSduIndex).memBlock = none) :
    fill testNumLi fuel filling = filling := by
  cases fuel with
  | zero => rfl
  | succ fuel => simp only [fill, free]

theorem fill_succ {sdu : TxSdu} (here : filling.tx.inputSdus filling.tx.currentSduIndex = sdu)
    (held : sdu.memBlock.isSome) :
    fill testNumLi (fuel + 1) filling =
      if sdu.sduRemainingSize > filling.pduRemainingSize then
        { filling.copy (sdu.memBlock.getD []) sdu.sduSegmentedSize filling.pduRemainingSize with
          tx := filling.tx.cutSdu filling.pduRemainingSize
          pduRemainingSize := 0
          lastByteIsLastOfSdu := false }
      else if sdu.sduRemainingSize + (filling.liLength ^^^ 3) < filling.pduRemainingSize ∧
          filling.fillNumLi ≠ rlcAmMaxSduInPdu - 1 then
        fill testNumLi fuel (filling.liRound testNumLi sdu)
      else
        { (filling.copy (sdu.memBlock.getD []) sdu.sduSegmentedSize sdu.sduRemainingSize).freeSdu
            sdu.sduRemainingSize with
          pduRemainingSize :=
            if sdu.sduRemainingSize + (filling.liLength ^^^ 3) < filling.pduRemainingSize then 0
            else filling.pduRemainingSize - sdu.sduRemainingSize
          lastByteIsLastOfSdu := true } := by
  subst here
  rw [fill]
  split
  next free =>
    rw [free] at held
    cases held
  next octets block =>
    have given : (filling.tx.inputSdus filling.tx.currentSduIndex).memBlock.getD [] = octets := by
      rw [block, getD_some]
    simp only [liRound, given]
    split
    · rfl
    · by_cases whole : (filling.tx.inputSdus filling.tx.currentSduIndex).sduRemainingSize =
          filling.pduRemainingSize
      · simp [whole, Nat.not_lt.mpr (Nat.le_add_right ..)]
      · by_cases more : (filling.tx.inputSdus filling.tx.currentSduIndex).sduRemainingSize +
            (filling.liLength ^^^ 3) < filling.pduRemainingSize
        · by_cases full : filling.fillNumLi = rlcAmMaxSduInPdu - 1
          · simp [whole, more, full]
          · simp [whole, more, full]
        · simp [whole, more]

theorem writeLi_tx (filling : Filling) (testNumLi rest : Nat) :
    (filling.writeLi testNumLi rest).tx = filling.tx := by
  simp only [writeLi]
  split
  · rfl
  · rfl

theorem liRound_fields (filling : Filling) (testNumLi : Nat) (sdu : TxSdu) :
    (filling.liRound testNumLi sdu).tx = filling.tx.passSdu sdu.sduRemainingSize ∧
      (filling.liRound testNumLi sdu).payloadSize = filling.payloadSize + sdu.sduRemainingSize ∧
      (filling.liRound testNumLi sdu).liLength = filling.liLength ^^^ 3 ∧
      (filling.liRound testNumLi sdu).fillNumLi = filling.fillNumLi + 1 ∧
      (filling.liRound testNumLi sdu).pduRemainingSize =
        filling.pduRemainingSize - (sdu.sduRemainingSize + (filling.liLength ^^^ 3)) := by
  simp only [liRound, freeSdu, writeLi_tx]
  simp only [writeLi]
  split
  · exact ⟨rfl, rfl, rfl, rfl, trivial⟩
  · exact ⟨rfl, rfl, rfl, rfl, trivial⟩

theorem fill_payloadSize_le :
    (fill testNumLi fuel filling).payloadSize + (fill testNumLi fuel filling).pduRemainingSize ≤
      filling.payloadSize + filling.pduRemainingSize := by
  induction fuel generalizing filling with
  | zero => exact Nat.le_refl _
  | succ fuel ih =>
    cases block : (filling.tx.inputSdus filling.tx.currentSduIndex).memBlock with
    | none => rw [fill_free block]
    | some octets =>
      rw [fill_succ rfl (isSome_of_eq_some block)]
      split
      · simp only [copy]
        omega
      · split
        · refine Nat.le_trans ih ?_
          obtain ⟨-, size, -, -, room⟩ := liRound_fields filling testNumLi
            (filling.tx.inputSdus filling.tx.currentSduIndex)
          omega
        · simp only [copy, freeSdu]
          split <;> omega

end Rounds

end OpenAir.RlcAm
