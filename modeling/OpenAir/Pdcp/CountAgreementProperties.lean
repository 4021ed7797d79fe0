import OpenAir.Pdcp.Peer
import OpenAir.Pdcp.Reception

/-! COUNT agreement for bearers that receive in transmission order: SRBs and
twelve-bit DRBs over RLC UM. Transmitter and receiver form the HFN at different
events, but both states are functions of one index, the number of the next PDU. -/

set_option autoImplicit false

namespace OpenAir.Pdcp

open Nat

structure ExpectsIndex (pdcp : Entity) (index : Nat) : Prop where
  sn : pdcp.nextPdcpRxSn = index % 2 ^ pdcp.seqNumSize
  hfn : pdcp.rxHfn = index / 2 ^ pdcp.seqNumSize % 2 ^ 32

variable {expected index rbIdP : Nat} {pdcp : Entity} {srbFlag : Bool} {pdu : List UInt8}
  {sender : Sender}

theorem advanceRxWindow_expects (valid : isSeqNumSizeValid pdcp)
    (expects : ExpectsIndex pdcp index) :
    ExpectsIndex (advanceRxWindow pdcp) (index + 1) := by
  obtain ⟨last, narrow⟩ := maxSeqNum_of_sizeValid valid
  have size := (advanceRxWindow_configuration pdcp).seqNumSize
  by_cases wraps : pdcp.nextPdcpRxSn = calculateMaxSeqNumForGivenSize pdcp.seqNumSize
  · have atEnd : index % 2 ^ pdcp.seqNumSize + 1 = 2 ^ pdcp.seqNumSize := by
      rw [← expects.sn, wraps, last]
    obtain ⟨cycle, next⟩ := Base.succ_at_cycle_end atEnd
    refine ⟨?_, ?_⟩
    · rw [size, cycle]
      simp [advanceRxWindow, valid, wraps]
    · rw [size, next]
      simp [advanceRxWindow, valid, wraps, incrementHfn, expects.hfn]
  · have inside : index % 2 ^ pdcp.seqNumSize + 1 < 2 ^ pdcp.seqNumSize := by
      rw [expects.sn] at wraps
      omega
    obtain ⟨cycle, next⟩ := Base.succ_inside_cycle inside
    refine ⟨?_, ?_⟩
    · rw [size, cycle]
      simp only [advanceRxWindow, valid, Bool.true_eq_false, ↓reduceIte, wraps, incrementSn]
      rw [expects.sn]
      exact mod_eq_of_lt (by omega)
    · rw [size, next, ← expects.hfn]
      simp [advanceRxWindow, valid, wraps]

theorem reopened_hfn (expects : ExpectsIndex pdcp expected) (forward : expected ≤ index)
    (near : index < expected + 2 ^ pdcp.seqNumSize) :
    (if index % 2 ^ pdcp.seqNumSize < pdcp.nextPdcpRxSn then incrementHfn pdcp.rxHfn
      else pdcp.rxHfn) = index / 2 ^ pdcp.seqNumSize % 2 ^ 32 := by
  rcases Base.forward_within_cycle forward near with ⟨smaller, next⟩ | ⟨larger, same⟩
  · rw [expects.sn, if_pos smaller, incrementHfn, expects.hfn, mod_add_mod, next]
  · rw [expects.sn, if_neg (not_lt.mpr larger), expects.hfn, same]

theorem advanceRxWindow_offset (pdcp : Entity) :
    (advanceRxWindow pdcp).rxHfnOffset = pdcp.rxHfnOffset := by
  unfold advanceRxWindow
  split
  · rfl
  · split <;> rfl

theorem isRxSeqNumberValid_accepted (valid : isSeqNumSizeValid pdcp) (index : Nat) :
    ¬ (isSeqNumSizeValid pdcp = false ∨
      isSeqNumValid (index % 2 ^ pdcp.seqNumSize) pdcp.seqNumSize = false) := by
  obtain ⟨last, _⟩ := maxSeqNum_of_sizeValid valid
  simp only [valid, Bool.true_eq_false, false_or, isSeqNumValid, decide_eq_false_iff_not, not_not]
  omega

structure Listening (srbFlag : Bool) (pdcp : Entity) (index : Nat) : Prop where
  activated : pdcp.securityActivated = 1
  sized : pdcp.seqNumSize = countSnBits srbFlag
  inOrder : srbFlag = false → pdcp.rlcMode = .um
  offset : pdcp.rxHfnOffset = 0
  expects : ExpectsIndex pdcp index

theorem Listening.numbered (listening : Listening srbFlag pdcp expected)
    (forward : expected ≤ index) (near : index < expected + 2 ^ pdcp.seqNumSize) :
    Listening srbFlag
      (isRxSeqNumberValid (index % 2 ^ pdcp.seqNumSize) pdcp srbFlag).2 (index + 1) := by
  have valid := sizeValid_of_countSnBits listening.sized
  have accepted := isRxSeqNumberValid_accepted valid index
  have config :=
    isRxSeqNumberValid_configuration (index % 2 ^ pdcp.seqNumSize) pdcp srbFlag
  have advanced : ∃ moved, (isRxSeqNumberValid (index % 2 ^ pdcp.seqNumSize) pdcp srbFlag).2 =
      advanceRxWindow moved ∧ isSeqNumSizeValid moved ∧ moved.rxHfnOffset = 0 ∧
      ExpectsIndex moved index := by
    rw [isRxSeqNumberValid, if_neg accepted]
    cases srbFlag with
    | true => exact ⟨_, rfl, valid, rfl, rfl, reopened_hfn listening.expects forward near⟩
    | false =>
      have mode : (markCurrentPduAsReceived (index % 2 ^ pdcp.seqNumSize) pdcp).rlcMode =
        .um := listening.inOrder rfl
      simp only [Bool.false_eq_true, ↓reduceIte, mode]
      exact ⟨_, rfl, valid, listening.offset, rfl, reopened_hfn listening.expects forward near⟩
  obtain ⟨moved, received, sizeValid, offset, expects⟩ := advanced
  refine ⟨config.securityActivated.trans listening.activated,
    config.seqNumSize.trans listening.sized,
    fun drb => config.rlcMode.trans (listening.inOrder drb), ?_, ?_⟩
  · rw [received, advanceRxWindow_offset, offset]
  · rw [received]
    exact advanceRxWindow_expects sizeValid expects

theorem getNextCountRx_eq (valid : isSeqNumSizeValid pdcp) (srbFlag : Bool) (sn : Nat) :
    (getNextCountRx pdcp srbFlag sn).1 =
      (offsetRxHfn pdcp * 2 ^ countSnBits srbFlag + sn % 2 ^ countSnBits srbFlag) %
        2 ^ 32 :=
  @getNextCountTx_eq { pdcp with txHfn := offsetRxHfn pdcp } valid srbFlag sn

theorem offsetRxHfn_zero (offset : pdcp.rxHfnOffset = 0) :
    offsetRxHfn pdcp = pdcp.rxHfn % 2 ^ 32 := by
  rw [offsetRxHfn]
  omega

theorem Listening.count_eq {sender : Entity} (listening : Listening srbFlag pdcp (index + 1))
    (fresh : TransmitFresh sender) (sized : sender.seqNumSize = countSnBits srbFlag) :
    (getNextCountRx pdcp srbFlag (index % 2 ^ countSnBits srbFlag)).1 =
      transmitCount sender srbFlag index := by
  have hfn : offsetRxHfn pdcp = (index + 1) / 2 ^ countSnBits srbFlag % 2 ^ 32 := by
    rw [offsetRxHfn_zero listening.offset, listening.expects.hfn, listening.sized, mod_mod]
  rw [getNextCountRx_eq (sizeValid_of_countSnBits listening.sized), hfn,
    transmitCount_eq fresh, sized, add_mod, mod_mul_mod, ← add_mod]

/-- Arrivals in transmission order: after the index `expected` would come next,
fewer than a full cycle of PDUs is lost before each arrival. -/
def InOrderArrivals (seqNumSize : Nat) : Nat → List Nat → Prop
  | _, [] => True
  | expected, index :: rest =>
    expected ≤ index ∧ index - expected < 2 ^ seqNumSize ∧
      InOrderArrivals seqNumSize (index + 1) rest

/-- The radio bearer ids on which `pdcp_data_ind` processes PDUs. -/
structure KnownBearer (rbIdP : Nat) : Prop where
  high : rbIdP % maxDRB ≠ 0
  known : rbIdP < nbRbMax

theorem Listening.processes (env : Environment) (ctxt : Ctxt) (bearer : KnownBearer rbIdP)
    (listening : Listening srbFlag pdcp expected)
    (long : requestHeaderLen srbFlag + requestTailerLen srbFlag ≤ pdu.length) :
    let received := (isRxSeqNumberValid (headerSn srbFlag pdu) pdcp srbFlag).2
    ∃ outcome,
      dataInd env ctxt srbFlag false rbIdP pdu (some pdcp) = .ok outcome ∧
      outcome.entity = some { received with rxHfnOffset := 0 } ∧
      usedCounts outcome.events =
        List.replicate (if srbFlag then 2 else 1)
          (getNextCountRx received srbFlag (headerSn srbFlag pdu)).1 := by
  cases srbFlag with
  | true =>
    have reached : ¬ DroppedEarly rbIdP pdu :=
      not_or.mpr ⟨bearer.high, not_lt.mpr long⟩
    obtain ⟨outcome, returned, entity, counts, _⟩ :=
      dataInd_srb_reached env ctxt listening.activated reached bearer.known
    exact ⟨outcome, returned, entity, counts⟩
  | false =>
    obtain ⟨outcome, returned, entity, counts⟩ :=
      dataInd_drb_reached env ctxt listening.activated listening.sized bearer.high
        bearer.known long
    refine ⟨outcome, returned, ?_, counts⟩
    rw [entity, if_neg]
    · rfl
    · rintro ⟨_, am⟩
      rw [listening.inOrder rfl] at am
      cases am

theorem Listening.receives (protecting : sender.Protecting) (env : Environment) (ctxt : Ctxt)
    (bearer : KnownBearer rbIdP) (listening : Listening sender.srbFlag pdcp expected)
    (forward : expected ≤ index) (near : index - expected < 2 ^ countSnBits sender.srbFlag)
    (carries : sender.Carries index pdu) :
    ∃ outcome after,
      dataInd env ctxt sender.srbFlag false rbIdP pdu (some pdcp) = .ok outcome ∧
      outcome.entity = some after ∧
      Listening sender.srbFlag after (index + 1) ∧
      sender.AgreesOnCount index outcome := by
  obtain ⟨header, long⟩ := protecting.carried carries
  have numbered := listening.numbered forward (by rw [listening.sized]; omega)
  rw [listening.sized] at numbered
  have count := numbered.count_eq protecting.fresh protecting.sized
  obtain ⟨outcome, returned, entity, counts⟩ := listening.processes env ctxt bearer long
  rw [header] at entity counts
  refine ⟨outcome, _, returned, entity, ?_, ?_⟩
  · exact ⟨numbered.activated, numbered.sized, numbered.inOrder, rfl,
      numbered.expects.sn, numbered.expects.hfn⟩
  · exact protecting.agreesOnCount (counts.trans (by rw [count]))

theorem Listening.run_agrees (protecting : sender.Protecting) (env : Environment) (ctxt : Ctxt)
    (bearer : KnownBearer rbIdP) (listening : Listening sender.srbFlag pdcp expected)
    {indices : List Nat} (order : InOrderArrivals (countSnBits sender.srbFlag) expected indices)
    {pdus : List (List UInt8)} (carried : List.Forall₂ sender.Carries indices pdus) :
    ∃ outcomes final,
      dataIndAll env ctxt sender.srbFlag rbIdP (some pdcp) pdus = .ok (outcomes, final) ∧
      List.Forall₂ sender.AgreesOnCount indices outcomes := by
  induction carried generalizing pdcp expected with
  | nil => exact ⟨[], some pdcp, rfl, .nil⟩
  | @cons index pdu indices pdus carries _ ih =>
    obtain ⟨forward, near, rest⟩ := order
    obtain ⟨outcome, after, returned, entity, waiting, agrees⟩ :=
      listening.receives protecting env ctxt bearer forward near carries
    obtain ⟨outcomes, final, ran, agree⟩ := ih waiting rest
    refine ⟨outcome :: outcomes, final, ?_, .cons agrees agree⟩
    simp only [dataIndAll, returned, entity, ran]

structure ReceiveFresh (srbFlag : Bool) (pdcp : Entity) : Prop where
  activated : pdcp.securityActivated = 1
  sized : pdcp.seqNumSize = countSnBits srbFlag
  sn : pdcp.nextPdcpRxSn = 0
  hfn : pdcp.rxHfn = 0
  offset : pdcp.rxHfnOffset = 0

/-- For SRBs and for twelve-bit DRBs over RLC UM: whatever is lost, as long as no
full cycle of PDUs is lost in a row, every PDU is received with the COUNT it was
protected with. -/
theorem count_agreement_in_order {sender : Sender} (protecting : sender.Protecting)
    (env : Environment) (ctxt : Ctxt) {rbIdP : Nat} (bearer : KnownBearer rbIdP) {pdcp : Entity}
    (fresh : ReceiveFresh sender.srbFlag pdcp) (mode : sender.srbFlag = false → pdcp.rlcMode = .um)
    {indices : List Nat} (order : InOrderArrivals (countSnBits sender.srbFlag) 0 indices)
    {pdus : List (List UInt8)} (carried : List.Forall₂ sender.Carries indices pdus) :
    ∃ outcomes final,
      dataIndAll env ctxt sender.srbFlag rbIdP (some pdcp) pdus = .ok (outcomes, final) ∧
      List.Forall₂ sender.AgreesOnCount indices outcomes := by
  have listening : Listening sender.srbFlag pdcp 0 := by
    refine ⟨fresh.activated, fresh.sized, mode, fresh.offset, ?_, ?_⟩
    · rw [fresh.sn, Nat.zero_mod]
    · rw [fresh.hfn, Nat.zero_div, Nat.zero_mod]
  exact listening.run_agrees protecting env ctxt bearer order carried

/-- The second of three PDUs is lost on a twelve-bit DRB over RLC UM. -/
theorem count_agreement_in_order_lossy_um :
    ∃ outcomes final,
      dataIndAll nullCipherEnvironment ueCtxt false 1
          (some { nullCipherDrb with rlcMode := .um }) [[0x80, 0, 0], [0x80, 2, 2]] =
        .ok (outcomes, final) ∧
      List.Forall₂ nullCipherSender.AgreesOnCount [0, 2] outcomes := by
  have first : nullCipherSender.Carries 0 [0x80, 0, 0] := by decide +kernel
  have third : nullCipherSender.Carries 2 [0x80, 2, 2] := by decide +kernel
  have fresh : ReceiveFresh false { nullCipherDrb with rlcMode := .um } :=
    ⟨rfl, rfl, rfl, rfl, rfl⟩
  have order : InOrderArrivals 12 0 [0, 2] := by simp [InOrderArrivals]
  exact count_agreement_in_order nullCipherSender_protecting nullCipherEnvironment ueCtxt
    ⟨by decide, by decide⟩ fresh (fun _ => rfl) order (.cons first (.cons third .nil))

end OpenAir.Pdcp
