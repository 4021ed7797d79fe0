import OpenAir.Pdcp.CountAgreementProperties

/-! COUNT agreement for twelve-bit DRBs over RLC AM, where PDUs may arrive out of
order. The receiver recovers the HFN of an arrival from the next expected number
and from the last number it passed to its local upper layer. -/

set_option autoImplicit false

namespace OpenAir.Pdcp

open List

/-- A receiver that has seen every index below `next` or given up on it, with
`last` the index it last passed to the local upper layer (-1 for none). -/
structure Reordering (pdcp : Entity) (next : Nat) (last : Int) : Prop where
  activated : pdcp.securityActivated = 1
  sized : pdcp.seqNumSize = 12
  mode : pdcp.rlcMode = .am
  sn : pdcp.nextPdcpRxSn = next % 2 ^ 12
  hfn : pdcp.rxHfn = next / 2 ^ 12 % 2 ^ 32
  submitted : (pdcp.lastSubmittedPdcpRxSn : Int) = last % 2 ^ 12
  before : last < next

/-- The arrivals whose COUNT the receiver recovers. An index at or above the next
expected one must lie in the same SN cycle and within the window after the last
submitted index; a late one must not be the last SN of the previous cycle. -/
def CountRecoverable (next : Nat) (last : Int) (index : Nat) : Prop :=
  (next ≤ index ∧ index / 2 ^ 12 = next / 2 ^ 12 ∧ (index : Int) - last ≤ 2048) ∨
    (index < next ∧ (index / 2 ^ 12 = next / 2 ^ 12 ∨ index % 2 ^ 12 ≠ 4095))

instance (next : Nat) (last : Int) (index : Nat) :
    Decidable (CountRecoverable next last index) :=
  inferInstanceAs (Decidable (_ ∨ _))

variable {pdcp : Entity} {next index : Nat} {last : Int}

theorem reorderingWindow_twelve (sized : pdcp.seqNumSize = 12) :
    reorderingWindow pdcp = 2048 := by
  simp [reorderingWindow, sized, pdcpSn7Bit, reorderingWindowSn12Bit]

theorem Reordering.receive_ahead (reordering : Reordering pdcp next last) (ahead : next ≤ index)
    (sameCycle : index / 2 ^ 12 = next / 2 ^ 12) (inWindow : (index : Int) - last ≤ 2048) :
    (receiveAmSeqNumber (index % 2 ^ 12) pdcp).2 =
      advanceRxWindow { pdcp with rxHfnOffset := 0, nextPdcpRxSn := index % 2 ^ 12 } := by
  have window := reorderingWindow_twelve reordering.sized
  have sn := reordering.sn
  have submitted := reordering.submitted
  have before := reordering.before
  have inside : ¬ OutOfReorderingWindow (index % 2 ^ 12) pdcp := by
    simp only [OutOfReorderingWindow, window]
    omega
  have notBehind :
      ¬ (pdcp.nextPdcpRxSn : Int) - (index % 2 ^ 12 : Nat) > reorderingWindow pdcp := by
    omega
  have notFar : ¬ ((index % 2 ^ 12 : Nat) : Int) - pdcp.nextPdcpRxSn ≥ reorderingWindow pdcp := by
    omega
  have reached : index % 2 ^ 12 ≥ pdcp.nextPdcpRxSn := by omega
  simp only [receiveAmSeqNumber, inside, notBehind, notFar, reached, ↓reduceIte]

theorem Reordering.receive_late (reordering : Reordering pdcp next last) (late : index < next)
    (inWindow : next ≤ index + 2048) :
    (receiveAmSeqNumber (index % 2 ^ 12) pdcp).2 =
      { pdcp with rxHfnOffset := if index / 2 ^ 12 = next / 2 ^ 12 then 0 else -1 } := by
  have window := reorderingWindow_twelve reordering.sized
  have sn := reordering.sn
  have notBehind :
      ¬ (pdcp.nextPdcpRxSn : Int) - (index % 2 ^ 12 : Nat) > reorderingWindow pdcp := by
    omega
  by_cases same : index / 2 ^ 12 = next / 2 ^ 12
  · have notAbove : ¬ index % 2 ^ 12 > pdcp.nextPdcpRxSn := by omega
    have notFar : ¬ ((index % 2 ^ 12 : Nat) : Int) - pdcp.nextPdcpRxSn ≥ reorderingWindow pdcp := by
      omega
    have notReached : ¬ index % 2 ^ 12 ≥ pdcp.nextPdcpRxSn := by omega
    by_cases outside : OutOfReorderingWindow (index % 2 ^ 12) pdcp
    · simp only [receiveAmSeqNumber, outside, notAbove, same, ↓reduceIte]
    · simp only [receiveAmSeqNumber, outside, notBehind, notFar, notReached, same, ↓reduceIte]
  · have above : index % 2 ^ 12 > pdcp.nextPdcpRxSn := by omega
    have far : ((index % 2 ^ 12 : Nat) : Int) - pdcp.nextPdcpRxSn ≥ reorderingWindow pdcp := by
      omega
    by_cases outside : OutOfReorderingWindow (index % 2 ^ 12) pdcp
    · simp only [receiveAmSeqNumber, outside, above, same, ↓reduceIte]
    · simp only [receiveAmSeqNumber, outside, notBehind, far, same, ↓reduceIte]

theorem isRxSeqNumberValid_am (sized : pdcp.seqNumSize = 12)
    (mode : pdcp.rlcMode = .am) (index : Nat) :
    (isRxSeqNumberValid (index % 2 ^ 12) pdcp false).2 =
      (receiveAmSeqNumber (index % 2 ^ 12) (markCurrentPduAsReceived (index % 2 ^ 12) pdcp)).2 := by
  have valid : isSeqNumSizeValid pdcp := isSeqNumSizeValid_iff.mpr (.inr (.inr sized))
  have accepted := isRxSeqNumberValid_accepted valid index
  rw [show index % 2 ^ pdcp.seqNumSize = index % 2 ^ 12 by rw [sized]] at accepted
  have marked : (markCurrentPduAsReceived (index % 2 ^ 12) pdcp).rlcMode = .am := mode
  rw [isRxSeqNumberValid, if_neg accepted]
  simp only [Bool.false_eq_true, ↓reduceIte, marked]

theorem Reordering.renumbered {received : Entity} {following : Nat}
    (reordering : Reordering pdcp next last) (same : SameConfiguration pdcp received)
    (sn : received.nextPdcpRxSn = following % 2 ^ 12)
    (hfn : received.rxHfn = following / 2 ^ 12 % 2 ^ 32) (forward : next ≤ following) :
    Reordering received following last := by
  refine ⟨same.securityActivated.trans reordering.activated,
    same.seqNumSize.trans reordering.sized, same.rlcMode.trans reordering.mode, sn, hfn, ?_, ?_⟩
  · rw [same.lastSubmittedPdcpRxSn, reordering.submitted]
  · have before := reordering.before
    omega

theorem Reordering.numbered_ahead (reordering : Reordering pdcp next last) (ahead : next ≤ index)
    (sameCycle : index / 2 ^ 12 = next / 2 ^ 12) (near : (index : Int) - last ≤ 2048) :
    let received := (isRxSeqNumberValid (index % 2 ^ 12) pdcp false).2
    Reordering received (index + 1) last ∧
      offsetRxHfn received = (index + 1) / 2 ^ 12 % 2 ^ 32 := by
  intro received
  have marked : Reordering (markCurrentPduAsReceived (index % 2 ^ 12) pdcp) next last :=
    reordering.renumbered ⟨rfl, rfl, rfl, rfl⟩ reordering.sn reordering.hfn le_rfl
  have advanced : received = _ :=
    (isRxSeqNumberValid_am reordering.sized reordering.mode index).trans
      (marked.receive_ahead ahead sameCycle near)
  have valid : isSeqNumSizeValid pdcp :=
    isSeqNumSizeValid_iff.mpr (.inr (.inr reordering.sized))
  have size : received.seqNumSize = 12 :=
    (isRxSeqNumberValid_configuration _ pdcp false).seqNumSize.trans reordering.sized
  have expects : ExpectsIndex received (index + 1) := by
    rw [advanced]
    refine advanceRxWindow_expects (by exact valid) ⟨?_, ?_⟩
    · exact congrArg (fun bits => index % 2 ^ bits) reordering.sized.symm
    · have hfn : pdcp.rxHfn = index / 2 ^ pdcp.seqNumSize % 2 ^ 32 := by
        rw [reordering.hfn, reordering.sized, sameCycle]
      exact hfn
  have sn := expects.sn
  have hfn := expects.hfn
  rw [size] at sn hfn
  have offset : received.rxHfnOffset = 0 := by
    rw [advanced, advanceRxWindow_offset]
  refine ⟨reordering.renumbered (isRxSeqNumberValid_configuration _ pdcp false) sn hfn
    (by omega), ?_⟩
  rw [offsetRxHfn_zero offset, hfn, Nat.mod_mod]

theorem Reordering.numbered_late (reordering : Reordering pdcp next last) (late : index < next)
    (inWindow : next ≤ index + 2048)
    (notLast : index / 2 ^ 12 = next / 2 ^ 12 ∨ index % 2 ^ 12 ≠ 4095) :
    let received := (isRxSeqNumberValid (index % 2 ^ 12) pdcp false).2
    Reordering received next last ∧
      offsetRxHfn received = (index + 1) / 2 ^ 12 % 2 ^ 32 := by
  intro received
  have marked : Reordering (markCurrentPduAsReceived (index % 2 ^ 12) pdcp) next last :=
    reordering.renumbered ⟨rfl, rfl, rfl, rfl⟩ reordering.sn reordering.hfn le_rfl
  have kept : received = _ :=
    (isRxSeqNumberValid_am reordering.sized reordering.mode index).trans
      (marked.receive_late late inWindow)
  have hfn : received.rxHfn = next / 2 ^ 12 % 2 ^ 32 := by
    rw [kept]
    exact reordering.hfn
  have sn : received.nextPdcpRxSn = next % 2 ^ 12 := by
    rw [kept]
    exact reordering.sn
  refine ⟨reordering.renumbered (isRxSeqNumberValid_configuration _ pdcp false) sn hfn le_rfl, ?_⟩
  have offset : received.rxHfnOffset = if index / 2 ^ 12 = next / 2 ^ 12 then 0 else -1 := by
    rw [kept]
  rw [offsetRxHfn, offset]
  split <;> omega

inductive DeliveryPath where
  | localUpperLayer
  | gtpv1u
  deriving DecidableEq, Repr

def DeliveryPath.Taken (path : DeliveryPath) (env : Environment) (ctxt : Ctxt)
    (pduLength : Nat) : Prop :=
  match path with
  | .localUpperLayer => SubmitsLocally env ctxt pduLength
  | .gtpv1u => env.otgEnabled = false ∧ ctxt.enbFlag

/-- The last submitted index after an arrival: forwarding to GTPV1-U does not
record it. -/
def DeliveryPath.submitted (path : DeliveryPath) (last : Int) (index : Nat) : Int :=
  match path with
  | .localUpperLayer => index
  | .gtpv1u => last

theorem Reordering.numbered (reordering : Reordering pdcp next last)
    (inWindow : next ≤ index + 2048) (recoverable : CountRecoverable next last index) :
    let received := (isRxSeqNumberValid (index % 2 ^ 12) pdcp false).2
    Reordering received (max next (index + 1)) last ∧
      offsetRxHfn received = (index + 1) / 2 ^ 12 % 2 ^ 32 := by
  rcases recoverable with ⟨ahead, sameCycle, near⟩ | ⟨late, notLast⟩
  · rw [max_eq_right (by omega)]
    exact reordering.numbered_ahead ahead sameCycle near
  · rw [max_eq_left (by omega)]
    exact reordering.numbered_late late inWindow notLast

section Runs

variable {sender : Sender} (protecting : sender.Protecting) (drb : sender.srbFlag = false)
  {path : DeliveryPath} {env : Environment} {ctxt : Ctxt} {rbIdP : Nat} (bearer : KnownBearer rbIdP)

include protecting drb bearer

theorem Reordering.receives (reordering : Reordering pdcp next last)
    (inWindow : next ≤ index + 2048) (recoverable : CountRecoverable next last index)
    {pdu : List UInt8}
    (carries : sender.Carries index pdu) (taken : path.Taken env ctxt pdu.length) :
    ∃ outcome after,
      dataInd env ctxt false false rbIdP pdu (some pdcp) = .ok outcome ∧
      outcome.entity = some after ∧
      Reordering after (max next (index + 1)) (path.submitted last index) ∧
      sender.AgreesOnCount index outcome := by
  obtain ⟨header, long⟩ := protecting.carried carries
  rw [drb] at header long
  have sn : getSequenceNumberOfPduWithLongSn pdu = index % 2 ^ 12 := header
  obtain ⟨numbered, hfn⟩ := reordering.numbered inWindow recoverable
  obtain ⟨outcome, returned, entity, counts⟩ :=
    dataInd_drb_reached env ctxt reordering.activated reordering.sized bearer.high
      bearer.known long
  rw [sn] at entity counts
  refine ⟨outcome, _, returned, entity, ?_, ?_⟩
  · have before := numbered.before
    cases path with
    | localUpperLayer =>
      rw [if_pos ⟨taken, reordering.mode⟩]
      refine ⟨numbered.activated, numbered.sized, numbered.mode, numbered.sn, numbered.hfn, ?_, ?_⟩
      · simp only [DeliveryPath.submitted]
        omega
      · simp only [DeliveryPath.submitted]
        omega
    | gtpv1u =>
      have notLocal : ¬ (SubmitsLocally env ctxt pdu.length ∧ pdcp.rlcMode = .am) := by
        rintro ⟨⟨_, ue, _⟩, _⟩
        rw [taken.2] at ue
        cases ue
      rw [if_neg notLocal]
      exact ⟨numbered.activated, numbered.sized, numbered.mode, numbered.sn, numbered.hfn,
        numbered.submitted, before⟩
  · have valid := isSeqNumSizeValid_iff.mpr (.inr (.inr numbered.sized))
    apply protecting.agreesOnCount
    rw [counts, getNextCountRx_eq valid, hfn, transmitCount_eq protecting.fresh,
      protecting.sized, drb, Nat.add_mod, Nat.mod_mul_mod, ← Nat.add_mod]
    rfl

/-- Arrivals of new PDUs within the reordering window around `next`, the highest
index received so far plus one. -/
def WindowedArrivals : List Nat → Nat → List Nat → Prop
  | _, _, [] => True
  | seen, next, index :: rest =>
    index ∉ seen ∧ next ≤ index + 2048 ∧ index ≤ next + 2048 ∧
      WindowedArrivals (index :: seen) (max next (index + 1)) rest

def RecoverableRun (path : DeliveryPath) : Nat → Int → List Nat → Prop
  | _, _, [] => True
  | next, last, index :: rest =>
    CountRecoverable next last index ∧
      RecoverableRun path (max next (index + 1)) (path.submitted last index) rest

theorem Reordering.run_agrees (reordering : Reordering pdcp next last) {seen indices : List Nat}
    {pdus : List (List UInt8)} (arrivals : WindowedArrivals seen next indices)
    (recoverable : RecoverableRun path next last indices)
    (carried : Forall₂ sender.Carries indices pdus)
    (taken : ∀ pdu ∈ pdus, path.Taken env ctxt pdu.length) :
    ∃ outcomes final,
      dataIndAll env ctxt false rbIdP (some pdcp) pdus = .ok (outcomes, final) ∧
      Forall₂ sender.AgreesOnCount indices outcomes := by
  induction carried generalizing pdcp next last seen with
  | nil => exact ⟨[], some pdcp, rfl, .nil⟩
  | @cons index pdu indices pdus carries _ ih =>
    obtain ⟨_, behind, _, restArrivals⟩ := arrivals
    obtain ⟨first, restRecoverable⟩ := recoverable
    obtain ⟨outcome, after, returned, entity, inStep, agrees⟩ :=
      Reordering.receives protecting drb bearer reordering behind first carries
        (taken pdu mem_cons_self)
    obtain ⟨outcomes, final, ran, agree⟩ :=
      ih inStep restArrivals restRecoverable fun later mem =>
        taken later (mem_cons_of_mem _ mem)
    refine ⟨outcome :: outcomes, final, ?_, .cons agrees agree⟩
    simp only [dataIndAll, returned, entity, ran]

end Runs

/-- For twelve-bit DRBs over RLC AM, on either delivery path: in every run of new
PDUs within the reordering window whose arrivals are all recoverable, every PDU is
received with the COUNT it was protected with. -/
theorem count_agreement_reordered {sender : Sender} (protecting : sender.Protecting)
    (drb : sender.srbFlag = false) {path : DeliveryPath} {env : Environment} {ctxt : Ctxt}
    {rbIdP : Nat} (bearer : KnownBearer rbIdP) {pdcp : Entity} (fresh : ReceiveFresh false pdcp)
    (mode : pdcp.rlcMode = .am) (submitted : pdcp.lastSubmittedPdcpRxSn = 4095) {indices : List Nat}
    {pdus : List (List UInt8)} (arrivals : WindowedArrivals [] 0 indices)
    (recoverable : RecoverableRun path 0 (-1) indices)
    (carried : Forall₂ sender.Carries indices pdus)
    (taken : ∀ pdu ∈ pdus, path.Taken env ctxt pdu.length) :
    ∃ outcomes final,
      dataIndAll env ctxt false rbIdP (some pdcp) pdus = .ok (outcomes, final) ∧
      Forall₂ sender.AgreesOnCount indices outcomes := by
  have reordering : Reordering pdcp 0 (-1) := by
    refine ⟨fresh.activated, fresh.sized, mode, fresh.sn, fresh.hfn, ?_, by decide⟩
    rw [submitted]
    rfl
  exact Reordering.run_agrees protecting drb bearer reordering arrivals recoverable carried taken

/-- Two PDUs arrive in the wrong order and are queued locally. -/
theorem count_agreement_reordered_swap :
    ∃ outcomes final,
      dataIndAll nullCipherEnvironment ueCtxt false 1 (some nullCipherDrb)
          [[0x80, 1, 1], [0x80, 0, 0]] = .ok (outcomes, final) ∧
      Forall₂ nullCipherSender.AgreesOnCount [1, 0] outcomes := by
  have second : nullCipherSender.Carries 1 [0x80, 1, 1] := by decide +kernel
  have first : nullCipherSender.Carries 0 [0x80, 0, 0] := by decide +kernel
  have fresh : ReceiveFresh false nullCipherDrb := ⟨rfl, rfl, rfl, rfl, rfl⟩
  have arrivals : WindowedArrivals [] 0 [1, 0] := by simp [WindowedArrivals]
  have recoverable : RecoverableRun .localUpperLayer 0 (-1) [1, 0] :=
    ⟨by decide, by decide, trivial⟩
  exact count_agreement_reordered nullCipherSender_protecting rfl ⟨by decide, by decide⟩
    fresh rfl rfl arrivals recoverable (.cons second (.cons first .nil))
    fun _ _ => ⟨rfl, rfl, rfl⟩

def enbCtxt : Ctxt := { moduleId := 0, enbFlag := true, rnti := 0x1234 }

/-- On the GTPV1-U path PDU 2049 is deciphered with HFN -1: the last submitted
number is still its initial 4095, so from the middle of the cycle on every PDU
looks like a stale one. -/
theorem count_disagreement_gtpv1u :
    WindowedArrivals [] 0 [2047, 2049] ∧
      ∃ pdus first second final,
        Forall₂ nullCipherSender.Carries [2047, 2049] pdus ∧
        dataIndAll nullCipherEnvironment enbCtxt false 1 (some nullCipherDrb) pdus =
          .ok ([first, second], final) ∧
        usedCounts second.events = [0xFFFFF000 + 2049] ∧
        ¬ nullCipherSender.AgreesOnCount 2049 second := by
  have first : nullCipherSender.Carries 2047 [0x87, 0xFF, 0xFF] := by
    rw [Sender.Carries, nullCipherSender_protecting.pdu?_eq]
    decide +kernel
  have second : nullCipherSender.Carries 2049 [0x88, 0x01, 0x01] := by
    rw [Sender.Carries, nullCipherSender_protecting.pdu?_eq]
    decide +kernel
  refine ⟨by simp [WindowedArrivals], [[0x87, 0xFF, 0xFF], [0x88, 0x01, 0x01]], _, _, _,
    .cons first (.cons second .nil), rfl, rfl, ?_⟩
  rintro ⟨agrees, _⟩
  rw [nullCipherSender_protecting.counts_eq, transmitCount_eq nullCipherSender_protecting.fresh]
    at agrees
  exact absurd agrees (by decide)

end OpenAir.Pdcp
