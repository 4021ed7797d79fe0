import OpenAir.Pdcp.Peer
import OpenAir.Pdcp.Reception

/-! What a failed integrity check on an SRB changes. Every PDU that reaches the
check is handed to RRC with the receive state already advanced, whatever the
check says; only PDUs dropped before the check leave no trace. -/

set_option autoImplicit false

namespace OpenAir.Pdcp

open List

def IntegrityFailed (outcomes : List Outcome) : Prop :=
  ∀ outcome ∈ outcomes, ∀ algorithm params result,
    .streamCheckIntegrity algorithm params result ∈ outcome.events → result ≠ 0

structure ReceiveStateKept (before after : Entity) : Prop where
  nextPdcpRxSn : after.nextPdcpRxSn = before.nextPdcpRxSn
  rxHfn : after.rxHfn = before.rxHfn
  lastSubmittedPdcpRxSn : after.lastSubmittedPdcpRxSn = before.lastSubmittedPdcpRxSn

/-- The calls had no effect: nothing went to RRC, the receive variables are
kept, and any later PDU is treated as if the calls had not been made. -/
structure NoEffect (env : Environment) (ctxt : Ctxt) (rbIdP : Nat) (before : Entity)
    (outcomes : List Outcome) (after : Entity) : Prop where
  undelivered : ∀ outcome ∈ outcomes, ¬ DeliveredToRrc outcome
  kept : ReceiveStateKept before after
  laterPdu : ∀ later,
    dataInd env ctxt true false rbIdP later (some after) =
      dataInd env ctxt true false rbIdP later (some before)

variable {rbIdP : Nat} {pdus : List (List UInt8)}

theorem dataIndAll_droppedEarly (env : Environment) (ctxt : Ctxt) (pdcp : Entity)
    (dropped : ∀ pdu ∈ pdus, DroppedEarly rbIdP pdu) :
    ∃ outcomes, dataIndAll env ctxt true rbIdP (some pdcp) pdus = .ok (outcomes, some pdcp) ∧
      ∀ outcome ∈ outcomes, outcome.events = [] := by
  induction pdus with
  | nil => exact ⟨[], rfl, by simp⟩
  | cons pdu rest ih =>
    obtain ⟨outcomes, ran, silent⟩ := ih fun later mem =>
      dropped later (mem_cons_of_mem _ mem)
    have first := dataInd_srb_droppedEarly env ctxt pdcp (dropped pdu mem_cons_self)
    refine ⟨{ entity := some pdcp, events := [], ret := false } :: outcomes, ?_, ?_⟩
    · rw [dataIndAll, first]
      simp only [ran]
    · simpa using silent

theorem dataIndAll_delivers {env : Environment} {ctxt : Ctxt} {pdcp : Entity}
    {outcomes : List Outcome} {final : Option Entity} (activated : pdcp.securityActivated = 1)
    (ran : dataIndAll env ctxt true rbIdP (some pdcp) pdus = .ok (outcomes, final))
    (reached : ∃ pdu ∈ pdus, ¬ DroppedEarly rbIdP pdu) :
    ∃ outcome ∈ outcomes, DeliveredToRrc outcome := by
  induction pdus generalizing pdcp outcomes final with
  | nil =>
    obtain ⟨pdu, mem, _⟩ := reached
    cases mem
  | cons pdu rest ih =>
    by_cases dropped : DroppedEarly rbIdP pdu
    · have first := dataInd_srb_droppedEarly env ctxt pdcp dropped
      rw [dataIndAll, first] at ran
      cases tail : dataIndAll env ctxt true rbIdP (some pdcp) rest with
      | error fault => simp [tail] at ran
      | ok result =>
        simp only [tail, Except.ok.injEq, Prod.mk.injEq] at ran
        obtain ⟨rfl, rfl⟩ := ran
        obtain ⟨later, mem, open_⟩ := reached
        have inTail : later ∈ rest := by
          rcases mem_cons.mp mem with rfl | inTail
          · exact absurd dropped open_
          · exact inTail
        obtain ⟨outcome, inOutcomes, delivered⟩ := ih activated tail ⟨later, inTail, open_⟩
        exact ⟨outcome, mem_cons_of_mem _ inOutcomes, delivered⟩
    · have known : rbIdP < nbRbMax := by
        by_contra unknown
        rw [dataIndAll, dataInd_srb_unknown env ctxt activated dropped unknown] at ran
        cases ran
      obtain ⟨outcome, returned, _, _, delivered⟩ :=
        dataInd_srb_reached env ctxt activated dropped known
      rw [dataIndAll, returned] at ran
      cases tail : dataIndAll env ctxt true rbIdP outcome.entity rest with
      | error fault => simp [tail] at ran
      | ok result =>
        simp only [tail, Except.ok.injEq, Prod.mk.injEq] at ran
        obtain ⟨rfl, rfl⟩ := ran
        exact ⟨outcome, mem_cons_self, delivered⟩

/-- On an SRB with security active, a run of PDUs whose integrity checks all
fail has no effect exactly when every one of them is dropped before its check. -/
theorem noEffect_iff_droppedEarly {env : Environment} {ctxt : Ctxt} {rbIdP : Nat}
    {pdcp after : Entity} {pdus : List (List UInt8)} {outcomes : List Outcome}
    (activated : pdcp.securityActivated = 1)
    (ran : dataIndAll env ctxt true rbIdP (some pdcp) pdus = .ok (outcomes, some after))
    (_failed : IntegrityFailed outcomes) :
    NoEffect env ctxt rbIdP pdcp outcomes after ↔
      ∀ pdu ∈ pdus, DroppedEarly rbIdP pdu := by
  constructor
  · intro noEffect
    by_contra reached
    simp only [not_forall] at reached
    obtain ⟨pdu, mem, open_⟩ := reached
    obtain ⟨outcome, inOutcomes, delivered⟩ :=
      dataIndAll_delivers activated ran ⟨pdu, mem, open_⟩
    exact noEffect.undelivered outcome inOutcomes delivered
  · intro dropped
    obtain ⟨silentOutcomes, silentRan, silent⟩ :=
      dataIndAll_droppedEarly env ctxt pdcp dropped
    rw [silentRan] at ran
    simp only [Except.ok.injEq, Prod.mk.injEq, Option.some.injEq] at ran
    obtain ⟨rfl, rfl⟩ := ran
    refine ⟨?_, ⟨rfl, rfl, rfl⟩, fun _ => rfl⟩
    rintro outcome mem ⟨rbId, sdu, delivered⟩
    simp [silent outcome mem] at delivered

def activatedSrb : Entity :=
  { Entity.zeroed with
    integrityProtAlgorithm := 2
    securityActivated := 1
    rlcMode := .am
    seqNumSize := 5
    lastSubmittedPdcpRxSn := 4095 }

/-- A four-octet PDU is dropped, so it has no effect. -/
theorem noEffect_short_pdu :
    NoEffect nullCipherEnvironment ueCtxt 1 activatedSrb
      [{ entity := some activatedSrb, events := [], ret := false }] activatedSrb := by
  have ran : dataIndAll nullCipherEnvironment ueCtxt true 1 (some activatedSrb) [[0, 0, 0, 0]] =
      .ok ([{ entity := some activatedSrb, events := [], ret := false }], some activatedSrb) := rfl
  refine (noEffect_iff_droppedEarly rfl ran ?_).mpr ?_
  · intro outcome mem algorithm params result checked
    simp only [mem_singleton] at mem
    subst mem
    cases checked
  · intro pdu mem
    simp only [mem_singleton] at mem
    subst mem
    exact .inr (by decide)

/-- A forged PDU with SN 5: its check fails, yet its payload reaches RRC and the
receiver now expects SN 6. The genuine PDU with SN 0 is then checked with COUNT
32, where it would have been checked with COUNT 0. -/
theorem forged_pdu_has_effect :
    ∃ outcome after genuine,
      dataIndAll nullCipherEnvironment ueCtxt true 1 (some activatedSrb)
          [[5, 0xAA, 0, 0, 0, 0]] = .ok ([outcome], some after) ∧
        IntegrityFailed [outcome] ∧
        DeliveredToRrc outcome ∧
        after.nextPdcpRxSn = 6 ∧
        dataInd nullCipherEnvironment ueCtxt true false 1 [0, 0xBB, 0, 0, 0, 0] (some after) =
          .ok genuine ∧
        usedCounts genuine.events = [32, 32] ∧
        ¬ NoEffect nullCipherEnvironment ueCtxt 1 activatedSrb [outcome] after := by
  refine ⟨_, _, _, rfl, ?_, ?_, rfl, rfl, rfl, ?_⟩
  · intro outcome mem algorithm params result checked
    simp only [mem_singleton] at mem
    subst mem
    rcases mem_cons.mp checked with decrypted | checked
    · cases decrypted
    · rcases mem_cons.mp checked with refused | delivered
      · obtain ⟨_, _, rfl⟩ := Event.streamCheckIntegrity.inj refused
        decide
      · rcases mem_singleton.mp delivered with ⟨⟩
  · exact ⟨1, [0xAA], by decide⟩
  · intro noEffect
    exact noEffect.undelivered _ mem_cons_self ⟨1, [0xAA], by decide⟩

end OpenAir.Pdcp
