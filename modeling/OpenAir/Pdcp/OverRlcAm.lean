import OpenAir.Pdcp.PayloadProperties
import OpenAir.RlcAm.EndToEnd

/-! A DRB without security over RLC AM: the packets of one end at the other one. -/

set_option autoImplicit false

namespace OpenAir.Pdcp

open List RlcAm RlcAm.Transmitter RlcAm.Reassembly OpenAir.Base

structure Entity.PlainDrb (pdcp : Entity) : Prop where
  unsecured : pdcp.securityActivated = 0
  size : pdcp.seqNumSize = pdcpSn12Bit

/-- `pdcp_data_req` accepts the packet and gives RLC the PDU. -/
def Submits (env : Environment) (rbId : Nat) (packet pdu : List UInt8) : Prop :=
  ∃ (sender : Entity) (mui confirm : Nat), sender.PlainDrb ∧
    ∃ outcome ∈ (dataReq env false rbId mui confirm packet .data (some sender)).toOption,
      outcome.ret ∧ outcome.sentPdu? = some pdu

variable {env : Environment} {ctxt : Ctxt} {rbId : Nat} {peer : Entity} {packet pdu : List UInt8}
  {outcome : Outcome}

theorem Submits.pdu_eq (submits : Submits env rbId packet pdu) :
    rbId < maxDRB ∧
      ∃ sn < 2 ^ 12, pdu = serializeUserPlaneDataPduWithLongSn true sn ++ packet := by
  obtain ⟨sender, mui, confirm, drb, outcome, returned, accepted, sent⟩ := submits
  cases requested : dataReq env false rbId mui confirm packet .data (some sender) with
  | error fault =>
    rw [requested] at returned
    cases returned
  | ok found =>
    rw [requested] at returned
    cases returned
    obtain ⟨known, events, bounded⟩ :=
      dataReq_accepted TransmissionMode.noConfusion drb.unsecured requested accepted
    rw [drb.size] at bounded
    simp only [Outcome.sentPdu?, events] at sent
    cases sent
    exact ⟨known, _, Nat.lt_succ_of_le bounded, rfl⟩

theorem Entity.PlainDrb.dataInd (drb : peer.PlainDrb)
    (returned : dataInd env ctxt false false rbId pdu (some peer) = .ok outcome) :
    ∃ after : Entity, outcome.entity = some after ∧ after.PlainDrb := by
  have same := isRxSeqNumberValid_configuration (parseHeader peer false pdu).2.2 peer false
  simp only [Pdcp.dataInd, dataIndNumbered, validateIfActivated_unsecured drb.unsecured,
    submitPayload, Bool.false_eq_true, if_false] at returned
  split_ifs at returned <;> cases returned <;>
    first
    | exact ⟨_, rfl, drb⟩
    | exact ⟨_, rfl, same.securityActivated.trans drb.unsecured, same.seqNumSize.trans drb.size⟩

theorem Entity.PlainDrb.dataIndAll (drb : peer.PlainDrb) (high : rbId ≠ 0)
    {packets pdus : List (List UInt8)} (submitted : Forall₂ (Submits env rbId) packets pdus)
    {receiving : Environment} (hands : ∀ packet ∈ packets, HandsOn receiving ctxt packet.length) :
    ∃ outcomes after, dataIndAll receiving ctxt false rbId (some peer) pdus =
      .ok (outcomes, after) ∧
      outcomes.flatMap (fun outcome => deliveredSdus outcome.events) = packets := by
  induction submitted generalizing peer with
  | nil => exact ⟨[], some peer, rfl, rfl⟩
  | @cons packet pdu packets pdus submits _ ih =>
    obtain ⟨known, sn, bounded, rfl⟩ := submits.pdu_eq
    obtain ⟨outcome, returned, delivered, -⟩ := (delivers_long_iff drb.unsecured
      (by rwa [Nat.mod_eq_of_lt known]) drb.size bounded true).mpr (hands packet mem_cons_self)
    obtain ⟨next, entity, plain⟩ := drb.dataInd returned
    obtain ⟨outcomes, after, ran, others⟩ :=
      ih plain fun packet mem => hands packet (mem_cons_of_mem _ mem)
    refine ⟨outcome :: outcomes, after, ?_, by simp [delivered, others]⟩
    simp only [Pdcp.dataIndAll, returned, entity, ran]

/-- Whatever the channel loses, repeats or reorders, the packets that come out are the
first ones that went in, and all of them once every RLC PDU has been delivered. -/
theorem packets_delivered_in_order {config : TxConfiguration} {inputs : List TxInput}
    (sized : ∀ input ∈ inputs, Sized input)
    (clean : HoldsAlong Sending.step EndsCleanly (Sending.init config) inputs)
    {final : Sending} {infos : List PduInfo}
    (executed : execute Sending.step (Sending.init config) inputs = some final)
    (sent : final.pdus.mapM getDataPduInfos = some infos)
    {packets : List (List UInt8)} (submitted : Forall₂ (Submits env rbId) packets final.queued)
    (high : rbId ≠ 0) (msDuration : Nat) (arrivals : List RxInput)
    (channel : Along (Channel infos) (.init msDuration) arrivals)
    (checked : Along InsertionChecked (.init msDuration) arrivals)
    (receiving : Environment) (ctxt : Ctxt)
    (hands : ∀ packet ∈ packets, HandsOn receiving ctxt packet.length)
    {peer : Entity} (drb : peer.PlainDrb) :
    ∃ state outcomes after,
      fresh.reassembleAll ((Receiver.init msDuration).run arrivals).handed = some state ∧
      Pdcp.dataIndAll receiving ctxt false rbId (some peer) state.dataInd = .ok (outcomes, after) ∧
      outcomes.flatMap (fun outcome => deliveredSdus outcome.events) <+: packets ∧
      (((Receiver.init msDuration).run arrivals).deliveredPdus = infos.length →
        final.tx.waiting = [] →
        outcomes.flatMap (fun outcome => deliveredSdus outcome.events) = packets) := by
  obtain ⟨state, reassembled, ⟨rest, queued⟩, all⟩ :=
    sdus_delivered_in_order sized clean executed sent msDuration arrivals channel checked
  have front : Forall₂ (Submits env rbId) (packets.take state.dataInd.length) state.dataInd :=
    forall₂_take_append packets state.dataInd rest (queued ▸ submitted)
  obtain ⟨outcomes, after, ran, delivered⟩ := drb.dataIndAll high front fun packet mem =>
    hands packet (mem_of_mem_take mem)
  refine ⟨state, outcomes, after, reassembled, ran, delivered ▸ take_prefix _ _, ?_⟩
  intro complete drained
  rw [delivered, all complete drained, ← submitted.length_eq, take_length]

def packetInputs : List TxInput :=
  [.dataReq 0 [0x80, 0, 1, 2, 3], .dataReq 1 [0x80, 1, 4, 5, 6], .grant 0 10 fun _ => 0,
    .grant 1 10 fun _ => 0]

def swappedArrivals : List RxInput :=
  [.dataPdu 0 [176, 1, 1, 4, 5, 6], .dataPdu 1 [176, 1, 1, 4, 5, 6], .timerCheck 2,
    .dataPdu 3 [140, 0, 0, 80, 128, 0, 1, 2, 3, 128]]

theorem packets_delivered_swapped : ∃ state outcomes after,
    fresh.reassembleAll ((Receiver.init 10).run swappedArrivals).handed = some state ∧
      Pdcp.dataIndAll nullCipherEnvironment ueCtxt false 1 (some (plainDrb pdcpSn12Bit))
        state.dataInd = .ok (outcomes, after) ∧
      outcomes.flatMap (fun outcome => deliveredSdus outcome.events) = [[1, 2, 3], [4, 5, 6]] := by
  obtain ⟨final, executed⟩ := Option.isSome_iff_exists.mp (by decide +kernel :
    (execute Sending.step (Sending.init pollingConfiguration) packetInputs).isSome)
  have outcome : (execute Sending.step (Sending.init pollingConfiguration) packetInputs).map
      (fun sending => (sending.pdus.mapM getDataPduInfos, sending.queued, sending.tx.waiting)) =
      some (some ([[140, 0, 0, 80, 128, 0, 1, 2, 3, 128], [176, 1, 1, 4, 5, 6]].filterMap
        getDataPduInfos), [[0x80, 0, 1, 2, 3], [0x80, 1, 4, 5, 6]], []) := by
    decide +kernel
  simp only [executed, Option.map_some, Option.some.injEq, Prod.mk.injEq] at outcome
  obtain ⟨sent, queued, drained⟩ := outcome
  have submitted : Forall₂ (Submits nullCipherEnvironment 1) [[1, 2, 3], [4, 5, 6]]
      final.queued := by
    rw [queued]
    exact .cons ⟨plainDrb pdcpSn12Bit, 0, 0, ⟨rfl, rfl⟩, by decide +kernel⟩
      (.cons ⟨{ plainDrb pdcpSn12Bit with nextPdcpTxSn := 1 }, 1, 0, ⟨rfl, rfl⟩,
        by decide +kernel⟩ .nil)
  have checked : ∀ receiver input, receiver.vrR ≤ receiver.vrMr → InsertionChecked receiver input :=
    fun _ _ => insertionChecked_of_unwrapped
  obtain ⟨state, outcomes, after, reassembled, ran, -, all⟩ :=
    packets_delivered_in_order (by decide) (by decide +kernel) executed sent submitted
      (by decide) 10 swappedArrivals
      ⟨⟨by decide, 1, by decide +kernel⟩, ⟨by decide, 1, by decide +kernel⟩, trivial,
        ⟨by decide, 0, by decide +kernel⟩, trivial⟩
      ⟨checked _ _ (by decide +kernel), checked _ _ (by decide +kernel),
        checked _ _ (by decide +kernel), checked _ _ (by decide +kernel), trivial⟩
      nullCipherEnvironment ueCtxt (fun _ _ => ⟨rfl, .inr rfl⟩)
      (⟨rfl, rfl⟩ : (plainDrb pdcpSn12Bit).PlainDrb)
  exact ⟨state, outcomes, after, reassembled, ran, all (by decide +kernel) drained⟩

end OpenAir.Pdcp
