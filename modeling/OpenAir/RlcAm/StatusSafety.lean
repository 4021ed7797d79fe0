import OpenAir.RlcAm.TransmissionProperties

/-! A STATUS PDU whose NACKs can be recorded is processed to its end, in whatever
order it lists them. The window need not be a proper one: after a re-establishment
it is not. -/

set_option autoImplicit false

namespace OpenAir.RlcAm

open OpenAir.Base Option Transmitter

/-- The fields of a STATUS PDU have ten and fifteen bits. -/
structure ControlPduInfo.Decoded (info : ControlPduInfo) : Prop where
  ackSn : info.ackSn < rlcAmSnModulo
  nackSn : ∀ item ∈ info.nackList, item.nackSn < rlcAmSnModulo
  offsets : ∀ item ∈ info.nackList, item.soStart ≤ 0x7FFF ∧ item.soEnd ≤ 0x7FFF

structure Transmitter.Indexed (tx : Transmitter) : Prop where
  slots : ∀ sn, ∀ slot ∈ (tx.pduRetransBuffer sn).sdusIndex, slot < rlcAmSduControlBufferSize
  current : tx.currentSduIndex < rlcAmSduControlBufferSize
  vtA : tx.vtA < rlcAmSnModulo
  vtMs : tx.vtMs = (tx.vtA + rlcAmWindowSize) % rlcAmSnModulo

section Indexed

variable {tx other : Transmitter} {now frame sn requested : Nat}

theorem Transmitter.Indexed.congr (indexed : tx.Indexed) (same : tx.SameWindow other) :
    other.Indexed where
  slots sn slot mem := indexed.slots sn slot ((same.pdus sn).2.2 ▸ mem)
  current := same.current indexed.current
  vtA := same.vtA ▸ indexed.vtA
  vtMs := by
    rw [same.vtMs, same.vtA]
    exact indexed.vtMs

theorem Transmitter.Indexed.update (indexed : tx.Indexed) {pdu : TxPdu}
    (slots : ∀ slot ∈ pdu.sdusIndex, slot < rlcAmSduControlBufferSize)
    (pdus : other.pduRetransBuffer = Function.update tx.pduRetransBuffer sn pdu)
    (current : other.currentSduIndex < rlcAmSduControlBufferSize)
    (vtA : other.vtA = tx.vtA) (vtMs : other.vtMs = tx.vtMs) : other.Indexed where
  slots at_ slot mem := by
    rw [pdus, Function.update_apply] at mem
    split at mem
    · exact slots slot mem
    · exact indexed.slots at_ slot mem
  current := current
  vtA := vtA ▸ indexed.vtA
  vtMs := by
    rw [vtMs, vtA]
    exact indexed.vtMs

namespace Transmitter

variable (indexed : tx.Indexed)

include indexed

theorem Indexed.advanceVtA : tx.advanceVtA.Indexed := by
  refine @advanceVtA_establishes tx (fun state => state.vtA < rlcAmSnModulo ∧
      state.currentSduIndex = tx.currentSduIndex ∧ ∀ sn,
        (state.pduRetransBuffer sn).sdusIndex ⊆ (tx.pduRetransBuffer sn).sdusIndex) _
    (fun state ⟨_, current, fewer⟩ => ⟨Nat.mod_lt _ (by decide), current, fun sn slot mem => ?_⟩)
    (fun state ⟨bounded, current, fewer⟩ => ⟨fun sn slot mem =>
      indexed.slots sn slot (fewer sn mem), current ▸ indexed.current, bounded, rfl⟩)
    ⟨indexed.vtA, rfl, fun _ _ mem => mem⟩
  simp only [passVtA, setPdu, Function.update_apply] at mem
  split at mem
  · cases mem
  · exact fewer sn mem

theorem Indexed.setPdu {pdu : TxPdu} (same : pdu.sdusIndex = (tx.pduRetransBuffer sn).sdusIndex) :
    (tx.setPdu sn pdu).Indexed :=
  indexed.update (same ▸ indexed.slots sn) rfl indexed.current rfl rfl

theorem Indexed.markAcked (sn : Nat) : (tx.markAcked sn).Indexed := by
  have marked : (tx.setPdu sn { tx.pduRetransBuffer sn with ack := true }).Indexed :=
    indexed.setPdu rfl
  simp only [Transmitter.markAcked]
  split
  · exact marked.advanceVtA
  · exact marked

theorem Indexed.ackPdu (sn : Nat) : ∃ next, tx.ackPdu sn = some next ∧ next.Indexed := by
  have freed : (tx.freePdu sn).Indexed := indexed.setPdu rfl
  simp only [Transmitter.ackPdu]
  split
  · obtain ⟨settled, folded⟩ : ∃ settled,
        (tx.pduRetransBuffer sn).sdusIndex.foldlM ackSdu
          ((tx.freePdu sn).uncountPdu (tx.pduRetransBuffer sn)) = some settled :=
      settleSdus_returns _ (indexed.slots sn)
    have uncounted : ((tx.freePdu sn).uncountPdu (tx.pduRetransBuffer sn)).Indexed :=
      { freed with }
    have kept := uncounted.congr (settleSdus_movesSdus folded).sameWindow
    refine ⟨_, by rw [folded]; rfl, ?_⟩
    exact (kept.markAcked sn).congr (skipRetrans_sameWindow _ sn).2
  · split
    · exact ⟨_, rfl, freed.advanceVtA⟩
    · exact ⟨_, rfl, freed⟩

theorem Indexed.report {report : PduReport} (done : tx.report frame report = some other) :
    other.Indexed := by
  cases report with
  | ack sn =>
    have stopped := indexed.congr (stopPoll_onlyPolls tx sn).sameWindow
    obtain ⟨next, acked, kept⟩ := stopped.ackPdu sn
    cases acked.symm.trans done
    exact kept
  | nack sn soStart soEnd =>
    have stopped := indexed.congr (stopPoll_onlyPolls tx sn).sameWindow
    exact stopped.congr (nackPdu_some done).1

theorem Indexed.segment10 {block : Nat → UInt8} {copy : Option (List UInt8)} (grant : 2 < requested)
    (sent : tx.segment10 now requested block = some (other, copy)) : other.Indexed := by
  rcases segment10_spec grant sent with ⟨-, rfl, -⟩ |
    ⟨-, -, -, sending, octets, payload, sdusIndex, size, payloadSize, moves, slots, polled⟩
  · exact indexed
  · have kept := indexed.congr moves.sameWindow
    have fresh : (sending.withFresh (freshPdu octets payload sdusIndex size payloadSize)).Indexed :=
      kept.update (by exact slots indexed.current) rfl kept.current rfl rfl
    exact fresh.congr polled.sameWindow

theorem Indexed.step {input : EntityInput} (stepped : tx.step input = some other) :
    other.Indexed := by
  cases input with
  | dataReq mui octets =>
    cases stepped
    exact indexed.congr (dataReq_movesSdus tx mui octets).sameWindow
  | getPdus now frame requested block =>
    obtain ⟨⟨next, pdus⟩, sent, rfl⟩ := map_eq_some_iff.mp stepped
    rcases getPdus_cases sent with ⟨-, -, resent⟩ | ⟨-, -, -, grant, copy, made, -⟩ |
      ⟨-, -, -, -, -, again⟩ | ⟨-, -, rfl, -⟩
    · exact indexed.congr (retransmitPdu_keeps resent).1
    · exact indexed.segment10 grant made
    · exact indexed.congr (retransmitAnyPdu_keeps again).1
    · exact indexed
  | statusPdu frame info =>
    exact execute_preserves (fun _ _ _ before done => before.report done) indexed
      (receiveProcessControlPdu_reports stepped)
  | pollTimer now =>
    cases stepped
    exact indexed.congr (checkTimerPollRetransmit_onlyPolls tx now).sameWindow

end Transmitter

theorem Transmitter.indexed_init (config : TxConfiguration) :
    (init config).Indexed :=
  have window := init_window config
  ⟨window.slots, window.current, window.bounded, window.vtMs⟩

end Indexed

section Walk

variable {frame ackSn : Nat}

theorem shiftedSn_nextSn_lt {cursor : Nat} (bounded : cursor < rlcAmSnModulo)
    (ackLt : ackSn < rlcAmSnModulo) (apart : cursor ≠ ackSn) :
    shiftedSn (nextSn cursor) ackSn < shiftedSn cursor ackSn := by
  rw [shiftedSn_eq _ _ bounded, shiftedSn_eq (nextSn cursor) _ (Nat.mod_lt _ (by decide))]
  simp only [nextSn, rlcAmSnModulo] at *
  omega

/-- A NACK list in any order is walked to its end if what it reports can be
recorded. An item repeats the one before it only at the cursor, so that every
round uses up an item or moves the cursor. -/
theorem walkStatus_returns {fuel cursor : Nat} {tx : Transmitter} {last : Option NackItem}
    {items : List NackItem} (indexed : tx.Indexed) (bounded : cursor < rlcAmSnModulo)
    (ackLt : ackSn < rlcAmSnModulo) (records : RecordsAll frame tx items)
    (repeats : ∀ before ∈ last, ∀ next ∈ items.head?, next.nackSn = before.nackSn →
      next.nackSn = cursor)
    (enough : shiftedSn cursor ackSn + items.length < fuel) :
    ∃ next, walkStatus frame ackSn fuel tx cursor last items = some next := by
  induction fuel generalizing tx cursor last items with
  | zero => omega
  | succ fuel ih =>
    rw [walkStatus]
    split
    · exact ⟨tx, rfl⟩
    next apart =>
      have nearer := shiftedSn_nextSn_lt bounded ackLt apart
      have nextLt : nextSn cursor < rlcAmSnModulo := Nat.mod_lt _ (by decide)
      have same := stopPoll_onlyPolls tx cursor
      have stopped := indexed.congr same.sameWindow
      have kept : RecordsAll frame (tx.stopPoll cursor) items :=
        records.onlyFrees fun sn => Or.inl (by rw [same.kept pduRetransBuffer])
      obtain ⟨acked, done, ackedIndexed⟩ := stopped.ackPdu cursor
      have ackedRecords := kept.onlyFrees (ackPdu_onlyFrees done)
      cases items with
      | nil =>
        simp only [done, bind_some]
        refine ih ackedIndexed nextLt ackedRecords (fun _ _ _ none => by cases none) ?_
        omega
      | cons item rest =>
        rw [List.length_cons] at enough
        simp only
        split
        next here =>
          subst here
          obtain ⟨nacked, recorded⟩ := kept.nackPdu_returns (stopped.slots _)
          simp only [recorded, bind_some]
          refine ih (stopped.congr (nackPdu_some recorded).1) (cursorAfter_lt bounded _ _)
            (kept.nackPdu recorded) ?_ ?_
          · intro before isLast next isHead again
            cases isLast
            cases rest with
            | nil => cases isHead
            | cons first rest =>
              cases isHead
              rw [cursorAfter, if_neg (not_not.mpr again), again]
          · have notFarther : shiftedSn (cursorAfter item.nackSn (some item) rest) ackSn ≤
                shiftedSn item.nackSn ackSn := by
              cases rest with
              | nil => exact nearer.le
              | cons first rest =>
                rw [cursorAfter]
                split
                · exact nearer.le
                · exact le_rfl
            omega
        next elsewhere =>
          have different : ∀ before ∈ last, item.nackSn ≠ before.nackSn :=
            fun before isLast again =>
              elsewhere (repeats before isLast item rfl again).symm
          have moves : cursorAfter cursor last (item :: rest) = nextSn cursor := by
            cases last with
            | none => rfl
            | some before => exact if_pos (different before rfl)
          simp only [done, bind_some, moves]
          refine ih ackedIndexed nextLt ackedRecords ?_ ?_
          · intro before isLast next isHead again
            cases isHead
            exact absurd again (different before isLast)
          · rw [List.length_cons]
            omega

theorem Transmitter.Indexed.receiveProcessControlPdu {tx : Transmitter} {info : ControlPduInfo}
    (indexed : tx.Indexed) (decoded : info.Decoded)
    (few : info.nackList.length < rlcAmMaxNackInStatusPdu)
    (records : shiftedSn tx.vtA info.ackSn < rlcAmWindowSize → RecordsAll frame tx info.nackList) :
    ∃ next, tx.receiveProcessControlPdu frame info = some next := by
  rw [Transmitter.receiveProcessControlPdu, if_pos ⟨decoded.ackSn, few⟩, indexed.vtMs]
  split
  next inside =>
    have within := ((inWindow_iff _ _).mp inside).2
    have near := shiftedSn_lt tx.vtA info.ackSn
    exact walkStatus_returns indexed indexed.vtA decoded.ackSn (records within)
      (fun _ isLast => by cases isLast) (by omega)
  · exact ⟨tx, rfl⟩

end Walk

end OpenAir.RlcAm
