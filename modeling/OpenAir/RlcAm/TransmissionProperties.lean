import OpenAir.RlcAm.StatusProperties

/-! Every state the transmitting side reaches has a proper window: SDUs, new
PDUs, retransmissions, STATUS PDUs and the poll timer all keep it. -/

set_option autoImplicit false

namespace OpenAir.RlcAm

open OpenAir.Base List Option Function Transmitter TxPdu PduReport

def Transmitter.sduState (tx : Transmitter) : (Nat → TxSdu) × Int × Int × Int × Nat × Nat :=
  (tx.inputSdus, tx.sduBufferOccupancy, tx.nbSduNoSegmented, tx.nbSdu, tx.currentSduIndex,
    tx.nextSduIndex)

def Transmitter.sduSide (tx : Transmitter) :
    ((Nat → TxSdu) × Int × Int × Int × Nat × Nat) × List (Nat × Nat × Bool) :=
  (tx.sduState, tx.confirmed)

section Resending

variable {tx other : Transmitter} {now frame sn : Nat} {pdus : List (List UInt8)}

def Transmitter.MayNack (tx : Transmitter) (sn : Nat) : Prop :=
  (tx.pduRetransBuffer sn).countNack.retxCount < tx.maxRetxThreshold

theorem nackPdu_sduSide {soStart soStop : Int}
    (may : (tx.pduRetransBuffer sn).memBlock.isSome → tx.MayNack sn)
    (done : tx.nackPdu frame sn soStart soStop = some other) : other.sduSide = tx.sduSide := by
  by_cases held : (tx.pduRetransBuffer sn).memBlock.isSome
  · obtain ⟨pdu, recorded, -, marked⟩ := nackPdu_spec held done
    obtain ⟨holed, -, only, rfl⟩ := nacked_spec recorded
    have count : holed.retxCount = (tx.pduRetransBuffer sn).retxCount :=
      only.kept retxCount
    have below := may held
    rw [MayNack, countNack, ← count] at below
    rw [marked below]
    rfl
  · rw [nackPdu_free held done]

theorem retransmitGetCopy_keeps (tx : Transmitter) (now sn : Nat) :
    tx.SameWindow (tx.retransmitGetCopy now sn).1 ∧
      (tx.retransmitGetCopy now sn).1.sduSide = tx.sduSide := by
  cases held : (tx.pduRetransBuffer sn).memBlock with
  | none =>
    simp only [retransmitGetCopy, held]
    exact ⟨.of_pdus rfl rfl rfl rfl id, trivial⟩
  | some octets =>
    have marked : tx.SameWindow
        (tx.setPdu sn { tx.pduRetransBuffer sn with retransmit := false }) :=
      setPdu_sameWindow tx rfl rfl rfl
    have polled := @retransmitGetCopy_spec tx now sn octets held
    exact ⟨marked.trans polled.sameWindow, polled.kept sduSide⟩

theorem retransmitGetSubsegment_keeps {size : Int} {segment : List UInt8}
    (sent : tx.retransmitGetSubsegment now sn size = some (other, segment)) :
    tx.SameWindow other ∧ other.sduSide = tx.sduSide := by
  obtain ⟨octets, info, plan, pdu, -, -, -, removed, polled⟩ := retransmitGetSubsegment_spec sent
  have stored := setPdu_sameWindow tx (segmented_kept removed ack fun _ _ => rfl)
    (segmented_kept removed memBlock fun _ _ => rfl)
    (segmented_kept removed sdusIndex fun _ _ => rfl)
  exact ⟨stored.trans polled.sameWindow, polled.kept sduSide⟩

theorem retransmitAnyPdu_keeps {requested : Nat}
    (sent : tx.retransmitAnyPdu now frame requested = some (other, pdus)) :
    tx.SameWindow other ∧ ((∀ sn, tx.anyPdu requested = some sn → tx.MayNack sn) →
      other.sduSide = tx.sduSide) := by
  rcases retransmitAnyPdu_spec sent with ⟨-, rfl, -⟩ |
    ⟨sn, marked, chosen, nacked, polled | ⟨sending, segment, taken, polled⟩⟩
  · exact ⟨.of_pdus rfl rfl rfl rfl id, fun _ => rfl⟩
  · obtain ⟨copied, sdus⟩ := retransmitGetCopy_keeps marked now sn
    refine ⟨((nackPdu_some nacked).1.trans copied).trans polled.sameWindow, fun may => ?_⟩
    rw [polled.kept sduSide, sdus, nackPdu_sduSide (fun _ => may sn chosen) nacked]
  · obtain ⟨cut, sdus⟩ := retransmitGetSubsegment_keeps taken
    refine ⟨((nackPdu_some nacked).1.trans cut).trans polled.sameWindow, fun may => ?_⟩
    rw [polled.kept sduSide, sdus, nackPdu_sduSide (fun _ => may sn chosen) nacked]

theorem retransmitPdu_keeps {requested : Int}
    (sent : tx.retransmitPdu now sn requested = some (some (other, pdus))) :
    tx.SameWindow other ∧ other.sduSide = tx.sduSide := by
  simp only [retransmitPdu] at sent
  split at sent
  · obtain rfl : _ = other := congrArg Prod.fst (Option.some.inj (Option.some.inj sent))
    obtain ⟨copied, sdus⟩ := retransmitGetCopy_keeps tx now sn
    exact ⟨copied.trans (setPdu_sameWindow _ rfl rfl rfl), sdus⟩
  · split at sent
    · obtain ⟨⟨sending, segment⟩, taken, moved⟩ := map_eq_some_iff.mp sent
      obtain rfl : _ = other := congrArg Prod.fst (Option.some.inj moved)
      obtain ⟨same, sdus⟩ := retransmitGetSubsegment_keeps taken
      exact ⟨{ same with }, sdus⟩
    · cases sent

end Resending

section Window

variable {tx other : Transmitter} {origin count base now frame requested sn ackSn : Nat}
  {acked : Nat → Bool} {pdu : TxPdu} {block : Nat → UInt8}

theorem Transmitter.Window.rebase (window : tx.Window origin count base acked) :
    tx.Window tx.vtA (count - base) 0 fun index => acked (base + index) := by
  have countLt := window.count_lt
  have baseLe := window.base_le
  have narrow := window.narrow
  have move : ∀ index, snAt tx.vtA index = snAt origin (base + index) := fun index => by
    rw [window.vtA, snAt_snAt]
  refine
    { bounded := window.vtA ▸ snAt_lt origin base, narrow := by omega
      base_le := Nat.zero_le _, passed := nofun
      vtA := (snAt_zero (window.vtA ▸ snAt_lt origin base)).symm
      vtS := by rw [move, Nat.add_sub_cancel' baseLe, window.vtS]
      held := ?_, clear := ?_, slots := window.slots, current := window.current
      lowest := fun below => window.lowest (by omega), vtMs := window.vtMs }
  · intro index _ below
    rw [move]
    exact window.held (base + index) (by omega) (by omega)
  · intro index indexLt outside
    rw [move]
    by_cases wraps : base + index < rlcAmSnModulo
    · exact window.clear (base + index) wraps (by omega)
    · have cycle : snAt origin (base + index) = snAt origin (base + index - rlcAmSnModulo) := by
        simp only [snAt, rlcAmSnModulo] at *
        omega
      rw [cycle]
      exact window.clear _ (by omega) (by omega)

section

variable (window : tx.Window origin count 0 acked)

include window

theorem Transmitter.Window.extend (room : count < rlcAmWindowSize) (waits : pdu.ack = false)
    (held : pdu.memBlock.isSome) (slots : ∀ slot ∈ pdu.sdusIndex, slot < rlcAmSduControlBufferSize)
    (pdus : other.pduRetransBuffer = update tx.pduRetransBuffer tx.vtS pdu)
    (vtA : other.vtA = tx.vtA) (vtS : other.vtS = nextSn tx.vtS) (vtMs : other.vtMs = tx.vtMs)
    (current : other.currentSduIndex < rlcAmSduControlBufferSize) :
    other.Window origin (count + 1) 0 (update acked count false) := by
  have countLt := window.count_lt
  have entry : ∀ index < rlcAmSnModulo, other.pduRetransBuffer (snAt origin index) =
      if index = count then pdu else tx.pduRetransBuffer (snAt origin index) := by
    intro index indexLt
    rw [pdus, window.vtS, update_snAt _ _ countLt indexLt]
  refine
    { bounded := window.bounded, narrow := room, base_le := Nat.zero_le _
      passed := nofun
      vtA := vtA.trans window.vtA, vtS := by rw [vtS, window.vtS, nextSn_snAt]
      held := ?_, clear := ?_, slots := ?_, current := current, lowest := fun _ => ?_
      vtMs := by rw [vtMs, vtA, window.vtMs] }
  · intro index _ below
    rw [entry index (by omega), update_apply]
    split
    · exact ⟨waits, by simp [held]⟩
    · exact window.held index (Nat.zero_le _) (by omega)
  · intro index indexLt outside
    rw [entry index indexLt, if_neg (by omega)]
    exact window.clear index indexLt (by omega)
  · intro sn slot mem
    rw [pdus, update_apply] at mem
    split at mem
    · exact slots slot mem
    · exact window.slots sn slot mem
  · rw [update_apply]
    split
    · rfl
    · exact window.lowest (by omega)

theorem Transmitter.Window.room (notFull : tx.vtS ≠ tx.vtMs) : count < rlcAmWindowSize := by
  refine Nat.lt_of_le_of_ne window.narrow fun full => notFull ?_
  rw [window.vtMs, window.vtA, window.vtS, full, snAt_zero window.bounded, snAt]

theorem segment10_window {copy : Option (List UInt8)} (room : count < rlcAmWindowSize)
    (grant : 2 < requested) (sent : tx.segment10 now requested block = some (other, copy)) :
    ∃ count' acked', other.Window origin count' 0 acked' := by
  rcases segment10_spec grant sent with ⟨-, rfl, -⟩ |
    ⟨-, -, -, sending, octets, payload, sdusIndex, size, payloadSize, moves, slots, polled⟩
  · exact ⟨count, acked, window⟩
  · have same := moves.sameWindow
    have stored : (sending.withFresh (freshPdu octets payload sdusIndex size
        payloadSize)).pduRetransBuffer = update tx.pduRetransBuffer tx.vtS
          (freshPdu octets payload sdusIndex size payloadSize) := by
      rw [← same.vtS, ← moves.kept pduRetransBuffer]
      rfl
    have extended := window.extend room rfl rfl (by exact slots window.current) stored same.vtA
      (congrArg nextSn same.vtS) same.vtMs (same.current window.current)
    exact ⟨count + 1, _, extended.congr polled.sameWindow⟩

theorem getPdus_window {pdus : List (List UInt8)}
    (sent : tx.getPdus now frame requested block = some (other, pdus)) :
    ∃ count' acked', other.Window origin count' 0 acked' := by
  rcases getPdus_cases sent with ⟨-, -, resent⟩ | ⟨-, -, new, grant, copy, made, -⟩ |
    ⟨-, -, -, -, -, again⟩ | ⟨-, -, rfl, -⟩
  · exact ⟨count, acked, window.congr (retransmitPdu_keeps resent).1⟩
  · exact segment10_window window (window.room new.1) grant made
  · exact ⟨count, acked, window.congr (retransmitAnyPdu_keeps again).1⟩
  · exact ⟨count, acked, window⟩

end

theorem Transmitter.Window.ack_of_held {origin count base : Nat} {acked : Nat → Bool}
    (window : tx.Window origin count base acked) (below : sn < rlcAmSnModulo)
    (held : (tx.pduRetransBuffer sn).memBlock.isSome) :
    (tx.pduRetransBuffer sn).ack = false := by
  rw [← snAt_shiftedSn window.bounded below] at held ⊢
  obtain ⟨notBelow, inside, waits⟩ := window.waiting (shiftedSn_lt origin sn) held
  rw [(window.held _ notBelow inside).1, waits]

theorem ackPdu_frees {tx other : Transmitter} {origin count base sn : Nat} {acked : Nat → Bool}
    (window : tx.Window origin count base acked) (below : sn < rlcAmSnModulo)
    (done : tx.ackPdu sn = some other) :
    (other.pduRetransBuffer sn).memBlock = none ∧ ∀ at_ < rlcAmSnModulo, at_ ≠ sn →
      ((tx.pduRetransBuffer at_).memBlock.isSome →
        other.pduRetransBuffer at_ = tx.pduRetransBuffer at_) ∧
      ((tx.pduRetransBuffer at_).memBlock = none →
        (other.pduRetransBuffer at_).memBlock = none) := by
  have place := snAt_shiftedSn window.bounded below
  obtain ⟨found, top, same, kept⟩ := ackPdu_window window (shiftedSn_lt origin sn)
  have frees := ackPdu_onlyFrees done
  rw [place, done] at same
  cases same
  constructor
  · rw [← not_isSome_iff_eq_none, ← place]
    intro held
    obtain ⟨-, -, waits⟩ := kept.waiting (shiftedSn_lt origin sn) held
    rw [update_self] at waits
    cases waits
  · intro at_ atLt apart
    have placeAt := snAt_shiftedSn window.bounded atLt
    have distinct : shiftedSn origin at_ ≠ shiftedSn origin sn := by
      intro equal
      exact apart (by rw [← placeAt, ← place, equal])
    constructor
    · intro held
      rw [← placeAt] at held
      obtain ⟨-, inside, waits⟩ := window.waiting (shiftedSn_lt origin at_) held
      refine (frees at_).resolve_right fun freed => ?_
      have waits' : update acked (shiftedSn origin sn) true (shiftedSn origin at_) =
          false := by
        rw [update_of_ne distinct, waits]
      have notPassed : top ≤ shiftedSn origin at_ := by
        refine Nat.le_of_not_lt fun passed => ?_
        rw [kept.passed _ passed] at waits'
        cases waits'
      have entry := (kept.held _ notPassed inside).2
      rw [placeAt, freed.1, waits'] at entry
      cases entry
    · intro free
      rcases frees at_ with same | freed
      · rw [same, free]
      · exact freed.1

theorem ackPdu_held {tx other : Transmitter} {origin count base sn at_ : Nat} {acked : Nat → Bool}
    (window : tx.Window origin count base acked) (below : sn < rlcAmSnModulo)
    (done : tx.ackPdu sn = some other) (atLt : at_ < rlcAmSnModulo)
    (held : (other.pduRetransBuffer at_).memBlock.isSome) :
    other.pduRetransBuffer at_ = tx.pduRetransBuffer at_ := by
  obtain ⟨freed, rest⟩ := ackPdu_frees window below done
  have apart : at_ ≠ sn := by
    rintro rfl
    rw [freed] at held
    cases held
  obtain ⟨kept, none⟩ := rest at_ atLt apart
  refine kept ?_
  rw [isSome_iff_ne_none]
  intro free
  rw [none free] at held
  cases held

theorem statusReports_proper {fuel cursor : Nat} {last : Option NackItem} {items : List NackItem}
    {reports : List PduReport} (bounded : cursor < rlcAmSnModulo)
    (planned : statusReports ackSn fuel cursor last items = some reports) :
    (∀ report ∈ reports, report.sn < rlcAmSnModulo) ∧
      ∀ sn, reports.countP (PduReport.nacks sn) ≤ (nackRanges items sn).length := by
  induction fuel generalizing cursor last items reports with
  | zero => cases planned
  | succ fuel ih =>
    rw [statusReports.eq_def] at planned
    simp only at planned
    split at planned
    · cases planned
      exact ⟨nofun, fun sn => Nat.zero_le _⟩
    · -- An acknowledgement leaves the NACK list as it is.
      have acked : ∀ {next : Nat} {items : List NackItem}, next < rlcAmSnModulo →
          (statusReports ackSn fuel next last items).map (PduReport.ack cursor :: ·) =
            some reports →
          (∀ report ∈ reports, report.sn < rlcAmSnModulo) ∧
            ∀ sn, reports.countP (PduReport.nacks sn) ≤ (nackRanges items sn).length := by
        intro next items nextLt planned
        obtain ⟨rest, plannedRest, rfl⟩ := map_eq_some_iff.mp planned
        obtain ⟨numbers, counts⟩ := ih nextLt plannedRest
        exact ⟨forall_mem_cons.mpr ⟨bounded, numbers⟩, counts⟩
      cases items with
      | nil => exact acked (Nat.mod_lt _ (by decide)) planned
      | cons item items =>
        simp only at planned
        split at planned
        next here =>
          obtain ⟨rest, plannedRest, rfl⟩ := map_eq_some_iff.mp planned
          obtain ⟨numbers, counts⟩ := ih (cursorAfter_lt bounded _ _) plannedRest
          refine ⟨forall_mem_cons.mpr ⟨bounded, numbers⟩, fun sn => ?_⟩
          have below := counts sn
          by_cases same : item.nackSn = sn
          · rw [← same, nackRanges_cons_self, length_cons, countP_cons, same]
            split <;> omega
          · have other : PduReport.nacks sn (.nack cursor item.soStart item.soEnd) = false := by
              simpa [PduReport.nacks, here] using same
            rw [nackRanges_cons_ne items same, countP_cons_of_neg (by simp [other])]
            exact below
        · exact acked (cursorAfter_lt bounded _ _) planned

theorem Transmitter.reports_proper {tx : Transmitter} (bounded : tx.vtA < rlcAmSnModulo)
    (info : ControlPduInfo) :
    (∀ report ∈ tx.reports info, report.sn < rlcAmSnModulo) ∧
      ∀ sn, (tx.reports info).countP (nacks sn) ≤ (nackRanges info.nackList sn).length := by
  have nothing : (∀ report ∈ ([] : List PduReport), report.sn < rlcAmSnModulo) ∧
      ∀ sn, ([] : List PduReport).countP (nacks sn) ≤
        (nackRanges info.nackList sn).length :=
    ⟨nofun, fun sn => Nat.zero_le _⟩
  rw [reports]
  split
  · cases planned : statusReports info.ackSn (rlcAmSnModulo + info.nackList.length) tx.vtA none
      info.nackList with
    | none => exact nothing
    | some reports => exact statusReports_proper bounded planned
  · exact nothing

theorem report_window {report : PduReport} (window : tx.Window origin count base acked)
    (below : report.sn < rlcAmSnModulo) (done : tx.report frame report = some other) :
    ∃ top acked', other.Window origin count top acked' ∧ ∀ at_ < rlcAmSnModulo,
      (acked' at_ = true ↔ acked at_ ∨ .ack (snAt origin at_) = report) := by
  cases report with
  | ack sn =>
    have stopped := window.congr (stopPoll_onlyPolls tx sn).sameWindow
    obtain ⟨found, top, same, kept⟩ := ackPdu_window stopped (shiftedSn_lt origin sn)
    have place : snAt origin (shiftedSn origin sn) = sn := snAt_shiftedSn window.bounded below
    rw [place] at same
    cases same.symm.trans done
    refine ⟨top, _, kept, fun at_ atLt => ?_⟩
    have here : snAt origin at_ = sn ↔ at_ = shiftedSn origin sn :=
      ⟨fun same => snAt_injective atLt (shiftedSn_lt ..) (same.trans place.symm),
        fun same => (congrArg _ same).trans place⟩
    rw [update_apply, ack.injEq, here]
    split <;> simp [*]
  | nack sn soStart soEnd =>
    have stopped := window.congr (stopPoll_onlyPolls tx sn).sameWindow
    exact ⟨base, acked, stopped.congr (nackPdu_some done).1, by simp⟩

theorem execute_window {reports : List PduReport} (window : tx.Window origin count base acked)
    (proper : ∀ report ∈ reports, report.sn < rlcAmSnModulo)
    (executed : execute (report frame) tx reports = some other) :
    ∃ top acked', other.Window origin count top acked' ∧ ∀ at_ < rlcAmSnModulo,
      (acked' at_ = true ↔ acked at_ ∨ .ack (snAt origin at_) ∈ reports) := by
  induction reports generalizing tx base acked with
  | nil =>
    cases executed
    exact ⟨base, acked, window, by simp⟩
  | cons report reports ih =>
    obtain ⟨below, properRest⟩ := forall_mem_cons.mp proper
    obtain ⟨next, done, rest⟩ := bind_eq_some_iff.mp executed
    obtain ⟨middle, between, kept, one⟩ := report_window window below done
    obtain ⟨top, acked', final, others⟩ := ih kept properRest rest
    refine ⟨top, acked', final, fun at_ atLt => ?_⟩
    rw [others at_ atLt, one at_ atLt, mem_cons]
    tauto

end Window

theorem init_window (config : TxConfiguration) :
    (init config).Window 0 0 0 fun _ => false where
  bounded := by decide
  narrow := Nat.zero_le _
  base_le := Nat.le_refl _
  passed := nofun
  vtA := show 0 = snAt 0 0 by decide
  vtS := show 0 = snAt 0 0 by decide
  held := nofun
  clear _ _ _ := ⟨rfl, rfl⟩
  slots _ _ mem := absurd mem List.not_mem_nil
  current := show 0 < rlcAmSduControlBufferSize by decide
  lowest := nofun
  vtMs := show rlcAmWindowSize = (0 + rlcAmWindowSize) % rlcAmSnModulo by decide

def Transmitter.HasWindow (tx : Transmitter) : Prop :=
  ∃ count acked, tx.Window tx.vtA count 0 acked

theorem Transmitter.Window.hasWindow {tx : Transmitter} {origin count base : Nat}
    {acked : Nat → Bool} (window : tx.Window origin count base acked) : tx.HasWindow :=
  ⟨_, _, window.rebase⟩

theorem step_hasWindow {tx next : Transmitter} {input : EntityInput} (window : tx.HasWindow)
    (stepped : tx.step input = some next) : next.HasWindow := by
  obtain ⟨count, acked, window⟩ := window
  cases input with
  | dataReq mui octets =>
    cases stepped
    exact (window.congr (dataReq_movesSdus tx mui octets).sameWindow).hasWindow
  | getPdus now frame requested block =>
    obtain ⟨⟨other, pdus⟩, sent, rfl⟩ := map_eq_some_iff.mp stepped
    obtain ⟨count', acked', kept⟩ := getPdus_window window sent
    exact kept.hasWindow
  | statusPdu frame info =>
    obtain ⟨top, acked', kept, -⟩ := execute_window window
      (reports_proper window.bounded info).1 (receiveProcessControlPdu_reports stepped)
    exact kept.hasWindow
  | pollTimer now =>
    cases stepped
    exact (window.congr (checkTimerPollRetransmit_onlyPolls tx now).sameWindow).hasWindow

theorem reachable_hasWindow {config : TxConfiguration} {inputs : List EntityInput}
    {tx : Transmitter} (reached : execute step (init config) inputs = some tx) :
    tx.HasWindow :=
  execute_preserves (fun _ _ _ => step_hasWindow) (init_window config).hasWindow reached

end OpenAir.RlcAm
