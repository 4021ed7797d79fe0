import OpenAir.RlcAm.ResentOctets

/-! The retransmission queue over whole runs: `first_retrans_pdu_sn` is at the
lowest marked PDU, and a grant is used for a PDU only while octets of it are
missing. Runs in which a whole PDU is copied again are left out, since the
pointer then stays at a PDU that is no longer marked. -/

set_option autoImplicit false

namespace OpenAir.RlcAm

open OpenAir.Base List Option Function Transmitter

def nackedBy (reports : List PduReport) (sn : Nat) (payloadSize : Int) : Set Int :=
  { octet | ∃ soStart soStop, .nack sn soStart soStop ∈ reports ∧
    octet ∈ nackedOctets payloadSize soStart soStop }

def Transmitter.ResendsWhole (tx : Transmitter) (requested : Nat) : Prop :=
  let pdu := tx.pduRetransBuffer tx.firstRetransPduSn.toNat
  pdu.headerAndPayloadSize ≤ requested ∧ pdu.nackSoStart = 0 ∧ pdu.nackSoStop = soEndOfPdu

instance (tx : Transmitter) (requested : Nat) : Decidable (tx.ResendsWhole requested) :=
  inferInstanceAs (Decidable (_ ∧ _ ∧ _))

def Transmitter.resentOctets (tx : Transmitter) (requested : Nat) : Set Int :=
  let pdu := tx.pduRetransBuffer tx.firstRetransPduSn.toNat
  if tx.ResendsWhole requested then Set.univ
  else { octet | ∃ octets info plan, pdu.memBlock = some octets ∧
    getDataPduInfos octets = some info ∧
    pdu.stopped.planSegment info ((requested : Int) - 4) = some plan ∧
    plan.startOffset ≤ octet ∧ octet < plan.startOffset + plan.pduCopySize }

/-- A transmitting side, and the octets of each PDU that have been reported
missing and not been sent again since. -/
structure ResendHistory where
  tx : Transmitter
  missing : Nat → Set Int

/-- What an input changes of the octets missing. Retransmissions forced by the
poll timer are not counted. -/
def ResendHistory.missingAfter (history : ResendHistory) (input : EntityInput) (sn : Nat) :
    Set Int :=
  match input with
  | .statusPdu _ info => history.missing sn ∪
      nackedBy (history.tx.reports info) sn (history.tx.pduRetransBuffer sn).payloadSize
  | .getPdus _ _ requested _ =>
    if history.tx.Resends requested ∧ sn = history.tx.firstRetransPduSn.toNat then
      history.missing sn \ history.tx.resentOctets requested
    else history.missing sn
  | .dataReq _ _ => history.missing sn
  | .pollTimer _ => history.missing sn

def ResendHistory.step (history : ResendHistory) (input : EntityInput) : Option ResendHistory :=
  (history.tx.step input).map fun next =>
    { tx := next
      missing := fun sn =>
        if next.vtS ≠ history.tx.vtS ∧ sn = history.tx.vtS then ∅
        else history.missingAfter input sn }

def ResendHistory.init (config : TxConfiguration) : ResendHistory :=
  ⟨Transmitter.init config, fun _ => ∅⟩

/-- An acknowledgement moves the pointer to a marked PDU, and a range reported
missing lies in its PDU. -/
def Transmitter.OrderlyReport (tx : Transmitter) : PduReport → Prop
  | .ack sn => tx.firstRetransPduSn = sn → tx.HandsOver sn
  | .nack sn soStart soStop => (tx.pduRetransBuffer sn).memBlock.isSome →
    (tx.pduRetransBuffer sn).Spans soStart soStop

/-- No retransmission is forced by the poll timer, and a PDU that is sent again
is missing up to its end and is sent in segments. -/
def Transmitter.Orderly (tx : Transmitter) : EntityInput → Prop
  | .getPdus _ _ requested _ => tx.forced requested = none ∧ (tx.Resends requested →
    ¬tx.ResendsWhole requested ∧ (tx.pduRetransBuffer tx.firstRetransPduSn.toNat).lastNacked =
      (tx.pduRetransBuffer tx.firstRetransPduSn.toNat).payloadSize - 1)
  | .statusPdu frame info =>
    HoldsAlong (report frame) OrderlyReport tx (tx.reports info)
  | .dataReq _ _ => True
  | .pollTimer _ => True

instance (pdu : TxPdu) (soStart soStop : Int) : Decidable (pdu.Spans soStart soStop) :=
  inferInstanceAs (Decidable (_ ∧ _))

instance (tx : Transmitter) (report : PduReport) : Decidable (tx.OrderlyReport report) :=
  match report with
  | .ack _ => inferInstanceAs (Decidable (_ → _))
  | .nack _ _ _ => inferInstanceAs (Decidable (_ → _))

instance (tx : Transmitter) (input : EntityInput) : Decidable (tx.Orderly input) :=
  match input with
  | .getPdus _ _ _ _ => inferInstanceAs (Decidable (_ ∧ (_ → _ ∧ _)))
  | .statusPdu _ _ => inferInstanceAs (Decidable (HoldsAlong _ _ _ _))
  | .dataReq _ _ => .isTrue trivial
  | .pollTimer _ => .isTrue trivial

structure Transmitter.Queued (tx : Transmitter) (origin : Nat) (missing : Nat → Set Int) : Prop
    extends tx.Pointed origin where
  remembers : ∀ sn < rlcAmSnModulo, (tx.pduRetransBuffer sn).memBlock.isSome →
    (tx.pduRetransBuffer sn).Remembers (missing sn)

section Queued

variable {tx other : Transmitter} {origin count base : Nat} {acked : Nat → Bool}
  {missing more : Nat → Set Int} {frame sn : Nat} {soStart soStop : Int}

theorem TxPdu.Remembers.mono {pdu : TxPdu} {octets others : Set Int}
    (remembers : pdu.Remembers octets) (subset : octets ⊆ others) : pdu.Remembers others :=
  ⟨remembers.toHolesOrdered, fun again => subset (remembers.last again)⟩

namespace Transmitter

variable (queued : tx.Queued origin missing)

include queued

theorem Queued.mono
    (subset : ∀ sn < rlcAmSnModulo, (tx.pduRetransBuffer sn).memBlock.isSome →
      missing sn ⊆ more sn) : tx.Queued origin more :=
  ⟨queued.toPointed, fun sn below held =>
    (queued.remembers sn below held).mono (subset sn below held)⟩

theorem Queued.onlyPolls (only : tx.OnlyPolls other) : other.Queued origin missing := by
  refine ⟨queued.toPointed.onlyPolls only, ?_⟩
  rw [only.kept pduRetransBuffer]
  exact queued.remembers

theorem Queued.onlySdus (only : tx.OnlySdus other) : other.Queued origin missing := by
  refine ⟨queued.toPointed.onlySdus only, ?_⟩
  rw [only.kept pduRetransBuffer]
  exact queued.remembers

theorem Queued.ackPdu (window : tx.Window origin count base acked) (below : sn < rlcAmSnModulo)
    (handsOver : tx.firstRetransPduSn = sn → tx.HandsOver sn) (done : tx.ackPdu sn = some other) :
    other.Queued origin missing := by
  refine ⟨queued.toPointed.ackPdu window below handsOver done, fun at_ atLt held => ?_⟩
  have same := ackPdu_held window below done atLt held
  rw [same] at held ⊢
  exact queued.remembers at_ atLt held

end Transmitter

theorem nackPdu_payloadSize (done : tx.nackPdu frame sn soStart soStop = some other) (at_ : Nat) :
    (other.pduRetransBuffer at_).payloadSize = (tx.pduRetransBuffer at_).payloadSize := by
  by_cases held : (tx.pduRetransBuffer sn).memBlock.isSome
  · obtain ⟨pdu, recorded, only, -⟩ := nackPdu_spec held done
    obtain ⟨holed, -, kept, rfl⟩ := TxPdu.nacked_spec recorded
    have size : holed.countNack.payloadSize = (tx.pduRetransBuffer sn).payloadSize :=
      kept.kept TxPdu.payloadSize
    have pdus : other.pduRetransBuffer = update tx.pduRetransBuffer sn holed.countNack :=
      only.kept pduRetransBuffer
    rw [pdus, update_apply]
    split
    next here => rw [size, here]
    · rfl
  · rw [nackPdu_free held done]

theorem Transmitter.Queued.nackPdu (queued : tx.Queued origin missing)
    (window : tx.Window origin count base acked) (below : sn < rlcAmSnModulo)
    (spans : (tx.pduRetransBuffer sn).memBlock.isSome →
      (tx.pduRetransBuffer sn).Spans soStart soStop)
    (done : tx.nackPdu frame sn soStart soStop = some other) :
    other.Queued origin (update missing sn (missing sn ∪
      nackedOctets (tx.pduRetransBuffer sn).payloadSize soStart soStop)) := by
  by_cases held : (tx.pduRetransBuffer sn).memBlock.isSome
  · refine ⟨queued.toPointed.nackPdu window below done, fun at_ atLt heldAt => ?_⟩
    obtain ⟨pdu, recorded, only, -⟩ := nackPdu_spec held done
    have pdus : other.pduRetransBuffer = update tx.pduRetransBuffer sn pdu :=
      only.kept pduRetransBuffer
    rw [pdus, update_apply] at heldAt ⊢
    by_cases here : at_ = sn
    · rw [if_pos here, here, update_self]
      exact (queued.remembers sn below held).nacked (spans held) recorded
    · rw [if_neg here] at heldAt ⊢
      rw [update_of_ne here]
      exact queued.remembers at_ atLt heldAt
  · rw [nackPdu_free held done]
    refine queued.mono fun at_ _ heldAt => ?_
    have apart : at_ ≠ sn := by
      rintro rfl
      exact held heldAt
    rw [update_of_ne apart]

section Reports

variable {reports : List PduReport}

theorem report_kept {report : PduReport} (window : tx.Window origin count base acked)
    (below : report.sn < rlcAmSnModulo) (done : tx.report frame report = some other) {at_ : Nat}
    (atLt : at_ < rlcAmSnModulo) (held : (other.pduRetransBuffer at_).memBlock.isSome) :
    (tx.pduRetransBuffer at_).memBlock.isSome ∧
      (other.pduRetransBuffer at_).payloadSize = (tx.pduRetransBuffer at_).payloadSize := by
  have polled : ∀ sn, (tx.stopPoll sn).pduRetransBuffer = tx.pduRetransBuffer := fun sn =>
    (stopPoll_onlyPolls tx sn).kept pduRetransBuffer
  cases report with
  | ack sn =>
    have same :=
      ackPdu_held (window.congr (stopPoll_onlyPolls tx sn).sameWindow) below done atLt held
    rw [polled] at same
    rw [same] at held ⊢
    exact ⟨held, rfl⟩
  | nack sn soStart soStop =>
    have block := ((nackPdu_some done).1.pdus at_).2.1
    have size := nackPdu_payloadSize done at_
    rw [polled] at block size
    rw [block] at held
    exact ⟨held, size⟩

theorem reports_held (window : tx.Window origin count base acked)
    (proper : ∀ report ∈ reports, report.sn < rlcAmSnModulo)
    (executed : execute (report frame) tx reports = some other) {at_ : Nat}
    (atLt : at_ < rlcAmSnModulo) (held : (other.pduRetransBuffer at_).memBlock.isSome) :
    (tx.pduRetransBuffer at_).memBlock.isSome := by
  induction reports generalizing tx base acked with
  | nil =>
    cases executed
    exact held
  | cons report reports ih =>
    obtain ⟨below, properRest⟩ := forall_mem_cons.mp proper
    obtain ⟨next, done, rest⟩ := bind_eq_some_iff.mp executed
    obtain ⟨top, acked', kept, -⟩ := report_window window below done
    exact (report_kept window below done atLt (ih kept properRest rest)).1

theorem Transmitter.Queued.report {report : PduReport} (queued : tx.Queued origin missing)
    (window : tx.Window origin count base acked) (below : report.sn < rlcAmSnModulo)
    (orderly : tx.OrderlyReport report) (done : tx.report frame report = some other) :
    other.Queued origin fun sn =>
      missing sn ∪ nackedBy [report] sn (tx.pduRetransBuffer sn).payloadSize := by
  have polls := fun sn => stopPoll_onlyPolls tx sn
  have windowStopped := fun sn => window.congr (stopPoll_onlyPolls tx sn).sameWindow
  cases report with
  | ack sn =>
    have hands : (tx.stopPoll sn).firstRetransPduSn = sn → (tx.stopPoll sn).HandsOver sn := by
      rw [(polls sn).kept firstRetransPduSn]
      exact fun here => (orderly here).onlyPolls (polls sn)
    have acked := (queued.onlyPolls (polls sn)).ackPdu (windowStopped sn) below hands done
    exact acked.mono fun at_ _ _ => Set.subset_union_left
  | nack sn soStart soStop =>
    have pdus : (tx.stopPoll sn).pduRetransBuffer = tx.pduRetransBuffer :=
      (polls sn).kept pduRetransBuffer
    have nacked := (queued.onlyPolls (polls sn)).nackPdu (windowStopped sn) below
      (by rw [pdus]; exact orderly) done
    refine nacked.mono fun at_ _ _ => ?_
    rw [update_apply, pdus]
    split
    next here =>
      refine Set.union_subset_union (by rw [here]) fun octet missed => ?_
      exact ⟨soStart, soStop, by rw [here]; exact mem_singleton_self _, here ▸ missed⟩
    · exact Set.subset_union_left

theorem reports_queued (queued : tx.Queued origin missing)
    (window : tx.Window origin count base acked)
    (proper : ∀ report ∈ reports, report.sn < rlcAmSnModulo)
    (orderly : HoldsAlong (report frame) OrderlyReport tx reports)
    (executed : execute (report frame) tx reports = some other) :
    other.Queued origin fun sn =>
      missing sn ∪ nackedBy reports sn (tx.pduRetransBuffer sn).payloadSize := by
  induction reports generalizing tx missing base acked with
  | nil =>
    cases executed
    exact queued.mono fun sn _ _ => Set.subset_union_left
  | cons report reports ih =>
    obtain ⟨below, properRest⟩ := forall_mem_cons.mp proper
    obtain ⟨next, done, rest⟩ := bind_eq_some_iff.mp executed
    obtain ⟨top, acked', kept, -⟩ := report_window window below done
    have after := ih (queued.report window below orderly.1 done) kept properRest
      (orderly.2 next done) rest
    refine after.mono fun sn snLt held => ?_
    have heldNext := reports_held kept properRest rest snLt held
    rw [(report_kept window below done snLt heldNext).2]
    rintro octet ((already | ⟨soStart, soStop, isReport, missed⟩) |
      ⟨soStart, soStop, later, missed⟩)
    · exact Or.inl already
    · exact Or.inr ⟨soStart, soStop, mem_singleton.mp isReport ▸ mem_cons_self, missed⟩
    · exact Or.inr ⟨soStart, soStop, mem_cons_of_mem _ later, missed⟩

end Reports

namespace Transmitter

theorem Queued.withFresh (queued : tx.Queued origin missing)
    (below : tx.vtS < rlcAmSnModulo) (free : (tx.pduRetransBuffer tx.vtS).memBlock = none)
    (octets : List UInt8) (payload : Nat) (sdusIndex : List Nat) (size payloadSize : Nat) :
    (tx.withFresh (freshPdu octets payload sdusIndex size payloadSize)).Queued origin
      (update missing tx.vtS ∅) := by
  refine ⟨queued.toPointed.withFresh below free octets payload sdusIndex size payloadSize, ?_⟩
  intro at_ atLt held
  simp only [Transmitter.withFresh, setPdu_pduRetransBuffer, update_apply] at held ⊢
  split
  · exact ⟨.of_nil rfl, fun again => by simp [freshPdu, TxPdu.zeroed] at again⟩
  next apart =>
    rw [if_neg apart] at held
    exact queued.remembers at_ atLt held

variable {now requested : Nat} {pdus : List (List UInt8)}

theorem Queued.retransmitPdu (queued : tx.Queued origin missing)
    (window : tx.Window origin count base acked) (resends : tx.Resends requested)
    (part : ¬tx.ResendsWhole requested)
    (reaches : (tx.pduRetransBuffer tx.firstRetransPduSn.toNat).lastNacked =
      (tx.pduRetransBuffer tx.firstRetransPduSn.toNat).payloadSize - 1)
    (sent : tx.retransmitPdu now tx.firstRetransPduSn.toNat requested = some (some (other, pdus))) :
    other.Queued origin fun sn =>
      if sn = tx.firstRetransPduSn.toNat then missing sn \ tx.resentOctets requested
      else missing sn := by
  obtain ⟨sn, pointer, below, marks⟩ : ∃ sn : Nat, tx.firstRetransPduSn = sn ∧
      sn < rlcAmSnModulo ∧ tx.marks sn := by
    rcases queued.head with ⟨-, none⟩ | ⟨head, -, found, marks, -⟩
    · have := resends.1
      omega
    · exact ⟨_, found, snAt_lt _ _, marks⟩
  simp only [Transmitter.retransmitPdu] at sent
  rw [if_neg fun whole => part ⟨whole.1, whole.2.2⟩] at sent
  obtain ⟨-, sent⟩ : _ ∧ _ := by
    split at sent
    next room => exact ⟨room, sent⟩
    · cases sent
  obtain ⟨⟨sending, segment⟩, taken, moved⟩ := map_eq_some_iff.mp sent
  obtain rfl : _ = other := congrArg Prod.fst (Option.some.inj moved)
  have pointed := queued.toPointed.segment window resends.1 taken
  refine ⟨pointed, fun at_ atLt held => ?_⟩
  obtain ⟨octets, info, plan, pdu, block, decoded, planned, removed, polled⟩ :=
    retransmitGetSubsegment_spec taken
  have entries : sending.pduRetransBuffer =
      update tx.pduRetransBuffer tx.firstRetransPduSn.toNat pdu :=
    polled.kept pduRetransBuffer
  simp only [entries, update_apply] at held ⊢
  split
  next here =>
    rw [pointer, Int.toNat_natCast] at here block reaches planned removed
    rw [here]
    have heldBefore : (tx.pduRetransBuffer sn).memBlock.isSome := by rw [block]; rfl
    refine ((queued.remembers sn below heldBefore).segmented marks reaches planned removed).mono ?_
    rintro octet ⟨missed, outside⟩
    refine ⟨missed, fun resent => outside ?_⟩
    simp only [resentOctets, if_neg part, pointer, Int.toNat_natCast] at resent
    obtain ⟨octets', info', plan', block', decoded', planned', range⟩ := resent
    rw [block] at block'
    cases block'
    rw [decoded] at decoded'
    cases decoded'
    rw [planned] at planned'
    cases planned'
    exact range
  next apart =>
    rw [if_neg apart] at held
    exact queued.remembers at_ atLt held

theorem Queued.getPdus {block : Nat → UInt8} {missing : Nat → Set Int}
    (queued : tx.Queued tx.vtA missing) (window : tx.Window tx.vtA count 0 acked)
    (orderly : tx.Orderly (.getPdus now frame requested block))
    (sent : tx.getPdus now frame requested block = some (other, pdus)) :
    other.Queued other.vtA fun sn =>
      if other.vtS ≠ tx.vtS ∧ sn = tx.vtS then ∅
      else ResendHistory.missingAfter ⟨tx, missing⟩ (.getPdus now frame requested block) sn := by
  have vtSLt : tx.vtS < rlcAmSnModulo := window.vtS ▸ snAt_lt _ _
  simp only [ResendHistory.missingAfter]
  rcases getPdus_cases sent with ⟨resends, -, resent⟩ | ⟨idle, -, -, grant, copy, made, -⟩ |
    ⟨idle, -, forced, -, -, again⟩ | ⟨idle, -, rfl, -⟩
  · have same := (retransmitPdu_keeps resent).1
    obtain ⟨part, reaches⟩ := orderly.2 resends
    rw [same.vtA]
    refine (queued.retransmitPdu window resends part reaches resent).mono fun sn _ _ => ?_
    simp [same.vtS, resends]
  · rcases segment10_spec grant made with ⟨-, rfl, -⟩ |
      ⟨-, -, -, sending, octets, payload, sdusIndex, size, payloadSize, ⟨only, -⟩, -, fresh⟩
    · exact queued.mono fun sn _ _ => by simp [idle]
    · have vtS : sending.vtS = tx.vtS := only.kept Transmitter.vtS
      have vtA : other.vtA = tx.vtA :=
        (fresh.kept Transmitter.vtA).trans (only.kept Transmitter.vtA)
      have entries : sending.pduRetransBuffer = tx.pduRetransBuffer :=
        only.kept pduRetransBuffer
      have free : (sending.pduRetransBuffer sending.vtS).memBlock = none := by
        rw [entries, vtS, window.vtS]
        exact (window.clear count window.count_lt (Or.inr (Nat.le_refl _))).2
      have after := (queued.onlySdus only).withFresh (vtS ▸ vtSLt) free octets payload sdusIndex
        size payloadSize
      have next : other.vtS = nextSn tx.vtS := by
        rw [fresh.kept Transmitter.vtS, ← vtS]
        rfl
      rw [vtA]
      refine (after.onlyPolls fresh).mono fun sn _ _ => ?_
      rw [update_apply, vtS]
      simp [next, nextSn_ne, idle]
  · rcases retransmitAnyPdu_spec again with ⟨-, rfl, -⟩ | ⟨sn, marked, chosen, -⟩
    · exact queued.mono fun sn _ _ => by simp [idle]
    · rw [← forced, orderly.1] at chosen
      cases chosen
  · exact queued.mono fun sn _ _ => by simp [idle]

end Transmitter

end Queued

theorem ResendHistory.step_queued {history next : ResendHistory} {input : EntityInput}
    (window : history.tx.HasWindow) (queued : history.tx.Queued history.tx.vtA history.missing)
    (orderly : history.tx.Orderly input) (stepped : history.step input = some next) :
    next.tx.HasWindow ∧ next.tx.Queued next.tx.vtA next.missing := by
  obtain ⟨tx, taken, rfl⟩ := map_eq_some_iff.mp stepped
  refine ⟨step_hasWindow window taken, ?_⟩
  obtain ⟨count, acked, window⟩ := window
  cases input with
  | dataReq mui octets =>
    cases taken
    have only := (dataReq_movesSdus history.tx mui octets).only
    have vtA : (history.tx.dataReq mui octets).vtA = history.tx.vtA :=
      only.kept vtA
    have vtS : (history.tx.dataReq mui octets).vtS = history.tx.vtS :=
      only.kept vtS
    rw [vtA]
    refine (queued.onlySdus only).mono fun sn _ _ => ?_
    simp [vtS, ResendHistory.missingAfter]
  | getPdus now frame requested block =>
    obtain ⟨⟨other, pdus⟩, sent, rfl⟩ := map_eq_some_iff.mp taken
    exact queued.getPdus window orderly sent
  | statusPdu frame info =>
    have executed := receiveProcessControlPdu_reports taken
    obtain ⟨proper, -⟩ := history.tx.reports_proper window.bounded info
    have after := reports_queued queued window proper orderly executed
    obtain ⟨top, acked', kept, -⟩ := execute_window window proper executed
    have vtS : tx.vtS = history.tx.vtS := by rw [kept.vtS, window.vtS]
    refine Queued.mono ⟨after.toPointed.rebase kept, after.remembers⟩ fun sn _ _ => ?_
    simp [vtS, ResendHistory.missingAfter]
  | pollTimer now =>
    cases taken
    have only := checkTimerPollRetransmit_onlyPolls history.tx now
    have vtA : (history.tx.checkTimerPollRetransmit now).vtA = history.tx.vtA :=
      only.kept vtA
    have vtS : (history.tx.checkTimerPollRetransmit now).vtS = history.tx.vtS :=
      only.kept vtS
    rw [vtA]
    refine (queued.onlyPolls only).mono fun sn _ _ => ?_
    simp [vtS, ResendHistory.missingAfter]

theorem init_queued (config : TxConfiguration) :
    (init config).Queued (init config).vtA fun _ => ∅ where
  held := nofun
  head := Or.inl ⟨fun _ _ => rfl, rfl⟩
  remembers := nofun

/-- In every state reached in order, the pointer is at the lowest PDU to send
again, and a PDU that a grant would be used for misses some octet. -/
theorem retransmission_queue {config : TxConfiguration} {inputs : List EntityInput}
    {history : ResendHistory}
    (reached : execute ResendHistory.step (ResendHistory.init config) inputs = some history)
    (orderly : HoldsAlong ResendHistory.step (fun history input => history.tx.Orderly input)
      (ResendHistory.init config) inputs) :
    history.tx.HeadIsLowest ∧ ∀ requested, history.tx.Resends requested →
      (history.missing history.tx.firstRetransPduSn.toNat).Nonempty := by
  have kept : ∀ (state : ResendHistory) (input : EntityInput) (next : ResendHistory),
      state.tx.HasWindow ∧ state.tx.Queued state.tx.vtA state.missing → state.tx.Orderly input →
      state.step input = some next →
      next.tx.HasWindow ∧ next.tx.Queued next.tx.vtA next.missing :=
    fun state input next both orderly stepped => state.step_queued both.1 both.2 orderly stepped
  obtain ⟨⟨count, acked, window⟩, queued⟩ := execute_preserves_along kept
    ⟨(init_window config).hasWindow, init_queued config⟩ orderly reached
  refine ⟨queued.toPointed.headIsLowest window, fun requested resends => ?_⟩
  rcases queued.head with ⟨-, none⟩ | ⟨head, -, found, marks, -⟩
  · have := resends.1
    omega
  · have below := snAt_lt history.tx.vtA head
    have held := queued.held _ below marks
    rw [found, Int.toNat_natCast]
    exact ⟨_, (queued.remembers _ below held).last (Or.inl marks)⟩

def resentInSegments : List EntityInput :=
  [.dataReq 0 (List.replicate 10 7), .getPdus 0 0 12 fun _ => 0,
    .statusPdu 1 ⟨1, [⟨0, 0, 0x7FFF⟩]⟩, .getPdus 10 1 10 fun _ => 0]

theorem retransmission_queue_segments :
    ∃ history,
      execute ResendHistory.step (ResendHistory.init sendingConfiguration) resentInSegments =
        some history ∧ history.tx.Resends 10 ∧ history.tx.HeadIsLowest ∧
      (history.missing history.tx.firstRetransPduSn.toNat).Nonempty := by
  obtain ⟨history, reached, resends⟩ : ∃ history,
      execute ResendHistory.step (ResendHistory.init sendingConfiguration) resentInSegments =
        some history ∧ history.tx.Resends 10 := by
    decide +kernel
  obtain ⟨head, again⟩ := retransmission_queue reached (by decide +kernel)
  exact ⟨history, reached, resends, head, again 10 resends⟩

theorem ResendHistory.step_whole {history next : ResendHistory} {now frame requested : Nat}
    {block : Nat → UInt8} (resends : history.tx.Resends requested)
    (whole : history.tx.ResendsWhole requested)
    (stepped : history.step (.getPdus now frame requested block) = some next) :
    next.missing history.tx.firstRetransPduSn.toNat = ∅ := by
  obtain ⟨tx, -, rfl⟩ := map_eq_some_iff.mp stepped
  simp only [ResendHistory.missingAfter, resentOctets, resends, whole, and_self, if_true]
  split
  · rfl
  · exact Set.eq_empty_of_forall_notMem fun octet left => left.2 (Set.mem_univ octet)

def wholeMissing : List EntityInput :=
  [.dataReq 0 [1, 2, 3], .getPdus 0 0 5 fun _ => 0, .statusPdu 1 ⟨1, [⟨0, 0, 0x7FFF⟩]⟩]

/-- The pointer stays at a PDU that is copied as a whole, and the grant after
that is used for it again. -/
theorem not_head_copied_whole :
    ∃ history,
      execute ResendHistory.step (ResendHistory.init sendingConfiguration)
        (wholeMissing ++ [.getPdus 10 1 5 fun _ => 0]) = some history ∧
      ¬history.tx.HeadIsLowest ∧ history.tx.Resends 5 ∧
      history.missing history.tx.firstRetransPduSn.toNat = ∅ := by
  obtain ⟨history, reached, resends, whole, first⟩ : ∃ history,
      execute ResendHistory.step (ResendHistory.init sendingConfiguration) wholeMissing =
        some history ∧ history.tx.Resends 5 ∧ history.tx.ResendsWhole 5 ∧
      history.tx.firstRetransPduSn = 0 := by
    decide +kernel
  obtain ⟨last, ended, resendsAgain, stays, unmarked⟩ : ∃ last,
      execute ResendHistory.step (ResendHistory.init sendingConfiguration)
        (wholeMissing ++ [.getPdus 10 1 5 fun _ => 0]) = some last ∧ last.tx.Resends 5 ∧
      last.tx.firstRetransPduSn = 0 ∧ (last.tx.pduRetransBuffer 0).retransmit = false := by
    decide +kernel
  have stepped : history.step (.getPdus 10 1 5 fun _ => 0) = some last := by
    rw [execute_append, reached] at ended
    simpa [execute] using ended
  have missing := ResendHistory.step_whole resends whole stepped
  rw [first] at missing
  refine ⟨last, ended, ?_, resendsAgain, by rw [stays, missing]⟩
  rintro (⟨-, none⟩ | ⟨sn, found, ⟨-, -, marked⟩, -⟩)
  · omega
  · obtain rfl : sn = 0 := by omega
    rw [unmarked] at marked
    cases marked

end OpenAir.RlcAm
