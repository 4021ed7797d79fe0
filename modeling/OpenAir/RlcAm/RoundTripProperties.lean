import OpenAir.Base.Execution
import OpenAir.RlcAm.ReassemblyProperties

/-! SDUs go through segmentation, decoding and reassembly unchanged, in runs
that accept SDUs and serve grants in any order. -/

set_option autoImplicit false

namespace OpenAir.RlcAm

open OpenAir.Base List Transmitter TxSdu Reassembly

/-- A request of the upper layer, or a grant of the lower one with the memory
block the pool gives for it. -/
inductive TxInput where
  | dataReq (mui : Nat) (octets : List UInt8)
  | grant (now requested : Nat) (block : Nat → UInt8)

/-- The transmitter with the SDUs it has accepted and the PDUs it has sent. -/
structure Sending where
  tx : Transmitter
  queued : List (List UInt8)
  pdus : List (List UInt8)

def Sending.init (config : TxConfiguration) : Sending :=
  ⟨Transmitter.init config, [], []⟩

def Sending.step (sending : Sending) : TxInput → Option Sending
  | .dataReq mui octets =>
    some
      { sending with
        tx := sending.tx.dataReq mui octets
        queued := if sending.tx.acceptsSdu then sending.queued ++ [octets] else sending.queued }
  | .grant now requested block =>
    (sending.tx.segment10 now requested block).map fun (tx, pdu) =>
      { sending with tx := tx, pdus := sending.pdus ++ pdu.toList }

/-- The PDUs decode with consecutive sequence numbers, and once no SDU waits a
fresh receiver has delivered the accepted SDUs. -/
def Sending.RoundTrip (sending : Sending) : Prop :=
  ∃ infos state, sending.pdus.mapM getDataPduInfos = some infos ∧
    infos.map PduInfo.sn = (List.range infos.length).map (· % rlcAmSnModulo) ∧
    fresh.reassembleAll infos = some state ∧
    (sending.tx.waiting = [] → state.dataInd = sending.queued)

def Sized : TxInput → Prop
  | .dataReq _ octets => 1 ≤ octets.length ∧ octets.length ≤ rlcSduMaxSize
  | .grant _ _ _ => True

/-- The grant, or less if the waiting SDUs with a length indicator for all but
one of them need less. -/
def pduLimit (waiting : List TxSdu) (requested : Nat) : Nat :=
  min requested (rlcAmHeaderMinSize + liSpace false (waiting.length - 1) + restSizes waiting)

/-- At a grant, the PDU of that size ends within a waiting SDU or at the end of
one, and neither the length fields nor the counts of the header are exceeded. -/
def EndsCleanly (sending : Sending) : TxInput → Prop
  | .dataReq _ _ => True
  | .grant _ requested _ =>
    sending.tx.waiting = [] ∨
      ∃ lis last after, sending.tx.waiting = lis ++ last :: after ∧
        CleanPdu (pduLimit sending.tx.waiting requested) lis last

def TxSdu.octets (sdu : TxSdu) : List UInt8 := sdu.memBlock.getD []

def begun : List TxSdu → Option (List UInt8)
  | [] => none
  | sdu :: _ =>
    if sdu.sduSegmentedSize = 0 then none else some (sdu.octets.take sdu.sduSegmentedSize)

/-- The SDUs accepted are those delivered followed by those waiting, and the
SDU in construction at the receiver is the part sent of the first one. -/
structure Sending.Following (sending : Sending) (held : List TxSdu) (infos : List PduInfo)
    (state : Reassembly) : Prop where
  queue : sending.tx.Queue held
  decoded : sending.pdus.mapM getDataPduInfos = some infos
  numbers : infos.map PduInfo.sn = (List.range infos.length).map (· % rlcAmSnModulo)
  next : sending.tx.vtS = infos.length % rlcAmSnModulo
  reassembled : fresh.reassembleAll infos = some state
  untouched : ∀ sdu ∈ held.tail, sdu.sduSegmentedSize = 0
  construction : state.outputSduInConstruction = begun held
  balance : sending.queued = state.dataInd ++ held.map octets
  short : ∀ sdu ∈ sending.queued, sdu.length ≤ rlcSduMaxSize

variable {tx : Transmitter} {held : List TxSdu} {sdu : TxSdu} {sending : Sending}
  {infos : List PduInfo}

theorem dataPduSize_eq (queue : tx.Queue held) (nonempty : held ≠ []) (requested : Nat) :
    tx.dataPduSize requested = pduLimit held requested := by
  have positive := length_pos_of_ne_nil nonempty
  have occupancy := queue.occupancy
  have count := queue.count
  have overhead : tx.maxLiOverhead = (liSpace false (held.length - 1) : Nat) := by
    obtain ⟨others, length⟩ : ∃ others, held.length = others + 1 := ⟨held.length - 1, by omega⟩
    obtain ⟨half, parity⟩ : ∃ half, others = 2 * half ∨ others = 2 * half + 1 :=
      ⟨others / 2, by omega⟩
    rw [maxLiOverhead]
    simp only [liSpace, Bool.false_eq_true, if_false]
    rcases parity with rfl | rfl
    · split <;> omega
    · split <;> omega
  rw [dataPduSize, pduLimit, occupancy, ← restSizes]
  omega

theorem following_init (config : TxConfiguration) :
    (Sending.init config).Following [] [] fresh where
  queue := Transmitter.Queue.init config
  decoded := rfl
  numbers := rfl
  next := rfl
  reassembled := rfl
  untouched := by simp
  construction := rfl
  balance := rfl
  short := by simp [Sending.init]

theorem begun_append (whole : sdu.sduSegmentedSize = 0) :
    begun (held ++ [sdu]) = begun held := by
  cases held <;> simp [begun, whole]

variable {state : Reassembly} {taken : Nat} {last : TxSdu} {after : List TxSdu}

theorem Sending.Following.dataReq (following : sending.Following held infos state) (mui : Nat)
    {octets : List UInt8} (sized : 1 ≤ octets.length ∧ octets.length ≤ rlcSduMaxSize) :
    ∃ next held, sending.step (.dataReq mui octets) = some next ∧
      next.Following held infos state := by
  obtain ⟨queue, decoded, numbers, next, reassembled, untouched, construction, balance, short⟩ :=
    following
  by_cases accepts : sending.tx.acceptsSdu
  · have small : octets.length < 2 ^ 16 := by
      have limit := sized.2
      simp only [rlcSduMaxSize] at limit
      omega
    have some_octet : octets ≠ [] := ne_nil_of_length_pos sized.1
    refine ⟨_, held ++ [Transmitter.Queue.accepted mui octets], rfl,
      queue.dataReq mui some_octet small accepts, decoded, numbers, ?_, reassembled, ?_, ?_, ?_, ?_⟩
    · simp only [Transmitter.dataReq, accepts, if_true]
      exact next
    · intro sdu mem
      cases held with
      | nil => simp at mem
      | cons first rest =>
        rcases mem_append.mp mem with mem | mem
        · exact untouched sdu mem
        · obtain rfl := mem_singleton.mp mem
          rfl
    · rw [begun_append rfl]
      exact construction
    · simp only [accepts, if_true, balance, map_append, append_assoc]
      rfl
    · intro sdu mem
      simp only [accepts, if_true] at mem
      rcases mem_append.mp mem with mem | mem
      · exact short sdu mem
      · obtain rfl := mem_singleton.mp mem
        exact sized.2
  · refine ⟨sending, held, ?_, queue, decoded, numbers, next, reassembled, untouched,
      construction, balance, short⟩
    simp [Sending.step, Transmitter.dataReq, accepts]

theorem begun_getD (first : TxSdu) (rest : List TxSdu) :
    (begun (first :: rest)).getD [] = first.octets.take first.sduSegmentedSize := by
  by_cases whole : first.sduSegmentedSize = 0
  · simp [begun, whole]
  · simp [begun, whole]

theorem restOctets_of_untouched (untouched : sdu.sduSegmentedSize = 0) :
    sdu.restOctets = sdu.octets := by
  simp [restOctets, octets, untouched]

theorem take_append_restOctets (sdu : TxSdu) :
    sdu.octets.take sdu.sduSegmentedSize ++ sdu.restOctets = sdu.octets :=
  take_append_drop _ _

section Deliver

variable {state : Reassembly} {lis after : List TxSdu} {last : TxSdu}

theorem completed_lis (construction : state.outputSduInConstruction = begun (lis ++ last :: after))
    (untouched : ∀ sdu ∈ (lis ++ last :: after).tail, sdu.sduSegmentedSize = 0) :
    (state.completed (lis.map restOctets)).dataInd =
        state.dataInd ++ lis.map octets ∧
      (state.completed (lis.map restOctets)).pending =
        last.octets.take last.sduSegmentedSize := by
  cases lis with
  | nil =>
    simp [Reassembly.completed, completes, Reassembly.pending, construction, begun_getD]
  | cons first rest =>
    simp only [cons_append, tail_cons] at construction untouched
    have pending : state.pending = first.octets.take first.sduSegmentedSize := by
      rw [Reassembly.pending, construction, begun_getD]
    have others : rest.map restOctets = rest.map octets :=
      map_congr_left fun sdu mem =>
        restOctets_of_untouched (untouched sdu (mem_append_left _ mem))
    have lastUntouched := untouched last (by simp)
    refine ⟨?_, ?_⟩
    · simp [Reassembly.completed, completes, pending, take_append_restOctets, others]
    · simp [Reassembly.completed, Reassembly.pending, lastUntouched]

theorem completes_lis (construction : state.outputSduInConstruction = begun (lis ++ last :: after))
    (untouched : ∀ sdu ∈ (lis ++ last :: after).tail, sdu.sduSegmentedSize = 0)
    (piece : List UInt8) :
    completes state.pending (lis.map restOctets ++ [piece]) =
      lis.map octets ++ [last.octets.take last.sduSegmentedSize ++ piece] := by
  obtain ⟨delivered, pending⟩ := completed_lis construction untouched
  have joined := congrArg dataInd
    (completed_append state (lis.map restOctets) piece)
  rw [delivered, pending] at joined
  simpa [completed] using joined

end Deliver

theorem begun_of_whole (queue : tx.Queue held) (nonempty : held ≠ [])
    (whole : (tx.inputSdus tx.currentSduIndex).sduRemainingSize =
      (tx.inputSdus tx.currentSduIndex).sduSize) : begun held = none := by
  cases held with
  | nil => exact absurd rfl nonempty
  | cons first rest =>
    obtain ⟨octets, holds⟩ := queue.each first (mem_cons_self ..)
    rw [queue.head, holds.size, ← holds.parts] at whole
    have unsent : first.sduSegmentedSize = 0 := by omega
    simp [begun, unsent]

theorem cutFirst_part (part : taken ≠ last.sduRemainingSize) (after : List TxSdu) :
    ∃ rest, cutFirst taken last after = rest :: after ∧ rest.octets = last.octets ∧
      rest.sduSegmentedSize = last.sduSegmentedSize + taken := by
  rw [cutFirst, if_neg part]
  exact ⟨_, rfl, rfl, rfl⟩

theorem mem_tail_cutFirst (mem : sdu ∈ (cutFirst taken last after).tail) : sdu ∈ after := by
  rw [cutFirst] at mem
  split at mem
  · exact mem_of_mem_tail mem
  · exact mem

theorem reassemblePdu_cut {lis : List TxSdu} {info : PduInfo} {starts : Bool} {sn : Nat}
    (construction : state.outputSduInConstruction = begun (lis ++ last :: after))
    (untouched : ∀ sdu ∈ (lis ++ last :: after).tail, sdu.sduSegmentedSize = 0)
    (opens : starts → begun (lis ++ last :: after) = none) (positive : 0 < taken)
    (within : taken ≤ last.sduRemainingSize)
    (pieces : ∀ sdu ∈ lis ++ [last], sdu.restOctets.length = sdu.sduRemainingSize ∧
      0 < sdu.sduRemainingSize) (short : ∀ sdu ∈ lis ++ [last], sdu.octets.length ≤ rlcSduMaxSize)
    (carries : Carries info starts (decide (taken = last.sduRemainingSize))
      (lis.map restOctets) (last.restOctets.take taken)) :
    ∃ next, state.reassemblePdu info = some next ∧
      next.outputSduInConstruction = begun (cutFirst taken (last.marked sn) after) ∧
      next.dataInd ++ (cutFirst taken (last.marked sn) after).map octets =
        state.dataInd ++ (lis ++ last :: after).map octets := by
  obtain ⟨delivered, pending⟩ := completed_lis construction untouched
  have ended := completes_lis construction untouched (last.restOctets.take taken)
  have lastLength := (pieces last (by simp)).1
  have result := reassemblePdu_carries carries (fun first => construction.trans (opens first))
    (by
      intro piece mem
      rcases mem_append.mp mem with mem | mem
      · obtain ⟨sdu, isLi, rfl⟩ := List.mem_map.mp mem
        obtain ⟨length, some_octet⟩ := pieces sdu (mem_append_left _ isLi)
        exact ne_nil_of_length_pos (by omega)
      · obtain rfl := mem_singleton.mp mem
        refine ne_nil_of_length_pos ?_
        rw [length_take]
        omega)
    (by
      rw [ended]
      intro sdu mem
      rcases mem_append.mp mem with mem | mem
      · obtain ⟨original, isLi, rfl⟩ := List.mem_map.mp mem
        exact short original (mem_append_left _ isLi)
      · obtain rfl := mem_singleton.mp mem
        have bound := short last (by simp)
        have prefixed := length_take_le' taken last.restOctets
        rw [← take_append_restOctets last, length_append] at bound
        rw [length_append]
        omega)
  refine ⟨_, result, ?_⟩
  by_cases whole : taken = last.sduRemainingSize
  · have all : last.restOctets.take taken = last.restOctets :=
      take_of_length_le (by omega)
    have gone : cutFirst taken (last.marked sn) after = after := if_pos whole
    have nothing : begun after = none := by
      cases after with
      | nil => rfl
      | cons first rest =>
        have unsent := untouched first (by cases lis <;> simp)
        simp [begun, unsent]
    rw [gone, nothing, ← whole, completed_append, delivered, pending, all, take_append_restOctets]
    simp
  · obtain ⟨rest, gone, same, sent⟩ := @cutFirst_part taken (last.marked sn) whole after
    have octets : rest.octets = last.octets := same
    have segmented : rest.sduSegmentedSize = last.sduSegmentedSize + taken := sent
    have some_sent : ¬ last.sduSegmentedSize + taken = 0 := by omega
    simp only [whole, decide_false, Bool.false_eq_true, if_false]
    rw [gone, delivered, pending]
    refine ⟨?_, ?_⟩
    · simp only [begun, octets, segmented, some_sent, if_false, take_add]
      rfl
    · simp [octets]

theorem Sending.Following.grant (following : sending.Following held infos state) (now : Nat)
    {requested : Nat} (block : Nat → UInt8)
    (clean : EndsCleanly sending (.grant now requested block)) :
    ∃ next held infos state, sending.step (.grant now requested block) = some next ∧
      next.Following held infos state := by
  obtain ⟨queue, decoded, numbers, next, reassembled, untouched, construction, balance, short⟩ :=
    following
  rw [EndsCleanly, queue.waiting_eq] at clean
  rcases clean with rfl | ⟨lis, last, after, rfl, clean⟩
  · refine ⟨sending, [], infos, state, ?_, queue, decoded, numbers, next, reassembled, untouched,
      construction, balance, short⟩
    have idle : sending.tx.segment10 now requested block = some (sending.tx, none) := by
      simp [segment10, queue.current_free]
    simp [Sending.step, idle]
  · rw [← dataPduSize_eq queue (by simp)] at clean
    have sn_lt : sending.tx.vtS < rlcAmSnModulo := next ▸ Nat.mod_lt _ (by decide)
    obtain ⟨tx, octets, info, segmented, tx_queue, tx_vtS, ⟨info_decoded, info_sn, carries⟩, -⟩ :=
      @segment10_clean sending.tx now requested lis after block last queue sn_lt clean
    have positive : 0 < CleanPdu.taken (sending.tx.dataPduSize requested) lis :=
      Nat.sub_pos_of_lt clean.begins
    have within : CleanPdu.taken (sending.tx.dataPduSize requested) lis ≤ last.sduRemainingSize :=
      Nat.sub_le_iff_le_add'.mpr clean.ends
    have held_mem : ∀ sdu ∈ lis ++ [last], sdu ∈ lis ++ last :: after := by
      intro sdu mem
      simp only [mem_append, mem_cons] at mem ⊢
      tauto
    obtain ⟨received, reassembledPdu, construction, balanced⟩ :=
      @reassemblePdu_cut state _ last after lis info _ sending.tx.vtS construction untouched
        (fun whole => begun_of_whole queue (by simp) (of_decide_eq_true whole)) positive within
        (by
          intro sdu mem
          obtain ⟨octets, holds⟩ := queue.each sdu (held_mem sdu mem)
          exact ⟨holds.length_restOctets, holds.left⟩)
        (by
          intro sdu mem
          refine short sdu.octets ?_
          rw [balance]
          exact mem_append_right _ (List.mem_map_of_mem (held_mem sdu mem)))
        carries
    refine ⟨⟨tx, sending.queued, sending.pdus ++ [octets]⟩, _, infos ++ [info], received, ?_,
      tx_queue, ?_, ?_, ?_, ?_, ?_, construction, balance.trans balanced.symm, short⟩
    · simp [Sending.step, segmented]
    · simp [decoded, info_decoded]
    · simp [numbers, range_succ, info_sn, next]
    · rw [tx_vtS, next, length_append, length_singleton]
      simp [nextSn, Nat.mod_add_mod]
    · simp [reassembleAll, foldlM_append] at reassembled ⊢
      rw [reassembled]
      simpa using reassembledPdu
    · intro sdu mem
      refine untouched sdu ?_
      have later := mem_tail_cutFirst mem
      cases lis with
      | nil => exact later
      | cons first rest => simp [later]

theorem Sending.Following.roundTrip (following : sending.Following held infos state) :
    sending.RoundTrip := by
  refine ⟨infos, state, following.decoded, following.numbers, following.reassembled, ?_⟩
  intro drained
  have balance := following.balance
  rw [following.queue.waiting_eq] at drained
  simpa [drained] using balance.symm

theorem segmentation_round_trip (config : TxConfiguration) (inputs : List TxInput)
    (sized : ∀ input ∈ inputs, Sized input)
    (clean : HoldsAlong Sending.step EndsCleanly (Sending.init config) inputs) :
    ∃ final, execute Sending.step (Sending.init config) inputs = some final ∧
      final.RoundTrip := by
  have kept : ∀ sending input,
      (∃ held infos state, Sending.Following sending held infos state) → Sized input →
      EndsCleanly sending input → ∃ next, sending.step input = some next ∧
        ∃ held infos state, next.Following held infos state := by
    intro sending input following sized clean
    obtain ⟨held, infos, state, following⟩ := following
    cases input with
    | dataReq mui octets =>
      obtain ⟨next, held, stepped, following⟩ := following.dataReq mui sized
      exact ⟨next, stepped, held, infos, state, following⟩
    | grant now requested block =>
      obtain ⟨next, held, infos, state, stepped, following⟩ := following.grant now block clean
      exact ⟨next, stepped, held, infos, state, following⟩
  obtain ⟨final, ended, held, infos, state, following⟩ :=
    execute_invariant kept ⟨[], [], fresh, following_init config⟩ sized clean
  exact ⟨final, ended, following.roundTrip⟩

instance decidableSized : ∀ input, Decidable (Sized input)
  | .dataReq _ octets =>
    inferInstanceAs (Decidable (1 ≤ octets.length ∧ octets.length ≤ rlcSduMaxSize))
  | .grant _ _ _ => isTrue trivial

instance decidableCleanPdu (size : Nat) (lis : List TxSdu) (last : TxSdu) :
    Decidable (CleanPdu size lis last) :=
  decidable_of_iff' _ (cleanPdu_iff size lis last)

private theorem exists_split_iff {waiting : List TxSdu} {holds : List TxSdu → TxSdu → Prop} :
    (∃ lis last after, waiting = lis ++ last :: after ∧ holds lis last) ↔
      ∃ count < waiting.length, ∃ last ∈ (waiting.drop count).head?,
        holds (waiting.take count) last := by
  constructor
  · rintro ⟨lis, last, after, rfl, held⟩
    exact ⟨lis.length, by simp, last, by simp, by simpa using held⟩
  · rintro ⟨count, below, last, found, held⟩
    cases rest : waiting.drop count with
    | nil => simp [rest] at found
    | cons first after =>
      simp only [rest, head?_cons, Option.mem_def, Option.some.injEq] at found
      subst found
      exact ⟨waiting.take count, first, after, by rw [← rest, take_append_drop], held⟩

instance decidableEndsCleanly (sending : Sending) : ∀ input, Decidable (EndsCleanly sending input)
  | .dataReq _ _ => isTrue trivial
  | .grant _ requested _ =>
    decidable_of_iff
      (sending.tx.waiting = [] ∨
        ∃ count < sending.tx.waiting.length, ∃ last ∈ (sending.tx.waiting.drop count).head?,
          CleanPdu (pduLimit sending.tx.waiting requested) (sending.tx.waiting.take count) last)
      (or_congr Iff.rfl exists_split_iff.symm)

def pollingConfiguration : TxConfiguration :=
  { maxRetxThreshold := 4, pollPdu := 8, pollByte := 1024, tPollRetransmit := 50 }

/-- Two SDUs of five octets and two grants, the first of `first` octets. -/
def twoSduInputs (first : Nat) : List TxInput :=
  [.dataReq 0 [1, 2, 3, 4, 5], .dataReq 1 [6, 7, 8, 9, 10],
    .grant 0 first fun _ => 0, .grant 1 10 fun _ => 0]

theorem segmentation_round_trip_two_sdus :
    ∃ final, execute Sending.step (Sending.init pollingConfiguration) (twoSduInputs 10) =
      some final ∧ final.RoundTrip :=
  segmentation_round_trip pollingConfiguration (twoSduInputs 10) (by decide) (by decide +kernel)

def Sending.delivered (sending : Sending) : Option (List (List UInt8)) :=
  (sending.pdus.mapM getDataPduInfos).bind fun infos =>
    (fresh.reassembleAll infos).map dataInd

theorem Sending.RoundTrip.delivered_eq (roundTrip : sending.RoundTrip)
    (drained : sending.tx.waiting = []) : sending.delivered = some sending.queued := by
  obtain ⟨infos, state, decoded, -, reassembled, same⟩ := roundTrip
  simp [Sending.delivered, decoded, reassembled, same drained]

/-- With a first grant of eight octets the PDU has room for the first SDU and
one octet more, which stays as the pool gave it and is sent. -/
theorem not_round_trip_spare_octet :
    ¬ ∃ final, execute Sending.step (Sending.init pollingConfiguration) (twoSduInputs 8) =
      some final ∧ final.RoundTrip := by
  rintro ⟨final, ended, roundTrip⟩
  have outcome : (execute Sending.step (Sending.init pollingConfiguration) (twoSduInputs 8)).map
      (fun sending => (decide (sending.tx.waiting = []), sending.delivered, sending.queued)) =
      some (true, some [[1, 2, 3, 4, 5, 0], [6, 7, 8, 9, 10]],
        [[1, 2, 3, 4, 5], [6, 7, 8, 9, 10]]) := by
    decide +kernel
  rw [ended] at outcome
  simp only [Option.map_some, Option.some.injEq, Prod.mk.injEq, decide_eq_true_eq] at outcome
  obtain ⟨drained, delivered, queued⟩ := outcome
  rw [roundTrip.delivered_eq drained, queued] at delivered
  exact absurd delivered (by decide)

end OpenAir.RlcAm
