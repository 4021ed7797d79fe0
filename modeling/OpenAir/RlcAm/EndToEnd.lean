import OpenAir.RlcAm.DeliveryProperties
import OpenAir.RlcAm.ReceiveSafety
import OpenAir.RlcAm.Reestablishment
import OpenAir.RlcAm.RoundTripProperties

/-! From the SDUs of a sender to those of a receiver, over a channel that loses,
repeats and reorders PDUs. -/

set_option autoImplicit false

namespace OpenAir.RlcAm

open OpenAir.Base List Transmitter Reassembly

/-- A whole PDU of which framing, length indicators and payload tell all that
reassembly looks at. -/
structure PduInfo.Regular (info : PduInfo) : Prop where
  rf : info.rf = false
  so : info.so = 0
  nonempty : info.payload ≠ []
  e : info.e = !info.liList.isEmpty
  payloadSize : info.payloadSize = info.payload.length
  hiddenSize : info.hiddenSize = info.payload.length - info.liList.sum

/-- The channel brings a PDU that was sent, within a window of those delivered. -/
def Channel (infos : List PduInfo) (rx : Receiver) : RxInput → Prop
  | .dataPdu _ octets => octets.length < 2 ^ 15 ∧ ∃ index < infos.length,
    getDataPduInfos octets = infos[index]? ∧ index ≤ rx.deliveredPdus + rlcAmWindowSize ∧
      rx.deliveredPdus ≤ index + rlcAmWindowSize
  | .timerCheck _ => True

section Sender

variable {tx next : Transmitter} {now requested : Nat} {block : Nat → UInt8}
  {lis after : List TxSdu} {last : TxSdu} {octets : List UInt8} {info : PduInfo}

theorem getDataPduInfos_rf (decoded : getDataPduInfos octets = some info) :
    info.rf = decide ((octetAt octets 0 >>> 6) &&& 0x01 = 1) ∧ (info.rf = false → info.so = 0) := by
  unfold getDataPduInfos at decoded
  dsimp only at decoded
  split at decoded
  · cases decoded
  · obtain ⟨_, -, rfl⟩ := Option.map_eq_some_iff.mp decoded
    exact ⟨rfl, fun whole => if_neg (Bool.eq_false_iff.mp whole)⟩

theorem segment10_regular (queue : tx.Queue (lis ++ last :: after)) (snLt : tx.vtS < rlcAmSnModulo)
    (clean : CleanPdu (tx.dataPduSize requested) lis last)
    (sent : tx.segment10 now requested block = some (next, some octets)) :
    ∃ info, getDataPduInfos octets = some info ∧ info.Regular := by
  obtain ⟨_, _, info, again, -, -, ⟨decoded, -, carries⟩, -⟩ :=
    @segment10_clean tx now requested lis after block last queue snLt clean
  cases sent.symm.trans again
  obtain ⟨sdusIndex, filling, made, ready, -, -⟩ :=
    @segment10_fills tx now requested lis after block last queue clean
  have positive := Nat.zero_lt_of_lt clean.begins
  obtain ⟨_, first, second, finished, -⟩ := @finishPdu_sends tx now _ _ sdusIndex filling _ _
    ready.queue positive ready.full ready.zero clean.short
  cases sent.symm.trans (made.trans finished)
  -- RF is clear whatever the framing, the number and the two poll bits are.
  have bits : ∀ fi < 4, ∀ extended : Bool, ∀ top < 4, ∀ first second : Bool,
      (setPoll second (setPoll first (UInt8.ofNat (0 ||| fi <<< 3 |||
        (if extended then 0x04 else 0) ||| 0x80 ||| top)))).toNat >>> 6 &&& 0x01 ≠ 1 := by
    decide +kernel
  have whole : info.rf = false := by
    rw [(getDataPduInfos_rf decoded).1, octetAt_load _ positive, store_first]
    refine decide_eq_false (bits _ ?_ _ (tx.vtS >>> 8) ?_ first second)
    · split_ifs <;> decide
    · simp only [rlcAmSnModulo] at snLt
      omega
  have total : (info.liList.sum : Int) = (lis.map TxSdu.restOctets).flatten.length := by
    rw [carries.liList, length_flatten]
  refine ⟨info, decoded, whole, (getDataPduInfos_rf decoded).2 whole, ?_, ?_, ?_, ?_⟩
  · rw [carries.payload]
    exact append_ne_nil_of_right_ne_nil _ ready.nonempty
  · simp [carries.extended, carries.liList]
  · rw [carries.payloadSize, carries.payload]
  · simp [carries.hiddenSize, carries.payload, total]

theorem Sending.sent_regular {config : TxConfiguration} {inputs : List TxInput}
    (sized : ∀ input ∈ inputs, Sized input)
    (clean : HoldsAlong Sending.step EndsCleanly (Sending.init config) inputs) :
    ∃ final, execute Sending.step (Sending.init config) inputs = some final ∧
      ∃ held infos state, final.Following held infos state ∧ ∀ info ∈ infos, info.Regular := by
  refine execute_invariant (fun sending input invariant sized clean => ?_)
    ⟨[], [], fresh, following_init config, fun _ none => absurd none not_mem_nil⟩ sized clean
  obtain ⟨held, infos, state, following, regular⟩ := invariant
  cases input with
  | dataReq mui octets =>
    obtain ⟨next, held, stepped, following⟩ := following.dataReq mui sized
    exact ⟨next, stepped, held, infos, state, following, regular⟩
  | grant now requested block =>
    obtain ⟨next, held', infos', state', stepped, after⟩ := following.grant now block clean
    refine ⟨next, stepped, held', infos', state', after, ?_⟩
    have decoded := after.decoded
    obtain ⟨⟨tx, pdu⟩, segmented, rfl⟩ := Option.map_eq_some_iff.mp stepped
    have queue := following.queue
    rw [EndsCleanly, queue.waiting_eq] at clean
    cases pdu with
    | none =>
      simp [following.decoded] at decoded
      exact decoded ▸ regular
    | some octets =>
      have snLt : sending.tx.vtS < rlcAmSnModulo := following.next ▸ Nat.mod_lt _ (by decide)
      rcases clean with rfl | ⟨lis, last, after, rfl, clean⟩
      · simp [segment10, queue.current_free] at segmented
      · rw [← dataPduSize_eq queue (by simp)] at clean
        obtain ⟨info, found, here⟩ := segment10_regular queue snLt clean segmented
        simp [following.decoded, found] at decoded
        rw [← decoded]
        exact forall_mem_append.mpr ⟨regular, forall_mem_singleton.mpr here⟩

end Sender

section Receiver

variable {info other : PduInfo} {infos : List PduInfo} {rx : Receiver}
  {inputs : List RxInput}

theorem PduInfo.Regular.reassemblePdu_eq (regular : info.Regular) (same : other.Regular)
    (payload : other.payload = info.payload) (fi : other.fi = info.fi)
    (liList : other.liList = info.liList) (state : Reassembly) :
    state.reassemblePdu other = state.reassemblePdu info := by
  simp only [reassemblePdu, same.e, same.payloadSize, same.hiddenSize, regular.e,
    regular.payloadSize, regular.hiddenSize, payload, fi, liList]

def sentPdu (infos : List PduInfo) (index : Nat) : AmdPdu :=
  infos[index]?.elim ⟨[], 0, []⟩ fun info => ⟨info.payload, info.fi, info.liList⟩

theorem isPart_sentPdu {index : Nat} (regular : info.Regular) (found : infos[index]? = some info)
    (sn : info.sn = index % rlcAmSnModulo) : IsPart (sentPdu infos) index info := by
  have same : sentPdu infos index = ⟨info.payload, info.fi, info.liList⟩ := by
    rw [sentPdu, found]
    rfl
  refine ⟨sn, regular.nonempty, ?_, fun _ => ?_, fun segment => ?_⟩
  · rw [same, regular.so, drop_zero, take_length]
  · rw [same]
    exact ⟨regular.so, rfl, rfl, rfl⟩
  · rw [regular.rf] at segment
    cases segment

theorem Along.imp {holds other : Receiver → RxInput → Prop} (along : Along holds rx inputs)
    (imp : ∀ rx input, holds rx input → other rx input) :
    Along other rx inputs := by
  induction inputs generalizing rx with
  | nil => exact trivial
  | cons input rest ih => exact ⟨imp _ _ along.1, ih along.2⟩

theorem Receiver.run_decoded {holds : PduInfo → Prop}
    (brings : Along (fun _ input => ∀ info, input.Brings info → holds info) rx inputs)
    (held : ∀ info ∈ rx.handed ++ rx.receiverBuffer.map RxPdu.info, holds info) :
    ∀ info ∈ (rx.run inputs).handed, holds info := by
  induction inputs generalizing rx with
  | nil => exact fun info mem => held info (mem_append_left _ mem)
  | cons input rest ih =>
    refine ih brings.2 ?_
    cases input with
    | timerCheck now =>
      obtain ⟨-, -, -, buffer, handed⟩ := rx.checkTimerReordering_sameDelivery now
      simpa only [step, buffer, handed] using held
    | dataPdu now octets =>
      rcases rx.receiveProcessDataPdu_infos now octets with
        ⟨handed, buffer⟩ | ⟨info, arrived, count, decoded, perm, handed, buffer⟩
      · simpa only [step, buffer, handed] using held
      · simp only [step, buffer, handed, append_assoc, take_append_drop]
        intro each mem
        rcases mem_append.mp mem with earlier | arrives
        · exact held each (mem_append_left _ earlier)
        · rcases mem_cons.mp (perm.mem_iff.mp arrives) with rfl | stored
          · exact brings.1 each decoded
          · exact held each (mem_append_right _ stored)

theorem HandedUpTo.reassembleAll_eq {handed : List PduInfo} {index offset : Nat}
    (reading : HandedUpTo (sentPdu infos) handed index offset)
    (sent : ∀ info ∈ infos, info.Regular) (regular : ∀ info ∈ handed, info.Regular)
    (state : Reassembly) :
    state.reassembleAll handed = state.reassembleAll (infos.take index) := by
  induction reading with
  | start => rfl
  | @segment handed index offset info earlier part starts opens ih =>
    simp [PduInfo.endsPdu, (regular info (by simp)).rf] at opens
  | @ending handed index offset info earlier part starts ends ih =>
    have same := ih fun other mem => regular other (mem_append_left _ mem)
    have here := regular info (by simp)
    obtain ⟨-, payload, fi, liList⟩ := part.whole here.rf
    rw [sentPdu] at payload fi liList
    cases found : infos[index]? with
    | none =>
      rw [found] at payload
      exact absurd payload part.nonempty
    | some original =>
      rw [found] at payload fi liList
      have step := (sent original (mem_of_getElem? found)).reassemblePdu_eq here payload fi liList
      rw [take_add_one, found]
      simp only [reassembleAll, foldlM_append] at same ⊢
      simp [same, step]

end Receiver

theorem Reassembly.reassembleAll_prefix {state final : Reassembly} {front back : List PduInfo}
    (reassembled : state.reassembleAll (front ++ back) = some final) :
    ∃ middle, state.reassembleAll front = some middle ∧ middle.dataInd <+: final.dataInd := by
  rw [reassembleAll, foldlM_append] at reassembled
  obtain ⟨middle, first, second⟩ := Option.bind_eq_some_iff.mp reassembled
  have split : middle = behind ⟨middle.outputSduInConstruction, []⟩ middle.dataInd := by
    simp [behind]
  rw [split] at second
  obtain ⟨rest, -, rfl⟩ := Option.map_eq_some_iff.mp ((reassembleAll_behind back).symm.trans second)
  exact ⟨middle, first, prefix_append _ _⟩

/-- Whatever is lost, repeated or reordered, the SDUs delivered are the first ones
that the sender accepted, and all of them once every PDU has been delivered. -/
theorem sdus_delivered_in_order {config : TxConfiguration} {inputs : List TxInput}
    (sized : ∀ input ∈ inputs, Sized input)
    (clean : HoldsAlong Sending.step EndsCleanly (Sending.init config) inputs)
    {final : Sending} {infos : List PduInfo}
    (executed : execute Sending.step (Sending.init config) inputs = some final)
    (sent : final.pdus.mapM getDataPduInfos = some infos)
    (msDuration : Nat) (arrivals : List RxInput)
    (channel : Along (Channel infos) (.init msDuration) arrivals)
    (checked : Along InsertionChecked (.init msDuration) arrivals) :
    ∃ state, fresh.reassembleAll ((Receiver.init msDuration).run arrivals).handed = some state ∧
      state.dataInd <+: final.queued ∧
      (((Receiver.init msDuration).run arrivals).deliveredPdus = infos.length →
        final.tx.waiting = [] → state.dataInd = final.queued) := by
  obtain ⟨_, again, held, _, state, following, regular⟩ := Sending.sent_regular sized clean
  cases executed.symm.trans again
  cases sent.symm.trans following.decoded
  have offered : Along (Offered (sentPdu infos)) (.init msDuration) arrivals := by
    refine channel.imp fun rx input brought => ?_
    cases input with
    | timerCheck now => exact trivial
    | dataPdu now octets =>
      obtain ⟨short, index, below, found, ahead, behind⟩ := brought
      refine ⟨index, short, fun info decoded => ?_, ahead, behind⟩
      rw [decoded] at found
      have sn := congrArg (·[index]?) following.numbers
      obtain ⟨_, here⟩ := List.getElem?_eq_some_iff.mp found.symm
      simp [below, here] at sn
      exact isPart_sentPdu (regular info (mem_of_getElem? found.symm)) found.symm sn
  have handed := @Receiver.run_decoded (.init msDuration) arrivals PduInfo.Regular
    (channel.imp fun rx input brought info brings => by
      cases input with
      | timerCheck now => cases brings
      | dataPdu now octets =>
        obtain ⟨-, index, -, found, -⟩ := brought
        exact regular info (mem_of_getElem? (found.symm.trans brings))) (by simp [Receiver.init])
  obtain ⟨count, consistent⟩ :=
    (consistent_init _ msDuration).run (inOrder_init msDuration) offered checked
  -- What was handed over reads the sent PDUs up to `count`.
  have same := consistent.reading.reassembleAll_eq regular handed fresh
  have whole := following.reassembled
  have balance := following.balance
  rw [← take_append_drop count infos] at whole
  obtain ⟨middle, first, before⟩ := reassembleAll_prefix whole
  refine ⟨middle, same.trans first, before.trans (balance ▸ prefix_append _ _),
    fun all drained => ?_⟩
  have counted : count = infos.length := consistent.reading.count.symm.trans all
  rw [counted, take_length, following.reassembled] at first
  rw [following.queue.waiting_eq] at drained
  cases first
  simpa [drained] using balance.symm

end OpenAir.RlcAm
