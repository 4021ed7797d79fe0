import Mathlib.Algebra.Order.BigOperators.Group.List
import OpenAir.RlcAm.HeaderSafety
import OpenAir.RlcAm.LinkedBuffer
import OpenAir.RlcAm.GrantProperties

/-! When `rlc_am_receive_routing` gets through a list of transport blocks. A block
that is malformed fails an assertion: octets behind a control PDU, a control PDU
that is no STATUS PDU, 1023 NACKs, a range of a NACK that cannot be recorded, an
SDU of no octets or of more than `RLC_SDU_MAX_SIZE`. -/

set_option autoImplicit false

namespace OpenAir.RlcAm

open OpenAir.Base List Option Reassembly Entity PduInfo

/-! Reassembly. -/

def Reassembly.size (state : Reassembly) : Nat :=
  (state.outputSduInConstruction.getD []).length

def PduInfo.continued (info : PduInfo) : Nat :=
  if info.fi &&& 2 = 0 then 0 else info.liList.headD info.payloadSize.toNat

structure PduInfo.Filled (info : PduInfo) : Prop where
  extended : info.e = true ↔ info.liList ≠ []
  positive : ∀ li ∈ info.liList, 0 < li
  account : (info.liList.sum : Int) + info.hiddenSize = info.payloadSize
  hidden : 0 < info.hiddenSize

section Reassembly

variable {state : Reassembly} {info : PduInfo}

theorem length_payloadOctets (payload : List UInt8) (offset length : Nat) :
    (payloadOctets payload offset length).length = length := by
  simp [payloadOctets]

theorem Reassembly.reassembly_size {source : List UInt8} (some_ : 0 < source.length)
    (fits : state.size + source.length ≤ rlcSduMaxSize) :
    (state.reassembly source).outputSduInConstruction ≠ some [] ∧
      (state.reassembly source).size = state.size + source.length := by
  simp only [reassembly, size] at *
  rw [if_pos fits]
  refine ⟨fun empty => ?_, by simp⟩
  have lengths := congrArg List.length (Option.some.inj empty)
  rw [length_append, length_nil] at lengths
  omega

theorem Reassembly.sendSdu_returns (started : state.outputSduInConstruction ≠ some []) :
    ∃ next, state.sendSdu = some next ∧ next.outputSduInConstruction = none := by
  cases held : state.outputSduInConstruction with
  | none => exact ⟨state, by simp only [sendSdu, held], held⟩
  | some octets =>
    cases octets with
    | nil => exact absurd held started
    | cons octet octets =>
      exact ⟨⟨none, state.dataInd ++ [octet :: octets]⟩, by simp only [sendSdu, held], rfl⟩

theorem Reassembly.sendSduIf_returns {condition : Bool}
    (started : state.outputSduInConstruction ≠ some []) :
    ∃ next, state.sendSduIf condition = some next ∧ next.outputSduInConstruction ≠ some [] ∧
      next.size ≤ state.size ∧ (condition → next.size = 0) := by
  cases condition with
  | false => exact ⟨state, rfl, started, le_rfl, nofun⟩
  | true =>
    obtain ⟨next, sent, none⟩ := sendSdu_returns started
    exact ⟨next, sent, by simp [none], by simp [size, none], fun _ => by simp [size, none]⟩

theorem Reassembly.reassembleLis_returns {payload : List UInt8} {offset li : Nat} {lis : List Nat}
    (positive : ∀ each ∈ li :: lis, 0 < each) (first : state.size + li ≤ rlcSduMaxSize)
    (others : ∀ each ∈ lis, each ≤ rlcSduMaxSize) :
    ∃ next, state.reassembleLis payload offset (li :: lis) =
        some (next, offset + (li :: lis).sum) ∧
      next.outputSduInConstruction = none := by
  induction lis generalizing state offset li with
  | nil =>
    obtain ⟨started, -⟩ := @reassembly_size state (payloadOctets payload offset li)
      (by simpa [length_payloadOctets] using positive) (by rwa [length_payloadOctets])
    obtain ⟨next, sent, none⟩ := sendSdu_returns started
    exact ⟨next, by simp [reassembleLis, sent], none⟩
  | cons second lis ih =>
    rw [forall_mem_cons] at positive others
    obtain ⟨started, -⟩ := @reassembly_size state (payloadOctets payload offset li)
      (by simpa [length_payloadOctets] using positive.1) (by rwa [length_payloadOctets])
    obtain ⟨next, sent, none⟩ := sendSdu_returns started
    have empty : next.size = 0 := by simp [size, none]
    obtain ⟨final, taken, done⟩ := @ih next (offset + li) second positive.2
      (by rw [empty]; omega) others.2
    refine ⟨final, ?_, done⟩
    rw [reassembleLis, sent, bind_some, taken, Nat.add_assoc, ← sum_cons]

theorem Reassembly.reassemblePdu_returns (filled : info.Filled)
    (started : state.outputSduInConstruction ≠ some [])
    (construction : state.size + info.continued ≤ rlcSduMaxSize)
    (payload : info.payloadSize ≤ rlcSduMaxSize) :
    ∃ next, state.reassemblePdu info = some next ∧ next.outputSduInConstruction ≠ some [] ∧
      (next.size ≤ state.size + info.continued ∨ (next.size : Int) ≤ info.payloadSize) := by
  obtain ⟨extended, positive, account, hidden⟩ := filled
  obtain ⟨begun, sent, begunStarted, shorter, fresh⟩ :=
    @sendSduIf_returns state (decide (info.fi &&& 2 = 0)) started
  -- what the first SDU of the PDU finds in construction
  have room : begun.size + info.liList.headD info.payloadSize.toNat ≤ state.size + info.continued ∨
      begun.size = 0 := by
    by_cases starts : info.fi &&& 2 = 0
    · exact Or.inr (fresh (decide_eq_true starts))
    · rw [continued, if_neg starts]
      omega
  rw [reassemblePdu, sent, bind_some]
  cases lis : info.liList with
  | nil =>
    have notExtended : info.e = false := by
      rw [← Bool.not_eq_true, extended, lis]
      exact not_not.mpr rfl
    rw [lis, headD_nil] at room
    have fits : begun.size + info.payloadSize.toNat ≤ rlcSduMaxSize := by omega
    rw [if_pos notExtended]
    obtain ⟨built, size⟩ := @reassembly_size begun
      (payloadOctets info.payload 0 info.payloadSize.toNat)
      (by rw [length_payloadOctets]; omega) (by rwa [length_payloadOctets])
    obtain ⟨next, ended, nextStarted, nextShorter, -⟩ :=
      @sendSduIf_returns _ (decide (info.fi &&& 1 = 0)) built
    refine ⟨next, ended, nextStarted, ?_⟩
    rw [size, length_payloadOctets] at nextShorter
    omega
  | cons li lis' =>
    rw [lis, headD_cons] at room
    rw [lis] at positive extended account
    have sum : (li :: lis').sum ≤ rlcSduMaxSize := by omega
    have each : ∀ one ∈ li :: lis', one ≤ rlcSduMaxSize := fun one mem =>
      (single_le_sum (fun _ _ => Nat.zero_le _) one mem).trans sum
    obtain ⟨taken, passed, none⟩ := @reassembleLis_returns begun info.payload 0 li lis'
      positive (by have := each li (mem_cons_self ..); omega)
      fun one mem => each one (mem_cons_of_mem _ mem)
    have empty : taken.size = 0 := by simp [size, none]
    rw [if_neg (by rw [extended.mpr nofun]; nofun), passed, bind_some]
    simp only
    rw [if_pos hidden]
    obtain ⟨built, size⟩ := @reassembly_size taken
      (payloadOctets info.payload (0 + (li :: lis').sum) info.hiddenSize.toNat)
      (by rw [length_payloadOctets]; omega) (by rw [length_payloadOctets, empty]; omega)
    obtain ⟨next, ended, nextStarted, nextShorter, -⟩ :=
      @sendSduIf_returns _ (decide (info.fi &&& 1 = 0)) built
    refine ⟨next, ended, nextStarted, Or.inr ?_⟩
    rw [size, length_payloadOctets] at nextShorter
    omega

/-- PDUs are reassembled if the SDU in construction, or the last one of any of
them, could take all that they continue. -/
theorem Reassembly.reassembleAll_returns {infos : List PduInfo}
    (filled : ∀ info ∈ infos, info.Filled) (started : state.outputSduInConstruction ≠ some [])
    (construction : state.size + (infos.map continued).sum ≤ rlcSduMaxSize)
    (payloads : ∀ info ∈ infos, info.payloadSize + (infos.map continued).sum ≤ rlcSduMaxSize) :
    ∃ next, state.reassembleAll infos = some next ∧ next.outputSduInConstruction ≠ some [] := by
  induction infos generalizing state with
  | nil => exact ⟨state, rfl, started⟩
  | cons info infos ih =>
    rw [forall_mem_cons] at filled payloads
    simp only [map_cons, sum_cons] at construction payloads
    obtain ⟨next, taken, nextStarted, size⟩ := reassemblePdu_returns filled.1 started
      (by omega) (by omega)
    obtain ⟨final, rest, finalStarted⟩ := ih filled.2 nextStarted (by omega)
      fun other mem => by have := payloads.2 other mem; omega
    refine ⟨final, ?_, finalStarted⟩
    rw [reassembleAll, foldlM_cons, taken]
    exact rest

end Reassembly

/-! Blocks. -/

def payloadLength (octets : List UInt8) (lis : List Nat) : Nat :=
  octets.length - (fixedHeaderSize (octets.getD · 0) + liSpace false lis.length)

/-- The octets that a PDU adds to the SDU of the PDU before it: the first bit of
FI tells whether there are any. -/
def continuedLength (octets : List UInt8) (lis : List Nat) : Nat :=
  if bitAt (octets.getD · 0) 3 = true then lis.headD (payloadLength octets lis) else 0

private theorem continues_bit : ∀ octet < 256,
    ((octet >>> 3) &&& 0x03) &&& 2 = 0 ↔ octet.testBit 4 = false := by
  decide +kernel

private theorem control_bit : ∀ octet < 256,
    octet &&& 0x80 = 0x80 ↔ octet.testBit 7 := by
  decide +kernel

variable {octets : List UInt8}

theorem data_iff_bit : octetAt octets 0 &&& 0x80 = 0x80 ↔ bitAt (octets.getD · 0) 0 := by
  exact control_bit _ (octets.getD 0 0).toNat_lt

theorem control_of_dC (dC : field (octets.getD · 0) 0 1 = 0) :
    ¬octetAt octets 0 &&& 0x80 = 0x80 := by
  rw [data_iff_bit]
  intro data
  rw [field, data] at dC
  cases dC

theorem WellFormedHeader.parsed {lis : List Nat} (formed : WellFormedHeader octets lis) :
    ∃ info, getDataPduInfos octets = some info ∧
      info.Filled ∧ info.continued = continuedLength octets lis ∧
      info.payloadSize = payloadLength octets lis := by
  obtain ⟨info, parsed, liList, headerSize, payloadSize, hiddenSize, last⟩ := formed.infos
  have data := (first_octet_spec octets).1.mp formed.data
  have payload : info.payloadSize = payloadLength octets lis := by
    rw [payloadLength]
    omega
  have flags : info.e = decide ((octetAt octets 0 >>> 2) &&& 0x01 = 1) ∧
      info.fi = (octetAt octets 0 >>> 3) &&& 0x03 := by
    rw [getDataPduInfos, if_neg data] at parsed
    obtain ⟨read, -, rfl⟩ := map_eq_some_iff.mp parsed
    exact ⟨rfl, rfl⟩
  refine ⟨info, parsed, ⟨?_, ?_, ?_, ?_⟩, ?_, payload⟩
  · rw [flags.1, decide_eq_true_iff, liList]
    exact formed.headerFits.extended
  · rw [liList]
    exact formed.positive
  · rw [liList, hiddenSize]
    omega
  · exact last
  · have bit : bitAt (octets.getD · 0) 3 = (octets.getD 0 0).toNat.testBit 4 :=
      bitAt_octet (octets.getD · 0) 0 3 (by omega)
    rw [continued, continuedLength, flags.2, liList, payload, bit]
    simp only [octetAt, continues_bit _ (octets.getD 0 0).toNat_lt]
    cases (octets.getD 0 0).toNat.testBit 4 with
    | false => rfl
    | true => rfl

/-- The SDU in construction and the SDUs that the PDUs waiting may begin have room
for all that could be added to them. -/
structure Entity.HasRoom (entity : Entity) (octets : List UInt8) (lis : List Nat) : Prop where
  construction : entity.reassembly.size +
    (continuedLength octets lis +
      (entity.rx.receiverBuffer.map fun pdu => pdu.info.continued).sum) ≤ rlcSduMaxSize
  arriving : payloadLength octets lis +
    (continuedLength octets lis +
      (entity.rx.receiverBuffer.map fun pdu => pdu.info.continued).sum) ≤ rlcSduMaxSize
  waiting : ∀ pdu ∈ entity.rx.receiverBuffer, pdu.info.payloadSize +
    (continuedLength octets lis +
      (entity.rx.receiverBuffer.map fun pdu => pdu.info.continued).sum : Nat) ≤ rlcSduMaxSize

/-- A block that the entity can take: a well-formed data PDU that makes no SDU too
long, or just a STATUS PDU, whose NACKs can be recorded unless it is ignored. -/
inductive Entity.Takes (frame : Nat) (entity : Entity) (octets : List UInt8) : Prop where
  | data (lis : List Nat) (formed : WellFormedHeader octets lis)
      (room : entity.HasRoom octets lis)
  | status (pdu : StatusPdu) (stands : pdu.StandsIn (octets.getD · 0) octets.length)
      (marks : E1Marks pdu.nackList) (few : pdu.nackList.length ≤ 1022)
      (records : shiftedSn entity.tx.vtA pdu.ackSn < rlcAmWindowSize →
        RecordsAll frame entity.tx pdu.asRead.controlPduInfo.nackList)

structure Entity.Sound (entity : Entity) : Prop where
  indexed : entity.tx.Indexed
  started : entity.reassembly.outputSduInConstruction ≠ some []
  filled : ∀ pdu ∈ entity.rx.receiverBuffer, pdu.info.Filled

section Receiving

variable {entity next : Entity} {now frame : Nat} {octets : List UInt8}

theorem Receiver.receiveProcessDataPdu_infos (rx : Receiver) (now : Nat)
    (octets : List UInt8) :
    let next := rx.receiveProcessDataPdu now octets
    (next.handed = rx.handed ∧ next.receiverBuffer = rx.receiverBuffer) ∨
      ∃ info, ∃ arrived : List PduInfo, ∃ count, getDataPduInfos octets = some info ∧
        arrived.Perm (info :: rx.receiverBuffer.map RxPdu.info) ∧
        next.handed = rx.handed ++ arrived.take count ∧
        next.receiverBuffer.map RxPdu.info = arrived.drop count := by
  rcases rx.receiveProcessDataPdu_cases now octets with
    ⟨requested, unchanged, -⟩ | ⟨info, before, after, places, stepped⟩
  · rw [unchanged]
    exact Or.inl ⟨rfl, rfl⟩
  · obtain ⟨call, -, split, -⟩ := rel_of_some (places.placed ▸ rxListInsertCall_rel)
    have ⟨same, _⟩ := Receiver.updateReordering_sameDelivery (Receiver.placed
      { rx with statusRequested := rx.statusRequested || info.p } info before after)
      now info.sn
    obtain ⟨count, -, handed, kept⟩ := Receiver.placed_infos
      { rx with statusRequested := rx.statusRequested || info.p } info before after
    rw [← same.handed, ← stepped] at handed
    rw [← same.receiverBuffer, ← stepped] at kept
    refine Or.inr ⟨info, _, count, places.decoded, ?_, handed, kept⟩
    rw [split, map_append]
    exact perm_middle

theorem Entity.Sound.receiveProcessDataPdu (sound : entity.Sound) {lis : List Nat}
    (formed : WellFormedHeader octets lis) (room : entity.HasRoom octets lis) :
    ∃ next, entity.receiveProcessDataPdu now octets = some next ∧ next.Sound := by
  obtain ⟨info, parsed, filled, continued, payload⟩ := formed.parsed
  simp only [Entity.receiveProcessDataPdu]
  rcases entity.rx.receiveProcessDataPdu_infos now octets with
    ⟨handed, kept⟩ | ⟨info, arrived, count, decoded, perm, handed, kept⟩
  · rw [handed, drop_length]
    exact ⟨_, rfl, sound.indexed, sound.started, fun pdu mem => sound.filled pdu (kept ▸ mem)⟩
  · cases parsed.symm.trans decoded
    have members : ∀ each ∈ arrived, each = info ∨
        ∃ pdu ∈ entity.rx.receiverBuffer, pdu.info = each := by
      intro each mem
      simpa using perm.mem_iff.mp mem
    have allFilled : ∀ each ∈ arrived, each.Filled := by
      intro each mem
      rcases members each mem with rfl | ⟨pdu, waits, rfl⟩
      · exact filled
      · exact sound.filled pdu waits
    have part : ((arrived.take count).map PduInfo.continued).sum ≤ continuedLength octets lis +
        (entity.rx.receiverBuffer.map fun pdu => pdu.info.continued).sum := by
      have total := (perm.map PduInfo.continued).sum_eq
      rw [map_cons, sum_cons, List.map_map, continued] at total
      rw [Function.comp_def] at total
      rw [← total]
      exact ((take_sublist _ _).map _).sum_le_sum fun _ _ => Nat.zero_le _
    obtain ⟨construction, arriving, waiting⟩ := room
    obtain ⟨reassembly, reassembled, started⟩ := @reassembleAll_returns entity.reassembly
      (arrived.take count) (fun each mem => allFilled each (mem_of_mem_take mem))
      sound.started (by omega) fun each mem => by
        rcases members each (mem_of_mem_take mem) with rfl | ⟨pdu, waits, rfl⟩
        · omega
        · have := waiting pdu waits
          omega
    rw [handed, drop_left, reassembled]
    refine ⟨_, rfl, sound.indexed, started, fun pdu mem => ?_⟩
    have stored := List.mem_map_of_mem (f := RxPdu.info) mem
    rw [kept] at stored
    exact allFilled _ (mem_of_mem_drop stored)

theorem Entity.Sound.receiveBlock (sound : entity.Sound) (takes : entity.Takes frame octets) :
    ∃ next, Entity.receiveBlock now frame entity octets = some next ∧ next.Sound := by
  rw [Entity.receiveBlock]
  split
  · exact ⟨entity, rfl, sound⟩
  · cases takes with
    | data lis formed room =>
      rw [if_pos (data_iff_bit.mpr formed.data)]
      exact sound.receiveProcessDataPdu formed room
    | status pdu stands marks few records =>
      have read := stands.read (few.trans (by decide)) marks
      have decoded := controlPduInfo_decoded pdu.asRead
      obtain ⟨tx, processed⟩ := sound.indexed.receiveProcessControlPdu decoded
        (by simpa [StatusPdu.controlPduInfo, StatusPdu.asRead, rlcAmMaxNackInStatusPdu] using
          Nat.lt_succ_of_le few) records
      have kept : tx.Indexed := sound.indexed.step
        (show entity.tx.step (.statusPdu frame pdu.asRead.controlPduInfo) = some tx from processed)
      rw [if_neg (control_of_dC stands.dC)]
      refine ⟨{ entity with tx := tx }, ?_, kept, sound.started, sound.filled⟩
      simp only [Entity.receiveProcessControlPdu, read, processed, ge_iff_le, le_refl, if_true,
        map_some, bind_some]

theorem Entity.Sound.receiveRouting (sound : entity.Sound) {blocks : List (List UInt8)}
    (taken : HoldsAlong (Entity.receiveBlock now frame) (Entity.Takes frame) entity blocks) :
    ∃ next, entity.receiveRouting now frame blocks = some next ∧ next.Sound :=
  @execute_invariant _ _ _ _ Entity.Sound (fun _ => True)
    (fun _ _ before _ takes => before.receiveBlock takes) _ _ sound (fun _ _ => trivial) taken

/-- The blocks received in an operation can all be taken. -/
def Entity.Keeps (entity : Entity) : Operation → Prop
  | .receive now frame blocks =>
    HoldsAlong (receiveBlock now frame) (Takes frame) entity blocks
  | _ => True

theorem Entity.Sound.step {operation : Operation} (sound : entity.Sound)
    (keeps : entity.Keeps operation) (stepped : entity.step operation = some next) :
    next.Sound := by
  have indexed := Entity.step_indexed sound.indexed stepped
  obtain ⟨⟨after, pdus⟩, operated, rfl⟩ := map_eq_some_iff.mp stepped
  obtain ⟨before, started, filled⟩ := sound
  cases operation with
  | dataReq mui octets =>
    cases operated
    exact ⟨indexed, started, filled⟩
  | getPdus now frame requested block =>
    simp only [Entity.operate, Entity.getPdus] at operated
    split at operated
    · obtain ⟨pdu, -, stored⟩ := map_eq_some_iff.mp operated
      cases stored
      exact ⟨indexed, started, filled⟩
    · obtain ⟨⟨tx, sent⟩, -, stored⟩ := map_eq_some_iff.mp operated
      cases stored
      exact ⟨indexed, started, filled⟩
  | receive now frame blocks =>
    obtain ⟨received, routed, stored⟩ := map_eq_some_iff.mp operated
    cases stored
    obtain ⟨other, routed', kept⟩ := Entity.Sound.receiveRouting ⟨before, started, filled⟩ keeps
    cases routed.symm.trans routed'
    exact kept
  | statusIndication now frame =>
    cases operated
    refine ⟨indexed, ?_, ?_⟩
    · rw [Entity.macStatusIndication]
      split
      · exact started
      · exact started
    · rw [Entity.macStatusIndication]
      split
      · rw [(entity.rx.checkTimerReordering_sameDelivery now).receiverBuffer]
        exact filled
      · exact filled
  | configure config =>
    cases operated
    exact ⟨indexed, started, filled⟩
  | reestablish =>
    cases operated
    exact ⟨indexed, started, fun _ mem => absurd mem not_mem_nil⟩

theorem Entity.sound_init (config : Configuration) : (init config).Sound :=
  ⟨Transmitter.indexed_init _, nofun, nofun⟩

end Receiving

/-- If all blocks received so far could be taken, then no block that can be taken
fails an assertion. -/
theorem received_blocks_safe {config : Configuration} {operations : List Operation}
    {entity : Entity} {now frame : Nat} {blocks : List (List UInt8)}
    (kept : HoldsAlong Entity.step Entity.Keeps (.init config) operations)
    (reached : execute Entity.step (.init config) operations = some entity)
    (taken : HoldsAlong (Entity.receiveBlock now frame) (Entity.Takes frame) entity blocks) :
    ∃ next, entity.receiveRouting now frame blocks = some next := by
  have sound : entity.Sound := execute_preserves_along
    (fun _ _ _ sound keeps stepped => sound.step keeps stepped) (Entity.sound_init config) kept
    reached
  obtain ⟨next, routed, -⟩ := sound.receiveRouting taken
  exact ⟨next, routed⟩

def onePduSent : List Operation := [.dataReq 0 [1, 2, 3], .getPdus 0 0 5 fun _ => 0]

/-- The PDU sent is reported missing, and a PDU with an SDU of one octet arrives. -/
theorem received_blocks_safe_nack_and_data :
    ∃ entity, execute step (.init grantConfiguration) onePduSent = some entity ∧
      ∃ next, entity.receiveRouting 0 1 [[0x00, 0x06, 0x00, 0x00], [0x80, 0, 7]] = some next := by
  have outcome : ((execute step (.init grantConfiguration) onePduSent).map fun entity =>
      (decide (RecordsAll 1 entity.tx [⟨0, 0, 0x7FFF⟩]),
        (receiveBlock 0 1 entity [0x00, 0x06, 0x00, 0x00]).map fun next =>
          (next.reassembly, next.rx))) = some (true, some (.fresh, .init 35)) := by
    decide +kernel
  obtain ⟨entity, reached, results⟩ := map_eq_some_iff.mp outcome
  obtain ⟨records, received⟩ := Prod.mk.inj results
  have kept : HoldsAlong step Keeps (.init grantConfiguration) onePduSent :=
    ⟨trivial, fun _ _ => ⟨trivial, fun _ _ => trivial⟩⟩
  refine ⟨entity, reached, received_blocks_safe kept reached
    ⟨?_, fun next stepped => ⟨?_, fun _ _ => trivial⟩⟩⟩
  · exact .status ⟨false, 0, 1, true, [⟨0, false, false, 0, 0⟩]⟩
      ⟨by decide, by decide, by decide, by decide,
        ⟨⟨by decide, by decide, by decide, nofun, nofun⟩, trivial⟩, by decide⟩
      ⟨by decide, trivial⟩ (by decide) fun _ => of_decide_eq_true records
  · rw [stepped] at received
    obtain ⟨reassembly, rx⟩ := Prod.mk.inj (Option.some.inj received)
    refine .data [] ⟨by decide, by decide, by decide, trivial, by decide, by decide, by decide⟩
      ⟨?_, ?_, ?_⟩
    · rw [reassembly, rx]
      decide
    · rw [rx]
      decide
    · rw [rx]
      exact nofun

/-- An assertion fails on a block of one octet, on a STATUS PDU with an octet
behind it, on a control PDU of another type and on a data PDU with a length
indicator of 0. After one PDU of three octets of payload was sent, it fails on a
NACK for its octets 5 to 6. -/
theorem not_received_blocks_safe :
    (∀ octets ∈ [[0x00], [0x00, 0x00, 0x00], [0x10, 0x00], [0x84, 0, 0, 0, 7]],
      ((init grantConfiguration).receiveRouting 0 0 [octets]).isNone) ∧
    ∃ entity, execute step (.init grantConfiguration) onePduSent = some entity ∧
      entity.receiveRouting 0 0 [[0, 6, 0, 0x20, 0x01, 0x40, 0x03, 0x00]] = none := by
  constructor
  · decide +kernel
  · decide +kernel

end OpenAir.RlcAm
