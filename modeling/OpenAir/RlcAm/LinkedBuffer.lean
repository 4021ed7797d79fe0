import OpenAir.Base.LinkedList
import OpenAir.Base.Simulation
import OpenAir.RlcAm.DeliveryProperties

/-! The receiver buffer as the doubly linked list it is: which operation of
`list2.c` or `rlc_am_rx_list.c` every arrival makes, on the block of the
arriving PDU and the block a walk along the links has reached. -/

set_option autoImplicit false

namespace OpenAir.RlcAm

open OpenAir.Base List Function Receiver

/-- How a block is put in the list. A cursor has passed a number of blocks, from
the head for an insertion before it and from the tail for one after it. -/
inductive InsertCall where
  | addHead
  | addTail
  | insertBefore (passed : Nat)
  | insertAfter (passed : Nat)
  deriving DecidableEq, Repr

def SearchEnd.call (ending : SearchEnd) (insert : List RxPdu → List RxPdu → InsertCall)
    (addsTail : Bool) : Option InsertCall :=
  match ending with
  | .dropped => none
  | .inserted before after => some (insert before after)
  | .stopped before after => some (insert before after)
  | .exhausted => if addsTail then some .addTail else none

/-- The list operation of `rlc_am_rx_list_insert_pdu`. -/
def rxListInsertCall (vrR vrMr : Nat) (buffer : List RxPdu) (pdu : PduInfo) : Option InsertCall :=
  match buffer with
  | [] => some .addHead
  | head :: rest =>
    let last := (head :: rest).getLast (cons_ne_nil head rest)
    if vrMr < vrR then
      if pdu.sn ≥ vrR then
        (forwardSearch (fun sn => decide (sn ≥ vrR)) pdu [] buffer).call
          (fun before _ => .insertBefore before.length) (addsTailWrapped pdu last.info)
      else
        (backwardSearch (fun sn => decide (sn < vrR)) pdu buffer.reverse []).call
          (fun _ after => .insertAfter after.length) (addsTailWrapped pdu head.info)
    else
      (forwardSearch (fun _ => true) pdu [] buffer).call
        (fun before _ => .insertBefore before.length) (addsTailUnwrapped pdu last.info)

def InsertCall.run (call : InsertCall) (list : LinkedList) (block : Nat) : LinkedList :=
  match call with
  | .addHead => list.addHead block
  | .addTail => list.addTail block
  | .insertBefore passed =>
    match (LinkedList.walk list.next (passed + 1) list.head).getLast? with
    | some cursor => list.insertBefore block cursor
    | none => list
  | .insertAfter passed =>
    match (LinkedList.walk list.previous (passed + 1) list.tail).getLast? with
    | some cursor => list.insertAfter block cursor
    | none => list

/-- The receiving side with the links of its buffer. `data` tells the PDU that a
block holds, and the blocks of arriving PDUs are numbered. -/
structure LinkedReceiver where
  receiver : Receiver
  list : LinkedList
  data : Nat → PduInfo
  blocks : Nat

namespace LinkedReceiver

def init (msDuration : Nat) (data : Nat → PduInfo) : LinkedReceiver :=
  { receiver := .init msDuration, list := .empty, data := data, blocks := 0 }

/-- An arriving block comes with cleared links. It is put in the list, and then
every PDU handed to reassembly is taken off the head. -/
def place (linked : LinkedReceiver) (info : PduInfo) (call : InsertCall)
    (next : Receiver) : LinkedReceiver :=
  let cleared := (linked.list.setNext linked.blocks none).setPrevious linked.blocks none
  let handed := next.handed.length - linked.receiver.handed.length
  { receiver := next
    list := LinkedList.removeHead^[handed] (call.run cleared linked.blocks)
    data := Function.update linked.data linked.blocks info
    blocks := linked.blocks + 1 }

def step (linked : LinkedReceiver) (input : RxInput) : LinkedReceiver :=
  let rx := linked.receiver
  let next := rx.step input
  match input with
  | .timerCheck _ => { linked with receiver := next }
  | .dataPdu _ octets =>
    match getDataPduInfos octets with
    | none => { linked with receiver := next }
    | some info =>
      if inWindow rx.vrR rx.vrMr info.sn then
        match rxListInsertCall rx.vrR rx.vrMr rx.receiverBuffer info with
        | none => { linked with receiver := next }
        | some call => linked.place info call next
      else { linked with receiver := next }

def run (linked : LinkedReceiver) (inputs : List RxInput) : LinkedReceiver :=
  inputs.foldl step linked

@[simp] theorem step_receiver (linked : LinkedReceiver) (input : RxInput) :
    (linked.step input).receiver = linked.receiver.step input := by
  cases input with
  | timerCheck now => rfl
  | dataPdu now octets =>
    simp only [step]
    split
    · rfl
    · split
      · split
        · rfl
        · rfl
      · rfl

theorem run_receiver (linked : LinkedReceiver) (inputs : List RxInput) :
    (linked.run inputs).receiver = linked.receiver.run inputs := by
  induction inputs generalizing linked with
  | nil => rfl
  | cons input rest ih =>
    have following := ih (linked.step input)
    rw [step_receiver] at following
    exact following

end LinkedReceiver

def InsertCall.Finds (call : InsertCall) (buffer before after : List RxPdu) : Prop :=
  buffer = before ++ after ∧
    match call with
    | .addHead => buffer = []
    | .addTail => after = []
    | .insertBefore passed => passed = before.length ∧ after ≠ []
    | .insertAfter passed => passed = after.length ∧ before ≠ []

variable {count vrMr vrR : Nat} {before after buffer passed rest : List RxPdu}
  {back front : List Nat} {inRange : Nat → Bool} {pdu : PduInfo} {addsTail : Bool}
  {call : InsertCall} {next : Receiver}

theorem forwardSearch_call (whole : passed ++ rest = buffer) :
    Option.Rel (fun parts call => call.Finds buffer parts.1 parts.2)
      ((forwardSearch inRange pdu passed rest).place buffer addsTail)
      ((forwardSearch inRange pdu passed rest).call (fun before _ => .insertBefore before.length)
        addsTail) := by
  induction rest generalizing passed with
  | nil =>
    cases addsTail with
    | false => exact .none
    | true => exact .some ⟨(append_nil _).symm, rfl⟩
  | cons cursor rest ih =>
    simp only [forwardSearch]
    split
    · split
      · exact .none
      · exact .some ⟨whole.symm, rfl, cons_ne_nil _ _⟩
      · exact ih (by simpa using whole)
    · exact .some ⟨whole.symm, rfl, cons_ne_nil _ _⟩

theorem backwardSearch_call (whole : rest.reverse ++ passed = buffer) :
    Option.Rel (fun parts call => call.Finds buffer parts.1 parts.2)
      ((backwardSearch inRange pdu rest passed).place buffer addsTail)
      ((backwardSearch inRange pdu rest passed).call (fun _ after => .insertAfter after.length)
        addsTail) := by
  induction rest generalizing passed with
  | nil =>
    cases addsTail with
    | false => exact .none
    | true => exact .some ⟨(append_nil _).symm, rfl⟩
  | cons cursor rest ih =>
    simp only [backwardSearch]
    split
    · split
      · exact .none
      · exact .some ⟨whole.symm, rfl, by simp⟩
      · exact ih (by simpa using whole)
    · exact .some ⟨whole.symm, rfl, by simp⟩

theorem rxListInsertCall_rel :
    Option.Rel (fun parts call => call.Finds buffer parts.1 parts.2)
      (rxListInsertPdu vrR vrMr buffer pdu) (rxListInsertCall vrR vrMr buffer pdu) := by
  cases buffer with
  | nil => exact .some ⟨rfl, rfl⟩
  | cons head rest =>
    simp only [rxListInsertPdu, rxListInsertCall]
    split
    · split
      · exact forwardSearch_call rfl
      · exact backwardSearch_call (by simp)
    · exact forwardSearch_call rfl

section Links

variable {list : LinkedList} {cells : List Nat} {block : Nat} {buffer before after : List RxPdu}

private theorem cursor_at {element : Nat} :
    ((front ++ element :: back).take (front.length + 1)).getLast? = some element := by
  rw [take_length_add_append]
  simp

theorem InsertCall.Finds.run_describes (finds : call.Finds buffer before after)
    (describes : list.Describes cells) (fresh : block ∉ cells) (next : list.next block = none)
    (previous : list.previous block = none) (split : cells = front ++ back)
    (frontLength : front.length = before.length) (backLength : back.length = after.length) :
    (call.run list block).Describes (front ++ block :: back) := by
  obtain ⟨joined, place⟩ := finds
  subst split
  cases call with
  | addHead =>
    have none : before = [] ∧ after = [] := append_eq_nil_iff.mp (joined ▸ place)
    rw [none.1, length_nil, length_eq_zero_iff] at frontLength
    rw [none.2, length_nil, length_eq_zero_iff] at backLength
    subst frontLength backLength
    exact LinkedList.addHead_empty describes next previous
  | addTail =>
    have last : after = [] := place
    rw [last, length_nil, length_eq_zero_iff] at backLength
    subst backLength
    rw [append_nil] at describes fresh
    exact LinkedList.addTail_describes describes fresh
  | insertBefore passed =>
    obtain ⟨rfl, filled⟩ := place
    cases back with
    | nil => exact absurd (length_eq_zero_iff.mp backLength.symm) filled
    | cons element rest =>
      have walked := describes.segment.walk_next (before.length + 1)
      rw [← describes.head] at walked
      simp only [InsertCall.run, walked]
      rw [← frontLength, cursor_at]
      exact LinkedList.insertBefore_describes describes fresh
  | insertAfter passed =>
    obtain ⟨rfl, filled⟩ := place
    cases front using reverseRecOn with
    | nil => exact absurd (length_eq_zero_iff.mp frontLength.symm) filled
    | append_singleton rest element =>
      have walked := describes.segment.walk_previous (after.length + 1)
      rw [← describes.tail] at walked
      simp only [InsertCall.run, walked, reverse_append, reverse_cons, reverse_nil,
        nil_append, singleton_append]
      rw [← backLength, ← length_reverse, cursor_at]
      simp only [append_assoc, singleton_append] at describes fresh ⊢
      exact LinkedList.insertAfter_describes describes fresh

theorem removeHead_iterate (describes : list.Describes cells) (enough : count ≤ cells.length) :
    (LinkedList.removeHead^[count] list).Describes (cells.drop count) := by
  induction count generalizing list cells with
  | zero => exact describes
  | succ count ih =>
    cases cells with
    | nil => exact absurd enough (Nat.not_succ_le_zero _)
    | cons cell rest =>
      exact ih (LinkedList.removeHead_describes describes) (Nat.le_of_succ_le_succ enough)

end Links

structure LinkedReceiver.Linked (linked : LinkedReceiver) (cells : List Nat) : Prop where
  describes : linked.list.Describes cells
  holds : cells.map linked.data = linked.receiver.receiverBuffer.map RxPdu.info
  numbered : ∀ cell ∈ cells, cell < linked.blocks

theorem LinkedReceiver.linked_init (msDuration : Nat) (data : Nat → PduInfo) :
    (LinkedReceiver.init msDuration data).Linked [] :=
  ⟨LinkedList.empty_describes, rfl, nofun⟩

section Linking

variable {linked : LinkedReceiver} {cells : List Nat}

variable (links : linked.Linked cells)

include links

theorem LinkedReceiver.Linked.of_same_buffer
    (same : next.receiverBuffer = linked.receiver.receiverBuffer) :
    { linked with receiver := next }.Linked cells :=
  ⟨links.describes, links.holds.trans (congrArg _ same.symm), links.numbered⟩

theorem LinkedReceiver.Linked.place {info : PduInfo} {before after : List RxPdu}
    (finds : call.Finds linked.receiver.receiverBuffer before after)
    (enough : count ≤ (before.map RxPdu.info ++ info :: after.map RxPdu.info).length)
    (handed : next.handed = linked.receiver.handed ++
      (before.map RxPdu.info ++ info :: after.map RxPdu.info).take count)
    (kept : next.receiverBuffer.map RxPdu.info =
      (before.map RxPdu.info ++ info :: after.map RxPdu.info).drop count) :
    ∃ cells, (linked.place info call next).Linked cells := by
  have fresh : linked.blocks ∉ cells := fun mem => lt_irrefl _ (links.numbered _ mem)
  have holds := links.holds
  rw [finds.1, map_append] at holds
  obtain ⟨front, back, rfl, frontHolds, backHolds⟩ := map_eq_append_iff.mp holds
  have frontLength : front.length = before.length := by
    simpa using congrArg length frontHolds
  have backLength : back.length = after.length := by
    simpa using congrArg length backHolds
  have cleared : ((linked.list.setNext linked.blocks none).setPrevious linked.blocks
      none).Describes (front ++ back) := by
    have other : ∀ cell ∈ front ++ back, cell ≠ linked.blocks := fun cell mem same =>
      fresh (same ▸ mem)
    refine ⟨links.describes.nodup, links.describes.head, links.describes.tail,
      links.describes.count, links.describes.segment.congr ?_ ?_⟩
    · exact fun cell mem => update_of_ne (other cell mem) _ _
    · exact fun cell mem => update_of_ne (other cell mem) _ _
  have inserted := finds.run_describes cleared fresh (update_self _ _ _)
    (update_self _ _ _) rfl frontLength backLength
  have blocks :
      (front ++ linked.blocks :: back).map (Function.update linked.data linked.blocks info) =
      before.map RxPdu.info ++ info :: after.map RxPdu.info := by
    have same (part : List Nat) (without : linked.blocks ∉ part) :
        part.map (Function.update linked.data linked.blocks info) = part.map linked.data := by
      refine map_congr_left fun cell mem => update_of_ne ?_ _ _
      rintro rfl
      exact without mem
    rw [mem_append, not_or] at fresh
    rw [map_append, map_cons, same front fresh.1, same back fresh.2, frontHolds,
      backHolds, update_self]
  have length := congrArg length blocks
  rw [length_map] at length
  have calls : next.handed.length - linked.receiver.handed.length = count := by
    rw [handed, length_append, length_take, Nat.min_eq_left enough]
    exact Nat.add_sub_cancel_left _ _
  refine ⟨(front ++ linked.blocks :: back).drop count, ?_, ?_, ?_⟩
  · simp only [LinkedReceiver.place, calls]
    exact removeHead_iterate inserted (length ▸ enough)
  · simp only [LinkedReceiver.place]
    rw [map_drop, blocks, kept]
  · intro cell mem
    have inside := mem_of_mem_drop mem
    rcases mem_append.mp inside with earlier | rest
    · exact Nat.lt_succ_of_lt (links.numbered cell (mem_append_left _ earlier))
    · rcases mem_cons.mp rest with rfl | later
      · exact Nat.lt_succ_self _
      · exact Nat.lt_succ_of_lt (links.numbered cell (mem_append_right _ later))

theorem LinkedReceiver.Linked.step (input : RxInput) :
    ∃ cells, (linked.step input).Linked cells := by
  cases input with
  | timerCheck now =>
    exact ⟨cells, links.of_same_buffer
      (linked.receiver.checkTimerReordering_sameDelivery now).receiverBuffer⟩
  | dataPdu now octets =>
    cases decoded : getDataPduInfos octets with
    | none =>
      simp only [LinkedReceiver.step, decoded]
      exact ⟨cells, links.of_same_buffer
        (by simp [Receiver.step, Receiver.receiveProcessDataPdu, decoded])⟩
    | some info =>
      cases inside : inWindow linked.receiver.vrR linked.receiver.vrMr info.sn with
      | false =>
        simp only [LinkedReceiver.step, decoded, inside, Bool.false_eq_true, if_false]
        exact ⟨cells, links.of_same_buffer
          (by simp [Receiver.step, Receiver.receiveProcessDataPdu, decoded, inside])⟩
      | true =>
        cases placed : rxListInsertPdu linked.receiver.vrR linked.receiver.vrMr
            linked.receiver.receiverBuffer info with
        | none =>
          simp only [LinkedReceiver.step, decoded, inside, if_true,
            rel_of_none (placed ▸ rxListInsertCall_rel)]
          exact ⟨cells, links.of_same_buffer
            (by simp [Receiver.step, Receiver.receiveProcessDataPdu, decoded, inside, placed])⟩
        | some parts =>
          obtain ⟨before, after⟩ := parts
          obtain ⟨call, called, finds⟩ := rel_of_some (placed ▸ rxListInsertCall_rel)
          simp only [LinkedReceiver.step, decoded, inside, if_true, called]
          let polled :=
            { linked.receiver with statusRequested := linked.receiver.statusRequested || info.p }
          obtain ⟨count, enough, handed, kept⟩ := polled.placed_infos info before after
          have stepped : linked.receiver.step (.dataPdu now octets) =
              (polled.placed info before after).updateReordering now info.sn := by
            simp [Receiver.step, Receiver.receiveProcessDataPdu, decoded, inside, placed, polled]
          obtain ⟨same, _⟩ := Receiver.updateReordering_sameDelivery
            (polled.placed info before after) now info.sn
          rw [← stepped] at same
          refine links.place finds enough ?_ ?_
          · rw [same.handed, handed]
          · rw [same.receiverBuffer, kept]

theorem LinkedReceiver.Linked.run (inputs : List RxInput) :
    ∃ cells, (linked.run inputs).Linked cells := by
  induction inputs generalizing linked cells with
  | nil => exact ⟨cells, links⟩
  | cons input rest ih =>
    obtain ⟨next, stepped⟩ := links.step input
    exact ih stepped

end Linking

/-- The buffer is sorted by distance from VR(R) and offset, without overlaps. -/
structure Receiver.BufferSorted (rx : Receiver) : Prop where
  increasing : rx.receiverBuffer.Pairwise fun left right =>
    shiftedSn rx.vrR left.info.sn < shiftedSn rx.vrR right.info.sn ∨
      (left.info.sn = right.info.sn ∧ left.info.so < right.info.so)
  disjoint : rx.receiverBuffer.Pairwise fun left right =>
    left.info.sn = right.info.sn →
      left.info.so + left.info.payload.length ≤ right.info.so ∨
        right.info.so + right.info.payload.length ≤ left.info.so
  inside : ∀ pdu ∈ rx.receiverBuffer,
    pdu.info.sn < rlcAmSnModulo ∧ shiftedSn rx.vrR pdu.info.sn < rlcAmWindowSize

/-- The links in either direction and the count describe the buffer. -/
structure LinkedReceiver.LinksDescribeBuffer (linked : LinkedReceiver) : Prop where
  count : linked.list.nbElements = linked.receiver.receiverBuffer.length
  forward : (LinkedList.walk linked.list.next (linked.receiver.receiverBuffer.length + 1)
    linked.list.head).map linked.data = linked.receiver.receiverBuffer.map RxPdu.info
  backward : LinkedList.walk linked.list.previous (linked.receiver.receiverBuffer.length + 1)
      linked.list.tail =
    (LinkedList.walk linked.list.next (linked.receiver.receiverBuffer.length + 1)
      linked.list.head).reverse

theorem Receiver.InOrder.bufferSorted {rx : Receiver} (inOrder : rx.InOrder) :
    rx.BufferSorted where
  increasing := by
    refine Pairwise.imp_of_mem ?_ inOrder.buffer.ordered
    intro left right leftMember _ precedes
    rcases precedes with nearer | ⟨same, _, _, gap⟩
    · exact .inl nearer
    · have := length_pos_of_ne_nil (inOrder.buffer.nonempty left leftMember)
      exact .inr ⟨same, by omega⟩
  disjoint := by
    refine inOrder.buffer.ordered.imp ?_
    intro left right precedes same
    exact .inl (precedes.gap same).2.2
  inside := fun pdu mem =>
    ⟨(inOrder.buffer.reach pdu mem).snBound, (inOrder.buffer.reach pdu mem).near⟩

theorem LinkedReceiver.Linked.linksDescribeBuffer {linked : LinkedReceiver} {cells : List Nat}
    (links : linked.Linked cells) : linked.LinksDescribeBuffer := by
  have length : cells.length = linked.receiver.receiverBuffer.length := by
    simpa using congrArg length links.holds
  have forward := links.describes.segment.walk_next (cells.length + 1)
  have backward := links.describes.segment.walk_previous (cells.length + 1)
  rw [← links.describes.head, take_of_length_le (Nat.le_succ _)] at forward
  rw [← links.describes.tail, take_of_length_le (by simp)] at backward
  refine ⟨?_, ?_, ?_⟩
  · rw [← length]
    exact links.describes.count
  · rw [← length, forward]
    exact links.holds
  · rw [← length, forward, backward]

theorem receiver_buffer_sorted_and_linked (msDuration : Nat) (data : Nat → PduInfo)
    (inputs : List RxInput) (wellFormed : ∀ input ∈ inputs, input.WellFormed)
    (checked : Along InsertionChecked (init msDuration) inputs) :
    let linked := (LinkedReceiver.init msDuration data).run inputs
    linked.receiver = (init msDuration).run inputs ∧
      linked.receiver.BufferSorted ∧ linked.LinksDescribeBuffer := by
  have same := (LinkedReceiver.init msDuration data).run_receiver inputs
  obtain ⟨cells, links⟩ := (LinkedReceiver.linked_init msDuration data).run inputs
  have inOrder := (inOrder_init msDuration).run wellFormed checked
  refine ⟨same, ?_, links.linksDescribeBuffer⟩
  rw [same]
  exact inOrder.bufferSorted

theorem receiver_buffer_after_reordering :
    (((init 10).run (reorderedInputs.take 1)).receiverBuffer.map fun pdu =>
        (pdu.info.sn, pdu.info.so)) = [(1, 2)] ∧
      ((LinkedReceiver.init 10 wholeInfo).run reorderedInputs).LinksDescribeBuffer := by
  exact ⟨by decide +kernel, (receiver_buffer_sorted_and_linked 10 wholeInfo reorderedInputs
    (by decide +kernel) reorderedInputs_checked).2.2⟩

def middleSegment (sn : Nat) : List UInt8 :=
  [UInt8.ofNat (0xC0 + sn / 256), UInt8.ofNat (sn % 256), 0, 1, 2, 3]

/-- With VR(R) = 513 and VR(MR) = 1 the walk for a segment of 513 stops at the
stored 0 without a comparison with the segment before it. -/
def wrappedOverlapInputs : List RxInput :=
  wholeInputs 513 ++ [.dataPdu 0 (firstSegment 513), .dataPdu 0 (wholePdu 0),
    .dataPdu 0 (middleSegment 513)]

theorem wrapped_overlap_not_sorted :
    (∀ input ∈ wrappedOverlapInputs, input.WellFormed) ∧
      ¬ ((init 0).run wrappedOverlapInputs).BufferSorted := by
  refine ⟨by decide +kernel, fun sorted => ?_⟩
  have disjoint := sorted.disjoint
  rw [wrappedOverlapInputs, run_append, run_wholeInputs le_rfl] at disjoint
  revert disjoint
  decide +kernel

end OpenAir.RlcAm
