import Mathlib.Data.Fintype.Card
import OpenAir.Base.LinkedList
import OpenAir.Nas.Timers

/-! The links between the entries of the NAS timers, as `_nas_timer_db_insert` and
`_nas_timer_db_remove` set them. They describe the queue at all times, and the queue is
sorted. A cell of the linked list is an index of `tq`. -/

set_option autoImplicit false

namespace OpenAir.Nas

open Base Function List Option TimerDatabase

section Links

variable (links : LinkedList) (later : Nat → Prop) [DecidablePred later] (cell : Nat)

def searchPlace : Nat → Option Nat → Option Nat → Option Nat × Option Nat
  | fuel + 1, prev, some next =>
    if later next then (prev, some next) else searchPlace fuel (some next) (links.next next)
  | _, prev, next => (prev, next)

def timerDbInsert : LinkedList :=
  let (prev, next) := searchPlace links later 256 none links.head
  let entered := (links.setPrevious cell prev).setNext cell next
  let linked := match next with
    | some next => entered.setPrevious next (some cell)
    | none => entered
  match prev with
  | some prev => linked.setNext prev (some cell)
  | none => { linked with head := some cell }

def timerDbRemove : LinkedList :=
  let unlinked := match links.next cell with
    | some next => links.setPrevious next (links.previous cell)
    | none => links
  match links.previous cell with
  | some prev => unlinked.setNext prev (links.next cell)
  | none => { unlinked with head := links.next cell }

variable {links later cell} {cells front back : List Nat} {before : Option Nat}

theorem searchPlace_eq {fuel : Nat} (segment : links.Segment before cells none)
    (enough : cells.length ≤ fuel) :
    searchPlace links later fuel before cells.head? =
      ((cells.takeWhile fun next => ¬ later next).getLast?.or before,
        (cells.dropWhile fun next => ¬ later next).head?) := by
  induction cells generalizing before fuel with
  | nil => cases fuel <;> rfl
  | cons next rest ih =>
    obtain ⟨-, forward, behind⟩ := segment
    rw [or_none] at forward
    cases fuel with
    | zero => cases enough
    | succ fuel =>
      simp only [head?_cons, searchPlace, forward, ih behind (Nat.le_of_succ_le_succ enough)]
      by_cases here : later next
      · simp [here]
      · simp only [if_neg here, takeWhile_cons, dropWhile_cons, decide_eq_true here, if_true,
          LinkedList.getLast?_cons_or]

theorem timerDbInsert_segment (segment : links.Segment none cells none)
    (head : links.head = cells.head?) (distinct : cells.Nodup) (enough : cells.length ≤ 256)
    (fresh : cell ∉ cells) :
    let inserted := cells.takeWhile (fun next => ¬ later next) ++
      cell :: cells.dropWhile fun next => ¬ later next
    (timerDbInsert links later cell).Segment none inserted none ∧
      (timerDbInsert links later cell).head = inserted.head? := by
  have place := @searchPlace_eq _ later _ _ _ _ segment enough
  have split := @takeWhile_append_dropWhile _ (fun next => ¬ later next) cells
  rw [← head, or_none] at place
  generalize cells.takeWhile (fun next => ¬ later next) = front at *
  generalize cells.dropWhile (fun next => ¬ later next) = back at *
  subst split
  have first : ∀ third, back.head? = some third → third ∈ back := fun _ => mem_of_mem_head?
  have ahead : ∀ third tail, front.getLast? = some third → (front ++ tail).head? = front.head? := by
    cases front <;> simp
  have none : front.getLast? = none ↔ front = [] := getLast?_eq_none_iff
  simp only [timerDbInsert, place]
  cases atEnd : front.getLast? <;> cases atStart : back.head? <;>
    refine ⟨segment.insert distinct fresh ?_ ?_, ?_⟩ <;>
    simp only [LinkedList.setNext, LinkedList.setPrevious] <;> grind

theorem timerDbRemove_segment (segment : links.Segment none (front ++ cell :: back) none)
    (distinct : (front ++ cell :: back).Nodup) :
    (timerDbRemove links cell).Segment none (front ++ back) none ∧
      (timerDbRemove links cell).head = if front = [] then back.head? else links.head := by
  obtain ⟨backward, forward⟩ := segment.around
  have none : front.getLast? = none ↔ front = [] := getLast?_eq_none_iff
  simp only [timerDbRemove, backward, forward]
  cases atEnd : front.getLast? <;> cases atStart : back.head? <;>
    refine ⟨segment.erase distinct ?_ ?_, ?_⟩ <;>
    simp only [LinkedList.setNext, LinkedList.setPrevious] <;> grind

end Links

structure LinkedTimers (β α : Type) where
  db : TimerDatabase β α
  /-- The field `id` of the entries of `tq`. -/
  ids : TimerSlot → Option TimerSlot
  links : LinkedList
  /-- How many insertions there were before that of the entry. -/
  inserted : TimerSlot → Nat
  inserts : Nat

namespace LinkedTimers

variable {β α : Type}

def init : LinkedTimers β α := ⟨.init, fun _ => none, .empty, fun _ => 0, 0⟩

def tv (tq : TimerSlot → Option (TimerEntry β α)) (id : TimerSlot) : Timeval :=
  ((tq id).map TimerEntry.tv).getD ⟨0, 0⟩

variable (timers : LinkedTimers β α)

def dequeue (id : TimerSlot) : LinkedTimers β α :=
  { timers with
    db := timers.db.removeEntry id
    links := timerDbRemove timers.links id }

def enqueue (db : TimerDatabase β α) (id : TimerSlot) : LinkedTimers β α :=
  { db := db
    ids := update timers.ids id (some id)
    links := timerDbInsert timers.links
      (fun next => 0 < (tv db.tq (Fin.ofNat 256 next)).cmp (tv db.tq id)) id
    inserted := update timers.inserted id timers.inserts
    inserts := timers.inserts + 1 }

def step : TimerCall β α → LinkedTimers β α
  | .start sec cb args memory now setup itti =>
    let db := (timers.db.nasTimerStart sec cb args memory now setup itti).1
    match timers.db.getId.filter fun _ => sec ≠ 0 ∧ memory with
    | some id => timers.enqueue db id
    | none => { timers with db := db }
  | .stop id =>
    match id.filter fun id => (timers.db.tq id).isSome with
    | some slot =>
      { timers.dequeue slot with
        db := (timers.db.nasTimerStop id).1
        ids := update timers.ids slot none }
    | none => timers
  | .restart id now =>
    match id.filter fun id => (timers.db.tq id).isSome with
    | some slot => (timers.dequeue slot).enqueue (timers.db.nasTimerRestart id now).1 slot
    | none => timers
  | .expiry _ => timers

/-- By `tv_sec`, then by `tv_usec`, then by the time of the insertion. -/
def Before (a b : TimerSlot) : Prop :=
  let (first, second) := (tv timers.db.tq a, tv timers.db.tq b)
  first.sec < second.sec ∨ first.sec = second.sec ∧ (first.usec < second.usec ∨
    first.usec = second.usec ∧ timers.inserted a < timers.inserted b)

structure Linked : Prop where
  head : timers.links.head = (timers.db.queue.map Fin.val).head?
  segment : timers.links.Segment none (timers.db.queue.map Fin.val) none
  order : timers.db.queue.Pairwise timers.Before
  counted : ∀ id ∈ timers.db.queue, timers.inserted id < timers.inserts

structure Queued : Prop extends timers.Linked where
  active : ∀ id, id ∈ timers.db.queue ↔ (timers.db.tq id).isSome
  ids : ∀ id, timers.ids id = (timers.db.tq id).map fun _ => id

variable {timers} {id : TimerSlot}

theorem cmp_pos_iff (a b : Timeval) :
    0 < a.cmp b ↔ b.sec < a.sec ∨ b.sec = a.sec ∧ b.usec < a.usec := by
  unfold Timeval.cmp
  split_ifs <;> omega

theorem pairwise_orderedInsert {σ : Type} {r later : σ → σ → Prop} [DecidableRel later]
    {queue : List σ} {new : σ} (order : queue.Pairwise r)
    (before : ∀ other ∈ queue, ¬ later new other → r other new)
    (behind : ∀ other ∈ queue, later new other → r new other)
    (upwards : ∀ first ∈ queue, ∀ second ∈ queue, r first second → later new first →
      later new second) :
    (queue.orderedInsert later new).Pairwise r := by
  induction queue with
  | nil => exact pairwise_singleton ..
  | cons first rest ih =>
    rw [orderedInsert_cons]
    split <;> grind [pairwise_cons, mem_orderedInsert]

theorem removeEntry_queue (db : TimerDatabase β α) (id : TimerSlot) :
    (db.removeEntry id).queue = db.queue.erase id ∧ (db.removeEntry id).tq = db.tq := by
  simp only [removeEntry]
  split
  · split <;> exact ⟨rfl, rfl⟩
  · exact ⟨rfl, rfl⟩

theorem Linked.nodup (linked : timers.Linked) : timers.db.queue.Nodup := by
  refine linked.order.imp fun {a b} before same => ?_
  subst same
  simp only [Before] at before
  omega

theorem Linked.cells_nodup (linked : timers.Linked) : (timers.db.queue.map Fin.val).Nodup :=
  linked.nodup.map Fin.val_injective

theorem Linked.dequeue (linked : timers.Linked) (mem : id ∈ timers.db.queue) :
    (timers.dequeue id).Linked := by
  obtain ⟨queue, same⟩ := removeEntry_queue timers.db id
  obtain ⟨front, back, fresh, split, erased⟩ := exists_erase_eq mem
  have distinct := linked.cells_nodup
  have segment := linked.segment
  have head := linked.head
  rw [split, map_append, map_cons] at distinct segment head
  have removed := timerDbRemove_segment segment distinct
  have sublist : (timers.db.removeEntry id).queue.Sublist timers.db.queue := queue ▸ erase_sublist
  refine ⟨?_, ?_, ?_, fun other inside => linked.counted other (sublist.subset inside)⟩
  · simp only [LinkedTimers.dequeue, queue, erased, removed.2, head]
    cases front <;> simp
  · simpa only [LinkedTimers.dequeue, queue, erased, map_append] using removed.1
  · exact (linked.order.sublist sublist).imp fun before => by
      simpa only [Before, LinkedTimers.dequeue, same] using before

theorem Linked.enqueue {db : TimerDatabase β α} {te : TimerEntry β α} {now : Timeval}
    (linked : timers.Linked) (fresh : id ∉ timers.db.queue)
    (tq : db.tq = (timers.db.insertEntry id te now).tq)
    (queue : db.queue = (timers.db.insertEntry id te now).queue) :
    (timers.enqueue db id).Linked := by
  let later := fun new next : TimerSlot => 0 < (tv db.tq next).cmp (tv db.tq new)
  have inserted : db.queue = timers.db.queue.orderedInsert later id := by
    simp only [queue, later, tv, tq]
    rfl
  have apart : ∀ other ∈ timers.db.queue, other ≠ id :=
    fun other mem => ne_of_mem_of_not_mem mem fresh
  have kept : ∀ other ∈ timers.db.queue, tv db.tq other = tv timers.db.tq other := by
    intro other mem
    simp only [tv, tq, insertEntry, update_of_ne (apart other mem)]
  have cells := @timerDbInsert_segment timers.links
    (fun next => 0 < (tv db.tq (Fin.ofNat 256 next)).cmp (tv db.tq id)) _ id _
    linked.segment linked.head linked.cells_nodup
    (by simpa using linked.nodup.length_le_card) (by simpa [Fin.val_inj] using fresh)
  simp only [takeWhile_map, dropWhile_map, comp_def, Fin.ofNat_val_eq_self, ← map_cons,
    ← map_append] at cells
  rw [← orderedInsert_eq_take_drop later] at cells
  refine ⟨inserted ▸ cells.2, inserted ▸ cells.1, ?_, ?_⟩
  · simp only [LinkedTimers.enqueue, inserted]
    refine pairwise_orderedInsert (linked.order.imp_of_mem ?_) ?_ ?_ ?_
    · intro a b memberA memberB before
      simpa only [Before, kept a memberA, kept b memberB, update_of_ne (apart a memberA),
        update_of_ne (apart b memberB)] using before
    · intro other mem early
      have counted := linked.counted other mem
      simp only [later, cmp_pos_iff] at early
      simp only [Before, update_self, update_of_ne (apart other mem)]
      omega
    · intro other mem late
      simp only [later, cmp_pos_iff] at late
      simp only [Before]
      omega
    · intro first _ second _ before late
      simp only [later, cmp_pos_iff] at late ⊢
      simp only [Before] at before
      omega
  · intro other mem
    simp only [LinkedTimers.enqueue, inserted, mem_orderedInsert] at mem ⊢
    rcases mem with rfl | mem
    · rw [update_self]
      exact Nat.lt_succ_self _
    · rw [update_of_ne (apart other mem)]
      exact Nat.lt_succ_of_lt (linked.counted other mem)

theorem Linked.queued {db : TimerDatabase β α} {te : TimerEntry β α} {now : Timeval}
    (linked : timers.Linked) (fresh : id ∉ timers.db.queue)
    (others : ∀ other ≠ id, (other ∈ timers.db.queue ↔ (timers.db.tq other).isSome) ∧
      timers.ids other = (timers.db.tq other).map fun _ => other)
    (tq : db.tq = (timers.db.insertEntry id te now).tq)
    (queue : db.queue = (timers.db.insertEntry id te now).queue) :
    (timers.enqueue db id).Queued := by
  refine ⟨linked.enqueue fresh tq queue, fun other => ?_, fun other => ?_⟩ <;>
    by_cases same : other = id <;>
    simp [LinkedTimers.enqueue, queue, tq, insertEntry, same, others other]

theorem Queued.start (queued : timers.Queued) (sec : Int) (cb : β) (args : α) (memory : Bool)
    (now : Timeval) (setup : Bool) (itti : Nat) :
    (timers.step (.start sec cb args memory now setup itti)).Queued := by
  simp only [step]
  split
  next id found =>
    obtain ⟨free, asked⟩ := filter_eq_some_iff.mp found
    obtain ⟨some_, rfl⟩ := of_decide_eq_true asked
    have unused := find?_some free
    have fresh : id ∉ timers.db.queue := by simp_all [queued.active id]
    have others := fun other (_ : other ≠ id) => And.intro (queued.active other) (queued.ids other)
    simp only [nasTimerStart, free, if_neg some_, if_true]
    split
    · exact queued.toLinked.queued fresh others rfl rfl
    · exact queued.toLinked.queued fresh others rfl rfl
  next refused =>
    simp only [nasTimerStart]
    split
    · exact queued
    · split
      · exact queued
      · split
        · simp_all
        · exact { queued with }

theorem Queued.dequeue (queued : timers.Queued) (active : (timers.db.tq id).isSome) :
    (timers.dequeue id).Linked ∧ id ∉ (timers.dequeue id).db.queue ∧
      ∀ other ≠ id,
        (other ∈ (timers.dequeue id).db.queue ↔ ((timers.dequeue id).db.tq other).isSome) ∧
        timers.ids other = ((timers.dequeue id).db.tq other).map fun _ => other := by
  obtain ⟨queue, tq⟩ := removeEntry_queue timers.db id
  simp only [LinkedTimers.dequeue, queue, tq]
  refine ⟨queued.toLinked.dequeue ((queued.active id).mpr active),
    queued.nodup.not_mem_erase, fun other apart => ⟨?_, queued.ids other⟩⟩
  rw [mem_erase_of_ne apart, queued.active]

theorem Queued.stop (queued : timers.Queued) (id : Option TimerSlot) :
    (timers.step (.stop id)).Queued := by
  simp only [step]
  split
  next slot found =>
    obtain ⟨rfl, active⟩ := filter_eq_some_iff.mp found
    obtain ⟨entry, held⟩ := isSome_iff_exists.mp active
    obtain ⟨linked, gone, others⟩ := queued.dequeue active
    have apart : ∀ other ∈ (timers.dequeue slot).db.queue, other ≠ slot :=
      fun other mem => ne_of_mem_of_not_mem mem gone
    simp only [nasTimerStop, held]
    refine ⟨⟨linked.head, linked.segment, linked.order.imp_of_mem ?_, linked.counted⟩, ?_, ?_⟩
    · intro a b memberA memberB before
      simpa only [Before, tv, update_of_ne (apart a memberA), update_of_ne (apart b memberB),
        LinkedTimers.dequeue, removeEntry_queue] using before
    all_goals
      intro other
      simp only [LinkedTimers.dequeue, timerRemove, update_apply,
        removeEntry_queue] at gone others ⊢
      split
      next same => simp [same, gone]
      next same => simp [others other same]
  · exact queued

theorem Queued.restart (queued : timers.Queued) (id : Option TimerSlot) (now : Timeval) :
    (timers.step (.restart id now)).Queued := by
  simp only [step]
  split
  next slot found =>
    obtain ⟨rfl, active⟩ := filter_eq_some_iff.mp found
    obtain ⟨entry, held⟩ := isSome_iff_exists.mp active
    obtain ⟨linked, gone, others⟩ := queued.dequeue active
    simp only [nasTimerRestart, held]
    exact linked.queued gone others rfl rfl
  · exact queued

theorem getId_eq_none_iff (db : TimerDatabase β α) :
    db.getId = none ↔ ∀ id, (db.tq id).isSome := by
  simp only [getId, find?_eq_none, mem_append, mem_filter, mem_finRange, true_and,
    decide_eq_true_eq, isNone_iff_eq_none, ← ne_eq, ne_none_iff_isSome]
  exact ⟨fun all id => all id (le_or_gt ..), fun all id _ => all id⟩

/-- After any calls, the links run through the active entries by the time at which they
are due, and there is no room for another one only if all of them are active. -/
theorem timer_queue_linked (calls : List (TimerCall β α)) :
    let timers := calls.foldl step init
    timers.links.Segment none (timers.db.queue.map Fin.val) none ∧
      (∀ fuel, LinkedList.walk timers.links.next fuel timers.links.head =
        (timers.db.queue.map Fin.val).take fuel) ∧
      timers.db.queue.Pairwise timers.Before ∧
      (∀ id, id ∈ timers.db.queue ↔ (timers.db.tq id).isSome) ∧
      (∀ id, timers.ids id = (timers.db.tq id).map fun _ => id) ∧
      ∀ sec cb args now itti, sec ≠ 0 →
        ((timers.db.nasTimerStart sec cb args true now true itti).2 = none ↔
          ∀ id, (timers.db.tq id).isSome) := by
  have queued : (calls.foldl step (init : LinkedTimers β α)).Queued := by
    refine foldlRecOn calls step ?_ fun timers queued call _ => ?_
    · refine ⟨⟨rfl, trivial, Pairwise.nil, ?_⟩, ?_, ?_⟩ <;> simp [init, TimerDatabase.init]
    · cases call with
      | start sec cb args memory now setup itti => exact queued.start ..
      | stop id => exact queued.stop id
      | restart id now => exact queued.restart id now
      | expiry itti => exact queued
  refine ⟨queued.segment, fun fuel => by rw [queued.head, queued.segment.walk_next], queued.order,
    queued.active, queued.ids, fun sec cb args now itti some_ => ?_⟩
  rw [← getId_eq_none_iff, nasTimerStart, if_neg some_]
  split
  next full => exact iff_of_true rfl full
  next found => exact iff_of_false (Option.some_ne_none _) (by simp [found])

/-- The first of two timers has been restarted and is due last. There is room for a third
one. -/
theorem timer_queue_linked_restarted :
    let timers := (twoTimers ++ [TimerCall.restart (some 0) ⟨15, 0⟩]).foldl step init
    LinkedList.walk timers.links.next 256 timers.links.head = [1, 0] ∧
      (timers.db.nasTimerStart 5 3 300 true ⟨16, 0⟩ true 9).2 ≠ none := by
  obtain ⟨-, walk, -, -, -, full⟩ :=
    timer_queue_linked (twoTimers ++ [TimerCall.restart (some 0) ⟨15, 0⟩])
  refine ⟨(walk 256).trans (by decide +kernel), fun refused => ?_⟩
  have active := (full 5 3 300 ⟨16, 0⟩ 9 (by decide)).mp refused 2
  revert active
  decide +kernel

end LinkedTimers

end OpenAir.Nas
