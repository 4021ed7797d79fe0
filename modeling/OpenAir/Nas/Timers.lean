import Mathlib.Data.List.Sort
import Mathlib.Data.Fintype.Basic
import OpenAir.Base.Execution

/-! The NAS timers (`nas_timer.c` with `ENABLE_ITTI`). The entries linked from `head` on are a
list of slots, and `armed` are the ITTI timers that `timer_setup` has started. -/

set_option autoImplicit false

namespace OpenAir.Nas

open OpenAir.Base Function List Option

structure Timeval where
  sec : Int
  usec : Int

def Timeval.cmp (a b : Timeval) : Int :=
  if a.sec < b.sec then -1
  else if a.sec > b.sec then 1
  else if a.usec < b.usec then -1
  else if a.usec > b.usec then 1
  else 0

def Timeval.add (a b : Timeval) : Timeval :=
  if a.usec + b.usec > 1000000 then ⟨a.sec + b.sec + 1, a.usec + b.usec - 1000000⟩
  else ⟨a.sec + b.sec, a.usec + b.usec⟩

structure TimerEntry (β α : Type) where
  timerId : Nat
  itv : Timeval
  tv : Timeval
  cb : β
  args : α

/-- An index of `tq`, below `TIMER_DATABASE_SIZE`. As an identifier, `none` is
`NAS_TIMER_INACTIVE_ID`. -/
abbrev TimerSlot := Fin 256

structure TimerDatabase (β α : Type) where
  timerId : Nat
  tq : TimerSlot → Option (TimerEntry β α)
  queue : List TimerSlot
  armed : List Nat
  /-- The slot, callback and arguments that an ITTI timer was set up for. -/
  started : Nat → Option (TimerSlot × β × α)

/-- `itti` is the identifier that `timer_setup` gives, or what was in the memory of the
entry if it fails. -/
inductive TimerCall (β α : Type) where
  | start (sec : Int) (cb : β) (args : α) (memory : Bool) (now : Timeval) (setup : Bool)
      (itti : Nat)
  | stop (id : Option TimerSlot)
  | restart (id : Option TimerSlot) (now : Timeval)
  | expiry (itti : Nat)

namespace TimerDatabase

variable {β α : Type}

def init : TimerDatabase β α := ⟨0, fun _ => none, [], [], fun _ => none⟩

variable (db : TimerDatabase β α)

def getId : Option TimerSlot :=
  let slots := List.finRange 256
  (slots.filter (db.timerId ≤ ·.val) ++ slots.filter (·.val < db.timerId)).find? fun id =>
    (db.tq id).isNone

/-- `_nas_timer_db_insert_entry`: behind the entries that are not due later. -/
def insertEntry (id : TimerSlot) (te : TimerEntry β α) (now : Timeval) : TimerDatabase β α :=
  let tq := update db.tq id (some { te with tv := te.tv.add now })
  let tv := fun id => ((tq id).map TimerEntry.tv).getD ⟨0, 0⟩
  { db with
    tq := tq
    queue := db.queue.orderedInsert (fun new next => 0 < (tv next).cmp (tv new)) id }

def timerRemove (itti : Nat) : TimerDatabase β α :=
  { db with armed := db.armed.filter (· ≠ itti) }

/-- `_nas_timer_db_remove_entry`: the timer that it removes is the one of the new head. -/
def removeEntry (id : TimerSlot) : TimerDatabase β α :=
  let removed := { db with queue := db.queue.erase id }
  if db.queue.head? = some id then
    match removed.queue.head?.bind db.tq with
    | some head => removed.timerRemove head.timerId
    | none => removed
  else removed

def nasTimerStart (sec : Int) (cb : β) (args : α) (memory : Bool) (now : Timeval) (setup : Bool)
    (itti : Nat) : TimerDatabase β α × Option TimerSlot :=
  if sec = 0 then (db, none)
  else
    match db.getId with
    | none => (db, none)
    | some id =>
      let db := { db with timerId := id + 1 }
      if memory then
        let inserted := db.insertEntry id ⟨itti, ⟨sec, 0⟩, ⟨sec, 0⟩, cb, args⟩ now
        if setup then
          ({ inserted with
            armed := itti :: db.armed
            started := update db.started itti (some (id, cb, args)) }, some id)
        else (inserted, none)
      else (db, none)

def nasTimerStop (id : Option TimerSlot) : TimerDatabase β α × Option TimerSlot :=
  match id with
  | none => (db, none)
  | some slot =>
    match db.tq slot with
    | none => (db, id)
    | some entry =>
      ({ (db.removeEntry slot).timerRemove entry.timerId with tq := update db.tq slot none }, none)

def nasTimerRestart (id : Option TimerSlot) (now : Timeval) :
    TimerDatabase β α × Option TimerSlot :=
  match id with
  | none => (db, none)
  | some slot =>
    match db.tq slot with
    | none => (db, none)
    | some te => ((db.removeEntry slot).insertEntry slot { te with tv := te.itv } now, id)

/-- The callback with its arguments that `nas_timer_handle_signal_expiry` runs. -/
def nasTimerHandleSignalExpiry (_timerId : Nat) : Option (β × α) :=
  (db.queue.head?.bind db.tq).map fun te => (te.cb, te.args)

/-- Without an entry, the handler follows a null pointer. -/
def step : TimerCall β α → Option (TimerDatabase β α)
  | .start sec cb args memory now setup itti =>
    some (db.nasTimerStart sec cb args memory now setup itti).1
  | .stop id => some (db.nasTimerStop id).1
  | .restart id now => some (db.nasTimerRestart id now).1
  | .expiry itti => (db.nasTimerHandleSignalExpiry itti).map fun _ => db

/-- The timers of all other entries stay armed, and an expiry runs the callback of its timer. -/
def Independent : TimerCall β α → Prop
  | .start .. => True
  | .stop id => ∀ other entry, some other ≠ id → db.tq other = some entry →
      entry.timerId ∈ (db.nasTimerStop id).1.armed
  | .restart id now => ∀ other entry, some other ≠ id → db.tq other = some entry →
      entry.timerId ∈ (db.nasTimerRestart id now).1.armed
  | .expiry itti => ∀ id entry, db.tq id = some entry → entry.timerId = itti →
      db.nasTimerHandleSignalExpiry itti = (db.started itti).map Prod.snd

/-- ITTI sets up a timer with a new identifier, the first of several entries is neither
stopped nor restarted, and the timer that expires is the one of the first entry. -/
def HeadKept : TimerCall β α → Prop
  | .start _ _ _ _ _ setup itti => setup ∧ itti ∉ db.armed
  | .stop id | .restart id _ => db.queue.head? = id → db.queue.length ≤ 1
  | .expiry itti => (db.queue.head?.bind db.tq).map TimerEntry.timerId = some itti

def Sound : Prop := ∀ id entry, db.tq id = some entry →
  entry.timerId ∈ db.armed ∧ db.started entry.timerId = some (id, entry.cb, entry.args)

variable {db}

theorem removeEntry_eq {id : TimerSlot} (kept : db.queue.head? = some id → db.queue.length ≤ 1) :
    db.removeEntry id = { db with queue := db.queue.erase id } := by
  simp only [removeEntry]
  split
  next first =>
    obtain ⟨rest, split⟩ := head?_eq_some_iff.mp first
    obtain rfl : rest = [] := by simpa [split] using kept first
    simp [split]
  · rfl

theorem Sound.start (sound : db.Sound) (sec : Int) (cb : β) (args : α) (memory : Bool)
    (now : Timeval) {itti : Nat} (new : itti ∉ db.armed) :
    (db.nasTimerStart sec cb args memory now true itti).1.Sound := by
  simp only [nasTimerStart, if_true]
  split
  · exact sound
  · split
    · exact sound
    next id found =>
      split
      · intro other entry held
        simp only [insertEntry, update_apply] at held ⊢
        split at held
        next same =>
          cases held
          exact ⟨mem_cons_self .., by rw [if_pos rfl, same]⟩
        · obtain ⟨armed, started⟩ := sound other entry held
          have apart : entry.timerId ≠ itti := fun same => new (same ▸ armed)
          exact ⟨mem_cons_of_mem _ armed, by rw [if_neg apart, started]⟩
      · exact sound

theorem Sound.stop {id : Option TimerSlot} (sound : db.Sound)
    (kept : db.queue.head? = id → db.queue.length ≤ 1) :
    (db.nasTimerStop id).1.Sound ∧
      ∀ other, some other ≠ id → (db.nasTimerStop id).1.tq other = db.tq other := by
  cases id with
  | none => exact ⟨sound, fun _ _ => rfl⟩
  | some slot =>
    simp only [nasTimerStop]
    split
    · exact ⟨sound, fun _ _ => rfl⟩
    next entry stopped =>
      refine ⟨fun other found held => ?_, fun _ apart => update_of_ne (mt (congrArg some) apart) ..⟩
      simp only [removeEntry_eq kept, timerRemove, update_apply] at held ⊢
      split at held
      · cases held
      next apart =>
        obtain ⟨armed, started⟩ := sound other found held
        refine ⟨mem_filter.mpr ⟨armed, decide_eq_true fun same => apart ?_⟩, started⟩
        rw [same, (sound slot entry stopped).2] at started
        exact (Prod.ext_iff.mp (some.inj started)).1.symm

theorem Sound.restart {id : Option TimerSlot} (sound : db.Sound)
    (kept : db.queue.head? = id → db.queue.length ≤ 1) (now : Timeval) :
    (db.nasTimerRestart id now).1.Sound ∧
      ∀ other, some other ≠ id → (db.nasTimerRestart id now).1.tq other = db.tq other := by
  cases id with
  | none => exact ⟨sound, fun _ _ => rfl⟩
  | some slot =>
    simp only [nasTimerRestart, removeEntry_eq kept]
    split
    · exact ⟨sound, fun _ _ => rfl⟩
    next te active =>
      refine ⟨fun other found held => ?_, fun _ apart => update_of_ne (mt (congrArg some) apart) ..⟩
      simp only [insertEntry, update_apply] at held
      split at held
      next same =>
        cases held
        exact same ▸ sound slot te active
      · exact sound other found held

theorem Sound.step {call : TimerCall β α} (sound : db.Sound) (kept : db.HeadKept call) :
    db.Independent call ∧ ∃ next, db.step call = some next ∧ next.Sound := by
  cases call with
  | start sec cb args memory now setup itti =>
    obtain ⟨rfl, new⟩ := kept
    exact ⟨trivial, _, rfl, sound.start _ _ _ _ _ new⟩
  | stop id =>
    obtain ⟨after, others⟩ := sound.stop kept
    exact ⟨fun other entry apart held =>
      (after other entry ((others other apart).trans held)).1, _, rfl, after⟩
  | restart id now =>
    obtain ⟨after, others⟩ := sound.restart kept now
    exact ⟨fun other entry apart held =>
      (after other entry ((others other apart).trans held)).1, _, rfl, after⟩
  | expiry itti =>
    obtain ⟨entry, first, rfl⟩ := map_eq_some_iff.mp kept
    obtain ⟨id, -, held⟩ := bind_eq_some_iff.mp first
    have runs : db.nasTimerHandleSignalExpiry entry.timerId = some (entry.cb, entry.args) := by
      rw [nasTimerHandleSignalExpiry, first, map_some]
    refine ⟨fun _ _ _ _ => ?_, db, ?_, sound⟩
    · rw [runs, (sound id entry held).2, map_some]
    · rw [TimerDatabase.step, runs, map_some]

theorem holdsAlong_independent {calls : List (TimerCall β α)} (sound : db.Sound)
    (kept : HoldsAlong step HeadKept db calls) :
    (∃ last, execute step db calls = some last) ∧ HoldsAlong step Independent db calls := by
  induction calls generalizing db with
  | nil => exact ⟨⟨db, rfl⟩, trivial⟩
  | cons call calls ih =>
    obtain ⟨independent, next, stepped, after⟩ := sound.step kept.1
    obtain ⟨⟨last, ran⟩, later⟩ := ih after (kept.2 next stepped)
    refine ⟨⟨last, by rw [execute, stepped, bind_some, ran]⟩, independent, ?_⟩
    intro other same
    cases stepped.symm.trans same
    exact later

/-- As long as the entries come and go behind the head, the timers do not disturb each other. -/
theorem nas_timers_independent {calls : List (TimerCall β α)}
    (kept : HoldsAlong step HeadKept init calls) :
    (∃ last, execute step init calls = some last) ∧ HoldsAlong step Independent init calls :=
  holdsAlong_independent nofun kept

instance (db : TimerDatabase β α) : ∀ call, Decidable (db.HeadKept call)
  | .start _ _ _ _ _ _ _ => inferInstanceAs (Decidable (_ ∧ _))
  | .stop _ => inferInstanceAs (Decidable (_ → _))
  | .restart _ _ => inferInstanceAs (Decidable (_ → _))
  | .expiry _ => inferInstanceAs (Decidable (_ = _))

def twoTimers : List (TimerCall Nat Nat) :=
  [.start 10 1 100 true ⟨0, 0⟩ true 7, .start 20 2 200 true ⟨0, 0⟩ true 8]

theorem two_timers_independent : HoldsAlong step Independent init
    (twoTimers ++ [.expiry 7, .restart (some 1) ⟨5, 0⟩, .stop (some 1)]) :=
  (nas_timers_independent (by decide +kernel)).2

/-- Stopping the first of two timers disarms the other one, and an expiry of the
second one runs the callback of the first. -/
theorem not_nas_timers_independent :
    ¬HoldsAlong step Independent init (twoTimers ++ [.stop (some 0)]) ∧
      ¬HoldsAlong step Independent init (twoTimers ++ [.expiry 8]) := by
  constructor
  · intro along
    have armed := ((along.2 _ rfl).2 _ rfl).1 1 _ (by decide) rfl
    revert armed
    decide +kernel
  · intro along
    have ran := ((along.2 _ rfl).2 _ rfl).1 1 _ rfl rfl
    revert ran
    decide +kernel

end TimerDatabase

end OpenAir.Nas
