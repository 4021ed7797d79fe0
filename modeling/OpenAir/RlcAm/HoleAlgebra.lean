import OpenAir.RlcAm.NackProperties
import Mathlib.Tactic

/-! The holes of a transmitted PDU as a set of octets. Additions are unions and
removals are differences as long as the ranges meet the holes cleanly: an added
range must not touch a hole, and a removed one must take whole holes and have no
hole behind it. -/

set_option autoImplicit false

namespace OpenAir.RlcAm

open OpenAir.Base List TxPdu

inductive HoleCall where
  | add (soStart soStop : Int)
  | remove (soStart soStop : Int)
  deriving DecidableEq, Repr

def HoleCall.run (pdu : TxPdu) : HoleCall → Option TxPdu
  | .add soStart soStop => pdu.addHole soStart soStop
  | .remove soStart soStop => pdu.removeHole soStart soStop

def TxPdu.clearHoles (pdu : TxPdu) : TxPdu := { pdu with holes := [] }

def TxPdu.heldBytes (pdu : TxPdu) : Set Int :=
  { octet | ∃ hole ∈ pdu.holes, hole.1 ≤ octet ∧
    octet ≤ if hole.2 = soEndOfPdu then pdu.payloadSize - 1 else hole.2 }

def HoleCall.apply (octets : Set Int) : HoleCall → Set Int
  | .add soStart soStop => octets ∪ Set.Icc soStart soStop
  | .remove soStart soStop => octets \ Set.Icc soStart soStop

/-- The range lies in the PDU, and an addition leaves fewer than the maximum of holes. -/
def HoleCall.Allowed (pdu : TxPdu) : HoleCall → Prop
  | .add soStart soStop => 0 ≤ soStart ∧ soStart ≤ soStop ∧ soStop < pdu.payloadSize ∧
      pdu.holes.length + 1 < rlcAmMaxHolesReportPerPdu
  | .remove soStart soStop => 0 ≤ soStart ∧ soStart ≤ soStop ∧ soStop < pdu.payloadSize

/-- An added range is not the whole PDU and meets no hole. A removed one takes the
holes it meets wholly and has none behind it; with no hole left it begins where
the area to send again begins. -/
def HoleCall.Clean (pdu : TxPdu) : HoleCall → Prop
  | .add soStart soStop => ¬ (soStart = 0 ∧ soStop = pdu.payloadSize - 1) ∧
      ∀ hole ∈ pdu.holes, hole.2 < soStart ∨ soStop < hole.1
  | .remove soStart soStop =>
    (pdu.holes = [] → soStart = pdu.nackSoStart ∧ soStop ≤ pdu.nackSoStop ∧
      (pdu.nackSoStop ≤ soStop + 1 ∨ soStop + 1 < pdu.payloadSize)) ∧
      ∀ hole ∈ pdu.holes, hole.2 < soStart ∨ (soStart ≤ hole.1 ∧ hole.2 ≤ soStop)

instance holeCallAllowedDecidable (pdu : TxPdu) (call : HoleCall) : Decidable (call.Allowed pdu) :=
  match call with
  | .add _ _ => inferInstanceAs (Decidable (_ ∧ _))
  | .remove _ _ => inferInstanceAs (Decidable (_ ∧ _))

instance holeCallCleanDecidable (pdu : TxPdu) (call : HoleCall) : Decidable (call.Clean pdu) :=
  match call with
  | .add _ _ => inferInstanceAs (Decidable (_ ∧ _))
  | .remove _ _ => inferInstanceAs (Decidable (_ ∧ _))

/-- The holes are sorted and apart, inside the PDU, and the area to send again
reaches from the first to the last. -/
structure TxPdu.HolesSound (pdu : TxPdu) : Prop where
  sized : pdu.payloadSize ≤ soEndOfPdu
  apart : pdu.holes.Pairwise fun left right => left.2 < right.1
  inside : ∀ hole ∈ pdu.holes, 0 ≤ hole.1 ∧ hole.1 ≤ hole.2 ∧ hole.2 < pdu.payloadSize
  span : pdu.holes ≠ [] → (pdu.nackSoStart, pdu.nackSoStop) = holeSpan pdu.holes

section Steps

variable {pdu : TxPdu} {soStart soStop : Int}

theorem TxPdu.HolesSound.mem_heldBytes (sound : pdu.HolesSound) {octet : Int} :
    octet ∈ pdu.heldBytes ↔ ∃ hole ∈ pdu.holes, hole.1 ≤ octet ∧ octet ≤ hole.2 := by
  have stop : ∀ hole ∈ pdu.holes,
      (if hole.2 = soEndOfPdu then pdu.payloadSize - 1 else hole.2) = hole.2 := by
    intro hole mem
    have := sound.inside hole mem
    have := sound.sized
    exact if_neg (by omega)
  constructor
  · rintro ⟨hole, mem, starts, upTo⟩
    exact ⟨hole, mem, starts, stop hole mem ▸ upTo⟩
  · rintro ⟨hole, mem, starts, upTo⟩
    exact ⟨hole, mem, starts, (stop hole mem).symm ▸ upTo⟩

structure HolesAfter (pdu : TxPdu) (call : HoleCall) (next : TxPdu) : Prop where
  ran : call.run pdu = some next
  sound : next.HolesSound
  size : next.payloadSize = pdu.payloadSize
  bytes : next.heldBytes = call.apply pdu.heldBytes

theorem holeSpan_eq {holes : List (Int × Int)} (filled : holes ≠ []) :
    holeSpan holes = ((holes.head filled).1, (holes.getLast filled).2) := by
  rw [holeSpan, head?_eq_some_head filled, getLast?_eq_some_getLast filled]

theorem holeSpan_insert {before after : List (Int × Int)} {hole : Int × Int} :
    holeSpan (before ++ hole :: after) =
      (if before = [] then hole.1 else (holeSpan (before ++ after)).1,
        if after = [] then hole.2 else (holeSpan (before ++ after)).2) := by
  rw [holeSpan_eq (by simp)]
  cases before with
  | nil =>
    cases after with
    | nil => rfl
    | cons next rest =>
      rw [holeSpan_eq (by simp)]
      simp
  | cons first others =>
    rw [holeSpan_eq (by simp)]
    cases after with
    | nil => simp
    | cons next rest => simp

theorem TxPdu.HolesSound.span_fst (sound : pdu.HolesSound) (filled : pdu.holes ≠ []) :
    pdu.nackSoStart < pdu.payloadSize := by
  have span := congrArg Prod.fst (sound.span filled)
  rw [holeSpan_eq filled] at span
  have first := sound.inside _ (head_mem filled)
  omega

theorem TxPdu.HolesSound.insert (sound : pdu.HolesSound) (filled : pdu.holes ≠ [])
    (range : 0 ≤ soStart ∧ soStart ≤ soStop ∧ soStop < pdu.payloadSize)
    (few : pdu.holes.length + 1 < rlcAmMaxHolesReportPerPdu)
    (clear : ∀ hole ∈ pdu.holes, hole.2 < soStart ∨ soStop < hole.1) :
    ∃ next, pdu.insertHole soStart soStop = some next ∧ next.HolesSound ∧
      next.payloadSize = pdu.payloadSize ∧ next.holes.Perm ((soStart, soStop) :: pdu.holes) := by
  obtain ⟨next, inserted⟩ := insertHole_returns clear few (by omega) (sound.span_fst filled)
  obtain ⟨size, -, perm, -⟩ := insertHole_some inserted
  refine ⟨next, inserted, ⟨size ▸ sound.sized, ?_, fun hole mem => ?_, fun _ => ?_⟩, size, perm⟩
  · exact insertHole_apart sound.apart (fun hole mem => (sound.inside hole mem).2.1) inserted
  · rw [size]
    rcases mem_cons.mp (perm.mem_iff.mp mem) with rfl | earlier
    · exact range
    · exact sound.inside hole earlier
  · obtain ⟨before, after, joined, -, -, -, rfl⟩ := insertHole_split inserted
    rw [holeSpan_insert, joined, ← sound.span filled]

theorem TxPdu.HolesSound.add (sound : pdu.HolesSound)
    (allowed : (HoleCall.add soStart soStop).Allowed pdu)
    (clean : (HoleCall.add soStart soStop).Clean pdu) :
    ∃ next, HolesAfter pdu (.add soStart soStop) next := by
  obtain ⟨start, forwards, within, few⟩ := allowed
  obtain ⟨notWhole, clear⟩ := clean
  have sized := sound.sized
  have notEnd : soStop ≠ soEndOfPdu := by omega
  have range : soStart ≤ soStop ∧ soStart < soEndOfPdu ∧ soStop ≤ soEndOfPdu := by omega
  have part : ¬ (soStart = 0 ∧ (soStop = soEndOfPdu ∨ soStop = pdu.payloadSize - 1)) := by
    rintro ⟨atStart, isEnd | isEnd⟩
    · exact notEnd isEnd
    · exact notWhole ⟨atStart, isEnd⟩
  by_cases empty : pdu.holes = []
  · have added : HoleCall.run pdu (.add soStart soStop) =
        some { pdu with
          holes := [(soStart, soStop)], nackSoStart := soStart, nackSoStop := soStop } := by
      simp only [HoleCall.run, addHole, if_pos range, if_neg part, if_neg notEnd, if_pos empty]
      exact if_pos (by omega)
    have next : HolesSound { pdu with
        holes := [(soStart, soStop)], nackSoStart := soStart, nackSoStop := soStop } := by
      refine ⟨sized, pairwise_singleton _ _, ?_, fun _ => rfl⟩
      intro hole mem
      rw [mem_singleton.mp mem]
      exact ⟨start, forwards, within⟩
    refine ⟨_, added, next, rfl, ?_⟩
    ext octet
    rw [next.mem_heldBytes, HoleCall.apply, Set.mem_union, sound.mem_heldBytes, empty]
    simp
  · obtain ⟨next, inserted, nextSound, size, holes⟩ :=
      sound.insert empty ⟨start, forwards, within⟩ few clear
    refine ⟨next, ?_, nextSound, size, ?_⟩
    · simp only [HoleCall.run, addHole, if_pos range, if_neg part, if_neg notEnd,
        if_neg empty]
      exact inserted
    · ext octet
      rw [nextSound.mem_heldBytes, HoleCall.apply, Set.mem_union, sound.mem_heldBytes, Set.mem_Icc]
      simp only [holes.mem_iff, mem_cons, exists_eq_or_imp]
      exact or_comm

theorem removeFromHoles_clean {holes : List (Int × Int)} {count : Nat}
    (filled : ∀ hole ∈ holes, hole.1 ≤ hole.2)
    (clean : ∀ hole ∈ holes, hole.2 < soStart ∨ (soStart ≤ hole.1 ∧ hole.2 ≤ soStop)) :
    removeFromHoles soStart soStop count holes =
      some (holes.filter fun hole => decide (hole.2 < soStart), false) := by
  induction holes generalizing count with
  | nil => rfl
  | cons hole rest ih =>
    obtain ⟨start, stop⟩ := hole
    have here := filled (start, stop) mem_cons_self
    have others : ∀ count, removeFromHoles soStart soStop count rest =
        some (rest.filter fun hole => decide (hole.2 < soStart), false) := fun count =>
      ih (fun hole mem => filled hole (mem_cons_of_mem _ mem))
        (fun hole mem => clean hole (mem_cons_of_mem _ mem))
    rcases clean (start, stop) mem_cons_self with before | taken
    · rw [removeFromHoles, if_neg (by omega), if_neg (by omega), others]
      simp [before]
    · rw [removeFromHoles, if_pos taken.1, if_pos taken.2, others]
      have notBefore : ¬ stop < soStart := by omega
      simp [notBefore]

theorem TxPdu.HolesSound.remove (sound : pdu.HolesSound)
    (allowed : (HoleCall.remove soStart soStop).Allowed pdu)
    (clean : (HoleCall.remove soStart soStop).Clean pdu) :
    ∃ next, HolesAfter pdu (.remove soStart soStop) next := by
  obtain ⟨start, forwards, within⟩ := allowed
  obtain ⟨nothing, clear⟩ := clean
  by_cases empty : pdu.holes = []
  · obtain ⟨atStart, upTo, room⟩ := nothing empty
    have left : (if soStop + 1 ≥ pdu.nackSoStop then (0, soEndOfPdu)
        else (soStop + 1, pdu.nackSoStop)).1 < pdu.payloadSize := by
      split
      · omega
      · omega
    have removed : HoleCall.run pdu (.remove soStart soStop) = some
        { pdu with
          nackSoStart := (if soStop + 1 ≥ pdu.nackSoStop then (0, soEndOfPdu)
            else (soStop + 1, pdu.nackSoStop)).1
          nackSoStop := (if soStop + 1 ≥ pdu.nackSoStop then (0, soEndOfPdu)
            else (soStop + 1, pdu.nackSoStop)).2 } := by
      simp only [HoleCall.run, removeHole, if_pos forwards, if_pos empty]
      rw [if_pos ⟨atStart, upTo⟩, if_pos left]
    refine ⟨_, removed, ⟨sound.sized, sound.apart, sound.inside, ?_⟩, rfl, ?_⟩
    · exact fun filled => absurd empty filled
    · simp [heldBytes, HoleCall.apply, empty]
  · have kept : removeFromHoles soStart soStop pdu.holes.length pdu.holes = _ :=
      removeFromHoles_clean (fun hole mem => (sound.inside hole mem).2.1) clear
    generalize holesEq : (pdu.holes.filter fun hole => decide (hole.2 < soStart)) = holes at kept
    have members : ∀ hole, hole ∈ holes ↔ hole ∈ pdu.holes ∧ hole.2 < soStart := by
      intro hole
      rw [← holesEq, mem_filter, decide_eq_true_eq]
    have left : (holeSpan holes).1 < pdu.payloadSize := by
      by_cases none : holes = []
      · rw [none]
        exact Int.lt_of_le_of_lt (start.trans forwards) within
      · rw [holeSpan_eq none]
        have first := sound.inside _ ((members _).mp (head_mem none)).1
        omega
    have removed : HoleCall.run pdu (.remove soStart soStop) = some
        { pdu with
          holes := holes
          nackSoStart := (holeSpan holes).1
          nackSoStop := (holeSpan holes).2 } := by
      simp only [HoleCall.run, removeHole, if_pos forwards, if_neg empty, kept, Option.bind_some]
      exact if_pos (.inr left)
    have next : HolesSound { pdu with
        holes := holes, nackSoStart := (holeSpan holes).1, nackSoStop := (holeSpan holes).2 } := by
      refine ⟨sound.sized, ?_, ?_, fun _ => rfl⟩
      · rw [← holesEq]
        exact List.Pairwise.filter _ sound.apart
      · exact fun hole mem => sound.inside hole ((members hole).mp mem).1
    refine ⟨_, removed, next, rfl, ?_⟩
    ext octet
    rw [next.mem_heldBytes, HoleCall.apply, Set.mem_sdiff, sound.mem_heldBytes, Set.mem_Icc]
    constructor
    · rintro ⟨hole, mem, covers⟩
      obtain ⟨stored, before⟩ := (members hole).mp mem
      exact ⟨⟨hole, stored, covers⟩, by omega⟩
    · rintro ⟨⟨hole, stored, covers⟩, outside⟩
      rcases clear hole stored with before | taken
      · exact ⟨hole, (members hole).mpr ⟨stored, before⟩, covers⟩
      · exact absurd ⟨taken.1.trans covers.1, covers.2.trans taken.2⟩ outside

end Steps

structure SetAlgebra (calls : List HoleCall) (pdu : TxPdu) : Prop where
  apart : pdu.holes.Pairwise fun left right => left.2 < right.1
  bytes : pdu.heldBytes = calls.foldl HoleCall.apply ∅
  span : pdu.heldBytes.Nonempty →
    IsLeast pdu.heldBytes pdu.nackSoStart ∧ IsGreatest pdu.heldBytes pdu.nackSoStop

variable {pdu : TxPdu}

theorem TxPdu.HolesSound.between (sound : pdu.HolesSound) {hole : Int × Int}
    (mem : hole ∈ pdu.holes) (filled : pdu.holes ≠ []) :
    (pdu.holes.head filled).1 ≤ hole.1 ∧ hole.2 ≤ (pdu.holes.getLast filled).2 := by
  have apart := sound.apart
  have inside := sound.inside
  constructor
  · rw [← cons_head_tail filled] at mem apart
    rcases mem_cons.mp mem with same | later
    · rw [same]
    · have := (pairwise_cons.mp apart).1 hole later
      have := inside _ (head_mem filled)
      omega
  · rw [← dropLast_append_getLast filled] at mem apart
    rcases mem_append.mp mem with earlier | last
    · have := (pairwise_append.mp apart).2.2 hole earlier _ (mem_singleton_self _)
      have := inside _ (getLast_mem filled)
      omega
    · rw [mem_singleton.mp last]

theorem TxPdu.HolesSound.span_bounds (sound : pdu.HolesSound) (nonempty : pdu.heldBytes.Nonempty) :
    IsLeast pdu.heldBytes pdu.nackSoStart ∧ IsGreatest pdu.heldBytes pdu.nackSoStop := by
  obtain ⟨_, inside⟩ := nonempty
  obtain ⟨hole, mem, _⟩ := sound.mem_heldBytes.mp inside
  have filled := ne_nil_of_mem mem
  have span := sound.span filled
  rw [holeSpan_eq filled] at span
  obtain ⟨start, stop⟩ := Prod.mk.inj span
  rw [start, stop]
  have firstInside := sound.inside _ (head_mem filled)
  have lastInside := sound.inside _ (getLast_mem filled)
  refine ⟨⟨sound.mem_heldBytes.mpr ⟨_, head_mem filled, le_rfl, firstInside.2.1⟩, ?_⟩,
    ⟨sound.mem_heldBytes.mpr ⟨_, getLast_mem filled, lastInside.2.1, le_rfl⟩, ?_⟩⟩
  · intro octet covered
    obtain ⟨other, stored, covers⟩ := sound.mem_heldBytes.mp covered
    exact (sound.between stored filled).1.trans covers.1
  · intro octet covered
    obtain ⟨other, stored, covers⟩ := sound.mem_heldBytes.mp covered
    exact covers.2.trans (sound.between stored filled).2

theorem TxPdu.HolesSound.call (sound : pdu.HolesSound) {call : HoleCall}
    (allowed : call.Allowed pdu) (clean : call.Clean pdu) : ∃ next, HolesAfter pdu call next := by
  cases call with
  | add soStart soStop => exact sound.add allowed clean
  | remove soStart soStop => exact sound.remove allowed clean

theorem TxPdu.HolesSound.run (sound : pdu.HolesSound) {calls : List HoleCall}
    (allowed : HoldsAlong HoleCall.run (fun pdu call => call.Allowed pdu) pdu calls)
    (clean : HoldsAlong HoleCall.run (fun pdu call => call.Clean pdu) pdu calls) :
    ∃ final, execute HoleCall.run pdu calls = some final ∧ final.HolesSound ∧
      final.heldBytes = calls.foldl HoleCall.apply pdu.heldBytes := by
  induction calls generalizing pdu with
  | nil => exact ⟨pdu, rfl, sound, rfl⟩
  | cons call rest ih =>
    obtain ⟨next, after⟩ := sound.call allowed.1 clean.1
    obtain ⟨final, ended, finalSound, bytes⟩ :=
      ih after.sound (allowed.2 next after.ran) (clean.2 next after.ran)
    refine ⟨final, by simp [execute, after.ran, ended], finalSound, ?_⟩
    rw [bytes, after.bytes, foldl_cons]

theorem holes_are_set_algebra (pdu : TxPdu) (sized : pdu.payloadSize ≤ soEndOfPdu)
    (calls : List HoleCall)
    (allowed : HoldsAlong HoleCall.run (fun pdu call => call.Allowed pdu) pdu.clearHoles calls)
    (clean : HoldsAlong HoleCall.run (fun pdu call => call.Clean pdu) pdu.clearHoles calls) :
    ∃ final, execute HoleCall.run pdu.clearHoles calls = some final ∧ SetAlgebra calls final := by
  have sound : pdu.clearHoles.HolesSound :=
    ⟨sized, .nil, nofun, fun filled => absurd rfl filled⟩
  obtain ⟨final, ended, finalSound, bytes⟩ := sound.run allowed clean
  refine ⟨final, ended, finalSound.apart, ?_, finalSound.span_bounds⟩
  have none : pdu.clearHoles.heldBytes = ∅ := by
    simp [heldBytes, clearHoles]
  rw [bytes, none]

def sizedPdu (payloadSize : Int) : TxPdu := { zeroed with payloadSize := payloadSize }

def fillingCalls : List HoleCall := [.add 6 7, .add 0 2, .add 4 4, .remove 4 7]

theorem holes_filling_calls :
    (execute HoleCall.run (sizedPdu 10).clearHoles fillingCalls).map holes = some [(0, 2)] ∧
      ∃ final, execute HoleCall.run (sizedPdu 10).clearHoles fillingCalls = some final ∧
        SetAlgebra fillingCalls final :=
  ⟨by decide, holes_are_set_algebra (sizedPdu 10) (by decide) fillingCalls (by decide) (by decide)⟩

def splittingCalls : List HoleCall := [.add 0 1, .remove 0 0]

theorem removed_octet_stays :
    HoldsAlong HoleCall.run (fun pdu call => call.Allowed pdu) (sizedPdu 4).clearHoles
        splittingCalls ∧
      ¬ ∃ final, execute HoleCall.run (sizedPdu 4).clearHoles splittingCalls = some final ∧
        SetAlgebra splittingCalls final := by
  refine ⟨by decide, ?_⟩
  rintro ⟨final, ended, algebra⟩
  have run : execute HoleCall.run (sizedPdu 4).clearHoles splittingCalls =
      some { sizedPdu 4 with holes := [(0, 1)], nackSoStop := 1 } := by decide
  rw [run] at ended
  cases ended
  have held : (0 : Int) ∈
      heldBytes { sizedPdu 4 with holes := [(0, 1)], nackSoStop := 1 } :=
    ⟨(0, 1), mem_singleton_self _, by decide, by decide⟩
  rw [algebra.bytes] at held
  exact held.2 (Set.mem_Icc.mpr ⟨le_rfl, le_rfl⟩)

end OpenAir.RlcAm
