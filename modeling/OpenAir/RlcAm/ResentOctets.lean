import OpenAir.RlcAm.RetransmissionQueue
import OpenAir.RlcAm.SegmentPlan
import Mathlib.Data.Set.Basic

/-! Which octets of a PDU are still to be sent again, and that a grant is not
used for a PDU without such octets. -/

set_option autoImplicit false

namespace OpenAir.RlcAm

open OpenAir.Base List Option

def TxPdu.lastNacked (pdu : TxPdu) : Int :=
  if pdu.holes = [] ∧ pdu.nackSoStop = soEndOfPdu then pdu.payloadSize - 1 else pdu.nackSoStop

def nackedOctets (payloadSize soStart soStop : Int) : Set Int :=
  { octet | soStart ≤ octet ∧ octet ≤ (if soStop = soEndOfPdu then payloadSize - 1 else soStop) ∧
    octet < payloadSize }

structure TxPdu.HolesOrdered (pdu : TxPdu) : Prop where
  apart : pdu.holes.Pairwise fun left right => left.2 < right.1
  proper : ∀ hole ∈ pdu.holes, hole.1 ≤ hole.2
  ends : ∀ last ∈ pdu.holes.getLast?, pdu.nackSoStop = last.2

structure TxPdu.Remembers (pdu : TxPdu) (missing : Set Int) : Prop extends pdu.HolesOrdered where
  last : pdu.retransmit ∨ pdu.holes ≠ [] → pdu.lastNacked ∈ missing

section Holes

variable {pdu other : TxPdu} {missing : Set Int} {soStart soStop : Int}

namespace TxPdu

theorem HolesOrdered.of_nil (none : pdu.holes = []) : pdu.HolesOrdered := by
  refine ⟨?_, ?_, ?_⟩
  · rw [none]
    exact List.Pairwise.nil
  · simp [none]
  · simp [none]

theorem HolesOrdered.clearedAt (ordered : pdu.HolesOrdered) (frame : Nat) :
    (pdu.clearedAt frame).HolesOrdered := by
  rw [TxPdu.clearedAt]
  split
  · exact .of_nil rfl
  · exact ordered

theorem HolesOrdered.insertHole (ordered : pdu.HolesOrdered) (proper : soStart ≤ soStop)
    (inserted : pdu.insertHole soStart soStop = some other) :
    other.HolesOrdered ∧ (other.nackSoStop = soStop ∨ other.nackSoStop = pdu.nackSoStop) := by
  obtain ⟨-, -, perm, -⟩ := insertHole_some inserted
  refine ⟨⟨insertHole_apart ordered.apart ordered.proper inserted, ?_, ?_⟩, ?_⟩
  · intro hole mem
    rcases mem_cons.mp (perm.mem_iff.mp mem) with rfl | earlier
    · exact proper
    · exact ordered.proper hole earlier
  · obtain ⟨before, after, joined, -, -, -, rfl⟩ := insertHole_split inserted
    intro last isLast
    cases after with
    | nil =>
      have : (soStart, soStop) = last := by simpa using isLast
      rw [← this]
      rfl
    | cons head rest =>
      refine ordered.ends last ?_
      rw [← joined]
      simpa using isLast
  · obtain ⟨before, after, -, -, -, -, rfl⟩ := insertHole_split inserted
    simp only
    split
    · exact Or.inl rfl
    · exact Or.inr rfl

theorem recordedAt_of_ne_nil {frame : Nat} (some_ : pdu.recordedAt frame ≠ []) :
    pdu.recordedAt frame = pdu.holes := by
  rw [recordedAt] at some_ ⊢
  split at some_
  · exact absurd rfl some_
  next same => exact if_neg same

def Spans (pdu : TxPdu) (soStart soStop : Int) : Prop :=
  soStart < pdu.payloadSize ∧ (soStop = soEndOfPdu ∨ soStop < pdu.payloadSize)

theorem Remembers.nacked (remembers : pdu.Remembers missing) {frame : Nat}
    (spans : pdu.Spans soStart soStop) (recorded : pdu.nacked frame soStart soStop = some other) :
    other.Remembers (missing ∪ nackedOctets pdu.payloadSize soStart soStop) := by
  obtain ⟨holed, added, -, rfl⟩ := nacked_spec recorded
  have ordered := remembers.toHolesOrdered.clearedAt frame
  rw [clearedAt_eq] at added ordered
  obtain ⟨starts, ends⟩ := spans
  suffices noted : holed.HolesOrdered ∧
      holed.lastNacked ∈ missing ∪ nackedOctets pdu.payloadSize soStart soStop from
    ⟨⟨noted.1.apart, noted.1.proper, noted.1.ends⟩, fun _ => noted.2⟩
  simp only [addHole, ite_none_right_eq_some] at added
  obtain ⟨⟨proper, -, -⟩, added⟩ := added
  have reported : (if soStop = soEndOfPdu then pdu.payloadSize - 1 else soStop) ∈
      nackedOctets pdu.payloadSize soStart soStop := by
    refine ⟨?_, Int.le_refl _, ?_⟩
    · split
      · omega
      · exact proper
    · split
      · omega
      · omega
  split at added
  next whole =>
    cases added
    refine ⟨.of_nil rfl, Or.inr ?_⟩
    simp only [lastNacked, true_and]
    exact reported
  · split at added
    · cases added
      refine ⟨⟨pairwise_singleton _ _, ?_, ?_⟩, Or.inr ?_⟩
      · intro hole mem
        rw [mem_singleton.mp mem]
        exact reported.1
      · intro last isLast
        cases isLast
        rfl
      · exact reported
    next holes =>
      obtain ⟨kept, stops⟩ := ordered.insertHole reported.1 added
      refine ⟨kept, ?_⟩
      have more : holed.holes ≠ [] := by
        obtain ⟨-, -, perm, -⟩ := insertHole_some added
        rintro none
        cases (none ▸ perm).length_eq
      rw [lastNacked, if_neg fun none => more none.1]
      rcases stops with new | old
      · exact Or.inr (new ▸ reported)
      · have same := recordedAt_of_ne_nil holes
        have was := remembers.last (Or.inr (same ▸ holes))
        rw [lastNacked, if_neg fun none => holes (same.trans none.1)] at was
        exact Or.inl (by rw [old]; exact was)

end TxPdu

theorem removeFromHoles_first {start stop cut : Int} {rest : List (Int × Int)} {count : Nat}
    (apart : ((start, stop) :: rest).Pairwise fun left right => left.2 < right.1)
    (proper : ∀ hole ∈ (start, stop) :: rest, hole.1 ≤ hole.2) (upTo : cut ≤ stop) :
    (rest = [] ∧ cut = stop ∧ removeFromHoles start cut count ((start, stop) :: rest) =
        some ([], false)) ∨
      ∃ next tail, removeFromHoles start cut count ((start, stop) :: rest) =
          some ((cut, next) :: tail, true) ∧
        (((cut, next) :: tail).Pairwise fun left right => left.2 < right.1) ∧
        (∀ hole ∈ (cut, next) :: tail, hole.1 ≤ hole.2) ∧
        ∀ last ∈ ((start, stop) :: rest).getLast?, ∀ cutLast ∈ ((cut, next) :: tail).getLast?,
          cutLast.2 = last.2 ∧ cut < last.2 := by
  obtain ⟨beyond, restApart⟩ := pairwise_cons.mp apart
  have restProper : ∀ hole ∈ rest, hole.1 ≤ hole.2 := fun hole mem =>
    proper hole (mem_cons_of_mem _ mem)
  by_cases inside : cut < stop
  · refine Or.inr ⟨stop, rest, ?_, pairwise_cons.mpr ⟨beyond, restApart⟩, ?_, ?_⟩
    · rw [removeFromHoles, if_pos (Int.le_refl _), if_neg (by omega)]
    · intro hole mem
      rcases mem_cons.mp mem with rfl | later
      · exact Int.le_of_lt inside
      · exact restProper hole later
    · intro last isLast cutLast isCutLast
      cases rest with
      | nil =>
        cases isLast
        cases isCutLast
        exact ⟨rfl, inside⟩
      | cons head rest =>
        rw [getLast?_cons_cons] at isLast isCutLast
        obtain rfl : last = cutLast := Option.some.inj (isLast.symm.trans isCutLast)
        have mem := mem_of_getLast? isLast
        have := beyond last mem
        have := restProper last mem
        exact ⟨rfl, by omega⟩
  · obtain rfl : cut = stop := by omega
    cases rest with
    | nil =>
      refine Or.inl ⟨rfl, rfl, ?_⟩
      rw [removeFromHoles, if_pos (Int.le_refl _), if_pos (Int.le_refl _), removeFromHoles]
    | cons head rest =>
      obtain ⟨next, last⟩ := head
      have first := beyond (next, last) mem_cons_self
      have span := restProper (next, last) mem_cons_self
      have whole := proper (start, cut) mem_cons_self
      obtain ⟨after, tailApart⟩ := pairwise_cons.mp restApart
      refine Or.inr ⟨last, rest, ?_, pairwise_cons.mpr ⟨after, tailApart⟩, ?_, ?_⟩
      · rw [removeFromHoles, if_pos (Int.le_refl _), if_pos (Int.le_refl _), removeFromHoles,
          if_pos (by omega), if_neg (by omega)]
      · intro hole mem
        rcases mem_cons.mp mem with rfl | later
        · exact Int.le_trans (Int.le_of_lt first) span
        · exact restProper hole (mem_cons_of_mem _ later)
      · intro final isFinal cutLast isCutLast
        rw [getLast?_cons_cons] at isFinal
        have mem := mem_of_getLast? isFinal
        have := beyond final mem
        have := restProper final mem
        refine ⟨?_, by simp only at *; omega⟩
        cases rest with
        | nil =>
          cases isFinal
          cases isCutLast
          rfl
        | cons head rest =>
          rw [Option.some.inj (isFinal.symm.trans isCutLast)]

namespace TxPdu

@[simp]
theorem stopped_holes (pdu : TxPdu) : pdu.stopped.holes = pdu.holes := by
  rw [stopped]
  split
  · rfl
  · rfl

theorem stopped_nackSoStop (none : pdu.holes = []) :
    pdu.stopped.nackSoStop = pdu.lastNacked := by
  simp only [stopped, lastNacked, none, true_and]
  split
  · rfl
  · rfl

@[simp]
theorem stopped_payloadSize (pdu : TxPdu) : pdu.stopped.payloadSize = pdu.payloadSize := by
  rw [stopped]
  split
  · rfl
  · rfl

theorem passed_kept (pdu : TxPdu) (plan : SegmentPlan) :
    (pdu.passed plan).holes = pdu.holes ∧ (pdu.passed plan).nackSoStop = pdu.nackSoStop ∧
      (pdu.passed plan).payloadSize = pdu.payloadSize ∧
      (plan.pduCopySize + plan.startOffset = pdu.payloadSize →
        (pdu.passed plan).retransmit = false) := by
  simp only [passed]
  split
  · exact ⟨rfl, rfl, rfl, fun _ => rfl⟩
  next apart => exact ⟨rfl, rfl, rfl, fun equal => absurd (decide_eq_true equal) apart⟩

theorem Remembers.segmented {info : PduInfo} {size : Int} {plan : SegmentPlan}
    (remembers : pdu.Remembers missing) (marked : pdu.retransmit)
    (reaches : pdu.lastNacked = pdu.payloadSize - 1)
    (planned : pdu.stopped.planSegment info size = some plan)
    (removed : (pdu.stopped.passed plan).removeHole plan.startOffset
      (plan.pduCopySize + plan.startOffset - 1) = some other) :
    other.Remembers (missing \ { octet | plan.startOffset ≤ octet ∧
      octet < plan.startOffset + plan.pduCopySize }) := by
  obtain ⟨begins, upTo⟩ := planSegment_bounds planned
  have last := remembers.last (Or.inl marked)
  rw [reaches] at last
  have left : plan.startOffset + plan.pduCopySize < pdu.payloadSize → pdu.payloadSize - 1 ∈
      missing \ { octet | plan.startOffset ≤ octet ∧
        octet < plan.startOffset + plan.pduCopySize } := fun below =>
    ⟨last, fun taken => by have := taken.2; omega⟩
  obtain ⟨holes, stop, size, ended⟩ := pdu.stopped.passed_kept plan
  rw [stopped_holes] at holes
  rw [stopped_payloadSize] at size ended
  simp only [removeHole, ite_none_right_eq_some, holes, size] at removed
  obtain ⟨some_, removed⟩ := removed
  rw [getNextHole, stopped_holes] at begins upTo
  generalize same : pdu.holes = list at *
  cases list with
  | nil =>
    simp only [if_true, ite_none_right_eq_some, stop, stopped_nackSoStop same, reaches] at removed
    obtain ⟨⟨-, inside⟩, -, stored⟩ := removed
    cases stored
    refine ⟨.of_nil rfl, ?_⟩
    intro again
    simp only [ne_eq, not_true_eq_false, or_false] at again
    have more : plan.pduCopySize + plan.startOffset ≠ pdu.payloadSize := by
      intro equal
      rw [ended equal] at again
      cases again
    simp only [lastNacked, true_and]
    split
    · exact left (by omega)
    · simp only [ite_self]
      exact left (by omega)
  | cons first rest =>
    obtain ⟨start, finish⟩ := first
    have apart := remembers.apart
    have proper := remembers.proper
    have ends := remembers.ends
    rw [same] at apart proper ends
    simp only [headD_cons] at begins upTo
    obtain ⟨⟨kept, returned⟩, cut, stored⟩ := bind_eq_some_iff.mp removed
    obtain ⟨-, stored⟩ := ite_none_right_eq_some.mp stored
    cases stored
    have lasts : ∀ last ∈ ((start, finish) :: rest).getLast?, last.2 = pdu.payloadSize - 1 := by
      intro last isLast
      rw [← ends last isLast, ← reaches, lastNacked, if_neg]
      intro none
      rw [same] at none
      cases none.1
    rw [begins] at cut
    have upTo' : plan.pduCopySize + start - 1 ≤ finish := by omega
    rcases removeFromHoles_first apart proper upTo' with
      ⟨none, whole, emptied⟩ | ⟨next, tail, moved, keptApart, keptProper, keptLast⟩
    · rw [emptied] at cut
      cases cut
      refine ⟨.of_nil rfl, ?_⟩
      intro again
      have full : plan.pduCopySize + plan.startOffset = pdu.payloadSize := by
        have := lasts (start, finish) (by rw [none]; rfl)
        omega
      simp only [ended full, ne_eq, not_true_eq_false, or_false, reduceCtorEq] at again
    · rw [moved] at cut
      cases cut
      obtain ⟨final, isFinal⟩ : ∃ final, final ∈ ((start, finish) :: rest).getLast? :=
        ⟨_, getLast?_eq_some_getLast (cons_ne_nil _ _)⟩
      obtain ⟨cutLast, isCutLast⟩ : ∃ final, final ∈
          ((plan.pduCopySize + start - 1, next) :: tail).getLast? :=
        ⟨_, getLast?_eq_some_getLast (cons_ne_nil _ _)⟩
      obtain ⟨sameStop, below⟩ := keptLast final isFinal cutLast isCutLast
      have full := lasts final isFinal
      have span : (holeSpan ((plan.pduCopySize + start - 1, next) :: tail)).2 = cutLast.2 := by
        rw [holeSpan, head?_cons, isCutLast]
      refine ⟨⟨keptApart, keptProper, ?_⟩, ?_⟩
      · intro last isLast
        rw [Option.some.inj (isLast.symm.trans isCutLast)]
        exact span
      · intro _
        simp only [span, sameStop, full]
        exact left (by omega)

end TxPdu

end Holes

end OpenAir.RlcAm
