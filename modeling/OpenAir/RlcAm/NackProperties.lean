import Mathlib.Tactic.MkIffOfInductiveProp
import OpenAir.RlcAm.TxWindow

/-! Negative acknowledgement records areas of a PDU and leaves the window as it
is. The areas one frame reports for a PDU have to come in increasing order. -/

set_option autoImplicit false

namespace OpenAir.RlcAm

open List Option TxPdu

variable {soStart soStop : Int} {pdu other : TxPdu}

theorem TxPdu.insertHole_split (inserted : pdu.insertHole soStart soStop = some other) :
    ∃ before after, before ++ after = pdu.holes ∧ (∀ hole ∈ before.getLast?, hole.2 < soStart) ∧
      (∀ hole ∈ after.head?, soStop < hole.1) ∧ other.nackSoStart < pdu.payloadSize ∧
      other = { pdu with
        holes := before ++ (soStart, soStop) :: after
        nackSoStart := if before = [] then soStart else pdu.nackSoStart
        nackSoStop := if after = [] then soStop else pdu.nackSoStop } := by
  simp only [insertHole, ite_none_right_eq_some] at inserted
  obtain ⟨⟨clear, -, inside⟩, stored⟩ := inserted
  cases stored
  refine ⟨_, _, takeWhile_append_dropWhile, fun hole last => ?_, fun hole first => ?_, inside, rfl⟩
  · rw [Option.all_eq_true] at clear
    exact of_decide_eq_true (clear hole last)
  · have stops := head?_dropWhile_not (fun hole : Int × Int => !decide (soStop < hole.1)) pdu.holes
    rw [first] at stops
    simpa using stops

theorem TxPdu.insertHole_some (inserted : pdu.insertHole soStart soStop = some other) :
    other.payloadSize = pdu.payloadSize ∧ other.lastNackTime = pdu.lastNackTime ∧
      other.holes.Perm ((soStart, soStop) :: pdu.holes) ∧
      other.nackSoStart < other.payloadSize := by
  obtain ⟨before, after, joined, -, -, inside, rfl⟩ := insertHole_split inserted
  exact ⟨rfl, rfl, joined ▸ perm_middle, inside⟩

theorem TxPdu.insertHole_apart (apart : pdu.holes.Pairwise fun left right => left.2 < right.1)
    (proper : ∀ hole ∈ pdu.holes, hole.1 ≤ hole.2)
    (inserted : pdu.insertHole soStart soStop = some other) :
    other.holes.Pairwise fun left right => left.2 < right.1 := by
  obtain ⟨before, after, joined, last, first, -, rfl⟩ := insertHole_split inserted
  rw [← joined] at apart proper
  obtain ⟨beforeApart, afterApart, across⟩ := pairwise_append.mp apart
  have ahead : ∀ hole ∈ before, hole.2 < soStart := by
    intro hole mem
    obtain ⟨front, final, rfl⟩ :=
      (eq_nil_or_concat' before).resolve_left (ne_nil_of_mem mem)
    have clear := last final getLast?_concat
    rcases mem_append.mp mem with earlier | isLast
    · have below := (pairwise_append.mp beforeApart).2.2 hole earlier final (by simp)
      have := proper final (by simp)
      omega
    · rw [mem_singleton.mp isLast]
      exact clear
  have behind : ∀ hole ∈ after, soStop < hole.1 := by
    intro hole mem
    cases after with
    | nil => cases mem
    | cons head rest =>
      have clear := first head rfl
      rcases mem_cons.mp mem with rfl | later
      · exact clear
      · have below := (pairwise_cons.mp afterApart).1 hole later
        have := proper head (by simp)
        omega
  refine pairwise_append.mpr ⟨beforeApart, pairwise_cons.mpr ⟨behind, afterApart⟩, ?_⟩
  intro left leftMember right rightMember
  rcases mem_cons.mp rightMember with rfl | later
  · exact ahead left leftMember
  · exact across left leftMember right later

theorem TxPdu.insertHole_returns (clear : ∀ hole ∈ pdu.holes, hole.2 < soStart ∨ soStop < hole.1)
    (few : pdu.holes.length + 1 < rlcAmMaxHolesReportPerPdu) (inside : soStart < pdu.payloadSize)
    (edge : pdu.nackSoStart < pdu.payloadSize) :
    ∃ other, pdu.insertHole soStart soStop = some other := by
  have ahead : ((pdu.holes.takeWhile fun hole => !decide (soStop < hole.1)).getLast?.all
      fun hole => decide (hole.2 < soStart)) := by
    rw [Option.all_eq_true]
    intro hole last
    have mem := mem_of_getLast? last
    have stays := mem_takeWhile_imp mem
    rcases clear hole ((List.takeWhile_prefix _).subset mem) with earlier | later
    · exact decide_eq_true earlier
    · simp [later] at stays
  simp only [insertHole, ahead, few, true_and]
  refine ⟨_, if_pos ?_⟩
  split
  · exact inside
  · exact edge

def WholePdu (payloadSize : Int) (range : Int × Int) : Prop :=
  range.1 = 0 ∧ (range.2 = soEndOfPdu ∨ range.2 = payloadSize - 1)

instance (payloadSize : Int) (range : Int × Int) : Decidable (WholePdu payloadSize range) :=
  inferInstanceAs (Decidable (_ ∧ _))

def TxPdu.recordedAt (pdu : TxPdu) (frame : Nat) : List (Int × Int) :=
  if pdu.lastNackTime ≠ frame then [] else pdu.holes

/-- The ranges can be recorded one after the other: each is a range of the PDU,
and each is for the whole PDU or lies behind those the frame has reported. -/
@[mk_iff]
structure Recordable (frame : Nat) (pdu : TxPdu) (ranges : List (Int × Int)) : Prop where
  proper : ∀ range ∈ ranges, range.1 ≤ range.2 ∧ range.1 < pdu.payloadSize ∧
    range.1 < soEndOfPdu ∧ range.2 ≤ soEndOfPdu
  ordered : ranges.Pairwise fun earlier later => WholePdu pdu.payloadSize earlier ∨
    WholePdu pdu.payloadSize later ∨ earlier.2 < later.1
  behind : ∀ hole ∈ pdu.recordedAt frame, ∀ range ∈ ranges,
    WholePdu pdu.payloadSize range ∨ hole.2 < range.1
  few : (pdu.recordedAt frame).length + ranges.length < rlcAmMaxHolesReportPerPdu
  edge : pdu.recordedAt frame ≠ [] → pdu.nackSoStart < pdu.payloadSize

namespace TxPdu

theorem addHole_some (added : pdu.addHole soStart soStop = some other) :
    other.lastNackTime = pdu.lastNackTime ∧ other.nackSoStart < other.payloadSize ∧
      (other.holes = [] ∨ ¬WholePdu pdu.payloadSize (soStart, soStop) ∧
        other.holes.Perm ((soStart, if soStop = soEndOfPdu then pdu.payloadSize - 1
          else soStop) :: pdu.holes)) := by
  simp only [addHole] at added
  split at added
  · split at added
    · split at added
      next inside =>
        cases added
        exact ⟨rfl, inside, Or.inl rfl⟩
      · cases added
    next part =>
      split at added
      next none =>
        split at added
        next inside =>
          cases added
          exact ⟨rfl, inside, Or.inr ⟨part, by rw [none]⟩⟩
        · cases added
      · obtain ⟨-, time, holes, inside⟩ := insertHole_some added
        exact ⟨time, inside, Or.inr ⟨part, holes⟩⟩
  · cases added

theorem addHole_returns (proper : soStart ≤ soStop) (inside : soStart < pdu.payloadSize)
    (starts : soStart < soEndOfPdu) (ends : soStop ≤ soEndOfPdu)
    (behind : WholePdu pdu.payloadSize (soStart, soStop) ∨ ∀ hole ∈ pdu.holes, hole.2 < soStart)
    (few : pdu.holes.length + 1 < rlcAmMaxHolesReportPerPdu)
    (edge : pdu.holes ≠ [] → pdu.nackSoStart < pdu.payloadSize) :
    ∃ other, pdu.addHole soStart soStop = some other := by
  simp only [addHole, proper, starts, ends, inside, and_self, if_true]
  split
  · exact ⟨_, rfl⟩
  next part =>
    split
    · exact ⟨_, rfl⟩
    next some =>
      exact insertHole_returns (fun hole mem => Or.inl (behind.resolve_left part hole mem))
        few inside (edge some)

theorem clearedAt_eq (pdu : TxPdu) (frame : Nat) :
    pdu.clearedAt frame = { pdu with lastNackTime := frame, holes := pdu.recordedAt frame } := by
  rw [clearedAt, recordedAt]
  split
  · rfl
  next same => rw [← not_not.mp same]

theorem nacked_some {frame : Nat} (nacked : pdu.nacked frame soStart soStop = some other) :
    other.payloadSize = pdu.payloadSize ∧ other.lastNackTime = frame ∧
      other.nackSoStart < other.payloadSize ∧
      (other.holes = [] ∨ ¬WholePdu pdu.payloadSize (soStart, soStop) ∧
        other.holes.Perm ((soStart, if soStop = soEndOfPdu then pdu.payloadSize - 1
          else soStop) :: pdu.recordedAt frame)) := by
  obtain ⟨holed, added, only, rfl⟩ := nacked_spec nacked
  rw [clearedAt_eq] at added
  exact ⟨only.kept payloadSize, addHole_some added⟩

end TxPdu

theorem Recordable.nacked {frame : Nat} {range : Int × Int} {rest : List (Int × Int)}
    (recordable : Recordable frame pdu (range :: rest)) :
    ∃ other, pdu.nacked frame range.1 range.2 = some other ∧ Recordable frame other rest := by
  obtain ⟨proper, inside, starts, ends⟩ := recordable.proper range (mem_cons_self ..)
  have few := recordable.few
  rw [length_cons] at few
  obtain ⟨holed, added⟩ : ∃ holed, (pdu.clearedAt frame).addHole range.1 range.2 = some holed := by
    rw [TxPdu.clearedAt_eq]
    refine TxPdu.addHole_returns proper inside starts ends ?_ (by simp only; omega) recordable.edge
    by_cases whole : WholePdu pdu.payloadSize range
    · exact Or.inl whole
    · exact Or.inr fun hole mem =>
        (recordable.behind hole mem range (mem_cons_self ..)).resolve_left whole
  obtain ⟨other, nacked⟩ : ∃ other, pdu.nacked frame range.1 range.2 = some other := by
    rw [TxPdu.nacked, if_pos proper, added]
    exact ⟨_, rfl⟩
  refine ⟨other, nacked, ?_⟩
  obtain ⟨size, time, edge, holes⟩ := TxPdu.nacked_some nacked
  have recorded : other.recordedAt frame = other.holes := by
    rw [TxPdu.recordedAt, if_neg (not_not.mpr time)]
  obtain ⟨after, ordered⟩ := pairwise_cons.mp recordable.ordered
  refine ⟨?_, ?_, ?_, ?_, fun _ => edge⟩
  · rw [size]
    exact fun later mem => recordable.proper later (mem_cons_of_mem _ mem)
  · rw [size]
    exact ordered
  · rw [recorded, size]
    intro hole mem later laterMember
    rcases holes with none | ⟨part, perm⟩
    · rw [none] at mem
      cases mem
    · rcases mem_cons.mp (perm.mem_iff.mp mem) with new | old
      · rcases after later laterMember with whole | whole | apart
        · exact absurd whole part
        · exact Or.inl whole
        · have starts' := (recordable.proper later (mem_cons_of_mem _ laterMember)).2.2.1
          rw [new, if_neg (by omega)]
          exact Or.inr apart
      · exact recordable.behind hole old later (mem_cons_of_mem _ laterMember)
  · rw [recorded]
    rcases holes with none | ⟨-, perm⟩
    · rw [none, length_nil]
      omega
    · rw [perm.length_eq, length_cons]
      omega

section Window

variable {tx other : Transmitter} {frame sn : Nat}

theorem markNacked_sameWindow
    (nacked : (tx.pduRetransBuffer sn).nacked frame soStart soStop = some pdu) :
    tx.SameWindow (tx.markNacked sn pdu) := by
  obtain ⟨holed, -, only, rfl⟩ := nacked_spec nacked
  have stored := @setPdu_sameWindow sn holed.countNack tx (only.kept ack)
    (only.kept memBlock) (only.kept sdusIndex)
  exact ⟨stored.pdus, rfl, rfl, rfl, id⟩

theorem nackPdu_some (nacked : tx.nackPdu frame sn soStart soStop = some other) :
    tx.SameWindow other ∧
      ((tx.pduRetransBuffer sn).memBlock = none ∧ other = tx ∨
        ∃ pdu, (tx.pduRetransBuffer sn).nacked frame soStart soStop = some pdu ∧
          other.pduRetransBuffer = Function.update tx.pduRetransBuffer sn pdu) := by
  simp only [Transmitter.nackPdu] at nacked
  split at nacked
  · obtain ⟨pdu, recorded, given⟩ := bind_eq_some_iff.mp nacked
    have marked := markNacked_sameWindow recorded
    split at given
    · have moves := settleSdus_movesSdus given
      exact ⟨marked.trans moves.sameWindow, Or.inr ⟨pdu, recorded,
        moves.kept Transmitter.pduRetransBuffer⟩⟩
    · cases given
      exact ⟨marked, Or.inr ⟨pdu, recorded, rfl⟩⟩
  next free =>
    cases nacked
    exact ⟨.of_pdus rfl rfl rfl rfl id, Or.inl ⟨not_isSome_iff_eq_none.mp free, rfl⟩⟩

theorem nackPdu_returns
    (slots : ∀ slot ∈ (tx.pduRetransBuffer sn).sdusIndex, slot < rlcAmSduControlBufferSize)
    (recordable : (tx.pduRetransBuffer sn).memBlock.isSome →
      ∃ pdu, (tx.pduRetransBuffer sn).nacked frame soStart soStop = some pdu) :
    ∃ other, tx.nackPdu frame sn soStart soStop = some other := by
  simp only [Transmitter.nackPdu]
  split
  next held =>
    obtain ⟨pdu, recorded⟩ := recordable held
    rw [recorded, bind_some]
    split
    · exact settleSdus_returns _ slots
    · exact ⟨_, rfl⟩
  · exact ⟨tx, rfl⟩

end Window

end OpenAir.RlcAm
