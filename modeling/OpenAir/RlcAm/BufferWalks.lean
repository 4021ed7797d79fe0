import OpenAir.RlcAm.CompletePdus

/-! The walks over a sorted receiver buffer: where those of `rlc_am_rx_update_vr_r`
and `rlc_am_rx_update_vr_ms` stop, what they have passed, and which numbers the
one of `rlc_am_rx_list_reassemble_rlc_sdus` hands over. -/

set_option autoImplicit false

namespace OpenAir.RlcAm

open List

def LowestMissing (buffer : List RxPdu) (start sn : Nat) : Prop :=
  ∃ count, sn = snAt start count ∧
    (∀ index < count, ReceivedCompletely buffer (snAt start index)) ∧
    ¬ ReceivedCompletely buffer sn

theorem LowestMissing.start {buffer : List RxPdu} {start : Nat} (bounded : start < rlcAmSnModulo)
    (missing : ¬ ReceivedCompletely buffer start) : LowestMissing buffer start start :=
  ⟨0, (snAt_zero bounded).symm, nofun, missing⟩

def Flagged (buffer : List RxPdu) (sn : Nat) : Prop :=
  ∃ pdu ∈ buffer, pdu.info.sn = sn ∧ pdu.allSegmentsReceived

variable {base sn vrR : Nat} {buffer front list : List RxPdu}

theorem Flagged.mono {small large : List RxPdu} (flagged : Flagged small sn)
    (within : ∀ pdu ∈ small, pdu ∈ large) : Flagged large sn := by
  obtain ⟨pdu, mem, found⟩ := flagged
  exact ⟨pdu, within pdu mem, found⟩

theorem not_receivedCompletely_of_absent (absent : sameNumber sn buffer = []) :
    ¬ ReceivedCompletely buffer sn := by
  rw [ReceivedCompletely, absent]
  simp [SegmentsReceived]

theorem not_receivedCompletely_above
    (above : ∀ pdu ∈ buffer, shiftedSn vrR pdu.info.sn < shiftedSn vrR sn) :
    ¬ ReceivedCompletely buffer sn := by
  refine not_receivedCompletely_of_absent (filter_eq_nil_iff.mpr fun pdu mem same => ?_)
  have nearer := above pdu mem
  rw [of_decide_eq_true same] at nearer
  exact lt_irrefl _ nearer

theorem receivedCompletely_map_markIf {complete : Bool} {number : Nat} :
    ReceivedCompletely (buffer.map (markIf complete number)) sn ↔ ReceivedCompletely buffer sn := by
  have group : sameNumber sn (buffer.map (markIf complete number)) =
      (sameNumber sn buffer).map (markIf complete number) := filter_map_markIf buffer
  have segments : SegmentsReceived ((sameNumber sn buffer).map (markIf complete number)) ↔
      SegmentsReceived (sameNumber sn buffer) := by
    simp [SegmentsReceived]
  rw [ReceivedCompletely, group, segments]
  refine or_congr ?_ (and_congr (by simp) Iff.rfl)
  constructor
  · rintro ⟨marked, only, whole⟩
    obtain ⟨pdu, same, rfl⟩ := map_eq_singleton_iff.mp only
    exact ⟨pdu, same, by simpa using whole⟩
  · rintro ⟨pdu, only, whole⟩
    exact ⟨markIf complete number pdu, by rw [only, map_singleton], by simpa using whole⟩

theorem Orderly.flagged_number_iff (orderly : Orderly vrR buffer)
    (cut : ∀ pdu ∈ buffer, ¬ pdu.info.WholeSegment) :
    Flagged buffer sn ↔ ReceivedCompletely buffer sn := by
  constructor
  · rintro ⟨pdu, mem, rfl, set⟩
    exact (orderly.flagged_iff cut mem).mp set
  · intro received
    have found : ∃ pdu ∈ buffer, pdu.info.sn = sn := by
      rcases received with ⟨pdu, only, _⟩ | ⟨_, last, mem, _⟩
      · have mem : pdu ∈ sameNumber sn buffer := only ▸ mem_singleton_self pdu
        exact ⟨pdu, mem_sameNumber.mp mem⟩
      · exact ⟨last, mem_sameNumber.mp mem⟩
    obtain ⟨pdu, mem, rfl⟩ := found
    exact ⟨pdu, mem, rfl, (orderly.flagged_iff cut mem).mpr received⟩

theorem shiftedSn_self (edge : base < rlcAmSnModulo) : shiftedSn base base = 0 := by
  rw [shiftedSn_of_ge edge le_rfl, Nat.sub_self]

theorem shiftedSn_nextSn (edge : base < rlcAmSnModulo)
    (near : shiftedSn base sn < rlcAmWindowSize) :
    shiftedSn base (nextSn sn) = shiftedSn base sn + 1 := by
  rw [shiftedSn_eq _ _ edge] at near ⊢
  rw [shiftedSn_eq _ _ edge]
  simp only [nextSn, rlcAmSnModulo, rlcAmWindowSize] at *
  omega

structure WalkOrder (base : Nat) (list : List RxPdu) : Prop where
  bounded : ∀ pdu ∈ list, pdu.info.sn < rlcAmSnModulo
  near : ∀ pdu ∈ list, shiftedSn base pdu.info.sn < rlcAmWindowSize
  sorted : list.Pairwise fun left right =>
    shiftedSn base left.info.sn ≤ shiftedSn base right.info.sn
  alike : ∀ left ∈ list, ∀ right ∈ list, left.info.sn = right.info.sn →
    left.allSegmentsReceived = right.allSegmentsReceived

theorem WalkOrder.tail {head : RxPdu} {rest : List RxPdu}
    (walkOrder : WalkOrder base (head :: rest)) : WalkOrder base rest where
  bounded pdu mem := walkOrder.bounded pdu (mem_cons_of_mem _ mem)
  near pdu mem := walkOrder.near pdu (mem_cons_of_mem _ mem)
  sorted := (pairwise_cons.mp walkOrder.sorted).2
  alike left leftMember right rightMember :=
    walkOrder.alike left (mem_cons_of_mem _ leftMember) right
      (mem_cons_of_mem _ rightMember)

theorem Orderly.walkOrder (orderly : Orderly vrR (front ++ list)) : WalkOrder vrR list where
  bounded pdu mem := (orderly.reach pdu (mem_append_right _ mem)).snBound
  near pdu mem := (orderly.reach pdu (mem_append_right _ mem)).near
  sorted := (pairwise_append.mp orderly.ordered).2.1.imp Precedes.le
  alike _ leftMember _ rightMember same :=
    orderly.alike (mem_append_right _ leftMember) (mem_append_right _ rightMember) same

def Closes : List RxPdu → Prop
  | [] => True
  | pdu :: rest =>
    (pdu.allSegmentsReceived →
      ((pdu.info.rf = false ∨ pdu.info.lsf) ↔ ∀ other ∈ rest, other.info.sn ≠ pdu.info.sn)) ∧
      Closes rest

def LastBehind (buffer : List RxPdu) : Prop :=
  buffer.Pairwise fun left right => left.info.sn = right.info.sn → left.info.lsf = false

theorem Orderly.closes (orderly : Orderly vrR (front ++ list))
    (cut : ∀ pdu ∈ front ++ list, ¬ pdu.info.WholeSegment) (last : LastBehind (front ++ list)) :
    Closes list := by
  induction list generalizing front with
  | nil => exact trivial
  | cons pdu rest ih =>
    have shifted : front ++ pdu :: rest = (front ++ [pdu]) ++ rest := by simp
    refine ⟨fun set => ⟨?_, fun alone => ?_⟩, ?_⟩
    · intro closing other mem same
      have precedes := (pairwise_cons.mp (pairwise_append.mp orderly.ordered).2.1).1 other mem
      have notLast := (pairwise_cons.mp (pairwise_append.mp last).2.1).1 other mem
      rcases precedes with nearer | gap
      · rw [same] at nearer
        exact lt_irrefl _ nearer
      · rcases closing with whole | isLast
        · cases whole.symm.trans gap.2.1
        · cases (notLast same.symm).symm.trans isLast
    · cases whole : pdu.info.rf with
      | false => exact .inl rfl
      | true =>
        refine .inr ?_
        have stored : pdu ∈ front ++ pdu :: rest := by simp
        rcases (orderly.flagged_iff cut stored).mp set with ⟨only, group, notSegment⟩ | segments
        · have : pdu ∈ sameNumber pdu.info.sn (front ++ pdu :: rest) :=
            mem_sameNumber.mpr ⟨stored, rfl⟩
          rw [group, mem_singleton] at this
          rw [← this, whole] at notSegment
          exact absurd notSegment.symm Bool.false_ne_true
        · obtain ⟨_, final, mem, isLast, _⟩ := segments
          obtain ⟨finalStored, same⟩ := mem_sameNumber.mp mem
          -- The last segment is not in front of this element, nor behind it.
          rcases mem_append.mp finalStored with earlier | here
          · have notLast := (pairwise_append.mp last).2.2 final earlier pdu
              mem_cons_self same
            cases notLast.symm.trans isLast
          · rcases mem_cons.mp here with rfl | behind
            · exact isLast
            · exact absurd same (alone final behind)
    · rw [shifted] at orderly cut last
      exact ih orderly cut last

theorem rxUpdateVrR_stops (edge : base < rlcAmSnModulo) (walkOrder : WalkOrder base list)
    (closes : Closes list) (below : shiftedSn base vrR ≤ rlcAmWindowSize)
    (vrRBound : vrR < rlcAmSnModulo)
    (lower : ∀ pdu ∈ list, shiftedSn base vrR ≤ shiftedSn base pdu.info.sn) :
    shiftedSn base vrR ≤ shiftedSn base (rxUpdateVrR vrR list) ∧
      ¬ Flagged list (rxUpdateVrR vrR list) := by
  induction list generalizing vrR with
  | nil =>
    refine ⟨le_rfl, ?_⟩
    rintro ⟨pdu, mem, _⟩
    exact absurd mem not_mem_nil
  | cons cursor rest ih =>
    have sorted := (pairwise_cons.mp walkOrder.sorted).1
    have near := walkOrder.near cursor mem_cons_self
    have other : cursor.info.sn ≠ vrR → ∀ pdu ∈ cursor :: rest, pdu.info.sn ≠ vrR := by
      intro ahead pdu mem same
      have apart : shiftedSn base cursor.info.sn ≠ shiftedSn base vrR := fun equal =>
        ahead (shiftedSn_injective edge (walkOrder.bounded cursor mem_cons_self) vrRBound equal)
      have first := lower cursor mem_cons_self
      rcases mem_cons.mp mem with rfl | later
      · exact ahead same
      · have := sorted pdu later
        rw [same] at this
        omega
    have moves (atCursor : cursor.info.sn = vrR)
        (alone : ∀ pdu ∈ rest, pdu.info.sn ≠ cursor.info.sn) :
        shiftedSn base vrR ≤ shiftedSn base (rxUpdateVrR (nextSn vrR) rest) ∧
          ¬ Flagged (cursor :: rest) (rxUpdateVrR (nextSn vrR) rest) := by
      rw [atCursor] at near
      have step := shiftedSn_nextSn edge near
      have ahead : ∀ pdu ∈ rest, shiftedSn base (nextSn vrR) ≤ shiftedSn base pdu.info.sn := by
        intro pdu mem
        have apart : shiftedSn base vrR ≠ shiftedSn base pdu.info.sn := fun equal =>
          alone pdu mem (atCursor ▸ (shiftedSn_injective edge vrRBound
            (walkOrder.bounded pdu (mem_cons_of_mem _ mem)) equal).symm)
        have := lower pdu (mem_cons_of_mem _ mem)
        omega
      have bounded : nextSn vrR < rlcAmSnModulo := Nat.mod_lt _ (by decide)
      obtain ⟨further, stopped⟩ := ih walkOrder.tail closes.2 (by omega) bounded ahead
      refine ⟨by omega, ?_⟩
      rintro ⟨pdu, mem, same, set⟩
      rcases mem_cons.mp mem with rfl | later
      · rw [← same, atCursor] at further
        omega
      · exact stopped ⟨pdu, later, same, set⟩
    simp only [rxUpdateVrR]
    split
    next stays =>
      refine ⟨le_rfl, ?_⟩
      rintro ⟨pdu, mem, same, set⟩
      by_cases atCursor : cursor.info.sn = vrR
      · have unset : cursor.allSegmentsReceived = false :=
          stays.resolve_right (not_not_intro atCursor.symm)
        have alike := walkOrder.alike cursor mem_cons_self pdu mem (atCursor.trans same.symm)
        cases unset.symm.trans (alike.trans set)
      · exact other atCursor pdu mem same
    next passes =>
      push Not at passes
      have set : cursor.allSegmentsReceived := by simpa using passes.1
      have atCursor : cursor.info.sn = vrR := passes.2.symm
      have closing := closes.1 set
      cases segment : cursor.info.rf with
      | false => exact moves atCursor (closing.mp (.inl segment))
      | true =>
        cases isLast : cursor.info.lsf with
        | true => exact moves atCursor (closing.mp (.inr isLast))
        | false =>
          obtain ⟨further, stopped⟩ := ih walkOrder.tail closes.2 below vrRBound
            fun pdu mem => lower pdu (mem_cons_of_mem _ mem)
          refine ⟨further, ?_⟩
          rintro ⟨pdu, mem, same, flag⟩
          rcases mem_cons.mp mem with rfl | later
          · -- The number goes on behind the cursor, with the same flag.
            have continued : ∃ next ∈ rest, next.info.sn = pdu.info.sn := by
              by_contra alone
              push Not at alone
              rcases closing.mpr alone with whole | final
              · exact absurd (segment.symm.trans whole) (Bool.false_ne_true ∘ Eq.symm)
              · cases isLast.symm.trans final
            obtain ⟨next, nextMember, nextSame⟩ := continued
            have alike := walkOrder.alike next (mem_cons_of_mem _ nextMember) pdu
              mem_cons_self nextSame
            exact stopped ⟨next, nextMember, nextSame.trans same, alike.trans flag⟩
          · exact stopped ⟨pdu, later, same, flag⟩

theorem rxUpdateVrMs_eq (tb : RxPdu) (rest : List RxPdu) :
    rxUpdateVrMs tb rest =
      match (tb :: rest).find? (!·.allSegmentsReceived) with
      | some stop => stop.info.sn
      | none => nextSn ((tb :: rest).getLast (cons_ne_nil _ _)).info.sn := by
  induction rest generalizing tb with
  | nil => cases set : tb.allSegmentsReceived <;> simp [rxUpdateVrMs, set]
  | cons next rest ih =>
    cases set : tb.allSegmentsReceived with
    | false => simp [rxUpdateVrMs, set]
    | true => simp [rxUpdateVrMs, set, ih, find?_cons]

theorem rxUpdateVrMs_stops (tb : RxPdu) (rest : List RxPdu) :
    (∃ front stop back, tb :: rest = front ++ stop :: back ∧
        (∀ pdu ∈ front, pdu.allSegmentsReceived) ∧ stop.allSegmentsReceived = false ∧
        rxUpdateVrMs tb rest = stop.info.sn) ∨
      (∀ pdu ∈ tb :: rest, pdu.allSegmentsReceived) ∧
        ∃ last ∈ (tb :: rest).getLast?, rxUpdateVrMs tb rest = nextSn last.info.sn := by
  rw [rxUpdateVrMs_eq]
  cases found : (tb :: rest).find? (!·.allSegmentsReceived) with
  | none => exact .inr ⟨by simpa using found, _, getLast?_eq_some_getLast _, rfl⟩
  | some stop =>
    obtain ⟨unset, front, back, split, passed⟩ := find?_eq_some_iff_append.mp found
    exact .inl ⟨front, stop, back, split, by simpa using passed, by simpa using unset, rfl⟩

theorem reassemble_contiguous (edge : base < rlcAmSnModulo)
    (near : ∀ pdu ∈ buffer, shiftedSn base pdu.info.sn < rlcAmWindowSize) {distance : Nat}
    (start : ∀ first ∈ buffer.head?, shiftedSn base first.info.sn ≤ distance) {pdu : RxPdu}
    (mem : pdu ∈ (rxListReassembleRlcSdus buffer).1)
    (upTo : distance ≤ shiftedSn base pdu.info.sn) :
    ∃ other ∈ (rxListReassembleRlcSdus buffer).1, shiftedSn base other.info.sn = distance := by
  induction buffer with
  | nil => exact absurd mem not_mem_nil
  | cons head rest ih =>
    have low := start head rfl
    have only : pdu ∈ [head] → ∃ other ∈ [head], shiftedSn base other.info.sn = distance := by
      intro same
      rw [mem_singleton.mp same] at upTo
      exact ⟨head, mem_singleton_self _, Nat.le_antisymm low upTo⟩
    cases set : head.allSegmentsReceived with
    | false => simp [rxListReassembleRlcSdus, set] at mem
    | true =>
      cases rest with
      | nil =>
        simp only [rxListReassembleRlcSdus, set, if_true] at mem ⊢
        exact only mem
      | cons next others =>
        rw [rxListReassembleRlcSdus, if_pos set] at mem ⊢
        split
        next continues =>
          rw [if_pos continues] at mem
          by_cases here : shiftedSn base head.info.sn = distance
          · exact ⟨head, mem_cons_self, here⟩
          · have step : shiftedSn base next.info.sn ≤ distance := by
              rcases continues with following | same
              · rw [following, shiftedSn_nextSn edge (near head mem_cons_self)]
                omega
              · rw [same.1]
                exact low
            rcases mem_cons.mp mem with rfl | later
            · omega
            · obtain ⟨other, found, reached⟩ := ih
                (fun pdu mem => near pdu (mem_cons_of_mem _ mem))
                (fun first isFirst => by
                  rw [← Option.some.inj isFirst]
                  exact step) later
              exact ⟨other, mem_cons_of_mem _ found, reached⟩
        next stops =>
          rw [if_neg stops] at mem
          exact only mem

end OpenAir.RlcAm
