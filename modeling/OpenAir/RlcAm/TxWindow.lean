import OpenAir.RlcAm.TransmitterSteps

/-! The transmitting window: which PDUs between VT(A) and VT(S) are
acknowledged, and what positive and negative acknowledgement change of that. -/

set_option autoImplicit false

namespace OpenAir.RlcAm

open OpenAir.Base Function Transmitter Nat

def snAt (origin index : Nat) : Nat := (origin + index) % rlcAmSnModulo

theorem snAt_lt (origin index : Nat) : snAt origin index < rlcAmSnModulo :=
  mod_lt _ (by decide)

variable {origin : Nat}

theorem snAt_zero (bounded : origin < rlcAmSnModulo) : snAt origin 0 = origin :=
  mod_eq_of_lt bounded

theorem nextSn_snAt (origin index : Nat) :
    nextSn (snAt origin index) = snAt origin (index + 1) := by
  simp [nextSn, snAt, add_assoc]

theorem snAt_snAt (origin first second : Nat) :
    snAt (snAt origin first) second = snAt origin (first + second) := by
  simp [snAt, add_assoc]

theorem snAt_injective {left right : Nat} (leftLt : left < rlcAmSnModulo)
    (rightLt : right < rlcAmSnModulo) (same : snAt origin left = snAt origin right) :
    left = right := by
  simp only [snAt, rlcAmSnModulo] at *
  omega

variable {fuel index slot sn : Nat} {first second settled third : Transmitter} {pdu : TxPdu}
  {settles : TxSdu → Bool} {status : Bool} {slots : List Nat}

theorem shiftedSn_snAt (bounded : origin < rlcAmSnModulo) (below : index < rlcAmSnModulo) :
    shiftedSn origin (snAt origin index) = index := by
  rw [shiftedSn_eq _ _ bounded]
  simp only [snAt, rlcAmSnModulo] at *
  omega

theorem snAt_shiftedSn (bounded : origin < rlcAmSnModulo) (below : sn < rlcAmSnModulo) :
    snAt origin (shiftedSn origin sn) = sn := by
  rw [shiftedSn_eq _ _ bounded]
  simp only [snAt, rlcAmSnModulo] at *
  omega

namespace Transmitter

structure SameWindow (tx other : Transmitter) : Prop where
  pdus : ∀ sn, (other.pduRetransBuffer sn).ack = (tx.pduRetransBuffer sn).ack ∧
    (other.pduRetransBuffer sn).memBlock = (tx.pduRetransBuffer sn).memBlock ∧
    (other.pduRetransBuffer sn).sdusIndex = (tx.pduRetransBuffer sn).sdusIndex
  vtA : other.vtA = tx.vtA
  vtS : other.vtS = tx.vtS
  vtMs : other.vtMs = tx.vtMs
  current : tx.currentSduIndex < rlcAmSduControlBufferSize →
    other.currentSduIndex < rlcAmSduControlBufferSize

variable {tx other : Transmitter}

theorem SameWindow.of_pdus (pdus : other.pduRetransBuffer = tx.pduRetransBuffer)
    (vtA : other.vtA = tx.vtA) (vtS : other.vtS = tx.vtS) (vtMs : other.vtMs = tx.vtMs)
    (current : tx.currentSduIndex < rlcAmSduControlBufferSize →
      other.currentSduIndex < rlcAmSduControlBufferSize) : tx.SameWindow other :=
  ⟨fun sn => by simp [pdus], vtA, vtS, vtMs, current⟩

theorem OnlyPolls.sameWindow (only : tx.OnlyPolls other) : tx.SameWindow other :=
  .of_pdus (only.kept pduRetransBuffer)
    (only.kept vtA) (only.kept vtS)
    (only.kept vtMs) fun bounded =>
      (only.kept currentSduIndex).symm ▸ bounded

theorem MovesSdus.sameWindow (moves : tx.MovesSdus other) : tx.SameWindow other :=
  .of_pdus (moves.kept pduRetransBuffer)
    (moves.kept vtA) (moves.kept vtS)
    (moves.kept vtMs) moves.current

theorem SameWindow.trans (left : first.SameWindow second) (right : second.SameWindow third) :
    first.SameWindow third where
  pdus sn := by
    obtain ⟨ack, memBlock, sdusIndex⟩ := left.pdus sn
    obtain ⟨ack', memBlock', sdusIndex'⟩ := right.pdus sn
    exact ⟨ack'.trans ack, memBlock'.trans memBlock, sdusIndex'.trans sdusIndex⟩
  vtA := right.vtA.trans left.vtA
  vtS := right.vtS.trans left.vtS
  vtMs := right.vtMs.trans left.vtMs
  current bounded := right.current (left.current bounded)

end Transmitter

theorem setPdu_sameWindow (tx : Transmitter) (ack : pdu.ack = (tx.pduRetransBuffer sn).ack)
    (memBlock : pdu.memBlock = (tx.pduRetransBuffer sn).memBlock)
    (sdusIndex : pdu.sdusIndex = (tx.pduRetransBuffer sn).sdusIndex) :
    tx.SameWindow (tx.setPdu sn pdu) := by
  refine ⟨fun at_ => ?_, rfl, rfl, rfl, id⟩
  by_cases same : at_ = sn
  · subst same
    simp only [setPdu, update_self]
    exact ⟨ack, memBlock, sdusIndex⟩
  · simp [setPdu, update_of_ne same]

theorem settleSdu_returns (tx : Transmitter) (bounded : slot < rlcAmSduControlBufferSize) :
    ∃ other, tx.settleSdu settles status slot = some other := by
  simp only [settleSdu, bounded, if_true]
  split
  · exact ⟨_, rfl⟩
  · exact ⟨_, rfl⟩

theorem settleSdus_returns (tx : Transmitter)
    (bounded : ∀ slot ∈ slots, slot < rlcAmSduControlBufferSize) :
    ∃ other, slots.foldlM (settleSdu settles status) tx = some other :=
  foldlM_succeeds tx fun state slot mem => settleSdu_returns state (bounded slot mem)

/-- Of the `count` PDUs from `origin` on, `acked` tells which are acknowledged.
VT(A) stands `base` places above `origin`, and every PDU before it is
acknowledged and its entry cleared. -/
structure Transmitter.Standing (tx : Transmitter) (origin count base : Nat) (acked : Nat → Bool) :
    Prop where
  bounded : origin < rlcAmSnModulo
  narrow : count ≤ rlcAmWindowSize
  base_le : base ≤ count
  passed : ∀ index < base, acked index
  vtA : tx.vtA = snAt origin base
  vtS : tx.vtS = snAt origin count
  held : ∀ index, base ≤ index → index < count →
    (tx.pduRetransBuffer (snAt origin index)).ack = acked index ∧
      (tx.pduRetransBuffer (snAt origin index)).memBlock.isSome = !acked index
  clear : ∀ index < rlcAmSnModulo, index < base ∨ count ≤ index →
    (tx.pduRetransBuffer (snAt origin index)).ack = false ∧
      (tx.pduRetransBuffer (snAt origin index)).memBlock = none
  slots : ∀ sn, ∀ slot ∈ (tx.pduRetransBuffer sn).sdusIndex, slot < rlcAmSduControlBufferSize
  current : tx.currentSduIndex < rlcAmSduControlBufferSize

structure Transmitter.Window (tx : Transmitter) (origin count base : Nat) (acked : Nat → Bool) :
    Prop extends tx.Standing origin count base acked where
  lowest : base < count → acked base = false
  vtMs : tx.vtMs = (tx.vtA + rlcAmWindowSize) % rlcAmSnModulo

theorem update_snAt (pdus : Nat → TxPdu) (pdu : TxPdu) {other : Nat}
    (indexLt : index < rlcAmSnModulo) (otherLt : other < rlcAmSnModulo) :
    update pdus (snAt origin index) pdu (snAt origin other) =
      if other = index then pdu else pdus (snAt origin other) := by
  by_cases same : other = index
  · simp [same]
  · rw [if_neg same, update_of_ne]
    exact fun equal => same (snAt_injective otherLt indexLt equal)

section Standing

variable {tx other : Transmitter} {origin count base : Nat} {acked : Nat → Bool}

namespace Transmitter

section

variable (standing : tx.Standing origin count base acked)

include standing

theorem Standing.count_lt : count < rlcAmSnModulo :=
  lt_of_le_of_lt standing.narrow (by decide)

theorem Standing.at_vtA_iff (below : index < rlcAmSnModulo) :
    snAt origin index = tx.vtA ↔ index = base := by
  rw [standing.vtA]
  refine ⟨snAt_injective below ?_, congrArg _⟩
  exact lt_of_le_of_lt standing.base_le standing.count_lt

theorem Standing.congr (vtA : other.vtA = tx.vtA) (vtS : other.vtS = tx.vtS)
    (current : other.currentSduIndex < rlcAmSduControlBufferSize)
    (pdus : ∀ sn, (other.pduRetransBuffer sn).ack = (tx.pduRetransBuffer sn).ack ∧
      (other.pduRetransBuffer sn).memBlock = (tx.pduRetransBuffer sn).memBlock ∧
      (other.pduRetransBuffer sn).sdusIndex = (tx.pduRetransBuffer sn).sdusIndex) :
    other.Standing origin count base acked where
  bounded := standing.bounded
  narrow := standing.narrow
  base_le := standing.base_le
  passed := standing.passed
  vtA := vtA.trans standing.vtA
  vtS := vtS.trans standing.vtS
  held index notBelow below := by
    rw [(pdus _).1, (pdus _).2.1]
    exact standing.held index notBelow below
  clear index below outside := by
    rw [(pdus _).1, (pdus _).2.1]
    exact standing.clear index below outside
  slots sn := by
    rw [(pdus sn).2.2]
    exact standing.slots sn
  current := current

theorem Standing.pass (below : base < count) (done : acked base)
    (pdus : other.pduRetransBuffer = update tx.pduRetransBuffer tx.vtA .zeroed)
    (vtA : other.vtA = nextSn tx.vtA) (vtS : other.vtS = tx.vtS)
    (current : other.currentSduIndex = tx.currentSduIndex) :
    other.Standing origin count (base + 1) acked := by
  have countLt := standing.count_lt
  have entry : ∀ index < rlcAmSnModulo, other.pduRetransBuffer (snAt origin index) =
      if index = base then .zeroed else tx.pduRetransBuffer (snAt origin index) := by
    intro index indexLt
    rw [pdus, standing.vtA, update_snAt _ _ (by omega) indexLt]
  refine
    { bounded := standing.bounded, narrow := standing.narrow, base_le := below, passed := ?_
      vtA := by rw [vtA, standing.vtA, nextSn_snAt]
      vtS := vtS.trans standing.vtS, held := ?_, clear := ?_, slots := ?_
      current := current ▸ standing.current }
  · intro index indexLt
    by_cases same : index = base
    · rw [same, done]
    · exact standing.passed index (by omega)
  · intro index notBelow indexLt
    rw [entry index (by omega), if_neg (by omega)]
    exact standing.held index (by omega) indexLt
  · intro index indexLt outside
    rw [entry index indexLt]
    split
    · exact ⟨rfl, rfl⟩
    · exact standing.clear index indexLt (by omega)
  · intro sn slot mem
    rw [pdus, update_apply] at mem
    split at mem
    · cases mem
    · exact standing.slots sn slot mem

end

def OnlyFrees (tx other : Transmitter) : Prop :=
  ∀ sn, other.pduRetransBuffer sn = tx.pduRetransBuffer sn ∨
    (other.pduRetransBuffer sn).memBlock = none ∧ (other.pduRetransBuffer sn).retransmit = false

theorem OnlyFrees.trans (left : first.OnlyFrees second) (right : second.OnlyFrees third) :
    first.OnlyFrees third := by
  intro sn
  rcases right sn with same | freed
  · rw [same]
    exact left sn
  · exact Or.inr freed

theorem OnlyFrees.update (freed : pdu.memBlock = none ∧ pdu.retransmit = false)
    (pdus : other.pduRetransBuffer = update tx.pduRetransBuffer sn pdu) :
    tx.OnlyFrees other := by
  intro at_
  rw [pdus, update_apply]
  split
  · exact Or.inr freed
  · exact Or.inl rfl

end Transmitter

theorem advanceLoop_standing (standing : tx.Standing origin count base acked) (below : base < count)
    (done : acked base) (enough : count - base ≤ fuel) :
    ∃ top, (advanceLoop fuel tx).Standing origin count top acked ∧
      (top < count → acked top = false) := by
  induction fuel generalizing tx base with
  | zero => omega
  | succ fuel ih =>
    have passed : tx.passVtA.Standing origin count (base + 1) acked :=
      standing.pass below done rfl rfl rfl rfl
    rw [advanceLoop_succ]
    generalize tx.passVtA = next at passed
    by_cases again : (next.pduRetransBuffer next.vtA).ack ∧ next.vtA ≠ next.vtS
    · rw [if_pos again]
      have short : base + 1 < count := by
        have notTop : base + 1 ≠ count := by
          intro top
          exact again.2 (by rw [passed.vtA, passed.vtS, top])
        omega
      have alsoDone : acked (base + 1) := by
        rw [← (passed.held (base + 1) (le_refl _) short).1, ← passed.vtA]
        exact again.1
      exact ih passed short alsoDone (by omega)
    · rw [if_neg again]
      refine ⟨base + 1, passed, fun short => ?_⟩
      have apart : next.vtA ≠ next.vtS := by
        rw [passed.vtA, passed.vtS]
        intro same
        have countLt := passed.count_lt
        have := snAt_injective (by omega) countLt same
        omega
      rw [← (passed.held (base + 1) (le_refl _) short).1, ← passed.vtA]
      simpa [apart] using again

namespace Transmitter

theorem Standing.congr_acked {others : Nat → Bool} (standing : tx.Standing origin count base acked)
    (same : ∀ index < count, others index = acked index) :
    tx.Standing origin count base others :=
  { standing with
    passed := fun index below => by
      rw [same index (lt_of_lt_of_le below standing.base_le)]
      exact standing.passed index below
    held := fun index notBelow below => by
      rw [same index below]
      exact standing.held index notBelow below }

theorem Standing.settle (standing : tx.Standing origin count base acked) (notBelow : base ≤ index)
    (below : index < count) (done : pdu.ack) (freed : pdu.memBlock = none)
    (slots : ∀ slot ∈ pdu.sdusIndex, slot < rlcAmSduControlBufferSize)
    (pdus : other.pduRetransBuffer = update tx.pduRetransBuffer (snAt origin index) pdu)
    (vtA : other.vtA = tx.vtA) (vtS : other.vtS = tx.vtS)
    (current : other.currentSduIndex < rlcAmSduControlBufferSize) :
    other.Standing origin count base (update acked index true) := by
  have countLt := standing.count_lt
  have entry : ∀ at_ < rlcAmSnModulo, other.pduRetransBuffer (snAt origin at_) =
      if at_ = index then pdu else tx.pduRetransBuffer (snAt origin at_) := by
    intro at_ atLt
    rw [pdus, update_snAt _ _ (by omega) atLt]
  refine
    { bounded := standing.bounded, narrow := standing.narrow, base_le := standing.base_le
      passed := ?_, vtA := vtA.trans standing.vtA, vtS := vtS.trans standing.vtS, held := ?_
      clear := ?_, slots := ?_, current := current }
  · intro at_ atLt
    rw [update_of_ne (by omega)]
    exact standing.passed at_ atLt
  · intro at_ notBelow' below'
    rw [entry at_ (by omega), update_apply]
    split
    · exact ⟨done, by simp [freed]⟩
    · exact standing.held at_ notBelow' below'
  · intro at_ atLt outside
    rw [entry at_ atLt, if_neg (by omega)]
    exact standing.clear at_ atLt outside
  · intro sn slot mem
    rw [pdus, update_apply] at mem
    split at mem
    · exact slots slot mem
    · exact standing.slots sn slot mem

theorem Window.congr (window : tx.Window origin count base acked)
    (same : tx.SameWindow other) : other.Window origin count base acked where
  toStanding := window.toStanding.congr same.vtA same.vtS (same.current window.current) same.pdus
  lowest := window.lowest
  vtMs := by rw [same.vtMs, same.vtA, window.vtMs]

theorem Window.waiting (window : tx.Window origin count base acked)
    (indexLt : index < rlcAmSnModulo)
    (held : (tx.pduRetransBuffer (snAt origin index)).memBlock.isSome) :
    base ≤ index ∧ index < count ∧ acked index = false := by
  by_cases inside : base ≤ index ∧ index < count
  · refine ⟨inside.1, inside.2, ?_⟩
    have entry := (window.held index inside.1 inside.2).2
    rw [held] at entry
    simpa using entry
  · have entry := (window.clear index indexLt (by omega)).2
    rw [entry] at held
    cases held

theorem Standing.window (standing : tx.Standing origin count base acked)
    (lowest : base < count → acked base = false) :
    Window { tx with vtMs := (tx.vtA + rlcAmWindowSize) % rlcAmSnModulo }
      origin count base acked where
  toStanding := standing.congr rfl rfl standing.current fun _ => ⟨rfl, rfl, rfl⟩
  lowest := lowest
  vtMs := rfl

end Transmitter

theorem advanceVtA_window (standing : tx.Standing origin count base acked) (below : base < count)
    (done : acked base) :
    ∃ top, tx.advanceVtA.Window origin count top acked := by
  have enough : count - base ≤ rlcAmSnModulo := by
    have := standing.count_lt
    omega
  obtain ⟨top, standingTop, lowest⟩ := advanceLoop_standing standing below done enough
  exact ⟨top, standingTop.window lowest⟩

theorem skipRetrans_sameWindow (tx : Transmitter) (sn : Nat) :
    (tx.skipRetrans sn).pduRetransBuffer = tx.pduRetransBuffer ∧
      tx.SameWindow (tx.skipRetrans sn) := by
  rw [skipRetrans]
  split
  · exact ⟨rfl, .of_pdus rfl rfl rfl rfl id⟩
  · exact ⟨rfl, .of_pdus rfl rfl rfl rfl id⟩

theorem ackPdu_onlyFrees (done : tx.ackPdu sn = some other) : tx.OnlyFrees other := by
  have freed : tx.OnlyFrees (tx.freePdu sn) := .update ⟨rfl, rfl⟩ rfl
  have advanced : ∀ state : Transmitter, state.OnlyFrees state.advanceVtA := fun state =>
    @advanceVtA_establishes state state.OnlyFrees _
      (fun _ frees => frees.trans (.update ⟨rfl, rfl⟩ rfl)) (fun _ frees sn => frees sn)
      fun _ => .inl rfl
  simp only [ackPdu] at done
  split at done
  · obtain ⟨settled, folded, rfl⟩ := Option.map_eq_some_iff.mp done
    have pdus : settled.pduRetransBuffer = (tx.freePdu sn).pduRetransBuffer :=
      (settleSdus_movesSdus folded).kept pduRetransBuffer
    have first : tx.OnlyFrees settled := by
      intro at_
      rw [pdus]
      exact freed at_
    have marked : settled.OnlyFrees
        (settled.setPdu sn { settled.pduRetransBuffer sn with ack := true }) := by
      refine OnlyFrees.update ?_ rfl
      simp [pdus, freePdu, setPdu]
    have acked : settled.OnlyFrees (settled.markAcked sn) := by
      simp only [markAcked]
      split
      · exact marked.trans (advanced _)
      · exact marked
    intro at_
    rw [(skipRetrans_sameWindow (settled.markAcked sn) sn).1]
    exact (first.trans acked) at_
  · split at done
    · cases done
      exact freed.trans (advanced _)
    · cases done
      exact freed

theorem settled_standing (window : tx.Window origin count base acked) (notBelow : base ≤ index)
    (below : index < count) (moves : ((tx.freePdu (snAt origin index)).uncountPdu
      (tx.pduRetransBuffer (snAt origin index))).MovesSdus settled) :
    (settled.setPdu (snAt origin index)
      { settled.pduRetransBuffer (snAt origin index) with ack := true }).Standing
        origin count base (update acked index true) := by
  have pdus : (settled.setPdu (snAt origin index)
      { settled.pduRetransBuffer (snAt origin index) with ack := true }).pduRetransBuffer =
      update tx.pduRetransBuffer (snAt origin index)
        { tx.pduRetransBuffer (snAt origin index) with
          retransmit := false, memBlock := none, ack := true } := by
    rw [setPdu_pduRetransBuffer, moves.kept pduRetransBuffer]
    simp [setPdu, uncountPdu, freePdu]
  refine window.toStanding.settle notBelow below ?_ ?_ ?_ pdus
    (moves.kept vtA) (moves.kept vtS)
    (moves.current window.current)
  · rfl
  · rfl
  · exact window.slots (snAt origin index)

theorem markAcked_window (standing : (settled.setPdu (snAt origin index)
      { settled.pduRetransBuffer (snAt origin index) with ack := true }).Standing
        origin count base (update acked index true))
    (below : index < count) (lowest : acked base = false)
    (vtMs : settled.vtMs = (settled.vtA + rlcAmWindowSize) % rlcAmSnModulo) :
    ∃ top, (settled.markAcked (snAt origin index)).Window origin count top
        (update acked index true) := by
  have atVtA := standing.at_vtA_iff (lt_trans below standing.count_lt)
  simp only [markAcked]
  by_cases first : index = base
  · rw [if_pos (atVtA.mpr first)]
    exact advanceVtA_window standing (first ▸ below) (by rw [first, update_self])
  · rw [if_neg (mt atVtA.mp first)]
    refine ⟨base, standing, fun _ => ?_, vtMs⟩
    rw [update_of_ne (Ne.symm first)]
    exact lowest

theorem ackPdu_idle (window : tx.Window origin count base acked) (indexLt : index < rlcAmSnModulo)
    (idle : ¬((tx.pduRetransBuffer (snAt origin index)).ack = false ∧
      (tx.pduRetransBuffer (snAt origin index)).memBlock.isSome)) :
    (tx.pduRetransBuffer (snAt origin index)).memBlock = none ∧
      tx.ackPdu (snAt origin index) = some (tx.freePdu (snAt origin index)) := by
  have free : (tx.pduRetransBuffer (snAt origin index)).memBlock = none := by
    rw [← Option.not_isSome_iff_eq_none]
    intro held
    obtain ⟨notBelow, below, open_⟩ := window.waiting indexLt held
    exact idle ⟨(window.held index notBelow below).1.trans open_, held⟩
  have behind : ¬((tx.pduRetransBuffer (snAt origin index)).ack ∧ snAt origin index = tx.vtA) := by
    rintro ⟨done, top⟩
    have first := (window.at_vtA_iff indexLt).mp top
    by_cases below : base < count
    · rw [first, (window.held base (le_refl _) below).1, window.lowest below] at done
      cases done
    · rw [(window.clear index indexLt (by omega)).1] at done
      cases done
  have untouched : ¬((tx.pduRetransBuffer (snAt origin index)).ack ∧
      snAt origin index = (tx.freePdu (snAt origin index)).vtA) := behind
  refine ⟨free, ?_⟩
  simp only [ackPdu, if_neg idle, if_neg untouched]

theorem ackPdu_window (window : tx.Window origin count base acked)
    (indexLt : index < rlcAmSnModulo) :
    ∃ other top, tx.ackPdu (snAt origin index) = some other ∧
      other.Window origin count top (update acked index true) := by
  by_cases waits : (tx.pduRetransBuffer (snAt origin index)).ack = false ∧
      (tx.pduRetransBuffer (snAt origin index)).memBlock.isSome
  · obtain ⟨notBelow, below, -⟩ := window.waiting indexLt waits.2
    obtain ⟨settled, folded⟩ : ∃ settled,
        (tx.pduRetransBuffer (snAt origin index)).sdusIndex.foldlM ackSdu
          ((tx.freePdu (snAt origin index)).uncountPdu
            (tx.pduRetransBuffer (snAt origin index))) = some settled :=
      settleSdus_returns _ (window.slots _)
    have moves := settleSdus_movesSdus folded
    have same := moves.sameWindow
    have standing := settled_standing window notBelow below moves
    have vtMs : settled.vtMs = (settled.vtA + rlcAmWindowSize) % rlcAmSnModulo := by
      rw [same.vtMs, same.vtA]
      exact window.vtMs
    obtain ⟨top, marked⟩ := markAcked_window standing below
      (window.lowest (lt_of_le_of_lt notBelow below)) vtMs
    refine ⟨_, top, ?_, marked.congr (skipRetrans_sameWindow _ (snAt origin index)).2⟩
    simp [ackPdu, waits, folded]
  · obtain ⟨free, done⟩ := ackPdu_idle window indexLt waits
    have already : index < count → acked index := by
      intro below
      by_cases notBelow : base ≤ index
      · have entry := (window.held index notBelow below).2
        rw [free] at entry
        simpa using entry.symm
      · exact window.passed index (by omega)
    have same : tx.SameWindow (tx.freePdu (snAt origin index)) :=
      setPdu_sameWindow tx rfl free.symm rfl
    have kept := window.congr same
    refine ⟨tx.freePdu (snAt origin index), base, done,
      kept.toStanding.congr_acked fun at_ below => ?_, fun below => ?_, kept.vtMs⟩
    · rw [update_apply]
      split
      next here => rw [here, already (here ▸ below)]
      · rfl
    · rw [update_apply]
      split
      next here => rw [← window.lowest below, here, already (here ▸ below)]
      · exact window.lowest below

end Standing

end OpenAir.RlcAm
