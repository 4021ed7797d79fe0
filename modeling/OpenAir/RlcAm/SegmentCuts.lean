import OpenAir.RlcAm.SegmentPlan
import OpenAir.RlcAm.SegmentationProperties

/-! Where a segment of a retransmitted PDU is cut: its length indicators stand
for the ends of SDUs inside it, and its framing information tells whether its
own ends are ends of SDUs. -/

set_option autoImplicit false

namespace OpenAir.RlcAm

open List Resegmenting

def endsFrom (base : Nat) : List Nat → List Nat
  | [] => []
  | length :: rest => (base + length) :: endsFrom (base + length) rest

section Ends

variable {base length place : Nat} {rest lengths : List Nat}

theorem lt_of_mem_endsFrom (positive : ∀ length ∈ lengths, 0 < length)
    (mem : place ∈ endsFrom base lengths) : base < place := by
  induction lengths generalizing base with
  | nil => cases mem
  | cons length rest ih =>
    have here := positive length mem_cons_self
    rcases mem_cons.mp mem with rfl | later
    · omega
    · have := ih (fun length mem => positive length (mem_cons_of_mem _ mem)) later
      omega

theorem le_of_mem_endsFrom_cons (positive : ∀ length ∈ rest, 0 < length)
    (mem : place ∈ endsFrom base (length :: rest)) : base + length ≤ place := by
  rcases mem_cons.mp mem with rfl | later
  · exact Nat.le_refl _
  · exact Nat.le_of_lt (lt_of_mem_endsFrom positive later)

@[simp]
theorem length_endsFrom (base : Nat) (lengths : List Nat) :
    (endsFrom base lengths).length = lengths.length := by
  induction lengths generalizing base with
  | nil => rfl
  | cons length rest ih => rw [endsFrom, length_cons, ih, length_cons]

end Ends

def between (ends : List Nat) (start stop : Nat) : List Nat :=
  ends.filter fun place => decide (start < place ∧ place < stop)

theorem between_eq_nil {ends : List Nat} {start stop : Nat}
    (beyond : ∀ place ∈ ends, stop ≤ place) : between ends start stop = [] := by
  refine filter_eq_nil_iff.mpr fun place mem => ?_
  have := beyond place mem
  rw [decide_eq_true_eq]
  omega

/-- The loop over the length indicators has come to the octet `cursor`, not
before the end `base` of the SDUs it has passed, and may use `room` octets. -/
structure Resegmenting.At (state : Resegmenting) (second : Bool) (base cursor room : Nat) :
    Prop where
  continues : state.continues
  liSum : state.liSum = base
  startOffset : state.startOffset = cursor
  maxCopy : state.maxCopyPayloadSize = room
  remaining : state.maxCopyPayloadSize ≤ state.pduRemainingSize
  liLength : state.liLength = liLengthBefore second
  positive : 0 < room
  behind : base ≤ cursor
  begun : cursor = base ∨ state.liList = [] ∧ state.pduCopySize = 0
  bits : state.notFi < 4
  last : state.notFi.testBit 0 = false

/-- From `state` on, the octets from `cursor` to `stop` were taken, cut at the
`ends` of SDUs between them. `closes` says that the last octet of the PDU ends
an SDU and is reached. -/
structure Resegmenting.Takes (state final : Resegmenting) (second : Bool)
    (cursor room stop : Nat) (ends parts : List Nat) (closes : Prop) : Prop where
  liList : final.liList = state.liList ++ parts.map Nat.cast
  copied : final.pduCopySize = state.pduCopySize + (stop - cursor)
  forward : cursor < stop
  fits : stop + liSpace second parts.length ≤ cursor + room
  full : stop + liSpace second parts.length = cursor + room ∨ stop ∈ ends
  cuts : endsFrom cursor parts = between ends cursor stop
  small : ∀ part ∈ parts, part < 2048
  bits : final.notFi < 4
  first : final.notFi.testBit 1 = true ↔ cursor ∈ ends ∨ state.notFi.testBit 1
  last : final.notFi.testBit 0 = true ↔ stop ∈ ends ∨ closes

section Loop

private theorem framing_kept : ∀ notFi < 4,
    (notFi &&& 2) < 4 ∧ (notFi &&& 2).testBit 1 = notFi.testBit 1 ∧
      (notFi &&& 2).testBit 0 = false ∧
      (notFi ||| 1) < 4 ∧ (notFi ||| 1).testBit 1 = notFi.testBit 1 ∧
      (notFi ||| 1).testBit 0 ∧
      (notFi ||| 2) < 4 ∧ (notFi ||| 2).testBit 1 ∧
      (notFi ||| 2).testBit 0 = notFi.testBit 0 := by
  decide

private theorem framing_closed : ∀ notFi < 4, ∀ original < 4,
    ((notFi &&& 2) ||| (original &&& 1)) < 4 ∧
      ((notFi &&& 2) ||| (original &&& 1)).testBit 1 = notFi.testBit 1 ∧
      ((notFi &&& 2) ||| (original &&& 1)).testBit 0 = original.testBit 0 := by
  decide

variable {state final : Resegmenting} {second : Bool} {base cursor room hidden original : Nat}

namespace Resegmenting

theorem overLis_stopped (stopped : state.continues = false) (lis : List Nat) :
    state.overLis lis = some state := by
  cases lis with
  | nil => rfl
  | cons li lis => rw [overLis, if_pos stopped]

theorem takeHidden_stopped (stopped : state.continues = false) (hiddenSize : Int)
    (original : Nat) : state.takeHidden hiddenSize original = state := by
  rw [takeHidden, if_neg]
  rw [stopped]
  rintro ⟨absurd, -⟩
  cases absurd

theorem At.takeHidden (here : state.At second base cursor room) (original_lt : original < 4)
    (some_octet : 0 < hidden) (within : cursor + room ≤ base + hidden) :
    state.Takes (state.takeHidden hidden original) second cursor room (cursor + room) [] []
      (cursor + room = base + hidden ∧ original.testBit 0) := by
  obtain ⟨continues, liSum, startOffset, maxCopy, remaining, -, positive, -, -, bits, last⟩ := here
  obtain ⟨openBits, openFirst, openLast, -⟩ := framing_kept state.notFi bits
  obtain ⟨closedBits, closedFirst, closedLast⟩ :=
    framing_closed state.notFi bits original original_lt
  rw [Resegmenting.takeHidden, if_pos ⟨continues, by omega, by omega, by omega⟩]
  simp only
  split
  next reaches =>
    have whole : cursor + room = base + hidden := by omega
    refine ⟨by simp, by simp only; omega, by omega, by simp [liSpace], .inl (by simp [liSpace]),
      rfl,
      by simp, closedBits, ?_, ?_⟩
    · rw [closedFirst]
      simp
    · simp [whole]
  next short =>
    have part : cursor + room ≠ base + hidden := by omega
    refine ⟨by simp, by simp only; omega, by omega, by simp [liSpace], .inl (by simp [liSpace]),
      rfl,
      by simp, openBits, ?_, ?_⟩
    · rw [openFirst]
      simp
    · simp [part]

theorem ended (stopped : final.continues = false) (lis : List Nat) :
    (final.overLis lis).map (·.takeHidden hidden original) = some final := by
  rw [overLis_stopped stopped, Option.map_some, takeHidden_stopped stopped]

/-- A round for an SDU that ends behind the cursor, at `limit`. The loop stops
inside the SDU or with it, or a length indicator is written and it goes on. -/
theorem takeSdu_cases {limit : Nat} (continues : state.continues) (liSum : state.liSum = limit)
    (startOffset : state.startOffset = cursor) (maxCopy : state.maxCopyPayloadSize = room)
    (remaining : state.maxCopyPayloadSize ≤ state.pduRemainingSize)
    (liLength : state.liLength = liLengthBefore second) (positive : 0 < room)
    (ahead : cursor < limit) (bits : state.notFi < 4) (last : state.notFi.testBit 0 = false) :
    (∃ final, ∃ stop : Nat, state.takeSdu = some final ∧ final.continues = false ∧
      final.liList = state.liList ∧ final.pduCopySize = state.pduCopySize + (stop - cursor) ∧
      cursor < stop ∧ stop ≤ cursor + room ∧ stop ≤ limit ∧
      (stop = cursor + room ∨ stop = limit) ∧ final.notFi < 4 ∧
      final.notFi.testBit 1 = state.notFi.testBit 1 ∧
      (final.notFi.testBit 0 = true ↔ stop = limit)) ∨
    ∃ next fewer, state.takeSdu = some next ∧
      room = limit - cursor + liLengthBefore (!second) + fewer ∧
        next.At (!second) limit limit fewer ∧
      next.liList = state.liList ++ [((limit - cursor : Nat) : Int)] ∧
      next.pduCopySize = state.pduCopySize + (limit - cursor) ∧ next.notFi = state.notFi := by
  obtain ⟨openBits, openFirst, openLast, endBits, endFirst, endLast, -⟩ :=
    framing_kept state.notFi bits
  simp only [takeSdu]
  split
  next inside =>
    rw [if_pos (by omega)]
    refine Or.inl ⟨_, cursor + room, rfl, rfl, rfl, by simp only; omega, by omega, by omega,
      by omega, .inl rfl, ?_⟩
    split
    next before => exact ⟨openBits, openFirst, by rw [openLast]; simp; omega⟩
    next ends => exact ⟨endBits, endFirst, by rw [endLast]; simp; omega⟩
  next past =>
    rw [liLength, liLengthBefore_flip]
    split
    next more =>
      have left : state.liSum - state.startOffset = ((limit - cursor : Nat) : Int) := by omega
      refine Or.inr ⟨_, room - (limit - cursor) - liLengthBefore (!second), rfl, by omega, ?_,
        by simp only [left], by simp only; omega, rfl⟩
      exact ⟨continues, liSum, liSum, by simp only; omega, by simp only; omega, rfl, by omega,
        Nat.le_refl _, Or.inl rfl, bits, last⟩
    · refine Or.inl ⟨_, limit, rfl, rfl, rfl, by simp only; omega, ahead, by omega,
        Nat.le_refl _, .inr rfl, endBits, endFirst, ?_⟩
      simp only [endLast]

end Resegmenting

section Takes

variable {next : Resegmenting} {limit stop : Nat} {ends parts : List Nat} {closes : Prop}

theorem Resegmenting.Takes.afterLi {fewer : Nat}
    (takes : next.Takes final (!second) limit fewer stop ends parts closes)
    (later : ∀ place ∈ ends, limit < place) (ahead : cursor < limit) (small : limit - cursor < 2048)
    (split : room = limit - cursor + liLengthBefore (!second) + fewer)
    (listed : next.liList = state.liList ++ [((limit - cursor : Nat) : Int)])
    (copied : next.pduCopySize = state.pduCopySize + (limit - cursor))
    (same : next.notFi = state.notFi) :
    state.Takes final second cursor room stop (limit :: ends) ((limit - cursor) :: parts)
      closes := by
  obtain ⟨rest, total, forward, fits, full, cuts, partsSmall, bits, first, last⟩ := takes
  have behindFirst : between (limit :: ends) cursor stop = limit :: between ends limit stop := by
    rw [between, filter_cons_of_pos (by simp only [decide_eq_true_eq]; omega)]
    congr 1
    refine filter_congr fun place mem => ?_
    have := later place mem
    rw [decide_eq_decide]
    omega
  have notIn : ∀ place ≤ limit, place ∉ ends := fun place upTo mem =>
    Nat.not_lt.mpr upTo (later place mem)
  refine ⟨?_, by omega, by omega, ?_, full.imp ?_ (mem_cons_of_mem _), ?_, ?_, bits, ?_, ?_⟩
  · rw [rest, listed, append_assoc, map_cons, singleton_append]
  · rw [length_cons, liSpace_succ]
    omega
  · rw [length_cons, liSpace_succ]
    omega
  · rw [behindFirst, endsFrom, ← cuts, Nat.add_sub_cancel' (Nat.le_of_lt ahead)]
  · intro part mem
    rcases mem_cons.mp mem with rfl | mem
    · exact small
    · exact partsSmall part mem
  · rw [first, same]
    simp [notIn limit (Nat.le_refl _), notIn cursor (Nat.le_of_lt ahead), Nat.ne_of_lt ahead]
  · rw [last]
    simp [Nat.ne_of_gt forward]

theorem Resegmenting.Takes.behind
    (takes : next.Takes final second cursor room stop ends parts closes) (behind : limit ≤ cursor)
    (listed : next.liList = state.liList) (copied : next.pduCopySize = state.pduCopySize)
    (same : next.notFi.testBit 1 = true ↔ cursor = limit ∨ state.notFi.testBit 1) :
    state.Takes final second cursor room stop (limit :: ends) parts closes := by
  obtain ⟨rest, total, forward, fits, full, cuts, partsSmall, bits, first, last⟩ := takes
  refine ⟨by rw [rest, listed], by rw [total, copied], forward, fits,
    full.imp_right (mem_cons_of_mem _), ?_, partsSmall, bits, ?_, ?_⟩
  · rw [cuts, between, between, filter_cons_of_neg]
    simp only [decide_eq_true_eq]
    omega
  · rw [first, same, mem_cons, or_left_comm, or_assoc]
  · rw [last]
    simp [Nat.ne_of_gt (Nat.lt_of_le_of_lt behind forward)]

end Takes

/-- The induction is on the length indicators still to come; `base` and `cursor`
move with them. -/
theorem Resegmenting.At.takes (original_lt : original < 4) (some_octet : 0 < hidden)
    {lis : List Nat} (positive : ∀ li ∈ lis, 0 < li) (small : ∀ li ∈ lis, li < 2048)
    (here : state.At second base cursor room) (within : cursor + room ≤ base + lis.sum + hidden) :
    ∃ final stop parts,
      (state.overLis lis).map (·.takeHidden hidden original) = some final ∧
      state.Takes final second cursor room stop (endsFrom base lis) parts
        (stop = base + lis.sum + hidden ∧ original.testBit 0) := by
  induction lis generalizing state second base cursor room with
  | nil =>
    refine ⟨_, cursor + room, [], rfl, ?_⟩
    exact here.takeHidden original_lt some_octet within
  | cons li lis ih =>
    have laterPositive : ∀ li ∈ lis, 0 < li := fun li mem =>
      positive li (mem_cons_of_mem _ mem)
    have laterSmall : ∀ li ∈ lis, li < 2048 := fun li mem =>
      small li (mem_cons_of_mem _ mem)
    have liPositive := positive li mem_cons_self
    have liSmall := small li mem_cons_self
    have beyond : ∀ place ∈ endsFrom base (li :: lis), base + li ≤ place := fun place mem =>
      le_of_mem_endsFrom_cons laterPositive mem
    have later : ∀ place ∈ endsFrom (base + li) lis, base + li < place := fun place mem =>
      lt_of_mem_endsFrom laterPositive mem
    obtain ⟨continues, liSum, startOffset, maxCopy, remaining, liLength, room_pos, behind, begun,
      bits, last⟩ := here
    obtain ⟨-, -, -, -, -, -, startBits, startFirst, startLast⟩ := framing_kept state.notFi bits
    rw [sum_cons] at within ⊢
    rw [overLis, if_neg (by rw [continues]; decide)]
    simp only
    rw [if_pos ⟨by omega, by omega⟩]
    split
    next ahead =>
      rcases @takeSdu_cases
          { state with
            maxCopyPayloadSize := min state.maxCopyPayloadSize state.pduRemainingSize
            liSum := state.liSum + li } second cursor room (base + li) continues
          (by simp only; omega) startOffset (by simp only; omega) (by simp only; omega) liLength
          room_pos (by omega) bits last with
        ⟨final, stop, taken, stopped, sameList, copied, forward, fits, inside, full, finalBits,
          first, ends⟩ | ⟨next, fewer, taken, split, after, listed, copied, same⟩
      · refine ⟨final, stop, [], ?_, ?_⟩
        · rw [taken, Option.bind_some, ended stopped]
        · refine ⟨by simpa using sameList, copied, forward, by simpa [liSpace] using fits,
            full.imp (by simpa [liSpace] using ·) fun here => by rw [here]; exact mem_cons_self, ?_,
            by simp, finalBits, ?_, ?_⟩
          · exact (between_eq_nil fun place mem =>
              Nat.le_trans inside (beyond place mem)).symm
          · have apart : cursor ∉ endsFrom base (li :: lis) := fun mem => by
              have := beyond cursor mem
              omega
            simp [first, apart]
          · refine ends.trans ⟨fun reached => Or.inl (reached ▸ mem_cons_self), ?_⟩
            rintro (mem | ⟨whole, -⟩)
            · have := beyond stop mem
              omega
            · omega
      · obtain ⟨final, stop, parts, ran, takes⟩ := ih laterPositive laterSmall after (by omega)
        refine ⟨final, stop, (base + li - cursor) :: parts, ?_, ?_⟩
        · rw [taken, Option.bind_some, ran]
        · rw [← Nat.add_assoc]
          exact takes.afterLi later (by omega) (by omega) split listed copied same
    next notAhead =>
      have reached : base + li ≤ cursor := by omega
      have fresh := begun.resolve_left (by omega)
      rw [← Nat.add_assoc] at within ⊢
      split
      next starts =>
        obtain ⟨final, stop, parts, ran, takes⟩ := @ih
          { state with
            maxCopyPayloadSize := min state.maxCopyPayloadSize state.pduRemainingSize
            liSum := state.liSum + li
            notFi := state.notFi ||| 2 } second (base + li) cursor room laterPositive
          laterSmall
          ⟨continues, by simp only; omega, startOffset, by simp only; omega,
            by simp only; omega, liLength, room_pos, reached, Or.inr fresh, startBits,
            startLast.trans last⟩ within
        refine ⟨final, stop, parts, ran, takes.behind reached rfl rfl ?_⟩
        simp only [startFirst, true_iff]
        omega
      next notStarts =>
        obtain ⟨final, stop, parts, ran, takes⟩ := @ih
          { state with
            maxCopyPayloadSize := min state.maxCopyPayloadSize state.pduRemainingSize
            liSum := state.liSum + li } second (base + li) cursor room laterPositive
          laterSmall
          ⟨continues, by simp only; omega, startOffset, by simp only; omega,
            by simp only; omega, liLength, room_pos, reached, Or.inr fresh, bits, last⟩
          within
        refine ⟨final, stop, parts, ran, takes.behind reached rfl rfl ?_⟩
        have apart : cursor ≠ base + li := by
          intro equal
          exact notStarts ⟨by omega, fresh⟩
        simp [apart]

end Loop

/-- A decoded PDU whose length indicators each end an SDU and leave one behind
the last of them. -/
structure PduInfo.Framed (info : PduInfo) : Prop where
  fi : info.fi < 4
  positive : ∀ li ∈ info.liList, 0 < li
  small : ∀ li ∈ info.liList, li < 2048
  hidden : 0 < info.hiddenSize
  total : info.payloadSize = info.liList.sum + info.hiddenSize

/-- The plan of a segment with the octets from `start` to `stop` of a PDU of
`size` octets, cut into `parts` and the rest. Octets left over behind the PDU
only matter for its own end. -/
structure SegmentPlan.Cuts (plan : SegmentPlan) (info : PduInfo) (size : Int) (start stop : Nat)
    (parts : List Nat) : Prop where
  startOffset : plan.startOffset = start
  pduCopySize : plan.pduCopySize = stop - start
  forward : start < stop
  liList : plan.liList = parts.map Nat.cast
  cuts : endsFrom start parts = between (endsFrom 0 info.liList) start stop
  small : ∀ part ∈ parts, part < 2048
  bits : plan.notFi < 4
  first : plan.notFi.testBit 1 = true ↔
    start ∈ endsFrom 0 info.liList ∨ start = 0 ∧ info.fi &&& 2 = 0
  last : stop < size ∨ size = info.payloadSize → (plan.notFi.testBit 0 = true ↔
    stop ∈ endsFrom 0 info.liList ∨ stop = size ∧ info.fi &&& 1 = 0)

private theorem framing_original : ∀ fi < 4, fi ^^^ 3 < 4 ∧
    ((fi ^^^ 3).testBit 1 = true ↔ fi &&& 2 = 0) ∧
    ((fi ^^^ 3).testBit 0 = true ↔ fi &&& 1 = 0) := by
  decide

theorem TxPdu.planSegment_cuts {pdu : TxPdu} {info : PduInfo} {size : Int} {start final : Nat}
    (framed : info.Framed) (sized : pdu.payloadSize ≤ info.payloadSize)
    (hole : pdu.getNextHole = (↑start, ↑final)) (proper : start ≤ final)
    (within : final < pdu.payloadSize) (room : 0 < size) :
    ∃ plan stop parts, pdu.planSegment info size = some plan ∧
      plan.Cuts info pdu.payloadSize start stop parts ∧
      stop + liSpace false parts.length ≤ start + min ((final : Int) - start + 1) size ∧
      (stop + liSpace false parts.length = start + min ((final : Int) - start + 1) size ∨
        stop ∈ endsFrom 0 info.liList) := by
  obtain ⟨fi_lt, positive, small, some_octet, total⟩ := framed
  obtain ⟨original_lt, originalFirst, originalLast⟩ := framing_original info.fi fi_lt
  obtain ⟨hidden, hiddenSize⟩ := Int.eq_ofNat_of_zero_le (Int.le_of_lt some_octet)
  obtain ⟨limit, limited⟩ := Int.eq_ofNat_of_zero_le
    (by omega : 0 ≤ min ((final : Int) - start + 1) size)
  obtain ⟨openBits, openFirst, openLast, -⟩ := framing_kept (info.fi ^^^ 3) original_lt
  let notFi := if (start : Int) = 0 then (info.fi ^^^ 3) &&& 2 else 0
  have begins : notFi < 4 ∧ notFi.testBit 0 = false ∧
      (notFi.testBit 1 = true ↔ start = 0 ∧ info.fi &&& 2 = 0) := by
    simp only [notFi]
    split
    next zero =>
      refine ⟨openBits, openLast, ?_⟩
      rw [openFirst, originalFirst]
      omega
    next inside =>
      refine ⟨by decide, rfl, ?_⟩
      simp only [Nat.zero_testBit, Bool.false_eq_true, false_iff]
      omega
  obtain ⟨notFi_lt, notLast, starts⟩ := begins
  simp only [TxPdu.planSegment, hole]
  rw [if_pos ⟨by omega, room⟩, limited]
  split
  next plain =>
    obtain ⟨keptBits, keptFirst, keptLast, -⟩ := framing_kept notFi notFi_lt
    obtain ⟨closedBits, closedFirst, closedLast⟩ :=
      framing_closed notFi notFi_lt (info.fi ^^^ 3) original_lt
    have none : endsFrom 0 info.liList = [] := by
      rw [plain]
      rfl
    refine ⟨_, start + limit, [], rfl, ?_, by simp [liSpace],
      .inl (by simp [liSpace])⟩
    · refine ⟨rfl, by simp only; omega, by omega, rfl, ?_, by simp, ?_, ?_, ?_⟩
      · rw [none]
        rfl
      · split
        · exact closedBits
        · exact keptBits
      · simp only [none, not_mem_nil, false_or]
        rw [← starts]
        split
        · exact iff_of_eq (congrArg (· = true) closedFirst)
        · exact iff_of_eq (congrArg (· = true) keptFirst)
      · intro _
        simp only [none, not_mem_nil, false_or]
        split
        next reaches =>
          have whole : ((start + limit : Nat) : Int) = pdu.payloadSize := by omega
          rw [closedLast, originalLast]
          simp only [whole, true_and]
        next short =>
          have part : ((start + limit : Nat) : Int) ≠ pdu.payloadSize := by omega
          rw [keptLast]
          simp only [part, Bool.false_eq_true, false_and]
  · obtain ⟨state, stop, parts, ran, takes⟩ := @At.takes
      ⟨limit, size, 0, start, 0, notFi, 1, [], true⟩ false 0 start limit hidden (info.fi ^^^ 3)
      original_lt (by omega) info.liList positive small
      ⟨rfl, rfl, rfl, rfl, by simp only; omega, rfl, by omega, Nat.zero_le _, Or.inr ⟨rfl, rfl⟩,
        notFi_lt, notLast⟩ (by omega)
    obtain ⟨listed, copied, forward, fits, full, cuts, partsSmall, bits, first, last⟩ := takes
    obtain ⟨looped, ranLoop, rfl⟩ := Option.map_eq_some_iff.mp ran
    refine ⟨_, stop, parts, by rw [hiddenSize, ranLoop]; rfl, ?_, by omega,
      full.imp_left (by omega)⟩
    refine ⟨rfl, by simpa using copied, forward, by simpa using listed, cuts, partsSmall, bits, ?_,
      ?_⟩
    · rw [first, starts]
    · intro ending
      have whole : stop = 0 + info.liList.sum + hidden ↔ (stop : Int) = pdu.payloadSize := by omega
      rw [last, originalLast, whole]

end OpenAir.RlcAm
