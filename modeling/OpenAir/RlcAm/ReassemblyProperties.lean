import OpenAir.RlcAm.SegmentedPdu

/-! What the reassembly of one PDU delivers: every piece but the last ends an
SDU, the last one only if the framing information says so. -/

set_option autoImplicit false

namespace OpenAir.RlcAm

open List Reassembly

def Reassembly.pending (state : Reassembly) : List UInt8 :=
  state.outputSduInConstruction.getD []

def completes (pending : List UInt8) : List (List UInt8) → List (List UInt8)
  | [] => []
  | piece :: pieces => (pending ++ piece) :: pieces

@[simp] theorem completes_nothing (pieces : List (List UInt8)) : completes [] pieces = pieces := by
  cases pieces <;> simp [completes]

theorem reassembly_fits {state : Reassembly} {piece : List UInt8}
    (fits : (state.pending ++ piece).length ≤ rlcSduMaxSize) :
    state.reassembly piece = ⟨some (state.pending ++ piece), state.dataInd⟩ := by
  rw [length_append] at fits
  simp only [reassembly, pending] at fits ⊢
  rw [if_pos fits]

theorem sendSdu_reassembly {state : Reassembly} {piece : List UInt8} (some_octet : piece ≠ [])
    (fits : (state.pending ++ piece).length ≤ rlcSduMaxSize) :
    (state.reassembly piece).sendSdu = some ⟨none, state.dataInd ++ [state.pending ++ piece]⟩ := by
  rw [reassembly_fits fits]
  cases written : state.pending ++ piece with
  | nil => exact absurd (append_eq_nil_iff.mp written).2 some_octet
  | cons octet octets => rfl

theorem payloadOctets_append {payload piece rest : List UInt8} {offset : Nat}
    (here : payload.drop offset = piece ++ rest) :
    payloadOctets payload offset piece.length = piece := by
  have length := congrArg List.length here
  rw [length_drop, length_append] at length
  cases piece with
  | nil => rfl
  | cons octet octets =>
    simp only [length_cons] at length
    rw [payloadOctets_eq (by simp only [length_cons]; omega), here, take_left' rfl]

def Reassembly.completed (state : Reassembly) (pieces : List (List UInt8)) : Reassembly :=
  { outputSduInConstruction := if pieces = [] then state.outputSduInConstruction else none
    dataInd := state.dataInd ++ completes state.pending pieces }

theorem completed_cons (state : Reassembly) (piece : List UInt8) (pieces : List (List UInt8)) :
    state.completed (piece :: pieces) =
      completed ⟨none, state.dataInd ++ [state.pending ++ piece]⟩ pieces := by
  cases pieces <;> simp [completed, completes, pending]

theorem completed_append (state : Reassembly) (pieces : List (List UInt8)) (last : List UInt8) :
    state.completed (pieces ++ [last]) =
      ⟨none, (state.completed pieces).dataInd ++ [(state.completed pieces).pending ++ last]⟩ := by
  cases pieces <;> simp [completed, completes, pending]

theorem reassembleLis_pieces {payload last : List UInt8} (pieces : List (List UInt8)) :
    ∀ {state : Reassembly} {offset : Nat}, payload.drop offset = pieces.flatten ++ last →
      (∀ piece ∈ pieces, piece ≠ []) →
      (∀ sdu ∈ completes state.pending pieces, sdu.length ≤ rlcSduMaxSize) →
      state.reassembleLis payload offset (pieces.map List.length) =
        some (state.completed pieces, offset + pieces.flatten.length) := by
  induction pieces with
  | nil =>
    simp [reassembleLis, completed, completes]
  | cons piece pieces ih =>
    intro state offset here nonempty fits
    rw [flatten_cons, append_assoc] at here
    have sent :=
      @sendSdu_reassembly state piece (nonempty piece (by simp)) (fits _ (by simp [completes]))
    have following : payload.drop (offset + piece.length) = pieces.flatten ++ last := by
      rw [← drop_drop, here, drop_left' rfl]
    have rest := @ih ⟨none, state.dataInd ++ [state.pending ++ piece]⟩ (offset + piece.length)
      following (fun other mem => nonempty other (mem_cons_of_mem _ mem))
      (fun sdu mem => fits sdu (mem_cons_of_mem _ (by simpa [pending] using mem)))
    simp only [map_cons, reassembleLis, payloadOctets_append here, sent,
      Option.bind_some, rest, completed_cons, flatten_cons, length_append,
      Nat.add_assoc]

theorem reassemblePdu_carries {state : Reassembly} {info : PduInfo} {starts ends : Bool}
    {pieces : List (List UInt8)} {last : List UInt8}
    (carries : Carries info starts ends pieces last)
    (begun : starts → state.outputSduInConstruction = none)
    (nonempty : ∀ piece ∈ pieces ++ [last], piece ≠ [])
    (fits : ∀ sdu ∈ completes state.pending (pieces ++ [last]), sdu.length ≤ rlcSduMaxSize) :
    state.reassemblePdu info =
      some (if ends then state.completed (pieces ++ [last])
        else
          ⟨some ((state.completed pieces).pending ++ last), (state.completed pieces).dataInd⟩) := by
  obtain ⟨isStart, isEnd, extended, liList, payload, payloadSize, hiddenSize⟩ := carries
  have opened : state.sendSduIf starts = some state := by
    cases starts with
    | false => rfl
    | true => simp [sendSduIf, sendSdu, begun rfl]
  have some_octet : last ≠ [] := nonempty last (by simp)
  have lastFits : ((state.completed pieces).pending ++ last).length ≤ rlcSduMaxSize := by
    refine fits _ ?_
    cases pieces <;> simp [completed, completes, pending]
  have closed : ((state.completed pieces).reassembly last).sendSduIf ends =
      some (if ends then state.completed (pieces ++ [last])
        else ⟨some ((state.completed pieces).pending ++ last),
          (state.completed pieces).dataInd⟩) := by
    cases ends with
    | false => simp [sendSduIf, reassembly_fits lastFits]
    | true => simp [sendSduIf, sendSdu_reassembly some_octet lastFits, completed_append]
  simp only [reassemblePdu, isStart, isEnd, opened, Option.bind_some, extended]
  cases pieces with
  | nil =>
    have whole : payloadOctets info.payload 0 info.payloadSize.toNat = last := by
      rw [payloadSize, payload]
      exact @payloadOctets_append last last [] 0 (by simp)
    have same : state.completed [] = state := by
      simp [completed, completes]
    rw [same] at closed
    simp only [isEmpty_nil, Bool.not_true, if_true, whole, same]
    exact closed
  | cons piece pieces =>
    have hidden : info.hiddenSize > 0 := by
      have positive := length_pos_of_ne_nil some_octet
      omega
    have tail : payloadOctets info.payload (piece :: pieces).flatten.length
        info.hiddenSize.toNat = last := by
      rw [hiddenSize, payload]
      refine @payloadOctets_append _ last [] _ ?_
      rw [drop_left' rfl, append_nil]
    have delivered := @reassembleLis_pieces info.payload last (piece :: pieces) state 0
      (by rw [payload, drop_zero])
      (fun other mem => nonempty other (mem_append_left _ mem))
      (fun sdu mem => fits sdu (by
        simp only [completes, cons_append, mem_cons, mem_append] at mem ⊢
        tauto))
    simp only [isEmpty_cons, Bool.not_false, Bool.true_eq_false, if_false, liList, delivered,
      Option.bind_some, hidden, if_true, Nat.zero_add, tail]
    exact closed

end OpenAir.RlcAm
