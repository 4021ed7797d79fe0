import Mathlib.Logic.Function.Iterate

/-! The generator of the pseudo-random sequence, after `lte_gold_generic` in
`lte_gold.c`. Two shift registers are advanced by 32 places in each call, in words
whose last bits are made of the first ones of the same word. -/

set_option autoImplicit false

namespace OpenAir.Phy

/-- One word later, for the register whose next bit is the sum of those at the taps. -/
def advanceRegister (taps : List Nat) (word : BitVec 32) : BitVec 32 :=
  let next := taps.foldr (fun tap sum => (word >>> (tap + 1)) ^^^ sum) 0
  taps.foldr (fun tap sum => (next <<< (31 - tap)) ^^^ sum) next

def advanceX1 : BitVec 32 → BitVec 32 := advanceRegister [0, 3]

def advanceX2 : BitVec 32 → BitVec 32 := advanceRegister [0, 1, 2, 3]

/-- What `*x1` and `*x2` are after a call, and the value returned. -/
def lteGoldGeneric (x1 x2 : BitVec 32) (reset : Bool) : BitVec 32 × BitVec 32 × BitVec 32 :=
  let (x1, x2) :=
    if reset then
      (advanceX1^[49] 0x80000001,
        advanceX2^[49] (x2 ^^^ ((x2 ^^^ (x2 >>> 1) ^^^ (x2 >>> 2) ^^^ (x2 >>> 3)) <<< 31)))
    else (x1, x2)
  (advanceX1 x1, advanceX2 x2, advanceX1 x1 ^^^ advanceX2 x2)

/-- The first call resets the generator, the others go on from where it is. -/
def goldCalls (x1 : BitVec 32) (cInit : BitVec 31) : Nat → BitVec 32 × BitVec 32 × BitVec 32
  | 0 => lteGoldGeneric x1 (cInit.setWidth 32) true
  | call + 1 =>
    lteGoldGeneric (goldCalls x1 cInit call).1 (goldCalls x1 cInit call).2.1 false

/-- The sequence x1 of the standard. -/
def x1Sequence (n : Nat) : Bool :=
  if n < 31 then n == 0 else x1Sequence (n - 28) ^^ x1Sequence (n - 31)

/-- The sequence x2 of the standard, whose first 31 bits are given. -/
def x2Sequence (cInit : BitVec 31) (n : Nat) : Bool :=
  if n < 31 then cInit.getLsbD n
  else x2Sequence cInit (n - 28) ^^ x2Sequence cInit (n - 29) ^^ x2Sequence cInit (n - 30) ^^
    x2Sequence cInit (n - 31)

section Words

def parity (taps : List Nat) (bits : Nat → Bool) : Bool :=
  taps.foldr (fun tap sum => bits tap ^^ sum) false

theorem parity_congr {taps : List Nat} {bits others : Nat → Bool}
    (same : ∀ tap ∈ taps, bits tap = others tap) : parity taps bits = parity taps others := by
  induction taps with
  | nil => rfl
  | cons tap taps ih =>
    obtain ⟨here, rest⟩ := List.forall_mem_cons.mp same
    exact congrArg₂ (· ^^ ·) here (ih rest)

theorem parity_xor (taps : List Nat) (bits others : Nat → Bool) :
    (parity taps bits ^^ parity taps others) = parity taps fun tap => bits tap ^^ others tap := by
  induction taps with
  | nil => rfl
  | cons tap taps ih =>
    simp only [parity, List.foldr_cons] at ih ⊢
    rw [← ih, Bool.xor_assoc, Bool.xor_assoc, Bool.xor_left_comm _ (others tap)]

theorem getLsbD_foldr (taps : List Nat) (terms : Nat → BitVec 32) (start : BitVec 32) (bit : Nat) :
    (taps.foldr (fun tap sum => terms tap ^^^ sum) start).getLsbD bit =
      (parity taps (fun tap => (terms tap).getLsbD bit) ^^ start.getLsbD bit) := by
  induction taps with
  | nil => simp [parity]
  | cons tap taps ih => simp only [List.foldr_cons, BitVec.getLsbD_xor, ih, parity, Bool.xor_assoc]

def IsWord (sequence : Nat → Bool) (index : Nat) (word : BitVec 32) : Prop :=
  ∀ bit < 32, word.getLsbD bit = sequence (32 * index + bit)

variable {taps : List Nat} {sequence : Nat → Bool} {index : Nat} {word : BitVec 32}
  (small : ∀ tap ∈ taps, tap ≤ 3)
  (recurs : ∀ n, sequence (n + 31) = parity taps fun tap => sequence (n + tap))

include small recurs

theorem IsWord.advance (isWord : IsWord sequence index word) :
    IsWord sequence (index + 1) (advanceRegister taps word) := by
  intro bit below
  simp only [advanceRegister]
  generalize made : taps.foldr (fun tap sum => (word >>> (tap + 1)) ^^^ sum) 0 = next
  have bits : ∀ place, next.getLsbD place =
      parity taps fun tap => word.getLsbD (tap + 1 + place) := by
    intro place
    simp [← made, getLsbD_foldr]
  -- the first bits of the next word do not reach behind the word
  have first : ∀ place < 4, next.getLsbD place = sequence (32 * index + place + 32) := by
    intro place low
    rw [bits, recurs (32 * index + place + 1)]
    refine parity_congr fun tap mem => ?_
    have := small tap mem
    rw [isWord _ (by omega)]
    exact congrArg sequence (by omega)
  rw [getLsbD_foldr, bits, parity_xor,
    show 32 * (index + 1) + bit = 32 * index + bit + 1 + 31 by omega, recurs]
  refine parity_congr fun tap mem => ?_
  have := small tap mem
  rw [BitVec.getLsbD_shiftLeft]
  by_cases inside : tap + 1 + bit < 32
  · rw [isWord _ inside, decide_eq_true (by omega : bit < 31 - tap)]
    simpa using congrArg sequence (by omega)
  · rw [word.getLsbD_of_ge _ (by omega), first _ (by omega)]
    simpa [below, show ¬ bit < 31 - tap by omega] using congrArg sequence (by omega)

theorem IsWord.iterate (isWord : IsWord sequence 0 word) (count : Nat) :
    IsWord sequence count ((advanceRegister taps)^[count] word) := by
  induction count with
  | zero => exact isWord
  | succ count ih =>
    rw [Function.iterate_succ_apply']
    exact ih.advance small recurs

end Words

theorem x1Sequence_of_lt {n : Nat} (below : n < 31) : x1Sequence n = (n == 0) := by
  rw [x1Sequence, if_pos below]

theorem x1Sequence_add (n : Nat) :
    x1Sequence (n + 31) = parity [0, 3] fun tap => x1Sequence (n + tap) := by
  rw [x1Sequence, if_neg (by omega)]
  simp only [parity, List.foldr_cons, List.foldr_nil, Bool.xor_false]
  exact Bool.xor_comm ..

theorem x2Sequence_of_lt (cInit : BitVec 31) {n : Nat} (below : n < 31) :
    x2Sequence cInit n = cInit.getLsbD n := by
  rw [x2Sequence, if_pos below]

theorem x2Sequence_add (cInit : BitVec 31) (n : Nat) :
    x2Sequence cInit (n + 31) = parity [0, 1, 2, 3] fun tap => x2Sequence cInit (n + tap) := by
  rw [x2Sequence, if_neg (by omega)]
  simp only [parity, List.foldr_cons, List.foldr_nil, Bool.false_xor, Nat.reduceSubDiff,
    Nat.add_zero, Bool.xor_comm]

theorem isWord_x1 : IsWord x1Sequence 0 0x80000001 := by
  intro bit below
  rw [Nat.mul_zero, Nat.zero_add]
  by_cases last : bit = 31
  · rw [last, x1Sequence_add 0]
    simp [parity, x1Sequence_of_lt]
  · rw [x1Sequence_of_lt (by omega)]
    revert bit
    decide

theorem isWord_x2 (cInit : BitVec 31) :
    let x2 := cInit.setWidth 32
    IsWord (x2Sequence cInit) 0
      (x2 ^^^ ((x2 ^^^ (x2 >>> 1) ^^^ (x2 >>> 2) ^^^ (x2 >>> 3)) <<< 31)) := by
  intro x2 bit below
  rw [Nat.mul_zero, Nat.zero_add]
  by_cases last : bit = 31
  · rw [last, x2Sequence_add cInit 0]
    simp [parity, x2Sequence_of_lt, x2]
  · rw [x2Sequence_of_lt cInit (by omega)]
    simp [x2, below, show bit < 31 by omega]

/-- Bit `bit` of the value that call `call` returns, counted from 0, is the bit of the
sequence at 32 * call + bit, 1600 places behind the start of the registers. -/
theorem lteGoldGeneric_sequence (x1 : BitVec 32) (cInit : BitVec 31) (call : Nat) (bit : Fin 32) :
    (goldCalls x1 cInit call).2.2.getLsbD bit =
      (x1Sequence (32 * call + bit + 1600) ^^ x2Sequence cInit (32 * call + bit + 1600)) := by
  have words : IsWord x1Sequence (call + 50) (goldCalls x1 cInit call).1 ∧
      IsWord (x2Sequence cInit) (call + 50) (goldCalls x1 cInit call).2.1 ∧
      (goldCalls x1 cInit call).2.2 =
        (goldCalls x1 cInit call).1 ^^^ (goldCalls x1 cInit call).2.1 := by
    induction call with
    | zero =>
      exact ⟨(isWord_x1.iterate (by decide) x1Sequence_add 49).advance (by decide) x1Sequence_add,
        ((isWord_x2 cInit).iterate (by decide) (x2Sequence_add cInit) 49).advance (by decide)
          (x2Sequence_add cInit), rfl⟩
    | succ call ih =>
      rw [Nat.add_right_comm]
      exact ⟨ih.1.advance (by decide) x1Sequence_add,
        ih.2.1.advance (by decide) (x2Sequence_add cInit), rfl⟩
  obtain ⟨first, second, sum⟩ := words
  rw [sum, BitVec.getLsbD_xor, first _ bit.isLt, second _ bit.isLt,
    show 32 * (call + 50) + (bit : Nat) = 32 * call + bit + 1600 by omega]

end OpenAir.Phy
