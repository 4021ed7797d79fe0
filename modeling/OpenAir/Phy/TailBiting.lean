import Mathlib.Data.Nat.Bitwise

/-! The tail-biting convolutional code, after `ccoding_byte_lte.c`. The state from
which a message is encoded is taken from the end of the message or from its CRC. -/

set_option autoImplicit false

namespace OpenAir.Phy

open List

def glte : List Nat := [0o133, 0o171, 0o165]

/-- An entry of `ccodelte_table`, as `ccodelte_init` fills it. -/
def ccodelteTable (entry : Nat) : Nat :=
  glte.zipIdx.foldl (fun out (generator, j) =>
    out ||| (((range 7).countP fun k => (entry &&& generator).testBit k) % 2) <<< j) 0

/-- `add_crc`, 0 to 2. -/
inductive AddCrc where
  | none
  | crc8
  | crc16
  deriving DecidableEq

/-- The functions `crc8` and `crc16` of the memory and the number of bits. -/
structure CrcFunctions where
  crc8 : (Int → UInt8) → Nat → BitVec 32
  crc16 : (Int → UInt8) → Nat → BitVec 32

def shiftIn (state : Nat) (bit : Bool) : Nat := state >>> 1 ||| if bit then 64 else 0

def octetBits (c : Nat) : List Bool := [7, 6, 5, 4, 3, 2, 1, 0].map c.testBit

/-- The bits of the last octet behind the first `first_bit` ones, the last one highest. -/
def lastOctetState (c firstBit : Nat) : Nat :=
  (range (8 - firstBit)).foldl (fun state shiftbit =>
    if c.testBit (7 - firstBit - shiftbit) then state ||| 1 <<< shiftbit else state) 0

/-- Encodes the bits. The three output bits of each are in the order of `glte`. -/
def encodeBits (state : Nat) : List Bool → Nat × List Nat
  | [] => (state, [])
  | bit :: bits =>
    let state := shiftIn state bit
    let out := ccodelteTable state
    let (final, rest) := encodeBits state bits
    (final, [out &&& 1, out >>> 1 &&& 1, out >>> 2 &&& 1] ++ rest)

section Encode

variable (crcs : CrcFunctions) (numbits : Nat) (addCrc : AddCrc) (inPtr : Int → UInt8)
  (rnti : BitVec 16)

/-- `crc`, with the RNTI on the CRC of a DCI. -/
def messageCrc : BitVec 32 :=
  match addCrc with
  | .none => 0
  | .crc8 => crcs.crc8 inPtr numbits
  | .crc16 => crcs.crc16 inPtr numbits ^^^ rnti.setWidth 32 <<< 16

/-- `state` in front of the loop. Without a CRC, `next_last_byte` has 16 bits, and the
octet in front of the message is read if there is no whole one in it. -/
def initialState : Nat :=
  let state :=
    match addCrc with
    | .none =>
      let nextLastByte := (numbits >>> 3) % 65536
      let state := lastOctetState (inPtr (nextLastByte - 1)).toNat ((numbits + 2) % 8)
      if 0 < numbits % 8 then
        ((range (numbits % 8)).reverse.map (inPtr nextLastByte).toNat.testBit).foldl shiftIn state
      else state
    | .crc8 => lastOctetState ((messageCrc crcs numbits addCrc inPtr rnti).toNat >>> 24 % 256) 2
    | .crc16 => lastOctetState ((messageCrc crcs numbits addCrc inPtr rnti).toNat >>> 16 % 256) 2
  (state &&& 0x3f) <<< 1

/-- The message, octet after octet, and the CRC behind it. -/
def encodedBits : List Bool :=
  let crc := (messageCrc crcs numbits addCrc inPtr rnti).toNat
  ((range ((numbits + 7) / 8)).flatMap fun octet : Nat => octetBits (inPtr octet).toNat).take
      numbits ++
    match addCrc with
    | .none => []
    | .crc8 => octetBits (crc >>> 24 % 256)
    | .crc16 => octetBits (crc >>> 24 % 256) ++ octetBits (crc >>> 16 % 256)

def ccodelteEncode : Nat × List Nat :=
  encodeBits (initialState crcs numbits addCrc inPtr rnti)
    (encodedBits crcs numbits addCrc inPtr rnti)

/-- The six bits that the encoder remembers are the same at the start and at the end. -/
def TailBiting : Prop :=
  (ccodelteEncode crcs numbits addCrc inPtr rnti).1 >>> 1 =
    initialState crcs numbits addCrc inPtr rnti >>> 1

end Encode

theorem encodeBits_fst (state : Nat) (bits : List Bool) :
    (encodeBits state bits).1 = bits.foldl shiftIn state := by
  induction bits generalizing state with
  | nil => rfl
  | cons bit bits ih => exact ih _

theorem shiftIn_eq {state : Nat} (small : state < 128) (bit : Bool) :
    shiftIn state bit = (state + 128 * bit.toNat) / 2 := by
  have half : state / 2 < 2 ^ 6 := by omega
  rw [shiftIn, Nat.shiftRight_one]
  cases bit with
  | false => simp
  | true =>
    rw [if_pos rfl, Nat.or_comm]
    refine (Nat.two_pow_add_eq_or_of_lt half 1).symm.trans ?_
    simp only [Bool.toNat_true]
    omega

def bitsValue (bits : List Bool) : Nat := bits.foldr (fun bit rest => bit.toNat + 2 * rest) 0

theorem foldl_shiftIn {state : Nat} (small : state < 128) (bits : List Bool) :
    bits.foldl shiftIn state = (state + 128 * bitsValue bits) / 2 ^ bits.length ∧
      bits.foldl shiftIn state < 128 := by
  induction bits generalizing state with
  | nil => exact ⟨by simp [bitsValue], small⟩
  | cons bit bits ih =>
    have first := shiftIn_eq small bit
    have := bit.toNat_le
    obtain ⟨value, below⟩ := @ih (shiftIn state bit) (by omega)
    refine ⟨?_, below⟩
    rw [foldl_cons, value, first, length_cons, pow_succ', ← Nat.div_div_eq_div_mul]
    have rest : bitsValue (bit :: bits) = bit.toNat + 2 * bitsValue bits := rfl
    congr 1
    omega

theorem bitsValue_lt (bits : List Bool) : bitsValue bits < 2 ^ bits.length := by
  induction bits with
  | nil => exact Nat.one_pos
  | cons bit bits ih =>
    have rest : bitsValue (bit :: bits) = bit.toNat + 2 * bitsValue bits := rfl
    have := bit.toNat_le
    rw [length_cons, Nat.pow_succ]
    omega

/-- Of the bits in front of the last six, nothing is remembered. -/
theorem foldl_shiftIn_six {state : Nat} (small : state < 128) (front : List Bool)
    {six : List Bool} (length : six.length = 6) :
    (front ++ six).foldl shiftIn state >>> 1 = bitsValue six := by
  have value := (foldl_shiftIn (foldl_shiftIn small front).2 six).1
  have before := (foldl_shiftIn small front).2
  rw [← foldl_append, length] at value
  omega

theorem lastOctetState_two (c : Nat) :
    lastOctetState c 2 = bitsValue ([5, 4, 3, 2, 1, 0].map c.testBit) := by
  have packed : ∀ b5 b4 b3 b2 b1 b0 : Bool,
      [b5, b4, b3, b2, b1, b0].zipIdx.foldl (fun state (bit, place) =>
          if bit then state ||| 1 <<< place else state) 0 =
        bitsValue [b5, b4, b3, b2, b1, b0] := by
    decide
  exact packed ..

variable {crcs : CrcFunctions} {numbits count taken : Nat} {addCrc : AddCrc} {inPtr : Int → UInt8}
  {rnti : BitVec 16}

theorem tailBiting_of_six {front six : List Bool} (length : six.length = 6)
    (bits : encodedBits crcs numbits addCrc inPtr rnti = front ++ six) {state : Nat}
    (start : initialState crcs numbits addCrc inPtr rnti = (state &&& 0x3f) <<< 1)
    (same : state &&& 0x3f = bitsValue six) : TailBiting crcs numbits addCrc inPtr rnti := by
  have below := bitsValue_lt six
  rw [length] at below
  rw [same] at start
  have small : initialState crcs numbits addCrc inPtr rnti < 128 := by
    omega
  rw [TailBiting, ccodelteEncode, encodeBits_fst, bits, foldl_shiftIn_six small front length, start,
    Nat.shiftLeft_shiftRight]

theorem mask_bitsValue {six : List Bool} (length : six.length = 6) :
    bitsValue six &&& 0x3f = bitsValue six :=
  (Nat.and_two_pow_sub_one_eq_mod _ 6).trans (Nat.mod_eq_of_lt (length ▸ bitsValue_lt six))

/-- The message ends with the first `taken` bits of octet `count`. -/
theorem encodedBits_none (some : 0 < taken) (few : taken ≤ 8) :
    encodedBits crcs (8 * count + taken) .none inPtr rnti =
      ((range count).flatMap fun octet : Nat => octetBits (inPtr octet).toNat) ++
        (octetBits (inPtr count).toNat).take taken := by
  have octets : (8 * count + taken + 7) / 8 = count + 1 := by omega
  have before : ((range count).flatMap fun octet : Nat =>
      octetBits (inPtr octet).toNat).length = 8 * count := by
    simp [octetBits, map_const', Nat.mul_comm]
  simp only [encodedBits, octets, append_nil, range_succ, flatMap_append, flatMap_singleton]
  rw [← before, take_length_add_append]

theorem tailBiting_of_octet (c : Nat) {front : List Bool}
    (bits : encodedBits crcs numbits addCrc inPtr rnti = front ++ octetBits c)
    (start : initialState crcs numbits addCrc inPtr rnti = (lastOctetState c 2 &&& 0x3f) <<< 1) :
    TailBiting crcs numbits addCrc inPtr rnti := by
  have split : octetBits c = [7, 6].map c.testBit ++ [5, 4, 3, 2, 1, 0].map c.testBit := rfl
  rw [split, ← append_assoc] at bits
  rw [lastOctetState_two] at start
  exact tailBiting_of_six rfl bits start (mask_bitsValue rfl)

theorem tailBiting_of_eight (short : 8 * count + 8 < 2 ^ 19) :
    TailBiting crcs (8 * count + 8) .none inPtr rnti := by
  have last : (8 * count + 8) >>> 3 % 65536 = count + 1 := by
    omega
  have first : (8 * count + 8 + 2) % 8 = 2 := by omega
  refine tailBiting_of_octet (inPtr count).toNat (encodedBits_none (by decide) (le_refl 8)) ?_
  simp [initialState, last, first]

private theorem lastOctetState_lt : ∀ octet < 256, lastOctetState octet 1 < 128 := by
  decide +kernel

/-- Of seven bits in the last octet, the octet is read one place too low, and the state
is taken one place too low too. -/
theorem tailBiting_of_seven (short : 8 * count + 7 < 2 ^ 19) :
    TailBiting crcs (8 * count + 7) .none inPtr rnti := by
  have last : (8 * count + 7) >>> 3 % 65536 = count := by
    omega
  have rest : (8 * count + 7) % 8 = 7 := by omega
  have first : (8 * count + 7 + 2) % 8 = 1 := by omega
  have start : initialState crcs (8 * count + 7) .none inPtr rnti =
      (([6, 5, 4, 3, 2, 1, 0].map (inPtr count).toNat.testBit).foldl shiftIn
        (lastOctetState (inPtr (count - 1)).toNat 1) &&& 0x3f) <<< 1 := by
    simp only [initialState, last, rest, first]
    rfl
  have bits := @encodedBits_none crcs count 7 inPtr rnti (by decide) (by decide)
  have split : (octetBits (inPtr count).toNat).take 7 =
      [(inPtr count).toNat.testBit 7] ++ [6, 5, 4, 3, 2, 1].map (inPtr count).toNat.testBit := rfl
  rw [split, ← append_assoc] at bits
  refine tailBiting_of_six rfl bits start ?_
  have six := foldl_shiftIn_six (lastOctetState_lt _ (inPtr (count - 1)).toNat_lt) []
    (rfl : ([6, 5, 4, 3, 2, 1].map (inPtr count).toNat.testBit).length = 6)
  rw [nil_append] at six
  have masked : (if (inPtr count).toNat.testBit 0 then 64 else 0) &&& 0x3f = 0 := by
    split <;> rfl
  have whole : [6, 5, 4, 3, 2, 1, 0].map (inPtr count).toNat.testBit =
      [6, 5, 4, 3, 2, 1].map (inPtr count).toNat.testBit ++ [(inPtr count).toNat.testBit 0] := rfl
  rw [whole, foldl_append, foldl_cons, foldl_nil, shiftIn, Nat.and_or_distrib_right, masked,
    Nat.or_zero, six, mask_bitsValue rfl]

/-! A message of which only the last bit is set. -/

def lastBitOnly (count taken : Nat) (octet : Int) : UInt8 :=
  if octet = count then UInt8.ofNat (2 ^ (8 - taken)) else 0

private theorem take_lastBitOnly : ∀ taken < 9, 0 < taken →
    (octetBits (UInt8.ofNat (2 ^ (8 - taken))).toNat).take taken =
      replicate (taken - 1) false ++ [true] := by
  decide

private theorem lastOctetState_zero : ∀ firstBit < 8, lastOctetState 0 firstBit = 0 := by
  decide

private theorem partialOctet_state : ∀ taken < 8,
    ((range taken).reverse.map (0 : UInt8).toNat.testBit).foldl shiftIn 0 = 0 ∧
      (taken < 7 → ((range taken).reverse.map (UInt8.ofNat (2 ^ (8 - taken))).toNat.testBit).foldl
        shiftIn 0 &&& 0x3f < 32) := by
  decide

theorem initialState_lastBitOnly (some : 0 < taken) (few : taken ≤ 8)
    (outside : taken < 7 ∨ 2 ^ 19 ≤ 8 * count + taken) :
    initialState crcs (8 * count + taken) .none (lastBitOnly count taken) rnti >>> 1 < 32 := by
  simp only [initialState, Nat.shiftLeft_shiftRight]
  have octet : (8 * count + taken) >>> 3 = if taken = 8 then count + 1 else count := by
    split <;> omega
  have before : lastBitOnly count taken (((8 * count + taken) >>> 3 % 65536 : Nat) - 1) = 0 := by
    rw [octet]
    exact if_neg (by split <;> omega)
  have blank := lastOctetState_zero ((8 * count + taken + 2) % 8) (Nat.mod_lt _ (by decide))
  rw [before, UInt8.toNat_zero, blank]
  split
  next inside =>
    have rest : (8 * count + taken) % 8 = taken := by omega
    rw [rest, octet, if_neg (by omega)]
    obtain ⟨zero, low⟩ := partialOctet_state taken (by omega)
    unfold lastBitOnly
    split
    · exact low (by omega)
    · rw [zero]
      decide
  · decide

theorem not_tailBiting_lastBitOnly (some : 0 < taken) (few : taken ≤ 8)
    (outside : taken < 7 ∨ 2 ^ 19 ≤ 8 * count + taken) :
    ¬ TailBiting crcs (8 * count + taken) .none (lastBitOnly count taken) rnti := by
  intro biting
  have start := @initialState_lastBitOnly crcs count taken rnti some few outside
  have octet : lastBitOnly count taken count = UInt8.ofNat (2 ^ (8 - taken)) := if_pos rfl
  rw [← biting, ccodelteEncode, encodeBits_fst, encodedBits_none some few, octet,
    take_lastBitOnly taken (by omega) some, ← append_assoc, foldl_append] at start
  have set : ∀ state, 64 ≤ shiftIn state true := fun state => Nat.right_le_or
  have final := set (foldl shiftIn (initialState crcs (8 * count + taken) .none
    (lastBitOnly count taken) rnti) (((range count).flatMap fun octet : Nat =>
      octetBits (lastBitOnly count taken octet).toNat) ++ replicate (taken - 1) false))
  rw [foldl_cons, foldl_nil] at start
  omega

/-- Every message with a CRC is encoded from the state in which the encoder ends. Without
one, the messages of a length are if and only if their last octet has seven or eight
bits and the number of octets fits. -/
theorem ccodelteEncode_tail_biting {numbits : Nat} (long : 6 ≤ numbits) (addCrc : AddCrc) :
    (∀ crcs inPtr rnti, TailBiting crcs numbits addCrc inPtr rnti) ↔
      (addCrc = .none → (numbits % 8 = 0 ∨ numbits % 8 = 7) ∧ numbits < 2 ^ 19) := by
  obtain ⟨count, taken, some, few, rfl⟩ :
      ∃ count taken, 0 < taken ∧ taken ≤ 8 ∧ numbits = 8 * count + taken :=
    ⟨(numbits - 1) / 8, (numbits - 1) % 8 + 1, by omega, by omega, by omega⟩
  constructor
  · rintro biting rfl
    by_contra outside
    exact not_tailBiting_lastBitOnly some few (by omega) (biting ⟨fun _ _ => 0, fun _ _ => 0⟩ _ 0)
  · intro whole crcs inPtr rnti
    cases addCrc with
    | crc8 => exact tailBiting_of_octet _ rfl rfl
    | crc16 => exact tailBiting_of_octet _ (append_assoc ..).symm rfl
    | none =>
      obtain ⟨ends, short⟩ := whole rfl
      obtain rfl | rfl : taken = 7 ∨ taken = 8 := by omega
      · exact tailBiting_of_seven short
      · exact tailBiting_of_eight short

def CrcFunctions.zero : CrcFunctions := ⟨fun _ _ => 0, fun _ _ => 0⟩

theorem tail_biting_of_fifteen_bits :
    TailBiting .zero 15 .none (fun _ => 0xa5) 0 :=
  (ccodelteEncode_tail_biting (by decide) .none).mpr (by decide) .zero (fun _ => 0xa5) 0

/-- Of a ninth bit the encoder starts with the wrong end of its octet, and without
that bit itself. -/
theorem not_tail_biting_of_nine_bits :
    ¬ TailBiting .zero 9 .none (fun octet => if octet = 1 then 0x80 else 0) 0 := by
  unfold TailBiting
  decide

end OpenAir.Phy
