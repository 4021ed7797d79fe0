import Mathlib.Data.Nat.Bitwise

/-! The resource blocks of a type 0 allocation, after `dci_tools.c`. The 32-bit
words of `rb_alloc2` are a table. -/

set_option autoImplicit false

namespace OpenAir.Phy

open List

/-- `N_RBG`, as `init_frame_parms` sets it. -/
def nRbg : Nat → Nat
  | 6 => 6
  | 15 => 8
  | 25 => 13
  | 50 => 17
  | _ => 25

def orBits (words : Nat → Nat) (pos mask : Nat) : Nat → Nat :=
  Function.update words (pos / 32)
    (words (pos / 32) ||| (mask <<< (pos % 32)) % 2 ^ 32)

def convRbg (rbAlloc mask : Nat) (words : Nat → Nat) (bit pos : Nat) : Nat → Nat :=
  if rbAlloc.testBit bit then orBits words pos mask else words

/-- `conv_rballoc` for a type 0 allocation. -/
def convRballoc (nRbDl rbAlloc : Nat) : Nat → Nat :=
  if nRbDl = 6 then orBits (fun _ => 0) 0 (rbAlloc &&& 0x3f)
  else if nRbDl = 25 then
    let words := (range 12).foldl
      (fun words k => convRbg rbAlloc 3 words (12 - k) (2 * k)) fun _ => 0
    convRbg rbAlloc 1 words 0 24
  else if nRbDl = 50 then
    let words := (range 16).foldl
      (fun words k => convRbg rbAlloc 7 words (16 - k) (3 * k)) fun _ => 0
    -- the third block of the RBG that begins at block 30 is in the next word
    let carried := if words 0 >>> 31 = 1 then orBits words 32 1 else words
    convRbg rbAlloc 3 carried 0 48
  else if nRbDl = 100 then
    (range 25).foldl (fun words i => convRbg rbAlloc 0xf words (24 - i) (4 * i)) fun _ => 0
  else fun _ => 0

def RbMarked (words : Nat → Nat) (rb : Nat) : Prop := (words (rb / 32)).testBit (rb % 32)

instance {words : Nat → Nat} {rb : Nat} : Decidable (RbMarked words rb) :=
  inferInstanceAs (Decidable (_ = true))

def addPrbs (rbAlloc prbs nprb bit : Nat) : Nat := if rbAlloc.testBit bit then nprb + prbs else nprb

/-- `conv_nprb` for a type 0 allocation. -/
def convNprb (nRbDl rbAlloc : Nat) : Nat :=
  if nRbDl = 6 then (range 6).foldl (fun nprb i => addPrbs rbAlloc 1 nprb i) 0
  else if nRbDl = 25 then
    addPrbs rbAlloc 1 ((range 12).foldl (fun nprb k => addPrbs rbAlloc 2 nprb (12 - k)) 0) 0
  else if nRbDl = 50 then
    addPrbs rbAlloc 2 ((range 16).foldl (fun nprb i => addPrbs rbAlloc 3 nprb (16 - i)) 0) 0
  else if nRbDl = 100 then
    (range 25).foldl (fun nprb i => addPrbs rbAlloc 4 nprb (24 - i)) 0
  else 0

section Marks

variable {words : Nat → Nat} {pos width rb rbAlloc bit : Nat}

theorem rbMarked_orBits {mask : Nat} (marked : RbMarked (orBits words pos mask) rb) :
    RbMarked words rb ∨ pos ≤ rb ∧ mask.testBit (rb - pos) := by
  unfold RbMarked orBits at *
  by_cases word : rb / 32 = pos / 32
  · rw [word, Function.update_self, Nat.testBit_or, Nat.testBit_mod_two_pow, Nat.testBit_shiftLeft,
      Bool.or_eq_true, Bool.and_eq_true, Bool.and_eq_true, decide_eq_true_eq] at marked
    rcases marked with before | ⟨-, later, inMask⟩
    · exact .inl (word ▸ before)
    · have : pos % 32 ≤ rb % 32 := by simpa using later
      rw [show rb - pos = rb % 32 - pos % 32 by omega]
      exact .inr ⟨by omega, inMask⟩
  · rw [Function.update_of_ne word] at marked
    exact .inl marked

theorem rbMarked_convRbg
    (marked : RbMarked (convRbg rbAlloc (2 ^ width - 1) words bit pos) rb) :
    RbMarked words rb ∨
      rbAlloc.testBit bit ∧ pos ≤ rb ∧ rb < pos + width := by
  unfold convRbg at marked
  split at marked
  next tested =>
    refine (rbMarked_orBits marked).imp_right fun ⟨starts, inMask⟩ => ⟨tested, starts, ?_⟩
    rw [Nat.testBit_two_pow_sub_one, decide_eq_true_eq] at inMask
    omega
  next => exact .inl marked

theorem rbMarked_convRbgs {count : Nat} (marked : RbMarked ((range count).foldl
      (fun words k => convRbg rbAlloc (2 ^ width - 1) words (bit - k) (width * k)) fun _ => 0) rb) :
    rb / width < count ∧ rbAlloc.testBit (bit - rb / width) := by
  induction count with
  | zero => simp [RbMarked] at marked
  | succ count ih =>
    rw [range_succ, foldl_append] at marked
    rcases rbMarked_convRbg marked with old | ⟨tested, starts, ends⟩
    · exact (ih old).imp_left Nat.lt_succ_of_lt
    · rw [Nat.mul_comm] at starts ends
      rw [Nat.div_eq_of_lt_le starts (by rwa [Nat.succ_mul])]
      exact ⟨Nat.lt_succ_self count, tested⟩

end Marks

end OpenAir.Phy
