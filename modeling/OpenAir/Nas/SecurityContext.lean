/-! The NAS security context, after `emmData.h`, and what `nas_message.c` passes
to the ciphering and integrity algorithms. -/

set_option autoImplicit false

namespace OpenAir.Nas

/-- Which end the file is built for: `NAS_MME` is defined or not. -/
inductive Side where
  | ue
  | mme
  deriving DecidableEq, Repr

inductive Direction where
  | uplink
  | downlink
  deriving DecidableEq, Repr

/-- `struct count_s`. The spare bits are never used. -/
structure Count where
  overflow : UInt16
  seqNum : UInt8
  deriving DecidableEq, Repr

def Count.zero : Count := ⟨0, 0⟩

/-- `seq_num += 1; if (!seq_num) overflow += 1;` -/
def Count.increment (count : Count) : Count :=
  let seqNum := count.seqNum + 1
  ⟨if seqNum = 0 then count.overflow + 1 else count.overflow, seqNum⟩

def Count.receive (count : Count) (sequenceNumber : UInt8) : Count :=
  ⟨if count.seqNum > sequenceNumber then count.overflow + 1 else count.overflow, sequenceNumber⟩

def Count.value (count : Count) : Nat := count.overflow.toNat * 256 + count.seqNum.toNat

/-- The operator `||` on integers. -/
def logicalOr (left right : Nat) : Nat := if left ≠ 0 ∨ right ≠ 0 then 1 else 0

/-- The operator `&&` on integers. -/
def logicalAnd (left right : Nat) : Nat := if left ≠ 0 ∧ right ≠ 0 then 1 else 0

/-- The `count` of a `stream_cipher`. All branches compute it by
`0x00000000 || ((overflow && 0x0000FFFF) << 8) || (seq_num & 0x000000FF)`. -/
def Count.streamCount (count : Count) : Nat :=
  logicalOr (logicalOr 0x00000000 (logicalAnd count.overflow.toNat 0x0000FFFF <<< 8))
    (count.seqNum.toNat &&& 0x000000FF)

inductive EncryptionAlgorithm where
  | eea0
  | eea1
  | eea2
  | unknown
  deriving DecidableEq, Repr

inductive IntegrityAlgorithm where
  | eia0
  | eia1
  | eia2
  | unknown
  deriving DecidableEq, Repr

/-- The part of `emm_security_context_t` that protects messages. -/
structure SecurityContext where
  knasEnc : List UInt8
  knasInt : List UInt8
  dlCount : Count
  ulCount : Count
  encryption : EncryptionAlgorithm
  integrity : IntegrityAlgorithm
  deriving DecidableEq, Repr

/-- `nas_stream_cipher_t`. Its `blength` is the length of the message in bits. -/
structure StreamCipher where
  key : List UInt8
  count : Nat
  bearer : Nat
  direction : Direction
  message : List UInt8
  deriving DecidableEq, Repr

/-- The algorithms of `openair3/SECU`. The integrity code is the one read in
network byte order. -/
structure Algorithms where
  eea1 : StreamCipher → List UInt8
  eea2 : StreamCipher → List UInt8
  eia1 : StreamCipher → UInt32
  eia2 : StreamCipher → UInt32
  eea1_length : ∀ stream, (eea1 stream).length = stream.message.length
  eea2_length : ∀ stream, (eea2 stream).length = stream.message.length

def Algorithms.plain (eia : StreamCipher → UInt32) : Algorithms where
  eea1 := (·.message)
  eea2 := (·.message)
  eia1 := eia
  eia2 := eia
  eea1_length := fun _ => rfl
  eea2_length := fun _ => rfl

def Side.sending : Side → Direction
  | .ue => .uplink
  | .mme => .downlink

def Side.receiving : Side → Direction
  | .ue => .downlink
  | .mme => .uplink

def SecurityContext.count (ctx : SecurityContext) : Direction → Count
  | .uplink => ctx.ulCount
  | .downlink => ctx.dlCount

def SecurityContext.setCount (ctx : SecurityContext) (count : Count) :
    Direction → SecurityContext
  | .uplink => { ctx with ulCount := count }
  | .downlink => { ctx with dlCount := count }

def SecurityContext.cipherStream (ctx : SecurityContext) (direction : Direction)
    (message : List UInt8) : StreamCipher :=
  { key := ctx.knasEnc
    count := (ctx.count direction).streamCount
    bearer := 0
    direction := direction
    message := message }

def SecurityContext.macStream (ctx : SecurityContext) (direction : Direction)
    (message : List UInt8) : StreamCipher :=
  { key := ctx.knasInt
    count := (ctx.count direction).streamCount
    bearer := 0
    direction := direction
    message := message }

/-- `_nas_message_get_mac`: the code and the streams it is computed from. -/
def getMac (algorithms : Algorithms) (ctx : Option SecurityContext) (direction : Direction)
    (buffer : List UInt8) : UInt32 × List StreamCipher :=
  match ctx with
  | none => (0, [])
  | some ctx =>
    let stream := ctx.macStream direction buffer
    match ctx.integrity with
    | .eia1 => (algorithms.eia1 stream, [stream])
    | .eia2 => (algorithms.eia2 stream, [stream])
    | .eia0 => (0, [])
    | .unknown => (0, [])

section Count

namespace SecurityContext

variable (ctx : SecurityContext)

@[simp] theorem count_setCount (count : Count) (direction : Direction) :
    (ctx.setCount count direction).count direction = count := by
  cases direction with
  | uplink => rfl
  | downlink => rfl

@[simp] theorem count_uplink :
    ctx.count .uplink = ctx.ulCount := rfl

@[simp] theorem count_downlink :
    ctx.count .downlink = ctx.dlCount := rfl

@[simp] theorem cipherStream_count (direction : Direction) (message : List UInt8) :
    (ctx.cipherStream direction message).count = (ctx.count direction).streamCount := by
  simp only [cipherStream]

@[simp] theorem cipherStream_octets (direction : Direction) (message : List UInt8) :
    (ctx.cipherStream direction message).message = message := by
  simp only [cipherStream]

@[simp] theorem macStream_count (direction : Direction) (message : List UInt8) :
    (ctx.macStream direction message).count = (ctx.count direction).streamCount := by
  simp only [macStream]

theorem cipherStream_message (direction : Direction) (message other : List UInt8) :
    { ctx.cipherStream direction message with message := other } =
      ctx.cipherStream direction other := by
  simp only [cipherStream]

end SecurityContext

/-- The logical operators leave nothing of the count but whether it is zero. -/
theorem Count.streamCount_eq (count : Count) :
    count.streamCount = if count = .zero then 0 else 1 := by
  obtain ⟨overflow, seqNum⟩ := count
  have mask : seqNum.toNat &&& 0x000000FF = seqNum.toNat := by
    have bounded := seqNum.toNat_lt
    rw [show 0x000000FF = 2 ^ 8 - 1 from rfl, Nat.and_two_pow_sub_one_eq_mod]
    omega
  have high : logicalAnd overflow.toNat 0x0000FFFF <<< 8 ≠ 0 ↔ overflow ≠ 0 := by
    have same : overflow.toNat = 0 ↔ overflow = 0 := UInt16.toNat_inj (b := 0)
    by_cases none : overflow = 0
    · simp [logicalAnd, none]
    · simp [logicalAnd, none, same]
  have low : seqNum.toNat ≠ 0 ↔ seqNum ≠ 0 := by
    exact not_congr (UInt8.toNat_inj (b := 0))
  have zero : (⟨overflow, seqNum⟩ : Count) = .zero ↔ overflow = 0 ∧ seqNum = 0 := by
    simp [Count.zero]
  simp only [Count.streamCount, mask]
  by_cases noOverflow : overflow = 0
  · by_cases noSeq : seqNum = 0
    · subst noOverflow noSeq
      decide
    · rw [if_neg fun same => noSeq (zero.mp same).2, logicalOr, if_pos (Or.inr (low.mpr noSeq))]
  · have inner : logicalOr 0x00000000 (logicalAnd overflow.toNat 0x0000FFFF <<< 8) ≠ 0 := by
      rw [logicalOr, if_pos (Or.inr (high.mpr noOverflow))]
      exact Nat.one_ne_zero
    rw [if_neg fun same => noOverflow (zero.mp same).1, logicalOr, if_pos (Or.inl inner)]

end Count

end OpenAir.Nas
