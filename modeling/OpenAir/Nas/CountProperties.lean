import Mathlib.Algebra.Order.Ring.Int
import OpenAir.Nas.SendingProperties

/-! The NAS COUNT of uplink messages. The counters of the context number the
protected messages, but of this number the algorithms are told only whether it
is zero. -/

set_option autoImplicit false

namespace OpenAir.Nas

open OpenAir.Base List SecurityContext

def sendAll (algorithms : Algorithms) :
    SecurityContext → List SendInput → Option (List (SecurityContext × Sent))
  | _, [] => some []
  | ctx, input :: rest =>
    (input.send algorithms .ue ctx).bind fun sent =>
      sent.context.bind fun next =>
        (sendAll algorithms next rest).map fun later => (ctx, sent) :: later

def SecurityContext.PassesCount (ctx : SecurityContext) (type : Fin 16) : Prop :=
  (ctx.integrity = .eia1 ∨ ctx.integrity = .eia2) ∨
    isCiphered type ∧ (ctx.encryption = .eea1 ∨ ctx.encryption = .eea2)

def Count.ofNat (number : Nat) : Count := ⟨UInt16.ofNat (number / 256), UInt8.ofNat number⟩

section Counter

namespace Count

theorem increment_ofNat (number : Nat) :
    (ofNat number).increment = .ofNat (number + 1) := by
  have next : UInt8.ofNat number + 1 = UInt8.ofNat (number + 1) := by
    have one : UInt8.ofNat 1 = 1 := rfl
    rw [UInt8.ofNat_add, one]
  have wrapped : UInt8.ofNat (number + 1) = 0 ↔ (number + 1) % 256 = 0 := by
    rw [← UInt8.toNat_inj]
    simp
  simp only [increment, ofNat, next, wrapped, mk.injEq, and_true]
  split
  next carries =>
    have quotient : (number + 1) / 256 = number / 256 + 1 := by omega
    have one : UInt16.ofNat 1 = 1 := rfl
    rw [quotient, UInt16.ofNat_add, one]
  next stays =>
    have quotient : (number + 1) / 256 = number / 256 := by omega
    rw [quotient]

theorem value_ofNat {number : Nat} (small : number < 2 ^ 24) :
    (ofNat number).value = number := by
  simp only [value, ofNat, UInt16.toNat_ofNat', UInt8.toNat_ofNat']
  omega

theorem streamCount_ofNat {number : Nat} (small : number < 2 ^ 24) :
    (ofNat number).streamCount = if number = 0 then 0 else 1 := by
  have same : ofNat number = .zero ↔ number = 0 := by
    constructor
    · intro zero
      have value := value_ofNat small
      rw [zero] at value
      exact value.symm
    · rintro rfl
      rfl
  simp only [streamCount_eq, same]

end Count

end Counter

section Sending

variable {algorithms : Algorithms}

theorem messageEncrypt_streams (ctx : SecurityContext) {type : Fin 16}
    (known : isUnciphered type ∨ isCiphered type) (direction : Direction)
    (stale message : List UInt8) :
    (messageEncrypt algorithms (some ctx) type direction stale message).2 =
      if isCiphered type ∧ (ctx.encryption = .eea1 ∨ ctx.encryption = .eea2)
      then [ctx.cipherStream direction message] else [] := by
  simp only [messageEncrypt]
  split
  next unciphered =>
    have plain : ¬ isCiphered type := by
      intro ciphered
      simp only [isUnciphered, isCiphered, decide_eq_true_eq] at unciphered ciphered
      rcases ciphered with rfl | rfl
      · revert unciphered; decide
      · revert unciphered; decide
    rw [if_neg fun both => plain both.1]
  next ciphered =>
    have ciphers := known.resolve_left ciphered
    rw [if_pos ciphers]
    cases ctx.encryption with
    | eea0 => simp
    | eea1 => simp [ciphers]
    | eea2 => simp [ciphers]
    | unknown => simp

theorem getMac_streams (ctx : SecurityContext) (direction : Direction) (buffer : List UInt8) :
    (getMac algorithms (some ctx) direction buffer).2 =
      if ctx.integrity = .eia1 ∨ ctx.integrity = .eia2
      then [ctx.macStream direction buffer] else [] := by
  simp only [getMac]
  cases ctx.integrity with
  | eia0 => rfl
  | eia1 => rfl
  | eia2 => rfl
  | unknown => rfl

/-- The streams of a message protected in the context: all have its count, and
there are some if an algorithm is told it. -/
structure StreamsOf (ctx : SecurityContext) (type : Fin 16) (streams : List StreamCipher) :
    Prop where
  count : ∀ stream ∈ streams, stream.count = ctx.ulCount.streamCount
  passes : streams ≠ [] ↔ ctx.PassesCount type

theorem streamsOf_append (ctx : SecurityContext) {type : Fin 16}
    (known : isUnciphered type ∨ isCiphered type) (stale message buffer : List UInt8) :
    StreamsOf ctx type
      ((messageEncrypt algorithms (some ctx) type .uplink stale message).2 ++
        (getMac algorithms (some ctx) .uplink buffer).2) := by
  rw [messageEncrypt_streams ctx known, getMac_streams]
  constructor
  · intro stream mem
    rcases mem_append.mp mem with ciphering | coding
    · split at ciphering
      · rw [mem_singleton.mp ciphering, cipherStream_count, count_uplink]
      · cases ciphering
    · split at coding
      · rw [mem_singleton.mp coding, macStream_count, count_uplink]
      · cases coding
  · rw [PassesCount]
    split
    next ciphers => simp [ciphers]
    next silent =>
      split
      next codes => simp [codes]
      next uncoded => simp [uncoded, silent]

variable (algorithms) in
theorem sendAll_protects {ctx : SecurityContext} {inputs : List SendInput}
    (secured : ∀ input ∈ inputs, input.Protects) {number : Nat}
    (counted : ctx.ulCount = .ofNat number) :
    ∃ transcript, sendAll algorithms ctx inputs = some transcript ∧
      transcript.length = inputs.length ∧
      ∀ (k : Nat) (input : SendInput) (entry : SecurityContext × Sent),
        inputs[k]? = some input → transcript[k]? = some entry →
        entry.1.ulCount = .ofNat (number + k) ∧
        (∀ stream ∈ entry.2.streams, stream.count = entry.1.ulCount.streamCount) ∧
        (entry.2.streams ≠ [] ↔ ctx.PassesCount input.header.securityHeaderType) := by
  induction inputs generalizing ctx number with
  | nil => exact ⟨[], rfl, rfl, fun k input entry found => by simp at found⟩
  | cons input rest ih =>
    have securedNow := secured input (mem_cons_self ..)
    obtain ⟨sent, stale, message, bytes, sending, -, following, -, streamed⟩ :=
      send_protects algorithms securedNow .ue ctx
    have streams : StreamsOf ctx input.header.securityHeaderType sent.streams := by
      rw [streamed]
      exact streamsOf_append ctx securedNow.2.1 ..
    have next : (ctx.increment .uplink).ulCount = .ofNat (number + 1) := by
      rw [← Count.increment_ofNat, ← counted]
      rfl
    obtain ⟨later, sendingLater, sized, numbered⟩ :=
      ih (fun other mem => secured other (mem_cons_of_mem _ mem)) next
    refine ⟨(ctx, sent) :: later, ?_, by simp [sized], ?_⟩
    · simp [sendAll, sending, following, Side.sending, sendingLater]
    · intro k input' entry inputAt entryAt
      cases k with
      | zero =>
        obtain rfl : input = input' := by simpa using inputAt
        obtain rfl : (ctx, sent) = entry := by simpa using entryAt
        exact ⟨counted, streams.count, streams.passes⟩
      | succ k =>
        obtain ⟨count, same, passes⟩ :=
          numbered k input' entry (by simpa using inputAt) (by simpa using entryAt)
        exact ⟨by rw [count, Nat.add_assoc, Nat.add_comm 1], same, passes⟩

end Sending

/-- The `k`-th message is protected with the count `k`, the value of the
counters before it, and no two messages with the same count. -/
def CountsMessages (transcript : List (SecurityContext × Sent)) : Prop :=
  (∀ (k : Nat) (entry : SecurityContext × Sent), transcript[k]? = some entry →
    entry.1.ulCount.value = k ∧ ∀ stream ∈ entry.2.streams, stream.count = k) ∧
  ∀ (j k : Nat) (first second : SecurityContext × Sent), j ≠ k →
    transcript[j]? = some first → transcript[k]? = some second →
    ∀ left ∈ first.2.streams, ∀ right ∈ second.2.streams, left.count ≠ right.count

theorem uplink_messages_counted_iff (algorithms : Algorithms) {ctx : SecurityContext}
    {inputs : List SendInput} (fresh : ctx.ulCount = .zero)
    (secured : ∀ input ∈ inputs, input.Protects) (few : inputs.length < 2 ^ 24) :
    ∃ transcript, sendAll algorithms ctx inputs = some transcript ∧
      transcript.length = inputs.length ∧
      (CountsMessages transcript ↔
        ∀ (k : Nat) (input : SendInput), 2 ≤ k → inputs[k]? = some input →
          ¬ ctx.PassesCount input.header.securityHeaderType) := by
  have counted : ctx.ulCount = .ofNat 0 := fresh
  obtain ⟨transcript, sending, sized, numbered⟩ := sendAll_protects algorithms secured counted
  have streamCount : ∀ (k : Nat) (entry : SecurityContext × Sent), transcript[k]? = some entry →
      ∃ input, inputs[k]? = some input ∧ entry.1.ulCount.value = k ∧
        (∀ stream ∈ entry.2.streams, stream.count = if k = 0 then 0 else 1) ∧
        (entry.2.streams ≠ [] ↔ ctx.PassesCount input.header.securityHeaderType) := by
    intro k entry entryAt
    have within : k < inputs.length := by
      rw [← sized]
      exact (List.getElem?_eq_some_iff.mp entryAt).1
    obtain ⟨count, same, passes⟩ :=
      numbered k inputs[k] entry (getElem?_eq_getElem within) entryAt
    rw [Nat.zero_add] at count
    have small : k < 2 ^ 24 := Nat.lt_trans within few
    refine ⟨inputs[k], getElem?_eq_getElem within, ?_, ?_, passes⟩
    · rw [count, Count.value_ofNat small]
    · rw [count, Count.streamCount_ofNat small] at same
      exact same
  refine ⟨transcript, sending, sized, ?_, ?_⟩
  · intro counts k input late inputAt passes
    have within : k < transcript.length := by
      rw [sized]
      exact (List.getElem?_eq_some_iff.mp inputAt).1
    have entryAt := getElem?_eq_getElem within
    obtain ⟨other, otherAt, -, ones, passed⟩ := streamCount k _ entryAt
    obtain rfl : input = other := Option.some.inj (inputAt.symm.trans otherAt)
    obtain ⟨stream, mem⟩ := exists_mem_of_ne_nil _ (passed.mpr passes)
    have one := ones stream mem
    have number := (counts.1 k _ entryAt).2 stream mem
    rw [if_neg (by omega)] at one
    omega
  · intro silent
    have counts : ∀ (k : Nat) (entry : SecurityContext × Sent), transcript[k]? = some entry →
        entry.1.ulCount.value = k ∧ ∀ stream ∈ entry.2.streams, stream.count = k := by
      intro k entry entryAt
      obtain ⟨input, inputAt, value, ones, passed⟩ := streamCount k entry entryAt
      refine ⟨value, fun stream mem => ?_⟩
      have early : ¬ 2 ≤ k := fun late =>
        silent k input late inputAt (passed.mp (ne_nil_of_mem mem))
      rw [ones stream mem]
      split
      · omega
      · omega
    refine ⟨counts, ?_⟩
    intro j k first second distinct firstAt secondAt left leftIn right rightIn
    rw [(counts j first firstAt).2 left leftIn, (counts k second secondAt).2 right rightIn]
    exact distinct

def plainAlgorithms : Algorithms := .plain fun _ => 0

def freshContext : SecurityContext := ⟨[], [], .zero, .zero, .eea1, .eia2⟩

def shortMessage : SendInput := .encrypt (fun _ => 0) ⟨7, 2, 0, 0⟩ [0x07, 0x48] 8

theorem two_messages_counted :
    ∃ transcript, sendAll plainAlgorithms freshContext [shortMessage, shortMessage] =
        some transcript ∧
      transcript.length = 2 ∧
      (CountsMessages transcript ↔
        ∀ (k : Nat) (input : SendInput), 2 ≤ k →
          [shortMessage, shortMessage][k]? = some input →
          ¬ freshContext.PassesCount input.header.securityHeaderType) := by
  refine uplink_messages_counted_iff plainAlgorithms rfl ?_ (by decide)
  intro input mem
  obtain rfl : input = shortMessage := by simpa using mem
  exact ⟨rfl, .inr rfl, show 6 < 8 by decide⟩

/-- The third message is protected with the count of the second. -/
theorem third_message_not_counted :
    ∃ transcript, sendAll plainAlgorithms freshContext
        [shortMessage, shortMessage, shortMessage] = some transcript ∧
      transcript.map (fun entry => entry.2.streams.map (·.count)) =
        [[0, 0], [1, 1], [1, 1]] ∧
      ¬ CountsMessages transcript := by
  refine ⟨_, rfl, rfl, ?_⟩
  intro counts
  have third := (counts.1 2 _ rfl).2 _ (mem_cons_self ..)
  exact absurd third (by decide)

end OpenAir.Nas
