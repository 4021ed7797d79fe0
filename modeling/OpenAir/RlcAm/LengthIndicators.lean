import OpenAir.Base.Memory
import OpenAir.RlcAm.Pdu

/-! The length indicators of a PDU in its memory block. Two indicators of twelve
bits, extension bit included, share three octets; a field is named by the
position of its group and by whether it is the second one there. -/

set_option autoImplicit false

namespace OpenAir.RlcAm

open OpenAir.Base Bool Nat

def liSpace (second : Bool) (count : Nat) : Nat :=
  if second then count * 3 / 2 else (count * 3 + 1) / 2

theorem liSpace_first (count : Nat) : liSpace false (count + 1) = 2 + liSpace true count := by
  simp only [liSpace, if_true, false_eq_true, if_false]
  omega

theorem liSpace_second (count : Nat) : liSpace true (count + 1) = 1 + liSpace false count := by
  simp only [liSpace, if_true, false_eq_true, if_false]
  omega

def LiAt (memory : Nat → UInt8) (pos : Nat) (second : Bool) (li : Nat) (more : Prop) :
    Prop :=
  let b1 := (memory pos).toNat
  let b2 := (memory (pos + 1)).toNat
  let b3 := (memory (pos + 2)).toNat
  if second then (b2 <<< 8) &&& 0x0700 ||| b3 = li ∧ (b2 &&& 0x08 ≠ 0 ↔ more)
  else (b1 <<< 4) &&& 0x07F0 ||| (b2 >>> 4) &&& 0x000F = li ∧ (b1 &&& 0x80 ≠ 0 ↔ more)

def LisAt (memory : Nat → UInt8) : Nat → Bool → List Nat → Prop
  | _, _, [] => True
  | pos, false, li :: rest =>
    LiAt memory pos false li (rest ≠ []) ∧ LisAt memory pos true rest
  | pos, true, li :: rest =>
    LiAt memory pos true li (rest ≠ []) ∧ LisAt memory (pos + 3) false rest

theorem LisAt.congr {memory other : Nat → UInt8} {lis : List Nat} :
    ∀ {pos : Nat} {second : Bool}, LisAt memory pos second lis →
      (∀ place, pos ≤ place → other place = memory place) →
      LisAt other pos second lis := by
  induction lis with
  | nil =>
    intro _ _ _ _
    trivial
  | cons li rest ih =>
    intro pos second fields same
    cases second with
    | false =>
      refine ⟨?_, ih fields.2 same⟩
      have field := fields.1
      simpa only [LiAt, false_eq_true, if_false, same pos (le_refl _),
        same (pos + 1) (le_add_right _ _)] using field
    | true =>
      refine ⟨?_, ih fields.2 fun place above => same place (by omega)⟩
      have field := fields.1
      simpa only [LiAt, if_true, same (pos + 1) (le_add_right _ _),
        same (pos + 2) (le_add_right _ _)] using field

def lisEnd (pos : Nat) (second : Bool) (count : Nat) : Nat :=
  (if second then pos + 2 else pos) + liSpace second count

theorem lisEnd_first (pos count : Nat) :
    lisEnd pos false (count + 1) = lisEnd pos true count := by
  simp only [lisEnd, liSpace_first, if_true, false_eq_true, if_false]
  omega

theorem lisEnd_second (pos count : Nat) :
    lisEnd pos true (count + 1) = lisEnd (pos + 3) false count := by
  simp only [lisEnd, liSpace_second, if_true, false_eq_true, if_false]
  omega

theorem le_lisEnd (pos : Nat) (second : Bool) (count : Nat) :
    (if second then pos + 2 else pos) ≤ lisEnd pos second count :=
  le_add_right _ _

theorem octetAt_load (memory : Nat → UInt8) {size pos : Nat} (within : pos < size) :
    octetAt (load memory 0 size) pos = (memory pos).toNat := by
  simp only [octetAt, getD_load memory 0 0 within, zero_add]

theorem readLis_load {memory : Nat → UInt8} {size : Nat} (lis : List Nat) :
    ∀ (allowed pos : Nat) (second : Bool), lis ≠ [] → lis.length ≤ allowed →
      LisAt memory pos second lis → lisEnd pos second lis.length ≤ size →
      readLis (load memory 0 size) allowed pos second =
        some (lis, liSpace second lis.length) := by
  induction lis with
  | nil =>
    intro _ _ _ nonempty
    exact absurd rfl nonempty
  | cons li rest ih =>
    intro allowed pos second _ enough fields fits
    obtain ⟨allowed, rfl⟩ : ∃ fewer, allowed = fewer + 1 :=
      ⟨allowed - 1, by simp only [List.length_cons] at enough; omega⟩
    simp only [List.length_cons, Nat.add_le_add_iff_right] at enough fits ⊢
    cases second with
    | false =>
      obtain ⟨⟨value, more⟩, fields⟩ := fields
      rw [lisEnd_first] at fits
      have bound := le_lisEnd pos true rest.length
      simp only [if_true] at bound
      rw [readLis, octetAt_load memory (by omega), octetAt_load memory (by omega)]
      simp only [value, more]
      cases rest with
      | nil => simp [liSpace]
      | cons second rest =>
        simp [ih allowed pos true (by simp) enough fields fits, liSpace_first]
        omega
    | true =>
      obtain ⟨⟨value, more⟩, fields⟩ := fields
      rw [lisEnd_second] at fits
      have bound := le_lisEnd (pos + 3) false rest.length
      simp only [false_eq_true, if_false] at bound
      rw [readLis, octetAt_load memory (by omega), octetAt_load memory (by omega)]
      simp only [value, more]
      cases rest with
      | nil => simp [liSpace]
      | cons second rest =>
        simp [ih allowed (pos + 3) false (by simp) enough fields fits, liSpace_second]
        omega

section Codec

private theorem first_octet : ∀ top < 128, ∀ more : Bool,
    ((UInt8.ofNat ((if more then 0x80 else 0) ||| top)).toNat <<< 4) &&& 0x07F0 = top <<< 4 ∧
      ((UInt8.ofNat ((if more then 0x80 else 0) ||| top)).toNat &&& 0x80 ≠ 0 ↔ more) := by
  decide +kernel

private theorem second_octet : ∀ high < 16, ∀ top < 8, ∀ more : Bool,
    (UInt8.ofNat (high * 16 ||| (if more then 0x08 else 0) ||| top)).toNat >>> 4 = high ∧
      ((UInt8.ofNat (high * 16 ||| (if more then 0x08 else 0) ||| top)).toNat &&& 0x08 ≠ 0 ↔ more) ∧
      ((UInt8.ofNat (high * 16 ||| (if more then 0x08 else 0) ||| top)).toNat <<< 8) &&& 0x0700 =
        top <<< 8 := by
  decide +kernel

private theorem low_nibble (octet : Nat) : octet &&& 0x0F = octet % 16 :=
  and_two_pow_sub_one_eq_mod octet 4

theorem first_low_nibble (li : Nat) : (UInt8.ofNat (li <<< 4)).toNat &&& 0x0F = 0 := by
  rw [low_nibble, UInt8.toNat_ofNat']
  omega

private theorem first_join (li : Nat) :
    (li >>> 4) <<< 4 ||| ((UInt8.ofNat (li <<< 4)).toNat >>> 4) &&& 0x000F = li := by
  have nibble : ((UInt8.ofNat (li <<< 4)).toNat >>> 4) &&& 0x000F = li % 16 := by
    rw [low_nibble, UInt8.toNat_ofNat']
    omega
  rw [nibble, ← shiftLeft_add_eq_or_of_lt (by omega : li % 16 < 2 ^ 4), shiftLeft_eq,
    shiftRight_eq_div_pow]
  omega

private theorem second_join (li : Nat) : (li >>> 8) <<< 8 ||| (UInt8.ofNat li).toNat = li := by
  rw [UInt8.toNat_ofNat', ← shiftLeft_add_eq_or_of_lt (mod_lt _ (by decide)),
    shiftLeft_eq, shiftRight_eq_div_pow]
  omega

variable {memory : Nat → UInt8} {pos li : Nat}

theorem liAt_first {more : Bool} {prop : Prop} (small : li < 2048) (same : more = true ↔ prop)
    (b1 : memory pos = UInt8.ofNat ((if more then 0x80 else 0) ||| li >>> 4))
    (b2 : (memory (pos + 1)).toNat >>> 4 = (UInt8.ofNat (li <<< 4)).toNat >>> 4) :
    LiAt memory pos false li prop := by
  have top : li >>> 4 < 128 := by
    omega
  obtain ⟨value, flag⟩ := first_octet (li >>> 4) top more
  simp only [LiAt, false_eq_true, if_false, b1, b2]
  exact ⟨by rw [value, first_join], flag.trans same⟩

theorem liAt_second {octet : UInt8} {more : Bool} {prop : Prop} (small : li < 2048)
    (same : more = true ↔ prop) (clear : octet.toNat &&& 0x0F = 0)
    (b2 : memory (pos + 1) =
      UInt8.ofNat (octet.toNat ||| (if more then 0x08 else 0) ||| li >>> 8))
    (b3 : memory (pos + 2) = UInt8.ofNat li) :
    LiAt memory pos true li prop ∧
      (memory (pos + 1)).toNat >>> 4 = octet.toNat >>> 4 := by
  have octet_lt := octet.toNat_lt
  have high : octet.toNat >>> 4 < 16 := by
    omega
  have octet_eq : octet.toNat = octet.toNat >>> 4 * 16 := by
    rw [low_nibble] at clear
    omega
  have top : li >>> 8 < 8 := by
    omega
  obtain ⟨kept, flag, value⟩ := second_octet (octet.toNat >>> 4) high (li >>> 8) top more
  rw [← octet_eq] at kept flag value
  simp only [LiAt, if_true, b2, b3]
  exact ⟨⟨by rw [value, second_join], flag.trans same⟩, kept⟩

end Codec

end OpenAir.RlcAm
