import OpenAir.Mac.HeaderParser
import Mathlib.Data.UInt

/-! The subheaders of a MAC PDU as the format has them: two reserved bits, an
LCID, and a length field in one of two sizes or none. Every first octet is that
of a subheader. -/

set_option autoImplicit false

namespace OpenAir.Mac

inductive LengthField where
  | none
  | short (length : Fin 128)
  | long (length : Fin 32768)
  deriving DecidableEq, Repr

namespace LengthField

def octets : LengthField → List UInt8
  | .none => []
  | .short length => [UInt8.ofNat length]
  | .long length => [UInt8.ofNat (128 + length / 256), UInt8.ofNat (length % 256)]

def value : LengthField → Nat
  | .none => 0
  | .short length => length
  | .long length => length

def ofLength (length : Nat) : LengthField :=
  if length < 128 then .short ⟨length % 128, Nat.mod_lt _ (by decide)⟩
  else .long ⟨length % 32768, Nat.mod_lt _ (by decide)⟩

theorem ofLength_ne_none (length : Nat) : ofLength length ≠ .none := by
  unfold ofLength
  split <;> exact nofun

theorem value_ofLength {length : Nat} (small : length < 32768) :
    (ofLength length).value = length := by
  unfold ofLength
  split
  next short => exact Nat.mod_eq_of_lt short
  next => exact Nat.mod_eq_of_lt small

end LengthField

structure Subheader where
  reserved : Fin 4
  lcid : Lcid
  lengthField : LengthField
  deriving DecidableEq, Repr

namespace Subheader

def fixed (lcid : Lcid) : Subheader := ⟨0, lcid, .none⟩

def sdu (sdu : Lcid × Nat) : Subheader := ⟨0, sdu.1, .ofLength sdu.2⟩

def size (subheader : Subheader) : Nat := subheader.lengthField.octets.length + 1

def openOctet (subheader : Subheader) : UInt8 :=
  UInt8.ofNat (subheader.reserved * 64 + 32 + subheader.lcid)

def lastOctet (subheader : Subheader) : UInt8 :=
  UInt8.ofNat (subheader.reserved * 64 + subheader.lcid)

def octets (subheader : Subheader) : List UInt8 :=
  subheader.openOctet :: subheader.lengthField.octets

@[simp] theorem length_octets (subheader : Subheader) :
    subheader.octets.length = subheader.size := rfl

theorem size_sdu (lcid : Lcid) (length : Nat) :
    (sdu (lcid, length)).size = if length < 128 then 2 else 3 := by
  simp only [size, sdu, LengthField.ofLength]
  split <;> rfl

variable (subheader : Subheader)

theorem toNat_openOctet :
    subheader.openOctet.toNat = subheader.reserved * 64 + 32 + subheader.lcid := by
  rw [openOctet, UInt8.toNat_ofNat']
  omega

theorem toNat_lastOctet : subheader.lastOctet.toNat = subheader.reserved * 64 + subheader.lcid := by
  rw [lastOctet, UInt8.toNat_ofNat']
  omega

@[simp] theorem lcidOf_openOctet : lcidOf subheader.openOctet = subheader.lcid := by
  refine Fin.ext ?_
  show subheader.openOctet.toNat % 32 = subheader.lcid.val
  rw [toNat_openOctet]
  omega

@[simp] theorem lcidOf_lastOctet : lcidOf subheader.lastOctet = subheader.lcid := by
  refine Fin.ext ?_
  show subheader.lastOctet.toNat % 32 = subheader.lcid.val
  rw [toNat_lastOctet]
  omega

@[simp] theorem hasExtension_openOctet : hasExtension subheader.openOctet := by
  simp only [hasExtension, toNat_openOctet, decide_eq_true_eq]
  omega

@[simp] theorem hasExtension_lastOctet : hasExtension subheader.lastOctet = false := by
  simp only [hasExtension, toNat_lastOctet, decide_eq_false_iff_not]
  omega

theorem exists_octet (octet : UInt8) (lengthField : LengthField) :
    ∃ subheader : Subheader, subheader.lcid = lcidOf octet ∧
      subheader.lengthField = lengthField ∧
      octet = if hasExtension octet then subheader.openOctet else subheader.lastOctet := by
  have range : octet.toNat < 256 := octet.toNat_lt
  refine ⟨⟨⟨octet.toNat / 64, by omega⟩, lcidOf octet, lengthField⟩, rfl, rfl, ?_⟩
  apply UInt8.toNat.inj
  split
  next extension =>
    rw [toNat_openOctet]
    simp only [hasExtension, decide_eq_true_eq] at extension
    simp only [lcidOf]
    omega
  next last =>
    rw [toNat_lastOctet]
    simp only [hasExtension, decide_eq_true_eq] at last
    simp only [lcidOf]
    omega

end Subheader

def chain (subheaders : List Subheader) : List UInt8 := subheaders.flatMap Subheader.octets

@[simp] theorem chain_nil : chain [] = [] := rfl

@[simp] theorem chain_cons (subheader : Subheader) (subheaders : List Subheader) :
    chain (subheader :: subheaders) = subheader.octets ++ chain subheaders := rfl

@[simp] theorem chain_append (first second : List Subheader) :
    chain (first ++ second) = chain first ++ chain second := by
  simp [chain]

/-- The octets of a header: the last subheader is cut to its first octet, and
the control elements follow. -/
def headerOctets (finished : List Subheader) (last : Subheader) (elements : List UInt8) :
    List UInt8 :=
  chain finished ++ last.lastOctet :: elements

end OpenAir.Mac
