import Mathlib.Algebra.Order.Ring.Int
import Mathlib.Data.List.Basic

/-! Acknowledged mode data PDUs and their decoding, after `rlc_am_structs.h`,
`rlc_am_constants.h` and `rlc_am_receiver.c`. Octets are read at their position
in the received block; a position past its end reads zero. -/

set_option autoImplicit false

namespace OpenAir.RlcAm

def rlcAmSnModulo : Nat := 1024
def rlcAmWindowSize : Nat := 512
def rlcAmMaxSduInPdu : Nat := 32

/-- Storing an integer in an `int16_t`. -/
def asInt16 (value : Int) : Int := value.bmod (2 ^ 16)

theorem asInt16_eq_self {value : Int} (low : -2 ^ 15 ≤ value) (high : value < 2 ^ 15) :
    asInt16 value = value := by
  unfold asInt16
  rw [Int.bmod_eq_of_le]
  · omega
  · omega

theorem asInt16_lt (value : Int) : asInt16 value < 2 ^ 15 := Int.bmod_lt (by decide)

theorem asInt16_sub (left right : Int) : asInt16 (asInt16 left - right) = asInt16 (left - right) :=
  Int.bmod_sub_bmod

theorem asInt16_natCast {value : Nat} (small : value < 32768) : asInt16 value = value :=
  asInt16_eq_self (by omega) (by omega)

/-- `rlc_am_pdu_info_t`. The count of length indicators is the length of
`liList`, and `payload` holds the octets behind the payload pointer. -/
structure PduInfo where
  dC : Bool
  rf : Bool
  p : Bool
  fi : Nat
  e : Bool
  sn : Nat
  lsf : Bool
  so : Nat
  liList : List Nat
  hiddenSize : Int
  payload : List UInt8
  payloadSize : Int
  headerSize : Nat
  deriving DecidableEq, Repr

/-- Offset of the last payload octet in the AMD PDU, as the comparisons of
`rlc_am_rx_list.c` compute it. -/
def PduInfo.lastSo (info : PduInfo) : Int := info.so + info.payloadSize - 1

def octetAt (octets : List UInt8) (pos : Nat) : Nat := (octets.getD pos 0).toNat

/-- The length indicators that start at octet `position`, and the number of
header octets they take. An indicator past the allowed number is an error. -/
def readLis (octets : List UInt8) : Nat → Nat → Bool → Option (List Nat × Nat)
  | 0, _, _ => none
  | allowed + 1, pos, false =>
    let b1 := octetAt octets pos
    let b2 := octetAt octets (pos + 1)
    let li := ((b1 <<< 4) &&& 0x07F0) ||| ((b2 >>> 4) &&& 0x000F)
    if b1 &&& 0x80 ≠ 0 then
      (readLis octets allowed pos true).map fun (lis, used) => (li :: lis, used + 2)
    else
      some ([li], 2)
  | allowed + 1, pos, true =>
    let b2 := octetAt octets (pos + 1)
    let b3 := octetAt octets (pos + 2)
    let li := ((b2 <<< 8) &&& 0x0700) ||| b3
    if b2 &&& 0x08 ≠ 0 then
      (readLis octets allowed (pos + 3) false).map fun (lis, used) => (li :: lis, used + 1)
    else
      some ([li], 1)

/-- `rlc_am_get_data_pdu_infos`; `none` stands for its negative results. -/
def getDataPduInfos (octets : List UInt8) : Option PduInfo :=
  let b1 := octetAt octets 0
  let b2 := octetAt octets 1
  if b1 >>> 7 = 0 then none
  else
    let rf := decide ((b1 >>> 6) &&& 0x01 = 1)
    let e := decide ((b1 >>> 2) &&& 0x01 = 1)
    let fixedSize := if rf then 4 else 2
    let lis := if e then readLis octets rlcAmMaxSduInPdu fixedSize false else some ([], 0)
    lis.map fun (liList, used) =>
      let headerSize := fixedSize + used
      let sumLi := asInt16 liList.sum
      let payloadSize := asInt16 (asInt16 octets.length - headerSize)
      { dC := true
        rf := rf
        p := decide ((b1 >>> 5) &&& 0x01 = 1)
        fi := (b1 >>> 3) &&& 0x03
        e := e
        sn := b2 + ((b1 &&& 0x03) <<< 8)
        lsf := rf && decide ((octetAt octets 2 >>> 7) &&& 0x01 = 1)
        so := if rf then octetAt octets 3 + ((octetAt octets 2 &&& 0x7F) <<< 8) else 0
        liList := liList
        hiddenSize := if payloadSize > sumLi then asInt16 (payloadSize - sumLi) else 0
        payload := octets.drop headerSize
        payloadSize := payloadSize
        headerSize := headerSize }

end OpenAir.RlcAm
