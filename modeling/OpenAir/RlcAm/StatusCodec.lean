import OpenAir.Base.BitField
import OpenAir.Base.Memory
import OpenAir.RlcAm.Acknowledgement

/-! Writing and reading STATUS PDUs, after `rlc_am_status_report.c`. A pointer into
the PDU with a bit position is a cursor into a memory that begins at the PDU's
first octet. -/

set_option autoImplicit false

namespace OpenAir.RlcAm

open OpenAir.Base

/-- `byte_pos_p` and `bit_pos`; bit 0 is the most significant one. -/
structure BitCursor where
  byte : Nat
  bit : Nat
  inOctet : bit < 8
  deriving DecidableEq

def BitCursor.nextOctet (cursor : BitCursor) : BitCursor := ⟨cursor.byte + 1, 0, by decide⟩

/-- The loop of `rlc_am_read_bit_field`; the value is a `uint16_t`. -/
def readBits (memory : Memory) (value : Nat) (cursor : BitCursor) (bitsToRead : Nat) :
    Nat × BitCursor :=
  let octet := (memory cursor.byte).toNat &&& (0x00FF >>> cursor.bit)
  if inside : 8 - cursor.bit > bitsToRead then
    ((value <<< bitsToRead ||| octet >>> (8 - cursor.bit - bitsToRead)) % 2 ^ 16,
      ⟨cursor.byte, cursor.bit + bitsToRead, by omega⟩)
  else if 8 - cursor.bit = bitsToRead then
    ((value <<< bitsToRead ||| octet) % 2 ^ 16, cursor.nextOctet)
  else
    readBits memory ((value <<< (8 - cursor.bit) ||| octet) % 2 ^ 16) cursor.nextOctet
      (bitsToRead - (8 - cursor.bit))
termination_by bitsToRead
decreasing_by
  have := cursor.inOctet
  omega

def readBitField (memory : Memory) (cursor : BitCursor) (bitsToRead : Nat) : Nat × BitCursor :=
  readBits memory 0 cursor bitsToRead

/-- `**data_ppP = **data_ppP | value`. -/
def orOctet (memory : Memory) (byte value : Nat) : Memory :=
  Function.update memory byte (UInt8.ofNat ((memory byte).toNat ||| value))

def write8BitField (memory : Memory) (cursor : BitCursor) (bitsToWrite value : Nat) :
    Memory × BitCursor :=
  let availableBits := 8 - cursor.bit
  if inside : availableBits > bitsToWrite then
    (orOctet memory cursor.byte
        ((value &&& (0xFF >>> (availableBits - bitsToWrite))) <<< (availableBits - bitsToWrite)),
      ⟨cursor.byte, cursor.bit + bitsToWrite, by omega⟩)
  else if availableBits = bitsToWrite then
    (orOctet memory cursor.byte (value &&& (0xFF >>> (8 - bitsToWrite))), cursor.nextOctet)
  else
    write8BitField (orOctet memory cursor.byte (value >>> (bitsToWrite - availableBits)))
      cursor.nextOctet (bitsToWrite - availableBits) value
termination_by bitsToWrite
decreasing_by
  have := cursor.inOctet
  omega

/-- `rlc_am_write16_bit_field`, for at most 16 bits as it asserts. -/
def write16BitField (memory : Memory) (cursor : BitCursor) (bitsToWrite value : Nat) :
    Memory × BitCursor :=
  if bitsToWrite > 8 then
    let (memory, cursor) := write8BitField memory cursor (bitsToWrite - 8) ((value >>> 8) % 2 ^ 8)
    write8BitField memory cursor 8 (value &&& 0x00FF)
  else write8BitField memory cursor bitsToWrite (value &&& 0x00FF)

/-- `nack_sn_t`, with the widths of its bit fields. -/
structure StatusItem where
  nackSn : Fin 1024
  e1 : Bool
  e2 : Bool
  soStart : Fin 0x8000
  soEnd : Fin 0x8000
  deriving DecidableEq, Repr

/-- `rlc_am_control_pdu_info_t`. -/
structure StatusPdu where
  dC : Bool
  cpt : Fin 8
  ackSn : Fin 1024
  e1 : Bool
  nackList : List StatusItem
  deriving DecidableEq, Repr

def writeNackItem (memory : Memory) (cursor : BitCursor) (item : StatusItem) :
    Memory × BitCursor :=
  let (memory, cursor) := write16BitField memory cursor 10 item.nackSn
  let (memory, cursor) := write8BitField memory cursor 1 item.e1.toNat
  let (memory, cursor) := write8BitField memory cursor 1 item.e2.toNat
  if item.e2 then
    let (memory, cursor) := write16BitField memory cursor 15 item.soStart
    write16BitField memory cursor 15 item.soEnd
  else (memory, cursor)

def writeNackItems (memory : Memory) (cursor : BitCursor) : List StatusItem → Memory × BitCursor
  | [] => (memory, cursor)
  | item :: rest =>
    let (memory, cursor) := writeNackItem memory cursor item
    writeNackItems memory cursor rest

/-- `rlc_am_write_status_pdu`: the memory and the number of octets it reports. -/
def writeStatusPdu (memory : Memory) (pdu : StatusPdu) : Memory × Nat :=
  let (memory, cursor) := write16BitField memory ⟨0, 4, by decide⟩ 10 pdu.ackSn
  let (memory, cursor) := write8BitField memory cursor 1 (if pdu.nackList.length > 0 then 1 else 0)
  let (memory, cursor) := writeNackItems memory cursor pdu.nackList
  (memory, if cursor.bit > 0 then cursor.byte + 1 else cursor.byte)

def readNackItem (memory : Memory) (cursor : BitCursor) : StatusItem × BitCursor :=
  let (nackSn, cursor) := readBitField memory cursor 10
  let (e1, cursor) := readBitField memory cursor 1
  let (e2, cursor) := readBitField memory cursor 1
  if e2 ≠ 0 then
    let (soStart, cursor) := readBitField memory cursor 15
    let (soEnd, cursor) := readBitField memory cursor 15
    (⟨Fin.ofNat _ nackSn, e1 ≠ 0, true, Fin.ofNat _ soStart, Fin.ofNat _ soEnd⟩, cursor)
  else (⟨Fin.ofNat _ nackSn, e1 ≠ 0, false, 0, 0x7FFF⟩, cursor)

/-- The loop over the NACK items, with room for `left` more: the value returned,
the items and the end. -/
def readNackItems (memory : Memory) (cursor : BitCursor) :
    Nat → List StatusItem → Int × List StatusItem × BitCursor
  | 0, items => (-2, items, cursor)
  | left + 1, items =>
    let (item, cursor) := readNackItem memory cursor
    if item.e1 = false then (0, items ++ [item], cursor)
    else if left = 0 then (-2, items ++ [item], cursor)
    else readNackItems memory cursor left (items ++ [item])

/-- What `rlc_am_get_control_pdu_infos` returns and leaves in its arguments. -/
structure ControlPduRead where
  returned : Int
  totalSize : Int
  info : StatusPdu
  deriving DecidableEq, Repr

def getControlPduInfos (memory : Memory) (totalSize : Int) : ControlPduRead :=
  let b1 := (memory 0).toNat
  let b2 := (memory 1).toNat
  let dC := b1 >>> 7 ≠ 0
  let cpt : Fin 8 := Fin.ofNat _ ((b1 >>> 4) &&& 0x07)
  if dC then ⟨-1, totalSize, ⟨true, 0, 0, false, []⟩⟩
  else if cpt ≠ 0 then ⟨-3, totalSize, ⟨false, cpt, 0, false, []⟩⟩
  else
    let ackSn : Fin 1024 := Fin.ofNat _ ((b2 >>> 2) &&& 0x3F ||| (b1 &&& 0x0F) <<< 6)
    let e1 := (b2 >>> 1) &&& 0x01 ≠ 0
    if e1 then
      let (returned, items, cursor) :=
        readNackItems memory ⟨1, 7, by decide⟩ rlcAmMaxNackInStatusPdu []
      ⟨returned, totalSize - (cursor.byte + (cursor.bit + 7) / 8 : Nat),
        ⟨false, cpt, ackSn, true, items⟩⟩
    else ⟨0, totalSize - 2, ⟨false, cpt, ackSn, false, []⟩⟩

def StatusPdu.controlPduInfo (pdu : StatusPdu) : ControlPduInfo :=
  { ackSn := pdu.ackSn
    nackList := pdu.nackList.map fun item => ⟨item.nackSn, item.soStart, item.soEnd⟩ }

end OpenAir.RlcAm
