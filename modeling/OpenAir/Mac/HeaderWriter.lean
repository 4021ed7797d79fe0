import OpenAir.Base.Memory

/-! Writing the header of a MAC PDU for DL-SCH and UL-SCH, after
`generate_dlsch_header` and `generate_ulsch_header`. Both write subheaders at a
pointer into the header, go back to set the E bit of the last one when another
follows, and collect the control elements apart. -/

set_option autoImplicit false

namespace OpenAir.Mac

open OpenAir.Base

abbrev Lcid := Fin 32

namespace Lcid

def ueContRes : Lcid := 28
def timingAdvCmd : Lcid := 29
def drxCmd : Lcid := 30

def extendedPowerHeadroom : Lcid := 25
def powerHeadroom : Lcid := 26
def crnti : Lcid := 27
def truncatedBsr : Lcid := 28
def shortBsr : Lcid := 29
def longBsr : Lcid := 30

def shortPadding : Lcid := 31

def dcch : Lcid := 1
def dcch1 : Lcid := 2
def dtch : Lcid := 3

end Lcid

/-- `mac_header` with the offset of `mac_header_ptr` in it, and the part of
`mac_header_control_elements` before `ce_ptr`. -/
structure HeaderWriter where
  header : Nat → UInt8
  pointer : Nat
  firstElement : Bool
  lastSize : Nat
  elements : List UInt8

namespace HeaderWriter

def start (memory : Nat → UInt8) : HeaderWriter := ⟨memory, 0, false, 0, []⟩

def extend (writer : HeaderWriter) : HeaderWriter :=
  { writer with
    header := store writer.header writer.pointer [writer.header writer.pointer ||| 0x20] }

def move (writer : HeaderWriter) (size : Nat) : HeaderWriter :=
  { writer with pointer := writer.pointer + size }

def next (writer : HeaderWriter) (size : Nat) : HeaderWriter :=
  if writer.firstElement then (writer.extend).move size
  else { writer with firstElement := true }

def putFixed (writer : HeaderWriter) (lcid : Lcid) : HeaderWriter :=
  { writer with
    header := store writer.header writer.pointer [UInt8.ofNat lcid]
    lastSize := 1 }

def controlElement (writer : HeaderWriter) (lcid : Lcid) (octets : List UInt8) : HeaderWriter :=
  let written := (writer.next 1).putFixed lcid
  { written with elements := written.elements ++ octets }

def paddingSubheaders (writer : HeaderWriter) (shortPadding : Nat) : HeaderWriter :=
  let first :=
    if shortPadding = 1 ∨ shortPadding = 2 then
      { writer.putFixed .shortPadding with firstElement := true }
    else writer
  if shortPadding = 2 then (first.extend.move 1).putFixed .shortPadding else first

/-- A `SCH_SUBHEADER_SHORT`, or a `SCH_SUBHEADER_LONG`, which is one octet
longer than what is used of it. -/
def putSdu (writer : HeaderWriter) (lcid : Lcid) (length : Nat) : HeaderWriter :=
  if length < 128 then
    { writer with
      header := store writer.header writer.pointer
        [UInt8.ofNat lcid, UInt8.ofNat (length % 128)]
      lastSize := 2 }
  else
    { writer with
      header := store writer.header writer.pointer
        [UInt8.ofNat lcid, UInt8.ofNat (128 + length / 256 % 128), UInt8.ofNat (length % 256), 0]
      lastSize := 3 }

def sduSubheader (writer : HeaderWriter) (sdu : Lcid × Nat) : HeaderWriter :=
  (writer.next writer.lastSize).putSdu sdu.1 sdu.2

/-- The end of the subheaders: a padding subheader, or the last one cut to its
first octet. -/
def close (writer : HeaderWriter) (postPadding : Nat) : HeaderWriter :=
  if postPadding > 0 then
    ((writer.extend.move writer.lastSize).putFixed .shortPadding).move 1
  else writer.move 1

def copyElements (writer : HeaderWriter) : HeaderWriter :=
  { writer with
    header := store writer.header writer.pointer writer.elements
    pointer := writer.pointer + writer.elements.length }

end HeaderWriter

/-- The header that a generator wrote, and the `unsigned char` it returns. -/
structure Header where
  memory : Nat → UInt8
  returned : UInt8

def HeaderWriter.result (writer : HeaderWriter) : Header :=
  ⟨writer.header, UInt8.ofNat writer.pointer⟩

def Header.octets (header : Header) : List UInt8 := load header.memory 0 header.returned.toNat

abbrev ContentionResolutionId := { octets : List UInt8 // octets.length = 6 }

/-- `(timing_advance_cmd+31)&0x3f` in a `TIMING_ADVANCE_CMD`. -/
def timingAdvanceOctet (timingAdvanceCmd : Int) : UInt8 :=
  UInt8.ofNat ((timingAdvanceCmd + 31) % 64).toNat

/-- `generate_dlsch_header`, for the given LCIDs and lengths. -/
def generateDlschHeader (memory : Nat → UInt8) (sdus : List (Lcid × Nat)) (drxCmd : UInt8)
    (timingAdvanceCmd : Int) (ueContResId : Option ContentionResolutionId)
    (shortPadding postPadding : Nat) : Header :=
  let writer := (HeaderWriter.start memory).paddingSubheaders shortPadding
  let writer := if drxCmd ≠ 255 then writer.controlElement .drxCmd [] else writer
  let writer :=
    if timingAdvanceCmd ≠ 0 then
      writer.controlElement .timingAdvCmd [timingAdvanceOctet timingAdvanceCmd]
    else writer
  let writer :=
    match ueContResId with
    | some id => writer.controlElement .ueContRes id
    | none => writer
  let writer := sdus.foldl HeaderWriter.sduSubheader writer
  ((writer.close postPadding).copyElements).result

structure BsrShort where
  lcgid : Fin 4
  bufferSize : Fin 64
  deriving DecidableEq, Repr

/-- `BSR_LONG`: the buffer size of each logical channel group. -/
structure BsrLong where
  bufferSize0 : Fin 64
  bufferSize1 : Fin 64
  bufferSize2 : Fin 64
  bufferSize3 : Fin 64
  deriving DecidableEq, Repr

def BsrShort.octet (bsr : BsrShort) : UInt8 := UInt8.ofNat (bsr.lcgid * 64 + bsr.bufferSize)

/-- The four octets of a long report. The third one shifts two bits of
`Buffer_size2` by 2, where `Buffer_size3` stands. -/
def BsrLong.octets (bsr : BsrLong) : List UInt8 :=
  [UInt8.ofNat ((bsr.bufferSize0.val <<< 2) ||| ((bsr.bufferSize1.val &&& 0x30) >>> 4)),
    UInt8.ofNat (((bsr.bufferSize1.val &&& 0x0F) <<< 4) ||| ((bsr.bufferSize2.val &&& 0x3C) >>> 2)),
    UInt8.ofNat (((bsr.bufferSize2.val &&& 0x03) <<< 2) ||| (bsr.bufferSize3.val &&& 0x3F)),
    0]

/-- The octets of a `uint16_t` in the memory of a little-endian host. -/
def littleEndian (value : UInt16) : List UInt8 := [value.toUInt8, (value >>> 8).toUInt8]

/-- The buffer status report that `generate_ulsch_header` is given. If more
than one pointer is not null, the first one counts. -/
inductive Bsr where
  | truncated (bsr : BsrShort)
  | short (bsr : BsrShort)
  | long (bsr : BsrLong)
  deriving DecidableEq, Repr

/-- `generate_ulsch_header`, for the given LCIDs and lengths. The power
headroom is the octet of a `POWER_HEADROOM_CMD`. -/
def generateUlschHeader (memory : Nat → UInt8) (sdus : List (Lcid × Nat)) (shortPadding : Nat)
    (powerHeadroom : Option UInt8) (crnti : Option UInt16) (bsr : Option Bsr)
    (postPadding : Nat) : Header :=
  let writer := (HeaderWriter.start memory).paddingSubheaders shortPadding
  let writer :=
    match powerHeadroom with
    | some octet => writer.controlElement .powerHeadroom [octet]
    | none => writer
  let writer :=
    match crnti with
    | some value => writer.controlElement .crnti (littleEndian value)
    | none => writer
  let writer :=
    match bsr with
    | some (.truncated bsr) => writer.controlElement .truncatedBsr [bsr.octet]
    | some (.short bsr) => writer.controlElement .shortBsr [bsr.octet]
    | some (.long bsr) => writer.controlElement .longBsr bsr.octets
    | none => writer
  let writer := sdus.foldl HeaderWriter.sduSubheader writer
  ((writer.close postPadding).copyElements).result

end OpenAir.Mac
