import OpenAir.Mac.HeaderWriter

/-! Reading the header of a MAC PDU, after `parse_header` of the UE and
`parse_ulsch_header` of the eNB. The two differ in the LCIDs they take for
control elements and in the lengths of those. -/

set_option autoImplicit false

namespace OpenAir.Mac

/-- How a call leaves the bounds of its data: it reads behind the block, writes
behind an array, ends the process, or writes an entry of negative index. -/
inductive Fault where
  | readPast
  | writePast
  | processExit
  | negativeIndex
  deriving DecidableEq, Repr

def nbRbMax : Nat := 14
def maxNumCe : Nat := 5

/-- The arrays `rx_ces`, `rx_lcids` and `rx_lengths` filled so far, `ce_len`,
and the offset of `mac_header_ptr`. -/
structure Parsed where
  ces : List Lcid
  sdus : List (Lcid × UInt16)
  ceLen : UInt16
  offset : Nat
  deriving DecidableEq, Repr

def Parsed.empty : Parsed := ⟨[], [], 0, 0⟩

/-- The LCIDs from `firstElement` on are control elements. The length of an
unknown one is `none`. -/
structure ParserRules where
  firstElement : Nat
  elementLength : Lcid → Option UInt16

def lcidOf (octet : UInt8) : Lcid := ⟨octet.toNat % 32, Nat.mod_lt _ (by decide)⟩

def hasExtension (octet : UInt8) : Bool := octet.toNat / 32 % 2 = 1

def Parsed.recordSdu (parsed : Parsed) (lcid : Lcid) (length : UInt16) (size : Nat) :
    Except Fault Parsed :=
  if parsed.sdus.length < nbRbMax then
    .ok { parsed with sdus := parsed.sdus ++ [(lcid, length)], offset := parsed.offset + size }
  else .error .writePast

def Parsed.recordElement (rules : ParserRules) (parsed : Parsed) (lcid : Lcid) :
    Except Fault Parsed :=
  if parsed.ces.length < maxNumCe then
    match rules.elementLength lcid with
    | some length =>
      .ok { parsed with
        ces := parsed.ces ++ [lcid]
        ceLen := parsed.ceLen + length
        offset := parsed.offset + 1 }
    | none => .error .processExit
  else .error .writePast

def Parsed.readFixed (rules : ParserRules) (parsed : Parsed) (lcid : Lcid) :
    Except Fault Parsed :=
  if lcid = .shortPadding then .ok { parsed with offset := parsed.offset + 1 }
  else parsed.recordElement rules lcid

def Parsed.implicitLength (parsed : Parsed) (tbLength : UInt16) : UInt16 :=
  (parsed.sdus.map (·.2)).foldl (· - ·)
    (tbLength - UInt16.ofNat (parsed.offset + 1) - parsed.ceLen)

/-- The loop over the subheaders, on the octets from `mac_header_ptr` on. -/
def parseSubheaders (rules : ParserRules) (tbLength : UInt16) :
    List UInt8 → Parsed → Except Fault Parsed
  | [], _ => .error .readPast
  | octet :: rest, parsed =>
    if (lcidOf octet).val < rules.firstElement then
      if hasExtension octet then
        match rest with
        | [] => .error .readPast
        | second :: rest =>
          if second.toNat < 128 then do
            let parsed ← parsed.recordSdu (lcidOf octet) (UInt16.ofNat second.toNat) 2
            parseSubheaders rules tbLength rest parsed
          else
            match rest with
            | [] => .error .readPast
            | third :: rest => do
              let length := UInt16.ofNat (second.toNat % 128 * 256 + third.toNat)
              let parsed ← parsed.recordSdu (lcidOf octet) length 3
              parseSubheaders rules tbLength rest parsed
      else parsed.recordSdu (lcidOf octet) (parsed.implicitLength tbLength) 1
    else do
      let parsed ← parsed.readFixed rules (lcidOf octet)
      if hasExtension octet then parseSubheaders rules tbLength rest parsed else pure parsed

def dlschRules : ParserRules where
  firstElement := Lcid.ueContRes
  elementLength := fun lcid =>
    if lcid = .timingAdvCmd then some 1 else if lcid = .ueContRes then some 6 else some 0

def ulschRules : ParserRules where
  firstElement := Lcid.extendedPowerHeadroom
  elementLength := fun lcid =>
    if lcid = .longBsr then some 3
    else if lcid = .crnti then some 2
    else if lcid = .powerHeadroom ∨ lcid = .truncatedBsr ∨ lcid = .shortBsr then some 1
    else none

def parseHeader (block : List UInt8) (tbLength : UInt16) : Except Fault Parsed :=
  parseSubheaders dlschRules tbLength block .empty

def parseUlschHeader (block : List UInt8) (tbLength : UInt16) : Except Fault Parsed :=
  parseSubheaders ulschRules tbLength block .empty

end OpenAir.Mac
