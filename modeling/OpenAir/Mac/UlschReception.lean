import OpenAir.Mac.HeaderParser

/-! The eNB receives a block on UL-SCH, after `rx_sdu`: the header is parsed,
the control elements update the entry of the UE, and the SDUs are handed to RLC.
An octet behind the block is read as 0. -/

set_option autoImplicit false

namespace OpenAir.Mac

open Function

def bsrTable : List UInt32 :=
  [0, 10, 12, 14, 17, 19, 22, 26, 31, 36, 42, 49, 57, 67, 78, 91,
    105, 125, 146, 171, 200, 234, 274, 321, 376, 440, 515, 603, 706, 826, 967, 1132,
    1326, 1552, 1817, 2127, 2490, 2915, 3413, 3995, 4677, 5467, 6411, 7505, 8787, 10287, 12043,
    14099, 16507, 19325, 22624, 26487, 31009, 36304, 42502, 49759, 58255, 68201, 79846, 93479,
    109439, 128125, 150000, 300000]

def phrMappingOffset : Int := 23
def ccchPayloadSizeMax : Nat := 128
def schPayloadSizeMax : Nat := 4096

/-- What `rx_sdu` uses of `UE_template` and `UE_sched_ctrl`. -/
structure UeEntry where
  phrInfo : Int
  phrInfoConfigured : Bool
  phrReceived : Bool
  bsrInfo : Fin 4 → Fin 64
  ulBufferInfo : Fin 4 → UInt32
  ulTotalBuffer : UInt32
  ulBufferCreationTime : Fin 4 → UInt32
  lcgidMap : Lcid → Fin 4
  ulInactivityTimer : Int
  ulFailureTimer : Int
  ulOutOfSync : Int
  ulScheduled : Nat → Bool

/-- The UEs and their RNTIs from `head` on, the free entries from `avail` on,
and all entries. -/
structure UeList where
  active : List (Nat × UInt16)
  avail : List Nat
  entries : Nat → UeEntry

namespace UeList

/-- `find_UE_id`, where `none` is -1. -/
def findUeId (ues : UeList) (rnti : UInt16) : Option Nat :=
  (ues.active.find? fun ue => ue.2 = rnti).map (·.1)

def update (ues : UeList) (ueId : Nat) (change : UeEntry → UeEntry) : UeList :=
  { ues with entries := Function.update ues.entries ueId (change (ues.entries ueId)) }

def write (ues : UeList) (ueId : Option Nat) (change : UeEntry → UeEntry) :
    Except Fault UeList :=
  match ueId with
  | some id => .ok (ues.update id change)
  | none => .error .negativeIndex

def writeKnown (ues : UeList) (ueId : Option Nat) (change : UeEntry → UeEntry) : UeList :=
  match ueId with
  | some id => ues.update id change
  | none => ues

def addNewUe (ues : UeList) (rnti : UInt16) : Option (Nat × UeList) :=
  match ues.avail with
  | [] => none
  | id :: rest =>
    let added := { ues with active := (id, rnti) :: ues.active, avail := rest }
    some (id, added.update id fun entry =>
      { entry with
        phrReceived := false
        ulInactivityTimer := 0
        ulFailureTimer := 0
        ulOutOfSync := 0
        ulScheduled := fun _ => false })

end UeList

/-- What the loop over the control elements takes from the octets at
`payload_ptr`. -/
inductive ElementRead where
  | powerHeadroom (level : Fin 64)
  | crnti (rnti : UInt16)
  | bsr (bsr : BsrShort)
  | longBsr (bsr : BsrLong)
  | unknown
  deriving DecidableEq, Repr

def sixBits (value : Nat) : Fin 64 := ⟨value % 64, Nat.mod_lt _ (by decide)⟩

/-- One control element, and the octets by which `payload_ptr` moves on. -/
def readElement (lcid : Lcid) (payload : List UInt8) : ElementRead × Nat :=
  let first := (payload.getD 0 0).toNat
  let second := (payload.getD 1 0).toNat
  let third := (payload.getD 2 0).toNat
  if lcid = .powerHeadroom then (.powerHeadroom (sixBits first), 1)
  else if lcid = .crnti then (.crnti (UInt16.ofNat (first * 256 + second)), 2)
  else if lcid = .truncatedBsr ∨ lcid = .shortBsr then
    (.bsr ⟨⟨first / 64 % 4, Nat.mod_lt _ (by decide)⟩, sixBits first⟩, 1)
  else if lcid = .longBsr then
    (.longBsr
      { bufferSize0 := sixBits (first / 4)
        bufferSize1 := sixBits (first % 4 * 16 + second / 16)
        bufferSize2 := sixBits (second % 16 * 4 + third / 64)
        bufferSize3 := sixBits third }, 3)
  else (.unknown, 0)

namespace UeEntry

def powerHeadroom (entry : UeEntry) (level : Fin 64) : UeEntry :=
  { entry with phrInfo := level.val - phrMappingOffset, phrInfoConfigured := true }

def shortReport (entry : UeEntry) (frame : UInt32) (bsr : BsrShort) : UeEntry :=
  let size := bsrTable.getD bsr.bufferSize 0
  { entry with
    bsrInfo := update entry.bsrInfo bsr.lcgid bsr.bufferSize
    ulBufferInfo := update entry.ulBufferInfo bsr.lcgid size
    ulTotalBuffer := size
    ulBufferCreationTime :=
      if entry.ulBufferCreationTime bsr.lcgid = 0 then
        update entry.ulBufferCreationTime bsr.lcgid frame
      else entry.ulBufferCreationTime }

def groupReport (frame : UInt32) (entry : UeEntry) (group : Fin 4 × Fin 64) : UeEntry :=
  let size := bsrTable.getD group.2 0
  let before := entry.ulBufferInfo group.1
  let total := entry.ulTotalBuffer + size
  { entry with
    bsrInfo := update entry.bsrInfo group.1 group.2
    ulBufferInfo := update entry.ulBufferInfo group.1 size
    ulTotalBuffer := if before ≤ total then total - before else 0
    ulBufferCreationTime :=
      if group.2 = 0 then update entry.ulBufferCreationTime group.1 0
      else if entry.ulBufferCreationTime group.1 = 0 then
        update entry.ulBufferCreationTime group.1 frame
      else entry.ulBufferCreationTime }

def longReport (entry : UeEntry) (frame : UInt32) (bsr : BsrLong) : UeEntry :=
  [(0, bsr.bufferSize0), (1, bsr.bufferSize1), (2, bsr.bufferSize2),
    (3, bsr.bufferSize3)].foldl (groupReport frame) entry

def inSync (entry : UeEntry) : UeEntry :=
  { entry with
    ulInactivityTimer := 0
    ulFailureTimer := 0
    ulOutOfSync := if entry.ulOutOfSync > 0 then 0 else entry.ulOutOfSync }

def clearScheduled (entry : UeEntry) (harqPid : Nat) : UeEntry :=
  { entry with ulScheduled := update entry.ulScheduled harqPid false }

def received (entry : UeEntry) (lcid : Lcid) (length : UInt16) : UeEntry :=
  let group := entry.lcgidMap lcid
  let before := entry.ulBufferInfo group
  { entry with
    ulBufferInfo := update entry.ulBufferInfo group
      (if length.toUInt32 ≤ before then before - length.toUInt32 else 0) }

end UeEntry

structure RaTemplate where
  rnti : UInt16
  active : Bool
  contResId : List UInt8
  generateMsg4 : Bool
  waitAckMsg4 : Bool

/-- The state of `rx_sdu`, with the octets from `payload_ptr` on and what has
been handed to RLC and RRC. -/
structure Reception where
  ues : UeList
  raTemplates : List RaTemplate
  ueId : Option Nat
  msg3Flag : Option Bool
  payload : List UInt8
  delivered : List (Lcid × List UInt8)

namespace Reception

/-- What a control element does, apart from the move of `payload_ptr`. -/
def applyElement (frame : UInt32) (state : Reception) : ElementRead → Except Fault Reception
  | .powerHeadroom level => do
    -- the second write is outside the test of `UE_id`
    let known := state.ues.writeKnown state.ueId (·.powerHeadroom level)
    let ues ← known.write state.ueId fun entry => { entry with phrReceived := true }
    pure { state with ues := ues }
  | .crnti rnti =>
    let ueId := state.ues.findUeId rnti
    pure { state with
      ueId := ueId
      ues := state.ues.writeKnown ueId (·.inSync)
      msg3Flag := state.msg3Flag.map fun _ => false }
  | .bsr bsr => pure { state with ues := state.ues.writeKnown state.ueId (·.shortReport frame bsr) }
  | .longBsr bsr =>
    pure { state with ues := state.ues.writeKnown state.ueId (·.longReport frame bsr) }
  | .unknown => pure state

def processElement (frame : UInt32) (state : Reception) (lcid : Lcid) : Except Fault Reception := do
  let element := readElement lcid state.payload
  let next ← state.applyElement frame element.1
  pure { next with payload := state.payload.drop element.2 }

def terminateRa (rnti : UInt16) (length : Nat) (state : Reception) (index : Nat) :
    Except Fault Reception :=
  match state.raTemplates[index]? with
  | none => pure state
  | some template =>
    if template.rnti = rnti ∧ template.active = true then do
      let answered := { template with generateMsg4 := true, waitAckMsg4 := false }
      let delivered := state.delivered ++ [(0, state.payload.take length)]
      match state.ueId with
      | none =>
        match state.ues.addNewUe template.rnti with
        | none => .error .processExit
        | some (ueId, ues) =>
          let template := { answered with contResId := state.payload.take 6 }
          pure { state with
            ues := ues
            ueId := some ueId
            raTemplates := state.raTemplates.set index template
            delivered := delivered }
      | some _ =>
        pure { state with
          raTemplates := state.raTemplates.set index answered
          delivered := delivered }
    else pure state

/-- One SDU, before `payload_ptr` moves on. -/
def processSdu (rnti : UInt16) (state : Reception) (lcid : Lcid) (length : UInt16) :
    Except Fault Reception :=
  let octets := state.payload.take length.toNat
  if lcid = 0 then
    if length.toNat > ccchPayloadSizeMax then pure state
    else (List.range state.raTemplates.length).foldlM (terminateRa rnti length.toNat) state
  else if lcid = .dcch ∨ lcid = .dcch1 then
    match state.ueId with
    | none => pure state
    | some _ =>
      pure { state with
        ues := state.ues.writeKnown state.ueId (·.received lcid length)
        delivered := state.delivered ++ [(lcid, octets)] }
  else if lcid = .dtch then
    match state.ueId with
    | none => pure state
    | some _ =>
      pure { state with
        ues := state.ues.writeKnown state.ueId (·.received lcid length)
        delivered :=
          if length.toNat < schPayloadSizeMax ∧ 0 < length.toNat then
            state.delivered ++ [(lcid, octets)]
          else state.delivered }
  else pure state

def processSduOf (rnti : UInt16) (state : Reception) (sdu : Lcid × UInt16) :
    Except Fault Reception := do
  let state ← state.processSdu rnti sdu.1 sdu.2
  pure { state with payload := state.payload.drop sdu.2.toNat }

end Reception

/-- The state of the eNB that `rx_sdu` works on. -/
structure Enb where
  ues : UeList
  raTemplates : List RaTemplate

/-- `rx_sdu`, where `none` is a block that was not received. -/
def rxSdu (enb : Enb) (frame : UInt32) (rnti : UInt16) (block : Option (List UInt8))
    (harqPid : Nat) (msg3Flag : Option Bool) : Except Fault Reception := do
  let ueId := enb.ues.findUeId rnti
  match block with
  | none =>
    let ues ← enb.ues.write ueId (·.clearScheduled harqPid)
    pure ⟨ues, enb.raTemplates, ueId, msg3Flag, [], []⟩
  | some block =>
    let ues := enb.ues.writeKnown ueId fun entry => entry.inSync.clearScheduled harqPid
    let parsed ← parseUlschHeader block (UInt16.ofNat block.length)
    let start : Reception :=
      ⟨ues, enb.raTemplates, ueId, msg3Flag, block.drop parsed.offset, []⟩
    let state ← parsed.ces.foldlM (Reception.processElement frame) start
    let state ← parsed.sdus.foldlM (Reception.processSduOf rnti) state
    if parsed.sdus = [] ∧ parsed.ces = [] then
      pure { state with msg3Flag := state.msg3Flag.map fun _ => false }
    else pure state

end OpenAir.Mac
