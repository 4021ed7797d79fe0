import OpenAir.Mac.UlschReception

/-! The UE builds a block for UL-SCH, after `ue_get_sdu`. It guesses the header,
asks RLC for the SDUs of DCCH, DCCH1 and DTCH, corrects the guess for padding,
and writes the header, the SDUs and filling octets. -/

set_option autoImplicit false

namespace OpenAir.Mac

open OpenAir.Base Function

/-- `MAX_ULSCH_PAYLOAD_BYTES`, the size of `ulsch_buff`. -/
def maxUlschPayloadBytes : Nat := 16 * 768

/-- What `ue_get_sdu` uses of `scheduling_info`. -/
structure SchedulingInfo where
  bsr : Fin 4 → UInt8
  bsrBytes : Fin 4 → UInt16
  notEmpty : Lcid → Bool
  lcgid : Lcid → UInt8

/-- The binary search of `locate` in `BSR_TABLE`, which ascends. -/
def locateLoop (value : Nat) : Nat → Nat → Nat → Nat
  | 0, lower, _ => lower
  | fuel + 1, lower, upper =>
    if upper - lower > 1 then
      let middle := (upper + lower) / 2
      if value ≥ (bsrTable.getD middle 0).toNat then locateLoop value fuel middle upper
      else locateLoop value fuel lower middle
    else lower

def locate (value : Nat) : Nat :=
  if value = 0 then 0
  else
    let lower := locateLoop value bsrTable.length 0 (bsrTable.length - 1)
    if value = (bsrTable.getD lower 0).toNat then lower else lower + 1

namespace SchedulingInfo

/-- `get_bsr_lcgid`: no group, the only one with data, or `MAX_NUM_LCGID`. -/
def getBsrLcgid (info : SchedulingInfo) : Option Nat :=
  match (List.finRange 4).filter fun group => 0 < info.bsr group with
  | [] => none
  | [group] => some group
  | _ => some 4

/-- One turn of the loop of `get_bsr_len`, over `pdu`, `bsr_len` and `num_lcgid`. -/
def bsrLenStep (buflen : Nat) (state : Nat × Nat × Nat) (bytes : UInt16) : Nat × Nat × Nat :=
  let (pdu, bsrLen, numLcgid) := state
  let pdu := if 0 < bytes then pdu + (bytes.toNat + bsrLen + 2) else pdu
  let pdu := if 128 < bytes then pdu + 1 else pdu
  if buflen < pdu ∧ 0 < bytes then
    (pdu, if 2 ≤ numLcgid + 1 then 4 else 1, numLcgid + 1)
  else (pdu, bsrLen, numLcgid)

def getBsrLen (info : SchedulingInfo) (buflen : Nat) : Nat :=
  (((List.finRange 4).map info.bsrBytes).foldl (bsrLenStep buflen) (0, 0, 0)).2.1

/-- `update_bsr`, when RLC has the given number of octets left. -/
def updateBsr (info : SchedulingInfo) (lcid : Lcid) (lcgId : UInt8) (left : Nat) :
    SchedulingInfo :=
  if known : lcgId.toNat < 4 then
    let group : Fin 4 := ⟨lcgId.toNat, known⟩
    let cleared :=
      if lcid = .dcch ∨ lcid = .dtch then
        { info with
          bsr := update info.bsr group 0
          bsrBytes := update info.bsrBytes group 0 }
      else info
    if cleared.lcgid lcid = lcgId then
      if 0 < left then
        { cleared with
          notEmpty := update cleared.notEmpty lcid true
          bsr := update cleared.bsr group (cleared.bsr group + UInt8.ofNat (locate left))
          bsrBytes :=
            update cleared.bsrBytes group (cleared.bsrBytes group + UInt16.ofNat left) }
      else { cleared with notEmpty := update cleared.notEmpty lcid false }
    else cleared
  else info

/-- `BSR[lcgid]`. The octet behind the array is the low one of `BSR_bytes[0]`. -/
def bsrAt (info : SchedulingInfo) (index : Nat) : UInt8 :=
  if within : index < 4 then info.bsr ⟨index, within⟩ else (info.bsrBytes 0).toUInt8

def report (info : SchedulingInfo) (bsrCeLen : Nat) : Option Bsr :=
  match info.getBsrLcgid with
  | none => none
  | some lcgid =>
    if lcgid = 4 ∧ bsrCeLen = 4 then
      some (.long
        { bufferSize0 := sixBits (info.bsr 0).toNat
          bufferSize1 := sixBits (info.bsr 1).toNat
          bufferSize2 := sixBits (info.bsr 2).toNat
          bufferSize3 := sixBits (info.bsr 3).toNat })
    else if bsrCeLen = 1 then
      some (.short ⟨⟨lcgid % 4, Nat.mod_lt _ (by decide)⟩, sixBits (info.bsrAt lcgid).toNat⟩)
    else none

end SchedulingInfo

structure UeMac where
  info : SchedulingInfo
  phrReportingActive : Bool

/-- What RLC gives for each channel that is asked, and has left afterwards. -/
structure RlcAnswers where
  octets : Lcid → List UInt8
  left : Lcid → Nat

/-- The local variables while the SDUs are fetched, with the sizes that were
announced to RLC. -/
structure Gathered where
  info : SchedulingInfo
  buff : Nat → UInt8
  total : Nat
  sdus : List (Lcid × Nat)
  announced : List (Lcid × Int)
  dcchHeaderLen : Nat
  dcch1HeaderLen : Nat
  dtchHeaderLen : Nat

namespace Gathered

def ask (gathered : Gathered) (lcid : Lcid) (size : Int) (pos : Nat) (octets : List UInt8) :
    Gathered :=
  { gathered with
    buff := store gathered.buff pos octets
    total := gathered.total + octets.length
    sdus := gathered.sdus ++ [(lcid, octets.length)]
    announced := gathered.announced ++ [(lcid, size)] }

def updateBsr (gathered : Gathered) (lcid : Lcid) (left : Nat) : Gathered :=
  { gathered with
    info := gathered.info.updateBsr lcid (gathered.info.lcgid lcid) left }

def askDcch (room : Int) (rlc : RlcAnswers) (gathered : Gathered) : Gathered :=
  if gathered.info.notEmpty .dcch then
    (gathered.ask .dcch (room - gathered.dcchHeaderLen) 0 (rlc.octets .dcch)).updateBsr .dcch
      (rlc.left .dcch)
  else { gathered with dcchHeaderLen := 0 }

/-- The SDU of DCCH1 goes to `ulsch_buff[sdu_lengths[0]]`. -/
def askDcch1 (room : Int) (rlc : RlcAnswers) (gathered : Gathered) : Gathered :=
  if gathered.info.notEmpty .dcch1 then
    gathered.ask .dcch1
      (room - gathered.dcchHeaderLen - gathered.dcch1HeaderLen - gathered.total)
      ((gathered.sdus.head?.map (·.2)).getD 0) (rlc.octets .dcch1)
  else { gathered with dcch1HeaderLen := 0 }

def askDtch (room : Int) (rlc : RlcAnswers) (gathered : Gathered) : Gathered :=
  let size := room - gathered.dcchHeaderLen - gathered.dcch1HeaderLen - gathered.dtchHeaderLen -
    gathered.total
  if gathered.info.notEmpty .dtch ∧ 0 ≤ size then
    let answered := (gathered.ask .dtch size gathered.total (rlc.octets .dtch)).updateBsr .dtch
      (rlc.left .dtch)
    { answered with dtchHeaderLen := if 128 ≤ (rlc.octets .dtch).length then 3 else 2 }
  else { gathered with dtchHeaderLen := 0 }

def remaining (room : Int) (gathered : Gathered) : Int :=
  let dcchHeaderLen :=
    if gathered.dtchHeaderLen = 0 ∧ 0 < gathered.dcchHeaderLen then 1 else gathered.dcchHeaderLen
  let dtchHeaderLen := if gathered.dtchHeaderLen = 0 then 0 else 1
  room - dcchHeaderLen - gathered.dcch1HeaderLen - dtchHeaderLen - gathered.total

def shortPadding (room : Int) (gathered : Gathered) : Nat :=
  if gathered.remaining room ≤ 2 then (gathered.remaining room % 256).toNat else 0

def postPadding (room : Int) (gathered : Gathered) : Nat :=
  if gathered.remaining room ≤ 2 then 0
  else
    ((room - gathered.dcchHeaderLen - gathered.dcch1HeaderLen - gathered.dtchHeaderLen -
      gathered.total - 1) % 65536).toNat

end Gathered

namespace UeMac

def phrLen (ue : UeMac) : Nat := if ue.phrReportingActive then 2 else 0

def bsrCeLen (ue : UeMac) (buflen : Nat) : Nat :=
  ue.info.getBsrLen (((buflen : Int) - ue.phrLen) % 65536).toNat

def bsrLen (ue : UeMac) (buflen : Nat) : Nat :=
  if 0 < ue.bsrCeLen buflen then ue.bsrCeLen buflen + 1 else 0

def room (ue : UeMac) (buflen : Nat) : Int := buflen - ue.bsrLen buflen - ue.phrLen

def gather (ue : UeMac) (rlc : RlcAnswers) (buff : Nat → UInt8) (buflen : Nat) : Gathered :=
  let start : Gathered := ⟨ue.info, buff, 0, [], [], 2, 2, if buflen > 128 then 3 else 2⟩
  let room := ue.room buflen
  ((start.askDcch room rlc).askDcch1 room rlc).askDtch room rlc

end UeMac

/-- The block, and the variables of `ue_get_sdu` at its end. -/
structure UlschBlock where
  memory : Nat → UInt8
  payloadOffset : Nat
  sduLengthTotal : Nat
  announced : List (Lcid × Int)
  ue : UeMac
  canceledAccess : Bool

def fillBlock (header : Header) (buff : Nat → UInt8) (total length : Nat) (filling : Nat → UInt8) :
    Nat → UInt8 :=
  let placed := store header.memory header.returned.toNat (load buff 0 total)
  store placed (header.returned.toNat + total)
    (load filling 0 (length - total - header.returned.toNat))

/-- `ue_get_sdu` with a grant of `buflen` octets, where `phr` is the mapped
power headroom and `filling` are the octets drawn by `taus`. -/
def ueGetSdu (ue : UeMac) (rlc : RlcAnswers) (phr : Fin 64) (memory buff filling : Nat → UInt8)
    (buflen : Nat) : UlschBlock :=
  let room := ue.room buflen
  let gathered := ue.gather rlc buff buflen
  let report := gathered.info.report (ue.bsrCeLen buflen)
  let powerHeadroom := if ue.phrReportingActive then some (UInt8.ofNat phr) else none
  let header := generateUlschHeader memory gathered.sdus (gathered.shortPadding room)
    powerHeadroom none report (gathered.postPadding room)
  { memory := fillBlock header gathered.buff gathered.total buflen filling
    payloadOffset := header.returned.toNat
    sduLengthTotal := gathered.total
    announced := gathered.announced
    ue := ⟨gathered.info, false⟩
    canceledAccess := gathered.remaining room > 2 ∧ gathered.remaining room = buflen }

end OpenAir.Mac
