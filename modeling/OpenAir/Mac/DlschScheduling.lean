import OpenAir.Mac.UeMultiplexing

/-! The eNB builds a block for DL-SCH, after the branch of `schedule_ue_spec` for
a new transmission. It asks RLC with the largest block that the resource blocks
allow, then looks for fewer resource blocks and another MCS, and pads. -/

set_option autoImplicit false

namespace OpenAir.Mac

open OpenAir.Base

/-- `MAX_DLSCH_PAYLOAD_BYTES`, the size of `dlsch_buffer`. -/
def maxDlschPayloadBytes : Nat := 16 * 768

/-- A table for `get_TBS_DL` that grows with the MCS and with the resource blocks. -/
structure TransportBlockSizes where
  getTbsDl : Nat → Nat → Nat
  small : ∀ mcs nbRb, getTbsDl mcs nbRb < 65536
  mono : ∀ {mcs higher nbRb more}, mcs ≤ higher → higher ≤ 28 → nbRb ≤ more →
    getTbsDl mcs nbRb ≤ getTbsDl higher more

def getMinRbUnit (nRbDl : Nat) : Nat :=
  if nRbDl = 6 then 1
  else if nRbDl = 25 then 2
  else if nRbDl = 50 then 3
  else if nRbDl = 100 then 4
  else 2

structure DlschUe where
  dlschMcs1 : Nat
  nbAvailableRb : Nat
  taUpdate : Int
  dlPowOff : Nat
  nRbDl : Nat

/-- Which channels have data, and what `mac_rlc_data_req` gives for them. -/
structure RlcChannels where
  hasData : Lcid → Bool
  octets : Lcid → List UInt8

structure DlschGathered where
  buff : Nat → UInt8
  total : Nat
  sdus : List (Lcid × Nat)
  announced : List (Lcid × Int)
  headerLenDcch : Nat
  headerLenDtch : Nat

namespace DlschGathered

def take (gathered : DlschGathered) (lcid : Lcid) (size : Int) (pos : Nat)
    (octets : List UInt8) (length : Nat) : DlschGathered :=
  { gathered with
    buff := store gathered.buff pos octets
    total := (gathered.total + length) % 65536
    sdus := gathered.sdus ++ [(lcid, length)]
    announced := gathered.announced ++ [(lcid, size)] }

def askDcch (room : Int) (rlc : RlcChannels) (gathered : DlschGathered) : DlschGathered :=
  let size := room - gathered.headerLenDcch
  if 0 < size then
    if rlc.hasData .dcch then
      gathered.take .dcch size 0 (rlc.octets .dcch) (rlc.octets .dcch).length
    else { gathered with headerLenDcch := 0 }
  else gathered

/-- The length is added to `sdu_lengths[num_sdus]`, which is zero before only
for the first SDU. No room is kept for the subheader. -/
def askDcch1 (room : Int) (rlc : RlcChannels) (stale : UInt16) (gathered : DlschGathered) :
    DlschGathered :=
  let size := room - gathered.headerLenDcch - gathered.total
  if 0 < size ∧ rlc.hasData .dcch1 then
    let old := if gathered.sdus.isEmpty then 0 else stale.toNat
    let taken := gathered.take .dcch1 size ((gathered.sdus.head?.map (·.2)).getD 0)
      (rlc.octets .dcch1) ((old + (rlc.octets .dcch1).length) % 65536)
    { taken with headerLenDcch := gathered.headerLenDcch + 2 }
  else gathered

def askDtch (room : Int) (rlc : RlcChannels) (gathered : DlschGathered) : DlschGathered :=
  let size := room - gathered.headerLenDcch - gathered.total - 3
  if 0 < size then
    if rlc.hasData .dtch then
      let taken := gathered.take .dtch size gathered.total (rlc.octets .dtch)
        (rlc.octets .dtch).length
      { taken with headerLenDtch := if (rlc.octets .dtch).length < 128 then 2 else 3 }
    else { gathered with headerLenDtch := 0 }
  else { gathered with headerLenDtch := 3 }

/-- `header_len_dcch` and `header_len_dtch` when a length field has been removed. -/
def trimmed (gathered : DlschGathered) : Nat × Nat :=
  if gathered.headerLenDtch = 0 then
    (if 0 < gathered.headerLenDcch then 1 else gathered.headerLenDcch, 0)
  else (gathered.headerLenDcch, 1)

def required (taLen : Nat) (gathered : DlschGathered) : Nat :=
  gathered.total + gathered.trimmed.1 + gathered.trimmed.2 + taLen

/-- `padding`, passed on as an `unsigned char`. -/
def padding (taLen tbs : Nat) (gathered : DlschGathered) : Nat :=
  let rest := (tbs : Int) - gathered.required taLen
  if rest ≤ 2 then (rest % 256).toNat else 0

def postPadding (taLen tbs : Nat) (gathered : DlschGathered) : Nat :=
  if (tbs : Int) - gathered.required taLen ≤ 2 then 0
  else
    (((tbs : Int) - gathered.total - gathered.headerLenDcch - gathered.headerLenDtch - taLen) %
      65536).toNat

end DlschGathered

/-- The loop that adds resource blocks until the block is large enough or no
more are available. -/
def growRb (tbs : Nat → Nat) (available unit required : Nat) : Nat → Nat → Nat
  | 0, nbRb => nbRb
  | fuel + 1, nbRb =>
    if tbs nbRb < required then
      if nbRb + unit > available then available
      else growRb tbs available unit required fuel (nbRb + unit)
    else nbRb

def lowerMcs (tbs : Nat → Nat) (required : Nat) : Nat → Nat
  | 0 => 0
  | mcs + 1 => if required < tbs (mcs + 1) then lowerMcs tbs required mcs else mcs + 1

/-- The loop that raises the MCS while the block is too small, for so many steps
at most. -/
def raiseMcs (tbs : Nat → Nat) (required : Nat) : Nat → Nat → Nat
  | 0, mcs => mcs
  | steps + 1, mcs => if tbs mcs < required then raiseMcs tbs required steps (mcs + 1) else mcs

namespace DlschUe

def taLen (ue : DlschUe) : Nat := if ue.taUpdate ≠ 0 then 2 else 0

def firstRb (ue : DlschUe) : Nat := if ue.dlschMcs1 = 0 then 4 else getMinRbUnit ue.nRbDl

def mcsLimit (ue : DlschUe) : Nat := if 0 < ue.dlPowOff then 28 else 16

def room (ue : DlschUe) (tbs : Nat) : Int := tbs - ue.taLen

def gather (ue : DlschUe) (tbs : Nat) (rlc : RlcChannels) (stale : UInt16)
    (buff : Nat → UInt8) : DlschGathered :=
  let start : DlschGathered := ⟨buff, 0, [], [], 2, 3⟩
  let room := ue.room tbs
  ((start.askDcch room rlc).askDcch1 room rlc stale).askDtch room rlc

def selectRb (ue : DlschUe) (sizes : TransportBlockSizes) (required : Nat) : Nat :=
  growRb (sizes.getTbsDl ue.dlschMcs1) ue.nbAvailableRb (getMinRbUnit ue.nRbDl) required
    (ue.nbAvailableRb + 1) ue.firstRb

def selectMcs (ue : DlschUe) (sizes : TransportBlockSizes) (required nbRb : Nat) : Nat :=
  let tbs := fun mcs => sizes.getTbsDl mcs nbRb
  let lowered := lowerMcs tbs required ue.dlschMcs1
  raiseMcs tbs required (ue.mcsLimit - lowered) lowered

end DlschUe

/-- The block, and the variables of `schedule_ue_spec` at its end. -/
structure DlschBlock where
  memory : Nat → UInt8
  offset : Nat
  sduLengthTotal : Nat
  announced : List (Lcid × Int)
  mcs : Nat
  nbRb : Nat
  tbs : Nat

/-- The branch of `schedule_ue_spec` for a new transmission, where `stale` is what
`sdu_lengths[1]` contains before and `filling` are the octets drawn by `taus`. -/
def scheduleUeSpec (sizes : TransportBlockSizes) (ue : DlschUe) (rlc : RlcChannels)
    (stale : UInt16) (memory buff filling : Nat → UInt8) : Option DlschBlock :=
  let gathered := ue.gather (sizes.getTbsDl ue.dlschMcs1 ue.nbAvailableRb) rlc stale buff
  if 0 < gathered.total + gathered.headerLenDcch + gathered.headerLenDtch then
    let required := gathered.required ue.taLen
    let nbRb := ue.selectRb sizes required
    let mcs := ue.selectMcs sizes required nbRb
    let tbs := sizes.getTbsDl mcs nbRb
    let header := generateDlschHeader memory gathered.sdus 255 ue.taUpdate none
      (gathered.padding ue.taLen tbs) (gathered.postPadding ue.taLen tbs)
    some
      { memory := fillBlock header gathered.buff gathered.total tbs filling
        offset := header.returned.toNat
        sduLengthTotal := gathered.total
        announced := gathered.announced
        mcs := mcs
        nbRb := nbRb
        tbs := tbs }
  else none

end OpenAir.Mac
