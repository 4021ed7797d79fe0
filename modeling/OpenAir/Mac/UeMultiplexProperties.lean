import OpenAir.Mac.MultiplexProperties
import OpenAir.Mac.UlschProperties

/-! When the block that the UE builds for a grant carries what RLC gave. -/

set_option autoImplicit false

namespace OpenAir.Mac

open OpenAir.Base Nat Gathered

theorem load_store_behind (memory : Nat → UInt8) (pos : Nat) (octets : List UInt8) :
    load (store memory pos octets) 0 (pos + octets.length) =
      load memory 0 pos ++ octets := by
  rw [load_add, load_store_before _ _ (le_of_eq (zero_add _)), zero_add, load_store]

namespace SchedulingInfo

theorem notEmpty_updateBsr (info : SchedulingInfo) {lcid other : Lcid} (different : other ≠ lcid)
    (lcgId : UInt8) (left : Nat) : (info.updateBsr lcid lcgId left).notEmpty other =
      info.notEmpty other := by
  unfold updateBsr
  split
  next =>
    dsimp only
    split <;> split <;> (try split) <;> simp [Function.update_of_ne different]
  next => rfl

def activeGroups (info : SchedulingInfo) : Nat :=
  ((List.finRange 4).filter fun group => 0 < info.bsr group).length

theorem bsrLenStep_lengths {buflen : Nat} {state : Nat × Nat × Nat} (bytes : UInt16)
    (known : state.2.1 = 0 ∨ state.2.1 = 1 ∨ state.2.1 = 4) :
    (bsrLenStep buflen state bytes).2.1 = 0 ∨ (bsrLenStep buflen state bytes).2.1 = 1 ∨
      (bsrLenStep buflen state bytes).2.1 = 4 := by
  simp only [bsrLenStep]
  split_ifs <;> first | exact known | simp

theorem getBsrLen_cases (info : SchedulingInfo) (buflen : Nat) :
    info.getBsrLen buflen = 0 ∨ info.getBsrLen buflen = 1 ∨ info.getBsrLen buflen = 4 := by
  have kept : ∀ (counts : List UInt16) (state : Nat × Nat × Nat),
      state.2.1 = 0 ∨ state.2.1 = 1 ∨ state.2.1 = 4 →
      (counts.foldl (bsrLenStep buflen) state).2.1 = 0 ∨
        (counts.foldl (bsrLenStep buflen) state).2.1 = 1 ∨
        (counts.foldl (bsrLenStep buflen) state).2.1 = 4 := by
    intro counts
    induction counts with
    | nil => exact fun _ known => known
    | cons bytes counts ih => exact fun state known => ih _ (bsrLenStep_lengths bytes known)
  exact kept _ (0, 0, 0) (.inl rfl)

theorem report_cases (info : SchedulingInfo) {bsrCeLen : Nat}
    (known : bsrCeLen = 0 ∨ bsrCeLen = 1 ∨ bsrCeLen = 4) :
    (∃ bsr, info.report bsrCeLen = some (.short bsr) ∧ bsrCeLen = 1 ∧ 1 ≤ info.activeGroups) ∨
    (∃ bsr, info.report bsrCeLen = some (.long bsr) ∧ bsrCeLen = 4 ∧ 2 ≤ info.activeGroups) ∨
    info.report bsrCeLen = none ∧
      (bsrCeLen = 0 ∨ info.activeGroups = 0 ∨ bsrCeLen = 4 ∧ info.activeGroups = 1) := by
  unfold report getBsrLcgid activeGroups
  generalize (List.finRange 4).filter (fun group => 0 < info.bsr group) = active
  rcases active with _ | ⟨group, _ | ⟨other, others⟩⟩
  · exact .inr (.inr ⟨rfl, .inr (.inl rfl)⟩)
  · rcases known with rfl | rfl | rfl
    · exact .inr (.inr ⟨by simp, .inl rfl⟩)
    · exact .inl ⟨_, by simp; rfl, rfl, le_refl 1⟩
    · exact .inr (.inr ⟨by simp; omega, .inr (.inr ⟨rfl, rfl⟩)⟩)
  · rcases known with rfl | rfl | rfl
    · exact .inr (.inr ⟨by simp, .inl rfl⟩)
    · exact .inl ⟨_, rfl, rfl, by simp⟩
    · exact .inr (.inl ⟨_, rfl, rfl, by simp⟩)

end SchedulingInfo

namespace Gathered

structure Holds (gathered : Gathered) (served : List (Lcid × List UInt8)) : Prop where
  sdus : gathered.sdus = lengthsOf served
  total : gathered.total = (sdusData served).length
  placed : load gathered.buff 0 gathered.total = sdusData served

theorem Holds.ask {gathered : Gathered} {served : List (Lcid × List UInt8)}
    (holds : gathered.Holds served) (lcid : Lcid) (size : Int) {pos : Nat}
    (behind : pos = gathered.total) (octets : List UInt8) :
    (gathered.ask lcid size pos octets).Holds (served ++ [(lcid, octets)]) := by
  constructor
  · simp [Gathered.ask, holds.sdus, lengthsOf]
  · simp [Gathered.ask, holds.total, sdusData]
  · show load (store gathered.buff pos octets) 0 (gathered.total + octets.length) = _
    rw [behind, load_store_behind, holds.placed]
    simp [sdusData]

structure Reached (gathered : Gathered) (info : SchedulingInfo)
    (served : List (Lcid × List UInt8)) (requests : List (Lcid × Int))
    (dcchHeaderLen dcch1HeaderLen dtchHeaderLen : Nat) : Prop where
  holds : gathered.Holds served
  info : gathered.info = info
  announced : gathered.announced = requests
  dcch : gathered.dcchHeaderLen = dcchHeaderLen
  dcch1 : gathered.dcch1HeaderLen = dcch1HeaderLen
  dtch : gathered.dtchHeaderLen = dtchHeaderLen

variable {gathered : Gathered} {info : SchedulingInfo} {served : List (Lcid × List UInt8)}
  {requests : List (Lcid × Int)} {d e t : Nat}

theorem Reached.askDcch (reached : gathered.Reached info [] requests d e t) (room : Int)
    (rlc : RlcAnswers) {asked : Bool} (status : info.notEmpty .dcch = asked) :
    (gathered.askDcch room rlc).Reached
      (if asked then info.updateBsr .dcch (info.lcgid .dcch) (rlc.left .dcch) else info)
      (if asked then [(.dcch, rlc.octets .dcch)] else [])
      (requests ++ if asked then [(.dcch, room - d)] else []) (if asked then d else 0) e t := by
  obtain ⟨holds, rfl, rfl, rfl, rfl, rfl⟩ := reached
  unfold askDcch
  cases asked with
  | true =>
    rw [if_pos status]
    have answered := holds.ask .dcch (room - gathered.dcchHeaderLen) holds.total.symm
      (rlc.octets .dcch)
    exact ⟨{ answered with }, rfl, rfl, rfl, rfl, rfl⟩
  | false =>
    rw [if_neg (by simp [status])]
    exact ⟨{ holds with }, rfl, (List.append_nil _).symm, rfl, rfl, rfl⟩

theorem Reached.askDcch1 (reached : gathered.Reached info served requests d e t)
    (first : served.length ≤ 1) (room : Int) (rlc : RlcAnswers) {asked : Bool}
    (status : info.notEmpty .dcch1 = asked) :
    (gathered.askDcch1 room rlc).Reached info
      (served ++ if asked then [(.dcch1, rlc.octets .dcch1)] else [])
      (requests ++ if asked then [(.dcch1, room - d - e - (sdusData served).length)] else [])
      d (if asked then e else 0) t := by
  obtain ⟨holds, rfl, rfl, rfl, rfl, rfl⟩ := reached
  -- the length of the first SDU, if there is one, is all that has been fetched
  have pos : (gathered.sdus.head?.map (·.2)).getD 0 = gathered.total := by
    rw [holds.sdus, holds.total]
    rcases served with _ | ⟨sdu, _ | ⟨other, rest⟩⟩
    · rfl
    · simp [lengthsOf, sdusData]
    · simp at first
  unfold askDcch1
  cases asked with
  | true =>
    rw [if_pos status]
    refine ⟨holds.ask .dcch1 _ pos (rlc.octets .dcch1), rfl, ?_, rfl, rfl, rfl⟩
    rw [← holds.total]
    rfl
  | false =>
    rw [if_neg (by simp [status])]
    refine ⟨⟨?_, ?_, ?_⟩, rfl, (List.append_nil _).symm, rfl, rfl, rfl⟩
    · simpa using holds.sdus
    · simpa using holds.total
    · simpa using holds.placed

theorem Reached.askDtch (reached : gathered.Reached info served requests d e t) (room : Int)
    (rlc : RlcAnswers) {asked : Prop} [Decidable asked]
    (status : info.notEmpty .dtch ∧ 0 ≤ room - d - e - t - (sdusData served).length ↔ asked) :
    (gathered.askDtch room rlc).Reached
      (if asked then info.updateBsr .dtch (info.lcgid .dtch) (rlc.left .dtch) else info)
      (served ++ if asked then [(.dtch, rlc.octets .dtch)] else [])
      (requests ++ if asked then [(.dtch, room - d - e - t - (sdusData served).length)] else [])
      d e (if asked then if 128 ≤ (rlc.octets .dtch).length then 3 else 2 else 0) := by
  obtain ⟨holds, rfl, rfl, rfl, rfl, rfl⟩ := reached
  rw [← holds.total] at status
  unfold askDtch
  by_cases given : asked
  · simp only [if_pos (status.mpr given), if_pos given, ← holds.total]
    have answered := holds.ask .dtch (room - gathered.dcchHeaderLen - gathered.dcch1HeaderLen -
      gathered.dtchHeaderLen - gathered.total) rfl (rlc.octets .dtch)
    exact ⟨{ answered with }, rfl, rfl, rfl, rfl, rfl⟩
  · simp only [if_neg (mt status.mp given), if_neg given, List.append_nil]
    exact ⟨{ holds with }, rfl, rfl, rfl, rfl, rfl⟩

variable (gathered) in
theorem paddings {room : Int} (small : room < 65536) (enough : 0 ≤ gathered.remaining room)
    (behind : 2 < gathered.remaining room → 0 ≤ room - gathered.dcchHeaderLen -
      gathered.dcch1HeaderLen - gathered.dtchHeaderLen - gathered.total - 1) :
    (gathered.remaining room ≤ 2 ∧ (gathered.shortPadding room : Int) = gathered.remaining room ∧
      gathered.postPadding room = 0) ∨
    (2 < gathered.remaining room ∧ gathered.shortPadding room = 0 ∧
      (gathered.postPadding room : Int) = room - gathered.dcchHeaderLen -
        gathered.dcch1HeaderLen - gathered.dtchHeaderLen - gathered.total - 1) := by
  unfold shortPadding postPadding
  by_cases little : gathered.remaining room ≤ 2
  · rw [if_pos little, if_pos little]
    exact .inl ⟨little, by omega, rfl⟩
  · rw [if_neg little, if_neg little]
    exact .inr ⟨Int.not_le.mp little, rfl, by omega⟩

/-- The padding that is chosen, and the length of the header with it. `cut` and
`full` are the guesses of the subheaders of the SDUs, with the last one cut and
in full. -/
theorem Reached.padded (reached : gathered.Reached info served requests d e t)
    {room : Int} {buflen reserved : Nat} (granted : room = (buflen : Int) - reserved)
    (range : buflen < 65536) {before : List (Lcid × Nat)} {last : Lcid × Nat}
    (shape : lengthsOf served = before ++ [last]) {cut : Nat}
    (trimmed : cut = (if t = 0 ∧ 0 < d then 1 else d) + e + if t = 0 then 0 else 1)
    (enough : reserved + cut + (sdusData served).length ≤ buflen)
    (behind : reserved + cut + (sdusData served).length + 2 < buflen →
      reserved + (d + e + t) + (sdusData served).length + 1 ≤ buflen) (elements : List Element) :
    let short := gathered.shortPadding room
    let post := gathered.postPadding room
    ∃ left, buflen = left + reserved + cut + (sdusData served).length ∧
      (left ≤ 2 ∧ short = left ∧ post = 0 ∨
        2 < left ∧ short = 0 ∧ post + (d + e + t) + 1 = left + cut) ∧
      subheaderOctets elements (lengthsOf served) short post =
        short + elements.length + (before.map fun sdu => sduSize sdu.2).sum + 1 +
          if 0 < post then sduSize last.2 else 0 := by
  obtain ⟨holds, rfl, rfl, rfl, rfl, rfl⟩ := reached
  have remains : gathered.remaining room = room - cut - (sdusData served).length := by
    rw [remaining, holds.total, trimmed]
    push_cast
    omega
  have total := holds.total
  have small : room < 65536 := by omega
  have padding := gathered.paddings small (by omega) (by omega)
  refine ⟨buflen - (reserved + cut + (sdusData served).length), by omega, ?_, ?_⟩
  · rcases padding with ⟨little, front, none⟩ | ⟨much, none, back⟩
    · exact .inl ⟨by omega, by omega, none⟩
    · exact .inr ⟨by omega, none, by omega⟩
  · rw [shape, subheaderOctets_eq]

end Gathered

namespace UeMac

variable (ue : UeMac) (rlc : RlcAnswers) (buff : Nat → UInt8) (buflen : Nat)

def dcchSdu : List (Lcid × List UInt8) :=
  if ue.info.notEmpty .dcch then [(.dcch, rlc.octets .dcch)] else []

def dcch1Sdu : List (Lcid × List UInt8) :=
  if ue.info.notEmpty .dcch1 then [(.dcch1, rlc.octets .dcch1)] else []

def dtchRoom : Int :=
  ue.room buflen - (if ue.info.notEmpty .dcch then 2 else 0 : Nat) -
    (if ue.info.notEmpty .dcch1 then 2 else 0 : Nat) - (if buflen > 128 then 3 else 2 : Nat) -
    (sdusData (ue.dcchSdu rlc ++ ue.dcch1Sdu rlc)).length

def AsksDtch : Prop := ue.info.notEmpty .dtch ∧ 0 ≤ ue.dtchRoom rlc buflen

instance : Decidable (ue.AsksDtch rlc buflen) :=
  inferInstanceAs (Decidable (_ ∧ _))

def dtchSdu : List (Lcid × List UInt8) :=
  if ue.AsksDtch rlc buflen then [(.dtch, rlc.octets .dtch)] else []

def served : List (Lcid × List UInt8) :=
  ue.dcchSdu rlc ++ ue.dcch1Sdu rlc ++ ue.dtchSdu rlc buflen

def requests : List (Lcid × Int) :=
  (if ue.info.notEmpty .dcch then [(.dcch, ue.room buflen - (2 : Nat))] else []) ++
    (if ue.info.notEmpty .dcch1 then
      [(.dcch1, ue.room buflen - (if ue.info.notEmpty .dcch then 2 else 0 : Nat) - (2 : Nat) -
        (sdusData (ue.dcchSdu rlc)).length)] else []) ++
    if ue.AsksDtch rlc buflen then [(.dtch, ue.dtchRoom rlc buflen)] else []

def infoAfterDcch : SchedulingInfo :=
  if ue.info.notEmpty .dcch then ue.info.updateBsr .dcch (ue.info.lcgid .dcch) (rlc.left .dcch)
  else ue.info

def infoAfter : SchedulingInfo :=
  if ue.AsksDtch rlc buflen then
    (ue.infoAfterDcch rlc).updateBsr .dtch ((ue.infoAfterDcch rlc).lcgid .dtch) (rlc.left .dtch)
  else ue.infoAfterDcch rlc

theorem notEmpty_infoAfterDcch {lcid : Lcid} (different : lcid ≠ .dcch) :
    (ue.infoAfterDcch rlc).notEmpty lcid = ue.info.notEmpty lcid := by
  unfold infoAfterDcch
  split
  next => exact SchedulingInfo.notEmpty_updateBsr _ different _ _
  next => rfl

theorem gather_spec :
    (ue.gather rlc buff buflen).Reached (ue.infoAfter rlc buflen) (ue.served rlc buflen)
      (ue.requests rlc buflen) (if ue.info.notEmpty .dcch then 2 else 0)
      (if ue.info.notEmpty .dcch1 then 2 else 0)
      (if ue.AsksDtch rlc buflen then if 128 ≤ (rlc.octets .dtch).length then 3 else 2 else 0) := by
  have start : (⟨ue.info, buff, 0, [], [], 2, 2, if buflen > 128 then 3 else 2⟩ :
      Gathered).Reached ue.info [] [] 2 2 (if buflen > 128 then 3 else 2) :=
    ⟨⟨rfl, rfl, rfl⟩, rfl, rfl, rfl, rfl, rfl⟩
  have one : (ue.dcchSdu rlc).length ≤ 1 := by
    unfold dcchSdu
    split <;> simp
  have first := start.askDcch (ue.room buflen) rlc rfl
  have second := first.askDcch1 one (ue.room buflen) rlc
    (ue.notEmpty_infoAfterDcch rlc (by decide))
  have status : (ue.infoAfterDcch rlc).notEmpty .dtch ∧ 0 ≤ ue.dtchRoom rlc buflen ↔
      ue.AsksDtch rlc buflen := by
    rw [ue.notEmpty_infoAfterDcch rlc (by decide : Lcid.dtch ≠ .dcch)]
    rfl
  exact second.askDtch (ue.room buflen) rlc status

end UeMac

def thirdOctet (length : Nat) : Nat := if length < 128 then 0 else 1

theorem thirdOctet_le (length : Nat) : thirdOctet length ≤ 1 := by
  unfold thirdOctet
  split <;> decide

section Conditions

variable (left reserved written : Nat)

def DcchFits : Prop := left ≤ 2 → written = reserved ∧ reserved ≠ 5

def DcchsFit (first second : Nat) : Prop :=
  if left ≤ 2 then written = reserved ∧ reserved ≠ 5 ∧ first < 128
  else ¬ (left = 3 ∧ written = reserved ∧ 128 ≤ first ∧ 128 ≤ second)

/-- DTCH at the end, behind SDUs whose subheaders are `longer` octets longer than
guessed. -/
def DtchFits (longer third : Nat) : Prop :=
  if left ≤ 2 then written ≠ 5 ∧ written + longer = reserved
  else ¬ (left = 3 ∧ 128 ≤ third) ∧ written + longer + thirdOctet third + 2 ≤ reserved + left

end Conditions

/-- When a grant of `buflen` octets carries SDUs of these lengths, if `phr`
octets are used for a power headroom, and `reserved` octets are kept for a buffer
status report of which `written` are used. The first argument of each condition is
what remains of the grant when the last subheader is cut. -/
def GrantFits (buflen phr reserved written : Nat) (dcch dcch1 dtch : Option Nat) : Prop :=
  match dcch, dcch1, dtch with
  | none, none, none => True
  | some first, none, none =>
    DcchFits (buflen - (phr + reserved + 1 + first)) reserved written
  | none, some second, none => 3 ≤ buflen - (phr + reserved + 2 + second)
  | some first, some second, none =>
    DcchsFit (buflen - (phr + reserved + 3 + first + second)) reserved written first second
  | first, second, some third =>
    let headers := first.elim 0 (fun _ => 2) + second.elim 0 fun _ => 2
    DtchFits
      (buflen - (phr + reserved + headers + 1 + first.getD 0 + second.getD 0 + third))
      reserved written (first.elim 0 thirdOctet + second.elim 0 thirdOctet) third

theorem grantFits_dtch (buflen phr reserved written : Nat) (first second : Option Nat)
    (third : Nat) :
    GrantFits buflen phr reserved written first second (some third) ↔
      DtchFits (buflen - (phr + reserved +
          (first.elim 0 (fun _ => 2) + second.elim 0 fun _ => 2) + 1 + first.getD 0 +
          second.getD 0 + third))
        reserved written (first.elim 0 thirdOctet + second.elim 0 thirdOctet) third := by
  cases first <;> cases second <;> rfl

namespace UeMac

variable (ue : UeMac) (rlc : RlcAnswers) (buflen : Nat)

def bsrWritten : Nat :=
  if ue.bsrCeLen buflen = 1 ∧ 1 ≤ (ue.infoAfter rlc buflen).activeGroups then 2
  else if ue.bsrCeLen buflen = 4 ∧ 2 ≤ (ue.infoAfter rlc buflen).activeGroups then 5
  else 0

def lengthOf (lcid : Lcid) : Option Nat :=
  if ue.info.notEmpty lcid then some (rlc.octets lcid).length else none

def Fits : Prop :=
  GrantFits buflen ue.phrLen (ue.bsrLen buflen) (ue.bsrWritten rlc buflen)
    (ue.lengthOf rlc .dcch) (ue.lengthOf rlc .dcch1)
    (if ue.AsksDtch rlc buflen then some (rlc.octets .dtch).length else none)

def elements (phr : Fin 64) : List Element :=
  ulschElements (if ue.phrReportingActive then some (UInt8.ofNat phr) else none) none
    ((ue.infoAfter rlc buflen).report (ue.bsrCeLen buflen))

theorem elements_spec (phr : Fin 64) :
    let elements := ue.elements rlc buflen phr
    ∃ subheaders data counted, elements.length = ue.phrLen / 2 + subheaders ∧
      (elementsData elements).length = ue.phrLen / 2 + data ∧
      elementLengths ulschRules (elements.map (·.1)) = ue.phrLen / 2 + counted ∧
      (ue.bsrWritten rlc buflen = 0 ∧ subheaders = 0 ∧ data = 0 ∧ counted = 0 ∨
        ue.bsrWritten rlc buflen = 2 ∧ subheaders = 1 ∧ data = 1 ∧ counted = 1 ∧
          ue.bsrLen buflen = 2 ∨
        ue.bsrWritten rlc buflen = 5 ∧ subheaders = 1 ∧ data = 4 ∧ counted = 3 ∧
          ue.bsrLen buflen = 5) := by
  have known : ue.bsrCeLen buflen = 0 ∨ ue.bsrCeLen buflen = 1 ∨ ue.bsrCeLen buflen = 4 :=
    SchedulingInfo.getBsrLen_cases ue.info (((buflen : Int) - ue.phrLen) % 65536).toNat
  have headroom : (ulschRules.elementSize .powerHeadroom).toNat = 1 := rfl
  have parts : ∀ report : Option Bsr,
      let elements := ulschElements (if ue.phrReportingActive then some (UInt8.ofNat phr) else none)
        none report
      elements.length = ue.phrLen / 2 + report.elim 0 (fun _ => 1) ∧
        (elementsData elements).length =
          ue.phrLen / 2 + report.elim 0 (fun bsr => bsr.element.2.length) ∧
        elementLengths ulschRules (elements.map (·.1)) =
          ue.phrLen / 2 + report.elim 0 fun bsr =>
            (ulschRules.elementSize bsr.element.1).toNat := by
    intro report
    cases phr : ue.phrReportingActive <;> cases report <;>
      simp [ulschElements, phrLen, phr, elementsData, elementLengths, headroom, add_comm]
  obtain ⟨count, data, counted⟩ := parts ((ue.infoAfter rlc buflen).report (ue.bsrCeLen buflen))
  refine ⟨_, _, _, count, data, counted, ?_⟩
  rcases (ue.infoAfter rlc buflen).report_cases known with
    ⟨bsr, made, reserved, active⟩ | ⟨bsr, made, reserved, active⟩ | ⟨made, because⟩
  · rw [made]
    exact .inr
      (.inl ⟨by simp [bsrWritten, reserved, active], rfl, rfl, rfl, by simp [bsrLen, reserved]⟩)
  · rw [made]
    exact .inr
      (.inr ⟨by simp [bsrWritten, reserved, active], rfl, rfl, rfl, by simp [bsrLen, reserved]⟩)
  · rw [made]
    refine .inl ⟨?_, rfl, rfl, rfl⟩
    unfold bsrWritten
    rw [if_neg (by omega), if_neg (by omega)]

theorem requests_served :
    (ue.requests rlc buflen).map (fun request => (request.1, rlc.octets request.1)) =
      ue.served rlc buflen := by
  unfold requests served dcchSdu dcch1Sdu dtchSdu
  split_ifs <;> rfl

def Answered : Prop :=
  ∀ request ∈ ue.requests rlc buflen,
    1 ≤ (rlc.octets request.1).length ∧ ((rlc.octets request.1).length : Int) ≤ request.2

variable {ue rlc buflen} in
theorem Answered.lengths (answered : ue.Answered rlc buflen) :
    (ue.info.notEmpty .dcch → 1 ≤ (rlc.octets .dcch).length ∧
      ((rlc.octets .dcch).length : Int) ≤ ue.room buflen - 2) ∧
    (ue.info.notEmpty .dcch1 → 1 ≤ (rlc.octets .dcch1).length ∧
      ((rlc.octets .dcch1).length : Int) ≤
        ue.room buflen - (if ue.info.notEmpty .dcch then 2 else 0 : Nat) - 2 -
          (sdusData (ue.dcchSdu rlc)).length) ∧
    (ue.AsksDtch rlc buflen → 1 ≤ (rlc.octets .dtch).length ∧
      ((rlc.octets .dtch).length : Int) ≤ ue.dtchRoom rlc buflen) := by
  refine ⟨fun asked => ?_, fun asked => ?_, fun asked => ?_⟩
  · exact answered (.dcch, _) (by simp [requests, asked])
  · exact answered (.dcch1, _) (by simp [requests, asked])
  · exact answered (.dtch, ue.dtchRoom rlc buflen) (by simp [requests, asked])

end UeMac

/-- A guess of the subheaders of the SDUs, `cut` octets with the last one cut and
`full` octets in full, against their real octets: `before` the last one, and
`last`. -/
def GuessFits (left reserved written cut full before last : Nat) : Prop :=
  if left ≤ 2 then written ≠ 5 ∧ before + 1 + written = reserved + cut
  else if full + 1 < cut + left then written + before + last + 1 ≤ reserved + cut + left
  else written ≠ 5 ∧ before + 1 + written = reserved + cut + left

section Guess

variable {buflen left reserved written phr subheaders data counted cut full before last total short
  post size : Nat}

theorem guessFits_iff (whole : buflen = left + reserved + phr + cut + total)
    (even : phr = 0 ∨ phr = 2)
    (reports : written = 0 ∧ subheaders = 0 ∧ data = 0 ∧ counted = 0 ∨
      written = 2 ∧ subheaders = 1 ∧ data = 1 ∧ counted = 1 ∧ reserved = 2 ∨
      written = 5 ∧ subheaders = 1 ∧ data = 4 ∧ counted = 3 ∧ reserved = 5)
    (padding : left ≤ 2 ∧ short = left ∧ post = 0 ∨
      2 < left ∧ short = 0 ∧ post + full + 1 = left + cut)
    (length : size = short + (phr / 2 + subheaders) + before + 1 + if 0 < post then last else 0) :
    (size + (phr / 2 + data) + total ≤ buflen ∧
      (post = 0 → buflen = size + (phr / 2 + counted) + total)) ↔
      GuessFits left reserved written cut full before last := by
  unfold GuessFits
  rcases padding with ⟨little, rfl, rfl⟩ | ⟨much, rfl, behind⟩
  · rw [if_pos little]
    simp only [lt_irrefl, if_false] at length
    omega
  · rw [if_neg (not_le.mpr much)]
    by_cases post : 0 < post
    · rw [if_pos (by omega)]
      rw [if_pos post] at length
      omega
    · rw [if_neg (by omega)]
      rw [if_neg post] at length
      omega

theorem sduSize_eq (length : Nat) : sduSize length = 2 + thirdOctet length := by
  unfold sduSize thirdOctet
  split <;> rfl

variable (less : written ≤ reserved)

include less

theorem guessFits_dcch (first : Nat) :
    GuessFits left reserved written 1 2 0 (sduSize first) ↔ DcchFits left reserved written := by
  unfold GuessFits DcchFits
  rw [sduSize_eq]
  have third := thirdOctet_le first
  split_ifs <;> omega

theorem guessFits_dcch1 (second : Nat) :
    GuessFits left reserved written 2 2 0 (sduSize second) ↔ 3 ≤ left := by
  unfold GuessFits
  rw [sduSize_eq]
  have third := thirdOctet_le second
  split_ifs <;> omega

theorem guessFits_dcchs (part : written = 0 ∨ written = reserved) (none : reserved ≠ 1)
    (first second : Nat) :
    GuessFits left reserved written 3 4 (sduSize first) (sduSize second) ↔
      DcchsFit left reserved written first second := by
  unfold GuessFits DcchsFit sduSize
  split_ifs <;> omega

theorem guessFits_dtch {headers longer third : Nat} (few : longer ≤ 2) :
    GuessFits left reserved written (headers + 1) (headers + if 128 ≤ third then 3 else 2)
        (headers + longer) (sduSize third) ↔
      DtchFits left reserved written longer third := by
  unfold GuessFits DtchFits sduSize thirdOctet
  split_ifs <;> omega

end Guess

namespace UeMac

variable (ue : UeMac) (rlc : RlcAnswers) (buflen : Nat)

def Padded (elements : List Element) (short post : Nat) : Prop :=
  ∃ left cut full before last,
    buflen = left + ue.bsrLen buflen + ue.phrLen + cut +
      (sdusData (ue.served rlc buflen)).length ∧
    (left ≤ 2 ∧ short = left ∧ post = 0 ∨ 2 < left ∧ short = 0 ∧ post + full + 1 = left + cut) ∧
    subheaderOctets elements (lengthsOf (ue.served rlc buflen)) short post =
      short + elements.length + before + 1 + (if 0 < post then last else 0) ∧
    (GuessFits left (ue.bsrLen buflen) (ue.bsrWritten rlc buflen) cut full before last ↔
      ue.Fits rlc buflen)

theorem granted_room :
    ue.room buflen = (buflen : Int) - (ue.bsrLen buflen + ue.phrLen : Nat) := by
  show (buflen : Int) - ue.bsrLen buflen - ue.phrLen = _
  omega

def guessed : Nat :=
  (ue.lengthOf rlc .dcch).elim 0 (fun _ => 2) + (ue.lengthOf rlc .dcch1).elim 0 fun _ => 2

def longer : Nat :=
  (ue.lengthOf rlc .dcch).elim 0 thirdOctet + (ue.lengthOf rlc .dcch1).elim 0 thirdOctet

theorem guessed_eq :
    ue.guessed rlc = (if ue.info.notEmpty .dcch then 2 else 0) +
      if ue.info.notEmpty .dcch1 then 2 else 0 := by
  unfold guessed lengthOf
  split_ifs <;> rfl

theorem longer_le : ue.longer rlc ≤ 2 := by
  have first := thirdOctet_le (rlc.octets .dcch).length
  have second := thirdOctet_le (rlc.octets .dcch1).length
  unfold longer lengthOf
  split_ifs <;> simp only [Option.elim] <;> omega

theorem sum_sizes_before :
    ((lengthsOf (ue.dcchSdu rlc ++ ue.dcch1Sdu rlc)).map fun sdu => sduSize sdu.2).sum =
      ue.guessed rlc + ue.longer rlc := by
  unfold dcchSdu dcch1Sdu guessed longer lengthOf
  split_ifs <;> simp [lengthsOf, sduSize_eq]
  omega

theorem length_before :
    (sdusData (ue.dcchSdu rlc ++ ue.dcch1Sdu rlc)).length =
      (ue.lengthOf rlc .dcch).getD 0 + (ue.lengthOf rlc .dcch1).getD 0 := by
  unfold dcchSdu dcch1Sdu lengthOf
  split_ifs <;> simp [sdusData]

theorem bsrWritten_le : ue.bsrWritten rlc buflen ≤ ue.bsrLen buflen := by
  unfold bsrWritten bsrLen
  split_ifs <;> omega

variable {ue rlc buflen} in
theorem padded_dtch (answered : ue.Answered rlc buflen) (range : buflen < 65536)
    (asked : ue.AsksDtch rlc buflen) (buff : Nat → UInt8) (elements : List Element) :
    ue.Padded rlc buflen elements ((ue.gather rlc buff buflen).shortPadding (ue.room buflen))
      ((ue.gather rlc buff buflen).postPadding (ue.room buflen)) := by
  have reached := ue.gather_spec rlc buff buflen
  have granted := ue.granted_room buflen
  have dtch := (answered.lengths.2.2 asked).2
  rw [if_pos asked] at reached
  have shape : ue.served rlc buflen =
      (ue.dcchSdu rlc ++ ue.dcch1Sdu rlc) ++ [(.dtch, rlc.octets .dtch)] := by
    simp [served, dtchSdu, asked]
  have total : (sdusData (ue.served rlc buflen)).length =
      (sdusData (ue.dcchSdu rlc ++ ue.dcch1Sdu rlc)).length + (rlc.octets .dtch).length := by
    rw [shape]
    simp [sdusData, add_assoc]
  have lengths : lengthsOf (ue.served rlc buflen) =
      lengthsOf (ue.dcchSdu rlc ++ ue.dcch1Sdu rlc) ++ [(.dtch, (rlc.octets .dtch).length)] := by
    rw [shape]
    simp [lengthsOf]
  have least : 2 ≤ (if buflen > 128 then 3 else 2) := by split <;> decide
  -- the subheader of DTCH is adjusted to the SDU, and then cut
  obtain ⟨header, adjusted⟩ : ∃ header, (if 128 ≤ (rlc.octets .dtch).length then 3 else 2) =
      header := ⟨_, rfl⟩
  have bounds : 2 ≤ header ∧ header ≤ 3 := by
    rw [← adjusted]
    split <;> decide
  rw [adjusted] at reached
  have headers := ue.guessed_eq rlc
  have trimmed : ue.guessed rlc + 1 =
      (if header = 0 ∧ 0 < (if ue.info.notEmpty .dcch then 2 else 0) then 1
        else if ue.info.notEmpty .dcch then 2 else 0) +
      (if ue.info.notEmpty .dcch1 then 2 else 0) + if header = 0 then 0 else 1 := by
    have written : header ≠ 0 := by omega
    simp [written, headers]
  unfold dtchRoom at dtch
  obtain ⟨left, whole, padding, length⟩ :=
    reached.padded granted range lengths trimmed (by omega) (by omega) elements
  refine ⟨left, _, _, _, _, by omega, padding, length, ?_⟩
  have fits := ue.bsrWritten_le rlc buflen
  rw [total, length_before] at whole
  have remains : buflen - (ue.phrLen + ue.bsrLen buflen + ue.guessed rlc + 1 +
      (ue.lengthOf rlc .dcch).getD 0 + (ue.lengthOf rlc .dcch1).getD 0 +
      (rlc.octets .dtch).length) = left := by omega
  unfold guessed at remains
  rw [Fits, if_pos asked, grantFits_dtch, remains, sum_sizes_before, ← adjusted, ← headers]
  exact guessFits_dtch fits (ue.longer_le rlc)

theorem bsrWritten_cases :
    ue.bsrWritten rlc buflen = 0 ∨ ue.bsrWritten rlc buflen = ue.bsrLen buflen := by
  unfold bsrWritten bsrLen
  split_ifs <;> omega

theorem bsrLen_ne_one : ue.bsrLen buflen ≠ 1 := by
  unfold bsrLen
  split_ifs <;> omega

variable {ue rlc buflen} in
theorem padded_signalling (answered : ue.Answered rlc buflen) (range : buflen < 65536)
    (unasked : ¬ ue.AsksDtch rlc buflen) (something : ue.served rlc buflen ≠ [])
    (buff : Nat → UInt8) (elements : List Element) :
    ue.Padded rlc buflen elements ((ue.gather rlc buff buflen).shortPadding (ue.room buflen))
      ((ue.gather rlc buff buflen).postPadding (ue.room buflen)) := by
  have reached := ue.gather_spec rlc buff buflen
  have granted := ue.granted_room buflen
  have fits := ue.bsrWritten_le rlc buflen
  obtain ⟨dcch, dcch1, -⟩ := answered.lengths
  rw [if_neg unasked] at reached
  unfold Padded Fits lengthOf
  rw [if_neg unasked]
  -- the subheader of DCCH is cut, also where that of DCCH1 is the last one
  cases first : ue.info.notEmpty .dcch <;> cases second : ue.info.notEmpty .dcch1
  · exact absurd (by simp [served, dcchSdu, dcch1Sdu, dtchSdu, first, second, unasked]) something
  · have shape : ue.served rlc buflen = [(.dcch1, rlc.octets .dcch1)] := by
      simp [served, dcchSdu, dcch1Sdu, dtchSdu, first, second, unasked]
    have total : (sdusData (ue.served rlc buflen)).length = (rlc.octets .dcch1).length := by
      simp [shape, sdusData]
    have lengths : lengthsOf (ue.served rlc buflen) =
        [] ++ [(.dcch1, (rlc.octets .dcch1).length)] := by simp [shape, lengthsOf]
    have bound := dcch1 second
    simp only [first, second, dcchSdu, Bool.false_eq_true, if_false, if_true] at reached bound
    obtain ⟨left, whole, padding, length⟩ := reached.padded granted range lengths (rfl : 2 = _)
      (by omega) (by omega) elements
    refine ⟨left, 2, 2, _, _, by omega, padding, length, ?_⟩
    have remains :
        left = buflen - (ue.phrLen + ue.bsrLen buflen + 2 + (rlc.octets .dcch1).length) := by
      omega
    rw [remains]
    exact guessFits_dcch1 fits _
  · have shape : ue.served rlc buflen = [(.dcch, rlc.octets .dcch)] := by
      simp [served, dcchSdu, dcch1Sdu, dtchSdu, first, second, unasked]
    have total : (sdusData (ue.served rlc buflen)).length = (rlc.octets .dcch).length := by
      simp [shape, sdusData]
    have lengths : lengthsOf (ue.served rlc buflen) =
        [] ++ [(.dcch, (rlc.octets .dcch).length)] := by simp [shape, lengthsOf]
    have bound := dcch first
    simp only [first, second, Bool.false_eq_true, if_false, if_true] at reached
    obtain ⟨left, whole, padding, length⟩ := reached.padded granted range lengths (rfl : 1 = _)
      (by omega) (by omega) elements
    refine ⟨left, 1, 2, _, _, by omega, padding, length, ?_⟩
    have remains :
        left = buflen - (ue.phrLen + ue.bsrLen buflen + 1 + (rlc.octets .dcch).length) := by
      omega
    rw [remains]
    exact guessFits_dcch fits _
  · have shape : ue.served rlc buflen =
        [(.dcch, rlc.octets .dcch), (.dcch1, rlc.octets .dcch1)] := by
      simp [served, dcchSdu, dcch1Sdu, dtchSdu, first, second, unasked]
    have total : (sdusData (ue.served rlc buflen)).length =
        (rlc.octets .dcch).length + (rlc.octets .dcch1).length := by simp [shape, sdusData]
    have lengths : lengthsOf (ue.served rlc buflen) =
        [(.dcch, (rlc.octets .dcch).length)] ++ [(.dcch1, (rlc.octets .dcch1).length)] := by
      simp [shape, lengthsOf]
    have bound := dcch1 second
    have before :
        (sdusData [(Lcid.dcch, rlc.octets .dcch)]).length = (rlc.octets .dcch).length := by
      simp [sdusData]
    simp only [first, second, dcchSdu, if_true] at reached bound
    obtain ⟨left, whole, padding, length⟩ := reached.padded granted range lengths (rfl : 3 = _)
      (by omega) (by omega) elements
    refine ⟨left, 3, 4, _, _, by omega, padding, length, ?_⟩
    have remains : left = buflen - (ue.phrLen + ue.bsrLen buflen + 3 + (rlc.octets .dcch).length +
        (rlc.octets .dcch1).length) := by omega
    rw [remains]
    exact guessFits_dcchs fits (ue.bsrWritten_cases rlc buflen) (ue.bsrLen_ne_one buflen) _ _

variable {ue rlc buflen} in
theorem padded (answered : ue.Answered rlc buflen) (range : buflen < 65536)
    (something : ue.served rlc buflen ≠ []) (buff : Nat → UInt8) (elements : List Element) :
    ue.Padded rlc buflen elements ((ue.gather rlc buff buflen).shortPadding (ue.room buflen))
      ((ue.gather rlc buff buflen).postPadding (ue.room buflen)) := by
  by_cases asked : ue.AsksDtch rlc buflen
  · exact padded_dtch answered range asked buff elements
  · exact padded_signalling answered range asked something buff elements

theorem lcid_served : ∀ sdu ∈ ue.served rlc buflen, sdu.1.val ≤ 3 := by
  unfold served dcchSdu dcch1Sdu dtchSdu
  split_ifs <;> simp [Lcid.dcch, Lcid.dcch1, Lcid.dtch]

theorem length_served : (ue.served rlc buflen).length ≤ nbRbMax := by
  unfold served dcchSdu dcch1Sdu dtchSdu
  split_ifs <;> exact of_decide_eq_true rfl

end UeMac

/-- The SDUs fit into `ulsch_buff` and into the grant, lie in the block in the
order in which RLC was asked, and are found by the parser of the eNB. -/
def UlschBlock.Carries (block : UlschBlock) (rlc : RlcAnswers) (buflen : Nat) : Prop :=
  let sdus := block.announced.map fun request => (request.1, rlc.octets request.1)
  block.sduLengthTotal ≤ maxUlschPayloadBytes ∧
    block.payloadOffset + block.sduLengthTotal ≤ buflen ∧
    load block.memory block.payloadOffset block.sduLengthTotal = sdus.flatMap (·.2) ∧
    ∃ parsed, parseUlschHeader (load block.memory 0 buflen) (UInt16.ofNat buflen) = .ok parsed ∧
      parsed.sdus = sdus.map fun sdu => (sdu.1, UInt16.ofNat sdu.2.length)

theorem ueGetSdu_eq (ue : UeMac) (rlc : RlcAnswers) (phr : Fin 64)
    (memory buff filling : Nat → UInt8) (buflen : Nat) :
    let gathered := ue.gather rlc buff buflen
    let header := generate memory (ue.elements rlc buflen phr) (lengthsOf (ue.served rlc buflen))
      (gathered.shortPadding (ue.room buflen)) (gathered.postPadding (ue.room buflen))
    (ueGetSdu ue rlc phr memory buff filling buflen).memory =
        fillBlock header gathered.buff (sdusData (ue.served rlc buflen)).length buflen filling ∧
      (ueGetSdu ue rlc phr memory buff filling buflen).payloadOffset = header.returned.toNat := by
  intro gathered header
  obtain ⟨⟨sdus, total, -⟩, info, -, -, -, -⟩ := ue.gather_spec rlc buff buflen
  have same : generateUlschHeader memory gathered.sdus (gathered.shortPadding (ue.room buflen))
      (if ue.phrReportingActive then some (UInt8.ofNat phr) else none) none
      (gathered.info.report (ue.bsrCeLen buflen)) (gathered.postPadding (ue.room buflen)) =
      header := by
    rw [generateUlschHeader_eq, sdus, info]
    rfl
  rw [← same, ← total]
  exact ⟨rfl, rfl⟩

theorem ueGetSdu_carries_iff (ue : UeMac) (rlc : RlcAnswers) (phr : Fin 64)
    (memory buff filling : Nat → UInt8) {buflen : Nat} (range : buflen < 65536)
    (asked : (ueGetSdu ue rlc phr memory buff filling buflen).announced ≠ [])
    (answered : ∀ request ∈ (ueGetSdu ue rlc phr memory buff filling buflen).announced,
      1 ≤ (rlc.octets request.1).length ∧ ((rlc.octets request.1).length : Int) ≤ request.2) :
    (ueGetSdu ue rlc phr memory buff filling buflen).Carries rlc buflen ↔
      (sdusData (ue.served rlc buflen)).length ≤ maxUlschPayloadBytes ∧ ue.Fits rlc buflen := by
  obtain ⟨⟨sdus, total, placed⟩, info, announced, -, -, -⟩ := ue.gather_spec rlc buff buflen
  have requests : (ueGetSdu ue rlc phr memory buff filling buflen).announced =
      ue.requests rlc buflen := announced
  rw [requests] at asked answered
  have something : ue.served rlc buflen ≠ [] := by
    rw [← ue.requests_served]
    simpa using asked
  unfold UlschBlock.Carries
  rw [requests, ue.requests_served]
  have length : (ueGetSdu ue rlc phr memory buff filling buflen).sduLengthTotal =
      (sdusData (ue.served rlc buflen)).length := total
  rw [length]
  refine and_congr_right fun small => ?_
  obtain ⟨stored, offset⟩ := ueGetSdu_eq ue rlc phr memory buff filling buflen
  obtain ⟨left, cut, full, before, last, whole, padding, size, guess⟩ :=
    UeMac.padded answered range something buff (ue.elements rlc buflen phr)
  obtain ⟨subheaders, data, counted, count, written, found, reports⟩ :=
    ue.elements_spec rlc buflen phr
  have few : (ue.elements rlc buflen phr).length ≤ 3 ∧
      (elementsData (ue.elements rlc buflen phr)).length ≤ 7 := length_ulschElements _ _ _
  have even : ue.phrLen = 0 ∨ ue.phrLen = 2 := by
    unfold UeMac.phrLen
    split <;> simp
  have short : (ue.gather rlc buff buflen).shortPadding (ue.room buflen) ≤ 2 := by
    rcases padding with ⟨little, front, _⟩ | ⟨_, none, _⟩ <;> omega
  rw [total] at placed
  have admissible : Admissible ulschRules (ue.elements rlc buflen phr) :=
    admissible_ulschElements _ _ _
  have carried : Carried ulschRules (lengthsOf (ue.served rlc buflen)) :=
    carried_of_channels (by decide) (ue.lcid_served rlc buflen)
      (lt_of_le_of_lt small (by decide))
  obtain ⟨-, carries⟩ := carries_iff (by decide) admissible
    (le_trans few.1 (by decide)) (lt_of_le_of_lt few.2 (by decide))
    (by rw [found, written]; omega) carried
    (ue.length_served rlc buflen) something short
    ((ue.gather rlc buff buflen).postPadding (ue.room buflen)) memory filling placed range
  rw [count] at size
  rw [written, found, guessFits_iff whole even reports padding size, guess] at carries
  rw [stored, offset]
  exact carries

def UeMac.quiet (channels : List Lcid) : UeMac where
  info :=
    { bsr := fun _ => 0
      bsrBytes := fun _ => 0
      notEmpty := fun lcid => channels.contains lcid
      lcgid := fun _ => 0 }
  phrReportingActive := false

def RlcAnswers.ofLengths (lengths : Lcid → Nat) : RlcAnswers where
  octets := fun lcid => List.replicate (lengths lcid) 0
  left := fun _ => 0

/-- Five octets of DCCH in a grant of 20 octets. -/
theorem ueGetSdu_carries_dcch :
    let rlc := RlcAnswers.ofLengths fun _ => 5
    (ueGetSdu (.quiet [.dcch]) rlc 0 (fun _ => 0) (fun _ => 0) (fun _ => 0) 20).Carries rlc 20 :=
  (ueGetSdu_carries_iff (.quiet [.dcch]) (.ofLengths fun _ => 5) 0 (fun _ => 0) (fun _ => 0)
    (fun _ => 0) (by decide) (by decide) (by decide)).mpr
    ⟨by decide, fun little => absurd little (by decide)⟩

theorem UlschBlock.not_carries {block : UlschBlock} {rlc : RlcAnswers} {buflen : Nat}
    (parsed : Parsed)
    (accepted : parseUlschHeader (load block.memory 0 buflen) (UInt16.ofNat buflen) = .ok parsed)
    (different : parsed.sdus ≠ block.announced.map fun request =>
      (request.1, UInt16.ofNat (rlc.octets request.1).length)) :
    ¬ block.Carries rlc buflen := by
  rintro ⟨-, -, -, other, found, same⟩
  cases accepted.symm.trans found
  exact different (by simpa [Function.comp_def] using same)

/-- Eight octets of DCCH1 in ten are found as nine. With 200 octets of DCCH and eight of
DTCH in 213, the SDUs end behind the grant. -/
theorem ueGetSdu_not_carries :
    let eight := RlcAnswers.ofLengths fun _ => 8
    let alone := ueGetSdu (.quiet [.dcch1]) eight 0 (fun _ => 0) (fun _ => 0) (fun _ => 0) 10
    let rlc := RlcAnswers.ofLengths fun lcid => if lcid = .dcch then 200 else 8
    let both := ueGetSdu (.quiet [.dcch, .dtch]) rlc 0 (fun _ => 0) (fun _ => 0) (fun _ => 0) 213
    alone.announced = [(.dcch1, 8)] ∧ ¬ alone.Carries eight 10 ∧
      both.announced = [(.dcch, 211), (.dtch, 8)] ∧ ¬ both.Carries rlc 213 := by
  intro eight alone rlc both
  refine ⟨by decide, ?_, by decide +kernel, fun carries => ?_⟩
  · exact UlschBlock.not_carries ⟨[], [(.dcch1, 9)], 0, 1⟩ (by decide) (by decide)
  · exact absurd carries.2.1 (by decide +kernel)

end OpenAir.Mac
