import OpenAir.Mac.BlockProperties
import OpenAir.Mac.UlschReception

/-! A block for UL-SCH as the eNB reads it. The UE writes a C-RNTI with the low
octet first and the eNB takes the high one first; a long buffer status report is
written in four octets and read from three. -/

set_option autoImplicit false

namespace OpenAir.Mac

open OpenAir.Base List Bsr Nat Element

def Bsr.element : Bsr → Element
  | .truncated bsr => (.truncatedBsr, [bsr.octet])
  | .short bsr => (.shortBsr, [bsr.octet])
  | .long bsr => (.longBsr, bsr.octets)

def ulschElements (powerHeadroom : Option UInt8) (crnti : Option UInt16) (bsr : Option Bsr) :
    List Element :=
  powerHeadroom.toList.map (fun octet => (.powerHeadroom, [octet])) ++
    crnti.toList.map (fun rnti => (.crnti, littleEndian rnti)) ++ bsr.toList.map element

theorem generateUlschHeader_eq (memory : Nat → UInt8) (sdus : List (Lcid × Nat))
    (shortPadding : Nat) (powerHeadroom : Option UInt8) (crnti : Option UInt16)
    (bsr : Option Bsr) (postPadding : Nat) :
    generateUlschHeader memory sdus shortPadding powerHeadroom crnti bsr postPadding =
      generate memory (ulschElements powerHeadroom crnti bsr) sdus shortPadding postPadding := by
  cases powerHeadroom <;> cases crnti <;> rcases bsr with _ | bsr | bsr | bsr <;> rfl

def readElements : List Lcid → List UInt8 → List ElementRead × List UInt8
  | [], payload => ([], payload)
  | lcid :: lcids, payload =>
    let element := readElement lcid payload
    let later := readElements lcids (payload.drop element.2)
    (element.1 :: later.1, later.2)

theorem readElements_append (first second : List Lcid) (payload : List UInt8) :
    readElements (first ++ second) payload =
      ((readElements first payload).1 ++ (readElements second (readElements first payload).2).1,
        (readElements second (readElements first payload).2).2) := by
  induction first generalizing payload with
  | nil => rfl
  | cons lcid lcids ih => simp [readElements, ih]

namespace Reception

theorem applyElement_payload (frame : UInt32) (state : Reception) (payload : List UInt8)
    (read : ElementRead) :
    ({ state with payload := payload } : Reception).applyElement frame read =
      (fun next => { next with payload := payload }) <$> state.applyElement frame read := by
  cases read with
  | powerHeadroom level =>
    unfold applyElement
    cases state.ueId <;> rfl
  | _ => rfl

theorem foldlM_applyElement_payload (frame : UInt32) (reads : List ElementRead)
    (state : Reception) (payload : List UInt8) :
    reads.foldlM (applyElement frame) { state with payload := payload } =
      (fun next => { next with payload := payload }) <$>
        reads.foldlM (applyElement frame) state := by
  induction reads generalizing state with
  | nil => rfl
  | cons read reads ih =>
    rw [foldlM_cons, foldlM_cons, applyElement_payload]
    cases state.applyElement frame read with
    | error fault => rfl
    | ok next => exact ih next

/-- The loop applies the elements it reads, and leaves the rest of the payload. -/
theorem foldlM_processElement (frame : UInt32) (lcids : List Lcid) (state : Reception) :
    lcids.foldlM (processElement frame) state =
      (fun next => { next with payload := (readElements lcids state.payload).2 }) <$>
        (readElements lcids state.payload).1.foldlM (applyElement frame) state := by
  induction lcids generalizing state with
  | nil => rfl
  | cons lcid lcids ih =>
    rw [foldlM_cons, readElements, foldlM_cons, processElement]
    cases state.applyElement frame (readElement lcid state.payload).1 with
    | error fault => rfl
    | ok next =>
      show lcids.foldlM (processElement frame) { next with payload := _ } = _
      rw [ih, foldlM_applyElement_payload]
      rw [Functor.map_map]
      rfl

end Reception

theorem BsrShort.toNat_octet (bsr : BsrShort) :
    bsr.octet.toNat = bsr.lcgid * 64 + bsr.bufferSize := by
  rw [BsrShort.octet, UInt8.toNat_ofNat']
  omega

theorem readElement_bsr {lcid : Lcid} (report : lcid = .truncatedBsr ∨ lcid = .shortBsr)
    (bsr : BsrShort) (rest : List UInt8) :
    readElement lcid (bsr.octet :: rest) = (.bsr bsr, 1) := by
  have group : (bsr.lcgid.val * 64 + bsr.bufferSize.val) / 64 % 4 = bsr.lcgid.val := by omega
  have size : (bsr.lcgid.val * 64 + bsr.bufferSize.val) % 64 = bsr.bufferSize.val := by omega
  have other : lcid ≠ .powerHeadroom ∧ lcid ≠ .crnti := by
    rcases report with rfl | rfl <;> decide
  simp [readElement, if_neg other.1, if_neg other.2, if_pos report, BsrShort.toNat_octet, sixBits,
    group, size]

def swapped (rnti : UInt16) : UInt16 := UInt16.ofNat (rnti.toNat % 256 * 256 + rnti.toNat / 256)

theorem readElement_crnti (rnti : UInt16) (rest : List UInt8) :
    readElement .crnti (littleEndian rnti ++ rest) = (.crnti (swapped rnti), 2) := by
  have low : rnti.toUInt8.toNat = rnti.toNat % 256 := UInt16.toNat_toUInt8 rnti
  have high : (rnti >>> 8).toUInt8.toNat = rnti.toNat / 256 := by
    have range := rnti.toNat_lt
    rw [UInt16.toNat_toUInt8, UInt16.toNat_shiftRight]
    simp only [UInt16.reduceToNat, reduceMod, shiftRight_eq_div_pow, reducePow]
    omega
  simp [readElement, littleEndian, low, high, swapped, Lcid.crnti, Lcid.powerHeadroom]

theorem swapped_eq_iff (rnti : UInt16) :
    swapped rnti = rnti ↔ rnti.toNat / 256 = rnti.toNat % 256 := by
  have range := rnti.toNat_lt
  have value : (swapped rnti).toNat = rnti.toNat % 256 * 256 + rnti.toNat / 256 := by
    rw [swapped, UInt16.toNat_ofNat']
    omega
  rw [← UInt16.toNat_inj]
  omega

def Bsr.read : Bsr → ElementRead
  | .truncated bsr => .bsr bsr
  | .short bsr => .bsr bsr
  | .long bsr => .longBsr bsr

def writtenElements (powerHeadroom : Option UInt8) (crnti : Option UInt16) (bsr : Option Bsr) :
    List ElementRead :=
  powerHeadroom.toList.map (fun octet => .powerHeadroom (sixBits octet.toNat)) ++
    crnti.toList.map .crnti ++ bsr.toList.map read

theorem readElements_powerHeadroom (powerHeadroom : Option UInt8) (rest : List UInt8) :
    readElements (powerHeadroom.toList.map fun _ => .powerHeadroom) (powerHeadroom.toList ++ rest) =
      (powerHeadroom.toList.map (fun octet => .powerHeadroom (sixBits octet.toNat)), rest) := by
  cases powerHeadroom <;> rfl

theorem readElements_crnti (crnti : Option UInt16) (rest : List UInt8) :
    readElements (crnti.toList.map fun _ => .crnti) (crnti.toList.flatMap littleEndian ++ rest) =
      (crnti.toList.map (fun rnti => .crnti (swapped rnti)), rest) := by
  cases crnti with
  | none => rfl
  | some rnti =>
    have read := readElement_crnti rnti rest
    simp only [Option.toList_some, map_cons, map_nil, flatMap_cons,
      flatMap_nil, append_nil, readElements, read]
    simp [littleEndian]

def Bsr.IsLong (bsr : Bsr) : Prop := ∃ report, bsr = .long report

theorem readElements_bsr {bsr : Option Bsr} (short : ∀ report ∈ bsr, ¬ report.IsLong)
    (rest : List UInt8) :
    readElements (bsr.toList.map fun report => report.element.1)
        (bsr.toList.flatMap (fun report => report.element.2) ++ rest) =
      (bsr.toList.map Bsr.read, rest) := by
  rcases bsr with _ | report | report | report
  · rfl
  · simp [Bsr.element, Bsr.read, readElements, readElement_bsr (.inl rfl)]
  · simp [Bsr.element, Bsr.read, readElements, readElement_bsr (.inr rfl)]
  · exact absurd ⟨report, rfl⟩ (short (.long report) rfl)

/-- The fourth octet of a long report is left over. -/
theorem readElements_long (report : BsrLong) (rest : List UInt8) :
    (readElements [(long report).element.1] ((long report).element.2 ++ rest)).2 =
      0 :: rest := rfl

section Elements

variable (powerHeadroom : Option UInt8) (crnti : Option UInt16) (bsr : Option Bsr)

theorem lcids_ulschElements :
    (ulschElements powerHeadroom crnti bsr).map (·.1) =
      (powerHeadroom.toList.map (fun _ => .powerHeadroom) ++ crnti.toList.map fun _ => .crnti) ++
        bsr.toList.map fun report => report.element.1 := by
  simp [ulschElements, Function.comp_def]

theorem elementsData_ulschElements :
    elementsData (ulschElements powerHeadroom crnti bsr) =
      (powerHeadroom.toList ++ crnti.toList.flatMap littleEndian) ++
        bsr.toList.flatMap fun report => report.element.2 := by
  cases powerHeadroom <;> cases crnti <;> cases bsr <;> simp [ulschElements, elementsData]

theorem readElements_ulschElements (payload : List UInt8) :
    let data := bsr.toList.flatMap (fun report => report.element.2) ++ payload
    let last := readElements (bsr.toList.map fun report => report.element.1) data
    readElements ((ulschElements powerHeadroom crnti bsr).map (·.1))
        (elementsData (ulschElements powerHeadroom crnti bsr) ++ payload) =
      (powerHeadroom.toList.map (fun octet => .powerHeadroom (sixBits octet.toNat)) ++
        crnti.toList.map (fun rnti => .crnti (swapped rnti)) ++ last.1, last.2) := by
  intro data last
  simp only [lcids_ulschElements, elementsData_ulschElements, append_assoc,
    readElements_append, readElements_powerHeadroom, readElements_crnti]
  rfl

theorem admissible_ulschElements :
    Admissible ulschRules (ulschElements powerHeadroom crnti bsr) := by
  simp only [Admissible, ulschElements, forall_mem_append]
  refine ⟨⟨?_, ?_⟩, ?_⟩
  · cases powerHeadroom <;> simp [ulschRules, Lcid.extendedPowerHeadroom, Lcid.powerHeadroom,
      Lcid.shortPadding, Lcid.longBsr, Lcid.crnti]
  · cases crnti <;> simp [ulschRules, Lcid.extendedPowerHeadroom, Lcid.crnti, Lcid.shortPadding,
      Lcid.longBsr]
  · rcases bsr with _ | report | report | report <;>
      simp [element, ulschRules, Lcid.extendedPowerHeadroom, Lcid.truncatedBsr, Lcid.shortBsr,
        Lcid.longBsr, Lcid.shortPadding, Lcid.crnti]

variable {bsr} in
theorem fits_ulschElements (short : ∀ report ∈ bsr, ¬ report.IsLong) :
    ∀ element ∈ ulschElements powerHeadroom crnti bsr, Fits ulschRules element := by
  simp only [ulschElements, forall_mem_append]
  refine ⟨⟨?_, ?_⟩, ?_⟩
  · cases powerHeadroom <;> simp [Fits, ulschRules, Lcid.extendedPowerHeadroom,
      Lcid.powerHeadroom, Lcid.shortPadding, Lcid.longBsr, Lcid.crnti]
  · cases crnti <;> simp [Fits, ulschRules, Lcid.extendedPowerHeadroom, Lcid.crnti,
      Lcid.shortPadding, Lcid.longBsr, littleEndian]
  · rcases bsr with _ | report | report | report
    · simp
    · simp [Fits, element, ulschRules, Lcid.extendedPowerHeadroom, Lcid.truncatedBsr,
        Lcid.longBsr, Lcid.shortPadding, Lcid.crnti]
    · simp [Fits, element, ulschRules, Lcid.extendedPowerHeadroom, Lcid.shortBsr,
        Lcid.longBsr, Lcid.shortPadding, Lcid.crnti]
    · exact absurd ⟨report, rfl⟩ (short (.long report) rfl)

theorem length_ulschElements :
    (ulschElements powerHeadroom crnti bsr).length ≤ 3 ∧
      (elementsData (ulschElements powerHeadroom crnti bsr)).length ≤ 7 := by
  cases powerHeadroom <;> cases crnti <;> rcases bsr with _ | report | report | report <;>
    simp [ulschElements, elementsData, element, BsrLong.octets, littleEndian]

end Elements

/-- The eNB finds the SDUs, reads the control elements that were written, and is
then at the first octet of the SDUs. -/
def ReadBack (block payload : List UInt8) (sdus : List (Lcid × List UInt8))
    (powerHeadroom : Option UInt8) (crnti : Option UInt16) (bsr : Option Bsr) : Prop :=
  ∃ parsed, parseUlschHeader block (UInt16.ofNat block.length) = .ok parsed ∧
    parsed.sdus = sdus.map (fun sdu => (sdu.1, UInt16.ofNat sdu.2.length)) ∧
    readElements parsed.ces (block.drop parsed.offset) =
      (writtenElements powerHeadroom crnti bsr, payload)

theorem ulsch_read_back_iff (memory : Nat → UInt8) {sdus : List (Lcid × List UInt8)}
    (count : sdus.length ≤ 8)
    (sized : ∀ sdu ∈ sdus, sdu.1.val < 25 ∧ 1 ≤ sdu.2.length ∧ sdu.2.length ≤ 32767)
    (powerHeadroom : Option UInt8) (crnti : Option UInt16) (bsr : Option Bsr)
    (something : sdus ≠ [] ∨ powerHeadroom ≠ none ∨ crnti ≠ none ∨ bsr ≠ none)
    {shortPadding postPadding : Nat} {tail : List UInt8}
    (padding : shortPadding ≤ 2 ∧ postPadding = 0 ∧ tail = [] ∨
      shortPadding = 0 ∧ 0 < postPadding) :
    let header := generateUlschHeader memory (sdus.map fun sdu => (sdu.1, sdu.2.length))
      shortPadding powerHeadroom crnti bsr postPadding
    let payload := sdus.flatMap (·.2) ++ tail
    ReadBack (header.octets ++ payload) payload sdus powerHeadroom crnti bsr ↔
      (∀ report, bsr ≠ some (.long report)) ∧
        ∀ rnti, crnti = some rnti → rnti.toNat / 256 = rnti.toNat % 256 := by
  intro header payload
  have padded : ulschRules.firstElement ≤ Lcid.shortPadding := by decide
  have few := length_ulschElements powerHeadroom crnti bsr
  have carried : Carried ulschRules (lengthsOf sdus) := by
    intro entry mem
    obtain ⟨sdu, present, rfl⟩ := List.mem_map.mp mem
    exact ⟨(sized sdu present).1, lt_succ_of_le (sized sdu present).2.2⟩
  have present : ulschElements powerHeadroom crnti bsr ≠ [] ∨ sdus ≠ [] := by
    rcases something with some | headroom | identity | report
    · exact .inr some
    · exact .inl (by cases powerHeadroom <;> simp_all [ulschElements])
    · exact .inl (by cases crnti <;> simp_all [ulschElements])
    · exact .inl (by cases bsr <;> simp_all [ulschElements])
  have short : shortPadding ≤ 2 ∧ (postPadding = 0 → tail = []) := by
    cases padding with
    | inl before => exact ⟨before.1, fun _ => before.2.2⟩
    | inr behind => exact ⟨by simp [behind.1], fun none => absurd none (ne_of_gt behind.2)⟩
  have reads := readElements_ulschElements powerHeadroom crnti bsr payload
  constructor
  · rintro ⟨parsed, accepted, _, back⟩
    obtain ⟨_, same, found, ces, _, dropped, _⟩ :=
      parse_generated memory padded (admissible_ulschElements powerHeadroom crnti bsr)
        (le_trans few.1 (by decide)) carried
        (by simpa [lengthsOf] using le_trans count (by decide))
        (present.imp_right (by simp [lengthsOf])) short.1 postPadding
        (lt_of_le_of_lt few.2 (by decide)) (UInt16.ofNat (header.octets ++ payload).length)
        payload
    rw [← generateUlschHeader_eq] at found dropped
    cases found.symm.trans accepted
    have behind : (header.octets ++ payload).drop parsed.offset = _ := dropped
    rw [ces, behind, reads] at back
    obtain ⟨elements, rest⟩ := Prod.mk.inj back
    constructor
    · rintro report rfl
      have longer := congrArg List.length rest
      exact absurd longer (by simp [readElements_long])
    · rintro rnti rfl
      rw [← swapped_eq_iff]
      simp only [writtenElements, append_assoc, append_cancel_left_eq,
        Option.toList_some, map_cons, cons_append, List.cons.injEq,
        ElementRead.crnti.injEq] at elements
      exact elements.1
  · rintro ⟨noLong, symmetric⟩
    have notLong : ∀ report ∈ bsr, ¬ report.IsLong := by
      rintro _ given ⟨report, rfl⟩
      exact noLong report given
    have crntiRead : crnti.toList.map (fun rnti => ElementRead.crnti (swapped rnti)) =
        crnti.toList.map .crnti := by
      refine map_congr_left fun rnti mem => ?_
      rw [(swapped_eq_iff rnti).mpr (symmetric rnti (by simpa using mem))]
    obtain ⟨parsed, accepted, found, ces, dropped⟩ :=
      generated_round_trip memory padded (fits_ulschElements powerHeadroom crnti notLong)
        (le_trans few.1 (by decide)) carried (le_trans count (by decide)) present short.1
        (lt_of_le_of_lt few.2 (by decide)) short.2
    rw [← generateUlschHeader_eq] at accepted dropped
    have behind : (header.octets ++ payload).drop parsed.offset = _ := dropped
    refine ⟨parsed, accepted, ?_, ?_⟩
    · simpa [lengthsOf, recorded, Function.comp_def] using found
    · rw [ces, behind]
      refine reads.trans ?_
      rw [readElements_bsr notLong, crntiRead]
      rfl

theorem ulsch_read_back_symmetric :
    let sdus : List (Lcid × List UInt8) := [(.dtch, [1, 2, 3])]
    let header := generateUlschHeader (fun _ => 0) (sdus.map fun sdu => (sdu.1, sdu.2.length)) 1
      (some 40) (some 0x1212) (some (.short ⟨2, 5⟩)) 0
    let payload := sdus.flatMap (·.2) ++ []
    ReadBack (header.octets ++ payload) payload sdus (some 40) (some 0x1212)
      (some (.short ⟨2, 5⟩)) :=
  (ulsch_read_back_iff (fun _ => 0) (by decide) (by decide) (some 40) (some 0x1212)
    (some (.short ⟨2, 5⟩)) (.inl (by decide)) (.inl ⟨by decide, rfl, rfl⟩)).mpr
    ⟨nofun, fun _ same => by cases same; decide⟩

theorem not_readBack {block payload : List UInt8} {sdus : List (Lcid × List UInt8)}
    {powerHeadroom : Option UInt8} {crnti : Option UInt16} {bsr : Option Bsr} (parsed : Parsed)
    (accepted : parseUlschHeader block (UInt16.ofNat block.length) = .ok parsed)
    (different : readElements parsed.ces (block.drop parsed.offset) ≠
      (writtenElements powerHeadroom crnti bsr, payload)) :
    ¬ ReadBack block payload sdus powerHeadroom crnti bsr := by
  rintro ⟨other, found, _, back⟩
  cases accepted.symm.trans found
  exact different back

/-- The C-RNTI 0x1234 is read as 0x3412; after a long report the SDU seems to be
one octet longer, and to start one octet early. -/
theorem ulsch_not_read_back :
    let withCrnti := generateUlschHeader (fun _ => 0) [(.dtch, 3)] 0 none (some 0x1234) none 0
    let withReport := generateUlschHeader (fun _ => 0) [(.dtch, 3)] 0 none none
      (some (.long ⟨1, 2, 3, 4⟩)) 0
    ¬ ReadBack (withCrnti.octets ++ [1, 2, 3]) [1, 2, 3] [(.dtch, [1, 2, 3])] none (some 0x1234)
      none ∧
    ¬ ReadBack (withReport.octets ++ [1, 2, 3]) [1, 2, 3] [(.dtch, [1, 2, 3])] none none
      (some (.long ⟨1, 2, 3, 4⟩)) :=
  ⟨not_readBack ⟨[.crnti], [(.dtch, 3)], 2, 2⟩ (by decide) (by decide),
    not_readBack ⟨[.longBsr], [(.dtch, 4)], 3, 2⟩ (by decide) (by decide)⟩

end OpenAir.Mac
