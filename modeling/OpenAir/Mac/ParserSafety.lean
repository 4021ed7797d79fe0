import OpenAir.Mac.UlschProperties

/-! The parsers on any block. They keep to the block, to their arrays and to the
length of the block exactly when the block is well formed, and `rx_sdu` writes
no entry of negative index exactly when each power headroom comes from a known
UE. -/

set_option autoImplicit false

namespace OpenAir.Mac

open List Reception

def occupied (rules : ParserRules) (parsed : Parsed) : Nat :=
  parsed.offset + elementLengths rules parsed.ces + (parsed.sdus.map fun sdu => sdu.2.toNat).sum

/-- The block starts with a header whose subheaders are those of the format, no
more of them than there is room for, and it is as long as they say. -/
structure WellFormed (rules : ParserRules) (block : List UInt8) (finished : List Subheader)
    (last : Subheader) (rest : List UInt8) : Prop where
  header : block = headerOctets finished last rest
  valid : ∀ subheader ∈ finished ++ [last], subheader.Valid rules
  known : ∀ lcid ∈ announcedElements (finished ++ [last]), (rules.elementLength lcid).isSome
  fewElements : (announcedElements (finished ++ [last])).length ≤ maxNumCe
  fewSdus : (announcedSdus (finished ++ [last])).length ≤ nbRbMax
  within : (chain finished).length + 1 +
    elementLengths rules (announcedElements (finished ++ [last])) +
    ((announcedSdus finished).map (·.2)).sum ≤ block.length

theorem knows_iff (rules : ParserRules) (subheaders : List Subheader) :
    (∀ subheader ∈ subheaders, rules.Knows subheader) ↔
      ∀ lcid ∈ announcedElements subheaders, (rules.elementLength lcid).isSome := by
  simp only [ParserRules.Knows, announcedElements, mem_filterMap]
  constructor
  · rintro known lcid ⟨subheader, mem, found⟩
    exact known subheader mem lcid found
  · exact fun known subheader mem lcid found => known lcid ⟨subheader, mem, found⟩

theorem value_lt (field : LengthField) : field.value < 32768 := by
  cases field with
  | none => exact Nat.zero_lt_succ _
  | short length => exact Nat.lt_of_lt_of_le length.isLt (by decide)
  | long length => exact length.isLt

theorem sum_recorded (subheaders : List Subheader) :
    (((announcedSdus subheaders).map recorded).map fun sdu => sdu.2.toNat).sum =
      ((announcedSdus subheaders).map (·.2)).sum := by
  rw [List.map_map]
  refine congrArg List.sum (map_congr_left fun sdu mem => ?_)
  obtain ⟨subheader, _, found⟩ := mem_filterMap.mp mem
  have small : sdu.2 < 32768 := by
    unfold Subheader.sdu? at found
    split at found
    next => cases found
    next =>
      cases found
      exact value_lt _
  show (UInt16.ofNat sdu.2).toNat = sdu.2
  rw [UInt16.toNat_ofNat']
  omega

variable {rules : ParserRules} {finished : List Subheader} {block : List UInt8}

theorem impliedLength_eq {total left : Nat} (whole : total = (chain finished).length + 1 +
      elementLengths rules (announcedElements finished) +
      ((announcedSdus finished).map (·.2)).sum + left) :
    impliedLength rules (UInt16.ofNat total) finished = UInt16.ofNat left := by
  have lengths : ((announcedSdus finished).map fun sdu => UInt16.ofNat sdu.2).sum =
      UInt16.ofNat ((announcedSdus finished).map (·.2)).sum := by
    induction announcedSdus finished with
    | nil => rfl
    | cons sdu sdus ih => simp [ih]
  rw [impliedLength, elementOctets, sum_elementSize, whole]
  simp only [UInt16.ofNat_add]
  grind

theorem occupied_announced (rules : ParserRules) (tbLength : UInt16) (finished : List Subheader)
    (last : Subheader) :
    occupied rules (announced rules tbLength finished last) =
      (chain finished).length + 1 + elementLengths rules (announcedElements (finished ++ [last])) +
        ((announcedSdus finished).map (·.2)).sum +
        if last.lengthField = .none then 0 else (impliedLength rules tbLength finished).toNat := by
  have sums := sum_recorded finished
  unfold occupied announced
  split <;> simp_all [Nat.add_assoc]

theorem wellFormed_of_parsed {parsed : Parsed}
    (accepted : parseSubheaders rules (UInt16.ofNat block.length) block .empty = .ok parsed)
    (fits : occupied rules parsed ≤ block.length) :
    ∃ finished last rest, WellFormed rules block finished last rest ∧
      parsed = announced rules (UInt16.ofNat block.length) finished last := by
  obtain ⟨finished, last, rest, header, valid, validLast⟩ := hasHeader_of_parsed accepted
  refine ⟨finished, last, rest, ?_⟩
  have decided : parseSubheaders rules (UInt16.ofNat block.length)
      (headerOctets finished last rest) .empty = .ok parsed := header ▸ accepted
  obtain ⟨same, bounds, known⟩ := (parse_eq_ok valid validLast).mp decided
  rw [same, occupied_announced] at fits
  rw [same] at bounds
  refine ⟨⟨header, ?_, (knows_iff rules _).mp known, bounds.2, ?_, Nat.le_of_add_right_le fits⟩,
    same⟩
  · simpa [or_imp, forall_and] using ⟨valid, validLast⟩
  · rw [← length_announced_sdus rules (UInt16.ofNat block.length)]
    exact bounds.1

theorem WellFormed.parsed {rest : List UInt8} {last : Subheader}
    (formed : WellFormed rules block finished last rest) :
    parseSubheaders rules (UInt16.ofNat block.length) block .empty =
        .ok (announced rules (UInt16.ofNat block.length) finished last) ∧
      occupied rules (announced rules (UInt16.ofNat block.length) finished last) ≤
        block.length := by
  have valid := formed.valid
  constructor
  · have accepted : parseSubheaders rules (UInt16.ofNat block.length)
        (headerOctets finished last rest) .empty = .ok _ :=
      (parse_eq_ok (fun subheader mem => valid subheader (mem_append_left _ mem))
        (valid last (by simp))).mpr
        ⟨rfl, ⟨(length_announced_sdus ..).trans_le formed.fewSdus, formed.fewElements⟩,
          (knows_iff rules _).mpr formed.known⟩
    rw [← formed.header] at accepted
    exact accepted
  · rw [occupied_announced]
    split
    next => exact formed.within
    next sdu =>
      have element : last.element? = none := by simp [Subheader.element?, sdu]
      have elements : announcedElements (finished ++ [last]) = announcedElements finished := by
        simp [announcedElements, element]
      obtain ⟨left, whole⟩ := Nat.exists_eq_add_of_le formed.within
      rw [elements] at whole ⊢
      rw [impliedLength_eq whole, UInt16.toNat_ofNat']
      omega

/-- A parser keeps to its bounds exactly on the well-formed blocks. -/
theorem parse_safe_iff :
    (∃ parsed, parseSubheaders rules (UInt16.ofNat block.length) block .empty = .ok parsed ∧
      occupied rules parsed ≤ block.length) ↔
      ∃ finished last rest, WellFormed rules block finished last rest := by
  constructor
  · rintro ⟨parsed, accepted, fits⟩
    obtain ⟨finished, last, rest, formed, _⟩ := wellFormed_of_parsed accepted fits
    exact ⟨finished, last, rest, formed⟩
  · rintro ⟨finished, last, rest, formed⟩
    exact ⟨_, formed.parsed⟩

/-- The RNTI by which the UE is looked up after these control elements: that of
the block, or the last C-RNTI, in the order of the format. -/
def namedRnti (rnti : UInt16) : List Lcid → List UInt8 → UInt16
  | [], _ => rnti
  | lcid :: lcids, data =>
    if lcid = .crnti then
      namedRnti (UInt16.ofNat ((data.getD 0 0).toNat * 256 + (data.getD 1 0).toNat)) lcids
        (data.drop 2)
    else namedRnti rnti lcids (data.drop (ulschRules.elementSize lcid).toNat)

def HeadroomsKnown (ues : UeList) (rnti : UInt16) (lcids : List Lcid) (data : List UInt8) : Prop :=
  ∀ before after, lcids = before ++ .powerHeadroom :: after →
    ues.findUeId (namedRnti rnti before data) ≠ none

theorem namedRnti_cons (rnti : UInt16) (lcid : Lcid) (lcids : List Lcid) (data : List UInt8) :
    namedRnti rnti (lcid :: lcids) data =
      namedRnti (namedRnti rnti [lcid] data) lcids
        (data.drop (ulschRules.elementSize lcid).toNat) := by
  have size : (ulschRules.elementSize .crnti).toNat = 2 := rfl
  by_cases crnti : lcid = .crnti
  · simp [namedRnti, crnti, size]
  · simp [namedRnti, crnti]

theorem headroomsKnown_cons {ues : UeList} {rnti : UInt16} {lcid : Lcid} {lcids : List Lcid}
    {data : List UInt8} :
    HeadroomsKnown ues rnti (lcid :: lcids) data ↔
      (lcid = .powerHeadroom → ues.findUeId rnti ≠ none) ∧
        HeadroomsKnown ues (namedRnti rnti [lcid] data) lcids
          (data.drop (ulschRules.elementSize lcid).toNat) := by
  constructor
  · intro known
    constructor
    · rintro rfl
      exact known [] lcids rfl
    · rintro before after rfl
      rw [← namedRnti_cons]
      exact known (lcid :: before) after rfl
  · rintro ⟨head, tail⟩ before after same
    cases before with
    | nil =>
      obtain ⟨rfl, _⟩ := List.cons.inj same
      exact head rfl
    | cons first before =>
      obtain ⟨rfl, rest⟩ := List.cons.inj same
      rw [namedRnti_cons]
      exact tail before after rest

namespace UeList

@[simp] theorem findUeId_writeKnown (ues : UeList) (ueId : Option Nat)
    (change : UeEntry → UeEntry) : (ues.writeKnown ueId change).findUeId = ues.findUeId := by
  cases ueId <;> rfl

end UeList

namespace Reception

def Serves (find : UInt16 → Option Nat) (rnti : UInt16) (state : Reception) : Prop :=
  state.ues.findUeId = find ∧ state.ueId = find rnti

variable {lcid : Lcid} {rnti : UInt16} {state : Reception}

theorem known_ulschRules (known : (ulschRules.elementLength lcid).isSome) :
    lcid = .powerHeadroom ∨ lcid = .crnti ∨ (lcid = .truncatedBsr ∨ lcid = .shortBsr) ∨
      lcid = .longBsr := by
  revert lcid
  decide

theorem processElement_step (frame : UInt32) {find : UInt16 → Option Nat}
    (serves : state.Serves find rnti) (known : (ulschRules.elementLength lcid).isSome) :
    (lcid = .powerHeadroom ∧ find rnti = none ∧
      state.processElement frame lcid = .error .negativeIndex) ∨
    (lcid = .powerHeadroom → find rnti ≠ none) ∧
      ∃ next, state.processElement frame lcid = .ok next ∧
        next.Serves find (namedRnti rnti [lcid] state.payload) ∧
        next.payload = state.payload.drop (ulschRules.elementSize lcid).toNat := by
  obtain ⟨finds, ue⟩ := serves
  rcases known_ulschRules known with rfl | rfl | (rfl | rfl) | rfl
  · obtain ⟨ues, templates, ueId, flag, payload, delivered⟩ := state
    cases found : find rnti with
    | none =>
      cases ue.trans found
      exact .inl ⟨rfl, rfl, rfl⟩
    | some served =>
      cases ue.trans found
      exact .inr ⟨nofun, _, rfl, ⟨finds, found.symm⟩, rfl⟩
  · exact .inr ⟨nofun, _, rfl, ⟨by simp [finds], by rw [finds]; rfl⟩, rfl⟩
  · exact .inr ⟨nofun, _, rfl, ⟨by simp [finds], ue⟩, rfl⟩
  · exact .inr ⟨nofun, _, rfl, ⟨by simp [finds], ue⟩, rfl⟩
  · exact .inr ⟨nofun, _, rfl, ⟨by simp [finds], ue⟩, rfl⟩

theorem processElements_iff (frame : UInt32) {ues : UeList}
    (serves : state.Serves ues.findUeId rnti) {lcids : List Lcid}
    (known : ∀ lcid ∈ lcids, (ulschRules.elementLength lcid).isSome) :
    lcids.foldlM (processElement frame) state ≠ .error .negativeIndex ↔
      HeadroomsKnown ues rnti lcids state.payload := by
  induction lcids generalizing rnti state with
  | nil => exact iff_of_true nofun (by simp [HeadroomsKnown])
  | cons lcid lcids ih =>
    obtain ⟨knownHead, knownTail⟩ := forall_mem_cons.mp known
    rw [foldlM_cons, headroomsKnown_cons]
    rcases processElement_step frame serves knownHead with
      ⟨headroom, unknown, stopped⟩ | ⟨head, next, stepped, following, payload⟩
    · rw [stopped]
      exact iff_of_false (fun other => other rfl) fun both => both.1 headroom unknown
    · rw [stepped, ← payload]
      exact (ih following knownTail).trans ⟨fun tail => ⟨head, tail⟩, fun both => both.2⟩

theorem foldlM_fault {σ ι : Type} {step : σ → ι → Except Fault σ} {fault : Fault}
    (each : ∀ state input other, step state input = .error other → other = fault)
    {inputs : List ι} {state : σ} {other : Fault}
    (stopped : inputs.foldlM step state = .error other) : other = fault := by
  induction inputs generalizing state with
  | nil => cases stopped
  | cons input inputs ih =>
    rw [foldlM_cons] at stopped
    cases first : step state input with
    | error early =>
      rw [first] at stopped
      cases stopped
      exact each state input _ first
    | ok next =>
      rw [first] at stopped
      exact ih stopped

theorem terminateRa_fault (rnti : UInt16) (length : Nat) (state : Reception) (index : Nat)
    (fault : Fault) (stopped : terminateRa rnti length state index = .error fault) :
    fault = .processExit := by
  unfold terminateRa at stopped
  split at stopped
  next => cases stopped
  next template _ =>
    split at stopped
    next =>
      cases ue : state.ueId with
      | some _ => simp [ue, pure, Except.pure] at stopped
      | none =>
        cases added : state.ues.addNewUe template.rnti with
        | none =>
          simp only [ue, added] at stopped
          cases stopped
          rfl
        | some _ => simp [ue, added, pure, Except.pure] at stopped
    next => cases stopped

theorem processSduOf_fault (rnti : UInt16) (state : Reception) (sdu : Lcid × UInt16)
    (fault : Fault) (stopped : processSduOf rnti state sdu = .error fault) :
    fault = .processExit := by
  unfold processSduOf at stopped
  cases processed : state.processSdu rnti sdu.1 sdu.2 with
  | ok next => simp [processed, bind, Except.bind, pure, Except.pure] at stopped
  | error other =>
    rw [processed] at stopped
    cases stopped
    unfold processSdu at processed
    split at processed
    next =>
      split at processed
      next => cases processed
      next => exact foldlM_fault (terminateRa_fault rnti sdu.2.toNat) processed
    next =>
      split at processed
      next => split at processed <;> cases processed
      next =>
        split at processed
        next => split at processed <;> cases processed
        next => cases processed

end Reception

/-- After a header that is accepted only the control elements decide whether an
entry of negative index is written. -/
theorem rxSdu_iff (enb : Enb) (frame : UInt32) (rnti : UInt16) (harqPid : Nat)
    (msg3Flag : Option Bool) {parsed : Parsed}
    (accepted : parseUlschHeader block (UInt16.ofNat block.length) = .ok parsed)
    (known : ∀ lcid ∈ parsed.ces, (ulschRules.elementLength lcid).isSome) :
    rxSdu enb frame rnti (some block) harqPid msg3Flag ≠ .error .negativeIndex ↔
      HeadroomsKnown enb.ues rnti parsed.ces (block.drop parsed.offset) := by
  let ues := enb.ues.writeKnown (enb.ues.findUeId rnti) fun entry =>
    entry.inSync.clearScheduled harqPid
  let start : Reception :=
    ⟨ues, enb.raTemplates, enb.ues.findUeId rnti, msg3Flag, block.drop parsed.offset, []⟩
  have serves : start.Serves enb.ues.findUeId rnti :=
    ⟨UeList.findUeId_writeKnown .., rfl⟩
  have loop := processElements_iff frame serves known
  have unfolded : rxSdu enb frame rnti (some block) harqPid msg3Flag =
      parsed.ces.foldlM (processElement frame) start >>= fun state =>
        parsed.sdus.foldlM (processSduOf rnti) state >>= fun state =>
          if parsed.sdus = [] ∧ parsed.ces = [] then
            pure { state with msg3Flag := state.msg3Flag.map fun _ => false }
          else pure state := by
    simp only [rxSdu, accepted]
    rfl
  rw [← loop, unfolded]
  cases parsed.ces.foldlM (processElement frame) start with
  | error fault => exact Iff.rfl
  | ok state =>
    refine iff_of_true ?_ nofun
    cases sdus : parsed.sdus.foldlM (processSduOf rnti) state with
    | error fault =>
      have exit := foldlM_fault (processSduOf_fault rnti) sdus
      simp only [bind, Except.bind, sdus, exit]
      exact nofun
    | ok final =>
      simp only [bind, Except.bind, sdus]
      split <;> exact nofun

theorem mac_parsers_safe_iff (enb : Enb) (frame : UInt32) (rnti : UInt16) (harqPid : Nat)
    (msg3Flag : Option Bool) (block : List UInt8) :
    ((∃ parsed, parseUlschHeader block (UInt16.ofNat block.length) = .ok parsed ∧
        occupied ulschRules parsed ≤ block.length) ∧
      rxSdu enb frame rnti (some block) harqPid msg3Flag ≠ .error .negativeIndex ↔
      ∃ finished last rest, WellFormed ulschRules block finished last rest ∧
        HeadroomsKnown enb.ues rnti (announcedElements (finished ++ [last])) rest) ∧
    ((∃ parsed, parseHeader block (UInt16.ofNat block.length) = .ok parsed ∧
        occupied dlschRules parsed ≤ block.length) ↔
      ∃ finished last rest, WellFormed dlschRules block finished last rest) := by
  refine ⟨?_, parse_safe_iff⟩
  have behind : ∀ {finished : List Subheader} {last : Subheader} {rest : List UInt8},
      WellFormed ulschRules block finished last rest →
      block.drop (announced ulschRules (UInt16.ofNat block.length) finished last).offset =
        rest := by
    intro finished last rest formed
    rw [formed.header]
    show (chain finished ++ last.lastOctet :: rest).drop ((chain finished).length + 1) = rest
    rw [drop_append]
    simp
  constructor
  · rintro ⟨⟨parsed, accepted, fits⟩, received⟩
    obtain ⟨finished, last, rest, formed, rfl⟩ := wellFormed_of_parsed accepted fits
    have heard := (rxSdu_iff enb frame rnti harqPid msg3Flag accepted formed.known).mp received
    rw [behind formed] at heard
    exact ⟨finished, last, rest, formed, heard⟩
  · rintro ⟨finished, last, rest, formed, heard⟩
    obtain ⟨accepted, fits⟩ := formed.parsed
    refine ⟨⟨_, accepted, fits⟩, ?_⟩
    rw [rxSdu_iff enb frame rnti harqPid msg3Flag accepted formed.known, behind formed]
    exact heard

/-- A chain that does not end, an extended power headroom, 15 SDUs, a length
behind the block, and a power headroom when no UE is known. -/
theorem mac_parsers_not_safe :
    parseUlschHeader [0x21] 1 = .error .readPast ∧
    parseUlschHeader [25] 1 = .error .processExit ∧
    parseHeader ((List.replicate 14 [0x21, 0]).flatten ++ [1]) 29 = .error .writePast ∧
    parseHeader [0x21, 100, 1] 3 = .ok ⟨[], [(.dcch, 100), (.dcch, 65436)], 0, 3⟩ ∧
    ∀ entries, rxSdu ⟨⟨[], [], entries⟩, []⟩ 0 5 (some [26, 0]) 0 none = .error .negativeIndex :=
  ⟨by decide, by decide, by decide +kernel, by decide +kernel, fun _ => rfl⟩

end OpenAir.Mac
