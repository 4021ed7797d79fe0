import OpenAir.Mac.WriterProperties
import OpenAir.Mac.ParserProperties

/-! The two generators write their subheaders in one order: short padding,
control elements, SDUs, padding at the end. What a parser with given rules finds
in such a header. -/

set_option autoImplicit false

namespace OpenAir.Mac

open OpenAir.Base HeaderWriter List Subheader

abbrev Element := Lcid × List UInt8

def elementsData (elements : List Element) : List UInt8 := elements.flatMap (·.2)

def writeElement (writer : HeaderWriter) (element : Element) : HeaderWriter :=
  writer.controlElement element.1 element.2

def generate (memory : Nat → UInt8) (elements : List Element) (sdus : List (Lcid × Nat))
    (shortPadding postPadding : Nat) : Header :=
  let writer := elements.foldl writeElement ((start memory).paddingSubheaders shortPadding)
  let writer := sdus.foldl HeaderWriter.sduSubheader writer
  ((writer.close postPadding).copyElements).result

def fixedLcids (elements : List Element) (shortPadding : Nat) : List Lcid :=
  replicate shortPadding .shortPadding ++ elements.map (·.1)

def allSubheaders (elements : List Element) (sdus : List (Lcid × Nat))
    (shortPadding postPadding : Nat) : List Subheader :=
  ((fixedLcids elements shortPadding).map .fixed ++ sdus.map .sdu) ++ postSubheaders postPadding

theorem wrote_elements {lcids : List Lcid} {data : List UInt8} {writer : HeaderWriter}
    (wrote : Wrote (lcids.map .fixed) data writer) (elements : List Element) :
    Wrote ((lcids ++ elements.map (·.1)).map .fixed) (data ++ elementsData elements)
      (elements.foldl writeElement writer) := by
  induction elements generalizing lcids data writer with
  | nil => simpa [elementsData] using wrote
  | cons element elements ih =>
    have rest := ih (wrote.controlElement element.1 element.2)
    rw [foldl_cons, writeElement]
    simpa [elementsData] using rest

theorem size_le (subheader : Subheader) : subheader.size ≤ 3 := by
  unfold size
  cases subheader.lengthField <;> simp [LengthField.octets]

theorem length_chain_le (subheaders : List Subheader) :
    (chain subheaders).length ≤ 3 * subheaders.length := by
  induction subheaders with
  | nil => exact Nat.le_refl _
  | cons subheader subheaders ih =>
    have one := size_le subheader
    simp only [chain_cons, length_append, length_octets, length_cons]
    omega

variable {elements : List Element} {sdus : List (Lcid × Nat)} {shortPadding postPadding : Nat}
  {finished : List Subheader} {last : Subheader} {rules : ParserRules}

theorem generate_octets (memory : Nat → UInt8) (short : shortPadding ≤ 2)
    (something : elements ≠ [] ∨ sdus ≠ [])
    (whole : allSubheaders elements sdus shortPadding postPadding = finished ++ [last])
    (small : (headerOctets finished last (elementsData elements)).length < 256) :
    (generate memory elements sdus shortPadding postPadding).octets =
      headerOctets finished last (elementsData elements) := by
  have wrote := (wrote_elements (wrote_paddingSubheaders memory short) elements).sduSubheaders sdus
  refine wrote.octets ?_ whole small
  cases something with
  | inl present => simp [present]
  | inr present => simp [present]

def Admissible (rules : ParserRules) (elements : List Element) : Prop :=
  ∀ element ∈ elements, rules.firstElement ≤ element.1 ∧ element.1 ≠ .shortPadding ∧
    (rules.elementLength element.1).isSome

def Carried (rules : ParserRules) (sdus : List (Lcid × Nat)) : Prop :=
  ∀ sdu ∈ sdus, sdu.1.val < rules.firstElement ∧ sdu.2 < 32768

namespace Subheader

theorem element?_fixed (lcid : Lcid) :
    (fixed lcid).element? = if lcid = .shortPadding then none else some lcid := by
  simp [element?, fixed]

theorem sdu?_fixed (lcid : Lcid) : (fixed lcid).sdu? = none := rfl

theorem element?_sdu (carried : Lcid × Nat) : (sdu carried).element? = none :=
  if_neg fun both => LengthField.ofLength_ne_none _ both.1

theorem sdu?_sdu {carried : Lcid × Nat} (small : carried.2 < 32768) :
    (sdu carried).sdu? = some carried := by
  simp [sdu?, sdu, LengthField.ofLength_ne_none, LengthField.value_ofLength small]

end Subheader

@[simp] theorem announcedElements_append (first second : List Subheader) :
    announcedElements (first ++ second) = announcedElements first ++ announcedElements second :=
  filterMap_append

@[simp] theorem announcedSdus_append (first second : List Subheader) :
    announcedSdus (first ++ second) = announcedSdus first ++ announcedSdus second :=
  filterMap_append

theorem announcedElements_sdus (sdus : List (Lcid × Nat)) :
    announcedElements (sdus.map .sdu) = [] := by
  simp [announcedElements, filterMap_map, element?_sdu]

theorem announcedSdus_fixed (lcids : List Lcid) : announcedSdus (lcids.map .fixed) = [] := by
  simp [announcedSdus, filterMap_map, Function.comp_def, sdu?_fixed]

theorem announcedElements_fixed (lcids : List Lcid) :
    announcedElements (lcids.map .fixed) = lcids.filter (· ≠ .shortPadding) := by
  induction lcids with
  | nil => rfl
  | cons lcid lcids ih =>
    by_cases padding : lcid = .shortPadding
    · simpa [announcedElements, element?_fixed, padding] using ih
    · simpa [announcedElements, element?_fixed, padding] using ih

theorem announcedElements_all (admissible : Admissible rules elements) (sdus : List (Lcid × Nat))
    (shortPadding postPadding : Nat) :
    announcedElements (allSubheaders elements sdus shortPadding postPadding) =
      elements.map (·.1) := by
  have kept : (elements.map (·.1)).filter (· ≠ .shortPadding) = elements.map (·.1) := by
    rw [filter_eq_self]
    intro lcid mem
    obtain ⟨element, present, rfl⟩ := mem_map.mp mem
    simpa using (admissible element present).2.1
  have post : announcedElements (postSubheaders postPadding) = [] := by
    unfold postSubheaders
    split <;> rfl
  simp only [allSubheaders, fixedLcids, announcedElements_append, announcedElements_fixed,
    announcedElements_sdus, post, filter_append, kept, append_nil]
  simp

theorem announcedSdus_all (elements : List Element) (carried : Carried rules sdus)
    (shortPadding postPadding : Nat) :
    announcedSdus (allSubheaders elements sdus shortPadding postPadding) = sdus := by
  have same : announcedSdus (sdus.map .sdu) = sdus := by
    rw [announcedSdus, filterMap_map]
    calc sdus.filterMap (sdu? ∘ .sdu)
      _ = sdus.filterMap some :=
        filterMap_congr fun sdu mem => sdu?_sdu (carried sdu mem).2
      _ = sdus := filterMap_some
  have post : announcedSdus (postSubheaders postPadding) = [] := by
    unfold postSubheaders
    split <;> rfl
  simp [allSubheaders, announcedSdus_fixed, same, post]

section Rules

variable {rules : ParserRules} (padded : rules.firstElement ≤ Lcid.shortPadding)
  {elements : List Element} (admissible : Admissible rules elements)
  {sdus : List (Lcid × Nat)} (carried : Carried rules sdus) {shortPadding postPadding : Nat}

include padded admissible in
theorem valid_fixedLcids : ∀ lcid ∈ fixedLcids elements shortPadding,
    rules.firstElement ≤ lcid := by
  intro lcid mem
  cases mem_append.mp mem with
  | inl padding => rw [(mem_replicate.mp padding).2]; exact padded
  | inr listed =>
    obtain ⟨element, present, rfl⟩ := mem_map.mp listed
    exact (admissible element present).1

include padded admissible carried in
theorem valid_all : ∀ subheader ∈ allSubheaders elements sdus shortPadding postPadding,
    subheader.Valid rules := by
  intro subheader mem
  simp only [allSubheaders, mem_append, mem_map] at mem
  rcases mem with (⟨lcid, present, rfl⟩ | ⟨sdu, present, rfl⟩) | post
  · exact iff_of_true rfl (valid_fixedLcids padded admissible lcid present)
  · exact iff_of_false (LengthField.ofLength_ne_none _) (Nat.not_le.mpr (carried sdu present).1)
  · unfold postSubheaders at post
    split at post
    next => rw [mem_singleton.mp post]; exact iff_of_true rfl padded
    next => cases post

include admissible in
theorem knows_all : ∀ subheader ∈ allSubheaders elements sdus shortPadding postPadding,
    rules.Knows subheader := by
  intro subheader mem lcid announced
  have listed : lcid ∈ announcedElements (allSubheaders elements sdus shortPadding postPadding) :=
    mem_filterMap.mpr ⟨subheader, mem, announced⟩
  rw [announcedElements_all admissible] at listed
  obtain ⟨element, present, rfl⟩ := mem_map.mp listed
  exact (admissible element present).2.2

end Rules

def elementLengths (rules : ParserRules) (lcids : List Lcid) : Nat :=
  (lcids.map fun lcid => (rules.elementSize lcid).toNat).sum

theorem sum_elementSize (rules : ParserRules) (lcids : List Lcid) :
    (lcids.map rules.elementSize).sum = UInt16.ofNat (elementLengths rules lcids) := by
  unfold elementLengths
  induction lcids with
  | nil => rfl
  | cons lcid lcids ih => simp [ih]

theorem length_announced_sdus (rules : ParserRules) (tbLength : UInt16)
    (finished : List Subheader) (last : Subheader) :
    (announced rules tbLength finished last).sdus.length =
      (announcedSdus (finished ++ [last])).length := by
  by_cases fixed : last.lengthField = .none <;>
    simp [announced, announcedSdus, sdu?, fixed]

/-- The parser finds the lengths of the SDUs, except that of a last SDU if the
rest of the block is not its length. -/
theorem announced_sdus_iff {tbLength : UInt16} :
    (announced rules tbLength finished last).sdus =
        (announcedSdus (finished ++ [last])).map recorded ↔
      (last.lengthField ≠ .none →
        tbLength = UInt16.ofNat ((chain finished).length + 1) +
          elementOctets rules (finished ++ [last]) +
          ((announcedSdus (finished ++ [last])).map fun sdu => UInt16.ofNat sdu.2).sum) := by
  by_cases fixed : last.lengthField = .none
  · simp [announced, announcedSdus, sdu?, fixed]
  · have element : last.element? = none := by simp [element?, fixed]
    have elements : elementOctets rules (finished ++ [last]) = elementOctets rules finished := by
      simp [elementOctets, announcedElements, element]
    have sdus : announcedSdus (finished ++ [last]) =
        announcedSdus finished ++ [(last.lcid, last.lengthField.value)] := by
      simp [announcedSdus, sdu?, fixed]
    simp only [announced, sdus, map_append, append_cancel_left_eq, elements, ne_eq,
      fixed, not_false_eq_true, forall_true_left]
    simp only [map_cons, map_nil, recorded, impliedLength, sum_append, sum_singleton]
    grind

theorem exists_last_of_all (something : elements ≠ [] ∨ sdus ≠ [])
    (shortPadding postPadding : Nat) :
    ∃ finished last, allSubheaders elements sdus shortPadding postPadding = finished ++ [last] ∧
      (last.lengthField ≠ .none ↔ postPadding = 0 ∧ sdus ≠ []) := by
  by_cases post : postPadding > 0
  · refine ⟨_, .fixed .shortPadding, by rw [allSubheaders, postSubheaders, if_pos post], ?_⟩
    exact iff_of_false (fun some => some rfl) fun both => absurd both.1 (Nat.ne_of_gt post)
  have none : postPadding = 0 := Nat.eq_zero_of_not_pos post
  have noPost : postSubheaders postPadding = [] := if_neg post
  rcases eq_nil_or_concat sdus with rfl | ⟨before, sdu, rfl⟩
  · have present := something.resolve_right fun some => some rfl
    obtain ⟨front, element, rfl⟩ := (eq_nil_or_concat elements).resolve_left present
    refine ⟨(fixedLcids front shortPadding).map .fixed, .fixed element.1, ?_, ?_⟩
    · simp [allSubheaders, noPost, fixedLcids]
    · exact iff_of_false (fun some => some rfl) fun both => both.2 rfl
  · refine ⟨(fixedLcids elements shortPadding).map .fixed ++ before.map .sdu, .sdu sdu, ?_, ?_⟩
    · simp [allSubheaders, noPost]
    · exact iff_of_true (LengthField.ofLength_ne_none _) ⟨none, by simp⟩

def Element.Fits (rules : ParserRules) (element : Element) : Prop :=
  rules.firstElement ≤ element.1 ∧ element.1 ≠ .shortPadding ∧
    rules.elementLength element.1 = some (UInt16.ofNat element.2.length)

theorem Element.Fits.admissible (fits : ∀ element ∈ elements, Element.Fits rules element) :
    Admissible rules elements := by
  intro element mem
  obtain ⟨first, other, length⟩ := fits element mem
  exact ⟨first, other, by rw [length]; rfl⟩

theorem Element.Fits.sum (fits : ∀ element ∈ elements, Element.Fits rules element) :
    (elements.map fun element => rules.elementSize element.1).sum =
      UInt16.ofNat (elementsData elements).length := by
  induction elements with
  | nil => rfl
  | cons element elements ih =>
    obtain ⟨head, tail⟩ := forall_mem_cons.mp fits
    have size : rules.elementSize element.1 = UInt16.ofNat element.2.length := by
      rw [ParserRules.elementSize, head.2.2]
      rfl
    rw [map_cons, sum_cons, ih tail, size]
    simp [elementsData]

def lengthsOf (sdus : List (Lcid × List UInt8)) : List (Lcid × Nat) :=
  sdus.map fun sdu => (sdu.1, sdu.2.length)

def sdusData (sdus : List (Lcid × List UInt8)) : List UInt8 := sdus.flatMap (·.2)

theorem sum_lengthsOf (sdus : List (Lcid × List UInt8)) :
    ((lengthsOf sdus).map fun sdu => UInt16.ofNat sdu.2).sum =
      UInt16.ofNat (sdusData sdus).length := by
  induction sdus with
  | nil => rfl
  | cons sdu sdus ih =>
    simp only [lengthsOf, sdusData, map_cons, sum_cons, flatMap_cons,
      length_append, UInt16.ofNat_add] at ih ⊢
    rw [ih]

def subheaderOctets (elements : List Element) (sdus : List (Lcid × Nat))
    (shortPadding postPadding : Nat) : Nat :=
  (chain (allSubheaders elements sdus shortPadding postPadding).dropLast).length + 1

theorem subheaderOctets_le (elements : List Element) (sdus : List (Lcid × Nat))
    (shortPadding postPadding : Nat) :
    subheaderOctets elements sdus shortPadding postPadding ≤
      3 * (shortPadding + elements.length + sdus.length) + 1 := by
  have bound := length_chain_le (allSubheaders elements sdus shortPadding postPadding).dropLast
  have post : (postSubheaders postPadding).length ≤ 1 := by
    unfold postSubheaders
    split <;> simp
  simp only [length_dropLast, allSubheaders, fixedLcids, length_append, length_map,
    length_replicate] at bound
  unfold subheaderOctets allSubheaders fixedLcids
  omega

/-- A block that starts with a generated header: the parser finds the control
elements, points at the first octet of them, and finds the SDUs unless the last
one has no length field and does not fill the block. -/
theorem parse_generated (memory : Nat → UInt8) (padded : rules.firstElement ≤ Lcid.shortPadding)
    (admissible : Admissible rules elements) (fewElements : elements.length ≤ maxNumCe)
    (carried : Carried rules sdus) (fewSdus : sdus.length ≤ nbRbMax)
    (something : elements ≠ [] ∨ sdus ≠ []) (short : shortPadding ≤ 2) (postPadding : Nat)
    (small : (elementsData elements).length < 128) (tbLength : UInt16) (payload : List UInt8) :
    let header := generate memory elements sdus shortPadding postPadding
    let size := subheaderOctets elements sdus shortPadding postPadding
    header.octets.length = size + (elementsData elements).length ∧
    ∃ parsed, parseSubheaders rules tbLength (header.octets ++ payload) .empty = .ok parsed ∧
      parsed.ces = elements.map (·.1) ∧ parsed.offset = size ∧
      (header.octets ++ payload).drop parsed.offset = elementsData elements ++ payload ∧
      (parsed.sdus = sdus.map recorded ↔
        (postPadding = 0 ∧ sdus ≠ [] →
          tbLength = UInt16.ofNat size + (elements.map fun element =>
            rules.elementSize element.1).sum + (sdus.map fun sdu => UInt16.ofNat sdu.2).sum)) := by
  obtain ⟨finished, last, whole, closing⟩ :=
    exists_last_of_all something shortPadding postPadding
  have size : subheaderOctets elements sdus shortPadding postPadding =
      (chain finished).length + 1 := by
    rw [subheaderOctets, whole, dropLast_concat]
  have bound := subheaderOctets_le elements sdus shortPadding postPadding
  have octets := generate_octets memory short something whole (by
    simp only [headerOctets, length_append, length_cons]
    unfold nbRbMax at fewSdus
    unfold maxNumCe at fewElements
    omega)
  have valid : ∀ subheader ∈ finished ++ [last], subheader.Valid rules :=
    whole ▸ valid_all padded admissible carried
  have known : ∀ subheader ∈ finished ++ [last], rules.Knows subheader :=
    whole ▸ knows_all admissible
  have foundElements : announcedElements (finished ++ [last]) = elements.map (·.1) :=
    whole ▸ announcedElements_all admissible sdus shortPadding postPadding
  have foundSdus : announcedSdus (finished ++ [last]) = sdus :=
    whole ▸ announcedSdus_all elements carried shortPadding postPadding
  have bounds : (announced rules tbLength finished last).InBounds := by
    constructor
    · rw [length_announced_sdus, foundSdus]
      exact fewSdus
    · simpa [announced, foundElements] using fewElements
  have block : headerOctets finished last (elementsData elements) ++ payload =
      headerOctets finished last (elementsData elements ++ payload) := by
    simp [headerOctets]
  have parsed : parseSubheaders rules tbLength
      (headerOctets finished last (elementsData elements ++ payload)) .empty =
      .ok (announced rules tbLength finished last) :=
    (parse_eq_ok (fun subheader mem => valid subheader (mem_append_left _ mem))
      (valid last (by simp))).mpr ⟨rfl, bounds, known⟩
  refine ⟨?_, announced rules tbLength finished last, ?_, foundElements, size.symm, ?_, ?_⟩
  · rw [octets, size]
    simp [headerOctets, Nat.add_assoc, Nat.add_comm 1]
  · rw [octets, block]
    exact parsed
  · rw [octets, block]
    show ((chain finished) ++ last.lastOctet :: (elementsData elements ++ payload)).drop
      ((chain finished).length + 1) = _
    simp
  · have sums : elementOctets rules (finished ++ [last]) =
        (elements.map fun element => rules.elementSize element.1).sum := by
      rw [elementOctets, foundElements, map_map]
      rfl
    rw [← closing, size, ← sums]
    have filled : (announced rules tbLength finished last).sdus =
        (announcedSdus (finished ++ [last])).map recorded ↔ _ := announced_sdus_iff
    rw [foundSdus] at filled
    exact filled

/-- A block whose control elements all have the length the rules know is read
back as it was made. -/
theorem generated_round_trip (memory : Nat → UInt8)
    (padded : rules.firstElement ≤ Lcid.shortPadding)
    (fits : ∀ element ∈ elements, Element.Fits rules element)
    (fewElements : elements.length ≤ maxNumCe) {sdus : List (Lcid × List UInt8)}
    (carried : Carried rules (lengthsOf sdus)) (fewSdus : sdus.length ≤ nbRbMax)
    (something : elements ≠ [] ∨ sdus ≠ []) (short : shortPadding ≤ 2)
    (small : (elementsData elements).length < 128) {tail : List UInt8}
    (ends : postPadding = 0 → tail = []) :
    let header := generate memory elements (lengthsOf sdus) shortPadding postPadding
    let payload := sdusData sdus ++ tail
    let block := header.octets ++ payload
    ∃ parsed, parseSubheaders rules (UInt16.ofNat block.length) block .empty = .ok parsed ∧
      parsed.sdus = (lengthsOf sdus).map recorded ∧ parsed.ces = elements.map (·.1) ∧
      block.drop parsed.offset = elementsData elements ++ payload := by
  intro header payload block
  have present : elements ≠ [] ∨ lengthsOf sdus ≠ [] := something.imp_right (by simp [lengthsOf])
  obtain ⟨length, parsed, accepted, ces, _, dropped, filled⟩ :=
    parse_generated memory padded (Element.Fits.admissible fits) fewElements carried
      (by simpa [lengthsOf] using fewSdus) present short postPadding small
      (UInt16.ofNat block.length) payload
  refine ⟨parsed, accepted, filled.mpr fun closing => ?_, ces, dropped⟩
  have whole : block.length = subheaderOctets elements (lengthsOf sdus) shortPadding postPadding +
      (elementsData elements).length + (sdusData sdus).length := by
    simp only [block, payload, ends closing.1, append_nil, length_append]
    exact congrArg (· + (sdusData sdus).length) length
  rw [whole, Element.Fits.sum fits, sum_lengthsOf, UInt16.ofNat_add, UInt16.ofNat_add]

end OpenAir.Mac
