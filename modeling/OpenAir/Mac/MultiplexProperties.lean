import OpenAir.Mac.BlockProperties
import OpenAir.Mac.UeMultiplexing

/-! A block of a given length made of a header, SDUs and filling octets. The
parser finds its SDUs exactly if they fit, and if the last one ends the block
when its length is left out. -/

set_option autoImplicit false

namespace OpenAir.Mac

open OpenAir.Base List Subheader

variable {header : Header} {length : Nat} {rules : ParserRules}

theorem load_fillBlock {buff : Nat → UInt8} {data : List UInt8}
    (gathered : load buff 0 data.length = data) (filling : Nat → UInt8)
    (fits : header.returned.toNat + data.length ≤ length) :
    load (fillBlock header buff data.length length filling) 0 length =
        header.octets ++
          (data ++ load filling 0 (length - data.length - header.returned.toNat)) ∧
      load (fillBlock header buff data.length length filling) header.returned.toNat data.length =
        data := by
  obtain ⟨rest, rfl⟩ := Nat.exists_eq_add_of_le fits
  have left : header.returned.toNat + data.length + rest - data.length - header.returned.toNat =
      rest := by omega
  have second := load_store header.memory header.returned.toNat data
  have third := load_store (store header.memory header.returned.toNat data)
    (header.returned.toNat + data.length) (load filling 0 rest)
  rw [length_load] at third
  simp only [fillBlock, gathered, left]
  constructor
  · rw [load_add, load_add, Nat.zero_add, Nat.zero_add, third,
      load_store_before _ _ (by omega), load_store_before _ _ (by omega),
      load_store_before _ _ (by omega), second, append_assoc]
    rfl
  · rw [load_store_before _ _ (Nat.le_refl _), second]

def sduSize (length : Nat) : Nat := if length < 128 then 2 else 3

theorem length_chain (subheaders : List Subheader) :
    (chain subheaders).length = (subheaders.map size).sum := by
  simp [chain, length_flatMap]

theorem sum_sizes (lcids : List Lcid) (sdus : List (Lcid × Nat)) :
    ((lcids.map fixed ++ sdus.map sdu).map size).sum =
      lcids.length + (sdus.map fun sdu => sduSize sdu.2).sum := by
  have fixed : (lcids.map fixed).map size = lcids.map fun _ => 1 := by
    rw [List.map_map]
    rfl
  have sizes : (sdus.map sdu).map size = sdus.map fun sdu => sduSize sdu.2 := by
    rw [List.map_map]
    exact map_congr_left fun sdu _ => size_sdu sdu.1 sdu.2
  rw [map_append, fixed, sizes]
  simp

theorem subheaderOctets_eq (elements : List Element) (before : List (Lcid × Nat))
    (last : Lcid × Nat) (shortPadding postPadding : Nat) :
    subheaderOctets elements (before ++ [last]) shortPadding postPadding =
      shortPadding + elements.length + (before.map fun sdu => sduSize sdu.2).sum + 1 +
        if 0 < postPadding then sduSize last.2 else 0 := by
  unfold subheaderOctets allSubheaders HeaderWriter.postSubheaders
  by_cases post : 0 < postPadding
  · rw [if_pos post, if_pos post, dropLast_concat, length_chain, sum_sizes]
    simp only [fixedLcids, length_append, length_replicate, length_map,
      map_append, sum_append, map_cons, map_nil, sum_singleton]
    omega
  · rw [if_neg post, if_neg post, append_nil, map_append, ← append_assoc,
      map_cons, map_nil, dropLast_concat, length_chain, sum_sizes]
    simp [fixedLcids]

/-- The SDUs fit behind the header, lie there in their order, and are found by
the parser. -/
def Carries (rules : ParserRules) (memory : Nat → UInt8) (length offset : Nat)
    (sdus : List (Lcid × List UInt8)) : Prop :=
  offset + (sdusData sdus).length ≤ length ∧
    load memory offset (sdusData sdus).length = sdusData sdus ∧
    ∃ parsed, parseSubheaders rules (UInt16.ofNat length) (load memory 0 length) .empty =
        .ok parsed ∧
      parsed.sdus = sdus.map fun sdu => (sdu.1, UInt16.ofNat sdu.2.length)

theorem carried_of_channels (above : 3 < rules.firstElement) {sdus : List (Lcid × List UInt8)}
    (channels : ∀ sdu ∈ sdus, sdu.1.val ≤ 3) (small : (sdusData sdus).length < 32768) :
    Carried rules (lengthsOf sdus) := by
  intro entry mem
  obtain ⟨sdu, present, rfl⟩ := List.mem_map.mp mem
  have part : sdu.2.length ≤ (sdusData sdus).length :=
    (sublist_flatten_of_mem (List.mem_map_of_mem present)).length_le
  exact ⟨Nat.lt_of_le_of_lt (channels sdu present) above, Nat.lt_of_le_of_lt part small⟩

theorem carries_nil_iff (found : ∀ payload, ∃ parsed,
      parseSubheaders rules (UInt16.ofNat length) (header.octets ++ payload) .empty = .ok parsed ∧
        parsed.sdus = []) (buff filling : Nat → UInt8) :
    Carries rules (fillBlock header buff 0 length filling) length header.returned.toNat [] ↔
      header.returned.toNat ≤ length := by
  refine ⟨fun carries => carries.1, fun fits => ⟨fits, rfl, ?_⟩⟩
  have nothing : load buff 0 ([] : List UInt8).length = [] := rfl
  have room : header.returned.toNat + ([] : List UInt8).length ≤ length := fits
  have whole := (load_fillBlock nothing filling room).1
  rw [length_nil] at whole
  rw [whole]
  exact found _

section Generated

variable {rules : ParserRules} (padded : rules.firstElement ≤ Lcid.shortPadding)
  {elements : List Element} (admissible : Admissible rules elements)
  (fewElements : elements.length ≤ maxNumCe) (small : (elementsData elements).length < 128)
  (counted : elementLengths rules (elements.map (·.1)) ≤ (elementsData elements).length)
  {sdus : List (Lcid × List UInt8)} (carried : Carried rules (lengthsOf sdus))
  (fewSdus : sdus.length ≤ nbRbMax) (something : sdus ≠ []) {shortPadding : Nat}
  (short : shortPadding ≤ 2) (postPadding : Nat) (memory filling : Nat → UInt8)
  {buff : Nat → UInt8} (gathered : load buff 0 (sdusData sdus).length = sdusData sdus)
  {length : Nat} (range : length < 65536)

include padded admissible fewElements small counted carried fewSdus something short gathered range

theorem carries_iff :
    let header := generate memory elements (lengthsOf sdus) shortPadding postPadding
    let size := subheaderOctets elements (lengthsOf sdus) shortPadding postPadding
    header.returned.toNat = size + (elementsData elements).length ∧
    (Carries rules (fillBlock header buff (sdusData sdus).length length filling) length
        header.returned.toNat sdus ↔
      size + (elementsData elements).length + (sdusData sdus).length ≤ length ∧
        (postPadding = 0 →
          length = size + elementLengths rules (elements.map (·.1)) +
            (sdusData sdus).length)) := by
  intro header size
  have present : elements ≠ [] ∨ lengthsOf sdus ≠ [] := .inr (by simpa [lengthsOf] using something)
  have found := fun payload => parse_generated memory padded admissible fewElements carried
    (by simpa [lengthsOf] using fewSdus) present short postPadding small (UInt16.ofNat length)
    payload
  have offset : header.returned.toNat = size + (elementsData elements).length := by
    have octets := (found []).1
    rwa [Header.octets, length_load] at octets
  refine ⟨offset, ?_⟩
  by_cases fits : size + (elementsData elements).length + (sdusData sdus).length ≤ length
  · rw [← offset] at fits
    obtain ⟨whole, placed⟩ := load_fillBlock gathered filling fits
    obtain ⟨_, parsed, accepted, _, _, _, filled⟩ := found
      (sdusData sdus ++ load filling 0 (length - (sdusData sdus).length - header.returned.toNat))
    have listed : (lengthsOf sdus).map recorded =
        sdus.map fun sdu => (sdu.1, UInt16.ofNat sdu.2.length) := by
      simp [lengthsOf, recorded, Function.comp_def]
    have sums : (elements.map fun element => rules.elementSize element.1).sum =
        UInt16.ofNat (elementLengths rules (elements.map (·.1))) := by
      rw [← sum_elementSize, List.map_map]
      rfl
    rw [listed, sums, sum_lengthsOf, ← UInt16.ofNat_add, ← UInt16.ofNat_add] at filled
    have exactly : UInt16.ofNat length = UInt16.ofNat (size +
        elementLengths rules (elements.map (·.1)) + (sdusData sdus).length) ↔
        length = size + elementLengths rules (elements.map (·.1)) + (sdusData sdus).length := by
      rw [← UInt16.toNat_inj, UInt16.toNat_ofNat', UInt16.toNat_ofNat']
      omega
    unfold Carries
    rw [whole, placed]
    constructor
    · rintro ⟨_, _, other, again, same⟩
      cases accepted.symm.trans again
      exact ⟨offset ▸ fits, fun closing => exactly.mp (filled.mp same ⟨closing, by
        simpa [lengthsOf] using something⟩)⟩
    · rintro ⟨_, closes⟩
      exact ⟨fits, rfl, parsed, accepted, filled.mpr fun closing => exactly.mpr (closes closing.1)⟩
  · refine iff_of_false (fun carries => fits ?_) fun both => fits both.1
    exact offset ▸ carries.1

end Generated

end OpenAir.Mac
