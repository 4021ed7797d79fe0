import OpenAir.Base.BitField
import OpenAir.RlcAm.LengthIndicators

/-! The memory that `rlc_am_get_data_pdu_infos` touches: the octets it reads from a
block and the entries of `li_list` it writes. The parser checks neither against
the size of the block; on a well-formed PDU both stay in bounds. -/

set_option autoImplicit false

namespace OpenAir.RlcAm

open OpenAir.Base List Nat

/-- One access of `rlc_am_get_data_pdu_infos`. -/
inductive HeaderAccess where
  | readOctet (offset : Nat)
  | writeLi (index : Nat)
  deriving DecidableEq, Repr

/-- The accesses of the loop over the length indicators, from indicator `numLi` on.
The number of indicators is tested after a round has written its indicator. -/
def liAccesses (octets : List UInt8) : Nat → Nat → Nat → Bool → List HeaderAccess
  | 0, _, _, _ => []
  | rounds + 1, numLi, pos, false =>
    .readOctet pos :: .readOctet (pos + 1) :: .writeLi numLi ::
      if octetAt octets pos &&& 0x80 ≠ 0 then
        liAccesses octets rounds (numLi + 1) pos true
      else []
  | rounds + 1, numLi, pos, true =>
    .readOctet (pos + 1) :: .readOctet (pos + 2) :: .writeLi numLi ::
      if octetAt octets (pos + 1) &&& 0x08 ≠ 0 then
        liAccesses octets rounds (numLi + 1) (pos + 3) false
      else []

/-- The accesses of `rlc_am_get_data_pdu_infos`. -/
def headerAccesses (octets : List UInt8) : List HeaderAccess :=
  let b1 := octetAt octets 0
  .readOctet 0 ::
    if b1 >>> 7 = 0 then []
    else
      let rf := decide ((b1 >>> 6) &&& 0x01 = 1)
      let e := decide ((b1 >>> 2) &&& 0x01 = 1)
      let fixedSize := if rf then 4 else 2
      .readOctet 1 ::
        ((if rf then [.readOctet 2, .readOctet 3] else []) ++
          if e then liAccesses octets (rlcAmMaxSduInPdu + 1) 0 fixedSize false else [])

/-! The result depends on the octets in these accesses only. -/

theorem readLis_congr {octets other : List UInt8} (allowed : Nat) :
    ∀ (numLi pos : Nat) (second : Bool),
      (∀ offset, .readOctet offset ∈ liAccesses octets (allowed + 1) numLi pos second →
        octetAt other offset = octetAt octets offset) →
      readLis other allowed pos second = readLis octets allowed pos second := by
  induction allowed with
  | zero =>
    intro _ _ _ _
    rfl
  | succ allowed ih =>
    intro numLi pos second same
    cases second with
    | false =>
      have b1 := same pos (by simp [liAccesses])
      have b2 := same (pos + 1) (by simp [liAccesses])
      simp only [readLis, b1, b2]
      split
      next more =>
        rw [ih (numLi + 1) pos true fun offset mem => same offset ?_]
        rw [liAccesses, if_pos more]
        exact mem_cons_of_mem _ (mem_cons_of_mem _ (mem_cons_of_mem _ mem))
      · rfl
    | true =>
      have b2 := same (pos + 1) (by simp [liAccesses])
      have b3 := same (pos + 2) (by simp [liAccesses])
      simp only [readLis, b2, b3]
      split
      next more =>
        rw [ih (numLi + 1) (pos + 3) false fun offset mem => same offset ?_]
        rw [liAccesses, if_pos more]
        exact mem_cons_of_mem _ (mem_cons_of_mem _ (mem_cons_of_mem _ mem))
      · rfl

/-- Two blocks of one size that agree in the octets read give the same result but
for the payload behind the header. -/
theorem getDataPduInfos_congr {octets other : List UInt8} (size : other.length = octets.length)
    (same : ∀ offset, .readOctet offset ∈ headerAccesses octets →
      octetAt other offset = octetAt octets offset) :
    (getDataPduInfos other).map (fun info => { info with payload := [] }) =
      (getDataPduInfos octets).map fun info => { info with payload := [] } := by
  have b1 := same 0 (by simp [headerAccesses])
  simp only [getDataPduInfos, b1]
  by_cases control : octetAt octets 0 >>> 7 = 0
  · simp only [if_pos control, Option.map_none]
  · have b2 := same 1 (by simp [headerAccesses, control])
    simp only [headerAccesses, if_neg control] at same
    simp only [if_neg control, b2, size, Option.map_map, Function.comp_def]
    by_cases segment : (octetAt octets 0 >>> 6) &&& 0x01 = 1
    · have b3 := same 2 (by simp [segment])
      have b4 := same 3 (by simp [segment])
      simp only [decide_eq_true segment, if_true, b3, b4] at same ⊢
      by_cases extended : (octetAt octets 0 >>> 2) &&& 0x01 = 1
      · simp only [decide_eq_true extended, if_true] at same ⊢
        rw [readLis_congr rlcAmMaxSduInPdu 0 4 false fun offset mem => same offset ?_]
        simp [mem]
      · simp only [decide_eq_false extended, Bool.false_eq_true, if_false]
    · simp only [decide_eq_false segment, Bool.false_eq_true, if_false, Bool.false_and] at same ⊢
      by_cases extended : (octetAt octets 0 >>> 2) &&& 0x01 = 1
      · simp only [decide_eq_true extended, if_true] at same ⊢
        rw [readLis_congr rlcAmMaxSduInPdu 0 2 false fun offset mem => same offset ?_]
        simp [mem]
      · simp only [decide_eq_false extended, Bool.false_eq_true, if_false]

theorem getDataPduInfos_congr_payload :
    (getDataPduInfos [0x88, 5, 3]).map (fun info => { info with payload := [] }) =
      (getDataPduInfos [0x88, 5, 7]).map fun info => { info with payload := [] } := by
  refine getDataPduInfos_congr rfl fun offset read => ?_
  have header : headerAccesses [0x88, 5, 7] = [.readOctet 0, .readOctet 1] := by decide
  simp only [header, mem_cons, HeaderAccess.readOctet.injEq, not_mem_nil, or_false] at read
  rcases read with rfl | rfl <;> rfl

/-! Well-formed PDUs, by the bits of the format. -/

def LiFields (memory : Memory) : Nat → List Nat → Prop
  | _, [] => True
  | start, li :: rest =>
    (bitAt memory start = true ↔ rest ≠ []) ∧ field memory (start + 1) 11 = li ∧
      LiFields memory (start + 12) rest

def fixedHeaderSize (memory : Memory) : Nat := if bitAt memory 1 = true then 4 else 2

/-- A data PDU whose header has the given length indicators, and whose payload has
more octets than they announce. -/
structure WellFormedHeader (octets : List UInt8) (lis : List Nat) : Prop where
  size : octets.length < 2 ^ 15 + fixedHeaderSize (octets.getD · 0) + (12 * lis.length + 7) / 8
  data : bitAt (octets.getD · 0) 0
  extended : bitAt (octets.getD · 0) 5 = true ↔ lis ≠ []
  fields : LiFields (octets.getD · 0) (8 * fixedHeaderSize (octets.getD · 0)) lis
  count : lis.length ≤ rlcAmMaxSduInPdu
  positive : ∀ li ∈ lis, 0 < li
  room : fixedHeaderSize (octets.getD · 0) + (12 * lis.length + 7) / 8 + lis.sum < octets.length

private theorem first_octet_bits : ∀ octet < 256,
    (octet.testBit 7 = true ↔ ¬ octet >>> 7 = 0) ∧
    (octet.testBit 6 = true ↔ (octet >>> 6) &&& 0x01 = 1) ∧
    (octet.testBit 2 = true ↔ (octet >>> 2) &&& 0x01 = 1) := by
  decide +kernel

private theorem first_field_octets : ∀ octet < 256,
    (octet <<< 4) &&& 0x07F0 = (octet % 128) <<< 4 ∧ (octet >>> 4) &&& 0x000F = octet / 16 ∧
      (octet &&& 0x80 ≠ 0 ↔ octet.testBit 7) := by
  decide +kernel

private theorem second_field_octet : ∀ octet < 256,
    (octet <<< 8) &&& 0x0700 = (octet % 8) <<< 8 ∧
      (octet &&& 0x08 ≠ 0 ↔ octet.testBit 3) := by
  decide +kernel

section Bits

variable {memory : Memory} {pos : Nat}

theorem bitAt_octet (memory : Memory) (octet bit : Nat) (inside : bit < 8) :
    bitAt memory (8 * octet + bit) = (memory octet).toNat.testBit (7 - bit) := by
  rw [bitAt, show (8 * octet + bit) / 8 = octet by omega, show (8 * octet + bit) % 8 = bit by omega]

theorem liAt_first_iff {li : Nat} {more : Prop} :
    LiAt memory pos false li more ↔
      (bitAt memory (8 * pos) = true ↔ more) ∧ field memory (8 * pos + 1) 11 = li := by
  obtain ⟨top, -, bit⟩ := first_field_octets _ (memory pos).toNat_lt
  obtain ⟨-, low, -⟩ := first_field_octets _ (memory (pos + 1)).toNat_lt
  have value : field memory (8 * pos + 1) 11 =
      (memory pos).toNat % 128 * 2 ^ 4 + (memory (pos + 1)).toNat / 16 := by
    rw [field_append memory _ 7 4, field_octet memory pos (by omega),
      show 8 * pos + 1 + 7 = 8 * (pos + 1) + 0 by omega,
      field_octet memory (pos + 1) (by omega)]
    simp
  have first : bitAt memory (8 * pos) = (memory pos).toNat.testBit 7 :=
    bitAt_octet memory pos 0 (by omega)
  have bounded := (memory (pos + 1)).toNat_lt
  simp only [LiAt, Bool.false_eq_true, if_false]
  rw [first, value, ← bit, top, low, ← shiftLeft_eq, and_comm,
    shiftLeft_add_eq_or_of_lt (by omega : (memory (pos + 1)).toNat / 16 < 2 ^ 4)]

theorem liAt_second_iff {li : Nat} {more : Prop} :
    LiAt memory pos true li more ↔
      (bitAt memory (8 * pos + 12) = true ↔ more) ∧
        field memory (8 * pos + 12 + 1) 11 = li := by
  obtain ⟨top, bit⟩ := second_field_octet _ (memory (pos + 1)).toNat_lt
  have bounded := (memory (pos + 2)).toNat_lt
  have value : field memory (8 * pos + 12 + 1) 11 =
      (memory (pos + 1)).toNat % 8 * 2 ^ 8 + (memory (pos + 2)).toNat := by
    rw [field_append memory _ 3 8, show 8 * pos + 12 + 1 = 8 * (pos + 1) + 5 by omega,
      field_octet memory (pos + 1) (by omega),
      show 8 * (pos + 1) + 5 + 3 = 8 * (pos + 2) + 0 by omega,
      field_octet memory (pos + 2) (by omega)]
    simp
  have second : bitAt memory (8 * pos + 12) = (memory (pos + 1)).toNat.testBit 3 :=
    bitAt_octet memory (pos + 1) 4 (by omega)
  simp only [LiAt, if_true]
  rw [second, value, ← bit, top, ← shiftLeft_eq, and_comm, shiftLeft_add_eq_or_of_lt bounded]

theorem liFields_iff {lis : List Nat} :
    ∀ {pos : Nat} {second : Bool},
      LiFields memory (8 * pos + if second then 12 else 0) lis ↔
        LisAt memory pos second lis := by
  induction lis with
  | nil =>
    intro _ second
    cases second <;> rfl
  | cons li rest ih =>
    intro pos second
    cases second with
    | false => exact and_assoc.symm.trans (and_congr liAt_first_iff.symm (@ih pos true))
    | true => exact and_assoc.symm.trans (and_congr liAt_second_iff.symm (@ih (pos + 3) false))

end Bits

/-! Bounds. -/

/-- An access stays inside a block of `size` octets and inside `li_list`. -/
def HeaderAccess.InBounds (size : Nat) : HeaderAccess → Prop
  | .readOctet offset => offset < size
  | .writeLi index => index < rlcAmMaxSduInPdu

theorem forall_mem_ite_nil {α : Type} {holds : α → Prop} (more : Prop) [Decidable more]
    (list : List α) :
    (∀ item ∈ if more then list else [], holds item) ↔ (more → ∀ item ∈ list, holds item) := by
  split <;> simp_all

/-- One length indicator in front of the `later` ones. -/
theorem lis_round_iff {value numLi size : Nat} {more inside : Prop} {later : List Nat → Prop}
    {last : Nat → Nat} (mono : ∀ count, last 0 ≤ last count) (none : later [])
    (rest : inside ↔ ∃ lis, lis ≠ [] ∧ numLi + 1 + lis.length ≤ rlcAmMaxSduInPdu ∧ later lis ∧
      last lis.length ≤ size) :
    (last 0 ≤ size ∧ numLi < rlcAmMaxSduInPdu ∧ (more → inside)) ↔
      ∃ li lis, numLi + (lis.length + 1) ≤ rlcAmMaxSduInPdu ∧
        ((value = li ∧ (more ↔ lis ≠ [])) ∧ later lis) ∧ last lis.length ≤ size := by
  constructor
  · rintro ⟨fits, few, goes⟩
    by_cases on : more
    · obtain ⟨lis, some, count, fields, ends⟩ := rest.mp (goes on)
      exact ⟨value, lis, by omega, ⟨⟨rfl, iff_of_true on some⟩, fields⟩, ends⟩
    · exact ⟨value, [], few, ⟨⟨rfl, iff_of_false on (fun some => some rfl)⟩, none⟩, fits⟩
  · rintro ⟨li, lis, count, ⟨⟨-, extension⟩, fields⟩, ends⟩
    refine ⟨(mono _).trans ends, by omega, fun on => ?_⟩
    exact rest.mpr ⟨lis, extension.mp on, by omega, fields, ends⟩

/-- The accesses stay in bounds if and only if there are length indicators that end in the
block, and not too many of them. -/
theorem liAccesses_inBounds_iff {octets : List UInt8} {size : Nat} (allowed : Nat) :
    ∀ {numLi pos : Nat} {second : Bool}, numLi + allowed = rlcAmMaxSduInPdu →
      ((∀ access ∈ liAccesses octets (allowed + 1) numLi pos second, access.InBounds size) ↔
        ∃ lis, lis ≠ [] ∧ numLi + lis.length ≤ rlcAmMaxSduInPdu ∧
          LisAt (octets.getD · 0) pos second lis ∧
          lisEnd pos second lis.length ≤ size) := by
  induction allowed with
  | zero =>
    intro numLi pos second full
    constructor
    · intro inside
      have write := inside (.writeLi numLi) (by cases second <;> simp [liAccesses])
      exact absurd (show numLi < rlcAmMaxSduInPdu from write) (by omega)
    · rintro ⟨lis, some, few, -⟩
      have := length_pos_of_ne_nil some
      omega
  | succ allowed ih =>
    intro numLi pos second full
    have nonempty : ∀ {holds : List Nat → Prop}, (∃ lis, lis ≠ [] ∧ holds lis) ↔
        ∃ li lis, holds (li :: lis) := by
      intro holds
      constructor
      · rintro ⟨_ | ⟨li, lis⟩, some, held⟩
        · exact absurd rfl some
        · exact ⟨li, lis, held⟩
      · rintro ⟨li, lis, held⟩
        exact ⟨li :: lis, cons_ne_nil _ _, held⟩
    rw [nonempty]
    cases second with
    | false =>
      rw [liAccesses]
      simp only [forall_mem_cons, forall_mem_ite_nil, length_cons, lisEnd_first]
      refine Iff.trans ?_ (lis_round_iff (fun count => ?_) trivial (ih (by omega)))
      · exact ⟨fun ⟨_, read, write, rest⟩ => ⟨read, write, rest⟩,
          fun ⟨read, write, rest⟩ => ⟨lt_of_succ_lt read, read, write, rest⟩⟩
      · exact le_lisEnd pos true count
    | true =>
      rw [liAccesses]
      simp only [forall_mem_cons, forall_mem_ite_nil, length_cons, lisEnd_second]
      refine Iff.trans ?_ (lis_round_iff (fun count => ?_) trivial (ih (by omega)))
      · exact ⟨fun ⟨_, read, write, rest⟩ => ⟨read, write, rest⟩,
          fun ⟨read, write, rest⟩ => ⟨lt_of_succ_lt read, read, write, rest⟩⟩
      · exact le_lisEnd (pos + 3) false count

/-- The parser fails, or its result accounts for every octet of the block: the
header, the SDUs announced by positive length indicators and a last one. No
access leaves its bounds. -/
structure SafeHeader (octets : List UInt8) : Prop where
  parsed : ∀ info, getDataPduInfos octets = some info →
    info.headerSize + info.payloadSize = octets.length ∧ 0 ≤ info.payloadSize ∧
    info.liList.length ≤ rlcAmMaxSduInPdu ∧ (∀ li ∈ info.liList, 0 < li) ∧
    info.liList.sum + info.hiddenSize = info.payloadSize ∧ 0 < info.hiddenSize
  accesses : ∀ access ∈ headerAccesses octets, access.InBounds octets.length

section Header

variable {octets : List UInt8} {lis : List Nat}

theorem first_octet_spec (octets : List UInt8) :
    (bitAt (octets.getD · 0) 0 = true ↔ ¬ octetAt octets 0 >>> 7 = 0) ∧
      fixedHeaderSize (octets.getD · 0) =
        (if (octetAt octets 0 >>> 6) &&& 0x01 = 1 then 4 else 2) ∧
      (bitAt (octets.getD · 0) 5 = true ↔ (octetAt octets 0 >>> 2) &&& 0x01 = 1) := by
  obtain ⟨data, segment, extended⟩ := first_octet_bits _ (octets.getD 0 0).toNat_lt
  have bit := bitAt_octet (octets.getD · 0) 0
  refine ⟨bit 0 (by omega) ▸ data, ?_, bit 5 (by omega) ▸ extended⟩
  exact if_congr segment rfl rfl

/-- The header ends in the block, with the given length indicators. -/
structure HeaderFits (octets : List UInt8) (lis : List Nat) : Prop where
  extended : (octetAt octets 0 >>> 2) &&& 0x01 = 1 ↔ lis ≠ []
  fields : LisAt (octets.getD · 0) (fixedHeaderSize (octets.getD · 0)) false lis
  count : lis.length ≤ rlcAmMaxSduInPdu
  ends : fixedHeaderSize (octets.getD · 0) + liSpace false lis.length ≤ octets.length

theorem headerAccesses_inBounds_iff (data : ¬ octetAt octets 0 >>> 7 = 0) :
    (∀ access ∈ headerAccesses octets, access.InBounds octets.length) ↔
      ∃ lis, HeaderFits octets lis := by
  obtain ⟨-, fixed, -⟩ := first_octet_spec octets
  have reads : (∀ access ∈ headerAccesses octets, access.InBounds octets.length) ↔
      fixedHeaderSize (octets.getD · 0) ≤ octets.length ∧
        ((octetAt octets 0 >>> 2) &&& 0x01 = 1 → ∀ access ∈ liAccesses octets
          (rlcAmMaxSduInPdu + 1) 0 (fixedHeaderSize (octets.getD · 0)) false,
            access.InBounds octets.length) := by
    simp only [headerAccesses, if_neg data, forall_mem_cons, forall_mem_append,
      forall_mem_ite_nil, decide_eq_true_eq, fixed, not_mem_nil, false_imp_iff, implies_true,
      and_true, HeaderAccess.InBounds]
    by_cases segment : (octetAt octets 0 >>> 6) &&& 0x01 = 1
    · simp only [segment, if_true, true_imp_iff, ← and_assoc]
      exact and_congr_left' (by omega)
    · simp only [segment, if_false, false_imp_iff, true_and, ← and_assoc]
      exact and_congr_left' (by omega)
  rw [reads]
  by_cases e : (octetAt octets 0 >>> 2) &&& 0x01 = 1
  · rw [liAccesses_inBounds_iff rlcAmMaxSduInPdu (zero_add _)]
    constructor
    · rintro ⟨-, inside⟩
      obtain ⟨lis, some, few, fields, ends⟩ := inside e
      exact ⟨lis, iff_of_true e some, fields, by omega, ends⟩
    · rintro ⟨lis, fits⟩
      refine ⟨le_of_add_right_le fits.ends,
        fun _ => ⟨lis, fits.extended.mp e, ?_, fits.fields, fits.ends⟩⟩
      rw [zero_add]
      exact fits.count
  · constructor
    · rintro ⟨inside, -⟩
      exact ⟨[], iff_of_false e (fun some => some rfl), trivial, zero_le _, inside⟩
    · rintro ⟨lis, fits⟩
      exact ⟨le_of_add_right_le fits.ends, fun on => absurd on e⟩

theorem HeaderFits.infos (fits : HeaderFits octets lis) (data : ¬ octetAt octets 0 >>> 7 = 0) :
    let headerSize := fixedHeaderSize (octets.getD · 0) + liSpace false lis.length
    let payloadSize := asInt16 (octets.length - headerSize)
    ∃ info, getDataPduInfos octets = some info ∧ info.liList = lis ∧
      info.headerSize = headerSize ∧ info.payloadSize = payloadSize ∧
      info.hiddenSize =
        if payloadSize > asInt16 lis.sum then asInt16 (payloadSize - asInt16 lis.sum) else 0 := by
  obtain ⟨-, fixed, -⟩ := first_octet_spec octets
  have read : (if (octetAt octets 0 >>> 2) &&& 0x01 = 1 then
      readLis octets rlcAmMaxSduInPdu (fixedHeaderSize (octets.getD · 0)) false
        else some ([], 0)) = some (lis, liSpace false lis.length) := by
    by_cases empty : lis = []
    · rw [if_neg fun e => fits.extended.mp e empty, empty]
      rfl
    · have found := readLis_load lis rlcAmMaxSduInPdu _ false empty fits.count fits.fields fits.ends
      rw [load_getD] at found
      rw [if_pos (fits.extended.mpr empty), found]
  rw [fixed] at read ⊢
  simp only [getDataPduInfos, if_neg data, decide_eq_true_eq, read, Option.map_some,
    asInt16_sub]
  exact ⟨_, rfl, rfl, rfl, rfl, rfl⟩

theorem liSpace_eq (count : Nat) : liSpace false count = (12 * count + 7) / 8 := by
  simp only [liSpace, Bool.false_eq_true, if_false]
  omega

theorem WellFormedHeader.headerFits (formed : WellFormedHeader octets lis) :
    HeaderFits octets lis := by
  obtain ⟨-, -, extended⟩ := first_octet_spec octets
  have room := formed.room
  rw [← liSpace_eq] at room
  exact ⟨extended.symm.trans formed.extended, liFields_iff.mp formed.fields, formed.count, by omega⟩

theorem WellFormedHeader.infos (formed : WellFormedHeader octets lis) :
    ∃ info, getDataPduInfos octets = some info ∧ info.liList = lis ∧
      info.headerSize = fixedHeaderSize (octets.getD · 0) + liSpace false lis.length ∧
      info.payloadSize = octets.length - info.headerSize ∧
      info.hiddenSize = info.payloadSize - lis.sum ∧ 0 < info.hiddenSize := by
  obtain ⟨bit, -, -⟩ := first_octet_spec octets
  obtain ⟨info, parsed, liList, headerSize, payloadSize, hiddenSize⟩ :=
    formed.headerFits.infos (bit.mp formed.data)
  have room := formed.room
  have size := formed.size
  have space := liSpace_eq lis.length
  rw [asInt16_eq_self (by omega) (by omega)] at payloadSize hiddenSize
  rw [asInt16_natCast (by omega), if_pos (by omega), asInt16_eq_self (by omega) (by omega)]
    at hiddenSize
  exact ⟨info, parsed, liList, headerSize, by omega, by omega, by omega⟩

end Header

/-- A control PDU is refused after one octet. A data PDU is parsed safely if and only if
it is well formed. -/
theorem safeHeader_iff_wellFormed (octets : List UInt8) :
    SafeHeader octets ↔
      (octets ≠ [] ∧ octetAt octets 0 < 128) ∨ ∃ lis, WellFormedHeader octets lis := by
  obtain ⟨bit, -, extended⟩ := first_octet_spec octets
  by_cases control : octetAt octets 0 >>> 7 = 0
  · have low : octetAt octets 0 < 128 := by
      omega
    have refused : getDataPduInfos octets = none := if_pos control
    constructor
    · intro safe
      have read := safe.accesses (.readOctet 0) (by simp [headerAccesses])
      exact .inl ⟨ne_nil_of_length_pos read, low⟩
    · rintro (⟨nonempty, -⟩ | ⟨lis, formed⟩)
      · refine ⟨fun info parsed => ?_, ?_⟩
        · cases refused.symm.trans parsed
        · simp only [headerAccesses, if_pos control, forall_mem_singleton]
          exact length_pos_of_ne_nil nonempty
      · exact absurd control (bit.mp formed.data)
  · have high : ¬ octetAt octets 0 < 128 := by
      omega
    rw [or_iff_right fun refused => high refused.2]
    constructor
    · intro safe
      obtain ⟨lis, fits⟩ := (headerAccesses_inBounds_iff control).mp safe.accesses
      obtain ⟨info, parsed, liList, headerSize, payloadSize, -⟩ := fits.infos control
      obtain ⟨whole, least, -, positive, accounts, last⟩ := safe.parsed info parsed
      have range := asInt16_lt (octets.length -
        (fixedHeaderSize (octets.getD · 0) + liSpace false lis.length : Nat))
      rw [liList] at positive accounts
      have space := liSpace_eq lis.length
      exact ⟨lis, by omega, bit.mpr control, extended.trans fits.extended,
        liFields_iff.mpr fits.fields, fits.count, positive, by omega⟩
    · rintro ⟨lis, formed⟩
      refine ⟨fun info parsed => ?_,
        (headerAccesses_inBounds_iff control).mpr ⟨lis, formed.headerFits⟩⟩
      obtain ⟨_, found, liList, headerSize, payloadSize, hiddenSize, last⟩ := formed.infos
      cases found.symm.trans parsed
      rw [liList]
      exact ⟨by omega, by omega, formed.count, formed.positive, by omega, last⟩

/-- A PDU with an SDU of two octets and one of one octet. -/
theorem safeHeader_two_sdus : SafeHeader [0x84, 5, 0x00, 0x20, 7, 7, 9] := by
  refine (safeHeader_iff_wellFormed _).mpr (.inr ⟨[2], ?_, ?_, ?_, ?_, ?_, ?_, ?_⟩)
  · decide
  · decide
  · decide
  · exact ⟨by decide, by decide, trivial⟩
  · decide
  · decide
  · decide

/-- An empty block is read. A length indicator is read past the end of a block, and
the payload gets a negative size. A length indicator of 0 and one of 5 for a
payload of one octet are accepted. The 33rd length indicator is written behind
`li_list`. -/
theorem not_safeHeader :
    .readOctet 0 ∈ headerAccesses [] ∧
    (.readOctet 2 ∈ headerAccesses [0x84, 5] ∧
      (getDataPduInfos [0x84, 5]).map (fun info => info.payloadSize) = some (-2)) ∧
    (getDataPduInfos [0x84, 5, 0x00, 0x00, 7]).map (fun info => info.liList) = some [0] ∧
    (getDataPduInfos [0x84, 5, 0x00, 0x50, 7]).map
      (fun info => (info.liList.sum, info.hiddenSize, info.payloadSize)) = some (5, 0, 1) ∧
    .writeLi 32 ∈ headerAccesses
      ([0x84, 5] ++ (List.replicate 17 [0x80, 0x18, 0x01]).flatten ++ List.replicate 40 7) := by
  decide +kernel

end OpenAir.RlcAm
