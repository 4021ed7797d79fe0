import OpenAir.Mac.Subheader

/-! What the parsers make of a block that starts with subheaders, and that
every block they accept starts with subheaders. -/

set_option autoImplicit false

namespace OpenAir.Mac

open List Subheader Parsed

theorem bind_eq_ok {ε α β : Type} {value : Except ε α} {next : α → Except ε β} {result : β} :
    (value >>= next) = .ok result ↔ ∃ middle, value = .ok middle ∧ next middle = .ok result := by
  cases value with
  | error fault => exact ⟨nofun, nofun⟩
  | ok middle =>
    exact ⟨fun found => ⟨middle, rfl, found⟩, fun ⟨_, same, found⟩ => by cases same; exact found⟩

namespace Subheader

def Valid (rules : ParserRules) (subheader : Subheader) : Prop :=
  subheader.lengthField = .none ↔ rules.firstElement ≤ subheader.lcid

def element? (subheader : Subheader) : Option Lcid :=
  if subheader.lengthField = .none ∧ subheader.lcid ≠ .shortPadding then some subheader.lcid
  else none

def sdu? (subheader : Subheader) : Option (Lcid × Nat) :=
  if subheader.lengthField = .none then none
  else some (subheader.lcid, subheader.lengthField.value)

end Subheader

def ParserRules.elementSize (rules : ParserRules) (lcid : Lcid) : UInt16 :=
  (rules.elementLength lcid).getD 0

def ParserRules.Knows (rules : ParserRules) (subheader : Subheader) : Prop :=
  ∀ lcid ∈ subheader.element?, (rules.elementLength lcid).isSome

def announcedElements (subheaders : List Subheader) : List Lcid :=
  subheaders.filterMap element?

def announcedSdus (subheaders : List Subheader) : List (Lcid × Nat) :=
  subheaders.filterMap sdu?

def recorded (sdu : Lcid × Nat) : Lcid × UInt16 := (sdu.1, UInt16.ofNat sdu.2)

namespace Parsed

def read (rules : ParserRules) (parsed : Parsed) (subheader : Subheader) : Except Fault Parsed :=
  if subheader.lengthField = .none then parsed.readFixed rules subheader.lcid
  else parsed.recordSdu subheader.lcid (UInt16.ofNat subheader.lengthField.value) subheader.size

def readLast (rules : ParserRules) (tbLength : UInt16) (parsed : Parsed) (last : Subheader) :
    Except Fault Parsed :=
  if last.lengthField = .none then parsed.readFixed rules last.lcid
  else parsed.recordSdu last.lcid (parsed.implicitLength tbLength) 1

end Parsed

section Unfolding

variable {rules : ParserRules} {octet second : UInt8}

theorem parseSubheaders_element (element : ¬ (lcidOf octet).val < rules.firstElement)
    (tbLength : UInt16) (rest : List UInt8) (parsed : Parsed) :
    parseSubheaders rules tbLength (octet :: rest) parsed =
      parsed.readFixed rules (lcidOf octet) >>= fun parsed =>
        if hasExtension octet then parseSubheaders rules tbLength rest parsed else pure parsed := by
  rw [parseSubheaders.eq_def]
  simp only [if_neg element]

variable (sdu : (lcidOf octet).val < rules.firstElement)

include sdu

theorem parseSubheaders_lastSdu (last : hasExtension octet = false) (tbLength : UInt16)
    (rest : List UInt8) (parsed : Parsed) :
    parseSubheaders rules tbLength (octet :: rest) parsed =
      parsed.recordSdu (lcidOf octet) (parsed.implicitLength tbLength) 1 := by
  rw [parseSubheaders.eq_def]
  simp [sdu, last]

theorem parseSubheaders_short (more : hasExtension octet) (short : second.toNat < 128)
    (tbLength : UInt16) (rest : List UInt8) (parsed : Parsed) :
    parseSubheaders rules tbLength (octet :: second :: rest) parsed =
      parsed.recordSdu (lcidOf octet) (UInt16.ofNat second.toNat) 2 >>=
        parseSubheaders rules tbLength rest := by
  rw [parseSubheaders.eq_def]
  simp [sdu, more, short]

theorem parseSubheaders_long (more : hasExtension octet) (long : ¬ second.toNat < 128)
    (third : UInt8) (tbLength : UInt16) (rest : List UInt8) (parsed : Parsed) :
    parseSubheaders rules tbLength (octet :: second :: third :: rest) parsed =
      parsed.recordSdu (lcidOf octet) (UInt16.ofNat (second.toNat % 128 * 256 + third.toNat)) 3 >>=
        parseSubheaders rules tbLength rest := by
  rw [parseSubheaders.eq_def]
  simp [sdu, more, if_neg long]

end Unfolding

variable {last subheader : Subheader} {finished subheaders : List Subheader}
  {parsed result : Parsed} {tbLength : UInt16}

variable {rules : ParserRules} {octet : UInt8} {block : List UInt8}

theorem Subheader.Valid.sdu (valid : subheader.Valid rules)
    (announced : subheader.lengthField ≠ .none) : subheader.lcid.val < rules.firstElement :=
  Nat.lt_of_not_le fun element => announced (valid.mpr element)

theorem Subheader.Valid.element (valid : subheader.Valid rules)
    (announced : subheader.lengthField = .none) : ¬ subheader.lcid.val < rules.firstElement :=
  Nat.not_lt.mpr (valid.mp announced)

theorem parseSubheaders_octets (valid : subheader.Valid rules) (tbLength : UInt16)
    (rest : List UInt8) (parsed : Parsed) :
    parseSubheaders rules tbLength (subheader.octets ++ rest) parsed =
      parsed.read rules subheader >>= parseSubheaders rules tbLength rest := by
  have lcid := subheader.lcidOf_openOctet
  have more := subheader.hasExtension_openOctet
  unfold octets
  cases field : subheader.lengthField with
  | none =>
    have element := valid.element field
    rw [← lcid] at element
    simp [LengthField.octets, parseSubheaders_element element, Parsed.read, field]
  | short length =>
    have sdu := valid.sdu (by simp [field])
    rw [← lcid] at sdu
    have octet : (UInt8.ofNat length.val).toNat = length.val := by
      rw [UInt8.toNat_ofNat']
      omega
    have short : (UInt8.ofNat length.val).toNat < 128 := by
      rw [octet]
      exact length.isLt
    simp only [LengthField.octets, cons_append, nil_append,
      parseSubheaders_short sdu more short, octet]
    simp [Parsed.read, field, LengthField.value, size, LengthField.octets]
  | long length =>
    have sdu := valid.sdu (by simp [field])
    rw [← lcid] at sdu
    have high : (UInt8.ofNat (128 + length.val / 256)).toNat = 128 + length.val / 256 := by
      rw [UInt8.toNat_ofNat']
      omega
    have low : (UInt8.ofNat (length.val % 256)).toNat = length.val % 256 := by
      rw [UInt8.toNat_ofNat']
      omega
    have long : ¬ (UInt8.ofNat (128 + length.val / 256)).toNat < 128 := by
      rw [high]
      exact Nat.not_lt.mpr (Nat.le_add_right _ _)
    have whole : (128 + length.val / 256) % 128 * 256 + length.val % 256 = length.val := by
      omega
    simp only [LengthField.octets, cons_append, nil_append,
      parseSubheaders_long sdu more long, high, low, whole]
    simp [Parsed.read, field, LengthField.value, size, LengthField.octets]

theorem parseSubheaders_lastOctet (valid : last.Valid rules) (tbLength : UInt16) (rest : List UInt8)
    (parsed : Parsed) :
    parseSubheaders rules tbLength (last.lastOctet :: rest) parsed =
      parsed.readLast rules tbLength last := by
  have lcid := last.lcidOf_lastOctet
  by_cases fixed : last.lengthField = .none
  · have element := valid.element fixed
    rw [← lcid] at element
    simp [parseSubheaders_element element, readLast, fixed]
  · have sdu := valid.sdu fixed
    rw [← lcid] at sdu
    simp [parseSubheaders_lastSdu sdu, readLast, fixed]

theorem parseSubheaders_headerOctets (valid : ∀ subheader ∈ finished, subheader.Valid rules)
    (validLast : last.Valid rules) (tbLength : UInt16) (rest : List UInt8) (parsed : Parsed) :
    parseSubheaders rules tbLength (headerOctets finished last rest) parsed =
      finished.foldlM (read rules) parsed >>= (·.readLast rules tbLength last) := by
  induction finished generalizing parsed with
  | nil => exact parseSubheaders_lastOctet validLast tbLength rest parsed
  | cons subheader finished ih =>
    have validHead := valid subheader mem_cons_self
    have validTail := fun other mem => valid other (mem_cons_of_mem _ mem)
    show parseSubheaders rules tbLength
      ((subheader.octets ++ chain finished) ++ last.lastOctet :: rest) parsed = _
    rw [append_assoc, parseSubheaders_octets validHead, foldlM_cons, bind_assoc]
    exact congrArg _ (funext (ih validTail))

theorem exists_open (more : hasExtension octet) {field : LengthField}
    (kind : field = .none ↔ rules.firstElement ≤ lcidOf octet) :
    ∃ subheader : Subheader, subheader.Valid rules ∧
      subheader.octets = octet :: field.octets := by
  obtain ⟨subheader, lcid, rfl, same⟩ := exists_octet octet field
  rw [if_pos more] at same
  rw [← lcid] at kind
  exact ⟨subheader, kind, by rw [octets, same]⟩

theorem exists_last (rules : ParserRules) (last : hasExtension octet = false) :
    ∃ subheader : Subheader, subheader.Valid rules ∧ subheader.lastOctet = octet := by
  by_cases element : rules.firstElement ≤ lcidOf octet
  · obtain ⟨subheader, lcid, field, same⟩ := exists_octet octet .none
    rw [if_neg (by simp [last])] at same
    rw [← lcid] at element
    exact ⟨subheader, iff_of_true field element, same.symm⟩
  · obtain ⟨subheader, lcid, field, same⟩ := exists_octet octet (.short 0)
    rw [if_neg (by simp [last])] at same
    rw [← lcid] at element
    exact ⟨subheader, iff_of_false (by simp [field]) element, same.symm⟩

def HasHeader (rules : ParserRules) (block : List UInt8) : Prop :=
  ∃ finished last rest, block = headerOctets finished last rest ∧
    (∀ subheader ∈ finished, subheader.Valid rules) ∧ last.Valid rules

theorem HasHeader.cons (header : HasHeader rules block) {subheader : Subheader}
    (valid : subheader.Valid rules) : HasHeader rules (subheader.octets ++ block) := by
  obtain ⟨finished, last, rest, rfl, validAll, validLast⟩ := header
  refine ⟨subheader :: finished, last, rest, ?_, forall_mem_cons.mpr ⟨valid, validAll⟩, validLast⟩
  simp [headerOctets]

theorem hasHeader_last (last : hasExtension octet = false) (rest : List UInt8) :
    HasHeader rules (octet :: rest) := by
  obtain ⟨subheader, valid, rfl⟩ := exists_last rules last
  exact ⟨[], subheader, rest, rfl, nofun, valid⟩

theorem hasHeader_of_parsed (accepted : parseSubheaders rules tbLength block parsed = .ok result) :
    HasHeader rules block := by
  induction block, parsed using parseSubheaders.induct rules with
  | case1 parsed => cases accepted
  | case2 octet parsed sdu more => simp [parseSubheaders, sdu, more] at accepted
  | case3 octet parsed sdu more second rest short ih =>
    rw [parseSubheaders_short sdu more short, bind_eq_ok] at accepted
    obtain ⟨next, _, accepted⟩ := accepted
    have kind : LengthField.short ⟨second.toNat, short⟩ = .none ↔
        rules.firstElement ≤ lcidOf octet := iff_of_false nofun (Nat.not_le.mpr sdu)
    obtain ⟨subheader, valid, octets⟩ := exists_open more kind
    have header := (ih next accepted).cons valid
    simpa [octets, LengthField.octets] using header
  | case4 octet parsed sdu more second long => simp [parseSubheaders, sdu, more, long] at accepted
  | case5 octet parsed sdu more second long third rest ih =>
    rw [parseSubheaders_long sdu more long, bind_eq_ok] at accepted
    obtain ⟨next, _, accepted⟩ := accepted
    have high : second.toNat < 256 := second.toNat_lt
    have low : third.toNat < 256 := third.toNat_lt
    let length : Fin 32768 := ⟨(second.toNat - 128) * 256 + third.toNat, by omega⟩
    have kind : LengthField.long length = .none ↔ rules.firstElement ≤ lcidOf octet :=
      iff_of_false nofun (Nat.not_le.mpr sdu)
    obtain ⟨subheader, valid, octets⟩ := exists_open more kind
    have first : 128 + length.val / 256 = second.toNat := by
      show 128 + ((second.toNat - 128) * 256 + third.toNat) / 256 = second.toNat
      omega
    have last : length.val % 256 = third.toNat := by
      show ((second.toNat - 128) * 256 + third.toNat) % 256 = third.toNat
      omega
    have header := (ih next accepted).cons valid
    simpa [octets, LengthField.octets, first, last] using header
  | case6 octet rest parsed sdu last => exact hasHeader_last (by simpa using last) rest
  | case7 octet rest parsed element ih =>
    rw [parseSubheaders_element element, bind_eq_ok] at accepted
    obtain ⟨next, _, accepted⟩ := accepted
    cases more : hasExtension octet with
    | false => exact hasHeader_last more rest
    | true =>
      rw [if_pos more] at accepted
      have kind : LengthField.none = .none ↔ rules.firstElement ≤ lcidOf octet :=
        iff_of_true rfl (Nat.not_lt.mp element)
      obtain ⟨subheader, valid, octets⟩ := exists_open more kind
      have header := (ih next accepted).cons valid
      simpa [octets, LengthField.octets] using header

namespace Parsed

def add (rules : ParserRules) (parsed : Parsed) (subheader : Subheader) : Parsed where
  ces := parsed.ces ++ subheader.element?.toList
  sdus := parsed.sdus ++ (subheader.sdu?.map recorded).toList
  ceLen := parsed.ceLen + (subheader.element?.map rules.elementSize).getD 0
  offset := parsed.offset + subheader.size

def InBounds (parsed : Parsed) : Prop :=
  parsed.sdus.length ≤ nbRbMax ∧ parsed.ces.length ≤ maxNumCe

theorem recordSdu_eq_ok (bounds : parsed.InBounds) {lcid : Lcid} {length : UInt16} {size : Nat} :
    parsed.recordSdu lcid length size = .ok result ↔
      result = { parsed with
        sdus := parsed.sdus ++ [(lcid, length)], offset := parsed.offset + size } ∧
      result.InBounds := by
  have longer : (parsed.sdus ++ [(lcid, length)]).length = parsed.sdus.length + 1 :=
    length_append
  unfold recordSdu
  split
  next room =>
    simp only [Except.ok.injEq]
    refine ⟨fun same => ⟨same.symm, ?_⟩, fun both => both.1.symm⟩
    rw [← same]
    exact ⟨longer.trans_le room, bounds.2⟩
  next full =>
    refine ⟨nofun, fun ⟨same, within⟩ => absurd within.1 ?_⟩
    rw [same]
    exact fun room => full (longer.symm.trans_le room)

variable {rules : ParserRules}

theorem readFixed_eq_ok (bounds : parsed.InBounds) (fixed : subheader.lengthField = .none) :
    parsed.readFixed rules subheader.lcid = .ok result ↔
      result = parsed.add rules subheader ∧ result.InBounds ∧ rules.Knows subheader := by
  have none : subheader.sdu? = none := if_pos fixed
  have size : subheader.size = 1 := by simp [size, fixed, LengthField.octets]
  unfold readFixed
  split
  next padding =>
    have element : subheader.element? = Option.none := by simp [element?, padding]
    have added : parsed.add rules subheader = { parsed with offset := parsed.offset + 1 } := by
      simp [add, none, element, size]
    simp only [Except.ok.injEq, added]
    refine ⟨fun same => ⟨same.symm, ?_, by simp [ParserRules.Knows, element]⟩,
      fun all => all.1.symm⟩
    rw [← same]
    exact bounds
  next other =>
    have element : subheader.element? = some subheader.lcid := if_pos ⟨fixed, other⟩
    have longer : (parsed.ces ++ [subheader.lcid]).length = parsed.ces.length + 1 :=
      length_append
    have ces : (parsed.add rules subheader).ces = parsed.ces ++ [subheader.lcid] := by
      simp [add, element]
    unfold recordElement
    split
    next room =>
      cases known : rules.elementLength subheader.lcid with
      | none => simp [ParserRules.Knows, element, known]
      | some length =>
        have added : parsed.add rules subheader =
            { parsed with
              ces := parsed.ces ++ [subheader.lcid]
              ceLen := parsed.ceLen + length
              offset := parsed.offset + 1 } := by
          simp [add, none, element, size, ParserRules.elementSize, known]
        simp only [Except.ok.injEq, added]
        refine ⟨fun same => ⟨same.symm, ?_, by simp [ParserRules.Knows, element, known]⟩,
          fun all => all.1.symm⟩
        rw [← same]
        exact ⟨bounds.1, longer.trans_le room⟩
    next full =>
      refine ⟨fun fault => (by cases fault), fun all => absurd all.2.1.2 ?_⟩
      rw [all.1, ces]
      exact fun room => full (longer.symm.trans_le room)

theorem read_eq_ok (bounds : parsed.InBounds) :
    parsed.read rules subheader = .ok result ↔
      result = parsed.add rules subheader ∧ result.InBounds ∧ rules.Knows subheader := by
  unfold read
  split
  next fixed => exact readFixed_eq_ok bounds fixed
  next announced =>
    have element : subheader.element? = none := by simp [element?, announced]
    have knows : rules.Knows subheader := by simp [ParserRules.Knows, element]
    have added : parsed.add rules subheader =
        { parsed with
          sdus := parsed.sdus ++ [(subheader.lcid, UInt16.ofNat subheader.lengthField.value)]
          offset := parsed.offset + subheader.size } := by
      simp [add, element, sdu?, announced, recorded]
    rw [recordSdu_eq_ok bounds, added]
    simp [knows]

theorem InBounds.of_add (bounds : (parsed.add rules subheader).InBounds) : parsed.InBounds := by
  refine ⟨Nat.le_trans ?_ bounds.1, Nat.le_trans ?_ bounds.2⟩
  · simp [add]
  · simp [add]

theorem InBounds.of_foldl (bounds : (subheaders.foldl (add rules) parsed).InBounds) :
    parsed.InBounds := by
  induction subheaders generalizing parsed with
  | nil => exact bounds
  | cons subheader subheaders ih => exact (ih bounds).of_add

theorem foldlM_read_eq_ok (bounds : parsed.InBounds) :
    subheaders.foldlM (read rules) parsed = .ok result ↔
      result = subheaders.foldl (add rules) parsed ∧ result.InBounds ∧
        ∀ subheader ∈ subheaders, rules.Knows subheader := by
  induction subheaders generalizing parsed with
  | nil =>
    constructor
    · intro same
      cases same
      exact ⟨rfl, bounds, nofun⟩
    · rintro ⟨rfl, _⟩
      rfl
  | cons subheader subheaders ih =>
    rw [foldlM_cons, bind_eq_ok, forall_mem_cons]
    constructor
    · rintro ⟨next, stepped, followed⟩
      obtain ⟨rfl, within, known⟩ := (read_eq_ok bounds).mp stepped
      obtain ⟨same, final, knownAll⟩ := (ih within).mp followed
      exact ⟨same, final, known, knownAll⟩
    · rintro ⟨rfl, final, known, knownAll⟩
      have whole : (subheaders.foldl (add rules) (parsed.add rules subheader)).InBounds := final
      have within := whole.of_foldl
      exact ⟨_, (read_eq_ok bounds).mpr ⟨rfl, within, known⟩,
        (ih within).mpr ⟨rfl, final, knownAll⟩⟩

theorem foldl_add (rules : ParserRules) (subheaders : List Subheader) (parsed : Parsed) :
    subheaders.foldl (add rules) parsed =
      { ces := parsed.ces ++ announcedElements subheaders
        sdus := parsed.sdus ++ (announcedSdus subheaders).map recorded
        ceLen := parsed.ceLen + ((announcedElements subheaders).map rules.elementSize).sum
        offset := parsed.offset + (chain subheaders).length } := by
  induction subheaders generalizing parsed with
  | nil => simp [announcedElements, announcedSdus]
  | cons subheader subheaders ih =>
    rw [foldl_cons, ih]
    cases element : subheader.element? <;> cases sdu : subheader.sdu? <;>
      simp [add, announcedElements, announcedSdus, element, sdu, Nat.add_assoc, UInt16.add_assoc]

theorem implicitLength_eq (parsed : Parsed) (tbLength : UInt16) :
    parsed.implicitLength tbLength =
      tbLength - UInt16.ofNat (parsed.offset + 1) - parsed.ceLen -
        (parsed.sdus.map (·.2)).sum := by
  unfold implicitLength
  generalize tbLength - UInt16.ofNat (parsed.offset + 1) - parsed.ceLen = left
  generalize parsed.sdus.map (·.2) = lengths
  induction lengths generalizing left with
  | nil => simp
  | cons length lengths ih =>
    grind

end Parsed

def elementOctets (rules : ParserRules) (subheaders : List Subheader) : UInt16 :=
  ((announcedElements subheaders).map rules.elementSize).sum

def impliedLength (rules : ParserRules) (tbLength : UInt16) (finished : List Subheader) : UInt16 :=
  tbLength - UInt16.ofNat ((chain finished).length + 1) - elementOctets rules finished -
    ((announcedSdus finished).map fun sdu => UInt16.ofNat sdu.2).sum

def announced (rules : ParserRules) (tbLength : UInt16) (finished : List Subheader)
    (last : Subheader) : Parsed where
  ces := announcedElements (finished ++ [last])
  sdus := (announcedSdus finished).map recorded ++
    if last.lengthField = .none then [] else [(last.lcid, impliedLength rules tbLength finished)]
  ceLen := elementOctets rules (finished ++ [last])
  offset := (chain finished).length + 1

theorem readLast_eq_ok (bounds : (finished.foldl (add rules) .empty).InBounds) :
    (finished.foldl (add rules) .empty).readLast rules tbLength last = .ok result ↔
      result = announced rules tbLength finished last ∧ result.InBounds ∧ rules.Knows last := by
  unfold readLast
  split
  next fixed =>
    rw [readFixed_eq_ok bounds fixed]
    have same : (finished.foldl (add rules) .empty).add rules last =
        announced rules tbLength finished last := by
      have whole := foldl_add rules (finished ++ [last]) .empty
      rw [foldl_append, foldl_cons, foldl_nil] at whole
      rw [whole]
      simp [announced, fixed, empty, announcedSdus, sdu?, elementOctets, size, LengthField.octets]
    rw [same]
  next sdu =>
    have element : last.element? = none := by simp [element?, sdu]
    have knows : rules.Knows last := by simp [ParserRules.Knows, element]
    rw [recordSdu_eq_ok bounds, implicitLength_eq, foldl_add]
    have same : announced rules tbLength finished last =
        { ces := announcedElements finished
          sdus := (announcedSdus finished).map recorded ++
            [(last.lcid, impliedLength rules tbLength finished)]
          ceLen := elementOctets rules finished
          offset := (chain finished).length + 1 } := by
      simp [announced, sdu, announcedElements, element, elementOctets]
    rw [same]
    simp [empty, knows, impliedLength, elementOctets, recorded, Function.comp_def]

theorem parse_eq_ok (valid : ∀ subheader ∈ finished, subheader.Valid rules)
    (validLast : last.Valid rules) {rest : List UInt8} :
    parseSubheaders rules tbLength (headerOctets finished last rest) .empty = .ok result ↔
      result = announced rules tbLength finished last ∧ result.InBounds ∧
        ∀ subheader ∈ finished ++ [last], rules.Knows subheader := by
  have start : empty.InBounds := ⟨Nat.zero_le _, Nat.zero_le _⟩
  rw [parseSubheaders_headerOctets valid validLast, bind_eq_ok]
  constructor
  · rintro ⟨middle, read, closed⟩
    obtain ⟨rfl, within, known⟩ := (foldlM_read_eq_ok start).mp read
    obtain ⟨same, final, knownLast⟩ := (readLast_eq_ok within).mp closed
    refine ⟨same, final, fun subheader mem => ?_⟩
    cases mem_append.mp mem with
    | inl before => exact known subheader before
    | inr isLast => rw [mem_singleton.mp isLast]; exact knownLast
  · rintro ⟨same, final, known⟩
    have within : (finished.foldl (add rules) .empty).InBounds := by
      rw [foldl_add]
      rw [same] at final
      refine ⟨Nat.le_trans ?_ final.1, Nat.le_trans ?_ final.2⟩
      · simp [announced, empty]
      · simp [announced, empty, announcedElements]
    refine ⟨_, (foldlM_read_eq_ok start).mpr ⟨rfl, within, ?_⟩,
      (readLast_eq_ok within).mpr ⟨same, final, known last (by simp)⟩⟩
    exact fun subheader mem => known subheader (mem_append_left _ mem)

end OpenAir.Mac
