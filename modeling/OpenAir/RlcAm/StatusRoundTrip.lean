import OpenAir.RlcAm.StatusCodec
import OpenAir.RlcAm.AcknowledgementProperties

/-! A STATUS PDU that is written into a clear memory is read back, with the same
items and the same length. -/

set_option autoImplicit false

namespace OpenAir.RlcAm

open OpenAir.Base BitCursor Nat StatusItem

def BitCursor.position (cursor : BitCursor) : Nat := 8 * cursor.byte + cursor.bit

def cursorAt (pos : Nat) : BitCursor :=
  ⟨pos / 8, pos % 8, mod_lt _ (by decide)⟩

theorem BitCursor.ext_position {left right : BitCursor} (same : left.position = right.position) :
    left = right := by
  obtain ⟨leftByte, leftBit, leftInside⟩ := left
  obtain ⟨rightByte, rightBit, rightInside⟩ := right
  simp only [position] at same
  have byte : leftByte = rightByte := by omega
  have bit : leftBit = rightBit := by omega
  subst byte bit
  rfl

@[simp] theorem cursorAt_position (pos : Nat) : (cursorAt pos).position = pos := by
  simp only [cursorAt, BitCursor.position]
  omega

variable {bitsToWrite value : Nat} {cursor : BitCursor}

theorem eq_cursorAt {pos : Nat} (same : cursor.position = pos) :
    cursor = cursorAt pos :=
  ext_position (same.trans (cursorAt_position pos).symm)

theorem BitCursor.position_nextOctet (cursor : BitCursor) :
    cursor.nextOctet.position = cursor.position + (8 - cursor.bit) := by
  have := cursor.inOctet
  simp only [nextOctet, position]
  omega

theorem and_mask (value : Nat) {shift : Nat} (inside : shift ≤ 8) :
    value &&& (0xFF >>> shift) = value % 2 ^ (8 - shift) := by
  have masks : ∀ shift ≤ 8, 0xFF >>> shift = 2 ^ (8 - shift) - 1 := by decide
  rw [masks shift inside, and_two_pow_sub_one_eq_mod]

theorem append_bits {piece width : Nat} (bounded : piece < 2 ^ width) :
    value <<< width ||| piece = value * 2 ^ width + piece := by
  rw [← shiftLeft_add_eq_or_of_lt bounded, shiftLeft_eq]

theorem readBits_eq (memory : Memory) (value : Nat) (cursor : BitCursor) (bitsToRead : Nat)
    (fits : value * 2 ^ bitsToRead + 2 ^ bitsToRead ≤ 2 ^ 16) :
    readBits memory value cursor bitsToRead =
      (value * 2 ^ bitsToRead + field memory cursor.position bitsToRead,
        cursorAt (cursor.position + bitsToRead)) := by
  have whole : ∀ cursor : BitCursor, field memory cursor.position (8 - cursor.bit) =
      (memory cursor.byte).toNat &&& (0x00FF >>> cursor.bit) := by
    intro cursor
    have inside := cursor.inOctet
    rw [position, field_octet _ _ (by omega), Nat.sub_self, Nat.pow_zero, Nat.div_one,
      and_mask _ (Nat.le_of_lt inside)]
  fun_induction readBits memory value cursor bitsToRead with
  | case1 value cursor bitsToRead octet inside =>
    have read : octet >>> (8 - cursor.bit - bitsToRead) =
        field memory cursor.position bitsToRead := by
      have masked : octet = (memory cursor.byte).toNat % 2 ^ (8 - cursor.bit) :=
        and_mask _ (Nat.le_of_lt cursor.inOctet)
      rw [position, field_octet _ _ (by omega), Nat.shiftRight_eq_div_pow, masked]
    have bounded := field_lt memory cursor.position bitsToRead
    rw [read, append_bits bounded, Nat.mod_eq_of_lt (by omega)]
    exact congrArg _ (eq_cursorAt (Nat.add_assoc _ _ _).symm)
  | case2 value cursor octet notInside =>
    have bounded := field_lt memory cursor.position (8 - cursor.bit)
    rw [whole] at bounded ⊢
    rw [append_bits bounded, Nat.mod_eq_of_lt (by omega)]
    exact congrArg _ (eq_cursorAt cursor.position_nextOctet)
  | case3 value cursor bitsToRead octet notInside other ih =>
    have bounded := field_lt memory cursor.position (8 - cursor.bit)
    have pos := cursor.position_nextOctet
    have split : bitsToRead = (8 - cursor.bit) + (bitsToRead - (8 - cursor.bit)) := by omega
    have read : octet = field memory cursor.position (8 - cursor.bit) := (whole cursor).symm
    rw [read] at ih ⊢
    rw [append_bits bounded] at ih ⊢
    rw [split] at fits ⊢
    rw [Nat.add_sub_cancel_left]
    generalize bitsToRead - (8 - cursor.bit) = rest at fits ih ⊢
    generalize 8 - cursor.bit = first at bounded pos fits ih ⊢
    have room : (value * 2 ^ first + field memory cursor.position first) * 2 ^ rest + 2 ^ rest ≤
        2 ^ 16 :=
      calc (value * 2 ^ first + field memory cursor.position first) * 2 ^ rest + 2 ^ rest
          = (value * 2 ^ first + field memory cursor.position first + 1) * 2 ^ rest := by ring
        _ ≤ (value * 2 ^ first + 2 ^ first) * 2 ^ rest := Nat.mul_le_mul_right _ (by omega)
        _ = value * 2 ^ (first + rest) + 2 ^ (first + rest) := by ring
        _ ≤ 2 ^ 16 := fits
    have small : value * 2 ^ first + field memory cursor.position first < 2 ^ 16 := by
      have grows := Nat.le_mul_of_pos_right
        (value * 2 ^ first + field memory cursor.position first) (Nat.two_pow_pos rest)
      have := Nat.two_pow_pos rest
      omega
    rw [Nat.mod_eq_of_lt small] at ih ⊢
    rw [ih room, pos, field_append, Nat.add_assoc cursor.position]
    refine congrArg₂ _ ?_ rfl
    ring

theorem readBitField_eq (memory : Memory) (pos : Nat) {bitsToRead : Nat}
    (short : bitsToRead ≤ 16) :
    readBitField memory (cursorAt pos) bitsToRead =
      (field memory pos bitsToRead, cursorAt (pos + bitsToRead)) := by
  have fits : 0 * 2 ^ bitsToRead + 2 ^ bitsToRead ≤ 2 ^ 16 := by
    rw [Nat.zero_mul, Nat.zero_add]
    exact Nat.pow_le_pow_right Nat.two_pos short
  rw [readBitField, readBits_eq memory 0 (cursorAt pos) bitsToRead fits, cursorAt_position,
    Nat.zero_mul, Nat.zero_add]

structure WritesField (memory : Memory) (cursor : BitCursor) (width value : Nat)
    (result : Memory × BitCursor) : Prop where
  writes : Writes memory result.1 cursor.position width value
  cursor : result.2 = cursorAt (cursor.position + width)

variable {memory : Memory}

/-- The octet at the cursor has room for the bits: their upper ones are masked. -/
theorem write8BitField_inside (room : cursor.bit + bitsToWrite ≤ 8)
    (bounded : value < 2 ^ bitsToWrite ∨ cursor.bit = 0)
    (clear : ClearFrom memory cursor.position) :
    WritesField memory cursor bitsToWrite (value % 2 ^ bitsToWrite)
      (write8BitField memory cursor bitsToWrite value) := by
  have written := writes_octet room (Nat.mod_lt value (Nat.two_pow_pos bitsToWrite)) clear
  rw [write8BitField]
  split
  · have masked :
        value &&& (0xFF >>> (8 - cursor.bit - bitsToWrite)) = value % 2 ^ bitsToWrite := by
      rw [and_mask _ (by omega)]
      rcases bounded with small | aligned
      · have larger : 2 ^ bitsToWrite ≤ 2 ^ (8 - (8 - cursor.bit - bitsToWrite)) :=
          Nat.pow_le_pow_right Nat.two_pos (by omega)
        rw [Nat.mod_eq_of_lt small, Nat.mod_eq_of_lt (by omega)]
      · congr 2
        omega
    rw [masked]
    exact ⟨written, eq_cursorAt (Nat.add_assoc _ _ _).symm⟩
  · have full : 8 - cursor.bit = bitsToWrite := by omega
    have masked : value &&& (0xFF >>> (8 - bitsToWrite)) = value % 2 ^ bitsToWrite := by
      rw [and_mask _ (by omega)]
      congr 2
      omega
    rw [if_pos full, masked]
    rw [full, Nat.sub_self] at written
    exact ⟨written, eq_cursorAt (by rw [cursor.position_nextOctet, full])⟩

theorem write8BitField_writes (short : bitsToWrite ≤ 8) (bounded : value < 2 ^ bitsToWrite)
    (clear : ClearFrom memory cursor.position) :
    WritesField memory cursor bitsToWrite value
      (write8BitField memory cursor bitsToWrite value) := by
  have inOctet := cursor.inOctet
  by_cases room : cursor.bit + bitsToWrite ≤ 8
  · have inside := write8BitField_inside room (.inl bounded) clear
    rwa [Nat.mod_eq_of_lt bounded] at inside
  · -- The field goes on in the next octet, which takes the rest at its start.
    rw [write8BitField, dif_neg (by omega), if_neg (by omega)]
    have split : bitsToWrite = (8 - cursor.bit) + (bitsToWrite - (8 - cursor.bit)) := by omega
    have restShort : cursor.nextOctet.bit + (bitsToWrite - (8 - cursor.bit)) ≤ 8 := by
      simp only [nextOctet]
      omega
    have high : value >>> (bitsToWrite - (8 - cursor.bit)) < 2 ^ (8 - cursor.bit) := by
      rw [Nat.shiftRight_eq_div_pow]
      refine Nat.div_lt_of_lt_mul ?_
      rw [← Nat.pow_add, Nat.add_comm, ← split]
      exact bounded
    have front := writes_octet (show cursor.bit + (8 - cursor.bit) ≤ 8 by omega) high clear
    rw [Nat.sub_self] at front
    have pos := cursor.position_nextOctet
    have clearRest : ClearFrom (orOctet memory cursor.byte
        (value >>> (bitsToWrite - (8 - cursor.bit)))) cursor.nextOctet.position := by
      rw [pos]
      exact front.clear
    have back : WritesField _ cursor.nextOctet _ (value % 2 ^ (bitsToWrite - (8 - cursor.bit))) _ :=
      write8BitField_inside restShort (.inr rfl) clearRest
    have whole := front.trans (pos ▸ back.writes)
    rw [← split, Nat.shiftRight_eq_div_pow, Nat.div_add_mod'] at whole
    rw [Nat.shiftRight_eq_div_pow] at back ⊢
    refine ⟨whole, back.cursor.trans (congrArg _ ?_)⟩
    omega

theorem write16BitField_writes (short : bitsToWrite ≤ 16) (bounded : value < 2 ^ bitsToWrite)
    (clear : ClearFrom memory cursor.position) :
    WritesField memory cursor bitsToWrite value
      (write16BitField memory cursor bitsToWrite value) := by
  have low : value &&& 0x00FF = value % 2 ^ 8 := Nat.and_two_pow_sub_one_eq_mod value 8
  by_cases wide : bitsToWrite > 8
  · have split : bitsToWrite = (bitsToWrite - 8) + 8 := by omega
    have high : value >>> 8 < 2 ^ (bitsToWrite - 8) := by
      rw [Nat.shiftRight_eq_div_pow]
      refine Nat.div_lt_of_lt_mul ?_
      rw [← Nat.pow_add, Nat.add_comm, ← split]
      exact bounded
    have octet : value >>> 8 < 2 ^ 8 :=
      Nat.lt_of_lt_of_le high (Nat.pow_le_pow_right Nat.two_pos (by omega))
    have front := write8BitField_writes (show bitsToWrite - 8 ≤ 8 by omega) high clear
    simp only [write16BitField, if_pos wide, Nat.mod_eq_of_lt octet, low]
    generalize write8BitField memory cursor (bitsToWrite - 8) (value >>> 8) = first at front ⊢
    have pos : first.2.position = cursor.position + (bitsToWrite - 8) := by
      rw [front.cursor, cursorAt_position]
    have back := write8BitField_writes le_rfl (Nat.mod_lt value (Nat.two_pow_pos 8))
      (pos ▸ front.writes.clear)
    have whole := front.writes.trans (pos ▸ back.writes)
    rw [← split, Nat.shiftRight_eq_div_pow, Nat.div_add_mod'] at whole
    refine ⟨whole, back.cursor.trans (congrArg _ ?_)⟩
    omega
  · have octet : value < 2 ^ 8 :=
      Nat.lt_of_lt_of_le bounded (Nat.pow_le_pow_right Nat.two_pos (by omega))
    rw [write16BitField, if_neg wide, low, Nat.mod_eq_of_lt octet]
    exact write8BitField_writes (by omega) bounded clear

theorem write8BitField_at {pos : Nat} (short : bitsToWrite ≤ 8)
    (bounded : value < 2 ^ bitsToWrite) (clear : ClearFrom memory pos) :
    ∃ after, write8BitField memory (cursorAt pos) bitsToWrite value =
        (after, cursorAt (pos + bitsToWrite)) ∧
      Writes memory after pos bitsToWrite value := by
  have start := cursorAt_position pos
  have written := write8BitField_writes short bounded (start.symm ▸ clear)
  obtain ⟨writes, cursor⟩ := written
  rw [start] at writes cursor
  exact ⟨_, Prod.ext rfl cursor, writes⟩

theorem write16BitField_at {pos : Nat} (short : bitsToWrite ≤ 16)
    (bounded : value < 2 ^ bitsToWrite) (clear : ClearFrom memory pos) :
    ∃ after, write16BitField memory (cursorAt pos) bitsToWrite value =
        (after, cursorAt (pos + bitsToWrite)) ∧
      Writes memory after pos bitsToWrite value := by
  have start := cursorAt_position pos
  have written := write16BitField_writes short bounded (start.symm ▸ clear)
  obtain ⟨writes, cursor⟩ := written
  rw [start] at writes cursor
  exact ⟨_, Prod.ext rfl cursor, writes⟩

def StatusItem.width (item : StatusItem) : Nat := if item.e2 then 42 else 12

structure StatusItem.StandsAt (item : StatusItem) (memory : Memory) (pos : Nat) : Prop where
  nackSn : field memory pos 10 = item.nackSn
  e1 : field memory (pos + 10) 1 = item.e1.toNat
  e2 : field memory (pos + 11) 1 = item.e2.toNat
  soStart : item.e2 → field memory (pos + 12) 15 = item.soStart
  soEnd : item.e2 → field memory (pos + 27) 15 = item.soEnd

def StandAt (memory : Memory) (pos : Nat) : List StatusItem → Prop
  | [] => True
  | item :: rest => item.StandsAt memory pos ∧ StandAt memory (pos + item.width) rest

def StatusItem.asRead (item : StatusItem) : StatusItem :=
  if item.e2 then item else { item with soStart := 0, soEnd := 0x7FFF }

def itemsWidth (items : List StatusItem) : Nat := (items.map width).sum

section Items

variable {memory other : Memory} {pos : Nat} {item : StatusItem} {items : List StatusItem}

theorem StatusItem.StandsAt.congr (stands : item.StandsAt memory pos)
    (agree : ∀ earlier < pos + item.width, bitAt other earlier = bitAt memory earlier) :
    item.StandsAt other pos := by
  have kept : ∀ start width, start + width ≤ pos + item.width →
      field other start width = field memory start width := fun start width inside =>
    field_congr fun index below => agree _ (by omega)
  have short : 12 ≤ item.width := by
    unfold width
    split
    · decide
    · decide
  have long : item.e2 → item.width = 42 := fun set => if_pos set
  refine ⟨?_, ?_, ?_, fun set => ?_, fun set => ?_⟩
  · rw [kept _ _ (by omega), stands.nackSn]
  · rw [kept _ _ (by omega), stands.e1]
  · rw [kept _ _ (by omega), stands.e2]
  · rw [kept _ _ (by rw [long set]; omega), stands.soStart set]
  · rw [kept _ _ (by rw [long set]), stands.soEnd set]

structure WritesItems (memory : Memory) (pos : Nat) (items : List StatusItem)
    (result : Memory × BitCursor) : Prop where
  below : ∀ earlier < pos, bitAt result.1 earlier = bitAt memory earlier
  stand : StandAt result.1 pos items
  clear : ClearFrom result.1 (pos + itemsWidth items)
  cursor : result.2 = cursorAt (pos + itemsWidth items)

theorem writeNackItem_writes (clear : ClearFrom memory pos) :
    WritesItems memory pos [item] (writeNackItem memory (cursorAt pos) item) := by
  obtain ⟨sn, snWritten, snWrites⟩ :=
    write16BitField_at (show 10 ≤ 16 by decide) item.nackSn.isLt clear
  obtain ⟨e1, e1Written, e1Writes⟩ :=
    write8BitField_at (show 1 ≤ 8 by decide) (Bool.toNat_lt item.e1) snWrites.clear
  obtain ⟨e2, e2Written, e2Writes⟩ :=
    write8BitField_at (show 1 ≤ 8 by decide) (Bool.toNat_lt item.e2) e1Writes.clear
  simp only [writeNackItem, snWritten, e1Written, e2Written]
  cases offsets : item.e2 with
  | false =>
    have width : itemsWidth [item] = 12 := by simp [itemsWidth, width, offsets]
    refine ⟨fun earlier before => ?_, ⟨⟨?_, ?_, ?_, ?_, ?_⟩, trivial⟩, ?_, ?_⟩
    · rw [if_neg Bool.false_ne_true, e2Writes.below _ (by omega), e1Writes.below _ (by omega),
        snWrites.below _ before]
    · rw [if_neg Bool.false_ne_true, e2Writes.keeps (by omega), e1Writes.keeps (by omega),
        snWrites.field]
    · rw [if_neg Bool.false_ne_true, e2Writes.keeps (by omega), e1Writes.field]
    · rw [if_neg Bool.false_ne_true, e2Writes.field]
    · exact fun set => absurd (offsets.symm.trans set) Bool.false_ne_true
    · exact fun set => absurd (offsets.symm.trans set) Bool.false_ne_true
    · rw [width]
      exact e2Writes.clear
    · rw [width]
      rfl
  | true =>
    obtain ⟨soStart, startWritten, startWrites⟩ :=
      write16BitField_at (show 15 ≤ 16 by decide) item.soStart.isLt e2Writes.clear
    obtain ⟨soEnd, endWritten, endWrites⟩ :=
      write16BitField_at (show 15 ≤ 16 by decide) item.soEnd.isLt startWrites.clear
    have width : itemsWidth [item] = 42 := by simp [itemsWidth, width, offsets]
    simp only [if_true, startWritten, endWritten]
    refine ⟨fun earlier before => ?_, ⟨⟨?_, ?_, ?_, fun _ => ?_, fun _ => ?_⟩, trivial⟩, ?_, ?_⟩
    · rw [endWrites.below _ (by omega), startWrites.below _ (by omega), e2Writes.below _ (by omega),
        e1Writes.below _ (by omega), snWrites.below _ before]
    · rw [endWrites.keeps (by omega), startWrites.keeps (by omega), e2Writes.keeps (by omega),
        e1Writes.keeps (by omega), snWrites.field]
    · rw [endWrites.keeps (by omega), startWrites.keeps (by omega), e2Writes.keeps (by omega),
        e1Writes.field]
    · rw [endWrites.keeps (by omega), startWrites.keeps (by omega), e2Writes.field]
    · rw [endWrites.keeps (by omega), startWrites.field]
    · exact endWrites.field
    · rw [width]
      exact endWrites.clear
    · rw [width]

theorem writeNackItems_writes (clear : ClearFrom memory pos) :
    WritesItems memory pos items (writeNackItems memory (cursorAt pos) items) := by
  induction items generalizing memory pos with
  | nil => exact ⟨fun _ _ => rfl, trivial, clear, rfl⟩
  | cons item rest ih =>
    have head : WritesItems memory pos [item] _ := writeNackItem_writes clear
    simp only [writeNackItems]
    generalize writeNackItem memory (cursorAt pos) item = first at head ⊢
    obtain ⟨after, cursor⟩ := first
    obtain ⟨below, ⟨stands, _⟩, headClear, headEnd⟩ := head
    subst headEnd
    have tail := ih headClear
    have total : itemsWidth (item :: rest) = item.width + itemsWidth rest := by
      simp [itemsWidth]
    refine ⟨fun earlier before => ?_, ⟨stands.congr tail.below, tail.stand⟩, ?_, ?_⟩
    · rw [tail.below _ (by omega), below _ before]
    · rw [total, ← add_assoc]
      exact tail.clear
    · rw [total, ← add_assoc]
      exact tail.cursor

theorem StatusItem.StandsAt.read (stands : item.StandsAt memory pos) :
    readNackItem memory (cursorAt pos) = (item.asRead, cursorAt (pos + item.width)) := by
  have ten : 10 ≤ 16 := by decide
  have one : 1 ≤ 16 := by decide
  have fifteen : 15 ≤ 16 := by decide
  simp only [readNackItem, readBitField_eq _ _ ten, readBitField_eq _ _ one,
    readBitField_eq _ _ fifteen, add_assoc, reduceAdd, stands.nackSn, stands.e1, stands.e2]
  cases offsets : item.e2 with
  | false =>
    simp [asRead, width, offsets]
  | true =>
    simp [asRead, width, offsets, stands.soStart offsets, stands.soEnd offsets]
    obtain ⟨nackSn, e1, e2, soStart, soEnd⟩ := item
    cases offsets
    rfl

def E1Marks : List StatusItem → Prop
  | [] => True
  | item :: rest => (item.e1 = true ↔ rest ≠ []) ∧ E1Marks rest

theorem readNackItems_eq {left : Nat} (earlier : List StatusItem) (some : items ≠ [])
    (few : items.length ≤ left) (marks : E1Marks items) (stand : StandAt memory pos items) :
    readNackItems memory (cursorAt pos) left earlier =
      (0, earlier ++ items.map asRead, cursorAt (pos + itemsWidth items)) := by
  induction items generalizing pos left earlier with
  | nil => exact absurd rfl some
  | cons item rest ih =>
    obtain ⟨marked, restMarks⟩ := marks
    obtain ⟨stands, restStand⟩ := stand
    have e1 : item.asRead.e1 = item.e1 := by
      unfold asRead
      split
      · rfl
      · rfl
    have total : pos + itemsWidth (item :: rest) =
        pos + item.width + itemsWidth rest := by
      simp [itemsWidth, add_assoc]
    cases left with
    | zero => exact absurd few (not_succ_le_zero _)
    | succ left =>
      simp only [readNackItems, stands.read, e1]
      cases follows : item.e1 with
      | false =>
        have last : rest = [] := by
          by_contra more
          cases follows.symm.trans (marked.mpr more)
        subst last
        rfl
      | true =>
        have more := marked.mp follows
        have room := List.length_pos_of_ne_nil more
        have fewer : rest.length ≤ left := le_of_succ_le_succ few
        rw [if_neg (Bool.false_ne_true ∘ Eq.symm), if_neg (by omega),
          ih (earlier ++ [item.asRead]) more fewer restMarks restStand, total, List.append_assoc]
        rfl

end Items

def StatusPdu.asRead (pdu : StatusPdu) : StatusPdu :=
  { dC := false
    cpt := 0
    ackSn := pdu.ackSn
    e1 := decide (pdu.nackList ≠ [])
    nackList := pdu.nackList.map StatusItem.asRead }

theorem status_header_fields (memory : Memory) :
    let b1 := (memory 0).toNat
    let b2 := (memory 1).toNat
    b1 >>> 7 = field memory 0 1 ∧ (b1 >>> 4) &&& 0x07 = field memory 1 3 ∧
      ((b2 >>> 2) &&& 0x3F ||| (b1 &&& 0x0F) <<< 6) = field memory 4 10 ∧
      (b2 >>> 1) &&& 0x01 = field memory 14 1 := by
  intro b1 b2
  have b1Lt : b1 < 256 := UInt8.toNat_lt _
  have dC : field memory 0 1 = b1 % 2 ^ 8 / 2 ^ 7 := field_octet memory 0 (show 0 + 1 ≤ 8 by decide)
  have cpt :
      field memory 1 3 = b1 % 2 ^ 7 / 2 ^ 4 := field_octet memory 0 (show 1 + 3 ≤ 8 by decide)
  have high : field memory 4 4 = b1 % 2 ^ 4 / 2 ^ 0 :=
    field_octet memory 0 (show 4 + 4 ≤ 8 by decide)
  have low : field memory 8 6 = b2 % 2 ^ 8 / 2 ^ 2 :=
    field_octet memory 1 (show 0 + 6 ≤ 8 by decide)
  have e1 : field memory 14 1 = b2 % 2 ^ 2 / 2 ^ 1 :=
    field_octet memory 1 (show 6 + 1 ≤ 8 by decide)
  have ackSn : field memory 4 10 = field memory 4 4 * 2 ^ 6 + field memory 8 6 :=
    field_append memory 4 4 6
  have mask3 : (b1 >>> 4) &&& 0x07 = b1 / 2 ^ 4 % 2 ^ 3 := by
    rw [← Nat.shiftRight_eq_div_pow]
    exact Nat.and_two_pow_sub_one_eq_mod _ 3
  have mask6 : (b2 >>> 2) &&& 0x3F = b2 / 2 ^ 2 % 2 ^ 6 := by
    rw [← Nat.shiftRight_eq_div_pow]
    exact Nat.and_two_pow_sub_one_eq_mod _ 6
  have mask4 : b1 &&& 0x0F = b1 % 2 ^ 4 := Nat.and_two_pow_sub_one_eq_mod b1 4
  have mask1 : (b2 >>> 1) &&& 0x01 = b2 / 2 ^ 1 % 2 ^ 1 := by
    exact Nat.and_two_pow_sub_one_eq_mod _ 1
  refine ⟨?_, ?_, ?_, ?_⟩
  · omega
  · omega
  · rw [ackSn, high, low, mask6, mask4, Nat.or_comm, append_bits (Nat.mod_lt _ (by decide))]
    omega
  · omega

/-- A STATUS PDU of `size` octets stands in the memory: the header and the items. -/
structure StatusPdu.StandsIn (pdu : StatusPdu) (memory : Memory) (size : Nat) : Prop where
  dC : field memory 0 1 = 0
  cpt : field memory 1 3 = 0
  ackSn : field memory 4 10 = pdu.ackSn
  e1 : field memory 14 1 = (decide (pdu.nackList ≠ [])).toNat
  items : StandAt memory 15 pdu.nackList
  size : size = (15 + itemsWidth pdu.nackList + 7) / 8

theorem octets_cursorAt (pos : Nat) :
    (if (cursorAt pos).bit > 0 then (cursorAt pos).byte + 1
      else (cursorAt pos).byte) = (pos + 7) / 8 := by
  by_cases unfinished : (cursorAt pos).bit > 0
  · rw [if_pos unfinished]
    simp only [cursorAt] at unfinished ⊢
    omega
  · rw [if_neg unfinished]
    simp only [cursorAt] at unfinished ⊢
    omega

theorem writeStatusPdu_stands (pdu : StatusPdu) :
    pdu.StandsIn (writeStatusPdu (fun _ => 0) pdu).1 (writeStatusPdu (fun _ => 0) pdu).2 := by
  have zero : ∀ pos, bitAt (fun _ => 0) pos = false := by simp [bitAt]
  have zeros : ∀ pos width, field (fun _ => 0) pos width = 0 := by
    intro pos width
    induction width with
    | zero => rfl
    | succ width ih => rw [field, ih, zero]; rfl
  have e1Lt : (if pdu.nackList.length > 0 then 1 else 0) < 2 ^ 1 := by
    split
    · decide
    · decide
  have e1Eq : (if pdu.nackList.length > 0 then 1 else 0) =
      (decide (pdu.nackList ≠ [])).toNat := by
    cases pdu.nackList with
    | nil => rfl
    | cons item rest => rfl
  have clear : ClearFrom (fun _ => 0) 4 := fun later _ => zero later
  obtain ⟨ack, ackWritten, ackWrites⟩ :=
    write16BitField_at (show 10 ≤ 16 by decide) pdu.ackSn.isLt clear
  obtain ⟨e1, e1Written, e1Writes⟩ :=
    write8BitField_at (show 1 ≤ 8 by decide) e1Lt ackWrites.clear
  have items : WritesItems e1 15 pdu.nackList (writeNackItems e1 (cursorAt 15) pdu.nackList) :=
    writeNackItems_writes e1Writes.clear
  have keeps : ∀ pos width, pos + width ≤ 15 →
      field (writeNackItems e1 (cursorAt 15) pdu.nackList).1 pos width =
        field e1 pos width := fun pos width inside =>
    field_congr fun index below => items.below _ (by omega)
  have written : writeStatusPdu (fun _ => 0) pdu =
      ((writeNackItems e1 (cursorAt 15) pdu.nackList).1,
        if (writeNackItems e1 (cursorAt 15) pdu.nackList).2.bit > 0 then
          (writeNackItems e1 (cursorAt 15) pdu.nackList).2.byte + 1
        else (writeNackItems e1 (cursorAt 15) pdu.nackList).2.byte) := by
    have start : (⟨0, 4, by decide⟩ : BitCursor) = cursorAt 4 := rfl
    simp only [writeStatusPdu, start, ackWritten, e1Written]
  rw [written]
  refine ⟨?_, ?_, ?_, ?_, items.stand, ?_⟩
  · rw [keeps 0 1 (by decide), e1Writes.keeps (by decide), ackWrites.keeps (by decide), zeros]
  · rw [keeps 1 3 (by decide), e1Writes.keeps (by decide), ackWrites.keeps (by decide), zeros]
  · rw [keeps 4 10 (by decide), e1Writes.keeps (by decide), ackWrites.field]
  · rw [keeps 14 1 (by decide), e1Writes.field, e1Eq]
  · rw [items.cursor, octets_cursorAt]

theorem StatusPdu.StandsIn.read {pdu : StatusPdu} {size : Nat} (stands : pdu.StandsIn memory size)
    (few : pdu.nackList.length ≤ rlcAmMaxNackInStatusPdu) (marks : E1Marks pdu.nackList) :
    getControlPduInfos memory size = ⟨0, 0, pdu.asRead⟩ := by
  obtain ⟨dC, cpt, ackSn, e1, items, rfl⟩ := stands
  obtain ⟨dCRead, cptRead, ackSnRead, e1Read⟩ := status_header_fields memory
  have start : (⟨1, 7, by decide⟩ : BitCursor) = cursorAt 15 := rfl
  simp only [getControlPduInfos, dCRead, cptRead, ackSnRead, e1Read, dC, cpt, ackSn, e1, start]
  by_cases empty : pdu.nackList = []
  · simp [empty, StatusPdu.asRead, itemsWidth]
  · have read := readNackItems_eq [] empty few marks items
    have used : (15 + itemsWidth pdu.nackList + 7) / 8 =
        (15 + itemsWidth pdu.nackList) / 8 + ((15 + itemsWidth pdu.nackList) % 8 + 7) / 8 := by
      omega
    rw [read, used]
    simp [empty, StatusPdu.asRead, cursorAt]

/-- The description is read back, and just the octets that were written are consumed. -/
theorem status_pdu_round_trip (pdu : StatusPdu) (few : pdu.nackList.length ≤ 1022)
    (marks : E1Marks pdu.nackList) :
    let written := writeStatusPdu (fun _ => 0) pdu
    getControlPduInfos written.1 written.2 = ⟨0, 0, pdu.asRead⟩ :=
  (writeStatusPdu_stands pdu).read (few.trans (by decide)) marks

def twoNacks : StatusPdu :=
  { dC := false, cpt := 0, ackSn := 900, e1 := true
    nackList := [⟨513, true, false, 0, 0x7FFF⟩, ⟨700, false, true, 3, 0x1234⟩] }

theorem status_pdu_round_trip_two_nacks :
    twoNacks.asRead = twoNacks ∧
      getControlPduInfos (writeStatusPdu (fun _ => 0) twoNacks).1
        (writeStatusPdu (fun _ => 0) twoNacks).2 = ⟨0, 0, twoNacks.asRead⟩ := by
  refine ⟨by decide, status_pdu_round_trip twoNacks (by decide) ?_⟩
  simp [twoNacks, E1Marks]

theorem controlPduInfo_decoded (pdu : StatusPdu) : pdu.controlPduInfo.Decoded where
  ackSn := pdu.ackSn.isLt
  nackSn := by
    intro item mem
    obtain ⟨read, _, rfl⟩ := List.mem_map.mp mem
    exact read.nackSn.isLt
  offsets := by
    intro item mem
    obtain ⟨read, _, rfl⟩ := List.mem_map.mp mem
    exact ⟨le_of_lt_succ read.soStart.isLt, le_of_lt_succ read.soEnd.isLt⟩

end OpenAir.RlcAm
