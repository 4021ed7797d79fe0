import OpenAir.Mac.Subheader

/-! What the writer of a MAC header has written: it stands on the last
subheader, and those before it are complete with their E bits. -/

set_option autoImplicit false

namespace OpenAir.Mac

open OpenAir.Base List Subheader HeaderWriter

variable {last subheader : Subheader} {finished subheaders : List Subheader} {writer : HeaderWriter}
  {elements : List UInt8} {postPadding : Nat}

namespace HeaderWriter

def put (writer : HeaderWriter) (subheader : Subheader) (rest : List UInt8) : HeaderWriter :=
  { writer with
    header := store writer.header writer.pointer
      ((subheader.lastOctet :: subheader.lengthField.octets) ++ rest)
    lastSize := subheader.size }

theorem putFixed_eq_put (writer : HeaderWriter) (lcid : Lcid) :
    writer.putFixed lcid = writer.put (.fixed lcid) [] := by
  simp [putFixed, put, fixed, lastOctet, size, LengthField.octets]

theorem putSdu_eq_put (writer : HeaderWriter) (lcid : Lcid) (length : Nat) :
    ∃ rest, writer.putSdu lcid length = writer.put (.sdu (lcid, length)) rest := by
  unfold putSdu
  split
  next short =>
    refine ⟨[], ?_⟩
    simp [put, sdu, lastOctet, size, LengthField.ofLength, short, LengthField.octets]
  next long =>
    have high : length % 32768 / 256 = length / 256 % 128 := by omega
    have low : length % 32768 % 256 = length % 256 := by omega
    refine ⟨[0], ?_⟩
    simp [put, sdu, lastOctet, size, LengthField.ofLength, long, LengthField.octets, high, low]

theorem lastOctet_or (zero : subheader.reserved = 0) :
    subheader.lastOctet ||| 0x20 = subheader.openOctet := by
  have all : ∀ lcid : Lcid, UInt8.ofNat lcid ||| 0x20 = UInt8.ofNat (32 + lcid) := by decide
  simp only [lastOctet, openOctet, zero, Fin.val_zero, Nat.zero_mul, Nat.zero_add]
  exact all subheader.lcid

structure Ready (finished : List Subheader) (writer : HeaderWriter) : Prop where
  started : writer.firstElement
  pointer : writer.pointer = (chain finished).length
  before : load writer.header 0 writer.pointer = chain finished

structure Written (finished : List Subheader) (last : Subheader) (writer : HeaderWriter) : Prop
    extends Ready finished writer where
  here : load writer.header writer.pointer last.size =
    last.lastOctet :: last.lengthField.octets
  reserved : last.reserved = 0
  lastSize : writer.lastSize = last.size

theorem Ready.put (ready : Ready finished writer) (zero : subheader.reserved = 0)
    (rest : List UInt8) :
    Written finished subheader (writer.put subheader rest) := by
  refine ⟨⟨ready.started, ready.pointer, ?_⟩, ?_, zero, rfl⟩
  · show load (store writer.header writer.pointer _) 0 writer.pointer = chain finished
    rw [load_store_before _ _ (Nat.le_of_eq (Nat.zero_add _)), ready.before]
  · have whole := load_store writer.header writer.pointer
      ((subheader.lastOctet :: subheader.lengthField.octets) ++ rest)
    rw [length_append, load_add] at whole
    exact (append_inj whole (by simp)).1

theorem Ready.putFixed (ready : Ready finished writer) (lcid : Lcid) :
    Written finished (.fixed lcid) (writer.putFixed lcid) := by
  rw [putFixed_eq_put]
  exact ready.put rfl []

theorem Ready.putSdu (ready : Ready finished writer) (lcid : Lcid) (length : Nat) :
    Written finished (.sdu (lcid, length)) (writer.putSdu lcid length) := by
  obtain ⟨rest, written⟩ := putSdu_eq_put writer lcid length
  rw [written]
  exact ready.put rfl rest

theorem Written.extend (written : Written finished last writer) :
    Ready (finished ++ [last]) (writer.extend.move last.size) := by
  have here := written.here
  rw [size, load_succ] at here
  obtain ⟨first, field⟩ := cons.inj here
  have after : load (store writer.header writer.pointer [last.openOctet]) (writer.pointer + 1)
      last.lengthField.octets.length = last.lengthField.octets := by
    rw [load_store_after _ _ _ (by simp), field]
  refine ⟨written.started, ?_, ?_⟩
  · simp [HeaderWriter.move, HeaderWriter.extend, written.pointer]
  · simp only [HeaderWriter.move, HeaderWriter.extend, first, lastOctet_or written.reserved]
    rw [load_add, load_store_before _ _ (Nat.le_of_eq (Nat.zero_add _)), written.before,
      Nat.zero_add, size, load_succ, store_first, after]
    simp [octets]

inductive Holds : List Subheader → HeaderWriter → Prop where
  | fresh {writer : HeaderWriter} :
      writer.firstElement = false → writer.pointer = 0 → Holds [] writer
  | written {finished : List Subheader} {last : Subheader} {writer : HeaderWriter} :
      Written finished last writer → Holds (finished ++ [last]) writer

theorem holds_start (memory : Nat → UInt8) : Holds [] (start memory) := .fresh rfl rfl

theorem Holds.next {size : Nat} (holds : Holds subheaders writer)
    (sized : ∀ last ∈ subheaders.getLast?, size = last.size) :
    Ready subheaders (writer.next size) := by
  cases holds with
  | fresh first pointer =>
    simp only [next, first]
    exact ⟨rfl, pointer, by simp [pointer]⟩
  | @written finished last _ written =>
    have same : size = last.size := sized last (by simp)
    simp only [next, written.started, same]
    exact written.extend

theorem Holds.lastSize (holds : Holds subheaders writer) :
    ∀ last ∈ subheaders.getLast?, writer.lastSize = last.size := by
  cases holds with
  | fresh => simp
  | written written => simp [written.lastSize]

theorem Holds.withElements (holds : Holds subheaders writer) (elements : List UInt8) :
    Holds subheaders { writer with elements := elements } := by
  cases holds with
  | fresh first pointer => exact .fresh first pointer
  | written written =>
    exact .written ⟨{ written with }, written.here,
      written.reserved, written.lastSize⟩

theorem size_last_fixed (lcids : List Lcid) :
    ∀ last ∈ (lcids.map fixed).getLast?, 1 = last.size := by
  intro last mem
  obtain ⟨lcid, _, rfl⟩ := mem_map.mp (mem_of_getLast? mem)
  rfl

structure Wrote (subheaders : List Subheader) (elements : List UInt8) (writer : HeaderWriter) :
    Prop where
  holds : Holds subheaders writer
  elements : writer.elements = elements

theorem wrote_start (memory : Nat → UInt8) : Wrote [] [] (start memory) :=
  ⟨holds_start memory, rfl⟩

theorem next_elements (writer : HeaderWriter) (size : Nat) :
    (writer.next size).elements = writer.elements := by
  unfold next
  split <;> rfl

theorem Wrote.controlElement {lcids : List Lcid} (wrote : Wrote (lcids.map .fixed) elements writer)
    (lcid : Lcid) (octets : List UInt8) :
    Wrote ((lcids ++ [lcid]).map .fixed) (elements ++ octets)
      (writer.controlElement lcid octets) := by
  have written := (wrote.holds.next (size_last_fixed lcids)).putFixed lcid
  constructor
  · rw [map_append]
    exact (Holds.written written).withElements _
  · show (writer.next 1).elements ++ octets = elements ++ octets
    rw [next_elements, wrote.elements]

theorem Wrote.sduSubheader (wrote : Wrote subheaders elements writer) (sdu : Lcid × Nat) :
    Wrote (subheaders ++ [.sdu sdu]) elements (writer.sduSubheader sdu) := by
  refine ⟨.written ((wrote.holds.next wrote.holds.lastSize).putSdu sdu.1 sdu.2), ?_⟩
  obtain ⟨rest, written⟩ := putSdu_eq_put (writer.next writer.lastSize) sdu.1 sdu.2
  rw [HeaderWriter.sduSubheader, written]
  exact (next_elements _ _).trans wrote.elements

theorem Wrote.sduSubheaders (wrote : Wrote subheaders elements writer) (sdus : List (Lcid × Nat)) :
    Wrote (subheaders ++ sdus.map .sdu) elements
      (sdus.foldl HeaderWriter.sduSubheader writer) := by
  induction sdus generalizing subheaders writer with
  | nil => simpa using wrote
  | cons sdu sdus ih =>
    have rest := ih (wrote.sduSubheader sdu)
    rw [append_assoc] at rest
    exact rest

theorem wrote_paddingSubheaders (memory : Nat → UInt8) {shortPadding : Nat}
    (short : shortPadding ≤ 2) :
    Wrote ((replicate shortPadding Lcid.shortPadding).map .fixed) []
      ((start memory).paddingSubheaders shortPadding) := by
  -- each is written as a control element without octets would be
  have none : Wrote (([] : List Lcid).map .fixed) [] (start memory) := wrote_start memory
  have one : Wrote ([Lcid.shortPadding].map .fixed) [] ((start memory).paddingSubheaders 1) :=
    none.controlElement .shortPadding []
  match shortPadding, short with
  | 0, _ => exact none
  | 1, _ => exact one
  | 2, _ => exact one.controlElement .shortPadding []

def postSubheaders (postPadding : Nat) : List Subheader :=
  if postPadding > 0 then [.fixed .shortPadding] else []

theorem Written.copyElements (written : Written finished last writer) :
    load (writer.move 1).copyElements.header 0 (writer.move 1).copyElements.pointer =
      headerOctets finished last writer.elements := by
  have here := written.here
  rw [size, load_succ] at here
  have subheaders : load writer.header 0 (writer.pointer + 1) =
      chain finished ++ [last.lastOctet] := by
    rw [load_add, written.before, Nat.zero_add, load_succ, (cons.inj here).1, load_zero]
  show load (store writer.header (writer.pointer + 1) writer.elements) 0
    (writer.pointer + 1 + writer.elements.length) = _
  rw [load_add, load_store_before _ _ (Nat.le_of_eq (Nat.zero_add _)), subheaders, Nat.zero_add,
    load_store, append_assoc]
  rfl

theorem Wrote.close (wrote : Wrote subheaders elements writer) (something : subheaders ≠ [])
    (whole : subheaders ++ postSubheaders postPadding = finished ++ [last]) :
    load (writer.close postPadding).copyElements.header 0
        (writer.close postPadding).copyElements.pointer =
      headerOctets finished last elements := by
  obtain ⟨holds, rfl⟩ := wrote
  cases holds with
  | fresh => exact absurd rfl something
  | @written before current _ written =>
    unfold postSubheaders at whole
    split at whole
    next post =>
      obtain ⟨rfl, closing⟩ := append_inj' whole rfl
      obtain rfl := cons.inj closing |>.1
      simp only [close, if_pos post, written.lastSize]
      exact (written.extend.putFixed .shortPadding).copyElements
    next none =>
      rw [append_nil] at whole
      obtain ⟨rfl, same⟩ := append_inj' whole rfl
      obtain rfl := cons.inj same |>.1
      simp only [close, if_neg none]
      exact written.copyElements

theorem Wrote.octets (wrote : Wrote subheaders elements writer) (something : subheaders ≠ [])
    (whole : subheaders ++ postSubheaders postPadding = finished ++ [last])
    (short : (headerOctets finished last elements).length < 256) :
    (writer.close postPadding).copyElements.result.octets =
      headerOctets finished last elements := by
  have written := wrote.close something whole
  have length := congrArg length written
  rw [length_load] at length
  have returned : ((writer.close postPadding).copyElements).result.returned.toNat =
      (writer.close postPadding).copyElements.pointer := by
    simp only [result, UInt8.toNat_ofNat', length]
    exact Nat.mod_eq_of_lt short
  rw [Header.octets, returned]
  exact written

end HeaderWriter

end OpenAir.Mac
