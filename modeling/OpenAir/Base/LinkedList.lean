import Mathlib.Data.List.Basic
import Mathlib.Data.List.Induction

/-! Doubly linked lists in a memory of numbered cells. A list describes a
sequence of cells if its links in both directions, its ends and its count all
agree with the sequence; every operation keeps that. -/

set_option autoImplicit false

namespace OpenAir.Base

open List

structure LinkedList where
  head : Option Nat
  tail : Option Nat
  nbElements : Int
  next : Nat → Option Nat
  previous : Nat → Option Nat

variable {cell element : Nat}

namespace LinkedList

def empty : LinkedList :=
  { head := none, tail := none, nbElements := 0, next := fun _ => none, previous := fun _ => none }

def setNext (list : LinkedList) (cell : Nat) (link : Option Nat) : LinkedList :=
  { list with next := Function.update list.next cell link }

def setPrevious (list : LinkedList) (cell : Nat) (link : Option Nat) : LinkedList :=
  { list with previous := Function.update list.previous cell link }

def addHead (list : LinkedList) (cell : Nat) : LinkedList :=
  match list.head with
  | none =>
    { list with head := some cell, tail := some cell, nbElements := list.nbElements + 1 }
  | some head =>
    { ((list.setNext cell (some head)).setPrevious head (some cell)).setPrevious cell none with
      head := some cell
      nbElements := list.nbElements + 1 }

def addTail (list : LinkedList) (cell : Nat) : LinkedList :=
  let added := list.setNext cell none
  match list.tail with
  | none =>
    { added.setPrevious cell none with
      head := some cell, tail := some cell, nbElements := list.nbElements + 1 }
  | some tail =>
    { (added.setNext tail (some cell)).setPrevious cell (some tail) with
      tail := some cell, nbElements := list.nbElements + 1 }

def removeHead (list : LinkedList) : LinkedList :=
  match list.head with
  | none => list
  | some head =>
    let list := { list with head := list.next head, nbElements := list.nbElements - 1 }
    match list.head with
    | none => { list with tail := none }
    | some next => (list.setPrevious next none).setNext head none

def insertBefore (list : LinkedList) (cell element : Nat) : LinkedList :=
  let previous := list.previous element
  let linked := ((list.setPrevious cell previous).setNext cell (some element)).setPrevious element
    (some cell)
  let counted := { linked with nbElements := list.nbElements + 1 }
  match previous with
  | some previous => counted.setNext previous (some cell)
  | none => if list.head = some element then { counted with head := some cell } else counted

def insertAfter (list : LinkedList) (cell element : Nat) : LinkedList :=
  let next := list.next element
  let linked := ((list.setPrevious cell (some element)).setNext cell next).setNext element
    (some cell)
  let counted := { linked with nbElements := list.nbElements + 1 }
  match next with
  | some next => counted.setPrevious next (some cell)
  | none => if list.tail = some element then { counted with tail := some cell } else counted

/-- The cells are linked in both directions, from a cell `before` to one `after`. -/
def Segment (list : LinkedList) : Option Nat → List Nat → Option Nat → Prop
  | _, [], _ => True
  | before, cell :: rest, after =>
    list.previous cell = before ∧ list.next cell = rest.head?.or after ∧
      list.Segment (some cell) rest after

structure Describes (list : LinkedList) (cells : List Nat) : Prop where
  nodup : cells.Nodup
  head : list.head = cells.head?
  tail : list.tail = cells.getLast?
  count : list.nbElements = cells.length
  segment : list.Segment none cells none

variable {list other : LinkedList} {before after : Option Nat} {front back cells : List Nat}

theorem getLast?_cons_or : (cell :: cells).getLast?.or before = cells.getLast?.or (some cell) := by
  rw [getLast?_cons]
  cases cells.getLast? <;> rfl

theorem segment_append :
    list.Segment before (front ++ back) after ↔
      list.Segment before front (back.head?.or after) ∧
        list.Segment (front.getLast?.or before) back after := by
  induction front generalizing before with
  | nil => simp [Segment]
  | cons cell rest ih =>
    simp only [cons_append, Segment, ih, getLast?_cons_or, head?_append, Option.or_assoc]
    tauto

theorem Segment.congr (segment : list.Segment before cells after)
    (next : ∀ cell ∈ cells, other.next cell = list.next cell)
    (previous : ∀ cell ∈ cells, other.previous cell = list.previous cell) :
    other.Segment before cells after := by
  induction cells generalizing before with
  | nil => exact trivial
  | cons cell rest ih =>
    obtain ⟨backward, forward, others⟩ := segment
    refine ⟨(previous cell mem_cons_self).trans backward,
      (next cell mem_cons_self).trans forward, ih others ?_ ?_⟩
    · exact fun cell mem => next cell (mem_cons_of_mem _ mem)
    · exact fun cell mem => previous cell (mem_cons_of_mem _ mem)

theorem Segment.around (segment : list.Segment none (front ++ element :: back) none) :
    list.previous element = front.getLast? ∧ list.next element = back.head? := by
  obtain ⟨-, backward, forward, -⟩ := segment_append.mp segment
  rw [Option.or_none] at backward forward
  exact ⟨backward, forward⟩

theorem Segment.retarget {target : Option Nat} (segment : list.Segment before front after)
    (nodup : front.Nodup)
    (next : ∀ cell ∈ front,
      other.next cell = if front.getLast? = some cell then target else list.next cell)
    (previous : ∀ cell ∈ front, other.previous cell = list.previous cell) :
    other.Segment before front target := by
  rcases eq_nil_or_concat' front with rfl | ⟨start, last, rfl⟩
  · exact trivial
  · obtain ⟨earlier, backward, _, _⟩ := segment_append.mp segment
    have apart : last ∉ start := by grind
    refine segment_append.mpr ⟨earlier.congr ?_ ?_, ?_, ?_, trivial⟩
    · intro cell mem
      rw [next cell (mem_append_left _ mem), if_neg]
      simpa using fun same : last = cell => apart (same ▸ mem)
    · exact fun cell mem => previous cell (mem_append_left _ mem)
    · exact (previous last (by simp)).trans backward
    · simpa using next last (by simp)

theorem Segment.resource {source : Option Nat} (segment : list.Segment before back after)
    (nodup : back.Nodup) (next : ∀ cell ∈ back, other.next cell = list.next cell)
    (previous : ∀ cell ∈ back,
      other.previous cell = if back.head? = some cell then source else list.previous cell) :
    other.Segment source back after := by
  cases back with
  | nil => exact trivial
  | cons first rest =>
    obtain ⟨_, forward, later⟩ := segment
    have apart : first ∉ rest := (nodup_cons.mp nodup).1
    refine ⟨?_, (next first mem_cons_self).trans forward, later.congr ?_ ?_⟩
    · simpa using previous first mem_cons_self
    · exact fun cell mem => next cell (mem_cons_of_mem _ mem)
    · intro cell mem
      rw [previous cell (mem_cons_of_mem _ mem), if_neg]
      simpa using fun same : first = cell => apart (same ▸ mem)

theorem Segment.insert (segment : list.Segment none (front ++ back) none)
    (distinct : (front ++ back).Nodup) (fresh : cell ∉ front ++ back)
    (next : ∀ third, other.next third = if third = cell then back.head?
      else if front.getLast? = some third then some cell else list.next third)
    (previous : ∀ third, other.previous third = if third = cell then front.getLast?
      else if back.head? = some third then some cell else list.previous third) :
    other.Segment none (front ++ cell :: back) none := by
  obtain ⟨earlier, later⟩ := segment_append.mp segment
  obtain ⟨nodupFront, nodupBack, apart⟩ := nodup_append.mp distinct
  have first : ∀ third, back.head? = some third → third ∈ back := fun _ => mem_of_mem_head?
  have last : ∀ third, front.getLast? = some third → third ∈ front :=
    fun _ => mem_of_mem_getLast?
  refine segment_append.mpr ⟨?_, ?_, ?_, ?_⟩
  · refine earlier.retarget nodupFront ?_ ?_
    · grind
    · grind
  · simp [previous]
  · simp [next]
  · refine later.resource nodupBack ?_ ?_
    · grind
    · grind

theorem Segment.erase (segment : list.Segment none (front ++ cell :: back) none)
    (distinct : (front ++ cell :: back).Nodup)
    (next : ∀ third, other.next third =
      if front.getLast? = some third then back.head? else list.next third)
    (previous : ∀ third, other.previous third =
      if back.head? = some third then front.getLast? else list.previous third) :
    other.Segment none (front ++ back) none := by
  obtain ⟨earlier, -, -, later⟩ := segment_append.mp segment
  obtain ⟨nodupFront, nodupBack, apart⟩ := nodup_append.mp distinct
  have first : ∀ third, back.head? = some third → third ∈ back := fun _ => mem_of_mem_head?
  have last : ∀ third, front.getLast? = some third → third ∈ front :=
    fun _ => mem_of_mem_getLast?
  refine segment_append.mpr ⟨?_, ?_⟩
  · refine earlier.retarget nodupFront ?_ ?_
    · grind
    · grind
  · refine later.resource (nodup_cons.mp nodupBack).2 ?_ ?_
    · grind
    · grind

theorem Describes.insert (describes : list.Describes (front ++ back)) (fresh : cell ∉ front ++ back)
    (head : other.head = if front = [] then some cell else list.head)
    (tail : other.tail = if back = [] then some cell else list.tail)
    (count : other.nbElements = list.nbElements + 1)
    (next : ∀ third, other.next third = if third = cell then back.head?
      else if front.getLast? = some third then some cell else list.next third)
    (previous : ∀ third, other.previous third = if third = cell then front.getLast?
      else if back.head? = some third then some cell else list.previous third) :
    other.Describes (front ++ cell :: back) := by
  have nodup : (front ++ cell :: back).Nodup := by
    have before := nodup_append.mp describes.nodup
    grind
  refine ⟨nodup, ?_, ?_, ?_, describes.segment.insert describes.nodup fresh next previous⟩
  · rw [head, describes.head]
    cases front with
    | nil => rfl
    | cons first rest => rfl
  · rw [tail, describes.tail]
    cases back with
    | nil => simp
    | cons first rest => simp [getLast?_append, getLast?_cons_cons]
  · rw [count, describes.count]
    simp only [length_append, length_cons]
    omega

theorem empty_describes : empty.Describes [] :=
  ⟨.nil, rfl, rfl, rfl, trivial⟩

theorem addHead_empty (describes : list.Describes []) (next : list.next cell = none)
    (previous : list.previous cell = none) : (list.addHead cell).Describes [cell] := by
  have noHead : list.head = none := describes.head
  have count := describes.count
  simp only [addHead, noHead]
  exact ⟨by simp, rfl, rfl, by simp [count], previous, next, trivial⟩

theorem addTail_describes (describes : list.Describes cells) (fresh : cell ∉ cells) :
    (list.addTail cell).Describes (cells ++ [cell]) := by
  have whole : list.Describes (cells ++ []) := by rwa [append_nil]
  rw [← append_nil cells] at fresh
  rcases eq_nil_or_concat' cells with rfl | ⟨front, last, rfl⟩
  · have tail : list.tail = none := describes.tail
    refine whole.insert fresh ?_ ?_ ?_ ?_ ?_ <;>
      simp only [addTail, tail, setNext, setPrevious] <;> grind
  · have tail : list.tail = some last := by simpa using describes.tail
    refine whole.insert fresh ?_ ?_ ?_ ?_ ?_ <;>
      simp only [addTail, tail, setNext, setPrevious, concat_ne_nil, if_false] <;> grind

theorem removeHead_describes (describes : list.Describes (cell :: cells)) :
    list.removeHead.Describes cells := by
  obtain ⟨_, forward, later⟩ := describes.segment
  have head : list.head = some cell := describes.head
  have count := describes.count
  have nodup := nodup_cons.mp describes.nodup
  have next : list.next cell = cells.head? := by simpa using forward
  cases cells with
  | nil =>
    simp only [removeHead, head, next, head?_nil]
    refine ⟨.nil, rfl, rfl, ?_, trivial⟩
    simp only [count, length_cons, length_nil]
    omega
  | cons first rest =>
    simp only [removeHead, head, next, head?_cons]
    have tail := describes.tail
    refine ⟨nodup.2, rfl, tail, ?_, later.resource nodup.2 ?_ ?_⟩
    · simp only [setNext, setPrevious, count, length_cons]
      omega
    · intro other mem
      have apart : other ≠ cell := fun same => nodup.1 (same ▸ mem)
      simp [setNext, setPrevious, apart]
    · simp only [setNext, setPrevious]
      grind

theorem insertBefore_describes (describes : list.Describes (front ++ element :: back))
    (fresh : cell ∉ front ++ element :: back) :
    (list.insertBefore cell element).Describes (front ++ cell :: element :: back) := by
  obtain ⟨backward, -⟩ := describes.segment.around
  rcases eq_nil_or_concat' front with rfl | ⟨start, last, rfl⟩
  · have head : list.head = some element := describes.head
    refine describes.insert fresh ?_ ?_ ?_ ?_ ?_ <;>
      simp only [insertBefore, backward, getLast?_nil, head, setNext, setPrevious] <;> grind
  · refine describes.insert fresh ?_ ?_ ?_ ?_ ?_ <;>
      simp only [insertBefore, backward, getLast?_concat, setNext, setPrevious,
        concat_ne_nil, if_false] <;> grind

theorem insertAfter_describes (describes : list.Describes (front ++ element :: back))
    (fresh : cell ∉ front ++ element :: back) :
    (list.insertAfter cell element).Describes (front ++ element :: cell :: back) := by
  obtain ⟨-, forward⟩ := describes.segment.around
  rw [append_cons] at describes fresh ⊢
  cases back with
  | nil =>
    have tail : list.tail = some element := by simpa using describes.tail
    refine describes.insert fresh ?_ ?_ ?_ ?_ ?_ <;>
      simp only [insertAfter, forward, head?_nil, tail, setNext, setPrevious,
        concat_ne_nil, if_false] <;> grind
  | cons next rest =>
    refine describes.insert fresh ?_ ?_ ?_ ?_ ?_ <;>
      simp only [insertAfter, forward, head?_cons, setNext, setPrevious,
        concat_ne_nil, if_false] <;> grind

/-- The cells met by following links, at most as many as `fuel`. -/
def walk (step : Nat → Option Nat) : Nat → Option Nat → List Nat
  | 0, _ => []
  | _ + 1, none => []
  | fuel + 1, some cell => cell :: walk step fuel (step cell)

theorem Segment.walk_next (segment : list.Segment before cells none) (fuel : Nat) :
    walk list.next fuel cells.head? = cells.take fuel := by
  induction cells generalizing before fuel with
  | nil =>
    cases fuel with
    | zero => rfl
    | succ fuel => rfl
  | cons cell rest ih =>
    obtain ⟨_, forward, later⟩ := segment
    rw [Option.or_none] at forward
    cases fuel with
    | zero => rfl
    | succ fuel => simp only [head?_cons, walk, forward, ih later, take_succ_cons]

theorem Segment.walk_previous (segment : list.Segment none cells after) (fuel : Nat) :
    walk list.previous fuel cells.getLast? = cells.reverse.take fuel := by
  induction cells using List.reverseRecOn generalizing after fuel with
  | nil =>
    cases fuel with
    | zero => rfl
    | succ fuel => rfl
  | append_singleton front last ih =>
    obtain ⟨earlier, backward, _⟩ := segment_append.mp segment
    rw [Option.or_none] at backward
    cases fuel with
    | zero => rfl
    | succ fuel =>
      simp only [getLast?_concat, walk, backward, ih earlier, reverse_append,
        reverse_cons, reverse_nil, nil_append, singleton_append,
        take_succ_cons]

end LinkedList

end OpenAir.Base
