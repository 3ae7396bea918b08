import Mathlib.Logic.Function.Basic
import Mathlib.Data.List.Basic

namespace IntrusiveList

/-! # Intrusive doubly linked lists

Nodes of any type carry a `prev` and a `next` pointer, a list is reached
through its two ends, and the operations rewrite a constant number of
pointers. `IsList` says which sequence of nodes the pointers spell, and each
operation has one theorem about the sequence it leaves and one about the nodes
it does not touch. -/

structure Links (Node : Type u) where
  prev : Node → Option Node
  next : Node → Option Node

structure Ends (Node : Type u) where
  head : Option Node := none
  tail : Option Node := none

namespace Links

variable {Node : Type u} [DecidableEq Node]

def setPrev (links : Links Node) (node : Node) (value : Option Node) : Links Node :=
  { links with prev := Function.update links.prev node value }

def setNext (links : Links Node) (node : Node) (value : Option Node) : Links Node :=
  { links with next := Function.update links.next node value }

variable (links : Links Node) (node other : Node) (value : Option Node)

@[simp] theorem setPrev_next : (links.setPrev node value).next = links.next := rfl

@[simp] theorem setNext_prev : (links.setNext node value).prev = links.prev := rfl

@[simp] theorem setPrev_prev : (links.setPrev node value).prev other =
    if other = node then value else links.prev other := by
  simp [setPrev, Function.update_apply]

@[simp] theorem setNext_next : (links.setNext node value).next other =
    if other = node then value else links.next other := by
  simp [setNext, Function.update_apply]

end Links

/-! ## Operations -/

section Operations

variable {Node : Type u} [DecidableEq Node]

def pushBack (links : Links Node) (ends : Ends Node) (node : Node) :
    Links Node × Ends Node :=
  let links := (links.setPrev node none).setNext node none
  match ends.tail with
  | some last =>
      ((links.setNext last (some node)).setPrev node (some last),
        { ends with tail := some node })
  | none => (links, { head := some node, tail := some node })

def popFront (links : Links Node) (ends : Ends Node) (node : Node) :
    Links Node × Ends Node :=
  match links.next node with
  | some next => (links.setPrev next none, { ends with head := some next })
  | none => (links, { head := none, tail := none })

def rotate (links : Links Node) (ends : Ends Node) (node : Node) :
    Links Node × Ends Node :=
  match links.next node, ends.tail with
  | some next, some last =>
      let links := (links.setPrev next none).setPrev node (some last)
      ((links.setNext node none).setNext last (some node),
        { head := some next, tail := some node })
  | _, _ => (links, ends)

def unlink (links : Links Node) (ends : Ends Node) (node : Node) :
    Links Node × Ends Node :=
  match links.prev node, links.next node with
  | some prev, some next =>
      ((links.setNext prev (some next)).setPrev next (some prev), ends)
  | some prev, none => (links.setNext prev none, { ends with tail := some prev })
  | none, some next => (links.setPrev next none, { ends with head := some next })
  | none, none => (links, { head := none, tail := none })

end Operations

/-! ## Segments

A segment is a run of nodes between two neighbours, either of which may be
missing. Splitting segments reduces each operation to a change at the end of
one. -/

section Segments

variable {Node : Type u} {links links' : Links Node}

def Segment (links : Links Node) : Option Node → List Node → Option Node → Prop
  | _, [], _ => True
  | left, node :: rest, right =>
      links.prev node = left ∧ links.next node = rest.head?.or right ∧
        Segment links (some node) rest right

theorem segment_append (left right : Option Node) (front back : List Node) :
    Segment links left (front ++ back) right ↔
      Segment links left front (back.head?.or right) ∧
        Segment links (front.getLast?.or left) back right := by
  induction front generalizing left with
  | nil => simp [Segment]
  | cons node rest induction =>
      have last : ((node :: rest).getLast?.or left) = rest.getLast?.or (some node) := by
        cases rest with
        | nil => simp
        | cons second rest => simp [List.getLast?_cons]
      have first : (rest ++ back).head?.or right = rest.head?.or (back.head?.or right) := by
        cases rest <;> simp
      simp only [List.cons_append, Segment, induction, last, first, and_assoc]

theorem Segment.congr {left right : Option Node} {nodes : List Node}
    (segment : Segment links left nodes right)
    (prev : ∀ node ∈ nodes, links'.prev node = links.prev node)
    (next : ∀ node ∈ nodes, links'.next node = links.next node) :
    Segment links' left nodes right := by
  induction nodes generalizing left with
  | nil => trivial
  | cons node rest induction =>
      rcases segment with ⟨before, after, tail⟩
      refine ⟨(prev node (by simp)).trans before, (next node (by simp)).trans after, ?_⟩
      exact induction tail (fun other member => prev other (by simp [member]))
        (fun other member => next other (by simp [member]))

/-- A segment gets another right neighbour by a write to its last node. -/
theorem Segment.setRight {left right right' : Option Node} {nodes : List Node}
    (segment : Segment links left nodes right) (nodup : nodes.Nodup)
    (prev : ∀ node ∈ nodes, links'.prev node = links.prev node)
    (next : ∀ node ∈ nodes, nodes.getLast? ≠ some node →
      links'.next node = links.next node)
    (last : ∀ node, nodes.getLast? = some node → links'.next node = right') :
    Segment links' left nodes right' := by
  rcases List.eq_nil_or_concat' nodes with rfl | ⟨front, final, rfl⟩
  · trivial
  · have fresh : final ∉ front := by
      have parts := List.nodup_append.mp nodup
      exact fun member => parts.2.2 final member final (by simp) rfl
    rw [segment_append] at segment ⊢
    have finalPrev := prev final (by simp)
    refine ⟨segment.1.congr (fun node member => prev node (by simp [member])) ?_, ?_, ?_, trivial⟩
    · intro node member
      apply next node (by simp [member])
      simpa using fun equal : final = node => fresh (equal ▸ member)
    · exact finalPrev.trans segment.2.1
    · simpa using last final (by simp)

/-- A segment gets another left neighbour by a write to its first node. -/
theorem Segment.setLeft {left left' right : Option Node} {nodes : List Node}
    (segment : Segment links left nodes right) (nodup : nodes.Nodup)
    (prev : ∀ node ∈ nodes, nodes.head? ≠ some node →
      links'.prev node = links.prev node)
    (first : ∀ node, nodes.head? = some node → links'.prev node = left')
    (next : ∀ node ∈ nodes, links'.next node = links.next node) :
    Segment links' left' nodes right := by
  cases nodes with
  | nil => trivial
  | cons node rest =>
      rcases List.nodup_cons.mp nodup with ⟨fresh, _⟩
      rcases segment with ⟨before, after, tail⟩
      refine ⟨first node (by simp), (next node (by simp)).trans after, ?_⟩
      refine tail.congr ?_ (fun other member => next other (by simp [member]))
      intro other member
      apply prev other (by simp [member])
      simpa using fun equal : node = other => fresh (equal ▸ member)

end Segments

/-! ## Lists -/

section Lists

variable {Node : Type u} {links links' : Links Node} {ends : Ends Node}
  {node : Node} {nodes front back : List Node}

structure IsList (links : Links Node) (ends : Ends Node) (nodes : List Node) : Prop where
  nodup : nodes.Nodup
  head : ends.head = nodes.head?
  tail : ends.tail = nodes.getLast?
  segment : Segment links none nodes none

theorem isList_nil (links : Links Node) : IsList links {} [] :=
  ⟨List.nodup_nil, rfl, rfl, trivial⟩

theorem IsList.congr (list : IsList links ends nodes)
    (prev : ∀ node ∈ nodes, links'.prev node = links.prev node)
    (next : ∀ node ∈ nodes, links'.next node = links.next node) :
    IsList links' ends nodes :=
  ⟨list.nodup, list.head, list.tail, list.segment.congr prev next⟩

theorem IsList.next_eq (list : IsList links ends (front ++ node :: back)) :
    links.next node = back.head? := by
  have parts := (segment_append _ _ _ _).mp list.segment
  simpa [Segment] using parts.2.2.1

theorem IsList.prev_eq (list : IsList links ends (front ++ node :: back)) :
    links.prev node = front.getLast? := by
  have parts := (segment_append _ _ _ _).mp list.segment
  simpa [Segment] using parts.2.1

theorem IsList.next_of_head (list : IsList links ends (node :: back)) :
    links.next node = back.head? :=
  IsList.next_eq (show IsList links ends ([] ++ node :: back) from list)

theorem IsList.empty_iff (list : IsList links ends nodes) : ends.head = none ↔ nodes = [] := by
  rw [list.head, List.head?_eq_none_iff]

theorem IsList.tail_none_iff (list : IsList links ends nodes) :
    ends.tail = none ↔ nodes = [] := by
  rw [list.tail, List.getLast?_eq_none_iff]

variable [DecidableEq Node]

theorem IsList.pushBack (list : IsList links ends nodes) (fresh : node ∉ nodes) :
    IsList (IntrusiveList.pushBack links ends node).1
      (IntrusiveList.pushBack links ends node).2 (nodes ++ [node]) := by
  have nodup : (nodes ++ [node]).Nodup := by
    simpa [List.nodup_append, list.nodup] using fun other member (equal : other = node) =>
      fresh (equal ▸ member)
  rcases List.eq_nil_or_concat' nodes with rfl | ⟨front, last, rfl⟩
  · have noTail : ends.tail = none := by simpa using list.tail
    refine ⟨nodup, ?_, ?_, ?_⟩ <;> simp [IntrusiveList.pushBack, noTail, Segment]
  · have tail : ends.tail = some last := by simpa using list.tail
    have lastNe : last ≠ node := fun equal => fresh (by simp [equal])
    refine ⟨nodup, ?_, ?_, ?_⟩
    · simpa [IntrusiveList.pushBack, tail] using list.head
    · simp [IntrusiveList.pushBack, tail]
    · rw [segment_append]
      constructor
      · refine list.segment.setRight list.nodup ?_ ?_ ?_
        · intro other member
          have ne : other ≠ node := fun equal => fresh (equal ▸ member)
          simp [IntrusiveList.pushBack, tail, ne]
        · intro other member notLast
          have ne : other ≠ node := fun equal => fresh (equal ▸ member)
          have neLast : other ≠ last := fun equal => notLast (by simp [equal])
          simp [IntrusiveList.pushBack, tail, ne, neLast]
        · intro other isLast
          obtain rfl : last = other := by simpa using isLast
          simp [IntrusiveList.pushBack, tail]
      · simp [Segment, IntrusiveList.pushBack, tail, lastNe.symm]

theorem pushBack_frame (list : IsList links ends nodes) {other : Node}
    (outside : other ∉ nodes) (ne : other ≠ node) :
    (pushBack links ends node).1.prev other = links.prev other ∧
      (pushBack links ends node).1.next other = links.next other := by
  cases tail : ends.tail with
  | none => simp [pushBack, tail, ne]
  | some last =>
      have member : last ∈ nodes := List.mem_of_getLast? (list.tail.symm.trans tail)
      have neLast : other ≠ last := fun equal => outside (equal ▸ member)
      simp [pushBack, tail, ne, neLast]

theorem IsList.popFront (list : IsList links ends (node :: back)) :
    IsList (IntrusiveList.popFront links ends node).1
      (IntrusiveList.popFront links ends node).2 back := by
  have next := list.next_of_head
  have nodup := (List.nodup_cons.mp list.nodup).2
  have tail := list.tail
  cases back with
  | nil => simp [IntrusiveList.popFront, next, isList_nil]
  | cons second rest =>
      have popped : IntrusiveList.popFront links ends node =
          (links.setPrev second none, { ends with head := some second }) := by
        simp [IntrusiveList.popFront, next]
      rw [popped]
      refine ⟨nodup, rfl, by simpa [List.getLast?_cons_cons] using tail, ?_⟩
      refine list.segment.2.2.setLeft nodup ?_ ?_ ?_
      · intro other _ notFirst
        have ne : other ≠ second := fun equal => notFirst (by simp [equal])
        simp [ne]
      · intro other isFirst
        obtain rfl : second = other := by simpa using isFirst
        simp
      · simp

theorem popFront_frame (list : IsList links ends (node :: back)) {other : Node}
    (outside : other ∉ back) :
    (popFront links ends node).1.prev other = links.prev other ∧
      (popFront links ends node).1.next other = links.next other := by
  have next := list.next_of_head
  cases back with
  | nil => simp [popFront, next]
  | cons second rest =>
      have ne : other ≠ second := fun equal => outside (by simp [equal])
      simp [popFront, next, ne]

theorem IsList.rotate (list : IsList links ends (node :: back)) :
    IsList (IntrusiveList.rotate links ends node).1
      (IntrusiveList.rotate links ends node).2 (back ++ [node]) := by
  have next := list.next_of_head
  have tail := list.tail
  rcases List.nodup_cons.mp list.nodup with ⟨fresh, nodup⟩
  cases back with
  | nil => simpa [IntrusiveList.rotate, next] using list
  | cons second rest =>
      obtain ⟨last, isLast⟩ : ∃ last, (second :: rest).getLast? = some last :=
        ⟨_, List.getLast?_eq_some_getLast (by simp)⟩
      have lastMember : last ∈ second :: rest := List.mem_of_getLast? isLast
      have lastNe : last ≠ node := fun equal => fresh (equal ▸ lastMember)
      rw [List.getLast?_cons_cons, isLast] at tail
      have rotated : IntrusiveList.rotate links ends node =
          ((((links.setPrev second none).setPrev node (some last)).setNext node
            none).setNext last (some node), { head := some second, tail := some node }) := by
        simp [IntrusiveList.rotate, next, tail]
      rw [rotated]
      refine ⟨?_, by simp, by simp [List.getLast?_cons], ?_⟩
      · exact List.nodup_append.mpr ⟨nodup, by simp, by
          simpa using ⟨fun equal => fresh (by simp [equal]),
            fun other member (equal : other = node) => fresh (by simp [← equal, member])⟩⟩
      · rw [segment_append]
        constructor
        · have moved : Segment (links.setPrev second none) none (second :: rest) none := by
            refine list.segment.2.2.setLeft nodup ?_ ?_ ?_
            · intro other _ notFirst
              have ne : other ≠ second := fun equal => notFirst (by simp [equal])
              simp [ne]
            · intro other isFirst
              obtain rfl : second = other := by simpa using isFirst
              simp
            · simp
          refine moved.setRight nodup ?_ ?_ ?_
          · intro other member
            have ne : other ≠ node := fun equal => fresh (equal ▸ member)
            simp [ne]
          · intro other member notLast
            have ne : other ≠ node := fun equal => fresh (equal ▸ member)
            have neLast : other ≠ last := fun equal => notLast (equal ▸ isLast)
            simp [ne, neLast]
          · intro other otherLast
            obtain rfl : last = other := by simpa [isLast] using otherLast
            simp
        · simp [Segment, isLast, lastNe.symm]

theorem rotate_frame (list : IsList links ends (node :: back)) {other : Node}
    (outside : other ∉ node :: back) :
    (rotate links ends node).1.prev other = links.prev other ∧
      (rotate links ends node).1.next other = links.next other := by
  have next := list.next_of_head
  have tail := list.tail
  obtain ⟨ne, outside⟩ : other ≠ node ∧ other ∉ back := by simpa using outside
  cases back with
  | nil => simp [rotate, next]
  | cons second rest =>
      obtain ⟨last, isLast⟩ : ∃ last, (second :: rest).getLast? = some last :=
        ⟨_, List.getLast?_eq_some_getLast (by simp)⟩
      have neLast : other ≠ last := fun equal =>
        outside (equal ▸ List.mem_of_getLast? isLast)
      have neSecond : other ≠ second := fun equal => outside (by simp [equal])
      rw [List.getLast?_cons_cons, isLast] at tail
      simp [rotate, next, tail, ne, neLast, neSecond]

theorem IsList.unlink (list : IsList links ends (front ++ node :: back)) :
    IsList (IntrusiveList.unlink links ends node).1
      (IntrusiveList.unlink links ends node).2 (front ++ back) := by
  have next := list.next_eq
  have prev := list.prev_eq
  have head := list.head
  have tail := list.tail
  rcases List.nodup_append.mp list.nodup with ⟨frontNodup, restNodup, apart⟩
  rcases List.nodup_cons.mp restNodup with ⟨freshBack, backNodup⟩
  have freshFront : node ∉ front := fun member => apart node member node (by simp) rfl
  have disjoint : ∀ other ∈ front, other ∉ back := fun other inFront inBack =>
    apart other inFront other (by simp [inBack]) rfl
  rcases (segment_append _ _ _ _).mp list.segment with ⟨frontSegment, -, -, backSegment⟩
  -- The pointers after the two writes, read off at any node.
  have prevAfter : ∀ other, (IntrusiveList.unlink links ends node).1.prev other =
      if back.head? = some other then front.getLast? else links.prev other := by
    intro other
    cases last : front.getLast? <;> cases first : back.head? <;>
      simp [IntrusiveList.unlink, prev, next, last, first, eq_comm]
  have nextAfter : ∀ other, (IntrusiveList.unlink links ends node).1.next other =
      if front.getLast? = some other then back.head? else links.next other := by
    intro other
    cases last : front.getLast? <;> cases first : back.head? <;>
      simp [IntrusiveList.unlink, prev, next, last, first, eq_comm]
  refine ⟨?_, ?_, ?_, ?_⟩
  · exact List.nodup_append.mpr ⟨frontNodup, backNodup, fun left inFront right inBack =>
      fun equal => disjoint left inFront (equal ▸ inBack)⟩
  · cases front with
    | nil => cases first : back.head? <;>
        simp_all [IntrusiveList.unlink]
    | cons first front =>
        have last : (first :: front).getLast? = some ((first :: front).getLast (by simp)) :=
          List.getLast?_eq_some_getLast (by simp)
        rw [last] at prev
        cases second : back.head? <;>
          simp_all [IntrusiveList.unlink]
  · rcases List.eq_nil_or_concat' back with rfl | ⟨middle, last, rfl⟩
    · cases last : front.getLast? <;>
        simp_all [IntrusiveList.unlink]
    · obtain ⟨first, isFirst⟩ : ∃ first, (middle ++ [last]).head? = some first :=
        ⟨_, List.head?_eq_some_head (by simp)⟩
      have tailLast : ends.tail = some last := by
        rw [tail, List.getLast?_append_of_ne_nil _ (by simp)]
        simp [List.getLast?_cons]
      rw [isFirst] at next
      cases before : front.getLast? <;> rw [before] at prev <;>
        simp [IntrusiveList.unlink, prev, next, tailLast]
  · rw [segment_append]
    constructor
    · refine frontSegment.setRight frontNodup ?_ ?_ ?_
      · intro other member
        have notFirst : back.head? ≠ some other := fun isFirst =>
          disjoint other member (List.mem_of_head? isFirst)
        simp [prevAfter, notFirst]
      · intro other _ notLast
        simp [nextAfter, notLast]
      · intro other isLast
        simp [nextAfter, isLast]
    · refine backSegment.setLeft backNodup ?_ ?_ ?_
      · intro other _ notFirst
        simp [prevAfter, notFirst]
      · intro other isFirst
        simp [prevAfter, isFirst]
      · intro other member
        have notLast : front.getLast? ≠ some other := fun isLast =>
          disjoint other (List.mem_of_getLast? isLast) member
        simp [nextAfter, notLast]

theorem unlink_frame (list : IsList links ends (front ++ node :: back)) {other : Node}
    (outside : other ∉ front ++ back) :
    (unlink links ends node).1.prev other = links.prev other ∧
      (unlink links ends node).1.next other = links.next other := by
  have next := list.next_eq
  have prev := list.prev_eq
  obtain ⟨notFront, notBack⟩ : other ∉ front ∧ other ∉ back := by simpa using outside
  have notLast : front.getLast? ≠ some other := fun isLast =>
    notFront (List.mem_of_getLast? isLast)
  have notFirst : back.head? ≠ some other := fun isFirst =>
    notBack (List.mem_of_head? isFirst)
  cases last : front.getLast? <;> cases first : back.head? <;>
    rw [last] at prev notLast <;> rw [first] at next notFirst <;>
    simp [unlink, prev, next] <;> grind

end Lists

end IntrusiveList
