import Mathlib.Data.List.Perm.Basic
import ModelSearch.Queue.Lazy

/-!
# The decision queue holds a set of indices

Tickets on the heap may be stale, but each present index has its live ticket
there.  So the queue stands for the set of its present indices, whatever was
pushed, erased and popped before.
-/

namespace ModelSearch

namespace Heap

variable {α : Type}

/-- The elements, in no particular order. -/
def elements : Heap α → List α
  | .empty => []
  | .node _ root left right => root :: (left.elements ++ right.elements)

theorem elements_join (root : α) (first second : Heap α) :
    (join root first second).elements.Perm (root :: (first.elements ++ second.elements)) := by
  unfold join
  split
  · exact List.Perm.refl _
  · exact List.Perm.cons root List.perm_append_comm

variable [Ord α]

theorem elements_graft (root : α) (left : Heap α) {mergeRight : Heap α → Heap α}
    {right : List α}
    (merged : ∀ heap, (mergeRight heap).elements.Perm (right ++ heap.elements))
    (heap : Heap α) :
    (graft root left mergeRight heap).elements.Perm
      (root :: (left.elements ++ right) ++ heap.elements) := by
  induction heap with
  | empty =>
      refine (elements_join root left _).trans ?_
      refine List.Perm.cons root ?_
      simpa [elements] using (merged .empty).append_left left.elements
  | node rank other otherLeft otherRight _ induction =>
      have onTop :
          (join root left (mergeRight (.node rank other otherLeft otherRight))).elements.Perm
            (root :: (left.elements ++ right) ++
              (Heap.node rank other otherLeft otherRight).elements) := by
        refine (elements_join root left _).trans ?_
        refine List.Perm.cons root ?_
        simpa using (merged _).append_left left.elements
      unfold graft
      split
      · refine (elements_join other otherLeft _).trans ?_
        refine (List.Perm.cons other (induction.append_left otherLeft.elements)).trans ?_
        refine (List.Perm.cons other (List.perm_append_comm_assoc _ _ _)).trans ?_
        exact List.perm_middle.symm
      · exact onTop

theorem elements_merge (first second : Heap α) :
    (merge first second).elements.Perm (first.elements ++ second.elements) := by
  induction first generalizing second with
  | empty => exact List.Perm.refl _
  | node rank root left right _ induction => exact elements_graft root left induction second

theorem elements_insert (heap : Heap α) (item : α) :
    (heap.insert item).elements.Perm (item :: heap.elements) :=
  elements_merge (.node 1 item .empty .empty) heap

theorem elements_pop {heap rest : Heap α} {root : α} (popped : heap.pop? = some (root, rest)) :
    heap.elements.Perm (root :: rest.elements) := by
  cases heap with
  | empty => cases popped
  | node rank top left right =>
      obtain ⟨rfl, rfl⟩ := Prod.mk.inj (Option.some.inj popped)
      exact List.Perm.cons _ (elements_merge left right).symm

theorem elements_of_pop_none {heap : Heap α} (popped : heap.pop? = none) :
    heap.elements = [] := by
  cases heap with
  | empty => rfl
  | node rank top left right => cases popped

end Heap

namespace LazyQueue

/-- The count is right, each present index has its ticket, and no more tickets
are on the heap than were issued. -/
structure Sound (queue : LazyQueue) : Prop where
  counted : queue.count = queue.live.size
  ticketed : ∀ (index stamp : Nat), queue.live[index]? = some stamp →
    ∃ priority, (⟨priority, index, stamp⟩ : Ticket) ∈ queue.heap.elements
  issued : queue.heap.elements.length ≤ queue.stamp

theorem sound_empty : (∅ : LazyQueue).Sound where
  counted := rfl
  ticketed index stamp present := by
    have absent : (∅ : LazyQueue).live[index]? = none := Std.TreeMap.getElem?_emptyc
    rw [absent] at present
    cases present
  issued := Nat.le_refl 0

@[simp] theorem contains_empty (index : Nat) : (∅ : LazyQueue).contains index = false :=
  Std.TreeMap.contains_emptyc

theorem contains_push {queue : LazyQueue} {index priority other : Nat} :
    (queue.push index priority).contains other = true ↔
      other = index ∨ queue.contains other = true := by
  simp only [contains, push, Std.TreeMap.contains_insert, Bool.or_eq_true, beq_iff_eq,
    Std.LawfulEqCmp.compare_eq_iff_eq, eq_comm (a := index)]

theorem contains_erase {queue : LazyQueue} {index other : Nat} :
    (queue.erase index).contains other = true ↔
      other ≠ index ∧ queue.contains other = true := by
  unfold erase
  by_cases present : queue.contains index
  · rw [if_pos present]
    simp only [contains, Std.TreeMap.contains_erase, Bool.and_eq_true, bne_iff_ne, ne_eq,
      Std.LawfulEqCmp.compare_eq_iff_eq, eq_comm (a := index)]
  · rw [if_neg present]
    constructor
    · intro found
      refine ⟨?_, found⟩
      rintro rfl
      exact present found
    · exact And.right

theorem Sound.push {queue : LazyQueue} (sound : queue.Sound) (index priority : Nat) :
    (queue.push index priority).Sound := by
  have inserted := Heap.elements_insert queue.heap (⟨priority, index, queue.stamp⟩ : Ticket)
  constructor
  · simp only [LazyQueue.push, contains, Std.TreeMap.size_insert, sound.counted,
      Std.TreeMap.contains_iff_mem]
  · intro other stamp present
    simp only [LazyQueue.push, Std.TreeMap.getElem?_insert,
      Std.LawfulEqCmp.compare_eq_iff_eq] at present
    by_cases same : index = other
    · rw [if_pos same, Option.some.injEq] at present
      subst same present
      exact ⟨priority, inserted.mem_iff.mpr List.mem_cons_self⟩
    · rw [if_neg same] at present
      obtain ⟨held, ticket⟩ := sound.ticketed other stamp present
      exact ⟨held, inserted.mem_iff.mpr (List.mem_cons_of_mem _ ticket)⟩
  · have longer := inserted.length_eq
    have issued := sound.issued
    simp only [List.length_cons] at longer
    simp only [LazyQueue.push]
    omega

theorem Sound.erase {queue : LazyQueue} (sound : queue.Sound) (index : Nat) :
    (queue.erase index).Sound := by
  unfold LazyQueue.erase
  by_cases present : queue.contains index
  · rw [if_pos present]
    refine ⟨?_, ?_, sound.issued⟩
    · have inside : index ∈ queue.live := Std.TreeMap.contains_iff_mem.mp present
      simp [Std.TreeMap.size_erase, inside, sound.counted]
    · intro other stamp live
      simp only [Std.TreeMap.getElem?_erase, Std.LawfulEqCmp.compare_eq_iff_eq] at live
      split at live
      · cases live
      · exact sound.ticketed other stamp live
  · rw [if_neg present]
    exact sound

theorem isEmpty_iff {queue : LazyQueue} (sound : queue.Sound) :
    queue.isEmpty = true ↔ ∀ index, queue.contains index = false := by
  have empty := Std.TreeMap.isEmpty_iff_forall_contains (t := queue.live)
  rw [Std.TreeMap.isEmpty_eq_size_eq_zero, beq_iff_eq] at empty
  rw [isEmpty, beq_iff_eq, sound.counted]
  exact empty

theorem Sound.drop {queue : LazyQueue} (sound : queue.Sound) {ticket : Ticket}
    {heap : Heap Ticket} (popped : queue.heap.pop? = some (ticket, heap))
    (stale : queue.live[ticket.index]? ≠ some ticket.stamp) :
    ({ queue with heap := heap } : LazyQueue).Sound := by
  have split := Heap.elements_pop popped
  refine ⟨sound.counted, ?_, ?_⟩
  · intro index stamp live
    obtain ⟨priority, held⟩ := sound.ticketed index stamp live
    rcases List.mem_cons.mp (split.mem_iff.mp held) with rfl | kept
    · exact absurd live stale
    · exact ⟨priority, kept⟩
  · have shorter := split.length_eq
    have issued := sound.issued
    simp only [List.length_cons] at shorter
    show heap.elements.length ≤ queue.stamp
    omega

theorem Sound.take {queue : LazyQueue} (sound : queue.Sound) {ticket : Ticket}
    {heap : Heap Ticket} (popped : queue.heap.pop? = some (ticket, heap)) :
    (({ queue with heap := heap } : LazyQueue).erase ticket.index).Sound := by
  have split := Heap.elements_pop popped
  have erased := sound.erase ticket.index
  have sameLive : (({ queue with heap := heap } : LazyQueue).erase ticket.index).live =
      (queue.erase ticket.index).live := by
    unfold LazyQueue.erase contains
    dsimp only
    split <;> rfl
  have sameCount : (({ queue with heap := heap } : LazyQueue).erase ticket.index).count =
      (queue.erase ticket.index).count := by
    unfold LazyQueue.erase contains
    dsimp only
    split <;> rfl
  have sameHeap : (({ queue with heap := heap } : LazyQueue).erase ticket.index).heap = heap ∧
      (({ queue with heap := heap } : LazyQueue).erase ticket.index).stamp = queue.stamp := by
    unfold LazyQueue.erase
    split <;> exact ⟨rfl, rfl⟩
  have keptHeap : (queue.erase ticket.index).heap = queue.heap := by
    unfold LazyQueue.erase
    split <;> rfl
  refine ⟨by rw [sameLive, sameCount]; exact erased.counted, ?_, ?_⟩
  · intro index stamp live
    rw [sameLive] at live
    have different : index ≠ ticket.index := by
      have present : (queue.erase ticket.index).contains index = true := by
        rw [contains, Std.TreeMap.contains_eq_isSome_getElem?, live]
        rfl
      exact (contains_erase.mp present).1
    obtain ⟨priority, held⟩ := erased.ticketed index stamp live
    rw [keptHeap] at held
    rcases List.mem_cons.mp (split.mem_iff.mp held) with rfl | kept
    · exact absurd rfl different
    · exact ⟨priority, by rw [sameHeap.1]; exact kept⟩
  · have shorter := split.length_eq
    have issued := sound.issued
    simp only [List.length_cons] at shorter
    rw [sameHeap.1, sameHeap.2]
    omega

/-- What a pop answers, and what it leaves. -/
structure Popped (queue : LazyQueue) (answer : Option Nat) (rest : LazyQueue) : Prop where
  sound : rest.Sound
  left : ∀ index, rest.contains index = true ↔
    some index ≠ answer ∧ queue.contains index = true
  present : ∀ index, answer = some index → queue.contains index = true
  exhausted : answer = none → ∀ index, queue.contains index = false

theorem Sound.popped_none {queue : LazyQueue} (sound : queue.Sound)
    (bare : queue.heap.elements = []) : queue.Popped none queue := by
  have absent : ∀ index, queue.contains index = false := by
    intro index
    by_contra present
    rw [Bool.not_eq_false, contains, Std.TreeMap.contains_eq_isSome_getElem?,
      Option.isSome_iff_exists] at present
    obtain ⟨stamp, live⟩ := present
    obtain ⟨priority, held⟩ := sound.ticketed index stamp live
    rw [bare] at held
    cases held
  exact ⟨sound, fun index => by simp, by rintro _ ⟨⟩, fun _ => absent⟩

theorem popTickets_spec {queue : LazyQueue} (sound : queue.Sound) {tickets : Nat}
    (enough : queue.heap.elements.length ≤ tickets) :
    queue.Popped (queue.popTickets tickets).1 (queue.popTickets tickets).2 := by
  -- A stale ticket only makes the heap shorter, so the induction is on the tickets.
  induction tickets generalizing queue with
  | zero => exact sound.popped_none (List.length_eq_zero_iff.mp (Nat.le_zero.mp enough))
  | succ tickets induction =>
      cases popped : queue.heap.pop? with
      | none =>
          simp only [popTickets, popped]
          exact sound.popped_none (Heap.elements_of_pop_none popped)
      | some pair =>
          obtain ⟨ticket, heap⟩ := pair
          by_cases live : queue.live[ticket.index]? = some ticket.stamp
          · simp only [popTickets, popped, live, if_true]
            have here : queue.contains ticket.index = true := by
              rw [contains, Std.TreeMap.contains_eq_isSome_getElem?, live]
              rfl
            refine ⟨sound.take popped, ?_, ?_, by rintro ⟨⟩⟩
            · intro index
              rw [contains_erase]
              simp [contains]
            · rintro index equal
              rw [← Option.some.inj equal]
              exact here
          · simp only [popTickets, popped, live, if_false]
            have shorter := (Heap.elements_pop popped).length_eq
            simp only [List.length_cons] at shorter
            obtain ⟨soundRest, left, present, exhausted⟩ :=
              @induction { queue with heap := heap } (sound.drop popped live)
                (by dsimp only; omega)
            exact ⟨soundRest, left, present, exhausted⟩

theorem pop_spec {queue : LazyQueue} (sound : queue.Sound) :
    queue.Popped queue.pop.1 queue.pop.2 :=
  popTickets_spec sound sound.issued

end LazyQueue

end ModelSearch
