import Mathlib.Data.List.Sort
import ModelSearch.Proofs.Queue.Membership

/-!
# The decision queue pops by rank

Each index has a rank, the priority it is pushed with whenever it is pushed.  The
heap keeps the greatest ticket on top, and a live ticket carries the rank of its
index, so of all present indices a pop answers the one of greatest rank, the least
among equals.

Stale tickets do not show.  Draining a queue lists its present indices by rank,
and two queues of the same indices pop them in the same order, whatever became of
each before.
-/

namespace ModelSearch

namespace Heap

variable {α : Type} [Ord α]

/-- Nothing below a root is greater than it. -/
def Ordered : Heap α → Prop
  | .empty => True
  | .node _ root left right =>
      (∀ item ∈ left.elements ++ right.elements, (compare item root).isLE = true) ∧
        left.Ordered ∧ right.Ordered

theorem ordered_join {root : α} {first second : Heap α} (one : first.Ordered)
    (two : second.Ordered)
    (below : ∀ item ∈ first.elements ++ second.elements, (compare item root).isLE = true) :
    (join root first second).Ordered := by
  unfold join
  split
  · exact ⟨below, one, two⟩
  · refine ⟨fun item held => below item ?_, two, one⟩
    rw [List.mem_append] at held ⊢
    exact held.symm

variable [Std.TransOrd α]

theorem ordered_graft {root : α} {left : Heap α} {mergeRight : Heap α → Heap α}
    {right : List α}
    (merged : ∀ heap, (mergeRight heap).elements.Perm (right ++ heap.elements))
    (kept : ∀ heap : Heap α, heap.Ordered → (mergeRight heap).Ordered)
    (ordered : left.Ordered)
    (below : ∀ item ∈ left.elements ++ right, (compare item root).isLE = true)
    {heap : Heap α} (other : heap.Ordered) : (graft root left mergeRight heap).Ordered := by
  -- The greater of the two roots goes on top, and bounds what is below the other.
  have onTop : ∀ heap : Heap α, heap.Ordered →
      (∀ item ∈ heap.elements, (compare item root).isLE = true) →
      (join root left (mergeRight heap)).Ordered := by
    intro heap other smaller
    refine ordered_join ordered (kept heap other) fun item held => ?_
    rw [List.mem_append, (merged heap).mem_iff, List.mem_append] at held
    rcases held with inLeft | inRight | inHeap
    · exact below item (List.mem_append_left _ inLeft)
    · exact below item (List.mem_append_right _ inRight)
    · exact smaller item inHeap
  induction heap with
  | empty => exact onTop .empty other (by rintro _ ⟨⟩)
  | node rank top topLeft topRight _ induction =>
      obtain ⟨belowTop, orderedLeft, orderedRight⟩ := other
      unfold graft
      split
      next less =>
        have rootBelow : (compare root top).isLE = true := by rw [less]; rfl
        refine ordered_join orderedLeft (induction orderedRight) fun item held => ?_
        rw [List.mem_append, (elements_graft root left merged topRight).mem_iff] at held
        simp only [List.cons_append, List.mem_cons, List.mem_append] at held
        rcases held with inLeft | rfl | (inRoot | inMerged) | inRight
        · exact belowTop item (List.mem_append_left _ inLeft)
        · exact rootBelow
        · exact Std.TransCmp.isLE_trans (below item (List.mem_append_left _ inRoot)) rootBelow
        · exact Std.TransCmp.isLE_trans (below item (List.mem_append_right _ inMerged)) rootBelow
        · exact belowTop item (List.mem_append_right _ inRight)
      next notLess =>
        have topBelow : (compare top root).isLE = true := by
          rw [Std.OrientedOrd.eq_swap]
          cases order : compare root top with
          | lt => exact absurd order notLess
          | eq => rfl
          | gt => rfl
        refine onTop _ ⟨belowTop, orderedLeft, orderedRight⟩ fun item held => ?_
        rcases List.mem_cons.mp held with rfl | deeper
        · exact topBelow
        · exact Std.TransCmp.isLE_trans (belowTop item deeper) topBelow

theorem ordered_merge {first second : Heap α} (one : first.Ordered) (two : second.Ordered) :
    (merge first second).Ordered := by
  induction first generalizing second with
  | empty => exact two
  | node rank root left right _ induction =>
      obtain ⟨below, orderedLeft, orderedRight⟩ := one
      exact ordered_graft (elements_merge right) (fun _ => induction orderedRight) orderedLeft
        below two

theorem ordered_insert {heap : Heap α} (ordered : heap.Ordered) (item : α) :
    (heap.insert item).Ordered :=
  ordered_merge ⟨by rintro _ ⟨⟩, trivial, trivial⟩ ordered

theorem ordered_pop {heap rest : Heap α} {root : α} (ordered : heap.Ordered)
    (popped : heap.pop? = some (root, rest)) :
    rest.Ordered ∧ ∀ item ∈ heap.elements, (compare item root).isLE = true := by
  cases heap with
  | empty => cases popped
  | node rank top left right =>
      obtain ⟨rfl, rfl⟩ := Prod.mk.inj (Option.some.inj popped)
      obtain ⟨below, orderedLeft, orderedRight⟩ := ordered
      refine ⟨ordered_merge orderedLeft orderedRight, fun item held => ?_⟩
      rcases List.mem_cons.mp held with rfl | deeper
      · exact Std.ReflCmp.isLE_rfl
      · exact below item deeper

end Heap

namespace Ticket

instance : Std.TransOrd Ticket :=
  have _byIndex : Std.TransCmp fun left right : Ticket => compare right.index left.index :=
    @Std.TransCmp.opposite _ (compareOn Ticket.index) _
  inferInstanceAs (Std.TransCmp
    (compareLex (compareLex (compareOn Ticket.priority)
      fun left right : Ticket => compare right.index left.index) (compareOn Ticket.stamp)))

/-- A ticket that is not greater has a lesser priority, or an index that is not less. -/
theorem le_of_isLE {ticket other : Ticket} (less : (compare ticket other).isLE = true) :
    ticket.priority < other.priority ∨
      ticket.priority = other.priority ∧ other.index ≤ ticket.index := by
  change (Ticket.compare ticket other).isLE = true at less
  rw [Ticket.compare, Ordering.isLE_then_iff_or, Ordering.then_eq_lt, Ordering.then_eq_eq] at less
  simp only [Nat.compare_eq_lt, Nat.compare_eq_eq] at less
  omega

end Ticket

namespace LazyQueue

/-- An index is popped before another: by greater rank, then by smaller index. -/
def Before (rank : Nat → Option Nat) (index other : Nat) : Prop :=
  ∃ high low, rank index = some high ∧ rank other = some low ∧
    (low < high ∨ low = high ∧ index < other)

/-- The heap is in order, and each ticket carries the rank of its index. -/
structure Ranked (rank : Nat → Option Nat) (queue : LazyQueue) : Prop where
  ordered : queue.heap.Ordered
  ranked : ∀ ticket ∈ queue.heap.elements, rank ticket.index = some ticket.priority

variable {rank : Nat → Option Nat} {queue : LazyQueue}

theorem ranked_empty (rank : Nat → Option Nat) : (∅ : LazyQueue).Ranked rank :=
  ⟨trivial, by rintro _ ⟨⟩⟩

/-- Ranks may be added to those there are. -/
theorem Ranked.mono {other : Nat → Option Nat} (ranked : queue.Ranked rank)
    (kept : ∀ index priority, rank index = some priority → other index = some priority) :
    queue.Ranked other :=
  ⟨ranked.ordered, fun ticket held => kept _ _ (ranked.ranked ticket held)⟩

theorem Ranked.push (ranked : queue.Ranked rank) {index priority : Nat}
    (own : rank index = some priority) : (queue.push index priority).Ranked rank where
  ordered := Heap.ordered_insert ranked.ordered _
  ranked ticket held := by
    rcases List.mem_cons.mp ((Heap.elements_insert _ _).mem_iff.mp held) with rfl | former
    · exact own
    · exact ranked.ranked ticket former

theorem heap_erase (queue : LazyQueue) (index : Nat) : (queue.erase index).heap = queue.heap := by
  unfold erase
  split <;> rfl

theorem Ranked.erase (ranked : queue.Ranked rank) (index : Nat) :
    (queue.erase index).Ranked rank := by
  constructor
  · rw [heap_erase]
    exact ranked.ordered
  · rw [heap_erase]
    exact ranked.ranked

theorem Ranked.rest (ranked : queue.Ranked rank) {ticket : Ticket} {heap : Heap Ticket}
    (popped : queue.heap.pop? = some (ticket, heap)) :
    ({ queue with heap := heap } : LazyQueue).Ranked rank where
  ordered := (Heap.ordered_pop ranked.ordered popped).1
  ranked other held :=
    ranked.ranked other ((Heap.elements_pop popped).mem_iff.mpr (List.mem_cons_of_mem _ held))

theorem Ranked.popTickets (ranked : queue.Ranked rank) (tickets : Nat) :
    (queue.popTickets tickets).2.Ranked rank := by
  induction tickets generalizing queue with
  | zero => exact ranked
  | succ tickets induction =>
      unfold LazyQueue.popTickets
      split
      · exact ranked
      next ticket heap popped =>
        dsimp only
        split
        · exact (ranked.rest popped).erase ticket.index
        · exact induction (ranked.rest popped)

theorem Ranked.pop (ranked : queue.Ranked rank) : queue.pop.2.Ranked rank :=
  ranked.popTickets queue.stamp

theorem Ranked.before_of_popTickets (ranked : queue.Ranked rank) (sound : queue.Sound)
    {tickets index other : Nat} (answered : (queue.popTickets tickets).1 = some index)
    (present : queue.contains other = true) (different : other ≠ index) :
    Before rank index other := by
  induction tickets generalizing queue with
  | zero => cases answered
  | succ tickets induction =>
      unfold LazyQueue.popTickets at answered
      split at answered
      · cases answered
      next ticket heap popped =>
        dsimp only at answered
        split at answered
        next live =>
          obtain rfl : ticket.index = index := Option.some.inj answered
          rw [contains, Std.TreeMap.contains_eq_isSome_getElem?,
            Option.isSome_iff_exists] at present
          obtain ⟨stamp, held⟩ := present
          obtain ⟨priority, queued⟩ := sound.ticketed other stamp held
          have less := Ticket.le_of_isLE ((Heap.ordered_pop ranked.ordered popped).2 _ queued)
          have own := ranked.ranked ticket
            ((Heap.elements_pop popped).mem_iff.mpr List.mem_cons_self)
          refine ⟨_, _, own, ranked.ranked _ queued, less.imp_right fun level => ?_⟩
          exact ⟨level.1, Nat.lt_of_le_of_ne level.2 (Ne.symm different)⟩
        next stale =>
          exact induction (ranked.rest popped) (sound.drop popped stale) answered present

/-- A pop answers the first of all present indices. -/
theorem Ranked.before_of_pop (ranked : queue.Ranked rank) (sound : queue.Sound)
    {index other : Nat} (answered : queue.pop.1 = some index)
    (present : queue.contains other = true) (different : other ≠ index) :
    Before rank index other :=
  ranked.before_of_popTickets sound answered present different

theorem count_popTickets (sound : queue.Sound) {tickets index : Nat}
    (answered : (queue.popTickets tickets).1 = some index) :
    (queue.popTickets tickets).2.count + 1 = queue.count := by
  induction tickets generalizing queue with
  | zero => cases answered
  | succ tickets induction =>
      unfold LazyQueue.popTickets at answered ⊢
      split at answered
      · cases answered
      next ticket heap popped =>
        dsimp only at answered ⊢
        split at answered
        next live =>
          have present : queue.contains ticket.index = true := by
            rw [contains, Std.TreeMap.contains_eq_isSome_getElem?, live]
            rfl
          have counted : queue.count ≠ 0 := by
            intro zero
            have nothing := (isEmpty_iff sound).mp (by rw [isEmpty, zero]; rfl) ticket.index
            rw [nothing] at present
            cases present
          rw [if_pos live]
          have erased : (({ queue with heap := heap } : LazyQueue).erase ticket.index).count =
              queue.count - 1 := by
            unfold erase contains at *
            rw [if_pos present]
          rw [erased]
          omega
        next stale =>
          rw [if_neg stale]
          exact @induction { queue with heap := heap } (sound.drop popped stale) answered

theorem drainWithin_spec (sound : queue.Sound) (ranked : queue.Ranked rank) {pops : Nat}
    (enough : queue.count < pops) :
    (queue.drainWithin pops).1.Pairwise (Before rank) ∧
      ∀ index, index ∈ (queue.drainWithin pops).1 ↔ queue.contains index = true := by
  -- Each pop that answers takes one index away, so the induction is on the pops.
  induction pops generalizing queue with
  | zero => exact absurd enough (Nat.not_lt_zero _)
  | succ pops induction =>
      have popped := pop_spec sound
      cases answer : queue.pop with
      | mk index rest =>
          rw [answer] at popped
          cases index with
          | none =>
              simp only [drainWithin, answer]
              refine ⟨List.Pairwise.nil, fun index => ?_⟩
              simp [popped.exhausted rfl index]
          | some index =>
              have fewer : queue.pop.2.count + 1 = queue.count :=
                count_popTickets sound (congrArg Prod.fst answer)
              rw [answer] at fewer
              dsimp only at fewer
              have rankedRest : rest.Ranked rank := by
                have kept := ranked.pop
                rwa [answer] at kept
              obtain ⟨pairwise, listed⟩ :=
                @induction rest popped.sound rankedRest (by omega)
              simp only [drainWithin, answer]
              refine ⟨List.pairwise_cons.mpr ⟨fun other later => ?_, pairwise⟩, fun other => ?_⟩
              · obtain ⟨different, present⟩ := (popped.left other).mp ((listed other).mp later)
                exact ranked.before_of_pop sound (congrArg Prod.fst answer) present
                  fun same => different (congrArg some same)
              · rw [List.mem_cons, listed, popped.left]
                constructor
                · rintro (rfl | ⟨-, present⟩)
                  · exact popped.present _ rfl
                  · exact present
                · intro present
                  by_cases same : other = index
                  · exact .inl same
                  · exact .inr ⟨fun equal => same (Option.some.inj equal), present⟩

/-- Two queues that hold the same indices pop them in the same order. -/
theorem drain_eq {other : LazyQueue} (sound : queue.Sound) (ranked : queue.Ranked rank)
    (soundOther : other.Sound) (rankedOther : other.Ranked rank)
    (agree : ∀ index, queue.contains index = true ↔ other.contains index = true) :
    queue.drain.1 = other.drain.1 := by
  obtain ⟨ordered, listed⟩ := drainWithin_spec sound ranked (Nat.lt_succ_self _)
  obtain ⟨orderedOther, listedOther⟩ :=
    drainWithin_spec soundOther rankedOther (Nat.lt_succ_self _)
  have irreflexive : Std.Irrefl (Before rank) := ⟨by
    rintro index ⟨high, low, first, second, before⟩
    obtain rfl := Option.some.inj (first.symm.trans second)
    omega⟩
  have antisymmetric : Std.Antisymm (Before rank) := ⟨by
    rintro index later ⟨high, low, first, second, before⟩ ⟨highest, lowest, third, fourth, after⟩
    obtain rfl := Option.some.inj (first.symm.trans fourth)
    obtain rfl := Option.some.inj (second.symm.trans third)
    omega⟩
  exact List.Pairwise.eq_of_mem_iff ordered orderedOther fun index =>
    (listed index).trans ((agree index).trans (listedOther index).symm)

end LazyQueue

end ModelSearch
