import Mathlib.Data.List.MinMax
import ModelSearch.Proofs.Queue.Order

/-!
# The lazy queue answers as a map would

Whatever is asked of a queue that starts empty, the answers are those of a map from
indices to priorities: a push inserts an index or replaces its priority, a removal takes
an index out, and a pop takes out the one of greatest priority, the least among equals.

An index may have stale tickets on the heap, from pushes that were replaced and from
removals, and some may be greater than its live one.  They never show, since a stamp is
issued once: of the tickets of an index only the last can be live, and that one carries
the priority the map has (`Priced`).
-/

namespace ModelSearch

/-- The present indices, each with its priority. -/
abbrev PriorityMap := Std.TreeMap Nat Nat

namespace PriorityMap

variable {map : PriorityMap}

/-- The first entry of greatest priority; entries are listed by index. -/
def first? (map : PriorityMap) : Option Nat :=
  (map.toList.argmax Prod.snd).map Prod.fst

/-- The present index of greatest priority, the least among equals. -/
def Foremost (map : PriorityMap) (index : Nat) : Prop :=
  ∃ high, map[index]? = some high ∧
    ∀ other low, map[other]? = some low → low < high ∨ low = high ∧ index ≤ other

private theorem idxOf_le_iff {Entry : Type} [DecidableEq Entry] {index : Entry → Nat}
    {entries : List Entry} (ascending : entries.Pairwise fun one two => index one < index two)
    {entry other : Entry} (held : entry ∈ entries) (present : other ∈ entries) :
    entries.idxOf entry ≤ entries.idxOf other ↔ index entry ≤ index other := by
  have ordered := List.pairwise_iff_getElem.mp ascending
  have inside := List.idxOf_lt_length_of_mem held
  have within := List.idxOf_lt_length_of_mem present
  rcases Nat.lt_trichotomy (entries.idxOf entry) (entries.idxOf other) with before | same | after
  · have less := ordered _ _ inside within before
    rw [List.getElem_idxOf inside, List.getElem_idxOf within] at less
    exact iff_of_true before.le less.le
  · obtain rfl : entry = other := (List.idxOf_inj held).mp same
    exact iff_of_true (Nat.le_refl _) (Nat.le_refl _)
  · have less := ordered _ _ within inside after
    rw [List.getElem_idxOf inside, List.getElem_idxOf within] at less
    exact iff_of_false after.not_ge less.not_ge

theorem first?_eq_some_iff {index : Nat} : map.first? = some index ↔ map.Foremost index := by
  simp only [first?, Option.map_eq_some_iff, Prod.exists, exists_and_right, exists_eq_right,
    Foremost]
  have ascending : map.toList.Pairwise fun one two => one.1 < two.1 :=
    Std.TreeMap.ordered_keys_toList.imp Nat.compare_eq_lt.mp
  refine exists_congr fun high => ?_
  rw [← Option.mem_def, List.mem_argmax_iff, ← Std.TreeMap.mem_toList_iff_getElem?_eq_some]
  refine and_congr_right fun held => ?_
  constructor
  · rintro ⟨greatest, earliest⟩ other low present
    rw [← Std.TreeMap.mem_toList_iff_getElem?_eq_some] at present
    rcases Nat.lt_or_eq_of_le (greatest _ present) with less | same
    · exact .inl less
    · exact .inr ⟨same, (idxOf_le_iff ascending held present).mp (earliest _ present same.ge)⟩
  · intro foremost
    have ranked : ∀ entry ∈ map.toList, entry.2 < high ∨ entry.2 = high ∧ index ≤ entry.1 :=
      fun entry present =>
        foremost _ _ (Std.TreeMap.mem_toList_iff_getElem?_eq_some.mp present)
    refine ⟨fun other present => ?_, fun other present level => ?_⟩
    · exact (ranked other present).elim Nat.le_of_lt fun same => same.1.le
    · rcases ranked other present with less | same
      · exact absurd level less.not_ge
      · exact (idxOf_le_iff ascending held present).mpr same.2

theorem first?_eq_none_iff : map.first? = none ↔ map.isEmpty = true := by
  rw [first?, Option.map_eq_none_iff, List.argmax_eq_none, ← List.isEmpty_iff,
    Std.TreeMap.isEmpty_toList]

/-- Takes out the foremost index. -/
def pop (map : PriorityMap) : Option Nat × PriorityMap :=
  match map.first? with
  | some index => (some index, map.erase index)
  | none => (none, map)

end PriorityMap

/-- What may be asked of a priority queue. -/
inductive QueueRequest where
  | push (index priority : Nat)
  | remove (index : Nat)
  | pop
  | contains (index : Nat)
  | size
  | isEmpty
  deriving Repr, DecidableEq

inductive QueueReply where
  | done
  | truth (answer : Bool)
  | index (popped : Option Nat)
  | number (size : Nat)
  deriving Repr, DecidableEq

def LazyQueue.serve (queue : LazyQueue) : QueueRequest → QueueReply × LazyQueue
  | .push index priority => (.done, queue.push index priority)
  | .remove index => (queue.remove index).map .truth id
  | .pop => queue.pop.map .index id
  | .contains index => (.truth (queue.contains index), queue)
  | .size => (.number queue.size, queue)
  | .isEmpty => (.truth queue.isEmpty, queue)

def PriorityMap.serve (map : PriorityMap) : QueueRequest → QueueReply × PriorityMap
  | .push index priority => (.done, map.insert index priority)
  | .remove index => (.truth (map.contains index), map.erase index)
  | .pop => map.pop.map .index id
  | .contains index => (.truth (map.contains index), map)
  | .size => (.number map.size, map)
  | .isEmpty => (.truth map.isEmpty, map)

/-- The replies to requests served one after another. -/
def QueueReply.all {State : Type} (serve : State → QueueRequest → QueueReply × State) :
    State → List QueueRequest → List QueueReply
  | _, [] => []
  | state, request :: requests =>
      let (reply, rest) := serve state request
      reply :: all serve rest requests

namespace LazyQueue

/-- The queue has the indices of the map, and each live ticket the priority of its index. -/
structure Priced (queue : LazyQueue) (map : PriorityMap) : Prop where
  ordered : queue.heap.Ordered
  dated : ∀ ticket ∈ queue.heap.elements, ticket.stamp < queue.stamp
  priced : ∀ ticket ∈ queue.heap.elements, queue.live[ticket.index]? = some ticket.stamp →
    map[ticket.index]? = some ticket.priority
  shared : ∀ index, queue.contains index = map.contains index
  counted : queue.count = map.size

variable {queue : LazyQueue} {map : PriorityMap}

theorem priced_empty : (∅ : LazyQueue).Priced ∅ where
  ordered := trivial
  dated := by rintro _ ⟨⟩
  priced := by rintro _ ⟨⟩
  shared index := by rw [contains_empty, Std.TreeMap.contains_emptyc]
  counted := Std.TreeMap.size_emptyc.symm

theorem Priced.push (priced : queue.Priced map) (index priority : Nat) :
    (queue.push index priority).Priced (map.insert index priority) where
  ordered := Heap.ordered_insert priced.ordered _
  dated ticket held := by
    rcases List.mem_cons.mp ((Heap.elements_insert _ _).mem_iff.mp held) with rfl | former
    · exact Nat.lt_succ_self _
    · exact Nat.lt_succ_of_lt (priced.dated ticket former)
  priced ticket held live := by
    rw [LazyQueue.push, Std.TreeMap.getElem?_insert] at live
    rw [Std.TreeMap.getElem?_insert]
    rcases List.mem_cons.mp ((Heap.elements_insert _ _).mem_iff.mp held) with rfl | former
    · simp
    · split at live
      · -- An older ticket of the index cannot have the stamp that is issued only now.
        exact absurd (Option.some.inj live) (priced.dated ticket former).ne'
      next different => exact if_neg different ▸ priced.priced ticket former live
  shared other := by
    rw [LazyQueue.contains, LazyQueue.push, Std.TreeMap.contains_insert,
      Std.TreeMap.contains_insert]
    exact congrArg _ (priced.shared other)
  counted := by
    have shared := priced.shared index
    simp only [LazyQueue.push, shared, Std.TreeMap.size_insert, priced.counted,
      Std.TreeMap.contains_iff_mem]

theorem Priced.rest (priced : queue.Priced map) {ticket : Ticket} {heap : Heap Ticket}
    (popped : queue.heap.pop? = some (ticket, heap)) :
    ({ queue with heap := heap } : LazyQueue).Priced map where
  ordered := (Heap.ordered_pop priced.ordered popped).1
  dated other held :=
    priced.dated other ((Heap.elements_pop popped).mem_iff.mpr (List.mem_cons_of_mem _ held))
  priced other held :=
    priced.priced other ((Heap.elements_pop popped).mem_iff.mpr (List.mem_cons_of_mem _ held))
  shared := priced.shared
  counted := priced.counted

theorem Priced.erase (priced : queue.Priced map) (index : Nat) :
    (queue.erase index).Priced (map.erase index) := by
  have shared (other : Nat) :
      (queue.erase index).contains other = (map.erase index).contains other := by
    rw [Bool.eq_iff_iff, contains_erase, priced.shared]
    simp only [Std.TreeMap.contains_erase, Bool.and_eq_true, bne_iff_ne, ne_eq,
      Std.LawfulEqCmp.compare_eq_iff_eq, eq_comm (a := index)]
  have agree := priced.shared index
  by_cases present : queue.contains index = true
  · rw [LazyQueue.erase, if_pos present] at shared ⊢
    refine ⟨priced.ordered, priced.dated, fun ticket held live => ?_, shared, ?_⟩
    · rw [Std.TreeMap.getElem?_erase] at live ⊢
      split at live
      · cases live
      next different => exact if_neg different ▸ priced.priced ticket held live
    · rw [Std.TreeMap.size_erase, ← agree, if_pos present,
        ← priced.counted]
  · rw [LazyQueue.erase, if_neg present] at shared ⊢
    refine ⟨priced.ordered, priced.dated, fun ticket held live => ?_, shared, ?_⟩
    · have kept := priced.priced ticket held live
      rw [Std.TreeMap.getElem?_erase, if_neg, kept]
      intro same
      obtain rfl : index = ticket.index := Std.LawfulEqCmp.compare_eq_iff_eq.mp same
      exact present (agree.trans (by rw [Std.TreeMap.contains_eq_isSome_getElem?, kept]; rfl))
    · rw [Std.TreeMap.size_erase, ← agree, if_neg present,
        priced.counted]

theorem remove_eq (queue : LazyQueue) (index : Nat) :
    queue.remove index = (queue.contains index, queue.erase index) := by
  unfold remove erase contains
  rw [Std.TreeMap.contains_eq_isSome_getElem?]
  cases queue.live[index]? <;> rfl

/-- A live ticket on top of the heap is for the foremost index. -/
theorem Priced.foremost (priced : queue.Priced map) (sound : queue.Sound) {ticket : Ticket}
    {heap : Heap Ticket} (popped : queue.heap.pop? = some (ticket, heap))
    (live : queue.live[ticket.index]? = some ticket.stamp) : map.Foremost ticket.index := by
  have top : ticket ∈ queue.heap.elements :=
    (Heap.elements_pop popped).mem_iff.mpr List.mem_cons_self
  refine ⟨ticket.priority, priced.priced ticket top live, fun other low present => ?_⟩
  obtain ⟨stamp, held⟩ : ∃ stamp, queue.live[other]? = some stamp := by
    rw [← Option.isSome_iff_exists, ← Std.TreeMap.contains_eq_isSome_getElem?]
    exact (priced.shared other).trans (by
      rw [Std.TreeMap.contains_eq_isSome_getElem?, present]; rfl)
  obtain ⟨priority, queued⟩ := sound.ticketed other stamp held
  obtain rfl : priority = low :=
    Option.some.inj ((priced.priced _ queued held).symm.trans present)
  exact Ticket.le_of_isLE ((Heap.ordered_pop priced.ordered popped).2 _ queued)

theorem Priced.first?_eq_none (priced : queue.Priced map) (sound : queue.Sound)
    (bare : queue.heap.elements = []) : map.first? = none := by
  rw [PriorityMap.first?_eq_none_iff, Std.TreeMap.isEmpty_iff_forall_contains]
  intro index
  rw [← priced.shared]
  exact (sound.popped_none bare).exhausted rfl index

theorem Priced.popTickets (priced : queue.Priced map) (sound : queue.Sound) {tickets : Nat}
    (enough : queue.heap.elements.length ≤ tickets) :
    (queue.popTickets tickets).1 = map.pop.1 ∧ (queue.popTickets tickets).2.Priced map.pop.2 := by
  -- Stale tickets leave both the map and the live tickets as they are.
  induction tickets generalizing queue with
  | zero =>
      have bare := List.length_eq_zero_iff.mp (Nat.le_zero.mp enough)
      have nothing := priced.first?_eq_none sound bare
      simp only [LazyQueue.popTickets, PriorityMap.pop, nothing]
      exact ⟨trivial, priced⟩
  | succ tickets induction =>
      cases popped : queue.heap.pop? with
      | none =>
          have nothing := priced.first?_eq_none sound (Heap.elements_of_pop_none popped)
          simp only [LazyQueue.popTickets, popped, PriorityMap.pop, nothing]
          exact ⟨trivial, priced⟩
      | some pair =>
          obtain ⟨ticket, heap⟩ := pair
          by_cases live : queue.live[ticket.index]? = some ticket.stamp
          · have first := PriorityMap.first?_eq_some_iff.mpr (priced.foremost sound popped live)
            simp only [LazyQueue.popTickets, popped, live, if_true, PriorityMap.pop, first]
            exact ⟨trivial, (priced.rest popped).erase ticket.index⟩
          · have shorter := (Heap.elements_pop popped).length_eq
            simp only [List.length_cons] at shorter
            simp only [LazyQueue.popTickets, popped, live, if_false]
            exact induction (priced.rest popped) (sound.drop popped live) (by dsimp only; omega)

/-- One request: the queue replies as the map does, and goes on standing for it. -/
theorem Priced.serve (priced : queue.Priced map) (sound : queue.Sound) (request : QueueRequest) :
    (queue.serve request).1 = (map.serve request).1 ∧
      (queue.serve request).2.Priced (map.serve request).2 ∧ (queue.serve request).2.Sound := by
  cases request with
  | push index priority =>
      exact ⟨rfl, priced.push index priority, sound.push index priority⟩
  | remove index =>
      simp only [LazyQueue.serve, PriorityMap.serve, remove_eq, Prod.map_apply, id_eq]
      exact ⟨congrArg _ (priced.shared index), priced.erase index, sound.erase index⟩
  | pop =>
      obtain ⟨answer, rest⟩ := priced.popTickets sound sound.issued
      exact ⟨congrArg QueueReply.index answer, rest, (pop_spec sound).sound⟩
  | contains index => exact ⟨congrArg _ (priced.shared index), priced, sound⟩
  | size => exact ⟨congrArg _ priced.counted, priced, sound⟩
  | isEmpty =>
      refine ⟨congrArg QueueReply.truth ?_, priced, sound⟩
      rw [LazyQueue.isEmpty, priced.counted, ← Std.TreeMap.isEmpty_eq_size_eq_zero]

theorem Priced.replies (priced : queue.Priced map) (sound : queue.Sound)
    (requests : List QueueRequest) :
    QueueReply.all LazyQueue.serve queue requests =
      QueueReply.all PriorityMap.serve map requests := by
  induction requests generalizing queue map with
  | nil => rfl
  | cons request requests induction =>
      obtain ⟨same, rest, soundRest⟩ := priced.serve sound request
      exact congrArg₂ List.cons same (induction rest soundRest)

/-- Whatever is asked of an empty queue, it replies as an empty map would. -/
theorem replies_as_map (requests : List QueueRequest) :
    QueueReply.all LazyQueue.serve ∅ requests = QueueReply.all PriorityMap.serve ∅ requests :=
  priced_empty.replies sound_empty requests

/-- The greater ticket of index 0 is stale, and 1 is popped first. -/
example :
    QueueReply.all LazyQueue.serve ∅ [.push 0 9, .push 1 5, .push 0 2, .size, .pop, .pop, .pop] =
      [.done, .done, .done, .number 2, .index (some 1), .index (some 0), .index none] := by
  decide +kernel

end LazyQueue

end ModelSearch
