import ModelSearch.Queue.Heap
import Std.Data.TreeMap

/-!
# A priority queue with lazy removal

Elements are indices, each present with one priority.  Every push puts a ticket
with a fresh stamp on the heap and makes that stamp the live one of its index;
removing an index or pushing it again only makes older tickets stale.  A pop
discards stale tickets until it meets a live one.  Of equal priorities the least
index comes first.
-/

namespace ModelSearch

/-- One push: an index, its priority, and the number of the push. -/
structure Ticket where
  priority : Nat
  index : Nat
  stamp : Nat
  deriving Repr, DecidableEq

/-- A greater ticket leaves the heap first: by priority, then by smaller index. -/
protected def Ticket.compare (left right : Ticket) : Ordering :=
  ((compare left.priority right.priority).then (compare right.index left.index)).then
    (compare left.stamp right.stamp)

instance : Ord Ticket := ⟨Ticket.compare⟩

/-- The heap of all tickets not yet discarded, and for each present index the
stamp of its live ticket. -/
structure LazyQueue where
  heap : Heap Ticket := .empty
  live : Std.TreeMap Nat Nat := ∅
  count : Nat := 0
  stamp : Nat := 0

namespace LazyQueue

instance : EmptyCollection LazyQueue := ⟨{}⟩

instance : Inhabited LazyQueue := ⟨∅⟩

def contains (queue : LazyQueue) (index : Nat) : Bool := queue.live.contains index

/-- The number of present indices. -/
def size (queue : LazyQueue) : Nat := queue.count

def isEmpty (queue : LazyQueue) : Bool := queue.count == 0

/-- Inserts an index, or replaces its priority. -/
def push (queue : LazyQueue) (index priority : Nat) : LazyQueue where
  heap := queue.heap.insert ⟨priority, index, queue.stamp⟩
  live := queue.live.insert index queue.stamp
  count := if queue.contains index then queue.count else queue.count + 1
  stamp := queue.stamp + 1

/-- Makes an index absent; nothing changes if it is absent already. -/
def erase (queue : LazyQueue) (index : Nat) : LazyQueue :=
  if queue.contains index then
    { queue with live := queue.live.erase index, count := queue.count - 1 }
  else queue

/-- Makes an index absent, and says whether it was present. -/
def remove (queue : LazyQueue) (index : Nat) : Bool × LazyQueue :=
  match queue.live[index]? with
  | some _ => (true, { queue with live := queue.live.erase index, count := queue.count - 1 })
  | none => (false, queue)

/-- Takes tickets off the heap until one is live.  The first argument bounds the
number of tickets taken. -/
def popTickets : Nat → LazyQueue → Option Nat × LazyQueue
  | 0, queue => (none, queue)
  | tickets + 1, queue =>
      match queue.heap.pop? with
      | none => (none, queue)
      | some (ticket, heap) =>
          let rest := { queue with heap := heap }
          if queue.live[ticket.index]? = some ticket.stamp then
            (some ticket.index, rest.erase ticket.index)
          else popTickets tickets rest

/-- Removes and answers the present index of greatest priority, the least among
equals.  The heap never holds more tickets than were issued. -/
def pop (queue : LazyQueue) : Option Nat × LazyQueue :=
  queue.popTickets queue.stamp

/-- Pops until nothing is left. -/
def drainWithin : Nat → LazyQueue → List Nat × LazyQueue
  | 0, queue => ([], queue)
  | pops + 1, queue =>
      match queue.pop with
      | (none, rest) => ([], rest)
      | (some index, rest) =>
          let (indices, last) := drainWithin pops rest
          (index :: indices, last)

/-- All indices in the order of popping, and the queue without them. -/
def drain (queue : LazyQueue) : List Nat × LazyQueue :=
  queue.drainWithin (queue.count + 1)

end LazyQueue

end ModelSearch
