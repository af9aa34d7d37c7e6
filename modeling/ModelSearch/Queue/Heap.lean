/-!
# Leftist heaps

A heap yields the greatest element first.  Merging walks the two right spines,
which the ranks keep short; insertion and removal are one merge each.
-/

namespace ModelSearch

/-- A binary tree whose nodes carry the length of their right spine. -/
inductive Heap (α : Type) where
  | empty
  | node (rank : Nat) (root : α) (left right : Heap α)
  deriving Repr

namespace Heap

variable {α : Type}

/-- The length of the right spine. -/
def rank : Heap α → Nat
  | .empty => 0
  | .node rank _ _ _ => rank

/-- A root over two heaps, the one of greater rank on the left. -/
def join (root : α) (first second : Heap α) : Heap α :=
  if second.rank ≤ first.rank then
    .node (second.rank + 1) root first second
  else
    .node (first.rank + 1) root second first

variable [Ord α]

/-- Merges a heap into the node of `root` and `left` whose right child merges
by `mergeRight`. -/
def graft (root : α) (left : Heap α) (mergeRight : Heap α → Heap α) : Heap α → Heap α
  | .empty => join root left (mergeRight .empty)
  | .node rank other otherLeft otherRight =>
      match compare root other with
      | .lt => join other otherLeft (graft root left mergeRight otherRight)
      | _ => join root left (mergeRight (.node rank other otherLeft otherRight))

/-- The elements of both heaps. -/
def merge : Heap α → Heap α → Heap α
  | .empty => id
  | .node _ root left right => graft root left (merge right)

def insert (heap : Heap α) (item : α) : Heap α :=
  merge (.node 1 item .empty .empty) heap

/-- The greatest element, and the heap without it. -/
def pop? : Heap α → Option (α × Heap α)
  | .empty => none
  | .node _ root left right => some (root, merge left right)

end Heap

end ModelSearch
