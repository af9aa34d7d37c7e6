import Std.Data.TreeMap
import Std.Data.TreeSet

/-!
# Watch sets

Members are grouped into watch sets, each with a list of owners and a running
total of the weights of its members' marks.  A total of one means that a single
member is undetermined and the others falsified; a total of zero means that all
are falsified.  Marking a member adjusts only the sets it occurs in, and the sets
of total one and zero are kept in two files of their own.

Sets with the same members are one set.
-/

namespace ModelSearch

/-- What is known of a member. -/
inductive Mark where
  | falsified
  | undetermined
  | satisfied
  deriving Repr, DecidableEq

/-- The contribution of a mark to the total of a set. -/
def Mark.weight : Mark → Nat
  | .falsified => 0
  | .undetermined => 1
  | .satisfied => 2

/-- Members in ascending order, the total of their weights, and owners in the
order of addition. -/
structure WatchSet (Member Owner : Type) where
  members : List Member
  total : Nat
  owners : List Owner
  deriving Repr

/-- Watch sets in the order of creation, with what is needed to find them: by
their members, by one member, and by a total of one or zero.  A member without a
mark is undetermined. -/
structure Watches (Member Owner : Type) [Ord Member] where
  sets : Array (WatchSet Member Owner) := #[]
  byMembers : Std.TreeMap (List Member) Nat := ∅
  occurrences : Std.TreeMap Member (List Nat) := ∅
  marks : Std.TreeMap Member Mark := ∅
  units : Std.TreeSet Nat := ∅
  violated : Std.TreeSet Nat := ∅

namespace Watches

variable {Member Owner : Type} [Ord Member]

instance : EmptyCollection (Watches Member Owner) := ⟨{}⟩

instance : Inhabited (Watches Member Owner) := ⟨∅⟩

def mark (watches : Watches Member Owner) (member : Member) : Mark :=
  watches.marks.getD member .undetermined

/-- The sum of the weights of some members. -/
def total (watches : Watches Member Owner) (members : List Member) : Nat :=
  members.foldr (fun member rest => (watches.mark member).weight + rest) 0

/-- Takes a set out of the file of its former total and puts it into that of its
present total. -/
def refile (watches : Watches Member Owner) (index : Nat) (before : Option Nat) (after : Nat) :
    Watches Member Owner :=
  let units := if before = some 1 then watches.units.erase index else watches.units
  let violated := if before = some 0 then watches.violated.erase index else watches.violated
  { watches with
    units := if after = 1 then units.insert index else units
    violated := if after = 0 then violated.insert index else violated }

/-- Adds an owner to the set of the members.  The answer says whether the set is
new. -/
def add [BEq Owner] (watches : Watches Member Owner) (owner : Owner) (members : List Member) :
    Bool × Watches Member Owner :=
  let members := (Std.TreeSet.ofList members compare).toList
  match watches.byMembers[members]? with
  | some index =>
      let join (set : WatchSet Member Owner) :=
        if set.owners.contains owner then set
        else { set with owners := set.owners ++ [owner] }
      (false, { watches with sets := watches.sets.modify index join })
  | none =>
      let index := watches.sets.size
      let total := watches.total members
      let note (occurrences : Std.TreeMap Member (List Nat)) (member : Member) :=
        occurrences.insert member (index :: occurrences.getD member [])
      let added :=
        { watches with
          sets := watches.sets.push ⟨members, total, [owner]⟩
          byMembers := watches.byMembers.insert members index
          occurrences := members.foldl note watches.occurrences }
      (true, added.refile index none total)

/-- The total of a set, zero if there is none. -/
def totalOf (watches : Watches Member Owner) (index : Nat) : Nat :=
  match watches.sets[index]? with
  | none => 0
  | some set => set.total

/-- Replaces one weight in the total of a set. -/
def reweigh (watches : Watches Member Owner) (before after : Mark) (index : Nat) :
    Watches Member Owner :=
  let former := watches.totalOf index
  let total := former - before.weight + after.weight
  let changed :=
    { watches with sets := watches.sets.modify index fun set => { set with total := total } }
  changed.refile index (some former) total

/-- Marks a member and adjusts the sets it occurs in. -/
def setMark (watches : Watches Member Owner) (member : Member) (mark : Mark) :
    Watches Member Owner :=
  let before := watches.mark member
  if before = mark then watches
  else
    let marks :=
      match mark with
      | .undetermined => watches.marks.erase member
      | _ => watches.marks.insert member mark
    (watches.occurrences.getD member []).foldl (fun watches => watches.reweigh before mark)
      { watches with marks := marks }

/-- The pairs of an owner and the undetermined member, set by set, for the sets
with one undetermined member and all others falsified. -/
def unitOwners (watches : Watches Member Owner) : List (Owner × Member) :=
  watches.units.toList.flatMap fun index =>
    match watches.sets[index]? with
    | none => []
    | some set =>
        match set.members.find? fun member => watches.mark member != .falsified with
        | none => []
        | some member => set.owners.map (·, member)

/-- The owners, set by set, of the sets with every member falsified. -/
def violatedOwners (watches : Watches Member Owner) : List Owner :=
  watches.violated.toList.flatMap fun index =>
    match watches.sets[index]? with
    | none => []
    | some set => set.owners

end Watches

end ModelSearch
