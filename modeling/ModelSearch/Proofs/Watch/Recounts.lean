import Mathlib.Algebra.GroupWithZero.Nat
import Mathlib.Data.List.Induction
import ModelSearch.Proofs.Watch.Marks

/-!
# Watch sets are what a recount finds

Owners are added and members marked in any order, and totals, files and occurrences are
kept up to date.  None of this shows: the sets, the owners of unit and of violated sets, and
whether an addition makes a new set are what counting from scratch gives.  The count looks
only at the additions in order and at the last mark of each member, so it does not matter
when a member was marked.
-/

namespace ModelSearch

/-- A change to a table of watch sets. -/
inductive WatchCall (Member Owner : Type) where
  | add (owner : Owner) (members : List Member)
  | set (member : Member) (mark : Mark)
  deriving Repr

namespace WatchCall

variable {Member Owner : Type}

def addition? : WatchCall Member Owner → Option (Owner × List Member)
  | .add owner members => some (owner, members)
  | .set _ _ => none

/-- Owners and members as they were added, in order. -/
def additions (calls : List (WatchCall Member Owner)) : List (Owner × List Member) :=
  calls.filterMap addition?

/-- The mark that a member was given last; it is undetermined if it was never marked. -/
def lastMark [DecidableEq Member] (calls : List (WatchCall Member Owner)) (member : Member) :
    Mark :=
  calls.foldl (fun known call =>
    match call with
    | .add _ _ => known
    | .set other mark => if other = member then mark else known) .undetermined

variable [Ord Member] [BEq Owner]

def perform (watches : Watches Member Owner) : WatchCall Member Owner → Watches Member Owner
  | .add owner members => (watches.add owner members).2
  | .set member mark => watches.setMark member mark

/-- What the calls make of an empty table. -/
def performAll (calls : List (WatchCall Member Owner)) : Watches Member Owner :=
  calls.foldl perform ∅

end WatchCall

/-! ## Counting from scratch -/

namespace Recount

variable {Member Owner : Type} [Ord Member] [DecidableEq Member] [BEq Owner]

/-- The distinct lists of members, in order of first addition. -/
def memberLists (additions : List (Owner × List Member)) : List (List Member) :=
  (additions.map fun addition => canonical addition.2).eraseDups

/-- The distinct owners added under a list of members, in order of first addition. -/
def owners (additions : List (Owner × List Member)) (members : List Member) : List Owner :=
  ((additions.filter fun addition => canonical addition.2 = members).map Prod.fst).eraseDups

def sets (additions : List (Owner × List Member)) (marks : Member → Mark) :
    List (WatchSet Member Owner) :=
  (memberLists additions).map fun members =>
    ⟨members, (members.map fun member => (marks member).weight).sum, owners additions members⟩

/-- The undetermined member, if all others are falsified. -/
def unit? (marks : Member → Mark) (members : List Member) : Option Member :=
  members.find? fun member => marks member = .undetermined ∧
    ∀ other ∈ members, other ≠ member → marks other = .falsified

def unitOwners (additions : List (Owner × List Member)) (marks : Member → Mark) :
    List (Owner × Member) :=
  (memberLists additions).flatMap fun members =>
    match unit? marks members with
    | none => []
    | some member => (owners additions members).map (·, member)

def violatedOwners (additions : List (Owner × List Member)) (marks : Member → Mark) :
    List Owner :=
  (memberLists additions).flatMap fun members =>
    if ∀ member ∈ members, marks member = .falsified then owners additions members else []

omit [Ord Member] [BEq Owner] in
theorem unit?_eq_some_iff {marks : Member → Mark} {members : List Member} {member : Member} :
    unit? marks members = some member ↔ member ∈ members ∧ marks member = .undetermined ∧
      ∀ other ∈ members, other ≠ member → marks other = .falsified := by
  constructor
  · intro found
    exact ⟨List.mem_of_find?_eq_some found, by simpa using List.find?_some found⟩
  · rintro ⟨inside, undetermined, rest⟩
    cases found : unit? marks members with
    | none =>
        have refused := List.find?_eq_none.mp found member inside
        exact absurd (decide_eq_true ⟨undetermined, rest⟩) refused
    | some other =>
        -- Of two such members each would be falsified on account of the other.
        obtain ⟨open_, -⟩ : marks other = .undetermined ∧ _ := by simpa using List.find?_some found
        by_contra different
        have falsified := rest other (List.mem_of_find?_eq_some found) fun same =>
          different (congrArg some same)
        rw [open_] at falsified
        cases falsified

private theorem eraseDups_concat {Item : Type} [BEq Item] [LawfulBEq Item] (items : List Item)
    (item : Item) : (items ++ [item]).eraseDups =
      if items.eraseDups.contains item then items.eraseDups else items.eraseDups ++ [item] := by
  rw [List.eraseDups_append]
  by_cases known : item ∈ items
  · simp [known, List.removeAll]
  · simp [known, List.removeAll, List.eraseDups_cons]

omit [BEq Owner] in
theorem memberLists_concat (additions : List (Owner × List Member)) (owner : Owner)
    (members : List Member) : memberLists (additions ++ [(owner, members)]) =
      if (memberLists additions).contains (canonical members) then memberLists additions
      else memberLists additions ++ [canonical members] := by
  rw [memberLists, List.map_append, List.map_singleton, eraseDups_concat, memberLists]

theorem owners_concat [LawfulBEq Owner] (additions : List (Owner × List Member)) (owner : Owner)
    (members others : List Member) : owners (additions ++ [(owner, members)]) others =
      if canonical members = others then
        if (owners additions others).contains owner then owners additions others
        else owners additions others ++ [owner]
      else owners additions others := by
  unfold owners
  rw [List.filter_append]
  by_cases same : canonical members = others
  · simp only [same, if_true, List.filter_cons, List.filter_nil, decide_true, List.map_append,
      List.map_cons, List.map_nil]
    exact eraseDups_concat _ _
  · simp [same]

theorem owners_eq_nil {additions : List (Owner × List Member)} {members : List Member}
    (absent : members ∉ memberLists additions) : owners additions members = [] := by
  have none : additions.filter (fun addition => canonical addition.2 = members) = [] := by
    refine List.filter_eq_nil_iff.mpr fun addition listed => ?_
    rw [decide_eq_true_eq]
    rintro rfl
    exact absent (List.mem_eraseDups.mpr (List.mem_map_of_mem listed))
  rw [owners, none]
  rfl

end Recount

namespace Watches

variable {Member Owner : Type} [Ord Member]

/-! ## Watch sets without their totals -/

/-- Members and owners of each set. -/
def outline (watches : Watches Member Owner) : List (List Member × List Owner) :=
  watches.sets.toList.map fun set => (set.members, set.owners)

theorem getElem?_outline (watches : Watches Member Owner) (index : Nat) :
    watches.outline[index]? = watches.sets[index]?.map fun set => (set.members, set.owners) := by
  simp [outline]

theorem total_congr {left right : Watches Member Owner}
    (marks : ∀ member, left.mark member = right.mark member) (members : List Member) :
    left.total members = right.total members := by
  induction members with
  | nil => rfl
  | cons member members induction => rw [total_cons, total_cons, marks, induction]

/-- The totals follow from the marks. -/
theorem sets_eq {left right : Watches Member Owner} (sound : left.Sound)
    (soundRight : right.Sound) (outline : left.outline = right.outline)
    (marks : ∀ member, left.mark member = right.mark member) : left.sets = right.sets := by
  refine Array.ext_getElem? fun index => ?_
  have same := congrArg (·[index]?) outline
  simp only [getElem?_outline] at same
  cases present : left.sets[index]? with
  | none =>
      cases presentRight : right.sets[index]? with
      | none => rfl
      | some set => simp [present, presentRight] at same
  | some set =>
      cases presentRight : right.sets[index]? with
      | none => simp [present, presentRight] at same
      | some other =>
          simp only [present, presentRight, Option.map_some, Option.some.injEq,
            Prod.mk.injEq] at same
          have counted := sound.counted index set present
          have countedRight := soundRight.counted index other presentRight
          rw [total_congr marks, same.1, ← countedRight] at counted
          obtain ⟨members, total, owners⟩ := set
          obtain ⟨rfl, rfl⟩ := same
          rw [show total = other.total from counted]

theorem unitOwners_eq {left right : Watches Member Owner} (sound : left.Sound)
    (soundRight : right.Sound) (sets : left.sets = right.sets)
    (marks : ∀ member, left.mark member = right.mark member) :
    left.unitOwners = right.unitOwners := by
  have files : left.units.toList = right.units.toList := by
    refine ascending_ext Std.TreeSet.ordered_toList Std.TreeSet.ordered_toList fun index => ?_
    rw [Std.TreeSet.mem_toList, Std.TreeSet.mem_toList, sound.filed.units,
      soundRight.filed.units, sets]
  unfold unitOwners
  simp only [files, sets, marks]

theorem violatedOwners_eq {left right : Watches Member Owner} (sound : left.Sound)
    (soundRight : right.Sound) (sets : left.sets = right.sets) :
    left.violatedOwners = right.violatedOwners := by
  have files : left.violated.toList = right.violated.toList := by
    refine ascending_ext Std.TreeSet.ordered_toList Std.TreeSet.ordered_toList fun index => ?_
    rw [Std.TreeSet.mem_toList, Std.TreeSet.mem_toList, sound.filed.violated,
      soundRight.filed.violated, sets]
  unfold violatedOwners
  simp only [files, sets]

section Marking

variable [DecidableEq Member]

theorem outline_setMark {watches : Watches Member Owner} (sound : watches.Sound)
    (member : Member) (mark : Mark) : (watches.setMark member mark).outline = watches.outline := by
  refine List.ext_getElem? fun index => ?_
  rw [getElem?_outline, getElem?_outline, setMark_sets sound, Option.map_map]
  congr 1
  funext set
  dsimp only [Function.comp_apply]
  split <;> rfl

end Marking

/-! ## What the calls make -/

/-- A set lists a member once, so its total is at least the weight of each. -/
theorem Sound.weight_le [Std.TransOrd Member] {watches : Watches Member Owner}
    (sound : watches.Sound) {index : Nat} {set : WatchSet Member Owner}
    (present : watches.sets[index]? = some set) {member : Member} (inside : member ∈ set.members) :
    (watches.mark member).weight ≤ set.total := by
  have distinct := nodup_of_ascending (sound.ascending index set present)
  rw [sound.counted index set present]
  exact ((total_of_marks_agree (fun _ _ => rfl) distinct).1 inside).1

/-- The sets at the indices adjusted, one after the other, to a new mark of a member. -/
def adjusted (watches : Watches Member Owner) (member : Member) (mark : Mark)
    (indices : List Nat) : Watches Member Owner :=
  let marks :=
    match mark with
    | .undetermined => watches.marks.erase member
    | _ => watches.marks.insert member mark
  indices.foldl (fun adjusting => adjusting.reweigh (watches.mark member) mark)
    { watches with marks := marks }

theorem setMark_eq_adjusted {watches : Watches Member Owner} {member : Member} {mark : Mark}
    (changed : watches.mark member ≠ mark) : watches.setMark member mark =
      watches.adjusted member mark (watches.occurrences.getD member []) := by
  unfold setMark
  rw [if_neg changed]
  rfl

/-- What is subtracted from a total is part of it, also when other sets were adjusted
before. -/
theorem Sound.weight_le_totalOf [DecidableEq Member] [Std.TransOrd Member]
    {watches : Watches Member Owner} (sound : watches.Sound) {member : Member} (mark : Mark)
    {earlier later : List Nat} {index : Nat}
    (occurs : watches.occurrences.getD member [] = earlier ++ index :: later) :
    (watches.mark member).weight ≤ (watches.adjusted member mark earlier).totalOf index := by
  have once := sound.once member
  rw [occurs, List.nodup_append] at once
  have fresh : index ∉ earlier := fun held => once.2.2 _ held _ List.mem_cons_self rfl
  obtain ⟨set, present, inside⟩ := (sound.occurs member index).mp (by simp [occurs])
  have same : (watches.adjusted member mark earlier).sets[index]? = some set := by
    unfold adjusted
    rw [reweighAll_sets _ _ once.1, if_neg fresh]
    exact present
  rw [totalOf, same]
  exact sound.weight_le present inside

section Adding

variable [BEq Owner] [DecidableEq Member]

/-- The owner joins the set of the members. -/
def enrolled (owner : Owner) (members : List Member) (pair : List Member × List Owner) :
    List Member × List Owner :=
  if pair.1 = members then
    (pair.1, if pair.2.contains owner then pair.2 else pair.2 ++ [owner])
  else pair

theorem outline_add_of_known {watches : Watches Member Owner} (sound : watches.Sound)
    {members : List Member} {home : Nat}
    (known : watches.byMembers[canonical members]? = some home) (owner : Owner) :
    (watches.add owner members).2.outline =
      watches.outline.map (enrolled owner (canonical members)) := by
  refine List.ext_getElem? fun index => ?_
  rw [add_of_known known, List.getElem?_map, getElem?_outline, getElem?_outline,
    Array.getElem?_modify]
  cases present : watches.sets[index]? with
  | none => split <;> rfl
  | some set =>
      -- The set of the members is at its home, and at no other index.
      have located : set.members = canonical members ↔ home = index := by
        have found := sound.found (canonical members) index
        rw [known, Option.some.injEq, present] at found
        simpa using found.symm
      by_cases same : home = index
      · simp only [if_pos same, Option.map_some]
        rw [enrolled, if_pos (located.mpr same), joined]
        split <;> rfl
      · simp only [if_neg same, Option.map_some]
        rw [enrolled, if_neg (mt located.mp same)]

omit [DecidableEq Member] in
theorem outline_add_of_new {watches : Watches Member Owner} {members : List Member}
    (unknown : watches.byMembers[canonical members]? = none) (owner : Owner) :
    (watches.add owner members).2.outline = watches.outline ++ [(canonical members, [owner])] := by
  rw [add_of_new unknown]
  simp [outline, refile]

end Adding

theorem Sound.mem_outline {watches : Watches Member Owner} (sound : watches.Sound)
    {members : List Member} : members ∈ watches.outline.map Prod.fst ↔
      ∃ index, watches.byMembers[members]? = some index := by
  simp only [outline, List.map_map, List.mem_map, Array.mem_toList_iff, Array.mem_iff_getElem?,
    sound.found, Function.comp_apply]
  constructor
  · rintro ⟨set, ⟨index, present⟩, same⟩
    exact ⟨index, set, present, same⟩
  · rintro ⟨index, set, present, same⟩
    exact ⟨set, ⟨index, present⟩, same⟩

section Recounting

variable [DecidableEq Member] [BEq Owner]

/-- Members and owners are those that were added, and the marks are known. -/
structure Counts (watches : Watches Member Owner) (additions : List (Owner × List Member))
    (marks : Member → Mark) : Prop where
  sound : watches.Sound
  listed : watches.outline.map Prod.fst = Recount.memberLists additions
  owned : ∀ pair ∈ watches.outline, pair.2 = Recount.owners additions pair.1
  marked : ∀ member, watches.mark member = marks member

variable {watches : Watches Member Owner} {additions : List (Owner × List Member)}
  {marks : Member → Mark}

theorem counts_empty [Std.TransOrd Member] :
    (∅ : Watches Member Owner).Counts [] fun _ => .undetermined where
  sound := sound_empty
  listed := rfl
  owned := by rintro _ ⟨⟩
  marked _ := Std.TreeMap.getD_emptyc

theorem Counts.known_iff (counts : watches.Counts additions marks) {members : List Member} :
    members ∈ Recount.memberLists additions ↔
      ∃ index, watches.byMembers[members]? = some index := by
  rw [← counts.listed, counts.sound.mem_outline]

variable [Std.TransOrd Member] [Std.LawfulEqOrd Member] [LawfulBEq Owner]

theorem Counts.add_of_known (counts : watches.Counts additions marks) {members : List Member}
    {home : Nat} (known : watches.byMembers[canonical members]? = some home) (owner : Owner) :
    (watches.add owner members).2.Counts (additions ++ [(owner, members)]) marks where
  sound := counts.sound.add owner members
  listed := by
    have same : Prod.fst ∘ enrolled owner (canonical members) = Prod.fst := by
      funext pair
      rw [Function.comp_apply, enrolled]
      split <;> rfl
    rw [outline_add_of_known counts.sound known, List.map_map, same, counts.listed,
      Recount.memberLists_concat, if_pos]
    exact List.contains_iff_mem.mpr (counts.known_iff.mpr ⟨home, known⟩)
  owned := by
    rw [outline_add_of_known counts.sound known]
    intro pair listed
    obtain ⟨former, inside, rfl⟩ := List.mem_map.mp listed
    have owned := counts.owned former inside
    rw [enrolled, Recount.owners_concat]
    by_cases same : former.1 = canonical members
    · simp only [same, if_true, owned]
    · rw [if_neg same, if_neg (Ne.symm same), owned]
  marked member := (mark_add _ _ _ _).trans (counts.marked member)

theorem Counts.add_of_new (counts : watches.Counts additions marks) {members : List Member}
    (unknown : watches.byMembers[canonical members]? = none) (owner : Owner) :
    (watches.add owner members).2.Counts (additions ++ [(owner, members)]) marks := by
  have absent : canonical members ∉ Recount.memberLists additions := by
    rw [counts.known_iff, unknown]
    rintro ⟨_, ⟨⟩⟩
  refine ⟨counts.sound.add owner members, ?_, ?_, fun member => ?_⟩
  · rw [outline_add_of_new unknown, List.map_append, counts.listed, Recount.memberLists_concat,
      if_neg (mt List.contains_iff_mem.mp absent)]
    rfl
  · rw [outline_add_of_new unknown]
    intro pair listed
    rw [Recount.owners_concat]
    rcases List.mem_append.mp listed with former | last
    · rw [if_neg, counts.owned pair former]
      rintro same
      exact absent (same ▸ counts.listed ▸ List.mem_map_of_mem former)
    · rw [List.mem_singleton.mp last, if_pos rfl, Recount.owners_eq_nil absent]
      rfl
  · exact (mark_add _ _ _ _).trans (counts.marked member)

theorem Counts.add (counts : watches.Counts additions marks) (owner : Owner)
    (members : List Member) :
    (watches.add owner members).2.Counts (additions ++ [(owner, members)]) marks := by
  cases known : watches.byMembers[canonical members]? with
  | some home => exact counts.add_of_known known owner
  | none => exact counts.add_of_new known owner

omit [LawfulBEq Owner] in
theorem Counts.setMark (counts : watches.Counts additions marks) (member : Member) (mark : Mark) :
    (watches.setMark member mark).Counts additions
      fun other => if member = other then mark else marks other where
  sound := counts.sound.setMark member mark
  listed := by rw [outline_setMark counts.sound, counts.listed]
  owned := by
    rw [outline_setMark counts.sound]
    exact counts.owned
  marked other := by rw [mark_setMark, counts.marked]

theorem counts_performAll (calls : List (WatchCall Member Owner)) :
    (WatchCall.performAll calls).Counts (WatchCall.additions calls) (WatchCall.lastMark calls) := by
  -- The last call is the one that makes a difference, so the induction is from the end.
  induction calls using List.reverseRecOn with
  | nil => exact counts_empty
  | append_singleton calls call counts =>
      unfold WatchCall.performAll WatchCall.additions WatchCall.lastMark at *
      simp only [List.foldl_concat, List.filterMap_append]
      cases call with
      | add owner members => exact counts.add owner members
      | set member mark =>
          have marked := counts.setMark member mark
          rw [← List.append_nil (List.filterMap _ calls)] at marked
          exact marked

end Recounting

/-! ## What the files list -/

private theorem flatMap_range {Item Listed : Type} (items : List Item)
    (listed : Item → List Listed) :
    ((List.range items.length).flatMap fun index =>
      match items[index]? with
      | none => []
      | some item => listed item) = items.flatMap listed := by
  induction items with
  | nil => rfl
  | cons item items induction =>
      rw [List.length_cons, List.range_succ_eq_map, List.flatMap_cons, List.flatMap_map,
        List.flatMap_cons, ← induction]
      rfl

omit [Ord Member] in
/-- What is listed by a file of indices is listed by the sets themselves. -/
theorem flatMap_filed {sets : Array (WatchSet Member Owner)} {files : Std.TreeSet Nat}
    {good : WatchSet Member Owner → Prop} [DecidablePred good]
    (filed : ∀ index, index ∈ files ↔ ∃ set, sets[index]? = some set ∧ good set)
    {Listed : Type} (listed : WatchSet Member Owner → List Listed) :
    (files.toList.flatMap fun index =>
      match sets[index]? with
      | none => []
      | some set => listed set) =
      sets.toList.flatMap fun set => if good set then listed set else [] := by
  have indices : files.toList =
      (List.range sets.size).filter fun index => sets[index]?.any fun set => good set := by
    refine ascending_ext Std.TreeSet.ordered_toList ?_ fun index => ?_
    · exact (List.pairwise_lt_range.filter _).imp Nat.compare_eq_lt.mpr
    · rw [Std.TreeSet.mem_toList, filed, List.mem_filter, List.mem_range, Option.any_eq_true]
      constructor
      · rintro ⟨set, present, fine⟩
        exact ⟨(Array.getElem?_eq_some_iff.mp present).1, set, present, decide_eq_true fine⟩
      · rintro ⟨-, set, present, fine⟩
        exact ⟨set, present, of_decide_eq_true fine⟩
  rw [indices, ← flatMap_range sets.toList, Array.length_toList]
  induction List.range sets.size with
  | nil => rfl
  | cons index indices induction =>
      rw [List.filter_cons, List.flatMap_cons, ← induction, Array.getElem?_toList]
      cases present : sets[index]? with
      | none => rfl
      | some set =>
          by_cases fine : good set <;> simp [fine, present]

section Recounting

variable [DecidableEq Member] [BEq Owner] {watches : Watches Member Owner}
  {additions : List (Owner × List Member)} {marks : Member → Mark}

theorem Counts.owners_eq (counts : watches.Counts additions marks)
    {set : WatchSet Member Owner} (present : set ∈ watches.sets.toList) :
    set.owners = Recount.owners additions set.members :=
  counts.owned (set.members, set.owners) (List.mem_map_of_mem present)

theorem Counts.flatMap_eq (counts : watches.Counts additions marks) {Listed : Type}
    {listed : WatchSet Member Owner → List Listed} {counted : List Member → List Listed}
    (same : ∀ set ∈ watches.sets.toList, listed set = counted set.members) :
    watches.sets.toList.flatMap listed = (Recount.memberLists additions).flatMap counted := by
  rw [← counts.listed, outline, List.map_map, List.flatMap_map]
  exact List.flatMap_congr same

theorem Counts.total_eq (counts : watches.Counts additions marks) {set : WatchSet Member Owner}
    (present : set ∈ watches.sets.toList) : set.total = watches.total set.members := by
  obtain ⟨index, found⟩ := Array.mem_iff_getElem?.mp (Array.mem_toList_iff.mp present)
  exact counts.sound.counted index set found

theorem Counts.sets_eq (counts : watches.Counts additions marks) :
    watches.sets.toList = Recount.sets additions marks := by
  have summed (members : List Member) :
      watches.total members = (members.map fun member => (marks member).weight).sum := by
    induction members with
    | nil => rfl
    | cons member members induction =>
        rw [total_cons, induction, counts.marked, List.map_cons, List.sum_cons]
  rw [Recount.sets, ← counts.listed, outline, List.map_map, List.map_map]
  refine (List.map_id _).symm.trans (List.map_congr_left fun set present => ?_)
  simp only [Function.comp_apply, ← summed, ← counts.total_eq present, ← counts.owners_eq present]
  rfl

theorem Counts.violatedOwners_eq (counts : watches.Counts additions marks) :
    watches.violatedOwners = Recount.violatedOwners additions marks := by
  refine (flatMap_filed counts.sound.filed.violated WatchSet.owners).trans
    (counts.flatMap_eq fun set present => ?_)
  simp only [counts.total_eq present, total_eq_zero, counts.marked, counts.owners_eq present]

/-- A set is listed among the units with its unit member, if it has one. -/
theorem Counts.unitOwners_eq [Std.TransOrd Member] (counts : watches.Counts additions marks) :
    watches.unitOwners = Recount.unitOwners additions marks := by
  refine (flatMap_filed counts.sound.filed.units fun set =>
    match set.members.find? fun member => watches.mark member != .falsified with
    | none => []
    | some member => set.owners.map (·, member)).trans (counts.flatMap_eq fun set present => ?_)
  obtain ⟨index, found⟩ := Array.mem_iff_getElem?.mp (Array.mem_toList_iff.mp present)
  have distinct := nodup_of_ascending (counts.sound.ascending index set found)
  rw [counts.total_eq present, ← counts.owners_eq present]
  cases unit : Recount.unit? marks set.members with
  | some member =>
      have single := Recount.unit?_eq_some_iff.mp unit
      simp only [← counts.marked] at single
      rw [if_pos ((total_eq_one distinct).mpr ⟨member, single⟩),
        find_unit single.1 single.2.1 single.2.2]
  | none =>
      rw [if_neg]
      rintro one
      obtain ⟨member, single⟩ := (total_eq_one distinct).mp one
      simp only [counts.marked] at single
      rw [Recount.unit?_eq_some_iff.mpr single] at unit
      cases unit

end Recounting

/-- The table is what is counted from the additions and the marks, an addition makes a new
set if no earlier one was of the same members, and no total is too small for what is
subtracted from it. -/
structure Recounted [DecidableEq Member] [BEq Owner] (watches : Watches Member Owner)
    (additions : List (Owner × List Member)) (marks : Member → Mark) : Prop where
  sets : watches.sets.toList = Recount.sets additions marks
  unitOwners : watches.unitOwners = Recount.unitOwners additions marks
  violatedOwners : watches.violatedOwners = Recount.violatedOwners additions marks
  created : ∀ owner members,
    (watches.add owner members).1 = true ↔ canonical members ∉ Recount.memberLists additions
  enough : ∀ member mark, watches.mark member ≠ mark →
    watches.setMark member mark =
      watches.adjusted member mark (watches.occurrences.getD member []) ∧
    ∀ earlier index later, watches.occurrences.getD member [] = earlier ++ index :: later →
      (watches.mark member).weight ≤ (watches.adjusted member mark earlier).totalOf index

section Recounting

variable [DecidableEq Member] [BEq Owner] [Std.TransOrd Member]

theorem Counts.recounted {watches : Watches Member Owner} {additions : List (Owner × List Member)}
    {marks : Member → Mark} (counts : watches.Counts additions marks) :
    watches.Recounted additions marks where
  sets := counts.sets_eq
  unitOwners := counts.unitOwners_eq
  violatedOwners := counts.violatedOwners_eq
  created owner members := by
    rw [add_eq_true, counts.known_iff, Option.eq_none_iff_forall_ne_some, not_exists]
  enough member mark changed :=
    ⟨setMark_eq_adjusted changed, fun _ _ _ occurs => counts.sound.weight_le_totalOf mark occurs⟩

variable [Std.LawfulEqOrd Member] [LawfulBEq Owner]

/-- Whatever was added and marked, the table is what a recount finds; so calls with the same
additions and the same last marks make the same of it. -/
theorem recounted_performAll (calls : List (WatchCall Member Owner)) :
    (WatchCall.performAll calls).Recounted (WatchCall.additions calls)
        (WatchCall.lastMark calls) ∧
      ∀ others, WatchCall.additions others = WatchCall.additions calls →
        (∀ member, WatchCall.lastMark others member = WatchCall.lastMark calls member) →
        (WatchCall.performAll others).sets = (WatchCall.performAll calls).sets ∧
          (WatchCall.performAll others).unitOwners = (WatchCall.performAll calls).unitOwners ∧
          (WatchCall.performAll others).violatedOwners =
            (WatchCall.performAll calls).violatedOwners ∧
          ∀ member, (WatchCall.performAll others).mark member =
            (WatchCall.performAll calls).mark member := by
  have counts := counts_performAll calls
  refine ⟨counts.recounted, fun others additions marks => ?_⟩
  have same := counts_performAll others
  rw [additions, funext marks] at same
  refine ⟨Array.toList_inj.mp (same.sets_eq.trans counts.sets_eq.symm),
    same.unitOwners_eq.trans counts.unitOwners_eq.symm,
    same.violatedOwners_eq.trans counts.violatedOwners_eq.symm, fun member => ?_⟩
  rw [same.marked, counts.marked]

end Recounting

/-- Members marked before and after they are watched, and a set that is empty. -/
def mixedCalls : List (WatchCall Nat Nat) :=
  [.set 1 .falsified, .add 10 [2, 1, 2], .add 11 [1, 2], .set 3 .satisfied, .add 10 [],
    .add 12 [3], .set 3 .falsified]

theorem recounted_mixedCalls :
    (WatchCall.performAll mixedCalls).unitOwners = [(10, 2), (11, 2)] ∧
      (WatchCall.performAll mixedCalls).violatedOwners = [10, 12] := by
  have recounted := (recounted_performAll mixedCalls).1
  exact ⟨recounted.unitOwners.trans (by decide +kernel),
    recounted.violatedOwners.trans (by decide +kernel)⟩

end Watches

end ModelSearch
