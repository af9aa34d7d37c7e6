import Mathlib.Data.List.Sort
import ModelSearch.Watch.Basic

/-!
# Watch sets agree with the marks

The engine keeps totals, and files of unit and violated sets, that a recount of
the marks would give.  `Watches.Sound` says so, and both operations preserve it.
Readers of the engine then need two facts only: which owner watches which
members, and which mark each member has.
-/

namespace ModelSearch

variable {Member Owner : Type} [Ord Member]

/-- The members of a list in ascending order, each once. -/
def canonical (members : List Member) : List Member :=
  (Std.TreeSet.ofList members compare).toList

section Canonical

variable [Std.TransOrd Member]

theorem canonical_ascending (members : List Member) :
    (canonical members).Pairwise fun left right => compare left right = .lt :=
  Std.TreeSet.ordered_toList

theorem nodup_of_ascending {members : List Member}
    (ascending : members.Pairwise fun left right => compare left right = .lt) :
    members.Nodup := by
  refine ascending.imp ?_
  intro left right below same
  subst same
  simp at below

/-- Ascending lists of the same members are the same. -/
theorem ascending_ext {members others : List Member}
    (ascending : members.Pairwise fun left right => compare left right = .lt)
    (ascendingOthers : others.Pairwise fun left right => compare left right = .lt)
    (same : ∀ member, member ∈ members ↔ member ∈ others) : members = others := by
  have irreflexive :
      Std.Irrefl fun left right : Member => compare left right = .lt :=
    ⟨fun member => by simp⟩
  have antisymmetric :
      Std.Antisymm fun left right : Member => compare left right = .lt :=
    ⟨fun left right below above => by
      rw [Std.OrientedCmp.gt_iff_lt.mpr above] at below
      cases below⟩
  exact List.Pairwise.eq_of_mem_iff ascending ascendingOthers same

variable [Std.LawfulEqOrd Member] [DecidableEq Member]

theorem mem_canonical {members : List Member} {member : Member} :
    member ∈ canonical members ↔ member ∈ members := by
  simp [canonical, Std.TreeSet.mem_toList, Std.TreeSet.mem_ofList]

/-- An ascending list is the canonical list of its members. -/
theorem canonical_of_ascending {members : List Member}
    (ascending : members.Pairwise fun left right => compare left right = .lt) :
    canonical members = members :=
  ascending_ext (canonical_ascending members) ascending fun _ => mem_canonical

end Canonical

namespace Mark

@[simp] theorem weight_eq_zero {mark : Mark} : mark.weight = 0 ↔ mark = .falsified := by
  cases mark <;> simp [weight]

end Mark

namespace Watches

/-- The files hold the indices of the sets of total one and zero. -/
structure Filed (watches : Watches Member Owner) : Prop where
  units : ∀ index : Nat, index ∈ watches.units ↔
    ∃ set : WatchSet Member Owner, watches.sets[index]? = some set ∧ set.total = 1
  violated : ∀ index : Nat, index ∈ watches.violated ↔
    ∃ set : WatchSet Member Owner, watches.sets[index]? = some set ∧ set.total = 0

/-- What a recount of the marks finds of the sets, their files and their totals. -/
structure Sound (watches : Watches Member Owner) : Prop where
  ascending : ∀ (index : Nat) (set : WatchSet Member Owner),
    watches.sets[index]? = some set →
      set.members.Pairwise fun left right => compare left right = .lt
  owned : ∀ (index : Nat) (set : WatchSet Member Owner),
    watches.sets[index]? = some set → set.owners.Nodup
  found : ∀ (members : List Member) (index : Nat),
    watches.byMembers[members]? = some index ↔
      ∃ set : WatchSet Member Owner, watches.sets[index]? = some set ∧ set.members = members
  once : ∀ member, (watches.occurrences.getD member []).Nodup
  occurs : ∀ (member : Member) (index : Nat),
    index ∈ watches.occurrences.getD member [] ↔
      ∃ set : WatchSet Member Owner, watches.sets[index]? = some set ∧ member ∈ set.members
  counted : ∀ (index : Nat) (set : WatchSet Member Owner),
    watches.sets[index]? = some set → set.total = watches.total set.members
  filed : watches.Filed

/-- The owner is on the watch set of exactly these members. -/
def Watching (watches : Watches Member Owner) (owner : Owner)
    (members : List Member) : Prop :=
  ∃ (index : Nat) (set : WatchSet Member Owner),
    watches.sets[index]? = some set ∧ owner ∈ set.owners ∧ set.members = members

/-! ## Totals -/

@[simp] theorem total_nil (watches : Watches Member Owner) : watches.total [] = 0 := rfl

@[simp] theorem total_cons (watches : Watches Member Owner) (member : Member)
    (members : List Member) : watches.total (member :: members) =
      (watches.mark member).weight + watches.total members := rfl

theorem total_eq_zero {watches : Watches Member Owner} {members : List Member} :
    watches.total members = 0 ↔ ∀ member ∈ members, watches.mark member = .falsified := by
  induction members with
  | nil => simp
  | cons member members induction => simp [induction]

/-- A total of one leaves a single member that is not falsified. -/
theorem total_eq_one {watches : Watches Member Owner} {members : List Member}
    (distinct : members.Nodup) :
    watches.total members = 1 ↔ ∃ member ∈ members, watches.mark member = .undetermined ∧
      ∀ other ∈ members, other ≠ member → watches.mark other = .falsified := by
  induction members with
  | nil => simp [total]
  | cons head tail induction =>
      obtain ⟨fresh, distinctTail⟩ := List.nodup_cons.mp distinct
      rw [total_cons]
      constructor
      · intro one
        -- Either the head has the weight of one, or the tail has and the head has none.
        cases headMark : watches.mark head with
        | falsified =>
            have tailOne : watches.total tail = 1 := by
              simpa [headMark, Mark.weight] using one
            obtain ⟨member, inTail, open_, rest⟩ := (induction distinctTail).mp tailOne
            refine ⟨member, List.mem_cons_of_mem _ inTail, open_, ?_⟩
            intro other otherMember different
            rcases List.mem_cons.mp otherMember with rfl | otherInTail
            · exact headMark
            · exact rest other otherInTail different
        | undetermined =>
            have tailZero : watches.total tail = 0 := by
              simpa [headMark, Mark.weight] using one
            refine ⟨head, List.mem_cons_self, headMark, ?_⟩
            intro other otherMember different
            rcases List.mem_cons.mp otherMember with rfl | otherInTail
            · exact absurd rfl different
            · exact total_eq_zero.mp tailZero other otherInTail
        | satisfied =>
            simp only [headMark, Mark.weight] at one
            omega
      · rintro ⟨member, memberIn, open_, rest⟩
        rcases List.mem_cons.mp memberIn with rfl | inTail
        · have tailZero : watches.total tail = 0 := by
            refine total_eq_zero.mpr fun other otherInTail => ?_
            refine rest other (List.mem_cons_of_mem _ otherInTail) ?_
            rintro rfl
            exact fresh otherInTail
          simp [open_, tailZero, Mark.weight]
        · have headFalse : watches.mark head = .falsified := by
            refine rest head List.mem_cons_self ?_
            rintro rfl
            exact fresh inTail
          have tailOne : watches.total tail = 1 := by
            refine (induction distinctTail).mpr ⟨member, inTail, open_, ?_⟩
            intro other otherInTail different
            exact rest other (List.mem_cons_of_mem _ otherInTail) different
          simp [headFalse, tailOne, Mark.weight]

/-! ## Marking a member -/

theorem mem_units_refile {watches : Watches Member Owner} {index other : Nat}
    {before : Option Nat} {after : Nat} :
    other ∈ (watches.refile index before after).units ↔
      if other = index then after = 1 ∨ other ∈ watches.units ∧ before ≠ some 1
      else other ∈ watches.units := by
  unfold refile
  by_cases same : other = index
  · subst same
    by_cases now : after = 1 <;> by_cases former : before = some 1 <;>
      simp [now, former]
  · have different : ¬index = other := Ne.symm same
    by_cases now : after = 1 <;> by_cases former : before = some 1 <;>
      simp [now, former, same, different, Std.LawfulEqCmp.compare_eq_iff_eq]

theorem mem_violated_refile {watches : Watches Member Owner} {index other : Nat}
    {before : Option Nat} {after : Nat} :
    other ∈ (watches.refile index before after).violated ↔
      if other = index then after = 0 ∨ other ∈ watches.violated ∧ before ≠ some 0
      else other ∈ watches.violated := by
  unfold refile
  by_cases same : other = index
  · subst same
    by_cases now : after = 0 <;> by_cases former : before = some 0 <;>
      simp [now, former]
  · have different : ¬index = other := Ne.symm same
    by_cases now : after = 0 <;> by_cases former : before = some 0 <;>
      simp [now, former, same, different, Std.LawfulEqCmp.compare_eq_iff_eq]

/-- The set with one weight in its total replaced. -/
def reweighed (before after : Mark) (set : WatchSet Member Owner) : WatchSet Member Owner :=
  { set with total := set.total - before.weight + after.weight }

theorem reweigh_sets (watches : Watches Member Owner) (before after : Mark) (index : Nat) :
    (watches.reweigh before after index).sets =
      watches.sets.modify index (reweighed before after) := by
  apply Array.ext_getElem?
  intro other
  simp only [reweigh, refile, Array.getElem?_modify]
  by_cases same : index = other
  · subst same
    cases present : watches.sets[index]? <;> simp [totalOf, present, reweighed]
  · simp [same]

theorem Filed.reweigh {watches : Watches Member Owner} (filed : watches.Filed)
    {index : Nat} {set : WatchSet Member Owner} (present : watches.sets[index]? = some set)
    (before after : Mark) : (watches.reweigh before after index).Filed := by
  have former : watches.totalOf index = set.total := by simp [totalOf, present]
  constructor
  · intro other
    rw [reweigh_sets, Array.getElem?_modify]
    unfold Watches.reweigh
    rw [mem_units_refile]
    by_cases same : other = index
    · subst same
      have filedHere := filed.units other
      simp only [present, Option.some.injEq, exists_eq_left'] at filedHere
      simp [present, former, reweighed, filedHere]
    · simp [same, Ne.symm same, filed.units other]
  · intro other
    rw [reweigh_sets, Array.getElem?_modify]
    unfold Watches.reweigh
    rw [mem_violated_refile]
    by_cases same : other = index
    · subst same
      have filedHere := filed.violated other
      simp only [present, Option.some.injEq, exists_eq_left'] at filedHere
      simp [present, former, reweighed, filedHere]
    · simp [same, Ne.symm same, filed.violated other]

/-- Reweighing some sets changes nothing but their totals and the files. -/
theorem reweighAll_frame (before after : Mark) (indices : List Nat)
    (watches : Watches Member Owner) :
    let changed := indices.foldl (fun watches => watches.reweigh before after) watches
    changed.marks = watches.marks ∧ changed.byMembers = watches.byMembers ∧
      changed.occurrences = watches.occurrences := by
  induction indices generalizing watches with
  | nil => exact ⟨rfl, rfl, rfl⟩
  | cons index indices induction => exact induction (watches.reweigh before after index)

theorem reweighAll_sets (before after : Mark) {indices : List Nat}
    (distinct : indices.Nodup) (watches : Watches Member Owner) (index : Nat) :
    (indices.foldl (fun watches => watches.reweigh before after) watches).sets[index]? =
      if index ∈ indices then watches.sets[index]?.map (reweighed before after)
      else watches.sets[index]? := by
  induction indices generalizing watches with
  | nil => rfl
  | cons head indices induction =>
      obtain ⟨fresh, distinctRest⟩ := List.nodup_cons.mp distinct
      rw [List.foldl_cons, induction distinctRest, reweigh_sets, Array.getElem?_modify]
      by_cases same : head = index
      · subst same
        simp [fresh]
      · simp [same, Ne.symm same]

theorem Filed.reweighAll {watches : Watches Member Owner} (filed : watches.Filed)
    (before after : Mark) {indices : List Nat}
    (present : ∀ index ∈ indices, ∃ set : WatchSet Member Owner,
      watches.sets[index]? = some set) :
    (indices.foldl (fun watches => watches.reweigh before after) watches).Filed := by
  induction indices generalizing watches with
  | nil => exact filed
  | cons head indices induction =>
      obtain ⟨set, headPresent⟩ := present head List.mem_cons_self
      refine induction (filed.reweigh headPresent before after) ?_
      intro index member
      obtain ⟨other, otherPresent⟩ := present index (List.mem_cons_of_mem _ member)
      rw [reweigh_sets, Array.getElem?_modify, otherPresent]
      split
      · exact ⟨_, rfl⟩
      · exact ⟨_, rfl⟩

/-- Marks that differ at one member only change totals by its weight. -/
theorem total_of_marks_agree {former changed : Watches Member Owner} {member : Member}
    (agree : ∀ other, other ≠ member → changed.mark other = former.mark other)
    {members : List Member} (distinct : members.Nodup) :
    (member ∈ members → (former.mark member).weight ≤ former.total members ∧
      changed.total members =
        former.total members - (former.mark member).weight + (changed.mark member).weight) ∧
    (member ∉ members → changed.total members = former.total members) := by
  induction members with
  | nil => exact ⟨fun inside => absurd inside List.not_mem_nil, fun _ => rfl⟩
  | cons head tail induction =>
      obtain ⟨fresh, distinctTail⟩ := List.nodup_cons.mp distinct
      obtain ⟨present, absent⟩ := induction distinctTail
      have splitFormer : former.total (head :: tail) =
          (former.mark head).weight + former.total tail := rfl
      have splitChanged : changed.total (head :: tail) =
          (changed.mark head).weight + changed.total tail := rfl
      constructor
      · intro memberIn
        rcases List.mem_cons.mp memberIn with rfl | inTail
        · have tailSame := absent fresh
          omega
        · have different : head ≠ member := by
            rintro rfl
            exact fresh inTail
          have headSame := congrArg Mark.weight (agree head different)
          obtain ⟨bound, tailTotal⟩ := present inTail
          omega
      · intro memberOut
        obtain ⟨different, notInTail⟩ :=
          not_or.mp (fun either => memberOut (List.mem_cons.mpr either))
        have headSame := congrArg Mark.weight (agree head (Ne.symm different))
        have tailSame := absent notInTail
        omega

theorem setMark_frame (watches : Watches Member Owner) (member : Member) (mark : Mark) :
    (watches.setMark member mark).byMembers = watches.byMembers ∧
      (watches.setMark member mark).occurrences = watches.occurrences := by
  unfold setMark
  by_cases unchanged : watches.mark member = mark
  · rw [if_pos unchanged]
    exact ⟨rfl, rfl⟩
  · rw [if_neg unchanged]
    exact ⟨(reweighAll_frame _ _ _ _).2.1, (reweighAll_frame _ _ _ _).2.2⟩

section Marking

variable [DecidableEq Member]

theorem setMark_sets {watches : Watches Member Owner} (sound : watches.Sound)
    (member : Member) (mark : Mark) (index : Nat) :
    (watches.setMark member mark).sets[index]? =
      watches.sets[index]?.map fun set =>
        if member ∈ set.members ∧ watches.mark member ≠ mark then
          reweighed (watches.mark member) mark set
        else set := by
  unfold setMark
  by_cases unchanged : watches.mark member = mark
  · simp [unchanged]
  · rw [if_neg unchanged, reweighAll_sets _ _ (sound.once member)]
    simp only [sound.occurs]
    cases present : watches.sets[index]? with
    | none => simp
    | some set =>
        by_cases inside : member ∈ set.members <;> simp [inside, unchanged]

/-- What a set is before marking, given what it is after. -/
theorem of_setMark_sets {watches : Watches Member Owner} (sound : watches.Sound)
    {member : Member} {mark : Mark} {index : Nat} {set : WatchSet Member Owner}
    (after : (watches.setMark member mark).sets[index]? = some set) :
    ∃ former, watches.sets[index]? = some former ∧ set.members = former.members ∧
      set.owners = former.owners ∧
      set.total =
        if member ∈ former.members ∧ watches.mark member ≠ mark then
          former.total - (watches.mark member).weight + mark.weight
        else former.total := by
  rw [setMark_sets sound] at after
  obtain ⟨former, present, rfl⟩ := Option.map_eq_some_iff.mp after
  refine ⟨former, present, ?_, ?_, ?_⟩ <;> split <;> rfl

theorem watching_setMark {watches : Watches Member Owner} (sound : watches.Sound)
    (member : Member) (mark : Mark) {owner : Owner} {members : List Member} :
    (watches.setMark member mark).Watching owner members ↔ watches.Watching owner members := by
  constructor
  · rintro ⟨index, set, after, owns, rfl⟩
    obtain ⟨former, present, sameMembers, sameOwners, _⟩ := of_setMark_sets sound after
    exact ⟨index, former, present, sameOwners ▸ owns, sameMembers.symm⟩
  · rintro ⟨index, set, present, owns, rfl⟩
    refine ⟨index, _, by rw [setMark_sets sound, present]; rfl, ?_, ?_⟩
    · dsimp only
      split <;> exact owns
    · dsimp only
      split <;> rfl

/-- The members of the sets stay as they are. -/
theorem exists_setMark {watches : Watches Member Owner} (sound : watches.Sound)
    (member : Member) (mark : Mark) (index : Nat) (good : List Member → Prop) :
    (∃ set : WatchSet Member Owner,
      (watches.setMark member mark).sets[index]? = some set ∧ good set.members) ↔
      ∃ set : WatchSet Member Owner, watches.sets[index]? = some set ∧ good set.members := by
  rw [setMark_sets sound]
  cases watches.sets[index]? with
  | none => simp
  | some set =>
      simp only [Option.map_some, Option.some.injEq, exists_eq_left']
      split <;> rfl

omit [DecidableEq Member] in
theorem Sound.filed_setMark {watches : Watches Member Owner} (sound : watches.Sound)
    (member : Member) (mark : Mark) : (watches.setMark member mark).Filed := by
  unfold Watches.setMark
  by_cases unchanged : watches.mark member = mark
  · rw [if_pos unchanged]
    exact sound.filed
  · rw [if_neg unchanged]
    have filed : ∀ marks, ({ watches with marks := marks } : Watches Member Owner).Filed :=
      fun marks => ⟨sound.filed.units, sound.filed.violated⟩
    refine (filed _).reweighAll _ _ ?_
    intro index occurs
    obtain ⟨set, present, _⟩ := (sound.occurs member index).mp occurs
    exact ⟨set, present⟩

variable [Std.TransOrd Member] [Std.LawfulEqOrd Member]

theorem mark_setMark (watches : Watches Member Owner) (member other : Member) (mark : Mark) :
    (watches.setMark member mark).mark other =
      if member = other then mark else watches.mark other := by
  unfold setMark
  by_cases unchanged : watches.mark member = mark
  · rw [if_pos unchanged]
    by_cases same : member = other
    · rw [if_pos same, ← same, unchanged]
    · rw [if_neg same]
  · rw [if_neg unchanged]
    simp only [Watches.mark]
    rw [(reweighAll_frame _ _ _ _).1]
    cases mark <;>
      by_cases same : member = other <;>
      simp [same, Std.TreeMap.getD_insert, Std.TreeMap.getD_erase,
        Std.LawfulEqCmp.compare_eq_iff_eq]

theorem total_setMark {watches : Watches Member Owner} (member : Member) (mark : Mark)
    {members : List Member} (distinct : members.Nodup) :
    (watches.setMark member mark).total members =
      if member ∈ members ∧ watches.mark member ≠ mark then
        watches.total members - (watches.mark member).weight + mark.weight
      else watches.total members := by
  have agree : ∀ other, other ≠ member →
      (watches.setMark member mark).mark other = watches.mark other := by
    intro other different
    rw [mark_setMark, if_neg (Ne.symm different)]
  have marked : (watches.setMark member mark).mark member = mark := by
    rw [mark_setMark, if_pos rfl]
  have recount := total_of_marks_agree agree distinct
  by_cases inside : member ∈ members
  · obtain ⟨bound, changed⟩ := recount.1 inside
    rw [changed, marked]
    by_cases unchanged : watches.mark member = mark
    · rw [if_neg (fun both => both.2 unchanged), ← unchanged]
      omega
    · rw [if_pos ⟨inside, unchanged⟩]
  · rw [recount.2 inside, if_neg (fun both => inside both.1)]

theorem Sound.setMark {watches : Watches Member Owner} (sound : watches.Sound)
    (member : Member) (mark : Mark) : (watches.setMark member mark).Sound := by
  obtain ⟨sameIndex, sameOccurrences⟩ := setMark_frame watches member mark
  constructor
  case ascending =>
    intro index set after
    obtain ⟨former, present, members, _⟩ := of_setMark_sets sound after
    rw [members]
    exact sound.ascending index former present
  case owned =>
    intro index set after
    obtain ⟨former, present, _, owners, _⟩ := of_setMark_sets sound after
    rw [owners]
    exact sound.owned index former present
  case found =>
    intro members index
    rw [sameIndex, sound.found]
    exact (exists_setMark sound member mark index (· = members)).symm
  case once =>
    intro other
    rw [sameOccurrences]
    exact sound.once other
  case occurs =>
    intro other index
    rw [sameOccurrences, sound.occurs]
    exact (exists_setMark sound member mark index (other ∈ ·)).symm
  case counted =>
    intro index set after
    obtain ⟨former, present, members, _, total⟩ := of_setMark_sets sound after
    have distinct := nodup_of_ascending (sound.ascending index former present)
    rw [total, members, sound.counted index former present, total_setMark member mark distinct]
  case filed => exact sound.filed_setMark member mark

end Marking

/-! ## Adding an owner -/

omit [Ord Member] in
/-- A set that is pushed is new. -/
theorem ne_size_of_present {sets : Array (WatchSet Member Owner)} {index : Nat}
    {set : WatchSet Member Owner} (present : sets[index]? = some set) : index ≠ sets.size := by
  rintro rfl
  simp at present

/-- No member occurs in the set that is pushed, as yet. -/
theorem Sound.fresh {watches : Watches Member Owner} (sound : watches.Sound) (member : Member) :
    watches.sets.size ∉ watches.occurrences.getD member [] := by
  intro occurs
  obtain ⟨set, present, _⟩ := (sound.occurs _ _).mp occurs
  exact ne_size_of_present present rfl

/-- A set without any former total is filed by its total alone. -/
theorem Filed.push {watches : Watches Member Owner} (filed : watches.Filed)
    (set : WatchSet Member Owner) (byMembers : Std.TreeMap (List Member) Nat)
    (occurrences : Std.TreeMap Member (List Nat)) :
    (refile { watches with
        sets := watches.sets.push set
        byMembers := byMembers
        occurrences := occurrences }
      watches.sets.size none set.total).Filed := by
  constructor
  · intro other
    rw [mem_units_refile]
    by_cases same : other = watches.sets.size
    · subst same
      have absent : watches.sets.size ∉ watches.units := by
        intro member
        obtain ⟨former, present, _⟩ := (filed.units _).mp member
        exact ne_size_of_present present rfl
      simp [refile, absent]
    · simp [refile, same, Array.getElem?_push, filed.units other]
  · intro other
    rw [mem_violated_refile]
    by_cases same : other = watches.sets.size
    · subst same
      have absent : watches.sets.size ∉ watches.violated := by
        intro member
        obtain ⟨former, present, _⟩ := (filed.violated _).mp member
        exact ne_size_of_present present rfl
      simp [refile, absent]
    · simp [refile, same, Array.getElem?_push, filed.violated other]

/-- Records a new set under each of its members. -/
def noted (index : Nat) (members : List Member)
    (occurrences : Std.TreeMap Member (List Nat)) : Std.TreeMap Member (List Nat) :=
  members.foldl (fun occurrences member =>
    occurrences.insert member (index :: occurrences.getD member [])) occurrences

section Owners

variable [BEq Owner]

/-- The set with one more owner, unless it is one already. -/
def joined (owner : Owner) (set : WatchSet Member Owner) : WatchSet Member Owner :=
  if set.owners.contains owner then set else { set with owners := set.owners ++ [owner] }

theorem add_of_known {watches : Watches Member Owner} {members : List Member} {index : Nat}
    (known : watches.byMembers[canonical members]? = some index) (owner : Owner) :
    (watches.add owner members).2 =
      { watches with sets := watches.sets.modify index (joined owner) } := by
  unfold canonical at known
  simp only [add, known]
  rfl

theorem add_of_new {watches : Watches Member Owner} {members : List Member}
    (unknown : watches.byMembers[canonical members]? = none) (owner : Owner) :
    (watches.add owner members).2 =
      refile { watches with
          sets := watches.sets.push
            ⟨canonical members, watches.total (canonical members), [owner]⟩
          byMembers := watches.byMembers.insert (canonical members) watches.sets.size
          occurrences := noted watches.sets.size (canonical members) watches.occurrences }
        watches.sets.size none (watches.total (canonical members)) := by
  unfold canonical at unknown
  simp only [add, unknown]
  rfl

/-- A set is created when the members are unknown. -/
theorem add_eq_true {watches : Watches Member Owner} {owner : Owner} {members : List Member} :
    (watches.add owner members).1 = true ↔
      watches.byMembers[canonical members]? = none := by
  unfold add canonical
  dsimp only
  split
  · next index known =>
      rw [known]
      exact ⟨nofun, nofun⟩
  · next unknown => exact ⟨fun _ => unknown, fun _ => rfl⟩

@[simp] theorem mark_add (watches : Watches Member Owner) (owner : Owner)
    (members : List Member) (member : Member) :
    (watches.add owner members).2.mark member = watches.mark member := by
  cases known : watches.byMembers[canonical members]? with
  | some index =>
      rw [add_of_known known]
      rfl
  | none =>
      rw [add_of_new known]
      rfl

variable [LawfulBEq Owner]

omit [Ord Member] in
theorem mem_joined {owner other : Owner} {set : WatchSet Member Owner} :
    other ∈ (joined owner set).owners ↔ other ∈ set.owners ∨ other = owner := by
  unfold joined
  by_cases present : set.owners.contains owner
  · rw [if_pos present]
    constructor
    · exact Or.inl
    · rintro (owns | rfl)
      · exact owns
      · exact List.contains_iff_mem.mp present
  · rw [if_neg present]
    simp

omit [Ord Member] in
theorem joined_nodup {owner : Owner} {set : WatchSet Member Owner}
    (distinct : set.owners.Nodup) : (joined owner set).owners.Nodup := by
  unfold joined
  by_cases present : set.owners.contains owner
  · rw [if_pos present]
    exact distinct
  · rw [if_neg present]
    refine List.nodup_append.mpr ⟨distinct, List.nodup_singleton owner, ?_⟩
    rintro other owns last inLast rfl
    rw [List.mem_singleton.mp inLast] at owns
    exact present (List.contains_iff_mem.mpr owns)

omit [Ord Member] [LawfulBEq Owner] in
@[simp] theorem joined_members (owner : Owner) (set : WatchSet Member Owner) :
    (joined owner set).members = set.members := by
  unfold joined
  split <;> rfl

omit [Ord Member] [LawfulBEq Owner] in
@[simp] theorem joined_total (owner : Owner) (set : WatchSet Member Owner) :
    (joined owner set).total = set.total := by
  unfold joined
  split <;> rfl

theorem watching_add_of_known {watches : Watches Member Owner} (sound : watches.Sound)
    {owner : Owner} {members : List Member} {home : Nat}
    (known : watches.byMembers[canonical members]? = some home) {other : Owner}
    {others : List Member} :
    (watches.add owner members).2.Watching other others ↔
      watches.Watching other others ∨ other = owner ∧ others = canonical members := by
  obtain ⟨homeSet, homePresent, homeMembers⟩ := (sound.found _ _).mp known
  rw [add_of_known known]
  simp only [Watching, Array.getElem?_modify]
  constructor
  · rintro ⟨index, set, present, owns, rfl⟩
    by_cases same : home = index
    · subst same
      simp only [if_pos, homePresent, Option.map_some, Option.some.injEq] at present
      subst present
      rcases mem_joined.mp owns with owns | rfl
      · exact .inl ⟨home, homeSet, homePresent, owns, (joined_members _ _).symm⟩
      · exact .inr ⟨rfl, by rw [joined_members, homeMembers]⟩
    · rw [if_neg same] at present
      exact .inl ⟨index, set, present, owns, rfl⟩
  · rintro (⟨index, set, present, owns, rfl⟩ | ⟨rfl, rfl⟩)
    · by_cases same : home = index
      · subst same
        refine ⟨home, joined owner set, by simp [present], mem_joined.mpr (.inl owns), ?_⟩
        exact joined_members _ _
      · exact ⟨index, set, by rw [if_neg same, present], owns, rfl⟩
    · refine ⟨home, joined other homeSet, by simp [homePresent], ?_, ?_⟩
      · exact mem_joined.mpr (.inr rfl)
      · rw [joined_members, homeMembers]

omit [LawfulBEq Owner] in
theorem watching_add_of_new {watches : Watches Member Owner} {owner : Owner}
    {members : List Member} (unknown : watches.byMembers[canonical members]? = none)
    {other : Owner} {others : List Member} :
    (watches.add owner members).2.Watching other others ↔
      watches.Watching other others ∨ other = owner ∧ others = canonical members := by
  rw [add_of_new unknown]
  simp only [Watching, refile, Array.getElem?_push]
  constructor
  · rintro ⟨index, set, present, owns, rfl⟩
    by_cases same : index = watches.sets.size
    · rw [if_pos same, Option.some.injEq] at present
      subst present
      exact .inr ⟨List.mem_singleton.mp owns, rfl⟩
    · rw [if_neg same] at present
      exact .inl ⟨index, set, present, owns, rfl⟩
  · rintro (⟨index, set, present, owns, rfl⟩ | ⟨rfl, rfl⟩)
    · refine ⟨index, set, ?_, owns, rfl⟩
      rw [if_neg, present]
      rintro rfl
      simp at present
    · exact ⟨watches.sets.size, _, if_pos rfl, List.mem_singleton.mpr rfl, rfl⟩

theorem watching_add {watches : Watches Member Owner} (sound : watches.Sound)
    (owner : Owner) (members : List Member) {other : Owner} {others : List Member} :
    (watches.add owner members).2.Watching other others ↔
      watches.Watching other others ∨ other = owner ∧ others = canonical members := by
  cases known : watches.byMembers[canonical members]? with
  | some home => exact watching_add_of_known sound known
  | none => exact watching_add_of_new known

omit [Ord Member] in
/-- A set of the joined sets was there before, but for its owners. -/
theorem joined_origin {sets : Array (WatchSet Member Owner)} {home index : Nat} {owner : Owner}
    {set : WatchSet Member Owner} (after : (sets.modify home (joined owner))[index]? = some set) :
    ∃ former, sets[index]? = some former ∧ set.members = former.members ∧
      set.total = former.total ∧ (former.owners.Nodup → set.owners.Nodup) := by
  rw [Array.getElem?_modify] at after
  by_cases same : home = index
  · rw [if_pos same] at after
    obtain ⟨former, present, rfl⟩ := Option.map_eq_some_iff.mp after
    exact ⟨former, present, joined_members _ _, joined_total _ _, joined_nodup⟩
  · rw [if_neg same] at after
    exact ⟨set, after, rfl, rfl, id⟩

omit [Ord Member] [LawfulBEq Owner] in
/-- Whatever holds of the members and the total of a set holds as it did before. -/
theorem exists_joined {sets : Array (WatchSet Member Owner)} (home index : Nat) (owner : Owner)
    (good : List Member → Nat → Prop) :
    (∃ set : WatchSet Member Owner,
      (sets.modify home (joined owner))[index]? = some set ∧ good set.members set.total) ↔
      ∃ set : WatchSet Member Owner, sets[index]? = some set ∧ good set.members set.total := by
  rw [Array.getElem?_modify]
  by_cases same : home = index
  · rw [if_pos same]
    cases sets[index]? <;> simp
  · rw [if_neg same]

theorem Sound.join {watches : Watches Member Owner} (sound : watches.Sound) (home : Nat)
    (owner : Owner) :
    ({ watches with sets := watches.sets.modify home (joined owner) } :
      Watches Member Owner).Sound where
  ascending index set after := by
    obtain ⟨former, present, same, _⟩ := joined_origin after
    rw [same]
    exact sound.ascending index former present
  owned index set after := by
    obtain ⟨former, present, _, _, distinct⟩ := joined_origin after
    exact distinct (sound.owned index former present)
  found others index :=
    (sound.found others index).trans
      (exists_joined home index owner fun members _ => members = others).symm
  once := sound.once
  occurs member index :=
    (sound.occurs member index).trans
      (exists_joined home index owner fun members _ => member ∈ members).symm
  counted index set after := by
    obtain ⟨former, present, same, total, _⟩ := joined_origin after
    rw [same, total]
    exact sound.counted index former present
  filed :=
    { units := fun index => (sound.filed.units index).trans
        (exists_joined home index owner fun _ total => total = 1).symm
      violated := fun index => (sound.filed.violated index).trans
        (exists_joined home index owner fun _ total => total = 0).symm }

end Owners

section Adding

variable [Std.TransOrd Member] [Std.LawfulEqOrd Member] [DecidableEq Member]

theorem getD_noted (index : Nat) {members : List Member} (distinct : members.Nodup)
    (occurrences : Std.TreeMap Member (List Nat)) (member : Member) :
    (noted index members occurrences).getD member [] =
      if member ∈ members then index :: occurrences.getD member []
      else occurrences.getD member [] := by
  unfold noted
  induction members generalizing occurrences with
  | nil => rfl
  | cons head members induction =>
      obtain ⟨fresh, distinctRest⟩ := List.nodup_cons.mp distinct
      rw [List.foldl_cons, induction distinctRest]
      by_cases same : head = member
      · subst same
        simp [fresh]
      · simp [Std.TreeMap.getD_insert, Std.LawfulEqCmp.compare_eq_iff_eq, same, Ne.symm same]

/-- The table finds the new set, and all others as before. -/
theorem Sound.found_push {watches : Watches Member Owner} (sound : watches.Sound)
    {set : WatchSet Member Owner} (unknown : watches.byMembers[set.members]? = none)
    (others : List Member) (index : Nat) :
    (watches.byMembers.insert set.members watches.sets.size)[others]? = some index ↔
      ∃ other, (watches.sets.push set)[index]? = some other ∧ other.members = others := by
  simp only [Array.getElem?_push, Std.TreeMap.getElem?_insert, Std.LawfulEqCmp.compare_eq_iff_eq]
  by_cases same : set.members = others
  · subst same
    by_cases last : index = watches.sets.size
    · subst last
      simp
    · have absent : ¬∃ other : WatchSet Member Owner,
          watches.sets[index]? = some other ∧ other.members = set.members := by
        rw [← sound.found, unknown]
        simp
      simp only [if_pos, if_neg last]
      exact ⟨fun equal => absurd (Option.some.inj equal).symm last,
        fun present => absurd present absent⟩
  · rw [if_neg same]
    by_cases last : index = watches.sets.size
    · subst last
      have unlocated : watches.byMembers[others]? ≠ some watches.sets.size := by
        intro located
        obtain ⟨other, present, _⟩ := (sound.found _ _).mp located
        exact ne_size_of_present present rfl
      simp [unlocated, same]
    · rw [if_neg last]
      exact sound.found others index

theorem Sound.create {watches : Watches Member Owner} (sound : watches.Sound)
    {set : WatchSet Member Owner} (unknown : watches.byMembers[set.members]? = none)
    (ascending : set.members.Pairwise fun left right => compare left right = .lt)
    (owned : set.owners.Nodup) (counted : set.total = watches.total set.members) :
    (refile { watches with
        sets := watches.sets.push set
        byMembers := watches.byMembers.insert set.members watches.sets.size
        occurrences := noted watches.sets.size set.members watches.occurrences }
      watches.sets.size none set.total).Sound := by
  have pushed : ∀ {index : Nat} {other : WatchSet Member Owner},
      (watches.sets.push set)[index]? = some other →
        other = set ∨ watches.sets[index]? = some other := by
    intro index other after
    rw [Array.getElem?_push] at after
    split at after
    · exact .inl (Option.some.inj after).symm
    · exact .inr after
  -- Each law is that of the new set or of a former one; occurrences are of both.
  constructor
  case ascending =>
    intro index other after
    rcases pushed after with rfl | present
    · exact ascending
    · exact sound.ascending index other present
  case owned =>
    intro index other after
    rcases pushed after with rfl | present
    · exact owned
    · exact sound.owned index other present
  case found => exact sound.found_push unknown
  case once =>
    intro member
    simp only [refile]
    rw [getD_noted _ (nodup_of_ascending ascending)]
    split
    · exact List.nodup_cons.mpr ⟨sound.fresh member, sound.once member⟩
    · exact sound.once member
  case occurs =>
    intro member index
    simp only [refile, Array.getElem?_push]
    rw [getD_noted _ (nodup_of_ascending ascending)]
    by_cases last : index = watches.sets.size
    · subst last
      have fresh := sound.fresh member
      by_cases inside : member ∈ set.members <;> simp [inside, fresh]
    · rw [if_neg last, ← sound.occurs]
      by_cases inside : member ∈ set.members <;> simp [inside, last]
  case counted =>
    intro index other after
    rcases pushed after with rfl | present
    · exact counted
    · exact sound.counted index other present
  case filed => exact sound.filed.push _ _ _

variable [BEq Owner] [LawfulBEq Owner]

theorem Sound.add {watches : Watches Member Owner} (sound : watches.Sound)
    (owner : Owner) (members : List Member) : (watches.add owner members).2.Sound := by
  cases known : watches.byMembers[canonical members]? with
  | some home =>
      rw [add_of_known known]
      exact sound.join home owner
  | none =>
      rw [add_of_new known]
      exact sound.create known (canonical_ascending members) (List.nodup_singleton owner) rfl

end Adding

/-! ## What the files list -/

theorem no_sets_empty (index : Nat) (set : WatchSet Member Owner) :
    (∅ : Watches Member Owner).sets[index]? ≠ some set := by
  have none : (∅ : Watches Member Owner).sets = #[] := rfl
  simp [none]

theorem sound_empty [Std.TransOrd Member] : (∅ : Watches Member Owner).Sound where
  ascending index set present := absurd present (no_sets_empty index set)
  owned index set present := absurd present (no_sets_empty index set)
  found members index := by
    have unknown : (∅ : Watches Member Owner).byMembers[members]? = none :=
      Std.TreeMap.getElem?_emptyc
    rw [unknown]
    constructor
    · rintro ⟨⟩
    · rintro ⟨set, present, _⟩
      exact absurd present (no_sets_empty index set)
  once member := by
    have unknown : (∅ : Watches Member Owner).occurrences.getD member [] = [] :=
      Std.TreeMap.getD_emptyc
    rw [unknown]
    exact List.nodup_nil
  occurs member index := by
    have unknown : (∅ : Watches Member Owner).occurrences.getD member [] = [] :=
      Std.TreeMap.getD_emptyc
    rw [unknown]
    constructor
    · exact fun absurdity => absurd absurdity List.not_mem_nil
    · rintro ⟨set, present, _⟩
      exact absurd present (no_sets_empty index set)
  counted index set present := absurd present (no_sets_empty index set)
  filed :=
    { units := fun index => by
        constructor
        · exact fun filed => absurd filed Std.TreeSet.not_mem_emptyc
        · rintro ⟨set, present, _⟩
          exact absurd present (no_sets_empty index set)
      violated := fun index => by
        constructor
        · exact fun filed => absurd filed Std.TreeSet.not_mem_emptyc
        · rintro ⟨set, present, _⟩
          exact absurd present (no_sets_empty index set) }

theorem mem_violatedOwners {watches : Watches Member Owner} (sound : watches.Sound)
    {owner : Owner} :
    owner ∈ watches.violatedOwners ↔ ∃ members, watches.Watching owner members ∧
      ∀ member ∈ members, watches.mark member = .falsified := by
  unfold violatedOwners
  simp only [List.mem_flatMap, Std.TreeSet.mem_toList, sound.filed.violated]
  constructor
  · rintro ⟨index, ⟨set, present, zero⟩, owns⟩
    simp only [present] at owns
    rw [sound.counted index set present] at zero
    exact ⟨set.members, ⟨index, set, present, owns, rfl⟩, total_eq_zero.mp zero⟩
  · rintro ⟨_, ⟨index, set, present, owns, rfl⟩, falsified⟩
    have zero : set.total = 0 := by
      rw [sound.counted index set present]
      exact total_eq_zero.mpr falsified
    exact ⟨index, ⟨set, present, zero⟩, by simpa only [present] using owns⟩

/-- The member found in a set of total one is its undetermined member. -/
theorem find_unit {watches : Watches Member Owner} {members : List Member} {member : Member}
    (inside : member ∈ members) (undetermined : watches.mark member = .undetermined)
    (rest : ∀ other ∈ members, other ≠ member → watches.mark other = .falsified) :
    members.find? (fun member => watches.mark member != .falsified) = some member := by
  cases search : members.find? (fun member => watches.mark member != .falsified) with
  | none =>
      have falsified := List.find?_eq_none.mp search member inside
      simp [undetermined] at falsified
  | some other =>
      have kept : watches.mark other ≠ .falsified := by
        simpa using List.find?_some search
      by_contra different
      exact kept (rest other (List.mem_of_find?_eq_some search) fun same =>
        different (congrArg some same))

/-- An owner of a single set is listed once, whatever is listed for it. -/
theorem listed_nodup {watches : Watches Member Owner} (sound : watches.Sound)
    (single : ∀ owner left right, watches.Watching owner left →
      watches.Watching owner right → left = right)
    {Item : Type} (listed : WatchSet Member Owner → List Item) (owner : Item → Owner)
    (owns : ∀ set, ∀ item ∈ listed set, owner item ∈ set.owners)
    (once : ∀ set : WatchSet Member Owner, set.owners.Nodup → (listed set).Nodup)
    {indices : List Nat} (distinct : indices.Nodup) :
    (indices.flatMap fun index =>
      match watches.sets[index]? with
      | none => []
      | some set => listed set).Nodup := by
  refine List.nodup_flatMap.mpr ⟨?_, ?_⟩
  · intro index _
    cases present : watches.sets[index]? with
    | none => exact List.nodup_nil
    | some set => exact once set (sound.owned index set present)
  · refine distinct.imp ?_
    intro left right different item inLeft inRight
    cases leftPresent : watches.sets[left]? with
    | none => simp [leftPresent] at inLeft
    | some leftSet =>
        cases rightPresent : watches.sets[right]? with
        | none => simp [rightPresent] at inRight
        | some rightSet =>
            simp only [leftPresent] at inLeft
            simp only [rightPresent] at inRight
            have sameMembers := single (owner item) _ _
              ⟨left, leftSet, leftPresent, owns _ _ inLeft, rfl⟩
              ⟨right, rightSet, rightPresent, owns _ _ inRight, rfl⟩
            have leftFound := (sound.found _ _).mpr ⟨leftSet, leftPresent, rfl⟩
            have rightFound := (sound.found _ _).mpr ⟨rightSet, rightPresent, rfl⟩
            rw [sameMembers, rightFound] at leftFound
            exact different (Option.some.inj leftFound).symm

theorem violatedOwners_nodup {watches : Watches Member Owner} (sound : watches.Sound)
    (single : ∀ owner left right, watches.Watching owner left →
      watches.Watching owner right → left = right) :
    watches.violatedOwners.Nodup :=
  listed_nodup sound single WatchSet.owners id (fun _ _ inside => inside) (fun _ once => once)
    (nodup_of_ascending Std.TreeSet.ordered_toList)

theorem unitOwners_nodup {watches : Watches Member Owner} (sound : watches.Sound)
    (single : ∀ owner left right, watches.Watching owner left →
      watches.Watching owner right → left = right) :
    watches.unitOwners.Nodup := by
  refine listed_nodup sound single _ Prod.fst ?_ ?_
    (nodup_of_ascending Std.TreeSet.ordered_toList)
  · intro set pair inside
    cases found : set.members.find? fun member => watches.mark member != .falsified with
    | none => simp [found] at inside
    | some member =>
        simp only [found, List.mem_map] at inside
        obtain ⟨owner, owns, rfl⟩ := inside
        exact owns
  · intro set once
    cases found : set.members.find? fun member => watches.mark member != .falsified with
    | none => exact List.nodup_nil
    | some member =>
        refine once.map ?_
        intro left right same
        exact congrArg Prod.fst same

variable [Std.TransOrd Member]

theorem mem_unitOwners {watches : Watches Member Owner} (sound : watches.Sound)
    {owner : Owner} {member : Member} :
    (owner, member) ∈ watches.unitOwners ↔ ∃ members, watches.Watching owner members ∧
      member ∈ members ∧ watches.mark member = .undetermined ∧
      ∀ other ∈ members, other ≠ member → watches.mark other = .falsified := by
  unfold unitOwners
  simp only [List.mem_flatMap, Std.TreeSet.mem_toList, sound.filed.units]
  constructor
  · rintro ⟨index, ⟨set, present, one⟩, listed⟩
    rw [sound.counted index set present] at one
    obtain ⟨found, inside, undetermined, rest⟩ :=
      (total_eq_one (nodup_of_ascending (sound.ascending index set present))).mp one
    simp only [present, find_unit inside undetermined rest, List.mem_map,
      Prod.mk.injEq] at listed
    obtain ⟨_, owns, rfl, rfl⟩ := listed
    exact ⟨set.members, ⟨index, set, present, owns, rfl⟩, inside, undetermined, rest⟩
  · rintro ⟨_, ⟨index, set, present, owns, rfl⟩, inside, undetermined, rest⟩
    have one : set.total = 1 := by
      rw [sound.counted index set present]
      exact (total_eq_one (nodup_of_ascending (sound.ascending index set present))).mpr
        ⟨member, inside, undetermined, rest⟩
    refine ⟨index, ⟨set, present, one⟩, ?_⟩
    simp only [present, find_unit inside undetermined rest, List.mem_map]
    exact ⟨owner, owns, rfl⟩

end Watches

end ModelSearch
