import ModelSearch.Proofs.Trail.TopLiterals

/-!
# Whatever becomes of a trail, its two views agree

A trail begins fresh.  Then levels are opened, atoms without an entry are recorded at any
open level, and levels are removed, however often and in whatever order.  An atom has an
entry exactly if it is listed, and then it is listed once, at the level of its entry.

Positions are never given out again, not even those of entries that were removed.  So
within a level the order of listing is the order of recording, and what a removal answers
is in order of level and then of position.
-/

namespace ModelSearch

namespace Trail

/-- The atoms of all open levels, level by level. -/
def listing (trail : Trail) : List Atom := (List.range (trail.level + 1)).flatMap trail.atomsAt

/-- A trail made from the fresh one, and the records made on the way, in order. -/
inductive History : Trail → List (Atom × Entry) → Prop where
  | fresh : History ∅ []
  | openLevel {trail : Trail} {made : List (Atom × Entry)} (history : History trail made) :
      History trail.openLevel made
  | record {trail next : Trail} {made : List (Atom × Entry)} {atom : Atom} {value : Value}
      {reason : Reason} {level : Nat} {entry : Entry} (history : History trail made)
      (recorded : trail.record atom value reason level = .ok next)
      (found : next.get? atom = some entry) : History next (made ++ [(atom, entry)])
  | clearAbove {trail : Trail} {made : List (Atom × Entry)} (history : History trail made)
      (level : Nat) : History (trail.clearAbove level).2 made

/-- The entries above a level were removed, each once and in order, and nothing else was. -/
structure Cleared (trail : Trail) (level : Nat) (removed : List (Atom × Entry)) (rest : Trail) :
    Prop where
  mem_removed : ∀ atom entry,
    (atom, entry) ∈ removed ↔ trail.get? atom = some entry ∧ level < entry.level
  once : (removed.map Prod.fst).Nodup
  ordered : removed.Pairwise fun one two => one.2.Before two.2
  left : ∀ atom entry,
    rest.get? atom = some entry ↔ trail.get? atom = some entry ∧ entry.level ≤ level
  listed : ∀ other, rest.atomsAt other = if other ≤ level then trail.atomsAt other else []
  current : rest.level = min level trail.level

/-- The entries and the lists by level say the same, and positions follow the records made. -/
structure Views (trail : Trail) (made : List (Atom × Entry)) : Prop where
  mem_listing : ∀ atom, atom ∈ trail.listing ↔ ∃ entry, trail.get? atom = some entry
  once : trail.listing.Nodup
  levelled : ∀ atom entry level, trail.get? atom = some entry →
    (atom ∈ trail.atomsAt level ↔ level = entry.level)
  rising : ∀ level, (trail.atomsAt level).Pairwise fun earlier later =>
    ∃ one two, trail.get? earlier = some one ∧ trail.get? later = some two ∧
      one.position < two.position
  numbered : made.Pairwise fun earlier later => earlier.2.position < later.2.position
  known : ∀ atom entry, trail.get? atom = some entry → (atom, entry) ∈ made
  recorded : ∀ atom value reason level, trail.get? atom = none → level ≤ trail.level →
    ∃ next position, trail.record atom value reason level = .ok next ∧
      next.get? atom = some ⟨value, level, reason, position⟩ ∧
      ∀ former ∈ made, former.2.position < position
  counted : trail.size = trail.listing.length
  cleared : ∀ level, trail.Cleared level (trail.clearAbove level).1 (trail.clearAbove level).2

section Sound

variable {trail : Trail}

theorem atomsAbove_eq (trail : Trail) (level : Nat) :
    trail.atomsAbove level =
      (List.range' (level + 1) (trail.levels.size - (level + 1))).flatMap trail.atomsAt := by
  have levels : trail.levels.toList.drop (level + 1) =
      (List.range' (level + 1) (trail.levels.size - (level + 1))).map
        fun other => trail.levels[other]?.getD #[] := by
    refine List.ext_getElem? fun index => ?_
    rw [List.getElem?_drop, List.getElem?_map, Array.getElem?_toList]
    by_cases inside : level + 1 + index < trail.levels.size
    · rw [List.getElem?_range' (by omega), Nat.one_mul, Option.map_some,
        Array.getElem?_eq_getElem inside, Option.getD_some]
    · rw [Array.getElem?_eq_none (by omega), List.getElem?_eq_none]
      · rfl
      · rw [List.length_range']
        omega
  rw [atomsAbove, levels, List.flatMap_map]
  exact congrArg (List.flatMap · _) (funext fun other => (atomsAt_eq trail other).symm)

/-- Atoms listed by ascending levels are listed in the order of their entries. -/
theorem Sound.pairwise_atomsAt (sound : trail.Sound) {levels : List Nat}
    (ascending : levels.Pairwise (· < ·)) :
    (levels.flatMap trail.atomsAt).Pairwise fun earlier later =>
      ∀ one two, trail.get? earlier = some one → trail.get? later = some two → one.Before two := by
  have here : ∀ {atom level entry}, atom ∈ trail.atomsAt level → trail.get? atom = some entry →
      entry.level = level := fun inside found => by
    obtain ⟨again, same, level⟩ := level?_eq_some.mp ((sound.listed _ _).mp inside)
    exact Option.some.inj (found.symm.trans same) ▸ level
  refine List.pairwise_flatMap.mpr ⟨fun level _ => ?_, ascending.imp fun {low high} less => ?_⟩
  · refine (sound.ordered level).imp_of_mem fun inEarlier inLater before one two first second => ?_
    exact .inr ⟨(here inEarlier first).trans (here inLater second).symm,
      before one two first second⟩
  · intro earlier inEarlier later inLater one two first second
    exact .inl (by rwa [here inEarlier first, here inLater second])

theorem Sound.nodup_atomsAt (sound : trail.Sound) {levels : List Nat}
    (ascending : levels.Pairwise (· < ·)) : (levels.flatMap trail.atomsAt).Nodup := by
  refine (sound.pairwise_atomsAt ascending).imp_of_mem fun inside _ before same => ?_
  subst same
  obtain ⟨level, _, listed⟩ := List.mem_flatMap.mp inside
  obtain ⟨entry, found, _⟩ := level?_eq_some.mp ((sound.listed _ _).mp listed)
  exact Entry.Before.irrefl entry (before entry entry found found)

theorem Sound.mem_listing (sound : trail.Sound) {atom : Atom} :
    atom ∈ trail.listing ↔ ∃ entry, trail.get? atom = some entry := by
  simp only [listing, List.mem_flatMap, List.mem_range, sound.listed, level?_eq_some]
  constructor
  · rintro ⟨_, _, entry, found, _⟩
    exact ⟨entry, found⟩
  · rintro ⟨entry, found⟩
    exact ⟨entry.level, Nat.lt_succ_of_le (sound.level_le found), entry, found, rfl⟩

theorem Sound.ordered_removed (sound : trail.Sound) (level : Nat) :
    (trail.clearAbove level).1.Pairwise fun one two => one.2.Before two.2 := by
  unfold Trail.clearAbove
  refine List.pairwise_filterMap.mpr ?_
  rw [atomsAbove_eq]
  refine (sound.pairwise_atomsAt List.pairwise_lt_range').imp ?_
  intro earlier later before one first two second
  obtain ⟨entry, found, rfl⟩ := Option.map_eq_some_iff.mp first
  obtain ⟨other, again, rfl⟩ := Option.map_eq_some_iff.mp second
  exact before entry other found again

theorem Sound.cleared (sound : trail.Sound) (level : Nat) :
    trail.Cleared level (trail.clearAbove level).1 (trail.clearAbove level).2 where
  mem_removed _ _ := sound.mem_removed
  once := by
    refine List.pairwise_map.mpr ((sound.ordered_removed level).imp_of_mem ?_)
    rintro ⟨atom, one⟩ ⟨_, two⟩ first second before rfl
    obtain rfl : one = two := Option.some.inj
      ((sound.mem_removed.mp first).1.symm.trans (sound.mem_removed.mp second).1)
    exact Entry.Before.irrefl one before
  ordered := sound.ordered_removed level
  left _ _ := sound.get?_clearAbove_eq_some
  listed := atomsAt_clearAbove trail level
  current := sound.level_clearAbove level

end Sound

/-- The views agree, and every entry is one of the records made. -/
structure Logged (trail : Trail) (made : List (Atom × Entry)) : Prop where
  sound : trail.Sound
  known : ∀ atom entry, trail.get? atom = some entry → (atom, entry) ∈ made
  past : ∀ former ∈ made, former.2.position < trail.position
  numbered : made.Pairwise fun earlier later => earlier.2.position < later.2.position

variable {trail : Trail} {made : List (Atom × Entry)}

theorem Logged.push (logged : trail.Logged made) {atom : Atom} {value : Value} {reason : Reason}
    {level : Nat} (isOpen : level ≤ trail.level) (unvalued : trail.get? atom = none) :
    (trail.push atom value reason level).Logged
      (made ++ [(atom, ⟨value, level, reason, trail.position⟩)]) where
  sound := logged.sound.push unvalued isOpen
  known other entry found := by
    rw [get?_push] at found
    split at found
    next same =>
      obtain rfl := Option.some.inj found
      rw [same]
      exact List.mem_append_right _ List.mem_cons_self
    next different => exact List.mem_append_left _ (logged.known other entry found)
  past former held := by
    rcases List.mem_append.mp held with earlier | last
    · exact Nat.lt_succ_of_lt (logged.past former earlier)
    · rw [List.mem_singleton.mp last]
      exact Nat.lt_succ_self _
  numbered := by
    refine List.pairwise_append.mpr ⟨logged.numbered, List.pairwise_singleton _ _, ?_⟩
    intro former earlier last held
    rw [List.mem_singleton.mp held]
    exact logged.past former earlier

theorem History.logged (history : History trail made) : trail.Logged made := by
  induction history with
  | fresh =>
      exact ⟨sound_empty, fun atom entry found => absurd found (by simp), by simp, .nil⟩
  | openLevel _ logged =>
      exact ⟨logged.sound.openLevel, logged.known, logged.past, logged.numbered⟩
  | record _ recorded found logged =>
      obtain ⟨⟨isOpen, unvalued⟩, rfl⟩ := record_eq_ok.mp recorded
      rw [get?_push, if_pos rfl] at found
      obtain rfl := Option.some.inj found
      exact logged.push isOpen unvalued
  | clearAbove _ level logged =>
      refine ⟨logged.sound.clearAbove level, fun atom entry found => ?_, logged.past,
        logged.numbered⟩
      exact logged.known atom entry (logged.sound.get?_clearAbove_eq_some.mp found).1

theorem Sound.rising (sound : trail.Sound) (level : Nat) :
    (trail.atomsAt level).Pairwise fun earlier later =>
      ∃ one two, trail.get? earlier = some one ∧ trail.get? later = some two ∧
        one.position < two.position := by
  refine (sound.ordered level).imp_of_mem fun inEarlier inLater before => ?_
  obtain ⟨one, first, _⟩ := level?_eq_some.mp ((sound.listed _ _).mp inEarlier)
  obtain ⟨two, second, _⟩ := level?_eq_some.mp ((sound.listed _ _).mp inLater)
  exact ⟨one, two, first, second, before one two first second⟩

/-- However a trail was made, its two views agree. -/
theorem History.views_agree (history : History trail made) : trail.Views made := by
  have logged := history.logged
  have sound := logged.sound
  refine ⟨fun atom => sound.mem_listing, sound.nodup_atomsAt List.pairwise_lt_range,
    fun atom entry level found => ?_, sound.rising, logged.numbered, logged.known,
    fun atom value reason level unvalued isOpen => ?_,
    size_eq_length (sound.nodup_atomsAt List.pairwise_lt_range) fun _ => sound.mem_listing,
    sound.cleared⟩
  · rw [sound.listed, level?, found, Option.map_some, Option.some.injEq, eq_comm]
  · refine ⟨_, trail.position, record_eq_ok.mpr ⟨⟨isOpen, unvalued⟩, rfl⟩, ?_, logged.past⟩
    rw [get?_push, if_pos rfl]

/-- An atom recorded at level one. -/
def recordedOnce : Trail := (∅ : Trail).openLevel.push (.var 0) (.boolean true) .decided 1

/-- The atom is removed with its level, and recorded again at level zero. -/
def recordedAgain : Trail :=
  (recordedOnce.clearAbove 0).2.push (.var 0) (.boolean false) .semantic 0

theorem history_recordedAgain :
    History recordedAgain
      ([] ++ [(.var 0, ⟨.boolean true, 1, .decided, 0⟩)] ++
        [(.var 0, ⟨.boolean false, 0, .semantic, 1⟩)]) := by
  have first : History recordedOnce ([] ++ [(.var 0, ⟨.boolean true, 1, .decided, 0⟩)]) :=
    History.fresh.openLevel.record (record_eq_ok.mpr ⟨⟨Nat.le_refl 1, rfl⟩, rfl⟩) rfl
  exact (first.clearAbove 0).record (record_eq_ok.mpr ⟨⟨Nat.le_refl 0, rfl⟩, rfl⟩) rfl

theorem views_agree_recordedAgain :
    recordedAgain.listing = [.var 0] ∧ ∃ made, made.length = 2 ∧ recordedAgain.Views made :=
  ⟨rfl, _, rfl, history_recordedAgain.views_agree⟩

end Trail

end ModelSearch
