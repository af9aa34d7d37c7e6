import Mathlib.Data.List.Sort
import ModelSearch.Proofs.Events.TrailEvents

/-!
# Replaying the record

A ledger lists the values of atoms in the order in which they were given, each with its
level and reason, and knows the current level.  Reading an event adds a line at the end
or removes the lines above some level.  For an evaluation the level is found from the
lines of the variables, and nothing is known of the trail.
-/

namespace ModelSearch

/-! ## Entries in order -/

namespace Trail

variable {trail : Trail}

theorem mem_toList {atom : Atom} {entry : Entry} :
    (atom, entry) ∈ trail.toList ↔ trail.get? atom = some entry := by
  rw [toList, List.mem_mergeSort, Std.TreeMap.mem_toList_iff_getElem?_eq_some, get?]

/-- Entries are listed in the order of their positions. -/
def Earlier (left right : Atom × Entry) : Prop := left.2.position < right.2.position

instance : Std.Antisymm Earlier := ⟨fun _ _ left right => absurd left (Nat.lt_asymm right)⟩

instance : Std.Irrefl Earlier := ⟨fun _ => Nat.lt_irrefl _⟩

theorem Sound.earlier_toList (sound : trail.Sound) : trail.toList.Pairwise Earlier := by
  have sorted : trail.toList.Pairwise fun left right =>
      decide (left.2.position ≤ right.2.position) = true := by
    refine List.pairwise_mergeSort ?_ ?_ _
    · intro first second third low high
      exact decide_eq_true (Nat.le_trans (of_decide_eq_true low) (of_decide_eq_true high))
    · intro left right
      rw [Bool.or_eq_true, decide_eq_true_iff, decide_eq_true_iff]
      exact Nat.le_total _ _
  have distinct : trail.toList.Nodup := by
    refine (List.mergeSort_perm _ _).nodup_iff.mpr ?_
    refine Std.TreeMap.distinct_keys_toList.imp fun different same => different ?_
    rw [same]
    exact Std.ReflCmp.compare_self
  refine (sorted.and distinct).imp_of_mem ?_
  rintro ⟨left, leftEntry⟩ ⟨right, rightEntry⟩ inLeft inRight ⟨low, different⟩
  refine Nat.lt_of_le_of_ne (of_decide_eq_true low) fun same => different ?_
  have leftFound := mem_toList.mp inLeft
  have rightFound := mem_toList.mp inRight
  obtain rfl := sound.distinct _ _ _ _ leftFound rightFound same
  rw [Option.some.inj (leftFound.symm.trans rightFound)]

/-- A list in order that has the entries of the trail is the list of them. -/
theorem Sound.toList_eq (sound : trail.Sound) {listed : List (Atom × Entry)}
    (ordered : listed.Pairwise Earlier)
    (same : ∀ atom entry, (atom, entry) ∈ listed ↔ trail.get? atom = some entry) :
    trail.toList = listed := by
  refine List.Pairwise.eq_of_mem_iff sound.earlier_toList ordered ?_
  rintro ⟨atom, entry⟩
  rw [mem_toList, same]

theorem Sound.toList_push (sound : trail.Sound) {atom : Atom} {value : Value} {reason : Reason}
    {level : Nat} (unvalued : trail.get? atom = none) (isOpen : level ≤ trail.level) :
    (trail.push atom value reason level).toList =
      trail.toList ++ [(atom, ⟨value, level, reason, trail.position⟩)] := by
  refine (sound.push unvalued isOpen).toList_eq ?_ fun other entry => ?_
  · refine List.pairwise_append.mpr ⟨sound.earlier_toList, List.pairwise_singleton _ _, ?_⟩
    rintro ⟨former, entry⟩ inside _ last
    rw [List.mem_singleton.mp last]
    exact sound.numbered former entry (mem_toList.mp inside)
  · rw [List.mem_append, mem_toList, List.mem_singleton, get?_push]
    by_cases same : atom = other
    · subst same
      simp [unvalued, eq_comm]
    · simp [same, Ne.symm same]

theorem Sound.toList_clearAbove (sound : trail.Sound) (level : Nat) :
    (trail.clearAbove level).2.toList =
      trail.toList.filter fun pair => pair.2.level ≤ level := by
  refine (sound.clearAbove level).toList_eq (sound.earlier_toList.filter _) fun atom entry => ?_
  rw [List.mem_filter, mem_toList, sound.get?_clearAbove_eq_some, decide_eq_true_iff]

end Trail

/-! ## Ledgers -/

/-- The value of an atom, with its level and reason. -/
structure Line where
  atom : Atom
  value : Value
  level : Nat
  reason : Reason

/-- Lines in the order of assignment, and the current level. -/
structure Ledger where
  lines : List Line := []
  level : Nat := 0

namespace Ledger

variable {ledger : Ledger}

/-- The ledger with a further line. -/
def write (ledger : Ledger) (atom : Atom) (value : Value) (level : Nat) (reason : Reason) :
    Ledger :=
  { ledger with lines := ledger.lines ++ [⟨atom, value, level, reason⟩] }

/-- The level at which an atom got its value, if it has one. -/
def level? (ledger : Ledger) (atom : Atom) : Option Nat :=
  (ledger.lines.find? fun line => line.atom = atom).map Line.level

/-- The greatest level of some variables, zero if none has a value. -/
def greatest (ledger : Ledger) (keys : List VariableKey) : Nat :=
  (keys.filterMap fun key => ledger.level? (.var key)).foldl max 0

/-- Reads an event, given the variables of each theory atom.  A removal of levels can
only be read if it begins at the current level. -/
def read (support : TheoryKey → List VariableKey) (ledger : Ledger) : Event → Option Ledger
  | .decision atom value =>
      some { ledger.write atom value (ledger.level + 1) .decided with level := ledger.level + 1 }
  | .clausal literal key =>
      some (ledger.write literal.atom (.boolean literal.polarity) ledger.level (.clause key))
  | .semantic (.var key) value => some (ledger.write (.var key) value ledger.level .semantic)
  | .semantic (.theory key) value =>
      some (ledger.write (.theory key) value (ledger.greatest (support key)) .semantic)
  | .backjump origin target _ =>
      if origin = ledger.level then
        some ⟨ledger.lines.filter fun line => line.level ≤ target, min target ledger.level⟩
      else none
  | _ => some ledger

/-- Reads events in order, from the beginning. -/
def replay (support : TheoryKey → List VariableKey) (events : List Event) : Option Ledger :=
  events.foldlM (read support) {}

theorem replay_append {support : TheoryKey → List VariableKey} {events told : List Event}
    (first : replay support events = some ledger) :
    replay support (events ++ told) = told.foldlM (read support) ledger := by
  unfold replay at *
  rw [List.foldlM_append, first]
  rfl

theorem read_aside (support : TheoryKey → List VariableKey) {event : Event}
    (aside : event.onTrail = false) : ledger.read support event = some ledger := by
  cases event <;> first | rfl | cases aside

theorem reads_aside (support : TheoryKey → List VariableKey) {told : List Event}
    (aside : ∀ event ∈ told, event.onTrail = false) :
    told.foldlM (read support) ledger = some ledger := by
  induction told with
  | nil => rfl
  | cons event told induction =>
      rw [List.foldlM_cons, read_aside support (aside event List.mem_cons_self)]
      exact induction fun other inside => aside other (List.mem_cons_of_mem _ inside)

end Ledger

/-- What a ledger keeps of an entry. -/
def Entry.line (atom : Atom) (entry : Entry) : Line :=
  ⟨atom, entry.value, entry.level, entry.reason⟩

/-- The ledger of a trail. -/
def Trail.ledger (trail : Trail) : Ledger where
  lines := trail.toList.map fun pair => pair.2.line pair.1
  level := trail.level

theorem Trail.level?_ledger (trail : Trail) (atom : Atom) :
    trail.ledger.level? atom = trail.level? atom := by
  have listed : trail.ledger.level? atom =
      (trail.toList.find? fun pair => decide (pair.1 = atom)).map fun pair => pair.2.level := by
    unfold Ledger.level? Trail.ledger
    rw [List.find?_map, Option.map_map]
    rfl
  rw [listed]
  cases search : trail.toList.find? fun pair => decide (pair.1 = atom) with
  | none =>
      have absent : trail.get? atom = none := by
        cases found : trail.get? atom with
        | none => rfl
        | some entry =>
            have other := List.find?_eq_none.mp search _ (Trail.mem_toList.mpr found)
            exact absurd (decide_eq_true rfl) other
      rw [Trail.level?, absent]
      rfl
  | some pair =>
      obtain ⟨other, entry⟩ := pair
      have same := List.find?_some search
      obtain rfl : other = atom := of_decide_eq_true same
      have found := Trail.mem_toList.mp (List.mem_of_find?_eq_some search)
      rw [Trail.level?, found]
      rfl

theorem Trail.greatest_ledger (trail : Trail) (keys : List VariableKey) :
    trail.ledger.greatest keys = Solver.greatestLevel trail keys := by
  unfold Ledger.greatest Solver.greatestLevel
  simp only [Trail.level?_ledger]

namespace Trail.Sound

variable {trail : Trail}

theorem ledger_push (sound : trail.Sound) {atom : Atom} {value : Value} {reason : Reason}
    {level : Nat} (unvalued : trail.get? atom = none) (isOpen : level ≤ trail.level) :
    (trail.push atom value reason level).ledger = trail.ledger.write atom value level reason := by
  unfold Trail.ledger Ledger.write
  rw [sound.toList_push unvalued isOpen, Trail.level_push, List.map_append]
  rfl

theorem ledger_openLevel (sound : trail.Sound) :
    trail.openLevel.ledger = { trail.ledger with level := trail.ledger.level + 1 } := by
  unfold Trail.ledger
  rw [sound.level_openLevel]
  rfl

theorem ledger_clearAbove (sound : trail.Sound) (level : Nat) :
    (trail.clearAbove level).2.ledger =
      ⟨trail.ledger.lines.filter fun line => line.level ≤ level, min level trail.level⟩ := by
  unfold Trail.ledger
  rw [sound.toList_clearAbove, sound.level_clearAbove, List.filter_map]
  rfl

end Trail.Sound

/-! ## Reading what was done -/

variable {τ : Type} [TheoryAtom τ] {solver before after : Solver τ}

namespace Solver

/-- The variables of each theory atom. -/
def supports (solver : Solver τ) (key : TheoryKey) : List VariableKey :=
  ((solver.theoryAtoms[key]?).map TheoryAtom.support).getD []

end Solver

/-- Reading an event does to the ledger of a trail what was done to the trail. -/
theorem TrailChange.read {event : Event} {trail : Trail} (change : TrailChange before event trail)
    (sound : before.trail.Sound) :
    trail.Sound ∧ before.trail.ledger.read before.supports event = some trail.ledger := by
  cases change with
  | decision unvalued =>
      have isOpen := Nat.le_refl before.trail.openLevel.level
      refine ⟨sound.openLevel.push unvalued isOpen, ?_⟩
      rw [sound.openLevel.ledger_push unvalued isOpen, sound.ledger_openLevel,
        sound.level_openLevel]
      rfl
  | clausal unvalued =>
      refine ⟨sound.push unvalued (Nat.le_refl _), ?_⟩
      rw [sound.ledger_push unvalued (Nat.le_refl _)]
      rfl
  | implied unvalued =>
      refine ⟨sound.push unvalued (Nat.le_refl _), ?_⟩
      rw [sound.ledger_push unvalued (Nat.le_refl _)]
      rfl
  | @evaluation key atom truth present evaluated unvalued isOpen =>
      refine ⟨sound.push unvalued isOpen, ?_⟩
      have support : before.supports key = TheoryAtom.support atom := by
        rw [Solver.supports, present]
        rfl
      rw [sound.ledger_push unvalued isOpen, Ledger.read, support, before.trail.greatest_ledger]
  | jump below =>
      refine ⟨sound.clearAbove _, ?_⟩
      rw [sound.ledger_clearAbove]
      exact if_pos rfl
  | @stay target kind above =>
      refine ⟨sound, ?_⟩
      have all : before.trail.ledger.lines.filter (fun line => line.level ≤ target) =
          before.trail.ledger.lines := by
        refine List.filter_eq_self.mpr fun line inside => decide_eq_true ?_
        obtain ⟨pair, listed, rfl⟩ := List.mem_map.mp inside
        exact Nat.le_trans (sound.level_le (Trail.mem_toList.mp listed)) above
      have level : min target before.trail.ledger.level = before.trail.ledger.level :=
        Nat.min_eq_right above
      refine (if_pos rfl).trans ?_
      rw [all, level]

/-- The trail is sound, and the record replays to it. -/
structure Replays (solver : Solver τ) : Prop where
  sound : solver.trail.Sound
  replayed : Ledger.replay solver.supports solver.events.toList = some solver.trail.ledger

/-- Other things are told, and the trail is left alone. -/
theorem Replays.aside (replays : Replays before) (trail : after.trail = before.trail)
    (theoryAtoms : after.theoryAtoms = before.theoryAtoms) {told : List Event}
    (events : after.events.toList = before.events.toList ++ told)
    (aside : ∀ event ∈ told, event.onTrail = false) : Replays after := by
  have supports : after.supports = before.supports := by
    unfold Solver.supports
    rw [theoryAtoms]
  refine ⟨trail ▸ replays.sound, ?_⟩
  rw [events, trail, supports, Ledger.replay_append replays.replayed]
  exact Ledger.reads_aside _ aside

theorem Replays.consulted (replays : Replays solver) (atom : Atom) (unassigned : VariableKey) :
    Replays (Solver.telling (.consulted atom unassigned) solver) := by
  refine replays.aside rfl rfl Array.toList_push fun event inside => ?_
  rw [List.mem_singleton.mp inside]
  rfl

theorem Replays.reported (replays : Replays before) (reports : ReportsTrail before after) :
    Replays after := by
  cases reports with
  | kept keeps =>
      obtain ⟨told, events, aside⟩ := keeps.events
      exact replays.aside keeps.trail keeps.theoryAtoms events fun event inside =>
        Event.onTrail_of_isAside (aside event inside)
  | @changed event change theoryAtoms events =>
      obtain ⟨sound, read⟩ := change.read replays.sound
      refine ⟨sound, ?_⟩
      have supports : after.supports = before.supports := by
        unfold Solver.supports
        rw [theoryAtoms]
      rw [events, Array.toList_push, supports, Ledger.replay_append replays.replayed,
        List.foldlM_cons, read]
      rfl

end ModelSearch
