import ModelSearch.Assignment
import ModelSearch.Proofs.Queue.Membership
import ModelSearch.Proofs.Trail.Views
import ModelSearch.Proofs.Watch.Marks

/-!
# The stores follow the trail

A view gives the value of each atom.  Both stores follow a view if the values of
the variables, the decision queue and all marks are those the view asks for.  An
assignment is coherent if its stores follow its trail; giving values, taking them
and adding clauses keep it so.
-/

namespace ModelSearch

/-- The mark of a literal of this truth. -/
def Mark.ofTruth : Option Bool → Mark
  | none => .undetermined
  | some true => .satisfied
  | some false => .falsified

theorem Mark.ofTruth_eq_falsified {truth : Option Bool} :
    Mark.ofTruth truth = .falsified ↔ truth = some false := by
  rcases truth with _ | _ | _ <;> simp [ofTruth]

theorem Mark.ofTruth_eq_undetermined {truth : Option Bool} :
    Mark.ofTruth truth = .undetermined ↔ truth = none := by
  rcases truth with _ | _ | _ <;> simp [ofTruth]

/-- The values of all atoms. -/
abbrev View := Atom → Option Value

namespace View

/-- The truth of a literal, if its atom has a Boolean value. -/
def literalTruth? (view : View) (literal : Literal) : Option Bool :=
  ((view literal.atom).bind Value.truth?).map (· == literal.polarity)

/-- The view with the value of one atom replaced. -/
def replace (view : View) (atom : Atom) (value : Option Value) : View :=
  fun other => if atom = other then value else view other

/-- The view without the values of some atoms. -/
def without (view : View) (atoms : List Atom) : View :=
  fun atom => if atom ∈ atoms then none else view atom

theorem replace_none (view : View) {atom : Atom} (unvalued : view atom = none) :
    view.replace atom none = view := by
  funext other
  unfold replace
  split
  · next same => rw [← same, unvalued]
  · rfl

end View

theorem Trail.literalTruth?_eq (trail : Trail) (literal : Literal) :
    trail.literalTruth? literal = View.literalTruth? trail.value? literal := rfl

/-! ## Parts of the stores that values do not touch -/

/-- Names and sorts of the variables, in the order of addition. -/
def VariableStore.signature (store : VariableStore) : List (String × VariableSort) :=
  store.table.toList.map fun known => (known.name, known.sort)

namespace VariableStore

variable {store : VariableStore}

theorem length_signature (store : VariableStore) : store.signature.length = store.size := by
  simp [signature, size]

theorem getElem?_signature (store : VariableStore) (key : VariableKey) :
    store.signature[key]? = (store.get? key).map fun known => (known.name, known.sort) := by
  simp [signature, get?]

theorem value?_lt {key : VariableKey} {value : Value} (valued : store.value? key = some value) :
    key < store.size := by
  unfold value? get? at valued
  by_contra above
  have missing : store.table[key]? = none :=
    Array.getElem?_eq_none_iff.mpr (Nat.not_lt.mp above)
  rw [missing] at valued
  cases valued

@[simp] theorem signature_setValue (store : VariableStore) (key : VariableKey) (value : Value) :
    (store.setValue key value).signature = store.signature := by
  refine List.ext_getElem? fun index => ?_
  simp only [signature, setValue, List.getElem?_map, Array.getElem?_toList,
    Array.getElem?_modify]
  by_cases same : key = index
  · simp only [same, if_true, Option.map_map]
    rfl
  · rw [if_neg same]

@[simp] theorem signature_clearValue (store : VariableStore) (key : VariableKey) :
    (store.clearValue key).signature = store.signature := by
  unfold clearValue
  split
  · rfl
  · refine List.ext_getElem? fun index => ?_
    simp only [signature, List.getElem?_map, Array.getElem?_toList, Array.getElem?_modify]
    by_cases same : key = index
    · simp only [same, if_true, Option.map_map]
      rfl
    · rw [if_neg same]

@[simp] theorem keys_clearValue (store : VariableStore) (key : VariableKey) :
    (store.clearValue key).keys = store.keys := by
  unfold clearValue
  split <;> rfl

theorem watching_clearValue (sound : store.watches.Sound) (key : VariableKey)
    {owner : TheoryKey} {members : List VariableKey} :
    (store.clearValue key).watches.Watching owner members ↔
      store.watches.Watching owner members := by
  unfold clearValue
  split
  · exact Iff.rfl
  · exact Watches.watching_setMark sound _ _

theorem value?_setValue (store : VariableStore) (key other : VariableKey) (value : Value) :
    (store.setValue key value).value? other =
      if key = other ∧ key < store.size then some value else store.value? other := by
  simp only [value?, get?, setValue, Array.getElem?_modify]
  by_cases same : key = other
  · subst same
    by_cases inside : key < store.size
    · have present : key < store.table.size := inside
      simp [inside, present]
    · have absent : ¬key < store.table.size := inside
      simp [inside, absent]
  · rw [if_neg same, if_neg fun both => same both.1]

theorem clearValue_of_known {key : VariableKey} {known : Variable}
    (present : store.get? key = some known) :
    store.clearValue key =
      { store with
        table := store.table.modify key fun former => { former with value := none }
        queue := store.queue.push key known.sort.priority
        watches := store.watches.setMark key .undetermined } := by
  rw [clearValue, present]
  rfl

theorem value?_clearValue (store : VariableStore) (key other : VariableKey) :
    (store.clearValue key).value? other = if key = other then none else store.value? other := by
  cases known : store.get? key with
  | none =>
      have unchanged : store.clearValue key = store := by rw [clearValue, known]; rfl
      rw [unchanged]
      by_cases same : key = other
      · rw [if_pos same, value?, ← same, known]
        rfl
      · rw [if_neg same]
  | some entry =>
      rw [clearValue_of_known known]
      simp only [value?, get?, Array.getElem?_modify]
      by_cases same : key = other
      · subst same
        rw [get?] at known
        simp [known]
      · rw [if_neg same, if_neg same]

/-- Names and keys belong together. -/
def Named (store : VariableStore) : Prop :=
  ∀ name, store.keys.contains name = true ↔ ∃ sort, (name, sort) ∈ store.signature

end VariableStore

/-! ## Following a view -/

/-- The variable store has the values, the queue and the marks of the view. -/
structure VariablesFollow (view : View) (vars : VariableStore) : Prop where
  queue : vars.queue.Sound
  watches : vars.watches.Sound
  values : ∀ key, vars.value? key = view (.var key)
  queued : ∀ key, vars.queue.contains key = true ↔ key < vars.size ∧ view (.var key) = none
  marks : ∀ key, vars.watches.mark key =
    if (view (.var key)).isSome then .falsified else .undetermined

/-- The clause store has the marks of the view, and watches the clauses it says. -/
structure ClausesFollow (view : View) (clauses : ClauseStore) : Prop where
  watches : clauses.watches.Sound
  marks : ∀ literal, clauses.watches.mark literal = Mark.ofTruth (view.literalTruth? literal)
  watched : ∀ key literals, clauses.watches.Watching key literals ↔
    ∃ stored, clauses.stored? key = some stored ∧ stored.watched = true ∧
      stored.clause.literals = literals

/-- The trail is sound, and both stores follow it. -/
structure Assignment.Coherent (assignment : Assignment) : Prop where
  trail : assignment.trail.Sound
  vars : VariablesFollow assignment.trail.value? assignment.vars
  clauses : ClausesFollow assignment.trail.value? assignment.clauses

namespace VariablesFollow

variable {view other : View} {vars : VariableStore}

theorem known (follow : VariablesFollow view vars) {key : VariableKey} {value : Value}
    (valued : view (.var key) = some value) : key < vars.size :=
  VariableStore.value?_lt ((follow.values key).trans valued)

theorem congr (follow : VariablesFollow view vars)
    (agree : ∀ key, other (.var key) = view (.var key)) : VariablesFollow other vars where
  queue := follow.queue
  watches := follow.watches
  values key := by rw [agree, follow.values]
  queued key := by rw [agree, follow.queued]
  marks key := by rw [agree, follow.marks]

theorem setValue (follow : VariablesFollow view vars) {key : VariableKey}
    (known : key < vars.size) (value : Value) :
    VariablesFollow (view.replace (.var key) (some value)) (vars.setValue key value) where
  queue := follow.queue.erase key
  watches := follow.watches.setMark key .falsified
  values other := by
    rw [VariableStore.value?_setValue, View.replace]
    by_cases same : key = other
    · subst same
      rw [if_pos ⟨rfl, known⟩, if_pos rfl]
    · rw [if_neg fun both => same both.1, if_neg fun equal => same (Atom.var.inj equal),
        follow.values]
  queued other := by
    show (vars.queue.erase key).contains other = true ↔ _
    rw [LazyQueue.contains_erase, follow.queued, ← VariableStore.length_signature,
      ← VariableStore.length_signature, VariableStore.signature_setValue, View.replace]
    by_cases same : key = other
    · simp [same]
    · rw [if_neg fun equal => same (Atom.var.inj equal)]
      simp [Ne.symm same]
  marks other := by
    show (vars.watches.setMark key .falsified).mark other = _
    rw [Watches.mark_setMark, follow.marks, View.replace]
    by_cases same : key = other
    · simp [same]
    · rw [if_neg same, if_neg fun equal => same (Atom.var.inj equal)]

theorem clearValue (follow : VariablesFollow view vars) {key : VariableKey}
    (known : key < vars.size) :
    VariablesFollow (view.replace (.var key) none) (vars.clearValue key) := by
  obtain ⟨entry, present⟩ : ∃ entry, vars.get? key = some entry :=
    ⟨vars.table[key], Array.getElem?_eq_getElem known⟩
  have opened := VariableStore.clearValue_of_known present
  have size : (vars.clearValue key).size = vars.size := by
    rw [← VariableStore.length_signature, VariableStore.signature_clearValue,
      VariableStore.length_signature]
  refine ⟨?_, ?_, ?_, ?_, ?_⟩
  · rw [opened]
    exact follow.queue.push key _
  · rw [opened]
    exact follow.watches.setMark key .undetermined
  · intro other
    rw [VariableStore.value?_clearValue, View.replace]
    by_cases same : key = other
    · rw [if_pos same, if_pos (congrArg Atom.var same)]
    · rw [if_neg same, if_neg fun equal => same (Atom.var.inj equal), follow.values]
  · intro other
    rw [size, opened, LazyQueue.contains_push, follow.queued, View.replace]
    by_cases same : key = other
    · subst same
      simp [known]
    · rw [if_neg fun equal => same (Atom.var.inj equal)]
      simp [Ne.symm same]
  · intro other
    rw [opened, Watches.mark_setMark, follow.marks, View.replace]
    by_cases same : key = other
    · simp [same]
    · rw [if_neg same, if_neg fun equal => same (Atom.var.inj equal)]

end VariablesFollow

namespace ClausesFollow

variable {view other : View} {clauses : ClauseStore} {atom : Atom}

theorem congr (follow : ClausesFollow view clauses)
    (agree : ∀ literal, other.literalTruth? literal = view.literalTruth? literal) :
    ClausesFollow other clauses where
  watches := follow.watches
  marks literal := by rw [agree, follow.marks]
  watched := follow.watched

theorem literalTruth?_replace (view : View) (atom : Atom) (value : Option Value)
    (literal : Literal) :
    (view.replace atom value).literalTruth? literal =
      if atom = literal.atom then (value.bind Value.truth?).map (· == literal.polarity)
      else view.literalTruth? literal := by
  unfold View.literalTruth? View.replace
  split <;> rfl

/-- A value that is not Boolean leaves the literals of its atom undetermined. -/
theorem replace_rational (follow : ClausesFollow view clauses) (unvalued : view atom = none)
    (number : Float) : ClausesFollow (view.replace atom (some (.rational number))) clauses := by
  refine follow.congr fun literal => ?_
  rw [literalTruth?_replace]
  split
  next same =>
    rw [View.literalTruth?, ← same, unvalued]
    rfl
  next => rfl

theorem clear_rational (follow : ClausesFollow view clauses) {number : Float}
    (valued : view atom = some (.rational number)) :
    ClausesFollow (view.replace atom none) clauses := by
  refine follow.congr fun literal => ?_
  rw [literalTruth?_replace]
  split
  next same =>
    rw [View.literalTruth?, ← same, valued]
    rfl
  next => rfl

private theorem literal_cases (literal : Literal) (atom : Atom) (truth : Bool) :
    literal = ⟨atom, truth⟩ ∨ literal = ⟨atom, !truth⟩ ∨ literal.atom ≠ atom := by
  obtain ⟨own, polarity⟩ := literal
  by_cases same : own = atom
  · subst same
    cases polarity <;> cases truth <;> simp
  · exact .inr (.inr same)

theorem assign (follow : ClausesFollow view clauses) (atom : Atom) (truth : Bool) :
    ClausesFollow (view.replace atom (some (.boolean truth))) (clauses.assign atom truth) where
  watches := (follow.watches.setMark _ _).setMark _ _
  marks literal := by
    show ((clauses.watches.setMark ⟨atom, truth⟩ .satisfied).setMark ⟨atom, !truth⟩
      .falsified).mark literal = _
    rw [Watches.mark_setMark, Watches.mark_setMark, follow.marks, literalTruth?_replace]
    rcases literal_cases literal atom truth with rfl | rfl | different
    · simp [Value.truth?, Mark.ofTruth]
    · simp [Value.truth?, Mark.ofTruth]
    · rw [if_neg (by rintro rfl; exact different rfl), if_neg (by rintro rfl; exact different rfl),
        if_neg (Ne.symm different)]
  watched key literals := by
    show ((clauses.watches.setMark ⟨atom, truth⟩ .satisfied).setMark ⟨atom, !truth⟩
      .falsified).Watching key literals ↔ _
    rw [Watches.watching_setMark (follow.watches.setMark _ _),
      Watches.watching_setMark follow.watches]
    exact follow.watched key literals

theorem unassign (follow : ClausesFollow view clauses) (atom : Atom) :
    ClausesFollow (view.replace atom none) (clauses.unassign atom) where
  watches := (follow.watches.setMark _ _).setMark _ _
  marks literal := by
    show ((clauses.watches.setMark ⟨atom, true⟩ .undetermined).setMark ⟨atom, false⟩
      .undetermined).mark literal = _
    rw [Watches.mark_setMark, Watches.mark_setMark, follow.marks, literalTruth?_replace]
    rcases literal_cases literal atom true with rfl | rfl | different
    · simp [Mark.ofTruth]
    · simp [Mark.ofTruth]
    · rw [if_neg (by rintro rfl; exact different rfl), if_neg (by rintro rfl; exact different rfl),
        if_neg (Ne.symm different)]
  watched key literals := by
    show ((clauses.watches.setMark ⟨atom, true⟩ .undetermined).setMark ⟨atom, false⟩
      .undetermined).Watching key literals ↔ _
    rw [Watches.watching_setMark (follow.watches.setMark _ _),
      Watches.watching_setMark follow.watches]
    exact follow.watched key literals

end ClausesFollow

/-! ## Giving and taking values -/

/-- The part of an assignment that values leave alone. -/
structure SameFormula (before after : Assignment) : Prop where
  signature : after.vars.signature = before.vars.signature
  keys : after.vars.keys = before.vars.keys
  clauses : after.clauses.clauses = before.clauses.clauses
  watching : ∀ owner members, after.vars.watches.Watching owner members ↔
    before.vars.watches.Watching owner members

namespace SameFormula

variable {first second third : Assignment}

theorem refl (assignment : Assignment) : SameFormula assignment assignment :=
  ⟨rfl, rfl, rfl, fun _ _ => Iff.rfl⟩

theorem trans (left : SameFormula first second) (right : SameFormula second third) :
    SameFormula first third where
  signature := right.signature.trans left.signature
  keys := right.keys.trans left.keys
  clauses := right.clauses.trans left.clauses
  watching owner members := (right.watching owner members).trans (left.watching owner members)

theorem size (same : SameFormula first second) : second.vars.size = first.vars.size := by
  rw [← VariableStore.length_signature, same.signature, VariableStore.length_signature]

end SameFormula

namespace Assignment

/-- Why an atom may not be given a value at a level: the trail refuses it, or the
atom is a variable that does not exist. -/
def setError? (assignment : Assignment) (atom : Atom) (level : Nat) : Option Abort :=
  match assignment.trail.recordError? atom level, atom with
  | some abort, _ => some abort
  | none, .var key => if assignment.vars.contains key then none else some .noSuchVariable
  | none, .theory _ => none

/-- What giving a value answers with where it is not refused. -/
def set (assignment : Assignment) (atom : Atom) (value : Value) (reason : Reason) (level : Nat) :
    Assignment where
  trail := assignment.trail.push atom value reason level
  vars :=
    match atom with
    | .var key => assignment.vars.setValue key value
    | .theory _ => assignment.vars
  clauses :=
    match value with
    | .boolean truth => assignment.clauses.assign atom truth
    | .rational _ => assignment.clauses

/-- What letting the stores follow a removal answers with where it is not refused. -/
def release (assignment : Assignment) (removed : Atom × Entry) : Assignment :=
  { assignment with
    vars :=
      match removed.1 with
      | .var key => assignment.vars.clearValue key
      | .theory _ => assignment.vars
    clauses :=
      match removed.2.value with
      | .boolean _ => assignment.clauses.unassign removed.1
      | .rational _ => assignment.clauses }

/-- What taking the values above a level answers with where no removal is refused. -/
def unsetAbove (assignment : Assignment) (level : Nat) : Assignment :=
  let (removed, trail) := assignment.trail.clearAbove level
  removed.foldl release { assignment with trail }

variable {assignment : Assignment} {atom : Atom} {value : Value} {reason : Reason} {level : Nat}

/-- A value is given unless there is a reason not to. -/
theorem assign_eq (assignment : Assignment) (atom : Atom) (value : Value) (reason : Reason)
    (level : Nat) : assignment.assign atom value reason level =
      match assignment.setError? atom level with
      | some abort => .error abort
      | none => .ok (assignment.set atom value reason level) := by
  unfold assign setError? Trail.record
  cases assignment.trail.recordError? atom level with
  | some abort => rfl
  | none =>
      cases atom with
      | theory key => rfl
      | var key =>
          unfold VariableStore.assign
          dsimp only
          cases assignment.vars.contains key <;> rfl

/-- A removal is refused exactly if the variable removed does not exist. -/
theorem unassign_eq (assignment : Assignment) (removed : Atom × Entry) :
    assignment.unassign removed =
      match removed.1 with
      | .var key =>
          if assignment.vars.contains key then .ok (assignment.release removed)
          else .error .noSuchVariable
      | .theory _ => .ok (assignment.release removed) := by
  obtain ⟨atom, entry⟩ := removed
  cases atom with
  | theory key => rfl
  | var key =>
      unfold unassign VariableStore.unassign
      dsimp only
      cases assignment.vars.contains key <;> rfl

theorem eq_release {removed : Atom × Entry} {after : Assignment}
    (taken : assignment.unassign removed = .ok after) : after = assignment.release removed := by
  rw [unassign_eq] at taken
  split at taken
  · split at taken <;> cases taken
    rfl
  · exact (Except.ok.inj taken).symm

theorem eq_foldl_release {removed : List (Atom × Entry)} {after : Assignment}
    (taken : removed.foldlM unassign assignment = .ok after) :
    after = removed.foldl release assignment := by
  induction removed generalizing assignment with
  | nil => exact (Except.ok.inj taken).symm
  | cons pair removed induction =>
      rw [List.foldlM_cons] at taken
      cases first : assignment.unassign pair with
      | error abort =>
          rw [first] at taken
          cases taken
      | ok middle =>
          rw [first] at taken
          obtain rfl := eq_release first
          exact induction taken

/-- Values are taken in no other way than the closed one. -/
theorem eq_unsetAbove {after : Assignment} (taken : assignment.unassignAbove level = .ok after) :
    after = assignment.unsetAbove level :=
  eq_foldl_release taken

/-- An assignment is accepted exactly if the atom has no value, the level is open
and the variable exists. -/
theorem setError?_eq_none : assignment.setError? atom level = none ↔
    level ≤ assignment.trail.level ∧ assignment.trail.get? atom = none ∧
      ∀ key, atom = .var key → key < assignment.vars.size := by
  rw [← and_assoc, ← Trail.recordError?_eq_none]
  unfold setError?
  cases assignment.trail.recordError? atom level with
  | some abort => simp
  | none =>
      cases atom with
      | theory key => simp
      | var key => simp [VariableStore.contains]

theorem sameFormula_set (assignment : Assignment) (coherent : assignment.Coherent) (atom : Atom)
    (value : Value) (reason : Reason) (level : Nat) :
    SameFormula assignment (assignment.set atom value reason level) := by
  have vars : (assignment.set atom value reason level).vars.signature = assignment.vars.signature ∧
      (assignment.set atom value reason level).vars.keys = assignment.vars.keys ∧
      ∀ owner members,
        (assignment.set atom value reason level).vars.watches.Watching owner members ↔
          assignment.vars.watches.Watching owner members := by
    cases atom with
    | theory key => exact ⟨rfl, rfl, fun _ _ => Iff.rfl⟩
    | var key =>
        exact ⟨VariableStore.signature_setValue _ _ _, rfl, fun _ _ =>
          Watches.watching_setMark coherent.vars.watches _ _⟩
  refine ⟨vars.1, vars.2.1, ?_, vars.2.2⟩
  cases value <;> rfl

theorem value?_set (assignment : Assignment) (atom : Atom) (value : Value) (reason : Reason)
    (level : Nat) :
    (assignment.set atom value reason level).trail.value? =
      View.replace assignment.trail.value? atom (some value) := by
  funext other
  show ((assignment.trail.push atom value reason level).get? other).map Entry.value = _
  rw [Trail.get?_push, View.replace]
  split <;> rfl

theorem Coherent.set (coherent : assignment.Coherent)
    (unvalued : assignment.trail.get? atom = none) (isOpen : level ≤ assignment.trail.level)
    (known : ∀ key, atom = .var key → key < assignment.vars.size) :
    (assignment.set atom value reason level).Coherent := by
  refine ⟨coherent.trail.push unvalued isOpen, ?_, ?_⟩
  · rw [value?_set]
    cases atom with
    | var key => exact coherent.vars.setValue (known key rfl) value
    | theory key => exact coherent.vars.congr fun other => if_neg (by rintro ⟨⟩)
  · rw [value?_set]
    cases value with
    | boolean truth => exact coherent.clauses.assign atom truth
    | rational number =>
        exact coherent.clauses.replace_rational (by rw [Trail.value?, unvalued]; rfl) number

theorem Coherent.openLevel (coherent : assignment.Coherent) :
    ({ assignment with trail := assignment.trail.openLevel } : Assignment).Coherent :=
  ⟨coherent.trail.openLevel, coherent.vars, coherent.clauses⟩

/-- What releasing one entry changes. -/
structure Released (view : View) (removed : Atom × Entry) (before after : Assignment) : Prop where
  trail : after.trail = before.trail
  formula : SameFormula before after
  vars : VariablesFollow (view.replace removed.1 none) after.vars
  clauses : ClausesFollow (view.replace removed.1 none) after.clauses

theorem release_spec {view : View} (vars : VariablesFollow view assignment.vars)
    (clauses : ClausesFollow view assignment.clauses) {removed : Atom × Entry}
    (agree : view removed.1 = some removed.2.value ∨ view removed.1 = none)
    (known : ∀ key, removed.1 = .var key → key < assignment.vars.size) :
    Released view removed assignment (assignment.release removed) := by
  obtain ⟨atom, entry⟩ := removed
  have variablePart : (assignment.release (atom, entry)).vars.signature =
        assignment.vars.signature ∧
      (assignment.release (atom, entry)).vars.keys = assignment.vars.keys ∧
      (∀ owner members, (assignment.release (atom, entry)).vars.watches.Watching owner members ↔
        assignment.vars.watches.Watching owner members) ∧
      VariablesFollow (view.replace atom none) (assignment.release (atom, entry)).vars := by
    cases atom with
    | theory key =>
        exact ⟨rfl, rfl, fun _ _ => Iff.rfl, vars.congr fun other => if_neg (by rintro ⟨⟩)⟩
    | var key =>
        exact ⟨VariableStore.signature_clearValue _ _, VariableStore.keys_clearValue _ _,
          fun _ _ => VariableStore.watching_clearValue vars.watches key,
          vars.clearValue (known key rfl)⟩
  have clausePart : (assignment.release (atom, entry)).clauses.clauses =
        assignment.clauses.clauses ∧
      ClausesFollow (view.replace atom none) (assignment.release (atom, entry)).clauses := by
    unfold release
    dsimp only at agree ⊢
    cases shape : entry.value with
    | boolean truth => exact ⟨rfl, clauses.unassign atom⟩
    | rational number =>
        rw [shape] at agree
        refine ⟨rfl, ?_⟩
        rcases agree with valued | unvalued
        · exact clauses.clear_rational valued
        · rw [view.replace_none unvalued]
          exact clauses
  obtain ⟨signature, keys, watching, followVars⟩ := variablePart
  exact ⟨rfl, ⟨signature, keys, clausePart.1, watching⟩, followVars, clausePart.2⟩

theorem releaseAll_spec {view : View} (vars : VariablesFollow view assignment.vars)
    (clauses : ClausesFollow view assignment.clauses) {removed : List (Atom × Entry)}
    (agree : ∀ pair ∈ removed, view pair.1 = some pair.2.value ∨ view pair.1 = none)
    (known : ∀ pair ∈ removed, ∀ key, pair.1 = .var key → key < assignment.vars.size) :
    (removed.foldl release assignment).trail = assignment.trail ∧
      SameFormula assignment (removed.foldl release assignment) ∧
      VariablesFollow (view.without (removed.map Prod.fst))
        (removed.foldl release assignment).vars ∧
      ClausesFollow (view.without (removed.map Prod.fst))
        (removed.foldl release assignment).clauses := by
  induction removed generalizing assignment view with
  | nil =>
      have unchanged : view.without [] = view := by
        funext atom
        exact if_neg List.not_mem_nil
      exact ⟨rfl, .refl _, unchanged ▸ vars, unchanged ▸ clauses⟩
  | cons pair removed induction =>
      have first := release_spec vars clauses (agree pair List.mem_cons_self)
        (known pair List.mem_cons_self)
      have agreeRest : ∀ other ∈ removed,
          view.replace pair.1 none other.1 = some other.2.value ∨
            view.replace pair.1 none other.1 = none := by
        intro other inside
        unfold View.replace
        split
        · exact .inr rfl
        · exact agree other (List.mem_cons_of_mem _ inside)
      obtain ⟨trail, formula, followVars, followClauses⟩ :=
        induction first.vars first.clauses agreeRest fun other inside key same =>
          first.formula.size ▸ known other (List.mem_cons_of_mem _ inside) key same
      have rest : (view.replace pair.1 none).without (removed.map Prod.fst) =
          view.without ((pair :: removed).map Prod.fst) := by
        funext atom
        simp only [View.without, View.replace, List.map_cons, List.mem_cons]
        by_cases same : atom = pair.1
        · rw [if_pos same.symm, ite_self, if_pos (Or.inl same)]
        · rw [if_neg (Ne.symm same)]
          simp only [same, false_or]
      rw [rest] at followVars followClauses
      exact ⟨trail.trans first.trail, first.formula.trans formula, followVars, followClauses⟩

/-- The trail after a retreat is the trail cut, and nothing of the formula is lost. -/
structure Retreated (before : Assignment) (level : Nat) (after : Assignment) : Prop where
  trail : after.trail = (before.trail.clearAbove level).2
  formula : SameFormula before after
  coherent : after.Coherent

/-- What is left after a cut are the values of the atoms that were not removed. -/
theorem value?_clearAbove {trail : Trail} (sound : trail.Sound) (level : Nat) :
    View.without trail.value? ((trail.clearAbove level).1.map Prod.fst) =
      (trail.clearAbove level).2.value? := by
  funext atom
  have removed : atom ∈ (trail.clearAbove level).1.map Prod.fst ↔
      ∃ entry, trail.get? atom = some entry ∧ level < entry.level := by
    rw [List.mem_map]
    constructor
    · rintro ⟨pair, inside, rfl⟩
      exact ⟨pair.2, sound.mem_removed.mp inside⟩
    · rintro ⟨entry, found, above⟩
      exact ⟨(atom, entry), sound.mem_removed.mpr ⟨found, above⟩, rfl⟩
  rw [View.without, Trail.value?, Trail.value?, sound.get?_clearAbove]
  by_cases taken : atom ∈ (trail.clearAbove level).1.map Prod.fst
  · obtain ⟨entry, found, above⟩ := removed.mp taken
    rw [if_pos taken, found, Option.filter_some, decide_eq_false (Nat.not_le.mpr above)]
    rfl
  · rw [if_neg taken]
    cases found : trail.get? atom with
    | none => rfl
    | some entry =>
        have below : entry.level ≤ level := by
          by_contra above
          exact taken (removed.mpr ⟨entry, found, Nat.not_le.mp above⟩)
        rw [Option.filter_some, decide_eq_true below]
        rfl

theorem Coherent.unsetAbove (coherent : assignment.Coherent) (level : Nat) :
    assignment.Retreated level (assignment.unsetAbove level) := by
  have valued : ∀ pair ∈ (assignment.trail.clearAbove level).1,
      assignment.trail.value? pair.1 = some pair.2.value :=
    fun pair inside =>
      Trail.value?_eq_some.mpr ⟨pair.2, (coherent.trail.mem_removed.mp inside).1, rfl⟩
  -- The trail is cut first, and the stores then give up what is on it no longer.
  obtain ⟨trail, formula, followVars, followClauses⟩ :=
    @releaseAll_spec { assignment with trail := (assignment.trail.clearAbove level).2 } _
      coherent.vars coherent.clauses _ (fun pair inside => .inl (valued pair inside))
      fun pair inside key same => coherent.vars.known (same ▸ valued pair inside)
  rw [value?_clearAbove coherent.trail] at followVars followClauses
  refine ⟨trail, ⟨formula.signature, formula.keys, formula.clauses, formula.watching⟩, ?_⟩
  refine ⟨?_, ?_, ?_⟩
  · rw [Assignment.unsetAbove, trail]
    exact coherent.trail.clearAbove level
  · rw [Assignment.unsetAbove, trail]
    exact followVars
  · rw [Assignment.unsetAbove, trail]
    exact followClauses

theorem size_release (assignment : Assignment) (removed : Atom × Entry) :
    (assignment.release removed).vars.size = assignment.vars.size := by
  obtain ⟨atom, entry⟩ := removed
  cases atom with
  | theory key => rfl
  | var key =>
      rw [← VariableStore.length_signature, ← VariableStore.length_signature]
      exact congrArg List.length (VariableStore.signature_clearValue _ _)

/-- Removals of variables that exist are never refused. -/
theorem foldlM_unassign {removed : List (Atom × Entry)}
    (known : ∀ pair ∈ removed, ∀ key, pair.1 = .var key → key < assignment.vars.size) :
    removed.foldlM unassign assignment = .ok (removed.foldl release assignment) := by
  induction removed generalizing assignment with
  | nil => rfl
  | cons pair removed induction =>
      have first : assignment.unassign pair = .ok (assignment.release pair) := by
        have registered := known pair List.mem_cons_self
        rw [unassign_eq]
        split
        · next key shape => exact if_pos (decide_eq_true (registered key shape))
        · rfl
      rw [List.foldlM_cons, first]
      exact induction fun other inside key shape =>
        (size_release assignment pair).symm ▸ known other (List.mem_cons_of_mem _ inside) key shape

/-- The variable of every entry of a coherent assignment exists, so values can
always be taken. -/
theorem Coherent.unassignAbove (coherent : assignment.Coherent) (level : Nat) :
    assignment.unassignAbove level = .ok (assignment.unsetAbove level) :=
  foldlM_unassign fun _ inside _ shape =>
    coherent.vars.known (Trail.value?_eq_some.mpr
      ⟨_, shape ▸ (coherent.trail.mem_removed.mp inside).1, rfl⟩)

end Assignment

end ModelSearch
