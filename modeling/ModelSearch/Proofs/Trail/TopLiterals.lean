import ModelSearch.Proofs.Trail.Views
import ModelSearch.Solver.Explain

/-!
# Top literals and the order of entries

Entries are ordered by level and then by position.  The top literals of a clause
are those at its greatest level, and its latest implied literal is the greatest
of those that follow from a clause.  The rank of an entry counts the entries
before it, so ranks bound the length of a chain of reasons.
-/

namespace ModelSearch

namespace Entry

/-- The entry is at a lower level, or was made earlier at the same level. -/
def Before (left right : Entry) : Prop :=
  left.level < right.level ∨ left.level = right.level ∧ left.position < right.position

instance (left right : Entry) : Decidable (left.Before right) :=
  inferInstanceAs (Decidable (_ ∨ _))

theorem Before.trans {first second third : Entry} (left : first.Before second)
    (right : second.Before third) : first.Before third := by
  unfold Before at left right ⊢
  omega

theorem Before.irrefl (entry : Entry) : ¬entry.Before entry := by
  unfold Before
  omega

theorem not_before {left right : Entry} :
    ¬right.Before left ↔ left.level < right.level ∨
      left.level = right.level ∧ left.position ≤ right.position := by
  unfold Before
  omega

end Entry

theorem Clause.isEmpty_of_mem {clause : Clause} {literal : Literal} (member : literal ∈ clause) :
    clause.isEmpty = false := by
  have inside : literal ∈ clause.literals := member
  cases shape : clause.literals with
  | nil => simp [shape] at inside
  | cons first rest => simp [Clause.isEmpty, shape]

namespace Trail

variable {trail : Trail} {clause : Clause}

/-! ## Top literals -/

/-- The top literals are the literals at the greatest level of the clause. -/
structure Tops (trail : Trail) (clause : Clause) (top : TopLiterals) : Prop where
  attained : ∃ literal ∈ clause, trail.level? literal.atom = some top.level
  bounded : ∀ literal ∈ clause, ∀ level, trail.level? literal.atom = some level →
    level ≤ top.level
  literals : top.literals = clause.literals.filter fun literal =>
    trail.level? literal.atom == some top.level

theorem Tops.mem {top : TopLiterals} (tops : trail.Tops clause top) {literal : Literal} :
    literal ∈ top.literals ↔ literal ∈ clause ∧ trail.level? literal.atom = some top.level := by
  rw [tops.literals, List.mem_filter, beq_iff_eq]
  rfl

theorem Tops.nodup {top : TopLiterals} (tops : trail.Tops clause top) : top.literals.Nodup := by
  rw [tops.literals]
  refine List.Nodup.filter _ (clause.ascending.imp ?_)
  intro left right below same
  subst same
  simp at below

/-- Unless there is one top literal, there are two. -/
theorem Tops.another {top : TopLiterals} (tops : trail.Tops clause top)
    (several : top.literals.length ≠ 1) {literal : Literal} (inside : literal ∈ top.literals) :
    ∃ other ∈ top.literals, other ≠ literal := by
  by_contra alone
  push Not at alone
  have once := tops.nodup
  rw [List.eq_replicate_of_mem alone, List.nodup_replicate] at once
  have some := List.length_pos_of_mem inside
  omega

private theorem mapM_level {literals : List Literal}
    (valued : ∀ literal ∈ literals, ∃ level, trail.level? literal.atom = some level) :
    literals.mapM (fun literal => trail.level? literal.atom) =
      some (literals.map fun literal => (trail.level? literal.atom).getD 0) := by
  induction literals with
  | nil => rfl
  | cons literal literals induction =>
      obtain ⟨level, found⟩ := valued literal List.mem_cons_self
      have rest := induction fun other inside => valued other (List.mem_cons_of_mem _ inside)
      rw [List.mapM_cons, found, rest]
      simp [found]

theorem foldl_max_spec (numbers : List Nat) (start : Nat) :
    (numbers.foldl max start = start ∨ numbers.foldl max start ∈ numbers) ∧
      start ≤ numbers.foldl max start ∧ ∀ number ∈ numbers, number ≤ numbers.foldl max start := by
  induction numbers generalizing start with
  | nil => simp
  | cons number numbers induction =>
      obtain ⟨attained, above, all⟩ := induction (max start number)
      rw [List.foldl_cons]
      refine ⟨?_, Nat.le_trans (Nat.le_max_left _ _) above, ?_⟩
      · rcases attained with same | inside
        · rcases Nat.le_total start number with below | below
          · rw [same, Nat.max_eq_right below]
            exact .inr List.mem_cons_self
          · rw [same, Nat.max_eq_left below]
            exact .inl rfl
        · exact .inr (List.mem_cons_of_mem _ inside)
      · intro other inside
        rcases List.mem_cons.mp inside with rfl | inside
        · exact Nat.le_trans (Nat.le_max_right _ _) above
        · exact all other inside

private theorem foldl_max_mem {numbers : List Nat} (nonempty : numbers ≠ []) :
    numbers.foldl max 0 ∈ numbers := by
  obtain ⟨attained, _, bounded⟩ := foldl_max_spec numbers 0
  rcases attained with zero | inside
  · -- The maximum is zero, so every number is.
    obtain ⟨number, inside⟩ := List.exists_mem_of_ne_nil numbers nonempty
    have below := bounded number inside
    rw [zero] at below ⊢
    rwa [Nat.le_zero.mp below] at inside
  · exact inside

/-- A clause that is not empty and whose literals have values has top literals. -/
theorem topLiterals_spec (nonempty : clause.isEmpty = false)
    (valued : ∀ literal ∈ clause, ∃ level, trail.level? literal.atom = some level) :
    ∃ top, trail.topLiterals clause = .ok top ∧ trail.Tops clause top := by
  obtain ⟨levels, listed⟩ : ∃ levels, levels =
      clause.literals.map fun literal => (trail.level? literal.atom).getD 0 := ⟨_, rfl⟩
  have collected : (clause.literals.mapM fun literal => trail.level? literal.atom) = some levels :=
    listed ▸ mapM_level valued
  have some : levels ≠ [] := by
    rintro rfl
    rw [Clause.isEmpty, List.map_eq_nil_iff.mp listed.symm] at nonempty
    cases nonempty
  have answer : trail.topLiterals clause = .ok ⟨levels.foldl max 0,
      clause.literals.filter fun literal =>
        trail.level? literal.atom == .some (levels.foldl max 0)⟩ := by
    rw [topLiterals, collected]
    cases levels with
    | nil => exact absurd rfl some
    | cons level rest => rfl
  refine ⟨_, answer, ?_, ?_, rfl⟩
  · have greatest := (congrArg (levels.foldl max 0 ∈ ·) listed).mp (foldl_max_mem some)
    obtain ⟨literal, member, same⟩ := List.mem_map.mp greatest
    obtain ⟨own, levelled⟩ := valued literal member
    refine ⟨literal, member, ?_⟩
    rw [levelled] at same ⊢
    exact congrArg Option.some same
  · intro literal member own levelled
    refine (foldl_max_spec levels 0).2.2 own ?_
    rw [listed]
    exact List.mem_map.mpr ⟨literal, member, by rw [levelled]; rfl⟩

/-! ## The latest implied literal -/

theorem mem_implied {literal : Literal} {entry : Entry} {key : ClauseKey} :
    (literal, entry, key) ∈ trail.implied clause ↔ literal ∈ clause ∧
      trail.get? literal.atom = some entry ∧ entry.reason = .clause key := by
  unfold implied
  rw [List.mem_filterMap]
  constructor
  · rintro ⟨other, member, produced⟩
    cases found : trail.get? other.atom with
    | none => simp [found] at produced
    | some otherEntry =>
        cases reason : otherEntry.reason with
        | decided => simp [found, reason] at produced
        | semantic => simp [found, reason] at produced
        | clause otherKey =>
            simp only [found, reason, Option.some.injEq, Prod.mk.injEq] at produced
            obtain ⟨rfl, rfl, rfl⟩ := produced
            exact ⟨member, found, reason⟩
  · rintro ⟨member, found, reason⟩
    exact ⟨literal, member, by simp [found, reason]⟩

/-- The later of two candidates, as chosen while the literals are listed. -/
private def later (best : Option (Literal × Entry × ClauseKey))
    (candidate : Literal × Entry × ClauseKey) : Option (Literal × Entry × ClauseKey) :=
  match best with
  | none => some candidate
  | some former =>
      if former.2.1.level < candidate.2.1.level ∨
          (former.2.1.level = candidate.2.1.level ∧
            former.2.1.position ≤ candidate.2.1.position) then
        some candidate
      else some former

private theorem later_some (former candidate : Literal × Entry × ClauseKey) :
    ∃ best, later (some former) candidate = some best ∧ (best = former ∨ best = candidate) ∧
      ¬best.2.1.Before former.2.1 ∧ ¬best.2.1.Before candidate.2.1 := by
  unfold later
  dsimp only
  split
  · next after => exact ⟨_, rfl, .inr rfl, Entry.not_before.mpr after, Entry.Before.irrefl _⟩
  · next after =>
      refine ⟨_, rfl, .inl rfl, Entry.Before.irrefl _, ?_⟩
      unfold Entry.Before
      omega

private theorem foldl_later (candidates : List (Literal × Entry × ClauseKey))
    (former : Literal × Entry × ClauseKey) :
    ∃ best, candidates.foldl later (some former) = some best ∧
      best ∈ former :: candidates ∧
      ∀ candidate ∈ former :: candidates, ¬best.2.1.Before candidate.2.1 := by
  induction candidates generalizing former with
  | nil => exact ⟨former, rfl, List.mem_cons_self, by simp [Entry.Before.irrefl]⟩
  | cons candidate candidates induction =>
      obtain ⟨chosen, choice, origin, notFormer, notCandidate⟩ := later_some former candidate
      obtain ⟨best, result, member, latest⟩ := induction chosen
      refine ⟨best, by rw [List.foldl_cons, choice, result], ?_, ?_⟩
      · rcases List.mem_cons.mp member with rfl | member
        · rcases origin with rfl | rfl <;> simp
        · exact List.mem_cons_of_mem _ (List.mem_cons_of_mem _ member)
      · have notChosen := latest chosen List.mem_cons_self
        have chain : ∀ other : Entry, ¬chosen.2.1.Before other → ¬best.2.1.Before other := by
          intro other below before
          unfold Entry.Before at *
          omega
        intro other inside
        rcases List.mem_cons.mp inside with rfl | inside
        · exact chain _ notFormer
        · rcases List.mem_cons.mp inside with rfl | inside
          · exact chain _ notCandidate
          · exact latest other (List.mem_cons_of_mem _ inside)

theorem latestImplied?_eq_none (none : trail.latestImplied? clause = none) :
    ∀ literal ∈ clause, ∀ entry, trail.get? literal.atom = some entry →
      ∀ key, entry.reason ≠ .clause key := by
  have bare : trail.implied clause = [] := by
    cases shape : trail.implied clause with
    | nil => rfl
    | cons former candidates =>
        obtain ⟨best, result, _⟩ := foldl_later candidates former
        have answer : ((trail.implied clause).foldl later Option.none) = some best := by
          rw [shape]
          exact result
        have image : (((trail.implied clause).foldl later Option.none).map
          fun best => (best.1, best.2.2)) = Option.none := none
        rw [answer] at image
        cases image
  intro literal member entry found key reason
  have inside := mem_implied.mpr ⟨member, found, reason⟩
  rw [bare] at inside
  exact List.not_mem_nil inside

theorem latestImplied?_eq_some {literal : Literal} {key : ClauseKey}
    (some : trail.latestImplied? clause = some (literal, key)) :
    literal ∈ clause ∧ ∃ entry, trail.get? literal.atom = .some entry ∧
      entry.reason = .clause key ∧
      ∀ other ∈ clause, ∀ otherEntry, trail.get? other.atom = .some otherEntry →
        ∀ otherKey, otherEntry.reason = .clause otherKey → ¬entry.Before otherEntry := by
  have image : (((trail.implied clause).foldl later Option.none).map
    fun best => (best.1, best.2.2)) = .some (literal, key) := some
  cases shape : trail.implied clause with
  | nil =>
      rw [shape] at image
      cases image
  | cons former candidates =>
      obtain ⟨best, result, member, latest⟩ := foldl_later candidates former
      have answer : ((trail.implied clause).foldl later Option.none) = .some best := by
        rw [shape]
        exact result
      rw [answer] at image
      obtain ⟨bestLiteral, entry, bestKey⟩ := best
      obtain ⟨rfl, rfl⟩ := Prod.mk.inj (Option.some.inj image)
      rw [← shape] at member latest
      obtain ⟨inside, found, reason⟩ := mem_implied.mp member
      refine ⟨inside, entry, found, reason, ?_⟩
      intro other otherMember otherEntry otherFound otherKey otherReason
      exact latest _ (mem_implied.mpr ⟨otherMember, otherFound, otherReason⟩)

/-! ## Ranks -/

/-- The number of entries before the entry. -/
def rank (trail : Trail) (entry : Entry) : Nat :=
  trail.entries.toList.countP fun pair => pair.2.Before entry

private theorem countP_lt {α : Type} {left right : α → Bool} {items : List α} {item : α}
    (weaker : ∀ item ∈ items, left item = true → right item = true) (inside : item ∈ items)
    (gained : right item = true) (lacked : left item = false) :
    items.countP left < items.countP right := by
  induction items with
  | nil => cases inside
  | cons head items induction =>
      have weakerRest : ∀ item ∈ items, left item = true → right item = true :=
        fun other member => weaker other (List.mem_cons_of_mem _ member)
      have below := List.countP_mono_left weakerRest
      rw [List.countP_cons, List.countP_cons]
      rcases List.mem_cons.mp inside with rfl | inside
      · rw [gained, lacked]
        simp only [Bool.false_eq_true, if_false, if_true]
        omega
      · have strict := induction weakerRest inside
        have head := weaker head List.mem_cons_self
        split <;> split <;> first | omega | simp_all

theorem rank_lt_rank {left right : Entry} {atom : Atom} (found : trail.get? atom = some left)
    (before : left.Before right) : trail.rank left < trail.rank right := by
  have inside : (atom, left) ∈ trail.entries.toList :=
    Std.TreeMap.mem_toList_iff_getElem?_eq_some.mpr found
  refine countP_lt ?_ inside (decide_eq_true before) (decide_eq_false (Entry.Before.irrefl left))
  intro pair _ earlier
  exact decide_eq_true ((of_decide_eq_true earlier).trans before)

theorem rank_lt_size {entry : Entry} {atom : Atom} (found : trail.get? atom = some entry) :
    trail.rank entry < trail.size := by
  have inside : (atom, entry) ∈ trail.entries.toList :=
    Std.TreeMap.mem_toList_iff_getElem?_eq_some.mpr found
  have all : trail.entries.toList.countP (fun _ => true) = trail.size := by
    rw [List.countP_true, Std.TreeMap.length_toList]
    rfl
  rw [← all]
  exact countP_lt (fun _ _ _ => rfl) inside rfl (decide_eq_false (Entry.Before.irrefl entry))

end Trail

end ModelSearch
