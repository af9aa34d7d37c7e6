import ModelSearch.Proofs.Steps.Basic

/-!
# Clauses as canonical sets

A clause is its literals in ascending order, each once, so the members alone decide
it.  Nothing lies between a literal and its negation, so a clause with both has them
as neighbours, and a search by halving finds every member.

A resolvent has the members of both clauses but the pivot and its negation.  It
follows from the two clauses when neither holds what the other is resolved on.
-/

namespace ModelSearch

namespace Literal

variable {literal : Literal} {literals : List Literal}

/-- Strictly ascending, so each literal stands once. -/
abbrev Ascending (literals : List Literal) : Prop :=
  literals.Pairwise fun left right => compare left right = .lt

/-- The list with equal neighbours kept once. -/
def dropRepeats : List Literal → List Literal
  | first :: second :: rest =>
      if first = second then dropRepeats (second :: rest)
      else first :: dropRepeats (second :: rest)
  | short => short

theorem mem_dropRepeats : literal ∈ dropRepeats literals ↔ literal ∈ literals := by
  fun_induction dropRepeats literals with
  | case1 second rest induction => simp [induction]
  | case2 first second rest different induction => simp [induction]
  | case3 short => rfl

theorem dropRepeats_ascending
    (sorted : literals.Pairwise fun left right => (compare left right).isLE = true) :
    Ascending (dropRepeats literals) := by
  fun_induction dropRepeats literals with
  | case1 second rest induction => exact induction sorted.tail
  | case2 first second rest different induction =>
      refine List.pairwise_cons.mpr ⟨fun later member => ?_, induction sorted.tail⟩
      have below : compare first second = .lt := by
        have least := List.rel_of_pairwise_cons sorted (List.mem_cons_self ..)
        have unequal := mt Std.LawfulEqOrd.eq_of_compare different
        cases order : compare first second <;> simp_all
      have within := mem_dropRepeats.mp member
      rcases List.mem_cons.mp within with rfl | beyond
      · exact below
      · exact Std.TransCmp.lt_of_lt_of_isLE below
          (List.rel_of_pairwise_cons sorted.tail beyond)
  | case3 short atMostOne =>
      match short with
      | [] => exact .nil
      | [_] => exact List.pairwise_singleton ..
      | first :: second :: rest => exact (atMostOne first second rest rfl).elim

theorem mem_sort : literal ∈ sort literals ↔ literal ∈ literals :=
  (List.mergeSort_perm literals _).mem_iff

theorem sort_ascending (literals : List Literal) :
    (sort literals).Pairwise fun left right => (compare left right).isLE = true := by
  refine List.pairwise_mergeSort (fun _ _ _ => Std.TransCmp.isLE_trans) ?_ literals
  intro first second
  have flipped : compare second first = (compare first second).swap := Std.OrientedCmp.eq_swap
  rw [flipped]
  cases compare first second <;> rfl

theorem ne_of_lt {left right : Literal} (below : compare left right = .lt) :
    left ≠ right := by
  rintro rfl
  exact Std.OrientedCmp.not_lt_of_lt below below

/-- Ascending lists with the same members are the same list. -/
theorem Ascending.unique {left right : List Literal} (sorted : Ascending left)
    (sortedToo : Ascending right) (same : ∀ literal, literal ∈ left ↔ literal ∈ right) :
    left = right := by
  have distinct {literals : List Literal} (sorted : Ascending literals) : literals.Nodup :=
    sorted.imp ne_of_lt
  refine List.Perm.eq_of_pairwise (fun first second _ _ below above => ?_) sorted sortedToo
    ((List.perm_ext_iff_of_nodup (distinct sorted) (distinct sortedToo)).mpr same)
  exact (Std.OrientedCmp.not_lt_of_lt below above).elim

/-- Beyond the middle of an ascending list only the upper part can hold a literal. -/
theorem Ascending.mem_above {lower above : List Literal} {middle : Literal}
    (sorted : Ascending (lower ++ middle :: above)) (beyond : compare middle literal = .lt) :
    literal ∈ lower ++ middle :: above ↔ literal ∈ above := by
  obtain ⟨-, -, ordered⟩ := List.pairwise_append.mp sorted
  have absent : literal ∉ lower := fun member =>
    ne_of_lt (Std.TransCmp.lt_trans (ordered _ member _ List.mem_cons_self) beyond) rfl
  simp [absent, (ne_of_lt beyond).symm]

theorem Ascending.mem_lower {lower above : List Literal} {middle : Literal}
    (sorted : Ascending (lower ++ middle :: above)) (below : compare literal middle = .lt) :
    literal ∈ lower ++ middle :: above ↔ literal ∈ lower := by
  obtain ⟨-, upper, -⟩ := List.pairwise_append.mp sorted
  have absent : literal ∉ above := fun member =>
    ne_of_lt (Std.TransCmp.lt_trans below (List.rel_of_pairwise_cons upper member)) rfl
  simp [absent, ne_of_lt below]

theorem negative_lt_positive (atom : Atom) :
    compare (⟨atom, false⟩ : Literal) ⟨atom, true⟩ = .lt := by
  have same : compare atom atom = .eq := Std.ReflCmp.compare_self
  exact (congrArg (Ordering.then · .lt) same)

/-- No literal lies between a negative literal and its negation. -/
theorem not_between {atom : Atom} (above : compare ⟨atom, false⟩ literal = .lt)
    (below : compare literal ⟨atom, true⟩ = .lt) : False := by
  obtain ⟨other, polarity⟩ := literal
  replace above : (compare atom other).then (compare false polarity) = .lt := above
  replace below : (compare other atom).then (compare polarity true) = .lt := below
  have flipped : compare other atom = (compare atom other).swap := Std.OrientedCmp.eq_swap
  rw [flipped] at below
  cases order : compare atom other <;> rw [order] at above below
  case lt => cases below
  case eq => cases polarity <;> contradiction
  case gt => cases above

end Literal

namespace Clause

open Literal (Ascending)

variable {literal : Literal} {literals : List Literal}

theorem binarySearch_iff (sorted : Ascending literals) :
    binarySearch literal literals = true ↔ literal ∈ literals := by
  have halves (literals : List Literal) {middle : Literal} {above : List Literal}
      (halved : literals.drop (literals.length / 2) = middle :: above) :
      literals.take (literals.length / 2) ++ middle :: above = literals := by
    rw [← halved, List.take_append_drop]
  fun_induction binarySearch literal literals with
  | case1 literals halved =>
      have short : literals.length ≤ literals.length / 2 := List.drop_eq_nil_iff.mp halved
      have bare : literals = [] := List.length_eq_zero_iff.mp (by omega)
      simp [bare]
  | case2 literals middle above halved same =>
      have found : middle = literal := Std.LawfulEqOrd.eq_of_compare same
      rw [← halves literals halved, found]
      simp
  | case3 literals middle above halved beyond induction =>
      have parts := halves literals halved
      rw [← parts] at sorted
      have upper := (List.pairwise_append.mp sorted).2.1
      have member := sorted.mem_above beyond
      rw [parts] at member
      exact (induction upper.tail).trans member.symm
  | case4 literals middle above halved beyond induction =>
      have parts := halves literals halved
      rw [← parts] at sorted
      have lower := (List.pairwise_append.mp sorted).1
      have member := sorted.mem_lower (Std.OrientedCmp.gt_iff_lt.mp beyond)
      rw [parts] at member
      exact (induction lower).trans member.symm

/-- In an ascending list a literal and its negation are neighbours: what follows the
negative one comes no later than the positive one. -/
theorem hasComplementaryNeighbours_iff (sorted : Ascending literals) :
    hasComplementaryNeighbours literals = true ↔
      ∃ atom, ⟨atom, true⟩ ∈ literals ∧ ⟨atom, false⟩ ∈ literals := by
  fun_induction hasComplementaryNeighbours literals with
  | case1 first second rest induction =>
      rw [Bool.or_eq_true, induction sorted.tail, Literal.isComplement_iff]
      constructor
      · rintro (negation | ⟨atom, positive, negative⟩)
        · subst negation
          obtain ⟨atom, polarity⟩ := first
          cases polarity <;> exact ⟨atom, by simp [Literal.negate]⟩
        · exact ⟨atom, List.mem_cons_of_mem _ positive, List.mem_cons_of_mem _ negative⟩
      · rintro ⟨atom, positive, negative⟩
        have least := (List.pairwise_cons.mp sorted).1
        rcases List.mem_cons.mp negative with leading | later
        · left
          subst leading
          have differ : (⟨atom, true⟩ : Literal) ≠ ⟨atom, false⟩ := by simp
          have next := List.mem_of_ne_of_mem differ positive
          rcases List.mem_cons.mp next with adjacent | beyond
          · exact adjacent.symm
          · exact (Literal.not_between (least _ List.mem_cons_self)
              (List.rel_of_pairwise_cons sorted.tail beyond)).elim
        · right
          refine ⟨atom, List.mem_of_ne_of_mem ?_ positive, later⟩
          rintro rfl
          exact Std.OrientedCmp.not_lt_of_lt (Literal.negative_lt_positive atom) (least _ later)
  | case2 short atMostOne =>
      refine iff_of_false Bool.false_ne_true ?_
      rintro ⟨atom, positive, negative⟩
      cases short with
      | nil => cases positive
      | cons only rest =>
          cases rest with
          | nil =>
              rw [List.mem_singleton] at positive negative
              cases positive.trans negative.symm
          | cons second rest => exact atMostOne only second rest rfl

theorem ofList_eq_iff {left right : List Literal} :
    ofList left = ofList right ↔ ∀ literal, literal ∈ left ↔ literal ∈ right := by
  constructor
  · intro same literal
    rw [← mem_ofList, same, mem_ofList]
  · intro same
    have lists : (ofList left).literals = (ofList right).literals :=
      Ascending.unique (ofList left).ascending (ofList right).ascending fun literal =>
        mem_ofList.trans ((same literal).trans mem_ofList.symm)
    rw [Clause.mk.injEq]
    exact lists

/-- The members of a list are sorted, and the repetitions dropped. -/
theorem ofList_literals (literals : List Literal) :
    (ofList literals).literals = Literal.dropRepeats (Literal.sort literals) :=
  Ascending.unique (ofList literals).ascending
    (Literal.dropRepeats_ascending (Literal.sort_ascending literals)) fun _ =>
      mem_ofList.trans (Literal.mem_dropRepeats.trans Literal.mem_sort).symm

theorem contains_iff {clause : Clause} : clause.contains literal = true ↔ literal ∈ clause :=
  binarySearch_iff clause.ascending

theorem isTautology_iff {clause : Clause} :
    clause.isTautology = true ↔ ∃ atom, ⟨atom, true⟩ ∈ clause ∧ ⟨atom, false⟩ ∈ clause :=
  hasComplementaryNeighbours_iff clause.ascending

theorem resolve_comm (left right : Clause) (pivot : Literal) :
    left.resolve right pivot = right.resolve left pivot :=
  ofList_eq_iff.mpr fun literal => by simp [or_comm]

theorem resolve_negate (left right : Clause) (pivot : Literal) :
    left.resolve right (-pivot) = left.resolve right pivot := by
  have twice : -(-pivot) = pivot := pivot.negate_negate
  refine ofList_eq_iff.mpr fun literal => ?_
  simp only [twice, Bool.and_comm]

/-- If the pivot is true, the right clause has a true literal other than its negation,
and else the left clause has one other than the pivot. -/
theorem Holds.resolve {truth : Atom → Option Bool} {left right : Clause} {pivot : Literal}
    (holds : left.Holds truth) (holdsToo : right.Holds truth) (oneSided : pivot ∉ right)
    (otherSided : -pivot ∉ left) : (left.resolve right pivot).Holds truth := by
  by_cases met : truth pivot.atom = some pivot.polarity
  · obtain ⟨literal, member, fulfilled⟩ := holdsToo
    refine ⟨literal, mem_resolve.mpr ⟨.inr member, ?_, ?_⟩, fulfilled⟩
    · rintro rfl
      exact oneSided member
    · rintro rfl
      have clash : (!pivot.polarity) = pivot.polarity :=
        Option.some.inj (fulfilled.symm.trans met)
      simp at clash
  · obtain ⟨literal, member, fulfilled⟩ := holds
    refine ⟨literal, mem_resolve.mpr ⟨.inl member, ?_, ?_⟩, fulfilled⟩
    · rintro rfl
      exact met fulfilled
    · rintro rfl
      exact otherSided member

/-- Clauses are canonical sets: they are sorted without repetitions, decided by their
members, searched and tested for tautology as sets, and resolved as sets, soundly if
each of the pivot and its negation is in one clause only. -/
theorem canonical_sets (left right : List Literal) (pivot : Literal) :
    (ofList left).literals = Literal.dropRepeats (Literal.sort left) ∧
    (ofList left = ofList right ↔ ∀ literal, literal ∈ left ↔ literal ∈ right) ∧
    (∀ literal, (ofList left).contains literal = true ↔ literal ∈ left) ∧
    ((ofList left).isTautology = true ↔ ∃ atom, ⟨atom, true⟩ ∈ left ∧ ⟨atom, false⟩ ∈ left) ∧
    (∀ literal, literal ∈ (ofList left).resolve (ofList right) pivot ↔
      (literal ∈ left ∨ literal ∈ right) ∧ literal ≠ pivot ∧ literal ≠ -pivot) ∧
    (ofList left).resolve (ofList right) pivot = (ofList right).resolve (ofList left) pivot ∧
    (ofList left).resolve (ofList right) pivot = (ofList left).resolve (ofList right) (-pivot) ∧
    (pivot ∈ left → pivot ∉ right → -pivot ∈ right → -pivot ∉ left →
      ∀ truth, (ofList left).Holds truth → (ofList right).Holds truth →
        ((ofList left).resolve (ofList right) pivot).Holds truth) := by
  refine ⟨ofList_literals left, ofList_eq_iff, fun literal => contains_iff.trans mem_ofList,
    ?_, fun literal => ?_, resolve_comm _ _ _, (resolve_negate _ _ _).symm, ?_⟩
  · simp only [isTautology_iff, mem_ofList]
  · simp only [mem_resolve, mem_ofList]
  · intro _ oneSided _ otherSided truth holds holdsToo
    exact holds.resolve holdsToo (mt mem_ofList.mp oneSided) (mt mem_ofList.mp otherSided)

/-- Clauses that share a literal besides the one they clash on. -/
theorem canonical_sets_shared :
    let left : List Literal := [⟨.var 1, true⟩, ⟨.var 0, true⟩, ⟨.var 1, true⟩]
    let right : List Literal := [⟨.var 0, false⟩, ⟨.theory 0, true⟩, ⟨.var 1, true⟩]
    (ofList left).resolve (ofList right) ⟨.var 0, true⟩ =
        ofList [⟨.var 1, true⟩, ⟨.theory 0, true⟩] ∧
      ((ofList left).resolve (ofList right) ⟨.var 0, true⟩).Holds
        fun atom => some (atom = .var 1) := by
  intro left right
  refine ⟨by decide +kernel, ?_⟩
  obtain ⟨-, -, -, -, -, -, -, sound⟩ := canonical_sets left right ⟨.var 0, true⟩
  refine sound (by decide) (by decide) (by decide) (by decide) _ ?_ ?_
  · exact ⟨⟨.var 1, true⟩, mem_ofList.mpr (by decide), rfl⟩
  · exact ⟨⟨.var 0, false⟩, mem_ofList.mpr (by decide), rfl⟩

end Clause

end ModelSearch
