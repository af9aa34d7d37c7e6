import ModelSearch.Proofs.Dimacs.Layouts

/-!
# What a document says

The integers of a document fall into clauses, each ended by a zero, and those of a last one
that is not ended.  They also settle in which order variables are added: those that the
heading declares, and then each other one where it occurs first.

Both are followed integer by integer, as a document is loaded in this way.
-/

namespace ModelSearch.Dimacs

variable {numbers : List Int} {clauses : List (List Int)} {rest : List Int}

/-! ## Clauses -/

/-- The integers are those of the clauses, each ended by a zero, and then those of a clause
that is not ended. -/
structure Reads (numbers : List Int) (clauses : List (List Int)) (rest : List Int) : Prop where
  shape : numbers = numbersOf clauses ++ rest
  nonzero : ∀ clause ∈ clauses, 0 ∉ clause
  unfinished : 0 ∉ rest

theorem reads_numbersOf (nonzero : ∀ clause ∈ clauses, 0 ∉ clause) :
    Reads (numbersOf clauses) clauses [] where
  shape := (List.append_nil _).symm
  nonzero := nonzero
  unfinished := List.not_mem_nil

theorem Reads.snoc (reads : Reads numbers clauses rest) {number : Int} (nonzero : number ≠ 0) :
    Reads (numbers ++ [number]) clauses (rest ++ [number]) where
  shape := by rw [reads.shape, List.append_assoc]
  nonzero := reads.nonzero
  unfinished := by simp [reads.unfinished, Ne.symm nonzero]

theorem Reads.finish (reads : Reads numbers clauses rest) :
    Reads (numbers ++ [0]) (clauses ++ [rest]) [] where
  shape := by simp [reads.shape, numbersOf]
  nonzero := by
    intro clause member
    rcases List.mem_append.mp member with former | last
    · exact reads.nonzero clause former
    · rw [List.mem_singleton.mp last]
      exact reads.unfinished
  unfinished := List.not_mem_nil

theorem mem_numbersOf {number : Int} (nonzero : number ≠ 0) :
    number ∈ numbersOf clauses ↔ ∃ clause ∈ clauses, number ∈ clause := by
  simp [numbersOf, nonzero]

private theorem takeWhile_front {front : List Int} (nonzero : 0 ∉ front) (back : List Int) :
    (front ++ 0 :: back).takeWhile (· ≠ 0) = front := by
  rw [List.takeWhile_append_of_pos]
  · simp
  · intro number inside
    simpa using ne_of_mem_of_not_mem inside nonzero

/-- The clauses of a list of integers are settled by it. -/
theorem Reads.unique {others : List (List Int)} {remainder : List Int}
    (reads : Reads numbers clauses rest) (again : Reads numbers others remainder) :
    clauses = others ∧ rest = remainder := by
  have zeroless : ∀ {numbers rest : List Int}, Reads numbers [] rest → 0 ∉ numbers := by
    rintro numbers rest ⟨rfl, _, absent⟩
    exact absent
  have zero : ∀ {numbers rest : List Int} {clause : List Int} {clauses : List (List Int)},
      Reads numbers (clause :: clauses) rest → 0 ∈ numbers := by
    rintro numbers rest clause clauses ⟨rfl, _, _⟩
    simp [numbersOf]
  induction clauses generalizing numbers others with
  | nil =>
      cases others with
      | nil => exact ⟨rfl, reads.shape.symm.trans again.shape⟩
      | cons other others => exact absurd (zero again) (zeroless reads)
  | cons clause clauses induction =>
      cases others with
      | nil => exact absurd (zero reads) (zeroless again)
      | cons other others =>
          have shape : clause ++ 0 :: (numbersOf clauses ++ rest) =
              other ++ 0 :: (numbersOf others ++ remainder) := by
            simpa [numbersOf] using reads.shape.symm.trans again.shape
          have same : clause = other := by
            have fronts := congrArg (List.takeWhile (· ≠ 0)) shape
            rwa [takeWhile_front (reads.nonzero clause List.mem_cons_self),
              takeWhile_front (again.nonzero other List.mem_cons_self)] at fronts
          subst same
          have tails := List.cons.inj (List.append_cancel_left shape)
          obtain ⟨rfl, rfl⟩ := induction
            ⟨rfl, fun other inside => reads.nonzero other (List.mem_cons_of_mem _ inside),
              reads.unfinished⟩
            ⟨tails.2, fun clause inside => again.nonzero clause (List.mem_cons_of_mem _ inside),
              again.unfinished⟩
          exact ⟨rfl, rfl⟩

/-! ## Variables -/

/-- The number of variables that are declared.  A count of more than 63 bits declares none. -/
def Header.declaredCount (header : Header) : Nat :=
  if header.variableCount < Nat.pow 2 63 then header.variableCount else 0

/-- The numbers of the variables in the order in which they are added: those that are
declared, and then each other one where it occurs first. -/
def variableOrder (declared : Nat) (numbers : List Int) : List Nat :=
  List.range' 1 declared ++
    (((numbers.filter (· ≠ 0)).map Int.natAbs).filter (declared < ·)).eraseDups

def Document.order (document : Document) : List Nat :=
  variableOrder (document.header.elim 0 Header.declaredCount) document.numbers.toList

theorem mem_variableOrder {declared number : Nat} :
    number ∈ variableOrder declared numbers ↔
      1 ≤ number ∧ number ≤ declared ∨ ∃ other ∈ numbers, other ≠ 0 ∧ other.natAbs = number := by
  simp only [variableOrder, List.mem_append, List.mem_range'_1, List.mem_eraseDups,
    List.mem_filter, List.mem_map, decide_eq_true_eq, ne_eq]
  constructor
  · rintro (declared | ⟨⟨other, ⟨member, nonzero⟩, same⟩, _⟩)
    · exact .inl (by omega)
    · exact .inr ⟨other, member, nonzero, same⟩
  · rintro (declared | ⟨other, member, nonzero, same⟩)
    · exact .inl (by omega)
    · by_cases known : number ≤ declared
      · exact .inl (by omega)
      · exact .inr ⟨⟨other, ⟨member, nonzero⟩, same⟩, by omega⟩

/-- The declared variables come first, in the order of their numbers. -/
theorem idxOf_variableOrder {declared number : Nat} (numbers : List Int) (positive : 1 ≤ number)
    (inside : number ≤ declared) : (variableOrder declared numbers).idxOf number = number - 1 := by
  have member : number ∈ List.range' 1 declared := by
    rw [List.mem_range'_1]
    omega
  have short : number - 1 < (List.range' 1 declared).length := by
    rw [List.length_range']
    omega
  have placed := (List.nodup_range' (s := 1) (n := declared)).idxOf_getElem (number - 1) short
  rw [List.getElem_range', Nat.one_mul, Nat.add_sub_cancel' positive] at placed
  rw [variableOrder, List.idxOf_append_of_mem member, placed]

/-- The variables of a formula are those that its heading declares and those that its clauses
mention. -/
theorem mem_variableOrder_numbersOf {declared number : Nat}
    (nonzero : ∀ clause ∈ clauses, ∀ literal ∈ clause, literal ≠ 0) :
    number ∈ variableOrder declared (numbersOf clauses) ↔ 1 ≤ number ∧ number ≤ declared ∨
      ∃ clause ∈ clauses, ∃ literal ∈ clause, literal.natAbs = number := by
  rw [mem_variableOrder]
  apply or_congr Iff.rfl
  constructor
  · rintro ⟨literal, member, different, same⟩
    obtain ⟨clause, inside, within⟩ := (mem_numbersOf different).mp member
    exact ⟨clause, inside, literal, within, same⟩
  · rintro ⟨clause, inside, literal, within, same⟩
    have different := nonzero clause inside literal within
    exact ⟨literal, (mem_numbersOf different).mpr ⟨clause, inside, within⟩, different, same⟩

theorem variableOrder_nil (declared : Nat) :
    variableOrder declared [] = List.range' 1 declared := by
  simp [variableOrder]

theorem variableOrder_zero (declared : Nat) (numbers : List Int) :
    variableOrder declared (numbers ++ [0]) = variableOrder declared numbers := by
  simp [variableOrder]

/-- A further integer adds its variable, unless it is there. -/
theorem variableOrder_snoc (declared : Nat) (numbers : List Int) {number : Int}
    (nonzero : number ≠ 0) :
    variableOrder declared (numbers ++ [number]) =
      if number.natAbs ∈ variableOrder declared numbers then variableOrder declared numbers
      else variableOrder declared numbers ++ [number.natAbs] := by
  obtain ⟨others, listed⟩ : ∃ others, others =
    ((numbers.filter (· ≠ 0)).map Int.natAbs).filter (declared < ·) := ⟨_, rfl⟩
  have grown : variableOrder declared (numbers ++ [number]) =
      List.range' 1 declared ++
        (others ++ [number.natAbs].filter (declared < ·)).eraseDups := by
    simp [variableOrder, listed, nonzero]
  have former : variableOrder declared numbers = List.range' 1 declared ++ others.eraseDups := by
    rw [variableOrder, listed]
  rw [grown, former]
  -- A declared number is filtered out, and a repeated one is dropped at the end of the others.
  by_cases small : number.natAbs ≤ declared
  · have inside : number.natAbs ∈ List.range' 1 declared ++ others.eraseDups := by
      simp only [List.mem_append, List.mem_range'_1]
      omega
    have last : [number.natAbs].filter (declared < ·) = [] := by simp [small]
    rw [if_pos inside, last, List.append_nil]
  · have outside : number.natAbs ∉ List.range' 1 declared := by
      simp only [List.mem_range'_1]
      omega
    have last : [number.natAbs].filter (declared < ·) = [number.natAbs] := by
      simp [Nat.lt_of_not_le small]
    rw [last, List.eraseDups_append]
    by_cases known : number.natAbs ∈ others
    · simp [known, List.removeAll]
    · simp [known, outside, List.removeAll, List.eraseDups_cons]

/-! ## Bounds -/

theorem natAbs_lt_of_literal? {text : List Char} {number : Int}
    (read : literal? text = some number) : number.natAbs < Nat.pow 2 63 := by
  obtain ⟨word, different⟩ := Option.filter_eq_some_iff.mp read
  obtain ⟨_, bounded⟩ := Option.filter_eq_some_iff.mp word
  simp only [bne_iff_ne, ne_eq] at different
  simp only [decide_eq_true_eq] at bounded
  unfold Text.leastSigned at bounded different
  omega

theorem readNumbers_small (header : Option Header) (wanted : Option Nat) (before : Array Int)
    (items : List Item) (small : ∀ number ∈ before, number.natAbs < Nat.pow 2 63) :
    ∀ number ∈ (readNumbers header wanted before items).numbers, number.natAbs < Nat.pow 2 63 := by
  fun_induction readNumbers header wanted before items with
  | case1 | case2 | case3 | case4 | case5 => exact small
  | case6 wanted before line text items incomplete number read further induction =>
      apply induction
      intro other member
      rcases Array.mem_push.mp member with former | rfl
      · exact small other former
      · exact natAbs_lt_of_literal? read

theorem ofBytes_small (bytes : List UInt8) :
    ∀ number ∈ (Document.ofBytes bytes).numbers, number.natAbs < Nat.pow 2 63 := by
  have none : ∀ number ∈ (#[] : Array Int), number.natAbs < Nat.pow 2 63 := by simp
  unfold Document.ofBytes
  split
  · exact none
  · exact readNumbers_small _ _ _ _ none

/-- A document has no number of more than 63 bits. -/
theorem Document.order_bounded (bytes : List UInt8) :
    ∀ number ∈ (Document.ofBytes bytes).order, 1 ≤ number ∧ number < Nat.pow 2 63 := by
  intro number member
  rcases mem_variableOrder.mp member with ⟨positive, below⟩ | ⟨other, occurs, nonzero, rfl⟩
  · refine ⟨positive, Nat.lt_of_le_of_lt below ?_⟩
    cases (Document.ofBytes bytes).header with
    | none => decide
    | some header =>
      rw [Option.elim_some, Header.declaredCount]
      split
      · assumption
      · decide
  · exact ⟨Int.natAbs_pos.mpr nonzero, ofBytes_small bytes other (Array.mem_toList_iff.mp occurs)⟩

end ModelSearch.Dimacs
