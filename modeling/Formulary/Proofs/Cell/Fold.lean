import Formulary.Cell.Formula
import Formulary.Cell.Height

namespace Formulary

/-!
# Programs that fold into a formula

A postfix program is the writing of a tree when each of its cells stands behind
the programs of its operands.  Exactly such programs pass the check of their
height, and their formula is the infix writing of the same tree.  While a
program is folded, no piece is read that has not been made.
-/

namespace Code

/--
A program that writes a tree cell by cell, and the infix formula of that tree.
-/
inductive FoldsTo : Code → Phrase → Prop where
  | node
      {parts : List (Code × Phrase)}
      {cell : Cell}
      (operands : ∀ part ∈ parts, FoldsTo part.1 part.2)
      (counted : parts.length = cell.pops) :
      FoldsTo (parts.flatMap Prod.fst ++ [cell])
        (Phrase.ofCell cell (parts.map Prod.snd))

/--
Pieces of formula are made as values are left, and refused where operands are
missing.
-/
theorem length_phrases
    (index : Nat)
    (stack : List Phrase)
    (code : Code) :
    (phrases stack code).map List.length =
      (heightFrom index stack.length code).toOption := by
  induction code generalizing index stack with
  | nil => rfl
  | cons cell rest inductionHypothesis =>
      unfold phrases heightFrom
      split
      · rfl
      · rw [inductionHypothesis (index + 1), List.length_cons, List.length_drop,
          Cell.pushes]

/-- A program leaves one value when it folds into one piece. -/
theorem check_eq_ok_iff_phrases (code : Code) :
    check code = .ok () ↔ ∃ phrase, phrases [] code = some [phrase] := by
  have lengths := length_phrases 0 [] code
  unfold check height
  rw [List.length_nil] at lengths
  cases leaves : heightFrom 0 0 code with
  | error fault =>
      rw [leaves] at lengths
      have refused : phrases [] code = none := Option.map_eq_none_iff.mp lengths
      simp [refused]
  | ok finish =>
      rw [leaves] at lengths
      obtain ⟨pieces, folded, counted⟩ := Option.map_eq_some_iff.mp lengths
      rw [folded]
      match finish, pieces with
      | 0, [] => simp
      | 1, [only] => simp
      | _ + 2, _ :: _ :: _ => simp

/--
The programs of several trees, one after the other, fold into their formulas.
-/
theorem phrases_flatMap
    {parts : List (Code × Phrase)}
    (each :
      ∀ part ∈ parts, ∀ stack rest,
        phrases stack (part.1 ++ rest) = phrases (part.2 :: stack) rest)
    (stack : List Phrase)
    (rest : Code) :
    phrases stack (parts.flatMap Prod.fst ++ rest) =
      phrases ((parts.map Prod.snd).reverse ++ stack) rest := by
  induction parts generalizing stack with
  | nil => rfl
  | cons first others inductionHypothesis =>
      obtain ⟨firstFolds, othersFold⟩ := List.forall_mem_cons.mp each
      rw [List.flatMap_cons, List.append_assoc, firstFolds,
        inductionHypothesis othersFold, List.map_cons, List.reverse_cons,
        List.append_assoc, List.singleton_append]

/-- A cell takes the pieces on top, in the order in which they were made. -/
theorem phrases_cons_of_length
    {cell : Cell}
    {operands : List Phrase}
    (counted : operands.length = cell.pops)
    (stack : List Phrase)
    (rest : Code) :
    phrases (operands.reverse ++ stack) (cell :: rest) =
      phrases (Phrase.ofCell cell operands :: stack) rest := by
  have taken : operands.reverse.length = cell.pops := by
    rw [List.length_reverse, counted]
  have enough : ¬ (operands.reverse ++ stack).length < cell.pops := by
    rw [List.length_append]
    omega
  rw [phrases, if_neg enough, List.take_left' taken, List.drop_left' taken,
    List.reverse_reverse]

/--
The program of a tree folds into its formula, whatever stands before and behind
it.
-/
theorem FoldsTo.phrases_append
    {code : Code}
    {phrase : Phrase}
    (folds : FoldsTo code phrase)
    (stack : List Phrase)
    (rest : Code) :
    phrases stack (code ++ rest) = phrases (phrase :: stack) rest := by
  induction folds generalizing stack rest with
  | node operands counted inductionHypothesis =>
      rw [List.append_assoc, phrases_flatMap inductionHypothesis,
        List.singleton_append,
        phrases_cons_of_length (by rw [List.length_map, counted])]

/-- Whatever a program folds into, it is made of the programs of trees. -/
theorem exists_parts_of_phrases
    (parts : List (Code × Phrase))
    (each : ∀ part ∈ parts, FoldsTo part.1 part.2)
    {code : Code}
    {pieces : List Phrase}
    (folded : phrases (parts.map Prod.snd).reverse code = some pieces) :
    ∃ made : List (Code × Phrase),
      (∀ part ∈ made, FoldsTo part.1 part.2) ∧
      pieces = (made.map Prod.snd).reverse ∧
      made.flatMap Prod.fst = parts.flatMap Prod.fst ++ code := by
  induction code generalizing parts with
  | nil =>
      cases folded
      exact ⟨parts, each, rfl, (List.append_nil _).symm⟩
  | cons cell rest inductionHypothesis =>
      by_cases short : (parts.map Prod.snd).reverse.length < cell.pops
      · rw [phrases, if_pos short] at folded
        cases folded
      · rw [List.length_reverse, List.length_map] at short
        -- The cell joins as many trees at the end as it has operands.
        obtain ⟨kept, operands, rfl, counted⟩ :
            ∃ kept operands,
              parts = kept ++ operands ∧ operands.length = cell.pops :=
          ⟨_, _, (List.take_append_drop (parts.length - cell.pops) parts).symm,
            by rw [List.length_drop]; omega⟩
        rw [List.map_append, List.reverse_append,
          phrases_cons_of_length (by rw [List.length_map, counted])] at folded
        obtain ⟨keptFold, operandsFold⟩ := List.forall_mem_append.mp each
        let joined : Code × Phrase :=
          (operands.flatMap Prod.fst ++ [cell],
            Phrase.ofCell cell (operands.map Prod.snd))
        have joinedFolds : FoldsTo joined.1 joined.2 :=
          .node operandsFold counted
        obtain ⟨made, madeFold, same, whole⟩ :=
          inductionHypothesis (kept ++ [joined])
            (List.forall_mem_append.mpr
              ⟨keptFold, List.forall_mem_singleton.mpr joinedFolds⟩)
            (by simpa [joined] using folded)
        exact ⟨made, madeFold, same, by simpa [joined] using whole⟩

/-- A program folds into one piece when it is the program of a tree. -/
theorem phrases_eq_singleton_iff
    {code : Code}
    {phrase : Phrase} :
    phrases [] code = some [phrase] ↔ FoldsTo code phrase := by
  constructor
  · intro folded
    obtain ⟨made, each, same, whole⟩ :=
      exists_parts_of_phrases [] (List.forall_mem_nil _) folded
    obtain ⟨⟨program, formula⟩, rfl, isPhrase⟩ :=
      List.map_eq_singleton_iff.mp (List.reverse_eq_iff.mp same.symm)
    cases isPhrase
    have isCode : program = code := by simpa using whole
    exact isCode ▸ each (program, formula) List.mem_cons_self
  · intro folds
    have folded := folds.phrases_append [] []
    rwa [List.append_nil] at folded

theorem check_eq_ok_iff_foldsTo (code : Code) :
    check code = .ok () ↔ ∃ phrase, FoldsTo code phrase := by
  simp only [check_eq_ok_iff_phrases, phrases_eq_singleton_iff]

theorem FoldsTo.formula_eq
    {code : Code}
    {phrase : Phrase}
    (folds : FoldsTo code phrase) :
    formula code = phrase.text := by
  rw [formula, phrases_eq_singleton_iff.mpr folds]

theorem formula_of_not_check
    {code : Code}
    (refused : check code ≠ .ok ()) :
    formula code = postfixText code := by
  unfold formula
  split
  · rename_i phrase folded
    exact absurd ((check_eq_ok_iff_phrases code).mpr ⟨phrase, folded⟩) refused
  · rfl

end Code

/-! The same fold, with its pieces read by position. -/

namespace Phrase

/--
The formula of a cell, with operands read by position: nothing if one is
missing.
-/
def ofCellByPosition (cell : Cell) (operands : List Phrase) : Option Phrase :=
  match cell with
  | .op .negate => do
      let operand ← operands[0]?
      return ⟨"-" ++ operand.asOperand .primary, .unary⟩
  | .op .square => do
      let base ← operands[0]?
      return ⟨base.asOperand .unary ++ " ^ 2", .power⟩
  | .op (.binary op) => do
      let right ← operands[operands.length - 1]?
      let left ← operands[operands.length - 2]?
      return binary op left right
  | other => some (ofCell other operands)

/-- A cell that has its operands reads only those. -/
theorem ofCellByPosition_eq
    {cell : Cell}
    {operands : List Phrase}
    (counted : operands.length = cell.pops) :
    ofCellByPosition cell operands = some (ofCell cell operands) := by
  unfold ofCellByPosition
  split
  · obtain ⟨operand, rfl⟩ := List.length_eq_one_iff.mp counted
    rfl
  · obtain ⟨base, rfl⟩ := List.length_eq_one_iff.mp counted
    rfl
  · match operands, counted with
    | [left, right], _ => rfl
  · rfl

end Phrase

namespace Code

/--
A list split off at a place: nothing when the place lies outside the list.
-/
def splitAt? (place : Nat) (items : List α) : Option (List α × List α) :=
  if place ≤ items.length then some (items.splitAt place) else none

/--
Fold a program with the pieces in the order in which they are made.  Nothing
comes out if a piece is read where there is none; `none` inside is a refusal.
-/
def phrasesByPosition
    (pieces : List Phrase) :
    Code → Option (Option (List Phrase))
  | [] => some (some pieces)
  | cell :: rest =>
      if pieces.length < cell.pops then some none
      else do
        let (kept, operands) ← splitAt? (pieces.length - cell.pops) pieces
        let phrase ← Phrase.ofCellByPosition cell operands
        phrasesByPosition (kept ++ [phrase]) rest

theorem phrasesByPosition_eq
    (pieces : List Phrase)
    (code : Code) :
    phrasesByPosition pieces code =
      some ((phrases pieces.reverse code).map List.reverse) := by
  induction code generalizing pieces with
  | nil => simp [phrasesByPosition, phrases]
  | cons cell rest inductionHypothesis =>
      by_cases short : pieces.length < cell.pops
      · simp [phrasesByPosition, phrases, short]
      · obtain ⟨kept, operands, rfl, counted⟩ :
            ∃ kept operands,
              pieces = kept ++ operands ∧ operands.length = cell.pops :=
          ⟨_, _,
            (List.take_append_drop (pieces.length - cell.pops) pieces).symm,
            by rw [List.length_drop]; omega⟩
        have place : (kept ++ operands).length - cell.pops = kept.length := by
          rw [List.length_append, counted, Nat.add_sub_cancel]
        have split : splitAt? kept.length (kept ++ operands) =
            some (kept, operands) := by
          simp [splitAt?, List.splitAt_eq]
        rw [phrasesByPosition, if_neg short, place, split, List.reverse_append,
          phrases_cons_of_length counted]
        change (Phrase.ofCellByPosition cell operands >>= fun phrase =>
          phrasesByPosition (kept ++ [phrase]) rest) = _
        rw [Phrase.ofCellByPosition_eq counted, Option.bind_eq_bind,
          Option.bind_some, inductionHypothesis, List.reverse_append,
          List.reverse_singleton, List.singleton_append]

/-- The formula of a program, with pieces read by position. -/
def formulaByPosition (code : Code) : Option String := do
  match ← phrasesByPosition [] code with
  | none => return postfixText code
  | some pieces =>
      if pieces.length = 1 then return (← pieces[0]?).text
      else return postfixText code

/-- No piece is read that is not there. -/
theorem formulaByPosition_eq
    (code : Code) :
    formulaByPosition code = some (formula code) := by
  rw [formulaByPosition, phrasesByPosition_eq, List.reverse_nil, formula]
  match phrases [] code with
  | none | some [] | some [_] => rfl
  | some (_ :: _ :: _) => simp

end Code

end Formulary
